import SharpSyntax.Grammar.Expressions

/-!
# What a list of tokens derives

The grammar as relations between lists of tokens and the trees they stand for, one relation to a
construct. A derivation uses every token of its list once and in order, and its tree is the tree
that the tokens mean:

* binary operators are folded to the left, each with an operand on its right that binds tighter;
* a semicolon behind a statement, parentheses and the commas between items leave no trace;
* declarations remember the offset of their first token, a class the one of the word `class`.

The relations say nothing of where one construct has to stop and the next one begins. That is the
business of the parser, which reads one of the derivations that a list of tokens may have.
-/

namespace SharpSyntax.Derives

open Grammar

/-! ## Names and types -/

/-- Identifiers with a dot in front of each. -/
inductive NameTail : List Token → List Token → Prop where
  | nil : NameTail [] []
  | cons {dot name : Token} {ts names : List Token} :
      dot.isSymbol "." → name.kind = Kind.identifier → NameTail ts names →
      NameTail (dot :: name :: ts) (name :: names)

/-- Identifiers with a dot between every two. -/
inductive Name : List Token → QualifiedName → Prop where
  | mk {head : Token} {ts tail : List Token} :
      head.kind = Kind.identifier → NameTail ts tail → Name (head :: ts) ⟨head, tail⟩

mutual

/-- A reserved word or a name, with generic arguments behind it. -/
inductive TypeRef : List Token → TypeExpr → Prop where
  | word {word : Token} {ts : List Token} {generics : List TypeExpr} :
      word.kind = Kind.keyword → Generics ts generics →
      TypeRef (word :: ts) ⟨true, word.text, generics⟩
  | name {ts us : List Token} {name : QualifiedName} {generics : List TypeExpr} :
      Name ts name → Generics us generics → TypeRef (ts ++ us) ⟨false, name.dotted, generics⟩

/-- Types between angle brackets, or nothing. -/
inductive Generics : List Token → List TypeExpr → Prop where
  | absent : Generics [] []
  | present {opening closing : Token} {ts : List Token} {types : List TypeExpr} :
      opening.isSymbol "<" → Types ts types → closing.isSymbol ">" →
      Generics (opening :: (ts ++ [closing])) types

/-- One type or more, with a comma between every two. -/
inductive Types : List Token → List TypeExpr → Prop where
  | last {ts : List Token} {type : TypeExpr} : TypeRef ts type → Types ts [type]
  | more {comma : Token} {ts us : List Token} {type : TypeExpr} {types : List TypeExpr} :
      TypeRef ts type → comma.isSymbol "," → Types us types →
      Types (ts ++ comma :: us) (type :: types)

end

/-! ## Parts of declarations -/

/-- Names of generic parameters between commas; a comma may stand behind the last. -/
inductive Parameters : List Token → List String → Prop where
  | none : Parameters [] []
  | last {name : Token} : name.kind = Kind.identifier → Parameters [name] [name.text]
  | more {name comma : Token} {ts : List Token} {names : List String} :
      name.kind = Kind.identifier → comma.isSymbol "," → Parameters ts names →
      Parameters (name :: comma :: ts) (name.text :: names)

/-- Generic parameters between angle brackets, or nothing. -/
inductive GenericNames : List Token → List String → Prop where
  | absent : GenericNames [] []
  | present {opening closing : Token} {ts : List Token} {names : List String} :
      opening.isSymbol "<" → Parameters ts names → closing.isSymbol ">" →
      GenericNames (opening :: (ts ++ [closing])) names

/-- Base types behind a colon, or nothing. -/
inductive Bases : List Token → List TypeExpr → Prop where
  | absent : Bases [] []
  | present {colon : Token} {ts : List Token} {types : List TypeExpr} :
      colon.isSymbol ":" → Types ts types → Bases (colon :: ts) types

/-- Modifier words. -/
inductive Modifiers : List Token → List String → Prop where
  | nil : Modifiers [] []
  | cons {word : Token} {ts : List Token} {mods : List String} :
      word.kind = Kind.keyword → word.text ∈ modifiers → Modifiers ts mods →
      Modifiers (word :: ts) (word.text :: mods)

/-- The word `static`, or nothing. -/
inductive Static : List Token → Bool → Prop where
  | absent : Static [] false
  | present {word : Token} : word.isKeyword "static" → Static [word] true

/-- A name with an equals sign behind it, or nothing. The sign is told by its text alone. -/
inductive Alias : List Token → Option String → Prop where
  | absent : Alias [] none
  | present {name sign : Token} :
      name.kind = Kind.identifier → sign.text = "=" → Alias [name, sign] (some name.text)

/-- The target of a using directive, with a name of its own in front and a semicolon behind. -/
inductive UsingTarget : Bool → List Token → UsingDirective → Prop where
  | mk {isStatic : Bool} {semicolon : Token} {as ts : List Token} {aliasName : Option String}
      {target : QualifiedName} :
      Alias as aliasName → Name ts target → semicolon.isSymbol ";" →
      UsingTarget isStatic (as ++ ts ++ [semicolon]) ⟨aliasName, isStatic, target⟩

/-- A using directive. -/
inductive Using : List Token → UsingDirective → Prop where
  | mk {word : Token} {ss ts : List Token} {isStatic : Bool} {directive : UsingDirective} :
      word.isKeyword "using" → Static ss isStatic → UsingTarget isStatic ts directive →
      Using (word :: (ss ++ ts)) directive

/-! ## Expressions, statements and declarations -/

mutual

/-- Operands with operators that bind at least as tightly as a minimum, folded to the left. -/
inductive Expr : Nat → List Token → Node → Prop where
  | operand {minimum : Nat} {ts : List Token} {node : Node} : Operand ts node → Expr minimum ts node
  | binary {minimum precedence : Nat} {operator : Token} {ts us : List Token} {left right : Node} :
      Expr minimum ts left → operator.kind = Kind.symbol →
      binaryPrecedence? operator.text = some precedence → minimum ≤ precedence →
      Expr (precedence + 1) us right →
      Expr minimum (ts ++ operator :: us) (.binary operator.text left right)

/-- An operand by itself or behind a prefix operator. -/
inductive Operand : List Token → Node → Prop where
  | primary {ts : List Token} {node : Node} : Primary ts node → Operand ts node
  | prefixed {operator : Token} {ts : List Token} {node : Node} :
      operator.kind = Kind.symbol → operator.text ∈ prefixOperators →
      Expr prefixPrecedence ts node → Operand (operator :: ts) (.prefixed operator.text node)

/-- What an expression is made of. -/
inductive Primary : List Token → Node → Prop where
  | literal {token : Token} : token.kind ∈ literalKinds →
      Primary [token] (.literal token.kind token.text)
  | template {token : Token} : token.kind = Kind.template →
      Primary [token]
        (.template token.text ((templateHoles token.text.toList).map String.ofList))
  | identifier {ts : List Token} {node : Node} : Identifier ts node → Primary ts node
  | parentheses {opening closing : Token} {ts : List Token} {node : Node} :
      opening.isSymbol "(" → Expr 0 ts node → closing.isSymbol ")" →
      Primary (opening :: (ts ++ [closing])) node
  | classDeclaration {ts : List Token} {declaration : ClassDecl} :
      Class [] ts declaration → Primary ts (.classDeclaration declaration)
  | usingDirective {ts : List Token} {directive : UsingDirective} :
      Using ts directive → Primary ts (.usingDirective directive)
  | fileNamespace {word semicolon : Token} {ts : List Token} {name : QualifiedName} :
      word.isKeyword "namespace" → Name ts name → semicolon.isSymbol ";" →
      Primary (word :: (ts ++ [semicolon])) (.namespaceDeclaration name [] word.offset)
  | namespaceBody {word : Token} {ts us : List Token} {name : QualifiedName}
      {members : List Member} :
      word.isKeyword "namespace" → Name ts name → Members true us members →
      Primary (word :: (ts ++ us)) (.namespaceDeclaration name members word.offset)
  | ifStatement {word : Token} {cs bs rest : List Token} {condition : Node}
      {consequent : List Node} {alternate : Alternate} :
      word.isKeyword "if" → Condition cs condition → Block bs consequent → Else rest alternate →
      Primary (word :: (cs ++ bs ++ rest)) (.ifStatement condition consequent alternate)
  | whileStatement {word : Token} {cs bs : List Token} {condition : Node}
      {consequent : List Node} :
      word.isKeyword "while" → Condition cs condition → Block bs consequent →
      Primary (word :: (cs ++ bs)) (.whileStatement condition consequent)

/-- An access chain with its increments, or an assignment to it. -/
inductive Identifier : List Token → Node → Prop where
  | value {ts : List Token} {node : Node} : Postfix ts node → Identifier ts node
  | assignment {sign : Token} {ts us : List Token} {left right : Node} :
      Postfix ts left → sign.isSymbol "=" → Expr 0 us right →
      Identifier (ts ++ sign :: us) (.assignment left right)

/-- An access chain with increments and decrements behind it. -/
inductive Postfix : List Token → Node → Prop where
  | chain {target : Token} {ts : List Token} {body : List Access} :
      target.kind = Kind.identifier → Chain ts body → Postfix (target :: ts) (.access target body)
  | postfixed {operator : Token} {ts : List Token} {node : Node} :
      Postfix ts node → operator.isSymbol "++" ∨ operator.isSymbol "--" →
      Postfix (ts ++ [operator]) (.postfixed operator.text node)

/-- The steps of an access chain. -/
inductive Chain : List Token → List Access → Prop where
  | nil : Chain [] []
  | member {dot name : Token} {ts : List Token} {body : List Access} :
      dot.isSymbol "." → name.kind = Kind.identifier → Chain ts body →
      Chain (dot :: name :: ts) (.member name :: body)
  | index {opening closing : Token} {ts us : List Token} {node : Node} {body : List Access} :
      opening.isSymbol "[" → Expr 0 ts node → closing.isSymbol "]" → Chain us body →
      Chain (opening :: (ts ++ closing :: us)) (.index node :: body)
  | call {ts us : List Token} {arguments : List Node} {body : List Access} :
      Arguments ts arguments → Chain us body → Chain (ts ++ us) (.call arguments :: body)

/-- Items between parentheses. -/
inductive Arguments : List Token → List Node → Prop where
  | mk {opening closing : Token} {ts : List Token} {items : List Node} :
      opening.isSymbol "(" → Items ts items → closing.isSymbol ")" →
      Arguments (opening :: (ts ++ [closing])) items

/-- Expressions between commas; a comma may stand behind the last. -/
inductive Items : List Token → List Node → Prop where
  | none : Items [] []
  | last {ts : List Token} {node : Node} : Expr 0 ts node → Items ts [node]
  | more {comma : Token} {ts us : List Token} {node : Node} {items : List Node} :
      Expr 0 ts node → comma.isSymbol "," → Items us items →
      Items (ts ++ comma :: us) (node :: items)

/-- Statements, one after the other. -/
inductive Body : List Token → List Node → Prop where
  | nil : Body [] []
  | cons {ts us : List Token} {node : Node} {nodes : List Node} :
      Statement ts node → Body us nodes → Body (ts ++ us) (node :: nodes)

/-- An expression, with or without a semicolon behind it. -/
inductive Statement : List Token → Node → Prop where
  | bare {ts : List Token} {node : Node} : Expr 0 ts node → Statement ts node
  | ended {semicolon : Token} {ts : List Token} {node : Node} :
      Expr 0 ts node → semicolon.isSymbol ";" → Statement (ts ++ [semicolon]) node

/-- Statements between braces. -/
inductive Block : List Token → List Node → Prop where
  | mk {opening closing : Token} {ts : List Token} {nodes : List Node} :
      opening.isSymbol openBrace → Body ts nodes → closing.isSymbol closeBrace →
      Block (opening :: (ts ++ [closing])) nodes

/-- An expression between parentheses. -/
inductive Condition : List Token → Node → Prop where
  | mk {opening closing : Token} {ts : List Token} {node : Node} :
      opening.isSymbol "(" → Expr 0 ts node → closing.isSymbol ")" →
      Condition (opening :: (ts ++ [closing])) node

/-- What follows the block of an `if`. -/
inductive Else : List Token → Alternate → Prop where
  | none : Else [] .none
  | otherwise {word : Token} {ts : List Token} {nodes : List Node} :
      word.isKeyword "else" → Block ts nodes → Else (word :: ts) (.otherwise nodes)
  | elseIf {word word' : Token} {cs bs rest : List Token} {condition : Node}
      {consequent : List Node} {alternate : Alternate} :
      word.isKeyword "else" → word'.isKeyword "if" → Condition cs condition →
      Block bs consequent → Else rest alternate →
      Else (word :: word' :: (cs ++ bs ++ rest)) (.elseIf condition consequent alternate)

/-- A class, with the modifiers that stand in front of it. -/
inductive Class : List String → List Token → ClassDecl → Prop where
  | mk {word name : Token} {gs bs ms : List Token} {generics mods : List String}
      {bases : List TypeExpr} {members : List Member} :
      word.isKeyword "class" → name.kind = Kind.identifier → GenericNames gs generics →
      Bases bs bases → Members false ms members →
      Class mods (word :: name :: (gs ++ bs ++ ms))
        ⟨name.text, generics, bases, members, mods, word.offset⟩

/-- Members between braces; using directives are members of namespaces only. -/
inductive Members : Bool → List Token → List Member → Prop where
  | mk {inNamespace : Bool} {opening closing : Token} {ts : List Token} {members : List Member} :
      opening.isSymbol openBrace → MemberList inNamespace ts members →
      closing.isSymbol closeBrace → Members inNamespace (opening :: (ts ++ [closing])) members

/-- Members, one after the other. -/
inductive MemberList : Bool → List Token → List Member → Prop where
  | nil {inNamespace : Bool} : MemberList inNamespace [] []
  | cons {inNamespace : Bool} {ts us : List Token} {member : Member} {members : List Member} :
      BodyMember inNamespace ts member → MemberList inNamespace us members →
      MemberList inNamespace (ts ++ us) (member :: members)

/-- A member of a class or of a namespace. -/
inductive BodyMember : Bool → List Token → Member → Prop where
  | declaration {inNamespace : Bool} {ms ts : List Token} {mods : List String} {member : Member} :
      Modifiers ms mods → Unmodified mods ((ms ++ ts).head?.map Token.offset) ts member →
      BodyMember inNamespace (ms ++ ts) member
  | usingDirective {ts : List Token} {directive : UsingDirective} :
      Using ts directive → BodyMember true ts (.usingDirective directive)

/-- What stands behind the modifiers of a member that begins at an offset. -/
inductive Unmodified : List String → Option Nat → List Token → Member → Prop where
  | nested {mods : List String} {start : Option Nat} {ts : List Token} {declaration : ClassDecl} :
      Class mods ts declaration → Unmodified mods start ts (.nested declaration)
  | field {mods : List String} {offset : Nat} {name semicolon : Token} {ts : List Token}
      {type : TypeExpr} :
      TypeRef ts type → name.kind = Kind.identifier → semicolon.isSymbol ";" →
      Unmodified mods (some offset) (ts ++ [name, semicolon]) (.field mods type name.text offset)
  | method {mods : List String} {offset : Nat} {name : Token} {ts us : List Token}
      {type : TypeExpr} {member : Member} :
      TypeRef ts type → name.kind = Kind.identifier → Method mods type name.text offset us member →
      Unmodified mods (some offset) (ts ++ name :: us) member

/-- Parameters, then a body or a semicolon. -/
inductive Method : List String → TypeExpr → String → Nat → List Token → Member → Prop where
  | signature {mods : List String} {type : TypeExpr} {name : String} {offset : Nat}
      {semicolon : Token} {ts : List Token} {parameters : List Node} :
      Arguments ts parameters → semicolon.isSymbol ";" →
      Method mods type name offset (ts ++ [semicolon])
        (.signature mods type name parameters offset)
  | body {mods : List String} {type : TypeExpr} {name : String} {offset : Nat}
      {ts bs : List Token} {parameters nodes : List Node} :
      Arguments ts parameters → Block bs nodes →
      Method mods type name offset (ts ++ bs) (.method mods type name parameters nodes offset)

end

/-! ## Every construct has a token -/

theorem Postfix.ne_nil {ts : List Token} {node : Node} (h : Postfix ts node) : ts ≠ [] := by
  cases h <;> simp

/-- An expression that begins with an identifier has a token. -/
theorem Identifier.ne_nil {ts : List Token} {node : Node} (h : Identifier ts node) : ts ≠ [] := by
  cases h with
  | value h => exact h.ne_nil
  | assignment => simp

/-- A class has its keyword. -/
theorem Class.ne_nil {mods : List String} {ts : List Token} {declaration : ClassDecl}
    (h : Class mods ts declaration) : ts ≠ [] := by
  cases h; simp

theorem Using.ne_nil {ts : List Token} {directive : UsingDirective} (h : Using ts directive) :
    ts ≠ [] := by
  cases h; simp

theorem Primary.ne_nil {ts : List Token} {node : Node} (h : Primary ts node) : ts ≠ [] := by
  cases h with
  | identifier h => exact h.ne_nil
  | classDeclaration h => exact h.ne_nil
  | usingDirective h => exact h.ne_nil
  | _ => simp

/-- An operand has a token. -/
theorem Operand.ne_nil {ts : List Token} {node : Node} (h : Operand ts node) : ts ≠ [] := by
  cases h with
  | primary h => exact h.ne_nil
  | prefixed => simp

/-- An expression has the tokens of its first operand. -/
theorem Expr.ne_nil {minimum : Nat} {ts : List Token} {node : Node} (h : Expr minimum ts node) :
    ts ≠ [] := by
  cases h with
  | operand h => exact h.ne_nil
  | binary => simp

theorem Unmodified.ne_nil {mods : List String} {start : Option Nat} {ts : List Token}
    {member : Member} (h : Unmodified mods start ts member) : ts ≠ [] := by
  cases h with
  | nested h => exact h.ne_nil
  | field => simp
  | method => simp

/-- A member has a token, with modifiers or without. -/
theorem BodyMember.ne_nil {inNamespace : Bool} {ts : List Token} {member : Member}
    (h : BodyMember inNamespace ts member) : ts ≠ [] := by
  cases h with
  | declaration _ h => simp [h.ne_nil]
  | usingDirective h => exact h.ne_nil

end SharpSyntax.Derives
