import SharpSyntax.Proofs.Spelling

/-!
# How programs are written

Every statement of a program, a block or a method body is written with one semicolon behind it, and
everything else as the grammar has it. A name stored as one text is cut at its dots.

A declaration stores the offset of a token that it does not store, so that the piece of this token
is the one piece of the declaration whose offset is prescribed.

A namespace without members can be written in two ways. Which of them is left open: `bare` says at
which offsets a namespace is written with a semicolon.
-/

namespace SharpSyntax

open Grammar

namespace Piece

/-- A reserved word. -/
def keyword (text : String) : Piece := ⟨.keyword, text, none⟩

/-- A name. -/
def identifier (text : String) : Piece := ⟨.identifier, text, none⟩

/-- A keyword is told by its kind and its text. -/
theorem matches_keyword {text : String} {token : Token} :
    (keyword text).Matches token ↔ token.isKeyword text = true := by
  rw [Token.isKeyword_iff]
  constructor
  · rintro ⟨hkind, htext, -⟩
    exact ⟨hkind, htext⟩
  · rintro ⟨hkind, htext⟩
    exact ⟨hkind, htext, fun _ h => by cases h⟩

theorem matches_identifier {text : String} {token : Token} :
    (identifier text).Matches token ↔ token.kind = Kind.identifier ∧ token.text = text := by
  constructor
  · rintro ⟨hkind, htext, -⟩
    exact ⟨hkind, htext⟩
  · rintro ⟨hkind, htext⟩
    exact ⟨hkind, htext, fun _ h => by cases h⟩

/-- A reserved word at an offset. -/
def keywordAt (text : String) (offset : Nat) : Piece := ⟨.keyword, text, some offset⟩

theorem matches_keywordAt {text : String} {offset : Nat} {token : Token} :
    (keywordAt text offset).Matches token ↔
      token.isKeyword text = true ∧ token.offset = offset := by
  rw [Token.isKeyword_iff, and_assoc]
  constructor
  · rintro ⟨hkind, htext, hoffset⟩
    exact ⟨hkind, htext, hoffset offset rfl⟩
  · rintro ⟨hkind, htext, hoffset⟩
    exact ⟨hkind, htext, fun _ h => by cases h; exact hoffset⟩

/-- Pieces of which the first one is at an offset. -/
def startingAt (offset : Nat) : List Piece → List Piece
  | [] => []
  | piece :: pieces => { piece with offset := some offset } :: pieces

@[simp] theorem startingAt_eq_nil {offset : Nat} {pieces : List Piece} :
    startingAt offset pieces = [] ↔ pieces = [] := by
  cases pieces <;> simp [startingAt]

end Piece

/-- Pieces in braces. -/
def braced (pieces : List Piece) : List Piece :=
  .symbol openBrace :: (pieces ++ [.symbol closeBrace])

/-! ## Names and types -/

/-- Names with a dot in front of each. -/
def behindDots : List Piece → List Piece
  | [] => []
  | piece :: pieces => .symbol "." :: piece :: behindDots pieces

/-- How a qualified name is written. -/
def QualifiedName.spelling (name : QualifiedName) : List Piece :=
  .exactly name.head :: behindDots (name.tail.map .exactly)

/-- The texts between the dots of a text. -/
def nameParts (name : String) : List String := (name.toList.splitOn '.').map String.ofList

/-- A name that was cut at its dots is joined at them again. -/
theorem intercalate_nameParts (name : String) : ".".intercalate (nameParts name) = name := by
  rw [← String.toList_inj, String.toList_intercalate, nameParts, List.map_map]
  have hmap : (name.toList.splitOn '.').map (String.toList ∘ String.ofList) =
      name.toList.splitOn '.' := by
    simp [Function.comp_def]
  rw [hmap]
  exact List.intercalate_splitOn '.'

/-- There is a first part, which is empty where the text is. -/
theorem headD_cons_tail_nameParts (name : String) :
    (nameParts name).headD "" :: (nameParts name).tail = nameParts name := by
  have hne : nameParts name ≠ [] := by
    rw [nameParts, ne_eq, List.map_eq_nil_iff]
    exact List.splitOn_ne_nil '.' _
  obtain ⟨part, parts, h⟩ := List.exists_cons_of_ne_nil hne
  rw [h]
  rfl

mutual

/-- How a type is written. -/
def TypeExpr.spelling : TypeExpr → List Piece
  | ⟨true, name, generics⟩ => .keyword name :: genericsSpelling generics
  | ⟨false, name, generics⟩ =>
    .identifier ((nameParts name).headD "") ::
      (behindDots ((nameParts name).tail.map .identifier) ++ genericsSpelling generics)

/-- How generic arguments are written. -/
def genericsSpelling : List TypeExpr → List Piece
  | [] => []
  | type :: types => .symbol "<" :: (type.spelling ++ furtherTypesSpelling types ++ [.symbol ">"])

/-- How the types behind the first one are written. -/
def furtherTypesSpelling : List TypeExpr → List Piece
  | [] => []
  | type :: types => .symbol "," :: (type.spelling ++ furtherTypesSpelling types)

end

/-- How types are written between commas. -/
def typesSpelling : List TypeExpr → List Piece
  | [] => []
  | type :: types => type.spelling ++ furtherTypesSpelling types

/-- How names are written between commas. -/
def parametersSpelling : List String → List Piece
  | [] => []
  | [name] => [.identifier name]
  | name :: names => .identifier name :: .symbol "," :: parametersSpelling names

/-- How the generic parameters of a class are written. -/
def genericNamesSpelling : List String → List Piece
  | [] => []
  | names => .symbol "<" :: (parametersSpelling names ++ [.symbol ">"])

/-- How the base types of a class are written. -/
def basesSpelling : List TypeExpr → List Piece
  | [] => []
  | types => .symbol ":" :: typesSpelling types

/-- How the name that a using directive gives its target is written. -/
def aliasSpelling : Option String → List Piece
  | none => []
  | some name => [.identifier name, .symbol "="]

/-- How the word `static` is written, where it is. -/
def staticSpelling : Bool → List Piece
  | false => []
  | true => [.keyword "static"]

/-- How a using directive is written. -/
def UsingDirective.spelling : UsingDirective → List Piece
  | ⟨aliasName, isStatic, target⟩ =>
    .keyword "using" :: (staticSpelling isStatic ++
      (aliasSpelling aliasName ++ target.spelling ++ [.symbol ";"]))

/-! ## Statements and declarations -/

section

variable (bare : Nat → Bool)

mutual

/-- How a statement is written, without the semicolon behind it. -/
def Node.statementSpelling : Node → List Piece
  | .ifStatement condition consequent alternate =>
    .keyword "if" :: (enclosed true condition.spelling ++ braced (bodySpelling consequent) ++
      alternate.spelling)
  | .whileStatement condition consequent =>
    .keyword "while" :: (enclosed true condition.spelling ++ braced (bodySpelling consequent))
  | .classDeclaration declaration => declaration.spelling
  | .namespaceDeclaration name members offset =>
    .keywordAt "namespace" offset :: (name.spelling ++
      if members.isEmpty && bare offset then [.symbol ";"] else braced (membersSpelling members))
  | .usingDirective directive => directive.spelling
  | node => node.spelling

/-- How the statements of a body are written. -/
def bodySpelling : List Node → List Piece
  | [] => []
  | node :: nodes => node.statementSpelling ++ .symbol ";" :: bodySpelling nodes

/-- How the alternate of an `if` is written. -/
def Alternate.spelling : Alternate → List Piece
  | .none => []
  | .otherwise body => .keyword "else" :: braced (bodySpelling body)
  | .elseIf condition consequent alternate =>
    .keyword "else" :: .keyword "if" :: (enclosed true condition.spelling ++
      braced (bodySpelling consequent) ++ alternate.spelling)

/-- How a class is written, without the modifiers in front of it. -/
def ClassDecl.spelling : ClassDecl → List Piece
  | ⟨name, generics, bases, members, _, offset⟩ =>
    .keywordAt "class" offset :: .identifier name :: (genericNamesSpelling generics ++
      basesSpelling bases ++ braced (membersSpelling members))

/-- How a member is written. -/
def Member.spelling : Member → List Piece
  | .field modifiers type name offset =>
    Piece.startingAt offset (modifiers.map .keyword ++ type.spelling ++
      [.identifier name, .symbol ";"])
  | .signature modifiers type name parameters offset =>
    Piece.startingAt offset (modifiers.map .keyword ++ type.spelling ++
      .identifier name :: (enclosed true (itemsSpelling parameters) ++ [.symbol ";"]))
  | .method modifiers type name parameters body offset =>
    Piece.startingAt offset (modifiers.map .keyword ++ type.spelling ++
      .identifier name :: (enclosed true (itemsSpelling parameters) ++ braced (bodySpelling body)))
  | .nested declaration => declaration.modifiers.map .keyword ++ declaration.spelling
  | .usingDirective directive => directive.spelling

/-- How members are written. -/
def membersSpelling : List Member → List Piece
  | [] => []
  | member :: members => member.spelling ++ membersSpelling members

end

end

/-! ## Programs of the grammar -/

/-- The tokens of a name are identifiers. -/
def QualifiedName.WellFormed (name : QualifiedName) : Prop :=
  name.head.kind = Kind.identifier ∧ ∀ part ∈ name.tail, part.kind = Kind.identifier

/-- What may stand in front of the name of a member and is told from a nested class, a using
directive and further modifiers. -/
structure MemberType (inNamespace : Bool) (mods : List String) (type : TypeExpr) : Prop where
  mods_mem : ∀ word ∈ mods, word ∈ modifiers
  not_modifier : type.simple = true → type.name ∉ modifiers
  not_class : type.simple = true → type.name ≠ "class"
  not_using : type.simple = true → inNamespace = true → mods = [] → type.name ≠ "using"

mutual

/-- A node that is a statement of a program or a body. -/
inductive Node.IsStatement : Node → Prop where
  | expression {node : Node} : node.IsExpression → Node.IsStatement node
  | ifStatement {condition : Node} {consequent : List Node} {alternate : Alternate} :
      condition.IsExpression → (∀ node ∈ consequent, node.IsStatement) → alternate.WellFormed →
      Node.IsStatement (.ifStatement condition consequent alternate)
  | whileStatement {condition : Node} {consequent : List Node} :
      condition.IsExpression → (∀ node ∈ consequent, node.IsStatement) →
      Node.IsStatement (.whileStatement condition consequent)
  | classDeclaration {declaration : ClassDecl} :
      declaration.WellFormed → declaration.modifiers = [] →
      Node.IsStatement (.classDeclaration declaration)
  | namespaceDeclaration {name : QualifiedName} {members : List Member} {offset : Nat} :
      name.WellFormed → (∀ member ∈ members, member.WellFormed true) →
      Node.IsStatement (.namespaceDeclaration name members offset)
  | usingDirective {directive : UsingDirective} :
      directive.target.WellFormed → Node.IsStatement (.usingDirective directive)

/-- What follows the block of an `if` is made of statements. -/
inductive Alternate.WellFormed : Alternate → Prop where
  | none : Alternate.WellFormed .none
  | otherwise {body : List Node} :
      (∀ node ∈ body, node.IsStatement) → Alternate.WellFormed (.otherwise body)
  | elseIf {condition : Node} {consequent : List Node} {alternate : Alternate} :
      condition.IsExpression → (∀ node ∈ consequent, node.IsStatement) → alternate.WellFormed →
      Alternate.WellFormed (.elseIf condition consequent alternate)

/-- The members of a class are members of classes. -/
inductive ClassDecl.WellFormed : ClassDecl → Prop where
  | mk {name : String} {generics mods : List String} {bases : List TypeExpr}
      {members : List Member} {offset : Nat} :
      (∀ member ∈ members, member.WellFormed false) →
      ClassDecl.WellFormed ⟨name, generics, bases, members, mods, offset⟩

/-- A member of a namespace or of a class. -/
inductive Member.WellFormed : Bool → Member → Prop where
  | field {inNamespace : Bool} {mods : List String} {type : TypeExpr} {name : String}
      {offset : Nat} :
      MemberType inNamespace mods type →
      Member.WellFormed inNamespace (.field mods type name offset)
  | signature {inNamespace : Bool} {mods : List String} {type : TypeExpr} {name : String}
      {parameters : List Node} {offset : Nat} :
      MemberType inNamespace mods type → (∀ node ∈ parameters, node.IsExpression) →
      Member.WellFormed inNamespace (.signature mods type name parameters offset)
  | method {inNamespace : Bool} {mods : List String} {type : TypeExpr} {name : String}
      {parameters body : List Node} {offset : Nat} :
      MemberType inNamespace mods type → (∀ node ∈ parameters, node.IsExpression) →
      (∀ node ∈ body, node.IsStatement) →
      Member.WellFormed inNamespace (.method mods type name parameters body offset)
  | nested {inNamespace : Bool} {declaration : ClassDecl} :
      declaration.WellFormed → (∀ word ∈ declaration.modifiers, word ∈ modifiers) →
      Member.WellFormed inNamespace (.nested declaration)
  | usingDirective {directive : UsingDirective} :
      directive.target.WellFormed → Member.WellFormed true (.usingDirective directive)

end

end SharpSyntax
