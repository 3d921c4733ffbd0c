import SharpSyntax.Proofs.Contracts

/-!
# Shapes that the grammar keeps

The grammar makes nodes of nodes, lists of them, members of classes and so on, in the same way
whatever is said of the parts. *Shapes* are what is said of each kind of part, closed under the ways
in which the grammar puts parts together. Every routine keeps them where the rules it calls keep
them: it only appends to the diagnostics, what it makes has its shape, and where it declines it has
reported. The proofs go along the routines, loops by induction on their rounds and levels by
induction on their depth. Nothing is asked of the place where a routine begins.
-/

namespace SharpSyntax

open Parse Attempt Grammar

/-! ## Shapes -/

/-- Identifiers are joined to a name. -/
def NamesOnly (name : QualifiedName) : Prop :=
  name.head.kind = Kind.identifier ∧ ∀ token ∈ name.tail, token.kind = Kind.identifier

/-- What is said of each kind of part, and kept where the grammar puts parts together. A class is
told with its modifiers, and members are told for a class or for a namespace. -/
structure Shapes where
  node : Node → Prop
  operand : Node → Prop
  nodes : List Node → Prop
  steps : List Access → Prop
  alternate : Alternate → Prop
  classDeclaration : List String → ClassDecl → Prop
  member : Bool → Member → Prop
  members : Bool → List Member → Prop
  directive : UsingDirective → Prop
  foreign : Node → Prop
  -- what is a statement, an expression or a declaration
  literal {kind : Kind} {value : String} : kind ∈ literalKinds → node (.literal kind value)
  template {text : String} {holes : List String} : node (.template text holes)
  of_operand {made : Node} : operand made → node made
  prefixed {operator : String} {argument : Node} :
    operator ∈ prefixOperators → node argument → node (.prefixed operator argument)
  binary {operator : String} {left right : Node} :
    (binaryPrecedence? operator).isSome → node left → node right →
    node (.binary operator left right)
  assignment {left right : Node} : operand left → node right → node (.assignment left right)
  ifStatement {condition : Node} {consequent : List Node} {otherwise : Alternate} :
    node condition → nodes consequent → alternate otherwise →
    node (.ifStatement condition consequent otherwise)
  whileStatement {condition : Node} {consequent : List Node} :
    node condition → nodes consequent → node (.whileStatement condition consequent)
  of_class {declaration : ClassDecl} :
    classDeclaration [] declaration → node (.classDeclaration declaration)
  namespaceDeclaration {name : QualifiedName} {content : List Member} {offset : Nat} :
    NamesOnly name → members true content → node (.namespaceDeclaration name content offset)
  of_directive {made : UsingDirective} : directive made → node (.usingDirective made)
  of_foreign {made : Node} : foreign made → node made
  -- what increments and assignments go with
  access {target : Token} {body : List Access} :
    target.kind = Kind.identifier → steps body → operand (.access target body)
  postfixed {operator : String} {argument : Node} :
    operator = "++" ∨ operator = "--" → operand argument → operand (.postfixed operator argument)
  -- lists of parts
  nodes_nil : nodes []
  nodes_cons {first : Node} {rest : List Node} : node first → nodes rest → nodes (first :: rest)
  nodes_append {body more : List Node} : nodes body → nodes more → nodes (body ++ more)
  steps_nil : steps []
  steps_member {name : Token} {rest : List Access} :
    name.kind = Kind.identifier → steps rest → steps (.member name :: rest)
  steps_index {index : Node} {rest : List Access} :
    node index → steps rest → steps (.index index :: rest)
  steps_call {arguments : List Node} {rest : List Access} :
    nodes arguments → steps rest → steps (.call arguments :: rest)
  -- what follows the block of an `if`
  alternate_none : alternate .none
  alternate_otherwise {body : List Node} : nodes body → alternate (.otherwise body)
  alternate_elseIf {condition : Node} {consequent : List Node} {otherwise : Alternate} :
    node condition → nodes consequent → alternate otherwise →
    alternate (.elseIf condition consequent otherwise)
  -- declarations and their members
  classDeclaration_mk {name : String} {generics mods : List String} {bases : List TypeExpr}
      {content : List Member} {offset : Nat} :
    members false content →
    classDeclaration mods ⟨name, generics, bases, content, mods, offset⟩
  field {inNamespace : Bool} {mods : List String} {type : TypeExpr} {name : String} {offset : Nat} :
    (∀ word ∈ mods, word ∈ modifiers) → member inNamespace (.field mods type name offset)
  signature {inNamespace : Bool} {mods : List String} {type : TypeExpr} {name : String}
      {parameters : List Node} {offset : Nat} :
    (∀ word ∈ mods, word ∈ modifiers) → nodes parameters →
    member inNamespace (.signature mods type name parameters offset)
  method {inNamespace : Bool} {mods : List String} {type : TypeExpr} {name : String}
      {parameters body : List Node} {offset : Nat} :
    (∀ word ∈ mods, word ∈ modifiers) → nodes parameters → nodes body →
    member inNamespace (.method mods type name parameters body offset)
  nested {inNamespace : Bool} {mods : List String} {declaration : ClassDecl} :
    (∀ word ∈ mods, word ∈ modifiers) → classDeclaration mods declaration →
    member inNamespace (.nested declaration)
  member_directive {made : UsingDirective} :
    directive made → member true (.usingDirective made)
  members_nil {inNamespace : Bool} : members inNamespace []
  members_cons {inNamespace : Bool} {first : Member} {rest : List Member} :
    member inNamespace first → members inNamespace rest → members inNamespace (first :: rest)
  directive_mk {aliasName : Option String} {isStatic : Bool} {target : QualifiedName} :
    NamesOnly target → directive ⟨aliasName, isStatic, target⟩

variable {shapes : Shapes} {input : Input} {rules : Rules} {s : ParseState}

/-- The parts of an `if` behind its word. -/
def Shapes.branches (shapes : Shapes) (parts : Node × List Node × Alternate) : Prop :=
  shapes.node parts.1 ∧ shapes.nodes parts.2.1 ∧ shapes.alternate parts.2.2

/-! ## What is asked of the rules -/

/-- The rules keep shapes wherever they begin. -/
structure Rules.Keep (shapes : Shapes) (input : Input) (rules : Rules) : Prop where
  expression : ∀ minimum s, Attempt.Makes 1 input (rules.expression minimum) shapes.node s
  classDeclaration : ∀ mods s, Attempt.Makes 1 input (rules.classDeclaration mods)
    (shapes.classDeclaration mods) s
  typeExpression : ∀ s, Attempt.Makes 0 input rules.typeExpression (fun _ => True) s

/-! ## Names and types -/

/-- Only tokens that were required to be identifiers are taken. -/
theorem nameTail_keeps : ∀ n {s}, Parse.Makes input (nameTail n)
    (fun tail => ∀ token ∈ tail, token.kind = Kind.identifier) s
  | 0, _ => .endless
  | n + 1, s => by
      refine .current fun _ _ => .ite (fun _ => .pure nofun) fun _ => ?_
      refine Parse.Makes.advance.bind fun _ _ _ => ?_
      refine .require (fun token htoken hfits => .ite (fun _ => .pure nofun) fun _ => ?_)
        fun _ _ => .ite (fun _ => .pure nofun) fun hne => absurd rfl hne
      refine Parse.Makes.consume.bind fun name _ hname => ?_
      -- the token that is taken is the identifier that was required
      have hkind : name.kind = Kind.identifier := by
        rw [htoken, Option.some_inj] at hname
        rw [← hname]
        simpa using hfits
      exact (nameTail_keeps n).bind fun tail _ htail =>
        .pure (List.forall_mem_cons.mpr ⟨hkind, htail⟩)

/-- A name is joined from identifiers. -/
theorem qualifiedName_keeps : Attempt.Makes 0 input (qualifiedName rules) NamesOnly s := by
  refine .current fun head _ => .ite (fun _ => .failure_bind) fun hkind => ?_
  refine (Makes.liftM Parse.Makes.advance).bind fun _ _ _ => ?_
  refine (Makes.liftM (nameTail_keeps _)).bind fun tail _ htail => .pure ?_
  exact ⟨Decidable.not_not.mp hkind, htail⟩

section Rules

variable (hr : rules.Keep shapes input)

include hr

/-- Nothing is asked of types but that reports are kept. -/
theorem typeListFrom_keeps : ∀ n {s},
    Parse.Makes input (typeListFrom rules n) (fun _ => True) s
  | 0, _ => .endless
  | n + 1, s => by
      refine Parse.Makes.atEnd.bind fun _ _ _ => .ite (fun _ => .pure trivial) fun _ => ?_
      refine (hr.typeExpression _).run (fun _ => ?_) fun _ _ _ => ?_
      · exact reportFound_reports.makes.bind fun _ _ _ => .pure trivial
      refine .current fun _ _ => .ite (fun _ => .pure trivial) fun _ => ?_
      refine Parse.Makes.advance.bind fun _ _ _ => ?_
      exact (typeListFrom_keeps n).bind fun _ _ _ => .pure trivial

theorem genericArguments_keeps : Parse.Makes input (genericArguments rules) (fun _ => True) s := by
  refine .current fun _ _ => .ite (fun _ => .pure trivial) fun _ => ?_
  refine Parse.Makes.advance.bind fun _ _ _ => ?_
  refine (typeListFrom_keeps hr _).bind fun _ _ _ => ?_
  exact Parse.Makes.close.bind fun _ _ _ => .pure trivial

theorem typeExpression_keeps : Attempt.Makes 0 input (typeExpression rules) (fun _ => True) s := by
  refine .current fun _ _ => .ite (fun _ => ?_) fun _ => ?_
  · refine (Makes.liftM Parse.Makes.advance).bind fun _ _ _ => ?_
    exact (Makes.liftM (genericArguments_keeps hr)).bind fun _ _ _ => .pure trivial
  · refine qualifiedName_keeps.bind fun _ _ _ => ?_
    exact (Makes.liftM (genericArguments_keeps hr)).bind fun _ _ _ => .pure trivial

/-! ## Access chains and arguments -/

/-- Arguments that were read before a broken one are kept. -/
theorem argumentsFrom_keeps : ∀ n {s},
    Parse.Makes input (argumentsFrom rules n) shapes.nodes s
  | 0, _ => .endless
  | n + 1, s => by
      refine Parse.Makes.atEnd.bind fun _ _ _ => .ite (fun _ => .pure shapes.nodes_nil) fun _ => ?_
      refine .current fun _ _ => .ite (fun _ => .pure shapes.nodes_nil) fun _ => ?_
      refine (hr.expression 0 _).run (fun _ => .pure shapes.nodes_nil)
        fun argument _ hargument => ?_
      have hone := shapes.nodes_cons hargument shapes.nodes_nil
      refine .current fun _ _ => .ite (fun _ => .pure hone) fun _ => ?_
      refine Parse.Makes.advance.bind fun _ _ _ => ?_
      exact (argumentsFrom_keeps n).bind fun _ _ hmore => .pure (shapes.nodes_cons hargument hmore)

theorem arguments_keeps : Parse.Makes input (arguments rules) shapes.nodes s := by
  refine .require (fun _ _ _ => ?_) fun _ _ => .ite (fun _ => .pure shapes.nodes_nil) fun hne =>
    absurd rfl hne
  refine .ite (fun _ => .pure shapes.nodes_nil) fun _ => ?_
  refine Parse.Makes.advance.bind fun _ _ _ => ?_
  refine (argumentsFrom_keeps hr _).bind fun _ _ hvalues => ?_
  exact Parse.Makes.close.bind fun _ _ _ => .pure hvalues

/-- Steps that were read before a broken one are kept. -/
theorem accesses_keeps : ∀ n {s}, Parse.Makes input (accesses rules n) shapes.steps s
  | 0, _ => .endless
  | n + 1, s => by
      refine .current fun _ _ => .ite (fun _ => ?_) fun _ => .ite (fun _ => ?_) fun _ =>
        .ite (fun _ => ?_) fun _ => .pure shapes.steps_nil
      · refine Parse.Makes.advance.bind fun _ _ _ => ?_
        refine .require
          (fun token htoken hfits => .ite (fun _ => .pure shapes.steps_nil) fun _ => ?_)
          fun _ _ => .ite (fun _ => .pure shapes.steps_nil) fun hne => absurd rfl hne
        refine Parse.Makes.consume.bind fun name _ hname => ?_
        have hkind : name.kind = Kind.identifier := by
          rw [htoken, Option.some_inj] at hname
          rw [← hname]
          simpa using hfits
        exact (accesses_keeps n).bind fun _ _ hmore => .pure (shapes.steps_member hkind hmore)
      · refine Parse.Makes.advance.bind fun _ _ _ => ?_
        refine (hr.expression 0 _).run (fun _ => .pure shapes.steps_nil) fun index _ hindex => ?_
        -- an index without its closing bracket is kept
        have hone := shapes.steps_index hindex shapes.steps_nil
        refine .require (fun _ _ _ => ?_) fun _ _ =>
          .ite (fun _ => .pure hone) fun hne => absurd rfl hne
        refine .ite (fun _ => .pure hone) fun _ => ?_
        refine Parse.Makes.advance.bind fun _ _ _ => ?_
        exact (accesses_keeps n).bind fun _ _ hmore => .pure (shapes.steps_index hindex hmore)
      · refine (arguments_keeps hr).bind fun values _ hvalues => ?_
        exact (accesses_keeps n).bind fun _ _ hmore => .pure (shapes.steps_call hvalues hmore)

/-- Where an identifier is seen, a chain is made. -/
theorem accessChain_keeps
    (hseen : ∀ token, input.seen? s.cursor = some token → token.kind = Kind.identifier) :
    Attempt.Makes 1 input (accessChain rules) (fun chain =>
      chain.1.kind = Kind.identifier ∧ shapes.steps chain.2) s := by
  refine .current fun target htarget => .ite (fun hne => absurd (hseen target htarget) hne)
    fun hkind => ?_
  refine (Makes.liftM Parse.Makes.advance).bind fun _ _ _ => ?_
  refine (Makes.liftM (accesses_keeps hr _)).bind fun body _ hbody => .pure ?_
  exact ⟨Decidable.not_not.mp hkind, hbody⟩

/-! ## Statements -/

/-- A statement gives one node or, where it was broken, none. -/
theorem statement_keeps {stops : List String} :
    Parse.Makes input (statement rules stops) shapes.nodes s := by
  refine Parse.Makes.mark.bind fun start _ _ => ?_
  have hbehind : ∀ (node : Option Node) t, shapes.nodes node.toList →
      Parse.Makes input (do skip ";"; recover start stops; return node.toList)
        shapes.nodes t := fun node t hnode =>
    Parse.Makes.skip.bind fun _ _ _ => Parse.Makes.recover.bind fun _ _ _ => .pure hnode
  exact (hr.expression 0 _).run (fun t => hbehind none t shapes.nodes_nil) fun node t hnode =>
    hbehind (some node) t (shapes.nodes_cons hnode shapes.nodes_nil)

/-- A sequence is joined from the nodes of its statements. -/
theorem sequenceFrom_keeps {terminator : Option String} : ∀ n {s},
    Parse.Makes input (sequenceFrom rules terminator n) shapes.nodes s
  | 0, _ => .endless
  | n + 1, s => by
      refine Parse.Makes.atEnd.bind fun _ _ _ => .ite (fun _ => .pure shapes.nodes_nil) fun _ => ?_
      refine .current fun _ _ => .ite (fun _ => .pure shapes.nodes_nil) fun _ => ?_
      refine (statement_keeps hr).bind fun first _ hfirst => ?_
      exact (sequenceFrom_keeps n).bind fun _ _ hmore => .pure (shapes.nodes_append hfirst hmore)

/-- The body of a program is a sequence. -/
theorem program_keeps :
    Parse.Makes input (program rules) (fun tree => shapes.nodes tree.body) s :=
  (sequenceFrom_keeps hr _).bind fun _ _ hbody => .pure hbody

/-- A block whose closing brace is missing is kept. -/
theorem bracedBlock_keeps :
    Attempt.Makes 1 input (bracedBlock rules) shapes.nodes s := by
  refine Makes.needSymbol.bind fun _ _ _ => ?_
  refine (Makes.liftM (sequenceFrom_keeps hr _)).bind fun _ _ hbody => ?_
  exact (Makes.liftM Parse.Makes.close).bind fun _ _ _ => .pure hbody

/-- A condition is an expression between parentheses. -/
theorem condition_keeps {keyword : String} :
    Attempt.Makes 1 input (condition rules keyword)
      shapes.node s := by
  refine Makes.needSymbol.bind fun _ _ _ => (hr.expression 0 _).bind fun _ _ hvalue => ?_
  exact Makes.needSymbol.bind fun _ _ _ => .pure hvalue

/-- The parts behind an `if` or an `else if` are nodes, and an `else` is a block. -/
theorem branches_keeps : ∀ n {s keyword},
    Attempt.Makes 1 input (branches rules keyword n) shapes.branches s
  | 0, _, _ => .endless
  | n + 1, s, keyword => by
      refine (condition_keeps hr).bind fun value _ hvalue => ?_
      refine (bracedBlock_keeps hr).bind fun consequent _ hconsequent => ?_
      have halone : shapes.branches (value, consequent, .none) :=
        ⟨hvalue, hconsequent, shapes.alternate_none⟩
      refine .current fun _ _ => .ite (fun _ => .pure halone) fun _ => ?_
      refine (Makes.liftM Parse.Makes.advance).bind fun _ _ _ => ?_
      refine .current fun _ _ => .ite (fun _ => ?_) fun _ => ?_
      · refine (Makes.liftM Parse.Makes.advance).bind fun _ _ _ => ?_
        -- a branch that cannot be made leaves the branches in front of it
        exact (branches_keeps n).bindOrNone (fun _ => .pure halone) fun parts _ hparts =>
          .pure ⟨hvalue, hconsequent, shapes.alternate_elseIf hparts.1 hparts.2.1 hparts.2.2⟩
      · exact (bracedBlock_keeps hr).bindOrNone (fun _ => .pure halone) fun _ _ hbody =>
          .pure ⟨hvalue, hconsequent, shapes.alternate_otherwise hbody⟩

theorem ifStatement_keeps :
    Attempt.Makes 1 input (ifStatement rules) shapes.node s := by
  refine Makes.needKeyword.bind fun _ _ _ => (branches_keeps hr _).bind fun _ _ hparts => ?_
  exact .pure (shapes.ifStatement hparts.1 hparts.2.1 hparts.2.2)

theorem whileStatement_keeps :
    Attempt.Makes 1 input (whileStatement rules) shapes.node s := by
  refine Makes.needKeyword.bind fun _ _ _ => (condition_keeps hr).bind fun _ _ hvalue => ?_
  exact (bracedBlock_keeps hr).bind fun _ _ hconsequent =>
    .pure (shapes.whileStatement hvalue hconsequent)

/-! ## Declarations -/

omit hr in
/-- Nothing is asked of generic names but that reports are kept. -/
theorem genericNamesFrom_keeps : ∀ n {s},
    Attempt.Makes 1 input (genericNamesFrom n) (fun _ => True) s
  | 0, _ => .endless
  | n + 1, s => by
      refine (Makes.liftM Parse.Makes.atEnd).bind fun _ _ _ =>
        .ite (fun _ => .pure trivial) fun _ => ?_
      refine .current fun _ _ => .ite (fun _ => .pure trivial) fun _ => ?_
      refine Makes.needIdentifier.bind fun _ _ _ => ?_
      refine .current fun _ _ => .ite (fun _ => .pure trivial) fun _ => ?_
      refine (Makes.liftM Parse.Makes.advance).bind fun _ _ _ => ?_
      exact (genericNamesFrom_keeps n).bind fun _ _ _ => .pure trivial

omit hr in
theorem genericNames_keeps : Attempt.Makes 1 input (genericNames rules) (fun _ => True) s := by
  refine .current fun _ _ => .ite (fun _ => .pure trivial) fun _ => ?_
  refine (Makes.liftM Parse.Makes.advance).bind fun _ _ _ => ?_
  refine (genericNamesFrom_keeps _).bind fun _ _ _ => ?_
  exact Makes.needSymbol.bind fun _ _ _ => .pure trivial

theorem basesFrom_keeps : ∀ n {s}, Parse.Makes input (basesFrom rules n) (fun _ => True) s
  | 0, _ => .endless
  | n + 1, s => by
      refine (typeExpression_keeps hr).run (fun _ => ?_) fun _ _ _ => ?_
      · exact reportFound_reports.makes.bind fun _ _ _ => .pure trivial
      refine .current fun _ _ => .ite (fun _ => .pure trivial) fun _ => ?_
      refine Parse.Makes.advance.bind fun _ _ _ => ?_
      exact (basesFrom_keeps n).bind fun _ _ _ => .pure trivial

theorem bases_keeps : Parse.Makes input (bases rules) (fun _ => True) s := by
  refine .current fun _ _ => .ite (fun _ => .pure trivial) fun _ => ?_
  exact Parse.Makes.advance.bind fun _ _ _ => basesFrom_keeps hr _

/-- A body is joined from the nodes of its statements, whatever braces stand around them. -/
theorem methodStatements_keeps : ∀ n {s depth},
    Parse.Makes input (methodStatements rules n depth) shapes.nodes s
  | 0, _, _ => .endless
  | n + 1, s, depth => by
      refine Parse.Makes.atEnd.bind fun _ _ _ => .ite (fun _ => .pure shapes.nodes_nil) fun _ => ?_
      refine .current fun _ _ => .ite (fun _ => .pure shapes.nodes_nil) fun _ => ?_
      refine (statement_keeps hr).bind fun first _ hfirst => ?_
      exact (methodStatements_keeps n).bind fun _ _ hmore =>
        .pure (shapes.nodes_append hfirst hmore)

theorem methodBody_keeps : Parse.Makes input (methodBody rules) shapes.nodes s := by
  refine Parse.Makes.advance.bind fun _ _ _ => ?_
  refine (methodStatements_keeps hr _).bind fun body _ hbody => ?_
  refine .current fun _ _ => .ite (fun _ => ?_) fun _ => ?_
  · exact Parse.Makes.advance.bind fun _ _ _ => .pure hbody
  · exact report_reports.makes.bind fun _ _ _ => .pure hbody

omit hr in
/-- Only words of the list of modifiers are taken as such. -/
theorem memberModifiers_keeps : ∀ n {s}, Parse.Makes input (memberModifiers n)
    (fun mods => ∀ word ∈ mods, word ∈ modifiers) s
  | 0, _ => .endless
  | n + 1, s => by
      refine .current fun token _ => .ite (fun hmodifier => ?_) fun _ => .pure nofun
      have hword : token.text ∈ modifiers := by
        rw [Bool.and_eq_true] at hmodifier
        exact List.contains_iff_mem.mp hmodifier.2
      refine Parse.Makes.advance.bind fun _ _ _ => ?_
      exact (memberModifiers_keeps n).bind fun _ _ hmore =>
        .pure (List.forall_mem_cons.mpr ⟨hword, hmore⟩)

section Members

variable {inNamespace : Bool} {mods : List String} (hmods : ∀ word ∈ mods, word ∈ modifiers)
  {type : TypeExpr} {name : String} {offset : Nat}

include hmods

/-- A method has the modifiers that were read in front of it, with a body or without. -/
theorem method_keeps : Attempt.Makes 1 input (method rules mods type name offset)
    (shapes.member inNamespace) s := by
  refine (Makes.liftM (arguments_keeps hr)).bind fun parameters _ hparameters => ?_
  refine .current fun _ _ => .ite (fun _ => ?_) fun _ => .ite (fun _ => ?_) fun _ => ?_
  · exact (Makes.liftM (methodBody_keeps hr)).bind fun body _ hbody =>
      .pure (shapes.method hmods hparameters hbody)
  · exact (Makes.liftM Parse.Makes.advance).bind fun _ _ _ =>
      .pure (shapes.signature hmods hparameters)
  · exact .reported report_reports

/-- What follows type and name makes a field or a method of the same modifiers. -/
theorem memberRest_keeps : Attempt.Makes 1 input (memberRest rules mods type name offset)
    (shapes.member inNamespace) s := by
  refine .current fun _ _ => .ite (fun _ => method_keeps hr hmods) fun _ =>
    .ite (fun _ => ?_) fun _ => .reported report_reports
  exact (Makes.liftM Parse.Makes.advance).bind fun _ _ _ => .pure (shapes.field hmods)

end Members

/-- A member is a class, a field or a method, and never a directive. -/
theorem member_keeps {inNamespace : Bool} : Attempt.Makes 1 input (member rules)
    (shapes.member inNamespace) s := by
  refine .current fun start _ => ?_
  refine (Makes.liftM (memberModifiers_keeps _)).bind fun mods _ hmods => ?_
  refine .current fun _ _ => .ite (fun _ => ?_) fun _ => ?_
  · exact (hr.classDeclaration mods _).bind fun _ _ hclass => .pure (shapes.nested hmods hclass)
  refine (typeExpression_keeps hr).bindOrNone (fun _ => ?_) fun type _ _ => ?_
  · exact .current fun _ _ => .reported report_reports
  · exact Makes.needIdentifier.bind fun _ _ _ => memberRest_keeps hr hmods

omit hr in
theorem usingAlias_keeps : Parse.Makes input usingAlias (fun _ => True) s := by
  refine .current fun _ _ => Parse.Makes.peek.bind fun _ _ _ => ?_
  refine .ite (fun _ => ?_) fun _ => .pure trivial
  exact Parse.Makes.advance.bind fun _ _ _ => Parse.Makes.advance.bind fun _ _ _ => .pure trivial

omit hr in
theorem usingTarget_keeps {isStatic : Bool} : Attempt.Makes 1 input (usingTarget rules isStatic)
    shapes.directive s := by
  refine (Makes.lift usingAlias_keeps).bind fun aliasName _ _ => ?_
  refine qualifiedName_keeps.bindOrNone (fun _ => ?_) fun target _ htarget => ?_
  · exact .current fun _ _ => .reported report_reports
  · exact (Makes.liftM Parse.Makes.close).bind fun _ _ _ => .pure (shapes.directive_mk htarget)

omit hr in
/-- A directive has the name of its target. -/
theorem usingDirective_keeps : Attempt.Makes 1 input (usingDirective rules)
    shapes.directive s := by
  refine Makes.needKeyword.bind fun _ _ _ => .current fun _ _ => ?_
  refine .ite (fun _ => ?_) fun _ => usingTarget_keeps
  exact (Makes.liftM Parse.Makes.advance).bind fun _ _ _ => usingTarget_keeps

/-- A directive is a member in a namespace only. -/
theorem bodyMember_keeps {inNamespace : Bool} : Attempt.Makes 1 input
    (bodyMember rules inNamespace)
    (shapes.member inNamespace) s := by
  refine .current fun _ _ => .ite (fun husing => ?_) fun _ => member_keeps hr
  rw [Bool.and_eq_true] at husing
  obtain rfl := husing.1
  exact usingDirective_keeps.bind fun _ _ hdirective => .pure (shapes.member_directive hdirective)

/-- A member that was broken is left out. -/
theorem membersFrom_keeps {inNamespace : Bool} : ∀ n {s},
    Parse.Makes input (membersFrom rules inNamespace n) (shapes.members inNamespace) s
  | 0, _ => .endless
  | n + 1, s => by
      refine Parse.Makes.atEnd.bind fun _ _ _ =>
        .ite (fun _ => .pure shapes.members_nil) fun _ => ?_
      refine .current fun _ _ => .ite (fun _ => .pure shapes.members_nil) fun _ => ?_
      refine Parse.Makes.mark.bind fun start _ _ => ?_
      refine (bodyMember_keeps hr).run (fun _ => ?_) fun member _ hmember => ?_
      · refine Parse.Makes.recover.bind fun _ _ _ => ?_
        exact (membersFrom_keeps n).bind fun _ _ hmore => .pure hmore
      · refine Parse.Makes.recover.bind fun _ _ _ => ?_
        exact (membersFrom_keeps n).bind fun _ _ hmore => .pure (shapes.members_cons hmember hmore)

/-- A class has the modifiers that it was called with. -/
theorem classDeclaration_keeps {mods : List String} :
    Attempt.Makes 1 input (classDeclaration rules mods)
      (shapes.classDeclaration mods) s := by
  refine .current fun start _ => ?_
  refine Makes.needKeyword.bind fun _ _ _ => Makes.needIdentifier.bind fun name _ _ => ?_
  refine genericNames_keeps.bind fun generics _ _ => ?_
  refine (Makes.liftM (bases_keeps hr)).bind fun baseTypes _ _ => ?_
  refine Makes.needSymbol.bind fun _ _ _ => ?_
  refine (Makes.liftM (membersFrom_keeps hr _)).bind fun members _ hmembers => ?_
  exact (Makes.liftM Parse.Makes.close).bind fun _ _ _ =>
    .pure (shapes.classDeclaration_mk hmembers)

/-- The members of a namespace are told for a namespace. -/
theorem namespaceDeclaration_keeps : Attempt.Makes 1 input (namespaceDeclaration rules)
    shapes.node s := by
  refine .current fun start _ => Makes.needKeyword.bind fun _ _ _ => ?_
  refine qualifiedName_keeps.bindOrNone (fun _ => .reported reportFound_reports)
    fun name _ hname => ?_
  refine .current fun _ _ => .ite (fun _ => ?_) fun _ => ?_
  · exact (Makes.liftM Parse.Makes.advance).bind fun _ _ _ =>
      .pure (shapes.namespaceDeclaration hname shapes.members_nil)
  · refine Makes.needSymbol.bind fun _ _ _ => ?_
    refine (Makes.liftM (membersFrom_keeps hr _)).bind fun members _ hmembers => ?_
    exact (Makes.liftM Parse.Makes.close).bind fun _ _ _ =>
      .pure (shapes.namespaceDeclaration hname hmembers)

/-! ## Expressions -/

omit hr in
/-- Where a template is seen, a template is made. -/
theorem templateLiteral_keeps
    (hseen : ∀ token, input.seen? s.cursor = some token → token.kind = Kind.template) :
    Attempt.Makes 1 input templateLiteral shapes.node s := by
  refine .current fun token htoken => .ite (fun hne => absurd (hseen token htoken) hne) fun _ => ?_
  exact (Makes.liftM Parse.Makes.advance).bind fun _ _ _ => .pure shapes.template

omit hr in
/-- Increments and decrements go with operands only. -/
theorem postfixes_keeps : ∀ n {s operand}, shapes.operand operand →
    Parse.Makes input (postfixes n operand) shapes.operand s
  | 0, _, _, _ => .endless
  | n + 1, s, operand, hoperand => by
      refine .current fun token _ => .ite (fun hsign => ?_) fun _ => .pure hoperand
      have htext : token.text = "++" ∨ token.text = "--" := by
        rw [Bool.or_eq_true, Token.isSymbol_iff, Token.isSymbol_iff] at hsign
        exact hsign.imp And.right And.right
      exact Parse.Makes.advance.bind fun _ _ _ =>
        postfixes_keeps n (shapes.postfixed htext hoperand)

/-- What is assigned to is an operand. -/
theorem identifierExpression_keeps
    (hseen : ∀ token, input.seen? s.cursor = some token → token.kind = Kind.identifier) :
    Attempt.Makes 1 input (identifierExpression rules)
      shapes.node s := by
  refine (accessChain_keeps hr hseen).bind fun chain _ hchain => ?_
  refine (Makes.liftM (postfixes_keeps _ (shapes.access hchain.1 hchain.2))).bind
    fun left _ hleft => ?_
  refine .current fun _ _ => .ite (fun _ => .pure (shapes.of_operand hleft)) fun _ => ?_
  refine (Makes.liftM Parse.Makes.advance).bind fun _ _ _ => ?_
  exact (hr.expression 0 _).bind fun right _ hright => .pure (shapes.assignment hleft hright)

theorem parenthesized_keeps : Attempt.Makes 1 input (parenthesized rules)
    shapes.node s := by
  refine (Makes.liftM Parse.Makes.advance).bind fun _ _ _ => ?_
  refine (hr.expression 0 _).bind fun _ _ hinner => ?_
  exact Makes.needSymbol.bind fun _ _ _ => .pure hinner

/-- Only operators with a precedence join two nodes. -/
theorem operators_keeps {minimum : Nat} : ∀ n {s left}, shapes.node left →
    Parse.Makes input (operators rules minimum n left)
      shapes.node s
  | 0, _, _, _ => .endless
  | n + 1, s, left, hleft => by
      refine .current fun token _ => .ite (fun _ => .pure hleft) fun _ => ?_
      cases hop : binaryPrecedence? token.text with
      | none => exact .pure hleft
      | some precedence =>
          have hknown : (binaryPrecedence? token.text).isSome := by rw [hop]; rfl
          refine .ite (fun _ => .pure hleft) fun _ => ?_
          refine Parse.Makes.advance.bind fun _ _ _ => ?_
          -- an operator whose right operand cannot be made is dropped
          exact (hr.expression _ _).run (fun _ => .pure hleft) fun right _ hright =>
            operators_keeps n (shapes.binary hknown hleft hright)

/-! ## Levels -/

/-- The extensions only append to the diagnostics when they are called with the rules, and what they
make has the shape of their own. -/
def Hooks.Keep (shapes : Shapes) (input : Input) (hooks : Hooks) (rules : Rules) : Prop :=
  ∀ routine ∈ hooks.extensions, ∀ s, Attempt.Makes 0 input (routine rules)
    shapes.foreign s

variable {hooks : Hooks} (hh : hooks.Keep shapes input rules)

omit hr in
/-- What is made is made by one of the extensions. -/
theorem firstExtension_keeps {start : Int} : ∀ (routines : List Routine) {s},
    (∀ routine ∈ routines, ∀ s, Attempt.Makes 0 input (routine rules)
      shapes.foreign s) →
    Attempt.Makes 0 input (firstExtension rules start routines)
      shapes.node s
  | [], _, _ => .failure
  | routine :: rest, s, hall => by
      refine (hall routine List.mem_cons_self _).bindOrNone (fun _ => ?_) fun node _ hnode =>
        .pure (shapes.of_foreign hnode)
      refine (Makes.liftM Parse.Makes.setCursor).bind fun _ _ _ => ?_
      exact firstExtension_keeps rest fun other hmem => hall other (List.mem_cons_of_mem _ hmem)

include hh

omit hr in
/-- Where no extension makes anything, a token that begins no rule is reported. -/
theorem extensionExpression_keeps {token : Token} :
    Attempt.Makes 1 input (extensionExpression hooks rules token)
      shapes.node s := by
  refine (Makes.liftM Parse.Makes.cursor).bind fun start _ _ => ?_
  exact (firstExtension_keeps _ hh).bindOrNone (fun _ => .reported reportAt_reports)
    fun _ _ hnode => .pure hnode

/-- Each alternative makes a node of its own shape. -/
theorem primary_keeps : Attempt.Makes 1 input (primary hooks rules)
    shapes.node s := by
  refine .current fun token htoken => ?_
  refine .ite (fun hliteral => ?_) fun _ => ?_
  · exact (Makes.liftM Parse.Makes.advance).bind fun _ _ _ =>
      .pure (shapes.literal (List.contains_iff_mem.mp hliteral))
  refine .ite (fun hkind => ?_) fun _ => ?_
  · refine identifierExpression_keeps hr fun token' htoken' => ?_
    rw [htoken, Option.some_inj] at htoken'
    rw [← htoken']
    exact hkind
  refine .ite (fun _ => parenthesized_keeps hr) fun _ => ?_
  refine .ite (fun _ => (classDeclaration_keeps hr).map fun _ => shapes.of_class) fun _ => ?_
  refine .ite (fun _ => usingDirective_keeps.map fun _ => shapes.of_directive) fun _ => ?_
  refine .ite (fun _ => namespaceDeclaration_keeps hr) fun _ => ?_
  refine .ite (fun hkind => ?_) fun _ => ?_
  · refine templateLiteral_keeps fun token' htoken' => ?_
    rw [htoken, Option.some_inj] at htoken'
    rw [← htoken']
    exact hkind
  refine .ite (fun _ => ifStatement_keeps hr) fun _ => ?_
  refine .ite (fun _ => whileStatement_keeps hr) fun _ => ?_
  exact .ite (fun _ => .reported reportAt_reports) fun _ => extensionExpression_keeps hh

/-- Only the listed operators stand in front of an operand. -/
theorem operand_keeps : Attempt.Makes 1 input (operand hooks rules)
    shapes.node s := by
  refine .current fun token _ => .ite (fun hsign => ?_) fun _ => primary_keeps hr hh
  have hmem : token.text ∈ prefixOperators := by
    rw [Bool.and_eq_true] at hsign
    exact List.contains_iff_mem.mp hsign.2
  refine (Makes.liftM Parse.Makes.advance).bind fun _ _ _ => ?_
  exact (hr.expression _ _).bind fun argument _ hargument => .pure (shapes.prefixed hmem hargument)

/-- An expression is made of operands. -/
theorem expression_keeps {minimum : Nat} : Attempt.Makes 1 input
    (Grammar.expression hooks rules minimum) shapes.node s :=
  (operand_keeps hr hh).bind fun _ _ hleft => .liftM (operators_keeps hr _ hleft)

/-- A level over rules that keep their promises keeps them. -/
theorem Rules.Keep.next : (Rules.next hooks rules).Keep shapes input where
  expression _ _ := expression_keeps hr hh
  classDeclaration _ _ := classDeclaration_keeps hr
  typeExpression _ := typeExpression_keeps hr

end Rules

/-- Rules of any number of levels keep shapes where the extensions keep them over rules that do. -/
theorem Rules.keep_ofDepth {hooks : Hooks} {budget : Nat}
    (hh : ∀ depth, (Rules.ofDepth hooks budget depth).Keep shapes input →
      hooks.Keep shapes input (Rules.ofDepth hooks budget depth)) (depth : Nat) :
    (Rules.ofDepth hooks budget depth).Keep shapes input := by
  induction depth with
  | zero => exact ⟨fun _ _ => .endless, fun _ _ => .endless, fun _ => .endless⟩
  | succ depth ih => exact ih.next (hh depth ih)

/-- Without extensions nothing foreign is made. -/
theorem Hooks.keep_none : Hooks.none.Keep shapes input rules := nofun

end SharpSyntax
