import SharpSyntax.Proofs.GrammarShapes
import SharpSyntax.Proofs.Termination

/-!
# The promises of the grammar

Every routine of the grammar keeps its promises where the rules it calls keep theirs: it only
appends to the diagnostics, what it makes has the shape of its construct, and where it declines it
has reported. The shapes are those of the data that a tree is written out as, and the grammar keeps
them as it keeps any.
-/

namespace SharpSyntax

open Parse Attempt Grammar Shape

variable {foreign : Datum → Prop} {input : Input} {rules : Rules} {s : ParseState}

/-! ## Lists of parts -/

/-- Each of the nodes has the shape of a node. -/
def AreNodes (foreign : Datum → Prop) (nodes : List Node) : Prop :=
  ∀ datum ∈ nodesToData nodes, IsNode foreign datum

/-- Each of the accesses has the shape of a step of a chain. -/
def AreSteps (foreign : Datum → Prop) (body : List Access) : Prop :=
  ∀ datum ∈ accessesToData body, IsStep foreign datum

/-- Each of the members has the shape of a member. -/
def AreMembers (foreign : Datum → Prop) (inNamespace : Bool) (members : List Member) : Prop :=
  ∀ datum ∈ membersToData members, IsMember foreign inNamespace datum

theorem AreNodes.nil : AreNodes foreign [] := nofun

theorem AreNodes.cons {node : Node} {nodes : List Node} (h : IsNode foreign node.toDatum)
    (hs : AreNodes foreign nodes) : AreNodes foreign (node :: nodes) := by
  rw [AreNodes, nodesToData]
  exact List.forall_mem_cons.mpr ⟨h, hs⟩

/-- Nodes of two lists are nodes of both in a row. -/
theorem AreNodes.append {nodes more : List Node} (h : AreNodes foreign nodes)
    (hmore : AreNodes foreign more) : AreNodes foreign (nodes ++ more) := by
  induction nodes with
  | nil => exact hmore
  | cons node nodes ih =>
      rw [AreNodes, nodesToData, List.forall_mem_cons] at h
      exact .cons h.1 (ih h.2)

theorem AreSteps.nil : AreSteps foreign [] := nofun

/-- A step in front of others is told by its own shape. -/
theorem AreSteps.cons {access : Access} {body : List Access} (h : IsStep foreign access.toDatum)
    (hs : AreSteps foreign body) : AreSteps foreign (access :: body) := by
  rw [AreSteps, accessesToData]
  exact List.forall_mem_cons.mpr ⟨h, hs⟩

theorem AreMembers.nil {inNamespace : Bool} : AreMembers foreign inNamespace [] := nofun

theorem AreMembers.cons {inNamespace : Bool} {member : Member} {members : List Member}
    (h : IsMember foreign inNamespace member.toDatum)
    (hs : AreMembers foreign inNamespace members) :
    AreMembers foreign inNamespace (member :: members) := by
  rw [AreMembers, membersToData]
  exact List.forall_mem_cons.mpr ⟨h, hs⟩

/-- Identifiers and dots write a name. -/
theorem NamesOnly.isDottedName {name : QualifiedName} (h : NamesOnly name) :
    IsDottedName name.toDatum :=
  .mk h.1 h.2

/-! ## The shapes of data -/

/-- Parts are told by their data. -/
abbrev Shapes.ofData (foreign : Datum → Prop) : Shapes where
  node node := IsNode foreign node.toDatum
  operand operand := IsOperand foreign operand.toDatum
  nodes := AreNodes foreign
  steps := AreSteps foreign
  alternate alternate := IsAlternate foreign alternate.toDatum
  classDeclaration mods declaration := IsClass foreign mods declaration.toDatum
  member inNamespace member := IsMember foreign inNamespace member.toDatum
  members := AreMembers foreign
  directive directive := IsUsing directive.toDatum
  foreign node := foreign node.toDatum
  literal := .literal
  template := .template
  of_operand := .operand
  prefixed := .prefixed
  binary := .binary
  assignment := .assignment
  ifStatement hcondition hconsequent halternate :=
    .ifStatement (.mk hcondition hconsequent halternate)
  whileStatement := .whileStatement
  of_class := .classDeclaration
  namespaceDeclaration hname hmembers := .namespaceDeclaration hname.isDottedName hmembers
  of_directive := .usingDirective
  of_foreign := .extension
  access := .access
  postfixed := .postfixed
  nodes_nil := .nil
  nodes_cons := .cons
  nodes_append := .append
  steps_nil := .nil
  steps_member hname := .cons (.member hname)
  steps_index hindex := .cons (.index hindex)
  steps_call harguments := .cons (.call harguments)
  alternate_none := .none
  alternate_otherwise := .otherwise
  alternate_elseIf hcondition hconsequent halternate :=
    .elseIf (.mk hcondition hconsequent halternate)
  classDeclaration_mk := .mk
  field := .field
  signature := .signature
  method := .method
  nested := .nested
  member_directive := .usingDirective
  members_nil := .nil
  members_cons := .cons
  directive_mk htarget := .mk htarget.isDottedName

/-! ## What is asked of the rules -/

/-- The rules keep their promises wherever they begin. -/
structure Rules.Promise (foreign : Datum → Prop) (input : Input) (rules : Rules) : Prop where
  expression : ∀ minimum s, Attempt.Makes 1 input (rules.expression minimum)
    (fun node => IsNode foreign node.toDatum) s
  classDeclaration : ∀ mods s, Attempt.Makes 1 input (rules.classDeclaration mods)
    (fun declaration => IsClass foreign mods declaration.toDatum) s
  typeExpression : ∀ s, Attempt.Makes 0 input rules.typeExpression (fun _ => True) s

/-- What is promised of data is a shape that is kept. -/
theorem Rules.Promise.keep (hr : rules.Promise foreign input) :
    rules.Keep (.ofData foreign) input := ⟨hr.1, hr.2, hr.3⟩

theorem Rules.Keep.promise (hr : rules.Keep (.ofData foreign) input) :
    rules.Promise foreign input := ⟨hr.1, hr.2, hr.3⟩

/-- The extensions only append to the diagnostics when they are called with the rules, and what they
make has the shape of their own. -/
def Hooks.Promise (foreign : Datum → Prop) (input : Input) (hooks : Hooks) (rules : Rules) : Prop :=
  ∀ routine ∈ hooks.extensions, ∀ s, Attempt.Makes 0 input (routine rules)
    (fun node => foreign node.toDatum) s

/-- A level over rules that keep their promises keeps them. -/
theorem Rules.Promise.next {hooks : Hooks} (hr : rules.Promise foreign input)
    (hh : hooks.Promise foreign input rules) : (Rules.next hooks rules).Promise foreign input :=
  (hr.keep.next hh).promise

/-- Rules of any number of levels keep their promises where the extensions keep theirs. -/
theorem Rules.promise_ofDepth {hooks : Hooks} {budget : Nat}
    (hh : ∀ depth, hooks.Promise foreign input (Rules.ofDepth hooks budget depth)) (depth : Nat) :
    (Rules.ofDepth hooks budget depth).Promise foreign input := by
  refine Rules.Keep.promise (Rules.keep_ofDepth (fun depth _ => ?_) depth)
  exact hh depth

theorem Hooks.promise_none : Hooks.none.Promise foreign input rules := nofun

/-- A program promises the shape of a program, and only appends to the diagnostics. -/
theorem program_makes (hr : rules.Promise foreign input) :
    Parse.Makes input (program rules) (fun tree => IsProgram foreign tree.toDatum) s :=
  (program_keeps hr.keep).mono fun _ => .mk

/-! ## Trees of parsers without plugins -/

/-- **Every tree is well shaped.** A parser without plugins gives a tree for any list of tokens, and
every part of it stands where a part of its shape may stand, whatever had to be reported. -/
theorem program_wellShaped (tokens : List Token) (source : SourceText) (aliases : Aliases) :
    ∃ tree after, (Parser.new tokens source aliases).run program = (.ok tree, after) ∧
      IsProgram (fun _ => False) tree.toDatum := by
  let parser := Parser.new tokens source aliases
  obtain ⟨tree, reported, hrun⟩ := Parser.program_ends parser Hooks.progress_none
  have hrules : parser.rules.Promise (fun _ => False) parser.input :=
    Rules.promise_ofDepth (fun _ => Hooks.promise_none) _
  exact ⟨tree, _, hrun, (Parser.post_of_run (program_makes hrules) hrun).1⟩

end SharpSyntax
