import SharpSyntax.Proofs.CoupledGrammar
import SharpSyntax.Proofs.DataReading
import SharpSyntax.Proofs.GrammarShapes

/-!
# Trees recovered from their data form

Whatever a parser makes is read back from its data form as it is, with every field, token and
offset, so that no two trees have one data form. That a part is read back is a shape, and the
grammar keeps it: each construct is read back where its parts are. The routines of the bundled
plugin keep it too, whose nodes have tags of their own.
-/

namespace SharpSyntax

open Parse Attempt Grammar

variable {input : Input} {rules : Rules} {s : ParseState}

/-! ## Parts that are read back -/

/-- A literal is told by its kind, which is no tag of any other node. -/
theorem Datum.Reads.literal {kind : Kind} {value : String} (h : kind ∈ literalKinds) :
    (Node.literal kind value).toDatum.Reads (.node (.literal kind value)) := by
  have hfields : ReadFields [⟨"kind", .text kind.name, .outlineOnly⟩, .both "value" (.text value)]
      [("value", .text value)] := rfl
  rw [Node.toDatum]
  simp only [literalKinds, List.mem_cons, List.not_mem_nil, or_false] at h
  rcases h with rfl | rfl | rfl <;>
    exact .shape hfields (by simp)
      (by simp [Fields.shape?, Kind.number, Kind.string, Kind.character])

/-- Parts that are read back from their data form. -/
def Shapes.readBack : Shapes where
  node node := node.toDatum.Reads (.node node)
  operand operand := operand.toDatum.Reads (.node operand)
  nodes nodes := ∀ node ∈ nodes, node.toDatum.Reads (.node node)
  steps body := ReadItems (accessesToData body) (body.map .step)
  alternate alternate := alternate.toDatum.Reads alternate.reading
  classDeclaration _ declaration :=
    declaration.toDatum.Reads (.node (.classDeclaration declaration))
  member _ member := member.toDatum.Reads member.reading
  members _ members := ReadItems (membersToData members) (members.map Member.reading)
  directive directive := directive.toDatum.Reads (.node (.usingDirective directive))
  foreign node := node.toDatum.Reads (.node node)
  literal := .literal
  template {text holes} := .shape (.both .text (.both (.texts holes) .nil)) (by simp)
    (by simp [Fields.shape?])
  of_operand := id
  prefixed _ h := unary_reads h
  binary _ hleft hright := .shape (.both .text (.both hleft (.both hright .nil))) (by simp)
    (by simp [Fields.shape?])
  assignment hleft hright := .shape (.both .text (.both hleft (.both hright .nil))) (by simp)
    (by simp [Fields.shape?])
  ifStatement := if_reads
  whileStatement hcondition hconsequent :=
    .shape (.both hcondition (.both (block_reads hconsequent) .nil)) (by simp)
      (by simp [Fields.shape?])
  of_class := id
  namespaceDeclaration {name content offset} _ hmembers :=
    .shape (.both name.reads (.both (.list hmembers) (.offset .nil))) (by simp)
      (by simp [Fields.shape?])
  of_directive := id
  of_foreign := id
  access _ hbody := access_reads _ hbody
  postfixed _ h := unary_reads h
  nodes_nil := nofun
  nodes_cons h hs := List.forall_mem_cons.mpr ⟨h, hs⟩
  nodes_append h hmore := List.forall_mem_append.mpr ⟨h, hmore⟩
  steps_nil := .nil
  steps_member _ hs := .cons (memberAccess_reads _) hs
  steps_index hindex hs := .cons (.shape (.both hindex .nil) (by simp) (by simp [Fields.shape?])) hs
  steps_call harguments hs :=
    have hcall := Datum.Reads.shape (.both (.list (nodes_read harguments)) .nil) (by simp)
      (by simp [Fields.shape?])
    .cons hcall hs
  alternate_none := .absent
  alternate_otherwise hbody :=
    .shape (.both (block_reads hbody) .nil) (by simp) (by simp [Fields.shape?, Alternate.reading])
  alternate_elseIf := if_reads
  classDeclaration_mk {name generics mods bases content offset} hmembers := by
    rw [ClassDecl.toDatum]
    exact .shape (.both .text (.both (.texts generics) (.both (.list (types_read bases))
      (.both (.list hmembers) (.both (.texts mods) (.offset .nil)))))) (by simp)
      (by simp [Fields.shape?, Fields.classDeclaration?])
  field {_ mods type name offset} _ :=
    @member_reads mods type name "field" [] .absent offset _ _ nofun .absent
      (by simp [Fields.member?])
  signature _ hparameters := member_reads hparameters .absent (by simp [Fields.member?])
  method _ hparameters hbody :=
    member_reads hparameters (block_reads hbody) (by simp [Fields.member?])
  nested _ h := h
  member_directive h := h
  members_nil := .nil
  members_cons h hs := .cons h hs
  directive_mk _ := UsingDirective.reads _

/-! ## The bundled plugin -/

/-- A keyword of the bundled plugin is told by a tag of its own. -/
theorem Datum.Reads.keywordLiteral {value : String} :
    (Extras.keywordLiteralNode value).toDatum.Reads (.node (Extras.keywordLiteralNode value)) := by
  rw [Extras.keywordLiteralNode, Node.toDatum]
  exact .shape (.both .text .nil) (by simp) (by simp [Fields.shape?])

/-- A `return` is read back with its argument or without. -/
theorem Datum.Reads.returnNode {argument : Option Node}
    (h : ∀ node ∈ argument, node.toDatum.Reads (.node node)) :
    (Extras.returnNode argument).toDatum.Reads (.node (Extras.returnNode argument)) := by
  cases argument with
  | none =>
      rw [Extras.returnNode, Node.toDatum]
      exact .shape (.both .absent .nil) (by simp) (by simp [Fields.shape?, Fields.returnStatement?])
  | some node =>
      rw [Extras.returnNode, Node.toDatum]
      exact .shape (.both (h node rfl) .nil) (by simp)
        (by simp [Fields.shape?, Fields.returnStatement?])

theorem keywordLiteral_keeps {keyword null : Kind} :
    Attempt.Makes 0 input (Extras.keywordLiteral keyword null rules) Shapes.readBack.foreign s := by
  refine .current fun token _ => .ite (fun _ => ?_) fun _ => .failure
  exact (Makes.liftM Parse.Makes.advance).bind fun _ _ _ => .pure .keywordLiteral

/-- What the bundled plugin makes of a `return` is read back where its argument is. -/
theorem returnStatement_keeps {keyword : Kind} (hr : rules.Keep .readBack input) :
    Attempt.Makes 0 input (Extras.returnStatement keyword rules) Shapes.readBack.foreign s := by
  have halone : Shapes.readBack.foreign (Extras.returnNode none) := .returnNode nofun
  refine .current fun token _ => .ite (fun _ => .failure_bind) fun _ => ?_
  refine (Makes.liftM Parse.Makes.advance).bind fun _ _ _ => ?_
  refine (Makes.liftM Parse.Makes.atEnd).bind fun _ _ _ => .ite (fun _ => .pure halone) fun _ => ?_
  refine .current fun next _ => .ite (fun _ => .pure halone) fun _ => ?_
  -- an argument that cannot be made is left out
  refine (hr.expression 0 _).bindOrNone (fun _ => .pure halone) fun node _ hnode => .pure ?_
  exact .returnNode fun other hother => by cases hother; exact hnode

/-- What the extensions make of rules whose parts are read back is read back. -/
def Hooks.ReadBack (input : Input) (hooks : Hooks) : Prop :=
  ∀ rules : Rules, rules.Keep .readBack input → hooks.Keep .readBack input rules

/-- The bundled plugin adds only extensions whose nodes are read back. -/
theorem extras_readBack {hooks : Hooks} (hh : hooks.ReadBack input) (aliases : Aliases) :
    (Extras.plugin.applyToHooks aliases hooks).ReadBack input := by
  intro rules hr routine hmem s
  rcases List.mem_append.mp hmem with hmem | hmem
  · rcases List.mem_append.mp hmem with hmem | hmem
    · exact hh rules hr routine hmem s
    · rw [List.mem_singleton.mp hmem]
      exact keywordLiteral_keeps
  · rw [List.mem_singleton.mp hmem]
    exact returnStatement_keeps hr

/-- All rules of a parser keep what is read back. -/
theorem Frontend.rules_keep {frontend : Frontend}
    (hplugins : ∀ plugin ∈ frontend.plugins, plugin = Extras.plugin) (tokens : List Token)
    (source : SourceText) (aliases : Aliases) (input : Input) :
    (frontend.parser tokens source aliases).rules.Keep .readBack input := by
  have hhooks : (frontend.parser tokens source aliases).hooks.ReadBack input :=
    Frontend.hooks_of_extras hplugins tokens source aliases (fun _ _ => Hooks.keep_none)
      fun _ hh => extras_readBack hh aliases
  exact Rules.keep_ofDepth (fun _ hr => hhooks _ hr) _

/-! ## Routines of parsers -/

namespace Parser

variable {α : Type} {parser : Parser} {k : Nat}

/-- Begun anywhere, the step gives nothing but what satisfies `made`. -/
def Gives (parser : Parser) (step : Rules → Parse α) (made : α → Prop) : Prop :=
  ∀ s a t, { parser with state := s }.run step = (.ok a, { parser with state := t }) → made a

/-- What a routine makes anywhere is what a run of it gives. -/
theorem gives_of_makes (step : Rules → Parse α) {made : α → Prop}
    (h : ∀ s, Parse.Makes parser.input (step parser.rules) made s) : parser.Gives step made :=
  fun s _ _ hrun => (post_of_run (h s) hrun).1

theorem gives_of_attempt (step : Rules → Attempt α) {made : α → Prop}
    (h : ∀ s, Attempt.Makes k parser.input (step parser.rules) made s) :
    parser.Gives (fun rules => (step rules).run) fun a => ∀ b ∈ a, made b := by
  intro s a t hrun b hb
  cases hb
  have hmade : made b ∧ Continues 0 s t := post_of_run (h s) hrun
  exact hmade.1

/-- What the routines of a parser make is recovered from its data form. -/
structure RoutinesRecovered (parser : Parser) : Prop where
  program : parser.Gives program fun tree => Program.ofJson? tree.toJson = some tree
  expression : ∀ minimum, parser.Gives (fun rules => (rules.expression minimum).run)
    fun made => ∀ node ∈ made, Node.ofJson? node.toJson = some node
  ifStatement : parser.Gives (fun rules => (ifStatement rules).run)
    fun made => ∀ node ∈ made, Node.ofJson? node.toJson = some node
  whileStatement : parser.Gives (fun rules => (whileStatement rules).run)
    fun made => ∀ node ∈ made, Node.ofJson? node.toJson = some node
  classDeclaration : ∀ mods, parser.Gives (fun rules => (classDeclaration rules mods).run)
    fun made => ∀ declaration ∈ made,
      Node.ofJson? declaration.toDatum.toJson = some (.classDeclaration declaration)
  member : parser.Gives (fun rules => (member rules).run)
    fun made => ∀ member ∈ made, member.toDatum.toJson.readAs? Reading.member? = some member
  namespaceDeclaration : parser.Gives (fun rules => (namespaceDeclaration rules).run)
    fun made => ∀ node ∈ made, Node.ofJson? node.toJson = some node
  usingDirective : parser.Gives (fun rules => (usingDirective rules).run)
    fun made => ∀ directive ∈ made,
      Node.ofJson? directive.toDatum.toJson = some (.usingDirective directive)
  typeExpression : parser.Gives (fun rules => (typeExpression rules).run)
    fun made => ∀ type ∈ made, type.toDatum.toJson.readAs? Reading.type? = some type
  typeList : parser.Gives typeList
    fun types => ∀ type ∈ types, type.toDatum.toJson.readAs? Reading.type? = some type
  accessChain : parser.Gives (fun rules => (accessChain rules).run) fun made =>
    ∀ chain ∈ made, Node.ofJson? (Node.access chain.1 chain.2).toJson =
      some (.access chain.1 chain.2)
  qualifiedName : parser.Gives (fun rules => (qualifiedName rules).run)
    fun made => ∀ name ∈ made, name.toDatum.toJson.readAs? Reading.name? = some name
  arguments : parser.Gives arguments
    fun nodes => ∀ node ∈ nodes, Node.ofJson? node.toJson = some node
  templateLiteral : parser.Gives (fun _ => templateLiteral.run)
    fun made => ∀ node ∈ made, Node.ofJson? node.toJson = some node
  block : ∀ terminator, parser.Gives (fun rules => block rules terminator)
    fun body => (blockDatum (nodesToData body)).toJson.readAs? Reading.block? = some body

/-- A program is read back where its nodes are. -/
theorem program_reads {tree : Program} (h : ∀ node ∈ tree.body, node.toDatum.Reads (.node node)) :
    tree.toDatum.Reads (.program tree) :=
  .shape (.both (.list (nodes_read h)) .nil) (by simp) (by simp [Fields.shape?])

theorem accessChain_steps (hr : rules.Keep .readBack input) :
    Attempt.Makes 0 input (accessChain rules) (fun chain => Shapes.readBack.steps chain.2) s := by
  refine .current fun target _ => .ite (fun _ => .failure_bind) fun _ => ?_
  refine (Makes.liftM Parse.Makes.advance).bind fun _ _ _ => ?_
  exact (Makes.liftM (accesses_keeps hr _)).bind fun _ _ hbody => .pure hbody

theorem templateLiteral_node :
    Attempt.Makes 0 input templateLiteral Shapes.readBack.node s := by
  refine .current fun token _ => .ite (fun _ => .failure_bind) fun _ => ?_
  exact (Makes.liftM Parse.Makes.advance).bind fun _ _ _ => .pure Shapes.readBack.template

/-- Each routine of a parser is told by the shape of what it makes. -/
theorem routinesRecovered (hr : parser.rules.Keep .readBack parser.input) :
    parser.RoutinesRecovered where
  program := gives_of_makes program fun _ =>
    (program_keeps hr).mono fun _ hbody => (program_reads hbody).readAs rfl
  expression minimum := gives_of_attempt (fun rules => rules.expression minimum) fun s =>
    (hr.expression minimum s).mono fun _ hnode => hnode.readAs rfl
  ifStatement := gives_of_attempt ifStatement fun _ =>
    (ifStatement_keeps hr).mono fun _ hnode => hnode.readAs rfl
  whileStatement := gives_of_attempt whileStatement fun _ =>
    (whileStatement_keeps hr).mono fun _ hnode => hnode.readAs rfl
  classDeclaration mods := gives_of_attempt (fun rules => classDeclaration rules mods) fun _ =>
    (classDeclaration_keeps hr).mono fun _ hdeclaration => hdeclaration.readAs rfl
  member := gives_of_attempt member fun s => by
    have hmade : Attempt.Makes 1 parser.input (Grammar.member parser.rules)
      (Shapes.readBack.member false) s := member_keeps hr
    exact hmade.mono fun made hmember => hmember.readAs made.member?_reading
  namespaceDeclaration := gives_of_attempt namespaceDeclaration fun _ =>
    (namespaceDeclaration_keeps hr).mono fun _ hnode => hnode.readAs rfl
  usingDirective := fun _ _ _ _ directive _ => directive.reads.readAs rfl
  typeExpression := fun _ _ _ _ type _ => type.reads.readAs rfl
  typeList := fun _ _ _ _ type _ => type.reads.readAs rfl
  accessChain := gives_of_attempt accessChain fun _ =>
    (accessChain_steps hr).mono fun chain hbody => (access_reads chain.1 hbody).readAs rfl
  qualifiedName := fun _ _ _ _ name _ => name.reads.readAs name.name?_reading
  arguments := gives_of_makes arguments fun _ =>
    (arguments_keeps hr).mono fun _ hnodes node hmem => (hnodes node hmem).readAs rfl
  templateLiteral := gives_of_attempt (fun _ => templateLiteral) fun _ =>
    templateLiteral_node.mono fun _ hnode => hnode.readAs rfl
  block terminator := gives_of_makes (fun rules => block rules terminator) fun _ =>
    (sequenceFrom_keeps hr _).mono fun _ hbody => (block_reads hbody).readAs rfl

end Parser

namespace Frontend

variable {frontend : Frontend} (hplugins : ∀ plugin ∈ frontend.plugins, plugin = Extras.plugin)

include hplugins

theorem routinesRecovered (tokens : List Token) (source : SourceText) (aliases : Aliases) :
    (frontend.parser tokens source aliases).RoutinesRecovered :=
  Parser.routinesRecovered (rules_keep hplugins tokens source aliases _)

/-- A parse that gives a result gives one whose tree is read back. -/
theorem recovered_of_parse {source : SourceText} {result : ParseResult}
    (hparse : frontend.parse source = .ok result) :
    Program.ofJson? result.program.toJson = some result.program := by
  cases htokens : frontend.tokens source with
  | error failure => rw [parse, htokens] at hparse; cases hparse
  | ok found =>
      obtain ⟨tokens, aliases⟩ := found
      obtain ⟨tree, reported, hrun⟩ := (frontend.parser tokens source aliases).program_ends
        (parser_progress hplugins tokens source aliases)
      rw [parse_of_run htokens hrun] at hparse
      cases hparse
      exact (routinesRecovered hplugins tokens source aliases).program _ _ _ hrun

end Frontend

/-- **The data form loses nothing.** Without plugins or with the bundled one, a tree is recovered
from its data form alone, and so is whatever any routine of a parser makes, wherever it begins. -/
theorem trees_recovered {frontend : Frontend}
    (hplugins : ∀ plugin ∈ frontend.plugins, plugin = Extras.plugin) :
    (∀ source result, frontend.parse source = .ok result →
      Program.ofJson? result.program.toJson = some result.program) ∧
    ∀ tokens source aliases, (frontend.parser tokens source aliases).RoutinesRecovered :=
  ⟨fun _ _ => Frontend.recovered_of_parse hplugins, Frontend.routinesRecovered hplugins⟩

/-- An `if` with a `return` of the bundled plugin, and a class with a field that lost its name. -/
theorem trees_recovered_return :
    let frontend := Frontend.mk [Extras.plugin]
    let source := SourceText.ofText
      "if(a.b)\x7breturn null;\x7delse\x7bx++ = f(1)[y];\x7dclass A:B\x7bint 1;C c;\x7d" "main.cs"
    (∀ plugin ∈ frontend.plugins, plugin = Extras.plugin) ∧
      ∃ result, frontend.parse source = .ok result ∧ result.ok = false ∧
        result.program.body.map Node.tag = ["IfStatement", "ClassDeclaration"] ∧
        Program.ofJson? result.program.toJson = some result.program := by
  intro frontend source
  have hplugins : ∀ plugin ∈ frontend.plugins, plugin = Extras.plugin := by simp [frontend]
  have hshown : (frontend.parse source).toOption.map (fun result =>
      (result.ok, result.program.body.map Node.tag)) =
      some (false, ["IfStatement", "ClassDeclaration"]) := by decide +kernel
  cases hparse : frontend.parse source with
  | error failure => rw [hparse] at hshown; cases hshown
  | ok result =>
      rw [hparse] at hshown
      obtain ⟨hok, htags⟩ := Prod.mk.inj (Option.some.inj hshown)
      exact ⟨hplugins, result, rfl, hok, htags, (trees_recovered hplugins).1 source result hparse⟩

end SharpSyntax
