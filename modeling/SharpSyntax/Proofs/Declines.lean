import SharpSyntax.Proofs.Unbroken

/-!
# Nothing is dropped in silence

A routine that declines has reported: this is its promise, told here of the runs of a whole level of
rules. The routines of plugins may leave the cursor anywhere, in front of the first token or far
behind the last, as long as they only append to the diagnostics; nothing is asked of what they make.

A parse that has reported nothing has therefore dropped nothing. Its program ends at the end of the
input, its bodies end there or at what closes them, and wherever a routine goes on without a part
that was declined, in a sequence, in a list, in a name or a chain, behind an operator or behind an
`else`, all the parts are there. What is made has them all: a loop its block, an `if` its branches,
a method, a class or a namespace its body up to the closing brace.
-/

namespace SharpSyntax

open Parse Attempt Grammar

variable {input : Input} {rules : Rules} {s t : ParseState}

/-- A run only appends to the diagnostics, and where it appends none it has read what is said. -/
def Tells (s t : ParseState) (read : Prop) : Prop :=
  Continues 0 s t ∧ (Continues 1 s t ∨ read)

theorem Tells.of_continues {read : Prop} (h : Continues 0 s t)
    (hread : t.diagnostics = s.diagnostics → read) : Tells s t read :=
  ⟨h, h.reported_or hread⟩

/-- No routine declines in silence, and none drops a part in silence. -/
structure Rules.NoneSilent (input : Input) (rules : Rules) : Prop where
  -- what declines has reported
  expression : ∀ minimum, Outspoken input (rules.expression minimum)
  ifStatement : Outspoken input (ifStatement rules)
  whileStatement : Outspoken input (whileStatement rules)
  classDeclaration : ∀ mods, Outspoken input (Grammar.classDeclaration rules mods)
  member : Outspoken input (member rules)
  namespaceDeclaration : Outspoken input (namespaceDeclaration rules)
  usingDirective : Outspoken input (usingDirective rules)
  -- a sequence ends where it has to, and all its constructs are there
  program : ∀ s tree t, ((program rules).run input).run s = .ok tree t →
    input.size ≤ t.cursor ∧ Tells s t
      (Unbroken input (rules.expression 0) (statementEnd []) (input.Closes []) s tree.body t)
  block : ∀ terminator s body t, ((block rules terminator).run input).run s = .ok body t →
    input.Closes terminator.toList t ∧ Tells s t
      (Unbroken input (rules.expression 0) (statementEnd terminator.toList)
        (input.Closes terminator.toList) s body t)
  bracedBlock : ∀ s body t, ((bracedBlock rules).run.run input).run s = .ok (some body) t →
    Tells s t (input.Sees s openBrace ∧
      Enclosed input (Grammar.block rules (some closeBrace)) s body t)
  methodStatements : ∀ rounds depth s body t,
    ((methodStatements rules rounds depth).run input).run s = .ok body t →
      input.Closes [closeBrace] t ∧ Tells s t
        (Unbroken input (rules.expression 0) (statementEnd [openBrace, closeBrace])
          (input.Closes [closeBrace]) s body t)
  methodBody : ∀ s body t, ((methodBody rules).run input).run s = .ok body t →
    Tells s t (Enclosed input (Grammar.methodStatements rules rules.budget 1) s body t)
  members : ∀ inNamespace rounds s body t,
    ((membersFrom rules inNamespace rounds).run input).run s = .ok body t →
      input.Closes [closeBrace] t ∧ Tells s t
        (Unbroken input (bodyMember rules inNamespace) memberEnd (input.Closes [closeBrace])
          s body t)
  -- what keeps the parts in front of one that was declined has all of them
  arguments : ∀ s values t, ((arguments rules).run input).run s = .ok values t →
    Tells s t (∃ u, Listed input (rules.expression 0) (input.Closes [")"]) s.past values u ∧
      u.diagnostics = s.diagnostics ∧ input.Sees u ")" ∧ t = u.past)
  types : ∀ rounds s types t, ((typeListFrom rules rounds).run input).run s = .ok types t →
    Tells s t (Listed input rules.typeExpression (input.Closes []) s types t)
  bases : ∀ rounds s types t, ((basesFrom rules rounds).run input).run s = .ok types t →
    Tells s t (Listed input (Grammar.typeExpression rules) (fun _ => False) s types t)
  names : ∀ rounds s names t, ((nameTail rounds).run input).run s = .ok names t →
    Tells s t (Dotted input s names t)
  accesses : ∀ rounds s body t, ((accesses rules rounds).run input).run s = .ok body t →
    Tells s t (Accessed input rules s body t)
  operators : ∀ minimum rounds left s made t,
    ((operators rules minimum rounds left).run input).run s = .ok made t →
      Tells s t (Operated input rules minimum s left made t)
  branches : ∀ keyword rounds s made t,
    ((branches rules keyword rounds).run.run input).run s = .ok (some made) t →
      Tells s t (Branched input rules keyword s made t)
  -- what is made has all of its parts
  branched : ∀ s made t, ((Grammar.ifStatement rules).run.run input).run s = .ok (some made) t →
    Tells s t (∃ value consequent alternate, made = .ifStatement value consequent alternate ∧
      input.SeesWord s "if" ∧
      Branched input rules "if" s.past (value, consequent, alternate) t)
  guarded : ∀ s made t, ((Grammar.whileStatement rules).run.run input).run s = .ok (some made) t →
    Tells s t (∃ value consequent, made = .whileStatement value consequent ∧
      input.SeesWord s "while" ∧ Guarded input rules "while" s.past value consequent t)
  method : ∀ mods, (∀ word ∈ mods, word ∈ modifiers) → ∀ type name offset s made t,
    ((method rules mods type name offset).run.run input).run s = .ok (some made) t →
      Tells s t (MethodRead input rules s made t)
  classRead : ∀ mods s made t,
    ((Grammar.classDeclaration rules mods).run.run input).run s = .ok (some made) t →
      Tells s t (ClassRead input rules s made t)
  namespaceRead : ∀ s made t,
    ((Grammar.namespaceDeclaration rules).run.run input).run s = .ok (some made) t →
      Tells s t (NamespaceRead input rules s made t)

theorem Rules.Promise.noneSilent {foreign : Datum → Prop} (hr : rules.Promise foreign input) :
    rules.NoneSilent input where
  expression minimum := Makes.outspoken (hr.expression minimum)
  ifStatement := Makes.outspoken fun _ => ifStatement_keeps hr.keep
  whileStatement := Makes.outspoken fun _ => whileStatement_keeps hr.keep
  classDeclaration _ := Makes.outspoken fun _ => classDeclaration_keeps hr.keep
  member := Makes.outspoken fun s =>
    (member_keeps hr.keep : Attempt.Makes 1 input (Grammar.member rules)
      (fun member => Shape.IsMember foreign false member.toDatum) s)
  namespaceDeclaration := Makes.outspoken fun _ => namespaceDeclaration_keeps hr.keep
  usingDirective := Makes.outspoken fun s =>
    (usingDirective_keeps : Attempt.Makes 1 input (Grammar.usingDirective rules)
      (Shapes.ofData foreign).directive s)
  program s tree t hrun := by
    simp only [Grammar.program, run_bind_ok, run_pure_ok] at hrun
    obtain ⟨body, _, hbody, rfl, rfl⟩ := hrun
    have hkept := ((sequenceFrom_keeps hr.keep _).of_run hbody).2
    obtain ⟨hclosed, hread⟩ := sequenceFrom_unbroken hr _ hbody
    exact ⟨hclosed.resolve_right (by simp), .of_continues hkept hread⟩
  block _ _ _ _ hrun := by
    have hkept := ((sequenceFrom_keeps hr.keep _).of_run hrun).2
    obtain ⟨hclosed, hread⟩ := sequenceFrom_unbroken hr _ hrun
    exact ⟨hclosed, .of_continues hkept hread⟩
  bracedBlock s _ _ hrun := by
    have hkept := (bracedBlock_keeps hr.keep).continues hrun
    obtain ⟨hopen, u, hbody, hclose⟩ := run_bracedBlock_ok hrun
    have hsu : Continues 0 s u := ((sequenceFrom_keeps hr.keep _).of_run hbody).2
    refine ⟨hkept, ?_⟩
    rcases hclose with ⟨hsees, rfl⟩ | hreported
    · exact .inr ⟨hopen, u, hbody, hsees, rfl⟩
    · exact .inl (hsu.after hreported)
  methodStatements _ _ _ _ _ hrun := by
    have hkept := ((methodStatements_keeps hr.keep _).of_run hrun).2
    obtain ⟨hclosed, hread⟩ := methodStatements_unbroken hr _ hrun
    exact ⟨hclosed, .of_continues hkept hread⟩
  methodBody _ _ _ hrun := by
    have hkept := ((methodBody_keeps hr.keep).of_run hrun).2
    exact .of_continues hkept (methodBody_enclosed hr hrun)
  members _ _ _ _ _ hrun := by
    have hkept := ((membersFrom_keeps hr.keep _).of_run hrun).2
    obtain ⟨hclosed, hread⟩ := membersFrom_unbroken hr _ hrun
    exact ⟨hclosed, .of_continues hkept hread⟩
  arguments _ _ _ hrun := by
    have hkept := ((arguments_keeps hr.keep).of_run hrun).2
    exact .of_continues hkept (run_arguments_ok hr hrun)
  types _ _ _ _ hrun := by
    have hkept := ((typeListFrom_keeps hr.keep _).of_run hrun).2
    exact .of_continues hkept (typeListFrom_listed hr _ hrun)
  bases _ _ _ _ hrun := by
    have hkept := ((basesFrom_keeps hr.keep _).of_run hrun).2
    exact .of_continues hkept (basesFrom_listed hr _ hrun)
  names _ _ _ _ hrun := by
    have hkept := ((nameTail_keeps _).of_run hrun).2
    exact .of_continues hkept (nameTail_dotted _ hrun)
  accesses _ _ _ _ hrun := by
    have hkept := ((accesses_keeps hr.keep _).of_run hrun).2
    exact .of_continues hkept (accesses_accessed hr _ hrun)
  operators _ _ _ _ _ _ hrun := by
    have hkept := ((operators_continues hr _).of_run hrun).2
    exact .of_continues hkept (operators_operated hr _ hrun)
  branches _ _ _ _ _ hrun := by
    have hkept := (branches_keeps hr.keep _).continues hrun
    exact .of_continues hkept (branches_branched hr _ hrun)
  branched _ _ _ hrun := by
    have hkept := (ifStatement_keeps hr.keep).continues hrun
    exact .of_continues hkept (ifStatement_branched hr hrun)
  guarded _ _ _ hrun := by
    have hkept := (whileStatement_keeps hr.keep).continues hrun
    exact .of_continues hkept (whileStatement_guarded hr hrun)
  method _ hmods _ _ _ s _ _ hrun := by
    have hkept := (method_keeps hr.keep hmods : Attempt.Makes 1 input _
      (fun member => Shape.IsMember foreign false member.toDatum) s).continues hrun
    exact .of_continues hkept (method_read hr hrun)
  classRead _ _ _ _ hrun := by
    have hkept := (classDeclaration_keeps hr.keep).continues hrun
    exact .of_continues hkept (classDeclaration_read hr hrun)
  namespaceRead _ _ _ hrun := by
    have hkept := (namespaceDeclaration_keeps hr.keep).continues hrun
    exact .of_continues hkept (namespaceDeclaration_read hr hrun)

/-- **Nothing is declined in silence.** Over extensions that only append to the diagnostics,
whatever else they do, every routine that declines has reported, wherever it began. A program ends
at the end of the input and a body in front of what closes it; and where either, or a list, a chain,
an expression, a statement with branches or a declaration was read without a report, every part that
was begun in it is there. -/
theorem declined_reported {hooks : Hooks} {input : Input} {budget : Nat}
    (hextensions : ∀ routine ∈ hooks.extensions, ∀ depth,
      OnlyAppends input (routine (Rules.ofDepth hooks budget depth))) (depth : Nat) :
    (Rules.ofDepth hooks budget depth).NoneSilent input := by
  have hpromise : (Rules.ofDepth hooks budget depth).Promise (fun _ => True) input :=
    Rules.promise_ofDepth (fun depth routine hmem s =>
      (hextensions routine hmem depth).makes) depth
  exact hpromise.noneSilent

/-- Extensions that lead astray: the first goes far in front of the tokens and declines with a
report, the second makes a node of nothing and steps back. -/
def straying : Hooks where
  extensions := [
    fun _ => do
      setCursor (-40)
      reportAt "nothing here" "E900" 0 0
      failure,
    fun _ => do
      setCursor ((← cursor) - 1)
      return .extension "Back" []]
  routines := .empty

/-- A class whose body only the straying extensions take up. -/
theorem declined_reported_straying :
    let input := Input.ofTokens [⟨.keyword, "class", 0⟩, ⟨.identifier, "A", 6⟩, ⟨.symbol, "@", 7⟩]
      (.ofText "class A@" "main.cs")
    (∀ routine ∈ straying.extensions, ∀ depth,
      OnlyAppends input (routine (Rules.ofDepth straying 8 depth))) ∧
    (Rules.ofDepth straying 8 16).NoneSilent input := by
  intro input
  have hextensions : ∀ routine ∈ straying.extensions, ∀ depth,
      OnlyAppends input (routine (Rules.ofDepth straying 8 depth)) := by
    intro routine hmem depth s made t hrun
    simp only [straying, List.mem_cons, List.not_mem_nil, or_false] at hmem
    rcases hmem with rfl | rfl
    · cases hrun
      exact (Continues.of_push rfl).mono (Nat.zero_le 1)
    · cases hrun
      exact .of_diagnostics_eq rfl
  exact ⟨hextensions, declined_reported hextensions 16⟩

end SharpSyntax
