import SharpSyntax.Proofs.Coupling
import SharpSyntax.Proofs.Termination

/-!
# The grammar side by side

Every routine of the grammar runs side by side with itself on matching tokens, where it calls rules
that do so. The second parse may have more rounds and more levels than the first: a first parse that
runs out of them stops for good, and then nothing is asked.
-/

namespace SharpSyntax

open Parse Attempt Grammar Coupling

variable {c : Coupling} {rules rules' : Rules}

namespace Coupling

/-- Nodes that differ in offsets only. -/
abbrev Nodes (c : Coupling) : List Node → List Node → Prop := c.Alike nodesMapOffset

/-- Access chains that differ in offsets only. -/
abbrev Accesses (c : Coupling) : List Access → List Access → Prop := c.Alike accessesMapOffset

/-- Members that differ in offsets only. -/
abbrev Members (c : Coupling) : List Member → List Member → Prop := c.Alike membersMapOffset

/-- Lists that differ in offsets only may be joined. -/
theorem Nodes.append {a a' b b' : List Node} (h : c.Nodes a b) (h' : c.Nodes a' b') :
    c.Nodes (a ++ a') (b ++ b') := by
  simp only [Nodes, Alike, nodesMapOffset_eq_map, List.map_append] at h h' ⊢
  rw [h, h']

theorem Nodes.cons {a b : Node} {as bs : List Node} (h : c.Alike Node.mapOffset a b)
    (h' : c.Nodes as bs) : c.Nodes (a :: as) (b :: bs) := by
  rw [Nodes, Alike, nodesMapOffset, nodesMapOffset, h, h']

theorem Accesses.cons {a b : Access} {as bs : List Access} (h : c.Alike Access.mapOffset a b)
    (h' : c.Accesses as bs) : c.Accesses (a :: as) (b :: bs) := by
  rw [Accesses, Alike, accessesMapOffset, accessesMapOffset, h, h']

/-- Members that differ in offsets only may be joined. -/
theorem Members.append {a a' b b' : List Member} (h : c.Members a b) (h' : c.Members a' b') :
    c.Members (a ++ a') (b ++ b') := by
  simp only [Members, Alike, membersMapOffset_eq_map, List.map_append] at h h' ⊢
  rw [h, h']

end Coupling

/-- The rules run side by side, and the second ones have no fewer rounds. -/
structure Rules.Couple (c : Coupling) (rules rules' : Rules) : Prop where
  budget : rules.budget ≤ rules'.budget
  expression : ∀ minimum, Attempt.Couples c (rules.expression minimum)
    (rules'.expression minimum) (c.Alike Node.mapOffset)
  classDeclaration : ∀ mods, Attempt.Couples c (rules.classDeclaration mods)
    (rules'.classDeclaration mods) (c.Alike ClassDecl.mapOffset)
  typeExpression : Attempt.Couples c rules.typeExpression rules'.typeExpression Eq

/-- The induction of two loops, of which the second has no fewer rounds. -/
theorem rounds_induction {P : Nat → Nat → Prop} (hzero : ∀ m, P 0 m)
    (hsucc : ∀ n m, P n m → P (n + 1) (m + 1)) : ∀ n m, n ≤ m → P n m := by
  intro n
  induction n with
  | zero => exact fun m _ => hzero m
  | succ n ih =>
      intro m hle
      cases m with
      | zero => exact absurd hle (Nat.not_succ_le_zero n)
      | succ m => exact hsucc n m (ih m (Nat.le_of_succ_le_succ hle))

/-! ## Names and types -/

/-- Both tails go on while there is a dot, and their identifiers match. -/
theorem nameTail_couples : ∀ n m, n ≤ m →
    Parse.Couples c (nameTail n) (nameTail m) (c.Alike tokensMapOffset) := by
  refine rounds_induction (fun _ => .endless) fun n m ih => ?_
  refine .bind current_couples fun t u h => ?_
  rw [h.isSymbol]
  refine .ite (fun _ => .pure rfl) fun _ => ?_
  refine .bindEq advance_couples fun _ => ?_
  refine .bind (require_couples _ _ _) fun found found' hok => ?_
  rw [hok]
  refine .ite (fun _ => .pure rfl) fun _ => ?_
  refine .bind consume_couples fun name name' hname => ?_
  refine .bind ih fun tail tail' htail => .pure ?_
  simp only [Alike, tokensMapOffset, List.map_cons] at htail ⊢
  rw [hname.mapOffset, htail]

/-- Both names begin with matching identifiers or neither is a name. -/
theorem qualifiedName_couples (hr : rules.Couple c rules') :
    Attempt.Couples c (qualifiedName rules) (qualifiedName rules')
      (c.Alike QualifiedName.mapOffset) := by
  refine .bind (.liftM current_couples) fun head head' hhead => ?_
  rw [hhead.kind]
  refine .ite (fun _ => .failure_bind) fun _ => ?_
  refine .bindEq (.liftM advance_couples) fun _ => ?_
  refine .bind (.liftM (nameTail_couples _ _ hr.budget)) fun tail tail' htail => .pure ?_
  rw [Alike, QualifiedName.mapOffset, QualifiedName.mapOffset, hhead.mapOffset, htail]

/-- Names that differ in offsets only are written alike. -/
theorem dotted_eq {name name' : QualifiedName} (h : c.Alike QualifiedName.mapOffset name name') :
    name'.dotted = name.dotted := by
  rw [← QualifiedName.dotted_mapOffset c.kept name', ← h, QualifiedName.dotted_mapOffset]

/-- Types hold no offsets, so that both lists are equal. -/
theorem typeListFrom_couples (hr : rules.Couple c rules') : ∀ n m, n ≤ m →
    Parse.Couples c (typeListFrom rules n) (typeListFrom rules' m) Eq := by
  refine rounds_induction (fun _ => .endless) fun n m ih => ?_
  refine .bindEq atEnd_couples fun stop => ?_
  refine .ite (fun _ => .pure rfl) fun _ => ?_
  refine .bindRun hr.typeExpression ?_ fun type _ heq => ?_
  · exact .bindEq (reportFound_couples _) fun _ => .pure rfl
  · subst heq
    refine .bind current_couples fun t u h => ?_
    rw [h.isSymbol]
    refine .ite (fun _ => .pure rfl) fun _ => ?_
    refine .bindEq advance_couples fun _ => ?_
    exact .bindEq ih fun _ => .pure rfl

theorem genericArguments_couples (hr : rules.Couple c rules') :
    Parse.Couples c (genericArguments rules) (genericArguments rules') Eq := by
  refine .bind current_couples fun t u h => ?_
  rw [h.isSymbol]
  refine .ite (fun _ => .pure rfl) fun _ => ?_
  refine .bindEq advance_couples fun _ => ?_
  refine .bindEq (typeListFrom_couples hr _ _ hr.budget) fun types => ?_
  exact .bindEq (close_couples _ _) fun _ => .pure rfl

/-- A type is told by the texts of its tokens, which are equal. -/
theorem typeExpression_couples (hr : rules.Couple c rules') :
    Attempt.Couples c (typeExpression rules) (typeExpression rules') Eq := by
  refine .bind (.liftM current_couples) fun t u h => ?_
  rw [h.kind]
  refine .ite (fun _ => ?_) fun _ => ?_
  · refine .bindEq (.liftM advance_couples) fun _ => ?_
    exact .bindEq (.liftM (genericArguments_couples hr)) fun generics => .pure (by rw [h.text])
  · refine .bind (qualifiedName_couples hr) fun name name' hname => ?_
    exact .bindEq (.liftM (genericArguments_couples hr)) fun generics =>
      .pure (by rw [dotted_eq hname])

/-! ## Access chains and arguments -/

/-- Both lists of arguments end at the same parenthesis or comma. -/
theorem argumentsFrom_couples (hr : rules.Couple c rules') : ∀ n m, n ≤ m →
    Parse.Couples c (argumentsFrom rules n) (argumentsFrom rules' m) c.Nodes := by
  refine rounds_induction (fun _ => .endless) fun n m ih => ?_
  refine .bindEq atEnd_couples fun stop => ?_
  refine .ite (fun _ => .pure rfl) fun _ => ?_
  refine .bind current_couples fun t u h => ?_
  rw [h.isSymbol]
  refine .ite (fun _ => .pure rfl) fun _ => ?_
  refine .bindRun (hr.expression 0) (.pure rfl) fun argument argument' hargument => ?_
  refine .bind current_couples fun t u h => ?_
  rw [h.isSymbol]
  refine .ite (fun _ => .pure (.cons hargument rfl)) fun _ => ?_
  refine .bindEq advance_couples fun _ => ?_
  exact .bind ih fun _ _ hmore => .pure (.cons hargument hmore)

theorem arguments_couples (hr : rules.Couple c rules') :
    Parse.Couples c (arguments rules) (arguments rules') c.Nodes := by
  refine .bind (require_couples _ _ _) fun opening opening' hok => ?_
  rw [hok]
  refine .ite (fun _ => .pure rfl) fun _ => ?_
  refine .bindEq advance_couples fun _ => ?_
  refine .bind (argumentsFrom_couples hr _ _ hr.budget) fun _ _ hvalues => ?_
  exact .bindEq (close_couples _ _) fun _ => .pure hvalues

/-- Both chains take the same step at a dot, a bracket or a parenthesis, and end at the same place.
-/
theorem accesses_couples (hr : rules.Couple c rules') : ∀ n m, n ≤ m →
    Parse.Couples c (accesses rules n) (accesses rules' m) c.Accesses := by
  refine rounds_induction (fun _ => .endless) fun n m ih => ?_
  refine .bind current_couples fun t u h => ?_
  rw [h.isSymbol]
  refine .ite (fun _ => ?_) fun _ => .ite (fun _ => ?_) fun _ => .ite (fun _ => ?_) fun _ => ?_
  · refine .bindEq advance_couples fun _ => ?_
    refine .bind (require_couples _ _ _) fun found found' hok => ?_
    rw [hok]
    refine .ite (fun _ => .pure rfl) fun _ => ?_
    refine .bind consume_couples fun name name' hname => ?_
    refine .bind ih fun _ _ hmore => .pure (.cons ?_ hmore)
    rw [Alike, Access.mapOffset, Access.mapOffset, hname.mapOffset]
  · refine .bindEq advance_couples fun _ => ?_
    refine .bindRun (hr.expression 0) (.pure rfl) fun index index' hindex => ?_
    have hstep : c.Alike Access.mapOffset (.index index) (.index index') := by
      rw [Alike, Access.mapOffset, Access.mapOffset, hindex]
    refine .bind (require_couples _ _ _) fun closing closing' hok => ?_
    rw [hok]
    refine .ite (fun _ => .pure (.cons hstep rfl)) fun _ => ?_
    refine .bindEq advance_couples fun _ => ?_
    exact .bind ih fun _ _ hmore => .pure (.cons hstep hmore)
  · refine .bind (arguments_couples hr) fun values values' hvalues => ?_
    refine .bind ih fun _ _ hmore => .pure (.cons ?_ hmore)
    rw [Alike, Access.mapOffset, Access.mapOffset, hvalues]
  · exact .pure rfl

/-- The targets of both chains match. -/
theorem accessChain_couples (hr : rules.Couple c rules') :
    Attempt.Couples c (accessChain rules) (accessChain rules') fun chain chain' =>
      c.Alike Token.mapOffset chain.1 chain'.1 ∧ c.Accesses chain.2 chain'.2 := by
  refine .bind (.liftM current_couples) fun target target' htarget => ?_
  rw [htarget.kind]
  refine .ite (fun _ => .failure_bind) fun _ => ?_
  refine .bindEq (.liftM advance_couples) fun _ => ?_
  exact .bind (.liftM (accesses_couples hr _ _ hr.budget)) fun _ _ hbody =>
    .pure ⟨htarget.mapOffset, hbody⟩

/-! ## Statements -/

/-- Recovery behind both statements goes on from matching places. -/
theorem statement_couples (hr : rules.Couple c rules') (stops : List String) :
    Parse.Couples c (statement rules stops) (statement rules' stops) c.Nodes := by
  refine .bind mark_couples fun start start' hstart => ?_
  refine .bind (hr.expression 0) fun node node' hnode => ?_
  refine .bindEq (skip_couples _) fun _ => ?_
  refine .bindEq (recover_couples hstart stops) fun _ => .pure ?_
  cases hnode with
  | none => rfl
  | some hnode => exact .cons hnode rfl

/-- Both sequences end at the same closer or at their ends. -/
theorem sequenceFrom_couples (hr : rules.Couple c rules') (terminator : Option String) :
    ∀ n m, n ≤ m → Parse.Couples c (sequenceFrom rules terminator n)
      (sequenceFrom rules' terminator m) c.Nodes := by
  refine rounds_induction (fun _ => .endless) fun n m ih => ?_
  refine .bindEq atEnd_couples fun stop => ?_
  refine .ite (fun _ => .pure rfl) fun _ => ?_
  refine .bind current_couples fun t u h => ?_
  rw [h.isSymbol]
  refine .ite (fun _ => .pure rfl) fun _ => ?_
  refine .bind (statement_couples hr _) fun first first' hfirst => ?_
  exact .bind ih fun _ _ hmore => .pure (.append hfirst hmore)

/-- Whole programs are coupled where their statements are. -/
theorem program_couples (hr : rules.Couple c rules') :
    Parse.Couples c (program rules) (program rules') (c.Alike Program.mapOffset) := by
  refine .bind (sequenceFrom_couples hr none _ _ hr.budget) fun body body' hbody => .pure ?_
  rw [Alike, Program.mapOffset, Program.mapOffset, hbody]

theorem bracedBlock_couples (hr : rules.Couple c rules') :
    Attempt.Couples c (bracedBlock rules) (bracedBlock rules') c.Nodes := by
  refine .bindEq (needSymbol_couples _ _) fun _ => ?_
  refine .bind (.liftM (sequenceFrom_couples hr _ _ _ hr.budget)) fun _ _ hbody => ?_
  exact .bindEq (.liftM (close_couples _ _)) fun _ => .pure hbody

/-- Both conditions are complete or both parses decline. -/
theorem condition_couples (hr : rules.Couple c rules') (keyword : String) :
    Attempt.Couples c (condition rules keyword) (condition rules' keyword)
      (c.Alike Node.mapOffset) := by
  refine .bindEq (needSymbol_couples _ _) fun _ => ?_
  refine .bind (hr.expression 0) fun _ _ hvalue => ?_
  exact .bindEq (needSymbol_couples _ _) fun _ => .pure hvalue

/-- The branches of an `if` differ in offsets only. -/
def BranchesAlike (c : Coupling) (a b : Node × List Node × Alternate) : Prop :=
  c.Alike Node.mapOffset a.1 b.1 ∧ c.Nodes a.2.1 b.2.1 ∧ c.Alike Alternate.mapOffset a.2.2 b.2.2

/-- Both parses see the same `else`, and `if` behind it or not. -/
theorem branches_couples (hr : rules.Couple c rules') : ∀ n m, n ≤ m → ∀ keyword,
    Attempt.Couples c (branches rules keyword n) (branches rules' keyword m)
      (BranchesAlike c) := by
  refine rounds_induction (fun _ _ => .endless) fun n m ih keyword => ?_
  refine .bind (condition_couples hr keyword) fun value value' hvalue => ?_
  refine .bind (bracedBlock_couples hr) fun consequent consequent' hconsequent => ?_
  refine .bind (.liftM current_couples) fun t u h => ?_
  rw [h.isKeyword]
  refine .ite (fun _ => .pure ⟨hvalue, hconsequent, rfl⟩) fun _ => ?_
  refine .bindEq (.liftM advance_couples) fun _ => ?_
  refine .bind (.liftM current_couples) fun t u h => ?_
  rw [h.isKeyword]
  refine .ite (fun _ => ?_) fun _ => ?_
  · refine .bindEq (.liftM advance_couples) fun _ => ?_
    -- a branch that cannot be made leaves the branches in front of it, on both sides
    refine .bindOrNone (ih "else if") (.pure ⟨hvalue, hconsequent, rfl⟩) fun _ _ hmore => ?_
    obtain ⟨hvalue', hconsequent', halternate⟩ := hmore
    refine .pure ⟨hvalue, hconsequent, ?_⟩
    rw [Alike, Alternate.mapOffset, Alternate.mapOffset, hvalue', hconsequent', halternate]
  · refine .bindOrNone (bracedBlock_couples hr) (.pure ⟨hvalue, hconsequent, rfl⟩)
      fun _ _ hbody => .pure ⟨hvalue, hconsequent, ?_⟩
    rw [Alike, Alternate.mapOffset, Alternate.mapOffset, hbody]

theorem ifStatement_couples (hr : rules.Couple c rules') :
    Attempt.Couples c (ifStatement rules) (ifStatement rules') (c.Alike Node.mapOffset) := by
  refine .bindEq (needKeyword_couples _ _) fun _ => ?_
  refine .bind (branches_couples hr _ _ hr.budget "if") fun _ _ hbranches => ?_
  obtain ⟨hvalue, hconsequent, halternate⟩ := hbranches
  refine .pure ?_
  rw [Alike, Node.mapOffset, Node.mapOffset, hvalue, hconsequent, halternate]

theorem whileStatement_couples (hr : rules.Couple c rules') :
    Attempt.Couples c (whileStatement rules) (whileStatement rules')
      (c.Alike Node.mapOffset) := by
  refine .bindEq (needKeyword_couples _ _) fun _ => ?_
  refine .bind (condition_couples hr _) fun _ _ hvalue => ?_
  refine .bind (bracedBlock_couples hr) fun _ _ hconsequent => .pure ?_
  rw [Alike, Node.mapOffset, Node.mapOffset, hvalue, hconsequent]

/-! ## Declarations -/

/-- The names of both lists have the same texts. -/
theorem genericNamesFrom_couples : ∀ n m, n ≤ m →
    Attempt.Couples c (genericNamesFrom n) (genericNamesFrom m) Eq := by
  refine rounds_induction (fun _ => .endless) fun n m ih => ?_
  refine .bindEq (.liftM atEnd_couples) fun stop => ?_
  refine .ite (fun _ => .pure rfl) fun _ => ?_
  refine .bind (.liftM current_couples) fun t u h => ?_
  rw [h.isSymbol]
  refine .ite (fun _ => .pure rfl) fun _ => ?_
  refine .bind (needIdentifier_couples _) fun name name' hname => ?_
  rw [hname.text]
  refine .bind (.liftM current_couples) fun t u h => ?_
  rw [h.isSymbol]
  refine .ite (fun _ => .pure rfl) fun _ => ?_
  refine .bindEq (.liftM advance_couples) fun _ => ?_
  exact .bindEq ih fun _ => .pure rfl

theorem genericNames_couples (hr : rules.Couple c rules') :
    Attempt.Couples c (genericNames rules) (genericNames rules') Eq := by
  refine .bind (.liftM current_couples) fun t u h => ?_
  rw [h.isSymbol]
  refine .ite (fun _ => .pure rfl) fun _ => ?_
  refine .bindEq (.liftM advance_couples) fun _ => ?_
  refine .bindEq (genericNamesFrom_couples _ _ hr.budget) fun names => ?_
  exact .bindEq (needSymbol_couples _ _) fun _ => .pure rfl

theorem basesFrom_couples (hr : rules.Couple c rules') : ∀ n m, n ≤ m →
    Parse.Couples c (basesFrom rules n) (basesFrom rules' m) Eq := by
  refine rounds_induction (fun _ => .endless) fun n m ih => ?_
  refine .bindRun (typeExpression_couples hr) ?_ fun base _ heq => ?_
  · exact .bindEq (reportFound_couples _) fun _ => .pure rfl
  · subst heq
    refine .bind current_couples fun t u h => ?_
    rw [h.isSymbol]
    refine .ite (fun _ => .pure rfl) fun _ => ?_
    refine .bindEq advance_couples fun _ => ?_
    exact .bindEq ih fun _ => .pure rfl

theorem bases_couples (hr : rules.Couple c rules') :
    Parse.Couples c (bases rules) (bases rules') Eq := by
  refine .bind current_couples fun t u h => ?_
  rw [h.isSymbol]
  refine .ite (fun _ => .pure rfl) fun _ => ?_
  exact .bindEq advance_couples fun _ => basesFrom_couples hr _ _ hr.budget

/-- Both bodies count the same braces. -/
theorem methodStatements_couples (hr : rules.Couple c rules') : ∀ n m, n ≤ m → ∀ depth,
    Parse.Couples c (methodStatements rules n depth) (methodStatements rules' m depth)
      c.Nodes := by
  refine rounds_induction (fun _ _ => .endless) fun n m ih depth => ?_
  refine .bindEq atEnd_couples fun stop => ?_
  refine .ite (fun _ => .pure rfl) fun _ => ?_
  refine .bind current_couples fun t u h => ?_
  rw [h.isSymbol]
  refine .ite (fun _ => .pure rfl) fun _ => ?_
  refine .bind (statement_couples hr _) fun _ _ hfirst => ?_
  exact .bind (ih _) fun _ _ hmore => .pure (.append hfirst hmore)

theorem methodBody_couples (hr : rules.Couple c rules') :
    Parse.Couples c (methodBody rules) (methodBody rules') c.Nodes := by
  refine .bindEq advance_couples fun _ => ?_
  refine .bind (methodStatements_couples hr _ _ hr.budget 1) fun _ _ hbody => ?_
  refine .bind current_couples fun t u h => ?_
  rw [h.isSymbol]
  refine .ite (fun _ => ?_) fun _ => ?_
  · exact .bindEq advance_couples fun _ => .pure hbody
  · exact .bindEq (report_couples fun hexact => by rw [h.eq hexact]) fun _ => .pure hbody

/-- Both members have the same modifiers. -/
theorem memberModifiers_couples : ∀ n m, n ≤ m →
    Parse.Couples c (memberModifiers n) (memberModifiers m) Eq := by
  refine rounds_induction (fun _ => .endless) fun n m ih => ?_
  refine .bind current_couples fun t u h => ?_
  rw [h.kind, h.text]
  refine .ite (fun _ => ?_) fun _ => .pure rfl
  refine .bindEq advance_couples fun _ => ?_
  exact .bindEq ih fun _ => .pure rfl

section Members

variable {offset offset' : Nat} (hoffset : c.kept offset = c.kept offset')

include hoffset

/-- Both methods end at a semicolon or have a body. -/
theorem method_couples (hr : rules.Couple c rules') (mods : List String) (type : TypeExpr)
    (name : String) : Attempt.Couples c (method rules mods type name offset)
      (method rules' mods type name offset') (c.Alike Member.mapOffset) := by
  refine .bind (.liftM (arguments_couples hr)) fun _ _ hparameters => ?_
  refine .bind (.liftM current_couples) fun t u h => ?_
  rw [h.isSymbol]
  refine .ite (fun _ => ?_) fun _ => .ite (fun _ => ?_) fun _ => ?_
  · refine .bind (.liftM (methodBody_couples hr)) fun _ _ hbody => .pure ?_
    rw [Alike, Member.mapOffset, Member.mapOffset, hparameters, hbody, hoffset]
  · refine .bindEq (.liftM advance_couples) fun _ => .pure ?_
    rw [Alike, Member.mapOffset, Member.mapOffset, hparameters, hoffset]
  · exact .bindEq (.liftM (report_couples fun hexact => by rw [h.eq hexact])) fun _ => .failure

/-- Both members are fields or both are methods, or neither parse makes one. -/
theorem memberRest_couples (hr : rules.Couple c rules') (mods : List String) (type : TypeExpr)
    (name : String) : Attempt.Couples c (memberRest rules mods type name offset)
      (memberRest rules' mods type name offset') (c.Alike Member.mapOffset) := by
  refine .bind (.liftM current_couples) fun t u h => ?_
  rw [h.isSymbol]
  refine .ite (fun _ => method_couples hoffset hr mods type name) fun _ =>
    .ite (fun _ => ?_) fun _ => ?_
  · refine .bindEq (.liftM advance_couples) fun _ => .pure ?_
    rw [Alike, Member.mapOffset, Member.mapOffset, hoffset]
  · exact .bindEq (.liftM (report_couples fun hexact => by rw [h.eq hexact])) fun _ => .failure

end Members

/-- Both members are nested classes or neither is. -/
theorem member_couples (hr : rules.Couple c rules') :
    Attempt.Couples c (member rules) (member rules') (c.Alike Member.mapOffset) := by
  refine .bind (.liftM current_couples) fun start start' hstart => ?_
  refine .bindEq (.liftM (memberModifiers_couples _ _ hr.budget)) fun mods => ?_
  refine .bind (.liftM current_couples) fun t u h => ?_
  rw [h.isKeyword]
  refine .ite (fun _ => ?_) fun _ => ?_
  · refine .bind (hr.classDeclaration mods) fun _ _ hnested => .pure ?_
    rw [Alike, Member.mapOffset, Member.mapOffset, hnested]
  · refine .bindOrNone (typeExpression_couples hr) ?_ fun type _ heq => ?_
    · refine .bind (.liftM current_couples) fun t u h => ?_
      exact .bindEq (.liftM (report_couples fun hexact => by rw [h.eq hexact])) fun _ => .failure
    · subst heq
      refine .bind (needIdentifier_couples _) fun name name' hname => ?_
      rw [hname.text]
      exact memberRest_couples hstart.offset hr mods type name.text

/-- An identifier with an equals sign behind it. -/
def Input.NamesAt (input : Input) (p : Nat) : Prop :=
  (input.tokenAt p).kind = Kind.identifier ∧ (input.tokenAt (p + 1)).text = "="

instance (input : Input) (p : Nat) : Decidable (input.NamesAt p) :=
  inferInstanceAs (Decidable (_ ∧ _))

/-- An alias is there where an identifier and an equals sign are, and then both are taken. -/
theorem meets_usingAlias {fault : Prop} {input : Input} {p : Nat} {d : Array Diagnostic}
    {post : Option String → ParseState → Prop} :
    Parse.Meets fault input usingAlias (.at p d) post ↔
      post (if input.NamesAt p then some (input.tokenAt p).text else none)
        (.at (if input.NamesAt p then p + 2 else p) d) := by
  by_cases h : input.NamesAt p
  · have h' := h
    unfold Input.NamesAt at h'
    simp [usingAlias, h', h]
  · have h' := h
    unfold Input.NamesAt at h'
    simp [usingAlias, h', h]

/-- The equals sign is looked at one token ahead, which is still compared behind an identifier. -/
theorem usingAlias_couples : Parse.Couples c usingAlias usingAlias Eq := by
  have hnames : ∀ p, c.Live p → (c.second.NamesAt (p + c.shift) ↔ c.first.NamesAt p) := by
    intro p hp
    rw [Input.NamesAt, Input.NamesAt, (Coupling.matching_tokenAt hp).kind]
    refine and_congr_right fun hkind => ?_
    rw [Nat.add_right_comm, (Coupling.matching_tokenAt (c.live_succ hp hkind)).text]
  have hmatch : ∀ p, c.Live p → ∀ d post,
      post (if c.first.NamesAt p then some (c.first.tokenAt p).text else none)
        (.at ((if c.first.NamesAt p then p + 2 else p) + c.shift) d) →
      Parse.Meets False c.second usingAlias (.at (p + c.shift) d) post := by
    intro p hp d post hpost
    rw [meets_usingAlias]
    simp only [hnames p hp, (Coupling.matching_tokenAt hp).text]
    split
    · next h =>
      rw [if_pos h, if_pos h, Nat.add_right_comm] at hpost
      exact hpost
    · next h =>
      rw [if_neg h, if_neg h] at hpost
      exact hpost
  refine .quiet (fun p => ?_) (fun _ _ _ => meets_usingAlias.mpr)
    (fun p d post hp => hmatch p hp d post) (fun _ _ => rfl) fun _ => ⟨_, rfl⟩
  split <;> omega

theorem usingTarget_couples (hr : rules.Couple c rules') (isStatic : Bool) :
    Attempt.Couples c (usingTarget rules isStatic) (usingTarget rules' isStatic)
      (c.Alike UsingDirective.mapOffset) := by
  refine .bindEq (.lift usingAlias_couples) fun aliasName => ?_
  refine .bindOrNone (qualifiedName_couples hr) ?_ fun target target' htarget => ?_
  · refine .bind (.liftM current_couples) fun t u h => ?_
    exact .bindEq (.liftM (report_couples fun hexact => by rw [h.eq hexact])) fun _ => .failure
  · refine .bindEq (.liftM (close_couples _ _)) fun _ => .pure ?_
    rw [Alike, UsingDirective.mapOffset, UsingDirective.mapOffset, htarget]

theorem usingDirective_couples (hr : rules.Couple c rules') :
    Attempt.Couples c (usingDirective rules) (usingDirective rules')
      (c.Alike UsingDirective.mapOffset) := by
  refine .bindEq (needKeyword_couples _ _) fun _ => ?_
  refine .bind (.liftM current_couples) fun t u h => ?_
  rw [h.isKeyword]
  refine .ite (fun _ => ?_) fun _ => usingTarget_couples hr false
  exact .bindEq (.liftM advance_couples) fun _ => usingTarget_couples hr true

theorem bodyMember_couples (hr : rules.Couple c rules') (inNamespace : Bool) :
    Attempt.Couples c (bodyMember rules inNamespace) (bodyMember rules' inNamespace)
      (c.Alike Member.mapOffset) := by
  refine .bind (.liftM current_couples) fun t u h => ?_
  rw [h.isKeyword]
  refine .ite (fun _ => ?_) fun _ => member_couples hr
  refine .bind (usingDirective_couples hr) fun directive directive' hdirective => .pure ?_
  rw [Alike, Member.mapOffset, Member.mapOffset, hdirective]

/-- Both bodies end at the same brace. -/
theorem membersFrom_couples (hr : rules.Couple c rules') (inNamespace : Bool) :
    ∀ n m, n ≤ m → Parse.Couples c (membersFrom rules inNamespace n)
      (membersFrom rules' inNamespace m) c.Members := by
  refine rounds_induction (fun _ => .endless) fun n m ih => ?_
  refine .bindEq atEnd_couples fun stop => ?_
  refine .ite (fun _ => .pure rfl) fun _ => ?_
  refine .bind current_couples fun t u h => ?_
  rw [h.isSymbol]
  refine .ite (fun _ => .pure rfl) fun _ => ?_
  refine .bind mark_couples fun start start' hstart => ?_
  refine .bind (bodyMember_couples hr inNamespace) fun made made' hmade => ?_
  refine .bindEq (recover_couples hstart _) fun _ => ?_
  refine .bind ih fun _ _ hmore => .pure (.append ?_ hmore)
  cases hmade with
  | none => rfl
  | some hmade => rw [Members, Alike]; simp only [Option.toList, membersMapOffset, hmade]

/-- Both classes have the same name, and members that differ in offsets only. -/
theorem classDeclaration_couples (hr : rules.Couple c rules') (mods : List String) :
    Attempt.Couples c (classDeclaration rules mods) (classDeclaration rules' mods)
      (c.Alike ClassDecl.mapOffset) := by
  refine .bind (.liftM current_couples) fun start start' hstart => ?_
  refine .bindEq (needKeyword_couples _ _) fun _ => ?_
  refine .bind (needIdentifier_couples _) fun name name' hname => ?_
  refine .bindEq (genericNames_couples hr) fun generics => ?_
  refine .bindEq (.liftM (bases_couples hr)) fun baseTypes => ?_
  refine .bindEq (needSymbol_couples _ _) fun _ => ?_
  refine .bind (.liftM (membersFrom_couples hr false _ _ hr.budget)) fun _ _ hmembers => ?_
  refine .bindEq (.liftM (close_couples _ _)) fun _ => .pure ?_
  rw [Alike, ClassDecl.mapOffset, ClassDecl.mapOffset, hname.text, hmembers, hstart.offset]

/-- Both namespaces end at a semicolon or have a body in braces. -/
theorem namespaceDeclaration_couples (hr : rules.Couple c rules') :
    Attempt.Couples c (namespaceDeclaration rules) (namespaceDeclaration rules')
      (c.Alike Node.mapOffset) := by
  refine .bind (.liftM current_couples) fun start start' hstart => ?_
  refine .bindEq (needKeyword_couples _ _) fun _ => ?_
  refine .bindOrNone (qualifiedName_couples hr) ?_ fun name name' hname => ?_
  · exact .bindEq (.liftM (reportFound_couples _)) fun _ => .failure
  refine .bind (.liftM current_couples) fun t u h => ?_
  rw [h.isSymbol]
  refine .ite (fun _ => ?_) fun _ => ?_
  · refine .bindEq (.liftM advance_couples) fun _ => .pure ?_
    rw [Alike, Node.mapOffset, Node.mapOffset, hname, hstart.offset]
  · refine .bindEq (needSymbol_couples _ _) fun _ => ?_
    refine .bind (.liftM (membersFrom_couples hr true _ _ hr.budget)) fun _ _ hmembers => ?_
    refine .bindEq (.liftM (close_couples _ _)) fun _ => .pure ?_
    rw [Alike, Node.mapOffset, Node.mapOffset, hname, hmembers, hstart.offset]

/-! ## Expressions -/

theorem templateLiteral_couples :
    Attempt.Couples c templateLiteral templateLiteral (c.Alike Node.mapOffset) := by
  refine .bind (.liftM current_couples) fun t u h => ?_
  rw [h.kind, h.text]
  refine .ite (fun _ => .failure_bind) fun _ => ?_
  exact .bindEq (.liftM advance_couples) fun _ => .pure rfl

/-- Both operands are followed by the same increments and decrements. -/
theorem postfixes_couples : ∀ n m, n ≤ m → ∀ operand operand',
    c.Alike Node.mapOffset operand operand' →
    Parse.Couples c (postfixes n operand) (postfixes m operand') (c.Alike Node.mapOffset) := by
  refine rounds_induction (fun _ _ _ _ => .endless) fun n m ih operand operand' hoperand => ?_
  refine .bind current_couples fun t u h => ?_
  rw [h.isSymbol, h.text]
  refine .ite (fun _ => ?_) fun _ => .pure hoperand
  refine .bindEq advance_couples fun _ => ih _ _ ?_
  rw [Alike, Node.mapOffset, Node.mapOffset, hoperand]

/-- Both operands are assigned to or neither is. -/
theorem identifierExpression_couples (hr : rules.Couple c rules') :
    Attempt.Couples c (identifierExpression rules) (identifierExpression rules')
      (c.Alike Node.mapOffset) := by
  refine .bind (accessChain_couples hr) fun chain chain' hchain => ?_
  obtain ⟨htarget, hbody⟩ := hchain
  have haccess : c.Alike Node.mapOffset (.access chain.1 chain.2) (.access chain'.1 chain'.2) := by
    rw [Alike, Node.mapOffset, Node.mapOffset, htarget, hbody]
  refine .bind (.liftM (postfixes_couples _ _ hr.budget _ _ haccess)) fun left left' hleft => ?_
  refine .bind (.liftM current_couples) fun t u h => ?_
  rw [h.isSymbol]
  refine .ite (fun _ => .pure hleft) fun _ => ?_
  refine .bindEq (.liftM advance_couples) fun _ => ?_
  refine .bind (hr.expression 0) fun right right' hright => .pure ?_
  rw [Alike, Node.mapOffset, Node.mapOffset, hleft, hright]

theorem parenthesized_couples (hr : rules.Couple c rules') :
    Attempt.Couples c (parenthesized rules) (parenthesized rules') (c.Alike Node.mapOffset) := by
  refine .bindEq (.liftM advance_couples) fun _ => ?_
  refine .bind (hr.expression 0) fun _ _ hinner => ?_
  exact .bindEq (needSymbol_couples _ _) fun _ => .pure hinner

/-- Both operators have the same precedence, so that both loops go on or end together. -/
theorem operators_couples (hr : rules.Couple c rules') (minimum : Nat) : ∀ n m, n ≤ m →
    ∀ left left', c.Alike Node.mapOffset left left' →
    Parse.Couples c (operators rules minimum n left) (operators rules' minimum m left')
      (c.Alike Node.mapOffset) := by
  refine rounds_induction (fun _ _ _ _ => .endless) fun n m ih left left' hleft => ?_
  refine .bind current_couples fun t u h => ?_
  rw [h.kind, h.text]
  refine .ite (fun _ => .pure hleft) fun _ => ?_
  cases binaryPrecedence? t.text with
  | none => exact .pure hleft
  | some precedence =>
      refine .ite (fun _ => .pure hleft) fun _ => ?_
      refine .bindEq advance_couples fun _ => ?_
      refine .bindRun (hr.expression _) (.pure hleft) fun right right' hright => ?_
      refine ih _ _ ?_
      rw [Alike, Node.mapOffset, Node.mapOffset, hleft, hright]

/-! ## Levels -/

theorem Rules.budget_ofDepth (hooks : Hooks) (budget depth : Nat) :
    (Rules.ofDepth hooks budget depth).budget = budget := by
  induction depth with
  | zero => rfl
  | succ depth ih => exact ih

/-- What two parsers offer a token that begins no rule of the grammar runs side by side. -/
def Hooks.Couple (c : Coupling) (hooks hooks' : Hooks) : Prop :=
  ∀ rules rules' : Rules, rules.Couple c rules' → ∀ t u : Token, c.Matching t u →
    Attempt.Couples c (extensionExpression hooks rules t) (extensionExpression hooks' rules' u)
      (c.Alike Node.mapOffset)

/-- Without plugins nothing is made of such a token, and it is reported. -/
theorem Hooks.couple_none (c : Coupling) : Hooks.none.Couple c .none := by
  intro rules rules' _ t u h
  refine .bind (.liftM cursor_couples) fun start start' _ => ?_
  refine .bindOrNone (R := c.Alike Node.mapOffset) .failure ?_ fun _ _ hmade => .pure hmade
  refine .bindEq (.liftM (reportAt_couples h fun hexact => ?_)) fun _ => .failure
  rw [h.eq hexact]

section Hooks

variable {hooks hooks' : Hooks} (hh : hooks.Couple c hooks')

include hh

/-- Both operands are of the kind that the token under the cursor tells. -/
theorem primary_couples (hr : rules.Couple c rules') :
    Attempt.Couples c (primary hooks rules) (primary hooks' rules') (c.Alike Node.mapOffset) := by
  refine .bind (.liftM current_couples) fun t u h => ?_
  rw [h.kind, h.isSymbol, h.isKeyword]
  refine .ite (fun _ => ?_) fun _ => ?_
  · exact .bindEq (.liftM advance_couples) fun _ => .pure (by rw [h.text])
  refine .ite (fun _ => identifierExpression_couples hr) fun _ => ?_
  refine .ite (fun _ => parenthesized_couples hr) fun _ => ?_
  refine .ite (fun _ => ?_) fun _ => ?_
  · refine .map (classDeclaration_couples hr []) fun _ _ hclass => ?_
    rw [Alike, Node.mapOffset, Node.mapOffset, hclass]
  refine .ite (fun _ => ?_) fun _ => ?_
  · refine .map (usingDirective_couples hr) fun _ _ hdirective => ?_
    rw [Alike, Node.mapOffset, Node.mapOffset, hdirective]
  refine .ite (fun _ => namespaceDeclaration_couples hr) fun _ => ?_
  refine .ite (fun _ => templateLiteral_couples) fun _ => ?_
  refine .ite (fun _ => ifStatement_couples hr) fun _ => ?_
  refine .ite (fun _ => whileStatement_couples hr) fun _ => ?_
  refine .ite (fun _ => ?_) fun _ => hh _ _ hr _ _ h
  refine .bindEq (.liftM (reportAt_couples h fun hexact => ?_)) fun _ => .failure
  rw [h.eq hexact]

theorem operand_couples (hr : rules.Couple c rules') :
    Attempt.Couples c (operand hooks rules) (operand hooks' rules') (c.Alike Node.mapOffset) := by
  refine .bind (.liftM current_couples) fun t u h => ?_
  rw [h.kind, h.text]
  refine .ite (fun _ => ?_) fun _ => primary_couples hh hr
  refine .bindEq (.liftM advance_couples) fun _ => ?_
  refine .bind (hr.expression _) fun argument argument' hargument => .pure ?_
  rw [Alike, Node.mapOffset, Node.mapOffset, hargument]

/-- Both expressions are made of coupled operands. -/
theorem expression_couples (hr : rules.Couple c rules') (minimum : Nat) :
    Attempt.Couples c (Grammar.expression hooks rules minimum)
      (Grammar.expression hooks' rules' minimum) (c.Alike Node.mapOffset) := by
  refine .bind (operand_couples hh hr) fun left left' hleft => ?_
  exact .liftM (operators_couples hr minimum _ _ hr.budget _ _ hleft)

/-- Levels over rules that run side by side do so as well. -/
theorem Rules.Couple.next (hr : rules.Couple c rules') :
    (Rules.next hooks rules).Couple c (Rules.next hooks' rules') where
  budget := hr.budget
  expression minimum := expression_couples hh hr minimum
  classDeclaration mods := classDeclaration_couples hr mods
  typeExpression := typeExpression_couples hr

/-- Rules of more levels run side by side with rules of fewer. -/
theorem rules_couple {budget budget' : Nat} (hbudget : budget ≤ budget') : ∀ n m, n ≤ m →
    (Rules.ofDepth hooks budget n).Couple c (Rules.ofDepth hooks' budget' m) := by
  refine rounds_induction (fun m => ?_) fun n m hr => hr.next hh
  -- without levels below, every rule of the first parse stops for good
  exact {
    budget := by rw [Rules.budget_ofDepth, Rules.budget_ofDepth]; exact hbudget
    expression := fun _ => .endless
    classDeclaration := fun _ => .endless
    typeExpression := .endless }

end Hooks

/-! ## Parsers -/

namespace Parser

variable {parser parser' : Parser}

/-- A parser that was run to its end stands in the state where the step ended. -/
theorem run_ok_inv {α : Type} {step : Rules → Parse α} {a : α} {after : Parser}
    (h : parser.run step = (.ok a, after)) : ∃ t, after = { parser with state := t } := by
  unfold run at h
  split at h
  · cases h
    exact ⟨_, rfl⟩
  · cases h

/-- Where parses are compared everywhere, a program that the first parser reads is read by the
second one, with a tree that differs in offsets only and with matching reports, unless the reports
of the first parser set it apart. -/
theorem run_program_couples (hfirst : parser.input = c.first) (hsecond : parser'.input = c.second)
    (hhooks : parser.hooks.Couple c parser'.hooks)
    (hroutines : parser.hooks.routines.entries.length ≤ parser'.hooks.routines.entries.length)
    {p : Nat} {d e : Array Diagnostic} (hd : c.Reported d e) {tree : Program} {after : Parser}
    (hrun : (parser.resumed p d).run program = (.ok tree, after))
    (hlive : ∀ q, c.Live q := by exact fun _ => trivial) :
    ∃ q d', after = parser.resumed q d' ∧ (c.Lost d' ∨ ∃ tree' e',
      (parser'.resumed (p + c.shift) e).run program =
          (.ok tree', parser'.resumed (q + c.shift) e') ∧
        c.Alike Program.mapOffset tree tree' ∧ c.Reported d' e') := by
  have hbudget : parser.budget ≤ parser'.budget := by
    have hsize := c.size_le
    unfold budget
    rw [hfirst, hsecond]
    omega
  have hdepth : parser.depth ≤ parser'.depth :=
    Nat.mul_le_mul hbudget (Nat.add_le_add_right hroutines 2)
  have hrules : parser.rules.Couple c parser'.rules := rules_couple hhooks hbudget _ _ hdepth
  have hmeets := (program_couples hrules).follows (hlive p) hd
  rw [← hfirst] at hmeets
  obtain ⟨t, rfl⟩ := run_ok_inv hrun
  obtain ⟨q, d', rfl, hrest⟩ := post_of_run hmeets hrun
  refine ⟨q, d', rfl, hrest.imp (fun hapart => ?_) fun ⟨_, hsecond'⟩ => ?_⟩
  · exact hapart.2.resolve_right fun hnot => hnot (hlive q)
  rw [← hsecond] at hsecond'
  obtain ⟨tree', u, hrun', halike, e', rfl, hd'⟩ := run_of_meets program hsecond'
  exact ⟨tree', e', hrun', halike, hd'⟩

end Parser

namespace Frontend

/-- A parse is a run of the program rule on the tokens of a text. -/
theorem parse_eq {frontend : Frontend} {source : SourceText} {tokens : List Token}
    {aliases : Aliases} (h : frontend.tokens source = .ok (tokens, aliases)) :
    frontend.parse source =
      match (frontend.parser tokens source aliases).run program with
      | (.ok program, parser) => .ok { program := program, diagnostics := parser.diagnostics }
      | (.error fault, _) => .error (.fault fault) := by
  rw [parse, h]
  rfl

/-- A whole parse is the run of a program behind the lexer. -/
theorem parse_of_run {frontend : Frontend} {source : SourceText} {tokens : List Token}
    {aliases : Aliases} (h : frontend.tokens source = .ok (tokens, aliases)) {tree : Program}
    {q : Nat} {d : Array Diagnostic}
    (hrun : (frontend.parser tokens source aliases).run program =
      (.ok tree, (frontend.parser tokens source aliases).resumed q d)) :
    frontend.parse source = .ok { program := tree, diagnostics := d.toList } := by
  rw [parse_eq h, hrun]
  rfl

/-- A text that does not lex is not parsed. -/
theorem parse_of_lex_error {frontend : Frontend} {source : SourceText} {error : AnalysisError}
    (h : frontend.lex source = .error error) : frontend.parse source = .error error := by
  rw [lex] at h
  rw [parse]
  cases htokens : frontend.tokens source with
  | error found => rw [htokens] at h; cases h; rfl
  | ok found => rw [htokens] at h; cases h

end Frontend

end SharpSyntax
