import SharpSyntax.Parser.Session

/-!
# Parses that come to an end agree

One step of a parse agrees with another where it comes to the same end from every state from which
the other comes to an end at all. A step that runs out of levels or rounds says nothing of the steps
that agree with it, so this is the order in which `endless` stands below everything else.

The grammar keeps the order: rules that agree make routines that agree, level by level, whatever
the extensions are, as long as these keep it too. A routine of a plugin keeps it if it does nothing
with a parse that has run out but run out itself, which is all that it can do as long as it only
calls rules and looks at what they answer.
-/

namespace SharpSyntax

open Parse Attempt Grammar

variable {α β : Type} {input : Input} {rules rules' : Rules}

/-! ## Outcomes -/

namespace Attempt

/-- What an attempt ends with when it is run from a state. -/
def outcome (x : Attempt α) (input : Input) (s : ParseState) :
    EStateM.Result Fault ParseState (Option α) :=
  (x.run.run input).run s

/-- A step in front of an attempt is run first, and its end is where the attempt begins. -/
theorem outcome_lift_bind {x : Parse α} {next : α → Attempt β} {s : ParseState} :
    outcome (OptionT.lift x >>= next) input s =
      match (x.run input).run s with
      | .ok a t => (next a).outcome input t
      | .error fault t => .error fault t := by
  unfold outcome
  simp only [OptionT.run_bind, OptionT.run_lift, Option.elimM, ReaderT.run_bind, EStateM.run_bind]
  cases (x.run input).run s <;> rfl

theorem outcome_orNone_bind {x : Attempt α} {next : Option α → Attempt β} {s : ParseState} :
    (orNone x >>= next).outcome input s =
      match x.outcome input s with
      | .ok made t => (next made).outcome input t
      | .error fault t => .error fault t := by
  rw [orNone, outcome_lift_bind, outcome]
  cases (x.run.run input).run s <;> rfl

end Attempt

/-! ## Steps -/

/-- From a state, the first step runs out or the second one ends as it does. -/
def Parse.AgreesFrom (input : Input) (s : ParseState) (x y : Parse α) : Prop :=
  (∃ t, (x.run input).run s = .error .endless t) ∨ (y.run input).run s = (x.run input).run s

/-- From every state from which the first step does not run out, the second one ends alike. -/
def Parse.Agrees (input : Input) (x y : Parse α) : Prop := ∀ s, AgreesFrom input s x y

/-- The same of steps that may decline. -/
def Attempt.Agrees (input : Input) (x y : Attempt α) : Prop :=
  Parse.Agrees input x.run y.run

/-- What follows steps that agree has to agree where the first of them ends. -/
theorem Parse.AgreesFrom.bind {x y : Parse α} {next next' : α → Parse β} {s : ParseState}
    (h : AgreesFrom input s x y) (hnext : ∀ a t, AgreesFrom input t (next a) (next' a)) :
    AgreesFrom input s (x >>= next) (y >>= next') := by
  unfold AgreesFrom
  simp only [ReaderT.run_bind, EStateM.run_bind]
  rcases h with ⟨t, hout⟩ | hxy
  · rw [hout]
    exact .inl ⟨t, rfl⟩
  · rw [hxy]
    cases (x.run input).run s with
    | ok a t => exact hnext a t
    | error fault t => exact .inr rfl

/-- The same of what follows an attempt within an attempt. -/
theorem Parse.AgreesFrom.bindOrNone {x y : Attempt α} {next next' : Option α → Attempt β}
    {s : ParseState} (h : AgreesFrom input s x.run y.run)
    (hnext : ∀ made t, AgreesFrom input t (next made).run (next' made).run) :
    AgreesFrom input s (orNone x >>= next).run (orNone y >>= next').run := by
  show (∃ t, (orNone x >>= next).outcome input s = _) ∨
    (orNone y >>= next').outcome input s = (orNone x >>= next).outcome input s
  rw [outcome_orNone_bind, outcome_orNone_bind]
  rcases h with ⟨t, hout⟩ | hxy
  · exact .inl ⟨t, by rw [outcome, hout]⟩
  · rw [outcome, outcome, hxy]
    cases (x.run.run input).run s with
    | ok made t => exact hnext made t
    | error fault t => exact .inr rfl

/-- What follows a look at the cursor has to agree for the place where it stands. -/
theorem Parse.AgreesFrom.afterCursor {next next' : Int → Attempt β} {s : ParseState}
    (h : AgreesFrom input s (next s.cursor).run (next' s.cursor).run) :
    AgreesFrom input s ((liftM cursor : Attempt Int) >>= next).run
      ((liftM cursor : Attempt Int) >>= next').run := h

namespace Parse.Agrees

variable {x y : Parse α}

/-- Every step agrees with itself. -/
theorem refl (x : Parse α) : Agrees input x x := fun _ => .inr rfl

/-- Everything agrees with a step that runs out. -/
theorem endless : Agrees input Parse.endless y := fun s => .inl ⟨s, rfl⟩

/-- Steps that agree may be followed by steps that agree. -/
theorem bind {next next' : α → Parse β} (h : Agrees input x y)
    (hnext : ∀ a, Agrees input (next a) (next' a)) :
    Agrees input (x >>= next) (y >>= next') :=
  fun s => (h s).bind fun a t => hnext a t

/-- What follows the same step. -/
theorem after {next next' : α → Parse β} (hnext : ∀ a, Agrees input (next a) (next' a)) :
    Agrees input (x >>= next) (x >>= next') := (refl x).bind hnext

/-- Where both sides choose alike, the branches have to agree. -/
theorem ite {c : Prop} [Decidable c] {x' y' : Parse α} (hyes : Agrees input x y)
    (hno : Agrees input x' y') : Agrees input (if c then x else x') (if c then y else y') := by
  split
  · exact hyes
  · exact hno

/-- What follows an attempt is told by cases. -/
theorem bindRun {x y : Attempt α} {next next' : Option α → Parse β}
    (h : Attempt.Agrees input x y) (hnone : Agrees input (next none) (next' none))
    (hsome : ∀ a, Agrees input (next (some a)) (next' (some a))) :
    Agrees input (x.run >>= next) (y.run >>= next') := by
  refine bind h fun o => ?_
  cases o with
  | none => exact hnone
  | some a => exact hsome a

end Parse.Agrees

namespace Attempt.Agrees

variable {x y : Attempt α}

theorem refl (x : Attempt α) : Agrees input x x := Parse.Agrees.refl x.run

theorem endless : Agrees input (Parse.endless : Attempt α) y := Parse.Agrees.endless

theorem failure_bind {next next' : α → Attempt β} :
    Agrees input (failure >>= next) (failure >>= next') := fun _ => .inr rfl

/-- Attempts that agree decline together, and what follows them has to agree. -/
theorem bind {next next' : α → Attempt β} (h : Agrees input x y)
    (hnext : ∀ a, Agrees input (next a) (next' a)) :
    Agrees input (x >>= next) (y >>= next') := by
  unfold Agrees
  rw [OptionT.run_bind, OptionT.run_bind]
  exact Parse.Agrees.bindRun h (.refl _) hnext

/-- What follows the same step. -/
theorem after {next next' : α → Attempt β} (hnext : ∀ a, Agrees input (next a) (next' a)) :
    Agrees input (x >>= next) (x >>= next') := (refl x).bind hnext

theorem map {f : α → β} (h : Agrees input x y) : Agrees input (f <$> x) (f <$> y) := by
  rw [map_eq_pure_bind, map_eq_pure_bind]
  exact h.bind fun _ => .refl _

theorem ite {c : Prop} [Decidable c] {x' y' : Attempt α} (hyes : Agrees input x y)
    (hno : Agrees input x' y') : Agrees input (if c then x else x') (if c then y else y') := by
  split
  · exact hyes
  · exact hno

/-- Steps that agree are attempts that agree. -/
theorem lift {x y : Parse α} (h : Parse.Agrees input x y) :
    Agrees input (OptionT.lift x) (OptionT.lift y) := by
  show Parse.Agrees input (some <$> x) (some <$> y)
  rw [map_eq_pure_bind, map_eq_pure_bind]
  exact h.bind fun _ => .refl _

theorem liftM {x y : Parse α} (h : Parse.Agrees input x y) :
    Agrees input (liftM x : Attempt α) (liftM y) := lift h

theorem orNone (h : Agrees input x y) : Agrees input (orNone x) (orNone y) := lift h

/-- What follows an attempt within an attempt is told by cases. -/
theorem bindOrNone {next next' : Option α → Attempt β} (h : Agrees input x y)
    (hnone : Agrees input (next none) (next' none))
    (hsome : ∀ a, Agrees input (next (some a)) (next' (some a))) :
    Agrees input (Attempt.orNone x >>= next) (Attempt.orNone y >>= next') := by
  refine h.orNone.bind fun o => ?_
  cases o with
  | none => exact hnone
  | some a => exact hsome a

end Attempt.Agrees

/-! ## Rules -/

/-- The second rules end as the first ones do wherever these come to an end. -/
structure Rules.Agree (input : Input) (rules rules' : Rules) : Prop where
  budget : rules'.budget = rules.budget
  expression : ∀ minimum,
    Attempt.Agrees input (rules.expression minimum) (rules'.expression minimum)
  classDeclaration : ∀ mods,
    Attempt.Agrees input (rules.classDeclaration mods) (rules'.classDeclaration mods)
  typeExpression : Attempt.Agrees input rules.typeExpression rules'.typeExpression
  routine : ∀ name, Attempt.Agrees input (rules.routine name) (rules'.routine name)

/-- The routine makes nothing of a parse that has run out: over rules that agree it agrees with
itself. -/
def Routine.Steady (input : Input) (routine : Routine) : Prop :=
  ∀ rules rules' : Rules, rules.Agree input rules' →
    Attempt.Agrees input (routine rules) (routine rules')

section Grammar

variable (hr : rules.Agree input rules')

include hr

/-! ### Names and types -/

/-- A name asks the rules for nothing but the number of its rounds. -/
theorem qualifiedName_agrees :
    Attempt.Agrees input (qualifiedName rules) (qualifiedName rules') := by
  unfold qualifiedName
  rw [hr.budget]
  exact .refl _

/-- Each round of the list asks for one type. -/
theorem typeListFrom_agrees : ∀ n,
    Parse.Agrees input (typeListFrom rules n) (typeListFrom rules' n)
  | 0 => .endless
  | n + 1 => by
      refine .after fun _ => .ite (.refl _) ?_
      refine .bindRun hr.typeExpression (.refl _) fun _ => ?_
      refine .after fun _ => .ite (.refl _) ?_
      refine .after fun _ => ?_
      exact (typeListFrom_agrees n).bind fun _ => .refl _

theorem genericArguments_agrees :
    Parse.Agrees input (genericArguments rules) (genericArguments rules') := by
  refine .after fun _ => .ite (.refl _) ?_
  refine .after fun _ => ?_
  unfold typeList
  rw [hr.budget]
  exact (typeListFrom_agrees hr _).bind fun _ => .refl _

theorem typeExpression_agrees :
    Attempt.Agrees input (typeExpression rules) (typeExpression rules') := by
  refine .after fun _ => .ite ?_ ?_
  · refine .after fun _ => ?_
    exact (Attempt.Agrees.liftM (genericArguments_agrees hr)).bind fun _ => .refl _
  · refine (qualifiedName_agrees hr).bind fun _ => ?_
    exact (Attempt.Agrees.liftM (genericArguments_agrees hr)).bind fun _ => .refl _

/-! ### Access chains and arguments -/

/-- Each round of the list asks for one expression. -/
theorem argumentsFrom_agrees : ∀ n,
    Parse.Agrees input (argumentsFrom rules n) (argumentsFrom rules' n)
  | 0 => .endless
  | n + 1 => by
      refine .after fun _ => .ite (.refl _) ?_
      refine .after fun _ => .ite (.refl _) ?_
      refine .bindRun (hr.expression 0) (.refl _) fun _ => ?_
      refine .after fun _ => .ite (.refl _) ?_
      refine .after fun _ => ?_
      exact (argumentsFrom_agrees n).bind fun _ => .refl _

theorem arguments_agrees : Parse.Agrees input (arguments rules) (arguments rules') := by
  refine .after fun _ => .ite (.refl _) ?_
  refine .after fun _ => ?_
  rw [hr.budget]
  exact (argumentsFrom_agrees hr _).bind fun _ => .refl _

/-- Each step of a chain asks for an expression, for arguments or for nothing. -/
theorem accesses_agrees : ∀ n, Parse.Agrees input (accesses rules n) (accesses rules' n)
  | 0 => .endless
  | n + 1 => by
      have hmore := accesses_agrees n
      refine .after fun _ => .ite ?_ (.ite ?_ (.ite ?_ (.refl _)))
      · refine .after fun _ => .after fun _ => .ite (.refl _) ?_
        refine .after fun _ => ?_
        exact hmore.bind fun _ => .refl _
      · refine .after fun _ => .bindRun (hr.expression 0) (.refl _) fun _ => ?_
        refine .after fun _ => .ite (.refl _) ?_
        refine .after fun _ => ?_
        exact hmore.bind fun _ => .refl _
      · refine (arguments_agrees hr).bind fun _ => ?_
        exact hmore.bind fun _ => .refl _

theorem accessChain_agrees : Attempt.Agrees input (accessChain rules) (accessChain rules') := by
  refine .after fun _ => .ite .failure_bind ?_
  refine .after fun _ => ?_
  rw [hr.budget]
  exact (Attempt.Agrees.liftM (accesses_agrees hr _)).bind fun _ => .refl _

/-! ### Statements -/

/-- Recovery behind a statement asks the rules for nothing. -/
theorem statement_agrees {stops : List String} :
    Parse.Agrees input (statement rules stops) (statement rules' stops) := by
  refine .after fun _ => ?_
  exact Parse.Agrees.bind (hr.expression 0) fun _ => .refl _

/-- Each round of a sequence asks for one statement. -/
theorem sequenceFrom_agrees {terminator : Option String} : ∀ n,
    Parse.Agrees input (sequenceFrom rules terminator n) (sequenceFrom rules' terminator n)
  | 0 => .endless
  | n + 1 => by
      refine .after fun _ => .ite (.refl _) ?_
      refine .after fun _ => .ite (.refl _) ?_
      refine (statement_agrees hr).bind fun _ => ?_
      exact (sequenceFrom_agrees n).bind fun _ => .refl _

theorem bracedBlock_agrees : Attempt.Agrees input (bracedBlock rules) (bracedBlock rules') := by
  refine .after fun _ => ?_
  unfold block
  rw [hr.budget]
  exact (Attempt.Agrees.liftM (sequenceFrom_agrees hr _)).bind fun _ => .refl _

theorem condition_agrees {keyword : String} :
    Attempt.Agrees input (condition rules keyword) (condition rules' keyword) := by
  refine .after fun _ => ?_
  exact (hr.expression 0).bind fun _ => .refl _

/-- Each round reads a condition and a block, and another round an `else if`. -/
theorem branches_agrees : ∀ n {keyword},
    Attempt.Agrees input (branches rules keyword n) (branches rules' keyword n)
  | 0, _ => .endless
  | n + 1, _ => by
      refine (condition_agrees hr).bind fun _ => ?_
      refine (bracedBlock_agrees hr).bind fun _ => ?_
      refine .after fun _ => .ite (.refl _) ?_
      refine .after fun _ => .after fun _ => .ite ?_ ?_
      · refine .after fun _ => ?_
        exact .bindOrNone (branches_agrees n) (.refl _) fun _ => .refl _
      · exact .bindOrNone (bracedBlock_agrees hr) (.refl _) fun _ => .refl _

theorem ifStatement_agrees : Attempt.Agrees input (ifStatement rules) (ifStatement rules') := by
  refine .after fun _ => ?_
  rw [hr.budget]
  exact (branches_agrees hr _).bind fun _ => .refl _

theorem whileStatement_agrees :
    Attempt.Agrees input (whileStatement rules) (whileStatement rules') := by
  refine .after fun _ => ?_
  refine (condition_agrees hr).bind fun _ => ?_
  exact (bracedBlock_agrees hr).bind fun _ => .refl _

/-! ### Declarations -/

theorem genericNames_agrees : Attempt.Agrees input (genericNames rules) (genericNames rules') := by
  unfold genericNames
  rw [hr.budget]
  exact .refl _

theorem basesFrom_agrees : ∀ n, Parse.Agrees input (basesFrom rules n) (basesFrom rules' n)
  | 0 => .endless
  | n + 1 => by
      refine .bindRun (typeExpression_agrees hr) (.refl _) fun _ => ?_
      refine .after fun _ => .ite (.refl _) ?_
      refine .after fun _ => ?_
      exact (basesFrom_agrees n).bind fun _ => .refl _

theorem bases_agrees : Parse.Agrees input (bases rules) (bases rules') := by
  refine .after fun _ => .ite (.refl _) ?_
  refine .after fun _ => ?_
  rw [hr.budget]
  exact basesFrom_agrees hr _

/-- The braces that are counted are those of the input, on both sides. -/
theorem methodStatements_agrees : ∀ n {depth},
    Parse.Agrees input (methodStatements rules n depth) (methodStatements rules' n depth)
  | 0, _ => .endless
  | n + 1, _ => by
      refine .after fun _ => .ite (.refl _) ?_
      refine .after fun _ => .ite (.refl _) ?_
      refine (statement_agrees hr).bind fun _ => ?_
      exact (methodStatements_agrees n).bind fun _ => .refl _

theorem methodBody_agreement : Parse.Agrees input (methodBody rules) (methodBody rules') := by
  refine .after fun _ => ?_
  rw [hr.budget]
  exact (methodStatements_agrees hr _).bind fun _ => .refl _

theorem method_agrees {mods : List String} {type : TypeExpr} {name : String} {offset : Nat} :
    Attempt.Agrees input (method rules mods type name offset)
      (method rules' mods type name offset) := by
  refine (Attempt.Agrees.liftM (arguments_agrees hr)).bind fun _ => ?_
  refine .after fun _ => .ite ?_ (.refl _)
  exact (Attempt.Agrees.liftM (methodBody_agreement hr)).bind fun _ => .refl _

theorem memberRest_agrees {mods : List String} {type : TypeExpr} {name : String} {offset : Nat} :
    Attempt.Agrees input (memberRest rules mods type name offset)
      (memberRest rules' mods type name offset) := by
  refine .after fun _ => ?_
  exact .ite (method_agrees hr) (.refl _)

/-- Both sides read a class, or a type and what follows a name. -/
theorem member_agrees : Attempt.Agrees input (member rules) (member rules') := by
  unfold member
  rw [hr.budget]
  refine .after fun _ => .after fun _ => .after fun _ => .ite ?_ ?_
  · exact (hr.classDeclaration _).bind fun _ => .refl _
  · refine .bindOrNone (typeExpression_agrees hr) (.refl _) fun _ => ?_
    refine .after fun _ => ?_
    exact memberRest_agrees hr

theorem usingDirective_agrees :
    Attempt.Agrees input (usingDirective rules) (usingDirective rules') := by
  have htarget : ∀ isStatic,
      Attempt.Agrees input (usingTarget rules isStatic) (usingTarget rules' isStatic) := by
    intro isStatic
    refine .after fun _ => ?_
    exact .bindOrNone (qualifiedName_agrees hr) (.refl _) fun _ => .refl _
  refine .after fun _ => .after fun _ => .ite ?_ (htarget false)
  exact .after fun _ => htarget true

theorem bodyMember_agrees {inNamespace : Bool} :
    Attempt.Agrees input (bodyMember rules inNamespace) (bodyMember rules' inNamespace) := by
  refine .after fun _ => .ite ?_ (member_agrees hr)
  exact (usingDirective_agrees hr).bind fun _ => .refl _

/-- Each round of a body asks for one member. -/
theorem membersFrom_agrees {inNamespace : Bool} : ∀ n,
    Parse.Agrees input (membersFrom rules inNamespace n) (membersFrom rules' inNamespace n)
  | 0 => .endless
  | n + 1 => by
      refine .after fun _ => .ite (.refl _) ?_
      refine .after fun _ => .ite (.refl _) ?_
      refine .after fun _ => ?_
      refine Parse.Agrees.bind (bodyMember_agrees hr) fun _ => ?_
      refine .after fun _ => ?_
      exact (membersFrom_agrees n).bind fun _ => .refl _

theorem classDeclaration_agrees {mods : List String} :
    Attempt.Agrees input (classDeclaration rules mods) (classDeclaration rules' mods) := by
  unfold classDeclaration
  rw [hr.budget]
  refine .after fun _ => .after fun _ => .after fun _ => ?_
  refine (genericNames_agrees hr).bind fun _ => ?_
  refine (Attempt.Agrees.liftM (bases_agrees hr)).bind fun _ => ?_
  refine .after fun _ => ?_
  exact (Attempt.Agrees.liftM (membersFrom_agrees hr _)).bind fun _ => .refl _

theorem namespaceDeclaration_agrees :
    Attempt.Agrees input (namespaceDeclaration rules) (namespaceDeclaration rules') := by
  refine .after fun _ => .after fun _ => ?_
  refine .bindOrNone (qualifiedName_agrees hr) (.refl _) fun _ => ?_
  refine .after fun _ => .ite (.refl _) ?_
  refine .after fun _ => ?_
  rw [hr.budget]
  exact (Attempt.Agrees.liftM (membersFrom_agrees hr _)).bind fun _ => .refl _

/-! ### Expressions -/

theorem identifierExpression_agrees :
    Attempt.Agrees input (identifierExpression rules) (identifierExpression rules') := by
  unfold identifierExpression
  rw [hr.budget]
  refine (accessChain_agrees hr).bind fun _ => ?_
  refine .after fun _ => .after fun _ => .ite (.refl _) ?_
  refine .after fun _ => ?_
  exact (hr.expression 0).bind fun _ => .refl _

theorem parenthesized_agrees :
    Attempt.Agrees input (parenthesized rules) (parenthesized rules') := by
  refine .after fun _ => ?_
  exact (hr.expression 0).bind fun _ => .refl _

/-- Each round asks for the operand behind an operator. -/
theorem operators_agrees {minimum : Nat} : ∀ n {left},
    Parse.Agrees input (operators rules minimum n left) (operators rules' minimum n left)
  | 0, _ => .endless
  | n + 1, left => by
      refine .after fun token => .ite (.refl _) ?_
      cases binaryPrecedence? token.text with
      | none => exact .refl _
      | some precedence =>
          refine .ite (.refl _) ?_
          refine .after fun _ => ?_
          exact .bindRun (hr.expression _) (.refl _) fun _ => operators_agrees n

end Grammar

/-! ## Extensions -/

/-- One list of extensions is tried as another is, over rules that agree: each extension of the
first list agrees with the one in its place, or it has none there and declines or runs out. -/
inductive Tried (input : Input) (rules rules' : Rules) : List Routine → List Routine → Prop where
  | nil : Tried input rules rules' [] []
  | both {first first' : Routine} {rest rest' : List Routine} :
      Attempt.Agrees input (first rules) (first' rules') → Tried input rules rules' rest rest' →
      Tried input rules rules' (first :: rest) (first' :: rest')
  | passed {first : Routine} {rest rest' : List Routine} :
      (∀ s, (∃ t, (first rules).outcome input s = .error .endless t) ∨
        ∃ cursor, (first rules).outcome input s = .ok none { s with cursor := cursor }) →
      Tried input rules rules' rest rest' → Tried input rules rules' (first :: rest) rest'

/-- The first node that the extensions make is the same, where all of them begin at one place. -/
theorem Tried.firstExtension_agrees {extensions extensions' : List Routine}
    (h : Tried input rules rules' extensions extensions') : ∀ s : ParseState,
      AgreesFrom input s (firstExtension rules s.cursor extensions).run
        (firstExtension rules' s.cursor extensions').run := by
  induction h with
  | nil => exact fun s => .inr rfl
  | both hfirst _ ih =>
      intro s
      refine Parse.AgreesFrom.bindOrNone (hfirst s) fun made t => ?_
      cases made with
      | some node => exact .inr rfl
      -- the next ones begin where the first one began
      | none => exact ih { t with cursor := s.cursor }
  | @passed first rest rest' hfirst _ ih =>
      intro s
      show (∃ t, (firstExtension rules s.cursor (first :: rest)).outcome input s = _) ∨
        (firstExtension rules' s.cursor rest').outcome input s =
          (firstExtension rules s.cursor (first :: rest)).outcome input s
      rw [firstExtension, outcome_orNone_bind]
      rcases hfirst s with ⟨t, hout⟩ | ⟨cursor, hdeclined⟩
      · exact .inl ⟨t, by rw [hout]⟩
      · rw [hdeclined]
        exact ih s

/-! ## Levels -/

variable {hooks hooks' : Hooks}

section Hooks

variable (hr : rules.Agree input rules')
  (htried : Tried input rules rules' hooks.extensions hooks'.extensions)

include htried

/-- What is made or said of a token that begins no rule is the same. -/
theorem extensionExpression_agrees (token : Token) :
    Attempt.Agrees input (extensionExpression hooks rules token)
      (extensionExpression hooks' rules' token) := by
  intro s
  refine Parse.AgreesFrom.afterCursor ?_
  exact .bindOrNone (htried.firstExtension_agrees s) fun made t => .inr rfl

include hr

/-- Both sides choose by the same token, and ask their extensions last. -/
theorem primary_agrees : Attempt.Agrees input (primary hooks rules) (primary hooks' rules') := by
  refine .after fun token => ?_
  refine .ite (.refl _) ?_
  refine .ite (identifierExpression_agrees hr) ?_
  refine .ite (parenthesized_agrees hr) ?_
  refine .ite (.map (classDeclaration_agrees hr)) ?_
  refine .ite (.map (usingDirective_agrees hr)) ?_
  refine .ite (namespaceDeclaration_agrees hr) ?_
  refine .ite (.refl _) ?_
  refine .ite (ifStatement_agrees hr) ?_
  refine .ite (whileStatement_agrees hr) ?_
  exact .ite (.refl _) (extensionExpression_agrees htried token)

/-- Expressions agree where their operands do. -/
theorem expression_agrees (minimum : Nat) :
    Attempt.Agrees input (Grammar.expression hooks rules minimum)
      (Grammar.expression hooks' rules' minimum) := by
  have hoperand : Attempt.Agrees input (operand hooks rules) (operand hooks' rules') := by
    refine .after fun _ => .ite ?_ (primary_agrees hr htried)
    refine .after fun _ => ?_
    exact (hr.expression _).bind fun _ => .refl _
  refine hoperand.bind fun _ => ?_
  rw [hr.budget]
  exact .liftM (operators_agrees hr _)

end Hooks

/-- Levels over rules that agree do so as well, where the extensions are tried alike and the
routines under names agree. -/
theorem Rules.Agree.next (hr : rules.Agree input rules')
    (htried : Tried input rules rules' hooks.extensions hooks'.extensions)
    (hcall : ∀ name, Attempt.Agrees input (hooks.call rules name) (hooks'.call rules' name)) :
    (Rules.next hooks rules).Agree input (Rules.next hooks' rules') where
  budget := hr.budget
  expression := expression_agrees hr htried
  classDeclaration _ := classDeclaration_agrees hr
  typeExpression := typeExpression_agrees hr
  routine := hcall

end SharpSyntax
