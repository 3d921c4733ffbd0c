import SharpSyntax.Proofs.Meets

/-!
# Every parse comes to an end

A parse ends because every construct it makes takes a token, and because every round of every loop
that makes nothing steps over one. Three facts are carried through all rules of the grammar:

* a rule leaves the cursor between where it began and the end of the input;
* a rule only appends to the diagnostics;
* a rule that makes something has moved the cursor.

They need levels and rounds. A rule of level `n` is only ever called with fewer than `n` tokens to
go, since the construct around it began with a token of its own, and a loop in its last round has no
token left. So a level and a round more than there are tokens suffice, and a parser has more of
both.
-/

namespace SharpSyntax

open Parse Grammar

variable {α : Type} {input : Input} {p q : Nat} {d e : Array Diagnostic}

/-! ## States further on -/

/-- The later list of diagnostics continues the earlier one. -/
def Extends (earlier later : Array Diagnostic) : Prop := earlier.toList <+: later.toList

theorem Extends.refl (d : Array Diagnostic) : Extends d d := List.prefix_rfl

theorem Extends.trans {f : Array Diagnostic} (h : Extends d e) (h' : Extends e f) : Extends d f :=
  List.IsPrefix.trans h h'

/-- One more report continues what was reported. -/
theorem Extends.push (h : Extends d e) (x : Diagnostic) : Extends d (e.push x) :=
  h.trans (by simp [Extends])

/-- A state from `p` on, inside the input, whose diagnostics continue `d`. -/
def Onward (input : Input) (p : Nat) (d : Array Diagnostic) (t : ParseState) : Prop :=
  ∃ q e, t = .at q e ∧ p ≤ q ∧ q ≤ input.size ∧ Extends d e

/-- A state further on, inside the input, is onward. -/
theorem Onward.at (hpq : p ≤ q) (hq : q ≤ input.size) (h : Extends d e) :
    Onward input p d (.at q e) :=
  ⟨q, e, rfl, hpq, hq, h⟩

/-- From `p` the step comes to an end at `q` or further on. -/
def Parse.Reaches (input : Input) (step : Parse α) (p q : Nat) : Prop :=
  ∀ d, Parse.Meets False input step (.at p d) fun _ => Onward input q d

/-- From `p` the step makes something at `q` or further on, or declines at `p` or further on. -/
def Attempt.Reaches (input : Input) (step : Attempt α) (p q : Nat) : Prop :=
  ∀ d, Attempt.Meets False input step (.at p d) (fun _ => Onward input q d) (Onward input p d)

/-- What holds wherever the step may end holds where it ends. -/
theorem Parse.Reaches.meets {step : Parse α} {post : α → ParseState → Prop}
    (h : Parse.Reaches input step p q) (hd : Extends d e)
    (hpost : ∀ a r f, q ≤ r → r ≤ input.size → Extends d f → post a (.at r f)) :
    Parse.Meets False input step (.at p e) post := by
  refine (h e).mono fun a t => ?_
  rintro ⟨r, f, rfl, hr, hs, hf⟩
  exact hpost a r f hr hs (hd.trans hf)

/-- What holds wherever the attempt may make something or decline holds where it does. -/
theorem Attempt.Reaches.meets {step : Attempt α} {made : α → ParseState → Prop}
    {declined : ParseState → Prop} (h : Attempt.Reaches input step p q) (hd : Extends d e)
    (hmade : ∀ a r f, q ≤ r → r ≤ input.size → Extends d f → made a (.at r f))
    (hdeclined : ∀ r f, p ≤ r → r ≤ input.size → Extends d f → declined (.at r f)) :
    Attempt.Meets False input step (.at p e) made declined := by
  refine (h e).mono (fun a t => ?_) fun t => ?_
  · rintro ⟨r, f, rfl, hr, hs, hf⟩
    exact hmade a r f hr hs (hd.trans hf)
  · rintro ⟨r, f, rfl, hr, hs, hf⟩
    exact hdeclined r f hr hs (hd.trans hf)

/-- A last step that comes to an end further on ends what began before it further on. -/
theorem Parse.Reaches.onward {step : Parse α} {o : Nat} (h : Parse.Reaches input step p q)
    (hd : Extends d e) (ho : o ≤ q) :
    Parse.Meets False input step (.at p e) fun _ => Onward input o d :=
  h.meets hd fun _ _ _ hr hs hf => .at (Nat.le_trans ho hr) hs hf

/-- A last step that makes something or declines further on does so for what began before it. -/
theorem Attempt.Reaches.onward {step : Attempt α} {o u : Nat}
    (h : Attempt.Reaches input step p q) (hd : Extends d e) (ho : o ≤ q) (hu : u ≤ p) :
    Attempt.Meets False input step (.at p e) (fun _ => Onward input o d) (Onward input u d) :=
  h.meets hd (fun _ _ _ hr hs hf => .at (Nat.le_trans ho hr) hs hf)
    fun _ _ hr hs hf => .at (Nat.le_trans hu hr) hs hf

/-- An attempt may stand where it began if nothing is asked of what it makes. -/
theorem Attempt.Reaches.run {step : Attempt α} (h : Attempt.Reaches input step p (p + 1)) :
    Parse.Reaches input step.run p p := by
  intro d
  rw [Attempt.meets_run]
  exact h.onward (.refl d) (Nat.le_succ p) (Nat.le_refl p)

/-- The rules of a level, called at most that many tokens before the end, make what they make of at
least one token. -/
structure Rules.Progress (input : Input) (depth : Nat) (rules : Rules) : Prop where
  /-- Loops have more rounds than there are tokens. -/
  budget : input.size < rules.budget
  /-- Expressions take a token. -/
  expression : ∀ m p, p ≤ input.size → input.size < p + depth →
    Attempt.Reaches input (rules.expression m) p (p + 1)
  /-- Classes take a token. -/
  classDeclaration : ∀ mods p, p ≤ input.size → input.size < p + depth →
    Attempt.Reaches input (rules.classDeclaration mods) p (p + 1)
  /-- Types take a token. -/
  typeExpression : ∀ p, p ≤ input.size → input.size < p + depth →
    Attempt.Reaches input rules.typeExpression p (p + 1)

variable {rules : Rules} {depth : Nat} {text template : String}

/-- A closing symbol that is missing is not stepped over. -/
theorem close_reaches (hp : p ≤ input.size) : Parse.Reaches input (close text template) p p := by
  intro d
  by_cases hclose : (input.tokenAt p).isSymbol text
  · have hlt := Input.lt_size_of_isSymbol hclose
    simp only [meets_close, hclose]
    exact .at (by omega) hlt (.refl d)
  · simp only [meets_close, hclose]
    exact .at (Nat.le_refl p) hp (.push (.refl d) _)

theorem skip_reaches (hp : p ≤ input.size) : Parse.Reaches input (skip text) p p := by
  intro d
  by_cases hskip : (input.tokenAt p).isSymbol text
  · have hlt := Input.lt_size_of_isSymbol hskip
    simp only [meets_skip, hskip]
    exact .at (by omega) hlt (.refl d)
  · simp only [meets_skip, hskip]
    exact .at (Nat.le_refl p) hp (.refl d)

/-! ## Names and types -/

/-- Each round takes a dot and a name, so that more rounds than tokens suffice. -/
theorem nameTail_reaches : ∀ (n p : Nat), p ≤ input.size → input.size < p + n →
    Parse.Reaches input (nameTail n) p p
  | 0, p, hp, hn => by omega
  | n + 1, p, hp, hn => by
      intro d
      by_cases hdot : (input.tokenAt p).isSymbol "."
      · have hlt := Input.lt_size_of_isSymbol hdot
        by_cases hid : (input.tokenAt (p + 1)).kind = Kind.identifier
        · have hlt' := Input.lt_size_of_kind hid (by decide)
          simp only [nameTail, meets_bind, meets_ite, meets_current, hdot, meets_advance,
            meets_require, Token.fits_identifier, hid]
          -- a round reads a dot and a name, so that the rounds outlast the tokens
          exact (nameTail_reaches n (p + 2) (by omega) (by omega)).onward (.refl d) (by omega)
        · simp only [nameTail, meets_bind, meets_ite, meets_current, hdot, meets_advance,
            meets_require, Token.fits_identifier, hid]
          exact .at (by omega) hlt (.push (.refl d) _)
      · simp only [nameTail, meets_bind, meets_current, hdot]
        exact .at (Nat.le_refl p) hp (.refl d)

/-- A name takes its first identifier. -/
theorem qualifiedName_reaches (hb : input.size < rules.budget) (hp : p ≤ input.size) :
    Attempt.Reaches input (qualifiedName rules) p (p + 1) := by
  intro d
  by_cases hid : (input.tokenAt p).kind = Kind.identifier
  · have hlt := Input.lt_size_of_kind hid (by decide)
    simp only [qualifiedName, Attempt.meets_bind, Attempt.meets_ite, Attempt.meets_liftM,
      meets_current, hid]
    exact (nameTail_reaches _ (p + 1) hlt (by omega)).onward (.refl d) (by omega)
  · simp only [qualifiedName, ite_not, Attempt.meets_bind, Attempt.meets_liftM, meets_current, hid]
    exact .at (Nat.le_refl p) hp (.refl d)

/-- A round reads a type, which takes a token, and a comma. -/
theorem typeListFrom_reaches (hr : rules.Progress input depth) : ∀ (n p : Nat), p ≤ input.size →
    input.size < p + depth → input.size < p + n → Parse.Reaches input (typeListFrom rules n) p p
  | 0, p, hp, _, hn => by omega
  | n + 1, p, hp, hd, hn => by
      intro d
      by_cases hend : input.size ≤ p
      · simp only [typeListFrom, meets_bind, meets_atEnd, hend]
        exact .at (Nat.le_refl p) hp (.refl d)
      simp only [typeListFrom, meets_bind, meets_ite, Attempt.meets_run, meets_atEnd, hend]
      refine (hr.typeExpression p hp hd).meets (.refl d) (fun _ q e hq hs he => ?_)
        fun q e hq hs he => .at hq hs (he.push _)
      by_cases hcomma : (input.tokenAt q).isSymbol ","
      · have hlt := Input.lt_size_of_isSymbol hcomma
        simp only [meets_current, hcomma]
        exact (typeListFrom_reaches hr n (q + 1) hlt (by omega) (by omega)).onward he (by omega)
      · simp only [meets_current, hcomma]
        exact .at (by omega) hs he

theorem typeList_reaches (hr : rules.Progress input depth) (hp : p ≤ input.size)
    (hd : input.size < p + depth) : Parse.Reaches input (typeList rules) p p :=
  typeListFrom_reaches hr _ p hp hd (by have := hr.budget; omega)

theorem genericArguments_reaches (hr : rules.Progress input depth) (hp : p ≤ input.size)
    (hd : input.size ≤ p + depth) : Parse.Reaches input (genericArguments rules) p p := by
  intro d
  by_cases hopen : (input.tokenAt p).isSymbol "<"
  · have hlt := Input.lt_size_of_isSymbol hopen
    simp only [genericArguments, meets_bind, meets_ite, meets_current, hopen]
    refine (typeList_reaches hr hlt (by omega)).meets (.refl d) fun _ q e hq hs he => ?_
    exact (close_reaches hs).onward he (by omega)
  · simp only [genericArguments, meets_bind, meets_current, hopen]
    exact .at (Nat.le_refl p) hp (.refl d)

/-- A type takes its first word. -/
theorem typeExpression_reaches (hr : rules.Progress input depth) (hp : p ≤ input.size)
    (hd : input.size ≤ p + depth) : Attempt.Reaches input (typeExpression rules) p (p + 1) := by
  intro d
  by_cases hkey : (input.tokenAt p).kind = Kind.keyword
  · have hlt := Input.lt_size_of_kind hkey (by decide)
    simp only [typeExpression, Attempt.meets_bind, Attempt.meets_ite, Attempt.meets_liftM,
      meets_current, hkey]
    exact (genericArguments_reaches hr hlt (by omega)).onward (.refl d) (by omega)
  · simp only [typeExpression, Attempt.meets_bind, Attempt.meets_ite, Attempt.meets_liftM,
      meets_current, hkey]
    refine (qualifiedName_reaches hr.budget hp).meets (.refl d) (fun _ q e hq hs he => ?_)
      fun q e hq hs he => .at hq hs he
    exact (genericArguments_reaches hr hs (by omega)).onward he (by omega)

/-! ## Access chains and arguments -/

/-- A round reads an argument, which takes a token, and a comma. -/
theorem argumentsFrom_reaches (hr : rules.Progress input depth) : ∀ (n p : Nat), p ≤ input.size →
    input.size < p + depth → input.size < p + n → Parse.Reaches input (argumentsFrom rules n) p p
  | 0, p, hp, _, hn => by omega
  | n + 1, p, hp, hd, hn => by
      intro d
      by_cases hend : input.size ≤ p
      · simp only [argumentsFrom, meets_bind, meets_atEnd, hend]
        exact .at (Nat.le_refl p) hp (.refl d)
      by_cases hclose : (input.tokenAt p).isSymbol ")"
      · simp only [argumentsFrom, meets_bind, meets_ite, meets_atEnd, hend, meets_current, hclose]
        exact .at (Nat.le_refl p) hp (.refl d)
      simp only [argumentsFrom, meets_bind, meets_ite, Attempt.meets_run, meets_atEnd, hend,
        meets_current, hclose]
      refine (hr.expression 0 p hp hd).meets (.refl d) (fun _ q e hq hs he => ?_)
        fun q e hq hs he => .at hq hs he
      by_cases hcomma : (input.tokenAt q).isSymbol ","
      · have hlt := Input.lt_size_of_isSymbol hcomma
        simp only [meets_current, hcomma]
        exact (argumentsFrom_reaches hr n (q + 1) hlt (by omega) (by omega)).onward he (by omega)
      · simp only [meets_current, hcomma]
        exact .at (by omega) hs he

/-- Arguments that begin with a parenthesis take at least that. -/
theorem arguments_reaches_succ (hr : rules.Progress input depth)
    (hopen : (input.tokenAt p).isSymbol "(" = true) (hd : input.size ≤ p + depth) :
    Parse.Reaches input (arguments rules) p (p + 1) := by
  intro d
  have hlt := Input.lt_size_of_isSymbol hopen
  have hb := hr.budget
  simp only [arguments, meets_bind, meets_ite, meets_require, Token.fits_symbol, hopen]
  refine (argumentsFrom_reaches hr _ (p + 1) hlt (by omega) (by omega)).meets (.refl d)
    fun _ q e hq hs he => ?_
  exact (close_reaches hs).onward he (by omega)

theorem arguments_reaches (hr : rules.Progress input depth) (hp : p ≤ input.size)
    (hd : input.size ≤ p + depth) : Parse.Reaches input (arguments rules) p p := by
  intro d
  by_cases hopen : (input.tokenAt p).isSymbol "("
  · exact (arguments_reaches_succ hr hopen hd).onward (.refl d) (by omega)
  · simp only [arguments, meets_bind, meets_require, Token.fits_symbol, hopen]
    exact .at (Nat.le_refl p) hp (.push (.refl d) _)

/-- A round takes the dot, the bracket or the parenthesis that it begins with. -/
theorem accesses_reaches (hr : rules.Progress input depth) : ∀ (n p : Nat), p ≤ input.size →
    input.size ≤ p + depth → input.size < p + n → Parse.Reaches input (accesses rules n) p p
  | 0, p, hp, _, hn => by omega
  | n + 1, p, hp, hd, hn => by
      intro d
      by_cases hdot : (input.tokenAt p).isSymbol "."
      · have hlt := Input.lt_size_of_isSymbol hdot
        by_cases hid : (input.tokenAt (p + 1)).kind = Kind.identifier
        · have hlt' := Input.lt_size_of_kind hid (by decide)
          simp only [accesses, meets_bind, meets_ite, meets_current, hdot, meets_advance,
            meets_require, Token.fits_identifier, hid]
          exact (accesses_reaches hr n (p + 2) hlt' (by omega) (by omega)).onward (.refl d)
            (by omega)
        · simp only [accesses, meets_bind, meets_ite, meets_current, hdot, meets_advance,
            meets_require, Token.fits_identifier, hid]
          exact .at (by omega) hlt (.push (.refl d) _)
      by_cases hindex : (input.tokenAt p).isSymbol "["
      · have hlt := Input.lt_size_of_isSymbol hindex
        simp only [accesses, meets_bind, meets_ite, Attempt.meets_run, meets_current, hdot, hindex]
        refine (hr.expression 0 (p + 1) hlt (by omega)).meets (.refl d) (fun _ q e hq hs he => ?_)
          fun q e hq hs he => .at (by omega) hs he
        by_cases hclose : (input.tokenAt q).isSymbol "]"
        · have hlt' := Input.lt_size_of_isSymbol hclose
          simp only [meets_require, Token.fits_symbol, hclose]
          exact (accesses_reaches hr n (q + 1) hlt' (by omega) (by omega)).onward he (by omega)
        · simp only [meets_require, Token.fits_symbol, hclose]
          exact .at (by omega) hs (he.push _)
      by_cases hcall : (input.tokenAt p).isSymbol "("
      · simp only [accesses, meets_bind, meets_ite, meets_current, hdot, hindex, hcall]
        refine (arguments_reaches_succ hr hcall hd).meets (.refl d) fun _ q e hq hs he => ?_
        exact (accesses_reaches hr n q hs (by omega) (by omega)).onward he (by omega)
      · simp only [accesses, meets_bind, meets_current, hdot, hindex, hcall]
        exact .at (Nat.le_refl p) hp (.refl d)

/-- A chain takes its target. -/
theorem accessChain_reaches (hr : rules.Progress input depth) (hp : p ≤ input.size)
    (hd : input.size ≤ p + depth) : Attempt.Reaches input (accessChain rules) p (p + 1) := by
  intro d
  by_cases hid : (input.tokenAt p).kind = Kind.identifier
  · have hlt := Input.lt_size_of_kind hid (by decide)
    have hb := hr.budget
    simp only [accessChain, Attempt.meets_bind, Attempt.meets_ite, Attempt.meets_liftM,
      meets_current, hid]
    exact (accesses_reaches hr _ (p + 1) hlt (by omega) (by omega)).onward (.refl d) (by omega)
  · simp only [accessChain, ite_not, Attempt.meets_bind, Attempt.meets_liftM, meets_current, hid]
    exact .at (Nat.le_refl p) hp (.refl d)

/-! ## Statements -/

/-- A statement that begins at a token takes it, if only by stepping over it. -/
theorem statement_reaches (hr : rules.Progress input depth) (hp : p < input.size)
    (hd : input.size < p + depth) (stops : List String) :
    Parse.Reaches input (statement rules stops) p (p + 1) := by
  intro d
  simp only [statement, meets_bind, meets_mark, meets_pure]
  refine (hr.expression 0 p (by omega) hd).run.meets (.refl d) fun _ q e hq hs he => ?_
  refine (skip_reaches hs).meets he fun _ r f hr' hs' hf => ?_
  -- recovery moves the cursor where the expression and the semicolon have not
  refine (meets_recover rfl (by omega) hp hs').mono ?_
  rintro _ _ ⟨u, rfl, _, hpu, hu⟩
  exact .at hpu hu hf

/-- A statement that makes nothing is stepped over, so that every round takes a token. -/
theorem sequenceFrom_reaches (hr : rules.Progress input depth) (terminator : Option String) :
    ∀ (n p : Nat), p ≤ input.size → input.size < p + depth → input.size < p + n →
      Parse.Reaches input (sequenceFrom rules terminator n) p p
  | 0, p, hp, _, hn => by omega
  | n + 1, p, hp, hd, hn => by
      intro d
      by_cases hend : input.size ≤ p
      · simp only [sequenceFrom, meets_bind, meets_atEnd, hend]
        exact .at (Nat.le_refl p) hp (.refl d)
      by_cases hstop : terminator.toList.any (input.tokenAt p).isSymbol
      · simp only [sequenceFrom, meets_bind, meets_atEnd, hend, meets_current, hstop, meets_ite]
        exact .at (Nat.le_refl p) hp (.refl d)
      simp only [sequenceFrom, meets_bind, meets_atEnd, hend, meets_current, hstop, meets_ite]
      refine (statement_reaches hr (by omega) hd _).meets (.refl d) fun _ q e hq hs he => ?_
      exact (sequenceFrom_reaches hr terminator n q hs (by omega) (by omega)).onward he (by omega)

/-- Without a terminator only the end of the input ends a sequence. -/
theorem sequenceFrom_none_meets (hr : rules.Progress input depth) : ∀ (n p : Nat)
    (d : Array Diagnostic), p ≤ input.size → input.size < p + depth → input.size < p + n →
      Parse.Meets False input (sequenceFrom rules none n) (.at p d)
        fun _ t => ∃ e, t = .at input.size e
  | 0, p, _, hp, _, hn => by omega
  | n + 1, p, d, hp, hd, hn => by
      by_cases hend : input.size ≤ p
      · simp only [sequenceFrom, meets_bind, meets_atEnd, hend]
        exact ⟨d, by rw [Nat.le_antisymm hp hend]⟩
      simp only [sequenceFrom, meets_bind, meets_atEnd, hend, meets_current, meets_ite]
      refine (statement_reaches hr (by omega) hd _).meets (.refl d) fun _ q e hq hs _ => ?_
      refine (sequenceFrom_none_meets hr n q e hs (by omega) (by omega)).mono ?_
      intro _ t ht
      exact ht

/-- A block may be empty, so that it only leads onward. -/
theorem block_reaches (hr : rules.Progress input depth) (terminator : Option String)
    (hp : p ≤ input.size) (hd : input.size < p + depth) :
    Parse.Reaches input (block rules terminator) p p :=
  sequenceFrom_reaches hr terminator _ p hp hd (by have := hr.budget; omega)

theorem bracedBlock_reaches (hr : rules.Progress input depth) (hp : p ≤ input.size)
    (hd : input.size ≤ p + depth) : Attempt.Reaches input (bracedBlock rules) p (p + 1) := by
  intro d
  by_cases hopen : (input.tokenAt p).isSymbol openBrace
  · have hlt := Input.lt_size_of_isSymbol hopen
    simp only [bracedBlock, Attempt.meets_bind, Attempt.meets_liftM, Attempt.meets_needSymbol,
      hopen]
    refine (block_reaches hr _ hlt (by omega)).meets (.refl d) fun _ q e hq hs he => ?_
    exact (close_reaches hs).onward he (by omega)
  · simp only [bracedBlock, Attempt.meets_bind, Attempt.meets_needSymbol, hopen]
    exact .at (Nat.le_refl p) hp (.push (.refl d) _)

/-- A condition takes its opening parenthesis. -/
theorem condition_reaches (hr : rules.Progress input depth) (hp : p ≤ input.size)
    (hd : input.size ≤ p + depth) (keyword : String) :
    Attempt.Reaches input (condition rules keyword) p (p + 1) := by
  intro d
  by_cases hopen : (input.tokenAt p).isSymbol "("
  · have hlt := Input.lt_size_of_isSymbol hopen
    simp only [condition, Attempt.meets_bind, Attempt.meets_needSymbol, hopen]
    refine (hr.expression 0 (p + 1) hlt (by omega)).meets (.refl d) (fun _ q e hq hs he => ?_)
      fun q e hq hs he => .at (by omega) hs he
    by_cases hclose : (input.tokenAt q).isSymbol ")"
    · have hlt' := Input.lt_size_of_isSymbol hclose
      simp only [Attempt.meets_needSymbol, hclose]
      exact .at (by omega) hlt' he
    · simp only [Attempt.meets_needSymbol, hclose]
      exact .at (by omega) hs (he.push _)
  · simp only [condition, Attempt.meets_bind, Attempt.meets_needSymbol, hopen]
    exact .at (Nat.le_refl p) hp (.push (.refl d) _)

/-- Every `else if` takes its two words before it needs a round. -/
theorem branches_reaches (hr : rules.Progress input depth) : ∀ (keyword : String) (n p : Nat),
    p ≤ input.size → input.size ≤ p + depth → input.size < p + n →
      Attempt.Reaches input (branches rules keyword n) p (p + 1)
  | _, 0, p, hp, _, hn => by omega
  | keyword, n + 1, p, hp, hd, hn => by
      intro d
      simp only [branches, Attempt.meets_bind]
      refine (condition_reaches hr hp hd keyword).meets (.refl d) (fun value q e hq hs he => ?_)
        fun q e hq hs he => .at hq hs he
      refine (bracedBlock_reaches hr hs (by omega)).meets he (fun consequent r f hr' hs' hf => ?_)
        fun r f hr' hs' hf => .at (by omega) hs' hf
      by_cases helse : (input.tokenAt r).isKeyword "else"
      · have hlt := Input.lt_size_of_isKeyword helse
        by_cases hif : (input.tokenAt (r + 1)).isKeyword "if"
        · have hlt' := Input.lt_size_of_isKeyword hif
          simp only [Attempt.meets_ite, Attempt.meets_bind, Attempt.meets_orNone,
            Attempt.meets_liftM, meets_current, helse, meets_advance, hif]
          -- `else` and `if` are two tokens, so that the rounds suffice for the branch behind them
          exact (branches_reaches hr _ n (r + 2) hlt' (by omega) (by omega)).onward hf
            (by omega) (by omega)
        · simp only [Attempt.meets_ite, Attempt.meets_bind, Attempt.meets_orNone,
            Attempt.meets_liftM, meets_current, helse, meets_advance, hif]
          exact (bracedBlock_reaches hr hlt (by omega)).onward hf (by omega) (by omega)
      · simp only [Attempt.meets_liftM, meets_current, helse]
        exact .at (by omega) hs' hf

/-- An `if` takes its word. -/
theorem ifStatement_reaches (hr : rules.Progress input depth) (hp : p ≤ input.size)
    (hd : input.size ≤ p + depth) : Attempt.Reaches input (ifStatement rules) p (p + 1) := by
  intro d
  by_cases hif : (input.tokenAt p).isKeyword "if"
  · have hlt := Input.lt_size_of_isKeyword hif
    have hb := hr.budget
    simp only [ifStatement, Attempt.meets_bind, Attempt.meets_needKeyword, hif]
    exact (branches_reaches hr _ _ (p + 1) hlt (by omega) (by omega)).onward (.refl d)
      (by omega) (by omega)
  · simp only [ifStatement, Attempt.meets_bind, Attempt.meets_needKeyword, hif]
    exact .at (Nat.le_refl p) hp (.push (.refl d) _)

theorem whileStatement_reaches (hr : rules.Progress input depth) (hp : p ≤ input.size)
    (hd : input.size ≤ p + depth) : Attempt.Reaches input (whileStatement rules) p (p + 1) := by
  intro d
  by_cases hwhile : (input.tokenAt p).isKeyword "while"
  · have hlt := Input.lt_size_of_isKeyword hwhile
    simp only [whileStatement, Attempt.meets_bind, Attempt.meets_needKeyword, hwhile]
    refine (condition_reaches hr hlt (by omega) _).meets (.refl d) (fun _ q e hq hs he => ?_)
      fun q e hq hs he => .at (by omega) hs he
    exact (bracedBlock_reaches hr hs (by omega)).onward he (by omega) (by omega)
  · simp only [whileStatement, Attempt.meets_bind, Attempt.meets_needKeyword, hwhile]
    exact .at (Nat.le_refl p) hp (.push (.refl d) _)

/-! ## Declarations -/

theorem genericNamesFrom_reaches : ∀ (n p : Nat), p ≤ input.size → input.size < p + n →
    Attempt.Reaches input (genericNamesFrom n) p p
  | 0, p, hp, hn => by omega
  | n + 1, p, hp, hn => by
      intro d
      by_cases hend : input.size ≤ p
      · simp only [genericNamesFrom, Attempt.meets_bind, Attempt.meets_liftM, meets_atEnd, hend]
        exact .at (Nat.le_refl p) hp (.refl d)
      by_cases hclose : (input.tokenAt p).isSymbol ">"
      · simp only [genericNamesFrom, Attempt.meets_bind, Attempt.meets_ite, Attempt.meets_liftM,
          meets_atEnd, hend, meets_current, hclose]
        exact .at (Nat.le_refl p) hp (.refl d)
      by_cases hid : (input.tokenAt p).kind = Kind.identifier
      · by_cases hcomma : (input.tokenAt (p + 1)).isSymbol ","
        · have hlt := Input.lt_size_of_isSymbol hcomma
          simp only [genericNamesFrom, Attempt.meets_bind, Attempt.meets_ite, Attempt.meets_liftM,
            meets_atEnd, hend, meets_current, hclose, Attempt.meets_needIdentifier, hid, hcomma]
          exact (genericNamesFrom_reaches n (p + 2) hlt (by omega)).onward (.refl d)
            (by omega) (by omega)
        · simp only [genericNamesFrom, Attempt.meets_bind, Attempt.meets_ite, Attempt.meets_liftM,
            meets_atEnd, hend, meets_current, hclose, Attempt.meets_needIdentifier, hid, hcomma]
          exact .at (by omega) (by omega) (.refl d)
      · simp only [genericNamesFrom, Attempt.meets_bind, Attempt.meets_ite, Attempt.meets_liftM,
          meets_atEnd, hend, meets_current, hclose, Attempt.meets_needIdentifier, hid]
        exact .at (Nat.le_refl p) hp (.push (.refl d) _)

/-- Generic names may be missing, so that they only lead onward. -/
theorem genericNames_reaches (hb : input.size < rules.budget) (hp : p ≤ input.size) :
    Attempt.Reaches input (genericNames rules) p p := by
  intro d
  by_cases hopen : (input.tokenAt p).isSymbol "<"
  · have hlt := Input.lt_size_of_isSymbol hopen
    simp only [genericNames, Attempt.meets_bind, Attempt.meets_ite, Attempt.meets_liftM,
      meets_current, hopen]
    refine (genericNamesFrom_reaches _ (p + 1) hlt (by omega)).meets (.refl d)
      (fun _ q e hq hs he => ?_) fun q e hq hs he => .at (by omega) hs he
    by_cases hclose : (input.tokenAt q).isSymbol ">"
    · have hlt' := Input.lt_size_of_isSymbol hclose
      simp only [Attempt.meets_needSymbol, hclose]
      exact .at (by omega) hlt' he
    · simp only [Attempt.meets_needSymbol, hclose]
      exact .at (by omega) hs (he.push _)
  · simp only [genericNames, Attempt.meets_bind, Attempt.meets_liftM, meets_current, hopen]
    exact .at (Nat.le_refl p) hp (.refl d)

/-- A round reads a base, which takes a token, and a comma. -/
theorem basesFrom_reaches (hr : rules.Progress input depth) : ∀ (n p : Nat), p ≤ input.size →
    input.size ≤ p + depth → input.size < p + n → Parse.Reaches input (basesFrom rules n) p p
  | 0, p, hp, _, hn => by omega
  | n + 1, p, hp, hd, hn => by
      intro d
      simp only [basesFrom, meets_bind, Attempt.meets_run, meets_ite]
      refine (typeExpression_reaches hr hp hd).meets (.refl d) (fun _ q e hq hs he => ?_)
        fun q e hq hs he => .at hq hs (he.push _)
      by_cases hcomma : (input.tokenAt q).isSymbol ","
      · have hlt := Input.lt_size_of_isSymbol hcomma
        simp only [meets_current, hcomma]
        exact (basesFrom_reaches hr n (q + 1) hlt (by omega) (by omega)).onward he (by omega)
      · simp only [meets_current, hcomma]
        exact .at (by omega) hs he

theorem bases_reaches (hr : rules.Progress input depth) (hp : p ≤ input.size)
    (hd : input.size ≤ p + depth) : Parse.Reaches input (bases rules) p p := by
  intro d
  by_cases hcolon : (input.tokenAt p).isSymbol ":"
  · have hlt := Input.lt_size_of_isSymbol hcolon
    have hb := hr.budget
    simp only [bases, meets_bind, meets_current, hcolon]
    exact (basesFrom_reaches hr _ (p + 1) hlt (by omega) (by omega)).onward (.refl d) (by omega)
  · simp only [bases, meets_bind, meets_current, hcolon]
    exact .at (Nat.le_refl p) hp (.refl d)

/-- A round takes a brace, or it reads a statement and recovers. -/
theorem methodStatements_reaches (hr : rules.Progress input depth) : ∀ (n p inside : Nat),
    p ≤ input.size → input.size < p + depth → input.size < p + n →
      Parse.Reaches input (methodStatements rules n inside) p p
  | 0, p, _, hp, _, hn => by omega
  | n + 1, p, inside, hp, hd, hn => by
      intro d
      by_cases hend : input.size ≤ p
      · simp only [methodStatements, meets_bind, meets_atEnd, hend]
        exact .at (Nat.le_refl p) hp (.refl d)
      simp only [methodStatements, meets_bind, meets_atEnd, hend, meets_current, meets_ite]
      rw [if_neg (by simp)]
      split
      · exact .at (Nat.le_refl p) hp (.refl d)
      refine (statement_reaches hr (by omega) hd _).meets (.refl d) fun _ q e hq hs he => ?_
      exact (methodStatements_reaches hr n q _ hs (by omega) (by omega)).onward he (by omega)

/-- A method body is only read where a token opens it. -/
theorem methodBody_reaches (hr : rules.Progress input depth) (hp : p < input.size)
    (hd : input.size ≤ p + depth) : Parse.Reaches input (methodBody rules) p (p + 1) := by
  intro d
  have hb := hr.budget
  simp only [methodBody, meets_bind, meets_advance]
  refine (methodStatements_reaches hr _ (p + 1) 1 hp (by omega) (by omega)).meets (.refl d)
    fun _ q e hq hs he => ?_
  by_cases hclose : (input.tokenAt q).isSymbol closeBrace
  · have hlt := Input.lt_size_of_isSymbol hclose
    simp only [meets_current, hclose]
    exact .at (by omega) hlt he
  · simp only [meets_current, hclose]
    exact .at (by omega) hs (he.push _)

/-- A round takes a modifier. -/
theorem memberModifiers_reaches : ∀ (n p : Nat), p ≤ input.size → input.size < p + n →
    Parse.Reaches input (memberModifiers n) p p
  | 0, p, hp, hn => by omega
  | n + 1, p, hp, hn => by
      intro d
      simp only [memberModifiers, meets_bind, meets_current, meets_ite]
      split
      · next hmod =>
        have hlt := Input.lt_size_of_kind_ne (p := p) (by
          simp only [Bool.and_eq_true, decide_eq_true_eq] at hmod
          rw [hmod.1]
          decide)
        simp only [meets_advance]
        exact (memberModifiers_reaches n (p + 1) hlt (by omega)).onward (.refl d) (by omega)
      · exact .at (Nat.le_refl p) hp (.refl d)

theorem method_reaches (hr : rules.Progress input depth) (hp : p ≤ input.size)
    (hd : input.size ≤ p + depth) (mods : List String) (type : TypeExpr) (name : String)
    (offset : Nat) : Attempt.Reaches input (method rules mods type name offset) p p := by
  intro d
  simp only [method, Attempt.meets_bind, Attempt.meets_liftM]
  refine (arguments_reaches hr hp hd).meets (.refl d) fun _ q e hq hs he => ?_
  by_cases hopen : (input.tokenAt q).isSymbol openBrace
  · have hlt := Input.lt_size_of_isSymbol hopen
    simp only [Attempt.meets_ite, Attempt.meets_liftM, Attempt.meets_bind, meets_current, hopen]
    exact (methodBody_reaches hr hlt (by omega)).onward he (by omega)
  by_cases hsemi : (input.tokenAt q).isSymbol ";"
  · have hlt := Input.lt_size_of_isSymbol hsemi
    simp only [meets_current, hopen, hsemi]
    exact .at (by omega) hlt he
  · simp only [meets_current, hopen, hsemi]
    exact .at hq hs (he.push _)

theorem memberRest_reaches (hr : rules.Progress input depth) (hp : p ≤ input.size)
    (hd : input.size ≤ p + depth) (mods : List String) (type : TypeExpr) (name : String)
    (offset : Nat) : Attempt.Reaches input (memberRest rules mods type name offset) p p := by
  intro d
  by_cases hcall : (input.tokenAt p).isSymbol "("
  · simp only [memberRest, Attempt.meets_bind, Attempt.meets_liftM, meets_current, hcall]
    exact method_reaches hr hp hd mods type name offset d
  by_cases hsemi : (input.tokenAt p).isSymbol ";"
  · have hlt := Input.lt_size_of_isSymbol hsemi
    simp only [memberRest, Attempt.meets_bind, Attempt.meets_liftM, meets_current, hcall, hsemi]
    exact .at (by omega) hlt (.refl d)
  · simp only [memberRest, Attempt.meets_bind, Attempt.meets_liftM, meets_current, hcall, hsemi]
    exact .at (Nat.le_refl p) hp (.push (.refl d) _)

/-- A member takes the first of its modifiers, of its type or of its class. -/
theorem member_reaches (hr : rules.Progress input depth) (hp : p ≤ input.size)
    (hd : input.size < p + depth) : Attempt.Reaches input (member rules) p (p + 1) := by
  intro d
  have hb := hr.budget
  simp only [member, Attempt.meets_bind, Attempt.meets_liftM, meets_current]
  refine (memberModifiers_reaches _ p hp (by omega)).meets (.refl d) fun mods q e hq hs he => ?_
  by_cases hclass : (input.tokenAt q).isKeyword "class"
  · simp only [Attempt.meets_ite, Attempt.meets_bind, meets_current, hclass]
    exact (hr.classDeclaration mods q hs (by omega)).onward he (by omega) (by omega)
  simp only [Attempt.meets_ite, Attempt.meets_bind, Attempt.meets_orNone, meets_current, hclass]
  refine (typeExpression_reaches hr hs (by omega)).meets he (fun type r f hr' hs' hf => ?_)
    fun r f hr' hs' hf => .at (by omega) hs' (hf.push _)
  by_cases hid : (input.tokenAt r).kind = Kind.identifier
  · have hlt := Input.lt_size_of_kind hid (by decide)
    simp only [Attempt.meets_needIdentifier, hid]
    exact (memberRest_reaches hr hlt (by omega) _ _ _ _).onward hf (by omega) (by omega)
  · simp only [Attempt.meets_needIdentifier, hid]
    exact .at (by omega) hs' (hf.push _)

theorem usingAlias_reaches (hp : p ≤ input.size) : Parse.Reaches input usingAlias p p := by
  intro d
  by_cases halias : (input.tokenAt p).kind = Kind.identifier ∧ (input.tokenAt (p + 1)).text = "="
  · have hlt := Input.lt_size_of_text_ne (p := p + 1) (by rw [halias.2]; decide)
    simp only [usingAlias, meets_bind, meets_current, halias, meets_peek_one]
    exact .at (by omega) hlt (.refl d)
  · simp only [usingAlias, Bool.and_eq_true, decide_eq_true_eq, meets_bind, meets_current,
      meets_peek_one, halias]
    exact .at (Nat.le_refl p) hp (.refl d)

theorem usingTarget_reaches (hb : input.size < rules.budget) (hp : p ≤ input.size)
    (isStatic : Bool) : Attempt.Reaches input (usingTarget rules isStatic) p (p + 1) := by
  intro d
  simp only [usingTarget, Attempt.meets_bind, Attempt.meets_orNone, Attempt.meets_liftM,
    Attempt.meets_lift]
  refine (usingAlias_reaches hp).meets (.refl d) fun _ q e hq hs he => ?_
  refine (qualifiedName_reaches hb hs).meets he (fun _ r f hr' hs' hf => ?_)
    fun r f hr' hs' hf => ?_
  · exact (close_reaches hs').onward hf (by omega)
  · simp only [meets_current]
    exact .at (by omega) hs' (hf.push _)

/-- A directive takes its `using`. -/
theorem usingDirective_reaches (hb : input.size < rules.budget) (hp : p ≤ input.size) :
    Attempt.Reaches input (usingDirective rules) p (p + 1) := by
  intro d
  by_cases husing : (input.tokenAt p).isKeyword "using"
  · have hlt := Input.lt_size_of_isKeyword husing
    by_cases hstatic : (input.tokenAt (p + 1)).isKeyword "static"
    · have hlt' := Input.lt_size_of_isKeyword hstatic
      simp only [usingDirective, Attempt.meets_bind, Attempt.meets_liftM, Attempt.meets_needKeyword,
        husing, meets_current, hstatic]
      exact (usingTarget_reaches hb hlt' true).onward (.refl d) (by omega) (by omega)
    · simp only [usingDirective, Attempt.meets_bind, Attempt.meets_liftM, Attempt.meets_needKeyword,
        husing, meets_current, hstatic]
      exact (usingTarget_reaches hb hlt false).onward (.refl d) (by omega) (by omega)
  · simp only [usingDirective, Attempt.meets_bind, Attempt.meets_needKeyword, husing]
    exact .at (Nat.le_refl p) hp (.push (.refl d) _)

theorem bodyMember_reaches (hr : rules.Progress input depth) (hp : p ≤ input.size)
    (hd : input.size < p + depth) (inNamespace : Bool) :
    Attempt.Reaches input (bodyMember rules inNamespace) p (p + 1) := by
  intro d
  simp only [bodyMember, Attempt.meets_bind, Attempt.meets_liftM, meets_current,
    Attempt.meets_ite, Attempt.meets_pure]
  split
  · exact usingDirective_reaches hr.budget hp d
  · exact member_reaches hr hp hd d

/-- A member that is not made is stepped over, so that every round takes a token. -/
theorem membersFrom_reaches (hr : rules.Progress input depth) (inNamespace : Bool) :
    ∀ (n p : Nat), p ≤ input.size → input.size < p + depth → input.size < p + n →
      Parse.Reaches input (membersFrom rules inNamespace n) p p
  | 0, p, hp, _, hn => by omega
  | n + 1, p, hp, hd, hn => by
      intro d
      by_cases hend : input.size ≤ p
      · simp only [membersFrom, meets_bind, meets_atEnd, hend]
        exact .at (Nat.le_refl p) hp (.refl d)
      by_cases hclose : (input.tokenAt p).isSymbol closeBrace
      · simp only [membersFrom, meets_bind, meets_ite, meets_atEnd, hend, meets_current, hclose]
        exact .at (Nat.le_refl p) hp (.refl d)
      simp only [membersFrom, meets_bind, meets_atEnd, hend, meets_current, hclose, meets_ite,
        meets_mark]
      -- where no member is made nothing may have been taken, and recovery steps over a token
      refine (bodyMember_reaches hr hp hd inNamespace).run.meets (.refl d)
        fun made q e hq hs he => ?_
      refine (meets_recover rfl hq (by omega) hs).mono ?_
      rintro _ _ ⟨r, rfl, _, hpr, hs'⟩
      exact (membersFrom_reaches hr inNamespace n r hs' (by omega) (by omega)).onward he (by omega)

/-- A class takes its `class`. -/
theorem classDeclaration_reaches (hr : rules.Progress input depth) (hp : p ≤ input.size)
    (hd : input.size ≤ p + depth) (mods : List String) :
    Attempt.Reaches input (classDeclaration rules mods) p (p + 1) := by
  intro d
  have hb := hr.budget
  by_cases hclass : (input.tokenAt p).isKeyword "class"
  · have hlt := Input.lt_size_of_isKeyword hclass
    by_cases hid : (input.tokenAt (p + 1)).kind = Kind.identifier
    · have hlt' := Input.lt_size_of_kind hid (by decide)
      simp only [classDeclaration, Attempt.meets_bind, Attempt.meets_liftM, meets_current,
        Attempt.meets_needKeyword, hclass, Attempt.meets_needIdentifier, hid]
      refine (genericNames_reaches hb hlt').meets (.refl d) (fun _ q e hq hs he => ?_)
        fun q e hq hs he => .at (by omega) hs he
      refine (bases_reaches hr hs (by omega)).meets he fun _ r f hr' hs' hf => ?_
      by_cases hopen : (input.tokenAt r).isSymbol openBrace
      · have hlt'' := Input.lt_size_of_isSymbol hopen
        simp only [Attempt.meets_needSymbol, hopen]
        refine (membersFrom_reaches hr false _ (r + 1) hlt'' (by omega) (by omega)).meets hf
          fun _ u g hu hsu hg => ?_
        exact (close_reaches hsu).onward hg (by omega)
      · simp only [Attempt.meets_needSymbol, hopen]
        exact .at (by omega) hs' (hf.push _)
    · simp only [classDeclaration, Attempt.meets_bind, Attempt.meets_liftM, meets_current,
        Attempt.meets_needKeyword, hclass, Attempt.meets_needIdentifier, hid]
      exact .at (by omega) hlt (.push (.refl d) _)
  · simp only [classDeclaration, Attempt.meets_bind, Attempt.meets_liftM, meets_current,
      Attempt.meets_needKeyword, hclass]
    exact .at (Nat.le_refl p) hp (.push (.refl d) _)

/-- A namespace takes its `namespace`. -/
theorem namespaceDeclaration_reaches (hr : rules.Progress input depth) (hp : p ≤ input.size)
    (hd : input.size ≤ p + depth) :
    Attempt.Reaches input (namespaceDeclaration rules) p (p + 1) := by
  intro d
  have hb := hr.budget
  by_cases hspace : (input.tokenAt p).isKeyword "namespace"
  · have hlt := Input.lt_size_of_isKeyword hspace
    simp only [namespaceDeclaration, Attempt.meets_bind, Attempt.meets_orNone, Attempt.meets_ite,
      Attempt.meets_liftM, meets_current, Attempt.meets_needKeyword, hspace]
    refine (qualifiedName_reaches hb hlt).meets (.refl d) (fun _ q e hq hs he => ?_)
      fun q e hq hs he => ?_
    · by_cases hsemi : (input.tokenAt q).isSymbol ";"
      · have hlt' := Input.lt_size_of_isSymbol hsemi
        simp only [meets_current, hsemi]
        exact .at (by omega) hlt' he
      by_cases hopen : (input.tokenAt q).isSymbol openBrace
      · have hlt' := Input.lt_size_of_isSymbol hopen
        simp only [meets_current, hsemi, Attempt.meets_needSymbol, hopen]
        refine (membersFrom_reaches hr true _ (q + 1) hlt' (by omega) (by omega)).meets he
          fun _ r f hr' hs' hf => ?_
        exact (close_reaches hs').onward hf (by omega)
      · simp only [meets_current, hsemi, Attempt.meets_needSymbol, hopen]
        exact .at (by omega) hs (he.push _)
    · simp only [meets_reportFound]
      exact .at (by omega) hs (he.push _)
  · simp only [namespaceDeclaration, Attempt.meets_bind, Attempt.meets_liftM, meets_current,
      Attempt.meets_needKeyword, hspace]
    exact .at (Nat.le_refl p) hp (.push (.refl d) _)

/-! ## Expressions -/

theorem templateLiteral_reaches (hp : p ≤ input.size) :
    Attempt.Reaches input templateLiteral p (p + 1) := by
  intro d
  by_cases hkind : (input.tokenAt p).kind = Kind.template
  · have hlt := Input.lt_size_of_kind hkind (by decide)
    simp only [templateLiteral, Attempt.meets_bind, Attempt.meets_liftM, meets_current, hkind]
    exact .at (Nat.le_refl _) hlt (.refl d)
  · simp only [templateLiteral, ite_not, Attempt.meets_bind, Attempt.meets_liftM, meets_current,
      hkind]
    exact .at (Nat.le_refl p) hp (.refl d)

/-- A round takes an increment or a decrement. -/
theorem postfixes_reaches : ∀ (n p : Nat) (left : Node), p ≤ input.size → input.size < p + n →
    Parse.Reaches input (postfixes n left) p p
  | 0, p, _, hp, hn => by omega
  | n + 1, p, left, hp, hn => by
      intro d
      simp only [postfixes, meets_bind, meets_current, meets_ite, meets_advance, meets_pure]
      split
      · next hop =>
        have hlt : p < input.size := by
          rcases Bool.or_eq_true_iff.mp hop with h | h
          · exact Input.lt_size_of_isSymbol h
          · exact Input.lt_size_of_isSymbol h
        exact (postfixes_reaches n (p + 1) _ hlt (by omega)).onward (.refl d) (by omega)
      · exact .at (Nat.le_refl p) hp (.refl d)

/-- An expression that begins with an identifier takes it. -/
theorem identifierExpression_reaches (hr : rules.Progress input depth) (hp : p ≤ input.size)
    (hd : input.size ≤ p + depth) :
    Attempt.Reaches input (identifierExpression rules) p (p + 1) := by
  intro d
  have hb := hr.budget
  simp only [identifierExpression, Attempt.meets_bind, Attempt.meets_liftM]
  refine (accessChain_reaches hr hp hd).meets (.refl d) (fun _ q e hq hs he => ?_)
    fun q e hq hs he => .at hq hs he
  refine (postfixes_reaches _ q _ hs (by omega)).meets he fun _ r f hr' hs' hf => ?_
  by_cases hassign : (input.tokenAt r).isSymbol "="
  · have hlt := Input.lt_size_of_isSymbol hassign
    simp only [Attempt.meets_ite, Attempt.meets_bind, meets_current, hassign]
    exact (hr.expression 0 (r + 1) hlt (by omega)).onward hf (by omega) (by omega)
  · simp only [meets_current, hassign]
    exact .at (by omega) hs' hf

/-- Parentheses are only read where a token opens them. -/
theorem parenthesized_reaches (hr : rules.Progress input depth) (hp : p < input.size)
    (hd : input.size ≤ p + depth) : Attempt.Reaches input (parenthesized rules) p (p + 1) := by
  intro d
  simp only [parenthesized, Attempt.meets_bind, Attempt.meets_liftM, meets_advance]
  refine (hr.expression 0 (p + 1) hp (by omega)).meets (.refl d) (fun _ q e hq hs he => ?_)
    fun q e hq hs he => .at (by omega) hs he
  by_cases hclose : (input.tokenAt q).isSymbol ")"
  · have hlt := Input.lt_size_of_isSymbol hclose
    simp only [Attempt.meets_needSymbol, hclose]
    exact .at (by omega) hlt he
  · simp only [Attempt.meets_needSymbol, hclose]
    exact .at (by omega) hs (he.push _)

/-- The routines of a plugin, called at a token over rules that make progress, make progress. -/
def Hooks.Progress (input : Input) (hooks : Hooks) : Prop :=
  ∀ routine ∈ hooks.extensions, ∀ (depth : Nat) (rules : Rules), rules.Progress input depth →
    ∀ p, p < input.size → input.size ≤ p + depth → Attempt.Reaches input (routine rules) p (p + 1)

variable {hooks : Hooks}

/-- Extensions are tried from one and the same place, and the first that makes something has taken a
token. -/
theorem firstExtension_reaches (hr : rules.Progress input depth) (hp : p < input.size)
    (hd : input.size ≤ p + depth) : ∀ (routines : List Routine),
    (∀ routine ∈ routines, Attempt.Reaches input (routine rules) p (p + 1)) →
      Attempt.Reaches input (firstExtension rules p routines) p (p + 1)
  | [], _ => by
      intro d
      simp only [firstExtension]
      exact .at (Nat.le_refl p) (by omega) (.refl d)
  | routine :: rest, h => by
      intro d
      simp only [firstExtension, Attempt.meets_bind, Attempt.meets_orNone, Attempt.meets_liftM]
      -- an extension that declines leaves its reports, but not its cursor
      refine (h routine (by simp)).meets (.refl d) (fun _ q e hq hs he => .at hq hs he)
        fun q e _ _ he => ?_
      rw [meets_setCursor]
      have hrest := firstExtension_reaches hr hp hd rest fun r hmem => h r (by simp [hmem])
      refine hrest.meets he (fun _ u g hu hsu hg => ?_) fun u g hu hsu hg => ?_
      · exact .at hu hsu hg
      · exact .at hu hsu hg

theorem extensionExpression_reaches (hh : hooks.Progress input) (hr : rules.Progress input depth)
    (hp : p < input.size) (hd : input.size ≤ p + depth) (token : Token) :
    Attempt.Reaches input (extensionExpression hooks rules token) p (p + 1) := by
  intro d
  simp only [extensionExpression, Attempt.meets_bind, Attempt.meets_orNone, Attempt.meets_liftM]
  refine (firstExtension_reaches hr hp hd _ fun routine hmem =>
    hh routine hmem depth rules hr p hp hd).meets (.refl d) (fun _ q e hq hs he => .at hq hs he)
    fun q e hq hs he => ?_
  simp only [meets_reportAt]
  exact .at hq hs (he.push _)

/-- Each alternative of an operand takes the token that it was chosen for. -/
theorem primary_reaches (hh : hooks.Progress input) (hr : rules.Progress input depth)
    (hp : p ≤ input.size) (hd : input.size ≤ p + depth) :
    Attempt.Reaches input (primary hooks rules) p (p + 1) := by
  intro d
  have hb := hr.budget
  simp only [primary, Attempt.meets_bind, Attempt.meets_liftM, meets_current]
  refine .ite (fun hlit => ?_) fun _ => ?_
  -- no literal has the kind of the end marker
  · have hlt : p < input.size := Input.lt_size_of_kind_ne fun he => by
      rw [he] at hlit
      exact absurd hlit (by decide)
    exact .at (Nat.le_refl _) hlt (.refl d)
  refine .ite (fun _ => identifierExpression_reaches hr hp hd d) fun _ => ?_
  refine .ite (fun h => parenthesized_reaches hr (Input.lt_size_of_isSymbol h) hd d) fun _ => ?_
  refine .ite (fun _ => ?_) fun _ => ?_
  · rw [Attempt.meets_map]
    exact classDeclaration_reaches hr hp hd [] d
  refine .ite (fun _ => ?_) fun _ => ?_
  · rw [Attempt.meets_map]
    exact usingDirective_reaches hb hp d
  refine .ite (fun _ => namespaceDeclaration_reaches hr hp hd d) fun _ => ?_
  refine .ite (fun _ => templateLiteral_reaches hp d) fun _ => ?_
  refine .ite (fun _ => ifStatement_reaches hr hp hd d) fun _ => ?_
  refine .ite (fun _ => whileStatement_reaches hr hp hd d) fun _ => ?_
  refine .ite (fun _ => ?_) fun hkind => ?_
  · simp only [Attempt.meets_bind, Attempt.meets_liftM]
    exact .at (Nat.le_refl p) hp (.push (.refl d) _)
  · exact extensionExpression_reaches hh hr (Input.lt_size_of_kind_ne hkind) hd _ d

/-- A round takes an operator, so that the operand behind it is read with a token less to go. -/
theorem operators_reaches (hr : rules.Progress input depth) (minimum : Nat) :
    ∀ (n p : Nat) (left : Node), p ≤ input.size → input.size ≤ p + depth → input.size < p + n →
      Parse.Reaches input (operators rules minimum n left) p p
  | 0, p, _, hp, _, hn => by omega
  | n + 1, p, left, hp, hd, hn => by
      intro d
      by_cases hsym : (input.tokenAt p).kind = Kind.symbol
      · have hlt := Input.lt_size_of_kind hsym (by decide)
        cases hop : binaryPrecedence? (input.tokenAt p).text with
        | none =>
            simp only [operators, meets_bind, meets_current, hsym, hop]
            exact .at (Nat.le_refl p) hp (.refl d)
        | some precedence =>
            by_cases hmin : precedence < minimum
            · simp only [operators, meets_bind, meets_current, hsym, hop, hmin]
              exact .at (Nat.le_refl p) hp (.refl d)
            simp only [operators, meets_bind, meets_ite, meets_current, hsym, hop, hmin,
              Attempt.meets_run]
            -- the operator is a token of its own, so that a lower level can read what is behind it
            refine (hr.expression _ (p + 1) hlt (by omega)).meets (.refl d)
              (fun _ q e hq hs he => ?_) fun q e hq hs he => .at (by omega) hs he
            exact (operators_reaches hr minimum n q _ hs (by omega) (by omega)).onward he (by omega)
      · simp only [operators, ite_not, meets_bind, meets_current, hsym]
        exact .at (Nat.le_refl p) hp (.refl d)

theorem operand_reaches (hh : hooks.Progress input) (hr : rules.Progress input depth)
    (hp : p ≤ input.size) (hd : input.size ≤ p + depth) :
    Attempt.Reaches input (operand hooks rules) p (p + 1) := by
  intro d
  simp only [operand, Attempt.meets_bind, Attempt.meets_liftM, meets_current, Attempt.meets_ite]
  split
  · next hop =>
    simp only [Bool.and_eq_true, decide_eq_true_eq] at hop
    have hlt := Input.lt_size_of_kind hop.1 (by decide)
    simp only [meets_advance]
    exact (hr.expression _ (p + 1) hlt (by omega)).onward (.refl d) (by omega) (by omega)
  · exact primary_reaches hh hr hp hd d

/-- An expression takes its first operand, and operators lead onward from there. -/
theorem expression_reaches (hh : hooks.Progress input) (hr : rules.Progress input depth)
    (hp : p ≤ input.size) (hd : input.size ≤ p + depth) (minimum : Nat) :
    Attempt.Reaches input (expression hooks rules minimum) p (p + 1) := by
  intro d
  have hb := hr.budget
  simp only [expression, Attempt.meets_bind, Attempt.meets_liftM]
  refine (operand_reaches hh hr hp hd).meets (.refl d) (fun left q e hq hs he => ?_)
    fun q e hq hs he => .at hq hs he
  exact (operators_reaches hr minimum _ q left hs (by omega) (by omega)).onward he (by omega)

/-! ## Levels -/

/-- The rules of the lowest level are never called, since no token is left. -/
theorem Rules.progress_bottom {budget : Nat} (hb : input.size < budget) :
    (Rules.bottom budget).Progress input 0 where
  budget := hb
  expression _ p hp hd := by omega
  classDeclaration _ p hp hd := by omega
  typeExpression p hp hd := by omega

/-- A further level needs to be called with one more token to go. -/
theorem Rules.Progress.next (hh : hooks.Progress input) (hr : rules.Progress input depth) :
    (Rules.next hooks rules).Progress input (depth + 1) where
  budget := hr.budget
  expression m _ hp hd := expression_reaches hh hr hp (by omega) m
  classDeclaration mods _ hp hd := classDeclaration_reaches hr hp (by omega) mods
  typeExpression _ hp hd := typeExpression_reaches hr hp (by omega)

/-- A parser with as many levels as there are tokens to go makes progress. -/
theorem Rules.progress_ofDepth {budget : Nat} (hh : hooks.Progress input)
    (hb : input.size < budget) (depth : Nat) :
    (Rules.ofDepth hooks budget depth).Progress input depth := by
  induction depth with
  | zero => exact progress_bottom hb
  | succ depth ih => exact ih.next hh

end SharpSyntax
