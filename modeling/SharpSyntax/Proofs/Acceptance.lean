import SharpSyntax.Proofs.Derivation
import SharpSyntax.Proofs.Termination

/-!
# What is accepted is derived

A parse that reports nothing has read its tokens as the grammar derives them. The statement that
goes through all rules is about the tokens a rule has taken: either something was reported on the
way, or the tokens between where the rule began and where it ended derive what the rule made.

What is left of the input at a place, `Input.rest`, turns places into lists. A rule that took `ts`
has split the rest at its beginning into `ts` and the rest at its end, and two rules in a row split
it into the tokens of the first, the tokens of the second and what is left.
-/

namespace SharpSyntax

open Parse Grammar

variable {α : Type} {input : Input} {p q : Nat} {d e : Array Diagnostic}

/-! ## What is left of the input -/

namespace Input

/-- The tokens from a place on. -/
def rest (input : Input) (place : Nat) : List Token := input.tokens.toList.drop place

theorem rest_eq_nil (h : input.size ≤ p) : input.rest p = [] := by
  simpa [rest, size] using h

/-- In front of the end, what is left begins with the token that is there. -/
theorem rest_eq_cons (h : p < input.size) :
    input.rest p = input.tokenAt p :: input.rest (p + 1) := by
  -- a place of the array is a place of the list
  have hlen : p < input.tokens.toList.length := by simpa [size] using h
  have hp : p < input.tokens.size := h
  rw [rest, List.drop_eq_getElem_cons hlen, rest]
  simp [tokenAt, hp]

/-- A place behind at least one token of another lies behind it. -/
theorem lt_of_rest_eq {ts : List Token} (h : input.rest p = ts ++ input.rest q) (hts : ts ≠ []) :
    p < q := by
  have hlen := congrArg List.length h
  have hpos := List.length_pos_iff.mpr hts
  simp only [rest, List.length_append, List.length_drop] at hlen
  omega

end Input

/-! ## Reading or reporting -/

/-- The state was come to from `p` either with a report or over tokens that satisfy `derived`. -/
def Reads (input : Input) (p : Nat) (d : Array Diagnostic) (derived : List Token → Prop)
    (t : ParseState) : Prop :=
  ∃ q e, t = .at q e ∧ d.size ≤ e.size ∧
    (e.size = d.size → ∃ ts, input.rest p = ts ++ input.rest q ∧ derived ts)

/-- The state was come to with `k` reports or more. -/
def Reports (k : Nat) (d : Array Diagnostic) (t : ParseState) : Prop :=
  ∃ q e, t = .at q e ∧ d.size + k ≤ e.size

variable {derived : List Token → Prop} {k : Nat} {x : Diagnostic}

/-- Where no token was taken, the empty list has to derive what was made. -/
theorem Reads.nothing (h : derived []) : Reads input p d derived (.at p d) :=
  ⟨p, d, rfl, Nat.le_refl _, fun _ => ⟨[], rfl, h⟩⟩

/-- Where something was reported, nothing is asked of the tokens. -/
theorem Reads.reported (h : d.size < e.size) : Reads input p d derived (.at q e) :=
  ⟨q, e, rfl, by omega, fun he => by omega⟩

theorem Reads.push (h : d.size ≤ e.size) : Reads input p d derived (.at q (e.push x)) :=
  .reported (by rw [Array.size_push]; omega)

theorem Reports.at (h : d.size + k ≤ e.size) : Reports k d (.at q e) := ⟨q, e, rfl, h⟩

theorem Reports.push (h : d.size ≤ e.size) (hk : k ≤ 1) : Reports k d (.at q (e.push x)) :=
  .at (by rw [Array.size_push]; omega)

/-- From `p` the step gives something that its tokens derive, unless it reports. -/
def Parse.Yields (input : Input) (step : Parse α) (p : Nat) (derives : List Token → α → Prop) :
    Prop :=
  ∀ d, Parse.Meets True input step (.at p d) fun a => Reads input p d (derives · a)

/-- From `p` the step makes something that its tokens derive, unless it reports, and declines only
with `k` reports. -/
def Attempt.Yields (k : Nat) (input : Input) (step : Attempt α) (p : Nat)
    (derives : List Token → α → Prop) : Prop :=
  ∀ d, Attempt.Meets True input step (.at p d) (fun a => Reads input p d (derives · a))
    (Reports k d)

variable {derives : List Token → α → Prop}

/-- A step in front of others is read with its tokens, or it has reported. -/
theorem Parse.Yields.meets {step : Parse α} {post : α → ParseState → Prop}
    (h : Parse.Yields input step p derives)
    (hpost : ∀ a q f, e.size ≤ f.size →
      (f.size = e.size → ∃ ts, input.rest p = ts ++ input.rest q ∧ derives ts a) →
      post a (.at q f)) :
    Parse.Meets True input step (.at p e) post := by
  refine (h e).mono fun a t => ?_
  rintro ⟨q, f, rfl, hf, hread⟩
  exact hpost a q f hf hread

/-- An attempt in front of others is read with its tokens, or it has reported or declined. -/
theorem Attempt.Yields.meets {step : Attempt α} {made : α → ParseState → Prop}
    {declined : ParseState → Prop} (h : Attempt.Yields k input step p derives)
    (hmade : ∀ a q f, e.size ≤ f.size →
      (f.size = e.size → ∃ ts, input.rest p = ts ++ input.rest q ∧ derives ts a) →
      made a (.at q f))
    (hdeclined : ∀ q f, e.size + k ≤ f.size → declined (.at q f)) :
    Attempt.Meets True input step (.at p e) made declined := by
  refine (h e).mono (fun a t => ?_) fun t => ?_
  · rintro ⟨q, f, rfl, hf, hread⟩
    exact hmade a q f hf hread
  · rintro ⟨q, f, rfl, hf⟩
    exact hdeclined q f hf

/-- What derives something also derives what is made of it. -/
theorem Attempt.Yields.map {β : Type} {step : Attempt α} {derives' : List Token → β → Prop}
    (h : Attempt.Yields k input step p derives) (f : α → β)
    (himp : ∀ ts a, derives ts a → derives' ts (f a)) :
    Attempt.Yields k input (f <$> step) p derives' := by
  intro d
  rw [Attempt.meets_map]
  refine h.meets (fun a q e he hread => ?_) fun q e he => .at he
  refine ⟨q, e, rfl, he, fun heq => ?_⟩
  obtain ⟨ts, hts, hderives⟩ := hread heq
  exact ⟨ts, hts, himp ts a hderives⟩

/-- The rules of a level read what the grammar derives and report where they decline. -/
structure Rules.Sound (input : Input) (rules : Rules) : Prop where
  expression : ∀ m p, Attempt.Yields 1 input (rules.expression m) p (Derives.Expr m)
  classDeclaration : ∀ mods p,
    Attempt.Yields 1 input (rules.classDeclaration mods) p (Derives.Class mods)
  /-- What cannot begin a type is left for the caller to report. -/
  typeExpression : ∀ p, Attempt.Yields 0 input rules.typeExpression p Derives.TypeRef

variable {rules : Rules}

/-! ## Names and types -/

/-- Dots and identifiers in turn derive the tail of a name. -/
theorem nameTail_yields : ∀ n p, Parse.Yields input (nameTail n) p Derives.NameTail
  | 0, p => fun _ => trivial
  | n + 1, p => by
      intro d
      by_cases hdot : (input.tokenAt p).isSymbol "."
      · have hlt := Input.lt_size_of_isSymbol hdot
        by_cases hid : (input.tokenAt (p + 1)).kind = Kind.identifier
        · have hlt' := Input.lt_size_of_kind hid (by decide)
          simp only [nameTail, meets_bind, meets_ite, meets_current, hdot, meets_advance,
            meets_require, Token.fits_identifier, hid]
          refine (nameTail_yields n (p + 2)).meets fun names q e he hread => ?_
          refine ⟨q, e, rfl, he, fun heq => ?_⟩
          obtain ⟨ts, hts, hnames⟩ := hread heq
          refine ⟨_, ?_, .cons hdot hid hnames⟩
          rw [Input.rest_eq_cons hlt, Input.rest_eq_cons hlt', hts]
          rfl
        · simp only [nameTail, meets_bind, meets_ite, meets_current, hdot, meets_advance,
            meets_require, Token.fits_identifier, hid]
          exact .push (Nat.le_refl _)
      · simp only [nameTail, meets_bind, meets_current, hdot]
        exact .nothing .nil

theorem qualifiedName_yields (p : Nat) :
    Attempt.Yields 0 input (qualifiedName rules) p Derives.Name := by
  intro d
  by_cases hid : (input.tokenAt p).kind = Kind.identifier
  · have hlt := Input.lt_size_of_kind hid (by decide)
    simp only [qualifiedName, Attempt.meets_bind, Attempt.meets_ite, Attempt.meets_liftM,
      meets_current, hid]
    refine (nameTail_yields _ (p + 1)).meets fun names q e he hread => ?_
    refine ⟨q, e, rfl, he, fun heq => ?_⟩
    obtain ⟨ts, hts, hnames⟩ := hread heq
    refine ⟨_, ?_, .mk hid hnames⟩
    rw [Input.rest_eq_cons hlt, hts]
    rfl
  · simp only [qualifiedName, ite_not, Attempt.meets_bind, Attempt.meets_liftM, meets_current, hid]
    exact .at (Nat.le_refl _)

/-- A list of types is broken off without a report only by the end of the input. -/
theorem typeListFrom_yields (hr : rules.Sound input) : ∀ n p,
    Parse.Yields input (typeListFrom rules n) p
      fun ts types => Derives.Types ts types ∨ ts = input.rest p
  | 0, p => fun _ => trivial
  | n + 1, p => by
      intro d
      by_cases hend : input.size ≤ p
      · simp only [typeListFrom, meets_bind, meets_atEnd, hend]
        exact .nothing (.inr (Input.rest_eq_nil hend).symm)
      simp only [typeListFrom, meets_bind, meets_ite, Attempt.meets_run, meets_atEnd, hend]
      refine (hr.typeExpression p).meets (fun type q e he hread => ?_) fun q e he => .push he
      by_cases hcomma : (input.tokenAt q).isSymbol ","
      · have hlt := Input.lt_size_of_isSymbol hcomma
        simp only [meets_current, hcomma, meets_advance]
        refine (typeListFrom_yields hr n (q + 1)).meets fun types r f hf hread' => ?_
        refine ⟨r, f, rfl, by omega, fun heq => ?_⟩
        obtain ⟨ts, hts, htype⟩ := hread (by omega)
        obtain ⟨us, hus, htypes⟩ := hread' (by omega)
        refine ⟨ts ++ input.tokenAt q :: us, ?_, ?_⟩
        · rw [hts, Input.rest_eq_cons hlt, hus]
          simp
        · rcases htypes with htypes | hrest
          · exact .inl (.more htype hcomma htypes)
          -- broken off behind a comma, the list has used up what is left
          · refine .inr ?_
            rw [hts, Input.rest_eq_cons hlt, hrest]
      · simp only [meets_current, hcomma]
        refine ⟨q, e, rfl, he, fun heq => ?_⟩
        obtain ⟨ts, hts, htype⟩ := hread heq
        exact ⟨ts, hts, .inl (.last htype)⟩

theorem genericArguments_yields (hr : rules.Sound input) (p : Nat) :
    Parse.Yields input (genericArguments rules) p Derives.Generics := by
  intro d
  by_cases hopen : (input.tokenAt p).isSymbol "<"
  · have hlt := Input.lt_size_of_isSymbol hopen
    simp only [genericArguments, typeList, meets_bind, meets_ite, meets_current, hopen]
    refine (typeListFrom_yields hr _ (p + 1)).meets fun types q e he hread => ?_
    by_cases hclose : (input.tokenAt q).isSymbol ">"
    · have hlt' := Input.lt_size_of_isSymbol hclose
      simp only [meets_close, hclose]
      refine ⟨q + 1, e, rfl, he, fun heq => ?_⟩
      obtain ⟨ts, hts, htypes⟩ := hread heq
      have hq := Input.rest_eq_cons hlt'
      rcases htypes with htypes | hrest
      · refine ⟨_, ?_, .present hopen htypes hclose⟩
        rw [Input.rest_eq_cons hlt, hts, hq]
        simp
      · -- nothing is left behind a list that the end of the input broke off
        rw [hrest, hq] at hts
        simp at hts
    · simp only [meets_close, hclose]
      exact .push he
  · simp only [genericArguments, meets_bind, meets_current, hopen]
    exact .nothing .absent

/-- What cannot begin a type declines without a report. -/
theorem typeExpression_yields (hr : rules.Sound input) (p : Nat) :
    Attempt.Yields 0 input (typeExpression rules) p Derives.TypeRef := by
  intro d
  by_cases hkey : (input.tokenAt p).kind = Kind.keyword
  · have hlt := Input.lt_size_of_kind hkey (by decide)
    simp only [typeExpression, Attempt.meets_bind, Attempt.meets_ite, Attempt.meets_liftM,
      meets_current, hkey]
    refine (genericArguments_yields hr (p + 1)).meets fun generics q e he hread => ?_
    refine ⟨q, e, rfl, he, fun heq => ?_⟩
    obtain ⟨ts, hts, hgenerics⟩ := hread heq
    refine ⟨_, ?_, .word hkey hgenerics⟩
    rw [Input.rest_eq_cons hlt, hts]
    rfl
  · simp only [typeExpression, Attempt.meets_bind, Attempt.meets_ite, Attempt.meets_liftM,
      meets_current, hkey]
    refine (qualifiedName_yields p).meets (fun name q e he hread => ?_) fun q e he => .at he
    refine (genericArguments_yields hr q).meets fun generics r f hf hread' => ?_
    refine ⟨r, f, rfl, by omega, fun heq => ?_⟩
    obtain ⟨ts, hts, hname⟩ := hread (by omega)
    obtain ⟨us, hus, hgenerics⟩ := hread' (by omega)
    exact ⟨ts ++ us, by rw [hts, hus, List.append_assoc], .name hname hgenerics⟩

/-! ## Access chains and arguments -/

/-- Without a report, a comma stands between two arguments and none behind the last. -/
theorem argumentsFrom_yields (hr : rules.Sound input) : ∀ n p,
    Parse.Yields input (argumentsFrom rules n) p Derives.Items
  | 0, p => fun _ => trivial
  | n + 1, p => by
      intro d
      by_cases hend : input.size ≤ p
      · simp only [argumentsFrom, meets_bind, meets_atEnd, hend]
        exact .nothing .none
      by_cases hclose : (input.tokenAt p).isSymbol ")"
      · simp only [argumentsFrom, meets_bind, meets_ite, meets_atEnd, hend, meets_current, hclose]
        exact .nothing .none
      simp only [argumentsFrom, meets_bind, meets_ite, Attempt.meets_run, meets_atEnd, hend,
        meets_current, hclose]
      refine (hr.expression 0 p).meets (fun node q e he hread => ?_)
        fun q e he => .reported (by omega)
      by_cases hcomma : (input.tokenAt q).isSymbol ","
      · have hlt := Input.lt_size_of_isSymbol hcomma
        simp only [meets_current, hcomma, meets_advance]
        refine (argumentsFrom_yields hr n (q + 1)).meets fun items r f hf hread' => ?_
        refine ⟨r, f, rfl, by omega, fun heq => ?_⟩
        obtain ⟨ts, hts, hnode⟩ := hread (by omega)
        obtain ⟨us, hus, hitems⟩ := hread' (by omega)
        refine ⟨_, ?_, .more hnode hcomma hitems⟩
        rw [hts, Input.rest_eq_cons hlt, hus]
        simp
      · simp only [meets_current, hcomma]
        refine ⟨q, e, rfl, he, fun heq => ?_⟩
        obtain ⟨ts, hts, hnode⟩ := hread heq
        exact ⟨ts, hts, .last hnode⟩

theorem arguments_yields (hr : rules.Sound input) (p : Nat) :
    Parse.Yields input (arguments rules) p Derives.Arguments := by
  intro d
  by_cases hopen : (input.tokenAt p).isSymbol "("
  · have hlt := Input.lt_size_of_isSymbol hopen
    simp only [arguments, meets_bind, meets_ite, meets_require, Token.fits_symbol, hopen]
    refine (argumentsFrom_yields hr _ (p + 1)).meets fun items q e he hread => ?_
    by_cases hclose : (input.tokenAt q).isSymbol ")"
    · have hlt' := Input.lt_size_of_isSymbol hclose
      simp only [meets_close, hclose]
      refine ⟨q + 1, e, rfl, he, fun heq => ?_⟩
      obtain ⟨ts, hts, hitems⟩ := hread heq
      refine ⟨_, ?_, .mk hopen hitems hclose⟩
      rw [Input.rest_eq_cons hlt, hts, Input.rest_eq_cons hlt']
      simp
    · simp only [meets_close, hclose]
      exact .push he
  · simp only [arguments, meets_bind, meets_require, Token.fits_symbol, hopen]
    exact .push (Nat.le_refl _)

/-- Each step of a chain takes the tokens that derive it. -/
theorem accesses_yields (hr : rules.Sound input) : ∀ n p,
    Parse.Yields input (accesses rules n) p Derives.Chain
  | 0, p => fun _ => trivial
  | n + 1, p => by
      intro d
      by_cases hdot : (input.tokenAt p).isSymbol "."
      · have hlt := Input.lt_size_of_isSymbol hdot
        by_cases hid : (input.tokenAt (p + 1)).kind = Kind.identifier
        · have hlt' := Input.lt_size_of_kind hid (by decide)
          simp only [accesses, meets_bind, meets_ite, meets_current, hdot, meets_advance,
            meets_require, Token.fits_identifier, hid]
          refine (accesses_yields hr n (p + 2)).meets fun body q e he hread => ?_
          refine ⟨q, e, rfl, he, fun heq => ?_⟩
          obtain ⟨ts, hts, hbody⟩ := hread heq
          refine ⟨_, ?_, .member hdot hid hbody⟩
          rw [Input.rest_eq_cons hlt, Input.rest_eq_cons hlt', hts]
          rfl
        · simp only [accesses, meets_bind, meets_ite, meets_current, hdot, meets_advance,
            meets_require, Token.fits_identifier, hid]
          exact .push (Nat.le_refl _)
      by_cases hindex : (input.tokenAt p).isSymbol "["
      · have hlt := Input.lt_size_of_isSymbol hindex
        simp only [accesses, meets_bind, meets_ite, Attempt.meets_run, meets_current, hdot, hindex,
          meets_advance]
        refine (hr.expression 0 (p + 1)).meets (fun node q e he hread => ?_)
          fun q e he => .reported (by omega)
        by_cases hclose : (input.tokenAt q).isSymbol "]"
        · have hlt' := Input.lt_size_of_isSymbol hclose
          simp only [meets_require, Token.fits_symbol, hclose, meets_advance]
          refine (accesses_yields hr n (q + 1)).meets fun body r f hf hread' => ?_
          refine ⟨r, f, rfl, by omega, fun heq => ?_⟩
          obtain ⟨ts, hts, hnode⟩ := hread (by omega)
          obtain ⟨us, hus, hbody⟩ := hread' (by omega)
          refine ⟨_, ?_, .index hindex hnode hclose hbody⟩
          rw [Input.rest_eq_cons hlt, hts, Input.rest_eq_cons hlt', hus]
          simp
        · simp only [meets_require, Token.fits_symbol, hclose]
          exact .push he
      by_cases hcall : (input.tokenAt p).isSymbol "("
      · simp only [accesses, meets_bind, meets_ite, meets_current, hdot, hindex, hcall]
        refine (arguments_yields hr p).meets fun items q e he hread => ?_
        refine (accesses_yields hr n q).meets fun body r f hf hread' => ?_
        refine ⟨r, f, rfl, by omega, fun heq => ?_⟩
        obtain ⟨ts, hts, hitems⟩ := hread (by omega)
        obtain ⟨us, hus, hbody⟩ := hread' (by omega)
        exact ⟨ts ++ us, by rw [hts, hus, List.append_assoc], .call hitems hbody⟩
      · simp only [accesses, meets_bind, meets_current, hdot, hindex, hcall]
        exact .nothing .nil

theorem accessChain_yields (hr : rules.Sound input)
    (hid : (input.tokenAt p).kind = Kind.identifier) :
    Attempt.Yields 1 input (accessChain rules) p
      fun ts chain => Derives.Postfix ts (.access chain.1 chain.2) := by
  intro d
  have hlt := Input.lt_size_of_kind hid (by decide)
  simp only [accessChain, Attempt.meets_bind, Attempt.meets_ite, Attempt.meets_liftM, meets_current,
    hid]
  refine (accesses_yields hr _ (p + 1)).meets fun body q e he hread => ?_
  refine ⟨q, e, rfl, he, fun heq => ?_⟩
  obtain ⟨ts, hts, hbody⟩ := hread heq
  refine ⟨_, ?_, .chain hid hbody⟩
  rw [Input.rest_eq_cons hlt, hts]
  rfl

/-! ## Statements -/

/-- Without a report a statement is an expression, and recovery steps over nothing. -/
theorem statement_yields (hr : rules.Sound input) (stops : List String) (p : Nat) :
    Parse.Yields input (statement rules stops) p
      fun ts nodes => ∃ node, nodes = [node] ∧ Derives.Statement ts node := by
  intro d
  simp only [statement, meets_bind, meets_mark, meets_pure, Attempt.meets_run]
  refine (hr.expression 0 p).meets (fun node q e he hread => ?_) fun q e he => ?_
  -- recovery can only follow a report, and then nothing is claimed of the tokens
  · have hnoisy : ∀ r, d.size < e.size → Parse.Meets True input (recover ⟨p, d.size⟩ stops)
        (.at r e) fun _ => Reads input p d fun ts =>
          ∃ node', (some node).toList = [node'] ∧ Derives.Statement ts node' := by
      intro r hlt
      refine meets_recover_keeps.mono fun _ t => ?_
      rintro ⟨u, rfl⟩
      exact .reported hlt
    have hquiet : e.size = d.size → ∃ ts, input.rest p = ts ++ input.rest q ∧
        Derives.Expr 0 ts node ∧ p < q := by
      intro heq
      obtain ⟨ts, hts, hnode⟩ := hread heq
      exact ⟨ts, hts, hnode, Input.lt_of_rest_eq hts hnode.ne_nil⟩
    by_cases hsemi : (input.tokenAt q).isSymbol ";"
    · have hlt := Input.lt_size_of_isSymbol hsemi
      simp only [meets_skip, hsemi, if_true]
      rcases Nat.lt_or_eq_of_le he with hlt' | heq
      · exact hnoisy _ hlt'
      obtain ⟨ts, hts, hnode, hpq⟩ := hquiet heq.symm
      refine meets_recover_quiet (by simp; omega) heq.symm ?_
      refine ⟨q + 1, e, rfl, he, fun _ => ⟨_, ?_, node, rfl, .ended hnode hsemi⟩⟩
      rw [hts, Input.rest_eq_cons hlt]
      simp
    · simp only [meets_skip, hsemi]
      rcases Nat.lt_or_eq_of_le he with hlt' | heq
      · exact hnoisy _ hlt'
      obtain ⟨ts, hts, hnode, hpq⟩ := hquiet heq.symm
      refine meets_recover_quiet (by simp; omega) heq.symm ?_
      exact ⟨q, e, rfl, he, fun _ => ⟨ts, hts, node, rfl, .bare hnode⟩⟩
  · -- nothing was made, so something was reported, and recovery keeps the report
    refine meets_skip_keeps.mono fun _ t => ?_
    rintro ⟨r, rfl⟩
    refine meets_recover_keeps.mono fun _ t => ?_
    rintro ⟨u, rfl⟩
    exact .reported (by omega)

/-- Without a report every round gives one statement, so that the sequence derives all it has taken.
-/
theorem sequenceFrom_yields (hr : rules.Sound input) (terminator : Option String) : ∀ n p,
    Parse.Yields input (sequenceFrom rules terminator n) p Derives.Body
  | 0, p => fun _ => trivial
  | n + 1, p => by
      intro d
      by_cases hend : input.size ≤ p
      · simp only [sequenceFrom, meets_bind, meets_atEnd, hend]
        exact .nothing .nil
      by_cases hstop : terminator.toList.any (input.tokenAt p).isSymbol
      · simp only [sequenceFrom, meets_bind, meets_atEnd, hend, meets_current, hstop, meets_ite]
        exact .nothing .nil
      simp only [sequenceFrom, meets_bind, meets_atEnd, hend, meets_current, hstop, meets_ite]
      refine (statement_yields hr _ p).meets fun first q e he hread => ?_
      refine (sequenceFrom_yields hr terminator n q).meets fun nodes r f hf hread' => ?_
      refine ⟨r, f, rfl, by omega, fun heq => ?_⟩
      obtain ⟨ts, hts, node, rfl, hnode⟩ := hread (by omega)
      obtain ⟨us, hus, hnodes⟩ := hread' (by omega)
      exact ⟨ts ++ us, by rw [hts, hus, List.append_assoc], .cons hnode hnodes⟩

/-- A block that is complete stands between its braces. -/
theorem bracedBlock_yields (hr : rules.Sound input) (p : Nat) :
    Attempt.Yields 1 input (bracedBlock rules) p Derives.Block := by
  intro d
  by_cases hopen : (input.tokenAt p).isSymbol openBrace
  · have hlt := Input.lt_size_of_isSymbol hopen
    simp only [bracedBlock, block, Attempt.meets_bind, Attempt.meets_liftM,
      Attempt.meets_needSymbol, hopen]
    refine (sequenceFrom_yields hr _ _ (p + 1)).meets fun nodes q e he hread => ?_
    by_cases hclose : (input.tokenAt q).isSymbol closeBrace
    · have hlt' := Input.lt_size_of_isSymbol hclose
      simp only [meets_close, hclose]
      refine ⟨q + 1, e, rfl, he, fun heq => ?_⟩
      obtain ⟨ts, hts, hnodes⟩ := hread heq
      refine ⟨_, ?_, .mk hopen hnodes hclose⟩
      rw [Input.rest_eq_cons hlt, hts, Input.rest_eq_cons hlt']
      simp
    · simp only [meets_close, hclose]
      exact .push he
  · simp only [bracedBlock, Attempt.meets_bind, Attempt.meets_needSymbol, hopen]
    exact .push (Nat.le_refl _) (Nat.le_refl _)

theorem condition_yields (hr : rules.Sound input) (keyword : String) (p : Nat) :
    Attempt.Yields 1 input (condition rules keyword) p Derives.Condition := by
  intro d
  by_cases hopen : (input.tokenAt p).isSymbol "("
  · have hlt := Input.lt_size_of_isSymbol hopen
    simp only [condition, Attempt.meets_bind, Attempt.meets_needSymbol, hopen]
    refine (hr.expression 0 (p + 1)).meets (fun node q e he hread => ?_) fun q e he => .at he
    by_cases hclose : (input.tokenAt q).isSymbol ")"
    · have hlt' := Input.lt_size_of_isSymbol hclose
      simp only [Attempt.meets_needSymbol, hclose]
      refine ⟨q + 1, e, rfl, he, fun heq => ?_⟩
      obtain ⟨ts, hts, hnode⟩ := hread heq
      refine ⟨_, ?_, .mk hopen hnode hclose⟩
      rw [Input.rest_eq_cons hlt, hts, Input.rest_eq_cons hlt']
      simp
    · simp only [Attempt.meets_needSymbol, hclose]
      exact .push he (Nat.le_refl _)
  · simp only [condition, Attempt.meets_bind, Attempt.meets_needSymbol, hopen]
    exact .push (Nat.le_refl _) (Nat.le_refl _)

/-- What the branches behind the word `if` derive. -/
def DerivesBranches (ts : List Token) (branch : Node × List Node × Alternate) : Prop :=
  ∃ cs bs rest, ts = cs ++ bs ++ rest ∧ Derives.Condition cs branch.1 ∧
    Derives.Block bs branch.2.1 ∧ Derives.Else rest branch.2.2

/-- What stands behind `if` is a condition, a block and perhaps an `else`. -/
theorem branches_yields (hr : rules.Sound input) : ∀ keyword n p,
    Attempt.Yields 1 input (branches rules keyword n) p DerivesBranches
  | _, 0, p => fun _ => trivial
  | keyword, n + 1, p => by
      intro d
      simp only [branches, Attempt.meets_bind]
      refine (condition_yields hr keyword p).meets (fun value q e he hread => ?_)
        fun q e he => .at he
      refine (bracedBlock_yields hr q).meets (fun consequent r f hf hread' => ?_)
        fun r f hf => .at (by omega)
      have hboth : f.size = d.size → ∃ cs bs, input.rest p = cs ++ bs ++ input.rest r ∧
          Derives.Condition cs value ∧ Derives.Block bs consequent := by
        intro heq
        obtain ⟨cs, hcs, hvalue⟩ := hread (by omega)
        obtain ⟨bs, hbs, hconsequent⟩ := hread' (by omega)
        exact ⟨cs, bs, by rw [hcs, hbs, List.append_assoc], hvalue, hconsequent⟩
      by_cases helse : (input.tokenAt r).isKeyword "else"
      · have hlt := Input.lt_size_of_isKeyword helse
        by_cases hif : (input.tokenAt (r + 1)).isKeyword "if"
        · have hlt' := Input.lt_size_of_isKeyword hif
          simp only [Attempt.meets_ite, Attempt.meets_bind, Attempt.meets_orNone,
            Attempt.meets_liftM, meets_current, helse, meets_advance, hif]
          refine (branches_yields hr _ n (r + 2)).meets (fun branch u g hg hread'' => ?_)
            fun u g hg => .reported (by omega)
          refine ⟨u, g, rfl, by omega, fun heq => ?_⟩
          obtain ⟨cs, bs, hrest, hvalue, hconsequent⟩ := hboth (by omega)
          obtain ⟨_, hus, cs', bs', rest, rfl, hvalue', hconsequent', halternate⟩ :=
            hread'' (by omega)
          refine ⟨_, ?_, cs, bs, _, rfl, hvalue, hconsequent,
            .elseIf helse hif hvalue' hconsequent' halternate⟩
          rw [hrest, Input.rest_eq_cons hlt, Input.rest_eq_cons hlt', hus]
          simp
        · simp only [Attempt.meets_ite, Attempt.meets_bind, Attempt.meets_orNone,
            Attempt.meets_liftM, meets_current, helse, meets_advance, hif]
          refine (bracedBlock_yields hr (r + 1)).meets (fun body u g hg hread'' => ?_)
            fun u g hg => .reported (by omega)
          refine ⟨u, g, rfl, by omega, fun heq => ?_⟩
          obtain ⟨cs, bs, hrest, hvalue, hconsequent⟩ := hboth (by omega)
          obtain ⟨us, hus, hbody⟩ := hread'' (by omega)
          refine ⟨_, ?_, cs, bs, _, rfl, hvalue, hconsequent, .otherwise helse hbody⟩
          rw [hrest, Input.rest_eq_cons hlt, hus]
          simp
      · simp only [Attempt.meets_liftM, meets_current, helse]
        refine ⟨r, f, rfl, by omega, fun heq => ?_⟩
        obtain ⟨cs, bs, hrest, hvalue, hconsequent⟩ := hboth heq
        exact ⟨cs ++ bs, hrest, cs, bs, [], by simp, hvalue, hconsequent, .none⟩

theorem ifStatement_yields (hr : rules.Sound input) (p : Nat) :
    Attempt.Yields 1 input (ifStatement rules) p Derives.Primary := by
  intro d
  by_cases hif : (input.tokenAt p).isKeyword "if"
  · have hlt := Input.lt_size_of_isKeyword hif
    simp only [ifStatement, Attempt.meets_bind, Attempt.meets_needKeyword, hif]
    refine (branches_yields hr _ _ (p + 1)).meets (fun branch q e he hread => ?_)
      fun q e he => .at he
    refine ⟨q, e, rfl, he, fun heq => ?_⟩
    obtain ⟨_, hts, cs, bs, rest, rfl, hvalue, hconsequent, halternate⟩ := hread heq
    refine ⟨_, ?_, .ifStatement hif hvalue hconsequent halternate⟩
    rw [Input.rest_eq_cons hlt, hts]
    rfl
  · simp only [ifStatement, Attempt.meets_bind, Attempt.meets_needKeyword, hif]
    exact .push (Nat.le_refl _) (Nat.le_refl _)

theorem whileStatement_yields (hr : rules.Sound input) (p : Nat) :
    Attempt.Yields 1 input (whileStatement rules) p Derives.Primary := by
  intro d
  by_cases hwhile : (input.tokenAt p).isKeyword "while"
  · have hlt := Input.lt_size_of_isKeyword hwhile
    simp only [whileStatement, Attempt.meets_bind, Attempt.meets_needKeyword, hwhile]
    refine (condition_yields hr _ (p + 1)).meets (fun value q e he hread => ?_)
      fun q e he => .at he
    refine (bracedBlock_yields hr q).meets (fun consequent r f hf hread' => ?_)
      fun r f hf => .at (by omega)
    refine ⟨r, f, rfl, by omega, fun heq => ?_⟩
    obtain ⟨cs, hcs, hvalue⟩ := hread (by omega)
    obtain ⟨bs, hbs, hconsequent⟩ := hread' (by omega)
    refine ⟨_, ?_, .whileStatement hwhile hvalue hconsequent⟩
    rw [Input.rest_eq_cons hlt, hcs, hbs]
    simp
  · simp only [whileStatement, Attempt.meets_bind, Attempt.meets_needKeyword, hwhile]
    exact .push (Nat.le_refl _) (Nat.le_refl _)

/-! ## Declarations -/

/-- Names of parameters stand between commas. -/
theorem genericNamesFrom_yields : ∀ n p,
    Attempt.Yields 1 input (genericNamesFrom n) p Derives.Parameters
  | 0, p => fun _ => trivial
  | n + 1, p => by
      intro d
      by_cases hend : input.size ≤ p
      · simp only [genericNamesFrom, Attempt.meets_bind, Attempt.meets_liftM, meets_atEnd, hend]
        exact .nothing .none
      by_cases hclose : (input.tokenAt p).isSymbol ">"
      · simp only [genericNamesFrom, Attempt.meets_bind, Attempt.meets_ite, Attempt.meets_liftM,
          meets_atEnd, hend, meets_current, hclose]
        exact .nothing .none
      by_cases hid : (input.tokenAt p).kind = Kind.identifier
      · have hlt := Input.lt_size_of_kind hid (by decide)
        by_cases hcomma : (input.tokenAt (p + 1)).isSymbol ","
        · have hlt' := Input.lt_size_of_isSymbol hcomma
          simp only [genericNamesFrom, Attempt.meets_bind, Attempt.meets_ite, Attempt.meets_liftM,
            meets_atEnd, hend, meets_current, hclose, Attempt.meets_needIdentifier, hid, hcomma]
          refine (genericNamesFrom_yields n (p + 2)).meets (fun names q e he hread => ?_)
            fun q e he => .at he
          refine ⟨q, e, rfl, he, fun heq => ?_⟩
          obtain ⟨ts, hts, hnames⟩ := hread heq
          refine ⟨_, ?_, .more hid hcomma hnames⟩
          rw [Input.rest_eq_cons hlt, Input.rest_eq_cons hlt', hts]
          rfl
        · simp only [genericNamesFrom, Attempt.meets_bind, Attempt.meets_ite, Attempt.meets_liftM,
            meets_atEnd, hend, meets_current, hclose, Attempt.meets_needIdentifier, hid, hcomma]
          exact ⟨p + 1, d, rfl, Nat.le_refl _, fun _ =>
            ⟨_, Input.rest_eq_cons hlt, .last hid⟩⟩
      · simp only [genericNamesFrom, Attempt.meets_bind, Attempt.meets_ite, Attempt.meets_liftM,
          meets_atEnd, hend, meets_current, hclose, Attempt.meets_needIdentifier, hid]
        exact .push (Nat.le_refl _) (Nat.le_refl _)

theorem genericNames_yields (p : Nat) :
    Attempt.Yields 1 input (genericNames rules) p Derives.GenericNames := by
  intro d
  by_cases hopen : (input.tokenAt p).isSymbol "<"
  · have hlt := Input.lt_size_of_isSymbol hopen
    simp only [genericNames, Attempt.meets_bind, Attempt.meets_ite, Attempt.meets_liftM,
      meets_current, hopen]
    refine (genericNamesFrom_yields _ (p + 1)).meets (fun names q e he hread => ?_)
      fun q e he => .at he
    by_cases hclose : (input.tokenAt q).isSymbol ">"
    · have hlt' := Input.lt_size_of_isSymbol hclose
      simp only [Attempt.meets_needSymbol, hclose]
      refine ⟨q + 1, e, rfl, he, fun heq => ?_⟩
      obtain ⟨ts, hts, hnames⟩ := hread heq
      refine ⟨_, ?_, .present hopen hnames hclose⟩
      rw [Input.rest_eq_cons hlt, hts, Input.rest_eq_cons hlt']
      simp
    · simp only [Attempt.meets_needSymbol, hclose]
      exact .push he (Nat.le_refl _)
  · simp only [genericNames, Attempt.meets_bind, Attempt.meets_liftM, meets_current, hopen]
    exact .nothing .absent

/-- Without a report every base is a type. -/
theorem basesFrom_yields (hr : rules.Sound input) : ∀ n p,
    Parse.Yields input (basesFrom rules n) p Derives.Types
  | 0, p => fun _ => trivial
  | n + 1, p => by
      intro d
      simp only [basesFrom, meets_bind, Attempt.meets_run, meets_ite]
      refine (typeExpression_yields hr p).meets (fun type q e he hread => ?_) fun q e he => .push he
      by_cases hcomma : (input.tokenAt q).isSymbol ","
      · have hlt := Input.lt_size_of_isSymbol hcomma
        simp only [meets_current, hcomma, meets_advance]
        refine (basesFrom_yields hr n (q + 1)).meets fun types r f hf hread' => ?_
        refine ⟨r, f, rfl, by omega, fun heq => ?_⟩
        obtain ⟨ts, hts, htype⟩ := hread (by omega)
        obtain ⟨us, hus, htypes⟩ := hread' (by omega)
        refine ⟨_, ?_, .more htype hcomma htypes⟩
        rw [hts, Input.rest_eq_cons hlt, hus]
        simp
      · simp only [meets_current, hcomma]
        refine ⟨q, e, rfl, he, fun heq => ?_⟩
        obtain ⟨ts, hts, htype⟩ := hread heq
        exact ⟨ts, hts, .last htype⟩

theorem bases_yields (hr : rules.Sound input) (p : Nat) :
    Parse.Yields input (bases rules) p Derives.Bases := by
  intro d
  by_cases hcolon : (input.tokenAt p).isSymbol ":"
  · have hlt := Input.lt_size_of_isSymbol hcolon
    simp only [bases, meets_bind, meets_current, hcolon]
    refine (basesFrom_yields hr _ (p + 1)).meets fun types q e he hread => ?_
    refine ⟨q, e, rfl, he, fun heq => ?_⟩
    obtain ⟨ts, hts, htypes⟩ := hread heq
    refine ⟨_, ?_, .present hcolon htypes⟩
    rw [Input.rest_eq_cons hlt, hts]
    rfl
  · simp only [bases, meets_bind, meets_current, hcolon]
    exact .nothing .absent

/-- The depth of open braces does not matter here: no statement begins with a brace. -/
theorem methodStatements_yields (hr : rules.Sound input) : ∀ n inside p,
    Parse.Yields input (methodStatements rules n inside) p Derives.Body
  | 0, _, p => fun _ => trivial
  | n + 1, inside, p => by
      intro d
      by_cases hend : input.size ≤ p
      · simp only [methodStatements, meets_bind, meets_atEnd, hend]
        exact .nothing .nil
      simp only [methodStatements, meets_bind, meets_atEnd, hend]
      refine .ite (fun h => absurd h (by simp)) fun _ => ?_
      simp only [meets_bind, meets_current]
      refine .ite (fun _ => .nothing .nil) fun _ => ?_
      simp only [meets_bind]
      refine (statement_yields hr _ p).meets fun first q e he hread => ?_
      refine (methodStatements_yields hr n _ q).meets fun nodes r f hf hread' => ?_
      refine ⟨r, f, rfl, by omega, fun heq => ?_⟩
      obtain ⟨ts, hts, node, rfl, hnode⟩ := hread (by omega)
      obtain ⟨us, hus, hnodes⟩ := hread' (by omega)
      exact ⟨ts ++ us, by rw [hts, hus, List.append_assoc], .cons hnode hnodes⟩

/-- A method body is only read where a brace opens it. -/
theorem methodBody_yields (hr : rules.Sound input)
    (hopen : (input.tokenAt p).isSymbol openBrace = true) :
    Parse.Yields input (methodBody rules) p Derives.Block := by
  intro d
  have hlt := Input.lt_size_of_isSymbol hopen
  simp only [methodBody, meets_bind, meets_advance]
  refine (methodStatements_yields hr _ 1 (p + 1)).meets fun nodes q e he hread => ?_
  by_cases hclose : (input.tokenAt q).isSymbol closeBrace
  · have hlt' := Input.lt_size_of_isSymbol hclose
    simp only [meets_current, hclose]
    refine ⟨q + 1, e, rfl, he, fun heq => ?_⟩
    obtain ⟨ts, hts, hnodes⟩ := hread heq
    refine ⟨_, ?_, .mk hopen hnodes hclose⟩
    rw [Input.rest_eq_cons hlt, hts, Input.rest_eq_cons hlt']
    simp
  · simp only [meets_current, hclose]
    exact .push he

/-- The modifiers that are read are the keywords in front of the member. -/
theorem memberModifiers_yields : ∀ n p,
    Parse.Yields input (memberModifiers n) p Derives.Modifiers
  | 0, p => fun _ => trivial
  | n + 1, p => by
      intro d
      simp only [memberModifiers, meets_bind, meets_current]
      refine .ite (fun hmod => ?_) fun _ => .nothing .nil
      simp only [Bool.and_eq_true, decide_eq_true_eq, List.contains_iff_mem] at hmod
      have hlt := Input.lt_size_of_kind hmod.1 (by decide)
      simp only [meets_bind, meets_advance, meets_pure]
      refine (memberModifiers_yields n (p + 1)).meets fun mods q e he hread => ?_
      refine ⟨q, e, rfl, he, fun heq => ?_⟩
      obtain ⟨ts, hts, hmods⟩ := hread heq
      refine ⟨_, ?_, .cons hmod.1 hmod.2 hmods⟩
      rw [Input.rest_eq_cons hlt, hts]
      rfl

theorem method_yields (hr : rules.Sound input) (mods : List String) (type : TypeExpr)
    (name : String) (offset p : Nat) :
    Attempt.Yields 1 input (method rules mods type name offset) p
      (Derives.Method mods type name offset) := by
  intro d
  simp only [method, Attempt.meets_bind, Attempt.meets_liftM]
  refine (arguments_yields hr p).meets fun parameters q e he hread => ?_
  by_cases hopen : (input.tokenAt q).isSymbol openBrace
  · simp only [Attempt.meets_ite, Attempt.meets_liftM, Attempt.meets_bind, meets_current, hopen]
    refine (methodBody_yields hr hopen).meets fun nodes r f hf hread' => ?_
    refine ⟨r, f, rfl, by omega, fun heq => ?_⟩
    obtain ⟨ts, hts, hparameters⟩ := hread (by omega)
    obtain ⟨us, hus, hnodes⟩ := hread' (by omega)
    exact ⟨ts ++ us, by rw [hts, hus, List.append_assoc], .body hparameters hnodes⟩
  by_cases hsemi : (input.tokenAt q).isSymbol ";"
  · have hlt := Input.lt_size_of_isSymbol hsemi
    simp only [meets_current, hopen, hsemi]
    refine ⟨q + 1, e, rfl, he, fun heq => ?_⟩
    obtain ⟨ts, hts, hparameters⟩ := hread heq
    refine ⟨_, ?_, .signature hparameters hsemi⟩
    rw [hts, Input.rest_eq_cons hlt]
    simp
  · simp only [meets_current, hopen, hsemi]
    exact .push he (Nat.le_refl _)

/-- The offset of a member is that of its first token. -/
theorem offset_of_rest_eq {ts : List Token} (h : input.rest p = ts ++ input.rest q)
    (hts : ts ≠ []) :
    ts.head?.map Token.offset = some (input.tokenAt p).offset := by
  obtain ⟨first, rest, rfl⟩ := List.exists_cons_of_ne_nil hts
  have hlt : p < input.size := by
    rcases Nat.lt_or_ge p input.size with hp | hp
    · exact hp
    · rw [Input.rest_eq_nil hp] at h
      simp at h
  rw [Input.rest_eq_cons hlt, List.cons_append] at h
  simp [(List.cons.inj h).1]

/-- What stands behind type and name makes a field, a signature or a method of all three. -/
theorem memberRest_yields (hr : rules.Sound input) (mods : List String) (type : TypeExpr)
    {name : Token} (hid : name.kind = Kind.identifier) (offset p : Nat) :
    Attempt.Yields 1 input (memberRest rules mods type name.text offset) p fun us made =>
      ∀ ts, Derives.TypeRef ts type →
        Derives.Unmodified mods (some offset) (ts ++ name :: us) made := by
  intro d
  by_cases hcall : (input.tokenAt p).isSymbol "("
  · simp only [memberRest, Attempt.meets_bind, Attempt.meets_liftM, meets_current, hcall]
    refine (method_yields hr mods type _ _ p).meets (fun made q e he hread => ?_)
      fun q e he => .at he
    refine ⟨q, e, rfl, he, fun heq => ?_⟩
    obtain ⟨us, hus, hmade⟩ := hread heq
    exact ⟨us, hus, fun ts htype => .method htype hid hmade⟩
  by_cases hsemi : (input.tokenAt p).isSymbol ";"
  · have hlt := Input.lt_size_of_isSymbol hsemi
    simp only [memberRest, Attempt.meets_bind, Attempt.meets_liftM, meets_current, hcall, hsemi]
    refine ⟨p + 1, d, rfl, Nat.le_refl _, fun _ => ⟨[input.tokenAt p], ?_, fun ts htype => ?_⟩⟩
    · rw [Input.rest_eq_cons hlt]
      rfl
    · exact .field htype hid hsemi
  · simp only [memberRest, Attempt.meets_bind, Attempt.meets_liftM, meets_current, hcall, hsemi]
    exact .push (Nat.le_refl _) (Nat.le_refl _)

/-- A class behind modifiers is derived with them, any other member behind its own. -/
theorem member_yields (hr : rules.Sound input) (inNamespace : Bool) (p : Nat) :
    Attempt.Yields 1 input (member rules) p (Derives.BodyMember inNamespace) := by
  intro d
  simp only [member, Attempt.meets_bind, Attempt.meets_liftM, meets_current]
  refine (memberModifiers_yields _ p).meets fun mods q e he hread => ?_
  -- what stands behind the modifiers makes the member
  have hmake : ∀ {r : Nat} {f : Array Diagnostic} {us : List Token} {made : Member},
      e.size ≤ f.size → f.size = d.size → input.rest q = us ++ input.rest r →
      Derives.Unmodified mods (some (input.tokenAt p).offset) us made →
      ∃ ts, input.rest p = ts ++ input.rest r ∧ Derives.BodyMember inNamespace ts made := by
    intro r f us made hf heq hus hmade
    obtain ⟨ms, hms, hmods⟩ := hread (by omega)
    have hrest : input.rest p = (ms ++ us) ++ input.rest r := by
      rw [hms, hus, List.append_assoc]
    -- the first token of the member is a modifier or, without modifiers, of what is behind them
    refine ⟨ms ++ us, hrest, .declaration hmods ?_⟩
    rw [offset_of_rest_eq hrest (by simp [hmade.ne_nil])]
    exact hmade
  by_cases hclass : (input.tokenAt q).isKeyword "class"
  · simp only [Attempt.meets_ite, Attempt.meets_bind, meets_current, hclass]
    refine (hr.classDeclaration mods q).meets (fun declaration r f hf hread' => ?_)
      fun r f hf => .at (by omega)
    refine ⟨r, f, rfl, by omega, fun heq => ?_⟩
    obtain ⟨us, hus, hdeclaration⟩ := hread' (by omega)
    exact hmake hf heq hus (.nested hdeclaration)
  simp only [Attempt.meets_ite, Attempt.meets_bind, Attempt.meets_orNone, Attempt.meets_liftM,
    meets_current, hclass]
  refine (typeExpression_yields hr q).meets (fun type r f hf hread' => ?_) fun r f hf => ?_
  case neg.refine_2 =>
    simp only [meets_current, meets_report]
    exact .push (by omega) (Nat.le_refl _)
  by_cases hid : (input.tokenAt r).kind = Kind.identifier
  · have hlt := Input.lt_size_of_kind hid (by decide)
    simp only [Attempt.meets_needIdentifier, hid]
    refine (memberRest_yields hr mods type hid _ (r + 1)).meets (fun made u g hg hread'' => ?_)
      fun u g hg => .at (by omega)
    refine ⟨u, g, rfl, by omega, fun heq => ?_⟩
    obtain ⟨ts, hts, htype⟩ := hread' (by omega)
    obtain ⟨us, hus, hmade⟩ := hread'' (by omega)
    refine hmake (by omega) heq ?_ (hmade ts htype)
    rw [hts, Input.rest_eq_cons hlt, hus]
    simp
  · simp only [Attempt.meets_needIdentifier, hid]
    exact .push (by omega) (Nat.le_refl _)

/-- An alias stands in front of its equals sign, or there is none. -/
theorem usingAlias_yields (p : Nat) : Parse.Yields input usingAlias p Derives.Alias := by
  intro d
  by_cases halias : (input.tokenAt p).kind = Kind.identifier ∧ (input.tokenAt (p + 1)).text = "="
  · have hlt := Input.lt_size_of_kind halias.1 (by decide)
    have hlt' := Input.lt_size_of_text_ne (p := p + 1) (by rw [halias.2]; decide)
    simp only [usingAlias, meets_bind, meets_current, halias, meets_peek_one]
    refine ⟨p + 2, d, rfl, Nat.le_refl _, fun _ => ⟨_, ?_, .present halias.1 halias.2⟩⟩
    rw [Input.rest_eq_cons hlt, Input.rest_eq_cons hlt']
    rfl
  · simp only [usingAlias, Bool.and_eq_true, decide_eq_true_eq, meets_bind, meets_current,
      meets_peek_one, halias]
    exact .nothing .absent

theorem usingTarget_yields (isStatic : Bool) (p : Nat) :
    Attempt.Yields 1 input (usingTarget rules isStatic) p (Derives.UsingTarget isStatic) := by
  intro d
  simp only [usingTarget, Attempt.meets_bind, Attempt.meets_orNone, Attempt.meets_liftM,
    Attempt.meets_lift]
  refine (usingAlias_yields p).meets fun aliasName q e he hread => ?_
  refine (qualifiedName_yields q).meets (fun target r f hf hread' => ?_) fun r f hf => ?_
  · by_cases hsemi : (input.tokenAt r).isSymbol ";"
    · have hlt := Input.lt_size_of_isSymbol hsemi
      simp only [meets_close, hsemi, if_true]
      refine ⟨r + 1, f, rfl, by omega, fun heq => ?_⟩
      obtain ⟨as, has, halias⟩ := hread (by omega)
      obtain ⟨ns, hns, htarget⟩ := hread' (by omega)
      refine ⟨_, ?_, .mk halias htarget hsemi⟩
      rw [has, hns, Input.rest_eq_cons hlt]
      simp
    · simp only [meets_close, hsemi]
      exact .push (by omega)
  · simp only [meets_current, meets_report]
    exact .push (by omega) (Nat.le_refl _)

theorem usingDirective_yields (p : Nat) :
    Attempt.Yields 1 input (usingDirective rules) p Derives.Using := by
  intro d
  by_cases husing : (input.tokenAt p).isKeyword "using"
  · have hlt := Input.lt_size_of_isKeyword husing
    by_cases hstatic : (input.tokenAt (p + 1)).isKeyword "static"
    · have hlt' := Input.lt_size_of_isKeyword hstatic
      simp only [usingDirective, Attempt.meets_bind, Attempt.meets_liftM, Attempt.meets_needKeyword,
        husing, meets_current, hstatic]
      refine (usingTarget_yields true (p + 2)).meets (fun directive q e he hread => ?_)
        fun q e he => .at he
      refine ⟨q, e, rfl, he, fun heq => ?_⟩
      obtain ⟨ts, hts, htarget⟩ := hread heq
      refine ⟨_, ?_, .mk husing (.present hstatic) htarget⟩
      rw [Input.rest_eq_cons hlt, Input.rest_eq_cons hlt', hts]
      rfl
    · simp only [usingDirective, Attempt.meets_bind, Attempt.meets_liftM, Attempt.meets_needKeyword,
        husing, meets_current, hstatic]
      refine (usingTarget_yields false (p + 1)).meets (fun directive q e he hread => ?_)
        fun q e he => .at he
      refine ⟨q, e, rfl, he, fun heq => ?_⟩
      obtain ⟨ts, hts, htarget⟩ := hread heq
      refine ⟨_, ?_, .mk husing .absent htarget⟩
      rw [Input.rest_eq_cons hlt, hts]
      rfl
  · simp only [usingDirective, Attempt.meets_bind, Attempt.meets_needKeyword, husing]
    exact .push (Nat.le_refl _) (Nat.le_refl _)

theorem bodyMember_yields (hr : rules.Sound input) (inNamespace : Bool) (p : Nat) :
    Attempt.Yields 1 input (bodyMember rules inNamespace) p (Derives.BodyMember inNamespace) := by
  intro d
  by_cases husing : inNamespace = true ∧ (input.tokenAt p).isKeyword "using" = true
  · obtain ⟨rfl, hword⟩ := husing
    simp only [bodyMember, Attempt.meets_bind, Attempt.meets_ite, Attempt.meets_liftM,
      meets_current, hword]
    refine (usingDirective_yields p).meets (fun directive q e he hread => ?_) fun q e he => .at he
    refine ⟨q, e, rfl, he, fun heq => ?_⟩
    obtain ⟨ts, hts, hdirective⟩ := hread heq
    exact ⟨ts, hts, .usingDirective hdirective⟩
  · simp only [bodyMember, Bool.and_eq_true, Attempt.meets_bind, Attempt.meets_liftM, meets_current,
      husing]
    exact member_yields hr inNamespace p d

/-- Without a report every round gives one member. -/
theorem membersFrom_yields (hr : rules.Sound input) (inNamespace : Bool) : ∀ n p,
    Parse.Yields input (membersFrom rules inNamespace n) p (Derives.MemberList inNamespace)
  | 0, p => fun _ => trivial
  | n + 1, p => by
      intro d
      by_cases hend : input.size ≤ p
      · simp only [membersFrom, meets_bind, meets_atEnd, hend]
        exact .nothing .nil
      by_cases hclose : (input.tokenAt p).isSymbol closeBrace
      · simp only [membersFrom, meets_bind, meets_ite, meets_atEnd, hend, meets_current, hclose]
        exact .nothing .nil
      simp only [membersFrom, meets_bind, meets_ite, Attempt.meets_run, meets_atEnd, hend,
        meets_current, hclose]
      refine (bodyMember_yields hr inNamespace p).meets (fun made q e he hread => ?_)
        fun q e he => ?_
      · rcases Nat.lt_or_eq_of_le he with hlt | heq
        · refine meets_recover_keeps.mono fun _ t => ?_
          rintro ⟨r, rfl⟩
          refine (membersFrom_yields hr inNamespace n r).meets fun members u g hg _ => ?_
          exact .reported (by omega)
        -- without a report there is nothing to recover from, as a member takes a token
        obtain ⟨ts, hts, hmade⟩ := hread heq.symm
        have hpq := Input.lt_of_rest_eq hts hmade.ne_nil
        refine meets_recover_quiet (by simp; omega) heq.symm ?_
        refine (membersFrom_yields hr inNamespace n q).meets fun members r f hf hread' => ?_
        refine ⟨r, f, rfl, by omega, fun heq' => ?_⟩
        obtain ⟨us, hus, hmembers⟩ := hread' (by omega)
        exact ⟨ts ++ us, by rw [hts, hus, List.append_assoc], .cons hmade hmembers⟩
      · refine meets_recover_keeps.mono fun _ t => ?_
        rintro ⟨r, rfl⟩
        refine (membersFrom_yields hr inNamespace n r).meets fun members u g hg _ => ?_
        exact .reported (by omega)

/-- A class that is complete stands between its braces, behind name, parameters and bases. -/
theorem classDeclaration_yields (hr : rules.Sound input) (mods : List String) (p : Nat) :
    Attempt.Yields 1 input (classDeclaration rules mods) p (Derives.Class mods) := by
  intro d
  by_cases hclass : (input.tokenAt p).isKeyword "class"
  · have hlt := Input.lt_size_of_isKeyword hclass
    by_cases hid : (input.tokenAt (p + 1)).kind = Kind.identifier
    · have hlt' := Input.lt_size_of_kind hid (by decide)
      simp only [classDeclaration, Attempt.meets_bind, Attempt.meets_liftM, meets_current,
        Attempt.meets_needKeyword, hclass, Attempt.meets_needIdentifier, hid]
      refine (genericNames_yields (p + 2)).meets (fun generics q e he hread => ?_)
        fun q e he => .at he
      refine (bases_yields hr q).meets fun bases r f hf hread' => ?_
      by_cases hopen : (input.tokenAt r).isSymbol openBrace
      · have hltr := Input.lt_size_of_isSymbol hopen
        simp only [Attempt.meets_needSymbol, hopen]
        refine (membersFrom_yields hr false _ (r + 1)).meets fun members u g hg hread'' => ?_
        by_cases hclose : (input.tokenAt u).isSymbol closeBrace
        · have hltu := Input.lt_size_of_isSymbol hclose
          simp only [meets_close, hclose, if_true]
          refine ⟨u + 1, g, rfl, by omega, fun heq => ?_⟩
          obtain ⟨gs, hgs, hgenerics⟩ := hread (by omega)
          obtain ⟨bs, hbs, hbases⟩ := hread' (by omega)
          obtain ⟨ms, hms, hmembers⟩ := hread'' (by omega)
          refine ⟨_, ?_, .mk hclass hid hgenerics hbases (.mk hopen hmembers hclose)⟩
          rw [Input.rest_eq_cons hlt, Input.rest_eq_cons hlt', hgs, hbs, Input.rest_eq_cons hltr,
            hms, Input.rest_eq_cons hltu]
          simp
        · simp only [meets_close, hclose]
          exact .push (by omega)
      · simp only [Attempt.meets_needSymbol, hopen]
        exact .push (by omega) (Nat.le_refl _)
    · simp only [classDeclaration, Attempt.meets_bind, Attempt.meets_liftM, meets_current,
        Attempt.meets_needKeyword, hclass, Attempt.meets_needIdentifier, hid]
      exact .push (Nat.le_refl _) (Nat.le_refl _)
  · simp only [classDeclaration, Attempt.meets_bind, Attempt.meets_liftM, meets_current,
      Attempt.meets_needKeyword, hclass]
    exact .push (Nat.le_refl _) (Nat.le_refl _)

/-- A namespace ends at a semicolon or stands between its braces. -/
theorem namespaceDeclaration_yields (hr : rules.Sound input) (p : Nat) :
    Attempt.Yields 1 input (namespaceDeclaration rules) p Derives.Primary := by
  intro d
  by_cases hspace : (input.tokenAt p).isKeyword "namespace"
  · have hlt := Input.lt_size_of_isKeyword hspace
    simp only [namespaceDeclaration, Attempt.meets_bind, Attempt.meets_orNone, Attempt.meets_ite,
      Attempt.meets_liftM, meets_current, Attempt.meets_needKeyword, hspace]
    refine (qualifiedName_yields (p + 1)).meets (fun name q e he hread => ?_) fun q e he => ?_
    · by_cases hsemi : (input.tokenAt q).isSymbol ";"
      · have hlt' := Input.lt_size_of_isSymbol hsemi
        simp only [meets_current, hsemi]
        refine ⟨q + 1, e, rfl, he, fun heq => ?_⟩
        obtain ⟨ts, hts, hname⟩ := hread heq
        refine ⟨_, ?_, .fileNamespace hspace hname hsemi⟩
        rw [Input.rest_eq_cons hlt, hts, Input.rest_eq_cons hlt']
        simp
      by_cases hopen : (input.tokenAt q).isSymbol openBrace
      · have hlt' := Input.lt_size_of_isSymbol hopen
        simp only [meets_current, hsemi, Attempt.meets_needSymbol, hopen]
        refine (membersFrom_yields hr true _ (q + 1)).meets fun members r f hf hread' => ?_
        by_cases hclose : (input.tokenAt r).isSymbol closeBrace
        · have hltr := Input.lt_size_of_isSymbol hclose
          simp only [meets_close, hclose, if_true]
          refine ⟨r + 1, f, rfl, by omega, fun heq => ?_⟩
          obtain ⟨ts, hts, hname⟩ := hread (by omega)
          obtain ⟨us, hus, hmembers⟩ := hread' (by omega)
          refine ⟨_, ?_, .namespaceBody hspace hname (.mk hopen hmembers hclose)⟩
          rw [Input.rest_eq_cons hlt, hts, Input.rest_eq_cons hlt', hus,
            Input.rest_eq_cons hltr]
          simp
        · simp only [meets_close, hclose]
          exact .push (by omega)
      · simp only [meets_current, hsemi, Attempt.meets_needSymbol, hopen]
        exact .push (by omega) (Nat.le_refl _)
    · simp only [meets_reportFound]
      exact .push (by omega) (Nat.le_refl _)
  · simp only [namespaceDeclaration, Attempt.meets_bind, Attempt.meets_liftM, meets_current,
      Attempt.meets_needKeyword, hspace]
    exact .push (Nat.le_refl _) (Nat.le_refl _)

/-! ## Expressions -/

theorem templateLiteral_yields (hkind : (input.tokenAt p).kind = Kind.template) :
    Attempt.Yields 1 input templateLiteral p Derives.Primary := by
  intro d
  have hlt := Input.lt_size_of_kind hkind (by decide)
  simp only [templateLiteral, Attempt.meets_bind, Attempt.meets_liftM, meets_current, hkind]
  refine ⟨p + 1, d, rfl, Nat.le_refl _, fun _ => ⟨[input.tokenAt p], ?_, .template hkind⟩⟩
  rw [Input.rest_eq_cons hlt]
  rfl

/-- The increments that are read carry on whatever derives the operand in front of them. -/
theorem postfixes_yields : ∀ (n p : Nat) (left : Node),
    Parse.Yields input (postfixes n left) p fun us node =>
      ∀ ts, Derives.Postfix ts left → Derives.Postfix (ts ++ us) node
  | 0, p, _ => fun _ => trivial
  | n + 1, p, left => by
      intro d
      simp only [postfixes, meets_bind, meets_current]
      refine .ite (fun hop => ?_) fun _ => ?_
      · have hop' := Bool.or_eq_true_iff.mp hop
        have hlt : p < input.size := by
          rcases hop' with h | h
          · exact Input.lt_size_of_isSymbol h
          · exact Input.lt_size_of_isSymbol h
        simp only [meets_bind, meets_advance]
        refine (postfixes_yields n (p + 1) _).meets fun node q e he hread => ?_
        refine ⟨q, e, rfl, he, fun heq => ?_⟩
        obtain ⟨us, hus, hnode⟩ := hread heq
        refine ⟨input.tokenAt p :: us, ?_, fun ts hleft => ?_⟩
        · rw [Input.rest_eq_cons hlt, hus]
          rfl
        · simpa using hnode _ (.postfixed hleft hop')
      · refine .nothing fun ts hleft => ?_
        rwa [List.append_nil]

/-- Behind a chain stand increments and perhaps an assignment. -/
theorem identifierExpression_yields (hr : rules.Sound input)
    (hid : (input.tokenAt p).kind = Kind.identifier) :
    Attempt.Yields 1 input (identifierExpression rules) p Derives.Primary := by
  intro d
  simp only [identifierExpression, Attempt.meets_bind, Attempt.meets_liftM]
  refine (accessChain_yields hr hid).meets (fun chain q e he hread => ?_) fun q e he => .at he
  refine (postfixes_yields _ q _).meets fun left r f hf hread' => ?_
  -- the chain and its increments, as one
  have hleft : f.size = d.size → ∃ ts, input.rest p = ts ++ input.rest r ∧
      Derives.Postfix ts left := by
    intro heq
    obtain ⟨ts, hts, hchain⟩ := hread (by omega)
    obtain ⟨us, hus, hpost⟩ := hread' (by omega)
    exact ⟨ts ++ us, by rw [hts, hus, List.append_assoc], hpost ts hchain⟩
  by_cases hassign : (input.tokenAt r).isSymbol "="
  · have hlt := Input.lt_size_of_isSymbol hassign
    simp only [Attempt.meets_ite, Attempt.meets_bind, Attempt.meets_liftM, meets_current, hassign,
      meets_advance]
    refine (hr.expression 0 (r + 1)).meets (fun right u g hg hread'' => ?_)
      fun u g hg => .at (by omega)
    refine ⟨u, g, rfl, by omega, fun heq => ?_⟩
    obtain ⟨ts, hts, hpost⟩ := hleft (by omega)
    obtain ⟨us, hus, hright⟩ := hread'' (by omega)
    refine ⟨_, ?_, .identifier (.assignment hpost hassign hright)⟩
    rw [hts, Input.rest_eq_cons hlt, hus]
    simp
  · simp only [meets_current, hassign]
    refine ⟨r, f, rfl, by omega, fun heq => ?_⟩
    obtain ⟨ts, hts, hpost⟩ := hleft heq
    exact ⟨ts, hts, .identifier (.value hpost)⟩

theorem parenthesized_yields (hr : rules.Sound input) (hopen : (input.tokenAt p).isSymbol "(") :
    Attempt.Yields 1 input (parenthesized rules) p Derives.Primary := by
  intro d
  have hlt := Input.lt_size_of_isSymbol hopen
  simp only [parenthesized, Attempt.meets_bind, Attempt.meets_liftM, meets_advance]
  refine (hr.expression 0 (p + 1)).meets (fun inner q e he hread => ?_) fun q e he => .at he
  by_cases hclose : (input.tokenAt q).isSymbol ")"
  · have hlt' := Input.lt_size_of_isSymbol hclose
    simp only [Attempt.meets_needSymbol, hclose]
    refine ⟨q + 1, e, rfl, he, fun heq => ?_⟩
    obtain ⟨ts, hts, hinner⟩ := hread heq
    refine ⟨_, ?_, .parentheses hopen hinner hclose⟩
    rw [Input.rest_eq_cons hlt, hts, Input.rest_eq_cons hlt']
    simp
  · simp only [Attempt.meets_needSymbol, hclose]
    exact .push he (Nat.le_refl _)

/-- Without plugins, what begins no rule of the grammar is reported. -/
theorem extensionExpression_yields (token : Token) (p : Nat) :
    Attempt.Yields 1 input (extensionExpression .none rules token) p Derives.Primary := by
  intro d
  simp only [extensionExpression, Hooks.none, firstExtension, Attempt.meets_bind,
    Attempt.meets_orNone, Attempt.meets_pure, Attempt.meets_failure, Attempt.meets_liftM,
    meets_cursor, meets_reportAt]
  exact .push (Nat.le_refl _) (Nat.le_refl _)

/-- The token under the cursor tells which form an operand has. -/
theorem primary_yields (hr : rules.Sound input) (p : Nat) :
    Attempt.Yields 1 input (primary .none rules) p Derives.Primary := by
  intro d
  simp only [primary, Attempt.meets_bind, Attempt.meets_liftM, meets_current]
  refine .ite (fun hlit => ?_) fun _ => ?_
  · have hlt : p < input.size := Input.lt_size_of_kind_ne fun he => by
      rw [he] at hlit
      exact absurd hlit (by decide)
    refine ⟨p + 1, d, rfl, Nat.le_refl _, fun _ => ⟨[input.tokenAt p], ?_, .literal ?_⟩⟩
    · rw [Input.rest_eq_cons hlt]
      rfl
    · simpa using hlit
  refine .ite (fun hid => identifierExpression_yields hr hid d) fun _ => ?_
  refine .ite (fun hopen => parenthesized_yields hr hopen d) fun _ => ?_
  refine .ite (fun _ => ?_) fun _ => ?_
  · exact (classDeclaration_yields hr [] p).map _ (fun _ _ => .classDeclaration) d
  refine .ite (fun _ => ?_) fun _ => ?_
  · exact (usingDirective_yields p).map _ (fun _ _ => .usingDirective) d
  refine .ite (fun _ => namespaceDeclaration_yields hr p d) fun _ => ?_
  refine .ite (fun hkind => templateLiteral_yields hkind d) fun _ => ?_
  refine .ite (fun _ => ifStatement_yields hr p d) fun _ => ?_
  refine .ite (fun _ => whileStatement_yields hr p d) fun _ => ?_
  refine .ite (fun _ => ?_) fun _ => extensionExpression_yields _ p d
  simp only [Attempt.meets_bind, Attempt.meets_liftM]
  exact .push (Nat.le_refl _) (Nat.le_refl _)

/-- The operators that are read fold what they stand behind to the left. -/
theorem operators_yields (hr : rules.Sound input) (minimum : Nat) : ∀ (n p : Nat) (left : Node),
    Parse.Yields input (operators rules minimum n left) p fun us node =>
      ∀ ts, Derives.Expr minimum ts left → Derives.Expr minimum (ts ++ us) node
  | 0, p, _ => fun _ => trivial
  | n + 1, p, left => by
      intro d
      have hdone : Reads input p d (fun us => ∀ ts, Derives.Expr minimum ts left →
          Derives.Expr minimum (ts ++ us) left) (.at p d) := by
        refine .nothing fun ts hleft => ?_
        rwa [List.append_nil]
      by_cases hsym : (input.tokenAt p).kind = Kind.symbol
      · have hlt := Input.lt_size_of_kind hsym (by decide)
        cases hop : binaryPrecedence? (input.tokenAt p).text with
        | none =>
            simp only [operators, meets_bind, meets_current, hsym, hop, ne_eq, not_true,
              if_false]
            exact hdone
        | some precedence =>
            by_cases hmin : precedence < minimum
            · simp only [operators, meets_bind, meets_current, hsym, hop, ne_eq, not_true,
                if_false, hmin, if_true]
              exact hdone
            simp only [operators, meets_bind, meets_ite, meets_current, hsym, hop, hmin,
              Attempt.meets_run, meets_advance]
            refine (hr.expression _ (p + 1)).meets (fun right q e he hread => ?_)
              fun q e he => .reported (by omega)
            refine (operators_yields hr minimum n q _).meets fun node r f hf hread' => ?_
            refine ⟨r, f, rfl, by omega, fun heq => ?_⟩
            obtain ⟨us, hus, hright⟩ := hread (by omega)
            obtain ⟨vs, hvs, hnode⟩ := hread' (by omega)
            refine ⟨input.tokenAt p :: us ++ vs, ?_, fun ts hleft => ?_⟩
            · rw [Input.rest_eq_cons hlt, hus, hvs]
              simp
            -- the operator and its right operand join the operand on the left, and the loop goes on
            · have hbinary := hnode _ (.binary hleft hsym hop (by omega) hright)
              simpa using hbinary
      · simp only [operators, meets_bind, meets_current, hsym, ne_eq, not_false_eq_true, if_true]
        exact hdone

theorem operand_yields (hr : rules.Sound input) (p : Nat) :
    Attempt.Yields 1 input (operand .none rules) p Derives.Operand := by
  intro d
  simp only [operand, Attempt.meets_bind, Attempt.meets_liftM, meets_current]
  refine .ite (fun hop => ?_) fun _ => ?_
  · simp only [Bool.and_eq_true, decide_eq_true_eq, List.contains_iff_mem] at hop
    have hlt := Input.lt_size_of_kind hop.1 (by decide)
    simp only [Attempt.meets_bind, Attempt.meets_liftM, meets_advance]
    refine (hr.expression _ (p + 1)).meets (fun node q e he hread => ?_) fun q e he => .at he
    refine ⟨q, e, rfl, he, fun heq => ?_⟩
    obtain ⟨ts, hts, hnode⟩ := hread heq
    refine ⟨_, ?_, .prefixed hop.1 hop.2 hnode⟩
    rw [Input.rest_eq_cons hlt, hts]
    rfl
  · refine (primary_yields hr p).meets (fun node q e he hread => ?_) fun q e he => .at he
    refine ⟨q, e, rfl, he, fun heq => ?_⟩
    obtain ⟨ts, hts, hnode⟩ := hread heq
    exact ⟨ts, hts, .primary hnode⟩

/-- An operand and the operators behind it derive an expression. -/
theorem expression_yields (hr : rules.Sound input) (minimum p : Nat) :
    Attempt.Yields 1 input (expression .none rules minimum) p (Derives.Expr minimum) := by
  intro d
  simp only [expression, Attempt.meets_bind, Attempt.meets_liftM]
  refine (operand_yields hr p).meets (fun left q e he hread => ?_) fun q e he => .at he
  refine (operators_yields hr minimum _ q left).meets fun node r f hf hread' => ?_
  refine ⟨r, f, rfl, by omega, fun heq => ?_⟩
  obtain ⟨ts, hts, hleft⟩ := hread (by omega)
  obtain ⟨us, hus, hnode⟩ := hread' (by omega)
  exact ⟨ts ++ us, by rw [hts, hus, List.append_assoc], hnode ts (.operand hleft)⟩

/-! ## Levels and programs -/

theorem Rules.sound_bottom (budget : Nat) : (Rules.bottom budget).Sound input where
  expression _ _ _ := trivial
  classDeclaration _ _ _ := trivial
  typeExpression _ _ := trivial

theorem Rules.Sound.next (hr : rules.Sound input) : (Rules.next .none rules).Sound input where
  expression m p := expression_yields hr m p
  classDeclaration mods p := classDeclaration_yields hr mods p
  typeExpression p := typeExpression_yields hr p

/-- All levels of a parser without plugins are sound. -/
theorem Rules.sound_ofDepth (budget depth : Nat) :
    (Rules.ofDepth .none budget depth).Sound input := by
  induction depth with
  | zero => exact sound_bottom budget
  | succ depth ih => exact ih.next

theorem program_yields (hr : rules.Sound input) (p : Nat) :
    Parse.Yields input (program rules) p fun ts tree => Derives.Body ts tree.body := by
  intro d
  simp only [program, meets_bind, meets_pure]
  exact sequenceFrom_yields hr none _ p d

theorem Parser.rules_sound (tokens : List Token) (source : SourceText) (aliases : Aliases) :
    (Parser.new tokens source aliases).rules.Sound (.ofTokens tokens source) :=
  Rules.sound_ofDepth _ _

@[simp] theorem Input.rest_ofTokens (tokens : List Token) (source : SourceText) :
    (Input.ofTokens tokens source).rest 0 = tokens := by
  simp [Input.ofTokens, rest]

/-- **What is accepted is derived.** A parser without plugins reads any tokens to a tree, and where
it reports nothing the grammar derives the tokens, all of them and in order, as that tree. -/
theorem accepted_derives (tokens : List Token) (source : SourceText) (aliases : Aliases) :
    ∃ tree parser', (Parser.new tokens source aliases).run program = (.ok tree, parser') ∧
      (parser'.diagnostics = [] → Derives.Body tokens tree.body) := by
  obtain ⟨tree, reported, hrun⟩ := Parser.program_ends (.new tokens source aliases)
    Hooks.progress_none
  refine ⟨tree, _, hrun, fun hnone => ?_⟩
  have hyields := program_yields (Parser.rules_sound tokens source aliases) 0 #[]
  obtain ⟨q, e, hstate, _, hread⟩ := Parser.post_of_run hyields hrun
  have hcursor : (Input.ofTokens tokens source).size = q :=
    Int.ofNat_inj.mp (congrArg ParseState.cursor hstate)
  have hreported : reported = e := congrArg ParseState.diagnostics hstate
  have hquiet : e.size = 0 := by
    rw [← hreported]
    simpa [Parser.diagnostics, Parser.resumed] using hnone
  -- the parse has ended at the end of its tokens, so that what it has read is all of them
  obtain ⟨ts, hts, hbody⟩ := hread hquiet
  rw [Input.rest_ofTokens, Input.rest_eq_nil (Nat.le_of_eq hcursor), List.append_nil] at hts
  rwa [hts]

/-- An index with a chain inside it, an increment behind it and no semicolon. -/
theorem accepted_derives_increment :
    ∃ tree : Program, Derives.Body [⟨.identifier, "a", 0⟩, ⟨.symbol, "[", 1⟩,
      ⟨.identifier, "b", 2⟩, ⟨.symbol, "]", 3⟩, ⟨.symbol, "++", 4⟩] tree.body := by
  obtain ⟨tree, parser', hrun, hderives⟩ := accepted_derives [⟨.identifier, "a", 0⟩,
    ⟨.symbol, "[", 1⟩, ⟨.identifier, "b", 2⟩, ⟨.symbol, "]", 3⟩, ⟨.symbol, "++", 4⟩]
    (.ofText "a[b]++" "main.cs") .builtin
  refine ⟨tree, hderives ?_⟩
  have hparser : _ = parser' := congrArg Prod.snd hrun
  rw [← hparser]
  decide +kernel

end SharpSyntax
