import SharpSyntax.Proofs.Progress

/-!
# Where reports are made, and in which order

A parse reports about the token under its cursor, and its cursor only moves on. So reports come in
the order of the tokens they are about. That leaves the token under the cursor: a construct that
reports it does not step over it, and what runs next may report it once more.

Every routine is therefore told whether the token it begins at may have been reported already, and
tells whether the token it ends at may have been. Most routines are only begun where nothing was
reported. Those that do report a token a second time say what they say of it in one of a few ways,
`Token.ReportedAgain`: most of all that a construct is not closed.
-/

namespace SharpSyntax

open Parse Attempt

variable {α β : Type} {input : Input} {p q o : Nat} {d e f : Array Diagnostic}
  {before after told : Bool}

/-! ## What is said twice -/

/-- What is said of a token that should have closed a construct, or gone on with it, after a part of
the construct that may have ended in a report about the same token. -/
def closingTemplates : List String := [
  "Expected closing parenthesis for argument list at %POS, got %TYPE: %VAL.",
  "Expected closing bracket in access expression at %POS, got %TYPE: %VAL.",
  "Expected closing parenthesis at %POS, found %TYPE: %VAL",
  "Expected > to close type list at %POS got %TYPE: %VAL",
  "Expected \";\" after using directive at %POS, got %TYPE: %VAL.",
  "Expected identifier for class/namespace member name at %POS got %TYPE: %VAL",
  "Expected \"\x7b\" to start class body at %POS, got %TYPE: %VAL",
  "Expected \"\x7b\" to start namespace body at %POS, got %TYPE: %VAL",
  "Expected \"\x7d\" to close statement body at %POS, got %TYPE: %VAL",
  "Expected \"\x7d\" to close class body at %POS, got %TYPE: %VAL",
  "Expected \"\x7d\" to close namespace body at %POS, got %TYPE: %VAL"]

/-- Braces begin and end bodies, and a method body counts them. -/
def Token.IsBrace (token : Token) : Prop :=
  token.isSymbol openBrace = true ∨ token.isSymbol closeBrace = true

/-- The messages that a token may get after another report about it. -/
inductive Token.ReportedAgain (token : Token) : String → Prop
  /-- A construct is not closed or does not go on. -/
  | closing {template : String} (h : template ∈ closingTemplates) :
      ReportedAgain token (fillTemplate template token)
  /-- The condition of a statement is not closed. -/
  | condition (keyword : String) : ReportedAgain token (fillTemplate
      s!"Expected \")\" after {keyword} condition at %POS, got %TYPE: %VAL." token)
  /-- The parameters of a method are followed by no body. -/
  | methodEnd : ReportedAgain token
      s!"Expected '\x7b' or ';' after method declaration at {token.offset}"
  /-- A method body is not closed. -/
  | bodyEnd : ReportedAgain token s!"Expected '\x7d' to close method body at {token.offset}"
  /-- A brace inside a method body begins no statement. -/
  | brace (h : token.IsBrace) : ReportedAgain token
      s!"Unexpected token at {token.offset}: {token.kind.name} \"{token.text}\""

/-! ## Reports in order -/

/-- The list continues `d` by reports about tokens from the place `o` on and in front of `k`. Each
is about a token behind those reported before it, unless it is of those that are made again. -/
inductive Input.Reports (input : Input) (o : Nat) (d : Array Diagnostic) :
    Nat → Array Diagnostic → Prop
  | silent {k : Nat} (hk : o ≤ k) : Reports input o d k d
  | first {p k : Nat} {e : Array Diagnostic} {message code : String}
      (h : Reports input o d p e) (hk : p < k) :
      Reports input o d k (e.push (input.errorAt p message code))
  | again {p k : Nat} {e : Array Diagnostic} {message code : String}
      (h : Reports input o d (p + 1) e) (hp : o ≤ p) (hk : p < k)
      (hmessage : (input.tokenAt p).ReportedAgain message) :
      Reports input o d k (e.push (input.errorAt p message code))

namespace Input.Reports

variable {k l : Nat} {message code : String}

theorem mono (h : input.Reports o d k e) (hle : k ≤ l) : input.Reports o d l e := by
  cases h with
  | silent hk => exact .silent (Nat.le_trans hk hle)
  | first h hk => exact .first h (Nat.lt_of_lt_of_le hk hle)
  | again h hp hk hmessage => exact .again h hp (Nat.lt_of_lt_of_le hk hle) hmessage

theorem origin_le (h : input.Reports o d k e) : o ≤ k := by
  induction h with
  | silent hk => exact hk
  | first _ hk ih => exact Nat.le_trans ih (Nat.le_of_lt hk)
  | again _ hp hk _ _ => exact Nat.le_trans hp (Nat.le_of_lt hk)

/-- The token under the cursor is reported; if it was before, this is one of the reports that are
made again. -/
theorem push (h : input.Reports o d (p + told.toNat) e) (hp : o ≤ p)
    (hagain : told = true → (input.tokenAt p).ReportedAgain message) :
    input.Reports o d (p + 1) (e.push (input.errorAt p message code)) := by
  cases told with
  | false => exact .first h (Nat.lt_succ_self p)
  | true => exact .again h hp (Nat.lt_succ_self p) (hagain rfl)

/-- Stepping over a token leaves it behind, reported or not. -/
theorem step (h : input.Reports o d (p + told.toNat) e) : input.Reports o d (p + 1) e :=
  h.mono (Nat.add_le_add_left (Bool.toNat_le told) p)

/-- Where the last report is not about the token under the cursor, none is. -/
theorem fresh_of_back_ne (h : input.Reports o d (p + 1) e) (hp : o ≤ p)
    (hback : e.back?.map Diagnostic.offset ≠ some ((input.tokenAt p).offset : Int)) :
    input.Reports o d p e := by
  have hne : ∀ {q : Nat} {e : Array Diagnostic} {message code : String},
      ((e.push (input.errorAt q message code)).back?.map Diagnostic.offset ≠
        some ((input.tokenAt p).offset : Int)) → q < p + 1 → q < p := by
    intro q e message code hback hlt
    rcases Nat.lt_or_eq_of_le (Nat.le_of_lt_succ hlt) with hlt' | rfl
    · exact hlt'
    · rw [Array.back?_push] at hback
      exact absurd rfl hback
  cases h with
  | silent hk => exact .silent hp
  | first h hk => exact .first h (hne hback hk)
  | again h hp' hk hmessage => exact .again h hp' (hne hback hk) hmessage

end Input.Reports

/-! ## Routines that report in order -/

/-- The state is from `p` on, and its diagnostics continue `e` by reports about tokens in front of
its own; the token at its own place may have been reported only if `told`. -/
def Input.Told (input : Input) (o : Nat) (d : Array Diagnostic) (p : Nat) (e : Array Diagnostic)
    (told : Bool) (t : ParseState) : Prop :=
  ∃ q f, t = .at q f ∧ p ≤ q ∧ Extends e f ∧ input.Reports o d (q + told.toNat) f

/-- Reports that were in order when the step began are in order where it ends. `before` and `after`
say whether the token under the cursor may have been reported. -/
def Parse.Tells (input : Input) (x : Parse α) (p : Nat) (before after : Bool) : Prop :=
  ∀ o d e, o ≤ p → input.Reports o d (p + before.toNat) e →
    Parse.Meets True input x (.at p e) fun _ => input.Told o d p e after

/-- The same of a step that may decline: `made` and `declined` are for the two ways in which it may
end. -/
def Attempt.Tells (input : Input) (x : Attempt α) (p : Nat) (before made declined : Bool) : Prop :=
  ∀ o d e, o ≤ p → input.Reports o d (p + before.toNat) e →
    Attempt.Meets True input x (.at p e) (fun _ => input.Told o d p e made)
      (input.Told o d p e declined)

namespace Input.Told

theorem here (h : input.Reports o d (p + told.toNat) e) : input.Told o d p e told (.at p e) :=
  ⟨p, e, rfl, Nat.le_refl p, .refl e, h⟩

theorem from_le {t : ParseState} (h : input.Told o d q f told t) (hpq : p ≤ q)
    (hef : Extends e f) : input.Told o d p e told t := by
  obtain ⟨r, g, rfl, hqr, hfg, hg⟩ := h
  exact ⟨r, g, rfl, Nat.le_trans hpq hqr, hef.trans hfg, hg⟩

theorem weaken {t : ParseState} (h : input.Told o d p e told t) : input.Told o d p e true t := by
  obtain ⟨q, f, rfl, hpq, hef, hf⟩ := h
  exact ⟨q, f, rfl, hpq, hef, hf.step⟩

theorem next (h : input.Reports o d (p + told.toNat) e) :
    input.Told o d p e after (.at (p + 1) e) :=
  ⟨p + 1, e, rfl, Nat.le_succ p, .refl e, h.step.mono (Nat.le_add_right _ _)⟩

theorem push {message code : String} (h : input.Reports o d (p + told.toNat) e) (hp : o ≤ p)
    (hagain : told = true → (input.tokenAt p).ReportedAgain message) :
    input.Told o d p e true (.at p (e.push (input.errorAt p message code))) :=
  ⟨p, _, rfl, Nat.le_refl p, .push (.refl e) _, h.push hp hagain⟩

end Input.Told

namespace Parse.Tells

variable {x y : Parse α} {end' : Bool} {message template code text : String} {kind : Option Kind}
  {wanted : Option String}

theorem pure {a : α} : Tells input (pure a) p before true :=
  fun _ _ _ _ h => (Input.Told.here h).weaken

theorem pure_fresh {a : α} : Tells input (Pure.pure a) p false false := fun _ _ _ _ h => .here h

theorem endless : Tells input (endless : Parse α) p before after := fun _ _ _ _ _ => trivial

/-- What may begin at a reported token may begin at any. -/
theorem anyway (h : Tells input x p true after) : Tells input x p before after :=
  fun o d e ho he => h o d e ho he.step

theorem bind {next : α → Parse β} (h : Tells input x p before told)
    (hnext : ∀ a q, p ≤ q → Tells input (next a) q told after) :
    Tells input (x >>= next) p before after := by
  intro o d e ho he
  rw [meets_bind]
  refine Meets.mono (h o d e ho he) fun a t => ?_
  rintro ⟨q, f, rfl, hpq, hef, hf⟩
  exact (hnext a q hpq o d f (Nat.le_trans ho hpq) hf).mono fun _ _ ht => ht.from_le hpq hef

theorem ite {c : Prop} [Decidable c] (hyes : c → Tells input x p before after)
    (hno : ¬c → Tells input y p before after) :
    Tells input (if c then x else y) p before after := by
  split
  · next h => exact hyes h
  · next h => exact hno h

theorem current {next : Token → Parse β}
    (h : Tells input (next (input.tokenAt p)) p before after) :
    Tells input (current >>= next) p before after := by
  intro o d e ho he
  rw [meets_bind, meets_current]
  exact h o d e ho he

theorem atEnd {next : Bool → Parse β} (h : ∀ stop, Tells input (next stop) p before after) :
    Tells input (atEnd >>= next) p before after := by
  intro o d e ho he
  rw [meets_bind, meets_atEnd]
  exact h _ o d e ho he

/-- Behind a token that was stepped over nothing was reported yet. -/
theorem advance {next : Unit → Parse β} (h : Tells input (next ()) (p + 1) false after) :
    Tells input (advance >>= next) p before after := by
  intro o d e ho he
  rw [meets_bind, meets_advance]
  refine (h o d e (Nat.le_succ_of_le ho) he.step).mono fun _ _ ht => ?_
  exact ht.from_le (Nat.le_succ p) (.refl e)

theorem consume {next : Token → Parse β}
    (h : Tells input (next (input.tokenAt p)) (p + 1) false after) :
    Tells input (consume >>= next) p before after := by
  intro o d e ho he
  rw [meets_bind, meets_consume]
  refine (h o d e (Nat.le_succ_of_le ho) he.step).mono fun _ _ ht => ?_
  exact ht.from_le (Nat.le_succ p) (.refl e)

/-- A token of which nothing was said is reported. -/
theorem report : Tells input (report message code) p false true := by
  intro o d e ho he
  rw [meets_report]
  exact .push he ho nofun

theorem reportFound : Tells input (reportFound template code) p false true := by
  intro o d e ho he
  rw [meets_reportFound]
  exact .push he ho nofun

/-- A token is reported that may have been reported before. -/
theorem reportAgain (hagain : (input.tokenAt p).ReportedAgain message) :
    Tells input (Parse.report message code) p before true := by
  intro o d e ho he
  rw [meets_report]
  exact .push he ho fun _ => hagain

theorem require {next : Expectation → Parse β}
    (hagain : before = true →
      (input.tokenAt p).ReportedAgain (fillTemplate template (input.tokenAt p)))
    (hfound : (input.tokenAt p).fits kind wanted = true →
      Tells input (next ⟨true, input.tokenAt p, kind, wanted⟩) p before after)
    (hmissing : Tells input (next ⟨false, input.tokenAt p, kind, wanted⟩) p true after) :
    Tells input (require kind wanted template code >>= next) p before after := by
  intro o d e ho he
  rw [meets_bind, meets_require]
  split
  · next hfits => exact hfound hfits o d e ho he
  · refine (hmissing o d _ ho (he.push ho hagain)).mono fun _ _ ht => ?_
    exact ht.from_le (Nat.le_refl p) (.push (.refl e) _)

/-- What is there is not reported. -/
theorem require_found {next : Expectation → Parse β}
    (hfits : (input.tokenAt p).fits kind wanted = true)
    (h : Tells input (next ⟨true, input.tokenAt p, kind, wanted⟩) p before after) :
    Tells input (Parse.require kind wanted template code >>= next) p before after := by
  intro o d e ho he
  rw [meets_bind, meets_require, if_pos hfits]
  exact h o d e ho he

/-- A closing symbol that is not there is reported, and the token in its place may have been. -/
theorem close
    (hagain : (input.tokenAt p).ReportedAgain (fillTemplate template (input.tokenAt p))) :
    Tells input (close text template) p before true := by
  intro o d e ho he
  rw [meets_close]
  split
  · exact .next he
  · exact .push he ho fun _ => hagain

theorem skip : Tells input (skip text) p before before := by
  intro o d e ho he
  rw [meets_skip]
  split
  · exact .next he
  · exact .here he

end Parse.Tells

namespace Attempt.Tells

variable {x y : Attempt α} {made declined made' declined' : Bool} {text template : String}

theorem pure {a : α} : Tells input (pure a) p before true declined :=
  fun _ _ _ _ h => (Input.Told.here h).weaken

theorem pure_fresh {a : α} : Tells input (Pure.pure a) p false false declined :=
  fun _ _ _ _ h => .here h

theorem failure : Tells input (failure : Attempt α) p before made true :=
  fun _ _ _ _ h => (Input.Told.here h).weaken

theorem failure_bind {next : α → Attempt β} :
    Tells input ((Alternative.failure : Attempt α) >>= next) p before made before :=
  fun _ _ _ _ h => .here h

theorem endless : Tells input (Parse.endless : Attempt α) p before made declined :=
  fun _ _ _ _ _ => trivial

/-- What may begin at a reported token may begin at any. -/
theorem anyway (h : Tells input x p true made declined) : Tells input x p before made declined :=
  fun o d e ho he => h o d e ho he.step

theorem bind {next : α → Attempt β} (h : Tells input x p before made declined)
    (hnext : ∀ a q, p ≤ q → Tells input (next a) q made made' declined) :
    Tells input (x >>= next) p before made' declined := by
  intro o d e ho he
  rw [meets_bind]
  refine Meets.mono (h o d e ho he) (fun a t => ?_) fun t ht => ht
  rintro ⟨q, f, rfl, hpq, hef, hf⟩
  exact Meets.mono (hnext a q hpq o d f (Nat.le_trans ho hpq) hf)
    (fun _ _ ht => ht.from_le hpq hef) fun _ ht => ht.from_le hpq hef

theorem map {g : α → β} (h : Tells input x p before true declined) :
    Tells input (g <$> x) p before true declined := by
  rw [map_eq_pure_bind]
  exact h.bind fun _ _ _ => .pure

theorem ite {c : Prop} [Decidable c] (hyes : c → Tells input x p before made declined)
    (hno : ¬c → Tells input y p before made declined) :
    Tells input (if c then x else y) p before made declined := by
  split
  · next h => exact hyes h
  · next h => exact hno h

theorem lift {x : Parse α} (h : Parse.Tells input x p before made) :
    Tells input (OptionT.lift x) p before made declined := by
  intro o d e ho he
  rw [meets_lift]
  exact h o d e ho he

theorem liftM {x : Parse α} (h : Parse.Tells input x p before made) :
    Tells input (liftM x : Attempt α) p before made declined := lift h

theorem current {next : Token → Attempt β}
    (h : Tells input (next (input.tokenAt p)) p before made declined) :
    Tells input (MonadLiftT.monadLift Parse.current >>= next) p before made declined := by
  intro o d e ho he
  rw [meets_bind, meets_liftM, meets_current]
  exact h o d e ho he

theorem atEnd {next : Bool → Attempt β}
    (h : ∀ stop, Tells input (next stop) p before made declined) :
    Tells input (MonadLiftT.monadLift Parse.atEnd >>= next) p before made declined := by
  intro o d e ho he
  rw [meets_bind, meets_liftM, meets_atEnd]
  exact h _ o d e ho he

/-- Goes on behind the token under the cursor. -/
theorem past {x : Attempt α} (h : Tells input x (p + 1) false made declined)
    (ho : o ≤ p) (he : input.Reports o d (p + before.toNat) e) :
    Meets True input x (.at (p + 1) e) (fun _ => input.Told o d p e made)
      (input.Told o d p e declined) :=
  Meets.mono (h o d e (Nat.le_succ_of_le ho) he.step)
    (fun _ _ ht => ht.from_le (Nat.le_succ p) (.refl e))
    fun _ ht => ht.from_le (Nat.le_succ p) (.refl e)

theorem advance {next : Unit → Attempt β}
    (h : Tells input (next ()) (p + 1) false made declined) :
    Tells input (MonadLiftT.monadLift Parse.advance >>= next) p before made declined := by
  intro o d e ho he
  rw [meets_bind, meets_liftM, meets_advance]
  exact h.past ho he

/-- An attempt within an attempt never declines, and what follows it is told by cases. -/
theorem bindOrNone {next : Option α → Attempt β} (h : Tells input x p before made declined)
    (hnone : ∀ q, p ≤ q → Tells input (next none) q declined made' declined')
    (hsome : ∀ a q, p ≤ q → Tells input (next (some a)) q made made' declined') :
    Tells input (orNone x >>= next) p before made' declined' := by
  intro o d e ho he
  rw [meets_bind, meets_orNone]
  refine Meets.mono (h o d e ho he) (fun a t => ?_) fun t => ?_
  · rintro ⟨q, f, rfl, hpq, hef, hf⟩
    exact Meets.mono (hsome a q hpq o d f (Nat.le_trans ho hpq) hf)
      (fun _ _ ht => ht.from_le hpq hef) fun _ ht => ht.from_le hpq hef
  · rintro ⟨q, f, rfl, hpq, hef, hf⟩
    exact Meets.mono (hnone q hpq o d f (Nat.le_trans ho hpq) hf)
      (fun _ _ ht => ht.from_le hpq hef) fun _ ht => ht.from_le hpq hef

/-- What follows an attempt is told by cases. -/
theorem run {next : Option α → Parse β} (h : Tells input x p before made declined)
    (hnone : ∀ q, p ≤ q → Parse.Tells input (next none) q declined after)
    (hsome : ∀ a q, p ≤ q → Parse.Tells input (next (some a)) q made after) :
    Parse.Tells input (x.run >>= next) p before after := by
  intro o d e ho he
  rw [Parse.meets_bind, meets_run]
  refine Meets.mono (h o d e ho he) (fun a t => ?_) fun t => ?_
  · rintro ⟨q, f, rfl, hpq, hef, hf⟩
    exact (hsome a q hpq o d f (Nat.le_trans ho hpq) hf).mono fun _ _ ht => ht.from_le hpq hef
  · rintro ⟨q, f, rfl, hpq, hef, hf⟩
    exact (hnone q hpq o d f (Nat.le_trans ho hpq) hf).mono fun _ _ ht => ht.from_le hpq hef

/-- Where a symbol is needed, the step reports and declines or moves past it. -/
theorem needSymbol {next : Unit → Attempt β}
    (hagain : before = true →
      (input.tokenAt p).ReportedAgain (fillTemplate template (input.tokenAt p)))
    (h : Tells input (next ()) (p + 1) false made true) :
    Tells input (needSymbol text template >>= next) p before made true := by
  intro o d e ho he
  rw [meets_bind, meets_needSymbol]
  split
  · exact h.past ho he
  · exact .push he ho hagain

theorem needIdentifier {next : Token → Attempt β}
    (hagain : before = true →
      (input.tokenAt p).ReportedAgain (fillTemplate template (input.tokenAt p)))
    (h : Tells input (next (input.tokenAt p)) (p + 1) false made true) :
    Tells input (needIdentifier template >>= next) p before made true := by
  intro o d e ho he
  rw [meets_bind, meets_needIdentifier]
  split
  · exact h.past ho he
  · exact .push he ho hagain

/-- A reserved word that is there is stepped over. -/
theorem needKeyword {next : Unit → Attempt β} (hword : (input.tokenAt p).isKeyword text = true)
    (h : Tells input (next ()) (p + 1) false made declined) :
    Tells input (needKeyword text template >>= next) p before made declined := by
  intro o d e ho he
  rw [meets_bind, meets_needKeyword, if_pos hword]
  exact h.past ho he

end Attempt.Tells

/-! ## Recovery -/

/-- At a place where recovery has left off, the token was not reported, unless it is the end of the
input or closes the body around the construct. -/
def Input.Recovered (input : Input) (o : Nat) (d : Array Diagnostic) (stops : List String) (q : Nat)
    (f : Array Diagnostic) : Prop :=
  input.Reports o d q f ∨ input.Reports o d (q + 1) f ∧
    (input.size ≤ q ∨ stops.any (input.tokenAt q).isSymbol = true)

/-- The state is from `p` on, its diagnostics continue `e`, and recovery has left off there. -/
def Input.Settled (input : Input) (o : Nat) (d : Array Diagnostic) (p : Nat) (e : Array Diagnostic)
    (stops : List String) (t : ParseState) : Prop :=
  ∃ q f, t = .at q f ∧ p ≤ q ∧ Extends e f ∧ input.Recovered o d stops q f

section Settled

variable {stops : List String} {t : ParseState}

theorem Input.Recovered.last (h : input.Recovered o d stops q f) : input.Reports o d (q + 1) f := by
  rcases h with h | ⟨h, -⟩
  · exact h.mono (Nat.le_succ q)
  · exact h

/-- A round that is begun there begins at a token that was not reported. -/
theorem Input.Recovered.fresh (h : input.Recovered o d stops q f)
    (hgo : ¬ decide (input.size ≤ q) = true)
    (hstops : ¬ stops.any (input.tokenAt q).isSymbol = true) :
    input.Reports o d q f := by
  rcases h with h | ⟨-, hend | hstop⟩
  · exact h
  · exact absurd (decide_eq_true hend) hgo
  · exact absurd hstop hstops

theorem Input.Settled.here (h : input.Reports o d p e) : input.Settled o d p e stops (.at p e) :=
  ⟨p, e, rfl, Nat.le_refl p, .refl e, .inl h⟩

theorem Input.Settled.from_le (h : input.Settled o d q f stops t) (hpq : p ≤ q)
    (hef : Extends e f) : input.Settled o d p e stops t := by
  obtain ⟨r, g, rfl, hqr, hfg, hg⟩ := h
  exact ⟨r, g, rfl, Nat.le_trans hpq hqr, hef.trans hfg, hg⟩

end Settled

/-- Lists of one size that continue each other are the same. -/
theorem Extends.eq_of_size (h : Extends e f) (hsize : f.size = e.size) : f = e := by
  obtain ⟨new, hnew⟩ := h
  have hlength : new = [] := by
    have := congrArg List.length hnew
    simp only [List.length_append, Array.length_toList] at this
    exact List.eq_nil_of_length_eq_zero (by omega)
  rw [hlength, List.append_nil] at hnew
  exact Array.ext' hnew.symm

/-- Recovery from a construct that began at `p` steps over the token that the construct stalled on
or reported last. -/
theorem Parse.recover_settles {stops : List String} (before : Bool) (ho : o ≤ p)
    (he : input.Reports o d (p + before.toNat) e) (hpq : p ≤ q) (hef : Extends e f)
    (hf : input.Reports o d (q + 1) f) :
    Parse.Meets True input (recover ⟨p, e.size⟩ stops) (.at q f)
      fun _ => input.Settled o d p e stops := by
  simp only [recover, meets_bind, meets_get, ParseState.cursor_at, ParseState.diagnostics_at]
  refine .ite (fun _ => ?_) fun hne => ?_
  · exact ⟨q + 1, f, rfl, Nat.le_succ_of_le hpq, hef, .inl hf⟩
  have hmoved : p < q := by omega
  simp only [meets_bind, meets_atEnd]
  refine .ite (fun hquiet => ?_) fun hgo => ?_
  · simp only [Bool.or_eq_true, decide_eq_true_eq] at hquiet
    rcases hquiet with hsize | hend
    · -- nothing was reported since the construct began, which has taken a token
      obtain rfl := hef.eq_of_size (of_decide_eq_true hsize)
      exact ⟨q, f, rfl, hpq, hef, .inl (he.step.mono hmoved)⟩
    · exact ⟨q, f, rfl, hpq, hef, .inr ⟨hf, .inl hend⟩⟩
  simp only [meets_bind, meets_current]
  refine .ite (fun hback => ?_) fun _ => .ite (fun hstop => ?_) fun _ => ?_
  · exact ⟨q, f, rfl, hpq, hef, .inl (hf.fresh_of_back_ne (Nat.le_trans ho hpq) hback)⟩
  · exact ⟨q, f, rfl, hpq, hef, .inr ⟨hf, .inr hstop⟩⟩
  · exact ⟨q + 1, f, rfl, Nat.le_succ_of_le hpq, hef, .inl hf⟩

end SharpSyntax
