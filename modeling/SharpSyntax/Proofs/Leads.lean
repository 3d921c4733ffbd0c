import SharpSyntax.Proofs.Meets

/-!
# Steps that move on

Without plugins the cursor only ever moves on, whatever is reported. A step *leads* from a place to
one that is at or behind it and that satisfies what is asked of the value it makes; where it
declines, it is only asked to have moved on. Nothing is said of the diagnostics.
-/

namespace SharpSyntax

open Parse Attempt

variable {α β : Type} {input : Input} {p : Nat}

/-- The state is at or behind a place, and its own place satisfies `post`. -/
def ParseState.Ahead (p : Nat) (post : Nat → Prop) (t : ParseState) : Prop :=
  ∃ q e, t = .at q e ∧ p ≤ q ∧ post q

/-- Run from a place, the step moves on to one that satisfies `post`. -/
def Parse.Leads (input : Input) (x : Parse α) (p : Nat) (post : α → Nat → Prop) : Prop :=
  ∀ d, Parse.Meets True input x (.at p d) fun a => ParseState.Ahead p (post a)

/-- Run from a place, the step moves on, and where it makes something to a place that satisfies
`post`. -/
def Attempt.Leads (input : Input) (x : Attempt α) (p : Nat) (post : α → Nat → Prop) : Prop :=
  ∀ d, Attempt.Meets True input x (.at p d) (fun a => ParseState.Ahead p (post a))
    (ParseState.Ahead p fun _ => True)

/-- What is ahead of a place is ahead of every earlier one. -/
theorem ParseState.Ahead.of_le {q : Nat} {post : Nat → Prop} {t : ParseState}
    (h : Ahead q post t) (hle : p ≤ q) : Ahead p post t := by
  obtain ⟨r, e, rfl, hqr, hr⟩ := h
  exact ⟨r, e, rfl, Nat.le_trans hle hqr, hr⟩

/-- A step that does not move ends ahead of where it began. -/
theorem ParseState.Ahead.here {post : Nat → Prop} {d : Array Diagnostic} (h : post p) :
    Ahead p post (.at p d) := ⟨p, d, rfl, Nat.le_refl p, h⟩

theorem ParseState.Ahead.next {post : Nat → Prop} {d : Array Diagnostic} (h : post (p + 1)) :
    Ahead p post (.at (p + 1) d) := ⟨p + 1, d, rfl, Nat.le_succ p, h⟩

namespace Parse.Leads

variable {x y : Parse α} {post : α → Nat → Prop} {post' : β → Nat → Prop}

theorem pure {a : α} (h : post a p) : Leads input (pure a) p post := fun _ => .here h

/-- Where a step stops for good, nothing is asked. -/
theorem endless : Leads input endless p post := fun _ => trivial

/-- What is asked of the place that is reached may be weakened. -/
theorem mono {post' : α → Nat → Prop} (h : Leads input x p post)
    (himp : ∀ a q, post a q → post' a q) : Leads input x p post' := by
  intro d
  refine Meets.mono (h d) fun a t => ?_
  rintro ⟨q, e, rfl, hle, ha⟩
  exact ⟨q, e, rfl, hle, himp a q ha⟩

/-- What begins further on leads on from here. -/
theorem from_le {q : Nat} (h : Leads input x q post) (hle : p ≤ q) (d : Array Diagnostic) :
    Meets True input x (.at q d) fun a => ParseState.Ahead p (post a) :=
  Meets.mono (h d) fun _ _ ht => ht.of_le hle

/-- What follows a step begins where the step led to. -/
theorem bind {next : α → Parse β} (h : Leads input x p post)
    (hnext : ∀ a q, p ≤ q → post a q → Leads input (next a) q post') :
    Leads input (x >>= next) p post' := by
  intro d
  rw [meets_bind]
  refine Meets.mono (h d) fun a t => ?_
  rintro ⟨q, e, rfl, hle, ha⟩
  exact (hnext a q hle ha).from_le hle e

/-- Of a choice, each branch may use what it was chosen for. -/
theorem ite {c : Prop} [Decidable c] (hyes : c → Leads input x p post)
    (hno : ¬c → Leads input y p post) : Leads input (if c then x else y) p post := by
  split
  · next h => exact hyes h
  · next h => exact hno h

/-- What follows may depend on the token that is seen. -/
theorem current {next : Token → Parse β} (h : Leads input (next (input.tokenAt p)) p post') :
    Leads input (current >>= next) p post' := by
  intro d
  rw [meets_bind, meets_current]
  exact h d

theorem atEnd {next : Bool → Parse β} (h : ∀ stop, Leads input (next stop) p post') :
    Leads input (atEnd >>= next) p post' := by
  intro d
  rw [meets_bind, meets_atEnd]
  exact h _ d

theorem mark {next : Mark → Parse β} (h : ∀ start, Leads input (next start) p post') :
    Leads input (mark >>= next) p post' := by
  intro d
  rw [meets_bind, meets_mark]
  exact h _ d

/-- A token is left behind. -/
theorem advance {next : Unit → Parse β} (h : Leads input (next ()) (p + 1) post') :
    Leads input (advance >>= next) p post' := by
  intro d
  rw [meets_bind, meets_advance]
  exact h.from_le (Nat.le_succ p) d

/-- The token that is taken is left behind. -/
theorem consume {next : Token → Parse β} (h : Leads input (next (input.tokenAt p)) (p + 1) post') :
    Leads input (consume >>= next) p post' := by
  intro d
  rw [meets_bind, meets_consume]
  exact h.from_le (Nat.le_succ p) d

variable {message template code text : String} {kind : Option Kind} {wanted : Option String}

/-- What is required and found is still under the cursor. -/
theorem require {next : Expectation → Parse β}
    (hfound : (input.tokenAt p).fits kind wanted = true →
      Leads input (next ⟨true, input.tokenAt p, kind, wanted⟩) p post')
    (hmissing : Leads input (next ⟨false, input.tokenAt p, kind, wanted⟩) p post') :
    Leads input (require kind wanted template code >>= next) p post' := by
  intro d
  rw [meets_bind, meets_require]
  split
  · next hfits => exact hfound hfits d
  · exact hmissing _

theorem reportAt {offset : Int} {length : Nat} :
    Leads input (reportAt message code offset length) p fun _ _ => True :=
  fun _ => .here trivial

theorem report : Leads input (report message code) p fun _ _ => True := by
  intro d
  rw [meets_report]
  exact .here trivial

/-- A report moves nothing. -/
theorem reportFound : Leads input (reportFound template code) p fun _ _ => True := by
  intro d
  rw [meets_reportFound]
  exact .here trivial

/-- A closing symbol is stepped over where it is there. -/
theorem close : Leads input (close text template) p fun _ _ => True := by
  intro d
  rw [meets_close]
  split
  · exact .next trivial
  · exact .here trivial

theorem skip : Leads input (skip text) p fun _ _ => True := by
  intro d
  rw [meets_skip]
  split
  · exact .next trivial
  · exact .here trivial

/-- Recovery steps over a token or over none. -/
theorem recover {start : Mark} {stops : List String} :
    Leads input (recover start stops) p fun _ _ => True := by
  intro d
  simp only [Parse.recover, meets_bind, meets_get]
  refine .ite (fun _ => .next trivial) fun _ => ?_
  simp only [meets_bind, meets_atEnd]
  refine .ite (fun _ => .here trivial) fun _ => ?_
  simp only [meets_bind, meets_current]
  refine .ite (fun _ => .here trivial) fun _ => ?_
  exact .ite (fun _ => .here trivial) fun _ => .next trivial

end Parse.Leads

namespace Attempt.Leads

variable {x y : Attempt α} {post : α → Nat → Prop} {post' : β → Nat → Prop}

theorem pure {a : α} (h : post a p) : Leads input (pure a) p post := fun _ => .here h

/-- Declining is asked nothing but to have moved on. -/
theorem failure : Leads input (failure : Attempt α) p post := fun _ => .here trivial

theorem failure_bind {next : α → Attempt β} :
    Leads input ((Alternative.failure : Attempt α) >>= next) p post' := fun _ => .here trivial

theorem endless : Leads input (Parse.endless : Attempt α) p post := fun _ => trivial

theorem mono {post' : α → Nat → Prop} (h : Leads input x p post)
    (himp : ∀ a q, post a q → post' a q) : Leads input x p post' := by
  intro d
  refine Meets.mono (h d) (fun a t => ?_) fun t ht => ht
  rintro ⟨q, e, rfl, hle, ha⟩
  exact ⟨q, e, rfl, hle, himp a q ha⟩

/-- What begins further on leads on from here. -/
theorem from_le {q : Nat} (h : Leads input x q post) (hle : p ≤ q) (d : Array Diagnostic) :
    Meets True input x (.at q d) (fun a => ParseState.Ahead p (post a))
      (ParseState.Ahead p fun _ => True) :=
  Meets.mono (h d) (fun _ _ ht => ht.of_le hle) fun _ ht => ht.of_le hle

/-- What follows an attempt begins where the attempt led to. -/
theorem bind {next : α → Attempt β} (h : Leads input x p post)
    (hnext : ∀ a q, p ≤ q → post a q → Leads input (next a) q post') :
    Leads input (x >>= next) p post' := by
  intro d
  rw [meets_bind]
  refine Meets.mono (h d) (fun a t => ?_) fun t ht => ht
  rintro ⟨q, e, rfl, hle, ha⟩
  exact (hnext a q hle ha).from_le hle e

theorem map {f : α → β} (h : Leads input x p post) (hmap : ∀ a q, post a q → post' (f a) q) :
    Leads input (f <$> x) p post' := by
  rw [map_eq_pure_bind]
  exact h.bind fun a q _ ha => .pure (hmap a q ha)

theorem ite {c : Prop} [Decidable c] (hyes : c → Leads input x p post)
    (hno : ¬c → Leads input y p post) : Leads input (if c then x else y) p post := by
  split
  · next h => exact hyes h
  · next h => exact hno h

/-- A step within an attempt leads where it leads alone. -/
theorem lift {x : Parse α} (h : Parse.Leads input x p post) :
    Leads input (OptionT.lift x) p post := by
  intro d
  rw [meets_lift]
  exact h d

theorem liftM {x : Parse α} (h : Parse.Leads input x p post) :
    Leads input (liftM x : Attempt α) p post := lift h

theorem current {next : Token → Attempt β} (h : Leads input (next (input.tokenAt p)) p post') :
    Leads input (MonadLiftT.monadLift Parse.current >>= next) p post' := by
  intro d
  rw [meets_bind, meets_liftM, meets_current]
  exact h d

theorem atEnd {next : Bool → Attempt β} (h : ∀ stop, Leads input (next stop) p post') :
    Leads input (MonadLiftT.monadLift Parse.atEnd >>= next) p post' := by
  intro d
  rw [meets_bind, meets_liftM, meets_atEnd]
  exact h _ d

theorem advance {next : Unit → Attempt β} (h : Leads input (next ()) (p + 1) post') :
    Leads input (MonadLiftT.monadLift Parse.advance >>= next) p post' := by
  intro d
  rw [meets_bind, meets_liftM, meets_advance]
  exact h.from_le (Nat.le_succ p) d

/-- An attempt within an attempt never declines, and what follows it is told by cases. -/
theorem bindOrNone {next : Option α → Attempt β} (h : Leads input x p post)
    (hnone : ∀ q, p ≤ q → Leads input (next none) q post')
    (hsome : ∀ a q, p ≤ q → post a q → Leads input (next (some a)) q post') :
    Leads input (orNone x >>= next) p post' := by
  intro d
  rw [meets_bind, meets_orNone]
  refine Meets.mono (h d) (fun a t => ?_) fun t => ?_
  · rintro ⟨q, e, rfl, hle, ha⟩
    exact (hsome a q hle ha).from_le hle e
  · rintro ⟨q, e, rfl, hle, -⟩
    exact (hnone q hle).from_le hle e

/-- What follows an attempt is told by cases. -/
theorem run {next : Option α → Parse β} (h : Leads input x p post)
    (hnone : ∀ q, p ≤ q → Parse.Leads input (next none) q post')
    (hsome : ∀ a q, p ≤ q → post a q → Parse.Leads input (next (some a)) q post') :
    Parse.Leads input (x.run >>= next) p post' := by
  intro d
  rw [Parse.meets_bind, meets_run]
  refine Meets.mono (h d) (fun a t => ?_) fun t => ?_
  · rintro ⟨q, e, rfl, hle, ha⟩
    exact (hsome a q hle ha).from_le hle e
  · rintro ⟨q, e, rfl, hle, -⟩
    exact (hnone q hle).from_le hle e

variable {text template : String}

/-- Where a symbol is needed, the step declines or moves past it. -/
theorem needSymbol {next : Unit → Attempt β} (h : Leads input (next ()) (p + 1) post') :
    Leads input (needSymbol text template >>= next) p post' := by
  intro d
  rw [meets_bind, meets_needSymbol]
  split
  · exact h.from_le (Nat.le_succ p) d
  · exact .here trivial

/-- A keyword that is needed is left behind, and what follows may use that it was there. -/
theorem needKeyword {next : Unit → Attempt β}
    (h : (input.tokenAt p).isKeyword text = true → Leads input (next ()) (p + 1) post') :
    Leads input (needKeyword text template >>= next) p post' := by
  intro d
  rw [meets_bind, meets_needKeyword]
  split
  · next hword =>
    exact (h hword).from_le (Nat.le_succ p) d
  · exact .here trivial

/-- An identifier that is needed is left behind, and it was no end marker. -/
theorem needIdentifier {next : Token → Attempt β}
    (h : p < input.size → Leads input (next (input.tokenAt p)) (p + 1) post') :
    Leads input (needIdentifier template >>= next) p post' := by
  intro d
  rw [meets_bind, meets_needIdentifier]
  split
  · next hkind =>
    have hp : p < input.size := Input.lt_size_of_kind hkind (by decide)
    exact (h hp).from_le (Nat.le_succ p) d
  · exact .here trivial

end Attempt.Leads

end SharpSyntax
