import SharpSyntax.Proofs.Meets
import SharpSyntax.Proofs.Shape

/-!
# What a routine promises wherever it begins

A routine may be begun at any place, also in front of the first token, where a plugin may have left
the cursor. Wherever that is, it keeps three promises:

* it only appends to the diagnostics;
* what it makes has the shape of its construct;
* where it declines, it has reported at least so many times. For every construct of the grammar this
  is once. Names, types and access chains may decline in silence, because what calls them reports.

The promises do not depend on how deep constructs may nest or how often a loop may go round: a parse
that runs out of either stops for good and promises nothing. The routines of plugins are held to the
first promise only, and to shapes of their own.
-/

namespace SharpSyntax

open Parse Attempt Grammar Shape

variable {α β : Type} {input : Input} {s : ParseState} {j k : Nat}

/-! ## Diagnostics that are continued -/

/-- The diagnostics of the later state are those of the earlier one and at least `k` more. -/
def Continues (k : Nat) (s t : ParseState) : Prop :=
  ∃ new : List Diagnostic, t.diagnostics.toList = s.diagnostics.toList ++ new ∧ k ≤ new.length

namespace Continues

variable {t u : ParseState}

theorem of_diagnostics_eq (h : t.diagnostics = s.diagnostics) : Continues 0 s t :=
  ⟨[], by rw [h, List.append_nil], Nat.le_refl 0⟩

theorem refl (s : ParseState) : Continues 0 s s := of_diagnostics_eq rfl

/-- One report is pushed. -/
theorem of_push {x : Diagnostic} (h : t.diagnostics = s.diagnostics.push x) : Continues 1 s t :=
  ⟨[x], by rw [h, Array.toList_push], Nat.le_refl 1⟩

/-- Of two stretches, the reports add up. -/
theorem trans (h : Continues j s t) (h' : Continues k t u) : Continues (j + k) s u := by
  obtain ⟨new, hnew, hj⟩ := h
  obtain ⟨new', hnew', hk⟩ := h'
  refine ⟨new ++ new', by rw [hnew', hnew, List.append_assoc], ?_⟩
  rw [List.length_append]
  omega

theorem mono (h : Continues j s t) (hle : k ≤ j) : Continues k s t := by
  obtain ⟨new, hnew, hj⟩ := h
  exact ⟨new, hnew, Nat.le_trans hle hj⟩

/-- What comes before adds to the reports of what comes behind. -/
theorem after (h : Continues 0 s t) (h' : Continues k t u) : Continues k s u :=
  (h.trans h').mono (by omega)

end Continues

/-! ## Promises -/

/-- From `s` the step makes something that satisfies `made`, and only appends to the diagnostics. -/
def Parse.Makes (input : Input) (step : Parse α) (made : α → Prop) (s : ParseState) : Prop :=
  Parse.Meets True input step s fun a t => made a ∧ Continues 0 s t

/-- From `s` the step makes something that satisfies `made`, or declines with `k` reports or more,
and only appends to the diagnostics. -/
def Attempt.Makes (k : Nat) (input : Input) (step : Attempt α) (made : α → Prop)
    (s : ParseState) : Prop :=
  Attempt.Meets True input step s (fun a t => made a ∧ Continues 0 s t) (Continues k s)

/-- From `s` the step reports something. -/
def Parse.Reports (input : Input) (step : Parse α) (s : ParseState) : Prop :=
  Parse.Meets True input step s fun _ t => Continues 1 s t

namespace Parse

variable {x : Parse α} {made : α → Prop} {made' : β → Prop}

/-- Where no token can be seen, the step stops for good. -/
theorem meets_current_iff {post : Token → ParseState → Prop} :
    Meets True input current s post ↔
      ∀ token, input.seen? s.cursor = some token → post token s := by
  simp only [current, meets_bind, meets_read, meets_get]
  cases input.seen? s.cursor <;> simp

namespace Makes

/-- What is said of the value may be weakened. -/
theorem mono {made' : α → Prop} (h : Makes input x made s) (himp : ∀ a, made a → made' a) :
    Makes input x made' s :=
  Meets.mono h fun a _ ⟨ha, ht⟩ => ⟨himp a ha, ht⟩

theorem pure {a : α} (h : made a) : Makes input (pure a) made s := ⟨h, .refl s⟩

/-- A step that stops for good promises anything. -/
theorem endless : Makes input (endless : Parse α) made s := trivial

/-- What is promised from a later state is promised of the earlier one. -/
theorem behind {t : ParseState} (h : Makes input x made t) (ht : Continues 0 s t) :
    Meets True input x t fun a u => made a ∧ Continues 0 s u :=
  Meets.mono h fun _ _ ⟨ha, hu⟩ => ⟨ha, ht.after hu⟩

/-- What follows a step begins in a state that continues the one before. -/
theorem bind {next : α → Parse β} (h : Makes input x made s)
    (hnext : ∀ a t, made a → Makes input (next a) made' t) :
    Makes input (x >>= next) made' s := by
  unfold Makes
  rw [meets_bind]
  exact Meets.mono h fun a t ⟨ha, ht⟩ => (hnext a t ha).behind ht

theorem ite {c : Prop} [Decidable c] {y : Parse α} (hyes : c → Makes input x made s)
    (hno : ¬c → Makes input y made s) : Makes input (if c then x else y) made s := by
  split
  · next h => exact hyes h
  · next h => exact hno h

/-- What follows a look at the current token goes on from the same state. -/
theorem current {next : Token → Parse β}
    (h : ∀ token, input.seen? s.cursor = some token → Makes input (next token) made' s) :
    Makes input (current >>= next) made' s := by
  unfold Makes
  rw [meets_bind, meets_current_iff]
  exact h

theorem advance : Makes input advance (fun _ => True) s := ⟨trivial, .of_diagnostics_eq rfl⟩

theorem atEnd : Makes input atEnd (fun _ => True) s := ⟨trivial, .of_diagnostics_eq rfl⟩

theorem peek {distance : Int} : Makes input (peek distance) (fun _ => True) s :=
  ⟨trivial, .of_diagnostics_eq rfl⟩

theorem mark : Makes input mark (fun _ => True) s := ⟨trivial, .of_diagnostics_eq rfl⟩

theorem cursor : Makes input cursor (fun _ => True) s := ⟨trivial, .of_diagnostics_eq rfl⟩

theorem setCursor {place : Int} : Makes input (setCursor place) (fun _ => True) s :=
  ⟨trivial, .of_diagnostics_eq rfl⟩

/-- A token that is taken is the one under the cursor. -/
theorem consume : Makes input consume (fun token => input.seen? s.cursor = some token) s := by
  unfold Makes Parse.consume
  rw [meets_bind, meets_current_iff]
  exact fun token htoken => ⟨htoken, .of_diagnostics_eq rfl⟩

end Makes

/-! ### Reporting -/

variable {message template code text : String} {kind : Option Kind} {wanted : Option String}

/-- A step that reports is a step that appends. -/
theorem Reports.makes {y : Parse Unit} (h : Reports input y s) :
    Makes input y (fun _ => True) s :=
  Meets.mono h fun _ _ ht => ⟨trivial, ht.mono (Nat.zero_le 1)⟩

theorem reportAt_reports {offset : Int} {length : Nat} :
    Reports input (reportAt message code offset length) s := Continues.of_push rfl

/-- A report about the token under the cursor is one report. -/
theorem report_reports : Reports input (report message code) s := by
  unfold Reports report
  rw [meets_bind, meets_current_iff]
  exact fun _ _ => reportAt_reports

theorem reportFound_reports : Reports input (reportFound template code) s := by
  unfold Reports reportFound
  rw [meets_bind, meets_current_iff]
  exact fun _ _ => report_reports

/-- Where what is required is there, nothing has happened; where it is not, it was reported. -/
theorem meets_require_iff {post : Expectation → ParseState → Prop} :
    Meets True input (require kind wanted template code) s post ↔
      ∀ token, input.seen? s.cursor = some token →
        if token.fits kind wanted then post ⟨true, token, kind, wanted⟩ s
        else Meets True input
          (reportAt (fillTemplate template token) code token.offset token.text.length) s
          fun _ t => post ⟨false, token, kind, wanted⟩ t := by
  simp only [require, expect, meets_bind, meets_current_iff, meets_pure]
  refine forall_congr' fun token => imp_congr_right fun _ => ?_
  cases token.fits kind wanted <;> simp [Expectation.format]

/-- What follows a token that was found may use that it was; where it is missing, the report is made
first. -/
theorem Makes.require {next : Expectation → Parse β}
    (hfound : ∀ token, input.seen? s.cursor = some token → token.fits kind wanted = true →
      Makes input (next ⟨true, token, kind, wanted⟩) made' s)
    (hmissing : ∀ token t, Makes input (next ⟨false, token, kind, wanted⟩) made' t) :
    Makes input (require kind wanted template code >>= next) made' s := by
  unfold Makes
  rw [meets_bind, meets_require_iff]
  intro token htoken
  split
  · next hfits => exact hfound token htoken hfits
  · exact Meets.mono reportAt_reports fun _ t ht =>
      (hmissing token t).behind (ht.mono (Nat.zero_le 1))

theorem Makes.close : Makes input (close text template) (fun _ => True) s :=
  .require (fun _ _ _ => advance) fun _ _ => pure trivial

theorem Makes.skip : Makes input (skip text) (fun _ => True) s :=
  .current fun _ _ => .ite (fun _ => advance) fun _ => pure trivial

/-- Recovery only moves the cursor. -/
theorem Makes.recover {start : Mark} {stops : List String} :
    Makes input (recover start stops) (fun _ => True) s := by
  have hget : Makes input get (fun _ => True) s := ⟨trivial, .refl s⟩
  refine hget.bind fun _ _ _ => .ite (fun _ => advance) fun _ => ?_
  refine atEnd.bind fun _ _ _ => .ite (fun _ => pure trivial) fun _ => ?_
  refine .current fun _ _ => .ite (fun _ => pure trivial) fun _ => ?_
  exact .ite (fun _ => pure trivial) fun _ => advance

end Parse

namespace Attempt

variable {x : Attempt α} {made : α → Prop} {made' : β → Prop}

namespace Makes

theorem mono {made' : α → Prop} (h : Makes k input x made s) (himp : ∀ a, made a → made' a) :
    Makes k input x made' s :=
  Meets.mono h (fun a _ ⟨ha, ht⟩ => ⟨himp a ha, ht⟩) fun _ => id

/-- A step that promises reports promises fewer. -/
theorem weaken (h : Makes k input x made s) : Makes 0 input x made s :=
  Meets.mono h (fun _ _ => id) fun _ ht => ht.mono (Nat.zero_le k)

theorem pure {a : α} (h : made a) : Makes k input (pure a) made s := ⟨h, .refl s⟩

/-- Declining promises no report of its own. -/
theorem failure : Makes 0 input (failure : Attempt α) made s := Continues.refl s

theorem failure_bind {next : α → Attempt β} :
    Makes 0 input ((Alternative.failure : Attempt α) >>= next) made' s := Continues.refl s

theorem endless : Makes k input (Parse.endless : Attempt α) made s := trivial

/-- What is promised from a later state is promised of the earlier one. -/
theorem behind {t : ParseState} (h : Makes k input x made t) (ht : Continues 0 s t) :
    Meets True input x t (fun a u => made a ∧ Continues 0 s u) (Continues k s) :=
  Meets.mono h (fun _ _ ⟨ha, hu⟩ => ⟨ha, ht.after hu⟩) fun _ hu => ht.after hu

/-- An attempt behind another one declines with as many reports, whichever of the two declines. -/
theorem bind {next : α → Attempt β} (h : Makes k input x made s)
    (hnext : ∀ a t, made a → Makes k input (next a) made' t) :
    Makes k input (x >>= next) made' s := by
  unfold Makes
  rw [meets_bind]
  exact Meets.mono h (fun a t ⟨ha, ht⟩ => (hnext a t ha).behind ht) fun _ => id

theorem map {f : α → β} (h : Makes k input x made s) (hmap : ∀ a, made a → made' (f a)) :
    Makes k input (f <$> x) made' s := by
  rw [map_eq_pure_bind]
  exact h.bind fun a _ ha => pure (hmap a ha)

theorem ite {c : Prop} [Decidable c] {y : Attempt α} (hyes : c → Makes k input x made s)
    (hno : ¬c → Makes k input y made s) : Makes k input (if c then x else y) made s := by
  split
  · next h => exact hyes h
  · next h => exact hno h

theorem current {next : Token → Attempt β}
    (h : ∀ token, input.seen? s.cursor = some token → Makes k input (next token) made' s) :
    Makes k input (liftM Parse.current >>= next) made' s := by
  unfold Makes
  rw [meets_bind, meets_liftM, meets_current_iff]
  exact h

/-- Declining behind a report is declining with one. -/
theorem reported {y : Parse Unit} (h : Parse.Reports input y s) :
    Makes 1 input (liftM y >>= fun _ => (Alternative.failure : Attempt α)) made s := by
  unfold Makes
  rw [meets_bind, meets_liftM]
  exact h

/-- A step within an attempt never declines. -/
theorem lift {x : Parse α} (h : Parse.Makes input x made s) :
    Makes k input (OptionT.lift x) made s := by
  unfold Makes
  rw [meets_lift]
  exact h

theorem liftM {x : Parse α} (h : Parse.Makes input x made s) :
    Makes k input (liftM x : Attempt α) made s := lift h

/-- An attempt within an attempt never declines, and what follows it is told by cases. -/
theorem bindOrNone {next : Option α → Attempt β} (h : Makes j input x made s)
    (hnone : ∀ t, Makes k input (next none) made' t)
    (hsome : ∀ a t, made a → Makes k input (next (some a)) made' t) :
    Makes k input (orNone x >>= next) made' s := by
  unfold Makes
  rw [meets_bind, meets_orNone]
  exact Meets.mono h (fun a t ⟨ha, ht⟩ => (hsome a t ha).behind ht)
    fun t ht => (hnone t).behind (ht.mono (Nat.zero_le j))

/-- What follows an attempt is told by cases. -/
theorem run {next : Option α → Parse β} (h : Makes k input x made s)
    (hnone : ∀ t, Parse.Makes input (next none) made' t)
    (hsome : ∀ a t, made a → Parse.Makes input (next (some a)) made' t) :
    Parse.Makes input (x.run >>= next) made' s := by
  unfold Parse.Makes
  rw [Parse.meets_bind, meets_run]
  exact Meets.mono h (fun a t ⟨ha, ht⟩ => (hsome a t ha).behind ht)
    fun t ht => (hnone t).behind (ht.mono (Nat.zero_le k))

end Makes

variable {text template : String} {kind : Option Kind} {wanted : Option String}

/-- What is needed is there and nothing has happened, or it was reported. -/
theorem Makes.need {next : Unit → Attempt β}
    (h : ∀ token, input.seen? s.cursor = some token → token.fits kind wanted = true →
      Makes 1 input (next ()) made' s) :
    Makes 1 input (need kind wanted template >>= next) made' s := by
  unfold Makes Attempt.need
  simp only [meets_bind, meets_liftM, meets_require_iff]
  intro token htoken
  cases hfits : token.fits kind wanted with
  | true => simpa using! h token htoken hfits
  | false => simpa using! reportAt_reports

/-- A symbol that is missing is reported before the attempt declines. -/
theorem Makes.needSymbol : Makes 1 input (needSymbol text template) (fun _ => True) s :=
  .need fun _ _ _ => .liftM .advance

theorem Makes.needKeyword : Makes 1 input (needKeyword text template) (fun _ => True) s :=
  .need fun _ _ _ => .liftM .advance

theorem Makes.needIdentifier :
    Makes 1 input (needIdentifier template) (fun token => token.kind = Kind.identifier) s := by
  refine .need fun token htoken hfits => .liftM (Parse.Makes.consume.mono fun token' htoken' => ?_)
  rw [htoken, Option.some_inj] at htoken'
  rw [← htoken']
  simpa using hfits

end Attempt

end SharpSyntax
