import SharpSyntax.Proofs.Contracts

/-!
# Runs that come to an end

A run of several steps that comes to an end is taken apart here into the runs of its steps. The
lemmas go from one primitive step to the next, wherever the cursor stands, and say of a step that
can report whether it did. Where a whole run has reported nothing, none of its steps has.
-/

namespace SharpSyntax

open Parse Attempt

variable {α β : Type} {input : Input} {s t u : ParseState}

/-! ## What is seen -/

/-- The state behind the token under the cursor. -/
def ParseState.past (s : ParseState) : ParseState := { s with cursor := s.cursor + 1 }

/-- The token under the cursor is a given symbol. -/
def Input.Sees (input : Input) (s : ParseState) (text : String) : Prop :=
  ∃ token, input.seen? s.cursor = some token ∧ token.isSymbol text = true

/-- The token under the cursor is a given reserved word. -/
def Input.SeesWord (input : Input) (s : ParseState) (text : String) : Prop :=
  ∃ token, input.seen? s.cursor = some token ∧ token.isKeyword text = true

/-- The input has ended, or the token under the cursor is a symbol among the stops. -/
def Input.Closes (input : Input) (stops : List String) (s : ParseState) : Prop :=
  input.size ≤ s.cursor ∨ ∃ stop ∈ stops, input.Sees s stop

theorem Input.closes_singleton {text : String} :
    input.Closes [text] s ↔ input.size ≤ s.cursor ∨ input.Sees s text := by
  simp [Closes]

/-- There is only one token under a cursor. -/
theorem Input.Sees.of_seen? {token : Token} {text : String}
    (hseen : input.seen? s.cursor = some token) (h : input.Sees s text) :
    token.isSymbol text = true := by
  obtain ⟨other, hother, hsymbol⟩ := h
  rw [hseen, Option.some_inj] at hother
  exact hother ▸ hsymbol

theorem Input.not_sees {token : Token} {text : String} (hseen : input.seen? s.cursor = some token)
    (h : ¬ token.isSymbol text = true) : ¬ input.Sees s text :=
  fun hsees => h (hsees.of_seen? hseen)

theorem Input.not_seesWord {token : Token} {text : String}
    (hseen : input.seen? s.cursor = some token) (h : ¬ token.isKeyword text = true) :
    ¬ input.SeesWord s text := by
  rintro ⟨other, hother, hword⟩
  rw [hseen, Option.some_inj] at hother
  exact h (hother ▸ hword)

/-! ## Runs that report nothing -/

namespace Continues

theorem quiet_or (h : Continues 0 s t) : t.diagnostics = s.diagnostics ∨ Continues 1 s t := by
  obtain ⟨new, hnew, -⟩ := h
  cases new with
  | nil => exact .inl (Array.ext' (by rw [hnew, List.append_nil]))
  | cons x new => exact .inr ⟨x :: new, hnew, by simp⟩

theorem not_quiet (h : Continues 1 s t) : t.diagnostics ≠ s.diagnostics := by
  obtain ⟨new, hnew, hlength⟩ := h
  intro hquiet
  rw [hquiet, List.self_eq_append_right] at hnew
  rw [hnew] at hlength
  exact absurd hlength (by decide)

/-- Where nothing is reported up to a state, nothing is reported up to one before it. -/
theorem quiet_before (h : Continues 0 s t) (h' : Continues 0 t u)
    (hquiet : u.diagnostics = s.diagnostics) : t.diagnostics = s.diagnostics := by
  rcases h.quiet_or with hst | hreported
  · exact hst
  · exact absurd hquiet ((hreported.trans h').mono (Nat.le_refl 1)).not_quiet

/-- What is so of a run without a report is so, or the run has reported. -/
theorem reported_or {p : Prop} (h : Continues 0 s t) (hp : t.diagnostics = s.diagnostics → p) :
    Continues 1 s t ∨ p := by
  rcases h.quiet_or with hquiet | hreported
  · exact .inr (hp hquiet)
  · exact .inl hreported

end Continues

/-! ## Runs of steps -/

namespace Parse

/-- Steps one after the other come to an end where both do. -/
theorem run_bind_ok {x : Parse α} {next : α → Parse β} {b : β} :
    ((x >>= next).run input).run s = .ok b u ↔
      ∃ a t, (x.run input).run s = .ok a t ∧ ((next a).run input).run t = .ok b u := by
  simp only [ReaderT.run_bind, EStateM.run_bind]
  cases (x.run input).run s with
  | ok a t =>
      constructor
      · exact fun h => ⟨a, t, rfl, h⟩
      · rintro ⟨_, _, ⟨rfl, rfl⟩, h⟩
        exact h
  | error fault t => simp

theorem run_pure_ok {a b : α} :
    ((pure a : Parse α).run input).run s = .ok b u ↔ a = b ∧ s = u := by
  change EStateM.Result.ok a s = .ok b u ↔ _
  simp

theorem run_ite_ok {c : Prop} [Decidable c] {x y : Parse α} {a : α} :
    ((if c then x else y).run input).run s = .ok a u ↔
      c ∧ (x.run input).run s = .ok a u ∨ ¬c ∧ (y.run input).run s = .ok a u := by
  by_cases hc : c <;> simp [hc]

/-- The token under the cursor is looked at where there is one. -/
theorem run_current : (current.run input).run s =
    match input.seen? s.cursor with
    | some token => .ok token s
    | none => .error .outside s := by
  simp only [current, ReaderT.run_bind, EStateM.run_bind]
  change EStateM.run (ReaderT.run (match input.seen? s.cursor with
    | some token => pure token
    | none => stop .outside) input) s = _
  cases input.seen? s.cursor <;> rfl

theorem run_current_ok {token : Token} :
    (current.run input).run s = .ok token u ↔ input.seen? s.cursor = some token ∧ s = u := by
  rw [run_current]
  cases input.seen? s.cursor with
  | none => simp
  | some found => simp

theorem run_atEnd_ok {b : Bool} :
    (atEnd.run input).run s = .ok b u ↔ decide (input.size ≤ s.cursor) = b ∧ s = u := by
  change EStateM.Result.ok (decide ((input.size : Int) ≤ s.cursor)) s = .ok b u ↔ _
  simp

theorem run_mark_ok {start : Mark} :
    (mark.run input).run s = .ok start u ↔ ⟨s.cursor, s.diagnostics.size⟩ = start ∧ s = u := by
  change EStateM.Result.ok (Mark.mk s.cursor s.diagnostics.size) s = .ok start u ↔ _
  simp

theorem run_advance_ok {a : Unit} : (advance.run input).run s = .ok a u ↔ s.past = u := by
  change EStateM.Result.ok () s.past = .ok a u ↔ _
  simp

theorem run_consume_ok {token : Token} :
    (consume.run input).run s = .ok token u ↔
      input.seen? s.cursor = some token ∧ s.past = u := by
  simp only [consume, run_bind_ok, run_current_ok, run_advance_ok, run_pure_ok]
  constructor
  · rintro ⟨token, _, ⟨hseen, rfl⟩, _, _, rfl, rfl, rfl⟩
    exact ⟨hseen, rfl⟩
  · rintro ⟨hseen, rfl⟩
    exact ⟨token, s, ⟨hseen, rfl⟩, (), _, rfl, rfl, rfl⟩

/-- What is required is there, and nothing has happened; or it is missing, and that is reported. -/
theorem run_require_ok {kind : Option Kind} {text : Option String} {template code : String}
    {found : Expectation} (h : ((require kind text template code).run input).run s = .ok found t) :
    (found.ok = true ∧ t = s ∧ ∃ token, input.seen? s.cursor = some token ∧
      token.fits kind text = true) ∨ found.ok = false ∧ Continues 1 s t := by
  have hmeets : Meets True input (require kind text template code) s fun found t =>
      (found.ok = true ∧ t = s ∧ ∃ token, input.seen? s.cursor = some token ∧
        token.fits kind text = true) ∨ found.ok = false ∧ Continues 1 s t := by
    rw [meets_require_iff]
    intro token hseen
    split
    · next hfits => exact .inl ⟨rfl, rfl, token, hseen, hfits⟩
    · exact Meets.mono reportAt_reports fun _ _ hreported => .inr ⟨rfl, hreported⟩
  exact hmeets.of_run h

/-- A closing symbol is stepped over where it is seen, and reported missing where it is not. -/
theorem close_meets {text template : String} :
    Meets True input (close text template) s fun _ t =>
      input.Sees s text ∧ t = s.past ∨ Continues 1 s t := by
  simp only [close, meets_bind, meets_require_iff]
  intro token hseen
  split
  · next hfits => exact .inl ⟨⟨token, hseen, hfits⟩, rfl⟩
  · exact reportAt_reports.mono fun _ _ h => .inr h

/-- What a step has met is so of the run that it has come to an end with. -/
theorem meets_ran {x : Parse α} :
    Meets True input x s fun a t => (x.run input).run s = .ok a t := by
  unfold Meets
  cases (x.run input).run s with
  | ok a t => rfl
  | error fault t => trivial

end Parse

/-! ## Runs of steps that may decline -/

namespace Attempt

/-- Steps one after the other make something where both do. -/
theorem run_bind_some {x : Attempt α} {next : α → Attempt β} {b : β} :
    ((x >>= next).run.run input).run s = .ok (some b) u ↔
      ∃ a t, (x.run.run input).run s = .ok (some a) t ∧
        ((next a).run.run input).run t = .ok (some b) u := by
  rw [OptionT.run_bind, Option.elimM, run_bind_ok]
  constructor
  · rintro ⟨made, t, hmade, hnext⟩
    cases made with
    | none => cases hnext
    | some a => exact ⟨a, t, hmade, hnext⟩
  · rintro ⟨a, t, hmade, hnext⟩
    exact ⟨some a, t, hmade, hnext⟩

theorem run_liftM_some {x : Parse α} {a : α} :
    ((liftM x : Attempt α).run.run input).run s = .ok (some a) u ↔
      (x.run input).run s = .ok a u := by
  change ((some <$> x).run input).run s = _ ↔ _
  rw [map_eq_pure_bind, run_bind_ok]
  constructor
  · rintro ⟨_, _, hrun, ⟨rfl, rfl⟩⟩
    exact hrun
  · exact fun h => ⟨a, u, h, rfl⟩

theorem run_orNone_some {x : Attempt α} {made : Option α} :
    ((orNone x).run.run input).run s = .ok (some made) u ↔
      (x.run.run input).run s = .ok made u := run_liftM_some

theorem run_pure_some {a b : α} :
    ((pure a : Attempt α).run.run input).run s = .ok (some b) u ↔ a = b ∧ s = u := by
  change EStateM.Result.ok (some a) s = .ok (some b) u ↔ _
  simp

theorem run_ite_some {c : Prop} [Decidable c] {x y : Attempt α} {a : α} :
    ((if c then x else y).run.run input).run s = .ok (some a) u ↔
      c ∧ (x.run.run input).run s = .ok (some a) u ∨
        ¬c ∧ (y.run.run input).run s = .ok (some a) u := by
  by_cases hc : c <;> simp [hc]

/-- What is needed is there, and nothing has happened. -/
theorem run_need_ok {kind : Option Kind} {text : Option String} {template : String} {a : Unit}
    (h : ((need kind text template).run.run input).run s = .ok (some a) u) :
    u = s ∧ ∃ token, input.seen? s.cursor = some token ∧ token.fits kind text = true := by
  simp only [need, run_bind_some, run_liftM_some, run_ite_some] at h
  obtain ⟨found, t, hfound, ⟨-, hfailed⟩ | ⟨hok, hdone⟩⟩ := h
  · cases hfailed
  obtain ⟨-, rfl⟩ := run_pure_some.mp hdone
  rcases run_require_ok hfound with ⟨-, rfl, hfits⟩ | ⟨hbad, -⟩
  · exact ⟨rfl, hfits⟩
  · simp [hbad] at hok

/-- A symbol that is needed and found is stepped over. -/
theorem run_needSymbol_ok {text template : String} {a : Unit}
    (h : ((needSymbol text template).run.run input).run s = .ok (some a) u) :
    input.Sees s text ∧ u = s.past := by
  simp only [needSymbol, run_bind_some, run_liftM_some, run_advance_ok] at h
  obtain ⟨_, t, hneed, rfl⟩ := h
  obtain ⟨rfl, hsees⟩ := run_need_ok hneed
  exact ⟨hsees, rfl⟩

/-- A reserved word that is needed and found is stepped over. -/
theorem run_needKeyword_ok {text template : String} {a : Unit}
    (h : ((needKeyword text template).run.run input).run s = .ok (some a) u) :
    input.SeesWord s text ∧ u = s.past := by
  simp only [needKeyword, run_bind_some, run_liftM_some, run_advance_ok] at h
  obtain ⟨_, t, hneed, rfl⟩ := h
  obtain ⟨rfl, hsees⟩ := run_need_ok hneed
  exact ⟨hsees, rfl⟩

/-- An identifier that is needed and found is taken. -/
theorem run_needIdentifier_ok {template : String} {name : Token}
    (h : ((needIdentifier template).run.run input).run s = .ok (some name) u) :
    (input.seen? s.cursor = some name ∧ name.kind = Kind.identifier) ∧ u = s.past := by
  simp only [needIdentifier, run_bind_some, run_liftM_some, run_consume_ok] at h
  obtain ⟨_, t, hneed, hname, rfl⟩ := h
  obtain ⟨rfl, token, htoken, hkind⟩ := run_need_ok hneed
  rw [hname, Option.some_inj] at htoken
  exact ⟨⟨hname, by simpa [htoken] using hkind⟩, rfl⟩

end Attempt

end SharpSyntax
