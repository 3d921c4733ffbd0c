import SharpSyntax.Parser.Session

/-!
# What a step of a parse meets

A step of a parse is judged by the states it can be run from and the values and states it ends
with. `Parse.Meets fault input step s post` runs `step` from `s` and asks `post` of the outcome;
`Attempt.Meets` does the same for a step that may decline and asks one thing of a value and another
of declining.

A step that stops for good meets what `fault` says. With `fault := False` meeting a postcondition
includes coming to an end, so the levels and rounds of a parse have to suffice. With
`fault := True` it does not, and an induction over levels and rounds needs no count of them.

The lemmas of this file say what every primitive step meets. They are stated at states whose cursor
is a place among the tokens or just past them, `ParseState.at`, which is where a parse without
foreign routines always stands.
-/

namespace SharpSyntax

variable {α β : Type} {fault : Prop} {input : Input} {s : ParseState} {p : Nat}
  {d : Array Diagnostic}

/-- The state at a place, with the diagnostics so far. -/
def ParseState.at (place : Nat) (reported : Array Diagnostic) : ParseState where
  cursor := place
  diagnostics := reported

@[simp] theorem ParseState.cursor_at : (ParseState.at p d).cursor = p := rfl

@[simp] theorem ParseState.diagnostics_at : (ParseState.at p d).diagnostics = d := rfl

/-- A state at a place says which place it is and what was reported. -/
theorem ParseState.at_inj {q : Nat} {e : Array Diagnostic}
    (h : ParseState.at p d = .at q e) : p = q ∧ d = e :=
  ⟨Int.ofNat_inj.mp (congrArg ParseState.cursor h), congrArg ParseState.diagnostics h⟩

/-! ## Looking at the tokens -/

namespace Input

/-- The error that is recorded about the token at a place. -/
def errorAt (input : Input) (place : Nat) (message code : String) : Diagnostic :=
  Diagnostic.errorAt input.source code message (input.tokenAt place).offset
    (input.tokenAt place).text.length ""

@[simp] theorem seen?_natCast : input.seen? (p : Int) = some (input.tokenAt p) := by
  simp [seen?]

/-- From the end of the tokens on, the end marker is seen. -/
theorem tokenAt_of_size_le (h : input.size ≤ p) : input.tokenAt p = input.endMarker := by
  simp [tokenAt, Array.getElem?_eq_none h]

/-- Only the end marker stands past the last token. -/
theorem lt_size_of_ne_endMarker (h : input.tokenAt p ≠ input.endMarker) : p < input.size := by
  rcases Nat.lt_or_ge p input.size with hp | hp
  · exact hp
  · exact absurd (tokenAt_of_size_le hp) h

/-- What is not of the kind of the end marker is one of the tokens. -/
theorem lt_size_of_kind_ne (h : (input.tokenAt p).kind ≠ Kind.endOfInput) : p < input.size :=
  lt_size_of_ne_endMarker fun he => h (by rw [he, input.endMarker_kind])

theorem lt_size_of_kind {kind : Kind} (h : (input.tokenAt p).kind = kind)
    (hk : kind ≠ Kind.endOfInput) : p < input.size :=
  lt_size_of_kind_ne (by rw [h]; exact hk)

/-- The end marker has no text, so a text that is seen is that of a token. -/
theorem lt_size_of_text_ne (h : (input.tokenAt p).text ≠ "") : p < input.size :=
  lt_size_of_ne_endMarker fun he => h (by rw [he, input.endMarker_text])

end Input

namespace Token

variable {token : Token} {text : String}

theorem isSymbol_iff :
    token.isSymbol text = true ↔ token.kind = Kind.symbol ∧ token.text = text := by
  simp [isSymbol]

theorem isKeyword_iff :
    token.isKeyword text = true ↔ token.kind = Kind.keyword ∧ token.text = text := by
  simp [isKeyword]

/-- A symbol is no other symbol. -/
theorem isSymbol_eq_false {other : String} (h : token.isSymbol other = true) (text : String)
    (hne : other ≠ text) : token.isSymbol text = false := by
  rw [Bool.eq_false_iff]
  intro hsymbol
  exact hne ((isSymbol_iff.mp h).2.symm.trans (isSymbol_iff.mp hsymbol).2)

/-- A keyword is no other keyword. -/
theorem isKeyword_eq_false {other : String} (h : token.isKeyword other = true) (text : String)
    (hne : other ≠ text) : token.isKeyword text = false := by
  rw [Bool.eq_false_iff]
  intro hword
  exact hne ((isKeyword_iff.mp h).2.symm.trans (isKeyword_iff.mp hword).2)

theorem isSymbol_eq_false_of_kind (h : token.kind ≠ Kind.symbol) (text : String) :
    token.isSymbol text = false := by
  rw [isSymbol, decide_eq_false h, Bool.false_and]

theorem isKeyword_eq_false_of_kind (h : token.kind ≠ Kind.keyword) (text : String) :
    token.isKeyword text = false := by
  rw [isKeyword, decide_eq_false h, Bool.false_and]

@[simp] theorem fits_symbol : token.fits (some .symbol) (some text) = token.isSymbol text := rfl

@[simp] theorem fits_keyword : token.fits (some .keyword) (some text) = token.isKeyword text := rfl

@[simp] theorem fits_identifier :
    token.fits (some .identifier) none = decide (token.kind = Kind.identifier) := rfl

end Token

namespace Input

variable {text : String}

/-- A symbol is only seen in front of the end. -/
theorem lt_size_of_isSymbol (h : (input.tokenAt p).isSymbol text = true) : p < input.size :=
  lt_size_of_kind (Token.isSymbol_iff.mp h).1 (by decide)

/-- A keyword is only seen in front of the end. -/
theorem lt_size_of_isKeyword (h : (input.tokenAt p).isKeyword text = true) : p < input.size :=
  lt_size_of_kind (Token.isKeyword_iff.mp h).1 (by decide)

end Input

/-! ## Steps -/

namespace Parse

/-- The step, run from a state, ends with a value and a state that satisfy `post`; where it stops
for good, `fault` holds. -/
def Meets (fault : Prop) (input : Input) (step : Parse α) (s : ParseState)
    (post : α → ParseState → Prop) : Prop :=
  match (step.run input).run s with
  | .ok a t => post a t
  | .error _ _ => fault

variable {step : Parse α} {post : α → ParseState → Prop}

/-- What a step meets may be weakened. -/
theorem Meets.mono {post' : α → ParseState → Prop} (h : Meets fault input step s post)
    (hp : ∀ a t, post a t → post' a t) : Meets fault input step s post' := by
  unfold Meets at h ⊢
  cases hr : (step.run input).run s with
  | ok a t => rw [hr] at h; exact hp a t h
  | error f t => rw [hr] at h; exact h

/-- Of two things that a step meets, only one has to know that the step ends. -/
theorem Meets.and {post' : α → ParseState → Prop} (h : Meets fault input step s post)
    (h' : Meets True input step s post') :
    Meets fault input step s fun a t => post a t ∧ post' a t := by
  unfold Meets at h h' ⊢
  cases hr : (step.run input).run s with
  | ok a t => rw [hr] at h h'; exact ⟨h, h'⟩
  | error f t => rw [hr] at h; exact h

/-- What a step meets is so where a run of it has ended. -/
theorem Meets.of_run {a : α} {t : ParseState} (h : Meets fault input step s post)
    (hrun : (step.run input).run s = .ok a t) : post a t := by
  unfold Meets at h
  rw [hrun] at h
  exact h

/-- Where a step ends is where a run of it has ended. -/
theorem Meets.run (h : Meets True input step s post) :
    Meets True input step s fun a t => post a t ∧ (step.run input).run s = .ok a t := by
  unfold Meets at h ⊢
  cases hr : (step.run input).run s with
  | ok a t => rw [hr] at h; exact ⟨h, rfl⟩
  | error f t => trivial

@[simp] theorem meets_pure {a : α} : Meets fault input (pure a) s post ↔ post a s := Iff.rfl

/-- A step with a next one behind it meets what the next one meets wherever the first one ends. -/
@[simp] theorem meets_bind {next : α → Parse β} {post : β → ParseState → Prop} :
    Meets fault input (step >>= next) s post ↔
      Meets fault input step s fun a t => Meets fault input (next a) t post := by
  unfold Meets
  simp only [ReaderT.run_bind, EStateM.run_bind]
  cases (step.run input).run s <;> rfl

/-- A map changes the value only. -/
@[simp] theorem meets_map {f : α → β} {post : β → ParseState → Prop} :
    Meets fault input (f <$> step) s post ↔ Meets fault input step s fun a t => post (f a) t := by
  rw [map_eq_pure_bind, meets_bind]
  simp only [meets_pure]

@[simp] theorem meets_ite {c : Prop} [Decidable c] {yes no : Parse α} :
    Meets fault input (if c then yes else no) s post ↔
      if c then Meets fault input yes s post else Meets fault input no s post := by
  split <;> rfl

/-- Of a choice, each branch may use what it was chosen for. -/
theorem Meets.ite {c : Prop} [Decidable c] {yes no : Parse α}
    (hyes : c → Meets fault input yes s post) (hno : ¬c → Meets fault input no s post) :
    Meets fault input (if c then yes else no) s post := by
  split
  · next h => exact hyes h
  · next h => exact hno h

/-- A step that stops for good meets just what `fault` says. -/
@[simp] theorem meets_stop {reason : Fault} : Meets fault input (stop reason) s post ↔ fault :=
  Iff.rfl

@[simp] theorem meets_endless : Meets fault input endless s post ↔ fault := Iff.rfl

theorem meets_read {post : Input → ParseState → Prop} :
    Meets fault input read s post ↔ post input s := Iff.rfl

theorem meets_get {post : ParseState → ParseState → Prop} :
    Meets fault input get s post ↔ post s s := Iff.rfl

/-! ### The cursor -/

@[simp] theorem meets_cursor {post : Int → ParseState → Prop} :
    Meets fault input cursor s post ↔ post s.cursor s := Iff.rfl

@[simp] theorem meets_setCursor {post : Unit → ParseState → Prop} :
    Meets fault input (setCursor p) s post ↔ post () (.at p s.diagnostics) := Iff.rfl

/-- The token under the cursor is seen, or the end marker past the last one. -/
@[simp] theorem meets_current {post : Token → ParseState → Prop} :
    Meets fault input current (.at p d) post ↔ post (input.tokenAt p) (.at p d) := by
  simp only [current, meets_bind, meets_read, meets_get, ParseState.cursor_at,
    Input.seen?_natCast, meets_pure]

@[simp] theorem meets_peek_one {post : Token → ParseState → Prop} :
    Meets fault input (peek 1) (.at p d) post ↔ post (input.tokenAt (p + 1)) (.at p d) := by
  -- a place counts from zero, so that the one behind it is no place in front of the tokens
  have h : ¬ ((p : Int) + 1 < 0) := by omega
  simp only [peek, meets_bind, meets_read, meets_get, ParseState.cursor_at, meets_pure, h,
    if_false]
  rfl

/-- The end is wherever there is no further token. -/
@[simp] theorem meets_atEnd {post : Bool → ParseState → Prop} :
    Meets fault input atEnd (.at p d) post ↔ post (decide (input.size ≤ p)) (.at p d) := by
  simp only [atEnd, meets_bind, meets_read, meets_get, ParseState.cursor_at, meets_pure,
    Int.ofNat_le]

@[simp] theorem meets_advance {post : Unit → ParseState → Prop} :
    Meets fault input advance (.at p d) post ↔ post () (.at (p + 1) d) := Iff.rfl

/-- The token is taken and the cursor moves past it. -/
@[simp] theorem meets_consume {post : Token → ParseState → Prop} :
    Meets fault input consume (.at p d) post ↔ post (input.tokenAt p) (.at (p + 1) d) := by
  simp only [consume, meets_bind, meets_current, meets_advance, meets_pure]

/-! ### Reporting -/

variable {message template code text : String} {kind : Option Kind} {wanted : Option String}

/-- A report is appended and moves nothing. -/
@[simp] theorem meets_reportAt {offset : Int} {length : Nat} {post : Unit → ParseState → Prop} :
    Meets fault input (reportAt message code offset length) (.at p d) post ↔
      post () (.at p (d.push (Diagnostic.errorAt input.source code message offset length ""))) :=
  Iff.rfl

/-- A report without a place of its own is about the token under the cursor. -/
@[simp] theorem meets_report {post : Unit → ParseState → Prop} :
    Meets fault input (report message code) (.at p d) post ↔
      post () (.at p (d.push (input.errorAt p message code))) := by
  simp only [report, meets_bind, meets_current, meets_reportAt, Input.errorAt]

@[simp] theorem meets_reportFound {post : Unit → ParseState → Prop} :
    Meets fault input (reportFound template code) (.at p d) post ↔
      post () (.at p (d.push
        (input.errorAt p (fillTemplate template (input.tokenAt p)) code))) := by
  simp only [reportFound, meets_bind, meets_current, meets_report]

/-- What is required is not taken; where it is missing, the token that was found is reported. -/
@[simp] theorem meets_require {post : Expectation → ParseState → Prop} :
    Meets fault input (require kind wanted template code) (.at p d) post ↔
      if (input.tokenAt p).fits kind wanted then
        post ⟨true, input.tokenAt p, kind, wanted⟩ (.at p d)
      else
        post ⟨false, input.tokenAt p, kind, wanted⟩
          (.at p (d.push (input.errorAt p (fillTemplate template (input.tokenAt p)) code))) := by
  cases h : (input.tokenAt p).fits kind wanted <;>
    simp [require, expect, h, Expectation.format, Input.errorAt]

/-- A closing symbol is taken, or reported as missing and not stepped over. -/
@[simp] theorem meets_close {post : Unit → ParseState → Prop} :
    Meets fault input (close text template) (.at p d) post ↔
      if (input.tokenAt p).isSymbol text then post () (.at (p + 1) d)
      else post () (.at p (d.push
        (input.errorAt p (fillTemplate template (input.tokenAt p)) defaultCode))) := by
  cases h : (input.tokenAt p).isSymbol text <;> simp [close, h]

@[simp] theorem meets_skip {post : Unit → ParseState → Prop} :
    Meets fault input (skip text) (.at p d) post ↔
      if (input.tokenAt p).isSymbol text then post () (.at (p + 1) d) else post () (.at p d) := by
  simp [skip]

/-! ### Recovery -/

@[simp] theorem meets_mark {post : Mark → ParseState → Prop} :
    Meets fault input mark (.at p d) post ↔ post ⟨p, d.size⟩ (.at p d) := Iff.rfl

/-- Where a construct took tokens and reported nothing, there is nothing to recover from. -/
theorem meets_recover_quiet {start : Mark} {stops : List String} {post : Unit → ParseState → Prop}
    (hp : start.cursor < p) (hd : d.size = start.reported) (h : post () (.at p d)) :
    Meets fault input (recover start stops) (.at p d) post := by
  have hne : ¬ ((p : Int) = start.cursor) := by omega
  simpa [recover, meets_get, hne, hd] using h

/-- Skipping a symbol reports nothing. -/
theorem meets_skip_keeps : Meets fault input (skip text) (.at p d) fun _ t => ∃ q, t = .at q d := by
  by_cases h : (input.tokenAt p).isSymbol text
  · simp only [meets_skip, h]
    exact ⟨p + 1, rfl⟩
  · simp only [meets_skip, h]
    exact ⟨p, rfl⟩

/-- Recovery reports nothing. -/
theorem meets_recover_keeps {start : Mark} {stops : List String} :
    Meets fault input (recover start stops) (.at p d) fun _ t => ∃ q, t = .at q d := by
  simp only [recover, meets_bind, meets_get]
  refine .ite (fun _ => ⟨p + 1, rfl⟩) fun _ => ?_
  simp only [meets_bind, meets_atEnd]
  refine .ite (fun _ => ⟨p, rfl⟩) fun _ => ?_
  simp only [meets_bind, meets_current]
  refine .ite (fun _ => ⟨p, rfl⟩) fun _ => ?_
  exact .ite (fun _ => ⟨p, rfl⟩) fun _ => ⟨p + 1, rfl⟩

/-- Recovery leaves the place where the construct began, moves by one token at most and never past
the end. -/
theorem meets_recover {start : Mark} {stops : List String} {q : Nat} {e : Array Diagnostic}
    (hstart : start.cursor = p) (hpq : p ≤ q) (hp : p < input.size) (hq : q ≤ input.size) :
    Meets fault input (recover start stops) (.at q e) fun _ t =>
      ∃ r, t = .at r e ∧ q ≤ r ∧ p < r ∧ r ≤ input.size := by
  simp only [recover, meets_bind, meets_get, ParseState.cursor_at, hstart]
  -- the construct took nothing: its first token is stepped over, and there is one
  refine .ite (fun _ => ⟨q + 1, rfl, by omega, by omega, by omega⟩) fun hne => ?_
  have hmoved : p < q := by omega
  simp only [meets_bind, meets_atEnd]
  refine .ite (fun _ => ⟨q, rfl, Nat.le_refl q, hmoved, hq⟩) fun hgo => ?_
  -- only in front of a token can the last report be about it
  have hlt : q < input.size := by simp at hgo; omega
  simp only [meets_bind, meets_current]
  refine .ite (fun _ => ⟨q, rfl, Nat.le_refl q, hmoved, hq⟩) fun _ => ?_
  refine .ite (fun _ => ⟨q, rfl, Nat.le_refl q, hmoved, hq⟩) fun _ => ?_
  exact ⟨q + 1, rfl, by omega, by omega, hlt⟩

end Parse

/-! ## Steps that may decline -/

namespace Attempt

open Parse

/-- The step, run from a state, ends with a value and a state that satisfy `made`, or declines in a
state that satisfies `declined`; where it stops for good, `fault` holds. -/
def Meets (fault : Prop) (input : Input) (step : Attempt α) (s : ParseState)
    (made : α → ParseState → Prop) (declined : ParseState → Prop) : Prop :=
  Parse.Meets fault input step.run s fun
    | some a, t => made a t
    | none, t => declined t

variable {step : Attempt α} {made : α → ParseState → Prop} {declined : ParseState → Prop}

/-- What an attempt meets may be weakened on both sides. -/
theorem Meets.mono {made' : α → ParseState → Prop} {declined' : ParseState → Prop}
    (h : Meets fault input step s made declined) (hm : ∀ a t, made a t → made' a t)
    (hd : ∀ t, declined t → declined' t) : Meets fault input step s made' declined' :=
  Parse.Meets.mono h fun
    | some a, t => hm a t
    | none, t => hd t

/-- Of two things that an attempt meets, only one has to know that the attempt ends. -/
theorem Meets.and {made' : α → ParseState → Prop} {declined' : ParseState → Prop}
    (h : Meets fault input step s made declined) (h' : Meets True input step s made' declined') :
    Meets fault input step s (fun a t => made a t ∧ made' a t)
      (fun t => declined t ∧ declined' t) :=
  (Parse.Meets.and h h').mono fun
    | some _, _ => id
    | none, _ => id

/-- The outcome of an attempt tells whether it declined. -/
@[simp] theorem meets_run {post : Option α → ParseState → Prop} :
    Parse.Meets fault input step.run s post ↔
      Meets fault input step s (fun a t => post (some a) t) (fun t => post none t) := by
  unfold Meets
  constructor <;>
    exact fun h => Parse.Meets.mono h fun
      | some _, _ => id
      | none, _ => id

@[simp] theorem meets_pure {a : α} : Meets fault input (pure a) s made declined ↔ made a s :=
  Iff.rfl

@[simp] theorem meets_failure :
    Meets fault input (failure : Attempt α) s made declined ↔ declined s :=
  Iff.rfl

/-- Where the first of two attempts declines, both do, and the second one is not run. -/
@[simp] theorem meets_bind {next : α → Attempt β} {made : β → ParseState → Prop} :
    Meets fault input (step >>= next) s made declined ↔
      Meets fault input step s
        (fun a t => Meets fault input (next a) t made declined) declined := by
  unfold Meets
  rw [OptionT.run_bind, Option.elimM, Parse.meets_bind]
  constructor <;>
    exact fun h => Parse.Meets.mono h fun
      | some _, _ => id
      | none, _ => id

@[simp] theorem meets_map {f : α → β} {made : β → ParseState → Prop} :
    Meets fault input (f <$> step) s made declined ↔
      Meets fault input step s (fun a t => made (f a) t) declined := by
  rw [map_eq_pure_bind, meets_bind]
  simp only [meets_pure]

@[simp] theorem meets_ite {c : Prop} [Decidable c] {yes no : Attempt α} :
    Meets fault input (if c then yes else no) s made declined ↔
      if c then Meets fault input yes s made declined
      else Meets fault input no s made declined := by
  split <;> rfl

theorem Meets.ite {c : Prop} [Decidable c] {yes no : Attempt α}
    (hyes : c → Meets fault input yes s made declined)
    (hno : ¬c → Meets fault input no s made declined) :
    Meets fault input (if c then yes else no) s made declined := by
  split
  · next h => exact hyes h
  · next h => exact hno h

/-- A step within an attempt never declines. -/
@[simp] theorem meets_lift {step : Parse α} :
    Meets fault input (OptionT.lift step) s made declined ↔
      Parse.Meets fault input step s made := by
  unfold Meets
  change Parse.Meets fault input (some <$> step) s _ ↔ _
  rw [Parse.meets_map]

@[simp] theorem meets_liftM {step : Parse α} :
    Meets fault input (liftM step : Attempt α) s made declined ↔
      Parse.Meets fault input step s made := meets_lift

/-- An attempt within an attempt never declines. -/
@[simp] theorem meets_orNone {made : Option α → ParseState → Prop} :
    Meets fault input (orNone step) s made declined ↔
      Meets fault input step s (fun a t => made (some a) t) (fun t => made none t) := by
  rw [orNone, meets_lift, meets_run]

@[simp] theorem meets_stop {reason : Fault} :
    Meets fault input (stop reason : Parse α) s made declined ↔ fault := Iff.rfl

@[simp] theorem meets_endless :
    Meets fault input (endless : Parse α) s made declined ↔ fault := Iff.rfl

variable {text template : String} {kind : Option Kind} {wanted : Option String}

/-- What is needed and missing is reported before the attempt declines. -/
@[simp] theorem meets_need {made : Unit → ParseState → Prop} :
    Meets fault input (need kind wanted template) (.at p d) made declined ↔
      if (input.tokenAt p).fits kind wanted then made () (.at p d)
      else declined (.at p (d.push
        (input.errorAt p (fillTemplate template (input.tokenAt p)) defaultCode))) := by
  cases h : (input.tokenAt p).fits kind wanted <;> simp [need, h]

/-- A symbol that is needed is taken. -/
@[simp] theorem meets_needSymbol {made : Unit → ParseState → Prop} :
    Meets fault input (needSymbol text template) (.at p d) made declined ↔
      if (input.tokenAt p).isSymbol text then made () (.at (p + 1) d)
      else declined (.at p (d.push
        (input.errorAt p (fillTemplate template (input.tokenAt p)) defaultCode))) := by
  simp [needSymbol]

@[simp] theorem meets_needKeyword {made : Unit → ParseState → Prop} :
    Meets fault input (needKeyword text template) (.at p d) made declined ↔
      if (input.tokenAt p).isKeyword text then made () (.at (p + 1) d)
      else declined (.at p (d.push
        (input.errorAt p (fillTemplate template (input.tokenAt p)) defaultCode))) := by
  simp [needKeyword]

/-- An identifier that is needed is taken and handed on. -/
@[simp] theorem meets_needIdentifier {made : Token → ParseState → Prop} :
    Meets fault input (needIdentifier template) (.at p d) made declined ↔
      if (input.tokenAt p).kind = Kind.identifier then made (input.tokenAt p) (.at (p + 1) d)
      else declined (.at p (d.push
        (input.errorAt p (fillTemplate template (input.tokenAt p)) defaultCode))) := by
  simp [needIdentifier]

end Attempt

end SharpSyntax
