import SharpSyntax.Proofs.Bodies

/-!
# Braces that are open

The level of a place is the number of opening braces in front of it less the number of closing ones.
A closing brace matches an opening one if it is the first place behind it at which the level comes
back.

Without plugins the routines of the grammar *keep* the level: what they read never falls below the
level they began at, and ends at that level. There are two ways out. The input may end within a
construct; or a loop over statements or members may have stepped over an opening brace that begins
none, and then something was reported there. Steps that keep the level may be put one behind the
other.
-/

namespace SharpSyntax

open Parse Attempt Grammar

variable {α β : Type} {input : Input} {p q r : Nat} {d e f : Array Diagnostic}
  {s t u : ParseState}

/-! ## Levels -/

namespace Token

variable {token : Token} {text : String}

/-- What a token adds to the level. -/
def weight (token : Token) : Int :=
  if token.isSymbol openBrace then 1 else if token.isSymbol closeBrace then -1 else 0

theorem weight_open (h : token.isSymbol openBrace = true) : token.weight = 1 := by
  simp [weight, h]

theorem weight_close (h : token.isSymbol closeBrace = true) : token.weight = -1 := by
  have hopen : token.isSymbol openBrace = false := isSymbol_eq_false h _ (by decide)
  simp [weight, h, hopen]

/-- A token that is no brace adds nothing to the level. -/
theorem weight_of_not_isBrace (h : ¬ token.IsBrace) : token.weight = 0 := by
  obtain ⟨hopen, hclose⟩ := not_or.mp h
  simp [weight, hopen, hclose]

theorem not_isBrace_of_text (hopen : token.text ≠ openBrace) (hclose : token.text ≠ closeBrace) :
    ¬ token.IsBrace :=
  not_or.mpr ⟨fun h => hopen (isSymbol_iff.mp h).2, fun h => hclose (isSymbol_iff.mp h).2⟩

/-- Another symbol is no brace. -/
theorem not_isBrace_of_symbol (hother : text ∉ [openBrace, closeBrace])
    (h : token.isSymbol text = true) : ¬ token.IsBrace := by
  obtain ⟨-, rfl⟩ := isSymbol_iff.mp h
  have hclose := List.not_mem_of_not_mem_cons hother
  exact not_isBrace_of_text (List.ne_of_not_mem_cons hother) (List.ne_of_not_mem_cons hclose)

theorem not_isBrace_of_not_not (hother : text ∉ [openBrace, closeBrace])
    (h : ¬(!token.isSymbol text) = true) : ¬ token.IsBrace :=
  not_isBrace_of_symbol hother (by simpa using h)

theorem not_isBrace_of_kind (h : token.kind ≠ Kind.symbol) : ¬ token.IsBrace := by
  refine not_or.mpr ⟨?_, ?_⟩ <;> simpa using isSymbol_eq_false_of_kind h _

theorem not_isBrace_of_identifier (h : token.kind = Kind.identifier) : ¬ token.IsBrace :=
  not_isBrace_of_kind (by rw [h]; decide)

theorem not_isBrace_of_keyword (h : token.isKeyword text = true) : ¬ token.IsBrace := by
  refine not_isBrace_of_kind ?_
  rw [(isKeyword_iff.mp h).1]
  decide

end Token

namespace Input

/-- How many braces are open in front of a place. -/
def level (input : Input) : Nat → Int
  | 0 => 0
  | p + 1 => input.level p + (input.tokenAt p).weight

/-- Behind an opening brace the level is one higher. -/
theorem level_open (h : (input.tokenAt p).isSymbol openBrace = true) :
    input.level (p + 1) = input.level p + 1 := by
  rw [level, Token.weight_open h]

/-- Behind a closing brace the level is one lower. -/
theorem level_close (h : (input.tokenAt p).isSymbol closeBrace = true) :
    input.level (p + 1) = input.level p - 1 := by
  rw [level, Token.weight_close h]
  rfl

/-- Behind any other token the level is the same. -/
theorem level_flat (h : ¬ (input.tokenAt p).IsBrace) : input.level (p + 1) = input.level p := by
  rw [level, Token.weight_of_not_isBrace h, Int.add_zero]

/-- The closing brace at `m` matches the opening brace at `p`. -/
structure Matches (input : Input) (p m : Nat) : Prop where
  opens : (input.tokenAt p).isSymbol openBrace = true
  closes : (input.tokenAt m).isSymbol closeBrace = true
  lt : p < m
  /-- Between the two the level is above that of the opening brace. -/
  inside : ∀ r, p < r → r ≤ m → input.level p < input.level r
  /-- Behind the closing brace it is the same again. -/
  even : input.level (m + 1) = input.level p

/-- Only the places up to the closing brace have to be looked at. -/
theorem matches_iff {m : Nat} : input.Matches p m ↔
    (input.tokenAt p).isSymbol openBrace = true ∧ (input.tokenAt m).isSymbol closeBrace = true ∧
      p < m ∧ (∀ r < m + 1, p < r → input.level p < input.level r) ∧
      input.level (m + 1) = input.level p :=
  ⟨fun ⟨hopen, hclose, hlt, hinside, heven⟩ =>
      ⟨hopen, hclose, hlt, fun r hr hpr => hinside r hpr (Nat.le_of_lt_succ hr), heven⟩,
    fun ⟨hopen, hclose, hlt, hinside, heven⟩ =>
      ⟨hopen, hclose, hlt, fun r hpr hr => hinside r (Nat.lt_succ_of_le hr) hpr, heven⟩⟩

instance (input : Input) (p m : Nat) : Decidable (input.Matches p m) :=
  decidable_of_iff _ matches_iff.symm

/-- Since the first state something was reported at an opening brace that was stepped over on the
way to the second. -/
def Blames (input : Input) (s t : ParseState) : Prop :=
  ∃ (new : List Diagnostic) (x : Diagnostic) (i : Nat),
    t.diagnostics.toList = s.diagnostics.toList ++ new ∧ x ∈ new ∧ s.cursor ≤ i ∧ i < t.cursor ∧
      (input.tokenAt i).isSymbol openBrace = true ∧ x.offset = (input.tokenAt i).offset

/-- What was reported on a stretch was reported on every longer one. -/
theorem Blames.mono {s' t' : ParseState} (h : input.Blames s t) (hs : s'.cursor ≤ s.cursor)
    (ht : t.cursor ≤ t'.cursor) (hs' : Extends s'.diagnostics s.diagnostics)
    (ht' : Extends t.diagnostics t'.diagnostics) : input.Blames s' t' := by
  obtain ⟨new, x, i, hnew, hx, hsi, hit, hopen, hoffset⟩ := h
  obtain ⟨before, hbefore⟩ := hs'
  obtain ⟨after, hafter⟩ := ht'
  refine ⟨before ++ new ++ after, x, i, ?_, by simp [hx], by omega, by omega, hopen, hoffset⟩
  rw [← hafter, hnew, ← hbefore]
  simp only [List.append_assoc]

/-- Between two places the level never falls below that of the first, and at the second it is the
same again, unless the input has ended or an opening brace was stepped over with a report. -/
structure Keeps (input : Input) (p : Nat) (d : Array Diagnostic) (q : Nat)
    (e : Array Diagnostic) : Prop where
  le : p ≤ q
  reports : Extends d e
  above : ∀ r, p ≤ r → r ≤ q → input.level p ≤ input.level r
  even : input.level q = input.level p ∨ input.size ≤ q ∨ input.Blames (.at p d) (.at q e)

namespace Keeps

theorem here (h : Extends d e) : input.Keeps p d p e where
  le := Nat.le_refl p
  reports := h
  above _ hpr hrp := Nat.le_antisymm hrp hpr ▸ Int.le_refl _
  even := .inl rfl

/-- Stretches that keep the level may be put one behind the other. -/
theorem trans (h : input.Keeps p d q e) (h' : input.Keeps q e r f) : input.Keeps p d r f where
  le := Nat.le_trans h.le h'.le
  reports := h.reports.trans h'.reports
  above k hpk hkr := by
    rcases Nat.le_total k q with hkq | hqk
    · exact h.above k hpk hkq
    · exact Int.le_trans (h.above q h.le (Nat.le_refl q)) (h'.above k hqk hkr)
  even := by
    have hqr := h'.le
    have hpq := h.le
    rcases h'.even with heven' | hend' | hblames'
    · rcases h.even with heven | hend | hblames
      · exact .inl (heven'.trans heven)
      · exact .inr (.inl (Nat.le_trans hend hqr))
      · exact .inr (.inr (hblames.mono (Int.le_refl _) (by simpa using hqr) (.refl d) h'.reports))
    · exact .inr (.inl hend')
    · exact .inr (.inr (hblames'.mono (by simpa using hpq) (Int.le_refl _) h.reports (.refl f)))

/-- A token that is no brace leaves the level as it is. -/
theorem next (h : ¬ (input.tokenAt p).IsBrace) : input.Keeps p d (p + 1) d where
  le := Nat.le_succ p
  reports := .refl d
  above r hpr hrp := by
    obtain rfl | rfl : r = p ∨ r = p + 1 := by omega
    · exact Int.le_refl _
    · exact Int.le_of_eq (level_flat h).symm
  even := .inl (level_flat h)

/-- An opening brace at which something was reported may be stepped over. -/
theorem skip (h : input.Keeps p d q e) (hopen : (input.tokenAt q).isSymbol openBrace = true)
    {new : List Diagnostic} {x : Diagnostic} (hnew : e.toList = d.toList ++ new) (hx : x ∈ new)
    (hoffset : x.offset = (input.tokenAt q).offset) : input.Keeps p d (q + 1) e where
  le := Nat.le_succ_of_le h.le
  reports := h.reports
  above r hpr hrq := by
    rcases Nat.lt_or_ge q r with hqr | hrq'
    · obtain rfl : r = q + 1 := by omega
      have hq := h.above q h.le (Nat.le_refl q)
      rw [level_open hopen]
      omega
    · exact h.above r hpr hrq'
  even := by
    have hpq := h.le
    exact .inr (.inr ⟨new, x, q, hnew, hx, Int.ofNat_le.mpr hpq,
      Int.ofNat_lt.mpr (Nat.lt_succ_self q), hopen, hoffset⟩)

/-- An opening brace that is reported and stepped over. -/
theorem reported {x : Diagnostic} (hopen : (input.tokenAt p).isSymbol openBrace = true)
    (hx : x.offset = (input.tokenAt p).offset) : input.Keeps p d (p + 1) (d.push x) :=
  have hhere : input.Keeps p d p (d.push x) := .here (.push (.refl d) x)
  hhere.skip hopen Array.toList_push (List.mem_singleton_self x) hx

/-- Behind an opening brace the level is above that of the brace. -/
theorem above_open (h : input.Keeps (p + 1) d q e)
    (hopen : (input.tokenAt p).isSymbol openBrace = true) (hpr : p < r) (hrq : r ≤ q) :
    input.level p < input.level r := by
  have hfirst := level_open hopen
  have hr := h.above r hpr hrq
  omega

/-- What is read behind an opening brace up to the end of the input. -/
theorem unclosed (h : input.Keeps (p + 1) d q e)
    (hopen : (input.tokenAt p).isSymbol openBrace = true) (hend : input.size ≤ q) :
    input.Keeps p d q e where
  le := Nat.le_of_succ_le h.le
  reports := h.reports
  above r hpr hrq := by
    rcases Nat.lt_or_eq_of_le hpr with hlt | rfl
    · exact Int.le_of_lt (h.above_open hopen hlt hrq)
    · exact Int.le_refl _
  even := .inr (.inl hend)

/-- What is read between an opening brace and the closing one behind it. -/
theorem braced (h : input.Keeps (p + 1) d q e)
    (hopen : (input.tokenAt p).isSymbol openBrace = true)
    (hclose : (input.tokenAt q).isSymbol closeBrace = true) : input.Keeps p d (q + 1) e := by
  have hfirst := level_open hopen
  have hlast := level_close hclose
  have hpq : p < q := h.le
  refine ⟨by omega, h.reports, fun r hpr hrq => ?_, ?_⟩
  · have hq := h.above_open hopen hpq (Nat.le_refl q)
    rcases Nat.lt_or_ge q r with hqr | hrq'
    · obtain rfl : r = q + 1 := by omega
      omega
    · rcases Nat.lt_or_eq_of_le hpr with hlt | rfl
      · exact Int.le_of_lt (h.above_open hopen hlt hrq')
      · exact Int.le_refl _
  · rcases h.even with heven | hend | hblames
    · exact .inl (by omega)
    · exact .inr (.inl (Nat.le_succ_of_le hend))
    · exact .inr (.inr (hblames.mono (Int.ofNat_le.mpr (Nat.le_succ p))
        (Int.ofNat_le.mpr (Nat.le_succ q)) (.refl d) (.refl e)))

end Keeps

/-- The state is at a place up to which the level was kept. -/
def Kept (input : Input) (p : Nat) (d : Array Diagnostic) (t : ParseState) : Prop :=
  ∃ q e, t = .at q e ∧ input.Keeps p d q e

theorem Kept.here (h : Extends d e) : input.Kept p d (.at p e) := ⟨p, e, rfl, .here h⟩

theorem Kept.trans (h : input.Keeps p d q e) (h' : input.Kept q e t) : input.Kept p d t := by
  obtain ⟨r, f, rfl, hr⟩ := h'
  exact ⟨r, f, rfl, h.trans hr⟩

end Input

/-! ## Steps that keep the level -/

/-- Run from a place, the step keeps the level. -/
def Parse.Balances (input : Input) (x : Parse α) (p : Nat) : Prop :=
  ∀ d, Parse.Meets True input x (.at p d) fun _ => input.Kept p d

/-- Run from a place, the step keeps the level, whether it makes something or declines. -/
def Attempt.Balances (input : Input) (x : Attempt α) (p : Nat) : Prop :=
  ∀ d, Attempt.Meets True input x (.at p d) (fun _ => input.Kept p d) (input.Kept p d)

namespace Parse.Balances

variable {x y : Parse α} {message template code text : String} {kind : Option Kind}
  {wanted : Option String}

theorem pure {a : α} : Balances input (pure a) p := fun d => .here (.refl d)

theorem endless : Balances input (endless : Parse α) p := fun _ => trivial

/-- What goes on where the level was kept keeps it from there. -/
theorem behind (h : Balances input x q) (hkeeps : input.Keeps p d q e) :
    Meets True input x (.at q e) fun _ => input.Kept p d :=
  Meets.mono (h e) fun _ _ ht => ht.trans hkeeps

/-- What follows a step keeps the level from where the step ended. -/
theorem bind {next : α → Parse β} (h : Balances input x p)
    (hnext : ∀ a q, p ≤ q → Balances input (next a) q) : Balances input (x >>= next) p := by
  intro d
  rw [meets_bind]
  refine Meets.mono (h d) fun a t => ?_
  rintro ⟨q, e, rfl, hkeeps⟩
  exact (hnext a q hkeeps.le).behind hkeeps

/-- Both branches of a choice keep the level. -/
theorem ite {c : Prop} [Decidable c] (hyes : c → Balances input x p)
    (hno : ¬c → Balances input y p) : Balances input (if c then x else y) p := by
  split
  · next h => exact hyes h
  · next h => exact hno h

theorem current {next : Token → Parse β} (h : Balances input (next (input.tokenAt p)) p) :
    Balances input (current >>= next) p := by
  intro d
  rw [meets_bind, meets_current]
  exact h d

theorem atEnd {next : Bool → Parse β} (h : ∀ stop, Balances input (next stop) p) :
    Balances input (atEnd >>= next) p := by
  intro d
  rw [meets_bind, meets_atEnd]
  exact h _ d

/-- Tokens that are no braces may be taken. -/
theorem advance {next : Unit → Parse β} (hflat : ¬ (input.tokenAt p).IsBrace)
    (h : Balances input (next ()) (p + 1)) : Balances input (advance >>= next) p := by
  intro d
  rw [meets_bind, meets_advance]
  exact h.behind (.next hflat)

/-- A token may be taken that is no brace. -/
theorem consume {next : Token → Parse β} (hflat : ¬ (input.tokenAt p).IsBrace)
    (h : Balances input (next (input.tokenAt p)) (p + 1)) :
    Balances input (consume >>= next) p := by
  intro d
  rw [meets_bind, meets_consume]
  exact h.behind (.next hflat)

/-- What follows knows whether the token was found. -/
theorem require {next : Expectation → Parse β}
    (hfound : (input.tokenAt p).fits kind wanted = true →
      Balances input (next ⟨true, input.tokenAt p, kind, wanted⟩) p)
    (hmissing : Balances input (next ⟨false, input.tokenAt p, kind, wanted⟩) p) :
    Balances input (require kind wanted template code >>= next) p := by
  intro d
  rw [meets_bind, meets_require]
  split
  · next hfits => exact hfound hfits d
  · exact hmissing.behind (.here (.push (.refl d) _))

theorem reportAt {offset : Int} {length : Nat} :
    Balances input (reportAt message code offset length) p :=
  fun d => .here (.push (.refl d) _)

theorem report : Balances input (report message code) p := by
  intro d
  rw [meets_report]
  exact .here (.push (.refl d) _)

theorem reportFound : Balances input (reportFound template code) p := by
  intro d
  rw [meets_reportFound]
  exact .here (.push (.refl d) _)

/-- Only braces change the level, so that other closers may be taken or missing. -/
theorem close (hother : text ∉ [openBrace, closeBrace]) :
    Balances input (close text template) p := by
  intro d
  rw [meets_close]
  split
  · next hsymbol => exact ⟨p + 1, d, rfl, .next (Token.not_isBrace_of_symbol hother hsymbol)⟩
  · exact .here (.push (.refl d) _)

theorem skip (hother : text ∉ [openBrace, closeBrace]) :
    Balances input (skip text) p := by
  intro d
  rw [meets_skip]
  split
  · next hsymbol => exact ⟨p + 1, d, rfl, .next (Token.not_isBrace_of_symbol hother hsymbol)⟩
  · exact .here (.refl d)

end Parse.Balances

namespace Attempt.Balances

variable {x y : Attempt α} {text template : String}

theorem pure {a : α} : Balances input (pure a) p := fun d => .here (.refl d)

/-- Declining leaves the level as it is. -/
theorem failure : Balances input (failure : Attempt α) p := fun d => .here (.refl d)

theorem failure_bind {next : α → Attempt β} :
    Balances input ((Alternative.failure : Attempt α) >>= next) p := fun d => .here (.refl d)

theorem endless : Balances input (Parse.endless : Attempt α) p := fun _ => trivial

/-- What goes on where the level was kept keeps it from there. -/
theorem behind (h : Balances input x q) (hkeeps : input.Keeps p d q e) :
    Meets True input x (.at q e) (fun _ => input.Kept p d) (input.Kept p d) :=
  Meets.mono (h e) (fun _ _ ht => ht.trans hkeeps) fun _ ht => ht.trans hkeeps

/-- What follows an attempt keeps the level from where the attempt ended. -/
theorem bind {next : α → Attempt β} (h : Balances input x p)
    (hnext : ∀ a q, p ≤ q → Balances input (next a) q) : Balances input (x >>= next) p := by
  intro d
  rw [meets_bind]
  refine Meets.mono (h d) (fun a t => ?_) fun _ => id
  rintro ⟨q, e, rfl, hkeeps⟩
  exact (hnext a q hkeeps.le).behind hkeeps

theorem map {g : α → β} (h : Balances input x p) : Balances input (g <$> x) p := by
  rw [map_eq_pure_bind]
  exact h.bind fun _ _ _ => .pure

theorem ite {c : Prop} [Decidable c] (hyes : c → Balances input x p)
    (hno : ¬c → Balances input y p) : Balances input (if c then x else y) p := by
  split
  · next h => exact hyes h
  · next h => exact hno h

/-- A step within an attempt keeps the level where it does so alone. -/
theorem lift {x : Parse α} (h : Parse.Balances input x p) :
    Balances input (OptionT.lift x) p := by
  intro d
  rw [meets_lift]
  exact h d

theorem liftM {x : Parse α} (h : Parse.Balances input x p) :
    Balances input (liftM x : Attempt α) p := lift h

theorem current {next : Token → Attempt β} (h : Balances input (next (input.tokenAt p)) p) :
    Balances input (MonadLiftT.monadLift Parse.current >>= next) p := by
  intro d
  rw [meets_bind, meets_liftM, meets_current]
  exact h d

theorem atEnd {next : Bool → Attempt β} (h : ∀ stop, Balances input (next stop) p) :
    Balances input (MonadLiftT.monadLift Parse.atEnd >>= next) p := by
  intro d
  rw [meets_bind, meets_liftM, meets_atEnd]
  exact h _ d

theorem advance {next : Unit → Attempt β} (hflat : ¬ (input.tokenAt p).IsBrace)
    (h : Balances input (next ()) (p + 1)) :
    Balances input (MonadLiftT.monadLift Parse.advance >>= next) p := by
  intro d
  rw [meets_bind, meets_liftM, meets_advance]
  exact h.behind (.next hflat)

/-- An attempt within an attempt never declines, and what follows it is told by cases. -/
theorem bindOrNone {next : Option α → Attempt β} (h : Balances input x p)
    (hnext : ∀ made q, p ≤ q → Balances input (next made) q) :
    Balances input (orNone x >>= next) p := by
  intro d
  rw [meets_bind, meets_orNone]
  refine Meets.mono (h d) (fun a t => ?_) fun t => ?_
  · rintro ⟨q, e, rfl, hkeeps⟩
    exact (hnext (some a) q hkeeps.le).behind hkeeps
  · rintro ⟨q, e, rfl, hkeeps⟩
    exact (hnext none q hkeeps.le).behind hkeeps

/-- What follows an attempt is told by cases. -/
theorem run {next : Option α → Parse β} (h : Balances input x p)
    (hnext : ∀ made q, p ≤ q → Parse.Balances input (next made) q) :
    Parse.Balances input (x.run >>= next) p := by
  intro d
  rw [Parse.meets_bind, meets_run]
  refine Meets.mono (h d) (fun a t => ?_) fun t => ?_
  · rintro ⟨q, e, rfl, hkeeps⟩
    exact (hnext (some a) q hkeeps.le).behind hkeeps
  · rintro ⟨q, e, rfl, hkeeps⟩
    exact (hnext none q hkeeps.le).behind hkeeps

theorem needSymbol {next : Unit → Attempt β} (hother : text ∉ [openBrace, closeBrace])
    (h : Balances input (next ()) (p + 1)) :
    Balances input (needSymbol text template >>= next) p := by
  intro d
  rw [meets_bind, meets_needSymbol]
  split
  · next hsymbol => exact h.behind (.next (Token.not_isBrace_of_symbol hother hsymbol))
  · exact .here (.push (.refl d) _)

/-- A keyword is no brace. -/
theorem needKeyword {next : Unit → Attempt β} (h : Balances input (next ()) (p + 1)) :
    Balances input (needKeyword text template >>= next) p := by
  intro d
  rw [meets_bind, meets_needKeyword]
  split
  · next hword => exact h.behind (.next (Token.not_isBrace_of_keyword hword))
  · exact .here (.push (.refl d) _)

/-- An identifier is no brace. -/
theorem needIdentifier {next : Token → Attempt β}
    (h : Balances input (next (input.tokenAt p)) (p + 1)) :
    Balances input (needIdentifier template >>= next) p := by
  intro d
  rw [meets_bind, meets_needIdentifier]
  split
  · next hkind =>
    exact h.behind (.next (Token.not_isBrace_of_identifier hkind))
  · exact .here (.push (.refl d) _)

end Attempt.Balances

/-! ## Bodies between braces -/

/-- Run from a place, the step keeps the level up to a closing brace or to the end of the input. -/
def Parse.Closes (input : Input) (x : Parse α) (p : Nat) : Prop :=
  ∀ d, Parse.Meets True input x (.at p d) fun _ t => ∃ q e, t = .at q e ∧ input.Keeps p d q e ∧
    (input.size ≤ q ∨ (input.tokenAt q).isSymbol closeBrace = true)

/-- A body between braces brings the level back, unless the input ends in it. -/
theorem Attempt.Balances.braced {body : Parse α} {next : α → Attempt β}
    {opening closing : String} (hbody : Parse.Closes input body (p + 1))
    (hnext : ∀ a q, Balances input (next a) q) :
    Balances input (Attempt.needSymbol openBrace opening >>= fun _ =>
      MonadLiftT.monadLift body >>= fun a =>
      MonadLiftT.monadLift (Parse.close closeBrace closing) >>= fun _ => next a) p := by
  intro d
  rw [meets_bind, meets_needSymbol]
  split
  case isFalse => exact .here (.push (.refl d) _)
  case isTrue hopen =>
    simp only [meets_bind, meets_liftM]
    refine (hbody d).mono fun a t => ?_
    rintro ⟨q, e, rfl, hkeeps, hend⟩
    rw [meets_close]
    split
    · next hclose => exact (hnext a (q + 1)).behind (hkeeps.braced hopen hclose)
    · next hclose =>
      have hunclosed := hkeeps.unclosed hopen (hend.resolve_right hclose)
      exact (hnext a q).behind (hunclosed.trans (.here (.push (.refl e) _)))

/-- Recovery in a body that a closing brace ends keeps the level. It may step over an opening brace,
but only over one at which the last report was made. -/
theorem Parse.recover_kept {stops : List String} (hkeeps : input.Keeps p d q e)
    (hstops : closeBrace ∈ stops) (hflat : q = p → ¬ (input.tokenAt p).IsBrace) :
    Parse.Meets True input (recover ⟨p, d.size⟩ stops) (.at q e) fun _ => input.Kept p d := by
  have hstay : input.Kept p d (.at q e) := ⟨q, e, rfl, hkeeps⟩
  simp only [recover, meets_bind, meets_get]
  refine .ite (fun hstart => ?_) fun _ => ?_
  · obtain rfl : q = p := Int.ofNat_inj.mp hstart
    exact ⟨q + 1, e, rfl, hkeeps.trans (.next (hflat rfl))⟩
  simp only [meets_bind, meets_atEnd]
  refine .ite (fun _ => hstay) fun hgo => ?_
  simp only [meets_bind, meets_current]
  refine .ite (fun _ => hstay) fun hlast => .ite (fun _ => hstay) fun hstop => ?_
  have hclose : ¬ (input.tokenAt q).isSymbol closeBrace = true := fun h =>
    hstop (List.any_eq_true.mpr ⟨closeBrace, hstops, h⟩)
  by_cases hopen : (input.tokenAt q).isSymbol openBrace = true
  · obtain ⟨new, hnew⟩ := hkeeps.reports
    have hne : new ≠ [] := by
      rintro rfl
      have hsize : e = d := Array.ext' (by rw [← hnew, List.append_nil])
      exact hgo (by simp [hsize])
    have hback : e.back? = some (new.getLast hne) := by
      rw [← Array.getLast?_toList, ← hnew, List.getLast?_append,
        List.getLast?_eq_some_getLast hne, Option.some_or]
    refine ⟨q + 1, e, rfl, hkeeps.skip hopen hnew.symm (List.getLast_mem hne) ?_⟩
    simpa [hback] using hlast
  · exact ⟨q + 1, e, rfl, hkeeps.trans (.next (not_or.mpr ⟨hopen, hclose⟩))⟩

end SharpSyntax
