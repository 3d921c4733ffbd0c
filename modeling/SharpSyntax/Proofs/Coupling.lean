import SharpSyntax.Proofs.Meets
import SharpSyntax.Proofs.Offsets

/-!
# Two parses side by side

Two parses run side by side when their tokens match: the token at a place of the first input is, but
for its offset, the token at a place of the second that is a fixed number of tokens further on. Both
take the same branches then, move their cursors alike, report at matching tokens, and make trees
that differ in offsets only.

Only one test of the grammar depends on offsets. Recovery asks whether the last report was made at
the token under the cursor, and compares their offsets. A coupling therefore says what it keeps of
the reports of both parses, and that what it keeps decides this question the same way on both sides.

The first parse may also run into a state from which the two are no longer compared. Such states are
told by the reports, or by a place that is reached, and no step leads out of them.
-/

namespace SharpSyntax

open Parse

variable {α β : Type}

/-- Two inputs with matching tokens, and what is kept of the reports about them. -/
structure Coupling where
  first : Input
  second : Input
  /-- How much further on a token of the second input stands than its match in the first. -/
  shift : Nat
  /-- What is kept of an offset in a tree. -/
  kept : Nat → Nat
  /-- The reports of both parses match. -/
  Reported : Array Diagnostic → Array Diagnostic → Prop
  /-- The reports of the first parse set it apart from the second. -/
  Lost : Array Diagnostic → Prop
  /-- The places of the first input up to which the parses are compared. -/
  Live : Nat → Prop := fun _ => True
  live_of_le : ∀ {p q}, p ≤ q → Live q → Live p := by exact fun _ _ => trivial
  /-- The parses are compared everywhere, or any report sets the first one apart. -/
  live_or_lost : (∀ p, Live p) ∨ ∀ (d : Array Diagnostic) x, Lost (d.push x) := by
    exact .inl fun _ => trivial
  /-- The comparison does not end behind an identifier, so that what stands there can be looked
  at. -/
  live_succ : ∀ {p}, Live p → (first.tokenAt p).kind = Kind.identifier → Live (p + 1) := by
    exact fun _ _ => trivial
  size_le : first.size ≤ second.size
  size_le_iff : ∀ {p}, Live p → (first.size ≤ p ↔ second.size ≤ p + shift)
  tokenAt_eq : ∀ p ≤ first.size, Live p →
    (first.tokenAt p).mapOffset kept = (second.tokenAt (p + shift)).mapOffset kept
  /-- Matching reports are equally many. -/
  reported_size : ∀ {d e}, Reported d e → d.size = e.size
  /-- The last reports of both parses are about matching tokens, or neither is about the token under
  its cursor. -/
  reported_back : ∀ {d e p}, Reported d e → p < first.size → Live p →
    (d.back?.map Diagnostic.offset = some ((first.tokenAt p).offset : Int) ↔
      e.back?.map Diagnostic.offset = some ((second.tokenAt (p + shift)).offset : Int))
  /-- Reports about matching tokens match. Their messages are the same where the tokens are, since
  they tell of nothing else. -/
  reported_push : ∀ {d e p} {message message' : String} (code : String), Reported d e →
    p ≤ first.size → Live p →
    ((∀ q ≤ first.size, Live q → first.tokenAt q = second.tokenAt (q + shift)) →
      message = message') →
    Lost (d.push (first.errorAt p message code)) ∨
      Reported (d.push (first.errorAt p message code))
        (e.push (second.errorAt (p + shift) message' code))
  lost_push : ∀ {d} (x : Diagnostic), Lost d → Lost (d.push x)

namespace Coupling

/-- A coupling that is live at every place needs no report that sets its parses apart. -/
theorem never_apart : (Nat → True) ∨ (Array Diagnostic → Diagnostic → False) :=
  .inl fun _ => trivial

variable {c : Coupling} {t u : Token}

/-- The matching tokens are the very same. -/
def Exact (c : Coupling) : Prop :=
  ∀ p ≤ c.first.size, c.Live p → c.first.tokenAt p = c.second.tokenAt (p + c.shift)

/-- The tokens of a place and of its match. Where any report sets the first parse apart, a token
also goes with itself: it is looked at where nothing is compared any more. -/
def Matching (c : Coupling) (t u : Token) : Prop :=
  (∃ p ≤ c.first.size, c.Live p ∧ t = c.first.tokenAt p ∧ u = c.second.tokenAt (p + c.shift)) ∨
    (t = u ∧ ∀ (d : Array Diagnostic) x, c.Lost (d.push x))

/-- Past the last token both inputs have their end markers. -/
theorem matching_tokenAt {p : Nat} (hlive : c.Live p) :
    c.Matching (c.first.tokenAt p) (c.second.tokenAt (p + c.shift)) := by
  rcases Nat.le_total p c.first.size with hp | hp
  · exact .inl ⟨p, hp, hlive, rfl, rfl⟩
  · have hlive' := c.live_of_le hp hlive
    have hsize := (c.size_le_iff hlive).mp hp
    have hsize' := (c.size_le_iff hlive').mp (Nat.le_refl _)
    refine .inl ⟨c.first.size, Nat.le_refl _, hlive', ?_, ?_⟩
    · rw [Input.tokenAt_of_size_le hp, Input.tokenAt_of_size_le (Nat.le_refl _)]
    · rw [Input.tokenAt_of_size_le hsize, Input.tokenAt_of_size_le hsize']

/-- Every token that is seen goes with some token. -/
theorem exists_matching (p : Nat) : ∃ u, c.Matching (c.first.tokenAt p) u := by
  by_cases hlive : c.Live p
  · exact ⟨_, matching_tokenAt hlive⟩
  · exact ⟨_, .inr ⟨rfl, c.live_or_lost.resolve_left fun hall => hlive (hall p)⟩⟩

namespace Matching

/-- Where the matching tokens are the very same, so are two that match. -/
theorem eq (h : c.Matching t u) (hexact : c.Exact) : t = u := by
  rcases h with ⟨p, hp, hlive, rfl, rfl⟩ | ⟨rfl, -⟩
  · exact hexact p hp hlive
  · rfl

/-- Matching tokens differ in what is not kept of their offsets. -/
theorem mapOffset (h : c.Matching t u) : t.mapOffset c.kept = u.mapOffset c.kept := by
  rcases h with ⟨p, hp, hlive, rfl, rfl⟩ | ⟨rfl, -⟩
  · exact c.tokenAt_eq p hp hlive
  · rfl

/-- Matching tokens are of one kind. -/
theorem kind (h : c.Matching t u) : u.kind = t.kind :=
  (congrArg Token.kind h.mapOffset).symm

theorem text (h : c.Matching t u) : u.text = t.text :=
  (congrArg Token.text h.mapOffset).symm

/-- Matching tokens keep the same of their offsets. -/
theorem offset (h : c.Matching t u) : c.kept t.offset = c.kept u.offset :=
  congrArg Token.offset h.mapOffset

/-- Matching tokens answer alike whether they are a symbol. -/
theorem isSymbol (h : c.Matching t u) : u.isSymbol = t.isSymbol := by
  funext text
  rw [Token.isSymbol, Token.isSymbol, h.kind, h.text]

theorem isKeyword (h : c.Matching t u) : u.isKeyword = t.isKeyword := by
  funext text
  rw [Token.isKeyword, Token.isKeyword, h.kind, h.text]

/-- Matching tokens answer alike whether they are what is wanted. -/
theorem fits (h : c.Matching t u) : u.fits = t.fits := by
  funext kind text
  unfold Token.fits
  rw [h.kind, h.text]

end Matching

/-- The reports or the place of the first parse set it apart from the second. -/
def Apart (c : Coupling) (p : Nat) (d : Array Diagnostic) : Prop := c.Lost d ∨ ¬c.Live p

/-- Going on does not lead back. -/
theorem Apart.of_le {p q : Nat} {d : Array Diagnostic} (h : c.Apart p d) (hle : p ≤ q) :
    c.Apart q d :=
  h.imp_right fun hnot hlive => hnot (c.live_of_le hle hlive)

/-- Two things are alike when they become equal where only the kept part of their offsets is
left. -/
abbrev Alike (c : Coupling) (mapOffset : (Nat → Nat) → α → α) (a b : α) : Prop :=
  mapOffset c.kept a = mapOffset c.kept b

end Coupling

/-! ## Steps side by side -/

namespace Parse

variable {c : Coupling} {x y : Parse α} {R : α → α → Prop}

/-- The two steps, run from matching states, end in matching states with values that `R` relates,
unless the first one is set apart; and what is set apart stays so. Nothing is said where the first
step stops for good. -/
structure Couples (c : Coupling) (x y : Parse α) (R : α → α → Prop) : Prop where
  stays : ∀ {p d}, c.Apart p d → Meets True c.first x (.at p d) fun a t =>
    (∃ b, R a b) ∧ ∃ q d', t = .at q d' ∧ c.Apart q d'
  follows : ∀ {p d e}, c.Live p → c.Reported d e → Meets True c.first x (.at p d) fun a t =>
    ∃ q d', t = .at q d' ∧ (((∃ b, R a b) ∧ c.Apart q d') ∨
      (c.Live q ∧ Meets False c.second y (.at (p + c.shift) e) fun b u =>
        R a b ∧ ∃ e', u = .at (q + c.shift) e' ∧ c.Reported d' e'))

namespace Couples

theorem pure {a b : α} (h : R a b) : Couples c (pure a) (pure b) R where
  stays hl := ⟨⟨b, h⟩, _, _, rfl, hl⟩
  follows hp hd := ⟨_, _, rfl, .inr ⟨hp, h, _, rfl, hd⟩⟩

/-- A first step that stops for good goes with anything. -/
theorem endless : Couples c Parse.endless y R where
  stays _ := trivial
  follows _ _ := trivial

/-- Coupled steps may be followed by steps that are coupled for related values. -/
theorem bind {next next' : α → Parse β} {S : β → β → Prop} (h : Couples c x y R)
    (hnext : ∀ a b, R a b → Couples c (next a) (next' b) S) :
    Couples c (x >>= next) (y >>= next') S where
  stays hl := by
    rw [meets_bind]
    refine (h.stays hl).mono fun a t => ?_
    rintro ⟨⟨b, hb⟩, q, d', rfl, hl'⟩
    exact (hnext a b hb).stays hl'
  follows hp hd := by
    rw [meets_bind]
    refine (h.follows hp hd).mono fun a t => ?_
    rintro ⟨q, d', rfl, ⟨⟨b, hb⟩, hl⟩ | ⟨hq, hy⟩⟩
    · refine ((hnext a b hb).stays hl).mono fun a' t' => ?_
      rintro ⟨hb', q', d'', rfl, hl'⟩
      exact ⟨q', d'', rfl, .inl ⟨hb', hl'⟩⟩
    · -- where the second step ends depends on nothing that the rest of the first one does
      unfold Meets at hy
      split at hy
      · next b u hrun =>
        obtain ⟨hb, e', rfl, hd'⟩ := hy
        refine ((hnext a b hb).follows hq hd').mono fun a' t' => ?_
        rintro ⟨q', d'', rfl, hrest⟩
        refine ⟨q', d'', rfl, hrest.imp_right fun ⟨hq', hy'⟩ => ⟨hq', ?_⟩⟩
        rw [meets_bind]
        unfold Meets
        rw [hrun]
        exact hy'
      · exact hy.elim

/-- Where the values are equal, what follows is coupled for one value at a time. -/
theorem bindEq {next next' : α → Parse β} {S : β → β → Prop} (h : Couples c x y Eq)
    (hnext : ∀ a, Couples c (next a) (next' a) S) : Couples c (x >>= next) (y >>= next') S :=
  h.bind fun a _ heq => heq ▸ hnext a

theorem map {f g : α → β} {S : β → β → Prop} (h : Couples c x y R)
    (hmap : ∀ a b, R a b → S (f a) (g b)) : Couples c (f <$> x) (g <$> y) S := by
  rw [map_eq_pure_bind, map_eq_pure_bind]
  exact h.bind fun a b hab => pure (hmap a b hab)

/-- Both sides take the same branch. -/
theorem ite {p : Prop} [Decidable p] {x' y' : Parse α} (hyes : p → Couples c x y R)
    (hno : ¬p → Couples c x' y' R) :
    Couples c (if p then x else x') (if p then y else y') R := by
  split
  · next h => exact hyes h
  · next h => exact hno h

end Couples

/-! ### Primitive steps -/

/-- Steps that report nothing and whose values and places depend on where they begin only. -/
theorem Couples.quiet {a b : Nat → α} {q : Nat → Nat} (hle : ∀ p, p ≤ q p)
    (hx : ∀ p d post, post (a p) (.at (q p) d) → Meets True c.first x (.at p d) post)
    (hy : ∀ p d post, c.Live p → post (b p) (.at (q p + c.shift) d) →
      Meets False c.second y (.at (p + c.shift) d) post)
    (hr : ∀ p, c.Live p → R (a p) (b p)) (hr' : ∀ p, ∃ b, R (a p) b) : Couples c x y R where
  stays {p _} hl := hx _ _ _ ⟨hr' p, _, _, rfl, hl.of_le (hle p)⟩
  follows {p _ _} hp hd := by
    refine hx _ _ _ ⟨_, _, rfl, ?_⟩
    by_cases hq : c.Live (q p)
    · exact .inr ⟨hq, hy _ _ _ hp ⟨hr p hp, _, rfl, hd⟩⟩
    · exact .inl ⟨hr' p, .inr hq⟩

/-- The tokens under both cursors match. -/
theorem current_couples : Couples c current current c.Matching :=
  .quiet Nat.le_refl (fun _ _ _ => meets_current.mpr) (fun _ _ _ _ => meets_current.mpr)
    (fun _ => Coupling.matching_tokenAt) Coupling.exists_matching

/-- Both parses see their ends at matching places. -/
theorem atEnd_couples : Couples c atEnd atEnd Eq := by
  refine .quiet Nat.le_refl (fun _ _ _ => meets_atEnd.mpr) (fun _ _ _ _ => meets_atEnd.mpr)
    (fun p hp => ?_) fun _ => ⟨_, rfl⟩
  rw [decide_eq_decide]
  exact c.size_le_iff hp

theorem advance_couples : Couples c advance advance Eq := by
  refine .quiet (fun p => Nat.le_add_right p 1) (fun _ _ _ => meets_advance.mpr)
    (fun p _ _ _ => ?_) (fun _ _ => rfl) fun _ => ⟨_, rfl⟩
  rw [Nat.add_right_comm]
  exact meets_advance.mpr

theorem consume_couples : Couples c consume consume c.Matching := by
  refine .quiet (fun p => Nat.le_add_right p 1) (fun _ _ _ => meets_consume.mpr) (fun p _ _ _ => ?_)
    (fun _ => Coupling.matching_tokenAt) Coupling.exists_matching
  rw [Nat.add_right_comm]
  exact meets_consume.mpr

/-- The cursors are as far apart as the inputs. -/
theorem cursor_couples : Couples c cursor cursor fun start start' => start' = start + c.shift :=
  .quiet Nat.le_refl (fun _ _ _ => meets_cursor.mpr) (fun _ _ _ _ => meets_cursor.mpr)
    (fun p _ => by simp) fun _ => ⟨_, rfl⟩

/-! ### Reporting -/

variable {t u : Token} {message message' code : String}

/-- Reports at matching tokens match, or set the first parse apart. -/
theorem reportAt_couples (h : c.Matching t u) (hmessage : c.Exact → message = message') :
    Couples c (reportAt message code t.offset t.text.length)
      (reportAt message' code u.offset u.text.length) Eq := by
  refine ⟨fun hl => ?_, fun hp hd => ?_⟩
  · rw [meets_reportAt]
    exact ⟨⟨_, rfl⟩, _, _, rfl, hl.imp_left (c.lost_push _)⟩
  · rw [meets_reportAt]
    refine ⟨_, _, rfl, ?_⟩
    rcases h with ⟨k, hk, hlive, rfl, rfl⟩ | ⟨-, hlost⟩
    · refine (c.reported_push code hd hk hlive hmessage).imp (fun hl => ⟨⟨_, rfl⟩, .inl hl⟩)
        fun hd' => ⟨hp, ?_⟩
      rw [meets_reportAt]
      exact ⟨rfl, _, rfl, hd'⟩
    · exact .inl ⟨⟨_, rfl⟩, .inl (hlost _ _)⟩

theorem report_couples (hmessage : c.Exact → message = message') :
    Couples c (report message code) (report message' code) Eq :=
  current_couples.bind fun _ _ h => reportAt_couples h hmessage

/-- A message that tells the token it found tells the same on both sides where the tokens are the
same. -/
theorem reportFound_couples (template : String) :
    Couples c (reportFound template code) (reportFound template code) Eq :=
  current_couples.bind fun _ _ h => report_couples fun hexact => by rw [h.eq hexact]

/-- What is required is found on both sides or on neither. -/
theorem require_couples (kind : Option Kind) (text : Option String) (template : String) :
    Couples c (require kind text template code) (require kind text template code)
      fun found found' => found'.ok = found.ok := by
  have hexpect : Couples c (expect kind text) (expect kind text) fun found found' =>
      found'.ok = found.ok ∧ c.Matching found.token found'.token :=
    current_couples.bind fun _ _ h => .pure ⟨by rw [h.fits], h⟩
  refine hexpect.bind fun found found' ⟨hok, hmatch⟩ => ?_
  dsimp only
  rw [hok]
  refine .ite (fun _ => ?_) fun _ => .pure hok
  have hmessage : c.Exact → found.format template = found'.format template := fun hexact => by
    rw [Expectation.format, Expectation.format, hmatch.eq hexact]
  exact (reportAt_couples hmatch hmessage).bindEq fun _ => .pure hok

/-- A closing symbol is taken on both sides or on neither. -/
theorem close_couples (text template : String) :
    Couples c (close text template) (close text template) Eq := by
  refine (require_couples _ _ template).bind fun found found' hok => ?_
  rw [hok]
  exact .ite (fun _ => advance_couples) fun _ => .pure rfl

theorem skip_couples (text : String) : Couples c (skip text) (skip text) Eq := by
  refine current_couples.bind fun t u h => ?_
  rw [h.isSymbol]
  exact .ite (fun _ => advance_couples) fun _ => .pure rfl

/-! ### Recovery -/

/-- Marks that were set at matching places with equally many reports before them. -/
def MarksMatch (c : Coupling) (start start' : Mark) : Prop :=
  start'.cursor = start.cursor + c.shift ∧ start'.reported = start.reported

/-- Marks are set at matching places. -/
theorem mark_couples : Couples c mark mark (MarksMatch c) where
  stays hl := by
    rw [meets_mark]
    exact ⟨⟨⟨_, _⟩, rfl, rfl⟩, _, _, rfl, hl⟩
  follows hp hd := by
    rw [meets_mark]
    refine ⟨_, _, rfl, .inr ⟨hp, ?_⟩⟩
    rw [meets_mark]
    exact ⟨⟨by simp, (c.reported_size hd).symm⟩, _, rfl, hd⟩

/-- Where recovery from a place ends. -/
def recovered (input : Input) (start : Mark) (stops : List String) (p : Nat)
    (d : Array Diagnostic) : Nat :=
  if (p : Int) = start.cursor then p + 1
  else if d.size = start.reported ∨ input.size ≤ p then p
  else if d.back?.map Diagnostic.offset ≠ some ((input.tokenAt p).offset : Int) then p
  else if stops.any (input.tokenAt p).isSymbol then p
  else p + 1

/-- Recovery reports nothing and ends at the place that `recovered` tells. -/
theorem meets_recover_iff {fault : Prop} {input : Input} {start : Mark} {stops : List String}
    {p : Nat} {d : Array Diagnostic} {post : Unit → ParseState → Prop} :
    Meets fault input (recover start stops) (.at p d) post ↔
      post () (.at (recovered input start stops p d) d) := by
  simp only [recover, meets_bind, meets_get, meets_ite, meets_advance, meets_atEnd, meets_pure,
    meets_current, ParseState.cursor_at, ParseState.diagnostics_at, Bool.or_eq_true,
    decide_eq_true_eq]
  unfold recovered
  split
  · rfl
  split
  · rfl
  split
  · rfl
  split <;> rfl

/-- Recovery moves on. -/
theorem le_recovered {input : Input} {start : Mark} {stops : List String} {p : Nat}
    {d : Array Diagnostic} : p ≤ recovered input start stops p d := by
  unfold recovered
  split
  · omega
  split
  · omega
  split
  · omega
  split <;> omega

/-- Recovery takes the same branch on both sides. -/
theorem recovered_shift {start start' : Mark} {stops : List String} {p : Nat}
    {d e : Array Diagnostic} (h : MarksMatch c start start') (hp : c.Live p)
    (hd : c.Reported d e) :
    recovered c.second start' stops (p + c.shift) e =
      recovered c.first start stops p d + c.shift := by
  have hstart : ((p + c.shift : Nat) : Int) = start'.cursor ↔ (p : Int) = start.cursor := by
    rw [h.1]
    omega
  have hquiet : e.size = start'.reported ∨ c.second.size ≤ p + c.shift ↔
      d.size = start.reported ∨ c.first.size ≤ p := by
    rw [h.2, c.reported_size hd, c.size_le_iff hp]
  have hstops : stops.any (c.second.tokenAt (p + c.shift)).isSymbol =
      stops.any (c.first.tokenAt p).isSymbol := by
    rw [(Coupling.matching_tokenAt hp).isSymbol]
  unfold recovered
  simp only [hstart, hquiet, hstops]
  split
  · omega
  split
  · rfl
  -- only in front of a token can the last report be about it
  next hgo =>
    have hback := c.reported_back hd (p := p) (by omega) hp
    simp only [ne_eq, ← hback]
    split
    · rfl
    split
    · rfl
    · omega

/-- Recovery from matching marks ends at matching places. -/
theorem recover_couples {start start' : Mark} (h : MarksMatch c start start')
    (stops : List String) : Couples c (recover start stops) (recover start' stops) Eq where
  stays hl := by
    rw [meets_recover_iff]
    exact ⟨⟨_, rfl⟩, _, _, rfl, hl.of_le le_recovered⟩
  follows {p d _} hp hd := by
    rw [meets_recover_iff]
    refine ⟨_, _, rfl, ?_⟩
    by_cases hq : c.Live (recovered c.first start stops p d)
    · refine .inr ⟨hq, ?_⟩
      rw [meets_recover_iff, recovered_shift h hp hd]
      exact ⟨rfl, _, rfl, hd⟩
    · exact .inl ⟨⟨_, rfl⟩, .inr hq⟩

end Parse

/-! ## Steps that may decline -/

/-- Both answer with nothing, or both with something that `R` relates. -/
inductive Answers (R : α → α → Prop) : Option α → Option α → Prop
  | none : Answers R none none
  | some {a b : α} : R a b → Answers R (some a) (some b)

/-- Both steps make something or both decline. -/
def Attempt.Couples (c : Coupling) (x y : Attempt α) (R : α → α → Prop) : Prop :=
  Parse.Couples c x.run y.run (Answers R)

/-- What follows an attempt is told by cases. -/
theorem Parse.Couples.bindRun {c : Coupling} {x y : Attempt α} {R : α → α → Prop}
    {next next' : Option α → Parse β} {S : β → β → Prop} (h : Attempt.Couples c x y R)
    (hnone : Parse.Couples c (next none) (next' none) S)
    (hsome : ∀ a b, R a b → Parse.Couples c (next (some a)) (next' (some b)) S) :
    Parse.Couples c (x.run >>= next) (y.run >>= next') S := by
  refine Parse.Couples.bind h fun a b hab => ?_
  cases hab with
  | none => exact hnone
  | some hab => exact hsome _ _ hab

namespace Attempt

variable {c : Coupling} {x y : Attempt α} {R : α → α → Prop}

namespace Couples

theorem pure {a b : α} (h : R a b) : Couples c (pure a) (pure b) R :=
  Parse.Couples.pure (.some h)

theorem failure : Couples c (failure : Attempt α) failure R :=
  Parse.Couples.pure .none

theorem failure_bind {next next' : α → Attempt β} {S : β → β → Prop} :
    Couples c ((Alternative.failure : Attempt α) >>= next) (Alternative.failure >>= next') S :=
  Parse.Couples.pure .none

/-- A first attempt that stops for good goes with anything. -/
theorem endless : Couples c (Parse.endless : Attempt α) y R := Parse.Couples.endless

/-- Coupled attempts decline together, and where they make something, what follows is coupled. -/
theorem bind {next next' : α → Attempt β} {S : β → β → Prop} (h : Couples c x y R)
    (hnext : ∀ a b, R a b → Couples c (next a) (next' b) S) :
    Couples c (x >>= next) (y >>= next') S := by
  unfold Couples
  rw [OptionT.run_bind, OptionT.run_bind]
  exact Parse.Couples.bindRun h (.pure .none) hnext

theorem bindEq {next next' : α → Attempt β} {S : β → β → Prop} (h : Couples c x y Eq)
    (hnext : ∀ a, Couples c (next a) (next' a) S) : Couples c (x >>= next) (y >>= next') S :=
  h.bind fun a _ heq => heq ▸ hnext a

theorem map {f g : α → β} {S : β → β → Prop} (h : Couples c x y R)
    (hmap : ∀ a b, R a b → S (f a) (g b)) : Couples c (f <$> x) (g <$> y) S := by
  rw [map_eq_pure_bind, map_eq_pure_bind]
  exact h.bind fun a b hab => pure (hmap a b hab)

theorem ite {p : Prop} [Decidable p] {x' y' : Attempt α} (hyes : p → Couples c x y R)
    (hno : ¬p → Couples c x' y' R) :
    Couples c (if p then x else x') (if p then y else y') R := by
  split
  · next h => exact hyes h
  · next h => exact hno h

/-- Coupled steps are coupled attempts that do not decline. -/
theorem lift {x y : Parse α} (h : Parse.Couples c x y R) :
    Couples c (OptionT.lift x) (OptionT.lift y) R := by
  change Parse.Couples c (some <$> x) (some <$> y) (Answers R)
  exact h.map fun _ _ hab => .some hab

theorem liftM {x y : Parse α} (h : Parse.Couples c x y R) :
    Couples c (liftM x : Attempt α) (liftM y) R := lift h

/-- The answers of coupled attempts are both there or both missing. -/
theorem orNone (h : Couples c x y R) : Couples c (orNone x) (orNone y) (Answers R) := lift h

/-- What follows an attempt within an attempt is told by cases. -/
theorem bindOrNone {next next' : Option α → Attempt β} {S : β → β → Prop} (h : Couples c x y R)
    (hnone : Couples c (next none) (next' none) S)
    (hsome : ∀ a b, R a b → Couples c (next (some a)) (next' (some b)) S) :
    Couples c (Attempt.orNone x >>= next) (Attempt.orNone y >>= next') S := by
  refine h.orNone.bind fun a b hab => ?_
  cases hab with
  | none => exact hnone
  | some hab => exact hsome _ _ hab

end Couples

open Parse

/-- What is needed is there on both sides or makes both decline. -/
theorem need_couples (kind : Option Kind) (text : Option String) (template : String) :
    Couples c (need kind text template) (need kind text template) Eq := by
  refine (Couples.liftM (require_couples kind text template)).bind fun found found' hok => ?_
  rw [hok]
  exact .ite (fun _ => .failure) fun _ => .pure rfl

theorem needSymbol_couples (text template : String) :
    Couples c (needSymbol text template) (needSymbol text template) Eq :=
  (need_couples _ _ _).bindEq fun _ => .liftM advance_couples

theorem needKeyword_couples (text template : String) :
    Couples c (needKeyword text template) (needKeyword text template) Eq :=
  (need_couples _ _ _).bindEq fun _ => .liftM advance_couples

/-- The identifiers that are taken match. -/
theorem needIdentifier_couples (template : String) :
    Couples c (needIdentifier template) (needIdentifier template) c.Matching :=
  (need_couples _ _ _).bindEq fun _ => .liftM consume_couples

end Attempt

end SharpSyntax
