import SharpSyntax.Proofs.Acceptance
import SharpSyntax.Proofs.CoupledGrammar
import SharpSyntax.Proofs.Endings
import SharpSyntax.Proofs.GrammarContracts

/-!
# Up to the end of the tokens, with and without more behind it

A parse of some tokens is set beside a parse of the same tokens with more behind them. Where the
first one has reported nothing and has not come to its end, the two agree: this is a coupling. It
says nothing of a step that ends where the tokens end, since there the first parse looks at its end
marker and the second at whatever comes next.

When the last of the tokens is a semicolon, few constructs can end there without a report, and what
they and the constructs around them do next is to look for a further semicolon or for a binary
operator. If what comes next is neither, they find none on both sides. So a step `joins`: where it
has reported nothing, it ends at or in front of the end on both sides alike.
-/

namespace SharpSyntax

open Parse Attempt Grammar

variable {α β : Type}

/-! ## The two inputs -/

/-- The first token, if there is one, neither ends nor carries on an expression in front of it. -/
def BeginsAnew (more : List Token) : Prop :=
  ∀ token, more.head? = some token → token.isSymbol ";" = false ∧
    (token.kind = Kind.symbol → binaryPrecedence? token.text = none)

/-- The tokens of the first input end with a semicolon, and the second has more behind them, which
begin anew. -/
structure Adjoins (first second : Input) : Prop where
  size_le : first.size ≤ second.size
  tokenAt_eq : ∀ {p}, p < first.size → second.tokenAt p = first.tokenAt p
  endsClosed : EndsClosed first.tokens.toList
  /-- What stands behind the last of the tokens is no semicolon. -/
  isSemicolon_eq_false : (second.tokenAt first.size).isSymbol ";" = false
  /-- What stands behind the last of the tokens is no binary operator. -/
  precedence_eq_none : (second.tokenAt first.size).kind = Kind.symbol →
    binaryPrecedence? (second.tokenAt first.size).text = none

namespace Adjoins

variable {first second : Input} (h : Adjoins first second) {p q : Nat} {ts : List Token}

include h

/-- A token that is no semicolon is not the last one. -/
theorem succ_lt (hp : p < first.size) (hopen : (first.tokenAt p).isSymbol ";" = false) :
    p + 1 < first.size := by
  obtain ⟨token, hlast, hclosed⟩ := h.endsClosed
  rcases Nat.lt_or_ge (p + 1) first.size with hlt | hge
  · exact hlt
  · have hlen : first.tokens.toList.length = first.size := Array.length_toList
    obtain rfl : p = first.size - 1 := by omega
    have hseen : first.tokenAt (first.size - 1) = token := by
      rw [List.getLast?_eq_getElem?, hlen, Array.getElem?_toList] at hlast
      rw [Input.tokenAt, hlast, Option.getD_some]
    rw [hseen, hclosed] at hopen
    cases hopen

theorem succ_lt_of_isIdentifier (hkind : (first.tokenAt p).kind = Kind.identifier) :
    p + 1 < first.size :=
  h.succ_lt (Input.lt_size_of_kind hkind (by decide))
    (isSemicolon_eq_false_of_kind hkind (by decide))

theorem succ_lt_of_isKeyword {text : String} (hword : (first.tokenAt p).isKeyword text = true) :
    p + 1 < first.size := by
  have hkind := (Token.isKeyword_iff.mp hword).1
  exact h.succ_lt (Input.lt_size_of_isKeyword hword)
    (isSemicolon_eq_false_of_kind hkind (by decide))

theorem succ_lt_of_isSymbol {text : String} (hsymbol : (first.tokenAt p).isSymbol text = true)
    (hne : text ≠ ";") : p + 1 < first.size :=
  h.succ_lt (Input.lt_size_of_isSymbol hsymbol) (Token.isSymbol_eq_false hsymbol ";" hne)

/-- Tokens that do not end with a semicolon do not reach the end. -/
theorem lt_of_endsOpen (hopen : EndsOpen ts) (hrest : first.rest p = ts ++ first.rest q) :
    q < first.size := by
  rcases Nat.lt_or_ge q first.size with hlt | hge
  · exact hlt
  · -- what is taken up to the end has the last token of all
    rw [Input.rest_eq_nil hge, List.append_nil, Input.rest] at hrest
    have hlast : first.tokens.toList.getLast? =
        ts.getLast?.or (first.tokens.toList.take p).getLast? := by
      rw [← hrest, ← List.getLast?_append, List.take_append_drop]
    obtain ⟨last, hlast', hclosed⟩ := h.endsClosed
    obtain ⟨token, htoken, hopen⟩ := hopen
    rw [htoken, Option.some_or, hlast', Option.some_inj] at hlast
    rw [hlast, hopen] at hclosed
    cases hclosed

end Adjoins

/-- Tokens beside the same tokens with more behind them. -/
theorem adjoins_ofTokens {tokens more : List Token} (source : SourceText)
    (hend : EndsClosed tokens) (hmore : BeginsAnew more) :
    Adjoins (.ofTokens tokens source) (.ofTokens (tokens ++ more) source) := by
  -- behind the tokens stands the end marker or the first of the others
  have hnext : ∀ token, (Input.ofTokens (tokens ++ more) source).tokenAt tokens.length = token →
      token.isSymbol ";" = false ∧
        (token.kind = Kind.symbol → binaryPrecedence? token.text = none) := by
    rintro _ rfl
    cases more with
    | nil =>
        have hmarker : (Input.ofTokens (tokens ++ []) source).tokenAt tokens.length =
            (Input.ofTokens (tokens ++ []) source).endMarker :=
          Input.tokenAt_of_size_le (by simp)
        have hkind := (Input.ofTokens (tokens ++ []) source).endMarker_kind
        rw [hmarker]
        refine ⟨isSemicolon_eq_false_of_kind hkind (by decide), fun hsymbol => ?_⟩
        rw [hkind] at hsymbol
        exact absurd hsymbol (by decide)
    | cons token more =>
        have hlt : tokens.length < (tokens ++ token :: more).length := by simp
        rw [Input.tokenAt_ofTokens_of_lt hlt, List.getElem_append_right (Nat.le_refl _)]
        simpa using hmore token rfl
  have hsize : (Input.ofTokens tokens source).size = tokens.length :=
    Input.size_ofTokens tokens source
  refine ⟨?_, fun {p} hp => ?_, hend, ?_, ?_⟩
  · rw [Input.size_ofTokens, Input.size_ofTokens, List.length_append]
    omega
  · rw [hsize] at hp
    have hp' : p < (tokens ++ more).length := by rw [List.length_append]; omega
    rw [Input.tokenAt_ofTokens_of_lt hp', Input.tokenAt_ofTokens_of_lt hp,
      List.getElem_append_left hp]
  · rw [hsize]
    exact (hnext _ rfl).1
  · rw [hsize]
    exact (hnext _ rfl).2

/-- Parses that have reported nothing have reported equally much. -/
theorem Coupling.size_eq_of_quiet {d e : Array Diagnostic} (h : d = #[] ∧ e = #[]) :
    d.size = e.size := by
  rw [h.1, h.2]

/-- A parse of some tokens beside a parse of the same tokens with more behind them, until something
is reported or the end of the first is reached. -/
def Coupling.untilEnd {first second : Input} (h : Adjoins first second) : Coupling where
  first := first
  second := second
  shift := 0
  kept := id
  Reported d e := d = #[] ∧ e = #[]
  Lost d := d ≠ #[]
  Live p := p < first.size
  live_of_le hle hlive := Nat.lt_of_le_of_lt hle hlive
  live_or_lost := .inr fun _ _ => by simp
  live_succ _ hkind := h.succ_lt_of_isIdentifier hkind
  size_le := h.size_le
  size_le_iff {p} hlive := by have := h.size_le; omega
  tokenAt_eq p _ hlive := by rw [Nat.add_zero, h.tokenAt_eq hlive]
  reported_size h := size_eq_of_quiet h
  reported_back h _ _ := by simp [h.1, h.2]
  reported_push _ _ _ _ _ := .inl (by simp)
  lost_push _ _ := Array.push_ne_empty

/-! ## Steps that agree up to the end -/

section Joins

variable (first second : Input)

/-- Run from `p`, the first step has reported, or it ends at a place that satisfies `post`, and then
the second step ends there with the same value. -/
def Parse.Joins (x y : Parse α) (p : Nat) (post : α → Nat → Prop) : Prop :=
  Parse.Meets True first x (.at p #[]) fun a t => t.diagnostics ≠ #[] ∨
    ∃ q, t = .at q #[] ∧ post a q ∧
      Parse.Meets False second y (.at p #[]) fun b u => b = a ∧ u = .at q #[]

/-- Run from `p`, the first step has reported, or it makes something at a place that satisfies
`post`, and then the second step makes the same there. Where the first declines, it has reported `k`
times or more. -/
def Attempt.Joins (k : Nat) (x y : Attempt α) (p : Nat) (post : α → Nat → Prop) : Prop :=
  Attempt.Meets True first x (.at p #[])
    (fun a t => t.diagnostics ≠ #[] ∨ ∃ q, t = .at q #[] ∧ post a q ∧
      Attempt.Meets False second y (.at p #[]) (fun b u => b = a ∧ u = .at q #[]) fun _ => False)
    (fun t => k ≤ t.diagnostics.size)

end Joins

variable {first second : Input} {p : Nat} {k : Nat}

/-- What only appends to the diagnostics keeps a report. -/
theorem Continues.reported {s t : ParseState} (h : Continues k s t)
    (hs : s.diagnostics ≠ #[] ∨ 1 ≤ k) : t.diagnostics ≠ #[] := by
  obtain ⟨new, hnew, hk⟩ := h
  intro hnone
  rw [hnone] at hnew
  obtain ⟨hold, rfl⟩ := List.append_eq_nil_iff.mp hnew.symm
  rcases hs with hs | hs
  · exact hs (Array.toList_eq_nil_iff.mp hold)
  · exact absurd (Nat.le_trans hs hk) (by decide)

namespace Parse.Joins

variable {x y : Parse α} {post : α → Nat → Prop} {post' : β → Nat → Prop}

theorem pure {a : α} (h : post a p) : Joins first second (pure a) (pure a) p post :=
  .inr ⟨p, rfl, h, rfl, rfl⟩

theorem endless : Joins first second endless y p post := trivial

theorem mono {post' : α → Nat → Prop} (h : Joins first second x y p post)
    (himp : ∀ a q, post a q → post' a q) : Joins first second x y p post' :=
  Meets.mono h fun a _ => Or.imp_right fun ⟨q, ht, hq, hy⟩ => ⟨q, ht, himp a q hq, hy⟩

/-- What follows a step that joins has to join where that step ends, and to keep its reports. -/
theorem bind {next next' : α → Parse β} {made : α → Prop}
    (h : Joins first second x y p post) (hmade : Parse.Makes first x made (.at p #[]))
    (hnext : ∀ a q, made a → post a q → Joins first second (next a) (next' a) q post')
    (hkeeps : ∀ a s, made a → Parse.Makes first (next a) (fun _ => True) s) :
    Joins first second (x >>= next) (y >>= next') p post' := by
  unfold Joins
  rw [meets_bind]
  refine (Meets.and h hmade).mono fun a t => ?_
  rintro ⟨hreported | ⟨q, rfl, hq, hy⟩, ha, -⟩
  · exact Meets.mono (hkeeps a t ha) fun b u hu => .inl (hu.2.reported (.inl hreported))
  · refine Meets.mono (hnext a q ha hq) fun b u => Or.imp_right ?_
    rintro ⟨r, hu, hr, hz⟩
    refine ⟨r, hu, hr, ?_⟩
    rw [meets_bind]
    refine Meets.mono hy fun a' t' => ?_
    rintro ⟨rfl, rfl⟩
    exact hz

/-- A look at a token that both inputs have is one look. -/
theorem current {next next' : Token → Parse β}
    (htoken : second.tokenAt p = first.tokenAt p)
    (h : Joins first second (next (first.tokenAt p)) (next' (first.tokenAt p)) p post') :
    Joins first second (current >>= next) (current >>= next') p post' := by
  simp only [Joins, meets_bind, meets_current, htoken]
  exact h

theorem advance {next next' : Unit → Parse β}
    (h : Joins first second (next ()) (next' ()) (p + 1) post') :
    Joins first second (advance >>= next) (advance >>= next') p post' := by
  simp only [Joins, meets_bind, meets_advance]
  exact h

theorem mark {next next' : Mark → Parse β}
    (h : Joins first second (next ⟨p, 0⟩) (next' ⟨p, 0⟩) p post') :
    Joins first second (mark >>= next) (mark >>= next') p post' := by
  simp only [Joins, meets_bind, meets_mark]
  exact h

theorem ite {c : Prop} [Decidable c] {x' y' : Parse α}
    (hyes : c → Joins first second x y p post) (hno : ¬c → Joins first second x' y' p post) :
    Joins first second (if c then x else x') (if c then y else y') p post := by
  split
  · next h => exact hyes h
  · next h => exact hno h

end Parse.Joins

namespace Attempt.Joins

variable {x y : Attempt α} {post : α → Nat → Prop} {post' : β → Nat → Prop}

theorem pure {a : α} (h : post a p) : Joins first second k (pure a) (pure a) p post :=
  .inr ⟨p, rfl, h, rfl, rfl⟩

theorem endless : Joins first second k (Parse.endless : Attempt α) y p post := trivial

theorem mono {post' : α → Nat → Prop} (h : Joins first second k x y p post)
    (himp : ∀ a q, post a q → post' a q) : Joins first second k x y p post' :=
  Meets.mono h (fun a _ => Or.imp_right fun ⟨q, ht, hq, hy⟩ => ⟨q, ht, himp a q hq, hy⟩)
    fun _ => id

theorem bind {next next' : α → Attempt β} {made : α → Prop}
    (h : Joins first second 1 x y p post) (hmade : Attempt.Makes k first x made (.at p #[]))
    (hnext : ∀ a q, made a → post a q → Joins first second 1 (next a) (next' a) q post')
    (hkeeps : ∀ a s, made a → Attempt.Makes 0 first (next a) (fun _ => True) s) :
    Joins first second 1 (x >>= next) (y >>= next') p post' := by
  unfold Joins
  rw [meets_bind]
  refine (Meets.and h hmade).mono (fun a t => ?_) fun t ht => ht.1
  rintro ⟨hreported | ⟨q, rfl, hq, hy⟩, ha, -⟩
  · exact Meets.mono (hkeeps a t ha) (fun b u hu => .inl (hu.2.reported (.inl hreported)))
      fun u hu => Array.size_pos_iff.mpr (hu.reported (.inl hreported))
  · refine Meets.mono (hnext a q ha hq) (fun b u => Or.imp_right ?_) fun _ => id
    rintro ⟨r, hu, hr, hz⟩
    refine ⟨r, hu, hr, ?_⟩
    rw [meets_bind]
    refine Meets.mono hy (fun a' t' => ?_) fun _ => id
    rintro ⟨rfl, rfl⟩
    exact hz

/-- What is made of what a step makes keeps to no place of its own. -/
theorem bindPure {f : α → β} (h : Joins first second k x y p post)
    (himp : ∀ a q, post a q → post' (f a) q) :
    Joins first second k (do let a ← x; return f a) (do let a ← y; return f a) p post' := by
  simp only [Joins, meets_bind, meets_pure]
  refine Meets.mono h (fun a t => Or.imp_right ?_) fun _ => id
  rintro ⟨q, ht, hq, hy⟩
  refine ⟨q, ht, himp a q hq, Meets.mono hy (fun b u => ?_) fun _ => id⟩
  rintro ⟨rfl, hu⟩
  exact ⟨rfl, hu⟩

theorem map {f : α → β} (h : Joins first second k x y p post)
    (himp : ∀ a q, post a q → post' (f a) q) :
    Joins first second k (f <$> x) (f <$> y) p post' := by
  rw [map_eq_pure_bind, map_eq_pure_bind]
  exact h.bindPure himp

theorem liftM {x y : Parse α} (h : Parse.Joins first second x y p post) :
    Joins first second k (liftM x : Attempt α) (liftM y) p post := by
  unfold Joins
  rw [meets_liftM]
  refine Parse.Meets.mono h fun a t => Or.imp_right ?_
  rintro ⟨q, ht, hq, hy⟩
  exact ⟨q, ht, hq, by rw [meets_liftM]; exact hy⟩

theorem current {next next' : Token → Attempt β}
    (htoken : second.tokenAt p = first.tokenAt p)
    (h : Joins first second k (next (first.tokenAt p)) (next' (first.tokenAt p)) p post') :
    Joins first second k (MonadLiftT.monadLift Parse.current >>= next)
      (MonadLiftT.monadLift Parse.current >>= next') p post' := by
  simp only [Joins, meets_bind, meets_liftM, meets_current, htoken]
  exact h

theorem advance {next next' : Unit → Attempt β}
    (h : Joins first second k (next ()) (next' ()) (p + 1) post') :
    Joins first second k (MonadLiftT.monadLift Parse.advance >>= next)
      (MonadLiftT.monadLift Parse.advance >>= next') p post' := by
  simp only [Joins, meets_bind, meets_liftM, meets_advance]
  exact h

theorem ite {c : Prop} [Decidable c] {x' y' : Attempt α}
    (hyes : c → Joins first second k x y p post) (hno : ¬c → Joins first second k x' y' p post) :
    Joins first second k (if c then x else x') (if c then y else y') p post := by
  split
  · next h => exact hyes h
  · next h => exact hno h

/-- A word that is needed is there on both sides, or it was reported on the first. -/
theorem needKeyword {next next' : Unit → Attempt β} {text template : String}
    (htoken : second.tokenAt p = first.tokenAt p)
    (h : (first.tokenAt p).isKeyword text = true →
      Joins first second 1 (next ()) (next' ()) (p + 1) post') :
    Joins first second 1 (needKeyword text template >>= next)
      (needKeyword text template >>= next') p post' := by
  simp only [Joins, meets_bind, meets_needKeyword, htoken]
  split
  · next hword => exact h hword
  · simp

/-- Where the first attempt declines it reports and declines behind it. -/
theorem bindOrNone {next next' : Option α → Attempt β}
    (h : Joins first second k x y p post)
    (hnone : ∀ s, Attempt.Makes 1 first (next none) (fun _ => False) s)
    (hsome : ∀ a q, post a q → Joins first second 1 (next (some a)) (next' (some a)) q post')
    (hkeeps : ∀ a s, Attempt.Makes 0 first (next (some a)) (fun _ => True) s) :
    Joins first second 1 (orNone x >>= next) (orNone y >>= next') p post' := by
  unfold Joins
  rw [meets_bind, meets_orNone]
  refine Meets.mono h (fun a t => ?_) fun t _ => ?_
  · rintro (hreported | ⟨q, rfl, hq, hy⟩)
    · exact Meets.mono (hkeeps a t) (fun b u hu => .inl (hu.2.reported (.inl hreported)))
        fun u hu => Array.size_pos_iff.mpr (hu.reported (.inl hreported))
    · refine Meets.mono (hsome a q hq) (fun b u => Or.imp_right ?_) fun _ => id
      rintro ⟨r, hu, hr, hz⟩
      refine ⟨r, hu, hr, ?_⟩
      rw [meets_bind, meets_orNone]
      refine Meets.mono hy (fun a' t' => ?_) fun _ => False.elim
      rintro ⟨rfl, rfl⟩
      exact hz
  · exact Meets.mono (hnone t) (fun b u hu => hu.1.elim) fun u hu =>
      Array.size_pos_iff.mpr (hu.reported (.inr (Nat.le_refl 1)))

/-- What follows an attempt has to keep its reports, also where it has declined. -/
theorem run {next next' : Option α → Parse β} {made : α → Prop}
    (h : Joins first second 1 x y p post) (hmade : Attempt.Makes k first x made (.at p #[]))
    (hsome : ∀ a q, made a → post a q →
      Parse.Joins first second (next (some a)) (next' (some a)) q post')
    (hkeeps : ∀ o s, (∀ a, o = some a → made a) → Parse.Makes first (next o) (fun _ => True) s) :
    Parse.Joins first second (x.run >>= next) (y.run >>= next') p post' := by
  unfold Parse.Joins
  rw [Parse.meets_bind, meets_run]
  refine (Meets.and h hmade).mono (fun a t => ?_) fun t ht => ?_
  · rintro ⟨hreported | ⟨q, rfl, hq, hy⟩, ha, -⟩
    · have hsome' : ∀ a', some a = some a' → made a' := by rintro _ ⟨⟩; exact ha
      exact Parse.Meets.mono (hkeeps _ t hsome') fun b u hu =>
        .inl (hu.2.reported (.inl hreported))
    · refine Parse.Meets.mono (hsome a q ha hq) fun b u => Or.imp_right ?_
      rintro ⟨r, hu, hr, hz⟩
      refine ⟨r, hu, hr, ?_⟩
      rw [Parse.meets_bind, meets_run]
      refine Meets.mono hy (fun a' t' => ?_) fun _ => False.elim
      rintro ⟨rfl, rfl⟩
      exact hz
  · have hreported : t.diagnostics ≠ #[] := Array.size_pos_iff.mp ht.1
    exact Parse.Meets.mono (hkeeps _ t nofun) fun b u hu =>
      .inl (hu.2.reported (.inl hreported))

end Attempt.Joins

/-! ### Steps that end in front of the end -/

section Inside

variable {h : Adjoins first second} {R : α → α → Prop} (hR : ∀ a b, R a b → b = a)
  {post : α → Nat → Prop} (hp : p < first.size)

include hR hp

theorem Parse.joins_of_couples {x y : Parse α} (hc : Parse.Couples (.untilEnd h) x y R)
    (hinside : Parse.Meets True first x (.at p #[]) fun a t => t.diagnostics ≠ #[] ∨
      ∃ q, t = .at q #[] ∧ q < first.size ∧ post a q) :
    Parse.Joins first second x y p fun a q => q < first.size ∧ post a q := by
  refine (Parse.Meets.and hinside (hc.follows hp ⟨rfl, rfl⟩)).mono fun a t => ?_
  rintro ⟨hreported | ⟨q, rfl, hq, ha⟩, q', d, ht, hrest⟩
  · exact .inl hreported
  · obtain ⟨rfl, rfl⟩ := ParseState.at_inj ht
    rcases hrest with ⟨-, hlost | hdead⟩ | ⟨-, hy⟩
    · exact absurd rfl hlost
    · exact absurd hq hdead
    · refine .inr ⟨q, rfl, ⟨hq, ha⟩, Parse.Meets.mono hy fun b u => ?_⟩
      rintro ⟨hab, e, rfl, -, rfl⟩
      exact ⟨hR a b hab, rfl⟩

theorem Attempt.joins_of_couples {x y : Attempt α} (hc : Attempt.Couples (.untilEnd h) x y R)
    (hinside : Attempt.Meets True first x (.at p #[])
      (fun a t => t.diagnostics ≠ #[] ∨ ∃ q, t = .at q #[] ∧ q < first.size ∧ post a q)
      fun t => k ≤ t.diagnostics.size) :
    Attempt.Joins first second k x y p fun a q => q < first.size ∧ post a q := by
  refine (Parse.Meets.and hinside (hc.follows hp ⟨rfl, rfl⟩)).mono fun o t => ?_
  rintro ⟨hmade, q', d, ht, hrest⟩
  cases o with
  | none => exact hmade
  | some a =>
      rcases hmade with hreported | ⟨q, rfl, hq, ha⟩
      · exact .inl hreported
      · obtain ⟨rfl, rfl⟩ := ParseState.at_inj ht
        rcases hrest with ⟨-, hlost | hdead⟩ | ⟨-, hy⟩
        · exact absurd rfl hlost
        · exact absurd hq hdead
        · refine .inr ⟨q, rfl, ⟨hq, ha⟩, Parse.Meets.mono hy fun o u => ?_⟩
          rintro ⟨hab, e, rfl, -, rfl⟩
          cases hab with
          | some hab => exact ⟨hR a _ hab, rfl⟩

end Inside

/-- What was read without a report is a list of tokens in front of what is left. -/
theorem Reads.quiet {derived : List Token → Prop} {t : ParseState}
    (h : Reads first p #[] derived t) : t.diagnostics ≠ #[] ∨
      ∃ q ts, t = .at q #[] ∧ first.rest p = ts ++ first.rest q ∧ derived ts := by
  obtain ⟨q, e, rfl, -, hread⟩ := h
  by_cases hquiet : e = #[]
  · obtain ⟨ts, hts, hderived⟩ := hread (by rw [hquiet])
    exact .inr ⟨q, ts, by rw [hquiet], hts, hderived⟩
  · exact .inl hquiet

/-- A step whose tokens do not end with a semicolon joins. -/
theorem Attempt.joins_of_endsOpen {x y : Attempt α} (h : Adjoins first second)
    {R : α → α → Prop} (hR : ∀ a b, R a b → b = a)
    (hc : Attempt.Couples (.untilEnd h) x y R) {derives : List Token → α → Prop}
    (hyields : Attempt.Yields k first x p derives)
    (hopen : ∀ ts q a, first.rest p = ts ++ first.rest q → derives ts a → EndsOpen ts)
    (hp : p < first.size) :
    Attempt.Joins first second k x y p fun a q => q < first.size ∧
      ∃ ts, first.rest p = ts ++ first.rest q ∧ derives ts a := by
  refine Attempt.joins_of_couples hR hp hc ((hyields #[]).mono (fun a t hread => ?_) fun t => ?_)
  · refine hread.quiet.imp_right ?_
    rintro ⟨q, ts, rfl, hts, hderives⟩
    exact ⟨q, rfl, h.lt_of_endsOpen (hopen ts q a hts hderives) hts, ts, hts, hderives⟩
  · rintro ⟨q, e, rfl, he⟩
    simpa using he

end SharpSyntax
