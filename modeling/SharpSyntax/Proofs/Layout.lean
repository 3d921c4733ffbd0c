import Mathlib.Data.List.Forall2
import SharpSyntax.Proofs.CoupledGrammar
import SharpSyntax.Proofs.Segments

/-!
# What stands between tokens does not matter

Two texts that are cut into the same tokens, at whatever offsets, are parsed alike: to trees that
differ in offsets only, and with reports about the same tokens. Recovery compares offsets, but it
only asks whether they are those of one token. Tokens are not empty and do not overlap, and the end
marker stands behind the last of them, so that an offset tells which token it is the offset of.
-/

namespace SharpSyntax

open Parse Attempt Grammar

/-! ## Offsets tell tokens apart -/

/-- The tokens and the end marker stand at offsets that grow from each to the next. -/
def Input.Ascending (input : Input) : Prop :=
  ∀ p q, p < q → q ≤ input.size → (input.tokenAt p).offset < (input.tokenAt q).offset

namespace Input

variable {input : Input} {p q : Nat}

theorem Ascending.offset_eq_iff (h : input.Ascending) (hp : p ≤ input.size)
    (hq : q ≤ input.size) : (input.tokenAt p).offset = (input.tokenAt q).offset ↔ p = q := by
  refine ⟨fun heq => ?_, fun heq => by rw [heq]⟩
  rcases Nat.lt_trichotomy p q with hlt | rfl | hlt
  · have := h p q hlt hq
    omega
  · rfl
  · have := h q p hlt hp
    omega

/-- Tokens that are not empty and do not overlap stand at ascending offsets. -/
theorem ascending_ofTokens {tokens : List Token} (source : SourceText)
    (hordered : tokens.Pairwise fun first second => first.stop ≤ second.offset)
    (hne : ∀ token ∈ tokens, token.offset < token.stop) :
    (Input.ofTokens tokens source).Ascending := by
  intro p q hpq hq
  rw [size_ofTokens] at hq
  have hp : p < tokens.length := by omega
  rw [tokenAt_ofTokens_of_lt hp]
  have hstop := hne tokens[p] (List.getElem_mem hp)
  rcases Nat.lt_or_ge q tokens.length with hlt | hge
  · rw [tokenAt_ofTokens_of_lt hlt]
    have := List.pairwise_iff_getElem.mp hordered p q hp hlt hpq
    omega
  · -- the end marker stands where the last token stops
    have hlast : tokens.length - 1 < tokens.length := by omega
    have hlast? : tokens.getLast? = some tokens[tokens.length - 1] := by
      rw [List.getLast?_eq_getElem?, List.getElem?_eq_getElem hlast]
    have hmarker : ((Input.ofTokens tokens source).tokenAt q).offset =
        tokens[tokens.length - 1].stop := by
      rw [tokenAt_of_size_le (by rw [size_ofTokens]; exact hge), ofTokens, hlast?]
      rfl
    rw [hmarker]
    rcases Nat.lt_or_ge p (tokens.length - 1) with hbefore | hbehind
    · have hstop' := hne _ (List.getElem_mem hlast)
      have := List.pairwise_iff_getElem.mp hordered p _ hp hlast hbefore
      omega
    · obtain rfl : p = tokens.length - 1 := by omega
      exact hstop

end Input

/-- Without plugins the tokens of a text are those that the built-in rules cut. -/
theorem Frontend.tokens_of_lex {source : SourceText} {tokens : List Token}
    (h : Frontend.empty.lex source = .ok tokens) :
    (Lexer.new source).tokenize.1 = .ok tokens ∧
      Frontend.empty.tokens source = .ok (tokens, .builtin) := by
  have hlexer : Frontend.empty.lexer source = .ok (Lexer.new source) := rfl
  rw [Frontend.lex, Frontend.tokens, hlexer] at h
  rw [Frontend.tokens, hlexer]
  dsimp only at h ⊢
  cases hrun : (Lexer.new source).tokenize.1 with
  | error error => rw [hrun] at h; cases h
  | ok found => rw [hrun] at h; cases h; exact ⟨rfl, rfl⟩

/-- The tokens of a text are those of the lexemes that the built-in rules cut it into. -/
theorem Frontend.segments_of_lex {source : SourceText} {tokens : List Token}
    (h : Frontend.empty.lex source = .ok tokens) :
    ∃ lexemes stop, Segments TokenRule.builtin source.text.toList 0 lexemes stop ∧
      tokens = lexemes.filterMap Lexeme.token? := by
  obtain ⟨lexemes, stop, hsegments, -, -, hend⟩ :=
    Lexer.tokenize_fresh source TokenRule.builtin .builtin
  have hrun : (Lexer.fresh source TokenRule.builtin .builtin).tokenize.1 = .ok tokens :=
    (Frontend.tokens_of_lex h).1
  refine ⟨lexemes, stop, hsegments, ?_⟩
  rcases hend with ⟨-, hok⟩ | ⟨c, -, herror⟩
  · rw [hok] at hrun
    cases hrun
    rfl
  · rw [herror] at hrun
    cases hrun

/-- The tokens that a text is cut into stand at ascending offsets. -/
theorem Segments.ascending {source : SourceText} {rules : List TokenRule} {text : List Char}
    {start stop : Nat} {lexemes : List Lexeme} (h : Segments rules text start lexemes stop) :
    (Input.ofTokens (lexemes.filterMap Lexeme.token?) source).Ascending := by
  refine Input.ascending_ofTokens source (h.tokens_pairwise.imp fun h => h.2) ?_
  intro token hmem
  have hne := (h.token_text hmem).2
  have hpos := List.length_pos_iff.mpr hne
  rw [String.length_toList] at hpos
  rw [Token.stop]
  omega

theorem ascending_of_lex {source : SourceText} {tokens : List Token}
    (h : Frontend.empty.lex source = .ok tokens) : (Input.ofTokens tokens source).Ascending := by
  obtain ⟨lexemes, stop, hsegments, rfl⟩ := Frontend.segments_of_lex h
  exact hsegments.ascending

/-! ## Reports about the same tokens -/

/-- Two reports of one code, each in its own input about the token of one index, or both about the
end of the input. -/
def SamePlace (first second : Input) (x y : Diagnostic) : Prop :=
  ∃ p ≤ first.size, ∃ message message' code,
    x = first.errorAt p message code ∧ y = second.errorAt p message' code

/-- Reports that were made one after the other, each time about the same token of both inputs. -/
inductive ReportsMatch (first second : Input) : Array Diagnostic → Array Diagnostic → Prop
  | nil : ReportsMatch first second #[] #[]
  | push {d e : Array Diagnostic} {x y : Diagnostic} : ReportsMatch first second d e →
      SamePlace first second x y → ReportsMatch first second (d.push x) (e.push y)

namespace ReportsMatch

variable {first second : Input} {d e : Array Diagnostic} {p : Nat}

theorem size_eq (h : ReportsMatch first second d e) : d.size = e.size := by
  induction h with
  | nil => rfl
  | push _ _ ih => rw [Array.size_push, Array.size_push, ih]

/-- The last reports are about one token of both inputs, which is or is not the one at a place. -/
theorem back_iff (h : ReportsMatch first second d e) (hsize : second.size = first.size)
    (hfirst : first.Ascending) (hsecond : second.Ascending) (hp : p < first.size) :
    d.back?.map Diagnostic.offset = some ((first.tokenAt p).offset : Int) ↔
      e.back?.map Diagnostic.offset = some ((second.tokenAt p).offset : Int) := by
  cases h with
  | nil => simp
  | push _ hplace =>
      obtain ⟨q, hq, message, message', code, rfl, rfl⟩ := hplace
      have hq' : q ≤ second.size := by omega
      have hp' : p ≤ second.size := by omega
      simp only [Array.back?_push, Option.map_some, Option.some.injEq, Input.errorAt,
        Diagnostic.errorAt, Int.ofNat_inj]
      rw [hfirst.offset_eq_iff hq (by omega), hsecond.offset_eq_iff hq' hp']

theorem forall₂ (h : ReportsMatch first second d e) :
    List.Forall₂ (SamePlace first second) d.toList e.toList := by
  induction h with
  | nil => exact .nil
  | push _ hplace ih =>
      rw [Array.toList_push, Array.toList_push]
      exact List.rel_append ih (.cons hplace .nil)

end ReportsMatch

/-! ## Two texts with the same tokens -/

/-- Two inputs whose tokens have the same kinds and texts, each at ascending offsets. -/
def Coupling.ofLayouts (first second : Input) (hsize : second.size = first.size)
    (halike : ∀ p ≤ first.size, (first.tokenAt p).mapOffset (fun _ => 0) =
      (second.tokenAt p).mapOffset fun _ => 0)
    (hfirst : first.Ascending) (hsecond : second.Ascending) : Coupling where
  first := first
  second := second
  shift := 0
  kept _ := 0
  Reported := ReportsMatch first second
  Lost _ := False
  size_le := Nat.le_of_eq hsize.symm
  size_le_iff {p} _ := by rw [hsize, Nat.add_zero]
  tokenAt_eq p hp _ := halike p hp
  reported_size h := h.size_eq
  reported_back h hp _ := h.back_iff hsize hfirst hsecond hp
  reported_push _ hd hp _ _ := .inr (hd.push ⟨_, hp, _, _, _, rfl, rfl⟩)
  lost_push _ h := h

/-- Two tokens of one kind and one text. -/
def Token.SpelledAlike (token token' : Token) : Prop :=
  token.kind = token'.kind ∧ token.text = token'.text

theorem tokenAt_alike {tokens tokens' : List Token} (source source' : SourceText)
    (h : List.Forall₂ Token.SpelledAlike tokens tokens') (p : Nat) :
    ((Input.ofTokens tokens source).tokenAt p).mapOffset (fun _ => 0) =
      ((Input.ofTokens tokens' source').tokenAt p).mapOffset fun _ => 0 := by
  have hlength := h.length_eq
  rcases Nat.lt_or_ge p tokens.length with hp | hp
  · have hp' : p < tokens'.length := by omega
    have hspelled : Token.SpelledAlike tokens[p] tokens'[p] := h.get hp hp'
    rw [Input.tokenAt_ofTokens_of_lt hp, Input.tokenAt_ofTokens_of_lt hp']
    rw [Token.mapOffset, hspelled.1, hspelled.2, Token.mapOffset]
  · rw [Input.tokenAt_of_size_le (by rw [Input.size_ofTokens]; exact hp),
      Input.tokenAt_of_size_le (by rw [Input.size_ofTokens]; omega)]
    rfl

/-- **What stands between tokens does not matter.** Two texts whose tokens agree in kinds and texts
one by one are parsed to trees that differ in offsets only, and to equally many reports: of the same
codes, and each about the token of the same index in its own text, or about the end of both. -/
theorem layout_irrelevant {source source' : SourceText} {tokens tokens' : List Token}
    (hlex : Frontend.empty.lex source = .ok tokens)
    (hlex' : Frontend.empty.lex source' = .ok tokens')
    (halike : List.Forall₂ Token.SpelledAlike tokens tokens') :
    ∃ result result', Frontend.empty.parse source = .ok result ∧
      Frontend.empty.parse source' = .ok result' ∧
      result.program.mapOffset (fun _ => 0) = result'.program.mapOffset (fun _ => 0) ∧
      List.Forall₂ (SamePlace (.ofTokens tokens source) (.ofTokens tokens' source'))
        result.diagnostics result'.diagnostics := by
  have hsize : (Input.ofTokens tokens' source').size = (Input.ofTokens tokens source).size := by
    rw [Input.size_ofTokens, Input.size_ofTokens, halike.length_eq]
  let c := Coupling.ofLayouts (.ofTokens tokens source) (.ofTokens tokens' source') hsize
    (fun p _ => tokenAt_alike source source' halike p) (ascending_of_lex hlex)
    (ascending_of_lex hlex')
  have hfirst : (Frontend.empty.parser tokens source .builtin).input = c.first := rfl
  have hsecond : (Frontend.empty.parser tokens' source' .builtin).input = c.second := rfl
  have hstart : c.Reported #[] #[] := ReportsMatch.nil
  obtain ⟨tree, reported, hrun⟩ :=
    (Frontend.empty.parser tokens source .builtin).program_ends Hooks.progress_none
  obtain ⟨q, d, hafter, ⟨⟨⟩⟩ | ⟨tree', e, hrun', htree, hreports⟩⟩ :=
    Parser.run_program_couples hfirst hsecond (Hooks.couple_none c) (Nat.le_refl _) hstart hrun
  rw [hafter] at hrun
  exact ⟨_, _, Frontend.parse_of_run (Frontend.tokens_of_lex hlex).2 hrun,
    Frontend.parse_of_run (Frontend.tokens_of_lex hlex').2 hrun', htree, hreports.forall₂⟩

/-- A class with a field that has a number in the place of its name, once on one line and once on
three with a comment. -/
theorem layout_irrelevant_broken_field : ∃ result result',
    Frontend.empty.parse (.ofText "class A\x7bint 1;\x7d" "a.cs") = .ok result ∧
      Frontend.empty.parse (.ofText "class A \x7b\n  int /* */ 1 ;\n\x7d" "b.cs") = .ok result' ∧
      result.program.mapOffset (fun _ => 0) = result'.program.mapOffset (fun _ => 0) ∧
      result.diagnostics.length = result'.diagnostics.length ∧ result.diagnostics ≠ [] := by
  have hlex : Frontend.empty.lex (.ofText "class A\x7bint 1;\x7d" "a.cs") =
      .ok [⟨.keyword, "class", 0⟩, ⟨.identifier, "A", 6⟩, ⟨.symbol, openBrace, 7⟩,
        ⟨.keyword, "int", 8⟩, ⟨.number, "1", 12⟩, ⟨.symbol, ";", 13⟩,
        ⟨.symbol, closeBrace, 14⟩] := by decide +kernel
  have hlex' : Frontend.empty.lex (.ofText "class A \x7b\n  int /* */ 1 ;\n\x7d" "b.cs") =
      .ok [⟨.keyword, "class", 0⟩, ⟨.identifier, "A", 6⟩, ⟨.symbol, openBrace, 8⟩,
        ⟨.keyword, "int", 12⟩, ⟨.number, "1", 22⟩, ⟨.symbol, ";", 24⟩,
        ⟨.symbol, closeBrace, 26⟩] := by decide +kernel
  have hreported : (Frontend.empty.parse (.ofText "class A\x7bint 1;\x7d" "a.cs")).toOption.any
      ParseResult.ok = false := by decide +kernel
  obtain ⟨result, result', hparse, hparse', htree, hplaces⟩ :=
    layout_irrelevant hlex hlex' (by simp [Token.SpelledAlike])
  refine ⟨result, result', hparse, hparse', htree, hplaces.length_eq, fun hnone => ?_⟩
  rw [hparse] at hreported
  simp [ParseResult.ok, Except.toOption, hnone] at hreported

end SharpSyntax
