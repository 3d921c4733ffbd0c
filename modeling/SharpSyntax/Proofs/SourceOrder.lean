import SharpSyntax.Proofs.CarriedGrammar
import SharpSyntax.Proofs.Layout
import SharpSyntax.Proofs.TokenReadBack

/-!
# The tree of a text is in the order of its tokens

The parser keeps the order of what it reads, and it uses no token twice, whatever is wrong with the
text. Read in source order, the tree of a text is carried by the tokens of the text.

A name that is stored as one text can be cut at its dots only because the words of the built-in
rules have no dots in them.
-/

namespace SharpSyntax

open Grammar

/-! ## Words have no dots in them -/

namespace Scan

variable {text : List Char} {n : Nat}

theorem isName_of_identifier (h : identifier text = some n) : IsName (text.take n) := by
  cases text with
  | nil => cases h
  | cons c rest =>
      simp only [identifier] at h
      split at h
      · next hstart =>
        cases h
        have htake : rest.take (run continuesName rest) = rest.takeWhile continuesName :=
          (List.prefix_iff_eq_take.mp (List.takeWhile_prefix continuesName)).symm
        refine ⟨c, rest.takeWhile continuesName, ?_, hstart, fun d hmem => ?_⟩
        · rw [Nat.add_comm, List.take_succ_cons, htake]
        · exact List.all_eq_true.mp List.all_takeWhile d hmem
      · cases h

theorem isName_of_keyword (h : keyword text = some n) : IsName (text.take n) := by
  unfold keyword at h
  dsimp only at h
  split at h
  · next hword =>
    cases h
    have htake : text.take (word text).length = word text :=
      (List.prefix_iff_eq_take.mp (List.takeWhile_prefix _)).symm
    rw [htake]
    exact isName_of_mem_keywords (List.contains_iff_mem.mp hword)
  · cases h

end Scan

theorem IsName.dot_not_mem {text : List Char} (h : IsName text) : '.' ∉ text := by
  intro hmem
  have hword := h.isWordChar '.' hmem
  exact absurd hword (by decide)

/-- What a built-in rule for words has as a lexeme is a name. -/
theorem TokenRule.isName_of_lexeme {rule : TokenRule} (hmem : rule ∈ builtin)
    (hkind : rule.kind = Kind.identifier ∨ rule.kind = Kind.keyword)
    {behind ahead lexeme : List Char} (h : rule.lexeme? behind ahead = some lexeme) :
    IsName lexeme := by
  obtain ⟨n, hn, rfl⟩ := exists_scan h
  rcases hkind with hkind | hkind
  · rw [eq_builtin ⟨5, by decide⟩ hmem hkind] at hn
    exact Scan.isName_of_identifier hn
  · rw [eq_builtin ⟨4, by decide⟩ hmem hkind] at hn
    exact Scan.isName_of_keyword hn

theorem Lexeme.IsFirst.isName {text : List Char} {lexeme : Lexeme}
    (h : lexeme.IsFirst TokenRule.builtin text)
    (hkind : lexeme.rule.kind = Kind.identifier ∨ lexeme.rule.kind = Kind.keyword) :
    IsName lexeme.text := by
  have hrule := h.rule_mem
  obtain ⟨_, _, -, hfound, -⟩ := h
  exact TokenRule.isName_of_lexeme hrule hkind hfound

theorem wordsUndotted_of_lex {source : SourceText} {tokens : List Token}
    (h : Frontend.empty.lex source = .ok tokens) :
    (Input.ofTokens tokens source).WordsUndotted := by
  obtain ⟨lexemes, stop, hsegments, rfl⟩ := Frontend.segments_of_lex h
  intro p hkind
  have hlt : p < (lexemes.filterMap Lexeme.token?).length := by
    have hsize : p < (Input.ofTokens (lexemes.filterMap Lexeme.token?) source).size := by
      rcases hkind with hkind | hkind
      · exact Input.lt_size_of_kind hkind (by decide)
      · exact Input.lt_size_of_kind hkind (by decide)
    rwa [Input.size_ofTokens] at hsize
  rw [Input.tokenAt_ofTokens_of_lt hlt] at hkind ⊢
  obtain ⟨lexeme, hmem, htoken⟩ := List.mem_filterMap.mp (List.getElem_mem hlt)
  have hfirst := (hsegments.of_mem lexeme hmem).1
  rw [(Lexeme.token?_eq_some htoken).1]
  rw [Lexeme.kind_of_token? htoken] at hkind
  exact (hfirst.isName hkind).dot_not_mem

/-! ## Trees in the order of tokens -/

/-- The traces are in the order of the tokens. -/
structure InSourceOrder (tokens : List Token) (items : List Trace) : Prop where
  /-- The texts are the texts of tokens, one behind the other. -/
  texts_sublist : (items.filterMap Trace.text?).Sublist (tokens.map Token.text)
  /-- The tokens that are kept are among the tokens, one behind the other. -/
  tokens_sublist : (items.filterMap Trace.token?).Sublist tokens
  /-- A declaration begins at a token. The texts in front of it are texts of tokens in front of this
  one, and its name and the texts behind it are texts of this token and of those behind it. -/
  starts : ∀ before offset after, items = before ++ .start offset :: after →
    ∃ i, ∃ h : i < tokens.length, tokens[i].offset = offset ∧
      (before.filterMap Trace.text?).Sublist ((tokens.take i).map Token.text) ∧
      (after.filterMap Trace.text?).Sublist ((tokens.drop i).map Token.text)

theorem Input.Carries.texts {input : Input} {p q : Nat} {items : List Trace}
    (h : input.Carries p items q) : (items.filterMap Trace.text?).Sublist
      (((input.tokens.toList.take q).drop p).map Token.text) := by
  refine h.sublist (fun item text token hitem hleft => ?_) fun _ => rfl
  cases item with
  | text t => cases hitem; exact hleft
  | token t => cases hitem; exact congrArg Token.text hleft
  | start offset => cases hitem

theorem Input.Carries.tokens {input : Input} {p q : Nat} {items : List Trace}
    (h : input.Carries p items q) : (items.filterMap Trace.token?).Sublist
      ((input.tokens.toList.take q).drop p) := by
  rw [← List.map_id ((input.tokens.toList.take q).drop p)]
  refine h.sublist (fun item kept token hitem hleft => ?_) fun _ => rfl
  cases item with
  | text t => cases hitem
  | token t => cases hitem; exact hleft
  | start offset => cases hitem

/-- Traces that the tokens carry are in their order. -/
theorem inSourceOrder_of_carries {tokens : List Token} {source : SourceText} {items : List Trace}
    {q : Nat} (h : (Input.ofTokens tokens source).Carries 0 items q) :
    InSourceOrder tokens items where
  texts_sublist := h.texts.trans ((List.take_sublist q tokens).map Token.text)
  tokens_sublist := h.tokens.trans (List.take_sublist q tokens)
  starts before offset after hitems := by
    rw [hitems] at h
    obtain ⟨m, hbefore, hafter⟩ := h.split
    obtain ⟨i, hmi, hi, hoffset, hafter⟩ := hafter.exists_leftBy
    have hlt : i < tokens.length := by rwa [Input.size_ofTokens] at hi
    rw [Input.tokenAt_ofTokens_of_lt hlt] at hoffset
    refine ⟨i, hlt, hoffset.symm, ?_, ?_⟩
    · exact (hbefore.to_le hmi).texts
    · exact hafter.texts.trans (((List.take_sublist q tokens).drop i).map Token.text)

/-- **The tree of a text is in the order of its tokens.** Every text that the lexer without plugins
cuts to the end is parsed to a tree, with or without reports, of which the texts, read in source
order, are texts of its tokens one behind the other; every token in the tree is a token of the text;
and every offset of a declaration is that of a token which does not stand behind the name of the
declaration. -/
theorem tree_inSourceOrder {source : SourceText} {tokens : List Token}
    (hlex : Frontend.empty.lex source = .ok tokens) :
    ∃ result, Frontend.empty.parse source = .ok result ∧
      InSourceOrder tokens result.program.traces := by
  let parser := Frontend.empty.parser tokens source .builtin
  obtain ⟨tree, reported, hrun⟩ := parser.program_ends Hooks.progress_none
  have hrules : parser.rules.Carry parser.input :=
    Rules.carry_ofDepth (wordsUndotted_of_lex hlex) _ _
  obtain ⟨q, e, -, -, hcarries⟩ := Parser.post_of_run (program_leads hrules 0 #[]) hrun
  exact ⟨_, Frontend.parse_of_run (Frontend.tokens_of_lex hlex).2 hrun,
    inSourceOrder_of_carries hcarries⟩

/-- A class with a field of a dotted type and with one that has a number in the place of its name.
The second field is dropped. -/
theorem tree_inSourceOrder_broken_field : ∃ result,
    Frontend.empty.parse (.ofText "class A\x7bB.C x;int 1;\x7d" "a.cs") = .ok result ∧
      InSourceOrder
        [⟨.keyword, "class", 0⟩, ⟨.identifier, "A", 6⟩, ⟨.symbol, openBrace, 7⟩,
          ⟨.identifier, "B", 8⟩, ⟨.symbol, ".", 9⟩, ⟨.identifier, "C", 10⟩, ⟨.identifier, "x", 12⟩,
          ⟨.symbol, ";", 13⟩, ⟨.keyword, "int", 14⟩, ⟨.number, "1", 18⟩, ⟨.symbol, ";", 19⟩,
          ⟨.symbol, closeBrace, 20⟩] result.program.traces ∧
      result.program.traces.filterMap Trace.text? = ["A", "B", "C", "x"] ∧
      result.diagnostics ≠ [] := by
  have hlex : Frontend.empty.lex (.ofText "class A\x7bB.C x;int 1;\x7d" "a.cs") =
      .ok [⟨.keyword, "class", 0⟩, ⟨.identifier, "A", 6⟩, ⟨.symbol, openBrace, 7⟩,
        ⟨.identifier, "B", 8⟩, ⟨.symbol, ".", 9⟩, ⟨.identifier, "C", 10⟩, ⟨.identifier, "x", 12⟩,
        ⟨.symbol, ";", 13⟩, ⟨.keyword, "int", 14⟩, ⟨.number, "1", 18⟩, ⟨.symbol, ";", 19⟩,
        ⟨.symbol, closeBrace, 20⟩] := by decide +kernel
  have hread : (Frontend.empty.parse (.ofText "class A\x7bB.C x;int 1;\x7d" "a.cs")).toOption.map
      (fun result => (result.program.traces.filterMap Trace.text?, result.ok)) =
      some (["A", "B", "C", "x"], false) := by decide +kernel
  obtain ⟨result, hparse, horder⟩ := tree_inSourceOrder hlex
  rw [hparse, Except.toOption, Option.map_some, Option.some_inj, Prod.mk.injEq] at hread
  refine ⟨result, hparse, horder, hread.1, fun hnone => ?_⟩
  have hok := hread.2
  rw [ParseResult.ok, hnone] at hok
  cases hok

end SharpSyntax
