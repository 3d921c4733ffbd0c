import SharpSyntax.Plugin.Extras
import SharpSyntax.Proofs.ReportOrder
import SharpSyntax.Proofs.TokenReadBack

/-!
# The bundled plugin adds only what it says

The bundled plugin puts a rule for the word `null` in front of the rule for names. Where the new
rule has a lexeme, the rule for names has the same one: the word ends where the name would. So a
text is cut at the same places as without the plugin, and all that changes is the kind of that word.

Its routines begin at that kind and at five reserved words. Where a text has none of them, they
decline at every token, and the parse is the same as without the plugin, with the same errors.
-/

namespace SharpSyntax

open Parse Attempt Grammar

/-! ## The word in a text -/

/-- A name spelled `null` that does not go on behind its last letter, in any script. -/
def Token.isNullWord (source : SourceText) (token : Token) : Bool :=
  token.kind = Kind.identifier && token.text = "null" &&
    !(source.text.toList[token.stop]?).any Text.isWordChar

/-- The token with the kind that the bundled plugin gives to the word `null`. -/
def Token.markNull (source : SourceText) (token : Token) : Token :=
  if token.isNullWord source then { token with kind := Extras.nullKind } else token

namespace Extras

/-- The rule for the word `null`. -/
def nullRule : TokenRule := { kind := nullKind, scanner := Scan.wholeWord "null" }

/-- The rules of a lexer with the bundled plugin. -/
def rules : List TokenRule :=
  TokenRule.builtin.take 5 ++ nullRule :: TokenRule.builtin.drop 5

/-- The names of kinds of a lexer with the bundled plugin. -/
def aliases : Aliases := Aliases.builtin.set "null" nullKind

end Extras

theorem Frontend.lexer_extras (source : SourceText) :
    (Frontend.mk [Extras.plugin]).lexer source =
      .ok (Lexer.fresh source Extras.rules Extras.aliases) := rfl

/-! ## The first lexeme -/

section FirstLexeme

variable {behind ahead rest : List Char}

/-- No word goes on here. -/
def EndsWord (rest : List Char) : Prop := ∀ c, rest.head? = some c → Text.isWordChar c = false

/-- The run of word characters at the head of a text is a given word just where the text begins with
the word and no word goes on behind it. -/
theorem word_eq_iff {name : List Char} (hname : ∀ c ∈ name, Text.isWordChar c = true) :
    Scan.word ahead = name ↔ ∃ rest, ahead = name ++ rest ∧ EndsWord rest := by
  constructor
  · rintro rfl
    refine ⟨ahead.dropWhile Text.isWordChar, List.takeWhile_append_dropWhile.symm, fun c hc => ?_⟩
    have hstops := List.head?_dropWhile_not Text.isWordChar ahead
    rw [hc] at hstops
    exact hstops
  · rintro ⟨rest, rfl, hrest⟩
    exact takeWhile_append_of_head hname hrest

/-- The letters of the word `null`. -/
def nullLetters : List Char := ['n', 'u', 'l', 'l']

theorem nullLetters_isName : IsName nullLetters :=
  ⟨'n', ['u', 'l', 'l'], rfl, by decide, List.all_eq_true.mp (by decide)⟩

theorem word_nullLetters (hrest : EndsWord rest) :
    Scan.word (nullLetters ++ rest) = nullLetters :=
  (word_eq_iff nullLetters_isName.isWordChar).mpr ⟨rest, rfl, hrest⟩

/-- Where the rule for the word has a lexeme, it is the word. -/
theorem Extras.lexeme?_nullRule : nullRule.lexeme? behind ahead =
    if Scan.word ahead = nullLetters then some nullLetters else none := by
  have hspelled : String.ofList (Scan.word ahead) = "null" ↔ Scan.word ahead = nullLetters :=
    @String.ofList_inj (Scan.word ahead) nullLetters
  split
  · next hword =>
    obtain ⟨rest, rfl, -⟩ := (word_eq_iff nullLetters_isName.isWordChar).mp hword
    simp only [TokenRule.lexeme?, nullRule, Scanner.anywhere, Scan.wholeWord, hspelled.mpr hword]
    rfl
  · next hword =>
    simp only [TokenRule.lexeme?, nullRule, Scanner.anywhere, Scan.wholeWord,
      if_neg (mt hspelled.mp hword)]

/-- No rule in front of the rule for the word has a lexeme there. -/
theorem none_before_null (hrest : EndsWord rest) :
    ∀ rule ∈ TokenRule.builtin.take 5, rule.scanner behind (nullLetters ++ rest) = none := by
  refine none_take_succ ⟨4, by decide⟩ (none_before_keyword nullLetters_isName)
    (Scan.keyword_eq_none ?_)
  rw [word_nullLetters hrest]
  decide

/-- The rule for names has the same lexeme as the rule for the word. -/
theorem firstLexeme?_builtin_null (hrest : EndsWord rest) :
    firstLexeme? TokenRule.builtin behind (nullLetters ++ rest) =
      some (⟨.identifier, Scanner.anywhere Scan.identifier, false⟩, nullLetters) := by
  refine firstLexeme?_builtin ⟨5, by decide⟩ (none_before_null hrest) ?_ (by decide)
  have hrun : Scan.run Scan.continuesName (['u', 'l', 'l'] ++ rest) = 3 := by
    rw [Scan.run, takeWhile_append_of_head (List.all_eq_true.mp (by decide)) fun c hc => ?_]
    · rfl
    · rw [Bool.eq_false_iff]
      intro hcontinues
      have hends := hrest c hc
      rw [Text.isWordChar_of_continuesName hcontinues] at hends
      cases hends
  change (if Scan.startsName 'n' then
    some (1 + Scan.run Scan.continuesName (['u', 'l', 'l'] ++ rest)) else none) = some 4
  rw [hrun]
  rfl

theorem firstLexeme?_extras_null (hrest : EndsWord rest) :
    firstLexeme? Extras.rules behind (nullLetters ++ rest) =
      some (Extras.nullRule, nullLetters) := by
  have hearlier : firstLexeme? (TokenRule.builtin.take 5) behind (nullLetters ++ rest) = none := by
    refine List.findSome?_eq_none_iff.mpr fun rule hmem => ?_
    rw [TokenRule.lexeme?, none_before_null hrest rule hmem]
    rfl
  unfold firstLexeme? at hearlier ⊢
  rw [Extras.rules, List.findSome?_append, hearlier, Option.none_or, List.findSome?_cons,
    Extras.lexeme?_nullRule, if_pos (word_nullLetters hrest)]
  rfl

/-- Where the rule for the word has no lexeme, it is passed over. -/
theorem firstLexeme?_extras_of_ne (h : Scan.word ahead ≠ nullLetters) :
    firstLexeme? Extras.rules behind ahead = firstLexeme? TokenRule.builtin behind ahead := by
  have hsplit : TokenRule.builtin = TokenRule.builtin.take 5 ++ TokenRule.builtin.drop 5 :=
    (List.take_append_drop 5 _).symm
  unfold firstLexeme?
  rw [Extras.rules, hsplit, List.findSome?_append, List.findSome?_append, List.findSome?_cons,
    Extras.lexeme?_nullRule, if_neg h]
  rfl

end FirstLexeme

/-! ## All lexemes -/

section Cutting

variable {source : SourceText} {start : Nat}

/-- A lexeme gives the word just where it is the name that the text goes on with. -/
theorem isNullWord_iff {lexeme : List Char} {kind : Kind}
    (h : lexeme <+: source.text.toList.drop start) :
    Token.isNullWord source ⟨kind, String.ofList lexeme, start⟩ = true ↔
      kind = .identifier ∧ lexeme = nullLetters ∧
        Scan.word (source.text.toList.drop start) = nullLetters := by
  obtain ⟨rest, hrest⟩ := h
  have hnext : source.text.toList[start + lexeme.length]? = rest.head? := by
    rw [← List.head?_drop, ← List.drop_drop, ← hrest, List.drop_left]
  have hspelled : String.ofList lexeme = "null" ↔ lexeme = nullLetters :=
    @String.ofList_inj lexeme nullLetters
  have hends : (!rest.head?.any Text.isWordChar) = true ↔ EndsWord rest := by
    cases rest with
    | nil => simp [EndsWord]
    | cons c more => simp [EndsWord]
  simp only [Token.isNullWord, Token.stop, String.length_ofList, Bool.and_eq_true,
    decide_eq_true_eq, hnext, hspelled, hends, and_assoc, ← hrest]
  refine and_congr_right fun _ => and_congr_right fun hlexeme => ?_
  rw [word_eq_iff nullLetters_isName.isWordChar, hlexeme]
  constructor
  · exact fun h => ⟨rest, rfl, h⟩
  · rintro ⟨rest', heq, h⟩
    rwa [List.append_cancel_left heq]

/-- Where no built-in rule has a lexeme, the rule for the word has none. -/
theorem firstLexeme?_extras_none {behind ahead : List Char}
    (h : firstLexeme? TokenRule.builtin behind ahead = none) :
    firstLexeme? Extras.rules behind ahead = none := by
  by_cases hword : Scan.word ahead = nullLetters
  · obtain ⟨rest, rfl, hrest⟩ := (word_eq_iff nullLetters_isName.isWordChar).mp hword
    rw [firstLexeme?_builtin_null hrest] at h
    cases h
  · rw [firstLexeme?_extras_of_ne hword, h]

/-- Where a built-in rule has a lexeme, it is the lexeme with the bundled plugin too, and gives the
same token but for the kind of the word. -/
theorem firstLexeme?_extras_some {rule : TokenRule} {lexeme : List Char}
    (h : firstLexeme? TokenRule.builtin (source.text.toList.take start).reverse
      (source.text.toList.drop start) = some (rule, lexeme)) :
    ∃ marked, firstLexeme? Extras.rules (source.text.toList.take start).reverse
        (source.text.toList.drop start) = some (marked, lexeme) ∧
      Lexeme.token? ⟨marked, lexeme, start⟩ =
        (Lexeme.token? ⟨rule, lexeme, start⟩).map (Token.markNull source) := by
  have hfront := (firstLexeme?_eq_some h).1
  by_cases hword : Scan.word (source.text.toList.drop start) = nullLetters
  · obtain ⟨rest, hahead, hrest⟩ := (word_eq_iff nullLetters_isName.isWordChar).mp hword
    rw [hahead, firstLexeme?_builtin_null hrest] at h
    cases h
    refine ⟨Extras.nullRule, by rw [hahead]; exact firstLexeme?_extras_null hrest, ?_⟩
    have hmarked : Token.isNullWord source ⟨.identifier, String.ofList nullLetters, start⟩ = true :=
      (isNullWord_iff hfront).mpr ⟨rfl, rfl, hword⟩
    change _ = some (Token.markNull source ⟨.identifier, String.ofList nullLetters, start⟩)
    rw [Token.markNull, if_pos hmarked]
    rfl
  · refine ⟨rule, (firstLexeme?_extras_of_ne hword).trans h, ?_⟩
    have hplain : ¬ Token.isNullWord source ⟨rule.kind, String.ofList lexeme, start⟩ = true :=
      fun hnull => hword ((isNullWord_iff hfront).mp hnull).2.2
    unfold Lexeme.token?
    split
    · rfl
    · rw [Option.map_some, Token.markNull, if_neg hplain]

/-- Cut with the bundled plugin, a text stops at the same place and gives the same tokens, but for
the kind of the word. -/
theorem cut_extras (source : SourceText) (start : Nat) :
    let behind := (source.text.toList.take start).reverse
    let ahead := source.text.toList.drop start
    let plain := cut TokenRule.builtin start behind ahead
    let marked := cut Extras.rules start behind ahead
    marked.2 = plain.2 ∧ charCount marked.1 = charCount plain.1 ∧
      marked.1.filterMap Lexeme.token? =
        (plain.1.filterMap Lexeme.token?).map (Token.markNull source) := by
  -- the induction is on the text ahead, of which every lexeme takes something
  induction hlength : (source.text.toList.drop start).length using Nat.strongRecOn
    generalizing start with
  | ind n ih =>
      subst hlength
      dsimp only
      cases hfirst : firstLexeme? TokenRule.builtin (source.text.toList.take start).reverse
          (source.text.toList.drop start) with
      | none =>
          rw [cut_of_none hfirst, cut_of_none (firstLexeme?_extras_none hfirst)]
          exact ⟨rfl, rfl, rfl⟩
      | some found =>
          obtain ⟨rule, lexeme⟩ := found
          obtain ⟨marked, hmarked, htoken⟩ := firstLexeme?_extras_some hfirst
          obtain ⟨hfront, hne⟩ := firstLexeme?_eq_some hfirst
          have hlt : (source.text.toList.drop (start + lexeme.length)).length <
              (source.text.toList.drop start).length := by
            have hle := hfront.length_le
            have hpos := List.length_pos_iff.mpr hne
            rw [← List.drop_drop, List.length_drop]
            omega
          obtain ⟨hrest, hcount, htokens⟩ := ih _ hlt (start + lexeme.length) rfl
          rw [cut_of_some hfirst, cut_of_some hmarked, reverseAux_behind hfront, List.drop_drop]
          refine ⟨hrest, ?_, ?_⟩
          · rw [charCount, charCount, hcount]
          · dsimp only
            rw [List.filterMap_cons, List.filterMap_cons, htoken, htokens]
            cases Lexeme.token? ⟨rule, lexeme, start⟩ <;> rfl

end Cutting

/-- A lexer with the bundled plugin fails where a plain one fails, and otherwise cuts the same
tokens but for the kind of the word. -/
theorem tokenize_extras (source : SourceText) (aliases : Aliases) :
    (Lexer.fresh source Extras.rules aliases).tokenize.1 =
      (Lexer.new source).tokenize.1.map (List.map (Token.markNull source)) := by
  obtain ⟨hrest, hcount, htokens⟩ := cut_extras source 0
  unfold Lexer.tokenize Lexer.fresh Lexer.new
  dsimp only
  rw [hrest, hcount, htokens, List.nil_append, List.nil_append]
  split <;> rfl

theorem Frontend.tokens_extras (source : SourceText) :
    (Frontend.mk [Extras.plugin]).tokens source =
      (Frontend.empty.tokens source).map fun found =>
        (found.1.map (Token.markNull source), Extras.aliases) := by
  have hplain : Frontend.empty.lexer source = .ok (Lexer.new source) := rfl
  rw [Frontend.tokens, Frontend.tokens, Frontend.lexer_extras, hplain]
  dsimp only
  rw [tokenize_extras]
  cases (Lexer.new source).tokenize.1 <;> rfl

/-! ## Parsing -/

/-- The tokens of a text beside themselves. -/
def Coupling.same (tokens : List Token) (source : SourceText) : Coupling where
  first := .ofTokens tokens source
  second := .ofTokens tokens source
  shift := 0
  kept := id
  Reported d e := e = d
  Lost _ := False
  live_or_lost := never_apart
  size_le := Nat.le_refl _
  size_le_iff _ := Iff.rfl
  tokenAt_eq _ _ _ := rfl
  reported_size h := by rw [h]
  reported_back h _ _ := by rw [h]; rfl
  reported_push _ hd _ _ hmessage := .inr (by rw [hd, hmessage fun _ _ _ => rfl]; rfl)
  lost_push _ h := h

/-- The reserved words at which a routine of the bundled plugin begins. -/
def Extras.words : List String := "return" :: valueWords

/-- No routine of the bundled plugin begins at the token. -/
def Token.Plain (token : Token) : Prop :=
  token.kind ≠ Extras.nullKind ∧ (token.kind = Kind.keyword → token.text ∉ Extras.words)

/-- The extensions of a parser with the bundled plugin. -/
theorem Extras.extensions_eq : (Extras.plugin.applyToHooks Extras.aliases .none).extensions =
    [keywordLiteral .keyword nullKind, returnStatement .keyword] := by
  have hkeyword : Extras.aliases.find? "keyword" = some .keyword := by decide
  have hnull : Extras.aliases.find? "null" = some nullKind := by decide
  change (Extras.parse Extras.aliases .none).extensions = _
  rw [Extras.parse, hkeyword, hnull]
  rfl

section Declining

variable {input : Input} {rules : Rules} {fault : Prop} {p : Nat} {d : Array Diagnostic}
  {made : Node → ParseState → Prop} {declined : ParseState → Prop}

theorem keywordLiteral_declines (hplain : (input.tokenAt p).Plain) (h : declined (.at p d)) :
    Attempt.Meets fault input (Extras.keywordLiteral .keyword Extras.nullKind rules) (.at p d)
      made declined := by
  obtain ⟨hnull, hwords⟩ := hplain
  simp only [Extras.keywordLiteral, Attempt.meets_bind, Attempt.meets_liftM, meets_current]
  refine .ite (fun hbegins => ?_) fun _ => h
  simp only [Bool.or_eq_true, Bool.and_eq_true, decide_eq_true_eq, List.contains_eq_mem] at hbegins
  rcases hbegins with hkind | ⟨hkind, htext⟩
  · exact absurd hkind hnull
  · exact absurd (List.mem_cons_of_mem _ htext) (hwords hkind)

theorem returnStatement_declines (hplain : (input.tokenAt p).Plain) (h : declined (.at p d)) :
    Attempt.Meets fault input (Extras.returnStatement .keyword rules) (.at p d) made declined := by
  obtain ⟨-, hwords⟩ := hplain
  simp only [Extras.returnStatement, Attempt.meets_bind, Attempt.meets_liftM, meets_current]
  refine .ite (fun _ => h) fun hbegins => ?_
  have hreturn : (input.tokenAt p).isKeyword "return" = true := by simpa using hbegins
  obtain ⟨hkind, htext⟩ := Token.isKeyword_iff.mp hreturn
  exact absurd (htext ▸ List.mem_cons_self) (hwords hkind)

/-- What is said of a token that no routine takes. -/
def Input.unexpected (input : Input) (t : Token) : Diagnostic :=
  Diagnostic.errorAt input.source "E201"
    s!"Unexpected token at {t.offset}: {t.kind.name} \"{t.text}\"" t.offset t.text.length ""

/-- Without plugins a token that begins no rule of the grammar is reported. -/
theorem extensionExpression_none {t : Token} (h : declined (.at p (d.push (input.unexpected t)))) :
    Attempt.Meets fault input (extensionExpression .none rules t) (.at p d) made declined := by
  simpa [extensionExpression, Hooks.none, firstExtension, Input.unexpected] using h

/-- With the bundled plugin it is reported too, where no routine of the plugin begins. -/
theorem extensionExpression_extras {t : Token} (hplain : (input.tokenAt p).Plain)
    (h : declined (.at p (d.push (input.unexpected t)))) :
    Attempt.Meets fault input
      (extensionExpression (Extras.plugin.applyToHooks Extras.aliases .none) rules t) (.at p d)
      made declined := by
  have hdeclines : Attempt.Meets fault input (firstExtension rules p
      [Extras.keywordLiteral .keyword Extras.nullKind, Extras.returnStatement .keyword]) (.at p d)
      (fun _ _ => False) fun s => s = .at p d := by
    simp only [firstExtension, Attempt.meets_bind, Attempt.meets_orNone]
    refine keywordLiteral_declines hplain ?_
    rw [Attempt.meets_liftM, meets_setCursor]
    refine returnStatement_declines hplain ?_
    rw [Attempt.meets_liftM, meets_setCursor]
    rfl
  simp only [extensionExpression, Extras.extensions_eq, Attempt.meets_bind, Attempt.meets_liftM,
    meets_cursor, Attempt.meets_orNone]
  refine hdeclines.mono (fun _ _ hmade => hmade.elim) ?_
  rintro _ rfl
  simpa [Input.unexpected] using h

/-- Where no routine of the bundled plugin begins at any token, what it adds to a parser adds
nothing. -/
theorem Hooks.couple_extras {tokens : List Token} {source : SourceText}
    (hplain : ∀ p, ((Input.ofTokens tokens source).tokenAt p).Plain) :
    Hooks.none.Couple (.same tokens source) (Extras.plugin.applyToHooks Extras.aliases .none) := by
  intro rules rules' _ t u hmatch
  obtain rfl : t = u := hmatch.eq fun _ _ _ => rfl
  refine ⟨fun hapart => ?_, fun {p d e} _ hd => ?_⟩
  · rcases hapart with hlost | hdead
    · exact hlost.elim
    · exact absurd trivial hdead
  · obtain rfl : e = d := hd
    refine Attempt.meets_run.mpr (extensionExpression_none ⟨p, _, rfl, .inr ⟨trivial, ?_⟩⟩)
    exact Attempt.meets_run.mpr (extensionExpression_extras (hplain p) ⟨.none, _, rfl, rfl⟩)

end Declining

/-! ## Whole texts -/

/-- Where the tokens of a text are neither names `null` nor such reserved words, no routine of the
bundled plugin begins at any of them, nor at the end. -/
theorem Frontend.plain_of_lex {source : SourceText} {tokens : List Token}
    (hlex : Frontend.empty.lex source = .ok tokens)
    (hwords : ∀ token ∈ tokens, ¬(token.kind = Kind.keyword ∧ token.text ∈ Extras.words))
    (p : Nat) :
    ((Input.ofTokens tokens source).tokenAt p).Plain := by
  rcases Nat.lt_or_ge p tokens.length with hp | hp
  · rw [Input.tokenAt_ofTokens_of_lt hp]
    have hmem : tokens[p] ∈ tokens := List.getElem_mem hp
    refine ⟨?_, fun hkind htext => hwords _ hmem ⟨hkind, htext⟩⟩
    obtain ⟨lexemes, stop, hsegments, rfl⟩ := Frontend.segments_of_lex hlex
    obtain ⟨lexeme, hlexeme, htoken⟩ := List.mem_filterMap.mp hmem
    obtain ⟨⟨earlier, later, hrules, -⟩, -⟩ := hsegments.of_mem lexeme hlexeme
    have hbuiltin : lexeme.rule ∈ TokenRule.builtin := by simp [hrules]
    have hkinds : ∀ rule ∈ TokenRule.builtin, rule.kind ≠ Extras.nullKind := by decide
    rw [Lexeme.kind_of_token? htoken]
    exact hkinds _ hbuiltin
  · rw [Input.tokenAt_of_size_le (by rw [Input.size_ofTokens]; exact hp), Token.Plain,
      Input.endMarker_kind]
    exact ⟨by decide, fun hkeyword => absurd hkeyword (by decide)⟩

/-- Where the bundled plugin leaves all tokens as they are and none of its routines begins at any of
them, a text is parsed as without it. -/
theorem Frontend.parse_extras {source : SourceText} {tokens : List Token} {aliases : Aliases}
    (hplain : Frontend.empty.tokens source = .ok (tokens, aliases))
    (hmarked : tokens.map (Token.markNull source) = tokens)
    (hquiet : ∀ p, ((Input.ofTokens tokens source).tokenAt p).Plain) :
    (Frontend.mk [Extras.plugin]).parse source = Frontend.empty.parse source := by
  have htokens : (Frontend.mk [Extras.plugin]).tokens source = .ok (tokens, Extras.aliases) := by
    rw [Frontend.tokens_extras, hplain, Except.map, hmarked]
  let c := Coupling.same tokens source
  have hfirst : (Frontend.empty.parser tokens source aliases).input = c.first := rfl
  have hsecond : ((Frontend.mk [Extras.plugin]).parser tokens source Extras.aliases).input =
      c.second := rfl
  have hstart : c.Reported #[] #[] := rfl
  obtain ⟨tree, reported, hrun⟩ :=
    (Frontend.empty.parser tokens source aliases).program_ends Hooks.progress_none
  obtain ⟨q, d, hafter, ⟨⟨⟩⟩ | ⟨tree', e, hrun', htree, hreports⟩⟩ :=
    Parser.run_program_couples hfirst hsecond (Hooks.couple_extras hquiet) (Nat.zero_le _) hstart
      hrun
  rw [hafter] at hrun
  have hsame : tree.mapOffset id = tree'.mapOffset id := htree
  rw [Program.mapOffset_id, Program.mapOffset_id] at hsame
  obtain rfl : e = d := hreports
  rw [Frontend.parse_of_run hplain hrun, Frontend.parse_of_run htokens hrun', hsame]

/-- **The bundled plugin is conservative.** A text is cut with it into the same tokens as without
it, or fails at the same character, except that the name `null`, where no word goes on behind it,
becomes a kind of its own. Where a text has no such name and none of the reserved words at which a
routine of the plugin begins, it is parsed to the same tree and the same diagnostics, with errors or
without. -/
theorem extras_conservative (source : SourceText) :
    (Frontend.mk [Extras.plugin]).lex source =
        (Frontend.empty.lex source).map (List.map (Token.markNull source)) ∧
      ((∀ tokens, Frontend.empty.lex source = .ok tokens → ∀ token ∈ tokens,
          token.isNullWord source = false ∧ ¬(token.kind = Kind.keyword ∧
            token.text ∈ ["return", "true", "false", "this", "base"])) →
        (Frontend.mk [Extras.plugin]).parse source = Frontend.empty.parse source) := by
  have htokens := Frontend.tokens_extras source
  cases hplain : Frontend.empty.tokens source with
  | error error =>
      rw [hplain] at htokens
      refine ⟨?_, fun _ => ?_⟩
      · rw [Frontend.lex, Frontend.lex, htokens, hplain]
        rfl
      · rw [Frontend.parse, Frontend.parse, htokens, hplain]
        rfl
  | ok found =>
      obtain ⟨tokens, aliases⟩ := found
      rw [hplain] at htokens
      have hlex : Frontend.empty.lex source = .ok tokens := by rw [Frontend.lex, hplain]; rfl
      refine ⟨by rw [hlex, Frontend.lex, htokens]; rfl, fun hwords => ?_⟩
      have hsame : ∀ token ∈ tokens, Token.markNull source token = token := fun token hmem => by
        rw [Token.markNull, (hwords tokens hlex token hmem).1]
        rfl
      have hmarked := (List.map_congr_left hsame).trans (List.map_id' tokens)
      have hquiet := Frontend.plain_of_lex hlex fun token hmem => (hwords tokens hlex token hmem).2
      exact Frontend.parse_extras hplain hmarked hquiet

/-- A broken call of a name that only begins with the word `null`, and a brace that nothing opened.
-/
theorem extras_conservative_broken_call : ∃ result,
    (Frontend.mk [Extras.plugin]).parse (.ofText "nullable(a]; \x7d" "main.cs") = .ok result ∧
      Frontend.empty.parse (.ofText "nullable(a]; \x7d" "main.cs") = .ok result ∧
      result.diagnostics.map Diagnostic.offset = [10, 11, 13] := by
  have hlex : Frontend.empty.lex (.ofText "nullable(a]; \x7d" "main.cs") = .ok
      [⟨.identifier, "nullable", 0⟩, ⟨.symbol, "(", 8⟩, ⟨.identifier, "a", 9⟩,
        ⟨.symbol, "]", 10⟩, ⟨.symbol, ";", 11⟩, ⟨.symbol, closeBrace, 13⟩] := by decide +kernel
  have hoffsets : (Frontend.empty.parse (.ofText "nullable(a]; \x7d" "main.cs")).toOption.map
      (fun result => result.diagnostics.map Diagnostic.offset) = some [10, 11, 13] := by
    decide +kernel
  have hsame := (extras_conservative (.ofText "nullable(a]; \x7d" "main.cs")).2
    fun tokens htokens => by
      cases hlex.symm.trans htokens
      decide +kernel
  cases hparse : Frontend.empty.parse (.ofText "nullable(a]; \x7d" "main.cs") with
  | error error => rw [hparse] at hoffsets; cases hoffsets
  | ok result =>
      rw [hparse] at hoffsets
      exact ⟨result, hsame.trans hparse, rfl, Option.some.inj hoffsets⟩

end SharpSyntax
