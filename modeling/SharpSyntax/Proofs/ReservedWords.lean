import SharpSyntax.Proofs.Resumption
import SharpSyntax.Proofs.SourceOrder

/-!
# Reserved words and names

Two rules take words, and they do not agree on what a word is. The rule for reserved words asks for
a whole word of any script; the rule for names takes ASCII characters only. So a reserved word is a
token of its own kind where no word character follows it. Where one does:

* an ASCII character makes it the beginning of a longer name;
* any other character is left out of the name, so that the reserved word is told as a **name**.

In the second case something has to take the character that was left out. No rule but the one for
numbers can begin with it, and that one begins with a decimal digit. The digits of other scripts are
thus all that can stand behind a reserved word that is taken for a name.
-/

namespace SharpSyntax

/-! ## Word characters beyond ASCII -/

namespace Text

variable {c : Char}

/-- Whether every range of a class lies in a range of another. -/
def CharClass.within (first second : CharClass) : Bool :=
  first.all fun r => second.any fun s => s.1.ble r.1 && r.2.ble s.2

theorem CharClass.contains_of_within {first second : CharClass}
    (h : first.within second = true) (hc : first.contains c = true) :
    second.contains c = true := by
  obtain ⟨r, hr, hrc⟩ := CharClass.contains_iff.mp hc
  obtain ⟨s, hs, hsr⟩ := List.any_eq_true.mp (List.all_eq_true.mp h r hr)
  rw [Bool.and_eq_true, Nat.ble_eq, Nat.ble_eq] at hsr
  exact CharClass.contains_iff.mpr ⟨s, hs, by omega, by omega⟩

/-- Digits of all scripts are word characters. -/
theorem isWordChar_of_isDigit (h : isDigit c = true) : isWordChar c = true := by
  rcases Nat.lt_or_ge c.toNat 0x80 with hc | hc
  · exact forall_ascii (P := fun c => isDigit c = true → isWordChar c = true)
      (by decide +kernel) c hc h
  · have hwithin : digitClass.within alphanumericClass = true := by decide +kernel
    have hdigit : digitClass.contains c = true := contains_of_isDigit h
    rw [isWordChar, isAlphanumeric, if_neg (Nat.not_lt.mpr hc),
      CharClass.contains_of_within hwithin hdigit, Bool.or_true]

/-- A word character that goes on no name is no ASCII character. -/
theorem le_toNat_of_isWordChar (h : isWordChar c = true) (hname : Scan.continuesName c = false) :
    0x80 ≤ c.toNat := by
  rcases Nat.lt_or_ge c.toNat 0x80 with hc | hc
  · have hascii : isWordChar c = true → Scan.continuesName c = true :=
      forall_ascii (P := fun c => isWordChar c = true → Scan.continuesName c = true)
        (by decide +kernel) c hc
    rw [hascii h] at hname
    cases hname
  · exact hc

theorem ne_of_le_toNat (h : 0x80 ≤ c.toNat) (d : Char) (hd : d.toNat < 0x80) : c ≠ d := by
  rintro rfl
  omega

end Text

/-! ## Words that begin a text -/

variable {behind rest : List Char} {c : Char}

/-- The rule for reserved words. -/
def TokenRule.keywordRule : TokenRule := { kind := .keyword, scanner := Scan.keyword }

/-- The rule for names. -/
def TokenRule.nameRule : TokenRule := { kind := .identifier, scanner := Scan.identifier }

/-- What a name takes of a text that a letter or an underscore begins. -/
theorem isName_takeWhile (h : Scan.startsName c = true) :
    IsName ((c :: rest).takeWhile Scan.continuesName) := by
  rw [List.takeWhile_cons_of_pos (Text.continuesName_of_startsName h)]
  exact ⟨c, _, rfl, h, List.all_eq_true.mp List.all_takeWhile⟩

/-- Where a letter or an underscore begins the text, a reserved word is taken if it is a whole word,
and otherwise a name as long as it goes on in ASCII. -/
theorem firstLexeme?_startsName (h : Scan.startsName c = true) :
    firstLexeme? TokenRule.builtin behind (c :: rest) =
      if String.ofList (Scan.word (c :: rest)) ∈ keywords then
        some (TokenRule.keywordRule, Scan.word (c :: rest))
      else some (TokenRule.nameRule, (c :: rest).takeWhile Scan.continuesName) := by
  have hfirst : IsName [c] := ⟨c, [], rfl, h, nofun⟩
  have hearlier : ∀ rule ∈ TokenRule.builtin.take 4, rule.scanner behind (c :: rest) = none :=
    none_before_keyword hfirst
  split
  · next hmem =>
    exact firstLexeme?_builtin_run ⟨4, by decide⟩ hearlier
      (if_pos (List.contains_iff_mem.mpr hmem)) (Scan.isName_of_mem_keywords hmem).ne_nil
  · next hnot =>
    have hscan : Scan.identifier (c :: rest) =
        some ((c :: rest).takeWhile Scan.continuesName).length := by
      rw [Scan.identifier, if_pos h, Scan.run,
        List.takeWhile_cons_of_pos (Text.continuesName_of_startsName h), List.length_cons,
        Nat.add_comm]
    exact firstLexeme?_builtin_run ⟨5, by decide⟩
      (none_take_succ ⟨4, by decide⟩ hearlier (Scan.keyword_eq_none hnot)) hscan
      (isName_takeWhile h).ne_nil

/-! ## What may begin with a word character beyond ASCII -/

theorem Scan.symbol_eq_none (h : c ∉ shortSymbols) : symbol (c :: rest) = none := by
  have hlong : (c :: rest).take 2 ∉ longSymbols := by
    intro hmem
    obtain ⟨first, second, htake, hfirst, -⟩ := exists_of_mem_longSymbols hmem
    rw [List.take_succ_cons] at htake
    exact h ((List.cons.inj htake).1 ▸ hfirst)
  rw [symbol, if_neg (mt List.contains_iff_mem.mp hlong)]
  exact if_neg (mt List.contains_iff_mem.mp h)

/-- No built-in rule begins with a character beyond ASCII that is neither a blank nor a digit. -/
theorem firstLexeme?_eq_none_of_le_toNat (hc : 0x80 ≤ c.toNat) (hblank : Text.isBlank c = false)
    (hdigit : Text.isDigit c = false) :
    firstLexeme? TokenRule.builtin behind (c :: rest) = none := by
  have hslash := Text.ne_of_le_toNat hc '/' (by decide)
  have hname : Scan.startsName c = false := by
    rw [Bool.eq_false_iff]
    intro hstarts
    have hlt := Text.toNat_lt_of_continuesName (Text.continuesName_of_startsName hstarts)
    omega
  have hbegins : BeginsNoWord c rest := ⟨hblank, hname, Text.ne_of_le_toNat hc '$' (by decide),
    Scan.lineComment_eq_none hslash, Scan.blockComment_eq_none hslash⟩
  have hshort : c ∉ Scan.shortSymbols := by
    have hascii : (Scan.shortSymbols.all fun d => d.toNat.blt 0x80) = true := by decide
    intro hmem
    have hlt := List.all_eq_true.mp hascii c hmem
    rw [Nat.blt_eq] at hlt
    omega
  have hearlier : ∀ rule ∈ TokenRule.builtin.take 8, rule.scanner behind (c :: rest) = none :=
    hbegins.none_before_character hdigit (Text.ne_of_le_toNat hc '"' (by decide))
  have hearlier' := none_take_succ ⟨8, by decide⟩ hearlier
    (Scan.character_eq_none (Text.ne_of_le_toNat hc '\'' (by decide)))
  have hall := none_take_succ ⟨9, by decide⟩ hearlier' (Scan.symbol_eq_none hshort)
  refine List.findSome?_eq_none_iff.mpr fun rule hmem => ?_
  rw [TokenRule.lexeme?, hall rule hmem]
  rfl

/-! ## Tokens -/

section Tokens

variable {text : List Char} {lexeme : Lexeme}

/-- A lexeme that is a name, reserved or not, is a whole reserved word, or it is a name with no
reserved word at its place. -/
theorem Lexeme.IsFirst.word_cases (h : lexeme.IsFirst TokenRule.builtin text)
    (hname : IsName lexeme.text) :
    lexeme.rule.kind = Kind.keyword ∧ lexeme.text = Scan.word (text.drop lexeme.offset) ∧
        String.ofList lexeme.text ∈ keywords ∨
      lexeme.rule.kind = Kind.identifier ∧
        lexeme.text = (text.drop lexeme.offset).takeWhile Scan.continuesName ∧
        String.ofList (Scan.word (text.drop lexeme.offset)) ∉ keywords := by
  obtain ⟨first, more, htext, hfirst, -⟩ := hname
  have hahead := h.drop_eq
  rw [htext, List.cons_append] at hahead
  have hfound := h.firstLexeme?
  rw [hahead, firstLexeme?_startsName hfirst, ← hahead] at hfound
  split at hfound
  · next hmem =>
    obtain ⟨hrule, hword⟩ := Prod.mk.inj (Option.some.inj hfound)
    exact .inl ⟨by rw [← hrule]; rfl, hword.symm, by rwa [← hword]⟩
  · next hnot =>
    obtain ⟨hrule, hword⟩ := Prod.mk.inj (Option.some.inj hfound)
    exact .inr ⟨by rw [← hrule]; rfl, hword.symm, hnot⟩

/-- A run of characters that pass a test has none of them behind it. -/
theorem test_eq_false_of_takeWhile {test : Char → Bool} {ahead run rest : List Char} {c : Char}
    (hrun : run = ahead.takeWhile test) (hahead : ahead = run ++ c :: rest) : test c = false := by
  have hbehind : ahead.dropWhile test = c :: rest := by
    have hsplit := List.takeWhile_append_dropWhile (p := test) (l := ahead)
    rw [← hrun] at hsplit
    exact List.append_cancel_left (hsplit.trans hahead)
  have hstops := List.head?_dropWhile_not test ahead
  rwa [hbehind] at hstops

/-- Behind a reserved word that is taken for a name goes on a word, but not in ASCII. -/
theorem Lexeme.IsFirst.behind_name (h : lexeme.IsFirst TokenRule.builtin text)
    (hkind : lexeme.rule.kind = Kind.identifier) (hmem : String.ofList lexeme.text ∈ keywords) :
    ∃ c rest, text.drop lexeme.stop = c :: rest ∧ Text.isWordChar c = true ∧ 0x80 ≤ c.toNat := by
  have hname := Scan.isName_of_mem_keywords hmem
  have hahead := h.drop_eq
  rcases h.word_cases hname with ⟨hkeyword, -⟩ | ⟨-, htaken, hnot⟩
  · rw [hkind] at hkeyword
    exact absurd hkeyword (by decide)
  have hlonger : Scan.word (text.drop lexeme.offset) ≠ lexeme.text := fun heq =>
    hnot (heq ▸ hmem)
  rw [hahead, Scan.word, List.takeWhile_append_of_pos hname.isWordChar] at hlonger
  cases hrest : text.drop lexeme.stop with
  | nil => rw [hrest, List.takeWhile_nil, List.append_nil] at hlonger; exact absurd rfl hlonger
  | cons c rest =>
      have hword : Text.isWordChar c = true := by
        cases hc : Text.isWordChar c with
        | true => rfl
        | false =>
            rw [hrest, List.takeWhile_cons_of_neg (by rw [hc]; exact Bool.false_ne_true),
              List.append_nil] at hlonger
            exact absurd rfl hlonger
      rw [hrest] at hahead
      exact ⟨c, rest, rfl, hword,
        Text.le_toNat_of_isWordChar hword (test_eq_false_of_takeWhile htaken hahead)⟩

/-- Behind a reserved word of its own kind no word goes on. -/
theorem Lexeme.IsFirst.behind_keyword (h : lexeme.IsFirst TokenRule.builtin text)
    (hkind : lexeme.rule.kind = Kind.keyword) {c : Char} {rest : List Char}
    (hrest : text.drop lexeme.stop = c :: rest) :
    Text.isWordChar c = false := by
  rcases h.word_cases (h.isName (.inr hkind)) with ⟨-, hword, -⟩ | ⟨hidentifier, -⟩
  · have hahead := h.drop_eq
    rw [hrest] at hahead
    exact test_eq_false_of_takeWhile hword hahead
  · rw [hkind] at hidentifier
    exact absurd hidentifier (by decide)

/-- What a lexeme begins with beyond ASCII is a digit, if it is part of a word. -/
theorem Lexeme.IsFirst.isDigit (h : lexeme.IsFirst TokenRule.builtin text) {c : Char}
    {rest : List Char} (hrest : text.drop lexeme.offset = c :: rest)
    (hword : Text.isWordChar c = true) (hc : 0x80 ≤ c.toNat) : Text.isDigit c = true := by
  cases hdigit : Text.isDigit c with
  | true => rfl
  | false =>
      have hfound := h.firstLexeme?
      rw [hrest, firstLexeme?_eq_none_of_le_toNat hc (Text.isBlank_of_isWordChar hword)
        hdigit] at hfound
      cases hfound

end Tokens

/-- **A reserved word is taken for a name only in front of a digit of another script.** In a text
that lexes, a token of the kind of reserved words is one. A token that is spelled like a reserved
word is of that kind or a name, and it is a name just where a decimal digit beyond ASCII follows
it. -/
theorem reserved_words_told {source : SourceText} {tokens : List Token}
    (hlex : (Lexer.new source).tokenize.1 = .ok tokens) : ∀ token ∈ tokens,
    (token.kind = Kind.keyword → token.text ∈ keywords) ∧
      (token.text ∈ keywords →
        (token.kind = Kind.keyword ∨ token.kind = Kind.identifier) ∧
        (token.kind = Kind.identifier ↔ ∃ c, source.text.toList[token.stop]? = some c ∧
          0x80 ≤ c.toNat ∧ Text.isDigit c = true)) := by
  obtain ⟨lexemes, stop, hsegments, -, -, hend⟩ :=
    Lexer.tokenize_fresh source TokenRule.builtin .builtin
  change (Lexer.fresh source TokenRule.builtin .builtin).tokenize.1 = .ok tokens at hlex
  rcases hend with ⟨hstop, hok⟩ | ⟨c, -, herror⟩
  case inr => rw [herror] at hlex; cases hlex
  rw [hok] at hlex
  cases hlex
  intro token hmem
  obtain ⟨lexeme, hlexeme, htoken⟩ := List.mem_filterMap.mp hmem
  obtain ⟨hletters, -, hbehind⟩ := Lexeme.token?_eq_some htoken
  have htext : token.text = String.ofList lexeme.text := by
    rw [← hletters, String.ofList_toList]
  have hfirst := (hsegments.of_mem lexeme hlexeme).1
  rw [Lexeme.kind_of_token? htoken, htext, hbehind]
  refine ⟨fun hkind => ?_, fun hreserved => ⟨?_, fun hkind => ?_, ?_⟩⟩
  · rcases hfirst.word_cases (hfirst.isName (.inr hkind)) with ⟨-, -, hreserved⟩ | ⟨hother, -⟩
    · exact hreserved
    · rw [hkind] at hother
      exact absurd hother (by decide)
  · exact (hfirst.word_cases (Scan.isName_of_mem_keywords hreserved)).imp And.left And.left
  · obtain ⟨c, rest, hrest, hword, hc⟩ := hfirst.behind_name hkind hreserved
    -- the text does not end there, and so a lexeme begins there
    rcases hsegments.next hlexeme with hlast | ⟨next, hnext, hoffset⟩
    · rw [hlast, hstop, List.drop_length] at hrest
      cases hrest
    · refine ⟨c, by rw [← List.head?_drop, hrest, List.head?_cons], hc, ?_⟩
      exact (hsegments.of_mem next hnext).1.isDigit (hoffset ▸ hrest) hword hc
  · rintro ⟨c, hnext, -, hdigit⟩
    rw [← List.head?_drop] at hnext
    obtain ⟨rest, hrest⟩ := List.head?_eq_some_iff.mp hnext
    rcases hfirst.word_cases (Scan.isName_of_mem_keywords hreserved) with
      ⟨hkeyword, -⟩ | ⟨hidentifier, -⟩
    · have hends := hfirst.behind_keyword hkeyword hrest
      rw [Text.isWordChar_of_isDigit hdigit] at hends
      cases hends
    · exact hidentifier

/-- A reserved word with an Arabic digit behind it, and the same word by itself. -/
theorem reserved_words_told_digit :
    (Lexer.new (.ofText "class\u0663 class" "main.cs")).tokenize.1 =
        .ok [⟨.identifier, "class", 0⟩, ⟨.number, "\u0663", 5⟩, ⟨.keyword, "class", 7⟩] ∧
      ((⟨.identifier, "class", 0⟩ : Token).kind = Kind.identifier ↔
        ∃ c, "class\u0663 class".toList[5]? = some c ∧ 0x80 ≤ c.toNat ∧ Text.isDigit c = true) := by
  have hlex : (Lexer.new (.ofText "class\u0663 class" "main.cs")).tokenize.1 =
      .ok [⟨.identifier, "class", 0⟩, ⟨.number, "\u0663", 5⟩, ⟨.keyword, "class", 7⟩] := by
    decide +kernel
  have hreserved : "class" ∈ keywords := by decide
  exact ⟨hlex, ((reserved_words_told hlex ⟨.identifier, "class", 0⟩ (by simp)).2 hreserved).2⟩

/-- It is not so that no name is a reserved word. -/
theorem reserved_word_taken_for_name : ¬ ∀ (source : SourceText) (tokens : List Token),
    (Lexer.new source).tokenize.1 = .ok tokens → ∀ token ∈ tokens,
      (token.kind = Kind.identifier → token.text ∉ keywords) ∧
        (token.kind = Kind.keyword → token.text ∈ keywords) := by
  intro hclaim
  have hlex : (Lexer.new (.ofText "class\u0663" "main.cs")).tokenize.1 =
      .ok [⟨.identifier, "class", 0⟩, ⟨.number, "\u0663", 5⟩] := by decide +kernel
  have hnot := (hclaim _ _ hlex ⟨.identifier, "class", 0⟩ (by simp)).1 rfl
  exact hnot (by decide)

end SharpSyntax
