import Mathlib.Data.List.Nodup
import SharpSyntax.Proofs.TokenSpelling
import SharpSyntax.Token.Lexer

/-!
# Written tokens are read back

A text that is written from tokens is cut into just these tokens. Two things make it so.

* The text of a token, with nothing or a blank behind it, is the lexeme of the rule of its kind: no
  earlier rule has a lexeme there, and the rule itself takes the whole text and nothing more.
* Trivia is dropped. A blank in front of a text changes nothing, since the rule of blanks takes it
  either by itself or together with those behind it, so that the induction can follow the trivia
  character by character and need not know where a lexeme ends.

Which rules have a lexeme is told by the first character. Blanks, word characters and digits are
classes of characters of all scripts; that no character is in two of them that matter is checked on
their ranges.
-/

namespace SharpSyntax

/-! ## Classes of characters -/

namespace Text

variable {c : Char}

/-- Whether two classes have no character in common. -/
def CharClass.disjoint (first second : CharClass) : Bool :=
  first.all fun r => second.all fun s => r.2.blt s.1 || s.2.blt r.1

theorem CharClass.contains_iff {ranges : CharClass} :
    ranges.contains c = true ↔ ∃ r ∈ ranges, r.1 ≤ c.toNat ∧ c.toNat ≤ r.2 := by
  simp [CharClass.contains]

theorem CharClass.contains_eq_false {first second : CharClass}
    (h : first.disjoint second = true) (hc : first.contains c = true) :
    second.contains c = false := by
  rw [Bool.eq_false_iff]
  intro hc'
  obtain ⟨r, hr, hrc⟩ := CharClass.contains_iff.mp hc
  obtain ⟨s, hs, hsc⟩ := CharClass.contains_iff.mp hc'
  have hapart := List.all_eq_true.mp (List.all_eq_true.mp h r hr) s hs
  simp only [Bool.or_eq_true, Nat.blt_eq] at hapart
  omega

/-- What holds of every ASCII character can be checked one by one. -/
theorem forall_ascii {P : Char → Prop} (h : ∀ n, n < 0x80 → P (Char.ofNat n)) (c : Char)
    (hc : c.toNat < 0x80) : P c := by
  have := h c.toNat hc
  rwa [Char.ofNat_toNat] at this

/-- The word characters of all scripts. -/
def wordClass : CharClass := (0x5F, 0x5F) :: alphanumericClass

/-- The characters that may begin a name. -/
def nameStartClass : CharClass := [(0x41, 0x5A), (0x5F, 0x5F), (0x61, 0x7A)]

/-- The characters of words are those of the class of the table. -/
theorem contains_of_isWordChar (h : isWordChar c = true) : wordClass.contains c = true := by
  rcases Nat.lt_or_ge c.toNat 0x80 with hc | hc
  · exact forall_ascii (P := fun c => isWordChar c = true → wordClass.contains c = true)
      (by decide +kernel) c hc h
  · simp only [isWordChar, isAlphanumeric, Nat.not_lt.mpr hc, if_false, Bool.or_eq_true,
      decide_eq_true_eq] at h
    rcases h with rfl | h
    · decide
    · rw [wordClass, CharClass.contains, List.any_cons, Bool.or_eq_true]
      exact .inr h

theorem contains_of_isDigit (h : isDigit c = true) : digitClass.contains c = true := by
  rcases Nat.lt_or_ge c.toNat 0x80 with hc | hc
  · exact forall_ascii (P := fun c => isDigit c = true → digitClass.contains c = true)
      (by decide +kernel) c hc h
  · simpa only [isDigit, Nat.not_lt.mpr hc, if_false] using h

theorem toNat_lt_of_continuesName (h : Scan.continuesName c = true) : c.toNat < 0x80 := by
  have hcases : Scan.continuesName c =
      (((decide (65 ≤ c.val ∧ c.val ≤ 90) || (97 ≤ c.val && c.val ≤ 122)) ||
        (48 ≤ c.val && c.val ≤ 57)) || c = '_') := rfl
  simp only [hcases, Bool.or_eq_true, Bool.and_eq_true, decide_eq_true_eq,
    UInt32.le_iff_toNat_le] at h
  change (((65 ≤ c.toNat ∧ c.toNat ≤ 90) ∨ (97 ≤ c.toNat ∧ c.toNat ≤ 122)) ∨
    (48 ≤ c.toNat ∧ c.toNat ≤ 57)) ∨ c = '_' at h
  rcases h with ((h | h) | h) | rfl
  · omega
  · omega
  · omega
  · decide

theorem isWordChar_of_continuesName (h : Scan.continuesName c = true) : isWordChar c = true :=
  forall_ascii (P := fun c => Scan.continuesName c = true → isWordChar c = true)
    (by decide +kernel) c (toNat_lt_of_continuesName h) h

/-- What may begin a name may go on with it. -/
theorem continuesName_of_startsName (h : Scan.startsName c = true) :
    Scan.continuesName c = true := by
  simp only [Scan.startsName, Scan.continuesName, Char.isAlphanum, Bool.or_eq_true] at h ⊢
  exact h.imp_left .inl

theorem contains_of_startsName (h : Scan.startsName c = true) :
    nameStartClass.contains c = true :=
  forall_ascii (P := fun c => Scan.startsName c = true → nameStartClass.contains c = true)
    (by decide +kernel) c (toNat_lt_of_continuesName (continuesName_of_startsName h)) h

/-! ### A blank is no word character, a digit begins no name -/

/-- No character passes two tests that go by classes without a common character. -/
theorem eq_false_of_disjoint (first second : CharClass) {test other : Char → Bool}
    (h : first.disjoint second = true) (htest : test c = true → first.contains c = true)
    (hother : other c = true → second.contains c = true) (hc : test c = true) :
    other c = false := by
  rw [Bool.eq_false_iff]
  intro hc'
  have hnot := CharClass.contains_eq_false h (htest hc)
  rw [hother hc'] at hnot
  cases hnot

theorem isWordChar_of_isBlank (h : isBlank c = true) : isWordChar c = false :=
  eq_false_of_disjoint blankClass wordClass (by decide +kernel) id contains_of_isWordChar h

theorem isDigit_of_isBlank (h : isBlank c = true) : isDigit c = false :=
  eq_false_of_disjoint blankClass digitClass (by decide +kernel) id contains_of_isDigit h

theorem startsName_of_isDigit (h : isDigit c = true) : Scan.startsName c = false :=
  eq_false_of_disjoint digitClass nameStartClass (by decide +kernel) contains_of_isDigit
    contains_of_startsName h

/-- No character of a word is blank. -/
theorem isBlank_of_isWordChar (h : isWordChar c = true) : isBlank c = false :=
  Bool.eq_false_iff.mpr fun hblank => by simp [isWordChar_of_isBlank hblank] at h

theorem isBlank_of_isDigit (h : isDigit c = true) : isBlank c = false :=
  Bool.eq_false_iff.mpr fun hblank => by simp [isDigit_of_isBlank hblank] at h

theorem continuesName_of_isBlank (h : isBlank c = true) : Scan.continuesName c = false :=
  Bool.eq_false_iff.mpr fun hname => by
    simp [isBlank_of_isWordChar (isWordChar_of_continuesName hname)] at h

end Text

/-! ## What a token ends before -/

/-- Nothing is behind a token, or a blank is. -/
def EndsToken (rest : List Char) : Prop := ∀ c, rest.head? = some c → Text.isBlank c = true

theorem endsToken_nil : EndsToken [] := by intro c h; cases h

/-- A gap ends the token in front of it. -/
theorem Separates.endsToken {gap : List Char} (h : Separates gap) (rest : List Char) :
    EndsToken (gap ++ rest) := by
  obtain ⟨_, first, more, rfl, hblank⟩ := h
  intro c hc
  rw [List.cons_append, List.head?_cons] at hc
  cases hc
  exact hblank

/-- A run of characters that pass a test ends where the text goes on with one that fails it. -/
theorem takeWhile_append_of_head {test : Char → Bool} {body rest : List Char}
    (hbody : ∀ c ∈ body, test c = true) (hrest : ∀ c, rest.head? = some c → test c = false) :
    (body ++ rest).takeWhile test = body := by
  rw [List.takeWhile_append_of_pos hbody]
  cases rest with
  | nil => simp
  | cons c more => simp [hrest c rfl]

/-- A text that fails a test at every blank ends a run of characters that pass it. -/
theorem takeWhile_of_endsToken {test : Char → Bool} {body rest : List Char}
    (hbody : ∀ c ∈ body, test c = true) (hrest : EndsToken rest)
    (hblank : ∀ c, Text.isBlank c = true → test c = false) :
    (body ++ rest).takeWhile test = body :=
  takeWhile_append_of_head hbody fun c hc => hblank c (hrest c hc)

/-! ## The lexeme of a spelling -/

theorem IsName.isWordChar {text : List Char} (h : IsName text) :
    ∀ c ∈ text, Text.isWordChar c = true := by
  obtain ⟨first, more, rfl, hfirst, hmore⟩ := h
  intro c hmem
  rcases List.mem_cons.mp hmem with rfl | hmem
  · exact Text.isWordChar_of_continuesName (Text.continuesName_of_startsName hfirst)
  · exact Text.isWordChar_of_continuesName (hmore c hmem)

/-- A name has its first character. -/
theorem IsName.ne_nil {text : List Char} (h : IsName text) : text ≠ [] := by
  obtain ⟨first, more, rfl, _⟩ := h
  exact List.cons_ne_nil _ _

namespace Scan

variable {c : Char} {rest : List Char}

/-- A run that has no first character is none. -/
theorem nonemptyRun_eq_none {test : Char → Bool} (h : test c = false) :
    nonemptyRun test (c :: rest) = none := by
  simp [nonemptyRun, run, h]

theorem lineComment_eq_none (h : c ≠ '/') : lineComment (c :: rest) = none := by
  unfold lineComment
  split
  · next heq => cases heq; exact absurd rfl h
  · rfl

/-- A block comment begins with a slash. -/
theorem blockComment_eq_none (h : c ≠ '/') : blockComment (c :: rest) = none := by
  unfold blockComment
  split
  · next heq => cases heq; exact absurd rfl h
  · rfl

theorem template_eq_none (h : c ≠ '$') : template (c :: rest) = none := by
  unfold template
  split
  · next heq => cases heq; exact absurd rfl h
  · rfl

theorem string_eq_none (h : c ≠ '"') : string (c :: rest) = none := by
  unfold string
  split
  · next heq => cases heq; exact absurd rfl h
  · rfl

theorem character_eq_none (h : c ≠ '\'') : character (c :: rest) = none := by
  unfold character
  split
  · next heq => cases heq; exact absurd rfl h
  · next heq => cases heq; exact absurd rfl h
  · rfl

/-- A word that is not in the table is no keyword. -/
theorem keyword_eq_none {text : List Char} (h : String.ofList (word text) ∉ keywords) :
    keyword text = none := by
  simp [keyword, h]

theorem identifier_eq_none (h : startsName c = false) : identifier (c :: rest) = none := by
  simp [identifier, h]

theorem number_eq_none (h : Text.isDigit c = false) : number (c :: rest) = none := by
  simp [number, run, h]

/-! ### Words and numbers -/

/-- The word at the head of a text ends where no character of words follows. -/
theorem word_append {text : List Char} (h : ∀ c ∈ text, Text.isWordChar c = true)
    (hrest : EndsToken rest) : word (text ++ rest) = text :=
  takeWhile_of_endsToken h hrest fun _ => Text.isWordChar_of_isBlank

theorem isName_of_mem_keywords {text : List Char} (h : String.ofList text ∈ keywords) :
    IsName text := by
  have hall : ∀ name ∈ keywords, (name.toList.head?.any startsName &&
      name.toList.all continuesName) = true := by
    decide +kernel
  have htext := hall _ h
  rw [String.toList_ofList, Bool.and_eq_true, List.all_eq_true] at htext
  cases text with
  | nil => exact absurd htext.1 (by decide)
  | cons first more =>
      exact ⟨first, more, rfl, htext.1, fun c hmem => htext.2 c (List.mem_cons_of_mem _ hmem)⟩

/-- A keyword is read whole where its word ends. -/
theorem keyword_append {text : List Char} (h : String.ofList text ∈ keywords)
    (hrest : EndsToken rest) : keyword (text ++ rest) = some text.length := by
  simp [keyword, word_append (isName_of_mem_keywords h).isWordChar hrest, h]

/-- A keyword begins like a name. -/
theorem keyword_eq_none_of_startsName (h : startsName c = false) :
    keyword (c :: rest) = none := by
  refine keyword_eq_none fun hmem => ?_
  obtain ⟨first, more, hword, hfirst, _⟩ := isName_of_mem_keywords hmem
  have hfront : word (c :: rest) <+: c :: rest := List.takeWhile_prefix _
  rw [hword, List.cons_prefix_cons] at hfront
  rw [hfront.1, h] at hfirst
  cases hfirst

/-- A name is read whole where its characters end. -/
theorem identifier_append {text : List Char} (h : IsName text) (hrest : EndsToken rest) :
    identifier (text ++ rest) = some text.length := by
  obtain ⟨first, more, rfl, hfirst, hmore⟩ := h
  have hrun : run continuesName (more ++ rest) = more.length := by
    rw [run, takeWhile_of_endsToken hmore hrest fun _ => Text.continuesName_of_isBlank]
  simp [identifier, hfirst, hrun, Nat.add_comm]

theorem run_isDigit_append {digits : List Char} (h : IsDigits digits)
    (hrest : ∀ c, rest.head? = some c → Text.isDigit c = false) :
    ∃ n, run Text.isDigit (digits ++ rest) = n + 1 ∧ digits.length = n + 1 := by
  have hrun : (digits ++ rest).takeWhile Text.isDigit = digits :=
    takeWhile_append_of_head h.2 hrest
  have hpos := List.length_pos_iff.mpr h.1
  exact ⟨digits.length - 1, by rw [run, hrun]; omega, by omega⟩

theorem EndsToken.isDigit_eq_false (h : EndsToken rest) :
    ∀ c, rest.head? = some c → Text.isDigit c = false :=
  fun c hc => Text.isDigit_of_isBlank (h c hc)

/-- Digits are read whole up to the end of their token. -/
theorem number_append_integer {digits : List Char} (h : IsDigits digits)
    (hrest : EndsToken rest) : number (digits ++ rest) = some digits.length := by
  obtain ⟨n, hrun, hlength⟩ := run_isDigit_append h (EndsToken.isDigit_eq_false hrest)
  have hdrop : (digits ++ rest).drop (n + 1) = rest := by rw [← hlength, List.drop_left]
  simp only [number, hrun, hdrop]
  split
  -- a point is no blank
  · next more => exact absurd (hrest '.' rfl) (by decide)
  · rw [hlength]

/-- Digits, a point and places are read as one number. -/
theorem number_append_decimal {digits places : List Char} (h : IsDigits digits)
    (h' : IsDigits places) (hrest : EndsToken rest) :
    number (digits ++ '.' :: places ++ rest) = some (digits ++ '.' :: places).length := by
  have hpoint : ∀ c, ('.' :: (places ++ rest)).head? = some c → Text.isDigit c = false := by
    intro c hc
    cases hc
    decide
  obtain ⟨n, hrun, hlength⟩ := run_isDigit_append h hpoint
  obtain ⟨m, hrun', hlength'⟩ := run_isDigit_append h' (EndsToken.isDigit_eq_false hrest)
  have hdrop : (digits ++ '.' :: (places ++ rest)).drop (n + 1) = '.' :: (places ++ rest) := by
    rw [← hlength, List.drop_left]
  rw [List.append_assoc, List.cons_append]
  simp only [number, hrun, hdrop, hrun']
  rw [List.length_append, List.length_cons, hlength, hlength']
  congr 1
  omega

/-! ### Texts between quotes -/

theorem toStringEnd_append {body : List Char} (h : Units (QuotedUnit '"') body) :
    toStringEnd (body ++ '"' :: rest) = some (body.length + 1) := by
  induction h with
  | nil => rfl
  | @cons first more hunit _ ih =>
      cases hunit with
      | @escape c hc => simp [toStringEnd, hc, ih]
      | @plain c hquote hback => simp [toStringEnd, hback, ih]

/-- A string is read up to its closing quote, whatever follows. -/
theorem string_append {body : List Char} (h : Units (QuotedUnit '"') body) :
    string ('"' :: body ++ ['"'] ++ rest) = some ('"' :: body ++ ['"']).length := by
  simp [string, toStringEnd_append h]

theorem character_append {body : List Char} (h : QuotedUnit '\'' body) :
    character ('\'' :: body ++ ['\''] ++ rest) = some ('\'' :: body ++ ['\'']).length := by
  cases h with
  | escape hc => simp [character, hc]
  | plain hquote hback => simp [character, hquote, hback]

/-- The parts that are found in the inside of a template are its units. -/
theorem templateParts_append {body : List Char} (h : Units TemplateUnit body)
    (rest : List Char) : ∃ parts, templateParts (body ++ '"' :: rest) = some parts ∧
      parts.flatMap TemplatePart.chars = body := by
  induction h with
  | nil => exact ⟨[], by rw [List.nil_append, templateParts], rfl⟩
  | @cons first more hunit _ ih =>
      obtain ⟨parts, hparts, hchars⟩ := ih
      cases hunit with
      | @escape c hc =>
          refine ⟨.escape c :: parts, ?_, by simp [TemplatePart.chars, hchars]⟩
          simp [templateParts, hc, hparts]
      | @plain c hquote hback hbrace =>
          refine ⟨.char c :: parts, ?_, by simp [TemplatePart.chars, hchars]⟩
          simp [templateParts, hback, hparts]
      | @hole inner hinner =>
          refine ⟨.hole inner :: parts, ?_, by simp [TemplatePart.chars, hchars]⟩
          -- the hole ends at the first closing brace, which is the one of the unit
          have hin : ∀ c ∈ inner, decide (c ≠ '}') = true := by
            intro c hmem
            rw [decide_eq_true_eq]
            rintro rfl
            exact hinner hmem
          have hdrop : (inner ++ '}' :: (more ++ '"' :: rest)).dropWhile (· ≠ '}')
              = '}' :: (more ++ '"' :: rest) := by
            rw [List.dropWhile_append_of_pos hin]
            simp
          have htake : (inner ++ '}' :: (more ++ '"' :: rest)).takeWhile (· ≠ '}') = inner := by
            rw [List.takeWhile_append_of_pos hin]
            simp
          have hshape : '{' :: inner ++ ['}'] ++ more ++ '"' :: rest
              = '{' :: (inner ++ '}' :: (more ++ '"' :: rest)) := by simp
          rw [hshape, templateParts]
          split
          · next heq =>
            rw [hdrop] at heq
            cases heq
            rw [hparts, htake]
          · next heq => rw [hdrop] at heq; cases heq

/-- A template is read up to its closing quote, whatever follows. -/
theorem template_append {body : List Char} (h : Units TemplateUnit body) :
    template ('$' :: '"' :: body ++ ['"'] ++ rest) =
      some ('$' :: '"' :: body ++ ['"']).length := by
  obtain ⟨parts, hparts, hchars⟩ := templateParts_append h rest
  have hshape : '$' :: '"' :: body ++ ['"'] ++ rest = '$' :: '"' :: (body ++ '"' :: rest) := by
    simp
  rw [hshape, template, hparts, Option.map_some, hchars]
  simp only [List.length_append, List.length_cons, List.length_nil, Option.some.injEq]
  omega

/-! ### Symbols -/

/-- An operator of two characters begins with one of one character, which is no slash. -/
theorem exists_of_mem_longSymbols {text : List Char} (h : text ∈ longSymbols) :
    ∃ c c', text = [c, c'] ∧ c ∈ shortSymbols ∧ c ≠ '/' := by
  have hall : (longSymbols.all fun text => text.length == 2 &&
      text.head?.all fun c => shortSymbols.contains c && c != '/') = true := by decide
  have htext := List.all_eq_true.mp hall text h
  rw [Bool.and_eq_true, beq_iff_eq] at htext
  obtain ⟨hlength, hfirst⟩ := htext
  rcases text with - | ⟨c, - | ⟨c', - | ⟨c'', more⟩⟩⟩
  · cases hlength
  · cases hlength
  · rw [List.head?_cons, Option.all_some, Bool.and_eq_true, List.contains_iff_mem,
      bne_iff_ne] at hfirst
    exact ⟨c, c', rfl, hfirst⟩
  · cases hlength

/-- A symbol of two characters is read whatever follows it. -/
theorem symbol_append_long {text : List Char} (h : text ∈ longSymbols) :
    symbol (text ++ rest) = some text.length := by
  have hlength : text.length = 2 := by
    obtain ⟨c, c', rfl, _⟩ := exists_of_mem_longSymbols h
    rfl
  have htake : (text ++ rest).take 2 = text := by rw [← hlength, List.take_left]
  simp [symbol, htake, h, hlength]

/-- A symbol of one character is read where its token ends. -/
theorem symbol_append_short (h : c ∈ shortSymbols) (hrest : EndsToken rest) :
    symbol ([c] ++ rest) = some 1 := by
  -- no blank is the second half of an operator
  have hshort : c :: rest.take 1 ∉ longSymbols := by
    have hall : (longSymbols.all fun text =>
        text.length == 2 && text.all fun b => !Text.isBlank b) = true := by decide
    intro hmem
    have htext := List.all_eq_true.mp hall _ hmem
    cases rest with
    | nil => cases htext
    | cons b more => simp [hrest b rfl] at htext
  simp [symbol, hshort, h]

/-! ### Comments -/

/-- A line comment is read up to the end of its line. -/
theorem lineComment_append {body : List Char} (h : '\n' ∉ body) :
    lineComment ('/' :: '/' :: body ++ '\n' :: rest) = some ('/' :: '/' :: body).length := by
  have hbody : ∀ c ∈ body, decide (c ≠ '\n') = true := by
    intro c hmem
    rw [decide_eq_true_eq]
    rintro rfl
    exact h hmem
  have hrun : run (· ≠ '\n') (body ++ '\n' :: rest) = body.length := by
    rw [run, List.takeWhile_append_of_pos hbody]
    simp
  rw [List.cons_append, List.cons_append, lineComment, hrun]
  simp only [List.length_cons, Option.some.injEq]
  omega

/-- What a token ends before makes no comment with its last character. -/
theorem lineComment_eq_none_of_endsToken (hrest : EndsToken rest) :
    lineComment (c :: rest) = none := by
  unfold lineComment
  split
  · next heq =>
    cases heq
    exact absurd (hrest '/' rfl) (by decide)
  · rfl

theorem blockComment_eq_none_of_endsToken (hrest : EndsToken rest) :
    blockComment (c :: rest) = none := by
  unfold blockComment
  split
  · next heq =>
    cases heq
    exact absurd (hrest '*' rfl) (by decide)
  · rfl

theorem toCommentEnd_append {body : List Char} (h : ¬ ['*', '/'] <:+: body ++ ['*']) :
    toCommentEnd (body ++ '*' :: '/' :: rest) = some (body.length + 2) := by
  induction body with
  | nil => rfl
  | cons c body ih =>
      have htail : ¬ ['*', '/'] <:+: body ++ ['*'] := fun hin => h (List.infix_cons hin)
      rw [List.cons_append]
      unfold toCommentEnd
      split
      · next heq =>
        -- the comment would end here, inside its body
        obtain ⟨rfl, hnext⟩ := List.cons.inj heq
        cases body with
        | nil => cases hnext
        | cons c' body =>
            rw [List.cons_append] at hnext
            obtain ⟨rfl, _⟩ := List.cons.inj hnext
            exact absurd ⟨[], body ++ ['*'], by simp⟩ h
      · next heq =>
        obtain ⟨_, rfl⟩ := List.cons.inj heq
        rw [ih htail]
        simp
      · next heq => cases heq

/-- A block comment is read up to its first closer. -/
theorem blockComment_append {body : List Char} (h : ¬ ['*', '/'] <:+: body ++ ['*']) :
    blockComment ('/' :: '*' :: body ++ '*' :: '/' :: rest) =
      some ('/' :: '*' :: body ++ ['*', '/']).length := by
  rw [List.cons_append, List.cons_append, blockComment, toCommentEnd_append h]
  simp

end Scan

/-! ## The first rule that has a lexeme -/

variable {rules : List TokenRule} {rule : TokenRule} {behind lexeme rest : List Char}
  {offset : Nat} {tokens : List Token}

/-- The rule at a place of the list has the lexeme where no earlier one has any. -/
theorem firstLexeme?_builtin (place : Fin TokenRule.builtin.length)
    (hearlier : ∀ rule ∈ TokenRule.builtin.take place,
      rule.scanner behind (lexeme ++ rest) = none)
    (hscan : TokenRule.builtin[place].scanner behind (lexeme ++ rest) = some lexeme.length)
    (hne : lexeme ≠ []) :
    firstLexeme? TokenRule.builtin behind (lexeme ++ rest) =
      some (TokenRule.builtin[place], lexeme) := by
  have hsplit : TokenRule.builtin = TokenRule.builtin.take place ++
      TokenRule.builtin[place] :: TokenRule.builtin.drop (place + 1) := by
    rw [Fin.getElem_fin, List.getElem_cons_drop, List.take_append_drop]
  refine List.findSome?_eq_some_iff.mpr ⟨_, _, _, hsplit, ?_, fun rule hmem => ?_⟩
  · rw [TokenRule.lexeme?, hscan]
    simp [hne]
  · rw [TokenRule.lexeme?, hearlier rule hmem]
    rfl

/-- A rule that takes the characters up to the first one that fails a test has these as its
lexeme. -/
theorem firstLexeme?_builtin_run {text : List Char} {test : Char → Bool}
    (place : Fin TokenRule.builtin.length)
    (hearlier : ∀ rule ∈ TokenRule.builtin.take place, rule.scanner behind text = none)
    (hscan : TokenRule.builtin[place].scanner behind text = some (text.takeWhile test).length)
    (hne : text.takeWhile test ≠ []) : firstLexeme? TokenRule.builtin behind text =
      some (TokenRule.builtin[place], text.takeWhile test) := by
  have hsplit : text.takeWhile test ++ text.dropWhile test = text :=
    List.takeWhile_append_dropWhile
  rw [← hsplit] at hearlier
  have hfound : firstLexeme? TokenRule.builtin behind
      (text.takeWhile test ++ text.dropWhile test) = _ :=
    firstLexeme?_builtin place hearlier (by rwa [hsplit]) hne
  rwa [hsplit] at hfound

/-- The built-in rules are told apart by their kinds. -/
theorem TokenRule.eq_builtin (place : Fin builtin.length) (h : rule ∈ builtin)
    (hkind : rule.kind = builtin[place].kind) : rule = builtin[place] := by
  have hnodup : (builtin.map TokenRule.kind).Nodup := by decide
  exact List.inj_on_of_nodup_map hnodup h (List.getElem_mem _) hkind

theorem none_take_succ {text : List Char} (place : Fin TokenRule.builtin.length)
    (hearlier : ∀ rule ∈ TokenRule.builtin.take place, rule.scanner behind text = none)
    (h : TokenRule.builtin[place].scanner behind text = none) :
    ∀ rule ∈ TokenRule.builtin.take (place + 1), rule.scanner behind text = none := by
  intro rule hmem
  rw [List.take_succ_eq_append_getElem place.isLt, List.mem_append, List.mem_singleton] at hmem
  rcases hmem with hmem | rfl
  · exact hearlier rule hmem
  · exact h

/-- A name is not blank and begins neither a comment nor a template. -/
theorem none_before_keyword {text : List Char} (h : IsName text) :
    ∀ rule ∈ TokenRule.builtin.take 4, rule.scanner behind (text ++ rest) = none := by
  have hword := h.isWordChar
  obtain ⟨first, more, rfl, hfirst, _⟩ := h
  have hblank := Text.isBlank_of_isWordChar (hword first (by simp))
  have hslash : first ≠ '/' := by
    rintro rfl
    exact absurd hfirst (by decide)
  have hdollar : first ≠ '$' := by
    rintro rfl
    exact absurd hfirst (by decide)
  simp [TokenRule.builtin, Scanner.anywhere, Scan.blanks, Scan.nonemptyRun_eq_none hblank,
    Scan.lineComment_eq_none hslash, Scan.blockComment_eq_none hslash,
    Scan.template_eq_none hdollar]

/-- No rule in front of that for identifiers takes a name that is no keyword. -/
theorem none_before_identifier {text : List Char} (h : IsName text)
    (hnot : String.ofList text ∉ keywords) (hrest : EndsToken rest) :
    ∀ rule ∈ TokenRule.builtin.take 5, rule.scanner behind (text ++ rest) = none := by
  refine none_take_succ ⟨4, by decide⟩ (none_before_keyword h) (Scan.keyword_eq_none ?_)
  rwa [Scan.word_append (h.isWordChar) hrest]

/-- A character that begins no blank, no comment, no template and no name. -/
structure BeginsNoWord (c : Char) (rest : List Char) : Prop where
  isBlank : Text.isBlank c = false
  startsName : Scan.startsName c = false
  ne_dollar : c ≠ '$'
  lineComment : Scan.lineComment (c :: rest) = none
  blockComment : Scan.blockComment (c :: rest) = none

namespace BeginsNoWord

variable {c : Char}

theorem of_isDigit (h : Text.isDigit c = true) : BeginsNoWord c rest := by
  have hslash : c ≠ '/' := by
    rintro rfl
    exact absurd h (by decide)
  refine ⟨Text.isBlank_of_isDigit h, Text.startsName_of_isDigit h, ?_,
    Scan.lineComment_eq_none hslash, Scan.blockComment_eq_none hslash⟩
  rintro rfl
  exact absurd h (by decide)

/-- No rule in front of that for numbers takes what begins no word. -/
theorem none_before_number (h : BeginsNoWord c rest) :
    ∀ rule ∈ TokenRule.builtin.take 6, rule.scanner behind (c :: rest) = none := by
  simp [TokenRule.builtin, Scanner.anywhere, Scan.blanks, Scan.nonemptyRun_eq_none h.isBlank,
    h.lineComment, h.blockComment, Scan.template_eq_none h.ne_dollar,
    Scan.keyword_eq_none_of_startsName h.startsName, Scan.identifier_eq_none h.startsName]

theorem none_before_string (h : BeginsNoWord c rest) (hdigit : Text.isDigit c = false) :
    ∀ rule ∈ TokenRule.builtin.take 7, rule.scanner behind (c :: rest) = none :=
  none_take_succ ⟨6, by decide⟩ h.none_before_number (Scan.number_eq_none hdigit)

theorem none_before_character (h : BeginsNoWord c rest) (hdigit : Text.isDigit c = false)
    (hquote : c ≠ '"') :
    ∀ rule ∈ TokenRule.builtin.take 8, rule.scanner behind (c :: rest) = none :=
  none_take_succ ⟨7, by decide⟩ (h.none_before_string hdigit) (Scan.string_eq_none hquote)

end BeginsNoWord

/-- No symbol is a blank, a quote or part of a word. -/
theorem none_before_symbol {c : Char} (h : c ∈ Scan.shortSymbols)
    (hline : Scan.lineComment (c :: rest) = none)
    (hblock : Scan.blockComment (c :: rest) = none) :
    ∀ rule ∈ TokenRule.builtin.take 9, rule.scanner behind (c :: rest) = none := by
  have hall : (Scan.shortSymbols.all fun c => !Text.isBlank c && !Scan.startsName c && c != '$' &&
      !Text.isDigit c && c != '"' && c != '\'') = true := by decide +kernel
  have hc := List.all_eq_true.mp hall c h
  simp only [Bool.and_eq_true, Bool.not_eq_true', bne_iff_ne] at hc
  obtain ⟨⟨⟨⟨⟨hblank, hname⟩, hdollar⟩, hdigit⟩, hquote⟩, hquote'⟩ := hc
  have hbegins : BeginsNoWord c rest := ⟨hblank, hname, hdollar, hline, hblock⟩
  exact none_take_succ ⟨8, by decide⟩ (hbegins.none_before_character hdigit hquote)
    (Scan.character_eq_none hquote')

/-- A spelling, with nothing or a blank behind it, is the lexeme of the rule of its kind. -/
theorem Spells.firstLexeme? {kind : Kind} {text : List Char} (h : Spells kind text)
    (hrest : EndsToken rest) (behind : List Char) :
    ∃ rule, SharpSyntax.firstLexeme? TokenRule.builtin behind (text ++ rest) = some (rule, text) ∧
      rule.kind = kind ∧ rule.discard = false := by
  cases h with
  | keyword hmem =>
      have hname := Scan.isName_of_mem_keywords hmem
      exact ⟨_, firstLexeme?_builtin ⟨4, by decide⟩ (none_before_keyword hname)
        (Scan.keyword_append hmem hrest) hname.ne_nil, rfl, rfl⟩
  | identifier hname hnot =>
      exact ⟨_, firstLexeme?_builtin ⟨5, by decide⟩ (none_before_identifier hname hnot hrest)
        (Scan.identifier_append hname hrest) hname.ne_nil, rfl, rfl⟩
  | integer hdigits =>
      refine ⟨_, firstLexeme?_builtin ⟨6, by decide⟩ ?_
        (Scan.number_append_integer hdigits hrest) hdigits.1, rfl, rfl⟩
      obtain ⟨c, more, rfl⟩ := List.exists_cons_of_ne_nil hdigits.1
      exact (BeginsNoWord.of_isDigit (hdigits.2 c (by simp))).none_before_number
  | decimal hdigits hplaces =>
      refine ⟨_, firstLexeme?_builtin ⟨6, by decide⟩ ?_
        (Scan.number_append_decimal hdigits hplaces hrest) (by simp), rfl, rfl⟩
      obtain ⟨c, more, rfl⟩ := List.exists_cons_of_ne_nil hdigits.1
      exact (BeginsNoWord.of_isDigit (hdigits.2 c (by simp))).none_before_number
  | string hbody =>
      have hquote : ∀ rest, BeginsNoWord '"' rest := fun rest =>
        ⟨by decide, by decide, by decide, rfl, rfl⟩
      exact ⟨_, firstLexeme?_builtin ⟨7, by decide⟩ ((hquote _).none_before_string (by decide))
        (Scan.string_append hbody) (by simp), rfl, rfl⟩
  | character hunit =>
      have hquote : ∀ rest, BeginsNoWord '\'' rest := fun rest =>
        ⟨by decide, by decide, by decide, rfl, rfl⟩
      exact ⟨_, firstLexeme?_builtin ⟨8, by decide⟩
        ((hquote _).none_before_character (by decide) (by decide))
        (Scan.character_append hunit) (by simp), rfl, rfl⟩
  | template hbody =>
      refine ⟨_, firstLexeme?_builtin ⟨3, by decide⟩ ?_ (Scan.template_append hbody) (by simp), rfl,
        rfl⟩
      have hblank : Text.isBlank '$' = false := by decide
      simp [TokenRule.builtin, Scanner.anywhere, Scan.blanks, Scan.nonemptyRun_eq_none hblank,
        Scan.lineComment_eq_none, Scan.blockComment_eq_none]
  | longSymbol hmem =>
      obtain ⟨c, c', rfl, hc, hslash⟩ := Scan.exists_of_mem_longSymbols hmem
      exact ⟨_, firstLexeme?_builtin ⟨9, by decide⟩
        (none_before_symbol hc (Scan.lineComment_eq_none hslash) (Scan.blockComment_eq_none hslash))
        (Scan.symbol_append_long hmem) (by simp), rfl, rfl⟩
  | shortSymbol hmem =>
      exact ⟨_, firstLexeme?_builtin ⟨9, by decide⟩
        (none_before_symbol hmem (Scan.lineComment_eq_none_of_endsToken hrest)
          (Scan.blockComment_eq_none_of_endsToken hrest))
        (Scan.symbol_append_short hmem hrest) (by simp), rfl, rfl⟩

/-! ## Cutting -/

/-- The first lexeme is cut, and the rest is cut as it would be alone. -/
theorem cut_append
    (h : firstLexeme? rules behind (lexeme ++ rest) = some (rule, lexeme)) :
    cut rules offset behind (lexeme ++ rest) =
      ({ rule := rule, text := lexeme, offset := offset } ::
          (cut rules (offset + lexeme.length) (lexeme.reverseAux behind) rest).1,
        (cut rules (offset + lexeme.length) (lexeme.reverseAux behind) rest).2) := by
  rw [cut_of_some h, List.drop_left]

/-- A run of blanks is one lexeme, up to the first character that is no blank. -/
theorem cut_blanks (offset : Nat) (behind : List Char) {run : List Char}
    (hrun : ∀ c ∈ run, Text.isBlank c = true) (hne : run ≠ [])
    (hrest : ∀ c, rest.head? = some c → Text.isBlank c = false) :
    cut TokenRule.builtin offset behind (run ++ rest) =
      ({ rule := ⟨.whitespace, Scanner.anywhere Scan.blanks, true⟩
         text := run
         offset := offset } ::
          (cut TokenRule.builtin (offset + run.length) (run.reverseAux behind) rest).1,
        (cut TokenRule.builtin (offset + run.length) (run.reverseAux behind) rest).2) := by
  refine cut_append (firstLexeme?_builtin ⟨0, by decide⟩ (by simp) ?_ hne)
  obtain ⟨c, more, rfl⟩ := List.exists_cons_of_ne_nil hne
  have htake : ((c :: more) ++ rest).takeWhile Text.isBlank = c :: more := by
    rw [List.takeWhile_append_of_pos hrun]
    cases rest with
    | nil => simp
    | cons d rest => simp [hrest d rfl]
  change Scan.nonemptyRun Text.isBlank ((c :: more) ++ rest) = _
  rw [Scan.nonemptyRun, Scan.run, htake]
  rfl

theorem firstLexeme?_lineComment {body : List Char} (h : '\n' ∉ body) :
    firstLexeme? TokenRule.builtin behind ('/' :: '/' :: body ++ '\n' :: rest) =
      some (⟨.lineComment, Scanner.anywhere Scan.lineComment, true⟩, '/' :: '/' :: body) := by
  have hslash : Text.isBlank '/' = false := by decide
  refine firstLexeme?_builtin ⟨1, by decide⟩ ?_ (Scan.lineComment_append h) (by simp)
  simp [TokenRule.builtin, Scanner.anywhere, Scan.blanks, Scan.nonemptyRun_eq_none hslash]

theorem firstLexeme?_blockComment {body : List Char} (h : ¬ ['*', '/'] <:+: body ++ ['*']) :
    firstLexeme? TokenRule.builtin behind (('/' :: '*' :: body ++ ['*', '/']) ++ rest) =
      some (⟨.blockComment, Scanner.anywhere Scan.blockComment, true⟩,
        '/' :: '*' :: body ++ ['*', '/']) := by
  have hslash : Text.isBlank '/' = false := by decide
  have hshape : ('/' :: '*' :: body ++ ['*', '/']) ++ rest =
      '/' :: '*' :: body ++ '*' :: '/' :: rest := by simp
  refine firstLexeme?_builtin ⟨2, by decide⟩ ?_ ?_ (by simp)
  · simp [TokenRule.builtin, Scanner.anywhere, Scan.blanks, Scan.nonemptyRun_eq_none hslash,
      Scan.lineComment]
  · rw [hshape]
    exact Scan.blockComment_append h

/-! ## Lexing -/

/-- Whatever stands in front, a text at an offset is cut to its end and gives the tokens. -/
def Lexes (offset : Nat) (text : List Char) (tokens : List Token) : Prop :=
  ∀ behind, (cut TokenRule.builtin offset behind text).1.filterMap Lexeme.token? = tokens ∧
    (cut TokenRule.builtin offset behind text).2 = []

namespace Lexes

theorem nil : Lexes offset [] [] := fun _ => by simp [cut_nil]

/-- A token that is written is read in front of those behind it. -/
theorem kept {kind : Kind} (hspells : Spells kind lexeme) (hends : EndsToken rest)
    (hrest : Lexes (offset + lexeme.length) rest tokens) :
    Lexes offset (lexeme ++ rest) (⟨kind, String.ofList lexeme, offset⟩ :: tokens) := by
  intro behind
  obtain ⟨rule, hfirst, hkind, hkeeps⟩ := hspells.firstLexeme? hends behind
  obtain ⟨htokens, hend⟩ := hrest (lexeme.reverseAux behind)
  have htoken : Lexeme.token? ⟨rule, lexeme, offset⟩ =
      some ⟨kind, String.ofList lexeme, offset⟩ := by
    simp [Lexeme.token?, hkeeps, hkind]
  rw [cut_append hfirst]
  exact ⟨by rw [List.filterMap_cons_some htoken, htokens], hend⟩

/-- A gap that is written leaves no token. -/
theorem dropped
    (hfirst : ∀ behind, firstLexeme? TokenRule.builtin behind (lexeme ++ rest) =
      some (rule, lexeme))
    (hdiscard : rule.discard = true) (hrest : Lexes (offset + lexeme.length) rest tokens) :
    Lexes offset (lexeme ++ rest) tokens := by
  intro behind
  obtain ⟨htokens, hend⟩ := hrest (lexeme.reverseAux behind)
  have htoken : Lexeme.token? ⟨rule, lexeme, offset⟩ = none := by simp [Lexeme.token?, hdiscard]
  rw [cut_append (hfirst behind)]
  exact ⟨by rw [List.filterMap_cons_none htoken, htokens], hend⟩

/-- A blank in front changes no token: those that follow it are one lexeme with it as they were one
without it. -/
theorem blank {c : Char} (hc : Text.isBlank c = true) (hrest : Lexes (offset + 1) rest tokens) :
    Lexes offset (c :: rest) tokens := by
  intro behind
  have hrun : ∀ d ∈ rest.takeWhile Text.isBlank, Text.isBlank d = true :=
    List.all_eq_true.mp List.all_takeWhile
  have hafter : ∀ d, (rest.dropWhile Text.isBlank).head? = some d → Text.isBlank d = false :=
    fun d hd => by simpa [hd] using List.head?_dropWhile_not Text.isBlank rest
  have hsplit : rest.takeWhile Text.isBlank ++ rest.dropWhile Text.isBlank = rest :=
    List.takeWhile_append_dropWhile
  generalize rest.takeWhile Text.isBlank = run, rest.dropWhile Text.isBlank = after at *
  subst hsplit
  obtain ⟨htokens, hend⟩ := hrest (c :: behind)
  have hhere := cut_blanks offset behind (List.forall_mem_cons.mpr ⟨hc, hrun⟩)
    (List.cons_ne_nil _ _) hafter
  have htoken : ∀ text, Lexeme.token?
      ⟨⟨.whitespace, Scanner.anywhere Scan.blanks, true⟩, text, offset⟩ = none := fun _ => rfl
  have htoken' : ∀ text, Lexeme.token?
      ⟨⟨.whitespace, Scanner.anywhere Scan.blanks, true⟩, text, offset + 1⟩ = none := fun _ => rfl
  rw [← List.cons_append, hhere, List.filterMap_cons_none (htoken _)]
  cases run with
  | nil => exact ⟨htokens, hend⟩
  | cons d run =>
      have hthere := cut_blanks (offset + 1) (c :: behind) hrun (List.cons_ne_nil _ _) hafter
      rw [hthere, List.filterMap_cons_none (htoken' _)] at htokens
      rw [hthere] at hend
      have hoffset : offset + (c :: d :: run).length = offset + 1 + (d :: run).length := by
        simp only [List.length_cons]
        omega
      rw [hoffset]
      exact ⟨htokens, hend⟩

/-- Trivia in front changes no token. -/
theorem trivia {gap : List Char} (hgap : Trivia gap) :
    ∀ {offset : Nat}, Lexes (offset + gap.length) rest tokens →
      Lexes offset (gap ++ rest) tokens := by
  induction hgap with
  | nil => exact fun hrest => hrest
  | blank hc _ ih =>
      intro offset hrest
      refine blank hc (ih ?_)
      rwa [List.length_cons, Nat.add_comm _ 1, ← Nat.add_assoc] at hrest
  | @lineComment body gap hbody _ ih =>
      intro offset hrest
      -- the line feed is no part of the comment but a blank behind it
      have hgap : Lexes (offset + ('/' :: '/' :: body).length + 1) (gap ++ rest) tokens := by
        refine ih ?_
        simpa [Nat.add_comm, Nat.add_left_comm, Nat.add_assoc] using hrest
      have hfeed : Lexes (offset + ('/' :: '/' :: body).length) ('\n' :: (gap ++ rest)) tokens :=
        blank (by decide) hgap
      simpa using dropped (fun _ => firstLexeme?_lineComment hbody) rfl hfeed
  | @blockComment body gap hbody _ ih =>
      intro offset hrest
      have hgap : Lexes (offset + ('/' :: '*' :: body ++ ['*', '/']).length) (gap ++ rest)
          tokens := by
        refine ih ?_
        simpa [Nat.add_comm, Nat.add_left_comm, Nat.add_assoc] using hrest
      simpa using dropped (fun _ => firstLexeme?_blockComment hbody) rfl hgap

/-- What is written token by token is read token by token. -/
theorem written {text : List Char} (h : Written offset tokens text) :
    Lexes offset text tokens := by
  induction h with
  | nothing => exact nil
  | last hspells => simpa using kept hspells endsToken_nil nil
  | @more offset kind text gap rest tokens hspells hgap _ ih =>
      rw [List.append_assoc]
      exact kept hspells (hgap.endsToken rest) (trivia hgap.1 ih)

end Lexes

/-- **What is written from tokens is read back.** A lexer with the built-in rules gives just the
tokens that a text is written from, each at the offset where it is written, whatever trivia stands
in front of them, between them and behind them. -/
theorem written_tokens_readBack {lead rest : List Char} {tokens : List Token} {source : SourceText}
    (hlead : Trivia lead) (hwritten : Written lead.length tokens rest)
    (hsource : source.text.toList = lead ++ rest) :
    (Lexer.new source).tokenize.1 = .ok tokens := by
  have hlexes : Lexes 0 (lead ++ rest) tokens :=
    Lexes.trivia hlead (by rw [Nat.zero_add]; exact Lexes.written hwritten)
  obtain ⟨htokens, hend⟩ := hlexes []
  rw [Lexer.tokenize]
  simp only [Lexer.new, hsource, List.take_zero, List.reverse_nil, List.drop_zero, hend,
    List.nil_append, htokens]

/-- A comment in front; a template with a quote in its hole; a slash that begins no comment, and
behind it one that does. -/
theorem written_tokens_readBack_template :
    (Lexer.new (.ofText "/* * */if $\"\x7b\"\x7d\" /\t//c\n1.5" "main.cs")).tokenize.1 =
      .ok [⟨.keyword, "if", 7⟩, ⟨.template, "$\"\x7b\"\x7d\"", 10⟩, ⟨.symbol, "/", 17⟩,
        ⟨.number, "1.5", 23⟩] := by
  have hstar : ¬ ['*', '/'] <:+: [' ', '*', ' '] ++ ['*'] := by decide
  have hlead : Trivia ['/', '*', ' ', '*', ' ', '*', '/'] := .blockComment hstar .nil
  have hspace : Separates [' '] := ⟨.blank (by decide) .nil, ' ', [], rfl, by decide⟩
  have hfeed : '\n' ∉ ['c'] := by decide
  have hcomment : Separates ['\t', '/', '/', 'c', '\n'] :=
    ⟨.blank (by decide) (.lineComment hfeed .nil), '\t', _, rfl, by decide⟩
  have hkeyword : Spells .keyword ['i', 'f'] := .keyword (by decide)
  have hhole : '}' ∉ ['"'] := by decide
  have htemplate : Spells .template ['$', '"', '{', '"', '}', '"'] :=
    .template (.cons (.hole hhole) .nil)
  have hslash : Spells .symbol ['/'] := .shortSymbol (by decide)
  have hone : IsDigits ['1'] := ⟨by decide, by simp; decide⟩
  have hfive : IsDigits ['5'] := ⟨by decide, by simp; decide⟩
  have hnumber : Spells .number ['1', '.', '5'] := .decimal hone hfive
  exact written_tokens_readBack hlead
    (.more hkeyword hspace (.more htemplate hspace (.more hslash hcomment (.last hnumber)))) rfl

end SharpSyntax
