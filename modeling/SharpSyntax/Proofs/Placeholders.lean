import SharpSyntax.Proofs.Layout

/-!
# Placeholders are filled at once

The placeholders of a message are filled in three rounds, one for each of them, and every round
reads the whole text again. So a round could take a text that an earlier one has put in for a
placeholder, or could make a placeholder of a piece of it and the characters around it.

For a token of a built-in kind this never happens. A placeholder is a percent sign and some letters,
and a text is `Placeholder.Inert` to a later round if it has no percent sign and begins with no
letter of that round: then no placeholder begins in it, and none that begins in front of it reaches
into it.

* An offset is written in digits, which are no letters of a placeholder.
* The names of the built-in kinds have no percent sign, and none of them begins with a letter of
  `VAL`.
* The text of the token, which may be anything, is put in last.

The message is therefore what one reading of the template makes: the template alone tells where its
placeholders are, and each of them gives way to what the token has for it.
-/

namespace SharpSyntax

/-! ## Templates and their parts -/

/-- What a message template leaves open. -/
inductive Placeholder where
  | offset
  | kind
  | text
deriving DecidableEq, Repr

namespace Placeholder

variable {hole : Placeholder} {ahead : List Char}

/-- The letters of a placeholder, which stand behind its percent sign. -/
def letters : Placeholder → List Char
  | offset => ['P', 'O', 'S']
  | kind => ['T', 'Y', 'P', 'E']
  | text => ['V', 'A', 'L']

/-- How a placeholder is written. -/
def spelling (hole : Placeholder) : List Char := '%' :: hole.letters

theorem spelling_append (hole : Placeholder) (rest : List Char) :
    hole.spelling ++ rest = '%' :: (hole.letters ++ rest) := rfl

theorem spelling_ne_nil (hole : Placeholder) : hole.spelling ≠ [] := List.cons_ne_nil _ _

/-- What a token has for a placeholder. -/
def value (token : Token) : Placeholder → List Char
  | offset => (toString token.offset).toList
  | kind => token.kind.name.toList
  | text => (if token.text.isEmpty then "NULL" else token.text).toList

/-- The placeholder that a text begins with. -/
def leading? (ahead : List Char) : Option Placeholder :=
  [offset, kind, text].find? fun hole => hole.spelling.isPrefixOf ahead

theorem leading?_eq_some_iff : leading? ahead = some hole ↔ hole.spelling <+: ahead := by
  constructor
  · intro h
    rw [leading?] at h
    exact List.isPrefixOf_iff_prefix.mp (by simpa using List.find?_some h)
  · rintro ⟨rest, rfl⟩
    cases hole <;> simp [leading?, spelling, letters]

theorem leading?_eq_none_iff :
    leading? ahead = none ↔ ∀ hole : Placeholder, ¬ hole.spelling <+: ahead := by
  simp only [Option.eq_none_iff_forall_ne_some, ne_eq, leading?_eq_some_iff]

/-- At most one placeholder stands in a place. -/
theorem eq_of_isPrefix {other : Placeholder} (h : hole.spelling <+: ahead)
    (hother : other.spelling <+: ahead) : hole = other :=
  Option.some.inj ((leading?_eq_some_iff.mpr h).symm.trans (leading?_eq_some_iff.mpr hother))

theorem percent_not_mem_letters (hole : Placeholder) : '%' ∉ hole.letters := by
  cases hole <;> decide

end Placeholder

/-- A part of a message template: a character that stays, or a placeholder. -/
inductive MessagePart where
  | char (c : Char)
  | placeholder (hole : Placeholder)
deriving DecidableEq, Repr

/-- The parts of a message template, read once from left to right. -/
def messageParts : List Char → List MessagePart
  | [] => []
  | c :: rest =>
    match Placeholder.leading? (c :: rest) with
    | some hole => .placeholder hole :: messageParts (rest.drop hole.letters.length)
    | none => .char c :: messageParts rest
termination_by template => template.length
decreasing_by
  · simp only [List.length_drop, List.length_cons]; omega
  · simp

/-- The text of some parts, with a text in the place of each placeholder. -/
def filled (value : Placeholder → List Char) (parts : List MessagePart) : List Char :=
  parts.flatMap fun
    | .char c => [c]
    | .placeholder hole => value hole

/-- A message template with all its placeholders filled from a token in one reading. -/
def fillAtOnce (template : String) (token : Token) : String :=
  String.ofList (filled (Placeholder.value token) (messageParts template.toList))

variable {value : Placeholder → List Char} {hole : Placeholder} {rest : List Char}

section

variable {parts : List MessagePart}

@[simp] theorem filled_nil : filled value [] = [] := rfl

@[simp] theorem filled_char {c : Char} :
    filled value (.char c :: parts) = c :: filled value parts := rfl

@[simp] theorem filled_placeholder :
    filled value (.placeholder hole :: parts) = value hole ++ filled value parts := rfl

@[simp] theorem filled_append {more : List MessagePart} :
    filled value (parts ++ more) = filled value parts ++ filled value more := List.flatMap_append

end

@[simp] theorem messageParts_nil : messageParts [] = [] := by
  rw [messageParts]

@[simp] theorem messageParts_spelling_append :
    messageParts (hole.spelling ++ rest) = .placeholder hole :: messageParts rest := by
  have hleading := Placeholder.leading?_eq_some_iff.mpr (List.prefix_append hole.spelling rest)
  rw [hole.spelling_append] at hleading ⊢
  rw [messageParts, hleading]
  simp only [List.drop_left]

theorem messageParts_cons {c : Char} (h : ∀ hole : Placeholder, ¬ hole.spelling <+: c :: rest) :
    messageParts (c :: rest) = .char c :: messageParts rest := by
  rw [messageParts, Placeholder.leading?_eq_none_iff.mpr h]

/-- A template is empty, or a placeholder stands at its head, or a character at which none does. -/
@[elab_as_elim] theorem template_induction {motive : List Char → Prop} (nil : motive [])
    (placeholder : ∀ (hole : Placeholder) rest, motive rest → motive (hole.spelling ++ rest))
    (char : ∀ c rest, (∀ hole : Placeholder, ¬ hole.spelling <+: c :: rest) → motive rest →
      motive (c :: rest))
    (template : List Char) : motive template := by
  fun_induction messageParts template with
  | case1 => exact nil
  | case2 c rest hole hleading ih =>
      obtain ⟨behind, hbehind⟩ := Placeholder.leading?_eq_some_iff.mp hleading
      obtain ⟨-, rfl⟩ := List.cons_eq_cons.mp hbehind
      rw [List.append_eq, List.drop_left] at ih
      exact hbehind ▸ placeholder hole behind ih
  | case3 c rest hleading ih => exact char c rest (Placeholder.leading?_eq_none_iff.mp hleading) ih

/-- The parts of a template are all of it. -/
theorem filled_spelling (template : List Char) :
    filled Placeholder.spelling (messageParts template) = template := by
  induction template using template_induction with
  | nil => simp
  | placeholder hole rest ih => rw [messageParts_spelling_append, filled_placeholder, ih]
  | char c rest hnone ih => rw [messageParts_cons hnone, filled_char, ih]

/-- A word does not reach over a character that it does not have. -/
theorem prefix_of_not_mem {first : Char} {word before after : List Char} (h : first ∉ word)
    (hfront : word <+: before ++ first :: after) : word <+: before := by
  obtain hshort | ⟨tail, rfl⟩ :=
    List.prefix_or_prefix_of_prefix hfront (List.prefix_append before (first :: after))
  · exact hshort
  · cases tail with
    | nil => exact (List.append_nil before).symm ▸ List.prefix_refl before
    | cons c tail =>
        have hhead := (List.cons_prefix_cons.mp ((List.prefix_append_right_inj before).mp hfront)).1
        exact absurd (by simp [hhead]) h

/-- Wherever a placeholder is written, it is a part of the template: none that begins in front of it
reaches into it, since percent signs are no letters. -/
theorem messageParts_append_spelling (before after : List Char) :
    messageParts (before ++ (hole.spelling ++ after)) =
      messageParts before ++ .placeholder hole :: messageParts after := by
  induction before using template_induction with
  | nil => simp
  | placeholder other rest ih =>
      rw [List.append_assoc, messageParts_spelling_append, ih, messageParts_spelling_append,
        List.cons_append]
  | char c rest hnone ih =>
      have hnone' (other : Placeholder) :
          ¬ other.spelling <+: c :: (rest ++ (hole.spelling ++ after)) := by
        intro hfront
        obtain ⟨hc, hletters⟩ := List.cons_prefix_cons.mp hfront
        have hrest := prefix_of_not_mem other.percent_not_mem_letters hletters
        exact hnone other (List.cons_prefix_cons.mpr ⟨hc, hrest⟩)
      rw [List.cons_append, messageParts_cons hnone', ih, messageParts_cons hnone, List.cons_append]

/-! ## One round -/

namespace Placeholder

variable {token : Token} {done : List Placeholder}

/-- The round of a placeholder. -/
def round (token : Token) (hole : Placeholder) (text : List Char) : List Char :=
  Text.substitute hole.spelling (hole.value token) text

/-- What stands in the place of a placeholder after the rounds of some. -/
def shown (token : Token) (done : List Placeholder) (hole : Placeholder) : List Char :=
  if hole ∈ done then hole.value token else hole.spelling

theorem shown_of_mem (h : hole ∈ done) : hole.shown token done = hole.value token := if_pos h

theorem shown_of_not_mem (h : hole ∉ done) : hole.shown token done = hole.spelling := if_neg h

theorem shown_cons_of_ne {other : Placeholder} (hne : other ≠ hole) :
    other.shown token (hole :: done) = other.shown token done := by
  simp [shown, hne]

/-- A text in which no placeholder `hole` begins, and into which none reaches from in front of
it. -/
structure Inert (hole : Placeholder) (text : List Char) : Prop where
  /-- It keeps apart what stands in front of it and behind it. -/
  ne_nil : text ≠ []
  /-- No placeholder begins in it. -/
  percent : '%' ∉ text
  /-- It goes on with no placeholder that begins in front of it. -/
  begins : ∀ first ∈ text.head?, first ∉ hole.letters

/-- The round of `hole` is still to come, and what the rounds before it have put in is inert to
it. -/
structure Spares (hole : Placeholder) (token : Token) (done : List Placeholder) : Prop where
  not_mem : hole ∉ done
  inert : ∀ other ∈ done, hole.Inert (other.value token)

namespace Spares

/-- What stands in the place of a placeholder does not begin with a letter of `hole`. -/
theorem exists_cons (h : hole.Spares token done) (other : Placeholder) :
    ∃ first more, other.shown token done = first :: more ∧ first ∉ hole.letters := by
  by_cases hdone : other ∈ done
  · have hinert := h.inert other hdone
    obtain ⟨first, more, hvalue⟩ := List.exists_cons_of_ne_nil hinert.ne_nil
    exact ⟨first, more, by rw [shown_of_mem hdone, hvalue],
      hinert.begins first (by rw [hvalue]; rfl)⟩
  · exact ⟨'%', other.letters, shown_of_not_mem hdone, hole.percent_not_mem_letters⟩

/-- Letters of `hole` at the head of a text that is filled in part are letters of its template. -/
theorem prefix_filled (h : hole.Spares token done) {word : List Char} (hword : word ⊆ hole.letters)
    {parts : List MessagePart} (hfront : word <+: filled (shown token done) parts) :
    word <+: filled spelling parts := by
  induction parts generalizing word with
  | nil => exact hfront
  | cons part parts ih =>
      cases part with
      | char c =>
          cases word with
          | nil => exact List.nil_prefix
          | cons first word =>
              obtain ⟨rfl, htail⟩ := List.cons_prefix_cons.mp hfront
              exact List.cons_prefix_cons.mpr ⟨rfl, ih (List.subset_of_cons_subset hword) htail⟩
      | placeholder other =>
          -- a placeholder, filled or not, ends the letters
          obtain ⟨first, more, hshown, hfirst⟩ := h.exists_cons other
          rw [filled_placeholder, hshown, List.cons_append] at hfront
          have hnil : word <+: [] := prefix_of_not_mem (fun hmem => hfirst (hword hmem)) hfront
          exact (List.prefix_nil.mp hnil) ▸ List.nil_prefix

/-- The round of a placeholder leaves alone what stands in the place of another. -/
theorem round_other (h : hole.Spares token done) {other : Placeholder} (hne : other ≠ hole) :
    hole.round token (other.shown token done ++ rest) =
      other.shown token done ++ hole.round token rest := by
  by_cases hdone : other ∈ done
  · rw [shown_of_mem hdone]
    exact Text.substitute_append_of_not_mem (h.inert other hdone).percent
  · -- the other placeholder is still there, and its percent sign is not that of `hole`
    have hnot : ¬ hole.spelling <+: '%' :: (other.letters ++ rest) := fun hfront =>
      hne (eq_of_isPrefix (List.prefix_append other.spelling rest) hfront)
    have hletters : hole.round token (other.letters ++ rest) =
        other.letters ++ hole.round token rest :=
      Text.substitute_append_of_not_mem other.percent_not_mem_letters
    rw [shown_of_not_mem hdone, other.spelling_append, round,
      Text.substitute_cons_of_not_isPrefix hnot, ← round, hletters, other.spelling_append]

/-- The round of a placeholder fills it wherever the template has it, and does nothing else. -/
theorem round_filled (h : hole.Spares token done) (template : List Char) :
    hole.round token (filled (shown token done) (messageParts template)) =
      filled (shown token (hole :: done)) (messageParts template) := by
  induction template using template_induction with
  | nil => simp [round]
  | placeholder other rest ih =>
      rw [messageParts_spelling_append, filled_placeholder, filled_placeholder, ← ih]
      by_cases hne : other = hole
      · rw [hne, shown_of_not_mem h.not_mem, shown_of_mem List.mem_cons_self]
        exact Text.substitute_needle_append hole.spelling_ne_nil
      · rw [h.round_other hne, shown_cons_of_ne hne]
  | char c rest hnone ih =>
      -- the letters behind `c` would be those of the template, where `hole` does not stand
      have hnot : ¬ hole.spelling <+: c :: filled (shown token done) (messageParts rest) := by
        intro hfront
        obtain ⟨hc, hletters⟩ := List.cons_prefix_cons.mp hfront
        have hrest := h.prefix_filled (List.Subset.refl _) hletters
        rw [filled_spelling] at hrest
        exact hnone hole (List.cons_prefix_cons.mpr ⟨hc, hrest⟩)
      rw [messageParts_cons hnone, filled_char, filled_char, ← ih]
      exact Text.substitute_cons_of_not_isPrefix hnot

end Spares

end Placeholder

/-! ## Three rounds -/

/-- The kinds of the built-in rules and of the end marker. -/
def Kind.builtin : List Kind := [
  .whitespace, .lineComment, .blockComment, .template, .keyword, .identifier, .number, .string,
  .character, .symbol, .endOfInput]

section

variable {token : Token}

namespace Placeholder

/-- Digits are no letters of a placeholder. -/
theorem inert_offset (hole : Placeholder) : hole.Inert (offset.value token) := by
  have hvalue : offset.value token = Nat.toDigits 10 token.offset := by
    rw [value, Nat.toString_eq_repr, Nat.toList_repr]
  have hdigit (c : Char) (hmem : c ∈ Nat.toDigits 10 token.offset) : c.isDigit = true :=
    Nat.isDigit_of_mem_toDigits (by decide) (by decide) hmem
  have hletter : ∀ c ∈ hole.letters, c.isDigit = false := by cases hole <;> simp [letters]
  rw [hvalue]
  refine ⟨Nat.toDigits_ne_nil, fun hmem => absurd (hdigit _ hmem) (by decide),
    fun first hfirst hmem => ?_⟩
  have hone := hdigit first (List.mem_of_mem_head? hfirst)
  rw [hletter first hmem] at hone
  cases hone

/-- The names of the built-in kinds begin with none of the letters of the last round. -/
theorem inert_kind (h : token.kind ∈ Kind.builtin) : text.Inert (kind.value token) := by
  have hnames : ∀ kind ∈ Kind.builtin, kind.name.toList ≠ [] ∧ '%' ∉ kind.name.toList ∧
      kind.name.toList.head?.all (· ∉ text.letters) = true := by decide
  obtain ⟨hne, hpercent, hbegins⟩ := hnames token.kind h
  rw [Option.all_eq_true] at hbegins
  exact ⟨hne, hpercent, fun first hfirst => of_decide_eq_true (hbegins first hfirst)⟩

end Placeholder

/-- Each round leaves alone what those before it have put in, so that three rounds do what one
reading does. -/
theorem fillTemplate_eq_fillAtOnce (hkind : token.kind ∈ Kind.builtin) (template : String) :
    fillTemplate template token = fillAtOnce template token := by
  have hoffset : Placeholder.offset.Spares token [] := ⟨by decide, by simp⟩
  have hname : Placeholder.kind.Spares token [.offset] :=
    ⟨by decide, by simpa using Placeholder.kind.inert_offset⟩
  have htext : Placeholder.text.Spares token [.kind, .offset] :=
    ⟨by decide, by simpa using ⟨Placeholder.inert_kind hkind, Placeholder.text.inert_offset⟩⟩
  have hnone : Placeholder.shown token [] = Placeholder.spelling :=
    funext fun _ => Placeholder.shown_of_not_mem List.not_mem_nil
  have hall : Placeholder.shown token [.text, .kind, .offset] = Placeholder.value token :=
    funext fun hole => Placeholder.shown_of_mem (by cases hole <;> decide)
  calc fillTemplate template token
      = String.ofList (Placeholder.text.round token (Placeholder.kind.round token
          (Placeholder.offset.round token template.toList))) := rfl
    _ = String.ofList (Placeholder.text.round token (Placeholder.kind.round token
          (Placeholder.offset.round token
            (filled (Placeholder.shown token []) (messageParts template.toList))))) := by
        rw [hnone, filled_spelling]
    _ = fillAtOnce template token := by
        rw [hoffset.round_filled, hname.round_filled, htext.round_filled, hall, fillAtOnce]

/-- The name of an extension's kind may complete a placeholder, which is then filled as well. -/
example : fillTemplate "%%TYPE" ⟨⟨"VAL"⟩, "x", 0⟩ = "x" ∧
    fillAtOnce "%%TYPE" ⟨⟨"VAL"⟩, "x", 0⟩ = "%VAL" := by
  decide +kernel

/-- What is put in keeps apart what stands in front of it and what stands behind it. -/
theorem fillAtOnce_append_spelling (before after : String) :
    fillAtOnce (before ++ String.ofList hole.spelling ++ after) token =
      fillAtOnce before token ++ String.ofList (hole.value token) ++ fillAtOnce after token := by
  simp only [fillAtOnce, String.append_assoc, String.toList_append, String.toList_ofList,
    messageParts_append_spelling, filled_append, filled_placeholder, String.ofList_append]

end

/-! ## Messages -/

/-- A message is its template with all placeholders filled at once. Where a placeholder is written,
the message has what the token has for it, between the messages of what stands in front of it and
behind it, so that nothing is read in the text that is put in or across its borders. -/
theorem placeholders_filled_at_once {found : Expectation}
    (hkind : found.token.kind ∈ Kind.builtin) :
    (∀ template, found.format template = fillAtOnce template found.token) ∧
      ∀ (before after : String) (hole : Placeholder),
        found.format (before ++ String.ofList hole.spelling ++ after) =
          found.format before ++ String.ofList (hole.value found.token) ++ found.format after := by
  have hformat (template : String) : found.format template = fillAtOnce template found.token :=
    fillTemplate_eq_fillAtOnce hkind template
  refine ⟨hformat, fun before after hole => ?_⟩
  rw [hformat, hformat, hformat, fillAtOnce_append_spelling]

/-- A string that spells placeholders, put into templates where the characters around the
placeholders are the beginnings and ends of others. -/
theorem placeholders_filled_at_once_string :
    Kind.string ∈ Kind.builtin ∧
      (⟨false, ⟨.string, "\"%POS%VAL\"", 7⟩, some .symbol, some ";"⟩ : Expectation).format
          "%%TYPE at %P%POS: %VAL%VA" =
        "%STRING at %P7: \"%POS%VAL\"%VA" ∧
      (⟨false, ⟨.string, "\"%POS%VAL\"", 7⟩, some .symbol, some ";"⟩ : Expectation).format
          ("%T" ++ String.ofList Placeholder.text.spelling ++ "YPE") =
        "%T\"%POS%VAL\"YPE" := by
  have hkind : Kind.string ∈ Kind.builtin := by decide
  have hfilled := @placeholders_filled_at_once
    ⟨false, ⟨.string, "\"%POS%VAL\"", 7⟩, some .symbol, some ";"⟩ hkind
  refine ⟨hkind, (hfilled.1 _).trans (by decide +kernel), (hfilled.2 "%T" "YPE" .text).trans ?_⟩
  rw [hfilled.1, hfilled.1]
  decide +kernel

section

open Parse

variable {source : SourceText} {tokens : List Token}

/-- The built-in rules make tokens of the built-in kinds, and the kind of the end marker is one
too. -/
theorem Frontend.kind_mem_builtin_of_lex (h : Frontend.empty.lex source = .ok tokens) (p : Nat) :
    ((Input.ofTokens tokens source).tokenAt p).kind ∈ Kind.builtin := by
  by_cases hlt : p < tokens.length
  · rw [Input.tokenAt_ofTokens_of_lt hlt]
    obtain ⟨lexemes, stop, hsegments, rfl⟩ := segments_of_lex h
    obtain ⟨lexeme, hmem, htoken⟩ := List.mem_filterMap.mp (List.getElem_mem hlt)
    have hrules : ∀ rule ∈ TokenRule.builtin, rule.kind ∈ Kind.builtin := by decide
    rw [Lexeme.kind_of_token? htoken]
    exact hrules _ (hsegments.of_mem lexeme hmem).1.rule_mem
  · have hend : (Input.ofTokens tokens source).size ≤ p := by
      rw [Input.size_ofTokens]
      exact Nat.le_of_not_lt hlt
    rw [Input.tokenAt_of_size_le hend, Input.endMarker_kind]
    decide

/-- Whatever the tokens of a source text say, what is reported where a requirement is not met is its
template with the placeholders filled at once. -/
theorem require_fills_at_once (h : Frontend.empty.lex source = .ok tokens) {p : Nat}
    {d : Array Diagnostic} {kind : Option Kind} {wanted : Option String} {template code : String}
    (hfits : ((Input.ofTokens tokens source).tokenAt p).fits kind wanted = false) :
    Meets False (Input.ofTokens tokens source) (require kind wanted template code) (.at p d)
      fun found s => found.ok = false ∧ s = .at p (d.push ((Input.ofTokens tokens source).errorAt p
        (fillAtOnce template ((Input.ofTokens tokens source).tokenAt p)) code)) := by
  have hfilled := fillTemplate_eq_fillAtOnce (Frontend.kind_mem_builtin_of_lex h p) template
  rw [meets_require, if_neg (by rw [hfits]; decide), hfilled]
  exact ⟨rfl, rfl⟩

end

end SharpSyntax
