import Mathlib.Data.List.TakeWhile
import SharpSyntax.Proofs.Positions
import SharpSyntax.Proofs.ReportOrder
import SharpSyntax.Proofs.Resumption
import SharpSyntax.Proofs.TokenReadBack
import SharpSyntax.Renderer

/-!
# The line under a diagnostic

A diagnostic tells its line by a number that counts line feeds. A renderer takes the line of that
number from a text that was cut at **every** line break of Unicode. The two notions agree where a
line feed ends each line, with or without a carriage return in front of it. They part in two ways:

* another break in front of the line makes the cut text have more lines up to there than numbers, so
  that the line shown is one further up;
* another break inside of the line cuts it off there.

No break stands at the offset of a diagnostic itself, since all of them are blank. So the carets
stand under the character that they mean if no break comes before it, but for line feeds in front of
the line.
-/

namespace SharpSyntax

namespace Text

variable {text front more before row : List Char} {c : Char}

/-- Line feeds are the only line breaks of a text, with or without a carriage return in front. -/
def onlyFeeds : List Char → Bool
  | [] => true
  | '\r' :: '\n' :: rest => onlyFeeds rest
  | c :: rest => (c = '\n' || !isLineBreak c) && onlyFeeds rest

/-- The text is empty, or a line feed ends it. -/
def EndsLine (text : List Char) : Prop := text = [] ∨ text.getLast? = some '\n'

theorem isBlank_of_isLineBreak (h : isLineBreak c = true) : isBlank c = true := by
  have hranges : ∃ r ∈ blankClass, r.1 ≤ c.toNat ∧ c.toNat ≤ r.2 := by
    simp only [isLineBreak, Bool.or_eq_true, Bool.and_eq_true, decide_eq_true_eq] at h
    simp only [blankClass, List.mem_cons, List.not_mem_nil, or_false, exists_eq_or_imp,
      exists_eq_left]
    omega
  exact CharClass.contains_iff.mpr hranges

/-! ## Cutting at line breaks -/

theorem splitLines_break (hbreak : isLineBreak c = true)
    (hpair : ∀ rest, c = '\r' → more ≠ '\n' :: rest) :
    splitLines (c :: more) = [] :: splitLines more := by
  rw [splitLines.eq_def]
  split
  · next heq => cases heq
  · next heq => cases heq; exact absurd rfl (hpair _ rfl)
  · next heq => cases heq; rw [if_pos hbreak]

theorem splitLines_newline : splitLines ('\n' :: more) = [] :: splitLines more :=
  splitLines_break (by decide) fun _ hc => absurd hc (by decide)

theorem splitLines_plain (hplain : isLineBreak c = false) : splitLines (c :: more) =
    (c :: (splitLines more).headD []) :: (splitLines more).tail := by
  rw [splitLines.eq_def]
  split
  · next heq => cases heq
  · next heq => cases heq; cases hplain
  · next heq =>
    cases heq
    rw [if_neg (by rw [hplain]; exact Bool.false_ne_true)]
    split
    · next hnone => rw [hnone]; rfl
    · next hlines => rw [hlines]; rfl

theorem splitLines_ne_nil (h : text ≠ []) : splitLines text ≠ [] := by
  unfold splitLines
  split
  · exact absurd rfl h
  · exact List.cons_ne_nil _ _
  · split
    · exact List.cons_ne_nil _ _
    · split
      · exact List.cons_ne_nil _ _
      · exact List.cons_ne_nil _ _

/-- A text that a line feed ends is cut as if nothing came behind it. -/
theorem splitLines_append_newline :
    splitLines (front ++ '\n' :: more) = splitLines (front ++ ['\n']) ++ splitLines more := by
  fun_induction onlyFeeds front with
  | case1 =>
      rw [List.nil_append, splitLines_newline]
      rfl
  | case2 rest ih =>
      rw [List.cons_append, List.cons_append, splitLines, ih, List.cons_append, List.cons_append,
        splitLines]
      rfl
  | case3 c rest hpair ih =>
      rw [List.cons_append, List.cons_append]
      cases hbreak : isLineBreak c with
      | false =>
          have hne : splitLines (rest ++ ['\n']) ≠ [] := splitLines_ne_nil (by simp)
          obtain ⟨line, lines, hlines⟩ := List.exists_cons_of_ne_nil hne
          rw [splitLines_plain hbreak, splitLines_plain hbreak, ih, hlines]
          rfl
      | true =>
          cases rest with
          | nil =>
              -- the line feed may be the second half of a break
              by_cases hc : c = '\r'
              · subst hc
                rfl
              · rw [List.nil_append, List.nil_append,
                  splitLines_break hbreak fun _ hr => absurd hr hc,
                  splitLines_break hbreak fun _ hr => absurd hr hc]
                exact congrArg _ ih
          | cons d rest =>
              have hpair' : ∀ tail rest', c = '\r' → (d :: rest) ++ tail ≠ '\n' :: rest' := by
                intro tail rest' hc heq
                exact hpair rest hc (by rw [(List.cons.inj heq).1])
              rw [splitLines_break hbreak (hpair' _), splitLines_break hbreak (hpair' _), ih]
              rfl

theorem splitLines_append (h : EndsLine before) :
    splitLines (before ++ more) = splitLines before ++ splitLines more := by
  rcases h with rfl | hlast
  · rfl
  · obtain ⟨front, rfl⟩ := List.getLast?_eq_some_iff.mp hlast
    rw [List.append_assoc, List.singleton_append, splitLines_append_newline]

/-- The first line goes up to the first break. -/
theorem head?_splitLines (h : text ≠ []) :
    (splitLines text).head? = some (text.takeWhile fun c => !isLineBreak c) := by
  fun_induction onlyFeeds text with
  | case1 => exact absurd rfl h
  | case2 rest _ => rfl
  | case3 c rest hpair ih =>
      cases hbreak : isLineBreak c with
      | true =>
          rw [splitLines_break hbreak hpair, List.takeWhile_cons_of_neg (by simp [hbreak])]
          rfl
      | false =>
          rw [splitLines_plain hbreak, List.takeWhile_cons_of_pos (by simp [hbreak]),
            List.head?_cons]
          cases rest with
          | nil => rfl
          | cons d rest => rw [List.headD_eq_head?_getD, ih (List.cons_ne_nil _ _)]; rfl

/-! ## How many lines stand in front -/

theorem length_splitLines_plain (hplain : isLineBreak c = false) (h : more ≠ []) :
    (splitLines (c :: more)).length = (splitLines more).length := by
  rw [splitLines_plain hplain]
  obtain ⟨line, lines, hlines⟩ := List.exists_cons_of_ne_nil (splitLines_ne_nil h)
  rw [hlines]
  rfl

theorem EndsLine.tail (h : EndsLine (c :: text)) : EndsLine text := by
  cases text with
  | nil => exact .inl rfl
  | cons d rest =>
      rcases h with hnil | hlast
      · cases hnil
      · exact .inr (by rwa [List.getLast?_cons_cons] at hlast)

/-- There is a line to each line feed, and one more if there is any other break. -/
theorem count_add_le_length_splitLines (text : List Char) :
    text.count '\n' + (!onlyFeeds text).toNat ≤ (splitLines text).length := by
  fun_induction onlyFeeds text with
  | case1 => exact Nat.le_refl 0
  | case2 rest ih =>
      rw [splitLines, List.length_cons, List.count_cons_of_ne (by decide), List.count_cons_self]
      omega
  | case3 c rest hpair ih =>
      by_cases hc : c = '\n'
      · rw [hc, splitLines_newline, List.length_cons, List.count_cons_self, decide_eq_true rfl,
          Bool.true_or, Bool.true_and]
        omega
      · rw [List.count_cons_of_ne hc, decide_eq_false hc, Bool.false_or]
        cases hbreak : isLineBreak c with
        | true =>
            rw [splitLines_break hbreak hpair, List.length_cons]
            exact Nat.succ_le_succ (Nat.le_trans (Nat.le_add_right _ _) ih)
        | false =>
            rw [Bool.not_false, Bool.true_and]
            cases rest with
            | nil => exact Nat.zero_le _
            | cons d rest => rwa [length_splitLines_plain hbreak (List.cons_ne_nil _ _)]

/-- With line feeds only, there is one line to each of them. -/
theorem length_splitLines (hends : EndsLine text) (h : onlyFeeds text = true) :
    (splitLines text).length = text.count '\n' := by
  fun_induction onlyFeeds text with
  | case1 => rfl
  | case2 rest ih =>
      rw [splitLines, List.length_cons, List.count_cons_of_ne (by decide), List.count_cons_self,
        ih hends.tail.tail h]
  | case3 c rest hpair ih =>
      rw [Bool.and_eq_true] at h
      by_cases hc : c = '\n'
      · rw [hc, splitLines_newline, List.length_cons, List.count_cons_self,
          ih hends.tail h.2]
      · have hplain : isLineBreak c = false := by simpa [hc] using h.1
        have hne : rest ≠ [] := by
          rintro rfl
          rcases hends with hnil | hlast
          · cases hnil
          · exact hc (Option.some.inj hlast)
        rw [length_splitLines_plain hplain hne, List.count_cons_of_ne hc, ih hends.tail h.2]

/-! ## Where the last line begins -/

/-- In front of the last line of a text stand whole lines, and no line feed is on it. -/
theorem endsLine_take_lastLineStart (text : List Char) :
    EndsLine (text.take (lastLineStart text)) ∧ '\n' ∉ text.drop (lastLineStart text) := by
  -- the induction is from the end, as for the table of line starts
  induction text using List.reverseRecOn with
  | nil => exact ⟨.inl rfl, List.not_mem_nil⟩
  | append_singleton front c ih =>
      by_cases hc : c = '\n'
      · have hwhole : lastLineStart (front ++ [c]) = (front ++ [c]).length := by
          rw [hc, lastLineStart_newline, List.length_append]
          rfl
        rw [hwhole, List.take_length, List.drop_length, hc]
        exact ⟨.inr List.getLast?_concat, List.not_mem_nil⟩
      · have hle : lastLineStart front ≤ front.length := lastLineStart_le_length
        rw [lastLineStart_append (by simpa using Ne.symm hc), List.take_append_of_le_length hle,
          List.drop_append_of_le_length hle, List.mem_append, not_or]
        exact ⟨ih.1, ih.2, by simpa using Ne.symm hc⟩

/-- Behind whole lines with line feeds only, the line of the next number is the one that begins
there, up to its first break. -/
theorem shown_of_onlyFeeds (hends : EndsLine before) (hmore : more ≠ [])
    (h : onlyFeeds before = true) : (splitLines (before ++ more))[before.count '\n']? =
      some (more.takeWhile fun c => !isLineBreak c) := by
  rw [splitLines_append hends, ← length_splitLines hends h,
    List.getElem?_append_right (Nat.le_refl _), Nat.sub_self, ← List.head?_eq_getElem?,
    head?_splitLines hmore]

/-- Behind whole lines with another break, it is one of these lines. -/
theorem shown_of_not_onlyFeeds (hends : EndsLine before) (h : onlyFeeds before = false) :
    ∃ shown ∈ splitLines before,
      (splitLines (before ++ more))[before.count '\n']? = some shown := by
  have hlt : before.count '\n' < (splitLines before).length := by
    have hle := count_add_le_length_splitLines before
    rwa [h] at hle
  refine ⟨_, List.getElem_mem hlt, ?_⟩
  rw [splitLines_append hends, List.getElem?_append_left hlt, List.getElem?_eq_getElem hlt]

/-! ## A character of a line -/

/-- A line feed ends a run without line breaks. -/
theorem takeWhile_line : (text.takeWhile (· ≠ '\n')).takeWhile (fun c => !isLineBreak c) =
    text.takeWhile fun c => !isLineBreak c := by
  rw [List.takeWhile_takeWhile]
  congr 1
  funext c
  by_cases hc : c = '\n'
  · subst hc
    rfl
  · simp [hc]

theorem takeWhile_eq_line : row.takeWhile (fun c => !isLineBreak c) = row ↔
    ∀ d ∈ row, isLineBreak d = false := by
  rw [List.takeWhile_eq_self_iff]
  simp

/-- A character that is no break is in its place on the line up to the first break, just if no break
comes in front of it. -/
theorem getElem?_takeWhile_line {k : Nat} (hc : row[k]? = some c) (hplain : isLineBreak c = false) :
    (row.takeWhile fun c => !isLineBreak c)[k]? = some c ↔
      ∀ d ∈ row.take k, isLineBreak d = false := by
  constructor
  · intro h d hd
    obtain ⟨hlt, -⟩ := List.getElem?_eq_some_iff.mp h
    have hfront : row.take k <+: row.takeWhile fun c => !isLineBreak c := by
      rw [List.prefix_iff_eq_take.mp (List.takeWhile_prefix fun c => !isLineBreak c)]
      exact List.take_prefix_take_left (Nat.le_of_lt hlt)
    simpa using List.mem_takeWhile_imp (hfront.subset hd)
  · intro h
    obtain ⟨hlt, hc⟩ := List.getElem?_eq_some_iff.mp hc
    have hall : ∀ d ∈ row.take k, (!isLineBreak d) = true := fun d hd => by rw [h d hd]; rfl
    have hlength : (row.take k).length = k := List.length_take_of_le (Nat.le_of_lt hlt)
    rw [← List.take_append_drop k row, List.takeWhile_append_of_pos hall,
      List.getElem?_append_right (Nat.le_of_eq hlength), hlength, Nat.sub_self,
      List.drop_eq_getElem_cons hlt, hc, List.takeWhile_cons_of_pos (by rw [hplain]; rfl)]
    rfl

end Text

/-! ## The line of an offset -/

namespace SourceText

variable {source : SourceText} {o : Nat} {c : Char}

/-- The text in front of the line of an offset. -/
def linesBefore (source : SourceText) (o : Nat) : List Char :=
  source.text.toList.take (Text.lastLineStart (source.text.toList.take o))

/-- The line of an offset, which is the text between the line feeds around it. -/
def lineAround (source : SourceText) (o : Nat) : List Char :=
  (source.text.toList.drop (Text.lastLineStart (source.text.toList.take o))).takeWhile (· ≠ '\n')

/-- What is shown as the line of an offset at which a character stands. -/
structure Shows (source : SourceText) (o : Nat) (c : Char) (shown : List Char) : Prop where
  /-- With line feeds only in front of the line, it is that line up to its first break. -/
  cut_off : Text.onlyFeeds (source.linesBefore o) = true →
    shown = (source.lineAround o).takeWhile fun d => !Text.isLineBreak d
  /-- It is then the whole line unless there is a break in it. -/
  line_iff : Text.onlyFeeds (source.linesBefore o) = true →
    (shown = source.lineAround o ↔ ∀ d ∈ source.lineAround o, Text.isLineBreak d = false)
  /-- The character is then in its column unless a break comes before it. -/
  char_iff : Text.onlyFeeds (source.linesBefore o) = true →
    (shown[(source.position o).column - 1]? = some c ↔
      ∀ d ∈ (source.lineAround o).take ((source.position o).column - 1), Text.isLineBreak d = false)
  /-- With another break in front of the line, it is a line from further up. -/
  further_up : Text.onlyFeeds (source.linesBefore o) = false →
    shown ∈ Text.splitLines (source.linesBefore o)

theorem linesBefore_append (source : SourceText) (o : Nat) : source.text.toList.take o =
    source.linesBefore o ++
      (source.text.toList.take o).drop (Text.lastLineStart (source.text.toList.take o)) := by
  have hle := lastLineStart_take_le source o
  have hfront := List.take_append_drop (Text.lastLineStart (source.text.toList.take o))
    (source.text.toList.take o)
  rw [List.take_take, Nat.min_eq_left hle] at hfront
  exact hfront.symm

theorem endsLine_linesBefore (source : SourceText) (o : Nat) :
    Text.EndsLine (source.linesBefore o) := by
  have hends := (Text.endsLine_take_lastLineStart (source.text.toList.take o)).1
  rwa [List.take_take, Nat.min_eq_left (lastLineStart_take_le source o)] at hends

/-- The number of a line is one more than there are line feeds in front of it. -/
theorem line_position (h : o ≤ source.text.toList.length) :
    (source.position o).line = (source.linesBefore o).count '\n' + 1 := by
  have hnone := (Text.endsLine_take_lastLineStart (source.text.toList.take o)).2
  rw [position_eq h, linesBefore_append source o, List.count_append, List.count_eq_zero.mpr hnone]

/-- The character at an offset is on its line, in the column of the offset. -/
theorem getElem?_lineAround (hc : source.text.toList[o]? = some c) (hfeed : c ≠ '\n') :
    (source.lineAround o)[(source.position o).column - 1]? = some c := by
  obtain ⟨hlt, hget⟩ := List.getElem?_eq_some_iff.mp hc
  have hle := lastLineStart_take_le source o
  have hnone := (Text.endsLine_take_lastLineStart (source.text.toList.take o)).2
  rw [position_eq (Nat.le_of_lt hlt), lineAround]
  generalize hstart : Text.lastLineStart (source.text.toList.take o) = start at hle hnone
  have hsplit : source.text.toList.drop start =
      (source.text.toList.take o).drop start ++ c :: source.text.toList.drop (o + 1) := by
    rw [← hget, ← List.drop_eq_getElem_cons hlt, ← List.drop_append_of_le_length,
      List.take_append_drop]
    rw [List.length_take_of_le (Nat.le_of_lt hlt)]
    exact hle
  have hindent : ∀ d ∈ (source.text.toList.take o).drop start, decide (d ≠ '\n') = true := by
    intro d hd
    rw [decide_eq_true_eq]
    rintro rfl
    exact hnone hd
  have hlength : ((source.text.toList.take o).drop start).length = o - start := by
    rw [List.length_drop, List.length_take_of_le (Nat.le_of_lt hlt)]
  rw [hsplit, List.takeWhile_append_of_pos hindent, Nat.add_sub_cancel, ← hlength,
    List.getElem?_append_right (Nat.le_refl _), Nat.sub_self,
    List.takeWhile_cons_of_pos (by simpa using hfeed)]
  rfl

/-- The line that a renderer finds under the number of a line. -/
theorem exists_shown (hc : source.text.toList[o]? = some c) (hplain : Text.isLineBreak c = false) :
    ∃ shown, source.lines[(source.position o).line - 1]? = some (String.ofList shown) ∧
      source.Shows o c shown := by
  obtain ⟨hlt, -⟩ := List.getElem?_eq_some_iff.mp hc
  have hfeed : c ≠ '\n' := by rintro rfl; cases hplain
  have hends := endsLine_linesBefore source o
  have hmore : source.text.toList.drop (Text.lastLineStart (source.text.toList.take o)) ≠ [] := by
    rw [ne_eq, List.drop_eq_nil_iff]
    have hle := lastLineStart_take_le source o
    omega
  have hlines : source.lines[(source.position o).line - 1]? =
      (Text.splitLines (source.linesBefore o ++ source.text.toList.drop
        (Text.lastLineStart (source.text.toList.take o))))[(source.linesBefore o).count '\n']?.map
          String.ofList := by
    rw [line_position (Nat.le_of_lt hlt), Nat.add_sub_cancel, linesBefore, List.take_append_drop,
      lines, List.getElem?_map]
  rw [hlines]
  cases hfeeds : Text.onlyFeeds (source.linesBefore o) with
  | true =>
      rw [Text.shown_of_onlyFeeds hends hmore hfeeds, ← Text.takeWhile_line]
      refine ⟨_, rfl, fun _ => rfl, fun _ => Text.takeWhile_eq_line, fun _ => ?_, fun hother => ?_⟩
      · exact Text.getElem?_takeWhile_line (getElem?_lineAround hc hfeed) hplain
      · rw [hfeeds] at hother
        cases hother
  | false =>
      obtain ⟨shown, hmem, hshown⟩ := Text.shown_of_not_onlyFeeds hends hfeeds
      rw [hshown]
      have hnever : ¬ Text.onlyFeeds (source.linesBefore o) = true := by
        rw [hfeeds]
        exact Bool.false_ne_true
      exact ⟨shown, rfl, fun hother => absurd hother hnever, fun hother => absurd hother hnever,
        fun hother => absurd hother hnever, fun _ => hmem⟩

end SourceText

/-! ## What a renderer writes -/

/-- The part of a line in front of the text that is shown. -/
def Palette.gutter (palette : Palette) (text : String) : String :=
  s!"  {palette.blue}{text} |{palette.reset}"

/-- The carets under the characters of a span on one line. -/
def Palette.carets (palette : Palette) (severity : Severity) (span : Span) : String :=
  let blank := palette.gutter "  "
  let margin := "".pushn ' ' (span.startCol - 1).toNat
  let marks := "".pushn '^' (max 1 (span.endCol - span.startCol + 1)).toNat
  s!"{blank} {margin}{palette.severity severity}{marks}{palette.reset}"

/-- What a renderer writes of a diagnostic at a label up to and with the line that it shows. -/
def Diagnostic.excerpt (palette : Palette) (x : Diagnostic) (label : Label) (shown : List Char) :
    List String :=
  [s!"{palette.severity x.severity}{x.severity.word}[{x.code}]{palette.reset}" ++
      s!"{palette.bold}: {x.message}{palette.reset}",
    s!"  {palette.blue}-->{palette.reset} {label.span.location}",
    palette.gutter "  ",
    s!"{palette.gutter (gutterNumber label.span.startLine)} {String.ofList shown}"]

/-- A label is shown as a place, the line with its number, and what is under the line, which begins
with the carets unless the label goes over several lines. -/
theorem Label.render_eq {palette : Palette} {lines : LineSource} {severity : Severity}
    {label : Label} {shown : String} (hpos : 1 ≤ label.span.startLine)
    (hline : (lines label.span.file)[(label.span.startLine - 1).toNat]? = some shown) :
    ∃ under, label.render palette lines severity =
        [s!"  {palette.blue}-->{palette.reset} {label.span.location}", palette.gutter "  ",
          s!"{palette.gutter (gutterNumber label.span.startLine)} {shown}"] ++ under ∧
      (label.span.startLine = label.span.endLine →
        under.head? = some (palette.carets severity label.span)) := by
  unfold Label.render
  dsimp only
  rw [if_pos hpos, hline]
  refine ⟨_, List.append_assoc _ _ _, fun hsame => ?_⟩
  rw [if_pos hsame]
  rfl

/-- A text that was added is shown with its own lines. -/
theorem Renderer.render_addSource (renderer : Renderer) {source : SourceText} {x : Diagnostic}
    {label : Label} (hlabels : x.labels = [label]) (hfile : label.span.file = source.name) :
    ∃ lines : LineSource, lines source.name = source.lines ∧
      (renderer.addSource source).render x =
        .ok (x.render (.choose renderer.color) lines) := by
  have hlines : (renderer.addSource source).linesOf source.name = .ok source.lines := by
    rw [linesOf, addSource, Table.find?_set, if_pos rfl]
  unfold Renderer.render
  rw [hlabels, List.mapM_cons, hfile, hlines]
  refine ⟨_, ?_, rfl⟩
  simp

/-! ## Where diagnostics are -/

/-- What the frontend without plugins tells of a text at an offset: a report of the parser about a
token there, or the error of the lexer about the character there. -/
inductive Frontend.TellsAt (source : SourceText) : Diagnostic → Nat → Prop
  | token {tokens : List Token} {aliases : Aliases} {result : ParseResult} {x : Diagnostic}
      {token : Token} : empty.tokens source = .ok (tokens, aliases) →
      empty.parse source = .ok result → x ∈ result.diagnostics → token ∈ tokens →
      x.offset = token.offset → TellsAt source x token.offset
  | character {error : LexError} : empty.parse source = .error (.lex error) →
      TellsAt source error.diagnostic error.offset

/-- Blanks are taken before anything else. -/
theorem firstLexeme?_of_isBlank (behind rest : List Char) {c : Char} (h : Text.isBlank c = true) :
    ∃ run, firstLexeme? TokenRule.builtin behind (c :: rest) =
      some (⟨.whitespace, Scanner.anywhere Scan.blanks, true⟩, run) := by
  have hrun : (c :: rest).takeWhile Text.isBlank = c :: rest.takeWhile Text.isBlank :=
    List.takeWhile_cons_of_pos h
  have hscan : Scan.blanks (c :: rest) = some ((c :: rest).takeWhile Text.isBlank).length := by
    rw [Scan.blanks, Scan.nonemptyRun, Scan.run, hrun]
    rfl
  exact ⟨_, firstLexeme?_builtin_run ⟨0, by decide⟩ (by simp) hscan
    (by rw [hrun]; exact List.cons_ne_nil _ _)⟩

/-- A token does not begin with a blank. -/
theorem Lexeme.IsFirst.not_isBlank {text : List Char} {lexeme : Lexeme} {token : Token}
    (h : lexeme.IsFirst TokenRule.builtin text) (htoken : lexeme.token? = some token) :
    ∃ c, text[lexeme.offset]? = some c ∧ Text.isBlank c = false := by
  obtain ⟨c, more, htext⟩ := List.exists_cons_of_ne_nil h.isPrefix.2
  have hahead := h.drop_eq
  rw [htext, List.cons_append] at hahead
  refine ⟨c, by rw [← List.head?_drop, hahead, List.head?_cons], ?_⟩
  rw [Bool.eq_false_iff]
  intro hblank
  have hfound := h.firstLexeme?
  obtain ⟨run, hrun⟩ := firstLexeme?_of_isBlank (text.take lexeme.offset).reverse
    (more ++ text.drop lexeme.stop) hblank
  rw [hahead, hrun] at hfound
  have hrule := (Prod.mk.inj (Option.some.inj hfound)).1
  rw [Lexeme.token?, ← hrule] at htoken
  cases htoken

/-- Every report of a parse is about a token or about the end of the input. -/
theorem Frontend.within_of_parse {frontend : Frontend}
    (hplugins : ∀ plugin ∈ frontend.plugins, plugin = Extras.plugin) {source : SourceText}
    {tokens : List Token} {aliases : Aliases} {result : ParseResult} {x : Diagnostic}
    (htokens : frontend.tokens source = .ok (tokens, aliases))
    (hparse : frontend.parse source = .ok result) (hx : x ∈ result.diagnostics) :
    (Input.ofTokens tokens source).Within 0 ((Input.ofTokens tokens source).size + 1) x := by
  have htell := rules_tell hplugins tokens source aliases (.ofTokens tokens source)
  have hmeets : Parse.Meets True (.ofTokens tokens source)
      (Grammar.program (frontend.parser tokens source aliases).rules) (.at 0 #[])
        fun _ => (Input.ofTokens tokens source).Told 0 #[] 0 #[] true := by
    rw [Grammar.program, Parse.meets_bind]
    exact block_tells htell none 0 0 #[] #[] (Nat.le_refl 0) (.silent (Nat.le_refl 0))
  obtain ⟨tree, reported, hrun⟩ := (frontend.parser tokens source aliases).program_ends
    (parser_progress hplugins tokens source aliases)
  obtain ⟨q, f, hend, -, -, hf⟩ := Parser.post_of_run hmeets hrun
  obtain ⟨rfl, rfl⟩ := ParseState.at_inj hend
  obtain ⟨new, hnew, hwithin, -⟩ :=
    hf.exists_list (ascending_of_tokens hplugins htokens) (Nat.le_refl _)
  have hresult := parse_of_run htokens hrun
  rw [hparse] at hresult
  cases hresult
  rw [hnew] at hx
  exact hwithin x (by simpa using hx)

namespace Frontend

variable {source : SourceText} {tokens : List Token} {token : Token} {error : LexError}

theorem exists_of_mem_tokens {aliases : Aliases}
    (htokens : empty.tokens source = .ok (tokens, aliases)) (hmem : token ∈ tokens) :
    ∃ c, source.text.toList[token.offset]? = some c ∧ Text.isBlank c = false := by
  have hlex : empty.lex source = .ok tokens := by rw [lex, htokens]; rfl
  obtain ⟨lexemes, stop, hsegments, rfl⟩ := segments_of_lex hlex
  obtain ⟨lexeme, hlexeme, htoken⟩ := List.mem_filterMap.mp hmem
  rw [(Lexeme.token?_eq_some htoken).2.1]
  exact (hsegments.of_mem lexeme hlexeme).1.not_isBlank htoken

/-- The lexer stops at a character that no rule takes, so that it is no blank. -/
theorem exists_of_lex_error (h : empty.parse source = .error (.lex error)) :
    ∃ c, source.text.toList[error.offset]? = some c ∧ Text.isBlank c = false ∧
      error = Lexer.errorAt source error.offset c := by
  have hlexer : empty.lexer source = .ok (Lexer.fresh source TokenRule.builtin .builtin) := rfl
  have htokenize : (Lexer.fresh source TokenRule.builtin .builtin).tokenize.1 = .error error := by
    cases hrun : (Lexer.fresh source TokenRule.builtin .builtin).tokenize.1 with
    | error found =>
        have htokens : empty.tokens source = .error (.lex found) := by
          rw [tokens, hlexer]
          dsimp only
          rw [hrun]
        rw [parse, htokens] at h
        cases h
        rfl
    | ok found =>
        -- a text that lexes is parsed to a tree
        have htokens : empty.tokens source = .ok (found, .builtin) := by
          rw [tokens, hlexer]
          dsimp only
          rw [hrun]
          rfl
        have hplugins : ∀ plugin ∈ empty.plugins, plugin = Extras.plugin :=
          fun _ hmem => absurd hmem List.not_mem_nil
        obtain ⟨tree, reported, hparsed⟩ := (empty.parser found source .builtin).program_ends
          (parser_progress hplugins found source .builtin)
        rw [parse_of_run htokens hparsed] at h
        cases h
  obtain ⟨lexemes, stop, -, hnone, -, hend⟩ :=
    Lexer.tokenize_fresh source TokenRule.builtin .builtin
  rcases hend with ⟨-, hok⟩ | ⟨c, hc, herror⟩
  · rw [hok] at htokenize
    cases htokenize
  · rw [herror] at htokenize
    cases htokenize
    refine ⟨c, hc, ?_, rfl⟩
    rw [Bool.eq_false_iff]
    intro hblank
    obtain ⟨rest, hrest⟩ := List.head?_eq_some_iff.mp (List.head?_drop.trans hc)
    obtain ⟨run, hrun⟩ := firstLexeme?_of_isBlank (source.text.toList.take stop).reverse rest hblank
    rw [← hrest, firstLexeme?_eq_none_iff.mpr hnone] at hrun
    cases hrun

/-- What is told at an offset is an error about the character there, and that is no blank. -/
theorem TellsAt.exists_character {x : Diagnostic} {o : Nat} (h : TellsAt source x o) :
    ∃ c, source.text.toList[o]? = some c ∧ Text.isBlank c = false ∧
      ∃ code message length note, x = Diagnostic.errorAt source code message o length note := by
  cases h with
  | @token tokens _ _ _ _ htokens hparse hx hmem hoffset =>
      obtain ⟨c, hc, hblank⟩ := exists_of_mem_tokens htokens hmem
      have hplugins : ∀ plugin ∈ empty.plugins, plugin = Extras.plugin := nofun
      obtain ⟨p, message, code, -, -, rfl⟩ := within_of_parse hplugins htokens hparse hx
      refine ⟨c, hc, hblank, code, message,
        ((Input.ofTokens tokens source).tokenAt p).text.length, "", ?_⟩
      rw [← hoffset]
      rfl
  | character hparse =>
      obtain ⟨c, hc, hblank, herror⟩ := exists_of_lex_error hparse
      exact ⟨c, hc, hblank, _, _, _, _, congrArg LexError.diagnostic herror⟩

end Frontend

/-- **The line under a diagnostic.** What the frontend tells of a text at a token or at a character
that no rule takes is shown with the place, a numbered line of the text and carets from the column
of that character on. With line feeds only in front of the line, the line is that of the character
unless another break cuts it off, and the carets begin under the character unless a break comes
before it. With another break in front of the line, the line is one from further up. -/
theorem shown_line_told (renderer : Renderer) {source : SourceText} {x : Diagnostic} {o : Nat}
    (h : Frontend.TellsAt source x o) :
    ∃ label c shown under, x.labels = [label] ∧ label.span.first = source.position o ∧
      source.text.toList[o]? = some c ∧ source.Shows o c shown ∧
      (renderer.addSource source).render x = .ok ("\n".intercalate
        (x.excerpt (.choose renderer.color) label shown ++ under)) ∧
      (label.span.startLine = label.span.endLine →
        under.head? = some ((Palette.choose renderer.color).carets x.severity label.span)) := by
  obtain ⟨c, hc, hblank, code, message, length, note, rfl⟩ := h.exists_character
  have hplain : Text.isLineBreak c = false := by
    rw [Bool.eq_false_iff]
    intro hbreak
    rw [Text.isBlank_of_isLineBreak hbreak] at hblank
    cases hblank
  obtain ⟨shown, hline, hshows⟩ := SourceText.exists_shown hc hplain
  let label : Label := { span := source.span o length, message := note }
  have hlabels : (Diagnostic.errorAt source code message o length note).labels = [label] := rfl
  obtain ⟨lines, hlines, hrender⟩ := renderer.render_addSource hlabels rfl
  have hpos : 1 ≤ label.span.startLine := (source.span_forward o length).one_le_start.1
  have hfound : (lines label.span.file)[(label.span.startLine - 1).toNat]? =
      some (String.ofList shown) := by
    have hindex : (label.span.startLine - 1).toNat = (source.position o).line - 1 := by
      show (((source.position o).line : Int) - 1).toNat = _
      omega
    rw [hindex, ← hline, ← hlines]
    rfl
  obtain ⟨under, hlabel, hcarets⟩ := Label.render_eq hpos hfound
  refine ⟨label, c, shown, under, hlabels, rfl, hc, hshows, ?_, hcarets⟩
  rw [hrender]
  unfold Diagnostic.render
  rw [hlabels, List.flatMap_singleton]
  dsimp only
  rw [hlabel]
  exact congrArg (fun lines => Except.ok ("\n".intercalate lines)) (List.append_nil _)

/-- A parenthesis on the second line, behind an empty one that ends in two characters. -/
theorem shown_line_told_second_line : ∃ x : Diagnostic,
    Frontend.TellsAt (.ofText "\r\n )" "main.cs") x 3 ∧
      ∃ label under, label.span.first = ⟨2, 2⟩ ∧
        ((Renderer.new false ⟨"", [], []⟩).addSource (.ofText "\r\n )" "main.cs")).render x =
          .ok ("\n".intercalate (x.excerpt .plain label [' ', ')'] ++ under)) := by
  let source : SourceText := .ofText "\r\n )" "main.cs"
  have htokens : Frontend.empty.tokens source = .ok ([⟨.symbol, ")", 3⟩], .builtin) :=
    (Frontend.tokens_of_lex (by decide +kernel)).2
  have hreports : (Frontend.empty.parse source).toOption.map ParseResult.diagnostics =
      some [.errorAt source "E201" "Unexpected token at 3: SYMBOL \")\"" 3 1 ""] := by
    decide +kernel
  cases hparse : Frontend.empty.parse source with
  | error error => rw [hparse] at hreports; cases hreports
  | ok result =>
      rw [hparse] at hreports
      have hmem : .errorAt source "E201" "Unexpected token at 3: SYMBOL \")\"" 3 1 "" ∈
          result.diagnostics := by
        rw [Option.some.inj hreports]
        exact List.mem_cons_self
      have htells := Frontend.TellsAt.token htokens hparse hmem List.mem_cons_self rfl
      obtain ⟨label, c, shown, under, -, hfirst, -, hshows, hrender, -⟩ :=
        shown_line_told (Renderer.new false ⟨"", [], []⟩) htells
      have hfeeds : Text.onlyFeeds (source.linesBefore 3) = true := by decide +kernel
      have hshown : shown = [' ', ')'] := by
        rw [hshows.cut_off hfeeds]
        decide +kernel
      subst hshown
      exact ⟨_, htells, label, under, hfirst, hrender⟩

/-- It is not so that the line with its number is always shown: a form feed ends a line for the
renderer. -/
theorem line_behind_form_feed_not_shown : ¬ ∀ (renderer : Renderer) (source : SourceText)
    (x : Diagnostic) (o : Nat), Frontend.TellsAt source x o → ∀ label ∈ x.labels,
      ∃ text, (renderer.addSource source).render x = .ok text ∧
        ((Palette.choose renderer.color).gutter (gutterNumber label.span.startLine) ++ " " ++
          String.ofList (source.lineAround o)).toList <:+: text.toList := by
  intro hclaim
  let source : SourceText := .ofText "\x0c)" "main.cs"
  let x : Diagnostic := .errorAt source "E201" "Unexpected token at 1: SYMBOL \")\"" 1 1 ""
  have htokens : Frontend.empty.tokens source = .ok ([⟨.symbol, ")", 1⟩], .builtin) :=
    (Frontend.tokens_of_lex (by decide +kernel)).2
  have hreports : (Frontend.empty.parse source).toOption.map ParseResult.diagnostics =
      some [x] := by
    decide +kernel
  have hrendered : (((Renderer.new false ⟨"", [], []⟩).addSource source).render x).toOption = some
      ("error[E201]: Unexpected token at 1: SYMBOL \")\"\n" ++
        "  --> main.cs:1:2\n     |\n     1 | \n     |  ^") := by
    decide +kernel
  cases hparse : Frontend.empty.parse source with
  | error error => rw [hparse] at hreports; cases hreports
  | ok result =>
      rw [hparse] at hreports
      have hmem : x ∈ result.diagnostics := by
        rw [Option.some.inj hreports]
        exact List.mem_cons_self
      obtain ⟨text, hrender, hinfix⟩ := hclaim (Renderer.new false ⟨"", [], []⟩) source x 1
        (.token htokens hparse hmem List.mem_cons_self rfl) _ List.mem_cons_self
      rw [hrender] at hrendered
      obtain rfl := Option.some.inj hrendered
      revert hinfix
      decide +kernel

end SharpSyntax
