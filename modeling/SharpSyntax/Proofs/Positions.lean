import Mathlib.Data.List.Induction
import SharpSyntax.LanguageServer
import SharpSyntax.Proofs.Segments

/-!
# Offsets, lines and columns

An offset of a source text is told as a line and a column. The table of line starts is searched for
the last line that begins at or before the offset; what is found is this:

* the **line** counts the line feeds in front of the offset,
* the **column** counts the characters behind the last of them.

Both only need the text in front of the offset, so everything here is said of such fronts: what a
front ends with decides where its last line begins, and a longer front is further on. From it follow
the order of positions, the way back from a position to its offset, and what a span says of the
characters it covers.
-/

namespace SharpSyntax

namespace Text

/-- Where the last line of a text begins: just behind its last line feed, or at its start. -/
def lastLineStart (text : List Char) : Nat :=
  text.length - (text.reverse.takeWhile (· ≠ '\n')).length

variable {text front more : List Char} {c : Char} {k n : Nat}

/-! ## The last line of a front -/

theorem lastLineStart_le_length : lastLineStart text ≤ text.length := Nat.sub_le _ _

theorem lastLineStart_newline : lastLineStart (front ++ ['\n']) = front.length + 1 := by
  unfold lastLineStart
  rw [List.reverse_append, List.length_append]
  rfl

/-- Without a line feed, what comes behind a front stays on its last line. -/
theorem lastLineStart_append (h : '\n' ∉ more) :
    lastLineStart (front ++ more) = lastLineStart front := by
  have hmore : ∀ c ∈ more.reverse, decide (c ≠ '\n') = true := by
    intro c hc
    rw [decide_eq_true_eq]
    rintro rfl
    exact h (List.mem_reverse.mp hc)
  unfold lastLineStart
  rw [List.reverse_append, List.takeWhile_append_of_pos hmore, List.length_append,
    List.length_append, List.length_reverse]
  omega

/-! ## The table of line starts -/

theorem lt_of_mem_startsAfterNewlines (h : n ∈ startsAfterNewlines k text) : k < n := by
  induction text generalizing k with
  | nil => cases h
  | cons c rest ih =>
      unfold startsAfterNewlines at h
      split at h
      · rcases List.mem_cons.mp h with rfl | h
        · exact Nat.lt_succ_self k
        · exact Nat.lt_of_succ_lt (ih h)
      · exact Nat.lt_of_succ_lt (ih h)

theorem length_startsAfterNewlines :
    (startsAfterNewlines k text).length = text.count '\n' := by
  induction text generalizing k with
  | nil => rfl
  | cons c rest ih =>
      unfold startsAfterNewlines
      split
      · next hc => rw [hc, List.length_cons, ih, List.count_cons_self]
      · next hc => rw [ih, List.count_cons_of_ne hc]

theorem startsAfterNewlines_concat : startsAfterNewlines k (front ++ [c]) =
    startsAfterNewlines k front ++ if c = '\n' then [k + front.length + 1] else [] := by
  induction front generalizing k with
  | nil => rfl
  | cons b front ih =>
      have hlength : k + 1 + front.length + 1 = k + (b :: front).length + 1 := by
        rw [List.length_cons]
        omega
      rw [List.cons_append, startsAfterNewlines, startsAfterNewlines, ih, hlength]
      split
      · rw [List.cons_append]
      · rfl

/-- The lines that begin inside a front are those of the whole table that do not begin behind it. -/
theorem takeWhile_startsAfterNewlines :
    (startsAfterNewlines k text).takeWhile (· ≤ k + n) = startsAfterNewlines k (text.take n) := by
  induction text generalizing k n with
  | nil => rw [List.take_nil]; rfl
  | cons c rest ih =>
      cases n with
      | zero =>
          rw [List.take_zero, startsAfterNewlines]
          cases hstarts : startsAfterNewlines k (c :: rest) with
          | nil => rfl
          | cons start starts =>
              have hlt : k < start := lt_of_mem_startsAfterNewlines
                (hstarts ▸ List.mem_cons_self)
              rw [List.takeWhile_cons_of_neg (by rw [decide_eq_true_eq]; omega)]
      | succ n =>
          have hlimit : k + (n + 1) = k + 1 + n := by omega
          rw [List.take_succ_cons, startsAfterNewlines, startsAfterNewlines, hlimit]
          split
          · rw [List.takeWhile_cons_of_pos (by rw [decide_eq_true_eq]; omega), ih]
          · rw [ih]

theorem length_lineStarts : (lineStarts text).length = text.count '\n' + 1 := by
  rw [lineStarts, List.length_cons, length_startsAfterNewlines]

theorem takeWhile_lineStarts :
    (lineStarts text).takeWhile (· ≤ n) = lineStarts (text.take n) := by
  have hrest : (startsAfterNewlines 0 text).takeWhile (· ≤ 0 + n) =
      startsAfterNewlines 0 (text.take n) := takeWhile_startsAfterNewlines
  rw [Nat.zero_add] at hrest
  rw [lineStarts, lineStarts, List.takeWhile_cons_of_pos (by simp), hrest]

/-- The last entry of the table is where the last line begins. -/
theorem getLast?_lineStarts (text : List Char) :
    (lineStarts text).getLast? = some (lastLineStart text) := by
  -- the induction is from the end, since that is where the table grows
  induction text using List.reverseRecOn with
  | nil => rfl
  | append_singleton front c ih =>
      rw [lineStarts, startsAfterNewlines_concat, ← List.cons_append, ← lineStarts]
      split
      · next hc => rw [hc, lastLineStart_newline, List.getLast?_concat, Nat.zero_add]
      · next hc =>
        rw [List.append_nil, ih, lastLineStart_append (by simpa using Ne.symm hc)]

end Text

/-! ## Positions -/

/-- A position is on an earlier line than another, or on the same line in front of it. -/
def Position.Before (first second : Position) : Prop :=
  first.line < second.line ∨ first.line = second.line ∧ first.column < second.column

namespace SourceText

variable {source : SourceText} {i j o : Nat}

/-- The offset that a line and a column tell, by the table of line starts. -/
def offsetAt (source : SourceText) (position : Position) : Nat :=
  (source.lineStarts[position.line - 1]?).getD 0 + position.column - 1

theorem clamp_natCast (h : o ≤ source.text.toList.length) : source.clamp o = o := by
  rw [clamp, source.size_eq, Int.toNat_natCast, Nat.min_eq_left h]

theorem clamp_le_length {offset : Int} : source.clamp offset ≤ source.text.toList.length := by
  rw [clamp, source.size_eq]
  exact Nat.min_le_right _ _

theorem position_clamp (offset : Int) :
    source.position (source.clamp offset : Int) = source.position offset := by
  unfold position
  rw [clamp_natCast clamp_le_length]

/-- The line counts the line feeds in front, the column what is behind the last of them. -/
theorem position_eq (h : o ≤ source.text.toList.length) : source.position o =
    { line := (source.text.toList.take o).count '\n' + 1
      column := o - Text.lastLineStart (source.text.toList.take o) + 1 } := by
  unfold position
  dsimp only
  rw [clamp_natCast h, source.lineStarts_eq, Text.takeWhile_lineStarts, Text.length_lineStarts,
    Text.getLast?_lineStarts]
  rfl

/-- The line of an offset begins where the table of line starts says. -/
theorem lineStarts_position (h : o ≤ source.text.toList.length) :
    source.lineStarts[(source.position o).line - 1]? =
      some (Text.lastLineStart (source.text.toList.take o)) := by
  have hbegun : Text.lineStarts (source.text.toList.take o) <+: source.lineStarts := by
    rw [source.lineStarts_eq, ← Text.takeWhile_lineStarts]
    exact List.takeWhile_prefix _
  have hlast := Text.getLast?_lineStarts (source.text.toList.take o)
  rw [List.getLast?_eq_getElem?, Text.length_lineStarts] at hlast
  obtain ⟨hlt, hlast⟩ := List.getElem?_eq_some_iff.mp hlast
  rw [position_eq h, ← hlast]
  exact List.prefix_iff_getElem?.mp hbegun _ hlt

theorem lastLineStart_take_le (source : SourceText) (o : Nat) :
    Text.lastLineStart (source.text.toList.take o) ≤ o :=
  Nat.le_trans Text.lastLineStart_le_length (List.length_take_le _ _)

theorem offsetAt_position (h : o ≤ source.text.toList.length) :
    source.offsetAt (source.position o) = o := by
  have hle := lastLineStart_take_le source o
  rw [offsetAt, lineStarts_position h, position_eq h]
  show Text.lastLineStart (source.text.toList.take o) +
    (o - Text.lastLineStart (source.text.toList.take o) + 1) - 1 = o
  omega

/-- A longer front ends at a later position. -/
theorem position_before (hlt : i < j) (hj : j ≤ source.text.toList.length) :
    (source.position i).Before (source.position j) := by
  have hi : i ≤ source.text.toList.length := by omega
  have hle := lastLineStart_take_le source i
  have hfront : source.text.toList.take j =
      source.text.toList.take i ++ (source.text.toList.drop i).take (j - i) := by
    rw [← List.take_add]
    congr 1
    omega
  unfold Position.Before
  rw [position_eq hi, position_eq hj, hfront, List.count_append]
  dsimp only
  by_cases hnewline : '\n' ∈ (source.text.toList.drop i).take (j - i)
  · have hpos := List.count_pos_iff.mpr hnewline
    exact .inl (by omega)
  · rw [List.count_eq_zero.mpr hnewline, Text.lastLineStart_append hnewline]
    exact .inr ⟨rfl, by omega⟩

/-- A later offset has a later position, or the same one where both are outside of the text. -/
theorem position_eq_or_before (source : SourceText) {first second : Int} (h : first ≤ second) :
    source.position first = source.position second ∨
      (source.position first).Before (source.position second) := by
  have hclamped : source.clamp first ≤ source.clamp second := by
    unfold clamp
    omega
  rw [← position_clamp first, ← position_clamp second]
  rcases Nat.lt_or_eq_of_le hclamped with hlt | heq
  · exact .inr (position_before hlt clamp_le_length)
  · exact .inl (by rw [heq])

end SourceText

/-! ## Spans -/

/-- The position of the first character of a span. -/
def Span.first (span : Span) : Position where
  line := span.startLine.toNat
  column := span.startCol.toNat

/-- The position of the last character of a span. -/
def Span.last (span : Span) : Position where
  line := span.endLine.toNat
  column := span.endCol.toNat

/-- The numbers of a span count from 1, and it does not end in front of where it begins. -/
structure Span.Forward (span : Span) : Prop where
  one_le_start : 1 ≤ span.startLine ∧ 1 ≤ span.startCol
  one_le_end : 1 ≤ span.endLine ∧ 1 ≤ span.endCol
  start_le_end : span.startLine < span.endLine ∨
    span.startLine = span.endLine ∧ span.startCol ≤ span.endCol

namespace SourceText

variable {source : SourceText} {o n : Nat}

theorem one_le_position (source : SourceText) (offset : Int) :
    1 ≤ (source.position offset).line ∧ 1 ≤ (source.position offset).column := by
  have hle : source.clamp offset ≤ source.text.toList.length := clamp_le_length
  rw [← position_clamp, position_eq hle]
  exact ⟨Nat.le_add_left 1 _, Nat.le_add_left 1 _⟩

theorem span_first (offset length : Int) :
    (source.span offset length).first = source.position offset := rfl

theorem span_last (offset length : Int) :
    (source.span offset length).last = source.position (offset + max length 1 - 1) := rfl

/-- A span does not end in front of where it begins, wherever it is and whatever its length. -/
theorem span_forward (source : SourceText) (offset length : Int) :
    (source.span offset length).Forward := by
  obtain ⟨hline, hcolumn⟩ := one_le_position source offset
  obtain ⟨hline', hcolumn'⟩ := one_le_position source (offset + max length 1 - 1)
  refine ⟨⟨Int.ofNat_le.mpr hline, Int.ofNat_le.mpr hcolumn⟩,
    ⟨Int.ofNat_le.mpr hline', Int.ofNat_le.mpr hcolumn'⟩, ?_⟩
  have hordered : offset ≤ offset + max length 1 - 1 := by omega
  unfold span
  dsimp only
  rcases position_eq_or_before source hordered with heq | hless | ⟨hsame, hless⟩
  · rw [heq]
    exact .inr ⟨rfl, Int.le_refl _⟩
  · exact .inl (Int.ofNat_lt.mpr hless)
  · exact .inr ⟨congrArg Int.ofNat hsame, Int.ofNat_le.mpr (Nat.le_of_lt hless)⟩

/-- The span of some characters of the text leads back to the first and the last of them. -/
theorem offsetAt_span (hn : 0 < n) (h : o + n ≤ source.text.toList.length) :
    source.offsetAt (source.span o n).first = o ∧
      source.offsetAt (source.span o n).last + 1 = o + n := by
  have hlast : ((o : Int) + max (n : Int) 1 - 1) = ((o + n - 1 : Nat) : Int) := by omega
  rw [span_first, span_last, hlast, offsetAt_position (by omega), offsetAt_position (by omega)]
  exact ⟨rfl, by omega⟩

end SourceText

/-- The numbers of a range are counted from 0. -/
theorem Span.Forward.range_nonneg {span : Span} (h : span.Forward) :
    ∀ n ∈ (LanguageServer.Range.ofSpan span).numbers, 0 ≤ n := by
  obtain ⟨⟨hline, hcolumn⟩, ⟨hline', hcolumn'⟩, -⟩ := h
  intro n hn
  simp only [LanguageServer.Range.numbers, LanguageServer.Range.ofSpan, List.mem_cons,
    List.not_mem_nil, or_false] at hn
  rcases hn with rfl | rfl | rfl | rfl <;> omega

/-! ## Tokens -/

/-- A span leads back to the two ends of a token: to the offsets of its first and its last
character, at which the text has just these characters. -/
def SourceText.Encloses (source : SourceText) (span : Span) (token : Token) : Prop :=
  ∃ first last, token.text.toList.head? = some first ∧ token.text.toList.getLast? = some last ∧
    source.offsetAt span.first = token.offset ∧ source.text.toList[token.offset]? = some first ∧
    source.offsetAt span.last + 1 = token.stop ∧ source.text.toList[token.stop - 1]? = some last

theorem Segments.encloses {source : SourceText} {rules : List TokenRule} {start stop : Nat}
    {lexemes : List Lexeme} (h : Segments rules source.text.toList start lexemes stop)
    {token : Token} (hmem : token ∈ lexemes.filterMap Lexeme.token?) :
    source.Encloses (source.span token.offset token.text.length) token := by
  obtain ⟨htext, hne⟩ := h.token_text hmem
  have hlength : token.text.toList.length = token.text.length := String.length_toList
  have hpos : 0 < token.text.length := by
    rw [← hlength]
    exact List.length_pos_iff.mpr hne
  have hinside : token.offset + token.text.length ≤ source.text.toList.length := by
    have hcut := congrArg List.length htext
    rw [hlength, List.length_take, List.length_drop] at hcut
    omega
  -- the characters of the token are those of the text from its offset on
  have hchar : ∀ k, k < token.text.length →
      token.text.toList[k]? = source.text.toList[token.offset + k]? := by
    intro k hk
    rw [htext, List.getElem?_take_of_lt hk, List.getElem?_drop]
  obtain ⟨hfirst, hlast⟩ := SourceText.offsetAt_span hpos hinside
  have hstop : token.stop - 1 = token.offset + (token.text.length - 1) := by
    unfold Token.stop
    omega
  refine ⟨token.text.toList.head hne, token.text.toList.getLast hne, List.head?_eq_some_head hne,
    List.getLast?_eq_some_getLast hne, hfirst, ?_, hlast, ?_⟩
  · rw [← Nat.add_zero token.offset, ← hchar 0 hpos, ← List.head?_eq_getElem?,
      List.head?_eq_some_head hne]
  · rw [hstop, ← hchar _ (by omega), ← hlength, ← List.getLast?_eq_getElem?,
      List.getLast?_eq_some_getLast hne]

/-- **Offsets and positions are two ways to tell a place.** Any offset, moved into the text, is told
by the line feeds in front of it and the characters behind the last of them. Later offsets have
later positions, and a position leads back to its offset. So the span of a token that any rules cut
leads back to its first and its last character; and no span, whatever it is made of, runs backwards
or has a number below 1, nor its range one below 0. -/
theorem positions_exact (source : SourceText) :
    (∀ offset : Int, ∀ o : Nat, (o : Int) = max 0 (min offset source.text.toList.length) →
      source.position offset =
        { line := 1 + (source.text.toList.take o).count '\n'
          column := o - Text.lastLineStart (source.text.toList.take o) + 1 }) ∧
    (∀ i j : Nat, i < j → j ≤ source.text.toList.length →
      (source.position i).Before (source.position j)) ∧
    (∀ o : Nat, o ≤ source.text.toList.length → source.offsetAt (source.position o) = o) ∧
    (∀ rules aliases, ∀ token ∈ (Lexer.fresh source rules aliases).tokenize.2.tokens,
      source.Encloses (source.span token.offset token.text.length) token) ∧
    ∀ offset length : Int, (source.span offset length).Forward ∧
      ∀ n ∈ (LanguageServer.Range.ofSpan (source.span offset length)).numbers, 0 ≤ n := by
  refine ⟨fun offset o ho => ?_, fun i j => SourceText.position_before,
    fun o => SourceText.offsetAt_position, fun rules aliases token hmem => ?_,
    fun offset length => ?_⟩
  · have hclamp : source.clamp offset = o := by
      rw [SourceText.clamp, source.size_eq]
      omega
    have hle : o ≤ source.text.toList.length := hclamp ▸ SourceText.clamp_le_length
    rw [← SourceText.position_clamp, hclamp, SourceText.position_eq hle, Nat.add_comm 1]
  · obtain ⟨lexemes, stop, hsegments, -, hafter, -⟩ := Lexer.tokenize_fresh source rules aliases
    rw [hafter] at hmem
    exact hsegments.encloses hmem
  · have hforward := source.span_forward offset length
    exact ⟨hforward, hforward.range_nonneg⟩

/-- A string over two lines, behind a line that is empty. -/
theorem positions_exact_two_lines :
    (SourceText.ofText "\n \"a\nb\"" "main.cs").span 2 5 = ⟨"main.cs", 2, 2, 3, 2⟩ ∧
      (SourceText.ofText "\n \"a\nb\"" "main.cs").Encloses
        ((SourceText.ofText "\n \"a\nb\"" "main.cs").span 2 5) ⟨.string, "\"a\nb\"", 2⟩ := by
  have htoken : ⟨.string, "\"a\nb\"", 2⟩ ∈
      (Lexer.fresh (.ofText "\n \"a\nb\"" "main.cs") TokenRule.builtin
        .builtin).tokenize.2.tokens := by
    decide +kernel
  obtain ⟨-, -, -, htokens, -⟩ := positions_exact (.ofText "\n \"a\nb\"" "main.cs")
  exact ⟨by decide +kernel, htokens _ _ _ htoken⟩

end SharpSyntax
