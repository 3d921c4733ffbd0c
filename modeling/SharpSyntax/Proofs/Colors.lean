import Mathlib.Data.List.Forall2
import SharpSyntax.Renderer
import SharpSyntax.Text.Control

/-!
# Colours are nothing but control sequences

A rendering in colours has control sequences in places where the rendering without colours has
nothing. Taking the control sequences out of a text works from left to right: a control sequence
vanishes whatever stands behind it, and a character that is no escape character stays. So a text
that is put together from control sequences and from pieces without escape characters is freed of
the former, and the latter stay as they are.

Everything is therefore said of a pair of texts, one in colours and one without, with any text
behind them: such pairs can be joined, and a rendering is joined from them line by line.
-/

namespace SharpSyntax

namespace Text

variable {text rest : List Char}

/-! ## Control sequences -/

/-- A character that says more about what a control sequence does. -/
def IsParameter (c : Char) : Prop := '0' ≤ c ∧ c ≤ '?'

/-- A character between the parameters of a control sequence and its end. -/
def IsIntermediate (c : Char) : Prop := ' ' ≤ c ∧ c ≤ '/'

/-- A character that ends a control sequence. -/
def IsFinal (c : Char) : Prop := '@' ≤ c ∧ c ≤ '~'

instance : DecidablePred IsParameter := fun _ => inferInstanceAs (Decidable (_ ∧ _))

instance : DecidablePred IsIntermediate := fun _ => inferInstanceAs (Decidable (_ ∧ _))

instance : DecidablePred IsFinal := fun _ => inferInstanceAs (Decidable (_ ∧ _))

/-- One control sequence, from its escape character to its end. -/
def IsControl (sequence : List Char) : Prop :=
  ∃ parameters intermediates final,
    sequence = escapeChar :: '[' :: (parameters ++ (intermediates ++ [final])) ∧
      (∀ c ∈ parameters, IsParameter c) ∧ (∀ c ∈ intermediates, IsIntermediate c) ∧ IsFinal final

theorem IsIntermediate.not_isParameter {c : Char} (h : IsIntermediate c) : ¬IsParameter c :=
  fun h' => absurd (Char.le_trans h'.1 h.2) (by decide)

theorem IsFinal.not_isParameter {c : Char} (h : IsFinal c) : ¬IsParameter c :=
  fun h' => absurd (Char.le_trans h.1 h'.2) (by decide)

theorem IsFinal.not_isIntermediate {c : Char} (h : IsFinal c) : ¬IsIntermediate c :=
  fun h' => absurd (Char.le_trans h.1 h'.2) (by decide)

theorem isParameter_iff {c : Char} : ('0' ≤ c && c ≤ '?') = true ↔ IsParameter c := by
  simp [IsParameter]

theorem isIntermediate_iff {c : Char} : (' ' ≤ c && c ≤ '/') = true ↔ IsIntermediate c := by
  simp [IsIntermediate]

theorem dropWhile_append_of_head {test : Char → Bool}
    (htext : ∀ c ∈ text, test c = true) (hrest : ∀ c ∈ rest.head?, test c = false) :
    (text ++ rest).dropWhile test = rest := by
  rw [List.dropWhile_append_of_pos htext]
  cases rest with
  | nil => rfl
  | cons c more => exact List.dropWhile_cons_of_neg (by simp [hrest c rfl])

/-- What is taken out at the head of a text is a control sequence. -/
theorem exists_of_afterControl? (h : afterControl? text = some rest) :
    ∃ sequence, IsControl sequence ∧ text = sequence ++ rest := by
  unfold afterControl? at h
  split at h
  · next c body =>
    split at h
    · next hescape =>
      split at h
      · next final tail htail =>
        split at h
        · next hfinal =>
          cases h
          let parameters := body.takeWhile fun p => '0' ≤ p && p ≤ '?'
          let behind := body.dropWhile fun p => '0' ≤ p && p ≤ '?'
          let intermediates := behind.takeWhile fun i => ' ' ≤ i && i ≤ '/'
          refine ⟨_, ⟨parameters, intermediates, final, rfl, fun d hd => ?_, fun d hd => ?_,
            by simpa [IsFinal] using hfinal⟩, ?_⟩
          · exact isParameter_iff.mp (List.all_eq_true.mp List.all_takeWhile d hd)
          · exact isIntermediate_iff.mp (List.all_eq_true.mp List.all_takeWhile d hd)
          · rw [hescape, List.cons_append, List.cons_append, List.append_assoc,
              List.append_assoc, List.singleton_append, ← htail,
              List.takeWhile_append_dropWhile, List.takeWhile_append_dropWhile]
        · cases h
      · cases h
    · cases h
  · cases h

/-- The whole of a control sequence is taken out, and nothing of what stands behind it. -/
theorem IsControl.afterControl?_append {sequence : List Char} (h : IsControl sequence) :
    afterControl? (sequence ++ rest) = some rest := by
  obtain ⟨parameters, intermediates, final, rfl, hparameters, hintermediates, hfinal⟩ := h
  have hmiddle : (intermediates ++ final :: rest).dropWhile (fun i => ' ' ≤ i && i ≤ '/') =
      final :: rest := by
    refine dropWhile_append_of_head (fun c hc => isIntermediate_iff.mpr (hintermediates c hc)) ?_
    rintro _ ⟨⟩
    exact Bool.eq_false_iff.mpr fun h => hfinal.not_isIntermediate (isIntermediate_iff.mp h)
  have hfirst : (parameters ++ (intermediates ++ final :: rest)).dropWhile
      (fun p => '0' ≤ p && p ≤ '?') = intermediates ++ final :: rest := by
    refine dropWhile_append_of_head (fun c hc => isParameter_iff.mpr (hparameters c hc)) ?_
    -- the parameters end at an intermediate character or at the final one
    cases intermediates with
    | nil =>
        rintro _ ⟨⟩
        exact Bool.eq_false_iff.mpr fun h => hfinal.not_isParameter (isParameter_iff.mp h)
    | cons c others =>
        rintro _ ⟨⟩
        have hc := (hintermediates c List.mem_cons_self).not_isParameter
        exact Bool.eq_false_iff.mpr fun h => hc (isParameter_iff.mp h)
  rw [List.cons_append, List.cons_append, List.append_assoc, List.append_assoc,
    List.singleton_append, afterControl?, if_pos rfl, hfirst, hmiddle]
  simpa [IsFinal] using hfinal

/-! ## Taking control sequences out -/

theorem withoutControls_nil : withoutControls [] = [] := by rw [withoutControls]

/-- A control sequence vanishes, whatever stands behind it. -/
theorem withoutControls_control {sequence : List Char} (h : IsControl sequence) :
    withoutControls (sequence ++ rest) = withoutControls rest := by
  have hafter : afterControl? (sequence ++ rest) = some rest := h.afterControl?_append
  obtain ⟨parameters, intermediates, final, rfl, -⟩ := h
  rw [List.cons_append] at hafter ⊢
  rw [withoutControls]
  split
  · next heq => rw [hafter] at heq; cases heq; rfl
  · next heq => rw [hafter] at heq; cases heq

/-- A character that is no escape character stays. -/
theorem withoutControls_cons {c : Char} (h : c ≠ escapeChar) :
    withoutControls (c :: rest) = c :: withoutControls rest := by
  rw [withoutControls]
  split
  · next after hafter =>
    obtain ⟨_, ⟨_, _, _, rfl, -⟩, heq⟩ := exists_of_afterControl? hafter
    exact absurd (List.cons.inj heq).1 h
  · rfl

theorem withoutControls_append (h : escapeChar ∉ text) :
    withoutControls (text ++ rest) = text ++ withoutControls rest := by
  induction text with
  | nil => rfl
  | cons c text ih =>
      rw [List.mem_cons, not_or] at h
      rw [List.cons_append, withoutControls_cons (Ne.symm h.1), ih h.2, List.cons_append]

/-! ## Texts in colours and texts without -/

/-- There is no escape character in a text. -/
def NoEscape (text : String) : Prop := escapeChar ∉ text.toList

instance : DecidablePred NoEscape := fun _ => inferInstanceAs (Decidable (¬_))

/-- Freed of control sequences, the one text is the other, whatever stands behind them. -/
def Uncolors (colored bare : String) : Prop :=
  ∀ rest, withoutControls (colored.toList ++ rest) = bare.toList ++ withoutControls rest

namespace NoEscape

variable {first second : String}

theorem append (h : NoEscape first) (h' : NoEscape second) : NoEscape (first ++ second) := by
  unfold NoEscape
  rw [String.toList_append, List.mem_append, not_or]
  exact ⟨h, h'⟩

theorem pushn {c : Char} (hc : c ≠ escapeChar) (h : NoEscape first) (n : Nat) :
    NoEscape (first.pushn c n) := by
  rw [String.pushn_eq_repeat_push]
  induction n with
  | zero => exact h
  | succ n ih =>
      rw [Nat.repeat, NoEscape, String.toList_push, List.mem_append, not_or]
      exact ⟨ih, by simpa using hc.symm⟩

theorem natRepr (n : Nat) : NoEscape n.repr := by
  intro hmem
  rw [Nat.toList_repr] at hmem
  exact absurd (Nat.isDigit_of_mem_toDigits (by decide) (by decide) hmem) (by decide)

theorem intToString (n : Int) : NoEscape (toString n) := by
  cases n with
  | ofNat n => exact natRepr n
  | negSucc n => exact append (by decide) (natRepr (n + 1))

end NoEscape

namespace Uncolors

variable {colored bare colored' bare' : String}

theorem append (h : Uncolors colored bare) (h' : Uncolors colored' bare') :
    Uncolors (colored ++ colored') (bare ++ bare') := by
  intro rest
  rw [String.toList_append, String.toList_append, List.append_assoc, List.append_assoc, h, h']

/-- A text without escape characters is the same with and without colours. -/
theorem same (h : NoEscape bare) : Uncolors bare bare := fun _ => withoutControls_append h

/-- A text without escape characters may follow on both sides. -/
theorem append_same {text : String} (h : Uncolors colored bare) (htext : NoEscape text) :
    Uncolors (colored ++ text) (bare ++ text) :=
  h.append (same htext)

/-- In the place of a control sequence there is nothing. -/
theorem control (h : IsControl colored.toList) : Uncolors colored "" := fun _ =>
  withoutControls_control h

theorem plain_eq (h : Uncolors colored bare) : plain colored = bare := by
  have htext := h []
  rw [List.append_nil, withoutControls_nil, List.append_nil] at htext
  rw [plain, htext, String.ofList_toList]

theorem intercalate {separator : String} (hseparator : NoEscape separator)
    {lines lines' : List String}
    (h : List.Forall₂ Uncolors lines lines') :
    Uncolors (separator.intercalate lines) (separator.intercalate lines') := by
  induction h with
  | nil => exact fun _ => rfl
  | @cons _ _ rest rest' hline hrest ih =>
      cases hrest with
      | nil => rwa [String.intercalate_singleton, String.intercalate_singleton]
      | cons hnext hrest =>
          rw [String.intercalate_cons_cons, String.intercalate_cons_cons]
          have hstart := hline.append_same hseparator
          exact hstart.append ih

end Uncolors

end Text

/-! ## Renderings -/

open Text

namespace Palette

/-- A control sequence that says how characters look has parameters only. -/
theorem uncolors_style {code : String} (parameters : List Char)
    (hcode : code.toList = escapeChar :: '[' :: (parameters ++ ['m']))
    (h : ∀ c ∈ parameters, IsParameter c) : Uncolors code "" :=
  .control ⟨parameters, [], 'm', hcode, h, nofun, by decide⟩

theorem uncolors_severity (severity : Severity) :
    Uncolors (colored.severity severity) (plain.severity severity) := by
  cases severity with
  | error => exact uncolors_style ['1', ';', '3', '1'] rfl (by simp [IsParameter])
  | warning => exact uncolors_style ['1', ';', '3', '3'] rfl (by simp [IsParameter])
  | note => exact uncolors_style ['1', ';', '3', '6'] rfl (by simp [IsParameter])

theorem uncolors_bold : Uncolors colored.bold plain.bold :=
  uncolors_style ['1'] rfl (by simp [IsParameter])

theorem uncolors_blue : Uncolors colored.blue plain.blue :=
  uncolors_style ['1', ';', '3', '4'] rfl (by simp [IsParameter])

theorem uncolors_reset : Uncolors colored.reset plain.reset :=
  uncolors_style ['0'] rfl (by simp [IsParameter])

/-- The sign that a line starts with, in the colour of gutters. -/
theorem uncolors_blue_sign {sign : String} (h : NoEscape sign) :
    Uncolors ("  " ++ colored.blue ++ sign) ("  " ++ plain.blue ++ sign) := by
  have hindent : Uncolors "  " "  " := .same (by decide)
  have hblue := hindent.append uncolors_blue
  exact hblue.append_same h

theorem uncolors_gutter {text : String} (h : NoEscape text) :
    Uncolors s!"  {colored.blue}{text} |{colored.reset}"
      s!"  {plain.blue}{text} |{plain.reset}" := by
  have hnumber := uncolors_blue_sign h
  have hbar := hnumber.append_same (show NoEscape " |" by decide)
  exact hbar.append uncolors_reset

/-- A text in the colour of the severity at the end of a line. -/
theorem uncolors_marked {before before' text : String} (severity : Severity)
    (hbefore : Uncolors before before') (h : NoEscape text) :
    Uncolors (before ++ colored.severity severity ++ text ++ colored.reset)
      (before' ++ plain.severity severity ++ text ++ plain.reset) := by
  have hcolor := hbefore.append (uncolors_severity severity)
  have htext := hcolor.append_same h
  exact htext.append uncolors_reset

/-- Two texts behind a sign in the colour of gutters. -/
theorem uncolors_signed {sign lead text : String} (hsign : NoEscape sign) (hlead : NoEscape lead)
    (h : NoEscape text) :
    Uncolors ("  " ++ colored.blue ++ sign ++ colored.reset ++ lead ++ text)
      ("  " ++ plain.blue ++ sign ++ plain.reset ++ lead ++ text) := by
  have hstart := uncolors_blue_sign hsign
  have hreset := hstart.append uncolors_reset
  have hled := hreset.append_same hlead
  exact hled.append_same h

end Palette

theorem gutterNumber_noEscape (n : Int) : NoEscape (gutterNumber n) :=
  .append (.pushn (by decide) (by decide) _) (.intToString n)

/-- Nothing that is shown of a label has an escape character in it: neither the name of its file,
nor a line of the file, nor its message. -/
structure Label.EscapeFree (lines : List String) (label : Label) : Prop where
  file : NoEscape label.span.file
  lines : ∀ line ∈ lines, NoEscape line
  message : NoEscape label.message

theorem Span.location_noEscape {span : Span} (h : NoEscape span.file) :
    NoEscape span.location := by
  have hcolon : NoEscape ":" := by decide
  have hline := (h.append hcolon).append (.intToString span.startLine)
  exact (hline.append hcolon).append (.intToString span.startCol)

open Palette in
theorem Label.render_uncolors {lines : LineSource} {label : Label} (severity : Severity)
    (h : label.EscapeFree (lines label.span.file)) :
    List.Forall₂ Uncolors (label.render colored lines severity)
      (label.render plain lines severity) := by
  have hlocation : NoEscape label.span.location := Span.location_noEscape h.file
  have hblank := uncolors_gutter (show NoEscape "  " by decide)
  have hmargin : NoEscape ("".pushn ' ' (label.span.startCol - 1).toNat) :=
    .pushn (by decide) (by decide) _
  have hmarks : ∀ n, NoEscape ("".pushn '^' n) := fun n => .pushn (by decide) (by decide) n
  unfold Label.render
  dsimp only
  have hspace : NoEscape " " := by decide
  -- the line of the place and a blank one, the line shown, the marks below it, and the message
  refine List.rel_append (List.rel_append (List.rel_append ?_ ?_) ?_) ?_
  · have harrow := uncolors_signed (show NoEscape "-->" by decide) hspace hlocation
    exact .cons harrow (.cons hblank .nil)
  · split
    · split
      · next line hline =>
        have hnumber := uncolors_gutter (gutterNumber_noEscape label.span.startLine)
        have hgap := hnumber.append_same hspace
        have hshown := hgap.append_same (h.lines line (List.mem_of_getElem? hline))
        exact .cons hshown .nil
      · exact .nil
    · exact .nil
  · split
    · have hgap := hblank.append_same hspace
      have hbefore := hgap.append_same hmargin
      exact .cons (uncolors_marked severity hbefore (hmarks _)) .nil
    · exact .nil
  · split
    · exact .nil
    · have hgap := hblank.append_same (show NoEscape "   " by decide)
      exact .cons (uncolors_marked severity hgap h.message) .nil

/-- Nothing that is shown of a diagnostic has an escape character in it: neither its code, nor its
message, nor what is shown of its labels with the lines of their files, nor its notes. -/
structure Diagnostic.EscapeFree (lines : LineSource) (diagnostic : Diagnostic) : Prop where
  code : NoEscape diagnostic.code
  message : NoEscape diagnostic.message
  labels : ∀ label ∈ diagnostic.labels, label.EscapeFree (lines label.span.file)
  notes : ∀ note ∈ diagnostic.notes, NoEscape note

open Palette in
theorem Diagnostic.render_uncolors {lines : LineSource} {diagnostic : Diagnostic}
    (h : diagnostic.EscapeFree lines) :
    Uncolors (diagnostic.render colored lines) (diagnostic.render plain lines) := by
  have hword : NoEscape diagnostic.severity.word := by cases diagnostic.severity <;> decide
  -- the heading, what is shown of the labels, and the notes
  refine .intercalate (by decide) (List.rel_append (.cons ?_ ?_) ?_)
  · refine Uncolors.append ?_ ?_
    · have hseverity := (uncolors_severity diagnostic.severity).append_same hword
      have hopen := hseverity.append_same (show NoEscape "[" by decide)
      have hcode := hopen.append_same h.code
      have hclose := hcode.append_same (show NoEscape "]" by decide)
      exact hclose.append uncolors_reset
    · have hcolon := uncolors_bold.append_same (show NoEscape ": " by decide)
      have hmessage := hcolon.append_same h.message
      exact hmessage.append uncolors_reset
  · rw [List.flatMap_def, List.flatMap_def]
    refine List.rel_flatten ?_
    rw [List.forall₂_map_left_iff, List.forall₂_map_right_iff, List.forall₂_same]
    exact fun label hlabel => Label.render_uncolors _ (h.labels label hlabel)
  · rw [List.forall₂_map_left_iff, List.forall₂_map_right_iff, List.forall₂_same]
    intro note hnote
    have hequals : NoEscape "=" := by decide
    have hword : NoEscape " note: " := by decide
    exact uncolors_signed hequals hword (h.notes note hnote)

namespace Renderer

/-- A renderer with or without colours. -/
def withColor (renderer : Renderer) (color : Bool) : Renderer := { renderer with color := color }

/-- Nothing that a renderer shows of a diagnostic has an escape character in it. The lines are those
that the renderer knows, or else those of the file. -/
structure ShowsNoEscape (renderer : Renderer) (diagnostic : Diagnostic) : Prop where
  code : NoEscape diagnostic.code
  message : NoEscape diagnostic.message
  files : ∀ label ∈ diagnostic.labels, NoEscape label.span.file
  lines : ∀ label ∈ diagnostic.labels, ∀ lines, renderer.linesOf label.span.file = .ok lines →
    ∀ line ∈ lines, NoEscape line
  texts : ∀ label ∈ diagnostic.labels, NoEscape label.message
  notes : ∀ note ∈ diagnostic.notes, NoEscape note

/-- What is read for a list, entry by entry, was read for one of its entries. -/
theorem exists_of_mem_mapM {α β ε : Type} {read : α → Except ε β} {items : List α} {found : List β}
    (h : items.mapM read = .ok found) {b : β} (hb : b ∈ found) : ∃ a ∈ items, read a = .ok b := by
  induction items generalizing found with
  | nil => cases h; cases hb
  | cons a items ih =>
      rw [List.mapM_cons] at h
      cases hfirst : read a with
      | error e => rw [hfirst] at h; cases h
      | ok first =>
          cases hrest : items.mapM read with
          | error e => rw [hfirst, hrest] at h; cases h
          | ok rest =>
              rw [hfirst, hrest] at h
              cases h
              rcases List.mem_cons.mp hb with rfl | hb
              · exact ⟨a, List.mem_cons_self, hfirst⟩
              · obtain ⟨other, hmem, hother⟩ := ih hrest hb
                exact ⟨other, List.mem_cons_of_mem a hmem, hother⟩

/-- The files that the labels of a diagnostic point to, with their lines. -/
def knownLines (renderer : Renderer) (diagnostic : Diagnostic) :
    Except FileError (List (String × List String)) :=
  diagnostic.labels.mapM fun label => return (label.span.file, ← renderer.linesOf label.span.file)

/-- The lines of a file among the files that are known. -/
def lineSource (known : List (String × List String)) : LineSource := fun name =>
  ((known.find? (·.1 = name)).map (·.2)).getD []

theorem render_eq (renderer : Renderer) (diagnostic : Diagnostic) :
    renderer.render diagnostic = (renderer.knownLines diagnostic).map fun known =>
      diagnostic.render (.choose renderer.color) (lineSource known) := by
  cases hknown : renderer.knownLines diagnostic with
  | error e => exact congrArg (· >>= _) hknown
  | ok known => exact congrArg (· >>= _) hknown

/-- What is shown of a file are lines that the renderer has of it. -/
theorem linesOf_of_mem {renderer : Renderer} {diagnostic : Diagnostic}
    {known : List (String × List String)} (hknown : renderer.knownLines diagnostic = .ok known)
    {name line : String} (hline : line ∈ lineSource known name) :
    ∃ lines, renderer.linesOf name = .ok lines ∧ line ∈ lines := by
  unfold lineSource at hline
  cases hfound : known.find? (·.1 = name) with
  | none => rw [hfound] at hline; cases hline
  | some entry =>
      rw [hfound] at hline
      have hname : entry.1 = name := by simpa using List.find?_some hfound
      obtain ⟨label, -, hread⟩ := exists_of_mem_mapM hknown (List.mem_of_find?_eq_some hfound)
      cases hlines : renderer.linesOf label.span.file with
      | error e => rw [hlines] at hread; cases hread
      | ok lines =>
          rw [hlines] at hread
          cases hread
          exact ⟨lines, hname ▸ hlines, hline⟩

theorem ShowsNoEscape.escapeFree {renderer : Renderer} {diagnostic : Diagnostic}
    (h : renderer.ShowsNoEscape diagnostic) {known : List (String × List String)}
    (hknown : renderer.knownLines diagnostic = .ok known) :
    diagnostic.EscapeFree (lineSource known) where
  code := h.code
  message := h.message
  labels label hlabel := {
    file := h.files label hlabel
    lines := fun line hline => by
      obtain ⟨lines, hlines, hmem⟩ := linesOf_of_mem hknown hline
      exact h.lines label hlabel lines hlines line hmem
    message := h.texts label hlabel }
  notes := h.notes

/-- **Colours are nothing but control sequences.** Where nothing that is shown of a diagnostic has
an escape character in it, taking the control sequences out of its rendering in colours gives its
rendering without colours; and the one can be had just if the other can. -/
theorem plain_render (renderer : Renderer) {diagnostic : Diagnostic}
    (h : renderer.ShowsNoEscape diagnostic) :
    ((renderer.withColor true).render diagnostic).map Text.plain =
      (renderer.withColor false).render diagnostic := by
  rw [render_eq, render_eq]
  -- the lines of the files do not depend on the colours
  change ((renderer.knownLines diagnostic).map _).map _ = (renderer.knownLines diagnostic).map _
  cases hknown : renderer.knownLines diagnostic with
  | error e => rfl
  | ok known =>
      exact congrArg Except.ok (Diagnostic.render_uncolors (h.escapeFree hknown)).plain_eq

/-- A warning with two labels, one in a text that was added and one in a file that is not there, and
with a note. -/
theorem plain_render_two_labels :
    let renderer := (Renderer.new true ⟨"", [], []⟩).addSource (.ofText "a;\n)b" "main.cs")
    let diagnostic : Diagnostic :=
      { severity := .warning
        code := "E201"
        message := "Unexpected token"
        labels := [⟨⟨"main.cs", 2, 1, 2, 2⟩, "here [31m", .primary⟩,
          ⟨⟨"other.cs", 7, 1, 9, 1⟩, "", .secondary⟩]
        notes := ["nothing opened it"]
        offset := 3 }
    renderer.ShowsNoEscape diagnostic ∧
      ((renderer.withColor true).render diagnostic).map Text.plain =
        (renderer.withColor false).render diagnostic ∧
      ((renderer.withColor true).render diagnostic).toOption ≠
        ((renderer.withColor false).render diagnostic).toOption := by
  intro renderer diagnostic
  have h : renderer.ShowsNoEscape diagnostic := by
    refine ⟨by decide, by decide, by decide, ?_, by decide, by decide⟩
    have hother : renderer.linesOf "other.cs" = .ok [] := by decide +kernel
    simp only [diagnostic, List.forall_mem_cons]
    refine ⟨fun lines hlines => ?_, fun lines hlines => ?_, nofun⟩
    · cases hlines
      decide
    · rw [hother] at hlines
      cases hlines
      decide
  exact ⟨h, plain_render renderer h, by decide +kernel⟩

end Renderer

end SharpSyntax
