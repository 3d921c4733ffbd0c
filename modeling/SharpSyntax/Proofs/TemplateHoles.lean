import SharpSyntax.Grammar.Expressions
import SharpSyntax.Proofs.Meets
import SharpSyntax.Proofs.Segments
import SharpSyntax.Proofs.TokenReadBack

/-!
# Holes of a template

The holes of a template are found twice. The lexer steps through the template to find its end and
takes escapes, holes and plain characters, one after the other. The parser reads the finished text
once more and takes every opening brace up to the next closing one, without regard to escapes.

Both come past the same places: whatever the lexer steps over, it stands behind the first closing
brace that follows. So a brace that the lexer took as plain has no closing brace behind it in the
text, and the parser finds no hole there either. What the two disagree about are **escaped** opening
braces: the parser begins a hole at one, and there is such a hole just where a closing brace
follows. It ends where the lexer may have ended a hole too, but is longer than that one, so that the
two lists of holes are never the same by accident.
-/

namespace SharpSyntax

open Grammar

/-! ## Two ways to find holes -/

namespace TemplatePart

/-- The characters of the hole that a part is. -/
def holeChars? : TemplatePart → Option (List Char)
  | .hole text => some ('{' :: text ++ ['}'])
  | _ => none

/-- An opening brace is escaped, and a closing brace stands anywhere behind it. -/
inductive Strays : List TemplatePart → Prop
  | here {later : List TemplatePart} : '}' ∈ later.flatMap chars → Strays (.escape '{' :: later)
  | behind {part : TemplatePart} {later : List TemplatePart} : Strays later →
      Strays (part :: later)

/-- Parts as the lexer finds them: a hole holds no closing brace, and an opening brace is a plain
character only where no closing brace stands behind it in the template. -/
inductive Found : List TemplatePart → Prop
  | nil : Found []
  | escape {c : Char} {later : List TemplatePart} : Found later → Found (.escape c :: later)
  | hole {inner : List Char} {later : List TemplatePart} : '}' ∉ inner → Found later →
      Found (.hole inner :: later)
  | brace {later : List TemplatePart} : '}' ∉ later.flatMap chars → Found later →
      Found (.char '{' :: later)
  | plain {c : Char} {later : List TemplatePart} : c ≠ '{' → Found later →
      Found (.char c :: later)

end TemplatePart

open TemplatePart

variable {text rest pre after : List Char} {parts more later front back : List TemplatePart}
  {part : TemplatePart} {c : Char}

/-! ## What the lexer finds -/

/-- One step of the lexer through the inside of a template. It takes an opening brace as a plain
character only if there is no end of the template behind the hole that the brace could begin. -/
inductive TemplateStep : List Char → TemplatePart → List Char → Prop
  | escape {c : Char} {rest : List Char} : TemplateStep ('\\' :: c :: rest) (.escape c) rest
  | hole {inner rest : List Char} : '}' ∉ inner →
      TemplateStep ('{' :: inner ++ '}' :: rest) (.hole inner) rest
  | char {c : Char} {rest : List Char} :
      (c = '{' → ∀ inner after, rest = inner ++ '}' :: after → '}' ∉ inner →
        Scan.templateParts after = none) → TemplateStep (c :: rest) (.char c) rest

theorem takeWhile_brace (h : '}' ∉ pre) : (pre ++ '}' :: after).takeWhile (· ≠ '}') = pre := by
  refine takeWhile_append_of_head (fun c hc => ?_) (fun c hc => ?_)
  · rw [decide_eq_true_eq]
    rintro rfl
    exact h hc
  · cases hc
    rfl

/-- The text in front of a first closing brace and the text behind it are told by the whole text. -/
theorem brace_inj {pre' after' : List Char} (h : '}' ∉ pre) (h' : '}' ∉ pre')
    (heq : pre ++ '}' :: after = pre' ++ '}' :: after') : pre = pre' ∧ after = after' := by
  have hpre : pre = pre' := by
    calc pre = (pre ++ '}' :: after).takeWhile (· ≠ '}') := (takeWhile_brace h).symm
      _ = (pre' ++ '}' :: after').takeWhile (· ≠ '}') := by rw [heq]
      _ = pre' := takeWhile_brace h'
  subst hpre
  exact ⟨rfl, (List.cons.inj (List.append_cancel_left heq)).2⟩

theorem dropWhile_brace (h : '}' ∉ pre) :
    (pre ++ '}' :: after).dropWhile (· ≠ '}') = '}' :: after := by
  have hsplit := List.takeWhile_append_dropWhile (p := (· ≠ '}')) (l := pre ++ '}' :: after)
  rw [takeWhile_brace h] at hsplit
  exact List.append_cancel_left hsplit

/-- What a search for a closing brace leaves begins with the first one. -/
theorem dropWhile_eq_cons {brace : Char} (h : rest.dropWhile (· ≠ '}') = brace :: after) :
    rest = rest.takeWhile (· ≠ '}') ++ '}' :: after ∧ '}' ∉ rest.takeWhile (· ≠ '}') := by
  have hbrace : brace = '}' := by
    have hstops := List.head?_dropWhile_not (· ≠ '}') rest
    rw [h] at hstops
    simpa using hstops
  refine ⟨?_, fun hmem => ?_⟩
  · have hsplit := List.takeWhile_append_dropWhile (p := (· ≠ '}')) (l := rest)
    rw [h, hbrace] at hsplit
    exact hsplit.symm
  · exact absurd (List.all_eq_true.mp List.all_takeWhile _ hmem) (by decide)

/-- What the lexer finds in a template is nothing, in front of the closing quote, or what one step
takes and what is found behind it. -/
theorem templateParts_inv (h : Scan.templateParts text = some parts) :
    (parts = [] ∧ ∃ rest, text = '"' :: rest) ∨
      ∃ part more rest, parts = part :: more ∧ TemplateStep text part rest ∧
        Scan.templateParts rest = some more := by
  rw [Scan.templateParts.eq_def] at h
  split at h
  · cases h
  · cases h
    exact .inl ⟨rfl, _, rfl⟩
  · next c rest =>
    split at h
    · cases h
    · obtain ⟨more, hmore, rfl⟩ := Option.map_eq_some_iff.mp h
      exact .inr ⟨_, more, rest, rfl, .escape, hmore⟩
  · cases h
  · next rest =>
    split at h
    · next brace after hafter =>
      obtain ⟨hsplit, hinner⟩ := dropWhile_eq_cons hafter
      split at h
      · next more hmore =>
        cases h
        refine .inr ⟨_, more, after, rfl, ?_, hmore⟩
        have hstep : TemplateStep ('{' :: rest.takeWhile (· ≠ '}') ++ '}' :: after) _ after :=
          .hole hinner
        rwa [List.cons_append, ← hsplit] at hstep
      · next hnone =>
        obtain ⟨more, hmore, rfl⟩ := Option.map_eq_some_iff.mp h
        refine .inr ⟨_, more, rest, rfl, .char fun _ inner after' hrest hinner' => ?_, hmore⟩
        obtain ⟨-, rfl⟩ := brace_inj hinner hinner' (hsplit.symm.trans hrest)
        exact hnone
    · next hnone =>
      obtain ⟨more, hmore, rfl⟩ := Option.map_eq_some_iff.mp h
      refine .inr ⟨_, more, rest, rfl, .char fun _ inner after' hrest hinner' => ?_, hmore⟩
      rw [hrest, dropWhile_brace hinner'] at hnone
      cases hnone
  · next c rest _ _ _ hbrace =>
    obtain ⟨more, hmore, rfl⟩ := Option.map_eq_some_iff.mp h
    exact .inr ⟨_, more, rest, rfl, .char fun hc => absurd hc hbrace, hmore⟩

theorem TemplateStep.text_eq (h : TemplateStep text part rest) : text = part.chars ++ rest := by
  cases h with
  | escape => rfl
  | hole _ => rw [chars, List.append_assoc, List.singleton_append]
  | char _ => rfl

theorem TemplateStep.brace_not_mem (h : TemplateStep text part rest) :
    ∀ inner, part = .hole inner → '}' ∉ inner := by
  rintro inner rfl
  cases h with
  | hole hinner => exact hinner

/-- A part that has a closing brace ends with it. -/
theorem chars_of_mem (hinner : ∀ inner, part = .hole inner → '}' ∉ inner)
    (h : '}' ∈ part.chars) : ∃ init, part.chars = init ++ ['}'] ∧ '}' ∉ init := by
  cases part with
  | escape c =>
      have hc : c = '}' := by simpa [chars, eq_comm] using h
      exact ⟨['\\'], by rw [hc]; rfl, by decide⟩
  | hole inner =>
      refine ⟨'{' :: inner, rfl, ?_⟩
      rw [List.mem_cons, not_or]
      exact ⟨by decide, hinner inner rfl⟩
  | char c =>
      have hc : c = '}' := by simpa [chars, eq_comm] using h
      exact ⟨[], by rw [hc]; rfl, List.not_mem_nil⟩

/-- What is found in a template is a front of the text, with the closing quote behind it. -/
theorem templateParts_text (h : Scan.templateParts text = some parts) :
    ∃ rest, text = parts.flatMap chars ++ '"' :: rest := by
  induction parts generalizing text with
  | nil =>
      rcases templateParts_inv h with ⟨-, rest, rfl⟩ | ⟨_, _, _, hcons, -⟩
      · exact ⟨rest, rfl⟩
      · cases hcons
  | cons part more ih =>
      rcases templateParts_inv h with ⟨hnil, -⟩ | ⟨_, _, rest, hcons, hstep, hmore⟩
      · cases hnil
      · cases hcons
        obtain ⟨behind, rfl⟩ := ih hmore
        exact ⟨behind, by rw [hstep.text_eq, List.flatMap_cons, List.append_assoc]⟩

/-- The lexer comes past the first closing brace of a template, whatever it takes it for. -/
theorem templateParts_behind_brace (h : Scan.templateParts (pre ++ '}' :: after) = some parts)
    (hpre : '}' ∉ pre) (hmem : '}' ∈ parts.flatMap chars) :
    ∃ more, Scan.templateParts after = some more := by
  induction parts generalizing pre with
  | nil => cases hmem
  | cons part more ih =>
      rcases templateParts_inv h with ⟨hnil, -⟩ | ⟨_, _, rest, hcons, hstep, hmore⟩
      · cases hnil
      cases hcons
      have htext := hstep.text_eq
      by_cases hpart : '}' ∈ part.chars
      · obtain ⟨init, hinit, hnot⟩ := chars_of_mem hstep.brace_not_mem hpart
        rw [hinit, List.append_assoc, List.singleton_append] at htext
        obtain ⟨-, rfl⟩ := brace_inj hpre hnot htext
        exact ⟨more, hmore⟩
      · -- the brace is behind the part
        have hlater : '}' ∈ more.flatMap chars := by
          rw [List.flatMap_cons, List.mem_append] at hmem
          exact hmem.resolve_left hpart
        rcases List.append_eq_append_iff.mp htext with ⟨gap, hgap, hrest⟩ | ⟨gap, hgap, hrest⟩
        · cases gap with
          | nil =>
              have hmore' : Scan.templateParts ([] ++ '}' :: after) = some more := hrest ▸ hmore
              exact ih hmore' List.not_mem_nil hlater
          | cons brace gap =>
              obtain rfl : '}' = brace := (List.cons.inj hrest).1
              exact absurd (hgap ▸ List.mem_append_right _ List.mem_cons_self) hpart
        · subst hrest
          exact ih hmore (fun hgap' => hpre (hgap ▸ List.mem_append_right _ hgap')) hlater

theorem found_of_templateParts (h : Scan.templateParts text = some parts) : Found parts := by
  induction parts generalizing text with
  | nil => exact .nil
  | cons part more ih =>
      rcases templateParts_inv h with ⟨hnil, -⟩ | ⟨_, _, rest, hcons, hstep, hmore⟩
      · cases hnil
      cases hcons
      have hfound := ih hmore
      cases hstep with
      | escape => exact .escape hfound
      | hole hinner => exact .hole hinner hfound
      | @char c _ hnone =>
          by_cases hc : c = '{'
          · subst hc
            refine .brace (fun hmem => ?_) hfound
            -- behind the hole that the brace could begin the lexer would have come to the end
            obtain ⟨tail, htail⟩ := templateParts_text hmore
            obtain ⟨inner, after, hsplit, hinner⟩ :=
              List.eq_append_cons_of_mem (htail ▸ List.mem_append_left _ hmem : '}' ∈ rest)
            have hends := hnone rfl inner after hsplit hinner
            obtain ⟨_, hlater⟩ := templateParts_behind_brace (hsplit ▸ hmore) hinner hmem
            rw [hends] at hlater
            cases hlater
          · exact .plain hc hfound

/-! ## What the parser finds -/

theorem templateHoles_of_ne (h : c ≠ '{') : templateHoles (c :: rest) = templateHoles rest := by
  rw [templateHoles.eq_def]
  exact if_neg h

theorem templateHoles_brace (h : '}' ∉ pre) : templateHoles ('{' :: pre ++ '}' :: rest) =
    ('{' :: pre ++ ['}']) :: templateHoles rest := by
  rw [List.cons_append, templateHoles.eq_def]
  simp only [if_true]
  split
  · next hafter =>
    rw [dropWhile_brace h] at hafter
    cases hafter
    rw [takeWhile_brace h]
  · next hnone =>
    rw [dropWhile_brace h] at hnone
    cases hnone

/-- Without a closing brace there is no hole. -/
theorem templateHoles_eq_nil (h : '}' ∉ text) : templateHoles text = [] := by
  fun_induction templateHoles text with
  | case1 => rfl
  | case2 rest brace after hafter _ =>
      rw [(dropWhile_eq_cons hafter).1] at h
      simp at h
  | case3 rest _ ih => exact ih (List.not_mem_of_not_mem_cons h)
  | case4 c rest _ ih => exact ih (List.not_mem_of_not_mem_cons h)

/-- The characters of the holes that the lexer finds. -/
def holesOf (parts : List TemplatePart) : List (List Char) := parts.filterMap holeChars?

/-- The text of a template behind its opening quote. -/
def closed (parts : List TemplatePart) : List Char := parts.flatMap chars ++ ['"']

theorem holesOf_eq_nil (h : '}' ∉ parts.flatMap chars) : holesOf parts = [] := by
  refine List.filterMap_eq_nil_iff.mpr fun part hpart => ?_
  cases part with
  | hole inner =>
      refine absurd (List.mem_flatMap.mpr ⟨_, hpart, ?_⟩) h
      exact List.mem_append_right _ List.mem_cons_self
  | escape => rfl
  | char => rfl

theorem brace_not_mem_closed (h : '}' ∉ parts.flatMap chars) : '}' ∉ closed parts := by
  rw [closed, List.mem_append, not_or]
  exact ⟨h, by decide⟩

theorem templateHoles_escape (hc : c ≠ '{') :
    templateHoles (closed (.escape c :: later)) = templateHoles (closed later) :=
  (templateHoles_of_ne (by decide)).trans (templateHoles_of_ne hc)

theorem templateHoles_hole (h : '}' ∉ pre) : templateHoles (closed (.hole pre :: later)) =
    ('{' :: pre ++ ['}']) :: templateHoles (closed later) := by
  have hshape : closed (.hole pre :: later) = '{' :: pre ++ '}' :: closed later := by
    simp [closed, chars]
  rw [hshape, templateHoles_brace h]

theorem templateHoles_char (hc : c ≠ '{') :
    templateHoles (closed (.char c :: later)) = templateHoles (closed later) :=
  templateHoles_of_ne hc

/-- Where no escaped brace strays, the parser finds the holes of the lexer. -/
theorem templateHoles_closed (h : Found parts) (hstrays : ¬ Strays parts) :
    templateHoles (closed parts) = holesOf parts := by
  induction h with
  | nil => exact templateHoles_eq_nil (by decide)
  | @escape c later _ ih =>
      by_cases hc : c = '{'
      · have hnone : '}' ∉ later.flatMap chars := fun hmem => hstrays (hc ▸ .here hmem)
        have hrest : '}' ∉ closed (.escape c :: later) := brace_not_mem_closed (by
          simpa [chars, hc] using hnone)
        rw [templateHoles_eq_nil hrest]
        exact (holesOf_eq_nil hnone).symm
      · rw [templateHoles_escape hc, ih fun hlater => hstrays (.behind hlater)]
        rfl
  | @hole inner later hinner _ ih =>
      rw [templateHoles_hole hinner, ih fun hlater => hstrays (.behind hlater)]
      rfl
  | @brace later hnone _ _ =>
      have hrest : '}' ∉ closed (.char '{' :: later) := brace_not_mem_closed (by
        simpa [chars] using hnone)
      rw [templateHoles_eq_nil hrest]
      exact (holesOf_eq_nil hnone).symm
  | @plain c later hc _ ih =>
      rw [templateHoles_char hc, ih fun hlater => hstrays (.behind hlater)]
      rfl

/-! ### A stray brace makes holes longer -/

theorem TemplatePart.Found.tail (h : Found (part :: later)) : Found later := by
  cases h with
  | escape h => exact h
  | hole _ h => exact h
  | brace _ h => exact h
  | plain _ h => exact h

theorem TemplatePart.Found.brace_not_mem (h : Found (part :: later)) :
    ∀ inner, part = .hole inner → '}' ∉ inner := by
  rintro inner rfl
  cases h with
  | hole hinner _ => exact hinner

theorem TemplatePart.Strays.brace_mem (h : Strays parts) : '}' ∈ parts.flatMap chars := by
  induction h with
  | here hmem => exact List.mem_append_right _ hmem
  | behind _ ih => exact List.mem_append_right _ ih

theorem length_holesOf_le (parts : List TemplatePart) :
    (holesOf parts).flatten.length ≤ (parts.flatMap chars).length := by
  induction parts with
  | nil => exact Nat.le_refl 0
  | cons part later ih =>
      rw [List.flatMap_cons, List.length_append]
      cases part with
      | hole inner =>
          show (chars (.hole inner) ++ (holesOf later).flatten).length ≤ _
          rw [List.length_append]
          exact Nat.add_le_add_left ih _
      | escape c => exact Nat.le_trans ih (Nat.le_add_left _ _)
      | char c => exact Nat.le_trans ih (Nat.le_add_left _ _)

/-- The first closing brace behind a place of a template ends one of its parts. -/
theorem TemplatePart.Found.split_at_brace (h : Found parts) (hmem : '}' ∈ parts.flatMap chars) :
    ∃ front back init, parts = front ++ back ∧ front.flatMap chars = init ++ ['}'] ∧
      '}' ∉ init ∧ Found back := by
  induction parts with
  | nil => cases hmem
  | cons part later ih =>
      by_cases hpart : '}' ∈ part.chars
      · obtain ⟨init, hinit, hnot⟩ := chars_of_mem h.brace_not_mem hpart
        refine ⟨[part], later, init, rfl, ?_, hnot, h.tail⟩
        rw [List.flatMap_cons, List.flatMap_nil, List.append_nil, hinit]
      · rw [List.flatMap_cons, List.mem_append] at hmem
        obtain ⟨front, back, init, rfl, hfront, hnot, hback⟩ :=
          ih h.tail (hmem.resolve_left hpart)
        refine ⟨part :: front, back, part.chars ++ init, rfl, ?_, ?_, hback⟩
        · rw [List.flatMap_cons, hfront, List.append_assoc]
        · rw [List.mem_append, not_or]
          exact ⟨hpart, hnot⟩

/-- At an escaped brace the parser takes a hole that is longer than what the lexer took as holes up
to where it ends. -/
theorem length_holesOf_lt_of_here (h : Found later) (hmem : '}' ∈ later.flatMap chars)
    (hle : ∀ back, back.length ≤ later.length → Found back →
      (holesOf back).flatten.length ≤ (templateHoles (closed back)).flatten.length) :
    (holesOf (.escape '{' :: later)).flatten.length <
      (templateHoles (closed (.escape '{' :: later))).flatten.length := by
  obtain ⟨front, back, init, rfl, hfront, hnot, hback⟩ := h.split_at_brace hmem
  have hshape : closed (.escape '{' :: (front ++ back)) =
      '\\' :: ('{' :: init ++ '}' :: closed back) := by
    simp [closed, chars, hfront]
  have hholes : (holesOf (.escape '{' :: (front ++ back))).flatten =
      (holesOf front).flatten ++ (holesOf back).flatten := by
    show (List.filterMap holeChars? (front ++ back)).flatten = _
    rw [List.filterMap_append, List.flatten_append]
    rfl
  have hinside := length_holesOf_le front
  have hbehind := hle back (by rw [List.length_append]; omega) hback
  rw [hfront] at hinside
  rw [hshape, templateHoles_of_ne (by decide), templateHoles_brace hnot, hholes,
    List.flatten_cons]
  simp only [List.length_append, List.length_cons, List.length_nil] at hinside ⊢
  omega

/-- Where an escaped brace strays, the holes of the parser have more characters than those of the
lexer. -/
theorem length_holesOf_lt (h : Found parts) (hstrays : Strays parts) :
    (holesOf parts).flatten.length < (templateHoles (closed parts)).flatten.length := by
  -- the induction is on the number of parts, since a stray hole takes several of them at once
  induction hlength : parts.length using Nat.strongRecOn generalizing parts with
  | ind n ih =>
      subst hlength
      have hle : ∀ back : List TemplatePart, back.length < parts.length → Found back →
          (holesOf back).flatten.length ≤ (templateHoles (closed back)).flatten.length := by
        intro back hshorter hback
        by_cases hagain : Strays back
        · exact Nat.le_of_lt (ih _ hshorter hback hagain rfl)
        · exact Nat.le_of_eq (by rw [templateHoles_closed hback hagain])
      cases h with
      | nil => cases hstrays
      | @escape c later hlater =>
          by_cases hc : c = '{'
          · have hmem : '}' ∈ later.flatMap chars := by
              cases hstrays with
              | here hmem => exact hmem
              | behind hagain => exact hagain.brace_mem
            subst hc
            exact length_holesOf_lt_of_here hlater hmem fun back hback =>
              hle back (Nat.lt_succ_of_le hback)
          · cases hstrays with
            | here => exact absurd rfl hc
            | behind hagain =>
                rw [templateHoles_escape hc]
                exact ih _ (Nat.lt_succ_self _) hlater hagain rfl
      | @hole inner later hinner hlater =>
          cases hstrays with
          | behind hagain =>
              have hlonger := ih _ (Nat.lt_succ_self _) hlater hagain rfl
              rw [templateHoles_hole hinner, List.flatten_cons, List.length_append]
              show (('{' :: inner ++ ['}']) ++ (holesOf later).flatten).length < _
              rw [List.length_append]
              exact Nat.add_lt_add_left hlonger _
      | brace hnone _ =>
          cases hstrays with
          | behind hagain => exact absurd hagain.brace_mem hnone
      | @plain c later hc hlater =>
          cases hstrays with
          | behind hagain =>
              rw [templateHoles_char hc]
              exact ih _ (Nat.lt_succ_self _) hlater hagain rfl

/-- The parser finds the holes of the lexer just where no escaped brace strays. -/
theorem templateHoles_closed_iff (h : Found parts) :
    templateHoles (closed parts) = holesOf parts ↔ ¬ Strays parts := by
  refine ⟨fun heq hstrays => ?_, templateHoles_closed h⟩
  have hlonger := length_holesOf_lt h hstrays
  rw [heq] at hlonger
  exact Nat.lt_irrefl _ hlonger

/-! ## Tokens -/

/-- The texts of the holes that the lexer finds. -/
theorem filterMap_hole? (parts : List TemplatePart) :
    parts.filterMap hole? = (holesOf parts).map String.ofList := by
  induction parts with
  | nil => rfl
  | cons part later ih =>
      cases part with
      | hole inner => exact congrArg (String.ofList ('{' :: inner ++ ['}']) :: ·) ih
      | escape c => exact ih
      | char c => exact ih

theorem Scan.template_eq_some {n : Nat} (h : Scan.template text = some n) :
    ∃ parts, Scan.templateParts (text.drop 2) = some parts ∧
      text.take n = '$' :: '"' :: closed parts := by
  unfold Scan.template at h
  split at h
  · next rest =>
    obtain ⟨parts, hparts, hn⟩ := Option.map_eq_some_iff.mp h
    refine ⟨parts, hparts, ?_⟩
    obtain ⟨behind, rfl⟩ := templateParts_text hparts
    -- the count takes in the two opening characters and the closing quote
    have hcount : n = ('$' :: '"' :: closed parts).length := by
      rw [← hn, closed]
      simp only [List.length_cons, List.length_append, List.length_nil]
      omega
    have hshape : '$' :: '"' :: (parts.flatMap chars ++ '"' :: behind) =
        ('$' :: '"' :: closed parts) ++ behind := by
      rw [closed, List.cons_append, List.cons_append, List.append_assoc, List.singleton_append]
    rw [hshape, hcount, List.take_left]
  · cases h

/-- A lexeme that is a template is cut by the rule for templates. -/
theorem Lexeme.IsFirst.template {lexeme : Lexeme} (h : lexeme.IsFirst TokenRule.builtin text)
    (hkind : lexeme.rule.kind = Kind.template) :
    ∃ parts, Scan.templateParts (text.drop (lexeme.offset + 2)) = some parts ∧
      lexeme.text = '$' :: '"' :: closed parts := by
  have hrule := TokenRule.eq_builtin ⟨3, by decide⟩ h.rule_mem hkind
  obtain ⟨_, _, -, hfound, -⟩ := h
  obtain ⟨n, hscan, htext⟩ := TokenRule.exists_scan hfound
  rw [hrule] at hscan
  obtain ⟨parts, hparts, htake⟩ := Scan.template_eq_some hscan
  rw [List.drop_drop] at hparts
  exact ⟨parts, hparts, htext.trans htake⟩

/-- What a template is parsed to, wherever it stands among the tokens. -/
theorem templateLiteral_meets {input : Input} {p : Nat} {d : Array Diagnostic}
    (hkind : (input.tokenAt p).kind = Kind.template) :
    Attempt.Meets False input templateLiteral (.at p d)
      (fun node s => s = .at (p + 1) d ∧ node = .template (input.tokenAt p).text
        ((templateHoles (input.tokenAt p).text.toList).map String.ofList)) fun _ => False := by
  have hlt := Input.lt_size_of_kind hkind (by decide)
  simp only [templateLiteral, Attempt.meets_bind, Attempt.meets_liftM,
    Parse.meets_current, hkind]
  exact ⟨rfl, rfl⟩

/-- **A template has the holes that the lexer found, unless an escaped brace strays.** Every
template that the lexer cuts off, as parts of which it takes some as holes, is parsed to a tree, at
any place of any tokens. The tree lists these holes and no others just if no escaped opening brace
of the template has a closing brace behind it. -/
theorem template_holes_told {source : SourceText} {token : Token}
    (hmem : token ∈ (Lexer.new source).tokenize.2.tokens) (hkind : token.kind = Kind.template) :
    ∃ parts, Scan.templateParts (source.text.toList.drop (token.offset + 2)) = some parts ∧
      token.text.toList = '$' :: '"' :: closed parts ∧
      ∀ (input : Input) (p : Nat) (d : Array Diagnostic), input.tokenAt p = token →
        Attempt.Meets False input templateLiteral (.at p d)
          (fun node s => s = .at (p + 1) d ∧ ∃ holes, node = .template token.text holes ∧
            (holes = parts.filterMap TemplatePart.hole? ↔ ¬ Strays parts)) fun _ => False := by
  obtain ⟨lexemes, stop, hsegments, -, hrun, -⟩ :=
    Lexer.tokenize_fresh source TokenRule.builtin .builtin
  change token ∈ (Lexer.fresh source TokenRule.builtin .builtin).tokenize.2.tokens at hmem
  rw [hrun] at hmem
  obtain ⟨lexeme, hlexeme, htoken⟩ := List.mem_filterMap.mp hmem
  obtain ⟨htext, hoffset, -⟩ := Lexeme.token?_eq_some htoken
  rw [Lexeme.kind_of_token? htoken] at hkind
  obtain ⟨parts, hparts, hclosed⟩ := (hsegments.of_mem lexeme hlexeme).1.template hkind
  rw [← hoffset] at hparts
  rw [← htext] at hclosed
  refine ⟨parts, hparts, hclosed, fun input p d hplace => ?_⟩
  have hkind' : (input.tokenAt p).kind = Kind.template := by
    rw [hplace, Lexeme.kind_of_token? htoken, hkind]
  refine (templateLiteral_meets hkind').mono (fun node s hnode => ?_) fun _ hnone => hnone
  rw [hplace] at hnode
  refine ⟨hnode.1, _, hnode.2, ?_⟩
  -- the two opening characters begin no hole
  rw [hclosed, templateHoles_of_ne (by decide), templateHoles_of_ne (by decide), filterMap_hole?,
    ← templateHoles_closed_iff (found_of_templateParts hparts)]
  exact List.map_inj_right fun _ _ => String.ofList_inj.mp

/-- A template with a hole and with an escaped brace that has a closing one behind it. The parser
takes the escaped brace for another hole. -/
theorem template_holes_told_escape :
    (⟨.template, "$\"\x7ba\x7d\\\x7bb\x7d\"", 0⟩ : Token) ∈
        (Lexer.new (.ofText "$\"\x7ba\x7d\\\x7bb\x7d\"" "main.cs")).tokenize.2.tokens ∧
      ∀ (input : Input) (p : Nat) (d : Array Diagnostic),
        input.tokenAt p = ⟨.template, "$\"\x7ba\x7d\\\x7bb\x7d\"", 0⟩ →
        Attempt.Meets False input templateLiteral (.at p d)
          (fun node _ => ∃ holes, node = .template "$\"\x7ba\x7d\\\x7bb\x7d\"" holes ∧
            holes ≠ ["\x7ba\x7d"]) fun _ => False := by
  have hmem : (⟨.template, "$\"\x7ba\x7d\\\x7bb\x7d\"", 0⟩ : Token) ∈
      (Lexer.new (.ofText "$\"\x7ba\x7d\\\x7bb\x7d\"" "main.cs")).tokenize.2.tokens := by
    decide +kernel
  refine ⟨hmem, fun input p d hplace => ?_⟩
  obtain ⟨parts, hparts, -, hmeets⟩ := template_holes_told hmem rfl
  have hfound : Scan.templateParts ("$\"\x7ba\x7d\\\x7bb\x7d\"".toList.drop 2) =
      some [.hole ['a'], .escape '{', .char 'b', .char '}'] := by decide +kernel
  obtain rfl := Option.some.inj (hparts.symm.trans hfound)
  have hstrays : Strays [.hole ['a'], .escape '{', .char 'b', .char '}'] :=
    .behind (.here (by decide))
  refine (hmeets input p d hplace).mono (fun node s hnode => ?_) fun _ hnone => hnone
  obtain ⟨-, holes, hholes, hiff⟩ := hnode
  exact ⟨holes, hholes, fun heq => hiff.mp heq hstrays⟩

/-- It is not so that the holes of the parser are always those of the lexer. -/
theorem template_hole_at_escape : ¬ ∀ (source : SourceText) (token : Token)
    (parts : List TemplatePart), token ∈ (Lexer.new source).tokenize.2.tokens →
      token.kind = Kind.template →
      Scan.templateParts (source.text.toList.drop (token.offset + 2)) = some parts →
      ∀ (input : Input) (p : Nat) (d : Array Diagnostic), input.tokenAt p = token →
        Attempt.Meets False input templateLiteral (.at p d)
          (fun node _ => node = .template token.text (parts.filterMap TemplatePart.hole?))
          fun _ => False := by
  intro hclaim
  let token : Token := ⟨.template, "$\"\\\x7ba\x7d\"", 0⟩
  let source : SourceText := .ofText "$\"\\\x7ba\x7d\"" "main.cs"
  have hparts : Scan.templateParts (source.text.toList.drop 2) =
      some [.escape '{', .char 'a', .char '}'] := by decide +kernel
  have hholes : (templateHoles token.text.toList).map String.ofList = ["\x7ba\x7d"] := by
    decide +kernel
  have hmeets := hclaim source token _ (by decide +kernel) rfl hparts
    (Input.ofTokens [token] source) 0 #[] rfl
  simp only [templateLiteral, Attempt.meets_bind, Attempt.meets_liftM,
    Parse.meets_current] at hmeets
  have hnode : Node.template token.text ((templateHoles token.text.toList).map String.ofList) =
      .template token.text [] := hmeets
  rw [hholes] at hnode
  injection hnode with _ hnone
  cases hnone

end SharpSyntax
