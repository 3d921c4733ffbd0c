/-!
# Control sequences

A control sequence colours what a terminal shows: an escape character and `[`, then parameter
characters `0`-`?`, then intermediate characters up to `/`, then one final character `@`-`~`.
Output that does not go to a terminal is freed of them.
-/

namespace SharpSyntax.Text

/-- The character that opens a control sequence. -/
def escapeChar : Char := '\x1b'

/-- What follows the control sequence at the head of the text, if there is one. -/
def afterControl? : List Char → Option (List Char)
  | c :: '[' :: body =>
    if c = escapeChar then
      match (body.dropWhile fun p => '0' ≤ p && p ≤ '?').dropWhile fun i => ' ' ≤ i && i ≤ '/' with
      | final :: rest => if '@' ≤ final && final ≤ '~' then some rest else none
      | [] => none
    else none
  | _ => none

theorem length_of_afterControl? {text rest : List Char} (h : afterControl? text = some rest) :
    rest.length < text.length := by
  unfold afterControl? at h
  split at h
  next c body =>
    split at h
    · split at h
      next final tail heq =>
        split at h
        · cases h
          have outer := (List.dropWhile_sublist
            (l := body.dropWhile fun p => '0' ≤ p && p ≤ '?')
            (fun i => ' ' ≤ i && i ≤ '/')).length_le
          have inner := (List.dropWhile_sublist (l := body) (fun p => '0' ≤ p && p ≤ '?')).length_le
          rw [heq] at outer
          simp only [List.length_cons] at outer ⊢
          omega
        · cases h
      next => cases h
    · cases h
  next => cases h

/-- A text freed of its control sequences, found from left to right. -/
def withoutControls (text : List Char) : List Char :=
  match text with
  | [] => []
  | c :: rest =>
    match _h : afterControl? (c :: rest) with
    | some after => withoutControls after
    | none => c :: withoutControls rest
termination_by text.length
decreasing_by
  · exact length_of_afterControl? _h
  · simp

/-- A string freed of its control sequences. -/
def plain (text : String) : String := String.ofList (withoutControls text.toList)

end SharpSyntax.Text
