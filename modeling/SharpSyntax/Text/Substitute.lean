/-!
# Substitution

Replacing every occurrence of a text inside another, from left to right, without looking again at
what was put in.
-/

namespace SharpSyntax.Text

/-- The text with every occurrence of `needle` replaced. The needle is meant to be non-empty. -/
def substitute (needle replacement : List Char) : List Char → List Char
  | [] => []
  | c :: rest =>
    if needle.isPrefixOf (c :: rest) then
      replacement ++ substitute needle replacement (rest.drop (needle.length - 1))
    else c :: substitute needle replacement rest
termination_by text => text.length
decreasing_by
  · simp only [List.length_drop, List.length_cons]; omega
  · simp

variable {needle replacement text rest : List Char}

@[simp] theorem substitute_nil : substitute needle replacement [] = [] := by
  rw [substitute]

/-- A character at which the needle does not stand stays. -/
theorem substitute_cons_of_not_isPrefix {c : Char} (h : ¬ needle <+: c :: rest) :
    substitute needle replacement (c :: rest) = c :: substitute needle replacement rest := by
  rw [substitute, if_neg (by rwa [List.isPrefixOf_iff_prefix])]

/-- The replacement takes the place of the needle and is not looked at again. -/
theorem substitute_needle_append (hne : needle ≠ []) :
    substitute needle replacement (needle ++ rest) =
      replacement ++ substitute needle replacement rest := by
  obtain ⟨first, more, rfl⟩ := List.exists_cons_of_ne_nil hne
  have hstands : (first :: more).isPrefixOf (first :: (more ++ rest)) = true :=
    List.isPrefixOf_iff_prefix.mpr ⟨rest, rfl⟩
  rw [List.cons_append, substitute, if_pos hstands, List.length_cons, Nat.add_sub_cancel,
    List.drop_left]

/-- A text without the first character of the needle stays, whatever stands behind it. -/
theorem substitute_append_of_not_mem {first : Char} (h : first ∉ text) :
    substitute (first :: needle) replacement (text ++ rest) =
      text ++ substitute (first :: needle) replacement rest := by
  induction text with
  | nil => rfl
  | cons c text ih =>
      rw [List.mem_cons, not_or] at h
      have hnot : ¬ first :: needle <+: c :: (text ++ rest) := fun hfront =>
        h.1 (List.cons_prefix_cons.mp hfront).1
      rw [List.cons_append, substitute_cons_of_not_isPrefix hnot, ih h.2, List.cons_append]

end SharpSyntax.Text
