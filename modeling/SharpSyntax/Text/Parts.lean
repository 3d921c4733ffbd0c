/-!
# Parts between separators

A text is cut at every separator, also where nothing stands between two of them.
-/

namespace SharpSyntax.Text

/-- The texts between the separators of a text. -/
def parts (separator : Char) (text : String) : List String :=
  (text.toList.splitOn separator).map String.ofList

variable {separator : Char}

/-- A text that was joined from others is cut into these. -/
theorem parts_intercalate {texts : List String} (hne : texts ≠ [])
    (h : ∀ text ∈ texts, separator ∉ text.toList) :
    parts separator ((String.singleton separator).intercalate texts) = texts := by
  have hsplit : ([separator].intercalate (texts.map String.toList)).splitOn separator =
      texts.map String.toList := by
    refine List.splitOn_intercalate separator (fun text hmem => ?_) (by simpa using hne)
    obtain ⟨word, hword, rfl⟩ := List.mem_map.mp hmem
    exact h word hword
  have hofList : String.ofList ∘ String.toList = id := funext fun _ => String.ofList_toList
  rw [parts, String.toList_intercalate, String.toList_singleton, hsplit, List.map_map, hofList,
    List.map_id]

theorem parts_cons (text : String) :
    parts separator (String.singleton separator ++ text) = "" :: parts separator text := by
  rw [parts, String.toList_append, String.toList_singleton, List.singleton_append,
    List.splitOn_cons_eq_if_modifyHead, if_pos (beq_self_eq_true separator)]
  rfl

theorem not_mem_of_mem_splitOn {text part : List Char} (h : part ∈ text.splitOn separator) :
    separator ∉ part := by
  induction text generalizing part with
  | nil =>
      rw [List.splitOn_nil, List.mem_singleton] at h
      rw [h]
      exact List.not_mem_nil
  | cons c text ih =>
      rw [List.splitOn_cons_eq_if_modifyHead] at h
      split at h
      · rcases List.mem_cons.mp h with rfl | h
        · exact List.not_mem_nil
        · exact ih h
      · next hc =>
        obtain ⟨first, rest, hparts⟩ :=
          List.exists_cons_of_ne_nil (List.splitOn_ne_nil separator text)
        rw [hparts, List.modifyHead_cons] at h
        rcases List.mem_cons.mp h with rfl | h
        · rw [List.mem_cons, not_or]
          exact ⟨fun heq => hc (by simp [heq]), ih (by rw [hparts]; exact List.mem_cons_self)⟩
        · exact ih (by rw [hparts]; exact List.mem_cons_of_mem _ h)

theorem not_mem_of_mem_parts {text part : String} (h : part ∈ parts separator text) :
    separator ∉ part.toList := by
  obtain ⟨word, hword, rfl⟩ := List.mem_map.mp h
  rw [String.toList_ofList]
  exact not_mem_of_mem_splitOn hword

end SharpSyntax.Text
