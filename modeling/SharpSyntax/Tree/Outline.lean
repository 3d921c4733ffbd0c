import SharpSyntax.Text.Quoted
import SharpSyntax.Tree.Datum

/-!
# The outline of a tree

A tree is shown with one line to a node, a token or a plain field, and what belongs to it below,
two columns further in for a field and two more for what the field holds. Lists of texts stand on
the line of their field, absent fields are left out, and offsets are not shown.
-/

namespace SharpSyntax

/-- The word for a truth value in the outline. -/
def outlineFlag (value : Bool) : String := if value then "True" else "False"

/-- The texts of a list, if all its items are texts. -/
def Datum.allTexts? : List Datum → Option (List String)
  | [] => some []
  | .text value :: items => (value :: ·) <$> allTexts? items
  | _ :: _ => none

mutual

/-- The lines of a value behind an indent. -/
def Datum.outline (indent : String) : Datum → List String
  | .absent => [indent ++ "None"]
  | .flag value => [indent ++ outlineFlag value]
  | .number value => [indent ++ toString value]
  | .text value => [indent ++ Text.quoted value]
  | .token token => [indent ++ token.kind.name ++ " " ++ Text.quoted token.text]
  | .list items => outlineItems indent items
  | .record tag fields => (indent ++ tag) :: outlineFields (indent ++ "  ") fields

/-- The lines of several values behind an indent. -/
def outlineItems (indent : String) : List Datum → List String
  | [] => []
  | item :: items => item.outline indent ++ outlineItems indent items

/-- The lines of several fields behind an indent. -/
def outlineFields (indent : String) : List DatumField → List String
  | [] => []
  | ⟨name, value, shown⟩ :: fields =>
    let lines :=
      if shown = .dataOnly then []
      else
        match value with
        | .absent => []
        | .flag value => [indent ++ name ++ ": " ++ outlineFlag value]
        | .number value => [indent ++ name ++ ": " ++ toString value]
        | .text value => [indent ++ name ++ ": " ++ value]
        | .token token => (indent ++ name ++ ":") :: Datum.outline (indent ++ "  ") (.token token)
        | .record tag inner =>
          (indent ++ name ++ ":") :: Datum.outline (indent ++ "  ") (.record tag inner)
        | .list items =>
          match Datum.allTexts? items with
          | some texts => [indent ++ name ++ ": " ++ Text.quotedList texts]
          | none => (indent ++ name ++ ":") :: outlineItems (indent ++ "  ") items
    lines ++ outlineFields indent fields

end

/-- The lines of a program. -/
def Program.outline (program : Program) : List String := program.toDatum.outline ""

end SharpSyntax
