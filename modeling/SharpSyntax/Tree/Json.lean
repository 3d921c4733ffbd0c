import SharpSyntax.Json.Basic
import SharpSyntax.Tree.Datum

/-!
# The data form of a tree

A record becomes an object whose first entry `type` is its tag. A token becomes an object with its
kind, text and offset.
-/

namespace SharpSyntax

/-- A token as a JSON object. -/
def Token.toJson (token : Token) : Json :=
  .object [⟨"type", .string token.kind.name⟩, ⟨"value", .string token.text⟩,
    ⟨"position", .number token.offset⟩]

mutual

/-- Data as a JSON value. -/
def Datum.toJson : Datum → Json
  | .absent => .null
  | .flag value => .boolean value
  | .number value => .number value
  | .text value => .string value
  | .token token => token.toJson
  | .list items => .array (dataToJson items)
  | .record tag fields => .object (⟨"type", .string tag⟩ :: fieldsToJson fields)

/-- Items as JSON values. -/
def dataToJson : List Datum → List Json
  | [] => []
  | item :: items => item.toJson :: dataToJson items

/-- Fields as entries, those of the outline left out. -/
def fieldsToJson : List DatumField → List JsonEntry
  | [] => []
  | ⟨name, value, shown⟩ :: fields =>
    if shown = .outlineOnly then fieldsToJson fields
    else ⟨name, value.toJson⟩ :: fieldsToJson fields

end

/-- A node as a JSON value. -/
def Node.toJson (node : Node) : Json := node.toDatum.toJson

/-- A program as a JSON value. -/
def Program.toJson (program : Program) : Json := program.toDatum.toJson

end SharpSyntax
