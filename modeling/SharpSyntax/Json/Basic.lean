/-!
# JSON values

The values of the JSON format without fractions. The entries of an object keep their order.
-/

namespace SharpSyntax

mutual

/-- A JSON value. -/
inductive Json where
  | null
  | boolean (value : Bool)
  | number (value : Int)
  | string (value : String)
  | array (items : List Json)
  | object (entries : List JsonEntry)

/-- A named value of an object. -/
structure JsonEntry where
  name : String
  value : Json

end

end SharpSyntax
