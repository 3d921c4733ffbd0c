import SharpSyntax.Number.Binary64
import SharpSyntax.Text.Quoted

/-!
# TOML values

The values of a TOML document. The entries of a table keep the order in which they were written.
-/

namespace SharpSyntax.Toml

/-- A day of the calendar. -/
structure Date where
  year : Nat
  month : Nat
  day : Nat
deriving DecidableEq, Repr

/-- A time of day, to the millionth of a second. -/
structure Time where
  hour : Nat
  minute : Nat
  second : Nat
  micro : Nat
deriving DecidableEq, Repr

mutual

/-- A value of a TOML document. A date with a time may carry the minutes by which it is ahead of
universal time. -/
inductive Value where
  | string (value : String)
  | integer (value : Int)
  | float (value : Binary64)
  | boolean (value : Bool)
  | date (date : Date)
  | time (time : Time)
  | dateTime (date : Date) (time : Time) (ahead : Option Int)
  | array (items : List Value)
  | table (entries : List Entry)

/-- A named value of a table. -/
structure Entry where
  key : String
  value : Value

end

/-- The value of a key among entries. -/
def find? (entries : List Entry) (key : String) : Option Value :=
  (entries.find? (·.key = key)).map Entry.value

namespace Value

/-- Whether a value counts as true where a truth value is wanted: zero and whatever is empty do
not. -/
def isTruthy : Value → Bool
  | .string value => !value.isEmpty
  | .integer value => value ≠ 0
  | .float value => value.isTruthy
  | .boolean value => value
  | .date _ | .time _ | .dateTime .. => true
  | .array items => !items.isEmpty
  | .table entries => !entries.isEmpty

end Value

/-! ## Values in messages -/

/-- Numbers between parentheses behind a name. -/
def shownCall (name : String) (arguments : List String) : String :=
  name ++ "(" ++ ", ".intercalate arguments ++ ")"

/-- The parts of a time of day, with seconds and fractions only where they are not zero. -/
def Time.shownParts (time : Time) : List String :=
  let parts :=
    if time.micro ≠ 0 then [time.hour, time.minute, time.second, time.micro]
    else if time.second ≠ 0 then [time.hour, time.minute, time.second]
    else [time.hour, time.minute]
  parts.map toString

/-- The parts of a day. -/
def Date.shownParts (date : Date) : List String := [date.year, date.month, date.day].map toString

/-- A distance from universal time; what lies behind it is told from a day earlier. -/
def shownZone (ahead : Int) : String :=
  if ahead = 0 then "datetime.timezone.utc"
  else
    let seconds := ahead * 60
    let delta :=
      if 0 < seconds then shownCall "datetime.timedelta" [s!"seconds={seconds}"]
      else shownCall "datetime.timedelta" ["days=-1", s!"seconds={seconds + 86400}"]
    shownCall "datetime.timezone" [delta]

mutual

/-- A value as it is shown in a message. -/
def Value.shown : Value → String
  | .string value => Text.quoted value
  | .integer value => toString value
  | .float value => value.text
  | .boolean value => if value then "True" else "False"
  | .date date => shownCall "datetime.date" date.shownParts
  | .time time => shownCall "datetime.time" time.shownParts
  | .dateTime date time ahead =>
    shownCall "datetime.datetime"
      (date.shownParts ++ time.shownParts ++
        (ahead.map fun minutes => "tzinfo=" ++ shownZone minutes).toList)
  | .array items => "[" ++ ", ".intercalate (shownItems items) ++ "]"
  | .table entries => "\x7b" ++ ", ".intercalate (shownEntries entries) ++ "\x7d"

/-- The items of an array as they are shown. -/
def shownItems : List Value → List String
  | [] => []
  | item :: items => item.shown :: shownItems items

/-- The entries of a table as they are shown. -/
def shownEntries : List Entry → List String
  | [] => []
  | ⟨key, value⟩ :: entries => (Text.quoted key ++ ": " ++ value.shown) :: shownEntries entries

end

end SharpSyntax.Toml
