import SharpSyntax.Toml.Value

/-!
# TOML strings, numbers, dates and times

A reader takes a value from the head of a text and leaves the rest, or fails. Why it fails is not
told, since a document with an error is refused as a whole.
-/

namespace SharpSyntax.Toml

/-- Takes something from the head of a text. -/
abbrev Reader := StateT (List Char) Option

namespace Reader

/-- Takes a text if the rest begins with it. -/
def accept (text : String) : Reader Bool := fun cs =>
  if text.toList.isPrefixOf cs then some (true, cs.drop text.toList.length) else some (false, cs)

/-- Takes a text, or fails where the rest does not begin with it. -/
def exactly (text : String) : Reader Unit := do
  if !(← accept text) then failure

/-- The next character, left in place. -/
def next? : Reader (Option Char) := return (← get).head?

/-- Takes all characters at the head that pass a test. -/
def takeRun (test : Char → Bool) : Reader (List Char) := fun cs =>
  some (cs.takeWhile test, cs.dropWhile test)

/-- Takes blanks that do not end a line. -/
def blanks : Reader Unit := do
  let _ ← takeRun fun c => c = ' ' || c = '\t'

end Reader

open Reader

/-- Whether a character may not stand in a comment or a string as it is; strings over several
lines may hold line feeds. -/
def isIllegal (multiline : Bool) (c : Char) : Bool :=
  (c.toNat < 0x20 && c ≠ '\t' && !(multiline && c = '\n')) || c.toNat = 0x7F

/-! ## Strings -/

/-- A string in single quotes, behind the opening one. -/
def literalString : Reader String := do
  let body ← takeRun (· ≠ '\'')
  exactly "'"
  if body.any (isIllegal false) then failure
  return String.ofList body

/-- The text in front of three quotes and the text behind them. -/
def untilTriple (quote : Char) : List Char → Option (List Char × List Char)
  | a :: b :: c :: rest =>
    if a = quote && b = quote && c = quote then some ([], rest)
    else (untilTriple quote (b :: c :: rest)).map fun (body, after) => (a :: body, after)
  | _ => none

/-- Up to two quotes that stand directly behind the closing three and belong to the string. -/
def extraQuotes (quote : Char) : Reader (List Char) := fun cs =>
  match cs with
  | a :: b :: rest =>
    if a = quote then if b = quote then some ([a, b], rest) else some ([a], b :: rest)
    else some ([], cs)
  | [a] => if a = quote then some ([a], []) else some ([], cs)
  | [] => some ([], [])

/-- The value of hexadecimal digits. -/
def hexValue (digits : List Char) : Nat :=
  digits.foldl (fun n c => n * 16 +
    (if c.isDigit then c.toNat - '0'.toNat
    else if 'a' ≤ c then c.toNat - 'a'.toNat + 10
    else c.toNat - 'A'.toNat + 10)) 0

/-- Whether a character is a hexadecimal digit. -/
def isHex (c : Char) : Bool := c.isDigit || ('a' ≤ c && c ≤ 'f') || ('A' ≤ c && c ≤ 'F')

/-- A character by its code point in a fixed count of hexadecimal digits. -/
def codePoint (count : Nat) : Reader Char := do
  let digits := (← get).take count
  if digits.length ≠ count || !digits.all isHex then failure
  modify (·.drop count)
  let n := hexValue digits
  if n < 0xD800 || (0xE000 ≤ n && n ≤ 0x10FFFF) then return Char.ofNat n
  failure

/-- The rest of an escape that joins lines, whose first blank was taken already: only blanks up to
the end of the line, then all blanks of the lines below. -/
def lineJoin (first : Char) : Reader Unit := do
  if first ≠ '\n' then
    blanks
    exactly "\n"
  let _ ← takeRun fun c => c = ' ' || c = '\t' || c = '\n'

/-- What an escape stands for, behind its backslash. -/
def escape (multiline : Bool) : Reader (List Char) := do
  match ← get with
  | [] => failure
  | c :: rest =>
    set rest
    if multiline && (c = ' ' || c = '\t' || c = '\n') then
      lineJoin c
      return []
    match c with
    | 'b' => return ['\x08']
    | 't' => return ['\t']
    | 'n' => return ['\n']
    | 'f' => return ['\x0c']
    | 'r' => return ['\r']
    | '"' => return ['"']
    | '\\' => return ['\\']
    | 'u' => return [← codePoint 4]
    | 'U' => return [← codePoint 8]
    | _ => failure

/-- The rest of a string in double quotes, with its closing quotes taken. -/
def basicFrom (multiline : Bool) : Nat → Reader (List Char)
  | 0 => failure
  | n + 1 => do
    match ← get with
    | [] => failure
    | '"' :: rest =>
      if !multiline then
        set rest
        return []
      else
        match rest with
        | '"' :: '"' :: after =>
          set after
          return []
        | _ =>
          set rest
          return '"' :: (← basicFrom multiline n)
    | '\\' :: rest =>
      set rest
      let piece ← escape multiline
      return piece ++ (← basicFrom multiline n)
    | c :: rest =>
      if isIllegal multiline c then failure
      set rest
      return c :: (← basicFrom multiline n)

/-- A string in double quotes, behind the opening one or three. -/
def basicBody (multiline : Bool) : Reader (List Char) := fun cs =>
  basicFrom multiline (cs.length + 1) cs

/-- A string of one line in double quotes, behind the opening one. -/
def basicString : Reader String := return String.ofList (← basicBody false)

/-- A string in three single quotes, behind the opening three. -/
def longLiteral : Reader String := do
  let _ ← accept "\n"
  let (body, after) ← StateT.lift (untilTriple '\'' (← get))
  set after
  if body.any (isIllegal true) then failure
  return String.ofList (body ++ (← extraQuotes '\''))

/-- A string in three double quotes, behind the opening three. -/
def longBasic : Reader String := do
  let _ ← accept "\n"
  let body ← basicBody true
  return String.ofList (body ++ (← extraQuotes '"'))

/-! ## Numbers -/

/-- The digits at the head of a text, where one underscore may stand between two of them. -/
def moreDigits (isDigit : Char → Bool) : List Char → List Char × List Char
  | '_' :: d :: rest =>
    if isDigit d then
      let (digits, after) := moreDigits isDigit rest
      (d :: digits, after)
    else ([], '_' :: d :: rest)
  | d :: rest =>
    if isDigit d then
      let (digits, after) := moreDigits isDigit rest
      (d :: digits, after)
    else ([], d :: rest)
  | [] => ([], [])

/-- One digit or more. -/
def digitGroup (isDigit : Char → Bool) : List Char → Option (List Char × List Char)
  | d :: rest =>
    if isDigit d then
      let (digits, after) := moreDigits isDigit rest
      some (d :: digits, after)
    else none
  | [] => none

/-- The value of digits in a base. -/
def digitsValue (base : Nat) (digits : List Char) : Nat :=
  digits.foldl (fun n c => n * base + hexValue [c]) 0

/-- A number in a base of its own, behind `0x`, `0o` or `0b`. -/
def basedNumber? : List Char → Option (Value × List Char)
  | '0' :: mark :: rest =>
    let inBase (base : Nat) (isDigit : Char → Bool) :=
      (digitGroup isDigit rest).map fun (digits, after) =>
        (Value.integer (digitsValue base digits), after)
    match mark with
    | 'x' => inBase 16 isHex
    | 'o' => inBase 8 fun c => '0' ≤ c && c ≤ '7'
    | 'b' => inBase 2 fun c => c = '0' || c = '1'
    | _ => none
  | _ => none

/-- The sign at the head of a text, if there is one. -/
def splitSign : List Char → List Char × List Char
  | '+' :: rest => (['+'], rest)
  | '-' :: rest => (['-'], rest)
  | cs => ([], cs)

/-- The whole part of a number: a lone zero, or digits that begin with another. -/
def wholePart? : List Char → Option (List Char × List Char)
  | '0' :: rest => some (['0'], rest)
  | cs => digitGroup Char.isDigit cs

/-- The digits behind a point, if there are a point and digits. -/
def fraction? : List Char → Option (List Char × List Char)
  | '.' :: rest => digitGroup Char.isDigit rest
  | _ => none

/-- A number with its sign. -/
def withSign (sign : List Char) (n : Nat) : Int := if sign = ['-'] then -n else n

/-- An exponent, if there is one with digits in it. -/
def exponent? : List Char → Option (Int × List Char)
  | e :: rest => do
    if e ≠ 'e' && e ≠ 'E' then none
    let (sign, behind) := splitSign rest
    let (digits, after) ← digitGroup Char.isDigit behind
    return (withSign sign (digitsValue 10 digits), after)
  | [] => none

/-- A whole number or a number with a fraction or an exponent, in decimal digits. -/
def decimalNumber? (cs : List Char) : Option (Value × List Char) := do
  let (sign, unsigned) := splitSign cs
  let (whole, behind) ← wholePart? unsigned
  let float (digits : List Char) (power : Int) : Value :=
    .float (.ofDecimal (sign = ['-']) ⟨digitsValue 10 digits, power⟩)
  match fraction? behind with
  | some (places, behind) =>
    let (power, behind) := (exponent? behind).getD (0, behind)
    return (float (whole ++ places) (power - places.length), behind)
  | none =>
    match exponent? behind with
    | some (power, behind) => return (float whole power, behind)
    | none => return (.integer (withSign sign (digitsValue 10 whole)), behind)

/-- An infinity or an undefined number. -/
def specialNumber? (cs : List Char) : Option (Value × List Char) := do
  let (sign, name) := splitSign cs
  if name.take 3 = ['i', 'n', 'f'] then
    return (.float (.infinite (sign = ['-'])), name.drop 3)
  else if name.take 3 = ['n', 'a', 'n'] then
    return (.float .nan, name.drop 3)
  else
    none

/-! ## Dates and times -/

/-- The value of a fixed count of digits. -/
def fixedDigits? (count : Nat) (cs : List Char) : Option (Nat × List Char) :=
  let digits := cs.take count
  if digits.length = count && digits.all Char.isDigit then
    some (digitsValue 10 digits, cs.drop count)
  else
    none

/-- What follows a character that has to be there. -/
def after? (c : Char) : List Char → Option (List Char)
  | d :: rest => if d = c then some rest else none
  | [] => none

/-- The days of a month. -/
def daysIn (year month : Nat) : Nat :=
  if month = 2 then
    if year % 4 = 0 && (year % 100 ≠ 0 || year % 400 = 0) then 29 else 28
  else if month = 4 || month = 6 || month = 9 || month = 11 then 30
  else 31

/-- Whether a day is one of the calendar, which begins with the year 1. -/
def Date.isValid (date : Date) : Bool :=
  1 ≤ date.year && 1 ≤ date.month && date.month ≤ 12 && 1 ≤ date.day &&
    date.day ≤ daysIn date.year date.month

/-- A day as year, month and day, valid or not. -/
def date? (cs : List Char) : Option (Date × List Char) := do
  let (year, rest) ← fixedDigits? 4 cs
  let (month, rest) ← fixedDigits? 2 (← after? '-' rest)
  let (day, rest) ← fixedDigits? 2 (← after? '-' rest)
  return ({ year := year, month := month, day := day }, rest)

/-- The millionths of a second that a fraction gives; further digits are dropped. -/
def micros (cs : List Char) : Nat × List Char :=
  match cs with
  | '.' :: rest =>
    let digits := rest.takeWhile Char.isDigit
    if digits.isEmpty then (0, cs)
    else
      let six := digits.take 6
      (digitsValue 10 (six ++ List.replicate (6 - six.length) '0'), rest.drop digits.length)
  | _ => (0, cs)

/-- A time of day. -/
def time? (cs : List Char) : Option (Time × List Char) := do
  let (hour, rest) ← fixedDigits? 2 cs
  let (minute, rest) ← fixedDigits? 2 (← after? ':' rest)
  let (second, rest) ← fixedDigits? 2 (← after? ':' rest)
  if 24 ≤ hour || 60 ≤ minute || 60 ≤ second then none
  let (micro, rest) := micros rest
  return ({ hour := hour, minute := minute, second := second, micro := micro }, rest)

/-- The minutes ahead of universal time. -/
def zone? : List Char → Option (Int × List Char)
  | c :: rest => do
    if c = 'Z' || c = 'z' then return (0, rest)
    if c ≠ '+' && c ≠ '-' then none
    let (hours, behind) ← fixedDigits? 2 rest
    let (minutes, behind) ← fixedDigits? 2 (← after? ':' behind)
    if 24 ≤ hours || 60 ≤ minutes then none
    let distance : Int := hours * 60 + minutes
    return (if c = '-' then -distance else distance, behind)
  | [] => none

/-- The time behind a date, if one follows its separator. -/
def timeBehind? : List Char → Option (Time × List Char)
  | c :: rest => if c = 'T' || c = 't' || c = ' ' then time? rest else none
  | [] => none

/-- A day, alone or with a time and a distance from universal time. -/
def dateTime? (cs : List Char) : Option (Value × List Char) := do
  let (date, rest) ← date? cs
  if !date.isValid then none
  match timeBehind? rest with
  | none => return (.date date, rest)
  | some (time, rest) =>
    match zone? rest with
    | none => return (.dateTime date time none, rest)
    | some (ahead, rest) => return (.dateTime date time (some ahead), rest)

/-- A number, a date or a time. Digits with a hyphen or a colon behind them are no numbers. -/
def plainScalar? (cs : List Char) : Option (Value × List Char) :=
  if (date? cs).isSome then dateTime? cs
  else
    match time? cs with
    | some (time, rest) => some (.time time, rest)
    | none => basedNumber? cs <|> decimalNumber? cs <|> specialNumber? cs

end SharpSyntax.Toml
