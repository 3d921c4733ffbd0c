import SharpSyntax.Token.Scan

/-!
# Named shapes

Scanners that a plugin description may ask for by name, each with the shape of its lexemes.
-/

namespace SharpSyntax

namespace Scan

/-- `@` and a name, whose later characters may be word characters of any script. -/
def atName : Scanner
  | '@' :: c :: rest => if startsName c then some (2 + run Text.isWordChar rest) else none
  | _ => none

/-- `#` and a word. -/
def directive : Scanner
  | '#' :: rest => (nonemptyRun Text.isWordChar rest).map (· + 1)
  | _ => none

/-- A given character. -/
def single (c : Char) : Scanner
  | d :: _ => if d = c then some 1 else none
  | [] => none

/-- The length up to and with the quote that closes a verbatim string. A doubled quote stands for
one inside the string, unless no closing quote follows it; then its first half closes. -/
def toVerbatimEnd : Scanner
  | [] => none
  | '"' :: '"' :: rest =>
    match toVerbatimEnd rest with
    | some n => some (n + 2)
    | none => some 1
  | '"' :: _ => some 1
  | _ :: rest => (toVerbatimEnd rest).map (· + 1)

/-- `@` and a string in which only a doubled quote is special. -/
def verbatim : Scanner
  | '@' :: '"' :: rest => (toVerbatimEnd rest).map (· + 2)
  | _ => none

/-- Whether a character is a hexadecimal digit. -/
def isHexDigit (c : Char) : Bool :=
  c.isDigit || ('a' ≤ c && c ≤ 'f') || ('A' ≤ c && c ≤ 'F')

/-- A number in hexadecimal digits behind `0x`. -/
def hexNumber : Scanner
  | '0' :: x :: rest =>
    if x = 'x' || x = 'X' then (nonemptyRun isHexDigit rest).map (· + 2) else none
  | _ => none

/-- The arrow `=>`. -/
def arrow : Scanner
  | '=' :: '>' :: _ => some 2
  | _ => none

/-- An arithmetic operator with `=` behind it. -/
def compound : Scanner
  | c :: '=' :: _ => if ['+', '-', '*', '/'].contains c then some 2 else none
  | _ => none

/-- Any character. -/
def anyChar : Scanner
  | _ :: _ => some 1
  | [] => none

end Scan

/-- The scanner of a named shape. -/
def Scanner.named? : String → Option Scanner
  | "attr" => some Scan.atName
  | "directive" => some Scan.directive
  | "empty" => some fun text => some (Scan.run (· = 'z') text)
  | "backtick" => some (Scan.single '\x60')
  | "verbatim" => some Scan.verbatim
  | "hex" => some Scan.hexNumber
  | "null" => some (Scan.wholeWord "null")
  | "arrow" => some Scan.arrow
  | "compound" => some Scan.compound
  | "any" => some Scan.anyChar
  | "classword" => some (Scan.wholeWord "class")
  | _ => none

end SharpSyntax
