import SharpSyntax.Text.Blank
import SharpSyntax.Text.Digit
import SharpSyntax.Text.Word
import SharpSyntax.Token.Basic

/-!
# Scanning

A scanner looks at the head of a text and answers how many characters its lexeme takes, or that
there is none. The built-in scanners are below, one to a token kind.

* A keyword is a whole word: the run of word characters at the head, in any script, is a reserved
  word. An identifier is a run of ASCII letters, digits and underscores.
* Strings and characters end at their quote; a backslash takes the character after it along,
  unless that is a line feed.
* A template is a string behind `$`. An opening brace in it begins a hole, which runs to the next
  closing brace over anything, quotes and backslashes too. Only when no closing quote can be found
  behind the hole does the brace count as a plain character.
-/

namespace SharpSyntax

/-- The length of the lexeme at the head of a text. -/
abbrev Scanner := List Char → Option Nat

namespace Scan

/-- How many characters at the head of a text pass a test. -/
def run (test : Char → Bool) (text : List Char) : Nat := (text.takeWhile test).length

/-- A run of at least one character. -/
def nonemptyRun (test : Char → Bool) : Scanner := fun text =>
  match run test text with
  | 0 => none
  | n + 1 => some (n + 1)

/-- One or more blanks. -/
def blanks : Scanner := nonemptyRun Text.isBlank

/-- Two slashes and all that follows on the line. -/
def lineComment : Scanner
  | '/' :: '/' :: rest => some (2 + run (· ≠ '\n') rest)
  | _ => none

/-- The length up to and with the first `*/`. -/
def toCommentEnd : Scanner
  | '*' :: '/' :: _ => some 2
  | _ :: rest => (toCommentEnd rest).map (· + 1)
  | [] => none

/-- A comment between `/*` and the first `*/` behind it. -/
def blockComment : Scanner
  | '/' :: '*' :: rest => (toCommentEnd rest).map (· + 2)
  | _ => none

/-- The longest run of word characters, in any script. -/
def word (text : List Char) : List Char := text.takeWhile Text.isWordChar

/-- A given word that does not go on behind its last letter. -/
def wholeWord (name : String) : Scanner := fun text =>
  if String.ofList (word text) = name then some name.length else none

/-- A reserved word that does not go on behind its last letter. -/
def keyword : Scanner := fun text =>
  let w := word text
  if keywords.contains (String.ofList w) then some w.length else none

/-- Whether a character may begin an identifier. -/
def startsName (c : Char) : Bool := c.isAlpha || c = '_'

/-- Whether a character may go on an identifier. -/
def continuesName (c : Char) : Bool := c.isAlphanum || c = '_'

/-- A name of ASCII letters, digits and underscores that does not begin with a digit. -/
def identifier : Scanner
  | c :: rest => if startsName c then some (1 + run continuesName rest) else none
  | [] => none

/-- Decimal digits, and a point only with digits behind it. -/
def number : Scanner := fun text =>
  match run Text.isDigit text with
  | 0 => none
  | n + 1 =>
    match text.drop (n + 1) with
    | '.' :: rest =>
      match run Text.isDigit rest with
      | 0 => some (n + 1)
      | m + 1 => some (n + 1 + 1 + (m + 1))
    | _ => some (n + 1)

/-- The length up to and with the quote that closes a string. -/
def toStringEnd : Scanner
  | [] => none
  | '"' :: _ => some 1
  | '\\' :: c :: rest => if c = '\n' then none else (toStringEnd rest).map (· + 2)
  | '\\' :: [] => none
  | _ :: rest => (toStringEnd rest).map (· + 1)

/-- A string in double quotes. -/
def string : Scanner
  | '"' :: rest => (toStringEnd rest).map (· + 1)
  | _ => none

/-- One character, or a backslash and one character, in single quotes. -/
def character : Scanner
  | '\'' :: '\\' :: c :: '\'' :: _ => if c = '\n' then none else some 4
  | '\'' :: c :: '\'' :: _ => if c = '\'' || c = '\\' then none else some 3
  | _ => none

/-- The operators of two characters. -/
def longSymbols : List (List Char) := [
  ['+', '+'], ['-', '-'], ['=', '='], ['!', '='], ['<', '='], ['>', '='], ['&', '&'], ['|', '|']]

/-- The operators and punctuation marks of one character. -/
def shortSymbols : List Char := [
  '{', '}', '(', ')', '[', ']', '.', ',', ';', ':', '+', '-', '*', '/', '%', '&', '|', '^', '!',
  '<', '>', '=', '~', '?']

/-- A symbol; two characters that make one go together. -/
def symbol : Scanner := fun text =>
  if longSymbols.contains (text.take 2) then some 2
  else
    match text with
    | c :: _ => if shortSymbols.contains c then some 1 else none
    | [] => none

end Scan

/-! ## Templates -/

/-- One step through the inside of a template. -/
inductive TemplatePart where
  | escape (c : Char)
  | hole (text : List Char)
  | char (c : Char)
deriving DecidableEq, Repr

namespace TemplatePart

/-- The characters of a part; a hole keeps its braces. -/
def chars : TemplatePart → List Char
  | .escape c => ['\\', c]
  | .hole text => '{' :: text ++ ['}']
  | .char c => [c]

/-- The hole that a part is, as it was written. -/
def hole? : TemplatePart → Option String
  | .hole text => some (String.ofList ('{' :: text ++ ['}']))
  | _ => none

end TemplatePart

namespace Scan

/-- The parts of a template up to its closing quote, where `text` begins behind the opening one.
A brace is tried as a hole first. -/
def templateParts (text : List Char) : Option (List TemplatePart) :=
  match text with
  | [] => none
  | '"' :: _ => some []
  | '\\' :: c :: rest =>
    if c = '\n' then none else (templateParts rest).map (.escape c :: ·)
  | '\\' :: [] => none
  | '{' :: rest =>
    match _h : rest.dropWhile (· ≠ '}') with
    | _ :: after =>
      match templateParts after with
      | some parts => some (.hole (rest.takeWhile (· ≠ '}')) :: parts)
      | none => (templateParts rest).map (.char '{' :: ·)
    | [] => (templateParts rest).map (.char '{' :: ·)
  | c :: rest => (templateParts rest).map (.char c :: ·)
termination_by text.length
decreasing_by
  all_goals try (simp only [List.length_cons]; omega)
  have := (List.dropWhile_sublist (l := rest) (· ≠ '}')).length_le
  rw [_h] at this
  simp only [List.length_cons] at this ⊢
  omega

/-- A string behind `$`, with holes. -/
def template : Scanner
  | '$' :: '"' :: rest =>
    (templateParts rest).map fun parts => 3 + (parts.flatMap TemplatePart.chars).length
  | _ => none

end Scan

end SharpSyntax
