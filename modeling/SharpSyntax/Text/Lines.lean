/-!
# Lines

Two notions of a line live here. `splitLines` cuts a text at every character that Unicode counts
as a line break, for showing a line to the reader. `lineStarts` knows the line feed only, and is
what line numbers are counted by. `unifyNewlines` is what reading a text file does to it.
-/

namespace SharpSyntax.Text

/-- Whether a character ends a shown line. -/
def isLineBreak (c : Char) : Bool :=
  let n := c.toNat
  (0xA ≤ n && n ≤ 0xD) || (0x1C ≤ n && n ≤ 0x1E) || n = 0x85 || n = 0x2028 || n = 0x2029

/-- The lines of a text without their breaks; a carriage return and the line feed after it are
one break, and a break at the very end opens no further line. -/
def splitLines : List Char → List (List Char)
  | [] => []
  | '\r' :: '\n' :: rest => [] :: splitLines rest
  | c :: rest =>
    if isLineBreak c then [] :: splitLines rest
    else
      match splitLines rest with
      | [] => [[c]]
      | line :: lines => (c :: line) :: lines

/-- The offsets just after each line feed of a text that begins at `offset`. -/
def startsAfterNewlines (offset : Nat) : List Char → List Nat
  | [] => []
  | c :: rest =>
    if c = '\n' then (offset + 1) :: startsAfterNewlines (offset + 1) rest
    else startsAfterNewlines (offset + 1) rest

/-- The offsets at which numbered lines begin; the first line begins at the start of the text. -/
def lineStarts (text : List Char) : List Nat := 0 :: startsAfterNewlines 0 text

/-- Carriage returns, alone or before a line feed, become line feeds. -/
def unifyNewlines : List Char → List Char
  | [] => []
  | '\r' :: '\n' :: rest => '\n' :: unifyNewlines rest
  | '\r' :: rest => '\n' :: unifyNewlines rest
  | c :: rest => c :: unifyNewlines rest

end SharpSyntax.Text
