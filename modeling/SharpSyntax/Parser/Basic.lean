import SharpSyntax.Diagnostic
import SharpSyntax.Text.Substitute
import SharpSyntax.Token.Basic

/-!
# Reading tokens

A parse reads a fixed list of tokens with a cursor and appends to a list of diagnostics. Past the
last token it sees the end marker, as often as it looks. A cursor that was moved in front of the
first token sees the list once more, from its end: one place in front is the last token.

Errors do not unwind a parse. A routine that cannot make its construct reports why and declines;
`Attempt` is the monad of such routines. Declining keeps the cursor and the diagnostics, so that
the loop around the construct can go on from there. Only three things stop a parse for good: a
plugin that asks for a name nobody registered, one that never comes to an end, and a look at a
place further in front of the tokens than there are tokens.
-/

namespace SharpSyntax

/-- The tokens of a parse, the text they were cut from, and the marker past the last one. The marker
has no text and a kind of its own, so that no rule of the grammar takes it for a token. -/
structure Input where
  tokens : Array Token
  source : SourceText
  endMarker : Token
  endMarker_kind : endMarker.kind = .endOfInput
  endMarker_text : endMarker.text = ""

namespace Input

/-- The end marker stands where the last token stops, or at the end of a text without tokens. -/
def ofTokens (tokens : List Token) (source : SourceText) : Input where
  tokens := tokens.toArray
  source := source
  endMarker := {
    kind := .endOfInput
    text := ""
    offset := (tokens.getLast?.map Token.stop).getD source.size }
  endMarker_kind := rfl
  endMarker_text := rfl

/-- How many tokens there are. -/
def size (input : Input) : Nat := input.tokens.size

/-- The token at an index, or the end marker where there is none. -/
def tokenAt (input : Input) (index : Nat) : Token := (input.tokens[index]?).getD input.endMarker

/-- The token that a cursor sees. In front of the first token it sees the tokens once more, counted
from the last, and nothing before those. -/
def seen? (input : Input) (cursor : Int) : Option Token :=
  if 0 ≤ cursor then some (input.tokenAt cursor.toNat)
  else if -input.size ≤ cursor then some (input.tokenAt (cursor + input.size).toNat)
  else none

end Input

/-- How far a parse has come, and what it has reported. -/
structure ParseState where
  cursor : Int
  diagnostics : Array Diagnostic

/-- Why a parse stops for good. Code of an extension may raise any exception; it is known by the
name of its type. -/
inductive Fault where
  | missingName (name : String)
  | endless
  | outside
  | raised (typeName : String)
deriving DecidableEq, Repr

/-- A step of a parse. -/
abbrev Parse := ReaderT Input (EStateM Fault ParseState)

/-- A step of a parse that may decline. -/
abbrev Attempt := OptionT Parse

namespace Token

/-- Whether a token is a given symbol. -/
def isSymbol (token : Token) (text : String) : Bool :=
  token.kind = Kind.symbol && token.text = text

/-- Whether a token is a given reserved word. -/
def isKeyword (token : Token) (text : String) : Bool :=
  token.kind = Kind.keyword && token.text = text

/-- Whether a token has a kind and a text, where both are optional but not both left out. -/
def fits (token : Token) : Option Kind → Option String → Bool
  | some kind, some text => token.kind = kind && token.text = text
  | some kind, none => token.kind = kind
  | none, some text => token.text = text
  | none, none => false

end Token

/-! ## What was expected and what was found -/

/-- The outcome of looking for a kind and a text at the cursor. -/
structure Expectation where
  ok : Bool
  token : Token
  kind : Option Kind
  text : Option String

/-- A message template with its placeholders filled from a token: `%POS` is the offset, `%TYPE`
the kind and `%VAL` the text, which is `NULL` when it is empty. -/
def fillTemplate (template : String) (token : Token) : String :=
  let text := if token.text.isEmpty then "NULL" else token.text
  String.ofList
    (Text.substitute "%VAL".toList text.toList
      (Text.substitute "%TYPE".toList token.kind.name.toList
        (Text.substitute "%POS".toList (toString token.offset).toList template.toList)))

/-- A message template filled from the token that was found. -/
def Expectation.format (found : Expectation) (template : String) : String :=
  fillTemplate template found.token

namespace Parse

/-- Stops the parse for good. -/
def stop (fault : Fault) : Parse α := throw fault

/-- Stops a parse that has used up its levels or its rounds. -/
def endless : Parse α := stop .endless

/-! ## The cursor -/

/-- Where the cursor stands. -/
def cursor : Parse Int := return (← get).cursor

/-- Puts the cursor somewhere. -/
def setCursor (cursor : Int) : Parse Unit := modify fun state => { state with cursor := cursor }

/-- The token at the cursor. -/
def current : Parse Token := do
  match (← read).seen? (← get).cursor with
  | some token => return token
  | none => stop .outside

/-- The token `distance` places behind the cursor, or before it if that is negative; the end marker
where that is no place of the list. -/
def peek (distance : Int) : Parse Token := do
  let input ← read
  let index := (← get).cursor + distance
  return if index < 0 then input.endMarker else input.tokenAt index.toNat

/-- Whether the cursor is past the last token. -/
def atEnd : Parse Bool := return (← read).size ≤ (← get).cursor

/-- Moves the cursor past one token. -/
def advance : Parse Unit := modify fun state => { state with cursor := state.cursor + 1 }

/-- Moves the cursor by any number of places and looks at the token there. -/
def move (distance : Int) : Parse Token := do
  modify fun state => { state with cursor := state.cursor + distance }
  current

/-- The token at the cursor, which moves past it. -/
def consume : Parse Token := do
  let token ← current
  advance
  return token

/-! ## Reporting -/

/-- Records an error at some characters of the source text. -/
def reportAt (message code : String) (offset : Int) (length : Nat) : Parse Unit := do
  let input ← read
  modify fun state => { state with
    diagnostics := state.diagnostics.push
      (Diagnostic.errorAt input.source code message offset length "") }

/-- Records an error at the token under the cursor. -/
def report (message code : String) : Parse Unit := do
  let token ← current
  reportAt message code token.offset token.text.length

/-- Looks for a kind and a text at the cursor without moving it. -/
def expect (kind : Option Kind) (text : Option String) : Parse Expectation := do
  let token ← current
  return { ok := token.fits kind text, token := token, kind := kind, text := text }

/-- Looks for a kind and a text at the cursor and records an error when they are not there. -/
def require (kind : Option Kind) (text : Option String) (template code : String) :
    Parse Expectation := do
  let found ← expect kind text
  if !found.ok then
    reportAt (found.format template) code found.token.offset found.token.text.length
  return found

/-- Records an error whose message is filled from the token under the cursor. -/
def reportFound (template code : String) : Parse Unit := do
  report (fillTemplate template (← current)) code

/-- The code of an error without a code of its own. -/
def defaultCode : String := "E200"

/-- Moves past a closing symbol, or reports that it is missing. -/
def close (text template : String) : Parse Unit := do
  if (← require (some .symbol) (some text) template defaultCode).ok then advance

/-- Moves past a symbol if it is there. -/
def skip (text : String) : Parse Unit := do
  if (← current).isSymbol text then advance

/-! ## Recovery -/

/-- A place of a parse to compare with later: the cursor and the number of diagnostics. -/
structure Mark where
  cursor : Int
  reported : Nat

/-- The place where the parse is. -/
def mark : Parse Mark := do
  let state ← get
  return { cursor := state.cursor, reported := state.diagnostics.size }

/-- Steps over the token that a construct begun at a mark stalled on or reported last. A token
among the stops closes the body around the construct and is left for it, unless the construct took
no token at all. -/
def recover (start : Mark) (stops : List String) : Parse Unit := do
  let state ← get
  if state.cursor = start.cursor then
    advance
  else if state.diagnostics.size = start.reported || (← atEnd) then
    return
  else
    let token ← current
    if (state.diagnostics.back?.map Diagnostic.offset) ≠ some (token.offset : Int) then
      return
    else if stops.any token.isSymbol then
      return
    else
      advance

end Parse

namespace Attempt

open Parse

/-- A step that answers with nothing where another one declines. -/
def orNone (step : Attempt α) : Attempt (Option α) := OptionT.lift step.run

/-- Goes on only where a kind and a text are found; otherwise reports and declines. -/
def need (kind : Option Kind) (text : Option String) (template : String) : Attempt Unit := do
  if !(← require kind text template defaultCode).ok then failure

/-- Moves past a symbol, or reports and declines. -/
def needSymbol (text template : String) : Attempt Unit := do
  need (some .symbol) (some text) template
  advance

/-- Moves past a reserved word, or reports and declines. -/
def needKeyword (text template : String) : Attempt Unit := do
  need (some .keyword) (some text) template
  advance

/-- Takes an identifier, or reports and declines. -/
def needIdentifier (template : String) : Attempt Token := do
  need (some .identifier) none template
  consume

end Attempt

end SharpSyntax
