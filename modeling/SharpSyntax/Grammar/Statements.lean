import SharpSyntax.Parser.Rules

/-!
# Statements

A body is a sequence of expressions, each with an optional semicolon. After every statement the
sequence recovers: it steps over a token that the statement could not take, so that no token is
ever reported twice in a row and the sequence always moves on.
-/

namespace SharpSyntax.Grammar

open Parse Attempt

/-- One statement of a body that the stops close; nothing if it could not be made. -/
def statement (rules : Rules) (stops : List String) : Parse (List Node) := do
  let start ← mark
  let node ← (rules.expression 0).run
  skip ";"
  recover start stops
  return node.toList

/-- Statements up to the end of the input or to the terminator, which is left in place. -/
def sequenceFrom (rules : Rules) (terminator : Option String) : Nat → Parse (List Node)
  | 0 => endless
  | n + 1 => do
    if ← atEnd then return []
    if terminator.toList.any (← current).isSymbol then return []
    let first ← statement rules terminator.toList
    return first ++ (← sequenceFrom rules terminator n)

/-- All statements up to the end of the input. -/
def program (rules : Rules) : Parse Program :=
  return { body := ← sequenceFrom rules none rules.budget }

/-- The statements of a block up to its terminator, or all of them if it has none. -/
def block (rules : Rules) (terminator : Option String) : Parse (List Node) :=
  sequenceFrom rules terminator rules.budget

/-- A block in braces. A missing closing brace is reported and the block kept. -/
def bracedBlock (rules : Rules) : Attempt (List Node) := do
  needSymbol openBrace "Expected \"\x7b\" to start statement body at %POS, got %TYPE: %VAL"
  let body ← block rules (some closeBrace)
  close closeBrace "Expected \"\x7d\" to close statement body at %POS, got %TYPE: %VAL"
  return body

/-- The condition of a statement, in parentheses. -/
def condition (rules : Rules) (keyword : String) : Attempt Node := do
  needSymbol "(" s!"Expected \"(\" after \"{keyword}\" at %POS, got %TYPE: %VAL."
  let value ← rules.expression 0
  needSymbol ")" s!"Expected \")\" after {keyword} condition at %POS, got %TYPE: %VAL."
  return value

/-- The branches behind the word `if` or `else if`. A branch that cannot be made ends them, and the
branches before it are kept. -/
def branches (rules : Rules) (keyword : String) : Nat → Attempt (Node × List Node × Alternate)
  | 0 => endless
  | n + 1 => do
    let value ← condition rules keyword
    let consequent ← bracedBlock rules
    if !(← current).isKeyword "else" then return (value, consequent, .none)
    advance
    if (← current).isKeyword "if" then
      advance
      match ← orNone (branches rules "else if" n) with
      | none => return (value, consequent, .none)
      | some (value', consequent', alternate) =>
        return (value, consequent, .elseIf value' consequent' alternate)
    else
      match ← orNone (bracedBlock rules) with
      | none => return (value, consequent, .none)
      | some body => return (value, consequent, .otherwise body)

/-- An `if` with any number of `else if` and at most one `else`. -/
def ifStatement (rules : Rules) : Attempt Node := do
  needKeyword "if" "Expected \"if\" keyword at %POS, got %TYPE: %VAL."
  let (value, consequent, alternate) ← branches rules "if" rules.budget
  return .ifStatement value consequent alternate

/-- A `while` loop. -/
def whileStatement (rules : Rules) : Attempt Node := do
  needKeyword "while" "Expected \"while\" keyword at %POS, got %TYPE: %VAL."
  let value ← condition rules "while"
  let consequent ← bracedBlock rules
  return .whileStatement value consequent

end SharpSyntax.Grammar
