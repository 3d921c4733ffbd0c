import SharpSyntax.Grammar.Names

/-!
# Access chains and arguments

An identifier begins a chain of member accesses, indices and calls. A chain that breaks off keeps
the steps before the break.
-/

namespace SharpSyntax.Grammar

open Parse Attempt

/-- Expressions between commas up to a closing parenthesis; a comma may stand behind the last. -/
def argumentsFrom (rules : Rules) : Nat → Parse (List Node)
  | 0 => endless
  | n + 1 => do
    if (← atEnd) then return []
    if (← current).isSymbol ")" then return []
    match ← (rules.expression 0).run with
    | none => return []
    | some argument =>
      if !(← current).isSymbol "," then return [argument]
      advance
      return argument :: (← argumentsFrom rules n)

/-- Arguments in parentheses; without an opening parenthesis there are none. -/
def arguments (rules : Rules) : Parse (List Node) := do
  let opening ← require (some .symbol) (some "(")
    "Expected opening parenthesis for argument list at %POS, got %TYPE: %VAL." defaultCode
  if !opening.ok then return []
  advance
  let values ← argumentsFrom rules rules.budget
  close ")" "Expected closing parenthesis for argument list at %POS, got %TYPE: %VAL."
  return values

/-- The steps of an access chain. -/
def accesses (rules : Rules) : Nat → Parse (List Access)
  | 0 => endless
  | n + 1 => do
    let token ← current
    if token.isSymbol "." then
      advance
      if !(← require (some .identifier) none afterDotTemplate defaultCode).ok then return []
      let name ← consume
      return .member name :: (← accesses rules n)
    else if token.isSymbol "[" then
      advance
      match ← (rules.expression 0).run with
      | none => return []
      | some index =>
        let closing ← require (some .symbol) (some "]")
          "Expected closing bracket in access expression at %POS, got %TYPE: %VAL." defaultCode
        if !closing.ok then return [.index index]
        advance
        return .index index :: (← accesses rules n)
    else if token.isSymbol "(" then
      let values ← arguments rules
      return .call values :: (← accesses rules n)
    else
      return []

/-- An identifier with the steps behind it. -/
def accessChain (rules : Rules) : Attempt (Token × List Access) := do
  let target ← current
  if target.kind ≠ Kind.identifier then failure
  advance
  return (target, ← accesses rules rules.budget)

end SharpSyntax.Grammar
