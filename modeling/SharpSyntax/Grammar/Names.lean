import SharpSyntax.Parser.Rules

/-!
# Names and types

A qualified name is an identifier followed by any number of dots with an identifier behind each.
A type is a reserved word or a qualified name, with generic arguments between angle brackets. Both
decline without a report when the token under the cursor cannot begin them; their callers say
what was wanted.
-/

namespace SharpSyntax.Grammar

open Parse Attempt

/-- What is said of a dot with no identifier behind it. -/
def afterDotTemplate : String :=
  "Expected identifier after dot in access expression at %POS got %TYPE: %VAL."

/-- The identifiers of a name behind its first one; a dot with no identifier ends the name. -/
def nameTail : Nat → Parse (List Token)
  | 0 => endless
  | n + 1 => do
    if !(← current).isSymbol "." then return []
    advance
    if !(← require (some .identifier) none afterDotTemplate defaultCode).ok then return []
    let name ← consume
    return name :: (← nameTail n)

/-- A qualified name. -/
def qualifiedName (rules : Rules) : Attempt QualifiedName := do
  let head ← current
  if head.kind ≠ Kind.identifier then failure
  advance
  return { head := head, tail := ← nameTail rules.budget }

/-- Types between commas; what is not a type ends them with a report. -/
def typeListFrom (rules : Rules) : Nat → Parse (List TypeExpr)
  | 0 => endless
  | n + 1 => do
    if ← atEnd then return []
    match ← rules.typeExpression.run with
    | none =>
      reportFound "Expected a type inside type list at %POS, got %TYPE: %VAL" defaultCode
      return []
    | some type =>
      if !(← current).isSymbol "," then return [type]
      advance
      return type :: (← typeListFrom rules n)

/-- Types between commas. -/
def typeList (rules : Rules) : Parse (List TypeExpr) := typeListFrom rules rules.budget

/-- Generic arguments, if there are any. -/
def genericArguments (rules : Rules) : Parse (List TypeExpr) := do
  if !(← current).isSymbol "<" then return []
  advance
  let types ← typeList rules
  close ">" "Expected > to close type list at %POS got %TYPE: %VAL"
  return types

/-- A type. -/
def typeExpression (rules : Rules) : Attempt TypeExpr := do
  let token ← current
  if token.kind = Kind.keyword then
    advance
    return { simple := true, name := token.text, generics := ← genericArguments rules }
  else
    let name ← qualifiedName rules
    return { simple := false, name := name.dotted, generics := ← genericArguments rules }

end SharpSyntax.Grammar
