import SharpSyntax.Grammar.Chains
import SharpSyntax.Grammar.Statements

/-!
# Declarations

Classes, their members, namespaces and using directives. The body of a class or a namespace is a
list of members up to its closing brace and recovers after each member as a statement body does. A
method body counts the braces at which its statements begin: one that begins no statement is
reported, but still counted, so that stray braces between statements do not end the body.
-/

namespace SharpSyntax.Grammar

open Parse Attempt

/-- The names of generic parameters up to `>`. -/
def genericNamesFrom : Nat → Attempt (List String)
  | 0 => endless
  | n + 1 => do
    if ← atEnd then return []
    if (← current).isSymbol ">" then return []
    let name ← needIdentifier
      "Expected identifier in generic parameter list at %POS, got %TYPE: %VAL"
    if !(← current).isSymbol "," then return [name.text]
    advance
    return name.text :: (← genericNamesFrom n)

/-- Generic parameters in angle brackets, if there are any. -/
def genericNames (rules : Rules) : Attempt (List String) := do
  if !(← current).isSymbol "<" then return []
  advance
  let names ← genericNamesFrom rules.budget
  needSymbol ">" "Expected \">\" to close generic parameter list at %POS, got %TYPE: %VAL"
  return names

/-- Base types between commas; what is not a type ends them with a report. -/
def basesFrom (rules : Rules) : Nat → Parse (List TypeExpr)
  | 0 => endless
  | n + 1 => do
    match ← (typeExpression rules).run with
    | none =>
      reportFound "Expected base type at %POS, got %TYPE: %VAL" "E202"
      return []
    | some base =>
      if !(← current).isSymbol "," then return [base]
      advance
      return base :: (← basesFrom rules n)

/-- Base types behind a colon, if there are any. -/
def bases (rules : Rules) : Parse (List TypeExpr) := do
  if !(← current).isSymbol ":" then return []
  advance
  basesFrom rules rules.budget

/-- Statements of a method body at a depth of open braces, up to the brace that closes it. -/
def methodStatements (rules : Rules) : Nat → Nat → Parse (List Node)
  | 0, _ => endless
  | n + 1, depth => do
    if ← atEnd then return []
    let token ← current
    if token.isSymbol closeBrace && depth = 1 then return []
    let inside :=
      if token.isSymbol openBrace then depth + 1
      else if token.isSymbol closeBrace then depth - 1
      else depth
    let first ← statement rules [openBrace, closeBrace]
    return first ++ (← methodStatements rules n inside)

/-- A method body with its braces; the cursor is at the opening one. -/
def methodBody (rules : Rules) : Parse (List Node) := do
  advance
  let body ← methodStatements rules rules.budget 1
  let token ← current
  if token.isSymbol closeBrace then
    advance
  else
    report s!"Expected '\x7d' to close method body at {token.offset}" defaultCode
  return body

/-- The modifiers in front of a member. -/
def memberModifiers : Nat → Parse (List String)
  | 0 => endless
  | n + 1 => do
    let token ← current
    if token.kind = Kind.keyword && modifiers.contains token.text then
      advance
      return token.text :: (← memberModifiers n)
    else
      return []

/-- A method behind its name: parameters, then a body or a semicolon. -/
def method (rules : Rules) (mods : List String) (type : TypeExpr) (name : String) (offset : Nat) :
    Attempt Member := do
  let parameters ← arguments rules
  let token ← current
  if token.isSymbol openBrace then
    return .method mods type name parameters (← methodBody rules) offset
  else if token.isSymbol ";" then
    advance
    return .signature mods type name parameters offset
  else
    report s!"Expected '\x7b' or ';' after method declaration at {token.offset}" "E202"
    failure

/-- A field or a method behind its name. -/
def memberRest (rules : Rules) (mods : List String) (type : TypeExpr) (name : String)
    (offset : Nat) : Attempt Member := do
  let token ← current
  if token.isSymbol "(" then
    method rules mods type name offset
  else if token.isSymbol ";" then
    advance
    return .field mods type name offset
  else
    report
      (s!"Unexpected token after class/namespace member name at {token.offset}: " ++
        s!"{token.kind.name} \"{token.text}\"") "E202"
    failure

/-- A field, a method or a nested class, behind any modifiers. -/
def member (rules : Rules) : Attempt Member := do
  let start ← current
  let mods ← memberModifiers rules.budget
  if (← current).isKeyword "class" then
    return .nested (← rules.classDeclaration mods)
  match ← orNone (typeExpression rules) with
  | none =>
    let token ← current
    report s!"Expected a valid return type for class/namespace member at {token.offset}" "E202"
    failure
  | some type =>
    let name ← needIdentifier
      "Expected identifier for class/namespace member name at %POS got %TYPE: %VAL"
    memberRest rules mods type name.text start.offset

/-- The name that a using directive gives its target, if it gives one. What stands behind the name
is told by its text alone. -/
def usingAlias : Parse (Option String) := do
  let first ← current
  if first.kind = Kind.identifier && (← peek 1).text = "=" then
    advance
    advance
    return some first.text
  else
    return none

/-- The target of a using directive, under a name of its own if one is given. -/
def usingTarget (rules : Rules) (isStatic : Bool) : Attempt UsingDirective := do
  let aliasName ← OptionT.lift usingAlias
  match ← orNone (qualifiedName rules) with
  | none =>
    let token ← current
    report s!"Expected namespace or type target in using directive at {token.offset}" defaultCode
    failure
  | some target =>
    close ";" "Expected \";\" after using directive at %POS, got %TYPE: %VAL."
    return { aliasName := aliasName, isStatic := isStatic, target := target }

/-- A using directive. -/
def usingDirective (rules : Rules) : Attempt UsingDirective := do
  needKeyword "using" "Expected \"using\" keyword at %POS, got %TYPE: %VAL."
  if (← current).isKeyword "static" then
    advance
    usingTarget rules true
  else
    usingTarget rules false

/-- A member of a class or of a namespace. Using directives are members of namespaces only. -/
def bodyMember (rules : Rules) (inNamespace : Bool) : Attempt Member := do
  if inNamespace && (← current).isKeyword "using" then
    return .usingDirective (← usingDirective rules)
  else
    member rules

/-- Members up to a closing brace, which is left in place. -/
def membersFrom (rules : Rules) (inNamespace : Bool) : Nat → Parse (List Member)
  | 0 => endless
  | n + 1 => do
    if ← atEnd then return []
    if (← current).isSymbol closeBrace then return []
    let start ← mark
    let made ← (bodyMember rules inNamespace).run
    recover start [closeBrace]
    return made.toList ++ (← membersFrom rules inNamespace n)

/-- A class with the modifiers that were read in front of it. -/
def classDeclaration (rules : Rules) (mods : List String) : Attempt ClassDecl := do
  let start ← current
  needKeyword "class" "Expected \"class\" keyword at %POS, got %TYPE: %VAL"
  let name ← needIdentifier "Expected class name identifier at %POS, got %TYPE: %VAL"
  let generics ← genericNames rules
  let baseTypes ← bases rules
  needSymbol openBrace "Expected \"\x7b\" to start class body at %POS, got %TYPE: %VAL"
  let members ← membersFrom rules false rules.budget
  close closeBrace "Expected \"\x7d\" to close class body at %POS, got %TYPE: %VAL"
  return {
    name := name.text
    generics := generics
    bases := baseTypes
    members := members
    modifiers := mods
    offset := start.offset }

/-- A namespace for the rest of the file, or for the members in braces. -/
def namespaceDeclaration (rules : Rules) : Attempt Node := do
  let start ← current
  needKeyword "namespace" "Expected \"namespace\" keyword at %POS, got %TYPE: %VAL"
  match ← orNone (qualifiedName rules) with
  | none =>
    reportFound "Expected namespace name at %POS, got %TYPE: %VAL" defaultCode
    failure
  | some name =>
    if (← current).isSymbol ";" then
      advance
      return .namespaceDeclaration name [] start.offset
    needSymbol openBrace "Expected \"\x7b\" to start namespace body at %POS, got %TYPE: %VAL"
    let members ← membersFrom rules true rules.budget
    close closeBrace "Expected \"\x7d\" to close namespace body at %POS, got %TYPE: %VAL"
    return .namespaceDeclaration name members start.offset

end SharpSyntax.Grammar
