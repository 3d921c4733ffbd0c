import SharpSyntax.Grammar.Declarations

/-!
# Expressions

Binary operators are read by precedence climbing: operands of an operator bind at least one level
tighter on its right, so that operators of one level group to the left. An operator whose right
operand cannot be made is dropped, and what stands to its left is kept.

What no rule of the grammar begins with is offered to the extensions in turn. Each begins at the
same token, wherever the one before it left the cursor.
-/

namespace SharpSyntax.Grammar

open Parse Attempt

/-- How tightly a binary operator binds. -/
def binaryPrecedence? : String → Option Nat
  | "||" => some 1
  | "&&" => some 2
  | "=" | "==" | "!=" => some 3
  | "<" | "<=" | ">" | ">=" => some 4
  | "+" | "-" => some 5
  | "*" | "/" | "%" => some 6
  | _ => none

/-- The operators that may stand in front of an operand. -/
def prefixOperators : List String := ["-", "+", "!", "~", "++", "--"]

/-- How tightly an operator in front of an operand binds. -/
def prefixPrecedence : Nat := 7

/-- The kinds of token that are literals by themselves. -/
def literalKinds : List Kind := [.number, .string, .character]

/-- The holes of a template text, from each opening brace to the next closing one. -/
def templateHoles (text : List Char) : List (List Char) :=
  match text with
  | [] => []
  | c :: rest =>
    if c = '{' then
      match _h : rest.dropWhile (· ≠ '}') with
      | _ :: after => ('{' :: rest.takeWhile (· ≠ '}') ++ ['}']) :: templateHoles after
      | [] => templateHoles rest
    else templateHoles rest
termination_by text.length
decreasing_by
  · have := (List.dropWhile_sublist (l := rest) (· ≠ '}')).length_le
    rw [_h] at this
    simp only [List.length_cons] at this ⊢
    omega
  all_goals simp

/-- A template with its holes kept as raw text. -/
def templateLiteral : Attempt Node := do
  let token ← current
  if token.kind ≠ Kind.template then failure
  advance
  return .template token.text ((templateHoles token.text.toList).map String.ofList)

/-- The increments and decrements behind an operand. -/
def postfixes : Nat → Node → Parse Node
  | 0, _ => endless
  | n + 1, operand => do
    let token ← current
    if token.isSymbol "++" || token.isSymbol "--" then
      advance
      postfixes n (.postfixed token.text operand)
    else
      return operand

/-- An access chain with its postfix operators, or an assignment to it. -/
def identifierExpression (rules : Rules) : Attempt Node := do
  let (target, body) ← accessChain rules
  let left ← postfixes rules.budget (.access target body)
  if !(← current).isSymbol "=" then return left
  advance
  return .assignment left (← rules.expression 0)

/-- An expression in parentheses, which leave no trace in the tree. -/
def parenthesized (rules : Rules) : Attempt Node := do
  advance
  let inner ← rules.expression 0
  needSymbol ")" "Expected closing parenthesis at %POS, found %TYPE: %VAL"
  return inner

/-- The first node that an extension makes at `start`. -/
def firstExtension (rules : Rules) (start : Int) : List Routine → Attempt Node
  | [] => failure
  | routine :: rest => do
    match ← orNone (routine rules) with
    | some node => return node
    | none =>
      setCursor start
      firstExtension rules start rest

/-- What the extensions make of a token that begins no rule of the grammar. -/
def extensionExpression (hooks : Hooks) (rules : Rules) (token : Token) : Attempt Node := do
  let start ← cursor
  match ← orNone (firstExtension rules start hooks.extensions) with
  | some node => return node
  | none =>
    reportAt s!"Unexpected token at {token.offset}: {token.kind.name} \"{token.text}\"" "E201"
      token.offset token.text.length
    failure

/-- An operand. -/
def primary (hooks : Hooks) (rules : Rules) : Attempt Node := do
  let token ← current
  if literalKinds.contains token.kind then
    advance
    return .literal token.kind token.text
  else if token.kind = Kind.identifier then
    identifierExpression rules
  else if token.isSymbol "(" then
    parenthesized rules
  else if token.isKeyword "class" then
    Node.classDeclaration <$> classDeclaration rules []
  else if token.isKeyword "using" then
    Node.usingDirective <$> usingDirective rules
  else if token.isKeyword "namespace" then
    namespaceDeclaration rules
  else if token.kind = Kind.template then
    templateLiteral
  else if token.isKeyword "if" then
    ifStatement rules
  else if token.isKeyword "while" then
    whileStatement rules
  else if token.kind = Kind.endOfInput then
    reportAt s!"Unexpected end of input at {token.offset}" "E203" token.offset token.text.length
    failure
  else
    extensionExpression hooks rules token

/-- The binary operators behind a left operand that bind at least as tightly as `minimum`. -/
def operators (rules : Rules) (minimum : Nat) : Nat → Node → Parse Node
  | 0, _ => endless
  | n + 1, left => do
    let token ← current
    if token.kind ≠ Kind.symbol then return left
    match binaryPrecedence? token.text with
    | none => return left
    | some precedence =>
      if precedence < minimum then return left
      advance
      match ← (rules.expression (precedence + 1)).run with
      | none => return left
      | some right => operators rules minimum n (.binary token.text left right)

/-- An operand behind a prefix operator, or an operand by itself. -/
def operand (hooks : Hooks) (rules : Rules) : Attempt Node := do
  let token ← current
  if token.kind = Kind.symbol && prefixOperators.contains token.text then
    advance
    return .prefixed token.text (← rules.expression prefixPrecedence)
  else
    primary hooks rules

/-- An expression of operators that bind at least as tightly as `minimum`. -/
def expression (hooks : Hooks) (rules : Rules) (minimum : Nat) : Attempt Node := do
  let left ← operand hooks rules
  operators rules minimum rules.budget left

end SharpSyntax.Grammar

namespace SharpSyntax

/-- The rules of one level over those of the level below. -/
def Rules.next (hooks : Hooks) (below : Rules) : Rules where
  budget := below.budget
  expression := Grammar.expression hooks below
  classDeclaration := Grammar.classDeclaration below
  typeExpression := Grammar.typeExpression below
  routine := hooks.call below

/-- The rules over a number of levels. -/
def Rules.ofDepth (hooks : Hooks) (budget : Nat) : Nat → Rules
  | 0 => Rules.bottom budget
  | depth + 1 => Rules.next hooks (Rules.ofDepth hooks budget depth)

end SharpSyntax
