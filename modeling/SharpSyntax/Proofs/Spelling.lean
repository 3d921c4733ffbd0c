import Mathlib.Data.List.Forall2
import SharpSyntax.Proofs.Meets
import SharpSyntax.Grammar.Expressions

/-!
# How expressions are written

A tree is written as a list of pieces. A piece says which kind and text a token is to have, and
where the tree stores the token itself, which offset too: it leaves the places of operators and
parentheses open. Whatever tokens match the pieces are a printed form of the tree.

Parentheses stand only where a tree would be read differently without them. Three positions decide
on that: behind a prefix operator, on the left and on the right of a binary operator. The sign of an
assignment is also a binary operator, and whoever reads an identifier takes it for an assignment, so
that only a literal may stand on the left of it without parentheses.
-/

namespace SharpSyntax

open Grammar

/-! ## Pieces -/

/-- What a token of a printed tree has to be. -/
structure Piece where
  kind : Kind
  text : String
  /-- The offset, where the tree stores the token. -/
  offset : Option Nat

namespace Piece

/-- An operator or a punctuation mark. -/
def symbol (text : String) : Piece := ⟨.symbol, text, none⟩

/-- A token that a tree stores. -/
def exactly (token : Token) : Piece := ⟨token.kind, token.text, some token.offset⟩

/-- Whether a token may stand for a piece. -/
def Matches (piece : Piece) (token : Token) : Prop :=
  token.kind = piece.kind ∧ token.text = piece.text ∧
    ∀ offset, piece.offset = some offset → token.offset = offset

/-- Some token that may stand for a piece. -/
def token (piece : Piece) : Token := ⟨piece.kind, piece.text, piece.offset.getD 0⟩

/-- The token that a piece is written as matches it. -/
theorem matches_token (piece : Piece) : piece.Matches piece.token := by
  refine ⟨rfl, rfl, fun offset h => ?_⟩
  rw [token, h]
  rfl

theorem matches_exactly {token token' : Token} :
    (exactly token').Matches token ↔ token = token' := by
  constructor
  · rintro ⟨hkind, htext, hoffset⟩
    -- a stored token prescribes its offset too
    have hoffset' := hoffset _ rfl
    cases token
    cases token'
    simp_all [exactly]
  · rintro rfl
    exact ⟨rfl, rfl, fun _ h => Option.some.inj h⟩

theorem matches_symbol {text : String} {token : Token} :
    (symbol text).Matches token ↔ token.isSymbol text = true := by
  rw [Token.isSymbol_iff]
  constructor
  · rintro ⟨hkind, htext, -⟩
    exact ⟨hkind, htext⟩
  · rintro ⟨hkind, htext⟩
    exact ⟨hkind, htext, fun _ h => by cases h⟩

end Piece

/-- Every list of pieces can be written as tokens. -/
theorem forall₂_matches_token : ∀ pieces : List Piece,
    List.Forall₂ Piece.Matches pieces (pieces.map Piece.token)
  | [] => .nil
  | piece :: pieces => .cons piece.matches_token (forall₂_matches_token pieces)

/-! ## Expressions -/

/-- How tightly the operator with a text binds, as far as it is a binary one. -/
def precedence (operator : String) : Nat := (binaryPrecedence? operator).getD 0

namespace Node

/-- Whether a node is an access chain, with or without increments behind it. -/
def isChain : Node → Bool
  | .access .. => true
  | .postfixed .. => true
  | _ => false

/-- Whether a node needs parentheses behind a prefix operator. -/
def enclosedBehindPrefix : Node → Bool
  | .binary .. => true
  | .assignment .. => true
  | _ => false

/-- Whether a node needs parentheses on the left of a binary operator. -/
def enclosedOnLeft (operator : String) : Node → Bool
  | .assignment .. => true
  | .literal .. => false
  | .binary inner _ _ => operator = "=" || precedence inner < precedence operator
  | _ => operator = "="

/-- Whether a node needs parentheses on the right of a binary operator. -/
def enclosedOnRight (operator : String) : Node → Bool
  | .assignment .. => true
  | .binary inner _ _ => precedence inner ≤ precedence operator
  | _ => false

end Node

/-- Pieces in parentheses, where they are needed. -/
def enclosed (needed : Bool) (pieces : List Piece) : List Piece :=
  if needed then .symbol "(" :: (pieces ++ [.symbol ")"]) else pieces

mutual

/-- How an expression is written. Nothing is said of nodes that are no expressions. -/
def Node.spelling : Node → List Piece
  | .literal kind value => [⟨kind, value, none⟩]
  | .template text _ => [⟨.template, text, none⟩]
  | .access target body => .exactly target :: stepsSpelling body
  | .prefixed operator argument =>
    .symbol operator :: enclosed argument.enclosedBehindPrefix argument.spelling
  | .postfixed operator argument => argument.spelling ++ [.symbol operator]
  | .binary operator left right =>
    enclosed (left.enclosedOnLeft operator) left.spelling ++
      .symbol operator :: enclosed (right.enclosedOnRight operator) right.spelling
  | .assignment left right => left.spelling ++ .symbol "=" :: right.spelling
  | _ => []

/-- How a step of an access chain is written. -/
def Access.spelling : Access → List Piece
  | .member name => [.symbol ".", .exactly name]
  | .index expression => .symbol "[" :: (expression.spelling ++ [.symbol "]"])
  | .call arguments => .symbol "(" :: (itemsSpelling arguments ++ [.symbol ")"])

/-- How the steps of an access chain are written. -/
def stepsSpelling : List Access → List Piece
  | [] => []
  | step :: steps => step.spelling ++ stepsSpelling steps

/-- How arguments are written between their parentheses. -/
def itemsSpelling : List Node → List Piece
  | [] => []
  | item :: items => item.spelling ++ furtherSpelling items

/-- How the arguments behind the first one are written. -/
def furtherSpelling : List Node → List Piece
  | [] => []
  | item :: items => .symbol "," :: (item.spelling ++ furtherSpelling items)

end

mutual

/-- A node that is an expression: the names in its chains are identifiers, its operators are known,
a template has the holes of its text, and only a chain is incremented or assigned to. -/
inductive Node.IsExpression : Node → Prop where
  | literal {kind : Kind} {value : String} :
      kind ∈ literalKinds → Node.IsExpression (.literal kind value)
  | template {text : String} :
      Node.IsExpression (.template text ((templateHoles text.toList).map String.ofList))
  | access {target : Token} {body : List Access} :
      target.kind = Kind.identifier → (∀ step ∈ body, step.IsExpression) →
      Node.IsExpression (.access target body)
  | prefixed {operator : String} {argument : Node} :
      operator ∈ prefixOperators → argument.IsExpression →
      Node.IsExpression (.prefixed operator argument)
  | postfixed {operator : String} {argument : Node} :
      operator = "++" ∨ operator = "--" → argument.isChain → argument.IsExpression →
      Node.IsExpression (.postfixed operator argument)
  | binary {operator : String} {left right : Node} :
      (binaryPrecedence? operator).isSome → left.IsExpression → right.IsExpression →
      Node.IsExpression (.binary operator left right)
  | assignment {left right : Node} :
      left.isChain → left.IsExpression → right.IsExpression →
      Node.IsExpression (.assignment left right)

/-- A step of an access chain of expressions. -/
inductive Access.IsExpression : Access → Prop where
  | member {name : Token} : name.kind = Kind.identifier → Access.IsExpression (.member name)
  | index {expression : Node} : expression.IsExpression → Access.IsExpression (.index expression)
  | call {arguments : List Node} :
      (∀ argument ∈ arguments, argument.IsExpression) → Access.IsExpression (.call arguments)

end

/-! ## Pieces among the tokens of a parse -/

/-- The tokens from one place to another match the pieces. -/
def Input.Shows (input : Input) : Nat → List Piece → Nat → Prop
  | p, [], q => p = q
  | p, piece :: pieces, q => piece.Matches (input.tokenAt p) ∧ input.Shows (p + 1) pieces q

namespace Input

variable {input : Input} {p q : Nat} {piece : Piece} {pieces others : List Piece}

@[simp] theorem shows_nil : input.Shows p [] q ↔ p = q := Iff.rfl

@[simp] theorem shows_cons :
    input.Shows p (piece :: pieces) q ↔
      piece.Matches (input.tokenAt p) ∧ input.Shows (p + 1) pieces q := Iff.rfl

/-- Pieces in a row are shown by tokens in a row. -/
@[simp] theorem shows_append :
    input.Shows p (pieces ++ others) q ↔ ∃ r, input.Shows p pieces r ∧ input.Shows r others q := by
  induction pieces generalizing p with
  | nil => simp
  | cons piece pieces ih =>
      rw [List.cons_append, shows_cons, ih]
      simp only [shows_cons, and_assoc, exists_and_left]

/-- Tokens that match the pieces are shown where they stand. -/
theorem shows_of_forall₂ {tokens : List Token} (h : List.Forall₂ Piece.Matches pieces tokens)
    (htokens : ∀ (i : Nat) (hi : i < tokens.length), input.tokenAt (p + i) = tokens[i]) :
    input.Shows p pieces (p + tokens.length) := by
  induction h generalizing p with
  | nil => rfl
  | @cons piece token pieces tokens hmatches _ ih =>
      have hp := htokens 0 (by simp)
      refine ⟨?_, ?_⟩
      · rw [Nat.add_zero] at hp
        rwa [hp]
      · have hrest := @ih (p + 1) fun i hi => by
          have hnext := htokens (i + 1) (by simpa using hi)
          rwa [show p + (i + 1) = p + 1 + i by omega] at hnext
        rwa [List.length_cons, show p + (tokens.length + 1) = p + 1 + tokens.length by omega]

end Input

end SharpSyntax
