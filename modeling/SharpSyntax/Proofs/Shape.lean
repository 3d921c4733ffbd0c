import SharpSyntax.Grammar.Expressions
import SharpSyntax.Tree.Datum

/-!
# The shapes of trees

A tree written out as data is a record with a tag and named fields, and in a field stands a text, a
token, a list or a further record. Nothing in that says which record may stand where. It is said
here, one relation to each place of a tree:

* a node is a statement, an expression or a declaration, and what carries a block is never one by
  itself: blocks and `else` parts stand in their statements only;
* an operand, which increments and assignments go with, is an access chain or an operand with an
  increment or decrement behind it;
* members stand in bodies of classes and namespaces only, and using directives are among the members
  of a namespace but not of a class;
* a class is told with its modifiers: none where it stands as a node, and words that may stand in
  front of a member where it is one.

Plugins add shapes of their own. What is `foreign` is told by them and not looked into.
-/

namespace SharpSyntax.Shape

open Grammar

/-- Identifiers joined by dots, as a chain of nothing but member accesses. -/
inductive IsDottedName : Datum → Prop where
  | mk {head : Token} {tail : List Token} :
      head.kind = Kind.identifier → (∀ token ∈ tail, token.kind = Kind.identifier) →
      IsDottedName (accessDatum head (tail.map memberAccessDatum))

/-- A using directive. -/
inductive IsUsing : Datum → Prop where
  | mk {aliasName : Option String} {isStatic : Bool} {target : Datum} :
      IsDottedName target →
      IsUsing (.record "UsingExpression"
        [.both "alias" (.text? aliasName), .both "static" (.flag isStatic),
          .both "target" target])

mutual

/-- A statement, an expression or a declaration. -/
inductive IsNode (foreign : Datum → Prop) : Datum → Prop where
  | literal {kind : Kind} {value : String} :
      kind ∈ [Kind.number, Kind.string, Kind.character] →
      IsNode foreign (.record kind.name
        [⟨"kind", .text kind.name, .outlineOnly⟩, .both "value" (.text value)])
  | template {text : String} {holes : List String} :
      IsNode foreign (.record "TemplateLiteralExpression"
        [.both "template" (.text text), .both "replacees" (.texts holes)])
  | operand {operand : Datum} : IsOperand foreign operand → IsNode foreign operand
  | prefixed {operator : String} {argument : Datum} :
      operator ∈ prefixOperators → IsNode foreign argument →
      IsNode foreign (unaryDatum operator argument true)
  | binary {operator : String} {left right : Datum} :
      (binaryPrecedence? operator).isSome → IsNode foreign left → IsNode foreign right →
      IsNode foreign (operatorDatum "BinaryExpression" operator left right)
  | assignment {left right : Datum} :
      IsOperand foreign left → IsNode foreign right →
      IsNode foreign (operatorDatum "AssignmentExpression" "=" left right)
  | ifStatement {conditional : Datum} : IsIf foreign conditional → IsNode foreign conditional
  | whileStatement {condition : Datum} {consequent : List Datum} :
      IsNode foreign condition → (∀ node ∈ consequent, IsNode foreign node) →
      IsNode foreign (.record "WhileStatement"
        [.both "condition" condition, .both "consequent" (blockDatum consequent)])
  | classDeclaration {declaration : Datum} :
      IsClass foreign [] declaration → IsNode foreign declaration
  | namespaceDeclaration {name : Datum} {members : List Datum} {offset : Nat} :
      IsDottedName name → (∀ member ∈ members, IsMember foreign true member) →
      IsNode foreign (.record "NamespaceDeclaration"
        [.both "name" name, .both "body" (.list members), .offset offset])
  | usingDirective {directive : Datum} : IsUsing directive → IsNode foreign directive
  | extension {node : Datum} : foreign node → IsNode foreign node

/-- An access chain, or an operand with an increment or decrement behind it. -/
inductive IsOperand (foreign : Datum → Prop) : Datum → Prop where
  | access {target : Token} {body : List Datum} :
      target.kind = Kind.identifier → (∀ step ∈ body, IsStep foreign step) →
      IsOperand foreign (accessDatum target body)
  | postfixed {operator : String} {argument : Datum} :
      operator = "++" ∨ operator = "--" → IsOperand foreign argument →
      IsOperand foreign (unaryDatum operator argument false)

/-- A step of an access chain. -/
inductive IsStep (foreign : Datum → Prop) : Datum → Prop where
  | member {name : Token} : name.kind = Kind.identifier → IsStep foreign (memberAccessDatum name)
  | index {expression : Datum} :
      IsNode foreign expression →
      IsStep foreign (.record "BracketAccess" [.both "expression" expression])
  | call {arguments : List Datum} :
      (∀ argument ∈ arguments, IsNode foreign argument) →
      IsStep foreign (.record "CallExpression" [.both "arguments" (.list arguments)])

/-- An `if` with its alternate. -/
inductive IsIf (foreign : Datum → Prop) : Datum → Prop where
  | mk {condition alternate : Datum} {consequent : List Datum} :
      IsNode foreign condition → (∀ node ∈ consequent, IsNode foreign node) →
      IsAlternate foreign alternate →
      IsIf foreign (ifDatum condition (blockDatum consequent) alternate)

/-- Nothing, an `else` part, or a further `if`. -/
inductive IsAlternate (foreign : Datum → Prop) : Datum → Prop where
  | none : IsAlternate foreign .absent
  | otherwise {body : List Datum} :
      (∀ node ∈ body, IsNode foreign node) →
      IsAlternate foreign (.record "ElseStatement" [.both "body" (blockDatum body)])
  | elseIf {conditional : Datum} : IsIf foreign conditional → IsAlternate foreign conditional

/-- A class with given modifiers. -/
inductive IsClass (foreign : Datum → Prop) : List String → Datum → Prop where
  | mk {name : String} {generics mods : List String} {bases : List TypeExpr}
      {members : List Datum} {offset : Nat} :
      (∀ member ∈ members, IsMember foreign false member) →
      IsClass foreign mods (.record "ClassDeclaration"
        [.both "name" (.text name), .both "generics" (.texts generics),
          .both "base_types" (.list (typesToData bases)), .both "body" (.list members),
          .both "modifiers" (.texts mods), .offset offset])

/-- A member of a class or of a namespace. -/
inductive IsMember (foreign : Datum → Prop) : Bool → Datum → Prop where
  | field {inNamespace : Bool} {mods : List String} {type : TypeExpr} {name : String}
      {offset : Nat} :
      (∀ word ∈ mods, word ∈ modifiers) →
      IsMember foreign inNamespace (memberDatum mods type name "field" [] .absent offset)
  | signature {inNamespace : Bool} {mods : List String} {type : TypeExpr} {name : String}
      {parameters : List Datum} {offset : Nat} :
      (∀ word ∈ mods, word ∈ modifiers) →
      (∀ parameter ∈ parameters, IsNode foreign parameter) →
      IsMember foreign inNamespace (memberDatum mods type name "method" parameters .absent offset)
  | method {inNamespace : Bool} {mods : List String} {type : TypeExpr} {name : String}
      {parameters body : List Datum} {offset : Nat} :
      (∀ word ∈ mods, word ∈ modifiers) →
      (∀ parameter ∈ parameters, IsNode foreign parameter) →
      (∀ node ∈ body, IsNode foreign node) →
      IsMember foreign inNamespace
        (memberDatum mods type name "method" parameters (blockDatum body) offset)
  | nested {inNamespace : Bool} {mods : List String} {declaration : Datum} :
      (∀ word ∈ mods, word ∈ modifiers) → IsClass foreign mods declaration →
      IsMember foreign inNamespace declaration
  | usingDirective {directive : Datum} : IsUsing directive → IsMember foreign true directive

end

/-- A whole program. -/
inductive IsProgram (foreign : Datum → Prop) : Datum → Prop where
  | mk {body : List Datum} :
      (∀ node ∈ body, IsNode foreign node) →
      IsProgram foreign (.record "Program" [.both "body" (.list body)])

end SharpSyntax.Shape
