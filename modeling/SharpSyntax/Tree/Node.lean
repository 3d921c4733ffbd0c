import SharpSyntax.Token.Basic

/-!
# Syntax trees

The shapes a parse can give are types: a namespace is named by tokens joined with dots and never
by a call, the alternate of an `if` is absent, a block or a further `if`, and members stand only
in the bodies of classes and namespaces.

Statements, declarations and expressions share one type, because each may stand wherever a
statement may. Plugins add shapes of their own as `extension` nodes, which carry a tag and named
fields.
-/

namespace SharpSyntax

/-- A type: a reserved word or a dotted name, with its generic arguments. -/
structure TypeExpr where
  simple : Bool
  name : String
  generics : List TypeExpr

/-- Identifier tokens joined by dots. -/
structure QualifiedName where
  head : Token
  tail : List Token
deriving DecidableEq, Repr

/-- A qualified name as one text. -/
def QualifiedName.dotted (name : QualifiedName) : String :=
  ".".intercalate ((name.head :: name.tail).map Token.text)

/-- What a using directive brings in, and under which name. -/
structure UsingDirective where
  aliasName : Option String
  isStatic : Bool
  target : QualifiedName
deriving DecidableEq, Repr

mutual

/-- An expression, a statement or a declaration. -/
inductive Node where
  | literal (kind : Kind) (value : String)
  | template (text : String) (holes : List String)
  | access (target : Token) (body : List Access)
  | prefixed (operator : String) (argument : Node)
  | postfixed (operator : String) (argument : Node)
  | binary (operator : String) (left right : Node)
  | assignment (left right : Node)
  | ifStatement (condition : Node) (consequent : List Node) (alternate : Alternate)
  | whileStatement (condition : Node) (consequent : List Node)
  | classDeclaration (declaration : ClassDecl)
  | namespaceDeclaration (name : QualifiedName) (members : List Member) (offset : Nat)
  | usingDirective (directive : UsingDirective)
  | extension (tag : String) (fields : List ExtensionField)

/-- One step of an access chain. -/
inductive Access where
  | member (name : Token)
  | index (expression : Node)
  | call (arguments : List Node)

/-- What follows the block of an `if`. -/
inductive Alternate where
  | none
  | otherwise (body : List Node)
  | elseIf (condition : Node) (consequent : List Node) (alternate : Alternate)

/-- A class with its generic parameters, base types and members. -/
structure ClassDecl where
  name : String
  generics : List String
  bases : List TypeExpr
  members : List Member
  modifiers : List String
  offset : Nat

/-- A member of a class or a namespace. A signature is a method without a body. -/
inductive Member where
  | field (modifiers : List String) (type : TypeExpr) (name : String) (offset : Nat)
  | signature (modifiers : List String) (type : TypeExpr) (name : String)
      (parameters : List Node) (offset : Nat)
  | method (modifiers : List String) (type : TypeExpr) (name : String)
      (parameters : List Node) (body : List Node) (offset : Nat)
  | nested (declaration : ClassDecl)
  | usingDirective (directive : UsingDirective)

/-- A named field of an extension node. -/
inductive ExtensionField where
  | text (name value : String)
  | child (name : String) (node : Node)
  | absent (name : String)

end

/-- The statements of a whole source text. -/
structure Program where
  body : List Node

/-- The name of a node's shape; a literal goes by the kind of its token. -/
def Node.tag : Node → String
  | .literal kind _ => kind.name
  | .template .. => "TemplateLiteralExpression"
  | .access .. => "AccessExpression"
  | .prefixed .. => "UnaryExpression"
  | .postfixed .. => "UnaryExpression"
  | .binary .. => "BinaryExpression"
  | .assignment .. => "AssignmentExpression"
  | .ifStatement .. => "IfStatement"
  | .whileStatement .. => "WhileStatement"
  | .classDeclaration _ => "ClassDeclaration"
  | .namespaceDeclaration .. => "NamespaceDeclaration"
  | .usingDirective _ => "UsingExpression"
  | .extension tag _ => tag

/-- The member accesses of a chain as one text, calls and indices left out. -/
def Access.dotted (target : Token) (body : List Access) : String :=
  ".".intercalate (target.text :: body.filterMap fun
    | .member name => some name.text
    | _ => none)

end SharpSyntax
