import SharpSyntax.Tree.Node

/-!
# Trees as data

Every part of a syntax tree is written out as one kind of data: tagged records with named fields
in a fixed order. Both outputs of the command line, the data form and the outline, are printed
from it. They differ in two fields: offsets are data only, and the kind of a literal, which the
data form already has as the tag, is shown in the outline only.
-/

namespace SharpSyntax

/-- Which outputs a field is part of. -/
inductive Shown where
  | everywhere
  | dataOnly
  | outlineOnly
deriving DecidableEq, Repr

mutual

/-- A tree as plain data. -/
inductive Datum where
  | absent
  | flag (value : Bool)
  | number (value : Nat)
  | text (value : String)
  | token (token : Token)
  | list (items : List Datum)
  | record (tag : String) (fields : List DatumField)

/-- A named field of a record. -/
structure DatumField where
  name : String
  value : Datum
  shown : Shown

end

namespace DatumField

/-- A field of both outputs. -/
def both (name : String) (value : Datum) : DatumField := ⟨name, value, .everywhere⟩

/-- The offset at which a declaration begins. -/
def offset (value : Nat) : DatumField := ⟨"offset", .number value, .dataOnly⟩

end DatumField

/-- A list of texts as data. -/
def Datum.texts (values : List String) : Datum := .list (values.map .text)

/-- A text that may be absent. -/
def Datum.text? : Option String → Datum
  | none => .absent
  | some value => .text value

mutual

/-- A type as data. -/
def TypeExpr.toDatum : TypeExpr → Datum
  | ⟨simple, name, generics⟩ =>
    .record "TypeExpression"
      [.both "simple" (.flag simple), .both "name" (.text name),
        .both "generics" (.list (typesToData generics))]

/-- Types as data. -/
def typesToData : List TypeExpr → List Datum
  | [] => []
  | type :: types => type.toDatum :: typesToData types

end

/-- A chain with its target. -/
def accessDatum (target : Token) (body : List Datum) : Datum :=
  .record "AccessExpression" [.both "target" (.token target), .both "body" (.list body)]

/-- A member access as data. -/
def memberAccessDatum (name : Token) : Datum :=
  .record "DotAccess" [.both "property" (.token name)]

/-- A qualified name as data: a chain of member accesses. -/
def QualifiedName.toDatum (name : QualifiedName) : Datum :=
  accessDatum name.head (name.tail.map memberAccessDatum)

/-- A using directive as data. -/
def UsingDirective.toDatum (directive : UsingDirective) : Datum :=
  .record "UsingExpression"
    [.both "alias" (.text? directive.aliasName), .both "static" (.flag directive.isStatic),
      .both "target" directive.target.toDatum]

/-- The statements of a block as data. -/
def blockDatum (body : List Datum) : Datum := .record "BlockStatement" [.both "body" (.list body)]

/-- An operator at one side of its argument. -/
def unaryDatum (operator : String) (argument : Datum) (before : Bool) : Datum :=
  .record "UnaryExpression"
    [.both "operator" (.text operator), .both "argument" argument, .both "prefix" (.flag before)]

/-- An operator between two operands. -/
def operatorDatum (tag operator : String) (left right : Datum) : Datum :=
  .record tag
    [.both "operator" (.text operator), .both "left" left, .both "right" right]

/-- An `if` with its alternate. -/
def ifDatum (condition consequent alternate : Datum) : Datum :=
  .record "IfStatement"
    [.both "condition" condition, .both "consequent" consequent, .both "alternate" alternate]

/-- A field or a method. -/
def memberDatum (modifiers : List String) (type : TypeExpr) (name kind : String)
    (parameters : List Datum) (body : Datum) (offset : Nat) : Datum :=
  .record "ClassMember"
    [.both "modifiers" (.texts modifiers), .both "return_type" type.toDatum,
      .both "name" (.text name), .both "kind" (.text kind),
      .both "parameters" (.list parameters), .both "body" body, .offset offset]

mutual

/-- A node as data. -/
def Node.toDatum : Node → Datum
  | .literal kind value =>
    .record kind.name [⟨"kind", .text kind.name, .outlineOnly⟩, .both "value" (.text value)]
  | .template text holes =>
    .record "TemplateLiteralExpression"
      [.both "template" (.text text), .both "replacees" (.texts holes)]
  | .access target body => accessDatum target (accessesToData body)
  | .prefixed operator argument => unaryDatum operator argument.toDatum true
  | .postfixed operator argument => unaryDatum operator argument.toDatum false
  | .binary operator left right =>
    operatorDatum "BinaryExpression" operator left.toDatum right.toDatum
  | .assignment left right => operatorDatum "AssignmentExpression" "=" left.toDatum right.toDatum
  | .ifStatement condition consequent alternate =>
    ifDatum condition.toDatum (blockDatum (nodesToData consequent)) alternate.toDatum
  | .whileStatement condition consequent =>
    .record "WhileStatement"
      [.both "condition" condition.toDatum,
        .both "consequent" (blockDatum (nodesToData consequent))]
  | .classDeclaration declaration => declaration.toDatum
  | .namespaceDeclaration name members offset =>
    .record "NamespaceDeclaration"
      [.both "name" name.toDatum, .both "body" (.list (membersToData members)), .offset offset]
  | .usingDirective directive => directive.toDatum
  | .extension tag fields => .record tag (extensionFieldsToData fields)

/-- Nodes as data. -/
def nodesToData : List Node → List Datum
  | [] => []
  | node :: nodes => node.toDatum :: nodesToData nodes

/-- A step of an access chain as data. -/
def Access.toDatum : Access → Datum
  | .member name => memberAccessDatum name
  | .index expression => .record "BracketAccess" [.both "expression" expression.toDatum]
  | .call arguments => .record "CallExpression" [.both "arguments" (.list (nodesToData arguments))]

/-- The steps of an access chain as data. -/
def accessesToData : List Access → List Datum
  | [] => []
  | access :: accesses => access.toDatum :: accessesToData accesses

/-- The alternate of an `if` as data. -/
def Alternate.toDatum : Alternate → Datum
  | .none => .absent
  | .otherwise body => .record "ElseStatement" [.both "body" (blockDatum (nodesToData body))]
  | .elseIf condition consequent alternate =>
    ifDatum condition.toDatum (blockDatum (nodesToData consequent)) alternate.toDatum

/-- A class as data. -/
def ClassDecl.toDatum : ClassDecl → Datum
  | ⟨name, generics, bases, members, modifiers, offset⟩ =>
    .record "ClassDeclaration"
      [.both "name" (.text name), .both "generics" (.texts generics),
        .both "base_types" (.list (typesToData bases)),
        .both "body" (.list (membersToData members)),
        .both "modifiers" (.texts modifiers), .offset offset]

/-- A member as data. -/
def Member.toDatum : Member → Datum
  | .field modifiers type name offset => memberDatum modifiers type name "field" [] .absent offset
  | .signature modifiers type name parameters offset =>
    memberDatum modifiers type name "method" (nodesToData parameters) .absent offset
  | .method modifiers type name parameters body offset =>
    memberDatum modifiers type name "method" (nodesToData parameters)
      (blockDatum (nodesToData body)) offset
  | .nested declaration => declaration.toDatum
  | .usingDirective directive => directive.toDatum

/-- Members as data. -/
def membersToData : List Member → List Datum
  | [] => []
  | member :: members => member.toDatum :: membersToData members

/-- The fields of an extension node as data. -/
def extensionFieldsToData : List ExtensionField → List DatumField
  | [] => []
  | .text name value :: fields => .both name (.text value) :: extensionFieldsToData fields
  | .child name node :: fields => .both name node.toDatum :: extensionFieldsToData fields
  | .absent name :: fields => .both name .absent :: extensionFieldsToData fields

end

/-- A program as data. -/
def Program.toDatum (program : Program) : Datum :=
  .record "Program" [.both "body" (.list (nodesToData program.body))]

end SharpSyntax
