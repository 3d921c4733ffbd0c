import SharpSyntax.Grammar.Expressions
import SharpSyntax.Tree.Json

/-!
# Reading trees from their data form

An object of the data form says what it stands for by its entry `type`, which is the name of a
shape, the kind of a literal or the kind of a token. A token is known by its position. Every other
object is put together from what its entries stand for, looked up by their names, so that a value is
read from the inside out.

What stands for several things is told apart by where it is found: a class is a statement or a
member, an `if` is a statement or what follows another `if`, and a chain of member accesses is an
expression or a name.

The data form does not tell a node of a plugin from one of the grammar. Of plugins the nodes of the
bundled one are read, whose names are no others.
-/

namespace SharpSyntax

/-- What a value of the data form stands for. -/
inductive Reading where
  | absent
  | flag (value : Bool)
  | number (value : Nat)
  | text (value : String)
  | token (token : Token)
  | list (items : List Reading)
  | type (type : TypeExpr)
  | step (step : Access)
  | block (body : List Node)
  | otherwise (body : List Node)
  | member (member : Member)
  | node (node : Node)
  | program (program : Program)

/-- The name behind a dot, if the step is a member access. -/
def Access.member? : Access → Option Token
  | .member name => some name
  | _ => none

namespace Reading

/-- A truth value, if that was read. -/
@[simp]
def flag? : Reading → Option Bool
  | .flag value => some value
  | _ => none

/-- A number, if that was read. -/
@[simp]
def number? : Reading → Option Nat
  | .number value => some value
  | _ => none

/-- A text, if that was read. -/
@[simp]
def text? : Reading → Option String
  | .text value => some value
  | _ => none

/-- A text or its absence, if either was read. -/
def optionalText? : Reading → Option (Option String)
  | .text value => some (some value)
  | .absent => some none
  | _ => none

/-- A token, if that was read. -/
@[simp]
def token? : Reading → Option Token
  | .token value => some value
  | _ => none

/-- The items of a list, each told in the same way. -/
def listOf? {α : Type} (read : Reading → Option α) : Reading → Option (List α)
  | .list items => items.mapM read
  | _ => none

/-- A type, if that was read. -/
@[simp]
def type? : Reading → Option TypeExpr
  | .type value => some value
  | _ => none

/-- A step of an access chain, if that was read. -/
@[simp]
def step? : Reading → Option Access
  | .step value => some value
  | _ => none

/-- The statements of a block, if that was read. -/
@[simp]
def block? : Reading → Option (List Node)
  | .block body => some body
  | _ => none

/-- A node, if that was read. -/
@[simp]
def node? : Reading → Option Node
  | .node value => some value
  | _ => none

/-- The name of a chain of nothing but member accesses. -/
def name? : Reading → Option QualifiedName
  | .node (.access head body) => QualifiedName.mk head <$> body.mapM Access.member?
  | _ => none

/-- What follows the block of an `if`: nothing, an `else` part or a further `if`. -/
def alternate? : Reading → Option Alternate
  | .absent => some .none
  | .otherwise body => some (.otherwise body)
  | .node (.ifStatement condition consequent alternate) =>
    some (.elseIf condition consequent alternate)
  | _ => none

/-- A member: a field or a method, or a declaration that is one where it stands. -/
def member? : Reading → Option Member
  | .member value => some value
  | .node (.classDeclaration declaration) => some (.nested declaration)
  | .node (.usingDirective directive) => some (.usingDirective directive)
  | _ => none

/-- A program, if that was read. -/
@[simp]
def program? : Reading → Option Program
  | .program value => some value
  | _ => none

end Reading

/-! ## Objects -/

/-- The entries of an object by their names. -/
abbrev Fields := List (String × Reading)

namespace Fields

/-- The entry of a name, read in some way. -/
def get? {α : Type} (fields : Fields) (name : String) (read : Reading → Option α) : Option α :=
  ((fields.find? (·.1 = name)).map (·.2)).bind read

/-- The token that an object stands for. -/
def token? (fields : Fields) (kind : String) : Option Token := do
  return ⟨⟨kind⟩, ← fields.get? "value" Reading.text?, ← fields.get? "position" Reading.number?⟩

/-- An operator at one side of its argument. -/
def unary? (fields : Fields) : Option Node := do
  let operator ← fields.get? "operator" Reading.text?
  let argument ← fields.get? "argument" Reading.node?
  if ← fields.get? "prefix" Reading.flag? then return .prefixed operator argument
  else return .postfixed operator argument

/-- A using directive. -/
def directive? (fields : Fields) : Option UsingDirective := do
  return ⟨← fields.get? "alias" Reading.optionalText?, ← fields.get? "static" Reading.flag?,
    ← fields.get? "target" Reading.name?⟩

/-- A class. -/
def classDeclaration? (fields : Fields) : Option ClassDecl := do
  return ⟨← fields.get? "name" Reading.text?,
    ← fields.get? "generics" (Reading.listOf? Reading.text?),
    ← fields.get? "base_types" (Reading.listOf? Reading.type?),
    ← fields.get? "body" (Reading.listOf? Reading.member?),
    ← fields.get? "modifiers" (Reading.listOf? Reading.text?),
    ← fields.get? "offset" Reading.number?⟩

/-- A field or a method. -/
def member? (fields : Fields) : Option Member := do
  let modifiers ← fields.get? "modifiers" (Reading.listOf? Reading.text?)
  let type ← fields.get? "return_type" Reading.type?
  let name ← fields.get? "name" Reading.text?
  let offset ← fields.get? "offset" Reading.number?
  if (← fields.get? "kind" Reading.text?) = "field" then return .field modifiers type name offset
  let parameters ← fields.get? "parameters" (Reading.listOf? Reading.node?)
  match fields.get? "body" Reading.block? with
  | some body => return .method modifiers type name parameters body offset
  | none => return .signature modifiers type name parameters offset

/-- A `return` of the bundled plugin. -/
def returnStatement? (fields : Fields) : Option Node :=
  match fields.get? "argument" Reading.node? with
  | some argument => some (.extension "ReturnStatement" [.child "argument" argument])
  | none => some (.extension "ReturnStatement" [.absent "argument"])

/-- What an object without a position stands for. -/
def shape? (fields : Fields) : String → Option Reading
  | "TypeExpression" => do
    return .type ⟨← fields.get? "simple" Reading.flag?, ← fields.get? "name" Reading.text?,
      ← fields.get? "generics" (Reading.listOf? Reading.type?)⟩
  | "DotAccess" => do return .step (.member (← fields.get? "property" Reading.token?))
  | "BracketAccess" => do return .step (.index (← fields.get? "expression" Reading.node?))
  | "CallExpression" => do
    return .step (.call (← fields.get? "arguments" (Reading.listOf? Reading.node?)))
  | "BlockStatement" => do return .block (← fields.get? "body" (Reading.listOf? Reading.node?))
  | "ElseStatement" => do return .otherwise (← fields.get? "body" Reading.block?)
  | "ClassMember" => Reading.member <$> fields.member?
  | "TemplateLiteralExpression" => do
    return .node (.template (← fields.get? "template" Reading.text?)
      (← fields.get? "replacees" (Reading.listOf? Reading.text?)))
  | "AccessExpression" => do
    return .node (.access (← fields.get? "target" Reading.token?)
      (← fields.get? "body" (Reading.listOf? Reading.step?)))
  | "UnaryExpression" => Reading.node <$> fields.unary?
  | "BinaryExpression" => do
    return .node (.binary (← fields.get? "operator" Reading.text?)
      (← fields.get? "left" Reading.node?) (← fields.get? "right" Reading.node?))
  | "AssignmentExpression" => do
    return .node (.assignment (← fields.get? "left" Reading.node?)
      (← fields.get? "right" Reading.node?))
  | "IfStatement" => do
    return .node (.ifStatement (← fields.get? "condition" Reading.node?)
      (← fields.get? "consequent" Reading.block?) (← fields.get? "alternate" Reading.alternate?))
  | "WhileStatement" => do
    return .node (.whileStatement (← fields.get? "condition" Reading.node?)
      (← fields.get? "consequent" Reading.block?))
  | "ClassDeclaration" => (Reading.node ∘ .classDeclaration) <$> fields.classDeclaration?
  | "NamespaceDeclaration" => do
    return .node (.namespaceDeclaration (← fields.get? "name" Reading.name?)
      (← fields.get? "body" (Reading.listOf? Reading.member?))
      (← fields.get? "offset" Reading.number?))
  | "UsingExpression" => (Reading.node ∘ .usingDirective) <$> fields.directive?
  | "KeywordLiteral" => do
    return .node (.extension "KeywordLiteral" [.text "value" (← fields.get? "value" Reading.text?)])
  | "ReturnStatement" => Reading.node <$> fields.returnStatement?
  | "Program" => do return .program ⟨← fields.get? "body" (Reading.listOf? Reading.node?)⟩
  -- a literal has no tag of its own but goes by its kind
  | kind => do return .node (.literal ⟨kind⟩ (← fields.get? "value" Reading.text?))

/-- What an object stands for. -/
def reading? (fields : Fields) : Option Reading := do
  let tag ← fields.get? "type" Reading.text?
  -- nothing but a token has a position
  match fields.token? tag with
  | some token => return .token token
  | none => fields.shape? tag

end Fields

/-! ## Values -/

mutual

/-- What a value of the data form stands for. -/
def Json.reading? : Json → Option Reading
  | .null => some .absent
  | .boolean value => some (.flag value)
  | .number value => some (.number value.toNat)
  | .string value => some (.text value)
  | .array items => (itemReadings? items).map .list
  | .object entries => (entryReadings? entries).bind Fields.reading?

/-- What items stand for. -/
def itemReadings? : List Json → Option (List Reading)
  | [] => some []
  | item :: items => do return (← item.reading?) :: (← itemReadings? items)

/-- What the entries of an object stand for. -/
def entryReadings? : List JsonEntry → Option Fields
  | [] => some []
  | ⟨name, value⟩ :: entries => do return (name, ← value.reading?) :: (← entryReadings? entries)

end

/-- What a value of the data form stands for where it is found, which tells what to take it for. -/
def Json.readAs? {α : Type} (json : Json) (read : Reading → Option α) : Option α :=
  json.reading?.bind read

/-- The node that a value of the data form stands for. -/
def Node.ofJson? (json : Json) : Option Node := json.readAs? Reading.node?

/-- The program that a value of the data form stands for. -/
def Program.ofJson? (json : Json) : Option Program := json.readAs? Reading.program?

/-! ## What is written is read -/

/-- Data whose data form stands for a reading. -/
def Datum.Reads (datum : Datum) (reading : Reading) : Prop := datum.toJson.reading? = some reading

/-- Items that stand for readings one by one. -/
def ReadItems (items : List Datum) (readings : List Reading) : Prop :=
  itemReadings? (dataToJson items) = some readings

/-- Fields whose entries stand for readings. -/
def ReadFields (fields : List DatumField) (readings : Fields) : Prop :=
  entryReadings? (fieldsToJson fields) = some readings

section

variable {datum : Datum} {reading : Reading} {items : List Datum} {readings : List Reading}
  {fields : List DatumField} {known : Fields} {name tag : String}

theorem ReadItems.nil : ReadItems [] [] := rfl

/-- Items are read from the first one on. -/
theorem ReadItems.cons (h : datum.Reads reading) (hs : ReadItems items readings) :
    ReadItems (datum :: items) (reading :: readings) := by
  unfold ReadItems Datum.Reads at *
  rw [dataToJson, itemReadings?, h, hs]
  rfl

theorem ReadFields.nil : ReadFields [] [] := rfl

/-- A field that stands in the data form is read with its name. -/
theorem ReadFields.both (h : datum.Reads reading) (hs : ReadFields fields known) :
    ReadFields (.both name datum :: fields) ((name, reading) :: known) := by
  unfold ReadFields Datum.Reads at *
  rw [DatumField.both, fieldsToJson, if_neg (by decide), entryReadings?, h, hs]
  rfl

/-- An offset stands in the data form as a number. -/
theorem ReadFields.offset {offset : Nat} (hs : ReadFields fields known) :
    ReadFields (.offset offset :: fields) (("offset", .number offset) :: known) := by
  unfold ReadFields at *
  rw [DatumField.offset, fieldsToJson, if_neg (by decide), entryReadings?, hs]
  rfl

namespace Datum.Reads

/-- What a value stands for is taken for what it is wanted as. -/
theorem readAs {α : Type} {read : Reading → Option α} {a : α} (h : datum.Reads reading)
    (hread : read reading = some a) : datum.toJson.readAs? read = some a := by
  rw [Json.readAs?, h, Option.bind_some, hread]

theorem text {value : String} : (Datum.text value).Reads (.text value) := rfl

theorem flag {value : Bool} : (Datum.flag value).Reads (.flag value) := rfl

theorem absent : Datum.absent.Reads .absent := rfl

theorem token {token : Token} : (Datum.token token).Reads (.token token) := rfl

/-- A list is read item by item. -/
theorem list (h : ReadItems items readings) : (Datum.list items).Reads (.list readings) := by
  unfold Datum.Reads ReadItems at *
  rw [Datum.toJson, Json.reading?, h]
  rfl

/-- A record is read by its tag and its fields. -/
theorem record (h : ReadFields fields known)
    (hreading : Fields.reading? (("type", .text tag) :: known) = some reading) :
    (Datum.record tag fields).Reads reading := by
  unfold Datum.Reads ReadFields at *
  rw [Datum.toJson, Json.reading?, entryReadings?, h]
  exact hreading

end Datum.Reads

/-! ## Lists -/

/-- Items that are wrapped one by one are told one by one. -/
theorem mapM_wrapped {α β : Type} (read : β → Option α) (wrap : α → β)
    (h : ∀ a, read (wrap a) = some a) (items : List α) :
    (items.map wrap).mapM read = some items := by
  have hread : read ∘ wrap = fun a => pure a := funext h
  rw [List.mapM_map, hread, List.mapM_pure, List.map_id', Option.pure_def]

namespace Reading

@[simp]
theorem listOf?_texts (texts : List String) :
    listOf? text? (.list (texts.map .text)) = some texts :=
  mapM_wrapped text? .text (fun _ => rfl) texts

@[simp]
theorem listOf?_types (types : List TypeExpr) :
    listOf? type? (.list (types.map .type)) = some types :=
  mapM_wrapped type? .type (fun _ => rfl) types

@[simp]
theorem listOf?_steps (steps : List Access) :
    listOf? step? (.list (steps.map .step)) = some steps :=
  mapM_wrapped step? .step (fun _ => rfl) steps

/-- A list of nodes is taken for one. -/
@[simp]
theorem listOf?_nodes (nodes : List Node) :
    listOf? node? (.list (nodes.map .node)) = some nodes :=
  mapM_wrapped node? .node (fun _ => rfl) nodes

end Reading

/-- A list of texts is read text by text. -/
theorem Datum.Reads.texts (texts : List String) :
    (Datum.texts texts).Reads (.list (texts.map .text)) := by
  have hitems : ReadItems (texts.map .text) (texts.map .text) := by
    induction texts with
    | nil => exact .nil
    | cons text texts ih => exact .cons .text ih
  exact .list hitems

namespace Fields

/-- A field is looked up by its name, the first one first. -/
@[simp]
theorem get?_cons {α : Type} (name : String) (reading : Reading) (fields : Fields) (wanted : String)
    (read : Reading → Option α) : get? ((name, reading) :: fields) wanted read =
      if name = wanted then read reading else fields.get? wanted read := by
  unfold get?
  rw [List.find?_cons]
  split <;> simp_all

@[simp]
theorem get?_nil {α : Type} (wanted : String) (read : Reading → Option α) :
    get? [] wanted read = none := rfl

/-- What has no position is told by its tag. -/
theorem reading?_eq {fields : Fields} {tag : String}
    (h : get? fields "position" Reading.number? = none) :
    reading? (("type", .text tag) :: fields) = shape? (("type", .text tag) :: fields) tag := by
  simp [reading?, token?, h]

end Fields

/-- A record whose fields are read is read as its shape. -/
theorem Datum.Reads.shape (h : ReadFields fields known)
    (hposition : known.get? "position" Reading.number? = none)
    (hreading : Fields.shape? (("type", .text tag) :: known) tag = some reading) :
    (Datum.record tag fields).Reads reading :=
  .record h (by rw [Fields.reading?_eq hposition, hreading])

end

/-! ## Types and names -/

mutual

/-- A type is read back with the types in it. -/
theorem TypeExpr.reads : ∀ type : TypeExpr, type.toDatum.Reads (.type type)
  | ⟨simple, name, generics⟩ => by
      rw [TypeExpr.toDatum]
      exact .shape (.both .flag (.both .text (.both (.list (types_read generics)) .nil)))
        (by simp) (by simp [Fields.shape?])

theorem types_read : ∀ types : List TypeExpr, ReadItems (typesToData types) (types.map .type)
  | [] => .nil
  | type :: types => .cons type.reads (types_read types)

end

theorem memberAccess_reads (name : Token) :
    (memberAccessDatum name).Reads (.step (.member name)) :=
  .shape (.both .token .nil) (by simp) (by simp [Fields.shape?])

/-- An access chain is read back where its steps are. -/
theorem access_reads {body : List Datum} {steps : List Access} (target : Token)
    (h : ReadItems body (steps.map .step)) :
    (accessDatum target body).Reads (.node (.access target steps)) :=
  .shape (.both .token (.both (.list h) .nil)) (by simp) (by simp [Fields.shape?])

/-- The chain that a name is. -/
def QualifiedName.reading (name : QualifiedName) : Reading :=
  .node (.access name.head (name.tail.map .member))

/-- A name is written as the chain that it is. -/
theorem QualifiedName.reads (name : QualifiedName) : name.toDatum.Reads name.reading := by
  refine access_reads name.head ?_
  induction name.tail with
  | nil => exact .nil
  | cons token tail ih => exact .cons (memberAccess_reads token) ih

/-- The chain that a name is written as is taken for the name. -/
@[simp]
theorem QualifiedName.name?_reading (name : QualifiedName) : name.reading.name? = some name := by
  rw [reading, Reading.name?, mapM_wrapped Access.member? .member fun _ => rfl]
  rfl

/-- A directive is read back, with an alias or without. -/
theorem UsingDirective.reads (directive : UsingDirective) :
    directive.toDatum.Reads (.node (.usingDirective directive)) := by
  have halias : ∃ reading, (Datum.text? directive.aliasName).Reads reading ∧
      reading.optionalText? = some directive.aliasName := by
    cases directive.aliasName with
    | none => exact ⟨_, .absent, rfl⟩
    | some name => exact ⟨_, .text, rfl⟩
  obtain ⟨reading, hreads, halias⟩ := halias
  exact .shape (.both hreads (.both .flag (.both directive.target.reads .nil)))
    (by simp) (by simp [Fields.shape?, Fields.directive?, halias])

/-! ## Statements and declarations -/

/-- A list of nodes is read where every node is. -/
theorem nodes_read {nodes : List Node} (h : ∀ node ∈ nodes, node.toDatum.Reads (.node node)) :
    ReadItems (nodesToData nodes) (nodes.map .node) := by
  induction nodes with
  | nil => exact .nil
  | cons node nodes ih =>
      rw [List.forall_mem_cons] at h
      exact .cons h.1 (ih h.2)

/-- A block is read where its nodes are. -/
theorem block_reads {nodes : List Node} (h : ∀ node ∈ nodes, node.toDatum.Reads (.node node)) :
    (blockDatum (nodesToData nodes)).Reads (.block nodes) :=
  .shape (.both (.list (nodes_read h)) .nil) (by simp) (by simp [Fields.shape?])

/-- What stands for the alternate of an `if`. -/
def Alternate.reading : Alternate → Reading
  | .none => .absent
  | .otherwise body => .otherwise body
  | .elseIf condition consequent alternate => .node (.ifStatement condition consequent alternate)

/-- What stands for an alternate is taken for it: nothing, a block or another `if`. -/
@[simp]
theorem Alternate.alternate?_reading (alternate : Alternate) :
    alternate.reading.alternate? = some alternate := by
  cases alternate <;> rfl

/-- What stands for a member. -/
def Member.reading : Member → Reading
  | .nested declaration => .node (.classDeclaration declaration)
  | .usingDirective directive => .node (.usingDirective directive)
  | member => .member member

/-- What stands for a member is taken for it, classes and directives among them. -/
@[simp]
theorem Member.member?_reading (member : Member) : member.reading.member? = some member := by
  cases member <;> rfl

@[simp]
theorem Reading.listOf?_members (members : List Member) :
    listOf? member? (.list (members.map Member.reading)) = some members :=
  mapM_wrapped member? Member.reading Member.member?_reading members

/-- An `if` is read where its three parts are, also behind an `else`. -/
theorem if_reads {condition : Node} {consequent : List Node} {alternate : Alternate}
    (hcondition : condition.toDatum.Reads (.node condition))
    (hconsequent : ∀ node ∈ consequent, node.toDatum.Reads (.node node))
    (halternate : alternate.toDatum.Reads alternate.reading) :
    (ifDatum condition.toDatum (blockDatum (nodesToData consequent)) alternate.toDatum).Reads
      (.node (.ifStatement condition consequent alternate)) :=
  .shape (.both hcondition (.both (block_reads hconsequent) (.both halternate .nil)))
    (by simp) (by simp [Fields.shape?])

/-- The flag of a unary expression tells on which side of its operand the operator stands. -/
theorem unary_reads {operator : String} {argument : Node} {before : Bool}
    (h : argument.toDatum.Reads (.node argument)) :
    (unaryDatum operator argument.toDatum before).Reads
      (.node (if before then .prefixed operator argument else .postfixed operator argument)) := by
  refine .shape (.both .text (.both h (.both .flag .nil))) (by simp) ?_
  cases before <;> simp [Fields.shape?, Fields.unary?]

/-- Fields, signatures and methods are written alike and told by what is read of them. -/
theorem member_reads {modifiers : List String} {type : TypeExpr} {name kind : String}
    {parameters : List Node} {body : Datum} {offset : Nat} {reading : Reading} {member : Member}
    (hparameters : ∀ node ∈ parameters, node.toDatum.Reads (.node node))
    (hbody : body.Reads reading)
    (hmember : Fields.member? [("type", .text "ClassMember"),
      ("modifiers", .list (modifiers.map .text)), ("return_type", .type type), ("name", .text name),
      ("kind", .text kind), ("parameters", .list (parameters.map .node)), ("body", reading),
      ("offset", .number offset)] = some member) :
    (memberDatum modifiers type name kind (nodesToData parameters) body offset).Reads
      (.member member) := by
  refine .shape (.both (.texts modifiers) (.both type.reads (.both .text (.both .text
    (.both (.list (nodes_read hparameters)) (.both hbody (.offset .nil))))))) (by simp) ?_
  simp [Fields.shape?, hmember]

end SharpSyntax
