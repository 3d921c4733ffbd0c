import SharpSyntax.Tree.Node

/-!
# Trees with other offsets

A tree keeps the offsets of its tokens and of its declarations. `mapOffset move` puts `move n` in
the place of every such offset `n` and leaves all else as it is, so that two trees that are equal
under a constant `move` differ in nothing but offsets.
-/

namespace SharpSyntax

/-- A token at another offset. -/
def Token.mapOffset (move : Nat → Nat) (token : Token) : Token :=
  { token with offset := move token.offset }

/-- Tokens at other offsets. -/
def tokensMapOffset (move : Nat → Nat) (tokens : List Token) : List Token :=
  tokens.map (Token.mapOffset move)

/-- A qualified name with its tokens at other offsets. -/
def QualifiedName.mapOffset (move : Nat → Nat) (name : QualifiedName) : QualifiedName where
  head := name.head.mapOffset move
  tail := tokensMapOffset move name.tail

/-- A using directive with its tokens at other offsets. -/
def UsingDirective.mapOffset (move : Nat → Nat) (directive : UsingDirective) : UsingDirective :=
  { directive with target := directive.target.mapOffset move }

mutual

/-- A node with other offsets. -/
def Node.mapOffset (move : Nat → Nat) : Node → Node
  | .literal kind value => .literal kind value
  | .template text holes => .template text holes
  | .access target body => .access (target.mapOffset move) (accessesMapOffset move body)
  | .prefixed operator argument => .prefixed operator (argument.mapOffset move)
  | .postfixed operator argument => .postfixed operator (argument.mapOffset move)
  | .binary operator left right => .binary operator (left.mapOffset move) (right.mapOffset move)
  | .assignment left right => .assignment (left.mapOffset move) (right.mapOffset move)
  | .ifStatement condition consequent alternate =>
    .ifStatement (condition.mapOffset move) (nodesMapOffset move consequent)
      (alternate.mapOffset move)
  | .whileStatement condition consequent =>
    .whileStatement (condition.mapOffset move) (nodesMapOffset move consequent)
  | .classDeclaration declaration => .classDeclaration (declaration.mapOffset move)
  | .namespaceDeclaration name members offset =>
    .namespaceDeclaration (name.mapOffset move) (membersMapOffset move members) (move offset)
  | .usingDirective directive => .usingDirective (directive.mapOffset move)
  | .extension tag fields => .extension tag (fieldsMapOffset move fields)

/-- Nodes with other offsets. -/
def nodesMapOffset (move : Nat → Nat) : List Node → List Node
  | [] => []
  | node :: nodes => node.mapOffset move :: nodesMapOffset move nodes

/-- A step of an access chain with other offsets. -/
def Access.mapOffset (move : Nat → Nat) : Access → Access
  | .member name => .member (name.mapOffset move)
  | .index expression => .index (expression.mapOffset move)
  | .call arguments => .call (nodesMapOffset move arguments)

/-- The steps of an access chain with other offsets. -/
def accessesMapOffset (move : Nat → Nat) : List Access → List Access
  | [] => []
  | access :: accesses => access.mapOffset move :: accessesMapOffset move accesses

/-- The alternate of an `if` with other offsets. -/
def Alternate.mapOffset (move : Nat → Nat) : Alternate → Alternate
  | .none => .none
  | .otherwise body => .otherwise (nodesMapOffset move body)
  | .elseIf condition consequent alternate =>
    .elseIf (condition.mapOffset move) (nodesMapOffset move consequent) (alternate.mapOffset move)

/-- A class with other offsets. -/
def ClassDecl.mapOffset (move : Nat → Nat) : ClassDecl → ClassDecl
  | ⟨name, generics, bases, members, modifiers, offset⟩ =>
    ⟨name, generics, bases, membersMapOffset move members, modifiers, move offset⟩

/-- A member with other offsets. -/
def Member.mapOffset (move : Nat → Nat) : Member → Member
  | .field modifiers type name offset => .field modifiers type name (move offset)
  | .signature modifiers type name parameters offset =>
    .signature modifiers type name (nodesMapOffset move parameters) (move offset)
  | .method modifiers type name parameters body offset =>
    .method modifiers type name (nodesMapOffset move parameters) (nodesMapOffset move body)
      (move offset)
  | .nested declaration => .nested (declaration.mapOffset move)
  | .usingDirective directive => .usingDirective (directive.mapOffset move)

/-- Members with other offsets. -/
def membersMapOffset (move : Nat → Nat) : List Member → List Member
  | [] => []
  | member :: members => member.mapOffset move :: membersMapOffset move members

/-- A field of an extension node with other offsets. -/
def ExtensionField.mapOffset (move : Nat → Nat) : ExtensionField → ExtensionField
  | .text name value => .text name value
  | .child name node => .child name (node.mapOffset move)
  | .absent name => .absent name

/-- The fields of an extension node with other offsets. -/
def fieldsMapOffset (move : Nat → Nat) : List ExtensionField → List ExtensionField
  | [] => []
  | field :: fields => field.mapOffset move :: fieldsMapOffset move fields

end

/-- A program with other offsets. -/
def Program.mapOffset (move : Nat → Nat) (program : Program) : Program where
  body := nodesMapOffset move program.body

/-- A name is written without its offsets. -/
theorem QualifiedName.dotted_mapOffset (move : Nat → Nat) (name : QualifiedName) :
    (name.mapOffset move).dotted = name.dotted := by
  have htext : Token.text ∘ Token.mapOffset move = Token.text := rfl
  rw [dotted, dotted, mapOffset, tokensMapOffset, List.map_cons, List.map_cons, List.map_map, htext,
    Token.mapOffset]

/-! ## Lists -/

/-- Moving offsets goes through a list of nodes one by one. -/
theorem nodesMapOffset_eq_map (move : Nat → Nat) (nodes : List Node) :
    nodesMapOffset move nodes = nodes.map (Node.mapOffset move) := by
  induction nodes with
  | nil => rfl
  | cons node nodes ih => rw [nodesMapOffset, ih, List.map_cons]

/-- Moving offsets goes through a list of members one by one. -/
theorem membersMapOffset_eq_map (move : Nat → Nat) (members : List Member) :
    membersMapOffset move members = members.map (Member.mapOffset move) := by
  induction members with
  | nil => rfl
  | cons member members ih => rw [membersMapOffset, ih, List.map_cons]

/-! ## Every offset in its own place -/

theorem Token.mapOffset_id (token : Token) : token.mapOffset id = token := rfl

theorem tokensMapOffset_id (tokens : List Token) : tokensMapOffset id tokens = tokens :=
  List.map_id tokens

/-- Offsets that do not move leave a name as it is. -/
theorem QualifiedName.mapOffset_id (name : QualifiedName) : name.mapOffset id = name := by
  rw [QualifiedName.mapOffset, Token.mapOffset_id, tokensMapOffset_id]

/-- Offsets that do not move leave a directive as it is. -/
theorem UsingDirective.mapOffset_id (directive : UsingDirective) :
    directive.mapOffset id = directive := by
  rw [UsingDirective.mapOffset, QualifiedName.mapOffset_id]

mutual

/-- Offsets that do not move leave a node as it is, all the way down. -/
theorem Node.mapOffset_id : ∀ node : Node, node.mapOffset id = node
  | .literal .. => by rw [Node.mapOffset]
  | .template .. => by rw [Node.mapOffset]
  | .access target body => by
      rw [Node.mapOffset, Token.mapOffset_id, accessesMapOffset_id body]
  | .prefixed _ argument => by rw [Node.mapOffset, Node.mapOffset_id argument]
  | .postfixed _ argument => by rw [Node.mapOffset, Node.mapOffset_id argument]
  | .binary _ left right => by
      rw [Node.mapOffset, Node.mapOffset_id left, Node.mapOffset_id right]
  | .assignment left right => by
      rw [Node.mapOffset, Node.mapOffset_id left, Node.mapOffset_id right]
  | .ifStatement condition consequent alternate => by
      rw [Node.mapOffset, Node.mapOffset_id condition, nodesMapOffset_id consequent,
        Alternate.mapOffset_id alternate]
  | .whileStatement condition consequent => by
      rw [Node.mapOffset, Node.mapOffset_id condition, nodesMapOffset_id consequent]
  | .classDeclaration declaration => by
      rw [Node.mapOffset, ClassDecl.mapOffset_id declaration]
  | .namespaceDeclaration _ members _ => by
      rw [Node.mapOffset, QualifiedName.mapOffset_id, membersMapOffset_id members, id]
  | .usingDirective _ => by rw [Node.mapOffset, UsingDirective.mapOffset_id]
  | .extension _ fields => by rw [Node.mapOffset, fieldsMapOffset_id fields]

theorem nodesMapOffset_id : ∀ nodes : List Node, nodesMapOffset id nodes = nodes
  | [] => by rw [nodesMapOffset]
  | node :: nodes => by rw [nodesMapOffset, Node.mapOffset_id node, nodesMapOffset_id nodes]

theorem Access.mapOffset_id : ∀ access : Access, access.mapOffset id = access
  | .member _ => by rw [Access.mapOffset, Token.mapOffset_id]
  | .index expression => by rw [Access.mapOffset, Node.mapOffset_id expression]
  | .call arguments => by rw [Access.mapOffset, nodesMapOffset_id arguments]

theorem accessesMapOffset_id : ∀ accesses : List Access, accessesMapOffset id accesses = accesses
  | [] => by rw [accessesMapOffset]
  | access :: accesses => by
      rw [accessesMapOffset, Access.mapOffset_id access, accessesMapOffset_id accesses]

theorem Alternate.mapOffset_id : ∀ alternate : Alternate, alternate.mapOffset id = alternate
  | .none => by rw [Alternate.mapOffset]
  | .otherwise body => by rw [Alternate.mapOffset, nodesMapOffset_id body]
  | .elseIf condition consequent alternate => by
      rw [Alternate.mapOffset, Node.mapOffset_id condition, nodesMapOffset_id consequent,
        Alternate.mapOffset_id alternate]

/-- Offsets that do not move leave a class as it is. -/
theorem ClassDecl.mapOffset_id : ∀ declaration : ClassDecl, declaration.mapOffset id = declaration
  | ⟨_, _, _, members, _, _⟩ => by rw [ClassDecl.mapOffset, membersMapOffset_id members, id]

/-- Offsets that do not move leave a member as it is. -/
theorem Member.mapOffset_id : ∀ member : Member, member.mapOffset id = member
  | .field .. => by rw [Member.mapOffset, id]
  | .signature _ _ _ parameters _ => by rw [Member.mapOffset, nodesMapOffset_id parameters, id]
  | .method _ _ _ parameters body _ => by
      rw [Member.mapOffset, nodesMapOffset_id parameters, nodesMapOffset_id body, id]
  | .nested declaration => by rw [Member.mapOffset, ClassDecl.mapOffset_id declaration]
  | .usingDirective _ => by rw [Member.mapOffset, UsingDirective.mapOffset_id]

theorem membersMapOffset_id : ∀ members : List Member, membersMapOffset id members = members
  | [] => by rw [membersMapOffset]
  | member :: members => by
      rw [membersMapOffset, Member.mapOffset_id member, membersMapOffset_id members]

theorem ExtensionField.mapOffset_id : ∀ field : ExtensionField, field.mapOffset id = field
  | .text .. => by rw [ExtensionField.mapOffset]
  | .child _ node => by rw [ExtensionField.mapOffset, Node.mapOffset_id node]
  | .absent _ => by rw [ExtensionField.mapOffset]

theorem fieldsMapOffset_id : ∀ fields : List ExtensionField, fieldsMapOffset id fields = fields
  | [] => by rw [fieldsMapOffset]
  | field :: fields => by
      rw [fieldsMapOffset, ExtensionField.mapOffset_id field, fieldsMapOffset_id fields]

end

/-- Offsets that do not move leave a program as it is. -/
theorem Program.mapOffset_id (program : Program) : program.mapOffset id = program := by
  rw [Program.mapOffset, nodesMapOffset_id]

end SharpSyntax
