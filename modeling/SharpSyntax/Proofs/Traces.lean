import SharpSyntax.Proofs.Meets
import SharpSyntax.Proofs.ProgramSpelling
import SharpSyntax.Text.Parts

/-!
# Trees read in source order

A tree keeps a token as a whole, keeps its text, or, where a declaration begins, keeps its offset.
Read in source order it gives a list of such traces: an operator in front of its operand, between
its operands or behind its operand as it was written, a name stored as one text cut at its dots, and
the offset of a declaration in front of its name.

Some tokens *carry* a list of traces when they leave them one after the other. No two texts are left
by one token; but the token at whose offset a declaration begins may leave a text as well.
-/

namespace SharpSyntax

/-- What a tree keeps of a token. -/
inductive Trace where
  | text (text : String)
  | token (token : Token)
  /-- The offset of a token at which a declaration begins. -/
  | start (offset : Nat)

namespace Trace

variable {p : Nat} {item : Trace}

/-- The text that is kept. -/
def text? : Trace → Option String
  | .text t => some t
  | .token t => some t.text
  | .start _ => none

/-- The token that is kept. -/
def token? : Trace → Option Token
  | .token t => some t
  | _ => none

/-- What is left of a trace if only its text is kept. -/
def textOnly : Trace → Trace
  | .token t => .text t.text
  | item => item

/-- A token leaves a trace. -/
def LeftBy (token : Token) : Trace → Prop
  | .text t => t = token.text
  | .token t => t = token
  | .start offset => offset = token.offset

/-- The place behind a trace that the token at `p` has left. A declaration that begins at the token
does not use it up. -/
def behind (p : Nat) : Trace → Nat
  | .start _ => p
  | _ => p + 1

theorem le_behind : p ≤ item.behind p := by
  cases item with
  | text _ => exact Nat.le_succ p
  | token _ => exact Nat.le_succ p
  | start _ => exact Nat.le_refl p

end Trace

/-! ## Reading trees -/

/-- The traces of texts. -/
def textTraces (texts : List String) : List Trace := texts.map .text

/-- The traces of a qualified name. -/
def QualifiedName.traces (name : QualifiedName) : List Trace :=
  (name.head :: name.tail).map .token

/-- The traces of a using directive: the name that it gives and what it brings in. -/
def UsingDirective.traces (directive : UsingDirective) : List Trace :=
  textTraces directive.aliasName.toList ++ directive.target.traces

mutual

/-- The traces of a type, whose name is cut at its dots. -/
def TypeExpr.traces : TypeExpr → List Trace
  | ⟨_, name, generics⟩ => textTraces (nameParts name) ++ typesTraces generics

/-- The traces of types one after the other. -/
def typesTraces : List TypeExpr → List Trace
  | [] => []
  | type :: types => type.traces ++ typesTraces types

end

/-- The traces that a field and a method begin with. -/
def headTraces (modifiers : List String) (type : TypeExpr) (name : String) (offset : Nat) :
    List Trace :=
  .start offset :: (textTraces modifiers ++ type.traces ++ [.text name])

mutual

/-- The traces of a node. -/
def Node.traces : Node → List Trace
  | .literal _ value => [.text value]
  | .template text _ => [.text text]
  | .access target body => .token target :: accessesTraces body
  | .prefixed operator argument => .text operator :: argument.traces
  | .postfixed operator argument => argument.traces ++ [.text operator]
  | .binary operator left right => left.traces ++ .text operator :: right.traces
  | .assignment left right => left.traces ++ .text "=" :: right.traces
  | .ifStatement condition consequent alternate =>
    condition.traces ++ (nodesTraces consequent ++ alternate.traces)
  | .whileStatement condition consequent => condition.traces ++ nodesTraces consequent
  | .classDeclaration declaration => declaration.traces
  | .namespaceDeclaration name members offset =>
    .start offset :: (name.traces ++ membersTraces members)
  | .usingDirective directive => directive.traces
  | .extension _ fields => fieldsTraces fields

/-- The traces of nodes one after the other. -/
def nodesTraces : List Node → List Trace
  | [] => []
  | node :: nodes => node.traces ++ nodesTraces nodes

/-- The traces of a step of an access chain. -/
def Access.traces : Access → List Trace
  | .member name => [.token name]
  | .index expression => expression.traces
  | .call arguments => nodesTraces arguments

/-- The traces of the steps of an access chain one after the other. -/
def accessesTraces : List Access → List Trace
  | [] => []
  | access :: accesses => access.traces ++ accessesTraces accesses

/-- The traces of what follows the block of an `if`. -/
def Alternate.traces : Alternate → List Trace
  | .none => []
  | .otherwise body => nodesTraces body
  | .elseIf condition consequent alternate =>
    condition.traces ++ (nodesTraces consequent ++ alternate.traces)

/-- The traces of a class. Its modifiers stand in front of the word at which it begins. -/
def ClassDecl.traces : ClassDecl → List Trace
  | ⟨name, generics, bases, members, modifiers, offset⟩ =>
    textTraces modifiers ++ .start offset :: .text name ::
      (textTraces generics ++ (typesTraces bases ++ membersTraces members))

/-- The traces of a member. -/
def Member.traces : Member → List Trace
  | .field modifiers type name offset => headTraces modifiers type name offset
  | .signature modifiers type name parameters offset =>
    headTraces modifiers type name offset ++ nodesTraces parameters
  | .method modifiers type name parameters body offset =>
    headTraces modifiers type name offset ++ (nodesTraces parameters ++ nodesTraces body)
  | .nested declaration => declaration.traces
  | .usingDirective directive => directive.traces

/-- The traces of members one after the other. -/
def membersTraces : List Member → List Trace
  | [] => []
  | member :: members => member.traces ++ membersTraces members

/-- The traces of a field of an extension node. -/
def ExtensionField.traces : ExtensionField → List Trace
  | .text _ value => [.text value]
  | .child _ node => node.traces
  | .absent _ => []

/-- The traces of the fields of an extension node one after the other. -/
def fieldsTraces : List ExtensionField → List Trace
  | [] => []
  | field :: fields => field.traces ++ fieldsTraces fields

end

/-- The traces of a program. -/
def Program.traces (program : Program) : List Trace := nodesTraces program.body

/-- A name stored as one text is cut into the texts it was joined from. -/
theorem nameParts_intercalate {texts : List String} (hne : texts ≠ [])
    (hdots : ∀ text ∈ texts, '.' ∉ text.toList) : nameParts (".".intercalate texts) = texts :=
  Text.parts_intercalate hne hdots

theorem nameParts_eq_singleton {text : String} (hdot : '.' ∉ text.toList) :
    nameParts text = [text] := by
  have h : nameParts (".".intercalate [text]) = [text] :=
    nameParts_intercalate (by simp) (by simpa using hdot)
  rwa [String.intercalate_singleton] at h

theorem nodesTraces_append (nodes more : List Node) :
    nodesTraces (nodes ++ more) = nodesTraces nodes ++ nodesTraces more := by
  induction nodes with
  | nil => rfl
  | cons node nodes ih =>
      rw [List.cons_append, nodesTraces, ih, nodesTraces, List.append_assoc]

theorem membersTraces_append (members more : List Member) :
    membersTraces (members ++ more) = membersTraces members ++ membersTraces more := by
  induction members with
  | nil => rfl
  | cons member members ih =>
      rw [List.cons_append, membersTraces, ih, membersTraces, List.append_assoc]

/-! ## Tokens that carry traces -/

variable {input : Input} {p q r : Nat} {items more : List Trace}

/-- The tokens from one place up to another leave the traces, in their order. -/
inductive Input.Carries (input : Input) : Nat → List Trace → Nat → Prop
  | nil {p : Nat} : Carries input p [] p
  | skip {p q : Nat} {items : List Trace} : Carries input (p + 1) items q → Carries input p items q
  | cons {p q : Nat} {item : Trace} {items : List Trace} : p < input.size →
      item.LeftBy (input.tokenAt p) → Carries input (item.behind p) items q →
      Carries input p (item :: items) q

namespace Input.Carries

theorem text (hp : p < input.size) (h : input.Carries (p + 1) items q) :
    input.Carries p (.text (input.tokenAt p).text :: items) q := .cons hp rfl h

theorem token (hp : p < input.size) (h : input.Carries (p + 1) items q) :
    input.Carries p (.token (input.tokenAt p) :: items) q := .cons hp rfl h

theorem start (hp : p < input.size) (h : input.Carries p items q) :
    input.Carries p (.start (input.tokenAt p).offset :: items) q := .cons hp rfl h

theorem le (h : input.Carries p items q) : p ≤ q := by
  induction h with
  | nil => exact Nat.le_refl _
  | skip _ ih => exact Nat.le_of_succ_le ih
  | cons _ _ _ ih => exact Nat.le_trans Trace.le_behind ih

/-- Tokens may be passed over in front. -/
theorem from_le (h : input.Carries q items r) (hle : p ≤ q) : input.Carries p items r := by
  induction hle with
  | refl => exact h
  | step _ ih => exact ih (.skip h)

theorem of_le (hle : p ≤ q) : input.Carries p [] q := Carries.nil.from_le hle

theorem append (h : input.Carries p items q) (h' : input.Carries q more r) :
    input.Carries p (items ++ more) r := by
  induction h with
  | nil => exact h'
  | skip _ ih => exact .skip (ih h')
  | cons hp hleft _ ih => exact .cons hp hleft (ih h')

/-- Tokens may be passed over behind. -/
theorem to_le (h : input.Carries p items q) (hle : q ≤ r) : input.Carries p items r := by
  have happend := h.append (Carries.of_le hle)
  rwa [List.append_nil] at happend

/-- Tokens that carry traces carry their texts. -/
theorem textOnly (h : input.Carries p items q) :
    input.Carries p (items.map Trace.textOnly) q := by
  induction h with
  | nil => exact .nil
  | skip _ ih => exact .skip ih
  | @cons p q item items hp hleft _ ih =>
      rw [List.map_cons]
      cases item with
      | text t => exact .cons hp hleft ih
      | token t => exact .cons hp (congrArg Token.text hleft) ih
      | start offset => exact .cons hp hleft ih

/-- The tokens that carry the first of two lists stand in front of those that carry the second. -/
theorem split (h : input.Carries p (items ++ more) r) :
    ∃ q, input.Carries p items q ∧ input.Carries q more r := by
  generalize hall : items ++ more = all at h
  induction h generalizing items with
  | @nil p =>
      obtain ⟨rfl, rfl⟩ := List.append_eq_nil_iff.mp hall
      exact ⟨p, .nil, .nil⟩
  | skip _ ih =>
      obtain ⟨q, hitems, hmore⟩ := ih hall
      exact ⟨q, .skip hitems, hmore⟩
  | @cons p r item all hp hleft hall' ih =>
      cases items with
      | nil =>
          rw [List.nil_append] at hall
          exact ⟨p, .nil, hall ▸ .cons hp hleft hall'⟩
      | cons other items =>
          obtain ⟨rfl, htail⟩ := List.cons.inj hall
          obtain ⟨q, hitems, hmore⟩ := ih htail
          exact ⟨q, .cons hp hleft hitems, hmore⟩

/-- The token that leaves the first trace. -/
theorem exists_leftBy {item : Trace} (h : input.Carries p (item :: items) q) :
    ∃ i, p ≤ i ∧ i < input.size ∧ item.LeftBy (input.tokenAt i) ∧
      input.Carries (item.behind i) items q := by
  generalize hall : item :: items = all at h
  induction h with
  | nil => cases hall
  | skip _ ih =>
      obtain ⟨i, hle, hi⟩ := ih hall
      exact ⟨i, Nat.le_of_succ_le hle, hi⟩
  | cons hp hleft hitems _ =>
      obtain ⟨rfl, rfl⟩ := List.cons.inj hall
      exact ⟨_, Nat.le_refl _, hp, hleft, hitems⟩

/-- What is read off the traces, if only a token that is used up gives something to read, stands in
order among what is read off the tokens between the two places. -/
theorem sublist {β : Type} {keep : Trace → Option β} {view : Token → β}
    (hkeep : ∀ item b token, keep item = some b → item.LeftBy token → b = view token)
    (hstart : ∀ offset, keep (.start offset) = none) (h : input.Carries p items q) :
    (items.filterMap keep).Sublist (((input.tokens.toList.take q).drop p).map view) := by
  induction h with
  | nil => exact List.nil_sublist _
  | skip _ ih => exact ih.trans ((List.drop_sublist_drop_left _ (Nat.le_succ _)).map view)
  | @cons p q item items hp hleft hitems ih =>
      cases hitem : keep item with
      | none =>
          rw [List.filterMap_cons_none hitem]
          exact ih.trans ((List.drop_sublist_drop_left _ Trace.le_behind).map view)
      | some b =>
          have hbehind : item.behind p = p + 1 := by
            cases item with
            | start offset => rw [hstart] at hitem; cases hitem
            | _ => rfl
          rw [hbehind] at hitems ih
          have hseen : (input.tokens.toList.take q)[p]? = some (input.tokenAt p) := by
            have hpq : p < q := hitems.le
            have hp' : p < input.tokens.size := hp
            rw [List.getElem?_take_of_lt hpq, Array.getElem?_toList, Input.tokenAt,
              Array.getElem?_eq_getElem hp', Option.getD_some]
          have hslice :=
            List.drop_eq_getElem?_toList_append (l := input.tokens.toList.take q) (i := p)
          rw [hseen] at hslice
          rw [List.filterMap_cons_some hitem, hslice, hkeep item b _ hitem hleft]
          exact ih.cons_cons _

end Input.Carries

end SharpSyntax
