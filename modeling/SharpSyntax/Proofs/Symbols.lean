import SharpSyntax.LanguageServer
import SharpSyntax.Proofs.Positions
import SharpSyntax.Proofs.ShownLines
import SharpSyntax.Proofs.SourceOrder

/-!
# The symbols of a document are its declarations

The declarations of a program are its namespaces and classes and what is declared in their bodies:
classes, fields and methods. Nothing else is looked into, so that a class in the body of a method is
none of them. They form a forest, and the symbols of a document mirror it.

Read from the outermost inwards, the symbols stand in the order of the text. Each begins at a token
of its own: a declaration begins at its first token, or at the word `class` behind its modifiers,
and behind that token stands at least its name before the next declaration begins.
-/

namespace SharpSyntax

open LanguageServer

/-! ## Declarations -/

/-- A declaration that a reader of a document looks for. -/
inductive Declaration where
  | ofNamespace (name : QualifiedName) (members : List Member) (offset : Nat)
  | ofClass (declaration : ClassDecl)
  | ofField (modifiers : List String) (type : TypeExpr) (name : String) (offset : Nat)
  | ofMethod (modifiers : List String) (type : TypeExpr) (name : String) (parameters : List Node)
      (body : Option (List Node)) (offset : Nat)

namespace Declaration

/-- The declaration that a member is. Using directives declare nothing. -/
def ofMember? : Member → Option Declaration
  | .field modifiers type name offset => some (.ofField modifiers type name offset)
  | .signature modifiers type name parameters offset =>
    some (.ofMethod modifiers type name parameters none offset)
  | .method modifiers type name parameters body offset =>
    some (.ofMethod modifiers type name parameters (some body) offset)
  | .nested declaration => some (.ofClass declaration)
  | .usingDirective _ => none

/-- The declaration that a statement is, if it is one. -/
def ofNode? : Node → Option Declaration
  | .namespaceDeclaration name members offset => some (.ofNamespace name members offset)
  | .classDeclaration declaration => some (.ofClass declaration)
  | _ => none

/-- The name of a declaration as one text. -/
def name : Declaration → String
  | .ofNamespace name _ _ => name.dotted
  | .ofClass declaration => declaration.name
  | .ofField _ _ name _ => name
  | .ofMethod _ _ name _ _ _ => name

/-- What kind of symbol a declaration has. -/
def kind : Declaration → SymbolKind
  | .ofNamespace .. => .namespaceSymbol
  | .ofClass _ => .classSymbol
  | .ofField .. => .fieldSymbol
  | .ofMethod .. => .methodSymbol

/-- The offset at which a declaration begins. -/
def offset : Declaration → Nat
  | .ofNamespace _ _ offset => offset
  | .ofClass declaration => declaration.offset
  | .ofField _ _ _ offset => offset
  | .ofMethod _ _ _ _ _ offset => offset

/-- The members in the body of a namespace or a class. -/
def members : Declaration → List Member
  | .ofNamespace _ members _ => members
  | .ofClass declaration => declaration.members
  | .ofField .. => []
  | .ofMethod .. => []

/-- The declarations right inside a declaration. -/
def inner (declaration : Declaration) : List Declaration :=
  declaration.members.filterMap ofMember?

end Declaration

/-- The declarations of a program that are inside no other. -/
def Program.declarations (program : Program) : List Declaration :=
  program.body.filterMap Declaration.ofNode?

/-! ## Symbols that mirror declarations -/

namespace LanguageServer

/-- A range begins at a position. Its lines and characters are counted from 0. -/
def Range.BeginsAt (range : Range) (position : Position) : Prop :=
  range.startLine + 1 = position.line ∧ range.startCharacter + 1 = position.column

/-- A symbol mirrors a declaration, and its children mirror the declarations right inside that, in
their order. -/
inductive Mirrors (source : SourceText) : Declaration → DocumentSymbol → Prop where
  | mk {declaration : Declaration} {symbol : DocumentSymbol} :
      symbol.name = declaration.name → symbol.kind = declaration.kind →
      symbol.range.BeginsAt (source.position declaration.offset) →
      List.Forall₂ (Mirrors source) declaration.inner symbol.children →
      (symbol.sentChildren = none ↔ declaration.inner = []) → Mirrors source declaration symbol

variable {source : SourceText}

theorem declarationRange_beginsAt (source : SourceText) (name : String) (offset : Nat) :
    (declarationRange source name offset).BeginsAt (source.position offset) := by
  constructor <;> exact Int.sub_add_cancel _ _

/-- A symbol without children mirrors a declaration that none is inside of. -/
theorem Mirrors.leaf {declaration : Declaration} (h : declaration.inner = []) :
    Mirrors source declaration ⟨declaration.name, declaration.kind,
      declarationRange source declaration.name declaration.offset, []⟩ :=
  .mk rfl rfl (declarationRange_beginsAt source _ _) (h ▸ .nil) (iff_of_true rfl h)

/-- Where the children are mirrored, so is the declaration that they are inside of. -/
theorem Mirrors.of_children {declaration : Declaration} {children : List DocumentSymbol}
    (h : List.Forall₂ (Mirrors source) declaration.inner children) :
    Mirrors source declaration ⟨declaration.name, declaration.kind,
      declarationRange source declaration.name declaration.offset, children⟩ := by
  refine .mk rfl rfl (declarationRange_beginsAt source _ _) h ?_
  have hlength := h.length_eq
  rw [DocumentSymbol.sentChildren]
  cases children with
  | nil => exact iff_of_true rfl (List.eq_nil_of_length_eq_zero hlength)
  | cons child children =>
      refine iff_of_false (by simp) fun hnone => ?_
      rw [hnone] at hlength
      cases hlength

mutual

theorem classSymbol_mirrors : ∀ declaration : ClassDecl,
    Mirrors source (.ofClass declaration) (classSymbol source declaration)
  | ⟨_, _, _, members, _, _⟩ => by
      rw [classSymbol]
      exact Mirrors.of_children (memberSymbols_mirror members)

theorem memberSymbols_mirror : ∀ members : List Member,
    List.Forall₂ (Mirrors source) (members.filterMap Declaration.ofMember?)
      (memberSymbols source members)
  | [] => by rw [memberSymbols]; exact .nil
  | .field modifiers type name offset :: members => by
      have hfield : Mirrors source (.ofField modifiers type name offset) _ := .leaf rfl
      rw [memberSymbols]
      exact .cons hfield (memberSymbols_mirror members)
  | .signature modifiers type name parameters offset :: members => by
      have hmethod : Mirrors source (.ofMethod modifiers type name parameters none offset) _ :=
        .leaf rfl
      rw [memberSymbols]
      exact .cons hmethod (memberSymbols_mirror members)
  | .method modifiers type name parameters body offset :: members => by
      have hmethod : Mirrors source
        (.ofMethod modifiers type name parameters (some body) offset) _ := .leaf rfl
      rw [memberSymbols]
      exact .cons hmethod (memberSymbols_mirror members)
  | .nested declaration :: members => by
      rw [memberSymbols]
      exact .cons (classSymbol_mirrors declaration) (memberSymbols_mirror members)
  | .usingDirective _ :: members => by
      rw [memberSymbols]
      exact memberSymbols_mirror members

end

theorem nodeSymbol?_mirrors (source : SourceText) (node : Node) :
    Option.Rel (Mirrors source) (Declaration.ofNode? node) (nodeSymbol? source node) := by
  cases node with
  | namespaceDeclaration name members offset =>
      have hnamespace : Mirrors source (.ofNamespace name members offset) _ :=
        .of_children (memberSymbols_mirror members)
      exact .some hnamespace
  | classDeclaration declaration => exact .some (classSymbol_mirrors declaration)
  | _ => exact .none

theorem programSymbols_mirror (source : SourceText) (program : Program) :
    List.Forall₂ (Mirrors source) program.declarations (programSymbols source program) := by
  unfold Program.declarations programSymbols
  induction program.body with
  | nil => exact .nil
  | cons node nodes ih =>
      have hnode := nodeSymbol?_mirrors source node
      rw [List.filterMap_cons, List.filterMap_cons]
      generalize Declaration.ofNode? node = declared at hnode ⊢
      generalize nodeSymbol? source node = symbol at hnode ⊢
      cases hnode with
      | none => exact ih
      | some h => exact .cons h ih

/-! ## Symbols from the outermost inwards -/

/-- A range begins in front of another one. -/
def Range.Before (first second : Range) : Prop :=
  first.startLine < second.startLine ∨
    first.startLine = second.startLine ∧ first.startCharacter < second.startCharacter

mutual

/-- A symbol and all that are inside it, each in front of its children. -/
def DocumentSymbol.preorder : DocumentSymbol → List DocumentSymbol
  | ⟨name, kind, range, children⟩ => ⟨name, kind, range, children⟩ :: symbolsPreorder children

/-- Symbols and all that are inside them, each in front of its children. -/
def symbolsPreorder : List DocumentSymbol → List DocumentSymbol
  | [] => []
  | symbol :: symbols => symbol.preorder ++ symbolsPreorder symbols

end

theorem Range.BeginsAt.before {first second : Range} {here there : Position}
    (hfirst : first.BeginsAt here) (hsecond : second.BeginsAt there) (h : here.Before there) :
    first.Before second := by
  unfold Range.BeginsAt at hfirst hsecond
  unfold Position.Before at h
  unfold Range.Before
  omega

end LanguageServer

/-! ## Each symbol begins at a token of its own -/

open LanguageServer

/-- Between two places, each symbol begins at a token behind the one where the symbol before it
begins. -/
inductive Input.Starts (input : Input) : Nat → List DocumentSymbol → Nat → Prop
  | nil {p q : Nat} : p ≤ q → Starts input p [] q
  | cons {p i q : Nat} {symbol : DocumentSymbol} {symbols : List DocumentSymbol} : p ≤ i →
      i < input.size → symbol.range.BeginsAt (input.source.position (input.tokenAt i).offset) →
      Starts input (i + 1) symbols q → Starts input p (symbol :: symbols) q

namespace Input

variable {input : Input} {p q r : Nat} {symbols more : List DocumentSymbol}

namespace Starts

theorem from_le (h : input.Starts q symbols r) (hle : p ≤ q) : input.Starts p symbols r := by
  cases h with
  | nil hqr => exact .nil (Nat.le_trans hle hqr)
  | cons hqi hi hbegins htail => exact .cons (Nat.le_trans hle hqi) hi hbegins htail

theorem append (h : input.Starts p symbols q) (h' : input.Starts q more r) :
    input.Starts p (symbols ++ more) r := by
  induction h with
  | nil hle => exact h'.from_le hle
  | cons hle hi hbegins _ ih => exact .cons hle hi hbegins (ih h')

theorem exists_of_mem (h : input.Starts p symbols q) {symbol : DocumentSymbol}
    (hmem : symbol ∈ symbols) : ∃ i, p ≤ i ∧ i < input.size ∧
      symbol.range.BeginsAt (input.source.position (input.tokenAt i).offset) := by
  induction h with
  | nil _ => cases hmem
  | @cons p i q first symbols hle hi hbegins _ ih =>
      rcases List.mem_cons.mp hmem with rfl | hmem
      · exact ⟨i, hle, hi, hbegins⟩
      · obtain ⟨j, hij, hj, hbegins⟩ := ih hmem
        exact ⟨j, by omega, hj, hbegins⟩

/-- Symbols that begin at one token after the other begin at one position after the other. -/
theorem pairwise (h : input.Starts p symbols q) (hascending : input.Ascending)
    (hinside : ∀ i < input.size, (input.tokenAt i).offset ≤ input.source.text.toList.length) :
    symbols.Pairwise fun first second => first.range.Before second.range := by
  induction h with
  | nil _ => exact .nil
  | @cons p i q symbol symbols hle hi hbegins htail ih =>
      refine .cons (fun later hmem => ?_) ih
      obtain ⟨j, hij, hj, hlater⟩ := htail.exists_of_mem hmem
      have hoffset := hascending i j hij (Nat.le_of_lt hj)
      exact hbegins.before hlater (SourceText.position_before hoffset (hinside j hj))

end Starts

/-- Where traces are carried of which the first is the beginning of a declaration, the declaration
begins at a token, and the others are carried from this token on. -/
theorem Carries.exists_start {offset : Nat} {items : List Trace}
    (h : input.Carries p (.start offset :: items) q) :
    ∃ i, p ≤ i ∧ i < input.size ∧ offset = (input.tokenAt i).offset ∧ input.Carries i items q :=
  h.exists_leftBy

/-- Something that is kept of a token uses this token up. -/
theorem Carries.exists_behind {item : Trace} {items : List Trace}
    (h : input.Carries p (item :: items) q) (hused : ∀ i, item.behind i = i + 1) :
    ∃ r, p < r ∧ input.Carries r items q := by
  obtain ⟨i, hpi, -, -, hitems⟩ := h.exists_leftBy
  rw [hused] at hitems
  exact ⟨i + 1, by omega, hitems⟩

/-- A field or a method begins at a token, and at least its name is behind this token. -/
theorem Carries.starts_head {modifiers : List String} {type : TypeExpr} {name : String}
    {offset : Nat} {symbol : DocumentSymbol}
    (h : input.Carries p (headTraces modifiers type name offset) q)
    (hbegins : symbol.range.BeginsAt (input.source.position offset)) :
    input.Starts p [symbol] q := by
  obtain ⟨i, hpi, hi, rfl, hbehind⟩ := h.exists_start
  -- the name is the last of what is kept, and uses up a token behind the first
  obtain ⟨m, hfront, hname⟩ := hbehind.split
  obtain ⟨r, hmr, hname⟩ := hname.exists_behind fun _ => rfl
  have him := hfront.le
  have hrq := hname.le
  exact .cons hpi hi hbegins (.nil (by omega))

mutual

theorem Carries.starts_class : ∀ (declaration : ClassDecl) {p q : Nat},
    input.Carries p declaration.traces q →
      input.Starts p (classSymbol input.source declaration).preorder q
  | ⟨name, generics, bases, members, modifiers, offset⟩, p, q, h => by
      rw [ClassDecl.traces] at h
      rw [classSymbol, DocumentSymbol.preorder]
      obtain ⟨m, hmodifiers, hclass⟩ := h.split
      -- the class begins behind its modifiers, and its name stands between its word and the members
      obtain ⟨i, hmi, hi, rfl, hname⟩ := hclass.exists_start
      obtain ⟨j, hij, hbehind⟩ := hname.exists_behind fun _ => rfl
      obtain ⟨k, hgenerics, hinside⟩ := hbehind.split
      obtain ⟨l, hbases, hmembers⟩ := hinside.split
      have hm := hmodifiers.le
      have hk := hgenerics.le
      have hl := hbases.le
      exact .cons (by omega) hi (declarationRange_beginsAt input.source _ _)
        ((hmembers.starts_members members).from_le (by omega))

theorem Carries.starts_members : ∀ (members : List Member) {p q : Nat},
    input.Carries p (membersTraces members) q →
      input.Starts p (symbolsPreorder (memberSymbols input.source members)) q
  | [], p, q, h => by
      rw [memberSymbols, symbolsPreorder]
      exact .nil h.le
  | .field modifiers type name offset :: members, p, q, h => by
      rw [membersTraces, Member.traces] at h
      rw [memberSymbols, symbolsPreorder, DocumentSymbol.preorder, symbolsPreorder]
      obtain ⟨m, hhead, hmembers⟩ := h.split
      exact (hhead.starts_head (declarationRange_beginsAt input.source _ _)).append
        (Carries.starts_members members hmembers)
  | .signature modifiers type name parameters offset :: members, p, q, h => by
      rw [membersTraces, Member.traces] at h
      rw [memberSymbols, symbolsPreorder, DocumentSymbol.preorder, symbolsPreorder]
      obtain ⟨m, hmethod, hmembers⟩ := h.split
      obtain ⟨k, hhead, hparameters⟩ := hmethod.split
      exact (hhead.starts_head (declarationRange_beginsAt input.source _ _)).append
        ((Carries.starts_members members hmembers).from_le hparameters.le)
  | .method modifiers type name parameters body offset :: members, p, q, h => by
      rw [membersTraces, Member.traces] at h
      rw [memberSymbols, symbolsPreorder, DocumentSymbol.preorder, symbolsPreorder]
      -- parameters and body may hold declarations, but no symbol is made of them
      obtain ⟨m, hmethod, hmembers⟩ := h.split
      obtain ⟨k, hhead, hinside⟩ := hmethod.split
      exact (hhead.starts_head (declarationRange_beginsAt input.source _ _)).append
        ((Carries.starts_members members hmembers).from_le hinside.le)
  | .nested declaration :: members, p, q, h => by
      rw [membersTraces, Member.traces] at h
      rw [memberSymbols, symbolsPreorder]
      obtain ⟨m, hclass, hmembers⟩ := h.split
      exact (Carries.starts_class declaration hclass).append
        (Carries.starts_members members hmembers)
  | .usingDirective _ :: members, p, q, h => by
      rw [membersTraces, Member.traces] at h
      rw [memberSymbols]
      obtain ⟨m, hdirective, hmembers⟩ := h.split
      exact (Carries.starts_members members hmembers).from_le hdirective.le

end

/-- Of a statement that declares nothing no symbol is made, whatever is inside it. -/
theorem Carries.starts_node (node : Node) (h : input.Carries p node.traces q) :
    input.Starts p (symbolsPreorder (nodeSymbol? input.source node).toList) q := by
  cases node with
  | namespaceDeclaration name members offset =>
      rw [Node.traces] at h
      obtain ⟨i, hpi, hi, rfl, hbehind⟩ := h.exists_start
      obtain ⟨m, hname, hmembers⟩ := hbehind.split
      obtain ⟨r, hir, htail⟩ := hname.exists_behind fun _ => rfl
      have hrm := htail.le
      rw [nodeSymbol?, Option.toList_some, symbolsPreorder, DocumentSymbol.preorder,
        symbolsPreorder, List.append_nil]
      exact .cons hpi hi (declarationRange_beginsAt input.source _ _)
        ((hmembers.starts_members members).from_le (by omega))
  | classDeclaration declaration =>
      rw [Node.traces] at h
      rw [nodeSymbol?, Option.toList_some, symbolsPreorder, symbolsPreorder, List.append_nil]
      exact h.starts_class declaration
  | _ => exact .nil h.le

theorem Carries.starts_nodes {nodes : List Node} (h : input.Carries p (nodesTraces nodes) q) :
    input.Starts p (symbolsPreorder (nodes.filterMap (nodeSymbol? input.source))) q := by
  induction nodes generalizing p with
  | nil => exact .nil h.le
  | cons node nodes ih =>
      rw [nodesTraces] at h
      obtain ⟨m, hnode, hnodes⟩ := h.split
      have hfirst := hnode.starts_node node
      rw [List.filterMap_cons]
      cases hsymbol : nodeSymbol? input.source node with
      | none =>
          exact (ih hnodes).from_le hnode.le
      | some symbol =>
          rw [hsymbol, Option.toList_some, symbolsPreorder, symbolsPreorder,
            List.append_nil] at hfirst
          rw [symbolsPreorder]
          exact hfirst.append (ih hnodes)

end Input

/-! ## The symbols of a text -/

variable {source : SourceText} {tokens : List Token}

/-- The tokens of a text carry the traces of its tree. -/
theorem Frontend.carries_of_lex (hlex : Frontend.empty.lex source = .ok tokens) :
    ∃ result q, Frontend.empty.parse source = .ok result ∧
      (Input.ofTokens tokens source).Carries 0 result.program.traces q := by
  let parser := Frontend.empty.parser tokens source .builtin
  obtain ⟨tree, reported, hrun⟩ := parser.program_ends Hooks.progress_none
  have hrules : parser.rules.Carry parser.input :=
    Rules.carry_ofDepth (wordsUndotted_of_lex hlex) _ _
  obtain ⟨q, e, -, -, hcarries⟩ := Parser.post_of_run (program_leads hrules 0 #[]) hrun
  exact ⟨_, q, Frontend.parse_of_run (Frontend.tokens_of_lex hlex).2 hrun, hcarries⟩

theorem Frontend.offset_le_of_lex (hlex : Frontend.empty.lex source = .ok tokens) (i : Nat)
    (hi : i < (Input.ofTokens tokens source).size) :
    ((Input.ofTokens tokens source).tokenAt i).offset ≤ source.text.toList.length := by
  rw [Input.size_ofTokens] at hi
  rw [Input.tokenAt_ofTokens_of_lt hi]
  obtain ⟨c, hc, -⟩ := Frontend.exists_of_mem_tokens (Frontend.tokens_of_lex hlex).2
    (List.getElem_mem hi)
  exact Nat.le_of_lt (List.getElem?_eq_some_iff.mp hc).1

/-- **The symbols of a document are its declarations.** The symbols of a text that the lexer without
plugins cuts to the end mirror the declarations of its tree one by one, with all that are inside
them and in their order, whatever was reported of the text. Read from the outermost inwards, each
symbol begins at a later position than the one before it. -/
theorem symbols_mirror_declarations {text uri : String}
    (hlex : Frontend.empty.lex (.ofText text uri) = .ok tokens) (before : List Finding) :
    ∃ result analysis, Frontend.empty.parse (.ofText text uri) = .ok result ∧
      Analysis.ofText .empty before uri text = .ok analysis ∧
      List.Forall₂ (Mirrors (.ofText text uri)) result.program.declarations
        (analysis.symbols uri) ∧
      (symbolsPreorder (analysis.symbols uri)).Pairwise fun first second =>
        first.range.Before second.range := by
  obtain ⟨result, q, hparse, hcarries⟩ := Frontend.carries_of_lex hlex
  refine ⟨result, _, hparse, by rw [Analysis.ofText, hparse], programSymbols_mirror _ _, ?_⟩
  exact hcarries.starts_nodes.pairwise (ascending_of_lex hlex) (Frontend.offset_le_of_lex hlex)

/-- A namespace with a class in which a method follows a field without a name. The class in the body
of the method is no symbol. -/
theorem symbols_mirror_declarations_broken_field :
    let text := "namespace N.M\x7bclass A\x7bint 1;void F()\x7bclass B\x7b\x7d\x7d\x7d\x7d"
    ∃ result analysis, Frontend.empty.parse (.ofText text "a.cs") = .ok result ∧
      Analysis.ofText .empty [] "a.cs" text = .ok analysis ∧ result.ok = false ∧
      List.Forall₂ (Mirrors (.ofText text "a.cs")) result.program.declarations
        (analysis.symbols "a.cs") ∧
      ((symbolsPreorder (analysis.symbols "a.cs")).Pairwise fun first second =>
        first.range.Before second.range) ∧
      (symbolsPreorder (analysis.symbols "a.cs")).map (fun symbol => (symbol.name, symbol.kind)) =
        [("N.M", .namespaceSymbol), ("A", .classSymbol), ("F", .methodSymbol)] := by
  intro text
  have hcut : (Frontend.empty.lex (.ofText text "a.cs")).isOk = true := by decide +kernel
  obtain ⟨tokens, hlex⟩ : ∃ tokens, Frontend.empty.lex (.ofText text "a.cs") = .ok tokens := by
    cases hrun : Frontend.empty.lex (.ofText text "a.cs") with
    | ok tokens => exact ⟨tokens, rfl⟩
    | error failure => rw [hrun] at hcut; cases hcut
  obtain ⟨result, analysis, hparse, hanalysis, hmirror, hordered⟩ :=
    symbols_mirror_declarations hlex []
  have hok : (Frontend.empty.parse (.ofText text "a.cs")).toOption.map ParseResult.ok =
      some false := by decide +kernel
  have hsymbols : (Analysis.ofText .empty [] "a.cs" text).toOption.map (fun analysis =>
      (symbolsPreorder (analysis.symbols "a.cs")).map fun symbol => (symbol.name, symbol.kind)) =
      some [("N.M", .namespaceSymbol), ("A", .classSymbol), ("F", .methodSymbol)] := by
    decide +kernel
  rw [hparse] at hok
  rw [hanalysis] at hsymbols
  exact ⟨result, analysis, hparse, hanalysis, Option.some_inj.mp hok, hmirror, hordered,
    Option.some_inj.mp hsymbols⟩

end SharpSyntax
