import SharpSyntax.Failure

/-!
# The language server

The server keeps one analysis for every open document. Opening or changing a document analyses its
text and publishes what was found; closing it forgets the analysis. An analysis that fails leaves
all documents as they were.

The frontend is made from the configuration of the working directory when it is first needed, and
from then on it stays. If a plugin cannot be loaded the server goes on without plugins and says so
with every document.

Ranges count lines and characters from 0 and end behind their last character.
-/

namespace SharpSyntax.LanguageServer

/-- A range of a document. -/
structure Range where
  startLine : Int
  startCharacter : Int
  endLine : Int
  endCharacter : Int
deriving DecidableEq, Repr

namespace Range

/-- The range at the very start of a document. -/
def zero : Range := ⟨0, 0, 0, 0⟩

/-- The range of a span. -/
def ofSpan (span : Span) : Range where
  startLine := span.startLine - 1
  startCharacter := span.startCol - 1
  endLine := span.endLine - 1
  endCharacter := span.endCol

/-- The numbers of a range. -/
def numbers (range : Range) : List Int :=
  [range.startLine, range.startCharacter, range.endLine, range.endCharacter]

/-- Whether the numbers of a range can be sent: none is negative or has more than 31 bits. -/
def isValid (range : Range) : Bool := range.numbers.all fun n => 0 ≤ n && n < 2147483648

end Range

/-- A finding as it is published. -/
structure Finding where
  range : Range
  severity : Severity
  code : Option String
  message : String
deriving DecidableEq, Repr

/-- Who publishes findings. -/
def Finding.source : String := "csparse"

/-- The number of a severity. -/
def severityNumber : Severity → Nat
  | .error => 1
  | .warning => 2
  | .note => 3

/-- A diagnostic as it is published, at its first label. -/
def Finding.ofDiagnostic (diagnostic : Diagnostic) : Finding where
  range := (diagnostic.labels.head?.map fun label => Range.ofSpan label.span).getD .zero
  severity := diagnostic.severity
  code := some diagnostic.code
  message := diagnostic.message

/-! ## Symbols -/

/-- What a symbol of a document stands for. -/
inductive SymbolKind where
  | namespaceSymbol
  | classSymbol
  | methodSymbol
  | fieldSymbol
deriving DecidableEq, Repr

/-- The number of a kind of symbol. -/
def SymbolKind.number : SymbolKind → Nat
  | .namespaceSymbol => 3
  | .classSymbol => 5
  | .methodSymbol => 6
  | .fieldSymbol => 8

/-- A declaration of a document with the declarations inside it. -/
structure DocumentSymbol where
  name : String
  kind : SymbolKind
  range : Range
  children : List DocumentSymbol

/-- The children of a symbol as they are sent: where there are none, no list is sent. -/
def DocumentSymbol.sentChildren (symbol : DocumentSymbol) : Option (List DocumentSymbol) :=
  if symbol.children.isEmpty then none else some symbol.children

/-- The range of a declaration: as many characters as its name has, where it begins. -/
def declarationRange (source : SourceText) (name : String) (offset : Nat) : Range :=
  .ofSpan (source.span offset name.length)

mutual

/-- The symbol of a class. -/
def classSymbol (source : SourceText) : ClassDecl → DocumentSymbol
  | ⟨name, _, _, members, _, offset⟩ =>
    ⟨name, .classSymbol, declarationRange source name offset, memberSymbols source members⟩

/-- The symbols of members, using directives left out. -/
def memberSymbols (source : SourceText) : List Member → List DocumentSymbol
  | [] => []
  | .field _ _ name offset :: members =>
    ⟨name, .fieldSymbol, declarationRange source name offset, []⟩ :: memberSymbols source members
  | .signature _ _ name _ offset :: members =>
    ⟨name, .methodSymbol, declarationRange source name offset, []⟩ :: memberSymbols source members
  | .method _ _ name _ _ offset :: members =>
    ⟨name, .methodSymbol, declarationRange source name offset, []⟩ :: memberSymbols source members
  | .nested declaration :: members =>
    classSymbol source declaration :: memberSymbols source members
  | .usingDirective _ :: members => memberSymbols source members

end

/-- The symbol of a statement, if it is a namespace or a class. -/
def nodeSymbol? (source : SourceText) : Node → Option DocumentSymbol
  | .namespaceDeclaration name members offset =>
    some ⟨name.dotted, .namespaceSymbol, declarationRange source name.dotted offset,
      memberSymbols source members⟩
  | .classDeclaration declaration => some (classSymbol source declaration)
  | _ => none

/-- The symbols of a program. -/
def programSymbols (source : SourceText) (program : Program) : List DocumentSymbol :=
  program.body.filterMap (nodeSymbol? source)

/-! ## Documents -/

/-- The analysis of a document: its text, its tree if it has tokens, and the findings. -/
structure Analysis where
  text : String
  program : Option Program
  findings : List Finding

namespace Analysis

/-- The analysis of a text, with findings that come first. -/
def ofText (frontend : Frontend) (before : List Finding) (uri text : String) :
    Except Failure Analysis :=
  match frontend.parse (.ofText text uri) with
  | .ok result => .ok {
      text := text
      program := some result.program
      findings := before ++ result.diagnostics.map .ofDiagnostic }
  | .error (.lex error) => .ok {
      text := text
      program := none
      findings := before ++ [.ofDiagnostic error.diagnostic] }
  | .error error => .error (.analysis error)

/-- The symbols of an analysed document. -/
def symbols (analysis : Analysis) (uri : String) : List DocumentSymbol :=
  match analysis.program with
  | none => []
  | some program => programSymbols (.ofText analysis.text uri) program

end Analysis

/-! ## The server -/

/-- A frontend and what is said about plugins that it lacks. -/
structure Loaded where
  frontend : Frontend
  warning : Option String

namespace Loaded

/-- The frontend of the configuration that applies to the working directory. -/
def ofWorkspace (catalogue : Catalogue) (workspace : Workspace) : Except Failure Loaded := do
  let config ← (Config.applying workspace (.ofText "")).mapError Failure.config
  match Frontend.ofReferences catalogue config.plugins with
  | .ok frontend => return { frontend := frontend, warning := none }
  | .error (.plugin error) =>
    if error.isUnresolved then return { frontend := .empty, warning := some error.message }
    else throw (.plugin error)
  | .error failure => throw failure

/-- The finding that plugins are lacking, if they are. -/
def findings (loaded : Loaded) : List Finding :=
  loaded.warning.toList.map fun message =>
    { range := .zero, severity := .warning, code := none, message := s!"[config] {message}" }

end Loaded

/-- The state of the server: what it can see of modules and files, its frontend once it is made, and
the analyses of open documents. -/
structure Server where
  catalogue : Catalogue
  workspace : Workspace
  loaded : Option Loaded
  documents : Table Analysis

namespace Server

/-- A server without documents. -/
def new (catalogue : Catalogue) (workspace : Workspace) : Server where
  catalogue := catalogue
  workspace := workspace
  loaded := none
  documents := .empty

/-- The frontend of the server, made if need be. -/
def frontend (server : Server) : Except Failure Loaded :=
  match server.loaded with
  | some loaded => .ok loaded
  | none => Loaded.ofWorkspace server.catalogue server.workspace

/-- Analyses a document and keeps the analysis, whose findings are to be published. -/
def analyze (server : Server) (uri text : String) : Except Failure (Analysis × Server) := do
  let loaded ← server.frontend
  let analysis ← Analysis.ofText loaded.frontend loaded.findings uri text
  return (analysis, { server with
    loaded := some loaded
    documents := server.documents.set uri analysis })

/-- The text after a change: the last of the texts that came with it. -/
def changedText (texts : List String) : String := texts.getLast?.getD ""

/-- Forgets a document. -/
def close (server : Server) (uri : String) : Server :=
  { server with documents := server.documents.erase uri }

/-- The symbols of a document. -/
def symbols (server : Server) (uri : String) : List DocumentSymbol :=
  match server.documents.find? uri with
  | some analysis => analysis.symbols uri
  | none => []

end Server

/-- What a client tells or asks. -/
inductive Event where
  | opened (uri text : String)
  | changed (uri : String) (texts : List String)
  | closed (uri : String)
  | symbols (uri : String)
deriving DecidableEq, Repr

/-- What the server answers: findings to publish, symbols, or nothing. -/
inductive Answer where
  | publish (uri : String) (findings : List Finding)
  | symbols (symbols : List DocumentSymbol)
  | silent

/-- The answer to an event and the server behind it, where the event does not fail. -/
def Server.handle (server : Server) : Event → Except Failure (Answer × Server)
  | .opened uri text => do
    let (analysis, server) ← server.analyze uri text
    return (.publish uri analysis.findings, server)
  | .changed uri texts => do
    let (analysis, server) ← server.analyze uri (changedText texts)
    return (.publish uri analysis.findings, server)
  | .closed uri => .ok (.silent, server.close uri)
  | .symbols uri => .ok (.symbols (server.symbols uri), server)

/-- What comes of an event, and the server behind it. An event that fails leaves the documents as
they were; the frontend stays if it could be made. -/
def Server.serve (server : Server) (event : Event) : Except Failure Answer × Server :=
  match server.handle event with
  | .ok (answer, next) => (.ok answer, next)
  | .error failure => (.error failure, { server with loaded := server.frontend.toOption })

end SharpSyntax.LanguageServer
