import SharpSyntax.Plugin.Catalogue
import SharpSyntax.Plugin.Extras
import SharpSyntax.Text.Parts

/-!
# The catalogue of the program's own modules

Modules have dotted names, and a module lies inside the package that the name before its last dot
names. Looking a module up looks up its packages first, so that the outermost missing one is
reported.

The modules that come with the program can all be named in a reference, though only one factory
among their attributes gives a plugin that is of use. Modules of other plugins are no part of this
catalogue; one that has them is another catalogue.
-/

namespace SharpSyntax.Catalogue

/-- A module under its name, and whether others may lie inside it. -/
structure Listed where
  name : String
  isPackage : Bool
  attributes : List (String × Entry)

/-- The names of the packages around a module, the outermost first, and of the module itself. -/
def nesting (name : String) : List String :=
  let parts := Text.parts '.' name
  (List.range parts.length).map fun n => ".".intercalate (parts.take (n + 1))

/-- Looks up modules each inside the one before, the first inside a given one; the last one is the
answer. -/
def findInside (listed : List Listed) (outer : Listed) :
    List String → Except ImportFailure Listed
  | [] => .ok outer
  | name :: rest =>
    let missing := s!"No module named {Text.quoted name}"
    if outer.isPackage then
      match listed.find? (·.name = name) with
      | some found => findInside listed found rest
      | none => .error (.notImported missing)
    else .error (.notImported s!"{missing}; {Text.quoted outer.name} is not a package")

/-- The catalogue of the modules in a list, all of them inside one nameless package. -/
def ofList (listed : List Listed) : Catalogue where
  importModule name :=
    let root : Listed := { name := "", isPackage := true, attributes := [] }
    (findInside listed root (nesting name)).map fun found => ⟨found.attributes⟩

/-! ## Attributes -/

/-- Classes that make something of a frontend. -/
def classes (names : List String) : List (String × Entry) :=
  names.map fun name => (name, .factory fun _ => .other name)

/-- Functions and classes that raise an exception when they are called with a frontend. -/
def refusing (typeName : String) (names : List String) : List (String × Entry) :=
  names.map fun name => (name, .factory fun _ => .raised typeName)

/-- Attributes that cannot be called. -/
def values (names : List String) : List (String × Entry) := names.map fun name => (name, .value)

/-- What the class of plugins makes of a frontend: it takes the frontend for the table of the
extensions, and whoever looks something up in it raises an exception. -/
def frontendAsTable : Plugin where
  extensions := .ofList [
    ("", { lex := some fun _ => .error (.raised "AttributeError"), parse := none })]

/-- The classes that a plugin is made of. -/
def pluginClasses : List (String × Entry) :=
  ("Plugin", .factory fun _ => .plugin frontendAsTable) :: classes ["Extension"]

/-- The modules of the program with what they define, and what those that are about plugins
import. -/
def modules : List Listed := [
  { name := "csparse"
    isPackage := true
    attributes := classes ["LexResult", "ParseResult"] ++
      refusing "TypeError" ["CSharpFrontend", "lex", "parse"] ++
      values ["ast_nodes", "cli", "config", "errors", "frontend", "lexer", "parser", "plugin",
        "plugins", "source", "tokens"] },
  { name := "csparse.ast_nodes"
    isPackage := false
    attributes := classes ["DotAccess", "BracketAccess", "CallExpression", "AccessExpression",
        "BlockStatement", "ElseStatement", "ClassDeclaration", "NamespaceDeclaration", "Program"] ++
      refusing "TypeError" ["Node", "TypeExpression", "Literal", "AssignmentExpression",
        "BinaryExpression", "UnaryExpression", "TemplateLiteralExpression", "UsingExpression",
        "IfStatement", "WhileStatement", "ClassMember", "Access", "Expression", "Statement",
        "Member", "Declaration"] ++
      [("to_dict", .factory fun _ => .other "CSharpFrontend")] },
  { name := "csparse.cli"
    isPackage := false
    attributes := refusing "TypeError" ["main", "lex", "parse", "check", "lsp"] },
  { name := "csparse.config"
    isPackage := false
    attributes := classes ["ParserConfig", "OutputConfig", "CsparseConfig"] ++
      refusing "AttributeError" ["find_config", "config_for"] ++
      refusing "TypeError" ["load_config"] ++ values ["CONFIG_NAME"] },
  { name := "csparse.errors"
    isPackage := false
    attributes := classes ["PluginLoadError"] ++ refusing "ValueError" ["Severity"] ++
      refusing "TypeError" ["DiagnosticLabel", "Diagnostic", "DiagnosticRenderer", "CompileError",
        "LexError"] },
  { name := "csparse.frontend"
    isPackage := false
    attributes := classes ["LexResult", "ParseResult"] ++ refusing "TypeError" ["CSharpFrontend"] },
  { name := "csparse.lexer"
    isPackage := false
    attributes := classes ["Lexer"] },
  { name := "csparse.lsp"
    isPackage := false
    attributes := classes ["DocumentState"] ++ refusing "TypeError" ["document_symbols", "main"] ++
      refusing "AttributeError" ["span_to_range", "did_open", "did_change", "did_close",
        "document_symbol"] ++
      values ["server"] },
  { name := "csparse.parser"
    isPackage := false
    attributes := classes ["Parser"] ++ refusing "TypeError" ["Expectation"] ++
      values ["BINARY_PRECEDENCE", "UNARY_OPERATORS", "UNARY_PRECEDENCE"] },
  { name := "csparse.plugin"
    isPackage := false
    attributes := pluginClasses ++ classes ["PluginRegistry", "PluginLoadError"] ++
      refusing "AttributeError" ["load_plugin", "dataclass"] ++
      refusing "TypeError" ["LexHook", "ParseHook", "PluginFactory", "Mapping", "field", "Any",
        "Callable", "Optional"] ++
      values ["importlib", "TYPE_CHECKING", "annotations"] },
  { name := "csparse.plugins"
    isPackage := true
    attributes := values ["extras"] },
  { name := "csparse.plugins.extras"
    isPackage := false
    attributes := ("plugin", .factory fun _ => .plugin Extras.plugin) :: pluginClasses ++
      classes ["KeywordLiteral", "ReturnStatement"] ++ refusing "AttributeError" ["dataclass"] ++
      refusing "TypeError" ["Node", "Kind", "Any"] ++
      values ["NULL", "TYPE_CHECKING", "annotations"] },
  { name := "csparse.source"
    isPackage := false
    attributes := refusing "TypeError" ["Span"] ++ refusing "AttributeError" ["SourceText"] },
  { name := "csparse.tokens"
    isPackage := false
    attributes := refusing "ValueError" ["TokenKind"] ++
      refusing "TypeError" ["Token", "TokenRule", "Kind"] ++
      values ["KEYWORDS", "MODIFIERS", "TOKEN_KINDS", "DEFAULT_RULES"] }]

/-- The modules that come with the program. -/
def bundled : Catalogue := ofList modules

end SharpSyntax.Catalogue
