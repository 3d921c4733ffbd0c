import SharpSyntax.Diagnostic
import SharpSyntax.Source
import SharpSyntax.Table
import SharpSyntax.Text.Blank
import SharpSyntax.Text.CharClass
import SharpSyntax.Text.Control
import SharpSyntax.Text.Digit
import SharpSyntax.Text.Hex
import SharpSyntax.Text.Lines
import SharpSyntax.Text.Parts
import SharpSyntax.Text.Printable
import SharpSyntax.Text.Quoted
import SharpSyntax.Text.Substitute
import SharpSyntax.Text.Word
import SharpSyntax.Token.Basic
import SharpSyntax.Token.Lexer
import SharpSyntax.Token.Rule
import SharpSyntax.Token.Scan
import SharpSyntax.Token.Shape
import SharpSyntax.Number.Binary64
import SharpSyntax.Number.Decimal
import SharpSyntax.Parser.Basic
import SharpSyntax.Tree.Datum
import SharpSyntax.Parser.Session
import SharpSyntax.Frontend
import SharpSyntax.Plugin.Bundled
import SharpSyntax.Plugin.Recipe
import SharpSyntax.Diagnostic.Renderer
import SharpSyntax.Json.Basic
import SharpSyntax.Json.Printer
import SharpSyntax.Tree.Json
import SharpSyntax.Tree.Outline
import SharpSyntax.Toml.Document
import SharpSyntax.Config
import SharpSyntax.CommandLine.Request
import SharpSyntax.CommandLine.Run
import SharpSyntax.LanguageServer
import SharpSyntax.Main
import SharpSyntax.Proofs.Meets
import SharpSyntax.Proofs.Progress
import SharpSyntax.Proofs.Termination
import SharpSyntax.Proofs.Acceptance
import SharpSyntax.Proofs.ReadBack
import SharpSyntax.Proofs.ProgramReadBack
import SharpSyntax.Proofs.Segments
import SharpSyntax.Proofs.TokenSpelling
import SharpSyntax.Proofs.TokenReadBack
import SharpSyntax.Proofs.Offsets
import SharpSyntax.Proofs.Coupling
import SharpSyntax.Proofs.CoupledGrammar
import SharpSyntax.Proofs.Isolation
import SharpSyntax.Proofs.Layout
import SharpSyntax.Proofs.Shape
import SharpSyntax.Proofs.Contracts
import SharpSyntax.Proofs.GrammarContracts
import SharpSyntax.Proofs.Runs
import SharpSyntax.Proofs.Unbroken
import SharpSyntax.Proofs.Declines
import SharpSyntax.Proofs.Endings
import SharpSyntax.Proofs.Crossing
import SharpSyntax.Proofs.Boundaries
import SharpSyntax.Proofs.Traces
import SharpSyntax.Proofs.Leads
import SharpSyntax.Proofs.CarriedGrammar
import SharpSyntax.Proofs.SourceOrder
import SharpSyntax.Proofs.Tells
import SharpSyntax.Proofs.TellingGrammar
import SharpSyntax.Proofs.ReportOrder
import SharpSyntax.Proofs.Agreement
import SharpSyntax.Proofs.Transparency
import SharpSyntax.Proofs.Conservativity
import SharpSyntax.Proofs.Documents
import SharpSyntax.Proofs.Resumption
import SharpSyntax.Proofs.Bodies
import SharpSyntax.Proofs.Braces
import SharpSyntax.Proofs.Counts
import SharpSyntax.Proofs.BracedGrammar
import SharpSyntax.Proofs.Positions
import SharpSyntax.Proofs.ReservedWords
import SharpSyntax.Proofs.TemplateHoles
import SharpSyntax.Proofs.ShownLines
import SharpSyntax.Proofs.Colors
import SharpSyntax.Proofs.Symbols
import SharpSyntax.Proofs.Paths
import SharpSyntax.Proofs.Checking
import SharpSyntax.Proofs.DataReading
import SharpSyntax.Proofs.Recovery
import SharpSyntax.Proofs.Placeholders
