import SharpSyntax.Plugin.Bundled
import SharpSyntax.Proofs.Symbols
import Mathlib.Data.List.Induction

/-!
# What the language server knows of a document

A server answers calls one after the other, about any documents and in any order, while the files
and the modules around it may change from one call to the next. What it keeps of a document is told
by the history of its calls alone: the last call that changed the document and did not fail. Calls
about other documents do not come into it, and neither do calls that failed.

The only other thing that a server remembers is its frontend. It is the first that could be made
when a text had to be analysed, and every analysis is one by that frontend.
-/

namespace SharpSyntax.LanguageServer

/-! ## Findings -/

/-- A finding is that of a diagnostic. Its range is that of the first label, counted from 0 and with
its end behind the last character; without a label it is the very start of the document. -/
structure Finding.IsOf (x : Diagnostic) (finding : Finding) : Prop where
  severity : finding.severity = x.severity
  code : finding.code = some x.code
  message : finding.message = x.message
  unlabelled : x.labels = [] → finding.range = ⟨0, 0, 0, 0⟩
  labelled : ∀ label more, x.labels = label :: more →
    finding.range = ⟨label.span.startLine - 1, label.span.startCol - 1, label.span.endLine - 1,
      label.span.endCol⟩

/-- Every diagnostic has one finding, the one that the server makes of it. -/
theorem Finding.isOf_iff {x : Diagnostic} {finding : Finding} :
    IsOf x finding ↔ finding = .ofDiagnostic x := by
  constructor
  · rintro ⟨hseverity, hcode, hmessage, hunlabelled, hlabelled⟩
    obtain ⟨range, severity, code, message⟩ := finding
    obtain rfl : severity = x.severity := hseverity
    obtain rfl : code = some x.code := hcode
    obtain rfl : message = x.message := hmessage
    cases hlabels : x.labels with
    | nil =>
        obtain rfl : range = .zero := hunlabelled hlabels
        rw [ofDiagnostic, hlabels]
        rfl
    | cons label more =>
        obtain rfl : range = .ofSpan label.span := hlabelled label more hlabels
        rw [ofDiagnostic, hlabels]
        rfl
  · rintro rfl
    exact ⟨rfl, rfl, rfl, fun h => by rw [ofDiagnostic, h]; rfl,
      fun label more h => by rw [ofDiagnostic, h]; rfl⟩

/-- What is said with every document where plugins are lacking. -/
def lackingPlugins (message : String) : Finding where
  range := ⟨0, 0, 0, 0⟩
  severity := .warning
  code := none
  message := "[config] " ++ message

/-- The findings that are published for diagnostics: one for each in their order, behind the warning
if plugins are lacking. -/
inductive Loaded.Publishes (loaded : Loaded) (diagnostics : List Diagnostic) :
    List Finding → Prop
  | complete {findings : List Finding} (h : loaded.warning = none)
      (hfindings : List.Forall₂ Finding.IsOf diagnostics findings) :
      Publishes loaded diagnostics findings
  | lacking {message : String} {findings : List Finding} (h : loaded.warning = some message)
      (hfindings : List.Forall₂ Finding.IsOf diagnostics findings) :
      Publishes loaded diagnostics (lackingPlugins message :: findings)

theorem Loaded.publishes_iff {loaded : Loaded} {diagnostics : List Diagnostic}
    {findings : List Finding} : loaded.Publishes diagnostics findings ↔
      findings = loaded.findings ++ diagnostics.map .ofDiagnostic := by
  have hfinding : Finding.IsOf = fun x finding => Finding.ofDiagnostic x = finding := by
    funext x finding
    exact propext (Finding.isOf_iff.trans eq_comm)
  have hrest {findings : List Finding} : List.Forall₂ Finding.IsOf diagnostics findings ↔
      findings = diagnostics.map .ofDiagnostic := by
    rw [hfinding, ← @List.forall₂_map_left_iff _ _ _ Eq, List.forall₂_eq_eq_eq, eq_comm]
  obtain ⟨frontend, warning⟩ := loaded
  constructor
  · rintro (⟨h, hfindings⟩ | ⟨h, hfindings⟩)
    · obtain rfl : warning = none := h
      exact hrest.mp hfindings
    · obtain rfl := h
      rw [hrest.mp hfindings]
      rfl
  · rintro rfl
    cases warning with
    | none => exact .complete rfl (hrest.mpr rfl)
    | some message => exact .lacking rfl (hrest.mpr rfl)

/-! ## Analyses -/

/-- The frontend that the files and modules give: one with the plugins of the configuration, or one
without plugins and a warning where a plugin could not be found. -/
inductive Loaded.IsMade (catalogue : Catalogue) (workspace : Workspace) : Loaded → Prop
  | complete {config : Config} {frontend : Frontend}
      (hconfig : Config.applying workspace (.ofText "") = .ok config)
      (h : Frontend.ofReferences catalogue config.plugins = .ok frontend) :
      IsMade catalogue workspace ⟨frontend, none⟩
  | lacking {config : Config} {error : Catalogue.LoadError}
      (hconfig : Config.applying workspace (.ofText "") = .ok config)
      (h : Frontend.ofReferences catalogue config.plugins = .error (.plugin error))
      (hunresolved : error.isUnresolved = true) :
      IsMade catalogue workspace ⟨.empty, some error.message⟩

theorem Loaded.isMade_iff {catalogue : Catalogue} {workspace : Workspace} {loaded : Loaded} :
    loaded.IsMade catalogue workspace ↔ ofWorkspace catalogue workspace = .ok loaded := by
  unfold ofWorkspace
  constructor
  · intro h
    cases h with
    | complete hconfig h =>
        simp only [hconfig, h, Except.mapError, bind, Except.bind, pure, Except.pure]
    | lacking hconfig h hunresolved =>
        simp only [hconfig, h, hunresolved, Except.mapError, bind, Except.bind, pure, Except.pure,
          if_true]
  · intro h
    cases hconfig : Config.applying workspace (.ofText "") with
    | error error => rw [hconfig] at h; cases h
    | ok config =>
        simp only [hconfig, Except.mapError, bind, Except.bind, pure, Except.pure] at h
        split at h
        · next hfrontend => cases h; exact .complete hconfig hfrontend
        · next hplugin =>
          split at h
          · next hunresolved => cases h; exact .lacking hconfig hplugin hunresolved
          · cases h
        · cases h

/-- The analysis of a text by a frontend. -/
inductive Loaded.Analyses (loaded : Loaded) (uri text : String) : Analysis → Prop
  /-- A text that lexes has a tree, and the findings of what its parse reported. -/
  | parsed {result : ParseResult} {findings : List Finding}
      (h : loaded.frontend.parse (.ofText text uri) = .ok result)
      (hfindings : loaded.Publishes result.diagnostics findings) :
      Analyses loaded uri text ⟨text, some result.program, findings⟩
  /-- A text that does not lex has none, and the finding of the character that no rule accepts. -/
  | unlexed {error : LexError} {findings : List Finding}
      (h : loaded.frontend.parse (.ofText text uri) = .error (.lex error))
      (hfindings : loaded.Publishes [error.diagnostic] findings) :
      Analyses loaded uri text ⟨text, none, findings⟩

/-- The frontend cannot analyse a text, and not because of a character that no rule accepts. -/
def Loaded.Fails (loaded : Loaded) (uri text : String) (failure : Failure) : Prop :=
  ∃ error, loaded.frontend.parse (.ofText text uri) = .error error ∧
    (∀ lexing, error ≠ .lex lexing) ∧ failure = .analysis error

theorem Analysis.ofText_cases (loaded : Loaded) (uri text : String) :
    (∃ analysis, ofText loaded.frontend loaded.findings uri text = .ok analysis ∧
        loaded.Analyses uri text analysis) ∨
      ∃ failure, ofText loaded.frontend loaded.findings uri text = .error failure ∧
        loaded.Fails uri text failure := by
  unfold ofText
  split
  · next result hparse =>
    exact .inl ⟨_, rfl, .parsed hparse (Loaded.publishes_iff.mpr rfl)⟩
  · next error hparse =>
    exact .inl ⟨_, rfl, .unlexed hparse (Loaded.publishes_iff.mpr rfl)⟩
  · next error hlexing hparse => exact .inr ⟨_, rfl, error, hparse, hlexing, rfl⟩

/-- The symbols of an analysed document mirror the declarations of its tree; there are none if it
has no tree. -/
def Analysis.HasSymbols (analysis : Analysis) (uri : String) (symbols : List DocumentSymbol) :
    Prop :=
  match analysis.program with
  | none => symbols = []
  | some program =>
    List.Forall₂ (Mirrors (.ofText analysis.text uri)) program.declarations symbols

theorem Analysis.hasSymbols (analysis : Analysis) (uri : String) :
    analysis.HasSymbols uri (analysis.symbols uri) := by
  obtain ⟨text, program, findings⟩ := analysis
  cases program with
  | none => rfl
  | some program => exact programSymbols_mirror _ program

theorem Mirrors.names_eq {source : SourceText} {declarations : List Declaration}
    {symbols : List DocumentSymbol} (h : List.Forall₂ (Mirrors source) declarations symbols) :
    symbols.map DocumentSymbol.name = declarations.map Declaration.name := by
  induction h with
  | nil => rfl
  | cons hfirst _ ih =>
      obtain ⟨hname, -⟩ := hfirst
      rw [List.map_cons, List.map_cons, hname, ih]

/-! ## Histories -/

/-- An event changes a document, to a text or to nothing. An opened document has the text that it
was opened with, a changed one the last of the texts that came with the change, or the empty text if
none came; a closed one has none. -/
inductive Event.Edits : Event → String → Option String → Prop
  | opened {uri text : String} : Edits (.opened uri text) uri (some text)
  | changed {uri text : String} {earlier : List String} :
      Edits (.changed uri (earlier ++ [text])) uri (some text)
  | emptied {uri : String} : Edits (.changed uri []) uri (some "")
  | closed {uri : String} : Edits (.closed uri) uri none

/-- An event, and the modules and files as they are when it comes. -/
structure Call where
  event : Event
  catalogue : Catalogue
  workspace : Workspace

/-- A call needs a frontend for a text, and this is the one that the files and modules give. -/
def Call.Loads (call : Call) (loaded : Loaded) : Prop :=
  (∃ uri text, call.event.Edits uri (some text)) ∧ loaded.IsMade call.catalogue call.workspace

/-- A call that was served, with the answer or why there was none. -/
structure Served where
  call : Call
  outcome : Except Failure Answer

/-- A call did not fail and changed a document, to a text or to nothing. -/
def Served.Edits (served : Served) (uri : String) (text : Option String) : Prop :=
  (∃ answer, served.outcome = .ok answer) ∧ served.call.event.Edits uri text

/-- The last call that changed a document has changed it to a text or to nothing. -/
def LastEdit (uri : String) (history : List Served) (text : Option String) : Prop :=
  ∃ before last after, history = before ++ last :: after ∧ last.Edits uri text ∧
    ∀ later ∈ after, ∀ other, ¬ later.Edits uri other

/-- A frontend is the first that could be made when a text had to be analysed. -/
def FirstLoad (history : List Served) (loaded : Loaded) : Prop :=
  ∃ before first after, history = before ++ first :: after ∧ first.call.Loads loaded ∧
    ∀ earlier ∈ before, ∀ other, ¬ earlier.call.Loads other

section Events

variable {event : Event} {uri name : String} {text other : Option String} {texts : List String}

/-- The text after a change is the one that the server takes. -/
theorem Event.edits_changed_iff : (Event.changed name texts).Edits uri text ↔
    uri = name ∧ text = some (Server.changedText texts) := by
  constructor
  · intro h
    generalize hevent : Event.changed name texts = event at h
    cases h <;> cases hevent <;> simp [Server.changedText]
  · rintro ⟨rfl, rfl⟩
    rcases List.eq_nil_or_concat' texts with rfl | ⟨earlier, last, rfl⟩
    · exact .emptied
    · simpa [Server.changedText] using Edits.changed

theorem Event.Edits.unique {elsewhere : String} (h : event.Edits uri text)
    (h' : event.Edits elsewhere other) : uri = elsewhere ∧ text = other := by
  cases event with
  | opened name opening => cases h; cases h'; exact ⟨rfl, rfl⟩
  | changed name texts =>
      obtain ⟨rfl, rfl⟩ := edits_changed_iff.mp h
      obtain ⟨rfl, rfl⟩ := edits_changed_iff.mp h'
      exact ⟨rfl, rfl⟩
  | closed name => cases h; cases h'; exact ⟨rfl, rfl⟩
  | symbols name => cases h

end Events

section Histories

variable {uri : String} {history : List Served} {served : Served} {text other : Option String}
  {loaded : Loaded}

/-- A place in a history to which one call was added is the place of that call or one before it. -/
theorem eq_append_cons_cases {α : Type} {before after items : List α} {item last : α}
    (h : items ++ [last] = before ++ item :: after) :
    (after = [] ∧ items = before ∧ last = item) ∨
      ∃ rest, after = rest ++ [last] ∧ items = before ++ item :: rest := by
  rcases List.eq_nil_or_concat' after with rfl | ⟨rest, other, rfl⟩
  · obtain ⟨rfl, hlast⟩ := List.append_inj' h rfl
    exact .inl ⟨rfl, rfl, List.head_eq_of_cons_eq hlast⟩
  · rw [← List.cons_append, ← List.append_assoc] at h
    obtain ⟨rfl, hlast⟩ := List.append_inj' h rfl
    exact .inr ⟨rest, by rw [List.head_eq_of_cons_eq hlast], rfl⟩

/-- A call that changes a document is the last one that did. -/
theorem lastEdit_append_of_edits (h : served.Edits uri text) :
    LastEdit uri (history ++ [served]) other ↔ other = text := by
  constructor
  · rintro ⟨before, last, after, heq, hlast, hafter⟩
    rcases eq_append_cons_cases heq with ⟨-, -, rfl⟩ | ⟨rest, rfl, -⟩
    · exact (hlast.2.unique h.2).2
    · exact absurd h (hafter served (by simp) text)
  · rintro rfl
    exact ⟨history, served, [], rfl, h, nofun⟩

/-- A call that does not change a document leaves the last one that did. -/
theorem lastEdit_append_of_not_edits (h : ∀ text, ¬ served.Edits uri text) :
    LastEdit uri (history ++ [served]) other ↔ LastEdit uri history other := by
  constructor
  · rintro ⟨before, last, after, heq, hlast, hafter⟩
    rcases eq_append_cons_cases heq with ⟨-, -, rfl⟩ | ⟨rest, rfl, rfl⟩
    · exact absurd hlast (h other)
    · exact ⟨before, last, rest, rfl, hlast, fun later hmem => hafter later (by simp [hmem])⟩
  · rintro ⟨before, last, after, rfl, hlast, hafter⟩
    refine ⟨before, last, after ++ [served], by simp, hlast, fun later hmem => ?_⟩
    rcases List.mem_append.mp hmem with hmem | hmem
    · exact hafter later hmem
    · rw [List.mem_singleton.mp hmem]
      exact h

theorem FirstLoad.append (h : FirstLoad history loaded) :
    FirstLoad (history ++ [served]) loaded := by
  obtain ⟨before, first, after, rfl, hfirst, hbefore⟩ := h
  exact ⟨before, first, after ++ [served], by simp, hfirst, hbefore⟩

/-- Where no frontend is the first, none could be made. -/
theorem not_loads_of_not_firstLoad (h : ∀ loaded, ¬ FirstLoad history loaded) :
    ∀ served ∈ history, ∀ loaded, ¬ served.call.Loads loaded := by
  induction history using List.reverseRecOn with
  | nil => exact nofun
  | append_singleton history last ih =>
      have hnone := ih fun loaded hfirst => h loaded hfirst.append
      intro served hmem loaded hloads
      rcases List.mem_append.mp hmem with hmem | hmem
      · exact hnone served hmem loaded hloads
      · rw [List.mem_singleton.mp hmem] at hloads
        exact h loaded ⟨history, last, [], rfl, hloads, hnone⟩

/-- A frontend that is there stays the first; else one that a call makes is. -/
theorem firstLoad_append : FirstLoad (history ++ [served]) loaded ↔
    FirstLoad history loaded ∨
      (∀ other, ¬ FirstLoad history other) ∧ served.call.Loads loaded := by
  constructor
  · rintro ⟨before, first, after, heq, hfirst, hbefore⟩
    rcases eq_append_cons_cases heq with ⟨-, rfl, rfl⟩ | ⟨rest, -, rfl⟩
    · refine .inr ⟨?_, hfirst⟩
      rintro other ⟨earlier, found, rest, rfl, hfound, -⟩
      exact hbefore found (by simp) other hfound
    · exact .inl ⟨before, first, rest, rfl, hfirst, hbefore⟩
  · rintro (hfirst | ⟨hnone, hloads⟩)
    · exact hfirst.append
    · exact ⟨history, served, [], rfl, hloads, not_loads_of_not_firstLoad hnone⟩

end Histories

/-! ## Single calls -/

namespace Server

variable {server : Server} {call : Call} {uri text : String} {loaded : Loaded}

/-- The server as it finds modules and files when a call comes. -/
def seeing (server : Server) (call : Call) : Server :=
  { server with catalogue := call.catalogue, workspace := call.workspace }

/-- The frontend that a call is served with: the one that the server has, or else the one that the
call makes. -/
def LoadedFor (server : Server) (call : Call) (loaded : Loaded) : Prop :=
  server.loaded = some loaded ∨ server.loaded = none ∧ call.Loads loaded

/-- A server keeps the frontend that it has. -/
theorem LoadedFor.eq {other : Loaded} (hloaded : server.loaded = some loaded)
    (h : server.LoadedFor call other) : other = loaded := by
  rcases h with h | ⟨h, -⟩ <;> rw [hloaded] at h <;> cases h
  rfl

/-- What comes of a call, and what the server knows of documents behind it. -/
inductive Serves (server : Server) (call : Call) : Except Failure Answer → Server → Prop
  /-- A text that could be analysed is known by its analysis, whose findings are published. -/
  | analysed {uri text : String} {loaded : Loaded} {analysis : Analysis} {next : Server}
      (hedit : call.event.Edits uri (some text)) (hloaded : server.LoadedFor call loaded)
      (hanalysis : loaded.Analyses uri text analysis)
      (hentry : next.documents.find? uri = some analysis)
      (hothers : ∀ other ≠ uri, next.documents.find? other = server.documents.find? other) :
      Serves server call (.ok (.publish uri analysis.findings)) next
  /-- A text that could not be analysed is not known; all documents stay as they were. -/
  | failed {uri text : String} {failure : Failure} {next : Server}
      (hedit : call.event.Edits uri (some text))
      (hreason : (∀ loaded, ¬ server.LoadedFor call loaded) ∧
          Loaded.ofWorkspace call.catalogue call.workspace = .error failure ∨
        ∃ loaded, server.LoadedFor call loaded ∧ loaded.Fails uri text failure)
      (hothers : ∀ other, next.documents.find? other = server.documents.find? other) :
      Serves server call (.error failure) next
  /-- A closed document is not known. -/
  | closed {uri : String} {next : Server} (hedit : call.event.Edits uri none)
      (hentry : next.documents.find? uri = none)
      (hothers : ∀ other ≠ uri, next.documents.find? other = server.documents.find? other) :
      Serves server call (.ok .silent) next
  /-- Symbols are those of the analysis that is known; there are none of an unknown document. -/
  | asked {uri : String} {symbols : List DocumentSymbol} {next : Server}
      (hevent : call.event = .symbols uri)
      (hknown : ∀ analysis, server.documents.find? uri = some analysis →
        analysis.HasSymbols uri symbols)
      (hunknown : server.documents.find? uri = none → symbols = [])
      (hothers : ∀ other, next.documents.find? other = server.documents.find? other) :
      Serves server call (.ok (.symbols symbols)) next

/-- A text is analysed by the frontend that the server has or the call makes. -/
theorem frontend_ok_iff (hedit : call.event.Edits uri (some text)) :
    (server.seeing call).frontend = .ok loaded ↔ server.LoadedFor call loaded := by
  have hmade : call.Loads loaded ↔
      Loaded.ofWorkspace call.catalogue call.workspace = .ok loaded := by
    rw [← Loaded.isMade_iff, Call.Loads]
    exact and_iff_right ⟨uri, text, hedit⟩
  rw [LoadedFor, hmade, frontend, seeing]
  cases server.loaded <;> simp

theorem analyze_cases (server : Server) (uri text : String) :
    (∃ failure, server.frontend = .error failure ∧ server.analyze uri text = .error failure) ∨
      ∃ loaded, server.frontend = .ok loaded ∧
        ((∃ analysis, loaded.Analyses uri text analysis ∧
            server.analyze uri text = .ok (analysis, { server with
              loaded := some loaded
              documents := server.documents.set uri analysis })) ∨
          ∃ failure, loaded.Fails uri text failure ∧
            server.analyze uri text = .error failure) := by
  rw [analyze]
  cases server.frontend with
  | error failure => exact .inl ⟨failure, rfl, rfl⟩
  | ok loaded =>
      refine .inr ⟨loaded, rfl, ?_⟩
      rcases Analysis.ofText_cases loaded uri text with ⟨analysis, hok, h⟩ | ⟨failure, hfails, h⟩
      · refine .inl ⟨analysis, h, ?_⟩
        change (Analysis.ofText loaded.frontend loaded.findings uri text >>= _) = _
        rw [hok]
        rfl
      · refine .inr ⟨failure, h, ?_⟩
        change (Analysis.ofText loaded.frontend loaded.findings uri text >>= _) = _
        rw [hfails]
        rfl

/-- Opening and changing are served alike. -/
theorem handle_edit {event : Event} (hedit : event.Edits uri (some text)) :
    server.handle event = (server.analyze uri text).map fun analysed =>
      (.publish uri analysed.1.findings, analysed.2) := by
  cases event with
  | opened name opening =>
      cases hedit
      rw [handle]
      cases server.analyze uri text <;> rfl
  | changed name texts =>
      obtain ⟨rfl, htext⟩ := Event.edits_changed_iff.mp hedit
      cases htext
      rw [handle]
      cases server.analyze uri (changedText texts) <;> rfl
  | closed name => cases hedit
  | symbols name => cases hedit

theorem serve_edit (server : Server) (call : Call) (hedit : call.event.Edits uri (some text)) :
    ∃ outcome next, (server.seeing call).serve call.event = (outcome, next) ∧
      (∀ loaded, next.loaded = some loaded ↔ server.LoadedFor call loaded) ∧
      server.Serves call outcome next := by
  have hfrontend (loaded : Loaded) :
      (server.seeing call).frontend.toOption = some loaded ↔ server.LoadedFor call loaded := by
    rw [← frontend_ok_iff hedit]
    cases (server.seeing call).frontend <;> simp [Except.toOption]
  rw [serve, handle_edit hedit]
  rcases (server.seeing call).analyze_cases uri text with
    ⟨failure, hmade, hanalyze⟩ | ⟨loaded, hmade, ⟨analysis, h, hanalyze⟩ | ⟨failure, h, hanalyze⟩⟩
  all_goals rw [hmade] at hfrontend; rw [hanalyze]
  · refine ⟨_, _, rfl, by rw [hmade]; exact hfrontend, .failed hedit (.inl ⟨?_, ?_⟩) fun _ => rfl⟩
    · intro loaded hloaded
      have hsome := (hfrontend loaded).mpr hloaded
      cases hsome
    · -- a server that has a frontend would have had it here
      unfold frontend at hmade
      split at hmade
      · cases hmade
      · exact hmade
  · refine ⟨_, _, rfl, hfrontend, .analysed hedit ((hfrontend loaded).mp rfl) h ?_ ?_⟩
    · exact (Table.find?_set _ _ _ _).trans (if_pos rfl)
    · exact fun other hne => (Table.find?_set _ _ _ _).trans (if_neg hne.symm)
  · exact ⟨_, _, rfl, by rw [hmade]; exact hfrontend,
      .failed hedit (.inr ⟨loaded, (hfrontend loaded).mp rfl, h⟩) fun _ => rfl⟩

/-- A call that analyses no text leaves the frontend as it is. -/
theorem loadedFor_iff_of_not_edits (hevent : ∀ uri text, ¬ call.event.Edits uri (some text)) :
    server.loaded = some loaded ↔ server.LoadedFor call loaded := by
  refine ⟨.inl, ?_⟩
  rintro (hloaded | ⟨-, ⟨uri, text, hedit⟩, -⟩)
  · exact hloaded
  · exact absurd hedit (hevent uri text)

/-- Every call is served, and only a text that has to be analysed can bring a frontend. -/
theorem serve_serves (server : Server) (call : Call) :
    ∃ outcome next, (server.seeing call).serve call.event = (outcome, next) ∧
      (∀ loaded, next.loaded = some loaded ↔ server.LoadedFor call loaded) ∧
      server.Serves call outcome next := by
  cases hevent : call.event with
  | opened uri text =>
      have hedit : call.event.Edits uri (some text) := by rw [hevent]; exact .opened
      exact hevent ▸ server.serve_edit call hedit
  | changed uri texts =>
      have hedit : call.event.Edits uri (some (changedText texts)) := by
        rw [hevent]
        exact Event.edits_changed_iff.mpr ⟨rfl, rfl⟩
      exact hevent ▸ server.serve_edit call hedit
  | closed uri =>
      have hedit : call.event.Edits uri none := by rw [hevent]; exact .closed
      refine ⟨_, _, rfl, fun loaded => loadedFor_iff_of_not_edits ?_, .closed hedit ?_ ?_⟩
      · rw [hevent]
        exact nofun
      · exact (Table.find?_erase _ _ _).trans (if_pos rfl)
      · exact fun other hne => (Table.find?_erase _ _ _).trans (if_neg hne.symm)
  | symbols uri =>
      refine ⟨_, _, rfl, fun loaded => loadedFor_iff_of_not_edits ?_,
        .asked hevent ?_ ?_ fun _ => rfl⟩
      · rw [hevent]
        exact nofun
      · intro analysis hfind
        have hsymbols : (server.seeing call).symbols uri = analysis.symbols uri := by
          rw [symbols, seeing, hfind]
        rw [hsymbols]
        exact analysis.hasSymbols uri
      · intro hfind
        rw [symbols, seeing, hfind]

end Server

/-! ## Sessions -/

/-- A server with the history of the calls that it has served. -/
structure Session where
  history : List Served
  server : Server

namespace Session

/-- The session after one more call. -/
def call (session : Session) (call : Call) : Session :=
  let (outcome, next) := (session.server.seeing call).serve call.event
  { history := session.history ++ [⟨call, outcome⟩], server := next }

/-- The session of some calls, with a server that is new. -/
def ofCalls (catalogue : Catalogue) (workspace : Workspace) (calls : List Call) : Session :=
  calls.foldl call { history := [], server := .new catalogue workspace }

/-- The server knows what the history tells. -/
structure Follows (history : List Served) (server : Server) : Prop where
  /-- The frontend is the first that could be made when a text had to be analysed. -/
  frontend : ∀ loaded, server.loaded = some loaded ↔ FirstLoad history loaded
  /-- A document is known if the last call that changed it and did not fail gave it a text, by the
  analysis of that text by the frontend. -/
  documents : ∀ uri text, LastEdit uri history (some text) →
    ∃ loaded analysis, server.loaded = some loaded ∧ loaded.Analyses uri text analysis ∧
      server.documents.find? uri = some analysis
  /-- Nothing is known of other documents. -/
  unknown : ∀ uri, (∀ text, ¬ LastEdit uri history (some text)) →
    server.documents.find? uri = none

namespace Follows

variable {history : List Served} {server next : Server} {call : Call}
  {outcome : Except Failure Answer}

theorem new (catalogue : Catalogue) (workspace : Workspace) :
    Follows [] (.new catalogue workspace) where
  frontend loaded := iff_of_false nofun fun ⟨_, _, _, h, _⟩ => by simp at h
  documents uri text := fun ⟨_, _, _, h, _⟩ => by simp at h
  unknown uri _ := Table.find?_empty uri

/-- What is known of a document stays known if the call did not change it. -/
theorem keep (h : Follows history server)
    (hloaded : ∀ loaded, next.loaded = some loaded ↔ server.LoadedFor call loaded) {uri : String}
    (hedit : ∀ text, ¬ Served.Edits ⟨call, outcome⟩ uri text)
    (hsame : next.documents.find? uri = server.documents.find? uri) :
    (∀ text, LastEdit uri (history ++ [⟨call, outcome⟩]) (some text) →
      ∃ loaded analysis, next.loaded = some loaded ∧ loaded.Analyses uri text analysis ∧
        next.documents.find? uri = some analysis) ∧
    ((∀ text, ¬ LastEdit uri (history ++ [⟨call, outcome⟩]) (some text)) →
      next.documents.find? uri = none) := by
  simp only [lastEdit_append_of_not_edits hedit, hsame]
  refine ⟨fun text htext => ?_, h.unknown uri⟩
  obtain ⟨loaded, analysis, hhas, hanalysis, hentry⟩ := h.documents uri text htext
  exact ⟨loaded, analysis, (hloaded loaded).mpr (.inl hhas), hanalysis, hentry⟩

/-- What the history tells of each document after one more call. -/
theorem entry (h : Follows history server)
    (hloaded : ∀ loaded, next.loaded = some loaded ↔ server.LoadedFor call loaded)
    (hserves : server.Serves call outcome next) (uri : String) :
    (∀ text, LastEdit uri (history ++ [⟨call, outcome⟩]) (some text) →
      ∃ loaded analysis, next.loaded = some loaded ∧ loaded.Analyses uri text analysis ∧
        next.documents.find? uri = some analysis) ∧
    ((∀ text, ¬ LastEdit uri (history ++ [⟨call, outcome⟩]) (some text)) →
      next.documents.find? uri = none) := by
  cases hserves with
  | @analysed name text loaded analysis _ hedit hfor hanalysis hentry hothers =>
      by_cases hname : uri = name
      · subst hname
        have hopen : Served.Edits ⟨call, .ok (.publish uri analysis.findings)⟩ uri (some text) :=
          ⟨⟨_, rfl⟩, hedit⟩
        simp only [lastEdit_append_of_edits hopen]
        refine ⟨fun other hother => ?_, fun hnone => absurd rfl (hnone text)⟩
        obtain rfl := Option.some.inj hother
        exact ⟨loaded, analysis, (hloaded loaded).mpr hfor, hanalysis, hentry⟩
      · exact h.keep hloaded (fun text hother => hname (hother.2.unique hedit).1)
          (hothers uri hname)
  | failed _ _ hothers => exact h.keep hloaded (fun _ hedit => nomatch hedit.1) (hothers uri)
  | @closed name _ hedit hentry hothers =>
      by_cases hname : uri = name
      · subst hname
        have hclosed : Served.Edits ⟨call, .ok .silent⟩ uri none := ⟨⟨_, rfl⟩, hedit⟩
        simp only [lastEdit_append_of_edits hclosed]
        exact ⟨nofun, fun _ => hentry⟩
      · exact h.keep hloaded (fun text hother => hname (hother.2.unique hedit).1)
          (hothers uri hname)
  | asked hevent _ _ hothers =>
      refine h.keep hloaded (fun text hedit => ?_) (hothers uri)
      have hedit := hedit.2
      rw [hevent] at hedit
      cases hedit

/-- A server that follows its history follows it after one more call. -/
theorem step (h : Follows history server)
    (hloaded : ∀ loaded, next.loaded = some loaded ↔ server.LoadedFor call loaded)
    (hserves : server.Serves call outcome next) :
    Follows (history ++ [⟨call, outcome⟩]) next where
  frontend loaded := by
    rw [hloaded, firstLoad_append, Server.LoadedFor, h.frontend, Option.eq_none_iff_forall_ne_some]
    simp only [Ne, h.frontend]
  documents uri := (h.entry hloaded hserves uri).1
  unknown uri := (h.entry hloaded hserves uri).2

end Follows

variable {catalogue : Catalogue} {workspace : Workspace}

theorem ofCalls_append (calls : List Call) (last : Call) :
    ofCalls catalogue workspace (calls ++ [last]) =
      (ofCalls catalogue workspace calls).call last := by
  rw [ofCalls, List.foldl_append]
  rfl

theorem follows_ofCalls (calls : List Call) :
    Follows (ofCalls catalogue workspace calls).history
      (ofCalls catalogue workspace calls).server := by
  induction calls using List.reverseRecOn with
  | nil => exact .new catalogue workspace
  | append_singleton calls last ih =>
      obtain ⟨outcome, next, hserve, hloaded, hserves⟩ :=
        (ofCalls catalogue workspace calls).server.serve_serves last
      rw [ofCalls_append, Session.call, hserve]
      exact ih.step hloaded hserves

/-- **The server knows what the history of its calls tells.** Behind any calls, about any documents
and with the files and modules as they were at each of them, a document is known if the last call
that changed it and did not fail has not closed it, by the analysis of the text of that call; and
the frontend is the first that could be made. The next call is served from that: what is published
are the findings of the new analysis, symbols are those of the analysis that is known, a failed call
changes no document, and no call changes what is known of documents that it is not about. -/
theorem server_follows_history (catalogue : Catalogue) (workspace : Workspace)
    (calls : List Call) (last : Call) :
    let session := ofCalls catalogue workspace calls
    Follows session.history session.server ∧
      ∃ outcome next, session.call last = ⟨session.history ++ [⟨last, outcome⟩], next⟩ ∧
        session.server.Serves last outcome next := by
  intro session
  obtain ⟨outcome, next, hserve, -, hserves⟩ := session.server.serve_serves last
  refine ⟨follows_ofCalls calls, outcome, next, ?_, hserves⟩
  rw [Session.call, hserve]

/-- Two documents, with a configuration that names a plugin which is not there. Of the texts of a
change the last is analysed, which does not lex; the warning comes first. The other document keeps
its symbols until it is closed. -/
theorem server_follows_history_lacking_plugin :
    let workspace : Workspace := ⟨"/", [],
      [(["csparse.toml"], .file "[parser]\nplugins = [\"nowhere\"]\n".toUTF8)]⟩
    let call (event : Event) : Call := ⟨event, .bundled, workspace⟩
    let opened := [call (.opened "a.cs" "class A\x7b\x7d"), call (.opened "b.cs" "class B\x7b\x7d")]
    let session := ofCalls .bundled workspace opened
    let closed := ofCalls .bundled workspace (opened ++ [call (.closed "b.cs")])
    let change := call (.changed "a.cs" ["f();", "a\x60"])
    let ask := call (.symbols "b.cs")
    let findings : List Finding := [
      ⟨⟨0, 0, 0, 0⟩, .warning, none,
        "[config] cannot import plugin module 'nowhere': No module named 'nowhere'"⟩,
      ⟨⟨0, 1, 0, 2⟩, .error, some "E100", "Unexpected token at position 1: '\x60'"⟩]
    (∃ next, session.call change =
        ⟨session.history ++ [⟨change, .ok (.publish "a.cs" findings)⟩], next⟩ ∧
      next.documents.find? "a.cs" = some ⟨"a\x60", none, findings⟩) ∧
    (∃ symbols next, session.call ask =
        ⟨session.history ++ [⟨ask, .ok (.symbols symbols)⟩], next⟩ ∧
      symbols.map DocumentSymbol.name = ["B"]) ∧
    ∃ next, closed.call ask = ⟨closed.history ++ [⟨ask, .ok (.symbols [])⟩], next⟩ := by
  intro workspace call opened session closed change ask findings
  have hserver : session.server.loaded.map (fun loaded =>
      (loaded.warning, loaded.frontend.plugins.length)) =
      some (some "cannot import plugin module 'nowhere': No module named 'nowhere'", 0) := by
    decide +kernel
  obtain ⟨⟨frontend, warning⟩, hloaded, hfacts⟩ := Option.map_eq_some_iff.mp hserver
  obtain ⟨rfl, hplugins⟩ := Prod.mk.inj hfacts
  obtain rfl : frontend = .empty := congrArg Frontend.mk (List.eq_nil_of_length_eq_zero hplugins)
  refine ⟨?_, ?_, ?_⟩
  · obtain ⟨-, outcome, next, hcall, hserves⟩ :=
      server_follows_history .bundled workspace opened change
    have hevent : change.event.Edits "a.cs" (some "a\x60") :=
      @Event.Edits.changed "a.cs" "a\x60" ["f();"]
    have hlex : Frontend.empty.lex (.ofText "a\x60" "a.cs") =
        .error (.lex (Lexer.errorAt (.ofText "a\x60" "a.cs") 1 '\x60')) := by
      decide +kernel
    have hparse := Frontend.parse_of_lex_error hlex
    cases hserves with
    | @analysed uri text loaded analysis _ hedit hhas hanalysis hentry _ =>
        obtain ⟨rfl, htext⟩ := hedit.unique hevent
        cases htext
        obtain rfl := hhas.eq hloaded
        cases hanalysis with
        | parsed h => rw [hparse] at h; cases h
        | @unlexed error published h hpublishes =>
            rw [hparse] at h
            cases h
            rw [Loaded.publishes_iff] at hpublishes
            obtain rfl : published = findings := hpublishes.trans (by decide +kernel)
            exact ⟨next, hcall, hentry⟩
    | @failed uri text failure _ hedit hreason _ =>
        obtain ⟨rfl, htext⟩ := hedit.unique hevent
        cases htext
        rcases hreason with ⟨hnone, -⟩ | ⟨loaded, hhas, error, hfailed, hother, -⟩
        · exact absurd (.inl hloaded) (hnone _)
        · obtain rfl := hhas.eq hloaded
          rw [hparse] at hfailed
          cases hfailed
          exact absurd rfl (hother _)
    | closed hedit => cases (hedit.unique hevent).2
    | asked hsymbols => cases hsymbols
  · obtain ⟨-, outcome, next, hcall, hserves⟩ :=
      server_follows_history .bundled workspace opened ask
    cases hserves with
    | @asked uri symbols _ hevent hknown hunknown _ =>
        cases hevent
        have hentry : (session.server.documents.find? "b.cs").map (fun analysis =>
            analysis.program.map fun program => program.declarations.map Declaration.name) =
            some (some ["B"]) := by decide +kernel
        obtain ⟨analysis, hfind, hprogram⟩ := Option.map_eq_some_iff.mp hentry
        obtain ⟨program, htree, hnames⟩ := Option.map_eq_some_iff.mp hprogram
        have hsymbols := hknown analysis hfind
        rw [Analysis.HasSymbols, htree] at hsymbols
        exact ⟨symbols, next, hcall, (Mirrors.names_eq hsymbols).trans hnames⟩
    | analysed hedit => cases hedit
    | failed hedit => cases hedit
    | closed hedit => cases hedit
  · obtain ⟨-, outcome, next, hcall, hserves⟩ :=
      server_follows_history .bundled workspace (opened ++ [call (.closed "b.cs")]) ask
    cases hserves with
    | asked hevent hknown hunknown _ =>
        cases hevent
        have hentry : (closed.server.documents.find? "b.cs").isNone = true := by decide +kernel
        exact ⟨next, by rw [hcall, hunknown (Option.isNone_iff_eq_none.mp hentry)]⟩
    | analysed hedit => cases hedit
    | failed hedit => cases hedit
    | closed hedit => cases hedit

end Session

end SharpSyntax.LanguageServer
