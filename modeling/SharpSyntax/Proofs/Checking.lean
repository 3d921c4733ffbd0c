import SharpSyntax.CommandLine.Run
import SharpSyntax.Plugin.Bundled
import SharpSyntax.Proofs.Analyses
import SharpSyntax.Proofs.Paths
import Mathlib.Data.List.Lex

/-!
# Checking a directory is parsing its files

A check of a directory parses all source files below it with one frontend and one renderer, while a
parse makes both afresh. They agree nevertheless, whatever the plugins do: a frontend keeps nothing
from one text to the next, and what a renderer knows of a text is what stands in its file, so that
it does not matter which other files it has learned.

A parse that an exception breaks off breaks off a check as well. Up to there the check has written
what the parses write.
-/

namespace SharpSyntax

/-! ## Renderers of files -/

/-- A renderer with given colours that knows nothing but what stands in the files. -/
structure Renderer.ShowsFiles (workspace : Workspace) (color : Bool) (renderer : Renderer) :
    Prop where
  workspace_eq : renderer.workspace = workspace
  color_eq : renderer.color = color
  known : ∀ name lines, renderer.sources.find? name = some lines →
    ∃ text, workspace.readText (.ofText name) = .ok text ∧
      lines = (SourceText.ofText text name).lines

namespace Renderer.ShowsFiles

variable {workspace : Workspace} {color : Bool} {renderer : Renderer} {path : Path}
  {text : String}

theorem new (workspace : Workspace) (color : Bool) :
    ShowsFiles workspace color (.new color workspace) :=
  ⟨rfl, rfl, nofun⟩

/-- A renderer may learn a text that stands in the file of its name. -/
theorem addSource (h : renderer.ShowsFiles workspace color) (hpath : Path.ofText path.text = path)
    (hread : workspace.readText path = .ok text) :
    (renderer.addSource (.ofText text path.text)).ShowsFiles workspace color where
  workspace_eq := h.workspace_eq
  color_eq := h.color_eq
  known name lines hfind := by
    rw [Renderer.addSource, Table.find?_set] at hfind
    split at hfind
    · next hname =>
      cases hfind
      obtain rfl : path.text = name := hname
      exact ⟨text, by rw [hpath]; exact hread, rfl⟩
    · exact h.known name lines hfind

/-- The lines that it has learned are those that it would read. -/
theorem linesOf_eq (h : renderer.ShowsFiles workspace color) (name : String) :
    renderer.linesOf name = (Renderer.new color workspace).linesOf name := by
  unfold linesOf
  rw [h.workspace_eq]
  cases hfind : renderer.sources.find? name with
  | none => rfl
  | some lines =>
      obtain ⟨text, hread, rfl⟩ := h.known name lines hfind
      simp only [Renderer.new, Table.find?_empty, hread]

/-- It shows every diagnostic as a renderer that has learned nothing. -/
theorem render_eq (h : renderer.ShowsFiles workspace color) (x : Diagnostic) :
    renderer.render x = (Renderer.new color workspace).render x := by
  unfold render
  simp only [h.linesOf_eq, h.color_eq]
  rfl

end Renderer.ShowsFiles

/-- A renderer that has learned a text shows all diagnostics that point into it. -/
theorem Renderer.exists_shown {source : SourceText} {x : Diagnostic} (h : x.PointsInto source)
    (renderer : Renderer) : ∃ shown, (renderer.addSource source).render x = .ok shown := by
  obtain ⟨label, hlabels, hfile⟩ := h
  have hlines : (renderer.addSource source).linesOf source.name = .ok source.lines := by
    rw [linesOf, addSource, Table.find?_set, if_pos rfl]
  unfold Renderer.render
  rw [hlabels, List.mapM_cons, hfile, hlines]
  exact ⟨_, rfl⟩

namespace CommandLine

variable {frontend : Frontend} {workspace : Workspace} {color : Bool} {renderer : Renderer}
  {path : Path}

theorem renderAll_eq (h : renderer.ShowsFiles workspace color) (diagnostics : List Diagnostic) :
    renderAll renderer diagnostics = renderAll (.new color workspace) diagnostics := by
  induction diagnostics with
  | nil => rfl
  | cons x diagnostics ih => rw [renderAll, renderAll, h.render_eq, ih]

theorem exists_renderAll {diagnostics : List Diagnostic}
    (h : ∀ x ∈ diagnostics, ∃ shown, renderer.render x = .ok shown) :
    ∃ errors, renderAll renderer diagnostics = (errors, .ok ()) := by
  induction diagnostics with
  | nil => exact ⟨[], rfl⟩
  | cons x diagnostics ih =>
      obtain ⟨shown, hshown⟩ := h x List.mem_cons_self
      obtain ⟨errors, herrors⟩ := ih fun y hmem => h y (List.mem_cons_of_mem _ hmem)
      exact ⟨shown :: errors, by rw [renderAll, hshown, herrors]⟩

/-! ## A file alone -/

/-- What is told of a file that is parsed alone, and whether it is free of errors. -/
def parseAlone (frontend : Frontend) (workspace : Workspace) (color : Bool) (path : Path) :
    List String × Except Failure Bool :=
  let (errors, ending) := parseFile frontend (.new color workspace) path
  (errors, ending.map FileReport.ok)

/-- Of a file is told what is told of it alone, whichever other files the renderer has learned, and
the renderer still knows nothing but what stands in files. -/
theorem parseFile_cases (h : renderer.ShowsFiles workspace color)
    (hpath : Path.ofText path.text = path) :
    (∃ errors failure, parseFile frontend renderer path = (errors, .error failure) ∧
      parseAlone frontend workspace color path = (errors, .error failure)) ∨
    ∃ errors report, parseFile frontend renderer path = (errors, .ok report) ∧
      parseAlone frontend workspace color path = (errors, .ok report.ok) ∧
      report.renderer.ShowsFiles workspace color := by
  have hfresh := Renderer.ShowsFiles.new workspace color
  unfold parseAlone parseFile
  rw [h.workspace_eq, hfresh.workspace_eq]
  cases hread : workspace.readText path with
  | error error => exact .inl ⟨_, _, rfl, rfl⟩
  | ok text =>
      have hlearned := h.addSource hpath hread
      have hshown := renderAll_eq hlearned
      have hshown' := renderAll_eq (hfresh.addSource hpath hread)
      dsimp only
      cases frontend.parse (.ofText text path.text) with
      | ok result =>
          dsimp only
          rw [hshown, hshown']
          cases renderAll (.new color workspace) result.diagnostics with
          | mk errors ending =>
              cases ending with
              | error failure => exact .inl ⟨_, _, rfl, rfl⟩
              | ok _ => exact .inr ⟨_, _, rfl, rfl, hlearned⟩
      | error error =>
          cases error with
          | lex error =>
              dsimp only
              rw [hshown, hshown']
              cases renderAll (.new color workspace) [error.diagnostic] with
              | mk errors ending =>
                  cases ending with
                  | error failure => exact .inl ⟨_, _, rfl, rfl⟩
                  | ok _ => exact .inr ⟨_, _, rfl, rfl, hlearned⟩
          | hook error => exact .inl ⟨_, _, rfl, rfl⟩
          | fault fault => exact .inl ⟨_, _, rfl, rfl⟩

/-- Nothing breaks off what is told of a file if there are no plugins but the bundled one. -/
theorem exists_parseAlone (hplugins : ∀ plugin ∈ frontend.plugins, plugin = Extras.plugin)
    {text : String} (hread : workspace.readText path = .ok text) :
    ∃ errors ok, parseAlone frontend workspace color path = (errors, .ok ok) := by
  unfold parseAlone parseFile
  rw [(Renderer.ShowsFiles.new workspace color).workspace_eq, hread]
  dsimp only
  have hshown {x : Diagnostic} (h : x.PointsInto (.ofText text path.text)) :=
    Renderer.exists_shown h (.new color workspace)
  rcases Frontend.parse_cases hplugins (.ofText text path.text) with
    ⟨result, hparse, hinto⟩ | ⟨error, hparse, hinto⟩
  · obtain ⟨errors, herrors⟩ := exists_renderAll fun x hmem => hshown (hinto x hmem)
    rw [hparse]
    dsimp only
    rw [herrors]
    exact ⟨_, _, rfl⟩
  · obtain ⟨errors, herrors⟩ := exists_renderAll (List.forall_mem_singleton.mpr (hshown hinto))
    rw [hparse]
    dsimp only
    rw [herrors]
    exact ⟨_, _, rfl⟩

/-- How a run ends that told of files whether they are free of errors. -/
def Ending.ofTold : Except Failure Bool → Ending
  | .ok ok => .finished (if ok then 0 else 1)
  | .error failure => .failed failure

/-- A parse of a file tells what is told of the file alone. -/
theorem parse_tells {catalogue : Catalogue} {plugins : List String} {format : Option TreeFormat}
    {config : Config} (hpath : Path.ofText path.text = path)
    (hprepare : prepare catalogue workspace path plugins = .ok (config, frontend)) :
    let told := parseAlone frontend workspace config.color.isTruthy path
    (parse catalogue workspace path.text format plugins).errors = told.1 ∧
      (parse catalogue workspace path.text format plugins).ending = .ofTold told.2 := by
  rw [parse, withFrontend, hpath, hprepare]
  dsimp only
  have hfresh := Renderer.ShowsFiles.new workspace config.color.isTruthy
  rcases @parseFile_cases frontend _ _ _ _ hfresh hpath with
    ⟨errors, failure, hparse, halone⟩ | ⟨errors, report, hparse, halone, -⟩
  · rw [hparse, halone]
    exact ⟨rfl, rfl⟩
  · rw [hparse, halone]
    exact ⟨rfl, rfl⟩

/-! ## Files one after the other -/

/-- What several runs write one after the other, and how that ends: with the first that an exception
breaks off, or else by whether all found their files free of errors. -/
inductive Joins : List Outcome → List String → Except Failure Bool → Prop
  | done : Joins [] [] (.ok true)
  | broken {outcome : Outcome} {rest : List Outcome} {failure : Failure}
      (h : outcome.ending = .failed failure) :
      Joins (outcome :: rest) outcome.errors (.error failure)
  | further {outcome : Outcome} {rest : List Outcome} {ok : Bool} {errors : List String}
      {ending : Except Failure Bool} (h : outcome.ending = .finished (if ok then 0 else 1))
      (hrest : Joins rest errors ending) :
      Joins (outcome :: rest) (outcome.errors ++ errors) (ending.map fun others => ok && others)

namespace Joins

variable {outcomes before after : List Outcome} {outcome : Outcome} {errors : List String}
  {ending : Except Failure Bool}

/-- Where no run is broken off, all that they write is written. -/
theorem errors_eq (h : Joins outcomes errors ending)
    (hfinished : ∀ outcome ∈ outcomes, ∃ code, outcome.ending = .finished code) :
    errors = outcomes.flatMap Outcome.errors := by
  induction h with
  | done => rfl
  | broken hfailed =>
      obtain ⟨code, hcode⟩ := hfinished _ List.mem_cons_self
      rw [hfailed] at hcode
      cases hcode
  | further _ _ ih =>
      rw [List.flatMap_cons, ih fun other hmem => hfinished other (List.mem_cons_of_mem _ hmem)]

/-- Where a run is broken off and none before it, what they write up to there is written, and it
ends as that run does. -/
theorem of_failed {failure : Failure} (h : Joins (before ++ outcome :: after) errors ending)
    (hfinished : ∀ earlier ∈ before, ∃ code, earlier.ending = .finished code)
    (hfailed : outcome.ending = .failed failure) :
    errors = (before ++ [outcome]).flatMap Outcome.errors ∧ ending = .error failure := by
  induction before generalizing errors ending with
  | nil =>
      cases h with
      | broken h =>
          rw [hfailed] at h
          cases h
          exact ⟨by simp, rfl⟩
      | further h _ => rw [hfailed] at h; cases h
  | cons first before ih =>
      cases h with
      | broken h =>
          obtain ⟨code, hcode⟩ := hfinished first List.mem_cons_self
          rw [h] at hcode
          cases hcode
      | further _ hrest =>
          obtain ⟨rfl, rfl⟩ := ih hrest fun other hmem =>
            hfinished other (List.mem_cons_of_mem _ hmem)
          exact ⟨by simp, rfl⟩

/-- It ends with 0 if all runs do. -/
theorem exitCode_eq_zero_iff (h : Joins outcomes errors ending) :
    (Ending.ofTold ending).exitCode = 0 ↔ ∀ outcome ∈ outcomes, outcome.ending.exitCode = 0 := by
  induction h with
  | done => simp [Ending.ofTold, Ending.exitCode]
  | broken hfailed => simp [Ending.ofTold, Ending.exitCode, hfailed]
  | @further outcome rest ok errors ending hfinished _ ih =>
      rw [List.forall_mem_cons, ← ih, hfinished]
      cases ending with
      | error failure => simp [Except.map, Ending.ofTold, Ending.exitCode]
      | ok others => cases ok <;> cases others <;> simp [Except.map, Ending.ofTold, Ending.exitCode]

end Joins

theorem Ending.exitCode_ofTold (told : Except Failure Bool) (h : (ofTold told).exitCode ≠ 0) :
    (ofTold told).exitCode = 1 := by
  match told, h with
  | .ok true, h => exact absurd rfl h
  | .ok false, _ => rfl
  | .error _, _ => rfl

/-- A check of files joins runs that tell of each file what is told of it alone. -/
theorem checkFiles_joins {files : List (List String)} {pathOf : List String → Path}
    {parsed : List String → Outcome}
    (hpaths : ∀ names ∈ files, Path.ofText (pathOf names).text = pathOf names)
    (hparsed : ∀ names ∈ files,
      let told := parseAlone frontend workspace color (pathOf names)
      (parsed names).errors = told.1 ∧ (parsed names).ending = .ofTold told.2)
    (h : renderer.ShowsFiles workspace color) :
    let told := checkFiles frontend renderer (files.map pathOf)
    Joins (files.map parsed) told.1 told.2 := by
  induction files generalizing renderer with
  | nil => exact .done
  | cons names files ih =>
      have hrest (kept : Renderer) (hkept : kept.ShowsFiles workspace color) :=
        ih (fun other hmem => hpaths other (List.mem_cons_of_mem _ hmem))
          (fun other hmem => hparsed other (List.mem_cons_of_mem _ hmem)) hkept
      obtain ⟨herrors, hending⟩ := hparsed names List.mem_cons_self
      have hcases := @parseFile_cases frontend _ _ _ _ h (hpaths names List.mem_cons_self)
      rw [List.map_cons, List.map_cons, checkFiles]
      rcases hcases with
        ⟨errors, failure, hparse, halone⟩ | ⟨errors, report, hparse, halone, hkept⟩
      all_goals
        rw [halone] at herrors hending
        rw [hparse]
        obtain rfl : (parsed names).errors = errors := herrors
      · exact .broken hending
      · exact .further hending (hrest _ hkept)

/-! ## The files below a directory -/

/-- A name is that of a source file. -/
def IsSourceFileName (name : String) : Prop := ∃ stem, name = stem ++ ".cs"

theorem isSourceName_iff {name : String} : isSourceName name = true ↔ IsSourceFileName name := by
  rw [isSourceName, String.endsWith_eq_endsWith_toSlice, String.Slice.endsWith_string_iff,
    String.copy_toSlice]
  constructor
  · rintro ⟨stem, hstem⟩
    exact ⟨String.ofList stem, String.toList_inj.mp (by simpa using hstem.symm)⟩
  · rintro ⟨stem, rfl⟩
    rw [String.toList_append]
    exact List.suffix_append _ _

/-- A name stands in front of another one in the order of their characters. -/
def NameBefore (first second : String) : Prop :=
  List.Lex (fun c d : Char => c.toNat < d.toNat) first.toList second.toList

/-- A way through directories stands in front of another one in the order of the names on it. -/
def WayBefore (first second : List String) : Prop := List.Lex NameBefore first second

instance : Std.Asymm NameBefore :=
  have : Std.Asymm fun c d : Char => c.toNat < d.toNat := ⟨fun _ _ => Nat.lt_asymm⟩
  ⟨fun first second => (List.Lex.asymm _).asymm first.toList second.toList⟩

instance : Std.Asymm WayBefore := List.Lex.asymm NameBefore

/-- There is one way only to put files into this order. -/
theorem eq_of_pairwise_wayBefore {files others : List (List String)}
    (h : files.Pairwise WayBefore) (h' : others.Pairwise WayBefore)
    (hmem : ∀ names, names ∈ files ↔ names ∈ others) : files = others := by
  have hne {first second : List String} (hbefore : WayBefore first second) : first ≠ second := by
    rintro rfl
    exact Std.Asymm.asymm _ _ hbefore hbefore
  have hperm : files.Perm others :=
    (List.perm_ext_iff_of_nodup (h.imp hne) (h'.imp hne)).mpr hmem
  exact hperm.eq_of_pairwise
    (fun _ _ _ _ hbefore hafter => absurd hafter (Std.Asymm.asymm _ _ hbefore)) h h'

theorem namesLe_trans {first second third : List String} (h : namesLe first second = true)
    (h' : namesLe second third = true) : namesLe first third = true := by
  induction first generalizing second third with
  | nil => rw [namesLe]
  | cons a first ih =>
      cases second with
      | nil => cases h
      | cons b second =>
          cases third with
          | nil => cases h'
          | cons c third =>
              rw [namesLe] at h h' ⊢
              by_cases hab : a = b <;> by_cases hbc : b = c
              · rw [if_pos hab] at h
                rw [if_pos hbc] at h'
                rw [if_pos (hab.trans hbc)]
                exact ih h h'
              · rw [if_neg hbc] at h'
                rw [hab, if_neg hbc]
                exact h'
              · rw [if_neg hab] at h
                rw [← hbc, if_neg hab]
                exact h
              · rw [if_neg hab, decide_eq_true_eq] at h
                rw [if_neg hbc, decide_eq_true_eq] at h'
                have hac := String.lt_trans h h'
                have hne : a ≠ c := by
                  rintro rfl
                  exact String.lt_irrefl a hac
                rw [if_neg hne, decide_eq_true_eq]
                exact hac

theorem namesLe_total (first second : List String) :
    (namesLe first second || namesLe second first) = true := by
  induction first generalizing second with
  | nil => rfl
  | cons a first ih =>
      cases second with
      | nil => rfl
      | cons b second =>
          rw [namesLe, namesLe, Bool.or_eq_true]
          by_cases hab : a = b
          · rw [if_pos hab, if_pos hab.symm]
            exact Bool.or_eq_true _ _ ▸ ih second
          · rw [if_neg hab, if_neg fun heq => hab heq.symm, decide_eq_true_eq, decide_eq_true_eq]
            by_cases hlt : a < b
            · exact .inl hlt
            · exact .inr (Std.lt_of_le_of_ne (String.not_lt.mp hlt) fun heq => hab heq.symm)

theorem eq_or_wayBefore {first second : List String} (h : namesLe first second = true) :
    first = second ∨ WayBefore first second := by
  induction first generalizing second with
  | nil =>
      cases second with
      | nil => exact .inl rfl
      | cons b second => exact .inr .nil
  | cons a first ih =>
      cases second with
      | nil => cases h
      | cons b second =>
          rw [namesLe] at h
          by_cases hab : a = b
          · subst hab
            rw [if_pos rfl] at h
            rcases ih h with rfl | hbefore
            · exact .inl rfl
            · exact .inr (.cons hbefore)
          · rw [if_neg hab, decide_eq_true_eq] at h
            exact .inr (.rel h)

/-- Something with the name of a source file stands below a directory. -/
def HasSource (workspace : Workspace) (place : Place) (names : List String) : Prop :=
  (∃ above name, names = above ++ [name] ∧ IsSourceFileName name) ∧
    (workspace.contentAt? (place ++ names)).isSome = true

/-- Below a directory are source files, all that have the name of one are text files, and there is
no configuration file. -/
structure IsSourceDirectory (workspace : Workspace) (place : Place) : Prop where
  source : ∃ names, HasSource workspace place names
  texts : ∀ names, HasSource workspace place names → ∃ bytes text,
    workspace.contentAt? (place ++ names) = some (.file bytes) ∧
      Text.decodeLines? bytes = some text
  unconfigured : ∀ names, names ≠ [] →
    workspace.contentAt? (place ++ names ++ [Config.fileName]) = none

theorem HasSource.ne_nil {place : Place} {names : List String}
    (h : HasSource workspace place names) : names ≠ [] := by
  obtain ⟨⟨above, name, rfl, -⟩, -⟩ := h
  exact List.append_ne_nil_of_right_ne_nil _ (List.cons_ne_nil _ _)

/-- A check goes through all source files below a directory, in the order of their names. -/
theorem exists_sourceFiles {path : Path} {place : Place} (hfind : workspace.find path = .ok place)
    (hdirectory : workspace.isDirectory place = true)
    (hplace : IsSourceDirectory workspace place) :
    ∃ files : List (List String), files.Pairwise WayBefore ∧
      (∀ names, names ∈ files ↔ HasSource workspace place names) ∧
      sourceFiles workspace path = files.map path.below := by
  let isSource (names : List String) : Bool := (names.getLast?.map isSourceName).getD false
  have hsource : ∀ names, isSource names = true ↔
      ∃ above name, names = above ++ [name] ∧ IsSourceFileName name := by
    intro names
    rcases List.eq_nil_or_concat names with rfl | ⟨above, name, rfl⟩
    · simp [isSource]
    · simp [isSource, isSourceName_iff]
  refine ⟨((workspace.placesBelow place).filter isSource).mergeSort namesLe, ?_, ?_, ?_⟩
  · have hnodup : (((workspace.placesBelow place).filter isSource).mergeSort namesLe).Nodup := by
      rw [(List.mergeSort_perm _ _).nodup_iff]
      exact (Workspace.nodup_eraseDups _).filter _
    have hsorted := @List.pairwise_mergeSort _ namesLe (fun _ _ _ => namesLe_trans) namesLe_total
      ((workspace.placesBelow place).filter isSource)
    exact (hsorted.and hnodup).imp fun h => (eq_or_wayBefore h.1).resolve_left h.2
  · intro names
    rw [List.mem_mergeSort, List.mem_filter, hsource, Workspace.mem_placesBelow]
    constructor
    · rintro ⟨⟨-, entry, hentry, habove⟩, hname⟩
      exact ⟨hname, Workspace.contentAt?_isSome_iff.mpr (.inr ⟨entry, hentry, habove⟩)⟩
    · intro h
      obtain ⟨bytes, text, hfile, -⟩ := hplace.texts names h
      exact ⟨⟨h.ne_nil, _, Workspace.mem_of_contentAt?_file hfile, List.prefix_rfl⟩, h.1⟩
  · have hfind' : workspace.find? path = some place := by rw [Workspace.find?, hfind]; rfl
    rw [sourceFiles, hfind']
    dsimp only
    rw [if_pos hdirectory]

/-! ## Runs -/

variable {catalogue : Catalogue} {config : Config}

/-- The arguments of a run that give it plugin references, and a path behind all options. -/
def argumentsWith (plugins : List String) (path : String) : List String :=
  plugins.flatMap (fun reference => ["-p", reference]) ++ ["--", path]

theorem sortArguments_argumentsWith (command : Command) (plugins : List String) (path : String) :
    sortArguments command (argumentsWith plugins path) = some ⟨[path], plugins, [], false⟩ := by
  induction plugins with
  | nil => rfl
  | cons reference plugins ih =>
      have hrest : argumentsWith (reference :: plugins) path =
          "-p" :: reference :: argumentsWith plugins path := rfl
      have hshort : ¬ "-p".startsWith "--" = true := by decide +kernel
      rw [hrest, sortArguments, ih, if_neg (by decide), if_neg hshort, if_pos rfl]
      rfl

theorem run_check {path : String} (plugins : List String)
    (h : (workspace.locate? path).isSome = true) :
    run catalogue workspace ("check" :: argumentsWith plugins path) =
      check catalogue workspace path plugins := by
  have hcommand : commandIn? ("check" :: argumentsWith plugins path) =
      some (.check, ⟨[path], plugins, [], false⟩) := by
    simp [commandIn?, Command.named?, sortArguments_argumentsWith]
  have hrequest : Request.ofArguments? workspace ("check" :: argumentsWith plugins path) =
      some (.check path plugins) := by
    change (commandIn? _).bind (fun found => found.1.request? workspace found.2) = _
    rw [hcommand]
    change (if (workspace.locate? path).isSome = true then some (Request.check path plugins)
      else none) = _
    exact if_pos h
  rw [run, hrequest]
  rfl

theorem run_parse {file : String} (plugins : List String) (h : namesFile workspace file = true) :
    run catalogue workspace ("parse" :: argumentsWith plugins file) =
      parse catalogue workspace file none plugins := by
  have hcommand : commandIn? ("parse" :: argumentsWith plugins file) =
      some (.parse, ⟨[file], plugins, [], false⟩) := by
    simp [commandIn?, Command.named?, sortArguments_argumentsWith]
  have hrequest : Request.ofArguments? workspace ("parse" :: argumentsWith plugins file) =
      some (.parse file none plugins) := by
    change (commandIn? _).bind (fun found => found.1.request? workspace found.2) = _
    rw [hcommand]
    change (if namesFile workspace file = true then some (Request.parse file none plugins)
      else none) = _
    exact if_pos h
  rw [run, hrequest]
  rfl

/-- The parse of a file below a directory, under the name that a check of the directory gives it. -/
def parseBelow (catalogue : Catalogue) (workspace : Workspace) (dir : String)
    (plugins : List String) (names : List String) : Outcome :=
  run catalogue workspace ("parse" :: argumentsWith plugins ((Path.ofText dir).below names).text)

section Below

variable {dir : String} {place : Place} {plugins names : List String}

theorem HasSource.isStep (h : HasSource workspace place names) (htree : workspace.IsTree)
    (hplace : IsSourceDirectory workspace place) :
    ∀ name ∈ names, Path.IsStep name ∧ name ≠ ".." := by
  obtain ⟨bytes, text, hfile, -⟩ := hplace.texts names h
  exact fun name hmem =>
    htree.names _ (Workspace.mem_of_contentAt?_file hfile) name (List.mem_append_right _ hmem)

variable (htree : workspace.IsTree) (hdir : workspace.locate? dir = some place)
  (hplace : IsSourceDirectory workspace place) (hsource : HasSource workspace place names)
  (hprepare : prepare catalogue workspace (.ofText dir) plugins = .ok (config, frontend))

include htree hplace hsource

/-- The path to a file below a directory is read as it is written. -/
theorem ofText_text_below :
    Path.ofText ((Path.ofText dir).below names).text = (Path.ofText dir).below names := by
  refine Path.ofText_text ?_ ?_
  · exact fun hnil => hsource.ne_nil (List.append_eq_nil_iff.mp hnil).2
  · intro name hmem
    rcases List.mem_append.mp hmem with hmem | hmem
    · exact Path.isStep_of_mem_ofText hmem
    · exact (hsource.isStep htree hplace name hmem).1

include hdir

/-- A parse of a file below a directory is accepted. -/
theorem parseBelow_eq : parseBelow catalogue workspace dir plugins names =
    parse catalogue workspace ((Path.ofText dir).below names).text none plugins := by
  have hlocate := htree.locate?_below (fun _ => Path.isStep_of_mem_ofText)
    (hsource.isStep htree hplace) (Workspace.find_of_locate? hdir) hsource.2 hsource.ne_nil
  obtain ⟨bytes, text, hfile, -⟩ := hplace.texts names hsource
  refine run_parse plugins ?_
  rw [namesFile, hlocate]
  dsimp only
  rw [Workspace.isFile, hfile]

include hprepare

/-- It tells what is told of the file alone, by the frontend that a check of the directory has. -/
theorem parseBelow_tells :
    let told := parseAlone frontend workspace config.color.isTruthy ((Path.ofText dir).below names)
    (parseBelow catalogue workspace dir plugins names).errors = told.1 ∧
      (parseBelow catalogue workspace dir plugins names).ending = .ofTold told.2 := by
  obtain ⟨bytes, text, hfile, -⟩ := hplace.texts names hsource
  have hsame : prepare catalogue workspace ((Path.ofText dir).below names) plugins =
      .ok (config, frontend) := by
    rw [prepare, Config.applying_below htree (fun _ => Path.isStep_of_mem_ofText)
      (hsource.isStep htree hplace) hsource.ne_nil (Workspace.find_of_locate? hdir) hfile
      hplace.unconfigured]
    exact hprepare
  rw [parseBelow_eq htree hdir hplace hsource]
  exact parse_tells (ofText_text_below htree hplace hsource) hsame

/-- With no plugins but the bundled one, no parse of a file below a directory is broken off. -/
theorem parseBelow_finished (hplugins : ∀ plugin ∈ frontend.plugins, plugin = Extras.plugin) :
    ∃ code, (parseBelow catalogue workspace dir plugins names).ending = .finished code := by
  obtain ⟨bytes, text, hfile, hdecode⟩ := hplace.texts names hsource
  have hread : workspace.readText ((Path.ofText dir).below names) = .ok text := by
    have hbelow := htree.find_below (fun _ => Path.isStep_of_mem_ofText)
      (hsource.isStep htree hplace) (Workspace.find_of_locate? hdir) hsource.2
    rw [Workspace.readText, Workspace.readBytes, hbelow]
    simp only [bind, Except.bind, Workspace.bytesAt, hfile, hdecode, pure, Except.pure]
  obtain ⟨errors, ok, halone⟩ :=
    @exists_parseAlone frontend workspace config.color.isTruthy _ hplugins _ hread
  obtain ⟨-, hending⟩ := parseBelow_tells htree hdir hplace hsource hprepare
  rw [halone] at hending
  exact ⟨_, hending⟩

end Below

/-- A check of a directory joins what is told of files that there are. -/
theorem check_ending {dir : String} {plugins : List String} {files : List Path}
    (hprepare : prepare catalogue workspace (.ofText dir) plugins = .ok (config, frontend))
    (hfiles : sourceFiles workspace (.ofText dir) = files) (hne : files ≠ []) :
    let told := checkFiles frontend (.new config.color.isTruthy workspace) files
    (check catalogue workspace dir plugins).errors = told.1 ∧
      (check catalogue workspace dir plugins).ending = .ofTold told.2 := by
  rw [check, withFrontend, hprepare, hfiles]
  dsimp only
  rw [if_neg (mt List.isEmpty_iff.mp hne)]
  cases checkFiles frontend (.new config.color.isTruthy workspace) files with
  | mk errors ending =>
      match ending with
      | .error failure => exact ⟨rfl, rfl⟩
      | .ok true => exact ⟨rfl, rfl⟩
      | .ok false => exact ⟨rfl, rfl⟩

/-- **A check of a directory agrees with parses of its files.** In a tree of files let there be
source files below a directory, all of them text files, and no configuration of their own; and let
the configuration that applies be read and all plugins that it or the run names be registered,
whatever catalogue they come from and whatever they do. Then a check of the directory goes through
the files in the order of the names on the way to them. It ends with 0 if parses of all files with
the same plugins do, and with 1 otherwise. It writes the errors that the parses write, one after the
other; only where a parse is broken off by an exception, it ends there as that parse does. With the
bundled plugin or none, no parse is. -/
theorem check_agrees_with_parse {dir : String} {place : Place} {plugins : List String}
    (htree : workspace.IsTree) (hdir : workspace.locate? dir = some place)
    (hplace : IsSourceDirectory workspace place)
    (hprepare : prepare catalogue workspace (.ofText dir) plugins = .ok (config, frontend)) :
    let checked := run catalogue workspace ("check" :: argumentsWith plugins dir)
    let parsed := parseBelow catalogue workspace dir plugins
    ∃ files : List (List String), files.Pairwise WayBefore ∧
      (∀ names, names ∈ files ↔ HasSource workspace place names) ∧
      (checked.ending.exitCode = 0 ↔ ∀ names ∈ files, (parsed names).ending.exitCode = 0) ∧
      (checked.ending.exitCode ≠ 0 → checked.ending.exitCode = 1) ∧
      ((∀ names ∈ files, ∃ code, (parsed names).ending = .finished code) →
        checked.errors = files.flatMap fun names => (parsed names).errors) ∧
      ((∀ plugin ∈ frontend.plugins, plugin = Extras.plugin) →
        ∀ names ∈ files, ∃ code, (parsed names).ending = .finished code) ∧
      ∀ before names after failure, files = before ++ names :: after →
        (∀ earlier ∈ before, ∃ code, (parsed earlier).ending = .finished code) →
        (parsed names).ending = .failed failure →
        checked.ending = .failed failure ∧
          checked.errors = (before ++ [names]).flatMap fun names => (parsed names).errors := by
  intro checked parsed
  obtain ⟨first, hfirst⟩ := hplace.source
  have hdirectory := htree.isDirectory hfirst.2 hfirst.ne_nil
  obtain ⟨files, hsorted, hmem, hfiles⟩ :=
    exists_sourceFiles (Workspace.find_of_locate? hdir) hdirectory hplace
  have hne : files.map (Path.ofText dir).below ≠ [] := by
    rw [Ne, List.map_eq_nil_iff]
    exact List.ne_nil_of_mem ((hmem first).mpr hfirst)
  have hchecked : checked = check catalogue workspace dir plugins :=
    run_check plugins (by rw [hdir]; rfl)
  obtain ⟨herrors, hending⟩ := check_ending hprepare hfiles hne
  rw [← hchecked] at herrors hending
  have hjoins : Joins (files.map parsed) checked.errors
      (checkFiles frontend (.new config.color.isTruthy workspace)
        (files.map (Path.ofText dir).below)).2 := by
    rw [herrors]
    exact checkFiles_joins
      (fun names hnames => ofText_text_below htree hplace ((hmem names).mp hnames))
      (fun names hnames => parseBelow_tells htree hdir hplace ((hmem names).mp hnames) hprepare)
      (.new workspace config.color.isTruthy)
  refine ⟨files, hsorted, hmem, ?_, ?_, fun hfinished => ?_, fun hplugins names hnames => ?_, ?_⟩
  · rw [hending, hjoins.exitCode_eq_zero_iff, List.forall_mem_map]
  · rw [hending]
    exact Ending.exitCode_ofTold _
  · rw [hjoins.errors_eq (List.forall_mem_map.mpr hfinished), List.flatMap_map]
  · exact parseBelow_finished htree hdir hplace ((hmem names).mp hnames) hprepare hplugins
  · rintro before names after failure rfl hfinished hfailed
    rw [List.map_append, List.map_cons] at hjoins
    obtain ⟨hwritten, hbroken⟩ := hjoins.of_failed (List.forall_mem_map.mpr hfinished) hfailed
    refine ⟨by rw [hending, hbroken]; rfl, ?_⟩
    rw [hwritten, ← List.map_singleton, ← List.map_append, List.flatMap_map]

/-- A file that does not lex, and in a directory a file with a class that has no name. They are told
of in this order, in which they do not lie. -/
theorem check_agrees_with_parse_two_files :
    let workspace : Workspace := ⟨"/", ["work"], [
      (["work", "lib", "b.cs"], .file "class \x7b\x7d".toUTF8),
      (["work", "a.cs"], .file "a\x60".toUTF8),
      (["work", "csparse.toml"], .file "[output]\ncolor = false\n".toUTF8)]⟩
    let checked := run .bundled workspace ["check", "-p", "csparse.plugins.extras", "--", "."]
    let parsed := parseBelow .bundled workspace "." ["csparse.plugins.extras"]
    checked.ending.exitCode = 1 ∧
      checked.errors = (parsed ["a.cs"]).errors ++ (parsed ["lib", "b.cs"]).errors ∧
      (parsed ["a.cs"]).errors = ["\n".intercalate [
        "error[E100]: Unexpected token at position 1: '\x60'",
        "  --> a.cs:1:2",
        "     |",
        "     1 | a\x60",
        "     |  ^",
        "     |   no token rule matches here"]] ∧
      (parsed ["lib", "b.cs"]).errors = ["\n".intercalate [
        "error[E200]: Expected class name identifier at 6, got SYMBOL: \x7b",
        "  --> lib/b.cs:1:7",
        "     |",
        "     1 | class \x7b\x7d",
        "     |       ^"], "\n".intercalate [
        "error[E201]: Unexpected token at 7: SYMBOL \"\x7d\"",
        "  --> lib/b.cs:1:8",
        "     |",
        "     1 | class \x7b\x7d",
        "     |        ^"]] := by
  intro workspace checked parsed
  have htree : workspace.IsTree := by
    refine ⟨by decide +kernel, ?_⟩
    simp [workspace]
  have hdir : workspace.locate? "." = some ["work"] := by decide +kernel
  have hbelow : ∀ names, (workspace.contentAt? (["work"] ++ names)).isSome = true →
      names ∈ [[], ["a.cs"], ["csparse.toml"], ["lib"], ["lib", "b.cs"]] := by
    intro names h
    rw [Workspace.contentAt?_isSome_iff] at h
    have habove : names = [] ∨ names <+: ["lib", "b.cs"] ∨ names <+: ["a.cs"] ∨
        names <+: ["csparse.toml"] := by
      simpa [workspace] using h
    simp only [List.prefix_cons_iff, List.prefix_nil] at habove
    grind
  have hsources : ∀ names, HasSource workspace ["work"] names ↔
      names ∈ [["a.cs"], ["lib", "b.cs"]] := by
    intro names
    constructor
    · rintro ⟨⟨above, name, rfl, hname⟩, hthere⟩
      have hlast : ∀ found ∈ [[], ["a.cs"], ["csparse.toml"], ["lib"], ["lib", "b.cs"]],
          found.getLast?.any isSourceName = true → found ∈ [["a.cs"], ["lib", "b.cs"]] := by
        decide +kernel
      exact hlast _ (hbelow _ hthere) (by simp [isSourceName_iff, hname])
    · intro hmem
      rcases List.mem_pair.mp hmem with rfl | rfl
      · exact ⟨⟨[], "a.cs", rfl, "a", rfl⟩, by decide +kernel⟩
      · exact ⟨⟨["lib"], "b.cs", rfl, "b", rfl⟩, by decide +kernel⟩
  have hplace : IsSourceDirectory workspace ["work"] := by
    constructor
    · exact ⟨["a.cs"], (hsources _).mpr (by simp)⟩
    · intro names h
      rcases List.mem_pair.mp ((hsources names).mp h) with rfl | rfl
      · exact ⟨_, "a\x60", rfl, by decide +kernel⟩
      · exact ⟨_, "class \x7b\x7d", rfl, by decide +kernel⟩
    · intro names hne
      rw [← Option.not_isSome_iff_eq_none, List.append_assoc]
      intro h
      have hlast : ∀ found ∈ [[], ["a.cs"], ["csparse.toml"], ["lib"], ["lib", "b.cs"]],
          found.getLast? = some Config.fileName → found = ["csparse.toml"] := by decide
      have hfound := hlast _ (hbelow _ h) List.getLast?_concat
      exact hne (List.append_eq_singleton_iff.mp hfound |>.resolve_right (by simp)).1
  have hloaded : (prepare .bundled workspace (.ofText ".") ["csparse.plugins.extras"]).isOk =
      true := by decide +kernel
  have hfirst : (parsed ["a.cs"]).ending = .finished 1 := by decide +kernel
  have hsecond : (parsed ["lib", "b.cs"]).ending = .finished 1 := by decide +kernel
  cases hprepare : prepare .bundled workspace (.ofText ".") ["csparse.plugins.extras"] with
  | error failure => rw [hprepare] at hloaded; cases hloaded
  | ok loaded =>
      obtain ⟨files, hsorted, hmem, hzero, hone, hwritten, -⟩ :=
        check_agrees_with_parse htree hdir hplace hprepare
      obtain rfl : files = [["a.cs"], ["lib", "b.cs"]] := by
        refine eq_of_pairwise_wayBefore hsorted ?_ fun names => (hmem names).trans (hsources names)
        exact List.pairwise_pair.mpr (.rel (.rel (by decide)))
      refine ⟨hone fun hfree => ?_, ?_, by decide +kernel, by decide +kernel⟩
      · have hended := hzero.mp hfree ["a.cs"] (by simp)
        rw [show parseBelow _ _ _ _ ["a.cs"] = parsed ["a.cs"] from rfl, hfirst] at hended
        exact absurd hended (by decide)
      · refine (hwritten ?_).trans (by simp [parsed])
        intro names hnames
        rcases List.mem_pair.mp hnames with rfl | rfl
        · exact ⟨1, hfirst⟩
        · exact ⟨1, hsecond⟩

end CommandLine

end SharpSyntax
