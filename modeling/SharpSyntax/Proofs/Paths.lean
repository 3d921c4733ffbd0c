import Mathlib.Data.List.Induction
import SharpSyntax.Config

/-!
# Paths to what lies below a directory

In a workspace that is a tree, everything stands in a directory, and its name is neither empty nor
one of those that paths give a meaning to. There the names that lead from a directory to something
below it, written behind a path to the directory, are a path to just that, whether it is walked or
worked out on paper; and written out and read again it is the same path.

The configuration for something below a directory is that of the directory, unless there is a
configuration file on the way.
-/

namespace SharpSyntax

variable {name text : String} {names more : List String}

/-! ## Written paths -/

namespace Path

/-- Whether a name of a written path leads anywhere. -/
def leads (name : String) : Bool := !name.isEmpty && name ≠ "."

/-- What is between the separators of a path and leads somewhere. -/
def IsStep (name : String) : Prop := leads name = true ∧ '/' ∉ name.toList

instance : DecidablePred IsStep := fun _ => inferInstanceAs (Decidable (_ ∧ _))

variable {path : Path}

theorem isStep_of_mem_ofText (h : name ∈ (ofText text).names) : IsStep name := by
  obtain ⟨hmem, hleads⟩ := List.mem_filter.mp h
  exact ⟨hleads, Text.not_mem_of_mem_parts hmem⟩

theorem filter_leads (h : ∀ name ∈ names, IsStep name) : names.filter leads = names :=
  List.filter_eq_self.mpr fun name hmem => (h name hmem).1

theorem split_intercalate (hne : names ≠ []) (h : ∀ name ∈ names, IsStep name) :
    split ("/".intercalate names) = names :=
  Text.parts_intercalate hne fun name hmem => (h name hmem).2

theorem split_absolute (text : String) : split ("/" ++ text) = "" :: split text :=
  Text.parts_cons text

theorem isAbsolute_iff : isAbsolute text = true ↔ ∃ rest, text = "/" ++ rest := by
  rw [isAbsolute, String.startsWith_string_iff]
  constructor
  · rintro ⟨rest, hrest⟩
    exact ⟨String.ofList rest, String.toList_inj.mp (by simpa using hrest.symm)⟩
  · rintro ⟨rest, rfl⟩
    rw [String.toList_append]
    exact List.prefix_append _ _

/-- The names of a path as it is shown. In front of the first name of an absolute path is another
separator. -/
theorem split_text (hne : path.names ≠ []) (h : ∀ name ∈ path.names, IsStep name) :
    split path.text = if path.absolute then "" :: path.names else path.names := by
  unfold text
  dsimp only
  split
  · rw [split_absolute, split_intercalate hne h]
  · rw [if_neg (by simpa using hne), split_intercalate hne h]

theorem isAbsolute_text (hne : path.names ≠ []) (h : ∀ name ∈ path.names, IsStep name) :
    isAbsolute path.text = path.absolute := by
  rw [Bool.eq_iff_iff, isAbsolute_iff]
  constructor
  · rintro ⟨rest, hrest⟩
    by_contra habsolute
    -- a relative path would begin with an empty name
    have hsplit := split_text hne h
    rw [hrest, split_absolute, if_neg habsolute] at hsplit
    have hempty := (h "" (hsplit ▸ List.mem_cons_self)).1
    exact absurd hempty (by decide)
  · intro habsolute
    unfold text
    exact ⟨_, if_pos habsolute⟩

/-- A path as it is shown is that path when it is read. -/
theorem ofText_text (hne : path.names ≠ []) (h : ∀ name ∈ path.names, IsStep name) :
    ofText path.text = path := by
  have hnames : (ofText path.text).names = path.names := by
    change (split path.text).filter leads = path.names
    rw [split_text hne h]
    split
    · rw [List.filter_cons_of_neg (by decide), filter_leads h]
    · exact filter_leads h
  have habsolute : (ofText path.text).absolute = path.absolute := isAbsolute_text hne h
  cases path
  rw [Path.mk.injEq]
  exact ⟨habsolute, hnames⟩

end Path

/-! ## Walking -/

namespace Workspace

variable {workspace : Workspace} {place last : Place} {path : Path}

theorem walk_cons_leads (h : Path.leads name = true) :
    workspace.walk place (name :: names) =
      if !workspace.isDirectory place then .error .notDirectory
      else if name = ".." then workspace.walk place.dropLast names
      else if (workspace.contentAt? (place ++ [name])).isSome then
        workspace.walk (place ++ [name]) names
      else .error .notFound := by
  have hneg : ¬ (name.isEmpty || decide (name = ".")) = true := by
    simpa [Path.leads] using h
  rw [walk, if_neg hneg]

theorem walk_cons_of_not_leads (h : Path.leads name = false) :
    workspace.walk place (name :: names) =
      if !workspace.isDirectory place then .error .notDirectory
      else workspace.walk place names := by
  have hpos : (name.isEmpty || decide (name = ".")) = true := by
    simpa [Path.leads, Decidable.or_iff_not_imp_left] using h
  rw [walk, if_pos hpos]

/-- A step of a walk leads up, or down to something that is there. -/
theorem walk_cons_ok (hname : Path.leads name = true)
    (h : workspace.walk place (name :: names) = .ok last) :
    workspace.isDirectory place = true ∧
      (name = ".." ∧ workspace.walk place.dropLast names = .ok last ∨
        name ≠ ".." ∧ (workspace.contentAt? (place ++ [name])).isSome = true ∧
          workspace.walk (place ++ [name]) names = .ok last) := by
  rw [walk_cons_leads hname] at h
  by_cases hdirectory : workspace.isDirectory place = true
  · rw [if_neg (by simpa using hdirectory)] at h
    refine ⟨hdirectory, ?_⟩
    by_cases hup : name = ".."
    · rw [if_pos hup] at h
      exact .inl ⟨hup, h⟩
    · rw [if_neg hup] at h
      by_cases hthere : (workspace.contentAt? (place ++ [name])).isSome = true
      · rw [if_pos hthere] at h
        exact .inr ⟨hup, hthere, h⟩
      · rw [if_neg hthere] at h
        cases h
  · rw [if_pos (by simpa using hdirectory)] at h
    cases h

/-- Names that lead nowhere may be left out. -/
theorem walk_filter_leads (h : workspace.walk place names = .ok last) :
    workspace.walk place (names.filter Path.leads) = .ok last := by
  induction names generalizing place with
  | nil => exact h
  | cons name names ih =>
      cases hleads : Path.leads name with
      | true =>
          rw [List.filter_cons_of_pos hleads, walk_cons_leads hleads]
          obtain ⟨hdirectory, ⟨hup, h⟩ | ⟨hup, hthere, h⟩⟩ := walk_cons_ok hleads h
          · rw [if_neg (by simpa using hdirectory), if_pos hup]
            exact ih h
          · rw [if_neg (by simpa using hdirectory), if_neg hup, if_pos hthere]
            exact ih h
      | false =>
          rw [List.filter_cons_of_neg (by simpa using hleads)]
          rw [walk_cons_of_not_leads hleads] at h
          split at h
          · cases h
          · exact ih h

/-- A path that leads somewhere stands for that place on paper. -/
theorem foldl_of_walk (hnames : ∀ name ∈ names, Path.leads name = true)
    (h : workspace.walk place names = .ok last) :
    names.foldl (fun place name => if name = ".." then place.dropLast else place ++ [name]) place =
      last := by
  induction names generalizing place with
  | nil => cases h; rfl
  | cons name names ih =>
      obtain ⟨-, ⟨hup, h⟩ | ⟨hup, -, h⟩⟩ := walk_cons_ok (hnames name List.mem_cons_self) h
      · rw [List.foldl_cons, if_pos hup]
        exact ih (fun name hmem => hnames name (List.mem_cons_of_mem _ hmem)) h
      · rw [List.foldl_cons, if_neg hup]
        exact ih (fun name hmem => hnames name (List.mem_cons_of_mem _ hmem)) h

theorem walk_append (hnames : ∀ name ∈ names, Path.leads name = true)
    (h : workspace.walk place names = .ok last) :
    workspace.walk place (names ++ more) = workspace.walk last more := by
  induction names generalizing place with
  | nil => cases h; rfl
  | cons name names ih =>
      have hname := hnames name List.mem_cons_self
      have hrest := fun name hmem => hnames name (List.mem_cons_of_mem _ hmem)
      obtain ⟨hdirectory, hstep⟩ := walk_cons_ok hname h
      rw [List.cons_append, walk_cons_leads hname, if_neg (by simpa using hdirectory)]
      rcases hstep with ⟨hup, h⟩ | ⟨hup, hthere, h⟩
      · rw [if_pos hup, ih hrest h]
      · rw [if_neg hup, if_pos hthere, ih hrest h]

theorem find_of_locate? (h : workspace.locate? text = some place) :
    workspace.find (.ofText text) = .ok place := by
  unfold locate? at h
  split at h
  · cases h
  · cases hwalk : workspace.walk (workspace.start (Path.isAbsolute text)) (Path.split text) with
    | error error => rw [hwalk] at h; cases h
    | ok found =>
        rw [hwalk] at h
        cases h
        exact walk_filter_leads hwalk

/-! ## What stands where -/

theorem contentAt?_isSome_iff : (workspace.contentAt? place).isSome = true ↔
    place <+: workspace.here ∨ ∃ entry ∈ workspace.entries, place <+: entry.1 := by
  unfold contentAt?
  split
  · next entry hfind =>
    refine iff_of_true rfl (.inr ⟨entry, List.mem_of_find?_eq_some hfind, ?_⟩)
    have hplace : entry.1 = place := by simpa using List.find?_some hfind
    exact hplace ▸ List.prefix_rfl
  · have hif : ∀ c : Bool, (if c then some Content.directory else none).isSome = c := by
      intro c
      cases c <;> rfl
    rw [hif, Bool.or_eq_true, List.any_eq_true]
    simp only [List.isPrefixOf_iff_prefix]

theorem mem_of_contentAt?_file {bytes : ByteArray}
    (h : workspace.contentAt? place = some (.file bytes)) :
    (place, .file bytes) ∈ workspace.entries := by
  unfold contentAt? at h
  split at h
  · next entry hfind =>
    have hplace : entry.1 = place := by simpa using List.find?_some hfind
    have hcontent : entry.2 = .file bytes := Option.some.inj h
    rw [← hplace, ← hcontent]
    exact List.mem_of_find?_eq_some hfind
  · split at h <;> cases h

theorem contentAt?_isSome_above (h : (workspace.contentAt? place).isSome = true)
    {outer : Place} (habove : outer <+: place) :
    (workspace.contentAt? outer).isSome = true := by
  rw [contentAt?_isSome_iff] at h ⊢
  rcases h with h | ⟨entry, hmem, h⟩
  · exact .inl (habove.trans h)
  · exact .inr ⟨entry, hmem, habove.trans h⟩

/-- Below a directory are its entries and what is around them. -/
theorem mem_placesBelow : names ∈ workspace.placesBelow place ↔
    names ≠ [] ∧ ∃ entry ∈ workspace.entries, place ++ names <+: entry.1 := by
  unfold placesBelow
  simp only [List.mem_eraseDups, List.mem_flatMap, List.mem_map, List.mem_filter, List.mem_range,
    Bool.and_eq_true, decide_eq_true_eq, List.isPrefixOf_iff_prefix]
  constructor
  · rintro ⟨_, ⟨_, ⟨⟨entry, hentry, rfl⟩, ⟨rest, hrest⟩, -⟩, rfl⟩, n, hn, rfl⟩
    rw [← hrest, List.drop_left] at hn ⊢
    refine ⟨fun hnil => ?_, entry, hentry, ?_⟩
    · rw [List.take_eq_nil_iff] at hnil
      rcases hnil with hnil | rfl
      · exact absurd hnil (Nat.succ_ne_zero n)
      · exact absurd hn (Nat.not_lt_zero n)
    · rw [← hrest, List.prefix_append_right_inj]
      exact List.take_prefix _ _
  · rintro ⟨hne, entry, hentry, rest, hrest⟩
    rw [List.append_assoc] at hrest
    have hpos := List.length_pos_iff.mpr hne
    refine ⟨names ++ rest, ⟨entry.1, ⟨⟨entry, hentry, rfl⟩, ⟨names ++ rest, hrest⟩, ?_⟩, ?_⟩,
      names.length - 1, ?_, ?_⟩
    · rw [← hrest]
      simp only [List.length_append]
      omega
    · rw [← hrest, List.drop_left]
    · rw [List.length_append]
      omega
    · rw [Nat.sub_add_cancel hpos, List.take_left]

theorem nodup_eraseDups {α : Type} [BEq α] [LawfulBEq α] (items : List α) :
    items.eraseDups.Nodup := by
  -- the induction is on the length, since the equal items behind the first are left out
  induction hlength : items.length using Nat.strongRecOn generalizing items with
  | ind n ih =>
      cases items with
      | nil => exact .nil
      | cons item items =>
          rw [List.eraseDups_cons, List.nodup_cons, List.mem_eraseDups, List.mem_filter]
          refine ⟨fun h => by simp at h, ih _ ?_ _ rfl⟩
          rw [← hlength]
          exact Nat.lt_succ_of_le (List.length_filter_le _ _)

/-! ## Trees -/

/-- The workspace is a tree of files and directories. -/
structure IsTree (workspace : Workspace) : Prop where
  /-- The names are none that paths give a meaning to. -/
  names : ∀ entry ∈ workspace.entries, ∀ name ∈ entry.1, Path.IsStep name ∧ name ≠ ".."
  /-- Nothing is inside a file. -/
  files : ∀ entry ∈ workspace.entries, entry.2 ≠ .directory → ¬ entry.1 <+: workspace.here ∧
    ∀ other ∈ workspace.entries, entry.1 <+: other.1 → other.1 = entry.1

namespace IsTree

/-- Something stands in a directory. -/
theorem isDirectory (h : workspace.IsTree)
    (hthere : (workspace.contentAt? (place ++ names)).isSome = true) (hne : names ≠ []) :
    workspace.isDirectory place = true := by
  have hplace := contentAt?_isSome_above hthere (List.prefix_append place names)
  unfold Workspace.isDirectory
  cases hcontent : workspace.contentAt? place with
  | none => rw [hcontent] at hplace; cases hplace
  | some content =>
      cases content with
      | directory => rfl
      | file bytes =>
          exfalso
          obtain ⟨hhere, hothers⟩ := h.files _ (mem_of_contentAt?_file hcontent) (by simp)
          rw [contentAt?_isSome_iff] at hthere
          rcases hthere with hthere | ⟨entry, hentry, hthere⟩
          · exact hhere ((List.prefix_append place names).trans hthere)
          · have hplace : entry.1 = place :=
              hothers entry hentry ((List.prefix_append place names).trans hthere)
            rw [hplace] at hthere
            have hlength := hthere.length_le
            rw [List.length_append] at hlength
            have hpos := List.length_pos_iff.mpr hne
            omega

/-- The names that lead to something lead there when they are walked. -/
theorem walk_below (h : workspace.IsTree) (hnames : ∀ name ∈ names, Path.IsStep name ∧ name ≠ "..")
    (hthere : (workspace.contentAt? (place ++ names)).isSome = true) :
    workspace.walk place names = .ok (place ++ names) := by
  induction names generalizing place with
  | nil => rw [List.append_nil]; rfl
  | cons name names ih =>
      obtain ⟨hstep, hup⟩ := hnames name List.mem_cons_self
      have hdirectory := h.isDirectory hthere (List.cons_ne_nil _ _)
      rw [List.append_cons] at hthere
      rw [walk_cons_leads hstep.1, if_neg (by simpa using hdirectory), if_neg hup,
        if_pos (contentAt?_isSome_above hthere (List.prefix_append _ _)),
        ih (fun name hmem => hnames name (List.mem_cons_of_mem _ hmem)) hthere, List.append_assoc]
      rfl

variable (h : workspace.IsTree) (hpath : ∀ name ∈ path.names, Path.IsStep name)
  (hnames : ∀ name ∈ names, Path.IsStep name ∧ name ≠ "..")
  (hfind : workspace.find path = .ok place)
  (hthere : (workspace.contentAt? (place ++ names)).isSome = true)

include h hpath hnames hfind hthere

/-- A path to something below a directory leads there. -/
theorem find_below : workspace.find (path.below names) = .ok (place ++ names) :=
  (walk_append (fun name hmem => (hpath name hmem).1) hfind).trans (h.walk_below hnames hthere)

theorem resolve_below : workspace.resolve (path.below names) = place ++ names := by
  refine foldl_of_walk (fun name hmem => ?_) (h.find_below hpath hnames hfind hthere)
  rcases List.mem_append.mp hmem with hmem | hmem
  · exact (hpath name hmem).1
  · exact (hnames name hmem).1.1

/-- Also as it is shown, the path leads there. -/
theorem locate?_below (hne : names ≠ []) :
    workspace.locate? (path.below names).text = some (place ++ names) := by
  have hne' : (path.below names).names ≠ [] := fun hnil => hne (List.append_eq_nil_iff.mp hnil).2
  have hsteps : ∀ name ∈ (path.below names).names, Path.IsStep name := by
    intro name hmem
    rcases List.mem_append.mp hmem with hmem | hmem
    · exact hpath name hmem
    · exact (hnames name hmem).1
  have hempty : ¬ (path.below names).text.isEmpty = true := by
    intro hempty
    have hread := Path.ofText_text hne' hsteps
    rw [String.isEmpty_iff.mp hempty] at hread
    exact hne' (hread ▸ rfl)
  have hwalk := h.find_below hpath hnames hfind hthere
  rw [locate?, if_neg hempty, Path.isAbsolute_text hne' hsteps, Path.split_text hne' hsteps]
  split
  · next habsolute =>
    have hroot : workspace.isDirectory [] = true :=
      h.isDirectory hthere fun hnil => hne (List.append_eq_nil_iff.mp hnil).2
    have hstart : workspace.start (path.below names).absolute = [] := if_pos habsolute
    rw [hstart, walk_cons_of_not_leads (by decide), if_neg (by simpa using hroot)]
    rw [find, hstart] at hwalk
    rw [hwalk]
    rfl
  · rw [find] at hwalk
    rw [hwalk]
    rfl

end IsTree

end Workspace

/-! ## Configuration -/

namespace Config

variable {workspace : Workspace} {place : Place} {path : Path}

/-- From a place below a directory, configuration files are looked for in the directory and above if
there is none on the way. -/
theorem findAbove_below
    (h : ∀ names, names ≠ [] → workspace.contentAt? (place ++ names ++ [fileName]) = none)
    (names : List String) (n : Nat) :
    findAbove workspace (place ++ names) (n + names.length) = findAbove workspace place n := by
  induction names using List.reverseRecOn with
  | nil => rw [List.append_nil, List.length_nil, Nat.add_zero]
  | append_singleton names name ih =>
      have hnone := h (names ++ [name]) (by simp)
      rw [List.length_append, List.length_singleton, ← Nat.add_assoc, findAbove, hnone,
        if_neg (by simp), ← List.append_assoc, List.dropLast_concat, ih]

/-- A file below a directory has the configuration of the directory if there is no configuration
file on the way. -/
theorem applying_below {bytes : ByteArray} (htree : workspace.IsTree)
    (hpath : ∀ name ∈ path.names, Path.IsStep name)
    (hnames : ∀ name ∈ names, Path.IsStep name ∧ name ≠ "..") (hne : names ≠ [])
    (hfind : workspace.find path = .ok place)
    (hfile : workspace.contentAt? (place ++ names) = some (.file bytes))
    (h : ∀ names, names ≠ [] → workspace.contentAt? (place ++ names ++ [fileName]) = none) :
    applying workspace (path.below names) = applying workspace path := by
  have hthere : (workspace.contentAt? (place ++ names)).isSome = true := by rw [hfile]; rfl
  have hplace : workspace.resolve path = place :=
    Workspace.foldl_of_walk (fun name hmem => (hpath name hmem).1) hfind
  have hbelow : workspace.resolve (path.below names) = place ++ names :=
    htree.resolve_below hpath hnames hfind hthere
  have hnotFile : ¬ workspace.isFile place = true := by
    have hdirectory := htree.isDirectory hthere hne
    unfold Workspace.isDirectory at hdirectory
    unfold Workspace.isFile
    split at hdirectory
    · next hcontent => simp [hcontent]
    · cases hdirectory
  have hisFile : workspace.isFile (place ++ names) = true := by rw [Workspace.isFile, hfile]
  have hsame : find? workspace (path.below names) = find? workspace path := by
    have habove := findAbove_below h names.dropLast (place.length + 1)
    unfold find?
    dsimp only
    rw [hbelow, hplace, if_pos hisFile, if_neg hnotFile, List.dropLast_append_of_ne_nil hne,
      List.length_append, Nat.add_right_comm, habove]
  rw [applying, applying, hsame]

end Config

end SharpSyntax
