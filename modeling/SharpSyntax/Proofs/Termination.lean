import SharpSyntax.Frontend
import SharpSyntax.Plugin.Extras
import SharpSyntax.Proofs.Progress

/-!
# Parsers that end

What `Progress.lean` says of rules of any level is carried here to the rules that a parser runs: a
parser has levels and rounds enough for its tokens, whatever they are. The parser may be without
plugins or with the bundled one. That one begins a node only at a token, which it takes, so its
routines make progress as the rules of the grammar do.
-/

namespace SharpSyntax

open Parse Grammar

variable {α : Type} {input : Input}

/-! ## The bundled plugin makes progress -/

theorem Hooks.progress_none : Hooks.none.Progress input := by
  intro routine hmem
  simp [Hooks.none] at hmem

/-- One more extension that makes progress may be added. -/
theorem Hooks.Progress.addExtension {hooks : Hooks} {name : String} {routine : Routine}
    (hh : hooks.Progress input)
    (h : ∀ (depth : Nat) (rules : Rules), rules.Progress input depth → ∀ p, p < input.size →
      input.size ≤ p + depth → Attempt.Reaches input (routine rules) p (p + 1)) :
    (hooks.addExtension name routine).Progress input := by
  intro other hmem
  rcases List.mem_append.mp hmem with hmem | hmem
  · exact hh other hmem
  · rw [List.mem_singleton.mp hmem]
    exact h

/-- The keyword that is read is taken. -/
theorem keywordLiteral_reaches {rules : Rules} {p : Nat} {keyword null : Kind}
    (hp : p < input.size) :
    Attempt.Reaches input (Extras.keywordLiteral keyword null rules) p (p + 1) := by
  intro d
  simp only [Extras.keywordLiteral, Attempt.meets_bind, Attempt.meets_liftM, meets_current]
  refine .ite (fun _ => ?_) fun _ => ?_
  · exact .at (Nat.le_refl _) hp (.refl d)
  · exact .at (Nat.le_refl p) (by omega) (.refl d)

/-- A `return` takes its word, and its argument is read a level below. -/
theorem returnStatement_reaches {rules : Rules} {depth p : Nat} {keyword : Kind}
    (hr : rules.Progress input depth) (hp : p < input.size) (hd : input.size ≤ p + depth) :
    Attempt.Reaches input (Extras.returnStatement keyword rules) p (p + 1) := by
  intro d
  by_cases hreturn : (input.tokenAt p).fits (some keyword) (some "return")
  · by_cases hend : input.size ≤ p + 1
    · simp [Extras.returnStatement, hreturn, hend]
      exact .at (Nat.le_refl _) hp (.refl d)
    by_cases hstop : (input.tokenAt (p + 1)).text = ";" ∨ (input.tokenAt (p + 1)).text = closeBrace
    · simp [Extras.returnStatement, hreturn, hend, hstop]
      exact .at (Nat.le_refl _) hp (.refl d)
    · simp [Extras.returnStatement, hreturn, hend, hstop]
      refine (hr.expression 0 (p + 1) hp (by omega)).meets (.refl d)
        (fun _ q e hq hs he => ?_) fun q e hq hs he => ?_
      · exact .at (by omega) hs he
      · exact .at hq hs he
  · simp [Extras.returnStatement, hreturn]
    exact .at (Nat.le_refl p) (by omega) (.refl d)

theorem extras_progress {hooks : Hooks} (hh : hooks.Progress input) (aliases : Aliases) :
    (Extras.plugin.applyToHooks aliases hooks).Progress input :=
  (hh.addExtension fun _ _ _ _ hp _ => keywordLiteral_reaches hp).addExtension
    fun _ _ hr _ hp hd => returnStatement_reaches hr hp hd

/-- What holds of the hooks of a parser without plugins, and is kept by the bundled plugin, holds of
the hooks of a parser with that plugin any number of times. -/
theorem Frontend.hooks_of_extras {frontend : Frontend} {P : Hooks → Prop}
    (hplugins : ∀ plugin ∈ frontend.plugins, plugin = Extras.plugin) (tokens : List Token)
    (source : SourceText) (aliases : Aliases) (hnone : P .none)
    (hextras : ∀ hooks, P hooks → P (Extras.plugin.applyToHooks aliases hooks)) :
    P (frontend.parser tokens source aliases).hooks := by
  -- the hooks are folded up from the left, so that the induction is over all hooks so far
  have key : ∀ (plugins : List Plugin) (hooks : Hooks),
      (∀ plugin ∈ plugins, plugin = Extras.plugin) → P hooks →
      P (plugins.foldl (fun hooks plugin => plugin.applyToHooks aliases hooks) hooks) := by
    intro plugins
    induction plugins with
    | nil => exact fun _ _ hh => hh
    | cons plugin rest ih =>
        intro hooks hall hh
        rw [List.foldl_cons, hall plugin (by simp)]
        exact ih _ (fun other hmem => hall other (by simp [hmem])) (hextras hooks hh)
  exact key _ _ hplugins hnone

/-- Without plugins or with the bundled one, a parser makes progress. -/
theorem parser_progress {frontend : Frontend}
    (hplugins : ∀ plugin ∈ frontend.plugins, plugin = Extras.plugin) (tokens : List Token)
    (source : SourceText) (aliases : Aliases) :
    (frontend.parser tokens source aliases).hooks.Progress input :=
  Frontend.hooks_of_extras hplugins tokens source aliases Hooks.progress_none
    fun _ hh => extras_progress hh aliases

/-! ## From rules to parsers -/

namespace Parser

variable {parser : Parser}

/-- The rules of a parser have levels and rounds enough for its tokens. -/
theorem rules_progress (parser : Parser) (hh : parser.hooks.Progress parser.input) (p : Nat) :
    parser.rules.Progress parser.input parser.depth ∧ parser.input.size < p + parser.depth := by
  have hb : parser.input.size < parser.budget := by unfold budget; omega
  refine ⟨Rules.progress_ofDepth hh hb _, ?_⟩
  -- the levels that the named routines of plugins need are not needed here
  have : parser.budget * 1 ≤ parser.depth := Nat.mul_le_mul_left _ (by omega)
  omega

/-- The parser with its cursor at a place and some diagnostics recorded. -/
def resumed (parser : Parser) (place : Nat) (reported : Array Diagnostic) : Parser :=
  { parser with state := .at place reported }

theorem run_of_ok {step : Rules → Parse α} {a : α} {s t : ParseState}
    (h : ((step parser.rules).run parser.input).run s = .ok a t) :
    { parser with state := s }.run step = (.ok a, { parser with state := t }) := by
  -- what a step is run with does not depend on the state
  have hrun : ((step { parser with state := s }.rules).run { parser with state := s }.input).run
      { parser with state := s }.state = .ok a t := h
  rw [run, hrun]

theorem run_of_error {step : Rules → Parse α} {f : Fault} {s t : ParseState}
    (h : ((step parser.rules).run parser.input).run s = .error f t) :
    { parser with state := s }.run step = (.error f, { parser with state := t }) := by
  have hrun : ((step { parser with state := s }.rules).run { parser with state := s }.input).run
      { parser with state := s }.state = .error f t := h
  rw [run, hrun]

/-- A step that meets a postcondition whatever happens ends with a value and a state that satisfy
it. -/
theorem run_of_meets (step : Rules → Parse α) {post : α → ParseState → Prop} {s : ParseState}
    (h : Parse.Meets False parser.input (step parser.rules) s post) :
    ∃ a t, { parser with state := s }.run step = (.ok a, { parser with state := t }) ∧
      post a t := by
  unfold Parse.Meets at h
  cases hrun : ((step parser.rules).run parser.input).run s with
  | ok a t =>
      rw [hrun] at h
      exact ⟨a, t, run_of_ok hrun, h⟩
  | error f t => rw [hrun] at h; exact h.elim

/-- What a step meets where it comes to an end holds of the end that it came to. -/
theorem post_of_run {step : Rules → Parse α} {a : α} {s t : ParseState}
    {post : α → ParseState → Prop} (h : Parse.Meets True parser.input (step parser.rules) s post)
    (hrun : { parser with state := s }.run step = (.ok a, { parser with state := t })) :
    post a t := by
  unfold Parse.Meets at h
  cases hstep : ((step parser.rules).run parser.input).run s with
  | ok b u =>
      rw [hstep] at h
      rw [run_of_ok hstep] at hrun
      cases hrun
      exact h
  | error f u =>
      rw [run_of_error hstep] at hrun
      cases hrun

/-- Run from any place of the input, the step ends inside the input and at or behind that place, the
diagnostics before it are kept in front of its own, and where it gives something that counts as
made it has taken a token. -/
def Ends (parser : Parser) (step : Rules → Parse α) (made : α → Prop) : Prop :=
  ∀ (p : Nat) (d : Array Diagnostic), p ≤ parser.input.size →
    ∃ a q new, (parser.resumed p d).run step = (.ok a, parser.resumed q (d ++ new)) ∧
      p ≤ q ∧ q ≤ parser.input.size ∧ (made a → p < q)

theorem Extends.exists_append {d e : Array Diagnostic} (h : Extends d e) : ∃ new, e = d ++ new := by
  obtain ⟨new, hnew⟩ := h
  exact ⟨new.toArray, Array.ext' (by simp [hnew])⟩

theorem ends_of_reaches (step : Rules → Parse α)
    (h : ∀ p, p ≤ parser.input.size → Parse.Reaches parser.input (step parser.rules) p p) :
    parser.Ends step fun _ => False := by
  intro p d hp
  obtain ⟨a, t, hrun, q, e, rfl, hpq, hq, he⟩ := run_of_meets step (h p hp d)
  obtain ⟨new, rfl⟩ := Extends.exists_append he
  exact ⟨a, q, new, hrun, hpq, hq, False.elim⟩

theorem ends_of_attempt (step : Rules → Attempt α)
    (h : ∀ p, p ≤ parser.input.size → Attempt.Reaches parser.input (step parser.rules) p (p + 1)) :
    parser.Ends (fun rules => (step rules).run) fun a => a.isSome := by
  intro p d hp
  obtain ⟨a, t, hrun, hpost⟩ := run_of_meets (fun rules => (step rules).run) (h p hp d)
  cases a with
  | none =>
      obtain ⟨q, e, rfl, hpq, hq, he⟩ := hpost
      obtain ⟨new, rfl⟩ := Extends.exists_append he
      exact ⟨none, q, new, hrun, hpq, hq, fun h => by cases h⟩
  | some a =>
      obtain ⟨q, e, rfl, hpq, hq, he⟩ := hpost
      obtain ⟨new, rfl⟩ := Extends.exists_append he
      exact ⟨some a, q, new, hrun, by omega, hq, fun _ => by omega⟩

/-- Every routine of a parser ends, and takes a token where it makes a node. -/
structure RoutinesEnd (parser : Parser) : Prop where
  expression : ∀ minimum, parser.Ends (fun rules => (rules.expression minimum).run)
    fun node => node.isSome
  ifStatement : parser.Ends (fun rules => (ifStatement rules).run) fun node => node.isSome
  whileStatement : parser.Ends (fun rules => (whileStatement rules).run) fun node => node.isSome
  classDeclaration : ∀ mods, parser.Ends (fun rules => (classDeclaration rules mods).run)
    fun declaration => declaration.isSome
  member : parser.Ends (fun rules => (member rules).run) fun made => made.isSome
  namespaceDeclaration : parser.Ends (fun rules => (namespaceDeclaration rules).run)
    fun node => node.isSome
  usingDirective : parser.Ends (fun rules => (usingDirective rules).run)
    fun directive => directive.isSome
  typeExpression : parser.Ends (fun rules => (typeExpression rules).run) fun type => type.isSome
  typeList : parser.Ends typeList fun _ => False
  accessChain : parser.Ends (fun rules => (accessChain rules).run) fun chain => chain.isSome
  qualifiedName : parser.Ends (fun rules => (qualifiedName rules).run) fun name => name.isSome
  arguments : parser.Ends arguments fun _ => False
  templateLiteral : parser.Ends (fun _ => templateLiteral.run) fun node => node.isSome
  block : ∀ terminator, parser.Ends (fun rules => block rules terminator) fun _ => False

/-- Each routine that makes progress comes to an end. -/
theorem routinesEnd (hh : parser.hooks.Progress parser.input) : parser.RoutinesEnd := by
  have hr := (rules_progress parser hh 0).1
  have hd := fun p => (rules_progress parser hh p).2
  have hd' := fun p => Nat.le_of_lt (hd p)
  exact {
    expression := fun minimum => ends_of_attempt (fun rules => rules.expression minimum)
      fun p hp => hr.expression minimum p hp (hd p)
    ifStatement := ends_of_attempt ifStatement fun p hp => ifStatement_reaches hr hp (hd' p)
    whileStatement := ends_of_attempt whileStatement
      fun p hp => whileStatement_reaches hr hp (hd' p)
    classDeclaration := fun mods => ends_of_attempt (fun rules => classDeclaration rules mods)
      fun p hp => classDeclaration_reaches hr hp (hd' p) mods
    member := ends_of_attempt member fun p hp => member_reaches hr hp (hd p)
    namespaceDeclaration := ends_of_attempt namespaceDeclaration
      fun p hp => namespaceDeclaration_reaches hr hp (hd' p)
    usingDirective := ends_of_attempt usingDirective
      fun p hp => usingDirective_reaches hr.budget hp
    typeExpression := ends_of_attempt typeExpression
      fun p hp => typeExpression_reaches hr hp (hd' p)
    typeList := ends_of_reaches typeList fun p hp => typeList_reaches hr hp (hd p)
    accessChain := ends_of_attempt accessChain fun p hp => accessChain_reaches hr hp (hd' p)
    qualifiedName := ends_of_attempt qualifiedName
      fun p hp => qualifiedName_reaches hr.budget hp
    arguments := ends_of_reaches arguments fun p hp => arguments_reaches hr hp (hd' p)
    templateLiteral := ends_of_attempt (fun _ => templateLiteral)
      fun p hp => templateLiteral_reaches hp
    block := fun terminator => ends_of_reaches (fun rules => block rules terminator)
      fun p hp => block_reaches hr terminator hp (hd p) }

theorem program_ends (parser : Parser) (hh : parser.hooks.Progress parser.input) :
    ∃ tree reported, (parser.resumed 0 #[]).run program =
      (.ok tree, parser.resumed parser.input.size reported) := by
  obtain ⟨hr, hd⟩ := rules_progress parser hh 0
  have hb := hr.budget
  have hmeets : Parse.Meets False parser.input (program parser.rules) (.at 0 #[])
      fun _ t => ∃ e, t = .at parser.input.size e := by
    simp only [program, meets_bind, meets_pure]
    exact sequenceFrom_none_meets hr _ 0 #[] (by omega) hd (by omega)
  obtain ⟨tree, _, hrun, reported, rfl⟩ := run_of_meets program hmeets
  exact ⟨tree, reported, hrun⟩

end Parser

@[simp] theorem Input.size_ofTokens (tokens : List Token) (source : SourceText) :
    (Input.ofTokens tokens source).size = tokens.length := by
  simp [Input.ofTokens, Input.size]

theorem Input.tokenAt_ofTokens_of_lt {tokens : List Token} {source : SourceText} {p : Nat}
    (h : p < tokens.length) : (Input.ofTokens tokens source).tokenAt p = tokens[p] := by
  simp [tokenAt, ofTokens, h]

/-- **Every parse comes to an end.** Whatever the tokens are, a parser without plugins or with the
bundled one reads all of them, and each of its routines, begun anywhere among the tokens, ends
inside them, keeps the diagnostics there are, and takes a token where it makes a node. -/
theorem frontend_parse_ends {frontend : Frontend}
    (hplugins : ∀ plugin ∈ frontend.plugins, plugin = Extras.plugin) (tokens : List Token)
    (source : SourceText) (aliases : Aliases) :
    (∃ tree reported, (frontend.parser tokens source aliases).run program =
        (.ok tree, (frontend.parser tokens source aliases).resumed tokens.length reported)) ∧
      (frontend.parser tokens source aliases).RoutinesEnd := by
  have hh : ∀ input, (frontend.parser tokens source aliases).hooks.Progress input :=
    fun _ => parser_progress hplugins tokens source aliases
  refine ⟨?_, Parser.routinesEnd (hh _)⟩
  have h := Parser.program_ends (frontend.parser tokens source aliases) (hh _)
  rwa [show (frontend.parser tokens source aliases).input.size = tokens.length from
    Input.size_ofTokens tokens source] at h

/-- The bundled plugin, met by a `return` that nothing follows and a brace that nothing opened. -/
theorem frontend_parse_ends_extras :
    (∀ plugin ∈ (Frontend.mk [Extras.plugin]).plugins, plugin = Extras.plugin) ∧
      (Parser.RoutinesEnd ((Frontend.mk [Extras.plugin]).parser
        [⟨.symbol, closeBrace, 0⟩, ⟨.endOfInput, "", 1⟩, ⟨.keyword, "return", 1⟩]
        (.ofText "\x7dreturn" "main.cs") .builtin)) :=
  have h : ∀ plugin ∈ (Frontend.mk [Extras.plugin]).plugins, plugin = Extras.plugin := by simp
  ⟨h, (frontend_parse_ends h _ _ _).2⟩

end SharpSyntax
