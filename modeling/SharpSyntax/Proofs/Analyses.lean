import SharpSyntax.Proofs.ShownLines

/-!
# Analyses with the bundled plugin

A frontend with the bundled plugin, however often it was registered, analyses every text: there is
always a rule for identifiers that the rule for `null` can be put in front of, and every parse comes
to an end. What it tells of a text points into that text.
-/

namespace SharpSyntax

/-- There is a rule of a kind. -/
def TokenRule.Named (kind : Kind) (rules : List TokenRule) : Prop :=
  ∃ rule ∈ rules, rule.kind = kind

/-- A rule can be put in front of one that is there. -/
theorem Lexer.exists_insertBefore? {kind : Kind} (rule : TokenRule) {rules : List TokenRule}
    (h : TokenRule.Named kind rules) :
    ∃ later, insertBefore? kind rule rules = some later ∧ TokenRule.Named kind later := by
  induction rules with
  | nil => obtain ⟨_, hmem, -⟩ := h; cases hmem
  | cons first rest ih =>
      rw [insertBefore?]
      by_cases hfirst : first.kind = kind
      · rw [if_pos hfirst]
        exact ⟨_, rfl, first, by simp, hfirst⟩
      · rw [if_neg hfirst]
        obtain ⟨found, hmem, hkind⟩ := h
        rcases List.mem_cons.mp hmem with rfl | hmem
        · exact absurd hkind hfirst
        · obtain ⟨later, hlater, other, hother, hkind⟩ := ih ⟨found, hmem, hkind⟩
          rw [hlater]
          exact ⟨_, rfl, other, List.mem_cons_of_mem _ hother, hkind⟩

/-- The bundled plugin finds the rule for identifiers that it looks for, and leaves it there. -/
theorem Extras.exists_applyToLexer {lexer : Lexer}
    (h : TokenRule.Named .identifier lexer.rules) : ∃ later,
    Extras.plugin.applyToLexer lexer = .ok later ∧ TokenRule.Named .identifier later.rules := by
  obtain ⟨rules, hrules, hnamed⟩ := Lexer.exists_insertBefore?
    { kind := Extras.nullKind, scanner := Scan.wholeWord "null" } h
  let later : Lexer := { lexer with rules := rules }
  have hlex : Extras.lex lexer = .ok (later.setAlias "null" Extras.nullKind) := by
    simp only [Extras.lex, Lexer.addRule, hrules]
    rfl
  refine ⟨later.setAlias "null" Extras.nullKind, ?_, hnamed⟩
  change (Extras.lex lexer >>= fun lexer => .ok lexer) = _
  rw [hlex]
  rfl

namespace Frontend

variable {frontend : Frontend} {source : SourceText}

theorem exists_foldlM_applyToLexer {plugins : List Plugin}
    (hplugins : ∀ plugin ∈ plugins, plugin = Extras.plugin) {lexer : Lexer}
    (h : TokenRule.Named .identifier lexer.rules) : ∃ last,
    plugins.foldlM (fun lexer plugin => plugin.applyToLexer lexer) lexer = .ok last := by
  induction plugins generalizing lexer with
  | nil => exact ⟨lexer, rfl⟩
  | cons plugin plugins ih =>
      obtain ⟨later, hlater, hnamed⟩ := Extras.exists_applyToLexer h
      obtain ⟨last, hlast⟩ := ih (fun other hmem => hplugins other (by simp [hmem])) hnamed
      rw [List.foldlM_cons, hplugins plugin (by simp), hlater]
      exact ⟨last, hlast⟩

/-- The bundled plugin can be applied to every fresh lexer. -/
theorem exists_lexer (hplugins : ∀ plugin ∈ frontend.plugins, plugin = Extras.plugin)
    (source : SourceText) : ∃ lexer, frontend.lexer source = .ok lexer :=
  exists_foldlM_applyToLexer hplugins ⟨TokenRule.builtin[5], List.getElem_mem _, rfl⟩

end Frontend

/-- A diagnostic with one label, which points into a source text. -/
def Diagnostic.PointsInto (source : SourceText) (x : Diagnostic) : Prop :=
  ∃ label, x.labels = [label] ∧ label.span.file = source.name

theorem Diagnostic.pointsInto_errorAt {source : SourceText} {code message note : String}
    {offset : Int} {length : Nat} :
    (Diagnostic.errorAt source code message offset length note).PointsInto source :=
  ⟨_, rfl, rfl⟩

/-- A text that lexes is parsed; all that is told of a text points into it. -/
theorem Frontend.parse_cases {frontend : Frontend}
    (hplugins : ∀ plugin ∈ frontend.plugins, plugin = Extras.plugin) (source : SourceText) :
    (∃ result, frontend.parse source = .ok result ∧
      ∀ x ∈ result.diagnostics, x.PointsInto source) ∨
    ∃ error, frontend.parse source = .error (.lex error) ∧ error.diagnostic.PointsInto source := by
  obtain ⟨lexer, hlexer⟩ := exists_lexer hplugins source
  obtain ⟨lexemes, stop, -, -, -, hend⟩ :=
    Lexer.tokenize_fresh source lexer.rules lexer.aliases
  rw [← lexer_fresh hplugins hlexer] at hend
  rcases hend with ⟨-, hok⟩ | ⟨c, -, herror⟩
  · have htokens : frontend.tokens source =
        .ok (lexemes.filterMap Lexeme.token?, lexer.aliases) := by
      rw [tokens, hlexer]
      dsimp only
      rw [hok]
    obtain ⟨tree, reported, hrun⟩ := (frontend.parser _ source _).program_ends
      (parser_progress hplugins _ source _)
    have hparse := parse_of_run htokens hrun
    refine .inl ⟨_, hparse, fun x hx => ?_⟩
    obtain ⟨p, message, code, -, -, rfl⟩ := within_of_parse hplugins htokens hparse hx
    exact Diagnostic.pointsInto_errorAt
  · have htokens : frontend.tokens source = .error (.lex (Lexer.errorAt source stop c)) := by
      rw [tokens, hlexer]
      dsimp only
      rw [herror]
    refine .inr ⟨Lexer.errorAt source stop c, ?_, Diagnostic.pointsInto_errorAt⟩
    rw [parse, htokens]
    rfl

end SharpSyntax
