import SharpSyntax.Proofs.Declines
import SharpSyntax.Proofs.Tells
import SharpSyntax.Proofs.Transparency

/-!
# Bodies in braces

Two loops read statements between braces. That of a block ends at the first closing brace; that of a
method body counts the braces at which statements begin and ends at the one that brings the count
back. Extensions may be tried at a brace and take it, and then the count is wrong: the method body
has counted an opening brace whose partner the statement took with it.

So the two loops agree on a body that is read without a report if, and for extensions that only
append to the diagnostics only if, none of its statements begins at an opening brace. Nothing is
asked of the extensions otherwise, and the body may begin anywhere.
-/

namespace SharpSyntax

open Parse Attempt Grammar

variable {α β : Type} {input : Input} {rules : Rules} {s t u : ParseState} {stops : List String}

/-! ## Runs of steps -/

namespace Parse

/-- Recovery keeps the diagnostics. -/
theorem recover_diagnostics {start : Mark}
    (h : ((recover start stops).run input).run s = .ok () t) : t.diagnostics = s.diagnostics := by
  have hmeets : Meets True input (recover start stops) s
      fun _ t => t.diagnostics = s.diagnostics := by
    simp only [recover, meets_bind, meets_get]
    refine .ite (fun _ => rfl) fun _ => ?_
    simp only [meets_bind, atEnd, meets_read, meets_get, meets_pure]
    refine .ite (fun _ => rfl) fun _ => ?_
    simp only [meets_bind, meets_current_iff]
    exact fun _ _ => .ite (fun _ => rfl) fun _ => .ite (fun _ => rfl) fun _ => rfl
  exact hmeets.of_run h

/-- Where nothing was reported, recovery does not ask for the stops. -/
theorem run_recover_quiet {start : Mark} (h : s.diagnostics.size = start.reported) :
    ((recover start stops).run input).run s =
      .ok () (if s.cursor = start.cursor then s.past else s) := by
  refine run_bind_ok.mpr ⟨s, s, rfl, run_ite_ok.mpr ?_⟩
  by_cases hcursor : s.cursor = start.cursor
  · rw [if_pos hcursor]
    exact .inl ⟨hcursor, rfl⟩
  · rw [if_neg hcursor]
    refine .inr ⟨hcursor, run_bind_ok.mpr ⟨_, s, run_atEnd_ok.mpr ⟨rfl, rfl⟩, ?_⟩⟩
    exact run_ite_ok.mpr (.inl ⟨by simp [h], rfl⟩)

end Parse

/-! ## Statements one behind the other -/

/-- A run of the rule for a statement: where it began, what it made and where it ended. -/
structure StatementRun where
  start : ParseState
  nodes : List Node
  stop : ParseState

/-- The statement was read without a report. -/
def StatementRun.Quiet (run : StatementRun) : Prop :=
  run.stop.diagnostics = run.start.diagnostics

/-- Each statement begins where the one before it has ended. -/
inductive Statements (input : Input) (rules : Rules) (stops : List String) :
    ParseState → List StatementRun → ParseState → Prop
  | nil {s : ParseState} : Statements input rules stops s [] s
  | cons {s t u : ParseState} {nodes : List Node} {runs : List StatementRun}
      (hrun : ((statement rules stops).run input).run s = .ok nodes t)
      (hrest : Statements input rules stops t runs u) :
      Statements input rules stops s (⟨s, nodes, t⟩ :: runs) u

/-- A statement that is read without a report is read alike in bodies that other tokens close. -/
theorem run_statement_of_quiet {nodes : List Node}
    (hrun : ((statement rules stops).run input).run s = .ok nodes t)
    (hquiet : t.diagnostics = s.diagnostics) (stops' : List String) :
    ((statement rules stops').run input).run s = .ok nodes t := by
  simp only [statement, run_bind_ok, run_mark_ok] at hrun ⊢
  obtain ⟨start, _, ⟨rfl, rfl⟩, made, v, hmade, ⟨⟩, w, hskip, ⟨⟩, x, hrecover, hnodes⟩ := hrun
  obtain ⟨rfl, rfl⟩ := run_pure_ok.mp hnodes
  have hsize : w.diagnostics.size = s.diagnostics.size := by
    rw [← recover_diagnostics hrecover, hquiet]
  rw [run_recover_quiet hsize] at hrecover
  refine ⟨_, s, ⟨rfl, rfl⟩, made, v, hmade, (), w, hskip, (), x, ?_, run_pure_ok.mpr ⟨rfl, rfl⟩⟩
  rw [run_recover_quiet hsize]
  exact hrecover

/-- The statement begins neither at the end of the input nor at a closing brace. -/
def StatementRun.Inside (input : Input) (run : StatementRun) : Prop :=
  run.start.cursor < input.size ∧ ¬ input.Sees run.start closeBrace

/-- The statement begins at an opening brace. -/
def StatementRun.AtBrace (input : Input) (run : StatementRun) : Prop :=
  input.Sees run.start openBrace

/-! ## The two loops -/

/-- The statements of a block, from the state behind its opening brace on: they stand one behind the
other up to a closing brace or the end of the input, and none begins there. -/
structure BlockRuns (input : Input) (rules : Rules) (s : ParseState) (runs : List StatementRun)
    (u : ParseState) : Prop where
  statements : Statements input rules [closeBrace] s runs u
  inside : ∀ run ∈ runs, run.Inside input
  closed : input.size ≤ u.cursor ∨ input.Sees u closeBrace

/-- A block is made of its statements, and a method body reads the same statements if they are quiet
and none begins at an opening brace. -/
theorem sequenceFrom_blockRuns : ∀ n {s u : ParseState} {body : List Node},
    ((sequenceFrom rules (some closeBrace) n).run input).run s = .ok body u →
      ∃ runs, BlockRuns input rules s runs u ∧ body = runs.flatMap StatementRun.nodes ∧
        ((∀ run ∈ runs, run.Quiet) → (∀ run ∈ runs, ¬ run.AtBrace input) →
          ((methodStatements rules n 1).run input).run s = .ok body u)
  | 0, _, _, _, h => by cases h
  | n + 1, s, u, body, h => by
      rcases run_sequenceFrom_succ h with ⟨hclosed, rfl, rfl⟩ |
        ⟨hgo, token, hseen, hstay, first, t, rest, hfirst, hrest, rfl⟩
      · rw [Option.toList_some, Input.closes_singleton] at hclosed
        refine ⟨[], ⟨.nil, nofun, hclosed⟩, rfl, fun _ _ => ?_⟩
        exact run_methodStatements_succ.mpr (.inl ⟨hclosed.imp_right fun h => ⟨rfl, h⟩, rfl, rfl⟩)
      have hstay : token.isSymbol closeBrace = false := hstay closeBrace rfl
      obtain ⟨runs, hruns, rfl, hmethod⟩ := sequenceFrom_blockRuns n hrest
      have hinside : StatementRun.Inside input ⟨s, first, t⟩ :=
        ⟨hgo, fun hclose => absurd (hclose.of_seen? hseen) (by simp [hstay])⟩
      refine ⟨⟨s, first, t⟩ :: runs, ⟨.cons hfirst hruns.statements,
        List.forall_mem_cons.mpr ⟨hinside, hruns.inside⟩, hruns.closed⟩, rfl,
        fun hquiet hbrace => ?_⟩
      obtain ⟨hquiet, hquiets⟩ := List.forall_mem_cons.mp hquiet
      obtain ⟨hbrace, hbraces⟩ := List.forall_mem_cons.mp hbrace
      have hopen : token.isSymbol openBrace = false := by
        rw [Bool.eq_false_iff]
        exact fun h => hbrace ⟨token, hseen, h⟩
      refine run_methodStatements_succ.mpr (.inr ⟨hgo, token, hseen, by simp [hstay], first, t,
        runs.flatMap StatementRun.nodes, ?_, ?_, rfl⟩)
      · exact run_statement_of_quiet hfirst hquiet _
      · rw [Token.depthBehind_other hopen hstay]
        exact hmethod hquiets hbraces

theorem Statements.diagnostics_of_quiet {runs : List StatementRun}
    (h : Statements input rules stops s runs u) (hquiet : ∀ run ∈ runs, run.Quiet) :
    u.diagnostics = s.diagnostics := by
  induction h with
  | nil => rfl
  | cons _ _ ih =>
      obtain ⟨hfirst, hrest⟩ := List.forall_mem_cons.mp hquiet
      exact (ih hrest).trans hfirst

/-! ## Extensions that only append -/

/-- A symbol is only seen in front of the end. -/
theorem Input.Sees.lt_size {text : String} (h : input.Sees s text) : s.cursor < input.size := by
  obtain ⟨token, hseen, hsymbol⟩ := h
  by_cases hcursor : 0 ≤ s.cursor
  · rw [seen?, if_pos hcursor, Option.some_inj] at hseen
    have hlt : s.cursor.toNat < input.size := lt_size_of_isSymbol (hseen ▸ hsymbol)
    omega
  · omega

section Silent

variable (hsilent : rules.NoneSilent input)

include hsilent

/-- A statement that makes nothing has reported. -/
theorem run_statement_continues {nodes : List Node}
    (hrun : ((statement rules stops).run input).run s = .ok nodes t) :
    Continues 0 s t ∧ (nodes = [] → Continues 1 s t) := by
  simp only [statement, run_bind_ok, run_mark_ok, run_pure_ok] at hrun
  obtain ⟨_, _, ⟨rfl, rfl⟩, made, v, hmade, _, w, hskip, _, x, hrecover, rfl, rfl⟩ := hrun
  obtain ⟨hv, hnone⟩ := hsilent.expression 0 s made v hmade
  have hw : Continues 0 v w := (Parse.Makes.skip.of_run hskip).2
  have hx : Continues 0 w x := (Parse.Makes.recover.of_run hrecover).2
  have hbehind : Continues 0 v x := hw.after hx
  refine ⟨hv.after hbehind, fun hempty => ?_⟩
  have hdeclined : made = none := by cases made <;> simp_all
  exact ((hnone hdeclined).trans hbehind).mono (by omega)

theorem Statements.continues {runs : List StatementRun}
    (h : Statements input rules stops s runs u) : Continues 0 s u := by
  induction h with
  | nil => exact .refl _
  | cons hrun _ ih => exact (run_statement_continues hsilent hrun).1.after ih

/-- Statements at whose end nothing was reported are quiet. -/
theorem Statements.quiet {runs : List StatementRun} (h : Statements input rules stops s runs u)
    (hquiet : u.diagnostics = s.diagnostics) : ∀ run ∈ runs, run.Quiet := by
  induction h with
  | nil => exact nofun
  | @cons s t u nodes runs hrun hrest ih =>
      have hst : t.diagnostics = s.diagnostics :=
        (run_statement_continues hsilent hrun).1.quiet_before (hrest.continues hsilent) hquiet
      exact List.forall_mem_cons.mpr ⟨hst, ih (hquiet.trans hst.symm)⟩

/-- A method body that has counted an opening brace goes past the closing brace behind the
statements, where it reads something more or reports. -/
theorem methodStatements_overruns {runs : List StatementRun}
    (hruns : Statements input rules [closeBrace] s runs u)
    (hinside : ∀ run ∈ runs, run.Inside input) (hquiet : ∀ run ∈ runs, run.Quiet)
    (hend : input.Sees u closeBrace) : ∀ {n depth : Nat} {body : List Node} {t : ParseState},
      1 ≤ depth → 2 ≤ depth ∨ (∃ run ∈ runs, run.AtBrace input) →
      ((methodStatements rules n depth).run input).run s = .ok body t →
        Continues 1 u t ∨ body ≠ runs.flatMap StatementRun.nodes := by
  induction hruns with
  | nil =>
      rintro (_ | n) depth body t - hdepth hrun
      · cases hrun
      have hdeep : 2 ≤ depth := hdepth.resolve_right nofun
      rcases run_methodStatements_succ.mp hrun with ⟨hout | ⟨hone, -⟩, -⟩ |
        ⟨-, token, -, -, first, v, rest, hfirst, hrest, rfl⟩
      · exact absurd hend.lt_size (by omega)
      · omega
      obtain ⟨-, hreports⟩ := run_statement_continues hsilent hfirst
      have hrest' := (hsilent.methodStatements _ _ _ _ _ hrest).2.1
      by_cases hempty : first = []
      · exact .inl (((hreports hempty).trans hrest').mono (by omega))
      · exact .inr (by simp [hempty])
  | @cons s v u nodes runs hrun hruns ih =>
      rintro (_ | n) depth body t hpos hdepth hmethod
      · cases hmethod
      obtain ⟨⟨hgo, hstay⟩, hinside⟩ := List.forall_mem_cons.mp hinside
      obtain ⟨hquiet, hquiets⟩ := List.forall_mem_cons.mp hquiet
      rcases run_methodStatements_succ.mp hmethod with ⟨hout | ⟨-, hsees⟩, -⟩ |
        ⟨-, token, hseen, -, first, v', rest, hfirst, hrest, rfl⟩
      · exact absurd hout (by simpa using hgo)
      · exact absurd hsees hstay
      -- the method body reads the statement as the block does
      rw [run_statement_of_quiet hrun hquiet] at hfirst
      obtain ⟨rfl, rfl⟩ : nodes = first ∧ v = v' := by simpa using hfirst
      have hclose : token.isSymbol closeBrace = false := by
        rw [Bool.eq_false_iff]
        exact fun h => hstay ⟨token, hseen, h⟩
      have hdeep : 2 ≤ token.depthBehind depth ∨ ∃ run ∈ runs, run.AtBrace input := by
        by_cases hopen : token.isSymbol openBrace
        · rw [Token.depthBehind_open hopen]
          exact .inl (Nat.succ_le_succ hpos)
        · rw [Token.depthBehind_other (by simpa using hopen) hclose]
          refine hdepth.imp_right ?_
          rintro ⟨run, hmem, hrun⟩
          rcases List.mem_cons.mp hmem with rfl | hmem
          · exact absurd (hrun.of_seen? hseen) hopen
          · exact ⟨run, hmem, hrun⟩
      have hpos' : 1 ≤ token.depthBehind depth :=
        Token.one_le_depthBehind hpos (by simp [hclose])
      have hover := ih hinside hquiets hend hpos' hdeep hrest
      rw [List.flatMap_cons]
      exact hover.imp_right fun hne heq => hne (List.append_cancel_left heq)

end Silent

/-! ## Bodies of a parser -/

/-- A method body whose statements end at a closing brace ends behind it. -/
theorem run_methodBody_closed {body : List Node}
    (h : ((methodStatements rules rules.budget 1).run input).run s.past = .ok body u)
    (hclose : input.Sees u closeBrace) :
    ((methodBody rules).run input).run s = .ok body u.past := by
  obtain ⟨token, hseen, hsymbol⟩ := hclose
  refine run_bind_ok.mpr ⟨(), s.past, rfl, run_bind_ok.mpr ⟨body, u, h, ?_⟩⟩
  refine run_bind_ok.mpr ⟨token, u, run_current_ok.mpr ⟨hseen, rfl⟩, ?_⟩
  exact run_ite_ok.mpr (.inl ⟨hsymbol, rfl⟩)

/-- Behind its statements a method body makes nothing more. -/
theorem run_methodBody_ok {body : List Node}
    (h : ((methodBody rules).run input).run s = .ok body t) :
    ∃ u, ((methodStatements rules rules.budget 1).run input).run s.past = .ok body u ∧
      Continues 0 u t := by
  have hmeets : Parse.Meets True input (methodBody rules) s fun body t => ∃ u,
      ((methodStatements rules rules.budget 1).run input).run s.past = .ok body u ∧
        Continues 0 u t := by
    rw [methodBody, Parse.meets_bind]
    change Parse.Meets True input _ s.past _
    rw [Parse.meets_bind]
    refine meets_ran.mono fun body u hbody => ?_
    refine Parse.Meets.mono (?_ : Parse.Makes input _ (· = body) u) ?_
    · refine .current fun _ _ => .ite (fun _ => ?_) fun _ => ?_
      · exact Parse.Makes.advance.bind fun _ _ _ => .pure rfl
      · exact report_reports.makes.bind fun _ _ _ => .pure rfl
    · rintro _ t ⟨rfl, ht⟩
      exact ⟨u, hbody, ht⟩
  exact hmeets.of_run h

/-- Where a method body agrees with the statements of a block, none of them begins at an opening
brace. -/
theorem BlockRuns.not_atBrace {runs : List StatementRun} (hsilent : rules.NoneSilent input)
    (hruns : BlockRuns input rules s.past runs u) (hquiet : ∀ run ∈ runs, run.Quiet)
    (hclose : input.Sees u closeBrace)
    (h : ((methodBody rules).run input).run s =
      .ok (runs.flatMap StatementRun.nodes) u.past) :
    ∀ run ∈ runs, ¬ run.AtBrace input := by
  intro run hmem hbrace
  obtain ⟨t, hstatements, ht⟩ := run_methodBody_ok h
  rcases methodStatements_overruns hsilent hruns.statements hruns.inside hquiet hclose
    (Nat.le_refl 1) (.inr ⟨run, hmem, hbrace⟩) hstatements with hreported | hne
  · have hlater : Continues 1 u u.past := (hreported.trans ht).mono (Nat.le_refl 1)
    exact hlater.not_quiet rfl
  · exact hne rfl

/-! ## Braces without extensions -/

variable {hooks : Hooks} {token : Token}

/-- The state has one more report, about the token. -/
def ParseState.Reported (s : ParseState) (token : Token) (t : ParseState) : Prop :=
  ∃ x : Diagnostic, x.offset = token.offset ∧ t = { s with diagnostics := s.diagnostics.push x }

/-- No operand begins with a brace, so that one is left to the extensions. -/
theorem operand_brace (hbrace : token.IsBrace) (hseen : input.seen? s.cursor = some token)
    {made : Node → ParseState → Prop} {declined : ParseState → Prop}
    (h : Attempt.Meets True input (extensionExpression hooks rules token) s made declined) :
    Attempt.Meets True input (operand hooks rules) s made declined := by
  have hkind : token.kind = Kind.symbol := by
    rcases hbrace with hbrace | hbrace <;> exact (Token.isSymbol_iff.mp hbrace).1
  have htext : token.text = openBrace ∨ token.text = closeBrace :=
    hbrace.imp (fun h => (Token.isSymbol_iff.mp h).2) fun h => (Token.isSymbol_iff.mp h).2
  have hprefix : prefixOperators.contains token.text = false := by
    rcases htext with htext | htext <;> rw [htext] <;> decide
  have hliteral : literalKinds.contains Kind.symbol = false := by decide
  have hkinds : Kind.symbol ≠ .identifier ∧ Kind.symbol ≠ .template ∧
      Kind.symbol ≠ .endOfInput := by decide
  have hparenthesis : token.isSymbol "(" = false := by
    rcases hbrace with hbrace | hbrace <;> exact Token.isSymbol_eq_false hbrace _ (by decide)
  have hkeyword (word : String) : token.isKeyword word = false :=
    Token.isKeyword_eq_false_of_kind (by rw [hkind]; decide) word
  simp only [operand, primary, Attempt.meets_bind, Attempt.meets_liftM, meets_current_iff,
    Attempt.meets_ite, hseen, Option.some_inj, forall_eq', hkind, hprefix, hparenthesis, hkeyword,
    hliteral, hkinds.1, hkinds.2.1, hkinds.2.2]
  exact h

/-- Without extensions nothing is made of a brace, and it is reported. -/
theorem Rules.expression_brace (hnone : hooks.extensions = []) (hbrace : token.IsBrace)
    (hseen : input.seen? s.cursor = some token) (budget minimum : Nat) : ∀ depth,
    Attempt.Meets True input ((Rules.ofDepth hooks budget depth).expression minimum) s
      (fun _ _ => False) (s.Reported token)
  | 0 => trivial
  | depth + 1 => by
      change Attempt.Meets True input (Grammar.expression hooks _ minimum) s _ _
      rw [Grammar.expression, Attempt.meets_bind]
      refine (operand_brace hbrace hseen ?_).mono (fun _ _ => False.elim) fun _ => id
      simp only [extensionExpression, hnone, firstExtension, Attempt.meets_bind,
        Attempt.meets_liftM, meets_cursor, Attempt.meets_orNone, Attempt.meets_failure]
      exact ⟨_, rfl, rfl⟩

/-- A statement that begins at a brace of which nothing is made steps over it. -/
theorem statement_brace (hbrace : token.IsBrace) (hseen : input.seen? s.cursor = some token)
    (hdeclines : Attempt.Meets True input (rules.expression 0) s (fun _ _ => False)
      (s.Reported token)) :
    Parse.Meets True input (statement rules stops) s fun nodes t =>
      nodes = [] ∧ s.past.Reported token t := by
  have hsemicolon : token.isSymbol ";" = false := by
    rcases hbrace with hbrace | hbrace <;> exact Token.isSymbol_eq_false hbrace _ (by decide)
  simp only [statement, Parse.meets_bind, Parse.meets_pure]
  change Parse.Meets True input (rules.expression 0).run s _
  rw [Attempt.meets_run]
  refine hdeclines.mono (fun _ _ => False.elim) ?_
  rintro _ ⟨x, hx, rfl⟩
  simp only [skip, recover, Parse.meets_bind, Parse.meets_ite, meets_current_iff, hseen,
    Option.some_inj, forall_eq', hsemicolon, Parse.meets_pure, meets_get]
  exact ⟨rfl, x, hx, rfl⟩

namespace Parser

variable {parser after : Parser}

theorem run_ok_iff {step : Rules → Parse α} {a : α} :
    parser.run step = (.ok a, after) ↔ ∃ t,
      ((step parser.rules).run parser.input).run parser.state = .ok a t ∧
        after = { parser with state := t } := by
  unfold run
  cases hrun : ((step parser.rules).run parser.input).run parser.state with
  | ok b u =>
      constructor
      · rintro ⟨⟩
        exact ⟨u, rfl, rfl⟩
      · rintro ⟨t, hok, rfl⟩
        cases hok
        rfl
  | error fault u => simp

/-- A run that makes something, with the parser that it leaves. -/
theorem run_ok_of_isSome {step : Rules → Parse (Option α)}
    (h : (parser.run step).1.toOption.join.isSome = true) :
    ∃ a, parser.run step = (.ok (some a), (parser.run step).2) := by
  cases hrun : parser.run step with
  | mk made after =>
      rw [hrun] at h
      cases made with
      | error fault => cases h
      | ok made =>
          cases made with
          | none => cases h
          | some a => exact ⟨a, rfl⟩

/-- The extensions of the parser only append to its diagnostics. -/
def OnlyAppends (parser : Parser) : Prop :=
  ∀ routine ∈ parser.hooks.extensions, ∀ depth,
    Attempt.OnlyAppends parser.input (routine (.ofDepth parser.hooks parser.budget depth))

theorem OnlyAppends.noneSilent (h : parser.OnlyAppends) :
    parser.rules.NoneSilent parser.input := by
  have hpromise : parser.rules.Promise (fun _ => True) parser.input :=
    Rules.promise_ofDepth (fun depth routine hmem s => (h routine hmem depth).makes) _
  exact hpromise.noneSilent

theorem onlyAppends_of_no_extensions (h : parser.hooks.extensions = []) : parser.OnlyAppends := by
  rw [OnlyAppends, h]
  exact nofun

/-- Without extensions a statement that begins at a brace is reported about. -/
theorem not_quiet_of_atBrace (h : parser.hooks.extensions = []) {runs : List StatementRun}
    (hruns : Statements parser.input parser.rules stops s runs u) :
    ∀ run ∈ runs, run.AtBrace parser.input → ¬ run.Quiet := by
  induction hruns with
  | nil => exact nofun
  | @cons s t u nodes runs hrun _ ih =>
      refine List.forall_mem_cons.mpr ⟨?_, ih⟩
      rintro ⟨token, hseen, hopen⟩ hquiet
      have hdeclines := Rules.expression_brace h (.inl hopen) hseen parser.budget 0 parser.depth
      obtain ⟨-, x, -, hstop⟩ := (statement_brace (.inl hopen) hseen hdeclines).of_run hrun
      have hreported : Continues 1 s t := .of_push (congrArg ParseState.diagnostics hstop)
      exact hreported.not_quiet hquiet

/-- **Where method bodies and blocks in braces agree.** A block in braces that is read without a
report is one statement after the other, up to its closing brace. The method body that is read from
the same place, whatever the extensions are, has the same nodes, ends at the same place and reports
nothing either, if no statement of the block begins at an opening brace; where the extensions only
append to the diagnostics, only if none does. Without extensions none does. -/
theorem methodBody_agrees {body : List Node}
    (_hopen : parser.input.Sees parser.state openBrace)
    (hblock : parser.run (fun rules => (bracedBlock rules).run) = (.ok (some body), after))
    (hquiet : after.diagnostics = parser.diagnostics) :
    ∃ runs stop, BlockRuns parser.input parser.rules parser.state.past runs stop ∧
      body = runs.flatMap StatementRun.nodes ∧
      ((∀ run ∈ runs, run.Quiet) → (∀ run ∈ runs, ¬ run.AtBrace parser.input) →
        parser.run methodBody = (.ok body, after)) ∧
      (parser.OnlyAppends → (∀ run ∈ runs, run.Quiet) ∧
        (parser.run methodBody = (.ok body, after) ↔
          ∀ run ∈ runs, ¬ run.AtBrace parser.input)) ∧
      (parser.hooks.extensions = [] → parser.run methodBody = (.ok body, after)) := by
  obtain ⟨t, hrun, rfl⟩ := run_ok_iff.mp hblock
  have hend : t.diagnostics = parser.state.diagnostics := Array.ext' hquiet
  obtain ⟨-, stop, hbody, hclosed⟩ := run_bracedBlock_ok hrun
  obtain ⟨runs, hruns, rfl, hmethod⟩ := sequenceFrom_blockRuns _ hbody
  -- a missing closing brace would have been reported
  have hclose (hall : ∀ run ∈ runs, run.Quiet) :
      parser.input.Sees stop closeBrace ∧ t = stop.past := by
    refine hclosed.resolve_right fun hreported => ?_
    exact hreported.not_quiet (hend.trans (hruns.statements.diagnostics_of_quiet hall).symm)
  have hsame (hall : ∀ run ∈ runs, run.Quiet)
      (hbraces : ∀ run ∈ runs, ¬ run.AtBrace parser.input) : parser.run methodBody =
        (.ok (runs.flatMap StatementRun.nodes), { parser with state := t }) := by
    obtain ⟨hsees, rfl⟩ := hclose hall
    exact run_ok_iff.mpr ⟨_, run_methodBody_closed (hmethod hall hbraces) hsees, rfl⟩
  have hquiets (happends : parser.OnlyAppends) : ∀ run ∈ runs, run.Quiet := by
    have hsilent := happends.noneSilent
    have hbehind : Continues 0 stop t := by
      rcases hclosed with ⟨-, rfl⟩ | hreported
      · exact .of_diagnostics_eq rfl
      · exact hreported.mono (Nat.zero_le 1)
    have hstart := hruns.statements.continues hsilent
    exact hruns.statements.quiet hsilent (hstart.quiet_before hbehind hend)
  refine ⟨runs, stop, hruns, rfl, hsame, fun happends => ?_, fun hnone => ?_⟩
  · have hall := hquiets happends
    refine ⟨hall, fun hagree => ?_, hsame hall⟩
    obtain ⟨hsees, rfl⟩ := hclose hall
    obtain ⟨v, hv, heq⟩ := run_ok_iff.mp hagree
    obtain rfl : stop.past = v := congrArg Parser.state heq
    exact hruns.not_atBrace happends.noneSilent hall hsees hv
  · have hall := hquiets (onlyAppends_of_no_extensions hnone)
    refine hsame hall fun run hmem hbrace => ?_
    exact not_quiet_of_atBrace hnone hruns.statements run hmem hbrace (hall run hmem)

/-- A body with a condition and its block in it. -/
theorem methodBody_agrees_nested :
    let tokens : List Token := [⟨.symbol, openBrace, 0⟩, ⟨.keyword, "if", 1⟩, ⟨.symbol, "(", 4⟩,
      ⟨.identifier, "a", 5⟩, ⟨.symbol, ")", 6⟩, ⟨.symbol, openBrace, 7⟩, ⟨.identifier, "b", 8⟩,
      ⟨.symbol, ";", 9⟩, ⟨.symbol, closeBrace, 10⟩, ⟨.symbol, closeBrace, 11⟩]
    let parser := Parser.new tokens (.ofText "\x7bif (a)\x7bb;\x7d\x7d" "main.cs") .builtin
    ∃ body after, parser.run (fun rules => (bracedBlock rules).run) = (.ok (some body), after) ∧
      after.diagnostics = [] ∧ after.state.cursor = 10 ∧
      parser.run methodBody = (.ok body, after) := by
  intro tokens parser
  have hopen : parser.input.Sees parser.state openBrace := ⟨_, rfl, by decide⟩
  have hmade : (parser.run fun rules => (bracedBlock rules).run).1.toOption.join.isSome := by
    decide +kernel
  have hquiet : (parser.run fun rules => (bracedBlock rules).run).2.diagnostics = [] := by
    decide +kernel
  have hcursor : (parser.run fun rules => (bracedBlock rules).run).2.state.cursor = 10 := by
    decide +kernel
  obtain ⟨body, hblock⟩ := run_ok_of_isSome hmade
  obtain ⟨-, -, -, -, -, -, hagree⟩ := methodBody_agrees hopen hblock hquiet
  exact ⟨body, _, hblock, hquiet, hcursor, hagree rfl⟩

/-- It is not so that they always agree: an extension that takes an expression between braces takes
the closing brace whose partner the method body has counted. -/
theorem methodBody_overruns_braces : ¬ ∀ (parser after : Parser) (body : List Node),
    parser.input.Sees parser.state openBrace →
      parser.run (fun rules => (bracedBlock rules).run) = (.ok (some body), after) →
      after.diagnostics = parser.diagnostics →
        parser.run methodBody = (.ok body, after) := by
  intro hclaim
  let tokens : List Token := [⟨.symbol, openBrace, 0⟩, ⟨.symbol, openBrace, 1⟩,
    ⟨.identifier, "x", 2⟩, ⟨.symbol, closeBrace, 3⟩, ⟨.symbol, closeBrace, 4⟩]
  let parser : Parser :=
    { Parser.new tokens (.ofText "\x7b\x7bx\x7d\x7d" "main.cs") .builtin with
      hooks := {
        extensions := [(Recipe.Behaviour.wrap openBrace closeBrace).run .builtin]
        routines := .empty } }
  have hopen : parser.input.Sees parser.state openBrace := ⟨_, rfl, by decide⟩
  have hmade : (parser.run fun rules => (bracedBlock rules).run).1.toOption.join.isSome := by
    decide +kernel
  have hquiet : (parser.run fun rules => (bracedBlock rules).run).2.diagnostics = [] := by
    decide +kernel
  have hreported : (parser.run methodBody).2.diagnostics.isEmpty = false := by decide +kernel
  obtain ⟨body, hblock⟩ := run_ok_of_isSome hmade
  rw [hclaim parser _ body hopen hblock hquiet, hquiet] at hreported
  exact Bool.noConfusion hreported

end Parser

end SharpSyntax
