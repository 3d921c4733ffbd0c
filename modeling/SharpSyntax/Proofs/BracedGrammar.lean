import SharpSyntax.Proofs.Counts
import SharpSyntax.Proofs.CoupledGrammar

/-!
# What the routines of the grammar do to the level

Every routine of a parser without plugins keeps the level of open braces, wherever it begins. Only
bodies take braces: a block, a class or a namespace reads from its opening brace to the closing one
where its loop ends, and the loop steps over a brace that begins nothing only with a report at it.

A method body counts. Its statements are runs of one rule, each of which either begins at a brace
and steps over that alone, or keeps the level.
-/

namespace SharpSyntax

open Parse Attempt Grammar

variable {input : Input} {rules : Rules} {p q : Nat} {d e : Array Diagnostic}

/-! ## Names and types -/

/-- A name takes dots and identifiers only. -/
theorem nameTail_balances : ∀ n p, Parse.Balances input (nameTail n) p
  | 0, _ => .endless
  | n + 1, p => by
      refine .current (.ite (fun _ => .pure) fun hdot =>
        .advance (Token.not_isBrace_of_not_not (by decide) hdot) ?_)
      refine .require (fun hfits => .ite (fun _ => .pure) fun _ => .consume ?_ ?_)
        (.ite (fun _ => .pure) fun hne => absurd rfl hne)
      · exact Token.not_isBrace_of_identifier (by simpa using hfits)
      · exact (nameTail_balances n (p + 2)).bind fun _ _ _ => .pure

theorem qualifiedName_balances (p : Nat) : Attempt.Balances input (qualifiedName rules) p := by
  refine .current (.ite (fun _ => .failure_bind) fun hkind => .advance ?_ ?_)
  · exact Token.not_isBrace_of_identifier (Decidable.not_not.mp hkind)
  · exact (Attempt.Balances.liftM (nameTail_balances _ (p + 1))).bind fun _ _ _ => .pure

/-- The rules of a parser without plugins keep the level, and nothing is made of a brace. -/
structure Rules.Balance (input : Input) (rules : Rules) : Prop where
  expression : ∀ minimum p, Attempt.Balances input (rules.expression minimum) p
  classDeclaration : ∀ mods p, Attempt.Balances input (rules.classDeclaration mods) p
  typeExpression : ∀ p, Attempt.Balances input rules.typeExpression p
  brace : ∀ p d, (input.tokenAt p).IsBrace →
    Attempt.Meets True input (rules.expression 0) (.at p d) (fun _ _ => False)
      ((ParseState.at p d).Reported (input.tokenAt p))

section Rules

variable (hr : rules.Balance input)

include hr

/-- Types take words, angle brackets and commas only. -/
theorem typeListFrom_balances : ∀ n p, Parse.Balances input (typeListFrom rules n) p
  | 0, _ => .endless
  | n + 1, p => by
      refine .atEnd fun _ => .ite (fun _ => .pure) fun _ => ?_
      refine (hr.typeExpression p).run fun made q _ => ?_
      cases made with
      | none => exact Balances.reportFound.bind fun _ _ _ => .pure
      | some type =>
          refine .current (.ite (fun _ => .pure) fun hcomma =>
            .advance (Token.not_isBrace_of_not_not (by decide) hcomma) ?_)
          exact (typeListFrom_balances n (q + 1)).bind fun _ _ _ => .pure

theorem genericArguments_balances (p : Nat) :
    Parse.Balances input (genericArguments rules) p := by
  refine .current (.ite (fun _ => .pure) fun hopen =>
    .advance (Token.not_isBrace_of_not_not (by decide) hopen) ?_)
  refine (typeListFrom_balances hr _ (p + 1)).bind fun _ q _ => ?_
  exact (Balances.close (by decide)).bind fun _ _ _ => .pure

theorem typeExpression_balances (p : Nat) :
    Attempt.Balances input (typeExpression rules) p := by
  refine .current (.ite (fun hkind => .advance ?_ ?_) fun _ => ?_)
  · exact Token.not_isBrace_of_kind (by rw [hkind]; decide)
  · exact (Attempt.Balances.liftM (genericArguments_balances hr (p + 1))).bind fun _ _ _ => .pure
  · refine (qualifiedName_balances p).bind fun _ q _ => ?_
    exact (Attempt.Balances.liftM (genericArguments_balances hr q)).bind fun _ _ _ => .pure

/-! ## Access chains and arguments -/

/-- Between two arguments a comma is taken. -/
theorem argumentsFrom_balances : ∀ n p, Parse.Balances input (argumentsFrom rules n) p
  | 0, _ => .endless
  | n + 1, p => by
      refine .atEnd fun _ => .ite (fun _ => .pure) fun _ => ?_
      refine .current (.ite (fun _ => .pure) fun _ => ?_)
      refine (hr.expression 0 p).run fun made q _ => ?_
      cases made with
      | none => exact .pure
      | some argument =>
          refine .current (.ite (fun _ => .pure) fun hcomma =>
            .advance (Token.not_isBrace_of_not_not (by decide) hcomma) ?_)
          exact (argumentsFrom_balances n (q + 1)).bind fun _ _ _ => .pure

theorem arguments_balances (p : Nat) : Parse.Balances input (arguments rules) p := by
  refine .require (fun hfits => .ite (fun _ => .pure) fun _ => .advance ?_ ?_)
    (.ite (fun _ => .pure) fun hne => absurd rfl hne)
  · exact Token.not_isBrace_of_symbol (by decide) hfits
  · refine (argumentsFrom_balances hr _ (p + 1)).bind fun _ q _ => ?_
    exact (Balances.close (by decide)).bind fun _ _ _ => .pure

/-- A step of a chain takes a dot, brackets or parentheses around what keeps the level. -/
theorem accesses_balances : ∀ n p, Parse.Balances input (accesses rules n) p
  | 0, _ => .endless
  | n + 1, p => by
      refine .current (.ite
        (fun hdot => .advance (Token.not_isBrace_of_symbol (by decide) hdot) ?_) fun _ =>
        .ite (fun hindex => .advance (Token.not_isBrace_of_symbol (by decide) hindex) ?_) fun _ =>
        .ite (fun _ => ?_) fun _ => .pure)
      · refine .require (fun hfits => .ite (fun _ => .pure) fun _ => .consume ?_ ?_)
          (.ite (fun _ => .pure) fun hne => absurd rfl hne)
        · exact Token.not_isBrace_of_identifier (by simpa using hfits)
        · exact (accesses_balances n (p + 2)).bind fun _ _ _ => .pure
      · refine (hr.expression 0 (p + 1)).run fun made q _ => ?_
        cases made with
        | none => exact .pure
        | some index =>
            refine .require (fun hfits => .ite (fun _ => .pure) fun _ => .advance ?_ ?_)
              (.ite (fun _ => .pure) fun hne => absurd rfl hne)
            · exact Token.not_isBrace_of_symbol (by decide) hfits
            · exact (accesses_balances n (q + 1)).bind fun _ _ _ => .pure
      · refine (arguments_balances hr p).bind fun _ q _ => ?_
        exact (accesses_balances n q).bind fun _ _ _ => .pure

theorem accessChain_balances (p : Nat) : Attempt.Balances input (accessChain rules) p := by
  refine .current (.ite (fun _ => .failure_bind) fun hkind => .advance ?_ ?_)
  · exact Token.not_isBrace_of_identifier (Decidable.not_not.mp hkind)
  · exact (Attempt.Balances.liftM (accesses_balances hr _ (p + 1))).bind fun _ _ _ => .pure

/-! ## Statements -/

/-- A statement that begins at no brace keeps the level. -/
theorem statement_balances {stops : List String} (hstops : closeBrace ∈ stops)
    (hflat : ¬ (input.tokenAt p).IsBrace) : Parse.Balances input (statement rules stops) p := by
  intro d
  simp only [statement, Parse.meets_bind, meets_mark, Attempt.meets_run, Parse.meets_pure]
  have hbehind : ∀ t, input.Kept p d t → Parse.Meets True input (skip ";") t fun _ t =>
      Parse.Meets True input (recover ⟨p, d.size⟩ stops) t fun _ => input.Kept p d := by
    rintro _ ⟨q, e, rfl, hkeeps⟩
    refine ((Balances.skip (by decide)).behind hkeeps).mono fun _ t => ?_
    rintro ⟨r, f, rfl, hkeeps'⟩
    exact recover_kept hkeeps' hstops fun _ => hflat
  exact (hr.expression 0 p d).mono (fun _ => hbehind) hbehind

/-- A statement that begins at a brace makes nothing of it, reports it and steps over it. -/
theorem statement_steps {stops : List String} (hbrace : (input.tokenAt p).IsBrace)
    (d : Array Diagnostic) : Parse.Meets True input (statement rules stops) (.at p d)
      fun nodes t => nodes = [] ∧
        ∃ x : Diagnostic, x.offset = (input.tokenAt p).offset ∧ t = .at (p + 1) (d.push x) := by
  refine (statement_brace hbrace Input.seen?_natCast (hr.brace p d hbrace)).mono fun nodes t => ?_
  rintro ⟨rfl, x, hx, rfl⟩
  exact ⟨rfl, x, hx, rfl⟩

/-- In a block the statement at an opening brace is the brace, with a report at it. -/
theorem statement_kept {stops : List String} (hstops : closeBrace ∈ stops)
    (hclose : ¬ (input.tokenAt p).isSymbol closeBrace = true) :
    Parse.Balances input (statement rules stops) p := by
  intro d
  by_cases hopen : (input.tokenAt p).isSymbol openBrace = true
  · refine (statement_steps hr (.inl hopen) d).mono fun _ t => ?_
    rintro ⟨-, x, hx, rfl⟩
    exact ⟨p + 1, _, rfl, .reported hopen hx⟩
  · exact statement_balances hr hstops (not_or.mpr ⟨hopen, hclose⟩) d

/-- The statements of a block leave the cursor where the body may be closed. -/
theorem sequenceFrom_closes : ∀ n p,
    Parse.Closes input (sequenceFrom rules (some closeBrace) n) p
  | 0, _, _ => trivial
  | n + 1, p, d => by
      simp only [sequenceFrom, Parse.meets_bind, meets_atEnd]
      refine .ite (fun hend => ?_) fun _ => ?_
      · exact ⟨p, d, rfl, .here (.refl d), .inl (of_decide_eq_true hend)⟩
      simp only [Parse.meets_bind, meets_current]
      refine .ite (fun hclose => ?_) fun hgo => ?_
      · exact ⟨p, d, rfl, .here (.refl d), .inr (by simpa using hclose)⟩
      simp only [Parse.meets_bind, Parse.meets_pure]
      have hclose : ¬ (input.tokenAt p).isSymbol closeBrace = true := by simpa using hgo
      have hfirst := statement_kept hr (List.mem_singleton_self closeBrace) hclose d
      refine hfirst.mono fun _ t => ?_
      rintro ⟨q, e, rfl, hkeeps⟩
      refine (sequenceFrom_closes n q e).mono fun _ t => ?_
      rintro ⟨r, f, rfl, hkeeps', hend⟩
      exact ⟨r, f, rfl, hkeeps.trans hkeeps', hend⟩

theorem bracedBlock_balances (p : Nat) : Attempt.Balances input (bracedBlock rules) p :=
  .braced (sequenceFrom_closes hr _ _) fun _ _ => .pure

theorem condition_balances (keyword : String) (p : Nat) :
    Attempt.Balances input (condition rules keyword) p := by
  refine .needSymbol (by decide) ((hr.expression 0 (p + 1)).bind fun _ q _ => ?_)
  exact .needSymbol (by decide) .pure

/-- Both blocks of an `if` take their own braces. -/
theorem branches_balances : ∀ n keyword p, Attempt.Balances input (branches rules keyword n) p
  | 0, _, _ => .endless
  | n + 1, keyword, p => by
      refine (condition_balances hr keyword p).bind fun _ q _ => ?_
      refine (bracedBlock_balances hr q).bind fun _ r _ => ?_
      refine .current (.ite (fun _ => .pure) fun helse => .advance ?_ ?_)
      · exact Token.not_isBrace_of_keyword (by simpa using helse)
      refine .current (.ite (fun hif => .advance (Token.not_isBrace_of_keyword hif) ?_) fun _ => ?_)
      · refine (branches_balances n "else if" (r + 2)).bindOrNone fun made _ _ => ?_
        cases made <;> exact .pure
      · refine (bracedBlock_balances hr (r + 1)).bindOrNone fun made _ _ => ?_
        cases made <;> exact .pure

theorem ifStatement_balances (p : Nat) : Attempt.Balances input (ifStatement rules) p :=
  .needKeyword ((branches_balances hr _ _ (p + 1)).bind fun _ _ _ => .pure)

theorem whileStatement_balances (p : Nat) : Attempt.Balances input (whileStatement rules) p := by
  refine .needKeyword ((condition_balances hr _ (p + 1)).bind fun _ q _ => ?_)
  exact (bracedBlock_balances hr q).bind fun _ _ _ => .pure

/-! ## Declarations -/

omit hr in
theorem genericNamesFrom_balances : ∀ n p, Attempt.Balances input (genericNamesFrom n) p
  | 0, _ => .endless
  | n + 1, p => by
      refine .atEnd fun _ => .ite (fun _ => .pure) fun _ => ?_
      refine .current (.ite (fun _ => .pure) fun _ => .needIdentifier ?_)
      refine .current (.ite (fun _ => .pure) fun hcomma =>
        .advance (Token.not_isBrace_of_not_not (by decide) hcomma) ?_)
      exact (genericNamesFrom_balances n (p + 2)).bind fun _ _ _ => .pure

omit hr in
theorem genericNames_balances (p : Nat) : Attempt.Balances input (genericNames rules) p := by
  refine .current (.ite (fun _ => .pure) fun hopen =>
    .advance (Token.not_isBrace_of_not_not (by decide) hopen) ?_)
  exact (genericNamesFrom_balances _ (p + 1)).bind fun _ q _ => .needSymbol (by decide) .pure

theorem basesFrom_balances : ∀ n p, Parse.Balances input (basesFrom rules n) p
  | 0, _ => .endless
  | n + 1, p => by
      refine (typeExpression_balances hr p).run fun made q _ => ?_
      cases made with
      | none => exact Balances.reportFound.bind fun _ _ _ => .pure
      | some type =>
          refine .current (.ite (fun _ => .pure) fun hcomma =>
            .advance (Token.not_isBrace_of_not_not (by decide) hcomma) ?_)
          exact (basesFrom_balances n (q + 1)).bind fun _ _ _ => .pure

theorem bases_balances (p : Nat) : Parse.Balances input (bases rules) p :=
  .current (.ite (fun _ => .pure) fun hcolon =>
    .advance (Token.not_isBrace_of_not_not (by decide) hcolon) (basesFrom_balances hr _ (p + 1)))

/-- A method body goes on from statement to statement with the count of each. -/
theorem methodStatements_counts : ∀ n depth p d, 1 ≤ depth →
    Parse.Meets True input (methodStatements rules n depth) (.at p d) fun body t =>
      ∃ runs q e, t = .at q e ∧ body = runs.flatMap StatementRun.nodes ∧
        input.Counts rules depth p d runs q e
  | 0, _, _, _, _ => trivial
  | n + 1, depth, p, d, hdepth => by
      simp only [methodStatements, Parse.meets_bind, meets_atEnd]
      refine .ite (fun hend => ?_) fun _ => ?_
      · exact ⟨[], p, d, rfl, rfl, .nil hdepth (.inl (of_decide_eq_true hend))⟩
      simp only [Parse.meets_bind, meets_current]
      refine .ite (fun hclose => ?_) fun hgo => ?_
      · exact ⟨[], p, d, rfl, rfl, .nil hdepth (.inr (by simpa using hclose))⟩
      have hstay : ¬ ((input.tokenAt p).isSymbol closeBrace = true ∧ depth = 1) := by
        simpa using hgo
      simp only [Parse.meets_bind, Parse.meets_pure]
      have hstep : Parse.Meets True input (statement rules [openBrace, closeBrace]) (.at p d)
          fun nodes t => ∃ q e, t = .at q e ∧ input.Steps depth p d
            ((input.tokenAt p).depthBehind depth) q e ⟨.at p d, nodes, .at q e⟩ := by
        by_cases hbrace : (input.tokenAt p).IsBrace
        · refine (statement_steps hr hbrace d).mono fun nodes t => ?_
          rintro ⟨-, x, -, rfl⟩
          exact ⟨p + 1, _, rfl, .brace hbrace hdepth hstay⟩
        · refine (statement_balances hr (by simp) hbrace d).mono fun nodes t => ?_
          rintro ⟨q, e, rfl, hkeeps⟩
          exact ⟨q, e, rfl, .flat hkeeps hbrace hdepth⟩
      refine hstep.run.mono fun nodes t => ?_
      rintro ⟨⟨q, e, rfl, hsteps⟩, hrun⟩
      refine (methodStatements_counts n _ q e (Token.one_le_depthBehind hdepth hstay)).mono
        fun rest t => ?_
      rintro ⟨runs, r, f, rfl, rfl, hcounts⟩
      exact ⟨_, r, f, rfl, rfl, .cons hrun hsteps hcounts⟩

/-- A method body ends behind the closing brace that its count ends at, or with the input. -/
theorem methodBody_counts (p : Nat) (d : Array Diagnostic) :
    Parse.Meets True input (methodBody rules) (.at p d) fun body t => ∃ runs q e,
      body = runs.flatMap StatementRun.nodes ∧ input.Counts rules 1 (p + 1) d runs q e ∧
        ((input.tokenAt q).isSymbol closeBrace = true ∧ t = .at (q + 1) e ∨
          input.size ≤ q ∧ ∃ x, t = .at q (e.push x)) := by
  simp only [methodBody, Parse.meets_bind, meets_advance]
  refine (methodStatements_counts hr _ 1 (p + 1) d (Nat.le_refl 1)).mono fun body t => ?_
  rintro ⟨runs, q, e, rfl, rfl, hcounts⟩
  simp only [meets_current]
  refine .ite (fun hclose => ?_) fun hclose => ?_
  · exact ⟨runs, q, e, rfl, hcounts, .inl ⟨hclose, rfl⟩⟩
  · have hend : input.size ≤ q := hcounts.closed.resolve_right fun h => hclose h.1
    simp only [Parse.meets_bind, meets_report, Parse.meets_pure]
    exact ⟨runs, q, e, rfl, hcounts, .inr ⟨hend, _, rfl⟩⟩

/-- A method body takes its braces in pairs, unless the input ends within it. -/
theorem methodBody_balances (hopen : (input.tokenAt p).isSymbol openBrace = true) :
    Parse.Balances input (methodBody rules) p := by
  intro d
  refine (methodBody_counts hr p d).mono fun body t => ?_
  rintro ⟨runs, q, e, -, hcounts, ⟨hclose, rfl⟩ | ⟨hend, x, rfl⟩⟩
  · exact ⟨q + 1, e, rfl, hcounts.keeps.braced hopen hclose⟩
  · exact (Input.Kept.here (.push (.refl e) x)).trans (hcounts.keeps.unclosed hopen hend)

omit hr in
theorem memberModifiers_balances : ∀ n p, Parse.Balances input (memberModifiers n) p
  | 0, _ => .endless
  | n + 1, p => by
      refine .current (.ite (fun hmodifier => .advance ?_ ?_) fun _ => .pure)
      · have hkind : (input.tokenAt p).kind = Kind.keyword :=
          of_decide_eq_true (Bool.and_eq_true_iff.mp hmodifier).1
        exact Token.not_isBrace_of_kind (by rw [hkind]; decide)
      · exact (memberModifiers_balances n (p + 1)).bind fun _ _ _ => .pure

section Members

variable {mods : List String} {type : TypeExpr} {name : String} {offset : Nat}

theorem method_balances (p : Nat) :
    Attempt.Balances input (method rules mods type name offset) p := by
  refine (Attempt.Balances.liftM (arguments_balances hr p)).bind fun _ q _ => ?_
  refine .current (.ite (fun hopen => ?_) fun _ =>
    .ite (fun hend => .advance (Token.not_isBrace_of_symbol (by decide) hend) .pure) fun _ => ?_)
  · exact (Attempt.Balances.liftM (methodBody_balances hr hopen)).bind fun _ _ _ => .pure
  · exact (Attempt.Balances.liftM Balances.report).bind fun _ _ _ => .failure

theorem memberRest_balances (p : Nat) :
    Attempt.Balances input (memberRest rules mods type name offset) p := by
  refine .current (.ite (fun _ => method_balances hr p) fun _ =>
    .ite (fun hend => .advance (Token.not_isBrace_of_symbol (by decide) hend) .pure) fun _ => ?_)
  exact (Attempt.Balances.liftM Balances.report).bind fun _ _ _ => .failure

end Members

/-- Only the body of a method takes braces, or that of a class. -/
theorem member_balances (p : Nat) : Attempt.Balances input (member rules) p := by
  refine .current ((Attempt.Balances.liftM (memberModifiers_balances _ p)).bind fun mods q _ => ?_)
  refine .current (.ite (fun _ => ?_) fun _ => ?_)
  · exact (hr.classDeclaration mods q).bind fun _ _ _ => .pure
  refine (typeExpression_balances hr q).bindOrNone fun made r _ => ?_
  cases made with
  | none =>
      exact .current ((Attempt.Balances.liftM Balances.report).bind fun _ _ _ => .failure)
  | some type => exact .needIdentifier (memberRest_balances hr (r + 1))

omit hr in
theorem usingTarget_balances {isStatic : Bool} (p : Nat) :
    Attempt.Balances input (usingTarget rules isStatic) p := by
  have halias : Parse.Balances input usingAlias p := by
    intro d
    rw [meets_usingAlias]
    split
    · next hname =>
      have hequals : ¬ (input.tokenAt (p + 1)).IsBrace :=
        Token.not_isBrace_of_text (by rw [hname.2]; decide) (by rw [hname.2]; decide)
      exact ⟨p + 2, d, rfl, (Input.Keeps.next (Token.not_isBrace_of_identifier hname.1)).trans
        (.next hequals)⟩
    · exact .here (.refl d)
  refine (Attempt.Balances.lift halias).bind fun _ q _ => ?_
  refine (qualifiedName_balances q).bindOrNone fun made r _ => ?_
  cases made with
  | none =>
      exact .current ((Attempt.Balances.liftM Balances.report).bind fun _ _ _ => .failure)
  | some target =>
      exact (Attempt.Balances.liftM (Balances.close (by decide))).bind fun _ _ _ => .pure

omit hr in
theorem usingDirective_balances (p : Nat) :
    Attempt.Balances input (usingDirective rules) p := by
  refine .needKeyword (.current (.ite (fun hword => .advance ?_ ?_) fun _ => ?_))
  · exact Token.not_isBrace_of_keyword hword
  · exact usingTarget_balances (p + 2)
  · exact usingTarget_balances (p + 1)

theorem bodyMember_balances (inNamespace : Bool) (p : Nat) :
    Attempt.Balances input (bodyMember rules inNamespace) p := by
  refine .current (.ite (fun _ => ?_) fun _ => member_balances hr p)
  exact (usingDirective_balances p).bind fun _ _ _ => .pure

omit hr in
/-- A symbol begins no type, which is said without a report. -/
theorem typeExpression_declines (hkind : (input.tokenAt p).kind = Kind.symbol)
    (d : Array Diagnostic) :
    Attempt.Meets True input (typeExpression rules) (.at p d) (fun _ _ => False)
      (· = .at p d) := by
  have hkinds : Kind.symbol ≠ .keyword ∧ Kind.symbol ≠ .identifier := by decide
  simp [typeExpression, qualifiedName, hkind, hkinds.1, hkinds.2]

omit hr in
/-- Nothing is made of an opening brace among members, and it is reported. -/
theorem bodyMember_declines (inNamespace : Bool)
    (hopen : (input.tokenAt p).isSymbol openBrace = true) (d : Array Diagnostic) :
    Attempt.Meets True input (bodyMember rules inNamespace) (.at p d) (fun _ _ => False)
      fun t => ∃ x : Diagnostic, x.offset = (input.tokenAt p).offset ∧ t = .at p (d.push x) := by
  have hkind : (input.tokenAt p).kind = Kind.symbol := (Token.isSymbol_iff.mp hopen).1
  have hword (word : String) : (input.tokenAt p).isKeyword word = false :=
    Token.isKeyword_eq_false_of_kind (by rw [hkind]; decide) word
  have hmodifiers : ∀ n, Parse.Meets True input (memberModifiers n) (.at p d)
      fun _ t => t = .at p d
    | 0 => trivial
    | n + 1 => by
        have hkeyword : Kind.symbol ≠ .keyword := by decide
        simp [memberModifiers, hkind, hkeyword]
  simp only [bodyMember, member, Attempt.meets_bind, Attempt.meets_ite, Attempt.meets_liftM,
    meets_current, hword, Bool.and_false]
  refine (hmodifiers _).mono fun mods t => ?_
  rintro rfl
  simp only [meets_current, hword, Attempt.meets_orNone]
  refine (typeExpression_declines hkind d).mono (fun _ _ => False.elim) ?_
  rintro _ rfl
  simp only [Attempt.meets_bind, Attempt.meets_liftM, meets_current, meets_report,
    Attempt.meets_failure]
  exact ⟨_, rfl, rfl⟩

/-- A member keeps the level; at an opening brace it is the brace, with a report at it. -/
theorem member_kept (inNamespace : Bool)
    (hclose : ¬ (input.tokenAt p).isSymbol closeBrace = true) (d : Array Diagnostic) :
    Parse.Meets True input (bodyMember rules inNamespace).run (.at p d) fun _ t =>
      Parse.Meets True input (recover ⟨p, d.size⟩ [closeBrace]) t fun _ => input.Kept p d := by
  rw [Attempt.meets_run]
  by_cases hopen : (input.tokenAt p).isSymbol openBrace = true
  · refine (bodyMember_declines inNamespace hopen d).mono (fun _ _ => False.elim) ?_
    rintro _ ⟨x, hx, rfl⟩
    rw [recover, Parse.meets_bind, meets_get]
    exact .ite (fun _ => ⟨p + 1, _, rfl, .reported hopen hx⟩) fun hne => absurd rfl hne
  · have hflat : ¬ (input.tokenAt p).IsBrace := not_or.mpr ⟨hopen, hclose⟩
    have hbehind : ∀ t, input.Kept p d t →
        Parse.Meets True input (recover ⟨p, d.size⟩ [closeBrace]) t fun _ => input.Kept p d := by
      rintro _ ⟨q, e, rfl, hkeeps⟩
      exact recover_kept hkeeps (List.mem_singleton_self _) fun _ => hflat
    exact (bodyMember_balances hr inNamespace p d).mono (fun _ => hbehind) hbehind

/-- The members of a body leave the cursor where it may be closed. -/
theorem membersFrom_closes (inNamespace : Bool) : ∀ n p,
    Parse.Closes input (membersFrom rules inNamespace n) p
  | 0, _, _ => trivial
  | n + 1, p, d => by
      simp only [membersFrom, Parse.meets_bind, meets_atEnd]
      refine .ite (fun hend => ?_) fun _ => ?_
      · exact ⟨p, d, rfl, .here (.refl d), .inl (of_decide_eq_true hend)⟩
      simp only [Parse.meets_bind, meets_current]
      refine .ite (fun hclose => ?_) fun hgo => ?_
      · exact ⟨p, d, rfl, .here (.refl d), .inr hclose⟩
      simp only [Parse.meets_bind, Parse.meets_pure, meets_mark]
      refine (member_kept hr inNamespace hgo d).mono fun made t ht => ht.mono fun _ t => ?_
      rintro ⟨q, e, rfl, hkeeps⟩
      refine (membersFrom_closes inNamespace n q e).mono fun _ t => ?_
      rintro ⟨r, f, rfl, hkeeps', hend⟩
      exact ⟨r, f, rfl, hkeeps.trans hkeeps', hend⟩

theorem classDeclaration_balances (mods : List String) (p : Nat) :
    Attempt.Balances input (classDeclaration rules mods) p := by
  refine .current (.needKeyword (.needIdentifier ?_))
  refine (genericNames_balances (p + 2)).bind fun _ q _ => ?_
  refine (Attempt.Balances.liftM (bases_balances hr q)).bind fun _ r _ => ?_
  exact .braced (membersFrom_closes hr false _ _) fun _ _ => .pure

theorem namespaceDeclaration_balances (p : Nat) :
    Attempt.Balances input (namespaceDeclaration rules) p := by
  refine .current (.needKeyword ((qualifiedName_balances (p + 1)).bindOrNone fun made q _ => ?_))
  cases made with
  | none => exact (Attempt.Balances.liftM Balances.reportFound).bind fun _ _ _ => .failure
  | some name =>
      refine .current (.ite
        (fun hend => .advance (Token.not_isBrace_of_symbol (by decide) hend) .pure) fun _ => ?_)
      exact .braced (membersFrom_closes hr true _ _) fun _ _ => .pure

/-! ## Expressions -/

omit hr in
theorem templateLiteral_balances (p : Nat) : Attempt.Balances input templateLiteral p := by
  refine .current (.ite (fun _ => .failure_bind) fun hkind => .advance ?_ .pure)
  exact Token.not_isBrace_of_kind (by rw [Decidable.not_not.mp hkind]; decide)

omit hr in
theorem postfixes_balances : ∀ n operand p, Parse.Balances input (postfixes n operand) p
  | 0, _, _ => .endless
  | n + 1, operand, p => by
      refine .current (.ite (fun hsign => .advance ?_ (postfixes_balances n _ (p + 1)))
        fun _ => .pure)
      rcases Bool.or_eq_true_iff.mp hsign with hplus | hminus
      · exact Token.not_isBrace_of_symbol (by decide) hplus
      · exact Token.not_isBrace_of_symbol (by decide) hminus

theorem identifierExpression_balances (p : Nat) :
    Attempt.Balances input (identifierExpression rules) p := by
  refine (accessChain_balances hr p).bind fun chain q _ => ?_
  refine (Attempt.Balances.liftM (postfixes_balances _ _ q)).bind fun left r _ => ?_
  refine .current (.ite (fun _ => .pure) fun hsign =>
    .advance (Token.not_isBrace_of_not_not (by decide) hsign) ?_)
  exact (hr.expression 0 (r + 1)).bind fun _ _ _ => .pure

theorem parenthesized_balances (hopen : (input.tokenAt p).isSymbol "(" = true) :
    Attempt.Balances input (parenthesized rules) p := by
  refine .advance (Token.not_isBrace_of_symbol (by decide) hopen) ?_
  exact (hr.expression 0 (p + 1)).bind fun _ q _ => .needSymbol (by decide) .pure

omit hr in
theorem extensionExpression_balances {token : Token} (p : Nat) :
    Attempt.Balances input (extensionExpression .none rules token) p := by
  intro d
  simp only [extensionExpression, Hooks.none, firstExtension, Attempt.meets_bind,
    Attempt.meets_liftM, meets_cursor, Attempt.meets_orNone, Attempt.meets_failure,
    meets_reportAt]
  exact .here (.push (.refl d) _)

/-- What stands for an operand takes braces in pairs. -/
theorem primary_balances (p : Nat) : Attempt.Balances input (primary .none rules) p := by
  refine .current (.ite (fun hliteral => .advance ?_ .pure) fun _ => ?_)
  · refine Token.not_isBrace_of_kind fun hsymbol => ?_
    rw [hsymbol] at hliteral
    exact absurd hliteral (by decide)
  refine .ite (fun _ => identifierExpression_balances hr p) fun _ => ?_
  refine .ite (fun hopen => parenthesized_balances hr hopen) fun _ => ?_
  refine .ite (fun _ => (classDeclaration_balances hr [] p).map) fun _ => ?_
  refine .ite (fun _ => (usingDirective_balances p).map) fun _ => ?_
  refine .ite (fun _ => namespaceDeclaration_balances hr p) fun _ => ?_
  refine .ite (fun _ => templateLiteral_balances p) fun _ => ?_
  refine .ite (fun _ => ifStatement_balances hr p) fun _ => ?_
  refine .ite (fun _ => whileStatement_balances hr p) fun _ => ?_
  refine .ite (fun _ => ?_) fun _ => extensionExpression_balances p
  exact (Attempt.Balances.liftM Balances.reportAt).bind fun _ _ _ => .failure

theorem operand_balances (p : Nat) : Attempt.Balances input (operand .none rules) p := by
  refine .current (.ite (fun hsign => .advance ?_ ?_) fun _ => primary_balances hr p)
  · have hprefix : prefixOperators.contains (input.tokenAt p).text = true :=
      (Bool.and_eq_true_iff.mp hsign).2
    refine Token.not_isBrace_of_text (fun htext => ?_) fun htext => ?_ <;>
      exact absurd (htext ▸ hprefix) (by decide)
  · exact (hr.expression _ (p + 1)).bind fun _ _ _ => .pure

/-- No operator is a brace. -/
theorem operators_balances (minimum : Nat) : ∀ n left p,
    Parse.Balances input (operators rules minimum n left) p
  | 0, _, _ => .endless
  | n + 1, left, p => by
      refine .current (.ite (fun _ => .pure) fun _ => ?_)
      split
      · exact .pure
      next hoperator =>
        refine .ite (fun _ => .pure) fun _ => .advance ?_ ?_
        · have hbraces : binaryPrecedence? openBrace = none ∧
              binaryPrecedence? closeBrace = none := by decide
          refine Token.not_isBrace_of_text (fun htext => ?_) fun htext => ?_
          · rw [htext, hbraces.1] at hoperator
            cases hoperator
          · rw [htext, hbraces.2] at hoperator
            cases hoperator
        · refine (hr.expression _ (p + 1)).run fun made q _ => ?_
          cases made with
          | none => exact .pure
          | some right => exact operators_balances minimum n _ q

/-- An expression keeps the level where its operands do. -/
theorem expression_balances (minimum p : Nat) :
    Attempt.Balances input (expression .none rules minimum) p :=
  (operand_balances hr p).bind fun left q _ => .liftM (operators_balances hr minimum _ left q)

end Rules

/-! ## Rules of every level -/

/-- All levels of a parser without plugins keep the level. -/
theorem Rules.balance_ofDepth (budget : Nat) : ∀ depth,
    (Rules.ofDepth .none budget depth).Balance input
  | 0 => {
      expression := fun _ _ => .endless
      classDeclaration := fun _ _ => .endless
      typeExpression := fun _ => .endless
      brace := fun _ _ _ => trivial }
  | depth + 1 =>
    have hr := Rules.balance_ofDepth budget depth
    { expression := expression_balances hr
      classDeclaration := classDeclaration_balances hr
      typeExpression := typeExpression_balances hr
      brace := fun _ _ hbrace =>
        Rules.expression_brace rfl hbrace Input.seen?_natCast budget 0 (depth + 1) }

/-! ## Method bodies and the braces that match theirs -/

namespace Input

variable {m : Nat} {runs : List StatementRun}

/-- A method body does not go past the closing brace that matches its own. -/
theorem Counts.le_match (h : input.Counts rules 1 (p + 1) d runs q e) (hmatch : input.Matches p m) :
    q ≤ m := by
  have hfirst := level_open hmatch.opens
  refine Nat.le_of_not_lt fun hlt => ?_
  have habove := h.above (m + 1) (Nat.succ_le_succ (Nat.le_of_lt hmatch.lt)) hlt
  have heven := hmatch.even
  omega

/-- Behind a method body that the input goes on behind, the level comes back just if its statements
are even. -/
theorem Counts.level_iff (h : input.Counts rules 1 (p + 1) d runs q e)
    (hopen : (input.tokenAt p).isSymbol openBrace = true) (hgo : ¬ input.size ≤ q) :
    input.level q = input.level p + 1 ↔ ∀ run ∈ runs, run.Even input := by
  obtain ⟨-, hlevel⟩ := h.closed.resolve_left hgo
  have hfirst := level_open hopen
  rw [← hlevel]
  omega

/-- The closing brace that a method body ends at is the one that matches its own just if the level
there is one above that of the body. -/
theorem Matches.eq_iff (hmatch : input.Matches p m) (hpq : p < q) (hqm : q ≤ m)
    (hclose : (input.tokenAt q).isSymbol closeBrace = true) :
    q = m ↔ input.level q = input.level p + 1 := by
  have hlast := level_close hclose
  constructor
  · rintro rfl
    have heven := hmatch.even
    omega
  · intro hlevel
    refine Nat.le_antisymm hqm (Nat.le_of_not_lt fun hlt => ?_)
    have hinside := hmatch.inside (q + 1) (Nat.lt_succ_of_lt hpq) hlt
    omega

end Input

/-- **Where a method body ends.** Without plugins a method body that is begun at an opening brace
with a matching closing brace ends behind a closing brace, whatever its statements are, and never
behind the matching one. It ends behind that one just if all of its statements are even. One that is
not has reported something at an opening brace inside of it and stepped over that brace. -/
theorem methodBody_ends_at_match {tokens : List Token} {source : SourceText} {aliases : Aliases}
    {p m : Nat} (hmatch : (Input.ofTokens tokens source).Matches p m) (d : Array Diagnostic) :
    let parser := Parser.new tokens source aliases
    ∃ runs q e,
      (parser.resumed p d).run methodBody =
        (.ok (runs.flatMap StatementRun.nodes), parser.resumed (q + 1) e) ∧
      Statements parser.input parser.rules [openBrace, closeBrace] (.at (p + 1) d) runs (.at q e) ∧
      (parser.input.tokenAt q).isSymbol closeBrace = true ∧ q ≤ m ∧
      (q = m ↔ ∀ run ∈ runs, run.Even parser.input) ∧
      ∀ run ∈ runs, run.Even parser.input ∨ run.SkipsBrace parser.input := by
  intro parser
  have hr : parser.rules.Balance parser.input := Rules.balance_ofDepth _ _
  have hsize : m < parser.input.size := Input.lt_size_of_isSymbol hmatch.closes
  obtain ⟨hprogress, hdepth⟩ := Parser.rules_progress parser Hooks.progress_none p
  have hreaches := methodBody_reaches hprogress (Nat.lt_trans hmatch.lt hsize) (Nat.le_of_lt hdepth)
  obtain ⟨body, t, hrun, -⟩ := Parser.run_of_meets methodBody (hreaches d)
  obtain ⟨runs, q, e, rfl, hcounts, hend⟩ := Parser.post_of_run (methodBody_counts hr p d) hrun
  have hqm : q ≤ m := hcounts.le_match hmatch
  have hgo : ¬ parser.input.size ≤ q := by omega
  obtain ⟨hclose, rfl⟩ := hend.resolve_right fun h => hgo h.1
  refine ⟨runs, q, e, hrun, hcounts.statements, hclose, hqm, ?_, fun run hmem => ?_⟩
  · exact (hmatch.eq_iff hcounts.le hqm hclose).trans (hcounts.level_iff hmatch.opens hgo)
  · exact (hcounts.uneven run hmem).imp_right fun h => (h.resolve_left hgo).1

/-- A method body with a call that is not closed, stray braces and an open condition. -/
theorem methodBody_ends_at_match_broken :
    let tokens : List Token := [⟨.symbol, openBrace, 0⟩, ⟨.identifier, "f", 1⟩, ⟨.symbol, "(", 2⟩,
      ⟨.symbol, ";", 3⟩, ⟨.symbol, openBrace, 4⟩, ⟨.symbol, ")", 5⟩, ⟨.symbol, closeBrace, 6⟩,
      ⟨.keyword, "if", 7⟩, ⟨.symbol, "(", 9⟩, ⟨.identifier, "a", 10⟩, ⟨.symbol, openBrace, 11⟩,
      ⟨.symbol, closeBrace, 12⟩, ⟨.symbol, closeBrace, 13⟩]
    let parser := Parser.new tokens (.ofText "\x7bf(;\x7b)\x7dif(a\x7b\x7d\x7d" "main.cs") .builtin
    parser.input.Matches 0 12 ∧ ∃ (runs : List StatementRun) (reported : Array Diagnostic),
      (parser.resumed 0 #[]).run methodBody =
        (.ok (runs.flatMap StatementRun.nodes), parser.resumed 13 reported) ∧
      reported ≠ #[] ∧ ∀ run ∈ runs, run.Even parser.input := by
  intro tokens parser
  have hmatch : parser.input.Matches 0 12 := by decide
  have hcursor : ((parser.resumed 0 #[]).run methodBody).2.state.cursor = 13 := by decide +kernel
  have hreported : ((parser.resumed 0 #[]).run methodBody).2.diagnostics.isEmpty = false := by
    decide +kernel
  obtain ⟨runs, q, e, hrun, -, -, -, heven, -⟩ := methodBody_ends_at_match hmatch #[]
  have hends : (parser.resumed 0 #[]).run methodBody =
      (.ok (runs.flatMap StatementRun.nodes), parser.resumed (q + 1) e) := hrun
  rw [hends] at hcursor hreported
  have hplace : ((q + 1 : Nat) : Int) = 13 := hcursor
  obtain rfl : q = 12 := by omega
  refine ⟨hmatch, runs, e, hends, ?_, heven.mp rfl⟩
  rintro rfl
  exact Bool.noConfusion hreported

/-- It is not so that a method body always ends at the brace that matches its own: the loop over the
statements of a block steps over an opening brace that begins none, and the block ends a brace too
early. -/
theorem methodBody_ends_early : ¬ ∀ (tokens : List Token) (source : SourceText) (aliases : Aliases)
    (p m : Nat), (Input.ofTokens tokens source).Matches p m → ∃ body reported,
      ((Parser.new tokens source aliases).resumed p #[]).run methodBody =
        (.ok body, (Parser.new tokens source aliases).resumed (m + 1) reported) := by
  intro hclaim
  let tokens : List Token := [⟨.symbol, openBrace, 0⟩, ⟨.keyword, "while", 1⟩, ⟨.symbol, "(", 6⟩,
    ⟨.identifier, "a", 7⟩, ⟨.symbol, ")", 8⟩, ⟨.symbol, openBrace, 9⟩, ⟨.symbol, openBrace, 10⟩,
    ⟨.symbol, closeBrace, 11⟩, ⟨.symbol, closeBrace, 12⟩, ⟨.symbol, closeBrace, 13⟩]
  let parser := Parser.new tokens (.ofText "\x7bwhile(a)\x7b\x7b\x7d\x7d\x7d" "main.cs") .builtin
  have hmatch : parser.input.Matches 0 9 := by decide
  have hcursor : ((parser.resumed 0 #[]).run methodBody).2.state.cursor = 9 := by decide +kernel
  obtain ⟨body, reported, hrun⟩ := hclaim tokens _ .builtin 0 9 hmatch
  rw [hrun] at hcursor
  have hends : (10 : Int) = 9 := hcursor
  exact absurd hends (by decide)

end SharpSyntax
