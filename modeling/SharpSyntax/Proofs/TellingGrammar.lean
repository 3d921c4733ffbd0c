import SharpSyntax.Plugin.Extras
import SharpSyntax.Proofs.CoupledGrammar
import SharpSyntax.Proofs.Tells

/-!
# Every routine of the grammar reports in order

One lemma to a routine. Where a routine is only begun at a token that nothing was reported about, it
is said to begin `false`; one that begins `true` may be begun at a reported token, and either steps
over it or says of it what may be said again.

Loops over statements and members recover after each round, so that a round begins at a token that
was not reported. The one exception is the loop over the statements of a method body, which goes on
at a brace that it may have reported: a brace begins no expression, so that all that is said is that
it was not expected.
-/

namespace SharpSyntax

open Parse Attempt Grammar

variable {input : Input} {rules : Rules} {p o : Nat} {d e : Array Diagnostic} {before : Bool}

/-! ## Names and types -/

/-- A missing name is reported at the token behind the dot. -/
theorem nameTail_tells : ∀ n p, Parse.Tells input (nameTail n) p false true
  | 0, _ => .endless
  | n + 1, p => by
      refine .current (.ite (fun _ => .pure) fun _ => .advance ?_)
      refine .require nofun (fun _ => .ite (fun _ => .pure) fun _ => ?_)
        (.ite (fun _ => .pure) fun hne => absurd rfl hne)
      exact .consume ((nameTail_tells n (p + 2)).bind fun _ _ _ => .pure)

theorem qualifiedName_tells (p : Nat) :
    Attempt.Tells input (qualifiedName rules) p false true false := by
  refine .current (.ite (fun _ => .failure_bind) fun _ => .advance ?_)
  exact (Attempt.Tells.liftM (nameTail_tells _ (p + 1))).bind fun _ _ _ => .pure

/-- The rules report in order. An expression may be begun at a brace that was reported, and a class
at its own word, reported or not. -/
structure Rules.Tell (input : Input) (rules : Rules) : Prop where
  expression : ∀ minimum p before, (before = true → (input.tokenAt p).IsBrace) →
    Attempt.Tells input (rules.expression minimum) p before true true
  classDeclaration : ∀ mods p, (input.tokenAt p).isKeyword "class" = true →
    Attempt.Tells input (rules.classDeclaration mods) p true true true
  typeExpression : ∀ p, Attempt.Tells input rules.typeExpression p false true false

section Rules

variable (hr : rules.Tell input)

include hr

/-- An expression that is begun at a token of which nothing was said. -/
theorem Rules.Tell.fresh (minimum p : Nat) :
    Attempt.Tells input (rules.expression minimum) p false true true :=
  hr.expression minimum p false nofun

/-- A type that is missing is reported where it should begin. -/
theorem typeListFrom_tells : ∀ n p, Parse.Tells input (typeListFrom rules n) p false true
  | 0, _ => .endless
  | n + 1, p => by
      refine .atEnd fun _ => .ite (fun _ => .pure) fun _ => ?_
      refine (hr.typeExpression p).run (fun q _ => ?_) fun type q _ => ?_
      · exact Tells.reportFound.bind fun _ _ _ => .pure
      · refine .current (.ite (fun _ => .pure) fun _ => .advance ?_)
        exact (typeListFrom_tells n (q + 1)).bind fun _ _ _ => .pure

theorem genericArguments_tells (p : Nat) :
    Parse.Tells input (genericArguments rules) p true true := by
  refine .current (.ite (fun _ => .pure) fun _ => .advance ?_)
  refine (typeListFrom_tells hr _ (p + 1)).bind fun _ q _ => ?_
  have hclose : "Expected > to close type list at %POS got %TYPE: %VAL" ∈ closingTemplates := by
    simp [closingTemplates]
  exact (Tells.close (.closing hclose)).bind fun _ _ _ => .pure

/-- What cannot begin a type is left unreported for the caller. -/
theorem typeExpression_tells (p : Nat) :
    Attempt.Tells input (typeExpression rules) p false true false := by
  refine .current (.ite (fun _ => .advance ?_) fun _ => ?_)
  · exact (Attempt.Tells.liftM (genericArguments_tells hr (p + 1)).anyway).bind fun _ _ _ => .pure
  · refine (qualifiedName_tells p).bind fun _ q _ => ?_
    exact (Attempt.Tells.liftM (genericArguments_tells hr q)).bind fun _ _ _ => .pure

/-! ## Access chains and arguments -/

/-- A broken argument ends the list at the token that was reported. -/
theorem argumentsFrom_tells : ∀ n p, Parse.Tells input (argumentsFrom rules n) p false true
  | 0, _ => .endless
  | n + 1, p => by
      refine .atEnd fun _ => .ite (fun _ => .pure) fun _ => ?_
      refine .current (.ite (fun _ => .pure) fun _ => ?_)
      refine (hr.fresh 0 p).run (fun q _ => .pure) fun _ q _ => ?_
      refine .current (.ite (fun _ => .pure) fun _ => .advance ?_)
      exact (argumentsFrom_tells n (q + 1)).bind fun _ _ _ => .pure

/-- What an argument ended in a report about may be reported as not closing the list. -/
theorem arguments_tells (hopen : (input.tokenAt p).isSymbol "(" = true) :
    Parse.Tells input (arguments rules) p true true := by
  have hclose : "Expected closing parenthesis for argument list at %POS, got %TYPE: %VAL." ∈
      closingTemplates := by simp [closingTemplates]
  refine .require_found hopen (.ite (fun _ => .pure) fun _ => .advance ?_)
  refine (argumentsFrom_tells hr _ (p + 1)).bind fun _ q _ => ?_
  exact (Tells.close (.closing hclose)).bind fun _ _ _ => .pure

/-- The steps of a chain may begin at a reported token: it is stepped over, or the chain ends. -/
theorem accesses_tells : ∀ n p, Parse.Tells input (accesses rules n) p true true
  | 0, _ => .endless
  | n + 1, p => by
      refine .current (.ite (fun _ => .advance ?_) fun _ => .ite (fun _ => .advance ?_) fun _ =>
        .ite (fun hopen => ?_) fun _ => .pure)
      · refine .require nofun (fun _ => .ite (fun _ => .pure) fun _ => .consume ?_)
          (.ite (fun _ => .pure) fun hne => absurd rfl hne)
        exact (accesses_tells n (p + 2)).anyway.bind fun _ _ _ => .pure
      · have hclose : "Expected closing bracket in access expression at %POS, got %TYPE: %VAL." ∈
            closingTemplates := by simp [closingTemplates]
        refine (hr.fresh 0 (p + 1)).run (fun _ _ => .pure) fun _ q _ => ?_
        refine .require (fun _ => .closing hclose)
          (fun _ => .ite (fun _ => .pure) fun _ => .advance ?_)
          (.ite (fun _ => .pure) fun hne => absurd rfl hne)
        exact (accesses_tells n (q + 1)).anyway.bind fun _ _ _ => .pure
      · refine (arguments_tells hr hopen).bind fun _ q _ => ?_
        exact (accesses_tells n q).bind fun _ _ _ => .pure

theorem accessChain_tells (p : Nat) : Attempt.Tells input (accessChain rules) p true true true := by
  refine .current (.ite (fun _ => .failure_bind) fun _ => .advance ?_)
  exact (Attempt.Tells.liftM (accesses_tells hr _ (p + 1)).anyway).bind fun _ _ _ => .pure

/-! ## Statements -/

/-- After a statement the token under the cursor was not reported, unless it closes the body. -/
theorem statement_tells (stops : List String) (before : Bool)
    (hbrace : before = true → (input.tokenAt p).IsBrace) (ho : o ≤ p)
    (he : input.Reports o d (p + before.toNat) e) :
    Parse.Meets True input (statement rules stops) (.at p e)
      fun _ => input.Settled o d p e stops := by
  rw [statement, Parse.meets_bind, meets_mark]
  have hstatement : Parse.Tells input (do
      let node ← (rules.expression 0).run
      skip ";"
      return node) p before true :=
    (hr.expression 0 p before hbrace).run (fun _ _ => Tells.skip.bind fun _ _ _ => .pure)
      fun _ _ _ => Tells.skip.bind fun _ _ _ => .pure
  have hmeets := hstatement o d e ho he
  simp only [Parse.meets_bind, Parse.meets_pure] at hmeets ⊢
  refine hmeets.mono fun _ _ hmade => hmade.mono fun _ t => ?_
  rintro ⟨q, f, rfl, hpq, hef, hf⟩
  exact recover_settles before ho he hpq hef hf

/-- Behind recovery the token under the cursor was not reported, or it closes a body. -/
theorem statement_settles (stops : List String) (ho : o ≤ p) (he : input.Reports o d p e) :
    Parse.Meets True input (statement rules stops) (.at p e)
      fun _ => input.Settled o d p e stops :=
  statement_tells hr stops false nofun ho he

/-- Statements may be begun where recovery has left off: in front of a reported token only if that
token ends them. -/
theorem sequenceFrom_tells (terminator : Option String) : ∀ n {t p e}, o ≤ p →
    input.Settled o d p e terminator.toList t →
      Parse.Meets True input (sequenceFrom rules terminator n) t
        fun _ => input.Told o d p e true
  | 0, _, _, _, _, _ => trivial
  | n + 1, _, p, e, ho, ⟨q, f, rfl, hpq, hef, hf⟩ => by
      have hstop : input.Told o d p e true (.at q f) := ⟨q, f, rfl, hpq, hef, hf.last⟩
      simp only [sequenceFrom, Parse.meets_bind, meets_atEnd]
      refine .ite (fun _ => hstop) fun hgo => ?_
      simp only [Parse.meets_bind, meets_current]
      refine .ite (fun _ => hstop) fun hterminator => ?_
      simp only [Parse.meets_bind, Parse.meets_pure]
      have hoq : o ≤ q := Nat.le_trans ho hpq
      have hfresh : input.Reports o d q f := hf.fresh hgo hterminator
      refine (statement_settles hr _ hoq hfresh).mono fun _ t ht => ?_
      exact sequenceFrom_tells terminator n ho (ht.from_le hpq hef)

theorem block_tells (terminator : Option String) (p : Nat) :
    Parse.Tells input (block rules terminator) p false true :=
  fun _ _ _ ho he => sequenceFrom_tells hr terminator _ ho (.here he)

theorem bracedBlock_tells (p : Nat) :
    Attempt.Tells input (bracedBlock rules) p false true true := by
  have hclose : "Expected \"\x7d\" to close statement body at %POS, got %TYPE: %VAL" ∈
      closingTemplates := by simp [closingTemplates]
  refine .needSymbol nofun ((Attempt.Tells.liftM (block_tells hr _ (p + 1))).bind fun _ q _ => ?_)
  exact (Attempt.Tells.liftM (Tells.close (.closing hclose))).bind fun _ _ _ => .pure

/-- Behind the parenthesis that closes a condition nothing was reported yet. -/
theorem condition_tells (keyword : String) (p : Nat) :
    Attempt.Tells input (condition rules keyword) p false false true := by
  refine .needSymbol nofun ((hr.fresh 0 (p + 1)).bind fun _ q _ => ?_)
  exact .needSymbol (fun _ => .condition keyword) .pure_fresh

/-- A missing parenthesis or brace is reported where it should stand. -/
theorem branches_tells : ∀ n keyword p,
    Attempt.Tells input (branches rules keyword n) p false true true
  | 0, _, _ => .endless
  | n + 1, keyword, p => by
      refine (condition_tells hr keyword p).bind fun _ q _ => ?_
      refine (bracedBlock_tells hr q).bind fun _ r _ => ?_
      refine .current (.ite (fun _ => .pure) fun _ => .advance ?_)
      refine .current (.ite (fun _ => .advance ?_) fun _ => ?_)
      · exact (branches_tells n "else if" (r + 2)).bindOrNone (fun _ _ => .pure) fun _ _ _ => .pure
      · exact (bracedBlock_tells hr (r + 1)).bindOrNone (fun _ _ => .pure) fun _ _ _ => .pure

theorem ifStatement_tells (hword : (input.tokenAt p).isKeyword "if" = true) :
    Attempt.Tells input (ifStatement rules) p before true true :=
  .needKeyword hword ((branches_tells hr _ _ (p + 1)).bind fun _ _ _ => .pure)

theorem whileStatement_tells (hword : (input.tokenAt p).isKeyword "while" = true) :
    Attempt.Tells input (whileStatement rules) p before true true := by
  refine .needKeyword hword ((condition_tells hr _ (p + 1)).bind fun _ q _ => ?_)
  exact (bracedBlock_tells hr q).bind fun _ _ _ => .pure

/-! ## Declarations -/

omit hr in
theorem genericNamesFrom_tells : ∀ n p,
    Attempt.Tells input (genericNamesFrom n) p false false true
  | 0, _ => .endless
  | n + 1, p => by
      refine .atEnd fun _ => .ite (fun _ => .pure_fresh) fun _ => ?_
      refine .current (.ite (fun _ => .pure_fresh) fun _ => .needIdentifier nofun ?_)
      refine .current (.ite (fun _ => .pure_fresh) fun _ => .advance ?_)
      exact (genericNamesFrom_tells n (p + 2)).bind fun _ _ _ => .pure_fresh

omit hr in
theorem genericNames_tells (p : Nat) :
    Attempt.Tells input (genericNames rules) p false false true := by
  refine .current (.ite (fun _ => .pure_fresh) fun _ => .advance ?_)
  refine (genericNamesFrom_tells _ (p + 1)).bind fun _ q _ => ?_
  exact .needSymbol nofun .pure_fresh

/-- A base that is missing is reported where it should begin. -/
theorem basesFrom_tells : ∀ n p, Parse.Tells input (basesFrom rules n) p false true
  | 0, _ => .endless
  | n + 1, p => by
      refine (typeExpression_tells hr p).run (fun q _ => ?_) fun _ q _ => ?_
      · exact Tells.reportFound.bind fun _ _ _ => .pure
      · refine .current (.ite (fun _ => .pure) fun _ => .advance ?_)
        exact (basesFrom_tells n (q + 1)).bind fun _ _ _ => .pure

theorem bases_tells (p : Nat) : Parse.Tells input (bases rules) p false true :=
  .current (.ite (fun _ => .pure) fun _ => .advance (basesFrom_tells hr _ (p + 1)))

/-- The statements of a method body go on at a brace that may have been reported. -/
theorem methodStatements_tells : ∀ n depth {t p e}, o ≤ p →
    input.Settled o d p e [openBrace, closeBrace] t →
      Parse.Meets True input (methodStatements rules n depth) t fun _ => input.Told o d p e true
  | 0, _, _, _, _, _, _ => trivial
  | n + 1, depth, _, p, e, ho, ⟨q, f, rfl, hpq, hef, hf⟩ => by
      have hstop : input.Told o d p e true (.at q f) := ⟨q, f, rfl, hpq, hef, hf.last⟩
      simp only [methodStatements, Parse.meets_bind, meets_atEnd]
      refine .ite (fun _ => hstop) fun hgo => ?_
      simp only [Parse.meets_bind, meets_current]
      refine .ite (fun _ => hstop) fun _ => ?_
      simp only [Parse.meets_bind, Parse.meets_pure]
      have hoq : o ≤ q := Nat.le_trans ho hpq
      have hstatement : Parse.Meets True input (statement rules [openBrace, closeBrace]) (.at q f)
          fun _ => input.Settled o d q f [openBrace, closeBrace] := by
        rcases hf with hf | ⟨hf, hend | hbrace⟩
        · exact statement_settles hr _ hoq hf
        · exact absurd (decide_eq_true hend) hgo
        · refine statement_tells hr _ true (fun _ => ?_) hoq hf
          simpa [Token.IsBrace] using hbrace
      refine hstatement.mono fun _ t ht => ?_
      exact methodStatements_tells n _ ho (ht.from_le hpq hef)

/-- The closing brace that is missing is reported at the end of the tokens. -/
theorem methodBody_tells (p : Nat) : Parse.Tells input (methodBody rules) p before true := by
  have hstatements : Parse.Tells input (methodStatements rules rules.budget 1) (p + 1) false true :=
    fun _ _ _ ho he => methodStatements_tells hr _ _ ho (.here he)
  refine .advance (hstatements.bind fun _ q _ => .current ?_)
  refine .ite (fun _ => .advance .pure) fun _ => ?_
  exact (Tells.reportAgain .bodyEnd).bind fun _ _ _ => .pure

omit hr in
/-- Modifiers are taken and never reported. -/
theorem memberModifiers_tells : ∀ n p, Parse.Tells input (memberModifiers n) p false false
  | 0, _ => .endless
  | n + 1, p => by
      refine .current (.ite (fun _ => .advance ?_) fun _ => .pure_fresh)
      exact (memberModifiers_tells n (p + 1)).bind fun _ _ _ => .pure_fresh

theorem method_tells {mods : List String} {type : TypeExpr} {name : String} {offset : Nat}
    (hopen : (input.tokenAt p).isSymbol "(" = true) :
    Attempt.Tells input (method rules mods type name offset) p before true true := by
  refine (Attempt.Tells.liftM (arguments_tells hr hopen).anyway).bind fun _ q _ => ?_
  refine .current (.ite (fun _ => ?_) fun _ => .ite (fun _ => .advance .pure) fun _ => ?_)
  · exact (Attempt.Tells.liftM (methodBody_tells hr q)).bind fun _ _ _ => .pure
  · exact (Attempt.Tells.liftM (Tells.reportAgain .methodEnd)).bind fun _ _ _ => .failure

theorem memberRest_tells {mods : List String} {type : TypeExpr} {name : String} {offset p : Nat} :
    Attempt.Tells input (memberRest rules mods type name offset) p false true true := by
  refine .current (.ite (fun hopen => method_tells hr hopen) fun _ =>
    .ite (fun _ => .advance .pure) fun _ => ?_)
  exact (Attempt.Tells.liftM Tells.report).bind fun _ _ _ => .failure

/-- What begins no member is reported at the first token behind its modifiers. -/
theorem member_tells (p : Nat) : Attempt.Tells input (member rules) p false true true := by
  refine .current ((Attempt.Tells.liftM (memberModifiers_tells _ p)).bind fun mods q _ => ?_)
  refine .current (.ite (fun hword => ?_) fun _ => ?_)
  · exact (hr.classDeclaration mods q hword).anyway.bind fun _ _ _ => .pure
  refine (typeExpression_tells hr q).bindOrNone (fun r _ => .current ?_) fun type r _ => ?_
  · exact (Attempt.Tells.liftM Tells.report).bind fun _ _ _ => .failure
  · have hname : "Expected identifier for class/namespace member name at %POS got %TYPE: %VAL" ∈
        closingTemplates := by simp [closingTemplates]
    exact .needIdentifier (fun _ => .closing hname) (memberRest_tells hr)

omit hr in
theorem usingTarget_tells {isStatic : Bool} (p : Nat) :
    Attempt.Tells input (usingTarget rules isStatic) p false true true := by
  have halias : Parse.Tells input usingAlias p false false := by
    intro o d e ho he
    rw [meets_usingAlias]
    split
    · exact ⟨p + 2, e, rfl, by omega, .refl e, he.mono (by simp)⟩
    · exact .here he
  have hend : "Expected \";\" after using directive at %POS, got %TYPE: %VAL." ∈
      closingTemplates := by simp [closingTemplates]
  refine (Attempt.Tells.lift halias).bind fun _ q _ => ?_
  refine (qualifiedName_tells q).bindOrNone (fun r _ => .current ?_) fun _ r _ => ?_
  · exact (Attempt.Tells.liftM Tells.report).bind fun _ _ _ => .failure
  · exact (Attempt.Tells.liftM (Tells.close (.closing hend))).bind fun _ _ _ => .pure

omit hr in
/-- A directive takes its word before it reports anything. -/
theorem usingDirective_tells (hword : (input.tokenAt p).isKeyword "using" = true) :
    Attempt.Tells input (usingDirective rules) p before true true := by
  refine .needKeyword hword (.current (.ite (fun _ => .advance ?_) fun _ => ?_))
  · exact usingTarget_tells (p + 2)
  · exact usingTarget_tells (p + 1)

theorem bodyMember_tells (inNamespace : Bool) (p : Nat) :
    Attempt.Tells input (bodyMember rules inNamespace) p false true true := by
  refine .current (.ite (fun husing => ?_) fun _ => member_tells hr p)
  have hword : (input.tokenAt p).isKeyword "using" = true := (Bool.and_eq_true_iff.mp husing).2
  exact (usingDirective_tells hword).bind fun _ _ _ => .pure

/-- Members may be begun where recovery has left off, as statements may. -/
theorem membersFrom_tells (inNamespace : Bool) : ∀ n {t p e}, o ≤ p →
    input.Settled o d p e [closeBrace] t →
      Parse.Meets True input (membersFrom rules inNamespace n) t fun _ => input.Told o d p e true
  | 0, _, _, _, _, _ => trivial
  | n + 1, _, p, e, ho, ⟨q, f, rfl, hpq, hef, hf⟩ => by
      have hstop : input.Told o d p e true (.at q f) := ⟨q, f, rfl, hpq, hef, hf.last⟩
      simp only [membersFrom, Parse.meets_bind, meets_atEnd]
      refine .ite (fun _ => hstop) fun hgo => ?_
      simp only [Parse.meets_bind, meets_current]
      refine .ite (fun _ => hstop) fun hclose => ?_
      have hfresh : input.Reports o d (q + false.toNat) f := hf.fresh hgo (by simpa using hclose)
      have hoq : o ≤ q := Nat.le_trans ho hpq
      simp only [Parse.meets_bind, meets_mark, Parse.meets_pure]
      have hmember : Parse.Tells input (bodyMember rules inNamespace).run q false true :=
        bind_pure (bodyMember rules inNamespace).run ▸
          (bodyMember_tells hr inNamespace q).run (fun _ _ => .pure) fun _ _ _ => .pure
      refine (hmember o d f hoq hfresh).mono fun made t => ?_
      rintro ⟨r, g, rfl, hqr, hfg, hg⟩
      refine (recover_settles false hoq hfresh hqr hfg hg).mono fun _ t ht => ?_
      exact membersFrom_tells inNamespace n ho (ht.from_le hpq hef)

theorem members_tells (inNamespace : Bool) (p : Nat) :
    Parse.Tells input (membersFrom rules inNamespace rules.budget) p false true :=
  fun _ _ _ ho he => membersFrom_tells hr inNamespace _ ho (.here he)

/-- A class takes its word before it reports anything. -/
theorem classDeclaration_tells {mods : List String}
    (hword : (input.tokenAt p).isKeyword "class" = true) :
    Attempt.Tells input (classDeclaration rules mods) p before true true := by
  have hopen : "Expected \"\x7b\" to start class body at %POS, got %TYPE: %VAL" ∈
      closingTemplates := by simp [closingTemplates]
  have hclose : "Expected \"\x7d\" to close class body at %POS, got %TYPE: %VAL" ∈
      closingTemplates := by simp [closingTemplates]
  refine .current (.needKeyword hword (.needIdentifier nofun ?_))
  refine (genericNames_tells (p + 2)).bind fun _ q _ => ?_
  refine (Attempt.Tells.liftM (bases_tells hr q)).bind fun _ r _ => ?_
  refine .needSymbol (fun _ => .closing hopen) ?_
  refine (Attempt.Tells.liftM (members_tells hr false (r + 1))).bind fun _ u _ => ?_
  exact (Attempt.Tells.liftM (Tells.close (.closing hclose))).bind fun _ _ _ => .pure

theorem namespaceDeclaration_tells (hword : (input.tokenAt p).isKeyword "namespace" = true) :
    Attempt.Tells input (namespaceDeclaration rules) p before true true := by
  have hopen : "Expected \"\x7b\" to start namespace body at %POS, got %TYPE: %VAL" ∈
      closingTemplates := by simp [closingTemplates]
  have hclose : "Expected \"\x7d\" to close namespace body at %POS, got %TYPE: %VAL" ∈
      closingTemplates := by simp [closingTemplates]
  refine .current (.needKeyword hword ?_)
  refine (qualifiedName_tells (p + 1)).bindOrNone (fun q _ => ?_) fun _ q _ => ?_
  · exact (Attempt.Tells.liftM Tells.reportFound).bind fun _ _ _ => .failure
  refine .current (.ite (fun _ => .advance .pure) fun _ => ?_)
  refine .needSymbol (fun _ => .closing hopen) ?_
  refine (Attempt.Tells.liftM (members_tells hr true (q + 1))).bind fun _ r _ => ?_
  exact (Attempt.Tells.liftM (Tells.close (.closing hclose))).bind fun _ _ _ => .pure

/-! ## Expressions -/

omit hr in
theorem templateLiteral_tells (p : Nat) : Attempt.Tells input templateLiteral p true true true :=
  .current (.ite (fun _ => .failure_bind) fun _ => .advance .pure)

omit hr in
/-- Increments and decrements are taken and never reported. -/
theorem postfixes_tells : ∀ n operand p, Parse.Tells input (postfixes n operand) p true true
  | 0, _, _ => .endless
  | n + 1, _, p =>
      .current (.ite (fun _ => .advance (postfixes_tells n _ (p + 1)).anyway) fun _ => .pure)

theorem identifierExpression_tells (p : Nat) :
    Attempt.Tells input (identifierExpression rules) p true true true := by
  refine (accessChain_tells hr p).bind fun _ q _ => ?_
  refine (Attempt.Tells.liftM (postfixes_tells _ _ q)).bind fun _ r _ => ?_
  refine .current (.ite (fun _ => .pure) fun _ => .advance ?_)
  exact (hr.fresh 0 (r + 1)).bind fun _ _ _ => .pure

theorem parenthesized_tells (p : Nat) :
    Attempt.Tells input (parenthesized rules) p before true true := by
  have hclose : "Expected closing parenthesis at %POS, found %TYPE: %VAL" ∈ closingTemplates := by
    simp [closingTemplates]
  refine .advance ((hr.fresh 0 (p + 1)).bind fun _ q _ => ?_)
  exact .needSymbol (fun _ => .closing hclose) .pure

/-- A routine of a plugin, begun at a token, reports in order where it makes a node, and nothing
where it declines. -/
def Routine.Tells (input : Input) (routine : Routine) : Prop :=
  ∀ (rules : Rules), rules.Tell input → ∀ p (before : Bool) o d e, o ≤ p →
    input.Reports o d (p + before.toNat) e →
    Attempt.Meets True input (routine rules) (.at p e) (fun _ => input.Told o d p e true)
      fun t => t.diagnostics = e

/-- The extensions of a parser report in order. -/
def Hooks.Tell (input : Input) (hooks : Hooks) : Prop :=
  ∀ routine ∈ hooks.extensions, routine.Tells input

/-- Extensions that decline leave nothing behind. -/
theorem firstExtension_tells (ho : o ≤ p) (he : input.Reports o d (p + before.toNat) e) :
    ∀ routines : List Routine, (∀ routine ∈ routines, routine.Tells input) →
      Attempt.Meets True input (firstExtension rules p routines) (.at p e)
        (fun _ => input.Told o d p e true) fun t => t = .at p e
  | [], _ => by
      rw [firstExtension, Attempt.meets_failure]
  | routine :: rest, hall => by
      have hroutine := hall routine (List.mem_cons_self ..)
      rw [firstExtension, Attempt.meets_bind, Attempt.meets_orNone]
      refine Attempt.Meets.mono (hroutine rules hr p before o d e ho he) (fun _ _ ht => ht) ?_
      intro t hdeclined
      simp only [Attempt.meets_bind, Attempt.meets_liftM, meets_setCursor, hdeclined]
      refine firstExtension_tells ho he rest fun other hmem => ?_
      exact hall other (List.mem_cons_of_mem _ hmem)

/-- What no extension makes is reported as unexpected. -/
theorem extensionExpression_tells {hooks : Hooks} (hh : hooks.Tell input)
    (hbrace : before = true → (input.tokenAt p).IsBrace) :
    Attempt.Tells input (extensionExpression hooks rules (input.tokenAt p)) p before true true := by
  intro o d e ho he
  simp only [extensionExpression, Attempt.meets_bind, Attempt.meets_liftM, meets_cursor,
    Attempt.meets_orNone]
  refine Attempt.Meets.mono (firstExtension_tells hr ho he _ hh) (fun _ _ ht => ht) ?_
  rintro _ rfl
  simp only [meets_reportAt]
  exact .push he ho fun hreported => .brace (hbrace hreported)

/-- A token that begins no operand is reported; where it may have been before, it is a brace. -/
theorem primary_tells {hooks : Hooks} (hh : hooks.Tell input)
    (hbrace : before = true → (input.tokenAt p).IsBrace) :
    Attempt.Tells input (primary hooks rules) p before true true := by
  refine .current (.ite (fun _ => .advance .pure) fun _ => ?_)
  refine .ite (fun _ => (identifierExpression_tells hr p).anyway) fun _ => ?_
  refine .ite (fun _ => parenthesized_tells hr p) fun _ => ?_
  refine .ite (fun hword => (classDeclaration_tells hr hword).map) fun _ => ?_
  refine .ite (fun hword => (usingDirective_tells hword).map) fun _ => ?_
  refine .ite (fun hword => namespaceDeclaration_tells hr hword) fun _ => ?_
  refine .ite (fun _ => (templateLiteral_tells p).anyway) fun _ => ?_
  refine .ite (fun hword => ifStatement_tells hr hword) fun _ => ?_
  refine .ite (fun hword => whileStatement_tells hr hword) fun _ => ?_
  refine .ite (fun hend => ?_) fun _ => extensionExpression_tells hr hh hbrace
  have hfresh : before = false := by
    -- the end marker is no brace
    rw [Bool.eq_false_iff]
    intro hreported
    have hkind : (input.tokenAt p).kind = Kind.symbol := by
      rcases hbrace hreported with hopen | hclose
      · exact (Token.isSymbol_iff.mp hopen).1
      · exact (Token.isSymbol_iff.mp hclose).1
    exact absurd (hend.symm.trans hkind) (by decide)
  intro o d e ho he
  simp only [Attempt.meets_bind, Attempt.meets_liftM, meets_reportAt, Attempt.meets_failure]
  exact .push he ho fun hreported => absurd (hfresh.symm.trans hreported) Bool.false_ne_true

theorem operand_tells {hooks : Hooks} (hh : hooks.Tell input)
    (hbrace : before = true → (input.tokenAt p).IsBrace) :
    Attempt.Tells input (operand hooks rules) p before true true := by
  refine .current (.ite (fun _ => .advance ?_) fun _ => primary_tells hr hh hbrace)
  exact (hr.fresh _ (p + 1)).bind fun _ _ _ => .pure

/-- An operator is taken before its right operand is asked for. -/
theorem operators_tells (minimum : Nat) : ∀ n left p,
    Parse.Tells input (operators rules minimum n left) p true true
  | 0, _, _ => .endless
  | n + 1, _, p => by
      refine .current (.ite (fun _ => .pure) fun _ => ?_)
      split
      · exact .pure
      · refine .ite (fun _ => .pure) fun _ => .advance ?_
        exact (hr.fresh _ (p + 1)).run (fun _ _ => .pure) fun _ q _ => operators_tells minimum n _ q

/-- An expression reports what its operands report. -/
theorem expression_tells {hooks : Hooks} (hh : hooks.Tell input) (minimum : Nat)
    (hbrace : before = true → (input.tokenAt p).IsBrace) :
    Attempt.Tells input (expression hooks rules minimum) p before true true :=
  (operand_tells hr hh hbrace).bind fun left q _ => .liftM (operators_tells hr minimum _ left q)

end Rules

/-! ## Plugins and levels -/

theorem keywordLiteral_tells {keyword null : Kind} :
    (Extras.keywordLiteral keyword null).Tells input := by
  intro rules _ p before o d e _ he
  simp only [Extras.keywordLiteral, Attempt.meets_bind, Attempt.meets_liftM, meets_current]
  exact .ite (fun _ => .next he) fun _ => rfl

/-- A `return` is made whatever becomes of its argument. -/
theorem returnStatement_tells {keyword : Kind} : (Extras.returnStatement keyword).Tells input := by
  intro rules hr p before o d e ho he
  simp only [Extras.returnStatement, Attempt.meets_bind, Attempt.meets_liftM, meets_current]
  refine .ite (fun _ => rfl) fun _ => ?_
  simp only [Attempt.meets_bind, Attempt.meets_liftM, meets_advance, meets_atEnd]
  refine .ite (fun _ => .next he) fun _ => ?_
  simp only [Attempt.meets_bind, Attempt.meets_liftM, meets_current]
  refine .ite (fun _ => .next he) fun _ => ?_
  simp only [Attempt.meets_bind, Attempt.meets_orNone, Attempt.meets_pure]
  have hargument := hr.fresh 0 (p + 1) o d e (Nat.le_succ_of_le ho) he.step
  refine Attempt.Meets.mono hargument (fun _ _ ht => ?_) fun _ ht => ?_
  · exact ht.from_le (Nat.le_succ p) (.refl e)
  · exact ht.from_le (Nat.le_succ p) (.refl e)

theorem Hooks.tell_none : Hooks.none.Tell input := fun _ hmem => absurd hmem List.not_mem_nil

/-- One more extension that reports in order may be added. -/
theorem Hooks.Tell.addExtension {hooks : Hooks} {name : String} {routine : Routine}
    (hh : hooks.Tell input) (h : routine.Tells input) :
    (hooks.addExtension name routine).Tell input := by
  intro other hmem
  rcases List.mem_append.mp hmem with hmem | hmem
  · exact hh other hmem
  · rw [List.mem_singleton.mp hmem]
    exact h

theorem extras_tell {hooks : Hooks} (hh : hooks.Tell input) (aliases : Aliases) :
    (Extras.plugin.applyToHooks aliases hooks).Tell input :=
  (hh.addExtension keywordLiteral_tells).addExtension returnStatement_tells

/-- All levels of a parser report in order where its extensions do. -/
theorem Rules.tell_ofDepth {hooks : Hooks} (hh : hooks.Tell input) (budget : Nat) : ∀ depth,
    (Rules.ofDepth hooks budget depth).Tell input
  | 0 => {
      expression := fun _ _ _ _ => .endless
      classDeclaration := fun _ _ _ => .endless
      typeExpression := fun _ => .endless }
  | depth + 1 =>
    have hr := Rules.tell_ofDepth hh budget depth
    { expression := fun minimum _ _ hbrace => expression_tells hr hh minimum hbrace
      classDeclaration := fun _ _ hword => classDeclaration_tells hr hword
      typeExpression := fun p => typeExpression_tells hr p }

end SharpSyntax
