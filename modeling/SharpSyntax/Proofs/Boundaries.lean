import SharpSyntax.Proofs.Crossing

/-!
# Nothing is carried across a semicolon

A program that is accepted and ends with a semicolon is read the same way when more stands behind
it, and what stands behind it is read as it would be by itself. The semicolon is taken in three
places: by the loop over statements, by a using directive, and by a namespace for the rest of the
file. The last two may be operands, so that operators are looked for behind them; and none is found
if what comes next begins anew.
-/

namespace SharpSyntax

open Parse Attempt Grammar

variable {first second : Input} {rules rules' : Rules} {p : Nat}

/-! ## Constructs that may end with a semicolon -/

/-- The rules of one parse agree with those of the other up to the end of the first input. -/
structure Rules.Join (h : Adjoins first second) (rules rules' : Rules) : Prop where
  sound : rules.Sound first
  promise : rules.Promise (fun _ => True) first
  couple : rules.Couple (.untilEnd h) rules'
  expression : ∀ minimum {p}, p < first.size → Attempt.Joins first second 1
    (rules.expression minimum) (rules'.expression minimum) p fun _ q => q ≤ first.size

variable {h : Adjoins first second}

theorem node_eq {a b : Node} (hab : (Coupling.untilEnd h).Alike Node.mapOffset a b) : b = a := by
  have heq : a.mapOffset id = b.mapOffset id := hab
  rw [Node.mapOffset_id, Node.mapOffset_id] at heq
  exact heq.symm

theorem name_eq {a b : QualifiedName}
    (hab : (Coupling.untilEnd h).Alike QualifiedName.mapOffset a b) : b = a := by
  have heq : a.mapOffset id = b.mapOffset id := hab
  rw [QualifiedName.mapOffset_id, QualifiedName.mapOffset_id] at heq
  exact heq.symm

theorem chain_eq {a b : Token × List Access}
    (hab : (Coupling.untilEnd h).Alike Token.mapOffset a.1 b.1 ∧
      (Coupling.untilEnd h).Accesses a.2 b.2) : b = a := by
  have htarget : a.1 = b.1 := hab.1
  have hbody : accessesMapOffset id a.2 = accessesMapOffset id b.2 := hab.2
  rw [accessesMapOffset_id, accessesMapOffset_id] at hbody
  exact Prod.ext htarget.symm hbody.symm

theorem close_joins (h : Adjoins first second) {text template : String} (hp : p < first.size) :
    Parse.Joins first second (close text template) (close text template) p
      fun _ q => q = p + 1 ∧ (first.tokenAt p).isSymbol text = true := by
  simp only [Parse.Joins, meets_close, h.tokenAt_eq hp]
  split
  · next hclose => exact .inr ⟨p + 1, rfl, ⟨rfl, hclose⟩, trivial, rfl⟩
  · simp

theorem qualifiedName_joins (hr : rules.Join h rules') (hp : p < first.size) :
    Attempt.Joins first second 0 (qualifiedName rules) (qualifiedName rules') p
      fun _ q => q < first.size :=
  (joins_of_endsOpen h (fun _ _ => name_eq) (qualifiedName_couples hr.couple)
    (qualifiedName_yields p) (fun _ _ _ _ hname => hname.endsOpen) hp).mono fun _ _ => And.left

/-- A name for the target of a directive is looked for among the same tokens. -/
theorem usingAlias_joins {α : Type} (h : Adjoins first second)
    {next next' : Option String → Attempt α} {post : α → Nat → Prop} (hp : p < first.size)
    (hnext : ∀ aliasName q, q < first.size →
      Attempt.Joins first second 1 (next aliasName) (next' aliasName) q post) :
    Attempt.Joins first second 1 (OptionT.lift usingAlias >>= next)
      (OptionT.lift usingAlias >>= next') p post := by
  have hnames : second.NamesAt p ↔ first.NamesAt p := by
    rw [Input.NamesAt, Input.NamesAt, h.tokenAt_eq hp]
    refine and_congr_right fun hkind => ?_
    rw [h.tokenAt_eq (h.succ_lt_of_isIdentifier hkind)]
  have hinside : (if first.NamesAt p then p + 2 else p) < first.size := by
    split
    · next hname =>
      refine h.succ_lt (h.succ_lt_of_isIdentifier hname.1) ?_
      exact isSemicolon_eq_false_of_text (by rw [hname.2]; decide)
    · exact hp
  simp only [Attempt.Joins, Attempt.meets_bind, Attempt.meets_lift, meets_usingAlias, hnames,
    h.tokenAt_eq hp]
  exact hnext _ _ hinside

theorem usingTarget_joins (hr : rules.Join h rules') {isStatic : Bool} (hp : p < first.size) :
    Attempt.Joins first second 1 (usingTarget rules isStatic) (usingTarget rules' isStatic) p
      fun _ q => q ≤ first.size := by
  refine usingAlias_joins h hp fun aliasName q hq => ?_
  refine (qualifiedName_joins hr hq).bindOrNone
    (fun _ => .current fun _ _ => .reported report_reports) (fun target r hr' => ?_)
    fun _ _ => (Makes.liftM Parse.Makes.close).bind fun _ _ _ => .pure trivial
  refine (Joins.liftM (close_joins h hr')).bindPure fun _ u hu => ?_
  omega

theorem usingDirective_joins (hr : rules.Join h rules') (hp : p < first.size) :
    Attempt.Joins first second 1 (usingDirective rules) (usingDirective rules') p
      fun _ q => q ≤ first.size := by
  refine .needKeyword (h.tokenAt_eq hp) fun hword => ?_
  have hp' := h.succ_lt_of_isKeyword hword
  refine .current (h.tokenAt_eq hp') (.ite (fun hstatic => ?_) fun _ => usingTarget_joins hr hp')
  exact .advance (usingTarget_joins hr (h.succ_lt_of_isKeyword hstatic))

/-- The members of a namespace in braces. -/
theorem namespaceBody_joins (hr : rules.Join h rules') {name : QualifiedName} {offset : Nat}
    {opening closing : String} (hp : p < first.size) :
    let body (rules : Rules) : Attempt Node := do
      needSymbol openBrace opening
      let members ← membersFrom rules true rules.budget
      close closeBrace closing
      return .namespaceDeclaration name members offset
    Attempt.Joins first second 1 (body rules) (body rules') p fun _ q => q ≤ first.size := by
  intro body
  have hcouples : Attempt.Couples (.untilEnd h) (body rules) (body rules')
      ((Coupling.untilEnd h).Alike Node.mapOffset) := by
    refine .bindEq (needSymbol_couples _ _) fun _ => ?_
    refine .bind (.liftM (membersFrom_couples hr.couple true _ _ hr.couple.budget))
      fun members members' hmembers => ?_
    refine .bindEq (.liftM (close_couples _ _)) fun _ => .pure ?_
    rw [Coupling.Alike, Node.mapOffset, Node.mapOffset, hmembers]
  have hinside : Attempt.Meets True first (body rules) (.at p #[])
      (fun _ t => t.diagnostics ≠ #[] ∨ ∃ q, t = .at q #[] ∧ q < first.size ∧ True)
      fun t => 1 ≤ t.diagnostics.size := ?_
  · exact (joins_of_couples (fun _ _ => node_eq) hp hcouples hinside).mono
      fun _ _ hq => Nat.le_of_lt hq.1
  -- the body ends with the brace that closes it, and this is not the last token
  simp only [body, Attempt.meets_bind, Attempt.meets_needSymbol, Attempt.meets_liftM,
    Attempt.meets_pure]
  split
  · refine (membersFrom_yields hr.sound true _ (p + 1)).meets fun members r e _ _ => ?_
    rw [meets_close]
    split
    · next hclose =>
      by_cases hquiet : e = #[]
      · have hlt := h.succ_lt_of_isSymbol hclose (by decide)
        exact .inr ⟨r + 1, by rw [hquiet], hlt, trivial⟩
      · exact .inl hquiet
    · exact .inl (by simp)
  · simp

theorem namespaceDeclaration_joins (hr : rules.Join h rules') (hp : p < first.size) :
    Attempt.Joins first second 1 (namespaceDeclaration rules) (namespaceDeclaration rules') p
      fun _ q => q ≤ first.size := by
  refine .current (h.tokenAt_eq hp) (.needKeyword (h.tokenAt_eq hp) fun hword => ?_)
  have hp' := h.succ_lt_of_isKeyword hword
  refine (qualifiedName_joins hr hp').bindOrNone (fun _ => .reported reportFound_reports)
    (fun name q hq => ?_) fun name _ => ?_
  · refine .current (h.tokenAt_eq hq) (.ite (fun _ => ?_) fun _ => namespaceBody_joins hr hq)
    exact .advance (.pure hq)
  · refine .current fun _ _ => .ite (fun _ => ?_) fun _ => Makes.weaken (k := 1) ?_
    · exact (Makes.liftM Parse.Makes.advance).bind fun _ _ _ => .pure trivial
    · refine Makes.needSymbol.bind fun _ _ _ => ?_
      refine (Makes.liftM (membersFrom_keeps hr.promise.keep _)).bind fun _ _ _ => ?_
      exact (Makes.liftM Parse.Makes.close).bind fun _ _ _ => .pure trivial

/-! ## Expressions -/

/-- The increments behind an operand do not end with a semicolon either. -/
theorem postfixes_joins (hr : rules.Join h rules') {ts : List Token} {p q : Nat} {operand : Node}
    (hq : q < first.size) (hts : first.rest p = ts ++ first.rest q)
    (hoperand : Derives.Postfix ts operand) :
    Parse.Joins first second (postfixes rules.budget operand) (postfixes rules'.budget operand) q
      fun _ r => r < first.size := by
  have hinside : Parse.Meets True first (postfixes rules.budget operand) (.at q #[])
      fun _ t => t.diagnostics ≠ #[] ∨ ∃ r, t = .at r #[] ∧ r < first.size ∧ True := by
    refine (postfixes_yields _ q operand #[]).mono fun left t hread => hread.quiet.imp_right ?_
    rintro ⟨r, us, rfl, hus, hleft⟩
    refine ⟨r, rfl, h.lt_of_endsOpen (hleft ts hoperand).endsOpen (p := p) ?_, trivial⟩
    rw [hts, hus, List.append_assoc]
  have hcouples : Parse.Couples (.untilEnd h) (postfixes rules.budget operand)
      (postfixes rules'.budget operand) ((Coupling.untilEnd h).Alike Node.mapOffset) :=
    postfixes_couples _ _ hr.couple.budget operand operand rfl
  exact (Parse.joins_of_couples (fun _ _ => node_eq) hq hcouples hinside).mono fun _ _ => And.left

theorem identifierExpression_joins (hr : rules.Join h rules') (hp : p < first.size)
    (hid : (first.tokenAt p).kind = Kind.identifier) :
    Attempt.Joins first second 1 (identifierExpression rules) (identifierExpression rules') p
      fun _ q => q ≤ first.size := by
  have hseen : ∀ token, first.seen? (ParseState.at p #[]).cursor = some token →
      token.kind = Kind.identifier := by
    intro token htoken
    rw [ParseState.cursor_at, Input.seen?_natCast, Option.some_inj] at htoken
    rw [← htoken]
    exact hid
  have hchain := joins_of_endsOpen h (fun _ _ => chain_eq) (accessChain_couples hr.couple)
    (accessChain_yields hr.sound hid) (fun _ _ _ _ hpostfix => hpostfix.endsOpen) hp
  -- what stands behind the operand keeps the reports about it
  have hkeeps : ∀ (left : Node) s, Attempt.Makes 0 first (do
      if !(← current).isSymbol "=" then return left
      advance
      return .assignment left (← rules.expression 0)) (fun _ => True) s := fun left _ => by
    refine .current fun _ _ => .ite (fun _ => .pure trivial) fun _ => ?_
    refine (Makes.liftM Parse.Makes.advance).bind fun _ _ _ => ?_
    exact (hr.promise.expression 0 _).weaken.bind fun _ _ _ => .pure trivial
  refine hchain.bind (accessChain_keeps hr.promise.keep hseen) (fun ⟨target, body⟩ q hmade hq => ?_)
    fun ⟨target, body⟩ _ hmade => ?_
  · obtain ⟨hlt, ts, hts, hderived⟩ := hq
    have hmakes : Parse.Makes first (postfixes rules.budget (.access target body))
        (fun node => Shape.IsOperand (fun _ => True) node.toDatum) (.at q #[]) :=
      postfixes_keeps _ (Shapes.access _ hmade.1 hmade.2)
    refine (Joins.liftM (postfixes_joins hr hlt hts hderived)).bind (Makes.liftM (k := 1) hmakes)
      (fun left r _ hr' => ?_) fun left s _ => hkeeps left s
    refine .current (h.tokenAt_eq hr') (.ite (fun _ => .pure (Nat.le_of_lt hr')) fun hsign => ?_)
    have hsymbol : (first.tokenAt r).isSymbol "=" = true := by simpa using hsign
    have hlt' := h.succ_lt_of_isSymbol hsymbol (by decide)
    exact .advance ((hr.expression 0 hlt').bindPure fun _ _ hq => hq)
  · exact (Makes.liftM (postfixes_keeps _ (Shapes.access _ hmade.1 hmade.2))).bind fun left s _ =>
      hkeeps left s

theorem operators_joins (hr : rules.Join h rules') (minimum : Nat) : ∀ n m, n ≤ m →
    ∀ p ≤ first.size, ∀ left, Shape.IsNode (fun _ => True) left.toDatum →
    Parse.Joins first second (operators rules minimum n left) (operators rules' minimum m left) p
      fun _ q => q ≤ first.size := by
  refine rounds_induction (fun _ _ _ _ _ => .endless) fun n m ih p hp left hleft => ?_
  rcases Nat.lt_or_eq_of_le hp with hlt | rfl
  · refine .current (h.tokenAt_eq hlt) (.ite (fun _ => .pure hp) fun hsymbol => ?_)
    cases hop : binaryPrecedence? (first.tokenAt p).text with
    | none => exact .pure hp
    | some precedence =>
        refine .ite (fun _ => .pure hp) fun _ => .advance ?_
        -- a semicolon is no operator
        have hopen : (first.tokenAt p).isSymbol ";" = false :=
          isSemicolon_eq_false_of_text fun htext => by rw [htext] at hop; cases hop
        have hbinary : ∀ {right : Node}, Shape.IsNode (fun _ => True) right.toDatum →
            Shape.IsNode (fun _ => True) (Node.binary (first.tokenAt p).text left right).toDatum :=
          fun hright => .binary (by rw [hop]; rfl) hleft hright
        refine (hr.expression _ (h.succ_lt hlt hopen)).run (hr.promise.expression _ _)
          (fun right q hright hq => ih q hq _ (hbinary hright)) fun o s hright => ?_
        cases o with
        | none => exact .pure trivial
        | some right =>
            exact (operators_keeps hr.promise.keep n (hbinary (hright right rfl))).mono
              fun _ _ => trivial
  · -- behind the last of the tokens no operator is found
    have hmarker : (first.tokenAt first.size).kind ≠ Kind.symbol := by
      rw [Input.tokenAt_of_size_le (Nat.le_refl _), first.endMarker_kind]
      decide
    simp only [Parse.Joins, operators, Parse.meets_bind, meets_current, hmarker, ne_eq,
      not_false_eq_true, if_true, Parse.meets_pure]
    refine .inr ⟨first.size, rfl, Nat.le_refl _, ?_⟩
    by_cases hsymbol : (second.tokenAt first.size).kind = Kind.symbol
    · simp [hsymbol, h.precedence_eq_none hsymbol]
    · simp [hsymbol]

/-! ## Operands -/

/-- A reserved word begins neither a literal nor parentheses. -/
theorem operandStart_of_isKeyword {token : Token} {word : String}
    (hword : token.isKeyword word = true) :
    literalKinds.contains token.kind = false ∧ token.isSymbol "(" = false := by
  have hkind := (Token.isKeyword_iff.mp hword).1
  refine ⟨?_, Token.isSymbol_eq_false_of_kind ?_ "("⟩
  · rw [hkind]
    decide
  · rw [hkind]
    decide

theorem primary_joins (hr : rules.Join h rules') (hp : p < first.size) :
    Attempt.Joins first second 1 (primary .none rules) (primary .none rules') p
      fun _ q => q ≤ first.size := by
  by_cases hid : (first.tokenAt p).kind = Kind.identifier
  · refine .current (h.tokenAt_eq hp) (.ite (fun hliteral => ?_) fun _ => ?_)
    · rw [hid] at hliteral
      exact absurd hliteral (by decide)
    · exact .ite (fun _ => identifierExpression_joins hr hp hid) fun hne => absurd hid hne
  by_cases husing : (first.tokenAt p).isKeyword "using" = true
  · refine .current (h.tokenAt_eq hp) ?_
    obtain ⟨hliteral, hparen⟩ := operandStart_of_isKeyword husing
    have hclass := Token.isKeyword_eq_false husing "class" (by decide)
    simp only [hliteral, hid, hparen, hclass, husing, Bool.false_eq_true, if_false, if_true]
    exact (usingDirective_joins hr hp).map fun _ _ hq => hq
  by_cases hspace : (first.tokenAt p).isKeyword "namespace" = true
  · refine .current (h.tokenAt_eq hp) ?_
    obtain ⟨hliteral, hparen⟩ := operandStart_of_isKeyword hspace
    have hclass := Token.isKeyword_eq_false hspace "class" (by decide)
    simp only [hliteral, hid, hparen, hclass, husing, hspace, Bool.false_eq_true, if_false, if_true]
    exact namespaceDeclaration_joins hr hp
  -- any other operand ends with a token of its own
  refine (joins_of_endsOpen h (fun _ _ => node_eq)
    (primary_couples (Hooks.couple_none _) hr.couple) (primary_yields hr.sound p)
    (fun ts q node hts hnode => hnode.endsOpen fun token hfirst => ?_) hp).mono
    fun _ _ hq => Nat.le_of_lt hq.1
  have hseen : first.tokenAt p = token := by
    rw [Input.rest_eq_cons hp] at hts
    have hhead := congrArg List.head? hts
    rw [List.head?_append, hfirst, List.head?_cons, Option.some_or, Option.some_inj] at hhead
    exact hhead
  rw [← hseen]
  exact ⟨hid, Bool.eq_false_iff.mpr husing, Bool.eq_false_iff.mpr hspace⟩

theorem operand_joins (hr : rules.Join h rules') (hp : p < first.size) :
    Attempt.Joins first second 1 (operand .none rules) (operand .none rules') p
      fun _ q => q ≤ first.size := by
  refine .current (h.tokenAt_eq hp) (.ite (fun hsign => ?_) fun _ => primary_joins hr hp)
  have hopen : (first.tokenAt p).isSymbol ";" = false :=
    isSemicolon_eq_false_of_text fun htext => by
      rw [htext] at hsign
      exact absurd (Bool.and_eq_true_iff.mp hsign).2 (by decide)
  exact .advance ((hr.expression _ (h.succ_lt hp hopen)).bindPure fun _ _ hq => hq)

theorem expression_joins (hr : rules.Join h rules') (minimum : Nat) (hp : p < first.size) :
    Attempt.Joins first second 1 (expression .none rules minimum)
      (expression .none rules' minimum) p fun _ q => q ≤ first.size := by
  refine (operand_joins hr hp).bind (operand_keeps hr.promise.keep Hooks.keep_none)
    (fun left q hleft hq => ?_) fun left s hleft => ?_
  · exact .liftM (operators_joins hr minimum _ _ hr.couple.budget q hq left hleft)
  · exact (Makes.liftM (operators_keeps hr.promise.keep _ hleft)).mono fun _ _ => trivial

/-- Rules of more levels agree with rules of fewer. -/
theorem rules_join {budget budget' : Nat} (hbudget : budget ≤ budget') : ∀ n m, n ≤ m →
    (Rules.ofDepth .none budget n).Join h (Rules.ofDepth .none budget' m) := by
  refine rounds_induction (fun m => ?_) fun n m hr => ?_
  · exact {
      sound := Rules.sound_ofDepth _ _
      promise := Rules.promise_ofDepth (fun _ => Hooks.promise_none) _
      couple := rules_couple (Hooks.couple_none _) hbudget _ _ (Nat.zero_le _)
      expression := fun _ _ _ => .endless }
  · exact {
      sound := hr.sound.next
      promise := hr.promise.next Hooks.promise_none
      couple := hr.couple.next (Hooks.couple_none _)
      expression := fun minimum _ hp => expression_joins hr minimum hp }

/-! ## Programs -/

/-- Behind the last of the tokens no semicolon is skipped. -/
theorem skip_joins (h : Adjoins first second) (hp : p ≤ first.size) :
    Parse.Joins first second (skip ";") (skip ";") p fun _ q => p ≤ q ∧ q ≤ first.size := by
  simp only [Parse.Joins, meets_skip]
  rcases Nat.lt_or_eq_of_le hp with hlt | rfl
  · rw [h.tokenAt_eq hlt]
    split
    · exact .inr ⟨p + 1, rfl, ⟨Nat.le_add_right p 1, hlt⟩, trivial, rfl⟩
    · exact .inr ⟨p, rfl, ⟨Nat.le_refl p, hp⟩, trivial, rfl⟩
  · have hmarker : (first.tokenAt first.size).isSymbol ";" = false := by
      rw [Input.tokenAt_of_size_le (Nat.le_refl _)]
      exact isSemicolon_eq_false_of_kind first.endMarker_kind (by decide)
    simp only [hmarker, h.isSemicolon_eq_false, Bool.false_eq_true, if_false]
    exact .inr ⟨first.size, rfl, ⟨Nat.le_refl _, hp⟩, trivial, rfl⟩

theorem recover_joins {start : Mark} {stops : List String} (hstart : start.cursor < p)
    (hreported : start.reported = 0) :
    Parse.Joins first second (recover start stops) (recover start stops) p fun _ q => q = p := by
  have hsize : (#[] : Array Diagnostic).size = start.reported := hreported.symm
  exact meets_recover_quiet hstart hsize
    (.inr ⟨p, rfl, rfl, meets_recover_quiet hstart hsize ⟨rfl, rfl⟩⟩)

/-- A statement that is made without a report takes a token, and recovery has nothing to do. -/
theorem statement_joins (hr : rules.Join h rules') (hp : p < first.size) :
    Parse.Joins first second (statement rules []) (statement rules' []) p
      fun _ q => p < q ∧ q ≤ first.size := by
  have hexpression : Attempt.Joins first second 1 (rules.expression 0) (rules'.expression 0) p
      fun _ q => p < q ∧ q ≤ first.size := by
    refine Attempt.Meets.mono ((hr.expression 0 hp).and (hr.sound.expression 0 p #[]))
      (fun node t => ?_) fun t ht => ht.1
    rintro ⟨hreported | ⟨q, rfl, hq, hy⟩, hread⟩
    · exact .inl hreported
    · obtain hreported | ⟨q', ts, ht, hts, hnode⟩ := hread.quiet
      · exact .inl hreported
      · obtain ⟨rfl, -⟩ := ParseState.at_inj ht
        exact .inr ⟨q, rfl, ⟨Input.lt_of_rest_eq hts hnode.ne_nil, hq⟩, hy⟩
  have hkeeps : ∀ (start : Mark) (node : Option Node) s, Parse.Makes first (do
      skip ";"
      recover start []
      return node.toList) (fun _ => True) s := fun _ _ _ =>
    Parse.Makes.skip.bind fun _ _ _ => Parse.Makes.recover.bind fun _ _ _ => .pure trivial
  refine .mark (hexpression.run (hr.promise.expression 0 _) (fun node q _ hq => ?_)
    fun o s _ => hkeeps _ o s)
  refine (skip_joins h hq.2).bind .skip (fun _ r _ hr' => ?_) fun _ _ _ =>
    Parse.Makes.recover.bind fun _ _ _ => .pure trivial
  have hpr : p < r := Nat.lt_of_lt_of_le hq.1 hr'.1
  refine (recover_joins (Int.ofNat_lt.mpr hpr) rfl).bind .recover (fun _ u _ hu => ?_)
    fun _ _ _ => .pure trivial
  subst hu
  exact .pure ⟨hpr, hr'.2⟩

/-- In front of a token, a round over the statements of a program reads one and goes on. -/
theorem meets_sequenceFrom_succ {fault : Prop} {input : Input} {n : Nat} {d : Array Diagnostic}
    {post : List Node → ParseState → Prop} (hp : p < input.size) :
    Parse.Meets fault input (sequenceFrom rules none (n + 1)) (.at p d) post ↔
      Parse.Meets fault input (statement rules []) (.at p d) fun made t =>
        Parse.Meets fault input (sequenceFrom rules none n) t fun more u =>
          post (made ++ more) u := by
  have hgo : ¬input.size ≤ p := Nat.not_le.mpr hp
  simp only [sequenceFrom, Parse.meets_bind, meets_atEnd, hgo, meets_current, Option.toList_none,
    List.any_nil, Parse.meets_pure, decide_false, Bool.false_eq_true, if_false]

/-- The rounds over the statements of the first input, told from the last: whatever the second parse
does from the end of the first input on, it does behind the same statements. -/
theorem sequenceFrom_joins (hr : rules.Join h rules') : ∀ n p, p ≤ first.size →
    Parse.Meets True first (sequenceFrom rules none n) (.at p #[]) fun body t =>
      t.diagnostics ≠ #[] ∨ ∀ m (post : List Node → ParseState → Prop),
        (∀ m' ≥ m, Parse.Meets False second (sequenceFrom rules' none m') (.at first.size #[])
          fun more u => post (body ++ more) u) →
        ∀ m' ≥ m + (first.size - p),
          Parse.Meets False second (sequenceFrom rules' none m') (.at p #[]) post
  | 0, _, _ => trivial
  | n + 1, p, hp => by
      rcases Nat.lt_or_eq_of_le hp with hlt | rfl
      · rw [meets_sequenceFrom_succ hlt]
        have hmade := (statement_joins hr hlt).and (statement_keeps hr.promise.keep)
        refine hmade.mono fun made t => ?_
        rintro ⟨hreported | ⟨q, rfl, ⟨hpq, hq⟩, hsecond⟩, -⟩
        · exact Parse.Meets.mono (sequenceFrom_keeps hr.promise.keep n) fun more u hu =>
            .inl (hu.2.reported (.inl hreported))
        refine (sequenceFrom_joins hr n q hq).mono fun more u => Or.imp_right ?_
        intro hrest m post hpost m' hm'
        -- the second parse has a round left for each token of the first input
        obtain ⟨k, rfl⟩ : ∃ k, m' = k + 1 := ⟨m' - 1, by omega⟩
        rw [meets_sequenceFrom_succ (Nat.lt_of_lt_of_le hlt h.size_le)]
        refine hsecond.mono fun made' v => ?_
        rintro ⟨rfl, rfl⟩
        refine hrest m (fun more u => post (made' ++ more) u) (fun m'' hm'' => ?_) k (by omega)
        have hbehind := hpost m'' hm''
        simpa only [List.append_assoc] using hbehind
      · simp only [sequenceFrom, Parse.meets_bind, meets_atEnd, Nat.le_refl, decide_true, if_true,
          Parse.meets_pure]
        refine .inr fun m post hpost m' hm' => ?_
        have hbehind := hpost m' (by omega)
        simpa only [List.nil_append] using hbehind

/-- What is seen behind some tokens is what is seen where they are not there. -/
theorem tokenAt_append_add (tokens : List Token) {more : List Token} (hmore : more ≠ [])
    (source : SourceText) (hp : p ≤ (Input.ofTokens more source).size) :
    (Input.ofTokens (tokens ++ more) source).tokenAt (p + tokens.length) =
      (Input.ofTokens more source).tokenAt p := by
  rw [Input.size_ofTokens] at hp
  rcases Nat.lt_or_eq_of_le hp with hlt | rfl
  · have hlt' : p + tokens.length < (tokens ++ more).length := by
      rw [List.length_append]
      omega
    rw [Input.tokenAt_ofTokens_of_lt hlt', Input.tokenAt_ofTokens_of_lt hlt,
      List.getElem_append_right (Nat.le_add_left _ _)]
    simp only [Nat.add_sub_cancel]
  · -- both inputs end with the same token
    rw [Input.tokenAt_of_size_le (by rw [Input.size_ofTokens, List.length_append]; omega),
      Input.tokenAt_of_size_le (Nat.le_of_eq (Input.size_ofTokens more source))]
    simp only [Input.ofTokens, List.getLast?_append, List.getLast?_eq_some_getLast hmore,
      Option.some_or]

/-- Tokens beside the same tokens behind others. -/
def Coupling.behind (tokens : List Token) {more : List Token} (hmore : more ≠ [])
    (source : SourceText) : Coupling where
  first := .ofTokens more source
  second := .ofTokens (tokens ++ more) source
  shift := tokens.length
  kept := id
  Reported d e := d = e
  Lost _ := False
  live_or_lost := never_apart
  size_le := by simp
  size_le_iff _ := by
    rw [Input.size_ofTokens, Input.size_ofTokens, List.length_append]
    omega
  tokenAt_eq p hp _ := by rw [tokenAt_append_add tokens hmore source hp]
  reported_size h := by rw [h]
  reported_back h hp _ := by rw [h, tokenAt_append_add tokens hmore source (Nat.le_of_lt hp)]
  reported_push {_ _ p _ _} code h hp _ hmessage := by
    have hexact := fun q (hq : q ≤ (Input.ofTokens more source).size) (_ : True) =>
      (tokenAt_append_add tokens hmore source hq).symm
    refine .inr ?_
    rw [h, hmessage hexact, Input.errorAt, Input.errorAt, hexact p hp trivial]
    rfl
  lost_push _ h := h

section Programs

variable {tokens more : List Token} {source : SourceText} {aliases : Aliases} {tree tree' : Program}
  {after after' : Parser}

/-- Behind other tokens, what a parser of some tokens reads is read with no fewer rounds and
levels. -/
theorem sequenceFrom_behind (hmore : more ≠ [])
    (hrun : (Parser.new more source aliases).run program = (.ok tree', after'))
    (hrules : (Parser.new more source aliases).rules.Couple (.behind tokens hmore source) rules)
    {m : Nat} (hm : (Parser.new more source aliases).budget ≤ m) :
    Parse.Meets False (.ofTokens (tokens ++ more) source) (sequenceFrom rules none m)
      (.at tokens.length #[]) fun body t =>
        body = tree'.body ∧ t.diagnostics = after'.state.diagnostics := by
  let parser := Parser.new more source aliases
  have hmeets : Parse.Meets True parser.input (program parser.rules) (.at 0 #[])
      fun made s => Parse.Meets False (.ofTokens (tokens ++ more) source)
        (sequenceFrom rules none m) (.at tokens.length #[]) fun body t =>
          body = made.body ∧ t.diagnostics = s.diagnostics := by
    have hrounds : parser.rules.budget ≤ m := by
      rw [Parser.rules, Rules.budget_ofDepth]
      exact hm
    simp only [program, Parse.meets_bind, Parse.meets_pure]
    have hcoupled := sequenceFrom_couples hrules none _ m hrounds
    refine (hcoupled.follows trivial rfl).mono fun made s => ?_
    rintro ⟨q, d, rfl, ⟨-, ⟨⟨⟩⟩ | hnot⟩ | ⟨-, hsecond⟩⟩
    · exact absurd trivial hnot
    rw [Nat.zero_add] at hsecond
    refine Parse.Meets.mono hsecond fun body t => ?_
    rintro ⟨halike, e, rfl, rfl⟩
    have hnodes : nodesMapOffset id made = nodesMapOffset id body := halike
    rw [nodesMapOffset_id, nodesMapOffset_id] at hnodes
    exact ⟨hnodes.symm, rfl⟩
  obtain ⟨s, rfl⟩ := Parser.run_ok_inv hrun
  exact Parser.post_of_run hmeets hrun

/-- **Nothing is carried across a semicolon.** Tokens that a parser without plugins accepts and that
end with a semicolon are read the same way when more tokens stand behind them, unless these begin
with a further semicolon or with a binary operator: the tree has what it has for the first tokens
alone, and then what it has for the others alone, and the reports are those about the others
alone. -/
theorem program_append
    (hrun : (Parser.new tokens source aliases).run program = (.ok tree, after))
    (hquiet : after.diagnostics = []) (hend : EndsClosed tokens) (hnext : BeginsAnew more) :
    ∃ tree' after' joined,
      (Parser.new more source aliases).run program = (.ok tree', after') ∧
      (Parser.new (tokens ++ more) source aliases).run program =
        (.ok { body := tree.body ++ tree'.body }, joined) ∧
      joined.diagnostics = after'.diagnostics := by
  by_cases hmore : more = []
  · subst hmore
    refine ⟨{ body := [] }, Parser.new [] source aliases, after, rfl, ?_, hquiet⟩
    rw [List.append_nil, List.append_nil]
    exact hrun
  let parser := Parser.new tokens source aliases
  let parser' := Parser.new more source aliases
  let whole := Parser.new (tokens ++ more) source aliases
  have hsize : parser.input.size = tokens.length := Input.size_ofTokens tokens source
  have hsize' : parser'.input.size = more.length := Input.size_ofTokens more source
  have hwhole : whole.input.size = tokens.length + more.length :=
    (Input.size_ofTokens (tokens ++ more) source).trans List.length_append
  have hbudget : parser'.budget + tokens.length ≤ whole.budget := by
    unfold Parser.budget
    omega
  obtain ⟨tree', reported, hback⟩ := parser'.program_ends Hooks.progress_none
  have hbehind : parser'.rules.Couple (.behind tokens hmore source) whole.rules :=
    rules_couple (Hooks.couple_none _) (by omega) _ _ (Nat.mul_le_mul_right _ (by omega))
  have hadjoins : Adjoins parser.input whole.input := adjoins_ofTokens source hend hnext
  have hjoin : parser.rules.Join hadjoins whole.rules := by
    have hle : parser.budget ≤ whole.budget := by
      unfold Parser.budget
      omega
    exact rules_join hle _ _ (Nat.mul_le_mul_right _ hle)
  have hmeets : Parse.Meets True parser.input (program parser.rules) (.at 0 #[]) fun made s =>
      s.diagnostics ≠ #[] ∨ Parse.Meets False whole.input (program whole.rules) (.at 0 #[])
        fun all t => all.body = made.body ++ tree'.body ∧ t.diagnostics = reported := by
    simp only [program, Parse.meets_bind, Parse.meets_pure]
    refine (sequenceFrom_joins hjoin _ 0 (Nat.zero_le _)).mono fun made s => Or.imp_right ?_
    intro hrest
    refine hrest parser'.budget _ (fun m hm => ?_) _ ?_
    · rw [hsize]
      refine (sequenceFrom_behind hmore hback hbehind hm).mono fun body t => ?_
      rintro ⟨rfl, hreports⟩
      exact ⟨rfl, hreports⟩
    · rw [hsize, Parser.rules, Rules.budget_ofDepth]
      exact hbudget
  obtain ⟨s, rfl⟩ := Parser.run_ok_inv hrun
  obtain ⟨⟨body⟩, t, hjoined, rfl, hreports⟩ :=
    Parser.run_of_meets program ((Parser.post_of_run hmeets hrun).resolve_left fun hreported =>
      hreported (Array.toList_eq_nil_iff.mp hquiet))
  exact ⟨tree', _, _, hback, hjoined, congrArg Array.toList hreports⟩

/-- A using directive and a namespace for the rest of the file, and behind them a class without a
name. -/
theorem program_append_nameless_class :
    let source := SourceText.ofText "using A;namespace B;class 1" "main.cs"
    let tokens : List Token := [⟨.keyword, "using", 0⟩, ⟨.identifier, "A", 6⟩, ⟨.symbol, ";", 7⟩,
      ⟨.keyword, "namespace", 8⟩, ⟨.identifier, "B", 18⟩, ⟨.symbol, ";", 19⟩]
    let more : List Token := [⟨.keyword, "class", 20⟩, ⟨.number, "1", 26⟩]
    EndsClosed tokens ∧ BeginsAnew more ∧ ∃ (tree tree' : Program) (after after' joined : Parser),
      (Parser.new tokens source .builtin).run program = (.ok tree, after) ∧
      after.diagnostics = [] ∧
      (Parser.new more source .builtin).run program = (.ok tree', after') ∧
      (Parser.new (tokens ++ more) source .builtin).run program =
        (.ok { body := tree.body ++ tree'.body }, joined) ∧
      joined.diagnostics = after'.diagnostics ∧ after'.diagnostics ≠ [] := by
  intro source tokens more
  have hend : EndsClosed tokens := ⟨_, rfl, by decide⟩
  have hnext : BeginsAnew more := by
    rintro token ⟨⟩
    exact ⟨by decide, by decide⟩
  have hquiet : ((Parser.new tokens source .builtin).run program).2.diagnostics = [] := by
    decide +kernel
  have hreported : ((Parser.new more source .builtin).run program).2.diagnostics ≠ [] := by
    decide +kernel
  obtain ⟨tree, after, hrun⟩ : ∃ tree after,
      (Parser.new tokens source .builtin).run program = (.ok tree, after) := by
    obtain ⟨tree, _, hrun⟩ :=
      (Parser.new tokens source .builtin).program_ends Hooks.progress_none
    exact ⟨tree, _, hrun⟩
  rw [hrun] at hquiet
  obtain ⟨tree', after', joined, hback, hjoined, hreports⟩ :=
    program_append hrun hquiet hend hnext
  rw [hback] at hreported
  exact ⟨hend, hnext, tree, tree', after, after', joined, hrun, hquiet, hback, hjoined, hreports,
    hreported⟩

end Programs

end SharpSyntax
