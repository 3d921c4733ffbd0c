import SharpSyntax.Proofs.CoupledGrammar
import SharpSyntax.Proofs.Leads
import SharpSyntax.Proofs.Traces

/-!
# What the routines of the grammar make is carried by what they read

A routine that makes something has kept traces of tokens between the place where it began and the
place where it ends, in their order. This is so whatever was reported: a construct that is dropped
leaves its tokens behind, and one that is broken off keeps what it has.

A routine that goes on from something already made, such as a left operand or the modifiers of a
class, is told of the place from which that is carried.
-/

namespace SharpSyntax

open Parse Attempt Grammar

variable {input : Input} {rules : Rules} {p : Nat}

/-! ## Names and types -/

/-- The texts of words have no dots in them, so that a name that is joined from them can be cut. -/
def Input.WordsUndotted (input : Input) : Prop :=
  ∀ p, (input.tokenAt p).kind = Kind.identifier ∨ (input.tokenAt p).kind = Kind.keyword →
    '.' ∉ (input.tokenAt p).text.toList

/-- Tokens that carry a type or a qualified name are identifiers of the input. -/
def Input.CarriesName (input : Input) (p : Nat) (tokens : List Token) (q : Nat) : Prop :=
  input.Carries p (tokens.map .token) q ∧
    ∀ token ∈ tokens, ∃ i, token = input.tokenAt i ∧ token.kind = Kind.identifier

/-- The names that are read stand behind one another, with dots that leave no trace. -/
theorem nameTail_leads : ∀ n p,
    Parse.Leads input (nameTail n) p fun names q => input.CarriesName p names q
  | 0, _ => .endless
  | n + 1, p => by
      have hnone : ∀ {q}, p ≤ q → input.CarriesName p [] q := fun hle => ⟨.of_le hle, nofun⟩
      refine .current (.ite (fun _ => .pure (hnone (Nat.le_refl p))) fun _ => .advance ?_)
      refine .require (fun hfits => .ite (fun _ => .pure (hnone (Nat.le_succ p))) fun _ => ?_)
        (.ite (fun _ => .pure (hnone (Nat.le_succ p))) fun hne => absurd rfl hne)
      have hkind : (input.tokenAt (p + 1)).kind = Kind.identifier := by simpa using hfits
      have hlt : p + 1 < input.size := Input.lt_size_of_kind hkind (by decide)
      refine .consume ((nameTail_leads n (p + 2)).bind fun names q _ hnames => .pure ?_)
      refine ⟨.skip (.token hlt hnames.1), ?_⟩
      exact List.forall_mem_cons.mpr ⟨⟨p + 1, rfl, hkind⟩, hnames.2⟩

/-- A name is carried from its first identifier on. -/
theorem qualifiedName_leads (p : Nat) : Attempt.Leads input (qualifiedName rules) p
    fun name q => input.CarriesName p (name.head :: name.tail) q := by
  refine .current (.ite (fun _ => .failure_bind) fun hkind => .advance ?_)
  have hkind' : (input.tokenAt p).kind = Kind.identifier := Decidable.not_not.mp hkind
  have hlt : p < input.size := Input.lt_size_of_kind hkind' (by decide)
  refine (Attempt.Leads.liftM (nameTail_leads _ (p + 1))).bind fun names q _ hnames => .pure ?_
  exact ⟨.token hlt hnames.1, List.forall_mem_cons.mpr ⟨⟨p, rfl, hkind'⟩, hnames.2⟩⟩

theorem Input.CarriesName.traces {q : Nat} {name : QualifiedName}
    (h : input.CarriesName p (name.head :: name.tail) q) : input.Carries p name.traces q := h.1

/-- The tokens of a name carry the parts of the text that it is stored as. -/
theorem Input.CarriesName.parts {q : Nat} {name : QualifiedName} (hdots : input.WordsUndotted)
    (h : input.CarriesName p (name.head :: name.tail) q) :
    input.Carries p (textTraces (nameParts name.dotted)) q := by
  have htexts : ∀ text ∈ (name.head :: name.tail).map Token.text, '.' ∉ text.toList := by
    intro text hmem
    obtain ⟨token, htoken, rfl⟩ := List.mem_map.mp hmem
    obtain ⟨i, rfl, hkind⟩ := h.2 token htoken
    exact hdots i (.inl hkind)
  have htextOnly := h.1.textOnly
  rw [List.map_map] at htextOnly
  rw [QualifiedName.dotted, nameParts_intercalate (by simp) htexts, textTraces, List.map_map]
  exact htextOnly

/-- What the rules make is carried by what they read, wherever they begin. -/
structure Rules.Carry (input : Input) (rules : Rules) : Prop where
  undotted : input.WordsUndotted
  expression : ∀ minimum p, Attempt.Leads input (rules.expression minimum) p
    fun node q => input.Carries p node.traces q
  /-- The modifiers of a class are carried from a place in front of it. -/
  classDeclaration : ∀ mods o p, input.Carries o (textTraces mods) p →
    Attempt.Leads input (rules.classDeclaration mods) p
      fun declaration q => input.Carries o declaration.traces q
  typeExpression : ∀ p, Attempt.Leads input rules.typeExpression p
    fun type q => input.Carries p type.traces q

section Rules

variable (hr : rules.Carry input)

include hr

/-- Each type is carried behind the one in front of it. -/
theorem typeListFrom_leads : ∀ n p, Parse.Leads input (typeListFrom rules n) p
    fun types q => input.Carries p (typesTraces types) q
  | 0, _ => .endless
  | n + 1, p => by
      refine .atEnd fun _ => .ite (fun _ => .pure .nil) fun _ => ?_
      refine (hr.typeExpression p).run (fun q hle => ?_) fun type q _ htype => ?_
      · exact Leads.reportFound.bind fun _ _ hle' _ => .pure (.of_le (Nat.le_trans hle hle'))
      refine .current (.ite (fun _ => .pure ?_) fun _ => .advance ?_)
      · exact htype.append .nil
      · refine (typeListFrom_leads n (q + 1)).bind fun types r _ htypes => .pure ?_
        exact htype.append (.skip htypes)

theorem genericArguments_leads (p : Nat) : Parse.Leads input (genericArguments rules) p
    fun types q => input.Carries p (typesTraces types) q := by
  refine .current (.ite (fun _ => .pure .nil) fun _ => .advance ?_)
  refine (typeListFrom_leads hr _ (p + 1)).bind fun types q _ htypes => ?_
  exact Leads.close.bind fun _ r hle _ => .pure (.skip (htypes.to_le hle))

/-- A type is carried by the word that it is or by the parts of its name. -/
theorem typeExpression_leads (p : Nat) :
    Attempt.Leads input (typeExpression rules) p
      fun type q => input.Carries p type.traces q := by
  refine .current (.ite (fun hkind => .advance ?_) fun _ => ?_)
  · have hlt : p < input.size := Input.lt_size_of_kind hkind (by decide)
    refine (Attempt.Leads.liftM (genericArguments_leads hr (p + 1))).bind
      fun generics q _ hgenerics => .pure ?_
    rw [TypeExpr.traces, nameParts_eq_singleton (hr.undotted p (.inr hkind))]
    exact .text hlt hgenerics
  · refine (qualifiedName_leads p).bind fun name q _ hname => ?_
    refine (Attempt.Leads.liftM (genericArguments_leads hr q)).bind fun generics r _ hgenerics =>
      .pure ?_
    exact (hname.parts hr.undotted).append hgenerics

/-! ## Access chains and arguments -/

/-- Each argument is carried behind the one in front of it. -/
theorem argumentsFrom_leads : ∀ n p, Parse.Leads input (argumentsFrom rules n) p
    fun nodes q => input.Carries p (nodesTraces nodes) q
  | 0, _ => .endless
  | n + 1, p => by
      refine .atEnd fun _ => .ite (fun _ => .pure .nil) fun _ => ?_
      refine .current (.ite (fun _ => .pure .nil) fun _ => ?_)
      refine (hr.expression 0 p).run (fun q hle => .pure (.of_le hle))
        fun argument q _ hargument => ?_
      refine .current (.ite (fun _ => .pure ?_) fun _ => .advance ?_)
      · exact hargument.append .nil
      · refine (argumentsFrom_leads n (q + 1)).bind fun nodes r _ hnodes => .pure ?_
        exact hargument.append (.skip hnodes)

theorem arguments_leads (p : Nat) : Parse.Leads input (arguments rules) p
    fun nodes q => input.Carries p (nodesTraces nodes) q := by
  refine .require (fun _ => .ite (fun _ => .pure .nil) fun _ => .advance ?_)
    (.ite (fun _ => .pure .nil) fun hne => absurd rfl hne)
  refine (argumentsFrom_leads hr _ (p + 1)).bind fun nodes q _ hnodes => ?_
  exact Leads.close.bind fun _ r hle _ => .pure (.skip (hnodes.to_le hle))

/-- Each step of a chain is carried behind the one in front of it. -/
theorem accesses_leads : ∀ n p, Parse.Leads input (accesses rules n) p
    fun steps q => input.Carries p (accessesTraces steps) q
  | 0, _ => .endless
  | n + 1, p => by
      refine .current (.ite (fun _ => .advance ?_) fun _ => .ite (fun _ => .advance ?_) fun _ =>
        .ite (fun _ => ?_) fun _ => .pure .nil)
      · have hnone : input.Carries p [] (p + 1) := .of_le (Nat.le_succ p)
        refine .require (fun hfits => .ite (fun _ => .pure hnone) fun _ => .consume ?_)
          (.ite (fun _ => .pure hnone) fun hne => absurd rfl hne)
        have hkind : (input.tokenAt (p + 1)).kind = Kind.identifier := by simpa using hfits
        have hlt : p + 1 < input.size := Input.lt_size_of_kind hkind (by decide)
        refine (accesses_leads n (p + 2)).bind fun steps q _ hsteps => .pure ?_
        exact .skip (.token hlt hsteps)
      · refine (hr.expression 0 (p + 1)).run
          (fun q hle => .pure (.of_le (Nat.le_of_succ_le hle))) fun index q _ hindex => ?_
        -- an index without its closing bracket is kept
        have halone : input.Carries p (accessesTraces [.index index]) q :=
          (Input.Carries.skip hindex).append .nil
        refine .require (fun _ => .ite (fun _ => .pure halone) fun _ => .advance ?_)
          (.ite (fun _ => .pure halone) fun hne => absurd rfl hne)
        refine (accesses_leads n (q + 1)).bind fun steps r _ hsteps => .pure ?_
        exact (Input.Carries.skip hindex).append (.skip hsteps)
      · refine (arguments_leads hr p).bind fun values q _ hvalues => ?_
        exact (accesses_leads n q).bind fun steps r _ hsteps => .pure (hvalues.append hsteps)

/-- A chain is carried by its target and its steps. -/
theorem accessChain_leads (p : Nat) : Attempt.Leads input (accessChain rules) p
    fun chain q => input.Carries p (Node.access chain.1 chain.2).traces q := by
  refine .current (.ite (fun _ => .failure_bind) fun hkind => .advance ?_)
  have hlt : p < input.size := Input.lt_size_of_kind (Decidable.not_not.mp hkind) (by decide)
  refine (Attempt.Leads.liftM (accesses_leads hr _ (p + 1))).bind fun steps q _ hsteps => .pure ?_
  exact .token hlt hsteps

/-! ## Statements -/

/-- A statement that could not be made is passed over. -/
theorem statement_leads (stops : List String) (p : Nat) :
    Parse.Leads input (statement rules stops) p
      fun nodes q => input.Carries p (nodesTraces nodes) q := by
  refine .mark fun start => ?_
  have hbehind : ∀ (node : Option Node) q, input.Carries p (nodesTraces node.toList) q →
      Parse.Leads input (do skip ";"; recover start stops; return node.toList) q
        fun nodes r => input.Carries p (nodesTraces nodes) r := by
    intro node q hnode
    refine Leads.skip.bind fun _ r hle _ => Leads.recover.bind fun _ u hle' _ => .pure ?_
    exact (hnode.to_le hle).to_le hle'
  refine (hr.expression 0 p).run (fun q hle => hbehind none q (.of_le hle)) fun node q _ hnode => ?_
  exact hbehind (some node) q (hnode.append .nil)

/-- What a statement took and did not keep lies between the nodes of a sequence. -/
theorem sequenceFrom_leads (terminator : Option String) : ∀ n p,
    Parse.Leads input (sequenceFrom rules terminator n) p
      fun nodes q => input.Carries p (nodesTraces nodes) q
  | 0, _ => .endless
  | n + 1, p => by
      refine .atEnd fun _ => .ite (fun _ => .pure .nil) fun _ => ?_
      refine .current (.ite (fun _ => .pure .nil) fun _ => ?_)
      refine (statement_leads hr _ p).bind fun first q _ hfirst => ?_
      refine (sequenceFrom_leads terminator n q).bind fun rest r _ hrest => .pure ?_
      rw [nodesTraces_append]
      exact hfirst.append hrest

theorem program_leads (p : Nat) : Parse.Leads input (program rules) p
    fun tree q => input.Carries p tree.traces q :=
  (sequenceFrom_leads hr none _ p).bind fun _ _ _ hbody => .pure hbody

theorem bracedBlock_leads (p : Nat) : Attempt.Leads input (bracedBlock rules) p
    fun nodes q => input.Carries p (nodesTraces nodes) q := by
  refine .needSymbol ((Attempt.Leads.liftM (sequenceFrom_leads hr _ _ (p + 1))).bind
    fun body q _ hbody => ?_)
  exact (Attempt.Leads.liftM Leads.close).bind fun _ r hle _ => .pure (.skip (hbody.to_le hle))

theorem condition_leads (keyword : String) (p : Nat) :
    Attempt.Leads input (condition rules keyword) p
      fun node q => input.Carries p node.traces q := by
  refine .needSymbol ((hr.expression 0 (p + 1)).bind fun value q _ hvalue => ?_)
  exact .needSymbol (.pure (.skip (hvalue.to_le (Nat.le_succ q))))

/-- Branches that cannot be made leave the branches in front of them. -/
theorem branches_leads : ∀ n keyword p, Attempt.Leads input (branches rules keyword n) p
    fun parts q => input.Carries p (Node.ifStatement parts.1 parts.2.1 parts.2.2).traces q
  | 0, _, _ => .endless
  | n + 1, keyword, p => by
      refine (condition_leads hr keyword p).bind fun value q _ hvalue => ?_
      refine (bracedBlock_leads hr q).bind fun consequent r _ hconsequent => ?_
      have halone : ∀ {u}, r ≤ u →
          input.Carries p (Node.ifStatement value consequent .none).traces u := fun hle =>
        hvalue.append (hconsequent.append (.of_le hle))
      refine .current (.ite (fun _ => .pure (halone (Nat.le_refl r))) fun _ => .advance ?_)
      refine .current (.ite (fun _ => .advance ?_) fun _ => ?_)
      · refine (branches_leads n "else if" (r + 2)).bindOrNone
          (fun u hle => .pure (halone (by omega))) fun parts u _ hparts => .pure ?_
        exact hvalue.append (hconsequent.append (.skip (.skip hparts)))
      · refine (bracedBlock_leads hr (r + 1)).bindOrNone
          (fun u hle => .pure (halone (by omega))) fun body u _ hbody => .pure ?_
        exact hvalue.append (hconsequent.append (.skip hbody))

theorem ifStatement_leads (p : Nat) : Attempt.Leads input (ifStatement rules) p
    fun node q => input.Carries p node.traces q :=
  .needKeyword fun _ =>
    (branches_leads hr _ _ (p + 1)).bind fun _ _ _ hparts => .pure (.skip hparts)

theorem whileStatement_leads (p : Nat) : Attempt.Leads input (whileStatement rules) p
    fun node q => input.Carries p node.traces q := by
  refine .needKeyword fun _ => (condition_leads hr _ (p + 1)).bind fun value q _ hvalue => ?_
  refine (bracedBlock_leads hr q).bind fun consequent r _ hconsequent => .pure ?_
  exact .skip (hvalue.append hconsequent)

/-! ## Declarations -/

omit hr in
theorem genericNamesFrom_leads : ∀ n p, Attempt.Leads input (genericNamesFrom n) p
    fun names q => input.Carries p (textTraces names) q
  | 0, _ => .endless
  | n + 1, p => by
      refine .atEnd fun _ => .ite (fun _ => .pure .nil) fun _ => ?_
      refine .current (.ite (fun _ => .pure .nil) fun _ => ?_)
      refine .needIdentifier fun hlt => .current (.ite (fun _ => .pure ?_) fun _ => .advance ?_)
      · exact .text hlt .nil
      · refine (genericNamesFrom_leads n (p + 2)).bind fun names q _ hnames => .pure ?_
        exact .text hlt (.skip hnames)

omit hr in
theorem genericNames_leads (p : Nat) : Attempt.Leads input (genericNames rules) p
    fun names q => input.Carries p (textTraces names) q := by
  refine .current (.ite (fun _ => .pure .nil) fun _ => .advance ?_)
  refine (genericNamesFrom_leads _ (p + 1)).bind fun names q _ hnames => ?_
  exact .needSymbol (.pure (.skip (hnames.to_le (Nat.le_succ q))))

/-- Each base is carried behind the one in front of it. -/
theorem basesFrom_leads : ∀ n p,
    Parse.Leads input (basesFrom rules n) p fun types q => input.Carries p (typesTraces types) q
  | 0, _ => .endless
  | n + 1, p => by
      refine (typeExpression_leads hr p).run (fun q hle => ?_) fun type q _ htype => ?_
      · exact Leads.reportFound.bind fun _ _ hle' _ => .pure (.of_le (Nat.le_trans hle hle'))
      refine .current (.ite (fun _ => .pure ?_) fun _ => .advance ?_)
      · exact htype.append .nil
      · refine (basesFrom_leads n (q + 1)).bind fun types r _ htypes => .pure ?_
        exact htype.append (.skip htypes)

theorem bases_leads (p : Nat) : Parse.Leads input (bases rules) p
    fun types q => input.Carries p (typesTraces types) q := by
  refine .current (.ite (fun _ => .pure .nil) fun _ => .advance ?_)
  exact (basesFrom_leads hr _ (p + 1)).mono fun _ _ htypes => .skip htypes

/-- Braces that are counted leave no trace. -/
theorem methodStatements_leads : ∀ n depth p, Parse.Leads input (methodStatements rules n depth) p
    fun nodes q => input.Carries p (nodesTraces nodes) q
  | 0, _, _ => .endless
  | n + 1, depth, p => by
      refine .atEnd fun _ => .ite (fun _ => .pure .nil) fun _ => ?_
      refine .current (.ite (fun _ => .pure .nil) fun _ => ?_)
      refine (statement_leads hr _ p).bind fun first q _ hfirst => ?_
      refine (methodStatements_leads n _ q).bind fun rest r _ hrest => .pure ?_
      rw [nodesTraces_append]
      exact hfirst.append hrest

theorem methodBody_leads (p : Nat) : Parse.Leads input (methodBody rules) p
    fun nodes q => input.Carries p (nodesTraces nodes) q := by
  refine .advance ((methodStatements_leads hr _ 1 (p + 1)).bind fun body q _ hbody => ?_)
  refine .current (.ite (fun _ => .advance (.pure ?_)) fun _ => ?_)
  · exact .skip (hbody.to_le (Nat.le_succ q))
  · exact Leads.report.bind fun _ _ hle _ => .pure (.skip (hbody.to_le hle))

omit hr in
/-- The modifiers are carried one behind the other. -/
theorem memberModifiers_leads : ∀ n p, Parse.Leads input (memberModifiers n) p
    fun mods q => input.Carries p (textTraces mods) q
  | 0, _ => .endless
  | n + 1, p => by
      refine .current (.ite (fun hmodifier => .advance ?_) fun _ => .pure .nil)
      have hkind : (input.tokenAt p).kind = Kind.keyword :=
        of_decide_eq_true (Bool.and_eq_true_iff.mp hmodifier).1
      have hlt : p < input.size := Input.lt_size_of_kind hkind (by decide)
      exact (memberModifiers_leads n (p + 1)).bind fun mods q _ hmods => .pure (.text hlt hmods)

/-- What a field or a method begins with is carried from a place in front of its parameters. -/
theorem method_leads {mods : List String} {type : TypeExpr} {name : String} {offset o p : Nat}
    (hhead : input.Carries o (headTraces mods type name offset) p) :
    Attempt.Leads input (method rules mods type name offset) p
      fun made q => input.Carries o made.traces q := by
  refine (Attempt.Leads.liftM (arguments_leads hr p)).bind fun parameters q _ hparameters => ?_
  refine .current (.ite (fun _ => ?_) fun _ => .ite (fun _ => .advance (.pure ?_)) fun _ => ?_)
  · refine (Attempt.Leads.liftM (methodBody_leads hr q)).bind fun body r _ hbody => .pure ?_
    exact hhead.append (hparameters.append hbody)
  · exact hhead.append (hparameters.to_le (Nat.le_succ q))
  · exact (Attempt.Leads.liftM Leads.report).bind fun _ _ _ _ => .failure

/-- What stands in front of the name is carried from an earlier place. -/
theorem memberRest_leads {mods : List String} {type : TypeExpr} {name : String} {offset o p : Nat}
    (hhead : input.Carries o (headTraces mods type name offset) p) :
    Attempt.Leads input (memberRest rules mods type name offset) p
      fun made q => input.Carries o made.traces q := by
  refine .current (.ite (fun _ => method_leads hr hhead) fun _ =>
    .ite (fun _ => .advance (.pure ?_)) fun _ => ?_)
  · exact hhead.to_le (Nat.le_succ p)
  · exact (Attempt.Leads.liftM Leads.report).bind fun _ _ _ _ => .failure

/-- A member keeps its modifiers in front of its type, and its type in front of its name. -/
theorem member_leads (p : Nat) :
    Attempt.Leads input (member rules) p fun made q => input.Carries p made.traces q := by
  refine .current ((Attempt.Leads.liftM (memberModifiers_leads _ p)).bind
    fun mods q hpq hmods => ?_)
  refine .current (.ite (fun _ => ?_) fun _ => ?_)
  · exact (hr.classDeclaration mods p q hmods).bind fun _ _ _ hclass => .pure hclass
  refine (typeExpression_leads hr q).bindOrNone (fun r _ => .current ?_)
    fun type r hqr htype => ?_
  · exact (Attempt.Leads.liftM Leads.report).bind fun _ _ _ _ => .failure
  refine .needIdentifier fun hlt => memberRest_leads hr ?_
  -- the member begins at a token, since its name stands at one
  exact .start (Nat.lt_of_le_of_lt (Nat.le_trans hpq hqr) hlt)
    ((hmods.append htype).append (.text hlt .nil))

omit hr in
theorem usingTarget_leads {isStatic : Bool} (p : Nat) :
    Attempt.Leads input (usingTarget rules isStatic) p
      fun directive q => input.Carries p directive.traces q := by
  have halias : Parse.Leads input usingAlias p
      fun aliasName q => input.Carries p (textTraces aliasName.toList) q := by
    intro d
    rw [meets_usingAlias]
    split
    · next hname =>
      have hlt : p < input.size := Input.lt_size_of_kind hname.1 (by decide)
      exact ⟨p + 2, d, rfl, by omega, .text hlt (.of_le (Nat.le_succ _))⟩
    · exact ⟨p, d, rfl, Nat.le_refl p, .nil⟩
  refine (Attempt.Leads.lift halias).bind fun aliasName q _ hname => ?_
  refine (qualifiedName_leads q).bindOrNone (fun r _ => .current ?_) fun target r _ htarget => ?_
  · exact (Attempt.Leads.liftM Leads.report).bind fun _ _ _ _ => .failure
  refine (Attempt.Leads.liftM Leads.close).bind fun _ u hle _ => .pure ?_
  exact hname.append (htarget.traces.to_le hle)

omit hr in
theorem usingDirective_leads (p : Nat) : Attempt.Leads input (usingDirective rules) p
    fun directive q => input.Carries p directive.traces q := by
  refine .needKeyword fun _ => .current (.ite (fun _ => .advance ?_) fun _ => ?_)
  · exact (usingTarget_leads (p + 2)).mono fun _ _ hdirective => .skip (.skip hdirective)
  · exact (usingTarget_leads (p + 1)).mono fun _ _ hdirective => .skip hdirective

theorem bodyMember_leads (inNamespace : Bool) (p : Nat) :
    Attempt.Leads input (bodyMember rules inNamespace) p
      fun made q => input.Carries p made.traces q := by
  refine .current (.ite (fun _ => ?_) fun _ => member_leads hr p)
  exact (usingDirective_leads p).bind fun _ _ _ hdirective => .pure hdirective

/-- A member that could not be made is passed over. -/
theorem membersFrom_leads (inNamespace : Bool) : ∀ n p,
    Parse.Leads input (membersFrom rules inNamespace n) p
      fun members q => input.Carries p (membersTraces members) q
  | 0, _ => .endless
  | n + 1, p => by
      refine .atEnd fun _ => .ite (fun _ => .pure .nil) fun _ => ?_
      refine .current (.ite (fun _ => .pure .nil) fun _ => .mark fun start => ?_)
      have hbehind : ∀ (made : Option Member) q, input.Carries p (membersTraces made.toList) q →
          Parse.Leads input (do
            recover start [closeBrace]
            return made.toList ++ (← membersFrom rules inNamespace n)) q
            fun members r => input.Carries p (membersTraces members) r := by
        intro made q hmade
        refine Leads.recover.bind fun _ r hle _ => ?_
        refine (membersFrom_leads inNamespace n r).bind fun rest u _ hrest => .pure ?_
        rw [membersTraces_append]
        exact (hmade.to_le hle).append hrest
      refine (bodyMember_leads hr inNamespace p).run
        (fun q hle => hbehind none q (.of_le hle)) fun made q _ hmade => ?_
      exact hbehind (some made) q (hmade.append .nil)

/-- The modifiers of a class are carried from where they were read. -/
theorem classDeclaration_leads {mods : List String} {o p : Nat}
    (hmods : input.Carries o (textTraces mods) p) :
    Attempt.Leads input (classDeclaration rules mods) p
      fun declaration q => input.Carries o declaration.traces q := by
  refine .current (.needKeyword fun hword => .needIdentifier fun hname => ?_)
  have hlt : p < input.size := Input.lt_size_of_isKeyword hword
  refine (genericNames_leads (p + 2)).bind fun generics q _ hgenerics => ?_
  refine (Attempt.Leads.liftM (bases_leads hr q)).bind fun baseTypes r _ hbases => ?_
  refine .needSymbol ?_
  refine (Attempt.Leads.liftM (membersFrom_leads hr false _ (r + 1))).bind
    fun members u _ hmembers => ?_
  refine (Attempt.Leads.liftM Leads.close).bind fun _ v hle _ => .pure ?_
  have hbody := hbases.append (Input.Carries.skip (hmembers.to_le hle))
  exact hmods.append (.start hlt (.skip (.text hname (hgenerics.append hbody))))

theorem namespaceDeclaration_leads (p : Nat) :
    Attempt.Leads input (namespaceDeclaration rules) p
      fun node q => input.Carries p node.traces q := by
  refine .current (.needKeyword fun hword => ?_)
  have hlt : p < input.size := Input.lt_size_of_isKeyword hword
  refine (qualifiedName_leads (p + 1)).bindOrNone (fun q _ => ?_) fun name q _ hname => ?_
  · exact (Attempt.Leads.liftM Leads.reportFound).bind fun _ _ _ _ => .failure
  refine .current (.ite (fun _ => .advance (.pure ?_)) fun _ => .needSymbol ?_)
  · exact .start hlt (.skip (hname.traces.append (.of_le (Nat.le_succ q))))
  refine (Attempt.Leads.liftM (membersFrom_leads hr true _ (q + 1))).bind
    fun members r _ hmembers => ?_
  refine (Attempt.Leads.liftM Leads.close).bind fun _ u hle _ => .pure ?_
  exact .start hlt (.skip (hname.traces.append (.skip (hmembers.to_le hle))))

/-! ## Expressions -/

omit hr in
theorem templateLiteral_leads (p : Nat) : Attempt.Leads input templateLiteral p
    fun node q => input.Carries p node.traces q := by
  refine .current (.ite (fun _ => .failure_bind) fun hkind => .advance (.pure ?_))
  exact .text (Input.lt_size_of_kind (Decidable.not_not.mp hkind) (by decide)) .nil

omit hr in
/-- An operand is carried from a place in front of what stands behind it. -/
theorem postfixes_leads {o : Nat} : ∀ n operand p, input.Carries o operand.traces p →
    Parse.Leads input (postfixes n operand) p fun node q => input.Carries o node.traces q
  | 0, _, _, _ => .endless
  | n + 1, operand, p, hoperand => by
      refine .current (.ite (fun hsign => .advance (postfixes_leads n _ (p + 1) ?_)) fun _ =>
        .pure hoperand)
      have hlt : p < input.size := by
        rcases Bool.or_eq_true_iff.mp hsign with hplus | hminus
        · exact Input.lt_size_of_isSymbol hplus
        · exact Input.lt_size_of_isSymbol hminus
      exact hoperand.append (.text hlt .nil)

/-- What is assigned stands behind what it is assigned to. -/
theorem identifierExpression_leads (p : Nat) : Attempt.Leads input (identifierExpression rules) p
    fun node q => input.Carries p node.traces q := by
  refine (accessChain_leads hr p).bind fun chain q _ hchain => ?_
  refine (Attempt.Leads.liftM (postfixes_leads _ _ q hchain)).bind fun left r _ hleft => ?_
  refine .current (.ite (fun _ => .pure hleft) fun hsign => .advance ?_)
  have hsymbol : (input.tokenAt r).isSymbol "=" = true := by simpa using hsign
  have hlt : r < input.size := Input.lt_size_of_isSymbol hsymbol
  refine (hr.expression 0 (r + 1)).bind fun right u _ hright => .pure ?_
  rw [Node.traces, ← (Token.isSymbol_iff.mp hsymbol).2]
  exact hleft.append (.text hlt hright)

theorem parenthesized_leads (p : Nat) : Attempt.Leads input (parenthesized rules) p
    fun node q => input.Carries p node.traces q := by
  refine .advance ((hr.expression 0 (p + 1)).bind fun inner q _ hinner => ?_)
  exact .needSymbol (.pure (.skip (hinner.to_le (Nat.le_succ q))))

omit hr in
/-- Without plugins nothing is made of a token that begins no rule. -/
theorem extensionExpression_leads {token : Token} {post : Node → Nat → Prop} (p : Nat) :
    Attempt.Leads input (extensionExpression .none rules token) p post := by
  intro d
  simp only [extensionExpression, Hooks.none, firstExtension, Attempt.meets_bind,
    Attempt.meets_liftM, meets_cursor, Attempt.meets_orNone, Attempt.meets_failure,
    meets_reportAt]
  exact ⟨p, _, rfl, Nat.le_refl p, trivial⟩

theorem primary_leads (p : Nat) :
    Attempt.Leads input (primary .none rules) p fun node q => input.Carries p node.traces q := by
  refine .current (.ite (fun hliteral => .advance (.pure ?_)) fun _ => ?_)
  · have hkind : (input.tokenAt p).kind ≠ Kind.endOfInput := by
      intro hend
      rw [hend] at hliteral
      exact absurd hliteral (by decide)
    exact .text (Input.lt_size_of_kind_ne hkind) .nil
  refine .ite (fun _ => identifierExpression_leads hr p) fun _ => ?_
  refine .ite (fun _ => parenthesized_leads hr p) fun _ => ?_
  refine .ite (fun _ => ?_) fun _ => ?_
  · exact (classDeclaration_leads hr .nil).map fun _ _ hclass => hclass
  refine .ite (fun _ => (usingDirective_leads p).map fun _ _ hdirective => hdirective) fun _ => ?_
  refine .ite (fun _ => namespaceDeclaration_leads hr p) fun _ => ?_
  refine .ite (fun _ => templateLiteral_leads p) fun _ => ?_
  refine .ite (fun _ => ifStatement_leads hr p) fun _ => ?_
  refine .ite (fun _ => whileStatement_leads hr p) fun _ => ?_
  refine .ite (fun _ => ?_) fun _ => extensionExpression_leads p
  exact (Attempt.Leads.liftM Leads.reportAt).bind fun _ _ _ _ => .failure

/-- An operator in front of its operand is carried by its own token. -/
theorem operand_leads (p : Nat) :
    Attempt.Leads input (operand .none rules) p fun node q => input.Carries p node.traces q := by
  refine .current (.ite (fun hsign => .advance ?_) fun _ => primary_leads hr p)
  have hkind : (input.tokenAt p).kind = Kind.symbol :=
    of_decide_eq_true (Bool.and_eq_true_iff.mp hsign).1
  have hlt : p < input.size := Input.lt_size_of_kind hkind (by decide)
  exact (hr.expression _ (p + 1)).bind fun argument q _ hargument => .pure (.text hlt hargument)

/-- An operator without a right operand is dropped, and the left operand is kept. -/
theorem operators_leads (minimum : Nat) {o : Nat} : ∀ n left p, input.Carries o left.traces p →
    Parse.Leads input (operators rules minimum n left) p fun node q => input.Carries o node.traces q
  | 0, _, _, _ => .endless
  | n + 1, left, p, hleft => by
      refine .current (.ite (fun _ => .pure hleft) fun hsymbol => ?_)
      have hlt : p < input.size :=
        Input.lt_size_of_kind (Decidable.not_not.mp hsymbol) (by decide)
      split
      · exact .pure hleft
      · refine .ite (fun _ => .pure hleft) fun _ => .advance ?_
        refine (hr.expression _ (p + 1)).run (fun q hle => .pure ?_) fun right q _ hright => ?_
        · exact hleft.to_le (Nat.le_of_succ_le hle)
        · exact operators_leads minimum n _ q (hleft.append (.text hlt hright))

/-- The right operand stands behind the operator, and that behind the left one. -/
theorem expression_leads (minimum p : Nat) :
    Attempt.Leads input (expression .none rules minimum) p
      fun node q => input.Carries p node.traces q :=
  (operand_leads hr p).bind fun left q _ hleft =>
    .liftM (operators_leads hr minimum _ left q hleft)

end Rules

/-! ## Rules of every level -/

theorem Rules.carry_ofDepth (hdots : input.WordsUndotted) (budget : Nat) : ∀ depth,
    (Rules.ofDepth .none budget depth).Carry input
  | 0 => {
      undotted := hdots
      expression := fun _ _ => .endless
      classDeclaration := fun _ _ _ _ => .endless
      typeExpression := fun _ => .endless }
  | depth + 1 =>
    have hr := Rules.carry_ofDepth hdots budget depth
    { undotted := hdots
      expression := fun minimum p => expression_leads hr minimum p
      classDeclaration := fun _ _ _ hmods => classDeclaration_leads hr hmods
      typeExpression := fun p => typeExpression_leads hr p }

end SharpSyntax
