import SharpSyntax.Proofs.ProgramSpelling
import SharpSyntax.Proofs.ReadBack

/-!
# Printed programs are read back

A parser reads a printed program as the program that was printed. The induction over the levels of
the rules is the one of expressions, with three contracts beside it: what the rules of a level make
of a printed statement, of a printed class and of a printed type. Each list of a program is read by
a loop, and each of these loops is followed along the list that was printed.

Most constructs are closed by a token of their own, and what stands behind them does not matter. A
statement is closed by the semicolon behind it and a type by what is neither a dot nor an angle
bracket.
-/

namespace SharpSyntax

open Parse Grammar

variable {α : Type} {input : Input} {p q r n : Nat} {d : Array Diagnostic} {rules : Rules}
  {hooks : Hooks} {bare : Nat → Bool}

/-! ## Names -/

/-- The tail of a name ends where no dot follows. -/
theorem nameTail_meets : ∀ (pieces : List Piece) (n p q : Nat),
    (∀ piece ∈ pieces, piece.kind = Kind.identifier) → input.Shows p (behindDots pieces) q →
    (input.tokenAt q).isSymbol "." = false →
    Parse.Meets True input (nameTail n) (.at p d) fun names t =>
      List.Forall₂ Piece.Matches pieces names ∧ t = .at q d
  | _, 0, _, _, _, _, _ => trivial
  | [], n + 1, p, q, _, hshows, hdot => by
      obtain rfl : p = q := hshows
      simp [nameTail, hdot]
  | piece :: pieces, n + 1, p, q, hid, hshows, hend => by
      obtain ⟨hdot, hname, hrest⟩ := hshows
      rw [Piece.matches_symbol] at hdot
      have hkind : (input.tokenAt (p + 1)).kind = Kind.identifier :=
        hname.1.trans (hid piece (by simp))
      simp only [nameTail, meets_bind, meets_ite, meets_current, hdot, meets_advance,
        meets_require, Token.fits_identifier, hkind]
      refine (nameTail_meets pieces n (p + 1 + 1) q (fun other hmem => hid other (by simp [hmem]))
        hrest hend).mono fun names t => ?_
      rintro ⟨hnames, rfl⟩
      exact ⟨.cons hname hnames, rfl⟩

theorem qualifiedName_meets {head : Piece} {pieces : List Piece}
    (hhead : head.kind = Kind.identifier) (hid : ∀ piece ∈ pieces, piece.kind = Kind.identifier)
    (hshows : input.Shows p (head :: behindDots pieces) q)
    (hdot : (input.tokenAt q).isSymbol "." = false) :
    Attempt.Meets True input (qualifiedName rules) (.at p d)
      (fun name t => head.Matches name.head ∧ List.Forall₂ Piece.Matches pieces name.tail ∧
        t = .at q d) fun _ => False := by
  obtain ⟨hmatches, htail⟩ := hshows
  have hkind : (input.tokenAt p).kind = Kind.identifier := hmatches.1.trans hhead
  simp only [qualifiedName, Attempt.meets_bind, Attempt.meets_ite, Attempt.meets_liftM,
    meets_current, hkind]
  refine (nameTail_meets pieces _ (p + 1) q hid htail hdot).mono fun names t => ?_
  rintro ⟨hnames, rfl⟩
  exact ⟨hmatches, hnames, rfl⟩

theorem eq_of_forall₂_exactly {tokens names : List Token}
    (h : List.Forall₂ Piece.Matches (tokens.map .exactly) names) : names = tokens := by
  rw [List.forall₂_map_left_iff] at h
  induction h with
  | nil => rfl
  | cons hmatches _ ih => rw [Piece.matches_exactly.mp hmatches, ih]

theorem texts_of_forall₂_identifier {texts : List String} {names : List Token}
    (h : List.Forall₂ Piece.Matches (texts.map .identifier) names) :
    names.map Token.text = texts := by
  rw [List.forall₂_map_left_iff] at h
  induction h with
  | nil => rfl
  | cons hmatches _ ih => rw [List.map_cons, (Piece.matches_identifier.mp hmatches).2, ih]

/-- A well-formed name is read back from its parts. -/
theorem qualifiedName_gives {name : QualifiedName} (hname : name.WellFormed)
    (hshows : input.Shows p name.spelling q) (hdot : (input.tokenAt q).isSymbol "." = false) :
    Attempt.Gives input (qualifiedName rules) p name q := by
  intro d
  refine (qualifiedName_meets hname.1 (fun piece hmem => ?_) hshows hdot).mono (fun made t => ?_)
    fun _ h => h
  · obtain ⟨part, hpart, rfl⟩ := List.mem_map.mp hmem
    exact hname.2 part hpart
  · rintro ⟨hhead, htail, rfl⟩
    have hhead' := Piece.matches_exactly.mp hhead
    have htail' := eq_of_forall₂_exactly htail
    cases made
    cases name
    simp_all

/-! ## Types -/

/-- A token that no type takes. -/
def Token.EndsType (token : Token) : Prop :=
  token.isSymbol "." = false ∧ token.isSymbol "<" = false

theorem Token.endsType_of_isSymbol {token : Token} {text : String}
    (h : token.isSymbol text = true) (hdot : text ≠ ".") (hopen : text ≠ "<") : token.EndsType :=
  ⟨Token.isSymbol_eq_false h "." hdot, Token.isSymbol_eq_false h "<" hopen⟩

theorem Token.endsType_of_kind {token : Token} (h : token.kind ≠ Kind.symbol) : token.EndsType :=
  ⟨Token.isSymbol_eq_false_of_kind h ".", Token.isSymbol_eq_false_of_kind h "<"⟩

/-- The rules of a level read printed types back. -/
def Rules.ReadsTypes (input : Input) (rules : Rules) : Prop :=
  ∀ (p q : Nat) (type : TypeExpr), input.Shows p type.spelling q → (input.tokenAt q).EndsType →
    Attempt.Gives input rules.typeExpression p type q

/-- A printed type begins with its reserved word or with an identifier. -/
theorem TypeExpr.begins {type : TypeExpr} (hshows : input.Shows p type.spelling q) :
    type.simple = true ∧ (input.tokenAt p).isKeyword type.name = true ∨
      (input.tokenAt p).kind = Kind.identifier := by
  obtain ⟨simple, name, generics⟩ := type
  cases simple with
  | true => exact .inl ⟨rfl, Piece.matches_keyword.mp hshows.1⟩
  | false => exact .inr hshows.1.1

theorem TypeExpr.lt_size {type : TypeExpr} (hshows : input.Shows p type.spelling q) :
    p < input.size := by
  rcases TypeExpr.begins hshows with ⟨-, hword⟩ | hid
  · exact Input.lt_size_of_isKeyword hword
  · exact Input.lt_size_of_kind hid (by decide)

/-- Types are read back one by one, up to their angle bracket. -/
theorem typeListFrom_gives (hr : rules.ReadsTypes input) :
    ∀ (type : TypeExpr) (types : List TypeExpr) (n p q : Nat),
      input.Shows p (typesSpelling (type :: types)) q → (input.tokenAt q).isSymbol ">" = true →
      Parse.Gives input (typeListFrom rules n) p (type :: types) q
  | _, _, 0, _, _, _, _ => fun _ => trivial
  | type, types, n + 1, p, q, hshows, hclose => by
      intro d
      obtain ⟨r, htype, hfurther⟩ := Input.shows_append.mp hshows
      have hlt := TypeExpr.lt_size htype
      simp only [typeListFrom, meets_bind, meets_ite, Attempt.meets_run, meets_atEnd,
        Nat.not_le.mpr hlt, decide_false]
      cases types with
      | nil =>
          obtain rfl : r = q := hfurther
          refine (hr p r type htype (Token.endsType_of_isSymbol hclose (by decide)
            (by decide))).meets ?_
          -- the list ends at the angle bracket, which is no comma
          have hcomma := Token.isSymbol_eq_false hclose "," (by decide)
          simp [hcomma]
      | cons next types =>
          obtain ⟨hcomma, hnext⟩ := hfurther
          rw [Piece.matches_symbol] at hcomma
          refine (hr p r type htype (Token.endsType_of_isSymbol hcomma (by decide)
            (by decide))).meets ?_
          simp only [meets_current, hcomma]
          exact (typeListFrom_gives hr next types n (r + 1) q hnext hclose).meets ⟨rfl, rfl⟩

theorem genericArguments_gives (hr : rules.ReadsTypes input) {types : List TypeExpr}
    (hshows : input.Shows p (genericsSpelling types) q) (hends : (input.tokenAt q).EndsType) :
    Parse.Gives input (genericArguments rules) p types q := by
  intro d
  cases types with
  | nil =>
      obtain rfl : p = q := hshows
      simp [genericArguments, hends.2]
  | cons type types =>
      obtain ⟨hopen, hrest⟩ := hshows
      obtain ⟨r, htypes, hclose, hend⟩ := Input.shows_append.mp hrest
      obtain rfl : r + 1 = q := hend
      rw [Piece.matches_symbol] at hopen hclose
      simp only [genericArguments, typeList, meets_bind, meets_ite, meets_current, hopen,
        Bool.not_true, Bool.false_eq_true, if_false]
      refine (typeListFrom_gives hr type types _ (p + 1) r htypes hclose).meets ?_
      simp [hclose]

/-- A type is read back where no angle bracket goes on with it. -/
theorem typeExpression_gives (hr : rules.ReadsTypes input) {type : TypeExpr}
    (hshows : input.Shows p type.spelling q) (hends : (input.tokenAt q).EndsType) :
    Attempt.Gives input (typeExpression rules) p type q := by
  intro d
  obtain ⟨simple, name, generics⟩ := type
  cases simple with
  | true =>
      obtain ⟨hword, hgenerics⟩ := hshows
      obtain ⟨hkind, htext⟩ := Token.isKeyword_iff.mp (Piece.matches_keyword.mp hword)
      simp only [typeExpression, Attempt.meets_bind, Attempt.meets_ite, Attempt.meets_liftM,
        meets_current, hkind, htext]
      exact (genericArguments_gives hr hgenerics hends).meets ⟨rfl, rfl⟩
  | false =>
      have hshows' : input.Shows p ((Piece.identifier ((nameParts name).headD "") ::
          behindDots ((nameParts name).tail.map .identifier)) ++ genericsSpelling generics) q :=
        hshows
      obtain ⟨r, hname, hgenerics⟩ := Input.shows_append.mp hshows'
      have hkind : (input.tokenAt p).kind = Kind.identifier := hname.1.1
      have hword : Kind.identifier ≠ Kind.keyword := by decide
      simp only [typeExpression, Attempt.meets_bind, Attempt.meets_ite, Attempt.meets_liftM,
        meets_current, hkind, hword, if_false]
      have hdot : (input.tokenAt r).isSymbol "." = false := by
        cases generics with
        | nil =>
            obtain rfl : r = q := hgenerics
            exact hends.1
        | cons =>
            have hopen := Piece.matches_symbol.mp hgenerics.1
            exact Token.isSymbol_eq_false hopen "." (by decide)
      refine (qualifiedName_meets rfl (fun piece hmem => ?_) hname hdot).mono (fun made t => ?_)
        fun _ h => h
      · obtain ⟨part, -, rfl⟩ := List.mem_map.mp hmem
        rfl
      · rintro ⟨hhead, htail, rfl⟩
        -- only the texts of the tokens go into a type, and they are the parts of its name
        have hparts : made.head.text :: made.tail.map Token.text = nameParts name := by
          rw [(Piece.matches_identifier.mp hhead).2, texts_of_forall₂_identifier htail,
            headD_cons_tail_nameParts]
        have hdotted : made.dotted = name := by
          rw [QualifiedName.dotted, List.map_cons, hparts, intercalate_nameParts]
        rw [hdotted]
        exact (genericArguments_gives hr hgenerics hends).meets ⟨rfl, rfl⟩

/-! ## Parts of declarations -/

/-- Names are read back one by one, up to their angle bracket. -/
theorem genericNamesFrom_gives : ∀ (names : List String) (n p q : Nat),
    input.Shows p (parametersSpelling names) q → (input.tokenAt q).isSymbol ">" = true →
    Attempt.Gives input (genericNamesFrom n) p names q
  | _, 0, _, _, _, _ => fun _ => trivial
  | [], n + 1, p, q, hshows, hclose => by
      intro d
      obtain rfl : p = q := hshows
      have hlt := Input.lt_size_of_isSymbol hclose
      simp [genericNamesFrom, hclose, Nat.not_le.mpr hlt]
  | [name], n + 1, p, q, hshows, hclose => by
      intro d
      obtain ⟨hname, hend⟩ := hshows
      obtain rfl : p + 1 = q := hend
      obtain ⟨hkind, htext⟩ := Piece.matches_identifier.mp hname
      have hlt := Input.lt_size_of_kind hkind (by decide)
      have hcomma := Token.isSymbol_eq_false hclose "," (by decide)
      have hnot := Token.isSymbol_eq_false_of_kind (by rw [hkind]; decide) ">"
      simp [genericNamesFrom, hnot, hkind, htext, hcomma, Nat.not_le.mpr hlt]
  | name :: next :: names, n + 1, p, q, hshows, hclose => by
      intro d
      obtain ⟨hname, hcomma, hrest⟩ := hshows
      obtain ⟨hkind, htext⟩ := Piece.matches_identifier.mp hname
      rw [Piece.matches_symbol] at hcomma
      have hlt := Input.lt_size_of_kind hkind (by decide)
      have hnot := Token.isSymbol_eq_false_of_kind (by rw [hkind]; decide) ">"
      simp only [genericNamesFrom, Bool.not_true, Attempt.meets_bind, Attempt.meets_ite,
        Attempt.meets_liftM, meets_atEnd, Nat.not_le.mpr hlt, decide_false, meets_current, hnot,
        Attempt.meets_needIdentifier, hkind, htext, hcomma]
      exact (genericNamesFrom_gives (next :: names) n (p + 1 + 1) q hrest hclose).meets ⟨rfl, rfl⟩

theorem genericNames_gives {names : List String}
    (hshows : input.Shows p (genericNamesSpelling names) q)
    (hends : (input.tokenAt q).isSymbol "<" = false) :
    Attempt.Gives input (genericNames rules) p names q := by
  intro d
  cases names with
  | nil =>
      obtain rfl : p = q := hshows
      simp [genericNames, hends]
  | cons name names =>
      obtain ⟨hopen, hrest⟩ := hshows
      obtain ⟨r, hnames, hclose, hend⟩ := Input.shows_append.mp hrest
      obtain rfl : r + 1 = q := hend
      rw [Piece.matches_symbol] at hopen hclose
      simp only [genericNames, Attempt.meets_bind, Attempt.meets_ite, Attempt.meets_liftM,
        meets_current, hopen, Bool.not_true, Bool.false_eq_true, if_false]
      refine (genericNamesFrom_gives (name :: names) _ (p + 1) r hnames hclose).meets ?_
      simp [hclose]

/-- Bases are read back one by one, up to the brace. -/
theorem basesFrom_gives (hr : rules.ReadsTypes input) :
    ∀ (type : TypeExpr) (types : List TypeExpr) (n p q : Nat),
      input.Shows p (typesSpelling (type :: types)) q →
      (input.tokenAt q).isSymbol openBrace = true →
      Parse.Gives input (basesFrom rules n) p (type :: types) q
  | _, _, 0, _, _, _, _ => fun _ => trivial
  | type, types, n + 1, p, q, hshows, hopen => by
      intro d
      obtain ⟨r, htype, hfurther⟩ := Input.shows_append.mp hshows
      simp only [basesFrom, meets_bind, Attempt.meets_run, meets_ite]
      cases types with
      | nil =>
          obtain rfl : r = q := hfurther
          refine (typeExpression_gives hr htype (Token.endsType_of_isSymbol hopen (by decide)
            (by decide))).meets ?_
          have hcomma := Token.isSymbol_eq_false hopen "," (by decide)
          simp [hcomma]
      | cons next types =>
          obtain ⟨hcomma, hnext⟩ := hfurther
          rw [Piece.matches_symbol] at hcomma
          refine (typeExpression_gives hr htype (Token.endsType_of_isSymbol hcomma (by decide)
            (by decide))).meets ?_
          simp only [meets_current, hcomma]
          exact (basesFrom_gives hr next types n (r + 1) q hnext hopen).meets ⟨rfl, rfl⟩

theorem bases_gives (hr : rules.ReadsTypes input) {types : List TypeExpr}
    (hshows : input.Shows p (basesSpelling types) q)
    (hopen : (input.tokenAt q).isSymbol openBrace = true) :
    Parse.Gives input (bases rules) p types q := by
  intro d
  cases types with
  | nil =>
      obtain rfl : p = q := hshows
      have hcolon := Token.isSymbol_eq_false hopen ":" (by decide)
      simp [bases, hcolon]
  | cons type types =>
      obtain ⟨hcolon, htypes⟩ := hshows
      rw [Piece.matches_symbol] at hcolon
      simp only [bases, meets_bind, meets_ite, meets_current, hcolon]
      exact (basesFrom_gives hr type types _ (p + 1) q htypes hopen).meets ⟨rfl, rfl⟩

/-- Modifiers are read up to what is none. -/
theorem memberModifiers_gives : ∀ (mods : List String) (n p q : Nat),
    (∀ word ∈ mods, word ∈ modifiers) → input.Shows p (mods.map Piece.keyword) q →
    ((input.tokenAt q).kind = Kind.keyword → (input.tokenAt q).text ∉ modifiers) →
    Parse.Gives input (memberModifiers n) p mods q
  | _, 0, _, _, _, _, _ => fun _ => trivial
  | [], n + 1, p, q, _, hshows, hends => by
      intro d
      obtain rfl : p = q := hshows
      by_cases hkind : (input.tokenAt p).kind = Kind.keyword
      · have htext := hends hkind
        simp [memberModifiers, hkind, htext]
      · simp [memberModifiers, hkind]
  | word :: mods, n + 1, p, q, hmods, hshows, hends => by
      intro d
      obtain ⟨hword, hrest⟩ := hshows
      obtain ⟨hkind, htext⟩ := Token.isKeyword_iff.mp (Piece.matches_keyword.mp hword)
      have hmem := hmods word (by simp)
      simp only [memberModifiers, List.contains_eq_mem, Bool.and_eq_true, decide_eq_true_eq,
        meets_bind, meets_ite, meets_current, hkind, htext, hmem]
      exact (memberModifiers_gives mods n (p + 1) q (fun other h => hmods other (by simp [h])) hrest
        hends).meets ⟨rfl, rfl⟩

/-! ## Using directives -/

/-- Behind the first part of a name stands a dot, or what stands behind the name. -/
theorem QualifiedName.text_behind_head {name : QualifiedName}
    (hshows : input.Shows p name.spelling q) (hsemi : (input.tokenAt q).isSymbol ";" = true) :
    (input.tokenAt (p + 1)).text ≠ "=" := by
  obtain ⟨head, tail⟩ := name
  obtain ⟨-, htail⟩ := hshows
  cases tail with
  | nil =>
      obtain rfl : p + 1 = q := htail
      rw [(Token.isSymbol_iff.mp hsemi).2]
      decide
  | cons part tail =>
      obtain ⟨hdot, -⟩ := htail
      rw [(Token.isSymbol_iff.mp (Piece.matches_symbol.mp hdot)).2]
      decide

/-- An alias is read where an equals sign stands behind it, and no name is taken for one. -/
theorem usingAlias_gives {aliasName : Option String} {name : QualifiedName}
    (hshows : input.Shows p (aliasSpelling aliasName) q) (hname : input.Shows q name.spelling r)
    (hsemi : (input.tokenAt r).isSymbol ";" = true) :
    Parse.Gives input usingAlias p aliasName q := by
  intro d
  cases aliasName with
  | none =>
      obtain rfl : p = q := hshows
      -- no equals sign behind the first name, so that it begins the target
      have htext := QualifiedName.text_behind_head hname hsemi
      simp [usingAlias, htext]
  | some name =>
      obtain ⟨hid, hassign, hend⟩ := hshows
      obtain rfl : p + 1 + 1 = q := hend
      obtain ⟨hkind, htext⟩ := Piece.matches_identifier.mp hid
      obtain ⟨-, hsign⟩ := Token.isSymbol_iff.mp (Piece.matches_symbol.mp hassign)
      simp [usingAlias, hkind, htext, hsign]

theorem usingTarget_gives {aliasName : Option String} {target : QualifiedName} (isStatic : Bool)
    (htarget : target.WellFormed)
    (hshows : input.Shows p (aliasSpelling aliasName ++ target.spelling ++ [.symbol ";"]) q) :
    Attempt.Gives input (usingTarget rules isStatic) p ⟨aliasName, isStatic, target⟩ q := by
  intro d
  obtain ⟨r, hrest, hsemi, hend⟩ := Input.shows_append.mp hshows
  obtain ⟨u, halias, hname⟩ := Input.shows_append.mp hrest
  obtain rfl : r + 1 = q := hend
  rw [Piece.matches_symbol] at hsemi
  simp only [usingTarget, Attempt.meets_bind, Attempt.meets_orNone, Attempt.meets_lift]
  refine (usingAlias_gives halias hname hsemi).meets ?_
  have hdot := Token.isSymbol_eq_false hsemi "." (by decide)
  refine (qualifiedName_gives htarget hname hdot).meets ?_
  simp [hsemi]

/-- A directive is read back with its alias, up to its semicolon. -/
theorem usingDirective_gives {directive : UsingDirective} (htarget : directive.target.WellFormed)
    (hshows : input.Shows p directive.spelling q) :
    Attempt.Gives input (usingDirective rules) p directive q := by
  intro d
  obtain ⟨aliasName, isStatic, target⟩ := directive
  obtain ⟨hword, hrest⟩ := hshows
  rw [Piece.matches_keyword] at hword
  cases isStatic with
  | true =>
      obtain ⟨hstatic, hrest⟩ := hrest
      rw [Piece.matches_keyword] at hstatic
      simp only [usingDirective, Attempt.meets_bind, Attempt.meets_liftM, Attempt.meets_needKeyword,
        hword, meets_current, hstatic]
      exact (usingTarget_gives true htarget hrest).meets ⟨rfl, rfl⟩
  | false =>
      have hid : (input.tokenAt (p + 1)).kind = Kind.identifier := by
        cases aliasName with
        -- with an alias or without, a name comes next
        | none => exact hrest.1.1.trans htarget.1
        | some name => exact hrest.1.1
      have hstatic := Token.isKeyword_eq_false_of_kind (by rw [hid]; decide) "static"
      simp only [usingDirective, Attempt.meets_bind, Attempt.meets_liftM, Attempt.meets_needKeyword,
        hword, meets_current, hstatic]
      exact (usingTarget_gives false htarget hrest).meets ⟨rfl, rfl⟩

/-! ## Statements -/

/-- The rules of a level read what they are asked for back, as it is printed. -/
structure Rules.ReadsPrograms (bare : Nat → Bool) (input : Input) (rules : Rules) : Prop where
  expressions : rules.ReadsExpressions input
  types : rules.ReadsTypes input
  statement : ∀ (p q : Nat) (node : Node), node.IsStatement →
    input.Shows p (node.statementSpelling bare) q → (input.tokenAt q).isSymbol ";" = true →
    Attempt.Gives input (rules.expression 0) p node q
  classDeclaration : ∀ (p q : Nat) (declaration : ClassDecl), declaration.WellFormed →
    input.Shows p (declaration.spelling bare) q →
    Attempt.Gives input (rules.classDeclaration declaration.modifiers) p declaration q

theorem Node.IsExpression.statementSpelling_eq {node : Node} (hnode : node.IsExpression) :
    node.statementSpelling bare = node.spelling := by
  cases hnode <;> rfl

theorem Input.Shows.le {pieces : List Piece} (h : input.Shows p pieces q) : p ≤ q := by
  induction pieces generalizing p with
  | nil => exact Nat.le_of_eq h
  | cons piece pieces ih => exact Nat.le_trans (Nat.le_succ p) (ih h.2)

theorem Token.beginsExpression_of_isKeyword {token : Token} {text : String}
    (h : token.isKeyword text = true) : token.BeginsExpression := by
  have hkind := (Token.isKeyword_iff.mp h).1
  exact Token.beginsExpression_of_kind (by rw [hkind]; decide) (by rw [hkind]; decide)

/-- A printed statement begins with a word or as an expression does, and never with a brace. -/
theorem Node.IsStatement.begins {node : Node} (hnode : node.IsStatement)
    (hshows : input.Shows p (node.statementSpelling bare) q) :
    (input.tokenAt p).BeginsExpression := by
  cases hnode with
  | expression h =>
      rw [h.statementSpelling_eq] at hshows
      exact h.begins hshows
  | ifStatement =>
      exact Token.beginsExpression_of_isKeyword (Piece.matches_keyword.mp hshows.1)
  | whileStatement =>
      exact Token.beginsExpression_of_isKeyword (Piece.matches_keyword.mp hshows.1)
  | @classDeclaration declaration =>
      obtain ⟨name, generics, bases, members, mods, offset⟩ := declaration
      exact Token.beginsExpression_of_isKeyword (Piece.matches_keywordAt.mp hshows.1).1
  | namespaceDeclaration =>
      exact Token.beginsExpression_of_isKeyword (Piece.matches_keywordAt.mp hshows.1).1
  | usingDirective =>
      exact Token.beginsExpression_of_isKeyword (Piece.matches_keyword.mp hshows.1)

/-- A statement is read back with the semicolon behind it. -/
theorem statement_gives (hr : rules.ReadsPrograms bare input) {node : Node}
    (hnode : node.IsStatement) (stops : List String)
    (hshows : input.Shows p (node.statementSpelling bare) q)
    (hsemi : (input.tokenAt q).isSymbol ";" = true) :
    Parse.Gives input (statement rules stops) p [node] (q + 1) := by
  intro d
  -- the semicolon alone takes a token, so that recovery has nothing to do
  have hle := hshows.le
  simp only [statement, meets_bind, meets_mark, Attempt.meets_run]
  refine (hr.statement p q node hnode hshows hsemi).meets ?_
  simp only [meets_skip, hsemi, if_true]
  exact meets_recover_quiet (by simp; omega) rfl ⟨rfl, rfl⟩

/-- Statements are read up to the brace that closes them, or up to the end. -/
theorem sequenceFrom_gives (hr : rules.ReadsPrograms bare input) {terminator : Option String} :
    ∀ (nodes : List Node) (n p q : Nat), (∀ node ∈ nodes, node.IsStatement) →
      input.Shows p (bodySpelling bare nodes) q →
      (terminator = none ∧ input.size ≤ q ∨
        terminator = some closeBrace ∧ (input.tokenAt q).isSymbol closeBrace = true) →
      Parse.Gives input (sequenceFrom rules terminator n) p nodes q
  | _, 0, _, _, _, _, _ => fun _ => trivial
  | [], n + 1, p, q, _, hshows, hend => by
      intro d
      obtain rfl : p = q := hshows
      rcases hend with ⟨-, hsize⟩ | ⟨rfl, hclose⟩
      · simp [sequenceFrom, hsize]
      · have hlt := Input.lt_size_of_isSymbol hclose
        simp [sequenceFrom, hclose, Nat.not_le.mpr hlt]
  | node :: nodes, n + 1, p, q, hnodes, hshows, hend => by
      intro d
      obtain ⟨r, hnode, hsemi, hrest⟩ := Input.shows_append.mp hshows
      rw [Piece.matches_symbol] at hsemi
      have hstatement := hnodes node (by simp)
      have hbegins := hstatement.begins hnode
      have hlt := Input.lt_size_of_kind_ne hbegins.1
      have hbrace := hbegins.isSymbol_eq_false closeBrace (by decide) (by decide)
      have hstop : terminator.toList.any (input.tokenAt p).isSymbol = false := by
        rcases hend with ⟨rfl, -⟩ | ⟨rfl, -⟩
        · rfl
        · simp [hbrace]
      have hsize : ¬ input.size ≤ p := Nat.not_le.mpr hlt
      simp only [sequenceFrom, meets_bind, meets_atEnd, hsize, decide_false, Bool.false_eq_true,
        if_false, meets_current, hstop, meets_pure]
      refine (statement_gives hr hstatement _ hnode hsemi).meets ?_
      have hnodes' : ∀ other ∈ nodes, other.IsStatement := fun other hmem =>
        hnodes other (List.mem_cons_of_mem node hmem)
      exact (sequenceFrom_gives hr nodes n (r + 1) q hnodes' hrest hend).meets ⟨rfl, rfl⟩

/-- The statements of a body are read back at depth one, since none of them begins with a brace. -/
theorem methodStatements_gives (hr : rules.ReadsPrograms bare input) :
    ∀ (nodes : List Node) (n p q : Nat), (∀ node ∈ nodes, node.IsStatement) →
      input.Shows p (bodySpelling bare nodes) q → (input.tokenAt q).isSymbol closeBrace = true →
      Parse.Gives input (methodStatements rules n 1) p nodes q
  | _, 0, _, _, _, _, _ => fun _ => trivial
  | [], n + 1, p, q, _, hshows, hclose => by
      intro d
      obtain rfl : p = q := hshows
      have hlt := Input.lt_size_of_isSymbol hclose
      simp [methodStatements, hclose, Nat.not_le.mpr hlt]
  | node :: nodes, n + 1, p, q, hnodes, hshows, hclose => by
      intro d
      obtain ⟨r, hnode, hsemi, hrest⟩ := Input.shows_append.mp hshows
      rw [Piece.matches_symbol] at hsemi
      have hstatement := hnodes node (by simp)
      have hbegins := hstatement.begins hnode
      have hlt := Input.lt_size_of_kind_ne hbegins.1
      -- a statement begins with no brace, so that the count of open braces stays at one
      have hopening := hbegins.isSymbol_eq_false openBrace (by decide) (by decide)
      have hclosing := hbegins.isSymbol_eq_false closeBrace (by decide) (by decide)
      have hsize : ¬ input.size ≤ p := Nat.not_le.mpr hlt
      simp only [methodStatements, meets_bind, meets_atEnd, hsize, decide_false, Bool.false_eq_true,
        if_false, meets_current, hopening, hclosing, Bool.false_and, meets_pure]
      refine (statement_gives hr hstatement _ hnode hsemi).meets ?_
      exact (methodStatements_gives hr nodes n (r + 1) q
        (fun other hmem => hnodes other (by simp [hmem])) hrest hclose).meets ⟨rfl, rfl⟩

/-- What stands in braces stands between an opening and a closing one. -/
theorem Input.shows_braced {pieces : List Piece} (h : input.Shows p (braced pieces) q) :
    (input.tokenAt p).isSymbol openBrace = true ∧ ∃ r, input.Shows (p + 1) pieces r ∧
      (input.tokenAt r).isSymbol closeBrace = true ∧ q = r + 1 := by
  obtain ⟨hopen, hrest⟩ := h
  obtain ⟨r, hpieces, hclose, hend⟩ := Input.shows_append.mp hrest
  obtain rfl : r + 1 = q := hend
  rw [Piece.matches_symbol] at hopen hclose
  exact ⟨hopen, r, hpieces, hclose, rfl⟩

/-- What stands in parentheses stands between an opening and a closing one. -/
theorem Input.shows_enclosed {pieces : List Piece} (h : input.Shows p (enclosed true pieces) q) :
    (input.tokenAt p).isSymbol "(" = true ∧ ∃ r, input.Shows (p + 1) pieces r ∧
      (input.tokenAt r).isSymbol ")" = true ∧ q = r + 1 := by
  obtain ⟨hopen, hrest⟩ := h
  obtain ⟨r, hpieces, hclose, hend⟩ := Input.shows_append.mp hrest
  obtain rfl : r + 1 = q := hend
  rw [Piece.matches_symbol] at hopen hclose
  exact ⟨hopen, r, hpieces, hclose, rfl⟩

/-- A block is read back with its braces. -/
theorem bracedBlock_gives (hr : rules.ReadsPrograms bare input) {nodes : List Node}
    (hnodes : ∀ node ∈ nodes, node.IsStatement)
    (hshows : input.Shows p (braced (bodySpelling bare nodes)) q) :
    Attempt.Gives input (bracedBlock rules) p nodes q := by
  intro d
  obtain ⟨hopen, r, hbody, hclose, rfl⟩ := Input.shows_braced hshows
  simp only [bracedBlock, block, Attempt.meets_bind, Attempt.meets_liftM, Attempt.meets_needSymbol,
    hopen]
  refine (sequenceFrom_gives hr nodes _ (p + 1) r hnodes hbody (.inr ⟨rfl, hclose⟩)).meets ?_
  simp [hclose]

theorem condition_gives (hr : rules.ReadsExpressions input) {node : Node}
    (hnode : node.IsExpression) (hshows : input.Shows p (enclosed true node.spelling) q)
    (keyword : String) : Attempt.Gives input (condition rules keyword) p node q := by
  intro d
  obtain ⟨hopen, r, hshown, hclose, rfl⟩ := Input.shows_enclosed hshows
  simp only [condition, Attempt.meets_bind, Attempt.meets_needSymbol, hopen]
  refine (hr.upTo hnode hshown hclose (by decide)).meets ?_
  simp [hclose]

/-- The branches of an `if` are read up to what does not carry them on. -/
theorem branches_gives (hr : rules.ReadsPrograms bare input) :
    ∀ (alternate : Alternate) (value : Node) (consequent : List Node) (keyword : String)
      (n p q : Nat), value.IsExpression → (∀ node ∈ consequent, node.IsStatement) →
      alternate.WellFormed →
      input.Shows p (enclosed true value.spelling ++ braced (bodySpelling bare consequent) ++
        alternate.spelling bare) q →
      (input.tokenAt q).isKeyword "else" = false →
      Attempt.Gives input (branches rules keyword n) p (value, consequent, alternate) q
  | _, _, _, _, 0, _, _, _, _, _, _, _ => fun _ => trivial
  | .none, value, consequent, keyword, n + 1, p, q, hvalue, hconsequent, _, hshows, helse => by
      intro d
      obtain ⟨r, hbranch, hend⟩ := Input.shows_append.mp hshows
      obtain ⟨u, hcondition, hblock⟩ := Input.shows_append.mp hbranch
      obtain rfl : r = q := hend
      simp only [branches, Attempt.meets_bind]
      refine (condition_gives hr.expressions hvalue hcondition keyword).meets ?_
      refine (bracedBlock_gives hr hconsequent hblock).meets ?_
      simp [helse]
  | .otherwise body, value, consequent, keyword, n + 1, p, q, hvalue, hconsequent, halternate,
      hshows, _ => by
      intro d
      obtain ⟨r, hbranch, hword, hbody⟩ := Input.shows_append.mp hshows
      obtain ⟨u, hcondition, hblock⟩ := Input.shows_append.mp hbranch
      rw [Piece.matches_keyword] at hword
      have hkind := (Token.isSymbol_iff.mp (Input.shows_braced hbody).1).1
      have hif := Token.isKeyword_eq_false_of_kind (by rw [hkind]; decide) "if"
      simp only [branches, Attempt.meets_bind, Attempt.meets_ite, Attempt.meets_orNone,
        Attempt.meets_liftM]
      refine (condition_gives hr.expressions hvalue hcondition keyword).meets ?_
      refine (bracedBlock_gives hr hconsequent hblock).meets ?_
      simp only [meets_current, hword, meets_advance, hif]
      cases halternate with
      | otherwise hstatements => exact (bracedBlock_gives hr hstatements hbody).meets ⟨rfl, rfl⟩
  | .elseIf value' consequent' alternate, value, consequent, keyword, n + 1, p, q, hvalue,
      hconsequent, halternate, hshows, helse => by
      intro d
      obtain ⟨r, hbranch, hword, hif, hrest⟩ := Input.shows_append.mp hshows
      obtain ⟨u, hcondition, hblock⟩ := Input.shows_append.mp hbranch
      rw [Piece.matches_keyword] at hword hif
      simp only [branches, Attempt.meets_bind, Attempt.meets_ite, Attempt.meets_orNone,
        Attempt.meets_liftM]
      refine (condition_gives hr.expressions hvalue hcondition keyword).meets ?_
      refine (bracedBlock_gives hr hconsequent hblock).meets ?_
      simp only [meets_current, hword, meets_advance, hif]
      cases halternate with
      | elseIf hvalue' hconsequent' halternate' =>
          exact (branches_gives hr alternate value' consequent' "else if" n (r + 1 + 1) q hvalue'
            hconsequent' halternate' hrest helse).meets ⟨rfl, rfl⟩

/-- An `if` is read back with its blocks, and an `else if` as part of it. -/
theorem ifStatement_gives (hr : rules.ReadsPrograms bare input) {value : Node}
    {consequent : List Node} {alternate : Alternate} (hvalue : value.IsExpression)
    (hconsequent : ∀ node ∈ consequent, node.IsStatement) (halternate : alternate.WellFormed)
    (hshows : input.Shows p
      ((Node.ifStatement value consequent alternate).statementSpelling bare) q)
    (helse : (input.tokenAt q).isKeyword "else" = false) :
    Attempt.Gives input (ifStatement rules) p (.ifStatement value consequent alternate) q := by
  intro d
  obtain ⟨hword, hrest⟩ := hshows
  rw [Piece.matches_keyword] at hword
  simp only [ifStatement, Attempt.meets_bind, Attempt.meets_needKeyword, hword]
  exact (branches_gives hr alternate value consequent "if" _ (p + 1) q hvalue hconsequent
    halternate hrest helse).meets ⟨rfl, rfl⟩

theorem whileStatement_gives (hr : rules.ReadsPrograms bare input) {value : Node}
    {consequent : List Node} (hvalue : value.IsExpression)
    (hconsequent : ∀ node ∈ consequent, node.IsStatement)
    (hshows : input.Shows p ((Node.whileStatement value consequent).statementSpelling bare) q) :
    Attempt.Gives input (whileStatement rules) p (.whileStatement value consequent) q := by
  intro d
  obtain ⟨hword, hrest⟩ := hshows
  obtain ⟨r, hcondition, hblock⟩ := Input.shows_append.mp hrest
  rw [Piece.matches_keyword] at hword
  simp only [whileStatement, Attempt.meets_bind, Attempt.meets_needKeyword, hword]
  refine (condition_gives hr.expressions hvalue hcondition "while").meets ?_
  exact (bracedBlock_gives hr hconsequent hblock).meets ⟨rfl, rfl⟩

/-! ## Members -/

/-- A method body is read back with its braces. -/
theorem methodBody_gives (hr : rules.ReadsPrograms bare input) {nodes : List Node}
    (hnodes : ∀ node ∈ nodes, node.IsStatement)
    (hshows : input.Shows p (braced (bodySpelling bare nodes)) q) :
    Parse.Gives input (methodBody rules) p nodes q := by
  intro d
  obtain ⟨-, r, hbody, hclose, rfl⟩ := Input.shows_braced hshows
  simp only [methodBody, meets_bind]
  refine (methodStatements_gives hr nodes _ (p + 1) r hnodes hbody hclose).meets ?_
  simp [hclose]

theorem Input.Shows.eq {pieces : List Piece} (h : input.Shows p pieces q) :
    q = p + pieces.length := by
  induction pieces generalizing p with
  | nil => exact h.symm
  | cons piece pieces ih =>
      rw [ih h.2, List.length_cons]
      omega

/-- Where the first piece of a declaration leaves its offset open, the declaration is shown like its
pieces, and its offset is that of its first token. -/
theorem Input.shows_startingAt {piece : Piece} {pieces : List Piece} {offset : Nat}
    (hopen : piece.offset = none)
    (h : input.Shows p (Piece.startingAt offset (piece :: pieces)) q) :
    input.Shows p (piece :: pieces) q ∧ (input.tokenAt p).offset = offset := by
  obtain ⟨⟨hkind, htext, hoffset⟩, hrest⟩ := h
  exact ⟨⟨⟨hkind, htext, fun _ hsome => by rw [hopen] at hsome; cases hsome⟩, hrest⟩,
    hoffset offset rfl⟩

variable {inNamespace : Bool} {mods : List String} {type : TypeExpr} {pieces : List Piece}
  {offset : Nat}

theorem TypeExpr.exists_piece (type : TypeExpr) :
    ∃ piece pieces, type.spelling = piece :: pieces ∧ piece.offset = none := by
  obtain ⟨simple, name, generics⟩ := type
  cases simple with
  | true => exact ⟨_, _, rfl, rfl⟩
  | false => exact ⟨_, _, rfl, rfl⟩

theorem shows_member
    (h : input.Shows p (Piece.startingAt offset
      (mods.map .keyword ++ type.spelling ++ pieces)) q) :
    input.Shows p (mods.map .keyword ++ type.spelling ++ pieces) q ∧
      (input.tokenAt p).offset = offset := by
  obtain ⟨piece, others, htype, hopen⟩ := type.exists_piece
  cases mods with
  | nil =>
      rw [htype] at h ⊢
      exact Input.shows_startingAt hopen h
  | cons word mods => exact Input.shows_startingAt rfl h

/-- A member begins with a word or a name; a namespace does not take it for a using directive. -/
theorem MemberType.begins (htype : MemberType inNamespace mods type)
    (hshows : input.Shows p (mods.map .keyword ++ type.spelling ++ pieces) q) :
    ((input.tokenAt p).kind = Kind.keyword ∨ (input.tokenAt p).kind = Kind.identifier) ∧
      (inNamespace = true → (input.tokenAt p).isKeyword "using" = false) := by
  obtain ⟨r, hhead, -⟩ := Input.shows_append.mp hshows
  obtain ⟨u, hmods, hshown⟩ := Input.shows_append.mp hhead
  cases mods with
  | nil =>
      obtain rfl : p = u := hmods
      rcases TypeExpr.begins hshown with ⟨hsimple, hword⟩ | hid
      · exact ⟨.inl (Token.isKeyword_iff.mp hword).1, fun hspace =>
          Token.isKeyword_eq_false hword "using" (htype.not_using hsimple hspace rfl)⟩
      · exact ⟨.inr hid, fun _ => Token.isKeyword_eq_false_of_kind (by rw [hid]; decide) "using"⟩
  | cons word mods =>
      have hword := Piece.matches_keyword.mp hmods.1
      refine ⟨.inl (Token.isKeyword_iff.mp hword).1, fun _ =>
        Token.isKeyword_eq_false hword "using" ?_⟩
      rintro rfl
      exact absurd (htype.mods_mem "using" (by simp)) (by decide)

/-- A member is made of what stands behind its name. -/
theorem member_meets {name : String} {made : Member → ParseState → Prop}
    {declined : ParseState → Prop} (hr : rules.ReadsPrograms bare input)
    (htype : MemberType inNamespace mods type)
    (hshows : input.Shows p (Piece.startingAt offset
      (mods.map .keyword ++ type.spelling ++ .identifier name :: pieces)) q)
    (hrest : ∀ r, input.Shows r pieces q →
      Attempt.Meets True input (memberRest rules mods type name offset) (.at r d) made declined) :
    Attempt.Meets True input (member rules) (.at p d) made declined := by
  obtain ⟨hshown, hoffset⟩ := shows_member hshows
  obtain ⟨r, hhead, hname, hpieces⟩ := Input.shows_append.mp hshown
  obtain ⟨u, hmods, hword⟩ := Input.shows_append.mp hhead
  obtain ⟨hkind, htext⟩ := Piece.matches_identifier.mp hname
  -- the type does not go on where the modifiers stop, nor is it the word `class`
  have hends : (input.tokenAt u).kind = Kind.keyword → (input.tokenAt u).text ∉ modifiers := by
    intro hkeyword
    rcases TypeExpr.begins hword with ⟨hsimple, hbegins⟩ | hid
    · rw [(Token.isKeyword_iff.mp hbegins).2]
      exact htype.not_modifier hsimple
    · rw [hid] at hkeyword
      exact absurd hkeyword (by decide)
  have hclass : (input.tokenAt u).isKeyword "class" = false := by
    rcases TypeExpr.begins hword with ⟨hsimple, hbegins⟩ | hid
    · exact Token.isKeyword_eq_false hbegins "class" (htype.not_class hsimple)
    · exact Token.isKeyword_eq_false_of_kind (by rw [hid]; decide) "class"
  simp only [member, Attempt.meets_bind, Attempt.meets_liftM, meets_current]
  refine (memberModifiers_gives mods _ p u htype.mods_mem hmods hends).meets ?_
  simp only [Attempt.meets_ite, Attempt.meets_bind, Attempt.meets_orNone, meets_current, hclass]
  refine (typeExpression_gives hr.types hword
    (Token.endsType_of_kind (by rw [hkind]; decide))).meets ?_
  simp only [hoffset, Attempt.meets_needIdentifier, hkind, htext]
  exact hrest (r + 1) hpieces

/-- A field ends at its semicolon. -/
theorem memberRest_gives_field {name : String}
    (hshows : input.Shows p [.symbol ";"] q) :
    Attempt.Gives input (memberRest rules mods type name offset) p
      (.field mods type name offset) q := by
  intro d
  obtain ⟨hsemi, hend⟩ := hshows
  obtain rfl : p + 1 = q := hend
  rw [Piece.matches_symbol] at hsemi
  have hopen := Token.isSymbol_eq_false hsemi "(" (by decide)
  simp [memberRest, hopen, hsemi]

theorem memberRest_gives_signature {name : String} {parameters : List Node}
    (hr : rules.ReadsPrograms bare input) (hparameters : ∀ node ∈ parameters, node.IsExpression)
    (hshows : input.Shows p (enclosed true (itemsSpelling parameters) ++ [.symbol ";"]) q) :
    Attempt.Gives input (memberRest rules mods type name offset) p
      (.signature mods type name parameters offset) q := by
  intro d
  obtain ⟨r, hitems, hsemi, hend⟩ := Input.shows_append.mp hshows
  obtain rfl : r + 1 = q := hend
  rw [Piece.matches_symbol] at hsemi
  have hopen := Token.isSymbol_eq_false hsemi openBrace (by decide)
  have hcall := (Input.shows_enclosed hitems).1
  simp only [memberRest, method, Attempt.meets_bind, Attempt.meets_ite, Attempt.meets_liftM,
    meets_current, hcall]
  refine (arguments_gives hr.expressions hparameters hitems).meets ?_
  simp [hopen, hsemi]

/-- A method is read back with its parameters and its body. -/
theorem memberRest_gives_method {name : String} {parameters body : List Node}
    (hr : rules.ReadsPrograms bare input) (hparameters : ∀ node ∈ parameters, node.IsExpression)
    (hbody : ∀ node ∈ body, node.IsStatement)
    (hshows : input.Shows p
      (enclosed true (itemsSpelling parameters) ++ braced (bodySpelling bare body)) q) :
    Attempt.Gives input (memberRest rules mods type name offset) p
      (.method mods type name parameters body offset) q := by
  intro d
  obtain ⟨r, hitems, hbraces⟩ := Input.shows_append.mp hshows
  have hcall := (Input.shows_enclosed hitems).1
  have hopen := (Input.shows_braced hbraces).1
  simp only [memberRest, method, Attempt.meets_bind, Attempt.meets_ite, Attempt.meets_liftM,
    meets_current, hcall]
  refine (arguments_gives hr.expressions hparameters hitems).meets ?_
  simp only [meets_current, hopen]
  exact (methodBody_gives hr hbody hbraces).meets ⟨rfl, rfl⟩

/-- A nested class is read behind its modifiers. -/
theorem member_gives_nested {declaration : ClassDecl} (hr : rules.ReadsPrograms bare input)
    (hdeclaration : declaration.WellFormed)
    (hmods : ∀ word ∈ declaration.modifiers, word ∈ modifiers)
    (hshows : input.Shows p (declaration.modifiers.map .keyword ++ declaration.spelling bare) q) :
    Attempt.Gives input (member rules) p (.nested declaration) q := by
  intro d
  obtain ⟨r, hwords, hshown⟩ := Input.shows_append.mp hshows
  have hclass : (input.tokenAt r).isKeyword "class" = true := by
    obtain ⟨name, generics, bases, members, mods, offset⟩ := declaration
    exact (Piece.matches_keywordAt.mp hshown.1).1
  have hends : (input.tokenAt r).kind = Kind.keyword → (input.tokenAt r).text ∉ modifiers := by
    intro _
    rw [(Token.isKeyword_iff.mp hclass).2]
    decide
  simp only [member, Attempt.meets_bind, Attempt.meets_liftM, meets_current]
  refine (memberModifiers_gives declaration.modifiers _ p r hmods hwords hends).meets ?_
  simp only [Attempt.meets_ite, Attempt.meets_bind, meets_current, hclass]
  exact (hr.classDeclaration r q declaration hdeclaration hshown).meets ⟨rfl, rfl⟩

theorem class_begins {declaration : ClassDecl} (hdeclaration : declaration.WellFormed)
    (hmods : ∀ word ∈ declaration.modifiers, word ∈ modifiers)
    (hshows : input.Shows p (declaration.modifiers.map .keyword ++ declaration.spelling bare) q) :
    ∃ text, (input.tokenAt p).isKeyword text = true ∧ text ≠ "using" := by
  obtain ⟨name, generics, bases, members, mods, offset⟩ := declaration
  cases mods with
  | nil => exact ⟨"class", (Piece.matches_keywordAt.mp hshows.1).1, by decide⟩
  | cons word mods =>
      refine ⟨word, Piece.matches_keyword.mp hshows.1, ?_⟩
      rintro rfl
      exact absurd (hmods "using" (by simp)) (by decide)

/-- A printed member begins with a token that tells it from the end of a list of members. -/
theorem member_begins {member : Member} (hmember : member.WellFormed inNamespace)
    (hshows : input.Shows p (member.spelling bare) q) :
    (input.tokenAt p).kind ≠ Kind.endOfInput ∧ (input.tokenAt p).kind ≠ Kind.symbol := by
  have hkind : (input.tokenAt p).kind = Kind.keyword ∨
      (input.tokenAt p).kind = Kind.identifier := by
    cases hmember with
    | field htype => exact (htype.begins (shows_member hshows).1).1
    | signature htype => exact (htype.begins (shows_member hshows).1).1
    | method htype => exact (htype.begins (shows_member hshows).1).1
    | nested hdeclaration hmods =>
        obtain ⟨text, hword, -⟩ := class_begins hdeclaration hmods hshows
        exact .inl (Token.isKeyword_iff.mp hword).1
    | @usingDirective directive _ =>
        obtain ⟨aliasName, isStatic, target⟩ := directive
        exact .inl (Token.isKeyword_iff.mp (Piece.matches_keyword.mp hshows.1)).1
  rcases hkind with hkind | hkind
  · rw [hkind]; decide
  · rw [hkind]; decide

theorem member_spelling_ne_nil (bare : Nat → Bool) (member : Member) :
    member.spelling bare ≠ [] := by
  cases member with
  | nested declaration =>
      obtain ⟨name, generics, bases, members, mods, offset⟩ := declaration
      simp [Member.spelling, ClassDecl.spelling]
  | usingDirective directive =>
      obtain ⟨aliasName, isStatic, target⟩ := directive
      simp [Member.spelling, UsingDirective.spelling]
  | _ => simp [Member.spelling]

/-- A member that is no using directive is read as one of a class is, also in a namespace. -/
theorem bodyMember_meets {made : Member → ParseState → Prop} {declined : ParseState → Prop}
    (husing : inNamespace = true → (input.tokenAt p).isKeyword "using" = false)
    (h : Attempt.Meets True input (member rules) (.at p d) made declined) :
    Attempt.Meets True input (bodyMember rules inNamespace) (.at p d) made declined := by
  simp only [bodyMember, Attempt.meets_bind, Attempt.meets_liftM, meets_current]
  have hnot : (inNamespace && (input.tokenAt p).isKeyword "using") = false := by
    cases inNamespace with
    | false => rfl
    | true => rw [husing rfl, Bool.and_false]
  rw [hnot]
  exact h

/-- A member with a type is made of what stands behind its name. -/
theorem bodyMember_gives_typed {name : String} {made : Member}
    (hr : rules.ReadsPrograms bare input) (htype : MemberType inNamespace mods type)
    (hshows : input.Shows p (Piece.startingAt offset
      (mods.map .keyword ++ type.spelling ++ .identifier name :: pieces)) q)
    (hrest : ∀ r, input.Shows r pieces q →
      Attempt.Gives input (memberRest rules mods type name offset) r made q) :
    Attempt.Gives input (bodyMember rules inNamespace) p made q := by
  intro d
  refine bodyMember_meets (htype.begins (shows_member hshows).1).2 ?_
  exact member_meets hr htype hshows fun r hpieces => hrest r hpieces d

/-- A member is read back where it belongs, directives in namespaces only. -/
theorem bodyMember_gives (hr : rules.ReadsPrograms bare input) {member : Member}
    (hmember : member.WellFormed inNamespace) (hshows : input.Shows p (member.spelling bare) q) :
    Attempt.Gives input (bodyMember rules inNamespace) p member q := by
  cases hmember with
  | field htype =>
      exact bodyMember_gives_typed hr htype hshows fun r hrest => memberRest_gives_field hrest
  | signature htype hparameters =>
      exact bodyMember_gives_typed hr htype hshows
        fun r hrest => memberRest_gives_signature hr hparameters hrest
  | method htype hparameters hbody =>
      exact bodyMember_gives_typed hr htype hshows
        fun r hrest => memberRest_gives_method hr hparameters hbody hrest
  | nested hdeclaration hmods =>
      intro d
      obtain ⟨text, hword, hne⟩ := class_begins hdeclaration hmods hshows
      exact bodyMember_meets (fun _ => Token.isKeyword_eq_false hword "using" hne)
        (member_gives_nested hr hdeclaration hmods hshows d)
  | @usingDirective directive htarget =>
      intro d
      have hword : (input.tokenAt p).isKeyword "using" = true := by
        obtain ⟨aliasName, isStatic, target⟩ := directive
        exact Piece.matches_keyword.mp hshows.1
      simp only [bodyMember, Attempt.meets_bind, Attempt.meets_ite, Attempt.meets_liftM,
        meets_current, hword]
      exact (usingDirective_gives htarget hshows).meets ⟨rfl, rfl⟩

/-- Members are read up to the brace behind them. -/
theorem membersFrom_gives (hr : rules.ReadsPrograms bare input) :
    ∀ (members : List Member) (n p q : Nat), (∀ member ∈ members, member.WellFormed inNamespace) →
      input.Shows p (membersSpelling bare members) q →
      (input.tokenAt q).isSymbol closeBrace = true →
      Parse.Gives input (membersFrom rules inNamespace n) p members q
  | _, 0, _, _, _, _, _ => fun _ => trivial
  | [], n + 1, p, q, _, hshows, hclose => by
      intro d
      obtain rfl : p = q := hshows
      have hlt := Input.lt_size_of_isSymbol hclose
      simp [membersFrom, hclose, Nat.not_le.mpr hlt]
  | member :: members, n + 1, p, q, hmembers, hshows, hclose => by
      intro d
      obtain ⟨r, hmember, hrest⟩ := Input.shows_append.mp hshows
      have hformed := hmembers member (by simp)
      have hkind := member_begins hformed hmember
      have hbrace := Token.isSymbol_eq_false_of_kind hkind.2 closeBrace
      -- a member takes a token, so that recovery has nothing to do
      have hlt : p < r := by
        have hpos := List.length_pos_iff.mpr (member_spelling_ne_nil bare member)
        have hr := hmember.eq
        omega
      have hsize : ¬ input.size ≤ p := Nat.not_le.mpr (Input.lt_size_of_kind_ne hkind.1)
      simp only [membersFrom, meets_bind, meets_ite, Attempt.meets_run, meets_atEnd, hsize,
        decide_false, meets_current, hbrace]
      refine (bodyMember_gives hr hformed hmember).meets ?_
      refine meets_recover_quiet (by simp; omega) rfl ?_
      exact (membersFrom_gives hr members n r q (fun other hmem => hmembers other (by simp [hmem]))
        hrest hclose).meets ⟨rfl, rfl⟩

/-! ## Declarations -/

/-- A class is read back with its modifiers, parameters, bases and members. -/
theorem classDeclaration_gives (hr : rules.ReadsPrograms bare input) {declaration : ClassDecl}
    (hdeclaration : declaration.WellFormed) (hshows : input.Shows p (declaration.spelling bare) q) :
    Attempt.Gives input (classDeclaration rules declaration.modifiers) p declaration q := by
  intro d
  obtain ⟨name, generics, baseTypes, members, mods, offset⟩ := declaration
  obtain ⟨hword, hname, hrest⟩ := hshows
  obtain ⟨u, hhead, hbraces⟩ := Input.shows_append.mp hrest
  obtain ⟨r, hgenerics, hbases⟩ := Input.shows_append.mp hhead
  obtain ⟨hopen, v, hmembers, hclose, rfl⟩ := Input.shows_braced hbraces
  obtain ⟨hclass, hoffset⟩ := Piece.matches_keywordAt.mp hword
  obtain ⟨hkind, htext⟩ := Piece.matches_identifier.mp hname
  -- behind the generic names comes a colon or a brace
  have hangle : (input.tokenAt r).isSymbol "<" = false := by
    cases baseTypes with
    | nil =>
        obtain rfl : r = u := hbases
        exact Token.isSymbol_eq_false hopen "<" (by decide)
    | cons => exact Token.isSymbol_eq_false (Piece.matches_symbol.mp hbases.1) "<" (by decide)
  simp only [classDeclaration, Attempt.meets_bind, Attempt.meets_liftM, meets_current, hoffset,
    Attempt.meets_needKeyword, hclass, Attempt.meets_needIdentifier, hkind, htext]
  refine (genericNames_gives hgenerics hangle).meets ?_
  refine (bases_gives hr.types hbases hopen).meets ?_
  simp only [Attempt.meets_needSymbol, hopen]
  cases hdeclaration with
  | mk hformed =>
      refine (membersFrom_gives hr members _ (u + 1) v hformed hmembers hclose).meets ?_
      simp [hclose]

theorem namespaceDeclaration_gives (hr : rules.ReadsPrograms bare input) {name : QualifiedName}
    {members : List Member} (hname : name.WellFormed)
    (hmembers : ∀ member ∈ members, member.WellFormed true)
    (hshows : input.Shows p
      ((Node.namespaceDeclaration name members offset).statementSpelling bare) q) :
    Attempt.Gives input (namespaceDeclaration rules) p (.namespaceDeclaration name members offset)
      q := by
  intro d
  obtain ⟨hword, hrest⟩ := hshows
  obtain ⟨r, hshown, hbody⟩ := Input.shows_append.mp hrest
  obtain ⟨hspace, hoffset⟩ := Piece.matches_keywordAt.mp hword
  simp only [namespaceDeclaration, Attempt.meets_bind, Attempt.meets_orNone, Attempt.meets_ite,
    Attempt.meets_liftM, meets_current, Attempt.meets_needKeyword, hspace]
  by_cases hbare : (members.isEmpty && bare offset) = true
  · rw [if_pos hbare] at hbody
    obtain ⟨hsemi, hend⟩ := hbody
    obtain rfl : r + 1 = q := hend
    rw [Piece.matches_symbol] at hsemi
    -- only a namespace without members is written with a semicolon
    have hempty : members = [] := by simp at hbare; exact hbare.1
    refine (qualifiedName_gives hname hshown
      (Token.isSymbol_eq_false hsemi "." (by decide))).meets ?_
    simp [hsemi, hoffset, hempty]
  · rw [if_neg hbare] at hbody
    obtain ⟨hopen, u, hbody', hclose, rfl⟩ := Input.shows_braced hbody
    refine (qualifiedName_gives hname hshown
      (Token.isSymbol_eq_false hopen "." (by decide))).meets ?_
    have hsemi := Token.isSymbol_eq_false hopen ";" (by decide)
    simp only [meets_current, hsemi, Attempt.meets_needSymbol, hopen]
    refine (membersFrom_gives hr members _ (r + 1) u hmembers hbody' hclose).meets ?_
    simp [hclose, hoffset]

/-! ## Levels and programs -/

/-- At a reserved word an operand is what begins with that word. -/
theorem operand_word {text : String} {made : Node → ParseState → Prop}
    {declined : ParseState → Prop} (hword : (input.tokenAt p).isKeyword text = true)
    (hmem : text ∈ ["class", "using", "namespace", "if", "while"])
    (h : Attempt.Meets True input
      (if text = "class" then Node.classDeclaration <$> classDeclaration rules []
        else if text = "using" then Node.usingDirective <$> usingDirective rules
        else if text = "namespace" then namespaceDeclaration rules
        else if text = "if" then ifStatement rules
        else whileStatement rules) (.at p d) made declined) :
    Attempt.Meets True input (operand hooks rules) (.at p d) made declined := by
  obtain ⟨hkind, htext⟩ := Token.isKeyword_iff.mp hword
  have hliteral : literalKinds.contains Kind.keyword = false := by decide
  have hsymbol : Kind.keyword ≠ Kind.symbol := by decide
  have hid : Kind.keyword ≠ Kind.identifier := by decide
  have htemplate : Kind.keyword ≠ Kind.template := by decide
  simp only [List.mem_cons, List.not_mem_nil, or_false] at hmem
  simp only [operand, primary, Attempt.meets_bind, Attempt.meets_liftM, meets_current, hkind,
    hliteral, hsymbol, hid, htemplate, Token.isSymbol, Token.isKeyword, htext, decide_false,
    decide_true, Bool.false_and, Bool.true_and, Bool.false_eq_true, if_false, decide_eq_true_eq]
  rcases hmem with rfl | rfl | rfl | rfl | rfl
  · exact h
  · exact h
  · exact h
  · exact h
  · exact h

/-- A declaration or a statement with a word of its own is read like the expressions are. -/
theorem operand_gives_statement (hr : rules.ReadsPrograms bare input) {node : Node}
    (hnode : node.IsStatement) (hshows : input.Shows p (node.statementSpelling bare) q)
    (hsemi : (input.tokenAt q).isSymbol ";" = true) (hword : ¬ node.IsExpression) :
    Attempt.Gives input (operand hooks rules) p node q := by
  intro d
  cases hnode with
  | expression h => exact absurd h hword
  | ifStatement hvalue hconsequent halternate =>
      have hkind := (Token.isSymbol_iff.mp hsemi).1
      have helse := Token.isKeyword_eq_false_of_kind (by rw [hkind]; decide) "else"
      exact operand_word (Piece.matches_keyword.mp hshows.1) (by simp)
        (ifStatement_gives hr hvalue hconsequent halternate hshows helse d)
  | whileStatement hvalue hconsequent =>
      exact operand_word (Piece.matches_keyword.mp hshows.1) (by simp)
        (whileStatement_gives hr hvalue hconsequent hshows d)
  | @classDeclaration declaration hdeclaration hmods =>
      have hclass : (input.tokenAt p).isKeyword "class" = true := by
        obtain ⟨name, generics, bases, members, mods, offset⟩ := declaration
        exact (Piece.matches_keywordAt.mp hshows.1).1
      -- at a statement no modifiers were read in front of the class
      have hread := classDeclaration_gives hr hdeclaration hshows
      rw [hmods] at hread
      refine operand_word hclass (by simp) ?_
      rw [if_pos rfl, Attempt.meets_map]
      exact hread.meets ⟨rfl, rfl⟩
  | namespaceDeclaration hname hmembers =>
      exact operand_word (Piece.matches_keywordAt.mp hshows.1).1 (by simp)
        (namespaceDeclaration_gives hr hname hmembers hshows d)
  | @usingDirective directive htarget =>
      have husing : (input.tokenAt p).isKeyword "using" = true := by
        obtain ⟨aliasName, isStatic, target⟩ := directive
        exact Piece.matches_keyword.mp hshows.1
      refine operand_word husing (by simp) ?_
      rw [if_neg (by decide), if_pos rfl, Attempt.meets_map]
      exact (usingDirective_gives htarget hshows).meets ⟨rfl, rfl⟩

theorem expression_gives_statement (hr : rules.ReadsPrograms bare input) {node : Node}
    (hnode : node.IsStatement) (hshows : input.Shows p (node.statementSpelling bare) q)
    (hsemi : (input.tokenAt q).isSymbol ";" = true) :
    Attempt.Gives input (expression hooks rules 0) p node q := by
  by_cases hexpression : node.IsExpression
  · rw [hexpression.statementSpelling_eq] at hshows
    exact (expression_gives hr.expressions).upTo hexpression hshows hsemi (by decide)
  · intro d
    have hends := Token.continuesExpression_of_isSymbol hsemi (by decide)
    simp only [expression, Attempt.meets_bind, Attempt.meets_liftM]
    refine (operand_gives_statement hr hnode hshows hsemi hexpression).meets ?_
    exact (operators_gives (Token.endsOperators_of_not_continues hends) _ node).meets ⟨rfl, rfl⟩

theorem Rules.ReadsPrograms.next (hr : rules.ReadsPrograms bare input) :
    (Rules.next hooks rules).ReadsPrograms bare input where
  expressions := expression_gives hr.expressions
  types _ _ _ hshows hends := typeExpression_gives hr.types hshows hends
  statement _ _ _ hnode hshows hsemi := expression_gives_statement hr hnode hshows hsemi
  classDeclaration _ _ _ hdeclaration hshows := classDeclaration_gives hr hdeclaration hshows

theorem Rules.readsPrograms_ofDepth (budget depth : Nat) :
    (Rules.ofDepth hooks budget depth).ReadsPrograms bare input := by
  induction depth with
  | zero =>
      exact {
        expressions := Rules.readsExpressions_ofDepth budget 0
        types := fun _ _ _ _ _ _ => trivial
        statement := fun _ _ _ _ _ _ _ => trivial
        classDeclaration := fun _ _ _ _ _ _ => trivial }
  | succ depth ih => exact ih.next

/-- A program is read back from all of its tokens. -/
theorem program_gives (hr : rules.ReadsPrograms bare input) {tree : Program}
    (htree : ∀ node ∈ tree.body, node.IsStatement)
    (hshows : input.Shows p (bodySpelling bare tree.body) q) (hend : input.size ≤ q) :
    Parse.Gives input (program rules) p tree q := by
  intro d
  simp only [program, meets_bind, meets_pure]
  exact (sequenceFrom_gives hr tree.body _ p q htree hshows (.inl ⟨rfl, hend⟩)).meets ⟨rfl, rfl⟩

/-- **Printed programs are read back.** From the tokens of a printed program a parser without
plugins makes the program that was printed, with the tokens and offsets that it was printed with,
and it reports nothing. -/
theorem program_readBack {tree : Program} (htree : ∀ node ∈ tree.body, node.IsStatement)
    {tokens : List Token}
    (htokens : List.Forall₂ Piece.Matches (bodySpelling bare tree.body) tokens)
    (source : SourceText) (aliases : Aliases) :
    (Parser.new tokens source aliases).run program =
      (.ok tree, (Parser.new tokens source aliases).resumed tokens.length #[]) := by
  have hr : (Parser.new tokens source aliases).rules.ReadsPrograms bare
      (.ofTokens tokens source) := Rules.readsPrograms_ofDepth _ _
  have hshows : (Input.ofTokens tokens source).Shows 0 (bodySpelling bare tree.body)
      tokens.length := by
    have hall := @Input.shows_ofTokens [] tokens [] _ source htokens
    simpa using hall
  have hgives := program_gives hr htree hshows (by simp)
  obtain ⟨tree', reported, hrun⟩ := Parser.program_ends (.new tokens source aliases)
    Hooks.progress_none
  obtain ⟨rfl, hstate⟩ := Parser.post_of_run (hgives #[]) hrun
  -- the parse that was seen to end is the one that reads the program back
  have hreported : reported = #[] := congrArg ParseState.diagnostics hstate
  rw [hreported] at hrun
  have hsize : (Parser.new tokens source aliases).input.size = tokens.length :=
    Input.size_ofTokens tokens source
  rwa [hsize] at hrun

/-- A namespace with a generic method, a branch and a nested class with modifiers. -/
theorem program_readBack_namespace : ∃ tree : Program, (∀ node ∈ tree.body, node.IsStatement) ∧
    (bodySpelling (fun _ => false) tree.body).map Piece.text =
      ["namespace", "N", openBrace, "public", "A", ".", "B", "<", "int", ">", "f", "(", "a", ")",
        openBrace, "if", "(", "a", ")", openBrace, closeBrace, "else", openBrace, "a", ";",
        closeBrace, ";", closeBrace, "static", "class", "C", "<", "T", ">", ":", "D", openBrace,
        closeBrace, closeBrace, ";"] ∧
    ((Parser.new ((bodySpelling (fun _ => false) tree.body).map Piece.token)
      (.ofText "" "main.cs") .builtin).run program).1 = .ok tree := by
  let a : Node := .access ⟨.identifier, "a", 12⟩ []
  have ha : a.IsExpression := .access rfl (by simp)
  have hstatement : (Node.ifStatement a [] (.otherwise [a])).IsStatement :=
    .ifStatement ha (by simp) (.otherwise (by simpa using .expression ha))
  have htype : MemberType true ["public"] ⟨false, "A.B", [⟨true, "int", []⟩]⟩ := {
    mods_mem := by decide
    not_modifier := fun h => by cases h
    not_class := fun h => by cases h
    not_using := fun h => by cases h }
  have hmethod : Member.WellFormed true (.method ["public"] ⟨false, "A.B", [⟨true, "int", []⟩]⟩
      "f" [a] [.ifStatement a [] (.otherwise [a])] 3) :=
    .method htype (by simpa using ha) (by simpa using hstatement)
  have hclass : Member.WellFormed true
      (.nested ⟨"C", ["T"], [⟨false, "D", []⟩], [], ["static"], 29⟩) :=
    .nested (.mk (by simp)) (by decide)
  have htree : ∀ node ∈ [Node.namespaceDeclaration ⟨⟨.identifier, "N", 1⟩, []⟩
      [.method ["public"] ⟨false, "A.B", [⟨true, "int", []⟩]⟩ "f" [a]
        [.ifStatement a [] (.otherwise [a])] 3,
      .nested ⟨"C", ["T"], [⟨false, "D", []⟩], [], ["static"], 29⟩] 0], node.IsStatement := by
    simpa using .namespaceDeclaration ⟨rfl, by simp⟩ (by simpa using ⟨hmethod, hclass⟩)
  refine ⟨⟨_⟩, htree, by decide +kernel, ?_⟩
  exact congrArg Prod.fst (program_readBack htree (forall₂_matches_token _) _ _)

end SharpSyntax
