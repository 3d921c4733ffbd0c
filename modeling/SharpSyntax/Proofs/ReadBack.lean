import SharpSyntax.Proofs.Spelling
import SharpSyntax.Proofs.Termination

/-!
# Printed expressions are read back

A parser reads a printed expression as the tree that was printed and stops right behind it. How far
a rule reads depends on the token behind, so that every statement has a condition on that token: a
chain ends before what is no step, an operand before what no identifier takes, and operators before
one that binds too loosely.

The levels of the rules carry the induction. What stands in parentheses or brackets and what stands
on the right of an operator is read by the level below. Only the left operands of operators are read
by the loop of the same level, and the induction along them runs against the order of reading: what
the loop makes of a tree once it has that tree is what it makes of the leftmost operand at the
start.
-/

namespace SharpSyntax

open Parse Grammar

variable {α : Type} {input : Input} {p q r m n : Nat} {d : Array Diagnostic}

/-! ## Giving one thing -/

/-- From one place the step gives a value, stops at another place and reports nothing. -/
def Parse.Gives (input : Input) (step : Parse α) (p : Nat) (a : α) (q : Nat) : Prop :=
  ∀ d, Parse.Meets True input step (.at p d) fun b t => b = a ∧ t = .at q d

/-- From one place the step makes a value, stops at another place and reports nothing. -/
def Attempt.Gives (input : Input) (step : Attempt α) (p : Nat) (a : α) (q : Nat) : Prop :=
  ∀ d, Attempt.Meets True input step (.at p d) (fun b t => b = a ∧ t = .at q d) fun _ => False

/-- A step that gives one value ends in one state. -/
theorem Parse.Gives.meets {step : Parse α} {a : α} {post : α → ParseState → Prop}
    (h : Parse.Gives input step p a q) (hpost : post a (.at q d)) :
    Parse.Meets True input step (.at p d) post := by
  refine (h d).mono fun b t => ?_
  rintro ⟨rfl, rfl⟩
  exact hpost

theorem Attempt.Gives.meets {step : Attempt α} {a : α} {made : α → ParseState → Prop}
    {declined : ParseState → Prop} (h : Attempt.Gives input step p a q)
    (hmade : made a (.at q d)) : Attempt.Meets True input step (.at p d) made declined := by
  refine (h d).mono (fun b t => ?_) fun _ hfalse => hfalse.elim
  rintro ⟨rfl, rfl⟩
  exact hmade

/-! ## Where reading stops -/

namespace Token

/-- A token that is no step of an access chain. -/
def EndsChain (token : Token) : Prop :=
  ∀ text ∈ [".", "[", "("], token.isSymbol text = false

/-- A token that no chain takes for a step, an increment or an assignment. -/
def EndsOperand (token : Token) : Prop :=
  ∀ text ∈ [".", "[", "(", "++", "--", "="], token.isSymbol text = false

/-- A token that is no binary operator that binds as tightly as a minimum. -/
def EndsOperators (minimum : Nat) (token : Token) : Prop :=
  token.kind = Kind.symbol → ∀ k, binaryPrecedence? token.text = some k → k < minimum

variable {token : Token} {operator : String}

theorem EndsOperand.endsChain (h : token.EndsOperand) : token.EndsChain :=
  fun text hmem => h text (List.mem_append_left ["++", "--", "="] hmem)

/-- What ends weak operators ends the strong ones too. -/
theorem EndsOperators.mono (h : token.EndsOperators m) (hmn : m ≤ n) : token.EndsOperators n :=
  fun hkind k hk => Nat.lt_of_lt_of_le (h hkind k hk) hmn

end Token

theorem binaryPrecedence?_lt {operator : String} {k : Nat}
    (h : binaryPrecedence? operator = some k) : k < prefixPrecedence := by
  unfold binaryPrecedence? at h
  split at h <;> cases h <;> decide

theorem precedence_eq {operator : String} {k : Nat} (h : binaryPrecedence? operator = some k) :
    precedence operator = k := by
  rw [precedence, h]
  rfl

/-- No binary operator binds as tightly as one in front of an operand. -/
theorem Token.endsOperators_prefix (token : Token) : token.EndsOperators prefixPrecedence :=
  fun _ _ hk => binaryPrecedence?_lt hk

/-- A binary operator other than the sign of an assignment ends an operand. -/
theorem Token.endsOperand_of_isSymbol {token : Token} {operator : String}
    (h : token.isSymbol operator = true) (hop : (binaryPrecedence? operator).isSome)
    (hne : operator ≠ "=") : token.EndsOperand := by
  -- of the symbols that carry an operand on, only one is an operator
  have hclosers : ∀ text ∈ [".", "[", "(", "++", "--", "="],
      (binaryPrecedence? text).isSome → text = "=" := by decide
  intro text hmem
  refine Token.isSymbol_eq_false h text ?_
  rintro rfl
  exact hne (hclosers operator hmem hop)

namespace Node

/-- Whether an expression without parentheses is read whole by a rule with a minimum. -/
def Fits (minimum : Nat) : Node → Prop
  | .binary operator _ _ => minimum ≤ precedence operator
  | .assignment .. => minimum = 0
  | _ => True

/-- Whether reading an expression without parentheses stops at the token behind it. -/
def EndsBefore (token : Token) : Node → Prop
  | .literal .. => True
  | .binary operator _ _ => token.EndsOperand ∧ token.EndsOperators (precedence operator + 1)
  | .assignment .. => token.EndsOperand ∧ token.EndsOperators 0
  | _ => token.EndsOperand

variable {node left right : Node} {operator : String} {token : Token}

/-- An expression that fits ends in front of a token that ends operators of that level. -/
theorem endsBefore_of_fits (hfits : node.Fits m) (hoperand : token.EndsOperand)
    (hoperators : token.EndsOperators m) : node.EndsBefore token := by
  cases node with
  | literal => trivial
  | binary operator left right =>
      have hle : m ≤ precedence operator := hfits
      exact ⟨hoperand, hoperators.mono (by omega)⟩
  | assignment =>
      have hzero : m = 0 := hfits
      rw [hzero] at hoperators
      exact ⟨hoperand, hoperators⟩
  | _ => exact hoperand

theorem fits_behindPrefix (h : node.enclosedBehindPrefix = false) : node.Fits m := by
  cases node with
  | binary => cases h
  | assignment => cases h
  | _ => trivial

/-- An operand on the right that is not enclosed binds more strongly than the operator. -/
theorem fits_onRight (h : right.enclosedOnRight operator = false) :
    right.Fits (precedence operator + 1) := by
  cases right with
  | binary inner left right =>
      -- of operators of one level, the one on the right stands in parentheses
      have hlt : precedence operator < precedence inner := by simpa [enclosedOnRight] using h
      exact hlt
  | assignment => cases h
  | _ => trivial

/-- An operand on the left that is not enclosed binds at least as strongly as the operator. -/
theorem fits_onLeft (h : left.enclosedOnLeft operator = false) (hm : m ≤ precedence operator) :
    left.Fits m := by
  cases left with
  | binary inner left right =>
      simp [enclosedOnLeft] at h
      exact Nat.le_trans hm h.2
  | assignment => cases h
  | _ => trivial

/-- What stands on the left of an operator without parentheses is read up to that operator. -/
theorem endsBefore_onLeft (h : left.enclosedOnLeft operator = false)
    (hop : (binaryPrecedence? operator).isSome) (htoken : token.isSymbol operator = true) :
    left.EndsBefore token := by
  have hends := Token.endsOperand_of_isSymbol htoken hop
  cases left with
  | literal => trivial
  | binary inner left right =>
      simp [enclosedOnLeft] at h
      -- the operator binds at most as tightly as the one inside, and has to wait for it
      refine ⟨hends h.1, fun _ k hk => ?_⟩
      rw [(Token.isSymbol_iff.mp htoken).2] at hk
      rw [← precedence_eq hk]
      omega
  | assignment => cases h
  | _ => exact hends (by simpa [enclosedOnLeft] using h)

end Node

/-! ## Beginning and ending -/

/-- The symbols that carry an expression on. -/
def continuesExpression (text : String) : Bool :=
  [".", "[", "(", "++", "--"].contains text || (binaryPrecedence? text).isSome

namespace Token

/-- Whether a token carries the expression in front of it on. -/
def continuesExpression (token : Token) : Bool :=
  token.kind = Kind.symbol && SharpSyntax.continuesExpression token.text

variable {token : Token} {text : String}

theorem continuesExpression_of_isSymbol (h : token.isSymbol text = true)
    (htext : SharpSyntax.continuesExpression text = false) :
    token.continuesExpression = false := by
  rw [continuesExpression, (Token.isSymbol_iff.mp h).2, htext, Bool.and_false]

/-- Nothing goes on with an operand where nothing goes on with an expression. -/
theorem endsOperand_of_not_continues (h : token.continuesExpression = false) :
    token.EndsOperand := by
  have hall : ∀ text ∈ [".", "[", "(", "++", "--", "="],
      SharpSyntax.continuesExpression text = true := by decide
  intro text hmem
  rw [Bool.eq_false_iff]
  intro hsymbol
  obtain ⟨hkind, htext⟩ := Token.isSymbol_iff.mp hsymbol
  have hcontinues := hall text hmem
  rw [continuesExpression, hkind, htext, hcontinues] at h
  simp at h

theorem endsOperators_of_not_continues (h : token.continuesExpression = false) :
    token.EndsOperators m := by
  intro hkind k hk
  rw [continuesExpression, hkind, SharpSyntax.continuesExpression, hk] at h
  simp at h

/-- A token that an expression may begin with. -/
def BeginsExpression (token : Token) : Prop :=
  token.kind ≠ Kind.endOfInput ∧
    (token.kind = Kind.symbol → token.text = "(" ∨ token.text ∈ prefixOperators)

theorem BeginsExpression.isSymbol_eq_false (h : token.BeginsExpression) (text : String)
    (hopen : text ≠ "(") (hfront : text ∉ prefixOperators) : token.isSymbol text = false := by
  rw [Bool.eq_false_iff]
  intro hsymbol
  obtain ⟨hkind, rfl⟩ := Token.isSymbol_iff.mp hsymbol
  rcases h.2 hkind with h | h
  · exact hopen h
  · exact hfront h

theorem beginsExpression_of_kind (hend : token.kind ≠ Kind.endOfInput)
    (hsymbol : token.kind ≠ Kind.symbol) : token.BeginsExpression :=
  ⟨hend, fun h => absurd h hsymbol⟩

end Token

/-- What is enclosed begins with its parenthesis. -/
theorem beginsExpression_enclosed {needed : Bool} {pieces : List Piece}
    (hshows : input.Shows p (enclosed needed pieces) q)
    (h : ∀ r, input.Shows p pieces r → (input.tokenAt p).BeginsExpression) :
    (input.tokenAt p).BeginsExpression := by
  cases needed with
  | false => exact h q hshows
  | true =>
      obtain ⟨hopen, -⟩ := hshows
      obtain ⟨hkind, htext⟩ := Token.isSymbol_iff.mp (Piece.matches_symbol.mp hopen)
      exact ⟨by rw [hkind]; decide, fun _ => .inl htext⟩

/-- A printed expression begins with a token that tells it from the end of a list or a body. -/
theorem Node.IsExpression.begins : ∀ {node : Node} {p q : Nat}, node.IsExpression →
    input.Shows p node.spelling q → (input.tokenAt p).BeginsExpression
  | .literal kind value, p, q, hnode, hshows => by
      obtain ⟨⟨hkind, -⟩, -⟩ := hshows
      -- the kinds of literals are known, the kind of this one is not
      have hall : ∀ kind ∈ literalKinds, kind ≠ Kind.endOfInput ∧ kind ≠ Kind.symbol := by decide
      cases hnode with
      | literal hliteral =>
          rw [← show (input.tokenAt p).kind = kind from hkind] at hliteral
          exact Token.beginsExpression_of_kind (hall _ hliteral).1 (hall _ hliteral).2
  | .template text holes, p, q, _, hshows => by
      obtain ⟨⟨hkind, -⟩, -⟩ := hshows
      have hkind' : (input.tokenAt p).kind = Kind.template := hkind
      exact Token.beginsExpression_of_kind (by rw [hkind']; decide) (by rw [hkind']; decide)
  | .access target body, p, q, hnode, hshows => by
      obtain ⟨⟨hkind, -⟩, -⟩ := hshows
      cases hnode with
      | access hid _ =>
          have hkind' : (input.tokenAt p).kind = Kind.identifier := hkind.trans hid
          exact Token.beginsExpression_of_kind (by rw [hkind']; decide) (by rw [hkind']; decide)
  | .prefixed operator argument, p, q, hnode, hshows => by
      obtain ⟨hsymbol, -⟩ := hshows
      obtain ⟨hkind, htext⟩ := Token.isSymbol_iff.mp (Piece.matches_symbol.mp hsymbol)
      cases hnode with
      | prefixed hop _ =>
          refine ⟨by rw [hkind]; decide, fun _ => .inr ?_⟩
          rwa [htext]
  | .postfixed operator argument, p, q, hnode, hshows => by
      obtain ⟨r, hargument, -⟩ := Input.shows_append.mp hshows
      cases hnode with
      | postfixed _ _ harg => exact harg.begins hargument
  | .binary operator left right, p, q, hnode, hshows => by
      obtain ⟨r, hleft, -⟩ := Input.shows_append.mp hshows
      cases hnode with
      | binary _ hl _ => exact beginsExpression_enclosed hleft fun _ h => hl.begins h
  | .assignment left right, p, q, hnode, hshows => by
      obtain ⟨r, hleft, -⟩ := Input.shows_append.mp hshows
      cases hnode with
      | assignment _ hl _ => exact hl.begins hleft
  | .ifStatement .., _, _, hnode, _ => by cases hnode
  | .whileStatement .., _, _, hnode, _ => by cases hnode
  | .classDeclaration _, _, _, hnode, _ => by cases hnode
  | .namespaceDeclaration .., _, _, hnode, _ => by cases hnode
  | .usingDirective _, _, _, hnode, _ => by cases hnode
  | .extension .., _, _, hnode, _ => by cases hnode

/-- The rules of a level read printed expressions back, in parentheses or without. -/
def Rules.ReadsExpressions (input : Input) (rules : Rules) : Prop :=
  ∀ (m p q : Nat) (needed : Bool) (node : Node), node.IsExpression →
    (needed = false → node.Fits m) → input.Shows p (enclosed needed node.spelling) q →
    (input.tokenAt q).EndsOperand → (input.tokenAt q).EndsOperators m →
    Attempt.Gives input (rules.expression m) p node q

variable {rules : Rules} {hooks : Hooks}

/-- In the outermost place every expression fits. -/
theorem Node.fits_zero (node : Node) : node.Fits 0 := by
  cases node with
  | binary => exact Nat.zero_le _
  | assignment => rfl
  | _ => trivial

/-- An expression is read up to a token that does not carry it on. -/
theorem Rules.ReadsExpressions.plain (hr : rules.ReadsExpressions input) {node : Node}
    (hnode : node.IsExpression) (hshows : input.Shows p node.spelling q)
    (hends : (input.tokenAt q).continuesExpression = false) :
    Attempt.Gives input (rules.expression 0) p node q :=
  hr 0 p q false node hnode (fun _ => node.fits_zero) hshows
    (Token.endsOperand_of_not_continues hends) (Token.endsOperators_of_not_continues hends)

/-- An expression is read up to a symbol that does not carry it on. -/
theorem Rules.ReadsExpressions.upTo (hr : rules.ReadsExpressions input) {node : Node}
    {text : String} (hnode : node.IsExpression) (hshows : input.Shows p node.spelling q)
    (hsymbol : (input.tokenAt q).isSymbol text = true)
    (htext : continuesExpression text = false) :
    Attempt.Gives input (rules.expression 0) p node q :=
  hr.plain hnode hshows (Token.continuesExpression_of_isSymbol hsymbol htext)

/-! ## Chains -/

/-- Arguments are read back one by one, up to their parenthesis. -/
theorem argumentsFrom_gives (hr : rules.ReadsExpressions input) :
    ∀ (items : List Node) (n p q : Nat), (∀ item ∈ items, item.IsExpression) →
      input.Shows p (itemsSpelling items) q → (input.tokenAt q).isSymbol ")" = true →
      Parse.Gives input (argumentsFrom rules n) p items q
  | _, 0, _, _, _, _, _ => fun _ => trivial
  | [], n + 1, p, q, _, hshows, hclose => by
      intro d
      obtain rfl : p = q := hshows
      have hlt := Input.lt_size_of_isSymbol hclose
      simp [argumentsFrom, hclose, Nat.not_le.mpr hlt]
  | item :: items, n + 1, p, q, hitems, hshows, hclose => by
      intro d
      obtain ⟨r, hitem, hfurther⟩ := Input.shows_append.mp hshows
      have hbegins := (hitems item (by simp)).begins hitem
      have hlt := Input.lt_size_of_kind_ne hbegins.1
      have hnot := hbegins.isSymbol_eq_false ")" (by decide) (by decide)
      simp only [argumentsFrom, meets_bind, meets_ite, Attempt.meets_run, meets_atEnd,
        Nat.not_le.mpr hlt, decide_false, meets_current, hnot]
      cases items with
      | nil =>
          obtain rfl : r = q := hfurther
          -- the last argument: the parenthesis behind it is no comma
          refine (hr.upTo (hitems item (by simp)) hitem hclose (by decide)).meets ?_
          have hcomma := Token.isSymbol_eq_false hclose "," (by decide)
          simp [hcomma]
      | cons next items =>
          obtain ⟨hcomma, hnext⟩ := hfurther
          rw [Piece.matches_symbol] at hcomma
          refine (hr.upTo (hitems item (by simp)) hitem hcomma (by decide)).meets ?_
          simp only [meets_current, hcomma]
          refine (argumentsFrom_gives hr (next :: items) n (r + 1) q
            (fun other hmem => hitems other (by simp [hmem])) hnext hclose).meets ?_
          exact ⟨rfl, rfl⟩

theorem arguments_gives (hr : rules.ReadsExpressions input) {items : List Node}
    (hitems : ∀ item ∈ items, item.IsExpression)
    (hshows : input.Shows p (.symbol "(" :: (itemsSpelling items ++ [.symbol ")"])) q) :
    Parse.Gives input (arguments rules) p items q := by
  intro d
  obtain ⟨hopen, hrest⟩ := hshows
  obtain ⟨r, hshown, hclose, hend⟩ := Input.shows_append.mp hrest
  obtain rfl : r + 1 = q := hend
  rw [Piece.matches_symbol] at hopen hclose
  simp only [arguments, meets_bind, meets_ite, meets_require, Token.fits_symbol, hopen]
  refine (argumentsFrom_gives hr items _ (p + 1) r hitems hshown hclose).meets ?_
  simp [hclose]

/-- The steps of a chain are read back one by one. -/
theorem accesses_gives (hr : rules.ReadsExpressions input) :
    ∀ (body : List Access) (n p q : Nat), (∀ step ∈ body, step.IsExpression) →
      input.Shows p (stepsSpelling body) q → (input.tokenAt q).EndsChain →
      Parse.Gives input (accesses rules n) p body q
  | _, 0, _, _, _, _, _ => fun _ => trivial
  | [], n + 1, p, q, _, hshows, hends => by
      intro d
      obtain rfl : p = q := hshows
      have hdot := hends "." (by simp)
      have hindex := hends "[" (by simp)
      have hcall := hends "(" (by simp)
      simp [accesses, hdot, hindex, hcall]
  | step :: body, n + 1, p, q, hbody, hshows, hends => by
      intro d
      obtain ⟨r, hstep, hrest⟩ := Input.shows_append.mp hshows
      have hread := accesses_gives hr body n r q (fun other hmem => hbody other (by simp [hmem]))
        hrest hends
      have hexpression := hbody step (by simp)
      cases step with
      | member name =>
          obtain ⟨hdot, hname, hend⟩ := hstep
          obtain rfl : p + 1 + 1 = r := hend
          cases hexpression with
          | member hid =>
              rw [Piece.matches_symbol] at hdot
              rw [Piece.matches_exactly] at hname
              simp only [accesses, meets_bind, meets_ite, meets_pure, meets_current, hdot,
                Bool.not_true, Bool.false_eq_true, if_false, if_true, meets_advance, meets_require,
                hname, Token.fits_identifier, hid, decide_true, meets_consume]
              exact hread.meets ⟨rfl, rfl⟩
      | index node =>
          obtain ⟨hopen, hinside⟩ := hstep
          obtain ⟨u, hnode, hclose, hend⟩ := Input.shows_append.mp hinside
          obtain rfl : u + 1 = r := hend
          cases hexpression with
          | index hindex =>
              rw [Piece.matches_symbol] at hopen hclose
              have hdot := Token.isSymbol_eq_false hopen "." (by decide)
              simp only [accesses, meets_bind, meets_ite, Attempt.meets_run, meets_current, hdot,
                hopen]
              refine (hr.upTo hindex hnode hclose (by decide)).meets ?_
              simp only [meets_require, Token.fits_symbol, hclose]
              exact hread.meets ⟨rfl, rfl⟩
      | call items =>
          cases hexpression with
          | call hitems =>
              have hopen := Piece.matches_symbol.mp hstep.1
              have hdot := Token.isSymbol_eq_false hopen "." (by decide)
              have hindex := Token.isSymbol_eq_false hopen "[" (by decide)
              simp only [accesses, meets_bind, meets_ite, meets_current, hdot, hindex, hopen]
              refine (arguments_gives hr hitems hstep).meets ?_
              exact hread.meets ⟨rfl, rfl⟩

/-- What is made of a chain once it has been read is made of its identifier and steps before. -/
theorem accessChain_meets (hr : rules.ReadsExpressions input) {post : Node → ParseState → Prop} :
    ∀ {node : Node} {p q : Nat}, node.isChain → node.IsExpression →
      input.Shows p node.spelling q → (input.tokenAt q).EndsChain →
      (∀ n, Parse.Meets True input (postfixes n node) (.at q d) post) →
      ∀ n, Attempt.Meets True input (accessChain rules) (.at p d)
        (fun chain t => Parse.Meets True input (postfixes n (.access chain.1 chain.2)) t post)
        fun _ => False
  | .access target body, p, q, _, hnode, hshows, hends, hpost, n => by
      obtain ⟨htarget, hbody⟩ := hshows
      cases hnode with
      | access hid hsteps =>
          rw [Piece.matches_exactly] at htarget
          simp only [accessChain, Attempt.meets_bind, Attempt.meets_ite, Attempt.meets_liftM,
            meets_current, htarget, hid]
          exact (accesses_gives hr body _ (p + 1) q hsteps hbody hends).meets (hpost n)
  | .postfixed operator argument, p, q, _, hnode, hshows, hends, hpost, n => by
      obtain ⟨r, hargument, hoperator, hend⟩ := Input.shows_append.mp hshows
      obtain rfl : r + 1 = q := hend
      cases hnode with
      | postfixed hop hchain harg =>
          rw [Piece.matches_symbol] at hoperator
          -- the increment is behind all of the chain, which is read as if it ended there
          refine accessChain_meets hr hchain harg hargument (fun text hmem => ?_) (fun n => ?_) n
          · refine Token.isSymbol_eq_false hoperator text ?_
            rintro rfl
            rcases hop with rfl | rfl
            · simp at hmem
            · simp at hmem
          · cases n with
            | zero => trivial
            | succ n =>
                have hread : ((input.tokenAt r).isSymbol "++" || (input.tokenAt r).isSymbol "--") =
                    true := by
                  rw [Bool.or_eq_true]
                  rcases hop with rfl | rfl
                  · exact .inl hoperator
                  · exact .inr hoperator
                have htext := (Token.isSymbol_iff.mp hoperator).2
                simp only [postfixes, meets_bind, meets_current, hread, if_true, meets_advance,
                  htext]
                exact hpost n

/-- Where no increment follows, the operand is left as it is. -/
theorem postfixes_gives (hends : (input.tokenAt p).EndsOperand) (n : Nat) (node : Node) :
    Parse.Gives input (postfixes n node) p node p := by
  intro d
  cases n with
  | zero => trivial
  | succ n =>
      have hplus := hends "++" (by simp)
      have hminus := hends "--" (by simp)
      simp [postfixes, hplus, hminus]

theorem Node.IsExpression.chain_begins : ∀ {node : Node} {p q : Nat}, node.isChain →
    node.IsExpression → input.Shows p node.spelling q →
    (input.tokenAt p).kind = Kind.identifier
  | .access target body, p, q, _, hnode, hshows => by
      obtain ⟨⟨hkind, -⟩, -⟩ := hshows
      cases hnode with
      | access hid _ => exact hkind.trans hid
  | .postfixed operator argument, p, q, _, hnode, hshows => by
      obtain ⟨r, hargument, -⟩ := Input.shows_append.mp hshows
      cases hnode with
      | postfixed _ hchain harg => exact harg.chain_begins hchain hargument

/-! ## Operands -/

/-- An identifier is not taken for the beginning of anything but a chain. -/
theorem operand_identifier {made : Node → ParseState → Prop} {declined : ParseState → Prop}
    (hid : (input.tokenAt p).kind = Kind.identifier)
    (h : Attempt.Meets True input (identifierExpression rules) (.at p d) made declined) :
    Attempt.Meets True input (operand hooks rules) (.at p d) made declined := by
  have hsymbol : Kind.identifier ≠ Kind.symbol := by decide
  have hliteral : literalKinds.contains Kind.identifier = false := by decide
  simp only [operand, primary, Attempt.meets_bind, Attempt.meets_liftM, meets_current, hid,
    hsymbol, hliteral, decide_false, Bool.false_and, Bool.false_eq_true, if_false, if_true]
  exact h

/-- A chain with its increments is read back where nothing goes on with it. -/
theorem chain_gives (hr : rules.ReadsExpressions input) {node : Node} (hchain : node.isChain)
    (hnode : node.IsExpression) (hshows : input.Shows p node.spelling q)
    (hends : (input.tokenAt q).EndsOperand) :
    Attempt.Gives input (operand hooks rules) p node q := by
  intro d
  refine operand_identifier (hnode.chain_begins hchain hshows) ?_
  simp only [identifierExpression, Attempt.meets_bind, Attempt.meets_liftM]
  refine (accessChain_meets hr hchain hnode hshows hends.endsChain (fun n => ?_) _)
  refine (postfixes_gives hends n node).meets ?_
  have hassign := hends "=" (by simp)
  simp [hassign]

/-- An assignment is read back with the chain in front of it and all that is behind it. -/
theorem assignment_gives (hr : rules.ReadsExpressions input) {left right : Node}
    (hchain : left.isChain) (hleft : left.IsExpression) (hright : right.IsExpression)
    (hshows : input.Shows p (Node.assignment left right).spelling q)
    (hends : (Node.assignment left right).EndsBefore (input.tokenAt q)) :
    Attempt.Gives input (operand hooks rules) p (.assignment left right) q := by
  intro d
  obtain ⟨r, hleftShown, hassign, hrightShown⟩ := Input.shows_append.mp hshows
  rw [Piece.matches_symbol] at hassign
  refine operand_identifier (hleft.chain_begins hchain hleftShown) ?_
  simp only [identifierExpression, Attempt.meets_bind, Attempt.meets_liftM]
  -- the sign ends the chain, but it does not end the operand
  have hstep : (input.tokenAt r).EndsChain := fun text hmem =>
    Token.isSymbol_eq_false hassign text fun he => by rw [← he] at hmem; simp at hmem
  refine (accessChain_meets hr hchain hleft hleftShown hstep (fun n => ?_) _)
  cases n with
  | zero => trivial
  | succ n =>
      have hplus := Token.isSymbol_eq_false hassign "++" (by decide)
      have hminus := Token.isSymbol_eq_false hassign "--" (by decide)
      simp only [postfixes, Attempt.meets_ite, Attempt.meets_bind, meets_bind, meets_ite,
        meets_pure, meets_current, hplus, hminus, hassign]
      exact (hr 0 (r + 1) q false right hright (fun _ => right.fits_zero) hrightShown hends.1
        hends.2).meets ⟨rfl, rfl⟩

theorem literal_gives {kind : Kind} {value : String} (hkind : kind ∈ literalKinds)
    (hshows : input.Shows p (Node.literal kind value).spelling q) :
    Attempt.Gives input (operand hooks rules) p (.literal kind value) q := by
  intro d
  obtain ⟨⟨hkind', htext, -⟩, hend⟩ := hshows
  obtain rfl : p + 1 = q := hend
  have hsymbol : kind ≠ Kind.symbol := by
    rintro rfl
    exact absurd hkind (by decide)
  have htoken : (input.tokenAt p).kind = kind := hkind'
  have htoken' : (input.tokenAt p).text = value := htext
  simp [operand, primary, htoken, htoken', hsymbol, hkind]

theorem template_gives {text : String}
    (hshows : input.Shows p
      (Node.template text ((templateHoles text.toList).map String.ofList)).spelling q) :
    Attempt.Gives input (operand hooks rules) p
      (.template text ((templateHoles text.toList).map String.ofList)) q := by
  intro d
  obtain ⟨⟨hkind, htext, -⟩, hend⟩ := hshows
  obtain rfl : p + 1 = q := hend
  have hkind' : (input.tokenAt p).kind = Kind.template := hkind
  have htext' : (input.tokenAt p).text = text := htext
  have hsymbol : Kind.template ≠ Kind.symbol := by decide
  have hliteral : Kind.template ∉ literalKinds := by decide
  have hid : Kind.template ≠ Kind.identifier := by decide
  have hword : Kind.template ≠ Kind.keyword := by decide
  simp [operand, primary, templateLiteral, Token.isSymbol, Token.isKeyword, hkind', htext', hsymbol,
    hliteral, hid, hword]

/-- Behind an operator in front, the operand is read at the level where it fits. -/
theorem prefixed_gives (hr : rules.ReadsExpressions input) {operator : String} {argument : Node}
    (hop : operator ∈ prefixOperators) (hargument : argument.IsExpression)
    (hshows : input.Shows p (Node.prefixed operator argument).spelling q)
    (hends : (input.tokenAt q).EndsOperand) :
    Attempt.Gives input (operand hooks rules) p (.prefixed operator argument) q := by
  intro d
  obtain ⟨hoperator, hshown⟩ := hshows
  obtain ⟨hkind, htext⟩ := Token.isSymbol_iff.mp (Piece.matches_symbol.mp hoperator)
  simp only [operand, List.contains_eq_mem, Attempt.meets_bind, Attempt.meets_ite,
    Attempt.meets_liftM, meets_current, hkind, htext, hop]
  exact (hr prefixPrecedence (p + 1) q _ argument hargument Node.fits_behindPrefix hshown hends
    (Token.endsOperators_prefix _)).meets ⟨rfl, rfl⟩

/-- What is enclosed is read back without its parentheses. -/
theorem parenthesized_gives (hr : rules.ReadsExpressions input) {node : Node}
    (hnode : node.IsExpression)
    (hshows : input.Shows p (.symbol "(" :: (node.spelling ++ [.symbol ")"])) q) :
    Attempt.Gives input (operand hooks rules) p node q := by
  intro d
  obtain ⟨hopen, hrest⟩ := hshows
  obtain ⟨r, hshown, hclose, hend⟩ := Input.shows_append.mp hrest
  obtain rfl : r + 1 = q := hend
  rw [Piece.matches_symbol] at hopen hclose
  obtain ⟨hkind, htext⟩ := Token.isSymbol_iff.mp hopen
  have hfront : "(" ∉ prefixOperators := by decide
  have hliteral : Kind.symbol ∉ literalKinds := by decide
  have hid : Kind.symbol ≠ Kind.identifier := by decide
  simp only [operand, primary, parenthesized, List.contains_eq_mem, Attempt.meets_bind,
    Attempt.meets_liftM, meets_current, hkind, htext, hfront, hliteral, hid, hopen, decide_true,
    decide_false, Bool.and_false, Bool.false_eq_true, if_false, if_true, Attempt.meets_ite]
  refine (hr.upTo hnode hshown hclose (by decide)).meets ?_
  simp [hclose]

/-! ## Operators -/

/-- Where no operator follows, the left operand is left as it is. -/
theorem operators_gives (hends : (input.tokenAt p).EndsOperators m) (n : Nat) (node : Node) :
    Parse.Gives input (operators rules m n node) p node p := by
  intro d
  cases n with
  | zero => trivial
  | succ n =>
      by_cases hsym : (input.tokenAt p).kind = Kind.symbol
      · cases hop : binaryPrecedence? (input.tokenAt p).text with
        | none => simp [operators, hsym, hop]
        | some k =>
            have hlt := hends hsym k hop
            simp [operators, hsym, hop, hlt]
      · simp [operators, hsym]

/-- What the loop over operators makes of a printed tree is what it makes of the leftmost operand
of the tree, with the rest of the tree still to be read. -/
theorem operand_meets (hr : rules.ReadsExpressions input) {post : Node → ParseState → Prop} :
    ∀ {node : Node} {needed : Bool} {p q : Nat}, node.IsExpression →
      (needed = false → node.Fits m ∧ node.EndsBefore (input.tokenAt q)) →
      input.Shows p (enclosed needed node.spelling) q →
      (∀ n, Parse.Meets True input (operators rules m n node) (.at q d) post) →
      ∀ n, Attempt.Meets True input (operand hooks rules) (.at p d)
        (fun left t => Parse.Meets True input (operators rules m n left) t post) fun _ => False
  | node, true, p, q, hnode, _, hshows, hpost, n =>
      (parenthesized_gives hr hnode hshows).meets (hpost n)
  | .literal .., false, p, q, hnode, _, hshows, hpost, n => by
      cases hnode with
      | literal hkind => exact (literal_gives hkind hshows).meets (hpost n)
  | .template .., false, p, q, hnode, _, hshows, hpost, n => by
      cases hnode with
      | template => exact (template_gives hshows).meets (hpost n)
  | .access .., false, p, q, hnode, hends, hshows, hpost, n =>
      (chain_gives hr rfl hnode hshows (hends rfl).2).meets (hpost n)
  | .postfixed .., false, p, q, hnode, hends, hshows, hpost, n =>
      (chain_gives hr rfl hnode hshows (hends rfl).2).meets (hpost n)
  | .prefixed .., false, p, q, hnode, hends, hshows, hpost, n => by
      cases hnode with
      | prefixed hop hargument =>
          exact (prefixed_gives hr hop hargument hshows (hends rfl).2).meets (hpost n)
  | .assignment .., false, p, q, hnode, hends, hshows, hpost, n => by
      cases hnode with
      | assignment hchain hleft hright =>
          exact (assignment_gives hr hchain hleft hright hshows (hends rfl).2).meets (hpost n)
  | .binary operator left right, false, p, q, hnode, hends, hshows, hpost, n => by
      obtain ⟨hfits, hoperand, hoperators⟩ := hends rfl
      obtain ⟨r, hleftShown, hoperator, hrightShown⟩ := Input.shows_append.mp hshows
      rw [Piece.matches_symbol] at hoperator
      obtain ⟨hkind, htext⟩ := Token.isSymbol_iff.mp hoperator
      cases hnode with
      | binary hop hleft hright =>
          obtain ⟨k, hk⟩ := Option.isSome_iff_exists.mp hop
          have hprecedence := precedence_eq hk
          have hmin : m ≤ k := hprecedence ▸ hfits
          rw [hprecedence] at hoperators
          refine operand_meets hr hleft (fun hneeded => ⟨Node.fits_onLeft hneeded hfits,
            Node.endsBefore_onLeft hneeded hop hoperator⟩) hleftShown (fun n => ?_) n
          cases n with
          | zero => trivial
          | succ n =>
              -- the loop has come to the operator, and the right operand binds tighter
              simp only [operators, meets_bind, meets_ite, meets_current, hkind, htext, hk,
                Nat.not_lt.mpr hmin, Attempt.meets_run]
              refine (hr (k + 1) (r + 1) q _ right hright (fun hneeded => ?_) hrightShown hoperand
                hoperators).meets (hpost n)
              rw [← hprecedence]
              exact Node.fits_onRight hneeded

/-- An expression is read back at every level where it fits. -/
theorem expression_gives (hr : rules.ReadsExpressions input) :
    (Rules.next hooks rules).ReadsExpressions input := by
  intro m p q needed node hnode hfits hshows hoperand hoperators d
  simp only [Rules.next, expression, Attempt.meets_bind, Attempt.meets_liftM]
  refine operand_meets hr hnode (fun hneeded => ⟨hfits hneeded, ?_⟩) hshows (fun n => ?_) _
  -- read whole: what follows binds too loosely for this level
  · exact Node.endsBefore_of_fits (hfits hneeded) hoperand hoperators
  · exact (operators_gives hoperators n node).meets ⟨rfl, rfl⟩

theorem Rules.readsExpressions_ofDepth (budget depth : Nat) :
    (Rules.ofDepth hooks budget depth).ReadsExpressions input := by
  induction depth with
  | zero => exact fun _ _ _ _ _ _ _ _ _ _ _ => trivial
  | succ depth ih => exact expression_gives ih

/-! ## Parsers -/

/-- A step that ends, and gives one thing where it ends, gives it. -/
theorem Parser.run_of_gives {parser : Parser} (step : Rules → Attempt α) {a : α}
    (hreaches : Attempt.Reaches parser.input (step parser.rules) p r)
    (hgives : Attempt.Gives parser.input (step parser.rules) p a q) (d : Array Diagnostic) :
    (parser.resumed p d).run (fun rules => (step rules).run) =
      (.ok (some a), parser.resumed q d) := by
  obtain ⟨made, t, hrun, -⟩ := Parser.run_of_meets (fun rules => (step rules).run) (hreaches d)
  have hpost := Parser.post_of_run (hgives d) hrun
  cases made with
  | none => exact hpost.elim
  | some b =>
      obtain ⟨rfl, ht⟩ := hpost
      obtain rfl : t = .at q d := ht
      exact hrun

/-- The tokens between those in front and those behind are where the cursor gets to them. -/
theorem Input.shows_ofTokens {before tokens after : List Token} {pieces : List Piece}
    {source : SourceText} (h : List.Forall₂ Piece.Matches pieces tokens) :
    (Input.ofTokens (before ++ tokens ++ after) source).Shows before.length pieces
      (before.length + tokens.length) := by
  refine Input.shows_of_forall₂ h fun i hi => ?_
  have hlt : before.length + i < (before ++ tokens).length := by
    rw [List.length_append]
    omega
  simp only [Input.tokenAt, Input.ofTokens, List.getElem?_toArray]
  rw [List.getElem?_append_left hlt, List.getElem?_append_right (Nat.le_add_right _ _)]
  simp [hi]

/-- Behind the tokens stands the next one, or nothing does. -/
theorem Input.tokenAt_ofTokens (tokens after : List Token) (source : SourceText) :
    (Input.ofTokens (tokens ++ after) source).tokenAt tokens.length =
      after.head?.getD (Input.ofTokens (tokens ++ after) source).endMarker := by
  cases after with
  | nil => simp [Input.tokenAt, Input.ofTokens]
  | cons token after => simp [Input.tokenAt, Input.ofTokens]

/-- **Printed expressions are read back.** Wherever the tokens of a printed expression stand, and
whatever was reported before, a parser without plugins reads the expression from them, reports
nothing and stops behind them, unless the next token carries an expression on. -/
theorem expression_readBack {node : Node} (hnode : node.IsExpression)
    {before tokens after : List Token} (htokens : List.Forall₂ Piece.Matches node.spelling tokens)
    (hafter : ∀ token ∈ after.head?, token.continuesExpression = false) (source : SourceText)
    (aliases : Aliases) (reported : Array Diagnostic) :
    ((Parser.new (before ++ tokens ++ after) source aliases).resumed before.length reported).run
        (fun rules => (rules.expression 0).run) =
      (.ok (some node), (Parser.new (before ++ tokens ++ after) source aliases).resumed
        (before.length + tokens.length) reported) := by
  obtain ⟨hr, hd⟩ := Parser.rules_progress (.new (before ++ tokens ++ after) source aliases)
    Hooks.progress_none before.length
  have hp : before.length ≤ (Input.ofTokens (before ++ tokens ++ after) source).size := by
    rw [Input.size_ofTokens, List.append_assoc, List.length_append]
    exact Nat.le_add_right _ _
  refine Parser.run_of_gives (fun rules => rules.expression 0)
    (hr.expression 0 before.length hp hd) ?_ reported
  refine (Rules.readsExpressions_ofDepth _ _).plain hnode (Input.shows_ofTokens htokens) ?_
  have htoken := Input.tokenAt_ofTokens (before ++ tokens) after source
  rw [List.length_append] at htoken
  show (Input.tokenAt (.ofTokens _ source) _).continuesExpression = false
  rw [htoken]
  cases hhead : after.head? with
  | none => rfl
  | some token => exact hafter token hhead

/-- The product of an assignment, which stands in parentheses, and an operand that needs none. -/
theorem expression_readBack_product : ∃ node : Node, node.IsExpression ∧
    node.spelling.map Piece.text = ["(", "a", "=", "1", ")", "*", "-", "b", "[", "0", "]", "++"] ∧
    (((Parser.new (node.spelling.map Piece.token ++ [⟨.symbol, ";", 9⟩])
        (.ofText "(a=1)*-b[0]++;" "main.cs") .builtin).resumed 0 #[]).run
      fun rules => (rules.expression 0).run).1 = .ok (some node) := by
  have hnumber : Kind.number ∈ literalKinds := by decide
  have hleft : (Node.assignment (.access ⟨.identifier, "a", 1⟩ [])
      (.literal .number "1")).IsExpression :=
    .assignment rfl (.access rfl (by simp)) (.literal hnumber)
  have hindex : (Access.index (.literal .number "0")).IsExpression := .index (.literal hnumber)
  have hright : (Node.prefixed "-" (.postfixed "++" (.access ⟨.identifier, "b", 7⟩
      [.index (.literal .number "0")]))).IsExpression :=
    .prefixed (by decide) (.postfixed (.inl rfl) rfl (.access rfl (by simpa using hindex)))
  refine ⟨.binary "*" _ _, .binary (by decide) hleft hright, rfl, ?_⟩
  exact congrArg Prod.fst (@expression_readBack _ (.binary (by decide) hleft hright) [] _
    [⟨.symbol, ";", 9⟩] (forall₂_matches_token _) (by decide) _ _ #[])

end SharpSyntax
