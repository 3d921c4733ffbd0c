import SharpSyntax.Proofs.GrammarContracts
import SharpSyntax.Proofs.Runs

/-!
# Loops that drop nothing

Some routines go on where a part was declined. The loops over statements and members drop it and go
on behind it, up to the end of the input or to a symbol that closes them. Arguments, types between
commas, names, access chains, binary operators and the branches of an `if` end there and keep what
they have.

For each of them a relation tells what a run has read that reported nothing: part by part, each made
where the one before it ended, up to a place where no further part can begin. As whatever declines
has reported, every run without a report is of that form, so it has dropped nothing. The proofs go
along the rounds of the loops and take each round apart into the runs of its steps. What the loops
have read is then found again in the statements and declarations that call them.
-/

namespace SharpSyntax

open Parse Attempt Grammar

variable {α : Type} {input : Input} {rules : Rules} {s t u : ParseState}

/-! ## Runs -/

namespace Attempt

/-- The step only appends to the diagnostics. -/
def OnlyAppends (input : Input) (step : Attempt α) : Prop :=
  ∀ s made t, (step.run.run input).run s = .ok made t → Continues 0 s t

/-- The step only appends to the diagnostics, and where it declines it has appended one or more. -/
def Outspoken (input : Input) (step : Attempt α) : Prop :=
  ∀ s made t, (step.run.run input).run s = .ok made t →
    Continues 0 s t ∧ (made = none → Continues 1 s t)

variable {step : Attempt α} {made : α → Prop}

theorem Makes.outspoken (h : ∀ s, Makes 1 input step made s) : Outspoken input step := by
  intro s o t hrun
  have hmakes := h s
  unfold Makes Attempt.Meets Parse.Meets at hmakes
  rw [hrun] at hmakes
  cases o with
  | none => exact ⟨hmakes.mono (Nat.zero_le 1), fun _ => hmakes⟩
  | some a => exact ⟨hmakes.2, nofun⟩

theorem Makes.continues {k : Nat} (h : Makes k input step made s) {o : Option α}
    (hrun : (step.run.run input).run s = .ok o t) : Continues 0 s t := by
  unfold Makes Attempt.Meets Parse.Meets at h
  rw [hrun] at h
  cases o with
  | none => exact h.mono (Nat.zero_le k)
  | some a => exact h.2

theorem OnlyAppends.makes (h : OnlyAppends input step) : Makes 0 input step (fun _ => True) s := by
  unfold Makes Attempt.Meets Parse.Meets
  cases hrun : (step.run.run input).run s with
  | error fault t => trivial
  | ok o t =>
      cases o with
      | none => exact h s none t hrun
      | some a => exact ⟨trivial, h s (some a) t hrun⟩

end Attempt

/-! ## Rounds of sequences -/

/-- A sequence ends where nothing more stands or its terminator, or it reads a statement and goes
on. -/
theorem run_sequenceFrom_succ {terminator : Option String} {n : Nat} {body : List Node}
    (h : ((sequenceFrom rules terminator (n + 1)).run input).run s = .ok body u) :
    input.Closes terminator.toList s ∧ body = [] ∧ u = s ∨
      s.cursor < input.size ∧ ∃ token, input.seen? s.cursor = some token ∧
        (∀ stop ∈ terminator, token.isSymbol stop = false) ∧
        ∃ first t rest,
          ((statement rules terminator.toList).run input).run s = .ok first t ∧
          ((sequenceFrom rules terminator n).run input).run t = .ok rest u ∧
          body = first ++ rest := by
  simp only [sequenceFrom, run_bind_ok, run_atEnd_ok, run_ite_ok, run_current_ok,
    run_pure_ok] at h
  obtain ⟨_, _, ⟨rfl, rfl⟩, ⟨hend, rfl, rfl⟩ | ⟨hgo, token, _, ⟨hseen, rfl⟩, h⟩⟩ := h
  · exact .inl ⟨.inl (of_decide_eq_true hend), rfl, rfl⟩
  rcases h with ⟨hstop, rfl, rfl⟩ | ⟨hstay, first, t, hfirst, rest, _, hrest, rfl, rfl⟩
  · obtain ⟨stop, hmem, hsymbol⟩ := List.any_eq_true.mp hstop
    exact .inl ⟨.inr ⟨stop, hmem, token, hseen, hsymbol⟩, rfl, rfl⟩
  · refine .inr ⟨by simpa using hgo, token, hseen, fun stop hmem => ?_, first, t, rest, hfirst,
      hrest, rfl⟩
    rw [Bool.eq_false_iff]
    exact fun hsymbol =>
      hstay (List.any_eq_true.mpr ⟨stop, Option.mem_toList.mpr hmem, hsymbol⟩)

/-- The depth that a method body counts behind the token at which a statement begins. -/
def Token.depthBehind (token : Token) (depth : Nat) : Nat :=
  if token.isSymbol openBrace then depth + 1
  else if token.isSymbol closeBrace then depth - 1
  else depth

theorem Token.depthBehind_open {token : Token} {depth : Nat}
    (h : token.isSymbol openBrace = true) : token.depthBehind depth = depth + 1 := by
  simp [depthBehind, h]

theorem Token.depthBehind_close {token : Token} {depth : Nat}
    (h : token.isSymbol closeBrace = true) : token.depthBehind depth = depth - 1 := by
  have hopen : token.isSymbol openBrace = false := isSymbol_eq_false h _ (by decide)
  simp [depthBehind, h, hopen]

theorem Token.depthBehind_other {token : Token} {depth : Nat}
    (hopen : token.isSymbol openBrace = false) (hclose : token.isSymbol closeBrace = false) :
    token.depthBehind depth = depth := by
  simp [depthBehind, hopen, hclose]

theorem Token.one_le_depthBehind {token : Token} {depth : Nat} (hdepth : 1 ≤ depth)
    (hstay : ¬ (token.isSymbol closeBrace = true ∧ depth = 1)) : 1 ≤ token.depthBehind depth := by
  unfold depthBehind
  split
  · omega
  split
  · next hclose =>
    have hdeep : depth ≠ 1 := fun h => hstay ⟨hclose, h⟩
    omega
  · exact hdepth

/-- A method body ends where nothing more stands or at the brace that brings its count back, or it
reads a statement and goes on. -/
theorem run_methodStatements_succ {n depth : Nat} {body : List Node} :
    ((methodStatements rules (n + 1) depth).run input).run s = .ok body u ↔
      (input.size ≤ s.cursor ∨ depth = 1 ∧ input.Sees s closeBrace) ∧ body = [] ∧ u = s ∨
        s.cursor < input.size ∧ ∃ token, input.seen? s.cursor = some token ∧
          ¬ (token.isSymbol closeBrace = true ∧ depth = 1) ∧
          ∃ first t rest,
            ((statement rules [openBrace, closeBrace]).run input).run s = .ok first t ∧
            ((methodStatements rules n (token.depthBehind depth)).run input).run t = .ok rest u ∧
            body = first ++ rest := by
  simp only [methodStatements, run_bind_ok, run_atEnd_ok, run_ite_ok, run_current_ok, run_pure_ok]
  constructor
  · rintro ⟨_, _, ⟨rfl, rfl⟩, ⟨hend, rfl, rfl⟩ | ⟨hgo, token, _, ⟨hseen, rfl⟩, h⟩⟩
    · exact .inl ⟨.inl (of_decide_eq_true hend), rfl, rfl⟩
    rcases h with ⟨hclose, rfl, rfl⟩ | ⟨hstay, first, t, hfirst, rest, _, hrest, rfl, rfl⟩
    · obtain ⟨hsymbol, hdepth⟩ : token.isSymbol closeBrace = true ∧ depth = 1 := by
        simpa using hclose
      exact .inl ⟨.inr ⟨hdepth, token, hseen, hsymbol⟩, rfl, rfl⟩
    · refine .inr ⟨by simpa using hgo, token, hseen, by simpa using hstay, ?_⟩
      exact ⟨first, t, rest, hfirst, hrest, rfl⟩
  · rintro (⟨hstop, rfl, rfl⟩ | ⟨hgo, token, hseen, hstay, first, t, rest, hfirst, hrest, rfl⟩)
    · refine ⟨_, u, ⟨rfl, rfl⟩, ?_⟩
      by_cases hend : input.size ≤ u.cursor
      · exact .inl ⟨decide_eq_true hend, rfl, rfl⟩
      · obtain ⟨hdepth, token, hseen, hsymbol⟩ := hstop.resolve_left hend
        refine .inr ⟨by simpa using hend, token, u, ⟨hseen, rfl⟩, .inl ⟨?_, rfl, rfl⟩⟩
        simp [hsymbol, hdepth]
    · refine ⟨_, s, ⟨rfl, rfl⟩, .inr ⟨by simpa using hgo, token, s, ⟨hseen, rfl⟩, .inr ?_⟩⟩
      exact ⟨by simpa using hstay, first, t, hfirst, rest, u, hrest, rfl, rfl⟩

/-! ## Sequences -/

/-- Constructs one behind the other, none of them reported about: each is made where the one before
it and what was done behind that one left off. Behind the last one the sequence has to stop. -/
inductive Unbroken (input : Input) (construct : Attempt α) (behind : Mark → Parse Unit)
    (stop : ParseState → Prop) : ParseState → List α → ParseState → Prop where
  | nil {s : ParseState} : stop s → Unbroken input construct behind stop s [] s
  | cons {s t u v : ParseState} {made : α} {more : List α} :
      (construct.run.run input).run s = .ok (some made) t →
      ((behind ⟨s.cursor, s.diagnostics.size⟩).run input).run t = .ok () u →
      u.diagnostics = s.diagnostics →
      Unbroken input construct behind stop u more v →
      Unbroken input construct behind stop s (made :: more) v

/-- What a sequence does behind a statement. -/
def statementEnd (stops : List String) (start : Mark) : Parse Unit := do
  skip ";"
  recover start stops

/-- What a body does behind a member. -/
def memberEnd (start : Mark) : Parse Unit := recover start [closeBrace]

/-- A round of a sequence at whose end nothing has been reported has made its construct. -/
theorem Unbroken.round {construct : Attempt α} {behind : Mark → Parse Unit}
    {stop : ParseState → Prop} {made : Option α} {more : List α} {v : ParseState}
    (hconstruct : Outspoken input construct)
    (hmade : (construct.run.run input).run s = .ok made t)
    (hbehind : ((behind ⟨s.cursor, s.diagnostics.size⟩).run input).run t = .ok () u)
    (htu : Continues 0 t u) (huv : Continues 0 u v) (hquiet : v.diagnostics = s.diagnostics)
    (hmore : v.diagnostics = u.diagnostics → Unbroken input construct behind stop u more v) :
    Unbroken input construct behind stop s (made.toList ++ more) v := by
  obtain ⟨hst, hnone⟩ := hconstruct s made t hmade
  cases made with
  -- a construct that was declined has been reported, and the report is kept
  | none =>
      have hreported : Continues 1 s v := (((hnone rfl).trans htu).trans huv).mono (by omega)
      exact absurd hquiet hreported.not_quiet
  | some made =>
      have hsu : u.diagnostics = s.diagnostics := (hst.after htu).quiet_before huv hquiet
      exact .cons hmade hbehind hsu (hmore (hquiet.trans hsu.symm))

/-- The rule for a statement makes one where it can and does what belongs behind it. -/
theorem run_statement_ok {stops : List String} {nodes : List Node}
    (h : ((statement rules stops).run input).run s = .ok nodes t) :
    ∃ made u, ((rules.expression 0).run.run input).run s = .ok made u ∧
      ((statementEnd stops ⟨s.cursor, s.diagnostics.size⟩).run input).run u = .ok () t ∧
      nodes = made.toList := by
  simp only [statement, run_bind_ok, run_mark_ok, run_pure_ok] at h
  obtain ⟨_, _, ⟨rfl, rfl⟩, made, u, hmade, _, v, hskip, _, _, hrecover, rfl, rfl⟩ := h
  exact ⟨made, u, hmade, run_bind_ok.mpr ⟨(), v, hskip, hrecover⟩, rfl⟩

theorem statementEnd_continues {stops : List String} {start : Mark}
    (h : ((statementEnd stops start).run input).run s = .ok () t) : Continues 0 s t := by
  have hmakes : Parse.Makes input (statementEnd stops start) (fun _ => True) s :=
    Parse.Makes.skip.bind fun _ _ _ => Parse.Makes.recover
  exact (hmakes.of_run h).2

section Sequences

variable {foreign : Datum → Prop} (hr : rules.Promise foreign input)

include hr

/-- Statements up to a terminator end in front of one, and all of them are there if nothing was
reported. -/
theorem sequenceFrom_unbroken {terminator : Option String} : ∀ n {s t : ParseState} {body},
    ((sequenceFrom rules terminator n).run input).run s = .ok body t →
      input.Closes terminator.toList t ∧ (t.diagnostics = s.diagnostics →
        Unbroken input (rules.expression 0) (statementEnd terminator.toList)
          (input.Closes terminator.toList) s body t)
  | 0, _, _, _, h => by cases h
  | n + 1, s, v, body, h => by
      rcases run_sequenceFrom_succ h with ⟨hclosed, rfl, rfl⟩ |
        ⟨-, _, -, -, first, u, rest, hfirst, hrest, rfl⟩
      · exact ⟨hclosed, fun _ => .nil hclosed⟩
      obtain ⟨hclosed, hmore⟩ := sequenceFrom_unbroken n hrest
      obtain ⟨made, w, hmade, hbehind, rfl⟩ := run_statement_ok hfirst
      have huv := ((sequenceFrom_keeps hr.keep n).of_run hrest).2
      exact ⟨hclosed, fun hquiet => .round (Makes.outspoken (hr.expression 0)) hmade hbehind
        (statementEnd_continues hbehind) huv hquiet hmore⟩

/-- The statements of a method body end at the end of the input or in front of a closing brace. -/
theorem methodStatements_unbroken : ∀ n {depth : Nat} {s t : ParseState} {body},
    ((methodStatements rules n depth).run input).run s = .ok body t →
      input.Closes [closeBrace] t ∧ (t.diagnostics = s.diagnostics →
        Unbroken input (rules.expression 0) (statementEnd [openBrace, closeBrace])
          (input.Closes [closeBrace]) s body t)
  | 0, _, _, _, _, h => by cases h
  | n + 1, depth, s, v, body, h => by
      rcases run_methodStatements_succ.mp h with ⟨hstop, rfl, rfl⟩ |
        ⟨-, _, -, -, first, u, rest, hfirst, hrest, rfl⟩
      · have hclosed : input.Closes [closeBrace] v :=
          Input.closes_singleton.mpr (hstop.imp_right And.right)
        exact ⟨hclosed, fun _ => .nil hclosed⟩
      obtain ⟨hclosed, hmore⟩ := methodStatements_unbroken n hrest
      obtain ⟨made, w, hmade, hbehind, rfl⟩ := run_statement_ok hfirst
      have huv := ((methodStatements_keeps hr.keep n).of_run hrest).2
      exact ⟨hclosed, fun hquiet => .round (Makes.outspoken (hr.expression 0)) hmade hbehind
        (statementEnd_continues hbehind) huv hquiet hmore⟩

/-- The members of a class or of a namespace end at the end of the input or in front of a closing
brace. -/
theorem membersFrom_unbroken {inNamespace : Bool} : ∀ n {s t : ParseState} {body},
    ((membersFrom rules inNamespace n).run input).run s = .ok body t →
      input.Closes [closeBrace] t ∧ (t.diagnostics = s.diagnostics →
        Unbroken input (bodyMember rules inNamespace) memberEnd (input.Closes [closeBrace])
          s body t)
  | 0, _, _, _, h => by cases h
  | n + 1, s, v, body, h => by
      simp only [membersFrom, run_bind_ok, run_atEnd_ok, run_ite_ok, run_current_ok, run_mark_ok,
        run_pure_ok] at h
      obtain ⟨_, _, ⟨rfl, rfl⟩, ⟨hend, rfl, rfl⟩ | ⟨-, token, _, ⟨hseen, rfl⟩, h⟩⟩ := h
      · have hclosed : input.Closes [closeBrace] s := .inl (of_decide_eq_true hend)
        exact ⟨hclosed, fun _ => .nil hclosed⟩
      rcases h with ⟨hstop, rfl, rfl⟩ |
        ⟨-, _, _, ⟨rfl, rfl⟩, made, t, hmade, _, u, hbehind, rest, _, hrest, rfl, rfl⟩
      · have hclosed : input.Closes [closeBrace] s :=
          .inr ⟨closeBrace, List.mem_singleton_self _, token, hseen, hstop⟩
        exact ⟨hclosed, fun _ => .nil hclosed⟩
      obtain ⟨hclosed, hmore⟩ := membersFrom_unbroken n hrest
      have hconstruct : Outspoken input (bodyMember rules inNamespace) :=
        Makes.outspoken fun _ => bodyMember_keeps hr.keep
      have htu := (Parse.Makes.recover.of_run hbehind).2
      have huv := ((membersFrom_keeps hr.keep n).of_run hrest).2
      exact ⟨hclosed, fun hquiet => .round hconstruct hmade hbehind htu huv hquiet hmore⟩

end Sequences

/-! ## Parts between commas -/

/-- Parts between commas, none of them reported about: behind a comma the next one is made, and
behind the last one there is no comma. Where no part begins the list has to stop. -/
inductive Listed (input : Input) (part : Attempt α) (stop : ParseState → Prop) :
    ParseState → List α → ParseState → Prop where
  | done {s : ParseState} : stop s → Listed input part stop s [] s
  | last {s t : ParseState} {made : α} :
      (part.run.run input).run s = .ok (some made) t → t.diagnostics = s.diagnostics →
      ¬ input.Sees t "," → Listed input part stop s [made] t
  | more {s t u : ParseState} {made : α} {rest : List α} :
      (part.run.run input).run s = .ok (some made) t → t.diagnostics = s.diagnostics →
      input.Sees t "," → Listed input part stop t.past rest u →
      Listed input part stop s (made :: rest) u

/-! ## Names and access chains -/

/-- The names behind the first one of a qualified name, up to where no dot stands: each is an
identifier behind a dot. -/
inductive Dotted (input : Input) : ParseState → List Token → ParseState → Prop where
  | done {s : ParseState} : ¬ input.Sees s "." → Dotted input s [] s
  | more {s t : ParseState} {name : Token} {rest : List Token} :
      input.Sees s "." → input.seen? s.past.cursor = some name → name.kind = Kind.identifier →
      Dotted input s.past.past rest t → Dotted input s (name :: rest) t

/-- The steps of an access chain, none of them reported about, up to a token that begins no further
one: a name behind a dot, an index between its brackets, arguments between their parentheses. -/
inductive Accessed (input : Input) (rules : Rules) :
    ParseState → List Access → ParseState → Prop where
  | done {s : ParseState} : ¬ input.Sees s "." → ¬ input.Sees s "[" → ¬ input.Sees s "(" →
      Accessed input rules s [] s
  | member {s u : ParseState} {name : Token} {rest : List Access} :
      input.Sees s "." → input.seen? s.past.cursor = some name → name.kind = Kind.identifier →
      Accessed input rules s.past.past rest u →
      Accessed input rules s (.member name :: rest) u
  | index {s t u : ParseState} {index : Node} {rest : List Access} :
      input.Sees s "[" → ((rules.expression 0).run.run input).run s.past = .ok (some index) t →
      t.diagnostics = s.diagnostics → input.Sees t "]" →
      Accessed input rules t.past rest u → Accessed input rules s (.index index :: rest) u
  | call {s t u : ParseState} {values : List Node} {rest : List Access} :
      input.Sees s "(" →
      Listed input (rules.expression 0) (input.Closes [")"]) s.past values t →
      t.diagnostics = s.diagnostics → input.Sees t ")" →
      Accessed input rules t.past rest u → Accessed input rules s (.call values :: rest) u

/-! ## Operators -/

/-- The operators behind a left operand that bind tightly enough, each with its right operand, none
of them reported about, up to a token that is no such operator. -/
inductive Operated (input : Input) (rules : Rules) (minimum : Nat) :
    ParseState → Node → Node → ParseState → Prop where
  | done {s : ParseState} {left : Node} :
      (∀ token, input.seen? s.cursor = some token → token.kind = Kind.symbol →
        ∀ precedence, binaryPrecedence? token.text = some precedence → precedence < minimum) →
      Operated input rules minimum s left left s
  | step {s t u : ParseState} {token : Token} {precedence : Nat} {left right made : Node} :
      input.seen? s.cursor = some token → token.kind = Kind.symbol →
      binaryPrecedence? token.text = some precedence → minimum ≤ precedence →
      ((rules.expression (precedence + 1)).run.run input).run s.past = .ok (some right) t →
      t.diagnostics = s.diagnostics →
      Operated input rules minimum t (.binary token.text left right) made u →
      Operated input rules minimum s left made u

/-! ## Branches -/

/-- A condition and the block behind it, neither of them reported about. -/
structure Guarded (input : Input) (rules : Rules) (keyword : String) (s : ParseState)
    (value : Node) (consequent : List Node) (u : ParseState) : Prop where
  made : ∃ t, ((condition rules keyword).run.run input).run s = .ok (some value) t ∧
    ((bracedBlock rules).run.run input).run t = .ok (some consequent) u ∧
    t.diagnostics = s.diagnostics
  quiet : u.diagnostics = s.diagnostics

/-- The branches behind the word `if` or `else if`, none of them reported about: behind an `else`
stands a further branch, and behind the last one no `else`. -/
inductive Branched (input : Input) (rules : Rules) :
    String → ParseState → Node × List Node × Alternate → ParseState → Prop where
  | last {keyword : String} {s u : ParseState} {value : Node} {consequent : List Node} :
      Guarded input rules keyword s value consequent u → ¬ input.SeesWord u "else" →
      Branched input rules keyword s (value, consequent, .none) u
  | otherwise {keyword : String} {s u v : ParseState} {value : Node}
      {consequent body : List Node} :
      Guarded input rules keyword s value consequent u → input.SeesWord u "else" →
      ¬ input.SeesWord u.past "if" →
      ((bracedBlock rules).run.run input).run u.past = .ok (some body) v →
      v.diagnostics = u.diagnostics →
      Branched input rules keyword s (value, consequent, .otherwise body) v
  | elseIf {keyword : String} {s u v : ParseState} {value value' : Node}
      {consequent consequent' : List Node} {alternate : Alternate} :
      Guarded input rules keyword s value consequent u → input.SeesWord u "else" →
      input.SeesWord u.past "if" →
      Branched input rules "else if" u.past.past (value', consequent', alternate) v →
      Branched input rules keyword s (value, consequent, .elseIf value' consequent' alternate) v

/-! ## Bodies in braces -/

/-- What a body has read behind the token under the cursor, up to its closing brace. -/
def Enclosed (input : Input) (body : Parse (List α)) (s : ParseState) (made : List α)
    (t : ParseState) : Prop :=
  ∃ u, (body.run input).run s.past = .ok made u ∧ input.Sees u closeBrace ∧ t = u.past

/-- A method behind its name, none of its parts reported about: its parameters, and a semicolon or
the statements between its braces. -/
inductive MethodRead (input : Input) (rules : Rules) : ParseState → Member → ParseState → Prop where
  | signature {s u : ParseState} {mods : List String} {type : TypeExpr} {name : String}
      {offset : Nat} {parameters : List Node} :
      ((arguments rules).run input).run s = .ok parameters u → input.Sees u ";" →
      MethodRead input rules s (.signature mods type name parameters offset) u.past
  | method {s t u : ParseState} {mods : List String} {type : TypeExpr} {name : String}
      {offset : Nat} {parameters body : List Node} :
      ((arguments rules).run input).run s = .ok parameters u → input.Sees u openBrace →
      Enclosed input (methodStatements rules rules.budget 1) u body t →
      MethodRead input rules s (.method mods type name parameters body offset) t

/-- A class, none of its parts reported about: its name, its generic parameters and base types, and
its members between their braces. -/
structure ClassRead (input : Input) (rules : Rules) (s : ParseState) (made : ClassDecl)
    (t : ParseState) : Prop where
  word : input.SeesWord s "class"
  name : ∃ name, input.seen? s.past.cursor = some name ∧ name.kind = Kind.identifier ∧
    made.name = name.text
  parts : ∃ u v, ((genericNames rules).run.run input).run s.past.past =
      .ok (some made.generics) u ∧
    ((bases rules).run input).run u = .ok made.bases v ∧ input.Sees v openBrace ∧
    Enclosed input (membersFrom rules false rules.budget) v made.members t

/-- A namespace, none of its parts reported about: its name, and a semicolon or its members between
their braces. -/
inductive NamespaceRead (input : Input) (rules : Rules) :
    ParseState → Node → ParseState → Prop where
  | rest {s u : ParseState} {name : QualifiedName} {offset : Nat} :
      input.SeesWord s "namespace" →
      ((qualifiedName rules).run.run input).run s.past = .ok (some name) u → input.Sees u ";" →
      NamespaceRead input rules s (.namespaceDeclaration name [] offset) u.past
  | braced {s t u : ParseState} {name : QualifiedName} {members : List Member} {offset : Nat} :
      input.SeesWord s "namespace" →
      ((qualifiedName rules).run.run input).run s.past = .ok (some name) u →
      input.Sees u openBrace →
      Enclosed input (membersFrom rules true rules.budget) u members t →
      NamespaceRead input rules s (.namespaceDeclaration name members offset) t

/-! ## What has been read -/

/-- The tail of a name that was read without a report ends in front of a token that is no dot. -/
theorem nameTail_dotted : ∀ n {s t : ParseState} {names},
    ((nameTail n).run input).run s = .ok names t → t.diagnostics = s.diagnostics →
      Dotted input s names t
  | 0, _, _, _, h, _ => by cases h
  | n + 1, s, v, names, h, hquiet => by
      simp only [nameTail, run_bind_ok, run_current_ok, run_ite_ok, run_advance_ok, run_consume_ok,
        run_pure_ok] at h
      obtain ⟨token, _, ⟨hseen, rfl⟩, ⟨hdot, rfl, rfl⟩ | ⟨hdot, _, _, rfl, found, o, hfound,
        ⟨hmissing, rfl, rfl⟩ | ⟨hok, name, _, ⟨hname, rfl⟩, rest, _, hrest, rfl, rfl⟩⟩⟩ := h
      · exact .done (Input.not_sees hseen (by simpa using hdot))
      · rcases run_require_ok hfound with ⟨hok, -⟩ | ⟨-, hreported⟩
        · simp [hok] at hmissing
        · exact absurd hquiet hreported.not_quiet
      · rcases run_require_ok hfound with ⟨-, rfl, other, hother, hkind⟩ | ⟨hbad, -⟩
        · rw [hname, Option.some_inj] at hother
          refine .more ⟨token, hseen, by simpa using hdot⟩ hname ?_ (nameTail_dotted n hrest hquiet)
          simpa [hother] using hkind
        · simp [hbad] at hok

/-- Behind a part that was made stands a comma and the rest of the list, or the list ends. -/
theorem Listed.behind {part : Attempt α} {stop : ParseState → Prop} {made : α}
    {more : Parse (List α)} {values : List α} {v : ParseState}
    (hmade : (part.run.run input).run s = .ok (some made) t) (hst : Continues 0 s t)
    (h : ((do
      if !(← current).isSymbol "," then return [made]
      advance
      return made :: (← more) : Parse (List α)).run input).run t = .ok values v)
    (hquiet : v.diagnostics = s.diagnostics)
    (hmore : ∀ rest, (more.run input).run t.past = .ok rest v → Continues 0 t.past v ∧
      (v.diagnostics = t.diagnostics → Listed input part stop t.past rest v)) :
    Listed input part stop s values v := by
  simp only [run_bind_ok, run_ite_ok, run_current_ok, run_advance_ok, run_pure_ok] at h
  obtain ⟨next, _, ⟨hnext, rfl⟩, ⟨hlast, rfl, rfl⟩ | ⟨hcomma, _, _, rfl, rest, _, hrest,
    rfl, rfl⟩⟩ := h
  · exact .last hmade hquiet (Input.not_sees hnext (by simpa using hlast))
  · obtain ⟨htv, hlisted⟩ := hmore rest hrest
    have ht : t.diagnostics = s.diagnostics := hst.quiet_before htv hquiet
    exact .more hmade ht ⟨next, hnext, by simpa using hcomma⟩ (hlisted (hquiet.trans ht.symm))

/-- Where nothing is reported, a body ends at the closing brace that it calls for. -/
theorem Enclosed.of_close {body : Parse (List α)} {made : List α} {template : String} {a : Unit}
    {origin : ParseState} (hbody : (body.run input).run s.past = .ok made u)
    (hkept : Continues 0 origin u)
    (hclose : ((close closeBrace template).run input).run u = .ok a t)
    (hquiet : t.diagnostics = origin.diagnostics) : Enclosed input body s made t := by
  rcases Parse.close_meets.of_run hclose with ⟨hsees, rfl⟩ | hreported
  · exact ⟨u, hbody, hsees, rfl⟩
  · exact absurd hquiet (hkept.after hreported).not_quiet

/-- A block in braces that is made has its statements between its braces, unless it reports that the
closing one is missing. -/
theorem run_bracedBlock_ok {body : List Node}
    (h : ((bracedBlock rules).run.run input).run s = .ok (some body) t) :
    input.Sees s openBrace ∧ ∃ u,
      ((block rules (some closeBrace)).run input).run s.past = .ok body u ∧
        (input.Sees u closeBrace ∧ t = u.past ∨ Continues 1 u t) := by
  simp only [bracedBlock, run_bind_some, run_liftM_some, run_pure_some] at h
  obtain ⟨_, _, hopen, body, u, hbody, _, v, hclose, rfl, rfl⟩ := h
  obtain ⟨hsees, rfl⟩ := run_needSymbol_ok hopen
  exact ⟨hsees, u, hbody, Parse.close_meets.of_run hclose⟩

section Parts

variable {foreign : Datum → Prop} (hr : rules.Promise foreign input)

include hr

/-- Arguments that were read without a report end at the end of the input or in front of a closing
parenthesis. -/
theorem argumentsFrom_listed : ∀ n {s t : ParseState} {values},
    ((argumentsFrom rules n).run input).run s = .ok values t → t.diagnostics = s.diagnostics →
      Listed input (rules.expression 0) (input.Closes [")"]) s values t
  | 0, _, _, _, h, _ => by cases h
  | n + 1, s, v, values, h, hquiet => by
      simp only [argumentsFrom, run_bind_ok, run_atEnd_ok, run_ite_ok, run_current_ok,
        run_pure_ok] at h
      obtain ⟨_, _, ⟨rfl, rfl⟩, ⟨hend, rfl, rfl⟩ | ⟨-, token, _, ⟨hseen, rfl⟩, h⟩⟩ := h
      · exact .done (.inl (of_decide_eq_true hend))
      rcases h with ⟨hstop, rfl, rfl⟩ | ⟨-, made, t, hmade, h⟩
      · exact .done (.inr ⟨")", List.mem_singleton_self _, token, hseen, hstop⟩)
      obtain ⟨hst, hnone⟩ := Makes.outspoken (hr.expression 0) s made t hmade
      cases made with
      | none =>
          obtain ⟨-, rfl⟩ := run_pure_ok.mp h
          exact absurd hquiet (hnone rfl).not_quiet
      | some argument =>
          refine .behind hmade hst h hquiet fun rest hrest => ?_
          exact ⟨((argumentsFrom_keeps hr.keep n).of_run hrest).2, argumentsFrom_listed n hrest⟩

/-- Types that were read without a report end at the end of the input, where no comma stands behind
the last one. -/
theorem typeListFrom_listed : ∀ n {s t : ParseState} {types},
    ((typeListFrom rules n).run input).run s = .ok types t → t.diagnostics = s.diagnostics →
      Listed input rules.typeExpression (input.Closes []) s types t
  | 0, _, _, _, h, _ => by cases h
  | n + 1, s, v, types, h, hquiet => by
      simp only [typeListFrom, run_bind_ok, run_atEnd_ok, run_ite_ok, run_pure_ok] at h
      obtain ⟨_, _, ⟨rfl, rfl⟩, ⟨hend, rfl, rfl⟩ | ⟨-, made, t, hmade, h⟩⟩ := h
      · exact .done (.inl (of_decide_eq_true hend))
      have hst := (hr.typeExpression s).continues hmade
      cases made with
      | none =>
          obtain ⟨_, u, hreport, hdone⟩ := run_bind_ok.mp h
          obtain ⟨-, rfl⟩ := run_pure_ok.mp hdone
          have hreported : Continues 1 t u := reportFound_reports.of_run hreport
          exact absurd hquiet (hst.after hreported).not_quiet
      | some type =>
          refine .behind hmade hst h hquiet fun rest hrest => ?_
          exact ⟨((typeListFrom_keeps hr.keep n).of_run hrest).2, typeListFrom_listed n hrest⟩

/-- Base types that were read without a report end behind the last one that a comma calls for. -/
theorem basesFrom_listed : ∀ n {s t : ParseState} {types},
    ((basesFrom rules n).run input).run s = .ok types t → t.diagnostics = s.diagnostics →
      Listed input (typeExpression rules) (fun _ => False) s types t
  | 0, _, _, _, h, _ => by cases h
  | n + 1, s, v, types, h, hquiet => by
      obtain ⟨made, t, hmade, h⟩ := run_bind_ok.mp h
      have hst := (typeExpression_keeps hr.keep).continues hmade
      cases made with
      | none =>
          obtain ⟨_, u, hreport, hdone⟩ := run_bind_ok.mp h
          obtain ⟨-, rfl⟩ := run_pure_ok.mp hdone
          have hreported : Continues 1 t u := reportFound_reports.of_run hreport
          exact absurd hquiet (hst.after hreported).not_quiet
      | some type =>
          refine .behind hmade hst h hquiet fun rest hrest => ?_
          exact ⟨((basesFrom_keeps hr.keep n).of_run hrest).2, basesFrom_listed n hrest⟩

/-- Arguments in parentheses that were read without a report stand between them. -/
theorem run_arguments_ok {values : List Node}
    (h : ((arguments rules).run input).run s = .ok values t)
    (hquiet : t.diagnostics = s.diagnostics) :
    ∃ u, Listed input (rules.expression 0) (input.Closes [")"]) s.past values u ∧
      u.diagnostics = s.diagnostics ∧ input.Sees u ")" ∧ t = u.past := by
  simp only [arguments, run_bind_ok, run_ite_ok, run_advance_ok, run_pure_ok] at h
  obtain ⟨opening, o, hopening, ⟨hmissing, rfl, rfl⟩ | ⟨hfound, _, _, rfl, values, u, hvalues, _, v,
    hclose, rfl, rfl⟩⟩ := h
  · rcases run_require_ok hopening with ⟨hok, -⟩ | ⟨-, hreported⟩
    · simp [hok] at hmissing
    · exact absurd hquiet hreported.not_quiet
  rcases run_require_ok hopening with ⟨-, rfl, -⟩ | ⟨hok, -⟩
  · have hsu : Continues 0 o.past u := ((argumentsFrom_keeps hr.keep _).of_run hvalues).2
    rcases Parse.close_meets.of_run hclose with ⟨hsees, rfl⟩ | hreported
    · exact ⟨u, argumentsFrom_listed hr _ hvalues hquiet, hquiet, hsees, rfl⟩
    · exact absurd hquiet (hsu.after hreported).not_quiet
  · simp [hok] at hfound

/-- A chain that was read without a report ends in front of a token that begins no further step. -/
theorem accesses_accessed : ∀ n {s t : ParseState} {body},
    ((accesses rules n).run input).run s = .ok body t → t.diagnostics = s.diagnostics →
      Accessed input rules s body t
  | 0, _, _, _, h, _ => by cases h
  | n + 1, s, v, body, h, hquiet => by
      have hmore : ∀ {w rest}, ((accesses rules n).run input).run w = .ok rest v →
        Continues 0 w v := fun hrest => ((accesses_keeps hr.keep n).of_run hrest).2
      simp only [accesses, run_bind_ok, run_current_ok, run_ite_ok, run_advance_ok, run_consume_ok,
        run_pure_ok] at h
      obtain ⟨token, _, ⟨hseen, rfl⟩, ⟨hdot, h⟩ | ⟨hdot, ⟨hbracket, h⟩ | ⟨hbracket,
        ⟨hparen, h⟩ | ⟨hparen, rfl, rfl⟩⟩⟩⟩ := h
      · obtain ⟨_, _, rfl, found, o, hfound, ⟨hmissing, rfl, rfl⟩ | ⟨hok, name, _, ⟨hname, rfl⟩,
          rest, _, hrest, rfl, rfl⟩⟩ := h
        · rcases run_require_ok hfound with ⟨hok, -⟩ | ⟨-, hreported⟩
          · simp [hok] at hmissing
          · exact absurd hquiet hreported.not_quiet
        · rcases run_require_ok hfound with ⟨-, rfl, other, hother, hkind⟩ | ⟨hbad, -⟩
          · rw [hname, Option.some_inj] at hother
            refine .member ⟨token, hseen, hdot⟩ hname ?_ (accesses_accessed n hrest hquiet)
            simpa [hother] using hkind
          · simp [hbad] at hok
      · obtain ⟨_, _, rfl, made, t, hmade, h⟩ := h
        obtain ⟨hst, hnone⟩ := Makes.outspoken (hr.expression 0) s.past made t hmade
        cases made with
        | none =>
            obtain ⟨-, rfl⟩ := run_pure_ok.mp h
            exact absurd hquiet (hnone rfl).not_quiet
        | some index =>
            simp only [run_bind_ok, run_ite_ok, run_advance_ok, run_pure_ok] at h
            obtain ⟨closing, o, hclosing, ⟨hmissing, -, rfl⟩ | ⟨hok, _, _, rfl, rest, _, hrest,
              rfl, rfl⟩⟩ := h
            · rcases run_require_ok hclosing with ⟨hok, -⟩ | ⟨-, hreported⟩
              · simp [hok] at hmissing
              · exact absurd hquiet (hst.after hreported).not_quiet
            · rcases run_require_ok hclosing with ⟨-, rfl, hsees⟩ | ⟨hbad, -⟩
              · have hbehind := hmore hrest
                have ht : o.diagnostics = s.diagnostics := hst.quiet_before hbehind hquiet
                exact .index ⟨token, hseen, hbracket⟩ hmade ht hsees
                  (accesses_accessed n hrest (hquiet.trans ht.symm))
              · simp [hbad] at hok
      · obtain ⟨values, t, hvalues, rest, _, hrest, rfl, rfl⟩ := h
        have hst : Continues 0 s t := ((arguments_keeps hr.keep).of_run hvalues).2
        have ht : t.diagnostics = s.diagnostics := hst.quiet_before (hmore hrest) hquiet
        obtain ⟨u, hlisted, hu, hsees, rfl⟩ := run_arguments_ok hr hvalues ht
        exact .call ⟨token, hseen, hparen⟩ hlisted hu hsees
          (accesses_accessed n hrest (hquiet.trans ht.symm))
      · exact .done (Input.not_sees hseen hdot) (Input.not_sees hseen hbracket)
          (Input.not_sees hseen hparen)

theorem operators_continues {minimum : Nat} : ∀ n {left : Node} {s : ParseState},
    Parse.Makes input (operators rules minimum n left) (fun _ => True) s
  | 0, _, _ => .endless
  | n + 1, left, s => by
      refine .current fun token _ => .ite (fun _ => .pure trivial) fun _ => ?_
      cases binaryPrecedence? token.text with
      | none => exact .pure trivial
      | some precedence =>
          refine .ite (fun _ => .pure trivial) fun _ => ?_
          refine Parse.Makes.advance.bind fun _ _ _ => ?_
          exact (hr.expression _ _).run (fun _ => .pure trivial) fun right _ _ =>
            operators_continues n

/-- Operators that were read without a report end in front of a token that is none, or that does
not bind tightly enough. -/
theorem operators_operated {minimum : Nat} : ∀ n {left : Node} {s t : ParseState} {made : Node},
    ((operators rules minimum n left).run input).run s = .ok made t →
      t.diagnostics = s.diagnostics → Operated input rules minimum s left made t
  | 0, _, _, _, _, h, _ => by cases h
  | n + 1, left, s, v, made, h, hquiet => by
      simp only [operators, run_bind_ok, run_current_ok, run_ite_ok, run_pure_ok] at h
      obtain ⟨token, _, ⟨hseen, rfl⟩, ⟨hkind, rfl, rfl⟩ | ⟨hkind, h⟩⟩ := h
      · refine .done fun other hother hsymbol => ?_
        rw [hseen, Option.some_inj] at hother
        exact absurd (hother ▸ hsymbol) hkind
      cases hprecedence : binaryPrecedence? token.text with
      | none =>
          rw [hprecedence] at h
          obtain ⟨rfl, rfl⟩ := run_pure_ok.mp h
          refine .done fun other hother _ precedence hbinds => ?_
          rw [hseen, Option.some_inj] at hother
          rw [← hother, hprecedence] at hbinds
          cases hbinds
      | some precedence =>
          rw [hprecedence] at h
          simp only [run_bind_ok, run_ite_ok, run_advance_ok, run_pure_ok] at h
          obtain ⟨hloose, rfl, rfl⟩ | ⟨htight, _, _, rfl, right, t, hright, h⟩ := h
          · refine .done fun other hother _ precedence' hbinds => ?_
            rw [hseen, Option.some_inj] at hother
            rw [← hother, hprecedence, Option.some_inj] at hbinds
            rwa [← hbinds]
          obtain ⟨hst, hnone⟩ := Makes.outspoken (hr.expression _) s.past right t hright
          cases right with
          | none =>
              obtain ⟨-, rfl⟩ := run_pure_ok.mp h
              exact absurd hquiet (hnone rfl).not_quiet
          | some right =>
              have hbehind := (operators_continues hr n).of_run h
              have ht : t.diagnostics = s.diagnostics := hst.quiet_before hbehind.2 hquiet
              exact .step hseen (by simpa using hkind) hprecedence (by omega) hright ht
                (operators_operated n h (hquiet.trans ht.symm))

/-- The branches of an `if` that were read without a report end where no `else` stands. -/
theorem branches_branched : ∀ n {keyword : String} {s t : ParseState} {made},
    ((branches rules keyword n).run.run input).run s = .ok (some made) t →
      t.diagnostics = s.diagnostics → Branched input rules keyword s made t
  | 0, _, _, _, _, h, _ => by cases h
  | n + 1, keyword, s, v, made, h, hquiet => by
      simp only [branches, run_bind_some, run_liftM_some, run_ite_some, run_current_ok,
        run_advance_ok, run_orNone_some, run_pure_some] at h
      obtain ⟨value, t, hvalue, consequent, u, hconsequent, token, _, ⟨hseen, rfl⟩, h⟩ := h
      have hst : Continues 0 s t := (condition_keeps hr.keep).continues hvalue
      have htu : Continues 0 t u := (bracedBlock_keeps hr.keep).continues hconsequent
      have hguarded (huv : Continues 0 u v) :
          Guarded input rules keyword s value consequent u := by
        have hu : u.diagnostics = s.diagnostics := (hst.after htu).quiet_before huv hquiet
        exact ⟨⟨t, hvalue, hconsequent, hst.quiet_before htu hu⟩, hu⟩
      rcases h with ⟨hlast, rfl, rfl⟩ | ⟨helse, _, _, rfl, next, _, ⟨hnext, rfl⟩, h⟩
      · exact .last (hguarded (.refl _)) (Input.not_seesWord hseen (by simpa using hlast))
      have hsees : input.SeesWord u "else" := ⟨token, hseen, by simpa using helse⟩
      have hsu : Continues 0 s u := hst.after htu
      rcases h with ⟨hif, _, _, rfl, further, w, hfurther, h⟩ | ⟨hif, body, w, hbody, h⟩
      · obtain ⟨huw, hnone⟩ :=
          Makes.outspoken (fun _ => branches_keeps hr.keep n) u.past.past further w hfurther
        have hword : input.SeesWord u.past "if" := ⟨next, hnext, hif⟩
        cases further with
        | none =>
            obtain ⟨-, rfl⟩ := run_pure_some.mp h
            exact absurd hquiet (hsu.after (hnone rfl)).not_quiet
        | some parts =>
            obtain ⟨rfl, rfl⟩ := run_pure_some.mp h
            have hu := hguarded huw
            exact .elseIf hu hsees hword
              (branches_branched n hfurther (hquiet.trans hu.quiet.symm))
      · obtain ⟨huw, hnone⟩ :=
          Makes.outspoken (fun _ => bracedBlock_keeps hr.keep) u.past body w hbody
        have hword : ¬ input.SeesWord u.past "if" := Input.not_seesWord hnext hif
        cases body with
        | none =>
            obtain ⟨-, rfl⟩ := run_pure_some.mp h
            exact absurd hquiet (hsu.after (hnone rfl)).not_quiet
        | some body =>
            obtain ⟨rfl, rfl⟩ := run_pure_some.mp h
            have hu := hguarded huw
            exact .otherwise hu hsees hword hbody (hquiet.trans hu.quiet.symm)

/-- An `if` that was read without a report has all of its branches. -/
theorem ifStatement_branched {made : Node}
    (h : ((ifStatement rules).run.run input).run s = .ok (some made) t)
    (hquiet : t.diagnostics = s.diagnostics) :
    ∃ value consequent alternate, made = .ifStatement value consequent alternate ∧
      input.SeesWord s "if" ∧
      Branched input rules "if" s.past (value, consequent, alternate) t := by
  simp only [ifStatement, run_bind_some] at h
  obtain ⟨_, _, hkeyword, ⟨value, consequent, alternate⟩, u, hbranches, hmade⟩ := h
  obtain ⟨hword, rfl⟩ := run_needKeyword_ok hkeyword
  obtain ⟨rfl, rfl⟩ := run_pure_some.mp hmade
  exact ⟨value, consequent, alternate, rfl, hword, branches_branched hr _ hbranches hquiet⟩

/-- A loop that was read without a report has its condition and its block. -/
theorem whileStatement_guarded {made : Node}
    (h : ((whileStatement rules).run.run input).run s = .ok (some made) t)
    (hquiet : t.diagnostics = s.diagnostics) :
    ∃ value consequent, made = .whileStatement value consequent ∧ input.SeesWord s "while" ∧
      Guarded input rules "while" s.past value consequent t := by
  simp only [whileStatement, run_bind_some, run_pure_some] at h
  obtain ⟨_, _, hkeyword, value, u, hvalue, consequent, v, hconsequent, rfl, rfl⟩ := h
  obtain ⟨hword, rfl⟩ := run_needKeyword_ok hkeyword
  have hsu : Continues 0 s u := (condition_keeps hr.keep (s := s.past)).continues hvalue
  have huv : Continues 0 u v := (bracedBlock_keeps hr.keep).continues hconsequent
  have hu : u.diagnostics = s.diagnostics := hsu.quiet_before huv hquiet
  exact ⟨value, consequent, rfl, hword, ⟨u, hvalue, hconsequent, hu⟩, hquiet⟩

/-- A method body that was read without a report ends at its closing brace. -/
theorem methodBody_enclosed {body : List Node}
    (h : ((methodBody rules).run input).run s = .ok body t)
    (hquiet : t.diagnostics = s.diagnostics) :
    Enclosed input (methodStatements rules rules.budget 1) s body t := by
  simp only [methodBody, run_bind_ok, run_advance_ok, run_ite_ok, run_current_ok, run_pure_ok] at h
  obtain ⟨_, _, rfl, body, u, hbody, token, _, ⟨hseen, rfl⟩, ⟨hclose, _, _, rfl, rfl, rfl⟩ |
    ⟨-, _, v, hreport, rfl, rfl⟩⟩ := h
  · exact ⟨u, hbody, ⟨token, hseen, hclose⟩, rfl⟩
  · have hsu : Continues 0 s u := ((methodStatements_keeps hr.keep _).of_run hbody).2
    have hreported : Continues 1 u v := report_reports.of_run hreport
    exact absurd hquiet (hsu.after hreported).not_quiet

/-- A method that was read without a report has its parameters and, if it has one, its body. -/
theorem method_read {mods : List String} {type : TypeExpr} {name : String} {offset : Nat}
    {made : Member}
    (h : ((method rules mods type name offset).run.run input).run s = .ok (some made) t)
    (hquiet : t.diagnostics = s.diagnostics) : MethodRead input rules s made t := by
  simp only [method, run_bind_some, run_liftM_some, run_ite_some, run_current_ok, run_advance_ok,
    run_pure_some] at h
  obtain ⟨parameters, u, hparameters, token, _, ⟨hseen, rfl⟩, ⟨hopen, body, v, hbody, rfl, rfl⟩ |
    ⟨-, ⟨hend, _, _, rfl, rfl, rfl⟩ | ⟨-, _, _, -, hfailed⟩⟩⟩ := h
  · have hsu : Continues 0 s u := ((arguments_keeps hr.keep).of_run hparameters).2
    have huv : Continues 0 u v := ((methodBody_keeps hr.keep).of_run hbody).2
    have hu : u.diagnostics = s.diagnostics := hsu.quiet_before huv hquiet
    exact .method hparameters ⟨token, hseen, hopen⟩
      (methodBody_enclosed hr hbody (hquiet.trans hu.symm))
  · exact .signature hparameters ⟨token, hseen, hend⟩
  · cases hfailed

/-- A class that was read without a report has all that stands up to its closing brace. -/
theorem classDeclaration_read {mods : List String} {made : ClassDecl}
    (h : ((classDeclaration rules mods).run.run input).run s = .ok (some made) t)
    (hquiet : t.diagnostics = s.diagnostics) : ClassRead input rules s made t := by
  simp only [classDeclaration, run_bind_some, run_liftM_some, run_current_ok, run_pure_some] at h
  obtain ⟨start, _, ⟨-, rfl⟩, _, _, hkeyword, name, _, hname, generics, u, hgenerics, bases, v,
    hbases, _, _, hbrace, members, w, hmembers, _, x, hclose, rfl, rfl⟩ := h
  obtain ⟨hword, rfl⟩ := run_needKeyword_ok hkeyword
  obtain ⟨⟨hseen, hkind⟩, rfl⟩ := run_needIdentifier_ok hname
  obtain ⟨hopen, rfl⟩ := run_needSymbol_ok hbrace
  have hsu : Continues 0 s u := (genericNames_keeps (s := s.past.past)).continues hgenerics
  have huv : Continues 0 u v := ((bases_keeps hr.keep).of_run hbases).2
  have hvw : Continues 0 v w := ((membersFrom_keeps hr.keep _).of_run hmembers).2
  have hbody := Enclosed.of_close hmembers ((hsu.after huv).after hvw) hclose hquiet
  exact ⟨hword, ⟨name, hseen, hkind, rfl⟩, u, v, hgenerics, hbases, hopen, hbody⟩

theorem namespaceDeclaration_read {made : Node}
    (h : ((namespaceDeclaration rules).run.run input).run s = .ok (some made) t)
    (hquiet : t.diagnostics = s.diagnostics) : NamespaceRead input rules s made t := by
  simp only [namespaceDeclaration, run_bind_some, run_liftM_some, run_current_ok,
    run_orNone_some] at h
  obtain ⟨start, _, ⟨-, rfl⟩, _, _, hkeyword, name, u, hname, h⟩ := h
  obtain ⟨hword, rfl⟩ := run_needKeyword_ok hkeyword
  cases name with
  | none =>
      obtain ⟨_, _, -, hfailed⟩ := run_bind_some.mp h
      cases hfailed
  | some name =>
      simp only [run_bind_some, run_liftM_some, run_ite_some, run_current_ok, run_advance_ok,
        run_pure_some] at h
      obtain ⟨token, _, ⟨hseen, rfl⟩, ⟨hend, _, _, rfl, rfl, rfl⟩ | ⟨-, _, _, hbrace, members, w,
        hmembers, _, x, hclose, rfl, rfl⟩⟩ := h
      · exact .rest hword hname ⟨token, hseen, hend⟩
      · obtain ⟨hopen, rfl⟩ := run_needSymbol_ok hbrace
        have hsu : Continues 0 s u :=
          (qualifiedName_keeps (s := s.past)).continues hname
        have huw : Continues 0 u w := ((membersFrom_keeps hr.keep _).of_run hmembers).2
        have hbody := Enclosed.of_close hmembers (hsu.after huw) hclose hquiet
        exact .braced hword hname hopen hbody

end Parts

end SharpSyntax
