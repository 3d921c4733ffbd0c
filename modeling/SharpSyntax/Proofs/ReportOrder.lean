import SharpSyntax.Proofs.Layout
import SharpSyntax.Proofs.TellingGrammar

/-!
# Diagnostics come in the order of the source text

What the routines tell of their reports adds up to what can be said of a whole parse. Every
diagnostic is about a token or about the end of the input; the diagnostics come in the order of the
tokens that they are about; and those that are made in different rounds of the loop over top-level
statements are about different tokens, because recovery leaves no reported token in front of the
next round.

Within one round a token may be reported more than once. What is said of it then is of those things
that are said again.
-/

namespace SharpSyntax

open Parse Attempt Grammar

variable {input : Input} {rules : Rules} {p q o k : Nat} {d e f : Array Diagnostic}

/-! ## Reports as a list -/

/-- The second report is about a token behind that of the first, or it is about the same token and
says what may be said again. -/
def Input.InOrder (input : Input) (x y : Diagnostic) : Prop :=
  x.offset < y.offset ∨ x.offset = y.offset ∧
    ∃ p ≤ input.size, y.offset = (input.tokenAt p).offset ∧
      (input.tokenAt p).ReportedAgain y.message

/-- The report is about a token at a place from `o` on and in front of `k`. -/
def Input.Within (input : Input) (o k : Nat) (x : Diagnostic) : Prop :=
  ∃ p message code, o ≤ p ∧ p < k ∧ x = input.errorAt p message code

theorem Input.InOrder.offset_le {x y : Diagnostic} (h : input.InOrder x y) :
    x.offset ≤ y.offset := by
  rcases h with hlt | ⟨heq, -⟩
  · exact Int.le_of_lt hlt
  · exact Int.le_of_eq heq

theorem Input.Ascending.offset_le (h : input.Ascending) (hpq : p ≤ q) (hq : q ≤ input.size) :
    (input.tokenAt p).offset ≤ (input.tokenAt q).offset := by
  rcases Nat.lt_or_eq_of_le hpq with hlt | rfl
  · exact Nat.le_of_lt (h p q hlt hq)
  · exact Nat.le_refl _

/-- A report behind others in order is in order with them, if it is about a token behind theirs or
says what may be said again. -/
theorem Input.Within.append {new : List Diagnostic} {message code : String} {j : Nat}
    (ha : input.Ascending) (hwithin : ∀ x ∈ new, input.Within o j x)
    (hordered : new.Pairwise input.InOrder) (hop : o ≤ p) (hjp : j ≤ p + 1) (hpk : p < k)
    (hp : p ≤ input.size) (hlast : j ≤ p ∨ (input.tokenAt p).ReportedAgain message) :
    (∀ x ∈ new ++ [input.errorAt p message code], input.Within o k x) ∧
      (new ++ [input.errorAt p message code]).Pairwise input.InOrder := by
  refine ⟨fun x hx => ?_, List.pairwise_append.mpr ⟨hordered, List.pairwise_singleton _ _, ?_⟩⟩
  · rcases List.mem_append.mp hx with hx | hx
    · obtain ⟨q, message', code', hoq, hqj, rfl⟩ := hwithin x hx
      exact ⟨q, message', code', hoq, by omega, rfl⟩
    · exact ⟨p, message, code, hop, hpk, List.mem_singleton.mp hx⟩
  · intro x hx y hy
    obtain ⟨q, message', code', -, hqj, rfl⟩ := hwithin x hx
    obtain rfl := List.mem_singleton.mp hy
    rcases hlast with hbehind | hagain
    · exact .inl (Int.ofNat_lt.mpr (ha q p (by omega) hp))
    · have hle := ha.offset_le (p := q) (q := p) (by omega) hp
      rcases Nat.lt_or_eq_of_le hle with hlt | heq
      · exact .inl (Int.ofNat_lt.mpr hlt)
      · exact .inr ⟨congrArg Int.ofNat heq, p, hp, rfl, hagain⟩

theorem Input.Reports.exists_list (ha : input.Ascending) (h : input.Reports o d k f)
    (hk : k ≤ input.size + 1) :
    ∃ new, f.toList = d.toList ++ new ∧ (∀ x ∈ new, input.Within o k x) ∧
      new.Pairwise input.InOrder := by
  induction h with
  | silent _ => exact ⟨[], by simp, nofun, .nil⟩
  | @first p k e message code h hpk ih =>
      obtain ⟨new, hnew, hwithin, hordered⟩ := ih (by omega)
      refine ⟨new ++ [input.errorAt p message code], ?_, ?_⟩
      · rw [Array.toList_push, hnew, List.append_assoc]
      · exact Within.append ha hwithin hordered h.origin_le (Nat.le_succ p) hpk (by omega)
          (.inl (Nat.le_refl p))
  | @again p k e message code _ hop hpk hmessage ih =>
      obtain ⟨new, hnew, hwithin, hordered⟩ := ih (by omega)
      refine ⟨new ++ [input.errorAt p message code], ?_, ?_⟩
      · rw [Array.toList_push, hnew, List.append_assoc]
      · exact Within.append ha hwithin hordered hop (Nat.le_refl _) hpk (by omega) (.inr hmessage)

/-! ## Rounds of the loop over top-level statements -/

/-- What a round of the loop has made and what it has reported. -/
structure Round where
  nodes : List Node
  reports : List Diagnostic

/-- The loop over top-level statements goes round from one state to another, where the input has
come to its end. Every round is a run of the rule for a statement that no brace or other token
closes. -/
inductive Rounds (input : Input) (rules : Rules) : ParseState → List Round → ParseState → Prop
  | done {s : ParseState} (h : input.size ≤ s.cursor) : Rounds input rules s [] s
  | round {s t u : ParseState} {nodes : List Node} {reports : List Diagnostic} {rest : List Round}
      (h : s.cursor < input.size)
      (hrun : ((statement rules []).run input).run s = .ok nodes t)
      (hreports : t.diagnostics.toList = s.diagnostics.toList ++ reports)
      (hrest : Rounds input rules t rest u) : Rounds input rules s (⟨nodes, reports⟩ :: rest) u

theorem Rounds.lt_size_of_mem {s u : ParseState} {rounds : List Round} {round : Round}
    (h : Rounds input rules s rounds u) (hmem : round ∈ rounds) : s.cursor < input.size := by
  cases h with
  | done _ => cases hmem
  | round hgo _ _ _ => exact hgo

/-- The loop is made of its rounds, in order. -/
theorem sequenceFrom_rounds (hr : rules.Tell input) : ∀ n p d,
    Parse.Meets True input (sequenceFrom rules none n) (.at p d) fun nodes t =>
      ∃ rounds, Rounds input rules (.at p d) rounds t ∧ nodes = rounds.flatMap Round.nodes ∧
        t.diagnostics.toList = d.toList ++ rounds.flatMap Round.reports
  | 0, _, _ => trivial
  | n + 1, p, d => by
      simp only [sequenceFrom, Parse.meets_bind, meets_atEnd]
      refine .ite (fun hend => ?_) fun hgo => ?_
      · have hsize : input.size ≤ p := of_decide_eq_true hend
        exact ⟨[], .done (Int.ofNat_le.mpr hsize), rfl, by simp⟩
      have hlt : p < input.size := by simpa using hgo
      simp only [Parse.meets_bind, meets_current, Option.toList_none, List.any_nil]
      refine .ite (fun hnever => absurd hnever nofun) fun _ => ?_
      simp only [Parse.meets_bind, Parse.meets_pure]
      have hround := statement_settles hr [] (Nat.le_refl p) (.silent (d := d) (Nat.le_refl p))
      refine hround.run.mono fun first t => ?_
      rintro ⟨⟨q, e, rfl, -, ⟨new, hnew⟩, -⟩, hrun⟩
      refine (sequenceFrom_rounds hr n q e).mono fun nodes t => ?_
      rintro ⟨rounds, hrounds, rfl, hreports⟩
      refine ⟨⟨first, new⟩ :: rounds, .round (Int.ofNat_lt.mpr hlt) hrun hnew.symm hrounds, ?_, ?_⟩
      · rw [List.flatMap_cons]
      · rw [hreports, List.flatMap_cons, ← List.append_assoc]
        exact congrArg (· ++ _) hnew.symm

/-- What a statement reports is in order and is about tokens in front of where it ends, unless it
ends with the input. -/
theorem Rounds.ordered {depth : Nat} (ha : input.Ascending) (hr : rules.Tell input)
    (hprogress : rules.Progress input depth) (hdepth : input.size < depth) {s u : ParseState}
    {rounds : List Round} (h : Rounds input rules s rounds u) :
    ∀ p d, s = .at p d → p ≤ input.size →
      (∀ round ∈ rounds, (∀ x ∈ round.reports, input.Within p (input.size + 1) x) ∧
        round.reports.Pairwise input.InOrder) ∧
      rounds.Pairwise fun round later =>
        ∀ x ∈ round.reports, ∀ y ∈ later.reports, x.offset < y.offset := by
  induction h with
  | done _ => exact fun _ _ _ _ => ⟨nofun, .nil⟩
  | @round s t u nodes reports rest hgo hrun hreports hrest ih =>
      rintro p d rfl hp
      have hlt : p < input.size := Int.ofNat_lt.mp hgo
      have hsettles := statement_settles hr [] (Nat.le_refl p) (.silent (d := d) (Nat.le_refl p))
      have hreaches := statement_reaches hprogress hlt (by omega) [] d
      obtain ⟨q, f, rfl, hpq, -, hf⟩ := hsettles.of_run hrun
      obtain ⟨q', f', heq, -, hq, -⟩ := hreaches.of_run hrun
      obtain ⟨rfl, rfl⟩ := ParseState.at_inj heq
      obtain ⟨new, hnew, hwithin, hordered⟩ := hf.last.exists_list ha (by omega)
      obtain rfl : new = reports := List.append_cancel_left (hnew.symm.trans hreports)
      obtain ⟨hrounds, hpairs⟩ := ih q f rfl hq
      refine ⟨List.forall_mem_cons.mpr ⟨⟨fun x hx => ?_, hordered⟩, fun round hround => ?_⟩, ?_⟩
      · obtain ⟨r, message, code, hpr, hrq, rfl⟩ := hwithin x hx
        exact ⟨r, message, code, hpr, by omega, rfl⟩
      · refine ⟨fun x hx => ?_, (hrounds round hround).2⟩
        obtain ⟨r, message, code, hqr, hr', rfl⟩ := (hrounds round hround).1 x hx
        exact ⟨r, message, code, Nat.le_trans hpq hqr, hr', rfl⟩
      · refine List.pairwise_cons.mpr ⟨fun later hlater x hx y hy => ?_, hpairs⟩
        -- another round is only begun in front of the end, at a token that was not reported
        have hgo' : q < input.size := Int.ofNat_lt.mp (hrest.lt_size_of_mem hlater)
        have hfresh : input.Reports p d q f := hf.fresh (by simpa using hgo') (by simp)
        obtain ⟨new', hnew', hwithin', -⟩ := hfresh.exists_list ha (by omega)
        obtain rfl : new' = new := List.append_cancel_left (hnew'.symm.trans hnew)
        obtain ⟨r, message, code, -, hrq, rfl⟩ := hwithin' x hx
        obtain ⟨r', message', code', hqr', hr', rfl⟩ := (hrounds later hlater).1 y hy
        exact Int.ofNat_lt.mpr (ha r r' (by omega) (by omega))

/-! ## Tokens that are cut with the bundled plugin -/

/-- The bundled plugin adds a rule and a name, and leaves the session where it is. -/
theorem Extras.applyToLexer_ok {lexer later : Lexer}
    (h : Extras.plugin.applyToLexer lexer = .ok later) :
    ∃ rules aliases, later = { lexer with rules := rules, aliases := aliases } := by
  have hlex : Extras.lex lexer = .ok later := by
    rw [← h]
    change Extras.lex lexer = (Extras.lex lexer >>= fun lexer => .ok lexer)
    cases Extras.lex lexer <;> rfl
  simp only [Extras.lex, Lexer.addRule] at hlex
  cases hinsert : Lexer.insertBefore? .identifier
      { kind := Extras.nullKind, scanner := Scan.wholeWord "null" } lexer.rules with
  | none => rw [hinsert] at hlex; cases hlex
  | some rules => rw [hinsert] at hlex; cases hlex; exact ⟨rules, _, rfl⟩

theorem Frontend.lexer_fresh {frontend : Frontend}
    (hplugins : ∀ plugin ∈ frontend.plugins, plugin = Extras.plugin) {source : SourceText}
    {lexer : Lexer} (h : frontend.lexer source = .ok lexer) :
    lexer = Lexer.fresh source lexer.rules lexer.aliases := by
  -- the induction is over the lexer that the plugins so far have made
  have key : ∀ (plugins : List Plugin) (first last : Lexer),
      (∀ plugin ∈ plugins, plugin = Extras.plugin) →
      plugins.foldlM (fun lexer plugin => plugin.applyToLexer lexer) first = .ok last →
      ∃ rules aliases, last = { first with rules := rules, aliases := aliases } := by
    intro plugins
    induction plugins with
    | nil =>
        intro first last _ hfold
        cases hfold
        exact ⟨first.rules, first.aliases, rfl⟩
    | cons plugin rest ih =>
        intro first last hall hfold
        rw [List.foldlM_cons, hall plugin (by simp)] at hfold
        cases happly : Extras.plugin.applyToLexer first with
        | error _ => rw [happly] at hfold; cases hfold
        | ok next =>
            rw [happly] at hfold
            obtain ⟨rules, aliases, rfl⟩ := Extras.applyToLexer_ok happly
            have hrest : rest.foldlM (fun lexer plugin => plugin.applyToLexer lexer)
                { first with rules := rules, aliases := aliases } = .ok last := hfold
            obtain ⟨rules', aliases', rfl⟩ :=
              ih _ last (fun other hmem => hall other (by simp [hmem])) hrest
            exact ⟨rules', aliases', rfl⟩
  obtain ⟨rules, aliases, rfl⟩ := key _ _ _ hplugins h
  rfl

theorem Frontend.ascending_of_tokens {frontend : Frontend}
    (hplugins : ∀ plugin ∈ frontend.plugins, plugin = Extras.plugin) {source : SourceText}
    {tokens : List Token} {aliases : Aliases}
    (h : frontend.tokens source = .ok (tokens, aliases)) :
    (Input.ofTokens tokens source).Ascending := by
  cases hlexer : frontend.lexer source with
  | error _ => rw [Frontend.tokens, hlexer] at h; cases h
  | ok lexer =>
      rw [Frontend.tokens, hlexer, Frontend.lexer_fresh hplugins hlexer] at h
      obtain ⟨lexemes, stop, hsegments, -, -, hend⟩ :=
        Lexer.tokenize_fresh source lexer.rules lexer.aliases
      dsimp only at h
      rcases hend with ⟨-, hok⟩ | ⟨c, -, herror⟩
      · rw [hok] at h
        cases h
        exact hsegments.ascending
      · rw [herror] at h
        cases h

/-! ## Whole parses -/

/-- The diagnostic is about a token, or about the end of the last one, and its one label is the span
of just that. -/
def Diagnostic.Anchored (source : SourceText) (tokens : List Token) (x : Diagnostic) : Prop :=
  ∃ (offset : Nat) (length : Nat),
    ((∃ token ∈ tokens, offset = token.offset ∧ length = token.text.length) ∨
      ∃ last, tokens.getLast? = some last ∧ offset = last.stop ∧ length = 0) ∧
    x.offset = offset ∧ x.labels = [{ span := source.span offset length, message := "" }]

theorem Input.Within.anchored {tokens : List Token} {source : SourceText} {x : Diagnostic}
    (hne : tokens ≠ [])
    (h : (Input.ofTokens tokens source).Within o ((Input.ofTokens tokens source).size + 1) x) :
    x.Anchored source tokens := by
  obtain ⟨p, message, code, -, hp, rfl⟩ := h
  refine ⟨_, _, ?_, rfl, rfl⟩
  rcases Nat.lt_or_ge p tokens.length with hlt | hge
  · rw [tokenAt_ofTokens_of_lt hlt]
    exact .inl ⟨tokens[p], List.getElem_mem hlt, rfl, rfl⟩
  · have hsize : (Input.ofTokens tokens source).size ≤ p := by rw [size_ofTokens]; exact hge
    have hlast := List.getLast?_eq_some_getLast hne
    refine .inr ⟨tokens.getLast hne, hlast, ?_, ?_⟩
    · rw [tokenAt_of_size_le hsize, ofTokens, hlast]
      rfl
    · rw [tokenAt_of_size_le hsize, endMarker_text]
      rfl

/-- The rules of a parser without plugins or with the bundled one report in order. -/
theorem Frontend.rules_tell {frontend : Frontend}
    (hplugins : ∀ plugin ∈ frontend.plugins, plugin = Extras.plugin) (tokens : List Token)
    (source : SourceText) (aliases : Aliases) (input : Input) :
    (frontend.parser tokens source aliases).rules.Tell input :=
  Rules.tell_ofDepth (Frontend.hooks_of_extras hplugins tokens source aliases Hooks.tell_none
    fun _ hh => extras_tell hh aliases) _ _

/-- **Diagnostics are anchored and ordered.** Without plugins or with the bundled one, a text that
lexes is parsed in rounds, one to a top-level statement, which make its tree and its diagnostics.
Every diagnostic is about a token or the end of the last one; the offsets never decrease; and those
of a later round are behind those of the rounds before it. -/
theorem diagnostics_anchored_in_order {frontend : Frontend}
    (hplugins : ∀ plugin ∈ frontend.plugins, plugin = Extras.plugin) {source : SourceText}
    {tokens : List Token} {aliases : Aliases}
    (htokens : frontend.tokens source = .ok (tokens, aliases)) :
    ∃ result rounds stop, frontend.parse source = .ok result ∧
      Rounds (.ofTokens tokens source) (frontend.parser tokens source aliases).rules (.at 0 #[])
        rounds stop ∧
      result.program.body = rounds.flatMap Round.nodes ∧
      result.diagnostics = rounds.flatMap Round.reports ∧
      (∀ x ∈ result.diagnostics, x.Anchored source tokens) ∧
      (result.diagnostics.Pairwise fun x y => x.offset ≤ y.offset) ∧
      rounds.Pairwise fun round later =>
        ∀ x ∈ round.reports, ∀ y ∈ later.reports, x.offset < y.offset := by
  have hh : (frontend.parser tokens source aliases).hooks.Progress (.ofTokens tokens source) :=
    parser_progress hplugins tokens source aliases
  obtain ⟨hprogress, hdepth⟩ := (frontend.parser tokens source aliases).rules_progress hh 0
  have htell := Frontend.rules_tell hplugins tokens source aliases (.ofTokens tokens source)
  have hmeets : Parse.Meets True (.ofTokens tokens source)
      (program (frontend.parser tokens source aliases).rules) (.at 0 #[]) fun tree t =>
        ∃ rounds, Rounds (.ofTokens tokens source) (frontend.parser tokens source aliases).rules
          (.at 0 #[]) rounds t ∧ tree.body = rounds.flatMap Round.nodes ∧
          t.diagnostics.toList = rounds.flatMap Round.reports := by
    rw [program, Parse.meets_bind]
    exact sequenceFrom_rounds htell _ 0 #[]
  obtain ⟨tree, reported, hrun⟩ := (frontend.parser tokens source aliases).program_ends hh
  obtain ⟨rounds, hrounds, hbody, hreports⟩ := Parser.post_of_run hmeets hrun
  have ha := Frontend.ascending_of_tokens hplugins htokens
  rw [Nat.zero_add] at hdepth
  obtain ⟨hwithin, hbehind⟩ :=
    hrounds.ordered ha htell hprogress hdepth 0 #[] rfl (Nat.zero_le _)
  refine ⟨_, rounds, _, Frontend.parse_of_run htokens hrun, hrounds, hbody, hreports, ?_, ?_,
    hbehind⟩
  · intro x hx
    obtain ⟨round, hround, hx'⟩ := List.mem_flatMap.mp (hreports ▸ hx)
    have hsize : 0 < tokens.length := by
      have hlt := hrounds.lt_size_of_mem hround
      rw [Input.size_ofTokens] at hlt
      exact Int.ofNat_lt.mp hlt
    exact ((hwithin round hround).1 x hx').anchored (List.length_pos_iff.mp hsize)
  · have hordered : (rounds.flatMap Round.reports).Pairwise fun x y => x.offset ≤ y.offset := by
      rw [List.pairwise_flatMap]
      refine ⟨fun round hround => (hwithin round hround).2.imp Input.InOrder.offset_le, ?_⟩
      exact hbehind.imp fun h x hx y hy => Int.le_of_lt (h x hx y hy)
    exact hreports ▸ hordered

/-- Two broken calls and a brace that nothing opened, with the bundled plugin. -/
theorem diagnostics_in_order_broken_calls : ∃ result,
    (Frontend.mk [Extras.plugin]).parse (.ofText "f(a]; return g(null]; \x7d" "main.cs") =
      .ok result ∧ result.diagnostics.map Diagnostic.offset = [3, 4, 19, 20, 22] ∧
      result.diagnostics.Pairwise fun x y => x.offset ≤ y.offset := by
  have hplugins : ∀ plugin ∈ (Frontend.mk [Extras.plugin]).plugins, plugin = Extras.plugin := by
    simp
  have hoffsets : ((Frontend.mk [Extras.plugin]).parse
      (.ofText "f(a]; return g(null]; \x7d" "main.cs")).toOption.map
        (fun result => result.diagnostics.map Diagnostic.offset) = some [3, 4, 19, 20, 22] := by
    decide +kernel
  cases htokens : (Frontend.mk [Extras.plugin]).tokens
      (.ofText "f(a]; return g(null]; \x7d" "main.cs") with
  | error error => rw [Frontend.parse, htokens] at hoffsets; cases hoffsets
  | ok found =>
      obtain ⟨tokens, aliases⟩ := found
      obtain ⟨result, rounds, stop, hparse, -, -, -, -, hordered, -⟩ :=
        diagnostics_anchored_in_order hplugins htokens
      rw [hparse] at hoffsets
      exact ⟨result, hparse, Option.some.inj hoffsets, hordered⟩

/-- **What is said of a token that was reported.** Two diagnostics of a parse are about the same
token only if the later one says that a construct is not closed or does not go on there, or that a
brace was not expected. -/
theorem token_reported_again {frontend : Frontend}
    (hplugins : ∀ plugin ∈ frontend.plugins, plugin = Extras.plugin) {source : SourceText}
    {tokens : List Token} {aliases : Aliases}
    (htokens : frontend.tokens source = .ok (tokens, aliases)) :
    ∃ result, frontend.parse source = .ok result ∧
      result.diagnostics.Pairwise fun x y => x.offset = y.offset →
        ∃ p ≤ tokens.length, y.offset = (((Input.ofTokens tokens source).tokenAt p).offset : Int) ∧
          ((Input.ofTokens tokens source).tokenAt p).ReportedAgain y.message := by
  have hh : (frontend.parser tokens source aliases).hooks.Progress (.ofTokens tokens source) :=
    parser_progress hplugins tokens source aliases
  have htell := Frontend.rules_tell hplugins tokens source aliases (.ofTokens tokens source)
  have hmeets : Parse.Meets True (.ofTokens tokens source)
      (program (frontend.parser tokens source aliases).rules) (.at 0 #[])
        fun _ => (Input.ofTokens tokens source).Told 0 #[] 0 #[] true := by
    rw [program, Parse.meets_bind]
    exact block_tells htell none 0 0 #[] #[] (Nat.le_refl 0) (.silent (Nat.le_refl 0))
  obtain ⟨tree, reported, hrun⟩ := (frontend.parser tokens source aliases).program_ends hh
  obtain ⟨q, f, hend, -, -, hf⟩ := Parser.post_of_run hmeets hrun
  obtain ⟨rfl, rfl⟩ := ParseState.at_inj hend
  have ha := Frontend.ascending_of_tokens hplugins htokens
  obtain ⟨new, hnew, -, hordered⟩ := hf.exists_list ha (Nat.le_refl _)
  refine ⟨_, Frontend.parse_of_run htokens hrun, ?_⟩
  have hall : reported.toList = new := by simpa using hnew
  refine hall ▸ hordered.imp ?_
  rintro x y (hlt | ⟨-, p, hp, hagain⟩) heq
  · exact absurd heq (Int.ne_of_lt hlt)
  · exact ⟨p, by rwa [Input.size_ofTokens] at hp, hagain⟩

/-- A class whose base list is cut off, so that its body is missed at a token that was reported. -/
theorem token_reported_again_base_list : ∃ result,
    Frontend.empty.parse (.ofText "class A : ;" "main.cs") = .ok result ∧
      result.diagnostics.map Diagnostic.offset = [10, 10] ∧
      result.diagnostics.Pairwise fun x y => x.offset = y.offset → ∃ token : Token,
        y.offset = (token.offset : Int) ∧ token.ReportedAgain y.message := by
  have hplugins : ∀ plugin ∈ Frontend.empty.plugins, plugin = Extras.plugin := nofun
  have htokens : Frontend.empty.tokens (.ofText "class A : ;" "main.cs") =
      .ok ([⟨.keyword, "class", 0⟩, ⟨.identifier, "A", 6⟩, ⟨.symbol, ":", 8⟩,
        ⟨.symbol, ";", 10⟩], .builtin) := (Frontend.tokens_of_lex (by decide +kernel)).2
  have hoffsets : (Frontend.empty.parse (.ofText "class A : ;" "main.cs")).toOption.map
      (fun result => result.diagnostics.map Diagnostic.offset) = some [10, 10] := by decide +kernel
  obtain ⟨result, hparse, hagain⟩ := token_reported_again hplugins htokens
  rw [hparse] at hoffsets
  refine ⟨result, hparse, Option.some.inj hoffsets, hagain.imp fun h heq => ?_⟩
  obtain ⟨p, -, hoffset, hmessage⟩ := h heq
  exact ⟨_, hoffset, hmessage⟩

/-- It is not so that only closing braces and the end of the input are reported twice: a bracket in
the place of an argument is reported as no expression, and then as not closing the argument list. -/
theorem bracket_reported_twice : ¬ ∀ (source : SourceText) (tokens : List Token)
    (result : ParseResult), Frontend.empty.lex source = .ok tokens →
      Frontend.empty.parse source = .ok result →
      result.diagnostics.Pairwise fun x y => x.offset = y.offset →
        (∃ token ∈ tokens, token.isSymbol closeBrace ∧ x.offset = (token.offset : Int)) ∨
          x.offset = ((Input.ofTokens tokens source).endMarker.offset : Int) := by
  intro hclaim
  have hlex : Frontend.empty.lex (.ofText "f(])" "main.cs") =
      .ok [⟨.identifier, "f", 0⟩, ⟨.symbol, "(", 1⟩, ⟨.symbol, "]", 2⟩, ⟨.symbol, ")", 3⟩] := by
    decide +kernel
  have hoffsets : (Frontend.empty.parse (.ofText "f(])" "main.cs")).toOption.map
      (fun result => result.diagnostics.map Diagnostic.offset) = some [2, 2, 3] := by decide +kernel
  cases hparse : Frontend.empty.parse (.ofText "f(])" "main.cs") with
  | error error => rw [hparse] at hoffsets; cases hoffsets
  | ok result =>
      rw [hparse] at hoffsets
      have hmapped : result.diagnostics.map Diagnostic.offset = [2, 2, 3] :=
        Option.some.inj hoffsets
      obtain ⟨x, more, hlist, hx, hmore⟩ := List.map_eq_cons_iff.mp hmapped
      obtain ⟨y, _, rfl, hy, -⟩ := List.map_eq_cons_iff.mp hmore
      have hpairs := hclaim _ _ result hlex hparse
      rw [hlist] at hpairs
      have hfirst := (List.pairwise_cons.mp hpairs).1 y (by simp) (hx.trans hy.symm)
      rw [hx] at hfirst
      exact absurd hfirst (by decide)

end SharpSyntax
