import SharpSyntax.Token.Lexer

/-!
# What a text is cut into

A lexer cuts its text into lexemes that follow each other without a hole, from the start of the text
to the first place where no rule has a lexeme. Nothing is asked of the rules: one that takes no
character at a place counts as not found there, so that every lexeme takes at least one.

`Segments` says that the text between two offsets is cut so. What else holds of tokens follows from
it by induction along the lexemes: a token is the piece of the text at its offset, tokens do not
overlap, and what lies between two of them are lexemes that their rules drop.
-/

namespace SharpSyntax

/-- The offset just past a lexeme. -/
def Lexeme.stop (lexeme : Lexeme) : Nat := lexeme.offset + lexeme.text.length

/-- The non-empty lexeme of a rule at an offset of a text. -/
def TokenRule.lexemeAt? (rule : TokenRule) (text : List Char) (offset : Nat) :
    Option (List Char) :=
  rule.lexeme? (text.take offset).reverse (text.drop offset)

/-- The rule of a lexeme has it at its offset, and no earlier rule has one there. -/
def Lexeme.IsFirst (rules : List TokenRule) (text : List Char) (lexeme : Lexeme) : Prop :=
  ∃ earlier later, rules = earlier ++ lexeme.rule :: later ∧
    lexeme.rule.lexemeAt? text lexeme.offset = some lexeme.text ∧
    ∀ rule ∈ earlier, rule.lexemeAt? text lexeme.offset = none

/-- The text between two offsets is cut into lexemes, each of them the first that a rule has. -/
inductive Segments (rules : List TokenRule) (text : List Char) : Nat → List Lexeme → Nat → Prop
  | nil {offset : Nat} : Segments rules text offset [] offset
  | cons {lexeme : Lexeme} {more : List Lexeme} {stop : Nat} :
      lexeme.IsFirst rules text → Segments rules text lexeme.stop more stop →
      Segments rules text lexeme.offset (lexeme :: more) stop

variable {rules : List TokenRule} {text : List Char} {start stop : Nat} {lexemes : List Lexeme}

/-! ## One lexeme -/

/-- A lexeme is as much of the text ahead as the scanner of its rule takes. -/
theorem TokenRule.exists_scan {rule : TokenRule} {behind ahead lexeme : List Char}
    (h : rule.lexeme? behind ahead = some lexeme) :
    ∃ n, rule.scanner behind ahead = some n ∧ lexeme = ahead.take n := by
  unfold TokenRule.lexeme? at h
  split at h
  · cases h
  · next n hn =>
    split at h
    · cases h
    · cases h
      exact ⟨n, hn, rfl⟩

namespace Lexeme.IsFirst

variable {lexeme : Lexeme}

theorem isPrefix (h : lexeme.IsFirst rules text) :
    lexeme.text <+: text.drop lexeme.offset ∧ lexeme.text ≠ [] := by
  obtain ⟨_, _, _, hfound, _⟩ := h
  exact TokenRule.lexeme?_eq_some hfound

theorem rule_mem (h : lexeme.IsFirst rules text) : lexeme.rule ∈ rules := by
  obtain ⟨_, _, hrules, _, _⟩ := h
  rw [hrules]
  exact List.mem_append_right _ List.mem_cons_self

theorem text_eq (h : lexeme.IsFirst rules text) :
    lexeme.text = (text.drop lexeme.offset).take lexeme.text.length :=
  List.prefix_iff_eq_take.mp h.isPrefix.1

theorem offset_lt_stop (h : lexeme.IsFirst rules text) : lexeme.offset < lexeme.stop := by
  have hpos := List.length_pos_iff.mpr h.isPrefix.2
  unfold Lexeme.stop
  omega

theorem stop_le_length (h : lexeme.IsFirst rules text) : lexeme.stop ≤ text.length := by
  have hlt := h.offset_lt_stop
  have hle := h.isPrefix.1.length_le
  rw [List.length_drop] at hle
  unfold Lexeme.stop at hlt ⊢
  omega

/-- The text from a lexeme on is the lexeme and what stands behind it. -/
theorem drop_eq (h : lexeme.IsFirst rules text) :
    text.drop lexeme.offset = lexeme.text ++ text.drop lexeme.stop := by
  obtain ⟨rest, hrest⟩ := h.isPrefix.1
  rw [Lexeme.stop, ← List.drop_drop, ← hrest, List.drop_left]

end Lexeme.IsFirst

/-! ## All lexemes -/

namespace Segments

theorem start_le_stop (h : Segments rules text start lexemes stop) : start ≤ stop := by
  induction h with
  | nil => exact Nat.le_refl _
  | cons hfirst _ ih => exact Nat.le_trans (Nat.le_of_lt hfirst.offset_lt_stop) ih

theorem stop_le_length (h : Segments rules text start lexemes stop)
    (hstart : start ≤ text.length) : stop ≤ text.length := by
  induction h with
  | nil => exact hstart
  | cons hfirst _ ih => exact ih hfirst.stop_le_length

theorem of_mem (h : Segments rules text start lexemes stop) :
    ∀ lexeme ∈ lexemes, lexeme.IsFirst rules text ∧ start ≤ lexeme.offset := by
  induction h with
  | nil => intro lexeme hmem; cases hmem
  | @cons first more stop hfirst _ ih =>
      intro lexeme hmem
      rcases List.mem_cons.mp hmem with rfl | hmem
      · exact ⟨hfirst, Nat.le_refl _⟩
      · obtain ⟨hthen, hle⟩ := ih lexeme hmem
        exact ⟨hthen, Nat.le_trans (Nat.le_of_lt hfirst.offset_lt_stop) hle⟩

/-- Behind a lexeme stands the next one, or the cut ends there. -/
theorem next (h : Segments rules text start lexemes stop) {lexeme : Lexeme}
    (hmem : lexeme ∈ lexemes) :
    lexeme.stop = stop ∨ ∃ next ∈ lexemes, next.offset = lexeme.stop := by
  induction h with
  | nil => cases hmem
  | @cons first more stop _ hmore ih =>
      rcases List.mem_cons.mp hmem with rfl | hmem
      · generalize lexeme.stop = behind at hmore
        cases hmore with
        | nil => exact .inl rfl
        | cons _ _ => exact .inr ⟨_, List.mem_cons_of_mem _ List.mem_cons_self, rfl⟩
      · rcases ih hmem with hend | ⟨next, hnext, hoffset⟩
        · exact .inl hend
        · exact .inr ⟨next, List.mem_cons_of_mem _ hnext, hoffset⟩

/-- Put together again, the lexemes are the text between the two offsets. -/
theorem flatMap_text (h : Segments rules text start lexemes stop) :
    lexemes.flatMap Lexeme.text = (text.take stop).drop start := by
  induction h with
  | @nil offset =>
      rw [List.flatMap_nil, List.drop_eq_nil_of_le]
      exact List.length_take_le _ _
  | @cons lexeme more stop hfirst hmore ih =>
      have hle := hmore.start_le_stop
      have hhead : ((text.take stop).drop lexeme.offset).take lexeme.text.length
          = lexeme.text := by
        rw [List.drop_take, List.take_take, Nat.min_eq_left, ← hfirst.text_eq]
        unfold Lexeme.stop at hle
        omega
      calc (lexeme :: more).flatMap Lexeme.text
          = lexeme.text ++ (text.take stop).drop lexeme.stop := by rw [List.flatMap_cons, ih]
        _ = ((text.take stop).drop lexeme.offset).take lexeme.text.length ++
              ((text.take stop).drop lexeme.offset).drop lexeme.text.length := by
            rw [hhead, List.drop_drop, Lexeme.stop]
        _ = (text.take stop).drop lexeme.offset := List.take_append_drop _ _

theorem pairwise_stop_le (h : Segments rules text start lexemes stop) :
    lexemes.Pairwise fun first second => first.stop ≤ second.offset := by
  induction h with
  | nil => exact List.Pairwise.nil
  | cons _ hmore ih =>
      exact List.Pairwise.cons (fun second hmem => (hmore.of_mem second hmem).2) ih

end Segments

/-! ## Tokens -/

theorem Lexeme.token?_eq_some {lexeme : Lexeme} {token : Token}
    (h : lexeme.token? = some token) :
    token.text.toList = lexeme.text ∧ token.offset = lexeme.offset ∧ token.stop = lexeme.stop := by
  unfold Lexeme.token? at h
  split at h
  · cases h
  · cases h
    refine ⟨String.toList_ofList, rfl, ?_⟩
    rw [Token.stop, String.length_ofList, Lexeme.stop]

theorem Lexeme.kind_of_token? {lexeme : Lexeme} {token : Token}
    (h : lexeme.token? = some token) : token.kind = lexeme.rule.kind := by
  unfold Lexeme.token? at h
  split at h
  · cases h
  · cases h
    rfl

namespace Segments

/-- A token is the piece of the text at its offset, and it is not empty. -/
theorem token_text (h : Segments rules text start lexemes stop) {token : Token}
    (hmem : token ∈ lexemes.filterMap Lexeme.token?) :
    token.text.toList = (text.drop token.offset).take token.text.length ∧
      token.text.toList ≠ [] := by
  obtain ⟨lexeme, hlexeme, htoken⟩ := List.mem_filterMap.mp hmem
  obtain ⟨htext, hoffset, _⟩ := Lexeme.token?_eq_some htoken
  have hfirst := (h.of_mem lexeme hlexeme).1
  refine ⟨?_, by rw [htext]; exact hfirst.isPrefix.2⟩
  rw [← String.length_toList, htext, hoffset]
  exact hfirst.text_eq

/-- Tokens stand in the order of their offsets and do not overlap. -/
theorem tokens_pairwise (h : Segments rules text start lexemes stop) :
    (lexemes.filterMap Lexeme.token?).Pairwise
      fun first second => first.offset < second.offset ∧ first.stop ≤ second.offset := by
  rw [List.pairwise_filterMap]
  refine h.pairwise_stop_le.imp_of_mem ?_
  intro first second hmem _ hle token htoken token' htoken'
  obtain ⟨_, hoffset, hstop⟩ := Lexeme.token?_eq_some htoken
  obtain ⟨_, hoffset', _⟩ := Lexeme.token?_eq_some htoken'
  have hlt := (h.of_mem first hmem).1.offset_lt_stop
  rw [hoffset, hoffset', hstop]
  exact ⟨by omega, hle⟩

end Segments

/-! ## Gaps -/

/-- Where the text in front of some tokens ends: at the first of them, or at `stop` if there is
none. -/
def gapEnd (stop : Nat) : List Token → Nat
  | [] => stop
  | token :: _ => token.offset

/-- The pieces of a text behind each of some tokens, up to the next one or to `stop`. -/
def gapsBehind (stop : Nat) : List Token → List (Nat × Nat)
  | [] => []
  | token :: tokens => (token.stop, gapEnd stop tokens) :: gapsBehind stop tokens

/-- The pieces between `start` and `stop` that the tokens leave out, by their two offsets. -/
def gaps (start stop : Nat) (tokens : List Token) : List (Nat × Nat) :=
  (start, gapEnd stop tokens) :: gapsBehind stop tokens

namespace Segments

/-- The text between two offsets is cut into lexemes that their rules drop. -/
def Dropped (rules : List TokenRule) (text : List Char) (gap : Nat × Nat)
    (dropped : List Lexeme) : Prop :=
  Segments rules text gap.1 dropped gap.2 ∧ ∀ lexeme ∈ dropped, lexeme.rule.discard = true

/-- The text in front of the first token is dropped. -/
theorem dropped_first (h : Segments rules text start lexemes stop) :
    ∃ dropped, dropped <+: lexemes ∧
      Dropped rules text (start, gapEnd stop (lexemes.filterMap Lexeme.token?)) dropped := by
  induction h with
  | nil => exact ⟨[], List.prefix_rfl, .nil, by simp⟩
  | @cons lexeme more stop hfirst _ ih =>
      cases hdiscard : lexeme.rule.discard with
      | true =>
          have hnone : lexeme.token? = none := by simp [Lexeme.token?, hdiscard]
          obtain ⟨dropped, hfront, hcut, hall⟩ := ih
          rw [List.filterMap_cons_none hnone]
          refine ⟨lexeme :: dropped, (List.prefix_cons_inj _).mpr hfront, .cons hfirst hcut, ?_⟩
          intro other hmem
          rcases List.mem_cons.mp hmem with rfl | hmem
          · exact hdiscard
          · exact hall other hmem
      | false =>
          have hsome : ∃ token, lexeme.token? = some token := by simp [Lexeme.token?, hdiscard]
          obtain ⟨token, htoken⟩ := hsome
          rw [List.filterMap_cons_some htoken]
          refine ⟨[], List.nil_prefix, ?_, by simp⟩
          rw [gapEnd, (Lexeme.token?_eq_some htoken).2.1]
          exact .nil

theorem dropped_behind (h : Segments rules text start lexemes stop) :
    ∀ gap ∈ gapsBehind stop (lexemes.filterMap Lexeme.token?),
      ∃ dropped, dropped <:+: lexemes ∧ Dropped rules text gap dropped := by
  induction h with
  | nil => intro gap hmem; cases hmem
  | @cons lexeme more stop _ hmore ih =>
      intro gap hmem
      cases htoken : lexeme.token? with
      | none =>
          rw [List.filterMap_cons_none htoken] at hmem
          obtain ⟨dropped, hinside, hdropped⟩ := ih gap hmem
          exact ⟨dropped, List.infix_cons hinside, hdropped⟩
      | some token =>
          rw [List.filterMap_cons_some htoken, gapsBehind] at hmem
          rcases List.mem_cons.mp hmem with rfl | hmem
          -- what is dropped behind a token is dropped in front of the next one
          · obtain ⟨dropped, hfront, hdropped⟩ := hmore.dropped_first
            rw [(Lexeme.token?_eq_some htoken).2.2]
            exact ⟨dropped, List.infix_cons hfront.isInfix, hdropped⟩
          · obtain ⟨dropped, hinside, hdropped⟩ := ih gap hmem
            exact ⟨dropped, List.infix_cons hinside, hdropped⟩

/-- Every gap between tokens is cut into lexemes that their rules drop. -/
theorem dropped_of_mem_gaps (h : Segments rules text start lexemes stop) :
    ∀ gap ∈ gaps start stop (lexemes.filterMap Lexeme.token?),
      ∃ dropped, dropped <:+: lexemes ∧ Dropped rules text gap dropped := by
  intro gap hmem
  rcases List.mem_cons.mp hmem with rfl | hmem
  · obtain ⟨dropped, hfront, hdropped⟩ := h.dropped_first
    exact ⟨dropped, hfront.isInfix, hdropped⟩
  · exact h.dropped_behind gap hmem

end Segments

/-! ## The lexer cuts its text into segments -/

theorem firstLexeme?_isFirst {rule : TokenRule} {lexeme : List Char}
    (h : firstLexeme? rules (text.take start).reverse (text.drop start) = some (rule, lexeme)) :
    Lexeme.IsFirst rules text { rule := rule, text := lexeme, offset := start } := by
  unfold firstLexeme? at h
  obtain ⟨earlier, found, later, hrules, hfound, hearlier⟩ := List.findSome?_eq_some_iff.mp h
  obtain ⟨taken, htaken, heq⟩ := Option.map_eq_some_iff.mp hfound
  cases heq
  exact ⟨earlier, later, hrules, htaken, fun rule hmem => Option.map_eq_none_iff.mp
    (hearlier rule hmem)⟩

theorem firstLexeme?_eq_none_iff :
    firstLexeme? rules (text.take start).reverse (text.drop start) = none ↔
      ∀ rule ∈ rules, rule.lexemeAt? text start = none := by
  simp only [firstLexeme?, List.findSome?_eq_none_iff, Option.map_eq_none_iff,
    TokenRule.lexemeAt?]

/-- Behind a lexeme stands the text up to where it stops. -/
theorem reverseAux_behind {lexeme : List Char} (h : lexeme <+: text.drop start) :
    lexeme.reverseAux (text.take start).reverse = (text.take (start + lexeme.length)).reverse := by
  rw [List.reverseAux_eq, ← List.reverse_append, List.take_add, ← List.prefix_iff_eq_take.mp h]

/-- Cutting goes on to a place where no rule has a lexeme. -/
theorem cut_segments (rules : List TokenRule) (text : List Char) (start : Nat) :
    ∃ stop, stop = start + charCount
          (cut rules start (text.take start).reverse (text.drop start)).1 ∧
      Segments rules text start
        (cut rules start (text.take start).reverse (text.drop start)).1 stop ∧
      (cut rules start (text.take start).reverse (text.drop start)).2 = text.drop stop ∧
      ∀ rule ∈ rules, rule.lexemeAt? text stop = none := by
  -- the induction is on the text ahead, of which every lexeme takes something
  induction hlength : (text.drop start).length using Nat.strongRecOn generalizing start with
  | ind n ih =>
      subst hlength
      rw [cut]
      split
      · next hnone => exact ⟨start, rfl, .nil, rfl, firstLexeme?_eq_none_iff.mp hnone⟩
      · next rule lexeme hsome =>
        have hfirst := firstLexeme?_isFirst hsome
        have hlt := hfirst.offset_lt_stop
        have hle := hfirst.stop_le_length
        rw [reverseAux_behind hfirst.isPrefix.1, List.drop_drop]
        simp only [Lexeme.stop] at hlt hle
        obtain ⟨stop, hstop, hcut, hrest, hnone⟩ := ih _ (by
          simp only [List.length_drop]; omega) (start + lexeme.length) rfl
        exact ⟨stop, by rw [hstop, charCount, Nat.add_assoc], .cons hfirst hcut, hrest, hnone⟩

/-- A session at the start of a source text, with any rules. -/
def Lexer.fresh (source : SourceText) (rules : List TokenRule) (aliases : Aliases) : Lexer where
  source := source
  rules := rules
  aliases := aliases
  pos := 0
  tokens := []

/-- A fresh session runs to a place where no rule has a lexeme. It succeeds where that is the end of
the text, and otherwise tells the character there. -/
theorem Lexer.tokenize_fresh (source : SourceText) (rules : List TokenRule) (aliases : Aliases) :
    ∃ lexemes stop, Segments rules source.text.toList 0 lexemes stop ∧
      (∀ rule ∈ rules, rule.lexemeAt? source.text.toList stop = none) ∧
      (fresh source rules aliases).tokenize.2 = { fresh source rules aliases with
        pos := stop, tokens := lexemes.filterMap Lexeme.token? } ∧
      (stop = source.text.toList.length ∧
          (fresh source rules aliases).tokenize.1 = .ok (lexemes.filterMap Lexeme.token?) ∨
        ∃ c, source.text.toList[stop]? = some c ∧
          (fresh source rules aliases).tokenize.1 = .error (errorAt source stop c)) := by
  obtain ⟨stop, hstop, hcut, hrest, hnone⟩ := cut_segments rules source.text.toList 0
  have hle := hcut.stop_le_length (Nat.zero_le _)
  refine ⟨_, stop, hcut, hnone, ?_, ?_⟩
  · simp only [tokenize, fresh, ← hstop, List.nil_append]
    split <;> rfl
  · simp only [tokenize, fresh, ← hstop, List.nil_append]
    split
    · next hend =>
      rw [hrest] at hend
      exact .inl ⟨Nat.le_antisymm hle (List.drop_eq_nil_iff.mp hend), rfl⟩
    · next c more hmore =>
      rw [hrest] at hmore
      exact .inr ⟨c, by rw [← List.head?_drop, hmore, List.head?_cons], rfl⟩

/-- The lexemes and tokens of a text that is cut from its start up to `stop`. -/
structure Partition (rules : List TokenRule) (text : List Char) (lexemes : List Lexeme)
    (tokens : List Token) (stop : Nat) : Prop where
  /-- The lexemes follow each other from the start, each the first that a rule has. -/
  segments : Segments rules text 0 lexemes stop
  /-- Every lexeme takes a character. -/
  nonempty : ∀ lexeme ∈ lexemes, lexeme.text ≠ []
  /-- The lexemes together are the text up to `stop`. -/
  joined : lexemes.flatMap Lexeme.text = text.take stop
  /-- The cut ends inside the text. -/
  stop_le : stop ≤ text.length
  /-- The tokens are the lexemes that are not dropped, in order. -/
  kept : tokens = lexemes.filterMap Lexeme.token?
  /-- A token is the piece of the text at its offset. -/
  token_text : ∀ token ∈ tokens,
    token.text.toList = (text.drop token.offset).take token.text.length
  /-- A token begins behind the tokens in front of it, and none of them reaches into it. -/
  ordered : tokens.Pairwise
    fun first second => first.offset < second.offset ∧ first.stop ≤ second.offset
  /-- What the tokens leave out is cut into lexemes that are dropped. -/
  dropped : ∀ gap ∈ gaps 0 stop tokens,
    ∃ dropped, dropped <:+: lexemes ∧ Segments.Dropped rules text gap dropped

theorem Segments.partition (h : Segments rules text 0 lexemes stop) :
    Partition rules text lexemes (lexemes.filterMap Lexeme.token?) stop where
  segments := h
  nonempty lexeme hmem := (h.of_mem lexeme hmem).1.isPrefix.2
  joined := by rw [h.flatMap_text, List.drop_zero]
  stop_le := h.stop_le_length (Nat.zero_le _)
  kept := rfl
  token_text _ hmem := (h.token_text hmem).1
  ordered := h.tokens_pairwise
  dropped := h.dropped_of_mem_gaps

/-- **A run of the lexer partitions the text it reads.** Whatever the rules are, a fresh session
cuts a front of its text into lexemes and keeps those as tokens that are not dropped. It succeeds
where that front is the whole text; otherwise it stops in front of the first character that no rule
accepts, tells that character and its offset, and keeps what it has. -/
theorem tokenize_partitions (source : SourceText) (rules : List TokenRule) (aliases : Aliases) :
    ∃ lexemes tokens stop, Partition rules source.text.toList lexemes tokens stop ∧
      (Lexer.fresh source rules aliases).tokenize.2 =
        { Lexer.fresh source rules aliases with pos := stop, tokens := tokens } ∧
      (stop = source.text.toList.length ∧
          (Lexer.fresh source rules aliases).tokenize.1 = .ok tokens ∨
        stop < source.text.toList.length ∧ ∃ error,
          (Lexer.fresh source rules aliases).tokenize.1 = .error error ∧ error.offset = stop ∧
          source.text.toList[stop]? = some error.char ∧
          ∀ rule ∈ rules, rule.lexemeAt? source.text.toList stop = none) := by
  obtain ⟨lexemes, stop, hcut, hnone, hafter, hend⟩ := Lexer.tokenize_fresh source rules aliases
  refine ⟨lexemes, _, stop, hcut.partition, hafter, ?_⟩
  rcases hend with ⟨hstop, hok⟩ | ⟨c, hc, herror⟩
  · exact .inl ⟨hstop, hok⟩
  · have hlt : stop < source.text.toList.length := (List.getElem?_eq_some_iff.mp hc).1
    exact .inr ⟨hlt, _, herror, rfl, hc, hnone⟩

end SharpSyntax
