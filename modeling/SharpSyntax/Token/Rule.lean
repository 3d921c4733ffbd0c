import SharpSyntax.Token.Scan

/-!
# Token rules

A rule gives a kind to the lexemes of a scanner and says whether they are dropped. The scanner of a
rule is asked at a place of a text and may look at what stands before that place; the built-in ones
look ahead only. Rules are tried in order and the first one with a lexeme wins, however long the
lexemes of later rules are. A rule that would take no character at all is passed over.
-/

namespace SharpSyntax

/-- The length of the lexeme at a place of a text, where `ahead` is the text from there on and
`behind` the text before it, the nearest character first. -/
abbrev ContextScanner := (behind ahead : List Char) → Option Nat

/-- A scanner that looks ahead only finds the same lexemes whatever stands behind. -/
def Scanner.anywhere (scanner : Scanner) : ContextScanner := fun _ ahead => scanner ahead

instance : Coe Scanner ContextScanner := ⟨Scanner.anywhere⟩

/-- A kind of token, how its lexemes are found, and whether they are dropped. -/
structure TokenRule where
  kind : Kind
  scanner : ContextScanner
  discard : Bool := false

namespace TokenRule

/-- The non-empty lexeme of a rule at a place of a text. -/
def lexeme? (rule : TokenRule) (behind ahead : List Char) : Option (List Char) :=
  match rule.scanner behind ahead with
  | none => none
  | some n => if (ahead.take n).isEmpty then none else some (ahead.take n)

/-- The built-in rules. Templates come before strings, and keywords before identifiers. -/
def builtin : List TokenRule := [
  { kind := .whitespace, scanner := Scan.blanks, discard := true },
  { kind := .lineComment, scanner := Scan.lineComment, discard := true },
  { kind := .blockComment, scanner := Scan.blockComment, discard := true },
  { kind := .template, scanner := Scan.template },
  { kind := .keyword, scanner := Scan.keyword },
  { kind := .identifier, scanner := Scan.identifier },
  { kind := .number, scanner := Scan.number },
  { kind := .string, scanner := Scan.string },
  { kind := .character, scanner := Scan.character },
  { kind := .symbol, scanner := Scan.symbol }]

end TokenRule

/-- The first rule with a lexeme at a place of a text, and that lexeme. -/
def firstLexeme? (rules : List TokenRule) (behind ahead : List Char) :
    Option (TokenRule × List Char) :=
  rules.findSome? fun rule => (rule.lexeme? behind ahead).map (rule, ·)

/-- A piece of source text with the rule that cut it. -/
structure Lexeme where
  rule : TokenRule
  text : List Char
  offset : Nat

/-- The token that a lexeme gives, if its rule keeps it. -/
def Lexeme.token? (lexeme : Lexeme) : Option Token :=
  if lexeme.rule.discard then none
  else some { kind := lexeme.rule.kind, text := String.ofList lexeme.text, offset := lexeme.offset }

/-- How many characters some lexemes have. -/
def charCount : List Lexeme → Nat
  | [] => 0
  | lexeme :: lexemes => lexeme.text.length + charCount lexemes

theorem TokenRule.lexeme?_eq_some {rule : TokenRule} {behind ahead lexeme : List Char}
    (h : rule.lexeme? behind ahead = some lexeme) : lexeme <+: ahead ∧ lexeme ≠ [] := by
  unfold TokenRule.lexeme? at h
  split at h
  · cases h
  · split at h
    · cases h
    next hne => cases h; exact ⟨List.take_prefix _ _, by simpa using hne⟩

theorem firstLexeme?_eq_some {rules : List TokenRule} {behind ahead lexeme : List Char}
    {rule : TokenRule} (h : firstLexeme? rules behind ahead = some (rule, lexeme)) :
    lexeme <+: ahead ∧ lexeme ≠ [] := by
  obtain ⟨found, _, hfound⟩ := List.exists_of_findSome?_eq_some h
  obtain ⟨taken, htaken, heq⟩ := Option.map_eq_some_iff.1 hfound
  cases heq
  exact TokenRule.lexeme?_eq_some htaken

/-- The text ahead cut into lexemes as far as the rules go, and what is left of it. -/
def cut (rules : List TokenRule) (offset : Nat) (behind ahead : List Char) :
    List Lexeme × List Char :=
  match _h : firstLexeme? rules behind ahead with
  | none => ([], ahead)
  | some (rule, lexeme) =>
    let more := cut rules (offset + lexeme.length) (lexeme.reverseAux behind)
      (ahead.drop lexeme.length)
    ({ rule := rule, text := lexeme, offset := offset } :: more.1, more.2)
termination_by ahead.length
decreasing_by
  obtain ⟨hfront, hne⟩ := firstLexeme?_eq_some _h
  have hle := hfront.length_le
  have hpos := List.length_pos_iff.2 hne
  simp only [List.length_drop]
  omega

theorem cut_of_none {rules : List TokenRule} {offset : Nat} {behind ahead : List Char}
    (h : firstLexeme? rules behind ahead = none) : cut rules offset behind ahead = ([], ahead) := by
  rw [cut]
  split
  · rfl
  · next hsome => rw [h] at hsome; cases hsome

theorem cut_of_some {rules : List TokenRule} {offset : Nat} {behind ahead lexeme : List Char}
    {rule : TokenRule} (h : firstLexeme? rules behind ahead = some (rule, lexeme)) :
    cut rules offset behind ahead =
      ({ rule := rule, text := lexeme, offset := offset } ::
          (cut rules (offset + lexeme.length) (lexeme.reverseAux behind)
            (ahead.drop lexeme.length)).1,
        (cut rules (offset + lexeme.length) (lexeme.reverseAux behind)
          (ahead.drop lexeme.length)).2) := by
  rw [cut]
  split
  · next hnone => rw [h] at hnone; cases hnone
  · next hsome =>
    rw [h] at hsome
    cases hsome
    rfl

theorem cut_nil (rules : List TokenRule) (offset : Nat) (behind : List Char) :
    cut rules offset behind [] = ([], []) := by
  refine cut_of_none (Option.eq_none_iff_forall_ne_some.mpr fun found hsome => ?_)
  obtain ⟨hfront, hne⟩ := firstLexeme?_eq_some hsome
  exact hne (List.prefix_nil.mp hfront)

end SharpSyntax
