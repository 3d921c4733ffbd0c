import SharpSyntax.Proofs.Segments
import SharpSyntax.Token.Shape

/-!
# Going on is starting over

A session may be run, given more rules and run again, any number of times. A run that stops at a
character keeps the tokens in front of it, and the next run goes on from there, under more rules
than those the tokens were cut with.

That makes no difference as long as rules are added behind the others. What a session has cut is
always what its rules of the moment cut from the start: a rule behind others is only asked where
none of them has a lexeme, and every place that was passed has one. So a run that goes on ends as
the run of a session that was given all the rules before its first run.
-/

namespace SharpSyntax

variable {rules : List TokenRule} {text : List Char} {start stop : Nat}
  {lexemes : List Lexeme}

/-! ## Rules behind others -/

/-- The first lexeme at a place stays the first when rules are added behind. -/
theorem Lexeme.IsFirst.append_rules {lexeme : Lexeme} (h : lexeme.IsFirst rules text)
    (extra : List TokenRule) : lexeme.IsFirst (rules ++ extra) text := by
  obtain ⟨earlier, later, hrules, hfound, hearlier⟩ := h
  refine ⟨earlier, later ++ extra, ?_, hfound, hearlier⟩
  rw [hrules, List.append_assoc, List.cons_append]

theorem Segments.append_rules (h : Segments rules text start lexemes stop)
    (extra : List TokenRule) : Segments (rules ++ extra) text start lexemes stop := by
  induction h with
  | nil => exact .nil
  | cons hfirst _ ih => exact .cons (hfirst.append_rules extra) ih

/-! ## Cutting goes on where it left off -/

theorem Lexeme.IsFirst.firstLexeme? {lexeme : Lexeme} (h : lexeme.IsFirst rules text) :
    firstLexeme? rules (text.take lexeme.offset).reverse (text.drop lexeme.offset) =
      some (lexeme.rule, lexeme.text) := by
  obtain ⟨earlier, later, hrules, hfound, hearlier⟩ := h
  rw [TokenRule.lexemeAt?] at hfound
  refine List.findSome?_eq_some_iff.mpr ⟨earlier, lexeme.rule, later, hrules, ?_, ?_⟩
  · rw [hfound, Option.map_some]
  · exact fun rule hmem => Option.map_eq_none_iff.mpr (hearlier rule hmem)

/-- What is cut from `start` on are the segments up to `stop` and what is cut from there on. -/
theorem Segments.cut_eq (h : Segments rules text start lexemes stop) :
    cut rules start (text.take start).reverse (text.drop start) =
      (lexemes ++ (cut rules stop (text.take stop).reverse (text.drop stop)).1,
        (cut rules stop (text.take stop).reverse (text.drop stop)).2) := by
  induction h with
  | nil => rw [List.nil_append]
  | @cons lexeme more stop hfirst _ ih =>
      rw [cut_of_some hfirst.firstLexeme?, reverseAux_behind hfirst.isPrefix.1, List.drop_drop,
        ← Lexeme.stop, ih, List.cons_append]

theorem Segments.stop_eq (h : Segments rules text start lexemes stop) :
    stop = start + charCount lexemes := by
  induction h with
  | nil => rfl
  | @cons lexeme more stop _ _ ih => rw [ih, charCount, Lexeme.stop, Nat.add_assoc]

theorem charCount_append (lexemes more : List Lexeme) :
    charCount (lexemes ++ more) = charCount lexemes + charCount more := by
  induction lexemes with
  | nil => rw [List.nil_append, charCount, Nat.zero_add]
  | cons lexeme lexemes ih => rw [List.cons_append, charCount, charCount, ih, Nat.add_assoc]

/-! ## Sessions -/

namespace Lexer

variable {source : SourceText} {aliases : Aliases} {lexer next : Lexer}

/-- What can be done with a session: a rule is added behind its rules, or it is run. -/
inductive Step where
  | addRule (rule : TokenRule)
  | run

/-- The rule that a step adds. -/
def Step.rule? : Step → Option TokenRule
  | addRule rule => some rule
  | run => none

/-- The session after a step. A run leaves it with the tokens it has, however it ended. -/
def perform (lexer : Lexer) : Step → Except NoSuchRule Lexer
  | .addRule rule => lexer.addRule rule none
  | .run => .ok lexer.tokenize.2

/-- The session has cut a front of its text, and has cut it as its rules cut it from the start. -/
def CaughtUp (source : SourceText) (rules : List TokenRule) (aliases : Aliases)
    (lexer : Lexer) : Prop :=
  ∃ lexemes stop, Segments rules source.text.toList 0 lexemes stop ∧
    lexer = { fresh source rules aliases with
      pos := stop, tokens := lexemes.filterMap Lexeme.token? }

theorem CaughtUp.fresh : CaughtUp source rules aliases (fresh source rules aliases) :=
  ⟨[], 0, .nil, rfl⟩

theorem CaughtUp.addRule (h : CaughtUp source rules aliases lexer) (rule : TokenRule) :
    ∃ next, lexer.addRule rule none = .ok next ∧
      CaughtUp source (rules ++ [rule]) aliases next := by
  obtain ⟨lexemes, stop, hcut, rfl⟩ := h
  exact ⟨_, rfl, lexemes, stop, hcut.append_rules [rule], rfl⟩

/-- A run that goes on ends as one that starts over. -/
theorem CaughtUp.tokenize_eq (h : CaughtUp source rules aliases lexer) :
    lexer.tokenize = (Lexer.fresh source rules aliases).tokenize := by
  obtain ⟨lexemes, stop, hcut, rfl⟩ := h
  have hstart : cut rules 0 [] source.text.toList = _ := hcut.cut_eq
  simp only [tokenize, Lexer.fresh, List.take_zero, List.reverse_nil, List.drop_zero, hstart,
    charCount_append, List.filterMap_append, List.nil_append, ← Nat.add_assoc, ← hcut.stop_eq]

theorem CaughtUp.run (h : CaughtUp source rules aliases lexer) :
    CaughtUp source rules aliases lexer.tokenize.2 := by
  obtain ⟨lexemes, stop, hcut, -, hafter, -⟩ := tokenize_fresh source rules aliases
  exact ⟨lexemes, stop, hcut, by rw [h.tokenize_eq, hafter]⟩

/-- No step fails, and a session that has caught up stays so. -/
theorem CaughtUp.foldlM_perform (steps : List Step) (h : CaughtUp source rules aliases lexer) :
    ∃ last, steps.foldlM perform lexer = .ok last ∧
      CaughtUp source (rules ++ steps.filterMap Step.rule?) aliases last := by
  induction steps generalizing lexer rules with
  | nil => exact ⟨lexer, rfl, by rwa [List.filterMap_nil, List.append_nil]⟩
  | cons step steps ih =>
      cases step with
      | run => exact ih h.run
      | addRule rule =>
          obtain ⟨next, hnext, hcaught⟩ := h.addRule rule
          obtain ⟨last, hlast, hcaught'⟩ := ih hcaught
          refine ⟨last, ?_, ?_⟩
          · rw [List.foldlM_cons, perform, hnext]
            exact hlast
          · rwa [List.append_assoc] at hcaught'

/-- A session that has not been run only takes the rules. -/
theorem foldlM_addRule_fresh (added : List TokenRule) :
    added.foldlM (fun lexer rule => lexer.addRule rule none) (fresh source rules aliases) =
      .ok (fresh source (rules ++ added) aliases) := by
  induction added generalizing rules with
  | nil => rw [List.append_nil]; rfl
  | cons rule added ih => rw [List.append_cons]; exact ih

/-- **Going on is starting over.** Whatever rules a session was given behind the others, and however
often and with whatever outcome it was run in between, its next run gives what the first run of a
session gives that was handed the same rules in the same order: the same tokens, or the same error
at the same offset, and it keeps the same tokens and comes to the same place. -/
theorem resumed_tokenize_eq (source : SourceText) (steps : List Step) :
    ∃ session unrun, steps.foldlM perform (new source) = .ok session ∧
      (steps.filterMap Step.rule?).foldlM (fun lexer rule => lexer.addRule rule none)
        (new source) = .ok unrun ∧
      session.tokenize = unrun.tokenize := by
  have hnew : CaughtUp source TokenRule.builtin .builtin (new source) := .fresh
  obtain ⟨session, hsession, hcaught⟩ := hnew.foldlM_perform steps
  exact ⟨session, _, hsession, foldlM_addRule_fresh _, hcaught.tokenize_eq⟩

/-- A text that is only cut to its end when the second of two rules has come. -/
example : ([.run, .addRule { kind := ⟨"TICK"⟩, scanner := Scan.single '\x60' }, .run, .run,
      .addRule { kind := ⟨"AT"⟩, scanner := Scan.single '@', discard := true }].foldlM perform
      (new (.ofText "a\x60@b" "main.cs"))).toOption.map (fun lexer => lexer.tokenize.1.toOption) =
    some (some [⟨.identifier, "a", 0⟩, ⟨⟨"TICK"⟩, "\x60", 1⟩, ⟨.identifier, "b", 3⟩]) := by
  decide +kernel

end Lexer

end SharpSyntax
