import SharpSyntax.Plugin.Recipe
import SharpSyntax.Proofs.CoupledGrammar

/-!
# Plugins leave accepted texts alone

A plugin whose token rules stand behind the built-in ones changes nothing about a text that the
frontend accepts without it. A rule that stands behind others is asked only where none of them has a
lexeme, and in such a text there is no such place. What a plugin adds to a parser is asked only
about a token that begins no rule of the grammar, and without plugins such a token is reported.

So the parses with and without plugins run side by side until the one without them reports
something. What the routines of the plugins do does not matter, because none of them is ever called.
-/

namespace SharpSyntax

open Parse Attempt Grammar

/-! ## Rules behind others -/

section Lexing

variable {rules : List TokenRule} {behind ahead : List Char} {offset : Nat}

theorem firstLexeme?_append {found : TokenRule × List Char} (extra : List TokenRule)
    (h : firstLexeme? rules behind ahead = some found) :
    firstLexeme? (rules ++ extra) behind ahead = some found := by
  unfold firstLexeme? at h ⊢
  rw [List.findSome?_append, h, Option.some_or]

/-- Where rules cut the whole text, rules behind them are never asked. -/
theorem cut_append_rules (extra : List TokenRule) (h : (cut rules offset behind ahead).2 = []) :
    cut (rules ++ extra) offset behind ahead = cut rules offset behind ahead := by
  -- the induction is on the text ahead, of which every lexeme takes something
  induction hlength : ahead.length using Nat.strongRecOn generalizing offset behind ahead with
  | ind n ih =>
      subst hlength
      cases hfirst : firstLexeme? rules behind ahead with
      | none =>
          rw [cut_of_none hfirst] at h
          obtain rfl : ahead = [] := h
          rw [cut_nil, cut_nil]
      | some found =>
          obtain ⟨rule, lexeme⟩ := found
          obtain ⟨hfront, hne⟩ := firstLexeme?_eq_some hfirst
          have hlt : (ahead.drop lexeme.length).length < ahead.length := by
            have hle := hfront.length_le
            have hpos := List.length_pos_iff.mpr hne
            rw [List.length_drop]
            omega
          rw [cut_of_some hfirst] at h
          rw [cut_of_some hfirst, cut_of_some (firstLexeme?_append extra hfirst),
            ih _ hlt h rfl]

end Lexing

namespace Lexer

/-- A lexer that has come from another one by adding rules behind its rules and giving names. -/
inductive Appended (lexer : Lexer) : Lexer → Prop
  | start : Appended lexer lexer
  | addRule {later next : Lexer} {rule : TokenRule} : Appended lexer later →
      later.addRule rule none = .ok next → Appended lexer next
  | setAlias {later : Lexer} {name : String} {kind : Kind} : Appended lexer later →
      Appended lexer (later.setAlias name kind)

namespace Appended

variable {lexer later last : Lexer}

theorem trans (h : lexer.Appended later) (h' : later.Appended last) : lexer.Appended last := by
  induction h' with
  | start => exact h
  | addRule _ hadd ih => exact ih.addRule hadd
  | setAlias _ ih => exact ih.setAlias

theorem exists_rules (h : lexer.Appended later) :
    ∃ extra aliases, later = { lexer with rules := lexer.rules ++ extra, aliases := aliases } := by
  induction h with
  | start => exact ⟨[], lexer.aliases, by rw [List.append_nil]⟩
  | addRule _ hadd ih =>
      obtain ⟨extra, aliases, rfl⟩ := ih
      cases hadd
      exact ⟨extra ++ [_], aliases, by rw [← List.append_assoc]⟩
  | setAlias _ ih =>
      obtain ⟨extra, aliases, rfl⟩ := ih
      exact ⟨extra, _, rfl⟩

/-- What a lexer cuts to the end is cut alike by one with rules behind its own. -/
theorem tokenize_eq (h : lexer.Appended later) {tokens : List Token}
    (hok : lexer.tokenize.1 = .ok tokens) : later.tokenize.1 = .ok tokens := by
  obtain ⟨extra, aliases, rfl⟩ := h.exists_rules
  unfold tokenize at hok ⊢
  dsimp only at hok ⊢
  split at hok
  · next hend =>
    rw [cut_append_rules extra hend, hend]
    exact hok
  · cases hok

end Appended

end Lexer

/-- What an extension does to a lexer is to add rules behind its rules and to give names. -/
def Extension.OnlyAppends (extension : Extension) : Prop :=
  ∀ change, extension.lex = some change →
    ∀ lexer, ∃ later, change lexer = .ok later ∧ lexer.Appended later

/-- All extensions of all plugins of a frontend only add rules behind others and give names. -/
def Frontend.OnlyAppends (frontend : Frontend) : Prop :=
  ∀ plugin ∈ frontend.plugins, ∀ extension ∈ plugin.extensions.values, extension.OnlyAppends

/-- Changes that each append to the lexer append to it one after the other. -/
theorem foldlM_appended {α : Type} {change : Lexer → α → Except HookError Lexer} {items : List α}
    (h : ∀ item ∈ items, ∀ lexer, ∃ later, change lexer item = .ok later ∧ lexer.Appended later)
    (lexer : Lexer) : ∃ later, items.foldlM change lexer = .ok later ∧ lexer.Appended later := by
  induction items generalizing lexer with
  | nil => exact ⟨lexer, rfl, .start⟩
  | cons item rest ih =>
      obtain ⟨next, hnext, happended⟩ := h item (by simp) lexer
      obtain ⟨later, hlater, happended'⟩ := ih (fun other hmem => h other (by simp [hmem])) next
      refine ⟨later, ?_, happended.trans happended'⟩
      rw [List.foldlM_cons, hnext]
      exact hlater

namespace Frontend

variable {frontend : Frontend} {source : SourceText} {tokens : List Token} {aliases : Aliases}

theorem lexer_appended (h : frontend.OnlyAppends) (source : SourceText) :
    ∃ later, frontend.lexer source = .ok later ∧ (Lexer.new source).Appended later := by
  refine foldlM_appended (fun plugin hplugin lexer => ?_) (Lexer.new source)
  refine foldlM_appended (fun extension hextension lexer => ?_) lexer
  cases hlex : extension.lex with
  | none => exact ⟨lexer, rfl, .start⟩
  | some change => exact h plugin hplugin extension hextension change hlex lexer

theorem tokens_appended (h : frontend.OnlyAppends)
    (htokens : Frontend.empty.tokens source = .ok (tokens, aliases)) :
    ∃ aliases', frontend.tokens source = .ok (tokens, aliases') := by
  obtain ⟨later, hlater, happended⟩ := lexer_appended h source
  refine ⟨later.aliases, ?_⟩
  rw [Frontend.tokens, show Frontend.empty.lexer source = .ok (Lexer.new source) from rfl]
    at htokens
  rw [Frontend.tokens, hlater]
  dsimp only at htokens ⊢
  split at htokens
  · cases htokens
  · next found hfound =>
    cases htokens
    rw [happended.tokenize_eq hfound]

end Frontend

/-! ## Parses side by side until something is reported -/

/-- An input beside itself, until something is reported about it. -/
def Coupling.untilReported (input : Input) : Coupling where
  first := input
  second := input
  shift := 0
  kept := id
  Reported d e := d = #[] ∧ e = #[]
  Lost d := d ≠ #[]
  size_le := Nat.le_refl _
  size_le_iff _ := Iff.rfl
  tokenAt_eq _ _ _ := rfl
  reported_size h := by rw [h.1, h.2]
  reported_back h _ _ := by rw [h.1, h.2]; rfl
  reported_push _ _ _ _ _ := .inl (by simp)
  lost_push x _ := by simp

/-- Without plugins, what begins no rule of the grammar is reported. -/
theorem hooks_couple_untilReported (input : Input) (hooks : Hooks) :
    Hooks.none.Couple (.untilReported input) hooks := by
  intro rules rules' _ t u _
  have hreports : ∀ {fault : Prop} {p d} {post : Option Node → ParseState → Prop},
      (∀ x, post none (.at p (d.push x))) →
      Parse.Meets fault input (extensionExpression .none rules t).run (.at p d) post := by
    intro fault p d post h
    rw [meets_run]
    simpa [extensionExpression, Hooks.none, firstExtension] using h _
  refine ⟨fun hl => hreports fun x => ?_, fun _ hd => hreports fun x => ?_⟩
  · exact ⟨⟨none, .none⟩, _, _, rfl, .inl (by simp [Coupling.untilReported])⟩
  · exact ⟨_, _, rfl, .inl ⟨⟨none, .none⟩, .inl (by simp [Coupling.untilReported])⟩⟩

/-- **Plugins leave accepted texts alone.** Where the plugins of a frontend add their token rules
behind the built-in ones, a text that the frontend without plugins parses without reporting anything
is cut into the same tokens and parsed to the same tree, without a report, whatever else the plugins
add to the lexer and the parser. -/
theorem appended_plugins_isolated {frontend : Frontend} (happends : frontend.OnlyAppends)
    {source : SourceText} {result : ParseResult}
    (hparse : Frontend.empty.parse source = .ok result) (hquiet : result.diagnostics = []) :
    frontend.parse source = .ok result ∧ frontend.lex source = Frontend.empty.lex source := by
  cases htokens : Frontend.empty.tokens source with
  | error error => rw [Frontend.parse, htokens] at hparse; cases hparse
  | ok found =>
      obtain ⟨tokens, aliases⟩ := found
      obtain ⟨aliases', htokens'⟩ := Frontend.tokens_appended happends htokens
      refine ⟨?_, by rw [Frontend.lex, Frontend.lex, htokens, htokens']; rfl⟩
      rw [Frontend.parse_eq htokens] at hparse
      split at hparse
      · next tree after hrun =>
        cases hparse
        let c := Coupling.untilReported (.ofTokens tokens source)
        have hfirst : (Frontend.empty.parser tokens source aliases).input = c.first := rfl
        have hsecond : (frontend.parser tokens source aliases').input = c.second := rfl
        have hcouple := hooks_couple_untilReported (.ofTokens tokens source)
          (frontend.parser tokens source aliases').hooks
        obtain ⟨q, d, rfl, hlost | ⟨tree', e, hrun', halike, -, rfl⟩⟩ :=
          Parser.run_program_couples hfirst hsecond hcouple (Nat.zero_le _) ⟨rfl, rfl⟩ hrun
        · exact absurd (Array.toList_eq_nil_iff.mp hquiet) hlost
        · have htree : tree.mapOffset id = tree'.mapOffset id := halike
          rw [Program.mapOffset_id, Program.mapOffset_id] at htree
          have hreports : d = #[] := Array.toList_eq_nil_iff.mp hquiet
          rw [Frontend.parse_of_run htokens' hrun', htree, hreports]
          rfl
      · cases hparse

/-- A plugin whose rule takes any character, and whose routines move the cursor, ask for a name that
nobody registered and make a node of nothing. -/
def unruly : Recipe.ExtensionRecipe where
  name := "unruly"
  rules := some [{ rule := { kind := ⟨"ANY"⟩, scanner := fun _ _ => some 1 }, before := none }]
  aliases := some [("id", ⟨"ANY"⟩)]
  behaviours := some [.skip, .routine "nobody", .stall "nothing"]

/-- A call, with a plugin that is fit for nothing. -/
theorem appended_plugins_isolated_unruly : ∃ result,
    Frontend.empty.parse (.ofText "a.b(1);" "main.cs") = .ok result ∧ result.diagnostics = [] ∧
    (Frontend.mk [Recipe.plugin [unruly]]).parse (.ofText "a.b(1);" "main.cs") = .ok result := by
  have happends : (Frontend.mk [Recipe.plugin [unruly]]).OnlyAppends := by
    intro plugin hplugin extension hextension change hchange lexer
    obtain rfl : plugin = Recipe.plugin [unruly] := List.mem_singleton.mp hplugin
    obtain rfl : extension = unruly.extension := List.mem_singleton.mp hextension
    obtain rfl : unruly.lex = change := Option.some.inj hchange
    exact ⟨_, rfl, .setAlias (.addRule .start rfl)⟩
  have hquiet : (Frontend.empty.parse (.ofText "a.b(1);" "main.cs")).toOption.any
      ParseResult.ok = true := by decide +kernel
  cases hparse : Frontend.empty.parse (.ofText "a.b(1);" "main.cs") with
  | error error => rw [hparse] at hquiet; cases hquiet
  | ok result =>
      rw [hparse] at hquiet
      have hnone : result.diagnostics = [] := List.isEmpty_iff.mp hquiet
      exact ⟨result, rfl, hnone, (appended_plugins_isolated happends hparse hnone).1⟩

end SharpSyntax
