import SharpSyntax.Proofs.Derivation
import SharpSyntax.Proofs.Meets

/-!
# What a derivation ends with

A semicolon ends a statement, a field, a signature, a using directive or a namespace for the rest of
the file. Of these only statements, directives and namespaces can stand at the end of a program: the
others are followed by a closing brace. Everything else ends with a token of its own.
-/

namespace SharpSyntax

open Grammar

variable {ts us : List Token} {token : Token}

/-- There is a last token, and it is no semicolon. -/
def EndsOpen (ts : List Token) : Prop :=
  ∃ token, ts.getLast? = some token ∧ token.isSymbol ";" = false

/-- There is a last token, and it is a semicolon. -/
def EndsClosed (ts : List Token) : Prop :=
  ∃ token, ts.getLast? = some token ∧ token.isSymbol ";" = true

namespace EndsOpen

theorem singleton (h : token.isSymbol ";" = false) : EndsOpen [token] := ⟨token, rfl, h⟩

/-- What stands in front of the last token does not matter. -/
theorem append (h : EndsOpen us) : EndsOpen (ts ++ us) := by
  obtain ⟨token, hlast, hopen⟩ := h
  exact ⟨token, by rw [List.getLast?_append, hlast, Option.some_or], hopen⟩

theorem cons (h : EndsOpen ts) : EndsOpen (token :: ts) := by
  rw [← List.singleton_append]
  exact h.append

/-- A token that is no semicolon may itself be the last one. -/
theorem cons_of_or (htoken : token.isSymbol ";" = false) (h : ts = [] ∨ EndsOpen ts) :
    EndsOpen (token :: ts) := by
  rcases h with rfl | h
  · exact singleton htoken
  · exact h.cons

/-- What may be missing at the end leaves the end in front of it. -/
theorem append_of_or (h : EndsOpen ts) (h' : us = [] ∨ EndsOpen us) : EndsOpen (ts ++ us) := by
  rcases h' with rfl | h'
  · rwa [List.append_nil]
  · exact h'.append

end EndsOpen

/-- Another symbol is no semicolon. -/
theorem isSemicolon_eq_false {other : String} (h : token.isSymbol other = true)
    (hne : other ≠ ";") : token.isSymbol ";" = false :=
  Token.isSymbol_eq_false h ";" hne

theorem isSemicolon_eq_false_of_kind {kind : Kind} (h : token.kind = kind) (hne : kind ≠ .symbol) :
    token.isSymbol ";" = false :=
  Token.isSymbol_eq_false_of_kind (by rw [h]; exact hne) ";"

theorem isSemicolon_eq_false_of_text (h : token.text ≠ ";") : token.isSymbol ";" = false := by
  rw [Token.isSymbol, decide_eq_false h, Bool.and_false]

/-- What is closed by another symbol does not end with a semicolon. -/
theorem EndsOpen.enclosed {opening closing : Token} {other : String}
    (hclose : closing.isSymbol other = true) (hne : other ≠ ";") :
    EndsOpen (opening :: (ts ++ [closing])) := by
  have hlast : EndsOpen [closing] := .singleton (isSemicolon_eq_false hclose hne)
  exact hlast.append.cons

namespace Derives

/-- The tail of a name is empty or ends with an identifier. -/
theorem NameTail.endsOpen {names : List Token} (h : NameTail ts names) :
    ts = [] ∨ EndsOpen ts := by
  induction h with
  | nil => exact .inl rfl
  | cons _ hname _ ih =>
      exact .inr (EndsOpen.cons_of_or (isSemicolon_eq_false_of_kind hname (by decide)) ih).cons

/-- A name ends with an identifier. -/
theorem Name.endsOpen {name : QualifiedName} (h : Name ts name) : EndsOpen ts := by
  obtain ⟨hhead, htail⟩ := h
  exact .cons_of_or (isSemicolon_eq_false_of_kind hhead (by decide)) htail.endsOpen

theorem Arguments.endsOpen {items : List Node} (h : Arguments ts items) : EndsOpen ts := by
  obtain ⟨_, _, hclose⟩ := h
  exact .enclosed hclose (by decide)

/-- The steps of a chain are none or end with a name, a bracket or a parenthesis. -/
theorem Chain.endsOpen : ∀ {body : List Access} {ts : List Token}, Chain ts body →
    ts = [] ∨ EndsOpen ts
  | [], _, h => by cases h; exact .inl rfl
  | _ :: body, _, h => by
      cases h with
      | member _ hname hmore =>
          have hname' := isSemicolon_eq_false_of_kind hname (by decide)
          exact .inr (EndsOpen.cons_of_or hname' hmore.endsOpen).cons
      | index _ _ hclose hmore =>
          have hclose' := isSemicolon_eq_false hclose (by decide)
          exact .inr (EndsOpen.cons_of_or hclose' hmore.endsOpen).append.cons
      | call harguments hmore => exact .inr (harguments.endsOpen.append_of_or hmore.endsOpen)

theorem Postfix.endsOpen {node : Node} (h : Postfix ts node) : EndsOpen ts := by
  cases h with
  | chain htarget hbody =>
      exact .cons_of_or (isSemicolon_eq_false_of_kind htarget (by decide)) hbody.endsOpen
  | postfixed _ hsign =>
      refine .append (.singleton ?_)
      rcases hsign with hsign | hsign
      · exact isSemicolon_eq_false hsign (by decide)
      · exact isSemicolon_eq_false hsign (by decide)

/-- An access chain begins with an identifier, whatever stands behind it. -/
theorem Postfix.head : ∀ {node : Node} {ts : List Token}, Postfix ts node →
    ∃ token, ts.head? = some token ∧ token.kind = Kind.identifier
  | .access _ _, _, h => by
      cases h with
      | chain htarget _ => exact ⟨_, rfl, htarget⟩
  | .postfixed _ argument, _, h => by
      cases h with
      | postfixed hargument _ =>
          obtain ⟨token, hfirst, hkind⟩ := hargument.head
          exact ⟨token, by rw [List.head?_append, hfirst, Option.some_or], hkind⟩

theorem Identifier.head {node : Node} (h : Identifier ts node) :
    ∃ token, ts.head? = some token ∧ token.kind = Kind.identifier := by
  cases h with
  | value hvalue => exact hvalue.head
  | assignment hleft _ _ =>
      obtain ⟨token, hfirst, hkind⟩ := hleft.head
      exact ⟨token, by rw [List.head?_append, hfirst, Option.some_or], hkind⟩

/-- A block ends with its closing brace. -/
theorem Block.endsOpen {nodes : List Node} (h : Block ts nodes) : EndsOpen ts := by
  obtain ⟨_, _, hclose⟩ := h
  exact .enclosed hclose (by decide)

/-- An `else` is missing or ends with the closing brace of a block. -/
theorem Else.endsOpen : ∀ {alternate : Alternate} {ts : List Token}, Else ts alternate →
    ts = [] ∨ EndsOpen ts
  | .none, _, h => by cases h; exact .inl rfl
  | .otherwise _, _, h => by cases h with | otherwise _ hbody => exact .inr hbody.endsOpen.cons
  | .elseIf _ _ alternate, _, h => by
      cases h with
      | elseIf _ _ _ hblock helse =>
          refine .inr (EndsOpen.cons (EndsOpen.cons ?_))
          exact hblock.endsOpen.append.append_of_or helse.endsOpen

theorem Members.endsOpen {inNamespace : Bool} {members : List Member}
    (h : Members inNamespace ts members) : EndsOpen ts := by
  obtain ⟨_, _, hclose⟩ := h
  exact .enclosed hclose (by decide)

theorem Class.endsOpen {mods : List String} {declaration : ClassDecl}
    (h : Class mods ts declaration) : EndsOpen ts := by
  obtain ⟨_, _, _, _, hmembers⟩ := h
  exact hmembers.endsOpen.append.cons.cons

/-- An operand that begins with neither of the words for directives and namespaces, nor with an
identifier, which a directive may be assigned to, does not end with a semicolon. -/
theorem Primary.endsOpen {node : Node} (h : Primary ts node)
    (hhead : ∀ token, ts.head? = some token → token.kind ≠ Kind.identifier ∧
      token.isKeyword "using" = false ∧ token.isKeyword "namespace" = false) : EndsOpen ts := by
  cases h with
  | literal hkind =>
      refine .singleton (Token.isSymbol_eq_false_of_kind (fun hsymbol => ?_) _)
      rw [hsymbol] at hkind
      exact absurd hkind (by decide)
  | template hkind => exact .singleton (isSemicolon_eq_false_of_kind hkind (by decide))
  | identifier hidentifier =>
      obtain ⟨token, hfirst, hkind⟩ := hidentifier.head
      exact absurd hkind (hhead token hfirst).1
  | parentheses _ _ hclose =>
      exact .enclosed hclose (by decide)
  | classDeclaration hclass => exact hclass.endsOpen
  | usingDirective husing =>
      cases husing with
      | mk hword _ _ => exact absurd hword (by rw [(hhead _ rfl).2.1]; decide)
  | fileNamespace hword _ _ => exact absurd hword (by rw [(hhead _ rfl).2.2]; decide)
  | namespaceBody _ _ hmembers => exact hmembers.endsOpen.append.cons
  | ifStatement _ _ hblock helse =>
      exact (hblock.endsOpen.append.append_of_or helse.endsOpen).cons
  | whileStatement _ _ hblock => exact hblock.endsOpen.append.cons

end Derives

end SharpSyntax
