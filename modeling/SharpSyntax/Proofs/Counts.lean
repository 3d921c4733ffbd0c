import SharpSyntax.Proofs.Braces

/-!
# What a method body counts

A method body counts the braces at which its statements begin. A statement that begins at no brace
is not counted, so that the count is right as long as such statements end at the level they began
at. They never end below it. So the body never goes past the closing brace that matches its own, and
it ends there just if all of its statements are even; one that is not has stepped over an opening
brace in one of the bodies within it, where it has reported something.
-/

namespace SharpSyntax

open Parse Attempt Grammar

variable {input : Input} {rules : Rules} {p q r : Nat} {d e f : Array Diagnostic}

namespace StatementRun

/-- The statement begins at a brace, which a method body counts, or it ends at the level that it
began at. -/
def Even (input : Input) (run : StatementRun) : Prop :=
  (input.tokenAt run.start.cursor.toNat).IsBrace ∨
    input.level run.stop.cursor.toNat = input.level run.start.cursor.toNat

/-- Behind its first token the statement has stepped over an opening brace, with a report at it. -/
def SkipsBrace (input : Input) (run : StatementRun) : Prop :=
  input.Blames run.start.past run.stop

end StatementRun

/-- What a statement between two places does to the level less the depth that a method body has
counted. If it is even, nothing. -/
structure Input.Steps (input : Input) (depth p : Nat) (d : Array Diagnostic) (depth' q : Nat)
    (e : Array Diagnostic) (run : StatementRun) : Prop where
  le : p ≤ q
  reports : Extends d e
  /-- The level stays above that in front of the body. -/
  above : ∀ r, p ≤ r → r ≤ q → input.level p - depth < input.level r
  /-- The statement never takes more closing braces than opening ones that were not counted. -/
  rises : input.level p - depth ≤ input.level q - depth'
  even : input.level q - depth' = input.level p - depth ↔ run.Even input
  uneven : run.Even input ∨ input.size ≤ q ∨ run.SkipsBrace input

/-- The statements of a method body from a place on, where it has counted a depth: they stand one
behind the other up to a closing brace or the end of the input, the level never comes down to where
the body began, and at the closing brace it is one above that if all statements are even. -/
structure Input.Counts (input : Input) (rules : Rules) (depth p : Nat) (d : Array Diagnostic)
    (runs : List StatementRun) (q : Nat) (e : Array Diagnostic) : Prop where
  statements : Statements input rules [openBrace, closeBrace] (.at p d) runs (.at q e)
  le : p ≤ q
  reports : Extends d e
  above : ∀ r, p ≤ r → r ≤ q → input.level p - depth < input.level r
  uneven : ∀ run ∈ runs, run.Even input ∨ input.size ≤ q ∨
    run.SkipsBrace input ∧ input.Blames (.at p d) (.at q e)
  closed : input.size ≤ q ∨ (input.tokenAt q).isSymbol closeBrace = true ∧
    (input.level q = input.level p - depth + 1 ↔ ∀ run ∈ runs, run.Even input)

namespace Input.Steps

variable {nodes : List Node} {depth : Nat}

/-- A brace at which a statement begins is counted. -/
theorem brace {x : Diagnostic} (hbrace : (input.tokenAt p).IsBrace) (hdepth : 1 ≤ depth)
    (hstay : ¬ ((input.tokenAt p).isSymbol closeBrace = true ∧ depth = 1)) :
    input.Steps depth p d ((input.tokenAt p).depthBehind depth) (p + 1) (d.push x)
      ⟨.at p d, nodes, .at (p + 1) (d.push x)⟩ := by
  have heven : StatementRun.Even input ⟨.at p d, nodes, .at (p + 1) (d.push x)⟩ := .inl hbrace
  have hcount : input.level (p + 1) - ((input.tokenAt p).depthBehind depth : Nat) =
      input.level p - depth ∧ input.level p - depth < input.level (p + 1) := by
    rcases hbrace with hopen | hclose
    · rw [Token.depthBehind_open hopen, level_open hopen]
      omega
    · have hdeep : depth ≠ 1 := fun h => hstay ⟨hclose, h⟩
      rw [Token.depthBehind_close hclose, level_close hclose]
      omega
  exact {
    le := Nat.le_succ p
    reports := .push (.refl d) x
    above := by
      intro r hpr hrp
      obtain rfl | rfl : r = p ∨ r = p + 1 := by omega
      · omega
      · exact hcount.2
    rises := Int.le_of_eq hcount.1.symm
    even := ⟨fun _ => heven, fun _ => hcount.1⟩
    uneven := .inl heven }

/-- A statement that begins at no brace leaves the count. -/
theorem flat (hkeeps : input.Keeps p d q e) (hflat : ¬ (input.tokenAt p).IsBrace)
    (hdepth : 1 ≤ depth) :
    input.Steps depth p d ((input.tokenAt p).depthBehind depth) q e
      ⟨.at p d, nodes, .at q e⟩ := by
  rw [Token.depthBehind_other (by simpa using fun h => hflat (.inl h))
    (by simpa using fun h => hflat (.inr h))]
  have heven : StatementRun.Even input ⟨.at p d, nodes, .at q e⟩ ↔
      input.level q = input.level p := or_iff_right hflat
  have hq := hkeeps.above q hkeeps.le (Nat.le_refl q)
  exact {
    le := hkeeps.le
    reports := hkeeps.reports
    above := by
      intro r hpr hrq
      have hr := hkeeps.above r hpr hrq
      omega
    rises := by omega
    even := by rw [heven]; omega
    uneven := by
      refine hkeeps.even.imp heven.mpr (Or.imp_right ?_)
      rintro ⟨new, x, i, hnew, hx, hpi, hiq, hopen, hoffset⟩
      -- the token that the statement began at is no brace
      have hne : i ≠ p := by
        rintro rfl
        exact hflat (.inl hopen)
      have hlt : p < i := Nat.lt_of_le_of_ne (Int.ofNat_le.mp hpi) (Ne.symm hne)
      exact ⟨new, x, i, hnew, hx, Int.ofNat_le.mpr hlt, hiq, hopen, hoffset⟩ }

end Input.Steps

namespace Input.Counts

variable {nodes : List Node} {runs : List StatementRun} {depth depth' : Nat}

theorem nil (hdepth : 1 ≤ depth) (h : input.size ≤ p ∨
    (input.tokenAt p).isSymbol closeBrace = true ∧ depth = 1) :
    input.Counts rules depth p d [] p d where
  statements := .nil
  le := Nat.le_refl p
  reports := .refl d
  above r hpr hrp := by
    obtain rfl := Nat.le_antisymm hrp hpr
    omega
  uneven := nofun
  closed := by
    refine h.imp_right fun ⟨hclose, hone⟩ => ⟨hclose, iff_of_true ?_ nofun⟩
    omega

theorem cons (hrun : ((statement rules [openBrace, closeBrace]).run input).run (.at p d) =
      .ok nodes (.at q e))
    (hstep : input.Steps depth p d depth' q e ⟨.at p d, nodes, .at q e⟩)
    (hrest : input.Counts rules depth' q e runs r f) :
    input.Counts rules depth p d (⟨.at p d, nodes, .at q e⟩ :: runs) r f := by
  have hr := hrest.above r hrest.le (Nat.le_refl r)
  have hrises := hstep.rises
  exact {
    statements := .cons hrun hrest.statements
    le := Nat.le_trans hstep.le hrest.le
    reports := hstep.reports.trans hrest.reports
    above := by
      intro k hpk hkr
      rcases Nat.le_total k q with hkq | hqk
      · exact hstep.above k hpk hkq
      · have hk := hrest.above k hqk hkr
        omega
    uneven := by
      have hpq : (p : Int) ≤ q := Int.ofNat_le.mpr hstep.le
      have hqr : (q : Int) ≤ r := Int.ofNat_le.mpr hrest.le
      refine List.forall_mem_cons.mpr ⟨?_, fun run hmem => ?_⟩
      · refine hstep.uneven.imp_right (Or.imp (fun h => Nat.le_trans h hrest.le) fun h => ⟨h, ?_⟩)
        exact h.mono (Int.le_add_one (Int.le_refl _)) hqr (.refl d) hrest.reports
      · refine (hrest.uneven run hmem).imp_right (Or.imp_right fun ⟨hskips, h⟩ => ⟨hskips, ?_⟩)
        exact h.mono hpq (Int.le_refl _) hstep.reports (.refl f)
    closed := by
      refine hrest.closed.imp_right fun ⟨hclose, hlevel⟩ => ⟨hclose, ?_⟩
      -- the level at the end is as low as it can be only if no statement has raised it
      rw [List.forall_mem_cons, ← hlevel, ← hstep.even]
      omega }

/-- A body in which the level is not brought back has stepped over an opening brace. -/
theorem keeps (h : input.Counts rules 1 p d runs q e) : input.Keeps p d q e where
  le := h.le
  reports := h.reports
  above r hpr hrq := by
    have hr := h.above r hpr hrq
    omega
  even := by
    by_cases hall : ∀ run ∈ runs, run.Even input
    · rcases h.closed with hend | ⟨-, hlevel⟩
      · exact .inr (.inl hend)
      · have hq := hlevel.mpr hall
        exact .inl (by omega)
    · obtain ⟨run, hmem, huneven⟩ : ∃ run ∈ runs, ¬ run.Even input := by simpa using hall
      exact .inr (((h.uneven run hmem).resolve_left huneven).imp_right And.right)

end Input.Counts

end SharpSyntax
