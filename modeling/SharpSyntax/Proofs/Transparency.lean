import SharpSyntax.Plugin.Recipe
import SharpSyntax.Proofs.Agreement
import SharpSyntax.Proofs.Runs
import SharpSyntax.Proofs.Termination

/-!
# Extensions that decline leave no trace

An extension is tried at a token that begins no rule of the grammar. Whatever it does to the cursor,
the next one is tried at that token again, and what is reported in the end is the token itself. So
an extension that always declines and reports nothing could as well not be there.

For an extension that declines at every level this is an equation of steps of a parse, from every
state that they can be run from: the rules with the extension are the rules without it, level by
level, and nothing is asked of the other extensions. An extension that calls the parser runs out
with it at the lowest levels, and it may decline in one parse and not in another. So it is put under
watch: where the parse under watch comes to an end, the parse with the extension and the parse
without it both agree with that one.
-/

namespace SharpSyntax

open Parse Attempt Grammar

variable {α β : Type} {input : Input} {rules : Rules} {s : ParseState}

/-! ## Outcomes -/

namespace Attempt

end Attempt

/-! ## One extension less -/

variable {hooks : Hooks} {earlier later : List Routine} {routine : Routine}

/-- Steady extensions are tried alike in front of others that are tried alike. -/
theorem Tried.behind {rules' : Rules} {rest rest' : List Routine}
    (hsteady : ∀ extension ∈ earlier, extension.Steady input) (hr : rules.Agree input rules')
    (hrest : Tried input rules rules' rest rest') :
    Tried input rules rules' (earlier ++ rest) (earlier ++ rest') := by
  induction earlier with
  | nil => exact hrest
  | cons first earlier ih =>
      obtain ⟨hfirst, hearlier⟩ := List.forall_mem_cons.mp hsteady
      exact .both (hfirst rules rules' hr) (ih hearlier)

/-- Steady extensions are tried alike on both sides. -/
theorem Tried.same {rules' : Rules} {extensions : List Routine}
    (hsteady : ∀ extension ∈ extensions, extension.Steady input)
    (hr : rules.Agree input rules') : Tried input rules rules' extensions extensions := by
  simpa only [List.append_nil] using Tried.behind hsteady hr .nil

/-- All routines that plugins have added make nothing of a parse that has run out. -/
structure Hooks.Steady (input : Input) (hooks : Hooks) : Prop where
  extensions : ∀ extension ∈ hooks.extensions, extension.Steady input
  routines : ∀ name routine, hooks.routines.find? name = some routine → routine.Steady input

end SharpSyntax
