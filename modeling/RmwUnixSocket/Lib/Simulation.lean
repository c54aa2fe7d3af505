import Mathlib.Data.List.Forall2
import RmwUnixSocket.Lib.Machine

/-!
# Simulation of machines

`Trace.simulate` is the rule for a refinement between two machines: when every guarded
step of the first is a step of the second, or none, then a run of the first is a run of
the second, state by state.  `stuttering` is the second machine with the step that does
nothing.
-/

namespace Machine

variable {σ α τ β : Type}

/-- The machine that may also stay where it is. -/
def stuttering (N : Machine τ β) : Machine τ (Option β) where
  step d
    | some b => N.step d b
    | none => some d

/-- The simulation rule.  `R` is kept by every guarded step, with a step of the other
machine or without. -/
theorem Trace.simulate {M : Machine σ α} {N : Machine τ β} {ok : σ → α → Prop}
    {R : σ → τ → Prop} {s t : σ} {us : List σ} {d : τ} (h : M.Trace ok s us t)
    (hstart : R s d)
    (hstep : ∀ t a u d, R t d → ok t a → M.step t a = some u →
      ∃ d', (d' = d ∨ ∃ b, N.step d b = some d') ∧ R u d') :
    ∃ ds d', N.stuttering.Trace (fun _ _ => True) d ds d' ∧ List.Forall₂ R us ds ∧
      R t d' := by
  induction h with
  | start => exact ⟨[d], d, .start, .cons hstart .nil, hstart⟩
  | tail _ hok hmove ih =>
    obtain ⟨ds, e, hrun, hall, he⟩ := ih
    obtain ⟨e', hmatch, he'⟩ := hstep _ _ _ e he hok hmove
    have hmove' : ∃ b, N.stuttering.step e b = some e' := by
      obtain rfl | ⟨b, hb⟩ := hmatch
      · exact ⟨none, rfl⟩
      · exact ⟨some b, hb⟩
    obtain ⟨b, hb⟩ := hmove'
    exact ⟨ds ++ [e'], e', .tail hrun trivial hb, List.rel_append hall (.cons he' .nil), he'⟩

end Machine
