import Mathlib.Logic.Function.Basic

/-!
# Step machines

A machine is a partial step function on labelled actions.  This file has the
rules that every concurrent model of the development uses.

* `Reach ok s t`: `t` comes after `s` by steps that all meet the guard `ok`.
  The guard is a predicate on the state before the step and the action, so a
  theorem about `Reach ok` is a theorem about every run whose steps all meet
  the guard.
* `Reach.invariant` is the induction over such a run.  `Trace` is a run that
  remembers the states it has gone through.
* `guardedRun` runs a list of actions and checks the guard on the way.
  `reach_of_guardedRun` turns a computed run into a `Reach`.
* `exists_reach_of_measure` gives the end of a deterministic loop: a step
  that is always enabled and always lowers a measure reaches the exit.

Nothing here is about a particular program.
-/

/-- A machine: a partial step function over labelled actions. -/
structure Machine (σ α : Type) where
  step : σ → α → Option σ

namespace Machine

variable {σ α : Type} (M : Machine σ α)

/-! ## Guarded runs -/

/-- `t` comes after `s` by steps that all meet `ok`. -/
inductive Reach (ok : σ → α → Prop) (s : σ) : σ → Prop
  | refl : Reach ok s s
  | tail {t u : σ} {a : α} (before : Reach ok s t) (guard : ok t a)
      (hstep : M.step t a = some u) : Reach ok s u

variable {M}

namespace Reach

variable {ok ok' : σ → α → Prop} {s t u : σ}

/-- One guarded step. -/
theorem single {a : α} (hok : ok s a) (hstep : M.step s a = some t) :
    M.Reach ok s t :=
  .tail .refl hok hstep

theorem trans (hst : M.Reach ok s t) (htu : M.Reach ok t u) :
    M.Reach ok s u := by
  induction htu with
  | refl => exact hst
  | tail _ hok hstep ih => exact .tail ih hok hstep

/-- A run under a strong guard is a run under a weak guard. -/
theorem mono (himp : ∀ s a, ok s a → ok' s a) (h : M.Reach ok s t) :
    M.Reach ok' s t := by
  induction h with
  | refl => exact .refl
  | tail _ hok hstep ih => exact .tail ih (himp _ _ hok) hstep

/-- The invariant rule: what holds at the start and is kept by every guarded
step holds at the end. -/
theorem invariant {I : σ → Prop} (h : M.Reach ok s t) (hstart : I s)
    (hkeep : ∀ t a u, I t → ok t a → M.step t a = some u → I u) : I t := by
  induction h with
  | refl => exact hstart
  | tail _ hok hstep ih => exact hkeep _ _ _ ih hok hstep

/-- The invariant rule with the run so far at hand: the step case may use
that the state before the step was itself reached. -/
theorem invariant_of_reach {I : σ → Prop} (h : M.Reach ok s t) (hstart : I s)
    (hkeep : ∀ t a u, M.Reach ok s t → I t → ok t a → M.step t a = some u → I u) :
    I t := by
  induction h with
  | refl => exact hstart
  | tail hbefore hok hstep ih => exact hkeep _ _ _ hbefore ih hok hstep

/-- A property that every guarded step implies may be added to the guard,
as soon as it follows from an invariant of the run. -/
theorem strengthen {I : σ → Prop} (h : M.Reach ok s t) (hstart : I s)
    (hkeep : ∀ t a u, I t → ok t a → M.step t a = some u → I u)
    (himp : ∀ t a, I t → ok t a → ok' t a) : M.Reach ok' s t := by
  induction h with
  | refl => exact .refl
  | tail hbefore hok hstep ih =>
    exact .tail ih (himp _ _ (hbefore.invariant hstart hkeep) hok) hstep

end Reach

/-! ## Runs with the states on the way -/

/-- A guarded run from `s` that has gone through the listed states, the first
and the last one included. -/
inductive Trace (M : Machine σ α) (ok : σ → α → Prop) (s : σ) :
    List σ → σ → Prop
  | start : Trace M ok s [s] s
  | tail {us : List σ} {t u : σ} {a : α} (before : Trace M ok s us t)
      (guard : ok t a) (hstep : M.step t a = some u) :
      Trace M ok s (us ++ [u]) u

namespace Trace

variable {ok : σ → α → Prop} {s t : σ} {us : List σ}

theorem reach (h : M.Trace ok s us t) : M.Reach ok s t := by
  induction h with
  | start => exact .refl
  | tail _ hok hstep ih => exact .tail ih hok hstep

theorem last_mem (h : M.Trace ok s us t) : t ∈ us := by
  cases h <;> simp

/-- The invariant rule for a property of the run so far. -/
theorem invariant {I : List σ → σ → Prop} (h : M.Trace ok s us t)
    (hstart : I [s] s)
    (hkeep : ∀ us t a u, M.Trace ok s us t → I us t → ok t a →
      M.step t a = some u → I (us ++ [u]) u) : I us t := by
  induction h with
  | start => exact hstart
  | tail hbefore hok hstep ih => exact hkeep _ _ _ _ hbefore ih hok hstep

/-- A property that every guarded step implies may be added to the guard, as soon as it
follows from an invariant of the run. -/
theorem strengthen {ok' : σ → α → Prop} {I : σ → Prop} (h : M.Trace ok s us t) (hstart : I s)
    (hkeep : ∀ t a u, I t → ok t a → M.step t a = some u → I u)
    (himp : ∀ t a, I t → ok t a → ok' t a) : M.Trace ok' s us t := by
  induction h with
  | start => exact .start
  | tail hbefore hok hstep ih =>
    exact .tail ih (himp _ _ (hbefore.reach.invariant hstart hkeep) hok) hstep

end Trace

/-! ## Computed runs -/

/-- Runs a list of actions.  The run stops with `none` at the first action
that is not enabled or does not meet the guard. -/
def guardedRun (M : Machine σ α) (ok : σ → α → Prop)
    [∀ s a, Decidable (ok s a)] : σ → List α → Option σ
  | s, [] => some s
  | s, a :: as =>
    if ok s a then (M.step s a).bind fun t => guardedRun M ok t as else none

/-- A computed run reaches its last state. -/
theorem reach_of_guardedRun {ok : σ → α → Prop} [∀ s a, Decidable (ok s a)]
    {s t : σ} {as : List α} (h : M.guardedRun ok s as = some t) :
    M.Reach ok s t := by
  induction as generalizing s with
  | nil =>
    cases h
    exact .refl
  | cons a as ih =>
    simp only [guardedRun] at h
    split at h
    · rename_i hok
      obtain ⟨u, hstep, hrest⟩ := Option.bind_eq_some_iff.mp h
      exact (Reach.single hok hstep).trans (ih hrest)
    · cases h

/-- A computed run whose last state has `p` reaches a state that has `p`. -/
theorem exists_reach_of_guardedRun (M : Machine σ α) (ok : σ → α → Prop)
    [∀ s a, Decidable (ok s a)] (s : σ) (as : List α) (p : σ → Prop)
    [DecidablePred p]
    (h : (M.guardedRun ok s as).any (fun t => p t) = true) :
    ∃ t, M.Reach ok s t ∧ p t := by
  obtain ⟨t, hrun, hp⟩ := (Option.any_eq_true _ _).mp h
  exact ⟨t, reach_of_guardedRun hrun, of_decide_eq_true hp⟩

/-- Runs a list of actions after a run through `us` to `s`. -/
def guardedTrace (M : Machine σ α) (ok : σ → α → Prop)
    [∀ s a, Decidable (ok s a)] :
    List σ → σ → List α → Option (List σ × σ)
  | us, s, [] => some (us, s)
  | us, s, a :: as =>
    if ok s a then
      (M.step s a).bind fun t => guardedTrace M ok (us ++ [t]) t as
    else none

theorem trace_of_guardedTrace {ok : σ → α → Prop}
    [∀ s a, Decidable (ok s a)] {s t u : σ} {us vs : List σ} {as : List α}
    (hbefore : M.Trace ok s us t)
    (h : M.guardedTrace ok us t as = some (vs, u)) : M.Trace ok s vs u := by
  induction as generalizing us t with
  | nil =>
    cases h
    exact hbefore
  | cons a as ih =>
    simp only [guardedTrace] at h
    split at h
    · rename_i hok
      obtain ⟨w, hstep, hrest⟩ := Option.bind_eq_some_iff.mp h
      exact ih (.tail hbefore hok hstep) hrest
    · cases h

/-- A computed run after a computed run: the first one reaches the state at
which the second one starts. -/
theorem exists_trace_of_guardedTrace (M : Machine σ α)
    (ok ok' : σ → α → Prop) [∀ s a, Decidable (ok s a)]
    [∀ s a, Decidable (ok' s a)] (s : σ) (as bs : List α)
    (p : σ → List σ → σ → Prop) [∀ t us u, Decidable (p t us u)]
    (h : ((M.guardedRun ok s as).any fun t =>
      (M.guardedTrace ok' [t] t bs).any fun r => p t r.1 r.2) = true) :
    ∃ t us u, M.Reach ok s t ∧ M.Trace ok' t us u ∧ p t us u := by
  obtain ⟨t, hrun, ht⟩ := (Option.any_eq_true _ _).mp h
  obtain ⟨⟨us, u⟩, htrace, hp⟩ := (Option.any_eq_true _ _).mp ht
  exact ⟨t, us, u, reach_of_guardedRun hrun,
    trace_of_guardedTrace .start htrace, of_decide_eq_true hp⟩

/-! ## Loops that end -/

/-- A loop that is always enabled and always lowers a measure reaches its
exit, and keeps its invariant on the way. -/
theorem exists_reach_of_measure {ok : σ → α → Prop} {I done : σ → Prop}
    (measure : σ → Nat)
    (hnext : ∀ s, I s → ¬done s →
      ∃ a t, ok s a ∧ M.step s a = some t ∧ I t ∧ measure t < measure s)
    {s : σ} (hI : I s) : ∃ t, M.Reach ok s t ∧ I t ∧ done t := by
  by_cases hdone : done s
  · exact ⟨s, .refl, hI, hdone⟩
  · obtain ⟨a, t, hok, hstep, hIt, hlt⟩ := hnext s hI hdone
    obtain ⟨u, htu, hIu, hdu⟩ := exists_reach_of_measure measure hnext hIt
    exact ⟨u, (Reach.single hok hstep).trans htu, hIu, hdu⟩
termination_by measure s

end Machine
