import RmwUnixSocket.Graph.Introspect

/-!
# The throttle of the sweeps

A call of `rmw_graph.cpp` sweeps the registry only if the last sweep of its
context is a second or more ago, and only if no other thread gets ahead of it.
The stamp of a sweep is the clock that its thread has read before it, so two
sweeps may begin closer together than their stamps.  What is bounded is their
number: each one moves the stamp on by the interval at least, and the stamp is
never in the future.
-/

namespace RmwUnixSocket.Graph.Introspect

variable {P T : Type}

/-- What the throttle knows of a thread.  A thread that has gone through it has
found a stamp less than the interval before its reading of the clock, or
somebody has begun a sweep since that reading. -/
def ThrottleOk (s : State P T) : CallPc → Prop
  | .clocked _ _ clock before => clock ≤ s.now ∧ before ≤ s.sweeps
  | .due _ _ clock last before => clock ≤ s.now ∧ before ≤ s.sweeps ∧
      cleanupMinIntervalNs ≤ clock - last ∧ (s.lastCleanupNs = last ∨ before < s.sweeps)
  | .sweep _ _ clock before => clock - s.lastCleanupNs < cleanupMinIntervalNs ∨
      before < s.sweeps
  | .vetted _ _ clock before => clock - s.lastCleanupNs < cleanupMinIntervalNs ∨
      before < s.sweeps
  | _ => True

/-- The stamp is not in the future, and the threads are where they should be. -/
structure Throttle (s : State P T) : Prop where
  past : s.lastCleanupNs ≤ s.now
  threads : ∀ t, ThrottleOk s (s.threads t)

/-- What a move does to the stamp: nothing, or it begins a sweep and dates it
an interval or more after the last one. -/
inductive Stamped (s s' : State P T) : Prop
  | same (hlast : s'.lastCleanupNs = s.lastCleanupNs) (hsweeps : s'.sweeps = s.sweeps)
  | swept (hlast : s.lastCleanupNs + cleanupMinIntervalNs ≤ s'.lastCleanupNs)
      (hsweeps : s'.sweeps = s.sweeps + 1)

section

variable {s s' : State P T} {pc pc' : CallPc}

theorem ThrottleOk.later (h : ThrottleOk s pc) (hnow : s.now ≤ s'.now)
    (hstamped : Stamped s s') : ThrottleOk s' pc := by
  have hinterval : 0 < cleanupMinIntervalNs := by decide
  have hsweeps : s.sweeps ≤ s'.sweeps ∧ s.lastCleanupNs ≤ s'.lastCleanupNs ∧
      (s'.lastCleanupNs = s.lastCleanupNs ∨ s.sweeps < s'.sweeps) := by
    cases hstamped with
    | same hlast hsweeps => omega
    | swept hlast hsweeps => omega
  cases pc with
  | clocked job flt clock before =>
    exact ⟨Int.le_trans h.1 hnow, Nat.le_trans h.2 hsweeps.1⟩
  | due job flt clock last before =>
    obtain ⟨hclock, hbefore, hdue, hlast⟩ := h
    refine ⟨Int.le_trans hclock hnow, Nat.le_trans hbefore hsweeps.1, hdue, ?_⟩
    omega
  | sweep job flt clock before =>
    simp only [ThrottleOk] at h ⊢
    omega
  | vetted job flt clock before =>
    simp only [ThrottleOk] at h ⊢
    omega
  | idle => trivial
  | ask job => trivial
  | query job flt => trivial
  | scan job flt loop => trivial
  | returned job answer => trivial

/-- A step of a thread. -/
theorem Throttle.advance (h : Throttle s) (hpc : ThrottleOk s pc)
    (hstep : advance s pc = some (s', pc')) :
    s'.now = s.now ∧ Stamped s s' ∧ s'.lastCleanupNs ≤ s.now ∧ ThrottleOk s' pc' := by
  have hsame : Stamped s s := .same rfl rfl
  cases pc with
  | idle => cases hstep
  | ask job =>
    simp only [Introspect.advance] at hstep
    split at hstep
    · cases hstep
      exact ⟨rfl, hsame, h.past, trivial⟩
    · cases hstep
      refine ⟨rfl, hsame, h.past, ?_⟩
      split
      · exact ⟨Int.le_refl _, Nat.le_refl _⟩
      · trivial
  | clocked job flt clock before =>
    cases hstep
    refine ⟨rfl, hsame, h.past, ?_⟩
    split
    · next hrecent => exact .inl hrecent
    · next hdue => exact ⟨hpc.1, hpc.2, Int.not_lt.mp hdue, .inl rfl⟩
  | due job flt clock last before =>
    obtain ⟨hclock, hbefore, hdue, hlast⟩ := hpc
    simp only [Introspect.advance] at hstep
    split at hstep
    · next heq =>
      cases hstep
      refine ⟨rfl, .swept ?_ rfl, hclock, .inr (Nat.lt_succ_of_le hbefore)⟩
      show s.lastCleanupNs + cleanupMinIntervalNs ≤ clock
      omega
    · next hne =>
      cases hstep
      exact ⟨rfl, hsame, h.past, .inr (hlast.resolve_left hne)⟩
  | sweep job flt clock before =>
    cases hstep
    exact ⟨rfl, hsame, h.past, hpc⟩
  | vetted job flt clock before =>
    cases hstep
    exact ⟨rfl, hsame, h.past, trivial⟩
  | query job flt =>
    cases hstep
    exact ⟨rfl, hsame, h.past, trivial⟩
  | scan job flt loop =>
    cases loop with
    | done ids =>
      cases hstep
      exact ⟨rfl, hsame, h.past, trivial⟩
    | peek max i ids =>
      cases hstep
      exact ⟨rfl, hsame, h.past, trivial⟩
    | snap max i ids =>
      cases hstep
      exact ⟨rfl, hsame, h.past, trivial⟩
  | returned job answer =>
    cases hstep
    exact ⟨rfl, hsame, h.past, trivial⟩

end

section

variable [DecidableEq T] {s s' : State P T}

/-- One move, as the clock and the stamp see it. -/
theorem Throttle.step {a : Act P T} (h : Throttle s) (hstep : machine.step s a = some s') :
    Throttle s' ∧ s.now ≤ s'.now ∧ Stamped s s' := by
  have hsame : ∀ u : State P T, u.lastCleanupNs = s.lastCleanupNs → u.sweeps = s.sweeps →
      Stamped s u := fun _ hlast hsweeps => .same hlast hsweeps
  cases a with
  | mutate a =>
    obtain ⟨d, hd, rfl⟩ := Option.map_eq_some_iff.mp hstep
    have hstamped : Stamped s { s with dir := d } := hsame _ rfl rfl
    exact ⟨⟨h.past, fun t => (h.threads t).later (Int.le_refl _) hstamped⟩,
      Int.le_refl _, hstamped⟩
  | elapse ns =>
    cases hstep
    have hnow : s.now ≤ s.now + ns := by omega
    have hstamped : Stamped s { s with now := s.now + ns } := hsame _ rfl rfl
    exact ⟨⟨Int.le_trans h.past hnow, fun t => (h.threads t).later hnow hstamped⟩,
      hnow, hstamped⟩
  | call t c =>
    change Introspect.step s (.call t c) = some s' at hstep
    simp only [Introspect.step] at hstep
    split at hstep
    · cases hstep
      refine ⟨⟨h.past, fun u => ?_⟩, Int.le_refl _, hsame _ rfl rfl⟩
      have hothers : ThrottleOk
          { s with threads := Function.update s.threads t (.ask (s.job c)) } (s.threads u) :=
        (h.threads u).later (Int.le_refl _) (.same rfl rfl)
      show ThrottleOk _ (Function.update s.threads t (.ask (s.job c)) u)
      rw [Function.update_apply]
      split
      · trivial
      · exact hothers
    · cases hstep
  | run t =>
    obtain ⟨⟨s'', pc'⟩, hadv, rfl⟩ := Option.map_eq_some_iff.mp hstep
    obtain ⟨hnow, hstamped, hpast, hpc⟩ := h.advance (h.threads t) hadv
    have hle : s.now ≤ s''.now := Int.le_of_eq hnow.symm
    refine ⟨⟨Int.le_trans hpast hle, fun u => ?_⟩, hle, ?_⟩
    · show ThrottleOk _ (Function.update s.threads t pc' u)
      have hkeep : Stamped s'' { s'' with threads := Function.update s.threads t pc' } :=
        .same rfl rfl
      rw [Function.update_apply]
      split
      · exact hpc.later (Int.le_refl _) hkeep
      · exact ((h.threads u).later hle hstamped).later (Int.le_refl _) hkeep
    · cases hstamped with
      | same hlast hsweeps => exact .same hlast hsweeps
      | swept hlast hsweeps => exact .swept hlast hsweeps

theorem throttle_of_reach {capacity : Nat} {now : Int}
    (h : machine.Reach (fun _ _ => True) (State.init P T capacity now) s) : Throttle s :=
  h.invariant ⟨Int.le_refl _, fun _ => trivial⟩ fun _ _ _ hinv _ hstep => (hinv.step hstep).1

end

end RmwUnixSocket.Graph.Introspect
