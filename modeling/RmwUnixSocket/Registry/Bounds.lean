import RmwUnixSocket.Registry.Invariant

/-!
# The slots in use are inside the bounds

Every filled slot is below `max_entries`, and the published slot of a live
process is below the high-water mark as soon as its `registry_add` has passed
the compare-and-swap loop on that mark.
-/

namespace RmwUnixSocket.Registry

variable {P : Type}

/-- The slot that the process has published and not yet covered by the
high-water mark. -/
def Pc.widens : Pc P → Option Nat
  | .hwLoad _ i => some i
  | .hwCas _ i _ => some i
  | _ => none

/-- Where the filled slots are. -/
structure Bounds (s : State P) : Prop where
  adds : ∀ p e i again, (s.procs p).pc = .addCas e i again →
    i < s.region.maxEntries
  filled : ∀ i, (s.slot i).state ≠ .empty → i < s.region.maxEntries
  raises : ∀ p e i cur, (s.procs p).pc = .hwCas e i cur → cur < i + 1
  wide : ∀ i p e t, (s.slot i).state = .entry t → s.occupant i = some (p, e) →
    s.alive p = true →
      i < s.region.highWaterSlot ∨ (s.procs p).pc.widens = some i

theorem Bounds.init (n : Nat) : Bounds (State.init P n) where
  adds := nofun
  filled := nofun
  raises := nofun
  wide := nofun

/-! ## What a move does to the state bytes and to the occupants -/

section Moves

variable {alive : P → Bool} {m : Region P} {l l' : Local P} {eff : Effect P}

/-- Only `try_add_once` publishes. -/
theorem Move.published (h : Move alive m l eff l') {i : Nat}
    {t : RegistryEntryType} (ht : ((m.apply eff).slots i).state = .entry t) :
    (m.slots i).state = .entry t ∨
      ∃ e, l.pc = .publish e i ∧ t = e.type ∧ l' = l.goto (.hwLoad e i) := by
  rcases m.apply_state eff i with hsame | heff
  · exact .inl (hsame ▸ ht)
  · rw [ht] at heff
    subst heff
    cases h with
    | rest quiet _ _ _ _ => cases quiet
    | publish e i at_pc => exact .inr ⟨e, at_pc, rfl, rfl⟩

/-- Only a claim fills an empty slot. -/
theorem Move.filled (h : Move alive m l eff l') {i : Nat}
    (hi : ((m.apply eff).slots i).state ≠ .empty) :
    (m.slots i).state ≠ .empty ∨ (∃ e again, l.pc = .addCas e i again) ∨
      ∃ e, l.pc = .publish e i := by
  rcases m.apply_state eff i with hsame | heff
  · exact .inl (hsame ▸ hi)
  · generalize ((m.apply eff).slots i).state = st at heff hi
    subst heff
    cases h with
    | rest quiet _ _ _ _ => cases quiet
    | claim e i again at_pc empty => exact .inr (.inl ⟨e, again, at_pc⟩)
    | publish e i at_pc => exact .inr (.inr ⟨e, at_pc⟩)
    | removeTake i st at_pc same => exact absurd rfl hi
    | sweepTake w i snap at_pc same => exact absurd rfl hi

/-- Only a new turn of a loop leads to the compare-and-swap of
`try_add_once`. -/
theorem Move.adds (h : Move alive m l eff l') {e : RegistryEntry P} {i : Nat}
    {again : Bool} (hpc : l'.pc = .addCas e i again) : i < m.maxEntries := by
  cases h with
  | rest _ _ _ _ rests => exact rests.bound e i again hpc
  | collect _ _ _ _ _ _ _ rests => exact rests.bound e i again hpc
  | _ => cases hpc

/-- A claim reserves its slot. -/
theorem Move.of_claimOf (h : Move alive m l eff l') {i : Nat}
    {e : RegistryEntry P} (hclaim : claimOf m l = some (i, e)) :
    eff = .setState i .reserved ∧ l' = l.goto (.writeBegin e i) := by
  have hsettled : ∀ x, l.pc.settled = some x → claimOf m l = none := by
    intro x hx
    refine claimOf_eq_none fun e' i' again hadd => ?_
    rw [hadd] at hx
    cases hx
  cases h with
  | rest _ noclaim _ _ _ => rw [noclaim] at hclaim; cases hclaim
  | claim e' j again at_pc empty =>
    simp only [claimOf, at_pc, empty, if_true] at hclaim
    cases hclaim
    exact ⟨rfl, rfl⟩
  | retryWiden e' j at_pc _ => rw [hsettled _ at_pc] at hclaim; cases hclaim
  | wide e' j at_pc _ => rw [hsettled _ at_pc] at hclaim; cases hclaim
  | _ =>
    simp only [claimOf, ‹l.pc = _›] at hclaim
    cases hclaim

/-- The high-water mark only grows. -/
theorem Move.highWater_le (h : Move alive m l eff l')
    (hraises : ∀ e i cur, l.pc = .hwCas e i cur → cur < i + 1) :
    m.highWaterSlot ≤ (m.apply eff).highWaterSlot := by
  cases h with
  | rest quiet _ _ _ _ => cases eff <;> first | exact le_rfl | cases quiet
  | widen e i cur at_pc cur_eq =>
    have := hraises e i cur at_pc
    exact le_of_lt (cur_eq ▸ this)
  | _ => exact le_rfl

/-- A process stops widening when the mark covers its slot. -/
theorem Move.widens (h : Move alive m l eff l') {i : Nat}
    (hi : l.pc.widens = some i) :
    i < (m.apply eff).highWaterSlot ∨ l'.pc.widens = some i := by
  have hsettled : ∀ e j, l.pc.settled = some (j, e) → j = i := by
    intro e j hj
    cases hpc : l.pc <;> rw [hpc] at hi hj <;> cases hi <;> cases hj
    · rfl
    · rfl
  cases h with
  | rest _ _ _ settled _ =>
    cases hpc : l.pc <;> rw [hpc] at hi settled <;> cases hi <;> cases settled
  | widen e j cur at_pc cur_eq =>
    rw [at_pc] at hi
    cases hi
    exact .inl (Nat.lt_succ_self i)
  | retryWiden e j at_pc below => exact .inr (congrArg some (hsettled e j at_pc))
  | wide e j at_pc above =>
    obtain rfl := hsettled e j at_pc
    exact .inl (Nat.lt_of_succ_le (Nat.le_of_not_lt above))
  | _ =>
    rw [‹l.pc = _›] at hi
    cases hi

end Moves

/-! ## The induction step -/

section Step

variable [DecidableEq P] {s t : State P} {p : P}

/-- A claim is the only move that changes an occupant, and it leaves the slot
reserved. -/
theorem occupant_of_published {eff : Effect P} {l' : Local P} {i : Nat}
    {x : P × RegistryEntry P} {t : RegistryEntryType}
    (hmove : Move s.alive s.region (s.procs p) eff l')
    (ht : ((s.commit p (eff, l')).slot i).state = .entry t)
    (hocc : (s.commit p (eff, l')).occupant i = some x) :
    s.occupant i = some x := by
  cases hclaim : claimOf s.region (s.procs p) with
  | none => rwa [State.commit_occupant_of_none s p hclaim] at hocc
  | some c =>
    obtain ⟨rfl, -⟩ := hmove.of_claimOf (i := c.1) (e := c.2) hclaim
    by_cases hi : i = c.1
    · subst hi
      simp at ht
    · simpa [State.commit, hclaim, hi] using hocc

theorem Bounds.move (h : Bounds s) (hinv : Inv s) {eff : Effect P}
    {l' : Local P} (hmove : Move s.alive s.region (s.procs p) eff l') :
    Bounds (s.commit p (eff, l')) := by
  refine ⟨?_, ?_, ?_, ?_⟩
  · intro q e i again hpc
    rw [State.commit_region, Region.apply_maxEntries]
    by_cases hq : q = p
    · subst hq
      rw [State.commit_self] at hpc
      exact hmove.adds hpc
    · rw [State.commit_of_ne s p _ hq] at hpc
      exact h.adds q e i again hpc
  · intro i hi
    rw [State.commit_region, Region.apply_maxEntries]
    rcases hmove.filled hi with hold | ⟨e, again, hpc⟩ | ⟨e, hpc⟩
    · exact h.filled i hold
    · exact h.adds p e i again hpc
    · have hc := ((hinv.locals p).claim i e (by rw [hpc]; rfl)).state
      exact h.filled i (by rw [hc]; nofun)
  · intro q e i cur hpc
    by_cases hq : q = p
    · subst hq
      rw [State.commit_self] at hpc
      cases hmove with
      | rest _ _ _ _ rests =>
        have := Pc.settled_of_plain rests.plain
        rw [hpc] at this
        cases this
      | collect _ _ _ _ _ _ _ rests =>
        have := Pc.settled_of_plain rests.plain
        rw [hpc] at this
        cases this
      | retryWiden e' j at_pc below =>
        cases hpc
        exact below
      | _ => cases hpc
    · rw [State.commit_of_ne s p _ hq] at hpc
      exact h.raises q e i cur hpc
  · intro i q e t ht hocc hlive
    have hmark := hmove.highWater_le (h.raises p)
    have hocc' := occupant_of_published hmove ht hocc
    rcases hmove.published ht with hold | ⟨e', hpc, -, rfl⟩
    · rcases h.wide i q e t hold hocc' hlive with hlt | hwidens
      · exact .inl (hlt.trans_le hmark)
      · by_cases hq : q = p
        · subst hq
          rw [State.commit_self]
          exact hmove.widens hwidens
        · rw [State.commit_of_ne s p _ hq]
          exact .inr hwidens
    · have hc := ((hinv.locals p).claim i e' (by rw [hpc]; rfl)).occupant
      rw [hc] at hocc'
      cases hocc'
      exact .inr (by rw [State.commit_self]; rfl)

theorem Bounds.call (h : Bounds s) (hidle : s.pc p = .idle) {c : Call P}
    {l' : Local P} (henter : enter s.region p (s.procs p) c = some l') :
    Bounds (s.setLocal p l') := by
  have hnew : l'.pc.settled = none ∧
      ∀ e i again, l'.pc = .addCas e i again → i < s.region.maxEntries := by
    rcases enter_cases henter with hstarts | ⟨i, e, -, -, rfl⟩
    · exact ⟨Pc.settled_of_plain hstarts.plain, hstarts.bound⟩
    · exact ⟨rfl, nofun⟩
  refine ⟨fun q e i again hpc => ?_, h.filled, fun q e i cur hpc => ?_,
    fun i q e t ht hocc hlive => ?_⟩
  · by_cases hq : q = p
    · subst hq
      rw [State.setLocal_self] at hpc
      exact hnew.2 e i again hpc
    · rw [State.setLocal_of_ne s p _ hq] at hpc
      exact h.adds q e i again hpc
  · by_cases hq : q = p
    · subst hq
      rw [State.setLocal_self] at hpc
      rw [hpc] at hnew
      cases hnew.1
    · rw [State.setLocal_of_ne s p _ hq] at hpc
      exact h.raises q e i cur hpc
  · rcases h.wide i q e t ht hocc hlive with hlt | hwidens
    · exact .inl hlt
    · by_cases hq : q = p
      · subst hq
        rw [State.pc] at hidle
        rw [hidle] at hwidens
        cases hwidens
      · rw [State.setLocal_of_ne s p _ hq]
        exact .inr hwidens

theorem Bounds.kill (h : Bounds s) : Bounds (s.slay p) := by
  have hother : ∀ q, (s.slay p).alive q = true →
      q ≠ p ∧ s.alive q = true := by
    intro q hq
    by_cases hqp : q = p
    · simp [State.slay, hqp] at hq
    · exact ⟨hqp, by simpa [State.slay, hqp] using hq⟩
  refine ⟨fun q e i again hpc => ?_, h.filled, fun q e i cur hpc => ?_,
    fun i q e t ht hocc hlive => ?_⟩
  · by_cases hq : q = p
    · subst hq
      rw [State.slay_self] at hpc
      cases hpc
    · rw [State.slay_of_ne s p hq] at hpc
      exact h.adds q e i again hpc
  · by_cases hq : q = p
    · subst hq
      rw [State.slay_self] at hpc
      cases hpc
    · rw [State.slay_of_ne s p hq] at hpc
      exact h.raises q e i cur hpc
  · obtain ⟨hq, hqlive⟩ := hother q hlive
    rw [State.slay_of_ne s p hq]
    exact h.wide i q e t ht hocc hqlive

/-- Every step from a state that satisfies the slot protocol keeps the
bounds. -/
theorem Bounds.step {a : Act P} (h : Bounds s) (hinv : Inv s)
    (hstep : step s a = some t) : Bounds t := by
  cases a with
  | call p c =>
    obtain ⟨-, hidle, l, henter, rfl⟩ := of_step_call hstep
    exact h.call hidle henter
  | step p spurious =>
    obtain ⟨-, eff, l, hexec, rfl⟩ := of_step_step hstep
    exact h.move hinv (exec_move hexec)
  | kill p =>
    obtain ⟨-, rfl⟩ := of_step_kill hstep
    exact h.kill

end Step

end RmwUnixSocket.Registry
