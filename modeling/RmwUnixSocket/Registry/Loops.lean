import RmwUnixSocket.Registry.Moves

/-!
# The loops of a query and of a sweep end

`registry_query` and `registry_cleanup_stale` walk over the slots and try each
slot a bounded number of times.  `Pc.fuel` bounds the steps that are left.
`exec_looping` shows that every step of the two calls is enabled and lowers
the bound, whatever the other processes have done to the region.
-/

namespace RmwUnixSocket.Registry

variable {P : Type}

/-! ## Where a loop is -/

/-- A sweep that was called from outside and is at slot `i`. -/
def Sweep.Inside (n i : Nat) (w : Sweep P) : Prop :=
  w.ret.entry = none ∧ i < w.max ∧ w.max ≤ n

/-- A loop that called `snapshot_slot` on slot `i`. -/
def SnapCaller.Inside (n i : Nat) : SnapCaller P → Prop
  | .sweep w => w.Inside n i
  | .query q => i < q.max ∧ q.max ≤ n

/-- A sweep that called `teardown_slot` on slot `i`. -/
def TearCaller.Inside (n i : Nat) : TearCaller P → Prop
  | .sweep w _ => w.Inside n i
  | .remove _ => False

/-- The slots that a loop has yet to visit after the present one. -/
def SnapCaller.left (i : Nat) : SnapCaller P → Nat
  | .sweep w => w.max - i - 1
  | .query q => q.max - i - 1

/-- The slots that a sweep has yet to visit after the present one. -/
def TearCaller.left (i : Nat) : TearCaller P → Nat
  | .sweep w _ => w.max - i - 1
  | .remove _ => 0

namespace Pc

/-- The program counters of a `registry_query` and of a
`registry_cleanup_stale` that was not called by `registry_add`. -/
def Looping (n : Nat) : Pc P → Prop
  | snapSeq c i retry => c.Inside n i ∧ retry < MAX_READ_RETRIES
  | snapState c i retry _ => c.Inside n i ∧ retry < MAX_READ_RETRIES
  | snapCopy c i retry _ rest =>
    c.Inside n i ∧ retry < MAX_READ_RETRIES ∧ rest.length ≤ 11
  | sweepHw ret => ret.entry = none
  | sweepState w i => w.Inside n i
  | sweepPid w i _ => w.Inside n i
  | sweepSeq w i _ => w.Inside n i
  | sweepCas w i _ => w.Inside n i
  | tearBegin c i => c.Inside n i
  | tearPath c i => c.Inside n i
  | tearing c i _ rest => c.Inside n i ∧ rest.length ≤ 11
  | tearUnlink c i _ => c.Inside n i
  | sweepBump w i _ => w.Inside n i
  | sweepRing ret => ret.entry = none
  | queryHw _ => True
  | queryState q i => i < q.max ∧ q.max ≤ n
  | _ => False

/-- A bound on the steps that are left, in a region of `n` slots. -/
def fuel (n : Nat) : Pc P → Nat
  | snapSeq c i retry => c.left i * 400 + 14 * (16 - retry) + 57
  | snapState c i retry _ => c.left i * 400 + 14 * (16 - retry) + 56
  | snapCopy c i retry _ rest =>
    c.left i * 400 + 14 * (16 - retry) + 44 + rest.length
  | sweepHw _ => n * 400 + 10
  | sweepState w i => (w.max - i - 1) * 400 + 390
  | sweepPid w i _ => (w.max - i - 1) * 400 + 43
  | sweepSeq w i _ => (w.max - i - 1) * 400 + 42
  | sweepCas w i _ => (w.max - i - 1) * 400 + 41
  | tearBegin c i => c.left i * 400 + 40
  | tearPath c i => c.left i * 400 + 39
  | tearing c i _ rest => c.left i * 400 + 27 + rest.length
  | tearUnlink c i _ => c.left i * 400 + 26
  | sweepBump w i _ => (w.max - i - 1) * 400 + 25
  | sweepRing _ => 5
  | queryHw _ => n * 400 + 10
  | queryState q i => (q.max - i - 1) * 400 + 390
  | _ => 0

end Pc

theorem Pc.fuel_pos {n : Nat} {pc : Pc P} (h : pc.Looping n) :
    0 < pc.fuel n := by
  cases pc <;> first | (simp only [Pc.fuel]; omega) | cases h

/-! ## One step of a loop -/

/-- The process is back at its caller, or its loop goes on with less fuel. -/
def Local.Advances (n fuel : Nat) (l : Local P) : Prop :=
  l.pc = .idle ∨ l.pc.Looping n ∧ l.pc.fuel n < fuel

namespace Local

variable {l : Local P} {n fuel : Nat}

theorem advances_sweepDone {ret : SweepReturn P} (hret : ret.entry = none) :
    (l.sweepDone n ret).Advances n fuel := by
  cases ret with
  | caller => exact .inl rfl
  | retryAdd e => cases hret

theorem advances_sweepLoop {w : Sweep P} {i : Nat} (hret : w.ret.entry = none)
    (hmax : w.max ≤ n) (hfuel : i < w.max → (w.max - i - 1) * 400 + 390 < fuel)
    (hend : w.max ≤ i → 5 < fuel) : (l.sweepLoop n w i).Advances n fuel := by
  unfold sweepLoop
  split
  · rename_i hi
    exact .inr ⟨⟨hret, hi, hmax⟩, hfuel hi⟩
  · rename_i hi
    split
    · exact .inr ⟨hret, hend (Nat.le_of_not_lt hi)⟩
    · exact advances_sweepDone hret

theorem advances_queryLoop {q : Query} {i : Nat} (hmax : q.max ≤ n)
    (hfuel : i < q.max → (q.max - i - 1) * 400 + 390 < fuel) :
    (l.queryLoop q i).Advances n fuel := by
  unfold queryLoop
  split
  · rename_i hi
    exact .inr ⟨⟨hi, hmax⟩, hfuel hi⟩
  · exact .inl rfl

/-- The loop goes on with the next slot. -/
theorem advances_next {w : Sweep P} {i k : Nat} (hinside : w.Inside n i)
    (hk : 5 < k) :
    (l.sweepLoop n w (i + 1)).Advances n ((w.max - i - 1) * 400 + k) := by
  obtain ⟨hret, hi, hmax⟩ := hinside
  exact advances_sweepLoop hret hmax (by omega) (by omega)

theorem advances_snapFail {c : SnapCaller P} {i k : Nat}
    (hinside : c.Inside n i) (hk : 5 < k) :
    (l.snapFail n i c).Advances n (c.left i * 400 + k) := by
  cases c with
  | sweep w => exact advances_next hinside hk
  | query q =>
    obtain ⟨hi, hmax⟩ := hinside
    exact advances_queryLoop hmax fun h => by simp only [SnapCaller.left]; omega

theorem advances_snapRetry {c : SnapCaller P} {i retry k : Nat}
    (hinside : c.Inside n i) (hk : 14 * (16 - retry) + 43 < k) :
    (l.snapRetry n c i retry).Advances n (c.left i * 400 + k) := by
  unfold snapRetry
  split
  · rename_i hretry
    refine .inr ⟨⟨hinside, hretry⟩, ?_⟩
    simp only [MAX_READ_RETRIES] at hretry
    simp only [goto_pc, Pc.fuel]
    omega
  · exact advances_snapFail hinside (by omega)

end Local

/-- Every step of a looping call is enabled, and the call advances. -/
theorem exec_looping (alive : P → Bool) {m : Region P} {l : Local P}
    (h : l.pc.Looping m.maxEntries) :
    ∃ eff l', exec alive false m l = some (eff, l') ∧
      l'.Advances m.maxEntries (l.pc.fuel m.maxEntries) := by
  rcases l with ⟨pc, held, ret⟩
  cases pc with simp only [exec]
  | snapSeq c i retry =>
    obtain ⟨hinside, hretry⟩ := h
    split
    · refine ⟨_, _, rfl, ?_⟩
      rw [Pc.fuel, Nat.add_assoc]
      exact Local.advances_snapRetry hinside (by omega)
    · exact ⟨_, _, rfl, .inr ⟨⟨hinside, hretry⟩, by simp [Pc.fuel]⟩⟩
  | snapState c i retry s1 =>
    obtain ⟨hinside, hretry⟩ := h
    split
    · exact ⟨_, _, rfl, .inr ⟨⟨hinside, hretry, by simp [fieldOrder]⟩,
        by simp [Pc.fuel, fieldOrder]⟩⟩
    · refine ⟨_, _, rfl, ?_⟩
      rw [Pc.fuel, Nat.add_assoc]
      exact Local.advances_snapFail hinside (by omega)
  | snapCopy c i retry snap rest =>
    obtain ⟨hinside, hretry, hrest⟩ := h
    cases rest with
    | cons f rest =>
      refine ⟨_, _, rfl, .inr ⟨⟨hinside, hretry, ?_⟩, by simp [Pc.fuel]⟩⟩
      simp only [List.length_cons] at hrest
      omega
    | nil =>
      simp only
      split
      · refine ⟨_, _, rfl, ?_⟩
        cases c with
        | sweep w =>
          refine .inr ⟨hinside, ?_⟩
          simp only [Local.snapDone, Local.goto_pc, Pc.fuel, SnapCaller.left,
            List.length_nil]
          omega
        | query q =>
          obtain ⟨hi, hmax⟩ := hinside
          simp only [Local.snapDone]
          split
          · exact Local.advances_queryLoop hmax fun h => by
              simp only [Pc.fuel, SnapCaller.left] at h ⊢
              omega
          · exact Local.advances_queryLoop hmax fun h => by
              simp only [Pc.fuel, SnapCaller.left]
              omega
      · refine ⟨_, _, rfl, ?_⟩
        rw [Pc.fuel, Nat.add_assoc, Nat.add_assoc]
        exact Local.advances_snapRetry hinside (by simp)
  | sweepHw ret =>
    refine ⟨_, _, rfl, Local.advances_sweepLoop h (Nat.min_le_right _ _) ?_ ?_⟩
    · intro hi
      have := Nat.min_le_right m.highWaterSlot m.maxEntries
      simp only [Pc.fuel] at hi ⊢
      omega
    · intro _
      simp only [Pc.fuel]
      omega
  | sweepState w i =>
    split
    · exact ⟨_, _, rfl, Local.advances_next h (by omega)⟩
    · refine ⟨_, _, rfl, .inr ⟨⟨h, by simp [MAX_READ_RETRIES]⟩, ?_⟩⟩
      simp [Pc.fuel, SnapCaller.left]
  | sweepPid w i snap =>
    split
    · exact ⟨_, _, rfl, Local.advances_next h (by omega)⟩
    · split
      · exact ⟨_, _, rfl, Local.advances_next h (by omega)⟩
      · exact ⟨_, _, rfl, .inr ⟨h, by simp [Pc.fuel]⟩⟩
  | sweepSeq w i snap =>
    split
    · exact ⟨_, _, rfl, .inr ⟨h, by simp [Pc.fuel]⟩⟩
    · exact ⟨_, _, rfl, Local.advances_next h (by omega)⟩
  | sweepCas w i snap =>
    split
    · exact ⟨_, _, rfl, .inr ⟨h, by simp [Pc.fuel, TearCaller.left]⟩⟩
    · exact ⟨_, _, rfl, Local.advances_next h (by omega)⟩
  | tearBegin c i => exact ⟨_, _, rfl, .inr ⟨h, by simp [Pc.fuel]⟩⟩
  | tearPath c i =>
    exact ⟨_, _, rfl, .inr ⟨⟨h, by simp [fieldOrder]⟩,
      by simp [Pc.fuel, fieldOrder]⟩⟩
  | tearing c i path rest =>
    obtain ⟨hinside, hrest⟩ := h
    cases rest with
    | cons f rest =>
      refine ⟨_, _, rfl, .inr ⟨⟨hinside, ?_⟩, by simp [Pc.fuel]⟩⟩
      simp only [List.length_cons] at hrest
      omega
    | nil => exact ⟨_, _, rfl, .inr ⟨hinside, by simp [Pc.fuel]⟩⟩
  | tearUnlink c i path =>
    cases c with
    | remove st => cases h
    | sweep w type =>
      exact ⟨_, _, rfl, .inr ⟨h, by simp [Local.tearDone, Pc.fuel, TearCaller.left]⟩⟩
  | sweepBump w i type =>
    exact ⟨_, _, rfl, Local.advances_next (w := { w with
      reclaimed := w.reclaimed || type != .doorbell }) h (by omega)⟩
  | sweepRing ret => exact ⟨_, _, rfl, Local.advances_sweepDone h⟩
  | queryHw flt =>
    refine ⟨_, _, rfl, Local.advances_queryLoop (Nat.min_le_right _ _) ?_⟩
    intro hi
    have := Nat.min_le_right m.highWaterSlot m.maxEntries
    simp only [Pc.fuel] at hi ⊢
    omega
  | queryState q i =>
    obtain ⟨hi, hmax⟩ := h
    split
    · refine ⟨_, _, rfl, .inr ⟨⟨⟨hi, hmax⟩, by simp [MAX_READ_RETRIES]⟩, ?_⟩⟩
      simp [Pc.fuel, SnapCaller.left]
    · refine ⟨_, _, rfl, Local.advances_queryLoop hmax fun h => ?_⟩
      simp only [Pc.fuel]
      omega
  | _ => cases h

end RmwUnixSocket.Registry
