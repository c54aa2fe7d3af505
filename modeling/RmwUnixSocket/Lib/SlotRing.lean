import Mathlib.Order.Nat

/-!
# Rings of slots

Records get the indices 1, 2, 3 and so on, and record `n` goes to slot
`slotOf slots n`.  A slot keeps the newest record that has gone to it.

`Newest slots total i n` says that `n` is the index in slot `i` after `total`
records, with 0 for a slot that has none.
-/

namespace SlotRing

variable {slots total i m n : Nat}

/-- The slot of record `n`. -/
def slotOf (slots n : Nat) : Nat :=
  (n - 1) % slots

theorem slotOf_lt (hslots : 0 < slots) (n : Nat) : slotOf slots n < slots :=
  Nat.mod_lt _ hslots

theorem slotOf_add (hn : 0 < n) : slotOf slots (n + slots) = slotOf slots n := by
  unfold slotOf
  have hpred : n + slots - 1 = n - 1 + slots := by omega
  rw [hpred, Nat.add_mod_right]

/-- A later record of the same slot comes at least one round later. -/
theorem add_le_of_slotOf_eq (hm : 0 < m)
    (hslot : slotOf slots m = slotOf slots n) (hlt : m < n) :
    m + slots ≤ n := by
  unfold slotOf at hslot
  have hdvd : slots ∣ (n - 1) - (m - 1) :=
    Nat.dvd_of_mod_eq_zero (Nat.sub_mod_eq_zero_of_mod_eq hslot.symm)
  have hle : slots ≤ (n - 1) - (m - 1) := Nat.le_of_dvd (by omega) hdvd
  omega

/-- The newest of the first `total` records in slot `i` is `n`. -/
structure Newest (slots total i n : Nat) : Prop where
  le : n ≤ total
  empty : n = 0 → total ≤ i
  slot : n ≠ 0 → slotOf slots n = i
  fresh : n ≠ 0 → total < n + slots

namespace Newest

theorem start (slots i : Nat) : Newest slots 0 i 0 where
  le := Nat.le_refl 0
  empty _ := Nat.zero_le i
  slot h := absurd rfl h
  fresh h := absurd rfl h

/-- Every record of the slot is as old as the newest one. -/
theorem le_of_slot (h : Newest slots total i n) (hm : 0 < m)
    (hslot : slotOf slots m = i) (hle : m ≤ total) : m ≤ n := by
  by_cases hn : n = 0
  · have htotal := h.empty hn
    have hmod : (m - 1) % slots ≤ m - 1 := Nat.mod_le _ _
    unfold slotOf at hslot
    omega
  · by_contra hlt
    have hround : n + slots ≤ m :=
      add_le_of_slotOf_eq (by omega) ((h.slot hn).trans hslot.symm) (by omega)
    have := h.fresh hn
    omega

/-- A record of the slot is the newest one, or it is a round older. -/
theorem eq_or_add_le (h : Newest slots total i n) (hm : 0 < m)
    (hslot : slotOf slots m = i) (hle : m ≤ total) :
    m = n ∨ m + slots ≤ n := by
  have hmn := h.le_of_slot hm hslot hle
  by_cases heq : m = n
  · exact .inl heq
  · exact .inr (add_le_of_slotOf_eq hm (hslot.trans (h.slot (by omega)).symm)
      (by omega))

theorem unique (h : Newest slots total i n) (h' : Newest slots total i m) :
    n = m := by
  by_cases hn : n = 0
  · by_cases hm : m = 0
    · omega
    · have := h.le_of_slot (by omega) (h'.slot hm) h'.le
      omega
  · have hle := h'.le_of_slot (by omega) (h.slot hn) h.le
    have := h.le_of_slot (by omega) (h'.slot (by omega)) h'.le
    omega

/-- The next record is the newest one of its slot. -/
theorem next (slots total : Nat) (hslots : 0 < slots) :
    Newest slots (total + 1) (slotOf slots (total + 1)) (total + 1) where
  le := Nat.le_refl _
  empty h := absurd h (Nat.succ_ne_zero total)
  slot _ := rfl
  fresh _ := by omega

/-- The next record leaves the other slots alone. -/
theorem other (h : Newest slots total i n) (hi : i < slots)
    (hne : i ≠ slotOf slots (total + 1)) : Newest slots (total + 1) i n where
  le := Nat.le_succ_of_le h.le
  empty hn := by
    have htotal := h.empty hn
    by_contra hlt
    have heq : total = i := by omega
    apply hne
    unfold slotOf
    rw [heq, Nat.add_sub_cancel, Nat.mod_eq_of_lt hi]
  slot := h.slot
  fresh hn := by
    have hfresh := h.fresh hn
    by_contra hge
    have heq : total + 1 = n + slots := by omega
    apply hne
    rw [heq, slotOf_add (by omega), h.slot hn]

end Newest

end SlotRing
