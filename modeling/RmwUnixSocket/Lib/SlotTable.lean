import Mathlib.Data.List.Range
import Mathlib.Data.Nat.Find

/-!
# Finite maps on a fixed number of slots

A `SlotTable` is a finite map from the indices below a capacity to entries.
It is what a slot allocator looks like from outside: the lowest free index,
insertion and removal at an index, removal of every entry that meets a
predicate, and selection in index order.

The last section is about scans that stop at a bound.  A scan that walks over
the indices below a bound sees the whole table as soon as no entry lies at the
bound or above it.
-/

/-- A finite map from the indices below `capacity`. -/
structure SlotTable (E : Type) where
  capacity : Nat
  get : Nat → Option E
  get_of_le : ∀ i, capacity ≤ i → get i = none

namespace SlotTable

variable {E R : Type}

/-- Tables of one capacity with the same entries are equal. -/
theorem ext {t u : SlotTable E} (hcapacity : t.capacity = u.capacity)
    (hget : ∀ i, t.get i = u.get i) : t = u := by
  cases t
  cases u
  cases hcapacity
  obtain rfl := funext hget
  rfl

/-- A table without entries. -/
def empty (E : Type) (capacity : Nat) : SlotTable E where
  capacity := capacity
  get := fun _ => none
  get_of_le := fun _ _ => rfl

variable (t : SlotTable E)

/-! ## Free indices -/

/-- `i` is the lowest index without an entry. -/
def LowestFree (i : Nat) : Prop :=
  i < t.capacity ∧ t.get i = none ∧ ∀ j < i, t.get j ≠ none

/-- Every index has an entry. -/
def Full : Prop :=
  ∀ i < t.capacity, t.get i ≠ none

variable {t}

theorem LowestFree.unique {i j : Nat} (hi : t.LowestFree i)
    (hj : t.LowestFree j) : i = j := by
  have hij : ¬i < j := fun hlt => hj.2.2 i hlt hi.2.1
  have hji : ¬j < i := fun hlt => hi.2.2 j hlt hj.2.1
  omega

theorem LowestFree.not_full {i : Nat} (h : t.LowestFree i) : ¬t.Full :=
  fun hfull => hfull i h.1 h.2.1

theorem exists_lowestFree (h : ¬t.Full) : ∃ i, t.LowestFree i := by
  have hfree : ∃ i, i < t.capacity ∧ t.get i = none := by
    unfold Full at h
    push Not at h
    exact h
  classical
  refine ⟨Nat.find hfree, (Nat.find_spec hfree).1, (Nat.find_spec hfree).2, ?_⟩
  intro j hj hnone
  have hlt : j < t.capacity := Nat.lt_trans hj (Nat.find_spec hfree).1
  exact Nat.find_min hfree hj ⟨hlt, hnone⟩

/-! ## Changes -/

variable (t)

/-- Puts an entry at an index below the capacity. -/
def insert (i : Nat) (e : E) : SlotTable E where
  capacity := t.capacity
  get := fun j => if j = i ∧ i < t.capacity then some e else t.get j
  get_of_le := by
    intro j hj
    rw [if_neg (by omega)]
    exact t.get_of_le j hj

/-- Removes the entry at an index. -/
def erase (i : Nat) : SlotTable E where
  capacity := t.capacity
  get := fun j => if j = i then none else t.get j
  get_of_le := by
    intro j hj
    rw [t.get_of_le j hj, ite_self]

/-- Removes the entries that meet `p`. -/
def drop (p : E → Bool) : SlotTable E where
  capacity := t.capacity
  get := fun j => (t.get j).filter fun e => !p e
  get_of_le := by
    intro j hj
    rw [t.get_of_le j hj]
    rfl

@[simp] theorem drop_capacity (p : E → Bool) :
    (t.drop p).capacity = t.capacity := rfl

theorem erase_of_none {i : Nat} (h : t.get i = none) : t.erase i = t := by
  refine ext rfl fun j => ?_
  show (if j = i then none else t.get j) = t.get j
  split
  · next hji => rw [hji, h]
  · rfl

/-- A table is full after the removal when it was full of entries that do not
meet the predicate. -/
theorem full_drop_iff (p : E → Bool) : (t.drop p).Full ↔
    ∀ i < t.capacity, ∃ e, t.get i = some e ∧ p e = false := by
  unfold Full
  refine forall₂_congr fun i hi => ?_
  show (t.get i).filter (fun e => !p e) ≠ none ↔ _
  cases hget : t.get i with
  | none => simp
  | some e => simp [Option.filter]

/-- The removal does nothing to a table that stays full. -/
theorem drop_of_full {p : E → Bool} (h : (t.drop p).Full) : t.drop p = t := by
  refine ext rfl fun i => ?_
  by_cases hi : i < t.capacity
  · obtain ⟨e, hget, hp⟩ := (t.full_drop_iff p).mp h i hi
    show (t.get i).filter (fun e => !p e) = t.get i
    simp [hget, hp]
  · rw [t.get_of_le i (by omega)]
    exact (t.drop p).get_of_le i (Nat.le_of_not_lt hi)

/-! ## Selection and counting -/

/-- The answers for the entries, in index order. -/
def select (f : E → Option R) : List R :=
  (List.range t.capacity).filterMap fun i => (t.get i).bind f

/-- The number of entries that meet `p`. -/
def count (p : E → Bool) : Nat :=
  (List.range t.capacity).countP fun i => (t.get i).any p

/-- Nothing to remove in a table that stays full. -/
theorem count_of_full {p : E → Bool} (h : (t.drop p).Full) : t.count p = 0 := by
  rw [count, List.countP_eq_zero]
  intro i hi
  obtain ⟨e, hget, hp⟩ := (t.full_drop_iff p).mp h i (List.mem_range.mp hi)
  simp [hget, hp]

/-! ## Scans that stop at a bound -/

/-- The answers for `k` indices from `i` on. -/
def selectFrom (f : E → Option R) (i k : Nat) : List R :=
  (List.range' i k).filterMap fun j => (t.get j).bind f

/-- The entries that meet `p` among `k` indices from `i` on. -/
def countFrom (p : E → Bool) (i k : Nat) : Nat :=
  (List.range' i k).countP fun j => (t.get j).any p

theorem selectFrom_succ (f : E → Option R) (i k : Nat) :
    t.selectFrom f i (k + 1) =
      ((t.get i).bind f).toList ++ t.selectFrom f (i + 1) k := by
  rw [selectFrom, List.range'_succ, List.filterMap_cons]
  cases (t.get i).bind f <;> rfl

theorem countFrom_succ (p : E → Bool) (i k : Nat) :
    t.countFrom p i (k + 1) =
      (if (t.get i).any p then 1 else 0) + t.countFrom p (i + 1) k := by
  rw [countFrom, List.range'_succ, List.countP_cons, Nat.add_comm]
  rfl

/-- The indices below the bound, then the others. -/
theorem range_bound (bound : Nat) (hle : bound ≤ t.capacity) :
    List.range t.capacity =
      List.range' 0 bound ++ List.range' bound (t.capacity - bound) := by
  have hsplit : List.range' 0 (bound + (t.capacity - bound)) =
      List.range' 0 bound ++ List.range' bound (t.capacity - bound) := by
    rw [← List.range'_append_1, Nat.zero_add]
  rw [List.range_eq_range', ← hsplit, Nat.add_sub_cancel' hle]

variable {bound : Nat} (hle : bound ≤ t.capacity)
  (hbound : ∀ i, bound ≤ i → t.get i = none)

include hle hbound

theorem select_eq (f : E → Option R) : t.select f = t.selectFrom f 0 bound := by
  rw [select, t.range_bound bound hle, List.filterMap_append, selectFrom]
  have hrest : (List.range' bound (t.capacity - bound)).filterMap
      (fun i => (t.get i).bind f) = [] := by
    rw [List.filterMap_eq_nil_iff]
    intro i hi
    have hge := (List.mem_range'_1.mp hi).1
    rw [hbound i hge]
    rfl
  rw [hrest, List.append_nil]

theorem count_eq (p : E → Bool) : t.count p = t.countFrom p 0 bound := by
  rw [count, t.range_bound bound hle, List.countP_append, countFrom]
  have hrest : (List.range' bound (t.capacity - bound)).countP
      (fun i => (t.get i).any p) = 0 := by
    rw [List.countP_eq_zero]
    intro i hi
    have hge := (List.mem_range'_1.mp hi).1
    rw [hbound i hge]
    simp
  rw [hrest, Nat.add_zero]

end SlotTable
