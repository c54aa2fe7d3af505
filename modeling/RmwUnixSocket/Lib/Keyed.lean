import Mathlib.Data.List.Sort

/-!
# Lists ordered by a key

Records carry a number, their key.  `sortBy` orders a list by key, `newest`
keeps the last few entries of an ordered list, and `contiguousPrefix` stops at
the first gap between two neighbouring keys.

A list is `Ascending` if its keys grow from entry to entry.
-/

namespace Keyed

variable {α : Type} (key : α → Nat)

/-- The keys grow strictly. -/
def Ascending (l : List α) : Prop :=
  l.Pairwise fun a b => key a < key b

/-- The list in the order of the keys. -/
def sortBy (l : List α) : List α :=
  l.insertionSort fun a b => key a ≤ key b

/-- The last `n` entries. -/
def newest (n : Nat) (l : List α) : List α :=
  l.drop (l.length - n)

/-- The entries up to the first gap. -/
def contiguousPrefix : List α → List α
  | [] => []
  | [a] => [a]
  | a :: b :: l =>
    if key b = key a + 1 then a :: contiguousPrefix (b :: l) else [a]

variable {key} {l p : List α} {a b : α}

@[simp] theorem mem_sortBy : a ∈ sortBy key l ↔ a ∈ l :=
  List.mem_insertionSort _

/-- A list whose keys are all different becomes ascending. -/
theorem sortBy_ascending (hne : l.Pairwise fun a b => key a ≠ key b) :
    Ascending key (sortBy key l) := by
  have hsorted : (sortBy key l).Pairwise fun a b => key a ≤ key b :=
    List.pairwise_insertionSort (fun a b : α => key a ≤ key b) l
  have hdiff : (sortBy key l).Pairwise fun a b => key a ≠ key b :=
    ((List.perm_insertionSort _ l).pairwise_iff
      (fun {a b} h => Ne.symm h)).mpr hne
  exact (hsorted.and hdiff).imp fun h => Nat.lt_of_le_of_ne h.1 h.2

theorem newest_suffix (n : Nat) (l : List α) : newest n l <:+ l :=
  List.drop_suffix _ _

theorem newest_eq_nil {n : Nat} (h : newest n l = []) (hn : 0 < n) :
    l = [] := by
  unfold newest at h
  rw [List.drop_eq_nil_iff] at h
  rw [← List.length_eq_zero_iff]
  omega

/-- The cut is the tail `p`, if `p` has the right length or nothing is cut. -/
theorem newest_append {n : Nat} (hle : p.length ≤ n)
    (hcut : p.length = n ∨ l = []) : newest n (l ++ p) = p := by
  unfold newest
  rw [List.length_append]
  rcases hcut with heq | rfl
  · rw [show l.length + p.length - n = l.length by omega]
    exact List.drop_left
  · rw [show ([] : List α).length + p.length - n = 0 by
      simp only [List.length_nil]
      omega]
    rfl

theorem contiguousPrefix_prefix (l : List α) : contiguousPrefix key l <+: l := by
  induction l using contiguousPrefix.induct key with
  | case1 => exact List.prefix_rfl
  | case2 a => exact List.prefix_rfl
  | case3 a b l hnext ih =>
    rw [contiguousPrefix, if_pos hnext]
    exact (List.prefix_cons_inj a).mpr ih
  | case4 a b l hgap =>
    rw [contiguousPrefix, if_neg hgap]
    exact ⟨b :: l, rfl⟩

theorem contiguousPrefix_ne_nil (h : l ≠ []) :
    contiguousPrefix key l ≠ [] := by
  induction l using contiguousPrefix.induct key with
  | case1 => exact absurd rfl h
  | case2 a => simp [contiguousPrefix]
  | case3 a b l hnext ih => simp [contiguousPrefix, hnext]
  | case4 a b l hgap => simp [contiguousPrefix, hgap]

namespace Ascending

theorem sublist (h : Ascending key l) (hp : p.Sublist l) : Ascending key p :=
  List.Pairwise.sublist hp h

/-- Two ascending lists with the same entries are the same. -/
theorem eq_of_mem_iff (h : Ascending key l) (hp : Ascending key p)
    (hmem : ∀ a, a ∈ l ↔ a ∈ p) : l = p := by
  have hnodup : ∀ {l : List α}, Ascending key l → l.Nodup := fun h =>
    List.Pairwise.imp (fun hlt heq => by
      rw [heq] at hlt
      omega) h
  have hperm : l.Perm p :=
    (List.perm_ext_iff_of_nodup (hnodup h) (hnodup hp)).mpr hmem
  exact hperm.eq_of_pairwise (fun _ _ _ _ hab hba => by omega) h hp

/-- The last entry has the largest key. -/
theorem le_getLast (h : Ascending key l) (ha : a ∈ l) (hne : l ≠ []) :
    key a ≤ key (l.getLast hne) := by
  rw [← List.dropLast_append_getLast hne] at h ha
  rcases List.mem_append.mp ha with hin | hlast
  · exact Nat.le_of_lt ((List.pairwise_append.mp h).2.2 a hin _
      (List.mem_singleton.mpr rfl))
  · rw [List.mem_singleton.mp hlast]

/-- What comes before an entry of a prefix is in the prefix. -/
theorem mem_prefix (h : Ascending key l) (hp : p <+: l) (ha : a ∈ l)
    (hb : b ∈ p) (hlt : key a < key b) : a ∈ p := by
  obtain ⟨rest, rfl⟩ := hp
  rcases List.mem_append.mp ha with hin | hrest
  · exact hin
  · have := (List.pairwise_append.mp h).2.2 b hb a hrest
    omega

/-- What comes before the next entry has been passed. -/
theorem mem_passed {rest : List α} (h : Ascending key (p ++ b :: rest))
    (ha : a ∈ p ++ b :: rest) (hlt : key a < key b) : a ∈ p := by
  rcases List.mem_append.mp ha with hin | hrest
  · exact hin
  · have htail := (List.pairwise_append.mp h).2.1
    rcases List.mem_cons.mp hrest with rfl | hlater
    · omega
    · have := (List.pairwise_cons.mp htail).1 a hlater
      omega

end Ascending

end Keyed
