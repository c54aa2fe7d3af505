import Mathlib.Order.Lattice

/-!
# Ordered sets and maps of sets

A set is the list of its elements in ascending order, and a map is the list of its keys in
ascending order, each with a set that is not empty.  `mapInsert` puts a value into the set
of a key, and `ofPairs` does it for a list of pairs.

`Has` is what a map says, whatever the order of the insertions was (`has_ofPairs`), and
`Ordered` is how it is listed (`ordered_ofPairs`).
-/

namespace OrderedMap

variable {κ α : Type} [LinearOrder κ] [LinearOrder α]

/-- Inserts an element into a set. -/
def setInsert (x : α) : List α → List α
  | [] => [x]
  | y :: l => if x < y then x :: y :: l else if x = y then y :: l else y :: setInsert x l

/-- Inserts a value into the set of a key. -/
def mapInsert (k : κ) (v : α) : List (κ × List α) → List (κ × List α)
  | [] => [(k, [v])]
  | e :: m =>
    if k < e.1 then (k, [v]) :: e :: m
    else if k = e.1 then (e.1, setInsert v e.2) :: m
    else e :: mapInsert k v m

/-- The map of a list of pairs. -/
def ofPairs (l : List (κ × α)) : List (κ × List α) :=
  l.foldl (fun m p => mapInsert p.1 p.2 m) []

/-- The value is in the set of the key. -/
def Has (m : List (κ × List α)) (k : κ) (v : α) : Prop :=
  ∃ e ∈ m, e.1 = k ∧ v ∈ e.2

/-- The keys ascend, and so does each set. -/
structure Ordered (m : List (κ × List α)) : Prop where
  keys : m.Pairwise fun e f => e.1 < f.1
  values : ∀ e ∈ m, e.2 ≠ [] ∧ e.2.Pairwise (· < ·)

/-! ## Sets -/

theorem mem_setInsert {x a : α} {l : List α} : a ∈ setInsert x l ↔ a = x ∨ a ∈ l := by
  induction l with
  | nil => simp [setInsert]
  | cons y l ih =>
    unfold setInsert
    split
    · simp
    · split
      · rename_i heq
        subst heq
        simp
      · simp only [List.mem_cons, ih]
        exact or_left_comm

theorem setInsert_ne_nil (x : α) (l : List α) : setInsert x l ≠ [] := by
  intro hnil
  have hmem : x ∈ setInsert x l := mem_setInsert.mpr (.inl rfl)
  rw [hnil] at hmem
  cases hmem

theorem pairwise_setInsert {x : α} {l : List α} (h : l.Pairwise (· < ·)) :
    (setInsert x l).Pairwise (· < ·) := by
  induction l with
  | nil => exact List.pairwise_singleton _ _
  | cons y l ih =>
    obtain ⟨hy, hl⟩ := List.pairwise_cons.mp h
    unfold setInsert
    split
    · rename_i hlt
      refine List.pairwise_cons.mpr ⟨fun a ha => ?_, h⟩
      obtain rfl | ha := List.mem_cons.mp ha
      · exact hlt
      · exact lt_trans hlt (hy a ha)
    · split
      · exact h
      · rename_i hnlt hne
        refine List.pairwise_cons.mpr ⟨fun a ha => ?_, ih hl⟩
        obtain rfl | ha := mem_setInsert.mp ha
        · exact lt_of_le_of_ne (not_lt.mp hnlt) (Ne.symm hne)
        · exact hy a ha

/-! ## Maps -/

theorem has_mapInsert {k k' : κ} {v v' : α} {m : List (κ × List α)} :
    Has (mapInsert k v m) k' v' ↔ (k' = k ∧ v' = v) ∨ Has m k' v' := by
  induction m with
  | nil => simp [mapInsert, Has, eq_comm]
  | cons e m ih =>
    have hcons : ∀ (f : κ × List α) (m : List (κ × List α)),
        Has (f :: m) k' v' ↔ (f.1 = k' ∧ v' ∈ f.2) ∨ Has m k' v' := by
      intro f m
      simp [Has]
    unfold mapInsert
    split
    · simp only [hcons, List.mem_singleton, eq_comm (a := k)]
    · split
      · rename_i heq
        subst heq
        simp only [hcons, mem_setInsert, and_or_left, eq_comm (a := k'), or_assoc]
      · simp only [hcons, ih]
        exact or_left_comm

theorem keys_mapInsert {k : κ} {v : α} {m : List (κ × List α)} {e : κ × List α}
    (he : e ∈ mapInsert k v m) : e.1 = k ∨ ∃ f ∈ m, e.1 = f.1 := by
  induction m with
  | nil =>
    rw [List.mem_singleton.mp he]
    exact .inl rfl
  | cons f m ih =>
    unfold mapInsert at he
    split at he
    · obtain rfl | he := List.mem_cons.mp he
      · exact .inl rfl
      · exact .inr ⟨e, he, rfl⟩
    · split at he
      · obtain rfl | he := List.mem_cons.mp he
        · exact .inr ⟨f, List.mem_cons_self, rfl⟩
        · exact .inr ⟨e, List.mem_cons_of_mem _ he, rfl⟩
      · obtain rfl | he := List.mem_cons.mp he
        · exact .inr ⟨e, List.mem_cons_self, rfl⟩
        · obtain hk | ⟨g, hg, heq⟩ := ih he
          · exact .inl hk
          · exact .inr ⟨g, List.mem_cons_of_mem _ hg, heq⟩

theorem Ordered.mapInsert {k : κ} {v : α} {m : List (κ × List α)} (h : Ordered m) :
    Ordered (mapInsert k v m) := by
  induction m with
  | nil =>
    refine ⟨List.pairwise_singleton _ _, fun e he => ?_⟩
    rw [List.mem_singleton.mp he]
    exact ⟨List.cons_ne_nil _ _, List.pairwise_singleton _ _⟩
  | cons f m ih =>
    obtain ⟨hf, hm⟩ := List.pairwise_cons.mp h.keys
    have hvalues := h.values f List.mem_cons_self
    have hrest : Ordered m := ⟨hm, fun e he => h.values e (List.mem_cons_of_mem _ he)⟩
    unfold OrderedMap.mapInsert
    split
    · rename_i hlt
      refine ⟨List.pairwise_cons.mpr ⟨fun e he => ?_, h.keys⟩, fun e he => ?_⟩
      · obtain rfl | he := List.mem_cons.mp he
        · exact hlt
        · exact lt_trans hlt (hf e he)
      · obtain rfl | he := List.mem_cons.mp he
        · exact ⟨List.cons_ne_nil _ _, List.pairwise_singleton _ _⟩
        · exact h.values e he
    · split
      · refine ⟨List.pairwise_cons.mpr ⟨hf, hm⟩, fun e he => ?_⟩
        obtain rfl | he := List.mem_cons.mp he
        · exact ⟨setInsert_ne_nil _ _, pairwise_setInsert hvalues.2⟩
        · exact hrest.values e he
      · rename_i hnlt hne
        refine ⟨List.pairwise_cons.mpr ⟨fun e he => ?_, (ih hrest).keys⟩, fun e he => ?_⟩
        · obtain hk | ⟨g, hg, heq⟩ := keys_mapInsert he
          · rw [hk]
            exact lt_of_le_of_ne (not_lt.mp hnlt) (Ne.symm hne)
          · rw [heq]
            exact hf g hg
        · obtain rfl | he := List.mem_cons.mp he
          · exact hvalues
          · exact (ih hrest).values e he

/-! ## A list of pairs -/

theorem has_foldl (l : List (κ × α)) (m : List (κ × List α)) (k : κ) (v : α) :
    Has (l.foldl (fun m p => mapInsert p.1 p.2 m) m) k v ↔ (k, v) ∈ l ∨ Has m k v := by
  induction l generalizing m with
  | nil => simp
  | cons p l ih =>
    rw [List.foldl_cons, ih, has_mapInsert, List.mem_cons, Prod.ext_iff]
    exact or_left_comm.trans or_assoc.symm

theorem has_ofPairs {l : List (κ × α)} {k : κ} {v : α} : Has (ofPairs l) k v ↔ (k, v) ∈ l := by
  unfold ofPairs
  rw [has_foldl]
  simp [Has]

theorem ordered_ofPairs (l : List (κ × α)) : Ordered (ofPairs l) := by
  have hfold : ∀ m : List (κ × List α), Ordered m →
      Ordered (l.foldl (fun m p => mapInsert p.1 p.2 m) m) := by
    induction l with
    | nil => exact fun m hm => hm
    | cons p l ih => exact fun m hm => ih _ hm.mapInsert
  exact hfold [] ⟨List.Pairwise.nil, fun e he => by cases he⟩

end OrderedMap
