import Mathlib.Logic.Function.Basic

/-!
# Copying a record word by word

A record of several words cannot be copied in one memory operation.  A
copying process walks a list of words and copies one word at a time, and
another process may run between two of them.  `AgreeOff rest a b` is the
invariant of such a copy: the two records agree on every word that is not in
the list of the words still to copy.

The record is a dependent function, so the words may have different types.
-/

namespace Words

variable {ι : Type} {V : ι → Type}

/-- The two records agree on every word outside `rest`. -/
def AgreeOff (rest : List ι) (a b : (i : ι) → V i) : Prop :=
  ∀ i, i ∉ rest → a i = b i

/-- A copy starts with every word still to copy. -/
theorem agreeOff_start {all : List ι} (hall : ∀ i, i ∈ all)
    (a b : (i : ι) → V i) : AgreeOff all a b :=
  fun i hi => absurd (hall i) hi

/-- A finished copy is equal to the original. -/
theorem AgreeOff.eq {a b : (i : ι) → V i} (h : AgreeOff [] a b) : a = b :=
  funext fun i => h i (by simp)

variable [DecidableEq ι]

/-- Writes one word of a record. -/
def store (r : (i : ι) → V i) (i : ι) (v : V i) : (j : ι) → V j :=
  Function.update r i v

@[simp] theorem store_same (r : (i : ι) → V i) (i : ι) (v : V i) :
    store r i v i = v := by
  simp [store]

theorem store_of_ne (r : (i : ι) → V i) {i j : ι} (v : V i) (h : j ≠ i) :
    store r i v j = r j := by
  simp [store, h]

/-- Copying the next word into the second record keeps the invariant. -/
theorem AgreeOff.store_right {i : ι} {rest : List ι} {a b : (i : ι) → V i}
    (h : AgreeOff (i :: rest) a b) : AgreeOff rest a (store b i (a i)) := by
  intro j hj
  by_cases hji : j = i
  · subst hji
    rw [store_same]
  · rw [store_of_ne b _ hji]
    exact h j (by simp [hji, hj])

end Words
