import Mathlib.Algebra.GroupWithZero.Nat
import Mathlib.Data.List.Basic

/-!
# A cursor over a ring

Requests are placed one behind the other in a ring of `ring` bytes.  A request asks
for the room `need` and takes `take` of it.  One that does not fit behind the cursor
goes to the start of the ring (`place`).

The question is whether a span `[o, e)` behind which the requests start is still
free of them.  `retains` answers it from the sizes alone: either no request wraps, or
what is placed from the first one that wraps on takes at most `o`.  For less than `k`
requests of at most a `k`-th of the ring, `avoids_of_retains` and
`exists_covering` say that the answer is exact.
-/

namespace BumpRing

/-- A request. -/
structure Request where
  need : Nat
  take : Nat

variable (ring : Nat)

/-- Where a request goes. -/
def place (cursor : Nat) (g : Request) : Nat :=
  if ring < cursor + g.need then 0 else cursor

/-- The cursor behind a request. -/
def next (cursor : Nat) (g : Request) : Nat :=
  place ring cursor g + g.take

/-- The cursor behind a list of requests. -/
def after (cursor : Nat) (gs : List Request) : Nat :=
  gs.foldl (next ring) cursor

/-- The spans of a list of requests: their offsets and their sizes. -/
def spans : Nat → List Request → List (Nat × Nat)
  | _, [] => []
  | cursor, g :: gs => (place ring cursor g, g.take) :: spans (next ring cursor g) gs

/-- What the requests take together. -/
def total (gs : List Request) : Nat :=
  (gs.map Request.take).sum

/-- From the first request that wraps on, the requests take at most `o`. -/
def retains (o : Nat) : Nat → List Request → Bool
  | _, [] => true
  | cursor, g :: gs =>
    if ring < cursor + g.need then decide (total (g :: gs) ≤ o)
    else retains o (cursor + g.take) gs

/-- Every request takes what it asked for at most, and asks for `m` at most. -/
def Bounded (m : Nat) (gs : List Request) : Prop :=
  ∀ g ∈ gs, g.take ≤ g.need ∧ g.need ≤ m

variable {ring} {cursor o e m : Nat} {g : Request} {gs : List Request}

@[simp] theorem total_nil : total [] = 0 := rfl

@[simp] theorem total_cons : total (g :: gs) = g.take + total gs := by
  simp [total]

theorem place_of_fits (h : cursor + g.need ≤ ring) : place ring cursor g = cursor :=
  if_neg (Nat.not_lt.mpr h)

theorem place_of_wraps (h : ring < cursor + g.need) : place ring cursor g = 0 :=
  if_pos h

theorem Bounded.head (h : Bounded m (g :: gs)) : g.take ≤ g.need ∧ g.need ≤ m :=
  h g List.mem_cons_self

theorem Bounded.tail (h : Bounded m (g :: gs)) : Bounded m gs := fun g' hg' =>
  h g' (List.mem_cons_of_mem g hg')

/-- A request that wraps goes where it would go from the start. -/
theorem spans_of_wraps (h : ring < cursor + g.need) :
    spans ring cursor (g :: gs) = spans ring 0 (g :: gs) := by
  have hzero : place ring 0 g = 0 := ite_self 0
  rw [spans, spans, next, next, place_of_wraps h, hzero]

section Aligned

variable {a : Nat} (hcursor : cursor % a = 0)
include hcursor

theorem place_aligned : place ring cursor g % a = 0 := by
  unfold place
  split
  · exact Nat.zero_mod a
  · exact hcursor

theorem next_aligned (htake : g.take % a = 0) : next ring cursor g % a = 0 := by
  rw [next, Nat.add_mod, place_aligned hcursor, htake, Nat.zero_mod]

theorem after_aligned (htake : ∀ g ∈ gs, g.take % a = 0) :
    after ring cursor gs % a = 0 := by
  induction gs generalizing cursor with
  | nil => exact hcursor
  | cons g gs ih =>
    exact ih (next_aligned hcursor (htake g List.mem_cons_self)) fun g' hg' =>
      htake g' (List.mem_cons_of_mem g hg')

/-- Requests that take multiples of `a` are placed at multiples of `a`. -/
theorem spans_aligned (htake : ∀ g ∈ gs, g.take % a = 0) :
    ∀ s ∈ spans ring cursor gs, s.1 % a = 0 := by
  induction gs generalizing cursor with
  | nil => nofun
  | cons g gs ih =>
    intro s hs
    obtain rfl | hs := List.mem_cons.mp hs
    · exact place_aligned hcursor
    · exact ih (next_aligned hcursor (htake g List.mem_cons_self))
        (fun g' hg' => htake g' (List.mem_cons_of_mem g hg')) s hs

end Aligned

theorem after_append (before : List Request) :
    after ring cursor (before ++ [g]) = next ring (after ring cursor before) g :=
  List.foldl_append

/-! ## Without a wrap -/

section Straight

variable (hbounded : Bounded m gs) (hroom : cursor + m * gs.length ≤ ring)
include hbounded hroom

theorem le_of_mem_spans : ∀ s ∈ spans ring cursor gs, cursor ≤ s.1 := by
  induction gs generalizing cursor with
  | nil => nofun
  | cons g gs ih =>
    have hhead := hbounded.head
    rw [List.length_cons, Nat.mul_succ] at hroom
    have hplace : place ring cursor g = cursor := place_of_fits (by omega)
    intro s hs
    rw [spans, next, hplace] at hs
    obtain rfl | hs := List.mem_cons.mp hs
    · exact Nat.le_refl _
    · have := ih hbounded.tail (by omega) s hs
      omega

/-- The requests end at the cursor plus what they take. -/
theorem le_total_of_mem_spans (htotal : cursor + total gs ≤ o) :
    ∀ s ∈ spans ring cursor gs, s.1 + s.2 ≤ o := by
  induction gs generalizing cursor with
  | nil => nofun
  | cons g gs ih =>
    have hhead := hbounded.head
    rw [List.length_cons, Nat.mul_succ] at hroom
    rw [total_cons] at htotal
    have hplace : place ring cursor g = cursor := place_of_fits (by omega)
    intro s hs
    rw [spans, next, hplace] at hs
    obtain rfl | hs := List.mem_cons.mp hs
    · show cursor + g.take ≤ o
      omega
    · exact ih hbounded.tail (by omega) (by omega) s hs

/-- Requests that take more than the room before `o` reach it, and one of them
covers it. -/
theorem exists_covering_straight (hle : cursor ≤ o) (hlt : o < cursor + total gs) :
    ∃ before g behind, gs = before ++ g :: behind ∧
      place ring (after ring cursor before) g ≤ o ∧
      o < after ring cursor (before ++ [g]) ∧
      ∀ s ∈ spans ring (after ring cursor (before ++ [g])) behind, o < s.1 := by
  induction gs generalizing cursor with
  | nil =>
    rw [total_nil] at hlt
    omega
  | cons g gs ih =>
    have hhead := hbounded.head
    rw [List.length_cons, Nat.mul_succ] at hroom
    rw [total_cons] at hlt
    have hplace : place ring cursor g = cursor := place_of_fits (by omega)
    have hnext : next ring cursor g = cursor + g.take := by rw [next, hplace]
    by_cases hcovers : o < cursor + g.take
    · refine ⟨[], g, gs, rfl, ?_, ?_, fun s hs => ?_⟩
      · show place ring cursor g ≤ o
        rwa [hplace]
      · show o < next ring cursor g
        rwa [hnext]
      · have hs' : s ∈ spans ring (next ring cursor g) gs := hs
        rw [hnext] at hs'
        have := le_of_mem_spans hbounded.tail (by omega) s hs'
        omega
    · obtain ⟨before, g', behind, hsplit, hplace', hover, hbehind⟩ :=
        @ih (cursor + g.take) hbounded.tail (by omega) (by omega) (by omega)
      refine ⟨g :: before, g', behind, by rw [hsplit]; rfl, ?_, ?_, ?_⟩
      · show place ring (after ring (next ring cursor g) before) g' ≤ o
        rwa [hnext]
      · show o < after ring (next ring cursor g) (before ++ [g'])
        rwa [hnext]
      · show ∀ s ∈ spans ring (after ring (next ring cursor g) (before ++ [g'])) behind,
          o < s.1
        rwa [hnext]

end Straight

/-! ## With a wrap -/

section Wrap

variable (hbounded : Bounded m gs) (hroom : m * gs.length ≤ ring)
include hbounded hroom

/-- If the answer is yes, no request touches `[o, e)`. -/
theorem avoids_of_retains (hle : e ≤ cursor) (h : retains ring o cursor gs = true) :
    ∀ s ∈ spans ring cursor gs, e ≤ s.1 ∨ s.1 + s.2 ≤ o := by
  induction gs generalizing cursor with
  | nil => nofun
  | cons g gs ih =>
    by_cases hwraps : ring < cursor + g.need
    · rw [retains, if_pos hwraps, decide_eq_true_eq] at h
      rw [spans_of_wraps hwraps]
      intro s hs
      exact .inr (le_total_of_mem_spans hbounded (by omega) (by omega) s hs)
    · rw [retains, if_neg hwraps] at h
      rw [List.length_cons, Nat.mul_succ] at hroom
      have hplace : place ring cursor g = cursor := if_neg hwraps
      intro s hs
      rw [spans, next, hplace] at hs
      obtain rfl | hs := List.mem_cons.mp hs
      · exact .inl hle
      · exact ih hbounded.tail (by omega) (by omega) h s hs

/-- If the answer is no, a request covers `o`, and none behind it touches `o`
again. -/
theorem exists_covering (h : retains ring o cursor gs = false) :
    ∃ before g behind, gs = before ++ g :: behind ∧
      place ring (after ring cursor before) g ≤ o ∧
      o < after ring cursor (before ++ [g]) ∧
      ∀ s ∈ spans ring (after ring cursor (before ++ [g])) behind, o < s.1 := by
  induction gs generalizing cursor with
  | nil => cases h
  | cons g gs ih =>
    by_cases hwraps : ring < cursor + g.need
    · rw [retains, if_pos hwraps, decide_eq_false_iff_not, Nat.not_le] at h
      obtain ⟨before, g', behind, hsplit, hcovering⟩ :=
        @exists_covering_straight ring 0 o m (g :: gs) hbounded (by omega)
          (Nat.zero_le o) (by omega)
      refine ⟨before, g', behind, hsplit, ?_⟩
      -- From the wrap on the cursor is where it would be from the start.
      have hsame : ∀ gs', after ring cursor (g :: gs') = after ring 0 (g :: gs') := by
        intro gs'
        have hzero : place ring 0 g = 0 := ite_self 0
        show after ring (next ring cursor g) gs' = after ring (next ring 0 g) gs'
        rw [next, next, place_of_wraps hwraps, hzero]
      cases before with
      | nil =>
        cases hsplit
        have hzero : place ring 0 g = 0 := ite_self 0
        have hsame' := hsame []
        refine ⟨?_, ?_, ?_⟩
        · show place ring cursor g ≤ o
          rw [place_of_wraps hwraps]
          exact Nat.zero_le o
        · rw [List.nil_append, hsame']
          exact hcovering.2.1
        · rw [List.nil_append, hsame']
          exact hcovering.2.2
      | cons g'' before =>
        cases hsplit
        rw [List.cons_append, hsame, hsame]
        exact hcovering
    · rw [retains, if_neg hwraps] at h
      rw [List.length_cons, Nat.mul_succ] at hroom
      have hnext : next ring cursor g = cursor + g.take := by
        rw [next, place, if_neg hwraps]
      obtain ⟨before, g', behind, hsplit, hcovering⟩ :=
        ih hbounded.tail (by omega) h
      refine ⟨g :: before, g', behind, by rw [hsplit]; rfl, ?_⟩
      show place ring (after ring (next ring cursor g) before) g' ≤ o ∧
        o < after ring (next ring cursor g) (before ++ [g']) ∧
        ∀ s ∈ spans ring (after ring (next ring cursor g) (before ++ [g'])) behind,
          o < s.1
      rw [hnext]
      exact hcovering

end Wrap

end BumpRing
