import Mathlib.Data.List.Infix

/-!
# Searching and rewriting strings

A string is the list of its characters.  `find` searches a pattern from a position on,
`replaceLoop` rewrites the first occurrence at or after its position and goes on at that
place.  Over pieces joined by a doubled character the loop puts its substitute for every
separator, as long as no piece holds the doubled character or touches it at an end.
-/

namespace Rewriting

variable {α : Type} [DecidableEq α]

/-- The first position from `pos` on at which `pat` stands. -/
def find (pat s : List α) (pos : Nat) : Option Nat :=
  (List.range (s.length + 1)).find? fun p => pos ≤ p ∧ pat <+: s.drop p

/-- The string with the `len` characters at `pos` replaced. -/
def replace (s : List α) (pos len : Nat) (sub : List α) : List α :=
  s.take pos ++ sub ++ s.drop (pos + len)

/-- Rewrite occurrence after occurrence, the search never going back. -/
def replaceLoop (pat sub : List α) : Nat → List α → Nat → Option (List α)
  | 0, _, _ => none
  | fuel + 1, s, pos =>
    match find pat s pos with
    | none => some s
    | some p => replaceLoop pat sub fuel (replace s p pat.length sub) p

/-! ## The search -/

theorem find_eq_none {pat s : List α} {pos : Nat}
    (hno : ∀ p, pos ≤ p → ¬ pat <+: s.drop p) : find pat s pos = none := by
  simp only [find, List.find?_eq_none, List.mem_range, decide_eq_true_eq, not_and]
  intro p _ hp
  exact hno p hp

theorem find_eq_some {pat s : List α} {pos p : Nat} (hle : p ≤ s.length) (hpos : pos ≤ p)
    (hat : pat <+: s.drop p) (hfirst : ∀ q, pos ≤ q → q < p → ¬ pat <+: s.drop q) :
    find pat s pos = some p := by
  simp only [find, List.find?_range_eq_some, decide_eq_true_eq, List.mem_range]
  refine ⟨⟨hpos, hat⟩, by omega, ?_⟩
  intro q hq
  by_cases hlt : pos ≤ q
  · simp [hlt, hfirst q hlt hq]
  · simp [hlt]

theorem find_spec {pat s : List α} {pos p : Nat} (hfind : find pat s pos = some p) :
    p ≤ s.length ∧ pos ≤ p ∧ pat <+: s.drop p := by
  simp only [find, List.find?_range_eq_some, decide_eq_true_eq, List.mem_range] at hfind
  obtain ⟨⟨hpos, hat⟩, hlt, -⟩ := hfind
  exact ⟨by omega, hpos, hat⟩

/-! ## The loop ends -/

omit [DecidableEq α] in
theorem length_replace {s sub : List α} {pos len : Nat} (hin : pos + len ≤ s.length) :
    (replace s pos len sub).length + len = s.length + sub.length := by
  simp only [replace, List.length_append, List.length_take, List.length_drop]
  omega

omit [DecidableEq α] in
theorem replace_append (front pat sub tail : List α) :
    replace (front ++ (pat ++ tail)) front.length pat.length sub = front ++ (sub ++ tail) := by
  have hdrop : (front ++ (pat ++ tail)).drop (front.length + pat.length) = tail := by
    rw [← List.append_assoc, ← List.length_append]
    exact List.drop_left
  simp only [replace, List.take_left, hdrop, List.append_assoc]

/-- A substitute shorter than the pattern shortens the string at every turn. -/
theorem replaceLoop_terminates {pat sub : List α} (hshort : sub.length < pat.length)
    (s : List α) : ∀ pos, ∃ r, ∀ fuel, s.length < fuel →
      replaceLoop pat sub fuel s pos = some r := by
  induction hn : s.length using Nat.strong_induction_on generalizing s with
  | _ n ih =>
    intro pos
    cases hfind : find pat s pos with
    | none =>
      refine ⟨s, ?_⟩
      intro fuel hfuel
      obtain ⟨fuel, rfl⟩ : ∃ k, fuel = k + 1 := ⟨fuel - 1, by omega⟩
      simp [replaceLoop, hfind]
    | some p =>
      obtain ⟨hle, -, hat⟩ := find_spec hfind
      have hin : pat.length ≤ s.length - p := by simpa using hat.length_le
      have hlen : (replace s p pat.length sub).length + pat.length =
          s.length + sub.length := length_replace (by omega)
      obtain ⟨r, hr⟩ := ih (replace s p pat.length sub).length (by omega) _ rfl p
      refine ⟨r, ?_⟩
      intro fuel hfuel
      obtain ⟨fuel, rfl⟩ : ∃ k, fuel = k + 1 := ⟨fuel - 1, by omega⟩
      simp only [replaceLoop, hfind]
      exact hr fuel (by omega)

/-! ## Pieces joined by a doubled character -/

/-- No doubled `c` inside, none that a `c` beside the piece could complete. -/
structure Plain (c : α) (w : List α) : Prop where
  no_double : ¬ [c, c] <:+: w
  head : w.head? ≠ some c
  last : w.getLast? ≠ some c

omit [DecidableEq α] in
theorem Plain.of_not_mem {c : α} {w : List α} (hc : c ∉ w) : Plain c w where
  no_double := fun h => hc (h.subset (by simp))
  head := fun h => hc (List.mem_of_mem_head? (by simp [h]))
  last := fun h => hc (List.mem_of_getLast? h)

omit [DecidableEq α] in
/-- A separator of another character in front keeps a piece plain. -/
theorem Plain.cons {c d : α} {w : List α} (hw : Plain c w) (hd : d ≠ c) : Plain c (d :: w) where
  no_double := by
    intro h
    obtain h | h := List.infix_cons_iff.mp h
    · exact hd (List.cons_prefix_cons.mp h).1.symm
    · exact hw.no_double h
  head := by simpa using hd
  last := by
    cases w with
    | nil => simpa using hd
    | cons a w => simpa [List.getLast?_cons_cons] using hw.last

omit [DecidableEq α] in
/-- No occurrence starts inside a plain piece, whatever follows it. -/
theorem Plain.no_occurrence {c : α} {w : List α} (hw : Plain c w) (rest : List α) {q : Nat}
    (hq : q < w.length) : ¬ [c, c] <+: (w ++ rest).drop q := by
  intro hat
  rw [List.drop_append_of_le_length (by omega)] at hat
  cases hdrop : w.drop q with
  | nil => simp [List.drop_eq_nil_iff] at hdrop; omega
  | cons a tail =>
    rw [hdrop] at hat
    obtain ⟨hca, hat⟩ := List.cons_prefix_cons.mp hat
    have hsuffix : c :: tail <:+ w := by
      rw [hca, ← hdrop]
      exact List.drop_suffix q w
    cases tail with
    | nil =>
      apply hw.last
      obtain ⟨front, rfl⟩ := hsuffix
      simp
    | cons b tail =>
      obtain ⟨hcb, -⟩ := List.cons_prefix_cons.mp hat
      apply hw.no_double
      rw [← hcb] at hsuffix
      exact List.IsInfix.trans ⟨[], tail, by simp⟩ hsuffix.isInfix

omit [DecidableEq α] in
/-- Nothing to find in plain pieces joined by another character. -/
theorem no_occurrence_join {c d : α} (hd : d ≠ c) (ws : List (List α))
    (hws : ∀ w ∈ ws, Plain c w) (w : List α) (hw : Plain c w) (p : Nat) :
    ¬ [c, c] <+: ([d].intercalate (w :: ws)).drop p := by
  induction ws generalizing w p with
  | nil =>
    rw [List.intercalate_singleton]
    by_cases hp : p < w.length
    · simpa using hw.no_occurrence [] hp
    · rw [List.drop_eq_nil_of_le (by omega)]
      simp
  | cons v ws ih =>
    rw [List.intercalate_cons_cons, List.append_assoc]
    by_cases hp : p < w.length
    · exact hw.no_occurrence _ hp
    · rw [List.drop_append, List.drop_eq_nil_of_le (by omega), List.nil_append]
      cases hk : p - w.length with
      | zero => simp [Ne.symm hd]
      | succ k =>
        rw [List.singleton_append, List.drop_succ_cons]
        exact ih (fun u hu => hws u (by simp [hu])) v (hws v (by simp)) k

/-- The loop puts its substitute for every separator.  What it has passed stays in front,
and the substitute it has put becomes the start of the next piece. -/
theorem replaceLoop_join {c d : α} (hd : d ≠ c) (ws : List (List α))
    (hws : ∀ w ∈ ws, Plain c w) (done w : List α) (hw : Plain c w) {fuel : Nat}
    (hfuel : ws.length < fuel) :
    replaceLoop [c, c] [d] fuel (done ++ [c, c].intercalate (w :: ws)) done.length =
      some (done ++ [d].intercalate (w :: ws)) := by
  induction ws generalizing done w fuel with
  | nil =>
    obtain ⟨fuel, rfl⟩ : ∃ k, fuel = k + 1 := ⟨fuel - 1, by omega⟩
    have hnone : find [c, c] (done ++ w) done.length = none := by
      apply find_eq_none
      intro p hp
      rw [List.drop_append, List.drop_eq_nil_of_le hp, List.nil_append]
      simpa using no_occurrence_join hd [] (by simp) w hw (p - done.length)
    simp [replaceLoop, hnone]
  | cons v ws ih =>
    obtain ⟨fuel, rfl⟩ : ∃ k, fuel = k + 1 := ⟨fuel - 1, by omega⟩
    rw [List.intercalate_cons_cons, List.intercalate_cons_cons]
    have hfind : find [c, c] (done ++ (w ++ [c, c] ++ [c, c].intercalate (v :: ws)))
        done.length = some (done ++ w).length := by
      apply find_eq_some
      · simp
      · simp
      · simp [List.drop_append, List.drop_eq_nil_of_le]
      · intro q hq hlt
        rw [List.drop_append, List.drop_eq_nil_of_le hq, List.nil_append, List.append_assoc]
        apply hw.no_occurrence
        simp only [List.length_append] at hlt
        omega
    have hreplace : replace (done ++ (w ++ [c, c] ++ [c, c].intercalate (v :: ws)))
        (done ++ w).length [c, c].length [d] =
        (done ++ w) ++ [c, c].intercalate ((d :: v) :: ws) := by
      have hjoin : [c, c].intercalate ((d :: v) :: ws) =
          d :: [c, c].intercalate (v :: ws) := by
        cases ws <;> simp
      rw [hjoin, ← List.append_assoc, ← List.append_assoc, List.append_assoc,
        replace_append, List.singleton_append]
    simp only [replaceLoop, hfind, hreplace]
    rw [ih (fun u hu => hws u (by simp [hu])) (done ++ w) (d :: v)
      ((hws v (by simp)).cons hd) (by simp at hfuel; omega)]
    cases ws <;> simp

end Rewriting
