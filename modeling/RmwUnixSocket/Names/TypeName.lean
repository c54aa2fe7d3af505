import RmwUnixSocket.Lib.Rewriting

/-!
# Type names from introspection namespaces

The C++ typesupport joins the namespace of a type with `::`, the C typesupport with `__`.
`makeRosTypeName` rewrites both separators to `/`, in two loops over the same string, and
appends the message name.  A loop that has no fuel left has not returned.
-/

namespace RmwUnixSocket.Names

open Rewriting

/-- types.hpp `make_ros_type_name`. -/
def makeRosTypeName (fuel : Nat) (ns name : List Char) : Option (List Char) := do
  -- "::" of the C++ introspection, then "__" of the C introspection
  let result ← replaceLoop [':', ':'] ['/'] fuel ns 0
  let result ← replaceLoop ['_', '_'] ['/'] fuel result 0
  return result ++ ['/'] ++ name

/-- No colon, no double underscore, no underscore at either end. -/
structure Identifier (w : List Char) : Prop where
  no_colon : ':' ∉ w
  plain : Plain '_' w

theorem Identifier.plain_colon {w : List Char} (hw : Identifier w) : Plain ':' w :=
  Plain.of_not_mem hw.no_colon

/-- A loop leaves a string alone that does not hold its pattern. -/
theorem replaceLoop_of_no_occurrence {pat sub s : List Char}
    (hno : ∀ p, ¬ pat <+: s.drop p) {fuel : Nat} (hfuel : 0 < fuel) :
    replaceLoop pat sub fuel s 0 = some s := by
  obtain ⟨fuel, rfl⟩ : ∃ k, fuel = k + 1 := ⟨fuel - 1, by omega⟩
  have hfind : find pat s 0 = none := find_eq_none fun p _ => hno p
  simp only [replaceLoop, hfind]

theorem mem_intercalate {α : Type} {sep : List α} {ws : List (List α)} {a : α}
    (ha : a ∈ sep.intercalate ws) : a ∈ sep ∨ ∃ w ∈ ws, a ∈ w := by
  induction ws with
  | nil => simp at ha
  | cons w ws ih =>
    cases ws with
    | nil => exact Or.inr ⟨w, by simp, by simpa using ha⟩
    | cons v ws =>
      rw [List.intercalate_cons_cons, List.mem_append, List.mem_append] at ha
      obtain (hw | hsep) | hrest := ha
      · exact Or.inr ⟨w, by simp, hw⟩
      · exact Or.inl hsep
      · obtain hsep | ⟨u, hu, hau⟩ := ih hrest
        · exact Or.inl hsep
        · exact Or.inr ⟨u, List.mem_cons_of_mem _ hu, hau⟩

/-- The namespace of the C++ typesupport: only the first loop finds anything. -/
theorem make_ros_type_name_cpp {ws : List (List Char)} (hws : ∀ w ∈ ws, Identifier w)
    (name : List Char) {fuel : Nat} (hfuel : ws.length < fuel) :
    makeRosTypeName fuel ([':', ':'].intercalate ws) name =
      some (['/'].intercalate ws ++ ['/'] ++ name) := by
  have hslash : ∀ p, ¬ ['_', '_'] <+: (['/'].intercalate ws).drop p := by
    intro p
    cases ws with
    | nil => simp
    | cons w ws =>
      exact no_occurrence_join (by decide) ws (fun v hv => (hws v (by simp [hv])).plain) w
        (hws w (by simp)).plain p
  have hcolon : replaceLoop [':', ':'] ['/'] fuel ([':', ':'].intercalate ws) 0 =
      some (['/'].intercalate ws) := by
    cases ws with
    | nil => exact replaceLoop_of_no_occurrence (by simp) (by omega)
    | cons w ws =>
      exact replaceLoop_join (by decide) ws (fun v hv => (hws v (by simp [hv])).plain_colon)
        [] w (hws w (by simp)).plain_colon (by simp at hfuel; omega)
  simp [makeRosTypeName, hcolon,
    replaceLoop_of_no_occurrence hslash (show 0 < fuel by omega)]

/-- The namespace of the C typesupport: the first loop finds nothing. -/
theorem make_ros_type_name_c {ws : List (List Char)} (hws : ∀ w ∈ ws, Identifier w)
    (name : List Char) {fuel : Nat} (hfuel : ws.length < fuel) :
    makeRosTypeName fuel (['_', '_'].intercalate ws) name =
      some (['/'].intercalate ws ++ ['/'] ++ name) := by
  have hcolon : ∀ p, ¬ [':', ':'] <+: (['_', '_'].intercalate ws).drop p := by
    intro p hat
    have hmem : ':' ∈ ['_', '_'].intercalate ws :=
      List.mem_of_mem_drop (hat.subset (by simp))
    obtain hsep | ⟨w, hw, hcw⟩ := mem_intercalate hmem
    · simp at hsep
    · exact (hws w hw).no_colon hcw
  have hunder : replaceLoop ['_', '_'] ['/'] fuel (['_', '_'].intercalate ws) 0 =
      some (['/'].intercalate ws) := by
    cases ws with
    | nil => exact replaceLoop_of_no_occurrence (by simp) (by omega)
    | cons w ws =>
      exact replaceLoop_join (by decide) ws (fun v hv => (hws v (by simp [hv])).plain)
        [] w (hws w (by simp)).plain (by simp at hfuel; omega)
  simp [makeRosTypeName, replaceLoop_of_no_occurrence hcolon (show 0 < fuel by omega), hunder]

/-- Both loops shorten the string at every turn. -/
theorem make_ros_type_name_terminates (ns name : List Char) :
    ∃ fuel r, ∀ fuel', fuel ≤ fuel' → makeRosTypeName fuel' ns name = some r := by
  have hcolon : ['/'].length < [':', ':'].length := by decide
  have hunder : ['/'].length < ['_', '_'].length := by decide
  obtain ⟨mid, hmid⟩ := replaceLoop_terminates hcolon ns 0
  obtain ⟨r, hr⟩ := replaceLoop_terminates hunder mid 0
  refine ⟨ns.length + mid.length + 1, r ++ ['/'] ++ name, ?_⟩
  intro fuel hfuel
  simp [makeRosTypeName, hmid fuel (by omega), hr fuel (by omega)]

/-- The two typesupports name a type alike, and no namespace makes a loop run forever. -/
theorem make_ros_type_name_agrees (ws : List (List Char)) (hws : ∀ w ∈ ws, Identifier w)
    (name : List Char) :
    (∀ fuel, ws.length < fuel →
      makeRosTypeName fuel ([':', ':'].intercalate ws) name =
        some (['/'].intercalate ws ++ ['/'] ++ name) ∧
      makeRosTypeName fuel (['_', '_'].intercalate ws) name =
        some (['/'].intercalate ws ++ ['/'] ++ name)) ∧
    ∀ ns : List Char, ∃ fuel r, ∀ fuel', fuel ≤ fuel' →
      makeRosTypeName fuel' ns name = some r := by
  refine ⟨?_, fun ns => make_ros_type_name_terminates ns name⟩
  intro fuel hfuel
  exact ⟨make_ros_type_name_cpp hws name hfuel, make_ros_type_name_c hws name hfuel⟩

/-- `a_b::msg` and `a_b__msg`. -/
theorem make_ros_type_name_agrees_msg :
    makeRosTypeName 3 ['a', '_', 'b', ':', ':', 'm'] ['S'] =
        some ['a', '_', 'b', '/', 'm', '/', 'S'] ∧
      makeRosTypeName 3 ['a', '_', 'b', '_', '_', 'm'] ['S'] =
        some ['a', '_', 'b', '/', 'm', '/', 'S'] := by
  have hws : ∀ w ∈ [['a', '_', 'b'], ['m']], Identifier w := by
    intro w hw
    simp only [List.mem_cons, List.not_mem_nil, or_false] at hw
    obtain rfl | rfl := hw
    · exact ⟨by decide, ⟨by decide, by decide, by decide⟩⟩
    · exact ⟨by decide, ⟨by decide, by decide, by decide⟩⟩
  exact (make_ros_type_name_agrees [['a', '_', 'b'], ['m']] hws ['S']).1 3 (by decide)

end RmwUnixSocket.Names
