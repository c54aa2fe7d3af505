import Mathlib.Logic.Function.Basic
import RmwUnixSocket.Registry.Table

/-!
# The registry as its readers see it

The registry at the granularity of whole slots: a publication, a removal and
a snapshot of a slot are one step each, and the generation bump of a mutation
is a later step.  Any process may mutate, and mutations overlap freely.

* `publish`, `widen` and `bumpAdd` are `try_add_once`: the state byte gets the
  type of the entry, the high-water bound grows, the generation grows.
* `remove` and `bumpRemove` are `registry_remove` and one turn of
  `registry_cleanup_stale`.
* A registration is what one `registry_add` has stored.  The list of all
  registrations is a ghost, and so are the generations that their bumps have
  produced.

`Later` is what can happen to a directory in any number of mutations.
`Covers` is what the answer of a query owes to a generation; it is stable
under `Later`.
-/

namespace RmwUnixSocket.Graph

open Registry (RegistryEntry QueryFilter RegistryQueryResult)

variable {P : Type}

/-! ## Registrations -/

/-- What one `registry_add` has stored.  `added` and `removed` are the
generations that the two bumps have produced. -/
structure Registration (P : Type) where
  entry : RegistryEntry P
  slot : Nat
  widened : Bool
  added : Option Nat
  leaving : Bool
  removed : Option Nat

/-- The registry and its registrations.  A slot holds the number of its
registration. -/
structure Directory (P : Type) where
  capacity : Nat
  highWater : Nat
  generation : Nat
  slots : Nat → Option Nat
  regs : List (Registration P)

/-- One step of a mutation. -/
inductive Mutation (P : Type)
  | publish (slot : Nat) (entry : RegistryEntry P)
  | widen (id : Nat)
  | bumpAdd (id : Nat)
  | remove (id : Nat)
  | bumpRemove (id : Nat)

namespace Directory

/-- An initialised registry. -/
def initialized (P : Type) (capacity : Nat) : Directory P where
  capacity := capacity
  highWater := 0
  generation := 0
  slots := fun _ => none
  regs := []

variable (d : Directory P)

/-- A new registration in a slot. -/
def published (i : Nat) (e : RegistryEntry P) : Directory P :=
  { d with
    slots := Function.update d.slots i (some d.regs.length)
    regs := d.regs ++ [⟨e, i, false, none, false, none⟩] }

/-- The high-water bound covers the slot of a registration. -/
def wide (id : Nat) (r : Registration P) : Directory P :=
  { d with
    highWater := max d.highWater (r.slot + 1)
    regs := d.regs.set id { r with widened := true } }

/-- The bump of an addition. -/
def bumpedAdd (id : Nat) (r : Registration P) : Directory P :=
  { d with
    generation := d.generation + 1
    regs := d.regs.set id { r with added := some (d.generation + 1) } }

/-- The slot of a registration is empty again. -/
def vacated (id : Nat) (r : Registration P) : Directory P :=
  { d with
    slots := Function.update d.slots r.slot none
    regs := d.regs.set id { r with leaving := true } }

/-- The bump of a removal. -/
def bumpedRemove (id : Nat) (r : Registration P) : Directory P :=
  { d with
    generation := d.generation + 1
    regs := d.regs.set id { r with removed := some (d.generation + 1) } }

/-- One step of a mutation, if it can happen now. -/
def mutate : Mutation P → Option (Directory P)
  | .publish i e =>
    if i < d.capacity ∧ d.slots i = none then some (d.published i e) else none
  | .widen id =>
    match d.regs[id]? with
    | some r => if r.widened then none else some (d.wide id r)
    | none => none
  | .bumpAdd id =>
    match d.regs[id]? with
    | some r =>
      if r.widened ∧ r.added = none then some (d.bumpedAdd id r) else none
    | none => none
  | .remove id =>
    match d.regs[id]? with
    | some r => if r.leaving then none else some (d.vacated id r)
    | none => none
  | .bumpRemove id =>
    match d.regs[id]? with
    | some r =>
      if r.leaving ∧ r.removed = none then some (d.bumpedRemove id r) else none
    | none => none

end Directory

/-- The five things that a mutation can do. -/
inductive Mutated (d : Directory P) : Directory P → Prop
  | publish {i : Nat} {e : RegistryEntry P} (hi : i < d.capacity)
      (hfree : d.slots i = none) : Mutated d (d.published i e)
  | widen {id : Nat} {r : Registration P} (hr : d.regs[id]? = some r) :
      Mutated d (d.wide id r)
  | bumpAdd {id : Nat} {r : Registration P} (hr : d.regs[id]? = some r)
      (hwidened : r.widened = true) (hadded : r.added = none) :
      Mutated d (d.bumpedAdd id r)
  | remove {id : Nat} {r : Registration P} (hr : d.regs[id]? = some r)
      (hleaving : r.leaving = false) : Mutated d (d.vacated id r)
  | bumpRemove {id : Nat} {r : Registration P} (hr : d.regs[id]? = some r)
      (hleaving : r.leaving = true) (hremoved : r.removed = none) :
      Mutated d (d.bumpedRemove id r)

theorem mutated_of_mutate {d d' : Directory P} {a : Mutation P}
    (h : d.mutate a = some d') : Mutated d d' := by
  cases a with
  | publish i e =>
    simp only [Directory.mutate, Option.ite_none_right_eq_some,
      Option.some.injEq] at h
    obtain ⟨⟨hi, hfree⟩, rfl⟩ := h
    exact .publish hi hfree
  | widen id =>
    simp only [Directory.mutate] at h
    split at h
    · next r hr =>
      simp only [Option.ite_none_left_eq_some, Option.some.injEq] at h
      obtain ⟨-, rfl⟩ := h
      exact .widen hr
    · cases h
  | bumpAdd id =>
    simp only [Directory.mutate] at h
    split at h
    · next r hr =>
      simp only [Option.ite_none_right_eq_some, Option.some.injEq] at h
      obtain ⟨⟨hwidened, hadded⟩, rfl⟩ := h
      exact .bumpAdd hr hwidened hadded
    · cases h
  | remove id =>
    simp only [Directory.mutate] at h
    split at h
    · next r hr =>
      simp only [Option.ite_none_left_eq_some, Bool.not_eq_true,
        Option.some.injEq] at h
      obtain ⟨hleaving, rfl⟩ := h
      exact .remove hr hleaving
    · cases h
  | bumpRemove id =>
    simp only [Directory.mutate] at h
    split at h
    · next r hr =>
      simp only [Option.ite_none_right_eq_some, Option.some.injEq] at h
      obtain ⟨⟨hleaving, hremoved⟩, rfl⟩ := h
      exact .bumpRemove hr hleaving hremoved
    · cases h

/-! ## The invariant -/

/-- The slots, the bounds and the registrations agree. -/
structure DirectoryOk (d : Directory P) : Prop where
  slot : ∀ i id : Nat, d.slots i = some id →
    ∃ r : Registration P, d.regs[id]? = some r ∧ r.slot = i ∧ r.leaving = false
  held : ∀ (id : Nat) (r : Registration P), d.regs[id]? = some r →
    r.leaving = false → d.slots r.slot = some id
  inside : ∀ (id : Nat) (r : Registration P), d.regs[id]? = some r →
    r.slot < d.capacity
  covered : ∀ (id : Nat) (r : Registration P), d.regs[id]? = some r →
    r.widened = true → r.slot < d.highWater
  added : ∀ (id : Nat) (r : Registration P) (b : Nat), d.regs[id]? = some r →
    r.added = some b → r.widened = true ∧ b ≤ d.generation
  removed : ∀ (id : Nat) (r : Registration P) (b : Nat),
    d.regs[id]? = some r → r.removed = some b →
      r.leaving = true ∧ b ≤ d.generation

theorem DirectoryOk.initialized (n : Nat) :
    DirectoryOk (Directory.initialized P n) where
  slot _ _ h := nomatch h
  held _ _ h := nomatch h
  inside _ _ h := nomatch h
  covered _ _ h := nomatch h
  added _ _ _ h := nomatch h
  removed _ _ _ h := nomatch h

/-- What a registration is after an update of one of them. -/
theorem regs_set {l : List (Registration P)} {id j : Nat}
    {r r' x : Registration P} (hr : l[id]? = some r)
    (hx : (l.set id r')[j]? = some x) :
    j = id ∧ x = r' ∨ j ≠ id ∧ l[j]? = some x := by
  by_cases hj : j = id
  · subst hj
    obtain ⟨hlt, _⟩ := List.getElem?_eq_some_iff.mp hr
    rw [List.getElem?_set_self hlt] at hx
    exact .inl ⟨rfl, (Option.some.inj hx).symm⟩
  · rw [List.getElem?_set_ne (Ne.symm hj)] at hx
    exact .inr ⟨hj, hx⟩

theorem regs_append {l : List (Registration P)} {j : Nat}
    {r x : Registration P} (hx : (l ++ [r])[j]? = some x) :
    j = l.length ∧ x = r ∨ l[j]? = some x := by
  rcases Nat.lt_trichotomy j l.length with hlt | heq | hgt
  · rw [List.getElem?_append_left hlt] at hx
    exact .inr hx
  · subst heq
    rw [List.getElem?_concat_length] at hx
    exact .inl ⟨rfl, (Option.some.inj hx).symm⟩
  · obtain ⟨hlt, _⟩ := List.getElem?_eq_some_iff.mp hx
    simp only [List.length_append, List.length_singleton] at hlt
    omega

section

variable {d d' : Directory P}

theorem DirectoryOk.published (h : DirectoryOk d) {i : Nat}
    {e : RegistryEntry P} (hi : i < d.capacity) (hfree : d.slots i = none) :
    DirectoryOk (d.published i e) where
  slot := by
    intro j id hj
    change Function.update d.slots i (some d.regs.length) j = some id at hj
    rw [Function.update_apply] at hj
    split at hj
    · next hji =>
      obtain rfl := Option.some.inj hj
      exact ⟨_, List.getElem?_concat_length, hji.symm, rfl⟩
    · obtain ⟨r, hr, hslot⟩ := h.slot j id hj
      obtain ⟨hlt, _⟩ := List.getElem?_eq_some_iff.mp hr
      exact ⟨r, (List.getElem?_append_left hlt).trans hr, hslot⟩
  held := by
    intro id r hr hleaving
    show Function.update d.slots i (some d.regs.length) r.slot = some id
    rcases regs_append hr with ⟨rfl, rfl⟩ | hr
    · exact Function.update_self _ _ _
    · have hheld := h.held id r hr hleaving
      have hne : r.slot ≠ i := by
        intro heq
        rw [heq, hfree] at hheld
        cases hheld
      rw [Function.update_of_ne hne]
      exact hheld
  inside := by
    intro id r hr
    rcases regs_append hr with ⟨rfl, rfl⟩ | hr
    · exact hi
    · exact h.inside id r hr
  covered := by
    intro id r hr hwidened
    rcases regs_append hr with ⟨rfl, rfl⟩ | hr
    · cases hwidened
    · exact h.covered id r hr hwidened
  added := by
    intro id r b hr hadded
    rcases regs_append hr with ⟨rfl, rfl⟩ | hr
    · cases hadded
    · exact h.added id r b hr hadded
  removed := by
    intro id r b hr hremoved
    rcases regs_append hr with ⟨rfl, rfl⟩ | hr
    · cases hremoved
    · exact h.removed id r b hr hremoved

/-- An update of a registration that stays in its slot. -/
theorem DirectoryOk.update (h : DirectoryOk d) {id : Nat}
    {r r' : Registration P} (hr : d.regs[id]? = some r)
    (hregs : d'.regs = d.regs.set id r')
    (hentry : r'.slot = r.slot ∧ r'.leaving = r.leaving)
    (hslots : d'.slots = d.slots)
    (hcapacity : d'.capacity = d.capacity)
    (hhigh : d.highWater ≤ d'.highWater)
    (hgen : d.generation ≤ d'.generation)
    (hcovered : r'.widened = true → r'.slot < d'.highWater)
    (hadded : ∀ b, r'.added = some b → r'.widened = true ∧ b ≤ d'.generation)
    (hremoved : ∀ b, r'.removed = some b →
      r'.leaving = true ∧ b ≤ d'.generation) : DirectoryOk d' where
  slot := by
    intro i j hj
    rw [hslots] at hj
    obtain ⟨x, hx, hslot, hleaving⟩ := h.slot i j hj
    rw [hregs]
    by_cases hji : j = id
    · subst hji
      obtain rfl := Option.some.inj (hr.symm.trans hx)
      obtain ⟨hlt, _⟩ := List.getElem?_eq_some_iff.mp hr
      exact ⟨r', List.getElem?_set_self hlt, hentry.1.trans hslot,
        hentry.2.trans hleaving⟩
    · exact ⟨x, (List.getElem?_set_ne (Ne.symm hji)).trans hx, hslot, hleaving⟩
  held := by
    intro j x hx hleaving
    rw [hregs] at hx
    rw [hslots]
    rcases regs_set hr hx with ⟨rfl, rfl⟩ | ⟨-, hx⟩
    · rw [hentry.1]
      exact h.held j r hr (hentry.2.symm.trans hleaving)
    · exact h.held j x hx hleaving
  inside := by
    intro j x hx
    rw [hregs] at hx
    rw [hcapacity]
    rcases regs_set hr hx with ⟨rfl, rfl⟩ | ⟨-, hx⟩
    · rw [hentry.1]
      exact h.inside j r hr
    · exact h.inside j x hx
  covered := by
    intro j x hx hwidened
    rw [hregs] at hx
    rcases regs_set hr hx with ⟨rfl, rfl⟩ | ⟨-, hx⟩
    · exact hcovered hwidened
    · exact Nat.lt_of_lt_of_le (h.covered j x hx hwidened) hhigh
  added := by
    intro j x b hx hb
    rw [hregs] at hx
    rcases regs_set hr hx with ⟨rfl, rfl⟩ | ⟨-, hx⟩
    · exact hadded b hb
    · have hold := h.added j x b hx hb
      exact ⟨hold.1, Nat.le_trans hold.2 hgen⟩
  removed := by
    intro j x b hx hb
    rw [hregs] at hx
    rcases regs_set hr hx with ⟨rfl, rfl⟩ | ⟨-, hx⟩
    · exact hremoved b hb
    · have hold := h.removed j x b hx hb
      exact ⟨hold.1, Nat.le_trans hold.2 hgen⟩

theorem DirectoryOk.vacated (h : DirectoryOk d) {id : Nat}
    {r : Registration P} (hr : d.regs[id]? = some r)
    (hleaving : r.leaving = false) : DirectoryOk (d.vacated id r) where
  slot := by
    intro i j hj
    change Function.update d.slots r.slot none i = some j at hj
    rw [Function.update_apply] at hj
    split at hj
    · cases hj
    · next hi =>
      obtain ⟨x, hx, hslot, hstay⟩ := h.slot i j hj
      have hji : id ≠ j := by
        rintro rfl
        obtain rfl := Option.some.inj (hr.symm.trans hx)
        exact hi hslot.symm
      exact ⟨x, (List.getElem?_set_ne hji).trans hx, hslot, hstay⟩
  held := by
    intro j x hx hstay
    show Function.update d.slots r.slot none x.slot = some j
    rcases regs_set hr hx with ⟨rfl, rfl⟩ | ⟨hji, hx⟩
    · cases hstay
    · have hheld := h.held j x hx hstay
      have hne : x.slot ≠ r.slot := by
        intro heq
        rw [heq, h.held id r hr hleaving] at hheld
        exact hji (Option.some.inj hheld).symm
      rw [Function.update_of_ne hne]
      exact hheld
  inside := by
    intro j x hx
    rcases regs_set hr hx with ⟨rfl, rfl⟩ | ⟨-, hx⟩
    · exact h.inside j r hr
    · exact h.inside j x hx
  covered := by
    intro j x hx hwidened
    rcases regs_set hr hx with ⟨rfl, rfl⟩ | ⟨-, hx⟩
    · exact h.covered j r hr hwidened
    · exact h.covered j x hx hwidened
  added := by
    intro j x b hx hb
    rcases regs_set hr hx with ⟨rfl, rfl⟩ | ⟨-, hx⟩
    · exact h.added j r b hr hb
    · exact h.added j x b hx hb
  removed := by
    intro j x b hx hb
    rcases regs_set hr hx with ⟨rfl, rfl⟩ | ⟨-, hx⟩
    · exact ⟨rfl, (h.removed j r b hr hb).2⟩
    · exact h.removed j x b hx hb

/-- Every mutation keeps the invariant. -/
theorem DirectoryOk.mutated (h : DirectoryOk d) (hstep : Mutated d d') :
    DirectoryOk d' := by
  cases hstep with
  | publish hi hfree => exact h.published hi hfree
  | @widen id r hr =>
    have hadded := fun b => h.added id r b hr
    have hremoved := fun b => h.removed id r b hr
    refine h.update hr rfl ⟨rfl, rfl⟩ rfl rfl (Nat.le_max_left _ _)
      (Nat.le_refl _) ?_ ?_ hremoved
    · intro _
      show r.slot < max d.highWater (r.slot + 1)
      omega
    · intro b hb
      exact ⟨rfl, (hadded b hb).2⟩
  | @bumpAdd id r hr hwidened _ =>
    refine h.update hr rfl ⟨rfl, rfl⟩ rfl rfl (Nat.le_refl _)
      (Nat.le_succ _) (h.covered id r hr) ?_ ?_
    · intro b hb
      exact ⟨hwidened, Nat.le_of_eq (Option.some.inj hb).symm⟩
    · intro b hb
      have hold := h.removed id r b hr hb
      exact ⟨hold.1, Nat.le_succ_of_le hold.2⟩
  | remove hr hleaving => exact h.vacated hr hleaving
  | @bumpRemove id r hr hleaving _ =>
    refine h.update hr rfl ⟨rfl, rfl⟩ rfl rfl (Nat.le_refl _)
      (Nat.le_succ _) (h.covered id r hr) ?_ ?_
    · intro b hb
      have hold := h.added id r b hr hb
      exact ⟨hold.1, Nat.le_succ_of_le hold.2⟩
    · intro b hb
      exact ⟨hleaving, Nat.le_of_eq (Option.some.inj hb).symm⟩

/-! ## What mutations cannot undo -/

/-- What can happen to a registration while the generation is `gen` or
more. -/
structure Registration.Later (gen : Nat) (r r' : Registration P) : Prop where
  entry : r'.entry = r.entry
  slot : r'.slot = r.slot
  leaving : r'.leaving = false → r.leaving = false
  added : ∀ b, r'.added = some b → r.added = some b ∨ gen < b
  removed : ∀ b, r'.removed = some b → r.removed = some b ∨ gen < b

theorem Registration.Later.refl (gen : Nat) (r : Registration P) :
    r.Later gen r :=
  ⟨rfl, rfl, id, fun _ h => .inl h, fun _ h => .inl h⟩

/-- What can happen to a directory. -/
structure Directory.Later (d d' : Directory P) : Prop where
  capacity : d'.capacity = d.capacity
  highWater : d.highWater ≤ d'.highWater
  generation : d.generation ≤ d'.generation
  kept : ∀ (id : Nat) (r : Registration P), d.regs[id]? = some r →
    ∃ r', d'.regs[id]? = some r' ∧ r.Later d.generation r'
  fresh : ∀ (id : Nat) (r' : Registration P), d'.regs[id]? = some r' →
    d.regs[id]? = none → r'.added = none ∧ r'.removed = none

/-- An update of one registration. -/
theorem Directory.Later.update {id : Nat} {r r' : Registration P}
    (hr : d.regs[id]? = some r) (hregs : d'.regs = d.regs.set id r')
    (hlater : r.Later d.generation r')
    (hcapacity : d'.capacity = d.capacity)
    (hhigh : d.highWater ≤ d'.highWater)
    (hgen : d.generation ≤ d'.generation) : d.Later d' where
  capacity := hcapacity
  highWater := hhigh
  generation := hgen
  kept := by
    intro j x hx
    rw [hregs]
    by_cases hji : j = id
    · subst hji
      obtain rfl := Option.some.inj (hr.symm.trans hx)
      obtain ⟨hlt, _⟩ := List.getElem?_eq_some_iff.mp hr
      exact ⟨r', List.getElem?_set_self hlt, hlater⟩
    · exact ⟨x, (List.getElem?_set_ne (Ne.symm hji)).trans hx, .refl _ x⟩
  fresh := by
    intro j x hx hnone
    rw [hregs] at hx
    rcases regs_set hr hx with ⟨rfl, rfl⟩ | ⟨-, hx⟩
    · rw [hr] at hnone
      cases hnone
    · rw [hx] at hnone
      cases hnone

theorem Mutated.later (h : Mutated d d') : d.Later d' := by
  cases h with
  | @publish i e _ _ =>
    refine ⟨rfl, Nat.le_refl _, Nat.le_refl _, fun id r hr => ?_, ?_⟩
    · obtain ⟨hlt, _⟩ := List.getElem?_eq_some_iff.mp hr
      exact ⟨r, (List.getElem?_append_left hlt).trans hr, .refl _ r⟩
    · intro id r' hr' hnone
      rcases regs_append hr' with ⟨rfl, rfl⟩ | hr'
      · exact ⟨rfl, rfl⟩
      · rw [hr'] at hnone
        cases hnone
  | widen hr =>
    exact .update hr rfl ⟨rfl, rfl, id, fun _ h => .inl h, fun _ h => .inl h⟩
      rfl (Nat.le_max_left _ _) (Nat.le_refl _)
  | bumpAdd hr _ _ =>
    refine .update hr rfl ⟨rfl, rfl, id, fun b h => .inr ?_, fun _ h => .inl h⟩
      rfl (Nat.le_refl _) (Nat.le_succ _)
    exact Nat.lt_of_succ_le (Nat.le_of_eq (Option.some.inj h))
  | remove hr hleaving =>
    refine .update hr rfl ⟨rfl, rfl, ?_, fun _ h => .inl h, fun _ h => .inl h⟩
      rfl (Nat.le_refl _) (Nat.le_refl _)
    intro _
    exact hleaving
  | bumpRemove hr _ _ =>
    refine .update hr rfl ⟨rfl, rfl, id, fun _ h => .inl h, fun b h => .inr ?_⟩
      rfl (Nat.le_refl _) (Nat.le_succ _)
    exact Nat.lt_of_succ_le (Nat.le_of_eq (Option.some.inj h))

end

/-! ## What an answer owes to a generation -/

/-- The registrations `ids` are an answer to a query, as far as the slots
below `n` go, for a caller that has loaded the generation `g`: they match,
every matching one that was bumped in by then and is not on its way out is
among them, and none of them was bumped out by then. -/
structure Covers (d : Directory P) (flt : QueryFilter) (g n : Nat)
    (ids : List Nat) : Prop where
  known : ∀ id ∈ ids, ∃ r, d.regs[id]? = some r ∧ flt.Matches r.entry
  includes : ∀ (id : Nat) (r : Registration P) (b : Nat),
    d.regs[id]? = some r → r.slot < n → flt.Matches r.entry →
      r.added = some b → b ≤ g → r.leaving = false → id ∈ ids
  excludes : ∀ (id : Nat) (r : Registration P) (b : Nat),
    d.regs[id]? = some r → r.removed = some b → b ≤ g → id ∉ ids

/-- The slots below `max` have every registration that the generation `g`
knows of. -/
def Reaches (d : Directory P) (g max : Nat) : Prop :=
  ∀ (id : Nat) (r : Registration P) (b : Nat), d.regs[id]? = some r →
    r.added = some b → b ≤ g → r.slot < max

/-- The answers for the registrations. -/
def Directory.answers (d : Directory P) (ids : List Nat) :
    List RegistryQueryResult :=
  ids.filterMap fun id => d.regs[id]?.map fun r => r.entry.result

section

variable {d d' : Directory P} {flt : QueryFilter} {g n : Nat} {ids : List Nat}

/-- An answer for a generation serves every caller with an older one. -/
theorem Covers.older {g' : Nat} (h : Covers d flt g n ids) (hle : g' ≤ g) :
    Covers d flt g' n ids where
  known := h.known
  includes id r b hr hslot hmatch hadded hb :=
    h.includes id r b hr hslot hmatch hadded (Nat.le_trans hb hle)
  excludes id r b hr hremoved hb :=
    h.excludes id r b hr hremoved (Nat.le_trans hb hle)

/-- An answer stays good. -/
theorem Covers.later (h : Covers d flt g n ids) (hlater : d.Later d')
    (hg : g ≤ d.generation) : Covers d' flt g n ids where
  known := by
    intro id hid
    obtain ⟨r, hr, hmatch⟩ := h.known id hid
    obtain ⟨r', hr', hreg⟩ := hlater.kept id r hr
    rw [← hreg.entry] at hmatch
    exact ⟨r', hr', hmatch⟩
  includes := by
    intro id r' b hr' hslot hmatch hadded hb hleaving
    cases hr : d.regs[id]? with
    | none =>
      rw [(hlater.fresh id r' hr' hr).1] at hadded
      cases hadded
    | some r =>
      obtain ⟨x, hx, hreg⟩ := hlater.kept id r hr
      obtain rfl := Option.some.inj (hr'.symm.trans hx)
      rw [hreg.slot] at hslot
      rw [hreg.entry] at hmatch
      rcases hreg.added b hadded with hold | hnew
      · exact h.includes id r b hr hslot hmatch hold hb (hreg.leaving hleaving)
      · omega
  excludes := by
    intro id r' b hr' hremoved hb hid
    obtain ⟨r, hr, -⟩ := h.known id hid
    obtain ⟨x, hx, hreg⟩ := hlater.kept id r hr
    obtain rfl := Option.some.inj (hr'.symm.trans hx)
    rcases hreg.removed b hremoved with hold | hnew
    · exact h.excludes id r b hr hold hb hid
    · omega

theorem Reaches.later {max : Nat} (h : Reaches d g max) (hlater : d.Later d')
    (hg : g ≤ d.generation) : Reaches d' g max := by
  intro id r' b hr' hadded hb
  cases hr : d.regs[id]? with
  | none =>
    rw [(hlater.fresh id r' hr' hr).1] at hadded
    cases hadded
  | some r =>
    obtain ⟨x, hx, hreg⟩ := hlater.kept id r hr
    obtain rfl := Option.some.inj (hr'.symm.trans hx)
    rw [hreg.slot]
    rcases hreg.added b hadded with hold | hnew
    · exact h id r b hr hold hb
    · omega

/-- The high-water bound that is loaded now reaches everything. -/
theorem DirectoryOk.reaches (h : DirectoryOk d) (g : Nat) :
    Reaches d g (min d.highWater d.capacity) := by
  intro id r b hr hadded _
  have hwide := h.covered id r hr (h.added id r b hr hadded).1
  have hinside := h.inside id r hr
  omega

/-- A finished scan. -/
theorem Covers.all {max : Nat} (h : Covers d flt g n ids) (hn : max ≤ n)
    (hreach : Reaches d g max) (n' : Nat) : Covers d flt g n' ids where
  known := h.known
  includes id r b hr _ hmatch hadded hb hleaving := by
    have hslot := hreach id r b hr hadded hb
    exact h.includes id r b hr (by omega) hmatch hadded hb hleaving
  excludes := h.excludes

theorem Covers.start (d : Directory P) (flt : QueryFilter) (g : Nat) :
    Covers d flt g 0 [] where
  known _ h := nomatch h
  includes _ _ _ _ h := absurd h (Nat.not_lt_zero _)
  excludes _ _ _ _ _ _ h := nomatch h

/-- Nothing is owed to the generation 0. -/
theorem Covers.initialized (capacity : Nat) (flt : QueryFilter) (n : Nat) :
    Covers (Directory.initialized P capacity) flt 0 n [] where
  known _ h := nomatch h
  includes _ _ _ h := nomatch h
  excludes _ _ _ h := nomatch h

/-- A slot without a matching registration. -/
theorem Covers.skip (h : Covers d flt g n ids) (hok : DirectoryOk d)
    (hskip : ∀ id r, d.slots n = some id → d.regs[id]? = some r →
      ¬flt.Matches r.entry) : Covers d flt g (n + 1) ids where
  known := h.known
  includes := by
    intro id r b hr hslot hmatch hadded hb hleaving
    rcases Nat.lt_succ_iff_lt_or_eq.mp hslot with hlt | heq
    · exact h.includes id r b hr hlt hmatch hadded hb hleaving
    · have hheld := hok.held id r hr hleaving
      rw [heq] at hheld
      exact absurd hmatch (hskip id r hheld hr)
  excludes := h.excludes

/-- A slot with a matching registration. -/
theorem Covers.take (h : Covers d flt g n ids) (hok : DirectoryOk d)
    {id : Nat} {r : Registration P} (hslot : d.slots n = some id)
    (hr : d.regs[id]? = some r) (hmatch : flt.Matches r.entry) :
    Covers d flt g (n + 1) (ids ++ [id]) where
  known := by
    intro j hj
    rcases List.mem_append.mp hj with hj | hj
    · exact h.known j hj
    · obtain rfl := List.mem_singleton.mp hj
      exact ⟨r, hr, hmatch⟩
  includes := by
    intro j x b hx hxslot hxmatch hadded hb hleaving
    apply List.mem_append.mpr
    rcases Nat.lt_succ_iff_lt_or_eq.mp hxslot with hlt | heq
    · exact .inl (h.includes j x b hx hlt hxmatch hadded hb hleaving)
    · have hheld := hok.held j x hx hleaving
      rw [heq, hslot] at hheld
      exact .inr (List.mem_singleton.mpr (Option.some.inj hheld).symm)
  excludes := by
    intro j x b hx hremoved hb hj
    rcases List.mem_append.mp hj with hj | hj
    · exact h.excludes j x b hx hremoved hb hj
    · obtain rfl := List.mem_singleton.mp hj
      obtain rfl := Option.some.inj (hr.symm.trans hx)
      obtain ⟨y, hy, -, hstay⟩ := hok.slot n j hslot
      obtain rfl := Option.some.inj (hr.symm.trans hy)
      rw [(hok.removed j r b hr hremoved).1] at hstay
      cases hstay

/-- The answers do not change. -/
theorem Covers.answers_later (h : Covers d flt g n ids)
    (hlater : d.Later d') : d'.answers ids = d.answers ids := by
  refine List.filterMap_congr fun id hid => ?_
  obtain ⟨r, hr, -⟩ := h.known id hid
  obtain ⟨r', hr', hreg⟩ := hlater.kept id r hr
  rw [hr, hr', Option.map_some, Option.map_some, hreg.entry]

end

end RmwUnixSocket.Graph
