import RmwUnixSocket.Registry.Program
import RmwUnixSocket.Lib.SlotTable

/-!
# Registry calls, one at a time

`Returns` runs the step machine of `Program.lean` alone, from a program
counter to the answer of the call: no other process moves, and every
weak compare-and-swap may fail for no reason.

`Leads alive c d` says that a call at `c` has the same outcomes as a call at
`d`.  There is one such lemma for each piece of the source: the payload copy,
the teardown, the snapshot, the widening of the high-water bound.  The lemmas
hold in a `Calm` region, which no writer has left half-way; the calls of
`registry.cpp` find one and leave one.
-/

namespace RmwUnixSocket.Registry

variable {P : Type}

/-! ## Running one call -/

/-- A call at local state `c.2` over the region `c.1` comes back with the
region `m` and the answer `r`. -/
inductive Returns (alive : P → Bool) :
    Region P × Local P → Region P → Ret → Prop
  | done {m : Region P} {l : Local P} {r : Ret} (hidle : l.pc = .idle)
      (hret : l.ret = some r) : Returns alive (m, l) m r
  | step {m m' : Region P} {l l' : Local P} {r : Ret} {spurious : Bool}
      {eff : Effect P} (hexec : exec alive spurious m l = some (eff, l'))
      (rest : Returns alive (m.apply eff, l') m' r) : Returns alive (m, l) m' r

/-- The two calls have the same outcomes. -/
def Leads (alive : P → Bool) (c d : Region P × Local P) : Prop :=
  ∀ m r, Returns alive c m r ↔ Returns alive d m r

section

variable {alive : P → Bool} {m m' : Region P} {l l' : Local P}

theorem Leads.refl (c : Region P × Local P) : Leads alive c c :=
  fun _ _ => Iff.rfl

theorem Leads.trans {c d e : Region P × Local P} (hcd : Leads alive c d)
    (hde : Leads alive d e) : Leads alive c e :=
  fun m r => (hcd m r).trans (hde m r)

instance : Trans (Leads alive) (Leads alive) (Leads alive) where
  trans := Leads.trans

theorem not_idle_of_exec {spurious : Bool} {out : Effect P × Local P}
    (h : exec alive spurious m l = some out) : l.pc ≠ .idle := by
  intro hidle
  unfold exec at h
  rw [hidle] at h
  cases h

/-- A step that does not depend on the compare-and-swap. -/
theorem Leads.of_exec {eff : Effect P}
    (h : ∀ spurious, exec alive spurious m l = some (eff, l')) :
    Leads alive (m, l) (m.apply eff, l') := by
  intro m' r
  constructor
  · intro hret
    cases hret with
    | done hidle _ => exact absurd hidle (not_idle_of_exec (h true))
    | step hexec rest =>
      rw [h] at hexec
      cases hexec
      exact rest
  · intro hret
    exact .step (h true) hret

theorem Leads.step {eff : Effect P} {d : Region P × Local P}
    (h : ∀ spurious, exec alive spurious m l = some (eff, l'))
    (rest : Leads alive (m.apply eff, l') d) : Leads alive (m, l) d :=
  (Leads.of_exec h).trans rest

/-- A step that leaves the region alone. -/
theorem Leads.of_quiet
    (h : ∀ spurious, exec alive spurious m l = some (.none, l')) :
    Leads alive (m, l) (m, l') :=
  Leads.of_exec h

/-- An idle process has returned. -/
theorem returns_answer {r r' : Ret} :
    Returns alive (m, l.answer r) m' r' ↔ m' = m ∧ r' = r := by
  constructor
  · intro hret
    cases hret with
    | done _ hret => exact ⟨rfl, (Option.some.inj hret).symm⟩
    | step hexec _ => exact absurd rfl (not_idle_of_exec hexec)
  · intro h
    rw [h.1, h.2]
    exact .done rfl rfl

theorem returns_returnIndex {e : RegistryEntry P} {i : Nat} {r : Ret} :
    Returns alive (m, l.returnIndex e i) m' r ↔ m' = m ∧ r = .index i := by
  constructor
  · intro hret
    cases hret with
    | done _ hret => exact ⟨rfl, (Option.some.inj hret).symm⟩
    | step hexec _ => exact absurd rfl (not_idle_of_exec hexec)
  · intro h
    rw [h.1, h.2]
    exact .done rfl rfl

end

/-! ## The loop heads do not look at the program counter -/

namespace Local

variable (l : Local P) (pc : Pc P)

@[simp] theorem goto_goto (pc' : Pc P) : (l.goto pc).goto pc' = l.goto pc' :=
  rfl

@[simp] theorem goto_answer (r : Ret) : (l.goto pc).answer r = l.answer r :=
  rfl

@[simp] theorem goto_returnIndex (e : RegistryEntry P) (i : Nat) :
    (l.goto pc).returnIndex e i = l.returnIndex e i := rfl

@[simp] theorem goto_addLoop (max : Nat) (e : RegistryEntry P) (i : Nat)
    (again : Bool) :
    (l.goto pc).addLoop max e i again = l.addLoop max e i again := rfl

@[simp] theorem goto_sweepDone (max : Nat) (ret : SweepReturn P) :
    (l.goto pc).sweepDone max ret = l.sweepDone max ret := by
  cases ret <;> rfl

@[simp] theorem goto_sweepLoop (max : Nat) (w : Sweep P) (i : Nat) :
    (l.goto pc).sweepLoop max w i = l.sweepLoop max w i := by
  simp only [sweepLoop, goto_goto, goto_sweepDone]

@[simp] theorem goto_queryLoop (q : Query) (i : Nat) :
    (l.goto pc).queryLoop q i = l.queryLoop q i := rfl

@[simp] theorem goto_snapDone (i : Nat) (snap : Snapshot P)
    (c : SnapCaller P) : (l.goto pc).snapDone i snap c = l.snapDone i snap c := by
  cases c <;> rfl

@[simp] theorem goto_snapFail (max i : Nat) (c : SnapCaller P) :
    (l.goto pc).snapFail max i c = l.snapFail max i c := by
  cases c with
  | sweep w => exact goto_sweepLoop l pc max w (i + 1)
  | query q => rfl

@[simp] theorem goto_tearDone (i : Nat) (c : TearCaller P) :
    (l.goto pc).tearDone i c = l.tearDone i c := by
  cases c <;> rfl

end Local

@[simp] theorem Region.setSlot_setSlot (m : Region P) (i : Nat)
    (a b : RegistryEntrySlot P) : (m.setSlot i a).setSlot i b = m.setSlot i b := by
  simp [Region.setSlot]

/-! ## The payload copies -/

section

variable {alive : P → Bool} (m : Region P) (l : Local P)

/-- The copy of `write_slot_payload`, up to the second `fetch_add`. -/
theorem leads_writing (e : RegistryEntry P) (i : Nat) (rest : List Field)
    (hagree : Words.AgreeOff rest e.payload (m.slots i).payload) :
    Leads alive (m, l.goto (.writing e i rest))
      (m.setSlot i { m.slots i with
        seq := (m.slots i).seq + 1, payload := e.payload },
        l.goto (.publish e i)) := by
  induction rest generalizing m with
  | nil =>
    rw [hagree.eq]
    exact .step (fun _ => rfl) (.refl _)
  | cons f rest ih =>
    have hnext := ih (m.apply (.setField i f (e.payload f))) (by
      rw [Region.apply_setField_slots]
      exact hagree.store_right)
    rw [Region.apply_setField_slots] at hnext
    rw [Region.apply, Region.setSlot_setSlot] at hnext
    exact .step (fun _ => rfl) hnext

/-- The zeroing of `teardown_slot`, up to the second `fetch_add`. -/
theorem leads_tearing (c : TearCaller P) (i : Nat) (path : List UInt8)
    (rest : List Field)
    (hagree : Words.AgreeOff rest (Field.zero P) (m.slots i).payload) :
    Leads alive (m, l.goto (.tearing c i path rest))
      (m.setSlot i { m.slots i with
        seq := (m.slots i).seq + 1, payload := Field.zero P },
        l.tearDone i c) := by
  induction rest generalizing m with
  | nil =>
    rw [hagree.eq]
    have hsame : (m.apply (.incSeq i)).apply
        (if path = [] then .none else .unlink path) = m.apply (.incSeq i) := by
      split <;> rfl
    have hlast : Leads alive
        (m.apply (.incSeq i), l.goto (.tearUnlink c i path))
        ((m.apply (.incSeq i)).apply
          (if path = [] then .none else .unlink path),
          (l.goto (.tearUnlink c i path)).tearDone i c) := by
      apply Leads.of_exec
      intro _
      rfl
    rw [hsame, Local.goto_tearDone] at hlast
    exact .step (fun _ => rfl) hlast
  | cons f rest ih =>
    have hnext := ih (m.apply (.setField i f (Field.zero P f))) (by
      rw [Region.apply_setField_slots]
      exact hagree.store_right)
    rw [Region.apply_setField_slots] at hnext
    rw [Region.apply, Region.setSlot_setSlot] at hnext
    exact .step (fun _ => rfl) hnext

end

/-! ## Calm regions -/

/-- No writer is inside a slot, and the high-water bound is above every
entry. -/
structure Calm (m : Region P) : Prop where
  even : ∀ i, (m.slots i).seq % 2 = 0
  settled : ∀ i, (m.slots i).state ≠ .reserved
  below : ∀ i, (m.slots i).state ≠ .empty → i < m.highWaterSlot
  bound : m.highWaterSlot ≤ m.maxEntries

namespace Region

variable (m : Region P)

/-- The region after a successful `try_add_once` at slot `i`. -/
def place (i : Nat) (e : RegistryEntry P) : Region P where
  maxEntries := m.maxEntries
  generation := m.generation + 1
  highWaterSlot := max m.highWaterSlot (i + 1)
  slots := Function.update m.slots i
    { seq := (m.slots i).seq + 2, state := .entry e.type, payload := e.payload }

/-- The region after the removal of the entry at slot `i`. -/
def vacate (i : Nat) : Region P where
  maxEntries := m.maxEntries
  generation := m.generation + 1
  highWaterSlot := m.highWaterSlot
  slots := Function.update m.slots i
    { seq := (m.slots i).seq + 2, state := .empty, payload := Field.zero P }

theorem place_slots (i j : Nat) (e : RegistryEntry P) :
    (m.place i e).slots j = if j = i then
      { seq := (m.slots i).seq + 2, state := .entry e.type,
        payload := e.payload } else m.slots j := by
  show Function.update m.slots i _ j = _
  rw [Function.update_apply]

theorem vacate_slots (i j : Nat) :
    (m.vacate i).slots j = if j = i then
      { seq := (m.slots i).seq + 2, state := .empty,
        payload := Field.zero P } else m.slots j := by
  show Function.update m.slots i _ j = _
  rw [Function.update_apply]

/-- The entry in a slot. -/
def entryAt (i : Nat) : Option (RegistryEntry P) :=
  match (m.slots i).state with
  | .entry type => some ⟨type, (m.slots i).payload⟩
  | _ => none

/-- The finite map that the region stands for. -/
def table : SlotTable (RegistryEntry P) where
  capacity := m.maxEntries
  get := fun i => if i < m.maxEntries then m.entryAt i else none
  get_of_le := by
    intro i hi
    exact if_neg (Nat.not_lt.mpr hi)

end Region

theorem Calm.initialized (n : Nat) : Calm (Region.initialized P n) where
  even _ := rfl
  settled _ := nofun
  below _ h := absurd rfl h
  bound := Nat.zero_le n

namespace Calm

variable {m : Region P} (h : Calm m)

include h

theorem place {i : Nat} (hi : i < m.maxEntries) (e : RegistryEntry P) :
    Calm (m.place i e) where
  even := by
    intro j
    have hj := h.even j
    rw [Region.place_slots]
    split
    · next hji =>
      show ((m.slots i).seq + 2) % 2 = 0
      rw [← hji]
      omega
    · exact hj
  settled := by
    intro j
    rw [Region.place_slots]
    split
    · nofun
    · exact h.settled j
  below := by
    intro j
    rw [Region.place_slots]
    intro hstate
    show j < max m.highWaterSlot (i + 1)
    split at hstate
    · omega
    · have hlt := h.below j hstate
      omega
  bound := by
    have hbound := h.bound
    show max m.highWaterSlot (i + 1) ≤ m.maxEntries
    omega

theorem vacate (i : Nat) : Calm (m.vacate i) where
  even := by
    intro j
    have hj := h.even j
    rw [Region.vacate_slots]
    split
    · next hji =>
      show ((m.slots i).seq + 2) % 2 = 0
      rw [← hji]
      omega
    · exact hj
  settled := by
    intro j
    rw [Region.vacate_slots]
    split
    · nofun
    · exact h.settled j
  below := by
    intro j
    rw [Region.vacate_slots]
    intro hstate
    split at hstate
    · exact absurd rfl hstate
    · exact h.below j hstate
  bound := h.bound

theorem entryAt_eq_none_iff (i : Nat) :
    m.entryAt i = none ↔ (m.slots i).state = .empty := by
  have hsettled := h.settled i
  unfold Region.entryAt
  cases hstate : (m.slots i).state with
  | empty => simp
  | entry type => simp
  | reserved => exact absurd hstate hsettled

theorem entryAt_of_le {i : Nat} (hi : m.highWaterSlot ≤ i) :
    m.entryAt i = none := by
  rw [h.entryAt_eq_none_iff]
  have hbelow := h.below i
  by_contra hstate
  have hlt := hbelow hstate
  omega

/-- The map has the entries of the slots. -/
theorem table_get (i : Nat) : m.table.get i = m.entryAt i := by
  show (if i < m.maxEntries then m.entryAt i else none) = _
  have hbound := h.bound
  split
  · rfl
  · next hi =>
    rw [h.entryAt_of_le (by omega)]

end Calm

/-! ## Single slots -/

section

variable {alive : P → Bool} {m : Region P} (l : Local P)

/-- The compare-and-swap loop on the high-water bound. -/
theorem leads_hwCas {e : RegistryEntry P} {i : Nat}
    (hlt : m.highWaterSlot < i + 1) :
    Leads alive (m, l.goto (.hwCas e i m.highWaterSlot))
      ({ m with highWaterSlot := i + 1 }, l.goto (.addBump e i)) := by
  intro m' r
  constructor
  · intro hret
    generalize hstart : (m, l.goto (.hwCas e i m.highWaterSlot)) = c at hret
    -- The induction is on the number of spurious failures.
    induction hret with
    | done hidle _ =>
      cases hstart
      cases hidle
    | @step _ _ _ _ _ spurious _ hexec rest ih =>
      cases hstart
      cases spurious with
      | false =>
        simp only [exec, Local.goto_pc, and_self, if_true, Option.some.injEq,
          Prod.mk.injEq] at hexec
        obtain ⟨rfl, rfl⟩ := hexec
        exact rest
      | true =>
        simp only [exec, Local.goto_pc, reduceCtorEq, and_false, if_false,
          if_pos hlt, Option.some.injEq, Prod.mk.injEq] at hexec
        obtain ⟨rfl, rfl⟩ := hexec
        exact ih rfl
  · intro hret
    have hexec : exec alive false m (l.goto (.hwCas e i m.highWaterSlot)) =
        some (.setHighWater (i + 1), l.goto (.addBump e i)) := by
      simp only [exec, Local.goto_pc, and_self, if_true]
      rfl
    exact .step hexec hret

/-- Widening the high-water bound. -/
theorem leads_hwLoad (e : RegistryEntry P) (i : Nat) :
    Leads alive (m, l.goto (.hwLoad e i))
      ({ m with highWaterSlot := max m.highWaterSlot (i + 1) },
        l.goto (.addBump e i)) := by
  by_cases hlt : m.highWaterSlot < i + 1
  · rw [Nat.max_eq_right (Nat.le_of_lt hlt)]
    have hexec : ∀ spurious, exec alive spurious m (l.goto (.hwLoad e i)) =
        some (.none, l.goto (.hwCas e i m.highWaterSlot)) := by
      intro _
      simp only [exec, Local.goto_pc, if_pos hlt]
      rfl
    exact .step hexec (leads_hwCas l hlt)
  · rw [Nat.max_eq_left (Nat.le_of_not_lt hlt)]
    have hexec : ∀ spurious, exec alive spurious m (l.goto (.hwLoad e i)) =
        some (.none, l.goto (.addBump e i)) := by
      intro _
      simp only [exec, Local.goto_pc, if_neg hlt]
      rfl
    exact .of_exec hexec

/-- The claim of an empty slot. -/
theorem leads_addCas {e : RegistryEntry P} {i : Nat} {again : Bool}
    (hempty : (m.slots i).state = .empty) :
    Leads alive (m, l.goto (.addCas e i again))
      (m.place i e, l.returnIndex e i) := by
  have hexec : ∀ spurious, exec alive spurious m (l.goto (.addCas e i again)) =
      some (.setState i .reserved, l.goto (.writeBegin e i)) := by
    intro _
    simp only [exec, Local.goto_pc, if_pos hempty]
    rfl
  refine .step hexec ?_
  refine .step (fun _ => rfl) ?_
  refine (leads_writing _ _ e i fieldOrder
    (Words.agreeOff_start mem_fieldOrder _ _)).trans ?_
  refine .step (fun _ => rfl) ?_
  refine (leads_hwLoad _ e i).trans ?_
  refine .step (fun _ => rfl) ?_
  refine .step (fun _ => rfl) ?_
  simp [Region.apply, Region.place, Region.setSlot, Leads.refl]

/-- `teardown_slot` on a slot whose state byte is already empty. -/
theorem leads_tearBegin (c : TearCaller P) (i : Nat)
    (hempty : (m.slots i).state = .empty) :
    Leads alive (m, l.goto (.tearBegin c i))
      (m.setSlot i
        { seq := (m.slots i).seq + 2
          state := .empty
          payload := Field.zero P }, l.tearDone i c) := by
  refine .step (fun _ => rfl) ?_
  refine .step (fun _ => rfl) ?_
  refine (leads_tearing _ _ c i _ fieldOrder
    (Words.agreeOff_start mem_fieldOrder _ _)).trans ?_
  simp [Region.apply, hempty, Leads.refl]

/-- The copy of `snapshot_slot` in a region that nobody changes. -/
theorem leads_snapCopy (c : SnapCaller P) (i : Nat)
    (type : RegistryEntryType) (payload : Payload P) (rest : List Field)
    (hagree : Words.AgreeOff rest (m.slots i).payload payload) :
    Leads alive
      (m, l.goto (.snapCopy c i 0 ⟨(m.slots i).seq, type, payload⟩ rest))
      (m, l.snapDone i ⟨(m.slots i).seq, type, (m.slots i).payload⟩ c) := by
  induction rest generalizing payload with
  | nil =>
    rw [hagree.eq]
    have hexec : ∀ spurious, exec alive spurious m
        (l.goto (.snapCopy c i 0 ⟨(m.slots i).seq, type, payload⟩ [])) =
          some (.none, l.snapDone i ⟨(m.slots i).seq, type, payload⟩ c) := by
      intro _
      simp [exec, RegistryEntrySlot.seqWord]
    exact .of_exec hexec
  | cons f rest ih => exact .step (fun _ => rfl) (ih _ hagree.store_right)

/-- `snapshot_slot` on a calm slot succeeds. -/
theorem leads_snapSeq (h : Calm m) (c : SnapCaller P) {i : Nat}
    {type : RegistryEntryType} (hstate : (m.slots i).state = .entry type) :
    Leads alive (m, l.goto (.snapSeq c i 0))
      (m, l.snapDone i ⟨(m.slots i).seq, type, (m.slots i).payload⟩ c) := by
  have heven := h.even i
  have hword : ¬(m.slots i).seqWord % 2 = 1 := by
    unfold RegistryEntrySlot.seqWord
    omega
  have hseq : ∀ spurious, exec alive spurious m (l.goto (.snapSeq c i 0)) =
      some (.none, l.goto (.snapState c i 0 (m.slots i).seq)) := by
    intro _
    simp only [exec, Local.goto_pc, if_neg hword, Local.goto_goto]
  have hcopy : ∀ spurious,
      exec alive spurious m (l.goto (.snapState c i 0 (m.slots i).seq)) =
        some (.none, l.goto (.snapCopy c i 0
          ⟨(m.slots i).seq, type, Field.zero P⟩ fieldOrder)) := by
    intro _
    simp only [exec, Local.goto_pc, hstate, Local.goto_goto]
  refine .step hseq ?_
  refine .step hcopy ?_
  exact leads_snapCopy l c i type _ fieldOrder
    (Words.agreeOff_start mem_fieldOrder _ _)

end

/-! ## The loop of `try_add_once` -/

section

variable {alive : P → Bool} {m : Region P} (l : Local P) (e : RegistryEntry P)
  (again : Bool)

/-- Slots with entries are passed over. -/
theorem leads_addLoop {i k : Nat} (hle : i + k ≤ m.maxEntries)
    (htaken : ∀ j, i ≤ j → j < i + k → (m.slots j).state ≠ .empty) :
    Leads alive (m, l.addLoop m.maxEntries e i again)
      (m, l.addLoop m.maxEntries e (i + k) again) := by
  induction k generalizing i with
  | zero => exact .refl _
  | succ k ih =>
    have hi := htaken i (Nat.le_refl i) (by omega)
    have hexec : ∀ spurious,
        exec alive spurious m (l.addLoop m.maxEntries e i again) =
          some (.none, l.addLoop m.maxEntries e (i + 1) again) := by
      intro _
      rw [Local.addLoop, if_pos (by omega)]
      simp only [exec, Local.goto_pc, if_neg hi, Local.goto_addLoop]
    have hrest := ih (i := i + 1) (by omega) fun j hle hlt =>
      htaken j (by omega) (by omega)
    rw [Nat.add_right_comm] at hrest
    exact .step hexec hrest

/-- The pass takes the lowest free slot. -/
theorem leads_addLoop_lowest (h : Calm m) {i : Nat}
    (hlowest : m.table.LowestFree i) :
    Leads alive (m, l.addLoop m.maxEntries e 0 again)
      (m.place i e, l.returnIndex e i) := by
  obtain ⟨hlt, hnone, hbelow⟩ := hlowest
  rw [h.table_get, h.entryAt_eq_none_iff] at hnone
  have hlt : i < m.maxEntries := hlt
  have hpass : Leads alive (m, l.addLoop m.maxEntries e 0 again)
      (m, l.addLoop m.maxEntries e (0 + i) again) := by
    apply leads_addLoop
    · omega
    · intro j _ hj
      have hj := hbelow j (by omega)
      rwa [h.table_get, ne_eq, h.entryAt_eq_none_iff] at hj
  refine hpass.trans ?_
  rw [Nat.zero_add, Local.addLoop, if_pos hlt]
  exact leads_addCas l hnone

/-- The pass finds nothing in a full region. -/
theorem leads_addLoop_full (h : Calm m) (hfull : m.table.Full) :
    Leads alive (m, l.addLoop m.maxEntries e 0 again)
      (m, l.addLoop m.maxEntries e m.maxEntries again) := by
  have hpass : Leads alive (m, l.addLoop m.maxEntries e 0 again)
      (m, l.addLoop m.maxEntries e (0 + m.maxEntries) again) := by
    apply leads_addLoop
    · omega
    · intro j _ hj
      have hj := hfull j (show j < m.maxEntries by omega)
      rwa [h.table_get, ne_eq, h.entryAt_eq_none_iff] at hj
  rw [Nat.zero_add] at hpass
  exact hpass

end

/-! ## The loop of `registry_cleanup_stale` -/

/-- The owner of the entry is a process that is gone.  An entry with pid 0
has no owner. -/
def RegistryEntry.dead (alive : P → Bool) (e : RegistryEntry P) : Bool :=
  match e.payload .pid with
  | none => false
  | some p => !alive p

namespace Region

/-- One turn of the sweep. -/
def reap (alive : P → Bool) (i : Nat) (m : Region P) : Region P :=
  match m.entryAt i with
  | none => m
  | some e => if e.dead alive then m.vacate i else m

/-- `k` turns of the sweep, from slot `i` on. -/
def reapFrom (alive : P → Bool) (i : Nat) : Nat → Region P → Region P
  | 0, m => m
  | k + 1, m => reapFrom alive (i + 1) k (reap alive i m)

/-- The region after `registry_cleanup_stale`. -/
def cleanupStale (alive : P → Bool) (m : Region P) : Region P :=
  m.reapFrom alive 0 (min m.highWaterSlot m.maxEntries)

@[simp] theorem reap_maxEntries (alive : P → Bool) (i : Nat) (m : Region P) :
    (m.reap alive i).maxEntries = m.maxEntries := by
  unfold reap
  split
  · rfl
  · split <;> rfl

end Region

section

variable {alive : P → Bool} {m : Region P} (l : Local P) {w : Sweep P} {i : Nat}

theorem Calm.reap (h : Calm m) (alive : P → Bool) (i : Nat) :
    Calm (m.reap alive i) := by
  unfold Region.reap
  split
  · exact h
  · split
    · exact h.vacate i
    · exact h

theorem Region.entryAt_eq_some {e : RegistryEntry P}
    (h : m.entryAt i = some e) :
    (m.slots i).state = .entry e.type ∧ (m.slots i).payload = e.payload := by
  unfold Region.entryAt at h
  split at h
  · next type hstate =>
    cases h
    exact ⟨hstate, rfl⟩
  · cases h

theorem Region.reap_of_none (h : m.entryAt i = none) : m.reap alive i = m := by
  unfold reap
  rw [h]

theorem Region.reap_of_some {e : RegistryEntry P} (h : m.entryAt i = some e) :
    m.reap alive i = if e.dead alive then m.vacate i else m := by
  unfold reap
  rw [h]

/-- A slot that the sweep leaves alone. -/
theorem leads_sweep_keep {e : RegistryEntry P} (h : Calm m)
    (hi : i < w.max) (hentry : m.entryAt i = some e)
    (hdead : e.dead alive = false) :
    Leads alive (m, l.sweepLoop m.maxEntries w i)
      (m, l.sweepLoop m.maxEntries w (i + 1)) := by
  obtain ⟨hstate, hpayload⟩ := Region.entryAt_eq_some hentry
  have hload : ∀ spurious,
      exec alive spurious m (l.sweepLoop m.maxEntries w i) =
        some (.none, l.goto (.snapSeq (.sweep w) i 0)) := by
    intro _
    rw [Local.sweepLoop, if_pos hi]
    simp [exec, hstate]
  refine .step hload ?_
  refine (leads_snapSeq l h _ hstate).trans ?_
  refine .of_quiet fun _ => ?_
  show (match (m.slots i).payload .pid with
    | none => _
    | some p => _) = _
  unfold RegistryEntry.dead at hdead
  rw [hpayload]
  cases hpid : e.payload .pid with
  | none => simp only [Local.snapDone, Local.goto_sweepLoop]
  | some p =>
    rw [hpid] at hdead
    have hlive : alive p = true := by simpa using hdead
    simp only [hlive, if_true, Local.snapDone, Local.goto_sweepLoop]

/-- A slot that the sweep takes back. -/
theorem leads_sweep_reclaim {e : RegistryEntry P} (h : Calm m)
    (hi : i < w.max) (hentry : m.entryAt i = some e)
    (hdead : e.dead alive = true) :
    Leads alive (m, l.sweepLoop m.maxEntries w i)
      (m.vacate i, l.sweepLoop m.maxEntries
        { w with reclaimed := w.reclaimed || e.type != .doorbell } (i + 1)) := by
  obtain ⟨hstate, hpayload⟩ := Region.entryAt_eq_some hentry
  have hload : ∀ spurious,
      exec alive spurious m (l.sweepLoop m.maxEntries w i) =
        some (.none, l.goto (.snapSeq (.sweep w) i 0)) := by
    intro _
    rw [Local.sweepLoop, if_pos hi]
    simp [exec, hstate]
  refine .step hload ?_
  refine (leads_snapSeq l h _ hstate).trans ?_
  -- The entry that was vetted is still in the slot.
  have hpid : ∀ spurious, exec alive spurious m
      (l.goto (.sweepPid w i ⟨(m.slots i).seq, e.type, (m.slots i).payload⟩)) =
        some (.none, l.goto
          (.sweepSeq w i ⟨(m.slots i).seq, e.type, (m.slots i).payload⟩)) := by
    intro _
    unfold RegistryEntry.dead at hdead
    simp only [exec, Local.goto_pc, hpayload]
    cases hpid : e.payload .pid with
    | none =>
      rw [hpid] at hdead
      cases hdead
    | some p =>
      rw [hpid] at hdead
      have hgone : alive p = false := by simpa using hdead
      simp [hgone]
  have hseq : ∀ spurious, exec alive spurious m
      (l.goto (.sweepSeq w i ⟨(m.slots i).seq, e.type, (m.slots i).payload⟩)) =
        some (.none, l.goto
          (.sweepCas w i ⟨(m.slots i).seq, e.type, (m.slots i).payload⟩)) := by
    intro _
    simp [exec, RegistryEntrySlot.seqWord]
  have hcas : ∀ spurious, exec alive spurious m
      (l.goto (.sweepCas w i ⟨(m.slots i).seq, e.type, (m.slots i).payload⟩)) =
        some (.setState i .empty,
          l.goto (.tearBegin (.sweep w e.type) i)) := by
    intro _
    simp [exec, hstate]
  refine .step hpid ?_
  refine .step hseq ?_
  refine .step hcas ?_
  refine (leads_tearBegin _ _ i (by simp)).trans ?_
  refine .step (fun _ => rfl) ?_
  simp [Region.apply, Region.vacate, Region.setSlot, Local.tearDone, Leads.refl]

/-- One turn of the sweep. -/
theorem leads_sweepTurn (alive : P → Bool) (h : Calm m) (hi : i < w.max) :
    ∃ w', w'.ret = w.ret ∧ w'.max = w.max ∧
      Leads alive (m, l.sweepLoop m.maxEntries w i)
        (m.reap alive i, l.sweepLoop m.maxEntries w' (i + 1)) := by
  cases hentry : m.entryAt i with
  | none =>
    have hempty := (h.entryAt_eq_none_iff i).mp hentry
    rw [Region.reap_of_none hentry]
    refine ⟨w, rfl, rfl, .of_quiet fun _ => ?_⟩
    rw [Local.sweepLoop, if_pos hi]
    simp only [exec, Local.goto_pc, if_pos hempty, Local.goto_sweepLoop]
  | some e =>
    cases hdead : e.dead alive with
    | false =>
      rw [Region.reap_of_some hentry, hdead]
      exact ⟨w, rfl, rfl, leads_sweep_keep l h hi hentry hdead⟩
    | true =>
      rw [Region.reap_of_some hentry, hdead]
      exact ⟨{ w with reclaimed := w.reclaimed || e.type != .doorbell },
        rfl, rfl, leads_sweep_reclaim l h hi hentry hdead⟩

/-- The rest of the sweep. -/
theorem leads_sweepLoop (h : Calm m) (k : Nat) (hmax : w.max = i + k) :
    Leads alive (m, l.sweepLoop m.maxEntries w i)
      (m.reapFrom alive i k, l.sweepDone m.maxEntries w.ret) := by
  induction k generalizing m w i with
  | zero =>
    rw [Local.sweepLoop, if_neg (by omega)]
    split
    · refine .step (fun _ => rfl) ?_
      rw [Local.goto_sweepDone]
      exact .refl _
    · exact .refl _
  | succ k ih =>
    have hi : i < w.max := by omega
    obtain ⟨w', hret, hmax', hturn⟩ := leads_sweepTurn l alive h hi
    have hmax' : w'.max = i + 1 + k := by omega
    have hrest := ih (h.reap alive i) hmax'
    rw [Region.reap_maxEntries, hret] at hrest
    exact hturn.trans hrest

/-- `registry_cleanup_stale`. -/
theorem leads_sweepHw (h : Calm m) (ret : SweepReturn P) :
    Leads alive (m, l.goto (.sweepHw ret))
      (m.cleanupStale alive, l.sweepDone m.maxEntries ret) := by
  refine .step (fun _ => rfl) ?_
  rw [Local.goto_sweepLoop]
  exact leads_sweepLoop l h _ (Nat.zero_add _).symm

end

/-! ## The loop of `registry_query` -/

/-- The answer of `registry_query` for an entry that passes the filters. -/
def QueryFilter.answer (flt : QueryFilter) (e : RegistryEntry P) :
    Option RegistryQueryResult :=
  if flt.accepts e.type e.payload then some e.result else none

section

variable {alive : P → Bool} {m : Region P} (l : Local P) {q : Query} {i : Nat}

/-- One turn of the query. -/
theorem leads_queryTurn (alive : P → Bool) (h : Calm m) (hi : i < q.max) :
    Leads alive (m, l.queryLoop q i)
      (m, l.queryLoop { q with
        results := q.results ++ ((m.entryAt i).bind q.flt.answer).toList }
        (i + 1)) := by
  cases hentry : m.entryAt i with
  | none =>
    have hempty := (h.entryAt_eq_none_iff i).mp hentry
    refine .of_quiet fun _ => ?_
    rw [Local.queryLoop, if_pos hi]
    simp [exec, hempty, QueryFilter.acceptsState]
  | some e =>
    obtain ⟨hstate, hpayload⟩ := Region.entryAt_eq_some hentry
    cases htype : q.flt.acceptsType e.type with
    | false =>
      have hskip : q.flt.acceptsState (.entry e.type) = false := by
        unfold QueryFilter.acceptsType at htype
        unfold QueryFilter.acceptsState
        cases hflt : q.flt.type with
        | none => simp [hflt] at htype
        | some t => simpa [hflt] using htype
      refine .of_quiet fun _ => ?_
      rw [Local.queryLoop, if_pos hi]
      simp [exec, hstate, hskip, QueryFilter.answer, QueryFilter.accepts, htype]
    | true =>
      have hlook : q.flt.acceptsState (.entry e.type) = true := by
        unfold QueryFilter.acceptsType at htype
        unfold QueryFilter.acceptsState
        cases hflt : q.flt.type with
        | none => rfl
        | some t => simpa [hflt] using htype
      have hload : ∀ spurious, exec alive spurious m (l.queryLoop q i) =
          some (.none, l.goto (.snapSeq (.query q) i 0)) := by
        intro _
        rw [Local.queryLoop, if_pos hi]
        simp [exec, hstate, hlook]
      refine .step hload ?_
      refine (leads_snapSeq l h _ hstate).trans ?_
      show Leads alive (m, ite _ _ _) _
      rw [hpayload]
      cases haccepts : q.flt.accepts e.type e.payload with
      | false => simp [QueryFilter.answer, haccepts, Leads.refl]
      | true =>
        simp [QueryFilter.answer, haccepts, RegistryEntry.result, Leads.refl]

/-- The rest of the query. -/
theorem leads_queryLoop (h : Calm m) (k : Nat) (hmax : q.max = i + k) :
    Leads alive (m, l.queryLoop q i)
      (m, l.answer (.results
        (q.results ++ m.table.selectFrom q.flt.answer i k))) := by
  induction k generalizing q i with
  | zero =>
    rw [Local.queryLoop, if_neg (by omega)]
    simp [SlotTable.selectFrom, Leads.refl]
  | succ k ih =>
    have hi : i < q.max := by omega
    refine (leads_queryTurn l alive h hi).trans ?_
    refine (ih (by show q.max = _; omega)).trans ?_
    rw [SlotTable.selectFrom_succ, h.table_get, List.append_assoc]
    exact .refl _

end

end RmwUnixSocket.Registry
