import RmwUnixSocket.Registry.Serial

/-!
# The registry as a finite map

`TableStep` says what the calls of `registry.hpp` do to a finite map from
slot indices to entries, in terms of the map alone.  `Session` is a sequence
of calls of the code, one after the other, each with its own answer of
`stat("/proc/<pid>")`.  Every call comes back, with one outcome, and the map
that the region stands for moves by a `TableStep`.

The generation is counted here as a natural number.  The 64-bit word in the
header is this number modulo `2 ^ 64`.
-/

namespace RmwUnixSocket.Registry

variable {P : Type}

/-! ## The map after a change of the region -/

section

variable {alive : P → Bool} {m : Region P}

theorem Calm.table_place (h : Calm m) {i : Nat} (hi : i < m.maxEntries)
    (e : RegistryEntry P) : (m.place i e).table = m.table.insert i e := by
  refine SlotTable.ext rfl fun j => ?_
  rw [(h.place hi e).table_get]
  show _ = if j = i ∧ i < m.maxEntries then some e else m.table.get j
  rw [h.table_get]
  unfold Region.entryAt
  rw [Region.place_slots]
  by_cases hji : j = i
  · rw [if_pos hji, if_pos ⟨hji, hi⟩]
  · rw [if_neg hji, if_neg fun hand => hji hand.1]

theorem Region.entryAt_vacate (i j : Nat) :
    (m.vacate i).entryAt j = if j = i then none else m.entryAt j := by
  unfold Region.entryAt
  rw [Region.vacate_slots]
  by_cases hji : j = i
  · rw [if_pos hji, if_pos hji]
  · rw [if_neg hji, if_neg hji]

theorem Calm.table_vacate (h : Calm m) (i : Nat) :
    (m.vacate i).table = m.table.erase i := by
  refine SlotTable.ext rfl fun j => ?_
  rw [(h.vacate i).table_get, Region.entryAt_vacate]
  show _ = if j = i then none else m.table.get j
  rw [h.table_get]

/-- One turn of the sweep changes one slot at most. -/
theorem Region.entryAt_reap (i j : Nat) : (m.reap alive i).entryAt j =
    if j = i then (m.entryAt i).filter fun e => !e.dead alive
    else m.entryAt j := by
  cases hentry : m.entryAt i with
  | none =>
    rw [Region.reap_of_none hentry]
    split
    · next hji => rw [hji, hentry]; rfl
    · rfl
  | some e =>
    rw [Region.reap_of_some hentry]
    cases hdead : e.dead alive with
    | false =>
      by_cases hji : j = i
      · simp [hji, hentry, hdead, Option.filter]
      · simp [hji]
    | true =>
      rw [if_pos rfl, Region.entryAt_vacate]
      by_cases hji : j = i
      · simp [hji, hdead, Option.filter]
      · simp [hji]

theorem Region.generation_reap (i : Nat) : (m.reap alive i).generation =
    m.generation + if (m.entryAt i).any (RegistryEntry.dead alive) then 1
      else 0 := by
  cases hentry : m.entryAt i with
  | none =>
    rw [Region.reap_of_none hentry]
    rfl
  | some e =>
    rw [Region.reap_of_some hentry]
    cases hdead : e.dead alive with
    | false => simp [hdead]
    | true => simp [hdead, Region.vacate]

/-- The sweep in numbers: `k` turns from slot `i` on. -/
structure Reaped (alive : P → Bool) (i k : Nat) (m m' : Region P) : Prop where
  calm : Calm m'
  capacity : m'.maxEntries = m.maxEntries
  entryAt : ∀ j, m'.entryAt j = if i ≤ j ∧ j < i + k
    then (m.entryAt j).filter fun e => !e.dead alive else m.entryAt j
  generation : m'.generation =
    m.generation + m.table.countFrom (RegistryEntry.dead alive) i k

theorem Calm.reaped (h : Calm m) (alive : P → Bool) (i k : Nat) :
    Reaped alive i k m (m.reapFrom alive i k) := by
  induction k generalizing m i with
  | zero =>
    refine ⟨h, rfl, fun j => ?_, rfl⟩
    rw [if_neg (by omega)]
    rfl
  | succ k ih =>
    have hcalm := h.reap alive i
    have hrest := ih hcalm (i + 1)
    refine ⟨hrest.calm, ?_, fun j => ?_, ?_⟩
    · rw [← m.reap_maxEntries alive i]
      exact hrest.capacity
    · show ((m.reap alive i).reapFrom alive (i + 1) k).entryAt j = _
      rw [hrest.entryAt, Region.entryAt_reap]
      by_cases hji : j = i
      · rw [if_neg (by omega), if_pos hji, if_pos (by omega), hji]
      · rw [if_neg hji]
        by_cases hin : i + 1 ≤ j ∧ j < i + 1 + k
        · rw [if_pos hin, if_pos (by omega)]
        · rw [if_neg hin, if_neg (by omega)]
    · show ((m.reap alive i).reapFrom alive (i + 1) k).generation = _
      rw [hrest.generation, Region.generation_reap,
        SlotTable.countFrom_succ, h.table_get, Nat.add_assoc]
      congr 2
      -- The turn at slot `i` leaves the later slots alone.
      refine List.countP_congr fun j hj => ?_
      have hge := (List.mem_range'_1.mp hj).1
      rw [hcalm.table_get, h.table_get, Region.entryAt_reap,
        if_neg (by omega)]

/-- `registry_cleanup_stale` removes the entries of dead processes. -/
theorem Calm.cleanupStale (h : Calm m) (alive : P → Bool) :
    Calm (m.cleanupStale alive) ∧
      (m.cleanupStale alive).maxEntries = m.maxEntries ∧
      (m.cleanupStale alive).table =
        m.table.drop (RegistryEntry.dead alive) ∧
      (m.cleanupStale alive).generation =
        m.generation + m.table.count (RegistryEntry.dead alive) := by
  have hmin : min m.highWaterSlot m.maxEntries = m.highWaterSlot :=
    Nat.min_eq_left h.bound
  have hreaped : Reaped alive 0 m.highWaterSlot m (m.cleanupStale alive) := by
    unfold Region.cleanupStale
    rw [hmin]
    exact h.reaped alive 0 m.highWaterSlot
  have hbound : ∀ i, m.highWaterSlot ≤ i → m.table.get i = none := by
    intro i hi
    rw [h.table_get, h.entryAt_of_le hi]
  refine ⟨hreaped.calm, hreaped.capacity, ?_, ?_⟩
  · refine SlotTable.ext hreaped.capacity fun j => ?_
    show _ = (m.table.get j).filter fun e => !e.dead alive
    rw [hreaped.calm.table_get, hreaped.entryAt, h.table_get]
    split
    · rfl
    · next hout =>
      rw [h.entryAt_of_le (by omega)]
      rfl
  · rw [hreaped.generation, m.table.count_eq h.bound hbound]

end

/-! ## What the calls do to the map -/

/-- The calls of the interface.  The index of `registry_remove` is an
`int32_t`, so it may be negative. -/
inductive SerialCall (P : Type)
  | add (e : RegistryEntry P)
  | remove (index : Int)
  | cleanup
  | query (flt : QueryFilter)

/-- The entry has every value that the query asks for. -/
structure QueryFilter.Matches (flt : QueryFilter) (e : RegistryEntry P) :
    Prop where
  type : ∀ t, flt.type = some t → e.type = t
  topic : ∀ s, flt.topic = some s → cstr (e.payload .topicName) = cstr s
  nodeName : ∀ s, flt.nodeName = some s →
    cstr (e.payload .nodeName) = cstr s
  nodeNamespace : ∀ s, flt.nodeNamespace = some s →
    cstr (e.payload .nodeNamespace) = cstr s

theorem stringMatches_iff (filter : Option (List UInt8))
    (member : List UInt8) : stringMatches filter member = true ↔
      ∀ s, filter = some s → cstr member = cstr s := by
  cases filter with
  | none => simp [stringMatches]
  | some s => simp [stringMatches]

theorem QueryFilter.accepts_iff (flt : QueryFilter) (e : RegistryEntry P) :
    flt.accepts e.type e.payload = true ↔ flt.Matches e := by
  have htype : flt.acceptsType e.type = true ↔
      ∀ t, flt.type = some t → e.type = t := by
    unfold QueryFilter.acceptsType
    cases flt.type with
    | none => simp
    | some t => simp
  unfold QueryFilter.accepts
  rw [Bool.and_eq_true, Bool.and_eq_true, Bool.and_eq_true, htype,
    stringMatches_iff, stringMatches_iff, stringMatches_iff]
  constructor
  · intro h
    exact ⟨h.1.1.1, h.1.1.2, h.1.2, h.2⟩
  · intro h
    exact ⟨⟨⟨h.type, h.topic⟩, h.nodeName⟩, h.nodeNamespace⟩

instance (flt : QueryFilter) (e : RegistryEntry P) :
    Decidable (flt.Matches e) :=
  decidable_of_iff _ (flt.accepts_iff e)

/-- The map `t` answers `r` to a call, becomes `t'`, and has gained or lost
`k` entries on the way. -/
inductive TableStep (alive : P → Bool) (t : SlotTable (RegistryEntry P)) :
    SerialCall P → Ret → SlotTable (RegistryEntry P) → Nat → Prop
  | add {e : RegistryEntry P} {i : Nat} (free : t.LowestFree i) :
      TableStep alive t (.add e) (.index i) (t.insert i e) 1
  | addReclaim {e : RegistryEntry P} {i : Nat} (full : t.Full)
      (free : (t.drop (RegistryEntry.dead alive)).LowestFree i) :
      TableStep alive t (.add e) (.index i)
        ((t.drop (RegistryEntry.dead alive)).insert i e)
        (t.count (RegistryEntry.dead alive) + 1)
  | addFull {e : RegistryEntry P}
      (full : ∀ i < t.capacity, ∃ e, t.get i = some e ∧ e.dead alive = false) :
      TableStep alive t (.add e) .full t 0
  | remove {i : Nat} (taken : t.get i ≠ none) :
      TableStep alive t (.remove i) .void (t.erase i) 1
  | removeNothing {index : Int} (nothing : ∀ i : Nat, index = i → t.get i = none) :
      TableStep alive t (.remove index) .void t 0
  | cleanup :
      TableStep alive t .cleanup .void (t.drop (RegistryEntry.dead alive))
        (t.count (RegistryEntry.dead alive))
  | query {flt : QueryFilter} :
      TableStep alive t (.query flt)
        (.results (t.select fun e =>
          if flt.Matches e then some e.result else none)) t 0

/-- An addition fails exactly when every index has an entry whose owner is
alive or that has no owner. -/
theorem TableStep.full_iff {alive : P → Bool}
    {t t' : SlotTable (RegistryEntry P)} {e : RegistryEntry P} {r : Ret}
    {k : Nat} (h : TableStep alive t (.add e) r t' k) : r = .full ↔
      ∀ i < t.capacity, ∃ e, t.get i = some e ∧ e.dead alive = false := by
  cases h with
  | add free =>
    refine ⟨nofun, fun hfull => absurd ?_ free.not_full⟩
    intro i hi
    obtain ⟨e, hget, _⟩ := hfull i hi
    rw [hget]
    nofun
  | addReclaim full free =>
    refine ⟨nofun, fun hfull => absurd ?_ free.not_full⟩
    exact (t.full_drop_iff _).mpr hfull
  | addFull full => exact ⟨fun _ => full, fun _ => rfl⟩

/-! ## One call of the code -/

/-- The start of a call. -/
def begin (m : Region P) : SerialCall P → Local P
  | .add e => (Local.fresh P).addLoop m.maxEntries e 0 false
  | .remove index =>
    if index < 0 then (Local.fresh P).answer .void
    else (Local.fresh P).goto (.removeLoad index.toNat)
  | .cleanup => (Local.fresh P).goto (.sweepHw .caller)
  | .query flt => (Local.fresh P).goto (.queryHw flt)

/-- A call comes back with one outcome, and the outcome is a step of the
map. -/
structure Served (alive : P → Bool) (m : Region P) (c : SerialCall P)
    (m' : Region P) (r : Ret) (k : Nat) : Prop where
  returns : ∀ m'' r', Returns alive (m, begin m c) m'' r' ↔ m'' = m' ∧ r' = r
  calm : Calm m'
  table : TableStep alive m.table c r m'.table k
  generation : m'.generation = m.generation + k

section

variable {m : Region P} (alive : P → Bool) (h : Calm m)

include h

/-- `registry_add`. -/
theorem Calm.serves_add (e : RegistryEntry P) :
    ∃ m' r k, Served alive m (.add e) m' r k := by
  by_cases hfull : m.table.Full
  · -- The first pass finds nothing, and the sweep runs.
    obtain ⟨hcalm, hcapacity, htable, hgeneration⟩ := h.cleanupStale alive
    have hsweep : Leads alive (m, begin m (.add e))
        (m.cleanupStale alive, (Local.fresh P).addLoop
          (m.cleanupStale alive).maxEntries e 0 true) := by
      refine (leads_addLoop_full _ e false h hfull).trans ?_
      rw [Local.addLoop, if_neg (Nat.lt_irrefl _), hcapacity]
      exact leads_sweepHw _ h _
    by_cases hstuck : (m.cleanupStale alive).table.Full
    · have hlast : Leads alive (m, begin m (.add e))
          (m.cleanupStale alive, (Local.fresh P).answer .full) := by
        refine hsweep.trans ?_
        refine (leads_addLoop_full _ e true hcalm hstuck).trans ?_
        rw [Local.addLoop, if_neg (Nat.lt_irrefl _)]
        exact .refl _
      rw [htable] at hstuck
      have hnone := m.table.count_of_full hstuck
      have hsame := m.table.drop_of_full hstuck
      refine ⟨m.cleanupStale alive, .full, 0, ?_, hcalm, ?_, ?_⟩
      · intro m'' r'
        rw [hlast m'' r', returns_answer]
      · rw [htable, hsame]
        exact .addFull ((m.table.full_drop_iff _).mp hstuck)
      · rw [hgeneration, hnone]
    · obtain ⟨i, hfree⟩ := SlotTable.exists_lowestFree hstuck
      have hi : i < (m.cleanupStale alive).maxEntries := hfree.1
      refine ⟨(m.cleanupStale alive).place i e, .index i,
        m.table.count (RegistryEntry.dead alive) + 1, ?_,
        hcalm.place hi e, ?_, ?_⟩
      · intro m'' r'
        have hlast := hsweep.trans
          (leads_addLoop_lowest _ e true hcalm hfree)
        rw [hlast m'' r', returns_returnIndex]
      · rw [hcalm.table_place hi, htable]
        rw [htable] at hfree
        exact .addReclaim hfull hfree
      · show (m.cleanupStale alive).generation + 1 = _
        rw [hgeneration, Nat.add_assoc]
  · obtain ⟨i, hfree⟩ := SlotTable.exists_lowestFree hfull
    have hi : i < m.maxEntries := hfree.1
    refine ⟨m.place i e, .index i, 1, ?_, h.place hi e, ?_, rfl⟩
    · intro m'' r'
      have hlast : Leads alive (m, begin m (.add e))
          (m.place i e, (Local.fresh P).returnIndex e i) :=
        leads_addLoop_lowest _ e false h hfree
      rw [hlast m'' r', returns_returnIndex]
    · rw [h.table_place hi]
      exact .add hfree

/-- `registry_remove` at an index that is out of range or free. -/
theorem Calm.serves_remove_nothing {index : Int}
    (hnothing : ∀ i : Nat, index = i → m.table.get i = none) :
    Served alive m (.remove index) m .void 0 := by
  refine ⟨fun m'' r' => ?_, h, .removeNothing hnothing, rfl⟩
  rw [← returns_answer]
  revert m'' r'
  show Leads alive (m, begin m (.remove index))
    (m, (Local.fresh P).answer .void)
  unfold begin
  by_cases hneg : index < 0
  · simp only [if_pos hneg]
    exact .refl _
  · simp only [if_neg hneg]
    refine .of_quiet fun _ => ?_
    by_cases hrange : m.maxEntries ≤ index.toNat
    · simp only [exec, Local.goto_pc, if_pos hrange]
      rfl
    · have hnone := hnothing index.toNat (by omega)
      rw [h.table_get, h.entryAt_eq_none_iff] at hnone
      simp only [exec, Local.goto_pc, if_neg hrange, if_pos hnone]
      rfl

/-- `registry_remove` at the index of an entry. -/
theorem Calm.serves_remove {i : Nat} (htaken : m.table.get i ≠ none) :
    Served alive m (.remove i) (m.vacate i) .void 1 := by
  have hi : i < m.maxEntries := by
    by_contra hge
    exact htaken (m.table.get_of_le i (Nat.le_of_not_lt hge))
  have hstate : (m.slots i).state ≠ .empty := by
    rwa [h.table_get, ne_eq, h.entryAt_eq_none_iff] at htaken
  refine ⟨fun m'' r' => ?_, h.vacate i, ?_, rfl⟩
  · rw [← returns_answer]
    revert m'' r'
    show Leads alive (m, begin m (.remove i))
      (m.vacate i, (Local.fresh P).answer .void)
    have hstart : begin m (.remove (i : Int)) =
        (Local.fresh P).goto (.removeLoad i) := by
      unfold begin
      simp
    have hload : ∀ spurious, exec alive spurious m
        ((Local.fresh P).goto (.removeLoad i)) =
          some (.none,
            (Local.fresh P).goto (.removeCas i (m.slots i).state)) := by
      intro _
      simp only [exec, Local.goto_pc, if_neg (Nat.not_le.mpr hi),
        if_neg hstate, Local.goto_goto]
    have hcas : ∀ spurious, exec alive spurious m
        ((Local.fresh P).goto (.removeCas i (m.slots i).state)) =
          some (.setState i .empty, (Local.fresh P).goto
            (.tearBegin (.remove (m.slots i).state) i)) := by
      intro _
      simp [exec]
    rw [hstart]
    refine .step hload ?_
    refine .step hcas ?_
    refine (leads_tearBegin _ _ i (by simp)).trans ?_
    refine .step (fun _ => rfl) ?_
    have hregion : (((m.apply (.setState i .empty)).setSlot i
        { seq := ((m.apply (.setState i .empty)).slots i).seq + 2
          state := .empty
          payload := Field.zero P }).apply .incGeneration) = m.vacate i := by
      simp [Region.apply, Region.vacate, Region.setSlot]
    -- A removed doorbell rings nobody.
    by_cases hbell : (m.slots i).state = .entry .doorbell
    · rw [if_pos hbell]
      exact cast (congrArg (fun region => Leads alive (region, _) _)
        hregion.symm) (Leads.refl _)
    · rw [if_neg hbell]
      refine cast (congrArg (fun region => Leads alive (region, _) _)
        hregion.symm) ?_
      exact .of_quiet fun _ => rfl
  · rw [h.table_vacate]
    exact .remove htaken

/-- `registry_cleanup_stale`. -/
theorem Calm.serves_cleanup :
    ∃ m' r k, Served alive m .cleanup m' r k := by
  obtain ⟨hcalm, -, htable, hgeneration⟩ := h.cleanupStale alive
  refine ⟨m.cleanupStale alive, .void,
    m.table.count (RegistryEntry.dead alive), fun m'' r' => ?_, hcalm, ?_,
    hgeneration⟩
  · rw [← returns_answer]
    exact leads_sweepHw (Local.fresh P) h .caller m'' r'
  · rw [htable]
    exact .cleanup

/-- `registry_query`. -/
theorem Calm.serves_query (flt : QueryFilter) :
    ∃ m' r k, Served alive m (.query flt) m' r k := by
  have hmin : min m.highWaterSlot m.maxEntries = 0 + m.highWaterSlot := by
    rw [Nat.zero_add]
    exact Nat.min_eq_left h.bound
  have hloop : Leads alive (m, begin m (.query flt))
      (m, (Local.fresh P).answer (.results
        (m.table.selectFrom flt.answer 0 m.highWaterSlot))) := by
    refine .step (fun _ => rfl) ?_
    exact leads_queryLoop (Local.fresh P) h m.highWaterSlot hmin
  refine ⟨m, .results (m.table.selectFrom flt.answer 0 m.highWaterSlot), 0,
    fun m'' r' => ?_, h, ?_, rfl⟩
  · rw [hloop m'' r', returns_answer]
  · have hbound : ∀ i, m.highWaterSlot ≤ i → m.table.get i = none := by
      intro i hi
      rw [h.table_get, h.entryAt_of_le hi]
    rw [← m.table.select_eq h.bound hbound]
    have hanswer : flt.answer = fun e : RegistryEntry P =>
        if flt.Matches e then some e.result else none := by
      funext e
      unfold QueryFilter.answer
      exact if_congr (flt.accepts_iff e) rfl rfl
    rw [hanswer]
    exact .query

/-- Every call comes back, with one outcome. -/
theorem Calm.serves (c : SerialCall P) :
    ∃ m' r k, Served alive m c m' r k := by
  cases c with
  | add e => exact h.serves_add alive e
  | remove index =>
    by_cases htaken : ∃ i : Nat, index = i ∧ m.table.get i ≠ none
    · obtain ⟨i, rfl, htaken⟩ := htaken
      exact ⟨_, _, _, h.serves_remove alive htaken⟩
    · push Not at htaken
      exact ⟨_, _, _, h.serves_remove_nothing alive htaken⟩
  | cleanup => exact h.serves_cleanup alive
  | query flt => exact h.serves_query alive flt

end

/-! ## Calls one after the other -/

/-- A call that came back, with the liveness of the processes that it saw. -/
structure Event (P : Type) where
  alive : P → Bool
  call : SerialCall P
  answer : Ret

/-- The region `m` after the calls `es`. -/
inductive Session (m₀ : Region P) : List (Event P) → Region P → Prop
  | start : Session m₀ [] m₀
  | call {es : List (Event P)} {m m' : Region P} {e : Event P}
      (before : Session m₀ es m)
      (returns : Returns e.alive (m, begin m e.call) m' e.answer) :
      Session m₀ (es ++ [e]) m'

/-- The map `t` after the calls `es`, in which `g` entries came or went. -/
inductive TableRun (t₀ : SlotTable (RegistryEntry P)) :
    List (Event P) → SlotTable (RegistryEntry P) → Nat → Prop
  | start : TableRun t₀ [] t₀ 0
  | call {es : List (Event P)} {t t' : SlotTable (RegistryEntry P)}
      {e : Event P} {g k : Nat} (before : TableRun t₀ es t g)
      (step : TableStep e.alive t e.call e.answer t' k) :
      TableRun t₀ (es ++ [e]) t' (g + k)

theorem table_initialized (n : Nat) :
    (Region.initialized P n).table = SlotTable.empty (RegistryEntry P) n := by
  refine SlotTable.ext rfl fun i => ?_
  rw [(Calm.initialized n).table_get]
  rfl

/-- The invariant of a session. -/
theorem Session.calm {n : Nat} {es : List (Event P)} {m : Region P}
    (h : Session (Region.initialized P n) es m) : Calm m ∧
      TableRun (SlotTable.empty (RegistryEntry P) n) es m.table
        m.generation := by
  induction h with
  | start =>
    rw [table_initialized]
    exact ⟨.initialized n, .start⟩
  | @call es m m' e _ hreturns ih =>
    obtain ⟨hcalm, hrun⟩ := ih
    obtain ⟨m'', r, k, hserved⟩ := hcalm.serves e.alive e.call
    obtain ⟨rfl, hanswer⟩ := (hserved.returns m' e.answer).mp hreturns
    have hstep := hserved.table
    rw [← hanswer] at hstep
    rw [hserved.generation]
    exact ⟨hserved.calm, .call hrun hstep⟩

/-- The registry refines a finite map from slot indices to entries: after any
calls, one at a time, the map has made the same calls with the same answers,
the generation counts the entries that came and went, and the high-water
bound is above every entry.  The next call comes back, with one outcome. -/
theorem session_refines_table {n : Nat} {es : List (Event P)} {m : Region P}
    (h : Session (Region.initialized P n) es m) :
    TableRun (SlotTable.empty (RegistryEntry P) n) es m.table m.generation ∧
    (∀ i, m.table.get i ≠ none → i < m.highWaterSlot) ∧
    ∀ (alive : P → Bool) (c : SerialCall P), ∃ m' r k,
      (∀ m'' r', Returns alive (m, begin m c) m'' r' ↔ m'' = m' ∧ r' = r) ∧
      TableStep alive m.table c r m'.table k ∧
      m'.generation = m.generation + k ∧
      (∀ e, c = .add e → (r = .full ↔ ∀ i < m.table.capacity, ∃ e',
        m.table.get i = some e' ∧ e'.dead alive = false)) := by
  obtain ⟨hcalm, hrun⟩ := h.calm
  refine ⟨hrun, fun i hi => ?_, fun alive c => ?_⟩
  · by_contra hge
    exact hi (by rw [hcalm.table_get, hcalm.entryAt_of_le (by omega)])
  · obtain ⟨m', r, k, hserved⟩ := hcalm.serves alive c
    refine ⟨m', r, k, hserved.returns, hserved.table, hserved.generation, ?_⟩
    intro e hc
    have hstep := hserved.table
    rw [hc] at hstep
    exact hstep.full_iff

/-- A registry of one slot after one addition. -/
theorem session_refines_table_one :
    ∃ (e : RegistryEntry Nat) (m : Region Nat),
      Session (Region.initialized Nat 1)
        [⟨fun _ => true, .add e, .index 0⟩] m ∧
      TableRun (SlotTable.empty (RegistryEntry Nat) 1)
        [⟨fun _ => true, .add e, .index 0⟩] m.table m.generation := by
  let e : RegistryEntry Nat :=
    ⟨.node, Words.store (Field.zero Nat) .pid (some 7)⟩
  obtain ⟨m, r, k, hserved⟩ :=
    (Calm.initialized (P := Nat) 1).serves (fun _ => true) (.add e)
  have hindex : r = .index 0 := by
    have hstep := hserved.table
    rw [table_initialized] at hstep
    generalize m.table = t at hstep
    have hnot : ¬(SlotTable.empty (RegistryEntry Nat) 1).Full :=
      fun hfull => hfull 0 (by decide) rfl
    cases hstep with
    | add free =>
      have hzero : (SlotTable.empty (RegistryEntry Nat) 1).LowestFree 0 :=
        ⟨by decide, rfl, fun j hj => absurd hj (Nat.not_lt_zero j)⟩
      rw [free.unique hzero]
    | addReclaim full _ => exact absurd full hnot
    | addFull full =>
      obtain ⟨_, hget, _⟩ := full 0 (by decide)
      cases hget
  have hsession : Session (Region.initialized Nat 1)
      [⟨fun _ => true, .add e, .index 0⟩] m := by
    have hreturns := (hserved.returns m r).mpr ⟨rfl, rfl⟩
    rw [hindex] at hreturns
    exact .call (e := ⟨fun _ => true, .add e, .index 0⟩) .start hreturns
  exact ⟨e, m, hsession, (session_refines_table hsession).1⟩

end RmwUnixSocket.Registry
