import RmwUnixSocket.Registry.AddRemove

/-!
# What `registry_query` answers

Every result of a query is the entry of one `registry_add`, and the slot
showed this entry at some moment of the query (`registry_query_results`).

The result rests on the parity of the seqlock counter.  A claim that meets a
teardown breaks it: the two processes add to the counter in turn, and the
teardown wipes the payload under a published type
(`registry_query_zeroed`).
-/

namespace RmwUnixSocket.Registry

variable {P : Type}

/-- True for a kill. -/
def Act.kills : Act P → Bool
  | .kill _ => true
  | _ => false

theorem Act.ne_kill_of_kills {a : Act P} (h : a.kills = false) (p : P) :
    a ≠ .kill p := by
  rintro rfl
  cases h

/-- The calls of `registry_add`, `registry_remove` and `registry_query` and
their steps. -/
def Act.addsRemovesQueries : Act P → Bool
  | .call _ .cleanup => false
  | .kill _ => false
  | _ => true

/-- The filter of a query that is about to start. -/
def Local.asks (l : Local P) : Option QueryFilter :=
  match l.pc with
  | .queryHw flt => some flt
  | _ => none

theorem Local.pc_of_asks {l : Local P} {flt : QueryFilter}
    (h : l.asks = some flt) : l.pc = .queryHw flt := by
  unfold Local.asks at h
  split at h
  · rename_i flt' hpc
    rwa [Option.some.inj h] at hpc
  · cases h

/-- The answer of a query that has just ended. -/
def Local.answered (l : Local P) : Option (List RegistryQueryResult) :=
  match l.pc, l.ret with
  | .idle, some (.results rs) => some rs
  | _, _ => none

/-- The 32-bit counter of a slot does not wrap inside one snapshot. -/
def NoWrap (s : State P) : Act P → Prop
  | .step p _ =>
    ∀ x ∈ (s.procs p).pc.observes, (s.slot x.1).seq < x.2.1 + 2 ^ 32
  | _ => True

instance (s : State P) (a : Act P) : Decidable (NoWrap s a) :=
  match a with
  | .step p _ =>
    inferInstanceAs (Decidable
      (∀ x ∈ (s.procs p).pc.observes, (s.slot x.1).seq < x.2.1 + 2 ^ 32))
  | .call _ _ => isTrue trivial
  | .kill _ => isTrue trivial

/-- Slot `i` shows the entry `e` of a `registry_add`. -/
structure Published (s : State P) (i : Nat) (e : RegistryEntry P) : Prop where
  inside : i < s.region.maxEntries
  state : (s.slot i).state = .entry e.type
  occupant : ∃ p, s.occupant i = some (p, e)

theorem Occupied.published {s : State P} {i : Nat} {p : P}
    {e : RegistryEntry P} (h : Occupied s i p e) (hbounds : Bounds s) :
    Published s i e :=
  ⟨hbounds.filled i (by rw [h.state]; nofun), h.state, p, h.occupant⟩

/-! ## A query in progress -/

/-- The snapshot that a query takes: the slot, the counter at its start and
the type that it read. -/
def Pc.reads : Pc P → Option (Nat × Nat × RegistryEntryType)
  | .snapCopy (.query _) i _ snap _ => some (i, snap.seq, snap.type)
  | _ => none

/-- The query of process `q` after a run through `us` to `t`: its results
were published on the way, and so was the entry of the slot that it reads, if
the counter has not moved. -/
structure QuerySound (q : P) (us : List (State P)) (t : State P) : Prop where
  results : ∀ r ∈ (t.procs q).results,
    ∃ u ∈ us, ∃ i e, Published u i e ∧ r = e.result
  reading : ∀ i n type, (t.procs q).pc.reads = some (i, n, type) →
    (t.slot i).seq = n →
      ∃ u ∈ us, ∃ e, Published u i e ∧ e.type = type ∧
        (t.slot i).payload = e.payload

/-- Two program counters of one query have the same results. -/
theorem Local.results_congr {l l' : Local P} (hidle : l.pc.isIdle = false)
    (hidle' : l'.pc.isIdle = false) (hquery : l'.pc.query = l.pc.query) :
    l'.results = l.results := by
  have hresults : ∀ l : Local P, l.pc.isIdle = false →
      l.results = (l.pc.query.map Query.results).getD [] := by
    rintro ⟨pc, held, ret⟩ h
    cases pc <;> first | rfl | cases h
  rw [hresults l hidle, hresults l' hidle', hquery]

theorem Pc.reads_of_plain {pc : Pc P} (h : pc.plain = true) :
    pc.reads = none := by
  cases pc <;> first | rfl | cases h

theorem Pc.even_of_reads {s : State P} {q : P} (h : Inv s) {i n : Nat}
    {type : RegistryEntryType}
    (hreads : (s.procs q).pc.reads = some (i, n, type)) :
    n % 2 = 0 ∧ n ≤ (s.slot i).seq := by
  cases hpc : (s.procs q).pc <;> rw [hpc] at hreads <;> try cases hreads
  case snapCopy c j retry snap rest =>
    have hobs := (h.locals q).observe j snap.seq snap.payload rest
      (by rw [hpc]; rfl)
    cases c with
    | sweep w => cases hreads
    | query qq =>
      cases hreads
      exact ⟨hobs.even, hobs.le⟩

section Query

variable {q : P} {us : List (State P)} {s t : State P}

/-- A query that is about to start has no results and reads no slot. -/
theorem QuerySound.of_asks {flt : QueryFilter}
    (h : (s.procs q).asks = some flt) : QuerySound q us s := by
  have hpc := Local.pc_of_asks h
  refine ⟨?_, ?_⟩
  · simp [Local.results, hpc, Pc.query]
  · simp [hpc, Pc.reads]

theorem Local.mem_results {l : Local P} {rs : List RegistryQueryResult}
    (h : l.answered = some rs) {r : RegistryQueryResult} (hr : r ∈ rs) :
    r ∈ l.results := by
  unfold Local.answered at h
  split at h
  · rename_i rs' hpc hret
    cases h
    simpa [Local.results, hpc, hret] using hr
  · cases h

/-- A query is not disturbed by the steps of the others. -/
theorem QuerySound.others (h : QuerySound q us s) (hinv : Inv s)
    (hmoved : ∀ i, Moved s t i) (hq : t.procs q = s.procs q) :
    QuerySound q (us ++ [t]) t where
  results r hr := by
    rw [hq] at hr
    obtain ⟨u, hu, hrest⟩ := h.results r hr
    exact ⟨u, List.mem_append_left _ hu, hrest⟩
  reading i n type hreads hseq := by
    rw [hq] at hreads
    obtain ⟨heven, hle⟩ := Pc.even_of_reads hinv hreads
    have hle' := (hmoved i).le
    have hold : (s.slot i).seq = n := by omega
    obtain ⟨u, hu, e, hpub, htype, hpay⟩ := h.reading i n type hreads hold
    refine ⟨u, List.mem_append_left _ hu, e, hpub, htype, ?_⟩
    rcases (hmoved i).payload (by omega) with hsame | hodd
    · rw [hsame, hpay]
    · omega

/-- A query that goes on without a new result and outside a snapshot. -/
theorem QuerySound.of_results (h : QuerySound q us s)
    (hresults : ∀ r ∈ (t.procs q).results, r ∈ (s.procs q).results)
    (hreads : (t.procs q).pc.reads = none) : QuerySound q (us ++ [t]) t where
  results r hr := by
    obtain ⟨u, hu, hrest⟩ := h.results r (hresults r hr)
    exact ⟨u, List.mem_append_left _ hu, hrest⟩
  reading i n type h' := by
    rw [hreads] at h'
    cases h'

variable [DecidableEq P]

/-- The steps of the query itself. -/
theorem QuerySound.move (h : QuerySound q us s) (hinv : Inv s)
    (hbounds : Bounds s) (hlast : s ∈ us) {eff : Effect P} {l' : Local P}
    (hmove : Move s.alive s.region (s.procs q) eff l')
    (hwrap : ∀ x ∈ (s.procs q).pc.observes,
      (s.slot x.1).seq < x.2.1 + 2 ^ 32) :
    QuerySound q (us ++ [s.commit q (eff, l')]) (s.commit q (eff, l')) := by
  have hslots : eff.target = none → ∀ i,
      (s.commit q (eff, l')).slot i = s.slot i := fun heff i =>
    s.region.apply_slots_of_ne (by simp [heff])
  cases hmove with
  | rest quiet noclaim busy settled rests =>
    refine h.of_results (fun r hr => ?_) ?_
    · rw [State.commit_self] at hr
      simpa using rests.results r hr
    · rw [State.commit_self]
      exact Pc.reads_of_plain rests.plain
  | collect qq i retry snap l' at_pc same rests =>
    have hobs := (hinv.locals q).observe i snap.seq snap.payload []
      (by rw [at_pc]; rfl)
    have hlt := hwrap (i, snap.seq, snap.payload, []) (by rw [at_pc]; rfl)
    have hseq : (s.slot i).seq = snap.seq := by
      have := hobs.le
      simp only [RegistryEntrySlot.seqWord] at same
      simp only [State.slot] at *
      omega
    obtain ⟨u, hu, e, hpub, htype, hpay⟩ :=
      h.reading i snap.seq snap.type (by rw [at_pc]; rfl) hseq
    refine ⟨fun r hr => ?_, fun i n type hreads => ?_⟩
    · rw [State.commit_self] at hr
      rcases rests.results r hr with hold | hnew
      · obtain ⟨u', hu', hrest⟩ := h.results r hold
        exact ⟨u', List.mem_append_left _ hu', hrest⟩
      · refine ⟨u, List.mem_append_left _ hu, i, e, hpub, ?_⟩
        rw [List.mem_singleton.mp hnew, ← (hobs.copied hseq).eq, hpay, ← htype]
        rfl
    · rw [State.commit_self, Pc.reads_of_plain rests.plain] at hreads
      cases hreads
  | snapState c i retry s1 type at_pc state =>
    obtain ⟨o, e, hocc⟩ := (hinv.slots i).entry type state
    refine ⟨fun r hr => ?_, fun j n type' hreads _ => ?_⟩
    · rw [State.commit_self, Local.results_congr (l := s.procs q)
        (by rw [at_pc]; rfl) rfl (by rw [at_pc]; cases c <;> rfl)] at hr
      obtain ⟨u, hu, hrest⟩ := h.results r hr
      exact ⟨u, List.mem_append_left _ hu, hrest⟩
    · rw [State.commit_self] at hreads
      cases c with
      | sweep w => cases hreads
      | query qq =>
        cases hreads
        refine ⟨s, List.mem_append_left _ hlast, e, hocc.published hbounds, ?_, ?_⟩
        · have := hocc.state
          rw [state] at this
          exact (SlotState.entry.inj this).symm
        · rw [hslots rfl]
          exact hocc.payload
  | snapCopy c i retry snap f rest at_pc =>
    refine ⟨fun r hr => ?_, fun j n type' hreads hseq => ?_⟩
    · rw [State.commit_self, Local.results_congr (l := s.procs q)
        (by rw [at_pc]; rfl) rfl (by rw [at_pc]; cases c <;> rfl)] at hr
      obtain ⟨u, hu, hrest⟩ := h.results r hr
      exact ⟨u, List.mem_append_left _ hu, hrest⟩
    · rw [State.commit_self] at hreads
      rw [hslots rfl] at hseq ⊢
      cases c with
      | sweep w => cases hreads
      | query qq =>
        obtain ⟨u, hu, hrest⟩ := h.reading j n type' (by rw [at_pc]; exact hreads) hseq
        exact ⟨u, List.mem_append_left _ hu, hrest⟩
  | snapSeq c i retry at_pc even =>
    refine h.of_results (fun r hr => ?_) (by rw [State.commit_self]; rfl)
    rwa [State.commit_self, Local.results_congr (l := s.procs q)
      (by rw [at_pc]; rfl) rfl (by rw [at_pc]; cases c <;> rfl)] at hr
  | retryWiden e i at_pc below =>
    exact h.of_results (by simp [Local.results, Pc.query])
      (by rw [State.commit_self]; rfl)
  | wide e i at_pc above =>
    exact h.of_results (by simp [Local.results, Pc.query])
      (by rw [State.commit_self]; rfl)
  | returnIndex e i at_pc =>
    exact h.of_results (by simp [Local.results, Local.returnIndex, Pc.query])
      (by rw [State.commit_self]; rfl)
  | _ =>
    exact h.of_results (by simp [Local.results, Pc.query])
      (by rw [State.commit_self]; rfl)

/-- Every step keeps a query sound. -/
theorem QuerySound.step {a : Act P} (h : QuerySound q us s) (hinv : Inv s)
    (hbounds : Bounds s) (hlast : s ∈ us) (hwrap : NoWrap s a)
    (hstep : Registry.step s a = some t) : QuerySound q (us ++ [t]) t := by
  have hmoved := hinv.moved_step hstep
  cases a with
  | call p c =>
    obtain ⟨-, -, l, henter, rfl⟩ := of_step_call hstep
    by_cases hq : q = p
    · subst hq
      have hnew : l.results = [] ∧ l.pc.reads = none := by
        rcases enter_cases henter with hstarts | ⟨i, e, -, -, rfl⟩
        · exact ⟨hstarts.results, Pc.reads_of_plain hstarts.plain⟩
        · exact ⟨rfl, rfl⟩
      refine h.of_results ?_ (by rw [State.setLocal_self]; exact hnew.2)
      simp [hnew.1]
    · exact h.others hinv hmoved (s.setLocal_of_ne p l hq)
  | step p spurious =>
    obtain ⟨-, eff, l, hexec, rfl⟩ := of_step_step hstep
    by_cases hq : q = p
    · subst hq
      exact h.move hinv hbounds hlast (exec_move hexec) hwrap
    · exact h.others hinv hmoved (s.commit_of_ne p _ hq)
  | kill p =>
    obtain ⟨-, rfl⟩ := of_step_kill hstep
    by_cases hq : q = p
    · subst hq
      exact h.of_results (by simp [Local.results, Local.fresh, Pc.query])
        (by rw [State.slay_self]; rfl)
    · exact h.others hinv hmoved (s.slay_of_ne p hq)

end Query

/-! ## The result -/

section Result

variable [DecidableEq P]

/-- The runs in which nobody is killed, no counter wraps inside a snapshot
and no claim meets a teardown. -/
def QueryOk (s : State P) (a : Act P) : Prop :=
  a.kills = false ∧ NoWrap s a ∧ ClaimFree s a

instance [Fintype P] (s : State P) (a : Act P) : Decidable (QueryOk s a) :=
  inferInstanceAs (Decidable (_ ∧ _))

/-- Every result of a query is an entry that its slot showed during the
query, in every run in which no slot is claimed during its teardown. -/
theorem registry_query_results {n : Nat} {s t : State P} {us : List (State P)}
    (hbefore : (machine P).Reach QueryOk (State.init P n) s) {q : P}
    {flt : QueryFilter} (hasks : (s.procs q).asks = some flt)
    (hrun : (machine P).Trace QueryOk s us t) {rs : List RegistryQueryResult}
    (hanswered : (t.procs q).answered = some rs) :
    ∀ r ∈ rs, ∃ u ∈ us, ∃ i e, Published u i e ∧ r = e.result := by
  have hkeep : ∀ (s : State P) (a : Act P) (t : State P),
      (Inv s ∧ Bounds s ∧ ∀ p, s.alive p = true) → QueryOk s a →
        (machine P).step s a = some t →
          Inv t ∧ Bounds t ∧ ∀ p, t.alive p = true := by
    rintro s a t ⟨hinv, hbounds, halive⟩ ⟨hkills, -, hclaim⟩ hstep
    have hkill := Act.ne_kill_of_kills hkills
    exact ⟨hinv.step_of_alive halive hkill hclaim hstep,
      hbounds.step hinv hstep, alive_of_step halive hkill hstep⟩
  have hs := hbefore.invariant
    ⟨Inv.init n, Bounds.init n, fun _ => rfl⟩ hkeep
  have hsound : QuerySound q us t := by
    refine hrun.invariant (I := fun us t => QuerySound q us t)
      (.of_asks hasks) ?_
    intro us t a u htrace hsound hok hstep
    obtain ⟨hinv, hbounds, -⟩ := htrace.reach.invariant hs hkeep
    exact hsound.step hinv hbounds htrace.last_mem hok.2.1 hstep
  exact fun r hr => hsound.results r (Local.mem_results hanswered hr)

set_option maxRecDepth 100000 in
/-- A query of process 1 finds the node of process 0. -/
theorem registry_query_results_node :
    ∃ (us : List (State (Fin 2))) (t : State (Fin 2)) (rs : _),
      (t.procs 1).answered = some rs ∧ rs.length = 1 ∧
        ∀ r ∈ rs, ∃ u ∈ us, ∃ i e, Published u i e ∧ r = e.result := by
  obtain ⟨s, us, t, hbefore, hrun, hasks, hanswered⟩ :=
    (machine (Fin 2)).exists_trace_of_guardedTrace QueryOk QueryOk
      (State.init (Fin 2) 1)
      (.call 0 (.add (nodeEntry 0 97)) :: steps 0 19 ++ [.call 1 (.query {})])
      (steps 1 16)
      (fun s _ t => (s.procs 1).asks.isSome = true ∧
        (t.procs 1).answered.map List.length = some 1) (by decide)
  obtain ⟨flt, hasks⟩ := Option.isSome_iff_exists.mp hasks
  obtain ⟨rs, hrs, hlength⟩ := Option.map_eq_some_iff.mp hanswered
  exact ⟨us, t, rs, hrs, hlength, registry_query_results hbefore hasks hrun hrs⟩

set_option maxRecDepth 100000 in
/-- Process 0 wipes the slot after process 1 has published its node there, and
then a query answers a node without a name or a path. -/
theorem registry_query_zeroed :
    ¬∀ (s t : State (Fin 2)) (us : List (State (Fin 2))),
      (machine (Fin 2)).Reach
        (fun s a => a.addsRemovesQueries = true ∧ NoWrap s a)
        (State.init (Fin 2) 1) s →
      ∀ q flt, (s.procs q).asks = some flt →
      (machine (Fin 2)).Trace
        (fun s a => a.addsRemovesQueries = true ∧ NoWrap s a) s us t →
      ∀ rs, (t.procs q).answered = some rs →
      ∀ r ∈ rs, ∃ u ∈ us, ∃ i e, Published u i e ∧ r = e.result := by
  intro hclaim
  obtain ⟨s, us, t, hbefore, hrun, hasks, hanswered, hpaths⟩ :=
    (machine (Fin 2)).exists_trace_of_guardedTrace
      (fun s a => a.addsRemovesQueries = true ∧ NoWrap s a)
      (fun s a => a.addsRemovesQueries = true ∧ NoWrap s a)
      (State.init (Fin 2) 1)
      (.call 0 (.add (nodeEntry 0 97)) :: steps 0 19 ++
        .call 0 (.remove 0) :: steps 0 2 ++
        .call 1 (.add (nodeEntry 1 98)) :: steps 1 18 ++ steps 0 17 ++
        [.call 1 (.query {})])
      (steps 1 16)
      (fun s us t => (s.procs 1).asks.isSome = true ∧
        (t.procs 1).answered.map (List.map (·.socketPath)) = some [[]] ∧
        ∀ u ∈ us, u.region.maxEntries = 1 ∧
          (u.occupant 0).map (fun x => x.2.path) = some [98]) (by decide)
  obtain ⟨flt, hasks⟩ := Option.isSome_iff_exists.mp hasks
  obtain ⟨rs, hrs, hzero⟩ := Option.map_eq_some_iff.mp hanswered
  obtain ⟨r, hr, hnil⟩ :=
    List.mem_map.mp (hzero ▸ List.mem_singleton_self ([] : List UInt8))
  obtain ⟨u, hu, i, e, hpub, rfl⟩ :=
    hclaim s t us hbefore 1 flt hasks hrun rs hrs r hr
  obtain ⟨hmax, hpath⟩ := hpaths u hu
  obtain rfl : i = 0 := by
    have := hpub.inside
    omega
  obtain ⟨p, hocc⟩ := hpub.occupant
  rw [hocc] at hpath
  exact absurd (hnil.symm.trans (Option.some.inj hpath)) nofun

end Result

end RmwUnixSocket.Registry
