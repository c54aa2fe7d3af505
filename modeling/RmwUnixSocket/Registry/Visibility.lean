import RmwUnixSocket.Registry.QueryResults
import RmwUnixSocket.Registry.Loops

/-!
# A registered entry is visible

A query that runs while a process holds a slot finds the entry of the slot,
and a query that runs alone ends (`registry_query_finds_held`).  Processes
may be killed on the way, but not inside the seqlock section of a teardown.
A kill there leaves the counter of the slot odd, the next occupant keeps the
parity, and no query ever sees its entry (`registry_query_misses_held`).
-/

namespace RmwUnixSocket.Registry

variable {P : Type}

/-- The three conditions of the slot protocol. -/
def CrashOk (s : State P) (a : Act P) : Prop :=
  ClaimFree s a ∧ SweepFresh s a ∧ WholeTeardown s a

instance [Fintype P] (s : State P) (a : Act P) : Decidable (CrashOk s a) :=
  inferInstanceAs (Decidable (_ ∧ _))

/-! ## Nobody touches a slot that is held -/

section Held

variable {s : State P} {p q : P} {i : Nat} {e : RegistryEntry P}

theorem Inv.alive_of_held (h : Inv s) (hheld : (i, e) ∈ (s.procs p).held) :
    s.alive p = true := by
  cases hlive : s.alive p with
  | true => rfl
  | false =>
    rw [h.dead p hlive] at hheld
    cases hheld

/-- No move changes a slot that a process holds. -/
theorem Inv.target_ne_of_held (h : Inv s)
    (hheld : (i, e) ∈ (s.procs p).held) {eff : Effect P} {l' : Local P}
    (hmove : Move s.alive s.region (s.procs q) eff l')
    (hsweep : ∀ x ∈ sweepTakes s.region (s.procs q),
      (s.slot x.1).seq = x.2.seq) : eff.target ≠ some i := by
  have hocc := (h.locals p).held i e hheld
  have hbusy : (s.procs q).pc.busy ≠ some i := fun hb =>
    (h.locals q).state_of_busy hb _ hocc.state
  intro htarget
  cases hmove with
  | rest quiet _ _ _ _ =>
    rw [Effect.target_of_quiet quiet] at htarget
    cases htarget
  | claim e' j again at_pc empty =>
    cases htarget
    have := hocc.state
    simp only [State.slot, empty] at this
    cases this
  | removeTake j st at_pc same =>
    cases htarget
    obtain ⟨e', he'⟩ := (h.locals q).removing i (by rw [at_pc]; rfl)
    have hown := he'.occupant
    rw [hocc.occupant] at hown
    cases hown
    exact (h.locals p).removing_fresh (by rw [at_pc]; rfl)
      (List.mem_map_of_mem hheld)
  | sweepTake w j snap at_pc same =>
    cases htarget
    obtain ⟨o, hpid, hdead⟩ := (h.locals q).vetted snap (by rw [at_pc]; rfl)
    have hobs := (h.locals q).observe i snap.seq snap.payload []
      (by rw [at_pc]; rfl)
    have hseq : (s.slot i).seq = snap.seq := hsweep (i, snap) (by
      simp only [sweepTakes, at_pc]
      exact if_pos same)
    have hp := hocc.pid
    rw [← hocc.payload, (hobs.copied hseq).eq, hpid] at hp
    rw [Option.some.inj hp, h.alive_of_held hheld] at hdead
    cases hdead
  | writeBegin e' j at_pc => cases htarget; exact hbusy (by rw [at_pc]; rfl)
  | writeField e' j f rest at_pc =>
    cases htarget; exact hbusy (by rw [at_pc]; rfl)
  | writeEnd e' j at_pc => cases htarget; exact hbusy (by rw [at_pc]; rfl)
  | publish e' j at_pc => cases htarget; exact hbusy (by rw [at_pc]; rfl)
  | tearBegin c j at_pc => cases htarget; exact hbusy (by rw [at_pc]; rfl)
  | tearField c j path f rest at_pc =>
    cases htarget; exact hbusy (by rw [at_pc]; rfl)
  | tearEnd c j path at_pc => cases htarget; exact hbusy (by rw [at_pc]; rfl)
  | _ => cases htarget

theorem Inv.slot_of_held [DecidableEq P] {t : State P} {a : Act P} (h : Inv s)
    (hheld : (i, e) ∈ (s.procs p).held) (hsweep : SweepFresh s a)
    (hstep : Registry.step s a = some t) : t.slot i = s.slot i := by
  cases a with
  | call r c =>
    obtain ⟨-, -, l, -, rfl⟩ := of_step_call hstep
    rfl
  | step r spurious =>
    obtain ⟨-, eff, l, hexec, rfl⟩ := of_step_step hstep
    exact s.region.apply_slots_of_ne
      (h.target_ne_of_held hheld (exec_move hexec) hsweep)
  | kill r =>
    obtain ⟨-, rfl⟩ := of_step_kill hstep
    rfl

end Held

/-! ## A query on its way to a held slot -/

/-- The local variables of a query and the slot that it is at. -/
def Pc.queryAt : Pc P → Option (Query × Nat)
  | .snapSeq (.query q) i _ => some (q, i)
  | .snapState (.query q) i _ _ => some (q, i)
  | .snapCopy (.query q) i _ _ _ => some (q, i)
  | .queryState q i => some (q, i)
  | _ => none

/-- True inside a query. -/
def Local.inQuery (l : Local P) : Bool :=
  l.asks.isSome || l.pc.queryAt.isSome

theorem Local.not_idle_of_inQuery {l : Local P} (h : l.inQuery = true) :
    l.pc ≠ .idle := by
  intro hpc
  simp [inQuery, asks, hpc, Pc.queryAt] at h

/-- A query that has entry `e` of slot `i` in its results, or that will see
it there. -/
structure Seeks (slot : RegistryEntrySlot P) (i : Nat) (e : RegistryEntry P)
    (flt : QueryFilter) (l : Local P) : Prop where
  asks : ∀ flt', l.asks = some flt' → flt' = flt
  loop : ∀ q j, l.pc.queryAt = some (q, j) →
    q.flt = flt ∧ i < q.max ∧ (i < j → e.result ∈ q.results)
  state : ∀ q retry s1, l.pc = .snapState (.query q) i retry s1 → s1 = slot.seq
  copy : ∀ q retry snap rest, l.pc = .snapCopy (.query q) i retry snap rest →
    snap.seq = slot.seq ∧ snap.type = e.type ∧
      Words.AgreeOff rest e.payload snap.payload
  answered : ∀ rs, l.answered = some rs → e.result ∈ rs

namespace Seeks

variable {slot : RegistryEntrySlot P} {i : Nat} {e : RegistryEntry P}
  {flt : QueryFilter} {l : Local P}

/-- A query between two snapshots. -/
theorem of_plain {q : Query} {j : Nat} (hplain : l.pc.plain = true)
    (hpc : l.pc.queryAt = some (q, j)) (hflt : q.flt = flt) (hi : i < q.max)
    (hres : i < j → e.result ∈ q.results) : Seeks slot i e flt l := by
  have hloop : ∀ q' j', l.pc.queryAt = some (q', j') →
      q'.flt = flt ∧ i < q'.max ∧ (i < j' → e.result ∈ q'.results) := by
    intro q' j' h
    rw [hpc] at h
    cases h
    exact ⟨hflt, hi, hres⟩
  rcases l with ⟨pc, held, ret⟩
  refine ⟨?_, hloop, ?_, ?_, ?_⟩
  · rintro flt' h
    cases pc <;> first | (cases hpc; done) | cases h
  · rintro q' retry s1 h
    rw [show pc = _ from h] at hplain
    cases hplain
  · rintro q' retry snap rest h
    rw [show pc = _ from h] at hplain
    cases hplain
  · rintro rs h
    cases pc <;> first | cases h | cases hpc

/-- The head of the loop of a query: the slots before `j` are done. -/
theorem queryLoop {q : Query} {j : Nat} (hflt : q.flt = flt) (hi : i < q.max)
    (hres : i < j → e.result ∈ q.results) :
    Seeks slot i e flt (l.queryLoop q j) := by
  unfold Local.queryLoop
  split
  · exact of_plain rfl rfl hflt hi hres
  · rename_i hj
    refine ⟨nofun, nofun, nofun, (fun _ _ _ _ h => nomatch h), ?_⟩
    rintro rs ⟨⟩
    exact hres (by omega)

/-- The next look at slot `j`, or the next slot. -/
theorem snapRetry {q : Query} {n j retry : Nat} (hflt : q.flt = flt)
    (hi : i < q.max) (hres : i < j + 1 → e.result ∈ q.results) :
    Seeks slot i e flt (l.snapRetry n (.query q) j retry) := by
  unfold Local.snapRetry
  split
  · exact of_plain rfl rfl hflt hi fun hj => hres (by omega)
  · exact queryLoop hflt hi hres

end Seeks

theorem QueryFilter.acceptsState_entry (flt : QueryFilter)
    (t : RegistryEntryType) :
    flt.acceptsState (.entry t) = flt.acceptsType t := by
  unfold acceptsState acceptsType
  cases flt.type <;> simp

theorem QueryFilter.acceptsType_of_accepts {flt : QueryFilter}
    {t : RegistryEntryType} {snap : Payload P} (h : flt.accepts t snap = true) :
    flt.acceptsType t = true := by
  simp only [accepts, Bool.and_eq_true] at h
  exact h.1.1.1

/-- A query does not miss a held slot. -/
theorem Seeks.exec {s : State P} {i : Nat} {p : P} {e : RegistryEntry P}
    {flt : QueryFilter} {l l' : Local P} {eff : Effect P} {spurious : Bool}
    (h : Seeks (s.slot i) i e flt l) (hocc : Occupied s i p e)
    (hmatch : flt.accepts e.type e.payload = true)
    (hhigh : i < s.region.highWaterSlot) (hmax : i < s.region.maxEntries)
    (hpc : l.inQuery = true)
    (hexec : exec s.alive spurious s.region l = some (eff, l')) :
    Seeks (s.slot i) i e flt l' := by
  rcases l with ⟨pc, held, ret⟩
  cases pc with simp only [Registry.exec] at hexec
  | queryHw flt' =>
    cases hexec
    exact .queryLoop (h.asks flt' rfl) (lt_min hhigh hmax)
      fun hlt => absurd hlt (Nat.not_lt_zero i)
  | queryState q j =>
    obtain ⟨hflt, hi, hres⟩ := h.loop q j rfl
    split at hexec <;> cases hexec
    · exact .of_plain rfl rfl hflt hi hres
    · rename_i hskip
      refine .queryLoop hflt hi fun hj => ?_
      rcases Nat.lt_succ_iff_lt_or_eq.mp hj with hlt | rfl
      · exact hres hlt
      · rw [hocc.state, hflt, QueryFilter.acceptsState_entry,
          QueryFilter.acceptsType_of_accepts hmatch] at hskip
        exact absurd rfl hskip
  | snapSeq c j retry =>
    cases c with
    | sweep w => simp [Local.inQuery, Local.asks, Pc.queryAt] at hpc
    | query q =>
      obtain ⟨hflt, hi, hres⟩ := h.loop q j rfl
      split at hexec <;> cases hexec
      · rename_i hodd
        refine .snapRetry hflt hi fun hj => ?_
        rcases Nat.lt_succ_iff_lt_or_eq.mp hj with hlt | rfl
        · exact hres hlt
        · have heven := hocc.even
          simp only [RegistryEntrySlot.seqWord] at hodd
          simp only [State.slot] at heven
          omega
      · refine ⟨fun _ h => (by cases h), ?_, ?_, fun _ _ _ _ h => (by cases h),
          fun _ h => (by cases h)⟩
        · rintro q' j' ⟨⟩
          exact ⟨hflt, hi, hres⟩
        · rintro q' retry' s1 ⟨⟩
          rfl
  | snapState c j retry s1 =>
    cases c with
    | sweep w => simp [Local.inQuery, Local.asks, Pc.queryAt] at hpc
    | query q =>
      obtain ⟨hflt, hi, hres⟩ := h.loop q j rfl
      split at hexec <;> cases hexec
      · rename_i type htype
        refine ⟨fun _ h => (by cases h), ?_, fun _ _ _ h => (by cases h), ?_,
          fun _ h => (by cases h)⟩
        · rintro q' j' ⟨⟩
          exact ⟨hflt, hi, hres⟩
        · rintro q' retry' snap rest ⟨⟩
          refine ⟨h.state q retry s1 rfl, ?_,
            Words.agreeOff_start mem_fieldOrder _ _⟩
          have := hocc.state
          rw [State.slot, htype] at this
          exact SlotState.entry.inj this
      · rename_i hstate
        refine .queryLoop hflt hi fun hj => ?_
        rcases Nat.lt_succ_iff_lt_or_eq.mp hj with hlt | rfl
        · exact hres hlt
        · exact absurd hocc.state (hstate e.type)
  | snapCopy c j retry snap rest =>
    cases c with
    | sweep w => simp [Local.inQuery, Local.asks, Pc.queryAt] at hpc
    | query q =>
      obtain ⟨hflt, hi, hres⟩ := h.loop q j rfl
      cases rest with
      | cons f rest =>
        cases hexec
        refine ⟨fun _ h => (by cases h), ?_, fun _ _ _ h => (by cases h), ?_,
          fun _ h => (by cases h)⟩
        · rintro q' j' ⟨⟩
          exact ⟨hflt, hi, hres⟩
        · rintro q' retry' snap' rest' ⟨⟩
          obtain ⟨hseq, htype, hcopied⟩ := h.copy q retry snap (f :: rest) rfl
          refine ⟨hseq, htype, ?_⟩
          have := hcopied.store_right
          rwa [← hocc.payload] at this ⊢
      | nil =>
        simp only at hexec
        split at hexec <;> cases hexec
        · simp only [Local.snapDone]
          by_cases hj : j = i
          · subst hj
            obtain ⟨-, htype, hcopied⟩ := h.copy q retry snap [] rfl
            rw [htype, ← hcopied.eq, hflt, if_pos hmatch]
            exact .queryLoop rfl hi fun _ =>
              List.mem_append_right _ (List.mem_singleton_self _)
          · have hold : i < j + 1 → e.result ∈ q.results := fun hlt =>
              hres (by omega)
            split
            · exact .queryLoop hflt hi fun hlt =>
                List.mem_append_left _ (hold hlt)
            · exact .queryLoop hflt hi hold
        · rename_i hmoved
          refine .snapRetry hflt hi fun hj => ?_
          rcases Nat.lt_succ_iff_lt_or_eq.mp hj with hlt | rfl
          · exact hres hlt
          · obtain ⟨hseq, -, -⟩ := h.copy q retry snap [] rfl
            exact absurd (by rw [hseq]; rfl) hmoved
  | _ => simp [Local.inQuery, Local.asks, Pc.queryAt] at hpc

/-- A local state that a step of a query leads to. -/
structure Local.Answers (l l' : Local P) : Prop where
  held : l'.held = l.held
  goes : l'.inQuery = true ∨ l'.answered.isSome = true

theorem Local.answers_queryLoop (l : Local P) (q : Query) (j : Nat) :
    l.Answers (l.queryLoop q j) := by
  unfold queryLoop
  split
  · exact ⟨rfl, .inl rfl⟩
  · exact ⟨rfl, .inr rfl⟩

theorem Local.answers_snapRetry (l : Local P) (q : Query) (n j retry : Nat) :
    l.Answers (l.snapRetry n (.query q) j retry) := by
  unfold snapRetry
  split
  · exact ⟨rfl, .inl rfl⟩
  · exact l.answers_queryLoop q (j + 1)

/-- A query answers or goes on, and it changes nothing. -/
theorem exec_inQuery {alive : P → Bool} {spurious : Bool} {m : Region P}
    {l l' : Local P} {eff : Effect P} (h : l.inQuery = true)
    (hexec : exec alive spurious m l = some (eff, l')) :
    eff = .none ∧ l.Answers l' := by
  rcases l with ⟨pc, held, ret⟩
  have hquery : ∀ c : SnapCaller P, (∀ w, c ≠ .sweep w) → ∃ q, c = .query q := by
    intro c hc
    cases c with
    | sweep w => exact absurd rfl (hc w)
    | query q => exact ⟨q, rfl⟩
  cases pc with simp only [exec] at hexec
  | queryHw flt =>
    cases hexec
    exact ⟨rfl, Local.answers_queryLoop _ _ _⟩
  | queryState q j =>
    split at hexec <;> cases hexec
    · exact ⟨rfl, rfl, .inl rfl⟩
    · exact ⟨rfl, Local.answers_queryLoop _ _ _⟩
  | snapSeq c j retry =>
    obtain ⟨q, rfl⟩ := hquery c fun w hw => by subst hw; cases h
    split at hexec <;> cases hexec
    · exact ⟨rfl, Local.answers_snapRetry _ _ _ _ _⟩
    · exact ⟨rfl, rfl, .inl rfl⟩
  | snapState c j retry s1 =>
    obtain ⟨q, rfl⟩ := hquery c fun w hw => by subst hw; cases h
    split at hexec <;> cases hexec
    · exact ⟨rfl, rfl, .inl rfl⟩
    · exact ⟨rfl, Local.answers_queryLoop _ _ _⟩
  | snapCopy c j retry snap rest =>
    obtain ⟨q, rfl⟩ := hquery c fun w hw => by subst hw; cases h
    cases rest with
    | cons f rest =>
      cases hexec
      exact ⟨rfl, rfl, .inl rfl⟩
    | nil =>
      simp only at hexec
      split at hexec <;> cases hexec
      · refine ⟨rfl, ?_⟩
        simp only [Local.snapDone]
        split <;> exact Local.answers_queryLoop _ _ _
      · exact ⟨rfl, Local.answers_snapRetry _ _ _ _ _⟩
  | _ => cases h

/-! ## The result -/

section Result

variable {s t : State P} {p q : P} {i : Nat} {e : RegistryEntry P}
  {flt : QueryFilter}

/-- Process `p` holds slot `i` and process `q` is inside a query. -/
def DuringQuery (p q : P) (i : Nat) (e : RegistryEntry P) (s : State P)
    (a : Act P) : Prop :=
  CrashOk s a ∧ (i, e) ∈ (s.procs p).held ∧ (s.procs q).inQuery = true

/-- Only process `q` moves. -/
def Alone (q : P) (_ : State P) (a : Act P) : Prop :=
  a = .step q false

/-- A held slot is inside the bounds of a scan. -/
theorem Inv.scanned_of_held (h : Inv s) (hbounds : Bounds s)
    (hheld : (i, e) ∈ (s.procs p).held) :
    i < s.region.highWaterSlot ∧ i < s.region.maxEntries := by
  have hocc := (h.locals p).held i e hheld
  refine ⟨?_, hbounds.filled i (by rw [hocc.state]; nofun)⟩
  rcases hbounds.wide i p e _ hocc.state hocc.occupant
    (h.alive_of_held hheld) with hlt | hwidens
  · exact hlt
  · have hsettled : ∃ e', (s.procs p).pc.settled = some (i, e') := by
      cases hpc : (s.procs p).pc <;> rw [hpc] at hwidens <;> cases hwidens <;>
        exact ⟨_, rfl⟩
    obtain ⟨e', he'⟩ := hsettled
    exact absurd (List.mem_map_of_mem hheld)
      ((h.locals p).settled_fresh he')

/-- A step of a query meets the conditions of the slot protocol. -/
theorem CrashOk.of_inQuery {spurious : Bool}
    (h : (s.procs q).inQuery = true) : CrashOk s (.step q spurious) := by
  have hclaim : claimOf s.region (s.procs q) = none :=
    claimOf_eq_none fun e i again hpc => by
      simp [Local.inQuery, Local.asks, hpc, Pc.queryAt] at h
  have hsweep : sweepTakes s.region (s.procs q) = none := by
    unfold sweepTakes
    split
    · rename_i w i snap hpc
      simp [Local.inQuery, Local.asks, hpc, Pc.queryAt] at h
    · rfl
  refine ⟨?_, ?_, trivial⟩
  · intro c hc
    rw [hclaim] at hc
    cases hc
  · intro x hx
    rw [hsweep] at hx
    cases hx

theorem Seeks.of_asks {slot : RegistryEntrySlot P} {l : Local P}
    (h : l.asks = some flt) : Seeks slot i e flt l := by
  have hpc := Local.pc_of_asks h
  refine ⟨fun flt' h' => ?_, ?_, ?_, ?_, ?_⟩
  · rw [h] at h'
    exact (Option.some.inj h').symm
  all_goals simp [hpc, Pc.queryAt, Local.answered]

variable [DecidableEq P]

instance (q : P) (s : State P) (a : Act P) : Decidable (Alone q s a) :=
  match a with
  | .step p spurious =>
    decidable_of_iff (p = q ∧ spurious = false) (by simp [Alone])
  | .call _ _ => isFalse nofun
  | .kill _ => isFalse nofun

theorem Inv.step_of_crashOk {a : Act P} (h : Inv s) (hok : CrashOk s a)
    (hstep : Registry.step s a = some t) : Inv t :=
  h.step hok.1 hok.2.1 hok.2.2 hstep

theorem Seeks.step {a : Act P} (h : Seeks (s.slot i) i e flt (s.procs q))
    (hinv : Inv s) (hbounds : Bounds s)
    (hmatch : flt.accepts e.type e.payload = true)
    (hok : DuringQuery p q i e s a) (hstep : Registry.step s a = some t) :
    Seeks (t.slot i) i e flt (t.procs q) := by
  obtain ⟨hcrash, hheld, hquery⟩ := hok
  rw [hinv.slot_of_held hheld hcrash.2.1 hstep]
  cases a with
  | call r c =>
    obtain ⟨-, hidle, l, -, rfl⟩ := of_step_call hstep
    by_cases hq : q = r
    · subst hq
      rw [State.pc] at hidle
      simp [Local.inQuery, Local.asks, hidle, Pc.queryAt] at hquery
    · rwa [State.setLocal_of_ne s r l hq]
  | step r spurious =>
    obtain ⟨-, eff, l, hexec, rfl⟩ := of_step_step hstep
    by_cases hq : q = r
    · subst hq
      rw [State.commit_self]
      obtain ⟨hhigh, hmax⟩ := hinv.scanned_of_held hbounds hheld
      exact h.exec ((hinv.locals p).held i e hheld) hmatch hhigh hmax hquery hexec
    · rwa [State.commit_of_ne s r _ hq]
  | kill r =>
    obtain ⟨-, rfl⟩ := of_step_kill hstep
    by_cases hq : q = r
    · subst hq
      rw [State.slay_self]
      exact ⟨fun _ h => (by cases h), fun _ _ h => (by cases h), fun _ _ _ h => (by cases h),
        fun _ _ _ _ h => (by cases h), fun _ h => (by cases h)⟩
    · rwa [State.slay_of_ne s r hq]

/-- A query that runs alone ends. -/
theorem exists_answer_alone (hlive : s.alive q = true)
    (hheld : (i, e) ∈ (s.procs p).held) (hasks : (s.procs q).asks = some flt) :
    ∃ t, (machine P).Reach
        (fun s a => Alone q s a ∧ DuringQuery p q i e s a) s t ∧
      (t.procs q).answered.isSome = true := by
  let I : State P → Prop := fun t =>
    t.alive q = true ∧ (i, e) ∈ (t.procs p).held ∧
      ((t.procs q).answered.isSome = true ∨
        (t.procs q).inQuery = true ∧
          (t.procs q).pc.Looping t.region.maxEntries)
  have hnext : ∀ t, I t → ¬(t.procs q).answered.isSome = true →
      ∃ a u, (Alone q t a ∧ DuringQuery p q i e t a) ∧
        (machine P).step t a = some u ∧ I u ∧
          (u.procs q).pc.fuel u.region.maxEntries <
            (t.procs q).pc.fuel t.region.maxEntries := by
    rintro t ⟨hlive, hheld, hanswered | ⟨hquery, hlooping⟩⟩ hnot
    · exact absurd hanswered hnot
    · obtain ⟨eff, l', hexec, hadv⟩ := exec_looping t.alive hlooping
      obtain ⟨rfl, hanswers⟩ := exec_inQuery hquery hexec
      refine ⟨.step q false, t.commit q (.none, l'),
        ⟨rfl, .of_inQuery hquery, hheld, hquery⟩, ?_, ⟨hlive, ?_, ?_⟩, ?_⟩
      · simp [machine, Registry.step, hlive, hexec]
      · by_cases hpq : p = q
        · subst hpq
          rw [State.commit_self, hanswers.held]
          exact hheld
        · rwa [State.commit_of_ne t q _ hpq]
      · simp only [State.commit_self, State.commit_region,
          Region.apply_maxEntries]
        rcases hanswers.goes with hquery' | hanswered
        · rcases hadv with hidle | hlooping'
          · exact absurd hidle (Local.not_idle_of_inQuery hquery')
          · exact .inr ⟨hquery', hlooping'.1⟩
        · exact .inl hanswered
      · simp only [State.commit_self, State.commit_region,
          Region.apply_maxEntries]
        rcases hadv with hidle | hlooping'
        · rw [hidle]
          exact Pc.fuel_pos hlooping
        · exact hlooping'.2
  have hstart : I s := by
    refine ⟨hlive, hheld, .inr ⟨by simp [Local.inQuery, hasks], ?_⟩⟩
    rw [Local.pc_of_asks hasks]
    trivial
  obtain ⟨t, hrun, -, hdone⟩ := Machine.exists_reach_of_measure
    (fun t => (t.procs q).pc.fuel t.region.maxEntries) hnext hstart
  exact ⟨t, hrun, hdone⟩

/-- A query that runs while a process holds a slot finds the entry of the
slot, and it ends when it runs alone. -/
theorem registry_query_finds_held {n : Nat}
    (hbefore : (machine P).Reach CrashOk (State.init P n) s)
    (hheld : (i, e) ∈ (s.procs p).held) (hasks : (s.procs q).asks = some flt)
    (hmatch : flt.accepts e.type e.payload = true) :
    (∃ t rs, (machine P).Reach (Alone q) s t ∧
        (t.procs q).answered = some rs ∧ e.result ∈ rs) ∧
      ∀ t rs, (machine P).Reach (DuringQuery p q i e) s t →
        (t.procs q).answered = some rs → e.result ∈ rs := by
  have hs : Inv s ∧ Bounds s := by
    refine hbefore.invariant (I := fun s => Inv s ∧ Bounds s)
      ⟨Inv.init n, Bounds.init n⟩ ?_
    rintro t a u ⟨hinv, hbounds⟩ hok hstep
    exact ⟨hinv.step_of_crashOk hok hstep, hbounds.step hinv hstep⟩
  have hfinds : ∀ t rs, (machine P).Reach (DuringQuery p q i e) s t →
      (t.procs q).answered = some rs → e.result ∈ rs := by
    intro t rs hrun hrs
    have ht := hrun.invariant
      (I := fun t => (Inv t ∧ Bounds t) ∧ Seeks (t.slot i) i e flt (t.procs q))
      ⟨hs, .of_asks hasks⟩ (by
        rintro t a u ⟨⟨hinv, hbounds⟩, hseeks⟩ hok hstep
        exact ⟨⟨hinv.step_of_crashOk hok.1 hstep, hbounds.step hinv hstep⟩,
          hseeks.step hinv hbounds hmatch hok hstep⟩)
    exact ht.2.answered rs hrs
  refine ⟨?_, hfinds⟩
  have hlive : s.alive q = true := by
    cases hlive : s.alive q with
    | true => rfl
    | false => simp [hs.1.dead q hlive, Local.fresh, Local.asks] at hasks
  obtain ⟨t, hrun, hdone⟩ := exists_answer_alone hlive hheld hasks
  obtain ⟨rs, hrs⟩ := Option.isSome_iff_exists.mp hdone
  exact ⟨t, rs, hrun.mono fun _ _ h => h.1, hrs,
    hfinds t rs (hrun.mono fun _ _ h => h.2) hrs⟩

set_option maxRecDepth 100000 in
/-- Process 0 is killed, process 1 sweeps its slot and adds its own node
there, and a query of process 1 finds this node. -/
theorem registry_query_finds_held_after_kill :
    ∃ (e : RegistryEntry (Fin 2)) (s t : State (Fin 2)) (rs : _),
      (machine (Fin 2)).Reach (Alone 1) s t ∧
        (t.procs 1).answered = some rs ∧ e.result ∈ rs := by
  obtain ⟨s, hbefore, hheld, hasks⟩ :=
    (machine (Fin 2)).exists_reach_of_guardedRun CrashOk (State.init (Fin 2) 1)
      (.call 0 (.add (nodeEntry 0 97)) :: steps 0 19 ++ .kill 0 ::
        .call 1 (.add (nodeEntry 1 98)) :: steps 1 55 ++ [.call 1 (.query {})])
      (fun s => (s.procs 1).held.map Prod.fst = [0] ∧
        (s.procs 1).asks = some {}) (by decide)
  obtain ⟨⟨i, e⟩, hmem, rfl⟩ :=
    List.mem_map.mp (hheld ▸ List.mem_singleton_self 0)
  obtain ⟨t, rs, hrun⟩ :=
    (registry_query_finds_held hbefore hmem hasks rfl).1
  exact ⟨e, s, t, rs, hrun⟩

set_option maxRecDepth 100000 in
/-- Process 0 is killed after the first `fetch_add` of `teardown_slot`.
Process 1 adds its node to the slot, and its query answers nothing. -/
theorem registry_query_misses_held :
    ¬∀ s : State (Fin 2),
      (machine (Fin 2)).Reach (fun s a => ClaimFree s a ∧ SweepFresh s a)
        (State.init (Fin 2) 1) s →
      ∀ p i e, (i, e) ∈ (s.procs p).held →
      ∀ q flt, (s.procs q).asks = some flt →
        flt.accepts e.type e.payload = true →
      (∀ r, r ≠ q → (s.procs r).pc.isIdle = true) →
      ∀ t rs, (machine (Fin 2)).Reach (Alone q) s t →
        (t.procs q).answered = some rs → e.result ∈ rs := by
  intro hclaim
  obtain ⟨s, us, t, hbefore, hrun, hheld, hasks, hidle, hanswered⟩ :=
    (machine (Fin 2)).exists_trace_of_guardedTrace
      (fun s a => ClaimFree s a ∧ SweepFresh s a) (Alone 1)
      (State.init (Fin 2) 1)
      (.call 0 (.add (nodeEntry 0 97)) :: steps 0 19 ++
        .call 0 (.remove 0) :: steps 0 3 ++ .kill 0 ::
        .call 1 (.add (nodeEntry 1 98)) :: steps 1 18 ++ [.call 1 (.query {})])
      (steps 1 18)
      (fun s _ t => (s.procs 1).held.map Prod.fst = [0] ∧
        (s.procs 1).asks = some {} ∧
        (∀ r, r ≠ 1 → (s.procs r).pc.isIdle = true) ∧
        (t.procs 1).answered = some []) (by decide)
  obtain ⟨⟨i, e⟩, hmem, rfl⟩ :=
    List.mem_map.mp (hheld ▸ List.mem_singleton_self 0)
  exact absurd (hclaim s hbefore 1 0 e hmem 1 {} hasks rfl hidle t [] hrun.reach
    hanswered) nofun

end Result

end RmwUnixSocket.Registry
