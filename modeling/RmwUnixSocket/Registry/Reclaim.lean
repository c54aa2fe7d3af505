import RmwUnixSocket.Registry.Visibility

/-!
# What `registry_cleanup_stale` reclaims

Take a state in which no live process is inside `registry_add`,
`registry_remove` or `registry_cleanup_stale`.  One sweep that runs from there
to its end leaves every slot of a dead process empty
(`registry_cleanup_stale_reclaims`).

This needs one more condition on the kills than the visibility of entries.
`WholeAdd` says that no process is killed between its claim and the moment
when the high-water mark covers its slot.  A slot of a process that was
killed before stays reserved for ever, since no sweep takes a reserved slot
(`registry_cleanup_stale_leaves_reserved`).
-/

namespace RmwUnixSocket.Registry

variable {P : Type}

/-! ## The conditions on the kills -/

/-- No process is killed while it fills a slot, or after it has published a
slot that the high-water mark does not cover yet. -/
def WholeAdd (s : State P) : Act P → Prop
  | .kill p =>
    (s.procs p).pc.claims.isNone = true ∧
      ∀ i ∈ (s.procs p).pc.widens, i < s.region.highWaterSlot
  | _ => True

instance (s : State P) (a : Act P) : Decidable (WholeAdd s a) :=
  match a with
  | .kill p =>
    inferInstanceAs (Decidable ((s.procs p).pc.claims.isNone = true ∧
      ∀ i ∈ (s.procs p).pc.widens, i < s.region.highWaterSlot))
  | .call _ _ => isTrue trivial
  | .step _ _ => isTrue trivial

/-- The conditions of the slot protocol, and no kill inside
`registry_add`. -/
def ReclaimOk (s : State P) (a : Act P) : Prop :=
  CrashOk s a ∧ WholeAdd s a

instance [Fintype P] (s : State P) (a : Act P) : Decidable (ReclaimOk s a) :=
  inferInstanceAs (Decidable (_ ∧ _))

/-! ## Every filled slot is somebody's work or under the mark -/

/-- A reserved slot is being filled, and a published slot is covered by the
high-water mark or about to be. -/
structure Covered (s : State P) : Prop where
  reserved : ∀ i, (s.slot i).state = .reserved →
    ∃ p e, (s.procs p).pc.claims = some (i, e)
  published : ∀ i t, (s.slot i).state = .entry t →
    i < s.region.highWaterSlot ∨ ∃ p, (s.procs p).pc.widens = some i

theorem Covered.init (n : Nat) : Covered (State.init P n) where
  reserved := nofun
  published := nofun

/-- Only a claim reserves a slot. -/
theorem Move.reserved {alive : P → Bool} {m : Region P} {l l' : Local P}
    {eff : Effect P} (h : Move alive m l eff l') {i : Nat}
    (hi : ((m.apply eff).slots i).state = .reserved) :
    (m.slots i).state = .reserved ∨ ∃ e, l'.pc.claims = some (i, e) := by
  rcases m.apply_state eff i with hsame | heff
  · exact .inl (hsame ▸ hi)
  · rw [hi] at heff
    subst heff
    cases h with
    | rest quiet _ _ _ _ => cases quiet
    | claim e i again at_pc empty => exact .inr ⟨e, rfl⟩

/-- A process that fills a slot goes on to fill it, or publishes it. -/
theorem Move.claims {alive : P → Bool} {m : Region P} {l l' : Local P}
    {eff : Effect P} (h : Move alive m l eff l') {i : Nat}
    {e : RegistryEntry P} (hi : l.pc.claims = some (i, e)) :
    l'.pc.claims = some (i, e) ∨ l.pc = .publish e i := by
  have hbusy := Pc.busy_of_claims hi
  cases h with
  | rest _ _ busy _ _ => rw [busy] at hbusy; cases hbusy
  | publish e' i' at_pc =>
    rw [at_pc] at hi
    cases hi
    exact .inr at_pc
  | writeBegin e' i' at_pc => rw [at_pc] at hi; exact .inl hi
  | writeField e' i' f rest at_pc => rw [at_pc] at hi; exact .inl hi
  | writeEnd e' i' at_pc => rw [at_pc] at hi; exact .inl hi
  | retryWiden e' i' at_pc _ =>
    cases hpc : l.pc <;> rw [hpc] at hi at_pc <;> cases hi <;> cases at_pc
  | wide e' i' at_pc _ =>
    cases hpc : l.pc <;> rw [hpc] at hi at_pc <;> cases hi <;> cases at_pc
  | _ =>
    rw [‹l.pc = _›] at hi
    cases hi

/-- The publication stores the type of the entry. -/
theorem Move.of_publish {alive : P → Bool} {m : Region P} {l l' : Local P}
    {eff : Effect P} (h : Move alive m l eff l') {i : Nat}
    {e : RegistryEntry P} (hpc : l.pc = .publish e i) :
    eff = .setState i (.entry e.type) := by
  cases h with
  | rest _ _ busy _ _ => rw [hpc] at busy; cases busy
  | publish e' i' at_pc => rw [hpc] at at_pc; cases at_pc; rfl
  | retryWiden e' i' at_pc _ => rw [hpc] at at_pc; cases at_pc
  | wide e' i' at_pc _ => rw [hpc] at at_pc; cases at_pc
  | _ => simp_all

section Step

variable [DecidableEq P] {s t : State P} {p : P}

theorem Covered.move (h : Covered s) (hbounds : Bounds s)
    {eff : Effect P} {l' : Local P}
    (hmove : Move s.alive s.region (s.procs p) eff l') :
    Covered (s.commit p (eff, l')) := by
  constructor
  · intro i hi
    rcases hmove.reserved hi with hold | ⟨e, he⟩
    · obtain ⟨q, e, hq⟩ := h.reserved i hold
      by_cases hqp : q = p
      · subst hqp
        rcases hmove.claims hq with hgo | hpub
        · exact ⟨q, e, by rw [State.commit_self]; exact hgo⟩
        · -- The publication leaves the slot published, not reserved.
          rw [hmove.of_publish hpub] at hi
          simp at hi
      · exact ⟨q, e, by rw [State.commit_of_ne s p _ hqp]; exact hq⟩
    · exact ⟨p, e, by rw [State.commit_self]; exact he⟩
  · intro i t ht
    have hmark := hmove.highWater_le (hbounds.raises p)
    rcases hmove.published ht with hold | ⟨e, -, -, rfl⟩
    · rcases h.published i t hold with hlt | ⟨q, hq⟩
      · exact .inl (hlt.trans_le hmark)
      · by_cases hqp : q = p
        · subst hqp
          rcases hmove.widens hq with hlt | hgo
          · exact .inl hlt
          · exact .inr ⟨q, by rw [State.commit_self]; exact hgo⟩
        · exact .inr ⟨q, by rw [State.commit_of_ne s p _ hqp]; exact hq⟩
    · exact .inr ⟨p, by rw [State.commit_self]; rfl⟩

theorem Covered.step {a : Act P} (h : Covered s) (hbounds : Bounds s)
    (hwhole : WholeAdd s a)
    (hstep : Registry.step s a = some t) : Covered t := by
  cases a with
  | call p c =>
    obtain ⟨-, hidle, l, -, rfl⟩ := of_step_call hstep
    rw [State.pc] at hidle
    refine ⟨fun i hi => ?_, fun i t ht => ?_⟩
    · obtain ⟨q, e, hq⟩ := h.reserved i hi
      have hqp : q ≠ p := by
        rintro rfl
        rw [hidle] at hq
        cases hq
      exact ⟨q, e, by rw [State.setLocal_of_ne s p _ hqp]; exact hq⟩
    · rcases h.published i t ht with hlt | ⟨q, hq⟩
      · exact .inl hlt
      · have hqp : q ≠ p := by
          rintro rfl
          rw [hidle] at hq
          cases hq
        exact .inr ⟨q, by rw [State.setLocal_of_ne s p _ hqp]; exact hq⟩
  | step p spurious =>
    obtain ⟨-, eff, l, hexec, rfl⟩ := of_step_step hstep
    exact h.move hbounds (exec_move hexec)
  | kill p =>
    obtain ⟨-, rfl⟩ := of_step_kill hstep
    refine ⟨fun i hi => ?_, fun i t ht => ?_⟩
    · obtain ⟨q, e, hq⟩ := h.reserved i hi
      have hqp : q ≠ p := by
        rintro rfl
        have hnone := hwhole.1
        rw [hq] at hnone
        cases hnone
      exact ⟨q, e, by rw [State.slay_of_ne s p hqp]; exact hq⟩
    · rcases h.published i t ht with hlt | ⟨q, hq⟩
      · exact .inl hlt
      · by_cases hqp : q = p
        · subst hqp
          exact .inl (hwhole.2 i hq)
        · exact .inr ⟨q, by rw [State.slay_of_ne s p hqp]; exact hq⟩

end Step

/-! ## A sweep that runs alone

This part is about one sweep and one region.  `dead` is the set of the slots
that the sweep has to empty. -/

/-- What a sweep must find in the region: every filled slot is below its
limit, is published at an even counter, and names a process that is dead if
the slot has to go. -/
structure Sweepable (alive : P → Bool) (m : Region P) (dead : Nat → Prop) :
    Prop where
  inside : ∀ i, (m.slots i).state ≠ .empty →
    i < min m.highWaterSlot m.maxEntries
  published : ∀ i, (m.slots i).state ≠ .empty → ∃ t o,
    (m.slots i).state = .entry t ∧ (m.slots i).payload .pid = some o ∧
      (m.slots i).seq % 2 = 0 ∧ (dead i → alive o = false)

/-- The slot is empty if it has to go. -/
def Cleared (m : Region P) (dead : Nat → Prop) (i : Nat) : Prop :=
  dead i → (m.slots i).state = .empty

/-- The sweep has dealt with the slots before `j`. -/
structure Before (m : Region P) (dead : Nat → Prop) (w : Sweep P) (j : Nat) :
    Prop where
  ret : w.ret = .caller
  limit : w.max = min m.highWaterSlot m.maxEntries
  cleared : ∀ i < j, Cleared m dead i

/-- The snapshot agrees with the slot on the members that were copied. -/
structure Seen (m : Region P) (j : Nat) (snap : Snapshot P)
    (rest : List Field) : Prop where
  seq : snap.seq = (m.slots j).seq
  state : (m.slots j).state = .entry snap.type
  copied : Words.AgreeOff rest (m.slots j).payload snap.payload

/-- What is true at each program counter of the sweep. -/
def Sweeping (m : Region P) (dead : Nat → Prop) : Pc P → Prop
  | .idle => ∀ i, Cleared m dead i
  | .sweepHw ret => ret = .caller
  | .sweepState w j => Before m dead w j
  | .snapSeq (.sweep w) j _ =>
    Before m dead w j ∧ (m.slots j).state ≠ .empty
  | .snapState (.sweep w) j _ s1 =>
    Before m dead w j ∧ (m.slots j).state ≠ .empty ∧ s1 = (m.slots j).seq
  | .snapCopy (.sweep w) j _ snap rest =>
    Before m dead w j ∧ Seen m j snap rest
  | .sweepPid w j snap => Before m dead w j ∧ Seen m j snap []
  | .sweepSeq w j snap => Before m dead w j ∧ Seen m j snap []
  | .sweepCas w j snap => Before m dead w j ∧ Seen m j snap []
  | .tearBegin (.sweep w _) j =>
    Before m dead w j ∧ (m.slots j).state = .empty
  | .tearPath (.sweep w _) j => Before m dead w j ∧ (m.slots j).state = .empty
  | .tearing (.sweep w _) j _ _ =>
    Before m dead w j ∧ (m.slots j).state = .empty
  | .tearUnlink (.sweep w _) j _ =>
    Before m dead w j ∧ (m.slots j).state = .empty
  | .sweepBump w j _ => Before m dead w j ∧ (m.slots j).state = .empty
  | .sweepRing ret => ret = .caller ∧ ∀ i, Cleared m dead i
  | _ => False

section Sweep

variable {alive : P → Bool} {m : Region P} {dead : Nat → Prop} {w : Sweep P}
  {j : Nat}

/-- An effect on the emptied slot keeps what the sweep has done. -/
theorem Before.apply {eff : Effect P} (h : Before m dead w j)
    (htarget : eff.target = some j) : Before (m.apply eff) dead w j where
  ret := h.ret
  limit := by
    rw [h.limit]
    cases eff <;> first | rfl | cases htarget
  cleared i hi hdead := by
    rw [m.apply_slots_of_ne (by simpa [htarget] using hi.ne')]
    exact h.cleared i hi hdead

/-- An effect that leaves its slot empty keeps the rest of the region
sweepable. -/
theorem Sweepable.apply {eff : Effect P} (h : Sweepable alive m dead)
    (htarget : eff.target = some j)
    (hempty : ((m.apply eff).slots j).state = .empty) :
    Sweepable alive (m.apply eff) dead := by
  have hlimit : min (m.apply eff).highWaterSlot (m.apply eff).maxEntries =
      min m.highWaterSlot m.maxEntries := by
    cases eff <;> first | rfl | cases htarget
  have hne : ∀ i, ((m.apply eff).slots i).state ≠ .empty →
      (m.apply eff).slots i = m.slots i := by
    intro i hi
    refine m.apply_slots_of_ne ?_
    rw [htarget]
    rintro ⟨⟩
    exact hi hempty
  refine ⟨fun i hi => ?_, fun i hi => ?_⟩
  · rw [hlimit]
    exact h.inside i (by rwa [← hne i hi])
  · have heq := hne i hi
    rw [heq] at hi ⊢
    exact h.published i hi

/-- The head of the loop of the sweep. -/
theorem Sweeping.sweepLoop {l : Local P} {n : Nat}
    (hs : Sweepable alive m dead) (h : Before m dead w j) :
    Sweeping m dead (l.sweepLoop n w j).pc := by
  unfold Local.sweepLoop
  split
  · exact h
  · rename_i hj
    have hall : ∀ i, Cleared m dead i := by
      intro i hdead
      by_contra hne
      have hi := hs.inside i hne
      rw [← h.limit] at hi
      exact hne (h.cleared i (by omega) hdead)
    split
    · exact ⟨h.ret, hall⟩
    · rw [h.ret]
      exact hall

/-- The sweep goes on with the next slot. -/
theorem Before.next (h : Before m dead w j) (hj : Cleared m dead j) :
    Before m dead w (j + 1) where
  ret := h.ret
  limit := h.limit
  cleared i hi := by
    rcases Nat.lt_succ_iff_lt_or_eq.mp hi with hlt | rfl
    · exact h.cleared i hlt
    · exact hj

/-- One step of the sweep. -/
theorem Sweeping.exec {l l' : Local P} {eff : Effect P}
    (h : Sweeping m dead l.pc) (hs : Sweepable alive m dead)
    (hexec : exec alive false m l = some (eff, l')) :
    Sweeping (m.apply eff) dead l'.pc ∧ Sweepable alive (m.apply eff) dead := by
  rcases l with ⟨pc, held, ret⟩
  cases pc with simp only [Registry.exec] at hexec
  | idle => cases hexec
  | sweepHw ret =>
    cases hexec
    exact ⟨.sweepLoop hs ⟨h, rfl, fun i hi => absurd hi (Nat.not_lt_zero i)⟩, hs⟩
  | sweepState w j =>
    split at hexec <;> cases hexec
    · rename_i hempty
      exact ⟨.sweepLoop hs (h.next fun _ => hempty), hs⟩
    · rename_i hfilled
      exact ⟨⟨h, hfilled⟩, hs⟩
  | snapSeq c j retry =>
    cases c with
    | query q => cases h
    | sweep w =>
      obtain ⟨t, o, -, -, heven, -⟩ := hs.published j h.2
      split at hexec <;> cases hexec
      · rename_i hodd
        simp only [RegistryEntrySlot.seqWord] at hodd
        omega
      · exact ⟨⟨h.1, h.2, rfl⟩, hs⟩
  | snapState c j retry s1 =>
    cases c with
    | query q => cases h
    | sweep w =>
      obtain ⟨t, o, hstate, -, -, -⟩ := hs.published j h.2.1
      split at hexec <;> cases hexec
      · rename_i type htype
        exact ⟨⟨h.1, h.2.2, htype, Words.agreeOff_start mem_fieldOrder _ _⟩, hs⟩
      · rename_i hnot
        exact absurd hstate (hnot t)
  | snapCopy c j retry snap rest =>
    cases c with
    | query q => cases h
    | sweep w =>
      obtain ⟨hbefore, hseen⟩ := h
      cases rest with
      | cons f rest =>
        cases hexec
        exact ⟨⟨hbefore, hseen.seq, hseen.state, hseen.copied.store_right⟩, hs⟩
      | nil =>
        simp only at hexec
        split at hexec <;> cases hexec
        · exact ⟨⟨hbefore, hseen⟩, hs⟩
        · rename_i hmoved
          exact absurd (by rw [hseen.seq]; rfl) hmoved
  | sweepPid w j snap =>
    obtain ⟨hbefore, hseen⟩ := h
    obtain ⟨t, o, -, hpid, -, hdead⟩ :=
      hs.published j (by rw [hseen.state]; simp)
    rw [hseen.copied.eq] at hpid
    rw [hpid] at hexec
    simp only at hexec
    split at hexec <;> cases hexec
    · rename_i hlive
      refine ⟨.sweepLoop hs (hbefore.next fun hj => ?_), hs⟩
      rw [hdead hj] at hlive
      cases hlive
    · exact ⟨⟨hbefore, hseen⟩, hs⟩
  | sweepSeq w j snap =>
    obtain ⟨hbefore, hseen⟩ := h
    split at hexec <;> cases hexec
    · exact ⟨⟨hbefore, hseen⟩, hs⟩
    · rename_i hmoved
      exact absurd (by rw [hseen.seq]; rfl) hmoved
  | sweepCas w j snap =>
    obtain ⟨hbefore, hseen⟩ := h
    split at hexec <;> cases hexec
    · exact ⟨⟨hbefore.apply rfl, by simp⟩, hs.apply (j := j) rfl (by simp)⟩
    · rename_i hother
      exact absurd hseen.state hother
  | tearBegin c j =>
    cases c with
    | remove st => cases h
    | sweep w type =>
      cases hexec
      exact ⟨⟨h.1.apply rfl, by simpa using h.2⟩,
        hs.apply (j := j) rfl (by simpa using h.2)⟩
  | tearPath c j =>
    cases c with
    | remove st => cases h
    | sweep w type =>
      cases hexec
      exact ⟨h, hs⟩
  | tearing c j path rest =>
    cases c with
    | remove st => cases h
    | sweep w type =>
      cases rest with
      | cons f rest =>
        cases hexec
        exact ⟨⟨h.1.apply rfl, by simpa using h.2⟩,
          hs.apply (j := j) rfl (by simpa using h.2)⟩
      | nil =>
        cases hexec
        exact ⟨⟨h.1.apply rfl, by simpa using h.2⟩,
          hs.apply (j := j) rfl (by simpa using h.2)⟩
  | tearUnlink c j path =>
    cases c with
    | remove st => cases h
    | sweep w type =>
      cases hexec
      split <;> exact ⟨h, hs⟩
  | sweepBump w j type =>
    cases hexec
    have hs' : Sweepable alive (m.apply .incGeneration) dead :=
      ⟨hs.inside, hs.published⟩
    exact ⟨.sweepLoop hs'
      ⟨h.1.ret, h.1.limit, (h.1.next fun _ => h.2).cleared⟩, hs'⟩
  | sweepRing ret =>
    cases hexec
    obtain ⟨rfl, hall⟩ := h
    exact ⟨hall, hs⟩
  | _ => cases h

end Sweep

/-! ## The result -/

section Result

variable {s t : State P} {c : P}

/-- The last process that claimed the slot is dead. -/
def State.DeadSlot (s : State P) (i : Nat) : Prop :=
  ∃ o e, s.occupant i = some (o, e) ∧ s.alive o = false

/-- Nobody alive is inside `registry_add`, `registry_remove` or
`registry_cleanup_stale`. -/
def State.Quiet (s : State P) : Prop :=
  ∀ q, s.alive q = true →
    (s.procs q).pc.isIdle = true ∨ (s.procs q).inQuery = true

instance [Fintype P] (s : State P) : Decidable s.Quiet :=
  inferInstanceAs (Decidable (∀ q, s.alive q = true →
    (s.procs q).pc.isIdle = true ∨ (s.procs q).inQuery = true))

/-- A quiet state is ready for a sweep. -/
theorem Inv.sweepable (h : Inv s) (hbounds : Bounds s) (hcovered : Covered s)
    (hquiet : s.Quiet) : Sweepable s.alive s.region s.DeadSlot := by
  have hpc : ∀ q, (s.procs q).pc.claims = none ∧ (s.procs q).pc.widens = none := by
    intro q
    cases hlive : s.alive q with
    | false =>
      rw [h.dead q hlive]
      exact ⟨rfl, rfl⟩
    | true =>
      rcases hquiet q hlive with hidle | hquery
      · rw [Pc.eq_idle hidle]
        exact ⟨rfl, rfl⟩
      · cases hpc : (s.procs q).pc <;>
          first
            | exact ⟨rfl, rfl⟩
            | simp [Local.inQuery, Local.asks, hpc, Pc.queryAt] at hquery
  have hentry : ∀ i, (s.slot i).state ≠ .empty → ∃ t,
      (s.slot i).state = .entry t := by
    intro i hi
    cases hstate : (s.slot i).state with
    | empty => exact absurd hstate hi
    | entry t => exact ⟨t, rfl⟩
    | reserved =>
      obtain ⟨q, e, hq⟩ := hcovered.reserved i hstate
      rw [(hpc q).1] at hq
      cases hq
  refine ⟨fun i hi => lt_min ?_ (hbounds.filled i hi), fun i hi => ?_⟩
  · obtain ⟨t, ht⟩ := hentry i hi
    rcases hcovered.published i t ht with hlt | ⟨q, hq⟩
    · exact hlt
    · rw [(hpc q).2] at hq
      cases hq
  · obtain ⟨t, ht⟩ := hentry i hi
    obtain ⟨o, e, hocc⟩ := (h.slots i).entry t ht
    refine ⟨t, o, ht, ?_, hocc.even, ?_⟩
    · rw [← hocc.pid, ← hocc.payload]
    · rintro ⟨o', e', ho', hdead⟩
      rw [hocc.occupant] at ho'
      cases ho'
      exact hdead

/-- What a sweep of process `c` keeps while it runs alone after state `s`. -/
structure SweepsAfter (s : State P) (c : P) (t : State P) : Prop where
  live : t.alive c = true
  alive : t.alive = s.alive
  occupant : t.occupant = s.occupant
  sweepable : Sweepable t.alive t.region s.DeadSlot
  sweeping : Sweeping t.region s.DeadSlot (t.procs c).pc
  looping : (t.procs c).pc = .idle ∨
    (t.procs c).pc.Looping t.region.maxEntries

variable [DecidableEq P]

theorem SweepsAfter.step {a : Act P} {u : State P} (h : SweepsAfter s c t)
    (ha : Alone c t a) (hstep : Registry.step t a = some u) :
    SweepsAfter s c u := by
  subst ha
  obtain ⟨-, eff, l', hexec, rfl⟩ := of_step_step hstep
  have hnoadd : ∀ e i again, (t.procs c).pc ≠ .addCas e i again := by
    intro e i again hpc
    have hsweeping := h.sweeping
    rw [hpc] at hsweeping
    exact hsweeping
  have hexec' := h.sweeping.exec h.sweepable hexec
  refine ⟨h.live, h.alive, ?_, hexec'.2, ?_, ?_⟩
  · rw [State.commit_occupant_of_none t c (claimOf_eq_none hnoadd)]
    exact h.occupant
  · rw [State.commit_self]
    exact hexec'.1
  · rw [State.commit_self, State.commit_region, Region.apply_maxEntries]
    rcases h.looping with hidle | hlooping
    · simp [exec, hidle] at hexec
    · obtain ⟨eff', l'', hexec'', hadv⟩ := exec_looping t.alive hlooping
      rw [hexec] at hexec''
      cases hexec''
      exact hadv.imp id And.left

/-- A sweep that runs alone ends. -/
theorem SweepsAfter.exists_end (h : SweepsAfter s c t) :
    ∃ u, (machine P).Reach (Alone c) t u ∧ (u.procs c).pc = .idle := by
  have hnext : ∀ t, SweepsAfter s c t → ¬(t.procs c).pc = .idle →
      ∃ a u, Alone c t a ∧ (machine P).step t a = some u ∧ SweepsAfter s c u ∧
        (u.procs c).pc.fuel u.region.maxEntries <
          (t.procs c).pc.fuel t.region.maxEntries := by
    intro t h hnot
    rcases h.looping with hidle | hlooping
    · exact absurd hidle hnot
    · obtain ⟨eff, l', hexec, hadv⟩ := exec_looping t.alive hlooping
      have hstep : Registry.step t (.step c false) =
          some (t.commit c (eff, l')) := by
        simp [Registry.step, h.live, hexec]
      refine ⟨.step c false, _, rfl, hstep, h.step rfl hstep, ?_⟩
      simp only [State.commit_self, State.commit_region,
        Region.apply_maxEntries]
      rcases hadv with hidle | hlooping'
      · rw [hidle]
        exact Pc.fuel_pos hlooping
      · exact hlooping'.2
  obtain ⟨u, hrun, -, hdone⟩ := Machine.exists_reach_of_measure
    (fun t => (t.procs c).pc.fuel t.region.maxEntries) hnext h
  exact ⟨u, hrun, hdone⟩

/-- From a quiet state, one sweep that runs alone ends, and then every slot of
a dead process is empty. -/
theorem registry_cleanup_stale_reclaims {n : Nat}
    (hbefore : (machine P).Reach ReclaimOk (State.init P n) s)
    (hquiet : s.Quiet) (hcall : step s (.call c .cleanup) = some t) :
    (∃ u, (machine P).Reach (Alone c) t u ∧ (u.procs c).pc = .idle) ∧
      ∀ u, (machine P).Reach (Alone c) t u → (u.procs c).pc = .idle →
        ∀ i o e, u.occupant i = some (o, e) → u.alive o = false →
          (u.slot i).state = .empty := by
  have hs : Inv s ∧ Bounds s ∧ Covered s := by
    refine hbefore.invariant (I := fun s => Inv s ∧ Bounds s ∧ Covered s)
      ⟨Inv.init n, Bounds.init n, Covered.init n⟩ ?_
    rintro t a u ⟨hinv, hbounds, hcovered⟩ hok hstep
    exact ⟨hinv.step_of_crashOk hok.1 hstep, hbounds.step hinv hstep,
      hcovered.step hbounds hok.2 hstep⟩
  obtain ⟨hinv, hbounds, hcovered⟩ := hs
  obtain ⟨hlive, -, l, henter, rfl⟩ := of_step_call hcall
  cases henter
  have hstart : SweepsAfter s c
      (s.setLocal c ((s.procs c).goto (.sweepHw .caller))) := by
    refine ⟨hlive, rfl, rfl, hinv.sweepable hbounds hcovered hquiet, ?_, ?_⟩
    · rw [State.setLocal_self]
      rfl
    · rw [State.setLocal_self]
      exact .inr rfl
  refine ⟨hstart.exists_end, fun u hrun hidle i o e hocc hdead => ?_⟩
  have hend := hrun.invariant hstart fun t a u h ha hstep => h.step ha hstep
  have hcleared := hend.sweeping
  rw [hidle] at hcleared
  rw [hend.occupant] at hocc
  rw [hend.alive] at hdead
  exact hcleared i ⟨o, e, hocc, hdead⟩

set_option maxRecDepth 100000 in
/-- Process 0 is killed while it holds slot 0, and a sweep of process 1 runs
to its end. -/
theorem registry_cleanup_stale_reclaims_node :
    ∃ s t u : State (Fin 2), (s.slot 0).state = .entry .node ∧
      step s (.call 1 .cleanup) = some t ∧
      (machine (Fin 2)).Reach (Alone 1) t u ∧
      ∀ i o e, u.occupant i = some (o, e) → u.alive o = false →
        (u.slot i).state = .empty := by
  obtain ⟨s, hbefore, hstate, hquiet, hcall⟩ :=
    (machine (Fin 2)).exists_reach_of_guardedRun ReclaimOk
      (State.init (Fin 2) 1)
      (.call 0 (.add (nodeEntry 0 97)) :: steps 0 19 ++ [.kill 0])
      (fun s => (s.slot 0).state = .entry .node ∧ s.Quiet ∧
        (step s (.call 1 .cleanup)).isSome = true) (by decide)
  obtain ⟨t, ht⟩ := Option.isSome_iff_exists.mp hcall
  obtain ⟨⟨u, hrun, hidle⟩, hreclaims⟩ :=
    registry_cleanup_stale_reclaims hbefore hquiet ht
  exact ⟨s, t, u, hstate, ht, hrun, hreclaims u hrun hidle⟩

set_option maxRecDepth 100000 in
/-- Process 0 is killed right after its claim.  The sweep of process 1 looks
at the slot and leaves it reserved. -/
theorem registry_cleanup_stale_leaves_reserved :
    ¬∀ s t : State (Fin 2),
      (machine (Fin 2)).Reach CrashOk (State.init (Fin 2) 1) s → s.Quiet →
      ∀ c, step s (.call c .cleanup) = some t →
      ∀ u, (machine (Fin 2)).Reach (Alone c) t u → (u.procs c).pc = .idle →
      ∀ i o e, u.occupant i = some (o, e) → u.alive o = false →
        (u.slot i).state = .empty := by
  intro hclaim
  obtain ⟨s, hbefore, hquiet, hsweep⟩ :=
    (machine (Fin 2)).exists_reach_of_guardedRun CrashOk (State.init (Fin 2) 1)
      (.call 1 (.add (nodeEntry 1 98)) :: steps 1 19 ++
        .call 1 (.remove 0) :: steps 1 19 ++
        .call 0 (.add (nodeEntry 0 97)) :: steps 0 1 ++ [.kill 0])
      (fun s => s.Quiet ∧
        ((step s (.call 1 .cleanup)).any fun t =>
          ((machine (Fin 2)).guardedRun (Alone 1) t (steps 1 4)).any fun u =>
            (u.procs 1).pc.isIdle && (u.slot 0).state == .reserved &&
              (u.occupant 0).map Prod.fst == some 0 && !u.alive 0) = true)
      (by decide)
  obtain ⟨t, ht, hrest⟩ := (Option.any_eq_true _ _).mp hsweep
  obtain ⟨u, hrun, hu⟩ := (Option.any_eq_true _ _).mp hrest
  simp only [Bool.and_eq_true, beq_iff_eq, Bool.not_eq_true'] at hu
  obtain ⟨⟨⟨hidle, hstate⟩, hocc⟩, hdead⟩ := hu
  obtain ⟨⟨o, e⟩, ho, rfl⟩ := Option.map_eq_some_iff.mp hocc
  have hempty := hclaim s t hbefore hquiet 1 ht u
    (Machine.reach_of_guardedRun hrun) (Pc.eq_idle hidle) 0 _ e ho hdead
  rw [hstate] at hempty
  cases hempty

end Result

end RmwUnixSocket.Registry
