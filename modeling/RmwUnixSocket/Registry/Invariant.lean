import RmwUnixSocket.Registry.Protocol

/-!
# Every move keeps the slot protocol

`Inv.step` is the induction step of `Inv`.  It has two common parts:
`Inv.of_quiet`, for a move that touches no slot, and `Inv.of_work`, for a
move on a slot that nobody else relies on.

There are three ways to know that nobody else relies on a slot: the process
is at work on it already (`Inv.free_of_busy`), or it takes the slot from an
owner that is itself or that is dead (`Inv.free_of_occupied`), or the slot is
empty and no teardown is inside it (`Inv.free_of_empty`).
-/

namespace RmwUnixSocket.Registry

variable {P : Type}

/-! ## Slots that nobody else relies on -/

/-- No process but `p` works on slot `i` or owns it. -/
def FreeFor (s : State P) (p : P) (i : Nat) : Prop :=
  ∀ q, q ≠ p → (s.pc q).busy ≠ some i ∧ i ∉ (s.procs q).owned

namespace Inv

variable {s : State P} {p : P} {i : Nat}

theorem free_of_busy (h : Inv s) (hbusy : (s.pc p).busy = some i) :
    FreeFor s p i := by
  intro q hq
  refine ⟨fun hqi => hq (h.busy_unique q p i hqi hbusy), fun howned => ?_⟩
  obtain ⟨e, he⟩ := (h.locals q).occupied_of_owned howned
  exact (h.locals p).state_of_busy hbusy _ he.state

theorem free_of_occupied (h : Inv s) {o : P} {e : RegistryEntry P}
    (hocc : Occupied s i o e) (ho : o = p ∨ s.alive o = false) :
    FreeFor s p i := by
  intro q hq
  refine ⟨fun hqi => (h.locals q).state_of_busy hqi _ hocc.state, fun howned => ?_⟩
  obtain ⟨e', he'⟩ := (h.locals q).occupied_of_owned howned
  obtain ⟨rfl, -⟩ : o = q ∧ e = e' := by simpa [hocc.occupant] using he'.occupant
  rcases ho with rfl | hdead
  · exact hq rfl
  · simp [h.dead o hdead, Local.fresh, Local.owned, Pc.settled,
      Pc.removing] at howned

theorem free_of_empty (h : Inv s) (hempty : (s.slot i).state = .empty)
    (hclaim : ∀ q, (s.pc q).tears ≠ some i) : FreeFor s p i := by
  intro q _
  constructor
  · intro hqi
    cases hclaims : (s.pc q).claims with
    | some c =>
      have hc := ((h.locals q).claim c.1 c.2 hclaims).state
      rw [Pc.busy_of_claims (i := c.1) (e := c.2) hclaims] at hqi
      cases hqi
      simp [hempty] at hc
    | none => exact hclaim q (by simpa [Pc.busy, hclaims] using hqi)
  · intro howned
    obtain ⟨e, he⟩ := (h.locals q).occupied_of_owned howned
    exact absurd he.state (by simp [hempty])

end Inv

/-- A process does not hold a slot that is not published. -/
theorem LocalOk.not_held {s : State P} {p : P} {i : Nat} {l : Local P}
    (h : LocalOk s p l)
    (hstate : ∀ t, (s.slot i).state ≠ .entry t) : i ∉ l.held.map Prod.fst := by
  intro hi
  obtain ⟨⟨j, e⟩, hheld, rfl⟩ := List.mem_map.mp hi
  exact hstate _ (h.held j e hheld).state

/-! ## The two kinds of moves -/

section Kinds

variable [DecidableEq P] {s : State P} {p : P} {eff : Effect P} {l' : Local P}

theorem sameSlot_commit {j : Nat} (heff : eff.target ≠ some j)
    (hocc : (s.commit p (eff, l')).occupant j = s.occupant j) :
    SameSlot s (s.commit p (eff, l')) j :=
  ⟨s.region.apply_slots_of_ne heff, hocc⟩

/-- A move that touches no slot keeps the invariant if the process does not
leave a slot that it wipes, takes no new one, and knows what it claims to
know. -/
theorem Inv.of_quiet (h : Inv s) (hlive : s.alive p = true)
    (heff : eff.target = none) (hclaim : claimOf s.region (s.procs p) = none)
    (htears : l'.pc.tears = (s.procs p).pc.tears)
    (hbusy : l'.pc.busy = (s.procs p).pc.busy)
    (hlocal : LocalOk s p l') : Inv (s.commit p (eff, l')) := by
  have hsame : ∀ j, SameSlot s (s.commit p (eff, l')) j := fun j =>
    sameSlot_commit (by simp [heff])
      (by rw [State.commit_occupant_of_none s p hclaim])
  have htears' : ∀ q, ((s.commit p (eff, l')).pc q).tears = (s.pc q).tears := by
    intro q
    by_cases hq : q = p
    · subst hq
      simpa using htears
    · rw [State.commit_pc_of_ne s p _ hq]
  have hbusy' : ∀ q, ((s.commit p (eff, l')).pc q).busy = (s.pc q).busy := by
    intro q
    by_cases hq : q = p
    · subst hq
      simpa using hbusy
    · rw [State.commit_pc_of_ne s p _ hq]
  refine ⟨fun q => ?_, fun j => ⟨fun hempty hfree => ?_, fun t ht => ?_⟩,
    fun q r i hq hr => ?_, fun q hq => ?_⟩
  · by_cases hq : q = p
    · subst hq
      rw [State.commit_self]
      exact hlocal.frame (fun j => .inl (hsame j)) fun _ ho => ho
    · rw [State.commit_of_ne s p _ hq]
      exact (h.locals q).frame (fun j => .inl (hsame j)) fun _ ho => ho
  · rw [(hsame j).1] at hempty ⊢
    exact (h.slots j).empty hempty fun q => htears' q ▸ hfree q
  · rw [(hsame j).1] at ht
    obtain ⟨o, e, hocc⟩ := (h.slots j).entry t ht
    exact ⟨o, e, hocc.congr (hsame j)⟩
  · rw [hbusy'] at hq hr
    exact h.busy_unique q r i hq hr
  · by_cases hqp : q = p
    · subst hqp
      simp [hlive] at hq
    · rw [State.commit_of_ne s p _ hqp]
      exact h.dead q hq

/-- A move on a slot that nobody else relies on keeps the invariant if the
slot ends in a good state and the process knows what it claims to know. -/
theorem Inv.of_work {i : Nat} (h : Inv s) (hlive : s.alive p = true)
    (heff : eff.target = some i) (hfree : FreeFor s p i)
    (hocc : ∀ j, j ≠ i → (s.commit p (eff, l')).occupant j = s.occupant j)
    (htears : ∀ j, j ≠ i → (s.pc p).tears ≠ some j)
    (hbusy : ∀ j, j ≠ i → l'.pc.busy ≠ some j)
    (hmoved : Moved s (s.commit p (eff, l')) i)
    (hok : SlotOk (s.commit p (eff, l')) i)
    (hlocal : LocalOk (s.commit p (eff, l')) p l') :
    Inv (s.commit p (eff, l')) := by
  have hsame : ∀ j, j ≠ i → SameSlot s (s.commit p (eff, l')) j := fun j hj =>
    sameSlot_commit (by simpa [heff] using Ne.symm hj) (hocc j hj)
  refine ⟨fun q => ?_, fun j => ?_, fun q r j hq hr => ?_, fun q hq => ?_⟩
  · by_cases hq : q = p
    · subst hq
      rw [State.commit_self]
      exact hlocal
    · rw [State.commit_of_ne s p _ hq]
      refine (h.locals q).frame (fun j => ?_) fun _ ho => ho
      by_cases hj : j = i
      · subst hj
        exact .inr ⟨(hfree q hq).1, (hfree q hq).2, hmoved⟩
      · exact .inl (hsame j hj)
  · by_cases hj : j = i
    · subst hj
      exact hok
    · refine ⟨fun hempty htorn => ?_, fun t ht => ?_⟩
      · rw [(hsame j hj).1] at hempty ⊢
        refine (h.slots j).empty hempty fun q => ?_
        by_cases hq : q = p
        · subst hq
          exact htears j hj
        · have := htorn q
          rwa [State.commit_pc_of_ne s p _ hq] at this
      · rw [(hsame j hj).1] at ht
        obtain ⟨o, e, hoe⟩ := (h.slots j).entry t ht
        exact ⟨o, e, hoe.congr (hsame j hj)⟩
  · -- A slot that `p` is at work on now is `i`, and nobody else is there.
    have hp : ∀ q, q ≠ p → ((s.commit p (eff, l')).pc q).busy = (s.pc q).busy :=
      fun q hq => by rw [State.commit_pc_of_ne s p _ hq]
    have hself : ((s.commit p (eff, l')).pc p).busy = some j → j = i := by
      intro hj
      rw [State.commit_pc_self] at hj
      exact Classical.by_contradiction fun hne => hbusy j hne hj
    by_cases hqp : q = p <;> by_cases hrp : r = p
    · rw [hqp, hrp]
    · subst hqp
      obtain rfl := hself hq
      rw [hp r hrp] at hr
      exact absurd hr (hfree r hrp).1
    · subst hrp
      obtain rfl := hself hr
      rw [hp q hqp] at hq
      exact absurd hq (hfree q hqp).1
    · rw [hp q hqp] at hq
      rw [hp r hrp] at hr
      exact h.busy_unique q r j hq hr
  · by_cases hqp : q = p
    · subst hqp
      simp [hlive] at hq
    · rw [State.commit_of_ne s p _ hqp]
      exact h.dead q hq

/-- What the work on slot `i` leaves in place: the slots that the process
holds. -/
theorem LocalOk.held_commit {i : Nat} {l : Local P} (h : LocalOk s p l)
    (heff : eff.target = some i) (hi : i ∉ l.held.map Prod.fst)
    (hocc : ∀ j, j ≠ i → (s.commit p (eff, l')).occupant j = s.occupant j) :
    ∀ j e, (j, e) ∈ l.held → Occupied (s.commit p (eff, l')) j p e :=
  h.held_frame hi fun j hj =>
    sameSlot_commit (by simpa [heff] using Ne.symm hj) (hocc j hj)

end Kinds

/-! ## Filling a slot -/

section Filling

variable [DecidableEq P] {s : State P} {p : P}

theorem Inv.claim (h : Inv s) (hlive : s.alive p = true)
    {e : RegistryEntry P} {i : Nat} {again : Bool}
    (hpc : (s.procs p).pc = .addCas e i again) (hempty : (s.slot i).state = .empty)
    (hfree : ∀ q, (s.pc q).tears ≠ some i) :
    Inv (s.commit p
      (.setState i .reserved, (s.procs p).goto (.writeBegin e i))) := by
  have hclaim : claimOf s.region (s.procs p) = some (i, e) := by
    simp only [claimOf, hpc]
    exact if_pos hempty
  have hnot : ∀ t, (s.slot i).state ≠ .entry t := by simp [hempty]
  have hocc : ∀ j, j ≠ i → (s.commit p
      (.setState i .reserved, (s.procs p).goto (.writeBegin e i))).occupant j =
        s.occupant j := by
    intro j hj
    simp [State.commit, hclaim, hj]
  refine h.of_work hlive rfl (h.free_of_empty hempty hfree) hocc
    (by simp [hpc, Pc.tears]) ?_ ?_ ?_ ?_
  · rintro j hj ⟨⟩
    exact hj rfl
  · exact ⟨by simp, fun _ => .inl (by simp)⟩
  · exact ⟨by simp, by simp⟩
  · refine .of_claims rfl ⟨?_, ?_, ?_, ?_, ?_⟩
      ((h.locals p).held_commit rfl ((h.locals p).not_held hnot) hocc)
      (h.locals p).held_nodup
    · simp
    · simp [State.commit, hclaim]
    · exact (h.locals p).pending e (by rw [hpc]; rfl)
    · simpa [Pc.parity] using (h.slots i).empty hempty hfree
    · exact Words.agreeOff_start mem_fieldOrder _ _

/-- A write into a claimed slot. -/
theorem Inv.fill (h : Inv s) (hlive : s.alive p = true)
    {e : RegistryEntry P} {i : Nat} {eff : Effect P} {pc' : Pc P}
    (hpc : (s.procs p).pc.claims = some (i, e)) (hpc' : pc'.claims = some (i, e))
    (heff : eff.target = some i)
    (hmoved : Moved s (s.commit p (eff, (s.procs p).goto pc')) i)
    (hstate : ((s.region.apply eff).slots i).state = (s.slot i).state)
    (hparity : ((s.region.apply eff).slots i).seq % 2 = pc'.parity)
    (hcopied : Words.AgreeOff pc'.claimRest e.payload
      ((s.region.apply eff).slots i).payload) :
    Inv (s.commit p (eff, (s.procs p).goto pc')) := by
  have hclaimed := (h.locals p).claim i e hpc
  have hbusy := Pc.busy_of_claims hpc
  have hnot := (h.locals p).state_of_busy hbusy
  have hclaim : claimOf s.region (s.procs p) = none :=
    claimOf_eq_none fun e' i' again hadd => by
      rw [hadd] at hpc
      cases hpc
  have hocc := State.commit_occupant_of_none s p
    (r := (eff, (s.procs p).goto pc')) hclaim
  have hreserved : ((s.region.apply eff).slots i).state = .reserved :=
    hstate.trans hclaimed.state
  refine h.of_work hlive heff (h.free_of_busy hbusy) (fun j _ => by rw [hocc])
    (fun j hj => ?_) (fun j hj => ?_) hmoved ?_ ?_
  · intro htears
    rw [Pc.busy_of_tears htears] at hbusy
    exact hj (by simpa using hbusy)
  · intro hbusy'
    rw [Local.goto, Pc.busy_of_claims hpc'] at hbusy'
    exact hj (by simpa using hbusy'.symm)
  · exact ⟨by simp [hreserved], by simp [hreserved]⟩
  · refine .of_claims hpc' ⟨hreserved, ?_, hclaimed.pid, hparity, hcopied⟩
      ((h.locals p).held_commit heff ((h.locals p).not_held hnot)
        fun j _ => by rw [hocc])
      (h.locals p).held_nodup
    rw [hocc]
    exact hclaimed.occupant

theorem Inv.publish (h : Inv s) (hlive : s.alive p = true)
    {e : RegistryEntry P} {i : Nat} (hpc : (s.procs p).pc = .publish e i) :
    Inv (s.commit p
      (.setState i (.entry e.type), (s.procs p).goto (.hwLoad e i))) := by
  have hclaims : (s.procs p).pc.claims = some (i, e) := by rw [hpc]; rfl
  have hclaimed := (h.locals p).claim i e hclaims
  rw [hpc] at hclaimed
  have hbusy := Pc.busy_of_claims hclaims
  have hnot := (h.locals p).state_of_busy hbusy
  have hocc := State.commit_occupant_of_none s p
    (r := (.setState i (.entry e.type), (s.procs p).goto (.hwLoad e i)))
    (claimOf_eq_none (by simp [hpc]))
  have hoccupied : Occupied (s.commit p
      (.setState i (.entry e.type), (s.procs p).goto (.hwLoad e i))) i p e :=
    { state := by simp
      occupant := by rw [hocc]; exact hclaimed.occupant
      payload := by simpa using hclaimed.copied.eq.symm
      pid := hclaimed.pid
      even := by simpa [Pc.parity] using hclaimed.parity }
  refine h.of_work hlive rfl (h.free_of_busy hbusy) (fun j _ => by rw [hocc])
    (by simp [hpc, Pc.tears]) nofun ⟨by simp, by simp⟩
    ⟨by simp, fun t _ => ⟨p, e, hoccupied⟩⟩ ?_
  exact .of_settled rfl hoccupied ((h.locals p).not_held hnot)
    ((h.locals p).held_commit rfl ((h.locals p).not_held hnot)
      fun j _ => by rw [hocc])
    (h.locals p).held_nodup

end Filling

/-! ## Emptying a slot -/

section Emptying

variable [DecidableEq P] {s : State P} {p : P}

/-- A compare-and-swap to `ENTRY_EMPTY` by the owner, or on the slot of a dead
process. -/
theorem Inv.take (h : Inv s) (hlive : s.alive p = true)
    {o : P} {e : RegistryEntry P} {i : Nat} {c : TearCaller P}
    (hocc : Occupied s i o e) (ho : o = p ∨ s.alive o = false)
    (hnot : i ∉ (s.procs p).held.map Prod.fst)
    (htears : (s.procs p).pc.tears = none)
    (hnoadd : ∀ e i again, (s.procs p).pc ≠ .addCas e i again)
    (hpending : ∀ e, c.entry = some e → e.payload .pid = some p) :
    Inv (s.commit p (.setState i .empty, (s.procs p).goto (.tearBegin c i))) := by
  have hsame := State.commit_occupant_of_none s p
    (r := (.setState i .empty, (s.procs p).goto (.tearBegin c i)))
    (claimOf_eq_none hnoadd)
  refine h.of_work hlive rfl (h.free_of_occupied hocc ho)
    (fun j _ => by rw [hsame]) (by simp [htears]) ?_ ⟨by simp, by simp⟩
    ⟨fun _ _ => by simpa using hocc.even, by simp⟩ ?_
  · rintro j hj ⟨⟩
    exact hj rfl
  · exact .of_tears rfl ⟨by simp, by simpa [Pc.parity] using hocc.even⟩ hpending
      ((h.locals p).held_commit rfl hnot fun j _ => by rw [hsame])
      (h.locals p).held_nodup

/-- A write into a slot that is being wiped. -/
theorem Inv.wipe (h : Inv s) (hlive : s.alive p = true) {i : Nat}
    {eff : Effect P} {pc' : Pc P} (hpc : (s.procs p).pc.tears = some i)
    (hpc' : pc'.tears = some i) (heff : eff.target = some i)
    (hpending : pc'.pending = (s.procs p).pc.pending)
    (hmoved : Moved s (s.commit p (eff, (s.procs p).goto pc')) i)
    (hstate : ((s.region.apply eff).slots i).state = (s.slot i).state)
    (hparity : ((s.region.apply eff).slots i).seq % 2 = pc'.parity) :
    Inv (s.commit p (eff, (s.procs p).goto pc')) := by
  have htear := (h.locals p).tear i hpc
  have hbusy := Pc.busy_of_tears hpc
  have hnot := (h.locals p).not_held ((h.locals p).state_of_busy hbusy)
  have hocc := State.commit_occupant_of_none s p
    (r := (eff, (s.procs p).goto pc'))
    (claimOf_eq_none fun e' i' again hadd => by
      rw [hadd] at hpc
      cases hpc)
  have hempty : ((s.region.apply eff).slots i).state = .empty :=
    hstate.trans htear.1
  have hself : ((s.commit p (eff, (s.procs p).goto pc')).pc p).tears = some i := by
    simpa using hpc'
  refine h.of_work hlive heff (h.free_of_busy hbusy) (fun j _ => by rw [hocc])
    (fun j hj => ?_) (fun j hj => ?_) hmoved
    ⟨fun _ hfree => absurd hself (hfree p), by simp [hempty]⟩ ?_
  · simpa [hpc] using Ne.symm hj
  · simpa [Pc.busy_of_tears hpc'] using Ne.symm hj
  · exact .of_tears hpc' ⟨hempty, hparity⟩
      (fun e he => (h.locals p).pending e (hpending ▸ he))
      ((h.locals p).held_commit heff hnot fun j _ => by rw [hocc])
      (h.locals p).held_nodup

theorem Inv.wipeEnd (h : Inv s) (hlive : s.alive p = true) {i : Nat}
    {c : TearCaller P} {path : List UInt8}
    (hpc : (s.procs p).pc = .tearing c i path []) :
    Inv (s.commit p (.incSeq i, (s.procs p).goto (.tearUnlink c i path))) := by
  have htears : (s.procs p).pc.tears = some i := by rw [hpc]; rfl
  have htear := (h.locals p).tear i htears
  rw [hpc] at htear
  have hbusy := Pc.busy_of_tears htears
  have hnot := (h.locals p).not_held ((h.locals p).state_of_busy hbusy)
  have hocc := State.commit_occupant_of_none s p
    (r := (.incSeq i, (s.procs p).goto (.tearUnlink c i path)))
    (claimOf_eq_none (by simp [hpc]))
  have heven : ((s.slot i).seq + 1) % 2 = 0 := by
    have := htear.2
    simp only [Pc.parity] at this
    omega
  refine h.of_work hlive rfl (h.free_of_busy hbusy) (fun j _ => by rw [hocc])
    (fun j hj => by simpa [htears] using Ne.symm hj) nofun
    ⟨by simp, by simp⟩ ⟨fun _ _ => by simpa using heven, by simp [htear.1]⟩ ?_
  exact .of_plain rfl (fun e he => (h.locals p).pending e (by rw [hpc]; exact he))
    ((h.locals p).held_commit rfl hnot fun j _ => by rw [hocc])
    (h.locals p).held_nodup

end Emptying

/-! ## Moves between the slots -/

section Between

variable [DecidableEq P] {s : State P} {p : P} {eff : Effect P}

theorem Inv.rest (h : Inv s) (hlive : s.alive p = true) {l' : Local P}
    {max : Nat} {more : List RegistryQueryResult} (hquiet : eff.quiet = true)
    (hclaim : claimOf s.region (s.procs p) = none)
    (hbusy : (s.procs p).pc.busy = none)
    (hrests : (s.procs p).Rests max more l') : Inv (s.commit p (eff, l')) := by
  refine h.of_quiet hlive (Effect.target_of_quiet hquiet) hclaim
    ((Pc.tears_of_plain hrests.plain).trans (Pc.tears_of_busy hbusy).symm)
    ((Pc.busy_of_plain hrests.plain).trans hbusy.symm)
    (.of_plain hrests.plain
      (fun e he => (h.locals p).pending e (hrests.pending e he)) ?_ ?_)
  · rw [hrests.held]
    exact (h.locals p).held
  · rw [hrests.held]
    exact (h.locals p).held_nodup

/-- A step of `registry_add` after the publication. -/
theorem Inv.settle (h : Inv s) (hlive : s.alive p = true) {pc' : Pc P}
    {i : Nat} {e : RegistryEntry P} (heff : eff.target = none)
    (hpc : (s.procs p).pc.settled = some (i, e))
    (hpc' : pc'.settled = some (i, e)) :
    Inv (s.commit p (eff, (s.procs p).goto pc')) := by
  have hbusy : ∀ pc : Pc P, pc.settled = some (i, e) →
      pc.busy = none ∧ pc.tears = none := by
    intro pc hs
    cases pc <;> first | exact ⟨rfl, rfl⟩ | cases hs
  refine h.of_quiet hlive heff ?_
    ((hbusy _ hpc').2.trans (hbusy _ hpc).2.symm)
    ((hbusy _ hpc').1.trans (hbusy _ hpc).1.symm)
    (.of_settled hpc' ((h.locals p).settled i e hpc)
      ((h.locals p).settled_fresh hpc) (h.locals p).held
      (h.locals p).held_nodup)
  refine claimOf_eq_none fun e' i' again hadd => ?_
  rw [hadd] at hpc
  cases hpc

theorem Inv.returnIndex (h : Inv s) (hlive : s.alive p = true) {i : Nat}
    {e : RegistryEntry P} (hpc : (s.procs p).pc = .addRing e i) :
    Inv (s.commit p (.none, (s.procs p).returnIndex e i)) := by
  have hsettled : (s.procs p).pc.settled = some (i, e) := by rw [hpc]; rfl
  refine h.of_quiet hlive rfl (claimOf_eq_none (by simp [hpc]))
    (by rw [hpc]; rfl) (by rw [hpc]; rfl) (.of_plain rfl nofun ?_ ?_)
  · intro j e' hheld
    rcases List.mem_cons.mp hheld with heq | hheld
    · cases heq
      exact (h.locals p).settled i e hsettled
    · exact (h.locals p).held j e' hheld
  · exact List.nodup_cons.mpr
      ⟨(h.locals p).settled_fresh hsettled, (h.locals p).held_nodup⟩

/-- A step of a seqlock read, or of the checks of a sweep on its snapshot. -/
theorem Inv.observe (h : Inv s) (hlive : s.alive p = true) {pc' : Pc P}
    {i n : Nat} {buf : Payload P} {rest : List Field}
    (hbusy : (s.procs p).pc.busy = none)
    (hnoadd : ∀ e i again, (s.procs p).pc ≠ .addCas e i again)
    (hpc' : pc'.observes = some (i, n, buf, rest))
    (hobs : Observes s i n buf rest)
    (hpending : pc'.pending = (s.procs p).pc.pending)
    (hvetted : ∀ snap, pc'.vetted = some snap →
      ∃ o, snap.payload .pid = some o ∧ s.alive o = false) :
    Inv (s.commit p (.none, (s.procs p).goto pc')) := by
  have hfree : pc'.busy = none ∧ pc'.tears = none := by
    cases pc' <;> first | exact ⟨rfl, rfl⟩ | cases hpc'
  refine h.of_quiet hlive rfl (claimOf_eq_none hnoadd)
    (hfree.2.trans (Pc.tears_of_busy hbusy).symm) (hfree.1.trans hbusy.symm)
    (.of_observes hpc' hobs
      (fun e he => (h.locals p).pending e (hpending ▸ he)) hvetted
      (h.locals p).held (h.locals p).held_nodup)

end Between

/-! ## The induction step -/

/-- The counter is that of the snapshot, so the slot still has the payload
that the sweep vetted, and its occupant is dead. -/
theorem Inv.of_sweepTakes {s : State P} (h : Inv s) {p : P} {i : Nat}
    {snap : Snapshot P}
    (htakes : (i, snap) ∈ sweepTakes s.region (s.procs p))
    (hfresh : (s.slot i).seq = snap.seq) : ∃ o e, Occupied s i o e ∧
      s.alive o = false ∧ snap.payload .pid = some o ∧ snap.type = e.type ∧
        snap.payload = e.payload := by
  unfold sweepTakes at htakes
  split at htakes
  · rename_i w j snap' hpc
    obtain ⟨hstate, heq⟩ := Option.ite_none_right_eq_some.mp htakes
    cases heq
    have hlocal := h.locals p
    obtain ⟨o, hpid, hdead⟩ := hlocal.vetted snap (by rw [hpc]; rfl)
    have hobs := hlocal.observe i snap.seq snap.payload [] (by rw [hpc]; rfl)
    have hpay := (hobs.copied hfresh).eq
    obtain ⟨o', e, hocc⟩ := (h.slots i).entry _ hstate
    have hsnap : snap.payload = e.payload := hpay.symm.trans hocc.payload
    have ho : o' = o := by
      have howner := hocc.pid
      rw [← hsnap, hpid] at howner
      exact (Option.some.inj howner).symm
    subst ho
    have htype := hocc.state
    rw [hstate] at htype
    exact ⟨o', e, hocc, hdead, hpid, SlotState.entry.inj htype, hsnap⟩
  · cases htakes

section Step

variable [DecidableEq P] {s t : State P} {p : P}

/-- Every move keeps the invariant, if it claims no slot that is being wiped
and sweeps no slot that has changed since it was vetted. -/
theorem Inv.move (h : Inv s) (hlive : s.alive p = true) {eff : Effect P}
    {l' : Local P} (hmove : Move s.alive s.region (s.procs p) eff l')
    (hclaim : ∀ c ∈ claimOf s.region (s.procs p), ∀ q, (s.pc q).tears ≠ some c.1)
    (hsweep : ∀ x ∈ sweepTakes s.region (s.procs p),
      (s.slot x.1).seq = x.2.seq) :
    Inv (s.commit p (eff, l')) := by
  have hlocal := h.locals p
  cases hmove with
  | rest quiet noclaim busy settled rests =>
    exact h.rest hlive quiet noclaim busy rests
  | collect q i retry snap l' at_pc same rests =>
    exact h.rest hlive rfl (claimOf_eq_none (by simp [at_pc]))
      (by rw [at_pc]; rfl) rests
  | claim e i again at_pc empty =>
    refine h.claim hlive at_pc empty (hclaim (i, e) ?_)
    simp only [claimOf, at_pc]
    exact if_pos empty
  | writeBegin e i at_pc =>
    have hclaims : (s.procs p).pc.claims = some (i, e) := by rw [at_pc]; rfl
    have hc := hlocal.claim i e hclaims
    rw [at_pc] at hc
    refine h.fill hlive hclaims rfl rfl ⟨by simp, by simp⟩ (by simp) ?_ ?_
    · have := hc.parity
      simp only [State.slot, Pc.parity, Region.apply_incSeq_slots] at this ⊢
      omega
    · simpa [Pc.claimRest] using hc.copied
  | writeField e i f rest at_pc =>
    have hclaims : (s.procs p).pc.claims = some (i, e) := by rw [at_pc]; rfl
    have hc := hlocal.claim i e hclaims
    rw [at_pc] at hc
    refine h.fill hlive hclaims rfl rfl
      ⟨by simp, fun _ => .inr hc.parity⟩ (by simp) ?_ ?_
    · simpa [Pc.parity] using hc.parity
    · simpa [Pc.claimRest] using hc.copied.store_right
  | writeEnd e i at_pc =>
    have hclaims : (s.procs p).pc.claims = some (i, e) := by rw [at_pc]; rfl
    have hc := hlocal.claim i e hclaims
    rw [at_pc] at hc
    refine h.fill hlive hclaims rfl rfl ⟨by simp, by simp⟩ (by simp) ?_ ?_
    · have := hc.parity
      simp only [State.slot, Pc.parity, Region.apply_incSeq_slots] at this ⊢
      omega
    · simpa [Pc.claimRest] using hc.copied
  | publish e i at_pc => exact h.publish hlive at_pc
  | widen e i cur at_pc cur_eq =>
    exact h.settle hlive rfl (by rw [at_pc]; rfl) rfl
  | retryWiden e i at_pc below => exact h.settle hlive rfl at_pc rfl
  | wide e i at_pc above => exact h.settle hlive rfl at_pc rfl
  | bump e i at_pc => exact h.settle hlive rfl (by rw [at_pc]; rfl) rfl
  | returnIndex e i at_pc => exact h.returnIndex hlive at_pc
  | removeLoad i at_pc filled =>
    have hrem : (s.procs p).pc.removing = some i := by rw [at_pc]; rfl
    obtain ⟨e, he⟩ := hlocal.removing i hrem
    exact h.of_quiet hlive rfl (claimOf_eq_none (by simp [at_pc]))
      (by rw [at_pc]; rfl) (by rw [at_pc]; rfl)
      (.of_removing rfl he (hlocal.removing_fresh hrem) hlocal.held
        hlocal.held_nodup)
  | removeTake i st at_pc same =>
    have hrem : (s.procs p).pc.removing = some i := by rw [at_pc]; rfl
    obtain ⟨e, he⟩ := hlocal.removing i hrem
    exact h.take hlive he (.inl rfl) (hlocal.removing_fresh hrem)
      (by rw [at_pc]; rfl) (by simp [at_pc]) fun e he => by cases he
  | tearBegin c i at_pc =>
    have htears : (s.procs p).pc.tears = some i := by rw [at_pc]; rfl
    have ht := (hlocal.tear i htears).2
    rw [at_pc] at ht
    refine h.wipe hlive htears rfl rfl (by rw [at_pc]; rfl) ⟨by simp, by simp⟩
      (by simp) ?_
    simp only [State.slot, Pc.parity, Region.apply_incSeq_slots] at ht ⊢
    omega
  | tearPath c i at_pc =>
    have htears : (s.procs p).pc.tears = some i := by rw [at_pc]; rfl
    have ht := hlocal.tear i htears
    rw [at_pc] at ht
    exact h.of_quiet hlive rfl (claimOf_eq_none (by simp [at_pc]))
      (by rw [at_pc]; rfl) (by rw [at_pc]; rfl)
      (.of_tears rfl ht
        (fun e he => hlocal.pending e (by rw [at_pc]; exact he)) hlocal.held
        hlocal.held_nodup)
  | tearField c i path f rest at_pc =>
    have htears : (s.procs p).pc.tears = some i := by rw [at_pc]; rfl
    have ht := (hlocal.tear i htears).2
    rw [at_pc] at ht
    exact h.wipe hlive htears rfl rfl (by rw [at_pc]; rfl)
      ⟨by simp, fun _ => .inr ht⟩ (by simp) (by simpa [Pc.parity] using ht)
  | tearEnd c i path at_pc => exact h.wipeEnd hlive at_pc
  | snapSeq c i retry at_pc even =>
    refine h.observe hlive (by rw [at_pc]; rfl) (by simp [at_pc]) rfl
      ⟨?_, le_rfl, fun _ => Words.agreeOff_start mem_fieldOrder _ _⟩
      (by rw [at_pc]; rfl) fun snap hsnap => by cases hsnap
    simp only [RegistryEntrySlot.seqWord] at even
    omega
  | snapState c i retry s1 type at_pc state =>
    exact h.observe hlive (by rw [at_pc]; rfl) (by simp [at_pc]) rfl
      (hlocal.observe _ _ _ _ (by rw [at_pc]; rfl)) (by rw [at_pc]; rfl) fun snap hsnap => by cases hsnap
  | snapCopy c i retry snap f rest at_pc =>
    have hobs := hlocal.observe i snap.seq snap.payload (f :: rest)
      (by rw [at_pc]; rfl)
    exact h.observe hlive (by rw [at_pc]; rfl) (by simp [at_pc]) rfl
      ⟨hobs.even, hobs.le, fun hseq => (hobs.copied hseq).store_right⟩
      (by rw [at_pc]; rfl) fun snap hsnap => by cases hsnap
  | snapDone w i retry snap at_pc same =>
    exact h.observe hlive (by rw [at_pc]; rfl) (by simp [at_pc]) rfl
      (hlocal.observe _ _ _ _ (by rw [at_pc]; rfl)) (by rw [at_pc]; rfl) fun snap hsnap => by cases hsnap
  | vet w i snap o at_pc pid dead =>
    refine h.observe hlive (by rw [at_pc]; rfl) (by simp [at_pc]) rfl
      (hlocal.observe _ _ _ _ (by rw [at_pc]; rfl)) (by rw [at_pc]; rfl) ?_
    rintro _ ⟨⟩
    exact ⟨o, pid, dead⟩
  | recheck w i snap at_pc same =>
    refine h.observe hlive (by rw [at_pc]; rfl) (by simp [at_pc]) rfl
      (hlocal.observe _ _ _ _ (by rw [at_pc]; rfl)) (by rw [at_pc]; rfl) ?_
    rintro _ ⟨⟩
    exact hlocal.vetted snap (by rw [at_pc]; rfl)
  | sweepTake w i snap at_pc same =>
    have htakes : (i, snap) ∈ sweepTakes s.region (s.procs p) := by
      simp only [sweepTakes, at_pc]
      exact if_pos same
    obtain ⟨o, e, hocc, hdead, -⟩ := h.of_sweepTakes htakes (hsweep _ htakes)
    refine h.take hlive hocc (.inr hdead) (fun hheld => ?_) (by rw [at_pc]; rfl)
      (by simp [at_pc])
      (fun e he => hlocal.pending e (by rw [at_pc]; exact he))
    obtain ⟨⟨j, e'⟩, hmem, rfl⟩ := List.mem_map.mp hheld
    have hown := (hlocal.held j e' hmem).occupant
    rw [hocc.occupant] at hown
    simp only [Option.some.injEq, Prod.mk.injEq] at hown
    rw [hown.1, hlive] at hdead
    cases hdead

/-- A call changes the local state of its process only. -/
theorem Inv.of_setLocal (h : Inv s) (hlive : s.alive p = true) {l' : Local P}
    (htears : l'.pc.tears = (s.procs p).pc.tears)
    (hbusy : l'.pc.busy = (s.procs p).pc.busy) (hlocal : LocalOk s p l') :
    Inv (s.setLocal p l') := by
  have hpc : ∀ q (f : Pc P → Option Nat), f l'.pc = f (s.procs p).pc →
      f ((s.setLocal p l').pc q) = f (s.pc q) := by
    intro q f hf
    by_cases hq : q = p
    · subst hq
      simpa [State.pc] using hf
    · rw [State.pc, State.setLocal_of_ne s p _ hq]
  refine ⟨fun q => ?_, fun j => ⟨fun hempty hfree => ?_, fun t ht => ?_⟩,
    fun q r i hq hr => ?_, fun q hq => ?_⟩
  · by_cases hq : q = p
    · subst hq
      rw [State.setLocal_self]
      exact hlocal.frame (fun _ => .inl ⟨rfl, rfl⟩) fun _ ho => ho
    · rw [State.setLocal_of_ne s p _ hq]
      exact (h.locals q).frame (fun _ => .inl ⟨rfl, rfl⟩) fun _ ho => ho
  · exact (h.slots j).empty hempty fun q => hpc q Pc.tears htears ▸ hfree q
  · obtain ⟨o, e, hocc⟩ := (h.slots j).entry t ht
    exact ⟨o, e, hocc.congr ⟨rfl, rfl⟩⟩
  · rw [hpc _ Pc.busy hbusy] at hq hr
    exact h.busy_unique q r i hq hr
  · by_cases hqp : q = p
    · subst hqp
      exact absurd (hlive.symm.trans hq) (by simp)
    · rw [State.setLocal_of_ne s p _ hqp]
      exact h.dead q hq

/-- The indices that are left when one is taken back. -/
private theorem map_fst_eraseP {β : Type} (held : List (Nat × β)) (i : Nat) :
    (held.eraseP fun h => h.1 = i).map Prod.fst = (held.map Prod.fst).erase i := by
  rw [List.erase_eq_eraseP', List.eraseP_map]
  congr 2

theorem Inv.call (h : Inv s) (hlive : s.alive p = true)
    (hidle : s.pc p = .idle) {c : Call P} {l' : Local P}
    (henter : enter s.region p (s.procs p) c = some l') :
    Inv (s.setLocal p l') := by
  have hlocal := h.locals p
  have hfree : (s.procs p).pc.tears = none ∧ (s.procs p).pc.busy = none := by
    rw [State.pc] at hidle
    rw [hidle]
    exact ⟨rfl, rfl⟩
  rcases enter_cases henter with hstarts | ⟨i, e, -, hmem, rfl⟩
  · refine h.of_setLocal hlive
      ((Pc.tears_of_plain hstarts.plain).trans hfree.1.symm)
      ((Pc.busy_of_plain hstarts.plain).trans hfree.2.symm)
      (.of_plain hstarts.plain (fun e he => (hstarts.pending e he).2) ?_ ?_)
    · rw [hstarts.held]
      exact hlocal.held
    · rw [hstarts.held]
      exact hlocal.held_nodup
  · refine h.of_setLocal hlive hfree.1.symm hfree.2.symm
      (.of_removing rfl (hlocal.held i e hmem) ?_ ?_ ?_)
    · rw [map_fst_eraseP]
      exact hlocal.held_nodup.not_mem_erase
    · exact fun i' e' hi' => hlocal.held i' e' (List.mem_of_mem_eraseP hi')
    · exact hlocal.held_nodup.sublist (List.eraseP_sublist.map _)

theorem Inv.kill (h : Inv s) (hwhole : WholeTeardown s (.kill p)) :
    Inv (s.slay p) := by
  have halive : ∀ o, s.alive o = false → (s.slay p).alive o = false := by
    intro o ho
    by_cases hop : o = p
    · simp [State.slay, hop]
    · simpa [State.slay, hop] using ho
  have hbusy : ∀ q i, ((s.slay p).pc q).busy = some i →
      q ≠ p ∧ (s.pc q).busy = some i := by
    intro q i hq
    by_cases hqp : q = p
    · subst hqp
      rw [State.pc, State.slay_self] at hq
      cases hq
    · rw [State.pc, State.slay_of_ne s p hqp] at hq
      exact ⟨hqp, hq⟩
  refine ⟨fun q => ?_, fun j => ⟨fun hempty hfree => ?_, fun t ht => ?_⟩,
    fun q r i hq hr => ?_, fun q hq => ?_⟩
  · by_cases hq : q = p
    · subst hq
      rw [State.slay_self]
      refine .of_plain rfl (fun e he => ?_) (fun i e he => ?_) List.nodup_nil
      · cases he
      · cases he
    · rw [State.slay_of_ne s p hq]
      exact (h.locals q).frame (fun _ => .inl ⟨rfl, rfl⟩) halive
  · by_cases htears : (s.pc p).tears = some j
    · -- The dead process had not opened its seqlock section.
      have htear := ((h.locals p).tear j htears).2
      rcases hwhole with hnone | heven
      · rw [hnone] at htears
        cases htears
      · exact htear.trans heven
    · refine (h.slots j).empty hempty fun q => ?_
      by_cases hq : q = p
      · subst hq
        exact htears
      · have := hfree q
        rwa [State.pc, State.slay_of_ne s p hq] at this
  · obtain ⟨o, e, hocc⟩ := (h.slots j).entry t ht
    exact ⟨o, e, hocc.congr ⟨rfl, rfl⟩⟩
  · exact h.busy_unique q r i (hbusy q i hq).2 (hbusy r i hr).2
  · by_cases hqp : q = p
    · subst hqp
      exact s.slay_self q
    · rw [State.slay_of_ne s p hqp]
      exact h.dead q (by simpa [State.slay, hqp] using hq)

/-- Every step that meets the three conditions keeps the invariant. -/
theorem Inv.step {a : Act P} (h : Inv s) (hclaim : ClaimFree s a)
    (hsweep : SweepFresh s a) (hwhole : WholeTeardown s a)
    (hstep : step s a = some t) : Inv t := by
  cases a with
  | call p c =>
    obtain ⟨hlive, hidle, l, henter, rfl⟩ := of_step_call hstep
    exact h.call hlive hidle henter
  | step p spurious =>
    obtain ⟨hlive, eff, l, hexec, rfl⟩ := of_step_step hstep
    exact h.move hlive (exec_move hexec) hclaim hsweep
  | kill p =>
    obtain ⟨-, rfl⟩ := of_step_kill hstep
    exact h.kill hwhole

end Step

/-! ## A seqlock writer moves every slot the way a seqlock allows -/

section Writers

variable [DecidableEq P] {s t : State P} {p : P}

theorem Inv.moved (h : Inv s) {eff : Effect P} {l' : Local P}
    (hmove : Move s.alive s.region (s.procs p) eff l') (i : Nat) :
    Moved s (s.commit p (eff, l')) i := by
  refine ⟨s.region.seq_le_apply eff i, fun _ => ?_⟩
  rcases s.region.apply_payload eff i with hsame | ⟨f, v, rfl⟩
  · exact .inl hsame
  · right
    cases hmove with
    | rest quiet _ _ _ _ => cases quiet
    | writeField e i f rest at_pc =>
      have hc := ((h.locals p).claim i e (by rw [at_pc]; rfl)).parity
      rwa [at_pc] at hc
    | tearField c i path f rest at_pc =>
      have ht := ((h.locals p).tear i (by rw [at_pc]; rfl)).2
      rwa [at_pc] at ht

theorem Inv.moved_step (h : Inv s) {a : Act P}
    (hstep : Registry.step s a = some t) (i : Nat) : Moved s t i := by
  cases a with
  | call p c =>
    obtain ⟨-, -, l, -, rfl⟩ := of_step_call hstep
    exact ⟨le_rfl, fun _ => .inl rfl⟩
  | step p spurious =>
    obtain ⟨-, eff, l, hexec, rfl⟩ := of_step_step hstep
    exact h.moved (exec_move hexec) i
  | kill p =>
    obtain ⟨-, rfl⟩ := of_step_kill hstep
    exact ⟨le_rfl, fun _ => .inl rfl⟩

end Writers

end RmwUnixSocket.Registry
