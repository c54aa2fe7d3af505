import RmwUnixSocket.Latch.Replay

/-!
# What a publisher guarantees

`PubOk` is the invariant of one publisher: its ring is in order, the sequence
numbers of its records grow, and the header of the critical section has the
last number that was given out.  `nextSent` is the least sequence number that
may still go to the sockets.  `critStep_ok` is what one step of the critical
section does to the publisher and to the subscription.
-/

namespace RmwUnixSocket.Latch.Replay

variable {G T : Type} {slots : Nat} {g : G} {pub pub' : Publisher G T}

/-! ## The invariant -/

/-- The header of a sample that has not been sent yet. -/
def CritPc.unsent : CritPc G → Option (WireHeader G)
  | .assign | .unlock => none
  | .latch hdr | .latching hdr | .loadGen hdr _ | .refresh hdr _ _
  | .send hdr _ _ => some hdr

/-- The header that the critical section has yet to send. -/
def Publisher.unsent (pub : Publisher G T) : Option (WireHeader G) :=
  pub.crit.bind fun crit => crit.pc.unsent

/-- The least sequence number that has not been sent. -/
def Publisher.nextSent (pub : Publisher G T) : Nat :=
  match pub.unsent with
  | some hdr => hdr.sequenceNumber
  | none => pub.sequenceNumber

/-- The invariant of a publisher. -/
structure PubOk (slots : Nat) (g : G) (pub : Publisher G T) : Prop where
  writer : WriterOk slots pub.writer
  busy : pub.writer.pc.record ≠ none →
    ∃ crit hdr, pub.crit = some crit ∧ crit.pc = .latching hdr
  increasing : Keyed.Ascending SlotRecord.sequenceNumber pub.writer.marks
  marks : ∀ r ∈ pub.writer.marks, r.header.gid = g ∧
    0 < r.sequenceNumber ∧ r.sequenceNumber < pub.sequenceNumber
  latch : ∀ crit hdr, pub.crit = some crit → crit.pc = .latch hdr →
    ∀ r ∈ pub.writer.marks, r.sequenceNumber < hdr.sequenceNumber
  unsent : ∀ hdr, pub.unsent = some hdr → hdr.gid = g ∧
    hdr.sequenceNumber + 1 = pub.sequenceNumber ∧ hdr.msgType = 0
  pos : 0 < pub.nextSent

theorem PubOk.init [Inhabited G] (slots : Nat) (g : G) :
    PubOk slots g ((State.init G T).pubs g) where
  writer := .create
  busy h := absurd rfl h
  increasing := .nil
  marks := nofun
  latch := nofun
  unsent := nofun
  pos := Nat.one_pos

/-- What has been marked is at most what is to be sent next. -/
theorem PubOk.le_nextSent (h : PubOk slots g pub) {r : SlotRecord G}
    (hr : r ∈ pub.writer.marks) : r.sequenceNumber ≤ pub.nextSent := by
  have hlt := (h.marks r hr).2.2
  unfold Publisher.nextSent
  split
  · rename_i hdr hunsent
    have := (h.unsent hdr hunsent).2.1
    omega
  · omega

theorem PubOk.nextSent_le (h : PubOk slots g pub) :
    pub.nextSent ≤ pub.sequenceNumber := by
  unfold Publisher.nextSent
  split
  · rename_i hdr hunsent
    have := (h.unsent hdr hunsent).2.1
    omega
  · exact Nat.le_refl _

/-- A record has one index. -/
theorem PubOk.lt_of_lt (h : PubOk slots g pub) {n m : Nat}
    {r r' : SlotRecord G} (hr : pub.writer.Marked n r)
    (hr' : pub.writer.Marked m r') (hlt : n < m) :
    r.sequenceNumber < r'.sequenceNumber := by
  obtain ⟨hn, hget⟩ := hr
  obtain ⟨hm, hget'⟩ := hr'
  obtain ⟨hnlt, rfl⟩ := List.getElem?_eq_some_iff.mp hget
  obtain ⟨hmlt, rfl⟩ := List.getElem?_eq_some_iff.mp hget'
  exact List.pairwise_iff_getElem.mp h.increasing (n - 1) (m - 1) hnlt hmlt
    (by omega)

theorem PubOk.index_eq (h : PubOk slots g pub) {n m : Nat}
    {r r' : SlotRecord G} (hr : pub.writer.Marked n r)
    (hr' : pub.writer.Marked m r')
    (heq : r.sequenceNumber = r'.sequenceNumber) : n = m := by
  rcases Nat.lt_trichotomy n m with hlt | hnm | hgt
  · have := h.lt_of_lt hr hr' hlt
    omega
  · exact hnm
  · have := h.lt_of_lt hr' hr hgt
    omega

/-! ## The critical section -/

/-- A step that leaves the ring and the counter alone. -/
theorem PubOk.frame (h : PubOk slots g pub)
    (hwriter : pub'.writer = pub.writer)
    (hseq : pub'.sequenceNumber = pub.sequenceNumber)
    (hidle : pub.writer.pc.record = none)
    (hlatch : ∀ crit hdr, pub'.crit = some crit → crit.pc ≠ .latch hdr)
    (hunsent : pub'.unsent = pub.unsent ∨ pub'.unsent = none) :
    PubOk slots g pub' := by
  have hof : ∀ hdr, pub'.unsent = some hdr → pub.unsent = some hdr := by
    intro hdr hhdr
    rcases hunsent with heq | hnone
    · rw [← heq]
      exact hhdr
    · rw [hnone] at hhdr
      cases hhdr
  refine ⟨?_, ?_, ?_, ?_, ?_, ?_, ?_⟩
  · rw [hwriter]
    exact h.writer
  · rw [hwriter]
    exact fun hbusy => absurd hidle hbusy
  · rw [hwriter]
    exact h.increasing
  · rw [hwriter, hseq]
    exact h.marks
  · exact fun crit hdr hcrit hpc => absurd hpc (hlatch crit hdr hcrit)
  · rw [hseq]
    exact fun hdr hhdr => h.unsent hdr (hof hdr hhdr)
  · have hpos := h.pos
    have hle := h.nextSent_le
    unfold Publisher.nextSent at hpos hle ⊢
    rcases hunsent with heq | hnone
    · rw [heq, hseq]
      exact hpos
    · rw [hnone, hseq]
      simp only
      omega

/-- The record that the latch makes has the header's GID and sequence
number. -/
theorem slotRecord_header {hdr : WireHeader G} {payload : List UInt8}
    {staged : Option Nat} {r : SlotRecord G}
    (h : slotRecord hdr payload staged = some r) :
    r.header.gid = hdr.gid ∧
      r.header.sequenceNumber = hdr.sequenceNumber := by
  unfold slotRecord at h
  split at h
  · cases h
    exact ⟨rfl, rfl⟩
  · split at h
    · cases h
      exact ⟨rfl, rfl⟩
    · cases h

/-- A datagram has the header's GID, sequence number and type. -/
theorem datagram_header (call : Call) (hdr : WireHeader G) (latched : Bool) :
    (call.datagram hdr latched).header.gid = hdr.gid ∧
      (call.datagram hdr latched).header.sequenceNumber = hdr.sequenceNumber ∧
      (call.datagram hdr latched).header.msgType = hdr.msgType := by
  unfold Call.datagram
  split
  · split
    · exact ⟨rfl, rfl, rfl⟩
    · exact ⟨rfl, rfl, rfl⟩
  · exact ⟨rfl, rfl, rfl⟩

/-- The publisher at a later moment. -/
structure PubLater (slots : Nat) (pub pub' : Publisher G T) : Prop where
  writer : pub.writer.Later slots pub'.writer
  nextSent : pub.nextSent ≤ pub'.nextSent

theorem PubLater.refl (slots : Nat) (pub : Publisher G T) :
    PubLater slots pub pub where
  writer := .refl slots _
  nextSent := Nat.le_refl _

/-- The publisher with its critical section at `pc`. -/
def Publisher.goto (pub : Publisher G T) (crit : Crit G T) (pc : CritPc G) :
    Publisher G T :=
  { pub with crit := some { crit with pc := pc } }

variable {crit : Crit G T}

theorem unsent_eq (hcrit : pub.crit = some crit) :
    pub.unsent = crit.pc.unsent := by
  rw [Publisher.unsent, hcrit]
  rfl

theorem nextSent_of_unsent {hdr : WireHeader G}
    (h : pub.unsent = some hdr) : pub.nextSent = hdr.sequenceNumber := by
  unfold Publisher.nextSent
  rw [h]

theorem nextSent_of_none (h : pub.unsent = none) :
    pub.nextSent = pub.sequenceNumber := by
  unfold Publisher.nextSent
  rw [h]

/-- Outside the latch the writer is idle. -/
theorem PubOk.idle_of (h : PubOk slots g pub) (hcrit : pub.crit = some crit)
    (hpc : ∀ hdr, crit.pc ≠ .latching hdr) : pub.writer.pc.record = none := by
  by_contra hbusy
  obtain ⟨crit', hdr, hcrit', hpc'⟩ := h.busy hbusy
  rw [hcrit] at hcrit'
  cases hcrit'
  exact hpc hdr hpc'

/-- The critical section of an idle writer goes on with the same header. -/
theorem PubOk.goto (h : PubOk slots g pub) (hcrit : pub.crit = some crit)
    (hidle : pub.writer.pc.record = none) {crit' : Crit G T}
    (hwriter : pub'.writer = pub.writer)
    (hseq : pub'.sequenceNumber = pub.sequenceNumber)
    (hcrit' : pub'.crit = some crit') (hlatch : ∀ hdr, crit'.pc ≠ .latch hdr)
    (hunsent : crit'.pc.unsent = crit.pc.unsent) :
    PubOk slots g pub' ∧ PubLater slots pub pub' := by
  have heq : pub'.unsent = pub.unsent := by
    rw [unsent_eq hcrit', unsent_eq hcrit, hunsent]
  refine ⟨h.frame hwriter hseq hidle (fun c hdr hc => ?_) (.inl heq), ?_, ?_⟩
  · rw [hcrit'] at hc
    cases hc
    exact hlatch hdr
  · rw [hwriter]
    exact .refl _ _
  · unfold Publisher.nextSent
    rw [heq, hseq]

/-- The sequence number is assigned. -/
theorem PubOk.assign (h : PubOk slots g pub) (hcrit : pub.crit = some crit)
    (hpc : crit.pc = .assign) :
    PubOk slots g
        (Publisher.goto { pub with sequenceNumber := pub.sequenceNumber + 1 } crit
          (.latch (crit.call.header g pub.sequenceNumber))) ∧
      PubLater slots pub
        (Publisher.goto { pub with sequenceNumber := pub.sequenceNumber + 1 } crit
          (.latch (crit.call.header g pub.sequenceNumber))) := by
  have hidle := h.idle_of hcrit (by simp [hpc])
  have hnone : pub.unsent = none := by
    rw [unsent_eq hcrit, hpc]
    rfl
  have hnext := nextSent_of_none hnone
  refine ⟨⟨h.writer, fun hbusy => absurd hidle hbusy, h.increasing,
    fun r hr => ?_, fun crit' hdr hcrit' hlatch r hr => ?_, fun hdr hhdr => ?_,
    ?_⟩, .refl _ _, ?_⟩
  · obtain ⟨hgid, hpos, hlt⟩ := h.marks r hr
    exact ⟨hgid, hpos, Nat.lt_succ_of_lt hlt⟩
  · cases hcrit'
    cases hlatch
    exact (h.marks r hr).2.2
  · cases hhdr
    exact ⟨rfl, rfl, rfl⟩
  · have hpos := h.pos
    rw [hnext] at hpos
    exact hpos
  · rw [hnext]
    exact Nat.le_refl _

/-- The latch marks its slot. -/
theorem PubOk.mark (h : PubOk slots g pub) (hslots : 0 < slots)
    (hcrit : pub.crit = some crit) {hdr : WireHeader G}
    (hpc : crit.pc = .latch hdr) {r : SlotRecord G}
    (hr : r.header.gid = hdr.gid ∧
      r.header.sequenceNumber = hdr.sequenceNumber) {crit' : Crit G T} :
    PubOk slots g
        (Publisher.goto { pub with writer := pub.writer.markNext slots r } crit'
          (.latching hdr)) ∧
      PubLater slots pub
        (Publisher.goto { pub with writer := pub.writer.markNext slots r } crit'
          (.latching hdr)) := by
  have hidle := h.idle_of hcrit (by simp [hpc])
  have hunsent : pub.unsent = some hdr := by
    rw [unsent_eq hcrit, hpc]
    rfl
  have hnext := nextSent_of_unsent hunsent
  obtain ⟨hgid, hseq, hmsg⟩ := h.unsent hdr hunsent
  have hpos := h.pos
  rw [hnext] at hpos
  refine ⟨⟨h.writer.markNext hslots hidle r, fun _ => ⟨_, hdr, rfl, rfl⟩, ?_,
    fun r' hr' => ?_, fun crit'' hdr' hcrit'' hlatch => ?_,
    fun hdr' hhdr => ?_, hpos⟩, h.writer.markNext_later hslots hidle r, ?_⟩
  · refine List.pairwise_append.mpr ⟨h.increasing, List.pairwise_singleton _ _,
      fun a ha b hb => ?_⟩
    have hlt := h.latch crit hdr hcrit hpc a ha
    rw [List.mem_singleton.mp hb]
    unfold SlotRecord.sequenceNumber at hlt ⊢
    omega
  · rcases List.mem_append.mp hr' with hold | hnew
    · exact h.marks r' hold
    · rw [List.mem_singleton.mp hnew]
      unfold SlotRecord.sequenceNumber
      refine ⟨hr.1.trans hgid, ?_, ?_⟩
      · omega
      · change r.header.sequenceNumber < pub.sequenceNumber
        omega
  · cases hcrit''
    cases hlatch
  · cases hhdr
    exact ⟨hgid, hseq, hmsg⟩
  · rw [hnext]
    exact Nat.le_refl _

/-- A store of the latch. -/
theorem PubOk.store (h : PubOk slots g pub) (hslots : 0 < slots)
    (hcrit : pub.crit = some crit) {hdr : WireHeader G}
    (hpc : crit.pc = .latching hdr) {pc : CritPc G}
    (hunsent : pc.unsent = some hdr) (hlatch : ∀ hdr, pc ≠ .latch hdr)
    (hbusy : (pub.writer.store slots).pc.record ≠ none → pc = .latching hdr) :
    PubOk slots g
        (Publisher.goto { pub with writer := pub.writer.store slots } crit pc) ∧
      PubLater slots pub
        (Publisher.goto { pub with writer := pub.writer.store slots } crit pc) := by
  have hbefore : pub.unsent = some hdr := by
    rw [unsent_eq hcrit, hpc]
    rfl
  have hafter : (Publisher.goto { pub with writer := pub.writer.store slots }
      crit pc).unsent = some hdr := hunsent
  have hmarks : (pub.writer.store slots).marks = pub.writer.marks := by
    unfold Writer.store
    split <;> rfl
  have hpos := h.pos
  rw [nextSent_of_unsent hbefore] at hpos
  refine ⟨⟨h.writer.store hslots, fun hb => ⟨_, hdr, rfl, hbusy hb⟩, ?_, ?_,
    fun crit' hdr' hcrit' hl => ?_, fun hdr' hhdr => ?_, ?_⟩,
    h.writer.store_later hslots, ?_⟩
  · simp only [Publisher.goto, hmarks]
    exact h.increasing
  · simp only [Publisher.goto, hmarks]
    exact h.marks
  · cases hcrit'
    exact absurd hl (hlatch hdr')
  · rw [hafter] at hhdr
    cases hhdr
    exact h.unsent hdr hbefore
  · rw [nextSent_of_unsent hafter]
    exact hpos
  · rw [nextSent_of_unsent hafter, nextSent_of_unsent hbefore]

/-- The sample has been sent, or the critical section is over. -/
theorem PubOk.finish (h : PubOk slots g pub)
    (hidle : pub.writer.pc.record = none) (hwriter : pub'.writer = pub.writer)
    (hseq : pub'.sequenceNumber = pub.sequenceNumber)
    (hunsent : pub'.unsent = none) :
    PubOk slots g pub' ∧ PubLater slots pub pub' := by
  refine ⟨h.frame hwriter hseq hidle (fun c hdr hc hpc => ?_) (.inr hunsent),
    ?_, ?_⟩
  · rw [unsent_eq hc, hpc] at hunsent
    cases hunsent
  · rw [hwriter]
    exact .refl _ _
  · rw [nextSent_of_none hunsent, hseq]
    exact h.nextSent_le

section Step

variable [DecidableEq G] [DecidableEq T] {C : Config G} {s : State G T}
  {ok : Bool}

/-- What a step of the critical section of `g` does: the publisher stays in
order and goes on, and the subscription gets the sample, or nothing. -/
structure CritDone (C : Config G) (s t : State G T) (g : G)
    (crit : Crit G T) (ok : Bool) (pub' : Publisher G T) : Prop where
  pubs : t.pubs = Function.update s.pubs g pub'
  inv : PubOk (C.slots g) g pub'
  later : PubLater (C.slots g) (s.pubs g) pub'
  sub : t.sub = s.sub ∨ ∃ hdr latched, crit.pc = .send hdr latched true ∧
    ok = true ∧ t.sub = (s.deliver (crit.call.datagram hdr latched)).sub
  next : ∀ hdr latched sees, crit.pc = .send hdr latched sees →
    pub'.nextSent = hdr.sequenceNumber + 1

omit [DecidableEq G] [DecidableEq T] in
theorem unlinkStaged_frame (s : State G T) (staged : Option Nat) :
    (s.unlinkStaged staged).pubs = s.pubs ∧
      (s.unlinkStaged staged).sub = s.sub ∧
      (s.unlinkStaged staged).generation = s.generation := by
  unfold State.unlinkStaged
  split
  · exact ⟨rfl, rfl, rfl⟩
  · exact ⟨rfl, rfl, rfl⟩

omit [DecidableEq T] in
/-- A step that sends nothing. -/
theorem CritDone.quiet {t : State G T} {pub' : Publisher G T}
    (hpubs : t.pubs = Function.update s.pubs g pub')
    (hsub : t.sub = s.sub) (hsend : ∀ hdr latched sees,
      crit.pc ≠ .send hdr latched sees)
    (h : PubOk (C.slots g) g pub' ∧ PubLater (C.slots g) (s.pubs g) pub') :
    CritDone C s t g crit ok pub' where
  pubs := hpubs
  inv := h.1
  later := h.2
  sub := .inl hsub
  next hdr latched sees hpc := absurd hpc (hsend hdr latched sees)

/-- One step of the critical section. -/
theorem critStep_done (h : PubOk (C.slots g) g (s.pubs g))
    (hcrit : (s.pubs g).crit = some crit) :
    ∃ pub', CritDone C s (critStep C s g crit ok) g crit ok pub' := by
  have hslots : 0 < C.slots g := tlRingSlots_pos _
  cases hpc : crit.pc with
  | assign =>
    simp only [critStep, hpc]
    exact ⟨_, .quiet rfl rfl (by simp [hpc]) (h.assign hcrit hpc)⟩
  | latch hdr =>
    have hidle := h.idle_of hcrit (by simp [hpc])
    have hfail : PubOk (C.slots g) g
          ((s.pubs g).goto crit (.loadGen hdr false)) ∧
        PubLater (C.slots g) (s.pubs g)
          ((s.pubs g).goto crit (.loadGen hdr false)) :=
      h.goto hcrit hidle rfl rfl rfl nofun (by rw [hpc]; rfl)
    simp only [critStep, hpc]
    split
    · rename_i r hr
      split
      · exact ⟨_, .quiet rfl rfl (by simp [hpc])
          (h.mark hslots hcrit hpc (slotRecord_header hr))⟩
      · obtain ⟨hpubs, hsub, -⟩ := unlinkStaged_frame s crit.call.staged
        refine ⟨_, .quiet ?_ hsub (by simp [hpc]) hfail⟩
        simp only [State.critGoto, State.setPub, hpubs]
        rfl
    · exact ⟨_, .quiet rfl rfl (by simp [hpc]) hfail⟩
  | latching hdr =>
    simp only [critStep, hpc]
    split
    · rename_i hdone
      refine ⟨_, .quiet rfl rfl (by simp [hpc])
        (h.store hslots hcrit hpc rfl nofun fun hb => absurd ?_ hb)⟩
      rw [hdone]
      rfl
    · exact ⟨_, .quiet rfl rfl (by simp [hpc])
        (h.store hslots hcrit hpc rfl nofun fun _ => rfl)⟩
  | loadGen hdr latched =>
    have hidle := h.idle_of hcrit (by simp [hpc])
    simp only [critStep, hpc]
    exact ⟨_, .quiet rfl rfl (by simp [hpc])
      (h.goto hcrit hidle rfl rfl rfl nofun (by rw [hpc]; rfl))⟩
  | refresh hdr latched gen =>
    have hidle := h.idle_of hcrit (by simp [hpc])
    simp only [critStep, hpc]
    split
    · exact ⟨_, .quiet rfl rfl (by simp [hpc])
        (h.goto hcrit hidle rfl rfl rfl nofun (by rw [hpc]; rfl))⟩
    · exact ⟨_, .quiet rfl rfl (by simp [hpc])
        (h.goto hcrit hidle rfl rfl rfl nofun (by rw [hpc]; rfl))⟩
  | send hdr latched sees =>
    have hidle := h.idle_of hcrit (by simp [hpc])
    have hunsent : (s.pubs g).unsent = some hdr := by
      rw [unsent_eq hcrit, hpc]
      rfl
    have hdone : PubOk (C.slots g) g ((s.pubs g).goto crit .unlock) ∧
        PubLater (C.slots g) (s.pubs g) ((s.pubs g).goto crit .unlock) :=
      h.finish hidle rfl rfl rfl
    have hnext : ((s.pubs g).goto crit .unlock).nextSent =
        hdr.sequenceNumber + 1 :=
      (h.unsent hdr hunsent).2.1.symm
    have hnext' : ∀ hdr' latched' sees', crit.pc = .send hdr' latched' sees' →
        ((s.pubs g).goto crit .unlock).nextSent = hdr'.sequenceNumber + 1 := by
      intro hdr' latched' sees' hsend
      rw [hpc] at hsend
      cases hsend
      exact hnext
    simp only [critStep, hpc]
    split
    · rename_i hsees
      obtain ⟨rfl, rfl⟩ := hsees
      exact ⟨_, rfl, hdone.1, hdone.2, .inr ⟨hdr, latched, hpc, rfl, rfl⟩,
        hnext'⟩
    · exact ⟨_, rfl, hdone.1, hdone.2, .inl rfl, hnext'⟩
  | unlock =>
    have hidle := h.idle_of hcrit (by simp [hpc])
    simp only [critStep, hpc]
    exact ⟨_, .quiet rfl rfl (by simp [hpc]) (h.finish hidle rfl rfl rfl)⟩

end Step

end RmwUnixSocket.Latch.Replay
