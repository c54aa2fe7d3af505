import RmwUnixSocket.Lib.Machine
import RmwUnixSocket.Latch.Scan

/-!
# What a pull returns

One `tl_ring_pull` against the single writer of the ring.  A step is one load
of the pull or one store of the writer, and the writer may stop between any
two stores.

Every record that the pull returns is the header and the payload of one
committed latch.  If the pull reports no overlap, the moment between its scan
and its second look at the slots is one at which the committed records of the
ring are exactly the ones that the scan has collected
(`tl_ring_pull_snapshot`).

The bound on the number of latches is used where a `seq` is compared: below
it the words are the counts.
-/

namespace RmwUnixSocket.Latch

open SlotRing (slotOf)

variable {G : Type} {slots : Nat} {w w' : Writer G} {sc : Scan G}

/-! ## The committed records of a ring -/

/-- The committed record of a slot. -/
def TlSlot.committed (slot : TlSlot G) : Option (WireHeader G × List Cell) :=
  if slot.seq ≠ 0 ∧ slot.seq % 2 = 0 then
    some (slot.header, slot.area.take slot.payloadLen)
  else none

/-- The committed records of a ring, by slot. -/
def TlRing.committed (slots : Nat) (ring : TlRing G) :
    List (WireHeader G × List Cell) :=
  (List.range slots).filterMap fun i => (ring.slots i).committed

/-- What the scan has copied. -/
def TlPulledRecord.content (rec : TlPulledRecord G) :
    WireHeader G × List Cell :=
  (rec.header, rec.payload)

theorem TlSlot.committed_of_odd {slot : TlSlot G} (h : slot.seq % 2 = 1) :
    slot.committed = none :=
  if_neg fun ⟨_, heven⟩ => by omega

/-- A slot whose `seq` has not moved has the same committed record. -/
theorem Writer.Later.committed_eq (h : w.Later slots w') {i : Nat}
    (hi : i < slots) (heq : (w'.ring.slots i).seq = (w.ring.slots i).seq) :
    (w'.ring.slots i).committed = (w.ring.slots i).committed := by
  rcases Nat.mod_two_eq_zero_or_one (w.ring.slots i).seq with heven | hodd
  · rw [h.same i hi heven heq]
  · rw [TlSlot.committed_of_odd hodd, TlSlot.committed_of_odd (by omega)]

/-- The record in an even slot is committed. -/
theorem WriterOk.index_le_commits (h : WriterOk slots w) {i : Nat}
    (hi : i < slots) (heven : (w.ring.slots i).seq % 2 = 0) :
    (w.ring.slots i).index ≤ w.commits := by
  have hok := h.slot i hi
  have hle := hok.index_le
  unfold Writer.commits
  cases hrec : w.pc.record with
  | none =>
    have := h.idle hrec
    omega
  | some rec =>
    obtain ⟨hmarked, hnext⟩ := h.busy rec hrec
    by_contra hgt
    have hindex : (w.ring.slots i).index = w.ring.nextIndex := by
      omega
    have hpos := hmarked.1
    have hslot := hok.newest.slot (by omega)
    rw [hindex] at hslot
    have hodd := hok.odd.mpr ⟨by simp [hrec], hslot.symm⟩
    omega

/-! ## The scan -/

/-- Below the bound, the words are the counts. -/
theorem word_inj {a b : Nat} (ha : a < 2 ^ 32) (hb : b < 2 ^ 32)
    (h : word a = word b) : a = b := by
  unfold word at h
  rwa [Nat.mod_eq_of_lt ha, Nat.mod_eq_of_lt hb] at h

/-- The invariant of the scan: what it has collected is committed, and if no
slot that it has left has moved since, it is all that is committed there. -/
structure Snap (slots : Nat) (w : Writer G) (sc : Scan G) : Prop where
  scan : ScanOk slots w sc
  copies : ∀ rec ∈ sc.records, ∃ n r, w.Marked n r ∧ n ≤ w.commits ∧
    rec.content = (r.header, r.payload)
  exact : (∀ i < sc.slot, (w.ring.slots i).seq = sc.observed i) →
    sc.records.map TlPulledRecord.content =
      (List.range sc.slot).filterMap fun i => (w.ring.slots i).committed
  max : sc.MaxOk

theorem Snap.start (slots : Nat) (w : Writer G) :
    Snap slots w (.start G) where
  scan := .start slots w
  copies := nofun
  exact _ := rfl
  max := .start G

/-- The writer may go on. -/
theorem Snap.later (h : Snap slots w sc) (hslot : sc.slot ≤ slots)
    (hlater : w.Later slots w') : Snap slots w' sc where
  scan := h.scan.later hlater
  copies rec hrec := by
    obtain ⟨n, r, hmarked, hle, hcontent⟩ := h.copies rec hrec
    exact ⟨n, r, hmarked.extend hlater.marks, Nat.le_trans hle hlater.commits,
      hcontent⟩
  exact hstill := by
    have hsame : ∀ i < sc.slot,
        (w'.ring.slots i).seq = (w.ring.slots i).seq := fun i hi => by
      have hobserved := h.scan.observed i (by omega)
      have hgrow := hlater.seq i (by omega)
      have := hstill i hi
      omega
    have hbefore := h.exact fun i hi => by
      rw [← hsame i hi]
      exact hstill i hi
    rw [hbefore]
    refine List.filterMap_congr fun i hi => ?_
    have hlt := List.mem_range.mp hi
    exact (hlater.committed_eq (by omega) (hsame i hlt)).symm
  max := h.max

/-- The scan leaves its slot without a record, and the slot has none either,
or it has moved. -/
theorem Snap.leave (h : Snap slots w sc) {observed : Nat → Nat}
    (hok : ScanOk slots w { sc with observed := observed }.leave)
    (hothers : ∀ i, i ≠ sc.slot → observed i = sc.observed i)
    (hnone : (w.ring.slots sc.slot).seq = observed sc.slot →
      (w.ring.slots sc.slot).committed = none) :
    Snap slots w { sc with observed := observed }.leave where
  scan := hok
  copies := h.copies
  exact hstill := by
    have hbefore := h.exact fun i hi => by
      rw [← hothers i (by omega)]
      exact hstill i (Nat.lt_succ_of_lt hi)
    have hown := hnone (hstill sc.slot (Nat.lt_succ_self _))
    simp only [Scan.leave, List.range_succ, List.filterMap_append, hbefore]
    simp [hown]
  max := h.max.congr rfl rfl

/-- The scan keeps the record of its slot. -/
theorem Snap.push (h : Snap slots w sc) {rec : TlPulledRecord G}
    (hok : ScanOk slots w (sc.push rec).leave) {n : Nat} {r : SlotRecord G}
    (hmarked : w.Marked n r) (hle : n ≤ w.commits)
    (hcontent : rec.content = (r.header, r.payload))
    (hown : (w.ring.slots sc.slot).committed = some rec.content) :
    Snap slots w (sc.push rec).leave where
  scan := hok
  copies rec' hrec := by
    rcases List.mem_append.mp hrec with hold | hnew
    · exact h.copies rec' hold
    · rw [List.mem_singleton.mp hnew]
      exact ⟨n, r, hmarked, hle, hcontent⟩
  exact hstill := by
    have hbefore := h.exact fun i hi => hstill i (Nat.lt_succ_of_lt hi)
    simp only [Scan.leave, Scan.push, List.range_succ, List.filterMap_append,
      List.map_append, hbefore]
    simp [hown]
  max := (h.max.push rec).congr rfl rfl

/-- Every load of the scan keeps the invariant, as long as the words are the
counts. -/
theorem Snap.step (h : Snap slots w sc) (hw : WriterOk slots w)
    (hslot : sc.slot < slots) (hbound : w.marks.length < 2 ^ 31) :
    Snap slots w (sc.step (w.ring.slots sc.slot)) := by
  have hok := h.scan.step hslot
  have hslotOk := hw.slot sc.slot hslot
  have hcopied := h.scan.copied hslot
  have hseq := hslotOk.seq_le
  have hobserved := h.scan.observed sc.slot hslot
  have hothers : ∀ i, i ≠ sc.slot →
      (sc.step (w.ring.slots sc.slot)).observed i = sc.observed i :=
    fun i hi => sc.step_observed _ hi
  have hnext := sc.step_next (w.ring.slots sc.slot)
  generalize sc.step (w.ring.slots sc.slot) = sc' at hok hothers hnext ⊢
  cases hnext with
  | stay hsame hrecords hmax =>
    refine ⟨hok, ?_, fun hstill => ?_, h.max.congr hrecords hmax⟩
    · rw [hrecords]
      exact h.copies
    · rw [hrecords, hsame]
      refine h.exact fun i hi => ?_
      rw [← hothers i (by omega)]
      exact hstill i (by omega)
  | unwritten hpc hzero =>
    refine h.leave hok hothers fun _ => if_neg fun ⟨hne, _⟩ => ?_
    unfold word at hzero
    omega
  | inFlux hpc hodd =>
    exact h.leave hok hothers fun _ => TlSlot.committed_of_odd hodd
  | tooLong s1 hpc hlen =>
    have := hslotOk.len
    omega
  | moved s1 rec hpc hne =>
    rw [hpc] at hcopied
    refine h.leave hok hothers fun hstill => absurd ?_ hne
    rw [hstill, hcopied.1]
  | keep s1 rec hpc heq =>
    rw [hpc] at hcopied
    obtain ⟨hs1, heven, hword, hcopy⟩ := hcopied
    have hstill : (w.ring.slots sc.slot).seq = s1 :=
      word_inj (by omega) (by omega) heq
    obtain ⟨hheader, hpayload⟩ := hcopy hstill
    have hne : s1 ≠ 0 := by
      intro hzero
      rw [hzero] at hword
      exact hword rfl
    have hindex : (w.ring.slots sc.slot).index ≠ 0 := by
      unfold TlSlot.index
      omega
    have hout : ¬w.BusyAt slots sc.slot := fun hbusy => by
      have := hslotOk.odd.mpr hbusy
      omega
    obtain ⟨r, hmarked, hheld⟩ := hslotOk.holds hout hindex
    refine h.push hok hmarked (hw.index_le_commits hslot (by omega)) ?_ ?_
    · rw [TlPulledRecord.content, hheader, hpayload, hheld.header,
        hheld.payload]
    · rw [TlPulledRecord.content, hheader, hpayload]
      exact if_pos ⟨by omega, by omega⟩

/-! ## The machine -/

namespace Snapshot

/-- The ring with its writer, and the pull. -/
structure State (G : Type) where
  writer : Writer G
  pull : PullPc G

/-- A step of the writer or of the pull.  `allocated` is the outcome of
`posix_fallocate`. -/
inductive Act (G : Type)
  | latch (hdr : WireHeader G) (payload : List UInt8) (staged : Option Nat)
      (allocated : Bool)
  | store
  | call
  | load

/-- A fresh ring. -/
def State.init (G : Type) [Inhabited G] : State G where
  writer := .create G
  pull := .idle

/-- The latch begins.  A latch that fails changes nothing. -/
def latch (slots : Nat) (s : State G) (allocated : Bool) :
    Option (SlotRecord G) → State G
  | some rec =>
    if allocated then { s with writer := s.writer.markNext slots rec } else s
  | none => s

/-- One step. -/
def step (slots : Nat) (s : State G) : Act G → Option (State G)
  | .latch hdr payload staged allocated =>
    match s.writer.pc with
    | .idle => some (latch slots s allocated (slotRecord hdr payload staged))
    | _ => none
  | .store => some { s with writer := s.writer.store slots }
  | .call =>
    match s.pull with
    | .idle => some { s with pull := .scan (.start G) }
    | _ => none
  | .load => some { s with pull := s.pull.step slots s.writer.ring.slots }

/-- The writer and the pull as a machine. -/
def machine (G : Type) (slots : Nat) : Machine (State G) (Act G) where
  step := step slots

/-! ## The invariant -/

variable {start s t : State G}

/-- `u` is the state between the scan and the second look. -/
structure Between (slots : Nat) (start s u : State G) (sc : Scan G) :
    Prop where
  before : (machine G slots).Reach (fun _ _ => True) start u
  after : (machine G slots).Reach (fun _ _ => True) u s
  pull : u.pull = .check sc 0
  snap : Snap slots u.writer sc
  slot : sc.slot = slots
  writer : WriterOk slots u.writer
  later : u.writer.Later slots s.writer

/-- The second look has found the first `j` slots as the scan has left
them. -/
def Looked (slots : Nat) (start s : State G) (sc : Scan G) (j : Nat) : Prop :=
  ∃ u, Between slots start s u sc ∧
    ∀ i < j, i < slots → (u.writer.ring.slots i).seq = sc.observed i

/-- What is known about the pull. -/
def PullOk (slots : Nat) (start s : State G) : PullPc G → Prop
  | .idle => True
  | .scan sc => Snap slots s.writer sc ∧ sc.slot < slots
  | .check sc j => Looked slots start s sc j
  | .done sc true => Looked slots start s sc 0
  | .done sc false => Looked slots start s sc slots

/-- The invariant of a run from `start`. -/
structure Inv (slots : Nat) (start s : State G) : Prop where
  reach : (machine G slots).Reach (fun _ _ => True) start s
  writer : WriterOk slots s.writer
  pull : s.writer.marks.length < 2 ^ 31 → PullOk slots start s s.pull

/-- The pull loses nothing when the writer goes on. -/
theorem PullOk.later {pull : PullPc G} (h : PullOk slots start s pull)
    (hstep : (machine G slots).Reach (fun _ _ => True) s t)
    (hlater : s.writer.Later slots t.writer) : PullOk slots start t pull := by
  have hlooked : ∀ sc j, Looked slots start s sc j → Looked slots start t sc j :=
    fun sc j ⟨u, hu, hstill⟩ =>
      ⟨u, { hu with
              after := hu.after.trans hstep
              later := hu.later.trans hlater }, hstill⟩
  cases pull with
  | idle => trivial
  | scan sc => exact ⟨h.1.later (Nat.le_of_lt h.2) hlater, h.2⟩
  | check sc j => exact hlooked sc j h
  | done sc overlapped =>
    cases overlapped with
    | true => exact hlooked sc 0 h
    | false => exact hlooked sc slots h

theorem Inv.init [Inhabited G] :
    Inv slots (State.init G) (State.init G) where
  reach := .refl
  writer := .create
  pull _ := trivial

/-- A step of the writer. -/
theorem Inv.write (h : Inv slots start s) {a : Act G}
    (hstep : (machine G slots).step s a = some t) (hpull : t.pull = s.pull)
    (hok : WriterOk slots t.writer) (hlater : s.writer.Later slots t.writer) :
    Inv slots start t where
  reach := h.reach.tail trivial hstep
  writer := hok
  pull hbound := by
    have hle := hlater.marks.length_le
    rw [hpull]
    exact (h.pull (by omega)).later (.single trivial hstep) hlater

/-- A load of the pull. -/
theorem Inv.load (h : Inv slots start s)
    (hstep : (machine G slots).step s .load = some t) :
    Inv slots start t := by
  have hreach := h.reach.tail trivial hstep
  obtain rfl := Option.some.inj hstep
  refine ⟨hreach, h.writer, fun hbound => ?_⟩
  simp only at hbound
  have hpull := h.pull hbound
  have hseq : ∀ j < slots, (s.writer.ring.slots j).seq < 2 ^ 32 := fun j hj => by
    have := (h.writer.slot j hj).seq_le
    omega
  generalize hpc : s.pull = pull at hpull hreach hstep ⊢
  cases pull with
  | idle => trivial
  | scan sc =>
    obtain ⟨hsnap, hslot⟩ := hpull
    have hsnap' := hsnap.step h.writer hslot hbound
    have hle := sc.step_slot_le (s.writer.ring.slots sc.slot)
    simp only [PullPc.step] at hreach ⊢
    split at hreach
    · rename_i hlt
      rw [if_pos hlt]
      exact ⟨hsnap', hlt⟩
    · rename_i hge
      rw [if_neg hge]
      exact ⟨_, ⟨hreach, .refl, rfl, hsnap', by omega, h.writer, .refl _ _⟩,
        nofun⟩
  | check sc j =>
    obtain ⟨u, hu, hstill⟩ := hpull
    have hu' : Between slots start
        { s with pull := (PullPc.check sc j).step slots s.writer.ring.slots }
        u sc :=
      { hu with after := hu.after.tail (a := .load) trivial hstep }
    simp only [PullPc.step] at hu' ⊢
    split
    · rename_i heq
      have hnext : ∀ i < j + 1, i < slots →
          (u.writer.ring.slots i).seq = sc.observed i := by
        intro i hi hlt
        by_cases hij : i = j
        · subst hij
          have hobserved := hu.snap.scan.observed i hlt
          have hgrow := hu.later.seq i hlt
          have hlarge := hseq i hlt
          have := word_inj (hseq i hlt) (by omega) heq
          omega
        · exact hstill i (by omega) hlt
      rw [if_pos heq] at hu'
      split
      · rename_i hmore
        rw [if_pos hmore] at hu'
        exact ⟨u, hu', hnext⟩
      · rename_i hlast
        rw [if_neg hlast] at hu'
        exact ⟨u, hu', fun i _ hlt => hnext i (by omega) hlt⟩
    · rename_i hne
      rw [if_neg hne] at hu'
      exact ⟨u, hu', nofun⟩
  | done sc overlapped => exact hpull.later (.single trivial hstep) (.refl _ _)

theorem latch_cases (slots : Nat) (s : State G) (allocated : Bool)
    (rec : Option (SlotRecord G)) :
    (∃ r, latch slots s allocated rec =
      { s with writer := s.writer.markNext slots r }) ∨
      latch slots s allocated rec = s := by
  unfold latch
  split
  · split
    · exact .inl ⟨_, rfl⟩
    · exact .inr rfl
  · exact .inr rfl

/-- Every step keeps the invariant. -/
theorem Inv.step (h : Inv slots start s) (hslots : 0 < slots) {a : Act G}
    (hstep : (machine G slots).step s a = some t) : Inv slots start t := by
  have hreach := h.reach.tail trivial hstep
  have hmachine := hstep
  simp only [machine] at hstep
  cases a with
  | latch hdr payload staged allocated =>
    simp only [Snapshot.step] at hstep
    split at hstep
    · rename_i hpc
      have hidle : s.writer.pc.record = none := by
        rw [hpc]
        rfl
      rcases latch_cases slots s allocated (slotRecord hdr payload staged) with
        ⟨rec, heq⟩ | heq
      · rw [heq] at hstep
        obtain rfl := Option.some.inj hstep
        exact h.write hmachine rfl (h.writer.markNext hslots hidle rec)
          (h.writer.markNext_later hslots hidle rec)
      · rw [heq] at hstep
        obtain rfl := Option.some.inj hstep
        exact h
    · cases hstep
  | store =>
    obtain rfl := Option.some.inj hstep
    exact h.write hmachine rfl (h.writer.store hslots)
      (h.writer.store_later hslots)
  | call =>
    have hcall : t = { s with pull := .scan (.start G) } := by
      simp only [Snapshot.step] at hstep
      split at hstep
      · exact (Option.some.inj hstep).symm
      · cases hstep
    subst hcall
    exact ⟨hreach, h.writer, fun _ => ⟨.start slots s.writer, hslots⟩⟩
  | load => exact h.load hmachine

/-- Every record that `tl_ring_pull` returns is the header and the payload of
one committed latch.  Without overlap there is a moment of the call at which
the committed records of the ring are exactly the collected ones. -/
theorem tl_ring_pull_snapshot [Inhabited G] {depth : Nat} (maxRecords : Nat)
    (hrun : (machine G (tlRingSlots depth)).Reach (fun _ _ => True)
      (State.init G) s) (hlatches : s.writer.marks.length < 2 ^ 31)
    {overlapped : Bool} (hdone : s.pull = .done sc overlapped) :
    (∀ rec ∈ sortedNewest maxRecords sc.records, ∃ n r, s.writer.Marked n r ∧
      n ≤ s.writer.commits ∧ rec.content = (r.header, r.payload)) ∧
    (overlapped = false → ∃ u,
      (machine G (tlRingSlots depth)).Reach (fun _ _ => True)
        (State.init G) u ∧
      (machine G (tlRingSlots depth)).Reach (fun _ _ => True) u s ∧
      u.pull = .check sc 0 ∧
      u.writer.ring.committed (tlRingSlots depth) =
        sc.records.map TlPulledRecord.content ∧
      (∀ rec ∈ sc.records, rec.sequenceNumber ≤ sc.maxSeq) ∧
      (sc.records ≠ [] →
        ∃ rec ∈ sc.records, rec.sequenceNumber = sc.maxSeq)) := by
  have hslots := tlRingSlots_pos depth
  have hinv : Inv (tlRingSlots depth) (State.init G) s :=
    hrun.invariant .init fun _ _ _ hinv _ hstep => hinv.step hslots hstep
  have hpull := hinv.pull hlatches
  rw [hdone] at hpull
  constructor
  · intro rec hrec
    obtain ⟨u, hu, -⟩ :
        ∃ u, Between (tlRingSlots depth) (State.init G) s u sc ∧ True := by
      cases overlapped with
      | true => exact hpull.imp fun u hu => ⟨hu.1, trivial⟩
      | false => exact hpull.imp fun u hu => ⟨hu.1, trivial⟩
    have hmem : rec ∈ sc.records :=
      Keyed.mem_sortBy.mp ((Keyed.newest_suffix _ _).subset hrec)
    obtain ⟨n, r, hmarked, hle, hcontent⟩ := hu.snap.copies rec hmem
    exact ⟨n, r, hmarked.extend hu.later.marks,
      Nat.le_trans hle hu.later.commits, hcontent⟩
  · rintro rfl
    obtain ⟨u, hu, hstill⟩ := hpull
    refine ⟨u, hu.before, hu.after, hu.pull, ?_, hu.snap.max.le, fun hne => ?_⟩
    · have hexact := hu.snap.exact fun i hi => hstill i (hu.slot ▸ hi)
        (hu.slot ▸ hi)
      rw [hexact, hu.slot]
      rfl
    · rcases hu.snap.max.mem with hzero | hmem
      · obtain ⟨rec, hrec⟩ := List.exists_mem_of_ne_nil _ hne
        have := hu.snap.max.le rec hrec
        exact ⟨rec, hrec, by omega⟩
      · exact hmem

/-- What the scan of a pull that has ended has copied, and its overlap. -/
def State.ended (s : State G) : Option (List (WireHeader G × List Cell) × Bool) :=
  match s.pull with
  | .done sc overlapped =>
    some (sc.records.map TlPulledRecord.content, overlapped)
  | _ => none

theorem State.of_ended {contents : List (WireHeader G × List Cell)}
    {overlapped : Bool} (h : s.ended = some (contents, overlapped)) :
    ∃ sc, s.pull = .done sc overlapped ∧
      sc.records.map TlPulledRecord.content = contents := by
  unfold State.ended at h
  split at h
  · rename_i sc _ hpull
    cases h
    exact ⟨sc, hpull, rfl⟩
  · cases h

/-- A header with the sequence number 1 for a payload of one byte. -/
def firstHeader : WireHeader Unit :=
  { (default : WireHeader Unit) with sequenceNumber := 1, payloadSize := 1 }

set_option maxRecDepth 100000 in
/-- One record in a ring of one slot. -/
theorem tl_ring_pull_snapshot_one :
    ∃ (s : State Unit) (sc : Scan Unit), s.pull = .done sc false ∧
      sc.records.map TlPulledRecord.content = [(firstHeader, [.byte 7])] ∧
      ∃ u, (machine Unit (tlRingSlots 1)).Reach (fun _ _ => True) u s ∧
        u.writer.ring.committed (tlRingSlots 1) =
          [(firstHeader, [.byte 7])] := by
  obtain ⟨s, hrun, hlatches, hended⟩ :=
    (machine Unit (tlRingSlots 1)).exists_reach_of_guardedRun
      (fun _ _ => True) (State.init Unit)
      ([.latch firstHeader [7] none true] ++ List.replicate 4 .store ++
        [.call] ++ List.replicate 6 .load)
      (fun s => s.writer.marks.length < 2 ^ 31 ∧
        s.ended = some ([(firstHeader, [.byte 7])], false)) (by decide)
  obtain ⟨sc, hdone, hcontents⟩ := State.of_ended hended
  obtain ⟨-, hinstant⟩ :=
    tl_ring_pull_snapshot 1 hrun hlatches hdone
  obtain ⟨u, -, hafter, -, hcommitted, -⟩ := hinstant rfl
  exact ⟨s, sc, hdone, hcontents, u, hafter, hcommitted.trans hcontents⟩

end Snapshot

end RmwUnixSocket.Latch
