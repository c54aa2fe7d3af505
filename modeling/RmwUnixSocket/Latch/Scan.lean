import RmwUnixSocket.Latch.Writer

/-!
# The scan of the latched ring

`ScanOk` is the part of the scan's invariant that holds for any number of
latches.  The scan has seen no `seq` that a slot has not had, and as long as
the current slot has not moved since its first load, what was copied from it
is what it holds (`ScanPc.Copied`).
-/

namespace RmwUnixSocket.Latch

open SlotRing (slotOf Newest)

variable {G : Type} {slots : Nat} {w w' : Writer G} {sc : Scan G}
  {slot : TlSlot G}

/-- What was copied from a slot that has not moved since its `seq` was `s1`.
`observed` is the `seq` that the scan remembers. -/
def ScanPc.Copied (observed : Nat) (slot : TlSlot G) : ScanPc G → Prop
  | .load => True
  | .len s1 => s1 = observed ∧ s1 % 2 = 0 ∧ word s1 ≠ 0
  | .header s1 n => s1 = observed ∧ s1 % 2 = 0 ∧ word s1 ≠ 0 ∧
    (slot.seq = s1 → n = slot.payloadLen)
  | .payload s1 n hdr => s1 = observed ∧ s1 % 2 = 0 ∧ word s1 ≠ 0 ∧
    (slot.seq = s1 → n = slot.payloadLen ∧ hdr = slot.header)
  | .recheck s1 rec => s1 = observed ∧ s1 % 2 = 0 ∧ word s1 ≠ 0 ∧
    (slot.seq = s1 → rec.header = slot.header ∧
      rec.payload = slot.area.take slot.payloadLen)

/-- The invariant of the scan. -/
structure ScanOk (slots : Nat) (w : Writer G) (sc : Scan G) : Prop where
  observed : ∀ i < slots, sc.observed i ≤ (w.ring.slots i).seq
  copied : sc.slot < slots →
    sc.pc.Copied (sc.observed sc.slot) (w.ring.slots sc.slot)
  slot : ∀ rec ∈ sc.records, rec.slot < sc.slot
  own : ∀ s1 rec, sc.pc = .recheck s1 rec → rec.slot = sc.slot

theorem ScanOk.start (slots : Nat) (w : Writer G) :
    ScanOk slots w (.start G) where
  observed _ _ := Nat.zero_le _
  copied _ := trivial
  slot := nofun
  own := nofun

/-- The copies of a slot that has not moved are still its copies. -/
theorem ScanPc.Copied.later {observed : Nat} {pc : ScanPc G}
    {slot' : TlSlot G} (h : pc.Copied observed slot)
    (hle : observed ≤ slot.seq) (hgrow : slot.seq ≤ slot'.seq)
    (hsame : slot.seq % 2 = 0 → slot'.seq = slot.seq → slot' = slot) :
    pc.Copied observed slot' := by
  have hback : ∀ s1, s1 = observed → s1 % 2 = 0 → slot'.seq = s1 →
      slot' = slot ∧ slot.seq = s1 := by
    intro s1 hs1 heven heq
    have hseq : slot.seq = s1 := by omega
    exact ⟨hsame (by omega) (by omega), hseq⟩
  cases pc with
  | load => trivial
  | len s1 => exact h
  | header s1 len =>
    obtain ⟨hs1, heven, hword, hcopy⟩ := h
    refine ⟨hs1, heven, hword, fun heq => ?_⟩
    obtain ⟨hslot, hseq⟩ := hback s1 hs1 heven heq
    rw [hslot]
    exact hcopy hseq
  | payload s1 len header =>
    obtain ⟨hs1, heven, hword, hcopy⟩ := h
    refine ⟨hs1, heven, hword, fun heq => ?_⟩
    obtain ⟨hslot, hseq⟩ := hback s1 hs1 heven heq
    rw [hslot]
    exact hcopy hseq
  | recheck s1 rec =>
    obtain ⟨hs1, heven, hword, hcopy⟩ := h
    refine ⟨hs1, heven, hword, fun heq => ?_⟩
    obtain ⟨hslot, hseq⟩ := hback s1 hs1 heven heq
    rw [hslot]
    exact hcopy hseq

/-- The writer may go on. -/
theorem ScanOk.later (h : ScanOk slots w sc) (hlater : w.Later slots w') :
    ScanOk slots w' sc where
  observed i hi := Nat.le_trans (h.observed i hi) (hlater.seq i hi)
  copied hslot := (h.copied hslot).later (h.observed _ hslot)
    (hlater.seq _ hslot) (hlater.same _ hslot)
  slot := h.slot
  own := h.own

/-! ## One load -/

/-- What one load can make of the scan: it stays at the slot, it gives the
slot up, or it keeps a record. -/
inductive Scan.Next (sc : Scan G) (slot : TlSlot G) : Scan G → Prop
  | stay {sc' : Scan G} (slot_eq : sc'.slot = sc.slot)
      (records : sc'.records = sc.records) (maxSeq : sc'.maxSeq = sc.maxSeq) :
      Next sc slot sc'
  | unwritten (pc : sc.pc = .load) (zero : word slot.seq = 0) :
      Next sc slot (sc.observe slot.seq).leave
  | inFlux (pc : sc.pc = .load) (odd : slot.seq % 2 = 1) :
      Next sc slot (sc.observe slot.seq).leave
  | tooLong (s1 : Nat) (pc : sc.pc = .len s1)
      (len : TL_EMBED_CAP < slot.payloadLen) : Next sc slot sc.leave
  | moved (s1 : Nat) (rec : TlPulledRecord G) (pc : sc.pc = .recheck s1 rec)
      (ne : word slot.seq ≠ word s1) : Next sc slot sc.leave
  | keep (s1 : Nat) (rec : TlPulledRecord G) (pc : sc.pc = .recheck s1 rec)
      (eq : word slot.seq = word s1) : Next sc slot (sc.push rec).leave

/-- A retry stays at the slot until the turns are used up. -/
theorem Scan.again_cases (sc : Scan G) :
    sc.again = { sc with retry := sc.retry + 1, pc := .load } ∨
      sc.again = sc.leave := by
  unfold Scan.again
  split
  · exact .inl rfl
  · exact .inr rfl

theorem Scan.step_next (sc : Scan G) (slot : TlSlot G) :
    sc.Next slot (sc.step slot) := by
  cases hpc : sc.pc with
  | load =>
    simp only [Scan.step, hpc]
    split
    · rename_i hzero
      exact .unwritten hpc hzero
    · split
      · rename_i hodd
        rw [word_odd] at hodd
        rcases (sc.observe slot.seq).again_cases with heq | heq
        · rw [heq]
          exact .stay rfl rfl rfl
        · rw [heq]
          exact .inFlux hpc hodd
      · exact .stay rfl rfl rfl
  | len s1 =>
    simp only [Scan.step, hpc]
    split
    · rename_i hlen
      rcases sc.again_cases with heq | heq
      · rw [heq]
        exact .stay rfl rfl rfl
      · rw [heq]
        exact .tooLong s1 hpc hlen
    · exact .stay rfl rfl rfl
  | header s1 len =>
    simp only [Scan.step, hpc]
    exact .stay rfl rfl rfl
  | payload s1 len header =>
    simp only [Scan.step, hpc]
    exact .stay rfl rfl rfl
  | recheck s1 rec =>
    simp only [Scan.step, hpc]
    split
    · rename_i heq
      exact .keep s1 rec hpc heq
    · rename_i hne
      rcases sc.again_cases with heq | heq
      · rw [heq]
        exact .stay rfl rfl rfl
      · rw [heq]
        exact .moved s1 rec hpc hne

/-- One load takes the scan to the next slot at most. -/
theorem Scan.step_slot_le (sc : Scan G) (slot : TlSlot G) :
    (sc.step slot).slot ≤ sc.slot + 1 := by
  have hnext := sc.step_next slot
  generalize sc.step slot = sc' at hnext ⊢
  cases hnext with
  | stay hslot => omega
  | unwritten | inFlux | tooLong | moved | keep => exact Nat.le_refl _

/-- `maxSeq` is the largest sequence number that the scan has collected. -/
structure Scan.MaxOk (sc : Scan G) : Prop where
  le : ∀ rec ∈ sc.records, rec.sequenceNumber ≤ sc.maxSeq
  mem : sc.maxSeq = 0 ∨ ∃ rec ∈ sc.records, rec.sequenceNumber = sc.maxSeq

theorem Scan.MaxOk.start (G : Type) : (Scan.start G).MaxOk where
  le := nofun
  mem := .inl rfl

theorem Scan.MaxOk.congr {sc sc' : Scan G} (h : sc.MaxOk)
    (hrecords : sc'.records = sc.records) (hmax : sc'.maxSeq = sc.maxSeq) :
    sc'.MaxOk := by
  refine ⟨?_, ?_⟩
  · rw [hrecords, hmax]
    exact h.le
  · rw [hrecords, hmax]
    exact h.mem

theorem Scan.MaxOk.push {sc : Scan G} (h : sc.MaxOk)
    (rec : TlPulledRecord G) : (sc.push rec).MaxOk where
  le rec' hrec := by
    simp only [Scan.push] at hrec ⊢
    rcases List.mem_append.mp hrec with hold | hnew
    · have := h.le rec' hold
      omega
    · rw [List.mem_singleton.mp hnew]
      exact Nat.le_max_right _ _
  mem := by
    simp only [Scan.push]
    rcases Nat.le_total sc.maxSeq rec.sequenceNumber with hle | hge
    · exact .inr ⟨rec, by simp, (Nat.max_eq_right hle).symm⟩
    · rw [Nat.max_eq_left hge]
      refine h.mem.imp_right fun ⟨rec', hmem, heq⟩ => ?_
      exact ⟨rec', by simp [hmem], heq⟩

theorem Scan.MaxOk.step {sc : Scan G} (h : sc.MaxOk) (slot : TlSlot G) :
    (sc.step slot).MaxOk := by
  have hnext := sc.step_next slot
  generalize sc.step slot = sc' at hnext ⊢
  cases hnext with
  | stay _ hrecords hmax => exact h.congr hrecords hmax
  | keep s1 rec => exact (h.push rec).congr rfl rfl
  | unwritten | inFlux | tooLong | moved => exact h.congr rfl rfl

/-- What the scan remembers about the other slots does not change. -/
theorem Scan.step_observed (sc : Scan G) (slot : TlSlot G) {i : Nat}
    (hi : i ≠ sc.slot) : (sc.step slot).observed i = sc.observed i := by
  have hagain : ∀ sc : Scan G, sc.again.observed = sc.observed := fun sc => by
    rcases sc.again_cases with heq | heq
    · rw [heq]
    · rw [heq]
      rfl
  have hobserve : (sc.observe slot.seq).observed i = sc.observed i :=
    Function.update_of_ne hi _ _
  cases hpc : sc.pc with
  | load =>
    simp only [Scan.step, hpc]
    split
    · exact hobserve
    · split
      · rw [hagain]
        exact hobserve
      · exact hobserve
  | len s1 =>
    simp only [Scan.step, hpc]
    split
    · rw [hagain]
    · rfl
  | header s1 len => simp only [Scan.step, hpc]
  | payload s1 len header => simp only [Scan.step, hpc]
  | recheck s1 rec =>
    simp only [Scan.step, hpc]
    split
    · rfl
    · rw [hagain]

/-- The scan has turned to a slot, and has loaded nothing from it yet. -/
theorem ScanOk.atLoad (h : ScanOk slots w sc) {sc' : Scan G}
    (hobserved : sc'.observed = sc.observed) (hpc : sc'.pc = .load)
    (hrecords : ∀ rec ∈ sc'.records, rec.slot < sc'.slot) :
    ScanOk slots w sc' where
  observed := by
    rw [hobserved]
    exact h.observed
  copied _ := by
    rw [hpc]
    trivial
  slot := hrecords
  own s1 rec hcontra := by
    rw [hpc] at hcontra
    cases hcontra

theorem ScanOk.leave (h : ScanOk slots w sc) : ScanOk slots w sc.leave :=
  h.atLoad rfl rfl fun rec hrec => Nat.lt_succ_of_lt (h.slot rec hrec)

theorem ScanOk.again (h : ScanOk slots w sc) : ScanOk slots w sc.again := by
  rcases sc.again_cases with heq | heq
  · rw [heq]
    exact h.atLoad rfl rfl h.slot
  · rw [heq]
    exact h.leave

/-- The scan has loaded the `seq` of its slot. -/
theorem ScanOk.observe (h : ScanOk slots w sc) (hpc : sc.pc = .load) :
    ScanOk slots w (sc.observe (w.ring.slots sc.slot).seq) where
  observed i hi := by
    by_cases hown : i = sc.slot
    · subst hown
      simp [Scan.observe]
    · simp only [Scan.observe, Function.update_of_ne hown]
      exact h.observed i hi
  copied _ := by
    simp only [Scan.observe, hpc]
    trivial
  slot := h.slot
  own := h.own

/-- Every load of the scan keeps the invariant. -/
theorem ScanOk.step (h : ScanOk slots w sc) (hslot : sc.slot < slots) :
    ScanOk slots w (sc.step (w.ring.slots sc.slot)) := by
  have hcopied := h.copied hslot
  cases hpc : sc.pc with
  | load =>
    have hobs := h.observe hpc
    simp only [Scan.step, hpc]
    split
    · exact hobs.leave
    · rename_i hword
      split
      · exact hobs.again
      · rename_i heven
        rw [word_odd] at heven
        refine ⟨hobs.observed, fun _ => ⟨?_, by omega, hword⟩, h.slot, nofun⟩
        simp [Scan.observe]
  | len s1 =>
    rw [hpc] at hcopied
    obtain ⟨hs1, heven, hword⟩ := hcopied
    simp only [Scan.step, hpc]
    split
    · exact h.again
    · exact ⟨h.observed, fun _ => ⟨hs1, heven, hword, fun _ => rfl⟩, h.slot,
        nofun⟩
  | header s1 len =>
    rw [hpc] at hcopied
    obtain ⟨hs1, heven, hword, hcopy⟩ := hcopied
    simp only [Scan.step, hpc]
    exact ⟨h.observed, fun _ => ⟨hs1, heven, hword, fun hseq =>
      ⟨hcopy hseq, rfl⟩⟩, h.slot, nofun⟩
  | payload s1 len header =>
    rw [hpc] at hcopied
    obtain ⟨hs1, heven, hword, hcopy⟩ := hcopied
    simp only [Scan.step, hpc]
    refine ⟨h.observed, fun _ => ⟨hs1, heven, hword, fun hseq => ?_⟩, h.slot,
      fun s1' rec hrec => ?_⟩
    · obtain ⟨hlen, hheader⟩ := hcopy hseq
      exact ⟨hheader, by rw [hlen]⟩
    · cases hrec
      rfl
  | recheck s1 rec =>
    simp only [Scan.step, hpc]
    split
    · refine h.atLoad rfl rfl fun rec' hrec => ?_
      rcases List.mem_append.mp hrec with hold | hnew
      · exact Nat.lt_succ_of_lt (h.slot rec' hold)
      · rw [List.mem_singleton.mp hnew, h.own s1 rec hpc]
        exact Nat.lt_succ_self _
    · exact h.again

end RmwUnixSocket.Latch
