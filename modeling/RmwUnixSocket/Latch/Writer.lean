import RmwUnixSocket.Latch.Ring

/-!
# The invariant of the latched ring

`WriterOk` says what the slots of a ring hold between two stores of its
writer.  Slot `i` has the newest record that was marked for it, its `seq` is
odd exactly while the writer is in the slot, and an even slot holds a whole
record (`SlotOk`).

`Later` is what a reader can count on when the writer has gone on: records
are only added, `seq` only grows, and an even slot whose `seq` has not moved
has not changed.
-/

namespace RmwUnixSocket.Latch

open SlotRing (slotOf Newest slotOf_lt slotOf_add)

variable {G : Type} {slots i : Nat} {w w' : Writer G} {rec : SlotRecord G}

/-! ## The invariant -/

/-- The index of the record that a slot was marked for last. -/
def TlSlot.index (slot : TlSlot G) : Nat :=
  (slot.seq + 1) / 2

/-- The slot holds the whole record. -/
structure SlotRecord.HeldBy (rec : SlotRecord G) (slot : TlSlot G) : Prop where
  len : slot.payloadLen = rec.payload.length
  header : slot.header = rec.header
  payload : slot.area.take slot.payloadLen = rec.payload

/-- The record that the writer is storing. -/
def WriterPc.record : WriterPc G → Option (SlotRecord G)
  | .idle => none
  | .len rec | .header rec | .payload rec | .commit rec => some rec

/-- What the writer has stored of its record so far. -/
def WriterPc.Stored (slot : TlSlot G) : WriterPc G → Prop
  | .idle | .len _ => True
  | .header rec => slot.payloadLen = rec.payload.length
  | .payload rec =>
    slot.payloadLen = rec.payload.length ∧ slot.header = rec.header
  | .commit rec => rec.HeldBy slot

/-- The writer is in slot `i`. -/
def Writer.BusyAt (w : Writer G) (slots i : Nat) : Prop :=
  w.pc.record ≠ none ∧ i = slotOf slots w.ring.nextIndex

/-- The records that the writer has committed. -/
def Writer.commits (w : Writer G) : Nat :=
  w.ring.nextIndex - 1

/-- Record `n` is `rec`. -/
def Writer.Marked (w : Writer G) (n : Nat) (rec : SlotRecord G) : Prop :=
  0 < n ∧ w.marks[n - 1]? = some rec

/-- What slot `i` holds. -/
structure SlotOk (slots : Nat) (w : Writer G) (i : Nat) : Prop where
  newest : Newest slots w.marks.length i (w.ring.slots i).index
  odd : (w.ring.slots i).seq % 2 = 1 ↔ w.BusyAt slots i
  len : (w.ring.slots i).payloadLen ≤ TL_EMBED_CAP
  holds : ¬w.BusyAt slots i → (w.ring.slots i).index ≠ 0 →
    ∃ rec, w.Marked (w.ring.slots i).index rec ∧ rec.HeldBy (w.ring.slots i)
  header : (w.ring.slots i).index ≠ 0 →
    (w.BusyAt slots i → slots < (w.ring.slots i).index) →
    ∃ m rec, w.Marked m rec ∧ slotOf slots m = i ∧
      (w.ring.slots i).header = rec.header

/-- The invariant of a ring and its writer. -/
structure WriterOk (slots : Nat) (w : Writer G) : Prop where
  idle : w.pc.record = none → w.ring.nextIndex = w.marks.length + 1
  busy : ∀ rec, w.pc.record = some rec → w.Marked w.ring.nextIndex rec ∧
    w.ring.nextIndex = w.marks.length
  stored : w.pc.Stored (w.ring.slots (slotOf slots w.ring.nextIndex))
  slot : ∀ i < slots, SlotOk slots w i

/-! ## Marked records -/

theorem Writer.Marked.le {n : Nat} (h : w.Marked n rec) :
    n ≤ w.marks.length := by
  obtain ⟨hn, hget⟩ := h
  obtain ⟨hlt, _⟩ := List.getElem?_eq_some_iff.mp hget
  omega

theorem Writer.Marked.mem {n : Nat} (h : w.Marked n rec) : rec ∈ w.marks :=
  List.mem_of_getElem? h.2

theorem Writer.Marked.unique {n : Nat} {rec' : SlotRecord G}
    (h : w.Marked n rec) (h' : w.Marked n rec') : rec = rec' :=
  Option.some.inj (h.2.symm.trans h'.2)

theorem Writer.exists_marked {n : Nat} (hn : 0 < n)
    (hle : n ≤ w.marks.length) : ∃ rec, w.Marked n rec :=
  ⟨w.marks[n - 1], hn, List.getElem?_eq_getElem _⟩

theorem Writer.Marked.extend {n : Nat} (h : w.Marked n rec)
    (hmarks : w.marks <+: w'.marks) : w'.Marked n rec := by
  obtain ⟨hn, hget⟩ := h
  obtain ⟨hlt, _⟩ := List.getElem?_eq_some_iff.mp hget
  obtain ⟨rest, hrest⟩ := hmarks
  refine ⟨hn, ?_⟩
  rw [← hrest, List.getElem?_append_left hlt]
  exact hget

/-! ## One store -/

theorem TlRing.modify_slots (ring : TlRing G) (f : TlSlot G → TlSlot G)
    (i : Nat) : (ring.modify slots f).slots i =
      if i = slotOf slots ring.nextIndex then f (ring.slots i)
      else ring.slots i := by
  by_cases hi : i = slotOf slots ring.nextIndex
  · subst hi
    simp [TlRing.modify]
  · simp [TlRing.modify, hi]

theorem SlotOk.index_le (h : SlotOk slots w i) :
    (w.ring.slots i).index ≤ w.marks.length :=
  h.newest.le

/-- `seq` is the count of its record. -/
theorem SlotOk.seq_le (h : SlotOk slots w i) :
    (w.ring.slots i).seq ≤ 2 * w.marks.length := by
  have hle := h.index_le
  unfold TlSlot.index at hle
  omega

/-- The slot that the writer is in was marked for the writer's record. -/
theorem WriterOk.busy_seq (h : WriterOk slots w) (hslots : 0 < slots)
    (hrec : w.pc.record = some rec) :
    (w.ring.slots (slotOf slots w.ring.nextIndex)).seq =
      2 * w.ring.nextIndex - 1 := by
  obtain ⟨hmarked, hnext⟩ := h.busy rec hrec
  have hok := h.slot _ (slotOf_lt hslots w.ring.nextIndex)
  have hodd := hok.odd.mpr ⟨by simp [hrec], rfl⟩
  have hpos := hmarked.1
  obtain ⟨total, htotal⟩ := Nat.exists_eq_succ_of_ne_zero (by omega :
    w.marks.length ≠ 0)
  have hnewest := hok.newest
  rw [hnext, htotal] at hnewest
  have hindex := hnewest.unique (Newest.next slots total hslots)
  rw [hnext, htotal]
  unfold TlSlot.index at hindex
  rw [hnext, htotal] at hodd
  omega

theorem WriterOk.create [Inhabited G] : WriterOk slots (Writer.create G) := by
  have hindex : ∀ i, ((Writer.create G).ring.slots i).index = 0 := fun i => by
    simp [Writer.create, TlRing.create, TlSlot.zero, TlSlot.index]
  refine ⟨fun _ => rfl, nofun, trivial, fun i hi => ?_⟩
  refine ⟨?_, ⟨nofun, fun h => absurd rfl h.1⟩, Nat.zero_le _,
    fun _ h => absurd (hindex i) h, fun h => absurd (hindex i) h⟩
  rw [hindex]
  exact Newest.start slots i

/-- A slot that the step leaves alone, and that the writer is not in before
and after the step. -/
theorem SlotOk.frame (h : SlotOk slots w i)
    (hslot : w'.ring.slots i = w.ring.slots i) (hmarks : w.marks <+: w'.marks)
    (hnewest : Newest slots w'.marks.length i (w.ring.slots i).index)
    (hout : ¬w.BusyAt slots i) (hout' : ¬w'.BusyAt slots i) :
    SlotOk slots w' i where
  newest := by
    rw [hslot]
    exact hnewest
  odd := by
    rw [hslot]
    exact ⟨fun hodd => absurd (h.odd.mp hodd) hout,
      fun hbusy => absurd hbusy hout'⟩
  len := by
    rw [hslot]
    exact h.len
  holds _ hindex := by
    rw [hslot] at hindex ⊢
    obtain ⟨rec, hmarked, hheld⟩ := h.holds hout hindex
    exact ⟨rec, hmarked.extend hmarks, hheld⟩
  header hindex _ := by
    rw [hslot] at hindex ⊢
    obtain ⟨m, rec, hmarked, hm⟩ :=
      h.header hindex fun hbusy => absurd hbusy hout
    exact ⟨m, rec, hmarked.extend hmarks, hm⟩

/-- The next record gets its slot marked. -/
theorem WriterOk.markNext (h : WriterOk slots w) (hslots : 0 < slots)
    (hidle : w.pc.record = none) (rec : SlotRecord G) :
    WriterOk slots (w.markNext slots rec) := by
  have hnext := h.idle hidle
  have hout : ∀ i, ¬w.BusyAt slots i := fun i hbusy => hbusy.1 hidle
  have hmarks : w.marks <+: (w.markNext slots rec).marks :=
    List.prefix_append _ _
  have hlength : (w.markNext slots rec).marks.length = w.marks.length + 1 :=
    List.length_append
  have hmarked : (w.markNext slots rec).Marked w.ring.nextIndex rec := by
    refine ⟨by omega, ?_⟩
    rw [hnext]
    exact List.getElem?_concat_length
  refine ⟨nofun, fun rec' hrec => ?_, trivial, fun i hi => ?_⟩
  · cases hrec
    exact ⟨hmarked, by rw [hlength]; exact hnext⟩
  · by_cases hown : i = slotOf slots w.ring.nextIndex
    · have hold := h.slot i hi
      have hslot : (w.markNext slots rec).ring.slots i =
          { w.ring.slots i with seq := 2 * w.ring.nextIndex - 1 } := by
        rw [Writer.markNext, TlRing.mark, TlRing.modify_slots, if_pos hown]
      have hindex : ((w.markNext slots rec).ring.slots i).index =
          w.marks.length + 1 := by
        rw [hslot]
        unfold TlSlot.index
        simp only
        omega
      have hbusy : (w.markNext slots rec).BusyAt slots i := ⟨nofun, hown⟩
      refine ⟨?_, ?_, ?_, fun hcontra => absurd hbusy hcontra, fun _ hlap => ?_⟩
      · rw [hindex, hlength, hown, hnext]
        exact Newest.next slots w.marks.length hslots
      · refine ⟨fun _ => hbusy, fun _ => ?_⟩
        rw [hslot]
        simp only
        omega
      · rw [hslot]
        exact hold.len
      · -- The header is still the one of the record a round before.
        have hround := hlap hbusy
        rw [hindex] at hround
        have hprev : slotOf slots (w.marks.length + 1 - slots) = i := by
          have hadd : slotOf slots (w.marks.length + 1 - slots + slots) =
              slotOf slots (w.marks.length + 1 - slots) :=
            slotOf_add (by omega)
          rw [← hadd, Nat.sub_add_cancel (by omega), hown, hnext]
        have hle := hold.newest.le_of_slot (by omega) hprev (by omega)
        obtain ⟨m, old, hm, hheader⟩ :=
          hold.header (by omega) fun hb => absurd hb (hout i)
        refine ⟨m, old, hm.extend hmarks, ?_⟩
        rw [hslot]
        exact hheader
    · have hold := h.slot i hi
      refine hold.frame ?_ hmarks ?_ (hout i) fun hb => hown hb.2
      · rw [Writer.markNext, TlRing.mark, TlRing.modify_slots, if_neg hown]
      · rw [hlength]
        refine hold.newest.other hi ?_
        rwa [← hnext]

/-- A store between the two stores of `seq`. -/
theorem WriterOk.put (h : WriterOk slots w) (hrec : w.pc.record = some rec)
    {pc : WriterPc G} (hpc : pc.record = some rec) {f : TlSlot G → TlSlot G}
    (hseq : ∀ slot, (f slot).seq = slot.seq)
    (hlen : ∀ slot, slot.payloadLen ≤ TL_EMBED_CAP →
      (f slot).payloadLen ≤ TL_EMBED_CAP)
    (hheader : ∀ slot, (f slot).header = slot.header ∨
      (f slot).header = rec.header)
    (hstored : pc.Stored (f (w.ring.slots (slotOf slots w.ring.nextIndex)))) :
    WriterOk slots { w with ring := w.ring.modify slots f, pc := pc } := by
  obtain ⟨hmarked, hnext⟩ := h.busy rec hrec
  refine ⟨fun hnone => ?_, fun rec' hrec' => ?_, ?_, fun i hi => ?_⟩
  · rw [hpc] at hnone
    cases hnone
  · rw [hpc] at hrec'
    cases hrec'
    exact ⟨hmarked, hnext⟩
  · have hslot : (w.ring.modify slots f).slots
        (slotOf slots w.ring.nextIndex) =
          f (w.ring.slots (slotOf slots w.ring.nextIndex)) := by
      rw [TlRing.modify_slots, if_pos rfl]
    rw [← hslot] at hstored
    exact hstored
  · have hold := h.slot i hi
    by_cases hown : i = slotOf slots w.ring.nextIndex
    · have hbusy : w.BusyAt slots i := ⟨by simp [hrec], hown⟩
      have hbusy' : Writer.BusyAt
          { w with ring := w.ring.modify slots f, pc := pc } slots i :=
        ⟨by simp [hpc], hown⟩
      have hslot : (w.ring.modify slots f).slots i = f (w.ring.slots i) := by
        rw [TlRing.modify_slots, if_pos hown]
      have hindex : (f (w.ring.slots i)).index = (w.ring.slots i).index := by
        unfold TlSlot.index
        rw [hseq]
      refine ⟨?_, ?_, ?_, fun hcontra => absurd hbusy' hcontra,
        fun hne hlap => ?_⟩
      · simp only [hslot, hindex]
        exact hold.newest
      · simp only [hslot, hseq]
        exact ⟨fun _ => hbusy', fun _ => hold.odd.mpr hbusy⟩
      · simp only [hslot]
        exact hlen _ hold.len
      · have hround := hlap hbusy'
        simp only [hslot, hindex] at hne hround ⊢
        rcases hheader (w.ring.slots i) with hkept | hnew
        · obtain ⟨m, old, hm, hmslot, heq⟩ := hold.header hne fun _ => hround
          exact ⟨m, old, hm, hmslot, hkept.trans heq⟩
        · exact ⟨w.ring.nextIndex, rec, hmarked, hown.symm, hnew⟩
    · refine hold.frame ?_ List.prefix_rfl hold.newest
        (fun hb => hown hb.2) fun hb => hown hb.2
      simp only [TlRing.modify_slots, if_neg hown]

/-- The record is committed. -/
theorem WriterOk.commit (h : WriterOk slots w) (hslots : 0 < slots)
    (hpc : w.pc = .commit rec) :
    WriterOk slots
      { w with ring := w.ring.commit slots rec.segment, pc := .idle } := by
  have hrec : w.pc.record = some rec := by rw [hpc]; rfl
  obtain ⟨hmarked, hnext⟩ := h.busy rec hrec
  have hseq := h.busy_seq hslots hrec
  have hheld := h.stored
  rw [hpc] at hheld
  refine ⟨fun _ => ?_, nofun, trivial, fun i hi => ?_⟩
  · simp only [TlRing.commit, hnext]
  · have hold := h.slot i hi
    by_cases hown : i = slotOf slots w.ring.nextIndex
    · have hslot : (w.ring.commit slots rec.segment).slots i =
          { w.ring.slots i with seq := 2 * w.ring.nextIndex } := by
        simp only [TlRing.commit, TlRing.modify_slots, if_pos hown]
      have hindex : (w.ring.slots i).index = w.ring.nextIndex := by
        unfold TlSlot.index
        rw [hown, hseq]
        omega
      have hindex' : TlSlot.index
          { w.ring.slots i with seq := 2 * w.ring.nextIndex } =
            w.ring.nextIndex := by
        unfold TlSlot.index
        simp only
        omega
      rw [← hown] at hheld
      refine ⟨?_, ?_, ?_, fun _ _ => ?_, fun _ _ => ?_⟩
      · simp only [hslot, hindex']
        rw [← hindex]
        exact hold.newest
      · simp only [hslot]
        exact ⟨fun hodd => by omega, fun hb => absurd rfl hb.1⟩
      · simp only [hslot]
        exact hold.len
      · simp only [hslot, hindex']
        exact ⟨rec, hmarked, hheld.len, hheld.header, hheld.payload⟩
      · simp only [hslot]
        exact ⟨w.ring.nextIndex, rec, hmarked, hown.symm, hheld.header⟩
    · refine hold.frame ?_ List.prefix_rfl hold.newest
        (fun hb => hown hb.2) fun hb => hb.1 rfl
      simp only [TlRing.commit, TlRing.modify_slots, if_neg hown]

/-- Every store of the writer keeps the invariant. -/
theorem WriterOk.store (h : WriterOk slots w) (hslots : 0 < slots) :
    WriterOk slots (w.store slots) := by
  cases hpc : w.pc with
  | idle => simpa only [Writer.store, hpc] using h
  | len rec =>
    simp only [Writer.store, hpc]
    refine h.put (by rw [hpc]; rfl) rfl (fun _ => rfl)
      (fun _ _ => rec.fits) (fun _ => .inl rfl) rfl
  | header rec =>
    have hstored := h.stored
    rw [hpc] at hstored
    simp only [Writer.store, hpc]
    refine h.put (by rw [hpc]; rfl) rfl (fun _ => rfl)
      (fun _ hlen => hlen) (fun _ => .inr rfl) ⟨hstored, rfl⟩
  | payload rec =>
    have hstored := h.stored
    rw [hpc] at hstored
    simp only [Writer.store, hpc]
    refine h.put (by rw [hpc]; rfl) rfl (fun _ => rfl)
      (fun _ hlen => hlen) (fun _ => .inl rfl) ⟨hstored.1, hstored.2, ?_⟩
    rw [hstored.1]
    exact List.take_left
  | commit rec =>
    simp only [Writer.store, hpc]
    exact h.commit hslots hpc

/-! ## What a reader can count on -/

/-- The ring of `w'` is the ring of `w` at a later moment. -/
structure Writer.Later (slots : Nat) (w w' : Writer G) : Prop where
  marks : w.marks <+: w'.marks
  commits : w.commits ≤ w'.commits
  seq : ∀ i < slots, (w.ring.slots i).seq ≤ (w'.ring.slots i).seq
  same : ∀ i < slots, (w.ring.slots i).seq % 2 = 0 →
    (w'.ring.slots i).seq = (w.ring.slots i).seq →
      w'.ring.slots i = w.ring.slots i

namespace Writer.Later

theorem refl (slots : Nat) (w : Writer G) : w.Later slots w where
  marks := List.prefix_rfl
  commits := Nat.le_refl _
  seq _ _ := Nat.le_refl _
  same _ _ _ _ := rfl

theorem trans {w'' : Writer G} (h : w.Later slots w')
    (h' : w'.Later slots w'') : w.Later slots w'' where
  marks := h.marks.trans h'.marks
  commits := Nat.le_trans h.commits h'.commits
  seq i hi := Nat.le_trans (h.seq i hi) (h'.seq i hi)
  same i hi heven heq := by
    have hle := h.seq i hi
    have hle' := h'.seq i hi
    have hmid : (w'.ring.slots i).seq = (w.ring.slots i).seq := by omega
    rw [h'.same i hi (by omega) (by omega), h.same i hi heven hmid]

end Writer.Later

/-- A change to the slot of the next record, if it is not even before and
after with the same `seq`. -/
theorem Writer.Later.modify (hmarks : w.marks <+: w'.marks)
    (hcommits : w.commits ≤ w'.commits) {f : TlSlot G → TlSlot G}
    (hslots : w'.ring.slots = (w.ring.modify slots f).slots)
    (hseq : (w.ring.slots (slotOf slots w.ring.nextIndex)).seq ≤
      (f (w.ring.slots (slotOf slots w.ring.nextIndex))).seq)
    (hmoved : (w.ring.slots (slotOf slots w.ring.nextIndex)).seq % 2 = 0 →
      (w.ring.slots (slotOf slots w.ring.nextIndex)).seq <
        (f (w.ring.slots (slotOf slots w.ring.nextIndex))).seq) :
    w.Later slots w' := by
  refine ⟨hmarks, hcommits, fun i hi => ?_, fun i hi heven heq => ?_⟩
  · rw [hslots, TlRing.modify_slots]
    split
    · rename_i hown
      rw [hown]
      exact hseq
    · exact Nat.le_refl _
  · rw [hslots, TlRing.modify_slots] at heq ⊢
    split
    · rename_i hown
      rw [if_pos hown] at heq
      rw [hown] at heven heq
      have := hmoved heven
      omega
    · rfl

theorem WriterOk.markNext_later (h : WriterOk slots w) (hslots : 0 < slots)
    (hidle : w.pc.record = none) (rec : SlotRecord G) :
    w.Later slots (w.markNext slots rec) := by
  have hnext := h.idle hidle
  have hle := (h.slot _ (slotOf_lt hslots w.ring.nextIndex)).seq_le
  refine Writer.Later.modify (List.prefix_append _ _) (Nat.le_refl _) rfl ?_ ?_
  · simp only
    omega
  · simp only
    omega

theorem WriterOk.store_later (h : WriterOk slots w) (hslots : 0 < slots) :
    w.Later slots (w.store slots) := by
  have hodd : ∀ rec, w.pc.record = some rec →
      (w.ring.slots (slotOf slots w.ring.nextIndex)).seq % 2 = 1 :=
    fun rec hrec => (h.slot _ (slotOf_lt hslots _)).odd.mpr
      ⟨by simp [hrec], rfl⟩
  cases hpc : w.pc with
  | idle =>
    simp only [Writer.store, hpc]
    exact .refl slots w
  | len rec =>
    have := hodd rec (by rw [hpc]; rfl)
    simp only [Writer.store, hpc]
    exact .modify List.prefix_rfl (Nat.le_refl _) rfl (Nat.le_refl _)
      (by omega)
  | header rec =>
    have := hodd rec (by rw [hpc]; rfl)
    simp only [Writer.store, hpc]
    exact .modify List.prefix_rfl (Nat.le_refl _) rfl (Nat.le_refl _)
      (by omega)
  | payload rec =>
    have := hodd rec (by rw [hpc]; rfl)
    simp only [Writer.store, hpc]
    exact .modify List.prefix_rfl (Nat.le_refl _) rfl (Nat.le_refl _)
      (by omega)
  | commit rec =>
    have hrec : w.pc.record = some rec := by rw [hpc]; rfl
    have := hodd rec hrec
    have hseq := h.busy_seq hslots hrec
    simp only [Writer.store, hpc]
    refine .modify List.prefix_rfl ?_
      (f := fun slot => { slot with seq := 2 * w.ring.nextIndex }) rfl ?_
      (by omega)
    · simp only [Writer.commits, TlRing.commit]
      omega
    · simp only
      omega

end RmwUnixSocket.Latch
