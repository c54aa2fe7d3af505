import RmwUnixSocket.Hostile.Reader

/-!
# Every load lies inside its mapping

`map_segment` checks `header->ring_bytes` and then loads it again for the
capacity that it keeps; `tl_ring_pull` checks `header->slots` and then loads
it again for the bound of its loops.  As long as the second value passes the
check of the first (`Unraised`), no load of either function leaves the mapping
(`loads_inside`), whatever the descriptor and the bytes of the files.  An owner
that raises the field between the two loads makes the reader leave the mapping
(`loads_outside`).

The checks themselves are sound: the subtractions and the quotient in 64 bits
bound the sums and the products they stand for (`inBounds_eq`,
`slots_inside`).
-/

namespace RmwUnixSocket.Hostile

open Payload (ringHeaderSize recordHeaderSize SHM_RECORD_ALIGN)
open Latch (TL_EMBED_CAP wireHeaderSize tlSlotStride)

/-- The field that becomes the bound of the reader passes the check again when
it is loaded for good. -/
def Unraised (s : State) : Act → Prop
  | .load =>
    match s.pc with
    | .mapSnapshot _ m => m.ringBytesFit (UInt64.ofNat (s.value ⟨m, 8, 8⟩)) = true
    | .pullSlots _ m => m.slotsFit (UInt32.ofNat (s.value ⟨m, 24, 4⟩)) = true
    | _ => True
  | _ => True

instance (s : State) (a : Act) : Decidable (Unraised s a) := by
  unfold Unraised
  split
  · split <;> infer_instance
  · infer_instance

/-! ## The checks -/

/-- A mapping whose capacity fits it. -/
def Mapping.Ok (mapping : Mapping) : Prop :=
  ringHeaderSize + mapping.ringBytes.toNat ≤ mapping.base.size.toNat

/-- The slots of a scan fit the mapping. -/
def Scan.Ok (scan : Scan) : Prop :=
  slotAt scan.slots.toNat ≤ scan.map.size.toNat

/-- The record of a descriptor, as far as its last byte, fits the mapping. -/
def RecordFits (desc : ShmPayloadDescriptor) (mapping : Mapping) : Prop :=
  desc.record + recordHeaderSize + desc.payloadSize.toNat ≤
    mapping.base.size.toNat

theorem MappedFile.ringBytes_le {m : MappedFile} {ringBytes : UInt64}
    (hsize : ringHeaderSize ≤ m.size.toNat)
    (h : m.ringBytesFit ringBytes = true) :
    ringHeaderSize + ringBytes.toNat ≤ m.size.toNat := by
  have hle := of_decide_eq_true h
  have hheader : UInt64.ofNat ringHeaderSize ≤ m.size := by
    rw [UInt64.le_iff_toNat_le]
    exact hsize
  rw [UInt64.le_iff_toNat_le, UInt64.toNat_sub_of_le _ _ hheader] at hle
  have hsixteen : (UInt64.ofNat ringHeaderSize).toNat = ringHeaderSize := rfl
  omega

/-- The quotient that bounds the number of slots bounds the end of the last
one. -/
theorem slots_inside {m : MappedFile} {slots : UInt32}
    (hsize : SHM_RECORD_ALIGN ≤ m.size.toNat) (h : m.slotsFit slots = true) :
    slotAt slots.toNat ≤ m.size.toNat := by
  have hle := of_decide_eq_true h
  have hheader : UInt64.ofNat SHM_RECORD_ALIGN ≤ m.size := by
    rw [UInt64.le_iff_toNat_le]
    exact hsize
  rw [UInt64.le_iff_toNat_le, UInt64.toNat_div,
    UInt64.toNat_sub_of_le _ _ hheader, UInt32.toNat_toUInt64] at hle
  have hstride : (UInt64.ofNat tlSlotStride).toNat = tlSlotStride := rfl
  have halign : (UInt64.ofNat SHM_RECORD_ALIGN).toNat = SHM_RECORD_ALIGN := rfl
  rw [hstride, halign] at hle
  have hmul := Nat.mul_le_of_le_div _ _ _ hle
  unfold slotAt
  omega

/-- The bounds check computes with 64 bits what it would compute with
numbers. -/
theorem inBounds_eq (mapping : Mapping) (desc : ShmPayloadDescriptor) :
    inBounds mapping desc =
      Payload.inBounds
        { size := mapping.base.size.toNat, ringBytes := mapping.ringBytes.toNat }
        { segmentId := desc.segmentId.toNat, offset := desc.offset.toNat,
          seq := desc.seq.toNat, payloadSize := desc.payloadSize.toNat } := by
  have hsum : (UInt64.ofNat recordHeaderSize +
      desc.payloadSize.toUInt64).toNat =
      recordHeaderSize + desc.payloadSize.toNat := by
    have hlt := desc.payloadSize.toNat_lt
    have height : (UInt64.ofNat recordHeaderSize).toNat = 8 := rfl
    rw [UInt64.toNat_add, UInt32.toNat_toUInt64, height]
    show (8 + _) % 2 ^ 64 = 8 + _
    omega
  have halign : desc.offset % UInt64.ofNat SHM_RECORD_ALIGN = 0 ↔
      desc.offset.toNat % SHM_RECORD_ALIGN = 0 := by
    rw [← UInt64.toNat_inj, UInt64.toNat_mod]
    rfl
  unfold inBounds Payload.inBounds
  simp only [halign, UInt64.le_iff_toNat_le, hsum]
  by_cases hoffset : desc.offset.toNat ≤ mapping.ringBytes.toNat
  · have hle : desc.offset ≤ mapping.ringBytes :=
      UInt64.le_iff_toNat_le.mpr hoffset
    rw [UInt64.toNat_sub_of_le _ _ hle]
  · simp only [hoffset, decide_false, Bool.and_false, Bool.false_and]

/-- The bounds check of a fetch keeps the whole record inside the mapping. -/
theorem record_inside {mapping : Mapping} {desc : ShmPayloadDescriptor}
    (hmapping : mapping.Ok) (h : inBounds mapping desc = true) :
    RecordFits desc mapping := by
  rw [inBounds_eq] at h
  simp only [Payload.inBounds, Bool.and_eq_true, decide_eq_true_eq] at h
  obtain ⟨⟨-, hoffset⟩, hsize⟩ := h
  unfold Mapping.Ok at hmapping
  unfold RecordFits ShmPayloadDescriptor.record
  omega

/-! ## The invariant -/

/-- What the reader has checked before its next load. -/
def Pc.Ok : Pc → Prop
  | .idle => True
  | .mapMagic _ m | .mapVersion _ m | .mapRingBytes _ m | .mapSnapshot _ m =>
    ringHeaderSize ≤ m.size.toNat
  | .fetchSeq desc mapping | .fetchLen desc mapping
  | .fetchRecheck desc mapping _ => RecordFits desc mapping
  | .fetchCopy desc mapping buf =>
    RecordFits desc mapping ∧ buf.length < desc.payloadSize.toNat
  | .pullGid _ m buf => SHM_RECORD_ALIGN ≤ m.size.toNat ∧ buf.length < 16
  | .pullMagic _ m | .pullVersion _ m | .pullSlotBytes _ m
  | .pullSlotsPositive _ m | .pullSlotsBound _ m | .pullSlots _ m =>
    SHM_RECORD_ALIGN ≤ m.size.toNat
  | .scanSeq scan _ | .scanLen scan _ _ =>
    scan.Ok ∧ scan.i < scan.slots.toNat
  | .scanCopy scan _ _ len buf =>
    scan.Ok ∧ scan.i < scan.slots.toNat ∧ len.toNat ≤ TL_EMBED_CAP ∧
      buf.length < wireHeaderSize + len.toNat
  | .scanRecheck scan _ _ len _ =>
    scan.Ok ∧ scan.i < scan.slots.toNat ∧ len.toNat ≤ TL_EMBED_CAP
  | .overlap scan i => scan.Ok ∧ i < scan.slots.toNat

/-- The reader is between two loads. -/
structure Sound (s : State) : Prop where
  pc : s.pc.Ok
  cache : ∀ e ∈ s.cache, e.2.Ok

/-- Slots are long enough for the header and the longest payload. -/
theorem slot_end {scan : Scan} {i n : Nat} (hscan : scan.Ok)
    (hi : i < scan.slots.toNat)
    (hn : n ≤ recordHeaderSize + wireHeaderSize + TL_EMBED_CAP) :
    slotAt i + n ≤ scan.map.size.toNat := by
  have hstride : recordHeaderSize + wireHeaderSize + TL_EMBED_CAP ≤
      tlSlotStride := by decide
  have hmul : (i + 1) * tlSlotStride ≤ scan.slots.toNat * tlSlotStride :=
    Nat.mul_le_mul_right _ hi
  rw [Nat.succ_mul] at hmul
  unfold Scan.Ok at hscan
  unfold slotAt at hscan ⊢
  omega

/-- The next load of a reader lies inside its mapping. -/
theorem Pc.Ok.inside {pc : Pc} (h : pc.Ok) : ∀ l ∈ pc.load, l.Inside := by
  intro l hl
  cases pc
  case idle => cases hl
  case mapMagic | mapVersion | mapRingBytes | mapSnapshot =>
    cases hl
    simp only [Pc.Ok, ringHeaderSize] at h
    simp only [Load.Inside]
    omega
  case fetchSeq | fetchLen | fetchRecheck =>
    cases hl
    simp only [Pc.Ok, RecordFits, recordHeaderSize] at h
    simp only [Load.Inside]
    omega
  case fetchCopy =>
    cases hl
    obtain ⟨hfits, hlt⟩ := h
    unfold RecordFits at hfits
    simp only [Load.Inside]
    omega
  case pullGid =>
    cases hl
    obtain ⟨hsize, hlt⟩ := h
    simp only [SHM_RECORD_ALIGN] at hsize
    simp only [Load.Inside]
    omega
  case pullMagic | pullVersion | pullSlotBytes | pullSlotsPositive |
      pullSlotsBound | pullSlots =>
    cases hl
    simp only [Pc.Ok, SHM_RECORD_ALIGN] at h
    simp only [Load.Inside]
    omega
  case scanSeq scan retry =>
    cases hl
    exact slot_end h.1 h.2 (show 4 ≤ _ by decide)
  case scanLen scan retry s1 =>
    cases hl
    simp only [Load.Inside, Nat.add_assoc]
    exact slot_end h.1 h.2 (show 4 + 4 ≤ _ by decide)
  case scanCopy scan retry s1 len buf =>
    cases hl
    obtain ⟨hscan, hi, hlen, hlt⟩ := h
    simp only [Load.Inside, Nat.add_assoc]
    exact slot_end hscan hi (by omega)
  case scanRecheck scan retry s1 len buf =>
    cases hl
    exact slot_end h.1 h.2.1 (show 4 ≤ _ by decide)
  case overlap scan i =>
    cases hl
    exact slot_end h.1 h.2 (show 4 ≤ _ by decide)

/-! ## The pieces of the two functions -/

section Pieces

variable {s : State} {scan : Scan}

theorem Sound.goto (h : Sound s) {pc : Pc} (hpc : pc.Ok) : Sound (s.goto pc) where
  pc := hpc
  cache := h.cache

theorem Sound.answer (h : Sound s) (ret : Answer) : Sound (s.answer ret) where
  pc := trivial
  cache := h.cache

theorem Sound.check (h : Sound s) {desc : ShmPayloadDescriptor}
    {mapping : Mapping} (hmapping : mapping.Ok) :
    Sound (s.check desc mapping) := by
  unfold State.check
  split
  · rename_i hin
    exact h.goto (record_inside hmapping hin)
  · exact h.answer _

theorem Sound.fetchCopy (h : Sound s) {desc : ShmPayloadDescriptor}
    {mapping : Mapping} (hfits : RecordFits desc mapping) (buf : List UInt8) :
    Sound (s.fetchCopy desc mapping buf) := by
  unfold State.fetchCopy
  split
  · rename_i hlt
    exact h.goto ⟨hfits, hlt⟩
  · exact h.goto hfits

theorem Sound.overlapFrom (h : Sound s) (hscan : scan.Ok) (i : Nat) :
    Sound (s.overlapFrom scan i) := by
  unfold State.overlapFrom
  split
  · rename_i hi
    exact h.goto ⟨hscan, hi⟩
  · exact h.answer _

theorem Sound.scanFrom (h : Sound s) (hscan : scan.Ok) :
    Sound (s.scanFrom scan) := by
  unfold State.scanFrom
  split
  · rename_i hi
    exact h.goto ⟨hscan, hi⟩
  · split
    · exact h.overlapFrom hscan 0
    · exact h.answer _

theorem Sound.nextSlot (h : Sound s) (hscan : scan.Ok) :
    Sound (s.nextSlot scan) :=
  h.scanFrom hscan

theorem Sound.again (h : Sound s) (hscan : scan.Ok)
    (hi : scan.i < scan.slots.toNat) (retry : Nat) :
    Sound (s.again scan retry) := by
  unfold State.again
  split
  · exact h.goto ⟨hscan, hi⟩
  · exact h.nextSlot hscan

theorem Sound.scanCopy (h : Sound s) (hscan : scan.Ok)
    (hi : scan.i < scan.slots.toNat) (retry : Nat) (s1 : UInt32)
    {len : UInt32} (hlen : len.toNat ≤ TL_EMBED_CAP) (buf : List UInt8) :
    Sound (s.scanCopy scan retry s1 len buf) := by
  unfold State.scanCopy
  split
  · rename_i hlt
    exact h.goto ⟨hscan, hi, hlen, hlt⟩
  · exact h.goto ⟨hscan, hi, hlen⟩

/-- A fetch begins with a mapping that was validated, or with a file that has
room for a header. -/
theorem Sound.fetch (h : Sound s) (payload : List UInt8) (gone : Key → Bool)
    (opened : Option MappedFile) : Sound (s.fetch payload gone opened) := by
  unfold State.fetch
  split
  · exact h.answer _
  · dsimp only
    split
    · rename_i mapping hlookup
      obtain ⟨l, r, hcache, -⟩ := List.lookup_eq_some_iff.mp hlookup
      refine h.check
        (h.cache ((ShmPayloadDescriptor.ofBytes payload).key, mapping) ?_)
      rw [hcache]
      exact List.mem_append_right _ List.mem_cons_self
    · have hswept : Sound (if 8 ≤ s.cache.length then
          { s with cache := s.cache.filter fun e => !gone e.1 } else s) := by
        split
        · exact ⟨h.pc, fun e he => h.cache e (List.mem_of_mem_filter he)⟩
        · exact h
      split
      · exact hswept.answer _
      · rename_i m
        split
        · exact hswept.answer _
        · rename_i hsize
          refine hswept.goto ?_
          rw [UInt64.lt_iff_toNat_lt, Nat.not_lt] at hsize
          exact hsize

theorem Sound.pull (h : Sound s) (args : PullArgs) (maxRecords : Nat)
    (opened : Option MappedFile) : Sound (s.pull args maxRecords opened) := by
  unfold State.pull
  split
  · exact h.answer _
  · split
    · exact h.answer _
    · rename_i m
      split
      · exact h.answer _
      · rename_i hsize
        refine h.goto ?_
        rw [UInt64.lt_iff_toNat_lt, Nat.not_lt] at hsize
        exact hsize

end Pieces

/-! ## The step -/

/-- A reader that goes on with an unraised value has checked what it loads
next. -/
theorem Sound.resume {s : State} (h : Sound s) {l : Load}
    (hl : s.pc.load = some l) (hunraised : Unraised s .load) :
    Sound (s.resume (s.value l)) := by
  have hpc := h.pc
  cases hcase : s.pc <;> rw [hcase] at hl hpc <;>
    simp only [State.resume, hcase] <;> cases hl
  case mapMagic desc m | mapVersion desc m | mapRingBytes desc m =>
    split
    · exact h.goto hpc
    · exact h.answer _
  case mapSnapshot desc m =>
    simp only [Unraised, hcase] at hunraised
    have hok : Mapping.Ok ⟨m, UInt64.ofNat (s.value ⟨m, 8, 8⟩)⟩ :=
      MappedFile.ringBytes_le hpc hunraised
    refine Sound.check ⟨hpc, fun e he => ?_⟩ hok
    rcases List.mem_cons.mp he with rfl | hkept
    · exact hok
    · exact h.cache e (List.mem_of_mem_filter hkept)
  case fetchSeq desc mapping =>
    split
    · exact h.goto hpc
    · exact h.answer _
  case fetchLen desc mapping =>
    split
    · exact h.fetchCopy hpc []
    · exact h.answer _
  case fetchCopy desc mapping buf => exact h.fetchCopy hpc.1 _
  case fetchRecheck desc mapping buf => split <;> exact h.answer _
  case pullMagic args m =>
    split
    · exact h.goto hpc
    · exact h.answer _
  case pullVersion args m =>
    split
    · exact h.goto ⟨hpc, by decide⟩
    · exact h.answer _
  case pullGid args m buf =>
    split
    · rename_i hlt
      exact h.goto ⟨hpc.1, hlt⟩
    · split
      · exact h.goto hpc.1
      · exact h.answer _
  case pullSlotBytes args m | pullSlotsPositive args m | pullSlotsBound args m =>
    split
    · exact h.goto hpc
    · exact h.answer _
  case pullSlots args m =>
    simp only [Unraised, hcase] at hunraised
    exact h.scanFrom (slots_inside hpc hunraised)
  case scanSeq scan retry =>
    obtain ⟨hscan, hi⟩ := hpc
    split
    · exact h.nextSlot hscan
    · split
      · refine h.again ?_ ?_ retry
        · exact hscan
        · exact hi
      · exact h.goto ⟨hscan, hi⟩
  case scanLen scan retry s1 =>
    obtain ⟨hscan, hi⟩ := hpc
    split
    · exact h.again hscan hi retry
    · rename_i hlen
      rw [UInt32.lt_iff_toNat_lt, Nat.not_lt] at hlen
      exact h.scanCopy hscan hi retry s1 hlen []
  case scanCopy scan retry s1 len buf =>
    obtain ⟨hscan, hi, hlen, -⟩ := hpc
    exact h.scanCopy hscan hi retry s1 hlen _
  case scanRecheck scan retry s1 len buf =>
    obtain ⟨hscan, hi, -⟩ := hpc
    split
    · exact h.nextSlot hscan
    · exact h.again hscan hi retry
  case overlap scan i =>
    split
    · exact h.overlapFrom hpc.1 _
    · exact h.answer _

/-- The reader is sound and has stayed inside its mappings. -/
structure Inv (s : State) : Prop where
  sound : Sound s
  loads : ∀ l ∈ s.loads, l.Inside

theorem Inv.init (files : Nat → ByteMemory) : Inv (State.init files) where
  sound := ⟨trivial, nofun⟩
  loads := nofun

theorem State.fetch_loads (s : State) (payload : List UInt8)
    (gone : Key → Bool) (opened : Option MappedFile) :
    (s.fetch payload gone opened).loads = s.loads := by
  unfold State.fetch
  grind [State.answer, State.check, State.goto]

theorem State.pull_loads (s : State) (args : PullArgs) (maxRecords : Nat)
    (opened : Option MappedFile) :
    (s.pull args maxRecords opened).loads = s.loads := by
  unfold State.pull
  grind [State.answer, State.goto]

theorem Inv.step {s t : State} {a : Act} (h : Inv s) (hok : Unraised s a)
    (hstep : machine.step s a = some t) : Inv t := by
  cases a with
  | poke file addr b =>
    cases hstep
    exact ⟨⟨h.sound.pc, h.sound.cache⟩, h.loads⟩
  | fetch payload gone opened =>
    simp only [machine, Hostile.step] at hstep
    split at hstep
    · cases hstep
      refine ⟨h.sound.fetch payload gone opened, ?_⟩
      rw [State.fetch_loads]
      exact h.loads
    · cases hstep
  | pull args maxRecords opened =>
    simp only [machine, Hostile.step] at hstep
    split at hstep
    · cases hstep
      refine ⟨h.sound.pull args maxRecords opened, ?_⟩
      rw [State.pull_loads]
      exact h.loads
    · cases hstep
  | load =>
    obtain ⟨l, hl, rfl⟩ := Option.map_eq_some_iff.mp hstep
    have hresume := h.sound.resume hl hok
    refine ⟨⟨hresume.pc, hresume.cache⟩, fun k hk => ?_⟩
    rcases List.mem_cons.mp hk with rfl | hold
    · exact h.sound.pc.inside k hl
    · exact h.loads k hold

/-- In a run in which the two header fields pass their checks at the loads
that count, every load of a fetch and of a pull lies inside the mapped size of
its segment. -/
theorem loads_inside {files : Nat → ByteMemory} {t : State}
    (h : machine.Reach Unraised (State.init files) t) :
    ∀ l ∈ t.loads, l.Inside :=
  (h.invariant (Inv.init files) fun _ _ _ hinv hok hstep =>
    hinv.step hok hstep).loads

/-! ## Two files -/

/-- File 0 is a payload ring of 80 bytes with one record of one byte, file 1 a
latched ring with one slot. -/
def exampleFiles : Nat → ByteMemory
  | 0 => ByteMemory.ofBytes
    (ByteMemory.le32 Payload.SHM_RING_MAGIC ++
      ByteMemory.le32 Payload.SHM_RING_VERSION ++
      ByteMemory.le32 64 ++ ByteMemory.le32 0 ++
      ByteMemory.le32 2 ++ ByteMemory.le32 1 ++ [7])
  | 1 => ByteMemory.ofBytes
    (ByteMemory.le32 TL_RING_MAGIC ++ ByteMemory.le32 TL_RING_VERSION ++
      List.replicate 16 3 ++
      ByteMemory.le32 1 ++ ByteMemory.le32 tlSlotStride)
  | _ => fun _ => 0

/-- A descriptor of a record of one byte. -/
def exampleDescriptor (offset : Nat) : List UInt8 :=
  ByteMemory.le32 1 ++ ByteMemory.le32 0 ++
    ByteMemory.le32 offset ++ ByteMemory.le32 0 ++
    ByteMemory.le32 2 ++ ByteMemory.le32 1 ++
    ByteMemory.le32 5 ++ ByteMemory.le32 9

/-- The fetch of a record up to the snapshot of the capacity. -/
def fetchToSnapshot (offset : Nat) : List Act :=
  .fetch (exampleDescriptor offset) (fun _ => false) (some ⟨0, 80⟩) ::
    List.replicate 3 .load

/-- The pull of the latched ring up to the last load of `slots`. -/
def pullToSlots : List Act :=
  .pull ⟨List.replicate 16 3, true⟩ 8 (some ⟨1, 1152⟩) ::
    List.replicate 21 .load

set_option maxRecDepth 100000 in
/-- A fetch that returns its byte although the owner has raised `ring_bytes`
behind its back, and a pull of a ring that its owner overwrites. -/
theorem loads_inside_both : ∃ t,
    machine.Reach Unraised (State.init exampleFiles) t ∧
      t.ret = some (.pulled [] true) ∧ t.loads.length = 32 ∧
      ∀ l ∈ t.loads, l.Inside := by
  obtain ⟨t, hreach, hret, hlength⟩ :=
    Machine.exists_reach_of_guardedRun machine Unraised (State.init exampleFiles)
      (fetchToSnapshot 0 ++ [.load, .poke 0 8 255] ++ List.replicate 4 .load ++
        pullToSlots ++ [.load, .load, .poke 1 64 2, .load])
      (fun t => t.ret = some (.pulled [] true) ∧ t.loads.length = 32)
      (by decide +kernel)
  exact ⟨t, hreach, hret, hlength, loads_inside hreach⟩

set_option maxRecDepth 100000 in
/-- The owner raises `ring_bytes` from 64 to 128 between the two loads of
`map_segment`, and `slots` from 1 to 2 between two loads of `tl_ring_pull`.
Both readers go on behind the end of their mappings. -/
theorem loads_outside :
    (∃ t, machine.Reach (fun _ _ => True) (State.init exampleFiles) t ∧
      ∃ l ∈ t.loads, l.map.file = 0 ∧ ¬l.Inside) ∧
    ∃ t, machine.Reach (fun _ _ => True) (State.init exampleFiles) t ∧
      ∃ l ∈ t.loads, l.map.file = 1 ∧ ¬l.Inside := by
  constructor
  · exact Machine.exists_reach_of_guardedRun machine _ _
      (fetchToSnapshot 64 ++ [.poke 0 8 128, .load, .load])
      (fun t => ∃ l ∈ t.loads, l.map.file = 0 ∧ ¬l.Inside) (by decide +kernel)
  · exact Machine.exists_reach_of_guardedRun machine _ _
      (pullToSlots ++ [.poke 1 24 2, .load, .load, .load])
      (fun t => ∃ l ∈ t.loads, l.map.file = 1 ∧ ¬l.Inside) (by decide +kernel)

end RmwUnixSocket.Hostile
