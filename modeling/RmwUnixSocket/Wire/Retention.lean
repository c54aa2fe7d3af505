import RmwUnixSocket.Lib.BumpRing
import RmwUnixSocket.Hostile.Bounds
import RmwUnixSocket.Wire.Bounds

/-!
# How long a record stays in its ring

A ring has room for four records of the largest payload that was staged.  A record
is still lost to three further ones when the cursor wraps: what is left at the end
of the ring is skipped, so the records behind the wrap reach further than the sizes
say.

A `Staging` is one payload that goes into the ring: a reservation, the bytes, the
commit.  The spans of the records are those of `BumpRing`, with the reservation as
the need and the payload as the take.  `record_survives` says when a record keeps
its bytes.
-/

namespace RmwUnixSocket.Wire.Cursor

open ByteMemory BumpRing
open Payload (ShmRingWriter Segment recordBytes ringHeaderSize recordHeaderSize
  UINT32_MAX SHM_RECORD_ALIGN)
open Hostile (Mapping inBounds)

/-! ## Staging -/

/-- A payload with its reservation. -/
structure Staging where
  est : Nat
  payload : List UInt8
  io : SendIo

namespace Staging

/-- The sizes of a staging. -/
def sizes (g : Staging) : Nat × Nat := (g.est, g.payload.length)

end Staging

/-- What sizes ask of the ring and take of it. -/
def request (sizes : Nat × Nat) : Request where
  need := recordBytes sizes.1
  take := recordBytes sizes.2

/-- The payload fits its reservation, and the segment is large enough for the
reservation. -/
structure FitsSegment (ringBytes : Nat) (sizes : Nat × Nat) : Prop where
  written : sizes.2 ≤ sizes.1
  size : sizes.1 ≤ UINT32_MAX
  segment : recordBytes sizes.1 * 4 ≤ ringBytes

section Calls

variable (page : Nat) (pid : UInt32)

/-- `shm_stage_reserve`, the bytes of the payload, `shm_stage_commit`. -/
def stageRecord (c : Stage) (g : Staging) : Stage × Option Staged :=
  let reserved := c.reserve page pid g.io g.est
  if reserved.2 then (reserved.1.write g.payload).commit g.payload.length
  else (reserved.1, none)

/-- One payload after the other. -/
def stageAll (c : Stage) (gs : List Staging) : Stage :=
  gs.foldl (fun c g => (stageRecord page pid c g).1) c

end Calls

/-- The stores of one staging. -/
def storesAt (offset index : Nat) (payload : List UInt8) (mem : ByteMemory) :
    ByteMemory :=
  (((mem.storeBytes offset (leBytes 4 (2 * index - 1))).storeBytes
    (offset + recordHeaderSize) payload).storeBytes (offset + 4)
    (leBytes 4 payload.length)).storeBytes offset (leBytes 4 (2 * index))

section StoresAt

variable {offset index y : Nat} {payload : List UInt8} {mem : ByteMemory}

theorem storesAt_outside
    (h : y < offset ∨ offset + recordHeaderSize + payload.length ≤ y) :
    storesAt offset index payload mem y = mem y := by
  unfold storesAt
  simp only [recordHeaderSize] at h ⊢
  rw [storeBytes_of_not_hits, storeBytes_of_not_hits, storeBytes_of_not_hits,
    storeBytes_of_not_hits]
  all_goals
    simp only [Hits, length_leBytes]
    omega

theorem storesAt_seq :
    (storesAt offset index payload mem).loadLE offset 4 = 2 * index % 2 ^ 32 :=
  loadLE_store_leBytes 4 _

theorem storesAt_len :
    (storesAt offset index payload mem).loadLE (offset + 4) 4 =
      payload.length % 2 ^ 32 := by
  unfold storesAt
  rw [loadLE_storeBytes, loadLE_store_leBytes]
  simp only [Hits, length_leBytes]
  omega

theorem storesAt_payload :
    (storesAt offset index payload mem).slice (offset + recordHeaderSize)
      payload.length = payload :=
  slice_committed _ _ _ _ _ (length_leBytes 4 _) (length_leBytes 4 _)

/-- A byte of the payload, at its address. -/
theorem storesAt_byte {b : UInt8} (hall : ∀ v ∈ payload, v = b)
    (hlow : offset + recordHeaderSize ≤ y)
    (hhigh : y < offset + recordHeaderSize + payload.length) :
    storesAt offset index payload mem y = b := by
  unfold storesAt
  simp only [recordHeaderSize] at hlow hhigh ⊢
  rw [storeBytes_of_not_hits, storeBytes_of_not_hits, storeBytes, if_pos hlow]
  · rw [List.getD_eq_getElem _ _ (by omega)]
    exact hall _ (List.getElem_mem _)
  all_goals
    simp only [Hits, length_leBytes]
    omega

end StoresAt

/-- What one staging does to the segment that is there. -/
structure StagedAt (g : Staging) (c c' : Stage) : Prop where
  stays : c.Stays c'
  nextOffset : c'.sender.ring.nextOffset =
    next c.sender.ring.ringBytes c.sender.ring.nextOffset (request g.sizes)
  nextIndex : c'.sender.ring.nextIndex = c.sender.ring.nextIndex + 1
  area : c'.shm.area c.sender.object =
    storesAt (place c.sender.ring.ringBytes c.sender.ring.nextOffset (request g.sizes))
      c.sender.ring.nextIndex g.payload (c.shm.area c.sender.object)
  fileSize : (c'.shm.objects c.sender.object).fileSize =
    (c.shm.objects c.sender.object).fileSize
  header : (c'.shm.objects c.sender.object).header =
    (c.shm.objects c.sender.object).header

section Commit

variable {page : Nat} {pid : UInt32} {c : Stage} {g : Staging}

theorem wrap_nextOffset (ring : ShmRingWriter) (sizes : Nat × Nat) :
    (ring.wrap sizes.1).nextOffset =
      place ring.ringBytes ring.nextOffset (request sizes) := by
  unfold ShmRingWriter.wrap place request
  split <;> rfl

/-- The odd mark, the payload and the commit of a payload that fits. -/
theorem commit_stagedAt (c : Stage) (hwritten : g.payload.length ≤ g.est) :
    StagedAt g c (((c.mark g.est).write g.payload).commit g.payload.length).1 ∧
      (((c.mark g.est).write g.payload).commit g.payload.length).2 = some
        { desc :=
            ((c.mark g.est).sender.descriptor g.payload.length)
          object := c.sender.object
          area := (((c.mark g.est).write g.payload).commit
            g.payload.length).1.shm.area c.sender.object } := by
  have hcap : ¬((c.mark g.est).write g.payload).sender.ring.reservedCap <
      g.payload.length := Nat.not_lt.mpr hwritten
  have hstays : c.Stays
      (((c.mark g.est).write g.payload).commit g.payload.length).1 :=
    ((c.mark_stays g.est).trans (Stage.write_stays _ g.payload)).trans
      (Stage.commit_stays _ g.payload.length)
  have hoffset := wrap_nextOffset c.sender.ring g.sizes
  have hindex := wrap_nextIndex c.sender.ring g.est
  unfold Stage.commit at hstays ⊢
  rw [if_neg hcap] at hstays ⊢
  refine ⟨⟨hstays, ?_, ?_, ?_, ?_, ?_⟩, rfl⟩
  · show (c.sender.ring.wrap g.est).nextOffset + recordBytes g.payload.length = _
    rw [next, ← hoffset]
    rfl
  · show (c.sender.ring.wrap g.est).nextIndex + 1 = _
    rw [hindex]
  · simp only [Stage.mark, Stage.write, Shm.store_area_self, hindex]
    rw [storesAt, ← hoffset]
    rfl
  · exact store_objects.1.trans (store_objects.1.trans
      (store_objects.1.trans store_objects.1))
  · exact store_objects.2.trans (store_objects.2.trans
      (store_objects.2.trans store_objects.2))

/-- A staging into a segment that is large enough. -/
theorem stageRecord_eq (hmapped : c.sender.ring.mapped = true)
    (hfits : FitsSegment c.sender.ring.ringBytes g.sizes) :
    stageRecord page pid c g =
      ((c.mark g.est).write g.payload).commit g.payload.length := by
  have henough : c.sender.ring.needsSegment g.est = false := by
    have hsegment : recordBytes g.est * 4 ≤ c.sender.ring.ringBytes := hfits.segment
    simp only [ShmRingWriter.needsSegment, hmapped, Bool.or_eq_false_iff,
      decide_eq_false_iff_not, Nat.not_lt]
    exact ⟨rfl, hsegment⟩
  have hreserve : c.reserve page pid g.io g.est = (c.mark g.est, true) := by
    have hsize : ¬UINT32_MAX < g.est := Nat.not_lt.mpr hfits.size
    simp only [Stage.reserve, Stage.ensureSegment, henough, if_neg hsize]
    rfl
  unfold stageRecord
  rw [hreserve]
  rfl

theorem stageRecord_stagedAt (page : Nat) (pid : UInt32)
    (hmapped : c.sender.ring.mapped = true)
    (hfits : FitsSegment c.sender.ring.ringBytes g.sizes) :
    StagedAt g c (stageRecord page pid c g).1 := by
  rw [stageRecord_eq hmapped hfits]
  exact (commit_stagedAt c hfits.written).1

theorem stageRecord_isSome (page : Nat) (pid : UInt32)
    (hmapped : c.sender.ring.mapped = true)
    (hfits : FitsSegment c.sender.ring.ringBytes g.sizes) :
    ∃ st, (stageRecord page pid c g).2 = some st := by
  rw [stageRecord_eq hmapped hfits]
  exact ⟨_, (commit_stagedAt c hfits.written).2⟩

/-- What a list of stagings does to the segment that is there: it changes the bytes
of its spans. -/
structure StagedAll (gs : List Staging) (c c' : Stage) : Prop where
  stays : c.Stays c'
  nextOffset : c'.sender.ring.nextOffset = after c.sender.ring.ringBytes
    c.sender.ring.nextOffset (gs.map fun g => request g.sizes)
  nextIndex : c'.sender.ring.nextIndex = c.sender.ring.nextIndex + gs.length
  fileSize : (c'.shm.objects c.sender.object).fileSize =
    (c.shm.objects c.sender.object).fileSize
  header : (c'.shm.objects c.sender.object).header =
    (c.shm.objects c.sender.object).header
  outside : ∀ y, (∀ s ∈ spans c.sender.ring.ringBytes c.sender.ring.nextOffset
      (gs.map fun g => request g.sizes), y < s.1 ∨ s.1 + s.2 ≤ y) →
    c'.shm.area c.sender.object y = c.shm.area c.sender.object y

theorem stageAll_stagedAll (page : Nat) (pid : UInt32) {c : Stage} {gs : List Staging}
    (hmapped : c.sender.ring.mapped = true)
    (hfits : ∀ g ∈ gs, FitsSegment c.sender.ring.ringBytes g.sizes) :
    StagedAll gs c (stageAll page pid c gs) := by
  induction gs generalizing c with
  | nil => exact ⟨.refl c, rfl, rfl, rfl, rfl, fun _ _ => rfl⟩
  | cons g gs ih =>
    have hone := stageRecord_stagedAt page pid hmapped
      (hfits g List.mem_cons_self)
    have hrest := ih (c := (stageRecord page pid c g).1)
      (hone.stays.mapped.trans hmapped) (by
        rw [hone.stays.ringBytes]
        exact fun g' hg' => hfits g' (List.mem_cons_of_mem g hg'))
    have hobject := hone.stays.object
    have houtside := hrest.outside
    have hoffset := hrest.nextOffset
    have hfile := hrest.fileSize
    have hheader := hrest.header
    rw [hobject] at houtside hfile hheader
    rw [hone.stays.ringBytes, hone.nextOffset] at houtside hoffset
    refine ⟨hone.stays.trans hrest.stays, hoffset, ?_, hfile.trans hone.fileSize,
      hheader.trans hone.header, fun y hy => ?_⟩
    · rw [List.length_cons, stageAll, List.foldl_cons, ← stageAll, hrest.nextIndex,
        hone.nextIndex]
      omega
    · rw [List.map_cons, spans] at hy
      have hhead := hy _ List.mem_cons_self
      have hsize := le_recordBytes g.payload.length
      refine (houtside y fun s hs => hy s (List.mem_cons_of_mem _ hs)).trans ?_
      rw [hone.area]
      apply storesAt_outside
      dsimp only [request, Staging.sizes] at hhead ⊢
      omega

end Commit

/-! ## A record that was committed last -/

/-- The record is the last one that was committed to the ring. -/
structure Committed (st : Staged) (payload : List UInt8) (c : Stage) : Prop where
  sound : ∃ w, Sound w c
  mapped : c.sender.ring.mapped = true
  object : st.object = c.sender.object
  area : st.area = c.shm.area c.sender.object
  key : st.desc.key = c.sender.key
  aligned : st.desc.offset.toNat % SHM_RECORD_ALIGN = 0
  cursor : st.desc.offset.toNat + recordBytes payload.length = c.sender.ring.nextOffset
  index : 2 ≤ c.sender.ring.nextIndex
  seq : st.desc.seq.toNat = 2 * (c.sender.ring.nextIndex - 1) % 2 ^ 32
  size : st.desc.payloadSize.toNat = payload.length
  word : st.area.loadLE st.desc.offset.toNat 4 = st.desc.seq.toNat
  len : st.area.loadLE (st.desc.offset.toNat + 4) 4 = payload.length
  bytes : st.area.slice (st.desc.offset.toNat + recordHeaderSize) payload.length =
    payload

section First

variable {page : UInt64} {pid : UInt32} {w : RingWords} {c : Stage} {g : Staging}
  {st : Staged}

theorem stageRecord_committed (hpage : PageSize page) (h : Sound w c)
    (hst : (stageRecord page.toNat pid c g).2 = some st) :
    Committed st g.payload (stageRecord page.toNat pid c g).1 := by
  obtain ⟨-, hret, -⟩ | ⟨hn, hret, hmark, -⟩ :=
    reserve_cases page.toNat pid g.io g.est c
  · have hnone : (stageRecord page.toNat pid c g).2 = none := by
      simp only [stageRecord, hret]
      rfl
    rw [hnone] at hst
    cases hst
  have hest : (UInt64.ofNat g.est).toNat = g.est := by
    simp only [UINT32_MAX] at hn
    rw [UInt64.toNat_ofNat']
    exact Nat.mod_eq_of_lt (by omega)
  obtain ⟨hsound, -, hreserved⟩ := h.reserve hpage pid g.io (UInt64.ofNat g.est)
  rw [hest] at hsound hreserved
  have hres := hreserved hret
  have hcalls : stageRecord page.toNat pid c g =
      (((c.reserve page.toNat pid g.io g.est).1.write g.payload).commit
        g.payload.length) := if_pos hret
  rw [hmark] at hcalls hsound hres
  generalize hensured : (c.ensureSegment page.toNat pid g.io g.est).1 = e at *
  have hwritten : g.payload.length ≤ g.est := by
    by_contra hover
    have hcap : ((e.mark g.est).write g.payload).sender.ring.reservedCap <
        g.payload.length := Nat.not_le.mp hover
    rw [hcalls, Stage.commit, if_pos hcap] at hst
    cases hst
  have hlen : (UInt64.ofNat g.payload.length).toNat = g.payload.length := by
    simp only [UINT32_MAX] at hn
    rw [UInt64.toNat_ofNat']
    exact Nat.mod_eq_of_lt (by omega)
  obtain ⟨hplaced, hrecord⟩ := commit_stagedAt e hwritten
  have hsound' := (hsound.write g.payload).commit (n := UInt64.ofNat g.payload.length)
    (hres.write hwritten)
  rw [hlen] at hsound'
  rw [hcalls] at hst ⊢
  rw [hrecord] at hst
  cases hst
  have hmarked := hsound.cursor_lt
  have hindex : 0 < (e.mark g.est).sender.ring.nextIndex := hsound.index
  have hplace : (e.mark g.est).sender.ring.nextOffset =
      place e.sender.ring.ringBytes e.sender.ring.nextOffset (request g.sizes) :=
    wrap_nextOffset e.sender.ring g.sizes
  have hsame : (e.mark g.est).sender.ring.nextIndex = e.sender.ring.nextIndex :=
    wrap_nextIndex e.sender.ring g.est
  have hoffset : (UInt64.ofNat (e.mark g.est).sender.ring.nextOffset).toNat =
      place e.sender.ring.ringBytes e.sender.ring.nextOffset (request g.sizes) := by
    rw [UInt64.toNat_ofNat', Nat.mod_eq_of_lt (by omega), hplace]
  have hseq : (UInt32.ofNat (2 * (e.mark g.est).sender.ring.nextIndex)).toNat =
      2 * e.sender.ring.nextIndex % 2 ^ 32 := by
    rw [UInt32.toNat_ofNat', hsame]
  have hkey : ((e.mark g.est).sender.descriptor g.payload.length).key =
      (e.mark g.est).sender.key := rfl
  have hlt : g.payload.length < 2 ^ 32 := by
    simp only [UINT32_MAX] at hn
    omega
  exact
    { sound := ⟨_, hsound'⟩
      mapped := hplaced.stays.mapped.trans
        ((e.mark_stays g.est).mapped.symm.trans hres.mapped)
      object := hplaced.stays.object.symm
      area := by rw [hplaced.stays.object]
      key := hkey.trans ((e.mark_stays g.est).key.trans hplaced.stays.key.symm)
      aligned := by
        show (UInt64.ofNat _).toNat % SHM_RECORD_ALIGN = 0
        rw [hoffset, ← hplace]
        exact hsound.aligned
      cursor := by
        show (UInt64.ofNat _).toNat + recordBytes g.payload.length = _
        rw [hoffset, hplaced.nextOffset]
        rfl
      index := by
        rw [hplaced.nextIndex, ← hsame]
        omega
      seq := by
        show (UInt32.ofNat _).toNat = _
        rw [hseq, hplaced.nextIndex, Nat.add_sub_cancel]
      size := by
        show (UInt32.ofNat _).toNat = _
        rw [UInt32.toNat_ofNat', Nat.mod_eq_of_lt hlt]
      word := by
        show ByteMemory.loadLE _ (UInt64.ofNat _).toNat 4 = (UInt32.ofNat _).toNat
        rw [hoffset, hseq, hplaced.area, storesAt_seq]
      len := by
        show ByteMemory.loadLE _ ((UInt64.ofNat _).toNat + 4) 4 = _
        rw [hoffset, hplaced.area, storesAt_len, Nat.mod_eq_of_lt hlt]
      bytes := by
        show ByteMemory.slice _ ((UInt64.ofNat _).toNat + recordHeaderSize) _ = _
        rw [hoffset, hplaced.area, storesAt_payload] }

end First

/-! ## Reading it back -/

/-- What `map_segment` keeps for the segment of a record. -/
def mappingOf (shm : Shm) (o : Nat) : Mapping where
  base := ⟨o, UInt64.ofNat (shm.objects o).fileSize⟩
  ringBytes := UInt64.ofNat (shm.objects o).header.ringBytes

/-- The record has its header and its payload, and a reader that has its segment
mapped, or has yet to map it, gets the payload. -/
structure Survives (st : Staged) (payload : List UInt8) (c : Stage) : Prop where
  bytes : (c.shm.area st.object).slice st.desc.offset.toNat
      (recordHeaderSize + payload.length) =
    st.area.slice st.desc.offset.toNat (recordHeaderSize + payload.length)
  fetched : ∀ cache : Cache, cache.lookup st.desc.key = none ∨
      cache.lookup st.desc.key = some (mappingOf c.shm st.object) →
    (shmFetchPayload c.shm true cache st.desc.toBytes).2 = some payload

section Fetch

variable {st : Staged} {payload : List UInt8} {c c' : Stage}

theorem mapSegment_of_linked {shm : Shm} {cache : Cache}
    {desc : Hostile.ShmPayloadDescriptor} {o : Nat}
    (hlinked : shm.linked desc.key = some o) (hvalid : (shm.objects o).valid = true)
    (hcache : cache.lookup desc.key = none ∨
      cache.lookup desc.key = some (mappingOf shm o)) :
    (mapSegment shm true cache desc).2 = some (mappingOf shm o) := by
  unfold mapSegment
  obtain hmiss | hhit := hcache
  · simp only [hmiss, hlinked, hvalid, Bool.and_true, if_true]
    rfl
  · simp only [hhit]

/-- A record whose bytes are those of its commit is read back. -/
theorem Committed.survives (h : Committed st payload c) (hstays : c.Stays c')
    (hfile : (c'.shm.objects c.sender.object).fileSize =
      (c.shm.objects c.sender.object).fileSize)
    (hheader : (c'.shm.objects c.sender.object).header =
      (c.shm.objects c.sender.object).header)
    (hbytes : ∀ y, st.desc.offset.toNat ≤ y →
      y < st.desc.offset.toNat + recordHeaderSize + payload.length →
      c'.shm.area c.sender.object y = c.shm.area c.sender.object y) :
    Survives st payload c' := by
  obtain ⟨w, hsound⟩ := h.sound
  have hfileSize := hfile.trans (hsound.fileSize h.mapped)
  have hringHeader := hheader.trans (hsound.header h.mapped)
  have hcapacity := hsound.capacity
  have hbound := hsound.bound
  have hcursor := h.cursor
  have hrecord := le_recordBytes payload.length
  have hsame : ∀ y, st.desc.offset.toNat ≤ y →
      y < st.desc.offset.toNat + recordHeaderSize + payload.length →
      c'.shm.area st.object y = st.area y := by
    intro y hlow hhigh
    rw [h.object, h.area]
    exact hbytes y hlow hhigh
  refine ⟨slice_congr fun j hj => hsame _ (by omega) (by omega), fun cache hcache => ?_⟩
  have hlinked : c'.shm.linked st.desc.key = some st.object := by
    rw [hstays.linked, h.key, h.object]
    exact hsound.named h.mapped
  have hvalid : (c'.shm.objects st.object).valid = true := by
    rw [h.object]
    simp [Segment.valid, hfileSize, hringHeader, Segment.created]
  have hin : inBounds (mappingOf c'.shm st.object) st.desc = true := by
    have hring : (UInt64.ofNat c.sender.ring.ringBytes).toNat =
        c.sender.ring.ringBytes := by
      rw [UInt64.toNat_ofNat', Nat.mod_eq_of_lt (by omega)]
    rw [Hostile.inBounds_eq, mappingOf, h.object, hringHeader]
    simp only [Payload.inBounds, Segment.created, hring, h.size, h.aligned,
      Bool.and_eq_true, decide_eq_true_eq]
    exact ⟨⟨trivial, by omega⟩, by omega⟩
  have hword : (c'.shm.area st.object).loadLE st.desc.offset.toNat 4 =
      st.desc.seq.toNat := by
    rw [← h.word]
    simp only [recordHeaderSize] at hsame
    exact loadLE_congr fun j hj => hsame _ (by omega) (by omega)
  have hlen : (c'.shm.area st.object).loadLE (st.desc.offset.toNat + 4) 4 =
      st.desc.payloadSize.toNat := by
    rw [h.size]
    refine Eq.trans ?_ h.len
    simp only [recordHeaderSize] at hsame
    exact loadLE_congr fun j hj => hsame _ (by omega) (by omega)
  unfold shmFetchPayload
  rw [if_neg (not_not.mpr st.desc.length_toBytes),
    Hostile.ShmPayloadDescriptor.ofBytes_toBytes]
  simp only [mapSegment_of_linked hlinked hvalid hcache]
  rw [if_pos ⟨hin, hword, hlen⟩, h.size]
  refine congrArg some (Eq.trans ?_ h.bytes)
  exact slice_congr fun j hj => hsame _ (by omega) (by omega)

end Fetch

/-! ## Further records -/

section Further

variable {page : Nat} {pid : UInt32} {st : Staged} {payload : List UInt8} {c : Stage}
  {gs : List Staging} {sizes : List (Nat × Nat)}

/-- What the further records need, as bounds on their requests. -/
theorem bounded_of_fits {ringBytes : Nat} (sizes : List (Nat × Nat)) (hthree : sizes.length ≤ 3)
    (hfits : ∀ z ∈ sizes, FitsSegment ringBytes z) :
    Bounded (ringBytes / 4) (sizes.map request) ∧
      ringBytes / 4 * (sizes.map request).length ≤ ringBytes := by
  constructor
  · intro g hg
    obtain ⟨z, hz, rfl⟩ := List.mem_map.mp hg
    have hsegment := (hfits z hz).segment
    refine ⟨recordBytes_mono (hfits z hz).written, ?_⟩
    show recordBytes z.1 ≤ ringBytes / 4
    omega
  · rw [List.length_map]
    calc ringBytes / 4 * sizes.length ≤ ringBytes / 4 * 4 :=
          Nat.mul_le_mul_left _ (by omega)
      _ ≤ ringBytes := Nat.div_mul_le_self _ _

theorem request_aligned {z : Nat × Nat} : (request z).take % SHM_RECORD_ALIGN = 0 :=
  recordBytes_aligned _

/-- The answer is yes: no further record touches the first one. -/
theorem Committed.survives_of_retains (h : Committed st payload c)
    (hthree : gs.length ≤ 3)
    (hfits : ∀ g ∈ gs, FitsSegment c.sender.ring.ringBytes g.sizes)
    (hretains : retains c.sender.ring.ringBytes st.desc.offset.toNat
      c.sender.ring.nextOffset (gs.map fun g => request g.sizes) = true) :
    Survives st payload (stageAll page pid c gs) := by
  have hall := stageAll_stagedAll page pid h.mapped hfits
  have hrequests : (gs.map Staging.sizes).map request =
      gs.map fun g => request g.sizes := List.map_map
  obtain ⟨hbounded, hroom⟩ := bounded_of_fits (gs.map Staging.sizes)
    (by rwa [List.length_map]) fun z hz => by
      obtain ⟨g, hg, rfl⟩ := List.mem_map.mp hz
      exact hfits g hg
  rw [hrequests] at hbounded hroom
  refine h.survives hall.stays hall.fileSize hall.header fun y hlow hhigh => ?_
  refine hall.outside y fun s hs => ?_
  have hrecord := le_recordBytes payload.length
  have hcursor := h.cursor
  have havoids := avoids_of_retains hbounded hroom
    (e := st.desc.offset.toNat + recordBytes payload.length) h.cursor.le hretains s hs
  omega

theorem loadLE_mod (mem : ByteMemory) (a n : Nat) :
    mem.loadLE a (n + 1) % 2 ^ 8 = (mem a).toNat := by
  have hlt := (mem a).toNat_lt
  rw [loadLE]
  omega

/-- A staging that covers the first byte of a record changes its word `seq`: the
record gets the word of a later index, or a byte that is not its own. -/
theorem StagedAt.covers {g : Staging} {c' : Stage} {o seq index : Nat} {b : UInt8}
    (h : StagedAt g c c') (haligned : o % SHM_RECORD_ALIGN = 0)
    (hcursor : c.sender.ring.nextOffset % SHM_RECORD_ALIGN = 0)
    (hle : place c.sender.ring.ringBytes c.sender.ring.nextOffset (request g.sizes) ≤ o)
    (hlt : o < c'.sender.ring.nextOffset) (hseq : seq = 2 * index % 2 ^ 32)
    (hlater : index < c.sender.ring.nextIndex)
    (hsoon : c.sender.ring.nextIndex < index + 4) (hbyte : b.toNat ≠ seq % 2 ^ 8)
    (hall : ∀ v ∈ g.payload, v = b) :
    (c'.shm.area c.sender.object).loadLE o 4 ≠ seq := by
  have hplace : place c.sender.ring.ringBytes c.sender.ring.nextOffset
      (request g.sizes) % SHM_RECORD_ALIGN = 0 := place_aligned hcursor
  have hrecord := recordBytes_lt g.payload.length
  have hmultiple := recordBytes_aligned g.payload.length
  rw [h.nextOffset, next] at hlt
  rw [h.area]
  dsimp only [request, Staging.sizes] at *
  generalize place c.sender.ring.ringBytes c.sender.ring.nextOffset
    ⟨recordBytes g.est, recordBytes g.payload.length⟩ = q at *
  obtain rfl | hbefore := Nat.eq_or_lt_of_le hle
  · rw [storesAt_seq, hseq]
    omega
  · intro heq
    have hlow := loadLE_mod (storesAt q c.sender.ring.nextIndex g.payload
      (c.shm.area c.sender.object)) o 3
    simp only [SHM_RECORD_ALIGN, recordHeaderSize] at *
    rw [heq, storesAt_byte hall (by simp only [recordHeaderSize]; omega)
      (by simp only [recordHeaderSize]; omega)] at hlow
    exact hbyte hlow.symm

theorem requests_aligned (gs : List Staging) :
    ∀ r ∈ gs.map fun g => request g.sizes, r.take % SHM_RECORD_ALIGN = 0 := by
  intro r hr
  obtain ⟨g, -, rfl⟩ := List.mem_map.mp hr
  exact request_aligned

theorem Committed.nextOffset_aligned (h : Committed st payload c) :
    c.sender.ring.nextOffset % SHM_RECORD_ALIGN = 0 := by
  have hcursor := h.cursor
  have hrecord := recordBytes_aligned payload.length
  have hoffset := h.aligned
  simp only [SHM_RECORD_ALIGN] at *
  omega

/-- Stagings, one that covers the first byte of the record, and stagings behind
it. -/
theorem Committed.not_survives (h : Committed st payload c) {c₁ c₂ c₃ : Stage}
    {gs₁ gs₂ : List Staging} {g : Staging} {b : UInt8} (hbefore : StagedAll gs₁ c c₁)
    (hone : StagedAt g c₁ c₂) (hlast : StagedAll gs₂ c₂ c₃) (htwo : gs₁.length ≤ 2)
    (hplace : place c₁.sender.ring.ringBytes c₁.sender.ring.nextOffset
      (request g.sizes) ≤ st.desc.offset.toNat)
    (hover : st.desc.offset.toNat < c₂.sender.ring.nextOffset)
    (hbehind : ∀ s ∈ spans c₂.sender.ring.ringBytes c₂.sender.ring.nextOffset
      (gs₂.map fun g => request g.sizes), st.desc.offset.toNat < s.1)
    (hbyte : b.toNat ≠ st.desc.seq.toNat % 2 ^ 8) (hall : ∀ v ∈ g.payload, v = b) :
    ¬Survives st payload c₃ := by
  intro hsurvives
  have hindex := h.index
  have haligned : c₁.sender.ring.nextOffset % SHM_RECORD_ALIGN = 0 := by
    rw [hbefore.nextOffset]
    exact after_aligned h.nextOffset_aligned (requests_aligned gs₁)
  have hcovered := hone.covers h.aligned haligned hplace hover h.seq
    (by rw [hbefore.nextIndex]; omega) (by rw [hbefore.nextIndex]; omega) hbyte hall
  have hobject : st.object = c₁.sender.object := by
    rw [h.object, hbefore.stays.object]
  -- What comes behind leaves the word alone.
  have hnext : c₂.sender.ring.nextOffset % SHM_RECORD_ALIGN = 0 := by
    rw [hone.nextOffset]
    exact next_aligned haligned request_aligned
  have hword : (c₃.shm.area st.object).loadLE st.desc.offset.toNat 4 =
      (c₂.shm.area st.object).loadLE st.desc.offset.toNat 4 := by
    refine loadLE_congr fun j hj => ?_
    rw [hobject, ← hone.stays.object]
    refine hlast.outside _ fun s hs => .inl ?_
    have hstart := hbehind s hs
    have hmultiple := spans_aligned hnext (requests_aligned gs₂) s hs
    have hoffset := h.aligned
    simp only [SHM_RECORD_ALIGN] at hmultiple hoffset
    omega
  have hkept : (c₃.shm.area st.object).loadLE st.desc.offset.toNat 4 =
      st.area.loadLE st.desc.offset.toNat 4 := by
    have hbytes := List.map_inj_left.mp hsurvives.bytes
    refine loadLE_congr fun j hj => hbytes j (List.mem_range.mpr ?_)
    simp only [recordHeaderSize]
    omega
  rw [hobject] at hword hkept
  exact hcovered (hword.symm.trans (hkept.trans h.word))

/-- The answer is no: a further record covers the first one. -/
theorem Committed.lost (h : Committed st payload c) (gs : List Staging)
    (hthree : gs.length ≤ 3)
    (hfits : ∀ g ∈ gs, FitsSegment c.sender.ring.ringBytes g.sizes) {b : UInt8}
    (hbyte : b.toNat ≠ st.desc.seq.toNat % 2 ^ 8)
    (hall : ∀ g ∈ gs, ∀ v ∈ g.payload, v = b)
    (hretains : retains c.sender.ring.ringBytes st.desc.offset.toNat
      c.sender.ring.nextOffset (gs.map fun g => request g.sizes) = false) :
    ¬Survives st payload (stageAll page pid c gs) := by
  have hrequests : (gs.map Staging.sizes).map request =
      gs.map fun g => request g.sizes := List.map_map
  obtain ⟨hbounded, hroom⟩ := bounded_of_fits (gs.map Staging.sizes)
    (by rwa [List.length_map]) fun z hz => by
      obtain ⟨g, hg, rfl⟩ := List.mem_map.mp hz
      exact hfits g hg
  rw [hrequests] at hbounded hroom
  obtain ⟨before, r, behind, hsplit, hplace, hover, hbehind⟩ :=
    exists_covering hbounded hroom hretains
  obtain ⟨gs₁, gs', rfl, rfl, hrest⟩ := List.map_eq_append_iff.mp hsplit
  obtain ⟨g, gs₂, rfl, rfl, rfl⟩ := List.map_eq_cons_iff.mp hrest
  -- The stagings before the one that covers the record.
  have hbefore := @stageAll_stagedAll page pid _ gs₁ h.mapped
    fun g' hg' => hfits g' (List.mem_append_left _ hg')
  -- The one that covers it.
  have hg : FitsSegment (stageAll page pid c gs₁).sender.ring.ringBytes g.sizes := by
    rw [hbefore.stays.ringBytes]
    exact hfits g (List.mem_append_right _ List.mem_cons_self)
  have hone := stageRecord_stagedAt page pid
    (hbefore.stays.mapped.trans h.mapped) hg
  -- Those behind it.
  have hlast := @stageAll_stagedAll page pid
    (stageRecord page pid (stageAll page pid c gs₁) g).1 gs₂
    (hone.stays.mapped.trans (hbefore.stays.mapped.trans h.mapped)) (by
      rw [hone.stays.ringBytes, hbefore.stays.ringBytes]
      exact fun g' hg' => hfits g' (List.mem_append_right _
        (List.mem_cons_of_mem g hg')))
  have hcalls : stageAll page pid c (gs₁ ++ g :: gs₂) =
      stageAll page pid (stageRecord page pid (stageAll page pid c gs₁) g).1 gs₂ :=
    List.foldl_append
  have hoffset : (stageRecord page pid (stageAll page pid c gs₁) g).1.sender.ring.nextOffset =
      after c.sender.ring.ringBytes c.sender.ring.nextOffset
        ((gs₁.map fun g => request g.sizes) ++ [request g.sizes]) := by
    rw [after_append, hone.nextOffset, hbefore.stays.ringBytes, hbefore.nextOffset]
  have htwo : gs₁.length ≤ 2 := by
    rw [List.length_append, List.length_cons] at hthree
    omega
  rw [hcalls]
  refine h.not_survives hbefore hone hlast htwo ?_ ?_ ?_ hbyte
    (hall g (List.mem_append_right _ List.mem_cons_self))
  · rw [hbefore.stays.ringBytes, hbefore.nextOffset]
    exact hplace
  · rw [hoffset]
    exact hover
  · rw [hone.stays.ringBytes, hbefore.stays.ringBytes, hoffset]
    exact hbehind

end Further

/-! ## The four records -/

section FourRecords

variable {page : UInt64} {pid : UInt32} {shm : Shm} {counter : UInt32} {s : State}
  {first : Staging} {st : Staged}

/-- A byte that is not the low byte of a word. -/
theorem exists_other_byte (seq : UInt32) : ∃ b : UInt8, b.toNat ≠ seq.toNat % 2 ^ 8 := by
  by_cases hzero : seq.toNat % 2 ^ 8 = 0
  · exact ⟨1, by rw [hzero]; decide⟩
  · exact ⟨0, fun h => hzero h.symm⟩

/-- A payload of one byte repeated. -/
def Staging.filled (b : UInt8) (sizes : Nat × Nat) : Staging where
  est := sizes.1
  payload := List.replicate sizes.2 b
  io := { clock := 0, creation := .created, written := true, junk := [] }

theorem Staging.sizes_filled (b : UInt8) (z : Nat × Nat) : (filled b z).sizes = z := by
  simp [filled, Staging.sizes]

theorem Staging.map_sizes_filled (b : UInt8) (sizes : List (Nat × Nat)) :
    (sizes.map (filled b)).map Staging.sizes = sizes := by
  rw [List.map_map]
  exact (List.map_congr_left fun z _ => sizes_filled b z).trans (List.map_id sizes)

theorem map_request {gs : List Staging} {sizes : List (Nat × Nat)}
    (h : gs.map Staging.sizes = sizes) :
    (gs.map fun g => request g.sizes) = sizes.map request := by
  rw [← h, List.map_map]
  rfl

/-- A record is followed by three further ones at most, of given sizes, which go
into the same segment.  It survives them, whatever they hold, exactly if none of
them wraps the cursor, or those from the first one that wraps on take at most the
room in front of the record. -/
theorem record_survives (hpage : PageSize page)
    (h : (machine page pid).Reach (fun _ _ => True) (.init shm counter) s)
    (hfirst : (stageRecord page.toNat pid s.stage first).2 = some st)
    {sizes : List (Nat × Nat)} (hthree : sizes.length ≤ 3)
    (hfits : ∀ z ∈ sizes, FitsSegment
      (stageRecord page.toNat pid s.stage first).1.sender.ring.ringBytes z) :
    (∀ further : List Staging, further.map Staging.sizes = sizes →
        Survives st first.payload
          (stageAll page.toNat pid (stageRecord page.toNat pid s.stage first).1
            further)) ↔
      retains (stageRecord page.toNat pid s.stage first).1.sender.ring.ringBytes
        st.desc.offset.toNat
        (stageRecord page.toNat pid s.stage first).1.sender.ring.nextOffset
        (sizes.map request) = true := by
  have hcommitted := stageRecord_committed hpage (inv_of_reach hpage h).sound hfirst
  constructor
  · intro hsurvives
    by_contra hretains
    rw [Bool.not_eq_true] at hretains
    -- Payloads of a byte that the word of the record does not have.
    obtain ⟨b, hb⟩ := exists_other_byte st.desc.seq
    have hsizes := Staging.map_sizes_filled b sizes
    refine hcommitted.lost (sizes.map (.filled b)) ?_ (fun g hg => ?_) hb
      (fun g hg v hv => ?_) ?_ (hsurvives _ hsizes)
    · rwa [List.length_map]
    · exact hfits _ (hsizes ▸ List.mem_map_of_mem hg)
    · obtain ⟨z, -, rfl⟩ := List.mem_map.mp hg
      exact (List.mem_replicate.mp hv).2
    · rw [map_request hsizes]
      exact hretains
  · intro hretains further hsizes
    refine hcommitted.survives_of_retains ?_ (fun g hg => ?_) ?_
    · rwa [← hsizes, List.length_map] at hthree
    · exact hfits _ (hsizes ▸ List.mem_map_of_mem hg)
    · rw [map_request hsizes]
      exact hretains

/-- Two small payloads behind another one, in a new ring. -/
theorem record_survives_small : ∃ st,
    (stageRecord 4096 7
        (State.init { objects := fun _ => .created 0, next := 0, linked := fun _ => none }
          1).stage (.filled 5 (100, 70))).2 = some st ∧
      ∀ further : List Staging, further.map Staging.sizes = [(80, 60), (300, 200)] →
        Survives st (List.replicate 70 5)
          (stageAll 4096 7 (stageRecord 4096 7
            (State.init { objects := fun _ => .created 0, next := 0,
                          linked := fun _ => none } 1).stage
            (.filled 5 (100, 70))).1 further) := by
  let s := State.init { objects := fun _ => .created 0, next := 0,
                        linked := fun _ => none } 1
  obtain ⟨st, hst⟩ : ∃ st,
      (stageRecord 4096 7 s.stage (.filled 5 (100, 70))).2 = some st :=
    Option.isSome_iff_exists.mp (by decide +kernel)
  have hring :
      (stageRecord 4096 7 s.stage (.filled 5 (100, 70))).1.sender.ring.ringBytes =
        1048576 := by decide +kernel
  have hcursor :
      (stageRecord 4096 7 s.stage (.filled 5 (100, 70))).1.sender.ring.nextOffset =
        128 := by decide +kernel
  refine ⟨st, hst, ?_⟩
  refine (@record_survives 4096 7 _ 1 s _ st ⟨12, by decide, rfl⟩ .refl hst
    [(80, 60), (300, 200)] (by decide) (fun z hz => ?_)).mpr ?_
  · have hfits : FitsSegment 1048576 (80, 60) ∧ FitsSegment 1048576 (300, 200) :=
      ⟨⟨by decide, by decide, by decide⟩, by decide, by decide, by decide⟩
    obtain rfl | rfl : z = (80, 60) ∨ z = (300, 200) := by simpa using hz
    · exact hring.symm ▸ hfits.1
    · exact hring.symm ▸ hfits.2
  · show retains (stageRecord 4096 7 s.stage _).1.sender.ring.ringBytes _
      (stageRecord 4096 7 s.stage _).1.sender.ring.nextOffset _ = true
    rw [hring, hcursor]
    rfl

/-- In a ring of 1 MiB, payloads of 262136, 262136 and 65536 bytes leave the cursor at
589888.  Another payload of 262136 bytes goes there, and of the next three the first
one wraps and the third one runs over it. -/
theorem fourth_record_lost : ∃ s first st further,
    (machine 4096 7).Reach (fun _ _ => True)
        (.init { objects := fun _ => .created 0, next := 0, linked := fun _ => none } 1)
        s ∧
      (stageRecord 4096 7 s.stage first).2 = some st ∧ further.length = 3 ∧
      (∀ g ∈ further, FitsSegment
        (stageRecord 4096 7 s.stage first).1.sender.ring.ringBytes g.sizes) ∧
      ¬Survives st first.payload
        (stageAll 4096 7 (stageRecord 4096 7 s.stage first).1 further) := by
  let io : SendIo := { clock := 0, creation := .created, written := true, junk := [] }
  obtain ⟨s, hreach, hmapped, hring, hoffset, hindex⟩ :=
    Machine.exists_reach_of_guardedRun (machine 4096 7) (fun _ _ => True)
      (.init { objects := fun _ => .created 0, next := 0, linked := fun _ => none } 1)
      [.reserve 262136 io, .commit 262136, .reserve 262136 io, .commit 262136,
        .reserve 65536 io, .commit 65536]
      (fun s => s.ring.mapped = true ∧ s.ring.ringBytes = 1048576 ∧
        s.ring.nextOffset = 589888 ∧ s.ring.nextIndex = 4) (by decide +kernel)
  have hfits : ∀ g ∈ List.replicate 3 (Staging.filled 0 (262136, 262136)),
      FitsSegment 1048576 g.sizes := by
    intro g hg
    rw [(List.mem_replicate.mp hg).2, Staging.sizes_filled]
    exact ⟨by decide, by decide, by decide⟩
  have hfits₁ := hfits _ (List.mem_replicate.mpr ⟨by decide, rfl⟩)
  rw [← hring] at hfits₁
  have hpage : PageSize 4096 := ⟨12, by decide, rfl⟩
  obtain ⟨st, hst⟩ := stageRecord_isSome 4096 7 hmapped hfits₁
  have hplaced := stageRecord_stagedAt 4096 7 hmapped hfits₁
  have hcommitted := stageRecord_committed hpage (inv_of_reach hpage hreach).sound hst
  have hring₁ := hplaced.stays.ringBytes.trans hring
  have hcursor : (stageRecord 4096 7 s.stage
      (.filled 0 (262136, 262136))).1.sender.ring.nextOffset = 852032 := by
    rw [hplaced.nextOffset, hring, hoffset, Staging.sizes_filled]
    decide
  have hstart : st.desc.offset.toNat = 589888 := by
    have hend := hcommitted.cursor
    have hlength : (Staging.filled 0 (262136, 262136)).payload.length = 262136 :=
      List.length_replicate
    have hspan : recordBytes 262136 = 262144 := by decide
    rw [hlength, hspan] at hend
    exact Nat.add_right_cancel (hend.trans hcursor)
  have hseq : st.desc.seq.toNat = 8 := by
    have hnext : (stageRecord 4096 7 s.stage
        (.filled 0 (262136, 262136))).1.sender.ring.nextIndex = 5 := by
      rw [hplaced.nextIndex, hindex]
    rw [hcommitted.seq]
    exact (congrArg (fun n => 2 * (n - 1) % 2 ^ 32) hnext).trans (by decide)
  have hfits₂ : ∀ g ∈ List.replicate 3 (Staging.filled 0 (262136, 262136)),
      FitsSegment (stageRecord 4096 7 s.stage
        (.filled 0 (262136, 262136))).1.sender.ring.ringBytes g.sizes := by
    intro g hg
    rw [hring₁]
    exact hfits g hg
  refine ⟨s, _, st, _, hreach, hst, List.length_replicate, hfits₂, ?_⟩
  refine hcommitted.lost _ (by rw [List.length_replicate]) hfits₂ (b := 0) ?_
    (fun g hg v hv => ?_) ?_
  · rw [hseq]
    decide
  · rw [(List.mem_replicate.mp hg).2] at hv
    exact (List.mem_replicate.mp hv).2
  · rw [hstart, @map_request (List.replicate 3 _) _
      (Staging.map_sizes_filled 0 (List.replicate 3 (262136, 262136)))]
    show retains (stageRecord 4096 7 s.stage
        (.filled 0 (262136, 262136))).1.sender.ring.ringBytes 589888
      (stageRecord 4096 7 s.stage
        (.filled 0 (262136, 262136))).1.sender.ring.nextOffset
      ((List.replicate 3 (262136, 262136)).map request) = false
    rw [hring₁, hcursor]
    decide

end FourRecords

end RmwUnixSocket.Wire.Cursor
