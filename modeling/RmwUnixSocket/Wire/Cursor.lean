import RmwUnixSocket.Lib.Alignment
import RmwUnixSocket.Wire.Staging

/-!
# The cursor of a payload ring

`shm_stage_reserve`, `shm_stage_commit` and `shm_stage_abort` in any order, with
the fixed-width fields that the code computes with.

* `RingWords` are the fields of `ShmRingWriter` as words, and its functions do
  what the code does with them.  They run beside the calls of `Stage`, which
  count in natural numbers.  `RingWords.Represents` says that the words are the
  numbers, so no size has overflowed.
* `before` is a ghost.  It is set while there is a reservation, and keeps the
  bytes that the record area had before the odd mark.
* `committed` are the records whose descriptors were returned.
* A write of the caller stays inside its reservation.  A caller that says at the
  commit that it wrote more is refused.
-/

namespace RmwUnixSocket.Wire.Cursor

open ByteMemory Alignment
open Payload (ShmRingWriter Segment recordBytes ringHeaderSize recordHeaderSize
  UINT32_MAX SHM_RECORD_ALIGN SHM_RING_MIN_BYTES)
open Hostile (Key)

/-! ## The sizes as words -/

/-- `record_bytes`. -/
def recordBytesWord (payloadSize : UInt64) : UInt64 :=
  roundUpWord (8 + payloadSize) 64

/-- The record area that a new segment gets. -/
def newAreaWord (page maxPayloadSize : UInt64) : UInt64 :=
  let area := recordBytesWord maxPayloadSize * 4
  roundUpWord (if area < 1048576 then 1048576 else area) page

/-- The fields of `ShmRingWriter`. -/
structure RingWords where
  mapped : Bool
  ringBytes : UInt64
  segmentId : UInt64
  nextOffset : UInt64
  nextIndex : UInt32
  reservedCap : UInt64

namespace RingWords

/-- A writer that has staged nothing. -/
def fresh : RingWords where
  mapped := false
  ringBytes := 0
  segmentId := 0
  nextOffset := 0
  nextIndex := 1
  reservedCap := 0

variable (w : RingWords)

/-- The test of `shm_stage_reserve` for a new segment. -/
def needsSegment (maxPayloadSize : UInt64) : Bool :=
  !w.mapped || decide (w.ringBytes < recordBytesWord maxPayloadSize * 4)

/-- `create_segment`.  `off_t` is signed, so `posix_fallocate` refuses a file of
2^63 bytes. -/
def createSegment (area : UInt64) (creation : Creation) : RingWords × Bool :=
  if creation = .created ∧ 16 + area < 9223372036854775808 then
    ({ w with
        mapped := true, ringBytes := area, segmentId := w.segmentId + 1,
        nextOffset := 0 },
      true)
  else (w, false)

/-- A new segment if one is needed. -/
def ensureSegment (page maxPayloadSize : UInt64) (creation : Creation) :
    RingWords × Bool :=
  if w.needsSegment maxPayloadSize then
    w.createSegment (newAreaWord page maxPayloadSize) creation
  else (w, true)

/-- A record never straddles the end of the ring. -/
def wrap (maxPayloadSize : UInt64) : RingWords :=
  if w.ringBytes < w.nextOffset + recordBytesWord maxPayloadSize then
    { w with nextOffset := 0 }
  else w

/-- `shm_stage_reserve`. -/
def reserve (page maxPayloadSize : UInt64) (creation : Creation) :
    RingWords × Bool :=
  if 4294967295 < maxPayloadSize then (w, false)
  else
    let ensured := w.ensureSegment page maxPayloadSize creation
    if ensured.2 then
      ({ ensured.1.wrap maxPayloadSize with reservedCap := maxPayloadSize }, true)
    else (ensured.1, false)

/-- `shm_stage_abort`. -/
def abort : RingWords :=
  { w with reservedCap := 0 }

/-- `shm_stage_commit`. -/
def commit (payloadSize : UInt64) : RingWords × Bool :=
  if w.reservedCap < payloadSize then (w.abort, false)
  else
    ({ w with
        reservedCap := 0, nextOffset := w.nextOffset + recordBytesWord payloadSize,
        nextIndex := w.nextIndex + 1 },
      true)

/-- The words are the numbers of the ring. -/
structure Represents (w : RingWords) (ring : ShmRingWriter) : Prop where
  mapped : w.mapped = ring.mapped
  ringBytes : w.ringBytes.toNat = ring.ringBytes
  segmentId : w.segmentId = UInt64.ofNat ring.segmentId
  nextOffset : w.nextOffset.toNat = ring.nextOffset
  nextIndex : w.nextIndex = UInt32.ofNat ring.nextIndex
  reservedCap : w.reservedCap.toNat = ring.reservedCap

end RingWords

/-! ## The machine -/

/-- A ring, its words, and the two ghosts. -/
structure State where
  stage : Stage
  words : RingWords
  before : Option ByteMemory
  committed : List Staged

/-- A call of the writer, or a write into the reservation. -/
inductive Act
  | reserve (maxPayloadSize : UInt64) (io : SendIo)
  | write (bytes : List UInt8)
  | commit (payloadSize : UInt64)
  | abort

namespace State

variable (s : State)

/-- The ring. -/
abbrev ring : ShmRingWriter := s.stage.sender.ring

/-- The object of the segment. -/
abbrev segment : Segment := s.stage.shm.objects s.stage.sender.object

/-- The bytes of the segment. -/
abbrev area : ByteMemory := s.stage.shm.area s.stage.sender.object

/-- A ring that has staged nothing. -/
def init (shm : Shm) (counter : UInt32) : State where
  stage := { shm, counter, sender := .fresh }
  words := .fresh
  before := none
  committed := []

end State

/-- One call.  A commit and an abort end a reservation. -/
def step (page : UInt64) (pid : UInt32) (s : State) : Act → Option State
  | .reserve maxPayloadSize io =>
    let n := maxPayloadSize.toNat
    let ensured := (s.stage.ensureSegment page.toNat pid io n).1
    let reserved := s.stage.reserve page.toNat pid io n
    some { s with
      stage := reserved.1
      words := (s.words.reserve page maxPayloadSize io.creation).1
      before :=
        if reserved.2 then some (ensured.shm.area ensured.sender.object)
        else s.before }
  | .write bytes =>
    if s.before.isSome ∧ bytes.length ≤ s.ring.reservedCap then
      some { s with stage := s.stage.write bytes }
    else none
  | .commit payloadSize =>
    if s.before.isSome then
      let done := s.stage.commit payloadSize.toNat
      some
        { stage := done.1, words := (s.words.commit payloadSize).1, before := none,
          committed := s.committed ++ done.2.toList }
    else none
  | .abort =>
    if s.before.isSome then
      some { s with
        stage := s.stage.abort, words := s.words.abort, before := none }
    else none

/-- The calls on one ring as a machine. -/
def machine (page : UInt64) (pid : UInt32) : Machine State Act where
  step := step page pid

/-! ## Sizes -/

/-- A page size: a power of two that leaves room for a file. -/
def PageSize (page : UInt64) : Prop :=
  ∃ k ≤ 62, page.toNat = 2 ^ k

section Sizes

variable {page n : UInt64}

theorem le_recordBytes (size : Nat) : recordHeaderSize + size ≤ recordBytes size :=
  le_roundUp (by decide)

theorem recordBytes_lt (size : Nat) :
    recordBytes size < recordHeaderSize + size + SHM_RECORD_ALIGN :=
  roundUp_lt (by decide)

theorem recordBytes_mono {size size' : Nat} (h : size ≤ size') :
    recordBytes size ≤ recordBytes size' :=
  roundUp_mono (Nat.add_le_add_left h _)

theorem recordBytes_aligned (size : Nat) :
    recordBytes size % SHM_RECORD_ALIGN = 0 :=
  roundUp_mod _ _

theorem le_newArea {page : Nat} (hpage : 0 < page) (size : Nat) :
    recordBytes size * 4 ≤ ShmRingWriter.newArea page size :=
  Nat.le_trans (Nat.le_max_left _ _) (le_roundUp hpage)

theorem PageSize.pos (hpage : PageSize page) : 0 < page.toNat := by
  obtain ⟨k, -, hk⟩ := hpage
  rw [hk]
  exact Nat.two_pow_pos k

theorem PageSize.le (hpage : PageSize page) : page.toNat ≤ 2 ^ 62 := by
  obtain ⟨k, hle, hk⟩ := hpage
  rw [hk]
  exact Nat.pow_le_pow_right (by decide) hle

/-- What a reservation of `n` bytes computes, as numbers: every sum and product
is below the bound of its type. -/
structure Fits (page : Nat) (ring : ShmRingWriter) (n : Nat) : Prop where
  record : recordHeaderSize + n + SHM_RECORD_ALIGN < 2 ^ 64
  four : recordBytes n * 4 < 2 ^ 64
  area : max (recordBytes n * 4) SHM_RING_MIN_BYTES + page < 2 ^ 64
  file : ringHeaderSize + ShmRingWriter.newArea page n < 2 ^ 63
  cursor : ring.nextOffset + recordBytes n < 2 ^ 64

theorem fits_of_le (hpage : PageSize page) {ring : ShmRingWriter}
    (hcursor : ring.nextOffset < 2 ^ 63) {n : Nat} (hn : n ≤ UINT32_MAX) :
    Fits page.toNat ring n := by
  have hrecord := recordBytes_lt n
  have hle := hpage.le
  have harea : ShmRingWriter.newArea page.toNat n <
      max (recordBytes n * 4) SHM_RING_MIN_BYTES + page.toNat :=
    roundUp_lt hpage.pos
  have hbytes : recordHeaderSize = 8 ∧ ringHeaderSize = 16 ∧
      SHM_RECORD_ALIGN = 64 ∧ SHM_RING_MIN_BYTES = 2 ^ 20 ∧
      UINT32_MAX = 2 ^ 32 - 1 := ⟨rfl, rfl, rfl, rfl, rfl⟩
  constructor <;> omega

theorem toNat_recordBytesWord (hn : n.toNat ≤ UINT32_MAX) :
    (recordBytesWord n).toNat = recordBytes n.toNat := by
  simp only [UINT32_MAX] at hn
  have hsum : (8 + n).toNat = 8 + n.toNat := by
    rw [UInt64.toNat_add]
    exact Nat.mod_eq_of_lt (by simp only [UInt64.reduceToNat]; omega)
  have hround := toNat_roundUpWord (8 + n) 64 (k := 6) rfl (by
    rw [hsum]
    simp only [UInt64.reduceToNat]
    omega)
  rw [recordBytesWord, hround, hsum]
  rfl

/-- `record_bytes * 4`. -/
theorem toNat_recordBytesWord_mul (hn : n.toNat ≤ UINT32_MAX) :
    (recordBytesWord n * 4).toNat = recordBytes n.toNat * 4 := by
  have hrecord := recordBytes_lt n.toNat
  rw [UInt64.toNat_mul, toNat_recordBytesWord hn]
  simp only [UINT32_MAX, recordHeaderSize, SHM_RECORD_ALIGN] at hn hrecord
  exact Nat.mod_eq_of_lt (by simp only [UInt64.reduceToNat]; omega)

theorem toNat_newAreaWord (hpage : PageSize page) (hn : n.toNat ≤ UINT32_MAX) :
    (newAreaWord page n).toNat = ShmRingWriter.newArea page.toNat n.toNat := by
  have hfits := (@fits_of_le _ hpage .fresh (by decide) _ hn).area
  obtain ⟨k, -, hk⟩ := hpage
  have hfour := toNat_recordBytesWord_mul hn
  have hmax : (if recordBytesWord n * 4 < 1048576 then 1048576
      else recordBytesWord n * 4).toNat =
        max (recordBytes n.toNat * 4) SHM_RING_MIN_BYTES := by
    have hmin : (1048576 : UInt64).toNat = SHM_RING_MIN_BYTES := rfl
    split
    · rename_i hlt
      rw [UInt64.lt_iff_toNat_lt, hfour, hmin] at hlt
      rw [hmin]
      omega
    · rename_i hge
      rw [UInt64.lt_iff_toNat_lt, hfour, hmin] at hge
      rw [hfour]
      omega
  rw [newAreaWord, toNat_roundUpWord _ _ hk (by rw [hmax]; exact hfits), hmax]
  rfl

end Sizes

/-! ## The words beside the numbers -/

namespace RingWords.Represents

variable {w : RingWords} {ring : ShmRingWriter} {page n : UInt64}

theorem needsSegment (h : w.Represents ring) (hn : n.toNat ≤ UINT32_MAX) :
    w.needsSegment n = ring.needsSegment n.toNat := by
  simp only [RingWords.needsSegment, ShmRingWriter.needsSegment, h.mapped,
    UInt64.lt_iff_toNat_lt, h.ringBytes, toNat_recordBytesWord_mul hn]

theorem cursor (h : w.Represents ring) (hn : n.toNat ≤ UINT32_MAX)
    (hfits : ring.nextOffset + recordBytes n.toNat < 2 ^ 64) :
    (w.nextOffset + recordBytesWord n).toNat =
      ring.nextOffset + recordBytes n.toNat := by
  rw [UInt64.toNat_add, toNat_recordBytesWord hn, h.nextOffset]
  exact Nat.mod_eq_of_lt hfits

theorem wrap (h : w.Represents ring) (hn : n.toNat ≤ UINT32_MAX)
    (hfits : ring.nextOffset + recordBytes n.toNat < 2 ^ 64) :
    (w.wrap n).Represents (ring.wrap n.toNat) := by
  have htest : w.ringBytes < w.nextOffset + recordBytesWord n ↔
      ring.ringBytes < ring.nextOffset + recordBytes n.toNat := by
    rw [UInt64.lt_iff_toNat_lt, h.cursor hn hfits, h.ringBytes]
  unfold RingWords.wrap ShmRingWriter.wrap
  by_cases hwraps : ring.ringBytes < ring.nextOffset + recordBytes n.toNat
  · rw [if_pos hwraps, if_pos (htest.mpr hwraps)]
    exact { h with nextOffset := rfl }
  · rw [if_neg hwraps, if_neg (mt htest.mp hwraps)]
    exact h

theorem reserved (h : w.Represents ring) :
    { w with reservedCap := n }.Represents
      { ring with reservedCap := n.toNat } :=
  { h with reservedCap := rfl }

/-- The words of a new segment: the test of the file size is the test of the
numbers. -/
theorem createSegment (h : w.Represents ring) (hpage : PageSize page)
    (hn : n.toNat ≤ UINT32_MAX) (creation : Creation) :
    (w.createSegment (newAreaWord page n) creation).2 =
        decide (creation = .created) ∧
      (creation = .created →
        (w.createSegment (newAreaWord page n) creation).1.Represents
          (ring.createSegment (ShmRingWriter.newArea page.toNat n.toNat))) ∧
      (creation ≠ .created →
        (w.createSegment (newAreaWord page n) creation).1 = w) := by
  have hfile := (@fits_of_le _ hpage .fresh (by decide) _ hn).file
  have harea := toNat_newAreaWord hpage hn
  have htotal : 16 + newAreaWord page n < 9223372036854775808 := by
    simp only [ringHeaderSize] at hfile
    rw [UInt64.lt_iff_toNat_lt, UInt64.toNat_add, harea]
    simp only [UInt64.reduceToNat]
    rw [Nat.mod_eq_of_lt (by omega)]
    exact hfile
  unfold RingWords.createSegment
  by_cases hcreated : creation = .created
  · rw [if_pos ⟨hcreated, htotal⟩]
    refine ⟨by simp [hcreated], fun _ => ?_, fun hne => absurd hcreated hne⟩
    refine ⟨rfl, harea, ?_, rfl, h.nextIndex, h.reservedCap⟩
    simp only [ShmRingWriter.createSegment, h.segmentId]
    exact (UInt64.ofNat_add _ _).symm
  · rw [if_neg (fun hboth => hcreated hboth.1)]
    exact ⟨by simp [hcreated], fun hc => absurd hc hcreated, fun _ => rfl⟩

theorem abort (h : w.Represents ring) :
    w.abort.Represents { ring with reservedCap := 0 } :=
  { h with reservedCap := rfl }

theorem advance (h : w.Represents ring) (hn : n.toNat ≤ UINT32_MAX)
    (hfits : ring.nextOffset + recordBytes n.toNat < 2 ^ 64) :
    { w with
      reservedCap := 0, nextOffset := w.nextOffset + recordBytesWord n,
      nextIndex := w.nextIndex + 1 }.Represents
      ({ ring with reservedCap := 0 }.advance n.toNat) := by
  refine ⟨h.mapped, h.ringBytes, h.segmentId, h.cursor hn hfits, ?_, rfl⟩
  simp only [ShmRingWriter.advance, h.nextIndex]
  exact (UInt32.ofNat_add _ _).symm

end RingWords.Represents

/-! ## What a reservation does -/

section Reserve

variable {page : Nat} {pid : UInt32} {io : SendIo} {c c' : Stage} {n : Nat}

/-- A call that leaves the ring and the bytes of every object as they were. -/
structure Kept (c c' : Stage) : Prop where
  ring : c'.sender.ring = c.sender.ring
  object : c'.sender.object = c.sender.object
  objects : c'.shm.objects = c.shm.objects
  ok : c.sender.Ok → c'.sender.Ok
  named : c.sender.Ok → c.sender.ring.mapped = true →
    c.shm.linked c.sender.key = some c.sender.object →
    c'.shm.linked c'.sender.key = some c'.sender.object

/-- The ring has a new segment. -/
structure Opened (area : Nat) (c c' : Stage) : Prop where
  ring : c'.sender.ring = c.sender.ring.createSegment area
  segment : c'.shm.objects c'.sender.object = .created area
  owned : c'.sender.ownerPid.isSome = true
  named : c'.shm.linked c'.sender.key = some c'.sender.object

theorem Kept.refl (c : Stage) : Kept c c :=
  ⟨rfl, rfl, rfl, id, fun _ _ h => h⟩

theorem assignOwner_owned : (c.assignOwner pid io).sender.ownerPid.isSome = true := by
  unfold Stage.assignOwner
  split
  · rfl
  · rename_i hsome
    rw [Option.isNone_iff_eq_none] at hsome
    exact Option.ne_none_iff_isSome.mp hsome

theorem assignOwner_object :
    (c.assignOwner pid io).sender.object = c.sender.object := by
  unfold Stage.assignOwner
  split <;> rfl

theorem assignOwner_of_owned (h : c.sender.ownerPid.isSome = true) :
    c.assignOwner pid io = c := by
  unfold Stage.assignOwner
  rw [if_neg]
  rw [Option.isNone_iff_eq_none]
  exact Option.ne_none_iff_isSome.mpr h

/-- The next generation has another name. -/
theorem key_ne_newKey (w : Sender) :
    w.keyOf w.ring.segmentId ≠ w.keyOf (w.ring.segmentId + 1) := by
  intro heq
  have hid : UInt64.ofNat w.ring.segmentId =
      UInt64.ofNat (w.ring.segmentId + 1) := congrArg Key.segmentId heq
  rw [← UInt64.toNat_inj, UInt64.toNat_ofNat', UInt64.toNat_ofNat'] at hid
  omega

/-- A creation leaves the other names alone. -/
theorem tryCreate_linked {shm : Shm} {key key' : Key} {area : Nat}
    {creation : Creation} (h : key' ≠ key) :
    (shm.tryCreate key area creation).1.linked key' = shm.linked key' := by
  cases creation with
  | created =>
    simp only [Shm.tryCreate]
    split <;> simp [Shm.create, Shm.unlink, h]
  | refused opened =>
    cases opened <;> simp [Shm.tryCreate, Shm.unlink, h]

/-- `create_segment` makes a segment, or it leaves the ring with the one that it
has. -/
theorem createSegment_cases (pid : UInt32) (io : SendIo) (c : Stage) (area : Nat) :
    ((io.creation = .created ∧ ringHeaderSize + area < 2 ^ 63) ∧
        (c.createSegment pid io area).2 = true ∧
        Opened area c (c.createSegment pid io area).1) ∨
      (¬(io.creation = .created ∧ ringHeaderSize + area < 2 ^ 63) ∧
        (c.createSegment pid io area).2 = false ∧
        Kept c (c.createSegment pid io area).1) := by
  obtain ⟨hcreated, hfits, hmade⟩ | ⟨hnone, hlinked, hobjects, -⟩ :=
    Shm.tryCreate_cases (c.assignOwner pid io).shm (c.newKey pid io) area io.creation
  · refine .inl ⟨⟨hcreated, hfits⟩, ?_⟩
    unfold Stage.createSegment
    simp only [hmade]
    have hnew : (c.assignOwner pid io).sender.key ≠ c.newKey pid io := by
      rw [Sender.key, Stage.newKey, ← @Stage.assignOwner_ring pid io c]
      exact key_ne_newKey _
    refine ⟨trivial, ?_, ?_, assignOwner_owned, ?_⟩
    · simp only [Stage.assignOwner_ring]
    · split <;> simp [Shm.unlink, Shm.create]
    · have hkey : Sender.key
          { (c.assignOwner pid io).sender with
            ring := (c.assignOwner pid io).sender.ring.createSegment area
            object := (c.assignOwner pid io).shm.next } = c.newKey pid io := by
        simp only [Sender.key, Stage.newKey, ShmRingWriter.createSegment,
          Stage.assignOwner_ring]
        rfl
      rw [hkey]
      split
      · simp [Shm.unlink, hnew.symm]
      · simp
  · have hrefused : ¬(io.creation = .created ∧ ringHeaderSize + area < 2 ^ 63) := by
      rintro ⟨hcreated, hfits⟩
      rw [hcreated, Shm.tryCreate, if_pos hfits] at hnone
      cases hnone
    refine .inr ⟨hrefused, ?_⟩
    unfold Stage.createSegment
    simp only [hnone]
    refine ⟨trivial, Stage.assignOwner_ring c, assignOwner_object, ?_, ?_, ?_⟩
    · rw [hobjects, Stage.assignOwner_shm]
    · intro hok
      refine ⟨?_, fun _ => assignOwner_owned⟩
      rw [Stage.assignOwner_ring]
      exact hok.bound
    · intro hok hmapped hnamed
      have hsame : c.assignOwner pid io = c :=
        assignOwner_of_owned (hok.owned hmapped)
      have hne : c.sender.key ≠ c.newKey pid io := by
        rw [Stage.newKey, hsame]
        exact key_ne_newKey _
      rw [hsame, tryCreate_linked hne]
      exact hnamed

/-- A reservation fails and leaves the ring alone, or it marks a record of the
segment that is there, or of a new one. -/
theorem reserve_cases (page : Nat) (pid : UInt32) (io : SendIo) (n : Nat) (c : Stage) :
    ((UINT32_MAX < n ∨ c.sender.ring.needsSegment n = true ∧
          ¬(io.creation = .created ∧
            ringHeaderSize + ShmRingWriter.newArea page n < 2 ^ 63)) ∧
        (c.reserve page pid io n).2 = false ∧
        Kept c (c.reserve page pid io n).1) ∨
      n ≤ UINT32_MAX ∧ (c.reserve page pid io n).2 = true ∧
        (c.reserve page pid io n).1 =
          (c.ensureSegment page pid io n).1.mark n ∧
        (c.sender.ring.needsSegment n = false ∧
            (c.ensureSegment page pid io n).1 = c ∨
          c.sender.ring.needsSegment n = true ∧ io.creation = .created ∧
            Opened (ShmRingWriter.newArea page n) c
              (c.ensureSegment page pid io n).1) := by
  unfold Stage.reserve Stage.ensureSegment
  by_cases hsize : UINT32_MAX < n
  · rw [if_pos hsize]
    exact .inl ⟨.inl hsize, rfl, .refl c⟩
  · rw [if_neg hsize]
    by_cases hneeds : c.sender.ring.needsSegment n = true
    · simp only [hneeds, if_true]
      obtain ⟨hmade, hret, hopened⟩ | ⟨hrefused, hret, hkept⟩ :=
        createSegment_cases pid io c
          (ShmRingWriter.newArea page n)
      · rw [hret]
        exact .inr ⟨Nat.not_lt.mp hsize, rfl, rfl, .inr ⟨trivial, hmade.1, hopened⟩⟩
      · rw [hret]
        exact .inl ⟨.inr ⟨trivial, hrefused⟩, rfl, hkept⟩
    · simp only [hneeds]
      exact .inr ⟨Nat.not_lt.mp hsize, rfl, rfl, .inl ⟨trivial, rfl⟩⟩

end Reserve

end RmwUnixSocket.Wire.Cursor
