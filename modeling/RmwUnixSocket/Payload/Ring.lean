import RmwUnixSocket.Lib.ByteMemory
import RmwUnixSocket.Lib.Machine

/-!
# The payload ring

The ring of one sender in `shm_transport.cpp`: `shm_stage_reserve`,
`shm_stage_commit`, `shm_stage_abort` and `shm_writer_close` on the side of
the writer, `map_segment` and `shm_fetch_payload` on the side of a reader.
A step is one store to the segment, one load from it, or one call that opens
or removes a segment.

* A segment is its `ShmRingHeader` and the record area behind it.  Offsets
  are offsets into the record area.
* `segs` keeps a segment after its name is gone, for the readers that have
  mapped it.
* `nextIndex` counts the records.  The 32-bit words that the code derives
  from it are `le32 (2 * nextIndex - 1)` and `le32 (2 * nextIndex)`.
* Between the odd mark and the commit the bytes of the payload may reach the
  memory in any order: `put` stores any byte of the reservation.
* The domain, the owner's pid and the owner's counter are fixed for one ring,
  so a segment name is its number.

`records` is a ghost.  It keeps every committed descriptor with the bytes that
its record had at the commit, and with what has been stored over its `seq`
word since (`Cover`).
-/

namespace RmwUnixSocket.Payload

open ByteMemory

/-! ## Sizes -/

/-- Alignment of the records. -/
def SHM_RECORD_ALIGN : Nat := 64

/-- Lower bound for the record area of a segment. -/
def SHM_RING_MIN_BYTES : Nat := 1024 * 1024

def SHM_RING_MAGIC : Nat := 0x52534455

def SHM_RING_VERSION : Nat := 1

def UINT32_MAX : Nat := 2 ^ 32 - 1

/-- `sizeof(ShmRingHeader)`. -/
def ringHeaderSize : Nat := 16

/-- `sizeof(ShmRecordHeader)`. -/
def recordHeaderSize : Nat := 8

/-- Rounds up to a multiple of `a`, which is a power of two in the source. -/
def alignUp (v a : Nat) : Nat :=
  (v + a - 1) / a * a

/-- The span of a record. -/
def recordBytes (payloadSize : Nat) : Nat :=
  alignUp (recordHeaderSize + payloadSize) SHM_RECORD_ALIGN

/-! ## Segments and descriptors -/

/-- The first bytes of a segment. -/
structure ShmRingHeader where
  magic : Nat
  version : Nat
  ringBytes : Nat
  deriving DecidableEq

/-- A segment: the size of its file, its header, and its record area. -/
structure Segment where
  fileSize : Nat
  header : ShmRingHeader
  area : ByteMemory

/-- The segment that `create_segment` maps. -/
def Segment.created (ringBytes : Nat) : Segment where
  fileSize := ringHeaderSize + ringBytes
  header :=
    { magic := SHM_RING_MAGIC, version := SHM_RING_VERSION,
      ringBytes := ringBytes }
  area := fun _ => 0

/-- The descriptor of a record. -/
structure ShmPayloadDescriptor where
  segmentId : Nat
  offset : Nat
  seq : Nat
  payloadSize : Nat
  deriving DecidableEq

/-! ## The writer -/

/-- The process-local state of the writer.  `mapped` is `base != nullptr`. -/
structure ShmRingWriter where
  mapped : Bool
  ringBytes : Nat
  segmentId : Nat
  nextOffset : Nat
  nextIndex : Nat
  reservedCap : Nat

namespace ShmRingWriter

/-- A writer that has staged nothing. -/
def fresh : ShmRingWriter where
  mapped := false
  ringBytes := 0
  segmentId := 0
  nextOffset := 0
  nextIndex := 1
  reservedCap := 0

variable (ring : ShmRingWriter)

/-- The record area that a new segment gets. -/
def newArea (page maxPayloadSize : Nat) : Nat :=
  alignUp (max (recordBytes maxPayloadSize * 4) SHM_RING_MIN_BYTES) page

/-- The test of `shm_stage_reserve` for a new segment. -/
def needsSegment (maxPayloadSize : Nat) : Bool :=
  !ring.mapped || decide (ring.ringBytes < recordBytes maxPayloadSize * 4)

/-- `create_segment` succeeds: the old segment is closed, and the cursor is at
the start of the new one. -/
def createSegment (area : Nat) : ShmRingWriter :=
  { ring with
    mapped := true, ringBytes := area, segmentId := ring.segmentId + 1,
    nextOffset := 0 }

/-- A record never straddles the end of the ring. -/
def wrap (maxPayloadSize : Nat) : ShmRingWriter :=
  if ring.ringBytes < ring.nextOffset + recordBytes maxPayloadSize then
    { ring with nextOffset := 0 }
  else ring

/-- The cursor after a commit. -/
def advance (payloadSize : Nat) : ShmRingWriter :=
  { ring with
    nextOffset := ring.nextOffset + recordBytes payloadSize,
    nextIndex := ring.nextIndex + 1 }

/-- `shm_writer_close`. -/
def close : ShmRingWriter :=
  { ring with mapped := false, ringBytes := 0, nextOffset := 0 }

/-- The descriptor of the record at the cursor. -/
def descriptor (payloadSize : Nat) : ShmPayloadDescriptor where
  segmentId := ring.segmentId
  offset := ring.nextOffset
  seq := 2 * ring.nextIndex % 2 ^ 32
  payloadSize := payloadSize

end ShmRingWriter

/-- Where the writer is: outside a reservation, before the odd mark, inside
the reservation, or between the two stores of the commit. -/
inductive WriterPc
  | idle
  | mark (cap : Nat)
  | fill
  | stable (payloadSize : Nat)
  deriving DecidableEq

/-! ## The reader -/

/-- A cached mapping.  `ringBytes` is the capacity at map time. -/
structure Mapping where
  size : Nat
  ringBytes : Nat

/-- The cache of a subscription: its mappings of this ring by segment number,
and the number of its mappings of other rings. -/
structure ShmReaderCache where
  mappings : List (Nat × Mapping)
  others : Nat

/-- The validation of a segment that was opened. -/
def Segment.valid (seg : Segment) : Bool :=
  decide (ringHeaderSize ≤ seg.fileSize) &&
    decide (seg.header.magic = SHM_RING_MAGIC) &&
    decide (seg.header.version = SHM_RING_VERSION) &&
    decide (seg.header.ringBytes ≤ seg.fileSize - ringHeaderSize)

/-- `map_segment`.  `linked` is the segment behind a name that exists, and
`mmapOk` is the outcome of `mmap`. -/
def mapSegment (linked : Nat → Option Segment) (mmapOk : Bool)
    (cache : ShmReaderCache) (segmentId : Nat) :
    ShmReaderCache × Option Mapping :=
  match cache.mappings.lookup segmentId with
  | some mapping => (cache, some mapping)
  | none =>
    -- The sweep of the mappings whose names are gone.
    let swept :=
      if 8 ≤ cache.mappings.length + cache.others then
        { cache with
          mappings := cache.mappings.filter fun e => (linked e.1).isSome }
      else cache
    match linked segmentId with
    | none => (swept, none)
    | some seg =>
      if seg.valid && mmapOk then
        let mapping : Mapping :=
          { size := seg.fileSize, ringBytes := seg.header.ringBytes }
        -- A new segment supersedes the older ones of the same ring.
        ({ swept with mappings := [(segmentId, mapping)] }, some mapping)
      else (swept, none)

/-- The bounds check of `shm_fetch_payload`. -/
def inBounds (mapping : Mapping) (desc : ShmPayloadDescriptor) : Bool :=
  decide (desc.offset % SHM_RECORD_ALIGN = 0) &&
    decide (desc.offset ≤ mapping.ringBytes) &&
    decide (recordHeaderSize + desc.payloadSize ≤
      mapping.ringBytes - desc.offset)

/-- Where `shm_fetch_payload` is.  `n` is the index of the record whose
descriptor it was called with, `rest` are the bytes still to copy. -/
inductive ReaderPc
  | idle
  | loadSeq (n : Nat) (desc : ShmPayloadDescriptor)
  | loadLen (n : Nat) (desc : ShmPayloadDescriptor)
  | copy (n : Nat) (desc : ShmPayloadDescriptor) (buf : Nat → UInt8)
      (rest : List Nat)

/-- A reader: its cache, its program counter, and what its last call
answered; `none` is false. -/
structure Reader where
  cache : ShmReaderCache
  pc : ReaderPc
  ret : Option (List UInt8)

/-- `shm_fetch_payload` answers. -/
def Reader.answer (reader : Reader) (ret : Option (List UInt8)) : Reader :=
  { reader with pc := .idle, ret := ret }

/-! ## The machine -/

/-- What has been stored over the `seq` word of a record since its commit:
nothing, the word of a later header, or a byte of a later payload. -/
inductive Cover
  | own
  | header
  | payload
  deriving DecidableEq

/-- A committed record. -/
structure Record where
  desc : ShmPayloadDescriptor
  bytes : List UInt8
  cover : Cover

/-- The writer, the segments it has created, and a reader. -/
structure State where
  ring : ShmRingWriter
  wpc : WriterPc
  segs : Nat → Segment
  records : Nat → Option Record
  reader : Reader

/-- One step of the writer or of the reader. -/
inductive Act
  | reserve (maxPayloadSize : Nat) (created : Bool)
  | mark
  | put (j : Nat) (v : UInt8)
  | commit (payloadSize : Nat)
  | stable
  | abort
  | close
  | fetch (n : Nat) (mmapOk : Bool)
  | loadSeq
  | loadLen
  | copy (j : Nat)
  | recheck

/-- A store of the writer to the record area of its segment. -/
structure Store where
  addr : Nat
  bytes : List UInt8
  cover : Cover

/-- A record after a store to segment `segmentId`. -/
def Store.coverAfter (st : Store) (segmentId : Nat) (r : Record) : Record :=
  if r.desc.segmentId = segmentId ∧
      Hits st.addr st.bytes.length r.desc.offset 4 then
    { r with cover := st.cover }
  else r

namespace State

variable (s : State)

/-- The segment behind a name. -/
def linked (segmentId : Nat) : Option Segment :=
  if s.ring.mapped ∧ segmentId = s.ring.segmentId then some (s.segs segmentId)
  else none

/-- The record area of a segment. -/
abbrev area (segmentId : Nat) : ByteMemory := (s.segs segmentId).area

/-- The store of the writer's next step. -/
def store : Act → Option Store
  | .mark =>
    match s.wpc with
    | .mark _ =>
      some ⟨s.ring.nextOffset, le32 (2 * s.ring.nextIndex - 1), .header⟩
    | _ => none
  | .put j v =>
    if s.wpc = .fill ∧ j < s.ring.reservedCap then
      some ⟨s.ring.nextOffset + recordHeaderSize + j, [v], .payload⟩
    else none
  | .commit payloadSize =>
    if s.wpc = .fill ∧ payloadSize ≤ s.ring.reservedCap then
      some ⟨s.ring.nextOffset + 4, le32 payloadSize, .header⟩
    else none
  | .stable =>
    match s.wpc with
    | .stable _ => some ⟨s.ring.nextOffset, le32 (2 * s.ring.nextIndex), .header⟩
    | _ => none
  | _ => none

/-- The state after a store of the writer. -/
def storing (st : Store) : State :=
  { s with
    segs := Function.update s.segs s.ring.segmentId
      { s.segs s.ring.segmentId with
        area := (s.area s.ring.segmentId).storeBytes st.addr st.bytes },
    records := fun n => (s.records n).map (st.coverAfter s.ring.segmentId) }

/-- The writer goes on to `wpc` with the local state `ring`. -/
def goto (ring : ShmRingWriter) (wpc : WriterPc) : State :=
  { s with ring := ring, wpc := wpc }

/-- The descriptor of the record at the cursor is returned to the caller. -/
def publish (payloadSize : Nat) : State :=
  { s with
    records := Function.update s.records s.ring.nextIndex
      (some
        { desc := s.ring.descriptor payloadSize,
          bytes := (s.area s.ring.segmentId).slice
            (s.ring.nextOffset + recordHeaderSize) payloadSize,
          cover := .own }) }

/-- The reader answers. -/
def answer (ret : Option (List UInt8)) : State :=
  { s with reader := s.reader.answer ret }

/-- The reader goes on. -/
def readerGoto (pc : ReaderPc) : State :=
  { s with reader := { s.reader with pc := pc } }

/-- A ring that has staged nothing, and a reader that has mapped nothing of
it. -/
def init (others : Nat) : State where
  ring := .fresh
  wpc := .idle
  segs := fun _ => .created 0
  records := fun _ => none
  reader :=
    { cache := { mappings := [], others := others }, pc := .idle, ret := none }

end State

/-- A new segment of the writer. -/
def State.createSegment (s : State) (area : Nat) : State :=
  { s with
    ring := s.ring.createSegment area,
    segs := Function.update s.segs (s.ring.segmentId + 1) (.created area) }

/-- The first half of `shm_stage_reserve`: the size tests, a new segment if
one is needed, and the wrap of the cursor. -/
def reserve (page : Nat) (s : State) (maxPayloadSize : Nat) (created : Bool) :
    State :=
  if UINT32_MAX < maxPayloadSize then s
  else if s.ring.needsSegment maxPayloadSize then
    if created then
      let t := s.createSegment (ShmRingWriter.newArea page maxPayloadSize)
      t.goto (t.ring.wrap maxPayloadSize) (.mark maxPayloadSize)
    else s
  else s.goto (s.ring.wrap maxPayloadSize) (.mark maxPayloadSize)

/-- One step. -/
def step (page : Nat) (s : State) : Act → Option State
  | .reserve maxPayloadSize created =>
    if s.wpc = .idle then some (reserve page s maxPayloadSize created) else none
  | .mark =>
    match s.wpc with
    | .mark cap =>
      (s.store .mark).map fun st =>
        (s.storing st).goto { s.ring with reservedCap := cap } .fill
    | _ => none
  | .put j v => (s.store (.put j v)).map s.storing
  | .commit payloadSize =>
    if s.wpc = .fill then
      if s.ring.reservedCap < payloadSize then
        -- The writer overran its reservation: abort.
        some (s.goto { s.ring with reservedCap := 0 } .idle)
      else
        (s.store (.commit payloadSize)).map fun st =>
          (s.storing st).goto { s.ring with reservedCap := 0 }
            (.stable payloadSize)
    else none
  | .stable =>
    match s.wpc with
    | .stable payloadSize =>
      (s.store .stable).map fun st =>
        ((s.storing st).publish payloadSize).goto (s.ring.advance payloadSize)
          .idle
    | _ => none
  | .abort =>
    if s.wpc = .fill then
      some (s.goto { s.ring with reservedCap := 0 } .idle)
    else none
  | .close => if s.wpc = .idle then some (s.goto s.ring.close .idle) else none
  | .fetch n mmapOk =>
    match s.reader.pc, s.records n with
    | .idle, some r =>
      let mapped := mapSegment s.linked mmapOk s.reader.cache r.desc.segmentId
      let t := { s with reader := { s.reader with cache := mapped.1 } }
      match mapped.2 with
      | none => some (t.answer none)
      | some mapping =>
        if inBounds mapping r.desc then some (t.readerGoto (.loadSeq n r.desc))
        else some (t.answer none)
    | _, _ => none
  | .loadSeq =>
    match s.reader.pc with
    | .loadSeq n desc =>
      if (s.area desc.segmentId).load32 desc.offset = desc.seq then
        some (s.readerGoto (.loadLen n desc))
      else some (s.answer none)
    | _ => none
  | .loadLen =>
    match s.reader.pc with
    | .loadLen n desc =>
      if (s.area desc.segmentId).load32 (desc.offset + 4) = desc.payloadSize then
        some (s.readerGoto
          (.copy n desc (fun _ => 0) (List.range desc.payloadSize)))
      else some (s.answer none)
    | _ => none
  | .copy j =>
    match s.reader.pc with
    | .copy n desc buf rest =>
      if j ∈ rest then
        some (s.readerGoto
          (.copy n desc
            (Function.update buf j
              (s.area desc.segmentId (desc.offset + recordHeaderSize + j)))
            (rest.erase j)))
      else none
    | _ => none
  | .recheck =>
    match s.reader.pc with
    | .copy _ desc buf [] =>
      if (s.area desc.segmentId).load32 desc.offset = desc.seq then
        some (s.answer (some ((List.range desc.payloadSize).map buf)))
      else some (s.answer none)
    | _ => none

/-- The ring and its reader as a machine. -/
def machine (page : Nat) : Machine State Act where
  step := step page

end RmwUnixSocket.Payload
