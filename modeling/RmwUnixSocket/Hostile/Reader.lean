import Mathlib.Logic.Function.Basic
import RmwUnixSocket.Latch.Ring
import RmwUnixSocket.Lib.Machine

/-!
# Readers of a segment that its owner keeps writable

`shm_fetch_payload` with `map_segment`, and `tl_ring_pull`, one load at a
time.  Between two loads the owner may store any byte of any file (`poke`).
What a reader does without a load, system calls included, belongs to the step
before.

* An open finds nothing, or a file of any size with any bytes in it.  A file
  is a number and keeps its bytes when its name is gone.  The reader maps as
  many bytes as `fstat` has told it.
* Sizes, offsets and lengths have the widths that they have in the source, and
  the checks compute with them as the source does.
* A cache is locked for a whole fetch and a pull has a mapping of its own.
  Readers do not store, so one thread that makes any calls in any order stands
  for all of them.

`loads` is a ghost: every range that was loaded, with the mapping that it was
loaded from.  The order of the pulled records and the cut to the newest ones
come after the last load and are left to `Latch`.
-/

namespace RmwUnixSocket.Hostile

open Payload (ringHeaderSize recordHeaderSize SHM_RECORD_ALIGN SHM_RING_MAGIC
  SHM_RING_VERSION)
open Latch (TL_EMBED_CAP wireHeaderSize descriptorSize tlSlotStride)

/-! ## Headers and descriptors -/

def TL_RING_MAGIC : Nat := 0x4C544455

def TL_RING_VERSION : Nat := 1

/-- The number of snapshots that a pull tries of one slot. -/
def slotRetries : Nat := 16

/-- `ShmPayloadDescriptor`.  `ownerPid` is the 32 bits of a signed number. -/
structure ShmPayloadDescriptor where
  segmentId : UInt64
  offset : UInt64
  seq : UInt32
  payloadSize : UInt32
  ownerPid : UInt32
  ownerId : UInt32

/-- The descriptor that a payload of 32 bytes holds. -/
def ShmPayloadDescriptor.ofBytes (bytes : List UInt8) :
    ShmPayloadDescriptor :=
  let mem := ByteMemory.ofBytes bytes
  { segmentId := UInt64.ofNat (mem.loadLE 0 8)
    offset := UInt64.ofNat (mem.loadLE 8 8)
    seq := UInt32.ofNat (mem.loadLE 16 4)
    payloadSize := UInt32.ofNat (mem.loadLE 20 4)
    ownerPid := UInt32.ofNat (mem.loadLE 24 4)
    ownerId := UInt32.ofNat (mem.loadLE 28 4) }

/-! ## Mappings -/

/-- A file and the number of its bytes that are mapped. -/
structure MappedFile where
  file : Nat
  size : UInt64

/-- `ShmReaderCache::Key`. -/
structure Key where
  ownerPid : UInt32
  ownerId : UInt32
  segmentId : UInt64
  deriving DecidableEq

def ShmPayloadDescriptor.key (desc : ShmPayloadDescriptor) : Key where
  ownerPid := desc.ownerPid
  ownerId := desc.ownerId
  segmentId := desc.segmentId

/-- `ShmReaderCache::Mapping`. -/
structure Mapping where
  base : MappedFile
  ringBytes : UInt64

/-- Another generation of the ring that a descriptor names. -/
def Key.stale (key : Key) (desc : ShmPayloadDescriptor) : Bool :=
  decide (key.ownerPid = desc.ownerPid) && decide (key.ownerId = desc.ownerId) &&
    decide (key.segmentId ≠ desc.segmentId)

/-- The check of `header->ring_bytes` in `map_segment`. -/
def MappedFile.ringBytesFit (m : MappedFile) (ringBytes : UInt64) : Bool :=
  decide (ringBytes ≤ m.size - UInt64.ofNat ringHeaderSize)

/-- The check of `header->slots` in `tl_ring_pull`. -/
def MappedFile.slotsFit (m : MappedFile) (slots : UInt32) : Bool :=
  decide (slots.toUInt64 ≤
    (m.size - UInt64.ofNat SHM_RECORD_ALIGN) / UInt64.ofNat tlSlotStride)

/-- The bounds check of `shm_fetch_payload`. -/
def inBounds (mapping : Mapping) (desc : ShmPayloadDescriptor) : Bool :=
  decide (desc.offset % UInt64.ofNat SHM_RECORD_ALIGN = 0) &&
    decide (desc.offset ≤ mapping.ringBytes) &&
    decide (UInt64.ofNat recordHeaderSize + desc.payloadSize.toUInt64 ≤
      mapping.ringBytes - desc.offset)

/-! ## Where a reader is -/

/-- The locals of `tl_ring_pull` behind the validation of the header. -/
structure Scan where
  map : MappedFile
  slots : UInt32
  i : Nat
  observed : Nat → UInt32
  records : List (List UInt8 × List UInt8)
  overlapOut : Bool

/-- What a pull is called with. -/
structure PullArgs where
  gid : List UInt8
  overlapOut : Bool

/-- The next load of a reader.  `map…` is `map_segment`, `fetch…` the rest of
`shm_fetch_payload`, and `pull…`, `scan…` and `overlap` are `tl_ring_pull`. -/
inductive Pc
  | idle
  | mapMagic (desc : ShmPayloadDescriptor) (m : MappedFile)
  | mapVersion (desc : ShmPayloadDescriptor) (m : MappedFile)
  | mapRingBytes (desc : ShmPayloadDescriptor) (m : MappedFile)
  | mapSnapshot (desc : ShmPayloadDescriptor) (m : MappedFile)
  | fetchSeq (desc : ShmPayloadDescriptor) (mapping : Mapping)
  | fetchLen (desc : ShmPayloadDescriptor) (mapping : Mapping)
  | fetchCopy (desc : ShmPayloadDescriptor) (mapping : Mapping)
      (buf : List UInt8)
  | fetchRecheck (desc : ShmPayloadDescriptor) (mapping : Mapping)
      (buf : List UInt8)
  | pullMagic (args : PullArgs) (m : MappedFile)
  | pullVersion (args : PullArgs) (m : MappedFile)
  | pullGid (args : PullArgs) (m : MappedFile) (buf : List UInt8)
  | pullSlotBytes (args : PullArgs) (m : MappedFile)
  | pullSlotsPositive (args : PullArgs) (m : MappedFile)
  | pullSlotsBound (args : PullArgs) (m : MappedFile)
  | pullSlots (args : PullArgs) (m : MappedFile)
  | scanSeq (scan : Scan) (retry : Nat)
  | scanLen (scan : Scan) (retry : Nat) (s1 : UInt32)
  | scanCopy (scan : Scan) (retry : Nat) (s1 len : UInt32) (buf : List UInt8)
  | scanRecheck (scan : Scan) (retry : Nat) (s1 len : UInt32)
      (buf : List UInt8)
  | overlap (scan : Scan) (i : Nat)

/-- What the last call has returned.  `none` is false. -/
inductive Answer
  | fetched (payload : Option (List UInt8))
  | pulled (records : List (List UInt8 × List UInt8)) (overlapped : Bool)
  deriving DecidableEq

/-! ## Loads -/

/-- A load of `size` bytes from a mapping. -/
structure Load where
  map : MappedFile
  offset : Nat
  size : Nat

/-- The load lies inside the mapping. -/
def Load.Inside (l : Load) : Prop :=
  l.offset + l.size ≤ l.map.size.toNat

instance (l : Load) : Decidable l.Inside :=
  inferInstanceAs (Decidable (_ ≤ _))

/-- The record of a descriptor, from the start of the mapping. -/
def ShmPayloadDescriptor.record (desc : ShmPayloadDescriptor) : Nat :=
  ringHeaderSize + desc.offset.toNat

/-- Slot `i`, from the start of the mapping.  `i` has 32 bits, so the product
does not wrap in the source. -/
def slotAt (i : Nat) : Nat :=
  SHM_RECORD_ALIGN + i * tlSlotStride

/-- The next load. -/
def Pc.load : Pc → Option Load
  | .idle => none
  | .mapMagic _ m => some ⟨m, 0, 4⟩
  | .mapVersion _ m => some ⟨m, 4, 4⟩
  | .mapRingBytes _ m => some ⟨m, 8, 8⟩
  | .mapSnapshot _ m => some ⟨m, 8, 8⟩
  | .fetchSeq desc mapping => some ⟨mapping.base, desc.record, 4⟩
  | .fetchLen desc mapping => some ⟨mapping.base, desc.record + 4, 4⟩
  | .fetchCopy desc mapping buf =>
    some ⟨mapping.base, desc.record + recordHeaderSize + buf.length, 1⟩
  | .fetchRecheck desc mapping _ => some ⟨mapping.base, desc.record, 4⟩
  | .pullMagic _ m => some ⟨m, 0, 4⟩
  | .pullVersion _ m => some ⟨m, 4, 4⟩
  | .pullGid _ m buf => some ⟨m, 8 + buf.length, 1⟩
  | .pullSlotBytes _ m => some ⟨m, 28, 4⟩
  | .pullSlotsPositive _ m => some ⟨m, 24, 4⟩
  | .pullSlotsBound _ m => some ⟨m, 24, 4⟩
  | .pullSlots _ m => some ⟨m, 24, 4⟩
  | .scanSeq scan _ => some ⟨scan.map, slotAt scan.i, 4⟩
  | .scanLen scan _ _ => some ⟨scan.map, slotAt scan.i + 4, 4⟩
  | .scanCopy scan _ _ _ buf =>
    some ⟨scan.map, slotAt scan.i + recordHeaderSize + buf.length, 1⟩
  | .scanRecheck scan _ _ _ _ => some ⟨scan.map, slotAt scan.i, 4⟩
  | .overlap scan i => some ⟨scan.map, slotAt i, 4⟩

/-! ## The machine -/

/-- The shared files and a reader. -/
structure State where
  files : Nat → ByteMemory
  cache : List (Key × Mapping)
  pc : Pc
  ret : Option Answer
  loads : List Load

/-- The value of a load. -/
def State.value (s : State) (l : Load) : Nat :=
  (s.files l.map.file).loadLE l.offset l.size

namespace State

variable (s : State)

/-- The reader goes on. -/
def goto (pc : Pc) : State :=
  { s with pc := pc }

/-- The reader returns. -/
def answer (ret : Answer) : State :=
  { s with pc := .idle, ret := some ret }

/-- `shm_fetch_payload` with the mapping at hand. -/
def check (desc : ShmPayloadDescriptor) (mapping : Mapping) : State :=
  if inBounds mapping desc then s.goto (.fetchSeq desc mapping)
  else s.answer (.fetched none)

/-- The copy of the payload in `shm_fetch_payload`. -/
def fetchCopy (desc : ShmPayloadDescriptor) (mapping : Mapping)
    (buf : List UInt8) : State :=
  if buf.length < desc.payloadSize.toNat then
    s.goto (.fetchCopy desc mapping buf)
  else s.goto (.fetchRecheck desc mapping buf)

/-- The head of the overlap loop. -/
def overlapFrom (scan : Scan) (i : Nat) : State :=
  if i < scan.slots.toNat then s.goto (.overlap scan i)
  else s.answer (.pulled scan.records false)

/-- The head of the scan loop. -/
def scanFrom (scan : Scan) : State :=
  if scan.i < scan.slots.toNat then s.goto (.scanSeq scan 0)
  else if scan.overlapOut then s.overlapFrom scan 0
  else s.answer (.pulled scan.records false)

/-- The scan leaves a slot. -/
def nextSlot (scan : Scan) : State :=
  s.scanFrom { scan with i := scan.i + 1 }

/-- `continue` in the loop over the snapshots of a slot. -/
def again (scan : Scan) (retry : Nat) : State :=
  if retry + 1 < slotRetries then s.goto (.scanSeq scan (retry + 1))
  else s.nextSlot scan

/-- The copy of the wire header and of the payload behind it. -/
def scanCopy (scan : Scan) (retry : Nat) (s1 len : UInt32)
    (buf : List UInt8) : State :=
  if buf.length < wireHeaderSize + len.toNat then
    s.goto (.scanCopy scan retry s1 len buf)
  else s.goto (.scanRecheck scan retry s1 len buf)

/-- The call of `shm_fetch_payload`, as far as its first load.  `gone` are the
names that a probe does not find any more. -/
def fetch (payload : List UInt8) (gone : Key → Bool)
    (opened : Option MappedFile) : State :=
  if payload.length ≠ descriptorSize then s.answer (.fetched none)
  else
    let desc := ShmPayloadDescriptor.ofBytes payload
    match s.cache.lookup desc.key with
    | some mapping => s.check desc mapping
    | none =>
      let swept :=
        if 8 ≤ s.cache.length then
          { s with cache := s.cache.filter fun e => !gone e.1 }
        else s
      match opened with
      | none => swept.answer (.fetched none)
      | some m =>
        if m.size < UInt64.ofNat ringHeaderSize then
          swept.answer (.fetched none)
        else swept.goto (.mapMagic desc m)

/-- The call of `tl_ring_pull`, as far as its first load.  An empty name opens
nothing. -/
def pull (args : PullArgs) (maxRecords : Nat) (opened : Option MappedFile) :
    State :=
  if maxRecords = 0 then s.answer (.pulled [] false)
  else
    match opened with
    | none => s.answer (.pulled [] false)
    | some m =>
      if m.size < UInt64.ofNat SHM_RECORD_ALIGN then s.answer (.pulled [] false)
      else s.goto (.pullMagic args m)

/-- What the reader does with the value that it has loaded. -/
def resume (v : Nat) : State :=
  match s.pc with
  | .idle => s
  | .mapMagic desc m =>
    if v = SHM_RING_MAGIC then s.goto (.mapVersion desc m)
    else s.answer (.fetched none)
  | .mapVersion desc m =>
    if v = SHM_RING_VERSION then s.goto (.mapRingBytes desc m)
    else s.answer (.fetched none)
  | .mapRingBytes desc m =>
    if m.ringBytesFit (UInt64.ofNat v) then s.goto (.mapSnapshot desc m)
    else s.answer (.fetched none)
  | .mapSnapshot desc m =>
    -- The capacity is not the value that was checked but a new load.
    let mapping : Mapping := { base := m, ringBytes := UInt64.ofNat v }
    let kept := s.cache.filter fun e => !e.1.stale desc
    { s with cache := (desc.key, mapping) :: kept }.check desc mapping
  | .fetchSeq desc mapping =>
    if UInt32.ofNat v = desc.seq then s.goto (.fetchLen desc mapping)
    else s.answer (.fetched none)
  | .fetchLen desc mapping =>
    if UInt32.ofNat v = desc.payloadSize then s.fetchCopy desc mapping []
    else s.answer (.fetched none)
  | .fetchCopy desc mapping buf =>
    s.fetchCopy desc mapping (buf ++ [UInt8.ofNat v])
  | .fetchRecheck desc _ buf =>
    if UInt32.ofNat v = desc.seq then s.answer (.fetched (some buf))
    else s.answer (.fetched none)
  | .pullMagic args m =>
    if v = TL_RING_MAGIC then s.goto (.pullVersion args m)
    else s.answer (.pulled [] false)
  | .pullVersion args m =>
    if v = TL_RING_VERSION then s.goto (.pullGid args m [])
    else s.answer (.pulled [] false)
  | .pullGid args m buf =>
    let read := buf ++ [UInt8.ofNat v]
    if read.length < 16 then s.goto (.pullGid args m read)
    else if read = args.gid then s.goto (.pullSlotBytes args m)
    else s.answer (.pulled [] false)
  | .pullSlotBytes args m =>
    if v = tlSlotStride then s.goto (.pullSlotsPositive args m)
    else s.answer (.pulled [] false)
  | .pullSlotsPositive args m =>
    if 0 < UInt32.ofNat v then s.goto (.pullSlotsBound args m)
    else s.answer (.pulled [] false)
  | .pullSlotsBound args m =>
    if m.slotsFit (UInt32.ofNat v) then s.goto (.pullSlots args m)
    else s.answer (.pulled [] false)
  | .pullSlots args m =>
    -- The third load of `header->slots`.
    s.scanFrom
      { map := m, slots := UInt32.ofNat v, i := 0, observed := fun _ => 0,
        records := [], overlapOut := args.overlapOut }
  | .scanSeq scan retry =>
    let s1 := UInt32.ofNat v
    let seen := { scan with observed := Function.update scan.observed scan.i s1 }
    if s1 = 0 then s.nextSlot seen
    else if s1 % 2 = 1 then s.again seen retry
    else s.goto (.scanLen seen retry s1)
  | .scanLen scan retry s1 =>
    let len := UInt32.ofNat v
    if UInt32.ofNat TL_EMBED_CAP < len then s.again scan retry
    else s.scanCopy scan retry s1 len []
  | .scanCopy scan retry s1 len buf =>
    s.scanCopy scan retry s1 len (buf ++ [UInt8.ofNat v])
  | .scanRecheck scan retry s1 _ buf =>
    if UInt32.ofNat v = s1 then
      s.nextSlot
        { scan with
          records := scan.records ++
            [(buf.take wireHeaderSize, buf.drop wireHeaderSize)] }
    else s.again scan retry
  | .overlap scan i =>
    if UInt32.ofNat v = scan.observed i then s.overlapFrom scan (i + 1)
    else s.answer (.pulled scan.records true)

end State

/-- One step of the owner of the files or of the reader. -/
inductive Act
  | poke (file addr : Nat) (b : UInt8)
  | fetch (payload : List UInt8) (gone : Key → Bool)
      (opened : Option MappedFile)
  | pull (args : PullArgs) (maxRecords : Nat) (opened : Option MappedFile)
  | load

/-- One step. -/
def step (s : State) : Act → Option State
  | .poke file addr b =>
    some
      { s with
        files := Function.update s.files file
          ((s.files file).storeBytes addr [b]) }
  | .fetch payload gone opened =>
    match s.pc with
    | .idle => some (s.fetch payload gone opened)
    | _ => none
  | .pull args maxRecords opened =>
    match s.pc with
    | .idle => some (s.pull args maxRecords opened)
    | _ => none
  | .load =>
    s.pc.load.map fun l => { s.resume (s.value l) with loads := l :: s.loads }

/-- The reader of hostile files as a machine. -/
def machine : Machine State Act where
  step := step

/-- A reader that has mapped nothing, over any files. -/
def State.init (files : Nat → ByteMemory) : State where
  files := files
  cache := []
  pc := .idle
  ret := none
  loads := []

end RmwUnixSocket.Hostile
