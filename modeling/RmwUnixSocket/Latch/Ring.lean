import Mathlib.Logic.Function.Basic
import RmwUnixSocket.Lib.Keyed
import RmwUnixSocket.Lib.SlotRing
import RmwUnixSocket.Payload.Ring

/-!
# The latched ring

The ring of a TRANSIENT_LOCAL publisher in `shm_transport.cpp`: the slots that
`tl_ring_create` lays out, the stores of `tl_ring_latch`, and the scan of
`tl_ring_pull`.

* A slot is its `ShmRecordHeader`, the `WireHeader` of the sample, and the
  payload area.  Each of `seq`, `payload_len`, the header and the payload is
  stored and loaded on its own.
* `seq` is the whole count `2 * n - 1` or `2 * n`.  The code stores and
  compares its low 32 bits: `word`.  The scan carries the count it has loaded
  and looks at its word only.
* A cell of a payload is a byte of a sample, or a byte of the 32-byte
  descriptor of a durable segment.  Durable segments are numbered, so a
  descriptor names its segment.
-/

namespace RmwUnixSocket.Latch

open Payload (recordHeaderSize alignUp SHM_RECORD_ALIGN)
open SlotRing (slotOf)

/-! ## Sizes -/

/-- Payload bytes that fit a slot. -/
def TL_EMBED_CAP : Nat := 1024

/-- Upper bound for the record area. -/
def TL_RING_MAX_BYTES : Nat := 2 * 1024 * 1024

/-- Payloads from this size on travel as a descriptor. -/
def SHM_PAYLOAD_THRESHOLD : Nat := 64 * 1024

/-- `sizeof(WireHeader)`. -/
def wireHeaderSize : Nat := 37

/-- `sizeof(ShmPayloadDescriptor)`. -/
def descriptorSize : Nat := 32

/-- `tl_slot_stride`. -/
def tlSlotStride : Nat :=
  alignUp (recordHeaderSize + wireHeaderSize + TL_EMBED_CAP) SHM_RECORD_ALIGN

/-- The number of slots that `tl_ring_create` lays out. -/
def tlRingSlots (depth : Nat) : Nat :=
  min (if depth = 0 then 1 else depth) (TL_RING_MAX_BYTES / tlSlotStride)

theorem tlRingSlots_pos (depth : Nat) : 0 < tlRingSlots depth := by
  have hmax : 0 < TL_RING_MAX_BYTES / tlSlotStride := by decide
  unfold tlRingSlots
  split <;> omega

/-- The 32 bits that a `seq` field has. -/
def word (n : Nat) : Nat :=
  n % 2 ^ 32

theorem word_odd (n : Nat) : word n % 2 = n % 2 := by
  unfold word
  omega

/-! ## Headers and payloads -/

/-- `WireHeader`.  The sender's GID stands for the publisher, and `shmPayload`
is the bit `SHM_PAYLOAD_FLAG` of `msg_type`. -/
structure WireHeader (G : Type) where
  gid : G
  sequenceNumber : Nat
  sourceTimestampNs : Int
  payloadSize : Nat
  msgType : Nat
  shmPayload : Bool
  deriving DecidableEq, Inhabited

/-- A byte of a sample, or byte `k` of a descriptor. -/
inductive Cell
  | byte (b : UInt8)
  | descriptor (segment k : Nat)
  deriving DecidableEq

/-- The cells of a serialized sample. -/
def payloadCells (payload : List UInt8) : List Cell :=
  payload.map .byte

/-- The cells of the descriptor of a durable segment. -/
def descriptorCells (segment : Nat) : List Cell :=
  (List.range descriptorSize).map (.descriptor segment)

/-- The segment that a payload names, if the payload is a descriptor. -/
def segmentOf (cells : List Cell) : Option Nat :=
  match cells.head? with
  | some (.descriptor segment _) =>
    if cells = descriptorCells segment then some segment else none
  | _ => none

@[simp] theorem length_payloadCells (payload : List UInt8) :
    (payloadCells payload).length = payload.length := by
  simp [payloadCells]

@[simp] theorem length_descriptorCells (segment : Nat) :
    (descriptorCells segment).length = descriptorSize := by
  simp [descriptorCells]

@[simp] theorem segmentOf_descriptorCells (segment : Nat) :
    segmentOf (descriptorCells segment) = some segment := by
  have hhead : (descriptorCells segment).head? =
      some (.descriptor segment 0) := rfl
  unfold segmentOf
  rw [hhead]
  exact if_pos rfl

/-! ## The ring -/

/-- A slot. -/
structure TlSlot (G : Type) where
  seq : Nat
  payloadLen : Nat
  header : WireHeader G
  area : List Cell

/-- A slot of a fresh segment: zero bytes. -/
def TlSlot.zero (G : Type) [Inhabited G] : TlSlot G where
  seq := 0
  payloadLen := 0
  header := default
  area := List.replicate TL_EMBED_CAP (.byte 0)

/-- The writer's view of its ring.  A durable segment belongs to the slot
whose descriptor names it. -/
structure TlRing (G : Type) where
  slots : Nat → TlSlot G
  nextIndex : Nat
  durableSegs : Nat → Option Nat

/-- What the latch puts into a slot: `slot_hdr`, `slot_payload`, and the
segment that the slot will own. -/
structure SlotRecord (G : Type) where
  header : WireHeader G
  payload : List Cell
  segment : Option Nat
  fits : payload.length ≤ TL_EMBED_CAP
  deriving DecidableEq

/-- The sequence number of a record. -/
def SlotRecord.sequenceNumber {G : Type} (rec : SlotRecord G) : Nat :=
  rec.header.sequenceNumber

/-- The record of a sample.  A sample that was not staged has to fit. -/
def slotRecord {G : Type} (hdr : WireHeader G) (payload : List UInt8) :
    Option Nat → Option (SlotRecord G)
  | some segment =>
    some
      { header :=
          { hdr with shmPayload := true, payloadSize := descriptorSize },
        payload := descriptorCells segment,
        segment := some segment,
        fits := by simp [descriptorSize, TL_EMBED_CAP] }
  | none =>
    if h : payload.length ≤ TL_EMBED_CAP then
      some
        { header := hdr, payload := payloadCells payload, segment := none,
          fits := by simpa using h }
    else none

namespace TlRing

variable {G : Type} (ring : TlRing G)

/-- `tl_ring_create`. -/
def create (G : Type) [Inhabited G] : TlRing G where
  slots := fun _ => .zero G
  nextIndex := 1
  durableSegs := fun _ => none

/-- Changes the slot of the next record. -/
def modify (slots : Nat) (f : TlSlot G → TlSlot G) : TlRing G :=
  { ring with
    slots := Function.update ring.slots (slotOf slots ring.nextIndex)
      (f (ring.slots (slotOf slots ring.nextIndex))) }

/-- The `exchange` that makes `seq` odd. -/
def mark (slots : Nat) : TlRing G :=
  ring.modify slots fun slot => { slot with seq := 2 * ring.nextIndex - 1 }

def putLen (slots len : Nat) : TlRing G :=
  ring.modify slots fun slot => { slot with payloadLen := len }

def putHeader (slots : Nat) (header : WireHeader G) : TlRing G :=
  ring.modify slots fun slot => { slot with header := header }

def putPayload (slots : Nat) (payload : List Cell) : TlRing G :=
  ring.modify slots fun slot =>
    { slot with area := payload ++ slot.area.drop payload.length }

/-- The store that makes `seq` even.  The slot then owns the new segment. -/
def commit (slots : Nat) (segment : Option Nat) : TlRing G :=
  let stored :=
    ring.modify slots fun slot => { slot with seq := 2 * ring.nextIndex }
  { stored with
    durableSegs := Function.update ring.durableSegs
      (slotOf slots ring.nextIndex) segment,
    nextIndex := ring.nextIndex + 1 }

/-- The segment of the record that the next one overwrites. -/
def evicted (slots : Nat) : Option Nat :=
  ring.durableSegs (slotOf slots ring.nextIndex)

end TlRing

/-! ## The writer -/

/-- Where the single writer is in `tl_ring_latch`. -/
inductive WriterPc (G : Type)
  | idle
  | len (rec : SlotRecord G)
  | header (rec : SlotRecord G)
  | payload (rec : SlotRecord G)
  | commit (rec : SlotRecord G)

/-- The ring and its writer.  `marks` is a ghost: the records that the writer
has marked a slot for, in order. -/
structure Writer (G : Type) where
  ring : TlRing G
  pc : WriterPc G
  marks : List (SlotRecord G)

namespace Writer

variable {G : Type} (w : Writer G)

/-- The writer of a fresh ring. -/
def create (G : Type) [Inhabited G] : Writer G where
  ring := .create G
  pc := .idle
  marks := []

/-- The latch marks the slot of the next record. -/
def markNext (slots : Nat) (rec : SlotRecord G) : Writer G where
  ring := w.ring.mark slots
  pc := .len rec
  marks := w.marks ++ [rec]

/-- The next store of the latch. -/
def store (slots : Nat) : Writer G :=
  match w.pc with
  | .idle => w
  | .len rec =>
    { w with
      ring := w.ring.putLen slots rec.payload.length, pc := .header rec }
  | .header rec =>
    { w with ring := w.ring.putHeader slots rec.header, pc := .payload rec }
  | .payload rec =>
    { w with ring := w.ring.putPayload slots rec.payload, pc := .commit rec }
  | .commit rec =>
    { w with ring := w.ring.commit slots rec.segment, pc := .idle }

end Writer

/-! ## The scan -/

/-- A record that the scan has copied.  `slot` is a ghost: where it was. -/
structure TlPulledRecord (G : Type) where
  header : WireHeader G
  payload : List Cell
  slot : Nat
  deriving DecidableEq

/-- The bytes 16 to 23 of the header. -/
def TlPulledRecord.sequenceNumber {G : Type} (rec : TlPulledRecord G) : Nat :=
  rec.header.sequenceNumber

/-- Where the scan of one slot is.  `s1` is what the first load of `seq` has
found. -/
inductive ScanPc (G : Type)
  | load
  | len (s1 : Nat)
  | header (s1 len : Nat)
  | payload (s1 len : Nat) (header : WireHeader G)
  | recheck (s1 : Nat) (rec : TlPulledRecord G)

/-- The locals of `tl_ring_pull`. -/
structure Scan (G : Type) where
  slot : Nat
  retry : Nat
  observed : Nat → Nat
  records : List (TlPulledRecord G)
  maxSeq : Nat
  pc : ScanPc G

namespace Scan

variable {G : Type} (sc : Scan G)

/-- The start of the scan. -/
def start (G : Type) : Scan G where
  slot := 0
  retry := 0
  observed := fun _ => 0
  records := []
  maxSeq := 0
  pc := .load

/-- The turns that the scan of one slot takes at most. -/
def maxRetries : Nat := 16

/-- The scan goes on to the next slot. -/
def leave : Scan G :=
  { sc with slot := sc.slot + 1, retry := 0, pc := .load }

/-- The `continue` of the retry loop. -/
def again : Scan G :=
  if sc.retry + 1 < maxRetries then
    { sc with retry := sc.retry + 1, pc := .load }
  else sc.leave

/-- Remembers the `seq` of the slot. -/
def observe (s1 : Nat) : Scan G :=
  { sc with observed := Function.update sc.observed sc.slot s1 }

/-- The record is kept. -/
def push (rec : TlPulledRecord G) : Scan G :=
  { sc with
    records := sc.records ++ [rec],
    maxSeq := max sc.maxSeq rec.sequenceNumber }

/-- One load of the scan from the current slot. -/
def step (slot : TlSlot G) : Scan G :=
  match sc.pc with
  | .load =>
    if word slot.seq = 0 then (sc.observe slot.seq).leave
    else if word slot.seq % 2 = 1 then (sc.observe slot.seq).again
    else { sc.observe slot.seq with pc := .len slot.seq }
  | .len s1 =>
    if TL_EMBED_CAP < slot.payloadLen then sc.again
    else { sc with pc := .header s1 slot.payloadLen }
  | .header s1 len => { sc with pc := .payload s1 len slot.header }
  | .payload s1 len header =>
    { sc with
      pc := .recheck s1
        { header := header, payload := slot.area.take len, slot := sc.slot } }
  | .recheck s1 rec =>
    if word slot.seq = word s1 then (sc.push rec).leave else sc.again

end Scan

/-- Where `tl_ring_pull` is: before the call, in the scan, in the loop that
looks for slots that have moved, or at the end. -/
inductive PullPc (G : Type)
  | idle
  | scan (sc : Scan G)
  | check (sc : Scan G) (j : Nat)
  | done (sc : Scan G) (overlapped : Bool)

/-- One load of `tl_ring_pull`. -/
def PullPc.step {G : Type} (slots : Nat) (area : Nat → TlSlot G) :
    PullPc G → PullPc G
  | .scan sc =>
    let sc' := sc.step (area sc.slot)
    if sc'.slot < slots then .scan sc' else .check sc' 0
  | .check sc j =>
    if word (area j).seq = word (sc.observed j) then
      if j + 1 < slots then .check sc (j + 1) else .done sc false
    else .done sc true
  | pc => pc

/-- What the scan hands over: the newest `maxRecords` records in order. -/
def sortedNewest {G : Type} (maxRecords : Nat)
    (records : List (TlPulledRecord G)) : List (TlPulledRecord G) :=
  Keyed.newest maxRecords
    (Keyed.sortBy TlPulledRecord.sequenceNumber records)

/-- The part of an overlapped snapshot that the subscription claims. -/
def claimed {G : Type} (overlapped : Bool)
    (records : List (TlPulledRecord G)) : List (TlPulledRecord G) :=
  if overlapped then
    Keyed.contiguousPrefix TlPulledRecord.sequenceNumber records
  else records

end RmwUnixSocket.Latch
