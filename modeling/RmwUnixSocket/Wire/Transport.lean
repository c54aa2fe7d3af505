import RmwUnixSocket.Wire.Codec

/-!
# Messages on the wire

The paths of a message in `transport.cpp`, `shm_transport.cpp` and
`rmw_publisher.cpp`, from the sender to the receiver: inline, through the
payload ring of the sender (`shm_prepare_send`, `shm_serialize_prepare_send`),
through a durable segment (`transient_local_publish`), and through the latched
ring (`tl_ring_latch`, `tl_ring_pull`); `recv_from` and `shm_resolve_incoming`
on the other side.

A step is a whole call, so the copies inside one call see no store of another;
`Payload` and `Latch` have the loads and stores one by one.

* The senders belong to one process, whose segments are named by its pid, by
  an id that `g_shm_owner_counter` and the clock give out, and by a generation.
  `restart` is the end of the process and the start of another one, whose pid
  may be the same.
* A shared-memory object keeps its bytes when its name is gone.
* `pending` is what the receivers have yet to resolve: the datagrams in their
  sockets, and the records that a pull has copied.  Which socket a datagram
  waits in plays no role here, so one list stands for all.
* `serialize_into` fails when the payload is longer than its buffer.  It may
  also fail in the ring after it has written some bytes.

`Staged`, `TlSlot.latched`, `Pending.sent`, `Pending.staged` and `received`
are ghosts.
-/

namespace RmwUnixSocket.Wire

open ByteMemory
open Payload (ShmRingWriter Segment recordBytes alignUp ringHeaderSize
  recordHeaderSize UINT32_MAX SHM_RING_MAGIC SHM_RING_VERSION)
open Latch (TL_EMBED_CAP SHM_PAYLOAD_THRESHOLD wireHeaderSize descriptorSize
  tlRingSlots)
open Hostile (ShmPayloadDescriptor Key MappedFile Mapping inBounds)

/-! ## Messages -/

/-- A message as its sender has it. -/
structure Message where
  gid : Gid
  sequenceNumber : UInt64
  sourceTimestampNs : UInt64
  msgType : Fin 3
  payload : List UInt8
  fits : payload.length < 2 ^ 32
  deriving DecidableEq

/-- A sample of `n` bytes `a`. -/
def exampleSample (a : UInt8) (n : Nat) (h : n < 2 ^ 32) : Message where
  gid := ⟨List.replicate 16 a, List.length_replicate⟩
  sequenceNumber := 1
  sourceTimestampNs := 0
  msgType := 0
  payload := List.replicate n a
  fits := by rwa [List.length_replicate]

/-- The header that the sender fills in before the length of the payload is
known. -/
def Message.blank (m : Message) : WireHeader where
  gid := m.gid
  sequenceNumber := m.sequenceNumber
  sourceTimestampNs := m.sourceTimestampNs
  payloadSize := 0
  msgType := UInt8.ofNat m.msgType

/-- The header with the length of the payload. -/
def Message.header (m : Message) : WireHeader :=
  { m.blank with payloadSize := UInt32.ofNat m.payload.length }

/-! ## Shared memory -/

/-- The shared-memory objects and their names. -/
structure Shm where
  objects : Nat → Segment
  next : Nat
  linked : Key → Option Nat

/-- What `shm_open`, `posix_fallocate` and `mmap` of a new segment answer.  A
creation that is refused after the name was opened leaves no name. -/
inductive Creation
  | created
  | refused (opened : Bool)
  deriving DecidableEq

namespace Shm

variable (shm : Shm)

/-- `shm_unlink`. -/
def unlink (key : Key) : Shm :=
  { shm with linked := Function.update shm.linked key none }

/-- A new object of `area` bytes behind the header.  An object that has the
name already loses it. -/
def create (key : Key) (area : Nat) : Shm where
  objects := Function.update shm.objects shm.next (.created area)
  next := shm.next + 1
  linked := Function.update shm.linked key (some shm.next)

/-- The creation of a segment, with the number of the new object.  A file is
smaller than 2^63 bytes. -/
def tryCreate (key : Key) (area : Nat) : Creation → Shm × Option Nat
  | .created =>
    if ringHeaderSize + area < 2 ^ 63 then (shm.create key area, some shm.next)
    else (shm.unlink key, none)
  | .refused false => (shm, none)
  | .refused true => (shm.unlink key, none)

/-- The record area of an object. -/
abbrev area (o : Nat) : ByteMemory := (shm.objects o).area

/-- A store to the record area of an object. -/
def store (o addr : Nat) (bytes : List UInt8) : Shm :=
  { shm with
    objects := Function.update shm.objects o
      { shm.objects o with area := (shm.area o).storeBytes addr bytes } }

end Shm

/-- A record at its commit: its descriptor, its object, and the bytes of the
object. -/
structure Staged where
  desc : ShmPayloadDescriptor
  object : Nat
  area : ByteMemory

/-- The id of a ring or of a durable segment. -/
def ownerId (counter clock : UInt32) : UInt32 :=
  counter <<< 16 ||| clock &&& 0xFFFF

/-! ## Payload rings -/

/-- A payload ring with its names.  `ownerPid` is `none` while `owner_pid` is
-1. -/
structure Sender where
  ring : ShmRingWriter
  ownerPid : Option UInt32
  ownerId : UInt32
  object : Nat

namespace Sender

/-- A sender that has staged nothing. -/
def fresh : Sender where
  ring := .fresh
  ownerPid := none
  ownerId := 0
  object := 0

variable (w : Sender)

/-- The name of a generation of the ring. -/
def keyOf (segmentId : Nat) : Key where
  ownerPid := w.ownerPid.getD 0xFFFFFFFF
  ownerId := w.ownerId
  segmentId := UInt64.ofNat segmentId

/-- The name of the segment that is mapped. -/
def key : Key :=
  w.keyOf w.ring.segmentId

/-- The descriptor of the record at the cursor. -/
def descriptor (payloadSize : Nat) : ShmPayloadDescriptor where
  segmentId := UInt64.ofNat w.ring.segmentId
  offset := UInt64.ofNat w.ring.nextOffset
  seq := UInt32.ofNat (2 * w.ring.nextIndex)
  payloadSize := UInt32.ofNat payloadSize
  ownerPid := w.ownerPid.getD 0xFFFFFFFF
  ownerId := w.ownerId

end Sender

/-- What a staging call works on: shared memory, the counter of the process,
and the ring. -/
structure Stage where
  shm : Shm
  counter : UInt32
  sender : Sender

/-- The outcomes of one send: a reading of the clock, the creation of a
segment, and the serializer in the ring with the bytes that it has written
when it fails. -/
structure SendIo where
  clock : UInt32
  creation : Creation
  written : Bool
  junk : List UInt8

namespace Stage

variable (page : Nat) (pid : UInt32) (io : SendIo) (c : Stage)

/-- The ring gets its id when it is first created. -/
def assignOwner : Stage :=
  if c.sender.ownerPid.isNone then
    { c with
      counter := c.counter + 1
      sender :=
        { c.sender with
          ownerPid := some pid, ownerId := Wire.ownerId c.counter io.clock } }
  else c

/-- The name of the segment that `create_segment` makes. -/
def newKey : Key :=
  (c.assignOwner pid io).sender.keyOf (c.sender.ring.segmentId + 1)

/-- `create_segment`. -/
def createSegment (area : Nat) : Stage × Bool :=
  let owned := c.assignOwner pid io
  let made := owned.shm.tryCreate (c.newKey pid io) area io.creation
  match made.2 with
  | none => ({ owned with shm := made.1 }, false)
  | some o =>
    -- The name of the old segment goes, its mappings stay.
    let closed :=
      if owned.sender.ring.mapped then made.1.unlink owned.sender.key
      else made.1
    ({ owned with
        shm := closed
        sender :=
          { owned.sender with
            ring := owned.sender.ring.createSegment area, object := o } },
      true)

/-- A new segment if one is needed. -/
def ensureSegment (maxPayloadSize : Nat) : Stage × Bool :=
  if c.sender.ring.needsSegment maxPayloadSize then
    c.createSegment pid io (ShmRingWriter.newArea page maxPayloadSize)
  else (c, true)

/-- The wrap of the cursor, the odd mark, and the reservation. -/
def mark (maxPayloadSize : Nat) : Stage :=
  let ring := c.sender.ring.wrap maxPayloadSize
  { c with
    shm := c.shm.store c.sender.object ring.nextOffset
      (leBytes 4 (2 * ring.nextIndex - 1))
    sender := { c.sender with ring := { ring with reservedCap := maxPayloadSize } } }

/-- `shm_stage_reserve`, which answers whether there is a reservation. -/
def reserve (maxPayloadSize : Nat) : Stage × Bool :=
  if UINT32_MAX < maxPayloadSize then (c, false)
  else
    let ensured := c.ensureSegment page pid io maxPayloadSize
    if ensured.2 then (ensured.1.mark maxPayloadSize, true)
    else (ensured.1, false)

/-- The bytes of the payload go into the reservation. -/
def write (bytes : List UInt8) : Stage :=
  { c with
    shm := c.shm.store c.sender.object
      (c.sender.ring.nextOffset + recordHeaderSize) bytes }

/-- `shm_stage_abort`. -/
def abort : Stage :=
  { c with
    sender :=
      { c.sender with ring := { c.sender.ring with reservedCap := 0 } } }

/-- `shm_stage_commit`. -/
def commit (payloadSize : Nat) : Stage × Option Staged :=
  if c.sender.ring.reservedCap < payloadSize then (c.abort, none)
  else
    let w := c.sender
    let shm :=
      (c.shm.store w.object (w.ring.nextOffset + 4)
        (leBytes 4 payloadSize)).store w.object w.ring.nextOffset
        (leBytes 4 (2 * w.ring.nextIndex))
    ({ c with
        shm := shm
        sender :=
          { w with
            ring := { w.ring with reservedCap := 0 }.advance payloadSize } },
      some
        { desc := w.descriptor payloadSize, object := w.object,
          area := shm.area w.object })

/-- `shm_stage_payload`. -/
def stagePayload (payload : List UInt8) : Stage × Option Staged :=
  let reserved := c.reserve page pid io payload.length
  if reserved.2 then (reserved.1.write payload).commit payload.length
  else (reserved.1, none)

end Stage

/-! ## Outbound -/

/-- What goes on the wire: a header and the bytes behind it, and the record
that the bytes describe, if they are a descriptor. -/
structure Outbound where
  hdr : WireHeader
  wire : List UInt8
  staged : Option Staged

/-- A payload on the wire. -/
def Message.inline (m : Message) : Outbound where
  hdr := m.header
  wire := m.payload
  staged := none

/-- A descriptor on the wire. -/
def Message.described (m : Message) (st : Staged) : Outbound where
  hdr := m.header.shm
  wire := st.desc.toBytes
  staged := some st

namespace Stage

variable (page : Nat) (pid : UInt32) (io : SendIo) (c : Stage) (m : Message)

/-- `shm_prepare_send`. -/
def prepareSend : Stage × Outbound :=
  if m.payload.length < SHM_PAYLOAD_THRESHOLD then (c, m.inline)
  else
    let staged := c.stagePayload page pid io m.payload
    match staged.2 with
    | some st => (staged.1, m.described st)
    | none => (staged.1, m.inline)

/-- The second half of `shm_serialize_prepare_send`. -/
def serializeInline (est : Nat) : Stage × Option Outbound :=
  if est < m.payload.length then (c, none)
  else
    (c, some
      { hdr := { m.blank with payloadSize := UInt32.ofNat m.payload.length }
        wire := m.payload
        staged := none })

/-- `shm_serialize_prepare_send`.  `est` is the size that the size walk has
found. -/
def serializePrepareSend (est : Nat) : Stage × Option Outbound :=
  if est < SHM_PAYLOAD_THRESHOLD then c.serializeInline m est
  else
    let reserved := c.reserve page pid io est
    if reserved.2 then
      if io.written ∧ m.payload.length ≤ est then
        let done := (reserved.1.write m.payload).commit m.payload.length
        match done.2 with
        | some st =>
          (done.1, some
            { hdr := m.blank.shm, wire := st.desc.toBytes, staged := some st })
        | none => done.1.abort.serializeInline m est
      else ((reserved.1.write (io.junk.take est)).abort).serializeInline m est
    else reserved.1.serializeInline m est

end Stage

/-! ## Durable segments and latched rings -/

/-- The descriptor of the one record of a durable segment. -/
def durableDescriptor (pid clock counter : UInt32) (payloadSize : Nat) :
    ShmPayloadDescriptor where
  segmentId := 1
  offset := 0
  seq := 2
  payloadSize := UInt32.ofNat payloadSize
  ownerPid := pid
  ownerId := ownerId counter clock

/-- `shm_stage_durable`: the new shared memory, the new counter, and the
record. -/
def shmStageDurable (page : Nat) (pid clock : UInt32) (creation : Creation)
    (shm : Shm) (counter : UInt32) (payload : List UInt8) :
    Shm × UInt32 × Option Staged :=
  if UINT32_MAX < payload.length then (shm, counter, none)
  else
    let desc := durableDescriptor pid clock counter payload.length
    let made := shm.tryCreate desc.key
      (alignUp (recordBytes payload.length) page) creation
    match made.2 with
    | none => (made.1, counter + 1, none)
    | some o =>
      let filled :=
        ((made.1.store o 4 (leBytes 4 payload.length)).store o recordHeaderSize
          payload).store o 0 (leBytes 4 2)
      (filled, counter + 1, some { desc, object := o, area := filled.area o })

/-- A slot of a latched ring: its bytes, the durable segment that it owns, and
the sample that was latched into it. -/
structure TlSlot where
  mem : ByteMemory
  durable : Option Key
  latched : Option (Message × Option Staged)

/-- A slot of a new ring. -/
def TlSlot.zero : TlSlot where
  mem := fun _ => 0
  durable := none
  latched := none

/-- A latched ring.  Without a segment it has no slots. -/
structure TlRing where
  slots : List TlSlot
  nextIndex : Nat

/-- `tl_ring_create`. -/
def TlRing.create (depth : Nat) : TlRing where
  slots := List.replicate (tlRingSlots depth) .zero
  nextIndex := 1

/-- A publisher without a latched ring, or with a closed one. -/
def TlRing.closed : TlRing where
  slots := []
  nextIndex := 1

/-- The stores of `tl_ring_latch` into a slot. -/
def TlSlot.stores (mem : ByteMemory) (index : Nat) (out : Outbound) :
    ByteMemory :=
  ((((mem.storeBytes 0 (leBytes 4 (2 * index - 1))).storeBytes 4
    (leBytes 4 out.wire.length)).storeBytes recordHeaderSize
    out.hdr.toBytes).storeBytes (recordHeaderSize + wireHeaderSize)
    out.wire).storeBytes 0 (leBytes 4 (2 * index))

/-- What `tl_ring_latch` puts into the slot. -/
def Message.latchedAs (m : Message) : Option Staged → Outbound
  | none => m.inline
  | some st => m.described st

/-- `tl_ring_latch`: the ring, whether the sample was latched, and the name of
the evicted durable segment.  `pagesOk` is the answer of `posix_fallocate`. -/
def TlRing.latch (ring : TlRing) (m : Message) (staged : Option Staged)
    (pagesOk : Bool) : TlRing × Bool × Option Key :=
  if staged.isNone ∧ TL_EMBED_CAP < m.payload.length then (ring, false, none)
  else
    let slot := (ring.nextIndex - 1) % ring.slots.length
    match ring.slots[slot]? with
    | none => (ring, false, none)
    | some old =>
      if pagesOk then
        ({ slots := ring.slots.set slot
            { mem := TlSlot.stores old.mem ring.nextIndex (m.latchedAs staged)
              durable := staged.map fun st => st.desc.key
              latched := some (m, staged) }
           nextIndex := ring.nextIndex + 1 },
          true, old.durable)
      else (ring, false, none)

/-- What `transient_local_publish` sends to the subscriptions that it knows. -/
def Message.live (m : Message) (staged : Option Staged) (latched : Bool) :
    Outbound :=
  match staged with
  | none => m.inline
  | some st =>
    if latched ∧ SHM_PAYLOAD_THRESHOLD ≤ m.payload.length then m.described st
    else m.inline

/-- The snapshot that `tl_ring_pull` takes of a slot: the bytes of the wire
header and the payload. -/
def TlSlot.read (slot : TlSlot) : Option (List UInt8 × List UInt8) :=
  let seq := slot.mem.loadLE 0 4
  let len := slot.mem.loadLE 4 4
  if seq = 0 ∨ seq % 2 = 1 ∨ TL_EMBED_CAP < len then none
  else
    some (slot.mem.slice recordHeaderSize wireHeaderSize,
      slot.mem.slice (recordHeaderSize + wireHeaderSize) len)

/-! ## Inbound -/

/-- What a receiver has yet to resolve: a datagram, or a record that a pull
has copied. -/
inductive Arrival
  | datagram (bytes : List UInt8)
  | record (wireHeader payload : List UInt8)

/-- `recv_from` for one datagram.  Runts are dropped, and a payload that is
longer than the header says is cut. -/
def recvFrom (bytes : List UInt8) : Option (WireHeader × List UInt8) :=
  if bytes.length < wireHeaderSize then none
  else
    let hdr := WireHeader.ofBytes bytes
    let payloadLen := bytes.length - wireHeaderSize
    some (hdr, (bytes.drop wireHeaderSize).take
      (min payloadLen hdr.payloadSize.toNat))

/-- The header and the payload of an arrival. -/
def Arrival.decode : Arrival → Option (WireHeader × List UInt8)
  | .datagram bytes => recvFrom bytes
  | .record wireHeader payload => some (WireHeader.ofBytes wireHeader, payload)

/-- The mappings of a receiver. -/
abbrev Cache := List (Key × Mapping)

/-- `map_segment`. -/
def mapSegment (shm : Shm) (mmapOk : Bool) (cache : Cache)
    (desc : ShmPayloadDescriptor) : Cache × Option Mapping :=
  match cache.lookup desc.key with
  | some mapping => (cache, some mapping)
  | none =>
    let swept :=
      if 8 ≤ cache.length then
        cache.filter fun e => (shm.linked e.1).isSome
      else cache
    match shm.linked desc.key with
    | none => (swept, none)
    | some o =>
      if (shm.objects o).valid && mmapOk then
        let mapping : Mapping :=
          { base := ⟨o, UInt64.ofNat (shm.objects o).fileSize⟩
            ringBytes := UInt64.ofNat (shm.objects o).header.ringBytes }
        ((desc.key, mapping) :: swept.filter fun e => !e.1.stale desc,
          some mapping)
      else (swept, none)

/-- `shm_fetch_payload`.  Within one step the second load of `seq` is the
first one again. -/
def shmFetchPayload (shm : Shm) (mmapOk : Bool) (cache : Cache)
    (payload : List UInt8) : Cache × Option (List UInt8) :=
  if payload.length ≠ descriptorSize then (cache, none)
  else
    let desc := ShmPayloadDescriptor.ofBytes payload
    let mapped := mapSegment shm mmapOk cache desc
    match mapped.2 with
    | none => (mapped.1, none)
    | some mapping =>
      let area := shm.area mapping.base.file
      let offset := desc.offset.toNat
      if inBounds mapping desc ∧ area.loadLE offset 4 = desc.seq.toNat ∧
          area.loadLE (offset + 4) 4 = desc.payloadSize.toNat then
        (mapped.1, some
          (area.slice (offset + recordHeaderSize) desc.payloadSize.toNat))
      else (mapped.1, none)

/-- `shm_resolve_incoming`. -/
def shmResolveIncoming (shm : Shm) (mmapOk : Bool) (cache : Cache)
    (hdr : WireHeader) (payload : List UInt8) :
    Cache × Option (WireHeader × List UInt8) :=
  if hdr.msgType &&& SHM_PAYLOAD_FLAG = 0 then (cache, some (hdr, payload))
  else
    let fetched := shmFetchPayload shm mmapOk cache payload
    (fetched.1, fetched.2.map fun bytes =>
      ({ hdr with
          msgType := hdr.msgType &&& ~~~SHM_PAYLOAD_FLAG
          payloadSize := UInt32.ofNat bytes.length },
        bytes))

/-! ## The machine -/

/-- An arrival with the message that was sent and the record that was staged
for it. -/
structure Pending where
  arrival : Arrival
  sent : Message
  staged : Option Staged

/-- `send_to`: one datagram. -/
def Outbound.datagram (out : Outbound) (m : Message) : Pending where
  arrival := .datagram (out.hdr.toBytes ++ out.wire)
  sent := m
  staged := out.staged

/-- A message that was accepted, as it was sent and as it was received. -/
structure Receipt where
  sent : Message
  delivered : WireHeader × List UInt8

/-- A process with its rings, and the receivers. -/
structure State where
  shm : Shm
  pid : UInt32
  counter : UInt32
  senders : List Sender
  rings : List TlRing
  caches : List Cache
  pending : List Pending
  received : List Receipt

/-- One call of a sender or of a receiver. -/
inductive Act
  | sendSerialized (i : Nat) (m : Message) (io : SendIo) (copies : Nat)
  | send (i : Nat) (m : Message) (est : Nat) (io : SendIo) (copies : Nat)
  | publishLatched (i : Nat) (m : Message) (clock : UInt32)
      (creation : Creation) (pagesOk : Bool) (copies : Nat)
  | createTl (i depth : Nat) (ok : Bool)
  | closeSender (i : Nat)
  | closeTl (i : Nat)
  | restart (pid : UInt32)
  | pull (i j : Nat)
  | lose (k : Nat)
  | receive (r k : Nat) (mmapOk : Bool)
  | closeReader (r : Nat)

namespace State

variable (page : Nat) (s : State)

/-- The staging calls of a sender. -/
def stage (w : Sender) : Stage where
  shm := s.shm
  counter := s.counter
  sender := w

/-- The state after the calls of sender `i`, with its datagrams under way. -/
def sent (i : Nat) (c : Stage) (m : Message) (copies : Nat)
    (out : Option Outbound) : State :=
  { s with
    shm := c.shm
    counter := c.counter
    senders := s.senders.set i c.sender
    pending := s.pending ++
      match out with
      | some out => List.replicate copies (out.datagram m)
      | none => [] }

/-- A payload that does not fit a slot is staged before the latch. -/
def stageDurable (m : Message) (clock : UInt32) (creation : Creation) :
    Shm × UInt32 × Option Staged :=
  if TL_EMBED_CAP < m.payload.length then
    shmStageDurable page s.pid clock creation s.shm s.counter m.payload
  else (s.shm, s.counter, none)

/-- `transient_local_publish` of the ring with index `i`. -/
def publishLatched (i : Nat) (ring : TlRing) (m : Message) (clock : UInt32)
    (creation : Creation) (pagesOk : Bool) (copies : Nat) : State :=
  let durable := s.stageDurable page m clock creation
  let staged := durable.2.2
  let latch := ring.latch m staged pagesOk
  -- A segment that was not latched goes with its handle, and so does the one
  -- that was evicted.
  let dropped := if latch.2.1 then latch.2.2 else staged.map fun st => st.desc.key
  { s with
    shm :=
      match dropped with
      | some key => durable.1.unlink key
      | none => durable.1
    counter := durable.2.1
    rings := s.rings.set i latch.1
    pending := s.pending ++
      List.replicate copies ((m.live staged latch.2.1).datagram m) }

/-- `tl_ring_close`: the names of the durable segments go. -/
def closeTl (i : Nat) (ring : TlRing) : State :=
  { s with
    shm := (ring.slots.filterMap TlSlot.durable).foldl Shm.unlink s.shm
    rings := s.rings.set i .closed }

/-- A receiver with cache `cache` resolves `p`. -/
def resolve (mmapOk : Bool) (cache : Cache) (p : Pending) :
    Cache × Option (WireHeader × List UInt8) :=
  match p.arrival.decode with
  | none => (cache, none)
  | some (hdr, payload) => shmResolveIncoming s.shm mmapOk cache hdr payload

/-- A process that has created nothing, over no segments. -/
def init (pid : UInt32) (senders rings readers : Nat) : State where
  shm :=
    { objects := fun _ => .created 0, next := 0, linked := fun _ => none }
  pid := pid
  counter := 1
  senders := List.replicate senders .fresh
  rings := List.replicate rings .closed
  caches := List.replicate readers []
  pending := []
  received := []

end State

/-- One step. -/
def step (page : Nat) (s : State) : Act → Option State
  | .sendSerialized i m io copies =>
    s.senders[i]?.map fun w =>
      let done := (s.stage w).prepareSend page s.pid io m
      s.sent i done.1 m copies (some done.2)
  | .send i m est io copies =>
    s.senders[i]?.map fun w =>
      let done := (s.stage w).serializePrepareSend page s.pid io m est
      s.sent i done.1 m copies done.2
  | .publishLatched i m clock creation pagesOk copies =>
    if m.msgType = 0 then
      s.rings[i]?.map fun ring =>
        s.publishLatched page i ring m clock creation pagesOk copies
    else none
  | .createTl i depth ok =>
    s.rings[i]?.bind fun ring =>
      -- The id is taken before anything can fail.
      if ring.slots.isEmpty then
        some
          { s with
            counter := s.counter + 1
            rings := if ok then s.rings.set i (.create depth) else s.rings }
      else none
  | .closeSender i =>
    s.senders[i]?.map fun w =>
      { s with
        shm := if w.ring.mapped then s.shm.unlink w.key else s.shm
        senders := s.senders.set i { w with ring := w.ring.close } }
  | .closeTl i => s.rings[i]?.map (s.closeTl i)
  | .restart pid =>
    some
      { s with
        pid := pid
        counter := 1
        senders := s.senders.map fun _ => .fresh
        rings := s.rings.map fun _ => .closed }
  | .pull i j =>
    s.rings[i]?.bind fun ring =>
      ring.slots[j]?.bind fun slot =>
        match slot.read, slot.latched with
        | some (wireHeader, payload), some (m, staged) =>
          some
            { s with
              pending := s.pending ++ [⟨.record wireHeader payload, m, staged⟩] }
        | _, _ => none
  | .lose k => some { s with pending := s.pending.eraseIdx k }
  | .receive r k mmapOk =>
    match s.caches[r]?, s.pending[k]? with
    | some cache, some p =>
      let out := s.resolve mmapOk cache p
      some
        { s with
          caches := s.caches.set r out.1
          pending := s.pending.eraseIdx k
          received :=
            match out.2 with
            | some delivered => ⟨p.sent, delivered⟩ :: s.received
            | none => s.received }
    | _, _ => none
  | .closeReader r => some { s with caches := s.caches.set r [] }

/-- The wire as a machine. -/
def machine (page : Nat) : Machine State Act where
  step := step page

end RmwUnixSocket.Wire
