import RmwUnixSocket.Lib.Machine
import RmwUnixSocket.Latch.Collect

/-!
# Publishers and a late joiner

Any number of threads publish on any number of TRANSIENT_LOCAL publishers
(`transient_local_publish`), while one subscription is created
(`rmw_create_subscription`) and later drained (`drain_subscription`,
`drain_socket`).  A step is one load or store of the shared memory, one system
call, or one turn of a loop under a lock that nobody else waits for.

* A publisher's `crit` is the call that holds its `cache_mutex`.
* Of the registry there is the generation, which other processes may bump at
  any time, and `visible`: whether a query of subscriptions finds this one.
  `cachedPath` says whether the publisher's cached paths have its path.
* Durable segments have unique numbers, and a segment exists until it is
  unlinked.
* The socket is a FIFO queue.  A send may be lost.
* One thread drains at a time.

The fields of `PullTrace` and the lists `enqueued`, `sent` and `unresolved`
are ghosts.
-/

namespace RmwUnixSocket.Latch.Replay

open SlotRing (slotOf)

/-! ## Publishers -/

/-- What does not change: the depths, whether `tl_ring_create` has succeeded,
and whether the subscription ignores the publisher
(`ignore_local_publications` and the same context). -/
structure Config (G : Type) where
  depth : G → Nat
  hasRing : G → Bool
  ignored : G → Bool
  queueDepth : Nat

/-- The slots of a publisher's ring. -/
def Config.slots {G : Type} (C : Config G) (g : G) : Nat :=
  tlRingSlots (C.depth g)

/-- A call of `transient_local_publish` after its staging. -/
structure Call where
  sourceTimestampNs : Int
  payload : List UInt8
  staged : Option Nat
  deriving DecidableEq

/-- The header that `rmw_publish` fills in, with the sequence number of the
critical section. -/
def Call.header {G : Type} (call : Call) (g : G) (seq : Nat) : WireHeader G where
  gid := g
  sequenceNumber := seq
  sourceTimestampNs := call.sourceTimestampNs
  payloadSize := call.payload.length % 2 ^ 32
  msgType := 0
  shmPayload := false

/-- Where the critical section is. -/
inductive CritPc (G : Type)
  | assign
  | latch (hdr : WireHeader G)
  | latching (hdr : WireHeader G)
  | loadGen (hdr : WireHeader G) (latched : Bool)
  | refresh (hdr : WireHeader G) (latched : Bool) (gen : Nat)
  | send (hdr : WireHeader G) (latched sees : Bool)
  | unlock

/-- A call inside the critical section. -/
structure Crit (G T : Type) where
  thread : T
  call : Call
  evicted : Option Nat
  pc : CritPc G

/-- `UdsPublisher`. -/
structure Publisher (G T : Type) where
  writer : Writer G
  sequenceNumber : Nat
  cachedGeneration : Nat
  cachedPath : Bool
  crit : Option (Crit G T)

/-- Where a thread is. -/
inductive ThreadPc (G : Type)
  | idle
  | lock (g : G) (call : Call)
  | inside (g : G)
  | destroy (segment : Nat)

/-- A datagram, and a message in the queue. -/
structure Datagram (G : Type) where
  header : WireHeader G
  payload : List Cell
  deriving DecidableEq

/-- What the publisher sends: the descriptor of a large sample that was
latched, or the bytes. -/
def Call.datagram {G : Type} (call : Call) (hdr : WireHeader G)
    (latched : Bool) : Datagram G :=
  match call.staged with
  | some segment =>
    if latched ∧ SHM_PAYLOAD_THRESHOLD ≤ call.payload.length then
      { header :=
          { hdr with shmPayload := true, payloadSize := descriptorSize },
        payload := descriptorCells segment }
    else { header := hdr, payload := payloadCells call.payload }
  | none => { header := hdr, payload := payloadCells call.payload }

/-! ## The subscription -/

/-- Where `rmw_create_subscription` or a drain is. -/
inductive SubPc (G : Type)
  | register
  | bump
  | query
  | next (todo : List G)
  | pull (g : G) (todo : List G) (pull : PullPc G)
  | enqueue (g : G) (todo : List G) (rest : List (TlPulledRecord G))
      (maxSeq : Nat)
  | ready
  | dedup (d : Datagram G)
  | resolve (d : Datagram G)
  | push (d : Datagram G)

/-- The ghosts of the pull from one publisher: the commits at its start, the
ghosts of its scan, what the scan has collected, what the depth limit has
kept, and the marks at the end of the enqueue loop. -/
structure PullTrace (G : Type) where
  started : Nat
  seen : Nat → Nat
  left : Nat → Nat
  collected : List (TlPulledRecord G)
  kept : List (TlPulledRecord G)
  ended : Nat

/-- An entry of the queue's history. -/
structure Enqueued (G : Type) where
  header : WireHeader G
  live : Bool
  deriving DecidableEq

/-- `UdsSubscription`, its registry slot and its socket. -/
structure Subscription (G : Type) where
  visible : Bool
  pc : SubPc G
  socket : List (Datagram G)
  queue : List (Datagram G)
  watermarks : G → Option Nat
  enqueued : List (Enqueued G)
  sent : List (Datagram G)
  unresolved : List (Datagram G)
  trace : G → PullTrace G

/-- The whole system. -/
structure State (G T : Type) where
  threads : T → ThreadPc G
  pubs : G → Publisher G T
  segments : Nat → Option (List UInt8)
  staged : Nat
  generation : Nat
  sub : Subscription G

variable {G T : Type}

/-- The message queue after a `push_back` and the trim. -/
def pushTrim (depth : Nat) (queue : List (Datagram G)) (d : Datagram G) :
    List (Datagram G) :=
  Keyed.newest depth (queue ++ [d])

/-- The sequence number of the last record, or 0. -/
def lastSequence (records : List (TlPulledRecord G)) : Nat :=
  (records.getLast?.map TlPulledRecord.sequenceNumber).getD 0

namespace State

/-- Nobody has published, and the subscription does not exist. -/
def init (G T : Type) [Inhabited G] : State G T where
  threads := fun _ => .idle
  pubs := fun _ =>
    { writer := .create G, sequenceNumber := 1, cachedGeneration := 0,
      cachedPath := false, crit := none }
  segments := fun _ => none
  staged := 0
  generation := 0
  sub :=
    { visible := false, pc := .register, socket := [], queue := [],
      watermarks := fun _ => none, enqueued := [], sent := [],
      unresolved := [],
      trace := fun _ =>
        { started := 0, seen := fun _ => 0, left := fun _ => 0,
          collected := [], kept := [], ended := 0 } }

variable (s : State G T)

/-- `shm_resolve_incoming`.  `ok` is the outcome of the system calls. -/
def resolve (d : Datagram G) (ok : Bool) : Option (Datagram G) :=
  if d.header.shmPayload then
    match (segmentOf d.payload).bind s.segments with
    | some bytes =>
      if ok then
        some
          { header :=
              { d.header with shmPayload := false, payloadSize := bytes.length },
            payload := payloadCells bytes }
      else none
    | none => none
  else some d

/-- A durable segment is unlinked. -/
def unlink (segment : Nat) : State G T :=
  { s with segments := Function.update s.segments segment none }

/-- The segment of a sample that is not latched is destroyed. -/
def unlinkStaged : Option Nat → State G T
  | some segment => s.unlink segment
  | none => s

variable [DecidableEq G] [DecidableEq T]

def setPub (g : G) (pub : Publisher G T) : State G T :=
  { s with pubs := Function.update s.pubs g pub }

def setThread (t : T) (pc : ThreadPc G) : State G T :=
  { s with threads := Function.update s.threads t pc }

/-- The critical section of `g` goes on. -/
def critGoto (g : G) (crit : Crit G T) (pub : Publisher G T) (pc : CritPc G) :
    State G T :=
  s.setPub g { pub with crit := some { crit with pc := pc } }

/-- The subscription goes on. -/
def subGoto (pc : SubPc G) : State G T :=
  { s with sub := { s.sub with pc := pc } }

/-- A ghost of the pull from `g` is set. -/
def note (g : G) (f : PullTrace G → PullTrace G) : State G T :=
  { s with
    sub :=
      { s.sub with
        trace := Function.update s.sub.trace g (f (s.sub.trace g)) } }

/-- A message enters the queue. -/
def enqueue (depth : Nat) (d : Datagram G) (live : Bool) : State G T :=
  { s with
    sub :=
      { s.sub with
        queue := pushTrim depth s.sub.queue d,
        enqueued := s.sub.enqueued ++ [{ header := d.header, live := live }] } }

/-- A datagram reaches the socket. -/
def deliver (d : Datagram G) : State G T :=
  { s with
    sub := { s.sub with socket := s.sub.socket ++ [d], sent := s.sub.sent ++ [d] } }

end State

/-! ## Steps -/

/-- A step.  `ok` is the outcome of the system call of the step. -/
inductive Act (G T : Type)
  | publish (t : T) (g : G) (sourceTimestampNs : Int) (payload : List UInt8)
      (ok : Bool)
  | lock (t : T)
  | crit (g : G) (ok : Bool)
  | destroy (t : T)
  | bump
  | query (gs : List G)
  | sub (ok : Bool)
  | take

section Step

variable [DecidableEq G] [DecidableEq T]

/-- The staging of a payload that does not fit a slot. -/
def stage (s : State G T) (payload : List UInt8) (ok : Bool) :
    State G T × Option Nat :=
  if TL_EMBED_CAP < payload.length ∧ payload.length ≤ Payload.UINT32_MAX ∧
      ok then
    ({ s with
       segments := Function.update s.segments s.staged (some payload),
       staged := s.staged + 1 }, some s.staged)
  else (s, none)

/-- One step of the critical section of `g`. -/
def critStep (C : Config G) (s : State G T) (g : G) (crit : Crit G T)
    (ok : Bool) : State G T :=
  let pub := s.pubs g
  match crit.pc with
  | .assign =>
    s.critGoto g crit { pub with sequenceNumber := pub.sequenceNumber + 1 }
      (.latch (crit.call.header g pub.sequenceNumber))
  | .latch hdr =>
    match slotRecord hdr crit.call.payload crit.call.staged with
    | some rec =>
      if C.hasRing g ∧ ok then
        s.critGoto g { crit with evicted := pub.writer.ring.evicted (C.slots g) }
          { pub with writer := pub.writer.markNext (C.slots g) rec }
          (.latching hdr)
      else
        (s.unlinkStaged crit.call.staged).critGoto g crit pub
          (.loadGen hdr false)
    | none => s.critGoto g crit pub (.loadGen hdr false)
  | .latching hdr =>
    let writer := pub.writer.store (C.slots g)
    match writer.pc with
    | .idle =>
      s.critGoto g crit { pub with writer := writer } (.loadGen hdr true)
    | _ => s.critGoto g crit { pub with writer := writer } (.latching hdr)
  | .loadGen hdr latched =>
    s.critGoto g crit pub (.refresh hdr latched s.generation)
  | .refresh hdr latched gen =>
    if pub.cachedGeneration < gen then
      s.critGoto g crit
        { pub with cachedGeneration := gen, cachedPath := s.sub.visible }
        (.send hdr latched s.sub.visible)
    else s.critGoto g crit pub (.send hdr latched pub.cachedPath)
  | .send hdr latched sees =>
    if sees ∧ ok then
      (s.deliver (crit.call.datagram hdr latched)).critGoto g crit pub .unlock
    else s.critGoto g crit pub .unlock
  | .unlock =>
    (s.setPub g { pub with crit := none }).setThread crit.thread
      (match crit.evicted with
        | some segment => .destroy segment
        | none => .idle)

/-- The end of `tl_ring_pull`, and the cut that the subscription makes. -/
def finishPull (C : Config G) (s : State G T) (g : G) (todo : List G)
    (sc : Scan G) (overlapped : Bool) : State G T :=
  let kept := sortedNewest C.queueDepth sc.records
  let t := s.note g fun trace =>
    { trace with collected := sc.records, kept := kept }
  if kept = [] then t.subGoto (.next todo)
  else
    let records := claimed overlapped kept
    let maxSeq := if overlapped then lastSequence records else sc.maxSeq
    if records = [] then t.subGoto (.next todo)
    else t.subGoto (.enqueue g todo records maxSeq)

/-- One step of `tl_ring_pull` on the ring of `g`, with its ghosts. -/
def pullStep (C : Config G) (s : State G T) (g : G) (todo : List G) :
    PullPc G → State G T
  | .done sc overlapped => finishPull C s g todo sc overlapped
  | .scan sc =>
    let w := (s.pubs g).writer
    (s.note g fun trace =>
      { trace with
        seen := noteSeen w sc trace.seen, left := noteLeft w sc trace.left }).subGoto
      (.pull g todo ((PullPc.scan sc).step (C.slots g) w.ring.slots))
  | pull =>
    s.subGoto (.pull g todo
      (pull.step (C.slots g) (s.pubs g).writer.ring.slots))

/-- One turn of the loop over the publishers. -/
def nextStep (C : Config G) (s : State G T) (ok : Bool) : List G → State G T
  | [] => s.subGoto .ready
  | g :: todo =>
    if C.hasRing g ∧ ¬C.ignored g ∧ ok ∧ C.queueDepth ≠ 0 then
      (s.note g fun trace =>
        { trace with
          started := (s.pubs g).writer.commits, seen := fun _ => 0 }).subGoto
        (.pull g todo (.scan (.start G)))
    else s.subGoto (.next todo)

/-- One turn of the enqueue loop, or the store of the watermark behind it. -/
def enqueueStep (C : Config G) (s : State G T) (g : G) (todo : List G)
    (maxSeq : Nat) (ok : Bool) : List (TlPulledRecord G) → State G T
  | [] =>
    let t := s.note g fun trace =>
      { trace with ended := (s.pubs g).writer.marks.length }
    { t with
      sub :=
        { t.sub with
          watermarks := Function.update t.sub.watermarks g (some maxSeq),
          pc := .next todo } }
  | rec :: rest =>
    match s.resolve { header := rec.header, payload := rec.payload } ok with
    | some d =>
      (s.enqueue C.queueDepth d false).subGoto (.enqueue g todo rest maxSeq)
    | none => s.subGoto (.enqueue g todo [] (rec.sequenceNumber - 1))

/-- The datagram is at or below the watermark of its publisher. -/
def Subscription.duplicate (sub : Subscription G) (d : Datagram G) : Bool :=
  match sub.watermarks d.header.gid with
  | some watermark => decide (d.header.sequenceNumber ≤ watermark)
  | none => false

/-- One step of the subscription other than its query. -/
def subStep (C : Config G) (s : State G T) (ok : Bool) : Option (State G T) :=
  match s.sub.pc with
  | .register =>
    some { s with sub := { s.sub with visible := true, pc := .bump } }
  | .bump => some { s.subGoto .query with generation := s.generation + 1 }
  | .query => none
  | .next todo => some (nextStep C s ok todo)
  | .pull g todo pull => some (pullStep C s g todo pull)
  | .enqueue g todo rest maxSeq => some (enqueueStep C s g todo maxSeq ok rest)
  | .ready =>
    match s.sub.socket with
    | [] => none
    | d :: socket =>
      some { s with sub := { s.sub with socket := socket, pc := .dedup d } }
  | .dedup d =>
    if d.header.msgType ≠ 0 then some (s.subGoto .ready)
    else if s.sub.duplicate d then some (s.subGoto .ready)
    else some (s.subGoto (.resolve d))
  | .resolve d =>
    match s.resolve d ok with
    | some d' =>
      if C.ignored d.header.gid then some (s.subGoto .ready)
      else some (s.subGoto (.push d'))
    | none =>
      some
        { s with
          sub :=
            { s.sub with
              unresolved := s.sub.unresolved ++ [d], pc := .ready } }
  | .push d => some ((s.enqueue C.queueDepth d true).subGoto .ready)

/-- The handle of the subscription has been returned. -/
def SubPc.created : SubPc G → Bool
  | .ready | .dedup _ | .resolve _ | .push _ => true
  | _ => false

/-- One step. -/
def step (C : Config G) (s : State G T) : Act G T → Option (State G T)
  | .publish t g sourceTimestampNs payload ok =>
    match s.threads t with
    | .idle =>
      let staged := stage s payload ok
      some (staged.1.setThread t (.lock g
        { sourceTimestampNs := sourceTimestampNs, payload := payload,
          staged := staged.2 }))
    | _ => none
  | .lock t =>
    match s.threads t with
    | .lock g call =>
      match (s.pubs g).crit with
      | none =>
        some ((s.critGoto g
          { thread := t, call := call, evicted := none, pc := .assign }
          (s.pubs g) .assign).setThread t (.inside g))
      | some _ => none
    | _ => none
  | .crit g ok => (s.pubs g).crit.map fun crit => critStep C s g crit ok
  | .destroy t =>
    match s.threads t with
    | .destroy segment => some ((s.unlink segment).setThread t .idle)
    | _ => none
  | .bump => some { s with generation := s.generation + 1 }
  | .query gs =>
    match s.sub.pc with
    | .query => if gs.Nodup then some (s.subGoto (.next gs)) else none
    | _ => none
  | .sub ok => subStep C s ok
  | .take =>
    if s.sub.pc.created then
      some { s with sub := { s.sub with queue := s.sub.queue.tail } }
    else none

/-- The publishers and the subscription as a machine. -/
def machine (C : Config G) : Machine (State G T) (Act G T) where
  step := step C

end Step

end RmwUnixSocket.Latch.Replay
