import RmwUnixSocket.Lib.Keyed
import RmwUnixSocket.Receive.RecvFrom
import RmwUnixSocket.Wire.Transport

/-!
# Draining a socket into a queue

The socket of a subscription, a service or a client is drained in two places: by `rmw_wait`,
where `drain_socket` serves all three, and by the take side, where each of the three has a loop
of its own.  All of them skip messages of another type and messages that cannot be resolved,
and a subscription also skips what its replay has delivered and, if it ignores local
publications, what comes from its own context.

The two sides leave the same queue for a subscription.  For a service and a client they do so
until the queue is longer than the depth that `rmw_wait` passes: the take side has no limit.

The clock reading of a receipt comes with the datagram, the same for both sides.  Log texts and
callbacks are left out.
-/

namespace RmwUnixSocket.Receive

open Keyed (newest)
open Wire (WireHeader Gid Shm Cache SHM_PAYLOAD_FLAG shmResolveIncoming)
open Latch (wireHeaderSize)

/-! ## What waits in a socket -/

/-- A datagram, with the shared memory that a descriptor in it meets, whether a new mapping
succeeds, and the clock when the message is queued. -/
structure Arrived where
  bytes : List UInt8
  shm : Shm
  mmapOk : Bool
  now : UInt64

structure ReceivedMessage where
  header : WireHeader
  payload : List UInt8
  receivedTimestampNs : UInt64
deriving DecidableEq

/-- The sequence numbers up to which the replay of a publisher has delivered. -/
abbrev Watermarks := List (Gid × Int64)

/-- `is_same_context`: the context id follows the pid and the counter in the GID. -/
def isSameContext (hdr : WireHeader) (contextId : UInt64) : Bool :=
  UInt64.ofNat ((ByteMemory.ofBytes hdr.gid.val).loadLE 8 8) = contextId

/-- `while (queue.size() > max_depth) queue.pop_front()`. -/
def popOver (maxDepth : Nat) : List ReceivedMessage → List ReceivedMessage
  | [] => []
  | m :: queue =>
    if maxDepth < (m :: queue).length then popOver maxDepth queue else m :: queue

/-- What a call of `recv_from` has returned, with other threads on the socket, is what
`Wire.recvFrom` makes of one datagram alone. -/
theorem Returned.Whole.recvFrom {sent : List (List UInt8)} {r : Returned}
    (h : r.Whole sent) : ∃ bytes, sent[r.id]? = some bytes ∧
      Wire.recvFrom bytes = some (WireHeader.ofBytes r.header, r.payload) := by
  obtain ⟨bytes, hsent, hlong, hheader, hpayload⟩ := h
  refine ⟨bytes, hsent, ?_⟩
  have hhdr : WireHeader.ofBytes r.header = WireHeader.ofBytes bytes := by
    rw [hheader]
    exact WireHeader.ofBytes_take hlong
  rw [Wire.recvFrom, if_neg (by omega), hpayload, hhdr]

/-! ## The side of rmw_wait -/

/-- The arguments of `drain_socket` beside the socket, the queue and the mappings.  Services
and clients pass no watermarks. -/
structure DrainArgs where
  maxDepth : Nat
  expectedMsgType : UInt8
  ignoreLocal : Bool := false
  contextId : UInt64 := 0
  replayWatermarks : Option Watermarks := none

def DrainArgs.dup (args : DrainArgs) (hdr : WireHeader) : Bool :=
  match args.replayWatermarks with
  | none => false
  | some marks =>
    match marks.lookup hdr.gid with
    | none => false
    | some mark => hdr.sequenceNumber.toInt64 ≤ mark

/-- rmw_wait.cpp `drain_socket`.  `recv_from` skips junk. -/
def drainSocket (args : DrainArgs) :
    List Arrived → Cache → List ReceivedMessage → Cache × List ReceivedMessage
  | [], cache, queue => (cache, queue)
  | d :: ds, cache, queue =>
    match Wire.recvFrom d.bytes with
    | none => drainSocket args ds cache queue
    | some (hdr, payload) =>
      if hdr.msgType &&& ~~~SHM_PAYLOAD_FLAG ≠ args.expectedMsgType then
        drainSocket args ds cache queue
      else if args.dup hdr then drainSocket args ds cache queue
      else
        match shmResolveIncoming d.shm d.mmapOk cache hdr payload with
        | (cache, none) => drainSocket args ds cache queue
        | (cache, some (hdr, payload)) =>
          if args.ignoreLocal && isSameContext hdr args.contextId then
            drainSocket args ds cache queue
          else
            drainSocket args ds cache
              (popOver args.maxDepth (queue ++ [⟨hdr, payload, d.now⟩]))

/-! ## Subscriptions -/

/-- The fields of a `UdsSubscription` that drains and takes use. -/
structure UdsSubscription where
  queueDepth : Nat
  ignoreLocalPublications : Bool
  contextId : UInt64
  replayedWatermarks : Watermarks
  shmCache : Cache
  messageQueue : List ReceivedMessage
  receptionSeq : UInt64

/-- rmw_subscription.cpp `is_replayed_duplicate`. -/
def isReplayedDuplicate (sub : UdsSubscription) (hdr : WireHeader) : Bool :=
  match sub.replayedWatermarks.lookup hdr.gid with
  | none => false
  | some mark => hdr.sequenceNumber.toInt64 ≤ mark

/-- rmw_subscription.cpp `drain_subscription`. -/
def drainSubscription : List Arrived → UdsSubscription → UdsSubscription
  | [], sub => sub
  | d :: ds, sub =>
    match Wire.recvFrom d.bytes with
    | none => drainSubscription ds sub
    | some (hdr, payload) =>
      if hdr.msgType &&& ~~~SHM_PAYLOAD_FLAG ≠ 0 then drainSubscription ds sub
      else if isReplayedDuplicate sub hdr then drainSubscription ds sub
      else
        match shmResolveIncoming d.shm d.mmapOk sub.shmCache hdr payload with
        | (shmCache, none) => drainSubscription ds { sub with shmCache }
        | (shmCache, some (hdr, payload)) =>
          if sub.ignoreLocalPublications && isSameContext hdr sub.contextId then
            drainSubscription ds { sub with shmCache }
          else
            drainSubscription ds
              { sub with
                shmCache
                messageQueue :=
                  popOver sub.queueDepth (sub.messageQueue ++ [⟨hdr, payload, d.now⟩]) }

/-- The call of `drain_socket` for a subscription. -/
def waitDrainSubscription (arrived : List Arrived) (sub : UdsSubscription) : UdsSubscription :=
  let args : DrainArgs :=
    { maxDepth := sub.queueDepth
      expectedMsgType := 0
      ignoreLocal := sub.ignoreLocalPublications
      contextId := sub.contextId
      replayWatermarks := some sub.replayedWatermarks }
  let drained := drainSocket args arrived sub.shmCache sub.messageQueue
  { sub with shmCache := drained.1, messageQueue := drained.2 }

/-! ## Services and clients -/

/-- The fields of a `UdsService` that a drain uses. -/
structure UdsService where
  shmCache : Cache
  requestQueue : List ReceivedMessage

/-- The receive loop of rmw_service.cpp `rmw_take_request`. -/
def drainRequests : List Arrived → UdsService → UdsService
  | [], srv => srv
  | d :: ds, srv =>
    match Wire.recvFrom d.bytes with
    | none => drainRequests ds srv
    | some (hdr, payload) =>
      if hdr.msgType &&& ~~~SHM_PAYLOAD_FLAG ≠ 1 then drainRequests ds srv
      else
        match shmResolveIncoming d.shm d.mmapOk srv.shmCache hdr payload with
        | (shmCache, none) => drainRequests ds { srv with shmCache }
        | (shmCache, some (hdr, payload)) =>
          drainRequests ds
            { shmCache, requestQueue := srv.requestQueue ++ [⟨hdr, payload, d.now⟩] }

/-- The call of `drain_socket` for a service. -/
def waitDrainService (arrived : List Arrived) (srv : UdsService) : UdsService :=
  let drained := drainSocket { maxDepth := 100, expectedMsgType := 1 } arrived
    srv.shmCache srv.requestQueue
  { shmCache := drained.1, requestQueue := drained.2 }

/-- The fields of a `UdsClient` that a drain uses. -/
structure UdsClient where
  shmCache : Cache
  responseQueue : List ReceivedMessage

/-- The receive loop of rmw_client.cpp `rmw_take_response`. -/
def drainResponses : List Arrived → UdsClient → UdsClient
  | [], cli => cli
  | d :: ds, cli =>
    match Wire.recvFrom d.bytes with
    | none => drainResponses ds cli
    | some (hdr, payload) =>
      if hdr.msgType &&& ~~~SHM_PAYLOAD_FLAG ≠ 2 then drainResponses ds cli
      else
        match shmResolveIncoming d.shm d.mmapOk cli.shmCache hdr payload with
        | (shmCache, none) => drainResponses ds { cli with shmCache }
        | (shmCache, some (hdr, payload)) =>
          drainResponses ds
            { shmCache, responseQueue := cli.responseQueue ++ [⟨hdr, payload, d.now⟩] }

/-- The call of `drain_socket` for a client. -/
def waitDrainClient (arrived : List Arrived) (cli : UdsClient) : UdsClient :=
  let drained := drainSocket { maxDepth := 100, expectedMsgType := 2 } arrived
    cli.shmCache cli.responseQueue
  { shmCache := drained.1, responseQueue := drained.2 }

/-! ## Pushing and trimming -/

theorem popOver_eq (maxDepth : Nat) (queue : List ReceivedMessage) :
    popOver maxDepth queue = newest maxDepth queue := by
  induction queue with
  | nil => simp [popOver, newest]
  | cons m queue ih =>
    unfold popOver
    split
    · rename_i hover
      rw [ih]
      unfold newest
      rw [show (m :: queue).length - maxDepth = queue.length - maxDepth + 1 by
        simp only [List.length_cons] at hover ⊢; omega]
      rfl
    · rename_i hfits
      unfold newest
      rw [show (m :: queue).length - maxDepth = 0 by omega]
      rfl

/-- What was cut off before a push would have been cut off after it. -/
theorem newest_newest_append {α : Type} (n : Nat) (xs ys : List α) :
    newest n (newest n xs ++ ys) = newest n (xs ++ ys) := by
  have hdrop : newest n xs ++ ys = (xs ++ ys).drop (xs.length - n) :=
    (List.drop_append_of_le_length (by omega)).symm
  rw [hdrop]
  unfold newest
  rw [List.drop_drop]
  congr 1
  simp only [List.length_drop, List.length_append]
  omega

/-- The queue after pushes that each trim it. -/
def pushAll (maxDepth : Nat) (queue accepted : List ReceivedMessage) : List ReceivedMessage :=
  accepted.foldl (fun queue m => popOver maxDepth (queue ++ [m])) queue

theorem pushAll_eq (maxDepth : Nat) (queue accepted : List ReceivedMessage) :
    pushAll maxDepth queue accepted =
      if accepted = [] then queue else newest maxDepth (queue ++ accepted) := by
  induction accepted generalizing queue with
  | nil => rfl
  | cons m accepted ih =>
    have hstep : pushAll maxDepth queue (m :: accepted) =
        pushAll maxDepth (newest maxDepth (queue ++ [m])) accepted := by
      rw [← popOver_eq]
      rfl
    rw [hstep, ih, if_neg (List.cons_ne_nil m accepted)]
    split
    · rename_i hnil
      rw [hnil]
    · rw [newest_newest_append, List.append_assoc]
      rfl

/-- Trimming leaves the queue alone exactly if nothing was pushed or everything fits. -/
theorem pushAll_eq_append_iff (maxDepth : Nat) (queue accepted : List ReceivedMessage) :
    pushAll maxDepth queue accepted = queue ++ accepted ↔
      accepted = [] ∨ queue.length + accepted.length ≤ maxDepth := by
  rw [pushAll_eq]
  by_cases hnil : accepted = []
  · simp [hnil]
  · rw [if_neg hnil]
    constructor
    · intro h
      right
      have hlen := congrArg List.length h
      have hpos := List.length_pos_iff.mpr hnil
      simp only [newest, List.length_drop, List.length_append] at hlen
      omega
    · rintro (h | h)
      · exact absurd h hnil
      · unfold newest
        rw [show (queue ++ accepted).length - maxDepth = 0 by
          rw [List.length_append]; omega]
        rfl

/-! ## The two sides -/

/-- The two drains of a subscription are one function. -/
theorem drainSocket_subscription (arrived : List Arrived) (sub : UdsSubscription) :
    waitDrainSubscription arrived sub = drainSubscription arrived sub := by
  induction arrived generalizing sub with
  | nil => rfl
  | cons d ds ih =>
    have hdup : ∀ hdr : WireHeader, DrainArgs.dup
        { maxDepth := sub.queueDepth
          expectedMsgType := 0
          ignoreLocal := sub.ignoreLocalPublications
          contextId := sub.contextId
          replayWatermarks := some sub.replayedWatermarks } hdr =
        isReplayedDuplicate sub hdr := fun _ => rfl
    simp only [waitDrainSubscription, drainSocket, drainSubscription, hdup]
    cases Wire.recvFrom d.bytes with
    | none => exact ih sub
    | some received =>
      obtain ⟨hdr, payload⟩ := received
      simp only
      by_cases htype : hdr.msgType &&& ~~~SHM_PAYLOAD_FLAG ≠ 0
      · rw [if_pos htype, if_pos htype]
        exact ih sub
      · rw [if_neg htype, if_neg htype]
        by_cases hreplayed : isReplayedDuplicate sub hdr = true
        · rw [if_pos hreplayed, if_pos hreplayed]
          exact ih sub
        · rw [if_neg hreplayed, if_neg hreplayed]
          cases shmResolveIncoming d.shm d.mmapOk sub.shmCache hdr payload with
          | mk shmCache resolved =>
            cases resolved with
            | none => exact ih { sub with shmCache }
            | some message =>
              obtain ⟨hdr, payload⟩ := message
              simp only
              split
              · exact ih { sub with shmCache }
              · exact ih { sub with
                  shmCache
                  messageQueue :=
                    popOver sub.queueDepth (sub.messageQueue ++ [⟨hdr, payload, d.now⟩]) }

/-- The messages of a type that a socket holds and that resolve. -/
def accepted (msgType : UInt8) : List Arrived → Cache → List ReceivedMessage
  | [], _ => []
  | d :: ds, cache =>
    match Wire.recvFrom d.bytes with
    | none => accepted msgType ds cache
    | some (hdr, payload) =>
      if hdr.msgType &&& ~~~SHM_PAYLOAD_FLAG ≠ msgType then accepted msgType ds cache
      else
        match shmResolveIncoming d.shm d.mmapOk cache hdr payload with
        | (cache, none) => accepted msgType ds cache
        | (cache, some (hdr, payload)) => ⟨hdr, payload, d.now⟩ :: accepted msgType ds cache

/-- Without watermarks and local publications, `drain_socket` pushes what is accepted. -/
theorem drainSocket_accepted (maxDepth : Nat) (msgType : UInt8) (arrived : List Arrived)
    (cache : Cache) (queue : List ReceivedMessage) :
    (drainSocket { maxDepth, expectedMsgType := msgType } arrived cache queue).2 =
      pushAll maxDepth queue (accepted msgType arrived cache) := by
  induction arrived generalizing cache queue with
  | nil => rfl
  | cons d ds ih =>
    simp only [drainSocket, accepted]
    cases Wire.recvFrom d.bytes with
    | none => exact ih cache queue
    | some received =>
      obtain ⟨hdr, payload⟩ := received
      simp only
      by_cases htype : hdr.msgType &&& ~~~SHM_PAYLOAD_FLAG ≠ msgType
      · rw [if_pos htype, if_pos htype]
        exact ih cache queue
      · rw [if_neg htype, if_neg htype]
        cases shmResolveIncoming d.shm d.mmapOk cache hdr payload with
        | mk cache resolved =>
          cases resolved with
          | none => exact ih cache queue
          | some message =>
            exact ih cache (popOver maxDepth (queue ++ [⟨message.1, message.2, d.now⟩]))

theorem drainRequests_accepted (arrived : List Arrived) (srv : UdsService) :
    (drainRequests arrived srv).requestQueue =
      srv.requestQueue ++ accepted 1 arrived srv.shmCache := by
  induction arrived generalizing srv with
  | nil => simp [drainRequests, accepted]
  | cons d ds ih =>
    simp only [drainRequests, accepted]
    cases Wire.recvFrom d.bytes with
    | none => exact ih srv
    | some received =>
      obtain ⟨hdr, payload⟩ := received
      simp only
      by_cases htype : hdr.msgType &&& ~~~SHM_PAYLOAD_FLAG ≠ 1
      · rw [if_pos htype, if_pos htype]
        exact ih srv
      · rw [if_neg htype, if_neg htype]
        cases shmResolveIncoming d.shm d.mmapOk srv.shmCache hdr payload with
        | mk shmCache resolved =>
          cases resolved with
          | none => exact ih { srv with shmCache }
          | some message =>
            simp only [ih, List.append_assoc, List.singleton_append]

theorem drainResponses_accepted (arrived : List Arrived) (cli : UdsClient) :
    (drainResponses arrived cli).responseQueue =
      cli.responseQueue ++ accepted 2 arrived cli.shmCache := by
  induction arrived generalizing cli with
  | nil => simp [drainResponses, accepted]
  | cons d ds ih =>
    simp only [drainResponses, accepted]
    cases Wire.recvFrom d.bytes with
    | none => exact ih cli
    | some received =>
      obtain ⟨hdr, payload⟩ := received
      simp only
      by_cases htype : hdr.msgType &&& ~~~SHM_PAYLOAD_FLAG ≠ 2
      · rw [if_pos htype, if_pos htype]
        exact ih cli
      · rw [if_neg htype, if_neg htype]
        cases shmResolveIncoming d.shm d.mmapOk cli.shmCache hdr payload with
        | mk shmCache resolved =>
          cases resolved with
          | none => exact ih { cli with shmCache }
          | some message =>
            simp only [ih, List.append_assoc, List.singleton_append]

/-- The queue of a subscription does not depend on who drains the socket.  The queues of
services and clients do as soon as they grow beyond the depth of 100 that `rmw_wait` passes. -/
theorem drains_agree (arrived : List Arrived) :
    (∀ sub, waitDrainSubscription arrived sub = drainSubscription arrived sub) ∧
    (∀ srv, (waitDrainService arrived srv).requestQueue =
        (drainRequests arrived srv).requestQueue ↔
      accepted 1 arrived srv.shmCache = [] ∨
        srv.requestQueue.length + (accepted 1 arrived srv.shmCache).length ≤ 100) ∧
    ∀ cli, (waitDrainClient arrived cli).responseQueue =
        (drainResponses arrived cli).responseQueue ↔
      accepted 2 arrived cli.shmCache = [] ∨
        cli.responseQueue.length + (accepted 2 arrived cli.shmCache).length ≤ 100 := by
  refine ⟨drainSocket_subscription arrived, ?_, ?_⟩
  · intro srv
    rw [drainRequests_accepted, ← pushAll_eq_append_iff, ← drainSocket_accepted]
    rfl
  · intro cli
    rw [drainResponses_accepted, ← pushAll_eq_append_iff, ← drainSocket_accepted]
    rfl

/-- Shared memory without segments. -/
def emptyShm : Shm where
  objects := fun _ => .created 0
  next := 0
  linked := fun _ => none

/-- The header of a request of no bytes. -/
def requestHeader (sequenceNumber : Nat) : WireHeader where
  gid := ⟨List.replicate 16 0, rfl⟩
  sequenceNumber := UInt64.ofNat sequenceNumber
  sourceTimestampNs := 0
  payloadSize := 0
  msgType := 1

/-- A service with 100 requests in its queue. -/
def busyService : UdsService where
  shmCache := []
  requestQueue := (List.range 100).map fun i => ⟨requestHeader i, [], 0⟩

/-- A wait that finds one more request in the socket loses the oldest one. -/
theorem rmw_wait_loses_request :
    (waitDrainService [⟨(requestHeader 100).toBytes, emptyShm, true, 0⟩]
      busyService).requestQueue ≠
        (drainRequests [⟨(requestHeader 100).toBytes, emptyShm, true, 0⟩]
          busyService).requestQueue ∧
    (waitDrainService [⟨(requestHeader 100).toBytes, emptyShm, true, 0⟩]
      busyService).requestQueue.map (·.header.sequenceNumber) =
        (List.range' 1 100).map UInt64.ofNat ∧
    (drainRequests [⟨(requestHeader 100).toBytes, emptyShm, true, 0⟩]
      busyService).requestQueue.map (·.header.sequenceNumber) =
        (List.range 101).map UInt64.ofNat := by
  have hwait : (waitDrainService [⟨(requestHeader 100).toBytes, emptyShm, true, 0⟩]
      busyService).requestQueue.map (·.header.sequenceNumber) =
        (List.range' 1 100).map UInt64.ofNat := by
    decide +kernel
  have htake : (drainRequests [⟨(requestHeader 100).toBytes, emptyShm, true, 0⟩]
      busyService).requestQueue.map (·.header.sequenceNumber) =
        (List.range 101).map UInt64.ofNat := by
    decide +kernel
  refine ⟨?_, hwait, htake⟩
  intro hsame
  rw [hsame, htake] at hwait
  exact absurd hwait (by decide)

end RmwUnixSocket.Receive
