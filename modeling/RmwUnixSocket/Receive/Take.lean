import RmwUnixSocket.Receive.Drain

/-!
# Taking messages from a subscription

`rmw_take`, `rmw_take_with_info`, `rmw_take_sequence` and the two forms that hand out the
serialized message.  Each of them checks its arguments, drains the socket, pops from the front
of the queue, and fills what the caller passed.

* The typesupport decides whether a payload decodes.  `Decoder` is a parameter: the answer may
  differ from call to call, and a failed decode leaves garbage in the message that it was given.
* `rmw_serialized_message_resize` of rcutils is a parameter too.

`Consumed` says what may become of the messages that a take pops.
-/

namespace RmwUnixSocket.Receive

/-! ## What the caller passes and gets -/

inductive RmwRet
  | ok
  | error
  | badAlloc
  | invalidArgument
  | incorrectRmwImplementation
deriving DecidableEq

/-- `RMW_CHECK_ARGUMENT_FOR_NULL` and `RMW_CHECK_TYPE_IDENTIFIERS_MATCH`. -/
structure Checks where
  nonNull : Bool
  sameImplementation : Bool

def Checks.failure (checks : Checks) : Option RmwRet :=
  if !checks.nonNull then some .invalidArgument
  else if !checks.sameImplementation then some .incorrectRmwImplementation
  else none

/-- `rmw_message_info_t`. -/
structure MessageInfo where
  sourceTimestamp : UInt64
  receivedTimestamp : UInt64
  publicationSequenceNumber : UInt64
  receptionSequenceNumber : UInt64
  publisherGid : Wire.Gid
  fromIntraProcess : Bool
deriving DecidableEq

/-- The info of a message that is the `receptionSeq`-th to be taken. -/
def ReceivedMessage.info (msg : ReceivedMessage) (receptionSeq : UInt64) : MessageInfo where
  sourceTimestamp := msg.header.sourceTimestampNs
  receivedTimestamp := msg.receivedTimestampNs
  publicationSequenceNumber := msg.header.sequenceNumber
  receptionSequenceNumber := receptionSeq
  publisherGid := msg.header.gid
  fromIntraProcess := false

/-- `deserialize` with the callbacks of the subscription: what the `n`-th decode of a call
makes of a payload, and what a failed one leaves in the message. -/
structure Decoder (M : Type) where
  decode : Nat → List UInt8 → Option M
  garble : Nat → M → M

/-- `rmw_serialized_message_t`.  The capacity is the length of the buffer. -/
structure SerializedMessage where
  buffer : List UInt8
  bufferLength : Nat

/-- The bytes that a serialized message holds. -/
def SerializedMessage.bytes (m : SerializedMessage) : List UInt8 :=
  m.buffer.take m.bufferLength

/-- `memcpy` to the start of the buffer. -/
def SerializedMessage.store (m : SerializedMessage) (payload : List UInt8) :
    SerializedMessage where
  buffer := payload ++ m.buffer.drop payload.length
  bufferLength := payload.length

/-- `rmw_serialized_message_resize`. -/
abbrev Resize := SerializedMessage → Nat → RmwRet × SerializedMessage

/-- A call of a take with one message: what the caller sees afterwards. -/
structure Take (V : Type) where
  ret : RmwRet
  taken : Bool
  message : V
  sub : UdsSubscription

/-- The same with an info. -/
structure TakeWithInfo (V : Type) extends Take V where
  info : MessageInfo

/-- `rmw_message_sequence_t`, `rmw_message_info_sequence_t`.  The capacity is the length of
the data. -/
structure Sequence (V : Type) where
  data : List V
  size : Nat

/-- A call of `rmw_take_sequence`. -/
structure TakeSequence (M : Type) where
  ret : RmwRet
  taken : Nat
  messages : Sequence M
  infos : Sequence MessageInfo
  sub : UdsSubscription

variable {M : Type}

/-! ## The five forms -/

/-- rmw_subscription.cpp `rmw_take`. -/
def rmwTake (dec : Decoder M) (checks : Checks) (arrived : List Arrived)
    (sub : UdsSubscription) (rosMessage : M) (taken : Bool) : Take M :=
  match checks.failure with
  | some ret => ⟨ret, taken, rosMessage, sub⟩
  | none =>
    let sub := drainSubscription arrived sub
    match sub.messageQueue with
    | [] => ⟨.ok, false, rosMessage, sub⟩
    | msg :: messageQueue =>
      let sub := { sub with messageQueue }
      match dec.decode 0 msg.payload with
      | none => ⟨.error, false, dec.garble 0 rosMessage, sub⟩
      | some rosMessage => ⟨.ok, true, rosMessage, sub⟩

/-- rmw_subscription.cpp `rmw_take_with_info`. -/
def rmwTakeWithInfo (dec : Decoder M) (checks : Checks) (arrived : List Arrived)
    (sub : UdsSubscription) (rosMessage : M) (messageInfo : MessageInfo) (taken : Bool) :
    TakeWithInfo M :=
  match checks.failure with
  | some ret => ⟨⟨ret, taken, rosMessage, sub⟩, messageInfo⟩
  | none =>
    let sub := drainSubscription arrived sub
    match sub.messageQueue with
    | [] => ⟨⟨.ok, false, rosMessage, sub⟩, messageInfo⟩
    | msg :: messageQueue =>
      let sub := { sub with messageQueue }
      match dec.decode 0 msg.payload with
      | none => ⟨⟨.error, false, dec.garble 0 rosMessage, sub⟩, messageInfo⟩
      | some rosMessage =>
        ⟨⟨.ok, true, rosMessage, { sub with receptionSeq := sub.receptionSeq + 1 }⟩,
          msg.info sub.receptionSeq⟩

/-- The loop of `rmw_take_sequence`: `n` turns from turn `i` on.  The queue is never empty
here, as the number of turns is at most its size. -/
def takeSequenceLoop (dec : Decoder M) : Nat → Nat → TakeSequence M → TakeSequence M
  | 0, _, r => r
  | n + 1, i, r =>
    match r.sub.messageQueue with
    | [] => r
    | msg :: messageQueue =>
      let r := { r with sub := { r.sub with messageQueue } }
      match dec.decode i msg.payload with
      | none =>
        takeSequenceLoop dec n (i + 1)
          { r with messages.data := r.messages.data.modify r.taken (dec.garble i) }
      | some message =>
        takeSequenceLoop dec n (i + 1)
          { r with
            messages.data := r.messages.data.set r.taken message
            infos.data := r.infos.data.set r.taken (msg.info r.sub.receptionSeq)
            sub.receptionSeq := r.sub.receptionSeq + 1
            taken := r.taken + 1 }

/-- rmw_subscription.cpp `rmw_take_sequence`. -/
def rmwTakeSequence (dec : Decoder M) (checks : Checks) (arrived : List Arrived)
    (sub : UdsSubscription) (count : Nat) (messages : Sequence M)
    (infos : Sequence MessageInfo) (taken : Nat) : TakeSequence M :=
  match checks.failure with
  | some ret => ⟨ret, taken, messages, infos, sub⟩
  | none =>
    let sub := drainSubscription arrived sub
    let toTake := count
    let toTake := if messages.data.length < toTake then messages.data.length else toTake
    let toTake := if infos.data.length < toTake then infos.data.length else toTake
    let toTake := if sub.messageQueue.length < toTake then sub.messageQueue.length else toTake
    let r := takeSequenceLoop dec toTake 0 ⟨.ok, 0, messages, infos, sub⟩
    { r with messages.size := r.taken, infos.size := r.taken }

/-- rmw_subscription.cpp `rmw_take_serialized_message`. -/
def rmwTakeSerializedMessage (resize : Resize) (checks : Checks) (arrived : List Arrived)
    (sub : UdsSubscription) (serializedMessage : SerializedMessage) (taken : Bool) :
    Take SerializedMessage :=
  match checks.failure with
  | some ret => ⟨ret, taken, serializedMessage, sub⟩
  | none =>
    let sub := drainSubscription arrived sub
    match sub.messageQueue with
    | [] => ⟨.ok, false, serializedMessage, sub⟩
    | msg :: messageQueue =>
      let sub := { sub with messageQueue }
      let (ret, serializedMessage) := resize serializedMessage msg.payload.length
      if ret ≠ .ok then ⟨ret, false, serializedMessage, sub⟩
      else ⟨.ok, true, serializedMessage.store msg.payload, sub⟩

/-- rmw_subscription.cpp `rmw_take_serialized_message_with_info`. -/
def rmwTakeSerializedMessageWithInfo (resize : Resize) (checks : Checks)
    (arrived : List Arrived) (sub : UdsSubscription) (serializedMessage : SerializedMessage)
    (messageInfo : MessageInfo) (taken : Bool) : TakeWithInfo SerializedMessage :=
  match checks.failure with
  | some ret => ⟨⟨ret, taken, serializedMessage, sub⟩, messageInfo⟩
  | none =>
    let sub := drainSubscription arrived sub
    match sub.messageQueue with
    | [] => ⟨⟨.ok, false, serializedMessage, sub⟩, messageInfo⟩
    | msg :: messageQueue =>
      let sub := { sub with messageQueue }
      let (ret, serializedMessage) := resize serializedMessage msg.payload.length
      if ret ≠ .ok then ⟨⟨ret, false, serializedMessage, sub⟩, messageInfo⟩
      else
        ⟨⟨.ok, true, serializedMessage.store msg.payload,
          { sub with receptionSeq := sub.receptionSeq + 1 }⟩, msg.info sub.receptionSeq⟩

/-! ## What may become of a message -/

variable {V : Type} {decode : Nat → List UInt8 → Option V}

/-- Messages that were popped, from the `i`-th decode of the call on, and those of them that
were delivered.  The others did not decode. -/
inductive Consumed (decode : Nat → List UInt8 → Option V) :
    Nat → List ReceivedMessage → List (ReceivedMessage × V) → Prop
  | nil (i : Nat) : Consumed decode i [] []
  | deliver {i : Nat} {msg : ReceivedMessage} {v : V} {popped : List ReceivedMessage}
      {out : List (ReceivedMessage × V)} (hdecode : decode i msg.payload = some v)
      (tail : Consumed decode (i + 1) popped out) :
      Consumed decode i (msg :: popped) ((msg, v) :: out)
  | drop {i : Nat} {msg : ReceivedMessage} {popped : List ReceivedMessage}
      {out : List (ReceivedMessage × V)} (hdecode : decode i msg.payload = none)
      (tail : Consumed decode (i + 1) popped out) : Consumed decode i (msg :: popped) out

/-- Delivered messages with the infos of their own headers, numbered from `receptionSeq`. -/
def withInfo : UInt64 → List (ReceivedMessage × V) → List (V × MessageInfo)
  | _, [] => []
  | receptionSeq, (msg, v) :: out =>
    (v, msg.info receptionSeq) :: withInfo (receptionSeq + 1) out

/-- The messages that left the front of the queue were shown to the caller in their order, or
did not decode.  An error has shown none, and it has popped at most the one that did not
decode. -/
def Conserved (decode : Nat → List UInt8 → Option V) (queue : List ReceivedMessage)
    (ret : RmwRet) (queue' : List ReceivedMessage)
    (Shown : List (ReceivedMessage × V) → Prop) : Prop :=
  ∃ popped out, queue = popped ++ queue' ∧ Consumed decode 0 popped out ∧ Shown out ∧
    (ret ≠ .ok → out = [] ∧ popped.length ≤ 1)

/-- The queue that a take pops from, and the next reception number. -/
def drained (checks : Checks) (arrived : List Arrived) (sub : UdsSubscription) :
    UdsSubscription :=
  if checks.failure.isSome then sub else drainSubscription arrived sub

/-- A take that pops nothing conserves the queue. -/
theorem Conserved.keep {queue : List ReceivedMessage} {ret : RmwRet}
    {Shown : List (ReceivedMessage × V) → Prop} (hshown : Shown []) :
    Conserved decode queue ret queue Shown :=
  ⟨[], [], rfl, .nil 0, hshown, fun _ => ⟨rfl, Nat.zero_le 1⟩⟩

/-- A take that pops one message and delivers it. -/
theorem Conserved.deliver {msg : ReceivedMessage} {queue : List ReceivedMessage} {v : V}
    {Shown : List (ReceivedMessage × V) → Prop} (hdecode : decode 0 msg.payload = some v)
    (hshown : Shown [(msg, v)]) : Conserved decode (msg :: queue) .ok queue Shown :=
  ⟨[msg], [(msg, v)], rfl, .deliver hdecode (.nil 1), hshown, fun h => absurd rfl h⟩

/-- A take that pops one message, which does not decode. -/
theorem Conserved.drop {msg : ReceivedMessage} {queue : List ReceivedMessage} {ret : RmwRet}
    {Shown : List (ReceivedMessage × V) → Prop} (hdecode : decode 0 msg.payload = none)
    (hshown : Shown []) : Conserved decode (msg :: queue) ret queue Shown :=
  ⟨[msg], [], rfl, .drop hdecode (.nil 1), hshown, fun _ => ⟨rfl, le_refl 1⟩⟩

/-! ## The forms with one message -/

/-- What a take with one message shows. -/
def Take.shown (r : Take V) : List V :=
  if r.ret = .ok ∧ r.taken = true then [r.message] else []

def TakeWithInfo.shown (r : TakeWithInfo V) : List (V × MessageInfo) :=
  if r.ret = .ok ∧ r.taken = true then [(r.message, r.info)] else []

theorem Checks.failure_ne_ok {checks : Checks} {ret : RmwRet}
    (h : checks.failure = some ret) : ret ≠ .ok := by
  unfold Checks.failure at h
  split at h
  · simp at h
    simp [← h]
  · split at h
    · simp at h
      simp [← h]
    · cases h

theorem rmwTake_conserves (dec : Decoder M) (checks : Checks) (arrived : List Arrived)
    (sub : UdsSubscription) (rosMessage : M) (taken : Bool) :
    Conserved dec.decode (drained checks arrived sub).messageQueue
      (rmwTake dec checks arrived sub rosMessage taken).ret
      (rmwTake dec checks arrived sub rosMessage taken).sub.messageQueue
      (fun out => out.map Prod.snd =
        (rmwTake dec checks arrived sub rosMessage taken).shown) := by
  unfold rmwTake drained
  cases hchecks : checks.failure with
  | some ret => exact Conserved.keep (by simp [Take.shown, Checks.failure_ne_ok hchecks])
  | none =>
    simp only [Option.isSome_none, Bool.false_eq_true, if_false]
    cases hqueue : (drainSubscription arrived sub).messageQueue with
    | nil =>
      simp only [hqueue]
      exact Conserved.keep (by simp [Take.shown])
    | cons msg queue =>
      simp only
      cases hdecode : dec.decode 0 msg.payload with
      | none => exact Conserved.drop hdecode (by simp [Take.shown])
      | some v => exact Conserved.deliver hdecode (by simp [Take.shown])

theorem rmwTakeWithInfo_conserves (dec : Decoder M) (checks : Checks)
    (arrived : List Arrived) (sub : UdsSubscription) (rosMessage : M)
    (messageInfo : MessageInfo) (taken : Bool) :
    Conserved dec.decode (drained checks arrived sub).messageQueue
      (rmwTakeWithInfo dec checks arrived sub rosMessage messageInfo taken).ret
      (rmwTakeWithInfo dec checks arrived sub rosMessage messageInfo taken).sub.messageQueue
      (fun out => withInfo (drained checks arrived sub).receptionSeq out =
        (rmwTakeWithInfo dec checks arrived sub rosMessage messageInfo taken).shown) := by
  unfold rmwTakeWithInfo drained
  cases hchecks : checks.failure with
  | some ret =>
    exact Conserved.keep (by simp [TakeWithInfo.shown, Checks.failure_ne_ok hchecks, withInfo])
  | none =>
    simp only [Option.isSome_none, Bool.false_eq_true, if_false]
    cases hqueue : (drainSubscription arrived sub).messageQueue with
    | nil =>
      simp only [hqueue]
      exact Conserved.keep (by simp [TakeWithInfo.shown, withInfo])
    | cons msg queue =>
      simp only
      cases hdecode : dec.decode 0 msg.payload with
      | none => exact Conserved.drop hdecode (by simp [TakeWithInfo.shown, withInfo])
      | some v => exact Conserved.deliver hdecode (by simp [TakeWithInfo.shown, withInfo])

/-! ## The sequence -/

/-- What has been written in front of the cursor stays, and the turns append to it. -/
structure Appended (r r' : TakeSequence M) (out : List (ReceivedMessage × M)) : Prop where
  ret : r'.ret = r.ret
  taken : r'.taken = r.taken + out.length
  messages : r'.messages.data.take r'.taken =
    r.messages.data.take r.taken ++ out.map Prod.snd
  infos : r'.infos.data.take r'.taken =
    r.infos.data.take r.taken ++ (withInfo r.sub.receptionSeq out).map Prod.snd

theorem take_set_succ {α : Type} {xs : List α} {i : Nat} (hi : i < xs.length) (a : α) :
    (xs.set i a).take (i + 1) = xs.take i ++ [a] := by
  rw [List.take_succ_eq_append_getElem (by simpa using hi), List.getElem_set_self,
    List.take_set_of_le (le_refl i)]

theorem take_modify {α : Type} (xs : List α) (i : Nat) (f : α → α) :
    (xs.modify i f).take i = xs.take i := by
  induction xs generalizing i with
  | nil => cases i <;> rfl
  | cons x xs ih =>
    cases i with
    | zero => rfl
    | succ i => simp [ih]

theorem takeSequenceLoop_spec (dec : Decoder M) (n i : Nat) (r : TakeSequence M)
    (hqueue : n ≤ r.sub.messageQueue.length)
    (hmessages : r.taken + n ≤ r.messages.data.length)
    (hinfos : r.taken + n ≤ r.infos.data.length) :
    ∃ popped out,
      r.sub.messageQueue = popped ++ (takeSequenceLoop dec n i r).sub.messageQueue ∧
      popped.length = n ∧ Consumed dec.decode i popped out ∧
      Appended r (takeSequenceLoop dec n i r) out := by
  induction n generalizing i r with
  | zero => exact ⟨[], [], rfl, rfl, .nil i, ⟨rfl, rfl, by simp [takeSequenceLoop],
      by simp [takeSequenceLoop, withInfo]⟩⟩
  | succ n ih =>
    cases hq : r.sub.messageQueue with
    | nil =>
      rw [hq] at hqueue
      simp at hqueue
    | cons msg queue =>
      rw [hq, List.length_cons] at hqueue
      cases hdecode : dec.decode i msg.payload with
      | none =>
        -- the message at the cursor is garbage, and the cursor stays
        obtain ⟨popped, out, hsplit, hlen, hconsumed, happ⟩ := ih (i + 1)
          { r with
            sub.messageQueue := queue
            messages.data := r.messages.data.modify r.taken (dec.garble i) }
          (by simp only; omega) (by simp only [List.length_modify]; omega) (by simp only; omega)
        simp only [takeSequenceLoop, hq, hdecode]
        refine ⟨msg :: popped, out, ?_, by simp [hlen], .drop hdecode hconsumed, ?_⟩
        · rw [List.cons_append, ← hsplit]
        · exact ⟨happ.ret, happ.taken, by rw [happ.messages, take_modify], happ.infos⟩
      | some message =>
        obtain ⟨popped, out, hsplit, hlen, hconsumed, happ⟩ := ih (i + 1)
          { r with
            messages.data := r.messages.data.set r.taken message
            infos.data := r.infos.data.set r.taken (msg.info r.sub.receptionSeq)
            sub.messageQueue := queue
            sub.receptionSeq := r.sub.receptionSeq + 1
            taken := r.taken + 1 }
          (by simp only; omega) (by simp only [List.length_set]; omega)
          (by simp only [List.length_set]; omega)
        simp only [takeSequenceLoop, hq, hdecode]
        refine ⟨msg :: popped, (msg, message) :: out, ?_, by simp [hlen],
          .deliver hdecode hconsumed, ?_⟩
        · rw [List.cons_append, ← hsplit]
        · have htaken := happ.taken
          have hmsgs := happ.messages
          have hinfo := happ.infos
          simp only at htaken hmsgs hinfo
          rw [take_set_succ (by omega)] at hmsgs hinfo
          refine ⟨happ.ret, ?_, ?_, ?_⟩
          · rw [htaken, List.length_cons]
            omega
          · rw [hmsgs, List.map_cons, List.append_assoc]
            rfl
          · rw [hinfo, withInfo, List.map_cons, List.append_assoc]
            rfl

/-- The delivered messages and their infos stand at the positions below `taken`, and both
sizes say so. -/
def TakeSequence.Shows (r : TakeSequence M) (receptionSeq : UInt64)
    (out : List (ReceivedMessage × M)) : Prop :=
  r.ret = .ok → r.messages.size = r.taken ∧ r.infos.size = r.taken ∧ out.length = r.taken ∧
    r.messages.data.take r.taken = out.map Prod.snd ∧
    r.infos.data.take r.taken = (withInfo receptionSeq out).map Prod.snd

theorem rmwTakeSequence_conserves (dec : Decoder M) (checks : Checks) (arrived : List Arrived)
    (sub : UdsSubscription) (count : Nat) (messages : Sequence M)
    (infos : Sequence MessageInfo) (taken : Nat) :
    Conserved dec.decode (drained checks arrived sub).messageQueue
      (rmwTakeSequence dec checks arrived sub count messages infos taken).ret
      (rmwTakeSequence dec checks arrived sub count messages infos taken).sub.messageQueue
      ((rmwTakeSequence dec checks arrived sub count messages infos taken).Shows
        (drained checks arrived sub).receptionSeq) := by
  unfold rmwTakeSequence drained
  cases hchecks : checks.failure with
  | some ret =>
    exact Conserved.keep fun h => absurd h (Checks.failure_ne_ok hchecks)
  | none =>
    simp only [Option.isSome_none, Bool.false_eq_true, if_false]
    generalize hn : (if (drainSubscription arrived sub).messageQueue.length < _ then _ else _) = n
    have hbounds : n ≤ (drainSubscription arrived sub).messageQueue.length ∧
        n ≤ messages.data.length ∧ n ≤ infos.data.length := by
      rw [← hn]
      split_ifs <;> omega
    obtain ⟨popped, out, hsplit, -, hconsumed, happ⟩ := takeSequenceLoop_spec dec n 0
      ⟨.ok, 0, messages, infos, drainSubscription arrived sub⟩ hbounds.1
      (by simp only; omega) (by simp only; omega)
    refine ⟨popped, out, hsplit, hconsumed, ?_, fun h => absurd happ.ret h⟩
    intro _
    have htaken := happ.taken
    have hmessages := happ.messages
    have hinfos := happ.infos
    simp only [Nat.zero_add, List.take_zero, List.nil_append] at htaken hmessages hinfos
    exact ⟨rfl, rfl, htaken.symm, hmessages, hinfos⟩

/-! ## The serialized forms -/

/-- The output buffer for the message that a call is about to pop can be had. -/
def OutputAllocates (resize : Resize) (checks : Checks) (arrived : List Arrived)
    (sub : UdsSubscription) (serializedMessage : SerializedMessage) : Prop :=
  checks.failure = none → ∀ msg queue,
    (drainSubscription arrived sub).messageQueue = msg :: queue →
      (resize serializedMessage msg.payload.length).1 = .ok

theorem forall_front_iff {msg : ReceivedMessage} {queue : List ReceivedMessage}
    {P : ReceivedMessage → Prop} :
    (∀ m q, msg :: queue = m :: q → P m) ↔ P msg := by
  constructor
  · intro h
    exact h msg queue rfl
  · rintro h m q ⟨⟩
    exact h

theorem store_bytes (m : SerializedMessage) (payload : List UInt8) :
    (m.store payload).bytes = payload := by
  simp [SerializedMessage.store, SerializedMessage.bytes]

/-- A serialized payload needs no decode. -/
def serialized : Nat → List UInt8 → Option (List UInt8) := fun _ payload => some payload

/-- An error that has popped a serialized message has lost it. -/
theorem not_conserved_serialized {msg : ReceivedMessage} {queue : List ReceivedMessage}
    {ret : RmwRet} {Shown : List (ReceivedMessage × List UInt8) → Prop} (hret : ret ≠ .ok) :
    ¬ Conserved serialized (msg :: queue) ret queue Shown := by
  rintro ⟨popped, out, hsplit, hconsumed, -, herror⟩
  obtain ⟨rfl, -⟩ := herror hret
  cases hconsumed with
  | nil =>
    have hlen := congrArg List.length hsplit
    simp at hlen
  | drop hdecode => simp [serialized] at hdecode

/-- The bytes that a serialized take shows. -/
def Take.shownBytes (r : Take SerializedMessage) : List (List UInt8) :=
  if r.ret = .ok ∧ r.taken = true then [r.message.bytes] else []

def TakeWithInfo.shownBytes (r : TakeWithInfo SerializedMessage) :
    List (List UInt8 × MessageInfo) :=
  if r.ret = .ok ∧ r.taken = true then [(r.message.bytes, r.info)] else []

theorem rmwTakeSerializedMessage_conserves (resize : Resize) (checks : Checks)
    (arrived : List Arrived) (sub : UdsSubscription) (serializedMessage : SerializedMessage)
    (taken : Bool) :
    Conserved serialized (drained checks arrived sub).messageQueue
      (rmwTakeSerializedMessage resize checks arrived sub serializedMessage taken).ret
      (rmwTakeSerializedMessage resize checks arrived sub serializedMessage
        taken).sub.messageQueue
      (fun out => out.map Prod.snd =
        (rmwTakeSerializedMessage resize checks arrived sub serializedMessage
          taken).shownBytes) ↔
    OutputAllocates resize checks arrived sub serializedMessage := by
  unfold rmwTakeSerializedMessage drained OutputAllocates
  cases hchecks : checks.failure with
  | some ret =>
    refine iff_of_true ?_ (by simp)
    exact Conserved.keep (by simp [Take.shownBytes, Checks.failure_ne_ok hchecks])
  | none =>
    simp only [Option.isSome_none, Bool.false_eq_true, if_false, forall_const]
    cases hqueue : (drainSubscription arrived sub).messageQueue with
    | nil =>
      simp only [hqueue]
      exact iff_of_true (Conserved.keep (by simp [Take.shownBytes])) (by simp)
    | cons msg queue =>
      rw [forall_front_iff]
      simp only
      by_cases hresize : (resize serializedMessage msg.payload.length).1 = .ok
      · refine iff_of_true ?_ hresize
        rw [if_neg (not_not_intro hresize)]
        exact Conserved.deliver rfl (by simp [Take.shownBytes, store_bytes])
      · refine iff_of_false ?_ hresize
        rw [if_pos hresize]
        exact not_conserved_serialized hresize

theorem rmwTakeSerializedMessageWithInfo_conserves (resize : Resize) (checks : Checks)
    (arrived : List Arrived) (sub : UdsSubscription) (serializedMessage : SerializedMessage)
    (messageInfo : MessageInfo) (taken : Bool) :
    Conserved serialized (drained checks arrived sub).messageQueue
      (rmwTakeSerializedMessageWithInfo resize checks arrived sub serializedMessage messageInfo
        taken).ret
      (rmwTakeSerializedMessageWithInfo resize checks arrived sub serializedMessage messageInfo
        taken).sub.messageQueue
      (fun out => withInfo (drained checks arrived sub).receptionSeq out =
        (rmwTakeSerializedMessageWithInfo resize checks arrived sub serializedMessage
          messageInfo taken).shownBytes) ↔
    OutputAllocates resize checks arrived sub serializedMessage := by
  unfold rmwTakeSerializedMessageWithInfo drained OutputAllocates
  cases hchecks : checks.failure with
  | some ret =>
    refine iff_of_true ?_ (by simp)
    exact Conserved.keep
      (by simp [TakeWithInfo.shownBytes, Checks.failure_ne_ok hchecks, withInfo])
  | none =>
    simp only [Option.isSome_none, Bool.false_eq_true, if_false, forall_const]
    cases hqueue : (drainSubscription arrived sub).messageQueue with
    | nil =>
      simp only [hqueue]
      exact iff_of_true (Conserved.keep (by simp [TakeWithInfo.shownBytes, withInfo])) (by simp)
    | cons msg queue =>
      rw [forall_front_iff]
      simp only
      by_cases hresize : (resize serializedMessage msg.payload.length).1 = .ok
      · refine iff_of_true ?_ hresize
        rw [if_neg (not_not_intro hresize)]
        exact Conserved.deliver rfl (by simp [TakeWithInfo.shownBytes, store_bytes, withInfo])
      · refine iff_of_false ?_ hresize
        rw [if_pos hresize]
        exact not_conserved_serialized hresize

/-! ## All five -/

/-- The forms that decode conserve every message.  The serialized forms do so exactly if the
output buffer can be had, as they pop first. -/
theorem takes_conserve (dec : Decoder M) (resize : Resize) (checks : Checks)
    (arrived : List Arrived) (sub : UdsSubscription) :
    (∀ rosMessage taken, Conserved dec.decode (drained checks arrived sub).messageQueue
      (rmwTake dec checks arrived sub rosMessage taken).ret
      (rmwTake dec checks arrived sub rosMessage taken).sub.messageQueue
      (fun out => out.map Prod.snd =
        (rmwTake dec checks arrived sub rosMessage taken).shown)) ∧
    (∀ rosMessage messageInfo taken,
      Conserved dec.decode (drained checks arrived sub).messageQueue
        (rmwTakeWithInfo dec checks arrived sub rosMessage messageInfo taken).ret
        (rmwTakeWithInfo dec checks arrived sub rosMessage messageInfo taken).sub.messageQueue
        (fun out => withInfo (drained checks arrived sub).receptionSeq out =
          (rmwTakeWithInfo dec checks arrived sub rosMessage messageInfo taken).shown)) ∧
    (∀ count messages infos taken,
      Conserved dec.decode (drained checks arrived sub).messageQueue
        (rmwTakeSequence dec checks arrived sub count messages infos taken).ret
        (rmwTakeSequence dec checks arrived sub count messages infos taken).sub.messageQueue
        ((rmwTakeSequence dec checks arrived sub count messages infos taken).Shows
          (drained checks arrived sub).receptionSeq)) ∧
    (∀ serializedMessage taken,
      Conserved serialized (drained checks arrived sub).messageQueue
        (rmwTakeSerializedMessage resize checks arrived sub serializedMessage taken).ret
        (rmwTakeSerializedMessage resize checks arrived sub serializedMessage
          taken).sub.messageQueue
        (fun out => out.map Prod.snd =
          (rmwTakeSerializedMessage resize checks arrived sub serializedMessage
            taken).shownBytes) ↔
      OutputAllocates resize checks arrived sub serializedMessage) ∧
    ∀ serializedMessage messageInfo taken,
      Conserved serialized (drained checks arrived sub).messageQueue
        (rmwTakeSerializedMessageWithInfo resize checks arrived sub serializedMessage
          messageInfo taken).ret
        (rmwTakeSerializedMessageWithInfo resize checks arrived sub serializedMessage
          messageInfo taken).sub.messageQueue
        (fun out => withInfo (drained checks arrived sub).receptionSeq out =
          (rmwTakeSerializedMessageWithInfo resize checks arrived sub serializedMessage
            messageInfo taken).shownBytes) ↔
      OutputAllocates resize checks arrived sub serializedMessage :=
  ⟨rmwTake_conserves dec checks arrived sub,
    rmwTakeWithInfo_conserves dec checks arrived sub,
    rmwTakeSequence_conserves dec checks arrived sub,
    rmwTakeSerializedMessage_conserves resize checks arrived sub,
    rmwTakeSerializedMessageWithInfo_conserves resize checks arrived sub⟩

/-- A subscription with one message of four bytes in its queue. -/
def oneMessage : UdsSubscription where
  queueDepth := 10
  ignoreLocalPublications := false
  contextId := 0
  replayedWatermarks := []
  shmCache := []
  messageQueue := [⟨{ requestHeader 1 with msgType := 0, payloadSize := 4 }, [0, 1, 0, 0], 5⟩]
  receptionSeq := 1

/-- The output buffer cannot be had, and the message is gone. -/
theorem serialized_take_loses_message :
    (rmwTakeSerializedMessage (fun m _ => (.badAlloc, m)) ⟨true, true⟩ [] oneMessage
        ⟨[], 0⟩ false).ret = .badAlloc ∧
    (rmwTakeSerializedMessage (fun m _ => (.badAlloc, m)) ⟨true, true⟩ [] oneMessage
        ⟨[], 0⟩ false).sub.messageQueue = [] ∧
    ¬ Conserved serialized (drained ⟨true, true⟩ [] oneMessage).messageQueue
      (rmwTakeSerializedMessage (fun m _ => (.badAlloc, m)) ⟨true, true⟩ [] oneMessage
        ⟨[], 0⟩ false).ret
      (rmwTakeSerializedMessage (fun m _ => (.badAlloc, m)) ⟨true, true⟩ [] oneMessage
        ⟨[], 0⟩ false).sub.messageQueue
      (fun out => out.map Prod.snd =
        (rmwTakeSerializedMessage (fun m _ => (.badAlloc, m)) ⟨true, true⟩ [] oneMessage
          ⟨[], 0⟩ false).shownBytes) :=
  ⟨rfl, rfl, not_conserved_serialized (by decide)⟩

end RmwUnixSocket.Receive
