import Mathlib.Algebra.Group.Nat.Defs
import RmwUnixSocket.Lib.Exclusive
import RmwUnixSocket.Graph.Routing
import RmwUnixSocket.Receive.Take
import RmwUnixSocket.Wire.RoundTrip

/-!
# A publish reaches the subscriptions

`rmw_publish` and `rmw_publish_serialized_message` of a volatile publisher, with any
number of threads that publish on it.  A call takes a sequence number, refreshes the cache
of the subscribers' paths, makes the message ready for the wire, and sends one datagram to
each path, whatever became of the sends before.

* The cache and the registry are the machine of `Cache.lean`, one step of it at a time.
* `prepareSend` and `serializePrepareSend` are those of `Wire.Transport`; they run under
  `shm_mutex`.
* The kernel queues a datagram at the socket that is bound to the address, or fails.  The
  sockets are bound, read and closed at any time.
* `number`, `attempts`, `returned` and `gone` are ghosts: the sequence numbers without
  their 64 bits, every send, every call that has returned, and what has left each socket,
  read or closed with it.

Log texts are left out.
-/

namespace RmwUnixSocket.Graph.Fanout

open Wire (Gid Message Outbound Sender SendIo Shm Stage recvFrom)
open Receive (RmwRet)
open Routing (strncpy)

/-! ## Sending -/

/-- The errors of `sendmsg` that `send_to` tells apart. -/
inductive Errno
  | emsgsize
  | eagain
  | enobufs
  | enoent
  | econnrefused
  | other
deriving DecidableEq

inductive SendResult
  | ok
  | softDrop
  | configError
deriving DecidableEq

/-- The sockets that are bound, with their datagrams. -/
abbrev Sockets := List UInt8 → Option (List (List UInt8))

/-- `sendmsg`.  Without a socket at the address it fails in any case. -/
def sendmsg (sockets : Sockets) (address datagram : List UInt8) (failure : Option Errno) :
    Option Errno × Sockets :=
  match sockets address, failure with
  | some queue, none => (none, Function.update sockets address (some (queue ++ [datagram])))
  | some _, some err => (some err, sockets)
  | none, failure => (some (failure.getD .enoent), sockets)

/-- The `switch` of `send_to`. -/
def SendResult.ofErrno : Option Errno → SendResult
  | none => .ok
  | some .emsgsize => .configError
  | some _ => .softDrop

/-- transport.cpp `send_to`. -/
def sendTo (sockets : Sockets) (destPath datagram : List UInt8) (failure : Option Errno) :
    SendResult × Sockets :=
  let sent := sendmsg sockets (strncpy 108 destPath) datagram failure
  (.ofErrno sent.1, sent.2)

/-- The bytes that `send_to` gathers. -/
def bytesOf (out : Outbound) : List UInt8 := out.hdr.toBytes ++ out.wire

/-! ## The machine -/

/-- A call of one of the two functions. -/
structure Call where
  serialized : Bool
  number : Nat
  message : Message

/-- Where a thread is.  `generation` and `paths` are what the refresh has returned, and
`rest` is what the loop has yet to send to. -/
inductive Pc
  | idle
  | refresh (call : Call)
  | prepare (call : Call) (generation : Nat) (paths : List (List UInt8))
  | send (call : Call) (generation : Nat) (paths : List (List UInt8)) (out : Outbound)
      (rest : List (List UInt8)) (configError : Bool)

/-- One `send_to`. -/
structure Attempt where
  number : Nat
  path : List UInt8
  datagram : List UInt8
  result : SendResult
deriving DecidableEq

/-- A call that has returned.  Without `out` the serialization has failed. -/
structure Returned where
  call : Call
  generation : Nat
  paths : List (List UInt8)
  out : Option Outbound
  ret : RmwRet

structure State (P T : Type) where
  core : Graph.State P T (List (List UInt8))
  stage : Stage
  sequenceNumber : Nat
  calls : T → Pc
  sockets : Sockets
  gone : List UInt8 → List (List UInt8)
  attempts : List Attempt
  returned : List Returned

/-- The publisher: its GID, its topic, its process and the page size. -/
structure Publisher where
  gid : Gid
  topicName : List UInt8
  pid : UInt32
  page : Nat

/-- What the system does in one step of a call. -/
structure Env where
  io : SendIo
  estimate : Nat
  failure : Option Errno

inductive Act (P T : Type)
  | mutate (a : Mutation P)
  | bind (address : List UInt8)
  | recv (address : List UInt8)
  | close (address : List UInt8)
  | publish (t : T) (serialized : Bool) (timestamp : UInt64) (payload : List UInt8)
      (fits : payload.length < 2 ^ 32)
  | run (t : T) (env : Env)

variable {P T : Type} [DecidableEq T] (pub : Publisher)

/-- The cache of the publisher. -/
abbrev Publisher.subCache : GenerationCache (List (List UInt8)) :=
  refreshSubPaths pub.topicName

/-- The message that a call has in hand. -/
def Publisher.message (number : Nat) (timestamp : UInt64) (payload : List UInt8)
    (fits : payload.length < 2 ^ 32) : Message where
  gid := pub.gid
  sequenceNumber := UInt64.ofNat number
  sourceTimestampNs := timestamp
  msgType := ⟨0, by decide⟩
  payload := payload
  fits := fits

/-- A publisher that has not published, next to an initialised registry. -/
def State.init (P T : Type) (capacity : Nat) (shm : Shm) (counter : UInt32) : State P T where
  core := .init pub.subCache P T capacity
  stage := { shm := shm, counter := counter, sender := .fresh }
  sequenceNumber := 1
  calls := fun _ => .idle
  sockets := fun _ => none
  gone := fun _ => []
  attempts := []
  returned := []

namespace State

variable (s : State P T)

def goto (t : T) (pc : Pc) : State P T :=
  { s with calls := Function.update s.calls t pc }

/-- The end of a call: the thread is done with the paths. -/
def leave (t : T) (r : Returned) : State P T :=
  { s.goto t .idle with
    core := { s.core with threads := Function.update s.core.threads t .idle }
    returned := s.returned ++ [r] }

/-- One step of `refresh_sub_paths`, the load of the generation included. -/
def refresh (t : T) (call : Call) : Option (State P T) :=
  (Graph.step pub.subCache s.core (.run t)).map fun core =>
    match core.threads t with
    | .use generation paths => { s with core := core }.goto t (.prepare call generation paths)
    | _ => { s with core := core }

/-- `shm_serialize_prepare_send`, or `shm_prepare_send` for a message that is serialized
already. -/
def prepared (call : Call) (env : Env) : Stage × Option Outbound :=
  if call.serialized then
    let sent := s.stage.prepareSend pub.page pub.pid env.io call.message
    (sent.1, some sent.2)
  else s.stage.serializePrepareSend pub.page pub.pid env.io call.message env.estimate

/-- The step that makes the message ready. -/
def prepare (t : T) (call : Call) (generation : Nat) (paths : List (List UInt8))
    (env : Env) : State P T :=
  match s.prepared pub call env with
  | (stage, none) => { s with stage := stage }.leave t ⟨call, generation, paths, none, .error⟩
  | (stage, some out) =>
    { s with stage := stage }.goto t (.send call generation paths out paths false)

/-- One turn of the loop over the paths, or the end of the call. -/
def send (t : T) (call : Call) (generation : Nat) (paths : List (List UInt8))
    (out : Outbound) (configError : Bool) (failure : Option Errno) :
    List (List UInt8) → State P T
  | [] =>
    s.leave t ⟨call, generation, paths, some out, if configError then .error else .ok⟩
  | path :: rest =>
    let sent := sendTo s.sockets path (bytesOf out) failure
    { s with
      sockets := sent.2
      attempts := s.attempts ++ [Attempt.mk call.number path (bytesOf out) sent.1] }.goto t
        (.send call generation paths out rest
          (configError || decide (sent.1 = SendResult.configError)))

end State

/-- One step. -/
def step (s : State P T) : Act P T → Option (State P T)
  | .mutate a => (Graph.step pub.subCache s.core (.mutate a)).map fun core =>
      { s with core := core }
  | .bind address =>
    match s.sockets address with
    | none => some { s with sockets := Function.update s.sockets address (some []) }
    | some _ => none
  | .recv address =>
    match s.sockets address with
    | some (datagram :: queue) =>
      some { s with
        sockets := Function.update s.sockets address (some queue)
        gone := Function.update s.gone address (s.gone address ++ [datagram]) }
    | _ => none
  | .close address =>
    some { s with
      sockets := Function.update s.sockets address none
      gone := Function.update s.gone address
        (s.gone address ++ (s.sockets address).getD []) }
  | .publish t serialized timestamp payload fits =>
    match s.calls t with
    | .idle =>
      some ({ s with sequenceNumber := s.sequenceNumber + 1 }.goto t
        (.refresh ⟨serialized, s.sequenceNumber,
          pub.message s.sequenceNumber timestamp payload fits⟩))
    | _ => none
  | .run t env =>
    match s.calls t with
    | .idle => none
    | .refresh call => s.refresh pub t call
    | .prepare call generation paths => some (s.prepare pub t call generation paths env)
    | .send call generation paths out rest configError =>
      some (s.send t call generation paths out configError env.failure rest)

/-- The machine. -/
def machine (P T : Type) [DecidableEq T] : Machine (State P T) (Act P T) where
  step := step pub

/-! ## The account of a call -/

section

variable {pub} {s s' : State P T}

omit [DecidableEq T] in
/-- The sends of one call, by its number. -/
def State.attemptsOf (s : State P T) (number : Nat) : List Attempt :=
  s.attempts.filter fun a => a.number = number

/-- The sends `sent` are those of the datagram `out` to the paths `done`, in this order. -/
structure Sent (call : Call) (out : Outbound) (done : List (List UInt8)) (configError : Bool)
    (sent : List Attempt) : Prop where
  paths : sent.map (·.path) = done
  datagram : ∀ a ∈ sent, a.datagram = bytesOf out
  carried : call.message.Carried out.staged out.hdr out.wire
  configError : configError = true ↔ ∃ a ∈ sent, a.result = .configError

/-- The paths are those of registrations that cover the generation that the call has
loaded. -/
def Covered (pub : Publisher) (d : Directory P) (generation : Nat)
    (paths : List (List UInt8)) : Prop :=
  generation ≤ d.generation ∧ ∃ ids, paths = pub.subCache.digest (d.answers ids) ∧
    Covers d pub.subCache.filter generation d.capacity ids

/-- The sequence number that a thread has in hand. -/
def Pc.number : Pc → Option Nat
  | .idle => none
  | .refresh call => some call.number
  | .prepare call _ _ => some call.number
  | .send call _ _ _ _ _ => some call.number

/-- The call has the GID of the publisher and the number that it has taken. -/
def Call.Ok (pub : Publisher) (call : Call) : Prop :=
  call.message.gid = pub.gid ∧ call.message.sequenceNumber = UInt64.ofNat call.number

/-- What is known about a thread. -/
def PcOk (pub : Publisher) (s : State P T) (t : T) : Pc → Prop
  | .idle => s.core.threads t = .idle
  | .refresh call => call.Ok pub ∧ s.attemptsOf call.number = []
  | .prepare call generation paths => call.Ok pub ∧ s.attemptsOf call.number = [] ∧
      s.core.threads t = .use generation paths
  | .send call generation paths out rest configError => call.Ok pub ∧
      s.core.threads t = .use generation paths ∧ ∃ done, paths = done ++ rest ∧
        Sent call out done configError (s.attemptsOf call.number)

/-- What is known about a call that has returned. -/
structure Account (pub : Publisher) (d : Directory P) (sent : List Attempt) (r : Returned) :
    Prop where
  call : r.call.Ok pub
  covered : Covered pub d r.generation r.paths
  failed : r.out = none → sent = [] ∧ r.ret = .error
  sent : ∀ out, r.out = some out →
    ∃ configError, Sent r.call out r.paths configError sent ∧
      r.ret = if configError then .error else .ok

/-- The datagrams that the sends have put at an address. -/
def State.delivered (s : State P T) (address : List UInt8) : List (List UInt8) :=
  (s.attempts.filter fun a => a.result = .ok ∧ strncpy 108 a.path = address).map (·.datagram)

/-- The invariant. -/
structure Ok (pub : Publisher) (s : State P T) : Prop where
  core : StateOk pub.subCache s.core
  sender : s.stage.sender.Ok
  calls : ∀ t, PcOk pub s t (s.calls t)
  fresh : ∀ t n, (s.calls t).number = some n → n < s.sequenceNumber
  exclusive : Exclusive (fun _ => True) fun t => (s.calls t).number
  attempts : ∀ a ∈ s.attempts, a.number < s.sequenceNumber
  returned : ∀ r ∈ s.returned, Account pub s.core.dir (s.attemptsOf r.call.number) r
  past : ∀ r ∈ s.returned, r.call.number < s.sequenceNumber
  ended : ∀ r ∈ s.returned, ∀ t, (s.calls t).number ≠ some r.call.number
  once : (s.returned.map (·.call.number)).Nodup
  sockets : ∀ address, s.delivered address = s.gone address ++ (s.sockets address).getD []

/-! ## What the steps keep -/

omit [DecidableEq T] in
theorem PcOk.congr {t : T} {pc : Pc} (h : PcOk pub s t pc)
    (hcore : s'.core.threads t = s.core.threads t)
    (hsent : ∀ n, pc.number = some n → s'.attemptsOf n = s.attemptsOf n) :
    PcOk pub s' t pc := by
  cases pc with
  | idle => exact hcore.trans h
  | refresh call => exact ⟨h.1, (hsent _ rfl).trans h.2⟩
  | prepare call generation paths =>
    exact ⟨h.1, (hsent _ rfl).trans h.2.1, hcore.trans h.2.2⟩
  | send call generation paths out rest configError =>
    obtain ⟨hcall, huse, done, hpaths, hdone⟩ := h
    exact ⟨hcall, hcore.trans huse, done, hpaths, (hsent _ rfl).symm ▸ hdone⟩

theorem Covered.later {d d' : Directory P} {generation : Nat} {paths : List (List UInt8)}
    (h : Covered pub d generation paths) (hlater : d.Later d') :
    Covered pub d' generation paths := by
  obtain ⟨hgen, ids, hpaths, hcovers⟩ := h
  refine ⟨Nat.le_trans hgen hlater.generation, ids, ?_, ?_⟩
  · rw [hpaths, hcovers.answers_later hlater]
  · rw [hlater.capacity]
    exact hcovers.later hlater hgen

theorem Account.later {d d' : Directory P} {sent : List Attempt} {r : Returned}
    (h : Account pub d sent r) (hlater : d.Later d') : Account pub d' sent r :=
  ⟨h.call, h.covered.later hlater, h.failed, h.sent⟩

omit [DecidableEq T] in
/-- What the refresh has returned. -/
theorem covered_of_use (h : StateOk pub.subCache s.core) {t : T} {generation : Nat}
    {paths : List (List UInt8)} (huse : s.core.threads t = .use generation paths) :
    Covered pub s.core.dir generation paths := by
  have hpc := h.threads t
  rw [huse] at hpc
  obtain ⟨ids, hpaths, hgen, hcovers⟩ := hpc
  exact ⟨hgen, ids, hpaths, hcovers⟩

omit [DecidableEq T] in
/-- What a call puts on the wire carries its message. -/
theorem prepared_carried (h : s.stage.sender.Ok) (call : Call) (env : Env) :
    (s.prepared pub call env).1.sender.Ok ∧ ∀ out, (s.prepared pub call env).2 = some out →
      call.message.Carried out.staged out.hdr out.wire := by
  unfold State.prepared
  split
  · have hsends := Stage.prepareSend_spec pub.page pub.pid env.io call.message h
    exact ⟨hsends.spec.ok, hsends.carried⟩
  · have hsends :=
      Stage.serializePrepareSend_spec pub.page pub.pid env.io call.message env.estimate h
    exact ⟨hsends.spec.ok, hsends.carried⟩

/-! ### The sends -/

omit [DecidableEq T] in
theorem attemptsOf_append {a : Attempt} (hattempts : s'.attempts = s.attempts ++ [a]) (n : Nat) :
    s'.attemptsOf n = s.attemptsOf n ++ if a.number = n then [a] else [] := by
  unfold State.attemptsOf
  rw [hattempts, List.filter_append]
  congr 1
  by_cases hn : a.number = n
  · simp [hn]
  · simp [hn]

omit [DecidableEq T] in
theorem delivered_append {a : Attempt} (hattempts : s'.attempts = s.attempts ++ [a])
    (address : List UInt8) : s'.delivered address = s.delivered address ++
      if a.result = .ok ∧ strncpy 108 a.path = address then [a.datagram] else [] := by
  unfold State.delivered
  rw [hattempts, List.filter_append, List.map_append]
  congr 1
  by_cases ha : a.result = .ok ∧ strncpy 108 a.path = address
  · simp [ha]
  · simp [ha]

/-- A datagram is queued, or the sockets are as before. -/
theorem sendTo_cases (sockets : Sockets) (path datagram : List UInt8) (failure : Option Errno) :
    (∃ queue, sockets (strncpy 108 path) = some queue ∧
      sendTo sockets path datagram failure = (.ok,
        Function.update sockets (strncpy 108 path) (some (queue ++ [datagram])))) ∨
    ((sendTo sockets path datagram failure).1 ≠ .ok ∧
      (sendTo sockets path datagram failure).2 = sockets) := by
  have hfails : ∀ err, SendResult.ofErrno (some err) ≠ .ok := by
    intro err
    cases err <;> simp [SendResult.ofErrno]
  unfold sendTo sendmsg
  cases hsocket : sockets (strncpy 108 path) with
  | none => exact .inr ⟨hfails _, rfl⟩
  | some queue =>
    cases failure with
    | none => exact .inl ⟨queue, rfl, rfl⟩
    | some err => exact .inr ⟨hfails err, rfl⟩

/-- One more send of a call. -/
theorem Sent.append {call : Call} {out : Outbound} {done : List (List UInt8)}
    {configError : Bool} {sent : List Attempt} (h : Sent call out done configError sent)
    (path : List UInt8) (result : SendResult) :
    Sent call out (done ++ [path]) (configError || decide (result = SendResult.configError))
      (sent ++ [Attempt.mk call.number path (bytesOf out) result]) where
  paths := by rw [List.map_append, h.paths]; rfl
  datagram a ha := by
    rcases List.mem_append.mp ha with ha | ha
    · exact h.datagram a ha
    · rw [List.mem_singleton.mp ha]
  carried := h.carried
  configError := by
    rw [Bool.or_eq_true, h.configError, decide_eq_true_iff]
    constructor
    · intro hany
      rcases hany with ⟨a, ha, herror⟩ | herror
      · exact ⟨a, List.mem_append_left _ ha, herror⟩
      · exact ⟨_, List.mem_append_right _ (List.mem_singleton_self _), herror⟩
    · intro hany
      obtain ⟨a, ha, herror⟩ := hany
      rcases List.mem_append.mp ha with ha | ha
      · exact .inl ⟨a, ha, herror⟩
      · rw [List.mem_singleton.mp ha] at herror
        exact .inr herror

/-! ### The steps -/

/-- The numbers after thread `t` has moved. -/
theorem numbers_update (calls : T → Pc) (t : T) (pc : Pc) :
    (fun u => (Function.update calls t pc u).number) =
      Function.update (fun u => (calls u).number) t pc.number :=
  funext (Function.apply_update (fun _ => Pc.number) calls t pc)

/-- A thread that keeps its number leaves the numbers as they are. -/
theorem numbers_same {calls : T → Pc} {t : T} {pc : Pc}
    (h : pc.number = (calls t).number) (u : T) :
    (Function.update calls t pc u).number = (calls u).number := by
  have hupdate := congrFun (numbers_update calls t pc) u
  rw [h, Function.update_eq_self t fun v => (calls v).number] at hupdate
  exact hupdate

namespace Ok

omit [DecidableEq T] in
/-- The sockets and the staging area play no part in the account. -/
theorem withSockets (h : Ok pub s) {sockets : Sockets} {gone : List UInt8 → List (List UInt8)}
    (hsockets : ∀ address, s.delivered address = gone address ++ (sockets address).getD []) :
    Ok pub { s with sockets := sockets, gone := gone } :=
  { h with
    calls := fun t => (h.calls t).congr rfl fun _ _ => rfl
    sockets := hsockets }

omit [DecidableEq T] in
theorem withStage (h : Ok pub s) {stage : Stage} (hsender : stage.sender.Ok) :
    Ok pub { s with stage := stage } :=
  { h with
    sender := hsender
    calls := fun t => (h.calls t).congr rfl fun _ _ => rfl }

omit [DecidableEq T] in
/-- The registry and the cache move. -/
theorem withCore (h : Ok pub s) {core : Graph.State P T (List (List UInt8))}
    (hok : StateOk pub.subCache core)
    (hcalls : ∀ t, PcOk pub { s with core := core } t (s.calls t))
    (hreturned : ∀ r ∈ s.returned, Account pub core.dir (s.attemptsOf r.call.number) r) :
    Ok pub { s with core := core } :=
  { h with
    core := hok
    calls := hcalls
    returned := hreturned }

/-- A thread goes on with its call. -/
theorem goto (h : Ok pub s) {t : T} {pc : Pc} (hnumber : pc.number = (s.calls t).number)
    (hok : PcOk pub s t pc) : Ok pub (s.goto t pc) := by
  have hsame : ∀ u, ((s.goto t pc).calls u).number = (s.calls u).number :=
    numbers_same hnumber
  exact { h with
    calls := (Function.forall_update_iff s.calls fun u pc => PcOk pub (s.goto t _) u pc).mpr
      ⟨hok.congr rfl fun _ _ => rfl, fun u _ => (h.calls u).congr rfl fun _ _ => rfl⟩
    fresh := fun u n hn => h.fresh u n ((hsame u).symm.trans hn)
    exclusive := h.exclusive.mono fun u n hn => (hsame u).symm.trans hn
    ended := fun r hr u hu => h.ended r hr u ((hsame u).symm.trans hu) }

/-- A call begins. -/
theorem publish (h : Ok pub s) {t : T} {call : Call}
    (hcall : call.Ok pub) (hnumber : call.number = s.sequenceNumber) :
    Ok pub ({ s with sequenceNumber := s.sequenceNumber + 1 }.goto t (.refresh call)) := by
  have hnone : s.attemptsOf call.number = [] := by
    refine List.filter_eq_nil_iff.mpr fun a ha => ?_
    have hlt := h.attempts a ha
    simp only [decide_eq_true_eq]
    omega
  have hcases : ∀ u n, (Function.update s.calls t (.refresh call) u).number = some n →
      u = t ∧ n = call.number ∨ u ≠ t ∧ (s.calls u).number = some n := by
    intro u n hn
    by_cases hu : u = t
    · rw [hu, Function.update_self] at hn
      exact .inl ⟨hu, (Option.some.inj hn).symm⟩
    · rw [Function.update_of_ne hu] at hn
      exact .inr ⟨hu, hn⟩
  refine { h with
    calls := (Function.forall_update_iff s.calls fun u pc => PcOk pub _ u pc).mpr
      ⟨⟨hcall, hnone⟩, fun u _ => (h.calls u).congr rfl fun _ _ => rfl⟩
    fresh := fun u n hn => ?_
    exclusive := ?_
    attempts := fun a ha => Nat.lt_succ_of_lt (h.attempts a ha)
    past := fun r hr => Nat.lt_succ_of_lt (h.past r hr)
    ended := fun r hr u hu => ?_ }
  · show n < s.sequenceNumber + 1
    rcases hcases u n hn with ⟨-, hn⟩ | ⟨-, hn⟩
    · omega
    · exact Nat.lt_succ_of_lt (h.fresh u n hn)
  · show Exclusive _ fun u => (Function.update s.calls t (.refresh call) u).number
    rw [numbers_update]
    refine h.exclusive.update t _ fun n hn u _ hu => ?_
    cases hn
    have hlt := h.fresh u _ hu
    omega
  · rcases hcases u _ hu with ⟨-, hn⟩ | ⟨-, hn⟩
    · have hlt := h.past r hr
      omega
    · exact h.ended r hr u hn

/-- A call ends. -/
theorem leave (h : Ok pub s) {t : T} {r : Returned}
    (hnumber : (s.calls t).number = some r.call.number)
    (huse : s.core.threads t = .use r.generation r.paths)
    (haccount : Account pub s.core.dir (s.attemptsOf r.call.number) r) :
    Ok pub (s.leave t r) := by
  have hcore : (Graph.machine pub.subCache).step s.core (.run t) =
      some { s.core with threads := Function.update s.core.threads t .idle } := by
    show Option.map _ (cacheStep pub.subCache s.core.dir s.core.cache t (s.core.threads t)) = _
    rw [huse]
    rfl
  have hcases : ∀ u n, (Function.update s.calls t .idle u).number = some n →
      u ≠ t ∧ (s.calls u).number = some n := by
    intro u n hn
    by_cases hu : u = t
    · rw [hu, Function.update_self] at hn
      cases hn
    · rw [Function.update_of_ne hu] at hn
      exact ⟨hu, hn⟩
  refine { h with
    core := StateOk.step (fun _ _ => refreshSubPaths_stale) h.core hcore
    calls := (Function.forall_update_iff s.calls fun u pc => PcOk pub (s.leave t r) u pc).mpr
      ⟨Function.update_self t _ s.core.threads,
        fun u hu => (h.calls u).congr (Function.update_of_ne hu _ _) fun _ _ => rfl⟩
    fresh := fun u n hn => h.fresh u n (hcases u n hn).2
    exclusive := h.exclusive.mono fun u n hn => (hcases u n hn).2
    returned := fun x hx => ?_
    past := fun x hx => ?_
    ended := fun x hx u hu => ?_
    once := ?_ }
  · rcases List.mem_append.mp hx with hx | hx
    · exact h.returned x hx
    · rw [List.mem_singleton.mp hx]
      exact haccount
  · rcases List.mem_append.mp hx with hx | hx
    · exact h.past x hx
    · rw [List.mem_singleton.mp hx]
      exact h.fresh t _ hnumber
  · obtain ⟨hut, hun⟩ := hcases u _ hu
    rcases List.mem_append.mp hx with hx | hx
    · exact h.ended x hx u hun
    · rw [List.mem_singleton.mp hx] at hun
      exact hut (h.exclusive u t _ trivial hun hnumber)
  · show ((s.returned ++ [r]).map (·.call.number)).Nodup
    rw [List.map_append, List.map_singleton, ← List.concat_eq_append]
    refine h.once.concat fun hmem => ?_
    obtain ⟨x, hx, heq⟩ := List.mem_map.mp hmem
    exact h.ended x hx t (heq ▸ hnumber)

/-- A step of `refresh_sub_paths`. -/
theorem refresh (h : Ok pub s) {t : T} {call : Call} (hpc : s.calls t = .refresh call)
    (hstep : s.refresh pub t call = some s') : Ok pub s' := by
  obtain ⟨core, hcore, rfl⟩ := Option.map_eq_some_iff.mp hstep
  have hok : StateOk pub.subCache core :=
    StateOk.step (a := .run t) (fun _ _ => refreshSubPaths_stale) h.core hcore
  obtain ⟨r, -, hr⟩ := Option.map_eq_some_iff.mp hcore
  have hdir : core.dir = s.core.dir := by rw [← hr]
  have hmine := h.calls t
  rw [hpc] at hmine
  have hmid : Ok pub { s with core := core } := by
    refine h.withCore hok (fun u => ?_) fun x hx => hdir ▸ h.returned x hx
    by_cases hu : u = t
    · subst hu
      rw [hpc]
      exact hmine
    · refine (h.calls u).congr ?_ fun _ _ => rfl
      show core.threads u = s.core.threads u
      rw [← hr]
      exact Function.update_of_ne hu _ _
  split
  · next generation paths huse =>
    refine hmid.goto (hpc ▸ rfl) ?_
    exact ⟨hmine.1, hmine.2, huse⟩
  · exact hmid

/-- The message is made ready. -/
theorem prepare (h : Ok pub s) {t : T} {call : Call} {generation : Nat}
    {paths : List (List UInt8)} (hpc : s.calls t = .prepare call generation paths) (env : Env) :
    Ok pub (s.prepare pub t call generation paths env) := by
  have hmine := h.calls t
  rw [hpc] at hmine
  obtain ⟨hcall, hnone, huse⟩ := hmine
  have hcarried := @prepared_carried P T pub s h.sender call env
  unfold State.prepare
  cases hprepared : s.prepared pub call env with
  | mk stage out =>
    rw [hprepared] at hcarried
    obtain ⟨hsender, hcarried⟩ := hcarried
    cases out with
    | none =>
      refine (h.withStage hsender).leave (hpc ▸ rfl : (s.calls t).number = _) huse
        ⟨hcall, covered_of_use h.core huse, fun _ => ⟨hnone, rfl⟩, fun out hout => ?_⟩
      cases hout
    | some out =>
      refine (h.withStage hsender).goto (hpc ▸ rfl : _ = (s.calls t).number)
        ⟨hcall, huse, [], rfl, ?_⟩
      have hsent : ({ s with stage := stage } : State P T).attemptsOf call.number = [] := hnone
      rw [hsent]
      exact ⟨rfl, fun a ha => absurd ha List.not_mem_nil, hcarried out rfl, by simp⟩

/-- One turn of the loop. -/
theorem sendOne (h : Ok pub s) {t : T} {call : Call} {generation : Nat}
    {paths rest : List (List UInt8)} {out : Outbound} {configError : Bool} {path : List UInt8}
    (hpc : s.calls t = .send call generation paths out (path :: rest) configError)
    (failure : Option Errno) :
    Ok pub (s.send t call generation paths out configError failure (path :: rest)) := by
  have hmine := h.calls t
  rw [hpc] at hmine
  obtain ⟨hcall, huse, done, hpaths, hsent⟩ := hmine
  have hnumber : (s.calls t).number = some call.number := by rw [hpc]; rfl
  let s' := s.send t call generation paths out configError failure (path :: rest)
  have hattempts : s'.attempts = s.attempts ++ [Attempt.mk call.number path (bytesOf out)
      (sendTo s.sockets path (bytesOf out) failure).1] := rfl
  have hsame : ∀ u, (s'.calls u).number = (s.calls u).number := numbers_same hnumber.symm
  -- The sends of the other calls are as before.
  have hothers : ∀ n, n ≠ call.number → s'.attemptsOf n = s.attemptsOf n := by
    intro n hn
    rw [attemptsOf_append hattempts, if_neg fun heq => hn heq.symm, List.append_nil]
  refine { h with
    calls := (Function.forall_update_iff s.calls fun u pc => PcOk pub s' u pc).mpr
      ⟨?_, fun u hu => ?_⟩
    fresh := fun u n hn => h.fresh u n ((hsame u).symm.trans hn)
    exclusive := h.exclusive.mono fun u n hn => (hsame u).symm.trans hn
    attempts := fun a ha => ?_
    returned := fun r hr => ?_
    ended := fun r hr u hu => h.ended r hr u ((hsame u).symm.trans hu)
    sockets := fun address => ?_ }
  · refine ⟨hcall, huse, done ++ [path], by rw [hpaths]; simp, ?_⟩
    rw [attemptsOf_append hattempts, if_pos rfl]
    exact hsent.append path _
  · refine (h.calls u).congr rfl fun n hn => hothers n fun heq => hu ?_
    exact h.exclusive u t n trivial hn (heq ▸ hnumber)
  · rcases List.mem_append.mp ha with ha | ha
    · exact h.attempts a ha
    · rw [List.mem_singleton.mp ha]
      exact h.fresh t _ hnumber
  · have hne : r.call.number ≠ call.number := fun heq =>
      h.ended r hr t (hnumber.trans (congrArg some heq.symm))
    show Account pub s.core.dir (s'.attemptsOf r.call.number) r
    rw [hothers _ hne]
    exact h.returned r hr
  · rw [delivered_append hattempts, h.sockets address]
    show _ = s.gone address ++ ((sendTo s.sockets path (bytesOf out) failure).2 address).getD []
    rcases sendTo_cases s.sockets path (bytesOf out) failure with ⟨old, hold, hsend⟩ | ⟨hne, hold⟩
    · rw [hsend]
      dsimp only
      by_cases haddress : strncpy 108 path = address
      · subst haddress
        rw [Function.update_self, if_pos ⟨rfl, rfl⟩, hold]
        exact List.append_assoc _ _ _
      · rw [Function.update_of_ne (Ne.symm haddress), if_neg fun hboth => haddress hboth.2,
          List.append_nil]
    · rw [hold, if_neg fun hboth => hne hboth.1, List.append_nil]

/-- The loop is over. -/
theorem sendDone (h : Ok pub s) {t : T} {call : Call} {generation : Nat}
    {paths : List (List UInt8)} {out : Outbound} {configError : Bool}
    (hpc : s.calls t = .send call generation paths out [] configError)
    (failure : Option Errno) :
    Ok pub (s.send t call generation paths out configError failure []) := by
  have hmine := h.calls t
  rw [hpc] at hmine
  obtain ⟨hcall, huse, done, hpaths, hsent⟩ := hmine
  rw [List.append_nil] at hpaths
  subst hpaths
  refine h.leave (by rw [hpc]; rfl) huse ⟨hcall, covered_of_use h.core huse, fun hnone => ?_,
    fun out' hout => ?_⟩
  · cases hnone
  · cases hout
    exact ⟨configError, hsent, rfl⟩

theorem step (h : Ok pub s) {a : Act P T} (hstep : (machine pub P T).step s a = some s') :
    Ok pub s' := by
  cases a with
  | mutate a =>
    obtain ⟨core, hcore, rfl⟩ := Option.map_eq_some_iff.mp hstep
    have hok : StateOk pub.subCache core :=
      StateOk.step (a := .mutate a) (fun _ _ => refreshSubPaths_stale) h.core hcore
    obtain ⟨d, hd, hcore'⟩ := Option.map_eq_some_iff.mp hcore
    have hlater := (mutated_of_mutate hd).later
    subst hcore'
    exact h.withCore hok (fun t => (h.calls t).congr rfl fun _ _ => rfl)
      fun r hr => (h.returned r hr).later hlater
  | bind address =>
    simp only [machine, Fanout.step] at hstep
    split at hstep
    · next hnone =>
      cases hstep
      refine h.withSockets fun other => ?_
      rw [h.sockets other]
      by_cases ho : other = address
      · rw [ho, Function.update_self, hnone]
        rfl
      · rw [Function.update_of_ne ho]
    · cases hstep
  | recv address =>
    simp only [machine, Fanout.step] at hstep
    split at hstep
    · next datagram queue hsome =>
      cases hstep
      refine h.withSockets fun other => ?_
      rw [h.sockets other]
      by_cases ho : other = address
      · rw [ho, Function.update_self, Function.update_self, hsome]
        exact (List.append_assoc _ [datagram] queue).symm
      · rw [Function.update_of_ne ho, Function.update_of_ne ho]
    · cases hstep
  | close address =>
    cases hstep
    refine h.withSockets fun other => ?_
    rw [h.sockets other]
    by_cases ho : other = address
    · rw [ho, Function.update_self, Function.update_self]
      exact (List.append_nil _).symm
    · rw [Function.update_of_ne ho, Function.update_of_ne ho]
  | publish t serialized timestamp payload fits =>
    simp only [machine, Fanout.step] at hstep
    split at hstep
    · cases hstep
      exact h.publish ⟨rfl, rfl⟩ rfl
    · cases hstep
  | run t env =>
    simp only [machine, Fanout.step] at hstep
    split at hstep
    · cases hstep
    · next call hpc => exact h.refresh hpc hstep
    · next call generation paths hpc =>
      cases hstep
      exact h.prepare hpc env
    · next call generation paths out rest configError hpc =>
      cases hstep
      cases rest with
      | nil => exact h.sendDone hpc env.failure
      | cons path rest => exact h.sendOne hpc env.failure

end Ok

omit [DecidableEq T] in
theorem Ok.init (capacity : Nat) (shm : Shm) (counter : UInt32) :
    Ok pub (State.init pub P T capacity shm counter) where
  core := ⟨.initialized capacity, .fresh pub.subCache capacity, fun _ => trivial⟩
  sender := Sender.fresh_ok
  calls _ := rfl
  fresh _ _ h := (by cases h)
  exclusive _ _ _ _ h := (by cases h)
  attempts _ h := (by cases h)
  returned _ h := (by cases h)
  past _ h := (by cases h)
  ended _ h := (by cases h)
  once := List.nodup_nil
  sockets _ := rfl

/-! ### A call that has returned -/

/-- A send of a call that has returned is received with what carries its message. -/
theorem Account.received {d : Directory P} {sent : List Attempt} {r : Returned}
    (h : Account pub d sent r) {a : Attempt} (ha : a ∈ sent) :
    ∃ staged hdr wire, recvFrom a.datagram = some (hdr, wire) ∧
      r.call.message.Carried staged hdr wire := by
  cases hout : r.out with
  | none =>
    rw [(h.failed hout).1] at ha
    cases ha
  | some out =>
    obtain ⟨configError, hsent, -⟩ := h.sent out hout
    refine ⟨out.staged, out.hdr, out.wire, ?_, hsent.carried⟩
    rw [hsent.datagram a ha]
    exact Wire.recvFrom_datagram hsent.carried

/-- A registration that the refresh has to know of has its send. -/
theorem Account.reaches {d : Directory P} (hd : DirectoryOk d) {sent : List Attempt}
    {r : Returned} (h : Account pub d sent r) (hout : r.out.isSome = true) {id : Nat} {reg : Registration P}
    {b : Nat} (hreg : d.regs[id]? = some reg) (hmatch : pub.subCache.filter.Matches reg.entry)
    (hadded : reg.added = some b) (hb : b ≤ r.generation) (hstay : reg.leaving = false)
    (hne : reg.entry.result.socketPath ≠ []) :
    ∃ a ∈ sent, a.path = reg.entry.result.socketPath := by
  obtain ⟨-, ids, hpaths, hcovers⟩ := h.covered
  obtain ⟨out, hout⟩ := Option.isSome_iff_exists.mp hout
  obtain ⟨configError, hsent, -⟩ := h.sent out hout
  have hid := hcovers.includes id reg b hreg (hd.inside id reg hreg) hmatch hadded hb hstay
  have hanswer : reg.entry.result ∈ d.answers ids :=
    List.mem_filterMap.mpr ⟨id, hid, by rw [hreg]; rfl⟩
  have hpath : reg.entry.result.socketPath ∈ r.paths := by
    rw [hpaths]
    exact List.mem_filter.mpr ⟨List.mem_map_of_mem hanswer, by simpa using hne⟩
  rw [← hsent.paths] at hpath
  exact List.mem_map.mp hpath

end

/-! ## The result -/

/-- A subscription of the topic `[116]`. -/
def exampleSubscription (socketPath : List UInt8) : Registry.RegistryEntry Nat where
  type := .subscription
  payload
    | .topicName => [116]
    | .socketPath => socketPath
    | f => Registry.Field.zero Nat f

def examplePublisher : Publisher where
  gid := ⟨List.replicate 16 1, rfl⟩
  topicName := [116]
  pid := 7
  page := 4096

def exampleShm : Shm where
  objects := fun _ => .created 0
  next := 0
  linked := fun _ => none

def exampleEnv : Env where
  io := { clock := 8, creation := .created, written := true, junk := [] }
  estimate := 3
  failure := none

/-- Two subscriptions come in, and only the second one has its socket.  A thread publishes. -/
def exampleActs : List (Act Nat Unit) :=
  [.mutate (.publish 0 (exampleSubscription [47, 97])), .mutate (.widen 0), .mutate (.bumpAdd 0),
    .mutate (.publish 1 (exampleSubscription [47, 98])), .mutate (.widen 1),
    .mutate (.bumpAdd 1), .bind (strncpy 108 [47, 98]),
    .publish () false 9 [1, 2, 3] (by decide)]

end RmwUnixSocket.Graph.Fanout
