import Mathlib.Algebra.Group.Int.Defs
import Mathlib.Algebra.Group.Nat.Defs
import Mathlib.Logic.Function.Basic
import RmwUnixSocket.Lib.Machine

/-!
# `rmw_wait` on one wait set

The calls of `rmw_wait` on one wait set, one after the other.  A step of a
call is one system call, one turn of a loop, or one access to a queue under
its mutex.  Between two steps entities come and go, the kernel gives their fd
numbers to new ones, messages arrive and are taken, guard conditions are
triggered, and time passes.

* An entity lives at an address, and an address may be used again.  `uid` is
  what `next_entity_uid` has handed out.
* `files` is the fd table: which entity's file has an fd number.  The doorbell
  of the context has uid 0.
* `kernel` is the interest list of the epoll instance.  `close` takes the file
  from it.
* Of a message queue there is its length, and of a socket whether
  `drain_socket` keeps a datagram.  A drain is one step.
* An entity of the arrays is not destroyed during the call.
* `run_generation_check` triggers guard conditions, which anybody may do at
  any time, so it is no step here.

The fields `given`, `takenAt`, `touched`, `drained` and `consumed` of a call
are ghosts.
-/

namespace RmwUnixSocket.Wait

/-! ## Timeouts -/

/-- `rmw_time_t`. -/
structure RmwTime where
  sec : Nat
  nsec : Nat
  sec_lt : sec < 2 ^ 64
  nsec_lt : nsec < 2 ^ 64
  deriving DecidableEq

/-- `RMW_DURATION_INFINITE`. -/
def RMW_DURATION_INFINITE : RmwTime where
  sec := 9223372036
  nsec := 854775807
  sec_lt := by decide
  nsec_lt := by decide

/-- `std::numeric_limits<int>::max()`. -/
def INT_MAX : Int := 2 ^ 31 - 1

/-- The value of an `int64_t`.  A sum or product that does not fit wraps. -/
def toInt64 (x : Int) : Int :=
  Int.bmod x (2 ^ 64)

/-- The value of an `int`. -/
def toInt32 (x : Int) : Int :=
  Int.bmod x (2 ^ 32)

/-- The milliseconds of a timeout, in `int64_t`. -/
def RmwTime.ms (t : RmwTime) : Int :=
  toInt64 (toInt64 (toInt64 t.sec * 1000) + (toInt64 t.nsec).tdiv 1000000)

/-- `timeout_ms`.  A negative value blocks forever. -/
def timeoutMs : Option RmwTime → Int
  | none => -1
  | some t =>
    if INT_MAX < t.ms then -1
    else if toInt32 t.ms = 0 ∧ 0 < t.nsec then 1
    else toInt32 t.ms

/-- The time that a block may take, rounded up. -/
def remainingMs (deadlineNs now : Int) : Int :=
  let remNs := deadlineNs - now
  let remMs := if 0 < remNs then (remNs + 999999) / 1000000 else 0
  min remMs INT_MAX

/-! ## Entities -/

/-- The entities that a call can wait for. -/
inductive EntityKind
  | subscription
  | service
  | client
  | guardCondition
  deriving DecidableEq

/-- An address of the heap. -/
abbrev Addr := Nat

/-- The fields of an entity that `rmw_wait` uses.  A guard condition has a
`counter`, the others have a queue and a socket. -/
structure Entity where
  uid : Nat
  kind : EntityKind
  fd : Nat
  depth : Nat
  queue : Nat
  socket : List Bool
  counter : Nat
  deriving DecidableEq

/-- `drain_socket`: the queue takes what is kept, and is cut. -/
def Entity.drainSocket (e : Entity) : Entity :=
  { e with
    queue := e.socket.foldl
      (fun queue kept => if kept then min (queue + 1) e.depth else queue) e.queue,
    socket := [] }

/-- `ArmedEntry`. -/
inductive ArmedEntry
  | entity (kind : EntityKind) (entity : Addr) (uid : Nat)
  | doorbell
  deriving DecidableEq

/-- The `uid` of an entry: 0 for the doorbell. -/
def ArmedEntry.uid : ArmedEntry → Nat
  | .entity _ _ uid => uid
  | .doorbell => 0

/-- The arrays of a call.  An entry may be null. -/
abbrev Arrays := EntityKind → List (Option Addr)

/-- The entries of one array that are not null. -/
def Arrays.entries (arrays : Arrays) (kind : EntityKind) :
    List (EntityKind × Addr) :=
  (arrays kind).filterMap fun entry => entry.map fun a => (kind, a)

/-- The order of the arming pass. -/
def Arrays.targets (arrays : Arrays) : List (EntityKind × Addr) :=
  arrays.entries .subscription ++ arrays.entries .service ++
    arrays.entries .client ++ arrays.entries .guardCondition

/-- The places of one array. -/
def Arrays.places (arrays : Arrays) (kind : EntityKind) :
    List (EntityKind × Nat) :=
  (List.range (arrays kind).length).map fun i => (kind, i)

/-- The order of the output pass. -/
def Arrays.outputs (arrays : Arrays) : List (EntityKind × Nat) :=
  arrays.places .subscription ++ arrays.places .guardCondition ++
    arrays.places .service ++ arrays.places .client

/-- Sets an entry to null. -/
def Arrays.clear (arrays : Arrays) (kind : EntityKind) (i : Nat) : Arrays :=
  Function.update arrays kind ((arrays kind).set i none)

/-- `gc_index`: the last place of a guard condition. -/
def Arrays.gcIndex (arrays : Arrays) (a : Addr) : Option Nat :=
  (List.range (arrays .guardCondition).length).reverse.find? fun i =>
    (arrays .guardCondition)[i]? = some (some a)

/-! ## A call -/

/-- What a call returns. -/
inductive Ret
  | ok
  | timeout
  | error
  deriving DecidableEq

/-- What `epoll_wait` returns. -/
inductive EpollResult
  | events (fds : List Nat)
  | timedOut
  | interrupted
  | failed

/-- `ready_events` has this many places. -/
def maxEvents : Nat := 64

/-- Where a call is. -/
inductive Pc
  | idle
  | arm (todo : List (EntityKind × Addr))
  | armDoorbell
  | drainUnarmed (todo : List ArmedEntry)
  | checkQueues (todo : List (EntityKind × Addr))
  | readTriggers (i : Nat)
  | takeDeadline
  | block
  | epollWait (blockMs : Int)
  | dispatch (n : Nat) (ready : List Nat) (progressed : Bool)
  | testQueue (a : Addr) (n : Nat) (ready : List Nat) (progressed : Bool)
  | batchDone (n : Nat) (progressed : Bool)
  | output (todo : List (EntityKind × Nat))
  | returning
  | returned (ret : Ret)
  deriving DecidableEq

/-- The arguments and locals of a call.  Of the ghosts, `given` are the arrays
as the caller has passed them, `takenAt` is the clock when the deadline was
taken, `touched` are the entities of the events that were dispatched,
`drained` are the entries of `unarmed` that were drained, and `consumed` are
the guard conditions whose triggers were read. -/
structure Call where
  arrays : Arrays
  timeout : Option RmwTime
  graphGcUnwired : Bool
  armedThisCall : List Nat
  unarmed : List ArmedEntry
  gcTriggered : Nat → Bool
  somethingReady : Bool
  deadlineNs : Int
  anyReady : Bool
  given : Arrays
  takenAt : Int
  touched : List (EntityKind × Addr)
  drained : List ArmedEntry
  consumed : List Addr

/-- The start of a call. -/
def Call.start (arrays : Arrays) (timeout : Option RmwTime)
    (graphGcUnwired : Bool) : Call where
  arrays := arrays
  timeout := timeout
  graphGcUnwired := graphGcUnwired
  armedThisCall := []
  unarmed := []
  gcTriggered := fun _ => false
  somethingReady := false
  deadlineNs := 0
  anyReady := false
  given := arrays
  takenAt := 0
  touched := []
  drained := []
  consumed := []

/-- `infinite`. -/
def Call.infinite (call : Call) : Prop :=
  timeoutMs call.timeout < 0

instance (call : Call) : Decidable call.infinite :=
  inferInstanceAs (Decidable (_ < _))

/-- The block of this call is bounded. -/
def Call.degraded (call : Call) : Prop :=
  call.graphGcUnwired = true ∨ call.unarmed ≠ []

instance (call : Call) : Decidable call.degraded :=
  inferInstanceAs (Decidable (_ ∨ _))

/-- The wait set, the entities, and the kernel's side. -/
structure State where
  heap : Addr → Option Entity
  nextUid : Nat
  files : Nat → Option Nat
  kernel : Nat → Option Nat
  armed : Nat → Option ArmedEntry
  clock : Int
  pc : Pc
  call : Call

namespace State

/-- A fresh wait set. -/
def init (doorbell : Option Nat) : State where
  heap := fun _ => none
  nextUid := 1
  files := fun fd => if doorbell = some fd then some 0 else none
  kernel := fun _ => none
  armed := fun _ => none
  clock := 0
  pc := .idle
  call := .start (fun _ => []) none false

variable (s : State)

/-- The call goes on. -/
def goto (pc : Pc) : State :=
  { s with pc := pc }

/-- The locals of the call change. -/
def setCall (f : Call → Call) : State :=
  { s with call := f s.call }

/-- An entity changes. -/
def modify (a : Addr) (f : Entity → Entity) : State :=
  { s with heap := Function.update s.heap a ((s.heap a).map f) }

/-- The queue of an entity is empty. -/
def queueEmpty (a : Addr) : Bool :=
  (s.heap a).all fun e => e.queue = 0

/-- A call is running. -/
def inCall : Bool :=
  match s.pc with
  | .idle | .returned _ => false
  | _ => true

/-- The arrays hold living entities of the right kinds. -/
def valid (arrays : Arrays) : Bool :=
  arrays.targets.all fun target =>
    (s.heap target.2).any fun e => e.kind = target.1

/-- `epoll_ctl` with `EPOLL_CTL_ADD`.  An fd that is registered already gives
`EEXIST`, which counts as success. -/
def epollAdd (fd : Nat) (ok : Bool) : Option State :=
  if ok then
    match s.kernel fd with
    | some _ => some s
    | none => (s.files fd).map fun uid =>
        { s with kernel := Function.update s.kernel fd (some uid) }
  else none

/-- `register_fd`. -/
def registerFd (fd : Nat) (entry : ArmedEntry) (ok : Bool) : State :=
  let t := s.setCall fun call =>
    { call with armedThisCall := fd :: call.armedThisCall }
  if (s.armed fd).map ArmedEntry.uid = some entry.uid then t
  else
    match t.epollAdd fd ok with
    | some t => { t with armed := Function.update t.armed fd (some entry) }
    | none =>
      s.setCall fun call =>
        { call with
          armedThisCall := call.armedThisCall.filter (· ≠ fd),
          unarmed := call.unarmed ++ [entry] }

/-- The fd of an event that this call has not armed is withdrawn. -/
def withdraw (fd : Nat) (ok : Bool) : State :=
  { s with
    kernel := if ok then Function.update s.kernel fd none else s.kernel,
    armed := Function.update s.armed fd none }

/-- A read of an eventfd that finds a trigger. -/
def consume (a : Addr) : State :=
  (s.modify a fun e => { e with counter := 0 }).setCall fun call =>
    { call with consumed := a :: call.consumed }

/-- A guard condition has been triggered and not read. -/
def readable (a : Addr) : Bool :=
  (s.heap a).any fun e => 0 < e.counter

/-- Remembers the trigger of the guard condition at place `i`. -/
def markTriggered (i : Nat) : State :=
  s.setCall fun call =>
    { call with gcTriggered := Function.update call.gcTriggered i true }

end State

/-! ## Steps -/

/-- The longest block of a wait that has to come back. -/
def degradedMs : Int := 200

/-- `block_ms`. -/
def blockMs (call : Call) (now : Int) : Int :=
  if call.somethingReady then 0
  else
    let ms := if call.infinite then -1 else remainingMs call.deadlineNs now
    if call.degraded ∧ (ms < 0 ∨ degradedMs < ms) then degradedMs else ms

/-- One entry of the output pass. -/
def outputStep (s : State) (kind : EntityKind) (i : Nat) : State :=
  let ready := s.setCall fun call => { call with anyReady := true }
  let null := s.setCall fun call =>
    { call with arrays := call.arrays.clear kind i }
  match (s.call.arrays kind)[i]?.join with
  | none => s
  | some a =>
    match kind with
    | .guardCondition =>
      if s.readable a then ready.consume a
      else if s.call.gcTriggered i then ready
      else null
    | _ => if s.queueEmpty a then null else ready

/-- The event of one fd. -/
def dispatchStep (s : State) (n fd : Nat) (ready : List Nat)
    (progressed ok : Bool) : State :=
  match s.armed fd with
  | none => (s.withdraw fd ok).goto (.dispatch n ready progressed)
  | some entry =>
    if fd ∉ s.call.armedThisCall then
      (s.withdraw fd ok).goto (.dispatch n ready progressed)
    else
      match entry with
      | .doorbell => s.goto (.dispatch n ready progressed)
      | .entity kind a _ =>
        let t := s.setCall fun call =>
          { call with touched := (kind, a) :: call.touched }
        match kind with
        | .guardCondition =>
          if t.readable a then
            let t := t.consume a
            match t.call.arrays.gcIndex a with
            | some i => (t.markTriggered i).goto (.dispatch n ready true)
            | none => t.goto (.dispatch n ready true)
          else t.goto (.dispatch n ready progressed)
        | _ =>
          (t.modify a Entity.drainSocket).goto (.testQueue a n ready progressed)

/-- One step of a call, other than `epoll_wait`.  `ok` is the outcome of
`epoll_ctl`. -/
def callStep (doorbell : Option Nat) (s : State) (ok : Bool) : Option State :=
  match s.pc with
  | .arm [] => some (s.goto .armDoorbell)
  | .arm ((kind, a) :: todo) =>
    (s.heap a).map fun e =>
      (s.registerFd e.fd (.entity kind a e.uid) ok).goto (.arm todo)
  | .armDoorbell =>
    let t :=
      match doorbell with
      | some fd => s.registerFd fd .doorbell ok
      | none => s
    some (t.goto (.drainUnarmed t.call.unarmed))
  | .drainUnarmed [] => some (s.goto (.checkQueues s.call.arrays.targets))
  | .drainUnarmed (entry :: todo) =>
    let t := s.setCall fun call => { call with drained := entry :: call.drained }
    match entry with
    | .doorbell | .entity .guardCondition _ _ =>
      some (t.goto (.drainUnarmed todo))
    | .entity _ a _ =>
      some ((t.modify a Entity.drainSocket).goto (.drainUnarmed todo))
  | .checkQueues [] => some (s.goto (.readTriggers 0))
  | .checkQueues ((kind, a) :: todo) =>
    if kind ≠ .guardCondition ∧ !s.queueEmpty a then
      some ((s.setCall fun call => { call with somethingReady := true }).goto
        (.checkQueues todo))
    else some (s.goto (.checkQueues todo))
  | .readTriggers i =>
    if i < (s.call.arrays .guardCondition).length then
      match (s.call.arrays .guardCondition)[i]?.join with
      | none => some (s.goto (.readTriggers (i + 1)))
      | some a =>
        if s.readable a then
          some ((((s.consume a).markTriggered i).setCall fun call =>
            { call with somethingReady := true }).goto (.readTriggers (i + 1)))
        else some (s.goto (.readTriggers (i + 1)))
    else some (s.goto .takeDeadline)
  | .takeDeadline =>
    some ((s.setCall fun call =>
      { call with
        deadlineNs :=
          if call.infinite then 0
          else s.clock + timeoutMs call.timeout * 1000000,
        takenAt := s.clock }).goto .block)
  | .block => some (s.goto (.epollWait (blockMs s.call s.clock)))
  | .dispatch n [] progressed => some (s.goto (.batchDone n progressed))
  | .dispatch n (fd :: ready) progressed =>
    some (dispatchStep s n fd ready progressed ok)
  | .testQueue a n ready progressed =>
    some (s.goto (.dispatch n ready (progressed || !s.queueEmpty a)))
  | .batchDone n progressed =>
    if s.call.somethingReady then
      if n = maxEvents then some (s.goto .block)
      else some (s.goto (.output s.call.arrays.outputs))
    else if progressed then some (s.goto (.output s.call.arrays.outputs))
    else if ¬s.call.infinite ∧ s.call.deadlineNs ≤ s.clock then
      some (s.goto (.output s.call.arrays.outputs))
    else if s.call.degraded then some (s.goto (.output s.call.arrays.outputs))
    else some (s.goto .block)
  | .output [] => some (s.goto .returning)
  | .output ((kind, i) :: todo) =>
    some ((outputStep s kind i).goto (.output todo))
  | .returning =>
    if !s.call.anyReady ∧ ¬s.call.infinite ∧ s.call.deadlineNs ≤ s.clock then
      some (s.goto (.returned .timeout))
    else some (s.goto (.returned .ok))
  | .idle | .epollWait _ | .returned _ => none

/-- The return of `epoll_wait`. -/
def epollStep (s : State) (result : EpollResult) : Option State :=
  match s.pc with
  | .epollWait _ =>
    match result with
    | .events fds =>
      if fds ≠ [] ∧ fds.length ≤ maxEvents ∧ fds.Nodup ∧
          ∀ fd ∈ fds, s.kernel fd ≠ none then
        some (s.goto (.dispatch fds.length fds false))
      else none
    | .timedOut => some (s.goto (.output s.call.arrays.outputs))
    | .interrupted => some (s.goto .block)
    | .failed => some (s.goto (.returned .error))
  | _ => none

/-- A step of the call or of its surroundings. -/
inductive Act
  | create (a fd : Nat) (kind : EntityKind) (depth : Nat)
  | destroy (a : Addr)
  | change (a : Addr) (queue : Nat) (socket : List Bool) (counter : Nat)
  | tick (ns : Nat)
  | call (arrays : Arrays) (timeout : Option RmwTime) (graphGcUnwired : Bool)
  | run (ok : Bool)
  | epoll (result : EpollResult)

/-- One step. -/
def step (doorbell : Option Nat) (s : State) : Act → Option State
  | .create a fd kind depth =>
    if s.heap a = none ∧ s.files fd = none then
      some
        { s with
          heap := Function.update s.heap a
            (some
              { uid := s.nextUid, kind := kind, fd := fd, depth := depth,
                queue := 0, socket := [], counter := 0 }),
          nextUid := s.nextUid + 1,
          files := Function.update s.files fd (some s.nextUid) }
    else none
  | .destroy a =>
    match s.heap a with
    | some e =>
      if s.inCall ∧ (e.kind, a) ∈ s.call.given.targets then none
      else
        some
          { s with
            heap := Function.update s.heap a none,
            files := Function.update s.files e.fd none,
            kernel := Function.update s.kernel e.fd none }
    | none => none
  | .change a queue socket counter =>
    some (s.modify a fun e =>
      { e with queue := queue, socket := socket, counter := counter })
  | .tick ns => some { s with clock := s.clock + ns }
  | .call arrays timeout graphGcUnwired =>
    if !s.inCall ∧ s.valid arrays then
      some
        { s with
          call := .start arrays timeout graphGcUnwired,
          pc := .arm arrays.targets }
    else none
  | .run ok => callStep doorbell s ok
  | .epoll result => epollStep s result

/-- The calls on one wait set as a machine. -/
def machine (doorbell : Option Nat) : Machine State Act where
  step := step doorbell

end RmwUnixSocket.Wait
