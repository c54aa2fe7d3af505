import Mathlib.Data.List.TakeWhile
import RmwUnixSocket.Graph.Coverage

/-!
# Requests and responses

`rmw_send_request`, `rmw_take_request`, `rmw_send_response` and
`rmw_take_response`, with any number of clients, services and threads.

* A client is one `rmw_client_t`.  It binds its socket, registers, and may be
  removed from the registry (by itself or by a sweep) and closed.
* A request goes to one service or to none; `Cache.lean` has the choice.  The
  service hands the request id to the application, which may respond to it
  any number of times.
* The kernel delivers a datagram to the socket that is bound at the address,
  or drops it.
* A response is serialized first.  When that fails nothing is sent.
* A datagram is its header; the payload is not looked at here.

`ResponseCall.floor` is a ghost: the generation when the call began.
-/

namespace RmwUnixSocket.Graph.Routing

open Registry (RegistryEntry Field Payload cstr)

/-! ## Addresses -/

/-- `strncpy` of at most `n - 1` bytes into a zeroed array of `n` bytes. -/
def strncpy (n : Nat) (s : List UInt8) : List UInt8 :=
  (cstr s).take (n - 1) ++ List.replicate (n - ((cstr s).take (n - 1)).length) 0

/-- The 32 bits that `make_socket_path` makes of its counter and of the
microseconds of the clock. -/
def uniqueId (counter : UInt32) (micros : Nat) : UInt32 :=
  (counter <<< 16) ||| UInt32.ofNat (micros % 2 ^ 16)

/-- The bytes of a text. -/
def ascii (s : List Char) : List UInt8 :=
  s.map fun c => c.toNat.toUInt8

/-- `make_socket_path`. -/
def makeSocketPath (domain : Nat) (kind : List Char) (pid : Nat)
    (unique : UInt32) : List UInt8 :=
  ascii ("/tmp/ros2_uds/".toList ++ Nat.toDigits 10 domain ++ ['/'] ++ kind ++
    ['_'] ++ Nat.toDigits 10 pid ++ ['_'] ++ Nat.toDigits 16 unique.toNat ++
    ".sock".toList)

theorem not_mem_cstr (s : List UInt8) : (0 : UInt8) ∉ cstr s := by
  intro h
  have hne := List.mem_takeWhile_imp h
  simp at hne

theorem cstr_append_zeros {s : List UInt8} (h : (0 : UInt8) ∉ s) {n : Nat}
    (hn : 0 < n) : cstr (s ++ List.replicate n 0) = s := by
  induction s with
  | nil =>
    cases n with
    | zero => omega
    | succ n => rfl
  | cons x s ih =>
    have hx : x ≠ 0 := fun heq => h (heq ▸ List.mem_cons_self)
    have hrest : (0 : UInt8) ∉ s := fun hmem => h (List.mem_cons_of_mem x hmem)
    unfold cstr at ih ⊢
    rw [List.cons_append, List.takeWhile_cons_of_pos (by simpa using hx),
      ih hrest]

theorem cstr_of_not_mem {s : List UInt8} (h : (0 : UInt8) ∉ s) : cstr s = s := by
  unfold cstr
  rw [List.takeWhile_eq_self_iff]
  intro x hx
  have hne : x ≠ 0 := fun heq => h (heq ▸ hx)
  simpa using hne

/-- The string in the array. -/
theorem cstr_strncpy {n : Nat} (hn : 0 < n) (s : List UInt8) :
    cstr (strncpy n s) = (cstr s).take (n - 1) := by
  have hnot : (0 : UInt8) ∉ (cstr s).take (n - 1) :=
    fun hmem => not_mem_cstr s (List.mem_of_mem_take hmem)
  have hlen := List.length_take_le (n - 1) (cstr s)
  exact cstr_append_zeros hnot (by omega)

/-- The address of a path that was read back from the registry is the address
of the path. -/
theorem strncpy_cstr_strncpy {n : Nat} (hn : 0 < n) (s : List UInt8) :
    strncpy n (cstr (strncpy n s)) = strncpy n s := by
  have hnot : (0 : UInt8) ∉ (cstr s).take (n - 1) :=
    fun hmem => not_mem_cstr s (List.mem_of_mem_take hmem)
  have hself : (cstr (cstr (strncpy n s))).take (n - 1) =
      (cstr s).take (n - 1) := by
    rw [cstr_strncpy hn, cstr_of_not_mem hnot, List.take_take, Nat.min_self]
  show (cstr (cstr (strncpy n s))).take (n - 1) ++ List.replicate
    (n - ((cstr (cstr (strncpy n s))).take (n - 1)).length) 0 = _
  rw [hself]
  rfl

/-! ## Clients and services -/

/-- The clients and the services, as they are created. -/
structure Config (P C S : Type) where
  domain : Nat
  gid : C → List UInt8
  clientService : C → List UInt8
  pid : C → Nat
  counter : C → UInt32
  micros : C → Nat
  rest : C → Payload P
  serviceName : S → List UInt8

namespace Config

variable {P C S : Type} (cfg : Config P C S) (c : C)

/-- `socket_path` of a client. -/
def path : List UInt8 :=
  makeSocketPath cfg.domain "cli".toList (cfg.pid c)
    (uniqueId (cfg.counter c) (cfg.micros c))

/-- `sun_path` of the socket of a client. -/
def address : List UInt8 := strncpy 108 (cfg.path c)

/-- The entry that `rmw_create_client` adds. -/
def entry : RegistryEntry P where
  type := .client
  payload :=
    Words.store (Words.store (Words.store (cfg.rest c) .gid (cfg.gid c))
      .topicName (strncpy 256 (cfg.clientService c)))
      .socketPath (strncpy 108 (cfg.path c))

theorem entry_gid : (cfg.entry c).payload .gid = cfg.gid c := rfl

theorem entry_socketPath :
    (cfg.entry c).payload .socketPath = strncpy 108 (cfg.path c) := rfl

/-- A registered path is not empty. -/
theorem cstr_socketPath_ne_nil :
    cstr ((cfg.entry c).payload .socketPath) ≠ [] := by
  rw [entry_socketPath, cstr_strncpy (by decide)]
  nofun

/-- A response goes to the address of the client whose entry was read. -/
theorem address_eq :
    strncpy 108 (cstr ((cfg.entry c).payload .socketPath)) = cfg.address c :=
  strncpy_cstr_strncpy (by decide) _

end Config

/-- `rmw_request_id_t`. -/
structure RequestId where
  writerGuid : List UInt8
  sequenceNumber : Nat
  deriving DecidableEq

/-- The members of `WireHeader` that route a message. -/
structure Datagram where
  gid : List UInt8
  sequenceNumber : Nat
  msgType : Nat
  deriving DecidableEq

/-- The header of a request. -/
def requestHeader (gid : List UInt8) (sequenceNumber : Nat) : Datagram :=
  ⟨gid, sequenceNumber, 1⟩

/-- The header of a response. -/
def responseHeader (id : RequestId) : Datagram :=
  ⟨id.writerGuid, id.sequenceNumber, 2⟩

/-- The request id that a header carries. -/
def Datagram.requestId (d : Datagram) : RequestId :=
  ⟨d.gid, d.sequenceNumber⟩

/-- A client: its sequence number, its socket, and the ids of the responses
that it has taken. -/
structure Client where
  sequenceNumber : Nat
  inbox : List Datagram
  taken : List RequestId

/-- A service: its client cache, its socket, and the ids of the requests that
it has taken. -/
structure Service (T : Type) where
  cache : Cache T (List CachedClient)
  inbox : List Datagram
  taken : List RequestId

/-- A call of `rmw_send_response`. -/
structure ResponseCall (S : Type) where
  service : S
  request : RequestId
  serialized : Bool
  floor : Nat

/-- Where a thread is in `rmw_send_response`. -/
inductive Pc (S : Type)
  | idle
  | routing (call : ResponseCall S) (pc : CachePc (List CachedClient))
  | fallback (call : ResponseCall S) (scan : ScanPc)
  | returned (call : ResponseCall S) (sent : Option (List UInt8 × Datagram))

/-- The registry, the sockets, and everybody. -/
structure State (P C S T : Type) where
  dir : Directory P
  sockets : List UInt8 → Option C
  clients : C → Client
  services : S → Service T
  threads : T → Pc S

/-- One move. -/
inductive Act (P C S T : Type)
  | mutate (a : Mutation P)
  | bind (c : C)
  | register (c : C) (slot : Nat)
  | close (c : C)
  | sendRequest (c : C) (dest : Option S)
  | takeRequest (s : S) (decodes : Bool)
  | sendResponse (t : T) (s : S) (id : RequestId) (serialized : Bool)
  | run (t : T) (delivered : Bool)
  | takeResponse (c : C) (decodes : Bool)

section

variable {P C S T : Type} [DecidableEq C] [DecidableEq S] [DecidableEq T]
  (cfg : Config P C S)

/-- An initialised registry without clients. -/
def State.init (P : Type) {C S : Type} (T : Type) (cfg : Config P C S)
    (capacity : Nat) : State P C S T where
  dir := .initialized P capacity
  sockets := fun _ => none
  clients := fun _ => ⟨1, [], []⟩
  services := fun s => ⟨.fresh (Graph.sendResponse (cfg.serviceName s)) T, [], []⟩
  threads := fun _ => .idle

/-- The mutation does not publish the entry of a client. -/
def isForeign : Mutation P → Bool
  | .publish _ e => e.type != .client
  | _ => true

namespace State

variable (s : State P C S T)

/-- A thread goes on. -/
def goto (t : T) (pc : Pc S) : State P C S T :=
  { s with threads := Function.update s.threads t pc }

/-- Changes a client. -/
def setClient (c : C) (client : Client) : State P C S T :=
  { s with clients := Function.update s.clients c client }

/-- Changes a service. -/
def setService (i : S) (service : Service T) : State P C S T :=
  { s with services := Function.update s.services i service }

/-- `send_to` a client. -/
def sendTo (address : List UInt8) (d : Datagram) (delivered : Bool) :
    State P C S T :=
  match s.sockets address with
  | some c =>
    if delivered then
      s.setClient c { s.clients c with inbox := (s.clients c).inbox ++ [d] }
    else s
  | none => s

/-- The search of `rmw_send_response`, and the send when it finds the
client. -/
def respond (t : T) (call : ResponseCall S) (clients : List CachedClient)
    (delivered : Bool) : Option (State P C S T) :=
  (clients.find? fun c => c.gid = call.request.writerGuid).map fun c =>
    (s.sendTo (strncpy 108 c.socketPath) (responseHeader call.request)
      delivered).goto t (.returned call
        (some (strncpy 108 c.socketPath, responseHeader call.request)))

end State

/-- The client cache of a service. -/
abbrev clientCache (i : S) : GenerationCache (List CachedClient) :=
  Graph.sendResponse (cfg.serviceName i)

/-- One step of a thread inside `rmw_send_response`. -/
def responseStep (s : State P C S T) (t : T) (delivered : Bool) :
    Option (State P C S T) :=
  match s.threads t with
  | .idle => none
  | .routing call (.use _ clients) =>
    -- A cache miss asks the registry once more.
    some ((s.respond t call clients delivered).getD
      (s.goto t (.fallback call (scanStart s.dir))))
  | .routing call pc =>
    (cacheStep (clientCache cfg call.service) s.dir
      (s.services call.service).cache t pc).map fun r =>
        (s.setService call.service
          { s.services call.service with cache := r.1 }).goto t
            (.routing call r.2)
  | .fallback call (.done ids) =>
    some ((s.respond t call
      ((clientCache cfg call.service).digest (s.dir.answers ids))
      delivered).getD (s.goto t (.returned call none)))
  | .fallback call scan =>
    some (s.goto t (.fallback call
      (scanStep s.dir (clientCache cfg call.service).filter scan)))
  | .returned _ _ => some (s.goto t .idle)

/-- One move. -/
def step (s : State P C S T) : Act P C S T → Option (State P C S T)
  | .mutate a =>
    if isForeign a then (s.dir.mutate a).map fun d => { s with dir := d }
    else none
  | .bind c =>
    some { s with
      sockets := Function.update s.sockets (cfg.address c) (some c) }
  | .register c slot =>
    (s.dir.mutate (.publish slot (cfg.entry c))).map fun d =>
      { s with dir := d }
  | .close c =>
    some { s with sockets := Function.update s.sockets (cfg.address c) none }
  | .sendRequest c dest =>
    let client := s.clients c
    let s' := s.setClient c
      { client with sequenceNumber := client.sequenceNumber + 1 }
    some (match dest with
      | none => s'
      | some i => s'.setService i
        { s.services i with
          inbox := (s.services i).inbox ++
            [requestHeader (cfg.gid c) client.sequenceNumber] })
  | .takeRequest i decodes =>
    match (s.services i).inbox with
    | [] => none
    | d :: rest =>
      if d.msgType = 1 ∧ decodes then
        some (s.setService i
          { s.services i with
            inbox := rest
            taken := (s.services i).taken ++ [d.requestId] })
      else some (s.setService i { s.services i with inbox := rest })
  | .sendResponse t i id serialized =>
    match s.threads t with
    | .idle =>
      if id ∈ (s.services i).taken then
        let call : ResponseCall S := ⟨i, id, serialized, s.dir.generation⟩
        some (s.goto t (if serialized then .routing call .idle
          else .returned call none))
      else none
    | _ => none
  | .run t delivered => responseStep cfg s t delivered
  | .takeResponse c decodes =>
    match (s.clients c).inbox with
    | [] => none
    | d :: rest =>
      if d.msgType = 2 ∧ decodes then
        some (s.setClient c
          { s.clients c with
            inbox := rest
            taken := (s.clients c).taken ++ [d.requestId] })
      else some (s.setClient c { s.clients c with inbox := rest })

/-- The machine. -/
def machine : Machine (State P C S T) (Act P C S T) where
  step := step cfg

end

end RmwUnixSocket.Graph.Routing
