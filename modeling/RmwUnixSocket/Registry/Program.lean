import RmwUnixSocket.Lib.Machine
import RmwUnixSocket.Registry.Layout

/-!
# The registry operations, one atomic step at a time

`registry_add`, `registry_remove`, `registry_cleanup_stale` and
`registry_query` of `registry.cpp` as one program counter, `Pc`, with one
constructor for each atomic operation or field copy of the source.  `exec`
executes the operation at a program counter: it answers the effect on the
shared memory and the local state that follows.

`State` puts any number of processes next to one mapped region, and `step`
lets one of them move.  The steps of the machine are sequentially consistent.

* A process is single-threaded and owns the indices that its `registry_add`
  calls returned.  It calls `registry_remove` only on these, once for each.
* `kill` ends a process between two steps.  A process that is dead stays
  dead; its pid is not given to another process.
* `ring_doorbells` reads the region and sends octets to sockets.  It changes
  nothing here and is one step.
* `occupant` is a ghost.  It records the process whose compare-and-swap
  claimed the slot last and the entry it came with.
-/

namespace RmwUnixSocket.Registry

variable {P : Type}

/-! ## Arguments and results -/

/-- The filters of `registry_query`.  `none` is `ENTRY_EMPTY` for the type
and a null pointer for the strings. -/
structure QueryFilter where
  type : Option RegistryEntryType := none
  topic : Option (List UInt8) := none
  nodeName : Option (List UInt8) := none
  nodeNamespace : Option (List UInt8) := none
  deriving DecidableEq

/-- One element of the answer of `registry_query`. -/
structure RegistryQueryResult where
  nodeName : List UInt8
  nodeNamespace : List UInt8
  topicName : List UInt8
  typeName : List UInt8
  socketPath : List UInt8
  gid : List UInt8
  type : RegistryEntryType
  qosReliability : UInt8
  qosDurability : UInt8
  qosHistory : UInt8
  qosDepth : UInt32
  deriving DecidableEq

/-- The answer that `registry_query` builds from a snapshot. -/
def resultOf (type : RegistryEntryType) (snap : Payload P) :
    RegistryQueryResult where
  nodeName := cstr (snap .nodeName)
  nodeNamespace := cstr (snap .nodeNamespace)
  topicName := cstr (snap .topicName)
  typeName := cstr (snap .typeName)
  socketPath := cstr (snap .socketPath)
  gid := snap .gid
  type := type
  qosReliability := snap .qosReliability
  qosDurability := snap .qosDurability
  qosHistory := snap .qosHistory
  qosDepth := snap .qosDepth

/-- The answer for an entry. -/
def RegistryEntry.result (e : RegistryEntry P) : RegistryQueryResult :=
  resultOf e.type e.payload

/-- A string filter: null, or `strcmp` answers 0. -/
def stringMatches (filter : Option (List UInt8)) (member : List UInt8) : Bool :=
  match filter with
  | none => true
  | some s => cstr member == cstr s

namespace QueryFilter

/-- The type filter. -/
def acceptsType (flt : QueryFilter) (type : RegistryEntryType) : Bool :=
  match flt.type with
  | none => true
  | some t => type == t

/-- The first test of the loop of `registry_query`, on the state byte. -/
def acceptsState (flt : QueryFilter) (state : SlotState) : Bool :=
  match state, flt.type with
  | .empty, _ => false
  | _, none => true
  | st, some t => st == .entry t

/-- The tests on the snapshot. -/
def accepts (flt : QueryFilter) (type : RegistryEntryType)
    (snap : Payload P) : Bool :=
  flt.acceptsType type && stringMatches flt.topic (snap .topicName) &&
    stringMatches flt.nodeName (snap .nodeName) &&
    stringMatches flt.nodeNamespace (snap .nodeNamespace)

end QueryFilter

/-- What a call answers. -/
inductive Ret
  | index (i : Nat)
  | full
  | void
  | results (rs : List RegistryQueryResult)

/-! ## Program counters -/

/-- Bounded reader retries. -/
def MAX_READ_RETRIES : Nat := 16

/-- What `registry_cleanup_stale` returns to: its caller, or the second
attempt of a `registry_add` that found no empty slot. -/
inductive SweepReturn (P : Type)
  | caller
  | retryAdd (e : RegistryEntry P)

/-- The local variables of the loop of `registry_cleanup_stale`. -/
structure Sweep (P : Type) where
  ret : SweepReturn P
  max : Nat
  reclaimed : Bool

/-- The local variables of the loop of `registry_query`. -/
structure Query where
  flt : QueryFilter
  max : Nat
  results : List RegistryQueryResult

/-- The loop that called `snapshot_slot`. -/
inductive SnapCaller (P : Type)
  | sweep (w : Sweep P)
  | query (q : Query)

/-- The operation that called `teardown_slot`, with the state byte that it
took the slot from. -/
inductive TearCaller (P : Type)
  | remove (st : SlotState)
  | sweep (w : Sweep P) (type : RegistryEntryType)

/-- A successful snapshot.  `seq` is the counter that the snapshot was taken
at; the code keeps its 32-bit word. -/
structure Snapshot (P : Type) where
  seq : Nat
  type : RegistryEntryType
  payload : Payload P

/-- The program counters.  Each one is about to execute one atomic operation
or one field copy. -/
inductive Pc (P : Type)
  | idle
  -- try_add_once
  | addCas (e : RegistryEntry P) (i : Nat) (again : Bool)
  | writeBegin (e : RegistryEntry P) (i : Nat)
  | writing (e : RegistryEntry P) (i : Nat) (rest : List Field)
  | publish (e : RegistryEntry P) (i : Nat)
  | hwLoad (e : RegistryEntry P) (i : Nat)
  | hwCas (e : RegistryEntry P) (i cur : Nat)
  | addBump (e : RegistryEntry P) (i : Nat)
  | addRing (e : RegistryEntry P) (i : Nat)
  -- registry_remove
  | removeLoad (i : Nat)
  | removeCas (i : Nat) (st : SlotState)
  | removeBump (st : SlotState)
  | removeRing
  -- teardown_slot
  | tearBegin (c : TearCaller P) (i : Nat)
  | tearPath (c : TearCaller P) (i : Nat)
  | tearing (c : TearCaller P) (i : Nat) (path : List UInt8) (rest : List Field)
  | tearUnlink (c : TearCaller P) (i : Nat) (path : List UInt8)
  -- snapshot_slot
  | snapSeq (c : SnapCaller P) (i retry : Nat)
  | snapState (c : SnapCaller P) (i retry s1 : Nat)
  | snapCopy (c : SnapCaller P) (i retry : Nat) (snap : Snapshot P)
      (rest : List Field)
  -- registry_cleanup_stale
  | sweepHw (ret : SweepReturn P)
  | sweepState (w : Sweep P) (i : Nat)
  | sweepPid (w : Sweep P) (i : Nat) (snap : Snapshot P)
  | sweepSeq (w : Sweep P) (i : Nat) (snap : Snapshot P)
  | sweepCas (w : Sweep P) (i : Nat) (snap : Snapshot P)
  | sweepBump (w : Sweep P) (i : Nat) (type : RegistryEntryType)
  | sweepRing (ret : SweepReturn P)
  -- registry_query
  | queryHw (flt : QueryFilter)
  | queryState (q : Query) (i : Nat)

/-- The local state of a process: its program counter, the indices it got
from `registry_add` and has not removed, and the answer of its last call. -/
structure Local (P : Type) where
  pc : Pc P
  held : List (Nat × RegistryEntry P)
  ret : Option Ret

namespace Local

/-- A process that has not called anything. -/
def fresh (P : Type) : Local P :=
  { pc := .idle, held := [], ret := none }

variable (l : Local P)

/-- Moves the program counter. -/
def goto (pc : Pc P) : Local P := { l with pc := pc }

@[simp] theorem goto_pc (pc : Pc P) : (l.goto pc).pc = pc := rfl

@[simp] theorem goto_held (pc : Pc P) : (l.goto pc).held = l.held := rfl

/-- Returns to the caller. -/
def answer (r : Ret) : Local P := { l with pc := .idle, ret := some r }

/-- `registry_add` returns index `i`, which the process now owns. -/
def returnIndex (e : RegistryEntry P) (i : Nat) : Local P :=
  { pc := .idle, held := (i, e) :: l.held, ret := some (.index i) }

/-- The head of the loop of `try_add_once`.  A first pass that finds no slot
sweeps and tries again; a second pass answers -1. -/
def addLoop (max : Nat) (e : RegistryEntry P) (i : Nat) (again : Bool) :
    Local P :=
  if i < max then l.goto (.addCas e i again)
  else if again then l.answer .full
  else l.goto (.sweepHw (.retryAdd e))

/-- The end of `registry_cleanup_stale`. -/
def sweepDone (max : Nat) : SweepReturn P → Local P
  | .caller => l.answer .void
  | .retryAdd e => l.addLoop max e 0 true

/-- The head of the loop of `registry_cleanup_stale`. -/
def sweepLoop (maxEntries : Nat) (w : Sweep P) (i : Nat) : Local P :=
  if i < w.max then l.goto (.sweepState w i)
  else if w.reclaimed then l.goto (.sweepRing w.ret)
  else l.sweepDone maxEntries w.ret

/-- The head of the loop of `registry_query`. -/
def queryLoop (q : Query) (i : Nat) : Local P :=
  if i < q.max then l.goto (.queryState q i) else l.answer (.results q.results)

/-- `snapshot_slot` answers false: the calling loop goes to the next slot. -/
def snapFail (maxEntries : Nat) (i : Nat) : SnapCaller P → Local P
  | .sweep w => l.sweepLoop maxEntries w (i + 1)
  | .query q => l.queryLoop q (i + 1)

/-- The next turn of the retry loop of `snapshot_slot`. -/
def snapRetry (maxEntries : Nat) (c : SnapCaller P) (i retry : Nat) : Local P :=
  if retry + 1 < MAX_READ_RETRIES then l.goto (.snapSeq c i (retry + 1))
  else l.snapFail maxEntries i c

/-- `snapshot_slot` answers true: a sweep looks at the pid, a query applies
its filters. -/
def snapDone (i : Nat) (snap : Snapshot P) : SnapCaller P → Local P
  | .sweep w => l.goto (.sweepPid w i snap)
  | .query q =>
    if q.flt.accepts snap.type snap.payload then
      l.queryLoop
        { q with results := q.results ++ [resultOf snap.type snap.payload] }
        (i + 1)
    else l.queryLoop q (i + 1)

/-- The end of `teardown_slot`. -/
def tearDone (i : Nat) : TearCaller P → Local P
  | .remove st => l.goto (.removeBump st)
  | .sweep w type => l.goto (.sweepBump w i type)

end Local

/-! ## One step of one process -/

/-- Executes the operation at the program counter.  `alive` is the answer of
`stat("/proc/<pid>")`, and `spurious` lets the weak compare-and-swap fail on
equal values. -/
def exec (alive : P → Bool) (spurious : Bool) (m : Region P) (l : Local P) :
    Option (Effect P × Local P) :=
  match l.pc with
  | .idle => none
  -- try_add_once: CAS EMPTY -> RESERVED
  | .addCas e i again =>
    if (m.slots i).state = .empty then
      some (.setState i .reserved, l.goto (.writeBegin e i))
    else some (.none, l.addLoop m.maxEntries e (i + 1) again)
  -- write_slot_payload
  | .writeBegin e i => some (.incSeq i, l.goto (.writing e i fieldOrder))
  | .writing e i (f :: rest) =>
    some (.setField i f (e.payload f), l.goto (.writing e i rest))
  | .writing e i [] => some (.incSeq i, l.goto (.publish e i))
  -- publish, widen the high-water bound, bump, ring
  | .publish e i => some (.setState i (.entry e.type), l.goto (.hwLoad e i))
  | .hwLoad e i =>
    if m.highWaterSlot < i + 1 then
      some (.none, l.goto (.hwCas e i m.highWaterSlot))
    else some (.none, l.goto (.addBump e i))
  | .hwCas e i cur =>
    if m.highWaterSlot = cur ∧ spurious = false then
      some (.setHighWater (i + 1), l.goto (.addBump e i))
    else if m.highWaterSlot < i + 1 then
      some (.none, l.goto (.hwCas e i m.highWaterSlot))
    else some (.none, l.goto (.addBump e i))
  | .addBump e i => some (.incGeneration, l.goto (.addRing e i))
  | .addRing e i => some (.none, l.returnIndex e i)
  -- registry_remove
  | .removeLoad i =>
    if m.maxEntries ≤ i then some (.none, l.answer .void)
    else if (m.slots i).state = .empty then some (.none, l.answer .void)
    else some (.none, l.goto (.removeCas i (m.slots i).state))
  | .removeCas i st =>
    if (m.slots i).state = st then
      some (.setState i .empty, l.goto (.tearBegin (.remove st) i))
    else some (.none, l.answer .void)
  | .removeBump st =>
    some (.incGeneration,
      if st = .entry .doorbell then l.answer .void else l.goto .removeRing)
  | .removeRing => some (.none, l.answer .void)
  -- teardown_slot
  | .tearBegin c i => some (.incSeq i, l.goto (.tearPath c i))
  | .tearPath c i =>
    some (.none,
      l.goto (.tearing c i (cstr ((m.slots i).payload .socketPath)) fieldOrder))
  | .tearing c i path (f :: rest) =>
    some (.setField i f (Field.zero P f), l.goto (.tearing c i path rest))
  | .tearing c i path [] => some (.incSeq i, l.goto (.tearUnlink c i path))
  | .tearUnlink c i path =>
    some (if path = [] then .none else .unlink path, l.tearDone i c)
  -- snapshot_slot
  | .snapSeq c i retry =>
    if (m.slots i).seqWord % 2 = 1 then
      some (.none, l.snapRetry m.maxEntries c i retry)
    else some (.none, l.goto (.snapState c i retry (m.slots i).seq))
  | .snapState c i retry s1 =>
    match (m.slots i).state with
    | .entry type =>
      some (.none,
        l.goto (.snapCopy c i retry ⟨s1, type, Field.zero P⟩ fieldOrder))
    | _ => some (.none, l.snapFail m.maxEntries i c)
  | .snapCopy c i retry snap (f :: rest) =>
    some (.none,
      l.goto (.snapCopy c i retry
        { snap with
          payload := Words.store snap.payload f ((m.slots i).payload f) } rest))
  | .snapCopy c i retry snap [] =>
    if (m.slots i).seqWord = snap.seq % 2 ^ 32 then
      some (.none, l.snapDone i snap c)
    else some (.none, l.snapRetry m.maxEntries c i retry)
  -- registry_cleanup_stale
  | .sweepHw ret =>
    some (.none,
      l.sweepLoop m.maxEntries
        { ret := ret, max := min m.highWaterSlot m.maxEntries,
          reclaimed := false } 0)
  | .sweepState w i =>
    if (m.slots i).state = .empty then
      some (.none, l.sweepLoop m.maxEntries w (i + 1))
    else some (.none, l.goto (.snapSeq (.sweep w) i 0))
  | .sweepPid w i snap =>
    match snap.payload .pid with
    | none => some (.none, l.sweepLoop m.maxEntries w (i + 1))
    | some p =>
      if alive p then some (.none, l.sweepLoop m.maxEntries w (i + 1))
      else some (.none, l.goto (.sweepSeq w i snap))
  | .sweepSeq w i snap =>
    if (m.slots i).seqWord = snap.seq % 2 ^ 32 then
      some (.none, l.goto (.sweepCas w i snap))
    else some (.none, l.sweepLoop m.maxEntries w (i + 1))
  | .sweepCas w i snap =>
    if (m.slots i).state = .entry snap.type then
      some (.setState i .empty, l.goto (.tearBegin (.sweep w snap.type) i))
    else some (.none, l.sweepLoop m.maxEntries w (i + 1))
  | .sweepBump w i type =>
    some (.incGeneration,
      l.sweepLoop m.maxEntries
        { w with reclaimed := w.reclaimed || type != .doorbell } (i + 1))
  | .sweepRing ret => some (.none, l.sweepDone m.maxEntries ret)
  -- registry_query
  | .queryHw flt =>
    some (.none,
      l.queryLoop
        { flt := flt, max := min m.highWaterSlot m.maxEntries, results := [] }
        0)
  | .queryState q i =>
    if q.flt.acceptsState (m.slots i).state then
      some (.none, l.goto (.snapSeq (.query q) i 0))
    else some (.none, l.queryLoop q (i + 1))

/-- The slot that the next step claims for an entry, if it does. -/
def claimOf (m : Region P) (l : Local P) : Option (Nat × RegistryEntry P) :=
  match l.pc with
  | .addCas e i _ =>
    if (m.slots i).state = .empty then some (i, e) else none
  | _ => none

/-! ## The machine -/

/-- The calls of the registry interface. -/
inductive Call (P : Type)
  | add (e : RegistryEntry P)
  | remove (i : Nat)
  | cleanup
  | query (flt : QueryFilter)

/-- One move of the machine. -/
inductive Act (P : Type)
  | call (p : P) (c : Call P)
  | step (p : P) (spurious : Bool)
  | kill (p : P)

/-- The mapped region and the processes next to it. -/
structure State (P : Type) where
  region : Region P
  procs : P → Local P
  alive : P → Bool
  occupant : Nat → Option (P × RegistryEntry P)

namespace State

/-- The program counter of a process. -/
abbrev pc (s : State P) (p : P) : Pc P := (s.procs p).pc

/-- A slot of the region. -/
abbrev slot (s : State P) (i : Nat) : RegistryEntrySlot P := s.region.slots i

/-- An initialised region that no process has used. -/
def init (P : Type) (maxEntries : Nat) : State P where
  region := Region.initialized P maxEntries
  procs := fun _ => Local.fresh P
  alive := fun _ => true
  occupant := fun _ => none

variable [DecidableEq P]

/-- Replaces the local state of a process. -/
def setLocal (s : State P) (p : P) (l : Local P) : State P :=
  { s with procs := Function.update s.procs p l }

/-- The state after process `p` did `r`. -/
def commit (s : State P) (p : P) (r : Effect P × Local P) : State P where
  region := s.region.apply r.1
  procs := Function.update s.procs p r.2
  alive := s.alive
  occupant :=
    match claimOf s.region (s.procs p) with
    | some (i, e) => Function.update s.occupant i (some (p, e))
    | none => s.occupant

/-- Ends process `p`. -/
def slay (s : State P) (p : P) : State P :=
  { s.setLocal p (Local.fresh P) with alive := Function.update s.alive p false }

variable (s : State P) (p : P)

@[simp] theorem setLocal_self (l : Local P) : (s.setLocal p l).procs p = l := by
  simp [setLocal]

theorem setLocal_of_ne (l : Local P) {q : P} (h : q ≠ p) :
    (s.setLocal p l).procs q = s.procs q := by
  simp [setLocal, h]

@[simp] theorem commit_self (r : Effect P × Local P) :
    (s.commit p r).procs p = r.2 := by
  simp [commit]

theorem commit_of_ne (r : Effect P × Local P) {q : P} (h : q ≠ p) :
    (s.commit p r).procs q = s.procs q := by
  simp [commit, h]

@[simp] theorem commit_alive (r : Effect P × Local P) :
    (s.commit p r).alive = s.alive := rfl

@[simp] theorem commit_region (r : Effect P × Local P) :
    (s.commit p r).region = s.region.apply r.1 := rfl

@[simp] theorem commit_slot (r : Effect P × Local P) (i : Nat) :
    (s.commit p r).slot i = (s.region.apply r.1).slots i := rfl

@[simp] theorem commit_pc_self (r : Effect P × Local P) :
    (s.commit p r).pc p = r.2.pc := by
  simp [pc]

theorem commit_pc_of_ne (r : Effect P × Local P) {q : P} (h : q ≠ p) :
    (s.commit p r).pc q = s.pc q := by
  simp [pc, commit_of_ne s p r h]

/-- Only a claim changes the occupants. -/
theorem commit_occupant_of_none {r : Effect P × Local P}
    (h : claimOf s.region (s.procs p) = none) :
    (s.commit p r).occupant = s.occupant := by
  simp [commit, h]

@[simp] theorem slay_self : (s.slay p).procs p = Local.fresh P := by
  simp [slay]

theorem slay_of_ne {q : P} (h : q ≠ p) : (s.slay p).procs q = s.procs q := by
  simp [slay, setLocal, h]

end State

/-- The start of a call of an idle process.  The pid member of an entry is
`getpid()`, and `registry_remove` gets an index that the process owns. -/
def enter [DecidableEq P] (m : Region P) (p : P) (l : Local P) :
    Call P → Option (Local P)
  | .add e =>
    if e.payload .pid = some p then some (l.addLoop m.maxEntries e 0 false)
    else none
  | .remove i =>
    if i ∈ l.held.map Prod.fst then
      some { l with
        pc := .removeLoad i, held := l.held.eraseP fun h => h.1 = i }
    else none
  | .cleanup => some (l.goto (.sweepHw .caller))
  | .query flt => some (l.goto (.queryHw flt))

/-- True for a process that is not inside a call. -/
def Pc.isIdle : Pc P → Bool
  | .idle => true
  | _ => false

theorem Pc.eq_idle {pc : Pc P} (h : pc.isIdle = true) : pc = .idle := by
  cases pc <;> first | rfl | cases h

/-- One move: a live idle process calls, a live process executes one
operation, or a live process is killed. -/
def step [DecidableEq P] (s : State P) : Act P → Option (State P)
  | .call p c =>
    if s.alive p ∧ (s.pc p).isIdle then
      (enter s.region p (s.procs p) c).map (s.setLocal p)
    else none
  | .step p spurious =>
    if s.alive p then
      (exec s.alive spurious s.region (s.procs p)).map (s.commit p)
    else none
  | .kill p =>
    if s.alive p then some (s.slay p) else none

section

variable [DecidableEq P] {s t : State P} {p : P}

theorem of_step_call {c : Call P} (h : step s (.call p c) = some t) :
    s.alive p = true ∧ s.pc p = .idle ∧
      ∃ l, enter s.region p (s.procs p) c = some l ∧ t = s.setLocal p l := by
  simp only [step] at h
  split at h
  · rename_i hidle
    obtain ⟨l, hl, rfl⟩ := Option.map_eq_some_iff.mp h
    exact ⟨hidle.1, Pc.eq_idle hidle.2, l, hl, rfl⟩
  · cases h

theorem of_step_step {spurious : Bool}
    (h : step s (.step p spurious) = some t) :
    s.alive p = true ∧ ∃ eff l,
      exec s.alive spurious s.region (s.procs p) = some (eff, l) ∧
        t = s.commit p (eff, l) := by
  simp only [step] at h
  split at h
  · rename_i hlive
    obtain ⟨⟨eff, l⟩, hexec, rfl⟩ := Option.map_eq_some_iff.mp h
    exact ⟨hlive, eff, l, hexec, rfl⟩
  · cases h

theorem of_step_kill (h : step s (.kill p) = some t) :
    s.alive p = true ∧ t = s.slay p := by
  simp only [step] at h
  split at h
  · rename_i hlive
    cases h
    exact ⟨hlive, rfl⟩
  · cases h

end

/-- The registry as a machine. -/
def machine (P : Type) [DecidableEq P] : Machine (State P) (Act P) where
  step := step

end RmwUnixSocket.Registry
