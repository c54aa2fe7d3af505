import RmwUnixSocket.Lib.Machine
import RmwUnixSocket.Graph.Directory

/-!
# The generation-keyed caches

A publisher caches the socket paths of its subscribers, a client the path of
its service, a service the paths and GIDs of its clients.  Each one keeps the
generation of the registry for which the cache was filled, and fills it again
when a caller has loaded another one.

`GenerationCache` is what the three have in common, and `refreshSubPaths`,
`sendRequest` and `sendResponse` are the three.  The machine has one cache,
any number of threads that use it, and the mutations of `Directory`.

* A thread loads the generation, takes the mutex of the cache, compares, and
  queries while it holds the mutex.  The query loads the high-water bound and
  looks at the slots one by one, first at the state byte, then at a snapshot.
* A slot that a writer has claimed but not yet published counts as empty.
* `source` is a ghost: the registrations that the cached value was made from.
-/

namespace RmwUnixSocket.Graph

open Registry (RegistryEntry RegistryEntryType QueryFilter RegistryQueryResult
  SlotState)

/-! ## The three caches -/

/-- What a cache asks the registry for, when it asks again, and what it keeps
of the answer. -/
structure GenerationCache (V : Type) where
  filter : QueryFilter
  stale : Nat → Nat → Bool
  digest : List RegistryQueryResult → V

/-- `refresh_sub_paths`.  The null pointer of a cache that was never filled is
the empty list. -/
def refreshSubPaths (topicName : List UInt8) :
    GenerationCache (List (List UInt8)) where
  filter := { type := some .subscription, topic := some topicName }
  stale currentGen cachedGeneration := cachedGeneration < currentGen
  digest subs := (subs.map RegistryQueryResult.socketPath).filter (· ≠ [])

/-- The server cache of `rmw_send_request` and of
`rmw_service_server_is_available`: `cached_service_path` and
`cached_is_available`. -/
def sendRequest (serviceName : List UInt8) :
    GenerationCache (List UInt8 × Bool) where
  filter := { type := some .service, topic := some serviceName }
  stale currentGen cachedGeneration := currentGen ≠ cachedGeneration
  digest services :=
    (((services.map RegistryQueryResult.socketPath).find? (· ≠ [])).getD [],
      !services.isEmpty)

/-- `CachedClient`: the routing entry for a client. -/
structure CachedClient where
  socketPath : List UInt8
  gid : List UInt8
  deriving DecidableEq

/-- The client cache of `rmw_send_response`. -/
def sendResponse (serviceName : List UInt8) :
    GenerationCache (List CachedClient) where
  filter := { type := some .client, topic := some serviceName }
  stale currentGen cachedGeneration := currentGen ≠ cachedGeneration
  digest clients :=
    (clients.map fun c => ⟨c.socketPath, c.gid⟩).filter (·.socketPath ≠ [])

/-! ## The scan of a query -/

/-- Where the loop of `registry_query` is: at the state byte of a slot, at its
snapshot, or past the last slot. -/
inductive ScanPc
  | peek (max i : Nat) (ids : List Nat)
  | snap (max i : Nat) (ids : List Nat)
  | done (ids : List Nat)

/-- The head of the loop. -/
def scanLoop (max i : Nat) (ids : List Nat) : ScanPc :=
  if i < max then .peek max i ids else .done ids

variable {P : Type}

/-- The loop after the load of the high-water bound. -/
def scanStart (d : Directory P) : ScanPc :=
  scanLoop (min d.highWater d.capacity) 0 []

/-- The registration in a slot. -/
def Directory.occupant (d : Directory P) (i : Nat) :
    Option (Nat × Registration P) :=
  (d.slots i).bind fun id => d.regs[id]?.map fun r => (id, r)

/-- One step of the loop. -/
def scanStep (d : Directory P) (flt : QueryFilter) : ScanPc → ScanPc
  | .peek max i ids =>
    match d.occupant i with
    | some (_, r) =>
      if flt.acceptsState (.entry r.entry.type) then .snap max i ids
      else scanLoop max (i + 1) ids
    | none => scanLoop max (i + 1) ids
  | .snap max i ids =>
    match d.occupant i with
    | some (id, r) =>
      if flt.accepts r.entry.type r.entry.payload then
        scanLoop max (i + 1) (ids ++ [id])
      else scanLoop max (i + 1) ids
    | none => scanLoop max (i + 1) ids
  | .done ids => .done ids

/-- The scan has collected what it owes to the generation `g` so far. -/
def ScanOk (d : Directory P) (flt : QueryFilter) (g : Nat) : ScanPc → Prop
  | .peek max i ids => Covers d flt g i ids ∧ Reaches d g max
  | .snap max i ids => Covers d flt g i ids ∧ Reaches d g max
  | .done ids => Covers d flt g d.capacity ids

section

variable {d d' : Directory P} {flt : QueryFilter} {g : Nat}

theorem ScanOk.loop {max i : Nat} {ids : List Nat}
    (h : Covers d flt g i ids) (hreach : Reaches d g max) :
    ScanOk d flt g (scanLoop max i ids) := by
  unfold scanLoop
  split
  · exact ⟨h, hreach⟩
  · next hmax => exact h.all (Nat.le_of_not_lt hmax) hreach _

theorem ScanOk.start (hok : DirectoryOk d) (flt : QueryFilter) (g : Nat) :
    ScanOk d flt g (scanStart d) :=
  .loop (.start d flt g) (hok.reaches g)

theorem ScanOk.later {pc : ScanPc} (h : ScanOk d flt g pc)
    (hlater : d.Later d') (hg : g ≤ d.generation) : ScanOk d' flt g pc := by
  cases pc with
  | peek max i ids => exact ⟨h.1.later hlater hg, h.2.later hlater hg⟩
  | snap max i ids => exact ⟨h.1.later hlater hg, h.2.later hlater hg⟩
  | done ids =>
    show Covers d' flt g d'.capacity ids
    rw [hlater.capacity]
    exact Covers.later h hlater hg

theorem Directory.occupant_eq_some {i id : Nat} {r : Registration P}
    (h : d.occupant i = some (id, r)) :
    d.slots i = some id ∧ d.regs[id]? = some r := by
  obtain ⟨j, hj, hr⟩ := Option.bind_eq_some_iff.mp h
  obtain ⟨x, hx, heq⟩ := Option.map_eq_some_iff.mp hr
  cases heq
  exact ⟨hj, hx⟩

theorem Directory.occupant_of_regs {i id : Nat} {r : Registration P}
    (hslot : d.slots i = some id) (hr : d.regs[id]? = some r) :
    d.occupant i = some (id, r) := by
  unfold Directory.occupant
  rw [hslot, Option.bind_some, hr]
  rfl

/-- The filter on the state byte drops no match. -/
theorem acceptsState_of_matches {e : RegistryEntry P} (h : flt.Matches e) :
    flt.acceptsState (.entry e.type) = true := by
  unfold QueryFilter.acceptsState
  cases hflt : flt.type with
  | none => rfl
  | some t => simp [h.type t hflt]

/-- One step of the loop keeps the account. -/
theorem ScanOk.step {pc : ScanPc} (h : ScanOk d flt g pc)
    (hok : DirectoryOk d) : ScanOk d flt g (scanStep d flt pc) := by
  cases pc with
  | done ids => exact h
  | peek max i ids =>
    obtain ⟨hcovers, hreach⟩ := h
    simp only [scanStep]
    cases hocc : d.occupant i with
    | none =>
      refine .loop (hcovers.skip hok fun id r hslot hr _ => ?_) hreach
      rw [Directory.occupant_of_regs hslot hr] at hocc
      cases hocc
    | some x =>
      obtain ⟨id, r⟩ := x
      show ScanOk d flt g (if _ then _ else _)
      split
      · exact ⟨hcovers, hreach⟩
      · next hskip =>
        refine .loop (hcovers.skip hok fun j y hslot hy hmatch => ?_) hreach
        rw [Directory.occupant_of_regs hslot hy] at hocc
        cases hocc
        exact hskip (acceptsState_of_matches hmatch)
  | snap max i ids =>
    obtain ⟨hcovers, hreach⟩ := h
    simp only [scanStep]
    cases hocc : d.occupant i with
    | none =>
      refine .loop (hcovers.skip hok fun id r hslot hr _ => ?_) hreach
      rw [Directory.occupant_of_regs hslot hr] at hocc
      cases hocc
    | some x =>
      obtain ⟨id, r⟩ := x
      obtain ⟨hslot, hr⟩ := Directory.occupant_eq_some hocc
      show ScanOk d flt g (if _ then _ else _)
      split
      · next htake =>
        exact .loop (hcovers.take hok hslot hr ((flt.accepts_iff _).mp htake))
          hreach
      · next hskip =>
        refine .loop (hcovers.skip hok fun j y hyslot hy hmatch => ?_) hreach
        rw [Directory.occupant_of_regs hyslot hy] at hocc
        cases hocc
        exact hskip ((flt.accepts_iff _).mpr hmatch)

end

/-! ## Using a cache -/

/-- Where a thread that uses a cache is. -/
inductive CachePc (V : Type)
  | idle
  | loaded (g : Nat)
  | compare (g : Nat)
  | query (g : Nat) (scan : ScanPc)
  | use (g : Nat) (value : V)

/-- The members of a cache. -/
structure Cache (T V : Type) where
  cachedGeneration : Nat
  cached : V
  source : List Nat
  mutex : Option T

variable {T V : Type} (c : GenerationCache V)

/-- A cache that was never filled. -/
def Cache.fresh (T : Type) : Cache T V where
  cachedGeneration := 0
  cached := c.digest []
  source := []
  mutex := none

/-- One step of thread `t`, from the load of the generation to the use of the
value. -/
def cacheStep (d : Directory P) (cache : Cache T V) (t : T) :
    CachePc V → Option (Cache T V × CachePc V)
  | .idle => some (cache, .loaded d.generation)
  | .loaded g =>
    if cache.mutex.isNone then
      some ({ cache with mutex := some t }, .compare g)
    else none
  | .compare g =>
    if c.stale g cache.cachedGeneration then
      some (cache, .query g (scanStart d))
    else some ({ cache with mutex := none }, .use g cache.cached)
  | .query g (.done ids) =>
    some ({ cachedGeneration := g
            cached := c.digest (d.answers ids)
            source := ids
            mutex := none }, .use g (c.digest (d.answers ids)))
  | .query g scan => some (cache, .query g (scanStep d c.filter scan))
  | .use _ _ => some (cache, .idle)

/-! ## The machine -/

/-- The registry, one cache, and the threads that use it. -/
structure State (P T V : Type) where
  dir : Directory P
  cache : Cache T V
  threads : T → CachePc V

/-- One move: a mutation of the registry, or a step of a thread. -/
inductive Act (P T : Type)
  | mutate (a : Mutation P)
  | run (t : T)

/-- A fresh cache next to an initialised registry. -/
def State.init (P T : Type) (capacity : Nat) : State P T V where
  dir := .initialized P capacity
  cache := .fresh c T
  threads := fun _ => .idle

variable [DecidableEq T]

/-- One move. -/
def step (s : State P T V) : Act P T → Option (State P T V)
  | .mutate a => (s.dir.mutate a).map fun d => { s with dir := d }
  | .run t =>
    (cacheStep c s.dir s.cache t (s.threads t)).map fun r =>
      { s with cache := r.1, threads := Function.update s.threads t r.2 }

/-- The machine. -/
def machine : Machine (State P T V) (Act P T) where
  step := step c

end RmwUnixSocket.Graph
