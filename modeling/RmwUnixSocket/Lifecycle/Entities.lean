import RmwUnixSocket.Lifecycle.Segments

/-!
# Entities from creation to destruction

The create and destroy calls of the entities, with every branch that fails halfway: guard
conditions, wait sets, nodes, publishers, subscriptions, services, clients, contexts, and
the thread-local socket that rings doorbells.

Each entity is a record of the fields that name a resource, `owns` is what they name, and
the two rules of an entity say that a creation ends with the entity or with nothing, and
that a destruction takes what the entity records.
-/

namespace RmwUnixSocket.Lifecycle

open Custody (Prog Realm held)
open Custody.Prog (Turns query take token make free unlink freeOption)
open Hostile (Key)
open Latch (TL_EMBED_CAP)

variable {mine mine' : Multiset Resource}

/-! ## Guard conditions and wait sets -/

/-- The data of an entity, a descriptor in it, and its handle. -/
structure Simple where
  data : Nat
  fd : Nat
  handle : Nat
  deriving DecidableEq, Repr

def Simple.owns (e : Simple) : Multiset Resource :=
  {.object e.data} + {.fd e.fd} + {.handle e.handle}

/-- Data, a descriptor in it and a handle. -/
def createSimple : Prog Resource (Option Simple) := do
  match ← take .object none with
  | none => return none
  | some data =>
    match ← take .fd none with
    | none =>
      free (.object data)
      return none
    | some fd =>
      match ← take .handle none with
      | none =>
        free (.fd fd)
        free (.object data)
        return none
      | some handle => return some ⟨data, fd, handle⟩

def destroySimple (e : Simple) : Prog Resource Unit := do
  free (.fd e.fd)
  free (.object e.data)
  free (.handle e.handle)
  return ()

/-- `rmw_create_guard_condition`: the descriptor is an `eventfd`. -/
def rmwCreateGuardCondition : Prog Resource (Option Simple) := createSimple

/-- `rmw_destroy_guard_condition`. -/
def rmwDestroyGuardCondition (gc : Simple) : Prog Resource Unit := destroySimple gc

/-- `rmw_create_wait_set`: the descriptor is an `epoll` instance. -/
def rmwCreateWaitSet : Prog Resource (Option Simple) := createSimple

/-- `rmw_destroy_wait_set`. -/
def rmwDestroyWaitSet (ws : Simple) : Prog Resource Unit := destroySimple ws

/-- What an optional entity records. -/
def simple (e : Option Simple) : Multiset Resource :=
  e.elim 0 Simple.owns

theorem simple_some (e : Simple) : simple (some e) = e.owns := rfl

theorem createSimple_turns (mine : Multiset Resource) :
    Turns realm createSimple mine fun e => simple e + mine := by
  have hnone : mine = simple none + mine := (zero_add mine).symm
  refine .take (fun _ => rfl) (.pure none hnone) fun data _ => ?_
  refine .take (fun _ => rfl) ?_ fun fd _ => ?_
  · exact .free (by simp [Resource.isDraw]) rfl (.pure none hnone)
  · refine .take (fun _ => rfl) ?_ fun handle _ => ?_
    · refine .free (by simp [Resource.isDraw]) rfl ?_
      exact .free (by simp [Resource.isDraw]) rfl (.pure none hnone)
    · refine .pure (some (Simple.mk data fd handle)) ?_
      rw [simple_some, Simple.owns]
      abel

theorem destroySimple_turns (e : Simple) (hmine : mine' = e.owns + mine) :
    Turns realm (destroySimple e) mine' fun _ => mine := by
  have hsplit : mine' = {.fd e.fd} + ({.object e.data} + ({.handle e.handle} + mine)) := by
    rw [hmine, Simple.owns]
    abel
  refine .free (by simp [Resource.isDraw]) hsplit ?_
  refine .free (by simp [Resource.isDraw]) rfl ?_
  exact .free (by simp [Resource.isDraw]) rfl (.pure () rfl)

/-! ## Nodes -/

/-- `UdsNode` behind its handle. -/
structure Node where
  gc : Simple
  data : Nat
  index : Nat
  handle : Nat
  name : Nat
  ns : Nat
  deriving DecidableEq, Repr

def Node.owns (n : Node) : Multiset Resource :=
  n.gc.owns + {.object n.data} + {.slot none n.index} + {.handle n.handle} +
    {.text n.name} + {.text n.ns}

/-- The end of `rmw_create_node`: the node has both names or is taken down again. -/
def nodeNamed (gc : Simple) (data index handle : Nat) (name ns : Option Nat) :
    Prog Resource (Option Node) := do
  match name, ns with
  | some name, some ns => return some ⟨gc, data, index, handle, name, ns⟩
  | name, ns =>
    freeOption (name.map .text)
    freeOption (ns.map .text)
    free (.handle handle)
    registryRemove none index
    rmwDestroyGuardCondition gc
    free (.object data)
    return none

/-- `rmw_create_node`.  Both names are copied before either is checked. -/
def rmwCreateNode : Prog Resource (Option Node) := do
  match ← rmwCreateGuardCondition with
  | none => return none
  | some gc =>
    match ← take .object none with
    | none =>
      rmwDestroyGuardCondition gc
      return none
    | some data =>
      match ← registryAdd none with
      | none =>
        rmwDestroyGuardCondition gc
        free (.object data)
        return none
      | some index =>
        match ← take .handle none with
        | none =>
          registryRemove none index
          rmwDestroyGuardCondition gc
          free (.object data)
          return none
        | some handle =>
          let name ← take .text none
          let ns ← take .text none
          nodeNamed gc data index handle name ns

/-- `rmw_destroy_node`. -/
def rmwDestroyNode (n : Node) : Prog Resource Unit := do
  registryRemove none n.index
  rmwDestroyGuardCondition n.gc
  free (.object n.data)
  free (.text n.name)
  free (.text n.ns)
  free (.handle n.handle)
  return ()

/-- What an optional node records. -/
def node (n : Option Node) : Multiset Resource :=
  n.elim 0 Node.owns

theorem node_some (n : Node) : node (some n) = n.owns := rfl

theorem rmwDestroyNode_turns (n : Node) (hmine : mine' = n.owns + mine) :
    Turns realm (rmwDestroyNode n) mine' fun _ => mine := by
  have hsplit : mine' = {.slot none n.index} + (n.gc.owns + ({.object n.data} +
      ({.text n.name} + ({.text n.ns} + ({.handle n.handle} + mine))))) := by
    rw [hmine, Node.owns]
    abel
  refine (registryRemove_turns_none n.index hsplit).bind fun _ => ?_
  refine (destroySimple_turns n.gc rfl).bind fun _ => ?_
  refine .free (by simp [Resource.isDraw]) rfl ?_
  refine .free (by simp [Resource.isDraw]) rfl ?_
  refine .free (by simp [Resource.isDraw]) rfl ?_
  exact .free (by simp [Resource.isDraw]) rfl (.pure () rfl)

/-- A node without a slot is undone. -/
theorem undoNode_turns (gc : Simple) (data : Nat) (mine : Multiset Resource) :
    Turns realm
      (rmwDestroyGuardCondition gc >>= fun _ => free (.object data) >>= fun _ =>
        pure (none : Option Node))
      ({.object data} + (gc.owns + mine)) fun n => node n + mine := by
  refine (destroySimple_turns gc (add_left_comm _ _ _)).bind fun _ => ?_
  exact .free (by simp [Resource.isDraw]) rfl (.pure none (zero_add mine).symm)

theorem nodeNamed_turns (gc : Simple) (data index handle : Nat) (name ns : Option Nat)
    (mine : Multiset Resource) :
    Turns realm (nodeNamed gc data index handle name ns)
      (held (ns.map .text) + (held (name.map .text) + ({.handle handle} +
        ({.slot none index} + ({.object data} + (gc.owns + mine))))))
      fun n => node n + mine := by
  have hfail : Turns realm
      (freeOption (name.map .text) >>= fun _ => freeOption (ns.map .text) >>= fun _ =>
        free (.handle handle) >>= fun _ => registryRemove none index >>= fun _ =>
        rmwDestroyGuardCondition gc >>= fun _ => free (.object data) >>= fun _ =>
        pure (none : Option Node))
      (held (ns.map .text) + (held (name.map .text) + ({.handle handle} +
        ({.slot none index} + ({.object data} + (gc.owns + mine))))))
      fun n => node n + mine := by
    refine .freeOption (by simp [Resource.isDraw]) (add_left_comm _ _ _) ?_
    refine .freeOption (by simp [Resource.isDraw]) rfl ?_
    refine .free (by simp [Resource.isDraw]) rfl ?_
    exact (registryRemove_turns_none index rfl).bind fun _ => undoNode_turns gc data mine
  cases name with
  | none => exact hfail
  | some name =>
    cases ns with
    | none => exact hfail
    | some ns =>
      refine .pure (some (Node.mk gc data index handle name ns)) ?_
      rw [node_some, Node.owns, Option.map_some, Option.map_some, Custody.held_some,
        Custody.held_some]
      abel

theorem rmwCreateNode_turns (mine : Multiset Resource) :
    Turns realm rmwCreateNode mine fun n => node n + mine := by
  have hnone : mine = node none + mine := (zero_add mine).symm
  refine (createSimple_turns mine).bind fun gc => ?_
  cases gc with
  | none => exact .pure none rfl
  | some gc =>
    refine .take (fun _ => rfl) ?_ fun data _ => ?_
    · exact (destroySimple_turns gc rfl).bind fun _ => .pure none hnone
    refine (registryAdd_turns none).bind fun index => ?_
    cases index with
    | none =>
      rw [Option.map_none, Custody.held_none, zero_add]
      exact undoNode_turns gc data mine
    | some index =>
      refine .take (fun _ => rfl) ?_ fun handle _ => ?_
      · exact (registryRemove_turns_none index rfl).bind fun _ => undoNode_turns gc data mine
      refine .takeOption (fun _ => rfl) fun name => ?_
      refine .takeOption (fun _ => rfl) fun ns => ?_
      exact nodeNamed_turns gc data index handle name ns mine

/-! ## Publishers -/

/-- `UdsPublisher` behind its handle. -/
structure Publisher where
  data : Nat
  index : Nat
  tlRing : TlRingWriter
  shmRing : ShmRingWriter
  handle : Nat
  topicName : Option Nat

/-- The path of the entry: the name of the latched cache, if there is one. -/
def TlRingWriter.path (ring : TlRingWriter) : Option Name :=
  ring.shmName.map .latched

def Publisher.owns (p : Publisher) : Multiset Resource :=
  {.object p.data} + {.slot p.tlRing.path p.index} + p.tlRing.owns + p.shmRing.owns +
    {.handle p.handle} + held (p.topicName.map .text)

/-- The latched cache of a publisher, which only a TRANSIENT_LOCAL one has. -/
def latchedCache (transientLocal : Bool) (depth : Nat) : Prog Resource TlRingWriter :=
  if transientLocal then tlRingCreate depth else return .empty

/-- `rmw_create_publisher`. -/
def rmwCreatePublisher (transientLocal : Bool) (depth : Nat) :
    Prog Resource (Option Publisher) := do
  match ← take .object none with
  | none => return none
  | some data =>
    -- the cache comes before the slot that names it
    let tlRing ← latchedCache transientLocal depth
    match ← registryAdd tlRing.path with
    | none =>
      tlRingClose tlRing
      free (.object data)
      return none
    | some index =>
      match ← take .handle none with
      | none =>
        registryRemove tlRing.path index
        tlRingClose tlRing
        free (.object data)
        return none
      | some handle =>
        let topicName ← take .text none
        return some ⟨data, index, tlRing, .fresh, handle, topicName⟩

/-- `rmw_destroy_publisher`: the slot goes first, then the cache that it has named. -/
def rmwDestroyPublisher (p : Publisher) : Prog Resource Unit := do
  registryRemove p.tlRing.path p.index
  tlRingClose p.tlRing
  let _ ← shmWriterClose p.shmRing
  free (.object p.data)
  freeOption (p.topicName.map .text)
  free (.handle p.handle)
  return ()

/-- The staging of a volatile publish. -/
def rmwPublish (page : Nat) (p : Publisher) (payloadSize : Nat) :
    Prog Resource Publisher := do
  let (shmRing, _) ← shmStageReserve page p.shmRing payloadSize
  return { p with shmRing }

/-- The durable segment of a sample that is too large for a slot. -/
def stageOver (page payloadSize : Nat) : Prog Resource (Option DurableShmSegment) :=
  if TL_EMBED_CAP < payloadSize then shmStageDurable page payloadSize else return none

/-- `transient_local_publish`: the evicted segment goes once the latch is over. -/
def transientLocalPublish (page : Nat) (p : Publisher) (payloadSize : Nat) :
    Prog Resource Publisher := do
  let staged ← stageOver page payloadSize
  let ⟨(tlRing, evicted, _), _⟩ ← tlRingLatch p.tlRing payloadSize staged
  destroySegment evicted
  return { p with tlRing }

/-- What an optional publisher records. -/
def publisher (p : Option Publisher) : Multiset Resource :=
  p.elim 0 Publisher.owns

theorem publisher_some (p : Publisher) : publisher (some p) = p.owns := rfl

theorem latchedCache_turns (transientLocal : Bool) (depth : Nat) :
    Turns realm (latchedCache transientLocal depth) 0 TlRingWriter.owns := by
  unfold latchedCache
  split
  · exact tlRingCreate_turns depth
  · exact .pure TlRingWriter.empty rfl

/-- The slot of a publisher goes, and then the cache that it has named, whose file is gone
by then. -/
theorem removeCache_turns {B : Type} {f : Unit → Prog Resource B}
    {after : B → Multiset Resource} (ring : TlRingWriter) (index : Nat)
    (hmine : mine' = {.slot ring.path index} + (ring.owns + mine))
    (hgone : ∀ owner, .file (.latched owner) ∉ mine) (hnext : Turns realm (f ()) mine after) :
    Turns realm (registryRemove ring.path index >>= fun _ => tlRingClose ring >>= f) mine'
      after := by
  subst hmine
  cases hname : ring.shmName with
  | none =>
    have hpath : ring.path = none := by rw [TlRingWriter.path, hname]; rfl
    have hsplit : ring.owns + mine =
        ring.body + ring.file + TlRingWriter.segments ring.durableSegs + mine := rfl
    rw [hpath]
    refine (registryRemove_turns_none index rfl).bind fun _ => ?_
    exact (tlRingClose_turns ring hsplit (.inr rfl) fun o _ => hgone o).bind fun _ => hnext
  | some owner =>
    have hpath : ring.path = some (.latched owner) := by rw [TlRingWriter.path, hname]; rfl
    have hfile : ring.file = {.file (.latched owner)} := by
      rw [TlRingWriter.file, hname]
      rfl
    have hbody : .owner owner ∈ ring.body := by simp [TlRingWriter.body, hname]
    have hsplit : {.slot (some (.latched owner)) index} + (ring.owns + mine) =
        {.slot (some (.latched owner)) index} + ring.file +
          (ring.body + 0 + TlRingWriter.segments ring.durableSegs + mine) := by
      rw [TlRingWriter.owns]
      abel
    have hleft : .file (.latched owner) ∉
        ring.body + 0 + TlRingWriter.segments ring.durableSegs + mine := by
      simp [TlRingWriter.segments_no_latched, hgone owner, ring.body_no_file]
    rw [hpath]
    refine (registryRemove_turns index rfl (t := .owner owner) ?_ hleft (.inr hfile)
      hsplit).bind fun _ => ?_
    · simp [hbody]
    · exact (tlRingClose_turns ring rfl (.inl rfl) fun o _ => hgone o).bind fun _ => hnext

theorem rmwCreatePublisher_turns (transientLocal : Bool) (depth : Nat) :
    Turns realm (rmwCreatePublisher transientLocal depth) 0 publisher := by
  refine .take (fun _ => rfl) (.pure none rfl) fun data _ => ?_
  have hdata : realm.Closed {.object data} := by simp [Realm.Closed, Resource.guard]
  have hfree : ∀ mine', mine' = {.object data} + 0 → Turns realm
      (free (.object data) >>= fun _ => pure (none : Option Publisher)) mine' publisher :=
    fun _ h => .free (by simp [Resource.isDraw]) h (.pure none rfl)
  refine .seq (latchedCache_turns transientLocal depth) (add_comm _ _) hdata fun tlRing => ?_
  refine (registryAdd_turns tlRing.path).bind fun index => ?_
  cases index with
  | none =>
    refine (tlRingClose_turns tlRing (zero_add _) (.inr rfl) ?_).bind fun _ => hfree _ ?_
    · simp
    · exact (add_zero _).symm
  | some index =>
    refine .take (fun _ => rfl) ?_ fun handle _ => ?_
    · refine removeCache_turns tlRing index rfl ?_ (hfree _ (add_zero _).symm)
      simp
    · refine .takeOption (fun _ => rfl) fun topicName => .pure _ ?_
      rw [publisher_some, Publisher.owns, ShmRingWriter.fresh_owns, Option.map_some,
        Custody.held_some]
      abel

theorem rmwDestroyPublisher_turns (p : Publisher) :
    Turns realm (rmwDestroyPublisher p) p.owns fun _ => 0 := by
  have hsplit : p.owns = {.slot p.tlRing.path p.index} + (p.tlRing.owns + (p.shmRing.owns +
      ({.object p.data} + (held (p.topicName.map .text) + ({.handle p.handle} + 0))))) := by
    rw [Publisher.owns]
    abel
  refine removeCache_turns p.tlRing p.index hsplit ?_ ?_
  · intro owner h
    have hring : Resource.file (.latched owner) ∉ p.shmRing.owns := by
      intro hmem
      obtain ⟨o, ho⟩ := p.shmRing.file_of_mem hmem
      cases ho
    cases htopic : p.topicName <;> simp [hring, htopic] at h
  · refine (shmWriterClose_turns_owns p.shmRing rfl).bind fun _ => ?_
    refine .free (by simp [Resource.isDraw]) rfl ?_
    refine .freeOption (by simp [Resource.isDraw]) rfl ?_
    exact .free (by simp [Resource.isDraw]) rfl (.pure () rfl)

/-- What a publisher records but for its rings. -/
def Publisher.shell (p : Publisher) : Multiset Resource :=
  {.object p.data} + {.handle p.handle} + held (p.topicName.map .text)

theorem Publisher.shell_closed (p : Publisher) : realm.Closed p.shell := by
  unfold Publisher.shell
  cases p.topicName <;> simp [Realm.Closed, Resource.guard]

theorem rmwPublish_turns (page : Nat) (p : Publisher) (payloadSize : Nat) :
    Turns realm (rmwPublish page p payloadSize) p.owns Publisher.owns := by
  have hsplit : p.owns = p.shmRing.owns +
      (p.shell + {.slot p.tlRing.path p.index} + p.tlRing.owns) := by
    rw [Publisher.owns, Publisher.shell]
    abel
  have hclosed : realm.Closed (p.shell + {.slot p.tlRing.path p.index} + p.tlRing.owns) :=
    (p.shell_closed.add (by simp [Realm.Closed, Resource.guard])).add p.tlRing.owns_closed
  refine .seq (shmStageReserve_turns page p.shmRing payloadSize) hsplit hclosed fun r => ?_
  refine .pure _ ?_
  show _ = {.object p.data} + {.slot p.tlRing.path p.index} + p.tlRing.owns + r.1.owns +
    {.handle p.handle} + held (p.topicName.map .text)
  rw [Publisher.shell]
  abel

theorem stageOver_turns (page payloadSize : Nat) :
    Turns realm (stageOver page payloadSize) 0 durable := by
  unfold stageOver
  split
  · exact shmStageDurable_turns page payloadSize
  · exact .pure none rfl

theorem transientLocalPublish_turns (page : Nat) (p : Publisher) (payloadSize : Nat) :
    Turns realm (transientLocalPublish page p payloadSize) p.owns Publisher.owns := by
  have hrest : realm.Closed (p.shell + {.slot p.tlRing.path p.index} + p.shmRing.owns) :=
    (p.shell_closed.add (by simp [Realm.Closed, Resource.guard])).add p.shmRing.owns_closed
  have hsplit : p.owns = p.tlRing.owns +
      (p.shell + {.slot p.tlRing.path p.index} + p.shmRing.owns) := by
    rw [Publisher.owns, Publisher.shell]
    abel
  have hclosed := p.tlRing.owns_closed.add hrest
  rw [hsplit]
  refine .seq (stageOver_turns page payloadSize) (zero_add _).symm hclosed fun staged => ?_
  have hlatch : durable staged + (p.tlRing.owns +
        (p.shell + {.slot p.tlRing.path p.index} + p.shmRing.owns)) =
      p.tlRing.owns + durable staged +
        (p.shell + {.slot p.tlRing.path p.index} + p.shmRing.owns) := by
    abel
  refine .seq (tlRingLatch_turns p.tlRing payloadSize staged) hlatch hrest ?_
  rintro ⟨⟨ring, evicted, latched⟩, hname⟩
  have hpath : ring.path = p.tlRing.path := congrArg (Option.map Name.latched) hname
  refine (destroySegment_turns evicted ?_).bind fun _ => .pure _ rfl
  show ring.owns + durable evicted + _ = durable evicted + ({.object p.data} +
    {.slot ring.path p.index} + ring.owns + p.shmRing.owns + {.handle p.handle} +
    held (p.topicName.map .text))
  rw [hpath, Publisher.shell]
  abel

/-! ## Bound entities -/

/-- The data of an entity with a bound socket and a slot that names it. -/
structure Bound where
  data : Nat
  path : Nat
  fd : Nat
  index : Nat
  handle : Nat
  name : Option Nat
  deriving DecidableEq, Repr

/-- The slot of the entity. -/
def Bound.slot (e : Bound) : Resource :=
  .slot (some (.socket e.path)) e.index

def Bound.owns (e : Bound) : Multiset Resource :=
  {.object e.data} + {.path e.path} + ({.fd e.fd} + {.file (.socket e.path)}) + {e.slot} +
    {.handle e.handle} + held (e.name.map .text)

/-- What the creations of subscriptions, services and clients do: the data, the socket, the
slot, the handle, and a copy of the name that is not checked. -/
def createBound : Prog Resource (Option Bound) := do
  match ← take .object none with
  | none => return none
  | some data =>
    let path ← token .path
    match ← createBoundSocket path with
    | none =>
      free (.object data)
      return none
    | some fd =>
      match ← registryAdd (some (.socket path)) with
      | none =>
        closeSocket (some fd) (some path)
        free (.object data)
        return none
      | some index =>
        match ← take .handle none with
        | none =>
          registryRemove (some (.socket path)) index
          closeSocket (some fd) (some path)
          free (.object data)
          return none
        | some handle =>
          let name ← take .text none
          return some ⟨data, path, fd, index, handle, name⟩

/-- The slot goes, and its teardown unlinks the socket; then the socket is closed, and its
name unlinked again. -/
def removeBound (e : Bound) : Prog Resource Unit := do
  registryRemove (some (.socket e.path)) e.index
  closeSocket (some e.fd) (some e.path)

/-- The data, the name and the handle. -/
def freeBound (e : Bound) : Prog Resource Unit := do
  free (.object e.data)
  freeOption (e.name.map .text)
  free (.handle e.handle)
  return ()

/-- What is left of the entity without its socket and its slot. -/
def Bound.shell (e : Bound) : Multiset Resource :=
  {.object e.data} + {.handle e.handle} + held (e.name.map .text)

/-- What an optional bound entity records. -/
def boundEntity (e : Option Bound) : Multiset Resource :=
  e.elim 0 Bound.owns

theorem boundEntity_some (e : Bound) : boundEntity (some e) = e.owns := rfl

theorem Bound.owns_closed (e : Bound) : realm.Closed e.owns := by
  unfold Bound.owns Bound.slot
  cases e.name <;> simp [Realm.Closed, Resource.guard]

/-- The slot of a socket goes before the socket itself. -/
theorem removeSocket_turns {B : Type} {f : Unit → Prog Resource B}
    {after : B → Multiset Resource} (path fd index : Nat)
    (hmine : mine' = {.slot (some (.socket path)) index} + ({.path path} +
      ({.fd fd} + {.file (.socket path)}) + mine))
    (hgone : .file (.socket path) ∉ mine) (hnext : Turns realm (f ()) ({.path path} + mine) after) :
    Turns realm (registryRemove (some (.socket path)) index >>= fun _ =>
      closeSocket (some fd) (some path) >>= f) mine' after := by
  have hsplit : mine' = {.slot (some (.socket path)) index} + {.file (.socket path)} +
      ({.fd fd} + 0 + ({.path path} + mine)) := by
    rw [hmine]
    abel
  have hleft : .file (.socket path) ∉ ({.path path} + mine : Multiset Resource) := by
    simp [hgone]
  refine (registryRemove_turns index rfl (t := .path path) (by simp) ?_ (.inr rfl)
    hsplit).bind fun _ => ?_
  · simp [hgone]
  · exact (closeSocket_turns (some fd) (by simp) hleft (.inl rfl) rfl).bind fun _ => hnext

theorem createBound_turns : Turns realm createBound 0 boundEntity := by
  refine .take (fun _ => rfl) (.pure none rfl) fun data _ => ?_
  refine .token (fun _ => rfl) fun path _ => ?_
  have hdrop : ∀ t ∈ ({.path path} : Multiset Resource), realm.IsToken t := by
    simp [Resource.isDraw]
  have hfree : Turns realm (free (.object data) >>= fun _ => pure (none : Option Bound))
      ({.path path} + ({.object data} + 0)) boundEntity := by
    refine .drop hdrop rfl (.free (by simp [Resource.isDraw]) rfl (.pure none rfl))
  refine (createBoundSocket_turns (by simp) (by simp)).bind fun fd => ?_
  cases fd with
  | none =>
    rw [bound_none, zero_add]
    exact hfree
  | some fd =>
    refine (registryAdd_turns _).bind fun index => ?_
    cases index with
    | none =>
      have hsplit : (0 : Multiset Resource) + (bound path (some fd) +
            ({.path path} + ({.object data} + 0))) =
          {.fd fd} + {.file (.socket path)} + ({.path path} + ({.object data} + 0)) :=
        zero_add _
      exact (closeSocket_turns (some fd) (by simp) (by simp) (.inr rfl) hsplit).bind
        fun _ => hfree
    | some index =>
      refine .take (fun _ => rfl) ?_ fun handle _ => ?_
      · have hsplit : held (Option.map (Resource.slot (some (.socket path))) (some index)) +
              (bound path (some fd) + ({.path path} + ({.object data} + 0))) =
            {.slot (some (.socket path)) index} + ({.path path} +
              ({.fd fd} + {.file (.socket path)}) + ({.object data} + 0)) := by
          rw [Option.map_some, Custody.held_some, bound_some]
          abel
        exact removeSocket_turns path fd index hsplit (by simp) hfree
      · refine .takeOption (fun _ => rfl) fun name => .pure _ ?_
        rw [Option.map_some, Custody.held_some, bound_some, boundEntity_some, Bound.owns,
          Bound.slot]
        abel

/-! ## Subscriptions -/

/-- `UdsSubscription` behind its handle. -/
structure Subscription where
  entity : Bound
  cache : List Mapped

def Subscription.owns (s : Subscription) : Multiset Resource :=
  s.entity.owns + mappings s.cache

/-- The records of one pulled cache: those with a descriptor are resolved, and the first
one that cannot be resolved ends the loop. -/
def resolveRecords (cache : List Mapped) : Nat → Prog Resource (List Mapped)
  | 0 => return cache
  | n + 1 => do
    if (← query) ≠ 0 then
      let ownerPid ← query
      let ownerId ← query
      let segmentId ← query
      let (cache, mapped) ← mapSegment cache
        ⟨.ofNat ownerPid, .ofNat ownerId, .ofNat segmentId⟩
      if mapped then resolveRecords cache n else return cache
    else
      resolveRecords cache n

/-- The pull from the latched publishers, each of which may be skipped. -/
def pullFrom (cache : List Mapped) : Nat → Prog Resource (List Mapped)
  | 0 => return cache
  | n + 1 => do
    if ← tlRingPull then
      let records ← query
      let cache ← resolveRecords cache records
      pullFrom cache n
    else
      pullFrom cache n

/-- The replay at creation, through a cache of its own. -/
def replay : Prog Resource Unit := do
  let pubs ← query
  let pullCache ← pullFrom [] pubs
  shmReaderClose pullCache

/-- `rmw_create_subscription`. -/
def rmwCreateSubscription (transientLocal : Bool) : Prog Resource (Option Subscription) := do
  match ← createBound with
  | none => return none
  | some entity =>
    if transientLocal then
      replay
      return some ⟨entity, []⟩
    else
      return some ⟨entity, []⟩

/-- `rmw_destroy_subscription`. -/
def rmwDestroySubscription (s : Subscription) : Prog Resource Unit := do
  registryRemove (some (.socket s.entity.path)) s.entity.index
  closeSocket (some s.entity.fd) (some s.entity.path)
  shmReaderClose s.cache
  freeBound s.entity

/-- A descriptor that the drain of a subscription resolves. -/
def resolveSubscription (s : Subscription) (key : Key) : Prog Resource Subscription := do
  let (cache, _) ← mapSegment s.cache key
  return { s with cache }

/-- What an optional subscription records. -/
def subscription (s : Option Subscription) : Multiset Resource :=
  s.elim 0 Subscription.owns

theorem mappings_closed (cache : List Mapped) : realm.Closed (mappings cache) := by
  induction cache with
  | nil => exact .zero
  | cons m ms ih =>
    rw [mappings_cons]
    refine Realm.Closed.add ?_ ih
    simp [Mapped.resource, Realm.Closed, Resource.guard]

theorem resolveRecords_turns (cache : List Mapped) (n : Nat) (mine : Multiset Resource) :
    Turns realm (resolveRecords cache n) (mappings cache + mine)
      fun cache => mappings cache + mine := by
  induction n generalizing cache with
  | zero => exact .pure cache rfl
  | succ n ih =>
    refine .query fun flagged => ?_
    split
    · refine .query fun ownerPid => .query fun ownerId => .query fun segmentId => ?_
      refine (mapSegment_turns cache _ mine).bind ?_
      rintro ⟨cache, mapped⟩
      show Turns realm (if mapped = true then resolveRecords cache n else pure cache) _ _
      split
      · exact ih cache
      · exact .pure cache rfl
    · exact ih cache

theorem pullFrom_turns (cache : List Mapped) (n : Nat) (mine : Multiset Resource) :
    Turns realm (pullFrom cache n) (mappings cache + mine)
      fun cache => mappings cache + mine := by
  induction n generalizing cache with
  | zero => exact .pure cache rfl
  | succ n ih =>
    refine (tlRingPull_turns _).bind fun found => ?_
    split
    · refine .query fun records => ?_
      exact (resolveRecords_turns cache records mine).bind fun cache => ih cache
    · exact ih cache

theorem replay_turns (mine : Multiset Resource) :
    Turns realm replay mine fun _ => mine := by
  refine .query fun pubs => ?_
  have hpull := pullFrom_turns [] pubs mine
  rw [show mappings [] + mine = mine from zero_add mine] at hpull
  exact hpull.bind fun cache => shmReaderClose_turns cache rfl

theorem rmwCreateSubscription_turns (transientLocal : Bool) :
    Turns realm (rmwCreateSubscription transientLocal) 0 subscription := by
  refine createBound_turns.bind fun entity => ?_
  cases entity with
  | none => exact .pure none rfl
  | some entity =>
    have hdone : Turns realm (pure (some (Subscription.mk entity []))) entity.owns
        subscription :=
      .pure _ (add_zero _).symm
    show Turns realm (if transientLocal = true then _ else _) entity.owns _
    split
    · exact (replay_turns entity.owns).bind fun _ => hdone
    · exact hdone

theorem freeBound_turns (e : Bound) (hmine : mine' = {.path e.path} + e.shell) :
    Turns realm (freeBound e) mine' fun _ => 0 := by
  refine .drop (by simp [Resource.isDraw]) hmine ?_
  have hsplit : e.shell = {.object e.data} +
      (held (e.name.map .text) + ({.handle e.handle} + 0)) := by
    rw [Bound.shell]
    abel
  refine .free (by simp [Resource.isDraw]) hsplit ?_
  refine .freeOption (by simp [Resource.isDraw]) rfl ?_
  exact .free (by simp [Resource.isDraw]) rfl (.pure () rfl)

/-- The rest of a bound entity has no file. -/
theorem Bound.shell_no_file (e : Bound) (name : Name) : .file name ∉ e.shell := by
  unfold Bound.shell
  cases e.name <;> simp

theorem mappings_no_file (cache : List Mapped) (name : Name) :
    .file name ∉ mappings cache := by
  induction cache with
  | nil => exact Multiset.notMem_zero _
  | cons m ms ih => simp [mappings_cons, Mapped.resource, ih]

theorem rmwDestroySubscription_turns (s : Subscription) :
    Turns realm (rmwDestroySubscription s) s.owns fun _ => 0 := by
  have hsplit : s.owns = {.slot (some (.socket s.entity.path)) s.entity.index} +
      ({.path s.entity.path} + ({.fd s.entity.fd} + {.file (.socket s.entity.path)}) +
        (mappings s.cache + s.entity.shell)) := by
    rw [Subscription.owns, Bound.owns, Bound.slot, Bound.shell]
    abel
  refine removeSocket_turns s.entity.path s.entity.fd s.entity.index hsplit ?_ ?_
  · simp [mappings_no_file, s.entity.shell_no_file]
  · refine (shmReaderClose_turns s.cache (add_left_comm _ _ _)).bind fun _ => ?_
    exact freeBound_turns s.entity rfl

theorem resolveSubscription_turns (s : Subscription) (key : Key) :
    Turns realm (resolveSubscription s key) s.owns Subscription.owns := by
  rw [Subscription.owns, add_comm]
  refine (mapSegment_turns s.cache key s.entity.owns).bind fun r => .pure _ ?_
  exact add_comm _ _

/-! ## Services and clients -/

/-- `UdsService` or `UdsClient` behind its handle. -/
structure Server where
  entity : Bound
  shmRing : ShmRingWriter
  cache : List Mapped

def Server.owns (s : Server) : Multiset Resource :=
  s.entity.owns + s.shmRing.owns + mappings s.cache

/-- A bound entity with an unused ring and an empty cache. -/
def createServer : Prog Resource (Option Server) := do
  let entity ← createBound
  return entity.map fun entity => Server.mk entity .fresh []

def destroyServer (s : Server) : Prog Resource Unit := do
  registryRemove (some (.socket s.entity.path)) s.entity.index
  closeSocket (some s.entity.fd) (some s.entity.path)
  let _ ← shmWriterClose s.shmRing
  shmReaderClose s.cache
  freeBound s.entity

/-- `rmw_create_service`. -/
def rmwCreateService : Prog Resource (Option Server) := createServer

/-- `rmw_destroy_service`. -/
def rmwDestroyService (s : Server) : Prog Resource Unit := destroyServer s

/-- `rmw_create_client`. -/
def rmwCreateClient : Prog Resource (Option Server) := createServer

/-- `rmw_destroy_client`. -/
def rmwDestroyClient (s : Server) : Prog Resource Unit := destroyServer s

/-- The staging of a request or of a response. -/
def stageServer (page : Nat) (s : Server) (payloadSize : Nat) : Prog Resource Server := do
  let (shmRing, _) ← shmStageReserve page s.shmRing payloadSize
  return { s with shmRing }

/-- A descriptor that the drain of a service or of a client resolves. -/
def resolveServer (s : Server) (key : Key) : Prog Resource Server := do
  let (cache, _) ← mapSegment s.cache key
  return { s with cache }

/-- What an optional service or client records. -/
def server (s : Option Server) : Multiset Resource :=
  s.elim 0 Server.owns

theorem createServer_turns : Turns realm createServer 0 server := by
  refine createBound_turns.bind fun entity => .pure _ ?_
  cases entity with
  | none => rfl
  | some entity =>
    show entity.owns = entity.owns + ShmRingWriter.fresh.owns + 0
    rw [ShmRingWriter.fresh_owns, add_zero, add_zero]

theorem destroyServer_turns (s : Server) :
    Turns realm (destroyServer s) s.owns fun _ => 0 := by
  have hsplit : s.owns = {.slot (some (.socket s.entity.path)) s.entity.index} +
      ({.path s.entity.path} + ({.fd s.entity.fd} + {.file (.socket s.entity.path)}) +
        (s.shmRing.owns + (mappings s.cache + s.entity.shell))) := by
    rw [Server.owns, Bound.owns, Bound.slot, Bound.shell]
    abel
  refine removeSocket_turns s.entity.path s.entity.fd s.entity.index hsplit ?_ ?_
  · have hring : Resource.file (.socket s.entity.path) ∉ s.shmRing.owns := by
      intro h
      obtain ⟨o, ho⟩ := s.shmRing.file_of_mem h
      cases ho
    simp [hring, mappings_no_file, s.entity.shell_no_file]
  · refine (shmWriterClose_turns_owns s.shmRing (add_left_comm _ _ _)).bind fun _ => ?_
    refine (shmReaderClose_turns s.cache (add_left_comm _ _ _)).bind fun _ => ?_
    exact freeBound_turns s.entity rfl

theorem stageServer_turns (page : Nat) (s : Server) (payloadSize : Nat) :
    Turns realm (stageServer page s payloadSize) s.owns Server.owns := by
  have hsplit : s.owns = s.shmRing.owns + (s.entity.owns + mappings s.cache) := by
    rw [Server.owns]
    abel
  have hclosed : realm.Closed (s.entity.owns + mappings s.cache) :=
    s.entity.owns_closed.add (mappings_closed s.cache)
  refine .seq (shmStageReserve_turns page s.shmRing payloadSize) hsplit hclosed fun r => ?_
  refine .pure _ ?_
  show _ = s.entity.owns + r.1.owns + mappings s.cache
  abel

theorem resolveServer_turns (s : Server) (key : Key) :
    Turns realm (resolveServer s key) s.owns Server.owns := by
  rw [Server.owns, add_comm]
  refine (mapSegment_turns s.cache key (s.entity.owns + s.shmRing.owns)).bind fun r => ?_
  exact .pure _ (add_comm _ _)

/-! ## The socket that rings doorbells -/

/-- `ring_doorbells` with its thread-local socket, over the doorbells that it finds. -/
def ringLoop (fd : Nat) : Nat → Prog Resource (Option Nat)
  | 0 => return some fd
  | n + 1 => do
    -- `EAGAIN` of `sendto`: the socket is replaced by a fresh one
    if (← query) ≠ 0 then
      free (.fd fd)
      match ← take .fd none with
      | none => return none
      | some fd => ringLoop fd n
    else
      ringLoop fd n

/-- `ring_doorbells`. -/
def ringDoorbells (ring : Option Nat) : Prog Resource (Option Nat) := do
  let doorbells ← query
  match ring with
  | some fd => ringLoop fd doorbells
  | none =>
    match ← take .fd none with
    | none => return none
    | some fd => ringLoop fd doorbells

/-- The destructor of `RingFd` at the end of its thread. -/
def threadExit (ring : Option Nat) : Prog Resource Unit := do
  freeOption (ring.map .fd)
  return ()

theorem ringLoop_turns (fd n : Nat) :
    Turns realm (ringLoop fd n) {.fd fd} fun ring => held (ring.map .fd) := by
  induction n generalizing fd with
  | zero => exact .pure _ rfl
  | succ n ih =>
    refine .query fun err => ?_
    split
    · refine .free (by simp [Resource.isDraw]) (add_zero _).symm ?_
      refine .take (fun _ => rfl) (.pure none rfl) fun fd _ => ?_
      rw [add_zero]
      exact ih fd
    · exact ih fd

theorem ringDoorbells_turns (ring : Option Nat) :
    Turns realm (ringDoorbells ring) (held (ring.map .fd)) fun ring => held (ring.map .fd) := by
  refine .query fun doorbells => ?_
  cases ring with
  | some fd => exact ringLoop_turns fd doorbells
  | none =>
    refine .take (fun _ => rfl) (.pure none rfl) fun fd _ => ?_
    show Turns realm _ ({.fd fd} + 0) _
    rw [add_zero]
    exact ringLoop_turns fd doorbells

theorem threadExit_turns (ring : Option Nat) :
    Turns realm (threadExit ring) (held (ring.map .fd)) fun _ => 0 :=
  .freeOption (by simp [Resource.isDraw]) (add_zero _).symm (.pure () rfl)

end RmwUnixSocket.Lifecycle
