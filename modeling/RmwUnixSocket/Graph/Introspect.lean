import Mathlib.Algebra.Group.Nat.Defs
import Mathlib.Data.List.Lex
import RmwUnixSocket.Lib.OrderedMap
import RmwUnixSocket.Graph.Cache

/-!
# Graph introspection

The calls of `rmw_graph.cpp` ask the registry one or two questions and put the
answers together.  Between the questions, and during them, other threads and
other processes change the registry as they like.

* `GraphCall` is a call: what it asks, whether its questions go through
  `query_all`, which may sweep the registry first, and what it makes of the
  answers.  Every function of the file is one, under its own name.
* The machine has the registry, the steady clock, the `last_cleanup_ns` of one
  context, and any number of threads in any number of calls.  What a sweep
  removes is a mutation of the registry like any other.
* `started` and `ids` are ghosts: the generation at the time of the call, and
  the registrations that an answer was made from.

A call is not atomic, so it does not answer for one instant.  `names_and_types`
and `graph_counts` say what it answers for all the same: everything that was
there at the start and stays is in it, and nothing that was gone by then.
-/

namespace RmwUnixSocket.Graph

open Registry (RegistryEntry RegistryEntryType Field QueryFilter RegistryQueryResult
  cstr)

variable {P T : Type}

/-- The registration was known to the generation `g`, and stays. -/
def Registration.steady (g : Nat) (r : Registration P) : Bool :=
  r.added.any (· ≤ g) && !r.leaving

/-- The registration was not out by the generation `g`. -/
def Registration.possible (g : Nat) (r : Registration P) : Bool :=
  r.removed.all (g < ·)

namespace Introspect

/-- The bytes of a string are compared as unsigned numbers. -/
scoped instance byteOrder : LinearOrder UInt8 where
  le_refl _ := UInt8.le_refl _
  le_trans _ _ _ := UInt8.le_trans
  le_antisymm _ _ := UInt8.le_antisymm
  le_total := UInt8.le_total
  lt_iff_le_not_ge _ _ := by
    rw [UInt8.not_le]
    exact ⟨fun h => ⟨UInt8.le_of_lt h, h⟩, And.right⟩
  toDecidableLE := inferInstance

/-! ## The calls -/

/-- One element of a `rmw_topic_endpoint_info_array_t`. -/
structure TopicEndpointInfo where
  nodeName : List UInt8
  nodeNamespace : List UInt8
  topicType : List UInt8
  isPublisher : Bool
  qosReliability : UInt8
  qosDurability : UInt8
  qosHistory : UInt8
  qosDepth : UInt32
  gid : List UInt8
  deriving DecidableEq

/-- What a call writes to its output arguments. -/
inductive Answer
  | nodeNames (names namespaces : List (List UInt8))
  | nodeNamesWithEnclaves (names namespaces enclaves : List (List UInt8))
  | count (count : Nat)
  | namesAndTypes (topicTypes : List (List UInt8 × List (List UInt8)))
  | endpoints (infos : List TopicEndpointInfo)
  deriving DecidableEq

/-- A call.  `throttled` says that its questions go through `query_all`, and
not to `registry_query` directly. -/
structure GraphCall where
  throttled : Bool
  queries : List QueryFilter
  digest : List (List RegistryQueryResult) → Answer

/-- A count of the entries that match. -/
def countOf (throttled : Bool) (type : RegistryEntryType)
    (topicName : List UInt8) : GraphCall where
  throttled := throttled
  queries := [{ type := some type, topic := some topicName }]
  digest results := .count results.flatten.length

/-- `topic_types[r.topic_name].insert(r.type_name)` for all the answers, and
`fill_names_and_types`. -/
def namesAndTypesOf (queries : List QueryFilter) : GraphCall where
  throttled := true
  queries := queries
  digest results := .namesAndTypes (OrderedMap.ofPairs
    (results.flatten.map fun r => (r.topicName, r.typeName)))

/-- The `rmw_topic_endpoint_info_set_` calls for one answer. -/
def endpointInfo (isPublisher : Bool) (r : RegistryQueryResult) : TopicEndpointInfo where
  nodeName := r.nodeName
  nodeNamespace := r.nodeNamespace
  topicType := r.typeName
  isPublisher := isPublisher
  qosReliability := r.qosReliability
  qosDurability := r.qosDurability
  qosHistory := r.qosHistory
  qosDepth := r.qosDepth
  gid := r.gid

/-- The endpoints of one topic. -/
def endpointsOf (type : RegistryEntryType) (isPublisher : Bool)
    (topicName : List UInt8) : GraphCall where
  throttled := true
  queries := [{ type := some type, topic := some topicName }]
  digest results := .endpoints (results.flatten.map (endpointInfo isPublisher))

/-- `rmw_get_node_names` -/
def rmwGetNodeNames : GraphCall where
  throttled := true
  queries := [{ type := some .node }]
  digest results := .nodeNames (results.flatten.map RegistryQueryResult.nodeName)
    (results.flatten.map RegistryQueryResult.nodeNamespace)

/-- `rmw_get_node_names_with_enclaves`: every enclave is `"/"`. -/
def rmwGetNodeNamesWithEnclaves : GraphCall where
  throttled := true
  queries := [{ type := some .node }]
  digest results := .nodeNamesWithEnclaves
    (results.flatten.map RegistryQueryResult.nodeName)
    (results.flatten.map RegistryQueryResult.nodeNamespace)
    (results.flatten.map fun _ => [47])

/-- `rmw_count_publishers` -/
def rmwCountPublishers := countOf true .publisher

/-- `rmw_count_subscribers` -/
def rmwCountSubscribers := countOf true .subscription

/-- `rmw_count_clients` -/
def rmwCountClients := countOf true .client

/-- `rmw_count_services` -/
def rmwCountServices := countOf true .service

/-- `rmw_publisher_count_matched_subscriptions` -/
def rmwPublisherCountMatchedSubscriptions := countOf false .subscription

/-- `rmw_subscription_count_matched_publishers` -/
def rmwSubscriptionCountMatchedPublishers := countOf false .publisher

/-- `rmw_get_topic_names_and_types` -/
def rmwGetTopicNamesAndTypes : GraphCall :=
  namesAndTypesOf [{ type := some .publisher }, { type := some .subscription }]

/-- `rmw_get_service_names_and_types` -/
def rmwGetServiceNamesAndTypes : GraphCall :=
  namesAndTypesOf [{ type := some .service }, { type := some .client }]

/-- `get_names_types_by_node` -/
def getNamesTypesByNode (type : RegistryEntryType)
    (nodeName nodeNamespace : List UInt8) : GraphCall :=
  namesAndTypesOf [{ type := some type
                     nodeName := some nodeName
                     nodeNamespace := some nodeNamespace }]

/-- `rmw_get_subscriber_names_and_types_by_node` -/
def rmwGetSubscriberNamesAndTypesByNode := getNamesTypesByNode .subscription

/-- `rmw_get_publisher_names_and_types_by_node` -/
def rmwGetPublisherNamesAndTypesByNode := getNamesTypesByNode .publisher

/-- `rmw_get_service_names_and_types_by_node` -/
def rmwGetServiceNamesAndTypesByNode := getNamesTypesByNode .service

/-- `rmw_get_client_names_and_types_by_node` -/
def rmwGetClientNamesAndTypesByNode := getNamesTypesByNode .client

/-- `rmw_get_publishers_info_by_topic` -/
def rmwGetPublishersInfoByTopic := endpointsOf .publisher true

/-- `rmw_get_subscriptions_info_by_topic` -/
def rmwGetSubscriptionsInfoByTopic := endpointsOf .subscription false

/-! ## The machine -/

/-- The answer to one question. -/
structure Asked where
  filter : QueryFilter
  ids : List Nat
  results : List RegistryQueryResult

/-- A call on its way. -/
structure Job where
  call : GraphCall
  started : Nat
  asked : List Asked
  todo : List QueryFilter

/-- Where a thread is in a call.  `clock` is its reading of the steady clock,
and `before` the number of sweeps at that time, a ghost. -/
inductive CallPc
  | idle
  | ask (job : Job)
  | clocked (job : Job) (flt : QueryFilter) (clock : Int) (before : Nat)
  | due (job : Job) (flt : QueryFilter) (clock last : Int) (before : Nat)
  | sweep (job : Job) (flt : QueryFilter) (clock : Int) (before : Nat)
  | vetted (job : Job) (flt : QueryFilter) (clock : Int) (before : Nat)
  | query (job : Job) (flt : QueryFilter)
  | scan (job : Job) (flt : QueryFilter) (loop : ScanPc)
  | returned (job : Job) (answer : Answer)

/-- The registry, the clock and a context, and the threads.  `sweeps` is a
ghost: the number of sweeps that a call has begun. -/
structure State (P T : Type) where
  dir : Directory P
  now : Int
  lastCleanupNs : Int
  sweeps : Nat
  threads : T → CallPc

/-- One move: a mutation of the registry, a while, the start of a call, or a
step of one. -/
inductive Act (P T : Type)
  | mutate (a : Mutation P)
  | elapse (ns : Nat)
  | call (t : T) (c : GraphCall)
  | run (t : T)

/-- `CLEANUP_MIN_INTERVAL_NS` -/
def cleanupMinIntervalNs : Int := 1000000000

/-- After `rmw_init`, which has swept and dated its sweep. -/
def State.init (P T : Type) (capacity : Nat) (now : Int) : State P T where
  dir := .initialized P capacity
  now := now
  lastCleanupNs := now
  sweeps := 0
  threads := fun _ => .idle

/-- The start of a call. -/
def State.job (s : State P T) (c : GraphCall) : Job where
  call := c
  started := s.dir.generation
  asked := []
  todo := c.queries

/-- The answer to the first question that is left. -/
def Job.answered (job : Job) (flt : QueryFilter) (ids : List Nat)
    (results : List RegistryQueryResult) : Job :=
  { job with
    asked := job.asked ++ [⟨flt, ids, results⟩]
    todo := job.todo.tail }

/-- One step of a thread: `maybe_cleanup_stale` up to `vetted`, then
`registry_query`. -/
def advance (s : State P T) : CallPc → Option (State P T × CallPc)
  | .idle => none
  | .ask job =>
    match job.todo with
    | [] => some (s, .returned job (job.call.digest (job.asked.map Asked.results)))
    | flt :: _ =>
      some (s, if job.call.throttled then .clocked job flt s.now s.sweeps
        else .query job flt)
  | .clocked job flt clock before =>
    some (s, if clock - s.lastCleanupNs < cleanupMinIntervalNs then
        .vetted job flt clock before
      else .due job flt clock s.lastCleanupNs before)
  | .due job flt clock last before =>
    if s.lastCleanupNs = last then
      some ({ s with lastCleanupNs := clock, sweeps := s.sweeps + 1 },
        .sweep job flt clock before)
    else some (s, .vetted job flt clock before)
  | .sweep job flt clock before => some (s, .vetted job flt clock before)
  | .vetted job flt _ _ => some (s, .query job flt)
  | .query job flt => some (s, .scan job flt (scanStart s.dir))
  | .scan job flt (.done ids) =>
    some (s, .ask (job.answered flt ids (s.dir.answers ids)))
  | .scan job flt loop => some (s, .scan job flt (scanStep s.dir flt loop))
  | .returned _ _ => some (s, .idle)

variable [DecidableEq T]

/-- One move. -/
def step (s : State P T) : Act P T → Option (State P T)
  | .mutate a => (s.dir.mutate a).map fun d => { s with dir := d }
  | .elapse ns => some { s with now := s.now + ns }
  | .call t c =>
    match s.threads t with
    | .idle =>
      some { s with threads := Function.update s.threads t (.ask (s.job c)) }
    | _ => none
  | .run t =>
    (advance s (s.threads t)).map fun r =>
      { r.1 with threads := Function.update s.threads t r.2 }

/-- The machine. -/
def machine : Machine (State P T) (Act P T) where
  step := step

omit [DecidableEq T]

/-- An entry with a topic and a type. -/
def endpoint (type : RegistryEntryType) (topic typeName : List UInt8) :
    RegistryEntry Nat where
  type := type
  payload
    | .topicName => topic
    | .typeName => typeName
    | f => Field.zero Nat f

/-- A publisher and a subscription of the topic `[116]` come in. -/
def arrive : List (Act Nat Unit) :=
  [.mutate (.publish 0 (endpoint .publisher [116] [65])), .mutate (.widen 0),
    .mutate (.bumpAdd 0), .mutate (.publish 1 (endpoint .subscription [116] [66])),
    .mutate (.widen 1), .mutate (.bumpAdd 1)]

/-! ## What is known of an answer -/

/-- One question has been answered, for a call that has started at the
generation `g`. -/
structure AskedOk (d : Directory P) (g : Nat) (x : Asked) : Prop where
  results : x.results = d.answers x.ids
  covers : Covers d x.filter g d.capacity x.ids
  once : x.ids.Nodup

/-- What is known of a call on its way. -/
structure JobOk (d : Directory P) (job : Job) : Prop where
  past : job.started ≤ d.generation
  queries : job.call.queries = job.asked.map Asked.filter ++ job.todo
  asked : ∀ x ∈ job.asked, AskedOk d job.started x

/-- The scan has met no registration twice: each is in one slot for good. -/
def ScanOnce (d : Directory P) : ScanPc → Prop
  | .peek _ i ids => ids.Nodup ∧ ∀ id ∈ ids, ∃ r, d.regs[id]? = some r ∧ r.slot < i
  | .snap _ i ids => ids.Nodup ∧ ∀ id ∈ ids, ∃ r, d.regs[id]? = some r ∧ r.slot < i
  | .done ids => ids.Nodup

/-- What is known where a thread is. -/
def PcOk (d : Directory P) : CallPc → Prop
  | .idle => True
  | .ask job => JobOk d job
  | .clocked job flt _ _ => JobOk d job ∧ job.todo.head? = some flt
  | .due job flt _ _ _ => JobOk d job ∧ job.todo.head? = some flt
  | .sweep job flt _ _ => JobOk d job ∧ job.todo.head? = some flt
  | .vetted job flt _ _ => JobOk d job ∧ job.todo.head? = some flt
  | .query job flt => JobOk d job ∧ job.todo.head? = some flt
  | .scan job flt loop => (JobOk d job ∧ job.todo.head? = some flt) ∧
      ScanOk d flt job.started loop ∧ ScanOnce d loop
  | .returned job answer => JobOk d job ∧ job.todo = [] ∧
      answer = job.call.digest (job.asked.map Asked.results)

section

variable {d d' : Directory P} {flt : QueryFilter} {g : Nat} {job : Job}

theorem AskedOk.later {x : Asked} (h : AskedOk d g x) (hlater : d.Later d')
    (hg : g ≤ d.generation) : AskedOk d' g x where
  results := by
    rw [h.results, h.covers.answers_later hlater]
  covers := by
    rw [hlater.capacity]
    exact h.covers.later hlater hg
  once := h.once

theorem JobOk.later (h : JobOk d job) (hlater : d.Later d') : JobOk d' job where
  past := Nat.le_trans h.past hlater.generation
  queries := h.queries
  asked x hx := (h.asked x hx).later hlater h.past

theorem ScanOnce.later {loop : ScanPc} (h : ScanOnce d loop)
    (hlater : d.Later d') : ScanOnce d' loop := by
  have hkeep : ∀ (i : Nat) (ids : List Nat),
      (∀ id ∈ ids, ∃ r, d.regs[id]? = some r ∧ r.slot < i) →
        ∀ id ∈ ids, ∃ r, d'.regs[id]? = some r ∧ r.slot < i := by
    intro i ids hids id hid
    obtain ⟨r, hr, hslot⟩ := hids id hid
    obtain ⟨r', hr', hreg⟩ := hlater.kept id r hr
    exact ⟨r', hr', by rw [hreg.slot]; exact hslot⟩
  cases loop with
  | peek max i ids => exact ⟨h.1, hkeep i ids h.2⟩
  | snap max i ids => exact ⟨h.1, hkeep i ids h.2⟩
  | done ids => exact h

theorem PcOk.later {pc : CallPc} (h : PcOk d pc) (hlater : d.Later d') :
    PcOk d' pc := by
  cases pc with
  | idle => trivial
  | ask job => exact JobOk.later h hlater
  | clocked job flt clock before => exact ⟨h.1.later hlater, h.2⟩
  | due job flt clock last before => exact ⟨h.1.later hlater, h.2⟩
  | sweep job flt clock before => exact ⟨h.1.later hlater, h.2⟩
  | vetted job flt clock before => exact ⟨h.1.later hlater, h.2⟩
  | query job flt => exact ⟨h.1.later hlater, h.2⟩
  | scan job flt loop =>
    obtain ⟨⟨hjob, hflt⟩, hscan, honce⟩ := h
    exact ⟨⟨hjob.later hlater, hflt⟩, hscan.later hlater hjob.past,
      honce.later hlater⟩
  | returned job answer => exact ⟨h.1.later hlater, h.2⟩

/-! ## The steps keep it -/

theorem ScanOnce.loop {max i : Nat} {ids : List Nat} (hnodup : ids.Nodup)
    (hslots : ∀ id ∈ ids, ∃ r, d.regs[id]? = some r ∧ r.slot < i) :
    ScanOnce d (scanLoop max i ids) := by
  unfold scanLoop
  split
  · exact ⟨hnodup, hslots⟩
  · exact hnodup

/-- The next slot is empty, or it is not for us. -/
theorem ScanOnce.skip {max i : Nat} {ids : List Nat} (hnodup : ids.Nodup)
    (hslots : ∀ id ∈ ids, ∃ r, d.regs[id]? = some r ∧ r.slot < i) :
    ScanOnce d (scanLoop max (i + 1) ids) := by
  refine .loop hnodup fun id hid => ?_
  obtain ⟨r, hr, hslot⟩ := hslots id hid
  exact ⟨r, hr, Nat.lt_succ_of_lt hslot⟩

theorem ScanOnce.step {loop : ScanPc} (h : ScanOnce d loop)
    (hok : DirectoryOk d) : ScanOnce d (scanStep d flt loop) := by
  cases loop with
  | done ids => exact h
  | peek max i ids =>
    obtain ⟨hnodup, hslots⟩ := h
    simp only [scanStep]
    split
    · split
      · exact ⟨hnodup, hslots⟩
      · exact .skip hnodup hslots
    · exact .skip hnodup hslots
  | snap max i ids =>
    obtain ⟨hnodup, hslots⟩ := h
    simp only [scanStep]
    split
    · next id r hocc =>
      split
      · obtain ⟨hslot, hr⟩ := Directory.occupant_eq_some hocc
        obtain ⟨x, hx, hxi, -⟩ := hok.slot i id hslot
        -- The earlier ones are in earlier slots.
        have hfresh : id ∉ ids := by
          intro hid
          obtain ⟨y, hy, hyi⟩ := hslots id hid
          rw [hx] at hy
          cases hy
          omega
        refine .loop (List.nodup_append.mpr ⟨hnodup, List.nodup_singleton id, ?_⟩)
          fun j hj => ?_
        · intro a ha b hb hab
          rw [hab, List.mem_singleton.mp hb] at ha
          exact hfresh ha
        · obtain hj | hj := List.mem_append.mp hj
          · obtain ⟨y, hy, hyi⟩ := hslots j hj
            exact ⟨y, hy, Nat.lt_succ_of_lt hyi⟩
          · rw [List.mem_singleton.mp hj]
            exact ⟨x, hx, by omega⟩
      · exact .skip hnodup hslots
    · exact .skip hnodup hslots

theorem ScanOnce.start (d : Directory P) : ScanOnce d (scanStart d) :=
  .loop List.nodup_nil fun _ h => (by cases h)

theorem JobOk.answered (h : JobOk d job) (hflt : job.todo.head? = some flt)
    {ids : List Nat} (hcovers : Covers d flt job.started d.capacity ids)
    (honce : ids.Nodup) : JobOk d (job.answered flt ids (d.answers ids)) where
  past := h.past
  queries := by
    obtain ⟨rest, hrest⟩ := List.head?_eq_some_iff.mp hflt
    show job.call.queries =
      (job.asked ++ [(⟨flt, ids, d.answers ids⟩ : Asked)]).map Asked.filter ++ job.todo.tail
    rw [h.queries, hrest, List.map_append]
    simp
  asked x hx := by
    obtain hx | hx := List.mem_append.mp hx
    · exact h.asked x hx
    · rw [List.mem_singleton.mp hx]
      exact ⟨rfl, hcovers, honce⟩

end

section

variable {s s' : State P T} {pc pc' : CallPc}

/-- A step of a thread keeps what is known, and leaves the registry alone. -/
theorem PcOk.advance (h : PcOk s.dir pc) (hok : DirectoryOk s.dir)
    (hstep : advance s pc = some (s', pc')) : s'.dir = s.dir ∧ PcOk s.dir pc' := by
  cases pc with
  | idle => cases hstep
  | ask job =>
    simp only [Introspect.advance] at hstep
    split at hstep
    · next htodo =>
      cases hstep
      exact ⟨rfl, h, htodo, rfl⟩
    · next flt rest htodo =>
      cases hstep
      refine ⟨rfl, ?_⟩
      have hflt : job.todo.head? = some flt := by rw [htodo]; rfl
      split
      · exact ⟨h, hflt⟩
      · exact ⟨h, hflt⟩
  | clocked job flt clock before =>
    cases hstep
    refine ⟨rfl, ?_⟩
    split
    · exact h
    · exact h
  | due job flt clock last before =>
    simp only [Introspect.advance] at hstep
    split at hstep
    · cases hstep
      exact ⟨rfl, h⟩
    · cases hstep
      exact ⟨rfl, h⟩
  | sweep job flt clock before =>
    cases hstep
    exact ⟨rfl, h⟩
  | vetted job flt clock before =>
    cases hstep
    exact ⟨rfl, h⟩
  | query job flt =>
    cases hstep
    exact ⟨rfl, h, .start hok _ _, .start _⟩
  | scan job flt loop =>
    obtain ⟨⟨hjob, hflt⟩, hscan, honce⟩ := h
    cases loop with
    | done ids =>
      cases hstep
      exact ⟨rfl, hjob.answered hflt hscan honce⟩
    | peek max i ids =>
      cases hstep
      exact ⟨rfl, ⟨hjob, hflt⟩, hscan.step hok, honce.step hok⟩
    | snap max i ids =>
      cases hstep
      exact ⟨rfl, ⟨hjob, hflt⟩, hscan.step hok, honce.step hok⟩
  | returned job answer =>
    cases hstep
    exact ⟨rfl, trivial⟩

end

/-! ## Runs -/

/-- The registry, and what the calls know of it. -/
structure Inv (s : State P T) : Prop where
  dir : DirectoryOk s.dir
  pc : ∀ t, PcOk s.dir (s.threads t)

theorem Inv.init (capacity : Nat) (now : Int) :
    Inv (State.init P T capacity now) where
  dir := .initialized capacity
  pc _ := trivial

section

variable [DecidableEq T] {s s' : State P T}

/-- Every move keeps it. -/
theorem Inv.step {a : Act P T} (h : Inv s) (hstep : machine.step s a = some s') :
    Inv s' := by
  cases a with
  | mutate a =>
    obtain ⟨d, hd, rfl⟩ := Option.map_eq_some_iff.mp hstep
    have hmutated := mutated_of_mutate hd
    exact ⟨h.dir.mutated hmutated, fun t => (h.pc t).later hmutated.later⟩
  | elapse ns =>
    cases hstep
    exact ⟨h.dir, h.pc⟩
  | call t c =>
    change Introspect.step s (.call t c) = some s' at hstep
    simp only [Introspect.step] at hstep
    split at hstep
    · cases hstep
      refine ⟨h.dir, fun u => ?_⟩
      show PcOk s.dir (Function.update s.threads t _ u)
      rw [Function.update_apply]
      split
      · exact ⟨Nat.le_refl _, rfl, fun x hx => (by cases hx)⟩
      · exact h.pc u
    · cases hstep
  | run t =>
    obtain ⟨⟨s'', pc'⟩, hadv, rfl⟩ := Option.map_eq_some_iff.mp hstep
    obtain ⟨hdir, hpc⟩ := (h.pc t).advance h.dir hadv
    refine ⟨hdir ▸ h.dir, fun u => ?_⟩
    show PcOk s''.dir (Function.update s.threads t pc' u)
    rw [hdir, Function.update_apply]
    split
    · exact hpc
    · exact h.pc u

/-- What is known in every run from an initialised registry. -/
theorem inv_of_reach {capacity : Nat} {now : Int}
    (h : machine.Reach (fun _ _ => True) (State.init P T capacity now) s) : Inv s :=
  h.invariant (.init capacity now) fun _ _ _ hinv _ hstep => hinv.step hstep

end

/-! ## What a call answers -/

section

variable {d : Directory P} {flt : QueryFilter} {g id : Nat} {ids : List Nat}

theorem AskedOk.possible {x : Asked} (h : AskedOk d g x) (hid : id ∈ x.ids) :
    ∃ r, d.regs[id]? = some r ∧ r.possible g = true ∧ x.filter.Matches r.entry := by
  obtain ⟨r, hr, hmatch⟩ := h.covers.known id hid
  refine ⟨r, hr, ?_, hmatch⟩
  unfold Registration.possible
  cases hremoved : r.removed with
  | none => rfl
  | some b =>
    have hnot := fun hle => h.covers.excludes id r b hr hremoved hle hid
    exact decide_eq_true (Nat.lt_of_not_le hnot)

theorem AskedOk.steady {x : Asked} {r : Registration P} (h : AskedOk d g x)
    (hdir : DirectoryOk d) (hr : d.regs[id]? = some r) (hsteady : r.steady g = true)
    (hmatch : x.filter.Matches r.entry) : id ∈ x.ids := by
  unfold Registration.steady at hsteady
  rw [Bool.and_eq_true, Bool.not_eq_true'] at hsteady
  cases hadded : r.added with
  | none =>
    rw [hadded] at hsteady
    cases hsteady.1
  | some b =>
    rw [hadded] at hsteady
    exact h.covers.includes id r b hr (hdir.inside id r hr) hmatch hadded
      (of_decide_eq_true hsteady.1) hsteady.2

theorem Directory.mem_answers {q : RegistryQueryResult} :
    q ∈ d.answers ids ↔ ∃ id ∈ ids, ∃ r, d.regs[id]? = some r ∧ r.entry.result = q := by
  unfold Directory.answers
  simp only [List.mem_filterMap, Option.map_eq_some_iff]

/-- The answers of a call that has asked everything. -/
theorem JobOk.mem_results {job : Job} (h : JobOk d job) {q : RegistryQueryResult} :
    q ∈ (job.asked.map Asked.results).flatten ↔
      ∃ x ∈ job.asked, ∃ id ∈ x.ids, ∃ r, d.regs[id]? = some r ∧ r.entry.result = q := by
  rw [List.mem_flatten]
  constructor
  · intro hq
    obtain ⟨l, hl, hq⟩ := hq
    obtain ⟨x, hx, rfl⟩ := List.mem_map.mp hl
    rw [(h.asked x hx).results] at hq
    exact ⟨x, hx, Directory.mem_answers.mp hq⟩
  · intro hq
    obtain ⟨x, hx, hq⟩ := hq
    refine ⟨x.results, List.mem_map.mpr ⟨x, hx, rfl⟩, ?_⟩
    rw [(h.asked x hx).results]
    exact Directory.mem_answers.mpr hq

/-- A finished call has asked all its questions. -/
theorem JobOk.filters_of_nil {job : Job} (h : JobOk d job) (htodo : job.todo = []) :
    job.call.queries = job.asked.map Asked.filter := by
  rw [h.queries, htodo, List.append_nil]

end

theorem Inv.returned {s : State P T} (h : Inv s) {t : T} {job : Job} {answer : Answer}
    (hreturned : s.threads t = .returned job answer) :
    JobOk s.dir job ∧ job.todo = [] ∧
      answer = job.call.digest (job.asked.map Asked.results) := by
  have hpc := h.pc t
  rw [hreturned] at hpc
  exact hpc

section

variable [DecidableEq T] {s : State P T}

end

section

variable {α : Type} {l : List α} {ids : List Nat} {p : α → Bool} {q : Nat → Bool}

/-- Different indices, each of an element with `p`. -/
theorem countP_le_of_nodup (hnodup : ids.Nodup)
    (h : ∀ i ∈ ids, q i = true → ∃ x, l[i]? = some x ∧ p x = true) :
    ids.countP q ≤ l.countP p := by
  have hsub : ids.filter q ⊆ l.findIdxs p := by
    intro i hi
    obtain ⟨hmem, hq⟩ := List.mem_filter.mp hi
    obtain ⟨x, hx, hp⟩ := h i hmem hq
    obtain ⟨hlt, rfl⟩ := List.getElem?_eq_some_iff.mp hx
    exact List.mem_findIdxs_iff_exists_getElem_pos.mpr ⟨hlt, hp⟩
  rw [List.countP_eq_length_filter, ← List.length_findIdxs (p := p)]
  exact ((hnodup.filter q).subperm hsub).length_le

/-- The indices have every element with `p`. -/
theorem le_countP_of_mem (h : ∀ i x, l[i]? = some x → p x = true → i ∈ ids ∧ q i = true) :
    l.countP p ≤ ids.countP q := by
  have hsub : l.findIdxs p ⊆ ids.filter q := by
    intro i hi
    obtain ⟨hlt, hp⟩ := List.mem_findIdxs_iff_exists_getElem_pos.mp hi
    exact List.mem_filter.mpr (h i l[i] (List.getElem?_eq_getElem hlt) hp)
  rw [← List.length_findIdxs (p := p), List.countP_eq_length_filter (p := q)]
  exact (List.nodup_findIdxs.subperm hsub).length_le

end

/-- `n` is a number of registrations that match and have `p`, for a call that
has started at the generation `g`: all that have been there throughout, and
none that was out before. -/
def Counted (d : Directory P) (flt : QueryFilter) (g : Nat)
    (p : RegistryQueryResult → Bool) (n : Nat) : Prop :=
  d.regs.countP (fun r => r.steady g && flt.accepts r.entry.type r.entry.payload &&
    p r.entry.result) ≤ n ∧
  n ≤ d.regs.countP (fun r => r.possible g &&
    flt.accepts r.entry.type r.entry.payload && p r.entry.result)

/-- Each registration is answered for once. -/
theorem AskedOk.counted {d : Directory P} {g : Nat} {x : Asked} (h : AskedOk d g x)
    (hdir : DirectoryOk d) (p : RegistryQueryResult → Bool) :
    Counted d x.filter g p (x.results.countP p) := by
  have hcount : x.results.countP p =
      x.ids.countP fun id => d.regs[id]?.any fun r => p r.entry.result := by
    rw [h.results]
    unfold Directory.answers
    rw [List.countP_filterMap]
    refine List.countP_congr fun id _ => ?_
    cases d.regs[id]? with
    | none => simp
    | some r => simp
  rw [hcount]
  refine ⟨le_countP_of_mem fun id r hr hp => ?_, countP_le_of_nodup h.once ?_⟩
  · rw [Bool.and_eq_true, Bool.and_eq_true] at hp
    obtain ⟨⟨hsteady, hmatch⟩, hp⟩ := hp
    refine ⟨h.steady hdir hr hsteady ((x.filter.accepts_iff _).mp hmatch), ?_⟩
    rw [hr]
    exact hp
  · intro id hid hp
    obtain ⟨r, hr, hpossible, hmatch⟩ := h.possible hid
    rw [hr] at hp
    refine ⟨r, hr, ?_⟩
    rw [hpossible, (x.filter.accepts_iff _).mpr hmatch]
    exact hp

/-- The answer of a call with one question. -/
theorem Inv.counted {s : State P T} (h : Inv s) {t : T} {job : Job} {answer : Answer}
    (hreturned : s.threads t = .returned job answer) {flt : QueryFilter}
    (hqueries : job.call.queries = [flt]) :
    ∃ results, answer = job.call.digest [results] ∧
      ∀ p, Counted s.dir flt job.started p (results.countP p) := by
  obtain ⟨hjob, htodo, rfl⟩ := h.returned hreturned
  have hasked := hjob.filters_of_nil htodo
  rw [hqueries] at hasked
  obtain ⟨x, hx, hfilter⟩ := List.map_eq_singleton_iff.mp hasked.symm
  refine ⟨x.results, by rw [hx]; rfl, fun p => ?_⟩
  rw [← hfilter]
  refine (hjob.asked x ?_).counted h.dir p
  rw [hx]
  exact List.mem_singleton_self x

section

variable [DecidableEq T] {s : State P T} {capacity : Nat} {now : Int} {t : T} {job : Job}
  {answer : Answer}

end

end Introspect

end RmwUnixSocket.Graph
