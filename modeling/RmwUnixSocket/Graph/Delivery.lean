import RmwUnixSocket.Graph.Routing

/-!
# Every response reaches its client

The client cache of a service covers the generation that a call of
`rmw_send_response` has loaded, so it has every client that was registered
when the call began and still is.  The entries of clients carry their GIDs
and paths, so the entry that the search finds is the one of the client that
has sent the request.
-/

namespace RmwUnixSocket.Graph.Routing

open Registry (RegistryEntry RegistryQueryResult Field cstr)

variable {P C S T : Type} {cfg : Config P C S}

/-! ## The search -/

/-- The entries of clients in the directory are the ones that
`rmw_create_client` makes. -/
def Genuine (cfg : Config P C S) (d : Directory P) : Prop :=
  ∀ (id : Nat) (r : Registration P), d.regs[id]? = some r →
    r.entry.type = .client → ∃ c, r.entry = cfg.entry c

/-- Client `c` was registered under the name of the service when the
generation was `g`, and is not on its way out. -/
def Registered (cfg : Config P C S) (d : Directory P) (g : Nat) (i : S)
    (c : C) : Prop :=
  ∃ (id : Nat) (r : Registration P) (b : Nat), d.regs[id]? = some r ∧
    r.entry = cfg.entry c ∧
    (clientCache cfg i).filter.Matches r.entry ∧
    r.added = some b ∧ b ≤ g ∧ r.leaving = false

section

variable {d d' : Directory P} {g n : Nat} {i : S}

theorem Registered.earlier {c : C} (h : Registered cfg d' g i c)
    (hlater : d.Later d') (hg : g ≤ d.generation) : Registered cfg d g i c := by
  obtain ⟨id, r', b, hr', hentry, hmatch, hadded, hb, hleaving⟩ := h
  cases hr : d.regs[id]? with
  | none =>
    rw [(hlater.fresh id r' hr' hr).1] at hadded
    cases hadded
  | some r =>
    obtain ⟨x, hx, hreg⟩ := hlater.kept id r hr
    obtain rfl := Option.some.inj (hr'.symm.trans hx)
    rw [hreg.entry] at hentry hmatch
    rcases hreg.added b hadded with hold | hnew
    · exact ⟨id, r, b, hr, hentry, hmatch, hold, hb, hreg.leaving hleaving⟩
    · omega

/-- An element of the cached list is the routing entry of a registration. -/
theorem mem_digest {ids : List Nat} {x : CachedClient}
    (hx : x ∈ (clientCache cfg i).digest (d.answers ids)) :
    ∃ id ∈ ids, ∃ r, d.regs[id]? = some r ∧
      x = ⟨r.entry.result.socketPath, r.entry.result.gid⟩ := by
  obtain ⟨res, hres, rfl⟩ := List.mem_map.mp (List.mem_of_mem_filter hx)
  obtain ⟨id, hid, hmap⟩ := List.mem_filterMap.mp hres
  obtain ⟨r, hr, rfl⟩ := Option.map_eq_some_iff.mp hmap
  exact ⟨id, hid, r, hr, rfl⟩

/-- What the search finds is the address of the client with the GID. -/
theorem address_of_find {ids : List Nat} {gid : List UInt8} {x : CachedClient}
    (hgenuine : Genuine cfg d)
    (hcovers : Covers d (clientCache cfg i).filter g n ids)
    (hfind : ((clientCache cfg i).digest (d.answers ids)).find?
      (fun c => c.gid = gid) = some x) :
    ∃ c, cfg.gid c = gid ∧ strncpy 108 x.socketPath = cfg.address c := by
  have hgid : x.gid = gid := by simpa using List.find?_some hfind
  obtain ⟨id, hid, r, hr, rfl⟩ := mem_digest (List.mem_of_find?_eq_some hfind)
  obtain ⟨y, hy, hmatch⟩ := hcovers.known id hid
  obtain rfl := Option.some.inj (hr.symm.trans hy)
  obtain ⟨c, hc⟩ := hgenuine id r hr (hmatch.type .client rfl)
  refine ⟨c, ?_, ?_⟩
  · rw [← hgid, hc]
    rfl
  · rw [hc]
    exact cfg.address_eq c

/-- The search finds a client that is registered. -/
theorem find_of_registered {ids : List Nat} {c : C}
    (hcovers : Covers d (clientCache cfg i).filter g d.capacity ids)
    (hok : DirectoryOk d) (hreg : Registered cfg d g i c) :
    ((clientCache cfg i).digest (d.answers ids)).find?
      (fun x => x.gid = cfg.gid c) ≠ none := by
  obtain ⟨id, r, b, hr, hentry, hmatch, hadded, hb, hleaving⟩ := hreg
  have hid := hcovers.includes id r b hr (hok.inside id r hr) hmatch hadded hb
    hleaving
  intro hnone
  have hmem : (⟨r.entry.result.socketPath, r.entry.result.gid⟩ :
      CachedClient) ∈ (clientCache cfg i).digest (d.answers ids) := by
    apply List.mem_filter.mpr
    constructor
    · apply List.mem_map.mpr
      refine ⟨r.entry.result, List.mem_filterMap.mpr ⟨id, hid, ?_⟩, rfl⟩
      rw [hr]
      rfl
    · have hpath := cfg.cstr_socketPath_ne_nil c
      rw [← hentry] at hpath
      exact decide_eq_true hpath
  have hmiss := List.find?_eq_none.mp hnone _ hmem
  rw [hentry] at hmiss
  exact hmiss (decide_eq_true rfl)

end

/-! ## The invariant -/

/-- What has left a call of `rmw_send_response`. -/
structure SentOk (cfg : Config P C S) (d : Directory P) (call : ResponseCall S)
    (sent : Option (List UInt8 × Datagram)) : Prop where
  floor : call.floor ≤ d.generation
  addressed : ∀ a msg, sent = some (a, msg) →
    msg = responseHeader call.request ∧
      ∃ c, cfg.gid c = call.request.writerGuid ∧ a = cfg.address c
  complete : call.serialized = true → sent = none →
    ∀ c, cfg.gid c = call.request.writerGuid →
      ¬Registered cfg d call.floor call.service c

/-- The id is the one of a request that its client has sent. -/
def Issued (cfg : Config P C S) (clients : C → Client) (id : RequestId) :
    Prop :=
  ∃ c, id.writerGuid = cfg.gid c ∧ 1 ≤ id.sequenceNumber ∧
    id.sequenceNumber < (clients c).sequenceNumber

/-- The generation that a thread has loaded is not below the floor. -/
def Above (floor : Nat) {V : Type} : CachePc V → Prop
  | .idle => True
  | .loaded g => floor ≤ g
  | .compare g => floor ≤ g
  | .query g _ => floor ≤ g
  | .use g _ => floor ≤ g

/-- What is known about a thread. -/
def ThreadOk (cfg : Config P C S) (s : State P C S T) (t : T) : Pc S → Prop
  | .idle => True
  | .routing call pc => call.floor ≤ s.dir.generation ∧
      Issued cfg s.clients call.request ∧ Above call.floor pc ∧
      PcOk (clientCache cfg call.service) s.dir
        (s.services call.service).cache t pc
  | .fallback call scan => call.floor ≤ s.dir.generation ∧
      Issued cfg s.clients call.request ∧
      ScanOk s.dir (clientCache cfg call.service).filter call.floor scan
  | .returned call sent => SentOk cfg s.dir call sent

/-- A response at a client is for a request of that client. -/
def Mine (cfg : Config P C S) (clients : C → Client) (c : C) (id : RequestId) :
    Prop :=
  id.writerGuid = cfg.gid c ∧ 1 ≤ id.sequenceNumber ∧
    id.sequenceNumber < (clients c).sequenceNumber

/-- The invariant of the machine. -/
structure StateOk (cfg : Config P C S) (s : State P C S T) : Prop where
  dir : DirectoryOk s.dir
  genuine : Genuine cfg s.dir
  sockets : ∀ a c, s.sockets a = some c → cfg.address c = a
  positive : ∀ c, 1 ≤ (s.clients c).sequenceNumber
  requests : ∀ i, ∀ d ∈ (s.services i).inbox,
    Issued cfg s.clients d.requestId
  requested : ∀ i, ∀ id ∈ (s.services i).taken, Issued cfg s.clients id
  caches : ∀ i, CacheOk (clientCache cfg i) s.dir (s.services i).cache
  threads : ∀ t, ThreadOk cfg s t (s.threads t)
  responses : ∀ c, ∀ d ∈ (s.clients c).inbox,
    Mine cfg s.clients c d.requestId
  answered : ∀ c, ∀ id ∈ (s.clients c).taken, Mine cfg s.clients c id

theorem StateOk.init (T : Type) (cfg : Config P C S) (capacity : Nat) :
    StateOk cfg (State.init P T cfg capacity) where
  dir := .initialized capacity
  genuine _ _ h := nomatch h
  sockets _ _ h := nomatch h
  positive _ := Nat.le_refl 1
  requests _ _ h := nomatch h
  requested _ _ h := nomatch h
  caches _ := .fresh _ capacity
  threads _ := trivial
  responses _ _ h := nomatch h
  answered _ _ h := nomatch h

/-! ## Frame lemmas -/

section

variable {s s' : State P C S T} {t : T} {pc : Pc S}

theorem SentOk.later {d d' : Directory P} {call : ResponseCall S}
    {sent : Option (List UInt8 × Datagram)} (h : SentOk cfg d call sent)
    (hlater : d.Later d') : SentOk cfg d' call sent where
  floor := Nat.le_trans h.floor hlater.generation
  addressed := h.addressed
  complete hserialized hnone c hgid hreg :=
    h.complete hserialized hnone c hgid (hreg.earlier hlater h.floor)

/-- The clients have issued what they had issued before. -/
def Grown (clients clients' : C → Client) : Prop :=
  ∀ c, (clients c).sequenceNumber ≤ (clients' c).sequenceNumber

theorem Issued.grown {clients clients' : C → Client} {id : RequestId}
    (h : Issued cfg clients id) (hgrown : Grown clients clients') :
    Issued cfg clients' id := by
  obtain ⟨c, hgid, hpos, hlt⟩ := h
  exact ⟨c, hgid, hpos, Nat.lt_of_lt_of_le hlt (hgrown c)⟩

theorem Mine.grown {clients clients' : C → Client} {c : C} {id : RequestId}
    (h : Mine cfg clients c id) (hgrown : Grown clients clients') :
    Mine cfg clients' c id :=
  ⟨h.1, h.2.1, Nat.lt_of_lt_of_le h.2.2 (hgrown c)⟩

/-- A mutation of the registry. -/
theorem ThreadOk.later (h : ThreadOk cfg s t pc) {d : Directory P}
    (hlater : s.dir.Later d) : ThreadOk cfg { s with dir := d } t pc := by
  have hgen := hlater.generation
  cases pc with
  | idle => trivial
  | routing call pc =>
    obtain ⟨hfloor, hissued, habove, hpc⟩ := h
    exact ⟨Nat.le_trans hfloor hgen, hissued, habove, hpc.later hlater⟩
  | fallback call scan =>
    obtain ⟨hfloor, hissued, hscan⟩ := h
    exact ⟨Nat.le_trans hfloor hgen, hissued, hscan.later hlater hfloor⟩
  | returned call sent => exact SentOk.later h hlater

/-- A step that does not touch the registry and the caches. -/
theorem ThreadOk.frame (h : ThreadOk cfg s t pc) (hdir : s'.dir = s.dir)
    (hgrown : Grown s.clients s'.clients)
    (hcache : ∀ i, (s'.services i).cache = (s.services i).cache) :
    ThreadOk cfg s' t pc := by
  cases pc with
  | idle => trivial
  | routing call pc =>
    obtain ⟨hfloor, hissued, habove, hpc⟩ := h
    show call.floor ≤ s'.dir.generation ∧ Issued cfg s'.clients call.request ∧
      Above call.floor pc ∧ PcOk (clientCache cfg call.service) s'.dir
        (s'.services call.service).cache t pc
    rw [hdir, hcache]
    exact ⟨hfloor, hissued.grown hgrown, habove, hpc⟩
  | fallback call scan =>
    obtain ⟨hfloor, hissued, hscan⟩ := h
    show call.floor ≤ s'.dir.generation ∧ Issued cfg s'.clients call.request ∧
      ScanOk s'.dir (clientCache cfg call.service).filter call.floor scan
    rw [hdir]
    exact ⟨hfloor, hissued.grown hgrown, hscan⟩
  | returned call sent =>
    show SentOk cfg s'.dir call sent
    rw [hdir]
    exact h

/-- A mutation of the registry by somebody. -/
theorem StateOk.mutated (h : StateOk cfg s) {d : Directory P}
    (hmutated : Mutated s.dir d) (hgenuine : Genuine cfg d) :
    StateOk cfg { s with dir := d } where
  dir := h.dir.mutated hmutated
  genuine := hgenuine
  sockets := h.sockets
  positive := h.positive
  requests := h.requests
  requested := h.requested
  caches i := (h.caches i).later hmutated.later
  threads t := (h.threads t).later hmutated.later
  responses := h.responses
  answered := h.answered

/-- A mutation publishes genuine entries only, if it publishes. -/
theorem Genuine.mutate {d d' : Directory P} {a : Mutation P}
    (h : Genuine cfg d) (hstep : d.mutate a = some d')
    (hpublish : ∀ i e, a = .publish i e → e.type = .client →
      ∃ c, e = cfg.entry c) : Genuine cfg d' := by
  intro id r' hr' htype
  cases hr : d.regs[id]? with
  | some r =>
    obtain ⟨x, hx, hreg⟩ := (mutated_of_mutate hstep).later.kept id r hr
    obtain rfl := Option.some.inj (hr'.symm.trans hx)
    rw [hreg.entry] at htype ⊢
    exact h id r hr htype
  | none =>
    -- Only a publication makes a new registration.
    cases a with
    | publish i e =>
      simp only [Directory.mutate, Option.ite_none_right_eq_some,
        Option.some.injEq] at hstep
      obtain ⟨-, rfl⟩ := hstep
      rcases regs_append hr' with ⟨-, rfl⟩ | hold
      · exact hpublish i e rfl htype
      · rw [hr] at hold
        cases hold
    | widen j | bumpAdd j | remove j | bumpRemove j =>
      exfalso
      simp only [Directory.mutate] at hstep
      split at hstep
      · next r hj =>
        split at hstep
        all_goals cases hstep
        all_goals
          rcases regs_set hj hr' with ⟨rfl, -⟩ | ⟨-, hold⟩
          · rw [hr] at hj
            cases hj
          · rw [hr] at hold
            cases hold
      · cases hstep

variable [DecidableEq C] [DecidableEq S] [DecidableEq T]

/-! ## Steps -/

omit [DecidableEq C] [DecidableEq S] in
/-- A thread goes on, with what it now knows. -/
theorem StateOk.goto (h : StateOk cfg s) (hpc : ThreadOk cfg s t pc) :
    StateOk cfg (s.goto t pc) where
  dir := h.dir
  genuine := h.genuine
  sockets := h.sockets
  positive := h.positive
  requests := h.requests
  requested := h.requested
  caches := h.caches
  threads t' := by
    have hsame : ∀ pc', ThreadOk cfg s t' pc' →
        ThreadOk cfg (s.goto t pc) t' pc' := fun _ hold =>
      hold.frame rfl (fun _ => Nat.le_refl _) fun _ => rfl
    show ThreadOk cfg _ t' (Function.update s.threads t pc t')
    by_cases ht : t' = t
    · subst ht
      rw [Function.update_self]
      exact hsame _ hpc
    · rw [Function.update_of_ne ht]
      exact hsame _ (h.threads t')
  responses := h.responses
  answered := h.answered

omit [DecidableEq S] [DecidableEq T] in
theorem grown_setClient {c : C} {client : Client}
    (hseq : (s.clients c).sequenceNumber ≤ client.sequenceNumber) :
    Grown s.clients (s.setClient c client).clients := by
  intro x
  show _ ≤ (Function.update s.clients c client x).sequenceNumber
  by_cases hx : x = c
  · subst hx
    rw [Function.update_self]
    exact hseq
  · rw [Function.update_of_ne hx]

omit [DecidableEq S] [DecidableEq T] in
/-- A client changes. -/
theorem StateOk.setClient (h : StateOk cfg s) {c : C} {client : Client}
    (hseq : (s.clients c).sequenceNumber ≤ client.sequenceNumber)
    (hinbox : ∀ d ∈ client.inbox,
      Mine cfg (s.setClient c client).clients c d.requestId)
    (htaken : ∀ id ∈ client.taken,
      Mine cfg (s.setClient c client).clients c id) :
    StateOk cfg (s.setClient c client) := by
  have hgrown := grown_setClient (s := s) hseq
  refine ⟨h.dir, h.genuine, h.sockets, fun c' =>
    Nat.le_trans (h.positive c') (hgrown c'), fun i d hd =>
    (h.requests i d hd).grown hgrown, fun i id hid =>
    (h.requested i id hid).grown hgrown, h.caches, fun t =>
    (h.threads t).frame rfl hgrown fun _ => rfl, fun c' d hd => ?_,
    fun c' id hid => ?_⟩
  · change d ∈ (Function.update s.clients c client c').inbox at hd
    by_cases hc : c' = c
    · subst hc
      rw [Function.update_self] at hd
      exact hinbox d hd
    · rw [Function.update_of_ne hc] at hd
      exact (h.responses c' d hd).grown hgrown
  · change id ∈ (Function.update s.clients c client c').taken at hid
    by_cases hc : c' = c
    · subst hc
      rw [Function.update_self] at hid
      exact htaken id hid
    · rw [Function.update_of_ne hc] at hid
      exact (h.answered c' id hid).grown hgrown

omit [DecidableEq C] [DecidableEq T] in
/-- A service gets or takes a request. -/
theorem StateOk.setService (h : StateOk cfg s) {i : S} {service : Service T}
    (hcache : service.cache = (s.services i).cache)
    (hinbox : ∀ d ∈ service.inbox, Issued cfg s.clients d.requestId)
    (htaken : ∀ id ∈ service.taken, Issued cfg s.clients id) :
    StateOk cfg (s.setService i service) := by
  have hsame : ∀ j, ((s.setService i service).services j).cache =
      (s.services j).cache := by
    intro j
    show (Function.update s.services i service j).cache = _
    by_cases hj : j = i
    · subst hj
      rw [Function.update_self]
      exact hcache
    · rw [Function.update_of_ne hj]
  refine ⟨h.dir, h.genuine, h.sockets, h.positive, fun j d hd => ?_,
    fun j id hid => ?_, fun j => ?_, fun t =>
    (h.threads t).frame rfl (fun _ => Nat.le_refl _) hsame, h.responses,
    h.answered⟩
  · change d ∈ (Function.update s.services i service j).inbox at hd
    by_cases hj : j = i
    · subst hj
      rw [Function.update_self] at hd
      exact hinbox d hd
    · rw [Function.update_of_ne hj] at hd
      exact h.requests j d hd
  · change id ∈ (Function.update s.services i service j).taken at hid
    by_cases hj : j = i
    · subst hj
      rw [Function.update_self] at hid
      exact htaken id hid
    · rw [Function.update_of_ne hj] at hid
      exact h.requested j id hid
  · rw [hsame j]
    exact h.caches j

omit [DecidableEq C] [DecidableEq S] [DecidableEq T] in
/-- A socket is bound or unlinked. -/
theorem StateOk.setSocket (h : StateOk cfg s) (c : C) (o : Option C)
    (ho : o = none ∨ o = some c) :
    StateOk cfg { s with
      sockets := Function.update s.sockets (cfg.address c) o } := by
  refine ⟨h.dir, h.genuine, fun a c' ha => ?_, h.positive, h.requests,
    h.requested, h.caches, fun t =>
    (h.threads t).frame rfl (fun _ => Nat.le_refl _) fun _ => rfl, h.responses,
    h.answered⟩
  change Function.update s.sockets (cfg.address c) o a = some c' at ha
  by_cases heq : a = cfg.address c
  · subst heq
    rw [Function.update_self] at ha
    rcases ho with hnone | hsome
    · rw [hnone] at ha
      cases ha
    · rw [hsome] at ha
      cases ha
      rfl
  · rw [Function.update_of_ne heq] at ha
    exact h.sockets a c' ha

omit [DecidableEq S] [DecidableEq T] in
/-- A response to a client arrives at that client, if no two clients have the
same address. -/
theorem StateOk.sendTo (h : StateOk cfg s)
    (haddress : Function.Injective cfg.address) {c : C} {id : RequestId}
    (hissued : Issued cfg s.clients id) (hgid : cfg.gid c = id.writerGuid)
    (hunique : Function.Injective cfg.gid) (delivered : Bool) :
    StateOk cfg (s.sendTo (cfg.address c) (responseHeader id) delivered) := by
  unfold State.sendTo
  cases hbound : s.sockets (cfg.address c) with
  | none => exact h
  | some c' =>
    have hc := haddress (h.sockets _ _ hbound)
    subst hc
    cases delivered with
    | false => exact h
    | true =>
      obtain ⟨c, hwriter, hpos, hlt⟩ := hissued
      obtain rfl := hunique (hgid.trans hwriter)
      have hgrown : Grown s.clients (s.setClient c'
          { s.clients c' with inbox := (s.clients c').inbox ++
            [responseHeader id] }).clients :=
        grown_setClient (Nat.le_refl _)
      refine h.setClient (Nat.le_refl _) ?_ ?_
      · intro d hd
        rcases List.mem_append.mp hd with hold | hnew
        · exact (h.responses c' d hold).grown hgrown
        · obtain rfl := List.mem_singleton.mp hnew
          have hmine : Mine cfg s.clients c' id := ⟨hwriter, hpos, hlt⟩
          exact hmine.grown hgrown
      · intro x hx
        exact (h.answered c' x hx).grown hgrown

omit [DecidableEq S] [DecidableEq T] in
theorem sendTo_dir (a : List UInt8) (msg : Datagram) (delivered : Bool) :
    (s.sendTo a msg delivered).dir = s.dir := by
  unfold State.sendTo
  split
  · split <;> rfl
  · rfl

omit [DecidableEq S] in
/-- The search found the client, and the response is under way. -/
theorem StateOk.respond (h : StateOk cfg s)
    (haddress : Function.Injective cfg.address)
    (hunique : Function.Injective cfg.gid) {call : ResponseCall S} {g n : Nat}
    {ids : List Nat} {delivered : Bool} (hfloor : call.floor ≤ s.dir.generation)
    (hissued : Issued cfg s.clients call.request)
    (hcovers : Covers s.dir (clientCache cfg call.service).filter g n ids)
    (hstep : s.respond t call
      ((clientCache cfg call.service).digest (s.dir.answers ids)) delivered =
        some s') : StateOk cfg s' := by
  obtain ⟨x, hx, rfl⟩ := Option.map_eq_some_iff.mp hstep
  obtain ⟨c, hgid, hpath⟩ := address_of_find h.genuine hcovers hx
  rw [hpath]
  apply (h.sendTo haddress hissued hgid hunique delivered).goto
  show SentOk cfg _ call _
  rw [sendTo_dir]
  refine ⟨hfloor, fun a msg hsent => ?_, fun _ hnone => ?_⟩
  · cases hsent
    exact ⟨rfl, c, hgid, rfl⟩
  · cases hnone

omit [DecidableEq S] in
/-- The search found nobody. -/
theorem not_registered_of_respond (h : StateOk cfg s)
    {call : ResponseCall S} {ids : List Nat} {delivered : Bool}
    (hcovers : Covers s.dir (clientCache cfg call.service).filter call.floor
      s.dir.capacity ids)
    (hstep : s.respond t call
      ((clientCache cfg call.service).digest (s.dir.answers ids)) delivered =
        none) (c : C) (hgid : cfg.gid c = call.request.writerGuid) :
    ¬Registered cfg s.dir call.floor call.service c := by
  intro hreg
  have hmiss := Option.map_eq_none_iff.mp hstep
  rw [← hgid] at hmiss
  exact find_of_registered hcovers h.dir hreg hmiss

omit [DecidableEq C] [DecidableEq S] [DecidableEq T] in
theorem Above.cacheStep {V : Type} {spec : GenerationCache V}
    {d : Directory P} {cache cache' : Cache T V} {pc pc' : CachePc V}
    {floor : Nat} (hfloor : floor ≤ d.generation) (h : Above floor pc)
    (hnot : ∀ g v, pc ≠ .use g v)
    (hstep : cacheStep spec d cache t pc = some (cache', pc')) :
    Above floor pc' := by
  cases pc with
  | idle =>
    cases hstep
    exact hfloor
  | loaded g =>
    simp only [Graph.cacheStep, Option.ite_none_right_eq_some,
      Option.some.injEq, Prod.mk.injEq] at hstep
    obtain ⟨-, -, rfl⟩ := hstep
    exact h
  | compare g =>
    simp only [Graph.cacheStep] at hstep
    split at hstep
    · cases hstep
      exact h
    · cases hstep
      exact h
  | query g scan =>
    cases scan with
    | done ids => cases hstep; exact h
    | peek max i ids => cases hstep; exact h
    | snap max i ids => cases hstep; exact h
  | use g v => exact absurd rfl (hnot g v)

omit [DecidableEq C] in
/-- A step of the cache inside `rmw_send_response`. -/
theorem StateOk.cacheStep (h : StateOk cfg s) {call : ResponseCall S}
    {pc pc' : CachePc (List CachedClient)} {cache' : Cache T (List CachedClient)}
    (hpc : s.threads t = .routing call pc) (hnot : ∀ g v, pc ≠ .use g v)
    (hstep : cacheStep (clientCache cfg call.service) s.dir
      (s.services call.service).cache t pc = some (cache', pc')) :
    StateOk cfg ((s.setService call.service
      { s.services call.service with cache := cache' }).goto t
        (.routing call pc')) := by
  have ht := h.threads t
  rw [hpc] at ht
  obtain ⟨hfloor, hissued, habove, hold⟩ := ht
  obtain ⟨hcache, hnew⟩ := (h.caches call.service).cacheStep
    (fun _ _ hcmp => sendResponse_stale hcmp) h.dir hold hstep
  have hservice : ∀ i, Function.update s.services call.service
      { s.services call.service with cache := cache' } i =
        if i = call.service then
          { s.services call.service with cache := cache' }
        else s.services i := fun i => Function.update_apply _ _ _ i
  refine ⟨h.dir, h.genuine, h.sockets, h.positive, fun i d hd => ?_,
    fun i id hid => ?_, fun i => ?_, fun t' => ?_, h.responses, h.answered⟩
  · change d ∈ (Function.update s.services _ _ i).inbox at hd
    rw [hservice] at hd
    split at hd
    · exact h.requests _ d hd
    · exact h.requests i d hd
  · change id ∈ (Function.update s.services _ _ i).taken at hid
    rw [hservice] at hid
    split at hid
    · exact h.requested _ id hid
    · exact h.requested i id hid
  · show CacheOk _ s.dir (Function.update s.services _ _ i).cache
    rw [hservice]
    split
    · next hi =>
      subst hi
      exact hcache
    · exact h.caches i
  · show ThreadOk cfg _ t' (Function.update s.threads t _ t')
    by_cases htt : t' = t
    · subst htt
      rw [Function.update_self]
      refine ⟨hfloor, hissued, habove.cacheStep hfloor hnot hstep, ?_⟩
      show PcOk _ s.dir (Function.update s.services _ _ call.service).cache t' pc'
      rw [hservice, if_pos rfl]
      exact hnew
    · rw [Function.update_of_ne htt]
      have hother := h.threads t'
      cases hpc' : s.threads t' with
      | idle => trivial
      | fallback call' scan =>
        rw [hpc'] at hother
        exact hother
      | returned call' sent =>
        rw [hpc'] at hother
        exact hother
      | routing call' pc'' =>
        rw [hpc'] at hother
        obtain ⟨hfloor', hissued', habove', hold'⟩ := hother
        refine ⟨hfloor', hissued', habove', ?_⟩
        show PcOk _ s.dir
          (Function.update s.services _ _ call'.service).cache t' pc''
        rw [hservice]
        split
        · next hi =>
          rw [hi] at hold' ⊢
          exact hold.cacheStep_other hstep htt hold'
        · exact hold'

/-- Every step of a thread keeps the invariant. -/
theorem StateOk.responseStep (h : StateOk cfg s)
    (haddress : Function.Injective cfg.address)
    (hunique : Function.Injective cfg.gid) {delivered : Bool}
    (hstep : responseStep cfg s t delivered = some s') : StateOk cfg s' := by
  have ht := h.threads t
  unfold Routing.responseStep at hstep
  split at hstep
  · cases hstep
  · next call g clients hpc =>
    rw [hpc] at ht
    obtain ⟨hfloor, hissued, hg, ids, rfl, -, hcovers⟩ := ht
    cases hrespond : s.respond t call _ delivered with
    | some u =>
      rw [hrespond] at hstep
      cases hstep
      exact h.respond haddress hunique hfloor hissued hcovers hrespond
    | none =>
      rw [hrespond] at hstep
      cases hstep
      exact h.goto ⟨hfloor, hissued, .start h.dir _ _⟩
  · next call pc hnot hpc =>
    obtain ⟨⟨cache', pc'⟩, hcache, rfl⟩ := Option.map_eq_some_iff.mp hstep
    exact h.cacheStep hpc (fun g v heq => hnot g v heq) hcache
  · next call ids hpc =>
    rw [hpc] at ht
    obtain ⟨hfloor, hissued, hcovers⟩ := ht
    cases hrespond : s.respond t call _ delivered with
    | some u =>
      rw [hrespond] at hstep
      cases hstep
      exact h.respond haddress hunique hfloor hissued hcovers hrespond
    | none =>
      rw [hrespond] at hstep
      cases hstep
      refine h.goto ⟨hfloor, nofun, fun _ _ c hgid => ?_⟩
      exact not_registered_of_respond h hcovers hrespond c hgid
  · next call scan hnot hpc =>
    rw [hpc] at ht
    obtain ⟨hfloor, hissued, hscan⟩ := ht
    cases hstep
    exact h.goto ⟨hfloor, hissued, hscan.step h.dir⟩
  · cases hstep
    exact h.goto trivial

/-- A client has sent a request. -/
theorem StateOk.sendRequest (h : StateOk cfg s) (c : C) (dest : Option S)
    (hstep : Routing.step cfg s (.sendRequest c dest) = some s') :
    StateOk cfg s' := by
  have hgrown : Grown s.clients (s.setClient c { s.clients c with
      sequenceNumber := (s.clients c).sequenceNumber + 1 }).clients :=
    grown_setClient (Nat.le_succ _)
  have hclient : StateOk cfg (s.setClient c { s.clients c with
      sequenceNumber := (s.clients c).sequenceNumber + 1 }) := by
    refine h.setClient (Nat.le_succ _) (fun d hd => ?_) fun id hid => ?_
    · exact (h.responses c d hd).grown hgrown
    · exact (h.answered c id hid).grown hgrown
  cases dest with
  | none =>
    cases hstep
    exact hclient
  | some i =>
    cases hstep
    refine hclient.setService rfl (fun d hd => ?_) (h.requested i · · |>.grown hgrown)
    rcases List.mem_append.mp hd with hold | hnew
    · exact (h.requests i d hold).grown hgrown
    · obtain rfl := List.mem_singleton.mp hnew
      refine ⟨c, rfl, h.positive c, ?_⟩
      show (s.clients c).sequenceNumber <
        (Function.update s.clients c _ c).sequenceNumber
      rw [Function.update_self]
      exact Nat.lt_succ_self _

omit [DecidableEq C] [DecidableEq T] in
/-- A service has taken, or dropped, the first message of its socket. -/
theorem StateOk.takeRequest (h : StateOk cfg s) {i : S} {d : Datagram}
    {rest : List Datagram} (hinbox : (s.services i).inbox = d :: rest)
    (ids : List RequestId) (hids : ∀ id ∈ ids, id = d.requestId) :
    StateOk cfg (s.setService i
      { s.services i with
        inbox := rest
        taken := (s.services i).taken ++ ids }) := by
  have hall := h.requests i
  rw [hinbox] at hall
  refine h.setService rfl (fun x hx => hall x (List.mem_cons_of_mem d hx)) ?_
  intro id hid
  rcases List.mem_append.mp hid with hold | hnew
  · exact h.requested i id hold
  · rw [hids id hnew]
    exact hall d List.mem_cons_self

omit [DecidableEq S] [DecidableEq T] in
/-- A client has taken, or dropped, the first message of its socket. -/
theorem StateOk.takeResponse (h : StateOk cfg s) {c : C} {d : Datagram}
    {rest : List Datagram} (hinbox : (s.clients c).inbox = d :: rest)
    (ids : List RequestId) (hids : ∀ id ∈ ids, id = d.requestId) :
    StateOk cfg (s.setClient c
      { s.clients c with
        inbox := rest
        taken := (s.clients c).taken ++ ids }) := by
  have hall := h.responses c
  rw [hinbox] at hall
  have hgrown : Grown s.clients (s.setClient c
      { s.clients c with
        inbox := rest
        taken := (s.clients c).taken ++ ids }).clients :=
    grown_setClient (Nat.le_refl _)
  refine h.setClient (Nat.le_refl _) (fun x hx => ?_) fun id hid => ?_
  · exact (hall x (List.mem_cons_of_mem d hx)).grown hgrown
  · rcases List.mem_append.mp hid with hold | hnew
    · exact (h.answered c id hold).grown hgrown
    · rw [hids id hnew]
      exact (hall d List.mem_cons_self).grown hgrown

/-- Every step keeps the invariant. -/
theorem StateOk.step (haddress : Function.Injective cfg.address)
    (hunique : Function.Injective cfg.gid) {a : Act P C S T}
    (h : StateOk cfg s) (hstep : (machine cfg).step s a = some s') :
    StateOk cfg s' := by
  change Routing.step cfg s a = some s' at hstep
  cases a with
  | mutate a =>
    simp only [Routing.step, Option.ite_none_right_eq_some] at hstep
    obtain ⟨hforeign, hstep⟩ := hstep
    obtain ⟨d, hd, rfl⟩ := Option.map_eq_some_iff.mp hstep
    refine h.mutated (mutated_of_mutate hd) (h.genuine.mutate hd ?_)
    intro i e ha htype
    subst ha
    simp [isForeign, htype] at hforeign
  | bind c =>
    cases hstep
    exact h.setSocket c (some c) (.inr rfl)
  | register c slot =>
    obtain ⟨d, hd, rfl⟩ := Option.map_eq_some_iff.mp hstep
    refine h.mutated (mutated_of_mutate hd) (h.genuine.mutate hd ?_)
    intro i e ha _
    cases ha
    exact ⟨c, rfl⟩
  | close c =>
    cases hstep
    exact h.setSocket c none (.inl rfl)
  | sendRequest c dest => exact h.sendRequest c dest hstep
  | takeRequest i decodes =>
    simp only [Routing.step] at hstep
    split at hstep
    · cases hstep
    · next d rest hinbox =>
      split at hstep
      · cases hstep
        exact h.takeRequest hinbox [d.requestId] fun id hid =>
          List.mem_singleton.mp hid
      · cases hstep
        have hdrop := h.takeRequest hinbox [] nofun
        rw [List.append_nil] at hdrop
        exact hdrop
  | sendResponse t i id serialized =>
    simp only [Routing.step] at hstep
    split at hstep
    · simp only [Option.ite_none_right_eq_some, Option.some.injEq] at hstep
      obtain ⟨htaken, rfl⟩ := hstep
      apply h.goto
      have hissued := h.requested i id htaken
      cases serialized with
      | true =>
        exact ⟨Nat.le_refl _, hissued, trivial, trivial⟩
      | false => exact ⟨Nat.le_refl _, nofun, nofun⟩
    · cases hstep
  | run t delivered => exact h.responseStep haddress hunique hstep
  | takeResponse c decodes =>
    simp only [Routing.step] at hstep
    split at hstep
    · cases hstep
    · next d rest hinbox =>
      split at hstep
      · cases hstep
        exact h.takeResponse hinbox [d.requestId] fun id hid =>
          List.mem_singleton.mp hid
      · cases hstep
        have hdrop := h.takeResponse hinbox [] nofun
        rw [List.append_nil] at hdrop
        exact hdrop

end

/-! ## The guarantee -/

/-- A response is sent to the address of the client whose GID the request
carries, and it carries the id of the request.  A call that has serialized
its response has sent it, if the client was registered under the name of the
service when the call began and still is.  So a client takes responses to its
own requests only. -/
theorem responses_reach_their_client [DecidableEq C] [DecidableEq S]
    [DecidableEq T] (hunique : Function.Injective cfg.gid)
    (haddress : Function.Injective cfg.address) {capacity : Nat}
    {s : State P C S T}
    (h : (machine cfg).Reach (fun _ _ => True) (State.init P T cfg capacity) s) :
    (∀ t call sent, s.threads t = .returned call sent →
      (∀ a msg, sent = some (a, msg) → msg = responseHeader call.request ∧
        ∃ c, cfg.gid c = call.request.writerGuid ∧ a = cfg.address c) ∧
      (call.serialized = true →
        ∀ c, cfg.gid c = call.request.writerGuid →
          Registered cfg s.dir call.floor call.service c →
          sent = some (cfg.address c, responseHeader call.request))) ∧
    ∀ c, ∀ id ∈ (s.clients c).taken, id.writerGuid = cfg.gid c ∧
      1 ≤ id.sequenceNumber ∧
      id.sequenceNumber < (s.clients c).sequenceNumber := by
  have hok : StateOk cfg s :=
    h.invariant (.init T cfg capacity) fun _ _ _ hok _ hstep =>
      hok.step haddress hunique hstep
  refine ⟨fun t call sent hpc => ?_, hok.answered⟩
  have ht := hok.threads t
  rw [hpc] at ht
  refine ⟨ht.addressed, fun hserialized c hgid hreg => ?_⟩
  cases hsent : sent with
  | none => exact absurd hreg (ht.complete hserialized hsent c hgid)
  | some out =>
    obtain ⟨a, msg⟩ := out
    obtain ⟨rfl, c', hgid', rfl⟩ := ht.addressed a msg hsent
    rw [hunique (hgid'.trans hgid.symm)]

/-! ## Two clients of one process -/

/-- The paths of two sockets whose counters differ by `2 ^ 16` are equal when
the clock readings agree. -/
theorem uniqueId_wraps (micros : Nat) :
    uniqueId 65536 micros = uniqueId 0 micros := rfl

/-- Two clients of one process, of one service.  The second one has the
counter `n` of `make_socket_path`. -/
def twoClients (n : UInt32) : Config Nat Bool Unit where
  domain := 0
  gid c := [7, if c then 2 else 1]
  clientService _ := ascii "add".toList
  pid _ := 7
  counter c := if c then n else 0
  micros _ := 5
  rest _ := Field.zero Nat
  serviceName _ := ascii "add".toList

/-- Client `false` registers and sends a request, and the service takes it. -/
def request : List (Act Nat Bool Unit Unit) :=
  [.bind false, .register false 0, .mutate (.widen 0), .mutate (.bumpAdd 0),
    .sendRequest false (some ()), .takeRequest () true]

/-- The service looks for the client in a fresh cache. -/
def search : List (Act Nat Bool Unit Unit) :=
  .sendResponse () () ⟨[7, 1], 1⟩ true :: List.replicate 6 (.run () true)

/-- Client `false` goes away, and client `true` binds its socket. -/
def replace : List (Act Nat Bool Unit Unit) :=
  [.mutate (.remove 0), .mutate (.bumpRemove 0), .close false, .bind true]

set_option maxRecDepth 100000 in
/-- A response that cannot be serialized is not sent, though its client is
registered all the time.  And a response that is sent while its client is
replaced by one with the same path is taken by the other one. -/
theorem response_unsent_and_misrouted :
    (∃ s : State Nat Bool Unit Unit,
      (machine (twoClients 65536)).Reach (fun _ _ => True)
        (State.init Nat Unit (twoClients 65536) 1) s ∧
      ∃ call, s.threads () = .returned call none ∧
        call.request.writerGuid = (twoClients 65536).gid false ∧
        Registered (twoClients 65536) s.dir call.floor call.service false) ∧
    ∃ s : State Nat Bool Unit Unit,
      (machine (twoClients 65536)).Reach (fun _ _ => True)
        (State.init Nat Unit (twoClients 65536) 1) s ∧
      (s.clients true).taken = [⟨(twoClients 65536).gid false, 1⟩] ∧
      (twoClients 65536).gid false ≠ (twoClients 65536).gid true := by
  constructor
  · have hrun : ∃ s, (machine (twoClients 65536)).guardedRun (fun _ _ => True)
        (State.init Nat Unit (twoClients 65536) 1)
        (request ++ [.sendResponse () () ⟨[7, 1], 1⟩ false]) = some s ∧
        s.threads () = .returned ⟨(), ⟨[7, 1], 1⟩, false, 1⟩ none ∧
        s.dir.regs[0]? = some
          ⟨(twoClients 65536).entry false, 0, true, some 1, false, none⟩ :=
      ⟨_, rfl, rfl, rfl⟩
    obtain ⟨s, hrun, hthread, hreg⟩ := hrun
    refine ⟨s, Machine.reach_of_guardedRun hrun, _, hthread, rfl, 0, _, 1,
      hreg, rfl, ⟨?_, ?_, nofun, nofun⟩, rfl, Nat.le_refl 1, rfl⟩
    · intro t ht
      exact Option.some.inj ht
    · intro name hname
      obtain rfl := Option.some.inj hname
      decide
  · exact (machine (twoClients 65536)).exists_reach_of_guardedRun
      (fun _ _ => True) (State.init Nat Unit (twoClients 65536) 1)
      (request ++ search ++ replace ++ [.run () true, .takeResponse true true])
      (fun s => (s.clients true).taken =
        [⟨(twoClients 65536).gid false, 1⟩] ∧
        (twoClients 65536).gid false ≠ (twoClients 65536).gid true) (by decide)

set_option maxRecDepth 100000 in
/-- Clients with different paths: the response arrives. -/
theorem responses_reach_their_client_two :
    ∃ s : State Nat Bool Unit Unit,
      (machine (twoClients 1)).Reach (fun _ _ => True)
        (State.init Nat Unit (twoClients 1) 1) s ∧
      (s.clients false).taken = [⟨[7, 1], 1⟩] ∧
      ∀ c, ∀ id ∈ (s.clients c).taken,
        id.writerGuid = (twoClients 1).gid c ∧ 1 ≤ id.sequenceNumber ∧
          id.sequenceNumber < (s.clients c).sequenceNumber := by
  obtain ⟨s, hreach, htaken⟩ :=
    (machine (twoClients 1)).exists_reach_of_guardedRun (fun _ _ => True)
      (State.init Nat Unit (twoClients 1) 1)
      (request ++ search ++ [.run () true, .takeResponse false true])
      (fun s => (s.clients false).taken = [⟨[7, 1], 1⟩]) (by decide)
  have hunique : Function.Injective (twoClients 1).gid := by
    intro a b
    cases a <;> cases b <;> decide
  have haddress : Function.Injective (twoClients 1).address := by
    intro a b
    cases a <;> cases b <;> decide
  exact ⟨s, hreach, htaken,
    (responses_reach_their_client hunique haddress hreach).2⟩

end RmwUnixSocket.Graph.Routing
