import RmwUnixSocket.Lifecycle.Contexts

/-!
# Nothing leaks and nothing is released twice

All the calls of `Lifecycle/Entities.lean` and `Lifecycle/Contexts.lean` at once.  Any
number of entities are created, used and destroyed, the operations of the calls under way
interleave in any order, and every operation of the system may fail.  A call works on one
entity, and no two calls work on the same one at the same time.

The numbers of descriptors, the addresses of mappings and of memory, and the indices of
slots are handed out again as soon as they are free, so a second `close` would hit a
descriptor that belongs to somebody else.
-/

namespace RmwUnixSocket.Lifecycle

open Custody (Prog Realm held)
open Custody.Prog (Turns)
open Hostile (Key)

/-- The entities of the library. -/
inductive Handle where
  | guardCondition (gc : Simple)
  | waitSet (ws : Simple)
  | node (n : Node)
  | publisher (p : Publisher)
  | subscription (s : Subscription)
  | service (s : Server)
  | client (s : Server)
  | context (c : Context)
  | options (o : InitOptions)
  /-- A thread with its socket that rings doorbells. -/
  | thread (ring : Option Nat)

/-- The calls. -/
inductive Entry where
  | createGuardCondition
  | createWaitSet
  | createNode
  | createPublisher (transientLocal : Bool) (depth : Nat)
  | createSubscription (transientLocal : Bool)
  | createService
  | createClient
  | init (enclave peers : Bool)
  | initOptionsCopy (securityRoot peers enclave : Bool)
  | threadStart
  /-- The destruction of an entity, whatever it is. -/
  | destroy
  /-- A publish, a request or a response with a payload of that size. -/
  | send (payloadSize : Nat)
  | sendLatched (payloadSize : Nat)
  /-- The descriptor of a large payload arrives. -/
  | resolve (key : Key)
  | registerDoorbell
  | ringDoorbells

/-- What a handle records. -/
def Handle.owns (size : Nat) : Handle → Multiset Resource
  | .guardCondition gc => gc.owns
  | .waitSet ws => ws.owns
  | .node n => n.owns
  | .publisher p => p.owns
  | .subscription s => s.owns
  | .service s => s.owns
  | .client s => s.owns
  | .context c => c.owns size
  | .options o => o.owns
  | .thread ring => held (ring.map .fd)

/-- A destruction, which ends without a handle. -/
def destroyed (p : Prog Resource Unit) : Prog Resource (Option Handle) := do
  p
  return none

/-- A use, which ends with the handle. -/
def used {A : Type} (wrap : A → Handle) (p : Prog Resource A) :
    Prog Resource (Option Handle) := do
  let a ← p
  return some (wrap a)

/-- A creation, which ends with a handle or with nothing. -/
def created {A : Type} (wrap : A → Handle) (p : Prog Resource (Option A)) :
    Prog Resource (Option Handle) := do
  let a ← p
  return a.map wrap

/-- The creations. -/
def create (size : Nat) : Entry → Prog Resource (Option Handle)
  | .createGuardCondition => created .guardCondition rmwCreateGuardCondition
  | .createWaitSet => created .waitSet rmwCreateWaitSet
  | .createNode => created .node rmwCreateNode
  | .createPublisher transientLocal depth =>
    created .publisher (rmwCreatePublisher transientLocal depth)
  | .createSubscription transientLocal =>
    created .subscription (rmwCreateSubscription transientLocal)
  | .createService => created .service rmwCreateService
  | .createClient => created .client rmwCreateClient
  | .init enclave peers => created .context (rmwInit size enclave peers)
  | .initOptionsCopy securityRoot peers enclave =>
    created .options (rmwInitOptionsCopy securityRoot peers enclave)
  | .threadStart => return some (.thread none)
  | _ => return none

/-- The destructions. -/
def destroy (size : Nat) : Handle → Prog Resource Unit
  | .guardCondition gc => rmwDestroyGuardCondition gc
  | .waitSet ws => rmwDestroyWaitSet ws
  | .node n => rmwDestroyNode n
  | .publisher p => rmwDestroyPublisher p
  | .subscription s => rmwDestroySubscription s
  | .service s => rmwDestroyService s
  | .client s => rmwDestroyClient s
  | .context c => rmwContextFini size c
  | .options o => rmwInitOptionsFini o
  | .thread ring => threadExit ring

/-- The calls on an entity; a call that does not fit the entity returns at once. -/
def call (page size : Nat) (h : Handle) : Entry → Prog Resource (Option Handle)
  | .destroy => destroyed (destroy size h)
  | .send payloadSize =>
    match h with
    | .publisher p => used .publisher (rmwPublish page p payloadSize)
    | .service s => used .service (stageServer page s payloadSize)
    | .client s => used .client (stageServer page s payloadSize)
    | h => return some h
  | .sendLatched payloadSize =>
    match h with
    | .publisher p => used .publisher (transientLocalPublish page p payloadSize)
    | h => return some h
  | .resolve key =>
    match h with
    | .subscription s => used .subscription (resolveSubscription s key)
    | .service s => used .service (resolveServer s key)
    | .client s => used .client (resolveServer s key)
    | h => return some h
  | .registerDoorbell =>
    match h with
    | .context c => used .context (registerDoorbell c)
    | h => return some h
  | .ringDoorbells =>
    match h with
    | .thread ring => used .thread (ringDoorbells ring)
    | h => return some h
  | _ => return some h

/-- The library over its entities. -/
def api (page size : Nat) : Custody.Api Resource Handle Entry where
  run e h :=
    match h with
    | none => create size e
    | some h => call page size h e
  owns := Handle.owns size

/-- The library, its callers and the system. -/
def machine (page size : Nat) :
    Machine (Custody.State Resource Handle) (Custody.Act Entry) :=
  Custody.machine (api page size)

theorem Handle.owns_closed (size : Nat) (h : Handle) : realm.Closed (h.owns size) := by
  cases h with
  | guardCondition gc => simp [Handle.owns, Simple.owns, Realm.Closed, Resource.guard]
  | waitSet ws => simp [Handle.owns, Simple.owns, Realm.Closed, Resource.guard]
  | node n => simp [Handle.owns, Node.owns, Simple.owns, Realm.Closed, Resource.guard]
  | publisher p =>
    have hslot : realm.Closed {.slot p.tlRing.path p.index} := by
      simp [Realm.Closed, Resource.guard]
    have hsplit : p.owns =
        p.shell + {.slot p.tlRing.path p.index} + p.tlRing.owns + p.shmRing.owns := by
      rw [Publisher.owns, Publisher.shell]
      abel
    show realm.Closed p.owns
    rw [hsplit]
    exact ((p.shell_closed.add hslot).add p.tlRing.owns_closed).add p.shmRing.owns_closed
  | subscription s => exact s.entity.owns_closed.add (mappings_closed s.cache)
  | service s =>
    exact (s.entity.owns_closed.add s.shmRing.owns_closed).add (mappings_closed s.cache)
  | client s =>
    exact (s.entity.owns_closed.add s.shmRing.owns_closed).add (mappings_closed s.cache)
  | context c => exact c.owns_closed size
  | options o =>
    show realm.Closed o.owns
    unfold InitOptions.owns
    cases o.securityRoot <;> cases o.peers <;> cases o.enclave <;>
      simp [Realm.Closed, Resource.guard]
  | thread ring => cases ring <;> simp [Handle.owns, Realm.Closed, Resource.guard]

section Rules

variable {A : Type} {mine : Multiset Resource} {result : A → Multiset Resource}
  (page size : Nat)

theorem destroyed_turns {p : Prog Resource Unit} (h : Turns realm p mine fun _ => 0) :
    Turns realm (destroyed p) mine (api page size).owned :=
  h.bind fun _ => .pure none rfl

theorem used_turns {wrap : A → Handle} {p : Prog Resource A}
    (hwrap : ∀ a, (wrap a).owns size = result a) (h : Turns realm p mine result) :
    Turns realm (used wrap p) mine (api page size).owned :=
  h.bind fun a => .pure _ (hwrap a).symm

theorem created_turns {wrap : A → Handle} {p : Prog Resource (Option A)}
    {owns : Option A → Multiset Resource} (hnone : owns none = 0)
    (hwrap : ∀ a, (wrap a).owns size = owns (some a)) (h : Turns realm p 0 owns) :
    Turns realm (created wrap p) 0 (api page size).owned := by
  refine h.bind fun a => .pure _ ?_
  cases a with
  | none => exact hnone
  | some a => exact (hwrap a).symm

/-- Every creation ends with a handle or with nothing. -/
theorem create_turns (e : Entry) : Turns realm (create size e) 0 (api page size).owned := by
  cases e with
  | createGuardCondition =>
    have h := createSimple_turns 0
    simp only [add_zero] at h
    exact created_turns page size rfl (fun _ => rfl) h
  | createWaitSet =>
    have h := createSimple_turns 0
    simp only [add_zero] at h
    exact created_turns page size rfl (fun _ => rfl) h
  | createNode =>
    have h := rmwCreateNode_turns 0
    simp only [add_zero] at h
    exact created_turns page size rfl (fun _ => rfl) h
  | createPublisher transientLocal depth =>
    exact created_turns page size rfl (fun _ => rfl)
      (rmwCreatePublisher_turns transientLocal depth)
  | createSubscription transientLocal =>
    exact created_turns page size rfl (fun _ => rfl) (rmwCreateSubscription_turns transientLocal)
  | createService => exact created_turns page size rfl (fun _ => rfl) createServer_turns
  | createClient => exact created_turns page size rfl (fun _ => rfl) createServer_turns
  | init enclave peers =>
    exact created_turns page size rfl (fun _ => rfl) (rmwInit_turns size enclave peers)
  | initOptionsCopy securityRoot peers enclave =>
    exact created_turns page size rfl (fun _ => rfl)
      (rmwInitOptionsCopy_turns securityRoot peers enclave)
  | _ => exact .pure _ rfl

/-- Every destruction takes what the handle records. -/
theorem destroy_turns (h : Handle) : Turns realm (destroy size h) (h.owns size) fun _ => 0 := by
  cases h with
  | guardCondition gc => exact destroySimple_turns gc (add_zero _).symm
  | waitSet ws => exact destroySimple_turns ws (add_zero _).symm
  | node n => exact rmwDestroyNode_turns n (add_zero _).symm
  | publisher p => exact rmwDestroyPublisher_turns p
  | subscription s => exact rmwDestroySubscription_turns s
  | service s => exact destroyServer_turns s
  | client s => exact destroyServer_turns s
  | context c => exact rmwContextFini_turns size c
  | options o => exact rmwInitOptionsFini_turns o
  | thread ring => exact threadExit_turns ring

/-- Every call on a handle ends with what the handle records. -/
theorem call_turns (h : Handle) (e : Entry) :
    Turns realm (call page size h e) (h.owns size) (api page size).owned := by
  have hback : Turns realm (pure (some h)) (h.owns size) (api page size).owned := .pure _ rfl
  cases e with
  | destroy => exact destroyed_turns page size (destroy_turns size h)
  | send payloadSize =>
    cases h with
    | publisher p => exact used_turns page size (fun _ => rfl) (rmwPublish_turns page p payloadSize)
    | service s => exact used_turns page size (fun _ => rfl) (stageServer_turns page s payloadSize)
    | client s => exact used_turns page size (fun _ => rfl) (stageServer_turns page s payloadSize)
    | _ => exact hback
  | sendLatched payloadSize =>
    cases h with
    | publisher p =>
      exact used_turns page size (fun _ => rfl) (transientLocalPublish_turns page p payloadSize)
    | _ => exact hback
  | resolve key =>
    cases h with
    | subscription s => exact used_turns page size (fun _ => rfl) (resolveSubscription_turns s key)
    | service s => exact used_turns page size (fun _ => rfl) (resolveServer_turns s key)
    | client s => exact used_turns page size (fun _ => rfl) (resolveServer_turns s key)
    | _ => exact hback
  | registerDoorbell =>
    cases h with
    | context c => exact used_turns page size (fun _ => rfl) (registerDoorbell_turns size c)
    | _ => exact hback
  | ringDoorbells =>
    cases h with
    | thread ring => exact used_turns page size (fun _ => rfl) (ringDoorbells_turns ring)
    | _ => exact hback
  | _ => exact hback

/-- Every call keeps custody. -/
theorem api_sound : (api page size).Sound realm where
  closed := Handle.owns_closed size
  turns e h := by
    cases h with
    | none => exact create_turns page size e
    | some h => exact call_turns page size h e

end Rules

end RmwUnixSocket.Lifecycle
