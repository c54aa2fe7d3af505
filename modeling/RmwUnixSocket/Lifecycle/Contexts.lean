import RmwUnixSocket.Lifecycle.Entities
import RmwUnixSocket.Registry.Open

/-!
# Contexts and init options

`rmw_init` with the resources of `registry_open`, the lazy registration of the doorbell in
`rmw_wait`, and `rmw_context_fini`; and the copies that init options own.

The shared memory of the registry itself is not among the resources: it outlives every
process on purpose.  A context holds its descriptor and its mapping.
-/

namespace RmwUnixSocket.Lifecycle

open Custody (Prog Realm held)
open Custody.Prog (Turns query take token free unlink freeOption)
open Registry.Open (REGISTRY_VERSION computeRegistrySize)

variable {mine mine' : Multiset Resource}

/-! ## The registry of a context -/

/-- The outcome of one attempt of `registry_open`. -/
inductive Attempt where
  | opened (fd base : Nat)
  | failed
  | again
  deriving DecidableEq, Repr

/-- The mapping of `registry_open`, and the wait for the creator. -/
def mapRegistry (size fd : Nat) (created : Bool) : Prog Resource Attempt := do
  match ← take (.mapping size) none with
  | none =>
    free (.fd fd)
    return .failed
  | some base =>
    if created then
      return .opened fd base
    else if (← query) = REGISTRY_VERSION then
      return .opened fd base
    else
      let version ← query
      if version ≠ 0 ∧ version ≠ REGISTRY_VERSION then
        free (.mapping size base)
        free (.fd fd)
        return .again
      else
        return .opened fd base

/-- One attempt of `registry_open`. -/
def openAttempt (size : Nat) : Prog Resource Attempt := do
  match ← take .fd none with
  | some fd =>
    -- `ftruncate` of a new object
    if (← query) ≠ 0 then
      free (.fd fd)
      return .failed
    else
      mapRegistry size fd true
  | none =>
    if (← query) = EEXIST then
      match ← take .fd none with
      | none => return .failed
      | some fd =>
        if (← query) ≠ 0 then
          free (.fd fd)
          return .failed
        else if (← query) ≠ size then
          -- an object of another layout
          free (.fd fd)
          return .again
        else
          mapRegistry size fd false
    else
      return .failed

/-- `registry_open`: the descriptor and the mapping, after two attempts at most. -/
def registryOpen (size : Nat) : Prog Resource (Option (Nat × Nat)) := do
  match ← openAttempt size with
  | .opened fd base => return some (fd, base)
  | .failed => return none
  | .again =>
    match ← openAttempt size with
    | .opened fd base => return some (fd, base)
    | .failed => return none
    | .again => return none

/-- `registry_close`. -/
def registryClose (size fd base : Nat) : Prog Resource Unit := do
  free (.mapping size base)
  free (.fd fd)
  return ()

/-- The descriptor and the mapping of the registry. -/
def registry (size : Nat) (r : Option (Nat × Nat)) : Multiset Resource :=
  r.elim 0 fun r => {.mapping size r.2} + {.fd r.1}

def Attempt.owns (size : Nat) : Attempt → Multiset Resource
  | .opened fd base => {.mapping size base} + {.fd fd}
  | .failed => 0
  | .again => 0

theorem mapRegistry_turns (size fd : Nat) (created : Bool) (mine : Multiset Resource) :
    Turns realm (mapRegistry size fd created) ({.fd fd} + mine)
      fun a => a.owns size + mine := by
  have hnone : mine = Attempt.owns size .failed + mine := (zero_add mine).symm
  refine .take (fun _ => rfl) ?_ fun base _ => ?_
  · exact .free (by simp [Resource.isDraw]) rfl (.pure Attempt.failed hnone)
  · have hopened : Turns realm (pure (Attempt.opened fd base))
        ({.mapping size base} + ({.fd fd} + mine)) fun a => a.owns size + mine :=
      .pure _ (add_assoc _ _ _).symm
    show Turns realm (if created = true then _ else _) _ _
    split
    · exact hopened
    · refine .query fun seen => ?_
      split
      · exact hopened
      · refine .query fun version => ?_
        split
        · refine .free (by simp [Resource.isDraw]) rfl ?_
          exact .free (by simp [Resource.isDraw]) rfl (.pure Attempt.again hnone)
        · exact hopened

theorem openAttempt_turns (size : Nat) (mine : Multiset Resource) :
    Turns realm (openAttempt size) mine fun a => a.owns size + mine := by
  have hnone : mine = Attempt.owns size .failed + mine := (zero_add mine).symm
  refine .take (fun _ => rfl) ?_ fun fd _ => ?_
  · refine .query fun errno => ?_
    split
    · refine .take (fun _ => rfl) (.pure Attempt.failed hnone) fun fd _ => ?_
      refine .query fun err => ?_
      split
      · exact .free (by simp [Resource.isDraw]) rfl (.pure Attempt.failed hnone)
      · refine .query fun fileSize => ?_
        split
        · exact .free (by simp [Resource.isDraw]) rfl (.pure Attempt.again hnone)
        · exact mapRegistry_turns size fd false mine
    · exact .pure Attempt.failed hnone
  · refine .query fun err => ?_
    split
    · exact .free (by simp [Resource.isDraw]) rfl (.pure Attempt.failed hnone)
    · exact mapRegistry_turns size fd true mine

theorem registryOpen_turns (size : Nat) (mine : Multiset Resource) :
    Turns realm (registryOpen size) mine fun r => registry size r + mine := by
  refine (openAttempt_turns size mine).bind fun a => ?_
  cases a with
  | opened fd base => exact .pure _ rfl
  | failed => exact .pure _ rfl
  | again =>
    refine (openAttempt_turns size _).bind fun a => ?_
    rw [Attempt.owns, zero_add]
    cases a with
    | opened fd base => exact .pure _ rfl
    | failed => exact .pure _ rfl
    | again => exact .pure _ rfl

theorem registryClose_turns (size fd base : Nat)
    (hmine : mine' = {.mapping size base} + {.fd fd} + mine) :
    Turns realm (registryClose size fd base) mine' fun _ => mine := by
  have hsplit : mine' = {.mapping size base} + ({.fd fd} + mine) := by rw [hmine, add_assoc]
  refine .free (by simp [Resource.isDraw]) hsplit ?_
  exact .free (by simp [Resource.isDraw]) rfl (.pure () rfl)

/-! ## Contexts -/

/-- `UdsContext`, and the copies in `rmw_context_t`. -/
structure Context where
  data : Nat
  registryFd : Nat
  registryPtr : Nat
  sendSocketFd : Nat
  doorbellPath : Nat
  doorbellFd : Nat
  doorbellIndex : Option Nat
  enclave : Option Nat
  peers : Option Nat
  deriving DecidableEq, Repr

def Context.owns (size : Nat) (c : Context) : Multiset Resource :=
  {.object c.data} + registry size (some (c.registryFd, c.registryPtr)) +
    {.fd c.sendSocketFd} + {.path c.doorbellPath} +
    ({.fd c.doorbellFd} + {.file (.socket c.doorbellPath)}) +
    held (c.doorbellIndex.map (.slot (some (.socket c.doorbellPath)))) +
    held (c.enclave.map .text) + held (c.peers.map .text)

/-- A copy of a string or of an array that may be absent; the outer level is the failure. -/
def copyOptional (present : Bool) : Prog Resource (Option (Option Nat)) :=
  if present then do
    let copy ← take .text none
    return copy.map some
  else return some none

/-- The end of a failing `rmw_init` once the doorbell is bound. -/
def undoInit (size data registryFd registryPtr sendSocketFd path doorbellFd : Nat) :
    Prog Resource (Option Context) := do
  unlink (.file (.socket path))
  free (.fd doorbellFd)
  free (.fd sendSocketFd)
  registryClose size registryFd registryPtr
  free (.object data)
  return none

/-- The copies that `rmw_init` makes last. -/
def copyOptions (size data registryFd registryPtr sendSocketFd path doorbellFd : Nat)
    (enclave peers : Bool) : Prog Resource (Option Context) := do
  match ← copyOptional enclave with
  | none => undoInit size data registryFd registryPtr sendSocketFd path doorbellFd
  | some enclaveCopy =>
    match ← copyOptional peers with
    | none =>
      freeOption (enclaveCopy.map .text)
      undoInit size data registryFd registryPtr sendSocketFd path doorbellFd
    | some peersCopy =>
      return some ⟨data, registryFd, registryPtr, sendSocketFd, path, doorbellFd, none,
        enclaveCopy, peersCopy⟩

/-- `rmw_init`.  The sweeps over dead processes are left to their own model. -/
def rmwInit (size : Nat) (enclave peers : Bool) : Prog Resource (Option Context) := do
  match ← take .object none with
  | none => return none
  | some data =>
    -- `generate_context_id` may throw, and the socket directory may be unusable
    if (← query) ≠ 0 then
      free (.object data)
      return none
    else if (← query) ≠ 0 then
      free (.object data)
      return none
    else
      match ← registryOpen size with
      | none =>
        free (.object data)
        return none
      | some (registryFd, registryPtr) =>
        match ← createSendSocket with
        | none =>
          registryClose size registryFd registryPtr
          free (.object data)
          return none
        | some sendSocketFd =>
          let path ← token .path
          match ← createBoundSocket path with
          | none =>
            free (.fd sendSocketFd)
            registryClose size registryFd registryPtr
            free (.object data)
            return none
          | some doorbellFd =>
            copyOptions size data registryFd registryPtr sendSocketFd path doorbellFd
              enclave peers

/-- The registration of the doorbell by `rmw_wait`, which is tried again later when the
registry is full. -/
def registerDoorbell (c : Context) : Prog Resource Context := do
  match c.doorbellIndex with
  | some _ => return c
  | none =>
    let index ← registryAdd (some (.socket c.doorbellPath))
    return { c with doorbellIndex := index }

/-- The slot of the doorbell goes with its socket file; without a slot the file is
unlinked. -/
def removeDoorbell (c : Context) : Prog Resource Unit := do
  match c.doorbellIndex with
  | some index => registryRemove (some (.socket c.doorbellPath)) index
  | none =>
    unlink (.file (.socket c.doorbellPath))
    return ()

/-- `rmw_context_fini`. -/
def rmwContextFini (size : Nat) (c : Context) : Prog Resource Unit := do
  removeDoorbell c
  free (.fd c.doorbellFd)
  free (.fd c.sendSocketFd)
  registryClose size c.registryFd c.registryPtr
  free (.object c.data)
  freeOption (c.enclave.map .text)
  freeOption (c.peers.map .text)
  return ()

/-- What an optional context records. -/
def context (size : Nat) (c : Option Context) : Multiset Resource :=
  c.elim 0 (Context.owns size)

theorem context_some (size : Nat) (c : Context) : context size (some c) = c.owns size := rfl

theorem registry_some (size fd base : Nat) :
    registry size (some (fd, base)) = {.mapping size base} + {.fd fd} := rfl

/-- What an optional copy records. -/
def copied (copy : Option (Option Nat)) : Multiset Resource :=
  held (copy.join.map .text)

theorem copyOptional_turns (present : Bool) (mine : Multiset Resource) :
    Turns realm (copyOptional present) mine fun copy => copied copy + mine := by
  unfold copyOptional
  split
  · refine .take (fun _ => rfl) (.pure none (zero_add mine).symm) fun n _ => ?_
    exact .pure (some (some n)) rfl
  · exact .pure (some none) (zero_add mine).symm

/-- What `rmw_init` has once the doorbell is bound. -/
def bindings (size data registryFd registryPtr sendSocketFd path doorbellFd : Nat) :
    Multiset Resource :=
  {.fd doorbellFd} + {.file (.socket path)} + ({.path path} + ({.fd sendSocketFd} +
    (registry size (some (registryFd, registryPtr)) + {.object data})))

section Init

variable (size data registryFd registryPtr sendSocketFd path doorbellFd : Nat)

theorem undoInit_turns :
    Turns realm (undoInit size data registryFd registryPtr sendSocketFd path doorbellFd)
      (bindings size data registryFd registryPtr sendSocketFd path doorbellFd)
      (context size) := by
  have hsplit : bindings size data registryFd registryPtr sendSocketFd path doorbellFd =
      {.file (.socket path)} + ({.fd doorbellFd} + ({.fd sendSocketFd} +
        ({.mapping size registryPtr} + {.fd registryFd} + ({.object data} +
          ({.path path} + 0))))) := by
    rw [bindings, registry_some]
    abel
  refine .unlink (t := .path path) (by simp [Resource.isDraw]) rfl (by simp) hsplit ?_
  refine .free (by simp [Resource.isDraw]) rfl ?_
  refine .free (by simp [Resource.isDraw]) rfl ?_
  refine (registryClose_turns size registryFd registryPtr rfl).bind fun _ => ?_
  refine .free (by simp [Resource.isDraw]) rfl ?_
  exact .drop (by simp [Resource.isDraw]) rfl (.pure none rfl)

theorem copyOptions_turns (enclave peers : Bool) :
    Turns realm
      (copyOptions size data registryFd registryPtr sendSocketFd path doorbellFd enclave peers)
      (bindings size data registryFd registryPtr sendSocketFd path doorbellFd)
      (context size) := by
  refine (copyOptional_turns enclave _).bind fun enclaveCopy => ?_
  cases enclaveCopy with
  | none =>
    rw [copied, Option.join_none, Option.map_none, Custody.held_none, zero_add]
    exact undoInit_turns size data registryFd registryPtr sendSocketFd path doorbellFd
  | some enclaveCopy =>
    refine (copyOptional_turns peers _).bind fun peersCopy => ?_
    cases peersCopy with
    | none =>
      rw [copied, Option.join_none, Option.map_none, Custody.held_none, zero_add]
      exact .freeOption (by simp [Resource.isDraw]) rfl
        (undoInit_turns size data registryFd registryPtr sendSocketFd path doorbellFd)
    | some peersCopy =>
      refine .pure _ ?_
      rw [context_some, Context.owns, bindings, copied, copied, Option.join_some,
        Option.join_some, Option.map_none, Custody.held_none]
      abel

end Init

theorem rmwInit_turns (size : Nat) (enclave peers : Bool) :
    Turns realm (rmwInit size enclave peers) 0 (context size) := by
  refine .take (fun _ => rfl) (.pure none rfl) fun data _ => ?_
  have hfree : Turns realm (free (.object data) >>= fun _ => pure (none : Option Context))
      ({.object data} + 0) (context size) :=
    .free (by simp [Resource.isDraw]) rfl (.pure none rfl)
  refine .query fun threw => ?_
  split
  · exact hfree
  refine .query fun unusable => ?_
  split
  · exact hfree
  refine (registryOpen_turns size _).bind fun r => ?_
  cases r with
  | none =>
    rw [registry, Option.elim_none, zero_add]
    exact hfree
  | some r =>
    obtain ⟨registryFd, registryPtr⟩ := r
    rw [registry_some]
    have hclose : Turns realm
        (registryClose size registryFd registryPtr >>= fun _ => free (.object data) >>= fun _ =>
          pure (none : Option Context))
        ({.mapping size registryPtr} + {.fd registryFd} + ({.object data} + 0))
        (context size) :=
      (registryClose_turns size registryFd registryPtr rfl).bind fun _ => hfree
    refine (createSendSocket_turns _).bind fun sendSocketFd => ?_
    cases sendSocketFd with
    | none =>
      rw [Option.map_none, Custody.held_none, zero_add]
      exact hclose
    | some sendSocketFd =>
      refine .token (fun _ => rfl) fun path _ => ?_
      refine (createBoundSocket_turns (by simp) (by simp)).bind fun doorbellFd => ?_
      cases doorbellFd with
      | none =>
        rw [bound_none, zero_add]
        refine .drop (by simp [Resource.isDraw]) rfl ?_
        exact .free (by simp [Resource.isDraw]) rfl hclose
      | some doorbellFd =>
        have hcopy := copyOptions_turns size data registryFd registryPtr sendSocketFd path
          doorbellFd enclave peers
        rw [bindings, registry_some] at hcopy
        rw [bound_some, Option.map_some, Custody.held_some, add_zero]
        exact hcopy

theorem registerDoorbell_turns (size : Nat) (c : Context) :
    Turns realm (registerDoorbell c) (c.owns size) (Context.owns size) := by
  unfold registerDoorbell
  split
  · exact .pure _ rfl
  · rename_i hindex
    refine (registryAdd_turns _).bind fun index => .pure _ ?_
    rw [Context.owns, Context.owns, hindex, Option.map_none, Custody.held_none]
    abel

theorem removeDoorbell_turns (c : Context) (mine : Multiset Resource)
    (hgone : .file (.socket c.doorbellPath) ∉ mine)
    (hmine : mine' = held (c.doorbellIndex.map (.slot (some (.socket c.doorbellPath)))) +
      {.file (.socket c.doorbellPath)} + ({.path c.doorbellPath} + mine)) :
    Turns realm (removeDoorbell c) mine' fun _ => {.path c.doorbellPath} + mine := by
  have hleft : .file (.socket c.doorbellPath) ∉
      ({.path c.doorbellPath} + mine : Multiset Resource) := by
    simp [hgone]
  unfold removeDoorbell
  split
  · rename_i index hindex
    rw [hindex] at hmine
    exact registryRemove_turns index rfl (t := .path c.doorbellPath) (by simp) hleft (.inr rfl)
      hmine
  · rename_i hindex
    rw [hindex, Option.map_none, Custody.held_none, zero_add] at hmine
    exact .unlink (t := .path c.doorbellPath) (by simp [Resource.isDraw]) rfl (by simp) hmine
      (.pure () rfl)

theorem rmwContextFini_turns (size : Nat) (c : Context) :
    Turns realm (rmwContextFini size c) (c.owns size) fun _ => 0 := by
  have hsplit : c.owns size =
      held (c.doorbellIndex.map (.slot (some (.socket c.doorbellPath)))) +
        {.file (.socket c.doorbellPath)} + ({.path c.doorbellPath} + ({.fd c.doorbellFd} +
        ({.fd c.sendSocketFd} + ({.mapping size c.registryPtr} + {.fd c.registryFd} +
        ({.object c.data} + (held (c.enclave.map .text) + (held (c.peers.map .text) +
          0))))))) := by
    rw [Context.owns, registry_some]
    abel
  refine (removeDoorbell_turns c _ ?_ hsplit).bind fun _ => ?_
  · cases c.enclave <;> cases c.peers <;> simp
  · refine .drop (by simp [Resource.isDraw]) rfl ?_
    refine .free (by simp [Resource.isDraw]) rfl ?_
    refine .free (by simp [Resource.isDraw]) rfl ?_
    refine (registryClose_turns size c.registryFd c.registryPtr rfl).bind fun _ => ?_
    refine .free (by simp [Resource.isDraw]) rfl ?_
    refine .freeOption (by simp [Resource.isDraw]) rfl ?_
    exact .freeOption (by simp [Resource.isDraw]) rfl (.pure () rfl)

theorem Context.owns_closed (size : Nat) (c : Context) : realm.Closed (c.owns size) := by
  unfold Context.owns
  rw [registry_some]
  cases c.doorbellIndex <;> cases c.enclave <;> cases c.peers <;>
    simp [Realm.Closed, Resource.guard]

/-! ## Init options -/

/-- The copies that `rmw_init_options_t` owns. -/
structure InitOptions where
  securityRoot : Option Nat
  peers : Option Nat
  enclave : Option Nat
  deriving DecidableEq, Repr

def InitOptions.owns (o : InitOptions) : Multiset Resource :=
  held (o.securityRoot.map .text) + held (o.peers.map .text) + held (o.enclave.map .text)

/-- `rmw_init_options_copy`, from options that have the given parts.  The copy of the
enclave is not checked. -/
def rmwInitOptionsCopy (securityRoot peers enclave : Bool) :
    Prog Resource (Option InitOptions) := do
  match ← copyOptional securityRoot with
  | none => return none
  | some rootCopy =>
    match ← copyOptional peers with
    | none =>
      freeOption (rootCopy.map .text)
      return none
    | some peersCopy =>
      let enclaveCopy ← copyOptional enclave
      return some ⟨rootCopy, peersCopy, enclaveCopy.join⟩

/-- `rmw_init_options_fini`. -/
def rmwInitOptionsFini (o : InitOptions) : Prog Resource Unit := do
  freeOption (o.enclave.map .text)
  freeOption (o.securityRoot.map .text)
  freeOption (o.peers.map .text)
  return ()

/-- What optional init options record. -/
def initOptions (o : Option InitOptions) : Multiset Resource :=
  o.elim 0 InitOptions.owns

theorem initOptions_some (o : InitOptions) : initOptions (some o) = o.owns := rfl

theorem rmwInitOptionsCopy_turns (securityRoot peers enclave : Bool) :
    Turns realm (rmwInitOptionsCopy securityRoot peers enclave) 0 initOptions := by
  refine (copyOptional_turns securityRoot 0).bind fun rootCopy => ?_
  cases rootCopy with
  | none => exact .pure none rfl
  | some rootCopy =>
    refine (copyOptional_turns peers _).bind fun peersCopy => ?_
    cases peersCopy with
    | none =>
      rw [copied, Option.join_none, Option.map_none, Custody.held_none, zero_add]
      exact .freeOption (by simp [Resource.isDraw]) rfl (.pure none rfl)
    | some peersCopy =>
      refine (copyOptional_turns enclave _).bind fun enclaveCopy => .pure _ ?_
      rw [initOptions_some, InitOptions.owns, copied, copied, copied, Option.join_some,
        Option.join_some]
      abel

theorem rmwInitOptionsFini_turns (o : InitOptions) :
    Turns realm (rmwInitOptionsFini o) o.owns fun _ => 0 := by
  have hsplit : o.owns = held (o.enclave.map .text) +
      (held (o.securityRoot.map .text) + (held (o.peers.map .text) + 0)) := by
    rw [InitOptions.owns]
    abel
  refine .freeOption (by simp [Resource.isDraw]) hsplit ?_
  refine .freeOption (by simp [Resource.isDraw]) rfl ?_
  exact .freeOption (by simp [Resource.isDraw]) rfl (.pure () rfl)

end RmwUnixSocket.Lifecycle
