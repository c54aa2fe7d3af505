import Mathlib.Tactic.Abel
import RmwUnixSocket.Lib.Custody

/-!
# The resources of the transport

What `transport.cpp`, `shm_transport.cpp` and `registry.cpp` take from the system and give
back: file descriptors, mappings, registry slots, and files by name.  Every system call
that can fail does so on some branch.

The functions are the ones of the source, with only what matters for custody: which
resource is taken, which one is given back, and in which order.  A function answers with
the fields of the source that record a resource.

Each has a rule beside it, stated with `Turns`: what it needs, what it leaves, whatever
else its caller has.
-/

namespace RmwUnixSocket.Lifecycle

open Custody (Prog Realm held)
open Custody.Prog (Turns query take make free unlink freeOption)

/-! ## Resources -/

/-- The names of files: sockets, latched rings, and segments of a payload ring or of a
durable payload. -/
inductive Name where
  | socket (path : Nat)
  | latched (owner : Nat)
  | segment (owner id : Nat)
  deriving DecidableEq, Repr

/-- What the code takes and gives back.  An `object` is made by `new`, a `handle` by
`rmw_*_allocate` and a `text` by `rcutils_strdup`; each has its own way back.  A `path` is
a draw of `make_socket_path`, an `owner` a draw of `g_shm_owner_counter`. -/
inductive Resource where
  | object (p : Nat)
  | handle (p : Nat)
  | text (p : Nat)
  | fd (n : Nat)
  | mapping (size base : Nat)
  | slot (path : Option Name) (i : Nat)
  | path (id : Nat)
  | owner (id : Nat)
  | file (name : Name)
  deriving DecidableEq, Repr

namespace Resource

/-- The draw that a name is made from. -/
def guard : Resource → Option Resource
  | .file (.socket p) => some (.path p)
  | .file (.latched o) => some (.owner o)
  | .file (.segment o _) => some (.owner o)
  | _ => none

/-- A draw. -/
def isDraw : Resource → Bool
  | .path _ => true
  | .owner _ => true
  | _ => false

theorem isDraw_of_guard {r t : Resource} (h : r.guard = some t) : t.isDraw = true := by
  cases r with
  | file name => cases name <;> cases h <;> rfl
  | _ => cases h

theorem guard_of_isDraw {t : Resource} (h : t.isDraw = true) : t.guard = none := by
  cases t <;> first | rfl | cases h

end Resource

/-- Files are names, and their draws guard them. -/
def realm : Realm Resource where
  guard := Resource.guard
  bare h := Resource.guard_of_isDraw (Resource.isDraw_of_guard h)

@[simp]
theorem realm_guard (r : Resource) : realm.guard r = r.guard := rfl

@[simp]
theorem realm_isToken (r : Resource) : realm.IsToken r ↔ r.isDraw = true := by
  constructor
  · rintro ⟨q, hq⟩
    exact Resource.isDraw_of_guard hq
  · intro h
    cases r with
    | path id => exact ⟨.file (.socket id), rfl⟩
    | owner id => exact ⟨.file (.latched id), rfl⟩
    | _ => cases h

variable {A : Type} {mine mine' : Multiset Resource} {result : A → Multiset Resource}

/-! ## Sockets -/

/-- `create_bound_socket`. -/
def createBoundSocket (path : Nat) : Prog Resource (Option Nat) := do
  match ← take .fd none with
  | none => return none
  | some fd =>
    -- a stale file of that name goes first
    unlink (.file (.socket path))
    if ← make (.file (.socket path)) then
      return some fd
    else
      free (.fd fd)
      return none

/-- `close_socket`. -/
def closeSocket (fd : Option Nat) (path : Option Nat) : Prog Resource Unit := do
  freeOption (fd.map .fd)
  match path with
  | none => return ()
  | some path =>
    unlink (.file (.socket path))
    return ()

/-- `create_send_socket`. -/
def createSendSocket : Prog Resource (Option Nat) := do
  let fd ← take .fd none
  return fd

/-- The socket, and the file that it is bound to. -/
def bound (path : Nat) (fd : Option Nat) : Multiset Resource :=
  fd.elim 0 fun fd => {.fd fd} + {.file (.socket path)}

theorem bound_none (path : Nat) : bound path none = 0 := rfl

theorem bound_some (path fd : Nat) :
    bound path (some fd) = {.fd fd} + {.file (.socket path)} := rfl

theorem createBoundSocket_turns {path : Nat} (hpath : .path path ∈ mine)
    (hgone : .file (.socket path) ∉ mine) :
    Turns realm (createBoundSocket path) mine fun fd => bound path fd + mine := by
  refine .take (fun _ => rfl) ?_ fun fd _ => ?_
  · exact .pure none (zero_add mine).symm
  · refine .unlinkGone (by simp [Resource.isDraw]) rfl (t := .path path) (by simp [hpath])
      (by simp [hgone]) ?_
    refine .make rfl (t := .path path) (by simp [hpath]) ?_ ?_
    · refine .free (by simp [Resource.isDraw]) rfl ?_
      exact .pure none (zero_add mine).symm
    · refine .pure (some fd) ?_
      show {.file (.socket path)} + ({.fd fd} + mine) = {.fd fd} + {.file (.socket path)} + mine
      abel

theorem createSendSocket_turns (mine : Multiset Resource) :
    Turns realm createSendSocket mine fun fd => held (fd.map .fd) + mine :=
  .takeOption (fun _ => rfl) fun fd => .pure fd rfl

/-- The file of a name may be there or gone. -/
def Perhaps (name : Name) (there : Multiset Resource) : Prop :=
  there = 0 ∨ there = {.file name}

theorem unlink_turns {name : Name} {t : Resource} {there : Multiset Resource}
    {f : Unit → Prog Resource A} (hguard : (Resource.file name).guard = some t)
    (ht : t ∈ mine) (hgone : .file name ∉ mine) (hthere : Perhaps name there)
    (hmine : mine' = there + mine) (hnext : Turns realm (f ()) mine result) :
    Turns realm (unlink (.file name) >>= f) mine' result := by
  rcases hthere with rfl | rfl
  · rw [hmine, zero_add]
    exact .unlinkGone (by simp [Resource.isDraw]) hguard ht hgone hnext
  · exact .unlink (by simp [Resource.isDraw]) hguard ht hmine hnext

theorem closeSocket_turns (fd : Option Nat) {path : Nat} {there : Multiset Resource}
    (hpath : .path path ∈ mine) (hgone : .file (.socket path) ∉ mine)
    (hthere : Perhaps (.socket path) there)
    (hmine : mine' = held (fd.map .fd) + there + mine) :
    Turns realm (closeSocket fd (some path)) mine' fun _ => mine := by
  have hsplit : mine' = held (fd.map .fd) + (there + mine) := by rw [hmine, add_assoc]
  refine .freeOption ?_ hsplit ?_
  · simp [Resource.isDraw]
  · exact unlink_turns rfl hpath hgone hthere rfl (.pure () rfl)

/-! ## The registry -/

/-- `registry_add`, with the path of the entry: the index of its slot, or nothing when the
registry is full. -/
def registryAdd (path : Option Name) : Prog Resource (Option Nat) := do
  let index ← take (.slot path) none
  return index

/-- `registry_remove` of an entry with that path, and `teardown_slot`, which unlinks the
path. -/
def registryRemove (path : Option Name) (index : Nat) : Prog Resource Unit := do
  free (.slot path index)
  match path with
  | none => return ()
  | some name =>
    unlink (.file name)
    return ()

theorem registryAdd_turns (path : Option Name) :
    Turns realm (registryAdd path) mine
      fun index => held (index.map (.slot path)) + mine := by
  refine .take (fun _ => rfl) ?_ fun index _ => .pure (some index) rfl
  exact .pure none (zero_add mine).symm

theorem registryRemove_turns (index : Nat) {t : Resource} {name : Name}
    {there : Multiset Resource} (hguard : (Resource.file name).guard = some t)
    (ht : t ∈ mine) (hgone : .file name ∉ mine) (hthere : Perhaps name there)
    (hmine : mine' = {.slot (some name) index} + there + mine) :
    Turns realm (registryRemove (some name) index) mine' fun _ => mine := by
  have hsplit : mine' = {.slot (some name) index} + (there + mine) := by
    rw [hmine, add_assoc]
  refine .free (by simp [Resource.isDraw]) hsplit ?_
  exact unlink_turns hguard ht hgone hthere rfl (.pure () rfl)

theorem registryRemove_turns_none (index : Nat)
    (hmine : mine' = {.slot none index} + mine) :
    Turns realm (registryRemove none index) mine' fun _ => mine :=
  .free (by simp [Resource.isDraw]) hmine (.pure () rfl)

/-! ## Files in shared memory -/

/-- `errno` of a name that exists. -/
def EEXIST : Nat := 17

/-- `errno` of a name that does not exist. -/
def ENOENT : Nat := 2

/-- `shm_open` with `O_CREAT | O_EXCL`, and once more behind `shm_unlink` when the name
exists. -/
def openExcl (name : Name) : Prog Resource (Option Nat) := do
  match ← take .fd (some (.file name)) with
  | some fd => return some fd
  | none =>
    if (← query) = EEXIST then
      unlink (.file name)
      let fd ← take .fd (some (.file name))
      return fd
    else
      return none

/-- An open file and its name. -/
def opened (name : Name) (fd : Option Nat) : Multiset Resource :=
  fd.elim 0 fun fd => {.fd fd} + {.file name}

theorem opened_some (name : Name) (fd : Nat) :
    opened name (some fd) = {.fd fd} + {.file name} := rfl

theorem openExcl_turns {name : Name} {t : Resource}
    (hguard : (Resource.file name).guard = some t) (ht : t ∈ mine)
    (hgone : .file name ∉ mine) :
    Turns realm (openExcl name) mine fun fd => opened name fd + mine := by
  refine .takeNamed (t := t) (fun _ => rfl) hguard ht ?_ fun fd => .pure (some fd) rfl
  refine .query fun errno => ?_
  by_cases herrno : errno = EEXIST
  · rw [if_pos herrno]
    refine .unlinkGone (by simp [Resource.isDraw]) hguard ht hgone ?_
    refine .takeNamed (t := t) (fun _ => rfl) hguard ht ?_ fun fd => .pure (some fd) rfl
    exact .pure none (zero_add mine).symm
  · rw [if_neg herrno]
    exact .pure none (zero_add mine).symm

/-- A segment that could not be set up: its descriptor is closed, its name goes. -/
def abandon (fd : Nat) (name : Name) : Prog Resource Unit := do
  free (.fd fd)
  unlink (.file name)
  return ()

theorem abandon_turns {fd : Nat} {name : Name} {t : Resource}
    (hguard : (Resource.file name).guard = some t) (ht : t ∈ mine)
    (hmine : mine' = {.fd fd} + {.file name} + mine) :
    Turns realm (abandon fd name) mine' fun _ => mine := by
  have hsplit : mine' = {.fd fd} + ({.file name} + mine) := by rw [hmine, add_assoc]
  refine .free (by simp [Resource.isDraw]) hsplit ?_
  exact .unlink (by simp [Resource.isDraw]) hguard ht rfl (.pure () rfl)

end RmwUnixSocket.Lifecycle
