import Mathlib.Data.Fintype.Basic
import RmwUnixSocket.Lib.Machine

/-!
# Who initialises the registry

`registry_open` of `registry.cpp`: any number of calls on one domain race to
create, check, map and initialise the shared-memory object behind one name.
A step is one system call, one load of the version, or one half of
`initialize_header` (the `memset` and the store of the version).

All calls that return a descriptor have mapped the same object, and it was
initialised once, unless it was valid at the start
(`registry_open_one_object`).  This holds as long as no step meets one of the
three windows that the code leaves open.

* `SizedStat`: an object is not measured between its creation and its
  `ftruncate`.  The size 0 looks like a stale layout
  (`registry_open_two_objects`).
* `UnlinksVetted`: a name is not removed after it has been given to another
  object.
* `TakesOverAlone`: a spin does not run out while another call is still
  initialising the object, or after that call has finished.

`created` and `inits` are ghosts.  They count the objects and the calls of
`initialize_header` on each.
-/

namespace RmwUnixSocket.Registry.Open

/-! ## The shared-memory object -/

def REGISTRY_MAX_ENTRIES : Nat := 32768

def REGISTRY_VERSION : Nat := 4

/-- `sizeof(RegistryEntrySlot)`. -/
def slotSize : Nat := 1168

/-- `headerSize` is `sizeof(RegistryHeader)`, which depends on the C library. -/
def computeRegistrySize (headerSize : Nat) : Nat :=
  headerSize + REGISTRY_MAX_ENTRIES * slotSize

theorem computeRegistrySize_ne_zero (headerSize : Nat) :
    computeRegistrySize headerSize ≠ 0 := by
  simp [computeRegistrySize, REGISTRY_MAX_ENTRIES, slotSize]

/-- What `registry_open` looks at: the size of the file and the version
word. -/
structure ShmObject where
  size : Nat
  version : Nat
  deriving DecidableEq

/-! ## The calls -/

/-- The program counters of one call.  `attempt` counts the turns of the
retry loop, and `obj` is the object behind the call's descriptor. -/
inductive Pc
  | start
  | excl (attempt : Nat)
  | truncate (obj : Nat)
  | undo (obj : Nat)
  | plain (attempt : Nat)
  | stat (attempt obj : Nat)
  | map (attempt obj : Nat) (weCreated : Bool)
  | spin (attempt obj : Nat)
  | expired (attempt obj : Nat)
  | unlinkStale (attempt obj : Nat)
  | initZero (obj : Nat)
  | initPublish (obj : Nat)
  | returned (fd : Option Nat)
  deriving DecidableEq

/-- The name, the objects it has had, and the calls. -/
structure State (C : Type) where
  name : Option Nat
  objects : Nat → ShmObject
  created : Nat
  inits : Nat → Nat
  calls : C → Pc

namespace State

variable {C : Type}

/-- No call has started.  The object 0 is the file that was there. -/
def init (C : Type) (file : Option ShmObject) : State C where
  name := file.map fun _ => 0
  objects
    | 0 => file.getD { size := 0, version := 0 }
    | _ => { size := 0, version := 0 }
  created := 1
  inits := fun _ => 0
  calls := fun _ => .start

variable [DecidableEq C]

/-- A call goes on. -/
def goto (s : State C) (c : C) (pc : Pc) : State C :=
  { s with calls := Function.update s.calls c pc }

/-- `shm_open` makes a new object of size 0. -/
def create (s : State C) : State C :=
  { s with
    name := some s.created,
    objects := Function.update s.objects s.created { size := 0, version := 0 },
    created := s.created + 1 }

/-- `shm_unlink`. -/
def unlink (s : State C) : State C :=
  { s with name := none }

/-- `ftruncate`. -/
def resize (s : State C) (obj size : Nat) : State C :=
  { s with
    objects := Function.update s.objects obj
      { s.objects obj with size := size } }

/-- A store to the version word. -/
def setVersion (s : State C) (obj version : Nat) : State C :=
  { s with
    objects := Function.update s.objects obj
      { s.objects obj with version := version } }

/-- The start of `initialize_header`: the `memset`. -/
def zero (s : State C) (obj : Nat) : State C :=
  { s.setVersion obj 0 with
    inits := Function.update s.inits obj (s.inits obj + 1) }

end State

/-- The `continue` of the retry loop. -/
def retry (attempt : Nat) : Pc :=
  if attempt + 1 < 2 then .excl (attempt + 1) else .returned none

/-- One step of a call.  `ok` is the outcome of the system call, or it says
that the spin goes on. -/
structure Act (C : Type) where
  call : C
  ok : Bool

section Step

variable {C : Type} [DecidableEq C]

/-- One step of call `c`. -/
def step (headerSize : Nat) (s : State C) (a : Act C) : Option (State C) :=
  let c := a.call
  match s.calls c with
  | .start => some (s.goto c (.excl 0))
  | .excl attempt =>
    if a.ok then
      match s.name with
      | none => some (s.create.goto c (.truncate s.created))
      | some _ => some (s.goto c (.plain attempt))
    else some (s.goto c (.returned none))
  | .truncate obj =>
    if a.ok then
      some ((s.resize obj (computeRegistrySize headerSize)).goto c
        (.map 0 obj true))
    else some (s.goto c (.undo obj))
  | .undo _ => some (s.unlink.goto c (.returned none))
  | .plain attempt =>
    match s.name with
    | some obj =>
      if a.ok then some (s.goto c (.stat attempt obj))
      else some (s.goto c (.returned none))
    | none => some (s.goto c (.returned none))
  | .stat attempt obj =>
    if a.ok then
      if (s.objects obj).size = computeRegistrySize headerSize then
        some (s.goto c (.map attempt obj false))
      else some (s.goto c (.unlinkStale attempt obj))
    else some (s.goto c (.returned none))
  | .map attempt obj weCreated =>
    if a.ok then
      some (s.goto c (if weCreated then .initZero obj else .spin attempt obj))
    else some (s.goto c (.returned none))
  | .spin attempt obj =>
    if (s.objects obj).version = REGISTRY_VERSION then
      some (s.goto c (.returned (some obj)))
    else some (s.goto c (if a.ok then .spin attempt obj else .expired attempt obj))
  | .expired attempt obj =>
    if (s.objects obj).version ≠ 0 ∧ (s.objects obj).version ≠ REGISTRY_VERSION
    then some (s.goto c (.unlinkStale attempt obj))
    else some (s.goto c (.initZero obj))
  | .unlinkStale attempt _ => some (s.unlink.goto c (retry attempt))
  | .initZero obj => some ((s.zero obj).goto c (.initPublish obj))
  | .initPublish obj =>
    some ((s.setVersion obj REGISTRY_VERSION).goto c (.returned (some obj)))
  | .returned _ => none

end Step

/-- The calls on one domain as a machine. -/
def machine (C : Type) [DecidableEq C] (headerSize : Nat) :
    Machine (State C) (Act C) where
  step := step headerSize

/-! ## What a program counter says about the objects -/

namespace Pc

/-- The object that the call has created, or that has passed its size
check. -/
def uses : Pc → Option Nat
  | truncate obj => some obj
  | undo obj => some obj
  | map _ obj _ => some obj
  | spin _ obj => some obj
  | expired _ obj => some obj
  | initZero obj => some obj
  | initPublish obj => some obj
  | returned fd => fd
  | _ => none

/-- The object that the call has created and not sized. -/
def unsized : Pc → Option Nat
  | truncate obj => some obj
  | undo obj => some obj
  | _ => none

/-- The object that the call is to initialise. -/
def prepares : Pc → Option Nat
  | truncate obj => some obj
  | undo obj => some obj
  | map _ obj true => some obj
  | initZero obj => some obj
  | _ => none

/-- The object that the call initialises, from its creation or the take-over
to the store of the version. -/
def initialises : Pc → Option Nat
  | initPublish obj => some obj
  | pc => pc.prepares

/-- The object that the call is about to unlink as stale. -/
def condemns : Pc → Option Nat
  | unlinkStale _ obj => some obj
  | _ => none

/-- The object whose name the call is about to remove. -/
def unlinks : Pc → Option Nat
  | undo obj => some obj
  | unlinkStale _ obj => some obj
  | _ => none

/-- The object that the call is about to measure. -/
def measures : Pc → Option Nat
  | stat _ obj => some obj
  | _ => none

/-- The object whose spin has run out. -/
def takesOver : Pc → Option Nat
  | expired _ obj => some obj
  | _ => none

end Pc

/-! ## The conditions on a run -/

section Guards

variable {C : Type}

/-- An object that a call has created is not measured before its
`ftruncate`. -/
def SizedStat (headerSize : Nat) (s : State C) (a : Act C) : Prop :=
  ∀ obj ∈ (s.calls a.call).measures, obj ≠ 0 →
    (s.objects obj).size = computeRegistrySize headerSize

/-- The name is free or still that of the object that is to go. -/
def UnlinksVetted (s : State C) (a : Act C) : Prop :=
  ∀ obj ∈ (s.calls a.call).unlinks, ∀ other ∈ s.name, other = obj

/-- When a spin has run out, no other call initialises the object, and the
object is not ready. -/
def TakesOverAlone (s : State C) (a : Act C) : Prop :=
  ∀ obj ∈ (s.calls a.call).takesOver,
    (s.objects obj).version ≠ REGISTRY_VERSION ∧
      ∀ d, (s.calls d).initialises ≠ some obj

/-- The runs that stay out of the three windows. -/
def OpenOk (headerSize : Nat) (s : State C) (a : Act C) : Prop :=
  SizedStat headerSize s a ∧ UnlinksVetted s a ∧ TakesOverAlone s a

instance [Fintype C] (headerSize : Nat) (s : State C) (a : Act C) :
    Decidable (OpenOk headerSize s a) :=
  inferInstanceAs (Decidable ((∀ _ ∈ _, _ → _) ∧ (∀ _ ∈ _, ∀ _ ∈ _, _) ∧
    ∀ _ ∈ _, _))

end Guards

/-! ## The invariant -/

section Invariant

variable {C : Type}

/-- The object has the version word of another layout. -/
def State.Stale (s : State C) (obj : Nat) : Prop :=
  (s.objects obj).version ≠ 0 ∧ (s.objects obj).version ≠ REGISTRY_VERSION

/-- An object whose name is gone is stale or has the wrong size. -/
def State.Traced (headerSize : Nat) (s : State C) (obj : Nat) : Prop :=
  s.name = some obj ∨ s.Stale obj ∨
    (s.objects obj).size ≠ computeRegistrySize headerSize

/-- What the program counter of a call says about the objects. -/
structure CallOk (headerSize : Nat) (s : State C) (pc : Pc) : Prop where
  used : ∀ obj, pc.uses = some obj →
    obj < s.created ∧ (s.name = some obj ∨ s.Stale obj)
  measured : ∀ obj, pc.measures = some obj →
    obj < s.created ∧ s.Traced headerSize obj
  sized : ∀ obj, pc.uses = some obj → pc.unsized = some obj ∨
    (s.objects obj).size = computeRegistrySize headerSize
  unsized : ∀ obj, pc.unsized = some obj → obj ≠ 0 ∧ (s.objects obj).size = 0
  condemned : ∀ obj, pc.condemns = some obj → obj = 0 ∧
    ((s.objects 0).size ≠ computeRegistrySize headerSize ∨ s.Stale 0)
  prepared : ∀ obj, pc.prepares = some obj →
    (s.objects obj).version = 0 ∧ s.inits obj = 0
  zeroed : ∀ obj, pc = .initPublish obj →
    (s.objects obj).version = 0 ∧ s.inits obj = 1
  done : ∀ obj, pc = .returned (some obj) →
    (s.objects obj).version = REGISTRY_VERSION

/-- How often an object that nobody initialises has been initialised.
`ready` says that the first file had the right version word. -/
def State.initsDue (s : State C) (ready : Bool) (obj : Nat) : Nat :=
  if (s.objects obj).version = REGISTRY_VERSION ∧ ¬(obj = 0 ∧ ready = true)
  then 1 else 0

/-- The invariant of the calls. -/
structure Inv (headerSize : Nat) (ready : Bool) (s : State C) : Prop where
  calls : ∀ c, CallOk headerSize s (s.calls c)
  named : ∀ obj, s.name = some obj → obj < s.created
  created : 0 < s.created
  unborn : ∀ obj, s.created ≤ obj → s.inits obj = 0
  foreign : ∀ obj, s.Stale obj → obj = 0
  kept : ready = true → (s.objects 0).version = REGISTRY_VERSION
  alone : ∀ c d obj, (s.calls c).initialises = some obj →
    (s.calls d).initialises = some obj → c = d
  settled : ∀ obj, (∀ c, (s.calls c).initialises ≠ some obj) →
    s.inits obj = s.initsDue ready obj

/-- The first file has the right version word. -/
def readyFile (file : Option ShmObject) : Bool :=
  file.any fun f => f.version == REGISTRY_VERSION

theorem Inv.init (headerSize : Nat) (file : Option ShmObject) :
    Inv headerSize (readyFile file) (State.init C file) where
  calls _ := ⟨nofun, nofun, nofun, nofun, nofun, nofun, nofun, nofun⟩
  named obj h := by
    obtain ⟨f, -, rfl⟩ := Option.map_eq_some_iff.mp h
    exact Nat.one_pos
  created := Nat.one_pos
  unborn _ _ := rfl
  foreign obj h := by
    cases obj with
    | zero => rfl
    | succ n => exact absurd rfl h.1
  kept h := by
    cases file with
    | none => cases h
    | some f => exact beq_iff_eq.mp h
  alone := nofun
  settled obj _ := by
    refine (if_neg ?_).symm
    rintro ⟨hversion, hfirst⟩
    cases obj with
    | zero =>
      refine hfirst ⟨rfl, ?_⟩
      cases file with
      | none => cases hversion
      | some f => exact beq_iff_eq.mpr hversion
    | succ n => cases hversion

variable {headerSize : Nat} {ready : Bool} {s t : State C} {pc : Pc}

/-- A call that has no object. -/
theorem CallOk.of_free (huses : pc.uses = none) (hmeasures : pc.measures = none)
    (hcondemns : pc.condemns = none) : CallOk headerSize s pc := by
  cases pc with
  | stat attempt obj => cases hmeasures
  | unlinkStale attempt obj => cases hcondemns
  | _ =>
    cases huses <;>
      exact ⟨nofun, nofun, nofun, nofun, nofun, nofun, nofun, nofun⟩

/-- What a step of another call must leave in place. -/
theorem CallOk.frame (h : CallOk headerSize s pc)
    (hcreated : s.created ≤ t.created)
    (hname : ∀ obj, pc.uses = some obj → s.name = some obj →
      t.name = some obj ∨ t.Stale obj)
    (htraced : ∀ obj < s.created, pc.measures = some obj →
      s.Traced headerSize obj → t.Traced headerSize obj)
    (hstale : ∀ obj < s.created, s.Stale obj → t.Stale obj)
    (hsize : ∀ obj < s.created, pc.uses = some obj ∨ obj = 0 →
      (t.objects obj).size = (s.objects obj).size)
    (hinit : ∀ obj, pc.initialises = some obj →
      (t.objects obj).version = (s.objects obj).version ∧
        t.inits obj = s.inits obj)
    (hdone : ∀ obj < s.created, (s.objects obj).version = REGISTRY_VERSION →
      (t.objects obj).version = REGISTRY_VERSION) (hpos : 0 < s.created) :
    CallOk headerSize t pc where
  used obj hobj := by
    obtain ⟨hlt, hnamed | hother⟩ := h.used obj hobj
    · exact ⟨hlt.trans_le hcreated, hname obj hobj hnamed⟩
    · exact ⟨hlt.trans_le hcreated, .inr (hstale obj hlt hother)⟩
  measured obj hobj := by
    obtain ⟨hlt, htr⟩ := h.measured obj hobj
    exact ⟨hlt.trans_le hcreated, htraced obj hlt hobj htr⟩
  sized obj hobj := by
    rw [hsize obj (h.used obj hobj).1 (.inl hobj)]
    exact h.sized obj hobj
  unsized obj hobj := by
    have huses : pc.uses = some obj := by
      cases pc <;> first | exact hobj | cases hobj
    rw [hsize obj (h.used obj huses).1 (.inl huses)]
    exact h.unsized obj hobj
  condemned obj hobj := by
    obtain ⟨hzero, hwhy⟩ := h.condemned obj hobj
    rw [hsize 0 hpos (.inr rfl)]
    exact ⟨hzero, hwhy.imp_right (hstale 0 hpos)⟩
  prepared obj hobj := by
    have hinits : pc.initialises = some obj := by
      cases pc <;> first | exact hobj | cases hobj
    rw [(hinit obj hinits).1, (hinit obj hinits).2]
    exact h.prepared obj hobj
  zeroed obj hobj := by
    have hinits : pc.initialises = some obj := by rw [hobj]; rfl
    rw [(hinit obj hinits).1, (hinit obj hinits).2]
    exact h.zeroed obj hobj
  done obj hobj :=
    hdone obj (h.used obj (by rw [hobj]; rfl)).1 (h.done obj hobj)

/-- Only a call that has the object initialises it. -/
theorem Pc.uses_of_initialises {obj : Nat} (h : pc.initialises = some obj) :
    pc.uses = some obj := by
  cases pc with
  | map attempt obj weCreated => cases weCreated <;> first | exact h | cases h
  | _ => first | exact h | cases h

/-- Nobody else has passed the size check of an object that its creator has
not sized. -/
theorem Inv.uses_ne_of_unsized (h : Inv headerSize ready s) {c : C} {obj : Nat}
    (hobj : (s.calls c).unsized = some obj) {d : C} (hd : d ≠ c) :
    (s.calls d).uses ≠ some obj := by
  have hinits : ∀ e, (s.calls e).unsized = some obj →
      (s.calls e).initialises = some obj := by
    intro e he
    cases hpc : s.calls e <;> rw [hpc] at he <;> first | exact he | cases he
  intro huses
  rcases (h.calls d).sized obj huses with hunsized | hsize
  · exact hd (h.alone d c obj (hinits d hunsized) (hinits c hobj))
  · rw [((h.calls c).unsized obj hobj).2] at hsize
    exact computeRegistrySize_ne_zero headerSize hsize.symm

/-- The version word of an object that a call initialises changes from 0. -/
theorem Inv.frame_version (h : Inv headerSize ready s) {c : C} {obj : Nat}
    (version n : Nat)
    (hinits : (s.calls c).initialises = some obj)
    (hzero : (s.objects obj).version = 0) {d : C} (hd : d ≠ c) :
    CallOk headerSize
      { s.setVersion obj version with inits := Function.update s.inits obj n }
      (s.calls d) := by
  have hold : ∀ other, other ≠ obj →
      (s.setVersion obj version).objects other = s.objects other :=
    fun other hother => Function.update_of_ne hother ..
  have hself : (s.setVersion obj version).objects obj =
      { s.objects obj with version := version } := Function.update_self ..
  have hstale : ∀ other, s.Stale other →
      (s.setVersion obj version).Stale other := by
    intro other hst
    rw [State.Stale, hold other]
    · exact hst
    · rintro rfl
      exact hst.1 hzero
  have hsize : ∀ other, ((s.setVersion obj version).objects other).size =
      (s.objects other).size := by
    intro other
    by_cases hother : other = obj
    · rw [hother, hself]
    · rw [hold other hother]
  refine (h.calls d).frame le_rfl (fun other _ hnamed => .inl hnamed)
    (fun other _ _ htr => ?_) (fun other _ hst => hstale other hst)
    (fun other _ _ => hsize other) (fun other hother => ?_)
    (fun other _ hv => ?_) h.created
  · rcases htr with hnamed | hst | hwrong
    · exact .inl hnamed
    · exact .inr (.inl (hstale other hst))
    · exact .inr (.inr (by rwa [← hsize other] at hwrong))
  · have hne : other ≠ obj := by
      rintro rfl
      exact hd (h.alone d c other hother hinits)
    exact ⟨congrArg ShmObject.version (hold other hne),
      Function.update_of_ne hne ..⟩
  · have hne : other ≠ obj := by
      rintro rfl
      rw [hzero] at hv
      cases hv
    exact (congrArg ShmObject.version (hold other hne)).trans hv

variable [DecidableEq C] {c : C}

/-- A step of call `c` that changes the shared state from `s` to `t`. -/
theorem Inv.of_step (h : Inv headerSize ready s) (hcalls : t.calls = s.calls)
    (hothers : ∀ d, d ≠ c → CallOk headerSize t (s.calls d))
    (hok : CallOk headerSize t pc)
    (hnamed : ∀ obj, t.name = some obj → obj < t.created)
    (hcreated : 0 < t.created)
    (hunborn : ∀ obj, t.created ≤ obj → t.inits obj = 0) (hforeign : ∀ obj, t.Stale obj → obj = 0)
    (hready : ready = true → (t.objects 0).version = REGISTRY_VERSION)
    (halone : ∀ obj d, d ≠ c → pc.initialises = some obj →
      (s.calls d).initialises ≠ some obj)
    (hsettled : ∀ obj, pc.initialises ≠ some obj →
      (∀ d, d ≠ c → (s.calls d).initialises ≠ some obj) →
      t.inits obj = t.initsDue ready obj) :
    Inv headerSize ready (t.goto c pc) := by
  have hself : (t.goto c pc).calls c = pc := Function.update_self ..
  have hother : ∀ d, d ≠ c → (t.goto c pc).calls d = s.calls d := by
    intro d hd
    rw [← hcalls]
    exact Function.update_of_ne hd ..
  refine ⟨fun d => ?_, hnamed, hcreated, hunborn, hforeign, hready,
    fun d e obj hd he => ?_, fun obj hnone => ?_⟩
  · by_cases hd : d = c
    · subst hd
      rw [hself]
      exact ⟨hok.used, hok.measured, hok.sized, hok.unsized, hok.condemned,
        hok.prepared, hok.zeroed, hok.done⟩
    · rw [hother d hd]
      have hd' := hothers d hd
      exact ⟨hd'.used, hd'.measured, hd'.sized, hd'.unsized, hd'.condemned,
        hd'.prepared, hd'.zeroed, hd'.done⟩
  · by_cases hdc : d = c <;> by_cases hec : e = c
    · rw [hdc, hec]
    · rw [hdc, hself] at hd
      rw [hother e hec] at he
      exact absurd he (halone obj e hec hd)
    · rw [hec, hself] at he
      rw [hother d hdc] at hd
      exact absurd hd (halone obj d hdc he)
    · rw [hother d hdc] at hd
      rw [hother e hec] at he
      exact h.alone d e obj hd he
  · refine hsettled obj (hself ▸ hnone c) fun d hd => ?_
    rw [← hother d hd]
    exact hnone d

/-- A call that gives up an object has not initialised it. -/
theorem Inv.settled_of_leave (h : Inv headerSize ready s) (c : C) (pc : Pc)
    (hleave : ∀ obj, (s.calls c).initialises = some obj →
      pc.initialises = some obj ∨ (s.calls c).prepares = some obj) (obj : Nat)
    (hpc : pc.initialises ≠ some obj)
    (hothers : ∀ d, d ≠ c → (s.calls d).initialises ≠ some obj) :
    s.inits obj = s.initsDue ready obj := by
  by_cases hc : (s.calls c).initialises = some obj
  · rcases hleave obj hc with hkeep | hprep
    · exact absurd hkeep hpc
    · obtain ⟨hversion, hinits⟩ := (h.calls c).prepared obj hprep
      rw [hinits, State.initsDue, hversion]
      rfl
  · refine h.settled obj fun d => ?_
    by_cases hd : d = c
    · rwa [hd]
    · exact hothers d hd

/-- A step that changes no object and no name. -/
theorem Inv.stay (h : Inv headerSize ready s) (hok : CallOk headerSize s pc)
    (halone : ∀ obj d, d ≠ c → pc.initialises = some obj →
      (s.calls d).initialises ≠ some obj)
    (hleave : ∀ obj, (s.calls c).initialises = some obj →
      pc.initialises = some obj ∨ (s.calls c).prepares = some obj) :
    Inv headerSize ready (s.goto c pc) :=
  h.of_step rfl (fun d _ => h.calls d) hok h.named h.created h.unborn
    h.foreign h.kept halone (h.settled_of_leave c pc hleave)

/-- A call that goes on without an object. -/
theorem Inv.leave (h : Inv headerSize ready s) (huses : pc.uses = none)
    (hmeasures : pc.measures = none) (hcondemns : pc.condemns = none)
    (hleave : ∀ obj, (s.calls c).initialises = some obj →
      (s.calls c).prepares = some obj) :
    Inv headerSize ready (s.goto c pc) := by
  refine h.stay (.of_free huses hmeasures hcondemns)
    (fun obj d _ hpc => ?_) fun obj hobj => .inr (hleave obj hobj)
  rw [Pc.uses_of_initialises hpc] at huses
  cases huses

/-- The removal of a name that is free or still that of the object that is to
go. -/
theorem Inv.unlink (h : Inv headerSize ready s) (obj : Nat)
    (hname : ∀ other, s.name = some other → other = obj)
    (hgone : s.Stale obj ∨
      (s.objects obj).size ≠ computeRegistrySize headerSize)
    (hfree : ∀ d, d ≠ c → (s.calls d).uses = some obj → s.Stale obj)
    (huses : pc.uses = none) (hmeasures : pc.measures = none)
    (hcondemns : pc.condemns = none)
    (hleave : ∀ obj, (s.calls c).initialises = some obj →
      (s.calls c).prepares = some obj) :
    Inv headerSize ready (s.unlink.goto c pc) := by
  refine h.of_step rfl (fun d hd => ?_) (.of_free huses hmeasures hcondemns)
    nofun h.created h.unborn h.foreign h.kept (fun obj d _ hpc => ?_)
    fun obj hpc hothers => ?_
  · refine (h.calls d).frame le_rfl (fun other hother hnamed => ?_)
      (fun other _ _ htr => ?_) (fun _ _ hst => hst) (fun _ _ _ => rfl)
      (fun _ _ => ⟨rfl, rfl⟩) (fun _ _ hv => hv) h.created
    · obtain rfl := hname other hnamed
      exact .inr (hfree d hd hother)
    · rcases htr with hnamed | hrest
      · obtain rfl := hname other hnamed
        exact .inr hgone
      · exact .inr hrest
  · rw [Pc.uses_of_initialises hpc] at huses
    cases huses
  · exact h.settled_of_leave c pc (fun obj hobj => .inr (hleave obj hobj)) obj
      hpc hothers

/-- A call creates the object. -/
theorem Inv.create (h : Inv headerSize ready s) {attempt : Nat}
    (hpc : s.calls c = .excl attempt) (hname : s.name = none) :
    Inv headerSize ready (s.create.goto c (.truncate s.created)) := by
  have hold : ∀ obj, obj ≠ s.created → s.create.objects obj = s.objects obj :=
    fun obj hobj => Function.update_of_ne hobj ..
  have hnew : s.create.objects s.created = { size := 0, version := 0 } :=
    Function.update_self ..
  refine h.of_step rfl (fun d _ => ?_) ⟨?_, nofun, ?_, ?_, nofun, ?_, nofun,
    nofun⟩ ?_ (Nat.succ_pos _)
    (fun obj hle => h.unborn obj (Nat.le_of_succ_le hle)) (fun obj hst => ?_) (fun hr => ?_)
    (fun obj d _ hobj hd => ?_) fun obj hobj hothers => ?_
  · refine (h.calls d).frame (Nat.le_succ _) (fun obj _ hnamed => ?_)
      (fun obj hlt _ htr => ?_) (fun obj hlt hst => ?_)
      (fun obj hlt _ => by rw [hold obj hlt.ne]) (fun obj hobj => ?_)
      (fun obj hlt hv => by rw [hold obj hlt.ne]; exact hv) h.created
    · rw [hname] at hnamed
      cases hnamed
    · rcases htr with hnamed | hrest
      · rw [hname] at hnamed
        cases hnamed
      · rw [State.Traced, State.Stale, hold obj hlt.ne]
        exact .inr hrest
    · rw [State.Stale, hold obj hlt.ne]
      exact hst
    · rw [hold obj
        ((h.calls d).used obj (Pc.uses_of_initialises hobj)).1.ne]
      exact ⟨rfl, rfl⟩
  · rintro obj ⟨⟩
    exact ⟨Nat.lt_succ_self _, .inl rfl⟩
  · rintro obj ⟨⟩
    exact .inl rfl
  · rintro obj ⟨⟩
    rw [hnew]
    exact ⟨h.created.ne', rfl⟩
  · rintro obj ⟨⟩
    rw [hnew]
    exact ⟨rfl, h.unborn _ le_rfl⟩
  · rintro obj ⟨⟩
    exact Nat.lt_succ_self _
  · by_cases hobj : obj = s.created
    · subst hobj
      rw [State.Stale, hnew] at hst
      exact absurd rfl hst.1
    · refine h.foreign obj ?_
      rwa [State.Stale, hold obj hobj] at hst
  · rw [hold 0 h.created.ne]
    exact h.kept hr
  · cases hobj
    exact absurd ((h.calls d).used _ (Pc.uses_of_initialises hd)).1
      (lt_irrefl _)
  · have hne : obj ≠ s.created := fun heq => hobj (by rw [heq]; rfl)
    have hsame : s.create.initsDue ready obj = s.initsDue ready obj := by
      rw [State.initsDue, hold obj hne]
      rfl
    rw [hsame]
    exact h.settled_of_leave c (.excl attempt)
      (by rw [hpc]; nofun) obj nofun hothers

/-- The creator sizes its object. -/
theorem Inv.resize (h : Inv headerSize ready s) {obj : Nat}
    (hpc : s.calls c = .truncate obj) :
    Inv headerSize ready
      ((s.resize obj (computeRegistrySize headerSize)).goto c
        (.map 0 obj true)) := by
  have hc := h.calls c
  rw [hpc] at hc
  obtain ⟨hlt, hnamed⟩ := hc.used obj rfl
  obtain ⟨hne, hsize⟩ := hc.unsized obj rfl
  have hname : s.name = some obj :=
    hnamed.resolve_right fun hst => hne (h.foreign obj hst)
  have hold : ∀ other, other ≠ obj →
      (s.resize obj (computeRegistrySize headerSize)).objects other =
        s.objects other := fun other hother => Function.update_of_ne hother ..
  have hself : (s.resize obj (computeRegistrySize headerSize)).objects obj =
      { s.objects obj with size := computeRegistrySize headerSize } :=
    Function.update_self ..
  have hversion : ∀ other,
      ((s.resize obj (computeRegistrySize headerSize)).objects other).version =
        (s.objects other).version := by
    intro other
    by_cases hother : other = obj
    · rw [hother, hself]
    · rw [hold other hother]
  have hstale : ∀ other,
      (s.resize obj (computeRegistrySize headerSize)).Stale other ↔
        s.Stale other := fun other => by
    rw [State.Stale, hversion other, State.Stale]
  refine h.of_step rfl (fun d hd => ?_) ⟨?_, nofun, ?_, nofun, nofun, ?_,
    nofun, nofun⟩ h.named h.created h.unborn
    (fun other hst => h.foreign other ((hstale other).mp hst))
    (fun hr => ?_) (fun other d hd hother => ?_) fun other hother hothers => ?_
  · refine (h.calls d).frame le_rfl (fun other _ hnamed => .inl hnamed)
      (fun other _ _ htr => ?_) (fun other _ hst => (hstale other).mpr hst)
      (fun other _ huses => ?_) (fun other _ => ⟨hversion other, rfl⟩)
      (fun other _ hv => (hversion other).trans hv) h.created
    · by_cases hother : other = obj
      · exact .inl (hother ▸ hname)
      · rw [State.Traced, hstale, hold other hother]
        exact htr
    · rw [hold other]
      rintro rfl
      rcases huses with huses | hzero
      · exact h.uses_ne_of_unsized (c := c) (by rw [hpc]; rfl) hd huses
      · exact hne hzero
  · rintro _ ⟨⟩
    exact ⟨hlt, .inl hname⟩
  · rintro _ ⟨⟩
    exact .inr (by rw [hself])
  · rintro _ ⟨⟩
    rw [hversion]
    exact hc.prepared obj rfl
  · rw [hversion]
    exact h.kept hr
  · cases hother
    intro hinits
    exact hd (h.alone d c obj hinits (by rw [hpc]; rfl))
  · rw [State.initsDue, hversion]
    exact h.settled_of_leave c (.map 0 obj true)
      (by rw [hpc]; exact fun _ => .inl) other hother hothers

/-- The `memset` of `initialize_header`. -/
theorem Inv.zero (h : Inv headerSize ready s) {obj : Nat}
    (hpc : s.calls c = .initZero obj) :
    Inv headerSize ready ((s.zero obj).goto c (.initPublish obj)) := by
  have hc := h.calls c
  rw [hpc] at hc
  have hinits : (s.calls c).initialises = some obj := by rw [hpc]; rfl
  obtain ⟨hlt, hnamed⟩ := hc.used obj rfl
  obtain ⟨hzero, hcount⟩ := hc.prepared obj rfl
  have hobjects : (s.zero obj).objects = s.objects := by
    show Function.update s.objects obj { s.objects obj with version := 0 } = _
    rw [← hzero]
    exact Function.update_eq_self ..
  have hself : (s.zero obj).inits obj = 1 := by
    show Function.update s.inits obj (s.inits obj + 1) obj = 1
    rw [Function.update_self, hcount]
  refine h.of_step rfl (fun d hd => h.frame_version _ _ hinits hzero hd) ⟨?_, nofun,
    ?_, nofun, nofun, nofun, ?_, nofun⟩ h.named h.created
    (fun other hle => ?_) (fun other hst => ?_) (fun hr => ?_)
    (fun other d hd hother => ?_) fun other hother hothers => ?_
  · rintro _ ⟨⟩
    rw [State.Stale, hobjects]
    exact ⟨hlt, hnamed⟩
  · rintro _ ⟨⟩
    rw [hobjects]
    exact hc.sized obj rfl
  · rintro _ ⟨⟩
    rw [hobjects]
    exact ⟨hzero, hself⟩
  · exact (Function.update_of_ne (hlt.trans_le hle).ne' ..).trans
      (h.unborn other hle)
  · rw [State.Stale, hobjects] at hst
    exact h.foreign other hst
  · rw [hobjects]
    exact h.kept hr
  · cases hother
    exact fun hd' => hd (h.alone d c obj hd' hinits)
  · have hne : other ≠ obj := fun heq => hother (by rw [heq]; rfl)
    rw [State.initsDue, hobjects]
    exact (Function.update_of_ne hne ..).trans
      (h.settled_of_leave c (.initPublish obj)
        (by rw [hpc]; exact fun _ => .inl) other hother hothers)

/-- The store of the version that ends `initialize_header`. -/
theorem Inv.publish (h : Inv headerSize ready s) {obj : Nat}
    (hpc : s.calls c = .initPublish obj) :
    Inv headerSize ready
      ((s.setVersion obj REGISTRY_VERSION).goto c (.returned (some obj))) := by
  have hc := h.calls c
  rw [hpc] at hc
  have hinits : (s.calls c).initialises = some obj := by rw [hpc]; rfl
  obtain ⟨hlt, hnamed⟩ := hc.used obj rfl
  obtain ⟨hzero, hcount⟩ := hc.zeroed obj rfl
  have hname : s.name = some obj :=
    hnamed.resolve_right fun hst => hst.1 hzero
  have hold : ∀ other, other ≠ obj →
      (s.setVersion obj REGISTRY_VERSION).objects other = s.objects other :=
    fun other hother => Function.update_of_ne hother ..
  have hself : (s.setVersion obj REGISTRY_VERSION).objects obj =
      { s.objects obj with version := REGISTRY_VERSION } :=
    Function.update_self ..
  have hfirst : ¬(obj = 0 ∧ ready = true) := by
    rintro ⟨rfl, hr⟩
    have := h.kept hr
    rw [hzero] at this
    cases this
  refine h.of_step rfl (fun d hd => ?_) ⟨?_, nofun, ?_, nofun, nofun, nofun,
    nofun, ?_⟩ h.named h.created h.unborn (fun other hst => ?_) (fun hr => ?_)
    nofun fun other _ hothers => ?_
  · have hframe := h.frame_version REGISTRY_VERSION (s.inits obj) hinits hzero hd
    rwa [Function.update_eq_self] at hframe
  · rintro _ ⟨⟩
    exact ⟨hlt, .inl hname⟩
  · rintro _ ⟨⟩
    rw [hself]
    exact hc.sized obj rfl
  · rintro _ ⟨⟩
    rw [hself]
  · by_cases hother : other = obj
    · subst hother
      rw [State.Stale, hself] at hst
      exact absurd rfl hst.2
    · rw [State.Stale, hold other hother] at hst
      exact h.foreign other hst
  · rw [hold 0 fun heq => hfirst ⟨heq.symm, hr⟩]
    exact h.kept hr
  · by_cases hother : other = obj
    · subst hother
      rw [State.initsDue, hself]
      exact hcount.trans (if_pos ⟨rfl, hfirst⟩).symm
    · rw [State.initsDue, hold other hother]
      refine h.settled other fun d => ?_
      by_cases hd : d = c
      · rw [hd, hinits]
        exact fun heq => hother (Option.some.inj heq).symm
      · exact hothers d hd

/-- Every step that stays out of the three windows keeps the invariant. -/
theorem Inv.step (h : Inv headerSize ready s) {a : Act C}
    (hok : OpenOk headerSize s a) (hstep : Open.step headerSize s a = some t) :
    Inv headerSize ready t := by
  obtain ⟨c, ok⟩ := a
  obtain ⟨hstat, hunlink, htake⟩ := hok
  have hc := h.calls c
  unfold Open.step at hstep
  simp only [SizedStat, UnlinksVetted, TakesOverAlone] at hstep hstat hunlink htake
  split at hstep <;> rename_i hpc <;> rw [hpc] at hc hstat hunlink htake
  · -- start
    cases hstep
    exact h.leave rfl rfl rfl (by rw [hpc]; nofun)
  · -- excl
    split at hstep
    · split at hstep <;> cases hstep
      · rename_i hname
        exact h.create hpc hname
      · exact h.leave rfl rfl rfl (by rw [hpc]; nofun)
    · cases hstep
      exact h.leave rfl rfl rfl (by rw [hpc]; nofun)
  · -- truncate
    rename_i obj
    split at hstep <;> cases hstep
    · exact h.resize hpc
    · refine h.stay ⟨hc.used, hc.measured, hc.sized, hc.unsized, nofun,
        hc.prepared, nofun, nofun⟩ (fun other d hd hother => ?_) ?_
      · exact fun hd' => hd (h.alone d c other hd' (by rw [hpc]; exact hother))
      · rw [hpc]
        exact fun _ => .inl
  · -- undo
    rename_i obj
    cases hstep
    have hsize := (hc.unsized obj rfl).2
    refine h.unlink obj (fun other hother => hunlink obj rfl other hother)
      (.inr ?_) (fun d hd huses => ?_) rfl rfl rfl (by rw [hpc]; exact fun _ => id)
    · rw [hsize]
      exact (computeRegistrySize_ne_zero headerSize).symm
    · exact absurd huses (h.uses_ne_of_unsized (by rw [hpc]; rfl) hd)
  · -- plain
    split at hstep
    · rename_i obj hname
      split at hstep <;> cases hstep
      · refine h.stay ⟨nofun, ?_, nofun, nofun, nofun, nofun, nofun, nofun⟩ nofun
          (by rw [hpc]; nofun)
        rintro _ ⟨⟩
        exact ⟨h.named obj hname, .inl hname⟩
      · exact h.leave rfl rfl rfl (by rw [hpc]; nofun)
    · cases hstep
      exact h.leave rfl rfl rfl (by rw [hpc]; nofun)
  · -- stat
    rename_i attempt obj
    obtain ⟨hlt, htr⟩ := hc.measured obj rfl
    split at hstep
    · split at hstep <;> cases hstep <;> rename_i hsize
      · refine h.stay ⟨?_, nofun, ?_, nofun, nofun, nofun, nofun, nofun⟩ nofun
          (by rw [hpc]; nofun)
        · rintro _ ⟨⟩
          exact ⟨hlt, htr.imp_right fun hor => hor.resolve_right (· hsize)⟩
        · rintro _ ⟨⟩
          exact .inr hsize
      · refine h.stay ⟨nofun, nofun, nofun, nofun, ?_, nofun, nofun, nofun⟩ nofun
          (by rw [hpc]; nofun)
        rintro _ ⟨⟩
        have hzero : obj = 0 := by
          by_contra hne
          exact hsize (hstat obj rfl hne)
        exact ⟨hzero, .inl (hzero ▸ hsize)⟩
    · cases hstep
      exact h.leave rfl rfl rfl (by rw [hpc]; nofun)
  · -- map
    rename_i attempt obj weCreated
    split at hstep <;> cases hstep
    · cases weCreated with
      | true =>
        refine h.stay ⟨hc.used, nofun, hc.sized, nofun, nofun, hc.prepared,
          nofun, nofun⟩ (fun other d hd hother => ?_) ?_
        · exact fun hd' => hd (h.alone d c other hd' (by rw [hpc]; exact hother))
        · rw [hpc]
          exact fun _ => .inl
      | false =>
        exact h.stay ⟨hc.used, nofun, hc.sized, nofun, nofun, nofun, nofun,
          nofun⟩ nofun (by rw [hpc]; nofun)
    · refine h.leave rfl rfl rfl ?_
      rw [hpc]
      cases weCreated <;> exact fun _ => id
  · -- spin
    rename_i attempt obj
    split at hstep <;> cases hstep
    · rename_i hversion
      refine h.stay ⟨hc.used, nofun, hc.sized, nofun, nofun, nofun, nofun, ?_⟩
        nofun (by rw [hpc]; nofun)
      rintro _ ⟨⟩
      exact hversion
    · cases ok <;>
        exact h.stay ⟨hc.used, nofun, hc.sized, nofun, nofun, nofun, nofun,
          nofun⟩ nofun (by rw [hpc]; nofun)
  · -- expired
    rename_i attempt obj
    obtain ⟨hversion, halone⟩ := htake obj rfl
    split at hstep <;> cases hstep <;> rename_i hst
    · refine h.stay ⟨nofun, nofun, nofun, nofun, ?_, nofun, nofun, nofun⟩ nofun
        (by rw [hpc]; nofun)
      rintro _ ⟨⟩
      have hzero : obj = 0 := h.foreign obj hst
      exact ⟨hzero, .inr (hzero ▸ hst)⟩
    · -- Nobody initialises the object, so it has not been initialised.
      have hzero : (s.objects obj).version = 0 := by
        by_contra hne
        exact hst ⟨hne, hversion⟩
      refine h.stay ⟨hc.used, nofun, hc.sized, nofun, nofun, ?_, nofun, nofun⟩
        (fun other d _ hother => ?_) (by rw [hpc]; nofun)
      · rintro _ ⟨⟩
        refine ⟨hzero, ?_⟩
        rw [h.settled obj halone]
        exact if_neg fun hboth => hversion hboth.1
      · cases hother
        exact halone d
  · -- unlinkStale
    rename_i attempt obj
    cases hstep
    obtain ⟨rfl, hwhy⟩ := hc.condemned obj rfl
    have hretry : (retry attempt).uses = none ∧ (retry attempt).measures = none ∧
        (retry attempt).condemns = none := by
      unfold retry
      split <;> exact ⟨rfl, rfl, rfl⟩
    refine h.unlink 0 (fun other hother => hunlink 0 rfl other hother) hwhy.symm
      (fun d _ huses => ?_) hretry.1 hretry.2.1 hretry.2.2 (by rw [hpc]; nofun)
    refine hwhy.resolve_left fun hsize => ?_
    rcases (h.calls d).sized 0 huses with hun | hright
    · exact ((h.calls d).unsized 0 hun).1 rfl
    · exact hsize hright
  · -- initZero
    cases hstep
    exact h.zero hpc
  · -- initPublish
    cases hstep
    exact h.publish hpc
  · -- returned
    cases hstep

end Invariant

/-! ## The result -/

section Result

variable {C : Type}

/-- What a call that has returned object `obj` may rely on: every call that
has returned has it, it has the name and the version, it was initialised once
unless it was a valid file, and no call is inside `initialize_header`. -/
structure Opened (headerSize : Nat) (file : Option ShmObject) (s : State C)
    (obj : Nat) : Prop where
  same : ∀ d other, s.calls d = .returned (some other) → other = obj
  named : s.name = some obj
  ready : s.objects obj =
    { size := computeRegistrySize headerSize, version := REGISTRY_VERSION }
  inits : s.inits obj = if obj = 0 ∧ file = some (s.objects obj) then 0 else 1
  finished : ∀ d other, s.calls d ≠ .initZero other ∧ s.calls d ≠ .initPublish other

variable [DecidableEq C] {headerSize : Nat} {file : Option ShmObject}
  {s t : State C}

/-- The first file keeps its size. -/
theorem Inv.size_first {ready : Bool} (h : Inv headerSize ready s) {a : Act C}
    (hstep : Open.step headerSize s a = some t) :
    (t.objects 0).size = (s.objects 0).size := by
  have hversion : ∀ obj version,
      ((s.setVersion obj version).objects 0).size = (s.objects 0).size := by
    intro obj version
    by_cases hobj : 0 = obj
    · subst hobj
      simp [State.setVersion]
    · exact congrArg ShmObject.size (Function.update_of_ne hobj ..)
  unfold Open.step at hstep
  simp only at hstep
  split at hstep <;> rename_i hpc
  case h_2 =>
    repeat' split at hstep
    all_goals cases hstep
    · exact congrArg ShmObject.size (Function.update_of_ne h.created.ne ..)
    · rfl
    · rfl
  case h_3 =>
    have hne := ((h.calls a.call).unsized _ (by rw [hpc]; rfl)).1
    split at hstep <;> cases hstep
    · exact congrArg ShmObject.size (Function.update_of_ne hne.symm ..)
    · rfl
  case h_11 => cases hstep; exact hversion _ 0
  case h_12 => cases hstep; exact hversion _ REGISTRY_VERSION
  all_goals
    repeat' split at hstep
    all_goals cases hstep
    all_goals rfl

theorem registry_open_one_object
    (hrun : (machine C headerSize).Reach (OpenOk headerSize) (State.init C file) s)
    {c : C} {obj : Nat} (hret : s.calls c = .returned (some obj)) :
    Opened headerSize file s obj := by
  obtain ⟨hinv, hfirst⟩ := hrun.invariant
    (I := fun s => Inv headerSize (readyFile file) s ∧
      (s.objects 0).size = ((State.init C file).objects 0).size)
    ⟨Inv.init headerSize file, rfl⟩
    fun s a t hboth hok hstep => ⟨hboth.1.step hok hstep,
      (hboth.1.size_first hstep).trans hboth.2⟩
  have hnamed : ∀ d other, s.calls d = .returned (some other) →
      s.name = some other := by
    intro d other hd
    have hcall := hinv.calls d
    rw [hd] at hcall
    exact (hcall.used other rfl).2.resolve_right fun hst =>
      hst.2 (hcall.done other rfl)
  have hname := hnamed c obj hret
  have hcall := hinv.calls c
  rw [hret] at hcall
  have hversion := hcall.done obj rfl
  have hsize := (hcall.sized obj rfl).resolve_left nofun
  have hready : s.objects obj =
      { size := computeRegistrySize headerSize, version := REGISTRY_VERSION } := by
    rw [← hsize, ← hversion]
  have hzero : ∀ d, (s.calls d).initialises = some obj → False := by
    intro d hd
    have hver : (s.objects obj).version = 0 := by
      cases hpc : s.calls d with
      | initPublish other =>
        rw [hpc] at hd
        cases hd
        exact ((hinv.calls d).zeroed obj hpc).1
      | _ =>
        rw [hpc] at hd
        refine ((hinv.calls d).prepared obj ?_).1
        rw [hpc]
        exact hd
    rw [hversion] at hver
    cases hver
  refine ⟨fun d other hd => ?_, hname, hready, ?_, fun d other => ?_⟩
  · exact Option.some.inj ((hnamed d other hd).symm.trans hname)
  · rw [hinv.settled obj fun d hd => hzero d hd, State.initsDue, hready]
    by_cases hobj : obj = 0
    · subst hobj
      have hvalid : readyFile file = true ↔ file = some
          { size := computeRegistrySize headerSize,
            version := REGISTRY_VERSION } := by
        cases file with
        | none => exact ⟨nofun, nofun⟩
        | some f =>
          have hf : f.size = computeRegistrySize headerSize :=
            hfirst.symm.trans hsize
          refine ⟨fun hr => ?_, fun heq => ?_⟩
          · rw [← hf, ← show f.version = REGISTRY_VERSION from beq_iff_eq.mp hr]
          · obtain rfl := Option.some.inj heq
            exact beq_self_eq_true _
      by_cases hfile : file = some
          { size := computeRegistrySize headerSize,
            version := REGISTRY_VERSION }
      · rw [if_neg fun hboth => hboth.2 ⟨rfl, hvalid.mpr hfile⟩,
          if_pos ⟨rfl, hfile⟩]
      · rw [if_pos ⟨rfl, fun hboth => hfile (hvalid.mp hboth.2)⟩,
          if_neg fun hboth => hfile hboth.2]
    · simp [hobj]
  · have hinside : ∀ pc, pc = Pc.initZero other ∨ pc = Pc.initPublish other →
        s.calls d ≠ pc := by
      rintro pc hpc rfl
      have hinits : (s.calls d).initialises = some other := by
        rcases hpc with hpc | hpc <;> rw [hpc] <;> rfl
      have hver : (s.objects other).version = 0 := by
        rcases hpc with hpc | hpc
        · exact ((hinv.calls d).prepared other (by rw [hpc]; rfl)).1
        · exact ((hinv.calls d).zeroed other hpc).1
      have hother : s.name = some other :=
        ((hinv.calls d).used other (Pc.uses_of_initialises hinits)).2.resolve_right
          fun hst => hst.1 hver
      obtain rfl := Option.some.inj (hname.symm.trans hother)
      exact hzero d hinits
    exact ⟨hinside _ (.inl rfl), hinside _ (.inr rfl)⟩

/-- `n` steps of a call whose system calls succeed. -/
def turns (c : C) (n : Nat) : List (Act C) :=
  List.replicate n { call := c, ok := true }

/-- Call 1 meets the object of call 0 while it is being initialised. -/
theorem registry_open_one_object_two :
    ∃ s : State (Fin 2), s.calls 0 = .returned (some 1) ∧
      s.calls 1 = .returned (some 1) ∧ Opened 64 none s 1 := by
  obtain ⟨s, hrun, hzero, hone⟩ :=
    (machine (Fin 2) 64).exists_reach_of_guardedRun (OpenOk 64)
      (State.init (Fin 2) none)
      (turns 0 3 ++ turns 1 6 ++ turns 0 3 ++ turns 1 1)
      (fun s => s.calls 0 = .returned (some 1) ∧
        s.calls 1 = .returned (some 1)) (by decide)
  exact ⟨s, hzero, hone, registry_open_one_object hrun hzero⟩

/-- Call 1 measures the object of call 0 before its `ftruncate`, removes its
name and makes another one. -/
theorem registry_open_two_objects :
    ¬∀ s : State (Fin 2), (machine (Fin 2) 64).Reach (fun _ _ => True)
        (State.init (Fin 2) none) s →
      ∀ c obj, s.calls c = .returned (some obj) → Opened 64 none s obj := by
  intro hclaim
  obtain ⟨s, hrun, hzero, hone⟩ :=
    (machine (Fin 2) 64).exists_reach_of_guardedRun (fun _ _ => True)
      (State.init (Fin 2) none)
      (turns 0 2 ++ turns 1 10 ++ turns 0 4)
      (fun s => s.calls 0 = .returned (some 1) ∧
        s.calls 1 = .returned (some 2)) (by decide)
  have hsame := (hclaim s hrun 0 1 hzero).same 1 2 hone
  exact absurd hsame (by decide)

end Result

end RmwUnixSocket.Registry.Open
