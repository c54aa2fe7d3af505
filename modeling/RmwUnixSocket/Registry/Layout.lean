import Mathlib.Algebra.Group.Nat.Defs
import RmwUnixSocket.Lib.Words
import Mathlib.Data.Fintype.Basic

/-!
# The layout of the discovery registry

The shared memory of `registry.hpp`: a header and an array of slots, each
slot guarded by a seqlock counter and a state byte.

* `RegistryEntryType` has the values that a caller may store.  The two values
  that never appear in a `RegistryEntry`, `ENTRY_EMPTY` and `ENTRY_RESERVED`,
  are the other two constructors of `SlotState`.
* `Payload` is the list of members that `write_slot_payload` copies and
  `teardown_slot` zeroes, one word for each copy.  `fieldOrder` is the order
  of the copies in the source.
* A process is its pid, so the `pid` member is `none` for 0 and `some p` for
  the process `p`.
* `seq` counts the `fetch_add`s on a slot.  The 32-bit word that the code
  loads is `seqWord`.
-/

namespace RmwUnixSocket.Registry

/-! ## Entries -/

/-- The types that a `RegistryEntry` may carry. -/
inductive RegistryEntryType
  | node
  | publisher
  | subscription
  | service
  | client
  | doorbell
  deriving DecidableEq, Repr

/-- The state byte of a slot. -/
inductive SlotState
  | empty
  | entry (type : RegistryEntryType)
  | reserved
  deriving DecidableEq, Repr

/-- The payload members of a slot. -/
inductive Field
  | pid
  | gid
  | nodeName
  | nodeNamespace
  | topicName
  | typeName
  | socketPath
  | qosReliability
  | qosDurability
  | qosHistory
  | qosDepth
  deriving DecidableEq, Repr

namespace Field

/-- The type of a payload member.  A `char` array is its list of bytes. -/
abbrev Val (P : Type) : Field → Type
  | pid => Option P
  | gid => List UInt8
  | nodeName => List UInt8
  | nodeNamespace => List UInt8
  | topicName => List UInt8
  | typeName => List UInt8
  | socketPath => List UInt8
  | qosReliability => UInt8
  | qosDurability => UInt8
  | qosHistory => UInt8
  | qosDepth => UInt32

/-- The value that `teardown_slot` stores into a member. -/
def zero (P : Type) : (f : Field) → f.Val P
  | pid => none
  | gid => List.replicate 16 0
  | nodeName => List.replicate 256 0
  | nodeNamespace => List.replicate 256 0
  | topicName => List.replicate 256 0
  | typeName => List.replicate 256 0
  | socketPath => List.replicate 108 0
  | qosReliability => 0
  | qosDurability => 0
  | qosHistory => 0
  | qosDepth => 0

end Field

/-- The members in the order in which `write_slot_payload`, `teardown_slot`
and `snapshot_slot` touch them. -/
def fieldOrder : List Field :=
  [.pid, .gid, .nodeName, .nodeNamespace, .topicName, .typeName, .socketPath,
    .qosReliability, .qosDurability, .qosHistory, .qosDepth]

theorem mem_fieldOrder (f : Field) : f ∈ fieldOrder := by
  cases f <;> decide

/-- The payload of a slot or of an entry. -/
abbrev Payload (P : Type) := (f : Field) → f.Val P

/-- A C string: the bytes of a `char` array before the first NUL. -/
def cstr (bytes : List UInt8) : List UInt8 :=
  bytes.takeWhile (· ≠ 0)

/-- The argument of `registry_add`. -/
structure RegistryEntry (P : Type) where
  type : RegistryEntryType
  payload : Payload P

/-- The path of the socket file (or of the latched cache) of an entry. -/
def RegistryEntry.path {P : Type} (e : RegistryEntry P) : List UInt8 :=
  cstr (e.payload .socketPath)

/-! ## The shared memory -/

/-- One slot of the registry. -/
structure RegistryEntrySlot (P : Type) where
  seq : Nat
  state : SlotState
  payload : Payload P

/-- The 32-bit seqlock word of a slot. -/
def RegistryEntrySlot.seqWord {P : Type} (slot : RegistryEntrySlot P) : Nat :=
  slot.seq % 2 ^ 32

/-- The mapped region: the members of `RegistryHeader` that outlive the
initialisation, and the slot array. -/
structure Region (P : Type) where
  maxEntries : Nat
  generation : Nat
  highWaterSlot : Nat
  slots : Nat → RegistryEntrySlot P

/-- The region that `initialize_header` leaves behind. -/
def Region.initialized (P : Type) (maxEntries : Nat) : Region P where
  maxEntries := maxEntries
  generation := 0
  highWaterSlot := 0
  slots := fun _ => { seq := 0, state := .empty, payload := Field.zero P }

/-! ## The atomic effects on the shared memory

Every step of the registry code does at most one of these. -/

/-- One store, one read-modify-write, or one file operation. -/
inductive Effect (P : Type)
  | none
  | incSeq (i : Nat)
  | setState (i : Nat) (state : SlotState)
  | setField (i : Nat) (f : Field) (v : f.Val P)
  | setHighWater (n : Nat)
  | incGeneration
  | unlink (path : List UInt8)

namespace Region

variable {P : Type}

/-- Replaces one slot. -/
def setSlot (m : Region P) (i : Nat) (slot : RegistryEntrySlot P) : Region P :=
  { m with slots := Function.update m.slots i slot }

@[simp] theorem setSlot_same (m : Region P) (i : Nat)
    (slot : RegistryEntrySlot P) : (m.setSlot i slot).slots i = slot := by
  simp [setSlot]

theorem setSlot_of_ne (m : Region P) {i j : Nat} (slot : RegistryEntrySlot P)
    (h : j ≠ i) : (m.setSlot i slot).slots j = m.slots j := by
  simp [setSlot, h]

@[simp] theorem setSlot_maxEntries (m : Region P) (i : Nat)
    (slot : RegistryEntrySlot P) :
    (m.setSlot i slot).maxEntries = m.maxEntries := rfl

@[simp] theorem setSlot_highWaterSlot (m : Region P) (i : Nat)
    (slot : RegistryEntrySlot P) :
    (m.setSlot i slot).highWaterSlot = m.highWaterSlot := rfl

/-- The memory after an effect.  Removing a file does not change it. -/
def apply (m : Region P) : Effect P → Region P
  | .none => m
  | .incSeq i => m.setSlot i { m.slots i with seq := (m.slots i).seq + 1 }
  | .setState i st => m.setSlot i { m.slots i with state := st }
  | .setField i f v =>
    m.setSlot i
      { m.slots i with payload := Words.store (m.slots i).payload f v }
  | .setHighWater n => { m with highWaterSlot := n }
  | .incGeneration => { m with generation := m.generation + 1 }
  | .unlink _ => m

@[simp] theorem apply_incSeq_slots (m : Region P) (i : Nat) :
    (m.apply (.incSeq i)).slots i =
      { m.slots i with seq := (m.slots i).seq + 1 } := by
  simp [apply]

@[simp] theorem apply_setState_slots (m : Region P) (i : Nat) (st : SlotState) :
    (m.apply (.setState i st)).slots i = { m.slots i with state := st } := by
  simp [apply]

@[simp] theorem apply_setField_slots (m : Region P) (i : Nat) (f : Field)
    (v : f.Val P) :
    (m.apply (.setField i f v)).slots i =
      { m.slots i with payload := Words.store (m.slots i).payload f v } := by
  simp [apply]

end Region

/-- The slot that an effect changes. -/
def Effect.target {P : Type} : Effect P → Option Nat
  | .incSeq i => some i
  | .setState i _ => some i
  | .setField i _ _ => some i
  | _ => Option.none

/-- An effect changes no slot but its target. -/
theorem Region.apply_slots_of_ne {P : Type} (m : Region P) {eff : Effect P}
    {j : Nat} (h : eff.target ≠ some j) : (m.apply eff).slots j = m.slots j := by
  cases eff <;>
    first
      | rfl
      | exact m.setSlot_of_ne _ fun hj => h (congrArg some hj.symm)

/-- Only a store to a state byte changes it. -/
theorem Region.apply_state {P : Type} (m : Region P) (eff : Effect P)
    (i : Nat) : ((m.apply eff).slots i).state = (m.slots i).state ∨
      eff = .setState i ((m.apply eff).slots i).state := by
  by_cases h : eff.target = some i
  · cases eff <;> cases h
    · exact .inl (by simp)
    · exact .inr (by simp)
    · exact .inl (by simp)
  · exact .inl (by rw [m.apply_slots_of_ne h])

/-- Only a store to a payload member changes the payload. -/
theorem Region.apply_payload {P : Type} (m : Region P) (eff : Effect P)
    (i : Nat) : ((m.apply eff).slots i).payload = (m.slots i).payload ∨
      ∃ f v, eff = .setField i f v := by
  by_cases h : eff.target = some i
  · cases eff <;> cases h
    · exact .inl (by simp)
    · exact .inl (by simp)
    · exact .inr ⟨_, _, rfl⟩
  · exact .inl (by rw [m.apply_slots_of_ne h])

/-- Only an addition to the counter changes it. -/
theorem Region.apply_seq {P : Type} (m : Region P) (eff : Effect P)
    (i : Nat) : ((m.apply eff).slots i).seq = (m.slots i).seq ∨ eff = .incSeq i := by
  by_cases h : eff.target = some i
  · cases eff <;> cases h
    · exact .inr rfl
    · exact .inl (by simp)
    · exact .inl (by simp)
  · exact .inl (by rw [m.apply_slots_of_ne h])

/-- The counter of a slot does not go back. -/
theorem Region.seq_le_apply {P : Type} (m : Region P) (eff : Effect P)
    (i : Nat) : (m.slots i).seq ≤ ((m.apply eff).slots i).seq := by
  by_cases h : eff.target = some i
  · cases eff <;> cases h <;> simp
  · rw [m.apply_slots_of_ne h]

@[simp] theorem Region.apply_maxEntries {P : Type} (m : Region P)
    (eff : Effect P) : (m.apply eff).maxEntries = m.maxEntries := by
  cases eff <;> rfl

end RmwUnixSocket.Registry
