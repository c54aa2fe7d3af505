import RmwUnixSocket.Hostile.Reader
import RmwUnixSocket.Latch.Ring
import RmwUnixSocket.Lifecycle.Resources

/-!
# The segments of `shm_transport.cpp`

Who holds the shared memory of the transport: the ring of a sender (`ShmRingWriter`), the
durable segments and the ring of a latched publisher (`DurableShmSegment`,
`TlRingWriter`), and the mappings of a reader (`Mapped`).

A ring outlives the calls that work on it.  `owns` is what its fields record, and the
rules say that every call leaves a ring that records what is held: a new segment replaces
the old one, an evicted durable segment goes back to the caller, a mapping that is swept
is unmapped.
-/

namespace RmwUnixSocket.Lifecycle

open Custody (Prog Realm held)
open Custody.Prog (Turns query take token free unlink freeOption freeAll)
open Hostile (Key)
open Latch (tlSlotStride tlRingSlots TL_EMBED_CAP)
open Payload (SHM_RECORD_ALIGN UINT32_MAX alignUp recordBytes ringHeaderSize)

variable {A : Type} {mine mine' : Multiset Resource} {result : A → Multiset Resource}

/-! ## The payload ring -/

/-- What a `ShmRingWriter` records.  `ownerId` is set by the first `create_segment`. -/
structure ShmRingWriter where
  ownerId : Option Nat
  base : Option Nat
  fd : Option Nat
  ringBytes : Nat
  segmentId : Nat
  shmName : Option Name
  /-- The name is the one of the current segment. -/
  named : ∀ name ∈ shmName, ∃ o ∈ ownerId, name = .segment o segmentId

namespace ShmRingWriter

/-- A ring that has staged nothing. -/
def fresh : ShmRingWriter where
  ownerId := none
  base := none
  fd := none
  ringBytes := 0
  segmentId := 0
  shmName := none
  named _ h := (by cases h)

/-- The mapping and the descriptor of the current segment. -/
def segment (ring : ShmRingWriter) : Multiset Resource :=
  held (ring.base.map (.mapping (ringHeaderSize + ring.ringBytes))) +
    held (ring.fd.map .fd)

/-- What the ring records. -/
def owns (ring : ShmRingWriter) : Multiset Resource :=
  held (ring.ownerId.map .owner) + ring.segment + held (ring.shmName.map .file)

/-- The ring has its id. -/
def withOwner (ring : ShmRingWriter) (h : ring.ownerId = none) (owner : Nat) :
    ShmRingWriter :=
  { ring with
    ownerId := some owner
    named := by
      intro name hname
      obtain ⟨o, ho, -⟩ := ring.named name hname
      rw [h] at ho
      cases ho }

/-- The ring with its segment closed. -/
def closed (ring : ShmRingWriter) : ShmRingWriter :=
  { ring with
    base := none, fd := none, ringBytes := 0, shmName := none
    named := fun _ h => (by cases h) }

/-- The ring with a new segment. -/
def renewed (owner base fd ringBytes segmentId : Nat) : ShmRingWriter where
  ownerId := some owner
  base := some base
  fd := some fd
  ringBytes := ringBytes
  segmentId := segmentId
  shmName := some (.segment owner segmentId)
  named name h := by
    cases h
    exact ⟨owner, rfl, rfl⟩

theorem renewed_owns (owner base fd ringBytes segmentId : Nat) :
    (renewed owner base fd ringBytes segmentId).owns =
      {.owner owner} + ({.mapping (ringHeaderSize + ringBytes) base} + {.fd fd}) +
        {.file (.segment owner segmentId)} := rfl

end ShmRingWriter

/-- `shm_writer_close`. -/
def shmWriterClose (ring : ShmRingWriter) : Prog Resource ShmRingWriter := do
  freeOption (ring.base.map (.mapping (ringHeaderSize + ring.ringBytes)))
  freeOption (ring.fd.map .fd)
  match ring.shmName with
  | none => return ring.closed
  | some name =>
    unlink (.file name)
    return ring.closed

/-- The id of the ring, drawn when it has none. -/
def assignOwner (ring : ShmRingWriter) :
    Prog Resource { r : ShmRingWriter × Nat // r.1.ownerId = some r.2 } :=
  match h : ring.ownerId with
  | some owner => return ⟨(ring, owner), h⟩
  | none => do
    let owner ← token .owner
    return ⟨(ring.withOwner h owner, owner), rfl⟩

/-- `create_segment`.  The new segment is ready before the old one goes. -/
def createSegment (ring : ShmRingWriter) (recordAreaBytes : Nat) :
    Prog Resource (ShmRingWriter × Bool) := do
  let ⟨(ring, owner), _⟩ ← assignOwner ring
  let newSegmentId := ring.segmentId + 1
  match ← openExcl (.segment owner newSegmentId) with
  | none => return (ring, false)
  | some fd =>
    let total := ringHeaderSize + recordAreaBytes
    if (← query) ≠ 0 then
      abandon fd (.segment owner newSegmentId)
      return (ring, false)
    else
      match ← take (.mapping total) none with
      | none =>
        abandon fd (.segment owner newSegmentId)
        return (ring, false)
      | some base =>
        let _ ← shmWriterClose ring
        return (.renewed owner base fd recordAreaBytes newSegmentId, true)

/-- `shm_stage_reserve`: a new segment when there is none, or when the payload outgrows
it. -/
def shmStageReserve (page : Nat) (ring : ShmRingWriter) (maxPayloadSize : Nat) :
    Prog Resource (ShmRingWriter × Bool) := do
  if UINT32_MAX < maxPayloadSize then
    return (ring, false)
  else if ring.base.isNone || ring.ringBytes < recordBytes maxPayloadSize * 4 then
    createSegment ring (Payload.ShmRingWriter.newArea page maxPayloadSize)
  else
    return (ring, true)

@[simp]
theorem ShmRingWriter.fresh_owns : ShmRingWriter.fresh.owns = 0 := rfl

theorem ShmRingWriter.segment_no_file (ring : ShmRingWriter) (name : Name) :
    .file name ∉ ring.segment := by
  unfold ShmRingWriter.segment
  cases ring.base <;> cases ring.fd <;> simp

theorem ShmRingWriter.segment_no_draw (ring : ShmRingWriter) :
    ∀ r ∈ ring.segment, ¬realm.IsToken r := by
  unfold ShmRingWriter.segment
  cases ring.base <;> cases ring.fd <;> simp [Resource.isDraw]

theorem ShmRingWriter.owner_mem {ring : ShmRingWriter} {owner : Nat}
    (h : ring.ownerId = some owner) : .owner owner ∈ ring.owns := by
  unfold ShmRingWriter.owns
  rw [h]
  simp

theorem ShmRingWriter.owns_closed (ring : ShmRingWriter) : realm.Closed ring.owns := by
  intro r hr t ht
  simp only [ShmRingWriter.owns, Multiset.mem_add] at hr
  rcases hr with (h | h) | h
  · cases howner : ring.ownerId with
    | none => simp [howner] at h
    | some o =>
      simp only [howner, Option.map_some, Custody.held_some, Multiset.mem_singleton] at h
      subst h
      cases ht
  · cases r with
    | file name => exact (ring.segment_no_file name h).elim
    | _ => cases ht
  · cases hname : ring.shmName with
    | none => simp [hname] at h
    | some n =>
      obtain ⟨o, ho, rfl⟩ := ring.named n hname
      simp only [hname, Option.map_some, Custody.held_some, Multiset.mem_singleton] at h
      subst h
      cases ht
      exact ring.owner_mem ho

/-- The only file of a ring is its current segment. -/
theorem ShmRingWriter.file_of_mem {ring : ShmRingWriter} {name : Name}
    (h : .file name ∈ ring.owns) : ∃ owner, name = .segment owner ring.segmentId := by
  simp only [ShmRingWriter.owns, Multiset.mem_add] at h
  rcases h with (h | h) | h
  · cases howner : ring.ownerId <;> simp [howner] at h
  · exact (ring.segment_no_file name h).elim
  · cases hname : ring.shmName with
    | none => simp [hname] at h
    | some n =>
      obtain ⟨o, -, rfl⟩ := ring.named n hname
      simp only [hname, Option.map_some, Custody.held_some, Multiset.mem_singleton,
        Resource.file.injEq] at h
      exact ⟨o, h⟩

/-- The next segment of a ring has a name that the ring does not have. -/
theorem ShmRingWriter.next_gone {ring : ShmRingWriter} {owner : Nat} :
    .file (.segment owner (ring.segmentId + 1)) ∉ ring.owns := by
  intro h
  obtain ⟨o, ho⟩ := ring.file_of_mem h
  simp at ho

theorem shmWriterClose_turns (ring : ShmRingWriter)
    (hmine : mine' = ring.segment + held (ring.shmName.map .file) + mine)
    (htoken : ∀ name ∈ ring.shmName, ∃ t ∈ mine, (Resource.file name).guard = some t) :
    Turns realm (shmWriterClose ring) mine' fun _ => mine := by
  have hbase : mine' = held (ring.base.map (.mapping (ringHeaderSize + ring.ringBytes))) +
      (held (ring.fd.map .fd) + (held (ring.shmName.map .file) + mine)) := by
    rw [hmine, ShmRingWriter.segment]
    abel
  refine .freeOption (by simp [Resource.isDraw]) hbase ?_
  refine .freeOption (by simp [Resource.isDraw]) rfl ?_
  cases hname : ring.shmName with
  | none => exact .pure _ (zero_add mine)
  | some name =>
    obtain ⟨t, ht, hguard⟩ := htoken name hname
    exact .unlink (by simp [Resource.isDraw]) hguard ht rfl (.pure _ rfl)

/-- The ring goes for good: its id is left behind. -/
theorem shmWriterClose_turns_owns (ring : ShmRingWriter) (hmine : mine' = ring.owns + mine) :
    Turns realm (shmWriterClose ring) mine' fun _ => mine := by
  have hsplit : mine' = ring.segment + held (ring.shmName.map .file) +
      (held (ring.ownerId.map .owner) + mine) := by
    rw [hmine, ShmRingWriter.owns]
    abel
  have hspent : ∀ t ∈ held (ring.ownerId.map Resource.owner), realm.IsToken t := by
    cases ring.ownerId <;> simp [Resource.isDraw]
  refine .conseq (shmWriterClose_turns ring hsplit ?_) rfl fun _ => ⟨_, hspent, add_comm _ _⟩
  intro name hname
  obtain ⟨o, ho, rfl⟩ := ring.named name hname
  have howner : ring.ownerId = some o := ho
  exact ⟨.owner o, by simp [howner], rfl⟩

theorem assignOwner_turns (ring : ShmRingWriter) :
    Turns realm (assignOwner ring) ring.owns fun r => r.1.1.owns := by
  unfold assignOwner
  split
  · rename_i owner h
    exact .pure _ rfl
  · rename_i h
    refine .token (fun _ => rfl) fun owner _ => ?_
    refine .pure _ ?_
    show {.owner owner} + ring.owns = {.owner owner} + ring.segment + held (ring.shmName.map .file)
    rw [ShmRingWriter.owns, h]
    simp only [Option.map_none, Custody.held_none, zero_add, add_assoc]

theorem createSegment_turns (ring : ShmRingWriter) (recordAreaBytes : Nat) :
    Turns realm (createSegment ring recordAreaBytes) ring.owns fun r => r.1.owns := by
  refine (assignOwner_turns ring).bind ?_
  rintro ⟨⟨ring, owner⟩, howner⟩
  have htoken : .owner owner ∈ ring.owns := ring.owner_mem howner
  refine (openExcl_turns rfl htoken ring.next_gone).bind fun fd => ?_
  cases fd with
  | none => exact .pure _ (zero_add _)
  | some fd =>
    refine .query fun err => ?_
    by_cases herr : err ≠ 0
    · rw [if_pos herr]
      exact (abandon_turns rfl htoken rfl).bind fun _ => .pure _ rfl
    · rw [if_neg herr]
      refine .take (fun _ => rfl) ?_ fun base _ => ?_
      · exact (abandon_turns rfl htoken rfl).bind fun _ => .pure _ rfl
      · have hsplit : {.mapping (ringHeaderSize + recordAreaBytes) base} +
            (opened (.segment owner (ring.segmentId + 1)) (some fd) + ring.owns) =
          ring.segment + held (ring.shmName.map .file) +
            (ShmRingWriter.renewed owner base fd recordAreaBytes
              (ring.segmentId + 1)).owns := by
          have hring : ring.ownerId = some owner := howner
          rw [opened_some, ShmRingWriter.renewed_owns, ShmRingWriter.owns, hring,
            Option.map_some, Custody.held_some]
          abel
        refine (shmWriterClose_turns ring hsplit ?_).bind fun _ => .pure _ rfl
        intro name hname
        obtain ⟨o, ho, rfl⟩ := ring.named name hname
        exact ⟨.owner o, by simp_all [ShmRingWriter.owns, ShmRingWriter.renewed], rfl⟩

theorem shmStageReserve_turns (page : Nat) (ring : ShmRingWriter) (maxPayloadSize : Nat) :
    Turns realm (shmStageReserve page ring maxPayloadSize) ring.owns fun r => r.1.owns := by
  unfold shmStageReserve
  split
  · exact .pure _ rfl
  · split
    · exact createSegment_turns ring _
    · exact .pure _ rfl

/-! ## Durable segments and the latched ring -/

/-- `DurableShmSegment`; its name is segment 1 of its owner. -/
structure DurableShmSegment where
  base : Nat
  mapSize : Nat
  owner : Nat
  deriving DecidableEq, Repr

/-- What a durable segment records. -/
def DurableShmSegment.owns (seg : DurableShmSegment) : Multiset Resource :=
  {.owner seg.owner} + {.mapping seg.mapSize seg.base} + {.file (.segment seg.owner 1)}

/-- What an optional durable segment records. -/
def durable (seg : Option DurableShmSegment) : Multiset Resource :=
  seg.elim 0 DurableShmSegment.owns

/-- `shm_stage_durable`.  The descriptor is closed as soon as the segment is mapped. -/
def shmStageDurable (page payloadSize : Nat) :
    Prog Resource (Option DurableShmSegment) := do
  if UINT32_MAX < payloadSize then
    return none
  else
    let total := ringHeaderSize + alignUp (recordBytes payloadSize) page
    let owner ← token .owner
    match ← openExcl (.segment owner 1) with
    | none => return none
    | some fd =>
      if (← query) ≠ 0 then
        abandon fd (.segment owner 1)
        return none
      else
        let base ← take (.mapping total) none
        free (.fd fd)
        match base with
        | none =>
          unlink (.file (.segment owner 1))
          return none
        | some base => return some ⟨base, total, owner⟩

/-- The destructor of an optional segment. -/
def destroySegment (seg : Option DurableShmSegment) : Prog Resource Unit :=
  match seg with
  | none => return ()
  | some seg => do
    free (.mapping seg.mapSize seg.base)
    unlink (.file (.segment seg.owner 1))
    return ()

/-- What a `TlRingWriter` records.  Its name is the latched name of `shmName`. -/
structure TlRingWriter where
  base : Option Nat
  fd : Option Nat
  mapSize : Nat
  slots : Nat
  nextIndex : Nat
  shmName : Option Nat
  durableSegs : List (Option DurableShmSegment)
  /-- A mapped ring has an entry for each of its slots. -/
  entries : base.isSome = true → durableSegs.length = slots ∧ 0 < slots

namespace TlRingWriter

/-- A publisher without a cache. -/
def empty : TlRingWriter where
  base := none
  fd := none
  mapSize := 0
  slots := 0
  nextIndex := 1
  shmName := none
  durableSegs := []
  entries h := (by cases h)

/-- A ring that `tl_ring_create` has set up. -/
def created (base fd total depth owner : Nat) : TlRingWriter where
  base := some base
  fd := some fd
  mapSize := total
  slots := tlRingSlots depth
  nextIndex := 1
  shmName := some owner
  durableSegs := List.replicate (tlRingSlots depth) none
  entries _ := ⟨List.length_replicate, Latch.tlRingSlots_pos depth⟩

/-- The slot of the next sample. -/
def slot (ring : TlRingWriter) : Nat :=
  (ring.nextIndex - 1) % ring.slots

theorem slot_lt {ring : TlRingWriter} (h : ring.base.isSome = true) :
    ring.slot < ring.durableSegs.length := by
  obtain ⟨hlength, hpos⟩ := ring.entries h
  rw [hlength]
  exact Nat.mod_lt _ hpos

/-- The slot of the next sample owns `seg`. -/
def put (ring : TlRingWriter) (seg : Option DurableShmSegment) : TlRingWriter :=
  { ring with
    durableSegs := ring.durableSegs.set ring.slot seg
    nextIndex := ring.nextIndex + 1
    entries := fun h => by
      rw [List.length_set]
      exact ring.entries h }

/-- The segments that the slots own. -/
def segments : List (Option DurableShmSegment) → Multiset Resource
  | [] => 0
  | seg :: segs => durable seg + segments segs

/-- The mapping, the descriptor and the draw of the name. -/
def body (ring : TlRingWriter) : Multiset Resource :=
  held (ring.base.map (.mapping ring.mapSize)) + held (ring.fd.map .fd) +
    held (ring.shmName.map .owner)

/-- The file of the ring. -/
def file (ring : TlRingWriter) : Multiset Resource :=
  held (ring.shmName.map fun owner => .file (.latched owner))

/-- What the ring records. -/
def owns (ring : TlRingWriter) : Multiset Resource :=
  ring.body + ring.file + segments ring.durableSegs

theorem segments_replicate (n : Nat) : segments (List.replicate n none) = 0 := by
  induction n with
  | zero => rfl
  | succ n ih =>
    show (0 : Multiset Resource) + segments (List.replicate n none) = 0
    rw [ih, zero_add]

theorem created_owns (base fd total depth owner : Nat) :
    (created base fd total depth owner).owns =
      {.mapping total base} + {.fd fd} + {.owner owner} + {.file (.latched owner)} := by
  show {.mapping total base} + {.fd fd} + {.owner owner} + {.file (.latched owner)} +
    segments (List.replicate (tlRingSlots depth) none) = _
  rw [segments_replicate, add_zero]

theorem body_no_file (ring : TlRingWriter) (name : Name) : .file name ∉ ring.body := by
  unfold body
  cases ring.base <;> cases ring.fd <;> cases ring.shmName <;> simp

theorem segments_no_latched (segs : List (Option DurableShmSegment)) (owner : Nat) :
    .file (.latched owner) ∉ segments segs := by
  induction segs with
  | nil => exact Multiset.notMem_zero _
  | cons seg segs ih =>
    show .file (.latched owner) ∉ durable seg + segments segs
    cases seg <;> simp [durable, DurableShmSegment.owns, ih]

theorem segments_set {segs : List (Option DurableShmSegment)} {i : Nat}
    (seg : Option DurableShmSegment) (h : i < segs.length) :
    segments (segs.set i seg) + durable (segs.get ⟨i, h⟩) = segments segs + durable seg := by
  induction segs generalizing i with
  | nil => exact absurd h (Nat.not_lt_zero i)
  | cons x xs ih =>
    cases i with
    | zero =>
      show durable seg + segments xs + durable x = durable x + segments xs + durable seg
      abel
    | succ i =>
      have htail := ih (Nat.lt_of_succ_lt_succ h)
      show durable x + segments (xs.set i seg) + durable (xs.get ⟨i, _⟩) =
        durable x + segments xs + durable seg
      rw [add_assoc, htail, add_assoc]

end TlRingWriter

/-- `tl_ring_create`. -/
def tlRingCreate (depth : Nat) : Prog Resource TlRingWriter := do
  let owner ← token .owner
  match ← openExcl (.latched owner) with
  | none => return .empty
  | some fd =>
    let total := SHM_RECORD_ALIGN + tlRingSlots depth * tlSlotStride
    -- `ftruncate`, then `posix_fallocate` of the header page
    if (← query) ≠ 0 then
      abandon fd (.latched owner)
      return .empty
    else if (← query) ≠ 0 then
      abandon fd (.latched owner)
      return .empty
    else
      match ← take (.mapping total) none with
      | none =>
        abandon fd (.latched owner)
        return .empty
      | some base =>
        return .created base fd total depth owner

/-- `tl_ring_latch`: the ring, which keeps its name, the segment that it has evicted, and
whether the sample is latched.  A staged segment that is not latched goes with the
parameter that holds it. -/
def tlRingLatch (ring : TlRingWriter) (payloadSize : Nat)
    (staged : Option DurableShmSegment) :
    Prog Resource { r : TlRingWriter × Option DurableShmSegment × Bool //
      r.1.shmName = ring.shmName } := do
  if h : ring.base.isSome = true then
    if staged.isNone && TL_EMBED_CAP < payloadSize then
      destroySegment staged
      return ⟨(ring, none, false), rfl⟩
    else if (← query) ≠ 0 then
      -- `posix_fallocate` of the slot
      destroySegment staged
      return ⟨(ring, none, false), rfl⟩
    else
      let evicted := ring.durableSegs.get ⟨ring.slot, TlRingWriter.slot_lt h⟩
      return ⟨(ring.put staged, evicted, true), rfl⟩
  else
    destroySegment staged
    return ⟨(ring, none, false), rfl⟩

def destroySegments : List (Option DurableShmSegment) → Prog Resource Unit
  | [] => return ()
  | seg :: segs => do
    destroySegment seg
    destroySegments segs

/-- `tl_ring_close`. -/
def tlRingClose (ring : TlRingWriter) : Prog Resource Unit := do
  freeOption (ring.base.map (.mapping ring.mapSize))
  freeOption (ring.fd.map .fd)
  match ring.shmName with
  | none => destroySegments ring.durableSegs
  | some owner =>
    unlink (.file (.latched owner))
    destroySegments ring.durableSegs

theorem DurableShmSegment.guard (seg : DurableShmSegment) :
    (Resource.file (.segment seg.owner 1)).guard = some (.owner seg.owner) := rfl

theorem shmStageDurable_turns (page payloadSize : Nat) :
    Turns realm (shmStageDurable page payloadSize) 0 durable := by
  unfold shmStageDurable
  split
  · exact .pure none rfl
  · refine .token (fun _ => rfl) fun owner _ => ?_
    have htoken : .owner owner ∈ ({.owner owner} + 0 : Multiset Resource) := by simp
    have hspent : ∀ t ∈ ({.owner owner} + 0 : Multiset Resource), realm.IsToken t := by
      simp [Resource.isDraw]
    refine (openExcl_turns rfl htoken (by simp)).bind fun fd => ?_
    cases fd with
    | none => exact .drop hspent (by abel) (.pure none rfl)
    | some fd =>
      refine .query fun err => ?_
      by_cases herr : err ≠ 0
      · rw [if_pos herr]
        refine (abandon_turns rfl htoken rfl).bind fun _ => ?_
        exact .drop hspent (by abel) (.pure none rfl)
      · rw [if_neg herr]
        refine .take (fun _ => rfl) ?_ fun base _ => ?_
        · have hsplit : opened (.segment owner 1) (some fd) + ({.owner owner} + 0) =
              {.fd fd} + ({.file (.segment owner 1)} + ({.owner owner} + 0)) := by
            rw [opened_some]
            abel
          refine .free (by simp [Resource.isDraw]) hsplit ?_
          refine .unlink (by simp [Resource.isDraw]) rfl htoken rfl ?_
          exact .drop hspent (by abel) (.pure none rfl)
        · have hsplit : {.mapping (ringHeaderSize + alignUp (recordBytes payloadSize) page) base} +
                (opened (.segment owner 1) (some fd) + ({.owner owner} + 0)) =
              {.fd fd} + DurableShmSegment.owns
                ⟨base, ringHeaderSize + alignUp (recordBytes payloadSize) page, owner⟩ := by
            rw [opened_some, DurableShmSegment.owns]
            abel
          exact .free (by simp [Resource.isDraw]) hsplit (.pure _ rfl)

theorem destroySegment_turns (seg : Option DurableShmSegment)
    (hmine : mine' = durable seg + mine) : Turns realm (destroySegment seg) mine' fun _ => mine := by
  cases seg with
  | none => exact .pure () (hmine.trans (zero_add mine))
  | some seg =>
    have hsplit : mine' = {.mapping seg.mapSize seg.base} +
        ({.file (.segment seg.owner 1)} + ({.owner seg.owner} + mine)) := by
      show mine' = _
      rw [hmine]
      show DurableShmSegment.owns seg + mine = _
      rw [DurableShmSegment.owns]
      abel
    refine .free (by simp [Resource.isDraw]) hsplit ?_
    refine .unlink (by simp [Resource.isDraw]) seg.guard (by simp) rfl ?_
    exact .drop (by simp [Resource.isDraw]) rfl (.pure () rfl)

theorem destroySegments_turns (segs : List (Option DurableShmSegment))
    (hmine : mine' = TlRingWriter.segments segs + mine) :
    Turns realm (destroySegments segs) mine' fun _ => mine := by
  induction segs generalizing mine' with
  | nil => exact .pure () (hmine.trans (zero_add mine))
  | cons seg segs ih =>
    have hsplit : mine' = durable seg + (TlRingWriter.segments segs + mine) := by
      rw [hmine]
      exact add_assoc _ _ _
    exact (destroySegment_turns seg hsplit).bind fun _ => ih rfl

theorem tlRingCreate_turns (depth : Nat) :
    Turns realm (tlRingCreate depth) 0 TlRingWriter.owns := by
  refine .token (fun _ => rfl) fun owner _ => ?_
  have htoken : .owner owner ∈ ({.owner owner} + 0 : Multiset Resource) := by simp
  have hempty : Turns realm (pure TlRingWriter.empty) ({.owner owner} + 0)
      TlRingWriter.owns :=
    .drop (by simp [Resource.isDraw]) rfl (.pure TlRingWriter.empty rfl)
  refine (openExcl_turns rfl htoken (by simp)).bind fun fd => ?_
  cases fd with
  | none =>
    show Turns realm (pure TlRingWriter.empty) (0 + ({.owner owner} + 0)) _
    rw [zero_add]
    exact hempty
  | some fd =>
    have hfail : Turns realm (abandon fd (.latched owner) >>= fun _ => pure TlRingWriter.empty)
        (opened (.latched owner) (some fd) + ({.owner owner} + 0)) TlRingWriter.owns :=
      (abandon_turns rfl htoken rfl).bind fun _ => hempty
    refine .query fun err => ?_
    by_cases herr : err ≠ 0
    · rw [if_pos herr]
      exact hfail
    · rw [if_neg herr]
      refine .query fun err => ?_
      by_cases herr : err ≠ 0
      · rw [if_pos herr]
        exact hfail
      · rw [if_neg herr]
        refine .take (fun _ => rfl) hfail fun base _ => .pure _ ?_
        rw [opened_some, TlRingWriter.created_owns]
        abel

theorem tlRingLatch_turns (ring : TlRingWriter) (payloadSize : Nat)
    (staged : Option DurableShmSegment) :
    Turns realm (tlRingLatch ring payloadSize staged) (ring.owns + durable staged)
      fun r => r.1.1.owns + durable r.1.2.1 := by
  unfold tlRingLatch
  split
  · rename_i h
    split
    · exact (destroySegment_turns staged (add_comm _ _)).bind fun _ => .pure _ (add_zero _).symm
    · refine .query fun err => ?_
      split
      · exact (destroySegment_turns staged (add_comm _ _)).bind fun _ => .pure _ (add_zero _).symm
      · refine .pure _ ?_
        have hset := TlRingWriter.segments_set staged (TlRingWriter.slot_lt h)
        show ring.body + ring.file + _ + durable staged =
          ring.body + ring.file + TlRingWriter.segments (ring.durableSegs.set ring.slot staged) +
            durable (ring.durableSegs.get ⟨ring.slot, TlRingWriter.slot_lt h⟩)
        rw [add_assoc _ _ (durable (ring.durableSegs.get _)), hset]
        exact add_assoc _ _ _
  · exact (destroySegment_turns staged (add_comm _ _)).bind fun _ => .pure _ (add_zero _).symm

theorem DurableShmSegment.owns_closed (seg : DurableShmSegment) : realm.Closed seg.owns := by
  simp [DurableShmSegment.owns, Realm.Closed, Resource.guard]

theorem TlRingWriter.segments_closed (segs : List (Option DurableShmSegment)) :
    realm.Closed (segments segs) := by
  induction segs with
  | nil => exact .zero
  | cons seg segs ih =>
    cases seg with
    | none => exact Realm.Closed.zero.add ih
    | some seg => exact seg.owns_closed.add ih

theorem TlRingWriter.owns_closed (ring : TlRingWriter) : realm.Closed ring.owns := by
  have hring : realm.Closed (ring.body + ring.file) := by
    unfold body file
    cases ring.base <;> cases ring.fd <;> cases ring.shmName <;>
      simp [Realm.Closed, Resource.guard]
  exact hring.add (segments_closed ring.durableSegs)

/-- The file of the ring may be gone already, with the slot that has named it. -/
theorem tlRingClose_turns (ring : TlRingWriter) {there : Multiset Resource}
    (hmine : mine' = ring.body + there + TlRingWriter.segments ring.durableSegs + mine)
    (hthere : there = 0 ∨ there = ring.file)
    (hgone : ∀ owner ∈ ring.shmName, .file (.latched owner) ∉ mine) :
    Turns realm (tlRingClose ring) mine' fun _ => mine := by
  have hbase : mine' = held (ring.base.map (.mapping ring.mapSize)) +
      (held (ring.fd.map .fd) + (held (ring.shmName.map .owner) + there +
        (TlRingWriter.segments ring.durableSegs + mine))) := by
    rw [hmine, TlRingWriter.body]
    abel
  refine .freeOption (by simp [Resource.isDraw]) hbase ?_
  refine .freeOption (by simp [Resource.isDraw]) rfl ?_
  cases hname : ring.shmName with
  | none =>
    have hthere : there = 0 := by
      rcases hthere with h | h
      · exact h
      · rw [h, TlRingWriter.file, hname]
        rfl
    rw [hthere]
    exact destroySegments_turns ring.durableSegs (by simp)
  | some owner =>
    have hperhaps : Perhaps (.latched owner) there := by
      rcases hthere with h | h
      · exact .inl h
      · rw [h, TlRingWriter.file, hname]
        exact .inr rfl
    have hsplit : held (Option.map Resource.owner (some owner)) + there +
          (TlRingWriter.segments ring.durableSegs + mine) =
        there + ({.owner owner} + (TlRingWriter.segments ring.durableSegs + mine)) := by
      show {.owner owner} + there + _ = _
      abel
    have hgone' : .file (.latched owner) ∉
        ({.owner owner} + (TlRingWriter.segments ring.durableSegs + mine) :
          Multiset Resource) := by
      simp [TlRingWriter.segments_no_latched, hgone owner hname]
    refine unlink_turns rfl (by simp) hgone' hperhaps hsplit ?_
    exact .drop (by simp [Resource.isDraw]) rfl (destroySegments_turns ring.durableSegs rfl)

/-! ## The mappings of a reader -/

/-- `ShmReaderCache::Mapping` with its key. -/
structure Mapped where
  key : Key
  base : Nat
  size : Nat
  deriving DecidableEq

def Mapped.resource (m : Mapped) : Resource :=
  .mapping m.size m.base

/-- What a cache records. -/
def mappings (cache : List Mapped) : Multiset Resource :=
  (cache.map Mapped.resource : List Resource)

/-- The sweep of `map_segment` over the names that are gone. -/
def probeStale : List Mapped → Prog Resource (List Mapped)
  | [] => return []
  | m :: ms => do
    match ← take .fd none with
    | none =>
      if (← query) = ENOENT then
        free m.resource
        probeStale ms
      else
        let kept ← probeStale ms
        return m :: kept
    | some probe =>
      free (.fd probe)
      let kept ← probeStale ms
      return m :: kept

/-- The mappings of other generations of the ring go. -/
def supersede (key : Key) : List Mapped → Prog Resource (List Mapped)
  | [] => return []
  | m :: ms => do
    if m.key.ownerPid = key.ownerPid ∧ m.key.ownerId = key.ownerId ∧
        m.key.segmentId ≠ key.segmentId then
      free m.resource
      supersede key ms
    else
      let kept ← supersede key ms
      return m :: kept

/-- The new mapping of `map_segment`, once the file is open. -/
def mapOpen (cache : List Mapped) (key : Key) (fd : Nat) :
    Prog Resource (List Mapped × Bool) := do
  let fstatResult ← query
  let size ← query
  if fstatResult ≠ 0 ∨ size < ringHeaderSize then
    free (.fd fd)
    return (cache, false)
  else
    let base ← take (.mapping size) none
    free (.fd fd)
    match base with
    | none => return (cache, false)
    | some base =>
      -- the header is validated before anything trusts it
      if (← query) ≠ 0 then
        free (.mapping size base)
        return (cache, false)
      else
        let kept ← supersede key cache
        return (⟨key, base, size⟩ :: kept, true)

/-- The sweep runs only when the cache has grown. -/
def sweepStale (cache : List Mapped) : Prog Resource (List Mapped) :=
  if 8 ≤ cache.length then probeStale cache else return cache

/-- `map_segment`: the cache, and whether the segment is mapped. -/
def mapSegment (cache : List Mapped) (key : Key) : Prog Resource (List Mapped × Bool) := do
  if cache.any fun m => m.key = key then
    return (cache, true)
  else
    let swept ← sweepStale cache
    match ← take .fd none with
    | none => return (swept, false)
    | some fd => mapOpen swept key fd

/-- `shm_reader_close`. -/
def shmReaderClose (cache : List Mapped) : Prog Resource Unit := do
  freeAll (cache.map Mapped.resource)
  return ()

theorem mappings_cons (m : Mapped) (cache : List Mapped) :
    mappings (m :: cache) = {m.resource} + mappings cache := rfl

theorem Mapped.not_token (m : Mapped) : ¬realm.IsToken m.resource := by
  simp [Mapped.resource, Resource.isDraw]

theorem probeStale_turns (cache : List Mapped) (mine : Multiset Resource) :
    Turns realm (probeStale cache) (mappings cache + mine)
      fun kept => mappings kept + mine := by
  induction cache generalizing mine with
  | nil => exact .pure [] rfl
  | cons m ms ih =>
    have hkeep : Turns realm (probeStale ms >>= fun kept => pure (m :: kept))
        (mappings (m :: ms) + mine) fun kept => mappings kept + mine := by
      have hsplit : mappings (m :: ms) + mine = mappings ms + ({m.resource} + mine) := by
        rw [mappings_cons]
        abel
      rw [hsplit]
      refine (ih ({m.resource} + mine)).bind fun kept => .pure _ ?_
      rw [mappings_cons]
      abel
    refine .take (fun _ => rfl) ?_ fun probe _ => ?_
    · refine .query fun errno => ?_
      split
      · exact .free m.not_token (by rw [mappings_cons, add_assoc]) (ih mine)
      · exact hkeep
    · exact .free (by simp [Resource.isDraw]) rfl hkeep

theorem supersede_turns (key : Key) (cache : List Mapped) (mine : Multiset Resource) :
    Turns realm (supersede key cache) (mappings cache + mine)
      fun kept => mappings kept + mine := by
  induction cache generalizing mine with
  | nil => exact .pure [] rfl
  | cons m ms ih =>
    unfold supersede
    split
    · exact .free m.not_token (by rw [mappings_cons, add_assoc]) (ih mine)
    · have hsplit : mappings (m :: ms) + mine = mappings ms + ({m.resource} + mine) := by
        rw [mappings_cons]
        abel
      rw [hsplit]
      refine (ih ({m.resource} + mine)).bind fun kept => .pure _ ?_
      rw [mappings_cons]
      abel

theorem mapOpen_turns (cache : List Mapped) (key : Key) (fd : Nat)
    (mine : Multiset Resource) :
    Turns realm (mapOpen cache key fd) ({.fd fd} + (mappings cache + mine))
      fun r => mappings r.1 + mine := by
  refine .query fun fstatResult => .query fun size => ?_
  split
  · exact .free (by simp [Resource.isDraw]) rfl (.pure _ rfl)
  · refine .take (fun _ => rfl) ?_ fun base _ => ?_
    · exact .free (by simp [Resource.isDraw]) rfl (.pure _ rfl)
    · refine .free (by simp [Resource.isDraw]) (add_left_comm _ _ _) ?_
      refine .query fun invalid => ?_
      split
      · exact .free (by simp [Resource.isDraw]) rfl (.pure _ rfl)
      · rw [add_left_comm]
        refine (supersede_turns key cache _).bind fun kept => .pure _ ?_
        rw [mappings_cons, Mapped.resource]
        abel

theorem sweepStale_turns (cache : List Mapped) (mine : Multiset Resource) :
    Turns realm (sweepStale cache) (mappings cache + mine)
      fun swept => mappings swept + mine := by
  unfold sweepStale
  split
  · exact probeStale_turns cache mine
  · exact .pure _ rfl

theorem mapSegment_turns (cache : List Mapped) (key : Key) (mine : Multiset Resource) :
    Turns realm (mapSegment cache key) (mappings cache + mine)
      fun r => mappings r.1 + mine := by
  unfold mapSegment
  split
  · exact .pure _ rfl
  · refine (sweepStale_turns cache mine).bind fun swept => ?_
    refine .take (fun _ => rfl) (.pure _ rfl) fun fd _ => ?_
    exact mapOpen_turns swept key fd mine

theorem shmReaderClose_turns (cache : List Mapped) (hmine : mine' = mappings cache + mine) :
    Turns realm (shmReaderClose cache) mine' fun _ => mine := by
  refine .freeAll ?_ hmine (.pure () rfl)
  intro r hr
  obtain ⟨m, -, rfl⟩ := List.mem_map.mp hr
  exact m.not_token

/-- `tl_ring_pull`: whether it finds records.  The mapping does not outlive the call. -/
def tlRingPull : Prog Resource Bool := do
  match ← take .fd none with
  | none => return false
  | some fd =>
    let fstatResult ← query
    let size ← query
    if fstatResult ≠ 0 ∨ size < SHM_RECORD_ALIGN then
      free (.fd fd)
      return false
    else
      let base ← take (.mapping size) none
      free (.fd fd)
      match base with
      | none => return false
      | some base =>
        if (← query) ≠ 0 then
          free (.mapping size base)
          return false
        else
          let found ← query
          free (.mapping size base)
          return found ≠ 0

theorem tlRingPull_turns (mine : Multiset Resource) :
    Turns realm tlRingPull mine fun _ => mine := by
  refine .take (fun _ => rfl) (.pure _ rfl) fun fd _ => ?_
  refine .query fun fstatResult => .query fun size => ?_
  split
  · exact .free (by simp [Resource.isDraw]) rfl (.pure _ rfl)
  · refine .take (fun _ => rfl) ?_ fun base _ => ?_
    · exact .free (by simp [Resource.isDraw]) rfl (.pure _ rfl)
    · refine .free (by simp [Resource.isDraw]) (add_left_comm _ _ _) ?_
      refine .query fun invalid => ?_
      split
      · exact .free (by simp [Resource.isDraw]) rfl (.pure _ rfl)
      · exact .query fun found => .free (by simp [Resource.isDraw]) rfl (.pure _ rfl)

end RmwUnixSocket.Lifecycle
