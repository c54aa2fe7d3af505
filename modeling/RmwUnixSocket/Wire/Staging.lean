import RmwUnixSocket.Wire.Transport

/-!
# What the sending paths put on the wire

Every path of a sender ends with a header and bytes that carry the message
(`Message.Carried`): the payload itself, or the descriptor of a record whose
bytes at the commit are the payload (`Staged.Holds`).

There is one spec for each call.  `Stage.Leads` says what a call does to the
names: it keeps the segment of the ring, or it replaces it by a new one under
the name `Stage.creates`.  `Stage.Sends` is the spec of a whole send,
`Durable` the one of `shm_stage_durable`.
-/

namespace RmwUnixSocket.Wire

open ByteMemory
open Payload (ShmRingWriter recordBytes alignUp ringHeaderSize recordHeaderSize
  UINT32_MAX)
open Latch (TL_EMBED_CAP SHM_PAYLOAD_THRESHOLD wireHeaderSize descriptorSize)
open Hostile (ShmPayloadDescriptor Key)

/-! ## What carries a message -/

/-- The record was committed with the payload. -/
structure Staged.Holds (st : Staged) (payload : List UInt8) : Prop where
  size : st.desc.payloadSize.toNat = payload.length
  bytes : st.area.slice (st.desc.offset.toNat + recordHeaderSize)
    payload.length = payload

/-- The header and the bytes carry the message, inline or through a record. -/
def Message.Carried (m : Message) (staged : Option Staged) (hdr : WireHeader)
    (wire : List UInt8) : Prop :=
  match staged with
  | none => hdr = m.header ∧ wire = m.payload
  | some st => hdr = m.header.shm ∧ wire = st.desc.toBytes ∧ st.Holds m.payload

theorem Message.carried_inline (m : Message) :
    m.Carried m.inline.staged m.inline.hdr m.inline.wire :=
  ⟨rfl, rfl⟩

theorem Message.carried_described {m : Message} {st : Staged}
    (h : st.Holds m.payload) :
    m.Carried (some st) (m.described st).hdr (m.described st).wire :=
  ⟨rfl, rfl, h⟩

/-- A stored payload is in the record behind its header, whatever the commit
stores into the header. -/
theorem slice_committed (mem : ByteMemory) (offset : Nat)
    (len seq payload : List UInt8) (hlen : len.length = 4)
    (hseq : seq.length = 4) :
    (((mem.storeBytes (offset + recordHeaderSize) payload).storeBytes
      (offset + 4) len).storeBytes offset seq).slice
      (offset + recordHeaderSize) payload.length = payload := by
  have hmiss : ¬Hits offset seq.length (offset + recordHeaderSize)
      payload.length := by
    simp only [Hits, hseq, recordHeaderSize]
    omega
  have hmiss' : ¬Hits (offset + 4) len.length (offset + recordHeaderSize)
      payload.length := by
    simp only [Hits, hlen, recordHeaderSize]
    omega
  rw [slice_storeBytes hmiss, slice_storeBytes hmiss', slice_storeBytes_self]

theorem Message.toNat_length (m : Message) :
    (UInt32.ofNat m.payload.length).toNat = m.payload.length := by
  rw [UInt32.toNat_ofNat']
  exact Nat.mod_eq_of_lt m.fits

/-! ## Names -/

section Names

variable {shm : Shm} {key key' : Key} {area : Nat}

theorem Shm.linked_of_unlink {o : Nat}
    (h : (shm.unlink key).linked key' = some o) :
    shm.linked key' = some o := by
  simp only [Shm.unlink] at h
  by_cases heq : key' = key
  · subst heq
    simp at h
  · rwa [Function.update_of_ne heq] at h

@[simp] theorem Shm.create_linked : (shm.create key area).linked =
    Function.update shm.linked key (some shm.next) := rfl

@[simp] theorem Shm.store_linked (o addr : Nat) (bytes : List UInt8) :
    (shm.store o addr bytes).linked = shm.linked := rfl

@[simp] theorem Shm.store_area_self (o addr : Nat) (bytes : List UInt8) :
    (shm.store o addr bytes).area o = (shm.area o).storeBytes addr bytes := by
  simp [Shm.area, Shm.store]

theorem Shm.store_area_of_ne {o o' addr : Nat} {bytes : List UInt8}
    (h : o' ≠ o) : (shm.store o addr bytes).area o' = shm.area o' := by
  simp [Shm.area, Shm.store, h]

/-- What a creation leaves behind: the name of the new object, or no new
name. -/
theorem Shm.tryCreate_cases (shm : Shm) (key : Key) (area : Nat)
    (creation : Creation) :
    (creation = .created ∧ ringHeaderSize + area < 2 ^ 63 ∧
        shm.tryCreate key area creation =
          (shm.create key area, some shm.next)) ∨
      (shm.tryCreate key area creation).2 = none ∧
        (∀ key' o, (shm.tryCreate key area creation).1.linked key' = some o →
          shm.linked key' = some o) ∧
        (shm.tryCreate key area creation).1.objects = shm.objects ∧
        (shm.tryCreate key area creation).1.next = shm.next := by
  cases creation with
  | created =>
    by_cases hfits : ringHeaderSize + area < 2 ^ 63
    · exact .inl ⟨rfl, hfits, if_pos hfits⟩
    · rw [Shm.tryCreate, if_neg hfits]
      exact .inr ⟨rfl, fun _ _ => Shm.linked_of_unlink, rfl, rfl⟩
  | refused opened =>
    cases opened with
    | false => exact .inr ⟨rfl, fun _ _ h => h, rfl, rfl⟩
    | true => exact .inr ⟨rfl, fun _ _ => Shm.linked_of_unlink, rfl, rfl⟩

end Names

/-! ## The calls of a payload ring -/

/-- The capacity of a ring is below 2^63, and a ring that is mapped has its
id. -/
structure Sender.Ok (w : Sender) : Prop where
  bound : w.ring.ringBytes < 2 ^ 63
  owned : w.ring.mapped = true → w.ownerPid.isSome = true

namespace Stage

variable {page : Nat} {pid : UInt32} {io : SendIo} {c c' c'' : Stage}

/-- The name under which a staging call makes a new segment, if it does. -/
def creates (page : Nat) (pid : UInt32) (io : SendIo) (c : Stage)
    (maxPayloadSize : Nat) : Option Key :=
  if maxPayloadSize ≤ UINT32_MAX ∧ c.sender.ring.needsSegment maxPayloadSize ∧
      io.creation = .created ∧
      ringHeaderSize + ShmRingWriter.newArea page maxPayloadSize < 2 ^ 63 then
    some (c.newKey pid io)
  else none

/-- The name under which a send makes a new segment.  `size` is the size that
is compared with the threshold. -/
def sendCreates (page : Nat) (pid : UInt32) (io : SendIo) (c : Stage)
    (size : Nat) : Option Key :=
  if size < SHM_PAYLOAD_THRESHOLD then none else c.creates page pid io size

/-- The ring keeps its segment, and no name is new. -/
structure Keeps (c c' : Stage) : Prop where
  segment : c'.sender.ring.mapped = true →
    c.sender.ring.mapped = true ∧ c'.sender.key = c.sender.key ∧
      c'.sender.object = c.sender.object
  linked : ∀ key o, c'.shm.linked key = some o → c.shm.linked key = some o

/-- The ring has a new segment with the name `new`. -/
structure Creates (new : Key) (c c' : Stage) : Prop where
  mapped : c'.sender.ring.mapped = true
  key : c'.sender.key = new
  linked : ∀ key o, c'.shm.linked key = some o →
    key = new ∧ o = c'.sender.object ∨ key ≠ new ∧ c.shm.linked key = some o

/-- What a call with one creation at most does to the names. -/
def Leads (new : Option Key) (c c' : Stage) : Prop :=
  c.Keeps c' ∨ ∃ key, new = some key ∧ Creates key c c'

/-- A call that makes no segment: the names are the same as before. -/
structure Stays (c c' : Stage) : Prop where
  mapped : c'.sender.ring.mapped = c.sender.ring.mapped
  ownerPid : c'.sender.ownerPid = c.sender.ownerPid
  key : c'.sender.key = c.sender.key
  object : c'.sender.object = c.sender.object
  linked : c'.shm.linked = c.shm.linked
  ringBytes : c'.sender.ring.ringBytes = c.sender.ring.ringBytes

theorem Stays.refl (c : Stage) : c.Stays c := ⟨rfl, rfl, rfl, rfl, rfl, rfl⟩

theorem Stays.trans (h : c.Stays c') (h' : c'.Stays c'') : c.Stays c'' where
  mapped := h'.mapped.trans h.mapped
  ownerPid := h'.ownerPid.trans h.ownerPid
  key := h'.key.trans h.key
  object := h'.object.trans h.object
  linked := h'.linked.trans h.linked
  ringBytes := h'.ringBytes.trans h.ringBytes

theorem Keeps.refl (c : Stage) : c.Keeps c :=
  ⟨fun h => ⟨h, rfl, rfl⟩, fun _ _ h => h⟩

theorem Leads.stays {new : Option Key} (h : Leads new c c')
    (h' : c'.Stays c'') : Leads new c c'' := by
  rcases h with hkeeps | ⟨key, hnew, hcreates⟩
  · refine .inl ⟨fun hmapped => ?_, fun key o hlinked => ?_⟩
    · rw [h'.mapped] at hmapped
      rw [h'.key, h'.object]
      exact hkeeps.segment hmapped
    · rw [h'.linked] at hlinked
      exact hkeeps.linked key o hlinked
  · refine .inr ⟨key, hnew, ?_, ?_, fun key' o hlinked => ?_⟩
    · rw [h'.mapped, hcreates.mapped]
    · rw [h'.key, hcreates.key]
    · rw [h'.linked] at hlinked
      rw [h'.object]
      exact hcreates.linked key' o hlinked

theorem mark_stays (c : Stage) (n : Nat) : c.Stays (c.mark n) := by
  refine ⟨?_, rfl, ?_, rfl, rfl, ?_⟩
  · simp only [mark, ShmRingWriter.wrap]
    split <;> rfl
  · simp only [mark, ShmRingWriter.wrap, Sender.key, Sender.keyOf]
    split <;> rfl
  · simp only [mark, ShmRingWriter.wrap]
    split <;> rfl

theorem write_stays (c : Stage) (bytes : List UInt8) :
    c.Stays (c.write bytes) := ⟨rfl, rfl, rfl, rfl, rfl, rfl⟩

theorem abort_stays (c : Stage) : c.Stays c.abort := ⟨rfl, rfl, rfl, rfl, rfl, rfl⟩

theorem commit_stays (c : Stage) (n : Nat) : c.Stays (c.commit n).1 := by
  unfold commit
  split
  · exact c.abort_stays
  · exact ⟨rfl, rfl, rfl, rfl, rfl, rfl⟩

theorem assignOwner_ring (c : Stage) :
    (c.assignOwner pid io).sender.ring = c.sender.ring := by
  unfold assignOwner
  split <;> rfl

theorem assignOwner_shm (c : Stage) :
    (c.assignOwner pid io).shm = c.shm := by
  unfold assignOwner
  split <;> rfl

/-- `create_segment` makes a segment under a new name, or leaves the segment
of the ring as it was. -/
theorem createSegment_spec {n : Nat} (h : c.sender.Ok)
    (hneeds : c.sender.ring.needsSegment n = true) (hsize : n ≤ UINT32_MAX) :
    (c.createSegment pid io (ShmRingWriter.newArea page n)).1.sender.Ok ∧
      Leads (creates page pid io c n) c
        (c.createSegment pid io (ShmRingWriter.newArea page n)).1 ∧
      ((c.createSegment pid io (ShmRingWriter.newArea page n)).2 = true →
        (c.createSegment pid io
          (ShmRingWriter.newArea page n)).1.sender.ring.mapped = true) := by
  have howner : (c.assignOwner pid io).sender.ownerPid.isSome = true := by
    unfold assignOwner
    split
    · rfl
    · rename_i hsome
      rw [Option.isNone_iff_eq_none] at hsome
      exact Option.ne_none_iff_isSome.mp hsome
  obtain ⟨hcreated, hfits, hmade⟩ | ⟨hnone, hlinked, -⟩ :=
    Shm.tryCreate_cases (c.assignOwner pid io).shm (c.newKey pid io)
      (ShmRingWriter.newArea page n) io.creation
  · unfold createSegment
    simp only [hmade]
    refine ⟨⟨?_, fun _ => howner⟩, .inr ⟨c.newKey pid io, ?_, rfl, ?_, ?_⟩,
      fun _ => rfl⟩
    · exact Nat.lt_of_le_of_lt (Nat.le_add_left _ _) hfits
    · exact if_pos ⟨hsize, hneeds, hcreated, hfits⟩
    · simp only [Sender.key, newKey, ShmRingWriter.createSegment,
        assignOwner_ring]
      rfl
    · -- The old name is free, and the new one belongs to the new object.
      intro key o' hkey
      have hbefore : (((c.assignOwner pid io).shm.create (c.newKey pid io)
          (ShmRingWriter.newArea page n))).linked key = some o' := by
        split at hkey
        · exact Shm.linked_of_unlink hkey
        · exact hkey
      rw [Shm.create_linked] at hbefore
      by_cases heq : key = c.newKey pid io
      · subst heq
        rw [Function.update_self] at hbefore
        exact .inl ⟨rfl, (Option.some.inj hbefore).symm⟩
      · rw [Function.update_of_ne heq, assignOwner_shm] at hbefore
        exact .inr ⟨heq, hbefore⟩
  · unfold createSegment
    simp only [hnone]
    refine ⟨⟨?_, fun _ => howner⟩, .inl ⟨fun hmapped => ?_, ?_⟩, nofun⟩
    · rw [assignOwner_ring]
      exact h.bound
    · rw [assignOwner_ring] at hmapped
      have hsame : c.assignOwner pid io = c := by
        unfold assignOwner
        rw [if_neg]
        rw [Option.isNone_iff_eq_none]
        exact Option.ne_none_iff_isSome.mpr (h.owned hmapped)
      rw [hsame]
      exact ⟨hmapped, rfl, rfl⟩
    · intro key o hkey
      have hold := hlinked key o hkey
      rwa [assignOwner_shm] at hold

theorem Stays.ok (h : c.Stays c') (hok : c.sender.Ok) : c'.sender.Ok where
  bound := by
    rw [h.ringBytes]
    exact hok.bound
  owned := by
    rw [h.mapped, h.ownerPid]
    exact hok.owned

theorem ensureSegment_spec (page : Nat) (pid : UInt32) (io : SendIo) {n : Nat}
    (h : c.sender.Ok) (hsize : n ≤ UINT32_MAX) :
    (c.ensureSegment page pid io n).1.sender.Ok ∧
      Leads (creates page pid io c n) c (c.ensureSegment page pid io n).1 ∧
      ((c.ensureSegment page pid io n).2 = true →
        (c.ensureSegment page pid io n).1.sender.ring.mapped = true) := by
  unfold ensureSegment
  split
  · rename_i hneeds
    exact createSegment_spec h hneeds hsize
  · rename_i hneeds
    refine ⟨h, .inl (.refl c), fun _ => ?_⟩
    simp only [ShmRingWriter.needsSegment, Bool.or_eq_true, not_or] at hneeds
    simpa using hneeds.1

/-- What a call with one creation at most leaves behind. -/
structure Spec (new : Option Key) (c c' : Stage) : Prop where
  ok : c'.sender.Ok
  leads : Leads new c c'

theorem Spec.refl {new : Option Key} (h : c.sender.Ok) : Spec new c c :=
  ⟨h, .inl (.refl c)⟩

theorem Spec.stays {new : Option Key} (h : Spec new c c') (h' : c'.Stays c'') :
    Spec new c c'' :=
  ⟨h'.ok h.ok, h.leads.stays h'⟩

/-- A reservation is in a mapped segment, below its capacity. -/
structure Reserved (c : Stage) : Prop where
  mapped : c.sender.ring.mapped = true
  offset : c.sender.ring.nextOffset < 2 ^ 64

theorem mark_reserved {n : Nat} (h : c.sender.Ok)
    (hmapped : c.sender.ring.mapped = true) : (c.mark n).Reserved := by
  refine ⟨(c.mark_stays n).mapped.trans hmapped, ?_⟩
  have hbound := h.bound
  simp only [mark, ShmRingWriter.wrap]
  split
  · show 0 < 2 ^ 64
    omega
  · show c.sender.ring.nextOffset < 2 ^ 64
    omega

theorem reserve_spec (page : Nat) (pid : UInt32) (io : SendIo) (n : Nat)
    (h : c.sender.Ok) :
    Spec (creates page pid io c n) c (c.reserve page pid io n).1 ∧
      ((c.reserve page pid io n).2 = true →
        (c.reserve page pid io n).1.Reserved) := by
  unfold reserve
  split
  · exact ⟨.refl h, nofun⟩
  · rename_i hsize
    obtain ⟨hok, hleads, hmapped⟩ :=
      ensureSegment_spec page pid io h (Nat.not_lt.mp hsize)
    dsimp only
    split
    · rename_i hensured
      exact ⟨Spec.stays ⟨hok, hleads⟩ (mark_stays _ n),
        fun _ => mark_reserved hok (hmapped hensured)⟩
    · exact ⟨⟨hok, hleads⟩, nofun⟩

/-- The record belongs to the segment that the ring has mapped. -/
structure Names (c : Stage) (st : Staged) : Prop where
  mapped : c.sender.ring.mapped = true
  key : st.desc.key = c.sender.key
  object : st.object = c.sender.object

/-- A payload that was written into a reservation is in the record that is
committed. -/
theorem commit_spec {m : Message} (h : c.Reserved) {st : Staged}
    (hst : ((c.write m.payload).commit m.payload.length).2 = some st) :
    ((c.write m.payload).commit m.payload.length).1.Names st ∧
      st.Holds m.payload := by
  unfold commit at hst ⊢
  split at hst
  · cases hst
  · rename_i hcap
    cases hst
    rw [if_neg hcap]
    refine ⟨⟨h.mapped, rfl, rfl⟩, m.toNat_length, ?_⟩
    have hoffset : (UInt64.ofNat c.sender.ring.nextOffset).toNat =
        c.sender.ring.nextOffset := by
      rw [UInt64.toNat_ofNat']
      exact Nat.mod_eq_of_lt h.offset
    simp only [write, Sender.descriptor, hoffset, Shm.store_area_self]
    exact slice_committed _ _ _ _ _ (length_leBytes 4 _) (length_leBytes 4 _)

theorem stagePayload_spec (page : Nat) (pid : UInt32) (io : SendIo)
    (m : Message) (h : c.sender.Ok) :
    Spec (creates page pid io c m.payload.length) c
        (c.stagePayload page pid io m.payload).1 ∧
      ∀ st, (c.stagePayload page pid io m.payload).2 = some st →
        (c.stagePayload page pid io m.payload).1.Names st ∧
          st.Holds m.payload := by
  obtain ⟨hspec, hreserved⟩ := reserve_spec page pid io m.payload.length h
  unfold stagePayload
  dsimp only
  split
  · rename_i hres
    refine ⟨?_, fun st hst => commit_spec (hreserved hres) hst⟩
    exact hspec.stays (((write_stays _ _)).trans (commit_stays _ _))
  · exact ⟨hspec, nofun⟩

/-! ## Whole sends -/

/-- A send: its spec, and what it puts on the wire. -/
structure Sends (new : Option Key) (c c' : Stage) (m : Message)
    (out : Option Outbound) : Prop where
  spec : Spec new c c'
  carried : ∀ o, out = some o → m.Carried o.staged o.hdr o.wire
  names : ∀ o, out = some o → ∀ st, o.staged = some st → c'.Names st

theorem Spec.inline {new : Option Key} {m : Message} (h : Spec new c c') :
    Sends new c c' m (some m.inline) where
  spec := h
  carried o ho := by
    cases ho
    exact m.carried_inline
  names o ho st hst := by
    cases ho
    cases hst

theorem Spec.described {new : Option Key} {m : Message} {st : Staged}
    (h : Spec new c c') (hnames : c'.Names st) (hholds : st.Holds m.payload) :
    Sends new c c' m (some (m.described st)) where
  spec := h
  carried o ho := by
    cases ho
    exact Message.carried_described hholds
  names o ho st' hst' := by
    cases ho
    cases hst'
    exact hnames

theorem prepareSend_spec (page : Nat) (pid : UInt32) (io : SendIo)
    (m : Message) (h : c.sender.Ok) :
    Sends (sendCreates page pid io c m.payload.length) c
      (c.prepareSend page pid io m).1 m
      (some (c.prepareSend page pid io m).2) := by
  obtain ⟨hspec, hstaged⟩ := stagePayload_spec page pid io m h
  unfold prepareSend sendCreates
  split
  · exact (Spec.refl h).inline
  · dsimp only
    split
    · rename_i st hst
      obtain ⟨hnames, hholds⟩ := hstaged st hst
      exact hspec.described hnames hholds
    · exact hspec.inline

theorem serializeInline_spec {new : Option Key} {m : Message} (est : Nat)
    (h : Spec new c c') :
    Sends new c (c'.serializeInline m est).1 m
      (c'.serializeInline m est).2 := by
  unfold serializeInline
  split
  · exact ⟨h, nofun, nofun⟩
  · exact h.inline

theorem serializePrepareSend_spec (page : Nat) (pid : UInt32) (io : SendIo)
    (m : Message) (est : Nat) (h : c.sender.Ok) :
    Sends (sendCreates page pid io c est) c
      (c.serializePrepareSend page pid io m est).1 m
      (c.serializePrepareSend page pid io m est).2 := by
  obtain ⟨hspec, hreserved⟩ := reserve_spec page pid io est h
  unfold serializePrepareSend sendCreates
  split
  · exact serializeInline_spec est (.refl h)
  · dsimp only
    split
    · rename_i hres
      split
      · have hdone := hspec.stays
          ((write_stays _ m.payload).trans (commit_stays _ m.payload.length))
        split
        · rename_i st hst
          obtain ⟨hnames, hholds⟩ := commit_spec (hreserved hres) hst
          exact hdone.described hnames hholds
        · exact serializeInline_spec est (hdone.stays (abort_stays _))
      · exact serializeInline_spec est
          (hspec.stays ((write_stays _ _).trans (abort_stays _)))
    · exact serializeInline_spec est hspec

end Stage

/-! ## Durable segments and slots -/

/-- The name under which a latched publish makes a durable segment, if it
does. -/
def durableCreates (page : Nat) (pid clock : UInt32) (creation : Creation)
    (counter : UInt32) (payloadSize : Nat) : Option Key :=
  if TL_EMBED_CAP < payloadSize ∧ payloadSize ≤ UINT32_MAX ∧
      creation = .created ∧
      ringHeaderSize + alignUp (recordBytes payloadSize) page < 2 ^ 63 then
    some (durableDescriptor pid clock counter payloadSize).key
  else none

/-- A latched publish stages nothing, or a record with the payload under a new
name. -/
structure Durable (new : Option Key) (shm shm' : Shm) (m : Message)
    (staged : Option Staged) : Prop where
  linked : ∀ key o, shm'.linked key = some o → shm.linked key = some o ∨
    ∃ st, staged = some st ∧ key = st.desc.key ∧ o = st.object
  names : ∀ st, staged = some st → new = some st.desc.key ∧
    st.Holds m.payload ∧ ∀ o, shm'.linked st.desc.key = some o → o = st.object
  next : shm.next ≤ shm'.next
  kept : ∀ o < shm.next, shm'.area o = shm.area o
  stored : ∀ st, staged = some st →
    st.object < shm'.next ∧ shm'.area st.object = st.area

theorem shmStageDurable_spec (page : Nat) (pid clock : UInt32)
    (creation : Creation) (shm : Shm) (counter : UInt32) (m : Message)
    (hcap : TL_EMBED_CAP < m.payload.length) :
    Durable (durableCreates page pid clock creation counter m.payload.length)
      shm
      (shmStageDurable page pid clock creation shm counter m.payload).1 m
      (shmStageDurable page pid clock creation shm counter m.payload).2.2 := by
  unfold shmStageDurable
  split
  · exact ⟨fun key o hkey => .inl hkey, fun st hst => (by cases hst), Nat.le_refl _,
      fun _ _ => rfl, fun st hst => (by cases hst)⟩
  · rename_i hsize
    dsimp only
    obtain ⟨hcreated, hfits, hmade⟩ | ⟨hnone, hlinked, hobjects⟩ :=
      Shm.tryCreate_cases shm
        (durableDescriptor pid clock counter m.payload.length).key
        (alignUp (recordBytes m.payload.length) page) creation
    · simp only [hmade]
      refine ⟨fun key o' hkey => ?_, fun st hst => ?_, Nat.le_succ _,
        fun o' ho' => ?_, fun st hst => ?_⟩
      · simp only [Shm.store_linked, Shm.create_linked] at hkey
        by_cases heq :
            key = (durableDescriptor pid clock counter m.payload.length).key
        · subst heq
          rw [Function.update_self] at hkey
          exact .inr ⟨_, rfl, rfl, (Option.some.inj hkey).symm⟩
        · rw [Function.update_of_ne heq] at hkey
          exact .inl hkey
      · cases hst
        refine ⟨if_pos ⟨hcap, Nat.not_lt.mp hsize, hcreated, hfits⟩,
          ⟨m.toNat_length, ?_⟩, fun o' ho' => ?_⟩
        · simp only [Shm.store_area_self, durableDescriptor]
          have hmiss : ¬Hits 0 (leBytes 4 2).length
              ((0 : UInt64).toNat + recordHeaderSize) m.payload.length := by
            simp only [Hits, length_leBytes, recordHeaderSize]
            omega
          rw [slice_storeBytes hmiss]
          exact slice_storeBytes_self
        · simp only [Shm.store_linked, Shm.create_linked,
            Function.update_self] at ho'
          exact (Option.some.inj ho').symm
      · have hne : o' ≠ shm.next := Nat.ne_of_lt ho'
        rw [Shm.store_area_of_ne hne, Shm.store_area_of_ne hne,
          Shm.store_area_of_ne hne]
        exact congrArg Payload.Segment.area (Function.update_of_ne hne _ _)
      · cases hst
        exact ⟨Nat.lt_succ_self _, rfl⟩
    · simp only [hnone]
      exact ⟨fun key o' hkey => .inl (hlinked key o' hkey), fun st hst => (by cases hst),
        Nat.le_of_eq hobjects.2.symm, fun o' _ => (by rw [Shm.area, hobjects.1]),
        fun st hst => (by cases hst)⟩

/-- What a pull reads from a slot carries the sample that was latched. -/
def TlSlot.Ok (slot : TlSlot) : Prop :=
  ∀ m staged, slot.latched = some (m, staged) →
    ∀ hdr wire, slot.read = some (hdr, wire) →
      m.Carried staged (WireHeader.ofBytes hdr) wire

theorem TlSlot.zero_ok : TlSlot.zero.Ok := nofun

/-- A slot is read as it was stored. -/
theorem TlSlot.read_stores {mem : ByteMemory} {index : Nat} {out : Outbound}
    {durable : Option Key} {latched : Option (Message × Option Staged)}
    (hcap : out.wire.length ≤ TL_EMBED_CAP) {hdr wire : List UInt8}
    (h : TlSlot.read ⟨TlSlot.stores mem index out, durable, latched⟩ =
      some (hdr, wire)) : hdr = out.hdr.toBytes ∧ wire = out.wire := by
  unfold TlSlot.read at h
  dsimp only at h
  split at h
  · cases h
  · cases h
    unfold TlSlot.stores
    have hlen : out.hdr.toBytes.length = wireHeaderSize := out.hdr.length_toBytes
    simp only [TL_EMBED_CAP, wireHeaderSize] at hcap hlen
    have hload : ∀ mem' : ByteMemory, (((mem'.storeBytes 4
        (leBytes 4 out.wire.length)).storeBytes recordHeaderSize
        out.hdr.toBytes).storeBytes (recordHeaderSize + wireHeaderSize)
        out.wire |>.storeBytes 0 (leBytes 4 (2 * index))).loadLE 4 4 =
        out.wire.length := by
      intro mem'
      rw [loadLE_storeBytes, loadLE_storeBytes, loadLE_storeBytes,
        loadLE_store_leBytes]
      · omega
      all_goals
        simp only [Hits, length_leBytes, recordHeaderSize, wireHeaderSize]
        omega
    constructor
    · rw [slice_storeBytes, slice_storeBytes]
      · rw [← out.hdr.length_toBytes]
        exact slice_storeBytes_self
      all_goals
        simp only [Hits, length_leBytes, recordHeaderSize, wireHeaderSize]
        omega
    · rw [hload, slice_storeBytes, slice_storeBytes_self]
      simp only [Hits, length_leBytes, recordHeaderSize, wireHeaderSize]
      omega

/-- A latch leaves the ring as it was, or puts the sample into one slot. -/
theorem TlRing.latch_cases (ring : TlRing) {m : Message}
    {staged : Option Staged}
    (hholds : ∀ st, staged = some st → st.Holds m.payload) (pagesOk : Bool) :
    ring.latch m staged pagesOk = (ring, false, none) ∨
      ∃ k new evicted index, TlSlot.Ok new ∧ new.latched = some (m, staged) ∧
        ring.latch m staged pagesOk =
          ({ slots := ring.slots.set k new, nextIndex := index }, true,
            evicted) := by
  unfold TlRing.latch
  split
  · exact .inl rfl
  · rename_i hfits
    dsimp only
    split
    · exact .inl rfl
    · split
      · refine .inr ⟨_, _, _, _, fun m' staged' hlatched hdr wire hread => ?_,
          rfl, rfl⟩
        cases hlatched
        cases staged with
        | none =>
          have hcap : m.inline.wire.length ≤ TL_EMBED_CAP :=
            Nat.not_lt.mp fun hlt => hfits ⟨rfl, hlt⟩
          obtain ⟨rfl, rfl⟩ := TlSlot.read_stores hcap hread
          rw [← List.append_nil (Outbound.hdr _).toBytes,
            WireHeader.ofBytes_toBytes]
          exact m.carried_inline
        | some st =>
          have hcap : (m.described st).wire.length ≤ TL_EMBED_CAP := by
            rw [Message.described, ShmPayloadDescriptor.length_toBytes]
            decide
          obtain ⟨rfl, rfl⟩ := TlSlot.read_stores hcap hread
          rw [← List.append_nil (Outbound.hdr _).toBytes,
            WireHeader.ofBytes_toBytes]
          exact Message.carried_described (hholds st rfl)
      · exact .inl rfl

end RmwUnixSocket.Wire
