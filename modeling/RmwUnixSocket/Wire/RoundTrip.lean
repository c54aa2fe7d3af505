import RmwUnixSocket.Wire.Staging

/-!
# A message arrives as it was sent

Whatever path a message takes, a receiver that accepts it has the header and
the payload of the sender (`messages_arrive`).

A descriptor names a segment, and a receiver finds the segment by its name or
in its cache.  So a name must not be given to a new segment while anything
still refers to the old one (`State.Uses`).  `g_shm_owner_counter` and the
clock do not see to that: the id has 16 bits of each, and after 65536 ids it
may come back.  Then a late joiner gets the payload of one publisher under the
header of another one (`message_arrives_as_another`).
-/

namespace RmwUnixSocket.Wire

open ByteMemory
open Payload (ringHeaderSize recordHeaderSize UINT32_MAX)
open Latch (TL_EMBED_CAP SHM_PAYLOAD_THRESHOLD wireHeaderSize descriptorSize)
open Hostile (ShmPayloadDescriptor Key Mapping)

/-! ## The conditions on a run -/

/-- No byte of the record has changed since its commit. -/
def Staged.Intact (st : Staged) (shm : Shm) : Prop :=
  ∀ j < recordHeaderSize + st.desc.payloadSize.toNat,
    shm.area st.object (st.desc.offset.toNat + j) =
      st.area (st.desc.offset.toNat + j)

/-- A receiver resolves a message whose record has not been overwritten. -/
def State.Kept (s : State) : Act → Prop
  | .receive _ k _ =>
    ∀ p ∈ s.pending[k]?, ∀ st ∈ p.staged, st.Intact s.shm
  | _ => True

/-- Something refers to a segment by the name `key`: the sender that has it
mapped, a latched sample, a message under way, or a receiver's mapping. -/
def State.Uses (s : State) (key : Key) : Prop :=
  (∃ w ∈ s.senders, w.ring.mapped = true ∧ w.key = key) ∨
    (∃ ring ∈ s.rings, ∃ slot ∈ ring.slots, ∃ e ∈ slot.latched, ∃ st ∈ e.2,
      st.desc.key = key) ∨
    (∃ p ∈ s.pending, ∃ st ∈ p.staged, st.desc.key = key) ∨
    ∃ cache ∈ s.caches, ∃ e ∈ cache, e.1 = key

instance (st : Staged) (shm : Shm) : Decidable (st.Intact shm) :=
  inferInstanceAs (Decidable (∀ _ < _, _))

instance (s : State) (key : Key) : Decidable (s.Uses key) :=
  inferInstanceAs (Decidable (_ ∨ _ ∨ _ ∨ _))

/-- The name under which a step makes a new segment, if it does. -/
def State.newKey (page : Nat) (s : State) : Act → Option Key
  | .sendSerialized i m io _ =>
    s.senders[i]?.bind fun w =>
      (s.stage w).sendCreates page s.pid io m.payload.length
  | .send i _ est io _ =>
    s.senders[i]?.bind fun w => (s.stage w).sendCreates page s.pid io est
  | .publishLatched _ m clock creation _ _ =>
    durableCreates page s.pid clock creation s.counter m.payload.length
  | _ => none

/-- A new segment gets a name that is not in use. -/
def State.FreshName (page : Nat) (s : State) (a : Act) : Prop :=
  ∀ key ∈ s.newKey page a, ¬s.Uses key

instance (s : State) (a : Act) : Decidable (s.Kept a) := by
  unfold State.Kept
  split <;> infer_instance

instance (page : Nat) (s : State) (a : Act) :
    Decidable (s.FreshName page a) :=
  inferInstanceAs (Decidable (∀ _ ∈ _, _))

/-! ## Resolving -/

/-- A cache maps a name to the object that it has, or had when it was
mapped. -/
theorem mapSegment_spec (shm : Shm) (mmapOk : Bool) (cache : Cache)
    (desc : ShmPayloadDescriptor) :
    (∀ e ∈ (mapSegment shm mmapOk cache desc).1,
      e ∈ cache ∨ shm.linked e.1 = some e.2.base.file) ∧
    ∀ mapping, (mapSegment shm mmapOk cache desc).2 = some mapping →
      (desc.key, mapping) ∈ cache ∨
        shm.linked desc.key = some mapping.base.file := by
  have hswept : ∀ e ∈ (if 8 ≤ cache.length then
      cache.filter fun e => (shm.linked e.1).isSome else cache), e ∈ cache := by
    intro e he
    split at he
    · exact List.mem_of_mem_filter he
    · exact he
  unfold mapSegment
  split
  · rename_i mapping hlookup
    refine ⟨fun e he => .inl he, fun mapping' heq => .inl ?_⟩
    cases heq
    obtain ⟨l, r, hcache, -⟩ := List.lookup_eq_some_iff.mp hlookup
    rw [hcache]
    exact List.mem_append_right _ List.mem_cons_self
  · dsimp only
    split
    · exact ⟨fun e he => .inl (hswept e he), nofun⟩
    · rename_i o hlinked
      split
      · refine ⟨fun e he => ?_, fun mapping' heq => .inr ?_⟩
        · rcases List.mem_cons.mp he with rfl | hkept
          · exact .inr hlinked
          · exact .inl (hswept e (List.mem_of_mem_filter hkept))
        · cases heq
          exact hlinked
      · exact ⟨fun e he => .inl (hswept e he), nofun⟩

/-- A fetch of the descriptor of an intact record returns its payload. -/
theorem shmFetchPayload_intact {shm : Shm} {mmapOk : Bool} {cache : Cache}
    {st : Staged} {payload bytes : List UInt8} (hholds : st.Holds payload)
    (hlinked : ∀ o, shm.linked st.desc.key = some o → o = st.object)
    (hcached : ∀ e ∈ cache, e.1 = st.desc.key → e.2.base.file = st.object)
    (hintact : st.Intact shm)
    (h : (shmFetchPayload shm mmapOk cache st.desc.toBytes).2 = some bytes) :
    bytes = payload := by
  unfold shmFetchPayload at h
  rw [if_neg (not_not.mpr st.desc.length_toBytes),
    ShmPayloadDescriptor.ofBytes_toBytes] at h
  dsimp only at h
  split at h
  · cases h
  · rename_i mapping hmapping
    have hfile : mapping.base.file = st.object := by
      rcases (mapSegment_spec shm mmapOk cache st.desc).2 mapping hmapping with
        hmem | hname
      · exact hcached _ hmem rfl
      · exact hlinked _ hname
    split at h
    · cases h
      have hslice : (shm.area st.object).slice
          (st.desc.offset.toNat + recordHeaderSize) payload.length =
          st.area.slice (st.desc.offset.toNat + recordHeaderSize)
            payload.length := by
        refine slice_congr fun j hj => ?_
        rw [Nat.add_assoc]
        refine hintact (recordHeaderSize + j) ?_
        rw [hholds.size]
        omega
      rw [hfile, hholds.size, hslice, hholds.bytes]
    · cases h

/-- The flag is not set in the type of a message, and comes off again. -/
theorem flag_cases (t : Fin 3) :
    UInt8.ofNat t &&& SHM_PAYLOAD_FLAG = 0 ∧
      (UInt8.ofNat t ||| SHM_PAYLOAD_FLAG) &&& SHM_PAYLOAD_FLAG ≠ 0 ∧
      (UInt8.ofNat t ||| SHM_PAYLOAD_FLAG) &&& ~~~SHM_PAYLOAD_FLAG =
        UInt8.ofNat t := by
  revert t
  decide

/-- A receiver that accepts what carries a message has the message. -/
theorem shmResolveIncoming_carried {shm : Shm} {mmapOk : Bool} {cache : Cache}
    {m : Message} {staged : Option Staged} {hdr : WireHeader}
    {wire : List UInt8} {delivered : WireHeader × List UInt8}
    (h : m.Carried staged hdr wire)
    (hlinked : ∀ st, staged = some st →
      ∀ o, shm.linked st.desc.key = some o → o = st.object)
    (hcached : ∀ st, staged = some st →
      ∀ e ∈ cache, e.1 = st.desc.key → e.2.base.file = st.object)
    (hintact : ∀ st, staged = some st → st.Intact shm)
    (hdelivered :
      (shmResolveIncoming shm mmapOk cache hdr wire).2 = some delivered) :
    delivered = (m.header, m.payload) := by
  obtain ⟨hplain, hset, hclear⟩ := flag_cases m.msgType
  unfold shmResolveIncoming at hdelivered
  cases staged with
  | none =>
    obtain ⟨rfl, rfl⟩ := h
    have hnone : m.header.msgType &&& SHM_PAYLOAD_FLAG = 0 := hplain
    rw [if_pos hnone] at hdelivered
    exact (Option.some.inj hdelivered).symm
  | some st =>
    obtain ⟨rfl, rfl, hholds⟩ := h
    have hflag : ¬m.header.shm.msgType &&& SHM_PAYLOAD_FLAG = 0 := hset
    rw [if_neg hflag] at hdelivered
    obtain ⟨bytes, hbytes, rfl⟩ := Option.map_eq_some_iff.mp hdelivered
    have hpayload : bytes = m.payload :=
      shmFetchPayload_intact hholds (hlinked st rfl) (hcached st rfl)
        (hintact st rfl) hbytes
    subst hpayload
    simp only [WireHeader.shm, Message.header, Message.blank, hclear]

/-- A datagram is received with the header and the bytes that were sent. -/
theorem recvFrom_datagram {m : Message} {out : Outbound}
    (h : m.Carried out.staged out.hdr out.wire) :
    recvFrom (out.hdr.toBytes ++ out.wire) = some (out.hdr, out.wire) := by
  have hlen := out.hdr.length_toBytes
  have hsize : out.hdr.payloadSize.toNat = out.wire.length := by
    cases hst : out.staged with
    | none =>
      rw [hst] at h
      obtain ⟨hhdr, hwire⟩ := h
      rw [hhdr, hwire]
      exact m.toNat_length
    | some st =>
      rw [hst] at h
      obtain ⟨hhdr, hwire, -⟩ := h
      rw [hhdr, hwire, ShmPayloadDescriptor.length_toBytes]
      rfl
  have htotal : (out.hdr.toBytes ++ out.wire).length =
      wireHeaderSize + out.wire.length := by
    rw [List.length_append, hlen]
  unfold recvFrom
  rw [if_neg (by omega), WireHeader.ofBytes_toBytes, htotal, ← hlen,
    List.drop_left]
  simp only [hsize, Nat.add_sub_cancel_left, min_self, List.take_length]

/-! ## The invariant -/

/-- `key` stands for the object `o`: a sender has it mapped under this name,
or a message under way or a latched sample has a record there. -/
def State.Names (s : State) (key : Key) (o : Nat) : Prop :=
  (∃ w ∈ s.senders, w.ring.mapped = true ∧ w.key = key ∧ w.object = o) ∨
    (∃ p ∈ s.pending, ∃ st, p.staged = some st ∧ st.desc.key = key ∧
      st.object = o) ∨
    ∃ ring ∈ s.rings, ∃ slot ∈ ring.slots, ∃ m st,
      slot.latched = some (m, some st) ∧ st.desc.key = key ∧ st.object = o

/-- Every name that stands for an object leads to it. -/
structure State.Agrees (s : State) : Prop where
  linked : ∀ key o, s.Names key o →
    ∀ o', s.shm.linked key = some o' → o' = o
  cached : ∀ key o, s.Names key o →
    ∀ cache ∈ s.caches, ∀ e ∈ cache, e.1 = key → e.2.base.file = o

/-- The arrival carries its message. -/
def Pending.Ok (p : Pending) : Prop :=
  ∃ hdr wire, p.arrival.decode = some (hdr, wire) ∧
    p.sent.Carried p.staged hdr wire

/-- The invariant of the wire. -/
structure Inv (s : State) : Prop where
  agrees : s.Agrees
  senders : ∀ w ∈ s.senders, w.Ok
  slots : ∀ ring ∈ s.rings, ∀ slot ∈ ring.slots, slot.Ok
  pending : ∀ p ∈ s.pending, p.Ok
  received : ∀ e ∈ s.received, e.delivered = (e.sent.header, e.sent.payload)

theorem State.Names.uses {s : State} {key : Key} {o : Nat}
    (h : s.Names key o) : s.Uses key := by
  rcases h with ⟨w, hw, hmapped, hkey, -⟩ | ⟨p, hp, st, hst, hkey, -⟩ |
    ⟨ring, hring, slot, hslot, m, st, hst, hkey, -⟩
  · exact .inl ⟨w, hw, hmapped, hkey⟩
  · exact .inr (.inr (.inl ⟨p, hp, st, hst, hkey⟩))
  · exact .inr (.inl ⟨ring, hring, slot, hslot, _, hst, st, rfl, hkey⟩)

section Agrees

variable {s t : State}

/-- Names, links and mappings may go. -/
theorem State.Agrees.mono (h : s.Agrees)
    (hnames : ∀ key o, t.Names key o → s.Names key o)
    (hlinked : ∀ key o, t.shm.linked key = some o → s.shm.linked key = some o)
    (hcaches : ∀ cache ∈ t.caches, ∀ e ∈ cache, ∃ old ∈ s.caches, e ∈ old) :
    t.Agrees where
  linked key o hname o' hlink :=
    h.linked key o (hnames key o hname) o' (hlinked key o' hlink)
  cached key o hname cache hcache e he hkey := by
    obtain ⟨old, hold, heold⟩ := hcaches cache hcache e he
    exact h.cached key o (hnames key o hname) old hold e heold hkey

/-- A new object gets a name that nothing refers to. -/
theorem State.Agrees.create (h : s.Agrees) {new : Key} (obj : Nat)
    (hfresh : ¬s.Uses new)
    (hnames : ∀ key o, t.Names key o →
      s.Names key o ∨ key = new ∧ o = obj)
    (hlinked : ∀ key o, t.shm.linked key = some o →
      key = new ∧ o = obj ∨ key ≠ new ∧ s.shm.linked key = some o)
    (hcaches : t.caches = s.caches) : t.Agrees where
  linked key o hname o' hlink := by
    rcases hnames key o hname with hold | ⟨rfl, rfl⟩
    · rcases hlinked key o' hlink with ⟨rfl, -⟩ | ⟨-, hlink'⟩
      · exact absurd hold.uses hfresh
      · exact h.linked key o hold o' hlink'
    · rcases hlinked key o' hlink with ⟨-, heq⟩ | ⟨hne, -⟩
      · exact heq
      · exact absurd rfl hne
  cached key o hname cache hcache e he hkey := by
    rw [hcaches] at hcache
    rcases hnames key o hname with hold | ⟨rfl, rfl⟩
    · exact h.cached key o hold cache hcache e he hkey
    · exact absurd (.inr (.inr (.inr ⟨cache, hcache, e, he, hkey⟩))) hfresh

end Agrees

/-! ## Sends -/

section Sends

variable {page : Nat} {s : State}

/-- The datagrams of a send are all the same. -/
theorem mem_datagrams {copies : Nat} {m : Message} {out : Option Outbound}
    {p : Pending}
    (h : p ∈ (match out with
      | some out => List.replicate copies (out.datagram m)
      | none => [])) : ∃ o, out = some o ∧ p = o.datagram m := by
  cases out with
  | none => cases h
  | some o => exact ⟨o, rfl, List.eq_of_mem_replicate h⟩

theorem Outbound.datagram_ok {out : Outbound} {m : Message}
    (h : m.Carried out.staged out.hdr out.wire) : (out.datagram m).Ok :=
  ⟨out.hdr, out.wire, recvFrom_datagram h, h⟩

/-- What stands for an object after a send did so before, or is the segment
of the sender. -/
theorem names_of_sent {i : Nat} {w : Sender} {new : Option Key} {c : Stage}
    {m : Message} {copies : Nat} {out : Option Outbound}
    (hsends : Stage.Sends new (s.stage w) c m out) {key : Key} {o : Nat}
    (h : (s.sent i c m copies out).Names key o) :
    s.Names key o ∨ c.sender.ring.mapped = true ∧ c.sender.key = key ∧
      c.sender.object = o := by
  rcases h with ⟨w', hw', hmapped, hkey, hobj⟩ | ⟨p, hp, st, hst, hkey, hobj⟩ |
    hslot
  · rcases List.mem_or_eq_of_mem_set hw' with hold | rfl
    · exact .inl (.inl ⟨w', hold, hmapped, hkey, hobj⟩)
    · exact .inr ⟨hmapped, hkey, hobj⟩
  · rcases List.mem_append.mp hp with hold | hnew
    · exact .inl (.inr (.inl ⟨p, hold, st, hst, hkey, hobj⟩))
    · obtain ⟨o', ho', rfl⟩ := mem_datagrams hnew
      have hnames := hsends.names o' ho' st hst
      exact .inr ⟨hnames.mapped, hnames.key.symm.trans hkey,
        hnames.object.symm.trans hobj⟩
  · exact .inl (.inr (.inr hslot))

theorem Inv.sent (h : Inv s) {i : Nat} {w : Sender} {new : Option Key}
    {c : Stage} {m : Message} {copies : Nat} {out : Option Outbound}
    (hw : s.senders[i]? = some w)
    (hsends : Stage.Sends new (s.stage w) c m out)
    (hfresh : ∀ key, new = some key → ¬s.Uses key) :
    Inv (s.sent i c m copies out) := by
  have hmem : w ∈ s.senders := List.mem_of_getElem? hw
  refine ⟨?_, fun w' hw' => ?_, h.slots, fun p hp => ?_, h.received⟩
  · rcases hsends.spec.leads with hkeeps | ⟨key, hnew, hcreates⟩
    · refine h.agrees.mono (fun key o hname => ?_) hkeeps.linked
        fun cache hcache e he => ⟨cache, hcache, he⟩
      rcases names_of_sent hsends hname with hold | ⟨hmapped, hkey, hobj⟩
      · exact hold
      · obtain ⟨hmapped', hkey', hobj'⟩ := hkeeps.segment hmapped
        exact .inl ⟨w, hmem, hmapped', hkey'.symm.trans hkey,
          hobj'.symm.trans hobj⟩
    · refine h.agrees.create c.sender.object (hfresh key hnew)
        (fun key' o hname => ?_) hcreates.linked rfl
      rcases names_of_sent hsends hname with hold | ⟨-, hkey, hobj⟩
      · exact .inl hold
      · exact .inr ⟨hkey.symm.trans hcreates.key, hobj.symm⟩
  · rcases List.mem_or_eq_of_mem_set hw' with hold | rfl
    · exact h.senders w' hold
    · exact hsends.spec.ok
  · rcases List.mem_append.mp hp with hold | hnew
    · exact h.pending p hold
    · obtain ⟨o, ho, rfl⟩ := mem_datagrams hnew
      exact Outbound.datagram_ok (hsends.carried o ho)

/-! ## Latched publishes -/

/-- A live datagram carries the sample, inline or through its record. -/
theorem Message.live_datagram {m : Message} {staged : Option Staged}
    (hholds : ∀ st, staged = some st → st.Holds m.payload) (latched : Bool) :
    ((m.live staged latched).datagram m).Ok ∧
      ((m.live staged latched).staged = none ∨
        (m.live staged latched).staged = staged) := by
  have hinline : (m.inline.datagram m).Ok :=
    Outbound.datagram_ok m.carried_inline
  unfold Message.live
  split
  · exact ⟨hinline, .inl rfl⟩
  · rename_i st
    split
    · exact ⟨Outbound.datagram_ok (Message.carried_described (hholds st rfl)),
        .inr rfl⟩
    · exact ⟨hinline, .inl rfl⟩

theorem stageDurable_spec (page : Nat) (s : State) (m : Message)
    (clock : UInt32) (creation : Creation) :
    Durable (s.newKey page (.publishLatched 0 m clock creation true 0)) s.shm
      (s.stageDurable page m clock creation).1 m
      (s.stageDurable page m clock creation).2.2 := by
  unfold State.stageDurable
  split
  · rename_i hcap
    exact shmStageDurable_spec page s.pid clock creation s.shm s.counter m hcap
  · exact ⟨fun key o hkey => .inl hkey, nofun, Nat.le_refl _,
      fun _ _ => rfl, nofun⟩

/-- What a latched publish does to the state, in the words of the claims that
follow from it. -/
structure Latches (s t : State) (m : Message) (staged : Option Staged)
    (shm : Shm) : Prop where
  linked : ∀ key o, t.shm.linked key = some o → shm.linked key = some o
  objects : t.shm.objects = shm.objects
  next : t.shm.next = shm.next
  senders : t.senders = s.senders
  caches : t.caches = s.caches
  received : t.received = s.received
  pending : ∀ p ∈ t.pending, p ∈ s.pending ∨
    p.Ok ∧ (p.staged = none ∨ p.staged = staged)
  slots : ∀ ring ∈ t.rings, ∀ slot ∈ ring.slots,
    (∃ old ∈ s.rings, slot ∈ old.slots) ∨
      slot.Ok ∧ slot.latched = some (m, staged)

theorem latches_of_publish {i : Nat} {ring : TlRing} {m : Message}
    {clock : UInt32} {creation : Creation} (pagesOk : Bool) (copies : Nat)
    (hring : s.rings[i]? = some ring)
    (hholds : ∀ st, (s.stageDurable page m clock creation).2.2 = some st →
      st.Holds m.payload) :
    Latches s (s.publishLatched page i ring m clock creation pagesOk copies) m
      (s.stageDurable page m clock creation).2.2
      (s.stageDurable page m clock creation).1 := by
  refine ⟨fun key o hkey => ?_, ?_, ?_, rfl, rfl, rfl, fun p hp => ?_,
    fun ring' hring' slot hslot => ?_⟩
  · simp only [State.publishLatched] at hkey
    split at hkey
    · exact Shm.linked_of_unlink hkey
    · exact hkey
  · simp only [State.publishLatched]
    split <;> rfl
  · simp only [State.publishLatched]
    split <;> rfl
  · rcases List.mem_append.mp hp with hold | hnew
    · exact .inl hold
    · obtain ⟨hok, hstaged⟩ := Message.live_datagram hholds
        (ring.latch m (s.stageDurable page m clock creation).2.2 pagesOk).2.1
      rw [List.eq_of_mem_replicate hnew]
      exact .inr ⟨hok, hstaged⟩
  · rcases List.mem_or_eq_of_mem_set hring' with hold | rfl
    · exact .inl ⟨ring', hold, hslot⟩
    · rcases ring.latch_cases hholds pagesOk with hsame |
        ⟨k, new, evicted, index, hok, hlatched, hlatch⟩
      · refine .inl ⟨ring, List.mem_of_getElem? hring, ?_⟩
        simpa only [hsame] using hslot
      · have hslot' : slot ∈ ring.slots.set k new := by
          simpa only [hlatch] using hslot
        rcases List.mem_or_eq_of_mem_set hslot' with hold | rfl
        · exact .inl ⟨ring, List.mem_of_getElem? hring, hold⟩
        · exact .inr ⟨hok, hlatched⟩

theorem Inv.latches (h : Inv s) {t : State} {m : Message}
    {staged : Option Staged} {shm : Shm} {new : Option Key}
    (hlatches : Latches s t m staged shm)
    (hdurable : Durable new s.shm shm m staged)
    (hfresh : ∀ key, new = some key → ¬s.Uses key) : Inv t := by
  have hnames : ∀ key o, t.Names key o → s.Names key o ∨
      ∃ st, staged = some st ∧ st.desc.key = key ∧ st.object = o := by
    rintro key o (⟨w, hw, hname⟩ | ⟨p, hp, st, hst, hkey, hobj⟩ |
      ⟨ring, hring, slot, hslot, m', st, hst, hkey, hobj⟩)
    · rw [hlatches.senders] at hw
      exact .inl (.inl ⟨w, hw, hname⟩)
    · rcases hlatches.pending p hp with hold | ⟨-, hnone | hsome⟩
      · exact .inl (.inr (.inl ⟨p, hold, st, hst, hkey, hobj⟩))
      · rw [hnone] at hst
        cases hst
      · exact .inr ⟨st, hsome.symm.trans hst, hkey, hobj⟩
    · rcases hlatches.slots ring hring slot hslot with ⟨old, hold, hmem⟩ |
        ⟨-, hlatched⟩
      · exact .inl (.inr (.inr ⟨old, hold, slot, hmem, m', st, hst, hkey, hobj⟩))
      · rw [hlatched] at hst
        cases hst
        exact .inr ⟨st, rfl, hkey, hobj⟩
  refine ⟨?_, fun w hw => ?_, fun ring hring slot hslot => ?_, fun p hp => ?_,
    ?_⟩
  · cases hstaged : staged with
    | none =>
      refine h.agrees.mono (fun key o hname => ?_) (fun key o hkey => ?_)
        fun cache hcache e he => ⟨cache, by rwa [← hlatches.caches], he⟩
      · rcases hnames key o hname with hold | ⟨st, hst, -⟩
        · exact hold
        · rw [hstaged] at hst
          cases hst
      · rcases hdurable.linked key o (hlatches.linked key o hkey) with hold |
          ⟨st, hst, -⟩
        · exact hold
        · rw [hstaged] at hst
          cases hst
    | some st =>
      obtain ⟨hnew, -, hobject⟩ := hdurable.names st hstaged
      refine h.agrees.create st.object (hfresh _ hnew)
        (fun key o hname => ?_) (fun key o hkey => ?_) hlatches.caches
      · rcases hnames key o hname with hold | ⟨st', hst', hkey, hobj⟩
        · exact .inl hold
        · rw [hstaged] at hst'
          cases hst'
          exact .inr ⟨hkey.symm, hobj.symm⟩
      · have hkey' := hlatches.linked key o hkey
        by_cases heq : key = st.desc.key
        · subst heq
          exact .inl ⟨rfl, hobject o hkey'⟩
        · rcases hdurable.linked key o hkey' with hold | ⟨st', hst', hne, -⟩
          · exact .inr ⟨heq, hold⟩
          · rw [hstaged] at hst'
            cases hst'
            exact absurd hne heq
  · rw [hlatches.senders] at hw
    exact h.senders w hw
  · rcases hlatches.slots ring hring slot hslot with ⟨old, hold, hmem⟩ |
      ⟨hok, -⟩
    · exact h.slots old hold slot hmem
    · exact hok
  · rcases hlatches.pending p hp with hold | ⟨hok, -⟩
    · exact h.pending p hold
    · exact hok
  · rw [hlatches.received]
    exact h.received

end Sends

/-! ## The other steps -/

section Steps

variable {page : Nat} {s : State}

/-- Senders, latched rings and messages under way may go, and nothing new
comes. -/
theorem Inv.shrink (h : Inv s) {t : State}
    (hsenders : ∀ w ∈ t.senders, w ∈ s.senders ∨
      w.ring.mapped = false ∧ w.Ok)
    (hrings : ∀ ring ∈ t.rings, ∀ slot ∈ ring.slots,
      (∃ old ∈ s.rings, slot ∈ old.slots) ∨ slot = .zero)
    (hpending : ∀ p ∈ t.pending, p ∈ s.pending)
    (hlinked : ∀ key o, t.shm.linked key = some o → s.shm.linked key = some o)
    (hcaches : ∀ cache ∈ t.caches, ∀ e ∈ cache, ∃ old ∈ s.caches, e ∈ old)
    (hreceived : t.received = s.received) : Inv t where
  agrees := by
    refine h.agrees.mono ?_ hlinked hcaches
    rintro key o (⟨w, hw, hmapped, hname⟩ | ⟨p, hp, hname⟩ |
      ⟨ring, hring, slot, hslot, m, st, hst, hname⟩)
    · rcases hsenders w hw with hold | ⟨hunmapped, -⟩
      · exact .inl ⟨w, hold, hmapped, hname⟩
      · rw [hmapped] at hunmapped
        cases hunmapped
    · exact .inr (.inl ⟨p, hpending p hp, hname⟩)
    · rcases hrings ring hring slot hslot with ⟨old, hold, hmem⟩ | rfl
      · exact .inr (.inr ⟨old, hold, slot, hmem, m, st, hst, hname⟩)
      · cases hst
  senders w hw := by
    rcases hsenders w hw with hold | ⟨-, hok⟩
    · exact h.senders w hold
    · exact hok
  slots ring hring slot hslot := by
    rcases hrings ring hring slot hslot with ⟨old, hold, hmem⟩ | rfl
    · exact h.slots old hold slot hmem
    · exact TlSlot.zero_ok
  pending p hp := h.pending p (hpending p hp)
  received := by
    rw [hreceived]
    exact h.received

theorem Sender.fresh_ok : Sender.fresh.Ok := ⟨by decide, nofun⟩

theorem Inv.init (pid : UInt32) (senders rings readers : Nat) :
    Inv (State.init pid senders rings readers) where
  agrees := by
    have hnone : ∀ key o,
        ¬(State.init pid senders rings readers).Names key o := by
      rintro key o (⟨w, hw, hmapped, -⟩ | ⟨p, hp, -⟩ |
        ⟨ring, hring, slot, hslot, -⟩)
      · rw [List.eq_of_mem_replicate hw] at hmapped
        cases hmapped
      · cases hp
      · rw [List.eq_of_mem_replicate hring] at hslot
        cases hslot
    exact ⟨fun key o hname => absurd hname (hnone key o),
      fun key o hname => absurd hname (hnone key o)⟩
  senders w hw := by
    rw [List.eq_of_mem_replicate hw]
    exact Sender.fresh_ok
  slots ring hring slot hslot := by
    rw [List.eq_of_mem_replicate hring] at hslot
    cases hslot
  pending := nofun
  received := nofun

theorem Shm.linked_of_foldl_unlink {keys : List Key} {shm : Shm} {key : Key}
    {o : Nat} (h : (keys.foldl Shm.unlink shm).linked key = some o) :
    shm.linked key = some o := by
  induction keys generalizing shm with
  | nil => exact h
  | cons k keys ih => exact Shm.linked_of_unlink (ih h)

/-- The mappings of a cache stay in the list of caches, or are new. -/
theorem mem_caches_of_set {caches : List Cache} {r : Nat} {new cache : Cache}
    (h : cache ∈ caches.set r new) : cache ∈ caches ∨ cache = new :=
  List.mem_or_eq_of_mem_set h

/-- A record that was pulled carries the sample of its slot. -/
theorem Inv.pull (h : Inv s) {ring : TlRing} {slot : TlSlot} {m : Message}
    {staged : Option Staged} {hdr wire : List UInt8} (hring : ring ∈ s.rings)
    (hslot : slot ∈ ring.slots) (hread : slot.read = some (hdr, wire))
    (hlatched : slot.latched = some (m, staged)) :
    Inv { s with pending := s.pending ++ [⟨.record hdr wire, m, staged⟩] } where
  agrees := by
    refine h.agrees.mono ?_ (fun _ _ hkey => hkey)
      fun cache hcache e he => ⟨cache, hcache, he⟩
    rintro key o (hsender | ⟨p, hp, st, hst, hkey, hobj⟩ | hold)
    · exact .inl hsender
    · rcases List.mem_append.mp hp with hold | hnew
      · exact .inr (.inl ⟨p, hold, st, hst, hkey, hobj⟩)
      · cases List.mem_singleton.mp hnew
        have hst' : staged = some st := hst
        rw [hst'] at hlatched
        exact .inr (.inr ⟨ring, hring, slot, hslot, m, st, hlatched, hkey, hobj⟩)
    · exact .inr (.inr hold)
  senders := h.senders
  slots := h.slots
  pending p hp := by
    rcases List.mem_append.mp hp with hold | hnew
    · exact h.pending p hold
    · cases List.mem_singleton.mp hnew
      exact ⟨_, wire, rfl, h.slots ring hring slot hslot m staged hlatched hdr
        wire hread⟩
  received := h.received

/-- A receiver resolves a message whose record is intact. -/
theorem Inv.resolve (h : Inv s) (mmapOk : Bool) {cache : Cache} {p : Pending}
    (hcache : cache ∈ s.caches) (hp : p ∈ s.pending)
    (hintact : ∀ st, p.staged = some st → st.Intact s.shm) :
    (∀ e ∈ (s.resolve mmapOk cache p).1,
      e ∈ cache ∨ s.shm.linked e.1 = some e.2.base.file) ∧
    ∀ delivered, (s.resolve mmapOk cache p).2 = some delivered →
      delivered = (p.sent.header, p.sent.payload) := by
  obtain ⟨hdr, wire, hdecode, hcarried⟩ := h.pending p hp
  have hname : ∀ st, p.staged = some st → s.Names st.desc.key st.object :=
    fun st hst => .inr (.inl ⟨p, hp, st, hst, rfl, rfl⟩)
  simp only [State.resolve, hdecode]
  constructor
  · intro e he
    unfold shmResolveIncoming at he
    split at he
    · exact .inl he
    · dsimp only [shmFetchPayload] at he
      split at he
      · exact .inl he
      · have hspec := (mapSegment_spec s.shm mmapOk cache
          (ShmPayloadDescriptor.ofBytes wire)).1
        split at he
        · exact hspec e he
        · split at he <;> exact hspec e he
  · intro delivered hdelivered
    exact shmResolveIncoming_carried hcarried
      (fun st hst o ho => h.agrees.linked _ _ (hname st hst) o ho)
      (fun st hst e he hkey =>
        h.agrees.cached _ _ (hname st hst) cache hcache e he hkey)
      hintact hdelivered

theorem Inv.receive (h : Inv s) {r k : Nat} {mmapOk : Bool} {cache : Cache}
    {p : Pending} (hcache : cache ∈ s.caches) (hp : p ∈ s.pending)
    (hintact : ∀ st, p.staged = some st → st.Intact s.shm) :
    Inv
      { s with
        caches := s.caches.set r (s.resolve mmapOk cache p).1
        pending := s.pending.eraseIdx k
        received :=
          match (s.resolve mmapOk cache p).2 with
          | some delivered => ⟨p.sent, delivered⟩ :: s.received
          | none => s.received } := by
  obtain ⟨hmapped, hdelivered⟩ := h.resolve mmapOk hcache hp hintact
  have hnames : ∀ key o, State.Names
      { s with
        caches := s.caches.set r (s.resolve mmapOk cache p).1
        pending := s.pending.eraseIdx k
        received :=
          match (s.resolve mmapOk cache p).2 with
          | some delivered => ⟨p.sent, delivered⟩ :: s.received
          | none => s.received } key o → s.Names key o := by
    rintro key o (hsender | ⟨q, hq, hname⟩ | hslot)
    · exact .inl hsender
    · exact .inr (.inl ⟨q, List.mem_of_mem_eraseIdx hq, hname⟩)
    · exact .inr (.inr hslot)
  refine ⟨⟨fun key o hname => h.agrees.linked key o (hnames key o hname),
      fun key o hname cache' hcache' e he hkey => ?_⟩,
    h.senders, h.slots,
    fun q hq => h.pending q (List.mem_of_mem_eraseIdx hq), fun e he => ?_⟩
  · rcases mem_caches_of_set hcache' with hold | rfl
    · exact h.agrees.cached key o (hnames key o hname) cache' hold e he hkey
    · rcases hmapped e he with hold | hlinked
      · exact h.agrees.cached key o (hnames key o hname) cache hcache e hold hkey
      · rw [hkey] at hlinked
        exact h.agrees.linked key o (hnames key o hname) _ hlinked
  · split at he
    · rename_i delivered hsome
      rcases List.mem_cons.mp he with rfl | hold
      · exact hdelivered delivered hsome
      · exact h.received e hold
    · exact h.received e he

theorem Inv.step (h : Inv s) {t : State} {a : Act} (hfresh : s.FreshName page a)
    (hkept : s.Kept a) (hstep : (machine page).step s a = some t) : Inv t := by
  cases a with
  | sendSerialized i m io copies =>
    obtain ⟨w, hw, rfl⟩ := Option.map_eq_some_iff.mp hstep
    have hspec := Stage.prepareSend_spec page s.pid io m
      (c := s.stage w) (h.senders w (List.mem_of_getElem? hw))
    exact h.sent hw hspec fun key hkey =>
      hfresh key (Option.mem_bind_iff.mpr ⟨w, hw, hkey⟩)
  | send i m est io copies =>
    obtain ⟨w, hw, rfl⟩ := Option.map_eq_some_iff.mp hstep
    have hspec := Stage.serializePrepareSend_spec page s.pid io m est
      (c := s.stage w) (h.senders w (List.mem_of_getElem? hw))
    exact h.sent hw hspec fun key hkey =>
      hfresh key (Option.mem_bind_iff.mpr ⟨w, hw, hkey⟩)
  | publishLatched i m clock creation pagesOk copies =>
    obtain ⟨-, hsome⟩ := Option.ite_none_right_eq_some.mp hstep
    obtain ⟨ring, hring, rfl⟩ := Option.map_eq_some_iff.mp hsome
    have hdurable := stageDurable_spec page s m clock creation
    exact h.latches (latches_of_publish pagesOk copies hring fun st hst =>
      (hdurable.names st hst).2.1) hdurable hfresh
  | createTl i depth ok =>
    obtain ⟨ring, hring, hsome⟩ := Option.bind_eq_some_iff.mp hstep
    obtain ⟨-, heq⟩ := Option.ite_none_right_eq_some.mp hsome
    cases heq
    refine h.shrink (fun w hw => .inl hw) (fun ring' hring' slot hslot => ?_)
      (fun p hp => hp) (fun _ _ hkey => hkey)
      (fun cache hcache e he => ⟨cache, hcache, he⟩) rfl
    dsimp only at hring'
    split at hring'
    · rcases List.mem_or_eq_of_mem_set hring' with hold | rfl
      · exact .inl ⟨ring', hold, hslot⟩
      · exact .inr (List.eq_of_mem_replicate hslot)
    · exact .inl ⟨ring', hring', hslot⟩
  | closeSender i =>
    obtain ⟨w, hw, rfl⟩ := Option.map_eq_some_iff.mp hstep
    refine h.shrink (fun w' hw' => ?_)
      (fun ring hring slot hslot => .inl ⟨ring, hring, hslot⟩)
      (fun p hp => hp) (fun key o hkey => ?_)
      (fun cache hcache e he => ⟨cache, hcache, he⟩) rfl
    · rcases List.mem_or_eq_of_mem_set hw' with hold | rfl
      · exact .inl hold
      · exact .inr ⟨rfl, show 0 < 2 ^ 63 by decide, nofun⟩
    · dsimp only at hkey
      split at hkey
      · exact Shm.linked_of_unlink hkey
      · exact hkey
  | closeTl i =>
    obtain ⟨ring, hring, rfl⟩ := Option.map_eq_some_iff.mp hstep
    refine h.shrink (fun w hw => .inl hw) (fun ring' hring' slot hslot => ?_)
      (fun p hp => hp) (fun _ _ hkey => Shm.linked_of_foldl_unlink hkey)
      (fun cache hcache e he => ⟨cache, hcache, he⟩) rfl
    rcases List.mem_or_eq_of_mem_set hring' with hold | rfl
    · exact .inl ⟨ring', hold, hslot⟩
    · cases hslot
  | restart pid =>
    cases hstep
    refine h.shrink (fun w hw => ?_) (fun ring hring slot hslot => ?_)
      (fun p hp => hp) (fun _ _ hkey => hkey)
      (fun cache hcache e he => ⟨cache, hcache, he⟩) rfl
    · obtain ⟨-, -, rfl⟩ := List.mem_map.mp hw
      exact .inr ⟨rfl, Sender.fresh_ok⟩
    · obtain ⟨-, -, rfl⟩ := List.mem_map.mp hring
      cases hslot
  | pull i j =>
    obtain ⟨ring, hring, hsome⟩ := Option.bind_eq_some_iff.mp hstep
    obtain ⟨slot, hslot, hmatch⟩ := Option.bind_eq_some_iff.mp hsome
    split at hmatch
    · rename_i hread hlatched
      cases hmatch
      exact h.pull (List.mem_of_getElem? hring) (List.mem_of_getElem? hslot)
        hread hlatched
    · cases hmatch
  | lose k =>
    cases hstep
    exact h.shrink (fun w hw => .inl hw)
      (fun ring hring slot hslot => .inl ⟨ring, hring, hslot⟩)
      (fun p hp => List.mem_of_mem_eraseIdx hp) (fun _ _ hkey => hkey)
      (fun cache hcache e he => ⟨cache, hcache, he⟩) rfl
  | receive r k mmapOk =>
    simp only [machine, Wire.step] at hstep
    split at hstep
    · rename_i cache p hcache hp
      cases hstep
      exact h.receive (List.mem_of_getElem? hcache) (List.mem_of_getElem? hp)
        fun st hst => hkept p hp st hst
    · cases hstep
  | closeReader r =>
    cases hstep
    refine h.shrink (fun w hw => .inl hw)
      (fun ring hring slot hslot => .inl ⟨ring, hring, hslot⟩)
      (fun p hp => hp) (fun _ _ hkey => hkey) (fun cache hcache e he => ?_) rfl
    rcases mem_caches_of_set hcache with hold | rfl
    · exact ⟨cache, hold, he⟩
    · cases he

end Steps

/-! ## Durable records are written once -/

/-- The records of durable segments are intact. -/
structure State.WrittenOnce (s : State) : Prop where
  pending : ∀ p ∈ s.pending, ∀ st, p.staged = some st →
    st.object < s.shm.next ∧ s.shm.area st.object = st.area
  slots : ∀ ring ∈ s.rings, ∀ slot ∈ ring.slots, ∀ m st,
    slot.latched = some (m, some st) →
      st.object < s.shm.next ∧ s.shm.area st.object = st.area

/-- A step of a publisher with a latched ring, or a pull. -/
def Act.Latched : Act → Prop
  | .publishLatched .. => True
  | .createTl .. => True
  | .pull .. => True
  | _ => False

instance (a : Act) : Decidable a.Latched := by
  unfold Act.Latched
  split <;> infer_instance

theorem State.WrittenOnce.step {page : Nat} {s t : State} {a : Act}
    (h : s.WrittenOnce) (ha : a.Latched)
    (hstep : (machine page).step s a = some t) : t.WrittenOnce := by
  cases a with
  | publishLatched i m clock creation pagesOk copies =>
    obtain ⟨-, hsome⟩ := Option.ite_none_right_eq_some.mp hstep
    obtain ⟨ring, hring, rfl⟩ := Option.map_eq_some_iff.mp hsome
    have hdurable := stageDurable_spec page s m clock creation
    have hlatches := latches_of_publish pagesOk copies hring
      fun st hst => (hdurable.names st hst).2.1
    have hold : ∀ st : Staged, st.object < s.shm.next →
        s.shm.area st.object = st.area →
        st.object < (s.publishLatched page i ring m clock creation pagesOk
            copies).shm.next ∧
          (s.publishLatched page i ring m clock creation pagesOk
            copies).shm.area st.object = st.area := by
      intro st hlt harea
      rw [hlatches.next, Shm.area, hlatches.objects]
      exact ⟨Nat.lt_of_lt_of_le hlt hdurable.next,
        (hdurable.kept _ hlt).trans harea⟩
    have hnew : ∀ st, (s.stageDurable page m clock creation).2.2 = some st →
        st.object < (s.publishLatched page i ring m clock creation pagesOk
            copies).shm.next ∧
          (s.publishLatched page i ring m clock creation pagesOk
            copies).shm.area st.object = st.area := by
      intro st hst
      rw [hlatches.next, Shm.area, hlatches.objects]
      exact hdurable.stored st hst
    constructor
    · intro p hp st hst
      rcases hlatches.pending p hp with hmem | ⟨-, hnone | hsome'⟩
      · obtain ⟨hlt, harea⟩ := h.pending p hmem st hst
        exact hold st hlt harea
      · rw [hnone] at hst
        cases hst
      · exact hnew st (hsome'.symm.trans hst)
    · intro ring' hring' slot hslot m' st hst
      rcases hlatches.slots ring' hring' slot hslot with ⟨old, hmem, hslot'⟩ |
        ⟨-, hlatched⟩
      · obtain ⟨hlt, harea⟩ := h.slots old hmem slot hslot' m' st hst
        exact hold st hlt harea
      · rw [hlatched] at hst
        exact hnew st (Prod.mk.inj (Option.some.inj hst)).2
  | createTl i depth ok =>
    obtain ⟨ring, hring, hsome⟩ := Option.bind_eq_some_iff.mp hstep
    obtain ⟨-, heq⟩ := Option.ite_none_right_eq_some.mp hsome
    cases heq
    refine ⟨h.pending, fun ring' hring' slot hslot m st hst => ?_⟩
    dsimp only at hring'
    split at hring'
    · rcases List.mem_or_eq_of_mem_set hring' with hold | rfl
      · exact h.slots ring' hold slot hslot m st hst
      · rw [List.eq_of_mem_replicate hslot] at hst
        cases hst
    · exact h.slots ring' hring' slot hslot m st hst
  | pull i j =>
    obtain ⟨ring, hring, hsome⟩ := Option.bind_eq_some_iff.mp hstep
    obtain ⟨slot, hslot, hmatch⟩ := Option.bind_eq_some_iff.mp hsome
    split at hmatch
    · rename_i hdr wire m staged hread hlatched
      cases hmatch
      refine ⟨fun p hp st hst => ?_, h.slots⟩
      rcases List.mem_append.mp hp with hold | hnew
      · exact h.pending p hold st hst
      · cases List.mem_singleton.mp hnew
        have hst' : staged = some st := hst
        rw [hst'] at hlatched
        exact h.slots ring (List.mem_of_getElem? hring) slot
          (List.mem_of_getElem? hslot) _ st hlatched
    · cases hmatch
  | _ => exact absurd ha id

/-- As long as there are only latched publishes and pulls, every record that
a message under way refers to is intact. -/
theorem records_written_once {page : Nat} {s t : State} (h : s.WrittenOnce)
    (hreach : (machine page).Reach (fun _ a => a.Latched) s t) :
    ∀ p ∈ t.pending, ∀ st ∈ p.staged, st.Intact t.shm := by
  have hkept : t.WrittenOnce :=
    hreach.invariant h fun _ _ _ hinv hok hstep => hinv.step hok hstep
  intro p hp st hst j _
  rw [(hkept.pending p hp st hst).2]

/-- In a run in which a new segment gets a name that is not in use, a message
that a receiver accepts, as a datagram or from a latched ring, has the GID,
the sequence number, the timestamp and the plain type that its sender gave it,
the size of its payload, and its bytes. -/
theorem messages_arrive {page : Nat} {pid : UInt32}
    {senders rings readers : Nat} {t : State}
    (h : (machine page).Reach (fun s a => s.FreshName page a ∧ s.Kept a)
      (State.init pid senders rings readers) t) :
    ∀ e ∈ t.received, e.delivered = (e.sent.header, e.sent.payload) :=
  (h.invariant (Inv.init pid senders rings readers)
    fun _ _ _ hinv hok hstep => hinv.step hok.1 hok.2 hstep).received

/-! ## Two publishers -/

set_option maxRecDepth 100000 in
/-- A sample that is sent live and pulled from the latched ring, and a message
that goes through a payload ring, arrive as they were sent. -/
theorem messages_arrive_three : ∃ t,
    (machine 4096).Reach (fun s a => s.FreshName 4096 a ∧ s.Kept a)
        (State.init 7 1 1 1) t ∧
      t.received.length = 3 ∧
      ∀ e ∈ t.received, e.delivered = (e.sent.header, e.sent.payload) := by
  obtain ⟨t, hreach, hlength⟩ :=
    Machine.exists_reach_of_guardedRun (machine 4096)
      (fun s a => s.FreshName 4096 a ∧ s.Kept a) (State.init 7 1 1 1)
      [.createTl 0 2 true,
        .publishLatched 0 (exampleSample 4 3 (by decide)) 5 .created true 1,
        .pull 0 0, .receive 0 0 true, .receive 0 0 true,
        .send 0 (exampleSample 6 2 (by decide)) 65536
          { clock := 8, creation := .created, written := true, junk := [] } 1,
        .receive 0 0 true]
      (fun t => t.received.length = 3) (by decide +kernel)
  exact ⟨t, hreach, hlength, messages_arrive hreach⟩

/-- Ids are taken by latched rings that cannot be created. -/
theorem reach_takeIds {page : Nat} {s : State} {i : Nat}
    (h : s.rings[i]?.any (fun ring => ring.slots.isEmpty) = true) (n : Nat) :
    (machine page).Reach (fun _ a => a.Latched) s
      { s with counter := s.counter + UInt32.ofNat n } := by
  obtain ⟨ring, hring, hclosed⟩ := (Option.any_eq_true _ _).mp h
  induction n with
  | zero =>
    have hsame : s.counter + UInt32.ofNat 0 = s.counter := by simp
    rw [hsame]
    exact .refl
  | succ n ih =>
    refine ih.tail (a := .createTl i 1 false) trivial ?_
    simp only [machine, Wire.step, hring, Option.bind_some, hclosed, if_true]
    simp [UInt32.add_assoc]

/-- The first publisher latches 1025 bytes 0, and the second one creates its
ring. -/
def firstActs : List Act :=
  [.createTl 0 1 true,
    .publishLatched 0 (exampleSample 0 1025 (by decide)) 5 .created true 0,
    .createTl 1 1 true]

/-- The second publisher latches 1025 bytes 1, and a late joiner pulls the
ring of the first one. -/
def secondActs : List Act :=
  [.publishLatched 1 (exampleSample 1 1025 (by decide)) 5 .created true 0,
    .pull 0 0]

set_option maxRecDepth 100000 in
/-- Between the two samples 65534 ids are taken, so the second durable segment
has the name of the first one, which is still latched.  The late joiner gets
the bytes of the second sample under the header of the first one. -/
theorem message_arrives_as_another : ∃ t,
    (machine 4096).Reach (fun s a => s.Kept a) (State.init 7 0 3 1) t ∧
      ∃ e ∈ t.received, e.delivered ≠ (e.sent.header, e.sent.payload) := by
  have hrun : ((machine 4096).guardedRun (fun _ a => a.Latched)
      (State.init 7 0 3 1) firstActs).any (fun s =>
        s.rings[2]?.any (fun ring => ring.slots.isEmpty) &&
        ((machine 4096).guardedRun (fun _ a => a.Latched)
          { s with counter := s.counter + UInt32.ofNat 65534 }
          secondActs).any fun t =>
            ((machine 4096).step t (.receive 0 0 true)).any fun u =>
              decide (∃ e ∈ u.received,
                e.delivered.2.head? ≠ e.sent.payload.head?)) = true := by
    decide +kernel
  obtain ⟨s, hs, hrest⟩ := (Option.any_eq_true _ _).mp hrun
  obtain ⟨hclosed, hsecond⟩ := Bool.and_eq_true_iff.mp hrest
  obtain ⟨t, ht, hreceive⟩ := (Option.any_eq_true _ _).mp hsecond
  obtain ⟨u, hu, hwrong⟩ := (Option.any_eq_true _ _).mp hreceive
  have hlatched : (machine 4096).Reach (fun _ a => a.Latched)
      (State.init 7 0 3 1) t :=
    ((Machine.reach_of_guardedRun hs).trans
      (reach_takeIds hclosed 65534)).trans (Machine.reach_of_guardedRun ht)
  have hintact : t.Kept (.receive 0 0 true) := by
    have hempty : (State.init 7 0 3 1).WrittenOnce := by
      refine ⟨nofun, fun ring hring slot hslot => ?_⟩
      rw [List.eq_of_mem_replicate hring] at hslot
      cases hslot
    exact fun p hp => records_written_once hempty hlatched p
      (List.mem_of_getElem? hp)
  have hkept : (machine 4096).Reach (fun s a => s.Kept a)
      (State.init 7 0 3 1) t := by
    refine hlatched.mono fun s' a ha => ?_
    cases a <;> trivial
  obtain ⟨e, he, hne⟩ := of_decide_eq_true hwrong
  refine ⟨u, .tail hkept hintact hu, e, he, fun heq => hne ?_⟩
  rw [heq]

end RmwUnixSocket.Wire
