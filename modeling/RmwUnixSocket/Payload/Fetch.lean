import Mathlib.Order.Nat
import RmwUnixSocket.Payload.Ring

/-!
# What `shm_fetch_payload` returns

A fetch of a committed descriptor that answers true returns the bytes of the
commit, or a later record has by coincidence put the descriptor's `seq` and
`payload_size` over the header (`shm_fetch_payload_exact`).

The record protocol protects a payload by its header, so it needs the header
to go first.  `HeaderFirst` says that no store falls on the payload of a
committed record before one has fallen on its `seq` word.  The code does not
see to it: a later record that starts at a lower offset marks its own header
only, and its payload may reach the memory in any order
(`shm_fetch_payload_torn`).

The second load of the header looks at `seq` only.  `LenKept` says that
`payload_len` has not moved when the coincidence is on `seq` alone.
-/

namespace RmwUnixSocket.Payload

open ByteMemory

/-! ## The conditions on a run -/

/-- The descriptor of a fetch in progress, its buffer, and the bytes that it
has yet to copy. -/
def ReaderPc.reads :
    ReaderPc → Option (Nat × ShmPayloadDescriptor × (Nat → UInt8) × List Nat)
  | .idle => none
  | .loadSeq n desc => some (n, desc, fun _ => 0, List.range desc.payloadSize)
  | .loadLen n desc => some (n, desc, fun _ => 0, List.range desc.payloadSize)
  | .copy n desc buf rest => some (n, desc, buf, rest)

/-- A store to the payload of a committed record comes after a store to its
`seq` word. -/
def HeaderFirst (s : State) (a : Act) : Prop :=
  ∀ st ∈ s.store a, ∀ n < s.ring.nextIndex, ∀ r ∈ s.records n,
    r.desc.segmentId = s.ring.segmentId → r.cover = .own →
      ¬Hits st.addr st.bytes.length (r.desc.offset + recordHeaderSize)
        r.desc.payloadSize

/-- The header of a record holds the words of its descriptor. -/
def State.HeaderMatches (s : State) (desc : ShmPayloadDescriptor) : Prop :=
  (s.area desc.segmentId).load32 desc.offset = desc.seq ∧
    (s.area desc.segmentId).load32 (desc.offset + 4) = desc.payloadSize

instance (s : State) (desc : ShmPayloadDescriptor) :
    Decidable (s.HeaderMatches desc) :=
  inferInstanceAs (Decidable (_ ∧ _))

/-- The second check of the header finds `payload_len` too, if the bytes of a
later payload happen to be the expected `seq`. -/
def LenKept (s : State) : Act → Prop
  | .recheck =>
    ∀ x ∈ s.reader.pc.reads, ∀ r ∈ s.records x.1, r.cover = .payload →
      (s.area x.2.1.segmentId).load32 x.2.1.offset = x.2.1.seq →
        s.HeaderMatches x.2.1
  | _ => True

/-- The runs in which headers go first. -/
def FetchOk (s : State) (a : Act) : Prop :=
  HeaderFirst s a ∧ LenKept s a

instance (s : State) (a : Act) : Decidable (HeaderFirst s a) :=
  inferInstanceAs (Decidable (∀ _ ∈ _, ∀ _ < _, ∀ _ ∈ _, _))

instance (s : State) (a : Act) : Decidable (LenKept s a) :=
  match a with
  | .recheck =>
    inferInstanceAs (Decidable (∀ x ∈ s.reader.pc.reads,
      ∀ r ∈ s.records x.1, r.cover = .payload →
        (s.area x.2.1.segmentId).load32 x.2.1.offset = x.2.1.seq →
          s.HeaderMatches x.2.1))
  | .reserve _ _ => isTrue trivial
  | .mark => isTrue trivial
  | .put _ _ => isTrue trivial
  | .commit _ => isTrue trivial
  | .stable => isTrue trivial
  | .abort => isTrue trivial
  | .close => isTrue trivial
  | .fetch _ _ => isTrue trivial
  | .loadSeq => isTrue trivial
  | .loadLen => isTrue trivial
  | .copy _ => isTrue trivial

instance (s : State) (a : Act) : Decidable (FetchOk s a) :=
  inferInstanceAs (Decidable (_ ∧ _))

/-! ## The invariant -/

/-- What the memory says about the record with index `n`.  `next` is the
index that the next record will get. -/
structure RecordOk (next : Nat) (area : ByteMemory) (n : Nat) (r : Record) :
    Prop where
  index : n < next
  seq : r.desc.seq = 2 * n % 2 ^ 32
  aligned : r.desc.offset % SHM_RECORD_ALIGN = 0
  own : r.cover = .own → area.load32 r.desc.offset = r.desc.seq ∧
    area.slice (r.desc.offset + recordHeaderSize) r.desc.payloadSize = r.bytes
  header : r.cover = .header →
    ∃ w, 2 * n < w ∧ w < 2 * next ∧ area.load32 r.desc.offset = w % 2 ^ 32

/-- A fetch works on a committed record.  As long as nothing has been stored
over its `seq` word, the bytes that were copied are the ones in the memory. -/
structure Reads (s : State) (n : Nat) (desc : ShmPayloadDescriptor)
    (buf : Nat → UInt8) (rest : List Nat) (r : Record) : Prop where
  committed : s.records n = some r
  same : r.desc = desc
  copied : r.cover = .own → ∀ j < desc.payloadSize, j ∉ rest →
    buf j = s.area desc.segmentId (desc.offset + recordHeaderSize + j)

/-- The invariant of the ring and its reader. -/
structure Inv (s : State) : Prop where
  cursor : s.ring.nextOffset % SHM_RECORD_ALIGN = 0
  records : ∀ n r, s.records n = some r →
    RecordOk s.ring.nextIndex (s.area r.desc.segmentId) n r
  segment : ∀ n r, s.records n = some r → r.desc.segmentId ≤ s.ring.segmentId
  reader : ∀ n desc buf rest, s.reader.pc.reads = some (n, desc, buf, rest) →
    ∃ r, Reads s n desc buf rest r

theorem Inv.init (others : Nat) : Inv (State.init others) where
  cursor := rfl
  records := nofun
  segment := nofun
  reader := nofun

/-! ## Stores -/

/-- The store is the word of a header that comes after record `n`. -/
def Store.MarksAfter (st : Store) (n next offset : Nat) : Prop :=
  ∃ w, 2 * n < w ∧ w < 2 * next ∧ st.addr = offset ∧ st.bytes = le32 w

theorem RecordOk.mono {next next' n : Nat} {area : ByteMemory} {r : Record}
    (h : RecordOk next area n r) (hle : next ≤ next') :
    RecordOk next' area n r where
  index := Nat.lt_of_lt_of_le h.index hle
  seq := h.seq
  aligned := h.aligned
  own := h.own
  header hcover := by
    obtain ⟨w, hlow, hhigh, hload⟩ := h.header hcover
    exact ⟨w, hlow, by omega, hload⟩

/-- A store keeps a record in order if a header goes over it as a whole and
its payload is not touched before its header. -/
theorem RecordOk.store {next n : Nat} {area : ByteMemory} {r : Record}
    (h : RecordOk next area n r) {st : Store} (hne : st.cover ≠ .own)
    (hmark : st.cover = .header →
      Hits st.addr st.bytes.length r.desc.offset 4 →
      st.MarksAfter n next r.desc.offset)
    (hfirst : r.cover = .own → ¬Hits st.addr st.bytes.length
      (r.desc.offset + recordHeaderSize) r.desc.payloadSize) :
    RecordOk next (area.storeBytes st.addr st.bytes) n
      (if Hits st.addr st.bytes.length r.desc.offset 4 then
        { r with cover := st.cover } else r) := by
  split
  · rename_i hhit
    refine ⟨h.index, h.seq, h.aligned, fun hown => absurd hown hne,
      fun hheader => ?_⟩
    obtain ⟨w, hlow, hhigh, haddr, hbytes⟩ := hmark hheader hhit
    refine ⟨w, hlow, hhigh, ?_⟩
    rw [hbytes, haddr]
    exact load32_store_le32 w
  · rename_i hmiss
    refine ⟨h.index, h.seq, h.aligned, fun hown => ?_, fun hheader => ?_⟩
    · rw [load32_storeBytes hmiss, slice_storeBytes (hfirst hown)]
      exact h.own hown
    · rw [load32_storeBytes hmiss]
      exact h.header hheader

section Storing

variable {s : State} {a : Act} {st : Store}

theorem State.storing_area (j : Nat) : (s.storing st).area j =
    if j = s.ring.segmentId then (s.area j).storeBytes st.addr st.bytes
    else s.area j := by
  by_cases hj : j = s.ring.segmentId
  · subst hj
    simp [State.area, State.storing]
  · simp [State.area, State.storing, hj]

@[simp] theorem Store.coverAfter_desc (st : Store) (segmentId : Nat)
    (r : Record) : (st.coverAfter segmentId r).desc = r.desc := by
  unfold Store.coverAfter
  split <;> rfl

/-- A header store that falls on the `seq` word of an aligned record falls on
the whole of it, and its index is the next one. -/
theorem marksAfter_of_store {n next offset : Nat}
    (hstore : s.store a = some st)
    (hcursor : s.ring.nextOffset % SHM_RECORD_ALIGN = 0)
    (haligned : offset % SHM_RECORD_ALIGN = 0) (hn : n < s.ring.nextIndex)
    (hnext : s.ring.nextIndex ≤ next)
    (hstable : a = .stable → s.ring.nextIndex < next)
    (hheader : st.cover = .header)
    (hhit : Hits st.addr st.bytes.length offset 4) :
    st.MarksAfter n next offset := by
  simp only [SHM_RECORD_ALIGN] at hcursor haligned
  cases a <;> simp only [State.store] at hstore
  case mark =>
    split at hstore
    · cases hstore
      simp only [Hits, le32_length] at hhit
      exact ⟨_, by omega, by omega, by simp only; omega, rfl⟩
    · cases hstore
  case stable =>
    split at hstore
    · cases hstore
      simp only [Hits, le32_length] at hhit
      have := hstable rfl
      exact ⟨_, by omega, by omega, by simp only; omega, rfl⟩
    · cases hstore
  case put j v =>
    obtain ⟨-, heq⟩ := Option.ite_none_right_eq_some.mp hstore
    cases heq
    cases hheader
  case commit payloadSize =>
    obtain ⟨-, heq⟩ := Option.ite_none_right_eq_some.mp hstore
    cases heq
    simp only [Hits, le32_length] at hhit
    omega
  all_goals cases hstore

theorem cover_of_store (hstore : s.store a = some st) : st.cover ≠ .own := by
  cases a <;> simp only [State.store] at hstore
  case mark => split at hstore <;> cases hstore; nofun
  case stable => split at hstore <;> cases hstore; nofun
  case put j v =>
    obtain ⟨-, heq⟩ := Option.ite_none_right_eq_some.mp hstore
    cases heq
    nofun
  case commit payloadSize =>
    obtain ⟨-, heq⟩ := Option.ite_none_right_eq_some.mp hstore
    cases heq
    nofun
  all_goals cases hstore

/-- A store keeps the invariant if a header goes over a `seq` word as a whole
and no payload is touched before its header. -/
theorem Inv.storing (h : Inv s) (hne : st.cover ≠ .own)
    (hmark : ∀ n r, s.records n = some r → st.cover = .header →
      Hits st.addr st.bytes.length r.desc.offset 4 →
      st.MarksAfter n s.ring.nextIndex r.desc.offset)
    (hfirst : ∀ n r, s.records n = some r →
      r.desc.segmentId = s.ring.segmentId → r.cover = .own →
      ¬Hits st.addr st.bytes.length (r.desc.offset + recordHeaderSize)
        r.desc.payloadSize) : Inv (s.storing st) := by
  refine ⟨h.cursor, fun n r' hr' => ?_, fun n r' hr' => ?_,
    fun n desc buf rest hreads => ?_⟩
  · obtain ⟨r, hr, rfl⟩ := Option.map_eq_some_iff.mp hr'
    have hok := h.records n r hr
    by_cases hseg : r.desc.segmentId = s.ring.segmentId
    · have hafter : st.coverAfter s.ring.segmentId r =
          if Hits st.addr st.bytes.length r.desc.offset 4 then
            { r with cover := st.cover } else r := by
        simp only [Store.coverAfter, hseg, true_and]
      rw [st.coverAfter_desc, State.storing_area, if_pos hseg, hafter]
      exact hok.store hne (hmark n r hr) (hfirst n r hr hseg)
    · have hafter : st.coverAfter s.ring.segmentId r = r :=
        if_neg fun hboth => hseg hboth.1
      rw [hafter, State.storing_area, if_neg hseg]
      exact hok
  · obtain ⟨r, hr, rfl⟩ := Option.map_eq_some_iff.mp hr'
    rw [st.coverAfter_desc]
    exact h.segment n r hr
  · obtain ⟨r, hr, hsame, hcopied⟩ := h.reader n desc buf rest hreads
    refine ⟨st.coverAfter s.ring.segmentId r, by simp [State.storing, hr],
      by rw [st.coverAfter_desc]; exact hsame, fun hown j hj hrest => ?_⟩
    -- A record that is not covered after the store was not covered before.
    have hold : st.coverAfter s.ring.segmentId r = r ∧ r.cover = .own := by
      unfold Store.coverAfter at hown ⊢
      split at hown
      · exact absurd hown hne
      · rename_i hmiss
        exact ⟨if_neg hmiss, hown⟩
    rw [hcopied hold.2 j hj hrest, State.storing_area]
    split
    · rename_i hseg
      rw [← hsame] at hseg hj ⊢
      have hmiss := hfirst n r hr hseg hold.2
      refine (storeBytes_of_not_hits fun hhit => hmiss ?_).symm
      simp only [Hits] at hhit ⊢
      omega
    · rfl

end Storing

/-! ## The induction step -/

section Step

variable {s t : State} {page : Nat}

/-- The writer goes on without a store. -/
theorem Inv.goto (h : Inv s) {ring : ShmRingWriter} {wpc : WriterPc}
    (hcursor : ring.nextOffset % SHM_RECORD_ALIGN = 0)
    (hnext : s.ring.nextIndex ≤ ring.nextIndex)
    (hseg : s.ring.segmentId ≤ ring.segmentId) : Inv (s.goto ring wpc) where
  cursor := hcursor
  records n r hr := (h.records n r hr).mono hnext
  segment n r hr := (h.segment n r hr).trans hseg
  reader n desc buf rest hreads := by
    obtain ⟨r, hr, hsame, hcopied⟩ := h.reader n desc buf rest hreads
    exact ⟨r, hr, hsame, hcopied⟩

/-- A new segment is not the segment of a committed record. -/
theorem Inv.createSegment (h : Inv s) (area : Nat) :
    Inv (s.createSegment area) := by
  have harea : ∀ n r, s.records n = some r →
      (s.createSegment area).area r.desc.segmentId = s.area r.desc.segmentId := by
    intro n r hr
    have hne : r.desc.segmentId ≠ s.ring.segmentId + 1 := by
      have := h.segment n r hr
      omega
    simp [State.area, State.createSegment, hne]
  refine ⟨rfl, fun n r hr => ?_, fun n r hr => ?_,
    fun n desc buf rest hreads => ?_⟩
  · rw [harea n r hr]
    exact h.records n r hr
  · exact (h.segment n r hr).trans (Nat.le_succ _)
  · obtain ⟨r, hr, rfl, hcopied⟩ := h.reader n desc buf rest hreads
    refine ⟨r, hr, rfl, fun hown j hj hrest => ?_⟩
    rw [harea n r hr]
    exact hcopied hown j hj hrest

theorem ShmRingWriter.wrap_cursor {ring : ShmRingWriter}
    (h : ring.nextOffset % SHM_RECORD_ALIGN = 0) (maxPayloadSize : Nat) :
    (ring.wrap maxPayloadSize).nextOffset % SHM_RECORD_ALIGN = 0 := by
  unfold wrap
  split
  · rfl
  · exact h

theorem Inv.wrap (h : Inv s) (maxPayloadSize : Nat) (wpc : WriterPc) :
    Inv (s.goto (s.ring.wrap maxPayloadSize) wpc) := by
  refine h.goto (ShmRingWriter.wrap_cursor h.cursor maxPayloadSize) ?_ ?_ <;>
    · unfold ShmRingWriter.wrap
      split <;> exact Nat.le_refl _

theorem Inv.reserve (h : Inv s) (maxPayloadSize : Nat) (created : Bool) :
    Inv (reserve page s maxPayloadSize created) := by
  unfold Payload.reserve
  split
  · exact h
  · split
    · split
      · exact (h.createSegment _).wrap maxPayloadSize _
      · exact h
    · exact h.wrap maxPayloadSize _

theorem recordBytes_mod (payloadSize : Nat) :
    recordBytes payloadSize % SHM_RECORD_ALIGN = 0 :=
  Nat.mul_mod_left _ _

theorem ShmRingWriter.advance_cursor {ring : ShmRingWriter}
    (h : ring.nextOffset % SHM_RECORD_ALIGN = 0) (payloadSize : Nat) :
    (ring.advance payloadSize).nextOffset % SHM_RECORD_ALIGN = 0 := by
  have := recordBytes_mod payloadSize
  simp only [advance, SHM_RECORD_ALIGN] at *
  omega

/-- A store of the writer at a state whose ring may have gone on already. -/
theorem Inv.storing_of_store (h : Inv s) {a : Act} {st : Store}
    (hstore : s.store a = some st) (hfirst : HeaderFirst s a)
    (ring : ShmRingWriter) (wpc : WriterPc)
    (hcursor : ring.nextOffset % SHM_RECORD_ALIGN = 0)
    (hnext : s.ring.nextIndex ≤ ring.nextIndex)
    (hstable : a = .stable → s.ring.nextIndex < ring.nextIndex)
    (hseg : ring.segmentId = s.ring.segmentId) :
    Inv ((s.goto ring wpc).storing st) := by
  refine (h.goto hcursor hnext hseg.ge).storing (cover_of_store hstore)
    (fun n r hr hheader hhit => ?_) (fun n r hr hin hown => ?_)
  · have hok := h.records n r hr
    exact marksAfter_of_store hstore h.cursor hok.aligned hok.index hnext
      hstable hheader hhit
  · exact hfirst st hstore n (h.records n r hr).index r hr
      (hin.trans hseg) hown

/-- The commit of the record at the cursor.  The descriptor leaves the writer
with the `seq` word and the payload that are in the memory. -/
theorem Inv.stable (h : Inv s) (hfirst : HeaderFirst s .stable)
    {payloadSize : Nat} {st : Store} (hstore : s.store .stable = some st) :
    Inv (((s.storing st).publish payloadSize).goto
      (s.ring.advance payloadSize) .idle) := by
  have hst := h.storing_of_store hstore hfirst (s.ring.advance payloadSize) .idle
    (ShmRingWriter.advance_cursor h.cursor payloadSize) (Nat.le_succ _)
    (fun _ => Nat.lt_succ_self _) rfl
  have hother : ∀ n r, s.records n = some r → n ≠ s.ring.nextIndex :=
    fun n r hr => Nat.ne_of_lt (h.records n r hr).index
  have hkeep : ∀ n, n ≠ s.ring.nextIndex →
      (((s.storing st).publish payloadSize).goto (s.ring.advance payloadSize)
        .idle).records n =
      ((s.goto (s.ring.advance payloadSize) .idle).storing st).records n :=
    fun n hn => Function.update_of_ne hn _ _
  have hnew : ∀ r, (((s.storing st).publish payloadSize).goto
      (s.ring.advance payloadSize) .idle).records s.ring.nextIndex = some r →
      r = { desc := s.ring.descriptor payloadSize,
            bytes := ((s.storing st).area s.ring.segmentId).slice
              (s.ring.nextOffset + recordHeaderSize) payloadSize,
            cover := .own } := by
    intro r hr
    simpa [State.publish, State.goto, State.storing] using hr.symm
  have hword : st = ⟨s.ring.nextOffset, le32 (2 * s.ring.nextIndex), .header⟩ := by
    simp only [State.store] at hstore
    split at hstore
    · exact (Option.some.inj hstore).symm
    · cases hstore
  refine ⟨hst.cursor, fun n r hr => ?_, fun n r hr => ?_,
    fun n desc buf rest hreads => ?_⟩
  · by_cases hn : n = s.ring.nextIndex
    · subst hn
      obtain rfl := hnew r hr
      refine ⟨Nat.lt_succ_self _, rfl, h.cursor, fun _ => ⟨?_, rfl⟩, nofun⟩
      show ((s.storing st).area s.ring.segmentId).load32 s.ring.nextOffset = _
      rw [State.storing_area, if_pos rfl, hword]
      exact load32_store_le32 _
    · exact hst.records n r ((hkeep n hn).symm.trans hr)
  · by_cases hn : n = s.ring.nextIndex
    · subst hn
      obtain rfl := hnew r hr
      exact le_rfl
    · exact hst.segment n r ((hkeep n hn).symm.trans hr)
  · obtain ⟨r, hr, hsame, hcopied⟩ := hst.reader n desc buf rest hreads
    obtain ⟨r', hr', -⟩ := Option.map_eq_some_iff.mp hr
    exact ⟨r, (hkeep n (hother n r' hr')).trans hr, hsame, hcopied⟩

/-- A step of the reader. -/
theorem Inv.of_reader (h : Inv s) {reader : Reader}
    (hreads : ∀ n desc buf rest, reader.pc.reads = some (n, desc, buf, rest) →
      ∃ r, Reads s n desc buf rest r) : Inv { s with reader := reader } where
  cursor := h.cursor
  records := h.records
  segment := h.segment
  reader n desc buf rest hpc := by
    obtain ⟨r, hr, hsame, hcopied⟩ := hreads n desc buf rest hpc
    exact ⟨r, hr, hsame, hcopied⟩

theorem Inv.answer (h : Inv s) (ret : Option (List UInt8)) :
    Inv (s.answer ret) :=
  h.of_reader nofun

/-- The reader starts a fetch of a committed record. -/
theorem Inv.fetch (h : Inv s) {n : Nat} {r : Record}
    (hr : s.records n = some r) (cache : ShmReaderCache) :
    Inv ({ s with reader := { s.reader with cache := cache } }.readerGoto
      (.loadSeq n r.desc)) := by
  refine h.of_reader ?_
  rintro _ _ _ _ ⟨⟩
  exact ⟨r, hr, rfl, fun _ j hj hrest => absurd (List.mem_range.mpr hj) hrest⟩

/-- The reader copies a byte. -/
theorem Inv.copy (h : Inv s) {n j : Nat} {desc : ShmPayloadDescriptor}
    {buf : Nat → UInt8} {rest : List Nat}
    (hpc : s.reader.pc = .copy n desc buf rest) :
    Inv (s.readerGoto
      (.copy n desc
        (Function.update buf j
          (s.area desc.segmentId (desc.offset + recordHeaderSize + j)))
        (rest.erase j))) := by
  obtain ⟨r, hr, hsame, hcopied⟩ := h.reader n desc buf rest (by rw [hpc]; rfl)
  refine h.of_reader ?_
  rintro _ _ _ _ ⟨⟩
  refine ⟨r, hr, hsame, fun hown i hi hrest => ?_⟩
  by_cases hij : i = j
  · subst hij
    exact Function.update_self ..
  · rw [Function.update_of_ne hij]
    exact hcopied hown i hi fun hmem =>
      hrest ((List.mem_erase_of_ne hij).mpr hmem)

/-- Every step under `HeaderFirst` keeps the invariant. -/
theorem Inv.step {a : Act} (h : Inv s) (hfirst : HeaderFirst s a)
    (hstep : Payload.step page s a = some t) : Inv t := by
  cases a with simp only [Payload.step] at hstep
  | reserve maxPayloadSize created =>
    obtain ⟨-, heq⟩ := Option.ite_none_right_eq_some.mp hstep
    cases heq
    exact h.reserve maxPayloadSize created
  | mark =>
    split at hstep
    · obtain ⟨st, hst, rfl⟩ := Option.map_eq_some_iff.mp hstep
      exact h.storing_of_store hst hfirst _ _ h.cursor le_rfl nofun rfl
    · cases hstep
  | put j v =>
    obtain ⟨st, hst, rfl⟩ := Option.map_eq_some_iff.mp hstep
    exact h.storing_of_store hst hfirst s.ring s.wpc h.cursor le_rfl nofun rfl
  | commit payloadSize =>
    obtain ⟨-, heq⟩ := Option.ite_none_right_eq_some.mp hstep
    split at heq
    · cases heq
      exact h.goto h.cursor le_rfl le_rfl
    · obtain ⟨st, hst, rfl⟩ := Option.map_eq_some_iff.mp heq
      exact h.storing_of_store hst hfirst _ _ h.cursor le_rfl nofun rfl
  | stable =>
    split at hstep
    · obtain ⟨st, hst, rfl⟩ := Option.map_eq_some_iff.mp hstep
      exact h.stable hfirst hst
    · cases hstep
  | abort =>
    obtain ⟨-, heq⟩ := Option.ite_none_right_eq_some.mp hstep
    cases heq
    exact h.goto h.cursor le_rfl le_rfl
  | close =>
    obtain ⟨-, heq⟩ := Option.ite_none_right_eq_some.mp hstep
    cases heq
    exact h.goto rfl le_rfl le_rfl
  | fetch n mmapOk =>
    split at hstep
    · rename_i r hpc hr
      split at hstep
      · cases hstep
        exact h.of_reader nofun
      · split at hstep <;> cases hstep
        · exact h.fetch hr _
        · exact h.of_reader nofun
    · cases hstep
  | loadSeq =>
    split at hstep
    · rename_i n desc hpc
      split at hstep <;> cases hstep
      · refine h.of_reader ?_
        rintro _ _ _ _ ⟨⟩
        exact h.reader n desc _ _ (by rw [hpc]; rfl)
      · exact h.answer none
    · cases hstep
  | loadLen =>
    split at hstep
    · rename_i n desc hpc
      split at hstep <;> cases hstep
      · refine h.of_reader ?_
        rintro _ _ _ _ ⟨⟩
        exact h.reader n desc _ _ (by rw [hpc]; rfl)
      · exact h.answer none
    · cases hstep
  | copy j =>
    split at hstep
    · rename_i n desc buf rest hpc
      obtain ⟨-, heq⟩ := Option.ite_none_right_eq_some.mp hstep
      cases heq
      exact h.copy hpc
    · cases hstep
  | recheck =>
    split at hstep
    · split at hstep <;> cases hstep
      · exact h.answer _
      · exact h.answer none
    · cases hstep

end Step

/-! ## The result -/

/-- A fetch that answers true returns the committed bytes, or a later payload
has put the words of the descriptor over its header.  `hwindow` says that
fewer than `2 ^ 31` records were committed after record `n`. -/
theorem shm_fetch_payload_exact {page others n : Nat} {s t : State}
    (hrun : (machine page).Reach FetchOk (State.init others) s)
    {desc : ShmPayloadDescriptor} {buf : Nat → UInt8} {r : Record}
    (hpc : s.reader.pc = .copy n desc buf []) (hr : s.records n = some r)
    (hwindow : s.ring.nextIndex ≤ n + 2 ^ 31) (hok : FetchOk s .recheck)
    (hstep : step page s .recheck = some t) {bytes : List UInt8}
    (hret : t.reader.ret = some bytes) :
    bytes = r.bytes ∨ r.cover = .payload ∧ s.HeaderMatches desc := by
  have hinv : Inv s := hrun.invariant (Inv.init others)
    fun _ _ _ hinv hok hstep => hinv.step hok.1 hstep
  obtain ⟨r', hr', hsame, hcopied⟩ := hinv.reader n desc buf [] (by rw [hpc]; rfl)
  obtain rfl : r = r' := Option.some.inj (hr.symm.trans hr')
  subst hsame
  have hrec := hinv.records n r hr
  simp only [step, hpc] at hstep
  split at hstep
  · rename_i hseq
    cases hstep
    obtain rfl := Option.some.inj hret
    cases hcover : r.cover with
    | own =>
      refine .inl ?_
      rw [← (hrec.own hcover).2]
      exact slice_eq_map fun j hj => hcopied hcover j hj (by simp)
    | header =>
      -- The word of a later header is not the expected one.
      obtain ⟨w, hlow, hhigh, hload⟩ := hrec.header hcover
      rw [hseq, hrec.seq] at hload
      omega
    | payload =>
      exact .inr ⟨rfl, hok.2 _ (by rw [hpc]; rfl) r hr hcover hseq⟩
  · cases hstep
    cases hret

/-- The fetch of record `n` is about to load the header again. -/
def State.atRecheck (s : State) (n : Nat) : Bool :=
  match s.reader.pc with
  | .copy m _ _ [] => m == n
  | _ => false

theorem State.of_atRecheck {s : State} {n : Nat} (h : s.atRecheck n = true) :
    ∃ desc buf, s.reader.pc = .copy n desc buf [] := by
  unfold atRecheck at h
  split at h
  · rename_i m desc buf hpc
    obtain rfl := eq_of_beq h
    exact ⟨desc, buf, hpc⟩
  · cases h

/-- The steps that stage a payload of one byte. -/
def stageByte (v : UInt8) : List Act :=
  [.reserve 1 true, .mark, .put 0 v, .commit 1, .stable]

/-- The steps that stage a quarter of the smallest ring, all zeros, into fresh
memory. -/
def stageQuarter : List Act :=
  [.reserve 262136 true, .mark, .commit 262136, .stable]

set_option maxRecDepth 100000 in
/-- The reader gets the byte of record 1 while the writer stages record 2. -/
theorem shm_fetch_payload_exact_byte :
    ∃ (s : State) (r : Record) (bytes : List UInt8),
      bytes = [7] ∧ s.records 1 = some r ∧
        (bytes = r.bytes ∨ r.cover = .payload ∧ s.HeaderMatches r.desc) := by
  obtain ⟨s, hrun, hat, hwindow, hok, hret, hrec⟩ :=
    (machine 4096).exists_reach_of_guardedRun FetchOk (State.init 0)
      (stageByte 7 ++ [.fetch 1 true, .loadSeq, .loadLen] ++ stageByte 9 ++
        [.copy 0])
      (fun s => s.atRecheck 1 = true ∧ s.ring.nextIndex ≤ 1 + 2 ^ 31 ∧
        FetchOk s .recheck ∧
        ((step 4096 s .recheck).bind fun t => t.reader.ret) = some [7] ∧
        (s.records 1).isSome = true) (by decide)
  obtain ⟨desc, buf, hpc⟩ := State.of_atRecheck hat
  obtain ⟨r, hr⟩ := Option.isSome_iff_exists.mp hrec
  obtain ⟨t, hstep, hret⟩ := Option.bind_eq_some_iff.mp hret
  refine ⟨s, r, [7], rfl, hr, ?_⟩
  have hexact := shm_fetch_payload_exact hrun hpc hr hwindow hok hstep hret
  have hinv : Inv s := hrun.invariant (Inv.init 0)
    fun _ _ _ hinv hok hstep => hinv.step hok.1 hstep
  obtain ⟨r', hr', hsame, -⟩ := hinv.reader 1 desc buf [] (by rw [hpc]; rfl)
  obtain rfl : r = r' := Option.some.inj (hr.symm.trans hr')
  rw [hsame]
  exact hexact

set_option maxRecDepth 100000 in
/-- Record 2 is the byte 7 at offset 64.  Three quarters later the cursor
wraps, and the payload of the record at offset 0 reaches the memory with its
byte 64 first: that is the payload of record 2, whose header is still whole. -/
theorem shm_fetch_payload_torn :
    ¬∀ (s t : State) (n : Nat) (desc : ShmPayloadDescriptor)
      (buf : Nat → UInt8) (r : Record) (bytes : List UInt8),
      (machine 4096).Reach (fun _ _ => True) (State.init 0) s →
      s.reader.pc = .copy n desc buf [] → s.records n = some r →
      s.ring.nextIndex ≤ n + 2 ^ 31 → step 4096 s .recheck = some t →
      t.reader.ret = some bytes →
      bytes = r.bytes ∨ r.cover = .payload ∧ s.HeaderMatches desc := by
  intro hclaim
  obtain ⟨s, hrun, hat, hwindow, hret, hrec⟩ :=
    (machine 4096).exists_reach_of_guardedRun (fun _ _ => True) (State.init 0)
      (stageByte 1 ++ stageByte 7 ++ stageQuarter ++ stageQuarter ++
        stageQuarter ++ [.reserve 262136 true, .mark, .fetch 2 true, .loadSeq,
          .loadLen, .put 64 9, .copy 0])
      (fun s => s.atRecheck 2 = true ∧ s.ring.nextIndex ≤ 2 + 2 ^ 31 ∧
        ((step 4096 s .recheck).bind fun t => t.reader.ret) = some [9] ∧
        (s.records 2).map (fun r => (r.bytes, r.cover)) = some ([7], .own))
      (by decide)
  obtain ⟨desc, buf, hpc⟩ := State.of_atRecheck hat
  obtain ⟨r, hr, hfields⟩ := Option.map_eq_some_iff.mp hrec
  obtain ⟨hbytes, hcover⟩ := Prod.mk.inj hfields
  obtain ⟨t, hstep, hret⟩ := Option.bind_eq_some_iff.mp hret
  rcases hclaim s t 2 desc buf r [9] hrun hpc hr hwindow hstep hret with
    heq | ⟨hpay, -⟩
  · rw [hbytes] at heq
    exact absurd heq (by decide)
  · rw [hcover] at hpay
    cases hpay

end RmwUnixSocket.Payload
