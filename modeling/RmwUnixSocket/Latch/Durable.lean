import RmwUnixSocket.Lib.Exclusive
import RmwUnixSocket.Latch.Order

/-!
# Who owns a durable segment

A large sample of a TRANSIENT_LOCAL publisher is staged in a durable segment, and
the handle of the segment moves: from the caller into the critical section, from
there into the slot of the ring, and out of the slot when a later sample takes it.
A latch that fails destroys the segment, and so does the caller that gets an evicted
one.

* An `Owner` has one handle at most (`State.held`).  `Linear` says that the segments
  that are linked are those that have an owner, and that no segment has two.
* `PubDurable` is the invariant of one publisher: what its slots name, and what the
  segments hold.
* `recording` is the machine with the payload of every sample, by publisher and
  sequence number.
-/

namespace RmwUnixSocket.Latch.Replay

open SlotRing (slotOf slotOf_lt)

variable {G T : Type}

/-! ## Handles -/

/-- Who may have a handle: a thread before its critical section or at the end of its
call, the call in the critical section, the local of it that has the evicted handle,
or a slot. -/
inductive Owner (G T : Type)
  | thread (t : T)
  | call (g : G)
  | evicted (g : G)
  | slot (g : G) (i : Nat)

/-- The publisher that an owner belongs to. -/
def Owner.publisher : Owner G T → Option G
  | .thread _ => none
  | .call g | .evicted g | .slot g _ => some g

/-- The handle of a thread outside the critical sections. -/
def ThreadPc.held : ThreadPc G → Option Nat
  | .idle | .inside _ => none
  | .lock _ call => call.staged
  | .destroy segment => some segment

/-- `staged_seg`, until the latch has taken it. -/
def Crit.stagedSeg (crit : Crit G T) : Option Nat :=
  match crit.pc with
  | .assign | .latch _ | .latching _ => crit.call.staged
  | _ => none

/-- `evicted`, once the latch has filled it. -/
def Crit.evictedSeg (crit : Crit G T) : Option Nat :=
  match crit.pc with
  | .assign | .latch _ | .latching _ => none
  | _ => crit.evicted

/-- The handle of an owner. -/
def State.held (s : State G T) : Owner G T → Option Nat
  | .thread t => (s.threads t).held
  | .call g => (s.pubs g).crit.bind Crit.stagedSeg
  | .evicted g => (s.pubs g).crit.bind Crit.evictedSeg
  | .slot g i => (s.pubs g).writer.ring.durableSegs i

/-- The segment is linked. -/
def State.linked (s : State G T) (segment : Nat) : Prop :=
  s.segments segment ≠ none

/-! ## Samples -/

section Recording

variable [DecidableEq G] [DecidableEq T]

/-- The payloads of the samples that got a sequence number. -/
def recorded (s : State G T) (payloads : G → Nat → List UInt8) :
    Act G T → G → Nat → List UInt8
  | .crit g _ =>
    match (s.pubs g).crit with
    | some crit =>
      match crit.pc with
      | .assign =>
        Function.update payloads g (Function.update (payloads g)
          (s.pubs g).sequenceNumber crit.call.payload)
      | _ => payloads
    | none => payloads
  | _ => payloads

/-- The machine with the payloads of its samples. -/
def recording (C : Config G) :
    Machine (State G T × (G → Nat → List UInt8)) (Act G T) where
  step s a := (step C s.1 a).map fun t => (t, recorded s.1 s.2 a)

/-- Nobody has published. -/
def startRecording (G T : Type) [Inhabited G] :
    State G T × (G → Nat → List UInt8) :=
  (.init G T, fun _ _ => [])

/-- Every run of the publishers is a run with its payloads. -/
theorem exists_recording {C : Config G} {s t : State G T}
    {payloads : G → Nat → List UInt8}
    (h : (machine C).Reach (fun _ _ => True) s t) :
    ∃ payloads', (recording C).Reach (fun _ _ => True) (s, payloads)
      (t, payloads') := by
  induction h with
  | refl => exact ⟨payloads, .refl⟩
  | @tail t u a _ _ hstep ih =>
    obtain ⟨payloads', hreach⟩ := ih
    refine ⟨recorded t payloads' a, hreach.tail (a := a) trivial ?_⟩
    have hstep' : step C t a = some u := hstep
    simp only [recording, hstep', Option.map_some]

end Recording

/-! ## The writer -/

/-- What the slots of a writer own. -/
structure Owning (slots : Nat) (w : Writer G) : Prop where
  bound : ∀ i x, w.ring.durableSegs i = some x → i < slots
  durable : ∀ i < slots, ¬w.BusyAt slots i → (w.ring.slots i).index ≠ 0 →
    ∀ rec, w.Marked (w.ring.slots i).index rec → w.ring.durableSegs i = rec.segment

section Writer

variable {slots : Nat} {w w' : Writer G} {rec : SlotRecord G}

/-- The mark of the next record. -/
theorem Owning.markNext (h : Owning slots w) (hw : WriterOk slots w)
    (hidle : w.pc.record = none) : Owning slots (w.markNext slots rec) := by
  refine ⟨h.bound, fun i hi hfree hindex r hr => ?_⟩
  have hother : i ≠ slotOf slots w.ring.nextIndex := fun heq => hfree ⟨nofun, heq⟩
  have hslot : (w.markNext slots rec).ring.slots i = w.ring.slots i := by
    simp only [Writer.markNext, TlRing.mark, TlRing.modify_slots, if_neg hother]
  rw [hslot] at hindex hr
  refine h.durable i hi (fun hbusy => hbusy.1 hidle) hindex r ⟨hr.1, ?_⟩
  have hle := (hw.slot i hi).newest.le
  rw [← hr.2]
  exact (List.getElem?_append_left (by omega)).symm

/-- A store into the slot of the record. -/
theorem Owning.put (h : Owning slots w) (hmarks : w'.marks = w.marks)
    (hpc : w'.pc.record ≠ none) {f : TlSlot G → TlSlot G}
    (hring : w'.ring = w.ring.modify slots f) : Owning slots w' := by
  refine ⟨fun i x hx => h.bound i x (by rw [hring] at hx; exact hx),
    fun i hi hfree hindex r hr => ?_⟩
  have hother : i ≠ slotOf slots w.ring.nextIndex := by
    intro heq
    refine hfree ⟨hpc, ?_⟩
    rw [hring]
    exact heq
  have hslot : w'.ring.slots i = w.ring.slots i := by
    rw [hring, TlRing.modify_slots, if_neg hother]
  have howns : w'.ring.durableSegs i = w.ring.durableSegs i := by
    rw [hring]
    rfl
  rw [hslot] at hindex hr
  rw [howns]
  refine h.durable i hi (fun hbusy => hother hbusy.2) hindex r ⟨hr.1, ?_⟩
  rw [← hmarks]
  exact hr.2

/-- The commit: the slot owns the segment of its record. -/
theorem Owning.commit (h : Owning slots w) (hw : WriterOk slots w)
    (hslots : 0 < slots) (hpc : w.pc = .commit rec) :
    Owning slots { w with ring := w.ring.commit slots rec.segment, pc := .idle } := by
  have hrec : w.pc.record = some rec := by rw [hpc]; rfl
  have hmarked := (hw.busy rec hrec).1
  refine ⟨fun i x hx => ?_, fun i hi _ hindex r hr => ?_⟩
  · by_cases hown : i = slotOf slots w.ring.nextIndex
    · rw [hown]
      exact slotOf_lt hslots _
    · simp only [TlRing.commit, Function.update_of_ne hown] at hx
      exact h.bound i x hx
  · by_cases hown : i = slotOf slots w.ring.nextIndex
    · have hlast : TlSlot.index
          { w.ring.slots i with seq := 2 * w.ring.nextIndex } = w.ring.nextIndex := by
        unfold TlSlot.index
        simp only
        omega
      simp only [TlRing.commit, TlRing.modify_slots, if_pos hown, hlast] at hr
      simp only [TlRing.commit, hown, Function.update_self]
      exact congrArg SlotRecord.segment (hmarked.unique hr)
    · simp only [TlRing.commit, TlRing.modify_slots, if_neg hown] at hindex hr
      simp only [TlRing.commit, Function.update_of_ne hown]
      exact h.durable i hi (fun hbusy => hown hbusy.2) hindex r hr

end Writer

/-! ## The invariant of a publisher -/

/-- The critical section has the staged segment, or its slot has. -/
def CritPc.keeps : CritPc G → Bool
  | .assign | .latch _ | .latching _ => true
  | .loadGen _ latched | .refresh _ latched _ | .send _ latched _ => latched
  | .unlock => false

/-- The sample is in its slot. -/
def CritPc.latched : CritPc G → Bool
  | .assign | .latch _ | .latching _ | .unlock => false
  | .loadGen _ latched | .refresh _ latched _ | .send _ latched _ => latched

/-- The latch has not begun. -/
def CritPc.early : CritPc G → Bool
  | .assign | .latch _ => true
  | _ => false

/-- A record that has been marked: its flag, the descriptor, and the bytes of its
segment. -/
structure RecordOk (segments : Nat → Option (List UInt8)) (staged : Nat)
    (payloads : Nat → List UInt8) (rec : SlotRecord G) : Prop where
  flag : rec.header.shmPayload = rec.segment.isSome
  names : ∀ x, rec.segment = some x → rec.payload = descriptorCells x
  bytes : ∀ x bytes, rec.segment = some x → segments x = some bytes →
    bytes = payloads rec.sequenceNumber
  old : ∀ x, rec.segment = some x → x < staged

/-- The segments of a publisher. -/
structure PubDurable (slots : Nat) (g : G) (pub : Publisher G T)
    (segments : Nat → Option (List UInt8)) (staged : Nat)
    (payloads : Nat → List UInt8) : Prop where
  sample : ∀ crit hdr, pub.crit = some crit → crit.pc.unsent = some hdr →
    hdr = crit.call.header g hdr.sequenceNumber ∧
      payloads hdr.sequenceNumber = crit.call.payload
  content : ∀ crit x, pub.crit = some crit → crit.pc.keeps = true →
    crit.call.staged = some x → segments x = some crit.call.payload ∧ x < staged
  early : ∀ crit, pub.crit = some crit → crit.pc.early = true → crit.evicted = none
  latching : ∀ crit hdr, pub.crit = some crit → crit.pc = .latching hdr →
    (∃ rec, pub.writer.pc.record = some rec ∧
      slotRecord hdr crit.call.payload crit.call.staged = some rec) ∧
    crit.evicted = pub.writer.ring.evicted slots
  latched : ∀ crit x, pub.crit = some crit → crit.pc.latched = true →
    crit.call.staged = some x → ∃ i, pub.writer.ring.durableSegs i = some x
  owning : Owning slots pub.writer
  records : ∀ rec ∈ pub.writer.marks, RecordOk segments staged payloads rec

/-- The invariant. -/
structure DurableOk (C : Config G) (s : State G T)
    (payloads : G → Nat → List UInt8) : Prop where
  linear : Linear s.linked s.held
  fresh : ∀ x, s.staged ≤ x → s.segments x = none
  inside : ∀ g crit, (s.pubs g).crit = some crit → s.threads crit.thread = .inside g
  waiting : ∀ t g call x, s.threads t = .lock g call → call.staged = some x →
    s.segments x = some call.payload
  pub : ∀ g, PubDurable (C.slots g) g (s.pubs g) s.segments s.staged (payloads g)

section Publisher

variable {slots : Nat} {g : G} {pub pub' : Publisher G T} {crit crit' : Crit G T}
  {segments segments' : Nat → Option (List UInt8)} {staged staged' : Nat}
  {payloads : Nat → List UInt8}

theorem PubDurable.init [Inhabited G] (slots : Nat) (g : G) :
    PubDurable slots g ((State.init G T).pubs g) (fun _ => none) 0 fun _ => [] where
  sample c hdr hc := by cases hc
  content c x hc := by cases hc
  early c hc := by cases hc
  latching c hdr hc := by cases hc
  latched c x hc := by cases hc
  owning := by
    have hzero : (TlSlot.zero G).index = 0 := by simp [TlSlot.index, TlSlot.zero]
    refine ⟨fun i x hx => ?_, fun _ _ _ hindex => absurd hzero hindex⟩
    cases hx
  records r hr := by cases hr

/-- Segments come and go elsewhere. -/
theorem PubDurable.env (h : PubDurable slots g pub segments staged payloads)
    (hkeep : ∀ crit x, pub.crit = some crit → crit.pc.keeps = true →
      crit.call.staged = some x → segments x ≠ none → segments' x = segments x)
    (hshrink : ∀ x bytes, x < staged → segments' x = some bytes →
      segments x = some bytes) (hstaged : staged ≤ staged') :
    PubDurable slots g pub segments' staged' payloads where
  sample := h.sample
  content crit x hcrit hkeeps hx := by
    obtain ⟨hsegment, hold⟩ := h.content crit x hcrit hkeeps hx
    refine ⟨?_, Nat.lt_of_lt_of_le hold hstaged⟩
    rw [hkeep crit x hcrit hkeeps hx (by rw [hsegment]; nofun)]
    exact hsegment
  early := h.early
  latching := h.latching
  latched := h.latched
  owning := h.owning
  records rec hrec := by
    have hok := h.records rec hrec
    exact ⟨hok.flag, hok.names,
      fun x bytes hx hbytes => hok.bytes x bytes hx
        (hshrink x bytes (hok.old x hx) hbytes),
      fun x hx => Nat.lt_of_lt_of_le (hok.old x hx) hstaged⟩

/-- The critical section goes on, outside the latch. -/
theorem PubDurable.goto (h : PubDurable slots g pub segments staged payloads)
    (hcrit : pub.crit = some crit) (hwriter : pub'.writer = pub.writer)
    (hcrit' : pub'.crit = some crit') (hcall : crit'.call = crit.call)
    (hunsent : ∀ hdr, crit'.pc.unsent = some hdr → crit.pc.unsent = some hdr)
    (hkeeps : crit'.pc.keeps = true → crit.pc.keeps = true)
    (hearly : crit'.pc.early = false) (hlatching : ∀ hdr, crit'.pc ≠ .latching hdr)
    (hlatched : crit'.pc.latched = true → crit.pc.latched = true) :
    PubDurable slots g pub' segments staged payloads where
  sample c hdr hc hhdr := by
    rw [hcrit'] at hc
    cases hc
    rw [hcall]
    exact h.sample crit hdr hcrit (hunsent hdr hhdr)
  content c x hc hk hx := by
    rw [hcrit'] at hc
    cases hc
    rw [hcall] at hx ⊢
    exact h.content crit x hcrit (hkeeps hk) hx
  early c hc he := by
    rw [hcrit'] at hc
    cases hc
    rw [hearly] at he
    cases he
  latching c hdr hc hl := by
    rw [hcrit'] at hc
    cases hc
    exact absurd hl (hlatching hdr)
  latched c x hc hl hx := by
    rw [hcrit'] at hc
    cases hc
    rw [hcall] at hx
    rw [hwriter]
    exact h.latched crit x hcrit (hlatched hl) hx
  owning := by
    rw [hwriter]
    exact h.owning
  records := by
    rw [hwriter]
    exact h.records

/-- The critical section ends. -/
theorem PubDurable.finish (h : PubDurable slots g pub segments staged payloads)
    (hwriter : pub'.writer = pub.writer) (hcrit : pub'.crit = none) :
    PubDurable slots g pub' segments staged payloads where
  sample c hdr hc := by rw [hcrit] at hc; cases hc
  content c x hc := by rw [hcrit] at hc; cases hc
  early c hc := by rw [hcrit] at hc; cases hc
  latching c hdr hc := by rw [hcrit] at hc; cases hc
  latched c x hc := by rw [hcrit] at hc; cases hc
  owning := by rw [hwriter]; exact h.owning
  records := by rw [hwriter]; exact h.records

/-- A call enters the critical section. -/
theorem PubDurable.lock (h : PubDurable slots g pub segments staged payloads)
    (hwriter : pub'.writer = pub.writer) (hcrit : pub'.crit = some crit)
    (hpc : crit.pc = .assign) (hevicted : crit.evicted = none)
    (hcontent : ∀ x, crit.call.staged = some x →
      segments x = some crit.call.payload ∧ x < staged) :
    PubDurable slots g pub' segments staged payloads where
  sample c hdr hc hhdr := by
    rw [hcrit] at hc
    cases hc
    rw [hpc] at hhdr
    cases hhdr
  content c x hc _ hx := by
    rw [hcrit] at hc
    cases hc
    exact hcontent x hx
  early c hc _ := by
    rw [hcrit] at hc
    cases hc
    exact hevicted
  latching c hdr hc hl := by
    rw [hcrit] at hc
    cases hc
    rw [hpc] at hl
    cases hl
  latched c x hc hl := by
    rw [hcrit] at hc
    cases hc
    rw [hpc] at hl
    cases hl
  owning := by rw [hwriter]; exact h.owning
  records := by rw [hwriter]; exact h.records

/-- The sample gets its sequence number. -/
theorem PubDurable.assign (h : PubDurable slots g pub segments staged payloads)
    (hok : PubOk slots g pub) (hcrit : pub.crit = some crit)
    (hpc : crit.pc = .assign) :
    PubDurable slots g
      (Publisher.goto { pub with sequenceNumber := pub.sequenceNumber + 1 } crit
        (.latch (crit.call.header g pub.sequenceNumber))) segments staged
      (Function.update payloads pub.sequenceNumber crit.call.payload) where
  sample c hdr hc hhdr := by
    cases hc
    cases hhdr
    exact ⟨rfl, Function.update_self _ _ _⟩
  content c x hc _ hx := by
    cases hc
    exact h.content crit x hcrit (by rw [hpc]; rfl) hx
  early c hc _ := by
    cases hc
    exact h.early crit hcrit (by rw [hpc]; rfl)
  latching c hdr hc hl := by
    cases hc
    cases hl
  latched c x hc hl := by
    cases hc
    cases hl
  owning := h.owning
  records rec hrec := by
    have hold := h.records rec hrec
    have hne : rec.sequenceNumber ≠ pub.sequenceNumber :=
      Nat.ne_of_lt (hok.marks rec hrec).2.2
    refine ⟨hold.flag, hold.names, fun x bytes hx hbytes => ?_, hold.old⟩
    rw [Function.update_of_ne hne]
    exact hold.bytes x bytes hx hbytes

/-- The latch puts the descriptor or the bytes into its record. -/
theorem slotRecord_spec {hdr : WireHeader G} {payload : List UInt8}
    {segment : Option Nat} {rec : SlotRecord G}
    (h : slotRecord hdr payload segment = some rec) (hflag : hdr.shmPayload = false) :
    rec.segment = segment ∧ rec.header.shmPayload = segment.isSome ∧
      rec.sequenceNumber = hdr.sequenceNumber ∧
      ∀ x, segment = some x → rec.payload = descriptorCells x := by
  cases segment with
  | none =>
    simp only [slotRecord] at h
    split at h
    · cases h
      exact ⟨rfl, hflag, rfl, fun x hx => by cases hx⟩
    · cases h
  | some x =>
    cases h
    refine ⟨rfl, rfl, rfl, fun y hy => ?_⟩
    cases hy
    rfl

/-- The slot of the sample is marked. -/
theorem PubDurable.mark (h : PubDurable slots g pub segments staged payloads)
    (hok : PubOk slots g pub) (hcrit : pub.crit = some crit) {hdr : WireHeader G}
    (hpc : crit.pc = .latch hdr) {rec : SlotRecord G}
    (hrec : slotRecord hdr crit.call.payload crit.call.staged = some rec) :
    PubDurable slots g
      { pub with
        writer := pub.writer.markNext slots rec
        crit := some { crit with
          evicted := pub.writer.ring.evicted slots, pc := .latching hdr } }
      segments staged payloads where
  sample c hdr' hc hhdr := by
    cases hc
    cases hhdr
    exact h.sample crit hdr hcrit (by rw [hpc]; rfl)
  content c x hc _ hx := by
    cases hc
    exact h.content crit x hcrit (by rw [hpc]; rfl) hx
  early c hc he := by
    cases hc
    cases he
  latching c hdr' hc hl := by
    cases hc
    cases hl
    exact ⟨⟨rec, rfl, hrec⟩, rfl⟩
  latched c x hc hl := by
    cases hc
    cases hl
  owning := h.owning.markNext hok.writer (hok.idle_of hcrit (by simp [hpc]))
  records r hr := by
    obtain hr | hr := List.mem_append.mp hr
    · exact h.records r hr
    · cases List.mem_singleton.mp hr
      obtain ⟨hhdr, hpayload⟩ := h.sample crit hdr hcrit (by rw [hpc]; rfl)
      have hflag : hdr.shmPayload = false := by
        rw [hhdr]
        rfl
      obtain ⟨hsegment, hshm, hseq, hnames⟩ := slotRecord_spec hrec hflag
      refine ⟨hshm.trans (congrArg Option.isSome hsegment.symm),
        fun x hx => hnames x (hsegment ▸ hx), fun x bytes hx hbytes => ?_,
        fun x hx => ?_⟩
      · have hcontent := (h.content crit x hcrit (by rw [hpc]; rfl)
          (hsegment ▸ hx)).1
        rw [hcontent] at hbytes
        cases hbytes
        rw [hseq, hpayload]
      · exact (h.content crit x hcrit (by rw [hpc]; rfl) (hsegment ▸ hx)).2

/-- A store of the latch: into the slot, or the commit. -/
theorem store_cases {w : Writer G} {rec : SlotRecord G}
    (hrec : w.pc.record = some rec) :
    w.pc = .commit rec ∧
        w.store slots =
          { w with ring := w.ring.commit slots rec.segment, pc := .idle } ∨
      (w.store slots).pc.record = some rec ∧ (w.store slots).marks = w.marks ∧
        ∃ f, (w.store slots).ring = w.ring.modify slots f := by
  cases hpc : w.pc with
  | idle =>
    rw [hpc] at hrec
    cases hrec
  | len r =>
    rw [hpc] at hrec
    cases hrec
    simp only [Writer.store, hpc]
    exact .inr ⟨rfl, trivial, _, rfl⟩
  | header r =>
    rw [hpc] at hrec
    cases hrec
    simp only [Writer.store, hpc]
    exact .inr ⟨rfl, trivial, _, rfl⟩
  | payload r =>
    rw [hpc] at hrec
    cases hrec
    simp only [Writer.store, hpc]
    exact .inr ⟨rfl, trivial, _, rfl⟩
  | commit r =>
    rw [hpc] at hrec
    cases hrec
    simp only [Writer.store, hpc]
    exact .inl ⟨trivial, trivial⟩

theorem PubDurable.put (h : PubDurable slots g pub segments staged payloads)
    (hcrit : pub.crit = some crit) {hdr : WireHeader G} (hpc : crit.pc = .latching hdr)
    {w' : Writer G} {rec : SlotRecord G} (hrec : pub.writer.pc.record = some rec)
    (hrec' : w'.pc.record = some rec) (hmarks : w'.marks = pub.writer.marks)
    {f : TlSlot G → TlSlot G} (hring : w'.ring = pub.writer.ring.modify slots f) :
    PubDurable slots g
      { pub with writer := w', crit := some { crit with pc := .latching hdr } }
      segments staged payloads where
  sample c hdr' hc hhdr := by
    cases hc
    cases hhdr
    exact h.sample crit hdr hcrit (by rw [hpc]; rfl)
  content c x hc _ hx := by
    cases hc
    exact h.content crit x hcrit (by rw [hpc]; rfl) hx
  early c hc he := by
    cases hc
    cases he
  latching c hdr' hc hl := by
    cases hc
    cases hl
    obtain ⟨⟨r, hr, hslot⟩, hevicted⟩ := h.latching crit hdr hcrit hpc
    rw [hrec] at hr
    cases hr
    refine ⟨⟨rec, hrec', hslot⟩, ?_⟩
    show crit.evicted = w'.ring.evicted slots
    rw [hevicted, hring]
    rfl
  latched c x hc hl := by
    cases hc
    cases hl
  owning := h.owning.put hmarks (by rw [hrec']; nofun) hring
  records := by
    show ∀ r ∈ w'.marks, _
    rw [hmarks]
    exact h.records

theorem PubDurable.commit (h : PubDurable slots g pub segments staged payloads)
    (hok : PubOk slots g pub) (hslots : 0 < slots) (hcrit : pub.crit = some crit)
    {hdr : WireHeader G} (hpc : crit.pc = .latching hdr) {rec : SlotRecord G}
    (hwriter : pub.writer.pc = .commit rec) :
    PubDurable slots g
      { pub with
        writer :=
          { pub.writer with
            ring := pub.writer.ring.commit slots rec.segment, pc := .idle }
        crit := some { crit with pc := .loadGen hdr true } }
      segments staged payloads where
  sample c hdr' hc hhdr := by
    cases hc
    cases hhdr
    exact h.sample crit hdr hcrit (by rw [hpc]; rfl)
  content c x hc _ hx := by
    cases hc
    exact h.content crit x hcrit (by rw [hpc]; rfl) hx
  early c hc he := by
    cases hc
    cases he
  latching c hdr' hc hl := by
    cases hc
    cases hl
  latched c x hc _ hx := by
    cases hc
    obtain ⟨⟨r, hr, hslot⟩, -⟩ := h.latching crit hdr hcrit hpc
    rw [hwriter] at hr
    cases hr
    have hflag : hdr.shmPayload = false := by
      rw [(h.sample crit hdr hcrit (by rw [hpc]; rfl)).1]
      rfl
    refine ⟨slotOf slots pub.writer.ring.nextIndex, ?_⟩
    simp only [TlRing.commit, Function.update_self]
    rw [(slotRecord_spec hslot hflag).1]
    exact hx
  owning := h.owning.commit hok.writer hslots hwriter
  records := h.records

end Publisher

end RmwUnixSocket.Latch.Replay
