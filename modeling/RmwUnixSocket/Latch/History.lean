import Mathlib.Data.List.Induction
import RmwUnixSocket.Latch.Scan

/-!
# The history that a quiet ring gives back

`tl_ring_latch` and `tl_ring_pull` one after the other.  After any number of
latches the pull returns the newest samples in order, exactly if the index of
none of them is a multiple of 2^31 (`tl_ring_history`): the `seq` of such a
record is 0 in its low 32 bits, and the scan takes its slot for one that was
never written (`tl_ring_history_word_zero`).
-/

namespace RmwUnixSocket.Latch

open SlotRing (slotOf Newest slotOf_lt)
open Payload (recordHeaderSize SHM_RECORD_ALIGN)

variable {G : Type} {slots i : Nat} {w : Writer G} {rec : SlotRecord G}

/-! ## The latch as a whole -/

/-- The stores of one latch. -/
def Writer.latch (w : Writer G) (slots : Nat) (rec : SlotRecord G) :
    Writer G :=
  ((((w.markNext slots rec).store slots).store slots).store slots).store slots

/-- `tl_ring_latch`.  `allocated` is the outcome of `posix_fallocate`. -/
def tlRingLatch (slots : Nat) (w : Writer G) (hdr : WireHeader G)
    (payload : List UInt8) (staged : Option Nat) (allocated : Bool) :
    Writer G × Bool :=
  match slotRecord hdr payload staged with
  | some rec => if allocated then (w.latch slots rec, true) else (w, false)
  | none => (w, false)

/-- A sample that fits a slot. -/
structure Sample (G : Type) where
  header : WireHeader G
  payload : List UInt8
  fits : payload.length ≤ TL_EMBED_CAP

/-- What a reader gets of a sample. -/
def Sample.content (x : Sample G) : WireHeader G × List Cell :=
  (x.header, payloadCells x.payload)

/-- What the latch puts into the slot. -/
def Sample.record (x : Sample G) : SlotRecord G where
  header := x.header
  payload := payloadCells x.payload
  segment := none
  fits := by simpa using x.fits

/-- The ring after the samples were latched one after the other. -/
def latchAll [Inhabited G] (slots : Nat) (samples : List (Sample G)) :
    Writer G :=
  samples.foldl
    (fun w x => (tlRingLatch slots w x.header x.payload none true).1)
    (.create G)

/-- A latch of a sample that fits succeeds. -/
theorem tlRingLatch_sample (slots : Nat) (w : Writer G) (x : Sample G) :
    tlRingLatch slots w x.header x.payload none true =
      (w.latch slots x.record, true) := by
  have hrec : slotRecord x.header x.payload none = some x.record :=
    dif_pos x.fits
  unfold tlRingLatch
  rw [hrec]
  rfl

theorem latch_idle (w : Writer G) (slots : Nat) (rec : SlotRecord G) :
    (w.latch slots rec).pc = .idle :=
  rfl

theorem latch_marks (w : Writer G) (slots : Nat) (rec : SlotRecord G) :
    (w.latch slots rec).marks = w.marks ++ [rec] :=
  rfl

theorem WriterOk.latch (h : WriterOk slots w) (hslots : 0 < slots)
    (hidle : w.pc = .idle) (rec : SlotRecord G) :
    WriterOk slots (w.latch slots rec) := by
  have hnone : w.pc.record = none := by
    rw [hidle]
    rfl
  exact ((((h.markNext hslots hnone rec).store hslots).store hslots).store
    hslots).store hslots

/-- A latch leaves the other slots alone. -/
theorem latch_slots_of_ne (w : Writer G) (rec : SlotRecord G)
    (hi : i ≠ slotOf slots w.ring.nextIndex) :
    (w.latch slots rec).ring.slots i = w.ring.slots i := by
  simp [Writer.latch, Writer.markNext, Writer.store, TlRing.mark,
    TlRing.putLen, TlRing.putHeader, TlRing.putPayload, TlRing.commit,
    TlRing.modify, hi]

/-- The ring after `N` latches holds the records in order. -/
theorem latchAll_ok [Inhabited G] (hslots : 0 < slots)
    (samples : List (Sample G)) :
    WriterOk slots (latchAll slots samples) ∧
      (latchAll slots samples).pc = .idle ∧
      (latchAll slots samples).marks = samples.map Sample.record := by
  induction samples using List.reverseRecOn with
  | nil => exact ⟨.create, rfl, rfl⟩
  | append_singleton samples x ih =>
    obtain ⟨hok, hidle, hmarks⟩ := ih
    have hlast : latchAll slots (samples ++ [x]) =
        (latchAll slots samples).latch slots x.record := by
      simp only [latchAll, List.foldl_append, List.foldl_cons, List.foldl_nil,
        tlRingLatch_sample]
    rw [hlast]
    refine ⟨hok.latch hslots hidle x.record, latch_idle _ _ _, ?_⟩
    rw [latch_marks, hmarks, List.map_append]
    rfl

/-! ## The bytes that a latch writes -/

/-- Where slot `i` starts in the segment. -/
def slotOffset (i : Nat) : Nat :=
  SHM_RECORD_ALIGN + i * tlSlotStride

/-- Offset and length of the stores of one latch. -/
def latchWrites (slots : Nat) (ring : TlRing G) (rec : SlotRecord G) :
    List (Nat × Nat) :=
  let base := slotOffset (slotOf slots ring.nextIndex)
  [(base, 4), (base + 4, 4), (base + recordHeaderSize, wireHeaderSize),
    (base + recordHeaderSize + wireHeaderSize, rec.payload.length), (base, 4)]

/-- A latch writes to its own slot only. -/
def LatchConfined (slots : Nat) (w : Writer G) (rec : SlotRecord G) : Prop :=
  (∀ i, i ≠ slotOf slots w.ring.nextIndex →
    (w.latch slots rec).ring.slots i = w.ring.slots i) ∧
  ∀ write ∈ latchWrites slots w.ring rec,
    slotOffset (slotOf slots w.ring.nextIndex) ≤ write.1 ∧
      write.1 + write.2 ≤
        slotOffset (slotOf slots w.ring.nextIndex) + tlSlotStride

theorem latchConfined (slots : Nat) (w : Writer G) (rec : SlotRecord G) :
    LatchConfined slots w rec := by
  refine ⟨fun i hi => latch_slots_of_ne w rec hi, fun write hwrite => ?_⟩
  have hfits := rec.fits
  have hstride : tlSlotStride = 1088 := by decide
  simp only [TL_EMBED_CAP] at hfits
  simp only [latchWrites, recordHeaderSize, wireHeaderSize, List.mem_cons,
    List.not_mem_nil, or_false] at hwrite
  rw [hstride]
  rcases hwrite with rfl | rfl | rfl | rfl | rfl <;> simp only <;> omega

/-! ## The pull as a whole -/

/-- What `tl_ring_pull` returns. -/
structure TlPulled (G : Type) where
  ret : Bool
  records : List (TlPulledRecord G)
  maxSeq : Nat
  overlapped : Bool

/-- The end of `tl_ring_pull`: the sort and the cut. -/
def PullPc.result (maxRecords : Nat) : PullPc G → Option (TlPulled G)
  | .done sc overlapped =>
    let records := sortedNewest maxRecords sc.records
    some
      { ret := !records.isEmpty, records := records, maxSeq := sc.maxSeq,
        overlapped := overlapped }
  | _ => none

/-- `k` loads of a pull without a concurrent latch. -/
def loads (slots : Nat) (ring : TlRing G) (k : Nat) (pull : PullPc G) :
    PullPc G :=
  (PullPc.step slots ring.slots)^[k] pull

/-- A `tl_ring_pull` of a quiet ring returns `r`. -/
def PullReturns (slots maxRecords : Nat) (ring : TlRing G) (r : TlPulled G) :
    Prop :=
  if maxRecords = 0 then
    r = { ret := false, records := [], maxSeq := 0, overlapped := false }
  else ∃ k, (loads slots ring k (.scan (.start G))).result maxRecords = some r

/-- The record that the scan keeps of a slot that does not move. -/
def TlSlot.pulled (slot : TlSlot G) (i : Nat) : Option (TlPulledRecord G) :=
  if word slot.seq = 0 then none
  else some
    { header := slot.header, payload := slot.area.take slot.payloadLen,
      slot := i }

/-- The slots of a quiet ring. -/
def Quiet (slots : Nat) (ring : TlRing G) : Prop :=
  ∀ i < slots, (ring.slots i).seq % 2 = 0 ∧
    (ring.slots i).payloadLen ≤ TL_EMBED_CAP

/-- The scan of a quiet ring has reached slot `i`. -/
structure ScannedTo (ring : TlRing G) (i : Nat) (sc : Scan G) : Prop where
  slot : sc.slot = i
  pc : sc.pc = .load
  observed : ∀ j < i, sc.observed j = (ring.slots j).seq
  records : sc.records =
    (List.range i).filterMap fun j => (ring.slots j).pulled j
  max : sc.MaxOk

section Pull

variable {ring : TlRing G} {sc : Scan G}

theorem loads_add (k l : Nat) (pull : PullPc G) :
    loads slots ring (k + l) pull =
      loads slots ring k (loads slots ring l pull) :=
  Function.iterate_add_apply _ k l pull

/-- Where the scan goes from the end of a slot. -/
def afterSlot (slots : Nat) (sc : Scan G) : PullPc G :=
  if sc.slot < slots then .scan sc else .check sc 0

/-- The scan passes a slot of a quiet ring. -/
theorem ScannedTo.next (h : ScannedTo ring i sc) (hquiet : Quiet slots ring)
    (hi : i < slots) : ∃ k sc', ScannedTo ring (i + 1) sc' ∧
      loads slots ring k (.scan sc) = afterSlot slots sc' := by
  obtain ⟨heven, hlen⟩ := hquiet i hi
  have hslot := h.slot
  have hpc := h.pc
  subst hslot
  have hobserve : ∀ j < sc.slot + 1,
      (sc.observe (ring.slots sc.slot).seq).observed j = (ring.slots j).seq := by
    intro j hj
    by_cases hown : j = sc.slot
    · subst hown
      simp [Scan.observe]
    · simp only [Scan.observe, Function.update_of_ne hown]
      exact h.observed j (by omega)
  by_cases hword : word (ring.slots sc.slot).seq = 0
  · refine ⟨1, (sc.observe (ring.slots sc.slot).seq).leave,
      ⟨rfl, rfl, hobserve, ?_, h.max.congr rfl rfl⟩, ?_⟩
    · simp only [Scan.leave, Scan.observe, List.range_succ,
        List.filterMap_append, ← h.records]
      simp [TlSlot.pulled, hword]
    · simp [loads, PullPc.step, Scan.step, hpc, hword, afterSlot]
  · refine ⟨5, ((sc.observe (ring.slots sc.slot).seq).push
        { header := (ring.slots sc.slot).header,
          payload := (ring.slots sc.slot).area.take
            (ring.slots sc.slot).payloadLen,
          slot := sc.slot }).leave, ⟨rfl, rfl, hobserve, ?_, ?_⟩, ?_⟩
    · simp only [Scan.leave, Scan.push, Scan.observe, List.range_succ,
        List.filterMap_append, ← h.records]
      simp [TlSlot.pulled, hword]
    · exact (Scan.MaxOk.push (h.max.congr rfl rfl) _).congr rfl rfl
    · have hodd : ¬word (ring.slots sc.slot).seq % 2 = 1 := by
        rw [word_odd]
        omega
      have hcap : ¬TL_EMBED_CAP < (ring.slots sc.slot).payloadLen := by omega
      simp [loads, PullPc.step, Scan.step, hpc, hword, hodd, hcap, hi,
        Scan.observe, Scan.push, Scan.leave, afterSlot]

/-- The scan of a quiet ring ends. -/
theorem scan_quiet (hquiet : Quiet slots ring) (hslots : 0 < slots) :
    ∃ k sc, ScannedTo ring slots sc ∧
      loads slots ring k (.scan (.start G)) = .check sc 0 := by
  have hto : ∀ i ≤ slots, ∃ k sc, ScannedTo ring i sc ∧
      loads slots ring k (.scan (.start G)) = afterSlot slots sc := by
    intro i
    induction i with
    | zero =>
      intro _
      refine ⟨0, .start G, ⟨rfl, rfl, nofun, rfl, .start G⟩, ?_⟩
      exact (if_pos hslots).symm
    | succ i ih =>
      intro hi
      obtain ⟨k, sc, hsc, hk⟩ := ih (by omega)
      obtain ⟨l, sc', hsc', hl⟩ := hsc.next hquiet (by omega)
      refine ⟨l + k, sc', hsc', ?_⟩
      rw [loads_add, hk, afterSlot, if_pos (by rw [hsc.slot]; omega), hl]
  obtain ⟨k, sc, hsc, hk⟩ := hto slots (Nat.le_refl _)
  refine ⟨k, sc, hsc, ?_⟩
  rw [hk, afterSlot, if_neg (by rw [hsc.slot]; omega)]

/-- The second look at a quiet ring finds no slot that has moved. -/
theorem check_quiet (hsc : ScannedTo ring slots sc) {j : Nat} (hj : j < slots) :
    ∃ k, loads slots ring k (.check sc j) = .done sc false := by
  have heq : word (ring.slots j).seq = word (sc.observed j) := by
    rw [hsc.observed j hj]
  by_cases hlast : j + 1 < slots
  · obtain ⟨k, hk⟩ := check_quiet hsc hlast
    refine ⟨k + 1, ?_⟩
    have hone : loads slots ring 1 (.check sc j) = .check sc (j + 1) := by
      simp [loads, PullPc.step, heq, hlast]
    rw [loads_add, hone, hk]
  · refine ⟨1, ?_⟩
    simp [loads, PullPc.step, heq, hlast]
termination_by slots - j

/-- A pull that has ended stays where it is. -/
theorem loads_done (k : Nat) (overlapped : Bool) :
    loads slots ring k (.done sc overlapped) = .done sc overlapped :=
  Function.iterate_fixed rfl k

theorem PullPc.of_result {maxRecords : Nat} {pull : PullPc G} {r : TlPulled G}
    (h : pull.result maxRecords = some r) :
    ∃ sc overlapped, pull = .done sc overlapped := by
  cases pull with
  | done sc overlapped => exact ⟨sc, overlapped, rfl⟩
  | idle => cases h
  | scan sc => cases h
  | check sc j => cases h

/-- A pull of a quiet ring returns one thing only: the cut of what
`ScannedTo` says. -/
theorem pullReturns_quiet (hquiet : Quiet slots ring) (hslots : 0 < slots)
    {maxRecords : Nat} (hmax : maxRecords ≠ 0) :
    ∃ sc, ScannedTo ring slots sc ∧ ∀ r, PullReturns slots maxRecords ring r ↔
      (PullPc.done sc false).result maxRecords = some r := by
  obtain ⟨k, sc, hsc, hk⟩ := scan_quiet hquiet hslots
  obtain ⟨l, hl⟩ := check_quiet hsc hslots
  have hdone : loads slots ring (l + k) (.scan (.start G)) = .done sc false := by
    rw [loads_add, hk, hl]
  refine ⟨sc, hsc, fun r => ?_⟩
  rw [PullReturns, if_neg hmax]
  constructor
  · rintro ⟨m, hm⟩
    obtain ⟨sc', overlapped, heq⟩ := PullPc.of_result hm
    have hboth : loads slots ring (m + (l + k)) (.scan (.start G)) =
        loads slots ring ((l + k) + m) (.scan (.start G)) := by
      rw [Nat.add_comm]
    rw [loads_add, hdone, loads_done, loads_add, heq, loads_done] at hboth
    rw [hboth, ← heq]
    exact hm
  · intro hr
    exact ⟨l + k, by rw [hdone]; exact hr⟩

end Pull

/-! ## What a quiet ring shows -/

section Shown

variable {samples : List (Sample G)} {x y : Sample G} {n m : Nat}

/-- The sequence numbers grow from sample to sample. -/
def Increasing (samples : List (Sample G)) : Prop :=
  Keyed.Ascending (fun x : Sample G => x.header.sequenceNumber) samples

/-- Sample `n` is in the ring, and its `seq` is not the word of a slot that
was never written. -/
structure Shown (slots : Nat) (samples : List (Sample G)) (n : Nat)
    (x : Sample G) : Prop where
  pos : 0 < n
  get : samples[n - 1]? = some x
  fresh : samples.length < n + slots
  word : n % 2 ^ 31 ≠ 0

/-- The record that the scan makes of sample `n`. -/
def pulledOf (slots : Nat) (e : Sample G × Nat) : TlPulledRecord G where
  header := e.1.header
  payload := payloadCells e.1.payload
  slot := slotOf slots e.2

theorem Increasing.lt (h : Increasing samples) (hnm : n < m) (hn : 0 < n)
    (hx : samples[n - 1]? = some x) (hy : samples[m - 1]? = some y) :
    x.header.sequenceNumber < y.header.sequenceNumber := by
  obtain ⟨hnlt, rfl⟩ := List.getElem?_eq_some_iff.mp hx
  obtain ⟨hmlt, rfl⟩ := List.getElem?_eq_some_iff.mp hy
  exact List.pairwise_iff_getElem.mp h (n - 1) (m - 1) hnlt hmlt (by omega)

/-- A sequence number belongs to one sample. -/
theorem Increasing.eq_index (h : Increasing samples) (hn : 0 < n) (hm : 0 < m)
    (hx : samples[n - 1]? = some x) (hy : samples[m - 1]? = some y)
    (heq : x.header.sequenceNumber = y.header.sequenceNumber) : n = m := by
  rcases Nat.lt_trichotomy n m with hlt | heq' | hgt
  · have := h.lt hlt hn hx hy
    omega
  · exact heq'
  · have := h.lt hgt hm hy hx
    omega

/-- The slots of the ring show the samples that are in it. -/
theorem pulled_iff [Inhabited G] (hi : i < slots) (rec : TlPulledRecord G) :
    ((latchAll slots samples).ring.slots i).pulled i = some rec ↔
      ∃ n x, Shown slots samples n x ∧ slotOf slots n = i ∧
        rec = pulledOf slots (x, n) := by
  obtain ⟨hok, hidle, hmarks⟩ := latchAll_ok (by omega : 0 < slots) samples
  have hslot := hok.slot i hi
  have hout : ¬(latchAll slots samples).BusyAt slots i := fun hbusy =>
    hbusy.1 (by rw [hidle]; rfl)
  have hlength : (latchAll slots samples).marks.length = samples.length := by
    rw [hmarks, List.length_map]
  have hseq : ((latchAll slots samples).ring.slots i).seq =
      2 * ((latchAll slots samples).ring.slots i).index := by
    have hodd := hslot.odd
    unfold TlSlot.index
    rcases Nat.mod_two_eq_zero_or_one
      ((latchAll slots samples).ring.slots i).seq with heven | hcontra
    · omega
    · exact absurd (hodd.mp hcontra) hout
  have hget : ∀ n r, (latchAll slots samples).Marked n r →
      ∃ x, samples[n - 1]? = some x ∧ r = x.record := by
    intro n r ⟨_, hr⟩
    rw [hmarks, List.getElem?_map] at hr
    obtain ⟨x, hx, rfl⟩ := Option.map_eq_some_iff.mp hr
    exact ⟨x, hx, rfl⟩
  have hrecord : ∀ n x r, slotOf slots n = i → r = Sample.record x →
      r.HeldBy ((latchAll slots samples).ring.slots i) →
      { header := ((latchAll slots samples).ring.slots i).header,
        payload := ((latchAll slots samples).ring.slots i).area.take
          ((latchAll slots samples).ring.slots i).payloadLen,
        slot := i } = pulledOf slots (x, n) := by
    rintro n x r rfl rfl hheld
    rw [hheld.header, hheld.payload]
    rfl
  unfold TlSlot.pulled
  rw [hseq]
  constructor
  · intro h
    split at h
    · cases h
    · rename_i hword
      unfold word at hword
      have hindex : ((latchAll slots samples).ring.slots i).index ≠ 0 := by
        omega
      obtain ⟨r, hmarked, hheld⟩ := hslot.holds hout hindex
      obtain ⟨x, hx, hr⟩ := hget _ r hmarked
      have hown := hslot.newest.slot hindex
      have hfresh := hslot.newest.fresh hindex
      refine ⟨_, x, ⟨hmarked.1, hx, by omega, by omega⟩, hown, ?_⟩
      rw [← Option.some.inj h]
      exact hrecord _ x r hown hr hheld
  · rintro ⟨n, x, hshown, hown, rfl⟩
    obtain ⟨hlt, _⟩ := List.getElem?_eq_some_iff.mp hshown.get
    have hpos := hshown.pos
    have hfresh := hshown.fresh
    have hindex : n = ((latchAll slots samples).ring.slots i).index := by
      have hle := hslot.newest.le
      rcases hslot.newest.eq_or_add_le hpos hown (by omega) with heq | hround
      · exact heq
      · omega
    subst hindex
    have hword : ¬word (2 *
        ((latchAll slots samples).ring.slots i).index) = 0 := by
      have := hshown.word
      unfold word
      omega
    rw [if_neg hword]
    obtain ⟨r, hmarked, hheld⟩ := hslot.holds hout (by omega)
    obtain ⟨y, hy, hr⟩ := hget _ r hmarked
    obtain rfl : x = y := Option.some.inj (hshown.get.symm.trans hy)
    exact congrArg some (hrecord _ x r hown hr hheld)

/-- The samples in the ring with their indices, less the ones that look like
a slot that was never written. -/
def shown (slots : Nat) (samples : List (Sample G)) : List (Sample G × Nat) :=
  ((samples.drop (samples.length - slots)).zipIdx
    (samples.length - slots + 1)).filter fun e => e.2 % 2 ^ 31 ≠ 0

theorem mem_shown : (x, n) ∈ shown slots samples ↔ Shown slots samples n x := by
  have hget : n ≥ samples.length - slots + 1 →
      (samples.drop (samples.length - slots))[n -
        (samples.length - slots + 1)]? = samples[n - 1]? := by
    intro hge
    rw [List.getElem?_drop]
    congr 1
    omega
  unfold shown
  rw [List.mem_filter, List.mk_mem_zipIdx_iff_le_and_getElem?_sub]
  simp only [decide_eq_true_eq]
  constructor
  · rintro ⟨⟨hge, hx⟩, hword⟩
    rw [hget hge] at hx
    exact ⟨by omega, hx, by omega, hword⟩
  · intro h
    obtain ⟨hlt, _⟩ := List.getElem?_eq_some_iff.mp h.get
    have hpos := h.pos
    have hfresh := h.fresh
    refine ⟨⟨by omega, ?_⟩, h.word⟩
    rw [hget (by omega)]
    exact h.get

/-- What the scan of a quiet ring collects, in order. -/
theorem ScannedTo.sorted [Inhabited G] (hseq : Increasing samples)
    {sc : Scan G}
    (h : ScannedTo (latchAll slots samples).ring slots sc) :
    Keyed.sortBy TlPulledRecord.sequenceNumber sc.records =
      (shown slots samples).map (pulledOf slots) := by
  have hmem : ∀ rec, rec ∈ sc.records ↔
      ∃ i < slots, ((latchAll slots samples).ring.slots i).pulled i =
        some rec := by
    intro rec
    rw [h.records, List.mem_filterMap]
    simp only [List.mem_range]
  have hsorted : Keyed.Ascending TlPulledRecord.sequenceNumber
      (Keyed.sortBy TlPulledRecord.sequenceNumber sc.records) := by
    refine Keyed.sortBy_ascending ?_
    rw [h.records, List.pairwise_filterMap]
    refine List.pairwise_lt_range.imp_of_mem ?_
    intro i j hi hj hij rec hrec rec' hrec' heq
    obtain ⟨n, x, hx, rfl, rfl⟩ := (pulled_iff (List.mem_range.mp hi) rec).mp hrec
    obtain ⟨m, y, hy, rfl, rfl⟩ :=
      (pulled_iff (List.mem_range.mp hj) rec').mp hrec'
    obtain rfl : n = m := hseq.eq_index hx.pos hy.pos hx.get hy.get heq
    omega
  refine hsorted.eq_of_mem_iff ?_ fun rec => ?_
  · refine List.pairwise_map.mpr (List.Pairwise.filter _ ?_)
    have hdrop : Increasing (samples.drop (samples.length - slots)) :=
      List.Pairwise.sublist (List.drop_sublist _ _) hseq
    rw [← List.zipIdx_map_fst (samples.length - slots + 1)
      (samples.drop (samples.length - slots))] at hdrop
    unfold Increasing Keyed.Ascending at hdrop
    rw [List.pairwise_map] at hdrop
    exact hdrop
  · rw [Keyed.mem_sortBy, hmem, List.mem_map]
    constructor
    · rintro ⟨i, hi, hrec⟩
      obtain ⟨n, x, hx, -, rfl⟩ := (pulled_iff hi rec).mp hrec
      exact ⟨(x, n), mem_shown.mpr hx, rfl⟩
    · rintro ⟨⟨x, n⟩, hx, rfl⟩
      have hshown := mem_shown.mp hx
      have hlt : slotOf slots n < slots := slotOf_lt (by
        have := hshown.fresh
        obtain ⟨hlt, _⟩ := List.getElem?_eq_some_iff.mp hshown.get
        have := hshown.pos
        omega) n
      exact ⟨slotOf slots n, hlt,
        (pulled_iff hlt _).mpr ⟨n, x, hshown, rfl, rfl⟩⟩

/-! ## The result -/

/-- How many samples the pull owes. -/
def due (slots maxRecords total : Nat) : Nat :=
  min total (min slots maxRecords)

/-- The sequence number of the last sample. -/
def lastSeq (samples : List (Sample G)) : Nat :=
  (samples.getLast?.map fun x => x.header.sequenceNumber).getD 0

/-- The pull has returned exactly the newest samples. -/
structure ReturnsNewest (slots maxRecords : Nat) (samples : List (Sample G))
    (r : TlPulled G) : Prop where
  records : (r.records.map fun rec => (rec.header, rec.payload)) =
    (samples.drop (samples.length - due slots maxRecords samples.length)).map
      Sample.content
  maxSeq : r.maxSeq = lastSeq samples
  overlapped : r.overlapped = false

/-- No sample that the pull owes has an index that is a multiple of 2^31. -/
def NoWordZero (slots maxRecords total : Nat) : Prop :=
  ∀ n, total - due slots maxRecords total < n → n ≤ total → n % 2 ^ 31 ≠ 0

theorem exists_sample (hn : 0 < n) (hle : n ≤ samples.length) :
    ∃ x, samples[n - 1]? = some x :=
  ⟨samples[n - 1], List.getElem?_eq_getElem _⟩

theorem lastSeq_eq (hx : samples[samples.length - 1]? = some x) :
    lastSeq samples = x.header.sequenceNumber := by
  rw [← List.getLast?_eq_getElem?] at hx
  simp [lastSeq, hx]

/-- The samples that the pull owes are the last ones that the ring shows. -/
theorem shown_eq_append {maxRecords : Nat}
    (hword : NoWordZero slots maxRecords samples.length) :
    ∃ older, shown slots samples =
      older ++ (samples.drop (samples.length -
        due slots maxRecords samples.length)).zipIdx
          (samples.length - due slots maxRecords samples.length + 1) ∧
      (due slots maxRecords samples.length = maxRecords ∨ older = []) := by
  have hdue : due slots maxRecords samples.length ≤ slots ∧
      due slots maxRecords samples.length ≤ samples.length := by
    unfold due
    omega
  have hsplit : samples.drop (samples.length - slots) =
      (samples.drop (samples.length - slots)).take
        (min samples.length slots - due slots maxRecords samples.length) ++
      samples.drop (samples.length - due slots maxRecords samples.length) := by
    have hdrop : samples.length - due slots maxRecords samples.length =
        samples.length - slots +
          (min samples.length slots - due slots maxRecords samples.length) := by
      omega
    rw [hdrop, ← List.drop_drop]
    exact (List.take_append_drop _ _).symm
  have hlength : ((samples.drop (samples.length - slots)).take
      (min samples.length slots - due slots maxRecords samples.length)).length =
        min samples.length slots - due slots maxRecords samples.length := by
    rw [List.length_take, List.length_drop]
    omega
  have hkept : ((samples.drop (samples.length -
      due slots maxRecords samples.length)).zipIdx
        (samples.length - due slots maxRecords samples.length + 1)).filter
          (fun e => e.2 % 2 ^ 31 ≠ 0) =
      (samples.drop (samples.length -
        due slots maxRecords samples.length)).zipIdx
          (samples.length - due slots maxRecords samples.length + 1) := by
    refine List.filter_eq_self.mpr fun e he => ?_
    obtain ⟨hge, hget⟩ := List.mem_zipIdx_iff_le_and_getElem?_sub.mp he
    obtain ⟨hlt, _⟩ := List.getElem?_eq_some_iff.mp hget
    rw [List.length_drop] at hlt
    exact decide_eq_true (hword e.2 (by omega) (by omega))
  refine ⟨(((samples.drop (samples.length - slots)).take
      (min samples.length slots - due slots maxRecords samples.length)).zipIdx
        (samples.length - slots + 1)).filter (fun e => e.2 % 2 ^ 31 ≠ 0),
    ?_, ?_⟩
  · have hindex : samples.length - slots + 1 +
        (min samples.length slots - due slots maxRecords samples.length) =
          samples.length - due slots maxRecords samples.length + 1 := by
      omega
    unfold shown
    rw [hsplit, List.zipIdx_append, List.filter_append, hlength, hindex, hkept]
    rw [← hsplit]
  · by_cases hall : due slots maxRecords samples.length = maxRecords
    · exact .inl hall
    · refine .inr ?_
      have hzero : min samples.length slots -
          due slots maxRecords samples.length = 0 := by
        unfold due at hall ⊢
        omega
      rw [hzero]
      rfl

/-- The largest sequence number that the scan has seen is the last one. -/
theorem ScannedTo.maxSeq_eq [Inhabited G] (hseq : Increasing samples)
    {sc : Scan G} (h : ScannedTo (latchAll slots samples).ring slots sc)
    (hlast : ∀ x, samples[samples.length - 1]? = some x →
      Shown slots samples samples.length x) :
    sc.maxSeq = lastSeq samples := by
  have hmem : ∀ n x, Shown slots samples n x →
      pulledOf slots (x, n) ∈ sc.records := by
    intro n x hx
    have hin : pulledOf slots (x, n) ∈
        Keyed.sortBy TlPulledRecord.sequenceNumber sc.records := by
      rw [h.sorted hseq]
      exact List.mem_map.mpr ⟨(x, n), mem_shown.mpr hx, rfl⟩
    exact Keyed.mem_sortBy.mp hin
  have hof : ∀ rec ∈ sc.records, ∃ n x, Shown slots samples n x ∧
      rec = pulledOf slots (x, n) := by
    intro rec hrec
    have hin : rec ∈ Keyed.sortBy TlPulledRecord.sequenceNumber sc.records :=
      Keyed.mem_sortBy.mpr hrec
    rw [h.sorted hseq] at hin
    obtain ⟨⟨x, n⟩, hx, rfl⟩ := List.mem_map.mp hin
    exact ⟨n, x, mem_shown.mp hx, rfl⟩
  by_cases hne : samples = []
  · subst hne
    rcases h.max.mem with hzero | ⟨rec, hrec, -⟩
    · exact hzero
    · obtain ⟨n, x, hx, -⟩ := hof rec hrec
      exact absurd hx.get (by simp)
  · have hlength := List.length_pos_iff.mpr hne
    obtain ⟨x, hx⟩ := exists_sample hlength (Nat.le_refl _)
    have hle := h.max.le _ (hmem _ x (hlast x hx))
    rw [lastSeq_eq hx]
    rcases h.max.mem with hzero | ⟨rec, hrec, heq⟩
    · simp only [TlPulledRecord.sequenceNumber, pulledOf] at hle
      omega
    · obtain ⟨m, y, hy, rfl⟩ := hof rec hrec
      obtain ⟨hlt, _⟩ := List.getElem?_eq_some_iff.mp hy.get
      have hpos := hy.pos
      simp only [TlPulledRecord.sequenceNumber, pulledOf] at hle heq
      by_cases hm : m = samples.length
      · subst hm
        obtain rfl : x = y := Option.some.inj (hx.symm.trans hy.get)
        exact heq.symm
      · have := hseq.lt (by omega : m < samples.length) hpos hy.get hx
        omega

/-- A pull that may return a record returns the newest samples, exactly if
none of them looks like a slot that was never written. -/
theorem returnsNewest_iff [Inhabited G] {maxRecords : Nat}
    (hslots : 0 < slots) (hmax : maxRecords ≠ 0) (hseq : Increasing samples) :
    (∃ r, PullReturns slots maxRecords (latchAll slots samples).ring r ∧
      ReturnsNewest slots maxRecords samples r) ↔
      NoWordZero slots maxRecords samples.length := by
  obtain ⟨hok, hidle, -⟩ := latchAll_ok hslots samples
  have hquiet : Quiet slots (latchAll slots samples).ring := by
    intro i hi
    have hslot := hok.slot i hi
    refine ⟨?_, hslot.len⟩
    rcases Nat.mod_two_eq_zero_or_one
      ((latchAll slots samples).ring.slots i).seq with heven | hodd
    · exact heven
    · exact absurd (by rw [hidle]; rfl) (hslot.odd.mp hodd).1
  obtain ⟨sc, hsc, hreturns⟩ := pullReturns_quiet hquiet hslots hmax
  have hsorted := hsc.sorted hseq
  constructor
  · rintro ⟨r, hr, hnewest⟩ n hlow hhigh hword
    have hcut := (hreturns r).mp hr
    simp only [PullPc.result, Option.some.injEq] at hcut
    obtain ⟨x, hx⟩ : ∃ x, samples[n - 1]? = some x :=
      exists_sample (by omega) hhigh
    have hmem : x.content ∈ (samples.drop (samples.length -
        due slots maxRecords samples.length)).map Sample.content := by
      refine List.mem_map.mpr ⟨x, List.mem_of_getElem? (i := n - 1 -
        (samples.length - due slots maxRecords samples.length)) ?_, rfl⟩
      rw [List.getElem?_drop, ← hx]
      congr 1
      omega
    rw [← hnewest.records] at hmem
    obtain ⟨rec, hrec, hcontent⟩ := List.mem_map.mp hmem
    rw [← hcut] at hrec
    have hin := (Keyed.newest_suffix _ _).subset hrec
    rw [hsorted] at hin
    obtain ⟨⟨y, m⟩, hy, rfl⟩ := List.mem_map.mp hin
    have hshown := mem_shown.mp hy
    have hheader : y.header = x.header := congrArg Prod.fst hcontent
    obtain rfl : m = n := hseq.eq_index hshown.pos (by omega) hshown.get hx
      (by rw [hheader])
    exact hshown.word hword
  · intro hword
    refine ⟨_, (hreturns _).mpr rfl, ?_, hsc.maxSeq_eq hseq fun x hx => ?_, rfl⟩
    · obtain ⟨older, happend, hcut⟩ := shown_eq_append hword
      have hlength : ((samples.drop (samples.length -
          due slots maxRecords samples.length)).zipIdx
            (samples.length - due slots maxRecords samples.length + 1)).length =
              due slots maxRecords samples.length := by
        rw [List.length_zipIdx, List.length_drop]
        unfold due
        omega
      simp only [sortedNewest]
      rw [hsorted, happend, List.map_append, Keyed.newest_append]
      · rw [List.map_map, ← List.zipIdx_map_fst
          (samples.length - due slots maxRecords samples.length + 1)
          (samples.drop (samples.length -
            due slots maxRecords samples.length)), List.map_map]
        rw [List.zipIdx_map_fst]
        rfl
      · rw [List.length_map, hlength]
        unfold due
        omega
      · rw [List.length_map, hlength]
        exact hcut.imp_right fun hnil => by rw [hnil]; rfl
    · obtain ⟨hlt, _⟩ := List.getElem?_eq_some_iff.mp hx
      refine ⟨by omega, hx, by omega, hword _ ?_ (Nat.le_refl _)⟩
      unfold due
      omega

/-- The pull of a quiet ring returns exactly the newest samples, and no latch
writes outside its slot, if and only if no sample that the pull owes has an
index that is a multiple of 2^31.  A pull that may return nothing reports the
sequence number 0. -/
theorem tl_ring_history [Inhabited G] (depth maxRecords : Nat)
    (samples : List (Sample G)) (hseq : Increasing samples) :
    ((∃ r, PullReturns (tlRingSlots depth) maxRecords
        (latchAll (tlRingSlots depth) samples).ring r ∧
        ReturnsNewest (tlRingSlots depth) maxRecords samples r) ∧
      ∀ earlier x, earlier ++ [x] <+: samples →
        (tlRingLatch (tlRingSlots depth) (latchAll (tlRingSlots depth) earlier)
          x.header x.payload none true).2 = true ∧
        LatchConfined (tlRingSlots depth)
          (latchAll (tlRingSlots depth) earlier) x.record) ↔
      (maxRecords = 0 → lastSeq samples = 0) ∧
        NoWordZero (tlRingSlots depth) maxRecords samples.length := by
  have hconfined : ∀ earlier x, earlier ++ [x] <+: samples →
      (tlRingLatch (tlRingSlots depth) (latchAll (tlRingSlots depth) earlier)
        x.header x.payload none true).2 = true ∧
      LatchConfined (tlRingSlots depth)
        (latchAll (tlRingSlots depth) earlier) x.record := fun earlier x _ =>
    ⟨by rw [tlRingLatch_sample], latchConfined _ _ _⟩
  rw [and_iff_left hconfined]
  by_cases hmax : maxRecords = 0
  · subst hmax
    have hdue : due (tlRingSlots depth) 0 samples.length = 0 := by
      unfold due
      omega
    have hword : NoWordZero (tlRingSlots depth) 0 samples.length := by
      intro n hlow hhigh
      omega
    rw [and_iff_left hword]
    constructor
    · rintro ⟨r, hr, hnewest⟩ _
      rw [PullReturns, if_pos rfl] at hr
      rw [← hnewest.maxSeq, hr]
    · intro hlast
      refine ⟨{ ret := false, records := [], maxSeq := 0, overlapped := false },
        by rw [PullReturns, if_pos rfl], ?_, (hlast rfl).symm, rfl⟩
      rw [hdue, Nat.sub_zero, List.drop_length]
      rfl
  · rw [returnsNewest_iff (tlRingSlots_pos depth) hmax hseq]
    exact ⟨fun h => ⟨fun hcontra => absurd hcontra hmax, h⟩, fun h => h.2⟩

/-- Samples of one byte with the sequence numbers 1 to `n`. -/
def numbered (n : Nat) : List (Sample Unit) :=
  (List.range n).map fun k =>
    { header :=
        { (default : WireHeader Unit) with
          sequenceNumber := k + 1, payloadSize := 1 },
      payload := [7],
      fits := by decide }

theorem numbered_increasing (n : Nat) : Increasing (numbered n) := by
  unfold Increasing Keyed.Ascending numbered
  rw [List.pairwise_map]
  exact List.pairwise_lt_range.imp fun h => Nat.succ_lt_succ h

theorem length_numbered (n : Nat) : (numbered n).length = n := by
  rw [numbered, List.length_map, List.length_range]

/-- Five samples in a ring of three slots. -/
theorem tl_ring_history_five :
    ∃ r, PullReturns (tlRingSlots 3) 2
        (latchAll (tlRingSlots 3) (numbered 5)).ring r ∧
      ReturnsNewest (tlRingSlots 3) 2 (numbered 5) r :=
  ((tl_ring_history 3 2 (numbered 5) (numbered_increasing 5)).mpr
    ⟨nofun, fun n hlow hhigh => by
      rw [length_numbered] at hlow hhigh
      have : due (tlRingSlots 3) 2 5 = 2 := by decide
      omega⟩).1

/-- The sample with the index 2^31 is not in the history. -/
theorem tl_ring_history_word_zero :
    ¬∀ (depth maxRecords : Nat) (samples : List (Sample Unit)),
      maxRecords ≠ 0 → Increasing samples →
      ∃ r, PullReturns (tlRingSlots depth) maxRecords
          (latchAll (tlRingSlots depth) samples).ring r ∧
        ReturnsNewest (tlRingSlots depth) maxRecords samples r := by
  intro hclaim
  have hpull := hclaim 1 1 (numbered (2 ^ 31)) Nat.one_ne_zero
    (numbered_increasing _)
  rw [returnsNewest_iff (tlRingSlots_pos 1) Nat.one_ne_zero
    (numbered_increasing _), length_numbered] at hpull
  refine hpull (2 ^ 31) ?_ (Nat.le_refl _) (Nat.mod_self _)
  have hslots := tlRingSlots_pos 1
  unfold due
  omega

end Shown

end RmwUnixSocket.Latch
