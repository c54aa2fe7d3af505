import RmwUnixSocket.Wire.Cursor

/-!
# Reservations stay inside their segment

`Sound` is what holds of a ring and of its words between any two calls, and
`Reservation` what holds while there is a reservation.  There is one lemma for each
call, and `Inv.step` puts them together.  A reservation that is given up changes
nothing but the bytes of its own span (`Inv.unpublished`).
-/

namespace RmwUnixSocket.Wire.Cursor

open ByteMemory
open Payload (ShmRingWriter Segment recordBytes ringHeaderSize recordHeaderSize
  UINT32_MAX SHM_RECORD_ALIGN)

/-! ## The invariant -/

/-- What holds of a ring and of its words between any two calls. -/
structure Sound (w : RingWords) (c : Stage) : Prop where
  aligned : c.sender.ring.nextOffset % SHM_RECORD_ALIGN = 0
  bound : c.sender.ring.nextOffset ≤ c.sender.ring.ringBytes
  capacity : ringHeaderSize + c.sender.ring.ringBytes < 2 ^ 63
  index : 0 < c.sender.ring.nextIndex
  words : w.Represents c.sender.ring
  ok : c.sender.Ok
  fileSize : c.sender.ring.mapped = true →
    (c.shm.objects c.sender.object).fileSize =
      ringHeaderSize + c.sender.ring.ringBytes
  header : c.sender.ring.mapped = true →
    (c.shm.objects c.sender.object).header =
      (Segment.created c.sender.ring.ringBytes).header
  named : c.sender.ring.mapped = true →
    c.shm.linked c.sender.key = some c.sender.object

/-- The bytes that a reservation may change: its header and its payload. -/
def InSpan (ring : ShmRingWriter) (y : Nat) : Prop :=
  ring.nextOffset ≤ y ∧ y < ring.nextOffset + recordHeaderSize + ring.reservedCap

/-- What holds while there is a reservation.  `before` are the bytes from before
its odd mark. -/
structure Reservation (before : ByteMemory) (c : Stage) : Prop where
  mapped : c.sender.ring.mapped = true
  cap : c.sender.ring.reservedCap ≤ UINT32_MAX
  fits : c.sender.ring.nextOffset + recordBytes c.sender.ring.reservedCap ≤
    c.sender.ring.ringBytes
  odd : (c.shm.area c.sender.object).loadLE c.sender.ring.nextOffset 4 =
    (2 * c.sender.ring.nextIndex - 1) % 2 ^ 32
  outside : ∀ y, ¬InSpan c.sender.ring y →
    c.shm.area c.sender.object y = before y

/-- The invariant. -/
structure Inv (s : State) : Prop where
  sound : Sound s.words s.stage
  reserved : ∀ before, s.before = some before → Reservation before s.stage

section Invariant

variable {page n : UInt64} {pid : UInt32} {io : SendIo} {c c' : Stage}
  {w : RingWords} {before : ByteMemory}

theorem Sound.cursor_lt (h : Sound w c) : c.sender.ring.nextOffset < 2 ^ 63 := by
  have hbound := h.bound
  have hcapacity := h.capacity
  omega

theorem Sound.kept (h : Sound w c) (hkept : Kept c c') : Sound w c' where
  aligned := by rw [hkept.ring]; exact h.aligned
  bound := by rw [hkept.ring]; exact h.bound
  capacity := by rw [hkept.ring]; exact h.capacity
  index := by rw [hkept.ring]; exact h.index
  words := by rw [hkept.ring]; exact h.words
  ok := hkept.ok h.ok
  fileSize := by rw [hkept.ring, hkept.objects, hkept.object]; exact h.fileSize
  header := by rw [hkept.ring, hkept.objects, hkept.object]; exact h.header
  named hmapped := by
    rw [hkept.ring] at hmapped
    exact hkept.named h.ok hmapped (h.named hmapped)

theorem Reservation.kept (h : Reservation before c) (hkept : Kept c c') :
    Reservation before c' where
  mapped := by rw [hkept.ring]; exact h.mapped
  cap := by rw [hkept.ring]; exact h.cap
  fits := by rw [hkept.ring]; exact h.fits
  odd := by
    rw [Shm.area, hkept.ring, hkept.objects, hkept.object]
    exact h.odd
  outside := by
    rw [Shm.area, hkept.ring, hkept.objects, hkept.object]
    exact h.outside

theorem Sound.opened (h : Sound w c) (hpage : PageSize page)
    (hn : n.toNat ≤ UINT32_MAX)
    (hopened : Opened (ShmRingWriter.newArea page.toNat n.toNat) c c') :
    Sound (w.createSegment (newAreaWord page n) .created).1 c' where
  aligned := by rw [hopened.ring]; rfl
  bound := by rw [hopened.ring]; exact Nat.zero_le _
  capacity := by
    rw [hopened.ring]
    exact (@fits_of_le _ hpage .fresh (by decide) _ hn).file
  index := by rw [hopened.ring]; exact h.index
  words := by
    rw [hopened.ring]
    exact (h.words.createSegment hpage hn .created).2.1 rfl
  ok := by
    refine ⟨?_, fun _ => hopened.owned⟩
    have hfile := (@fits_of_le _ hpage .fresh (by decide) _ hn).file
    rw [hopened.ring]
    exact Nat.lt_of_le_of_lt (Nat.le_add_left _ _) hfile
  fileSize _ := by rw [hopened.segment, hopened.ring]; rfl
  header _ := by rw [hopened.segment, hopened.ring]; rfl
  named _ := hopened.named

/-- A store inside the segment keeps its file and its header. -/
theorem store_objects {shm : Shm} {o addr : Nat} {bytes : List UInt8} :
    ((shm.store o addr bytes).objects o).fileSize = (shm.objects o).fileSize ∧
      ((shm.store o addr bytes).objects o).header = (shm.objects o).header := by
  simp [Shm.store]

theorem wrap_mapped (ring : ShmRingWriter) (n : Nat) :
    (ring.wrap n).mapped = ring.mapped := by
  unfold ShmRingWriter.wrap
  split <;> rfl

theorem wrap_ringBytes (ring : ShmRingWriter) (n : Nat) :
    (ring.wrap n).ringBytes = ring.ringBytes := by
  unfold ShmRingWriter.wrap
  split <;> rfl

theorem wrap_nextIndex (ring : ShmRingWriter) (n : Nat) :
    (ring.wrap n).nextIndex = ring.nextIndex := by
  unfold ShmRingWriter.wrap
  split <;> rfl

/-- After the wrap a record that fits a quarter of the ring fits behind the
cursor. -/
theorem wrap_fits {ring : ShmRingWriter} {n : Nat}
    (hquarter : recordBytes n * 4 ≤ ring.ringBytes) :
    (ring.wrap n).nextOffset + recordBytes n ≤ ring.ringBytes := by
  unfold ShmRingWriter.wrap
  split
  · show 0 + recordBytes n ≤ ring.ringBytes
    omega
  · rename_i hroom
    exact Nat.not_lt.mp hroom

theorem wrap_aligned {ring : ShmRingWriter} {n : Nat}
    (h : ring.nextOffset % SHM_RECORD_ALIGN = 0) :
    (ring.wrap n).nextOffset % SHM_RECORD_ALIGN = 0 := by
  unfold ShmRingWriter.wrap
  split
  · rfl
  · exact h

/-- A call that stores into the segment and moves the cursor inside the ring. -/
theorem Sound.stays {w' : RingWords} (h : Sound w c) (hstays : c.Stays c')
    (haligned : c'.sender.ring.nextOffset % SHM_RECORD_ALIGN = 0)
    (hbound : c'.sender.ring.nextOffset ≤ c'.sender.ring.ringBytes)
    (hindex : 0 < c'.sender.ring.nextIndex) (hwords : w'.Represents c'.sender.ring)
    (hfile : (c'.shm.objects c.sender.object).fileSize =
      (c.shm.objects c.sender.object).fileSize)
    (hheader : (c'.shm.objects c.sender.object).header =
      (c.shm.objects c.sender.object).header) : Sound w' c' where
  aligned := haligned
  bound := hbound
  capacity := by rw [hstays.ringBytes]; exact h.capacity
  index := hindex
  words := hwords
  ok := hstays.ok h.ok
  fileSize hmapped := by
    rw [hstays.mapped] at hmapped
    rw [hstays.object, hfile, h.fileSize hmapped, hstays.ringBytes]
  header hmapped := by
    rw [hstays.mapped] at hmapped
    rw [hstays.object, hheader, h.header hmapped, hstays.ringBytes]
  named hmapped := by
    rw [hstays.mapped] at hmapped
    rw [hstays.linked, hstays.key, hstays.object]
    exact h.named hmapped

theorem Sound.mark (h : Sound w c) (hn : n.toNat ≤ UINT32_MAX)
    (hquarter : recordBytes n.toNat * 4 ≤ c.sender.ring.ringBytes) :
    Sound { w.wrap n with reservedCap := n } (c.mark n.toNat) := by
  have hfits := wrap_fits hquarter
  have hrecord := recordBytes_lt n.toNat
  have hcursor := h.cursor_lt
  have hsizes : recordHeaderSize = 8 ∧ SHM_RECORD_ALIGN = 64 ∧
      UINT32_MAX = 2 ^ 32 - 1 := ⟨rfl, rfl, rfl⟩
  refine h.stays (c.mark_stays n.toNat) (wrap_aligned h.aligned) ?_ ?_ ?_
    store_objects.1 store_objects.2
  · show (c.sender.ring.wrap n.toNat).nextOffset ≤
      (c.sender.ring.wrap n.toNat).ringBytes
    rw [wrap_ringBytes]
    omega
  · show 0 < (c.sender.ring.wrap n.toNat).nextIndex
    rw [wrap_nextIndex]
    exact h.index
  · exact (h.words.wrap hn (by omega)).reserved

/-- The odd mark changes the header of the record at the cursor. -/
theorem mark_reservation (hmapped : c.sender.ring.mapped = true)
    {n : Nat} (hn : n ≤ UINT32_MAX)
    (hquarter : recordBytes n * 4 ≤ c.sender.ring.ringBytes) :
    Reservation (c.shm.area c.sender.object) (c.mark n) where
  mapped := (c.mark_stays n).mapped.trans hmapped
  cap := hn
  fits := by
    rw [(c.mark_stays n).ringBytes]
    exact wrap_fits hquarter
  odd := by
    simp only [Stage.mark, Shm.store_area_self]
    exact loadLE_store_leBytes 4 _
  outside y hy := by
    simp only [Stage.mark, Shm.store_area_self, InSpan] at hy ⊢
    apply storeBytes_of_not_hits
    simp only [Hits, length_leBytes, recordHeaderSize] at hy ⊢
    omega

theorem Sound.write (h : Sound w c) (bytes : List UInt8) :
    Sound w (c.write bytes) :=
  h.stays (c.write_stays bytes) h.aligned h.bound h.index h.words
    store_objects.1 store_objects.2

theorem Reservation.write (h : Reservation before c) {bytes : List UInt8}
    (hcap : bytes.length ≤ c.sender.ring.reservedCap) :
    Reservation before (c.write bytes) where
  mapped := h.mapped
  cap := h.cap
  fits := h.fits
  odd := by
    simp only [Stage.write, Shm.store_area_self]
    rw [loadLE_storeBytes]
    · exact h.odd
    · simp only [Hits, recordHeaderSize]
      omega
  outside y hy := by
    simp only [Stage.write, Shm.store_area_self, InSpan] at hy ⊢
    rw [storeBytes_of_not_hits, h.outside y hy]
    simp only [Hits, recordHeaderSize] at hy ⊢
    omega

theorem Sound.abort (h : Sound w c) : Sound w.abort c.abort :=
  h.stays c.abort_stays h.aligned h.bound h.index h.words.abort rfl rfl

/-- A commit advances inside the reservation, or it is refused. -/
theorem Sound.commit (h : Sound w c) (hres : Reservation before c) :
    Sound (w.commit n).1 (c.commit n.toNat).1 := by
  have htest : w.reservedCap < n ↔ c.sender.ring.reservedCap < n.toNat := by
    rw [UInt64.lt_iff_toNat_lt, h.words.reservedCap]
  unfold RingWords.commit Stage.commit
  by_cases hover : c.sender.ring.reservedCap < n.toNat
  · rw [if_pos hover, if_pos (htest.mpr hover)]
    exact h.abort
  · rw [if_neg hover, if_neg (mt htest.mp hover)]
    have hle := Nat.not_lt.mp hover
    have hrecord := recordBytes_mono hle
    have hfits := hres.fits
    have hcapacity := h.capacity
    have haligned := recordBytes_aligned n.toNat
    have hcursor := h.aligned
    refine h.stays ⟨rfl, rfl, rfl, rfl, rfl, rfl⟩ ?_ ?_ (Nat.succ_pos _)
      (h.words.advance (Nat.le_trans hle hres.cap) (by omega)) ?_ ?_
    · show (c.sender.ring.nextOffset + recordBytes n.toNat) % SHM_RECORD_ALIGN = 0
      simp only [SHM_RECORD_ALIGN] at *
      omega
    · show c.sender.ring.nextOffset + recordBytes n.toNat ≤ c.sender.ring.ringBytes
      omega
    · exact store_objects.1.trans store_objects.1
    · exact store_objects.2.trans store_objects.2

/-- A segment that is large enough holds four records of the size. -/
theorem quarter_of_enough {ring : ShmRingWriter} {n : Nat}
    (h : ring.needsSegment n = false) :
    ring.mapped = true ∧ recordBytes n * 4 ≤ ring.ringBytes := by
  simp only [ShmRingWriter.needsSegment, Bool.or_eq_false_iff,
    decide_eq_false_iff_not, Nat.not_lt] at h
  exact ⟨by simpa using h.1, h.2⟩

/-- The words of a reservation go with its numbers, and they give the same
answer. -/
theorem Sound.reserve (h : Sound w c) (hpage : PageSize page) (pid : UInt32)
    (io : SendIo) (n : UInt64) :
    Sound (w.reserve page n io.creation).1
        (c.reserve page.toNat pid io n.toNat).1 ∧
      (w.reserve page n io.creation).2 =
        (c.reserve page.toNat pid io n.toNat).2 ∧
      ((c.reserve page.toNat pid io n.toNat).2 = true →
        Reservation
          ((c.ensureSegment page.toNat pid io n.toNat).1.shm.area
            (c.ensureSegment page.toNat pid io n.toNat).1.sender.object)
          (c.reserve page.toNat pid io n.toNat).1) := by
  have hlarge : 4294967295 < n ↔ UINT32_MAX < n.toNat := UInt64.lt_iff_toNat_lt
  obtain ⟨hfailed, hret, hkept⟩ | ⟨hn, hret, hmark, hensured⟩ :=
    reserve_cases page.toNat pid io n.toNat c
  · have hwords : w.reserve page n io.creation = (w, false) := by
      unfold RingWords.reserve
      by_cases hsize : UINT32_MAX < n.toNat
      · exact if_pos (hlarge.mpr hsize)
      · have hn := Nat.not_lt.mp hsize
        obtain ⟨hneeds, hrefused⟩ := hfailed.resolve_left hsize
        have hcreation : io.creation ≠ .created := fun hcreated =>
          hrefused ⟨hcreated, (@fits_of_le _ hpage .fresh (by decide) _ hn).file⟩
        obtain ⟨hfalse, -, hsame⟩ := h.words.createSegment hpage hn io.creation
        rw [decide_eq_false hcreation] at hfalse
        rw [if_neg (mt hlarge.mp hsize), RingWords.ensureSegment,
          h.words.needsSegment hn, if_pos hneeds]
        simp only [hfalse, hsame hcreation]
        rfl
    rw [hwords, hret]
    exact ⟨h.kept hkept, rfl, nofun⟩
  · have hsize : ¬4294967295 < n := mt hlarge.mp (Nat.not_lt.mpr hn)
    unfold RingWords.reserve RingWords.ensureSegment
    rw [if_neg hsize, h.words.needsSegment hn, hret, hmark]
    obtain ⟨henough, hsame⟩ | ⟨hneeds, hcreated, hopened⟩ := hensured
    · obtain ⟨hmapped, hquarter⟩ := quarter_of_enough henough
      simp only [henough, hsame]
      exact ⟨h.mark hn hquarter, rfl,
        fun _ => mark_reservation hmapped hn hquarter⟩
    · have htrue := (h.words.createSegment hpage hn io.creation).1
      have hnew := h.opened hpage hn hopened
      have hquarter : recordBytes n.toNat * 4 ≤
          (c.ensureSegment page.toNat pid io n.toNat).1.sender.ring.ringBytes := by
        rw [hopened.ring]
        exact le_newArea hpage.pos n.toNat
      rw [hcreated] at htrue ⊢
      simp only [hneeds, htrue, if_true, decide_true]
      refine ⟨hnew.mark hn hquarter, trivial, fun _ => ?_⟩
      exact mark_reservation (by rw [hopened.ring]; rfl) hn hquarter

theorem inv_init (shm : Shm) (counter : UInt32) : Inv (.init shm counter) := by
  refine ⟨?_, nofun⟩
  exact
    { aligned := rfl
      bound := Nat.le_refl _
      capacity := (by decide : ringHeaderSize + 0 < 2 ^ 63)
      index := Nat.one_pos
      words := ⟨rfl, rfl, rfl, rfl, rfl, rfl⟩
      ok := ⟨(by decide : 0 < 2 ^ 63), nofun⟩
      fileSize := nofun
      header := nofun
      named := nofun }

theorem Inv.step (hpage : PageSize page) {s s' : State} (h : Inv s) {a : Act}
    (hstep : step page pid s a = some s') : Inv s' := by
  cases a with
  | reserve n io =>
    cases hstep
    obtain ⟨hsound, -, hreserved⟩ := h.sound.reserve hpage pid io n
    refine ⟨hsound, fun before hbefore => ?_⟩
    dsimp only at hbefore ⊢
    split at hbefore
    · rename_i hret
      cases hbefore
      exact hreserved hret
    · rename_i hret
      -- A failed reservation leaves the one that there may be.
      obtain ⟨-, -, hkept⟩ | ⟨-, htrue, -⟩ :=
        reserve_cases page.toNat pid io n.toNat s.stage
      · exact (h.reserved before hbefore).kept hkept
      · exact absurd htrue hret
  | write bytes =>
    simp only [Cursor.step] at hstep
    split at hstep
    · rename_i hcap
      cases hstep
      exact ⟨h.sound.write bytes, fun before hbefore =>
        (h.reserved before hbefore).write hcap.2⟩
    · cases hstep
  | commit n =>
    simp only [Cursor.step] at hstep
    split at hstep
    · rename_i hopen
      cases hstep
      obtain ⟨before, hbefore⟩ := Option.isSome_iff_exists.mp hopen
      exact ⟨h.sound.commit (h.reserved before hbefore), nofun⟩
    · cases hstep
  | abort =>
    simp only [Cursor.step] at hstep
    split at hstep
    · cases hstep
      exact ⟨h.sound.abort, nofun⟩
    · cases hstep

theorem inv_of_reach (hpage : PageSize page) {shm : Shm} {counter : UInt32}
    {s : State}
    (h : (machine page pid).Reach (fun _ _ => True) (.init shm counter) s) :
    Inv s :=
  h.invariant (inv_init shm counter) fun _ _ _ hinv _ hstep =>
    hinv.step hpage hstep

end Invariant

/-! ## Safety -/

section Safety

variable {page : UInt64} {pid : UInt32} {s s' : State}

/-- The cursor is aligned and inside the ring, and so is a reservation in its
mapping. -/
structure InBounds (s : State) : Prop where
  aligned : s.ring.nextOffset % SHM_RECORD_ALIGN = 0
  bound : s.ring.nextOffset ≤ s.ring.ringBytes
  inside : s.before.isSome = true → s.ring.mapped = true ∧
    ringHeaderSize + s.ring.nextOffset + recordHeaderSize + s.ring.reservedCap ≤
      s.segment.fileSize

/-- The words in which a reservation or a commit of `n` bytes computes are the
numbers. -/
structure Exact (page : UInt64) (s : State) (n : UInt64) : Prop where
  fits : Fits page.toNat s.ring n.toNat
  record : (recordBytesWord n).toNat = recordBytes n.toNat
  four : (recordBytesWord n * 4).toNat = recordBytes n.toNat * 4
  area : (newAreaWord page n).toNat = ShmRingWriter.newArea page.toNat n.toNat
  cursor : (s.words.nextOffset + recordBytesWord n).toNat =
    s.ring.nextOffset + recordBytes n.toNat

/-- The call gives up: it returns a null pointer or false, or it is an abort. -/
def GivesUp (page : UInt64) (pid : UInt32) (s : State) : Act → Prop
  | .reserve n io => (s.stage.reserve page.toNat pid io n.toNat).2 = false
  | .write _ => False
  | .commit n => (s.stage.commit n.toNat).2 = none
  | .abort => True

/-- A call that publishes nothing: no descriptor is returned, the segment, the
index and the bytes stay, and the record of the reservation stays odd.  Outside
its span the bytes are those from before its odd mark. -/
structure Unpublished (s s' : State) : Prop where
  committed : s'.committed = s.committed
  object : s'.stage.sender.object = s.stage.sender.object
  segmentId : s'.ring.segmentId = s.ring.segmentId
  nextIndex : s'.ring.nextIndex = s.ring.nextIndex
  nextOffset : s'.ring.nextOffset = s.ring.nextOffset
  area : s'.area = s.area
  odd : s.before.isSome = true → s'.area.loadLE s.ring.nextOffset 4 % 2 = 1
  outside : ∀ before, s.before = some before →
    ∀ y, ¬InSpan s.ring y → s'.area y = before y

theorem Inv.inBounds (h : Inv s) : InBounds s where
  aligned := h.sound.aligned
  bound := h.sound.bound
  inside hopen := by
    obtain ⟨before, hbefore⟩ := Option.isSome_iff_exists.mp hopen
    have hres := h.reserved before hbefore
    have hfits := hres.fits
    have hrecord := le_recordBytes s.ring.reservedCap
    refine ⟨hres.mapped, ?_⟩
    rw [h.sound.fileSize hres.mapped]
    dsimp only [State.ring] at hrecord ⊢
    omega

theorem Inv.exact (h : Inv s) (hpage : PageSize page) {n : UInt64}
    (hn : n.toNat ≤ UINT32_MAX) : Exact page s n := by
  have hfits := fits_of_le hpage h.sound.cursor_lt hn
  exact
    { fits := hfits
      record := toNat_recordBytesWord hn
      four := toNat_recordBytesWord_mul hn
      area := toNat_newAreaWord hpage hn
      cursor := h.sound.words.cursor hn hfits.cursor }

/-- A call that gives up leaves the ring and the bytes of its segment alone. -/
theorem Inv.unpublished (h : Inv s) {a : Act} (hstep : Cursor.step page pid s a = some s')
    (hgives : GivesUp page pid s a) : Unpublished s s' := by
  have hquiet : s'.committed = s.committed ∧
      s'.stage.sender.object = s.stage.sender.object ∧
      s'.ring.segmentId = s.ring.segmentId ∧
      s'.ring.nextIndex = s.ring.nextIndex ∧
      s'.ring.nextOffset = s.ring.nextOffset ∧ s'.area = s.area := by
    cases a with
    | reserve n io =>
      cases hstep
      obtain ⟨-, -, hkept⟩ | ⟨-, htrue, -⟩ :=
        reserve_cases page.toNat pid io n.toNat s.stage
      · dsimp only [State.ring, State.area, Shm.area]
        rw [hkept.ring, hkept.object, hkept.objects]
        exact ⟨rfl, rfl, rfl, rfl, rfl, rfl⟩
      · exact absurd (htrue.symm.trans hgives) (by decide)
    | write bytes => exact hgives.elim
    | commit n =>
      simp only [Cursor.step] at hstep
      split at hstep
      · cases hstep
        have hover : s.stage.sender.ring.reservedCap < n.toNat := by
          by_contra hfits
          simp only [GivesUp, Stage.commit, if_neg hfits] at hgives
          cases hgives
        dsimp only [State.ring, State.area]
        rw [Stage.commit, if_pos hover]
        exact ⟨List.append_nil _, rfl, rfl, rfl, rfl, rfl⟩
      · cases hstep
    | abort =>
      simp only [Cursor.step] at hstep
      split at hstep
      · cases hstep
        exact ⟨rfl, rfl, rfl, rfl, rfl, rfl⟩
      · cases hstep
  obtain ⟨hcommitted, hobject, hsegment, hindex, hoffset, harea⟩ := hquiet
  refine ⟨hcommitted, hobject, hsegment, hindex, hoffset, harea, fun hopen => ?_,
    fun before hbefore y hy => ?_⟩
  · obtain ⟨before, hbefore⟩ := Option.isSome_iff_exists.mp hopen
    have hpos := h.sound.index
    rw [harea, (h.reserved before hbefore).odd]
    omega
  · rw [harea]
    exact (h.reserved before hbefore).outside y hy

/-- In every order of reservations, commits and aborts, with segments that cannot
be created: the cursor is aligned and inside the ring, a reservation is inside its
mapping, no size overflows, and a call that gives up publishes nothing.  Sizes that
do not fit 32 bits are refused before anything is computed from them. -/
theorem reserve_commit_abort (hpage : PageSize page) {shm : Shm} {counter : UInt32}
    (h : (machine page pid).Reach (fun _ _ => True) (.init shm counter) s) :
    InBounds s ∧ s.words.Represents s.ring ∧
      (∀ n : UInt64, n.toNat ≤ UINT32_MAX → Exact page s n) ∧
      ∀ a s', Cursor.step page pid s a = some s' → GivesUp page pid s a →
        Unpublished s s' := by
  have hinv := inv_of_reach hpage h
  exact ⟨hinv.inBounds, hinv.sound.words, fun n hn => hinv.exact hpage hn,
    fun a s' hstep hgives => hinv.unpublished hstep hgives⟩

/-- One record is committed, and a larger one is reserved. -/
theorem reserve_commit_abort_larger : ∃ s,
    (machine 4096 7).Reach (fun _ _ => True)
        (.init { objects := fun _ => .created 0, next := 0, linked := fun _ => none } 1)
        s ∧
      (s.committed.length = 1 ∧ s.before.isSome = true ∧
        s.ring.reservedCap = 300000) ∧
      InBounds s ∧ s.words.Represents s.ring ∧
      (∀ n : UInt64, n.toNat ≤ UINT32_MAX → Exact 4096 s n) ∧
      ∀ a s', Cursor.step 4096 7 s a = some s' → GivesUp 4096 7 s a →
        Unpublished s s' := by
  let io : SendIo := { clock := 5, creation := .created, written := true, junk := [] }
  obtain ⟨s, hreach, hstate⟩ :=
    Machine.exists_reach_of_guardedRun (machine 4096 7) (fun _ _ => True)
      (.init { objects := fun _ => .created 0, next := 0, linked := fun _ => none } 1)
      [.reserve 70000 io, .write [1, 2, 3], .commit 3, .reserve 300000 io]
      (fun s => s.committed.length = 1 ∧ s.before.isSome = true ∧
        s.ring.reservedCap = 300000) (by decide +kernel)
  exact ⟨s, hreach, hstate, reserve_commit_abort ⟨12, by decide, rfl⟩ hreach⟩

end Safety

end RmwUnixSocket.Wire.Cursor
