import RmwUnixSocket.Latch.Scan

/-!
# What the scan collects

The invariant of the scan that needs no bound on the number of latches.
Every record that is collected has the header of a record that was marked for
its slot, and the slots are different.  A record that was committed when the
scan last loaded the `seq` of its slot is collected, or the slot was marked
for a later record before the scan left it (`Collects.swept`).

`seen` and `left` are ghosts: the commits at the last load of a slot's `seq`
that found a record, and the marks when the scan left the slot.
-/

namespace RmwUnixSocket.Latch

open SlotRing (slotOf Newest add_le_of_slotOf_eq)

variable {G : Type} {slots : Nat} {w w' : Writer G} {sc : Scan G}
  {seen left : Nat → Nat}

/-- The header of a record that was marked for slot `i`. -/
def HeaderFrom (slots : Nat) (w : Writer G) (i : Nat) (hdr : WireHeader G) :
    Prop :=
  ∃ n r, w.Marked n r ∧ slotOf slots n = i ∧ hdr = r.header

theorem HeaderFrom.later {i : Nat} {hdr : WireHeader G}
    (h : HeaderFrom slots w i hdr) (hmarks : w.marks <+: w'.marks) :
    HeaderFrom slots w' i hdr := by
  obtain ⟨n, r, hmarked, hrest⟩ := h
  exact ⟨n, r, hmarked.extend hmarks, hrest⟩

/-- What the scan has of its current slot.  `seen` is the ghost of the
slot. -/
def ScanPc.From (slots : Nat) (w : Writer G) (i seen : Nat) :
    ScanPc G → Prop
  | .load => True
  | .len s1 | .header s1 _ => 0 < s1 / 2 ∧ slotOf slots (s1 / 2) = i ∧
    ∀ n, 0 < n → slotOf slots n = i → n ≤ seen → n ≤ s1 / 2
  | .payload s1 _ hdr => 0 < s1 / 2 ∧ slotOf slots (s1 / 2) = i ∧
    (∀ n, 0 < n → slotOf slots n = i → n ≤ seen → n ≤ s1 / 2) ∧
    HeaderFrom slots w i hdr
  | .recheck s1 rec => 0 < s1 / 2 ∧ slotOf slots (s1 / 2) = i ∧
    (∀ n, 0 < n → slotOf slots n = i → n ≤ seen → n ≤ s1 / 2) ∧
    HeaderFrom slots w i rec.header

/-- The invariant of the scan and its ghosts. -/
structure Collects (slots : Nat) (w : Writer G) (sc : Scan G)
    (seen left : Nat → Nat) : Prop where
  scan : ScanOk slots w sc
  source : ∀ rec ∈ sc.records, HeaderFrom slots w rec.slot rec.header
  order : sc.records.Pairwise fun a b => a.slot < b.slot
  current : sc.pc.From slots w sc.slot (seen sc.slot)
  swept : ∀ i < sc.slot, ∀ n r, w.Marked n r → slotOf slots n = i →
    n ≤ seen i → n + slots ≤ left i ∨ ∃ rec ∈ sc.records, rec.header = r.header
  seen_le : ∀ i, seen i ≤ w.commits

/-- The ghost `seen` after a load of the scan. -/
def noteSeen (w : Writer G) (sc : Scan G) (seen : Nat → Nat) : Nat → Nat :=
  match sc.pc with
  | .load =>
    Function.update seen sc.slot
      (if word (w.ring.slots sc.slot).seq = 0 then 0 else w.commits)
  | _ => seen

/-- The ghost `left` after a load of the scan. -/
def noteLeft (w : Writer G) (sc : Scan G) (left : Nat → Nat) : Nat → Nat :=
  if (sc.step (w.ring.slots sc.slot)).slot = sc.slot then left
  else Function.update left sc.slot w.marks.length

theorem Collects.start (slots : Nat) (w : Writer G) (left : Nat → Nat) :
    Collects slots w (.start G) (fun _ => 0) left where
  scan := .start slots w
  source := nofun
  order := .nil
  current := trivial
  swept := nofun
  seen_le _ := Nat.zero_le _

theorem ScanPc.From.later {i n : Nat} {pc : ScanPc G}
    (h : pc.From slots w i n) (hmarks : w.marks <+: w'.marks) :
    pc.From slots w' i n := by
  cases pc with
  | load => trivial
  | len s1 => exact h
  | header s1 len => exact h
  | payload s1 len hdr => exact ⟨h.1, h.2.1, h.2.2.1, h.2.2.2.later hmarks⟩
  | recheck s1 rec => exact ⟨h.1, h.2.1, h.2.2.1, h.2.2.2.later hmarks⟩

theorem WriterOk.commits_le (hw : WriterOk slots w) :
    w.commits ≤ w.marks.length := by
  unfold Writer.commits
  cases hrec : w.pc.record with
  | none =>
    have := hw.idle hrec
    omega
  | some rec =>
    have := (hw.busy rec hrec).2
    omega

/-- What was committed was marked. -/
theorem WriterOk.marked_of_commits (hw : WriterOk slots w)
    (hmarks : w.marks <+: w'.marks) {n : Nat} {r : SlotRecord G}
    (hr : w'.Marked n r) (hn : n ≤ w.commits) : w.Marked n r := by
  obtain ⟨r', hr'⟩ :=
    Writer.exists_marked hr.1 (Nat.le_trans hn hw.commits_le)
  obtain rfl := (hr'.extend hmarks).unique hr
  exact hr'

/-- What the scan has seen was marked when it saw it. -/
theorem Collects.marked_of_seen (h : Collects slots w sc seen left)
    (hw : WriterOk slots w) (hmarks : w.marks <+: w'.marks) {i n : Nat}
    {r : SlotRecord G} (hr : w'.Marked n r) (hn : n ≤ seen i) :
    w.Marked n r :=
  hw.marked_of_commits hmarks hr (Nat.le_trans hn (h.seen_le i))

/-- The writer may go on. -/
theorem Collects.later (h : Collects slots w sc seen left)
    (hw : WriterOk slots w) (hlater : w.Later slots w') :
    Collects slots w' sc seen left where
  scan := h.scan.later hlater
  source rec hrec := (h.source rec hrec).later hlater.marks
  order := h.order
  current := h.current.later hlater.marks
  swept i hi n r hr hslot hn :=
    h.swept i hi n r (h.marked_of_seen hw hlater.marks hr hn) hslot hn
  seen_le i := Nat.le_trans (h.seen_le i) hlater.commits

/-! ## One load -/

/-- A slot whose `seq` is beyond `s1` was marked for a later record. -/
theorem WriterOk.round_of_moved (hw : WriterOk slots w) {s1 : Nat}
    (hslot : sc.slot < slots) (heven : s1 % 2 = 0) (hpos : 0 < s1 / 2)
    (hown : slotOf slots (s1 / 2) = sc.slot)
    (hmoved : s1 < (w.ring.slots sc.slot).seq) :
    s1 / 2 + slots ≤ (w.ring.slots sc.slot).index := by
  have hok := hw.slot sc.slot hslot
  have hlt : s1 / 2 < (w.ring.slots sc.slot).index := by
    unfold TlSlot.index
    omega
  exact add_le_of_slotOf_eq hpos
    (hown.trans (hok.newest.slot (by omega)).symm) hlt

/-- The scan leaves its slot without a record. -/
theorem Collects.leave (h : Collects slots w sc seen left)
    {sc' : Scan G} {seen' : Nat → Nat} (hok : ScanOk slots w sc')
    (hslot : sc'.slot = sc.slot + 1) (hpc : sc'.pc = .load)
    (hrecords : sc'.records = sc.records)
    (hseen : ∀ i, i ≠ sc.slot → seen' i = seen i)
    (hseen_le : seen' sc.slot ≤ w.commits)
    (hswept : ∀ n, 0 < n → slotOf slots n = sc.slot → n ≤ seen' sc.slot →
      n + slots ≤ w.marks.length) :
    Collects slots w sc' seen'
      (Function.update left sc.slot w.marks.length) where
  scan := hok
  source := by
    rw [hrecords]
    exact h.source
  order := by
    rw [hrecords]
    exact h.order
  current := by
    rw [hpc]
    trivial
  swept i hi n r hr hn hle := by
    rw [hrecords]
    by_cases hown : i = sc.slot
    · subst hown
      rw [Function.update_self]
      exact .inl (hswept n hr.1 hn hle)
    · rw [Function.update_of_ne hown]
      rw [hseen i hown] at hle
      exact h.swept i (by omega) n r hr hn hle
  seen_le i := by
    by_cases hown : i = sc.slot
    · rw [hown]
      exact hseen_le
    · rw [hseen i hown]
      exact h.seen_le i

/-- The scan stays at its slot. -/
theorem Collects.stay (h : Collects slots w sc seen left)
    {sc' : Scan G} {seen' : Nat → Nat} (hok : ScanOk slots w sc')
    (hslot : sc'.slot = sc.slot) (hrecords : sc'.records = sc.records)
    (hcurrent : sc'.pc.From slots w sc.slot (seen' sc.slot))
    (hseen : ∀ i, i ≠ sc.slot → seen' i = seen i)
    (hseen_le : seen' sc.slot ≤ w.commits) :
    Collects slots w sc' seen' left where
  scan := hok
  source := by
    rw [hrecords]
    exact h.source
  order := by
    rw [hrecords]
    exact h.order
  current := by
    rw [hslot]
    exact hcurrent
  swept i hi n r hr hn hle := by
    rw [hrecords]
    rw [hseen i (by omega)] at hle
    exact h.swept i (by omega) n r hr hn hle
  seen_le i := by
    by_cases hown : i = sc.slot
    · rw [hown]
      exact hseen_le
    · rw [hseen i hown]
      exact h.seen_le i

/-- The scan gives up its turn at the slot: it tries again, or it leaves. -/
theorem Collects.again (h : Collects slots w sc seen left) {sc' : Scan G}
    {seen' : Nat → Nat} (hok : ScanOk slots w sc'.again)
    (hslot : sc'.slot = sc.slot) (hrecords : sc'.records = sc.records)
    (hseen : ∀ i, i ≠ sc.slot → seen' i = seen i)
    (hseen_le : seen' sc.slot ≤ w.commits)
    (hswept : ∀ n, 0 < n → slotOf slots n = sc.slot → n ≤ seen' sc.slot →
      n + slots ≤ w.marks.length) :
    Collects slots w sc'.again seen'
      (if sc'.again.slot = sc.slot then left
        else Function.update left sc.slot w.marks.length) := by
  rcases sc'.again_cases with heq | heq
  · rw [heq] at hok ⊢
    rw [if_pos hslot]
    exact h.stay hok hslot hrecords trivial hseen hseen_le
  · rw [heq] at hok ⊢
    have hnext : sc'.leave.slot = sc.slot + 1 := by
      rw [Scan.leave, hslot]
    rw [if_neg (by omega)]
    exact h.leave hok hnext rfl hrecords hseen hseen_le hswept

/-- A load of the `seq` of the current slot. -/
theorem Collects.step_load (h : Collects slots w sc seen left)
    (hw : WriterOk slots w) (hslot : sc.slot < slots) (hpc : sc.pc = .load) :
    Collects slots w (sc.step (w.ring.slots sc.slot)) (noteSeen w sc seen)
      (noteLeft w sc left) := by
  have hok := h.scan.step hslot
  have hslotOk := hw.slot sc.slot hslot
  have hindexle := hslotOk.index_le
  have hcommits := hw.commits_le
  have hothers : ∀ i, i ≠ sc.slot → noteSeen w sc seen i = seen i := by
    intro i hi
    simp only [noteSeen, hpc]
    exact Function.update_of_ne hi _ _
  have hown : noteSeen w sc seen sc.slot =
      if word (w.ring.slots sc.slot).seq = 0 then 0 else w.commits := by
    simp [noteSeen, hpc]
  have hown_le : noteSeen w sc seen sc.slot ≤ w.commits := by
    rw [hown]
    split
    · exact Nat.zero_le _
    · exact Nat.le_refl _
  unfold noteLeft
  simp only [Scan.step, hpc] at hok ⊢
  by_cases hzero : word (w.ring.slots sc.slot).seq = 0
  · rw [if_pos hzero] at hok hown ⊢
    rw [if_neg (by simp [Scan.leave, Scan.observe])]
    refine h.leave hok rfl rfl rfl hothers hown_le fun n hn _ hle => ?_
    omega
  · rw [if_neg hzero] at hok hown ⊢
    by_cases hodd : word (w.ring.slots sc.slot).seq % 2 = 1
    · rw [if_pos hodd] at hok ⊢
      rw [word_odd] at hodd
      refine h.again hok rfl rfl hothers hown_le fun n hn hnslot hle => ?_
      -- The writer is in the slot, so what is committed is a round older.
      obtain ⟨hbusy, hcur⟩ := hslotOk.odd.mp hodd
      obtain ⟨rec, hrec⟩ := Option.ne_none_iff_exists'.mp hbusy
      have hnext := (hw.busy rec hrec).2
      unfold Writer.commits at hown
      rcases hslotOk.newest.eq_or_add_le hn hnslot (by omega) with heq | hround
      · have hseq := hw.busy_seq (by omega) hrec
        rw [← hcur] at hseq
        unfold TlSlot.index at heq
        omega
      · omega
    · have hstay : (sc.observe (w.ring.slots sc.slot).seq).slot = sc.slot :=
        rfl
      rw [if_neg hodd] at hok ⊢
      simp only [hstay, if_pos]
      rw [word_odd] at hodd
      have hseq : (w.ring.slots sc.slot).seq / 2 =
          (w.ring.slots sc.slot).index := by
        unfold TlSlot.index
        omega
      have hpos : 0 < (w.ring.slots sc.slot).seq / 2 := by
        unfold word at hzero
        omega
      refine h.stay hok rfl rfl ⟨hpos, ?_, fun n hn hnslot hle => ?_⟩ hothers
        hown_le
      · rw [hseq]
        exact hslotOk.newest.slot (by omega)
      · rw [hseq]
        exact hslotOk.newest.le_of_slot hn hnslot (by omega)

/-- The second load of the `seq` of the current slot. -/
theorem Collects.step_recheck (h : Collects slots w sc seen left)
    (hw : WriterOk slots w) (hslot : sc.slot < slots) {s1 : Nat}
    {rec : TlPulledRecord G} (hpc : sc.pc = .recheck s1 rec) :
    Collects slots w (sc.step (w.ring.slots sc.slot)) seen
      (noteLeft w sc left) := by
  have hok := h.scan.step hslot
  have hslotOk := hw.slot sc.slot hslot
  have hcopied := h.scan.copied hslot
  have hcurrent := h.current
  have hobserved := h.scan.observed sc.slot hslot
  have hindexle := hslotOk.index_le
  have hrecslot := h.scan.own s1 rec hpc
  rw [hpc] at hcopied hcurrent
  obtain ⟨hs1, heven, -, hcopy⟩ := hcopied
  obtain ⟨hpos, hown, hseen, hsource⟩ := hcurrent
  have hmoved : (w.ring.slots sc.slot).seq ≠ s1 → ∀ n, 0 < n →
      slotOf slots n = sc.slot → n ≤ seen sc.slot →
        n + slots ≤ w.marks.length := by
    intro hne n hn hnslot hle
    have hround := hw.round_of_moved hslot heven hpos hown (by omega)
    have := hseen n hn hnslot hle
    omega
  unfold noteLeft
  simp only [Scan.step, hpc] at hok ⊢
  by_cases heq : word (w.ring.slots sc.slot).seq = word s1
  · rw [if_pos heq] at hok ⊢
    rw [if_neg (by simp [Scan.leave, Scan.push])]
    refine ⟨hok, ?_, ?_, trivial, fun i hi n r hr hn hle => ?_, h.seen_le⟩
    · intro rec' hrec
      rcases List.mem_append.mp hrec with hold | hnew
      · exact h.source rec' hold
      · rw [List.mem_singleton.mp hnew, hrecslot]
        exact hsource
    · refine List.pairwise_append.mpr ⟨h.order, List.pairwise_singleton _ _,
        fun a ha b hb => ?_⟩
      rw [List.mem_singleton.mp hb, hrecslot]
      exact h.scan.slot a ha
    · by_cases hlast : i = sc.slot
      · subst hlast
        rw [Function.update_self]
        by_cases hstill : (w.ring.slots sc.slot).seq = s1
        · have hindex : (w.ring.slots sc.slot).index = s1 / 2 := by
            unfold TlSlot.index
            omega
          rcases Nat.lt_or_ge n (s1 / 2) with hlt | hge
          · have := add_le_of_slotOf_eq hr.1 (hn.trans hown.symm) hlt
            exact .inl (by omega)
          · obtain rfl : n = s1 / 2 := by
              have := hseen n hr.1 hn hle
              omega
            have hout : ¬w.BusyAt slots sc.slot := fun hbusy => by
              have := hslotOk.odd.mpr hbusy
              omega
            obtain ⟨r', hr', hheld⟩ := hslotOk.holds hout (by omega)
            rw [hindex] at hr'
            obtain rfl := hr.unique hr'
            refine .inr ⟨rec, List.mem_append_right _ (List.mem_singleton.mpr
              rfl), ?_⟩
            rw [(hcopy hstill).1, hheld.header]
        · exact .inl (hmoved hstill n hr.1 hn hle)
      · rw [Function.update_of_ne hlast]
        have hlt : i < sc.slot := by
          simp only [Scan.leave, Scan.push] at hi
          omega
        refine (h.swept i hlt n r hr hn hle).imp_right ?_
        rintro ⟨rec', hrec, hheader⟩
        exact ⟨rec', List.mem_append_left _ hrec, hheader⟩
  · rw [if_neg heq] at hok ⊢
    refine h.again hok rfl rfl (fun _ _ => rfl) (h.seen_le _) (hmoved ?_)
    rintro rfl
    exact heq rfl

/-- Every load of the scan keeps the invariant. -/
theorem Collects.step (h : Collects slots w sc seen left)
    (hw : WriterOk slots w) (hslot : sc.slot < slots) :
    Collects slots w (sc.step (w.ring.slots sc.slot)) (noteSeen w sc seen)
      (noteLeft w sc left) := by
  have hok := h.scan.step hslot
  have hslotOk := hw.slot sc.slot hslot
  have hcopied := h.scan.copied hslot
  have hcurrent := h.current
  have hobserved := h.scan.observed sc.slot hslot
  cases hpc : sc.pc with
  | load => exact h.step_load hw hslot hpc
  | len s1 =>
    rw [hpc] at hcurrent
    have hseen : noteSeen w sc seen = seen := by simp only [noteSeen, hpc]
    have hcap : ¬TL_EMBED_CAP < (w.ring.slots sc.slot).payloadLen := by
      have := hslotOk.len
      omega
    unfold noteLeft
    simp only [Scan.step, hpc, if_neg hcap, hseen, if_pos] at hok ⊢
    exact h.stay hok rfl rfl hcurrent (fun _ _ => rfl) (h.seen_le _)
  | header s1 len =>
    rw [hpc] at hcurrent hcopied
    obtain ⟨hpos, hown, hle⟩ := hcurrent
    obtain ⟨hs1, heven, -⟩ := hcopied
    have hseen : noteSeen w sc seen = seen := by simp only [noteSeen, hpc]
    have hindex : (w.ring.slots sc.slot).index ≠ 0 := by
      unfold TlSlot.index
      omega
    obtain ⟨m, r, hmarked, hm, hheader⟩ := hslotOk.header hindex fun hbusy => by
      have hodd := hslotOk.odd.mpr hbusy
      have := hw.round_of_moved hslot heven hpos hown (by omega)
      omega
    unfold noteLeft
    simp only [Scan.step, hpc, hseen, if_pos] at hok ⊢
    exact h.stay hok rfl rfl ⟨hpos, hown, hle, m, r, hmarked, hm, hheader⟩
      (fun _ _ => rfl) (h.seen_le _)
  | payload s1 len hdr =>
    rw [hpc] at hcurrent
    have hseen : noteSeen w sc seen = seen := by simp only [noteSeen, hpc]
    unfold noteLeft
    simp only [Scan.step, hpc, hseen, if_pos] at hok ⊢
    exact h.stay hok rfl rfl hcurrent (fun _ _ => rfl) (h.seen_le _)
  | recheck s1 rec =>
    have hseen : noteSeen w sc seen = seen := by simp only [noteSeen, hpc]
    rw [hseen]
    exact h.step_recheck hw hslot hpc

end RmwUnixSocket.Latch
