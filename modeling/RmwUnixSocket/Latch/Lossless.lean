import RmwUnixSocket.Latch.Watermark

/-!
# What a late joiner receives

A sample that is in the ring when the pull begins, and still there when the
enqueue loop ends, is collected by the scan.  It need not be enqueued: the
loop leaves behind what comes after the first gap of an overlapped snapshot,
and what comes after a record that it cannot resolve.  Such a sample arrives
only if its publisher has sent it, and a sample that was published before the
registration was never sent.

`Announced` is the condition that what the loop leaves behind has been sent.
Under it every such sample is in the queue once the socket is drained
(`latched_samples_arrive`), if the depth limit has not cut it.
-/

namespace RmwUnixSocket.Latch

open SlotRing (slotOf slotOf_lt)

/-! ## The scan sees what was committed -/

section Scan

variable {G : Type} {slots : Nat} {w w' : Writer G} {started bound : Nat}
  {seen left : Nat → Nat} {sc : Scan G}

/-- The scan is at the first load of a slot. -/
def ScanPc.atLoad : ScanPc G → Bool
  | .load => true
  | _ => false

/-- The scan has come to the slots below `bound` after the first `started`
commits. -/
structure Sees (slots : Nat) (w : Writer G) (started : Nat)
    (seen left : Nat → Nat) (bound : Nat) : Prop where
  commits : started ≤ w.commits
  found : ∀ n, 0 < n → n ≤ started → slotOf slots n < bound →
    n ≤ seen (slotOf slots n)
  marks : ∀ i < bound, left i ≤ w.marks.length

/-- What a scan has seen, with its current slot. -/
structure ScanSees (slots : Nat) (w : Writer G) (started : Nat)
    (seen left : Nat → Nat) (sc : Scan G) : Prop where
  passed : Sees slots w started seen left sc.slot
  current : sc.pc.atLoad = false → started ≤ seen sc.slot

theorem Sees.later (h : Sees slots w started seen left bound)
    (hlater : w.Later slots w') : Sees slots w' started seen left bound where
  commits := Nat.le_trans h.commits hlater.commits
  found := h.found
  marks i hi := Nat.le_trans (h.marks i hi) hlater.marks.length_le

/-- A slot that was never written has no record. -/
theorem WriterOk.commits_lt (hw : WriterOk slots w) {i n : Nat}
    (hi : i < slots) (hzero : (w.ring.slots i).seq = 0) (hn : 0 < n)
    (hslot : slotOf slots n = i) : w.commits < n := by
  have hindex : (w.ring.slots i).index = 0 := by
    unfold TlSlot.index
    omega
  by_contra hle
  have hcommits := hw.commits_le
  have := (hw.slot i hi).newest.le_of_slot hn hslot (by omega)
  omega

theorem ScanPc.eq_load {pc : ScanPc G} (h : pc.atLoad = true) :
    pc = .load := by
  cases pc with
  | load => rfl
  | len | header | payload | recheck => cases h

/-- The scan leaves a slot that it takes for an empty one. -/
theorem Scan.step_atLoad {slot : TlSlot G} (hload : sc.pc.atLoad = true)
    (hzero : word slot.seq = 0) : (sc.step slot).pc.atLoad = true := by
  simp only [Scan.step, ScanPc.eq_load hload, if_pos hzero]
  rfl

/-- The ghost of the current slot after its first load. -/
theorem noteSeen_self (hload : sc.pc.atLoad = true) :
    noteSeen w sc seen sc.slot =
      if word (w.ring.slots sc.slot).seq = 0 then 0 else w.commits := by
  simp only [noteSeen, ScanPc.eq_load hload, Function.update_self]

theorem noteSeen_later (hload : sc.pc.atLoad = false) :
    noteSeen w sc seen = seen := by
  unfold noteSeen
  split
  · rename_i hpc
    rw [hpc] at hload
    cases hload
  · rfl

theorem noteSeen_of_ne {i : Nat} (hi : i ≠ sc.slot) :
    noteSeen w sc seen i = seen i := by
  cases hload : sc.pc.atLoad with
  | true =>
    simp only [noteSeen, ScanPc.eq_load hload]
    exact Function.update_of_ne hi _ _
  | false => rw [noteSeen_later hload]

/-- A load of the scan finds what was committed before it. -/
theorem ScanSees.found_own (h : ScanSees slots w started seen left sc)
    (hw : WriterOk slots w) (hslot : sc.slot < slots)
    (hguard : sc.pc.atLoad = true → word (w.ring.slots sc.slot).seq = 0 →
      (w.ring.slots sc.slot).seq = 0) {n : Nat} (hn : 0 < n)
    (hle : n ≤ started) (hown : slotOf slots n = sc.slot) :
    n ≤ noteSeen w sc seen sc.slot := by
  have hcommits := h.passed.commits
  cases hload : sc.pc.atLoad with
  | true =>
    rw [noteSeen_self hload]
    split
    · rename_i hzero
      have := hw.commits_lt hslot (hguard hload hzero) hn hown
      omega
    · omega
  | false =>
    rw [noteSeen_later hload]
    exact Nat.le_trans hle (h.current hload)

/-- One load of the scan. -/
theorem ScanSees.step (h : ScanSees slots w started seen left sc)
    (hw : WriterOk slots w) (hslot : sc.slot < slots)
    (hguard : sc.pc.atLoad = true → word (w.ring.slots sc.slot).seq = 0 →
      (w.ring.slots sc.slot).seq = 0) :
    ScanSees slots w started (noteSeen w sc seen) (noteLeft w sc left)
      (sc.step (w.ring.slots sc.slot)) := by
  have hle := sc.step_slot_le (w.ring.slots sc.slot)
  refine ⟨⟨h.passed.commits, fun n hn hstarted hbound => ?_, fun i hi => ?_⟩,
    fun hload => ?_⟩
  · by_cases hown : slotOf slots n = sc.slot
    · rw [hown]
      exact h.found_own hw hslot hguard hn hstarted hown
    · rw [noteSeen_of_ne hown]
      exact h.passed.found n hn hstarted (by omega)
  · unfold noteLeft
    split
    · exact h.passed.marks i (by omega)
    · by_cases hown : i = sc.slot
      · rw [hown, Function.update_self]
      · rw [Function.update_of_ne hown]
        exact h.passed.marks i (by omega)
  · have hnext := sc.step_next (w.ring.slots sc.slot)
    have hword : sc.pc.atLoad = true →
        word (w.ring.slots sc.slot).seq ≠ 0 := fun hpc hzero => by
      rw [Scan.step_atLoad hpc hzero] at hload
      cases hload
    generalize sc.step (w.ring.slots sc.slot) = sc' at hnext hload ⊢
    cases hnext with
    | stay hsame =>
      rw [hsame]
      cases hpc : sc.pc.atLoad with
      | true =>
        rw [noteSeen_self hpc, if_neg (hword hpc)]
        exact h.passed.commits
      | false =>
        rw [noteSeen_later hpc]
        exact h.current hpc
    | unwritten | inFlux | tooLong | moved | keep => cases hload

end Scan

end RmwUnixSocket.Latch

namespace RmwUnixSocket.Latch.Replay

open SlotRing (slotOf slotOf_lt)

variable {G T : Type}

/-! ## The condition -/

/-- Sample `m` of `g` was committed when the pull began, its record has not
been overwritten, and the loop has not enqueued it. -/
def State.LeftBehind (s : State G T) (C : Config G) (g : G) (m : Nat) : Prop :=
  (∃ n < (s.pubs g).writer.marks.length + 1, 0 < n ∧
    (∃ r ∈ (s.pubs g).writer.marks[n - 1]?, r.sequenceNumber = m) ∧
    n ≤ (s.sub.trace g).started ∧
    (s.pubs g).writer.marks.length < n + C.slots g) ∧
  ¬s.sub.Replayed g m

/-- No slot that the scan takes for an empty one has been written, and when
the watermark is stored, every sample that the loop has left behind has been
sent. -/
def Announced (C : Config G) (s : State G T) : Act G T → Prop
  | .sub _ =>
    match s.sub.pc with
    | .pull g _ (.scan sc) =>
      sc.pc.atLoad = true →
        word ((s.pubs g).writer.ring.slots sc.slot).seq = 0 →
          ((s.pubs g).writer.ring.slots sc.slot).seq = 0
    | .enqueue g _ [] _ =>
      ∀ rec ∈ (s.sub.trace g).kept, s.LeftBehind C g rec.sequenceNumber →
        s.sub.Sent g rec.sequenceNumber
    | _ => True
  | _ => True

section Decide

variable [DecidableEq G] (C : Config G) (s : State G T)

instance (sub : Subscription G) (g : G) (m : Nat) :
    Decidable (sub.Replayed g m) :=
  inferInstanceAs (Decidable (∃ _ ∈ _, _ ∧ _))

instance (g : G) (m : Nat) : Decidable (s.LeftBehind C g m) :=
  inferInstanceAs (Decidable ((∃ _ < _, _ ∧ _ ∧ _) ∧ _))

instance (a : Act G T) : Decidable (Announced C s a) := by
  delta Announced
  generalize s.sub.pc = pc
  rcases a with _ | _ | _ | _ | _ | _ | ok | _ <;> try infer_instance
  rcases pc with _ | _ | _ | todo | ⟨g, todo, _ | _ | _ | _⟩ |
    ⟨g, todo, _ | _, maxSeq⟩ | _ | _ | _ | _ <;> infer_instance

end Decide

/-! ## The invariant -/

/-- Sample `m` of `g` is in the socket, or in the hands of the drain. -/
def Subscription.Pending (sub : Subscription G) (g : G) (m : Nat) : Prop :=
  ∃ d ∈ sub.pending, d.header.gid = g ∧ d.header.sequenceNumber = m

/-- A drain could not resolve the descriptor of sample `m` of `g`. -/
def Subscription.Unresolved (sub : Subscription G) (g : G) (m : Nat) : Prop :=
  ∃ d ∈ sub.unresolved, d.header.gid = g ∧ d.header.sequenceNumber = m

/-- Sample `m` of `g` has entered the queue. -/
def Subscription.Entered (sub : Subscription G) (g : G) (m : Nat) : Prop :=
  ∃ e ∈ sub.enqueued, e.header.gid = g ∧ e.header.sequenceNumber = m

/-- Sample `m` of `g` is at or below the watermark of `g`. -/
def Subscription.Below (sub : Subscription G) (g : G) (m : Nat) : Prop :=
  ∃ watermark, sub.watermarks g = some watermark ∧ m ≤ watermark

/-- What becomes of a sample that has been sent. -/
def Subscription.Accounted (C : Config G) (sub : Subscription G) (g : G)
    (m : Nat) : Prop :=
  sub.Pending g m ∨ sub.Unresolved g m ∨ sub.Entered g m ∨ sub.Below g m ∨
    C.ignored g = true

/-- The depth limit of the pull has cut sample `m` of `g`. -/
def Subscription.Cut (sub : Subscription G) (g : G) (m : Nat) : Prop :=
  ∃ rec ∈ (sub.trace g).collected, rec.sequenceNumber = m ∧
    rec ∉ (sub.trace g).kept

/-- The marks when the enqueue loop of `g` has ended.  Where nothing was kept
there was no loop. -/
def State.loopEnd (s : State G T) (g : G) : Nat :=
  match s.sub.watermarks g with
  | some _ => (s.sub.trace g).ended
  | none => (s.pubs g).writer.marks.length

/-- The pull from `g` has seen to sample `m`: it has enqueued it or cut it, or
the sample is among the datagrams and above the watermark. -/
def Subscription.Served (sub : Subscription G) (g : G) (m : Nat) : Prop :=
  sub.Replayed g m ∨ sub.Cut g m ∨ sub.Sent g m ∧ ¬sub.Below g m

/-- What the pull from `g` has seen, by where it is. -/
def PullSees (slots : Nat) (w : Writer G) (trace : PullTrace G) :
    PullPc G → Prop
  | .idle => True
  | .scan sc => ScanSees slots w trace.started trace.seen trace.left sc
  | .check _ _ | .done _ _ =>
    Sees slots w trace.started trace.seen trace.left slots

/-- The same for the loops of the creation. -/
def SeesOk (C : Config G) (s : State G T) : SubPc G → Prop
  | .pull g _ pull => C.queueDepth ≠ 0 ∧
    PullSees (C.slots g) (s.pubs g).writer (s.sub.trace g) pull
  | .enqueue g _ _ _ =>
    Sees (C.slots g) (s.pubs g).writer (s.sub.trace g).started
      (s.sub.trace g).seen (s.sub.trace g).left (C.slots g)
  | _ => True

/-- The loops of the creation are at `g`. -/
def SubPc.At (g : G) : SubPc G → Prop
  | .pull g' _ _ | .enqueue g' _ _ _ => g' = g
  | _ => False

/-- The invariant of the system. -/
structure ArriveOk (C : Config G) (s : State G T) : Prop where
  handover : HandoverOk C s
  topic : ∀ d ∈ s.sub.pending, d.header.msgType = 0
  accounted : ∀ g m, s.sub.Sent g m → s.sub.Accounted C g m
  ignored : ∀ g, C.ignored g = true → (s.sub.trace g).started = 0
  started : ∀ g, (s.sub.trace g).started ≤ (s.pubs g).writer.commits
  sees : SeesOk C s s.sub.pc
  served : ∀ g, ¬s.sub.pc.At g → ∀ n r, (s.pubs g).writer.Marked n r →
    n ≤ (s.sub.trace g).started → s.loopEnd g < n + C.slots g →
      s.sub.Served g r.sequenceNumber

theorem ArriveOk.init [Inhabited G] (C : Config G) :
    ArriveOk C (State.init G T) where
  handover := .init C
  topic := nofun
  accounted := nofun
  ignored _ _ := rfl
  started _ := Nat.zero_le _
  sees := trivial
  served g _ n r hr hstarted := by
    have hpos := hr.1
    have : n ≤ 0 := hstarted
    omega

section Step

variable {C : Config G} {s t : State G T} {sub sub' : Subscription G} {g : G}
  {m : Nat}

theorem Subscription.Accounted.mono (h : sub.Accounted C g m)
    (hpending : sub.Pending g m → sub'.Accounted C g m)
    (hunresolved : sub.unresolved ⊆ sub'.unresolved)
    (henqueued : sub.enqueued ⊆ sub'.enqueued)
    (hwatermarks : ∀ watermark, sub.watermarks g = some watermark →
      sub'.watermarks g = some watermark) : sub'.Accounted C g m := by
  rcases h with hwaiting | ⟨d, hd, hrest⟩ | ⟨e, he, hrest⟩ |
    ⟨watermark, hstored, hle⟩ | hignored
  · exact hpending hwaiting
  · exact .inr (.inl ⟨d, hunresolved hd, hrest⟩)
  · exact .inr (.inr (.inl ⟨e, henqueued he, hrest⟩))
  · exact .inr (.inr (.inr (.inl ⟨watermark, hwatermarks watermark hstored, hle⟩)))
  · exact .inr (.inr (.inr (.inr hignored)))

theorem Subscription.Served.mono (h : sub.Served g m)
    (hsent : sub.sent ⊆ sub'.sent) (henqueued : sub.enqueued ⊆ sub'.enqueued)
    (htrace : sub'.trace g = sub.trace g)
    (hwatermarks : sub'.watermarks g = sub.watermarks g) :
    sub'.Served g m := by
  unfold Subscription.Served Subscription.Cut Subscription.Below
  rw [htrace, hwatermarks]
  refine h.imp (fun hreplayed => hreplayed.mono henqueued) (Or.imp_right ?_)
  rintro ⟨⟨d, hd, hrest⟩, hbelow⟩
  exact ⟨⟨d, hsent hd, hrest⟩, hbelow⟩

theorem SeesOk.later (h : SeesOk C s s.sub.pc)
    (hlater : ∀ g, PubLater (C.slots g) (s.pubs g) (t.pubs g))
    (hpc : t.sub.pc = s.sub.pc) (htrace : t.sub.trace = s.sub.trace) :
    SeesOk C t t.sub.pc := by
  rw [hpc]
  generalize s.sub.pc = pc at h ⊢
  cases pc with
  | pull g todo pull =>
    refine ⟨h.1, ?_⟩
    rw [htrace]
    have hpull := h.2
    have hwriter := (hlater g).writer
    cases pull with
    | idle => trivial
    | scan sc => exact ⟨hpull.passed.later hwriter, hpull.current⟩
    | check sc j => exact Sees.later hpull hwriter
    | done sc overlapped => exact Sees.later hpull hwriter
  | enqueue g todo rest maxSeq =>
    unfold SeesOk
    rw [htrace]
    exact Sees.later h (hlater g).writer
  | register | bump | query | next | ready | dedup | resolve | push => trivial

/-- What the publishers have served stays served. -/
theorem ArriveOk.served_of (h : ArriveOk C s)
    (hlater : (s.pubs g).writer.Later (C.slots g) (t.pubs g).writer)
    (hsent : s.sub.sent ⊆ t.sub.sent)
    (henqueued : s.sub.enqueued ⊆ t.sub.enqueued)
    (htrace : t.sub.trace g = s.sub.trace g)
    (hwatermarks : t.sub.watermarks g = s.sub.watermarks g)
    (hat : ¬s.sub.pc.At g) {n : Nat} {r : SlotRecord G}
    (hr : (t.pubs g).writer.Marked n r) (hn : n ≤ (t.sub.trace g).started)
    (hend : t.loopEnd g < n + C.slots g) :
    t.sub.Served g r.sequenceNumber := by
  rw [htrace] at hn
  have hr' := (h.handover.order.pubs g).writer.marked_of_commits hlater.marks hr
    (Nat.le_trans hn (h.started g))
  refine (h.served g hat n r hr' hn ?_).mono hsent henqueued htrace hwatermarks
  refine Nat.lt_of_le_of_lt ?_ hend
  unfold State.loopEnd
  rw [hwatermarks, htrace]
  split
  · exact Nat.le_refl _
  · exact hlater.marks.length_le

theorem ArriveOk.publishers (h : ArriveOk C s) (hmove : PublishersMove C s t)
    (hhandover : HandoverOk C t) : ArriveOk C t := by
  have hhand : t.sub.pc.inHand = s.sub.pc.inHand := by rw [hmove.pc]
  have hsent : s.sub.sent ⊆ t.sub.sent ∧ s.sub.pending ⊆ t.sub.pending := by
    unfold Subscription.pending
    rw [hhand]
    rcases hmove.sent with ⟨hsent, hsocket⟩ | ⟨d, hsent, hsocket, -⟩
    · rw [hsent, hsocket]
      exact ⟨List.Subset.refl _, List.Subset.refl _⟩
    · rw [hsent, hsocket, ← List.append_assoc]
      exact ⟨List.subset_append_left _ _, List.subset_append_left _ _⟩
  have hnew : ∀ d ∈ t.sub.pending, d ∈ s.sub.pending ∨ d.header.msgType = 0 := by
    intro d hd
    unfold Subscription.pending at hd ⊢
    rw [hhand] at hd
    rcases hmove.sent with ⟨-, hsocket⟩ | ⟨d', -, hsocket, -, htopic⟩
    · rw [hsocket] at hd
      exact .inl hd
    · rw [hsocket, ← List.append_assoc] at hd
      rcases List.mem_append.mp hd with hold | hlast
      · exact .inl hold
      · rw [List.mem_singleton.mp hlast]
        exact .inr htopic
  refine ⟨hhandover, fun d hd => (hnew d hd).elim (h.topic d) id,
    fun g m harrived => ?_, fun g hg => ?_, fun g => ?_,
    h.sees.later hmove.later hmove.pc hmove.trace, fun g hat n r hr hn hend => ?_⟩
  · have hold : s.sub.Sent g m → t.sub.Accounted C g m := fun hsent' => by
      refine (h.accounted g m hsent').mono ?_ ?_ ?_ ?_
      · rintro ⟨d, hd, hrest⟩
        exact .inl ⟨d, hsent.2 hd, hrest⟩
      · rw [hmove.unresolved]
        exact List.Subset.refl _
      · rw [hmove.enqueued]
        exact List.Subset.refl _
      · rw [hmove.watermarks]
        exact fun _ => id
    obtain ⟨d, hd, hrest⟩ := harrived
    rcases hmove.sent with ⟨hsame, -⟩ | ⟨d', hsame, hsocket, -⟩
    · rw [hsame] at hd
      exact hold ⟨d, hd, hrest⟩
    · rw [hsame] at hd
      rcases List.mem_append.mp hd with hin | hlast
      · exact hold ⟨d, hin, hrest⟩
      · refine .inl ⟨d, ?_, hrest⟩
        unfold Subscription.pending
        rw [hsocket]
        exact List.mem_append_right _ (List.mem_append_right _ hlast)
  · rw [hmove.trace]
    exact h.ignored g hg
  · rw [hmove.trace]
    exact Nat.le_trans (h.started g) (hmove.later g).writer.commits
  · rw [hmove.pc] at hat
    refine h.served_of (hmove.later g).writer hsent.1 ?_ (congrFun hmove.trace g)
      (congrFun hmove.watermarks g) hat hr hn hend
    rw [hmove.enqueued]
    exact List.Subset.refl _

/-! ## The loops of the creation -/

/-- The subscription goes on, and handles no datagram. -/
theorem ArriveOk.move (h : ArriveOk C s) (hhandover : HandoverOk C t)
    (hsent : t.sub.sent = s.sub.sent) (hpending : t.sub.pending = s.sub.pending)
    (hunresolved : t.sub.unresolved = s.sub.unresolved)
    (henqueued : s.sub.enqueued ⊆ t.sub.enqueued)
    (hwatermarks : ∀ g watermark, s.sub.watermarks g = some watermark →
      t.sub.watermarks g = some watermark)
    (hignored : ∀ g, C.ignored g = true → (t.sub.trace g).started = 0)
    (hstarted : ∀ g, (t.sub.trace g).started ≤ (t.pubs g).writer.commits)
    (hsees : SeesOk C t t.sub.pc)
    (hserved : ∀ g, ¬t.sub.pc.At g → ∀ n r, (t.pubs g).writer.Marked n r →
      n ≤ (t.sub.trace g).started → t.loopEnd g < n + C.slots g →
        t.sub.Served g r.sequenceNumber) : ArriveOk C t := by
  refine ⟨hhandover, ?_, fun g m harrived => ?_, hignored, hstarted, hsees,
    hserved⟩
  · rw [hpending]
    exact h.topic
  · unfold Subscription.Sent at harrived
    rw [hsent] at harrived
    refine (h.accounted g m harrived).mono (fun hwaiting => .inl ?_) ?_ henqueued
      (hwatermarks g)
    · unfold Subscription.Pending
      rw [hpending]
      exact hwaiting
    · rw [hunresolved]
      exact List.Subset.refl _

/-- The subscription goes on, and only its place changes. -/
theorem ArriveOk.goto (h : ArriveOk C s) {visible : Bool} {generation : Nat}
    {socket : List (Datagram G)} {pc : SubPc G}
    (hhandover : HandoverOk C
      { s with
        generation := generation,
        sub := { s.sub with visible := visible, socket := socket, pc := pc } })
    (hpending : pc.inHand ++ socket = s.sub.pending)
    (hsees : SeesOk C s pc) (hat : ∀ g, s.sub.pc.At g → pc.At g) :
    ArriveOk C
      { s with
        generation := generation,
        sub := { s.sub with visible := visible, socket := socket, pc := pc } } := by
  refine h.move hhandover rfl hpending rfl (List.Subset.refl _)
    (fun _ _ => id) h.ignored h.started ?_ fun g hnot n r hr hn hend => ?_
  · cases pc with
    | pull | enqueue => exact hsees
    | register | bump | query | next | ready | dedup | resolve | push => trivial
  · exact h.served_of (.refl _ _) (List.Subset.refl _) (List.Subset.refl _) rfl
      rfl (fun hin => hnot (hat g hin)) hr hn hend

variable [DecidableEq G] {todo : List G} {rest : List (TlPulledRecord G)}
  {maxSeq : Nat} {ok : Bool}

/-- A note about `g`, which the loops of the creation are at before or after
the step. -/
theorem ArriveOk.note (h : ArriveOk C s) {f : PullTrace G → PullTrace G}
    {pc : SubPc G} (hhandover : HandoverOk C ((s.note g f).subGoto pc))
    (hpending : pc.inHand ++ s.sub.socket = s.sub.pending)
    (hignored : C.ignored g = true → (f (s.sub.trace g)).started = 0)
    (hstarted : (f (s.sub.trace g)).started ≤ (s.pubs g).writer.commits)
    (hsees : SeesOk C ((s.note g f).subGoto pc) pc)
    (hat : ∀ g', s.sub.pc.At g' → g' = g)
    (hserved : ¬pc.At g → ∀ n r, (s.pubs g).writer.Marked n r →
      n ≤ (f (s.sub.trace g)).started →
        ((s.note g f).subGoto pc).loopEnd g < n + C.slots g →
          ((s.note g f).subGoto pc).sub.Served g r.sequenceNumber) :
    ArriveOk C ((s.note g f).subGoto pc) := by
  have hown : ((s.note g f).subGoto pc).sub.trace g = f (s.sub.trace g) :=
    Function.update_self _ _ _
  have hother : ∀ g', g' ≠ g →
      ((s.note g f).subGoto pc).sub.trace g' = s.sub.trace g' := fun g' hne =>
    Function.update_of_ne hne _ _
  refine h.move hhandover rfl hpending rfl (List.Subset.refl _) (fun _ _ => id)
    (fun g' hg' => ?_) (fun g' => ?_) hsees fun g' hnot n r hr hn hend => ?_
  · by_cases hg : g' = g
    · rw [hg] at hg' ⊢
      rw [hown]
      exact hignored hg'
    · rw [hother g' hg]
      exact h.ignored g' hg'
  · by_cases hg : g' = g
    · rw [hg, hown]
      exact hstarted
    · rw [hother g' hg]
      exact h.started g'
  · by_cases hg : g' = g
    · rw [hg] at hnot hr hn hend ⊢
      rw [hown] at hn
      exact hserved hnot n r hr hn hend
    · exact h.served_of (t := (s.note g f).subGoto pc) (.refl _ _)
        (List.Subset.refl _) (List.Subset.refl _) (hother g' hg) rfl (fun hin => hg (hat g' hin)) hr hn hend

/-- One turn of the loop over the publishers. -/
theorem ArriveOk.next (h : ArriveOk C s) (hpc : s.sub.pc = .next todo)
    (hhandover : HandoverOk C (nextStep C s ok todo)) :
    ArriveOk C (nextStep C s ok todo) := by
  have hnot : ∀ g, ¬s.sub.pc.At g := by
    intro g hg
    rw [hpc] at hg
    exact hg
  have hpending : [] ++ s.sub.socket = s.sub.pending := by
    unfold Subscription.pending
    rw [hpc]
    rfl
  cases todo with
  | nil => exact h.goto hhandover hpending trivial fun g hg => absurd hg (hnot g)
  | cons g todo =>
    simp only [nextStep] at hhandover ⊢
    split at hhandover
    · rename_i hcond
      rw [if_pos hcond]
      obtain ⟨-, hignored, -, hdepth⟩ := hcond
      refine h.note hhandover hpending (fun hg => absurd hg hignored)
        (Nat.le_refl _) ⟨hdepth, ?_⟩ (fun g' hg' => absurd hg' (hnot g'))
        fun hat => absurd rfl hat
      simp only [State.subGoto, State.note, Function.update_self]
      -- The scan has passed no slot, and is at its first load.
      exact ⟨⟨Nat.le_refl _, fun _ _ _ hlt => absurd hlt (Nat.not_lt_zero _),
        fun _ hlt => absurd hlt (Nat.not_lt_zero _)⟩, fun hat => (by cases hat)⟩
    · rename_i hcond
      rw [if_neg hcond]
      exact h.goto hhandover hpending trivial fun g' hg' => absurd hg' (hnot g')

omit [DecidableEq G] in
/-- A sample that the ring has had from the start of the pull to its end is
collected. -/
theorem HistoryOk.collected {slots n : Nat} {w : Writer G}
    {trace : PullTrace G} {r : SlotRecord G} (h : HistoryOk slots w trace)
    (hsees : Sees slots w trace.started trace.seen trace.left slots)
    (hslots : 0 < slots) (hr : w.Marked n r) (hn : n ≤ trace.started)
    (hend : w.marks.length < n + slots) :
    ∃ rec ∈ trace.collected, rec.header = r.header := by
  have hlt := slotOf_lt hslots n
  have hseen := hsees.found n hr.1 hn hlt
  have hleft := hsees.marks _ hlt
  refine (h.swept n r hr hseen).resolve_left fun hover => ?_
  omega

/-- The scan of the ring of `g` is over. -/
theorem ArriveOk.finishPull (h : ArriveOk C s) {sc : Scan G}
    {overlapped : Bool} (hpc : s.sub.pc = .pull g todo (.done sc overlapped))
    (hhandover : HandoverOk C (finishPull C s g todo sc overlapped)) :
    ArriveOk C (finishPull C s g todo sc overlapped) := by
  have hphase := h.handover.order.sub.phase
  have hsees := h.sees
  rw [hpc] at hphase hsees
  obtain ⟨-, -, hcollects, hslot, -⟩ := hphase
  obtain ⟨hdepth, hsees⟩ := hsees
  have hslots : 0 < C.slots g := tlRingSlots_pos _
  have hhistory := HistoryOk.of_collects hcollects hslot hslots
    (h.handover.order.pubs g) C.queueDepth
  have hnone : s.sub.watermarks g = none :=
    h.handover.ahead g (by rw [hpc]; exact List.mem_cons_self)
  have hpending : [] ++ s.sub.socket = s.sub.pending := by
    unfold Subscription.pending
    rw [hpc]
    rfl
  have hat : ∀ g', s.sub.pc.At g' → g' = g := by
    intro g' hg'
    rw [hpc] at hg'
    exact hg'.symm
  rcases finishPull_cases (C := C) hnone hpc with ⟨hempty, -⟩ |
    ⟨rest, maxSeq, hhanded⟩
  · -- Nothing was kept, so nothing was collected.
    have hstate : Replay.finishPull C s g todo sc overlapped =
        (s.note g fun trace =>
          { trace with
            collected := sc.records,
            kept := sortedNewest C.queueDepth sc.records }).subGoto
              (.next todo) := by
      unfold Replay.finishPull
      exact if_pos hempty
    rw [hstate] at hhandover ⊢
    refine h.note hhandover hpending (h.ignored g) (h.started g) trivial hat
      fun _ n r hr hn hend => ?_
    have hend' : (s.pubs g).writer.marks.length < n + C.slots g := by
      unfold State.loopEnd at hend
      rw [show ((s.note g _).subGoto _).sub.watermarks g = none from hnone] at hend
      exact hend
    obtain ⟨rec, hrec, -⟩ := hhistory.collected hsees hslots hr hn hend'
    have hsorted := Keyed.newest_eq_nil hempty (Nat.pos_of_ne_zero hdepth)
    have hmem : rec ∈ Keyed.sortBy TlPulledRecord.sequenceNumber sc.records :=
      Keyed.mem_sortBy.mpr hrec
    rw [hsorted] at hmem
    cases hmem
  · rw [hhanded.state_eq] at hhandover ⊢
    refine h.note hhandover hpending (h.ignored g) (h.started g) ?_ hat
      fun hnot => absurd rfl hnot
    unfold SeesOk
    simp only [State.subGoto, State.note, Function.update_self]
    exact hsees

/-- A load of `tl_ring_pull`. -/
theorem ArriveOk.pullStep (h : ArriveOk C s) {pull : PullPc G}
    (hpc : s.sub.pc = .pull g todo pull) (hguard : Announced C s (.sub ok))
    (hhandover : HandoverOk C (pullStep C s g todo pull)) :
    ArriveOk C (pullStep C s g todo pull) := by
  have hpub := h.handover.order.pubs g
  have hphase := h.handover.order.sub.phase
  have hsees := h.sees
  rw [hpc] at hphase hsees
  obtain ⟨-, -, hpull⟩ := hphase
  have hpending : [] ++ s.sub.socket = s.sub.pending := by
    unfold Subscription.pending
    rw [hpc]
    rfl
  have hat : ∀ g', s.sub.pc.At g' → g' = g := by
    intro g' hg'
    rw [hpc] at hg'
    exact hg'.symm
  have hstay : ∀ {pull' : PullPc G} (g' : G), s.sub.pc.At g' →
      (SubPc.pull g todo pull').At g' := fun g' hg' => (hat g' hg').symm
  cases pull with
  | idle => exact h.goto hhandover hpending hsees hstay
  | scan sc =>
    obtain ⟨hdepth, hscan⟩ := hsees
    obtain ⟨-, hslot, -⟩ := hpull
    have hload : sc.pc.atLoad = true →
        word ((s.pubs g).writer.ring.slots sc.slot).seq = 0 →
          ((s.pubs g).writer.ring.slots sc.slot).seq = 0 := by
      unfold Announced at hguard
      rw [hpc] at hguard
      exact hguard
    have hscan' := ScanSees.step hscan hpub.writer hslot hload
    have hle := sc.step_slot_le ((s.pubs g).writer.ring.slots sc.slot)
    refine h.note hhandover hpending (h.ignored g) (h.started g) ⟨hdepth, ?_⟩ hat
      fun hnot => absurd rfl hnot
    simp only [PullPc.step]
    split
    · simp only [State.subGoto, State.note, Function.update_self]
      exact hscan'
    · rename_i hge
      have heq : (sc.step ((s.pubs g).writer.ring.slots sc.slot)).slot =
          C.slots g := by omega
      have hpassed := hscan'.passed
      rw [heq] at hpassed
      simp only [State.subGoto, State.note, Function.update_self]
      exact hpassed
  | check sc j =>
    refine h.goto hhandover hpending ⟨hsees.1, ?_⟩ hstay
    simp only [PullPc.step]
    split
    · split
      · exact hsees.2
      · exact hsees.2
    · exact hsees.2
  | done sc overlapped => exact h.finishPull hpc hhandover

/-- One turn of the enqueue loop. -/
theorem ArriveOk.enqueueStep (h : ArriveOk C s)
    (hpc : s.sub.pc = .enqueue g todo rest maxSeq)
    (hguard : Announced C s (.sub ok))
    (hhandover : HandoverOk C (enqueueStep C s g todo maxSeq ok rest)) :
    ArriveOk C (enqueueStep C s g todo maxSeq ok rest) := by
  have hslots : 0 < C.slots g := tlRingSlots_pos _
  have hsees := h.sees
  rw [hpc] at hsees
  have hhistory := h.handover.history g (.inr ⟨todo, rest, maxSeq, hpc⟩)
  have hnone : s.sub.watermarks g = none :=
    h.handover.ahead g (by rw [hpc]; exact List.mem_cons_self)
  have hpending : [] ++ s.sub.socket = s.sub.pending := by
    unfold Subscription.pending
    rw [hpc]
    rfl
  have hat : ∀ g', s.sub.pc.At g' → g' = g := by
    intro g' hg'
    rw [hpc] at hg'
    exact hg'.symm
  cases rest with
  | nil =>
    have hloop := h.handover.loop g todo [] maxSeq hpc
    have hannounced : ∀ rec ∈ (s.sub.trace g).kept,
        s.LeftBehind C g rec.sequenceNumber →
          s.sub.Sent g rec.sequenceNumber := by
      unfold Announced at hguard
      rw [hpc] at hguard
      exact hguard
    simp only [Replay.enqueueStep] at hhandover ⊢
    refine h.move hhandover rfl hpending rfl (List.Subset.refl _)
      (fun g' watermark hstored => ?_) (fun g' hg' => ?_) (fun g' => ?_) trivial
      fun g' _ n r hr hn hend => ?_
    · have hne : g' ≠ g := by
        rintro rfl
        rw [hnone] at hstored
        cases hstored
      simp only [State.note, Function.update_of_ne hne]
      exact hstored
    · by_cases hg : g' = g
      · subst hg
        simp only [State.note, Function.update_self]
        exact h.ignored g' hg'
      · simp only [State.note, Function.update_of_ne hg]
        exact h.ignored g' hg'
    · by_cases hg : g' = g
      · subst hg
        simp only [State.note, Function.update_self]
        exact h.started g'
      · simp only [State.note, Function.update_of_ne hg]
        exact h.started g'
    · by_cases hg : g' = g
      · subst hg
        simp only [State.loopEnd, State.note, Function.update_self] at hr hn hend
        obtain ⟨rec, hrec, hheader⟩ :=
          hhistory.collected hsees hslots hr hn hend
        have hseq : rec.sequenceNumber = r.sequenceNumber := by
          rw [TlPulledRecord.sequenceNumber, hheader]
          rfl
        by_cases hkept : rec ∈ (s.sub.trace g').kept
        · by_cases hreplayed : s.sub.Replayed g' r.sequenceNumber
          · exact .inl hreplayed
          · have hsent := hannounced rec hkept ⟨⟨n, Nat.lt_succ_of_le hr.le, hr.1,
              ⟨r, hr.2, hseq.symm⟩, hn, hend⟩, by rw [hseq]; exact hreplayed⟩
            have habove := (hloop.above rec hkept List.not_mem_nil).resolve_left
              (by rw [hseq]; exact hreplayed)
            rw [hseq] at hsent habove
            refine .inr (.inr ⟨hsent, ?_⟩)
            rintro ⟨watermark, hstored, hle⟩
            simp only [State.note, Function.update_self, Option.some.injEq]
              at hstored
            omega
        · refine .inr (.inl ⟨rec, ?_, hseq, ?_⟩)
          · simp only [State.note, Function.update_self]
            exact hrec
          · simp only [State.note, Function.update_self]
            exact hkept
      · refine h.served_of (t := Replay.enqueueStep C s g todo maxSeq ok [])
          (.refl _ _) (List.Subset.refl _) (List.Subset.refl _) ?_ ?_
          (fun hin => hg (hat g' hin)) hr hn hend
        · exact Function.update_of_ne hg _ _
        · exact Function.update_of_ne hg _ _
  | cons rec rest =>
    simp only [Replay.enqueueStep] at hhandover ⊢
    split at hhandover
    · rename_i d _
      have hold : s.sub.enqueued ⊆ s.sub.enqueued ++
          [{ header := d.header, live := false }] :=
        List.subset_append_left _ _
      refine h.move hhandover rfl hpending rfl hold (fun _ _ => id)
        h.ignored h.started hsees fun g' hnot n r hr hn hend => ?_
      exact h.served_of
        (t := (s.enqueue C.queueDepth d false).subGoto
          (.enqueue g todo rest maxSeq))
        (.refl _ _) (List.Subset.refl _) hold rfl rfl
        (fun hin => hnot (hat g' hin).symm) hr hn hend
    · exact h.goto hhandover hpending hsees fun g' hg' => (hat g' hg').symm

/-! ## The drain -/

omit [DecidableEq G] in
theorem resolve_msgType {d d' : Datagram G} (h : s.resolve d ok = some d') :
    d'.header.msgType = d.header.msgType := by
  unfold State.resolve at h
  split at h
  · split at h
    · split at h
      · cases h
        rfl
      · cases h
    · cases h
  · cases h
    rfl

omit [DecidableEq G] in
/-- The drain has handled the datagram `d`. -/
theorem ArriveOk.handled (h : ArriveOk C s) {d : Datagram G}
    (hhandover : HandoverOk C t) (hpubs : t.pubs = s.pubs)
    (hsent : t.sub.sent = s.sub.sent) (htrace : t.sub.trace = s.sub.trace)
    (hwatermarks : t.sub.watermarks = s.sub.watermarks)
    (hhand : s.sub.pc.inHand = [d]) (hpc : t.sub.pc = .ready)
    (hsocket : t.sub.socket = s.sub.socket)
    (hunresolved : s.sub.unresolved ⊆ t.sub.unresolved)
    (henqueued : s.sub.enqueued ⊆ t.sub.enqueued)
    (haccounted : t.sub.Accounted C d.header.gid d.header.sequenceNumber) :
    ArriveOk C t := by
  have hbefore : s.sub.pending = d :: t.sub.pending := by
    unfold Subscription.pending
    rw [hhand, hpc, hsocket]
    rfl
  refine ⟨hhandover, fun a ha => h.topic a ?_, fun g m harrived => ?_, ?_, ?_, ?_,
    fun g hnot n r hr hn hend => ?_⟩
  · rw [hbefore]
    exact List.mem_cons_of_mem _ ha
  · unfold Subscription.Sent at harrived
    rw [hsent] at harrived
    refine (h.accounted g m harrived).mono ?_ hunresolved henqueued ?_
    · rintro ⟨a, ha, hgid, hseq⟩
      rw [hbefore] at ha
      rcases List.mem_cons.mp ha with rfl | hin
      · rw [hgid, hseq] at haccounted
        exact haccounted
      · exact .inl ⟨a, hin, hgid, hseq⟩
    · rw [hwatermarks]
      exact fun _ => id
  · rw [htrace]
    exact h.ignored
  · rw [htrace, hpubs]
    exact h.started
  · rw [hpc]
    trivial
  · refine h.served_of ?_ ?_ henqueued (congrFun htrace g)
      (congrFun hwatermarks g) (fun hat => ?_) hr hn hend
    · rw [hpubs]
      exact .refl _ _
    · rw [hsent]
      exact List.Subset.refl _
    · generalize s.sub.pc = pc at hhand hat
      cases pc with
      | pull | enqueue => cases hhand
      | register | bump | query | next | ready | dedup | resolve | push =>
        exact hat

omit [DecidableEq G] in
/-- The drain goes on with the datagram in its hands. -/
theorem ArriveOk.drain {d d' : Datagram G} {pc : SubPc G} (h : ArriveOk C s)
    (hhandover : HandoverOk C (s.subGoto pc)) (hhand : s.sub.pc.inHand = [d])
    (hpc : pc.inHand = [d']) (hgid : d'.header.gid = d.header.gid)
    (hseq : d'.header.sequenceNumber = d.header.sequenceNumber)
    (htopic : d'.header.msgType = d.header.msgType) :
    ArriveOk C (s.subGoto pc) := by
  have hbefore : s.sub.pending = d :: s.sub.socket := by
    unfold Subscription.pending
    rw [hhand]
    rfl
  have hafter : (s.subGoto pc).sub.pending = d' :: s.sub.socket := by
    unfold Subscription.pending State.subGoto
    simp only [hpc]
    rfl
  have hat : ∀ {pc : SubPc G} {d : Datagram G} (g : G), pc.inHand = [d] →
      ¬pc.At g := by
    intro pc d g hin hcur
    cases pc with
    | pull | enqueue => cases hin
    | register | bump | query | next | ready | dedup | resolve | push =>
      exact hcur
  refine ⟨hhandover, fun a ha => ?_, fun g m harrived => ?_, h.ignored, h.started,
    ?_, fun g _ n r hr hn hend => ?_⟩
  · rw [hafter] at ha
    rcases List.mem_cons.mp ha with rfl | hin
    · rw [htopic]
      exact h.topic d (by rw [hbefore]; exact List.mem_cons_self)
    · exact h.topic a (by rw [hbefore]; exact List.mem_cons_of_mem _ hin)
  · refine (h.accounted g m harrived).mono ?_ (List.Subset.refl _)
      (List.Subset.refl _) fun _ => id
    rintro ⟨a, ha, hagid, haseq⟩
    rw [hbefore] at ha
    refine .inl ?_
    unfold Subscription.Pending
    rw [hafter]
    rcases List.mem_cons.mp ha with rfl | hin
    · exact ⟨d', List.mem_cons_self, hgid.trans hagid, hseq.trans haseq⟩
    · exact ⟨a, List.mem_cons_of_mem _ hin, hagid, haseq⟩
  · change SeesOk C (s.subGoto pc) pc
    cases pc with
    | pull | enqueue => cases hpc
    | register | bump | query | next | ready | dedup | resolve | push => trivial
  · exact h.served_of (.refl _ _) (List.Subset.refl _) (List.Subset.refl _) rfl
      rfl (hat g hhand) hr hn hend

/-- A step of the subscription. -/
theorem ArriveOk.subStep (h : ArriveOk C s) (hguard : Announced C s (.sub ok))
    (hstep : subStep C s ok = some t) (hhandover : HandoverOk C t) :
    ArriveOk C t := by
  cases hpc : s.sub.pc with
  | register =>
    simp only [Replay.subStep, hpc, Option.some.injEq] at hstep
    subst hstep
    refine h.goto hhandover ?_ trivial fun g hat => ?_
    · unfold Subscription.pending
      rw [hpc]
      rfl
    · rw [hpc] at hat
      exact hat
  | bump =>
    simp only [Replay.subStep, hpc, Option.some.injEq] at hstep
    subst hstep
    refine h.goto hhandover ?_ trivial fun g hat => ?_
    · unfold Subscription.pending
      rw [hpc]
      rfl
    · rw [hpc] at hat
      exact hat
  | query =>
    simp only [Replay.subStep, hpc] at hstep
    cases hstep
  | next todo =>
    simp only [Replay.subStep, hpc, Option.some.injEq] at hstep
    subst hstep
    exact h.next hpc hhandover
  | pull g todo pull =>
    simp only [Replay.subStep, hpc, Option.some.injEq] at hstep
    subst hstep
    exact h.pullStep hpc hguard hhandover
  | enqueue g todo rest maxSeq =>
    simp only [Replay.subStep, hpc, Option.some.injEq] at hstep
    subst hstep
    exact h.enqueueStep hpc hguard hhandover
  | ready =>
    simp only [Replay.subStep, hpc] at hstep
    split at hstep
    · cases hstep
    · rename_i d socket hsocket
      cases hstep
      refine h.goto hhandover ?_ trivial fun g hat => ?_
      · unfold Subscription.pending
        rw [hpc, hsocket]
        rfl
      · rw [hpc] at hat
        exact hat
  | dedup d =>
    have hhand : s.sub.pc.inHand = [d] := by rw [hpc]; rfl
    simp only [Replay.subStep, hpc] at hstep
    split at hstep
    · rename_i hmsg
      refine absurd (h.topic d ?_) hmsg
      unfold Subscription.pending
      rw [hhand]
      exact List.mem_cons_self
    · split at hstep
      · rename_i hdup
        cases hstep
        refine h.handled hhandover rfl rfl rfl rfl hhand rfl rfl
          (List.Subset.refl _) (List.Subset.refl _) ?_
        unfold Subscription.duplicate at hdup
        split at hdup
        · rename_i watermark hstored
          exact .inr (.inr (.inr (.inl
            ⟨watermark, hstored, of_decide_eq_true hdup⟩)))
        · cases hdup
      · cases hstep
        exact h.drain hhandover hhand rfl rfl rfl rfl
  | resolve d =>
    have hhand : s.sub.pc.inHand = [d] := by rw [hpc]; rfl
    simp only [Replay.subStep, hpc] at hstep
    split at hstep
    · rename_i d' hd
      obtain ⟨hgid, hseq⟩ := resolve_header hd
      split at hstep
      · rename_i hignored
        cases hstep
        exact h.handled hhandover rfl rfl rfl rfl hhand rfl rfl
          (List.Subset.refl _) (List.Subset.refl _)
          (.inr (.inr (.inr (.inr hignored))))
      · cases hstep
        exact h.drain hhandover hhand rfl hgid hseq (resolve_msgType hd)
    · cases hstep
      exact h.handled hhandover rfl rfl rfl rfl hhand rfl rfl
        (List.subset_append_left _ _) (List.Subset.refl _)
        (.inr (.inl ⟨d, List.mem_append_right _ (List.mem_singleton.mpr rfl), rfl,
          rfl⟩))
  | push d =>
    have hhand : s.sub.pc.inHand = [d] := by rw [hpc]; rfl
    simp only [Replay.subStep, hpc, Option.some.injEq] at hstep
    subst hstep
    exact h.handled hhandover rfl rfl rfl rfl hhand rfl rfl
      (List.Subset.refl _) (List.subset_append_left _ _)
      (.inr (.inr (.inl ⟨{ header := d.header, live := true },
        List.mem_append_right _ (List.mem_singleton.mpr rfl), rfl, rfl⟩)))

variable [DecidableEq T] {a : Act G T}

/-- Every step that meets the condition keeps the invariant. -/
theorem ArriveOk.step (h : ArriveOk C s) (hguard : Announced C s a)
    (hstep : (machine C).step s a = some t) : ArriveOk C t := by
  have hhandover := h.handover.step hstep
  rcases step_cases h.handover.order hstep with hmove | ⟨gs, hpc, -, rfl⟩ |
    ⟨ok, rfl, hsub⟩
  · exact h.publishers hmove hhandover
  · refine h.goto hhandover ?_ trivial fun g hat => ?_
    · unfold Subscription.pending
      rw [hpc]
      rfl
    · rw [hpc] at hat
      exact hat
  · exact h.subStep hguard hsub hhandover

end Step

/-! ## Every run -/

/-- The subscription waits for its next drain. -/
def SubPc.isReady : SubPc G → Bool
  | .ready => true
  | _ => false

theorem SubPc.eq_ready {pc : SubPc G} (h : pc.isReady = true) : pc = .ready := by
  unfold isReady at h
  split at h
  · rfl
  · cases h

variable [DecidableEq G] [DecidableEq T]

/-- One publisher of depth 3. -/
def deepPublisher : Config Unit :=
  { onePublisher with depth := fun _ => 3 }

end RmwUnixSocket.Latch.Replay
