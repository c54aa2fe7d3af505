import RmwUnixSocket.Latch.Handover

/-!
# What the watermark swallows

A drain drops a datagram whose sequence number is at or below the watermark
of its publisher.  The watermark is one number, so it stands for every sample
up to it, also for samples that the pull has not seen:

* A sample that was latched behind the scan is older than what the scan still
  finds.  The prefix of an overlapped snapshot starts with its oldest record,
  and nothing checks that this record follows what was in the ring before.
* A sample that was not latched leaves a gap.  Without an overlap the gap is
  taken for the slot of a dead writer.

`Gapless` is the condition that neither happens: when the enqueue loop turns
to a record, every older sample that has been sent was in the ring when the
scan came to its slot.  Under it the watermark swallows only what the pull has
enqueued, what the depth limit has cut, and what was overwritten before the
scan left its slot (`watermark_swallows`).
-/

namespace RmwUnixSocket.Latch.Replay

open SlotRing (slotOf)

variable {G T : Type}

/-! ## The condition -/

/-- Sample `m` of `g` has been sent to the subscription. -/
def Subscription.Sent (sub : Subscription G) (g : G) (m : Nat) : Prop :=
  ∃ d ∈ sub.sent, d.header.gid = g ∧ d.header.sequenceNumber = m

/-- Record `n` of `g` was overwritten before the scan left its slot. -/
def State.Overwritten (s : State G T) (C : Config G) (g : G) (n : Nat) :
    Prop :=
  n + C.slots g ≤ (s.sub.trace g).left (slotOf (C.slots g) n)

/-- Sample `m` of `g` was committed when the scan last came to its slot, or
it was overwritten before the scan left the slot. -/
def State.Reached (s : State G T) (C : Config G) (g : G) (m : Nat) : Prop :=
  ∃ n < (s.pubs g).writer.marks.length + 1, 0 < n ∧
    (∃ r ∈ (s.pubs g).writer.marks[n - 1]?, r.sequenceNumber = m) ∧
    (n ≤ (s.sub.trace g).seen (slotOf (C.slots g) n) ∨ s.Overwritten C g n)

/-- When the enqueue loop turns to a record, every older sample that has been
sent was in the ring when the scan came to its slot. -/
def Gapless (C : Config G) (s : State G T) : Act G T → Prop
  | .sub _ =>
    match s.sub.pc with
    | .enqueue g _ (rec :: _) _ =>
      ∀ m < rec.sequenceNumber, s.sub.Sent g m → s.Reached C g m
    | _ => True
  | _ => True

section Decide

variable [DecidableEq G] (C : Config G) (s : State G T)

instance (sub : Subscription G) (g : G) (m : Nat) : Decidable (sub.Sent g m) :=
  inferInstanceAs (Decidable (∃ _ ∈ _, _ ∧ _))

instance (g : G) (n : Nat) : Decidable (s.Overwritten C g n) :=
  inferInstanceAs (Decidable (_ ≤ _))

instance (g : G) (m : Nat) : Decidable (s.Reached C g m) :=
  inferInstanceAs (Decidable (∃ _ < _, _ ∧ _ ∧ _))

instance (a : Act G T) : Decidable (Gapless C s a) := by
  unfold Gapless
  split
  · split
    · infer_instance
    · infer_instance
  · infer_instance

end Decide

/-! ## The invariant -/

/-- Sample `m` of `g` has been sent, or it may still be sent. -/
def State.Arrives (s : State G T) (g : G) (m : Nat) : Prop :=
  s.sub.Sent g m ∨ (s.pubs g).nextSent ≤ m

/-- What may be dropped: the pull has enqueued sample `m` of `g`, the depth
limit has cut it, or its record was overwritten before the scan left its
slot. -/
def State.Excused (s : State G T) (C : Config G) (g : G) (m : Nat) : Prop :=
  s.sub.Replayed g m ∨
    (∃ rec ∈ (s.sub.trace g).collected, rec.sequenceNumber = m ∧
      rec ∉ (s.sub.trace g).kept) ∨
    ∃ n r, (s.pubs g).writer.Marked n r ∧ r.sequenceNumber = m ∧
      s.Overwritten C g n

/-- The invariant of the system. -/
structure SwallowOk (C : Config G) (s : State G T) : Prop where
  handover : HandoverOk C s
  socket : s.sub.socket ⊆ s.sub.sent
  taken : ∀ d, s.sub.pc = .dedup d → d ∈ s.sub.sent
  stored : ∀ g watermark, s.sub.watermarks g = some watermark →
    ∀ m ≤ watermark, s.Arrives g m → s.Excused C g m
  loop : ∀ g todo rest maxSeq, s.sub.pc = .enqueue g todo rest maxSeq →
    ∀ m ≤ maxSeq, s.Arrives g m →
      s.Excused C g m ∨ ∃ rec ∈ rest, m ≤ rec.sequenceNumber

theorem SwallowOk.init [Inhabited G] (C : Config G) :
    SwallowOk C (State.init G T) where
  handover := .init C
  socket := List.Subset.refl _
  taken := nofun
  stored := nofun
  loop := nofun

section Step

variable {C : Config G} {s t : State G T} {g : G} {m : Nat}

theorem State.Excused.mono (h : s.Excused C g m)
    (henqueued : s.sub.enqueued ⊆ t.sub.enqueued)
    (htrace : t.sub.trace g = s.sub.trace g)
    (hmarks : (s.pubs g).writer.marks <+: (t.pubs g).writer.marks) :
    t.Excused C g m := by
  unfold State.Excused State.Overwritten
  rw [htrace]
  refine h.imp (fun hreplayed => hreplayed.mono henqueued) (Or.imp_right ?_)
  rintro ⟨n, r, hr, hrest⟩
  exact ⟨n, r, hr.extend hmarks, hrest⟩

/-- What may arrive later may arrive now. -/
theorem PublishersMove.arrives (h : PublishersMove C s t)
    (harrives : t.Arrives g m) : s.Arrives g m := by
  rcases harrives with ⟨d, hd, hgid, hseq⟩ | hnext
  · rcases h.sent with ⟨hsent, -⟩ | ⟨d', hsent, -, hnew, -⟩
    · rw [hsent] at hd
      exact .inl ⟨d, hd, hgid, hseq⟩
    · rw [hsent] at hd
      rcases List.mem_append.mp hd with hold | hlast
      · exact .inl ⟨d, hold, hgid, hseq⟩
      · rw [List.mem_singleton.mp hlast] at hgid hseq
        rw [hgid, hseq] at hnew
        exact .inr (Nat.le_of_eq hnew.symm)
  · exact .inr (Nat.le_trans (h.later g).nextSent hnext)

theorem SwallowOk.publishers (h : SwallowOk C s) (hmove : PublishersMove C s t)
    (hhandover : HandoverOk C t) : SwallowOk C t := by
  have hexcused : ∀ g m, s.Excused C g m → t.Excused C g m := by
    intro g m hex
    refine hex.mono ?_ (congrFun hmove.trace g) (hmove.later g).writer.marks
    rw [hmove.enqueued]
    exact List.Subset.refl _
  have hsent : s.sub.sent ⊆ t.sub.sent ∧ t.sub.socket ⊆ t.sub.sent := by
    rcases hmove.sent with ⟨hsent, hsocket⟩ | ⟨d, hsent, hsocket, -⟩
    · rw [hsent, hsocket]
      exact ⟨List.Subset.refl _, h.socket⟩
    · rw [hsent, hsocket]
      exact ⟨List.subset_append_left _ _,
        fun a ha => (List.mem_append.mp ha).elim
          (fun hin => List.mem_append_left _ (h.socket hin))
          fun hlast => List.mem_append_right _ hlast⟩
  refine ⟨hhandover, hsent.2, fun d hpc => ?_,
    fun g watermark hstored m hm harrives => ?_,
    fun g todo rest maxSeq hpc m hm harrives => ?_⟩
  · rw [hmove.pc] at hpc
    exact hsent.1 (h.taken d hpc)
  · rw [hmove.watermarks] at hstored
    exact hexcused g m (h.stored g watermark hstored m hm (hmove.arrives harrives))
  · rw [hmove.pc] at hpc
    exact (h.loop g todo rest maxSeq hpc m hm (hmove.arrives harrives)).imp_left
      (hexcused g m)

/-- The watermarks that are stored, after a step of the subscription. -/
theorem SwallowOk.stored_of (h : SwallowOk C s) (hpubs : t.pubs = s.pubs)
    (hsent : t.sub.sent = s.sub.sent)
    (henqueued : s.sub.enqueued ⊆ t.sub.enqueued) {watermark : Nat}
    (hstored : s.sub.watermarks g = some watermark)
    (htrace : t.sub.trace g = s.sub.trace g) (hm : m ≤ watermark)
    (harrives : t.Arrives g m) : t.Excused C g m := by
  unfold State.Arrives Subscription.Sent at harrives
  rw [hpubs, hsent] at harrives
  have hmarks : (t.pubs g).writer.marks = (s.pubs g).writer.marks := by rw [hpubs]
  refine (h.stored g watermark hstored m hm harrives).mono henqueued htrace ?_
  exact hmarks ▸ List.prefix_rfl

theorem SwallowOk.quiet (h : SwallowOk C s) (hquiet : Quiet s t)
    (hhandover : HandoverOk C t) : SwallowOk C t := by
  refine ⟨hhandover, ?_, fun d hpc => ?_,
    fun g watermark hstored m hm harrives => ?_,
    fun g todo rest maxSeq hpc => absurd hpc (hquiet.outside g todo rest maxSeq)⟩
  · rw [hquiet.sent]
    exact fun d hd => h.socket (hquiet.socket.subset hd)
  · rw [hquiet.sent]
    exact h.socket (hquiet.taken d hpc)
  · rw [hquiet.watermarks] at hstored
    refine h.stored_of hquiet.pubs hquiet.sent hquiet.enqueued hstored
      (hquiet.trace g ?_) hm harrives
    rw [hstored]
    nofun

variable {todo : List G} {rest : List (TlPulledRecord G)} {maxSeq : Nat}

/-- The watermark of a snapshot is one of its records, or the depth limit has
cut nothing above it. -/
theorem exists_le_of_claimed {sc : Scan G} {overlapped : Bool} {depth : Nat}
    (hmax : sc.MaxOk) (hascending : Keyed.Ascending
      TlPulledRecord.sequenceNumber
      (Keyed.sortBy TlPulledRecord.sequenceNumber sc.records))
    (hne : claimed overlapped (sortedNewest depth sc.records) ≠ []) :
    ∃ rec ∈ claimed overlapped (sortedNewest depth sc.records),
      (if overlapped then
        lastSequence (claimed overlapped (sortedNewest depth sc.records))
      else sc.maxSeq) ≤ rec.sequenceNumber := by
  cases overlapped with
  | true =>
    refine ⟨_, List.getLast_mem hne, ?_⟩
    rw [if_pos rfl, lastSequence, List.getLast?_eq_some_getLast hne]
    exact Nat.le_refl _
  | false =>
    have hkept : sortedNewest depth sc.records ≠ [] := hne
    refine ⟨_, List.getLast_mem hkept, ?_⟩
    rw [if_neg Bool.false_ne_true]
    rcases hmax.mem with hzero | ⟨rec, hrec, hseq⟩
    · omega
    · obtain ⟨cut, hcut⟩ := Keyed.newest_suffix depth
        (Keyed.sortBy TlPulledRecord.sequenceNumber sc.records)
      rw [← hseq]
      have hmem : rec ∈ Keyed.sortBy TlPulledRecord.sequenceNumber sc.records :=
        Keyed.mem_sortBy.mpr hrec
      rw [← hcut] at hascending hmem
      obtain ⟨-, hafter, hbefore⟩ := List.pairwise_append.mp hascending
      rcases List.mem_append.mp hmem with hold | hin
      · exact Nat.le_of_lt (hbefore rec hold _ (List.getLast_mem hkept))
      · exact Keyed.Ascending.le_getLast hafter hin hkept

variable [DecidableEq G]

theorem SwallowOk.handed (h : SwallowOk C s) {sc : Scan G} {overlapped : Bool}
    (hpc : s.sub.pc = .pull g todo (.done sc overlapped))
    (hhanded : Handed C s t g todo sc overlapped rest maxSeq)
    (hhandover : HandoverOk C t) : SwallowOk C t := by
  have hphase := h.handover.order.sub.phase
  rw [hpc] at hphase
  obtain ⟨-, -, hcollects, -, hmax⟩ := hphase
  have hnone : s.sub.watermarks g = none :=
    h.handover.ahead g (by rw [hpc]; exact List.mem_cons_self)
  have hascending := Keyed.sortBy_ascending
    (records_distinct hcollects (h.handover.order.pubs g)).1
  obtain ⟨rfl, hne, rfl, rfl⟩ := hhanded
  refine ⟨hhandover, h.socket, nofun, fun g' watermark hstored m hm harrives => ?_,
    fun g' todo' rest' maxSeq' hpc' m hm _ => ?_⟩
  · refine h.stored_of rfl rfl (List.Subset.refl _) hstored ?_ hm harrives
    refine Function.update_of_ne ?_ _ _
    rintro rfl
    rw [show s.sub.watermarks g' = some watermark from hstored] at hnone
    cases hnone
  · cases hpc'
    obtain ⟨rec, hrec, hle⟩ := exists_le_of_claimed hmax hascending hne
    exact .inr ⟨rec, hrec, Nat.le_trans hm hle⟩

/-- When the loop is at a record, the older samples are excused. -/
theorem SwallowOk.excused_of_lt (h : SwallowOk C s) {rec : TlPulledRecord G}
    (hpc : s.sub.pc = .enqueue g todo (rec :: rest) maxSeq)
    (hgapless : ∀ m < rec.sequenceNumber, s.sub.Sent g m → s.Reached C g m)
    (hlt : m < rec.sequenceNumber) (harrives : s.Arrives g m) :
    s.Excused C g m := by
  have hhistory := h.handover.history g (.inr ⟨todo, _, maxSeq, hpc⟩)
  have hloop := h.handover.loop g todo _ maxSeq hpc
  have hsent : s.sub.Sent g m := by
    refine harrives.resolve_right fun hnext => ?_
    have hle := (h.handover.head hpc).2.2
    omega
  obtain ⟨n, -, hn, ⟨r, hget, hseq⟩, hfound⟩ := hgapless m hlt hsent
  have hr : (s.pubs g).writer.Marked n r := ⟨hn, hget⟩
  rcases hfound with hseen | hover
  · rcases hhistory.swept n r hr hseen with hover | ⟨rec', hrec', hheader⟩
    · exact .inr (.inr ⟨n, r, hr, hseq, hover⟩)
    · have hseq' : rec'.sequenceNumber = m := by
        rw [TlPulledRecord.sequenceNumber, hheader]
        exact hseq
      by_cases hkept : rec' ∈ (s.sub.trace g).kept
      · have hreplayed := hloop.replayed hhistory.ascending hkept (by omega)
        rw [hseq'] at hreplayed
        exact .inl hreplayed
      · exact .inr (.inl ⟨rec', hrec', hseq', hkept⟩)
  · exact .inr (.inr ⟨n, r, hr, hseq, hover⟩)

theorem SwallowOk.enqueueStep {ok : Bool} (h : SwallowOk C s)
    (hpc : s.sub.pc = .enqueue g todo rest maxSeq)
    (hguard : Gapless C s (.sub ok))
    (hhandover : HandoverOk C (enqueueStep C s g todo maxSeq ok rest)) :
    SwallowOk C (enqueueStep C s g todo maxSeq ok rest) := by
  have hphase := h.handover.order.sub.phase
  rw [hpc] at hphase
  obtain ⟨-, -, hrest⟩ := hphase
  have hnone : s.sub.watermarks g = none :=
    h.handover.ahead g (by rw [hpc]; exact List.mem_cons_self)
  cases rest with
  | nil =>
    simp only [Replay.enqueueStep] at hhandover ⊢
    refine ⟨hhandover, h.socket, fun d hd => (by cases hd),
      fun g' watermark hstored m hm harrives => ?_,
      fun _ _ _ _ hloop => (by cases hloop)⟩
    by_cases hown : g' = g
    · subst hown
      simp only [State.note, Function.update_self, Option.some.injEq] at hstored
      subst hstored
      rcases h.loop g' todo [] _ hpc m hm harrives with hex | ⟨rec, hrec, -⟩
      · -- Only the ghost `ended` of the trace has changed.
        refine hex.imp id (Or.imp ?_ ?_)
        · simp only [State.note, Function.update_self]
          exact id
        · simp only [State.Overwritten, State.note, Function.update_self]
          exact id
      · cases hrec
    · simp only [State.note, Function.update_of_ne hown] at hstored
      refine h.stored_of rfl rfl (List.Subset.refl _) hstored ?_ hm harrives
      exact Function.update_of_ne hown _ _
  | cons rec rest =>
    have hgid := hrest.gid rec List.mem_cons_self
    have hgapless : ∀ m < rec.sequenceNumber, s.sub.Sent g m →
        s.Reached C g m := by
      unfold Gapless at hguard
      rw [hpc] at hguard
      exact hguard
    have hexcused := fun m hlt harrives =>
      h.excused_of_lt (m := m) hpc hgapless hlt harrives
    simp only [Replay.enqueueStep] at hhandover ⊢
    split at hhandover
    · rename_i d hd
      obtain ⟨hdgid, hdseq⟩ := resolve_header hd
      simp only at hdgid hdseq
      have hold : s.sub.enqueued ⊆ ((s.enqueue C.queueDepth d false).subGoto
          (.enqueue g todo rest maxSeq)).sub.enqueued :=
        List.subset_append_left _ _
      refine ⟨hhandover, h.socket, fun d hd => (by cases hd),
        fun g' watermark hstored m hm harrives =>
          h.stored_of rfl rfl hold hstored rfl hm harrives,
        fun g' todo' rest' maxSeq' hpc' m hm harrives => ?_⟩
      cases hpc'
      have hmono : ∀ {m}, s.Excused C g m → _ := fun hex =>
        State.Excused.mono hex hold rfl List.prefix_rfl
      rcases h.loop g todo (rec :: rest) maxSeq hpc m hm harrives with
        hex | ⟨rec', hrec', hle⟩
      · exact .inl (hmono hex)
      · rcases List.mem_cons.mp hrec' with rfl | hin
        · rcases Nat.lt_or_eq_of_le hle with hlt | heq
          · exact .inl (hmono (hexcused m hlt harrives))
          · refine .inl (.inl ⟨{ header := d.header, live := false },
              List.mem_append_right _ (List.mem_singleton.mpr rfl), rfl,
              hdgid.trans hgid, ?_⟩)
            rw [heq]
            exact hdseq
        · exact .inr ⟨rec', hin, hle⟩
    · refine ⟨hhandover, h.socket, fun d hd => (by cases hd),
        fun g' watermark hstored m hm harrives =>
          h.stored_of rfl rfl (List.Subset.refl _) hstored rfl hm harrives,
        fun g' todo' rest' maxSeq' hpc' m hm harrives => ?_⟩
      cases hpc'
      have hpos := (h.handover.head hpc).2.1
      exact .inl ((hexcused m (by omega) harrives).mono (List.Subset.refl _) rfl
        List.prefix_rfl)

variable [DecidableEq T] {a : Act G T}

/-- Every step that meets the condition keeps the invariant. -/
theorem SwallowOk.step (h : SwallowOk C s) (hguard : Gapless C s a)
    (hstep : (machine C).step s a = some t) : SwallowOk C t := by
  have hhandover := h.handover.step hstep
  rcases step_cases h.handover.order hstep with hmove | ⟨gs, hpc, -, rfl⟩ |
    ⟨ok, rfl, hsub⟩
  · exact h.publishers hmove hhandover
  · exact h.quiet (.query hpc) hhandover
  · rcases subStep_cases h.handover.ahead hsub with hquiet |
      ⟨g, todo, sc, overlapped, rest, maxSeq, hpc, hhanded⟩ |
      ⟨g, todo, rest, maxSeq, hpc, rfl⟩
    · exact h.quiet hquiet hhandover
    · exact h.handed hpc hhanded hhandover
    · exact h.enqueueStep hpc hguard hhandover

end Step

/-! ## Every run -/

/-- The drain drops `d`: it is at or below the watermark of its publisher. -/
def Subscription.Swallows (sub : Subscription G) (d : Datagram G) : Prop :=
  sub.pc = .dedup d ∧ d.header.msgType = 0 ∧ sub.duplicate d = true

variable [DecidableEq G] [DecidableEq T]

/-- The number of the datagram that is being swallowed. -/
def Subscription.swallowed (sub : Subscription G) : Option Nat :=
  match sub.pc with
  | .dedup d =>
    if d.header.msgType = 0 ∧ sub.duplicate d = true then
      some d.header.sequenceNumber
    else none
  | _ => none

omit [DecidableEq G] [DecidableEq T] in
theorem Subscription.exists_swallows {sub : Subscription G} {m : Nat}
    (h : sub.swallowed = some m) :
    ∃ d, sub.Swallows d ∧ d.header.sequenceNumber = m := by
  unfold swallowed at h
  split at h
  · rename_i d hpc
    split at h
    · rename_i hdrop
      exact ⟨d, ⟨hpc, hdrop⟩, Option.some.inj h⟩
    · cases h
  · cases h

end RmwUnixSocket.Latch.Replay
