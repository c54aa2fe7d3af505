import RmwUnixSocket.Latch.Publish

/-!
# Samples enter the queue in order

For each publisher the sequence numbers that enter the queue grow, and the
pulled history comes before every live sample
(`subscription_enqueues_in_order`).  There is no condition: this holds for
any number of publishers and threads, for lost datagrams and failing system
calls, and for any number of latches during a scan.

The invariant follows the watermark.  What was pulled from a publisher is at
or below it (`Settled`), what was received live is below everything that is
still in the socket or still to be sent (`Drained`), and a datagram that has
passed the check is above it.
-/

namespace RmwUnixSocket.Latch.Replay

open SlotRing (slotOf)

variable {G T : Type}

/-! ## The invariant -/

/-- The datagram that the drain has taken from the socket. -/
def SubPc.inHand : SubPc G → List (Datagram G)
  | .dedup d | .resolve d | .push d => [d]
  | _ => []

/-- The datagrams that the subscription has not handled yet. -/
def Subscription.pending (sub : Subscription G) : List (Datagram G) :=
  sub.pc.inHand ++ sub.socket

/-- `a` may come before `b` in the queue. -/
def Precedes (a b : Enqueued G) : Prop :=
  (a.header.gid = b.header.gid →
    a.header.sequenceNumber < b.header.sequenceNumber) ∧
  (b.live = false → a.live = false)

/-- A pulled sample is at or below its publisher's watermark. -/
def Subscription.Settled (sub : Subscription G) (e : Enqueued G) : Prop :=
  e.live = false ∧ ∃ watermark, sub.watermarks e.header.gid = some watermark ∧
    e.header.sequenceNumber ≤ watermark

/-- A live sample is below everything that its publisher has still to send or
has sent and is not handled. -/
structure Drained (pubs : G → Publisher G T) (sub : Subscription G)
    (e : Enqueued G) : Prop where
  live : e.live = true
  sent : e.header.sequenceNumber < (pubs e.header.gid).nextSent
  before : ∀ d ∈ sub.pending, d.header.gid = e.header.gid →
    e.header.sequenceNumber < d.header.sequenceNumber

/-- A sample of the publisher that is being pulled from. -/
def Replaying (g : G) (rest : List (TlPulledRecord G)) (maxSeq : Nat)
    (e : Enqueued G) : Prop :=
  e.live = false ∧ e.header.gid = g ∧ e.header.sequenceNumber ≤ maxSeq ∧
    ∀ rec ∈ rest, e.header.sequenceNumber < rec.sequenceNumber

/-- The records that are still to be enqueued. -/
structure RestOk (g : G) (rest : List (TlPulledRecord G)) (maxSeq : Nat) :
    Prop where
  ascending : Keyed.Ascending TlPulledRecord.sequenceNumber rest
  gid : ∀ rec ∈ rest, rec.header.gid = g
  le : ∀ rec ∈ rest, rec.sequenceNumber ≤ maxSeq

/-- What is known about a pull. -/
def PullScanOk (slots : Nat) (w : Writer G) (trace : PullTrace G) :
    PullPc G → Prop
  | .idle => True
  | .scan sc =>
    Collects slots w sc trace.seen trace.left ∧ sc.slot < slots ∧ sc.MaxOk
  | .check sc _ | .done sc _ =>
    Collects slots w sc trace.seen trace.left ∧ sc.slot = slots ∧ sc.MaxOk

/-- What is known about the queue, by where the subscription is. -/
def PhaseOk (C : Config G) (pubs : G → Publisher G T) (sub : Subscription G) :
    SubPc G → Prop
  | .register | .bump | .query => sub.enqueued = []
  | .next todo => todo.Nodup ∧
    ∀ e ∈ sub.enqueued, sub.Settled e ∧ e.header.gid ∉ todo
  | .pull g todo pull => (g :: todo).Nodup ∧
    (∀ e ∈ sub.enqueued, sub.Settled e ∧ e.header.gid ∉ g :: todo) ∧
    PullScanOk (C.slots g) (pubs g).writer (sub.trace g) pull
  | .enqueue g todo rest maxSeq => (g :: todo).Nodup ∧
    (∀ e ∈ sub.enqueued, sub.Settled e ∧ e.header.gid ∉ g :: todo ∨
      Replaying g rest maxSeq e) ∧ RestOk g rest maxSeq
  | .ready | .dedup _ =>
    ∀ e ∈ sub.enqueued, sub.Settled e ∨ Drained pubs sub e
  | .resolve d | .push d =>
    (∀ e ∈ sub.enqueued, sub.Settled e ∨ Drained pubs sub e) ∧
    ∀ watermark, sub.watermarks d.header.gid = some watermark →
      watermark < d.header.sequenceNumber

/-- The invariant of the subscription. -/
structure SubOk (C : Config G) (pubs : G → Publisher G T)
    (sub : Subscription G) : Prop where
  sent : ∀ d ∈ sub.pending,
    d.header.sequenceNumber < (pubs d.header.gid).nextSent
  fifo : sub.pending.Pairwise fun a b => a.header.gid = b.header.gid →
    a.header.sequenceNumber < b.header.sequenceNumber
  order : sub.enqueued.Pairwise Precedes
  phase : PhaseOk C pubs sub sub.pc

/-- The invariant of the system. -/
structure OrderOk (C : Config G) (s : State G T) : Prop where
  pubs : ∀ g, PubOk (C.slots g) g (s.pubs g)
  sub : SubOk C s.pubs s.sub

theorem OrderOk.init [Inhabited G] (C : Config G) :
    OrderOk C (State.init G T) where
  pubs g := .init (C.slots g) g
  sub :=
    { sent := nofun
      fifo := .nil
      order := .nil
      phase := rfl }

/-! ## Steps of the publishers -/

section Publishers

variable {C : Config G} {pubs pubs' : G → Publisher G T}
  {sub sub' : Subscription G}

theorem PullScanOk.later {slots : Nat} {w w' : Writer G} {trace : PullTrace G}
    {pull : PullPc G} (h : PullScanOk slots w trace pull)
    (hw : WriterOk slots w) (hlater : w.Later slots w') :
    PullScanOk slots w' trace pull := by
  cases pull with
  | idle => trivial
  | scan sc => exact ⟨h.1.later hw hlater, h.2⟩
  | check sc j => exact ⟨h.1.later hw hlater, h.2⟩
  | done sc overlapped => exact ⟨h.1.later hw hlater, h.2⟩

/-- The publishers go on, and the subscription has received nothing or one
more datagram. -/
theorem SubOk.later (h : SubOk C pubs sub)
    (hpubs : ∀ g, PubOk (C.slots g) g (pubs g))
    (hlater : ∀ g, PubLater (C.slots g) (pubs g) (pubs' g))
    (hsame : sub'.pc = sub.pc ∧ sub'.enqueued = sub.enqueued ∧
      sub'.watermarks = sub.watermarks ∧ sub'.trace = sub.trace)
    (hsent : ∀ d ∈ sub'.pending, d ∈ sub.pending ∨
      d.header.sequenceNumber = (pubs d.header.gid).nextSent ∧
      d.header.sequenceNumber < (pubs' d.header.gid).nextSent)
    (hfifo : sub'.pending.Pairwise fun a b => a.header.gid = b.header.gid →
      a.header.sequenceNumber < b.header.sequenceNumber) :
    SubOk C pubs' sub' := by
  obtain ⟨hpc, henqueued, hwatermarks, htrace⟩ := hsame
  have hsettled : ∀ e, sub.Settled e → sub'.Settled e := by
    intro e he
    unfold Subscription.Settled
    rw [hwatermarks]
    exact he
  have hdrained : ∀ e, Drained pubs sub e → Drained pubs' sub' e := by
    intro e he
    refine ⟨he.live, Nat.lt_of_lt_of_le he.sent (hlater _).nextSent, ?_⟩
    intro d hd hgid
    rcases hsent d hd with hold | ⟨hnew, -⟩
    · exact he.before d hold hgid
    · rw [hnew, hgid]
      exact he.sent
  have hphase := h.phase
  refine ⟨fun d hd => ?_, hfifo, ?_, ?_⟩
  · rcases hsent d hd with hold | ⟨-, hnew⟩
    · exact Nat.lt_of_lt_of_le (h.sent d hold) (hlater _).nextSent
    · exact hnew
  · rw [henqueued]
    exact h.order
  · rw [hpc]
    generalize sub.pc = pc at hphase ⊢
    cases pc with
    | register => exact henqueued.trans hphase
    | bump => exact henqueued.trans hphase
    | query => exact henqueued.trans hphase
    | next todo =>
      refine ⟨hphase.1, fun e he => ?_⟩
      rw [henqueued] at he
      exact (hphase.2 e he).imp_left (hsettled e)
    | pull g todo pull =>
      refine ⟨hphase.1, fun e he => ?_, ?_⟩
      · rw [henqueued] at he
        exact (hphase.2.1 e he).imp_left (hsettled e)
      · rw [htrace]
        exact hphase.2.2.later (hpubs g).writer (hlater g).writer
    | enqueue g todo rest maxSeq =>
      refine ⟨hphase.1, fun e he => ?_, hphase.2.2⟩
      rw [henqueued] at he
      exact (hphase.2.1 e he).imp_left (And.imp_left (hsettled e))
    | ready =>
      intro e he
      rw [henqueued] at he
      exact (hphase e he).imp (hsettled e) (hdrained e)
    | dedup d =>
      intro e he
      rw [henqueued] at he
      exact (hphase e he).imp (hsettled e) (hdrained e)
    | resolve d =>
      refine ⟨fun e he => ?_, ?_⟩
      · rw [henqueued] at he
        exact (hphase.1 e he).imp (hsettled e) (hdrained e)
      · rw [hwatermarks]
        exact hphase.2
    | push d =>
      refine ⟨fun e he => ?_, ?_⟩
      · rw [henqueued] at he
        exact (hphase.1 e he).imp (hsettled e) (hdrained e)
      · rw [hwatermarks]
        exact hphase.2

/-- The publishers go on, and nothing is sent. -/
theorem SubOk.quiet (h : SubOk C pubs sub)
    (hpubs : ∀ g, PubOk (C.slots g) g (pubs g))
    (hlater : ∀ g, PubLater (C.slots g) (pubs g) (pubs' g)) :
    SubOk C pubs' sub :=
  h.later hpubs hlater ⟨rfl, rfl, rfl, rfl⟩ (fun _ hd => .inl hd) h.fifo

/-- A thread enters the critical section of `g`. -/
theorem PubOk.lock {slots : Nat} {g : G} {pub : Publisher G T}
    (h : PubOk slots g pub) (hnone : pub.crit = none) (crit : Crit G T) :
    PubOk slots g (pub.goto crit .assign) ∧
      PubLater slots pub (pub.goto crit .assign) := by
  have hidle : pub.writer.pc.record = none := by
    by_contra hbusy
    obtain ⟨crit', hdr, hcrit', -⟩ := h.busy hbusy
    rw [hnone] at hcrit'
    cases hcrit'
  exact h.finish hidle rfl rfl rfl

variable [DecidableEq G] {g : G}

/-- One publisher changes. -/
theorem pubs_update {pub' : Publisher G T}
    (hpubs : ∀ g, PubOk (C.slots g) g (pubs g))
    (hok : PubOk (C.slots g) g pub') (hlater : PubLater (C.slots g) (pubs g) pub') :
    (∀ g', PubOk (C.slots g') g' (Function.update pubs g pub' g')) ∧
      ∀ g', PubLater (C.slots g') (pubs g') (Function.update pubs g pub' g') := by
  constructor
  · intro g'
    by_cases hg : g' = g
    · subst hg
      rw [Function.update_self]
      exact hok
    · rw [Function.update_of_ne hg]
      exact hpubs g'
  · intro g'
    by_cases hg : g' = g
    · subst hg
      rw [Function.update_self]
      exact hlater
    · rw [Function.update_of_ne hg]
      exact .refl _ _

variable [DecidableEq T] {s : State G T} {ok : Bool}

/-- A step of a critical section. -/
theorem OrderOk.critStep {crit : Crit G T} (h : OrderOk C s)
    (hcrit : (s.pubs g).crit = some crit) :
    OrderOk C (critStep C s g crit ok) := by
  obtain ⟨pub', hdone⟩ :
      ∃ pub', CritDone C s (Replay.critStep C s g crit ok) g crit ok pub' :=
    critStep_done (h.pubs g) hcrit
  obtain ⟨hpubs', hlater⟩ := pubs_update h.pubs hdone.inv hdone.later
  refine ⟨by rw [hdone.pubs]; exact hpubs', ?_⟩
  rw [hdone.pubs]
  rcases hdone.sub with hsub | ⟨hdr, latched, hpc, -, hsub⟩
  · rw [hsub]
    exact h.sub.quiet h.pubs hlater
  · have hunsent : (s.pubs g).unsent = some hdr := by
      rw [unsent_eq hcrit, hpc]
      rfl
    have hhdr := (h.pubs g).unsent hdr hunsent
    obtain ⟨hgid, hseq, -⟩ := datagram_header crit.call hdr latched
    have hnew := hdone.next hdr latched true hpc
    have hpending : (s.deliver (crit.call.datagram hdr latched)).sub.pending =
        s.sub.pending ++ [crit.call.datagram hdr latched] :=
      (List.append_assoc _ _ _).symm
    rw [hsub]
    refine h.sub.later h.pubs hlater ⟨rfl, rfl, rfl, rfl⟩ (fun d hd => ?_) ?_
    · rw [hpending] at hd
      rcases List.mem_append.mp hd with hold | hlast
      · exact .inl hold
      · rw [List.mem_singleton.mp hlast, hgid, hseq, hhdr.1]
        refine .inr ⟨(nextSent_of_unsent hunsent).symm, ?_⟩
        rw [Function.update_self, hnew]
        exact Nat.lt_succ_self _
    · rw [hpending]
      refine List.pairwise_append.mpr ⟨h.sub.fifo, List.pairwise_singleton _ _,
        fun a ha b hb hab => ?_⟩
      have hlt := h.sub.sent a ha
      rw [List.mem_singleton.mp hb] at hab ⊢
      rw [hab, hgid, hhdr.1, nextSent_of_unsent hunsent] at hlt
      rw [hseq]
      exact hlt

omit [DecidableEq T] in
/-- A thread gets the lock of `g`. -/
theorem OrderOk.lock (h : OrderOk C s) (hnone : (s.pubs g).crit = none)
    (crit : Crit G T) : OrderOk C (s.critGoto g crit (s.pubs g) .assign) := by
  obtain ⟨hinv, hlater⟩ := (h.pubs g).lock hnone crit
  obtain ⟨hpubs', hlater'⟩ := pubs_update h.pubs hinv hlater
  exact ⟨hpubs', h.sub.quiet h.pubs hlater'⟩

end Publishers

/-! ## Steps of the subscription -/

section Subscriber

variable {C : Config G} {pubs : G → Publisher G T} {sub sub' : Subscription G}
  {g : G} {todo : List G} {d : Datagram G} {e : Enqueued G}

/-- The subscription goes on with what it has, or with less in its socket. -/
theorem SubOk.move (h : SubOk C pubs sub)
    (hpending : sub'.pending.Sublist sub.pending)
    (henqueued : sub'.enqueued = sub.enqueued)
    (hphase : PhaseOk C pubs sub' sub'.pc) : SubOk C pubs sub' where
  sent d hd := h.sent d (hpending.subset hd)
  fifo := h.fifo.sublist hpending
  order := by
    rw [henqueued]
    exact h.order
  phase := hphase

/-- A message enters the queue. -/
theorem SubOk.enqueue (h : SubOk C pubs sub)
    (hpending : sub'.pending.Sublist sub.pending)
    (henqueued : sub'.enqueued = sub.enqueued ++ [e])
    (hlast : ∀ a ∈ sub.enqueued, Precedes a e)
    (hphase : PhaseOk C pubs sub' sub'.pc) : SubOk C pubs sub' where
  sent d hd := h.sent d (hpending.subset hd)
  fifo := h.fifo.sublist hpending
  order := by
    rw [henqueued]
    refine List.pairwise_append.mpr ⟨h.order, List.pairwise_singleton _ _,
      fun a ha b hb => ?_⟩
    rw [List.mem_singleton.mp hb]
    exact hlast a ha
  phase := hphase

theorem Drained.sublist (h : Drained pubs sub e)
    (hpending : sub'.pending.Sublist sub.pending) : Drained pubs sub' e where
  live := h.live
  sent := h.sent
  before d hd := h.before d (hpending.subset hd)

/-- The handled samples, after a step that leaves the watermarks alone. -/
theorem handled_sublist (h : ∀ e ∈ sub.enqueued, sub.Settled e ∨
      Drained pubs sub e) (hpending : sub'.pending.Sublist sub.pending)
    (henqueued : sub'.enqueued = sub.enqueued)
    (hwatermarks : sub'.watermarks = sub.watermarks) :
    ∀ e ∈ sub'.enqueued, sub'.Settled e ∨ Drained pubs sub' e := by
  intro e he
  rw [henqueued] at he
  refine (h e he).imp (fun hsettled => ?_) fun hdrained =>
    hdrained.sublist hpending
  unfold Subscription.Settled
  rw [hwatermarks]
  exact hsettled

/-- `shm_resolve_incoming` keeps the GID and the sequence number. -/
theorem resolve_header {s : State G T} {d' : Datagram G} {ok : Bool}
    (h : s.resolve d ok = some d') : d'.header.gid = d.header.gid ∧
      d'.header.sequenceNumber = d.header.sequenceNumber := by
  unfold State.resolve at h
  split at h
  · split at h
    · split at h
      · cases h
        exact ⟨rfl, rfl⟩
      · cases h
    · cases h
  · cases h
    exact ⟨rfl, rfl⟩

/-- The records of a finished scan have different sequence numbers, and all
of them come from the publisher. -/
theorem records_distinct {slots : Nat} {pub : Publisher G T}
    {sc : Scan G} {seen left : Nat → Nat}
    (h : Collects slots pub.writer sc seen left) (hpub : PubOk slots g pub) :
    (sc.records.Pairwise fun a b => a.sequenceNumber ≠ b.sequenceNumber) ∧
      ∀ rec ∈ sc.records, rec.header.gid = g := by
  constructor
  · refine h.order.imp_of_mem fun {a b} ha hb hlt heq => ?_
    obtain ⟨n, r, hr, hn, hheader⟩ := h.source a ha
    obtain ⟨m, r', hr', hm, hheader'⟩ := h.source b hb
    unfold TlPulledRecord.sequenceNumber at heq
    rw [hheader, hheader'] at heq
    have hnm := hpub.index_eq hr hr' heq
    rw [← hn, ← hm, hnm] at hlt
    exact Nat.lt_irrefl _ hlt
  · intro rec hrec
    obtain ⟨n, r, hr, -, hheader⟩ := h.source rec hrec
    rw [hheader]
    exact (hpub.marks r hr.mem).1

/-- The records that the subscription claims are in order, and none of them
is above the watermark that goes with them. -/
theorem claimed_restOk {slots : Nat} {pub : Publisher G T} {sc : Scan G}
    {seen left : Nat → Nat} (h : Collects slots pub.writer sc seen left)
    (hpub : PubOk slots g pub) (hmax : sc.MaxOk) (overlapped : Bool)
    (depth : Nat) :
    RestOk g (claimed overlapped (sortedNewest depth sc.records))
      (if overlapped then
        lastSequence (claimed overlapped (sortedNewest depth sc.records))
      else sc.maxSeq) := by
  obtain ⟨hdistinct, hgid⟩ := records_distinct h hpub
  have hkept : Keyed.Ascending TlPulledRecord.sequenceNumber
      (sortedNewest depth sc.records) :=
    (Keyed.sortBy_ascending hdistinct).sublist
      (Keyed.newest_suffix _ _).sublist
  have hsub : (claimed overlapped (sortedNewest depth sc.records)).Sublist
      (sortedNewest depth sc.records) := by
    unfold claimed
    split
    · exact (Keyed.contiguousPrefix_prefix _).sublist
    · exact .refl _
  have hascending := hkept.sublist hsub
  have hmem : ∀ rec ∈ claimed overlapped (sortedNewest depth sc.records),
      rec ∈ sc.records := fun rec hrec =>
    Keyed.mem_sortBy.mp ((Keyed.newest_suffix _ _).subset (hsub.subset hrec))
  refine ⟨hascending, fun rec hrec => hgid rec (hmem rec hrec), fun rec hrec => ?_⟩
  split
  · have hne := List.ne_nil_of_mem hrec
    unfold lastSequence
    rw [List.getLast?_eq_some_getLast hne]
    exact hascending.le_getLast hrec hne
  · exact hmax.le rec (hmem rec hrec)

variable [DecidableEq G] {s : State G T} {ok : Bool}

/-- The loop over the publishers goes on, or a pull begins. -/
theorem SubOk.next (h : SubOk C s.pubs s.sub) (hpc : s.sub.pc = .next todo) :
    SubOk C s.pubs (nextStep C s ok todo).sub := by
  have hphase := h.phase
  rw [hpc] at hphase
  obtain ⟨hnodup, hold⟩ := hphase
  have hpending : ∀ {sub' : Subscription G}, sub'.pc.inHand = [] →
      sub'.socket = s.sub.socket → sub'.pending.Sublist s.sub.pending := by
    intro sub' hhand hsocket
    unfold Subscription.pending
    rw [hhand, hsocket, hpc]
    exact .refl _
  cases todo with
  | nil =>
    exact h.move (hpending rfl rfl) rfl fun e he => .inl (hold e he).1
  | cons g todo =>
    simp only [nextStep]
    split
    · refine h.move (hpending rfl rfl) rfl ⟨hnodup, hold, ?_, ?_, .start G⟩
      · simp only [State.subGoto, State.note, Function.update_self]
        exact .start _ _ _
      · exact tlRingSlots_pos _
    · refine h.move (hpending rfl rfl) rfl ⟨(List.nodup_cons.mp hnodup).2,
        fun e he => ⟨(hold e he).1, fun hin => ?_⟩⟩
      exact (hold e he).2 (List.mem_cons_of_mem _ hin)

/-- The enqueue loop goes on, or the watermark is stored. -/
theorem SubOk.enqueueStep {rest : List (TlPulledRecord G)} {maxSeq : Nat}
    (h : SubOk C s.pubs s.sub) (hpc : s.sub.pc = .enqueue g todo rest maxSeq) :
    SubOk C s.pubs (enqueueStep C s g todo maxSeq ok rest).sub := by
  have hphase := h.phase
  rw [hpc] at hphase
  obtain ⟨hnodup, hold, hrest⟩ := hphase
  have hpending : ∀ {sub' : Subscription G}, sub'.pc.inHand = [] →
      sub'.socket = s.sub.socket → sub'.pending.Sublist s.sub.pending := by
    intro sub' hhand hsocket
    unfold Subscription.pending
    rw [hhand, hsocket, hpc]
    exact .refl _
  obtain ⟨hg, hnodup'⟩ := List.nodup_cons.mp hnodup
  cases rest with
  | nil =>
    simp only [Replay.enqueueStep]
    refine h.move (hpending rfl rfl) rfl ⟨hnodup', fun e he => ?_⟩
    rcases hold e he with ⟨⟨hlive, watermark, hstored, hle⟩, hnot⟩ |
      ⟨hlive, hgid, hle, -⟩
    · have hne : e.header.gid ≠ g := fun heq => hnot (by simp [heq])
      refine ⟨⟨hlive, watermark, ?_, hle⟩, fun hin =>
        hnot (List.mem_cons_of_mem _ hin)⟩
      simp only [State.note, Function.update_of_ne hne]
      exact hstored
    · refine ⟨⟨hlive, maxSeq, ?_, hle⟩, ?_⟩
      · simp only [State.note, hgid, Function.update_self]
      · rw [hgid]
        exact hg
  | cons rec rest =>
    simp only [Replay.enqueueStep]
    obtain ⟨hlater, hascending⟩ := List.pairwise_cons.mp hrest.ascending
    have hgid := hrest.gid rec List.mem_cons_self
    split
    · rename_i d hd
      obtain ⟨hdgid, hdseq⟩ := resolve_header hd
      simp only at hdgid hdseq
      refine h.enqueue (hpending rfl rfl) rfl (fun a ha => ?_)
        ⟨hnodup, fun e he => ?_, hascending,
          fun r hr => hrest.gid r (List.mem_cons_of_mem _ hr),
          fun r hr => hrest.le r (List.mem_cons_of_mem _ hr)⟩
      · rcases hold a ha with ⟨hsettled, hnot⟩ | ⟨hlive, -, -, hbefore⟩
        · refine ⟨fun heq => absurd ?_ hnot, fun _ => hsettled.1⟩
          simp only [heq, hdgid, hgid, List.mem_cons_self]
        · refine ⟨fun _ => ?_, fun _ => hlive⟩
          simp only [hdseq]
          exact hbefore rec List.mem_cons_self
      · rcases List.mem_append.mp he with hin | hnew
        · rcases hold e hin with hsettled | ⟨hlive, heq, hle, hbefore⟩
          · exact .inl hsettled
          · exact .inr ⟨hlive, heq, hle, fun r hr =>
              hbefore r (List.mem_cons_of_mem _ hr)⟩
        · rw [List.mem_singleton.mp hnew]
          refine .inr ⟨rfl, hdgid.trans hgid, ?_, fun r hr => ?_⟩
          · simp only [hdseq]
            exact hrest.le rec List.mem_cons_self
          · simp only [hdseq]
            exact hlater r hr
    · refine h.move (hpending rfl rfl) rfl ⟨hnodup, fun e he => ?_, .nil,
        nofun, nofun⟩
      rcases hold e he with hsettled | ⟨hlive, heq, -, hbefore⟩
      · exact .inl hsettled
      · have := hbefore rec List.mem_cons_self
        exact .inr ⟨hlive, heq, by omega, nofun⟩

/-- The scan of the ring of `g` is over. -/
theorem SubOk.finishPull {sc : Scan G} {overlapped : Bool}
    (h : SubOk C s.pubs s.sub) (hpub : PubOk (C.slots g) g (s.pubs g))
    (hpc : s.sub.pc = .pull g todo (.done sc overlapped)) :
    SubOk C s.pubs (finishPull C s g todo sc overlapped).sub := by
  have hphase := h.phase
  rw [hpc] at hphase
  obtain ⟨hnodup, hold, hcollects, -, hmax⟩ := hphase
  have hpending : ∀ {sub' : Subscription G}, sub'.pc.inHand = [] →
      sub'.socket = s.sub.socket → sub'.pending.Sublist s.sub.pending := by
    intro sub' hhand hsocket
    unfold Subscription.pending
    rw [hhand, hsocket, hpc]
    exact .refl _
  have hnext : ∀ {sub' : Subscription G}, sub'.pc = .next todo →
      sub'.socket = s.sub.socket → sub'.enqueued = s.sub.enqueued →
      sub'.watermarks = s.sub.watermarks → SubOk C s.pubs sub' := by
    intro sub' hpc' hsocket henqueued hwatermarks
    refine h.move (hpending (by rw [hpc']; rfl) hsocket) henqueued ?_
    rw [hpc']
    refine ⟨(List.nodup_cons.mp hnodup).2, fun e he => ?_⟩
    rw [henqueued] at he
    obtain ⟨hsettled, hnot⟩ := hold e he
    refine ⟨?_, fun hin => hnot (List.mem_cons_of_mem _ hin)⟩
    unfold Subscription.Settled
    rw [hwatermarks]
    exact hsettled
  have hrest := claimed_restOk hcollects hpub hmax overlapped C.queueDepth
  unfold Replay.finishPull
  simp only
  split
  · exact hnext rfl rfl rfl rfl
  · split
    · exact hnext rfl rfl rfl rfl
    · exact h.move (hpending rfl rfl) rfl
        ⟨hnodup, fun e he => .inl (hold e he), hrest⟩

/-- A load of `tl_ring_pull`. -/
theorem SubOk.pullStep {pull : PullPc G} (h : SubOk C s.pubs s.sub)
    (hpub : PubOk (C.slots g) g (s.pubs g)) (hpc : s.sub.pc = .pull g todo pull) :
    SubOk C s.pubs (pullStep C s g todo pull).sub := by
  have hphase := h.phase
  rw [hpc] at hphase
  obtain ⟨hnodup, hold, hpull⟩ := hphase
  have hgo : ∀ {sub' : Subscription G} {pull' : PullPc G},
      sub'.pc = .pull g todo pull' → sub'.socket = s.sub.socket →
      sub'.enqueued = s.sub.enqueued → sub'.watermarks = s.sub.watermarks →
      PullScanOk (C.slots g) (s.pubs g).writer (sub'.trace g) pull' →
      SubOk C s.pubs sub' := by
    intro sub' pull' hpc' hsocket henqueued hwatermarks hok
    refine h.move ?_ henqueued ?_
    · unfold Subscription.pending
      rw [hpc', hsocket, hpc]
      exact .refl _
    · rw [hpc']
      refine ⟨hnodup, fun e he => ?_, hok⟩
      rw [henqueued] at he
      unfold Subscription.Settled
      rw [hwatermarks]
      exact hold e he
  cases pull with
  | idle => exact hgo rfl rfl rfl rfl trivial
  | scan sc =>
    obtain ⟨hcollects, hslot, hmax⟩ := hpull
    have hcollects' := hcollects.step hpub.writer hslot
    have hmax' := hmax.step ((s.pubs g).writer.ring.slots sc.slot)
    have hle := sc.step_slot_le ((s.pubs g).writer.ring.slots sc.slot)
    refine hgo rfl rfl rfl rfl ?_
    simp only [PullPc.step]
    split
    · rename_i hlt
      simp only [Replay.pullStep, State.subGoto, State.note,
        Function.update_self]
      exact ⟨hcollects', hlt, hmax'⟩
    · simp only [Replay.pullStep, State.subGoto, State.note,
        Function.update_self]
      exact ⟨hcollects', by omega, hmax'⟩
  | check sc j =>
    refine hgo rfl rfl rfl rfl ?_
    simp only [PullPc.step]
    split
    · split
      · exact hpull
      · exact hpull
    · exact hpull
  | done sc overlapped => exact h.finishPull hpub hpc

/-- One turn of the drain. -/
theorem SubOk.subStep {t : State G T} (h : SubOk C s.pubs s.sub)
    (hpubs : ∀ g, PubOk (C.slots g) g (s.pubs g))
    (hstep : subStep C s ok = some t) : SubOk C s.pubs t.sub := by
  have hphase := h.phase
  have hsent := h.sent
  have hfifo := h.fifo
  unfold Subscription.pending at hsent hfifo
  cases hpc : s.sub.pc with
  | register =>
    rw [hpc] at hphase
    simp only [Replay.subStep, hpc, Option.some.injEq] at hstep
    subst hstep
    refine h.move ?_ rfl hphase
    unfold Subscription.pending
    rw [hpc]
    exact .refl _
  | bump =>
    rw [hpc] at hphase
    simp only [Replay.subStep, hpc, Option.some.injEq] at hstep
    subst hstep
    refine h.move ?_ rfl hphase
    unfold Subscription.pending
    rw [hpc]
    exact .refl _
  | query =>
    simp only [Replay.subStep, hpc] at hstep
    cases hstep
  | next todo =>
    simp only [Replay.subStep, hpc, Option.some.injEq] at hstep
    subst hstep
    exact h.next hpc
  | pull g todo pull =>
    simp only [Replay.subStep, hpc, Option.some.injEq] at hstep
    subst hstep
    exact h.pullStep (hpubs g) hpc
  | enqueue g todo rest maxSeq =>
    simp only [Replay.subStep, hpc, Option.some.injEq] at hstep
    subst hstep
    exact h.enqueueStep hpc
  | ready =>
    rw [hpc] at hphase
    simp only [Replay.subStep, hpc] at hstep
    split at hstep
    · cases hstep
    · rename_i d socket hsocket
      cases hstep
      have hpending : ([d] ++ socket).Sublist s.sub.pending := by
        unfold Subscription.pending
        rw [hpc, hsocket]
        exact .refl _
      exact h.move hpending rfl (handled_sublist hphase hpending rfl rfl)
  | dedup d =>
    rw [hpc] at hphase
    have hrest : s.sub.socket.Sublist s.sub.pending :=
      List.sublist_append_right _ _
    have hsame : ([d] ++ s.sub.socket).Sublist s.sub.pending := by
      unfold Subscription.pending
      rw [hpc]
      exact .refl _
    simp only [Replay.subStep, hpc] at hstep
    split at hstep
    · cases hstep
      exact h.move hrest rfl (handled_sublist hphase hrest rfl rfl)
    · split at hstep
      · cases hstep
        exact h.move hrest rfl (handled_sublist hphase hrest rfl rfl)
      · rename_i hdup
        cases hstep
        refine h.move hsame rfl ⟨handled_sublist hphase hsame rfl rfl,
          fun watermark hstored => ?_⟩
        unfold Subscription.duplicate at hdup
        rw [show s.sub.watermarks d.header.gid = some watermark from hstored]
          at hdup
        simpa using hdup
  | resolve d =>
    rw [hpc] at hphase
    obtain ⟨hhandled, habove⟩ := hphase
    have hrest : s.sub.socket.Sublist s.sub.pending :=
      List.sublist_append_right _ _
    simp only [Replay.subStep, hpc] at hstep
    split at hstep
    · rename_i d' hd
      obtain ⟨hgid, hseq⟩ := resolve_header hd
      split at hstep
      · cases hstep
        exact h.move hrest rfl (handled_sublist hhandled hrest rfl rfl)
      · cases hstep
        rw [hpc] at hsent hfifo
        obtain ⟨hfirst, htail⟩ := List.pairwise_cons.mp hfifo
        refine ⟨fun a ha => ?_, List.pairwise_cons.mpr ⟨fun a ha => ?_, htail⟩,
          h.order, fun e he => ?_, ?_⟩
        · rcases List.mem_cons.mp ha with rfl | hin
          · rw [hgid, hseq]
            exact hsent d List.mem_cons_self
          · exact hsent a (List.mem_cons_of_mem _ hin)
        · rw [hgid, hseq]
          exact hfirst a ha
        · refine (hhandled e he).imp_right fun hdrained =>
            ⟨hdrained.live, hdrained.sent, fun a ha => ?_⟩
          have hbefore := hdrained.before
          unfold Subscription.pending at hbefore
          rw [hpc] at hbefore
          rcases List.mem_cons.mp ha with rfl | hin
          · rw [hgid, hseq]
            exact hbefore d List.mem_cons_self
          · exact hbefore a (List.mem_cons_of_mem _ hin)
        · rw [hgid, hseq]
          exact habove
    · cases hstep
      exact h.move hrest rfl (handled_sublist hhandled hrest rfl rfl)
  | push d =>
    rw [hpc] at hphase hsent hfifo
    obtain ⟨hhandled, habove⟩ := hphase
    obtain ⟨hfirst, -⟩ := List.pairwise_cons.mp hfifo
    have hrest : s.sub.socket.Sublist s.sub.pending :=
      List.sublist_append_right _ _
    have hin : d ∈ s.sub.pending := by
      unfold Subscription.pending
      rw [hpc]
      exact List.mem_cons_self
    simp only [Replay.subStep, hpc, Option.some.injEq] at hstep
    subst hstep
    refine h.enqueue hrest rfl (fun a ha => ?_) fun e he => ?_
    · rcases hhandled a ha with ⟨hlive, watermark, hstored, hle⟩ | hdrained
      · refine ⟨fun hgid => ?_, fun _ => hlive⟩
        rw [hgid] at hstored
        exact Nat.lt_of_le_of_lt hle (habove watermark hstored)
      · exact ⟨fun hgid => hdrained.before d hin hgid.symm, nofun⟩
    · rcases List.mem_append.mp he with hold | hnew
      · exact (hhandled e hold).imp_right fun hdrained =>
          hdrained.sublist hrest
      · rw [List.mem_singleton.mp hnew]
        exact .inr ⟨rfl, hsent d List.mem_cons_self, fun a ha hgid =>
          hfirst a ha hgid.symm⟩

end Subscriber

/-! ## Every run -/

section Run

variable {C : Config G} {s t : State G T}

/-- A thread moves, or a segment comes or goes. -/
theorem OrderOk.congr (h : OrderOk C s) (hpubs : t.pubs = s.pubs)
    (hsub : t.sub = s.sub) : OrderOk C t := by
  refine ⟨?_, ?_⟩
  · rw [hpubs]
    exact h.pubs
  · rw [hpubs, hsub]
    exact h.sub

variable [DecidableEq G]

/-- A step of the subscription changes the subscription, and may bump the
generation. -/
theorem subStep_frame {ok : Bool} (h : subStep C s ok = some t) :
    ∃ sub generation, t = { s with sub := sub, generation := generation } := by
  unfold subStep at h
  split at h
  · cases h
    exact ⟨_, _, rfl⟩
  · cases h
    exact ⟨_, _, rfl⟩
  · cases h
  · rename_i todo hpc
    cases h
    unfold nextStep
    split
    · exact ⟨_, _, rfl⟩
    · split <;> exact ⟨_, _, rfl⟩
  · rename_i g todo pull hpc
    cases h
    unfold pullStep finishPull
    split
    · simp only
      split
      · exact ⟨_, _, rfl⟩
      · split <;> exact ⟨_, _, rfl⟩
    · exact ⟨_, _, rfl⟩
    · exact ⟨_, _, rfl⟩
  · rename_i g todo rest maxSeq hpc
    cases h
    unfold enqueueStep
    split
    · exact ⟨_, _, rfl⟩
    · split <;> exact ⟨_, _, rfl⟩
  · split at h
    · cases h
    · cases h
      exact ⟨_, _, rfl⟩
  · split at h
    · cases h
      exact ⟨_, _, rfl⟩
    · split at h <;>
        · cases h
          exact ⟨_, _, rfl⟩
  · split at h
    · split at h <;>
        · cases h
          exact ⟨_, _, rfl⟩
    · cases h
      exact ⟨_, _, rfl⟩
  · cases h
    exact ⟨_, _, rfl⟩

/-- The subscription leaves the publishers alone. -/
theorem subStep_pubs {ok : Bool} (h : subStep C s ok = some t) :
    t.pubs = s.pubs := by
  obtain ⟨sub, generation, rfl⟩ := subStep_frame h
  rfl

variable [DecidableEq T] {a : Act G T}

/-- Every step keeps the invariant. -/
theorem OrderOk.step (h : OrderOk C s)
    (hstep : (machine C).step s a = some t) : OrderOk C t := by
  cases a with
  | publish thread g sourceTimestampNs payload ok =>
    simp only [machine, Replay.step] at hstep
    split at hstep
    · cases hstep
      unfold stage
      split
      · exact h.congr rfl rfl
      · exact h.congr rfl rfl
    · cases hstep
  | lock thread =>
    simp only [machine, Replay.step] at hstep
    split at hstep
    · split at hstep
      · rename_i hnone
        cases hstep
        exact (h.lock hnone _).congr rfl rfl
      · cases hstep
    · cases hstep
  | crit g ok =>
    obtain ⟨crit, hcrit, rfl⟩ := Option.map_eq_some_iff.mp hstep
    exact h.critStep hcrit
  | destroy thread =>
    simp only [machine, Replay.step] at hstep
    split at hstep
    · cases hstep
      exact h.congr rfl rfl
    · cases hstep
  | bump =>
    cases hstep
    exact h.congr rfl rfl
  | query gs =>
    simp only [machine, Replay.step] at hstep
    split at hstep
    · rename_i hpc
      split at hstep
      · rename_i hnodup
        cases hstep
        have hphase := h.sub.phase
        rw [hpc] at hphase
        refine ⟨h.pubs, h.sub.move ?_ rfl ⟨hnodup, fun e he => ?_⟩⟩
        · unfold Subscription.pending
          rw [hpc]
          exact .refl _
        · rw [show (s.subGoto (.next gs)).sub.enqueued = [] from hphase] at he
          cases he
      · cases hstep
    · cases hstep
  | sub ok =>
    have hpubs := subStep_pubs hstep
    refine ⟨?_, ?_⟩
    · rw [hpubs]
      exact h.pubs
    · rw [hpubs]
      exact h.sub.subStep h.pubs hstep
  | take =>
    simp only [machine, Replay.step] at hstep
    split at hstep
    · cases hstep
      exact ⟨h.pubs, h.sub.later h.pubs (fun _ => .refl _ _)
        ⟨rfl, rfl, rfl, rfl⟩ (fun _ hd => .inl hd) h.sub.fifo⟩
    · cases hstep

/-- However the publishers and the subscription interleave, the samples of a
publisher enter the queue with growing sequence numbers, and the pulled ones
before the live ones. -/
theorem subscription_enqueues_in_order [Inhabited G] {ok : State G T → Act G T → Prop}
    (h : (machine C).Reach ok (.init G T) s) :
    s.sub.enqueued.Pairwise Precedes :=
  (h.invariant (I := OrderOk C) (.init C)
    fun _ _ _ hI _ hstep => hI.step hstep).sub.order

end Run

/-- One publisher of depth 2. -/
def onePublisher : Config Unit where
  depth := fun _ => 2
  hasRing := fun _ => true
  ignored := fun _ => false
  queueDepth := 10

/-- A publish of one byte, from its call to the send. -/
def publishByte (b : UInt8) : List (Act Unit Unit) :=
  [.publish () () 0 [b] true, .lock ()] ++ List.replicate 10 (.crit () true)

set_option maxRecDepth 100000 in
/-- A sample that is pulled and received, and one that is received only. -/
theorem subscription_enqueues_in_order_two :
    ∃ s, (machine onePublisher).Reach (fun _ _ => True) (.init Unit Unit) s ∧
      s.sub.enqueued.map (fun e => (e.header.sequenceNumber, e.live)) =
        [(1, false), (2, true)] ∧
      s.sub.enqueued.Pairwise Precedes := by
  obtain ⟨s, hreach, henqueued⟩ :=
    (machine onePublisher).exists_reach_of_guardedRun (fun _ _ => True)
      (State.init Unit Unit)
      ([.sub true, .sub true] ++ publishByte 7 ++ [.query [()]] ++
        List.replicate 15 (.sub true) ++ publishByte 8 ++
        List.replicate 4 (.sub true))
      (fun s => s.sub.enqueued.map
        (fun e => (e.header.sequenceNumber, e.live)) = [(1, false), (2, true)])
      (by decide)
  exact ⟨s, hreach, henqueued, subscription_enqueues_in_order hreach⟩

end RmwUnixSocket.Latch.Replay
