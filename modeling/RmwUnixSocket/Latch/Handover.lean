import RmwUnixSocket.Latch.Order

/-!
# What a pull hands over

From the end of a scan to the store of the watermark.  `HistoryOk` is what is
known about a scan that is over, `LoopOk` is the invariant of the enqueue
loop, and `HandoverOk` has both, and what stays of them when the watermark is
stored.

`step_cases` and `subStep_cases` say what a step can do to all this: most
steps are `PublishersMove` or `Quiet`.
-/

namespace RmwUnixSocket.Latch.Replay

open SlotRing (slotOf)

variable {G T : Type}

/-! ## What a step does -/

/-- The watermark of `g` is still to come. -/
def SubPc.Ahead (g : G) : SubPc G → Prop
  | .register | .bump | .query => True
  | .next todo => g ∈ todo
  | .pull g' todo _ | .enqueue g' todo _ _ => g ∈ g' :: todo
  | .ready | .dedup _ | .resolve _ | .push _ => False

/-- The loop of the subscription is not in an enqueue loop. -/
def SubPc.Outside (pc : SubPc G) : Prop :=
  ∀ g todo rest maxSeq, pc ≠ .enqueue g todo rest maxSeq

theorem SubPc.not_ahead_of_created {pc : SubPc G} (h : pc.created = true) (g : G) :
    ¬pc.Ahead g := by
  intro hahead
  cases pc with
  | ready | dedup | resolve | push => exact hahead
  | _ => cases h

theorem SubPc.outside_of_created {pc : SubPc G} (h : pc.created = true) :
    pc.Outside := by
  rintro g todo rest maxSeq rfl
  cases h

/-- The publishers go on, and the subscription receives nothing or the next
sample of one of them. -/
structure PublishersMove (C : Config G) (s t : State G T) : Prop where
  later : ∀ g, PubLater (C.slots g) (s.pubs g) (t.pubs g)
  pc : t.sub.pc = s.sub.pc
  enqueued : t.sub.enqueued = s.sub.enqueued
  watermarks : t.sub.watermarks = s.sub.watermarks
  trace : t.sub.trace = s.sub.trace
  unresolved : t.sub.unresolved = s.sub.unresolved
  sent : t.sub.sent = s.sub.sent ∧ t.sub.socket = s.sub.socket ∨
    ∃ d : Datagram G, t.sub.sent = s.sub.sent ++ [d] ∧
      t.sub.socket = s.sub.socket ++ [d] ∧
      d.header.sequenceNumber = (s.pubs d.header.gid).nextSent ∧
      d.header.msgType = 0

/-- A step of the subscription outside the enqueue loops. -/
structure Quiet (s t : State G T) : Prop where
  pubs : t.pubs = s.pubs
  sent : t.sub.sent = s.sub.sent
  socket : t.sub.socket <:+ s.sub.socket
  taken : ∀ d, t.sub.pc = .dedup d → d ∈ s.sub.socket
  enqueued : s.sub.enqueued ⊆ t.sub.enqueued
  watermarks : t.sub.watermarks = s.sub.watermarks
  trace : ∀ g, s.sub.watermarks g ≠ none → t.sub.trace g = s.sub.trace g
  ahead : ∀ g, t.sub.pc.Ahead g → s.sub.pc.Ahead g
  outside : t.sub.pc.Outside

theorem PublishersMove.of_sub {C : Config G} {s t : State G T}
    (hlater : ∀ g, PubLater (C.slots g) (s.pubs g) (t.pubs g))
    (hsub : t.sub = s.sub) : PublishersMove C s t where
  later := hlater
  pc := by rw [hsub]
  enqueued := by rw [hsub]
  watermarks := by rw [hsub]
  trace := by rw [hsub]
  unresolved := by rw [hsub]
  sent := .inl (by rw [hsub]; exact ⟨rfl, rfl⟩)

section Cases

variable [DecidableEq G] [DecidableEq T] {C : Config G} {s t : State G T}
  {a : Act G T}

/-- A step of a critical section. -/
theorem PublishersMove.crit {g : G} {crit : Crit G T} {ok : Bool}
    (h : OrderOk C s) (hcrit : (s.pubs g).crit = some crit) :
    PublishersMove C s (critStep C s g crit ok) := by
  obtain ⟨pub', hdone⟩ :
      ∃ pub', CritDone C s (critStep C s g crit ok) g crit ok pub' :=
    critStep_done (h.pubs g) hcrit
  have hlater := (pubs_update h.pubs hdone.inv hdone.later).2
  rw [← hdone.pubs] at hlater
  rcases hdone.sub with hsub | ⟨hdr, latched, hpc, -, hsub⟩
  · exact .of_sub hlater hsub
  · have hunsent : (s.pubs g).unsent = some hdr := by
      rw [unsent_eq hcrit, hpc]
      rfl
    obtain ⟨hgid, -, hmsg⟩ := (h.pubs g).unsent hdr hunsent
    obtain ⟨hdgid, hdseq, hdmsg⟩ := datagram_header crit.call hdr latched
    refine ⟨hlater, ?_, ?_, ?_, ?_, ?_, .inr
      ⟨crit.call.datagram hdr latched, ?_, ?_, ?_, hdmsg.trans hmsg⟩⟩
    · rw [hsub]
      rfl
    · rw [hsub]
      rfl
    · rw [hsub]
      rfl
    · rw [hsub]
      rfl
    · rw [hsub]
      rfl
    · rw [hsub]
      rfl
    · rw [hsub]
      rfl
    · rw [hdseq, hdgid, hgid]
      exact (nextSent_of_unsent hunsent).symm

/-- A step is one of the publishers', the query, or one of the
subscription's. -/
theorem step_cases (h : OrderOk C s)
    (hstep : (machine C).step s a = some t) :
    PublishersMove C s t ∨
      (∃ gs, s.sub.pc = .query ∧ gs.Nodup ∧ t = s.subGoto (.next gs)) ∨
      ∃ ok, a = .sub ok ∧ subStep C s ok = some t := by
  cases a with
  | publish thread g sourceTimestampNs payload ok =>
    simp only [machine, Replay.step] at hstep
    split at hstep
    · cases hstep
      unfold stage
      split
      · exact .inl (.of_sub (fun _ => .refl _ _) rfl)
      · exact .inl (.of_sub (fun _ => .refl _ _) rfl)
    · cases hstep
  | lock thread =>
    simp only [machine, Replay.step] at hstep
    split at hstep
    · rename_i g call _
      split at hstep
      · rename_i hnone
        cases hstep
        obtain ⟨hinv, hlater⟩ := (h.pubs g).lock hnone
          { thread := thread, call := call, evicted := none, pc := .assign }
        exact .inl (.of_sub (pubs_update h.pubs hinv hlater).2 rfl)
      · cases hstep
    · cases hstep
  | crit g ok =>
    obtain ⟨crit, hcrit, rfl⟩ := Option.map_eq_some_iff.mp hstep
    exact .inl (.crit h hcrit)
  | destroy thread =>
    simp only [machine, Replay.step] at hstep
    split at hstep
    · cases hstep
      exact .inl (.of_sub (fun _ => .refl _ _) rfl)
    · cases hstep
  | bump =>
    cases hstep
    exact .inl (.of_sub (fun _ => .refl _ _) rfl)
  | query gs =>
    simp only [machine, Replay.step] at hstep
    split at hstep
    · rename_i hpc
      split at hstep
      · rename_i hnodup
        cases hstep
        exact .inr (.inl ⟨gs, hpc, hnodup, rfl⟩)
      · cases hstep
    · cases hstep
  | sub ok => exact .inr (.inr ⟨ok, rfl, hstep⟩)
  | take =>
    simp only [machine, Replay.step] at hstep
    split at hstep
    · cases hstep
      exact .inl ⟨fun _ => .refl _ _, rfl, rfl, rfl, rfl, rfl,
        .inl ⟨rfl, rfl⟩⟩
    · cases hstep

omit [DecidableEq G] [DecidableEq T] in
theorem Quiet.query {gs : List G} (hpc : s.sub.pc = .query) :
    Quiet s (s.subGoto (.next gs)) where
  pubs := rfl
  sent := rfl
  socket := List.suffix_rfl
  taken := nofun
  enqueued := List.Subset.refl _
  watermarks := rfl
  trace _ _ := rfl
  ahead g _ := by
    rw [hpc]
    trivial
  outside := nofun

omit [DecidableEq G] [DecidableEq T] in
/-- The subscription goes on, and leaves the traces and the queue alone. -/
theorem Quiet.goto {sub' : Subscription G} {generation : Nat}
    (hsent : sub'.sent = s.sub.sent) (hsocket : sub'.socket <:+ s.sub.socket)
    (htaken : ∀ d, sub'.pc = .dedup d → d ∈ s.sub.socket)
    (henqueued : s.sub.enqueued ⊆ sub'.enqueued)
    (hwatermarks : sub'.watermarks = s.sub.watermarks)
    (htrace : sub'.trace = s.sub.trace)
    (hahead : ∀ g, sub'.pc.Ahead g → s.sub.pc.Ahead g)
    (houtside : sub'.pc.Outside) :
    Quiet s { s with sub := sub', generation := generation } where
  pubs := rfl
  sent := hsent
  socket := hsocket
  taken := htaken
  enqueued := henqueued
  watermarks := hwatermarks
  trace _ _ := congrFun htrace _
  ahead := hahead
  outside := houtside

omit [DecidableEq G] [DecidableEq T] in
/-- The drain goes on. -/
theorem Quiet.drain {sub' : Subscription G} {generation : Nat}
    (hsent : sub'.sent = s.sub.sent) (hsocket : sub'.socket <:+ s.sub.socket)
    (htaken : ∀ d, sub'.pc = .dedup d → d ∈ s.sub.socket)
    (henqueued : s.sub.enqueued ⊆ sub'.enqueued)
    (hwatermarks : sub'.watermarks = s.sub.watermarks)
    (htrace : sub'.trace = s.sub.trace) (hcreated : sub'.pc.created = true) :
    Quiet s { s with sub := sub', generation := generation } :=
  .goto hsent hsocket htaken henqueued hwatermarks htrace
    (fun g hg => absurd hg (SubPc.not_ahead_of_created hcreated g))
    (SubPc.outside_of_created hcreated)

omit [DecidableEq T] in
/-- The subscription goes on, and notes something about a publisher that has
no watermark yet. -/
theorem Quiet.note {g : G} {f : PullTrace G → PullTrace G} {pc : SubPc G}
    (hnone : s.sub.watermarks g = none)
    (htaken : ∀ d, pc ≠ .dedup d)
    (hahead : ∀ g, pc.Ahead g → s.sub.pc.Ahead g) (houtside : pc.Outside) :
    Quiet s ((s.note g f).subGoto pc) where
  pubs := rfl
  sent := rfl
  socket := List.suffix_rfl
  taken d hd := absurd hd (htaken d)
  enqueued := List.Subset.refl _
  watermarks := rfl
  trace g' hg' := by
    refine Function.update_of_ne ?_ _ _
    rintro rfl
    exact hg' hnone
  ahead := hahead
  outside := houtside

omit [DecidableEq T] in
/-- One turn of the loop over the publishers. -/
theorem Quiet.next {todo : List G} {ok : Bool}
    (hnone : ∀ g ∈ todo, s.sub.watermarks g = none)
    (hpc : s.sub.pc = .next todo) : Quiet s (nextStep C s ok todo) := by
  cases todo with
  | nil =>
    exact .drain rfl List.suffix_rfl (by simp) (List.Subset.refl _) rfl rfl rfl
  | cons g todo =>
    simp only [nextStep]
    split
    · refine .note (hnone g List.mem_cons_self) (by simp) (fun g' hg' => ?_)
        (by simp [SubPc.Outside])
      rw [hpc]
      exact hg'
    · refine .goto rfl List.suffix_rfl (by simp) (List.Subset.refl _) rfl rfl
        (fun g' hg' => ?_) (by simp [SubPc.Outside])
      rw [hpc]
      exact List.mem_cons_of_mem _ hg'

/-- The end of a pull that hands records over. -/
structure Handed (C : Config G) (s t : State G T) (g : G) (todo : List G)
    (sc : Scan G) (overlapped : Bool) (rest : List (TlPulledRecord G))
    (maxSeq : Nat) : Prop where
  rest_eq : rest = claimed overlapped (sortedNewest C.queueDepth sc.records)
  ne_nil : rest ≠ []
  maxSeq_eq : maxSeq = if overlapped then lastSequence rest else sc.maxSeq
  state_eq : t = (s.note g fun trace =>
    { trace with
      collected := sc.records,
      kept := sortedNewest C.queueDepth sc.records }).subGoto
        (.enqueue g todo rest maxSeq)

omit [DecidableEq T] in
/-- The scan of the ring of `g` is over: there is nothing to hand over, or
there is. -/
theorem finishPull_cases {g : G} {todo : List G} {sc : Scan G}
    {overlapped : Bool} (hnone : s.sub.watermarks g = none)
    (hpc : s.sub.pc = .pull g todo (.done sc overlapped)) :
    (sortedNewest C.queueDepth sc.records = [] ∧
      Quiet s (finishPull C s g todo sc overlapped)) ∨
    ∃ rest maxSeq, Handed C s (finishPull C s g todo sc overlapped) g todo sc
      overlapped rest maxSeq := by
  have hquiet : Quiet s ((s.note g fun trace =>
      { trace with
        collected := sc.records,
        kept := sortedNewest C.queueDepth sc.records }).subGoto
          (.next todo)) := by
    refine .note hnone nofun (fun g' hg' => ?_) nofun
    rw [hpc]
    exact List.mem_cons_of_mem _ hg'
  simp only [finishPull]
  split
  · rename_i hempty
    exact .inl ⟨hempty, hquiet⟩
  · rename_i hkept
    have hne : claimed overlapped (sortedNewest C.queueDepth sc.records) ≠
        [] := by
      unfold claimed
      split
      · exact Keyed.contiguousPrefix_ne_nil hkept
      · exact hkept
    rw [if_neg hne]
    exact .inr ⟨_, _, rfl, hne, rfl, rfl⟩

omit [DecidableEq T] in
/-- A step of the subscription is quiet, or it hands over what a pull has
kept, or it is a step of the enqueue loop. -/
theorem subStep_cases {ok : Bool}
    (hahead : ∀ g, s.sub.pc.Ahead g → s.sub.watermarks g = none)
    (hstep : subStep C s ok = some t) :
    Quiet s t ∨
      (∃ g todo sc overlapped rest maxSeq,
        s.sub.pc = .pull g todo (.done sc overlapped) ∧
        Handed C s t g todo sc overlapped rest maxSeq) ∨
      ∃ g todo rest maxSeq, s.sub.pc = .enqueue g todo rest maxSeq ∧
        t = enqueueStep C s g todo maxSeq ok rest := by
  cases hpc : s.sub.pc with
  | register =>
    simp only [subStep, hpc, Option.some.injEq] at hstep
    subst hstep
    refine .inl (.goto rfl List.suffix_rfl (by simp) (List.Subset.refl _) rfl rfl
      (fun g _ => ?_) (by simp [SubPc.Outside]))
    rw [hpc]
    trivial
  | bump =>
    simp only [subStep, hpc, Option.some.injEq] at hstep
    subst hstep
    refine .inl (.goto rfl List.suffix_rfl (by simp [State.subGoto])
      (List.Subset.refl _) rfl rfl (fun g _ => ?_)
      (by simp [State.subGoto, SubPc.Outside]))
    rw [hpc]
    trivial
  | query =>
    simp only [subStep, hpc] at hstep
    cases hstep
  | next todo =>
    rw [hpc] at hahead
    simp only [subStep, hpc, Option.some.injEq] at hstep
    subst hstep
    exact .inl (.next hahead hpc)
  | pull g todo pull =>
    rw [hpc] at hahead
    have hnone : s.sub.watermarks g = none := hahead g List.mem_cons_self
    have hstay : ∀ {pull' : PullPc G} (g' : G),
        (SubPc.pull g todo pull').Ahead g' → s.sub.pc.Ahead g' := by
      intro pull' g' hg'
      rw [hpc]
      exact hg'
    simp only [subStep, hpc, Option.some.injEq] at hstep
    subst hstep
    cases pull with
    | idle =>
      exact .inl (.goto rfl List.suffix_rfl (by simp) (List.Subset.refl _) rfl rfl
        hstay (by simp [SubPc.Outside]))
    | scan sc =>
      exact .inl (.note hnone (by simp) hstay (by simp [SubPc.Outside]))
    | check sc j =>
      exact .inl (.goto rfl List.suffix_rfl (by simp) (List.Subset.refl _) rfl rfl
        hstay (by simp [SubPc.Outside]))
    | done sc overlapped =>
      rcases finishPull_cases (C := C) hnone hpc with ⟨-, hquiet⟩ |
        ⟨rest, maxSeq, hhanded⟩
      · exact .inl hquiet
      · exact .inr (.inl ⟨g, todo, sc, overlapped, rest, maxSeq, rfl, hhanded⟩)
  | enqueue g todo rest maxSeq =>
    simp only [subStep, hpc, Option.some.injEq] at hstep
    exact .inr (.inr ⟨g, todo, rest, maxSeq, rfl, hstep.symm⟩)
  | ready =>
    simp only [subStep, hpc] at hstep
    split at hstep
    · cases hstep
    · rename_i d socket hsocket
      cases hstep
      refine .inl (.drain rfl ?_ (fun d' hd' => ?_) (List.Subset.refl _) rfl rfl rfl)
      · rw [hsocket]
        exact List.suffix_cons d socket
      · cases hd'
        rw [hsocket]
        exact List.mem_cons_self
  | dedup d =>
    simp only [subStep, hpc] at hstep
    split at hstep
    · cases hstep
      exact .inl (.drain rfl List.suffix_rfl (by simp)
        (List.Subset.refl _) rfl rfl rfl)
    · split at hstep
      · cases hstep
        exact .inl (.drain rfl List.suffix_rfl (by simp)
          (List.Subset.refl _) rfl rfl rfl)
      · cases hstep
        exact .inl (.drain rfl List.suffix_rfl (by simp)
          (List.Subset.refl _) rfl rfl rfl)
  | resolve d =>
    simp only [subStep, hpc] at hstep
    split at hstep
    · split at hstep
      · cases hstep
        exact .inl (.drain rfl List.suffix_rfl (by simp)
          (List.Subset.refl _) rfl rfl rfl)
      · cases hstep
        exact .inl (.drain rfl List.suffix_rfl (by simp)
          (List.Subset.refl _) rfl rfl rfl)
    · cases hstep
      exact .inl (.drain rfl List.suffix_rfl (by simp)
        (List.Subset.refl _) rfl rfl rfl)
  | push d =>
    simp only [subStep, hpc, Option.some.injEq] at hstep
    subst hstep
    exact .inl (.drain rfl List.suffix_rfl (by simp)
      (List.subset_append_left _ _) rfl rfl rfl)

end Cases

/-! ## The invariant -/

/-- Sample `m` of `g` has entered the queue from the pulled history. -/
def Subscription.Replayed (sub : Subscription G) (g : G) (m : Nat) : Prop :=
  ∃ e ∈ sub.enqueued, e.live = false ∧ e.header.gid = g ∧
    e.header.sequenceNumber = m

/-- What is known about a scan that is over. -/
structure HistoryOk (slots : Nat) (w : Writer G) (trace : PullTrace G) :
    Prop where
  swept : ∀ n r, w.Marked n r → n ≤ trace.seen (slotOf slots n) →
    n + slots ≤ trace.left (slotOf slots n) ∨
      ∃ rec ∈ trace.collected, rec.header = r.header
  source : ∀ rec ∈ trace.collected, ∃ n r, w.Marked n r ∧ rec.header = r.header
  seen_le : ∀ i, trace.seen i ≤ w.commits
  kept : ∀ rec ∈ trace.kept, rec ∈ trace.collected
  ascending : Keyed.Ascending TlPulledRecord.sequenceNumber trace.kept

/-- The invariant of the enqueue loop: what is kept is what the loop has
passed, `rest`, and what the watermark `maxSeq` leaves to the datagrams. -/
structure LoopOk (sub : Subscription G) (g : G)
    (rest : List (TlPulledRecord G)) (maxSeq : Nat) : Prop where
  passed : ∃ pre, pre ++ rest <+: (sub.trace g).kept ∧
    ∀ rec ∈ pre, sub.Replayed g rec.sequenceNumber
  above : ∀ rec ∈ (sub.trace g).kept, rec ∉ rest →
    sub.Replayed g rec.sequenceNumber ∨ maxSeq < rec.sequenceNumber

/-- The scan of the ring of `g` has been handed over. -/
def Subscription.Scanned (sub : Subscription G) (g : G) : Prop :=
  sub.watermarks g ≠ none ∨
    ∃ todo rest maxSeq, sub.pc = .enqueue g todo rest maxSeq

/-- The invariant of the system. -/
structure HandoverOk (C : Config G) (s : State G T) : Prop where
  order : OrderOk C s
  ahead : ∀ g, s.sub.pc.Ahead g → s.sub.watermarks g = none
  history : ∀ g, s.sub.Scanned g →
    HistoryOk (C.slots g) (s.pubs g).writer (s.sub.trace g)
  loop : ∀ g todo rest maxSeq, s.sub.pc = .enqueue g todo rest maxSeq →
    LoopOk s.sub g rest maxSeq
  stored : ∀ g watermark, s.sub.watermarks g = some watermark →
    ∀ rec ∈ (s.sub.trace g).kept,
      s.sub.Replayed g rec.sequenceNumber ∨ watermark < rec.sequenceNumber

theorem HandoverOk.init [Inhabited G] (C : Config G) :
    HandoverOk C (State.init G T) where
  order := .init C
  ahead _ _ := rfl
  history g h := by
    rcases h with hne | ⟨todo, rest, maxSeq, hpc⟩
    · exact absurd rfl hne
    · cases hpc
  loop := nofun
  stored := nofun

theorem Subscription.Replayed.mono {sub sub' : Subscription G} {g : G}
    {m : Nat} (h : sub.Replayed g m)
    (henqueued : sub.enqueued ⊆ sub'.enqueued) : sub'.Replayed g m := by
  obtain ⟨e, he, hrest⟩ := h
  exact ⟨e, henqueued he, hrest⟩

/-- The writer may go on. -/
theorem HistoryOk.later {slots : Nat} {w w' : Writer G}
    {trace : PullTrace G} (h : HistoryOk slots w trace)
    (hw : WriterOk slots w) (hlater : w.Later slots w') :
    HistoryOk slots w' trace where
  swept n r hr hn :=
    h.swept n r (hw.marked_of_commits hlater.marks hr
      (Nat.le_trans hn (h.seen_le _))) hn
  source rec hrec := by
    obtain ⟨n, r, hr, hheader⟩ := h.source rec hrec
    exact ⟨n, r, hr.extend hlater.marks, hheader⟩
  seen_le i := Nat.le_trans (h.seen_le i) hlater.commits
  kept := h.kept
  ascending := h.ascending

/-- What a finished scan has collected, and the cut of the depth limit. -/
theorem HistoryOk.of_collects {slots : Nat} {g : G} {pub : Publisher G T}
    {sc : Scan G} {trace : PullTrace G}
    (h : Collects slots pub.writer sc trace.seen trace.left)
    (hslot : sc.slot = slots) (hslots : 0 < slots)
    (hpub : PubOk slots g pub) (depth : Nat) :
    HistoryOk slots pub.writer
      { trace with
        collected := sc.records, kept := sortedNewest depth sc.records } where
  swept n r hr hn := by
    refine h.swept (slotOf slots n) ?_ n r hr rfl hn
    rw [hslot]
    exact SlotRing.slotOf_lt hslots n
  source rec hrec := by
    obtain ⟨n, r, hr, -, hheader⟩ := h.source rec hrec
    exact ⟨n, r, hr, hheader⟩
  seen_le := h.seen_le
  kept rec hrec :=
    Keyed.mem_sortBy.mp ((Keyed.newest_suffix _ _).subset hrec)
  ascending := (Keyed.sortBy_ascending (records_distinct h hpub).1).sublist
    (Keyed.newest_suffix _ _).sublist

/-- The enqueue loop begins. -/
theorem LoopOk.start {sub : Subscription G} {g : G} {overlapped : Bool}
    {kept rest : List (TlPulledRecord G)} {maxSeq : Nat}
    (hkept : (sub.trace g).kept = kept) (hrest : rest = claimed overlapped kept)
    (hascending : Keyed.Ascending TlPulledRecord.sequenceNumber kept)
    (hmax : overlapped = true → maxSeq = lastSequence rest)
    (hne : rest ≠ []) : LoopOk sub g rest maxSeq := by
  have hprefix : rest <+: kept := by
    rw [hrest]
    unfold claimed
    split
    · exact Keyed.contiguousPrefix_prefix _
    · exact List.prefix_rfl
  refine ⟨⟨[], by rw [hkept]; exact hprefix, nofun⟩, fun rec hrec hnot => .inr ?_⟩
  rw [hkept] at hrec
  cases overlapped with
  | false =>
    rw [hrest] at hnot
    exact absurd hrec hnot
  | true =>
    rw [hmax rfl]
    unfold lastSequence
    rw [List.getLast?_eq_some_getLast hne]
    obtain ⟨tail, rfl⟩ := hprefix
    rcases List.mem_append.mp hrec with hin | hlater
    · exact absurd hin hnot
    · exact (List.pairwise_append.mp hascending).2.2 _
        (List.getLast_mem hne) rec hlater

/-- The records before the next one have been enqueued. -/
theorem LoopOk.replayed {sub : Subscription G} {g : G}
    {rest : List (TlPulledRecord G)} {rec rec' : TlPulledRecord G}
    {maxSeq : Nat} (h : LoopOk sub g (rec :: rest) maxSeq)
    (hascending : Keyed.Ascending TlPulledRecord.sequenceNumber
      (sub.trace g).kept) (hrec : rec' ∈ (sub.trace g).kept)
    (hlt : rec'.sequenceNumber < rec.sequenceNumber) :
    sub.Replayed g rec'.sequenceNumber := by
  obtain ⟨pre, hprefix, hpassed⟩ := h.passed
  have hmem := hascending.mem_prefix hprefix hrec
    (List.mem_append_right pre List.mem_cons_self) hlt
  exact hpassed rec' ((hascending.sublist hprefix.sublist).mem_passed hmem hlt)

/-! ## Every step -/

section Step

variable {C : Config G} {s t : State G T}

/-- The publishers go on. -/
theorem HandoverOk.publishers (h : HandoverOk C s)
    (hmove : PublishersMove C s t) (horder : OrderOk C t) :
    HandoverOk C t := by
  refine ⟨horder, fun g hg => ?_, fun g hg => ?_, fun g todo rest maxSeq hpc => ?_,
    fun g watermark hstored rec hrec => ?_⟩
  · rw [hmove.pc] at hg
    rw [hmove.watermarks]
    exact h.ahead g hg
  · unfold Subscription.Scanned at hg
    rw [hmove.watermarks, hmove.pc] at hg
    rw [hmove.trace]
    exact (h.history g hg).later (h.order.pubs g).writer (hmove.later g).writer
  · rw [hmove.pc] at hpc
    obtain ⟨⟨pre, hprefix, hpassed⟩, habove⟩ := h.loop g todo rest maxSeq hpc
    refine ⟨⟨pre, ?_, ?_⟩, ?_⟩
    · rw [hmove.trace]
      exact hprefix
    · unfold Subscription.Replayed
      rw [hmove.enqueued]
      exact hpassed
    · unfold Subscription.Replayed
      rw [hmove.trace, hmove.enqueued]
      exact habove
  · rw [hmove.watermarks] at hstored
    rw [hmove.trace] at hrec
    unfold Subscription.Replayed
    rw [hmove.enqueued]
    exact h.stored g watermark hstored rec hrec

/-- The subscription goes on outside the enqueue loops. -/
theorem HandoverOk.quiet (h : HandoverOk C s) (hquiet : Quiet s t)
    (horder : OrderOk C t) : HandoverOk C t := by
  refine ⟨horder, fun g hg => ?_, fun g hg => ?_, fun g todo rest maxSeq hpc => ?_,
    fun g watermark hstored rec hrec => ?_⟩
  · rw [hquiet.watermarks]
    exact h.ahead g (hquiet.ahead g hg)
  · rcases hg with hne | ⟨todo, rest, maxSeq, hpc⟩
    · rw [hquiet.watermarks] at hne
      rw [hquiet.pubs, hquiet.trace g hne]
      exact h.history g (.inl hne)
    · exact absurd hpc (hquiet.outside g todo rest maxSeq)
  · exact absurd hpc (hquiet.outside g todo rest maxSeq)
  · rw [hquiet.watermarks] at hstored
    have hne : s.sub.watermarks g ≠ none := by
      rw [hstored]
      exact Option.some_ne_none _
    rw [hquiet.trace g hne] at hrec
    exact (h.stored g watermark hstored rec hrec).imp_left fun hreplayed =>
      hreplayed.mono hquiet.enqueued

variable {g : G} {todo : List G} {rest : List (TlPulledRecord G)}
  {maxSeq : Nat}

/-- The record that the enqueue loop is at was marked. -/
theorem HandoverOk.head (h : HandoverOk C s) {rec : TlPulledRecord G}
    (hpc : s.sub.pc = .enqueue g todo (rec :: rest) maxSeq) :
    rec ∈ (s.sub.trace g).kept ∧ 0 < rec.sequenceNumber ∧
      rec.sequenceNumber ≤ (s.pubs g).nextSent := by
  have hpub := h.order.pubs g
  have hhistory := h.history g (.inr ⟨todo, _, maxSeq, hpc⟩)
  obtain ⟨pre, hprefix, -⟩ := (h.loop g todo _ maxSeq hpc).passed
  have hin : rec ∈ (s.sub.trace g).kept :=
    hprefix.subset (List.mem_append_right pre List.mem_cons_self)
  obtain ⟨n, r, hr, hheader⟩ := hhistory.source rec (hhistory.kept rec hin)
  have hpos := (hpub.marks r hr.mem).2.1
  have hle := hpub.le_nextSent hr.mem
  rw [SlotRecord.sequenceNumber, ← hheader] at hpos hle
  exact ⟨hin, hpos, hle⟩

variable [DecidableEq G]

/-- What a pull has kept is handed over. -/
theorem HandoverOk.handed (h : HandoverOk C s) {sc : Scan G}
    {overlapped : Bool} (hpc : s.sub.pc = .pull g todo (.done sc overlapped))
    (hhanded : Handed C s t g todo sc overlapped rest maxSeq)
    (horder : OrderOk C t) : HandoverOk C t := by
  have hphase := h.order.sub.phase
  rw [hpc] at hphase
  obtain ⟨-, -, hcollects, hslot, -⟩ := hphase
  have hnone : s.sub.watermarks g = none :=
    h.ahead g (by rw [hpc]; exact List.mem_cons_self)
  obtain ⟨hrest, hne, hmax, rfl⟩ := hhanded
  have hhistory := HistoryOk.of_collects hcollects hslot (tlRingSlots_pos _)
    (h.order.pubs g) C.queueDepth
  have htrace : ∀ g', s.sub.watermarks g' ≠ none → g' ≠ g := by
    rintro g' hg' rfl
    exact hg' hnone
  refine ⟨horder, fun g' hg' => ?_, fun g' hg' => ?_,
    fun g' todo' rest' maxSeq' hpc' => ?_, fun g' watermark hstored rec hrec => ?_⟩
  · refine h.ahead g' ?_
    rw [hpc]
    exact hg'
  · rcases hg' with hstored | ⟨todo', rest', maxSeq', hpc'⟩
    · simp only [State.subGoto, State.note,
        Function.update_of_ne (htrace g' hstored)]
      exact h.history g' (.inl hstored)
    · cases hpc'
      simp only [State.subGoto, State.note, Function.update_self]
      exact hhistory
  · cases hpc'
    refine .start ?_ hrest hhistory.ascending (fun htrue => ?_) hne
    · simp only [State.subGoto, State.note, Function.update_self]
    · rw [hmax, if_pos htrue]
  · have hne' : s.sub.watermarks g' ≠ none := by
      rw [show s.sub.watermarks g' = some watermark from hstored]
      exact Option.some_ne_none _
    simp only [State.subGoto, State.note,
      Function.update_of_ne (htrace g' hne')] at hrec
    exact h.stored g' watermark hstored rec hrec

omit [DecidableEq G] in
/-- The enqueue loop goes on: the same traces and watermarks, no fewer
entries. -/
theorem HandoverOk.turn (h : HandoverOk C s)
    (hpc : s.sub.pc = .enqueue g todo rest maxSeq)
    {rest' : List (TlPulledRecord G)} {maxSeq' : Nat}
    (hpc' : t.sub.pc = .enqueue g todo rest' maxSeq')
    (hpubs : t.pubs = s.pubs) (hwatermarks : t.sub.watermarks = s.sub.watermarks)
    (htrace : t.sub.trace = s.sub.trace)
    (henqueued : s.sub.enqueued ⊆ t.sub.enqueued)
    (hloop : LoopOk t.sub g rest' maxSeq') (horder : OrderOk C t) :
    HandoverOk C t := by
  refine ⟨horder, fun g' hg' => ?_, fun g' hg' => ?_,
    fun g' todo' rest'' maxSeq'' hpc'' => ?_, fun g' watermark hstored rec hrec => ?_⟩
  · rw [hwatermarks]
    rw [hpc'] at hg'
    refine h.ahead g' ?_
    rw [hpc]
    exact hg'
  · rw [hpubs, htrace]
    refine h.history g' (hg'.imp (fun hne => ?_) fun ⟨todo', rest'', maxSeq'', heq⟩ => ?_)
    · rw [← hwatermarks]
      exact hne
    · rw [hpc'] at heq
      cases heq
      exact ⟨todo, rest, maxSeq, hpc⟩
  · rw [hpc'] at hpc''
    cases hpc''
    exact hloop
  · rw [hwatermarks] at hstored
    rw [htrace] at hrec
    exact (h.stored g' watermark hstored rec hrec).imp_left fun hreplayed =>
      hreplayed.mono henqueued

/-- One turn of the enqueue loop. -/
theorem HandoverOk.enqueueStep {ok : Bool} (h : HandoverOk C s)
    (hpc : s.sub.pc = .enqueue g todo rest maxSeq)
    (horder : OrderOk C (enqueueStep C s g todo maxSeq ok rest)) :
    HandoverOk C (enqueueStep C s g todo maxSeq ok rest) := by
  have hloop := h.loop g todo rest maxSeq hpc
  have hhistory := h.history g (.inr ⟨todo, rest, maxSeq, hpc⟩)
  have hphase := h.order.sub.phase
  rw [hpc] at hphase
  obtain ⟨hnodup, -, hrest⟩ := hphase
  obtain ⟨pre, hprefix, hpassed⟩ := hloop.passed
  cases rest with
  | nil =>
    simp only [Replay.enqueueStep] at horder ⊢
    have hg := (List.nodup_cons.mp hnodup).1
    refine ⟨horder, fun g' hg' => ?_, fun g' hg' => ?_,
      fun _ _ _ _ hloop => (by cases hloop), fun g' watermark hstored rec hrec => ?_⟩
    · have hne : g' ≠ g := by
        rintro rfl
        exact hg hg'
      simp only [State.note, Function.update_of_ne hne]
      refine h.ahead g' ?_
      rw [hpc]
      exact List.mem_cons_of_mem _ hg'
    · by_cases hown : g' = g
      · subst hown
        simp only [State.note, Function.update_self]
        exact ⟨hhistory.swept, hhistory.source, hhistory.seen_le,
          hhistory.kept, hhistory.ascending⟩
      · rcases hg' with hne | ⟨todo', rest', maxSeq', hcontra⟩
        · simp only [State.note, Function.update_of_ne hown] at hne ⊢
          exact h.history g' (.inl hne)
        · cases hcontra
    · by_cases hown : g' = g
      · subst hown
        simp only [State.note, Function.update_self, Option.some.injEq]
          at hstored hrec
        subst hstored
        exact hloop.above rec hrec List.not_mem_nil
      · simp only [State.note, Function.update_of_ne hown] at hstored hrec
        exact h.stored g' watermark hstored rec hrec
  | cons rec rest =>
    have hgid := hrest.gid rec List.mem_cons_self
    simp only [Replay.enqueueStep] at horder ⊢
    split at horder
    · rename_i d hd
      obtain ⟨hdgid, hdseq⟩ := resolve_header hd
      simp only at hdgid hdseq
      have hnew : ((s.enqueue C.queueDepth d false).subGoto
          (.enqueue g todo rest maxSeq)).sub.Replayed g rec.sequenceNumber :=
        ⟨{ header := d.header, live := false },
          List.mem_append_right _ (List.mem_singleton.mpr rfl), rfl,
          hdgid.trans hgid, hdseq⟩
      have hold : s.sub.enqueued ⊆ ((s.enqueue C.queueDepth d false).subGoto
          (.enqueue g todo rest maxSeq)).sub.enqueued :=
        List.subset_append_left _ _
      refine h.turn hpc rfl rfl rfl rfl hold ⟨⟨pre ++ [rec], ?_, ?_⟩, ?_⟩ horder
      · rw [List.append_assoc]
        exact hprefix
      · intro rec' hrec'
        rcases List.mem_append.mp hrec' with hin | hlast
        · exact (hpassed rec' hin).mono hold
        · rw [List.mem_singleton.mp hlast]
          exact hnew
      · intro rec' hrec' hnot
        by_cases hlast : rec' = rec
        · rw [hlast]
          exact .inl hnew
        · refine (hloop.above rec' hrec' ?_).imp_left fun hreplayed =>
            hreplayed.mono hold
          exact fun hin => (List.mem_cons.mp hin).elim hlast hnot
    · refine h.turn hpc rfl rfl rfl rfl (List.Subset.refl _)
        ⟨⟨pre, ?_, hpassed⟩, fun rec' hrec' _ => ?_⟩ horder
      · rw [List.append_nil]
        exact (List.prefix_append pre _).trans hprefix
      · -- The next record cannot be resolved.  Its number is not 0.
        rcases Nat.lt_or_ge rec'.sequenceNumber rec.sequenceNumber with hlt | hge
        · exact .inl (hloop.replayed hhistory.ascending hrec' hlt)
        · have hpos := (h.head hpc).2.1
          exact .inr (by omega)

variable [DecidableEq T] {a : Act G T}

/-- Every step keeps the invariant. -/
theorem HandoverOk.step (h : HandoverOk C s)
    (hstep : (machine C).step s a = some t) : HandoverOk C t := by
  have horder := h.order.step hstep
  rcases step_cases h.order hstep with hmove | ⟨gs, hpc, -, rfl⟩ | ⟨ok, rfl, hsub⟩
  · exact h.publishers hmove horder
  · exact h.quiet (.query hpc) horder
  · rcases subStep_cases h.ahead hsub with hquiet |
      ⟨g, todo, sc, overlapped, rest, maxSeq, hpc, hhanded⟩ |
      ⟨g, todo, rest, maxSeq, hpc, rfl⟩
    · exact h.quiet hquiet horder
    · exact h.handed hpc hhanded horder
    · exact h.enqueueStep hpc horder

end Step

end RmwUnixSocket.Latch.Replay
