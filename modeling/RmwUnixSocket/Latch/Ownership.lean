import RmwUnixSocket.Latch.Durable

/-!
# Durable segments over a run

Every step of the publishers keeps `DurableOk`: a handle comes with a staging, moves
or stays, or goes with its segment.  `durable_segments` is what follows for the slots,
for the segments, for a latch that fails and for a descriptor that is sent.
-/

namespace RmwUnixSocket.Latch.Replay

open SlotRing (slotOf slotOf_lt)

variable {G T : Type}

/-! ## The invariant of a run -/

section Frames

variable {C : Config G} {s t : State G T} {g : G} {pub' : Publisher G T}
  {payloads payloads' : G → Nat → List UInt8}

theorem DurableOk.init [Inhabited G] (C : Config G) :
    DurableOk C (State.init G T) fun _ _ => [] where
  linear := by
    have hnone : ∀ u, (State.init G T).held u = none := by
      intro u
      cases u <;> rfl
    refine ⟨fun u v k hk => absurd rfl hk, fun u k hu => ?_, fun k hk => absurd rfl hk⟩
    rw [hnone] at hu
    cases hu
  fresh _ _ := rfl
  inside := nofun
  waiting := nofun
  pub g := .init (C.slots g) g

/-- A sample that is kept has its segment in the hands of its publisher. -/
theorem DurableOk.held_of_keeps (h : DurableOk C s payloads) {crit : Crit G T} {x : Nat}
    (hcrit : (s.pubs g).crit = some crit) (hkeeps : crit.pc.keeps = true)
    (hx : crit.call.staged = some x) :
    ∃ u : Owner G T, u.publisher = some g ∧ s.held u = some x := by
  have hlatched : crit.pc.latched = true →
      ∃ u : Owner G T, u.publisher = some g ∧ s.held u = some x := by
    intro hlatched
    obtain ⟨i, hi⟩ := (h.pub g).latched crit x hcrit hlatched hx
    exact ⟨.slot g i, rfl, hi⟩
  have hcall : crit.stagedSeg = some x →
      ∃ u : Owner G T, u.publisher = some g ∧ s.held u = some x := by
    intro hseg
    refine ⟨.call g, rfl, ?_⟩
    rw [State.held, hcrit]
    exact hseg
  cases hpc : crit.pc with
  | assign | latch | latching => exact hcall (by rw [Crit.stagedSeg, hpc]; exact hx)
  | loadGen | refresh | send =>
    rw [hpc] at hkeeps
    exact hlatched (by rw [hpc]; exact hkeeps)
  | unlock =>
    rw [hpc] at hkeeps
    cases hkeeps

/-- The subscription goes on, and the generation may. -/
theorem DurableOk.of_sub (h : DurableOk C s payloads) (hthreads : t.threads = s.threads)
    (hpubs : t.pubs = s.pubs) (hsegments : t.segments = s.segments)
    (hstaged : t.staged = s.staged) : DurableOk C t payloads where
  linear := by
    refine h.linear.congr (fun x => ?_) fun u => ?_
    · rw [State.linked, hsegments]
      rfl
    · cases u <;> simp only [State.held, hthreads, hpubs]
  fresh := by rw [hsegments, hstaged]; exact h.fresh
  inside := by rw [hthreads, hpubs]; exact h.inside
  waiting := by rw [hthreads, hsegments]; exact h.waiting
  pub := by rw [hpubs, hsegments, hstaged]; exact h.pub

theorem segment_of_unlink {segments : Nat → Option (List UInt8)} {x y : Nat}
    {bytes : List UInt8} (h : Function.update segments x none y = some bytes) :
    segments y = some bytes := by
  by_cases hne : y = x
  · rw [hne, Function.update_self] at h
    cases h
  · rwa [Function.update_of_ne hne] at h

/-- A segment goes that another owner has. -/
theorem DurableOk.pub_of_unlink (h : DurableOk C s payloads) {a : Owner G T} {x : Nat}
    (ha : s.held a = some x) (hother : a.publisher ≠ some g) :
    PubDurable (C.slots g) g (s.pubs g) (Function.update s.segments x none) s.staged
      (payloads g) := by
  refine (h.pub g).env (fun crit y hcrit hkeeps hy _ => ?_)
    (fun _ _ _ hbytes => segment_of_unlink hbytes) (Nat.le_refl _)
  have hne : y ≠ x := by
    rintro rfl
    obtain ⟨u, hu, hheld⟩ := h.held_of_keeps hcrit hkeeps hy
    rw [h.linear.unique ha hheld] at hother
    exact hother hu
  exact Function.update_of_ne hne _ _

/-- An owner goes with its segment. -/
theorem DurableOk.of_unlink (h : DurableOk C s payloads) {a : Owner G T} {x : Nat}
    (ha : s.held a = some x) (hsegments : t.segments = Function.update s.segments x none)
    (hstaged : t.staged = s.staged) (hgive : t.held a = none)
    (hsame : ∀ u, u ≠ a → t.held u = s.held u)
    (hinside : ∀ g crit, (t.pubs g).crit = some crit →
      t.threads crit.thread = .inside g)
    (hwaiting : ∀ t' g call, t.threads t' = .lock g call → s.threads t' = .lock g call)
    (hpub : ∀ g, PubDurable (C.slots g) g (t.pubs g) t.segments t.staged (payloads g)) :
    DurableOk C t payloads where
  linear := by
    refine h.linear.drop a hgive (fun j => ?_) hsame
    rw [State.linked, State.linked, hsegments, ha]
    by_cases hj : j = x
    · simp [hj]
    · simp [hj, Ne.symm hj]
  fresh y hy := by
    rw [hstaged] at hy
    rw [hsegments]
    by_cases hyx : y = x
    · rw [hyx, Function.update_self]
    · rw [Function.update_of_ne hyx]
      exact h.fresh y hy
  inside := hinside
  waiting t' g call y hlock hy := by
    have hne : y ≠ x := by
      rintro rfl
      have hheld : t.held (.thread t') = some y := by
        rw [State.held, hlock]
        exact hy
      have hta : (.thread t' : Owner G T) ≠ a := by
        rintro rfl
        rw [hgive] at hheld
        cases hheld
      rw [hsame _ hta] at hheld
      exact hta (h.linear.unique hheld ha)
    rw [hsegments, Function.update_of_ne hne]
    exact h.waiting t' g call y (hwaiting t' g call hlock) hy
  pub := hpub

/-- Owners of other publishers, and the threads, have what they had. -/
theorem held_of_other (hthreads : t.threads = s.threads)
    (hother : ∀ g', g' ≠ g → t.pubs g' = s.pubs g') {u : Owner G T}
    (hu : u.publisher ≠ some g) : t.held u = s.held u := by
  cases u with
  | thread t' => simp only [State.held, hthreads]
  | call g' | evicted g' | slot g' i =>
    have hne : g' ≠ g := fun heq => hu (congrArg some heq)
    simp only [State.held, hother g' hne]

end Frames

/-! ## The critical section -/

section Crit

variable [DecidableEq G] {C : Config G} {s t : State G T} {g : G}
  {payloads payloads' : G → Nat → List UInt8} {crit crit' : Crit G T}
  {pub' : Publisher G T} {ok : Bool}

/-- The critical section of `g` takes a step, from `crit` to `crit'`. -/
structure CritMoves (s t : State G T) (g : G) (crit crit' : Crit G T)
    (pub' : Publisher G T) : Prop where
  threads : t.threads = s.threads
  staged : t.staged = s.staged
  pubs : t.pubs = Function.update s.pubs g pub'
  before : (s.pubs g).crit = some crit
  after : pub'.crit = some crit'
  thread : crit'.thread = crit.thread

theorem CritMoves.goto (hcrit : (s.pubs g).crit = some crit)
    (hthread : crit'.thread = crit.thread) (pub : Publisher G T) (pc : CritPc G) :
    CritMoves s (s.critGoto g crit' pub pc) g crit { crit' with pc := pc }
      { pub with crit := some { crit' with pc := pc } } :=
  ⟨rfl, rfl, rfl, hcrit, rfl, hthread⟩

theorem CritMoves.pubs_self (hm : CritMoves s t g crit crit' pub') :
    t.pubs g = pub' := by
  rw [hm.pubs, Function.update_self]

theorem CritMoves.held_of_other (hm : CritMoves s t g crit crit' pub')
    {u : Owner G T} (hu : u.publisher ≠ some g) : t.held u = s.held u := by
  refine Replay.held_of_other hm.threads (fun g' hne => ?_) hu
  rw [hm.pubs, Function.update_of_ne hne]

/-- The call and the slots have the same handles. -/
theorem CritMoves.held_of_same (hm : CritMoves s t g crit crit' pub')
    (hcall : crit'.stagedSeg = crit.stagedSeg)
    (hevicted : crit'.evictedSeg = crit.evictedSeg)
    (hslots : pub'.writer.ring.durableSegs = (s.pubs g).writer.ring.durableSegs)
    (u : Owner G T) : t.held u = s.held u := by
  by_cases hu : u.publisher = some g
  · cases u with
    | thread t' => cases hu
    | call g' | evicted g' | slot g' i =>
      cases hu
      simp only [State.held, hm.pubs_self, hm.before, hm.after, hslots,
        Option.bind_some, hcall, hevicted]
  · exact hm.held_of_other hu

/-- The thread of a critical section waits in it. -/
theorem DurableOk.inside_of_moves (h : DurableOk C s payloads)
    (hm : CritMoves s t g crit crit' pub') {g' : G} {c : Crit G T}
    (hc : (t.pubs g').crit = some c) : t.threads c.thread = .inside g' := by
  rw [hm.threads]
  by_cases hg : g' = g
  · rw [hg, hm.pubs_self, hm.after] at hc
    cases hc
    rw [hg, hm.thread]
    exact h.inside g crit hm.before
  · rw [hm.pubs, Function.update_of_ne hg] at hc
    exact h.inside g' c hc

/-- The segments stay. -/
theorem DurableOk.of_moves (h : DurableOk C s payloads)
    (hm : CritMoves s t g crit crit' pub') (hsegments : t.segments = s.segments)
    (hlinear : Linear t.linked t.held)
    (hpub : PubDurable (C.slots g) g pub' s.segments s.staged (payloads' g))
    (hpayloads : ∀ g', g' ≠ g → payloads' g' = payloads g') :
    DurableOk C t payloads' where
  linear := hlinear
  fresh := by
    rw [hsegments, hm.staged]
    exact h.fresh
  inside _ _ hc := h.inside_of_moves hm hc
  waiting := by
    rw [hm.threads, hsegments]
    exact h.waiting
  pub g' := by
    rw [hsegments, hm.staged]
    by_cases hg : g' = g
    · rw [hg, hm.pubs_self]
      exact hpub
    · rw [hm.pubs, Function.update_of_ne hg, hpayloads g' hg]
      exact h.pub g'

/-- The segments and the handles stay. -/
theorem DurableOk.of_same (h : DurableOk C s payloads)
    (hm : CritMoves s t g crit crit' pub') (hsegments : t.segments = s.segments)
    (hcall : crit'.stagedSeg = crit.stagedSeg)
    (hevicted : crit'.evictedSeg = crit.evictedSeg)
    (hslots : pub'.writer.ring.durableSegs = (s.pubs g).writer.ring.durableSegs)
    (hpub : PubDurable (C.slots g) g pub' s.segments s.staged (payloads' g))
    (hpayloads : ∀ g', g' ≠ g → payloads' g' = payloads g') :
    DurableOk C t payloads' := by
  refine h.of_moves hm hsegments ?_ hpub hpayloads
  refine h.linear.congr (fun x => ?_) (hm.held_of_same hcall hevicted hslots)
  rw [State.linked, hsegments]
  rfl

/-- The critical section goes on outside the latch, with the handles that it has. -/
theorem DurableOk.critGoto (h : DurableOk C s payloads)
    (hcrit : (s.pubs g).crit = some crit) {pub : Publisher G T}
    (hwriter : pub.writer = (s.pubs g).writer) {pc : CritPc G}
    (hunsent : ∀ hdr, pc.unsent = some hdr → crit.pc.unsent = some hdr)
    (hkeeps : pc.keeps = true → crit.pc.keeps = true) (hearly : pc.early = false)
    (hlatching : ∀ hdr, pc ≠ .latching hdr)
    (hlatched : pc.latched = true → crit.pc.latched = true)
    (hcall : Crit.stagedSeg { crit with pc := pc } = crit.stagedSeg)
    (hevicted : Crit.evictedSeg { crit with pc := pc } = crit.evictedSeg) :
    DurableOk C (s.critGoto g crit pub pc) payloads := by
  refine h.of_same (.goto hcrit rfl pub pc) rfl hcall hevicted ?_ ?_ fun _ _ => rfl
  · exact congrArg (fun w : Writer G => w.ring.durableSegs) hwriter
  · exact (h.pub g).goto hcrit hwriter rfl rfl hunsent hkeeps hearly hlatching hlatched

/-- A latch that fails destroys the segment of its sample. -/
theorem DurableOk.latchFails (h : DurableOk C s payloads)
    (hcrit : (s.pubs g).crit = some crit) {hdr : WireHeader G}
    (hpc : crit.pc = .latch hdr) :
    DurableOk C ((s.unlinkStaged crit.call.staged).critGoto g crit (s.pubs g)
      (.loadGen hdr false)) payloads := by
  have hheld : s.held (.call g) = crit.call.staged := by
    rw [State.held, hcrit, Option.bind_some, Crit.stagedSeg, hpc]
  have hnone : crit.evicted = none :=
    (h.pub g).early crit hcrit (by rw [hpc]; rfl)
  have hevicted : Crit.evictedSeg { crit with pc := .loadGen hdr false } =
      crit.evictedSeg := by
    simp [Crit.evictedSeg, hpc, hnone]
  have hgoto : PubDurable (C.slots g) g
      { s.pubs g with crit := some { crit with pc := .loadGen hdr false } }
      s.segments s.staged (payloads g) := by
    refine (h.pub g).goto hcrit rfl rfl rfl (fun hdr' hhdr => ?_) nofun rfl nofun nofun
    rw [hpc]
    exact hhdr
  cases hstaged : crit.call.staged with
  | none =>
    refine h.of_same (.goto hcrit rfl _ _) rfl ?_ hevicted rfl hgoto fun _ _ => rfl
    simp [Crit.stagedSeg, hpc, hstaged]
  | some x =>
    rw [hstaged] at hheld
    have hm : CritMoves s ((s.unlinkStaged (some x)).critGoto g crit (s.pubs g)
        (.loadGen hdr false)) g crit { crit with pc := .loadGen hdr false }
        { s.pubs g with crit := some { crit with pc := .loadGen hdr false } } :=
      ⟨rfl, rfl, rfl, hcrit, rfl, rfl⟩
    refine h.of_unlink hheld rfl rfl ?_ (fun u hu => ?_)
      (fun _ _ hc => h.inside_of_moves hm hc) (fun _ _ _ hlock => hlock) fun g' => ?_
    · simp [State.held, hm.pubs_self, Crit.stagedSeg]
    · by_cases hpublisher : u.publisher = some g
      · cases u with
        | thread t' => cases hpublisher
        | call g' =>
          cases hpublisher
          exact absurd rfl hu
        | evicted g' =>
          cases hpublisher
          simp only [State.held, hm.pubs_self, hcrit, Option.bind_some, hevicted]
        | slot g' i =>
          cases hpublisher
          simp only [State.held, hm.pubs_self]
      · exact hm.held_of_other hpublisher
    · by_cases hg : g' = g
      · rw [hg, hm.pubs_self]
        refine hgoto.env (fun c' y hc' hkeeps => ?_) (fun y bytes _ hbytes => ?_)
          (Nat.le_refl _)
        · cases hc'
          cases hkeeps
        · exact segment_of_unlink hbytes
      · rw [hm.pubs, Function.update_of_ne hg]
        exact h.pub_of_unlink hheld fun heq => hg (Option.some.inj heq).symm

theorem DurableOk.latchMarks (h : DurableOk C s payloads)
    (hok : PubOk (C.slots g) g (s.pubs g)) (hcrit : (s.pubs g).crit = some crit)
    {hdr : WireHeader G} (hpc : crit.pc = .latch hdr) {rec : SlotRecord G}
    (hrec : slotRecord hdr crit.call.payload crit.call.staged = some rec) :
    DurableOk C (s.critGoto g
      { crit with evicted := (s.pubs g).writer.ring.evicted (C.slots g) }
      { s.pubs g with writer := (s.pubs g).writer.markNext (C.slots g) rec }
      (.latching hdr)) payloads := by
  refine h.of_same ⟨rfl, rfl, rfl, hcrit, rfl, rfl⟩ rfl ?_ ?_ rfl
    ((h.pub g).mark hok hcrit hpc hrec) fun _ _ => rfl
  · simp only [Crit.stagedSeg, hpc]
  · simp only [Crit.evictedSeg, hpc]

/-- A store of the latch that is not the last one. -/
theorem DurableOk.latchPuts (h : DurableOk C s payloads)
    (hcrit : (s.pubs g).crit = some crit) {hdr : WireHeader G}
    (hpc : crit.pc = .latching hdr) {w' : Writer G} {rec : SlotRecord G}
    (hrec : (s.pubs g).writer.pc.record = some rec) (hrec' : w'.pc.record = some rec)
    (hmarks : w'.marks = (s.pubs g).writer.marks) {f : TlSlot G → TlSlot G}
    (hring : w'.ring = (s.pubs g).writer.ring.modify (C.slots g) f) :
    DurableOk C (s.critGoto g crit { s.pubs g with writer := w' } (.latching hdr))
      payloads := by
  refine h.of_same (.goto hcrit rfl _ _) rfl ?_ ?_ ?_
    ((h.pub g).put hcrit hpc hrec hrec' hmarks hring) fun _ _ => rfl
  · simp only [Crit.stagedSeg, hpc]
  · simp only [Crit.evictedSeg, hpc]
  · show w'.ring.durableSegs = _
    rw [hring]
    rfl

/-- The commit: the slot gets the segment of the sample, and the call gets the one
that the slot had. -/
theorem DurableOk.latchCommits (h : DurableOk C s payloads)
    (hok : PubOk (C.slots g) g (s.pubs g)) (hcrit : (s.pubs g).crit = some crit)
    {hdr : WireHeader G} (hpc : crit.pc = .latching hdr) {rec : SlotRecord G}
    (hwriter : (s.pubs g).writer.pc = .commit rec) :
    DurableOk C (s.critGoto g crit
      { s.pubs g with
        writer :=
          { (s.pubs g).writer with
            ring := (s.pubs g).writer.ring.commit (C.slots g) rec.segment
            pc := .idle } }
      (.loadGen hdr true)) payloads := by
  obtain ⟨⟨r, hr, hslot⟩, hevicted⟩ := (h.pub g).latching crit hdr hcrit hpc
  rw [hwriter] at hr
  cases hr
  have hflag : hdr.shmPayload = false := by
    rw [((h.pub g).sample crit hdr hcrit (by rw [hpc]; rfl)).1]
    rfl
  have hsegment := (slotRecord_spec hslot hflag).1
  have hpub := (h.pub g).commit hok (tlRingSlots_pos _) hcrit hpc hwriter
  refine h.of_moves (.goto hcrit rfl _ _) rfl ?_ hpub fun _ _ => rfl
  refine h.linear.rotate (.call g)
    (.slot g (slotOf (C.slots g) (s.pubs g).writer.ring.nextIndex)) (.evicted g)
    nofun nofun nofun ?_ ?_ ?_ ?_ fun u hcall hslot hevicted => ?_
  · simp [State.held, hcrit, Crit.evictedSeg, hpc]
  · simp [State.held, State.critGoto, State.setPub, Crit.stagedSeg]
  · simp [State.held, State.critGoto, State.setPub, TlRing.commit, hcrit,
      Crit.stagedSeg, hpc, hsegment]
  · simp [State.held, State.critGoto, State.setPub, Crit.evictedSeg, hevicted,
      TlRing.evicted]
  · by_cases hpublisher : u.publisher = some g
    · cases u with
      | thread t' => cases hpublisher
      | call g' =>
        cases hpublisher
        exact absurd rfl hcall
      | evicted g' =>
        cases hpublisher
        exact absurd rfl hevicted
      | slot g' i =>
        cases hpublisher
        have hne : i ≠ slotOf (C.slots g) (s.pubs g).writer.ring.nextIndex :=
          fun heq => hslot (congrArg (Owner.slot g) heq)
        simp [State.held, State.critGoto, State.setPub, TlRing.commit, hne]
    · exact CritMoves.held_of_other (.goto hcrit rfl _ _) hpublisher

variable [DecidableEq T]

/-- The end of the critical section: the thread gets the evicted handle. -/
theorem DurableOk.unlock (h : DurableOk C s payloads)
    (hcrit : (s.pubs g).crit = some crit) (hpc : crit.pc = .unlock) :
    DurableOk C ((s.setPub g { s.pubs g with crit := none }).setThread crit.thread
      (match crit.evicted with
        | some segment => .destroy segment
        | none => .idle)) payloads := by
  have hthread := h.inside g crit hcrit
  refine
    { linear := ?_, fresh := h.fresh, inside := fun g' c' hc' => ?_
      waiting := fun t' g' call x hlock hx => ?_, pub := fun g' => ?_ }
  · refine h.linear.hand (.evicted g) (.thread crit.thread) ?_ ?_ ?_ fun u hu hu' => ?_
    · rw [State.held, hthread]
      rfl
    · simp [State.held, State.setThread, State.setPub]
    · cases hevicted : crit.evicted <;>
        simp [State.held, State.setThread, State.setPub, ThreadPc.held, hcrit,
          Crit.evictedSeg, hpc, hevicted]
    · cases u with
      | thread t' =>
        have hne : t' ≠ crit.thread := fun heq => hu' (congrArg Owner.thread heq)
        simp [State.held, State.setThread, State.setPub, hne]
      | call g' =>
        by_cases hg : g' = g
        · subst hg
          simp [State.held, State.setThread, State.setPub, hcrit, Crit.stagedSeg, hpc]
        · simp [State.held, State.setThread, State.setPub, hg]
      | evicted g' =>
        have hne : g' ≠ g := fun heq => hu (congrArg Owner.evicted heq)
        simp [State.held, State.setThread, State.setPub, hne]
      | slot g' i =>
        by_cases hg : g' = g
        · subst hg
          simp [State.held, State.setThread, State.setPub]
        · simp [State.held, State.setThread, State.setPub, hg]
  · have hg : g' ≠ g := by
      rintro rfl
      simp [State.setThread, State.setPub] at hc'
    simp only [State.setThread, State.setPub, Function.update_of_ne hg] at hc' ⊢
    have hinside := h.inside g' c' hc'
    have hne : c'.thread ≠ crit.thread := by
      intro heq
      rw [heq, hthread] at hinside
      cases hinside
      exact hg rfl
    rw [Function.update_of_ne hne]
    exact hinside
  · by_cases ht : t' = crit.thread
    · subst ht
      simp only [State.setThread, Function.update_self] at hlock
      split at hlock <;> cases hlock
    · simp only [State.setThread, Function.update_of_ne ht] at hlock
      exact h.waiting t' g' call x hlock hx
  · by_cases hg : g' = g
    · subst hg
      simp only [State.setThread, State.setPub, Function.update_self]
      exact (h.pub g').finish rfl rfl
    · simp only [State.setThread, State.setPub, Function.update_of_ne hg]
      exact h.pub g'

omit [DecidableEq T] in
theorem recorded_crit (hcrit : (s.pubs g).crit = some crit) (hpc : crit.pc ≠ .assign) :
    recorded s payloads (.crit g ok) = payloads := by
  simp only [recorded, hcrit]

/-- One step of the critical section. -/
theorem DurableOk.critStep (h : DurableOk C s payloads)
    (hok : PubOk (C.slots g) g (s.pubs g)) (hcrit : (s.pubs g).crit = some crit)
    (ok : Bool) :
    DurableOk C (Replay.critStep C s g crit ok) (recorded s payloads (.crit g ok)) := by
  cases hpc : crit.pc with
  | assign =>
    simp only [Replay.critStep, recorded, hcrit, hpc]
    refine h.of_same (.goto hcrit rfl _ _) rfl ?_ ?_ rfl ?_ fun g' hne => ?_
    · simp only [Crit.stagedSeg, hpc]
    · simp only [Crit.evictedSeg, hpc]
    · rw [Function.update_self]
      exact (h.pub g).assign hok hcrit hpc
    · exact Function.update_of_ne hne _ _
  | latch hdr =>
    rw [recorded_crit hcrit (by simp [hpc])]
    simp only [Replay.critStep, hpc]
    split
    · rename_i rec hrec
      split
      · exact h.latchMarks hok hcrit hpc hrec
      · exact h.latchFails hcrit hpc
    · rename_i hrec
      -- A sample that was not staged has nothing to destroy.
      have hstaged : crit.call.staged = none := by
        cases hstaged : crit.call.staged with
        | none => rfl
        | some x =>
          rw [hstaged] at hrec
          cases hrec
      have hfails := h.latchFails hcrit hpc
      rw [hstaged] at hfails
      exact hfails
  | latching hdr =>
    rw [recorded_crit hcrit (by simp [hpc])]
    obtain ⟨⟨rec, hrec, -⟩, -⟩ := (h.pub g).latching crit hdr hcrit hpc
    simp only [Replay.critStep, hpc]
    have hstores := @store_cases G (C.slots g) _ rec hrec
    obtain ⟨hwriter, hstore⟩ | ⟨hrec', hmarks, f, hring⟩ := hstores
    · rw [hstore]
      exact h.latchCommits hok hcrit hpc hwriter
    · split
      · rename_i hidle
        rw [hidle] at hrec'
        cases hrec'
      · exact h.latchPuts hcrit hpc hrec hrec' hmarks hring
  | loadGen hdr latched =>
    rw [recorded_crit hcrit (by simp [hpc])]
    simp only [Replay.critStep, hpc]
    refine h.critGoto hcrit ?_ ?_ ?_ ?_ ?_ ?_ ?_ ?_ <;>
      simp [hpc, CritPc.unsent, CritPc.keeps, CritPc.latched, CritPc.early,
        Crit.stagedSeg, Crit.evictedSeg]
  | refresh hdr latched gen =>
    rw [recorded_crit hcrit (by simp [hpc])]
    simp only [Replay.critStep, hpc]
    split <;>
      refine h.critGoto hcrit ?_ ?_ ?_ ?_ ?_ ?_ ?_ ?_ <;>
        simp [hpc, CritPc.unsent, CritPc.keeps, CritPc.latched, CritPc.early,
          Crit.stagedSeg, Crit.evictedSeg]
  | send hdr latched sees =>
    rw [recorded_crit hcrit (by simp [hpc])]
    simp only [Replay.critStep, hpc]
    have hunlock : DurableOk C (s.critGoto g crit (s.pubs g) .unlock) payloads := by
      refine h.critGoto hcrit ?_ ?_ ?_ ?_ ?_ ?_ ?_ ?_ <;>
        simp [hpc, CritPc.unsent, CritPc.keeps, CritPc.latched, CritPc.early,
          Crit.stagedSeg, Crit.evictedSeg]
    split
    · exact hunlock.of_sub rfl rfl rfl rfl
    · exact hunlock
  | unlock =>
    rw [recorded_crit hcrit (by simp [hpc])]
    simp only [Replay.critStep, hpc]
    exact h.unlock hcrit hpc

end Crit

/-! ## The threads -/

section Threads

variable [DecidableEq T] {C : Config G} {s : State G T} {g : G}
  {payloads : G → Nat → List UInt8} {thread : T}

theorem held_setThread (s : State G T) (pc : ThreadPc G) {u : Owner G T}
    (hu : u ≠ .thread thread) : (s.setThread thread pc).held u = s.held u := by
  cases u with
  | thread t' =>
    have hne : t' ≠ thread := fun heq => hu (congrArg Owner.thread heq)
    simp only [State.held, State.setThread, Function.update_of_ne hne]
  | call g' | evicted g' | slot g' i => rfl

/-- A thread moves that is in no critical section. -/
theorem DurableOk.inside_setThread (h : DurableOk C s payloads)
    (hout : ∀ g, s.threads thread ≠ .inside g) (pc : ThreadPc G) {g : G}
    {crit : Crit G T} (hcrit : (s.pubs g).crit = some crit) :
    (s.setThread thread pc).threads crit.thread = .inside g := by
  have hinside := h.inside g crit hcrit
  have hne : crit.thread ≠ thread := by
    intro heq
    rw [heq] at hinside
    exact hout g hinside
  simp only [State.setThread, Function.update_of_ne hne]
  exact hinside

/-- A call begins, and its payload has been staged. -/
theorem DurableOk.publishStaged (h : DurableOk C s payloads)
    (hidle : s.threads thread = .idle) {call : Call}
    (hstaged : call.staged = some s.staged) {t : State G T}
    (ht : t = State.setThread
      { s with
        segments := Function.update s.segments s.staged (some call.payload)
        staged := s.staged + 1 } thread (.lock g call)) :
    DurableOk C t payloads := by
  subst ht
  have hfresh : s.segments s.staged = none := h.fresh s.staged (Nat.le_refl _)
  have hkeep : ∀ x, s.segments x ≠ none →
      Function.update s.segments s.staged (some call.payload) x = s.segments x := by
    intro x hx
    refine Function.update_of_ne ?_ _ _
    rintro rfl
    exact hx hfresh
  refine
    { linear := ?_, fresh := fun x hx => ?_, inside := fun g' crit hcrit => ?_
      waiting := fun t' g' call' x hlock hx => ?_, pub := fun g' => ?_ }
  · refine h.linear.create (.thread thread) (k := s.staged) ?_ ?_ ?_ (fun x => ?_)
      fun u hu => held_setThread _ _ hu
    · rw [State.held, hidle]
      rfl
    · simp only [State.held, State.setThread, Function.update_self]
      exact hstaged
    · exact fun hlinked => hlinked hfresh
    · show Function.update s.segments s.staged (some call.payload) x ≠ none ↔
        s.segments x ≠ none ∨ x = s.staged
      by_cases hx : x = s.staged
      · simp [hx]
      · simp [hx]
  · have hx' : s.staged + 1 ≤ x := hx
    have hne : x ≠ s.staged := by omega
    exact (Function.update_of_ne hne _ _).trans (h.fresh x (by omega))
  · exact h.inside_setThread (by rw [hidle]; nofun) _ hcrit
  · by_cases ht : t' = thread
    · rw [ht] at hlock
      simp only [State.setThread, Function.update_self] at hlock
      cases hlock
      rw [hstaged] at hx
      cases hx
      exact Function.update_self _ _ _
    · simp only [State.setThread, Function.update_of_ne ht] at hlock
      have hwaiting := h.waiting t' g' call' x hlock hx
      exact (hkeep x (by rw [hwaiting]; nofun)).trans hwaiting
  · refine (h.pub g').env (fun crit x _ _ _ hx => hkeep x hx)
      (fun x bytes hx hbytes => ?_) (Nat.le_succ _)
    have hne : x ≠ s.staged := Nat.ne_of_lt hx
    exact (Function.update_of_ne hne _ _).symm.trans hbytes

/-- A call begins, and nothing has been staged. -/
theorem DurableOk.publishPlain (h : DurableOk C s payloads)
    (hidle : s.threads thread = .idle) {call : Call} (hstaged : call.staged = none) :
    DurableOk C (s.setThread thread (.lock g call)) payloads where
  linear := by
    refine h.linear.congr (fun _ => Iff.rfl) fun u => ?_
    by_cases hu : u = .thread thread
    · rw [hu, State.held, State.held, hidle]
      simp only [State.setThread, Function.update_self]
      exact hstaged
    · exact held_setThread _ _ hu
  fresh := h.fresh
  inside _ _ hcrit := h.inside_setThread (by rw [hidle]; nofun) _ hcrit
  waiting t' g' call' x hlock hx := by
    by_cases ht : t' = thread
    · rw [ht] at hlock
      simp only [State.setThread, Function.update_self] at hlock
      cases hlock
      rw [hstaged] at hx
      cases hx
    · simp only [State.setThread, Function.update_of_ne ht] at hlock
      exact h.waiting t' g' call' x hlock hx
  pub := h.pub

theorem DurableOk.publish (h : DurableOk C s payloads)
    (hidle : s.threads thread = .idle) (sourceTimestampNs : Int)
    (payload : List UInt8) (ok : Bool) :
    DurableOk C ((stage s payload ok).1.setThread thread (.lock g
      { sourceTimestampNs := sourceTimestampNs, payload := payload,
        staged := (stage s payload ok).2 })) payloads := by
  unfold stage
  split
  · exact h.publishStaged hidle rfl rfl
  · exact h.publishPlain hidle rfl

/-- The end of a call: the evicted segment goes. -/
theorem DurableOk.destroy (h : DurableOk C s payloads) {x : Nat}
    (hpc : s.threads thread = .destroy x) :
    DurableOk C ((s.unlink x).setThread thread .idle) payloads := by
  have hheld : s.held (.thread thread) = some x := by
    rw [State.held, hpc]
    rfl
  refine h.of_unlink hheld rfl rfl ?_ (fun u hu => held_setThread _ _ hu)
    (fun g crit hcrit => ?_) (fun t' g' call hlock => ?_) fun g' => ?_
  · simp only [State.held, State.setThread, Function.update_self]
    rfl
  · exact h.inside_setThread (by rw [hpc]; nofun) _ hcrit
  · by_cases ht : t' = thread
    · rw [ht] at hlock
      simp only [State.setThread, Function.update_self] at hlock
      cases hlock
    · simp only [State.setThread, Function.update_of_ne ht] at hlock
      exact hlock
  · exact h.pub_of_unlink hheld nofun

variable [DecidableEq G]

/-- A call enters the critical section, with its staged segment. -/
theorem DurableOk.lock (h : DurableOk C s payloads) {call : Call}
    (hpc : s.threads thread = .lock g call) (hnone : (s.pubs g).crit = none) :
    DurableOk C ((s.critGoto g
      { thread := thread, call := call, evicted := none, pc := .assign }
      (s.pubs g) .assign).setThread thread (.inside g)) payloads := by
  have hlocks : ∀ g', s.threads thread ≠ .inside g' := by
    rw [hpc]
    nofun
  refine
    { linear := ?_, fresh := h.fresh, inside := fun g' crit hcrit => ?_
      waiting := fun t' g' call' x hlock hx => ?_, pub := fun g' => ?_ }
  · refine h.linear.hand (.thread thread) (.call g) ?_ ?_ ?_ fun u hu hu' => ?_
    · rw [State.held, hnone]
      rfl
    · simp only [State.held, State.setThread, Function.update_self]
      rfl
    · rw [State.held, State.held, hpc]
      simp only [State.setThread, State.critGoto, State.setPub, Function.update_self]
      rfl
    · refine (held_setThread _ _ hu).trans ?_
      by_cases hpublisher : u.publisher = some g
      · cases u with
        | thread t' => cases hpublisher
        | call g' =>
          cases hpublisher
          exact absurd rfl hu'
        | evicted g' =>
          cases hpublisher
          simp [State.held, State.critGoto, State.setPub, Crit.evictedSeg, hnone]
        | slot g' i =>
          cases hpublisher
          simp [State.held, State.critGoto, State.setPub]
      · refine held_of_other ?_ (fun g' hne => ?_) hpublisher
        · rfl
        · exact Function.update_of_ne hne _ _
  · by_cases hg : g' = g
    · subst hg
      simp only [State.setThread, State.critGoto, State.setPub,
        Function.update_self] at hcrit ⊢
      cases hcrit
      exact Function.update_self _ _ _
    · simp only [State.setThread, State.critGoto, State.setPub,
        Function.update_of_ne hg] at hcrit
      exact h.inside_setThread hlocks _ hcrit
  · by_cases ht : t' = thread
    · rw [ht] at hlock
      simp only [State.setThread, Function.update_self] at hlock
      cases hlock
    · simp only [State.setThread, Function.update_of_ne ht] at hlock
      exact h.waiting t' g' call' x hlock hx
  · by_cases hg : g' = g
    · subst hg
      simp only [State.setThread, State.critGoto, State.setPub, Function.update_self]
      refine (h.pub g').lock rfl rfl rfl rfl fun x hx => ?_
      have hsegment := h.waiting thread g' call x hpc hx
      refine ⟨hsegment, Nat.lt_of_not_le fun hle => ?_⟩
      rw [h.fresh x hle] at hsegment
      cases hsegment
    · simp only [State.setThread, State.critGoto, State.setPub,
        Function.update_of_ne hg]
      exact h.pub g'

end Threads

/-! ## Every run -/

section Run

variable [DecidableEq G] [DecidableEq T] {C : Config G} {s t : State G T}
  {payloads : G → Nat → List UInt8} {a : Act G T}

/-- Every step keeps the invariant. -/
theorem DurableOk.step (h : DurableOk C s payloads) (horder : OrderOk C s)
    (hstep : (machine C).step s a = some t) :
    DurableOk C t (recorded s payloads a) := by
  cases a with
  | publish thread g sourceTimestampNs payload ok =>
    simp only [machine, Replay.step] at hstep
    split at hstep
    · rename_i hidle
      cases hstep
      exact h.publish hidle _ _ _
    · cases hstep
  | lock thread =>
    simp only [machine, Replay.step] at hstep
    split at hstep
    · rename_i g call hpc
      split at hstep
      · rename_i hnone
        cases hstep
        exact h.lock hpc hnone
      · cases hstep
    · cases hstep
  | crit g ok =>
    obtain ⟨crit, hcrit, rfl⟩ := Option.map_eq_some_iff.mp hstep
    exact h.critStep (horder.pubs g) hcrit ok
  | destroy thread =>
    simp only [machine, Replay.step] at hstep
    split at hstep
    · rename_i x hpc
      cases hstep
      exact h.destroy hpc
    · cases hstep
  | bump =>
    cases hstep
    exact h.of_sub rfl rfl rfl rfl
  | query gs =>
    simp only [machine, Replay.step] at hstep
    split at hstep
    · split at hstep
      · cases hstep
        exact h.of_sub rfl rfl rfl rfl
      · cases hstep
    · cases hstep
  | sub ok =>
    obtain ⟨sub, generation, rfl⟩ := subStep_frame hstep
    exact h.of_sub rfl rfl rfl rfl
  | take =>
    simp only [machine, Replay.step] at hstep
    split at hstep
    · cases hstep
      exact h.of_sub rfl rfl rfl rfl
    · cases hstep

/-- The invariant holds in every run, with the one of the order. -/
theorem DurableOk.of_reach [Inhabited G] {ok : _ → Act G T → Prop}
    (h : (recording C).Reach ok (startRecording G T) (s, payloads)) :
    OrderOk C s ∧ DurableOk C s payloads := by
  refine h.invariant (I := fun r => OrderOk C r.1 ∧ DurableOk C r.1 r.2)
    ⟨.init C, .init C⟩ fun r a r' ⟨horder, hdurable⟩ _ hstep => ?_
  obtain ⟨t, ht, rfl⟩ := Option.map_eq_some_iff.mp hstep
  exact ⟨horder.step ht, hdurable.step horder ht⟩

end Run

/-! ## What it means -/

/-- A committed slot with the bit `SHM_PAYLOAD_FLAG`. -/
structure NamesSegment (slot : TlSlot G) : Prop where
  written : slot.seq ≠ 0
  even : slot.seq % 2 = 0
  flag : slot.header.shmPayload = true

/-- Slot `i` of `g` has the descriptor of a segment of its own, and the segment has
the bytes of the slot's sample. -/
def State.HoldsSample (s : State G T) (payloads : G → Nat → List UInt8) (g : G)
    (i : Nat) : Prop :=
  let slot := (s.pubs g).writer.ring.slots i
  slot.header.gid = g ∧ ∃ x,
    slot.area.take slot.payloadLen = descriptorCells x ∧
      s.held (.slot g i) = some x ∧
      s.segments x = some (payloads g slot.header.sequenceNumber)

section Meaning

variable {C : Config G} {s : State G T} {payloads : G → Nat → List UInt8} {g : G}

/-- A committed slot names a segment that is linked and has the bytes of the
sample. -/
theorem DurableOk.holdsSample (h : DurableOk C s payloads)
    (hok : PubOk (C.slots g) g (s.pubs g)) {i : Nat} (hi : i < C.slots g)
    (hnames : NamesSegment ((s.pubs g).writer.ring.slots i)) :
    s.HoldsSample payloads g i := by
  have hslot := hok.writer.slot i hi
  have hwritten := hnames.written
  have heven := hnames.even
  have hfree : ¬(s.pubs g).writer.BusyAt (C.slots g) i := by
    intro hbusy
    have := hslot.odd.mpr hbusy
    omega
  have hindex : ((s.pubs g).writer.ring.slots i).index ≠ 0 := by
    unfold TlSlot.index
    omega
  obtain ⟨rec, hmarked, hheld⟩ := hslot.holds hfree hindex
  have hrec := (h.pub g).records rec hmarked.mem
  have hflag := hnames.flag
  rw [hheld.header, hrec.flag] at hflag
  obtain ⟨x, hx⟩ := Option.isSome_iff_exists.mp hflag
  have howns : s.held (.slot g i) = some x :=
    ((h.pub g).owning.durable i hi hfree hindex rec hmarked).trans hx
  obtain ⟨bytes, hbytes⟩ := Option.ne_none_iff_exists'.mp (h.linear.alive _ x howns)
  refine ⟨?_, x, hheld.payload.trans (hrec.names x hx), howns, ?_⟩
  · exact (congrArg WireHeader.gid hheld.header).trans (hok.marks rec hmarked.mem).1
  · rw [hbytes, hrec.bytes x bytes hx hbytes, hheld.header]
    rfl

/-- A linked segment has one owner. -/
theorem DurableOk.owner (h : DurableOk C s payloads) {x : Nat}
    (hx : s.segments x ≠ none) : ∃! u, s.held u = some x := by
  obtain ⟨u, hu⟩ := h.linear.used x hx
  exact ⟨u, hu, fun v hv => h.linear.unique hv hu⟩

/-- Between the calls the owners are slots. -/
theorem DurableOk.owner_of_idle (h : DurableOk C s payloads)
    (hidle : ∀ t, s.threads t = .idle) {u : Owner G T} {x : Nat}
    (hu : s.held u = some x) : ∃ g i, i < C.slots g ∧ u = .slot g i := by
  have hcrit : ∀ g, (s.pubs g).crit = none := by
    intro g
    refine Option.eq_none_iff_forall_ne_some.mpr fun crit hcrit => ?_
    have hinside := h.inside g crit hcrit
    rw [hidle] at hinside
    cases hinside
  cases u with
  | thread t =>
    rw [State.held, hidle] at hu
    cases hu
  | call g | evicted g =>
    rw [State.held, hcrit] at hu
    cases hu
  | slot g i => exact ⟨g, i, (h.pub g).owning.bound i x hu, rfl⟩

/-- A descriptor that goes out names a segment that is linked and has the bytes of
the sample. -/
theorem DurableOk.sends (h : DurableOk C s payloads) {crit : Crit G T}
    {hdr : WireHeader G} {latched sees : Bool} (hcrit : (s.pubs g).crit = some crit)
    (hpc : crit.pc = .send hdr latched sees)
    (hflag : (crit.call.datagram hdr latched).header.shmPayload = true) :
    ∃ x, (crit.call.datagram hdr latched).payload = descriptorCells x ∧
      s.segments x = some (payloads g hdr.sequenceNumber) := by
  obtain ⟨hhdr, hpayload⟩ := (h.pub g).sample crit hdr hcrit (by rw [hpc]; rfl)
  have hplain : hdr.shmPayload = false := by
    rw [hhdr]
    rfl
  unfold Call.datagram at hflag ⊢
  split at hflag
  · rename_i x hstaged
    split at hflag
    · rename_i hlarge
      have hkeeps : crit.pc.keeps = true := by
        rw [hpc]
        exact hlarge.1
      refine ⟨x, ?_, ?_⟩
      · simp only [if_pos hlarge]
      · rw [hpayload]
        exact ((h.pub g).content crit x hcrit hkeeps hstaged).1
    · rw [hplain] at hflag
      cases hflag
  · rw [hplain] at hflag
    cases hflag

variable [DecidableEq G] [DecidableEq T]

/-- A latch that fails leaves the writer alone, and destroys the segment. -/
theorem critStep_of_fail {crit : Crit G T} {hdr : WireHeader G} {ok : Bool}
    (hpc : crit.pc = .latch hdr)
    (hfail : ((critStep C s g crit ok).pubs g).crit =
      some { crit with pc := .loadGen hdr false }) :
    ((critStep C s g crit ok).pubs g).writer = (s.pubs g).writer ∧
      ∀ x, crit.call.staged = some x →
        (critStep C s g crit ok).segments x = none := by
  have hfails : ((s.unlinkStaged crit.call.staged).critGoto g crit (s.pubs g)
      (.loadGen hdr false)).segments = (s.unlinkStaged crit.call.staged).segments :=
    rfl
  simp only [critStep, hpc] at hfail ⊢
  split at hfail
  · split at hfail
    · simp [State.critGoto, State.setPub] at hfail
    · rename_i hnot
      simp only [if_neg hnot]
      refine ⟨by simp [State.critGoto, State.setPub], fun x hx => ?_⟩
      rw [hfails, hx]
      exact Function.update_self _ _ _
  · rename_i hrec
    refine ⟨by simp [State.critGoto, State.setPub], fun x hx => ?_⟩
    rw [hx] at hrec
    cases hrec

end Meaning

/-- However the publishers, the threads and the failures interleave: a committed slot
with a descriptor has a linked segment with the bytes of its sample; a segment that
was staged is destroyed or has one owner, which is a slot between the calls, and no
owner has a handle of a destroyed one; a latch that fails leaves the writer alone and
destroys its segment; and a descriptor goes out while its segment is linked. -/
theorem durable_segments [Inhabited G] [DecidableEq G] [DecidableEq T] {C : Config G}
    {s : State G T} {payloads : G → Nat → List UInt8}
    (h : (recording C).Reach (fun _ _ => True) (startRecording G T) (s, payloads)) :
    (∀ g i, i < C.slots g → NamesSegment ((s.pubs g).writer.ring.slots i) →
      s.HoldsSample payloads g i) ∧
    (∀ x < s.staged, s.segments x = none ∧ (∀ u, s.held u ≠ some x) ∨
      s.segments x ≠ none ∧ (∃! u, s.held u = some x) ∧
        ((∀ t, s.threads t = .idle) →
          ∃ g i, i < C.slots g ∧ s.held (.slot g i) = some x)) ∧
    (∀ g crit hdr ok, (s.pubs g).crit = some crit → crit.pc = .latch hdr →
      ((critStep C s g crit ok).pubs g).crit =
        some { crit with pc := .loadGen hdr false } →
      ((critStep C s g crit ok).pubs g).writer = (s.pubs g).writer ∧
        ∀ x, crit.call.staged = some x →
          (critStep C s g crit ok).segments x = none) ∧
    (∀ g crit hdr latched sees, (s.pubs g).crit = some crit →
      crit.pc = .send hdr latched sees →
      (crit.call.datagram hdr latched).header.shmPayload = true →
      ∃ x, (crit.call.datagram hdr latched).payload = descriptorCells x ∧
        s.segments x = some (payloads g hdr.sequenceNumber)) := by
  obtain ⟨horder, hdurable⟩ := DurableOk.of_reach h
  refine ⟨fun g i hi hnames => hdurable.holdsSample (horder.pubs g) hi hnames,
    fun x _ => ?_, fun g crit hdr ok _ hpc hfail => critStep_of_fail hpc hfail,
    fun g crit hdr latched sees hcrit hpc hflag => hdurable.sends hcrit hpc hflag⟩
  by_cases hx : s.segments x = none
  · exact .inl ⟨hx, fun u hu => hdurable.linear.alive u x hu hx⟩
  · have howner := hdurable.owner hx
    refine .inr ⟨hx, howner, fun hidle => ?_⟩
    obtain ⟨u, hu, -⟩ := howner
    obtain ⟨g, i, hi, rfl⟩ := hdurable.owner_of_idle hidle hu
    exact ⟨g, i, hi, hu⟩

/-- One publisher of depth 1. -/
def oneSlot : Config Unit where
  depth := fun _ => 1
  hasRing := fun _ => true
  ignored := fun _ => false
  queueDepth := 10

/-- A publish of a payload that does not fit a slot, from its staging to its end. -/
def publishLarge (b : UInt8) : List (Act Unit Unit) :=
  [.publish () () 0 (List.replicate 1025 b) true, .lock ()] ++
    List.replicate 10 (.crit () true)

set_option maxRecDepth 100000 in
/-- Two samples for one slot: the segment of the first one is destroyed. -/
theorem durable_segments_two :
    ∃ s payloads, (recording oneSlot).Reach (fun _ _ => True)
        (startRecording Unit Unit) (s, payloads) ∧
      (s.staged = 2 ∧ s.segments 0 = none ∧ s.held (.slot () 0) = some 1) ∧
      s.HoldsSample payloads () 0 := by
  obtain ⟨⟨s, payloads⟩, hreach, hstaged, hgone, hheld, hseq, hflag⟩ :=
    (recording oneSlot).exists_reach_of_guardedRun (fun _ _ => True)
      (startRecording Unit Unit)
      (publishLarge 7 ++ publishLarge 8 ++ [.destroy ()])
      (fun r => r.1.staged = 2 ∧ r.1.segments 0 = none ∧
        r.1.held (.slot () 0) = some 1 ∧
        ((r.1.pubs ()).writer.ring.slots 0).seq = 4 ∧
        ((r.1.pubs ()).writer.ring.slots 0).header.shmPayload = true)
      (by decide +kernel)
  have hfour : ((s.pubs ()).writer.ring.slots 0).seq = 4 := hseq
  refine ⟨s, payloads, hreach, ⟨hstaged, hgone, hheld⟩,
    (durable_segments hreach).1 () 0 (by decide) ⟨?_, ?_, hflag⟩⟩
  · rw [hfour]
    decide
  · rw [hfour]

end RmwUnixSocket.Latch.Replay
