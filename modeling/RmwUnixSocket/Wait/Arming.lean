import RmwUnixSocket.Wait.Call

/-!
# The armed cache

What `rmw_wait` keeps about its fds over any history of calls: the cache
`armed` never takes a file for another one (`WorldOk`), the arming pass leaves
every fd of the arrays registered for its own entity or on the list `unarmed`,
and an event is dispatched to an entity of the arrays only (`ArmOk`).

The uid of an entity is never used again, and `close` takes the file from the
interest list.  So an entry of the cache whose uid still has the fd is
registered (`WorldOk.armed`).
-/

namespace RmwUnixSocket.Wait

variable {doorbell : Option Nat} {s t : State} {a b : Addr} {fd uid : Nat}
  {kind : EntityKind} {entry : ArmedEntry} {ok : Bool}

/-! ## The world -/

/-- A living entity of a heap. -/
def HasIn (heap : Addr → Option Entity) (a : Addr) (uid : Nat)
    (kind : EntityKind) (fd : Nat) : Prop :=
  ∃ e, heap a = some e ∧ e.uid = uid ∧ e.kind = kind ∧ e.fd = fd

/-- A living entity. -/
def State.Has (s : State) : Addr → Nat → EntityKind → Nat → Prop :=
  HasIn s.heap

/-- The invariant of the entities, the fd table, the interest list and the
cache. -/
structure WorldOk (doorbell : Option Nat) (s : State) : Prop where
  file : ∀ a uid kind fd, s.Has a uid kind fd → s.files fd = some uid
  fresh : ∀ a uid kind fd, s.Has a uid kind fd → 0 < uid ∧ uid < s.nextUid
  unique : ∀ a b uid kind kind' fd fd', s.Has a uid kind fd →
    s.Has b uid kind' fd' → a = b
  pos : 0 < s.nextUid
  bell : ∀ fd, doorbell = some fd → s.files fd = some 0
  kernel : ∀ fd uid, s.kernel fd = some uid → s.files fd = some uid
  armed : ∀ fd entry, s.armed fd = some entry →
    s.files fd = some entry.uid → s.kernel fd = some entry.uid
  old : ∀ fd entry, s.armed fd = some entry → entry.uid < s.nextUid
  entity : ∀ fd kind a uid, s.armed fd = some (.entity kind a uid) → 0 < uid ∧
    ∀ b kind' fd', s.Has b uid kind' fd' → b = a ∧ kind' = kind

theorem WorldOk.init (doorbell : Option Nat) :
    WorldOk doorbell (.init doorbell) where
  file := nofun
  fresh := nofun
  unique := nofun
  pos := Nat.one_pos
  bell _ hbell := if_pos hbell
  kernel := nofun
  armed := nofun
  old := nofun
  entity := nofun

theorem HasIn.unique {heap : Addr → Option Entity} {uid' fd' : Nat}
    {kind' : EntityKind} (h : HasIn heap a uid kind fd)
    (h' : HasIn heap a uid' kind' fd') : uid = uid' ∧ kind = kind' ∧ fd = fd' := by
  obtain ⟨e, he, rfl, rfl, rfl⟩ := h
  obtain ⟨e', he', rfl, rfl, rfl⟩ := h'
  rw [he] at he'
  cases he'
  exact ⟨rfl, rfl, rfl⟩

/-- Two entities with one fd are the same. -/
theorem WorldOk.same_fd (h : WorldOk doorbell s) {uid' : Nat}
    {kind' : EntityKind} (ha : s.Has a uid kind fd)
    (hb : s.Has b uid' kind' fd) : a = b ∧ uid = uid' ∧ kind = kind' := by
  have hfile := h.file _ _ _ _ ha
  rw [h.file _ _ _ _ hb] at hfile
  obtain rfl := Option.some.inj hfile
  obtain rfl := h.unique _ _ _ _ _ _ _ ha hb
  exact ⟨rfl, rfl, (ha.unique hb).2.1⟩

/-- Queues, sockets, triggers and locals of the call change only. -/
structure Quiet (s t : State) : Prop where
  has : ∀ a uid kind fd, t.Has a uid kind fd ↔ s.Has a uid kind fd
  nextUid : t.nextUid = s.nextUid
  files : t.files = s.files
  kernel : t.kernel = s.kernel
  armed : t.armed = s.armed
  given : t.call.given = s.call.given
  armedThisCall : t.call.armedThisCall = s.call.armedThisCall
  unarmed : t.call.unarmed = s.call.unarmed

theorem Quiet.refl (s : State) : Quiet s s where
  has _ _ _ _ := .rfl
  nextUid := rfl
  files := rfl
  kernel := rfl
  armed := rfl
  given := rfl
  armedThisCall := rfl
  unarmed := rfl

theorem Quiet.trans {u : State} (h : Quiet s t) (h' : Quiet t u) :
    Quiet s u where
  has a uid kind fd := (h'.has a uid kind fd).trans (h.has a uid kind fd)
  nextUid := h'.nextUid.trans h.nextUid
  files := h'.files.trans h.files
  kernel := h'.kernel.trans h.kernel
  armed := h'.armed.trans h.armed
  given := h'.given.trans h.given
  armedThisCall := h'.armedThisCall.trans h.armedThisCall
  unarmed := h'.unarmed.trans h.unarmed

/-- A step that leaves the world alone. -/
theorem Quiet.of_eq (hheap : t.heap = s.heap) (hnextUid : t.nextUid = s.nextUid)
    (hfiles : t.files = s.files) (hkernel : t.kernel = s.kernel)
    (harmed : t.armed = s.armed) (hgiven : t.call.given = s.call.given)
    (hthis : t.call.armedThisCall = s.call.armedThisCall)
    (hunarmed : t.call.unarmed = s.call.unarmed) : Quiet s t where
  has a uid kind fd := by
    unfold State.Has
    rw [hheap]
  nextUid := hnextUid
  files := hfiles
  kernel := hkernel
  armed := harmed
  given := hgiven
  armedThisCall := hthis
  unarmed := hunarmed

/-- A change of an entity's queue, socket or counter. -/
theorem Quiet.modify (s : State) (a : Addr) {f : Entity → Entity}
    (hf : ∀ e, (f e).uid = e.uid ∧ (f e).kind = e.kind ∧ (f e).fd = e.fd) :
    Quiet s (s.modify a f) where
  has b uid kind fd := by
    unfold State.Has HasIn State.modify
    by_cases hb : b = a
    · subst hb
      simp only [Function.update_self, Option.map_eq_some_iff]
      constructor
      · rintro ⟨-, ⟨e, he, rfl⟩, huid, hkind, hfd⟩
        obtain ⟨hu, hk, hd⟩ := hf e
        exact ⟨e, he, hu ▸ huid, hk ▸ hkind, hd ▸ hfd⟩
      · rintro ⟨e, he, huid, hkind, hfd⟩
        obtain ⟨hu, hk, hd⟩ := hf e
        exact ⟨f e, ⟨e, he, rfl⟩, hu.trans huid, hk.trans hkind, hd.trans hfd⟩
    · simp only [Function.update_of_ne hb]
  nextUid := rfl
  files := rfl
  kernel := rfl
  armed := rfl
  given := rfl
  armedThisCall := rfl
  unarmed := rfl

theorem WorldOk.quiet (h : WorldOk doorbell s) (hq : Quiet s t) :
    WorldOk doorbell t := by
  refine ⟨?_, ?_, ?_, ?_, ?_, ?_, ?_, ?_, ?_⟩
  · intro a uid kind fd ha
    rw [hq.files]
    exact h.file a uid kind fd ((hq.has ..).mp ha)
  · intro a uid kind fd ha
    rw [hq.nextUid]
    exact h.fresh a uid kind fd ((hq.has ..).mp ha)
  · intro a b uid kind kind' fd fd' ha hb
    exact h.unique a b uid kind kind' fd fd' ((hq.has ..).mp ha)
      ((hq.has ..).mp hb)
  · rw [hq.nextUid]
    exact h.pos
  · rw [hq.files]
    exact h.bell
  · rw [hq.files, hq.kernel]
    exact h.kernel
  · rw [hq.files, hq.kernel, hq.armed]
    exact h.armed
  · rw [hq.armed, hq.nextUid]
    exact h.old
  · rw [hq.armed]
    intro fd kind a uid harmed
    obtain ⟨hpos, hself⟩ := h.entity fd kind a uid harmed
    exact ⟨hpos, fun b kind' fd' hb => hself b kind' fd' ((hq.has ..).mp hb)⟩

/-! ## Creation and destruction -/

/-- `next_entity_uid`, and the kernel gives the entity a free fd number. -/
theorem WorldOk.create (h : WorldOk doorbell s) {depth : Nat}
    (hstep : step doorbell s (.create a fd kind depth) = some t) :
    WorldOk doorbell t := by
  simp only [step] at hstep
  split at hstep
  · rename_i hfree
    obtain ⟨hheap, hfiles⟩ := hfree
    cases hstep
    have hhas : ∀ b uid' kind' fd', HasIn (Function.update s.heap a (some
          { uid := s.nextUid, kind := kind, fd := fd, depth := depth,
            queue := 0, socket := [], counter := 0 })) b uid' kind' fd' →
        b = a ∧ uid' = s.nextUid ∧ kind' = kind ∧ fd' = fd ∨
          b ≠ a ∧ s.Has b uid' kind' fd' := by
      rintro b uid' kind' fd' ⟨e, he, rfl, rfl, rfl⟩
      by_cases hb : b = a
      · subst hb
        rw [Function.update_self] at he
        cases he
        exact .inl ⟨rfl, rfl, rfl, rfl⟩
      · rw [Function.update_of_ne hb] at he
        exact .inr ⟨hb, e, he, rfl, rfl, rfl⟩
    have hne : ∀ {fd' u}, s.files fd' = some u → fd' ≠ fd := by
      rintro fd' u hu rfl
      rw [hfiles] at hu
      cases hu
    refine ⟨?_, ?_, ?_, Nat.succ_pos _, ?_, ?_, ?_, ?_, ?_⟩
    · intro b uid' kind' fd' hb
      rcases hhas b uid' kind' fd' hb with ⟨-, rfl, -, rfl⟩ | ⟨-, hold⟩
      · exact Function.update_self ..
      · have hfile := h.file _ _ _ _ hold
        exact (Function.update_of_ne (hne hfile) ..).trans hfile
    · intro b uid' kind' fd' hb
      rcases hhas b uid' kind' fd' hb with ⟨-, rfl, -⟩ | ⟨-, hold⟩
      · exact ⟨h.pos, Nat.lt_succ_self _⟩
      · obtain ⟨hpos, hlt⟩ := h.fresh _ _ _ _ hold
        exact ⟨hpos, Nat.lt_succ_of_lt hlt⟩
    · intro b c uid' kind' kind'' fd' fd'' hb hc
      rcases hhas _ _ _ _ hb with ⟨rfl, rfl, -⟩ | ⟨-, hold⟩
      · rcases hhas _ _ _ _ hc with ⟨rfl, -⟩ | ⟨-, hold'⟩
        · rfl
        · exact absurd (h.fresh _ _ _ _ hold').2 (Nat.lt_irrefl _)
      · rcases hhas _ _ _ _ hc with ⟨-, rfl, -⟩ | ⟨-, hold'⟩
        · exact absurd (h.fresh _ _ _ _ hold).2 (Nat.lt_irrefl _)
        · exact h.unique _ _ _ _ _ _ _ hold hold'
    · intro fd' hbell
      have hfile := h.bell fd' hbell
      exact (Function.update_of_ne (hne hfile) ..).trans hfile
    · intro fd' uid' hkernel
      have hfile := h.kernel fd' uid' hkernel
      exact (Function.update_of_ne (hne hfile) ..).trans hfile
    · intro fd' entry harmed hfile
      by_cases hfd : fd' = fd
      · subst hfd
        have hlt := h.old fd' entry harmed
        simp only [Function.update_self, Option.some.injEq] at hfile
        omega
      · simp only [Function.update_of_ne hfd] at hfile
        exact h.armed fd' entry harmed hfile
    · intro fd' entry harmed
      exact Nat.lt_succ_of_lt (h.old fd' entry harmed)
    · intro fd' kind' a' uid' harmed
      obtain ⟨hpos, hself⟩ := h.entity fd' kind' a' uid' harmed
      refine ⟨hpos, fun b kind'' fd'' hb => ?_⟩
      rcases hhas _ _ _ _ hb with ⟨-, rfl, -⟩ | ⟨-, hold⟩
      · exact absurd (h.old fd' _ harmed) (Nat.lt_irrefl _)
      · exact hself b kind'' fd'' hold
  · cases hstep

/-- The fd of a destroyed entity is closed. -/
theorem WorldOk.destroy (h : WorldOk doorbell s)
    (hstep : step doorbell s (.destroy a) = some t) : WorldOk doorbell t := by
  simp only [step] at hstep
  split at hstep
  · rename_i e he
    split at hstep
    · cases hstep
    · cases hstep
      have hself : s.Has a e.uid e.kind e.fd := ⟨e, he, rfl, rfl, rfl⟩
      have hhas : ∀ b uid' kind' fd',
          HasIn (Function.update s.heap a none) b uid' kind' fd' →
          s.Has b uid' kind' fd' ∧ fd' ≠ e.fd := by
        rintro b uid' kind' fd' ⟨e', he', rfl, rfl, rfl⟩
        by_cases hb : b = a
        · subst hb
          rw [Function.update_self] at he'
          cases he'
        · rw [Function.update_of_ne hb] at he'
          have hold : s.Has b e'.uid e'.kind e'.fd := ⟨e', he', rfl, rfl, rfl⟩
          refine ⟨hold, fun heq => hb ?_⟩
          rw [heq] at hold
          exact (h.same_fd hold hself).1
      refine ⟨?_, ?_, ?_, h.pos, ?_, ?_, ?_, h.old, ?_⟩
      · intro b uid' kind' fd' hb
        obtain ⟨hold, hne⟩ := hhas _ _ _ _ hb
        exact (Function.update_of_ne hne ..).trans (h.file _ _ _ _ hold)
      · intro b uid' kind' fd' hb
        exact h.fresh _ _ _ _ (hhas _ _ _ _ hb).1
      · intro b c uid' kind' kind'' fd' fd'' hb hc
        exact h.unique _ _ _ _ _ _ _ (hhas _ _ _ _ hb).1 (hhas _ _ _ _ hc).1
      · intro fd' hbell
        have hfile := h.bell fd' hbell
        refine (Function.update_of_ne ?_ ..).trans hfile
        rintro rfl
        rw [h.file _ _ _ _ hself] at hfile
        have hpos := (h.fresh _ _ _ _ hself).1
        simp only [Option.some.injEq] at hfile
        omega
      · intro fd' uid' hkernel
        by_cases hfd : fd' = e.fd
        · subst hfd
          simp only [Function.update_self] at hkernel
          cases hkernel
        · simp only [Function.update_of_ne hfd] at hkernel ⊢
          exact h.kernel fd' uid' hkernel
      · intro fd' entry harmed hfile
        by_cases hfd : fd' = e.fd
        · subst hfd
          simp only [Function.update_self] at hfile
          cases hfile
        · simp only [Function.update_of_ne hfd] at hfile ⊢
          exact h.armed fd' entry harmed hfile
      · intro fd' kind' a' uid' harmed
        obtain ⟨hpos, hown⟩ := h.entity fd' kind' a' uid' harmed
        exact ⟨hpos, fun b kind'' fd'' hb =>
          hown b kind'' fd'' (hhas _ _ _ _ hb).1⟩
  · cases hstep

/-! ## The arming pass -/

/-- The fd becomes one of the call's. -/
def Call.addFd (fd : Nat) (call : Call) : Call :=
  { call with armedThisCall := fd :: call.armedThisCall }

/-- What `register_fd` does: the cache has the entity already, the fd is
registered now, or the entity goes on the list `unarmed`. -/
inductive Registered (s : State) (fd : Nat) (entry : ArmedEntry) :
    State → Prop
  | kept (same : (s.armed fd).map ArmedEntry.uid = some entry.uid) :
      Registered s fd entry (s.setCall (Call.addFd fd))
  | added (kernel : Nat → Option Nat)
      (self : ∃ uid, kernel fd = some uid ∧
        (s.kernel fd = some uid ∨ s.files fd = some uid))
      (other : ∀ fd' ≠ fd, kernel fd' = s.kernel fd') :
      Registered s fd entry
        { s.setCall (Call.addFd fd) with
          kernel := kernel,
          armed := Function.update s.armed fd (some entry) }
  | failed :
      Registered s fd entry
        (s.setCall fun call =>
          { call with
            armedThisCall := call.armedThisCall.filter (· ≠ fd),
            unarmed := call.unarmed ++ [entry] })

theorem registerFd_registered (s : State) (fd : Nat) (entry : ArmedEntry)
    (ok : Bool) : Registered s fd entry (s.registerFd fd entry ok) := by
  unfold State.registerFd
  simp only
  split
  · rename_i hsame
    exact .kept hsame
  · split
    · rename_i u hadd
      unfold State.epollAdd at hadd
      split at hadd
      · split at hadd
        · rename_i uid hin
          cases hadd
          exact .added s.kernel ⟨uid, hin, .inl hin⟩ fun _ _ => rfl
        · obtain ⟨uid, hfile, rfl⟩ := Option.map_eq_some_iff.mp hadd
          exact .added _ ⟨uid, Function.update_self .., .inr hfile⟩
            fun fd' hne => Function.update_of_ne hne ..
      · cases hadd
    · exact .failed

/-- `register_fd` of a file. -/
theorem WorldOk.registerFd (h : WorldOk doorbell s)
    (hfile : s.files fd = some entry.uid) (hlt : entry.uid < s.nextUid)
    (hentity : ∀ kind a uid, entry = .entity kind a uid → 0 < uid ∧
      ∀ b kind' fd', s.Has b uid kind' fd' → b = a ∧ kind' = kind)
    (ht : Registered s fd entry t) : WorldOk doorbell t := by
  cases ht with
  | kept | failed =>
    exact ⟨h.file, h.fresh, h.unique, h.pos, h.bell, h.kernel, h.armed, h.old,
      h.entity⟩
  | added kernel self other =>
    have hself : kernel fd = some entry.uid := by
      obtain ⟨uid, heq, hold | hnew⟩ := self
      · rw [h.kernel fd uid hold] at hfile
        rw [heq, hfile]
      · rw [heq, ← hnew, hfile]
    have harmed : ∀ fd' entry',
        Function.update s.armed fd (some entry) fd' = some entry' →
        fd' = fd ∧ entry' = entry ∨ fd' ≠ fd ∧ s.armed fd' = some entry' := by
      intro fd' entry' ha
      by_cases hfd : fd' = fd
      · subst hfd
        rw [Function.update_self] at ha
        exact .inl ⟨rfl, (Option.some.inj ha).symm⟩
      · rw [Function.update_of_ne hfd] at ha
        exact .inr ⟨hfd, ha⟩
    refine ⟨h.file, h.fresh, h.unique, h.pos, h.bell, ?_, ?_, ?_, ?_⟩
    · intro fd' uid' hk
      by_cases hfd : fd' = fd
      · subst hfd
        rw [show kernel fd' = some uid' from hk] at hself
        rw [hself]
        exact hfile
      · exact h.kernel fd' uid' ((other fd' hfd).symm.trans hk)
    · intro fd' entry' ha hf
      rcases harmed fd' entry' ha with ⟨rfl, rfl⟩ | ⟨hne, hold⟩
      · exact hself
      · exact (other fd' hne).trans (h.armed fd' entry' hold hf)
    · intro fd' entry' ha
      rcases harmed fd' entry' ha with ⟨rfl, rfl⟩ | ⟨-, hold⟩
      · exact hlt
      · exact h.old fd' entry' hold
    · intro fd' kind' a' uid' ha
      rcases harmed fd' _ ha with ⟨-, heq⟩ | ⟨-, hold⟩
      · exact hentity kind' a' uid' heq.symm
      · exact h.entity fd' kind' a' uid' hold

/-- An event of an fd that the call has not armed. -/
theorem WorldOk.withdraw (h : WorldOk doorbell s) (fd : Nat) (ok : Bool) :
    WorldOk doorbell (s.withdraw fd ok) := by
  have hkernel : ∀ fd', (s.withdraw fd ok).kernel fd' = s.kernel fd' ∨
      fd' = fd ∧ (s.withdraw fd ok).kernel fd' = none := by
    intro fd'
    unfold State.withdraw
    simp only
    split
    · by_cases hfd : fd' = fd
      · subst hfd
        exact .inr ⟨rfl, Function.update_self ..⟩
      · exact .inl (Function.update_of_ne hfd ..)
    · exact .inl rfl
  have harmed : ∀ fd' entry, (s.withdraw fd ok).armed fd' = some entry →
      fd' ≠ fd ∧ s.armed fd' = some entry := by
    intro fd' entry ha
    by_cases hfd : fd' = fd
    · subst hfd
      simp only [State.withdraw, Function.update_self] at ha
      cases ha
    · simp only [State.withdraw, Function.update_of_ne hfd] at ha
      exact ⟨hfd, ha⟩
  refine ⟨h.file, h.fresh, h.unique, h.pos, h.bell, ?_, ?_, ?_, ?_⟩
  · intro fd' uid' hk
    rcases hkernel fd' with heq | ⟨-, hnone⟩
    · rw [heq] at hk
      exact h.kernel fd' uid' hk
    · rw [hnone] at hk
      cases hk
  · intro fd' entry ha hf
    obtain ⟨hne, hold⟩ := harmed fd' entry ha
    rcases hkernel fd' with heq | ⟨heq, -⟩
    · rw [heq]
      exact h.armed fd' entry hold hf
    · exact absurd heq hne
  · exact fun fd' entry ha => h.old fd' entry (harmed fd' entry ha).2
  · exact fun fd' kind a uid ha => h.entity fd' kind a uid (harmed fd' _ ha).2

/-! ## The arrays of the call -/

/-- The targets that the arming pass has still to register. -/
def Pc.arming : Pc → List (EntityKind × Addr)
  | .arm todo => todo
  | _ => []

/-- The cache has the entity of an fd that the call has armed. -/
def State.Mine (doorbell : Option Nat) (s : State) (fd : Nat) : Prop :=
  (doorbell = some fd ∧ s.armed fd = some .doorbell) ∨
    ∃ kind a uid, (kind, a) ∈ s.call.given.targets ∧ s.Has a uid kind fd ∧
      s.armed fd = some (.entity kind a uid)

/-- The entity is armed by this call, or it is on the list `unarmed`. -/
def State.Watched (s : State) (target : EntityKind × Addr) : Prop :=
  ∀ uid fd, s.Has target.2 uid target.1 fd →
    (fd ∈ s.call.armedThisCall ∧
      s.armed fd = some (.entity target.1 target.2 uid)) ∨
    .entity target.1 target.2 uid ∈ s.call.unarmed

/-- The invariant of the arming pass and of the dispatch. -/
structure ArmOk (doorbell : Option Nat) (s : State) : Prop where
  world : WorldOk doorbell s
  alive : s.inCall = true → ∀ target ∈ s.call.given.targets,
    ∃ uid fd, s.Has target.2 uid target.1 fd
  mine : s.inCall = true → ∀ fd ∈ s.call.armedThisCall, s.Mine doorbell fd
  watched : s.inCall = true → ∀ target ∈ s.call.given.targets,
    target ∈ s.pc.arming ∨ s.Watched target
  todo : ∀ target ∈ s.pc.arming, target ∈ s.call.given.targets
  touched : ∀ target ∈ s.call.touched, target ∈ s.call.given.targets

theorem ArmOk.init (doorbell : Option Nat) : ArmOk doorbell (.init doorbell) where
  world := .init doorbell
  alive := nofun
  mine := nofun
  watched := nofun
  todo := nofun
  touched := nofun

theorem State.Mine.quiet (h : s.Mine doorbell fd) (hq : Quiet s t) :
    t.Mine doorbell fd := by
  rcases h with ⟨hbell, harmed⟩ | ⟨kind, a, uid, htarget, hhas, harmed⟩
  · exact .inl ⟨hbell, by rw [hq.armed]; exact harmed⟩
  · refine .inr ⟨kind, a, uid, ?_, (hq.has ..).mpr hhas, ?_⟩
    · rw [hq.given]
      exact htarget
    · rw [hq.armed]
      exact harmed

theorem State.Watched.quiet {target : EntityKind × Addr}
    (h : s.Watched target) (hq : Quiet s t) : t.Watched target := by
  intro uid fd hhas
  rw [hq.armedThisCall, hq.armed, hq.unarmed]
  exact h uid fd ((hq.has ..).mp hhas)

/-- A step of the call that leaves the world alone. -/
theorem ArmOk.quiet (h : ArmOk doorbell s) (hq : Quiet s t)
    (hin : t.inCall = true → s.inCall = true)
    (harming : s.pc.arming = [] ∧ t.pc.arming = [] ∨ t.pc = s.pc)
    (htouched : ∀ target ∈ t.call.touched, target ∈ s.call.touched ∨
      target ∈ s.call.given.targets) : ArmOk doorbell t where
  world := h.world.quiet hq
  alive hcall target htarget := by
    rw [hq.given] at htarget
    obtain ⟨uid, fd, hhas⟩ := h.alive (hin hcall) target htarget
    exact ⟨uid, fd, (hq.has ..).mpr hhas⟩
  mine hcall fd hfd := by
    rw [hq.armedThisCall] at hfd
    exact (h.mine (hin hcall) fd hfd).quiet hq
  watched hcall target htarget := by
    rw [hq.given] at htarget
    have hold := h.watched (hin hcall) target htarget
    rcases harming with ⟨hs, ht⟩ | hpc
    · rw [hs] at hold
      rw [ht]
      exact hold.imp_right fun hw => hw.quiet hq
    · rw [hpc]
      exact hold.imp_right fun hw => hw.quiet hq
  todo target htarget := by
    rw [hq.given]
    rcases harming with ⟨-, ht⟩ | hpc
    · rw [ht] at htarget
      cases htarget
    · rw [hpc] at htarget
      exact h.todo target htarget
  touched target htarget := by
    rw [hq.given]
    exact (htouched target htarget).elim (h.touched target) id

/-- The arming pass registers one fd. -/
theorem ArmOk.register (h : ArmOk doorbell s) (hcall : s.inCall = true)
    (hfile : s.files fd = some entry.uid)
    (hentity : (doorbell = some fd ∧ entry = .doorbell) ∨
      ∃ kind a uid, (kind, a) ∈ s.call.given.targets ∧ s.Has a uid kind fd ∧
        entry = .entity kind a uid)
    (ht : Registered s fd entry t) {pc : Pc}
    (htodo : ∀ target ∈ s.pc.arming, target ∈ pc.arming ∨
      ∃ uid, s.Has target.2 uid target.1 fd ∧
        entry = .entity target.1 target.2 uid)
    (hsub : ∀ target ∈ pc.arming, target ∈ s.pc.arming) :
    ArmOk doorbell (t.goto pc) := by
  have hpos : ∀ kind a uid, entry = .entity kind a uid → 0 < uid ∧
      ∀ b kind' fd', s.Has b uid kind' fd' → b = a ∧ kind' = kind := by
    intro kind a uid heq
    rcases hentity with ⟨-, hbell⟩ | ⟨kind', a', uid', -, hhas, heq'⟩
    · rw [heq] at hbell
      cases hbell
    · rw [heq] at heq'
      cases heq'
      refine ⟨(h.world.fresh _ _ _ _ hhas).1, fun b kind' fd' hb => ?_⟩
      obtain rfl := h.world.unique _ _ _ _ _ _ _ hb hhas
      exact ⟨rfl, (hb.unique hhas).2.1⟩
  have hlt : entry.uid < s.nextUid := by
    rcases hentity with ⟨-, rfl⟩ | ⟨kind, a, uid, -, hhas, rfl⟩
    · exact h.world.pos
    · exact (h.world.fresh _ _ _ _ hhas).2
  have hworld := h.world.registerFd hfile hlt hpos ht
  -- An entry of the cache with this fd and this uid is the entry itself.
  have hsame : (s.armed fd).map ArmedEntry.uid = some entry.uid →
      s.armed fd = some entry := by
    intro heq
    obtain ⟨entry', harmed, huid⟩ := Option.map_eq_some_iff.mp heq
    rw [harmed]
    rcases hentity with ⟨-, rfl⟩ | ⟨kind, a, uid, -, hhas, rfl⟩
    · cases entry' with
      | doorbell => rfl
      | entity kind a uid =>
        have := (h.world.entity fd kind a uid harmed).1
        simp only [ArmedEntry.uid] at huid
        omega
    · cases entry' with
      | doorbell =>
        have := (h.world.fresh _ _ _ _ hhas).1
        simp only [ArmedEntry.uid] at huid
        omega
      | entity kind' a' uid' =>
        obtain rfl : uid' = uid := huid
        obtain ⟨rfl, rfl⟩ := (h.world.entity fd kind' a' uid' harmed).2 _ _ _ hhas
        rfl
  have hself : s.armed fd = some entry → s.Mine doorbell fd := by
    intro harmed
    rcases hentity with ⟨hbell, rfl⟩ | ⟨kind, a, uid, htarget, hhas, rfl⟩
    · exact .inl ⟨hbell, harmed⟩
    · exact .inr ⟨kind, a, uid, htarget, hhas, harmed⟩
  -- The other entities have other fds.
  have hother : ∀ (target : EntityKind × Addr) uid fd',
      s.Has target.2 uid target.1 fd' →
      fd' = fd → entry = .entity target.1 target.2 uid := by
    rintro target uid fd' hhas rfl
    rcases hentity with ⟨hbell, rfl⟩ | ⟨kind, a, uid', -, hhas', rfl⟩
    · rw [h.world.bell _ hbell] at hfile
      have hown := h.world.file _ _ _ _ hhas
      rw [h.world.bell _ hbell] at hown
      have := (h.world.fresh _ _ _ _ hhas).1
      simp only [Option.some.injEq] at hown
      omega
    · obtain ⟨rfl, rfl, rfl⟩ := h.world.same_fd hhas' hhas
      rfl
  have hwatched : ∀ target ∈ s.call.given.targets, target ∈ pc.arming ∨
      s.Watched target ∨ ∃ uid, s.Has target.2 uid target.1 fd ∧
        entry = .entity target.1 target.2 uid := by
    intro target htarget
    rcases h.watched hcall target htarget with hin | hw
    · exact (htodo target hin).imp_right .inr
    · exact .inr (.inl hw)
  cases ht with
  | kept same =>
    refine ⟨hworld.quiet (.of_eq rfl rfl rfl rfl rfl rfl rfl rfl),
      fun _ => h.alive hcall, fun _ fd' hfd' => ?_, fun _ target htarget => ?_,
      fun target htarget => h.todo target (hsub target htarget), h.touched⟩
    · rcases List.mem_cons.mp hfd' with rfl | hold
      · exact hself (hsame same)
      · exact h.mine hcall fd' hold
    · refine (hwatched target htarget).imp_right fun hw uid fd' hhas => ?_
      rcases hw with hw | ⟨uid', hhas', heq⟩
      · exact (hw uid fd' hhas).imp_left fun ⟨hin, harmed⟩ =>
          ⟨List.mem_cons_of_mem _ hin, harmed⟩
      · obtain ⟨rfl, -, rfl⟩ := hhas'.unique hhas
        exact .inl ⟨List.mem_cons_self, (hsame same).trans (by rw [heq])⟩
  | added kernel self other =>
    refine ⟨hworld.quiet (.of_eq rfl rfl rfl rfl rfl rfl rfl rfl),
      fun _ => h.alive hcall, fun _ fd' hfd' => ?_, fun _ target htarget => ?_,
      fun target htarget => h.todo target (hsub target htarget), h.touched⟩
    · by_cases hfd : fd' = fd
      · subst hfd
        have hnew : Function.update s.armed fd' (some entry) fd' = some entry :=
          Function.update_self ..
        rcases hentity with ⟨hbell, rfl⟩ | ⟨kind, a, uid, htarget, hhas, rfl⟩
        · exact .inl ⟨hbell, hnew⟩
        · exact .inr ⟨kind, a, uid, htarget, hhas, hnew⟩
      · have hold : fd' ∈ s.call.armedThisCall :=
          (List.mem_cons.mp hfd').resolve_left hfd
        have heq : Function.update s.armed fd (some entry) fd' = s.armed fd' :=
          Function.update_of_ne hfd ..
        rcases h.mine hcall fd' hold with ⟨hbell, harmed⟩ |
          ⟨kind, a, uid, htarget, hhas, harmed⟩
        · exact .inl ⟨hbell, heq.trans harmed⟩
        · exact .inr ⟨kind, a, uid, htarget, hhas, heq.trans harmed⟩
    · refine (hwatched target htarget).imp_right fun hw uid fd' hhas => ?_
      by_cases hfd : fd' = fd
      · refine .inl ⟨hfd ▸ List.mem_cons_self, ?_⟩
        rw [← hother target uid fd' hhas hfd, hfd]
        exact Function.update_self ..
      · rcases hw with hw | ⟨uid', hhas', -⟩
        · refine (hw uid fd' hhas).imp_left fun ⟨hin, harmed⟩ =>
            ⟨List.mem_cons_of_mem _ hin, ?_⟩
          exact (Function.update_of_ne hfd ..).trans harmed
        · exact absurd (hhas.unique hhas').2.2 hfd
  | failed =>
    refine ⟨hworld.quiet (.of_eq rfl rfl rfl rfl rfl rfl rfl rfl),
      fun _ => h.alive hcall, fun _ fd' hfd' => ?_, fun _ target htarget => ?_,
      fun target htarget => h.todo target (hsub target htarget), h.touched⟩
    · exact h.mine hcall fd' (List.mem_filter.mp hfd').1
    · refine (hwatched target htarget).imp_right fun hw uid fd' hhas => ?_
      by_cases hfd : fd' = fd
      · rw [← hother target uid fd' hhas hfd]
        exact .inr (List.mem_append_right _ (List.mem_singleton.mpr rfl))
      · rcases hw with hw | ⟨uid', hhas', -⟩
        · refine (hw uid fd' hhas).imp (fun ⟨hin, harmed⟩ => ⟨?_, harmed⟩)
            (List.mem_append_left _)
          exact List.mem_filter.mpr ⟨hin, by simpa using hfd⟩
        · exact absurd (hhas.unique hhas').2.2 hfd

/-- An event of an fd that the call has not armed. -/
theorem ArmOk.withdraw (h : ArmOk doorbell s) (hcall : s.inCall = true)
    (hfd : s.armed fd = none ∨ fd ∉ s.call.armedThisCall)
    (hpc : s.pc.arming = []) {pc : Pc} (hpc' : pc.arming = []) :
    ArmOk doorbell ((s.withdraw fd ok).goto pc) := by
  have hnot : fd ∉ s.call.armedThisCall := by
    rcases hfd with hnone | hnot
    · intro hin
      rcases h.mine hcall fd hin with ⟨-, harmed⟩ | ⟨kind, a, uid, -, -, harmed⟩
      · rw [hnone] at harmed
        cases harmed
      · rw [hnone] at harmed
        cases harmed
    · exact hnot
  have hkeep : ∀ fd' ∈ s.call.armedThisCall,
      (s.withdraw fd ok).armed fd' = s.armed fd' := by
    intro fd' hin
    refine Function.update_of_ne ?_ ..
    rintro rfl
    exact hnot hin
  refine ⟨(h.world.withdraw fd ok).quiet (.of_eq rfl rfl rfl rfl rfl rfl rfl rfl),
    fun _ => h.alive hcall, fun _ fd' hfd' => ?_, fun _ target htarget => ?_,
    fun target htarget => ?_, h.touched⟩
  · rcases h.mine hcall fd' hfd' with ⟨hbell, harmed⟩ |
      ⟨kind, a, uid, htarget, hhas, harmed⟩
    · exact .inl ⟨hbell, (hkeep fd' hfd').trans harmed⟩
    · exact .inr ⟨kind, a, uid, htarget, hhas, (hkeep fd' hfd').trans harmed⟩
  · have hold := h.watched hcall target htarget
    rw [hpc] at hold
    refine .inr fun uid fd' hhas => ?_
    refine ((hold.resolve_left nofun) uid fd' hhas).imp_left
      fun ⟨hin, harmed⟩ => ⟨hin, (hkeep fd' hin).trans harmed⟩
  · rw [show (State.goto _ pc).pc.arming = pc.arming from rfl, hpc'] at htarget
    cases htarget

/-! ## Every step -/

/-- A step behind the arming pass. -/
theorem ArmOk.next (h : ArmOk doorbell s) (hcall : s.inCall = true)
    (hq : Quiet s t) (hs : s.pc.arming = []) (ht : t.pc.arming = [])
    (htouched : t.call.touched = s.call.touched) : ArmOk doorbell t :=
  h.quiet hq (fun _ => hcall) (.inl ⟨hs, ht⟩) fun target htarget => by
    rw [htouched] at htarget
    exact .inl htarget

theorem drainSocket_ids (e : Entity) : e.drainSocket.uid = e.uid ∧
    e.drainSocket.kind = e.kind ∧ e.drainSocket.fd = e.fd :=
  ⟨rfl, rfl, rfl⟩

theorem Quiet.consume (s : State) (a : Addr) : Quiet s (s.consume a) :=
  have hread : Quiet s (s.modify a fun e => { e with counter := 0 }) :=
    .modify s a fun _ => ⟨rfl, rfl, rfl⟩
  hread.trans (.of_eq rfl rfl rfl rfl rfl rfl rfl rfl)

/-- One entry of the output pass. -/
theorem Quiet.outputStep (s : State) (kind : EntityKind) (i : Nat) :
    Quiet s (outputStep s kind i) := by
  have hready : Quiet s (s.setCall fun call => { call with anyReady := true }) :=
    .of_eq rfl rfl rfl rfl rfl rfl rfl rfl
  unfold Wait.outputStep
  simp only
  split
  · exact .refl s
  · split
    · split
      · exact hready.trans (.consume _ _)
      · split
        · exact .of_eq rfl rfl rfl rfl rfl rfl rfl rfl
        · exact .of_eq rfl rfl rfl rfl rfl rfl rfl rfl
    · split
      · exact .of_eq rfl rfl rfl rfl rfl rfl rfl rfl
      · exact .of_eq rfl rfl rfl rfl rfl rfl rfl rfl

theorem outputStep_touched (s : State) (kind : EntityKind) (i : Nat) :
    (outputStep s kind i).call.touched = s.call.touched := by
  unfold outputStep
  simp only
  split
  · rfl
  · split
    · split
      · rfl
      · split <;> rfl
    · split <;> rfl

/-- The event of one fd. -/
theorem ArmOk.dispatchStep (h : ArmOk doorbell s) (hcall : s.inCall = true)
    (hpc : s.pc.arming = []) (n : Nat) (ready : List Nat) (progressed : Bool) :
    ArmOk doorbell (dispatchStep s n fd ready progressed ok) := by
  have htouch : ∀ {kind a uid}, s.armed fd = some (.entity kind a uid) →
      fd ∈ s.call.armedThisCall → ∀ {t : State}, Quiet s t → t.pc.arming = [] →
      t.call.touched = (kind, a) :: s.call.touched → ArmOk doorbell t := by
    intro kind a uid harmed hin t hq ht htouched
    refine h.quiet hq (fun _ => hcall) (.inl ⟨hpc, ht⟩) fun target htarget => ?_
    rw [htouched] at htarget
    rcases List.mem_cons.mp htarget with rfl | hold
    · rcases h.mine hcall fd hin with ⟨-, hbell⟩ |
        ⟨kind', a', uid', hgiven, -, hown⟩
      · rw [harmed] at hbell
        cases hbell
      · rw [harmed] at hown
        cases hown
        exact .inr hgiven
    · exact .inl hold
  unfold Wait.dispatchStep
  split
  · rename_i hnone
    exact h.withdraw hcall (.inl hnone) hpc rfl
  · rename_i entry harmed
    split
    · rename_i hnot
      exact h.withdraw hcall (.inr hnot) hpc rfl
    · rename_i hin
      simp only [not_not] at hin
      split
      · exact h.next hcall (.of_eq rfl rfl rfl rfl rfl rfl rfl rfl) hpc rfl rfl
      · rename_i kind a uid
        have hset : Quiet s (s.setCall fun call =>
            { call with touched := (kind, a) :: call.touched }) :=
          .of_eq rfl rfl rfl rfl rfl rfl rfl rfl
        simp only
        split
        · split
          · have hread := hset.trans (.consume _ a)
            split
            · exact htouch harmed hin (hread.trans
                (.of_eq rfl rfl rfl rfl rfl rfl rfl rfl)) rfl rfl
            · exact htouch harmed hin (hread.trans
                (.of_eq rfl rfl rfl rfl rfl rfl rfl rfl)) rfl rfl
          · exact htouch harmed hin (hset.trans
              (.of_eq rfl rfl rfl rfl rfl rfl rfl rfl)) rfl rfl
        · exact htouch harmed hin ((hset.trans (.modify _ a drainSocket_ids)).trans
            (.of_eq rfl rfl rfl rfl rfl rfl rfl rfl)) rfl rfl

theorem callStep_inCall (h : callStep doorbell s ok = some t) :
    s.inCall = true := by
  unfold State.inCall
  cases hpc : s.pc with
  | idle =>
    simp only [callStep, hpc] at h
    cases h
  | returned ret =>
    simp only [callStep, hpc] at h
    cases h
  | _ => rfl

/-- Behind the arming pass, a step that is not the dispatch of an event leaves
the world alone. -/
theorem callStep_quiet (h : callStep doorbell s ok = some t)
    (harm : ∀ todo, s.pc ≠ .arm todo) (hbell : s.pc ≠ .armDoorbell)
    (hdispatch : ∀ n fd ready progressed,
      s.pc ≠ .dispatch n (fd :: ready) progressed) :
    Quiet s t ∧ t.pc.arming = [] ∧ t.call.touched = s.call.touched := by
  have hgoto : ∀ pc : Pc, pc.arming = [] → Quiet s (s.goto pc) ∧
      (s.goto pc).pc.arming = [] ∧ (s.goto pc).call.touched = s.call.touched :=
    fun pc hpc => ⟨.of_eq rfl rfl rfl rfl rfl rfl rfl rfl, hpc, rfl⟩
  cases hpc : s.pc with
  | idle =>
    simp only [callStep, hpc] at h
    cases h
  | epollWait blockMs =>
    simp only [callStep, hpc] at h
    cases h
  | returned ret =>
    simp only [callStep, hpc] at h
    cases h
  | arm todo => exact absurd hpc (harm todo)
  | armDoorbell => exact absurd hpc hbell
  | drainUnarmed todo =>
    cases todo with
    | nil =>
      simp only [callStep, hpc, Option.some.injEq] at h
      subst h
      exact hgoto _ rfl
    | cons entry todo =>
      simp only [callStep, hpc] at h
      have hnote : Quiet s (s.setCall fun call =>
          { call with drained := entry :: call.drained }) :=
        .of_eq rfl rfl rfl rfl rfl rfl rfl rfl
      split at h
      · cases h
        exact ⟨hnote.trans (.of_eq rfl rfl rfl rfl rfl rfl rfl rfl), rfl, rfl⟩
      · cases h
        exact ⟨hnote.trans (.of_eq rfl rfl rfl rfl rfl rfl rfl rfl), rfl, rfl⟩
      · cases h
        exact ⟨(hnote.trans (.modify _ _ drainSocket_ids)).trans
          (.of_eq rfl rfl rfl rfl rfl rfl rfl rfl), rfl, rfl⟩
  | checkQueues todo =>
    cases todo with
    | nil =>
      simp only [callStep, hpc, Option.some.injEq] at h
      subst h
      exact hgoto _ rfl
    | cons target todo =>
      simp only [callStep, hpc] at h
      split at h
      · cases h
        exact ⟨.of_eq rfl rfl rfl rfl rfl rfl rfl rfl, rfl, rfl⟩
      · cases h
        exact hgoto _ rfl
  | readTriggers i =>
    simp only [callStep, hpc] at h
    split at h
    · split at h
      · cases h
        exact hgoto _ rfl
      · split at h
        · cases h
          exact ⟨(Quiet.consume s _).trans
            (.of_eq rfl rfl rfl rfl rfl rfl rfl rfl), rfl, rfl⟩
        · cases h
          exact hgoto _ rfl
    · cases h
      exact hgoto _ rfl
  | takeDeadline =>
    simp only [callStep, hpc, Option.some.injEq] at h
    subst h
    exact ⟨.of_eq rfl rfl rfl rfl rfl rfl rfl rfl, rfl, rfl⟩
  | block =>
    simp only [callStep, hpc, Option.some.injEq] at h
    subst h
    exact hgoto _ rfl
  | dispatch n ready progressed =>
    cases ready with
    | nil =>
      simp only [callStep, hpc, Option.some.injEq] at h
      subst h
      exact hgoto _ rfl
    | cons fd ready => exact absurd hpc (hdispatch n fd ready progressed)
  | testQueue a n ready progressed =>
    simp only [callStep, hpc, Option.some.injEq] at h
    subst h
    exact hgoto _ rfl
  | batchDone n progressed =>
    simp only [callStep, hpc] at h
    split at h
    · split at h
      · cases h
        exact hgoto _ rfl
      · cases h
        exact hgoto _ rfl
    · split at h
      · cases h
        exact hgoto _ rfl
      · split at h
        · cases h
          exact hgoto _ rfl
        · split at h
          · cases h
            exact hgoto _ rfl
          · cases h
            exact hgoto _ rfl
  | output todo =>
    cases todo with
    | nil =>
      simp only [callStep, hpc, Option.some.injEq] at h
      subst h
      exact hgoto _ rfl
    | cons place todo =>
      simp only [callStep, hpc, Option.some.injEq] at h
      subst h
      exact ⟨(Quiet.outputStep s _ _).trans
        (.of_eq rfl rfl rfl rfl rfl rfl rfl rfl), rfl, outputStep_touched s _ _⟩
  | returning =>
    simp only [callStep, hpc] at h
    split at h
    · cases h
      exact hgoto _ rfl
    · cases h
      exact hgoto _ rfl

/-- A step of the call. -/
theorem ArmOk.callStep (h : ArmOk doorbell s)
    (hstep : Wait.callStep doorbell s ok = some t) : ArmOk doorbell t := by
  have hcall := callStep_inCall hstep
  by_cases harm : ∃ todo, s.pc = .arm todo
  · obtain ⟨todo, hpc⟩ := harm
    have harming : s.pc.arming = todo := by
      rw [hpc]
      rfl
    cases todo with
    | nil =>
      simp only [Wait.callStep, hpc, Option.some.injEq] at hstep
      subst hstep
      exact h.next hcall (.of_eq rfl rfl rfl rfl rfl rfl rfl rfl) harming rfl rfl
    | cons target todo =>
      obtain ⟨kind, a⟩ := target
      simp only [Wait.callStep, hpc] at hstep
      obtain ⟨e, he, rfl⟩ := Option.map_eq_some_iff.mp hstep
      have hgiven : (kind, a) ∈ s.call.given.targets :=
        h.todo _ (by rw [harming]; exact List.mem_cons_self)
      obtain ⟨uid, fd, e', he', rfl, hkind, rfl⟩ := h.alive hcall (kind, a) hgiven
      rw [he] at he'
      cases he'
      obtain rfl : e.kind = kind := hkind
      have hself : s.Has a e.uid e.kind e.fd := ⟨e, he, rfl, rfl, rfl⟩
      refine h.register hcall (h.world.file _ _ _ _ hself)
        (.inr ⟨e.kind, a, e.uid, hgiven, hself, rfl⟩)
        (registerFd_registered s e.fd _ ok) (fun target htarget => ?_)
        fun target htarget => ?_
      · rw [harming] at htarget
        rcases List.mem_cons.mp htarget with rfl | hold
        · exact .inr ⟨e.uid, hself, rfl⟩
        · exact .inl hold
      · rw [harming]
        exact List.mem_cons_of_mem _ htarget
  · have hpast : ∀ todo, s.pc ≠ .arm todo := fun todo hpc => harm ⟨todo, hpc⟩
    have harming : s.pc.arming = [] := by
      unfold Pc.arming
      split
      · rename_i todo hpc
        exact absurd hpc (hpast todo)
      · rfl
    by_cases hbell : s.pc = .armDoorbell
    · simp only [Wait.callStep, hbell, Option.some.injEq] at hstep
      subst hstep
      split
      · rename_i fd
        refine h.register hcall (h.world.bell fd rfl) (.inl ⟨rfl, rfl⟩)
          (registerFd_registered s fd _ ok) (fun target htarget => ?_) nofun
        rw [harming] at htarget
        cases htarget
      · exact h.next hcall (.of_eq rfl rfl rfl rfl rfl rfl rfl rfl) harming rfl
          rfl
    · by_cases hdispatch : ∃ n fd ready progressed,
          s.pc = .dispatch n (fd :: ready) progressed
      · obtain ⟨n, fd, ready, progressed, hpc⟩ := hdispatch
        simp only [Wait.callStep, hpc, Option.some.injEq] at hstep
        subst hstep
        exact h.dispatchStep hcall harming n ready progressed
      · obtain ⟨hq, ht, htouched⟩ := callStep_quiet hstep hpast hbell
          fun n fd ready progressed hpc =>
            hdispatch ⟨n, fd, ready, progressed, hpc⟩
        exact h.next hcall hq harming ht htouched

/-- `epoll_wait` returns. -/
theorem ArmOk.epollStep (h : ArmOk doorbell s) {result : EpollResult}
    (hstep : epollStep s result = some t) : ArmOk doorbell t := by
  unfold Wait.epollStep at hstep
  split at hstep
  · rename_i blockMs hpc
    have hcall : s.inCall = true := by
      unfold State.inCall
      rw [hpc]
    have harming : s.pc.arming = [] := by
      rw [hpc]
      rfl
    have hgoto : ∀ pc : Pc, pc.arming = [] → ArmOk doorbell (s.goto pc) :=
      fun pc hpc' =>
        h.next hcall (.of_eq rfl rfl rfl rfl rfl rfl rfl rfl) harming hpc' rfl
    cases result with
    | events fds =>
      simp only at hstep
      split at hstep
      · cases hstep
        exact hgoto _ rfl
      · cases hstep
    | timedOut =>
      cases hstep
      exact hgoto _ rfl
    | interrupted =>
      cases hstep
      exact hgoto _ rfl
    | failed =>
      cases hstep
      exact hgoto _ rfl
  · cases hstep

/-- Every step keeps the invariant. -/
theorem ArmOk.step (h : ArmOk doorbell s) {act : Act}
    (hstep : (machine doorbell).step s act = some t) : ArmOk doorbell t := by
  cases act with
  | create a fd kind depth =>
    have hworld := h.world.create hstep
    simp only [machine, Wait.step] at hstep
    split at hstep
    · rename_i hfree
      cases hstep
      have hlive : ∀ b uid kind' fd', s.Has b uid kind' fd' → b ≠ a := by
        rintro b uid kind' fd' ⟨e, he, -⟩ rfl
        rw [hfree.1] at he
        cases he
      have hnew : ∀ b uid kind' fd', s.Has b uid kind' fd' →
          HasIn (Function.update s.heap a (some
            { uid := s.nextUid, kind := kind, fd := fd, depth := depth,
              queue := 0, socket := [], counter := 0 })) b uid kind' fd' := by
        intro b uid kind' fd' hb
        have hne := hlive _ _ _ _ hb
        obtain ⟨e, he, hrest⟩ := hb
        exact ⟨e, (Function.update_of_ne hne ..).trans he, hrest⟩
      refine ⟨hworld, fun hcall target htarget => ?_, fun hcall fd' hfd' => ?_,
        fun hcall target htarget => ?_, h.todo, h.touched⟩
      · obtain ⟨uid, fd', hhas⟩ := h.alive hcall target htarget
        exact ⟨uid, fd', hnew _ _ _ _ hhas⟩
      · rcases h.mine hcall fd' hfd' with hbell |
          ⟨kind', b, uid, htarget, hhas, harmed⟩
        · exact .inl hbell
        · exact .inr ⟨kind', b, uid, htarget, hnew _ _ _ _ hhas, harmed⟩
      · refine (h.watched hcall target htarget).imp_right
          fun hw uid fd' hhas => hw uid fd' ?_
        obtain ⟨uid', fd'', hold⟩ := h.alive hcall target htarget
        obtain ⟨rfl, -, rfl⟩ := (hnew _ _ _ _ hold).unique hhas
        exact hold
    · cases hstep
  | destroy a =>
    have hworld := h.world.destroy hstep
    simp only [machine, Wait.step] at hstep
    split at hstep
    · rename_i e he
      split at hstep
      · cases hstep
      · rename_i hfree
        cases hstep
        have hback : ∀ b uid kind fd,
            HasIn (Function.update s.heap a none) b uid kind fd →
            s.Has b uid kind fd := by
          rintro b uid kind fd ⟨e', he', hrest⟩
          refine ⟨e', ?_, hrest⟩
          by_cases hb : b = a
          · subst hb
            rw [Function.update_self] at he'
            cases he'
          · rw [Function.update_of_ne hb] at he'
            exact he'
        have hnew : s.inCall = true → ∀ target ∈ s.call.given.targets,
            ∀ uid fd, s.Has target.2 uid target.1 fd →
            HasIn (Function.update s.heap a none) target.2 uid target.1 fd := by
          rintro hcall target htarget uid fd ⟨e', he', huid, hkind, hfd⟩
          refine ⟨e', (Function.update_of_ne ?_ ..).trans he', huid, hkind, hfd⟩
          rintro rfl
          rw [he] at he'
          cases he'
          exact hfree ⟨hcall, by rw [hkind]; exact htarget⟩
        refine ⟨hworld, fun hcall target htarget => ?_, fun hcall fd hfd => ?_,
          fun hcall target htarget => ?_, h.todo, h.touched⟩
        · obtain ⟨uid, fd, hhas⟩ := h.alive hcall target htarget
          exact ⟨uid, fd, hnew hcall target htarget uid fd hhas⟩
        · rcases h.mine hcall fd hfd with hbell |
            ⟨kind, b, uid, htarget, hhas, harmed⟩
          · exact .inl hbell
          · exact .inr ⟨kind, b, uid, htarget,
              hnew hcall (kind, b) htarget uid fd hhas, harmed⟩
        · exact (h.watched hcall target htarget).imp_right
            fun hw uid fd hhas => hw uid fd (hback _ _ _ _ hhas)
    · cases hstep
  | change a queue socket counter =>
    cases hstep
    exact h.quiet (.modify s a fun _ => ⟨rfl, rfl, rfl⟩) id (.inr rfl)
      fun _ htarget => .inl htarget
  | tick ns =>
    cases hstep
    exact h.quiet (.of_eq rfl rfl rfl rfl rfl rfl rfl rfl) id (.inr rfl)
      fun _ htarget => .inl htarget
  | call arrays timeout graphGcUnwired =>
    simp only [machine, Wait.step] at hstep
    split at hstep
    · rename_i hvalid
      cases hstep
      refine ⟨⟨h.world.file, h.world.fresh, h.world.unique, h.world.pos,
        h.world.bell, h.world.kernel, h.world.armed, h.world.old,
        h.world.entity⟩, fun _ target htarget => ?_, nofun,
        fun _ target htarget => .inl htarget, fun _ htarget => htarget, nofun⟩
      have hlive := List.all_eq_true.mp hvalid.2 target htarget
      obtain ⟨e, he, hkind⟩ := Option.any_eq_true _ _ |>.mp hlive
      exact ⟨e.uid, e.fd, e, he, rfl, of_decide_eq_true hkind, rfl⟩
    · cases hstep
  | run ok => exact h.callStep hstep
  | epoll result => exact h.epollStep hstep

end RmwUnixSocket.Wait
