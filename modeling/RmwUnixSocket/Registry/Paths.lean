import RmwUnixSocket.Lib.Exclusive
import RmwUnixSocket.Registry.Bounds

/-!
# No two uses of one socket path

A socket path is in use from the call of `registry_add` that brings it to the
`unlink` of the teardown that takes it away.  On the way it goes through the
hands of three kinds of users: the adding process, the published slot, and
the process that tears the slot down.  `Paths` says that no path is in two
hands, as long as no entry is added with a path that is in use (`FreshPath`).

So a teardown never unlinks the path of an entry that somebody holds.
-/

namespace RmwUnixSocket.Registry

variable {P : Type}

/-! ## The users of a path -/

/-- The entry that the process adds, until it is published. -/
def Pc.adding (pc : Pc P) : Option (RegistryEntry P) :=
  match pc.claims with
  | some (_, e) => some e
  | none => pc.pending

/-- The path that the process unlinks at the end of its teardown. -/
def Pc.wipes (m : Region P) : Pc P → Option (List UInt8)
  | .tearBegin _ i => some (cstr ((m.slots i).payload .socketPath))
  | .tearPath _ i => some (cstr ((m.slots i).payload .socketPath))
  | .tearing _ _ path _ => some path
  | .tearUnlink _ _ path => some path
  | _ => none

/-- The three kinds of users of a path. -/
inductive PathUser (P : Type)
  | adder (p : P)
  | slot (i : Nat)
  | tearer (p : P)

/-- The path of a published slot. -/
def RegistryEntrySlot.path (slot : RegistryEntrySlot P) : Option (List UInt8) :=
  match slot.state with
  | .entry _ => some (cstr (slot.payload .socketPath))
  | _ => none

/-- The path that a user uses. -/
def State.pathOf (s : State P) : PathUser P → Option (List UInt8)
  | .adder p => (s.procs p).pc.adding.map RegistryEntry.path
  | .slot i => if i < s.region.maxEntries then (s.slot i).path else none
  | .tearer p => (s.procs p).pc.wipes s.region

/-- No path but the empty one is used twice. -/
def Paths (s : State P) : Prop :=
  Exclusive (fun path => path ≠ []) s.pathOf

/-- No entry is added with a path that is in use. -/
def FreshPath (s : State P) : Act P → Prop
  | .call _ (.add e) =>
    e.path = [] ∨
      (∀ q, (s.procs q).pc.adding.map RegistryEntry.path ≠ some e.path) ∧
      (∀ i < s.region.maxEntries, (s.slot i).path ≠ some e.path) ∧
      ∀ q, (s.procs q).pc.wipes s.region ≠ some e.path
  | _ => True

instance [Fintype P] (s : State P) (a : Act P) : Decidable (FreshPath s a) :=
  match a with
  | .call _ (.add e) =>
    inferInstanceAs (Decidable
      (e.path = [] ∨
        (∀ q, (s.procs q).pc.adding.map RegistryEntry.path ≠ some e.path) ∧
        (∀ i < s.region.maxEntries, (s.slot i).path ≠ some e.path) ∧
        ∀ q, (s.procs q).pc.wipes s.region ≠ some e.path))
  | .call _ (.remove _) => isTrue trivial
  | .call _ .cleanup => isTrue trivial
  | .call _ (.query _) => isTrue trivial
  | .step _ _ => isTrue trivial
  | .kill _ => isTrue trivial

theorem FreshPath.unused {s : State P} {p : P} {e : RegistryEntry P}
    (h : FreshPath s (.call p (.add e))) (hpath : e.path ≠ []) :
    ∀ u, s.pathOf u ≠ some e.path := by
  rcases h with hnil | ⟨hadd, hslot, htear⟩
  · exact absurd hnil hpath
  · intro u
    cases u with
    | adder q => exact hadd q
    | slot i =>
      simp only [State.pathOf]
      split
      · rename_i hi
        exact hslot i hi
      · nofun
    | tearer q => exact htear q

theorem Paths.init (n : Nat) : Paths (State.init P n) := by
  intro u v path _ hu
  cases u with
  | adder p => cases hu
  | slot i => cases (Option.ite_none_right_eq_some.mp hu).2
  | tearer p => cases hu

/-! ## A published slot has the path of its entry -/

theorem Occupied.path {s : State P} {i : Nat} {p : P} {e : RegistryEntry P}
    (h : Occupied s i p e) : (s.slot i).path = some e.path := by
  simp [RegistryEntrySlot.path, h.state, h.payload, RegistryEntry.path]

theorem Pc.wipes_of_unlinks {pc : Pc P} {m : Region P} {path : List UInt8}
    (h : pc.unlinks = some path) : pc.wipes m = some path := by
  cases pc <;> cases h
  rfl

/-- A path that is about to be unlinked is not the path of a published
entry. -/
theorem Paths.unlinks_ne {s : State P} (h : Paths s) (hbounds : Bounds s)
    {i : Nat} {p q : P} {e : RegistryEntry P} {path : List UInt8}
    (hocc : Occupied s i p e) (hpath : path ≠ [])
    (hunlinks : (s.procs q).pc.unlinks = some path) : path ≠ e.path := by
  rintro rfl
  have hi : i < s.region.maxEntries := hbounds.filled i (by rw [hocc.state]; nofun)
  have heq := h (.slot i) (.tearer q) e.path hpath
    ((if_pos hi).trans hocc.path) (Pc.wipes_of_unlinks hunlinks)
  cases heq

/-! ## What a move does to the users -/

/-- Between two slots a process has a path only when it is about to unlink
it. -/
theorem Pc.wipes_of_plain {pc : Pc P} {m : Region P} (hplain : pc.plain = true)
    (hunlinks : pc.unlinks = none) : pc.wipes m = none := by
  cases pc <;>
    first
      | rfl
      | (cases hunlinks; done)
      | cases hplain

theorem Local.Rests.adding {l l' : Local P} {max : Nat}
    {more : List RegistryQueryResult} (h : l.Rests max more l')
    (hbusy : l.pc.busy = none) {e : RegistryEntry P}
    (he : l'.pc.adding = some e) : l.pc.adding = some e := by
  have hclaims : l.pc.claims = none := by
    cases hpc : l.pc <;> first | rfl | (rw [hpc] at hbusy; cases hbusy)
  simp only [Pc.adding, Pc.claims_of_plain h.plain] at he
  simp only [Pc.adding, hclaims]
  exact h.pending e he

/-- A process writes payload members only of the slot that it is at work
on. -/
theorem Move.busy_of_setField {alive : P → Bool} {m : Region P}
    {l l' : Local P} {i : Nat} {f : Field} {v : f.Val P}
    (h : Move alive m l (.setField i f v) l') : l.pc.busy = some i := by
  cases h with
  | rest quiet _ _ _ _ => cases quiet
  | writeField e i f rest at_pc => rw [at_pc]; rfl
  | tearField c i path f rest at_pc => rw [at_pc]; rfl

section Moves

variable [DecidableEq P] {s : State P} {p : P} {eff : Effect P} {l' : Local P}

/-- The payload of a slot changes only by the process that is at work on
it. -/
theorem Move.payload_commit
    (hmove : Move s.alive s.region (s.procs p) eff l') {j : Nat}
    (hfree : (s.procs p).pc.busy ≠ some j) :
    ((s.commit p (eff, l')).slot j).payload = (s.slot j).payload := by
  rcases s.region.apply_payload eff j with hsame | ⟨f, v, rfl⟩
  · exact hsame
  · exact absurd hmove.busy_of_setField hfree

/-- A slot gets its path from the entry that is published in it. -/
theorem Inv.slot_path (h : Inv s)
    (hmove : Move s.alive s.region (s.procs p) eff l') {j : Nat}
    {path : List UInt8}
    (hpath : (s.commit p (eff, l')).pathOf (.slot j) = some path) :
    s.pathOf (.slot j) = some path ∨
      ∃ e, (s.procs p).pc = .publish e j ∧ path = e.path := by
  simp only [State.pathOf, State.commit_region, Region.apply_maxEntries,
    Option.ite_none_right_eq_some] at hpath ⊢
  obtain ⟨hj, hpath⟩ := hpath
  unfold RegistryEntrySlot.path at hpath
  split at hpath
  · rename_i t ht
    cases hpath
    rcases hmove.published ht with hold | ⟨e, hpc, -, -⟩
    · have hfree : (s.procs p).pc.busy ≠ some j := fun hbusy =>
        (h.locals p).state_of_busy hbusy t hold
      refine .inl ⟨hj, ?_⟩
      rw [hmove.payload_commit hfree]
      simp [RegistryEntrySlot.path, hold]
    · have hc := ((h.locals p).claim j e (by rw [hpc]; rfl)).copied
      rw [hpc] at hc
      have hpay : ((s.commit p (eff, l')).slot j).payload = e.payload := by
        rcases s.region.apply_payload eff j with hsame | ⟨f, v, rfl⟩
        · exact hsame.trans hc.eq.symm
        · cases hmove with
          | rest quiet _ _ _ _ => cases quiet
          | writeField e i f rest at_pc => rw [hpc] at at_pc; cases at_pc
          | tearField c i path f rest at_pc => rw [hpc] at at_pc; cases at_pc
      exact .inr ⟨e, hpc, by rw [hpay]; rfl⟩
  · cases hpath

/-- The other processes use the paths that they used. -/
theorem Inv.others_path (h : Inv s)
    (hmove : Move s.alive s.region (s.procs p) eff l') {q : P} (hq : q ≠ p) :
    (s.commit p (eff, l')).pathOf (.adder q) = s.pathOf (.adder q) ∧
      (s.commit p (eff, l')).pathOf (.tearer q) = s.pathOf (.tearer q) := by
  constructor
  · simp only [State.pathOf, State.commit_of_ne s p _ hq]
  · simp only [State.pathOf, State.commit_of_ne s p _ hq]
    have hpay : ∀ i, (s.procs q).pc.tears = some i →
        (((s.commit p (eff, l')).region.slots i).payload =
          (s.region.slots i).payload) := fun i hi =>
      hmove.payload_commit fun hbusy =>
        hq (h.busy_unique q p i (Pc.busy_of_tears hi) hbusy)
    cases hpc : (s.procs q).pc with
    | tearBegin c i => simp only [Pc.wipes, hpay i (by rw [hpc]; rfl)]
    | tearPath c i => simp only [Pc.wipes, hpay i (by rw [hpc]; rfl)]
    | _ => rfl

/-- A move that hands no path on. -/
theorem Paths.of_mono (h : Paths s) (hinv : Inv s)
    (hmove : Move s.alive s.region (s.procs p) eff l')
    (hnopub : ∀ e i, (s.procs p).pc ≠ .publish e i)
    (hadding : ∀ e, l'.pc.adding = some e → (s.procs p).pc.adding = some e)
    (hwipes : ∀ path, l'.pc.wipes (s.region.apply eff) = some path →
      (s.procs p).pc.wipes s.region = some path) :
    Paths (s.commit p (eff, l')) := by
  refine h.mono fun u path hu => ?_
  cases u with
  | adder q =>
    by_cases hq : q = p
    · subst hq
      simp only [State.pathOf, State.commit_self, Option.map_eq_some_iff] at hu ⊢
      obtain ⟨e, he, rfl⟩ := hu
      exact ⟨e, hadding e he, rfl⟩
    · rwa [(hinv.others_path hmove hq).1] at hu
  | slot j =>
    rcases hinv.slot_path hmove hu with hold | ⟨e, hpc, -⟩
    · exact hold
    · exact absurd hpc (hnopub e j)
  | tearer q =>
    by_cases hq : q = p
    · subst hq
      simp only [State.pathOf, State.commit_self, State.commit_region] at hu ⊢
      exact hwipes path hu
    · rwa [(hinv.others_path hmove hq).2] at hu

/-- The publication hands the path from the process to the slot. -/
theorem Paths.publish (h : Paths s) (hinv : Inv s) {e : RegistryEntry P}
    {i : Nat} (hpc : (s.procs p).pc = .publish e i)
    (hmove : Move s.alive s.region (s.procs p) eff l')
    (hl' : l' = (s.procs p).goto (.hwLoad e i)) :
    Paths (s.commit p (eff, l')) := by
  subst hl'
  refine h.hand (.adder p) (.slot i) ?_ (fun path hpath => ?_)
    fun u hu path hpath => ?_
  · simp [State.pathOf, Pc.adding, Pc.claims, Pc.pending]
  · rcases hinv.slot_path hmove hpath with hold | ⟨e', hpc', rfl⟩
    · have hc := ((hinv.locals p).claim i e (by rw [hpc]; rfl)).state
      simp [State.pathOf, RegistryEntrySlot.path, hc] at hold
    · rw [hpc] at hpc'
      cases hpc'
      simp [State.pathOf, hpc, Pc.adding, Pc.claims]
  · cases u with
    | adder q =>
      by_cases hq : q = p
      · subst hq
        simp [State.pathOf, Pc.adding, Pc.claims, Pc.pending] at hpath
      · rwa [(hinv.others_path hmove hq).1] at hpath
    | slot j =>
      rcases hinv.slot_path hmove hpath with hold | ⟨e', hpc', -⟩
      · exact hold
      · rw [hpc] at hpc'
        cases hpc'
        exact absurd rfl hu
    | tearer q =>
      by_cases hq : q = p
      · subst hq
        simp [State.pathOf, Pc.wipes] at hpath
      · rwa [(hinv.others_path hmove hq).2] at hpath

/-- The compare-and-swap to `ENTRY_EMPTY` hands the path from the slot to the
process that tears it down. -/
theorem Paths.take (h : Paths s) (hinv : Inv s) (hbounds : Bounds s) {i : Nat}
    {c : TearCaller P} {t : RegistryEntryType}
    (hstate : (s.slot i).state = .entry t)
    (hmove : Move s.alive s.region (s.procs p) (.setState i .empty)
      ((s.procs p).goto (.tearBegin c i)))
    (hclaims : (s.procs p).pc.claims = none)
    (hpending : ∀ e, c.entry = some e → (s.procs p).pc.pending = some e) :
    Paths (s.commit p
      (.setState i .empty, (s.procs p).goto (.tearBegin c i))) := by
  have hnopub : ∀ e j, (s.procs p).pc ≠ .publish e j := by
    intro e j hpc
    rw [hpc] at hclaims
    cases hclaims
  refine h.hand (.slot i) (.tearer p) ?_ (fun path hpath => ?_)
    fun u hu path hpath => ?_
  · simp [State.pathOf, RegistryEntrySlot.path]
  · have hi : i < s.region.maxEntries := hbounds.filled i (by rw [hstate]; nofun)
    simpa [State.pathOf, Pc.wipes, RegistryEntrySlot.path, hi, hstate] using hpath
  · cases u with
    | adder q =>
      by_cases hq : q = p
      · subst hq
        simp only [State.pathOf, State.commit_self, Local.goto_pc,
          Option.map_eq_some_iff] at hpath ⊢
        obtain ⟨e, he, rfl⟩ := hpath
        refine ⟨e, ?_, rfl⟩
        simp only [Pc.adding, hclaims]
        exact hpending e he
      · rwa [(hinv.others_path hmove hq).1] at hpath
    | slot j =>
      rcases hinv.slot_path hmove hpath with hold | ⟨e', hpc', -⟩
      · exact hold
      · exact absurd hpc' (hnopub e' j)
    | tearer q =>
      by_cases hq : q = p
      · subst hq
        exact absurd rfl hu
      · rwa [(hinv.others_path hmove hq).2] at hpath

/-- Every move keeps the paths apart. -/
theorem Paths.move (h : Paths s) (hinv : Inv s) (hbounds : Bounds s)
    (hmove : Move s.alive s.region (s.procs p) eff l') :
    Paths (s.commit p (eff, l')) := by
  have hmove' := hmove
  cases hmove with
  | rest quiet noclaim busy settled rests =>
    refine h.of_mono hinv hmove' ?_ (fun e => rests.adding busy) ?_
    · intro e i hpc
      rw [hpc] at busy
      cases busy
    · simp [Pc.wipes_of_plain rests.plain rests.unlinks]
  | collect q i retry snap l' at_pc same rests =>
    exact h.of_mono hinv hmove' (by simp [at_pc])
      (fun e => rests.adding (by rw [at_pc]; rfl)) (by simp [Pc.wipes_of_plain rests.plain rests.unlinks])
  | publish e i at_pc => exact h.publish hinv at_pc hmove' rfl
  | retryWiden e i at_pc below =>
    refine h.of_mono hinv hmove' ?_ nofun nofun
    intro e' i' hpc
    rw [hpc] at at_pc
    cases at_pc
  | wide e i at_pc above =>
    refine h.of_mono hinv hmove' ?_ nofun nofun
    intro e' i' hpc
    rw [hpc] at at_pc
    cases at_pc
  | removeTake i st at_pc same =>
    obtain ⟨e, he⟩ := (hinv.locals p).removing i (by rw [at_pc]; rfl)
    exact h.take hinv hbounds he.state hmove' (by rw [at_pc]; rfl) nofun
  | sweepTake w i snap at_pc same =>
    exact h.take hinv hbounds same hmove' (by rw [at_pc]; rfl)
      (by rw [at_pc]; exact fun e he => he)
  | returnIndex e i at_pc =>
    exact h.of_mono hinv hmove' (by simp [at_pc]) nofun nofun
  | _ =>
    refine h.of_mono hinv hmove' (by simp [‹(s.procs p).pc = _›]) ?_ ?_
    · rw [‹(s.procs p).pc = _›]
      exact fun e he => he
    · rw [‹(s.procs p).pc = _›]
      first
        | exact fun path hpath => hpath
        | simp [Pc.wipes]

/-- A call keeps the paths apart if it brings a path that is not in use. -/
theorem Paths.call (h : Paths s) (hidle : s.pc p = .idle) {c : Call P}
    (hfresh : FreshPath s (.call p c))
    (henter : enter s.region p (s.procs p) c = some l') :
    Paths (s.setLocal p l') := by
  have hother : ∀ u, u ≠ .adder p → ∀ path,
      (s.setLocal p l').pathOf u = some path → s.pathOf u = some path := by
    intro u hu path hpath
    cases u with
    | adder q =>
      have hq : q ≠ p := fun hq => hu (by rw [hq])
      simpa only [State.pathOf, State.setLocal_of_ne s p _ hq] using hpath
    | slot j => exact hpath
    | tearer q =>
      by_cases hq : q = p
      · subst hq
        simp only [State.pathOf, State.setLocal_self] at hpath
        rcases enter_cases henter with hstarts | ⟨i, e, -, -, rfl⟩
        · rw [Pc.wipes_of_plain hstarts.plain hstarts.unlinks] at hpath
          cases hpath
        · cases hpath
      · simp only [State.pathOf, State.setLocal_of_ne s p _ hq] at hpath
        exact hpath
  refine h.insert (.adder p) (fun path hne hpath => ?_) hother
  simp only [State.pathOf, State.setLocal_self, Option.map_eq_some_iff] at hpath
  obtain ⟨e, he, rfl⟩ := hpath
  rcases enter_cases henter with hstarts | ⟨i, e', -, -, rfl⟩
  · simp only [Pc.adding, Pc.claims_of_plain hstarts.plain] at he
    obtain ⟨rfl, -⟩ := hstarts.pending e he
    exact fun u _ => hfresh.unused hne u
  · cases he

theorem Paths.kill (h : Paths s) : Paths (s.slay p) := by
  refine h.mono fun u path hu => ?_
  cases u with
  | adder q =>
    by_cases hq : q = p
    · subst hq
      simp only [State.pathOf, State.slay_self] at hu
      cases hu
    · simpa only [State.pathOf, State.slay_of_ne s p hq] using hu
  | slot j => exact hu
  | tearer q =>
    by_cases hq : q = p
    · subst hq
      simp only [State.pathOf, State.slay_self] at hu
      cases hu
    · simp only [State.pathOf, State.slay_of_ne s p hq] at hu
      exact hu

/-- Every step that brings only unused paths keeps the paths apart. -/
theorem Paths.step {a : Act P} {t : State P} (h : Paths s) (hinv : Inv s)
    (hbounds : Bounds s) (hfresh : FreshPath s a) (hstep : step s a = some t) :
    Paths t := by
  cases a with
  | call p c =>
    obtain ⟨-, hidle, l, henter, rfl⟩ := of_step_call hstep
    exact h.call hidle hfresh henter
  | step p spurious =>
    obtain ⟨-, eff, l, hexec, rfl⟩ := of_step_step hstep
    exact h.move hinv hbounds (exec_move hexec)
  | kill p =>
    obtain ⟨-, rfl⟩ := of_step_kill hstep
    exact h.kill

end Moves

end RmwUnixSocket.Registry
