import RmwUnixSocket.Lib.Exclusive
import RmwUnixSocket.Lib.Simulation
import RmwUnixSocket.Registry.Visibility
import RmwUnixSocket.Graph.Cache

/-!
# The directory is what the registry does

`Directory` has publications, removals and bumps of whole slots.  The code has
stores, compare-and-swap loops and seqlock sections.  Here the second is shown
to be an implementation of the first, in every run that meets the conditions of
the slot protocol (`CrashOk`).

* `announces` and `retires` say what a program counter still owes to the
  directory: the bump of a publication, or the bump of a removal.
* `exec_shift` lists what an operation can do to the directory.  It is the only
  lemma that looks into `exec`.
* `Sim` relates the two levels.  Each slot shows the same entry, and each
  process that owes a bump has the number of a registration that waits for it.
  Two processes never have the same one.
* `Sim.step` is the simulation: every step of the code is one mutation, or none.
-/

namespace RmwUnixSocket.Graph

open Registry (RegistryEntry Region Effect Pc Local CrashOk exec)

variable {P : Type}

/-- The directory as a machine of its own. -/
def Directory.machine (P : Type) : Machine (Directory P) (Mutation P) where
  step d a := d.mutate a

/-- The entry in a slot. -/
def Directory.entryAt (d : Directory P) (i : Nat) : Option (RegistryEntry P) :=
  (d.occupant i).map fun x => x.2.entry

/-- The entry that a slot of the region shows. -/
def shown (s : Registry.State P) (i : Nat) : Option (RegistryEntry P) :=
  match (s.slot i).state with
  | .entry _ => (s.occupant i).map Prod.snd
  | _ => none

/-! ## What a program counter owes to the directory -/

/-- The entry that `registry_add` has published and not announced, its slot,
and whether the high-water bound covers it. -/
def announces : Pc P → Option (RegistryEntry P × Nat × Bool)
  | .hwLoad e i => some (e, i, false)
  | .hwCas e i _ => some (e, i, false)
  | .addBump e i => some (e, i, true)
  | _ => none

/-- True between the removal of an entry and its bump. -/
def retires : Pc P → Bool
  | .tearBegin _ _ => true
  | .tearPath _ _ => true
  | .tearing _ _ _ _ => true
  | .tearUnlink _ _ _ => true
  | .removeBump _ => true
  | .sweepBump _ _ _ => true
  | _ => false

/-- The process owes nothing. -/
def Clear (l : Local P) : Prop :=
  announces l.pc = none ∧ retires l.pc = false

section

variable {l : Local P} {max i : Nat}

theorem clear_addLoop (e : RegistryEntry P) (again : Bool) :
    Clear (l.addLoop max e i again) := by
  unfold Local.addLoop
  split
  · exact ⟨rfl, rfl⟩
  · split
    · exact ⟨rfl, rfl⟩
    · exact ⟨rfl, rfl⟩

theorem clear_sweepDone (ret : Registry.SweepReturn P) : Clear (l.sweepDone max ret) := by
  cases ret with
  | caller => exact ⟨rfl, rfl⟩
  | retryAdd e => exact clear_addLoop e true

theorem clear_sweepLoop (w : Registry.Sweep P) : Clear (l.sweepLoop max w i) := by
  unfold Local.sweepLoop
  split
  · exact ⟨rfl, rfl⟩
  · split
    · exact ⟨rfl, rfl⟩
    · exact clear_sweepDone w.ret

theorem clear_queryLoop (q : Registry.Query) : Clear (l.queryLoop q i) := by
  unfold Local.queryLoop
  split
  · exact ⟨rfl, rfl⟩
  · exact ⟨rfl, rfl⟩

theorem clear_snapFail (c : Registry.SnapCaller P) : Clear (l.snapFail max i c) := by
  cases c with
  | sweep w => exact clear_sweepLoop w
  | query q => exact clear_queryLoop q

theorem clear_snapRetry (c : Registry.SnapCaller P) (retry : Nat) :
    Clear (l.snapRetry max c i retry) := by
  unfold Local.snapRetry
  split
  · exact ⟨rfl, rfl⟩
  · exact clear_snapFail c

theorem clear_snapDone (snap : Registry.Snapshot P) (c : Registry.SnapCaller P) :
    Clear (l.snapDone i snap c) := by
  cases c with
  | sweep w => exact ⟨rfl, rfl⟩
  | query q =>
    unfold Local.snapDone
    dsimp only
    split
    · exact clear_queryLoop _
    · exact clear_queryLoop q

end

/-! ## What an operation does to the directory -/

/-- An effect that the directory does not see. -/
def Hidden (m : Region P) : Effect P → Prop
  | .none => True
  | .incSeq _ => True
  | .setField _ _ _ => True
  | .unlink _ => True
  | .setState i st => st = .reserved ∧ (m.slots i).state = .empty
  | .setHighWater _ => False
  | .incGeneration => False

/-- What one operation does to the directory. -/
inductive Shift (m : Region P) (pc pc' : Pc P) : Effect P → Prop
  | stay {eff : Effect P} (announcing : announces pc' = announces pc)
      (retiring : retires pc' = retires pc) (hidden : Hidden m eff) :
      Shift m pc pc' eff
  | publish {e : RegistryEntry P} {i : Nat} (at_pc : pc = .publish e i)
      (to_pc : pc' = .hwLoad e i) : Shift m pc pc' (.setState i (.entry e.type))
  | wide {e : RegistryEntry P} {i : Nat} (announcing : announces pc = some (e, i, false))
      (retiring : retires pc = false) (to_pc : pc' = .addBump e i)
      (above : i + 1 ≤ m.highWaterSlot) : Shift m pc pc' .none
  | widen {e : RegistryEntry P} {i : Nat} (at_pc : pc = .hwCas e i m.highWaterSlot)
      (to_pc : pc' = .addBump e i) : Shift m pc pc' (.setHighWater (i + 1))
  | announce {e : RegistryEntry P} {i : Nat} (at_pc : pc = .addBump e i)
      (to_pc : pc' = .addRing e i) : Shift m pc pc' .incGeneration
  | take {i : Nat} (noadd : ∀ e j again, pc ≠ .addCas e j again)
      (announcing : announces pc = none) (retiring : retires pc = false)
      (occupied : pc.removing = some i ∨ ∃ t, (m.slots i).state = .entry t)
      (announcing' : announces pc' = none) (retiring' : retires pc' = true) :
      Shift m pc pc' (.setState i .empty)
  | retire (announcing : announces pc = none) (retiring : retires pc = true)
      (announcing' : announces pc' = none) (retiring' : retires pc' = false) :
      Shift m pc pc' .incGeneration

/-- The process owes nothing before and after. -/
theorem Shift.of_clear {m : Region P} {pc : Pc P} {l' : Local P} {eff : Effect P}
    (announcing : announces pc = none) (retiring : retires pc = false) (h : Clear l')
    (hidden : Hidden m eff) : Shift m pc l'.pc eff :=
  .stay (h.1.trans announcing.symm) (h.2.trans retiring.symm) hidden

/-- Every operation is one of these. -/
theorem exec_shift {alive : P → Bool} {spurious : Bool} {m : Region P} {l l' : Local P}
    {eff : Effect P} (h : exec alive spurious m l = some (eff, l')) :
    Shift m l.pc l'.pc eff := by
  rcases l with ⟨pc, held, ret⟩
  cases pc with simp only [exec] at h
  | idle => cases h
  | addCas e i again =>
    split at h
    · next hempty =>
      cases h
      exact .stay rfl rfl ⟨rfl, hempty⟩
    · cases h
      exact .of_clear rfl rfl (clear_addLoop e again) trivial
  | writeBegin e i => cases h; exact .stay rfl rfl trivial
  | writing e i rest =>
    cases rest with
    | nil => cases h; exact .stay rfl rfl trivial
    | cons f rest => cases h; exact .stay rfl rfl trivial
  | publish e i => cases h; exact .publish rfl rfl
  | hwLoad e i =>
    split at h
    · cases h
      exact .stay rfl rfl trivial
    · next habove =>
      cases h
      exact .wide rfl rfl rfl (Nat.le_of_not_lt habove)
  | hwCas e i cur =>
    split at h
    · next hcur =>
      cases h
      obtain ⟨rfl, -⟩ := hcur
      exact .widen rfl rfl
    · split at h
      · cases h
        exact .stay rfl rfl trivial
      · next habove =>
        cases h
        exact .wide rfl rfl rfl (Nat.le_of_not_lt habove)
  | addBump e i => cases h; exact .announce rfl rfl
  | addRing e i => cases h; exact .stay rfl rfl trivial
  | removeLoad i =>
    split at h
    · cases h
      exact .stay rfl rfl trivial
    · split at h
      · cases h
        exact .stay rfl rfl trivial
      · cases h
        exact .stay rfl rfl trivial
  | removeCas i st =>
    split at h
    · cases h
      exact .take (fun _ _ _ hpc => by cases hpc) rfl rfl (.inl rfl) rfl rfl
    · cases h
      exact .stay rfl rfl trivial
  | removeBump st =>
    split at h
    · cases h
      exact .retire rfl rfl rfl rfl
    · cases h
      exact .retire rfl rfl rfl rfl
  | removeRing => cases h; exact .stay rfl rfl trivial
  | tearBegin c i => cases h; exact .stay rfl rfl trivial
  | tearPath c i => cases h; exact .stay rfl rfl trivial
  | tearing c i path rest =>
    cases rest with
    | nil => cases h; exact .stay rfl rfl trivial
    | cons f rest => cases h; exact .stay rfl rfl trivial
  | tearUnlink c i path =>
    have hhidden : ∀ path : List UInt8,
        Hidden m (if path = [] then .none else .unlink path) := by
      intro path
      split
      · trivial
      · trivial
    cases c with
    | remove st => cases h; exact .stay rfl rfl (hhidden path)
    | sweep w type => cases h; exact .stay rfl rfl (hhidden path)
  | snapSeq c i retry =>
    split at h
    · cases h
      exact .of_clear rfl rfl (clear_snapRetry c retry) trivial
    · cases h
      exact .stay rfl rfl trivial
  | snapState c i retry s1 =>
    split at h
    · cases h
      exact .stay rfl rfl trivial
    · cases h
      exact .of_clear rfl rfl (clear_snapFail c) trivial
  | snapCopy c i retry snap rest =>
    cases rest with
    | nil =>
      simp only at h
      split at h
      · cases h
        exact .of_clear rfl rfl (clear_snapDone snap c) trivial
      · cases h
        exact .of_clear rfl rfl (clear_snapRetry c retry) trivial
    | cons f rest => cases h; exact .stay rfl rfl trivial
  | sweepHw ret =>
    cases h
    exact .of_clear rfl rfl (clear_sweepLoop _) trivial
  | sweepState w i =>
    split at h
    · cases h
      exact .of_clear rfl rfl (clear_sweepLoop w) trivial
    · cases h
      exact .stay rfl rfl trivial
  | sweepPid w i snap =>
    split at h
    · cases h
      exact .of_clear rfl rfl (clear_sweepLoop w) trivial
    · split at h
      · cases h
        exact .of_clear rfl rfl (clear_sweepLoop w) trivial
      · cases h
        exact .stay rfl rfl trivial
  | sweepSeq w i snap =>
    split at h
    · cases h
      exact .stay rfl rfl trivial
    · cases h
      exact .of_clear rfl rfl (clear_sweepLoop w) trivial
  | sweepCas w i snap =>
    split at h
    · next hstate =>
      cases h
      exact .take (fun _ _ _ hpc => by cases hpc) rfl rfl (.inr ⟨_, hstate⟩) rfl rfl
    · cases h
      exact .of_clear rfl rfl (clear_sweepLoop w) trivial
  | sweepBump w i type =>
    cases h
    exact .retire rfl rfl (clear_sweepLoop _).1 (clear_sweepLoop _).2
  | sweepRing ret' =>
    cases h
    exact .of_clear rfl rfl (clear_sweepDone ret') trivial
  | queryHw flt =>
    cases h
    exact .of_clear rfl rfl (clear_queryLoop _) trivial
  | queryState q i =>
    split at h
    · cases h
      exact .stay rfl rfl trivial
    · cases h
      exact .of_clear rfl rfl (clear_queryLoop q) trivial

/-! ## The simulation -/

/-- The registration that a process has published and not announced. -/
def Announcing (d : Directory P) (who : Option Nat) :
    Option (RegistryEntry P × Nat × Bool) → Prop
  | none => who = none
  | some (e, i, wide) => ∃ id r, who = some id ∧ d.regs[id]? = some r ∧ r.entry = e ∧
      r.slot = i ∧ r.widened = wide ∧ r.added = none

/-- The registration that a process has removed, without the bump. -/
def Retiring (d : Directory P) (who : Option Nat) : Bool → Prop
  | false => who = none
  | true => ∃ id r, who = some id ∧ d.regs[id]? = some r ∧ r.leaving = true ∧
      r.removed = none

/-- The process that has published registration `id` in slot `i` has yet to bump it in,
or it was killed. -/
def Owed (s : Registry.State P) (adder : P → Option Nat) (id i : Nat) : Prop :=
  ∃ o e, s.occupant i = some (o, e) ∧ (adder o = some id ∨ s.alive o = false)

/-- The two levels agree.  `adder` and `remover` are the numbers of the
registrations that the processes have yet to bump in and to bump out. -/
structure Sim (s : Registry.State P) (d : Directory P) (adder remover : P → Option Nat) :
    Prop where
  dir : DirectoryOk d
  capacity : d.capacity = s.region.maxEntries
  highWater : d.highWater = s.region.highWaterSlot
  generation : d.generation = s.region.generation
  shows : ∀ i, d.entryAt i = shown s i
  adding : ∀ p, Announcing d (adder p) (announces (s.pc p))
  adders : Exclusive (fun _ => True) adder
  removing : ∀ p, Retiring d (remover p) (retires (s.pc p))
  removers : Exclusive (fun _ => True) remover
  owed : ∀ id r, d.regs[id]? = some r → r.leaving = false → r.added = none →
    Owed s adder id r.slot

theorem Sim.init (P : Type) (n : Nat) :
    Sim (Registry.State.init P n) (.initialized P n) (fun _ => none) fun _ => none where
  dir := .initialized n
  capacity := rfl
  highWater := rfl
  generation := rfl
  shows _ := rfl
  adding _ := rfl
  adders _ _ _ _ h := (by cases h)
  removing _ := rfl
  removers _ _ _ _ h := (by cases h)
  owed _ _ h := (by cases h)

/-! ### The slots of the directory -/

section

variable {d d' : Directory P} {i id : Nat} {r r' : Registration P}

theorem DirectoryOk.entryAt_eq_some (h : DirectoryOk d) {e : RegistryEntry P}
    (he : d.entryAt i = some e) : ∃ id r, d.slots i = some id ∧ d.regs[id]? = some r ∧
      r.entry = e ∧ r.slot = i ∧ r.leaving = false := by
  obtain ⟨⟨id, r⟩, hocc, heq⟩ := Option.map_eq_some_iff.mp he
  obtain ⟨hslot, hr⟩ := Directory.occupant_eq_some hocc
  obtain ⟨x, hx, hat, hstay⟩ := h.slot i id hslot
  obtain rfl := Option.some.inj (hr.symm.trans hx)
  exact ⟨id, r, hslot, hr, heq, hat, hstay⟩

theorem DirectoryOk.slots_of_entryAt (h : DirectoryOk d) (he : d.entryAt i = none) :
    d.slots i = none := by
  cases hslot : d.slots i with
  | none => rfl
  | some id =>
    obtain ⟨r, hr, -⟩ := h.slot i id hslot
    have hocc := Directory.occupant_of_regs hslot hr
    unfold Directory.entryAt at he
    rw [hocc] at he
    cases he

/-- An update of a registration that keeps its entry. -/
theorem Directory.entryAt_set (hr : d.regs[id]? = some r)
    (hregs : d'.regs = d.regs.set id r') (hentry : r'.entry = r.entry)
    (hslots : d'.slots i = d.slots i) : d'.entryAt i = d.entryAt i := by
  unfold Directory.entryAt Directory.occupant
  rw [hslots, hregs]
  cases d.slots i with
  | none => rfl
  | some j =>
    by_cases hj : j = id
    · subst hj
      obtain ⟨hlt, _⟩ := List.getElem?_eq_some_iff.mp hr
      simp only [Option.bind_some, List.getElem?_set_self hlt, hr, Option.map_some, hentry]
    · simp only [Option.bind_some, List.getElem?_set_ne (Ne.symm hj)]

theorem DirectoryOk.entryAt_published (h : DirectoryOk d) (e : RegistryEntry P) (j : Nat) :
    (d.published i e).entryAt j = if j = i then some e else d.entryAt j := by
  unfold Directory.entryAt Directory.occupant Directory.published
  dsimp only
  rw [Function.update_apply]
  split
  · simp only [Option.bind_some, List.getElem?_concat_length, Option.map_some]
  · cases hslot : d.slots j with
    | none => rfl
    | some id =>
      obtain ⟨r, hr, -⟩ := h.slot j id hslot
      obtain ⟨hlt, _⟩ := List.getElem?_eq_some_iff.mp hr
      simp only [Option.bind_some, List.getElem?_append_left hlt]

theorem Directory.entryAt_vacated (hr : d.regs[id]? = some r) (j : Nat) :
    (d.vacated id r).entryAt j = if j = r.slot then none else d.entryAt j := by
  split
  · next hj =>
    unfold Directory.entryAt Directory.occupant Directory.vacated
    dsimp only
    rw [hj, Function.update_self]
    rfl
  · next hj =>
    exact Directory.entryAt_set hr rfl rfl (Function.update_of_ne hj _ _)

end

/-! ### What the processes still wait for -/

section

variable {d d' : Directory P} {id : Nat} {r r' : Registration P} {who : Option Nat}
  {phase : Option (RegistryEntry P × Nat × Bool)} {retiring : Bool}

theorem Announcing.lt (h : Announcing d who phase) (hwho : who = some id) :
    id < d.regs.length := by
  unfold Announcing at h
  split at h
  · rw [hwho] at h
    cases h
  · obtain ⟨j, r, hj, hr, -⟩ := h
    rw [hwho] at hj
    cases hj
    exact (List.getElem?_eq_some_iff.mp hr).1

/-- An update of a registration, of another process or of what does not matter. -/
theorem Announcing.set (h : Announcing d who phase) (hr : d.regs[id]? = some r)
    (hregs : d'.regs = d.regs.set id r')
    (hsame : who ≠ some id ∨ (r'.entry = r.entry ∧ r'.slot = r.slot ∧
      r'.widened = r.widened ∧ r'.added = r.added)) : Announcing d' who phase := by
  unfold Announcing at h ⊢
  split at h
  · exact h
  · obtain ⟨j, x, hj, hx, hentry, hslot, hwide, hadded⟩ := h
    rw [hregs]
    by_cases hji : j = id
    · subst hji
      obtain rfl := Option.some.inj (hr.symm.trans hx)
      obtain ⟨hlt, _⟩ := List.getElem?_eq_some_iff.mp hr
      obtain hne | ⟨hentry', hslot', hwide', hadded'⟩ := hsame
      · exact absurd hj hne
      · exact ⟨j, r', hj, List.getElem?_set_self hlt, hentry'.trans hentry,
          hslot'.trans hslot, hwide'.trans hwide, hadded'.trans hadded⟩
    · exact ⟨j, x, hj, (List.getElem?_set_ne (Ne.symm hji)).trans hx, hentry, hslot, hwide,
        hadded⟩

theorem Retiring.set (h : Retiring d who retiring) (hr : d.regs[id]? = some r)
    (hregs : d'.regs = d.regs.set id r')
    (hsame : who ≠ some id ∨ (r'.leaving = r.leaving ∧ r'.removed = r.removed)) :
    Retiring d' who retiring := by
  unfold Retiring at h ⊢
  split at h
  · exact h
  · obtain ⟨j, x, hj, hx, hleaving, hremoved⟩ := h
    rw [hregs]
    by_cases hji : j = id
    · subst hji
      obtain rfl := Option.some.inj (hr.symm.trans hx)
      obtain ⟨hlt, _⟩ := List.getElem?_eq_some_iff.mp hr
      obtain hne | ⟨hleaving', hremoved'⟩ := hsame
      · exact absurd hj hne
      · exact ⟨j, r', hj, List.getElem?_set_self hlt, hleaving'.trans hleaving,
          hremoved'.trans hremoved⟩
    · exact ⟨j, x, hj, (List.getElem?_set_ne (Ne.symm hji)).trans hx, hleaving, hremoved⟩

theorem Announcing.append (h : Announcing d who phase) (hregs : d'.regs = d.regs ++ [r]) :
    Announcing d' who phase := by
  unfold Announcing at h ⊢
  split at h
  · exact h
  · obtain ⟨j, x, hj, hx, hrest⟩ := h
    obtain ⟨hlt, _⟩ := List.getElem?_eq_some_iff.mp hx
    refine ⟨j, x, hj, ?_, hrest⟩
    rw [hregs]
    exact (List.getElem?_append_left hlt).trans hx

theorem Retiring.append (h : Retiring d who retiring) (hregs : d'.regs = d.regs ++ [r]) :
    Retiring d' who retiring := by
  unfold Retiring at h ⊢
  split at h
  · exact h
  · obtain ⟨j, x, hj, hx, hrest⟩ := h
    obtain ⟨hlt, _⟩ := List.getElem?_eq_some_iff.mp hx
    refine ⟨j, x, hj, ?_, hrest⟩
    rw [hregs]
    exact (List.getElem?_append_left hlt).trans hx

end

/-! ### The steps -/

section

variable {m : Region P} {eff : Effect P}

theorem Hidden.highWater (h : Hidden m eff) :
    (m.apply eff).highWaterSlot = m.highWaterSlot := by
  cases eff <;> first | rfl | cases h

theorem Hidden.generation (h : Hidden m eff) : (m.apply eff).generation = m.generation := by
  cases eff <;> first | rfl | cases h

theorem state_of_claimOf {l : Local P} {i : Nat} {e : RegistryEntry P}
    (h : Registry.claimOf m l = some (i, e)) : (m.slots i).state = .empty := by
  unfold Registry.claimOf at h
  split at h
  · split at h
    · next hempty =>
      cases h
      exact hempty
    · cases h
  · cases h

end

variable [DecidableEq P]

section

variable {s : Registry.State P} {p : P} {l' : Local P} {eff : Effect P}

omit [DecidableEq P] in
theorem shown_of_not_entry {i : Nat} (h : ∀ t, (s.slot i).state ≠ .entry t) :
    shown s i = none := by
  unfold shown
  split
  · next t ht => exact absurd ht (h t)
  · rfl

/-- What the directory does not see, no slot shows. -/
theorem shown_hidden (h : Hidden s.region eff) (j : Nat) :
    shown (s.commit p (eff, l')) j = shown s j := by
  have hstate : ((s.commit p (eff, l')).slot j).state = (s.slot j).state ∨
      ((s.commit p (eff, l')).slot j).state = .reserved ∧ (s.slot j).state = .empty := by
    obtain hsame | heff := s.region.apply_state eff j
    · exact .inl hsame
    · rw [heff] at h
      exact .inr h
  have hoccupant : (s.commit p (eff, l')).occupant j = s.occupant j ∨
      (s.slot j).state = .empty := by
    cases hclaim : Registry.claimOf s.region (s.procs p) with
    | none => exact .inl (by rw [Registry.State.commit_occupant_of_none s p hclaim])
    | some c =>
      obtain ⟨k, e⟩ := c
      by_cases hjk : j = k
      · rw [hjk]
        exact .inr (state_of_claimOf hclaim)
      · refine .inl ?_
        simp only [Registry.State.commit, hclaim]
        exact Function.update_of_ne hjk _ _
  obtain hstate | ⟨hreserved, hempty⟩ := hstate
  · obtain hoccupant | hempty := hoccupant
    · unfold shown
      rw [hstate, hoccupant]
    · rw [shown_of_not_entry (s := s) fun t ht => by rw [hempty] at ht; cases ht]
      refine shown_of_not_entry fun t ht => ?_
      rw [hstate, hempty] at ht
      cases ht
  · rw [shown_of_not_entry (s := s) fun t ht => by rw [hempty] at ht; cases ht]
    refine shown_of_not_entry fun t ht => ?_
    rw [hreserved] at ht
    cases ht

/-- A store to a state byte that is no claim. -/
theorem shown_setState {i : Nat} {st : Registry.SlotState}
    (hclaim : Registry.claimOf s.region (s.procs p) = none) (j : Nat) (hne : j ≠ i) :
    shown (s.commit p (.setState i st, l')) j = shown s j := by
  have htarget : (Effect.setState i st : Effect P).target ≠ some j :=
    fun heq => hne (Option.some.inj heq.symm)
  have hslot : (s.commit p (.setState i st, l')).slot j = s.slot j :=
    s.region.apply_slots_of_ne htarget
  unfold shown
  rw [hslot, Registry.State.commit_occupant_of_none s p hclaim]

/-- A step that leaves the slots alone. -/
theorem shown_of_slots (hclaim : Registry.claimOf s.region (s.procs p) = none)
    (hslots : (s.region.apply eff).slots = s.region.slots) (j : Nat) :
    shown (s.commit p (eff, l')) j = shown s j := by
  unfold shown
  rw [Registry.State.commit_slot, hslots, Registry.State.commit_occupant_of_none s p hclaim]

variable {d d' : Directory P} {adder remover : P → Option Nat}

/-- What the step of `p` does not change. -/
theorem commit_same {α : Type} (f : Pc P → α) (h : f l'.pc = f (s.pc p)) (q : P) :
    f ((s.commit p (eff, l')).pc q) = f (s.pc q) := by
  by_cases hq : q = p
  · rw [hq, Registry.State.commit_pc_self]
    exact h
  · rw [Registry.State.commit_pc_of_ne s p _ hq]

/-- The others wait for what they have waited for, and `p` for something else. -/
theorem commit_update {α : Type} (f : Pc P → α) {ok : Option Nat → α → Prop}
    {uses : P → Option Nat} {x : Option Nat}
    (hothers : ∀ q, q ≠ p → ok (uses q) (f (s.pc q))) (hself : ok x (f l'.pc)) (q : P) :
    ok (Function.update uses p x q) (f ((s.commit p (eff, l')).pc q)) := by
  by_cases hq : q = p
  · rw [hq, Function.update_self, Registry.State.commit_pc_self]
    exact hself
  · rw [Function.update_of_ne hq, Registry.State.commit_pc_of_ne s p _ hq]
    exact hothers q hq

omit [DecidableEq P] in
/-- Nobody else waits for the number of `p`. -/
theorem ne_of_exclusive {uses : P → Option Nat} (h : Exclusive (fun _ => True) uses) {id : Nat}
    (hp : uses p = some id) {q : P} (hq : q ≠ p) : uses q ≠ some id :=
  fun hid => hq (h q p id trivial hid hp)

omit [DecidableEq P] in
theorem shown_of_occupied {i : Nat} {o : P} {e : RegistryEntry P}
    (h : Registry.Occupied s i o e) : shown s i = some e := by
  unfold shown
  rw [h.state, h.occupant]
  rfl

theorem clear_enter {m : Region P} {l l' : Local P} {c : Registry.Call P}
    (h : Registry.enter m p l c = some l') : Clear l' := by
  cases c with
  | add e =>
    simp only [Registry.enter] at h
    split at h
    · cases h
      exact clear_addLoop e false
    · cases h
  | remove i =>
    simp only [Registry.enter] at h
    split at h
    · cases h
      exact ⟨rfl, rfl⟩
    · cases h
  | cleanup =>
    cases h
    exact ⟨rfl, rfl⟩
  | query flt =>
    cases h
    exact ⟨rfl, rfl⟩

theorem Owed.commit {adder : P → Option Nat} {id i : Nat} {r : Effect P × Local P}
    (hclaim : Registry.claimOf s.region (s.procs p) = none) (h : Owed s adder id i) :
    Owed (s.commit p r) adder id i := by
  obtain ⟨o, e, hocc, howed⟩ := h
  exact ⟨o, e, (by rw [Registry.State.commit_occupant_of_none s p hclaim]; exact hocc), howed⟩

/-- Process `p` has another number now, and did not have this one. -/
theorem Owed.update {adder : P → Option Nat} {id i : Nat} {x : Option Nat}
    (hne : adder p ≠ some id) (h : Owed s adder id i) :
    Owed s (Function.update adder p x) id i := by
  obtain ⟨o, e, hocc, howed⟩ := h
  refine ⟨o, e, hocc, howed.imp_left fun hid => ?_⟩
  have hop : o ≠ p := by
    intro hop
    rw [hop] at hid
    exact hne hid
  rw [Function.update_of_ne hop]
  exact hid

namespace Sim

/-- No claim changes the occupant of a registration that stays. -/
theorem commit_occupant (h : Sim s d adder remover) {id : Nat} {r : Registration P}
    (hr : d.regs[id]? = some r) (hstay : r.leaving = false) :
    (s.commit p (eff, l')).occupant r.slot = s.occupant r.slot := by
  cases hclaim : Registry.claimOf s.region (s.procs p) with
  | none => rw [Registry.State.commit_occupant_of_none s p hclaim]
  | some c =>
    obtain ⟨k, e⟩ := c
    have hne : r.slot ≠ k := by
      intro hk
      have hempty := state_of_claimOf hclaim
      have hnone : d.slots k = none :=
        h.dir.slots_of_entryAt ((h.shows k).trans (shown_of_not_entry fun t ht => by
          rw [show (s.slot k).state = _ from hempty] at ht
          cases ht))
      rw [← hk, h.dir.held id r hr hstay] at hnone
      cases hnone
    simp only [Registry.State.commit, hclaim]
    exact Function.update_of_ne hne _ _

/-- A step that the directory does not see. -/
theorem stay (h : Sim s d adder remover) (hidden : Hidden s.region eff)
    (hann : announces l'.pc = announces (s.pc p)) (hret : retires l'.pc = retires (s.pc p)) :
    Sim (s.commit p (eff, l')) d adder remover where
  dir := h.dir
  capacity := by
    rw [Registry.State.commit_region, Region.apply_maxEntries]
    exact h.capacity
  highWater := h.highWater.trans hidden.highWater.symm
  generation := h.generation.trans hidden.generation.symm
  shows i := (h.shows i).trans (shown_hidden hidden i).symm
  adding q := by
    rw [commit_same announces hann q]
    exact h.adding q
  adders := h.adders
  removing q := by
    rw [commit_same retires hret q]
    exact h.removing q
  removers := h.removers
  owed id r hr hstay hadded := by
    obtain ⟨o, e, hocc, howed⟩ := h.owed id r hr hstay hadded
    exact ⟨o, e, (h.commit_occupant hr hstay).trans hocc, howed⟩

/-- The store that publishes an entry. -/
theorem publish (h : Sim s d adder remover) (hinv : Registry.Inv s)
    (hbounds : Registry.Bounds s) {e : RegistryEntry P} {i : Nat}
    (at_pc : s.pc p = .publish e i) (to_pc : l'.pc = .hwLoad e i) :
    d.mutate (.publish i e) = some (d.published i e) ∧
      Sim (s.commit p (.setState i (.entry e.type), l')) (d.published i e)
        (Function.update adder p (some d.regs.length)) remover := by
  have hclaimed := (hinv.locals p).claim i e (by rw [show (s.procs p).pc = _ from at_pc]; rfl)
  have hclaim : Registry.claimOf s.region (s.procs p) = none :=
    Registry.claimOf_eq_none fun e' j again hpc => by
      rw [Registry.State.pc, hpc] at at_pc
      cases at_pc
  have hfree : d.slots i = none := by
    refine h.dir.slots_of_entryAt ((h.shows i).trans (shown_of_not_entry fun t ht => ?_))
    rw [hclaimed.state] at ht
    cases ht
  have hinside : i < d.capacity := by
    rw [h.capacity]
    exact hbounds.filled i fun hempty => by rw [hclaimed.state] at hempty; cases hempty
  have hregs : (d.published i e).regs = d.regs ++ [⟨e, i, false, none, false, none⟩] := rfl
  refine ⟨if_pos ⟨hinside, hfree⟩, ?_⟩
  have hret : retires l'.pc = retires (s.pc p) := by rw [at_pc, to_pc]; rfl
  refine ⟨h.dir.published hinside hfree, h.capacity, h.highWater, h.generation, fun j => ?_,
    commit_update announces (fun q _ => (h.adding q).append hregs) ?_, ?_, fun q => ?_,
    h.removers, fun id r hr hstay hadded => ?_⟩
  · rw [h.dir.entryAt_published e j]
    split
    · next hj =>
      subst hj
      unfold shown
      rw [Registry.State.commit_slot, Region.apply_setState_slots,
        Registry.State.commit_occupant_of_none s p hclaim, hclaimed.occupant]
      rfl
    · next hj => rw [shown_setState hclaim j hj, h.shows j]
  · rw [to_pc]
    exact ⟨d.regs.length, _, rfl, List.getElem?_concat_length, rfl, rfl, rfl, rfl⟩
  · refine h.adders.update p _ fun j hj q _ hq => ?_
    cases hj
    exact absurd ((h.adding q).lt hq) (Nat.lt_irrefl _)
  · rw [commit_same retires hret q]
    exact (h.removing q).append hregs
  · obtain ⟨rfl, rfl⟩ | hr := regs_append hr
    · refine ⟨p, e, ?_, .inl (Function.update_self _ _ _)⟩
      rw [Registry.State.commit_occupant_of_none s p hclaim]
      exact hclaimed.occupant
    · refine ((h.owed id r hr hstay hadded).commit hclaim).update fun hid => ?_
      have hnone := h.adding p
      rw [at_pc] at hnone
      rw [show adder p = none from hnone] at hid
      cases hid

/-- The high-water bound covers the slot of the entry. -/
theorem widen (h : Sim s d adder remover) {e : RegistryEntry P} {i : Nat}
    (hann : announces (s.pc p) = some (e, i, false)) (hret : retires (s.pc p) = false)
    (to_pc : l'.pc = .addBump e i)
    (hclaim : Registry.claimOf s.region (s.procs p) = none)
    (hslots : (s.region.apply eff).slots = s.region.slots)
    (hgen : (s.region.apply eff).generation = s.region.generation)
    (hhigh : (s.region.apply eff).highWaterSlot = max s.region.highWaterSlot (i + 1)) :
    ∃ a d', d.mutate a = some d' ∧ Sim (s.commit p (eff, l')) d' adder remover := by
  have hadding := h.adding p
  rw [hann] at hadding
  obtain ⟨id, r, hid, hr, hentry, hslot, hwide, hadded⟩ := hadding
  have hmutate : d.mutate (.widen id) = some (d.wide id r) := by
    simp only [Directory.mutate, hr, hwide]
    rfl
  have hmutated := mutated_of_mutate hmutate
  have hregs : (d.wide id r).regs = d.regs.set id { r with widened := true } := rfl
  have hret' : retires l'.pc = retires (s.pc p) := by rw [hret, to_pc]; rfl
  refine ⟨_, _, hmutate, h.dir.mutated hmutated, ?_, ?_, h.generation.trans hgen.symm,
    fun j => ?_, fun q => ?_, h.adders, fun q => ?_, h.removers, fun j x hx hstay hx' => ?_⟩
  · rw [Registry.State.commit_region, Region.apply_maxEntries]
    exact h.capacity
  · show max d.highWater (r.slot + 1) = (s.region.apply eff).highWaterSlot
    rw [hhigh, h.highWater, hslot]
  · rw [Directory.entryAt_set hr hregs rfl rfl, h.shows j, shown_of_slots hclaim hslots j]
  · by_cases hq : q = p
    · rw [hq, Registry.State.commit_pc_self, to_pc]
      obtain ⟨hlt, _⟩ := List.getElem?_eq_some_iff.mp hr
      exact ⟨id, _, hid, List.getElem?_set_self hlt, hentry, hslot, rfl, hadded⟩
    · rw [Registry.State.commit_pc_of_ne s p _ hq]
      exact (h.adding q).set hr hregs (.inl (ne_of_exclusive h.adders hid hq))
  · rw [commit_same retires hret' q]
    exact (h.removing q).set hr hregs (.inr ⟨rfl, rfl⟩)
  · obtain ⟨rfl, rfl⟩ | ⟨-, hx⟩ := regs_set hr hx
    · exact (h.owed j r hr hstay hadded).commit hclaim
    · exact (h.owed j x hx hstay hx').commit hclaim

/-- The bump of a publication. -/
theorem announce (h : Sim s d adder remover) {e : RegistryEntry P} {i : Nat}
    (at_pc : s.pc p = .addBump e i) (to_pc : l'.pc = .addRing e i)
    (hclaim : Registry.claimOf s.region (s.procs p) = none) :
    ∃ a d', d.mutate a = some d' ∧ Sim (s.commit p (.incGeneration, l')) d'
      (Function.update adder p none) remover := by
  have hadding := h.adding p
  rw [at_pc] at hadding
  obtain ⟨id, r, hid, hr, hentry, hslot, hwide, hadded⟩ := hadding
  have hmutate : d.mutate (.bumpAdd id) = some (d.bumpedAdd id r) := by
    simp only [Directory.mutate, hr]
    exact if_pos ⟨hwide, hadded⟩
  have hmutated := mutated_of_mutate hmutate
  have hregs : (d.bumpedAdd id r).regs =
    d.regs.set id { r with added := some (d.generation + 1) } := rfl
  have hret : retires l'.pc = retires (s.pc p) := by rw [at_pc, to_pc]; rfl
  refine ⟨_, _, hmutate, h.dir.mutated hmutated, h.capacity, h.highWater,
    congrArg (· + 1) h.generation, fun j => ?_,
    commit_update announces (fun q hq => (h.adding q).set hr hregs
      (.inl (ne_of_exclusive h.adders hid hq))) ?_,
    h.adders.update p _ fun j hj => (by cases hj), fun q => ?_, h.removers,
    fun j x hx hstay hx' => ?_⟩
  · rw [Directory.entryAt_set hr hregs rfl rfl, h.shows j]
    exact (shown_of_slots hclaim rfl j).symm
  · rw [to_pc]
    rfl
  · rw [commit_same retires hret q]
    exact (h.removing q).set hr hregs (.inr ⟨rfl, rfl⟩)
  · obtain ⟨rfl, rfl⟩ | ⟨hj, hx⟩ := regs_set hr hx
    · cases hx'
    · refine ((h.owed j x hx hstay hx').commit hclaim).update fun hid' => hj ?_
      exact Option.some.inj (hid'.symm.trans hid)

/-- The compare-and-swap that takes an entry out of its slot. -/
theorem take (h : Sim s d adder remover) {i : Nat} {e : RegistryEntry P}
    (hshown : shown s i = some e)
    (hann : announces (s.pc p) = none)
    (hann' : announces l'.pc = none) (hret' : retires l'.pc = true)
    (hclaim : Registry.claimOf s.region (s.procs p) = none) :
    ∃ a d' x, d.mutate a = some d' ∧ Sim (s.commit p (.setState i .empty, l')) d' adder
      (Function.update remover p (some x)) := by
  obtain ⟨id, r, -, hr, -, hslot, hstay⟩ :=
    h.dir.entryAt_eq_some ((h.shows i).trans hshown)
  have hmutate : d.mutate (.remove id) = some (d.vacated id r) := by
    simp only [Directory.mutate, hr, hstay]
    rfl
  have hmutated := mutated_of_mutate hmutate
  have hregs : (d.vacated id r).regs = d.regs.set id { r with leaving := true } := rfl
  -- A registration on its way out is not in its slot any more.
  have hfresh : ∀ q, remover q ≠ some id := by
    intro q hq
    have hremoving := h.removing q
    unfold Retiring at hremoving
    split at hremoving
    · rw [hq] at hremoving
      cases hremoving
    · obtain ⟨j, x, hj, hx, hleaving, -⟩ := hremoving
      rw [hq] at hj
      cases hj
      obtain rfl := Option.some.inj (hr.symm.trans hx)
      rw [hstay] at hleaving
      cases hleaving
  have hremoved : r.removed = none := by
    cases hremoved : r.removed with
    | none => rfl
    | some b =>
      have hleaving := (h.dir.removed id r b hr hremoved).1
      rw [hstay] at hleaving
      cases hleaving
  refine ⟨_, _, id, hmutate, h.dir.mutated hmutated, ?_, h.highWater, h.generation,
    fun j => ?_, fun q => ?_, h.adders,
    commit_update retires (fun q _ => (h.removing q).set hr hregs (.inl (hfresh q))) ?_,
    h.removers.update p _ fun j hj q _ hq => ?_, fun j x hx hstay' hx' => ?_⟩
  · rw [Registry.State.commit_region, Region.apply_maxEntries]
    exact h.capacity
  · rw [Directory.entryAt_vacated hr, hslot]
    split
    · next hj =>
      subst hj
      refine (shown_of_not_entry fun t ht => ?_).symm
      rw [Registry.State.commit_slot, Region.apply_setState_slots] at ht
      cases ht
    · next hj => rw [shown_setState hclaim j hj, h.shows j]
  · rw [commit_same announces (hann'.trans hann.symm) q]
    exact (h.adding q).set hr hregs (.inr ⟨rfl, rfl, rfl, rfl⟩)
  · rw [hret']
    obtain ⟨hlt, _⟩ := List.getElem?_eq_some_iff.mp hr
    exact ⟨id, _, rfl, List.getElem?_set_self hlt, rfl, hremoved⟩
  · cases hj
    exact hfresh q hq
  · obtain ⟨rfl, rfl⟩ | ⟨-, hx⟩ := regs_set hr hx
    · cases hstay'
    · exact (h.owed j x hx hstay' hx').commit hclaim

/-- The bump of a removal. -/
theorem retire (h : Sim s d adder remover)
    (hann : announces (s.pc p) = none) (hret : retires (s.pc p) = true)
    (hann' : announces l'.pc = none) (hret' : retires l'.pc = false)
    (hclaim : Registry.claimOf s.region (s.procs p) = none) :
    ∃ a d', d.mutate a = some d' ∧ Sim (s.commit p (.incGeneration, l')) d' adder
      (Function.update remover p none) := by
  have hremoving := h.removing p
  rw [hret] at hremoving
  obtain ⟨id, r, hid, hr, hleaving, hremoved⟩ := hremoving
  have hmutate : d.mutate (.bumpRemove id) = some (d.bumpedRemove id r) := by
    simp only [Directory.mutate, hr]
    exact if_pos ⟨hleaving, hremoved⟩
  have hmutated := mutated_of_mutate hmutate
  have hregs : (d.bumpedRemove id r).regs =
    d.regs.set id { r with removed := some (d.generation + 1) } := rfl
  refine ⟨_, _, hmutate, h.dir.mutated hmutated, h.capacity, h.highWater,
    congrArg (· + 1) h.generation, fun j => ?_, fun q => ?_, h.adders,
    commit_update retires (fun q hq => (h.removing q).set hr hregs
      (.inl (ne_of_exclusive h.removers hid hq))) ?_,
    h.removers.update p _ fun j hj => (by cases hj), fun j x hx hstay hx' => ?_⟩
  · rw [Directory.entryAt_set hr hregs rfl rfl, h.shows j]
    exact (shown_of_slots hclaim rfl j).symm
  · rw [commit_same announces (hann'.trans hann.symm) q]
    exact (h.adding q).set hr hregs (.inr ⟨rfl, rfl, rfl, rfl⟩)
  · rw [hret']
    rfl
  · obtain ⟨rfl, rfl⟩ | ⟨-, hx⟩ := regs_set hr hx
    · rw [show _ = false from hstay] at hleaving
      cases hleaving
    · exact (h.owed j x hx hstay hx').commit hclaim

/-- One operation of a live process. -/
theorem move (h : Sim s d adder remover) (hinv : Registry.Inv s)
    (hbounds : Registry.Bounds s) {alive : P → Bool} {spurious : Bool}
    (hexec : exec alive spurious s.region (s.procs p) = some (eff, l')) :
    ∃ d' adder' remover', (d' = d ∨ ∃ a, d.mutate a = some d') ∧
      Sim (s.commit p (eff, l')) d' adder' remover' := by
  have hunclaimed : ∀ {pc : Pc P}, s.pc p = pc → (∀ e i again, pc ≠ .addCas e i again) →
      Registry.claimOf s.region (s.procs p) = none :=
    fun hpc hne => Registry.claimOf_eq_none fun e i again hadd => hne e i again (hpc ▸ hadd)
  have hshift := exec_shift hexec
  generalize hpc' : l'.pc = pc' at hshift
  cases hshift with
  | stay hann hret hidden =>
    exact ⟨d, adder, remover, .inl rfl,
      h.stay hidden ((congrArg announces hpc').trans hann) ((congrArg retires hpc').trans hret)⟩
  | publish at_pc to_pc =>
    obtain ⟨hmutate, hsim⟩ := h.publish hinv hbounds at_pc (hpc'.trans to_pc)
    exact ⟨_, _, _, .inr ⟨_, hmutate⟩, hsim⟩
  | @wide e i hann hret to_pc above =>
    have hclaim : Registry.claimOf s.region (s.procs p) = none :=
      Registry.claimOf_eq_none fun e' j again hadd => by
        rw [hadd] at hann
        cases hann
    have hwiden : ∃ a d', d.mutate a = some d' ∧ Sim (s.commit p (.none, l')) d' adder remover :=
      h.widen hann hret (hpc'.trans to_pc) hclaim rfl rfl (max_eq_left above).symm
    obtain ⟨a, d', hmutate, hsim⟩ := hwiden
    exact ⟨d', _, _, .inr ⟨a, hmutate⟩, hsim⟩
  | @widen e i at_pc to_pc =>
    have hlt := hbounds.raises p e i _ at_pc
    have hwiden : ∃ a d', d.mutate a = some d' ∧
        Sim (s.commit p (.setHighWater (i + 1), l')) d' adder remover :=
      h.widen (congrArg announces at_pc) (congrArg retires at_pc) (hpc'.trans to_pc)
        (hunclaimed at_pc fun _ _ _ => by simp) rfl rfl (max_eq_right hlt.le).symm
    obtain ⟨a, d', hmutate, hsim⟩ := hwiden
    exact ⟨d', _, _, .inr ⟨a, hmutate⟩, hsim⟩
  | announce at_pc to_pc =>
    obtain ⟨a, d', hmutate, hsim⟩ := h.announce at_pc (hpc'.trans to_pc)
      (hunclaimed at_pc fun _ _ _ => by simp)
    exact ⟨d', _, _, .inr ⟨a, hmutate⟩, hsim⟩
  | @take i noadd hann hret occupied hann' hret' =>
    have hocc : ∃ o e, Registry.Occupied s i o e := by
      obtain hpc | ⟨t, ht⟩ := occupied
      · obtain ⟨e, he⟩ := (hinv.locals p).removing i hpc
        exact ⟨p, e, he⟩
      · exact (hinv.slots i).entry t ht
    obtain ⟨o, e, hocc⟩ := hocc
    obtain ⟨a, d', x, hmutate, hsim⟩ := h.take (shown_of_occupied hocc) hann
      ((congrArg announces hpc').trans hann') ((congrArg retires hpc').trans hret')
      (Registry.claimOf_eq_none noadd)
    exact ⟨d', _, _, .inr ⟨a, hmutate⟩, hsim⟩
  | retire hann hret hann' hret' =>
    have hclaim : Registry.claimOf s.region (s.procs p) = none :=
      Registry.claimOf_eq_none fun e' j again hadd => by
        rw [hadd] at hret
        cases hret
    obtain ⟨a, d', hmutate, hsim⟩ := h.retire hann hret
      ((congrArg announces hpc').trans hann') ((congrArg retires hpc').trans hret') hclaim
    exact ⟨d', _, _, .inr ⟨a, hmutate⟩, hsim⟩

/-- A process that begins a call has owed nothing, and owes nothing. -/
theorem call (h : Sim s d adder remover) {c : Registry.Call P} (hidle : s.pc p = .idle)
    (henter : Registry.enter s.region p (s.procs p) c = some l') :
    Sim (s.setLocal p l') d adder remover where
  dir := h.dir
  capacity := h.capacity
  highWater := h.highWater
  generation := h.generation
  shows := h.shows
  adding q := by
    by_cases hq : q = p
    · have hadding := h.adding p
      rw [hidle] at hadding
      rw [hq, Registry.State.pc, Registry.State.setLocal_self, (clear_enter henter).1]
      exact hadding
    · rw [Registry.State.pc, Registry.State.setLocal_of_ne s p l' hq]
      exact h.adding q
  adders := h.adders
  removing q := by
    by_cases hq : q = p
    · have hremoving := h.removing p
      rw [hidle] at hremoving
      rw [hq, Registry.State.pc, Registry.State.setLocal_self, (clear_enter henter).2]
      exact hremoving
    · rw [Registry.State.pc, Registry.State.setLocal_of_ne s p l' hq]
      exact h.removing q
  removers := h.removers
  owed := h.owed

/-- What a killed process owes, nobody will ever do. -/
theorem kill (h : Sim s d adder remover) : Sim (s.slay p) d (Function.update adder p none)
    (Function.update remover p none) where
  dir := h.dir
  capacity := h.capacity
  highWater := h.highWater
  generation := h.generation
  shows := h.shows
  adding q := by
    by_cases hq : q = p
    · rw [hq, Registry.State.pc, Registry.State.slay_self, Function.update_self]
      rfl
    · rw [Registry.State.pc, Registry.State.slay_of_ne s p hq, Function.update_of_ne hq]
      exact h.adding q
  adders := h.adders.update p _ fun j hj => (by cases hj)
  removing q := by
    by_cases hq : q = p
    · rw [hq, Registry.State.pc, Registry.State.slay_self, Function.update_self]
      rfl
    · rw [Registry.State.pc, Registry.State.slay_of_ne s p hq, Function.update_of_ne hq]
      exact h.removing q
  removers := h.removers.update p _ fun j hj => (by cases hj)
  owed id r hr hstay hadded := by
    obtain ⟨o, e, hocc, howed⟩ := h.owed id r hr hstay hadded
    by_cases ho : o = p
    · exact ⟨o, e, hocc, .inr (by rw [ho]; exact Function.update_self _ _ _)⟩
    · refine ⟨o, e, hocc, ?_⟩
      rw [Function.update_of_ne ho]
      exact howed.imp_right fun hdead => (Function.update_of_ne ho _ _).trans hdead

/-- Every step of the code is one mutation of the directory, or none. -/
theorem step {t : Registry.State P} {a : Registry.Act P} (h : Sim s d adder remover)
    (hinv : Registry.Inv s) (hbounds : Registry.Bounds s)
    (hstep : Registry.step s a = some t) :
    ∃ d' adder' remover', (d' = d ∨ ∃ b, d.mutate b = some d') ∧
      Sim t d' adder' remover' := by
  cases a with
  | call p c =>
    obtain ⟨-, hidle, l, henter, rfl⟩ := Registry.of_step_call hstep
    exact ⟨d, adder, remover, .inl rfl, h.call hidle henter⟩
  | step p spurious =>
    obtain ⟨-, eff, l, hexec, rfl⟩ := Registry.of_step_step hstep
    exact h.move hinv hbounds hexec
  | kill p =>
    obtain ⟨-, rfl⟩ := Registry.of_step_kill hstep
    exact ⟨d, _, _, .inl rfl, h.kill⟩

end Sim

/-! ## The result -/

/-- What the region and the directory have in common. -/
structure Agrees (s : Registry.State P) (d : Directory P) : Prop where
  capacity : d.capacity = s.region.maxEntries
  highWater : d.highWater = s.region.highWaterSlot
  generation : d.generation = s.region.generation
  shows : ∀ i, d.entryAt i = shown s i
  held : ∀ p i e, (i, e) ∈ (s.procs p).held → ∃ id r b, d.slots i = some id ∧
    d.regs[id]? = some r ∧ r.entry = e ∧ r.added = some b ∧ b ≤ s.region.generation

omit [DecidableEq P] in
/-- The process that has an entry announced has not got its index yet. -/
theorem settled_of_announces {pc : Pc P} {e : RegistryEntry P} {i : Nat} {wide : Bool}
    (h : announces pc = some (e, i, wide)) : pc.settled = some (i, e) := by
  cases pc <;> first | cases h; rfl | cases h

omit [DecidableEq P] in
theorem Sim.agrees (h : Sim s d adder remover) (hinv : Registry.Inv s) : Agrees s d where
  capacity := h.capacity
  highWater := h.highWater
  generation := h.generation
  shows := h.shows
  held p i e hheld := by
    have hocc := (hinv.locals p).held i e hheld
    obtain ⟨id, r, hslot, hr, hentry, hat, hstay⟩ :=
      h.dir.entryAt_eq_some ((h.shows i).trans (shown_of_occupied hocc))
    cases hadded : r.added with
    | some b =>
      exact ⟨id, r, b, hslot, hr, hentry, hadded, h.generation ▸ (h.dir.added id r b hr hadded).2⟩
    | none =>
      -- Its process would be between the publication and the bump, or dead.
      exfalso
      obtain ⟨o, e', hocc', howed⟩ := h.owed id r hr hstay hadded
      rw [hat, hocc.occupant] at hocc'
      cases hocc'
      obtain hid | hdead := howed
      · have hadding := h.adding p
        unfold Announcing at hadding
        split at hadding
        · rw [hid] at hadding
          cases hadding
        · next e' j wide hann =>
          obtain ⟨id', r', hid', hr', -, hat', -⟩ := hadding
          rw [hid] at hid'
          cases hid'
          obtain rfl := Option.some.inj (hr.symm.trans hr')
          refine (hinv.locals p).settled_fresh (settled_of_announces hann) ?_
          rw [← hat', hat]
          exact List.mem_map_of_mem hheld
      · rw [hinv.alive_of_held hheld] at hdead
        cases hdead

/-- The simulation relation, with the invariants of the code. -/
structure Simulates (s : Registry.State P) (d : Directory P) : Prop where
  inv : Registry.Inv s
  bounds : Registry.Bounds s
  sim : ∃ adder remover, Sim s d adder remover

omit [DecidableEq P] in
theorem Simulates.init (P : Type) (n : Nat) :
    Simulates (Registry.State.init P n) (.initialized P n) :=
  ⟨.init n, .init n, _, _, .init P n⟩

omit [DecidableEq P] in
theorem Simulates.agrees (h : Simulates s d) : Agrees s d := by
  obtain ⟨adder, remover, hsim⟩ := h.sim
  exact hsim.agrees h.inv

theorem Simulates.step {t : Registry.State P} {a : Registry.Act P} (h : Simulates s d)
    (hok : CrashOk s a) (hstep : Registry.step s a = some t) :
    ∃ d', (d' = d ∨ ∃ b, d.mutate b = some d') ∧ Simulates t d' := by
  obtain ⟨adder, remover, hsim⟩ := h.sim
  obtain ⟨d', adder', remover', hmatch, hsim'⟩ := hsim.step h.inv h.bounds hstep
  exact ⟨d', hmatch, h.inv.step_of_crashOk hok hstep, h.bounds.step h.inv hstep, adder',
    remover', hsim'⟩

end

end RmwUnixSocket.Graph
