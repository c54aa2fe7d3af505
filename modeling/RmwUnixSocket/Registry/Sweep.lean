import RmwUnixSocket.Registry.AddRemove
import RmwUnixSocket.Registry.Visibility

/-!
# What `registry_cleanup_stale` leaves alone

A sweep takes only the slots whose occupant it has vetted, and it does not
touch the slot or the path of an entry that a live process has added
(`registry_cleanup_stale_spares`).

The vetting is a snapshot, a look at `/proc`, a second load of the counter
and a compare-and-swap on the state byte.  The state byte does not tell one
entry from the next, so the slot may change hands between the last two of
these, and the sweep takes the entry that came last
(`registry_cleanup_stale_takes_live`).  `SweepFresh` is the condition that it
does not.
-/

namespace RmwUnixSocket.Registry

variable {P : Type}

/-! ## Sweeps -/

/-- The process is inside `registry_cleanup_stale`. -/
def Pc.inSweep : Pc P → Bool
  | .sweepHw _ => true
  | .sweepState _ _ => true
  | .snapSeq (.sweep _) _ _ => true
  | .snapState (.sweep _) _ _ _ => true
  | .snapCopy (.sweep _) _ _ _ _ => true
  | .sweepPid _ _ _ => true
  | .sweepSeq _ _ _ => true
  | .sweepCas _ _ _ => true
  | .tearBegin (.sweep _ _) _ => true
  | .tearPath (.sweep _ _) _ => true
  | .tearing (.sweep _ _) _ _ _ => true
  | .tearUnlink (.sweep _ _) _ _ => true
  | .sweepBump _ _ _ => true
  | .sweepRing _ => true
  | _ => false

/-- The process is inside `write_slot_payload` or `teardown_slot`. -/
def Pc.inSection : Pc P → Bool
  | .writing _ _ _ => true
  | .tearPath _ _ => true
  | .tearing _ _ _ _ => true
  | .tearUnlink _ _ _ => true
  | _ => false

/-- The action is a step of process `q`. -/
def Act.isStepOf (q : P) : Act P → Prop
  | .step p _ => p = q
  | _ => False

instance [DecidableEq P] (q : P) (a : Act P) : Decidable (a.isStepOf q) :=
  match a with
  | .step p _ => inferInstanceAs (Decidable (p = q))
  | .call _ _ => isFalse id
  | .kill _ => isFalse id

/-- A payload write and a teardown run without a stop. -/
def Atomic (s : State P) (a : Act P) : Prop :=
  ∀ q, (s.pc q).inSection = true → a.isStepOf q

instance [Fintype P] [DecidableEq P] (s : State P) (a : Act P) :
    Decidable (Atomic s a) :=
  inferInstanceAs (Decidable (∀ _, _))

/-- The entry that process `o` has in slot `i`: published, or on its way
between the claim and the publication. -/
def State.Current (s : State P) (i : Nat) (o : P) (e : RegistryEntry P) : Prop :=
  s.occupant i = some (o, e) ∧
    ((s.slot i).state = .entry e.type ∨ (s.pc o).claims = some (i, e))

/-- What a step of a sweep may do: it neither changes the slot nor unlinks
the path of an entry of a live process, and the entry that it takes is the
one of its snapshot, whose process is dead. -/
structure SweepSafe (s : State P) (p : P) (eff : Effect P) : Prop where
  spares : ∀ i o e, s.Current i o e → s.alive o = true →
    eff.target ≠ some i ∧ eff ≠ .unlink e.path
  vetted : ∀ x ∈ sweepTakes s.region (s.procs p), ∃ o e,
    Occupied s x.1 o e ∧ s.alive o = false ∧ x.2.payload .pid = some o ∧
      x.2.type = e.type ∧ x.2.payload = e.payload

/-- The runs in which no slot is claimed during its teardown, a sweep takes
a slot at the counter of its snapshot, nobody is killed inside a teardown,
and no entry comes with a path that is in use. -/
def SweepOk (s : State P) (a : Act P) : Prop :=
  CrashOk s a ∧ FreshPath s a

instance [Fintype P] (s : State P) (a : Act P) : Decidable (SweepOk s a) :=
  inferInstanceAs (Decidable (_ ∧ _))

/-! ## The effects of a sweep -/

section Effects

variable {alive : P → Bool} {spurious : Bool} {m : Region P} {l l' : Local P}
  {eff : Effect P}

/-- A file is removed only at the end of a teardown. -/
theorem unlinks_of_exec {path : List UInt8}
    (h : exec alive spurious m l = some (.unlink path, l')) :
    path ≠ [] ∧ l.pc.unlinks = some path := by
  rcases l with ⟨pc, held, ret⟩
  cases pc with
  | tearUnlink c i path' =>
    simp only [exec, Option.some.injEq, Prod.mk.injEq] at h
    obtain ⟨heff, -⟩ := h
    split at heff
    · cases heff
    · rename_i hne
      cases heff
      exact ⟨hne, rfl⟩
  | writing e i rest =>
    cases rest <;> simp only [exec, Option.some.injEq, Prod.mk.injEq] at h <;>
      cases h.1
  | tearing c i path' rest =>
    cases rest <;> simp only [exec, Option.some.injEq, Prod.mk.injEq] at h <;>
      cases h.1
  | snapCopy c i retry snap rest =>
    cases rest <;> simp only [exec] at h <;> (try split at h) <;> cases h
  | _ =>
    simp only [exec] at h
    first
      | cases h
      | ((repeat' split at h) <;> cases h)

/-- A sweep changes the slot that it takes or wipes, and no other. -/
theorem Move.target_of_inSweep (h : Move alive m l eff l')
    (hsweep : l.pc.inSweep = true) {i : Nat} (htarget : eff.target = some i) :
    l.pc.tears = some i ∨ ∃ snap, sweepTakes m l = some (i, snap) := by
  cases h with
  | rest quiet _ _ _ _ => rw [Effect.target_of_quiet quiet] at htarget; cases htarget
  | tearBegin c j at_pc => cases htarget; exact .inl (by rw [at_pc]; rfl)
  | tearField c j path f rest at_pc => cases htarget; exact .inl (by rw [at_pc]; rfl)
  | tearEnd c j path at_pc => cases htarget; exact .inl (by rw [at_pc]; rfl)
  | sweepTake w j snap at_pc same =>
    cases htarget
    refine .inr ⟨snap, ?_⟩
    simp only [sweepTakes, at_pc]
    exact if_pos same
  | claim e j again at_pc empty => rw [at_pc] at hsweep; cases hsweep
  | writeBegin e j at_pc => rw [at_pc] at hsweep; cases hsweep
  | writeField e j f rest at_pc => rw [at_pc] at hsweep; cases hsweep
  | writeEnd e j at_pc => rw [at_pc] at hsweep; cases hsweep
  | publish e j at_pc => rw [at_pc] at hsweep; cases hsweep
  | removeTake j st at_pc same => rw [at_pc] at hsweep; cases hsweep
  | _ => cases htarget

end Effects

/-! ## The result -/

/-- The slot of a current entry is published with it, or reserved for it. -/
theorem Inv.of_current {s : State P} (h : Inv s) {i : Nat} {o : P}
    {e : RegistryEntry P} (hcur : s.Current i o e) :
    Occupied s i o e ∨
      (s.slot i).state = .reserved ∧ (s.pc o).claims = some (i, e) := by
  obtain ⟨hocc, hstate | hclaims⟩ := hcur
  · obtain ⟨o', e', hocc'⟩ := (h.slots i).entry _ hstate
    have heq := hocc'.occupant.symm.trans hocc
    cases heq
    exact .inl hocc'
  · exact .inr ⟨((h.locals o).claim i e hclaims).state, hclaims⟩

section Result

variable [DecidableEq P]

/-- The three invariants of a run that meets the conditions. -/
theorem invariants_of_sweepOk {n : Nat} {s : State P}
    (hrun : (machine P).Reach SweepOk (State.init P n) s) :
    Inv s ∧ Bounds s ∧ Paths s := by
  refine hrun.invariant (I := fun s => Inv s ∧ Bounds s ∧ Paths s)
    ⟨Inv.init n, Bounds.init n, Paths.init n⟩ ?_
  intro t a u ⟨hinv, hbounds, hpaths⟩ ⟨hcrash, hfresh⟩ hstep
  exact ⟨hinv.step_of_crashOk hcrash hstep, hbounds.step hinv hstep,
    hpaths.step hinv hbounds hfresh hstep⟩

theorem registry_cleanup_stale_spares {n : Nat} {s : State P}
    (hrun : (machine P).Reach SweepOk (State.init P n) s) {p : P}
    {spurious : Bool} (hok : SweepOk s (.step p spurious)) {eff : Effect P}
    {l' : Local P}
    (hexec : exec s.alive spurious s.region (s.procs p) = some (eff, l'))
    (hsweep : (s.pc p).inSweep = true) : SweepSafe s p eff := by
  obtain ⟨hinv, hbounds, hpaths⟩ := invariants_of_sweepOk hrun
  have hvetted : ∀ x ∈ sweepTakes s.region (s.procs p), ∃ o e,
      Occupied s x.1 o e ∧ s.alive o = false ∧ x.2.payload .pid = some o ∧
        x.2.type = e.type ∧ x.2.payload = e.payload :=
    fun x hx => hinv.of_sweepTakes hx (hok.1.2.1 x hx)
  refine ⟨fun i o e hcur hlive => ⟨fun htarget => ?_, ?_⟩, hvetted⟩
  · rcases (exec_move hexec).target_of_inSweep hsweep htarget with
      htears | ⟨snap, htakes⟩
    · have hempty := ((hinv.locals p).tear i htears).1
      rcases hinv.of_current hcur with hocc | ⟨hres, -⟩
      · exact absurd (hempty.symm.trans hocc.state) nofun
      · exact absurd (hempty.symm.trans hres) nofun
    · obtain ⟨o', e', hocc', hdead, -⟩ := hvetted (i, snap) htakes
      have heq := hocc'.occupant.symm.trans hcur.1
      cases heq
      exact absurd (hlive.symm.trans hdead) nofun
  · rintro rfl
    obtain ⟨hne, hunlinks⟩ := unlinks_of_exec hexec
    rcases hinv.of_current hcur with hocc | ⟨-, hclaims⟩
    · exact hpaths.unlinks_ne hbounds hocc hne hunlinks rfl
    · have hadder : s.pathOf (.adder o) = some e.path := by
        simp only [State.pathOf, Pc.adding]
        rw [show (s.procs o).pc.claims = some (i, e) from hclaims]
        rfl
      have heq := hpaths (.adder o) (.tearer p) e.path hne hadder
        (Pc.wipes_of_unlinks hunlinks)
      cases heq

set_option maxRecDepth 100000 in
/-- Process 1 has vetted the slot of the dead process 0 and takes it. -/
theorem registry_cleanup_stale_spares_node :
    ∃ (s : State (Fin 2)) (eff : Effect (Fin 2)),
      eff.target = some 0 ∧ SweepSafe s 1 eff := by
  obtain ⟨s, hrun, hsweep, hok, htarget⟩ :=
    (machine (Fin 2)).exists_reach_of_guardedRun SweepOk
      (State.init (Fin 2) 1)
      (.call 0 (.add (nodeEntry 0 97)) :: steps 0 19 ++ .kill 0 ::
        .call 1 .cleanup :: steps 1 18)
      (fun s => (s.pc 1).inSweep = true ∧ SweepOk s (.step 1 false) ∧
        ((exec s.alive false s.region (s.procs 1)).bind fun r => r.1.target) =
          some 0) (by decide)
  obtain ⟨⟨eff, l⟩, hexec, heff⟩ := Option.bind_eq_some_iff.mp htarget
  exact ⟨s, eff, heff, registry_cleanup_stale_spares hrun hok hexec hsweep⟩

set_option maxRecDepth 100000 in
/-- Process 1 has vetted the slot of the dead process 0 and loaded its
counter again.  Process 2 sweeps the slot and adds its node there.  Then the
compare-and-swap of process 1 finds the type that it expects. -/
theorem registry_cleanup_stale_takes_live :
    ¬∀ s : State (Fin 3),
      (machine (Fin 3)).Reach (fun s a => Atomic s a ∧ FreshPath s a)
        (State.init (Fin 3) 1) s →
      ∀ p spurious, Atomic s (.step p spurious) → ∀ eff l',
        exec s.alive spurious s.region (s.procs p) = some (eff, l') →
        (s.pc p).inSweep = true → SweepSafe s p eff := by
  intro hclaim
  obtain ⟨s, hrun, hsweep, hatomic, hlive, hcur, htarget⟩ :=
    (machine (Fin 3)).exists_reach_of_guardedRun
      (fun s a => Atomic s a ∧ FreshPath s a) (State.init (Fin 3) 1)
      (.call 0 (.add (nodeEntry 0 97)) :: steps 0 19 ++ .kill 0 ::
        .call 1 .cleanup :: steps 1 18 ++ .call 2 .cleanup :: steps 2 36 ++
        .call 2 (.add (nodeEntry 2 98)) :: steps 2 18)
      (fun s => (s.pc 1).inSweep = true ∧ Atomic s (.step 1 false) ∧
        s.alive 2 = true ∧
        ((s.occupant 0).any fun x =>
          x.1 == 2 && (s.slot 0).state == .entry x.2.type) = true ∧
        ((exec s.alive false s.region (s.procs 1)).bind fun r => r.1.target) =
          some 0) (by decide)
  obtain ⟨⟨eff, l⟩, hexec, heff⟩ := Option.bind_eq_some_iff.mp htarget
  obtain ⟨⟨o, e⟩, hocc, hboth⟩ := (Option.any_eq_true _ _).mp hcur
  simp only [Bool.and_eq_true, beq_iff_eq] at hboth
  obtain ⟨rfl, hstate⟩ := hboth
  have hsafe := hclaim s hrun 1 false hatomic eff l hexec hsweep
  exact (hsafe.spares 0 2 e ⟨hocc, .inl hstate⟩ hlive).1 heff

end Result

end RmwUnixSocket.Registry
