import RmwUnixSocket.Registry.Paths

/-!
# What `registry_add` promises to the owner of a slot

In a run of `registry_add` and `registry_remove` calls, the slot whose index
a process holds keeps the entry of the process, and no teardown unlinks its
socket path (`registry_add_slot_kept`).

The run has to meet two conditions.  `ClaimFree` is the one that the code
does not see to: `registry_remove` publishes `ENTRY_EMPTY` before it wipes
the slot, so another process can claim the slot in between, and the wipe
falls on the new entry (`registry_add_slot_wiped`).
-/

namespace RmwUnixSocket.Registry

variable {P : Type}

/-- The calls of `registry_add` and `registry_remove` and their steps. -/
def Act.addsRemoves : Act P → Bool
  | .call _ (.add _) => true
  | .call _ (.remove _) => true
  | .step _ _ => true
  | _ => false

theorem Act.ne_kill_of_addsRemoves {a : Act P} (h : a.addsRemoves = true)
    (p : P) : a ≠ .kill p := by
  rintro rfl
  cases h

/-- Slot `i` has entry `e`, and nobody is about to unlink its path. -/
structure SlotKept (s : State P) (i : Nat) (e : RegistryEntry P) : Prop where
  state : (s.slot i).state = .entry e.type
  payload : (s.slot i).payload = e.payload
  linked : ∀ q path, (s.procs q).pc.unlinks = some path → path ≠ [] →
    path ≠ e.path

/-! ## Runs in which nobody is killed -/

/-- A sweep finds no dead process where nobody is killed, so it takes no
slot. -/
theorem Inv.sweepFresh_of_alive {s : State P} (h : Inv s)
    (halive : ∀ p, s.alive p = true) (a : Act P) : SweepFresh s a := by
  cases a with
  | step p spurious =>
    intro x hx
    have hpc : ∃ snap, (s.procs p).pc.vetted = some snap := by
      unfold sweepTakes at hx
      split at hx
      · rename_i w i snap hpc
        exact ⟨snap, by rw [hpc]; rfl⟩
      · cases hx
    obtain ⟨snap, hvetted⟩ := hpc
    obtain ⟨o, -, hdead⟩ := (h.locals p).vetted snap hvetted
    rw [halive o] at hdead
    cases hdead
  | call p c => trivial
  | kill p => trivial

/-- A step that kills nobody. -/
theorem alive_of_step [DecidableEq P] {s t : State P} {a : Act P}
    (halive : ∀ p, s.alive p = true) (hkill : ∀ p, a ≠ .kill p)
    (hstep : step s a = some t) : ∀ p, t.alive p = true := by
  cases a with
  | call p c =>
    obtain ⟨-, -, l, -, rfl⟩ := of_step_call hstep
    exact halive
  | step p spurious =>
    obtain ⟨-, eff, l, -, rfl⟩ := of_step_step hstep
    exact halive
  | kill p => exact absurd rfl (hkill p)

/-- The slot protocol holds in a run in which nobody is killed and no claim
meets a teardown. -/
theorem Inv.step_of_alive [DecidableEq P] {s t : State P} {a : Act P}
    (h : Inv s) (halive : ∀ p, s.alive p = true) (hkill : ∀ p, a ≠ .kill p)
    (hclaim : ClaimFree s a) (hstep : Registry.step s a = some t) : Inv t := by
  refine h.step hclaim (h.sweepFresh_of_alive halive a) ?_ hstep
  cases a with
  | kill p => exact absurd rfl (hkill p)
  | _ => trivial

/-! ## The result -/

section Result

variable [DecidableEq P]

/-- The runs of `registry_add` and `registry_remove` in which no claim meets
a teardown and no entry comes with a path that is in use. -/
def AddRemoveOk (s : State P) (a : Act P) : Prop :=
  a.addsRemoves = true ∧ ClaimFree s a ∧ FreshPath s a

instance [Fintype P] (s : State P) (a : Act P) : Decidable (AddRemoveOk s a) :=
  inferInstanceAs (Decidable (_ ∧ _))

/-- From the return of `registry_add` to the call of `registry_remove` the
slot keeps its entry and its path, in every run in which no slot is claimed
during its teardown. -/
theorem registry_add_slot_kept {n : Nat} {s : State P}
    (hrun : (machine P).Reach AddRemoveOk (State.init P n) s) {p : P} {i : Nat}
    {e : RegistryEntry P} (hheld : (i, e) ∈ (s.procs p).held) :
    SlotKept s i e := by
  have hall : Inv s ∧ Bounds s ∧ Paths s ∧ ∀ p, s.alive p = true := by
    refine hrun.invariant (I := fun s => Inv s ∧ Bounds s ∧ Paths s ∧
      ∀ p, s.alive p = true)
      ⟨Inv.init n, Bounds.init n, Paths.init n, fun _ => rfl⟩ ?_
    rintro t a u ⟨hinv, hbounds, hpaths, halive⟩ ⟨hact, hclaim, hfresh⟩ hstep
    have hkill := Act.ne_kill_of_addsRemoves hact
    exact ⟨hinv.step_of_alive halive hkill hclaim hstep,
      hbounds.step hinv hstep, hpaths.step hinv hbounds hfresh hstep,
      alive_of_step halive hkill hstep⟩
  obtain ⟨hinv, hbounds, hpaths, -⟩ := hall
  have hocc := (hinv.locals p).held i e hheld
  exact ⟨hocc.state, hocc.payload, fun q path hunlinks hne =>
    hpaths.unlinks_ne hbounds hocc hne hunlinks⟩

/-! ## Runs on fixed entries -/

/-- The entry of a node of process `p` whose path is one letter. -/
def nodeEntry (p : P) (letter : UInt8) : RegistryEntry P where
  type := .node
  payload
    | .pid => some p
    | .socketPath => [letter]
    | f => Field.zero _ f

/-- `n` steps of process `p`. -/
def steps (p : P) (n : Nat) : List (Act P) :=
  List.replicate n (.step p false)

set_option maxRecDepth 100000 in
/-- Process 1 holds the slot that process 0 gave back. -/
theorem registry_add_slot_kept_reuse :
    ∃ s e, (0, e) ∈ (s.procs (1 : Fin 2)).held ∧ SlotKept s 0 e := by
  obtain ⟨s, hrun, hheld⟩ :=
    (machine (Fin 2)).exists_reach_of_guardedRun AddRemoveOk
      (State.init (Fin 2) 1)
      (.call 0 (.add (nodeEntry 0 97)) :: steps 0 19 ++
        .call 0 (.remove 0) :: steps 0 19 ++
        .call 1 (.add (nodeEntry 1 98)) :: steps 1 18)
      (fun s => (s.procs 1).held.map Prod.fst = [0]) (by decide)
  obtain ⟨⟨i, e⟩, hmem, rfl⟩ :=
    List.mem_map.mp (hheld ▸ List.mem_singleton_self 0)
  exact ⟨s, e, hmem, registry_add_slot_kept hrun hmem⟩

set_option maxRecDepth 100000 in
/-- Process 0 has published `ENTRY_EMPTY`, process 1 adds its node to the
slot, and then process 0 wipes it. -/
theorem registry_add_slot_wiped :
    ¬∀ s : State (Fin 2),
      (machine (Fin 2)).Reach (fun s a => a.addsRemoves = true ∧ FreshPath s a)
        (State.init (Fin 2) 1) s →
      ∀ p i e, (i, e) ∈ (s.procs p).held → SlotKept s i e := by
  intro hclaim
  obtain ⟨s, hrun, hheld, hwiped⟩ :=
    (machine (Fin 2)).exists_reach_of_guardedRun
      (fun s a => a.addsRemoves = true ∧ FreshPath s a) (State.init (Fin 2) 1)
      (.call 0 (.add (nodeEntry 0 97)) :: steps 0 19 ++
        .call 0 (.remove 0) :: steps 0 2 ++
        .call 1 (.add (nodeEntry 1 98)) :: steps 1 18 ++ steps 0 14)
      (fun s =>
        (s.procs 1).held.map (fun h => (h.1, h.2.payload .pid)) = [(0, some 1)] ∧
          (s.slot 0).payload .pid = none) (by decide)
  obtain ⟨⟨i, e⟩, hmem, heq⟩ :=
    List.mem_map.mp (hheld ▸ List.mem_singleton_self ((0 : Nat), some (1 : Fin 2)))
  obtain ⟨rfl, hpid⟩ := Prod.mk.inj heq
  rw [(hclaim s hrun 1 0 e hmem).payload] at hwiped
  exact absurd (hpid.symm.trans hwiped) nofun

end Result

end RmwUnixSocket.Registry
