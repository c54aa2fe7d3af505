import RmwUnixSocket.Registry.Moves

/-!
# The slot protocol and its invariant

A slot has at most one process at work on it: the one that claimed it and
fills it, or the one that took it and wipes it.  `Inv` states this, together
with what the work in progress says about the seqlock counter, the state
byte and the payload.

The invariant needs three conditions on the run, and each of them is about a
place where the code lets a second process in.

* `ClaimFree`: no slot is claimed while a teardown of its previous occupant
  has not closed its seqlock section.
* `SweepFresh`: a sweep takes a slot only if the counter still has the value
  of the snapshot that the sweep vetted.
* `WholeTeardown`: no process is killed inside the seqlock section of a
  teardown.

The last section says what a process still knows after another one has
moved.
-/

namespace RmwUnixSocket.Registry

variable {P : Type}

/-! ## The conditions on a run -/

section Guards

/-- No slot is claimed while a teardown of its previous occupant is inside
its seqlock section. -/
def ClaimFree (s : State P) : Act P → Prop
  | .step p _ =>
    ∀ c ∈ claimOf s.region (s.procs p), ∀ q, (s.pc q).tears ≠ some c.1
  | _ => True

/-- The slot that the next step of a sweep takes, if it does, with the
snapshot that the sweep vetted. -/
def sweepTakes (m : Region P) (l : Local P) : Option (Nat × Snapshot P) :=
  match l.pc with
  | .sweepCas _ i snap =>
    if (m.slots i).state = .entry snap.type then some (i, snap) else none
  | _ => none

/-- A sweep that takes a slot finds the counter of its snapshot. -/
def SweepFresh (s : State P) : Act P → Prop
  | .step p _ =>
    ∀ x ∈ sweepTakes s.region (s.procs p), (s.slot x.1).seq = x.2.seq
  | _ => True

/-- No process is killed inside the seqlock section of a teardown. -/
def WholeTeardown (s : State P) : Act P → Prop
  | .kill p => (s.pc p).tears = none ∨ (s.pc p).parity = 0
  | _ => True

instance [Fintype P] (s : State P) (a : Act P) : Decidable (ClaimFree s a) :=
  match a with
  | .step p _ =>
    inferInstanceAs (Decidable
      (∀ c ∈ claimOf s.region (s.procs p), ∀ q, (s.pc q).tears ≠ some c.1))
  | .call _ _ => isTrue trivial
  | .kill _ => isTrue trivial

instance (s : State P) (a : Act P) : Decidable (SweepFresh s a) :=
  match a with
  | .step p _ =>
    inferInstanceAs (Decidable
      (∀ x ∈ sweepTakes s.region (s.procs p), (s.slot x.1).seq = x.2.seq))
  | .call _ _ => isTrue trivial
  | .kill _ => isTrue trivial

instance (s : State P) (a : Act P) : Decidable (WholeTeardown s a) :=
  match a with
  | .kill p =>
    inferInstanceAs (Decidable ((s.pc p).tears = none ∨ (s.pc p).parity = 0))
  | .call _ _ => isTrue trivial
  | .step _ _ => isTrue trivial

end Guards

/-! ## The invariant -/

/-- Slot `i` is published with entry `e` of process `p`. -/
structure Occupied (s : State P) (i : Nat) (p : P) (e : RegistryEntry P) :
    Prop where
  state : (s.slot i).state = .entry e.type
  occupant : s.occupant i = some (p, e)
  payload : (s.slot i).payload = e.payload
  pid : e.payload .pid = some p
  even : (s.slot i).seq % 2 = 0

/-- Process `p` fills slot `i` with entry `e`, and has yet to copy `rest`. -/
structure Claimed (s : State P) (i : Nat) (p : P) (e : RegistryEntry P)
    (parity : Nat) (rest : List Field) : Prop where
  state : (s.slot i).state = .reserved
  occupant : s.occupant i = some (p, e)
  pid : e.payload .pid = some p
  parity : (s.slot i).seq % 2 = parity
  copied : Words.AgreeOff rest e.payload (s.slot i).payload

/-- A seqlock read of slot `i` that began at counter `n`: if the counter has
not moved, the buffer has the members of the slot that were copied. -/
structure Observes (s : State P) (i n : Nat) (buf : Payload P)
    (rest : List Field) : Prop where
  even : n % 2 = 0
  le : n ≤ (s.slot i).seq
  copied : (s.slot i).seq = n → Words.AgreeOff rest (s.slot i).payload buf

/-- The slots that a process owns: a published one that it has not returned,
one that it is about to take back, and the ones it holds. -/
def Local.owned (l : Local P) : List Nat :=
  (l.pc.settled.map Prod.fst).toList ++ l.pc.removing.toList ++
    l.held.map Prod.fst

/-- What the local state of process `p` says about the slots. -/
structure LocalOk (s : State P) (p : P) (l : Local P) : Prop where
  pending : ∀ e, l.pc.pending = some e → e.payload .pid = some p
  claim : ∀ i e, l.pc.claims = some (i, e) →
    Claimed s i p e l.pc.parity l.pc.claimRest
  tear : ∀ i, l.pc.tears = some i →
    (s.slot i).state = .empty ∧ (s.slot i).seq % 2 = l.pc.parity
  observe : ∀ i n buf rest, l.pc.observes = some (i, n, buf, rest) →
    Observes s i n buf rest
  vetted : ∀ snap, l.pc.vetted = some snap →
    ∃ o, snap.payload .pid = some o ∧ s.alive o = false
  settled : ∀ i e, l.pc.settled = some (i, e) → Occupied s i p e
  removing : ∀ i, l.pc.removing = some i → ∃ e, Occupied s i p e
  held : ∀ i e, (i, e) ∈ l.held → Occupied s i p e
  nodup : l.owned.Nodup

/-- What a slot has when nobody is at work on it. -/
structure SlotOk (s : State P) (i : Nat) : Prop where
  empty : (s.slot i).state = .empty → (∀ p, (s.pc p).tears ≠ some i) →
    (s.slot i).seq % 2 = 0
  entry : ∀ t, (s.slot i).state = .entry t → ∃ p e, Occupied s i p e

/-- The invariant of the slot protocol. -/
structure Inv (s : State P) : Prop where
  locals : ∀ p, LocalOk s p (s.procs p)
  slots : ∀ i, SlotOk s i
  busy_unique : ∀ p q i, (s.pc p).busy = some i → (s.pc q).busy = some i → p = q
  dead : ∀ p, s.alive p = false → s.procs p = Local.fresh P

/-- An initialised region satisfies the invariant. -/
theorem Inv.init (n : Nat) : Inv (State.init P n) where
  locals _ :=
    { pending := nofun, claim := nofun, tear := nofun, observe := nofun,
      vetted := nofun, settled := nofun, removing := nofun, held := nofun,
      nodup := List.nodup_nil }
  slots _ := { empty := fun _ _ => rfl, entry := nofun }
  busy_unique := nofun
  dead := nofun

/-! ## Frames: what the other processes still know -/

section Frames

variable {s s' : State P} {p : P} {l : Local P} {i : Nat}

/-- The slot and its occupant are as before. -/
def SameSlot (s s' : State P) (i : Nat) : Prop :=
  s'.slot i = s.slot i ∧ s'.occupant i = s.occupant i

/-- The slot has changed the way a seqlock writer changes it: the counter
does not go back, and the payload changes at an odd counter only. -/
structure Moved (s s' : State P) (i : Nat) : Prop where
  le : (s.slot i).seq ≤ (s'.slot i).seq
  payload : (s'.slot i).seq = (s.slot i).seq →
    (s'.slot i).payload = (s.slot i).payload ∨ (s.slot i).seq % 2 = 1

theorem SameSlot.rfl' : SameSlot s s i := ⟨rfl, rfl⟩

theorem Occupied.congr {e : RegistryEntry P} (h : Occupied s i p e)
    (hsame : SameSlot s s' i) : Occupied s' i p e where
  state := by rw [hsame.1]; exact h.state
  occupant := by rw [hsame.2]; exact h.occupant
  payload := by rw [hsame.1]; exact h.payload
  pid := h.pid
  even := by rw [hsame.1]; exact h.even

theorem Claimed.congr {e : RegistryEntry P} {n : Nat} {rest : List Field}
    (h : Claimed s i p e n rest) (hsame : SameSlot s s' i) :
    Claimed s' i p e n rest where
  state := by rw [hsame.1]; exact h.state
  occupant := by rw [hsame.2]; exact h.occupant
  pid := h.pid
  parity := by rw [hsame.1]; exact h.parity
  copied := by rw [hsame.1]; exact h.copied

theorem Observes.congr {n : Nat} {buf : Payload P} {rest : List Field}
    (h : Observes s i n buf rest) (hsame : SameSlot s s' i) :
    Observes s' i n buf rest where
  even := h.even
  le := by rw [hsame.1]; exact h.le
  copied := by rw [hsame.1]; exact h.copied

/-- A reader survives a writer: if the writer moves the counter, the read is
void, and if it does not, the payload is the one that was read. -/
theorem Observes.moved {n : Nat} {buf : Payload P} {rest : List Field}
    (h : Observes s i n buf rest) (hmoved : Moved s s' i) :
    Observes s' i n buf rest where
  even := h.even
  le := h.le.trans hmoved.le
  copied hseq := by
    have hle := h.le
    have hle' := hmoved.le
    rcases hmoved.payload (by omega) with hpay | hodd
    · rw [hpay]
      exact h.copied (by omega)
    · have := h.even
      omega

/-- What a process knows is not lost if every slot is either as before, or a
slot that the process neither works on nor owns. -/
theorem LocalOk.frame (h : LocalOk s p l)
    (hslots : ∀ i, SameSlot s s' i ∨
      (l.pc.busy ≠ some i ∧ i ∉ l.owned ∧ Moved s s' i))
    (halive : ∀ o, s.alive o = false → s'.alive o = false) :
    LocalOk s' p l := by
  have howned : ∀ i, i ∈ l.owned → SameSlot s s' i := fun i hi => by
    rcases hslots i with hsame | ⟨-, hnot, -⟩
    · exact hsame
    · exact absurd hi hnot
  have hbusy : ∀ i, l.pc.busy = some i → SameSlot s s' i := fun i hi => by
    rcases hslots i with hsame | ⟨hnot, -, -⟩
    · exact hsame
    · exact absurd hi hnot
  refine ⟨h.pending, ?_, ?_, ?_, ?_, ?_, ?_, ?_, h.nodup⟩
  · intro i e hpc
    exact (h.claim i e hpc).congr (hbusy i (Pc.busy_of_claims hpc))
  · intro i hpc
    rw [(hbusy i (Pc.busy_of_tears hpc)).1]
    exact h.tear i hpc
  · intro i n buf rest hpc
    rcases hslots i with hsame | ⟨-, -, hmoved⟩
    · exact (h.observe i n buf rest hpc).congr hsame
    · exact (h.observe i n buf rest hpc).moved hmoved
  · intro snap hpc
    obtain ⟨o, hpid, hdead⟩ := h.vetted snap hpc
    exact ⟨o, hpid, halive o hdead⟩
  · intro i e hpc
    exact (h.settled i e hpc).congr (howned i (by simp [Local.owned, hpc]))
  · intro i hpc
    obtain ⟨e, he⟩ := h.removing i hpc
    exact ⟨e, he.congr (howned i (by simp [Local.owned, hpc]))⟩
  · intro i e hheld
    refine (h.held i e hheld).congr (howned i ?_)
    simp only [Local.owned, List.mem_append]
    exact .inr (List.mem_map_of_mem hheld)

theorem LocalOk.occupied_of_owned (h : LocalOk s p l) (hi : i ∈ l.owned) :
    ∃ e, Occupied s i p e := by
  simp only [Local.owned, List.mem_append, List.mem_map, Option.mem_toList,
    Option.map_eq_some_iff] at hi
  rcases hi with (⟨⟨j, e⟩, hpc, rfl⟩ | hpc) | ⟨⟨j, e⟩, hheld, rfl⟩
  · exact ⟨e, h.settled j e hpc⟩
  · exact h.removing i hpc
  · exact ⟨e, h.held j e hheld⟩

theorem LocalOk.held_nodup (h : LocalOk s p l) :
    (l.held.map Prod.fst).Nodup :=
  h.nodup.sublist (List.sublist_append_right _ _)

theorem LocalOk.settled_fresh {e : RegistryEntry P}
    (h : LocalOk s p l) (hpc : l.pc.settled = some (i, e)) :
    i ∉ l.held.map Prod.fst := by
  have hnodup := h.nodup
  rw [Local.owned, hpc] at hnodup
  have hcons : (i :: (l.pc.removing.toList ++ l.held.map Prod.fst)).Nodup :=
    hnodup
  exact fun hi => (List.nodup_cons.mp hcons).1 (List.mem_append_right _ hi)

theorem LocalOk.removing_fresh (h : LocalOk s p l)
    (hpc : l.pc.removing = some i) : i ∉ l.held.map Prod.fst := by
  have hnodup := h.nodup
  rw [Local.owned, hpc, List.append_assoc] at hnodup
  have hcons : (i :: l.held.map Prod.fst).Nodup := hnodup.of_append_right
  exact (List.nodup_cons.mp hcons).1

/-- A slot that a process works on is not published. -/
theorem LocalOk.state_of_busy (h : LocalOk s p l) (hi : l.pc.busy = some i) :
    ∀ t, (s.slot i).state ≠ .entry t := by
  intro t ht
  cases hclaims : l.pc.claims with
  | some c =>
    have hc := (h.claim c.1 c.2 hclaims).state
    rw [Pc.busy_of_claims (i := c.1) (e := c.2) hclaims] at hi
    cases hi
    simp [hc] at ht
  | none =>
    have htears : l.pc.tears = some i := by simpa [Pc.busy, hclaims] using hi
    simp [(h.tear i htears).1] at ht

/-- The slots that a process holds are as before if they are not the slot
that changes. -/
theorem LocalOk.held_frame (h : LocalOk s p l) (hi : i ∉ l.held.map Prod.fst)
    (hoff : ∀ j, j ≠ i → SameSlot s s' j) :
    ∀ j e, (j, e) ∈ l.held → Occupied s' j p e := by
  intro j e hheld
  refine (h.held j e hheld).congr (hoff j ?_)
  rintro rfl
  exact hi (List.mem_map_of_mem hheld)

end Frames

/-! ## What a process must know, by the kind of its program counter -/

section Kinds

variable {s : State P} {p : P} {l : Local P}

theorem LocalOk.of_plain (hplain : l.pc.plain = true)
    (hpending : ∀ e, l.pc.pending = some e → e.payload .pid = some p)
    (hheld : ∀ i e, (i, e) ∈ l.held → Occupied s i p e)
    (hnodup : (l.held.map Prod.fst).Nodup) : LocalOk s p l where
  pending := hpending
  claim i e h := by simp [Pc.claims_of_plain hplain] at h
  tear i h := by simp [Pc.tears_of_plain hplain] at h
  observe i n buf rest h := by simp [Pc.observes_of_plain hplain] at h
  vetted snap h := by simp [Pc.vetted_of_plain hplain] at h
  settled i e h := by simp [Pc.settled_of_plain hplain] at h
  removing i h := by simp [Pc.removing_of_plain hplain] at h
  held := hheld
  nodup := by simpa [Local.owned, Pc.settled_of_plain hplain, Pc.removing_of_plain hplain] using hnodup

theorem LocalOk.of_claims {i : Nat} {e : RegistryEntry P}
    (hpc : l.pc.claims = some (i, e))
    (hclaim : Claimed s i p e l.pc.parity l.pc.claimRest)
    (hheld : ∀ i e, (i, e) ∈ l.held → Occupied s i p e)
    (hnodup : (l.held.map Prod.fst).Nodup) : LocalOk s p l := by
  rcases l with ⟨pc, held, ret⟩
  cases pc <;> cases hpc <;>
    exact ⟨nofun, by rintro _ _ ⟨⟩; exact hclaim, nofun, nofun, nofun, nofun,
      nofun, hheld, hnodup⟩

theorem LocalOk.of_tears {i : Nat} (hpc : l.pc.tears = some i)
    (htear : (s.slot i).state = .empty ∧ (s.slot i).seq % 2 = l.pc.parity)
    (hpending : ∀ e, l.pc.pending = some e → e.payload .pid = some p)
    (hheld : ∀ i e, (i, e) ∈ l.held → Occupied s i p e)
    (hnodup : (l.held.map Prod.fst).Nodup) : LocalOk s p l := by
  rcases l with ⟨pc, held, ret⟩
  cases pc <;> cases hpc <;>
    exact ⟨hpending, nofun, by rintro _ ⟨⟩; exact htear, nofun, nofun, nofun,
      nofun, hheld, hnodup⟩

theorem LocalOk.of_settled {i : Nat} {e : RegistryEntry P}
    (hpc : l.pc.settled = some (i, e)) (hocc : Occupied s i p e)
    (hfresh : i ∉ l.held.map Prod.fst)
    (hheld : ∀ i e, (i, e) ∈ l.held → Occupied s i p e)
    (hnodup : (l.held.map Prod.fst).Nodup) : LocalOk s p l := by
  rcases l with ⟨pc, held, ret⟩
  cases pc <;> cases hpc <;>
    exact ⟨nofun, nofun, nofun, nofun, nofun, by rintro _ _ ⟨⟩; exact hocc,
      nofun, hheld, List.nodup_cons.mpr ⟨hfresh, hnodup⟩⟩

theorem LocalOk.of_removing {i : Nat} {e : RegistryEntry P}
    (hpc : l.pc.removing = some i) (hocc : Occupied s i p e)
    (hfresh : i ∉ l.held.map Prod.fst)
    (hheld : ∀ i e, (i, e) ∈ l.held → Occupied s i p e)
    (hnodup : (l.held.map Prod.fst).Nodup) : LocalOk s p l := by
  rcases l with ⟨pc, held, ret⟩
  cases pc <;> cases hpc <;>
    exact ⟨nofun, nofun, nofun, nofun, nofun, nofun,
      by rintro _ ⟨⟩; exact ⟨e, hocc⟩, hheld,
      List.nodup_cons.mpr ⟨hfresh, hnodup⟩⟩

theorem LocalOk.of_observes {i n : Nat} {buf : Payload P} {rest : List Field}
    (hpc : l.pc.observes = some (i, n, buf, rest))
    (hobs : Observes s i n buf rest)
    (hpending : ∀ e, l.pc.pending = some e → e.payload .pid = some p)
    (hvetted : ∀ snap, l.pc.vetted = some snap →
      ∃ o, snap.payload .pid = some o ∧ s.alive o = false)
    (hheld : ∀ i e, (i, e) ∈ l.held → Occupied s i p e)
    (hnodup : (l.held.map Prod.fst).Nodup) : LocalOk s p l := by
  rcases l with ⟨pc, held, ret⟩
  cases pc <;> cases hpc <;>
    exact ⟨hpending, nofun, nofun, by rintro _ _ _ _ ⟨⟩; exact hobs, hvetted,
      nofun, nofun, hheld, hnodup⟩

end Kinds

end RmwUnixSocket.Registry
