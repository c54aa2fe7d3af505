import RmwUnixSocket.Registry.Program

/-!
# What one operation can do

`Move` lists the moves of one process, one constructor for each kind of
access to a slot.  `exec_move` shows that `exec` does nothing else, so a
proof about every operation is a case analysis over `Move` and never looks
into the loops of the source.

The first sections say what a program counter means for the slots: which
slot the process fills, wipes, reads or owns.
-/

namespace RmwUnixSocket.Registry

variable {P : Type}

/-! ## What a program counter says about the slots -/

namespace Pc

/-- The slot that the process fills, between the claim and the publication. -/
def claims : Pc P → Option (Nat × RegistryEntry P)
  | writeBegin e i => some (i, e)
  | writing e i _ => some (i, e)
  | publish e i => some (i, e)
  | _ => none

/-- The members that the process has not copied into its claimed slot. -/
def claimRest : Pc P → List Field
  | writing _ _ rest => rest
  | publish _ _ => []
  | _ => fieldOrder

/-- The slot that the process wipes, from the compare-and-swap to the end of
the seqlock section of `teardown_slot`. -/
def tears : Pc P → Option Nat
  | tearBegin _ i => some i
  | tearPath _ i => some i
  | tearing _ i _ _ => some i
  | _ => none

/-- The slot that the process is at work on. -/
def busy (pc : Pc P) : Option Nat :=
  match pc.claims with
  | some (i, _) => some i
  | none => pc.tears

/-- The parity of the counter of the slot that the process is at work on. -/
def parity : Pc P → Nat
  | writing _ _ _ => 1
  | tearPath _ _ => 1
  | tearing _ _ _ _ => 1
  | _ => 0

/-- The slot that `registry_add` has published and is about to return. -/
def settled : Pc P → Option (Nat × RegistryEntry P)
  | hwLoad e i => some (i, e)
  | hwCas e i _ => some (i, e)
  | addBump e i => some (i, e)
  | addRing e i => some (i, e)
  | _ => none

/-- The slot that `registry_remove` has not taken yet. -/
def removing : Pc P → Option Nat
  | removeLoad i => some i
  | removeCas i _ => some i
  | _ => none

/-- A seqlock read in progress: the slot, the counter at its start, the
buffer, and the members still to copy. -/
def observes : Pc P → Option (Nat × Nat × Payload P × List Field)
  | snapState _ i _ s1 => some (i, s1, Field.zero P, fieldOrder)
  | snapCopy _ i _ snap rest => some (i, snap.seq, snap.payload, rest)
  | sweepPid _ i snap => some (i, snap.seq, snap.payload, [])
  | sweepSeq _ i snap => some (i, snap.seq, snap.payload, [])
  | sweepCas _ i snap => some (i, snap.seq, snap.payload, [])
  | _ => none

/-- The path that the process is about to unlink. -/
def unlinks : Pc P → Option (List UInt8)
  | tearUnlink _ _ path => some path
  | _ => none

/-- The snapshot of a sweep that has found its pid dead. -/
def vetted : Pc P → Option (Snapshot P)
  | sweepSeq _ _ snap => some snap
  | sweepCas _ _ snap => some snap
  | _ => none

/-- The local variables of a `registry_query` in progress. -/
def query : Pc P → Option Query
  | snapSeq (.query q) _ _ => some q
  | snapState (.query q) _ _ _ => some q
  | snapCopy (.query q) _ _ _ _ => some q
  | queryState q _ => some q
  | _ => none

end Pc

/-- The entry that a sweep returns to. -/
def SweepReturn.entry : SweepReturn P → Option (RegistryEntry P)
  | .caller => none
  | .retryAdd e => some e

/-- The entry that a caller of `snapshot_slot` returns to. -/
def SnapCaller.entry : SnapCaller P → Option (RegistryEntry P)
  | .sweep w => w.ret.entry
  | .query _ => none

/-- The results of a query that called `snapshot_slot`. -/
def SnapCaller.results : SnapCaller P → List RegistryQueryResult
  | .sweep _ => []
  | .query q => q.results

/-- The entry that a caller of `teardown_slot` returns to. -/
def TearCaller.entry : TearCaller P → Option (RegistryEntry P)
  | .remove _ => none
  | .sweep w _ => w.ret.entry

/-- The entry of a `registry_add` that has not claimed a slot. -/
def Pc.pending : Pc P → Option (RegistryEntry P)
  | addCas e _ _ => some e
  | tearBegin c _ => c.entry
  | tearPath c _ => c.entry
  | tearing c _ _ _ => c.entry
  | tearUnlink c _ _ => c.entry
  | snapSeq c _ _ => c.entry
  | snapState c _ _ _ => c.entry
  | snapCopy c _ _ _ _ => c.entry
  | sweepHw ret => ret.entry
  | sweepState w _ => w.ret.entry
  | sweepPid w _ _ => w.ret.entry
  | sweepSeq w _ _ => w.ret.entry
  | sweepCas w _ _ => w.ret.entry
  | sweepBump w _ _ => w.ret.entry
  | sweepRing ret => ret.entry
  | _ => none

/-- A program counter between two slots: the process relies on no slot but
the ones it holds. -/
def Pc.plain : Pc P → Bool
  | idle => true
  | addCas _ _ _ => true
  | removeBump _ => true
  | removeRing => true
  | tearUnlink _ _ _ => true
  | snapSeq _ _ _ => true
  | sweepHw _ => true
  | sweepState _ _ => true
  | sweepBump _ _ _ => true
  | sweepRing _ => true
  | queryHw _ => true
  | queryState _ _ => true
  | _ => false

/-- The results that a query has collected, or the answer of the last call
if it was a query. -/
def Local.results (l : Local P) : List RegistryQueryResult :=
  match l.pc, l.ret with
  | .idle, some (.results rs) => rs
  | pc, _ => (pc.query.map Query.results).getD []

namespace Pc

variable {pc : Pc P}

theorem claims_of_plain (h : pc.plain = true) : pc.claims = none := by
  cases pc <;> first | rfl | cases h

theorem tears_of_plain (h : pc.plain = true) : pc.tears = none := by
  cases pc <;> first | rfl | cases h

theorem settled_of_plain (h : pc.plain = true) : pc.settled = none := by
  cases pc <;> first | rfl | cases h

theorem removing_of_plain (h : pc.plain = true) : pc.removing = none := by
  cases pc <;> first | rfl | cases h

theorem observes_of_plain (h : pc.plain = true) : pc.observes = none := by
  cases pc <;> first | rfl | cases h

theorem vetted_of_plain (h : pc.plain = true) : pc.vetted = none := by
  cases pc <;> first | rfl | cases h

theorem busy_of_plain (h : pc.plain = true) : pc.busy = none := by
  cases pc <;> first | rfl | cases h

theorem busy_of_claims {i : Nat} {e : RegistryEntry P}
    (h : pc.claims = some (i, e)) : pc.busy = some i := by
  simp [busy, h]

theorem busy_of_tears {i : Nat} (h : pc.tears = some i) :
    pc.busy = some i := by
  cases pc <;> first | exact h | cases h

theorem tears_of_busy (h : pc.busy = none) : pc.tears = none := by
  cases pc <;> first | rfl | cases h

end Pc

/-- Only `try_add_once` claims. -/
theorem claimOf_eq_none {m : Region P} {l : Local P}
    (h : ∀ e i again, l.pc ≠ .addCas e i again) : claimOf m l = none := by
  unfold claimOf
  split
  · rename_i e i again hpc
    exact absurd hpc (h e i again)
  · rfl

/-! ## The loops -/

/-- The process has gone on to a plain program counter.  It holds what it
held, waits to add the entry that it waited to add, and has no results but
the ones it had and `more`. -/
structure Local.Rests (l : Local P) (max : Nat)
    (more : List RegistryQueryResult) (l' : Local P) : Prop where
  plain : l'.pc.plain = true
  held : l'.held = l.held
  pending : ∀ e, l'.pc.pending = some e → l.pc.pending = some e
  results : ∀ r ∈ l'.results, r ∈ l.results ∨ r ∈ more
  bound : ∀ e i again, l'.pc = .addCas e i again → i < max
  unlinks : l'.pc.unlinks = none

namespace Local

variable {l : Local P} {max : Nat} {more : List RegistryQueryResult}

theorem rests_goto {pc : Pc P} (hplain : pc.plain = true)
    (hpending : ∀ e, pc.pending = some e → l.pc.pending = some e)
    (hresults : ∀ r ∈ (l.goto pc).results, r ∈ l.results ∨ r ∈ more)
    (hbound : ∀ e i again, pc = .addCas e i again → i < max)
    (hunlinks : pc.unlinks = none := by rfl) :
    l.Rests max more (l.goto pc) :=
  ⟨hplain, rfl, hpending, hresults, hbound, hunlinks⟩

theorem rests_answer {r : Ret}
    (hresults : ∀ x ∈ (l.answer r).results, x ∈ l.results ∨ x ∈ more) :
    l.Rests max more (l.answer r) :=
  ⟨rfl, rfl, by simp [answer, Pc.pending], hresults, by simp [answer], rfl⟩

theorem rests_void : l.Rests max more (l.answer .void) :=
  rests_answer (by simp [answer, results, Pc.query])

theorem rests_addLoop {e : RegistryEntry P} {i : Nat} {again : Bool}
    (he : l.pc.pending = some e) : l.Rests max more (l.addLoop max e i again) := by
  unfold addLoop
  split
  · rename_i hi
    refine rests_goto rfl (fun _ h => ?_) (by simp [goto, results, Pc.query]) ?_
    · rw [he, ← h]
      rfl
    · rintro _ _ _ ⟨⟩
      exact hi
  · split
    · exact rests_answer (by simp [answer, results, Pc.query])
    · refine rests_goto rfl (fun _ h => ?_) (by simp [goto, results, Pc.query])
        nofun
      rw [he, ← h]
      rfl

theorem rests_sweepDone {ret : SweepReturn P} (hret : l.pc.pending = ret.entry) :
    l.Rests max more (l.sweepDone max ret) := by
  cases ret with
  | caller => exact rests_void
  | retryAdd e => exact rests_addLoop hret

theorem rests_sweepLoop {w : Sweep P} {i : Nat}
    (hret : l.pc.pending = w.ret.entry) :
    l.Rests max more (l.sweepLoop max w i) := by
  unfold sweepLoop
  split
  · exact rests_goto rfl (fun _ h => hret.trans h)
      (by simp [goto, results, Pc.query]) nofun
  · split
    · exact rests_goto rfl (fun _ h => hret.trans h)
        (by simp [goto, results, Pc.query]) nofun
    · exact rests_sweepDone hret

theorem rests_queryLoop {q : Query} {i : Nat}
    (hq : ∀ r ∈ q.results, r ∈ l.results ∨ r ∈ more) :
    l.Rests max more (l.queryLoop q i) := by
  unfold queryLoop
  split
  · exact rests_goto rfl nofun (by simpa [goto, results, Pc.query] using hq) nofun
  · exact rests_answer (by simpa [answer, results] using hq)

theorem rests_snapFail {c : SnapCaller P} {i : Nat}
    (hentry : l.pc.pending = c.entry) (hres : l.results = c.results) :
    l.Rests max more (l.snapFail max i c) := by
  cases c with
  | sweep w => exact rests_sweepLoop hentry
  | query q => exact rests_queryLoop fun r hr => .inl (hres ▸ hr)

theorem results_snapSeq (c : SnapCaller P) (i retry : Nat) :
    (l.goto (.snapSeq c i retry)).results = c.results := by
  cases c <;> simp [goto, results, Pc.query, SnapCaller.results]

theorem rests_snapSeq {c : SnapCaller P} {i retry : Nat}
    (hentry : l.pc.pending = c.entry)
    (hres : ∀ r ∈ c.results, r ∈ l.results) :
    l.Rests max more (l.goto (.snapSeq c i retry)) := by
  refine rests_goto rfl (fun _ h => hentry.trans h) (fun r hr => ?_) nofun
  rw [results_snapSeq] at hr
  exact .inl (hres r hr)

theorem rests_snapRetry {c : SnapCaller P} {i retry : Nat}
    (hentry : l.pc.pending = c.entry) (hres : l.results = c.results) :
    l.Rests max more (l.snapRetry max c i retry) := by
  unfold snapRetry
  split
  · exact rests_snapSeq hentry fun r hr => hres ▸ hr
  · exact rests_snapFail hentry hres

theorem rests_tearDone {c : TearCaller P} {i : Nat}
    (hentry : l.pc.pending = c.entry) :
    l.Rests max more (l.tearDone i c) := by
  cases c with
  | remove st =>
    exact rests_goto rfl nofun (by simp [goto, results, Pc.query]) nofun
  | sweep w t =>
    exact rests_goto rfl (fun _ h => hentry.trans h)
      (by simp [goto, results, Pc.query]) nofun

end Local

/-! ## Calls -/

/-- A call that has entered the first loop of its operation. -/
structure Local.Starts (l : Local P) (max : Nat) (p : P) (c : Call P)
    (l' : Local P) : Prop where
  plain : l'.pc.plain = true
  held : l'.held = l.held
  pending : ∀ e, l'.pc.pending = some e → c = .add e ∧ e.payload .pid = some p
  results : l'.results = []
  bound : ∀ e i again, l'.pc = .addCas e i again → i < max
  unlinks : l'.pc.unlinks = none

/-- A call enters a loop, or it is a `registry_remove` of an index that the
process holds. -/
theorem enter_cases [DecidableEq P] {m : Region P} {p : P} {l l' : Local P}
    {c : Call P} (h : enter m p l c = some l') :
    l.Starts m.maxEntries p c l' ∨
      ∃ i e, c = .remove i ∧ (i, e) ∈ l.held ∧
        l' = { l with
          pc := .removeLoad i, held := l.held.eraseP fun h => h.1 = i } := by
  cases c with
  | add e =>
    simp only [enter, Option.ite_none_right_eq_some, Option.some.injEq] at h
    obtain ⟨hpid, rfl⟩ := h
    have hrests : (l.goto (.addCas e 0 false)).Rests m.maxEntries []
        ((l.goto (.addCas e 0 false)).addLoop m.maxEntries e 0 false) :=
      Local.rests_addLoop rfl
    refine .inl ⟨hrests.plain, hrests.held, fun e' he' => ?_, ?_, hrests.bound,
      hrests.unlinks⟩
    · cases hrests.pending e' he'
      exact ⟨rfl, hpid⟩
    · unfold Local.addLoop
      split <;> rfl
  | remove i =>
    simp only [enter, Option.ite_none_right_eq_some, Option.some.injEq] at h
    obtain ⟨hheld, rfl⟩ := h
    obtain ⟨⟨j, e⟩, hmem, rfl⟩ := List.mem_map.mp hheld
    exact .inr ⟨j, e, rfl, hmem, rfl⟩
  | cleanup =>
    cases h
    exact .inl ⟨rfl, rfl, nofun, rfl, nofun, rfl⟩
  | query flt =>
    cases h
    exact .inl ⟨rfl, rfl, nofun, rfl, nofun, rfl⟩

/-! ## The moves -/

/-- An effect that leaves the slots and the high-water mark alone. -/
def Effect.quiet : Effect P → Bool
  | .none => true
  | .incGeneration => true
  | .unlink _ => true
  | _ => false

theorem Effect.target_of_quiet {eff : Effect P} (h : eff.quiet = true) :
    eff.target = Option.none := by
  cases eff <;> first | rfl | cases h

/-- The moves of one process. -/
inductive Move (alive : P → Bool) (m : Region P) (l : Local P) :
    Effect P → Local P → Prop
  | rest {eff : Effect P} {l' : Local P} (quiet : eff.quiet = true)
      (noclaim : claimOf m l = none) (busy : l.pc.busy = none)
      (settled : l.pc.settled = none)
      (rests : l.Rests m.maxEntries [] l') : Move alive m l eff l'
  | collect (q : Query) (i retry : Nat) (snap : Snapshot P) (l' : Local P)
      (at_pc : l.pc = .snapCopy (.query q) i retry snap [])
      (same : (m.slots i).seqWord = snap.seq % 2 ^ 32)
      (rests : l.Rests m.maxEntries [resultOf snap.type snap.payload] l') :
      Move alive m l .none l'
  | claim (e : RegistryEntry P) (i : Nat) (again : Bool)
      (at_pc : l.pc = .addCas e i again) (empty : (m.slots i).state = .empty) :
      Move alive m l (.setState i .reserved) (l.goto (.writeBegin e i))
  | writeBegin (e : RegistryEntry P) (i : Nat) (at_pc : l.pc = .writeBegin e i) :
      Move alive m l (.incSeq i) (l.goto (.writing e i fieldOrder))
  | writeField (e : RegistryEntry P) (i : Nat) (f : Field) (rest : List Field)
      (at_pc : l.pc = .writing e i (f :: rest)) :
      Move alive m l (.setField i f (e.payload f)) (l.goto (.writing e i rest))
  | writeEnd (e : RegistryEntry P) (i : Nat) (at_pc : l.pc = .writing e i []) :
      Move alive m l (.incSeq i) (l.goto (.publish e i))
  | publish (e : RegistryEntry P) (i : Nat) (at_pc : l.pc = .publish e i) :
      Move alive m l (.setState i (.entry e.type)) (l.goto (.hwLoad e i))
  | widen (e : RegistryEntry P) (i cur : Nat) (at_pc : l.pc = .hwCas e i cur)
      (cur_eq : m.highWaterSlot = cur) :
      Move alive m l (.setHighWater (i + 1)) (l.goto (.addBump e i))
  | retryWiden (e : RegistryEntry P) (i : Nat)
      (at_pc : l.pc.settled = some (i, e)) (below : m.highWaterSlot < i + 1) :
      Move alive m l .none (l.goto (.hwCas e i m.highWaterSlot))
  | wide (e : RegistryEntry P) (i : Nat) (at_pc : l.pc.settled = some (i, e))
      (above : ¬m.highWaterSlot < i + 1) :
      Move alive m l .none (l.goto (.addBump e i))
  | bump (e : RegistryEntry P) (i : Nat) (at_pc : l.pc = .addBump e i) :
      Move alive m l .incGeneration (l.goto (.addRing e i))
  | returnIndex (e : RegistryEntry P) (i : Nat) (at_pc : l.pc = .addRing e i) :
      Move alive m l .none (l.returnIndex e i)
  | removeLoad (i : Nat) (at_pc : l.pc = .removeLoad i)
      (filled : (m.slots i).state ≠ .empty) :
      Move alive m l .none (l.goto (.removeCas i (m.slots i).state))
  | removeTake (i : Nat) (st : SlotState) (at_pc : l.pc = .removeCas i st)
      (same : (m.slots i).state = st) :
      Move alive m l (.setState i .empty) (l.goto (.tearBegin (.remove st) i))
  | tearBegin (c : TearCaller P) (i : Nat) (at_pc : l.pc = .tearBegin c i) :
      Move alive m l (.incSeq i) (l.goto (.tearPath c i))
  | tearPath (c : TearCaller P) (i : Nat) (at_pc : l.pc = .tearPath c i) :
      Move alive m l .none
        (l.goto (.tearing c i (cstr ((m.slots i).payload .socketPath)) fieldOrder))
  | tearField (c : TearCaller P) (i : Nat) (path : List UInt8) (f : Field)
      (rest : List Field) (at_pc : l.pc = .tearing c i path (f :: rest)) :
      Move alive m l (.setField i f (Field.zero P f))
        (l.goto (.tearing c i path rest))
  | tearEnd (c : TearCaller P) (i : Nat) (path : List UInt8)
      (at_pc : l.pc = .tearing c i path []) :
      Move alive m l (.incSeq i) (l.goto (.tearUnlink c i path))
  | snapSeq (c : SnapCaller P) (i retry : Nat) (at_pc : l.pc = .snapSeq c i retry)
      (even : (m.slots i).seqWord % 2 = 0) :
      Move alive m l .none (l.goto (.snapState c i retry (m.slots i).seq))
  | snapState (c : SnapCaller P) (i retry s1 : Nat) (type : RegistryEntryType)
      (at_pc : l.pc = .snapState c i retry s1)
      (state : (m.slots i).state = .entry type) :
      Move alive m l .none
        (l.goto (.snapCopy c i retry ⟨s1, type, Field.zero P⟩ fieldOrder))
  | snapCopy (c : SnapCaller P) (i retry : Nat) (snap : Snapshot P) (f : Field)
      (rest : List Field) (at_pc : l.pc = .snapCopy c i retry snap (f :: rest)) :
      Move alive m l .none
        (l.goto (.snapCopy c i retry
          { snap with
            payload := Words.store snap.payload f ((m.slots i).payload f) } rest))
  | snapDone (w : Sweep P) (i retry : Nat) (snap : Snapshot P)
      (at_pc : l.pc = .snapCopy (.sweep w) i retry snap [])
      (same : (m.slots i).seqWord = snap.seq % 2 ^ 32) :
      Move alive m l .none (l.goto (.sweepPid w i snap))
  | vet (w : Sweep P) (i : Nat) (snap : Snapshot P) (p : P)
      (at_pc : l.pc = .sweepPid w i snap) (pid : snap.payload .pid = some p)
      (dead : alive p = false) : Move alive m l .none (l.goto (.sweepSeq w i snap))
  | recheck (w : Sweep P) (i : Nat) (snap : Snapshot P)
      (at_pc : l.pc = .sweepSeq w i snap)
      (same : (m.slots i).seqWord = snap.seq % 2 ^ 32) :
      Move alive m l .none (l.goto (.sweepCas w i snap))
  | sweepTake (w : Sweep P) (i : Nat) (snap : Snapshot P)
      (at_pc : l.pc = .sweepCas w i snap)
      (same : (m.slots i).state = .entry snap.type) :
      Move alive m l (.setState i .empty)
        (l.goto (.tearBegin (.sweep w snap.type) i))

/-- Every operation is one of the moves. -/
theorem exec_move {alive : P → Bool} {spurious : Bool} {m : Region P}
    {l l' : Local P} {eff : Effect P}
    (h : exec alive spurious m l = some (eff, l')) : Move alive m l eff l' := by
  rcases l with ⟨pc, held, ret⟩
  cases pc with simp only [exec] at h
  | idle => cases h
  | addCas e i again =>
    split at h <;> cases h
    · rename_i hempty
      exact .claim e i again rfl hempty
    · rename_i hfull
      exact .rest rfl (if_neg hfull) rfl rfl (Local.rests_addLoop rfl)
  | writeBegin e i =>
    cases h
    exact .writeBegin e i rfl
  | writing e i rest =>
    cases rest with
    | nil =>
      cases h
      exact .writeEnd e i rfl
    | cons f rest =>
      cases h
      exact .writeField e i f rest rfl
  | publish e i =>
    cases h
    exact .publish e i rfl
  | hwLoad e i =>
    split at h <;> cases h
    · rename_i hlt
      exact .retryWiden e i rfl hlt
    · rename_i hge
      exact .wide e i rfl hge
  | hwCas e i cur =>
    split at h
    · rename_i hcur
      cases h
      exact .widen e i cur rfl hcur.1
    · split at h <;> cases h
      · rename_i hlt
        exact .retryWiden e i rfl hlt
      · rename_i hge
        exact .wide e i rfl hge
  | addBump e i =>
    cases h
    exact .bump e i rfl
  | addRing e i =>
    cases h
    exact .returnIndex e i rfl
  | removeLoad i =>
    split at h
    · cases h
      exact .rest rfl rfl rfl rfl Local.rests_void
    · split at h <;> cases h
      · exact .rest rfl rfl rfl rfl Local.rests_void
      · rename_i hne
        exact .removeLoad i rfl hne
  | removeCas i st =>
    split at h <;> cases h
    · rename_i hsame
      exact .removeTake i st rfl hsame
    · exact .rest rfl rfl rfl rfl Local.rests_void
  | removeBump st =>
    cases h
    refine .rest rfl rfl rfl rfl ?_
    split
    · exact Local.rests_void
    · exact Local.rests_goto rfl (by simp [Pc.pending])
        (by simp [Local.goto, Local.results, Pc.query]) (by simp)
  | removeRing =>
    cases h
    exact .rest rfl rfl rfl rfl Local.rests_void
  | tearBegin c i =>
    cases h
    exact .tearBegin c i rfl
  | tearPath c i =>
    cases h
    exact .tearPath c i rfl
  | tearing c i path rest =>
    cases rest with
    | nil =>
      cases h
      exact .tearEnd c i path rfl
    | cons f rest =>
      cases h
      exact .tearField c i path f rest rfl
  | tearUnlink c i path =>
    cases h
    refine .rest ?_ rfl rfl rfl (Local.rests_tearDone rfl)
    split <;> rfl
  | snapSeq c i retry =>
    split at h <;> cases h
    · exact .rest rfl rfl rfl rfl (Local.rests_snapRetry rfl (by cases c <;> rfl))
    · rename_i hodd
      exact .snapSeq c i retry rfl (by omega)
  | snapState c i retry s1 =>
    split at h <;> cases h
    · rename_i type hstate
      exact .snapState c i retry s1 type rfl hstate
    · exact .rest rfl rfl rfl rfl (Local.rests_snapFail rfl (by cases c <;> rfl))
  | snapCopy c i retry snap rest =>
    cases rest with
    | cons f rest =>
      cases h
      exact .snapCopy c i retry snap f rest rfl
    | nil =>
      simp only at h
      split at h <;> cases h
      · rename_i hsame
        cases c with
        | sweep w => exact .snapDone w i retry snap rfl hsame
        | query q =>
          refine .collect q i retry snap _ rfl hsame ?_
          simp only [Local.snapDone]
          split
          · exact Local.rests_queryLoop fun r hr => List.mem_append.mp hr
          · exact Local.rests_queryLoop fun r hr => .inl hr
      · exact .rest rfl rfl rfl rfl (Local.rests_snapRetry rfl (by cases c <;> rfl))
  | sweepHw ret =>
    cases h
    exact .rest rfl rfl rfl rfl (Local.rests_sweepLoop rfl)
  | sweepState w i =>
    split at h <;> cases h
    · exact .rest rfl rfl rfl rfl (Local.rests_sweepLoop rfl)
    · exact .rest rfl rfl rfl rfl (Local.rests_snapSeq rfl fun _ hr => by cases hr)
  | sweepPid w i snap =>
    split at h
    · cases h
      exact .rest rfl rfl rfl rfl (Local.rests_sweepLoop rfl)
    · rename_i p hpid
      split at h <;> cases h
      · exact .rest rfl rfl rfl rfl (Local.rests_sweepLoop rfl)
      · rename_i hdead
        exact .vet w i snap p rfl hpid (by simpa using hdead)
  | sweepSeq w i snap =>
    split at h <;> cases h
    · rename_i hsame
      exact .recheck w i snap rfl hsame
    · exact .rest rfl rfl rfl rfl (Local.rests_sweepLoop rfl)
  | sweepCas w i snap =>
    split at h <;> cases h
    · rename_i hsame
      exact .sweepTake w i snap rfl hsame
    · exact .rest rfl rfl rfl rfl (Local.rests_sweepLoop rfl)
  | sweepBump w i type =>
    cases h
    exact .rest rfl rfl rfl rfl (Local.rests_sweepLoop rfl)
  | sweepRing ret =>
    cases h
    exact .rest rfl rfl rfl rfl (Local.rests_sweepDone rfl)
  | queryHw flt =>
    cases h
    exact .rest rfl rfl rfl rfl (Local.rests_queryLoop fun _ hr => by cases hr)
  | queryState q i =>
    split at h <;> cases h
    · exact .rest rfl rfl rfl rfl (Local.rests_snapSeq rfl fun r hr => hr)
    · exact .rest rfl rfl rfl rfl (Local.rests_queryLoop fun r hr => .inl hr)

end RmwUnixSocket.Registry
