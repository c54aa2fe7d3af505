import RmwUnixSocket.Graph.Refinement
import RmwUnixSocket.Graph.Introspect

/-!
# A query, one word at a time

`scanStep` looks at a slot in one step.  The code loads the seqlock counter, the state
byte and each member of the payload one after the other, and writers move between these
loads.  Here `registry_query` itself is shown to owe to the directory what the scan owes.

* `Steady` is a registration that a query must not miss: bumped in by the generation of
  its start and still there.
* `Copies` is what the snapshot in progress says about the slot.  If the counter has not
  moved, the slot has the payload of one registration, and the only steady one.
* `Tracks` joins them to the loop: the results are those of a scan that is as far.
* `registry_query_covers` is the result, for any run of the other processes between the
  call and the return.
-/

namespace RmwUnixSocket.Graph

open Registry (RegistryEntry RegistryQueryResult QueryFilter Query Snapshot Field Local Effect
  CrashOk NoWrap Occupied exec)
open Introspect (ScanOnce)

variable {P : Type}

/-! ## Steady registrations -/

/-- Registration `id` in slot `i` is known to the generation `g` and not on its way out. -/
structure Steady (d : Directory P) (g i id : Nat) (r : Registration P) : Prop where
  known : d.regs[id]? = some r
  slot : r.slot = i
  stays : r.leaving = false
  added : ∃ b, r.added = some b ∧ b ≤ g

section

variable {d d' : Directory P} {flt : QueryFilter} {g i id : Nat} {ids : List Nat}
  {r : Registration P}

/-- Mutations make no registration steady for an old generation. -/
theorem Steady.earlier (h : Steady d' g i id r) (hlater : d.Later d')
    (hg : g ≤ d.generation) : ∃ x, Steady d g i id x ∧ x.entry = r.entry := by
  obtain ⟨b, hb, hbg⟩ := h.added
  cases hx : d.regs[id]? with
  | none =>
    rw [(hlater.fresh id r h.known hx).1] at hb
    cases hb
  | some x =>
    obtain ⟨y, hy, hreg⟩ := hlater.kept id x hx
    obtain rfl := Option.some.inj (h.known.symm.trans hy)
    obtain hold | hnew := hreg.added b hb
    · exact ⟨x, ⟨hx, hreg.slot ▸ h.slot, hreg.leaving h.stays, b, hold, hbg⟩, hreg.entry.symm⟩
    · omega

/-- The next slot has nothing that the answer must include. -/
theorem Covers.pass (h : Covers d flt g i ids)
    (hskip : ∀ id r, Steady d g i id r → ¬flt.Matches r.entry) :
    Covers d flt g (i + 1) ids where
  known := h.known
  includes := by
    intro id r b hr hslot hmatch hadded hb hleaving
    rcases Nat.lt_succ_iff_lt_or_eq.mp hslot with hlt | heq
    · exact h.includes id r b hr hlt hmatch hadded hb hleaving
    · exact absurd hmatch (hskip id r ⟨hr, heq, hleaving, b, hadded, hb⟩)
  excludes := h.excludes

/-- The answer gets a registration of the next slot.  It may have left the slot. -/
theorem Covers.collect (h : Covers d flt g i ids) (hr : d.regs[id]? = some r)
    (hmatch : flt.Matches r.entry) (hremoved : ∀ b, r.removed = some b → g < b)
    (honly : ∀ id' r', Steady d g i id' r' → id' = id) :
    Covers d flt g (i + 1) (ids ++ [id]) where
  known := by
    intro j hj
    rcases List.mem_append.mp hj with hj | hj
    · exact h.known j hj
    · rw [List.mem_singleton.mp hj]
      exact ⟨r, hr, hmatch⟩
  includes := by
    intro j x b hx hslot hxmatch hadded hb hleaving
    apply List.mem_append.mpr
    rcases Nat.lt_succ_iff_lt_or_eq.mp hslot with hlt | heq
    · exact .inl (h.includes j x b hx hlt hxmatch hadded hb hleaving)
    · exact .inr (List.mem_singleton.mpr (honly j x ⟨hx, heq, hleaving, b, hadded, hb⟩))
  excludes := by
    intro j x b hx hxremoved hb hj
    rcases List.mem_append.mp hj with hj | hj
    · exact h.excludes j x b hx hxremoved hb hj
    · rw [List.mem_singleton.mp hj, hr] at hx
      cases hx
      have := hremoved b hxremoved
      omega

theorem Directory.answers_concat (hr : d.regs[id]? = some r) :
    d.answers (ids ++ [id]) = d.answers ids ++ [r.entry.result] := by
  unfold Directory.answers
  rw [List.filterMap_append, List.filterMap_cons, hr]
  rfl

/-- The earlier ones are in earlier slots. -/
theorem scanOnce_collect {max n : Nat} (h : ScanOnce d (.peek n i ids))
    (hr : d.regs[id]? = some r) (hslot : r.slot = i) :
    ScanOnce d (scanLoop max (i + 1) (ids ++ [id])) := by
  obtain ⟨hnodup, hslots⟩ := h
  have hfresh : id ∉ ids := by
    intro hid
    obtain ⟨x, hx, hlt⟩ := hslots id hid
    rw [hr] at hx
    cases hx
    omega
  refine .loop (List.nodup_append.mpr ⟨hnodup, List.nodup_singleton id, ?_⟩) fun j hj => ?_
  · intro a ha b hb hab
    rw [List.mem_singleton.mp hb] at hab
    exact hfresh (hab ▸ ha)
  · rcases List.mem_append.mp hj with hj | hj
    · obtain ⟨x, hx, hlt⟩ := hslots j hj
      exact ⟨x, hx, Nat.lt_succ_of_lt hlt⟩
    · rw [List.mem_singleton.mp hj]
      exact ⟨r, hr, by omega⟩

/-- A registration that stays is in its slot, whole. -/
theorem Simulates.occupied {s : Registry.State P} (h : Simulates s d)
    (hr : d.regs[id]? = some r) (hstay : r.leaving = false) :
    ∃ p, Occupied s r.slot p r.entry := by
  obtain ⟨adder, remover, hsim⟩ := h.sim
  have hslot := hsim.dir.held id r hr hstay
  have hshown : shown s r.slot = some r.entry := by
    rw [← hsim.shows, Directory.entryAt, Directory.occupant_of_regs hslot hr]
    rfl
  cases hstate : (s.slot r.slot).state with
  | entry t =>
    obtain ⟨p, e, hocc⟩ := (h.inv.slots r.slot).entry t hstate
    rw [shown_of_occupied hocc] at hshown
    cases hshown
    exact ⟨p, hocc⟩
  | _ =>
    rw [shown_of_not_entry fun t ht => by rw [hstate] at ht; cases ht] at hshown
    cases hshown

/-- The entry that a slot shows belongs to a registration. -/
theorem Simulates.registration {s : Registry.State P} (h : Simulates s d) {p : P}
    {e : RegistryEntry P} (hocc : Occupied s i p e) : ∃ id r, d.regs[id]? = some r ∧
      r.entry = e ∧ r.slot = i ∧ r.removed = none ∧
        ∀ g id' r', Steady d g i id' r' → id' = id := by
  obtain ⟨adder, remover, hsim⟩ := h.sim
  obtain ⟨id, r, hslot, hr, hentry, hat, hstay⟩ :=
    hsim.dir.entryAt_eq_some ((hsim.shows i).trans (shown_of_occupied hocc))
  refine ⟨id, r, hr, hentry, hat, ?_, fun g id' r' hsteady => ?_⟩
  · cases hremoved : r.removed with
    | none => rfl
    | some b =>
      have hleaving := (hsim.dir.removed id r b hr hremoved).1
      rw [hstay] at hleaving
      cases hleaving
  · have hheld := hsim.dir.held id' r' hsteady.known hsteady.stays
    rw [hsteady.slot, hslot] at hheld
    exact (Option.some.inj hheld).symm

end

/-! ## The snapshot in progress -/

/-- The snapshot has the type and, if the counter stays, the payload of one
registration.  A steady registration keeps the counter where it is. -/
structure Copies (s : Registry.State P) (d : Directory P) (g i : Nat) (snap : Snapshot P) :
    Prop where
  candidate : ∃ id r, d.regs[id]? = some r ∧ r.slot = i ∧ r.entry.type = snap.type ∧
    (∀ b, r.removed = some b → g < b) ∧
      ((s.slot i).seq = snap.seq → (s.slot i).payload = r.entry.payload) ∧
        ∀ id' r', Steady d g i id' r' → id' = id
  current : ∀ id r, Steady d g i id r → (s.slot i).seq = snap.seq

/-- What a query has done so far, for a caller with the generation `g`.  `ids` are the
registrations that it has collected. -/
structure Tracks (s : Registry.State P) (d : Directory P) (flt : QueryFilter) (g : Nat)
    (l : Local P) (ids : List Nat) : Prop where
  asks : ∀ flt', l.asks = some flt' → flt' = flt
  loop : ∀ Q i, l.pc.queryAt = some (Q, i) → Q.flt = flt ∧ Q.results = d.answers ids ∧
    ScanOk d flt g (.peek Q.max i ids) ∧ ScanOnce d (.peek Q.max i ids)
  state : ∀ Q i retry n, l.pc = .snapState (.query Q) i retry n →
    ∀ id r, Steady d g i id r → (s.slot i).seq = n
  copy : ∀ Q i retry snap rest, l.pc = .snapCopy (.query Q) i retry snap rest →
    Copies s d g i snap
  answered : ∀ rs, l.answered = some rs →
    rs = d.answers ids ∧ ScanOk d flt g (.done ids) ∧ ScanOnce d (.done ids)

section

variable {s t : Registry.State P} {d d' : Directory P} {flt : QueryFilter} {g i : Nat}
  {l l' : Local P} {Q : Query} {ids : List Nat}

theorem Copies.later {snap : Snapshot P} (h : Copies s d g i snap) (hlater : d.Later d')
    (hg : g ≤ d.generation) : Copies s d' g i snap where
  candidate := by
    obtain ⟨id, r, hr, hslot, htype, hremoved, hpayload, honly⟩ := h.candidate
    obtain ⟨r', hr', hreg⟩ := hlater.kept id r hr
    refine ⟨id, r', hr', hreg.slot.trans hslot, hreg.entry ▸ htype, fun b hb => ?_,
      fun hseq => hreg.entry ▸ hpayload hseq, fun id' x hx => ?_⟩
    · obtain hold | hnew := hreg.removed b hb
      · exact hremoved b hold
      · omega
    · obtain ⟨y, hy, -⟩ := hx.earlier hlater hg
      exact honly id' y hy
  current id r hr := by
    obtain ⟨x, hx, -⟩ := hr.earlier hlater hg
    exact h.current id x hx

theorem Tracks.later (h : Tracks s d flt g l ids) (hlater : d.Later d')
    (hg : g ≤ d.generation) : Tracks s d' flt g l ids where
  asks := h.asks
  loop Q i hpc := by
    obtain ⟨hflt, hres, hscan, honce⟩ := h.loop Q i hpc
    exact ⟨hflt, hres.trans (hscan.1.answers_later hlater).symm, hscan.later hlater hg,
      honce.later hlater⟩
  state Q i retry n hpc id r hr := by
    obtain ⟨x, hx, -⟩ := hr.earlier hlater hg
    exact h.state Q i retry n hpc id x hx
  copy Q i retry snap rest hpc := (h.copy Q i retry snap rest hpc).later hlater hg
  answered rs hrs := by
    obtain ⟨hres, hscan, honce⟩ := h.answered rs hrs
    exact ⟨hres.trans (Covers.answers_later hscan hlater).symm, hscan.later hlater hg,
      honce.later hlater⟩

/-- A query that is not inside a snapshot. -/
theorem Tracks.of_loop (hpc : l.pc.plain = true) (hasks : l.asks = none)
    (hanswered : l.answered = none)
    (hloop : ∀ Q i, l.pc.queryAt = some (Q, i) → Q.flt = flt ∧ Q.results = d.answers ids ∧
      ScanOk d flt g (.peek Q.max i ids) ∧ ScanOnce d (.peek Q.max i ids)) :
    Tracks s d flt g l ids where
  asks flt' h := by rw [hasks] at h; cases h
  loop := hloop
  state Q i retry n h := by rw [h] at hpc; cases hpc
  copy Q i retry snap rest h := by rw [h] at hpc; cases hpc
  answered rs h := by rw [hanswered] at h; cases h

/-- The head of the loop of the query. -/
theorem Tracks.queryLoop (hflt : Q.flt = flt) (hres : Q.results = d.answers ids)
    (hscan : ScanOk d flt g (scanLoop Q.max i ids))
    (honce : ScanOnce d (scanLoop Q.max i ids)) : Tracks s d flt g (l.queryLoop Q i) ids := by
  unfold Local.queryLoop
  unfold scanLoop at hscan honce
  split
  · next hlt =>
    rw [if_pos hlt] at hscan honce
    refine .of_loop rfl rfl rfl fun Q' j hpc => ?_
    cases hpc
    exact ⟨hflt, hres, hscan, honce⟩
  · next hge =>
    rw [if_neg hge] at hscan honce
    refine ⟨fun _ h => (by cases h), fun _ _ h => (by cases h), fun _ _ _ _ h => (by cases h),
      fun _ _ _ _ _ h => (by cases h), fun rs h => ?_⟩
    cases h
    exact ⟨hres, hscan, honce⟩

/-- The query goes to the next slot with what it has. -/
theorem Tracks.pass (h : Tracks s d flt g l ids) (hpc : l.pc.queryAt = some (Q, i))
    (hskip : ∀ id r, Steady d g i id r → ¬flt.Matches r.entry) :
    Tracks t d flt g (l'.queryLoop Q (i + 1)) ids := by
  obtain ⟨hflt, hres, hscan, honce⟩ := h.loop Q i hpc
  exact .queryLoop hflt hres (.loop (hscan.1.pass hskip) hscan.2) (.skip honce.1 honce.2)

/-- A turn of the retry loop ends without a snapshot. -/
theorem Tracks.snapRetry (h : Tracks s d flt g l ids) (hpc : l.pc.queryAt = some (Q, i))
    {max retry : Nat} (hnone : ∀ id r, ¬Steady d g i id r) :
    Tracks t d flt g (l'.snapRetry max (.query Q) i retry) ids := by
  unfold Local.snapRetry
  split
  · refine .of_loop rfl rfl rfl fun Q' j hpc' => ?_
    cases hpc'
    exact h.loop Q i hpc
  · exact h.pass hpc fun id r hr => absurd hr (hnone id r)

/-- An operation of the query. -/
theorem Tracks.exec {alive : P → Bool} {spurious : Bool} {eff : Effect P}
    (h : Tracks s d flt g l ids) (hsim : Simulates s d)
    (hobserve : ∀ i n buf rest, l.pc.observes = some (i, n, buf, rest) →
      Registry.Observes s i n buf rest)
    (hwrap : ∀ x ∈ l.pc.observes, (s.slot x.1).seq < x.2.1 + 2 ^ 32)
    (hquery : l.inQuery = true)
    (hexec : Registry.exec alive spurious s.region l = some (eff, l')) :
    ∃ ids', Tracks s d flt g l' ids' := by
  rcases l with ⟨pc, held, ret⟩
  cases pc with simp only [Registry.exec] at hexec
  | queryHw flt' =>
    cases hexec
    obtain ⟨adder, remover, hdir⟩ := hsim.sim
    have hreach : Reaches d g (min s.region.highWaterSlot s.region.maxEntries) := by
      rw [← hdir.highWater, ← hdir.capacity]
      exact hdir.dir.reaches g
    exact ⟨[], .queryLoop (h.asks flt' rfl) rfl (.loop (.start d flt g) hreach)
      (.loop List.nodup_nil fun _ hid => (by cases hid))⟩
  | queryState Q i =>
    obtain ⟨hflt, -⟩ := h.loop Q i rfl
    split at hexec
    · cases hexec
      refine ⟨ids, .of_loop rfl rfl rfl fun Q' j hpc => ?_⟩
      cases hpc
      exact h.loop Q i rfl
    · next hskip =>
      cases hexec
      refine ⟨ids, h.pass rfl fun id r hr hmatch => ?_⟩
      obtain ⟨p, hocc⟩ := hsim.occupied hr.known hr.stays
      rw [hr.slot] at hocc
      rw [hflt, show (s.region.slots i).state = _ from hocc.state] at hskip
      exact hskip (acceptsState_of_matches hmatch)
  | snapSeq c i retry =>
    cases c with
    | sweep w => cases hquery
    | query Q =>
      split at hexec
      · next hodd =>
        cases hexec
        refine ⟨ids, h.snapRetry rfl fun id r hr => ?_⟩
        obtain ⟨p, hocc⟩ := hsim.occupied hr.known hr.stays
        rw [hr.slot] at hocc
        have heven := hocc.even
        simp only [Registry.RegistryEntrySlot.seqWord] at hodd
        simp only [Registry.State.slot] at heven
        omega
      · cases hexec
        refine ⟨ids, fun _ h => (by cases h), fun Q' j hpc => ?_, fun Q' j retry' n hpc => ?_,
          fun _ _ _ _ _ h => (by cases h), fun _ h => (by cases h)⟩
        · cases hpc
          exact h.loop Q i rfl
        · cases hpc
          exact fun _ _ _ => rfl
  | snapState c i retry n =>
    cases c with
    | sweep w => cases hquery
    | query Q =>
      split at hexec
      · next type htype =>
        cases hexec
        refine ⟨ids, fun _ h => (by cases h), fun Q' j hpc => ?_, fun _ _ _ _ h => (by cases h),
          fun Q' j retry' snap rest hpc => ?_, fun _ h => (by cases h)⟩
        · cases hpc
          exact h.loop Q i rfl
        · cases hpc
          obtain ⟨p, e, hocc⟩ := (hsim.inv.slots i).entry type htype
          obtain ⟨id, r, hr, hentry, hslot, hremoved, honly⟩ := hsim.registration hocc
          have hsame := hocc.state.symm.trans htype
          refine ⟨⟨id, r, hr, hslot, ?_, fun b hb => ?_, fun _ => hentry ▸ hocc.payload,
            honly g⟩, h.state Q i retry n rfl⟩
          · rw [hentry]
            exact Registry.SlotState.entry.inj hsame
          · rw [hremoved] at hb
            cases hb
      · next hstate =>
        cases hexec
        refine ⟨ids, h.pass rfl fun id r hr => ?_⟩
        obtain ⟨p, hocc⟩ := hsim.occupied hr.known hr.stays
        rw [hr.slot] at hocc
        exact absurd hocc.state (hstate _)
  | snapCopy c i retry snap rest =>
    cases c with
    | sweep w => cases hquery
    | query Q =>
      cases rest with
      | cons f rest =>
        cases hexec
        refine ⟨ids, fun _ h => (by cases h), fun Q' j hpc => ?_, fun _ _ _ _ h => (by cases h),
          fun Q' j retry' snap' rest' hpc => ?_, fun _ h => (by cases h)⟩
        · cases hpc
          exact h.loop Q i rfl
        · cases hpc
          have hcopies := h.copy Q i retry snap (f :: rest) rfl
          exact ⟨hcopies.candidate, hcopies.current⟩
      | nil =>
        have hcopies := h.copy Q i retry snap [] rfl
        have hobs := hobserve i snap.seq snap.payload [] rfl
        simp only at hexec
        split at hexec
        · next hsame =>
          cases hexec
          have hseq : (s.slot i).seq = snap.seq := by
            have hle := hobs.le
            have hlt := hwrap _ rfl
            simp only [Registry.RegistryEntrySlot.seqWord] at hsame
            simp only [Registry.State.slot] at hle hlt ⊢
            omega
          obtain ⟨id, r, hr, hslot, htype, hremoved, hpayload, honly⟩ := hcopies.candidate
          have hcopied : snap.payload = r.entry.payload :=
            (hobs.copied hseq).eq.symm.trans (hpayload hseq)
          obtain ⟨hflt, hres, hscan, honce⟩ := h.loop Q i rfl
          simp only [Local.snapDone]
          rw [← htype, hcopied, hflt]
          split
          · next hmatch =>
            refine ⟨ids ++ [id], .queryLoop rfl ?_ (.loop (hscan.1.collect hr
              ((flt.accepts_iff _).mp hmatch) hremoved honly) hscan.2)
              (scanOnce_collect honce hr hslot)⟩
            rw [Directory.answers_concat hr, hres]
            rfl
          · next hskip =>
            refine ⟨ids, h.pass rfl fun id' r' hr' hmatch => hskip ?_⟩
            obtain rfl := honly id' r' hr'
            obtain rfl := Option.some.inj (hr.symm.trans hr'.known)
            exact (flt.accepts_iff _).mpr hmatch
        · next hmoved =>
          cases hexec
          refine ⟨ids, h.snapRetry rfl fun id r hr => hmoved ?_⟩
          have hseq := hcopies.current id r hr
          simp only [Registry.RegistryEntrySlot.seqWord, Registry.State.slot] at hseq ⊢
          rw [hseq]
  | _ => cases hquery

/-! ## The others -/

/-- Nobody moves the counter of a slot that shows an entry. -/
theorem seq_of_occupied [DecidableEq P] (h : Registry.Inv s) {p : P} {e : RegistryEntry P}
    (hocc : Occupied s i p e) {a : Registry.Act P} (hstep : Registry.step s a = some t) :
    (t.slot i).seq = (s.slot i).seq := by
  cases a with
  | call r c =>
    obtain ⟨-, -, l, -, rfl⟩ := Registry.of_step_call hstep
    rfl
  | kill r =>
    obtain ⟨-, rfl⟩ := Registry.of_step_kill hstep
    rfl
  | step r spurious =>
    obtain ⟨-, eff, l, hexec, rfl⟩ := Registry.of_step_step hstep
    obtain hsame | rfl := s.region.apply_seq eff i
    · exact hsame
    · have hbusy : (s.pc r).busy ≠ some i := fun hb =>
        (h.locals r).state_of_busy hb _ hocc.state
      cases Registry.exec_move hexec with
      | rest quiet _ _ _ _ => cases quiet
      | writeBegin e' _ at_pc => exact absurd (by rw [Registry.State.pc, at_pc]; rfl) hbusy
      | writeEnd e' _ at_pc => exact absurd (by rw [Registry.State.pc, at_pc]; rfl) hbusy
      | tearBegin c _ at_pc => exact absurd (by rw [Registry.State.pc, at_pc]; rfl) hbusy
      | tearEnd c _ path at_pc => exact absurd (by rw [Registry.State.pc, at_pc]; rfl) hbusy

/-- A step of somebody else, before the directory follows. -/
theorem Tracks.others [DecidableEq P] (h : Tracks s d flt g l ids) (hsim : Simulates s d)
    (hobserve : ∀ i n buf rest, l.pc.observes = some (i, n, buf, rest) →
      Registry.Observes s i n buf rest)
    {a : Registry.Act P} (hstep : Registry.step s a = some t) : Tracks t d flt g l ids where
  asks := h.asks
  loop := h.loop
  state Q i retry n hpc id r hr := by
    obtain ⟨p, hocc⟩ := hsim.occupied hr.known hr.stays
    rw [hr.slot] at hocc
    exact (seq_of_occupied hsim.inv hocc hstep).trans (h.state Q i retry n hpc id r hr)
  copy Q i retry snap rest hpc := by
    have hcopies := h.copy Q i retry snap rest hpc
    have hobs := hobserve i snap.seq snap.payload rest (by rw [hpc]; rfl)
    have hmoved := hsim.inv.moved_step hstep i
    obtain ⟨id, r, hr, hslot, htype, hremoved, hpayload, honly⟩ := hcopies.candidate
    refine ⟨⟨id, r, hr, hslot, htype, hremoved, fun hseq => ?_, honly⟩, fun id' r' hr' => ?_⟩
    · have hle := hobs.le
      have hle' := hmoved.le
      have hstill : (s.slot i).seq = snap.seq := by omega
      obtain hsame | hodd := hmoved.payload (hseq.trans hstill.symm)
      · rw [hsame]
        exact hpayload hstill
      · have := hobs.even
        omega
    · obtain ⟨p, hocc⟩ := hsim.occupied hr'.known hr'.stays
      rw [hr'.slot] at hocc
      exact (seq_of_occupied hsim.inv hocc hstep).trans (hcopies.current id' r' hr')
  answered := h.answered

end

/-! ## The result -/

/-- A step of a run in which process `q` makes no call.  The counters do not wrap inside a
snapshot. -/
def Undisturbed (q : P) (s : Registry.State P) (a : Registry.Act P) : Prop :=
  CrashOk s a ∧ NoWrap s a ∧
    match a with
    | .call p _ => p ≠ q
    | _ => True

instance Undisturbed.decidable [Fintype P] [DecidableEq P] (q : P) (s : Registry.State P)
    (a : Registry.Act P) : Decidable (Undisturbed q s a) :=
  match a with
  | .call p c => inferInstanceAs (Decidable (CrashOk s (.call p c) ∧
      NoWrap s (.call p c) ∧ p ≠ q))
  | .step p spurious => inferInstanceAs (Decidable (CrashOk s (.step p spurious) ∧
      NoWrap s (.step p spurious) ∧ True))
  | .kill p => inferInstanceAs (Decidable (CrashOk s (.kill p) ∧ NoWrap s (.kill p) ∧ True))

section

variable [DecidableEq P] {s t : Registry.State P} {q : P} {flt : QueryFilter}
  {rs : List RegistryQueryResult}

/-- A query of `q` that has begun in `d`, at any later moment. -/
structure Underway (d : Directory P) (flt : QueryFilter) (q : P) (t : Registry.State P)
    (d' : Directory P) : Prop where
  after : (Directory.machine P).Reach (fun _ _ => True) d d'
  past : d.generation ≤ d'.generation
  simulates : Simulates t d'
  inside : (t.procs q).inQuery = true ∨ (t.procs q).pc = .idle
  tracks : ∃ ids, Tracks t d' flt d.generation (t.procs q) ids

/-- The query before the directory has followed the step. -/
theorem Underway.step {d d' : Directory P} {u : Registry.State P} {a : Registry.Act P}
    (h : Underway d flt q t d') (hok : Undisturbed q t a)
    (hstep : Registry.step t a = some u) :
    ((u.procs q).inQuery = true ∨ (u.procs q).pc = .idle) ∧
      ∃ ids, Tracks u d' flt d.generation (u.procs q) ids := by
  obtain ⟨ids, htracks⟩ := h.tracks
  have hobserve := (h.simulates.inv.locals q).observe
  have hothers := htracks.others h.simulates hobserve hstep
  cases a with
  | call p c =>
    obtain ⟨-, -, l, -, rfl⟩ := Registry.of_step_call hstep
    have hq : q ≠ p := hok.2.2.symm
    rw [Registry.State.setLocal_of_ne t p l hq]
    exact ⟨h.inside, ids, hothers⟩
  | step p spurious =>
    obtain ⟨-, eff, l, hexec, rfl⟩ := Registry.of_step_step hstep
    by_cases hq : q = p
    · subst hq
      rw [Registry.State.commit_self]
      obtain hquery | hidle := h.inside
      · obtain ⟨rfl, hgoes⟩ := Registry.exec_inQuery hquery hexec
        obtain ⟨ids', htracks'⟩ := htracks.exec h.simulates hobserve hok.2.1 hquery hexec
        refine ⟨hgoes.goes.imp_right fun hanswered => ?_, ids', htracks'.asks, htracks'.loop,
          htracks'.state, fun Q i retry snap rest hpc => ?_, htracks'.answered⟩
        · unfold Local.answered at hanswered
          split at hanswered
          · assumption
          · cases hanswered
        · have hcopies := htracks'.copy Q i retry snap rest hpc
          exact ⟨hcopies.candidate, hcopies.current⟩
      · rw [Registry.exec, hidle] at hexec
        cases hexec
    · rw [Registry.State.commit_of_ne t p _ hq]
      exact ⟨h.inside, ids, hothers⟩
  | kill p =>
    obtain ⟨-, rfl⟩ := Registry.of_step_kill hstep
    by_cases hq : q = p
    · subst hq
      rw [Registry.State.slay_self]
      exact ⟨.inr rfl, [], fun _ h => (by cases h), fun _ _ h => (by cases h),
        fun _ _ _ _ h => (by cases h), fun _ _ _ _ _ h => (by cases h),
        fun _ h => (by cases h)⟩
    · rw [Registry.State.slay_of_ne t p hq]
      exact ⟨h.inside, ids, hothers⟩

theorem Underway.next {d d' : Directory P} {u : Registry.State P} {a : Registry.Act P}
    (h : Underway d flt q t d') (hok : Undisturbed q t a)
    (hstep : Registry.step t a = some u) : ∃ d'', Underway d flt q u d'' := by
  obtain ⟨hinside, ids, htracks⟩ := h.step hok hstep
  obtain ⟨d'', hmatch, hsim⟩ := h.simulates.step hok.1 hstep
  obtain rfl | ⟨b, hb⟩ := hmatch
  · exact ⟨d'', h.after, h.past, hsim, hinside, ids, htracks⟩
  · have hlater := (mutated_of_mutate hb).later
    exact ⟨d'', .tail h.after trivial hb, Nat.le_trans h.past hlater.generation, hsim, hinside,
      ids, htracks.later hlater h.past⟩

end

end RmwUnixSocket.Graph
