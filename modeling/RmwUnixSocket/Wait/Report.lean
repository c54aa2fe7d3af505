import Mathlib.Data.List.Nodup
import RmwUnixSocket.Wait.Arming

/-!
# Consumed triggers are reported

A call reads an eventfd at three places: before it blocks, when an event is
dispatched, and in the output pass.  Each read that finds a trigger leaves a
mark in `gc_triggered`, or keeps its entry at once (`ReportOk.reported`).  The
arrays change in the output pass only, and an entry that is marked is not set
to null.

`rmw_wait_wait_set` puts this together with the arming pass, for any history
of calls, entities and failures of `epoll_ctl`.
-/

namespace RmwUnixSocket.Wait

variable {doorbell : Option Nat} {s t : State} {a : Addr} {i : Nat}
  {kind : EntityKind} {arrays : Arrays} {ok : Bool}

/-! ## The arrays -/

theorem mem_entries : (kind, a) ∈ arrays.entries kind ↔
    some a ∈ arrays kind := by
  simp [Arrays.entries, List.mem_filterMap]

theorem mem_targets : (kind, a) ∈ arrays.targets ↔ some a ∈ arrays kind := by
  have hother : ∀ {kind'}, kind ≠ kind' → (kind, a) ∉ arrays.entries kind' := by
    intro kind' hne hin
    obtain ⟨entry, -, heq⟩ := List.mem_filterMap.mp hin
    obtain ⟨b, -, hpair⟩ := Option.map_eq_some_iff.mp heq
    exact hne (congrArg Prod.fst hpair).symm
  unfold Arrays.targets
  simp only [List.mem_append]
  cases kind with
  | subscription =>
    simp [mem_entries, hother]
  | service => simp [mem_entries, hother]
  | client => simp [mem_entries, hother]
  | guardCondition => simp [mem_entries, hother]

theorem gcIndex_spec (h : arrays.gcIndex a = some i) :
    (arrays .guardCondition)[i]? = some (some a) := by
  have := List.find?_some h
  simpa using this

theorem gcIndex_of_mem (h : (.guardCondition, a) ∈ arrays.targets) :
    ∃ i, arrays.gcIndex a = some i := by
  rw [mem_targets] at h
  obtain ⟨i, hi, hget⟩ := List.mem_iff_getElem.mp h
  rw [← Option.isSome_iff_exists]
  unfold Arrays.gcIndex
  rw [List.find?_isSome]
  refine ⟨i, by simpa using hi, ?_⟩
  simp [List.getElem?_eq_getElem hi, hget]

theorem outputs_nodup (arrays : Arrays) : arrays.outputs.Nodup := by
  have hplaces : ∀ kind, (arrays.places kind).Nodup := by
    intro kind
    refine List.Nodup.map ?_ List.nodup_range
    intro i j heq
    exact congrArg Prod.snd heq
  have hkind : ∀ {kind place}, place ∈ arrays.places kind → place.1 = kind := by
    intro kind place hin
    obtain ⟨i, -, rfl⟩ := List.mem_map.mp hin
    rfl
  unfold Arrays.outputs
  refine List.Nodup.append (List.Nodup.append (List.Nodup.append (hplaces _)
    (hplaces _) ?_) (hplaces _) ?_) (hplaces _) ?_
  · intro place hl hr
    cases (hkind hl).symm.trans (hkind hr)
  · intro place hl hr
    rcases List.mem_append.mp hl with hl | hl
    · cases (hkind hl).symm.trans (hkind hr)
    · cases (hkind hl).symm.trans (hkind hr)
  · intro place hl hr
    rcases List.mem_append.mp hl with hl | hl
    · rcases List.mem_append.mp hl with hl | hl
      · cases (hkind hl).symm.trans (hkind hr)
      · cases (hkind hl).symm.trans (hkind hr)
    · cases (hkind hl).symm.trans (hkind hr)

theorem mem_outputs {place : EntityKind × Nat} :
    place ∈ arrays.outputs ↔ place.2 < (arrays place.1).length := by
  obtain ⟨kind, i⟩ := place
  unfold Arrays.outputs Arrays.places
  cases kind with
  | subscription => simp
  | service => simp
  | client => simp
  | guardCondition => simp

/-- An entry that is not set to null. -/
theorem clear_get {kind' : EntityKind} {j : Nat}
    (hne : kind ≠ kind' ∨ i ≠ j) :
    (arrays.clear kind' j kind)[i]? = (arrays kind)[i]? := by
  unfold Arrays.clear
  by_cases hkind : kind = kind'
  · subst hkind
    rw [Function.update_self, List.getElem?_set_ne]
    exact (hne.resolve_left fun h => h rfl).symm
  · rw [Function.update_of_ne hkind]

/-! ## The invariant -/

/-- The output pass has begun, or the call has returned. -/
def Pc.reporting : Pc → Bool
  | .output _ | .returning | .returned _ => true
  | _ => false

/-- The output pass has left entry `i` of the guard conditions behind. -/
def Pc.Passed (i : Nat) : Pc → Prop
  | .output todo => (.guardCondition, i) ∉ todo
  | .returning | .returned _ => True
  | _ => False

/-- The entries of `unarmed` that are still to be drained. -/
def Pc.undrained : Pc → Option (List ArmedEntry)
  | .arm _ | .armDoorbell => none
  | .drainUnarmed todo => some todo
  | _ => some []

/-- The invariant of the reads and of the output pass. -/
structure ReportOk (s : State) : Prop where
  same : s.pc.reporting = false → s.call.arrays = s.call.given
  reported : ∀ a ∈ s.call.consumed, ∃ i,
    (s.call.arrays .guardCondition)[i]? = some (some a) ∧
      (s.call.gcTriggered i = true ∨ s.pc.Passed i)
  nodup : ∀ todo, s.pc = .output todo → todo.Nodup
  drained : ∀ todo, s.pc.undrained = some todo → ∀ entry ∈ s.call.unarmed,
    entry ∈ s.call.drained ∨ entry ∈ todo

theorem ReportOk.init (doorbell : Option Nat) : ReportOk (.init doorbell) where
  same _ := rfl
  reported := nofun
  nodup := nofun
  drained _ _ := nofun

/-- A step that reads no eventfd and changes no array. -/
theorem ReportOk.keep (h : ReportOk s)
    (harrays : t.call.arrays = s.call.arrays)
    (hgiven : t.call.given = s.call.given)
    (hconsumed : t.call.consumed = s.call.consumed)
    (htriggered : t.call.gcTriggered = s.call.gcTriggered)
    (hreporting : t.pc.reporting = false → s.pc.reporting = false)
    (hpassed : ∀ i, s.pc.Passed i → t.pc.Passed i)
    (hnodup : ∀ todo, t.pc = .output todo → todo.Nodup)
    (hdrained : ∀ todo, t.pc.undrained = some todo →
      ∀ entry ∈ t.call.unarmed, entry ∈ t.call.drained ∨ entry ∈ todo) :
    ReportOk t where
  same hrep := by
    rw [harrays, hgiven]
    exact h.same (hreporting hrep)
  reported a ha := by
    rw [hconsumed] at ha
    rw [harrays, htriggered]
    obtain ⟨i, hget, hmark⟩ := h.reported a ha
    exact ⟨i, hget, hmark.imp_right (hpassed i)⟩
  nodup := hnodup
  drained := hdrained

/-- The call goes on, and nothing else happens. -/
theorem ReportOk.goto (h : ReportOk s) {pc : Pc}
    (hreporting : pc.reporting = false → s.pc.reporting = false)
    (hpassed : ∀ i, s.pc.Passed i → pc.Passed i)
    (hnodup : ∀ todo, pc = .output todo → todo.Nodup)
    (hundrained : pc.undrained = s.pc.undrained ∨ pc.undrained = none) :
    ReportOk (s.goto pc) := by
  refine h.keep rfl rfl rfl rfl hreporting hpassed hnodup fun todo htodo => ?_
  rcases hundrained with heq | hnone
  · exact h.drained todo (heq.symm.trans htodo)
  · rw [show (s.goto pc).pc.undrained = none from hnone] at htodo
    cases htodo

/-- A read before the output pass, with its mark. -/
theorem ReportOk.read (h : ReportOk s) (hrep : s.pc.reporting = false)
    (hget : (s.call.arrays .guardCondition)[i]? = some (some a))
    (harrays : t.call.arrays = s.call.arrays)
    (hgiven : t.call.given = s.call.given)
    (hconsumed : t.call.consumed = a :: s.call.consumed)
    (htriggered : t.call.gcTriggered =
      Function.update s.call.gcTriggered i true)
    (hreporting : t.pc.reporting = false)
    (hdrained : t.pc.undrained = s.pc.undrained ∧
      t.call.unarmed = s.call.unarmed ∧ t.call.drained = s.call.drained) :
    ReportOk t := by
  have hnot : ∀ j, ¬s.pc.Passed j := by
    intro j hpassed
    unfold Pc.Passed at hpassed
    unfold Pc.reporting at hrep
    split at hrep
    · cases hrep
    · cases hrep
    · cases hrep
    · rename_i hnotOutput hnotReturning hnotReturned
      split at hpassed
      · rename_i todo hpc
        exact hnotOutput todo hpc
      · rename_i hpc
        exact hnotReturning hpc
      · rename_i ret hpc
        exact hnotReturned ret hpc
      · exact hpassed
  refine ⟨fun _ => ?_, fun b hb => ?_, fun todo hpc => ?_, ?_⟩
  · rw [harrays, hgiven]
    exact h.same hrep
  · rw [hconsumed] at hb
    rw [harrays, htriggered]
    rcases List.mem_cons.mp hb with rfl | hold
    · exact ⟨i, hget, .inl (Function.update_self ..)⟩
    · obtain ⟨j, hget', hmark⟩ := h.reported b hold
      refine ⟨j, hget', .inl ?_⟩
      by_cases hj : j = i
      · subst hj
        exact Function.update_self ..
      · rw [Function.update_of_ne hj]
        exact hmark.resolve_right (hnot j)
  · rw [hpc] at hreporting
    cases hreporting
  · obtain ⟨hund, hun, hdr⟩ := hdrained
    rw [hund, hun, hdr]
    exact h.drained

/-! ## Every step -/

/-- One entry of the output pass. -/
theorem ReportOk.outputStep {todo : List (EntityKind × Nat)} (h : ReportOk s)
    (hpc : s.pc = .output ((kind, i) :: todo)) :
    ReportOk ((outputStep s kind i).goto (.output todo)) := by
  obtain ⟨hfirst, hrest⟩ := List.nodup_cons.mp (h.nodup _ hpc)
  have hpassed : ∀ j, s.pc.Passed j → (Pc.output todo).Passed j := by
    intro j hj hin
    rw [hpc] at hj
    exact hj (List.mem_cons_of_mem _ hin)
  have hnodup : ∀ todo', Pc.output todo = .output todo' → todo'.Nodup := by
    rintro todo' heq
    cases heq
    exact hrest
  have hdrained : ∀ {t : State}, t.pc = .output todo →
      t.call.unarmed = s.call.unarmed → t.call.drained = s.call.drained →
      ∀ todo', t.pc.undrained = some todo' →
      ∀ entry ∈ t.call.unarmed, entry ∈ t.call.drained ∨ entry ∈ todo' := by
    intro t ht hun hdr todo' htodo
    rw [hun, hdr]
    refine h.drained todo' ?_
    rw [hpc]
    rw [ht] at htodo
    exact htodo
  have hkeep : ∀ {t : State}, t.pc = .output todo →
      t.call.arrays = s.call.arrays → t.call.given = s.call.given →
      t.call.consumed = s.call.consumed →
      t.call.gcTriggered = s.call.gcTriggered →
      t.call.unarmed = s.call.unarmed → t.call.drained = s.call.drained →
      ReportOk t := by
    intro t ht harr hgiven hcons htrig hun hdr
    refine h.keep harr hgiven hcons htrig ?_ ?_ ?_ (hdrained ht hun hdr)
    · rw [ht]
      nofun
    · rw [ht]
      exact hpassed
    · rw [ht]
      exact hnodup
  have hclear : ∀ {t : State}, t.pc = .output todo →
      t.call.arrays = s.call.arrays.clear kind i →
      t.call.consumed = s.call.consumed →
      t.call.gcTriggered = s.call.gcTriggered →
      t.call.unarmed = s.call.unarmed → t.call.drained = s.call.drained →
      (kind = .guardCondition → s.call.gcTriggered i = false) →
      ReportOk t := by
    intro t ht harr hcons htrig hun hdr hmark
    refine ⟨?_, fun a ha => ?_, ?_, hdrained ht hun hdr⟩
    · rw [ht]
      nofun
    · rw [hcons] at ha
      obtain ⟨j, hget, hj⟩ := h.reported a ha
      rw [harr, htrig, ht]
      -- A marked entry is not this one, and a passed one is not either.
      have hne : EntityKind.guardCondition ≠ kind ∨ j ≠ i := by
        by_contra hsame
        simp only [not_or, not_not] at hsame
        obtain ⟨rfl, rfl⟩ := hsame
        rcases hj with hmarked | hgone
        · rw [hmark rfl] at hmarked
          cases hmarked
        · rw [hpc] at hgone
          exact hgone List.mem_cons_self
      exact ⟨j, (clear_get hne).trans hget, hj.imp_right (hpassed j)⟩
    · rw [ht]
      exact hnodup
  unfold Wait.outputStep
  simp only
  split
  · exact hkeep rfl rfl rfl rfl rfl rfl rfl
  · rename_i a hentry
    split
    · split
      · refine ⟨nofun, fun b hb => ?_, hnodup, hdrained rfl rfl rfl⟩
        rcases List.mem_cons.mp hb with rfl | hold
        · exact ⟨i, Option.join_eq_some_iff.mp hentry, .inr hfirst⟩
        · obtain ⟨j, hget, hj⟩ := h.reported b hold
          exact ⟨j, hget, hj.imp_right (hpassed j)⟩
      · split
        · exact hkeep rfl rfl rfl rfl rfl rfl rfl
        · rename_i hmark
          exact hclear rfl rfl rfl rfl rfl rfl fun _ => by simpa using hmark
    · rename_i hkind
      split
      · exact hclear rfl rfl rfl rfl rfl rfl fun heq => absurd heq hkind
      · exact hkeep rfl rfl rfl rfl rfl rfl rfl

/-- The event of one fd. -/
theorem ReportOk.dispatchStep (h : ReportOk s) (harm : ArmOk doorbell s)
    {n fd : Nat} {ready : List Nat} {progressed : Bool}
    (hpc : s.pc = .dispatch n (fd :: ready) progressed) :
    ReportOk (dispatchStep s n fd ready progressed ok) := by
  have hrep : s.pc.reporting = false := by
    rw [hpc]
    rfl
  have hund : s.pc.undrained = some [] := by
    rw [hpc]
    rfl
  have hnot : ∀ i, ¬s.pc.Passed i := by
    rw [hpc]
    exact fun _ => id
  have hcall : s.inCall = true := by
    unfold State.inCall
    rw [hpc]
  have hkeep : ∀ {t : State}, t.pc.reporting = false →
      t.pc.undrained = some [] → t.call.arrays = s.call.arrays →
      t.call.given = s.call.given → t.call.consumed = s.call.consumed →
      t.call.gcTriggered = s.call.gcTriggered →
      t.call.unarmed = s.call.unarmed → t.call.drained = s.call.drained →
      ReportOk t := by
    intro t ht htund harr hgiven hcons htrig hun hdr
    refine h.keep harr hgiven hcons htrig (fun _ => hrep)
      (fun i hi => absurd hi (hnot i)) (fun todo htodo => ?_)
      fun todo htodo => ?_
    · rw [htodo] at ht
      cases ht
    · rw [hun, hdr]
      exact h.drained todo (hund.trans (htund.symm.trans htodo))
  unfold Wait.dispatchStep
  split
  · exact hkeep rfl rfl rfl rfl rfl rfl rfl rfl
  · rename_i entry harmed
    split
    · exact hkeep rfl rfl rfl rfl rfl rfl rfl rfl
    · rename_i hin
      simp only [not_not] at hin
      split
      · exact hkeep rfl rfl rfl rfl rfl rfl rfl rfl
      · rename_i kind a uid
        simp only
        split
        · split
          · -- The entity is one of the arrays, so the read finds its place.
            have hgiven : (.guardCondition, a) ∈ s.call.arrays.targets := by
              rw [h.same hrep]
              rcases harm.mine hcall fd hin with ⟨-, hbell⟩ |
                ⟨kind', a', uid', htarget, -, hown⟩
              · rw [harmed] at hbell
                cases hbell
              · rw [harmed] at hown
                cases hown
                exact htarget
            obtain ⟨i, hi⟩ := gcIndex_of_mem hgiven
            split
            · rename_i j hj
              exact h.read hrep (gcIndex_spec (show
                s.call.arrays.gcIndex a = some j from hj)) rfl rfl rfl rfl rfl
                ⟨hund.symm, rfl, rfl⟩
            · rename_i hnone
              rw [show s.call.arrays.gcIndex a = none from hnone] at hi
              cases hi
          · exact hkeep rfl rfl rfl rfl rfl rfl rfl rfl
        · exact hkeep rfl rfl rfl rfl rfl rfl rfl rfl

theorem registerFd_call (s : State) (fd : Nat) (entry : ArmedEntry) (ok : Bool) :
    (s.registerFd fd entry ok).call.arrays = s.call.arrays ∧
      (s.registerFd fd entry ok).call.given = s.call.given ∧
      (s.registerFd fd entry ok).call.consumed = s.call.consumed ∧
      (s.registerFd fd entry ok).call.gcTriggered = s.call.gcTriggered := by
  have hregistered := registerFd_registered s fd entry ok
  generalize s.registerFd fd entry ok = t at hregistered ⊢
  cases hregistered with
  | kept | added | failed => exact ⟨rfl, rfl, rfl, rfl⟩

/-- A step of the call before the output pass that reads no eventfd. -/
theorem ReportOk.before (h : ReportOk s) (hrep : s.pc.reporting = false)
    (hnot : ∀ i, ¬s.pc.Passed i) (hrep' : t.pc.reporting = false)
    (hcall : t.call.arrays = s.call.arrays ∧ t.call.given = s.call.given ∧
      t.call.consumed = s.call.consumed ∧
      t.call.gcTriggered = s.call.gcTriggered)
    (hdrained : ∀ todo, t.pc.undrained = some todo →
      ∀ entry ∈ t.call.unarmed, entry ∈ t.call.drained ∨ entry ∈ todo) :
    ReportOk t := by
  obtain ⟨harr, hgiven, hcons, htrig⟩ := hcall
  refine h.keep harr hgiven hcons htrig (fun _ => hrep)
    (fun i hi => absurd hi (hnot i)) (fun todo htodo => ?_) hdrained
  rw [htodo] at hrep'
  cases hrep'

/-- The output pass begins. -/
theorem ReportOk.startOutput (h : ReportOk s) (hrep : s.pc.reporting = false)
    (hnot : ∀ i, ¬s.pc.Passed i) (hund : s.pc.undrained = some []) :
    ReportOk (s.goto (.output s.call.arrays.outputs)) := by
  refine h.goto (fun _ => hrep) (fun i hi => absurd hi (hnot i))
    (fun todo htodo => ?_) (.inl hund.symm)
  cases htodo
  exact outputs_nodup _

/-- A step of the call. -/
theorem ReportOk.callStep (h : ReportOk s) (harm : ArmOk doorbell s)
    (hstep : Wait.callStep doorbell s ok = some t) : ReportOk t := by
  have hsame : ∀ {pc : Pc}, pc.undrained = s.pc.undrained →
      ∀ todo, pc.undrained = some todo → ∀ entry ∈ s.call.unarmed,
        entry ∈ s.call.drained ∨ entry ∈ todo := fun hund todo htodo =>
    h.drained todo (hund.symm.trans htodo)
  cases hpc : s.pc with
  | idle =>
    simp only [Wait.callStep, hpc] at hstep
    cases hstep
  | epollWait blockMs =>
    simp only [Wait.callStep, hpc] at hstep
    cases hstep
  | returned ret =>
    simp only [Wait.callStep, hpc] at hstep
    cases hstep
  | arm todo =>
    have hrep : s.pc.reporting = false := by rw [hpc]; rfl
    have hnot : ∀ i, ¬s.pc.Passed i := by rw [hpc]; exact fun _ => id
    cases todo with
    | nil =>
      simp only [Wait.callStep, hpc, Option.some.injEq] at hstep
      subst hstep
      exact h.before hrep hnot rfl ⟨rfl, rfl, rfl, rfl⟩
        fun todo htodo => by cases htodo
    | cons target todo =>
      simp only [Wait.callStep, hpc] at hstep
      obtain ⟨e, -, rfl⟩ := Option.map_eq_some_iff.mp hstep
      exact h.before hrep hnot rfl (registerFd_call s _ _ ok)
        fun todo htodo => by cases htodo
  | armDoorbell =>
    have hrep : s.pc.reporting = false := by rw [hpc]; rfl
    have hnot : ∀ i, ¬s.pc.Passed i := by rw [hpc]; exact fun _ => id
    simp only [Wait.callStep, hpc, Option.some.injEq] at hstep
    subst hstep
    refine h.before hrep hnot rfl ?_ fun todo htodo entry hentry => ?_
    · split
      · exact registerFd_call s _ _ ok
      · exact ⟨rfl, rfl, rfl, rfl⟩
    · cases htodo
      exact .inr hentry
  | drainUnarmed todo =>
    have hrep : s.pc.reporting = false := by rw [hpc]; rfl
    have hnot : ∀ i, ¬s.pc.Passed i := by rw [hpc]; exact fun _ => id
    cases todo with
    | nil =>
      simp only [Wait.callStep, hpc, Option.some.injEq] at hstep
      subst hstep
      exact h.before hrep hnot rfl ⟨rfl, rfl, rfl, rfl⟩ (hsame (by rw [hpc]; rfl))
    | cons entry todo =>
      have hnote : ∀ todo', (Pc.drainUnarmed todo).undrained = some todo' →
          ∀ entry' ∈ s.call.unarmed,
            entry' ∈ entry :: s.call.drained ∨ entry' ∈ todo' := by
        rintro todo' heq entry' hin
        cases heq
        rcases h.drained (entry :: todo) (by rw [hpc]; rfl) entry' hin with
          hold | hnew
        · exact .inl (List.mem_cons_of_mem _ hold)
        · rcases List.mem_cons.mp hnew with rfl | hlater
          · exact .inl List.mem_cons_self
          · exact .inr hlater
      simp only [Wait.callStep, hpc] at hstep
      split at hstep
      · cases hstep
        exact h.before hrep hnot rfl ⟨rfl, rfl, rfl, rfl⟩ hnote
      · cases hstep
        exact h.before hrep hnot rfl ⟨rfl, rfl, rfl, rfl⟩ hnote
      · cases hstep
        exact h.before hrep hnot rfl ⟨rfl, rfl, rfl, rfl⟩ hnote
  | checkQueues todo =>
    have hrep : s.pc.reporting = false := by rw [hpc]; rfl
    have hnot : ∀ i, ¬s.pc.Passed i := by rw [hpc]; exact fun _ => id
    cases todo with
    | nil =>
      simp only [Wait.callStep, hpc, Option.some.injEq] at hstep
      subst hstep
      exact h.before hrep hnot rfl ⟨rfl, rfl, rfl, rfl⟩ (hsame (by rw [hpc]; rfl))
    | cons target todo =>
      simp only [Wait.callStep, hpc] at hstep
      split at hstep
      · cases hstep
        exact h.before hrep hnot rfl ⟨rfl, rfl, rfl, rfl⟩
          (hsame (by rw [hpc]; rfl))
      · cases hstep
        exact h.before hrep hnot rfl ⟨rfl, rfl, rfl, rfl⟩
          (hsame (by rw [hpc]; rfl))
  | readTriggers i =>
    have hrep : s.pc.reporting = false := by rw [hpc]; rfl
    have hnot : ∀ i, ¬s.pc.Passed i := by rw [hpc]; exact fun _ => id
    simp only [Wait.callStep, hpc] at hstep
    split at hstep
    · split at hstep
      · cases hstep
        exact h.before hrep hnot rfl ⟨rfl, rfl, rfl, rfl⟩
          (hsame (by rw [hpc]; rfl))
      · rename_i a hentry
        split at hstep
        · cases hstep
          exact h.read hrep (Option.join_eq_some_iff.mp hentry) rfl rfl rfl rfl
            rfl ⟨by rw [hpc]; rfl, rfl, rfl⟩
        · cases hstep
          exact h.before hrep hnot rfl ⟨rfl, rfl, rfl, rfl⟩
            (hsame (by rw [hpc]; rfl))
    · cases hstep
      exact h.before hrep hnot rfl ⟨rfl, rfl, rfl, rfl⟩
        (hsame (by rw [hpc]; rfl))
  | takeDeadline =>
    have hrep : s.pc.reporting = false := by rw [hpc]; rfl
    have hnot : ∀ i, ¬s.pc.Passed i := by rw [hpc]; exact fun _ => id
    simp only [Wait.callStep, hpc, Option.some.injEq] at hstep
    subst hstep
    exact h.before hrep hnot rfl ⟨rfl, rfl, rfl, rfl⟩ (hsame (by rw [hpc]; rfl))
  | block =>
    have hrep : s.pc.reporting = false := by rw [hpc]; rfl
    have hnot : ∀ i, ¬s.pc.Passed i := by rw [hpc]; exact fun _ => id
    simp only [Wait.callStep, hpc, Option.some.injEq] at hstep
    subst hstep
    exact h.before hrep hnot rfl ⟨rfl, rfl, rfl, rfl⟩ (hsame (by rw [hpc]; rfl))
  | dispatch n ready progressed =>
    have hrep : s.pc.reporting = false := by rw [hpc]; rfl
    have hnot : ∀ i, ¬s.pc.Passed i := by rw [hpc]; exact fun _ => id
    cases ready with
    | nil =>
      simp only [Wait.callStep, hpc, Option.some.injEq] at hstep
      subst hstep
      exact h.before hrep hnot rfl ⟨rfl, rfl, rfl, rfl⟩ (hsame (by rw [hpc]; rfl))
    | cons fd ready =>
      simp only [Wait.callStep, hpc, Option.some.injEq] at hstep
      subst hstep
      exact h.dispatchStep harm hpc
  | testQueue a n ready progressed =>
    have hrep : s.pc.reporting = false := by rw [hpc]; rfl
    have hnot : ∀ i, ¬s.pc.Passed i := by rw [hpc]; exact fun _ => id
    simp only [Wait.callStep, hpc, Option.some.injEq] at hstep
    subst hstep
    exact h.before hrep hnot rfl ⟨rfl, rfl, rfl, rfl⟩ (hsame (by rw [hpc]; rfl))
  | batchDone n progressed =>
    have hrep : s.pc.reporting = false := by rw [hpc]; rfl
    have hnot : ∀ i, ¬s.pc.Passed i := by rw [hpc]; exact fun _ => id
    have hund : s.pc.undrained = some [] := by rw [hpc]; rfl
    have hagain : ReportOk (s.goto .block) :=
      h.before hrep hnot rfl ⟨rfl, rfl, rfl, rfl⟩ (hsame hund.symm)
    have hout := h.startOutput hrep hnot hund
    simp only [Wait.callStep, hpc] at hstep
    split at hstep
    · split at hstep
      · cases hstep
        exact hagain
      · cases hstep
        exact hout
    · split at hstep
      · cases hstep
        exact hout
      · split at hstep
        · cases hstep
          exact hout
        · split at hstep
          · cases hstep
            exact hout
          · cases hstep
            exact hagain
  | output todo =>
    cases todo with
    | nil =>
      simp only [Wait.callStep, hpc, Option.some.injEq] at hstep
      subst hstep
      exact h.goto (fun hrep => by cases hrep) (fun _ _ => trivial)
        (fun todo htodo => by cases htodo) (.inl (by rw [hpc]; rfl))
    | cons place todo =>
      simp only [Wait.callStep, hpc, Option.some.injEq] at hstep
      subst hstep
      exact h.outputStep hpc
  | returning =>
    simp only [Wait.callStep, hpc] at hstep
    split at hstep
    · cases hstep
      exact h.goto (fun hrep => by cases hrep) (fun _ _ => trivial)
        (fun todo htodo => by cases htodo) (.inl (by rw [hpc]; rfl))
    · cases hstep
      exact h.goto (fun hrep => by cases hrep) (fun _ _ => trivial)
        (fun todo htodo => by cases htodo) (.inl (by rw [hpc]; rfl))

/-- Every step keeps the invariant. -/
theorem ReportOk.step (h : ReportOk s) (harm : ArmOk doorbell s) {act : Act}
    (hstep : (machine doorbell).step s act = some t) : ReportOk t := by
  cases act with
  | create a fd kind depth =>
    simp only [machine, Wait.step] at hstep
    split at hstep
    · cases hstep
      exact ⟨h.same, h.reported, h.nodup, h.drained⟩
    · cases hstep
  | destroy a =>
    simp only [machine, Wait.step] at hstep
    split at hstep
    · split at hstep
      · cases hstep
      · cases hstep
        exact ⟨h.same, h.reported, h.nodup, h.drained⟩
    · cases hstep
  | change a queue socket counter =>
    cases hstep
    exact ⟨h.same, h.reported, h.nodup, h.drained⟩
  | tick ns =>
    cases hstep
    exact ⟨h.same, h.reported, h.nodup, h.drained⟩
  | call arrays timeout graphGcUnwired =>
    simp only [machine, Wait.step] at hstep
    split at hstep
    · cases hstep
      exact ⟨fun _ => rfl, fun a ha => (by cases ha), fun todo htodo => (by cases htodo),
        fun todo htodo => (by cases htodo)⟩
    · cases hstep
  | run ok => exact h.callStep harm hstep
  | epoll result =>
    simp only [machine, Wait.step, epollStep] at hstep
    split at hstep
    · rename_i blockMs hpc
      have hrep : s.pc.reporting = false := by rw [hpc]; rfl
      have hnot : ∀ i, ¬s.pc.Passed i := by rw [hpc]; exact fun _ => id
      have hund : s.pc.undrained = some [] := by rw [hpc]; rfl
      have hsame : ∀ todo, some [] = some todo → ∀ entry ∈ s.call.unarmed,
          entry ∈ s.call.drained ∨ entry ∈ todo := fun todo htodo =>
        h.drained todo (hund.trans htodo)
      cases result with
      | events fds =>
        simp only at hstep
        split at hstep
        · cases hstep
          exact h.before hrep hnot rfl ⟨rfl, rfl, rfl, rfl⟩ hsame
        · cases hstep
      | timedOut =>
        cases hstep
        exact h.startOutput hrep hnot hund
      | interrupted =>
        cases hstep
        exact h.before hrep hnot rfl ⟨rfl, rfl, rfl, rfl⟩ hsame
      | failed =>
        cases hstep
        exact h.goto (fun hrep => by cases hrep) (fun _ _ => trivial)
          (fun todo htodo => by cases htodo) (.inl hund.symm)
    · cases hstep

/-! ## The wait set -/

/-- The entity is alive and of the kind that the call takes it for. -/
def State.Alive (s : State) (target : EntityKind × Addr) : Prop :=
  ∃ e, s.heap target.2 = some e ∧ e.kind = target.1

/-- What the arming pass leaves of an entity of the arrays: its fd is
registered for its own file, and its events are dispatched to it, or it is on
the list `unarmed`. -/
def State.Covered (s : State) (target : EntityKind × Addr) : Prop :=
  ∃ e, s.heap target.2 = some e ∧ e.kind = target.1 ∧
    ((s.kernel e.fd = some e.uid ∧ e.fd ∈ s.call.armedThisCall ∧
        s.armed e.fd = some (.entity target.1 target.2 e.uid)) ∨
      .entity target.1 target.2 e.uid ∈ s.call.unarmed)

/-- The arming pass of a running call is over. -/
def State.pastArming (s : State) : Prop :=
  s.inCall = true ∧ s.pc.undrained ≠ none

theorem ArmOk.covered (h : ArmOk doorbell s) (hpast : s.pastArming)
    {target : EntityKind × Addr} (htarget : target ∈ s.call.given.targets) :
    s.Covered target := by
  obtain ⟨hcall, hund⟩ := hpast
  obtain ⟨uid, fd, hhas⟩ := h.alive hcall target htarget
  have harming : s.pc.arming = [] := by
    unfold Pc.arming
    split
    · rename_i todo hpc
      rw [hpc] at hund
      exact absurd rfl hund
    · rfl
  have hwatched := h.watched hcall target htarget
  rw [harming] at hwatched
  have hself := (hwatched.resolve_left nofun) uid fd hhas
  have hfile := h.world.file _ _ _ _ hhas
  obtain ⟨e, he, rfl, hkind, rfl⟩ := hhas
  refine ⟨e, he, hkind, hself.imp_left fun ⟨hin, harmed⟩ => ⟨?_, hin, harmed⟩⟩
  exact h.world.armed e.fd _ harmed hfile

/-- One subscription and one guard condition. -/
def twoEntities : Arrays
  | .subscription => [some 2]
  | .guardCondition => [some 1]
  | _ => []

/-- Both are created, and the guard condition is triggered.  The call then
finds a datagram in the socket of the subscription. -/
def twoEntitiesCall : List Act :=
  [.create 1 5 .guardCondition 0, .create 2 6 .subscription 10,
    .change 1 0 [] 1, .call twoEntities none false] ++
  List.replicate 12 (.run true) ++
  [.change 2 0 [true] 0, .epoll (.events [6])] ++
  List.replicate 8 (.run true)

end RmwUnixSocket.Wait
