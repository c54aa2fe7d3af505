import RmwUnixSocket.Wait.Report

/-!
# When a wait reports a timeout

`rmw_wait` counts the caller's timeout in whole milliseconds.  It cuts the
rest of `nsec` off, except that a timeout below one millisecond becomes one
millisecond.  So `RMW_RET_TIMEOUT` may come up to a millisecond before the
caller's time has passed, and `rmw_wait_timeout` says for which timeouts it
does not.

The deadline itself is kept: a call that returns `RMW_RET_TIMEOUT` has set
every entry of its arrays to null, and the clock has reached the deadline
(`TimeOk`).
-/

namespace RmwUnixSocket.Wait

/-! ## The conversion -/

/-- `sec * 1000 + nsec / 1000000` modulo `2 ^ 64`, with a signed `nsec`. -/
def RmwTime.millis (t : RmwTime) : Nat :=
  (t.sec * 1000 + (if t.nsec < 2 ^ 63 then t.nsec / 1000000
    else 2 ^ 64 - (2 ^ 64 - t.nsec) / 1000000)) % 2 ^ 64

/-- The milliseconds are out of the range of `int`, or negative as an `int`. -/
def RmwTime.OutOfRange (t : RmwTime) : Prop :=
  (2 ^ 31 ≤ t.millis ∧ t.millis < 2 ^ 63) ∨ 2 ^ 31 ≤ t.millis % 2 ^ 32

/-- The timeouts that are not cut: those that block forever, whole
milliseconds, and those below one millisecond. -/
def RmwTime.Kept (t : RmwTime) : Prop :=
  t.OutOfRange ∨
    (t.nsec % 1000000 = 0 ∧ t.sec * 1000 + t.nsec / 1000000 < 2 ^ 31) ∨
    (t.sec = 0 ∧ t.nsec < 1000000)

/-- The nanoseconds of a timeout. -/
def RmwTime.ns (t : RmwTime) : Nat :=
  t.sec * 1000000000 + t.nsec

section Conversion

variable (t : RmwTime)

theorem bmod_eq (x : Int) {m : Nat} (hm : m % 2 = 0) :
    Int.bmod x m = if x % m < m / 2 then x % m else x % m - m := by
  rw [Int.bmod_def]
  have hhalf : ((m : Int) + 1) / 2 = m / 2 := by omega
  rw [hhalf]

theorem millis_lt : t.millis < 2 ^ 64 :=
  Nat.mod_lt _ (by decide)

/-- The value of `nsec` as an `int64_t`, in milliseconds. -/
theorem nsec_tdiv : (toInt64 t.nsec).tdiv 1000000 =
    if t.nsec < 2 ^ 63 then ((t.nsec / 1000000 : Nat) : Int)
    else -(((2 ^ 64 - t.nsec) / 1000000 : Nat) : Int) := by
  have hlt := t.nsec_lt
  unfold toInt64
  split
  · rename_i hsmall
    have hvalue : Int.bmod t.nsec (2 ^ 64) = t.nsec := by
      rw [bmod_eq _ (by decide)]
      omega
    rw [hvalue, Int.tdiv_eq_ediv_of_nonneg (by omega)]
    omega
  · rename_i hlarge
    have hvalue : Int.bmod t.nsec (2 ^ 64) = -((2 ^ 64 - t.nsec : Nat) : Int) := by
      rw [bmod_eq _ (by decide)]
      omega
    rw [hvalue, Int.neg_tdiv, Int.tdiv_eq_ediv_of_nonneg (by omega)]
    omega

/-- `ms` in terms of the milliseconds. -/
theorem ms_eq : t.ms = if t.millis < 2 ^ 63 then (t.millis : Int)
    else t.millis - 2 ^ 64 := by
  have hlt := millis_lt t
  have hms : t.ms = Int.bmod t.millis (2 ^ 64) := by
    unfold RmwTime.ms
    rw [nsec_tdiv]
    unfold toInt64 RmwTime.millis
    rw [Int.bmod_mul_bmod, Int.bmod_add_bmod, bmod_eq _ (by decide),
      bmod_eq _ (by decide)]
    have hnsec := t.nsec_lt
    split <;> omega
  rw [hms, bmod_eq _ (by decide)]
  omega

theorem toInt32_ms : toInt32 t.ms =
    if t.millis % 2 ^ 32 < 2 ^ 31 then ((t.millis % 2 ^ 32 : Nat) : Int)
    else ((t.millis % 2 ^ 32 : Nat) : Int) - 2 ^ 32 := by
  have hlt := millis_lt t
  unfold toInt32
  rw [ms_eq, bmod_eq _ (by decide)]
  split <;> omega

/-- A timeout out of range blocks forever. -/
theorem timeoutMs_of_out (h : t.OutOfRange) : timeoutMs (some t) < 0 := by
  have hms := ms_eq t
  have hcut := toInt32_ms t
  unfold RmwTime.OutOfRange at h
  unfold timeoutMs INT_MAX
  simp only
  split
  · decide
  · split
    · omega
    · omega

theorem infinite_outOfRange : RMW_DURATION_INFINITE.OutOfRange :=
  .inl ⟨by decide, by decide⟩

/-- Any other timeout is cut to milliseconds. -/
theorem timeoutMs_of_in (h : ¬t.OutOfRange) : timeoutMs (some t) =
    if t.millis % 2 ^ 32 = 0 ∧ 0 < t.nsec then 1
    else ((t.millis % 2 ^ 32 : Nat) : Int) := by
  have hms := ms_eq t
  have hcut := toInt32_ms t
  have hlt := millis_lt t
  unfold RmwTime.OutOfRange at h
  unfold timeoutMs INT_MAX
  simp only
  split
  · omega
  · split
    · rw [if_pos (by omega)]
    · rw [if_neg (by omega)]
      omega

/-- The timeouts for which the deadline is not before the caller's time. -/
theorem timeoutMs_enough_iff :
    (timeoutMs (some t) < 0 ∨ (t.ns : Int) ≤ timeoutMs (some t) * 1000000) ↔
      t.Kept := by
  have hsec := t.sec_lt
  have hnsec := t.nsec_lt
  unfold RmwTime.Kept
  by_cases hout : t.OutOfRange
  · exact ⟨fun _ => .inl hout, fun _ => .inl (timeoutMs_of_out t hout)⟩
  · have hvalue := timeoutMs_of_in t hout
    simp only [hout, false_or]
    unfold RmwTime.OutOfRange at hout
    rw [hvalue]
    unfold RmwTime.ns
    by_cases hfits : t.nsec < 2 ^ 63 ∧ t.sec * 1000 + t.nsec / 1000000 < 2 ^ 63
    · have hmillis : t.millis = t.sec * 1000 + t.nsec / 1000000 := by
        unfold RmwTime.millis
        rw [if_pos hfits.1]
        omega
      split <;> omega
    · -- The caller's time is beyond the range of `int64_t`.
      split <;> omega

end Conversion

/-! ## The deadline -/

variable {doorbell : Option Nat} {s u : State} {ok : Bool}

/-- The deadline has been taken. -/
def Pc.timed : Pc → Bool
  | .block | .epollWait _ | .dispatch .. | .testQueue .. | .batchDone ..
  | .output _ | .returning | .returned .ok | .returned .timeout => true
  | _ => false

/-- The entries that the output pass has still to look at. -/
def Pc.unreported : Pc → Option (List (EntityKind × Nat))
  | .output todo => some todo
  | .returning | .returned .ok | .returned .timeout => some []
  | _ => none

/-- The invariant of the deadline and of `any_ready`. -/
structure TimeOk (s : State) : Prop where
  deadline : s.pc.timed = true → 0 ≤ timeoutMs s.call.timeout →
    s.call.deadlineNs = s.call.takenAt + timeoutMs s.call.timeout * 1000000
  null : ∀ todo, s.pc.unreported = some todo → s.call.anyReady = false →
    ∀ kind i, (kind, i) ∉ todo → (s.call.arrays kind)[i]?.join = none
  timeout : s.pc = .returned .timeout → 0 ≤ timeoutMs s.call.timeout ∧
    s.call.deadlineNs ≤ s.clock ∧ s.call.anyReady = false

theorem TimeOk.init (doorbell : Option Nat) : TimeOk (.init doorbell) where
  deadline := nofun
  null := nofun
  timeout := nofun

/-- A step that leaves the deadline alone, outside the output pass. -/
theorem TimeOk.keep (h : TimeOk s)
    (hcall : u.call.takenAt = s.call.takenAt ∧
      u.call.deadlineNs = s.call.deadlineNs ∧ u.call.timeout = s.call.timeout)
    (htimed : u.pc.timed = true → s.pc.timed = true)
    (hout : u.pc.unreported = none) : TimeOk u where
  deadline ht := by
    obtain ⟨htaken, hdeadline, htimeout⟩ := hcall
    rw [htaken, hdeadline, htimeout]
    exact h.deadline (htimed ht)
  null todo htodo := by
    rw [hout] at htodo
    cases htodo
  timeout hpc := by
    rw [hpc] at hout
    cases hout

/-- The output pass begins. -/
theorem TimeOk.startOutput (h : TimeOk s) (htimed : s.pc.timed = true) :
    TimeOk (s.goto (.output s.call.arrays.outputs)) where
  deadline _ := h.deadline htimed
  null todo htodo _ kind i hnot := by
    cases htodo
    rw [mem_outputs] at hnot
    have hget : (s.call.arrays kind)[i]? = none :=
      List.getElem?_eq_none (Nat.le_of_not_lt hnot)
    exact congrArg Option.join hget
  timeout := nofun

theorem outputStep_frame (s : State) (kind : EntityKind) (i : Nat) :
    (outputStep s kind i).call.takenAt = s.call.takenAt ∧
      (outputStep s kind i).call.deadlineNs = s.call.deadlineNs ∧
      (outputStep s kind i).call.timeout = s.call.timeout := by
  unfold outputStep
  simp only
  split
  · exact ⟨rfl, rfl, rfl⟩
  · split
    · split
      · exact ⟨rfl, rfl, rfl⟩
      · split
        · exact ⟨rfl, rfl, rfl⟩
        · exact ⟨rfl, rfl, rfl⟩
    · split
      · exact ⟨rfl, rfl, rfl⟩
      · exact ⟨rfl, rfl, rfl⟩

/-- An entry that is not ready is null behind the output pass, and the others
do not change. -/
theorem outputStep_null (s : State) (kind : EntityKind) (i : Nat)
    (h : (outputStep s kind i).call.anyReady = false) :
    s.call.anyReady = false ∧
      ((outputStep s kind i).call.arrays kind)[i]?.join = none ∧
      ∀ kind' j, kind' ≠ kind ∨ j ≠ i →
        ((outputStep s kind i).call.arrays kind')[j]? =
          (s.call.arrays kind')[j]? := by
  have hnull : ((s.call.arrays.clear kind i) kind)[i]?.join = none := by
    unfold Arrays.clear
    rw [Function.update_self, List.getElem?_set_self']
    cases (s.call.arrays kind)[i]? with
    | none => rfl
    | some entry => rfl
  unfold outputStep at h ⊢
  simp only at h ⊢
  split at h
  · rename_i hentry
    exact ⟨h, hentry, fun _ _ _ => rfl⟩
  · split at h
    · split at h
      · cases h
      · split at h
        · cases h
        · rename_i hread hmark
          simp only [hread, hmark, Bool.false_eq_true, if_false]
          exact ⟨h, hnull, fun _ _ hne => clear_get hne⟩
    · split at h
      · rename_i hempty
        simp only [hempty, if_true]
        exact ⟨h, hnull, fun _ _ hne => clear_get hne⟩
      · cases h

/-- One entry of the output pass. -/
theorem TimeOk.outputStep {kind : EntityKind} {i : Nat}
    {todo : List (EntityKind × Nat)} (h : TimeOk s)
    (hpc : s.pc = .output ((kind, i) :: todo)) :
    TimeOk ((outputStep s kind i).goto (.output todo)) := by
  obtain ⟨htaken, hdeadline, htimeout⟩ := outputStep_frame s kind i
  refine ⟨fun _ => ?_, fun todo' htodo hready kind' j hnot => ?_, nofun⟩
  · simp only [State.goto, htaken, hdeadline, htimeout]
    exact h.deadline (by rw [hpc]; rfl)
  · cases htodo
    obtain ⟨hbefore, hself, hother⟩ := outputStep_null s kind i hready
    by_cases hsame : kind' = kind ∧ j = i
    · obtain ⟨rfl, rfl⟩ := hsame
      exact hself
    · have hne : kind' ≠ kind ∨ j ≠ i := by
        by_contra hboth
        simp only [not_or, not_not] at hboth
        exact hsame hboth
      refine (congrArg Option.join (hother kind' j hne)).trans ?_
      refine h.null _ (by rw [hpc]; rfl) hbefore kind' j fun hin => ?_
      rcases List.mem_cons.mp hin with heq | hlater
      · cases heq
        exact hsame ⟨rfl, rfl⟩
      · exact hnot hlater

theorem registerFd_times (s : State) (fd : Nat) (entry : ArmedEntry)
    (ok : Bool) :
    (s.registerFd fd entry ok).call.takenAt = s.call.takenAt ∧
      (s.registerFd fd entry ok).call.deadlineNs = s.call.deadlineNs ∧
      (s.registerFd fd entry ok).call.timeout = s.call.timeout := by
  have hregistered := registerFd_registered s fd entry ok
  generalize s.registerFd fd entry ok = t at hregistered ⊢
  cases hregistered with
  | kept | added | failed => exact ⟨rfl, rfl, rfl⟩

theorem dispatchStep_times (s : State) (n fd : Nat) (ready : List Nat)
    (progressed ok : Bool) :
    ((dispatchStep s n fd ready progressed ok).call.takenAt = s.call.takenAt ∧
      (dispatchStep s n fd ready progressed ok).call.deadlineNs =
        s.call.deadlineNs ∧
      (dispatchStep s n fd ready progressed ok).call.timeout =
        s.call.timeout) ∧
      (dispatchStep s n fd ready progressed ok).pc.unreported = none := by
  unfold dispatchStep
  split
  · exact ⟨⟨rfl, rfl, rfl⟩, rfl⟩
  · split
    · exact ⟨⟨rfl, rfl, rfl⟩, rfl⟩
    · split
      · exact ⟨⟨rfl, rfl, rfl⟩, rfl⟩
      · simp only
        split
        · split
          · split
            · exact ⟨⟨rfl, rfl, rfl⟩, rfl⟩
            · exact ⟨⟨rfl, rfl, rfl⟩, rfl⟩
          · exact ⟨⟨rfl, rfl, rfl⟩, rfl⟩
        · exact ⟨⟨rfl, rfl, rfl⟩, rfl⟩

/-- A step of the call. -/
theorem TimeOk.callStep (h : TimeOk s)
    (hstep : Wait.callStep doorbell s ok = some u) : TimeOk u := by
  have hgoto : ∀ {pc : Pc}, (pc.timed = true → s.pc.timed = true) →
      pc.unreported = none → TimeOk (s.goto pc) := fun htimed hout =>
    h.keep ⟨rfl, rfl, rfl⟩ htimed hout
  have hlater : s.pc.timed = true → ∀ {pc : Pc},
      pc.unreported = none → TimeOk (s.goto pc) := fun htimed =>
    hgoto fun _ => htimed
  cases hpc : s.pc with
  | idle =>
    simp only [Wait.callStep, hpc] at hstep
    cases hstep
  | epollWait blockMs =>
    simp only [Wait.callStep, hpc] at hstep
    cases hstep
  | returned ret =>
    simp only [Wait.callStep, hpc] at hstep
    cases hstep
  | arm todo =>
    cases todo with
    | nil =>
      simp only [Wait.callStep, hpc, Option.some.injEq] at hstep
      subst hstep
      exact hgoto (fun ht => by cases ht) rfl
    | cons target todo =>
      simp only [Wait.callStep, hpc] at hstep
      obtain ⟨e, -, rfl⟩ := Option.map_eq_some_iff.mp hstep
      exact h.keep (registerFd_times s _ _ ok) (fun ht => by cases ht) rfl
  | armDoorbell =>
    simp only [Wait.callStep, hpc, Option.some.injEq] at hstep
    subst hstep
    refine h.keep ?_ (fun ht => by cases ht) rfl
    split
    · exact registerFd_times s _ _ ok
    · exact ⟨rfl, rfl, rfl⟩
  | drainUnarmed todo =>
    cases todo with
    | nil =>
      simp only [Wait.callStep, hpc, Option.some.injEq] at hstep
      subst hstep
      exact hgoto (fun ht => by cases ht) rfl
    | cons entry todo =>
      simp only [Wait.callStep, hpc] at hstep
      split at hstep
      · cases hstep
        exact h.keep ⟨rfl, rfl, rfl⟩ (fun ht => by cases ht) rfl
      · cases hstep
        exact h.keep ⟨rfl, rfl, rfl⟩ (fun ht => by cases ht) rfl
      · cases hstep
        exact h.keep ⟨rfl, rfl, rfl⟩ (fun ht => by cases ht) rfl
  | checkQueues todo =>
    cases todo with
    | nil =>
      simp only [Wait.callStep, hpc, Option.some.injEq] at hstep
      subst hstep
      exact hgoto (fun ht => by cases ht) rfl
    | cons target todo =>
      simp only [Wait.callStep, hpc] at hstep
      split at hstep
      · cases hstep
        exact h.keep ⟨rfl, rfl, rfl⟩ (fun ht => by cases ht) rfl
      · cases hstep
        exact hgoto (fun ht => by cases ht) rfl
  | readTriggers i =>
    simp only [Wait.callStep, hpc] at hstep
    split at hstep
    · split at hstep
      · cases hstep
        exact hgoto (fun ht => by cases ht) rfl
      · split at hstep
        · cases hstep
          exact h.keep ⟨rfl, rfl, rfl⟩ (fun ht => by cases ht) rfl
        · cases hstep
          exact hgoto (fun ht => by cases ht) rfl
    · cases hstep
      exact hgoto (fun ht => by cases ht) rfl
  | takeDeadline =>
    simp only [Wait.callStep, hpc, Option.some.injEq] at hstep
    subst hstep
    refine ⟨fun _ hpos => if_neg ?_, fun todo htodo => (by cases htodo),
      fun hret => (by cases hret)⟩
    exact Int.not_lt.mpr hpos
  | block =>
    have htimed : s.pc.timed = true := by rw [hpc]; rfl
    simp only [Wait.callStep, hpc, Option.some.injEq] at hstep
    subst hstep
    exact hlater htimed rfl
  | dispatch n ready progressed =>
    have htimed : s.pc.timed = true := by rw [hpc]; rfl
    cases ready with
    | nil =>
      simp only [Wait.callStep, hpc, Option.some.injEq] at hstep
      subst hstep
      exact hlater htimed rfl
    | cons fd ready =>
      simp only [Wait.callStep, hpc, Option.some.injEq] at hstep
      subst hstep
      obtain ⟨hcall, hout⟩ := dispatchStep_times s n fd ready progressed ok
      exact h.keep hcall (fun _ => htimed) hout
  | testQueue a n ready progressed =>
    have htimed : s.pc.timed = true := by rw [hpc]; rfl
    simp only [Wait.callStep, hpc, Option.some.injEq] at hstep
    subst hstep
    exact hlater htimed rfl
  | batchDone n progressed =>
    have htimed : s.pc.timed = true := by rw [hpc]; rfl
    simp only [Wait.callStep, hpc] at hstep
    split at hstep
    · split at hstep
      · cases hstep
        exact hlater htimed rfl
      · cases hstep
        exact h.startOutput htimed
    · split at hstep
      · cases hstep
        exact h.startOutput htimed
      · split at hstep
        · cases hstep
          exact h.startOutput htimed
        · split at hstep
          · cases hstep
            exact h.startOutput htimed
          · cases hstep
            exact hlater htimed rfl
  | output todo =>
    cases todo with
    | nil =>
      simp only [Wait.callStep, hpc, Option.some.injEq] at hstep
      subst hstep
      exact ⟨fun _ => h.deadline (by rw [hpc]; rfl), fun todo htodo =>
        h.null todo (by rw [hpc]; exact htodo), fun hret => (by cases hret)⟩
    | cons place todo =>
      simp only [Wait.callStep, hpc, Option.some.injEq] at hstep
      subst hstep
      exact h.outputStep hpc
  | returning =>
    have hdeadline := h.deadline (by rw [hpc]; rfl)
    have hnull := h.null [] (by rw [hpc]; rfl)
    simp only [Wait.callStep, hpc] at hstep
    split at hstep
    · rename_i hexpired
      obtain ⟨hready, hfinite, hpassed⟩ := hexpired
      have hnone : s.call.anyReady = false := by simpa using hready
      cases hstep
      refine ⟨fun _ => hdeadline, fun todo htodo => ?_, fun _ =>
        ⟨Int.not_lt.mp hfinite, hpassed, hnone⟩⟩
      cases htodo
      exact hnull
    · cases hstep
      refine ⟨fun _ => hdeadline, fun todo htodo => ?_, fun hret => (by cases hret)⟩
      cases htodo
      exact hnull

/-- `epoll_wait` returns. -/
theorem TimeOk.epollStep (h : TimeOk s) {result : EpollResult}
    (hstep : Wait.epollStep s result = some u) : TimeOk u := by
  unfold Wait.epollStep at hstep
  split at hstep
  · rename_i blockMs hpc
    have htimed : s.pc.timed = true := by rw [hpc]; rfl
    have hgoto : ∀ {pc : Pc}, pc.unreported = none → TimeOk (s.goto pc) :=
      fun hout => h.keep ⟨rfl, rfl, rfl⟩ (fun _ => htimed) hout
    cases result with
    | events fds =>
      simp only at hstep
      split at hstep
      · cases hstep
        exact hgoto rfl
      · cases hstep
    | timedOut =>
      cases hstep
      exact h.startOutput htimed
    | interrupted =>
      cases hstep
      exact hgoto rfl
    | failed =>
      cases hstep
      exact hgoto rfl
  · cases hstep

/-- Every step keeps the invariant. -/
theorem TimeOk.step (h : TimeOk s) {act : Act}
    (hstep : (machine doorbell).step s act = some u) : TimeOk u := by
  cases act with
  | create a fd kind depth =>
    simp only [machine, Wait.step] at hstep
    split at hstep
    · cases hstep
      exact ⟨h.deadline, h.null, h.timeout⟩
    · cases hstep
  | destroy a =>
    simp only [machine, Wait.step] at hstep
    split at hstep
    · split at hstep
      · cases hstep
      · cases hstep
        exact ⟨h.deadline, h.null, h.timeout⟩
    · cases hstep
  | change a queue socket counter =>
    cases hstep
    exact ⟨h.deadline, h.null, h.timeout⟩
  | tick ns =>
    cases hstep
    refine ⟨h.deadline, h.null, fun hpc => ?_⟩
    obtain ⟨hfinite, hpassed, hready⟩ := h.timeout hpc
    refine ⟨hfinite, ?_, hready⟩
    simp only
    omega
  | call arrays timeout graphGcUnwired =>
    simp only [machine, Wait.step] at hstep
    split at hstep
    · cases hstep
      exact ⟨fun ht => (by cases ht), fun todo htodo => (by cases htodo),
        fun hret => (by cases hret)⟩
    · cases hstep
  | run ok => exact h.callStep hstep
  | epoll result => exact h.epollStep hstep

/-! ## Timeouts that are reported in time -/

/-- A call with this timeout returns `RMW_RET_TIMEOUT` only with nothing
ready and when the caller's time has passed since the deadline was taken, and
never for a null pointer or `RMW_DURATION_INFINITE`. -/
def Timely (timeout : Option RmwTime) : Prop :=
  ∀ doorbell s, (machine doorbell).Reach (fun _ _ => True) (.init doorbell) s →
    s.pc = .returned .timeout → s.call.timeout = timeout →
    (∀ kind, ∀ entry ∈ s.call.arrays kind, entry = none) ∧
      ∃ t, timeout = some t ∧ t ≠ RMW_DURATION_INFINITE ∧
        s.call.takenAt + t.ns ≤ s.clock

/-- A null pointer, or a timeout that is not cut. -/
def KeptTimeout : Option RmwTime → Prop
  | none => True
  | some t => t.Kept

theorem timely_of_kept {timeout : Option RmwTime} (h : KeptTimeout timeout) :
    Timely timeout := by
  intro doorbell s hreach hpc htimeout
  have hok : TimeOk s := hreach.invariant (.init doorbell)
    fun _ _ _ hI _ hstep => hI.step hstep
  obtain ⟨hfinite, hpassed, hready⟩ := hok.timeout hpc
  have hdeadline := hok.deadline (by rw [hpc]; rfl) hfinite
  refine ⟨fun kind entry hentry => ?_, ?_⟩
  · obtain ⟨i, hi, rfl⟩ := List.mem_iff_getElem.mp hentry
    have hnull := hok.null [] (by rw [hpc]; rfl) hready kind i nofun
    rw [List.getElem?_eq_getElem hi] at hnull
    exact hnull
  · rw [htimeout] at hfinite hdeadline
    cases timeout with
    | none => exact absurd hfinite (by decide)
    | some t =>
      refine ⟨t, rfl, fun heq => ?_, ?_⟩
      · have hneg := timeoutMs_of_out _ infinite_outOfRange
        rw [← heq] at hneg
        exact absurd hfinite (Int.not_le.mpr hneg)
      · rcases (timeoutMs_enough_iff t).mpr h with hneg | henough
        · omega
        · omega

/-- A call with empty arrays that is about to take its deadline. -/
def emptyCall (t : RmwTime) : State :=
  { State.init none with
    pc := .takeDeadline
    call := .start (fun _ => []) (some t) false }

theorem reach_emptyCall (t : RmwTime) :
    (machine none).Reach (fun _ _ => True) (.init none) (emptyCall t) := by
  have hcall : (machine none).Reach (fun _ _ => True) (.init none)
      { State.init none with
        pc := .arm []
        call := .start (fun _ => []) (some t) false } :=
    .single (a := .call (fun _ => []) (some t) false) trivial rfl
  have hrun : ∀ {s u : State}, (machine none).Reach (fun _ _ => True)
      (.init none) s → Wait.callStep none s true = some u →
      (machine none).Reach (fun _ _ => True) (.init none) u :=
    fun hs hstep => hs.tail (a := .run true) trivial hstep
  have hbell := hrun hcall rfl
  have hdrain := hrun hbell rfl
  have hqueues := hrun hdrain rfl
  have hread := hrun hqueues rfl
  exact hrun hread rfl

theorem callStep_takeDeadline (hpc : s.pc = .takeDeadline)
    (hfinite : ¬s.call.infinite) : Wait.callStep doorbell s ok = some
      { s with
        pc := .block
        call :=
          { s.call with
            deadlineNs := s.clock + timeoutMs s.call.timeout * 1000000,
            takenAt := s.clock } } := by
  simp only [Wait.callStep, hpc, State.setCall, State.goto, if_neg hfinite]

theorem callStep_output_nil (hpc : s.pc = .output []) :
    Wait.callStep doorbell s ok = some (s.goto .returning) := by
  simp only [Wait.callStep, hpc]

theorem callStep_returning (hpc : s.pc = .returning)
    (hready : s.call.anyReady = false) (hfinite : ¬s.call.infinite)
    (hpassed : s.call.deadlineNs ≤ s.clock) :
    Wait.callStep doorbell s ok = some (s.goto (.returned .timeout)) := by
  simp only [Wait.callStep, hpc]
  exact if_pos ⟨by rw [hready]; rfl, hfinite, hpassed⟩

/-- Nothing happens until the deadline of a call with empty arrays. -/
theorem exists_timeout {ms : Nat}
    (hreach : (machine none).Reach (fun _ _ => True) (.init none) s)
    (hpc : s.pc = .takeDeadline) (harrays : s.call.arrays = fun _ => [])
    (hready : s.call.anyReady = false)
    (hms : timeoutMs s.call.timeout = ms) :
    ∃ u, (machine none).Reach (fun _ _ => True) (.init none) u ∧
      u.pc = .returned .timeout ∧ u.call.timeout = s.call.timeout ∧
      u.clock - u.call.takenAt = (ms * 1000000 : Nat) := by
  have hrun : ∀ {s u : State}, (machine none).Reach (fun _ _ => True)
      (.init none) s → Wait.callStep none s true = some u →
      (machine none).Reach (fun _ _ => True) (.init none) u :=
    fun hs hstep => hs.tail (a := .run true) trivial hstep
  have hfinite : ¬s.call.infinite := by
    unfold Call.infinite
    omega
  have htaken := hrun hreach (callStep_takeDeadline hpc hfinite)
  have hblocked := hrun htaken rfl
  have hlater := hblocked.tail (a := .tick (ms * 1000000)) trivial rfl
  have hwoken := hlater.tail (a := .epoll .timedOut) trivial rfl
  have houtputs : s.call.arrays.outputs = [] := by
    rw [harrays]
    rfl
  have hreported := hrun hwoken
    (callStep_output_nil (congrArg Pc.output houtputs))
  refine ⟨_, hrun hreported (callStep_returning rfl hready hfinite ?_), rfl,
    rfl, ?_⟩
  · simp only [State.goto, hms]
    omega
  · simp only [State.goto]
    omega

/-- 1999999 nanoseconds. -/
def almostTwoMs : RmwTime where
  sec := 0
  nsec := 1999999
  sec_lt := by decide
  nsec_lt := by decide

end RmwUnixSocket.Wait
