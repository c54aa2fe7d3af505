import Mathlib.Logic.Function.Basic
import RmwUnixSocket.Lib.Machine

/-!
# Doorbells

The generation check of `rmw_wait` and `ring_doorbells`.  Any number of
threads of one context wait, and any number of mutators change the registry.

* A mutation changes its slot in one step, bumps the generation, and rings.
  A sweep may change and bump several times before it rings.
* Of the slots there is the one of this context's doorbell: whether it is
  published (`slot`) and whether `high_water_slot` covers it (`high`).  The
  ring is over for this context when it has looked at that slot.
* `sendto` queues an octet, or it fails because octets are queued.
* A thread waits for guard conditions, and those in `gcs` are the graph guard
  conditions of the context.
* The generation is a 64-bit counter that does not wrap.

`rung` and `triggeredAt` are ghosts: the last generation of a mutation that
has rung, and the generation when a guard condition was triggered last.

The lost wakeup that the two orders rule out is the permanent one
(`doorbell_delivers`).  Between the drain of one thread and its triggers, no
octet and no trigger may be left for another thread that is blocked
(`doorbell_in_transit`).
-/

namespace RmwUnixSocket.Wait.Doorbell

/-! ## The machine -/

/-- Where `run_generation_check` is. -/
inductive CheckPc (G : Type)
  | drain
  | load
  | compare (gen : Nat)
  | store (gen : Nat)
  | trigger (todo : List G)
  deriving DecidableEq

/-- Where the lazy registration is. -/
inductive RegisterPc
  | publish
  | raise
  | bump
  | latch
  deriving DecidableEq

/-- What follows the generation check: the arming of the wait set, or the
decision after a batch of events. -/
inductive Next
  | arm
  | decide (progressed polling : Bool)
  deriving DecidableEq

/-- Where a thread is.  `wants` are the guard conditions of its arrays. -/
inductive Pc (G : Type)
  | idle
  | start (wants : List G)
  | lock (wants : List G)
  | register (wants : List G) (pc : RegisterPc)
  | check (wants : List G) (pc : CheckPc G) (next : Next)
  | scan (wants todo : List G) (ready : Bool)
  | epollWait (wants : List G) (polling : Bool)
  | dispatch (wants todo : List G) (rang progressed polling : Bool)
  | decide (wants : List G) (progressed polling : Bool)
  | output (wants todo : List G)
  deriving DecidableEq

/-- Where a mutator is.  `gen` is the generation of its last bump, and
`covered` whether the high water that it has loaded covers the doorbell. -/
inductive MutatorPc
  | idle
  | changed
  | bumped (gen : Nat)
  | ringing (gen : Nat) (covered : Bool)
  deriving DecidableEq

/-- The context, its threads and the registry. -/
structure State (T M G : Type) where
  generation : Nat
  slot : Bool
  high : Bool
  octets : Nat
  last : Nat
  registered : Bool
  mutex : Option T
  readable : G → Bool
  threads : T → Pc G
  mutators : M → MutatorPc
  rung : Nat
  triggeredAt : G → Nat

namespace State

variable {T M G : Type}

/-- `rmw_init`, with the generation that it has loaded. -/
def init (T M G : Type) (gen : Nat) : State T M G where
  generation := gen
  slot := false
  high := false
  octets := 0
  last := gen
  registered := false
  mutex := none
  readable := fun _ => false
  threads := fun _ => .idle
  mutators := fun _ => .idle
  rung := gen
  triggeredAt := fun _ => gen

variable (s : State T M G)

/-- A thread goes on. -/
def goto [DecidableEq T] (t : T) (pc : Pc G) : State T M G :=
  { s with threads := Function.update s.threads t pc }

/-- A mutator goes on. -/
def mutatorGoto [DecidableEq M] (m : M) (pc : MutatorPc) : State T M G :=
  { s with mutators := Function.update s.mutators m pc }

/-- `rmw_trigger_guard_condition`. -/
def trigger [DecidableEq G] (g : G) : State T M G :=
  { s with
    readable := Function.update s.readable g true,
    triggeredAt := Function.update s.triggeredAt g s.generation }

/-- A read of the eventfd. -/
def read [DecidableEq G] (g : G) : State T M G :=
  { s with readable := Function.update s.readable g false }

end State

/-- A step. -/
inductive Act (T M G : Type)
  | call (t : T) (wants : List G)
  | thread (t : T) (more : Bool)
  | wake (t : T) (rang : Bool) (ready : List G)
  | expire (t : T)
  | change (m : M)
  | bump (m : M)
  | ring (m : M)
  | look (m : M) (queued : Bool)

section Step

variable {T M G : Type} [DecidableEq T] [DecidableEq M] [DecidableEq G]

/-- One step of the lazy registration.  Registering rings nobody. -/
def registerStep (s : State T M G) (t : T) (wants : List G) :
    RegisterPc → State T M G
  | .publish => { s with slot := true }.goto t (.register wants .raise)
  | .raise => { s with high := true }.goto t (.register wants .bump)
  | .bump =>
    { s with generation := s.generation + 1 }.goto t (.register wants .latch)
  | .latch =>
    { s with registered := true, mutex := none }.goto t
      (.check wants .drain .arm)

/-- The thread after its generation check. -/
def Next.pc (wants : List G) : Next → Pc G
  | .arm => .scan wants wants false
  | .decide progressed polling => .decide wants progressed polling

/-- One step of `run_generation_check`. -/
def checkStep (gcs : List G) (s : State T M G) (t : T) (wants : List G)
    (next : Next) : CheckPc G → State T M G
  | .drain =>
    if s.octets = 0 then s.goto t (.check wants .load next)
    else { s with octets := s.octets - 1 }
  | .load => s.goto t (.check wants (.compare s.generation) next)
  | .compare gen =>
    if gen ≠ s.last then s.goto t (.check wants (.store gen) next)
    else s.goto t (next.pc wants)
  | .store gen =>
    { s with last := gen }.goto t (.check wants (.trigger gcs) next)
  | .trigger [] => s.goto t (next.pc wants)
  | .trigger (g :: todo) =>
    (s.trigger g).goto t (.check wants (.trigger todo) next)

/-- One step of a thread, other than a return of `epoll_wait`.  `more` tells
whether a wait that has found nothing blocks again. -/
def threadStep (gcs : List G) (s : State T M G) (t : T) (more : Bool) :
    Option (State T M G) :=
  match s.threads t with
  | .start wants =>
    if !s.registered ∧ ∃ g ∈ wants, g ∈ gcs then
      some (s.goto t (.lock wants))
    else some (s.goto t (.check wants .drain .arm))
  | .lock wants =>
    match s.mutex with
    | none =>
      if s.registered then some (s.goto t (.check wants .drain .arm))
      else some ({ s with mutex := some t }.goto t (.register wants .publish))
    | some _ => none
  | .register wants pc => some (registerStep s t wants pc)
  | .check wants pc next => some (checkStep gcs s t wants next pc)
  | .scan wants [] ready => some (s.goto t (.epollWait wants ready))
  | .scan wants (g :: todo) ready =>
    if s.readable g then some ((s.read g).goto t (.scan wants todo true))
    else some (s.goto t (.scan wants todo ready))
  | .dispatch wants [] rang progressed polling =>
    if rang then
      some (s.goto t (.check wants .drain (.decide progressed polling)))
    else some (s.goto t (.decide wants progressed polling))
  | .dispatch wants (g :: todo) rang progressed polling =>
    if s.readable g then
      some ((s.read g).goto t (.dispatch wants todo rang true polling))
    else some (s.goto t (.dispatch wants todo rang progressed polling))
  | .decide wants progressed polling =>
    if more ∧ (polling ∨ !progressed) then
      some (s.goto t (.epollWait wants polling))
    else some (s.goto t (.output wants wants))
  | .output _ [] => some (s.goto t .idle)
  | .output wants (g :: todo) => some ((s.read g).goto t (.output wants todo))
  | .idle | .epollWait _ _ => none

/-- One step. -/
def step (gcs : List G) (s : State T M G) : Act T M G → Option (State T M G)
  | .call t wants =>
    match s.threads t with
    | .idle => some (s.goto t (.start wants))
    | _ => none
  | .thread t more => threadStep gcs s t more
  | .wake t rang ready =>
    match s.threads t with
    | .epollWait wants polling =>
      if (rang ∨ ready ≠ []) ∧ (rang → 0 < s.octets) ∧
          ∀ g ∈ ready, g ∈ wants ∧ s.readable g then
        some (s.goto t (.dispatch wants ready rang false polling))
      else none
    | _ => none
  | .expire t =>
    match s.threads t with
    | .epollWait wants _ => some (s.goto t (.output wants wants))
    | _ => none
  | .change m =>
    match s.mutators m with
    | .idle | .bumped _ => some (s.mutatorGoto m .changed)
    | _ => none
  | .bump m =>
    match s.mutators m with
    | .changed =>
      some
        ({ s with generation := s.generation + 1 }.mutatorGoto m
          (.bumped (s.generation + 1)))
    | _ => none
  | .ring m =>
    match s.mutators m with
    | .bumped gen => some (s.mutatorGoto m (.ringing gen s.high))
    | _ => none
  | .look m queued =>
    match s.mutators m with
    | .ringing gen covered =>
      let t := { s with rung := max s.rung gen }.mutatorGoto m .idle
      if covered ∧ s.slot then
        if queued then some { t with octets := t.octets + 1 }
        else if 0 < s.octets then some t
        else none
      else some t
    | _ => none

/-- The doorbell as a machine. -/
def machine (T M : Type) [DecidableEq T] [DecidableEq M] (gcs : List G) :
    Machine (State T M G) (Act T M G) where
  step := step gcs

end Step

/-! ## The invariant -/

section Invariant

variable {T M G : Type} {gcs : List G} {s u : State T M G} {g : G}
  {gen gen' : Nat} {t : T}

/-- The thread has still to load the generation, or has loaded one that is not
before `gen`, or has still to trigger `g`. -/
def Pc.Answers (g : G) (gen : Nat) : Pc G → Prop
  | .check _ .drain _ | .check _ .load _ => True
  | .check _ (.compare loaded) _ | .check _ (.store loaded) _ => gen ≤ loaded
  | .check _ (.trigger todo) _ => g ∈ todo
  | _ => False

/-- The mutation of generation `gen` reaches `g`: `g` was triggered since,
an octet is queued, or a thread answers for it. -/
def State.Owed (s : State T M G) (g : G) (gen : Nat) : Prop :=
  gen ≤ s.triggeredAt g ∨ 0 < s.octets ∨ ∃ t, (s.threads t).Answers g gen

/-- A thread has still to trigger `g`. -/
def State.Triggering (s : State T M G) (g : G) : Prop :=
  ∃ t wants todo next, s.threads t = .check wants (.trigger todo) next ∧
    g ∈ todo

/-- The doorbell's slot, by where a registering thread is. -/
def RegisterPc.Done (slot high : Bool) : RegisterPc → Prop
  | .publish => True
  | .raise => slot = true
  | .bump | .latch => high = true

/-- The thread has passed the lazy registration. -/
def Pc.wired : Pc G → List G
  | .check wants _ _ | .scan wants _ _ | .epollWait wants _
  | .dispatch wants _ _ _ _ | .decide wants _ _ | .output wants _ => wants
  | _ => []

/-- What is known about a thread. -/
structure ThreadOk (gcs : List G) (s : State T M G) (t : T) : Prop where
  loaded : ∀ wants next gen, (s.threads t = .check wants (.compare gen) next ∨
    s.threads t = .check wants (.store gen) next) → gen ≤ s.generation
  register : ∀ wants pc, s.threads t = .register wants pc → pc.Done s.slot s.high
  wired : ∀ g ∈ (s.threads t).wired, g ∈ gcs → s.registered = true

/-- What is known about a mutator. -/
structure MutatorOk (gcs : List G) (s : State T M G) (m : M) : Prop where
  bumped : ∀ gen, s.mutators m = .bumped gen → gen ≤ s.generation
  ringing : ∀ gen covered, s.mutators m = .ringing gen covered →
    gen ≤ s.generation ∧ (covered = true → s.high = true)
  missed : s.registered = true → ∀ gen, s.mutators m = .ringing gen false →
    ∀ g ∈ gcs, s.Owed g gen

/-- The invariant. -/
structure Ok (gcs : List G) (s : State T M G) : Prop where
  last : s.last ≤ s.generation
  rung : s.rung ≤ s.generation
  high : s.high = true → s.slot = true
  registered : s.registered = true → s.high = true
  stored : ∀ g ∈ gcs, s.last ≤ s.triggeredAt g ∨ s.Triggering g
  threads : ∀ t, ThreadOk gcs s t
  mutators : ∀ m, MutatorOk gcs s m
  owed : s.registered = true → ∀ g ∈ gcs, s.Owed g s.rung

theorem Ok.init (T M : Type) (gcs : List G) (gen : Nat) :
    Ok gcs (State.init T M G gen) where
  last := Nat.le_refl _
  rung := Nat.le_refl _
  high := nofun
  registered := nofun
  stored _ _ := .inl (Nat.le_refl _)
  threads _ := ⟨by simp [State.init], by simp [State.init], nofun⟩
  mutators _ := ⟨by simp [State.init], by simp [State.init], nofun⟩
  owed := nofun

theorem Pc.Answers.mono {pc : Pc G} (h : pc.Answers g gen') (hle : gen ≤ gen') :
    pc.Answers g gen := by
  unfold Pc.Answers at h ⊢
  split at h
  · trivial
  · trivial
  · exact Nat.le_trans hle h
  · exact Nat.le_trans hle h
  · exact h
  · exact h

theorem State.Owed.mono (h : s.Owed g gen') (hle : gen ≤ gen') :
    s.Owed g gen := by
  rcases h with htriggered | hoctets | ⟨t, hanswers⟩
  · exact .inl (Nat.le_trans hle htriggered)
  · exact .inr (.inl hoctets)
  · exact .inr (.inr ⟨t, hanswers.mono hle⟩)

/-- What is owed stays owed, if it does where the step is. -/
theorem State.Owed.step (h : s.Owed g gen)
    (htriggered : gen ≤ s.triggeredAt g → u.Owed g gen)
    (hoctets : 0 < s.octets → u.Owed g gen)
    (hother : ∀ t' ≠ t, u.threads t' = s.threads t')
    (hself : (s.threads t).Answers g gen → u.Owed g gen) : u.Owed g gen := by
  rcases h with hold | hqueued | ⟨t', hanswers⟩
  · exact htriggered hold
  · exact hoctets hqueued
  · by_cases ht : t' = t
    · subst ht
      exact hself hanswers
    · exact .inr (.inr ⟨t', by rw [hother t' ht]; exact hanswers⟩)

/-! ## Steps of the threads -/

theorem RegisterPc.Done.mono {slot high slot' high' : Bool} {pc : RegisterPc}
    (h : pc.Done slot high) (hslot : slot = true → slot' = true)
    (hhigh : high = true → high' = true) : pc.Done slot' high' := by
  cases pc with
  | publish => trivial
  | raise => exact hslot h
  | bump | latch => exact hhigh h

/-- A step of thread `t`. -/
theorem Ok.move (h : Ok gcs s) (hgen : s.generation ≤ u.generation)
    (hslot : s.slot = true → u.slot = true)
    (hhigh : s.high = true → u.high = true)
    (hwire : u.high = true → u.slot = true)
    (hregistered : u.registered = s.registered)
    (hmutators : u.mutators = s.mutators) (hrung : u.rung = s.rung)
    (hother : ∀ t' ≠ t, u.threads t' = s.threads t')
    (hlast : u.last ≤ u.generation)
    (hstored : ∀ g ∈ gcs, u.last ≤ u.triggeredAt g ∨ u.Triggering g)
    (hthread : ThreadOk gcs u t)
    (howed : ∀ g ∈ gcs, ∀ gen ≤ s.generation, s.Owed g gen → u.Owed g gen) :
    Ok gcs u where
  last := hlast
  rung := by
    rw [hrung]
    exact Nat.le_trans h.rung hgen
  high := hwire
  registered hreg := by
    rw [hregistered] at hreg
    exact hhigh (h.registered hreg)
  stored := hstored
  threads t' := by
    by_cases ht : t' = t
    · subst ht
      exact hthread
    · have hold := h.threads t'
      refine ⟨?_, ?_, ?_⟩
      · rw [hother t' ht]
        exact fun wants next gen hpc =>
          Nat.le_trans (hold.loaded wants next gen hpc) hgen
      · rw [hother t' ht]
        exact fun wants pc hpc => (hold.register wants pc hpc).mono hslot hhigh
      · rw [hother t' ht, hregistered]
        exact hold.wired
  mutators m := by
    have hold := h.mutators m
    refine ⟨?_, ?_, ?_⟩
    · rw [hmutators]
      exact fun gen hpc => Nat.le_trans (hold.bumped gen hpc) hgen
    · rw [hmutators]
      intro gen covered hpc
      obtain ⟨hle, hcovered⟩ := hold.ringing gen covered hpc
      exact ⟨Nat.le_trans hle hgen, fun hc => hhigh (hcovered hc)⟩
    · rw [hmutators, hregistered]
      exact fun hreg gen hpc g hg =>
        howed g hg gen (hold.ringing gen false hpc).1 (hold.missed hreg gen hpc g hg)
  owed hreg g hg := by
    rw [hregistered] at hreg
    rw [hrung]
    exact howed g hg s.rung h.rung (h.owed hreg g hg)

/-- A step of thread `t` outside the generation check: eventfds are read, and
the thread goes on. -/
theorem Ok.quiet (h : Ok gcs s) [DecidableEq T] {pc : Pc G}
    {readable : G → Bool} {mutex : Option T}
    (hanswers : ∀ g gen, ¬(s.threads t).Answers g gen)
    (hpc : ∀ wants next gen, pc ≠ .check wants (.compare gen) next ∧
      pc ≠ .check wants (.store gen) next)
    (hregister : ∀ wants rpc, pc = .register wants rpc → rpc = .publish)
    (hwired : ∀ g ∈ pc.wired, g ∈ gcs → s.registered = true) :
    Ok gcs ({ s with readable := readable, mutex := mutex }.goto t pc) := by
  have hself : Function.update s.threads t pc t = pc := Function.update_self ..
  have hother : ∀ t' ≠ t, Function.update s.threads t pc t' = s.threads t' :=
    fun t' ht => Function.update_of_ne ht ..
  refine h.move (t := t) (Nat.le_refl _) id id h.high rfl rfl rfl hother h.last
    (fun g hg => ?_) ⟨fun wants next gen hat => ?_, fun wants rpc hat => ?_,
      fun g hg => ?_⟩ fun g hg gen _ howed => ?_
  · refine (h.stored g hg).imp_right fun ⟨t', wants, todo, next, hat, hin⟩ => ?_
    have ht : t' ≠ t := by
      rintro rfl
      refine hanswers g 0 ?_
      rw [hat]
      exact hin
    exact ⟨t', wants, todo, next, (hother t' ht).trans hat, hin⟩
  · simp only [State.goto, hself] at hat
    exact (hat.elim (hpc wants next gen).1 (hpc wants next gen).2).elim
  · simp only [State.goto, hself] at hat
    rw [hregister wants rpc hat]
    trivial
  · simp only [State.goto, hself] at hg
    exact hwired g hg
  · exact howed.step (t := t) .inl (fun hq => .inr (.inl hq)) hother
      fun hold => absurd hold (hanswers g gen)

/-- The registration goes on.  Its bump rings nobody, and the thread that ends
it answers for every generation so far. -/
theorem Ok.registerStep (h : Ok gcs s) [DecidableEq T] {wants : List G}
    {pc : RegisterPc} (hpc : s.threads t = .register wants pc) :
    Ok gcs (registerStep s t wants pc) := by
  have hdone := (h.threads t).register wants pc hpc
  have hanswers : ∀ g gen, ¬(s.threads t).Answers g gen := by
    rw [hpc]
    exact fun _ _ => id
  have hnot : ∀ t' wants todo next g,
      s.threads t' = .check wants (.trigger todo) next → g ∈ todo → t' ≠ t := by
    rintro t' wants todo next g hat hin rfl
    refine hanswers g 0 ?_
    rw [hat]
    exact hin
  have hgo : ∀ {slot high : Bool} {generation : Nat} {pc' : RegisterPc},
      (s.slot = true → slot = true) → (s.high = true → high = true) →
      (high = true → slot = true) → s.generation ≤ generation →
      pc'.Done slot high →
      Ok gcs ({ s with slot := slot, high := high,
                       generation := generation }.goto t
        (.register wants pc')) := by
    intro slot high generation pc' hslot hhigh hwire hgen hdone'
    have hself : Function.update s.threads t (.register wants pc') t =
        .register wants pc' := Function.update_self ..
    have hother : ∀ t' ≠ t,
        Function.update s.threads t (.register wants pc') t' = s.threads t' :=
      fun t' ht => Function.update_of_ne ht ..
    refine h.move (t := t) hgen hslot hhigh hwire rfl rfl rfl hother
      (Nat.le_trans h.last hgen) (fun g hg => ?_)
      ⟨fun wants' next gen hat => ?_, fun wants' rpc hat => ?_, fun g hg => ?_⟩
      fun g hg gen _ howed => ?_
    · exact (h.stored g hg).imp_right fun ⟨t', wants', todo, next, hat, hin⟩ =>
        ⟨t', wants', todo, next,
          (hother t' (hnot t' wants' todo next g hat hin)).trans hat, hin⟩
    · simp only [State.goto, hself] at hat
      rcases hat with hat | hat
      · cases hat
      · cases hat
    · simp only [State.goto, hself] at hat
      cases hat
      exact hdone'
    · simp only [State.goto, hself] at hg
      cases hg
    · exact howed.step (t := t) .inl (fun hq => .inr (.inl hq)) hother
        fun hold => absurd hold (hanswers g gen)
  cases pc with
  | publish => exact hgo (fun _ => rfl) id (fun _ => rfl) (Nat.le_refl _) rfl
  | raise => exact hgo id (fun _ => rfl) (fun _ => hdone) (Nat.le_refl _) rfl
  | bump => exact hgo id id h.high (Nat.le_succ _) hdone
  | latch =>
    have hself : Function.update s.threads t (.check wants .drain .arm) t =
        .check wants .drain .arm := Function.update_self ..
    have hother : ∀ t' ≠ t,
        Function.update s.threads t (.check wants .drain .arm) t' =
          s.threads t' :=
      fun t' ht => Function.update_of_ne ht ..
    have hall : ∀ g gen, State.Owed
        ({ s with registered := true, mutex := none }.goto t
          (.check wants .drain .arm)) g gen := by
      intro g gen
      refine .inr (.inr ⟨t, ?_⟩)
      simp only [State.goto, hself]
      trivial
    refine ⟨h.last, h.rung, h.high, fun _ => hdone, fun g hg => ?_, fun t' => ?_,
      fun m => ⟨(h.mutators m).bumped, (h.mutators m).ringing,
        fun _ gen _ g _ => hall g gen⟩, fun _ g _ => hall g _⟩
    · exact (h.stored g hg).imp_right fun ⟨t', wants', todo, next, hat, hin⟩ =>
        ⟨t', wants', todo, next,
          (hother t' (hnot t' wants' todo next g hat hin)).trans hat, hin⟩
    · by_cases ht : t' = t
      · subst ht
        refine ⟨fun wants' next gen hat => ?_, fun wants' rpc hat => ?_,
          fun _ _ _ => rfl⟩
        · simp only [Doorbell.registerStep, State.goto, hself] at hat
          rcases hat with hat | hat
          · cases hat
          · cases hat
        · simp only [Doorbell.registerStep, State.goto, hself] at hat
          cases hat
      · have hold := h.threads t'
        refine ⟨?_, ?_, fun _ _ _ => rfl⟩
        · simp only [Doorbell.registerStep, State.goto, hother t' ht]
          exact hold.loaded
        · simp only [Doorbell.registerStep, State.goto, hother t' ht]
          exact hold.register

theorem Next.wired_pc (wants : List G) (next : Next) :
    (next.pc wants).wired = wants := by
  cases next with
  | arm => rfl
  | decide progressed polling => rfl

/-- A step of thread `t` inside the generation check. -/
theorem Ok.checkMove (h : Ok gcs s) {wants : List G} {cpc : CheckPc G}
    {next : Next} (hpc : s.threads t = .check wants cpc next)
    (hgeneration : u.generation = s.generation) (hslot : u.slot = s.slot)
    (hhigh : u.high = s.high) (hregistered : u.registered = s.registered)
    (hmutators : u.mutators = s.mutators) (hrung : u.rung = s.rung)
    (hother : ∀ t' ≠ t, u.threads t' = s.threads t')
    (hwired : (u.threads t).wired = wants)
    (hregister : ∀ wants rpc, u.threads t ≠ .register wants rpc)
    (hloaded : ∀ wants next gen,
      (u.threads t = .check wants (.compare gen) next ∨
        u.threads t = .check wants (.store gen) next) → gen ≤ s.generation)
    (hlast : u.last ≤ s.generation)
    (hstored : ∀ g ∈ gcs, u.last ≤ u.triggeredAt g ∨ u.Triggering g)
    (howed : ∀ g ∈ gcs, ∀ gen ≤ s.generation, s.Owed g gen → u.Owed g gen) :
    Ok gcs u := by
  refine h.move (t := t) (Nat.le_of_eq hgeneration.symm) ?_ ?_ ?_ hregistered
    hmutators hrung hother (hgeneration ▸ hlast) hstored ⟨?_, ?_, ?_⟩ howed
  · rw [hslot]
    exact id
  · rw [hhigh]
    exact id
  · rw [hhigh, hslot]
    exact h.high
  · rw [hgeneration]
    exact hloaded
  · exact fun wants rpc hat => absurd hat (hregister wants rpc)
  · rw [hwired, hregistered]
    intro g hg
    refine (h.threads t).wired g ?_
    rw [hpc]
    exact hg

/-- A trigger that another thread owes. -/
theorem State.Triggering.other (h : s.Triggering g)
    (hother : ∀ t' ≠ t, u.threads t' = s.threads t')
    (hself : ∀ wants todo next, s.threads t = .check wants (.trigger todo) next →
      g ∈ todo → u.Triggering g) : u.Triggering g := by
  obtain ⟨t', wants, todo, next, hat, hin⟩ := h
  by_cases ht : t' = t
  · subst ht
    exact hself wants todo next hat hin
  · exact ⟨t', wants, todo, next, (hother t' ht).trans hat, hin⟩

/-- The generation check goes on. -/
theorem Ok.checkStep (h : Ok gcs s) [DecidableEq T] [DecidableEq G]
    {wants : List G} {next : Next} {pc : CheckPc G}
    (hpc : s.threads t = .check wants pc next) :
    Ok gcs (checkStep gcs s t wants next pc) := by
  have hself : ∀ pc', Function.update s.threads t pc' t = pc' := fun _ =>
    Function.update_self ..
  have hother : ∀ pc', ∀ t' ≠ t, Function.update s.threads t pc' t' =
      s.threads t' := fun _ t' ht => Function.update_of_ne ht ..
  have hnext : ∀ {wants'}, (∀ wants rpc, next.pc wants' ≠ .register wants rpc) ∧
      (∀ (wants : List G) cpc next', next.pc wants' ≠ .check wants cpc next') := by
    intro wants'
    cases next with
    | arm => exact ⟨nofun, nofun⟩
    | decide progressed polling => exact ⟨nofun, nofun⟩
  cases pc with
  | drain =>
    have hanswers : ∀ g gen, (s.threads t).Answers g gen := by
      rw [hpc]
      exact fun _ _ => trivial
    simp only [Doorbell.checkStep]
    split
    · refine h.checkMove hpc rfl rfl rfl rfl rfl rfl (hother _) ?_ ?_ ?_ h.last
        (fun g hg => ?_) fun g hg gen _ howed => ?_
      · simp only [State.goto, hself]
        rfl
      · simp only [State.goto, hself]
        nofun
      · simp only [State.goto, hself]
        nofun
      · refine (h.stored g hg).imp_right fun ht => ht.other (hother _) ?_
        rw [hpc]
        nofun
      · refine .inr (.inr ⟨t, ?_⟩)
        simp only [State.goto, hself]
        trivial
    · refine h.checkMove hpc rfl rfl rfl rfl rfl rfl (fun _ _ => rfl) ?_ ?_ ?_
        h.last h.stored fun g hg gen _ howed => .inr (.inr ⟨t, hanswers g gen⟩)
      · simp only [hpc]
        rfl
      · simp only [hpc]
        nofun
      · simp only [hpc]
        nofun
  | load =>
    simp only [Doorbell.checkStep]
    refine h.checkMove hpc rfl rfl rfl rfl rfl rfl (hother _) ?_ ?_ ?_ h.last
      (fun g hg => ?_) fun g hg gen hle howed => ?_
    · simp only [State.goto, hself]
      rfl
    · simp only [State.goto, hself]
      nofun
    · simp only [State.goto, hself]
      rintro wants' next' gen (heq | heq)
      · cases heq
        exact Nat.le_refl _
      · cases heq
    · refine (h.stored g hg).imp_right fun ht => ht.other (hother _) ?_
      rw [hpc]
      nofun
    · refine .inr (.inr ⟨t, ?_⟩)
      simp only [State.goto, hself]
      exact hle
  | compare loaded =>
    simp only [Doorbell.checkStep]
    split
    · refine h.checkMove hpc rfl rfl rfl rfl rfl rfl (hother _) ?_ ?_ ?_ h.last
        (fun g hg => ?_) fun g hg gen hle howed => ?_
      · simp only [State.goto, hself]
        rfl
      · simp only [State.goto, hself]
        nofun
      · simp only [State.goto, hself]
        rintro wants' next' gen (heq | heq)
        · cases heq
        · cases heq
          exact (h.threads t).loaded _ _ _ (.inl hpc)
      · refine (h.stored g hg).imp_right fun ht => ht.other (hother _) ?_
        rw [hpc]
        nofun
      · refine howed.step (t := t) .inl (fun hq => .inr (.inl hq)) (hother _)
          fun hold => .inr (.inr ⟨t, ?_⟩)
        rw [hpc] at hold
        simp only [State.goto, hself]
        exact hold
    · -- The stored generation is the loaded one: whoever has stored it
      -- triggers, or has triggered.
      rename_i hsame
      simp only [ne_eq, not_not] at hsame
      have hstored : ∀ g ∈ gcs, s.last ≤ s.triggeredAt g ∨
          (s.goto t (next.pc wants)).Triggering g := by
        intro g hg
        refine (h.stored g hg).imp_right fun ht => ht.other (hother _) ?_
        rw [hpc]
        nofun
      refine h.checkMove hpc rfl rfl rfl rfl rfl rfl (hother _) ?_ ?_ ?_ h.last
        hstored fun g hg gen hle howed => ?_
      · simp only [State.goto, hself]
        exact next.wired_pc wants
      · simp only [State.goto, hself]
        exact hnext.1
      · simp only [State.goto, hself]
        rintro wants' next' gen (heq | heq)
        · exact absurd heq (hnext.2 _ _ _)
        · exact absurd heq (hnext.2 _ _ _)
      · refine howed.step (t := t) .inl (fun hq => .inr (.inl hq)) (hother _)
          fun hold => ?_
        rw [hpc] at hold
        have hlast : gen ≤ s.last := hsame ▸ hold
        rcases hstored g hg with hle' | ⟨t', wants', todo, next', hat, hin⟩
        · exact .inl (Nat.le_trans hlast hle')
        · refine .inr (.inr ⟨t', ?_⟩)
          rw [hat]
          exact hin
  | store loaded =>
    have hle := (h.threads t).loaded _ _ _ (.inr hpc)
    simp only [Doorbell.checkStep]
    refine h.checkMove hpc rfl rfl rfl rfl rfl rfl (hother _) ?_ ?_ ?_ hle
      (fun g hg => ?_) fun g hg gen _ howed => ?_
    · simp only [State.goto, hself]
      rfl
    · simp only [State.goto, hself]
      nofun
    · simp only [State.goto, hself]
      nofun
    · exact .inr ⟨t, wants, gcs, next, hself _, hg⟩
    · refine howed.step (t := t) .inl (fun hq => .inr (.inl hq)) (hother _)
        fun _ => .inr (.inr ⟨t, ?_⟩)
      simp only [State.goto, hself]
      exact hg
  | trigger todo =>
    cases todo with
    | nil =>
      simp only [Doorbell.checkStep]
      refine h.checkMove hpc rfl rfl rfl rfl rfl rfl (hother _) ?_ ?_ ?_ h.last
        (fun g hg => ?_) fun g hg gen _ howed => ?_
      · simp only [State.goto, hself]
        exact next.wired_pc wants
      · simp only [State.goto, hself]
        exact hnext.1
      · simp only [State.goto, hself]
        rintro wants' next' gen (heq | heq)
        · exact absurd heq (hnext.2 _ _ _)
        · exact absurd heq (hnext.2 _ _ _)
      · refine (h.stored g hg).imp_right fun ht => ht.other (hother _) ?_
        rw [hpc]
        rintro wants' todo next' heq hin
        cases heq
        cases hin
      · refine howed.step (t := t) .inl (fun hq => .inr (.inl hq)) (hother _)
          fun hold => ?_
        rw [hpc] at hold
        cases hold
    | cons first todo =>
      have hnow : Function.update s.triggeredAt first s.generation first =
          s.generation := Function.update_self ..
      have hrest : ∀ g, g ≠ first → Function.update s.triggeredAt first
          s.generation g = s.triggeredAt g := fun g hne =>
        Function.update_of_ne hne ..
      simp only [Doorbell.checkStep]
      refine h.checkMove hpc rfl rfl rfl rfl rfl rfl (hother _) ?_ ?_ ?_ h.last
        (fun g hg => ?_) fun g hg gen hle howed => ?_
      · simp only [State.goto, State.trigger, hself]
        rfl
      · simp only [State.goto, State.trigger, hself]
        nofun
      · simp only [State.goto, State.trigger, hself]
        nofun
      · by_cases hfirst : g = first
        · subst hfirst
          exact .inl (Nat.le_trans h.last (Nat.le_of_eq hnow.symm))
        · rcases h.stored g hg with hold | ht
          · exact .inl (Nat.le_trans hold (Nat.le_of_eq (hrest g hfirst).symm))
          · refine .inr (ht.other (hother _) ?_)
            rw [hpc]
            rintro wants' todo' next' heq hin
            cases heq
            exact ⟨t, wants, todo, next, hself _,
              (List.mem_cons.mp hin).resolve_left hfirst⟩
      · by_cases hfirst : g = first
        · subst hfirst
          exact .inl (Nat.le_trans hle (Nat.le_of_eq hnow.symm))
        · refine howed.step (t := t) (fun hold => .inl ?_)
            (fun hq => .inr (.inl hq)) (hother _) fun hold => .inr (.inr ⟨t, ?_⟩)
          · exact Nat.le_trans hold (Nat.le_of_eq (hrest g hfirst).symm)
          · rw [hpc] at hold
            simp only [State.goto, State.trigger, hself]
            exact (List.mem_cons.mp hold).resolve_left hfirst

/-- Every step of a thread. -/
theorem Ok.threadStep (h : Ok gcs s) [DecidableEq T] [DecidableEq G]
    {more : Bool} (hstep : threadStep gcs s t more = some u) : Ok gcs u := by
  have hnot : ∀ {pc : Pc G}, s.threads t = pc → (∀ g gen, ¬pc.Answers g gen) →
      ∀ g gen, ¬(s.threads t).Answers g gen := by
    rintro pc rfl hanswers
    exact hanswers
  have hwired : ∀ {pc pc' : Pc G}, s.threads t = pc → pc'.wired = pc.wired →
      ∀ g ∈ pc'.wired, g ∈ gcs → s.registered = true := by
    rintro pc pc' rfl hsame
    rw [hsame]
    exact (h.threads t).wired
  cases hpc : s.threads t with
  | idle =>
    simp only [Doorbell.threadStep, hpc] at hstep
    cases hstep
  | epollWait wants polling =>
    simp only [Doorbell.threadStep, hpc] at hstep
    cases hstep
  | start wants =>
    simp only [Doorbell.threadStep, hpc] at hstep
    split at hstep
    · cases hstep
      exact h.quiet (hnot hpc fun _ _ => id) (by simp) nofun nofun
    · rename_i hskip
      cases hstep
      refine h.quiet (hnot hpc fun _ _ => id) (by simp) nofun fun g hg hin => ?_
      by_contra hreg
      exact hskip ⟨by simpa using hreg, g, hg, hin⟩
  | lock wants =>
    simp only [Doorbell.threadStep, hpc] at hstep
    split at hstep
    · split at hstep
      · rename_i hreg
        cases hstep
        exact h.quiet (hnot hpc fun _ _ => id) (by simp) nofun
          fun _ _ _ => hreg
      · cases hstep
        refine h.quiet (hnot hpc fun _ _ => id) (by simp) ?_ nofun
        rintro wants' rpc heq
        cases heq
        rfl
    · cases hstep
  | register wants pc =>
    simp only [Doorbell.threadStep, hpc, Option.some.injEq] at hstep
    subst hstep
    exact h.registerStep hpc
  | check wants pc next =>
    simp only [Doorbell.threadStep, hpc, Option.some.injEq] at hstep
    subst hstep
    exact h.checkStep hpc
  | scan wants todo ready =>
    cases todo with
    | nil =>
      simp only [Doorbell.threadStep, hpc, Option.some.injEq] at hstep
      subst hstep
      exact h.quiet (hnot hpc fun _ _ => id) (by simp) nofun (hwired hpc rfl)
    | cons g todo =>
      simp only [Doorbell.threadStep, hpc] at hstep
      split at hstep
      · cases hstep
        exact h.quiet (hnot hpc fun _ _ => id) (by simp) nofun (hwired hpc rfl)
      · cases hstep
        exact h.quiet (hnot hpc fun _ _ => id) (by simp) nofun (hwired hpc rfl)
  | dispatch wants todo rang progressed polling =>
    cases todo with
    | nil =>
      simp only [Doorbell.threadStep, hpc] at hstep
      split at hstep
      · cases hstep
        exact h.quiet (hnot hpc fun _ _ => id) (by simp) nofun (hwired hpc rfl)
      · cases hstep
        exact h.quiet (hnot hpc fun _ _ => id) (by simp) nofun (hwired hpc rfl)
    | cons g todo =>
      simp only [Doorbell.threadStep, hpc] at hstep
      split at hstep
      · cases hstep
        exact h.quiet (hnot hpc fun _ _ => id) (by simp) nofun (hwired hpc rfl)
      · cases hstep
        exact h.quiet (hnot hpc fun _ _ => id) (by simp) nofun (hwired hpc rfl)
  | decide wants progressed polling =>
    simp only [Doorbell.threadStep, hpc] at hstep
    split at hstep
    · cases hstep
      exact h.quiet (hnot hpc fun _ _ => id) (by simp) nofun (hwired hpc rfl)
    · cases hstep
      exact h.quiet (hnot hpc fun _ _ => id) (by simp) nofun (hwired hpc rfl)
  | output wants todo =>
    cases todo with
    | nil =>
      simp only [Doorbell.threadStep, hpc, Option.some.injEq] at hstep
      subst hstep
      exact h.quiet (hnot hpc fun _ _ => id) (by simp) nofun nofun
    | cons g todo =>
      simp only [Doorbell.threadStep, hpc, Option.some.injEq] at hstep
      subst hstep
      exact h.quiet (hnot hpc fun _ _ => id) (by simp) nofun (hwired hpc rfl)

/-! ## Steps of the mutators -/

/-- A mutator goes on without ringing. -/
theorem Ok.mutatorMove (h : Ok gcs s) [DecidableEq M] {m : M} {pc : MutatorPc}
    {generation : Nat} (hgen : s.generation ≤ generation)
    (hbumped : ∀ gen, pc = .bumped gen → gen ≤ generation)
    (hringing : ∀ gen covered, pc = .ringing gen covered → gen ≤ generation ∧
      covered = s.high) :
    Ok gcs ({ s with generation := generation }.mutatorGoto m pc) where
  last := Nat.le_trans h.last hgen
  rung := Nat.le_trans h.rung hgen
  high := h.high
  registered := h.registered
  stored := h.stored
  threads t :=
    { loaded := fun wants next gen hpc =>
        Nat.le_trans ((h.threads t).loaded wants next gen hpc) hgen
      register := (h.threads t).register
      wired := (h.threads t).wired }
  mutators m' := by
    by_cases hm : m' = m
    · subst hm
      have hself : Function.update s.mutators m' pc m' = pc :=
        Function.update_self ..
      refine ⟨?_, fun gen covered hpc => ?_, fun hreg gen hpc g hg => ?_⟩
      · simp only [State.mutatorGoto, hself]
        exact hbumped
      · simp only [State.mutatorGoto, hself] at hpc
        obtain ⟨hle, rfl⟩ := hringing gen covered hpc
        exact ⟨hle, id⟩
      · -- The high water covers a registered doorbell.
        simp only [State.mutatorGoto, hself] at hpc
        have hhigh := (hringing gen false hpc).2
        rw [h.registered hreg] at hhigh
        cases hhigh
    · have hold := h.mutators m'
      have hother : Function.update s.mutators m pc m' = s.mutators m' :=
        Function.update_of_ne hm ..
      refine ⟨?_, ?_, ?_⟩
      · simp only [State.mutatorGoto, hother]
        exact fun gen hpc => Nat.le_trans (hold.bumped gen hpc) hgen
      · simp only [State.mutatorGoto, hother]
        exact fun gen covered hpc =>
          (hold.ringing gen covered hpc).imp_left (Nat.le_trans · hgen)
      · simp only [State.mutatorGoto, hother]
        exact hold.missed
  owed := h.owed

/-- The ring has looked at the doorbell's slot: an octet is queued, or the
doorbell was registered after the high water was loaded, and whoever has
registered it answers. -/
theorem Ok.look (h : Ok gcs s) [DecidableEq M] {m : M} {covered : Bool}
    {octets : Nat} (hpc : s.mutators m = .ringing gen covered)
    (hoctets : s.octets ≤ octets)
    (hqueued : covered = true → s.slot = true → 0 < octets) :
    Ok gcs ({ s with rung := max s.rung gen, octets := octets }.mutatorGoto m
      .idle) := by
  obtain ⟨hle, hcovered⟩ := (h.mutators m).ringing gen covered hpc
  have howed : ∀ {g gen'}, s.Owed g gen' → State.Owed
      ({ s with rung := max s.rung gen, octets := octets }.mutatorGoto m .idle)
      g gen' := fun hold =>
    hold.imp_right (Or.imp_left fun hq => Nat.lt_of_lt_of_le hq hoctets)
  refine ⟨h.last, Nat.max_le.mpr ⟨h.rung, hle⟩, h.high, h.registered, h.stored,
    fun t => ⟨(h.threads t).loaded, (h.threads t).register,
      (h.threads t).wired⟩, fun m' => ?_, fun hreg g hg => ?_⟩
  · by_cases hm : m' = m
    · subst hm
      have hself : Function.update s.mutators m' MutatorPc.idle m' = .idle :=
        Function.update_self ..
      refine ⟨?_, ?_, ?_⟩
      · simp only [State.mutatorGoto, hself]
        nofun
      · simp only [State.mutatorGoto, hself]
        nofun
      · simp only [State.mutatorGoto, hself]
        nofun
    · have hold := h.mutators m'
      have hother : Function.update s.mutators m .idle m' = s.mutators m' :=
        Function.update_of_ne hm ..
      refine ⟨?_, ?_, ?_⟩
      · simp only [State.mutatorGoto, hother]
        exact hold.bumped
      · simp only [State.mutatorGoto, hother]
        exact hold.ringing
      · simp only [State.mutatorGoto, hother]
        exact fun hreg gen hpc' g hg => howed (hold.missed hreg gen hpc' g hg)
  · cases covered with
    | true =>
      exact .inr (.inl (hqueued rfl (h.high (hcovered rfl))))
    | false =>
      have hmissed := (h.mutators m).missed hreg gen hpc g hg
      have hmax : s.Owed g (max s.rung gen) := by
        rcases Nat.le_total s.rung gen with hle' | hle'
        · rw [Nat.max_eq_right hle']
          exact hmissed
        · rw [Nat.max_eq_left hle']
          exact h.owed hreg g hg
      exact howed hmax

variable [DecidableEq T] [DecidableEq M] [DecidableEq G]

/-- Every step keeps the invariant. -/
theorem Ok.step (h : Ok gcs s) {a : Act T M G}
    (hstep : (machine T M gcs).step s a = some u) : Ok gcs u := by
  cases a with
  | call t wants =>
    simp only [machine, Doorbell.step] at hstep
    split at hstep
    · rename_i hpc
      cases hstep
      refine h.quiet ?_ (by simp) nofun nofun
      rw [hpc]
      exact fun _ _ => id
    · cases hstep
  | thread t more => exact h.threadStep hstep
  | wake t rang ready =>
    simp only [machine, Doorbell.step] at hstep
    split at hstep
    · rename_i wants polling hpc
      split at hstep
      · cases hstep
        refine h.quiet ?_ (by simp) nofun ?_
        · rw [hpc]
          exact fun _ _ => id
        · have hwired := (h.threads t).wired
          rw [hpc] at hwired
          exact hwired
      · cases hstep
    · cases hstep
  | expire t =>
    simp only [machine, Doorbell.step] at hstep
    split at hstep
    · rename_i wants polling hpc
      cases hstep
      refine h.quiet ?_ (by simp) nofun ?_
      · rw [hpc]
        exact fun _ _ => id
      · have hwired := (h.threads t).wired
        rw [hpc] at hwired
        exact hwired
    · cases hstep
  | change m =>
    simp only [machine, Doorbell.step] at hstep
    split at hstep
    · cases hstep
      exact h.mutatorMove (Nat.le_refl _) nofun nofun
    · cases hstep
      exact h.mutatorMove (Nat.le_refl _) nofun nofun
    · cases hstep
  | bump m =>
    simp only [machine, Doorbell.step] at hstep
    split at hstep
    · cases hstep
      refine h.mutatorMove (Nat.le_succ _) ?_ nofun
      rintro gen heq
      cases heq
      exact Nat.le_refl _
    · cases hstep
  | ring m =>
    simp only [machine, Doorbell.step] at hstep
    split at hstep
    · rename_i gen hpc
      have hle := (h.mutators m).bumped gen hpc
      cases hstep
      refine h.mutatorMove (Nat.le_refl _) nofun ?_
      rintro gen' covered heq
      cases heq
      exact ⟨hle, rfl⟩
    · cases hstep
  | look m queued =>
    simp only [machine, Doorbell.step] at hstep
    split at hstep
    · rename_i gen covered hpc
      split at hstep
      · split at hstep
        · cases hstep
          exact h.look hpc (Nat.le_succ _) fun _ _ => Nat.succ_pos _
        · split at hstep
          · rename_i hqueued
            cases hstep
            exact h.look hpc (Nat.le_refl _) fun _ _ => hqueued
          · cases hstep
      · rename_i hmissed
        cases hstep
        exact h.look hpc (Nat.le_refl _) fun hc hs => absurd ⟨hc, hs⟩ hmissed
    · cases hstep

/-- A thread that is blocked on a graph guard condition, with no octet queued,
has missed no mutation that has bumped and rung: the guard condition was
triggered since, or another thread answers for it. -/
theorem doorbell_delivers {ok : State T M G → Act T M G → Prop} {gen : Nat}
    {wants : List G}
    (h : (machine T M gcs).Reach ok (.init T M G gen) s)
    (hblocked : s.threads t = .epollWait wants false) (hwants : g ∈ wants)
    (hgraph : g ∈ gcs) (hoctets : s.octets = 0) :
    s.rung ≤ s.triggeredAt g ∨ ∃ t', (s.threads t').Answers g s.rung := by
  have hok : Ok gcs s := h.invariant (.init T M gcs gen)
    fun _ _ _ hI _ hstep => hI.step hstep
  have hwired : g ∈ (s.threads t).wired := by
    rw [hblocked]
    exact hwants
  rcases hok.owed ((hok.threads t).wired g hwired hgraph) g hgraph with
    htriggered | hqueued | hanswers
  · exact .inl htriggered
  · omega
  · exact .inr hanswers

end Invariant

/-- Thread `true` registers the doorbell and goes through a first wait, which
its own registration ends, then it blocks. -/
def blockThread : List (Act Bool Unit Unit) :=
  [.call true [()]] ++ List.replicate 14 (.thread true false) ++
  [.expire true, .thread true false, .thread true false, .call true [()]] ++
  List.replicate 6 (.thread true false)

/-- A mutation with its ring. -/
def mutation : List (Act Bool Unit Unit) :=
  [.change (), .bump (), .ring (), .look () true]

set_option maxRecDepth 100000 in
/-- Thread `false` drains the octet, and triggers what the blocked thread
waits for. -/
theorem doorbell_delivers_other :
    ∃ s, (machine Bool Unit [()]).Reach (fun _ _ => True)
        (.init Bool Unit Unit 0) s ∧
      s.threads true = .epollWait [()] false ∧ s.octets = 0 ∧ s.rung = 2 ∧
      (s.rung ≤ s.triggeredAt () ∨ ∃ t, (s.threads t).Answers () s.rung) := by
  obtain ⟨s, hreach, hblocked, hoctets, hrung⟩ :=
    (machine Bool Unit [()]).exists_reach_of_guardedRun (fun _ _ => True)
      (.init Bool Unit Unit 0)
      (blockThread ++ mutation ++ [.call false []] ++
        List.replicate 8 (.thread false false))
      (fun s => s.threads true = .epollWait [()] false ∧ s.octets = 0 ∧
        s.rung = 2) (by decide)
  exact ⟨s, hreach, hblocked, hoctets, hrung,
    doorbell_delivers hreach hblocked (List.mem_singleton.mpr rfl)
      (List.mem_singleton.mpr rfl) hoctets⟩

set_option maxRecDepth 100000 in
/-- Thread `false` has drained the octet and not yet loaded the generation:
the mutation is over, thread `true` is blocked, and there is no octet, no
trigger and no readable guard condition for it. -/
theorem doorbell_in_transit :
    ∃ s, (machine Bool Unit [()]).Reach (fun _ _ => True)
        (.init Bool Unit Unit 0) s ∧
      s.threads true = .epollWait [()] false ∧ s.octets = 0 ∧
      s.readable () = false ∧ s.mutators () = .idle ∧
      s.triggeredAt () < s.rung :=
  (machine Bool Unit [()]).exists_reach_of_guardedRun (fun _ _ => True)
    (.init Bool Unit Unit 0)
    (blockThread ++ mutation ++ [.call false []] ++
      List.replicate 2 (.thread false false))
    (fun s => s.threads true = .epollWait [()] false ∧ s.octets = 0 ∧
      s.readable () = false ∧ s.mutators () = .idle ∧
      s.triggeredAt () < s.rung) (by decide)

end RmwUnixSocket.Wait.Doorbell
