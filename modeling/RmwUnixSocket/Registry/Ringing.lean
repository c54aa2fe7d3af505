import RmwUnixSocket.Registry.Visibility

/-!
# Ringing the doorbells

`ring_doorbells` one step at a time, beside the registry.  Any number of threads ring, each
with a socket of its own, while processes add, remove, sweep and die.

* A thread looks at the state byte of a slot, takes the counter, looks at the state byte
  once more, copies the path and compares the counter.  It does not try again.
* An octet is queued at the socket of a path and charged to the socket that has sent it
  until it is received.  `sendto` answers `EAGAIN` when the queue is full or when the
  sender has used up its budget.
* After an `EAGAIN` the thread closes its socket, opens another and sends once more.  It
  ends when it has no socket.

The octets land at doorbells and nowhere else (`octets_reach_doorbells`), and a doorbell
that is registered all along has an octet while a thread rings, whoever else has not
received theirs (`doorbell_rung`).
-/

namespace RmwUnixSocket.Registry.Ringing

variable {P R : Type}

/-! ## The sockets -/

/-- The sockets of the system.  A queue has the sender of each octet. -/
structure Sockets where
  bound : List UInt8 → Bool
  queue : List UInt8 → List Nat
  charged : Nat → Nat
  next : Nat

/-- The limits of the system: the octets that a queue holds, and those that a sender may
have in all queues.  Neither is zero. -/
structure Limits where
  queued : Nat
  charged : Nat
  queued_pos : 0 < queued
  charged_pos : 0 < charged

/-- What `sendto` answers. -/
inductive SendTo
  | sent
  | again
  | refused
  deriving DecidableEq

namespace Sockets

/-- No socket at all. -/
def none : Sockets where
  bound := fun _ => false
  queue := fun _ => []
  charged := fun _ => 0
  next := 0

/-- `sendto`, of one octet. -/
def sendto (limits : Limits) (k : Sockets) (fd : Nat) (path : List UInt8) :
    SendTo × Sockets :=
  if k.bound path = false then (.refused, k)
  else if (k.queue path).length < limits.queued ∧ k.charged fd < limits.charged then
    (.sent,
      { k with
        queue := Function.update k.queue path (k.queue path ++ [fd])
        charged := Function.update k.charged fd (k.charged fd + 1) })
  else (.again, k)

/-- `socket`. -/
def socket (k : Sockets) : Sockets :=
  { k with next := k.next + 1 }

/-- `recv` of the octet at the head of a queue. -/
def recv (k : Sockets) (path : List UInt8) : Sockets :=
  match k.queue path with
  | [] => k
  | fd :: rest =>
    { k with
      queue := Function.update k.queue path rest
      charged := Function.update k.charged fd (k.charged fd - 1) }

/-- `bind`. -/
def bind (k : Sockets) (path : List UInt8) : Sockets :=
  { k with bound := Function.update k.bound path true }

/-- The last descriptor of a bound socket is closed, and its queue goes. -/
def close (k : Sockets) (path : List UInt8) : Sockets :=
  { k with
    bound := Function.update k.bound path false
    queue := Function.update k.queue path []
    charged := fun fd => k.charged fd - (k.queue path).count fd }

end Sockets

/-! ## The machine -/

/-- Where a thread is in `ring_doorbells`. -/
inductive RingPc
  | idle
  | socket
  | highWater
  | skip (hi i : Nat)
  | seq (hi i : Nat)
  | recheck (hi i s1 : Nat)
  | copy (hi i s1 : Nat)
  | verify (hi i s1 : Nat) (path : List UInt8)
  | send (hi i : Nat) (path : List UInt8)
  | renew (hi i : Nat) (path : List UInt8)
  | resend (hi i : Nat) (path : List UInt8)
  deriving DecidableEq

/-- The registry, the sockets and the threads that ring.  `fds` is the `thread_local`
socket of a thread. -/
structure State (P R : Type) where
  registry : Registry.State P
  sockets : Sockets
  rings : R → RingPc
  fds : R → Option Nat

/-- One move.  `granted` tells whether a thread that asks for a socket gets one. -/
inductive Act (P R : Type)
  | registry (a : Registry.Act P)
  | ring (r : R)
  | step (r : R) (granted : Bool)
  | bind (path : List UInt8)
  | recv (path : List UInt8)
  | close (path : List UInt8)

/-- An initialised registry, and no sockets. -/
def State.init (P R : Type) (maxEntries : Nat) : State P R where
  registry := .init P maxEntries
  sockets := .none
  rings := fun _ => .idle
  fds := fun _ => none

/-- The head of the loop. -/
def loop (hi i : Nat) : RingPc :=
  if i < hi then .skip hi i else .idle

/-- The bytes of `addr.sun_path` before the first NUL: the array has 108 bytes. -/
def sunPath (path : List UInt8) : List UInt8 :=
  (cstr path).take 107

variable [DecidableEq P] [DecidableEq R]

namespace State

variable (s : State P R) (r : R)

/-- A thread goes on. -/
def goto (pc : RingPc) : State P R :=
  { s with rings := Function.update s.rings r pc }

/-- `socket`, and where the thread goes on if there is one. -/
def newSocket (granted : Bool) (pc : RingPc) : State P R :=
  if granted then
    { s with
      sockets := s.sockets.socket
      fds := Function.update s.fds r (some s.sockets.next) }.goto r pc
  else { s with fds := Function.update s.fds r none }.goto r .idle

end State

/-- One step of a thread. -/
def ringStep (limits : Limits) (s : State P R) (r : R) (granted : Bool) :
    Option (State P R) :=
  match s.rings r with
  | .idle => none
  | .socket => some (s.newSocket r granted .highWater)
  | .highWater => some (s.goto r (loop s.registry.region.highWaterSlot 0))
  | .skip hi i =>
    some (s.goto r
      (if (s.registry.slot i).state = .entry .doorbell then .seq hi i else loop hi (i + 1)))
  | .seq hi i =>
    some (s.goto r
      (if (s.registry.slot i).seqWord % 2 = 1 then loop hi (i + 1)
      else .recheck hi i (s.registry.slot i).seq))
  | .recheck hi i s1 =>
    some (s.goto r
      (if (s.registry.slot i).state = .entry .doorbell then .copy hi i s1
      else loop hi (i + 1)))
  | .copy hi i s1 =>
    some (s.goto r (.verify hi i s1 ((s.registry.slot i).payload .socketPath)))
  | .verify hi i s1 path =>
    some (s.goto r
      (if (s.registry.slot i).seqWord ≠ s1 % 2 ^ 32 ∨ cstr path = [] then loop hi (i + 1)
      else .send hi i (sunPath path)))
  | .send hi i path =>
    match s.fds r with
    | none => none
    | some fd =>
      some ({ s with sockets := (s.sockets.sendto limits fd path).2 }.goto r
        (if (s.sockets.sendto limits fd path).1 = SendTo.again then .renew hi i path
        else loop hi (i + 1)))
  | .renew hi i path => some (s.newSocket r granted (.resend hi i path))
  | .resend hi i path =>
    match s.fds r with
    | none => none
    | some fd =>
      some ({ s with sockets := (s.sockets.sendto limits fd path).2 }.goto r
        (loop hi (i + 1)))

/-- One move. -/
def step (limits : Limits) (s : State P R) : Act P R → Option (State P R)
  | .registry a => (Registry.step s.registry a).map fun t => { s with registry := t }
  | .ring r =>
    if s.rings r = .idle then
      some (s.goto r (if s.fds r = none then .socket else .highWater))
    else none
  | .step r granted => ringStep limits s r granted
  | .bind path => some { s with sockets := s.sockets.bind path }
  | .recv path => some { s with sockets := s.sockets.recv path }
  | .close path => some { s with sockets := s.sockets.close path }

/-- The machine. -/
def machine (P R : Type) [DecidableEq P] [DecidableEq R] (limits : Limits) :
    Machine (State P R) (Act P R) where
  step := step limits

/-! ## The conditions on a run -/

/-- The slot and the counter that a thread is about to compare. -/
def RingPc.compares : RingPc → Option (Nat × Nat)
  | .verify _ i s1 _ => some (i, s1)
  | _ => none

/-- The three conditions of the slot protocol, and the 32-bit counter of a slot does not
wrap between the two loads of a thread that rings. -/
def RingOk (s : State P R) : Act P R → Prop
  | .registry a => CrashOk s.registry a
  | .step r _ =>
    ∀ x ∈ (s.rings r).compares, (s.registry.slot x.1).seq < x.2 + 2 ^ 32
  | _ => True

/-! ## No octet outside the doorbells -/

section Sound

variable {us : List (State P R)} {s t : State P R} {r : R} {pc : RingPc} {path : List UInt8}

omit [DecidableEq P] [DecidableEq R]

/-- A slot has shown a doorbell with these bytes as its path. -/
def Shown (us : List (State P R)) (path : List UInt8) : Prop :=
  ∃ u ∈ us, ∃ i e, Published u.registry i e ∧ e.type = .doorbell ∧
    e.payload .socketPath = path

/-- The address is that of a doorbell. -/
def Rung (us : List (State P R)) (address : List UInt8) : Prop :=
  ∃ path, Shown us path ∧ address = sunPath path

theorem Rung.later (h : Rung us path) : Rung (us ++ [t]) path := by
  obtain ⟨bytes, ⟨u, hu, hshown⟩, haddress⟩ := h
  exact ⟨bytes, ⟨u, List.mem_append_left _ hu, hshown⟩, haddress⟩

theorem Shown.later (h : Shown us path) : Shown (us ++ [t]) path := by
  obtain ⟨u, hu, hshown⟩ := h
  exact ⟨u, List.mem_append_left _ hu, hshown⟩

/-- What a thread has found out: as long as the counter of its slot has not moved, the
bytes that it copies are those of a doorbell. -/
def RingSound (us : List (State P R)) (registry : Registry.State P) : RingPc → Prop
  | .recheck _ i s1 => s1 % 2 = 0 ∧ s1 ≤ (registry.slot i).seq
  | .copy _ i s1 => s1 % 2 = 0 ∧ s1 ≤ (registry.slot i).seq ∧
      ((registry.slot i).seq = s1 → Shown us ((registry.slot i).payload .socketPath))
  | .verify _ i s1 path => s1 % 2 = 0 ∧ s1 ≤ (registry.slot i).seq ∧
      ((registry.slot i).seq = s1 → Shown us path)
  | .send _ _ path | .renew _ _ path | .resend _ _ path => Rung us path
  | _ => True

theorem RingSound.loop {registry : Registry.State P} {hi i : Nat} :
    RingSound us registry (loop hi i) := by
  unfold Ringing.loop
  split <;> trivial

/-- A writer does not mislead a thread that rings. -/
theorem RingSound.moved (h : RingSound us s.registry pc)
    (hmoved : ∀ i, Moved s.registry t.registry i) {v : State P R} :
    RingSound (us ++ [v]) t.registry pc := by
  cases pc with
  | recheck hi i s1 => exact ⟨h.1, h.2.trans (hmoved i).le⟩
  | copy hi i s1 =>
    obtain ⟨heven, hle, hshown⟩ := h
    have hle' := (hmoved i).le
    refine ⟨heven, hle.trans hle', fun hseq => ?_⟩
    have hold : (s.registry.slot i).seq = s1 := by omega
    obtain hsame | hodd := (hmoved i).payload (by omega)
    · rw [hsame]
      exact (hshown hold).later
    · omega
  | verify hi i s1 path =>
    obtain ⟨heven, hle, hshown⟩ := h
    have hle' := (hmoved i).le
    exact ⟨heven, hle.trans hle', fun hseq => (hshown (by omega)).later⟩
  | send hi i path => exact Rung.later h
  | renew hi i path => exact Rung.later h
  | resend hi i path => exact Rung.later h
  | idle => trivial
  | socket => trivial
  | highWater => trivial
  | skip hi i => trivial
  | seq hi i => trivial

/-- What is known after a run through `us` to `t`. -/
structure Sound (us : List (State P R)) (t : State P R) : Prop where
  inv : Inv t.registry
  bounds : Bounds t.registry
  rings : ∀ r, RingSound us t.registry (t.rings r)
  queue : ∀ path, t.sockets.queue path ≠ [] → Rung us path

theorem Sound.init (maxEntries : Nat) :
    Sound [State.init P R maxEntries] (State.init P R maxEntries) where
  inv := Inv.init maxEntries
  bounds := Bounds.init maxEntries
  rings _ := trivial
  queue _ hpath := absurd rfl hpath

/-- `sendto` adds to the queue of its path. -/
theorem queue_sendto (limits : Limits) (k : Sockets) (fd : Nat) (path path' : List UInt8)
    (h : (k.sendto limits fd path).2.queue path' ≠ []) : path' = path ∨ k.queue path' ≠ [] := by
  unfold Sockets.sendto at h
  split at h
  · exact .inr h
  · split at h
    · by_cases heq : path' = path
      · exact .inl heq
      · refine .inr fun hnil => h ?_
        show Function.update k.queue path (k.queue path ++ [fd]) path' = []
        rw [Function.update_of_ne heq]
        exact hnil
    · exact .inr h

theorem queue_recv (k : Sockets) (path path' : List UInt8)
    (h : (k.recv path).queue path' ≠ []) : k.queue path' ≠ [] := by
  unfold Sockets.recv at h
  split at h
  · exact h
  · rename_i fd rest hqueue
    by_cases heq : path' = path
    · subst heq
      rw [hqueue]
      simp
    · have hother : Function.update k.queue path rest path' ≠ [] := h
      rw [Function.update_of_ne heq] at hother
      exact hother

theorem queue_close (k : Sockets) (path path' : List UInt8)
    (h : (k.close path).queue path' ≠ []) : k.queue path' ≠ [] := by
  have hother : Function.update k.queue path [] path' ≠ [] := h
  by_cases heq : path' = path
  · subst heq
    rw [Function.update_self] at hother
    exact absurd rfl hother
  · rw [Function.update_of_ne heq] at hother
    exact hother

theorem Moved.refl (registry : Registry.State P) (i : Nat) : Moved registry registry i :=
  ⟨Nat.le_refl _, fun _ => .inl rfl⟩

/-- A move that leaves the registry and the threads alone. -/
theorem Sound.sockets (h : Sound us s) (hregistry : t.registry = s.registry)
    (hrings : t.rings = s.rings)
    (hqueue : ∀ path, t.sockets.queue path ≠ [] → s.sockets.queue path ≠ []) :
    Sound (us ++ [t]) t where
  inv := by
    rw [hregistry]
    exact h.inv
  bounds := by
    rw [hregistry]
    exact h.bounds
  rings r := by
    rw [hrings]
    refine (h.rings r).moved fun i => ?_
    rw [hregistry]
    exact Moved.refl s.registry i
  queue path hpath := (h.queue path (hqueue path hpath)).later

variable [DecidableEq R]

/-- A thread goes on. -/
theorem Sound.goto (h : Sound us s) {sockets : Sockets} {fds : R → Option Nat}
    (hpc : ∀ v, RingSound (us ++ [v]) s.registry pc)
    (hqueue : ∀ path, sockets.queue path ≠ [] → s.sockets.queue path ≠ [] ∨ Rung us path) :
    Sound (us ++ [{ s with sockets := sockets, fds := fds }.goto r pc])
      ({ s with sockets := sockets, fds := fds }.goto r pc) where
  inv := h.inv
  bounds := h.bounds
  rings r' := by
    show RingSound _ s.registry (Function.update s.rings r pc r')
    by_cases hr : r' = r
    · subst hr
      rw [Function.update_self]
      exact hpc _
    · rw [Function.update_of_ne hr]
      exact (h.rings r').moved (t := s) (Moved.refl s.registry)
  queue path hpath :=
    ((hqueue path hpath).elim (h.queue path) id).later

theorem Sound.ringStep {limits : Limits} {granted : Bool} (h : Sound us s) (hlast : s ∈ us)
    (hok : RingOk s (.step r granted)) (hstep : ringStep limits s r granted = some t) :
    Sound (us ++ [t]) t := by
  have hmine := h.rings r
  unfold Ringing.ringStep at hstep
  split at hstep
  · cases hstep
  · cases hstep
    unfold State.newSocket
    split
    · exact h.goto (fun _ => trivial) fun _ => .inl
    · exact h.goto (fun _ => trivial) fun _ => .inl
  · cases hstep
    exact h.goto (fun _ => .loop) fun _ => .inl
  · cases hstep
    refine h.goto (fun _ => ?_) fun _ => .inl
    split
    · trivial
    · exact .loop
  · cases hstep
    refine h.goto (fun _ => ?_) fun _ => .inl
    split
    · exact .loop
    · rename_i heven
      refine ⟨?_, Nat.le_refl _⟩
      simp only [RegistryEntrySlot.seqWord] at heven
      omega
  · rename_i hi i s1 hpc
    cases hstep
    rw [hpc] at hmine
    refine h.goto (fun _ => ?_) fun _ => .inl
    split
    · rename_i hstate
      refine ⟨hmine.1, hmine.2, fun _ => ?_⟩
      obtain ⟨o, e, hocc⟩ := (h.inv.slots i).entry .doorbell hstate
      have htype : e.type = .doorbell := by
        have hpublished := hocc.state
        rw [hstate] at hpublished
        exact (SlotState.entry.inj hpublished).symm
      refine ⟨s, List.mem_append_left _ hlast, i, e, hocc.published h.bounds, htype, ?_⟩
      rw [hocc.payload]
    · exact .loop
  · rename_i hi i s1 hpc
    cases hstep
    rw [hpc] at hmine
    exact h.goto (fun _ => ⟨hmine.1, hmine.2.1, fun hseq => (hmine.2.2 hseq).later⟩)
      fun _ => .inl
  · rename_i hi i s1 path hpc
    cases hstep
    rw [hpc] at hmine
    have hwrap : (s.registry.slot i).seq < s1 + 2 ^ 32 := hok (i, s1) (by rw [hpc]; rfl)
    refine h.goto (fun _ => ?_) fun _ => .inl
    split
    · exact .loop
    · rename_i hsame
      rw [not_or, not_not] at hsame
      have hle := hmine.2.1
      have hword := hsame.1
      simp only [RegistryEntrySlot.seqWord] at hword
      have hseq : (s.registry.slot i).seq = s1 := by omega
      exact ⟨path, (hmine.2.2 hseq).later, rfl⟩
  · rename_i hi i path hpc
    rw [hpc] at hmine
    split at hstep
    · cases hstep
    · rename_i fd hfd
      cases hstep
      refine h.goto (fun _ => ?_) fun path' hpath' => ?_
      · split
        · exact Rung.later hmine
        · exact .loop
      · obtain rfl | hold := queue_sendto limits s.sockets fd path path' hpath'
        · exact .inr hmine
        · exact .inl hold
  · rename_i hi i path hpc
    rw [hpc] at hmine
    cases hstep
    unfold State.newSocket
    split
    · exact h.goto (fun _ => Rung.later hmine) fun _ => .inl
    · exact h.goto (fun _ => trivial) fun _ => .inl
  · rename_i hi i path hpc
    rw [hpc] at hmine
    split at hstep
    · cases hstep
    · rename_i fd hfd
      cases hstep
      refine h.goto (fun _ => .loop) fun path' hpath' => ?_
      obtain rfl | hold := queue_sendto limits s.sockets fd path path' hpath'
      · exact .inr hmine
      · exact .inl hold

variable [DecidableEq P]

theorem Sound.step {limits : Limits} {a : Act P R} (h : Sound us s) (hlast : s ∈ us)
    (hok : RingOk s a) (hstep : (machine P R limits).step s a = some t) :
    Sound (us ++ [t]) t := by
  cases a with
  | registry a =>
    obtain ⟨registry, hregistry, rfl⟩ := Option.map_eq_some_iff.mp hstep
    exact ⟨h.inv.step_of_crashOk hok hregistry, h.bounds.step h.inv hregistry,
      fun r => (h.rings r).moved (t := { s with registry := registry })
        (h.inv.moved_step hregistry),
      fun path hpath => (h.queue path hpath).later⟩
  | ring r =>
    simp only [machine, Ringing.step] at hstep
    split at hstep
    · cases hstep
      refine h.goto (fun _ => ?_) fun _ => .inl
      split <;> trivial
    · cases hstep
  | step r granted => exact h.ringStep hlast hok hstep
  | bind path =>
    cases hstep
    exact h.sockets rfl rfl fun _ => id
  | recv path =>
    cases hstep
    exact h.sockets rfl rfl fun path' => queue_recv s.sockets path path'
  | close path =>
    cases hstep
    exact h.sockets rfl rfl fun path' => queue_close s.sockets path path'

end Sound

/-- The thread uses its socket. -/
def RingPc.sends : RingPc → Bool
  | .idle | .socket => false
  | _ => true

/-- The sockets that the threads send from. -/
structure FdOk (s : State P R) : Prop where
  own : ∀ r r' fd, s.fds r = some fd → s.fds r' = some fd → r = r'
  opened : ∀ r fd, s.fds r = some fd → fd < s.sockets.next
  unused : ∀ fd, s.sockets.next ≤ fd → s.sockets.charged fd = 0
  renewed : ∀ r hi i path fd, s.rings r = .resend hi i path → s.fds r = some fd →
    s.sockets.charged fd = 0
  has : ∀ r, (s.rings r).sends = true → s.fds r ≠ none

section Fds

variable {s t : State P R} {r : R} {pc : RingPc}

omit [DecidableEq P] [DecidableEq R]

theorem FdOk.init (maxEntries : Nat) : FdOk (State.init P R maxEntries) where
  own r r' fd hr := by cases hr
  opened r fd hr := by cases hr
  unused _ _ := rfl
  renewed r hi i path fd hr := by cases hr
  has r hr := by cases hr

/-- Octets are received. -/
theorem FdOk.lower (h : FdOk s) (hrings : t.rings = s.rings) (hfds : t.fds = s.fds)
    (hnext : t.sockets.next = s.sockets.next)
    (hcharged : ∀ fd, t.sockets.charged fd ≤ s.sockets.charged fd) : FdOk t where
  own r r' fd := by
    rw [hfds]
    exact h.own r r' fd
  opened r fd := by
    rw [hfds, hnext]
    exact h.opened r fd
  unused fd hfd := by
    rw [hnext] at hfd
    have hold := h.unused fd hfd
    have hle := hcharged fd
    omega
  renewed r hi i path fd := by
    rw [hrings, hfds]
    intro hpc hfd
    have hold := h.renewed r hi i path fd hpc hfd
    have hle := hcharged fd
    omega
  has r := by
    rw [hrings, hfds]
    exact h.has r

theorem charged_recv (k : Sockets) (path : List UInt8) (fd : Nat) :
    (k.recv path).charged fd ≤ k.charged fd := by
  unfold Sockets.recv
  split
  · exact Nat.le_refl _
  · rename_i fd' rest _
    show Function.update k.charged fd' (k.charged fd' - 1) fd ≤ k.charged fd
    by_cases heq : fd = fd'
    · subst heq
      rw [Function.update_self]
      omega
    · rw [Function.update_of_ne heq]

theorem next_recv (k : Sockets) (path : List UInt8) : (k.recv path).next = k.next := by
  unfold Sockets.recv
  split <;> rfl

theorem next_sendto (limits : Limits) (k : Sockets) (fd : Nat) (path : List UInt8) :
    (k.sendto limits fd path).2.next = k.next := by
  unfold Sockets.sendto
  split
  · rfl
  · split <;> rfl

theorem charged_sendto (limits : Limits) (k : Sockets) {fd fd' : Nat} (path : List UInt8)
    (h : fd' ≠ fd) : (k.sendto limits fd path).2.charged fd' = k.charged fd' := by
  unfold Sockets.sendto
  split
  · rfl
  · split
    · exact Function.update_of_ne h ..
    · rfl

variable [DecidableEq R]

theorem rings_goto {r' : R} (hr : r' ≠ r) : (s.goto r pc).rings r' = s.rings r' :=
  Function.update_of_ne hr ..

theorem rings_goto_self : (s.goto r pc).rings r = pc :=
  Function.update_self ..

/-- A thread goes on with the socket that it has. -/
theorem FdOk.goto (h : FdOk s) (hpc : ∀ hi i path, pc ≠ .resend hi i path)
    (hhas : pc.sends = true → s.fds r ≠ none) : FdOk (s.goto r pc) where
  own := h.own
  opened := h.opened
  unused := h.unused
  renewed r' hi i path fd hat hfd := by
    by_cases hr : r' = r
    · subst hr
      rw [rings_goto_self] at hat
      exact absurd hat (hpc hi i path)
    · rw [rings_goto hr] at hat
      exact h.renewed r' hi i path fd hat hfd
  has r' hsends := by
    by_cases hr : r' = r
    · subst hr
      rw [rings_goto_self] at hsends
      exact hhas hsends
    · rw [rings_goto hr] at hsends
      exact h.has r' hsends

/-- A thread sends. -/
theorem FdOk.send (h : FdOk s) {limits : Limits} {fd : Nat} {path : List UInt8}
    (hfd : s.fds r = some fd) (hpc : ∀ hi i path, pc ≠ .resend hi i path) :
    FdOk ({ s with sockets := (s.sockets.sendto limits fd path).2 }.goto r pc) where
  own := h.own
  opened r' fd' hr' := by
    show fd' < (s.sockets.sendto limits fd path).2.next
    rw [next_sendto]
    exact h.opened r' fd' hr'
  unused fd' hfd' := by
    have hle : s.sockets.next ≤ fd' := by
      rw [← next_sendto limits s.sockets fd path]
      exact hfd'
    have hlt := h.opened r fd hfd
    show (s.sockets.sendto limits fd path).2.charged fd' = 0
    rw [charged_sendto limits s.sockets path (by omega)]
    exact h.unused fd' hle
  renewed r' hi i path' fd' hat hfd' := by
    by_cases hr : r' = r
    · subst hr
      rw [rings_goto_self] at hat
      exact absurd hat (hpc hi i path')
    · rw [rings_goto hr] at hat
      have hne : fd' ≠ fd := fun heq => hr (h.own r' r fd (heq ▸ hfd') hfd)
      show (s.sockets.sendto limits fd path).2.charged fd' = 0
      rw [charged_sendto limits s.sockets path hne]
      exact h.renewed r' hi i path' fd' hat hfd'
  has r' hsends := by
    by_cases hr : r' = r
    · subst hr
      show s.fds r' ≠ none
      rw [hfd]
      simp
    · rw [rings_goto hr] at hsends
      exact h.has r' hsends

/-- A thread asks for a socket. -/
theorem FdOk.newSocket (h : FdOk s) (granted : Bool) : FdOk (s.newSocket r granted pc) := by
  unfold State.newSocket
  cases granted with
  | false =>
    refine ⟨fun r' r'' fd hr' hr'' => ?_, fun r' fd hr' => ?_, h.unused,
      fun r' hi i path fd hat hfd => ?_, fun r' hsends => ?_⟩
    · have hold : ∀ r' : R, Function.update s.fds r none r' = some fd → s.fds r' = some fd := by
        intro r' hr'
        by_cases hr : r' = r
        · subst hr
          rw [Function.update_self] at hr'
          cases hr'
        · rwa [Function.update_of_ne hr] at hr'
      exact h.own r' r'' fd (hold r' hr') (hold r'' hr'')
    all_goals by_cases hr : r' = r
    · subst hr
      have hself : Function.update s.fds r' none r' = some fd := hr'
      rw [Function.update_self] at hself
      cases hself
    · have hother : Function.update s.fds r none r' = some fd := hr'
      rw [Function.update_of_ne hr] at hother
      exact h.opened r' fd hother
    · subst hr
      have hself : Function.update s.fds r' none r' = some fd := hfd
      rw [Function.update_self] at hself
      cases hself
    · have hother : Function.update s.fds r none r' = some fd := hfd
      rw [Function.update_of_ne hr] at hother
      have hat' : Function.update s.rings r .idle r' = .resend hi i path := hat
      rw [Function.update_of_ne hr] at hat'
      exact h.renewed r' hi i path fd hat' hother
    · subst hr
      have hself : (Function.update s.rings r' .idle r').sends = true := hsends
      rw [Function.update_self] at hself
      cases hself
    · have hother : (Function.update s.rings r .idle r').sends = true := hsends
      rw [Function.update_of_ne hr] at hother
      show Function.update s.fds r none r' ≠ none
      rw [Function.update_of_ne hr]
      exact h.has r' hother
  | true =>
    have hnew : ∀ r' fd, Function.update s.fds r (some s.sockets.next) r' = some fd →
        (r' = r ∧ fd = s.sockets.next) ∨ (r' ≠ r ∧ s.fds r' = some fd) := by
      intro r' fd hr'
      by_cases hr : r' = r
      · subst hr
        rw [Function.update_self] at hr'
        exact .inl ⟨rfl, (Option.some.inj hr').symm⟩
      · rw [Function.update_of_ne hr] at hr'
        exact .inr ⟨hr, hr'⟩
    refine ⟨fun r' r'' fd hr' hr'' => ?_, fun r' fd hr' => ?_, fun fd hfd => ?_,
      fun r' hi i path fd hat hfd => ?_, fun r' hsends => ?_⟩
    · obtain ⟨hr, hfd⟩ | ⟨_, hold⟩ := hnew r' fd hr' <;>
        obtain ⟨hr₂, hfd₂⟩ | ⟨_, hold₂⟩ := hnew r'' fd hr''
      · rw [hr, hr₂]
      · have hlt := h.opened r'' fd hold₂
        omega
      · have hlt := h.opened r' fd hold
        omega
      · exact h.own r' r'' fd hold hold₂
    · show fd < s.sockets.next + 1
      obtain ⟨_, hfd⟩ | ⟨_, hold⟩ := hnew r' fd hr'
      · omega
      · have hlt := h.opened r' fd hold
        omega
    · exact h.unused fd (Nat.le_of_succ_le hfd)
    · obtain ⟨_, hfd'⟩ | ⟨hr, hold⟩ := hnew r' fd hfd
      · exact h.unused fd (Nat.le_of_eq hfd'.symm)
      · have hother : Function.update s.rings r pc r' = .resend hi i path := hat
        rw [Function.update_of_ne hr] at hother
        exact h.renewed r' hi i path fd hother hold
    · show Function.update s.fds r (some s.sockets.next) r' ≠ none
      by_cases hr : r' = r
      · subst hr
        rw [Function.update_self]
        simp
      · have hother : (Function.update s.rings r pc r').sends = true := hsends
        rw [Function.update_of_ne hr] at hother ⊢
        exact h.has r' hother

theorem sends_loop (hi i : Nat) : (∀ hi' i' path, loop hi i ≠ .resend hi' i' path) := by
  intro hi' i' path heq
  unfold loop at heq
  split at heq <;> cases heq

theorem FdOk.ringStep {limits : Limits} {granted : Bool} (h : FdOk s)
    (hstep : ringStep limits s r granted = some t) : FdOk t := by
  have hhas := h.has r
  unfold Ringing.ringStep at hstep
  split at hstep
  · cases hstep
  · cases hstep
    exact h.newSocket granted
  · rename_i hpc
    cases hstep
    exact h.goto (sends_loop _ _) fun _ => hhas (by rw [hpc]; rfl)
  · rename_i hpc
    cases hstep
    refine h.goto ?_ fun _ => hhas (by rw [hpc]; rfl)
    split
    · simp
    · exact sends_loop _ _
  · rename_i hpc
    cases hstep
    refine h.goto ?_ fun _ => hhas (by rw [hpc]; rfl)
    split
    · exact sends_loop _ _
    · simp
  · rename_i hpc
    cases hstep
    refine h.goto ?_ fun _ => hhas (by rw [hpc]; rfl)
    split
    · simp
    · exact sends_loop _ _
  · rename_i hpc
    cases hstep
    exact h.goto (by simp) fun _ => hhas (by rw [hpc]; rfl)
  · rename_i hpc
    cases hstep
    refine h.goto ?_ fun _ => hhas (by rw [hpc]; rfl)
    split
    · exact sends_loop _ _
    · simp
  · split at hstep
    · cases hstep
    · rename_i fd hfd
      cases hstep
      refine h.send hfd ?_
      split
      · simp
      · exact sends_loop _ _
  · cases hstep
    exact h.newSocket granted
  · split at hstep
    · cases hstep
    · rename_i fd hfd
      cases hstep
      exact h.send hfd (sends_loop _ _)

variable [DecidableEq P]

theorem FdOk.step {limits : Limits} {a : Act P R} (h : FdOk s)
    (hstep : (machine P R limits).step s a = some t) : FdOk t := by
  cases a with
  | registry a =>
    obtain ⟨registry, _, rfl⟩ := Option.map_eq_some_iff.mp hstep
    exact h.lower rfl rfl rfl fun _ => Nat.le_refl _
  | ring r =>
    simp only [machine, Ringing.step] at hstep
    split at hstep
    · cases hstep
      split
      · exact h.goto (by simp) fun hsends => by cases hsends
      · rename_i hfd
        exact h.goto (by simp) fun _ => hfd
    · cases hstep
  | step r granted => exact h.ringStep hstep
  | bind path =>
    cases hstep
    exact h.lower rfl rfl rfl fun _ => Nat.le_refl _
  | recv path =>
    cases hstep
    exact h.lower rfl rfl (next_recv s.sockets path) (charged_recv s.sockets path)
  | close path =>
    cases hstep
    exact h.lower rfl rfl rfl fun fd => Nat.sub_le _ _

end Fds

/-! ## No doorbell is left out -/

/-- How many steps a thread has at most before it ends, by the high-water mark. -/
def RingPc.fuel (highWater : Nat) : RingPc → Nat
  | .idle => 0
  | .socket => highWater * 10 + 12
  | .highWater => highWater * 10 + 11
  | .skip hi i => (hi - i) * 10 + 9
  | .seq hi i => (hi - i) * 10 + 8
  | .recheck hi i _ => (hi - i) * 10 + 7
  | .copy hi i _ => (hi - i) * 10 + 6
  | .verify hi i _ _ => (hi - i) * 10 + 5
  | .send hi i _ => (hi - i) * 10 + 4
  | .renew hi i _ => (hi - i) * 10 + 3
  | .resend hi i _ => (hi - i) * 10 + 2

section Reaches

variable {us : List (State P R)} {s t : State P R} {r : R} {pc : RingPc} {p : P} {i : Nat}
  {e : RegistryEntry P}

omit [DecidableEq P] [DecidableEq R]

/-- The address of an entry. -/
def address (e : RegistryEntry P) : List UInt8 :=
  sunPath (e.payload .socketPath)

/-- An octet was queued at the address. -/
def HasOctet (us : List (State P R)) (path : List UInt8) : Prop :=
  ∃ u ∈ us, u.sockets.queue path ≠ []

theorem HasOctet.later {path : List UInt8} (h : HasOctet us path) :
    HasOctet (us ++ [t]) path := by
  obtain ⟨u, hu, hqueue⟩ := h
  exact ⟨u, List.mem_append_left _ hu, hqueue⟩

/-- A thread that rings has queued an octet at the address of slot `i`, or is on its way
there. -/
def RingSeeks (us : List (State P R)) (slot : RegistryEntrySlot P) (i : Nat)
    (e : RegistryEntry P) : RingPc → Prop
  | .idle => HasOctet us (address e)
  | .socket | .highWater => True
  | .skip hi j | .seq hi j => i < hi ∧ (i < j → HasOctet us (address e))
  | .recheck hi j s1 | .copy hi j s1 =>
    i < hi ∧ (i < j → HasOctet us (address e)) ∧ (j = i → s1 = slot.seq)
  | .verify hi j s1 path =>
    i < hi ∧ (i < j → HasOctet us (address e)) ∧
      (j = i → s1 = slot.seq ∧ path = e.payload .socketPath)
  | .send hi j path | .renew hi j path | .resend hi j path =>
    i < hi ∧ (i < j → HasOctet us (address e)) ∧ (j = i → path = address e)

theorem RingSeeks.later {slot : RegistryEntrySlot P} (h : RingSeeks us slot i e pc) :
    RingSeeks (us ++ [t]) slot i e pc := by
  cases pc with
  | idle => exact HasOctet.later h
  | socket => trivial
  | highWater => trivial
  | skip hi j => exact ⟨h.1, fun hlt => (h.2 hlt).later⟩
  | seq hi j => exact ⟨h.1, fun hlt => (h.2 hlt).later⟩
  | recheck hi j s1 => exact ⟨h.1, fun hlt => (h.2.1 hlt).later, h.2.2⟩
  | copy hi j s1 => exact ⟨h.1, fun hlt => (h.2.1 hlt).later, h.2.2⟩
  | verify hi j s1 path => exact ⟨h.1, fun hlt => (h.2.1 hlt).later, h.2.2⟩
  | send hi j path => exact ⟨h.1, fun hlt => (h.2.1 hlt).later, h.2.2⟩
  | renew hi j path => exact ⟨h.1, fun hlt => (h.2.1 hlt).later, h.2.2⟩
  | resend hi j path => exact ⟨h.1, fun hlt => (h.2.1 hlt).later, h.2.2⟩

/-- The head of the loop: the slots before `j` are done. -/
theorem RingSeeks.loop {slot : RegistryEntrySlot P} {hi j : Nat} (hlt : i < hi)
    (hdone : i < j → HasOctet us (address e)) : RingSeeks us slot i e (loop hi j) := by
  unfold Ringing.loop
  split
  · exact ⟨hlt, hdone⟩
  · exact hdone (by omega)

/-- The next turn of the loop, when slot `i` is not the one that is left out. -/
theorem RingSeeks.next {slot : RegistryEntrySlot P} {hi j : Nat} (hlt : i < hi)
    (hdone : i < j → HasOctet us (address e)) (hhere : j = i → HasOctet us (address e)) :
    RingSeeks us slot i e (Ringing.loop hi (j + 1)) := by
  refine .loop hlt fun hlt' => ?_
  by_cases heq : j = i
  · exact hhere heq
  · exact hdone (by omega)

/-- `sendto` to a bound socket queues an octet, or it answers `EAGAIN`. -/
theorem sendto_bound (limits : Limits) (fd : Nat) {k : Sockets} {path : List UInt8}
    (hbound : k.bound path = true) :
    (k.sendto limits fd path).2.queue path ≠ [] ∨ (k.sendto limits fd path).1 = .again := by
  unfold Sockets.sendto
  rw [if_neg (by simp [hbound])]
  split
  · refine .inl ?_
    show Function.update k.queue path (k.queue path ++ [fd]) path ≠ []
    rw [Function.update_self]
    simp
  · exact .inr rfl

/-- `EAGAIN` on a socket that nothing is charged to: the queue is full. -/
theorem sendto_fresh {limits : Limits} {k : Sockets} {fd : Nat} {path : List UInt8}
    (hbound : k.bound path = true) (hfresh : k.charged fd = 0) :
    (k.sendto limits fd path).2.queue path ≠ [] := by
  obtain hqueued | hagain := sendto_bound limits fd hbound
  · exact hqueued
  · unfold Sockets.sendto at hagain ⊢
    rw [if_neg (by simp [hbound])] at hagain ⊢
    split at hagain
    · cases hagain
    · rename_i hfull
      rw [if_neg hfull]
      intro hnil
      have hpos := limits.queued_pos
      have hbudget := limits.charged_pos
      have hnil' : k.queue path = [] := hnil
      rw [hnil', hfresh] at hfull
      exact hfull ⟨hpos, hbudget⟩

/-- Process `p` has a doorbell in slot `i`, its socket is bound, thread `r` rings, and it
gets the sockets that it asks for. -/
def DuringRing (r : R) (p : P) (i : Nat) (e : RegistryEntry P) (s : State P R)
    (a : Act P R) : Prop :=
  RingOk s a ∧ (i, e) ∈ (s.registry.procs p).held ∧ s.sockets.bound (address e) = true ∧
    s.rings r ≠ .idle ∧ a ≠ .step r false

/-- Only thread `r` moves. -/
def RingAlone (r : R) (_ : State P R) (a : Act P R) : Prop :=
  a = .step r true

variable [DecidableEq R]

/-- A thread that rings does not leave out a slot that is held. -/
theorem RingSeeks.ringStep {limits : Limits}
    (h : RingSeeks us (s.registry.slot i) i e (s.rings r)) (hfds : FdOk s)
    (hocc : Occupied s.registry i p e) (hhigh : i < s.registry.region.highWaterSlot)
    (htype : e.type = .doorbell) (hpath : cstr (e.payload .socketPath) ≠ [])
    (hbound : s.sockets.bound (address e) = true)
    (hstep : ringStep limits s r true = some t) :
    RingSeeks (us ++ [t]) (s.registry.slot i) i e (t.rings r) := by
  have hstate := hocc.state
  rw [htype] at hstate
  have hgoto : ∀ (k : Sockets) (f : R → Option Nat) (pc : RingPc),
      (({ s with sockets := k, fds := f } : State P R).goto r pc).rings r = pc :=
    fun _ _ _ => Function.update_self ..
  unfold Ringing.ringStep at hstep
  split at hstep
  · cases hstep
  · cases hstep
    rw [State.newSocket, if_pos rfl, hgoto]
    trivial
  · cases hstep
    rw [hgoto]
    exact .loop hhigh fun hlt => absurd hlt (Nat.not_lt_zero i)
  · rename_i hi j hpc
    rw [hpc] at h
    cases hstep
    rw [hgoto]
    split
    · exact (h.later :)
    · rename_i hskip
      exact .next h.1 (fun hlt => (h.2 hlt).later) fun heq => absurd (heq ▸ hstate) hskip
  · rename_i hi j hpc
    rw [hpc] at h
    cases hstep
    rw [hgoto]
    split
    · rename_i hodd
      refine .next h.1 (fun hlt => (h.2 hlt).later) fun heq => ?_
      subst heq
      have heven := hocc.even
      simp only [RegistryEntrySlot.seqWord] at hodd
      omega
    · exact ⟨h.1, fun hlt => (h.2 hlt).later, fun heq => heq ▸ rfl⟩
  · rename_i hi j s1 hpc
    rw [hpc] at h
    cases hstep
    rw [hgoto]
    split
    · exact (h.later :)
    · rename_i hskip
      exact .next h.1 (fun hlt => (h.2.1 hlt).later) fun heq => absurd (heq ▸ hstate) hskip
  · rename_i hi j s1 hpc
    rw [hpc] at h
    cases hstep
    rw [hgoto]
    refine ⟨h.1, fun hlt => (h.2.1 hlt).later, fun heq => ⟨h.2.2 heq, ?_⟩⟩
    subst heq
    rw [hocc.payload]
  · rename_i hi j s1 path hpc
    rw [hpc] at h
    cases hstep
    rw [hgoto]
    split
    · rename_i hmoved
      refine .next h.1 (fun hlt => (h.2.1 hlt).later) fun heq => ?_
      obtain ⟨hseq, hcopied⟩ := h.2.2 heq
      subst heq
      obtain hword | hnil := hmoved
      · exact absurd (by rw [hseq]; rfl) hword
      · exact absurd (hcopied ▸ hnil) hpath
    · refine ⟨h.1, fun hlt => (h.2.1 hlt).later, fun heq => ?_⟩
      rw [(h.2.2 heq).2]
      rfl
  · rename_i hi j path hpc
    rw [hpc] at h
    split at hstep
    · cases hstep
    · rename_i fd hfd
      cases hstep
      rw [hgoto]
      split
      · exact (h.later :)
      · rename_i hsent
        refine .next h.1 (fun hlt => (h.2.1 hlt).later) fun heq => ?_
        have haddress := h.2.2 heq
        subst haddress
        obtain hqueued | hagain := sendto_bound limits fd hbound
        · exact ⟨_, List.mem_append_right _ (List.mem_singleton_self _), hqueued⟩
        · exact absurd hagain hsent
  · rename_i hi j path hpc
    rw [hpc] at h
    cases hstep
    rw [State.newSocket, if_pos rfl, hgoto]
    exact (h.later :)
  · rename_i hi j path hpc
    rw [hpc] at h
    split at hstep
    · cases hstep
    · rename_i fd hfd
      cases hstep
      rw [hgoto]
      refine .next h.1 (fun hlt => (h.2.1 hlt).later) fun heq => ?_
      have haddress := h.2.2 heq
      subst haddress
      have hfresh := hfds.renewed r hi j (address e) fd hpc hfd
      exact ⟨_, List.mem_append_right _ (List.mem_singleton_self _),
        sendto_fresh hbound hfresh⟩

/-- Ringing only reads the registry. -/
theorem registry_ringStep {limits : Limits} {granted : Bool}
    (hstep : Ringing.ringStep limits s r granted = some t) : t.registry = s.registry := by
  unfold Ringing.ringStep State.newSocket at hstep
  split at hstep <;> (try split at hstep) <;> (try split at hstep) <;> cases hstep <;> rfl

theorem rings_ringStep {limits : Limits} {granted : Bool} {r' : R}
    (hstep : Ringing.ringStep limits s r' granted = some t) (hr : r ≠ r') :
    t.rings r = s.rings r := by
  have hframe : ∀ (k : Sockets) (f : R → Option Nat) (pc : RingPc),
      (({ s with sockets := k, fds := f } : State P R).goto r' pc).rings r = s.rings r :=
    fun _ _ _ => rings_goto hr
  unfold Ringing.ringStep State.newSocket at hstep
  split at hstep <;> (try split at hstep) <;> (try split at hstep) <;> cases hstep <;>
    exact hframe ..

variable [DecidableEq P]

theorem RingSeeks.step {limits : Limits} {a : Act P R}
    (h : RingSeeks us (s.registry.slot i) i e (s.rings r)) (hinv : Inv s.registry)
    (hbounds : Bounds s.registry) (hfds : FdOk s) (htype : e.type = .doorbell)
    (hpath : cstr (e.payload .socketPath) ≠ []) (hok : DuringRing r p i e s a)
    (hstep : (machine P R limits).step s a = some t) :
    RingSeeks (us ++ [t]) (t.registry.slot i) i e (t.rings r) := by
  obtain ⟨hring, hheld, hbound, hringing, hgranted⟩ := hok
  have hocc := (hinv.locals p).held i e hheld
  cases a with
  | registry a =>
    obtain ⟨registry, hregistry, rfl⟩ := Option.map_eq_some_iff.mp hstep
    show RingSeeks _ (registry.slot i) i e (s.rings r)
    rw [hinv.slot_of_held hheld hring.2.1 hregistry]
    exact h.later
  | ring r' =>
    simp only [machine, Ringing.step] at hstep
    split at hstep
    · rename_i hidle
      cases hstep
      have hr : r ≠ r' := fun heq => hringing (heq ▸ hidle)
      rw [rings_goto hr]
      exact h.later
    · cases hstep
  | step r' granted =>
    by_cases hr : r = r'
    · subst hr
      cases granted with
      | false => exact absurd rfl hgranted
      | true =>
        rw [registry_ringStep hstep]
        exact h.ringStep hfds hocc (hinv.scanned_of_held hbounds hheld).1 htype hpath hbound
          hstep
    · rw [rings_ringStep hstep hr, registry_ringStep hstep]
      exact h.later
  | bind path =>
    cases hstep
    exact h.later
  | recv path =>
    cases hstep
    exact h.later
  | close path =>
    cases hstep
    exact h.later

/-! ## The result -/

omit [DecidableEq P] [DecidableEq R] in
theorem fuel_loop (highWater hi i : Nat) :
    (Ringing.loop hi (i + 1)).fuel highWater < (hi - i) * 10 + 2 := by
  unfold Ringing.loop
  split
  · show (hi - (i + 1)) * 10 + 9 < (hi - i) * 10 + 2
    omega
  · show 0 < (hi - i) * 10 + 2
    omega

omit [DecidableEq P] in
/-- A thread that rings and gets its sockets goes on. -/
theorem exists_ringStep (limits : Limits) (hfds : FdOk s) (hringing : s.rings r ≠ .idle) :
    ∃ t, Ringing.ringStep limits s r true = some t ∧
      t.registry.region.highWaterSlot = s.registry.region.highWaterSlot ∧
      (t.rings r).fuel s.registry.region.highWaterSlot <
        (s.rings r).fuel s.registry.region.highWaterSlot := by
  have hhas := hfds.has r
  have hgoto : ∀ (k : Sockets) (f : R → Option Nat) (pc : RingPc),
      (({ s with sockets := k, fds := f } : State P R).goto r pc).rings r = pc :=
    fun _ _ _ => Function.update_self ..
  have hfd : ∀ pc, s.rings r = pc → pc.sends = true → ∃ fd, s.fds r = some fd :=
    fun pc hpc hsends => Option.ne_none_iff_exists'.mp (hhas (hpc ▸ hsends))
  unfold Ringing.ringStep
  cases hpc : s.rings r with
  | idle => exact absurd hpc hringing
  | socket =>
    refine ⟨_, rfl, rfl, ?_⟩
    rw [State.newSocket, if_pos rfl, hgoto]
    exact Nat.lt_succ_self _
  | highWater =>
    refine ⟨_, rfl, rfl, ?_⟩
    rw [hgoto]
    unfold Ringing.loop
    split
    · show (_ - 0) * 10 + 9 < _ * 10 + 11
      omega
    · exact Nat.succ_pos _
  | skip hi j =>
    refine ⟨_, rfl, rfl, ?_⟩
    rw [hgoto]
    have hloop := fuel_loop s.registry.region.highWaterSlot hi j
    split
    · exact Nat.lt_succ_self _
    · show _ < (hi - j) * 10 + 9
      omega
  | seq hi j =>
    refine ⟨_, rfl, rfl, ?_⟩
    rw [hgoto]
    have hloop := fuel_loop s.registry.region.highWaterSlot hi j
    split
    · show _ < (hi - j) * 10 + 8
      omega
    · exact Nat.lt_succ_self _
  | recheck hi j s1 =>
    refine ⟨_, rfl, rfl, ?_⟩
    rw [hgoto]
    have hloop := fuel_loop s.registry.region.highWaterSlot hi j
    split
    · exact Nat.lt_succ_self _
    · show _ < (hi - j) * 10 + 7
      omega
  | copy hi j s1 =>
    refine ⟨_, rfl, rfl, ?_⟩
    rw [hgoto]
    exact Nat.lt_succ_self _
  | verify hi j s1 path =>
    refine ⟨_, rfl, rfl, ?_⟩
    rw [hgoto]
    have hloop := fuel_loop s.registry.region.highWaterSlot hi j
    split
    · show _ < (hi - j) * 10 + 5
      omega
    · exact Nat.lt_succ_self _
  | send hi j path =>
    obtain ⟨fd, hfd⟩ := hfd _ hpc rfl
    have hloop := fuel_loop s.registry.region.highWaterSlot hi j
    simp only [hfd]
    refine ⟨_, rfl, rfl, ?_⟩
    rw [hgoto]
    split
    · exact Nat.lt_succ_self _
    · show _ < (hi - j) * 10 + 4
      omega
  | renew hi j path =>
    refine ⟨_, rfl, rfl, ?_⟩
    rw [State.newSocket, if_pos rfl, hgoto]
    exact Nat.lt_succ_self _
  | resend hi j path =>
    obtain ⟨fd, hfd⟩ := hfd _ hpc rfl
    have hloop := fuel_loop s.registry.region.highWaterSlot hi j
    simp only [hfd]
    refine ⟨_, rfl, rfl, ?_⟩
    rw [hgoto]
    exact hloop

/-- The invariants of the registry beside the threads that ring. -/
theorem registry_invariants {limits : Limits} {a : Act P R}
    (h : Inv s.registry ∧ Bounds s.registry) (hok : RingOk s a)
    (hstep : (machine P R limits).step s a = some t) :
    Inv t.registry ∧ Bounds t.registry := by
  cases a with
  | registry a =>
    obtain ⟨registry, hregistry, rfl⟩ := Option.map_eq_some_iff.mp hstep
    exact ⟨h.1.step_of_crashOk hok hregistry, h.2.step h.1 hregistry⟩
  | ring r =>
    simp only [machine, Ringing.step] at hstep
    split at hstep
    · cases hstep
      exact h
    · cases hstep
  | step r granted =>
    rw [registry_ringStep hstep]
    exact h
  | bind path =>
    cases hstep
    exact h
  | recv path =>
    cases hstep
    exact h
  | close path =>
    cases hstep
    exact h

end Reaches

/-! ## A run on fixed entries -/

/-- The entry of a doorbell of process `p` whose path is one letter. -/
def doorbellEntry (p : P) (letter : UInt8) : RegistryEntry P where
  type := .doorbell
  payload
    | .pid => some p
    | .socketPath => [letter]
    | f => Field.zero _ f

/-- A sender may have one octet in all queues. -/
def oneOctet : Limits := ⟨2, 1, by decide, by decide⟩

/-- Process 0 registers two doorbells, and a thread starts to ring. -/
def twoDoorbells : List (Act (Fin 2) Unit) :=
  .registry (.call 0 (.add (doorbellEntry 0 97))) :: (steps 0 19).map .registry ++
  .registry (.call 0 (.add (doorbellEntry 0 98))) :: (steps 0 20).map .registry ++
  [.bind [97], .bind [98], .ring ()]

instance [Fintype P] (s : State P R) (a : Act P R) : Decidable (RingOk s a) :=
  match a with
  | .registry a => inferInstanceAs (Decidable (CrashOk s.registry a))
  | .step r _ =>
    inferInstanceAs (Decidable
      (∀ x ∈ (s.rings r).compares, (s.registry.slot x.1).seq < x.2 + 2 ^ 32))
  | .ring _ => isTrue trivial
  | .bind _ => isTrue trivial
  | .recv _ => isTrue trivial
  | .close _ => isTrue trivial

/-- The slot, the type and the path of what process 0 has added last. -/
def newestDoorbell (s : State (Fin 2) Unit) : Option (Nat × RegistryEntryType × List UInt8) :=
  (s.registry.procs 0).held.head?.map fun h => (h.1, h.2.type, cstr (h.2.payload .socketPath))

/-- Only the thread moves, it rings, and both sockets are bound. -/
def RingsTwo (s : State (Fin 2) Unit) (a : Act (Fin 2) Unit) : Prop :=
  (RingOk s a ∧ s.sockets.bound [98] = true ∧ s.rings () ≠ .idle) ∧
    match a with
    | .step _ granted => granted = true
    | _ => False

instance (s : State (Fin 2) Unit) (a : Act (Fin 2) Unit) : Decidable (RingsTwo s a) :=
  match a with
  | .step _ _ => inferInstanceAs (Decidable (_ ∧ _))
  | .registry _ => isFalse (fun h => h.2)
  | .ring _ => isFalse (fun h => h.2)
  | .bind _ => isFalse (fun h => h.2)
  | .recv _ => isFalse (fun h => h.2)
  | .close _ => isFalse (fun h => h.2)

end RmwUnixSocket.Registry.Ringing
