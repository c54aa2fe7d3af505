import RmwUnixSocket.Receive.Drain

/-!
# Threads that drain and take

Any number of threads drain one subscription, in `rmw_wait` or in `rmw_take`, and those in
`rmw_take` pop from the queue.  The receive, the filter, the push with its trim, and the pop
are separate steps: the mutex of the queue covers the push and the pop, and nothing covers a
receive together with the push that follows it.

* The two drains are one function for a subscription (`drainSocket_subscription`), so a call is
  only told apart by what it does when the socket is empty.
* A datagram has a number, its place in the order of arrival.  The messages that the queue holds
  at the start come first.
* `accepted`, `taken` and `trimmed` are ghosts: the numbers that have passed the filter, the
  messages that were popped, and those that a trim has dropped, with what it left behind them.

`drain_alone` joins the steps of one thread to `drainSubscription`.
-/

namespace RmwUnixSocket.Receive.Concurrent

open Wire (WireHeader Cache SHM_PAYLOAD_FLAG shmResolveIncoming)

/-! ## Steps of a drain -/

/-- The filter of a drain, between the receive and the push. -/
def filterMessage (sub : UdsSubscription) (cache : Cache) (d : Arrived) (hdr : WireHeader)
    (payload : List UInt8) : Cache × Option ReceivedMessage :=
  if hdr.msgType &&& ~~~SHM_PAYLOAD_FLAG ≠ 0 then (cache, none)
  else if isReplayedDuplicate sub hdr then (cache, none)
  else
    match shmResolveIncoming d.shm d.mmapOk cache hdr payload with
    | (cache, none) => (cache, none)
    | (cache, some (hdr, payload)) =>
      if sub.ignoreLocalPublications && isSameContext hdr sub.contextId then (cache, none)
      else (cache, some ⟨hdr, payload, d.now⟩)

/-- A message with its place in the order of arrival. -/
structure Queued where
  arrival : Nat
  msg : ReceivedMessage
deriving DecidableEq

/-- A message that a trim has dropped, and the queue that was behind it. -/
structure Trimmed where
  dropped : Queued
  rest : List Queued
deriving DecidableEq

/-- The trim, as `popOver`, with what it drops. -/
def trim (depth : Nat) : List Queued → List Queued × List Trimmed
  | [] => ([], [])
  | m :: queue =>
    if depth < (m :: queue).length then
      ((trim depth queue).1, ⟨m, queue⟩ :: (trim depth queue).2)
    else (m :: queue, [])

/-! ## The machine -/

/-- The call that a thread is in. -/
inductive Call
  | rmwWait
  | rmwTake
deriving DecidableEq

inductive Pc
  | idle
  | recv (call : Call)
  | filter (call : Call) (arrival : Nat) (d : Arrived) (hdr : WireHeader)
      (payload : List UInt8)
  | push (call : Call) (m : Queued)
  | pop

/-- Where a call goes on when `recv_from` has returned false. -/
def Call.afterDrain : Call → Pc
  | .rmwWait => .idle
  | .rmwTake => .pop

structure State (T : Type) where
  sent : Nat
  socket : List (Nat × Arrived)
  shmCache : Cache
  queue : List Queued
  threads : T → Pc
  accepted : List Nat
  taken : List Queued
  trimmed : List Trimmed

variable {T : Type} [DecidableEq T]

/-- The subscription with its queue, before any thread runs. -/
def init (T : Type) (sub : UdsSubscription) : State T where
  sent := sub.messageQueue.length
  socket := []
  shmCache := sub.shmCache
  queue := sub.messageQueue.zipIdx.map fun p => ⟨p.2, p.1⟩
  threads := fun _ => .idle
  accepted := List.range sub.messageQueue.length
  taken := []
  trimmed := []

/-- `error` is a `recv` that fails, and not because the socket is empty. -/
inductive Act (T : Type)
  | send (d : Arrived)
  | call (t : T) (call : Call)
  | run (t : T) (error : Bool)

namespace State

def goto (s : State T) (t : T) (pc : Pc) : State T :=
  { s with threads := Function.update s.threads t pc }

/-- `recv_from`: junk is skipped, and false ends the drain. -/
def recv (s : State T) (t : T) (call : Call) (error : Bool) : State T :=
  if error then s.goto t call.afterDrain
  else
    match s.socket with
    | [] => s.goto t call.afterDrain
    | (arrival, d) :: socket =>
      match Wire.recvFrom d.bytes with
      | none => { s with socket }.goto t (.recv call)
      | some (hdr, payload) =>
        { s with socket }.goto t (.filter call arrival d hdr payload)

/-- The filter. -/
def filter (sub : UdsSubscription) (s : State T) (t : T) (call : Call) (arrival : Nat)
    (d : Arrived) (hdr : WireHeader) (payload : List UInt8) : State T :=
  match filterMessage sub s.shmCache d hdr payload with
  | (shmCache, none) => { s with shmCache }.goto t (.recv call)
  | (shmCache, some msg) =>
    { s with shmCache, accepted := s.accepted ++ [arrival] }.goto t (.push call ⟨arrival, msg⟩)

/-- `push_back` and the trim, under `queue_mutex`. -/
def push (sub : UdsSubscription) (s : State T) (t : T) (call : Call) (m : Queued) : State T :=
  let trimmed := trim sub.queueDepth (s.queue ++ [m])
  { s with queue := trimmed.1, trimmed := s.trimmed ++ trimmed.2 }.goto t (.recv call)

/-- The pop, under `queue_mutex`. -/
def pop (s : State T) (t : T) : State T :=
  match s.queue with
  | [] => s.goto t .idle
  | m :: queue => { s with queue, taken := s.taken ++ [m] }.goto t .idle

end State

def step (sub : UdsSubscription) (s : State T) : Act T → Option (State T)
  | .send d => some { s with sent := s.sent + 1, socket := s.socket ++ [(s.sent, d)] }
  | .call t call =>
    match s.threads t with
    | .idle => some (s.goto t (.recv call))
    | _ => none
  | .run t error =>
    match s.threads t with
    | .idle => none
    | .recv call => some (s.recv t call error)
    | .filter call arrival d hdr payload => some (s.filter sub t call arrival d hdr payload)
    | .push call m => some (s.push sub t call m)
    | .pop => some (s.pop t)

def machine (T : Type) [DecidableEq T] (sub : UdsSubscription) :
    Machine (State T) (Act T) where
  step := step sub

/-- No message that arrived later is in the queue or has been taken. -/
def InTurn (s : State T) (m : Queued) : Prop :=
  ∀ m' ∈ s.taken ++ s.queue, m'.arrival < m.arrival

/-- A push is made in turn. -/
def InOrder (s : State T) : Act T → Prop
  | .run t _ => ∀ call m, s.threads t = .push call m → InTurn s m
  | _ => True

/-! ## The trim -/

theorem trim_queue (depth : Nat) (queue : List Queued) :
    (trim depth queue).1.map (·.msg) = popOver depth (queue.map (·.msg)) := by
  induction queue with
  | nil => rfl
  | cons m queue ih =>
    simp only [trim, popOver, List.map_cons, List.length_cons, List.length_map]
    split
    · exact ih
    · rfl

/-- What was dropped and what is left make up the queue. -/
theorem trim_split (depth : Nat) (queue : List Queued) :
    (trim depth queue).2.map (·.dropped) ++ (trim depth queue).1 = queue := by
  induction queue with
  | nil => rfl
  | cons m queue ih =>
    simp only [trim]
    split
    · simp [ih]
    · rfl

/-- A trim drops only from a queue that is over its depth, and in front of the rest. -/
theorem trim_overflow {depth : Nat} {queue : List Queued} {x : Trimmed}
    (hx : x ∈ (trim depth queue).2) :
    depth < x.rest.length + 1 ∧ x.dropped :: x.rest <:+ queue := by
  induction queue with
  | nil => simp [trim] at hx
  | cons m queue ih =>
    simp only [trim] at hx
    split at hx
    · rename_i hover
      rcases List.mem_cons.mp hx with rfl | hx
      · exact ⟨by simpa using hover, List.suffix_refl _⟩
      · obtain ⟨hdepth, hsuffix⟩ := ih hx
        exact ⟨hdepth, hsuffix.trans (List.suffix_cons m queue)⟩
    · simp at hx

/-! ## The invariant -/

/-- In the order of arrival, no two the same. -/
def Ascending (queue : List Queued) : Prop :=
  queue.Pairwise fun m m' => m.arrival < m'.arrival

instance (queue : List Queued) : Decidable (Ascending queue) :=
  inferInstanceAs (Decidable (queue.Pairwise _))

/-- A message that has passed the filter is about to be pushed, or was pushed. -/
def Held (s : State T) (arrival : Nat) : Prop :=
  (∃ t call m, s.threads t = .push call m ∧ m.arrival = arrival) ∨
    (∃ m ∈ s.taken ++ s.queue, m.arrival = arrival) ∨
    ∃ x ∈ s.trimmed, x.dropped.arrival = arrival

/-- The message was over the depth of the queue, and the oldest one. -/
def Trimmed.Oldest (depth : Nat) (x : Trimmed) : Prop :=
  depth < x.rest.length + 1 ∧ ∀ m ∈ x.rest, x.dropped.arrival < m.arrival

instance (depth : Nat) (x : Trimmed) : Decidable (x.Oldest depth) :=
  inferInstanceAs (Decidable (_ ∧ ∀ m ∈ x.rest, _))

structure Ok (sub : UdsSubscription) (s : State T) : Prop where
  order : Ascending (s.taken ++ s.queue)
  held : ∀ arrival ∈ s.accepted, Held s arrival
  trimmed : ∀ x ∈ s.trimmed, x.Oldest sub.queueDepth

variable {sub : UdsSubscription} {s : State T}

theorem zipIdx_ascending (queue : List ReceivedMessage) (n : Nat) :
    Ascending ((queue.zipIdx n).map fun p => ⟨p.2, p.1⟩) ∧
      ∀ m ∈ (queue.zipIdx n).map fun p => (⟨p.2, p.1⟩ : Queued), n ≤ m.arrival := by
  induction queue generalizing n with
  | nil => exact ⟨List.Pairwise.nil, by simp⟩
  | cons msg queue ih =>
    obtain ⟨hasc, hbound⟩ := ih (n + 1)
    rw [List.zipIdx_cons, List.map_cons]
    refine ⟨List.pairwise_cons.mpr ⟨fun m hm => ?_, hasc⟩, fun m hm => ?_⟩
    · have hle := hbound m hm
      simp only
      omega
    · rcases List.mem_cons.mp hm with rfl | hm
      · exact le_refl n
      · have hle := hbound m hm
        omega

omit [DecidableEq T] in
theorem init_ok (sub : UdsSubscription) : Ok sub (init T sub) where
  order := (zipIdx_ascending sub.messageQueue 0).1
  held := by
    intro arrival harrival
    have hlt : arrival < sub.messageQueue.length := List.mem_range.mp harrival
    refine Or.inr (Or.inl ⟨⟨arrival, sub.messageQueue[arrival]⟩, ?_, rfl⟩)
    simp only [init, List.nil_append, List.mem_map]
    refine ⟨(sub.messageQueue[arrival], arrival), ?_, rfl⟩
    rw [List.mem_zipIdx_iff_getElem?]
    simp [hlt]
  trimmed := by simp [init]

/-- A thread that is not at a push may go anywhere. -/
theorem held_goto {arrival : Nat} {t : T} {pc : Pc} (h : Held s arrival)
    (hpc : ∀ call m, s.threads t ≠ .push call m) : Held (s.goto t pc) arrival := by
  obtain ⟨u, call, m, hu, hm⟩ | hrest := h
  · have hut : u ≠ t := by
      rintro rfl
      exact hpc call m hu
    exact Or.inl ⟨u, call, m, by simp [State.goto, Function.update_of_ne hut, hu], hm⟩
  · exact Or.inr hrest

namespace Ok

theorem goto (hs : Ok sub s) (t : T) (pc : Pc) (hpc : ∀ call m, s.threads t ≠ .push call m) :
    Ok sub (s.goto t pc) where
  order := hs.order
  held := fun arrival harrival => held_goto (hs.held arrival harrival) hpc
  trimmed := hs.trimmed

theorem recv (hs : Ok sub s) {t : T} {call : Call} (error : Bool)
    (hpc : s.threads t = .recv call) : Ok sub (s.recv t call error) := by
  have hnot : ∀ call m, s.threads t ≠ .push call m := by simp [hpc]
  -- the socket plays no part in the invariant
  have hsocket : ∀ socket, Ok sub { s with socket } :=
    fun socket => ⟨hs.order, hs.held, hs.trimmed⟩
  unfold State.recv
  split
  · exact hs.goto t _ hnot
  · split
    · exact hs.goto t _ hnot
    · split
      · exact (hsocket _).goto t _ hnot
      · exact (hsocket _).goto t _ hnot

theorem filter (hs : Ok sub s) {t : T} {call : Call} {arrival : Nat} {d : Arrived}
    {hdr : WireHeader} {payload : List UInt8}
    (hpc : s.threads t = .filter call arrival d hdr payload) :
    Ok sub (s.filter sub t call arrival d hdr payload) := by
  have hnot : ∀ call m, s.threads t ≠ .push call m := by simp [hpc]
  have hcache : ∀ shmCache, Ok sub { s with shmCache } :=
    fun shmCache => ⟨hs.order, hs.held, hs.trimmed⟩
  unfold State.filter
  split
  · exact (hcache _).goto t _ hnot
  · rename_i shmCache msg _
    have hmoved := (hcache shmCache).goto t (.push call ⟨arrival, msg⟩) hnot
    refine ⟨hs.order, ?_, hs.trimmed⟩
    intro i hi
    rcases List.mem_append.mp hi with hi | hi
    · exact hmoved.held i hi
    · rw [List.mem_singleton.mp hi]
      exact Or.inl ⟨t, call, ⟨arrival, msg⟩, by simp [State.goto], rfl⟩

/-- A push in turn keeps the order of arrival, and its trim drops the oldest. -/
theorem push (hs : Ok sub s) {t : T} {call : Call} {m : Queued}
    (hpc : s.threads t = .push call m) (hturn : InTurn s m) :
    Ok sub (s.push sub t call m) := by
  have hall : Ascending (s.taken ++ (s.queue ++ [m])) := by
    rw [← List.append_assoc]
    refine List.pairwise_append.mpr ⟨hs.order, List.pairwise_singleton _ _, ?_⟩
    intro m' hm' n hn
    rw [List.mem_singleton.mp hn]
    exact hturn m' hm'
  have hsplit := trim_split sub.queueDepth (s.queue ++ [m])
  have hkept : (trim sub.queueDepth (s.queue ++ [m])).1.Sublist (s.queue ++ [m]) := by
    have hright := List.sublist_append_right
      ((trim sub.queueDepth (s.queue ++ [m])).2.map (·.dropped))
      (trim sub.queueDepth (s.queue ++ [m])).1
    rwa [hsplit] at hright
  exact {
    order := hall.sublist ((List.Sublist.refl _).append hkept)
    held := by
      intro i hi
      -- a message of the queue or the new one is in one of the two parts of the trim
      have hpart : (∃ n ∈ s.queue ++ [m], n.arrival = i) → Held (s.push sub t call m) i := by
        rintro ⟨n, hn, hni⟩
        rw [← hsplit, List.mem_append] at hn
        rcases hn with hn | hn
        · obtain ⟨x, hx, hxn⟩ := List.mem_map.mp hn
          exact Or.inr (Or.inr ⟨x, List.mem_append_right _ hx, by rw [hxn, hni]⟩)
        · exact Or.inr (Or.inl ⟨n, List.mem_append_right _ hn, hni⟩)
      obtain ⟨u, call', m', hu, hm'⟩ | ⟨n, hn, hni⟩ | ⟨x, hx, hxi⟩ := hs.held i hi
      · by_cases hut : u = t
        · subst hut
          rw [hpc] at hu
          cases hu
          exact hpart ⟨m, by simp, hm'⟩
        · refine Or.inl ⟨u, call', m', ?_, hm'⟩
          simp [State.push, State.goto, Function.update_of_ne hut, hu]
      · rcases List.mem_append.mp hn with hn | hn
        · exact Or.inr (Or.inl ⟨n, List.mem_append_left _ hn, hni⟩)
        · exact hpart ⟨n, List.mem_append_left _ hn, hni⟩
      · exact Or.inr (Or.inr ⟨x, List.mem_append_left _ hx, hxi⟩)
    trimmed := by
      intro x hx
      rcases List.mem_append.mp hx with hx | hx
      · exact hs.trimmed x hx
      · obtain ⟨hdepth, hsuffix⟩ := trim_overflow hx
        refine ⟨hdepth, ?_⟩
        have hqueue : Ascending (s.queue ++ [m]) := (List.pairwise_append.mp hall).2.1
        exact (List.pairwise_cons.mp (hqueue.sublist hsuffix.sublist)).1 }

theorem pop (hs : Ok sub s) {t : T} (hpc : s.threads t = .pop) : Ok sub (s.pop t) := by
  have hnot : ∀ call m, s.threads t ≠ .push call m := by simp [hpc]
  unfold State.pop
  split
  · exact hs.goto t _ hnot
  · rename_i m queue hqueue
    have hsame : s.taken ++ [m] ++ queue = s.taken ++ s.queue := by
      rw [hqueue, List.append_assoc]
      rfl
    have hpopped : Ok sub { s with queue, taken := s.taken ++ [m] } := by
      refine ⟨by rw [hsame]; exact hs.order, ?_, hs.trimmed⟩
      intro i hi
      obtain hpush | hqueued | htrimmed := hs.held i hi
      · exact Or.inl hpush
      · exact Or.inr (Or.inl (by rw [hsame]; exact hqueued))
      · exact Or.inr (Or.inr htrimmed)
    exact hpopped.goto t _ hnot

theorem step {a : Act T} {u : State T} (hs : Ok sub s) (hok : InOrder s a)
    (hstep : (machine T sub).step s a = some u) : Ok sub u := by
  cases a with
  | send d =>
    simp only [machine, Concurrent.step, Option.some.injEq] at hstep
    rw [← hstep]
    exact ⟨hs.order, hs.held, hs.trimmed⟩
  | call t call =>
    simp only [machine, Concurrent.step] at hstep
    cases hpc : s.threads t <;> simp only [hpc, reduceCtorEq, Option.some.injEq] at hstep
    rw [← hstep]
    exact hs.goto t _ (by simp [hpc])
  | run t error =>
    simp only [machine, Concurrent.step] at hstep
    cases hpc : s.threads t with
    | idle => simp [hpc] at hstep
    | recv call =>
      simp only [hpc, Option.some.injEq] at hstep
      rw [← hstep]
      exact hs.recv error hpc
    | filter call arrival d hdr payload =>
      simp only [hpc, Option.some.injEq] at hstep
      rw [← hstep]
      exact hs.filter hpc
    | push call m =>
      simp only [hpc, Option.some.injEq] at hstep
      rw [← hstep]
      exact hs.push hpc (hok call m hpc)
    | pop =>
      simp only [hpc, Option.some.injEq] at hstep
      rw [← hstep]
      exact hs.pop hpc

end Ok

/-! ## One thread alone -/

/-- A turn of the loop of `drain_subscription` is a filter and a push. -/
theorem drainSubscription_cons (d : Arrived) (ds : List Arrived) (sub : UdsSubscription) :
    drainSubscription (d :: ds) sub =
      match Wire.recvFrom d.bytes with
      | none => drainSubscription ds sub
      | some (hdr, payload) =>
        match filterMessage sub sub.shmCache d hdr payload with
        | (shmCache, none) => drainSubscription ds { sub with shmCache }
        | (shmCache, some msg) =>
          drainSubscription ds
            { sub with
              shmCache
              messageQueue := popOver sub.queueDepth (sub.messageQueue ++ [msg]) } := by
  simp only [drainSubscription]
  cases Wire.recvFrom d.bytes with
  | none => rfl
  | some received =>
    obtain ⟨hdr, payload⟩ := received
    simp only [filterMessage]
    split
    · rfl
    · split
      · rfl
      · cases shmResolveIncoming d.shm d.mmapOk sub.shmCache hdr payload with
        | mk shmCache resolved =>
          cases resolved with
          | none => rfl
          | some message =>
            simp only
            split <;> rfl

/-- The subscription as a thread sees it in a state of the machine. -/
def State.view (sub : UdsSubscription) (s : State T) : UdsSubscription :=
  { sub with shmCache := s.shmCache, messageQueue := s.queue.map (·.msg) }

/-- A thread that runs alone drains the socket as `drain_subscription` does. -/
theorem drain_alone {t : T} {call : Call} (hpc : s.threads t = .recv call) :
    ∃ u, (machine T sub).Reach (fun _ _ => True) s u ∧ u.socket = [] ∧
      u.threads t = call.afterDrain ∧
      u.view sub = drainSubscription (s.socket.map Prod.snd) (s.view sub) := by
  induction hsocket : s.socket generalizing s with
  | nil =>
    refine ⟨s.goto t call.afterDrain, .single trivial (a := .run t false) ?_, hsocket, ?_, rfl⟩
    · simp [machine, Concurrent.step, hpc, State.recv, hsocket]
    · simp [State.goto]
  | cons p socket ih =>
    obtain ⟨arrival, d⟩ := p
    rw [List.map_cons, drainSubscription_cons]
    cases hrecv : Wire.recvFrom d.bytes with
    | none =>
      have hstep : (machine T sub).step s (.run t false) =
          some ({ s with socket }.goto t (.recv call)) := by
        simp [machine, Concurrent.step, hpc, State.recv, hsocket, hrecv]
      obtain ⟨u, hreach, hrest⟩ :=
        ih (s := { s with socket }.goto t (.recv call)) (by simp [State.goto]) rfl
      exact ⟨u, (Machine.Reach.single trivial hstep).trans hreach, hrest⟩
    | some received =>
      obtain ⟨hdr, payload⟩ := received
      let s₁ := { s with socket }.goto t (.filter call arrival d hdr payload)
      have hstep₁ : (machine T sub).step s (.run t false) = some s₁ := by
        simp [machine, Concurrent.step, hpc, State.recv, hsocket, hrecv, s₁]
      have hpc₁ : s₁.threads t = .filter call arrival d hdr payload := by
        simp [s₁, State.goto]
      have hview : filterMessage (s.view sub) (s.view sub).shmCache d hdr payload =
          filterMessage sub s.shmCache d hdr payload := rfl
      simp only [hview]
      cases hfilter : filterMessage sub s.shmCache d hdr payload with
      | mk shmCache accepted =>
        cases accepted with
        | none =>
          let s₂ := { s₁ with shmCache }.goto t (.recv call)
          have hstep₂ : (machine T sub).step s₁ (.run t false) = some s₂ := by
            simp only [machine, Concurrent.step, hpc₁, State.filter]
            rw [show filterMessage sub s₁.shmCache d hdr payload = (shmCache, none) from hfilter]
          obtain ⟨u, hreach, hrest⟩ := ih (s := s₂) (by simp [s₂, State.goto]) rfl
          exact ⟨u, ((Machine.Reach.single trivial hstep₁).trans
            (.single trivial hstep₂)).trans hreach, hrest⟩
        | some msg =>
          let s₂ := { s₁ with shmCache, accepted := s₁.accepted ++ [arrival] }.goto t
            (.push call ⟨arrival, msg⟩)
          have hstep₂ : (machine T sub).step s₁ (.run t false) = some s₂ := by
            simp only [machine, Concurrent.step, hpc₁, State.filter]
            rw [show filterMessage sub s₁.shmCache d hdr payload = (shmCache, some msg)
              from hfilter]
          have hpc₂ : s₂.threads t = .push call ⟨arrival, msg⟩ := by simp [s₂, State.goto]
          let s₃ := s₂.push sub t call ⟨arrival, msg⟩
          have hstep₃ : (machine T sub).step s₂ (.run t false) = some s₃ := by
            simp only [machine, Concurrent.step, hpc₂, s₃]
          obtain ⟨u, hreach, hempty, hafter, hdrained⟩ :=
            ih (s := s₃) (by simp [s₃, State.push, State.goto]) rfl
          refine ⟨u, (((Machine.Reach.single trivial hstep₁).trans (.single trivial hstep₂)).trans
            (.single trivial hstep₃)).trans hreach, hempty, hafter, ?_⟩
          have hqueue : s₃.view sub =
              { s.view sub with
                shmCache
                messageQueue := popOver sub.queueDepth ((s.view sub).messageQueue ++ [msg]) } := by
            have htrim := trim_queue sub.queueDepth (s.queue ++ [⟨arrival, msg⟩])
            rw [List.map_append] at htrim
            simp only [State.view, UdsSubscription.mk.injEq, true_and, and_true]
            exact ⟨rfl, htrim⟩
          rw [hdrained, hqueue]
          rfl

/-! ## Every run -/

/-- While every push is made in turn, messages are taken in the order of arrival, each at most
once, and one that has passed the filter is lost only as the oldest of a queue over its depth.
A push out of turn is one that breaks the order of the queue. -/
theorem messages_taken_in_order {s : State T}
    (h : (machine T sub).Reach InOrder (init T sub) s) :
    Ascending s.taken ∧
    (∀ x ∈ s.trimmed, x.Oldest sub.queueDepth) ∧
    (∀ arrival ∈ s.accepted, Held s arrival) ∧
    ∀ m, InTurn s m ↔ Ascending (s.taken ++ (s.queue ++ [m])) := by
  have hs : Ok sub s := h.invariant (init_ok sub) fun _ _ _ hs hok hstep => hs.step hok hstep
  refine ⟨(List.pairwise_append.mp hs.order).1, hs.trimmed, hs.held, ?_⟩
  intro m
  rw [← List.append_assoc]
  constructor
  · intro hturn
    refine List.pairwise_append.mpr ⟨hs.order, List.pairwise_singleton _ _, ?_⟩
    intro m' hm' n hn
    rw [List.mem_singleton.mp hn]
    exact hturn m' hm'
  · intro hasc m' hm'
    exact (List.pairwise_append.mp hasc).2.2 m' hm' m (List.mem_singleton_self m)

instance (s : State T) (a : Act T) : Decidable (InOrder s a) :=
  match a with
  | .send _ => .isTrue trivial
  | .call _ _ => .isTrue trivial
  | .run t error =>
    match hpc : s.threads t with
    | .push call m =>
      decidable_of_iff (∀ m' ∈ s.taken ++ s.queue, m'.arrival < m.arrival)
        (by simp [InOrder, InTurn, hpc])
    | .idle => .isTrue (by simp [InOrder, hpc])
    | .recv _ => .isTrue (by simp [InOrder, hpc])
    | .filter .. => .isTrue (by simp [InOrder, hpc])
    | .pop => .isTrue (by simp [InOrder, hpc])

/-- A subscription of the given depth with an empty queue. -/
def emptySubscription (queueDepth : Nat) : UdsSubscription where
  queueDepth
  ignoreLocalPublications := false
  contextId := 0
  replayedWatermarks := []
  shmCache := []
  messageQueue := []
  receptionSeq := 1

/-- The datagram of an inline topic message without bytes. -/
def topicMessage : Arrived where
  bytes := { requestHeader 1 with msgType := 0 }.toBytes
  shm := emptyShm
  mmapOk := true
  now := 0

/-- Both threads have a message in hand before either of them pushes, and they push in
turn. -/
theorem messages_taken_in_order_two : ∃ s,
    (machine Bool (emptySubscription 1)).Reach InOrder (init Bool (emptySubscription 1)) s ∧
    (s.taken.map (·.arrival) = [1] ∧ s.trimmed.map (·.dropped.arrival) = [0]) ∧
    ∀ x ∈ s.trimmed, x.Oldest 1 := by
  have hrun : ∃ s,
      (machine Bool (emptySubscription 1)).Reach InOrder (init Bool (emptySubscription 1)) s ∧
      (s.taken.map (·.arrival) = [1] ∧ s.trimmed.map (·.dropped.arrival) = [0]) := by
    apply Machine.exists_reach_of_guardedRun _ _ _
      [.send topicMessage, .send topicMessage, .call true .rmwTake, .call false .rmwWait,
        .run true false, .run false false, .run true false, .run false false, .run true false,
        .run false false, .run true false, .run true false]
    decide +kernel
  obtain ⟨s, hreach, hout⟩ := hrun
  exact ⟨s, hreach, hout, (messages_taken_in_order hreach).2.1⟩

/-- A thread in `rmw_wait` receives the first message and is overtaken before its push.  With
room in the queue the second message is taken first; with a depth of 1 the second message is
dropped and the older one stays. -/
theorem messages_taken_out_of_order :
    (∃ s, (machine Bool (emptySubscription 10)).Reach (fun _ _ => True)
        (init Bool (emptySubscription 10)) s ∧
      s.taken.map (·.arrival) = [1, 0] ∧ ¬ Ascending s.taken) ∧
    ∃ s, (machine Bool (emptySubscription 1)).Reach (fun _ _ => True)
        (init Bool (emptySubscription 1)) s ∧
      s.trimmed.map (fun x => (x.dropped.arrival, x.rest.map (·.arrival))) = [(1, [0])] ∧
      ∃ x ∈ s.trimmed, ¬ x.Oldest 1 := by
  constructor
  · apply Machine.exists_reach_of_guardedRun _ _ _
      [.send topicMessage, .send topicMessage, .call false .rmwWait, .call true .rmwTake,
        .run false false, .run true false, .run true false, .run true false, .run false false,
        .run false false, .run true false, .run true false, .call true .rmwTake,
        .run true false, .run true false]
    decide +kernel
  · apply Machine.exists_reach_of_guardedRun _ _ _
      [.send topicMessage, .send topicMessage, .call false .rmwWait, .call true .rmwTake,
        .run false false, .run true false, .run true false, .run true false, .run false false,
        .run false false]
    decide +kernel

end RmwUnixSocket.Receive.Concurrent
