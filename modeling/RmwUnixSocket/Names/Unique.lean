import RmwUnixSocket.Lib.Machine
import RmwUnixSocket.Names.Format

/-!
# Unique names within one process

Payload rings, durable segments and latched caches take their ids from one counter of the
process, sockets from another one.  The machine creates and destroys them in any order, with
any clock readings and any failures of the system calls.

* A ring writer draws its id once and then counts its segments.  It destroys the old segment
  when the new one is ready.
* An existing file of the name is unlinked and the creation goes on, so a live object of the
  same name loses its file.
* An object keeps the counter value and the clock reading that its id was made from.
-/

namespace RmwUnixSocket.Names

/-- A value of the counter, and the clock reading next to it. -/
structure Draw where
  counter : UInt32
  now : UInt64
deriving DecidableEq

/-- What has a name, with the numbers that the name is made of. -/
inductive Kind
  | ring (handle : Nat) (segmentId : UInt64)
  | durable
  | latched
  | socket (pfx : SocketPrefix)
deriving DecidableEq

/-- The ring that an object is the segment of. -/
def Kind.handle? : Kind → Option Nat
  | .ring handle _ => some handle
  | _ => none

structure Object where
  kind : Kind
  domainId : UInt64
  draw : Draw
  /-- The file of the name is still this object's. -/
  linked : Bool
deriving DecidableEq

def Object.name (pid : Pid) (o : Object) : List Char :=
  match o.kind with
  | .ring _ segmentId =>
    makeSegmentName o.domainId pid (mixedId o.draw.counter o.draw.now) segmentId
  | .durable => makeSegmentName o.domainId pid (mixedId o.draw.counter o.draw.now) 1
  | .latched => tlRingName o.domainId pid o.draw.counter o.draw.now
  | .socket pfx => makeSocketPath o.domainId pfx pid o.draw.counter o.draw.now

/-- The number of the segment in a descriptor. -/
def Object.segmentId (o : Object) : Option UInt64 :=
  match o.kind with
  | .ring _ segmentId => some segmentId
  | .durable => some 1
  | .latched => none
  | .socket _ => none

/-- The descriptor key of a payload segment, `owner_id` and `segment_id`; the pid is that of
the process. -/
def Object.key (o : Object) : Option (UInt32 × UInt64) :=
  o.segmentId.map fun segmentId => (mixedId o.draw.counter o.draw.now, segmentId)

/-- The fields of a `ShmRingWriter` that names are made of. -/
structure RingIds where
  owner : Option Draw
  segmentId : UInt64
deriving DecidableEq

structure State where
  /-- `g_shm_owner_counter` -/
  shmCounter : UInt32
  /-- the counter of `make_socket_path` -/
  socketCounter : UInt32
  rings : Nat → RingIds
  live : List Object

def init : State where
  shmCounter := 1
  socketCounter := 0
  rings := fun _ => ⟨none, 0⟩
  live := []

/-- How the system calls of a creation end. -/
inductive Outcome
  /-- The first call fails, and not because the name exists. -/
  | refused
  /-- A later call fails; the name has been unlinked. -/
  | undone
  | created
deriving DecidableEq

inductive Act
  | createSegment (handle : Nat) (domainId now : UInt64) (outcome : Outcome)
  | shmStageDurable (domainId now : UInt64) (outcome : Outcome)
  | tlRingCreate (domainId now : UInt64) (outcome : Outcome)
  | createSocket (pfx : SocketPrefix) (domainId now : UInt64) (outcome : Outcome)
  /-- A destructor or a close. -/
  | destroy (o : Object)
deriving DecidableEq

namespace State

/-- The object that an action is about to create, with its name drawn. -/
def next (s : State) : Act → Option Object
  | .createSegment handle domainId now _ =>
    let ring := s.rings handle
    some ⟨.ring handle (ring.segmentId + 1), domainId,
      ring.owner.getD ⟨s.shmCounter, now⟩, true⟩
  | .shmStageDurable domainId now _ => some ⟨.durable, domainId, ⟨s.shmCounter, now⟩, true⟩
  | .tlRingCreate domainId now _ => some ⟨.latched, domainId, ⟨s.shmCounter, now⟩, true⟩
  | .createSocket pfx domainId now _ =>
    some ⟨.socket pfx, domainId, ⟨s.socketCounter, now⟩, true⟩
  | .destroy _ => none

/-- `shm_unlink`, `unlink`: whoever has the name loses its file. -/
def unlink (pid : Pid) (s : State) (name : List Char) : State :=
  { s with live := s.live.map fun o =>
      if o.name pid = name then { o with linked := false } else o }

/-- The counters after the draw, and the id that a ring writer keeps. -/
def drawn (s : State) : Act → State
  | .createSegment handle _ now _ =>
    match (s.rings handle).owner with
    | some _ => s
    | none =>
      { s with
        shmCounter := s.shmCounter + 1
        rings := Function.update s.rings handle
          { s.rings handle with owner := some ⟨s.shmCounter, now⟩ } }
  | .shmStageDurable .. => { s with shmCounter := s.shmCounter + 1 }
  | .tlRingCreate .. => { s with shmCounter := s.shmCounter + 1 }
  | .createSocket .. => { s with socketCounter := s.socketCounter + 1 }
  | .destroy _ => s

/-- Unlink the file of the object and drop the object. -/
def destroy (pid : Pid) (s : State) (o : Object) : State :=
  { s with live := s.live.erase o }.unlink pid (o.name pid)

/-- `shm_writer_close`: the segment of the ring, if it has one. -/
def closeRing (pid : Pid) (s : State) (handle : Nat) : State :=
  match s.live.find? fun o => o.kind.handle? = some handle with
  | none => s
  | some o => s.destroy pid o

/-- The rest of a creation after the draw. -/
def create (pid : Pid) (s : State) (o : Object) : Outcome → State
  | .refused => s
  | .undone => s.unlink pid (o.name pid)
  | .created =>
    let s := s.unlink pid (o.name pid)
    match o.kind with
    | .ring handle segmentId =>
      let s := s.closeRing pid handle
      { s with
        live := s.live ++ [o]
        rings := Function.update s.rings handle { s.rings handle with segmentId } }
    | .durable => { s with live := s.live ++ [o] }
    | .latched => { s with live := s.live ++ [o] }
    | .socket _ => { s with live := s.live ++ [o] }

end State

def Act.outcome : Act → Outcome
  | .createSegment _ _ _ outcome => outcome
  | .shmStageDurable _ _ outcome => outcome
  | .tlRingCreate _ _ outcome => outcome
  | .createSocket _ _ _ outcome => outcome
  | .destroy _ => .refused

def step (pid : Pid) (s : State) (a : Act) : Option State :=
  match a with
  | .destroy o => if o ∈ s.live then some (s.destroy pid o) else none
  | a => (s.next a).map fun o => (s.drawn a).create pid o a.outcome

def machine (pid : Pid) : Machine State Act where
  step := step pid

/-! ## Clashes -/

/-- When two objects may not be alive together, as far as the draws tell.  The id of a segment
in a descriptor and the id in a socket path keep 16 bits of the counter, the name of a latched
cache keeps all of it. -/
def Object.Clash (o o' : Object) : Prop :=
  o.draw.now.toNat % 2 ^ 16 = o'.draw.now.toNat % 2 ^ 16 ∧
  o.draw.counter.toNat % 2 ^ 16 = o'.draw.counter.toNat % 2 ^ 16 ∧
  match o.segmentId, o'.segmentId with
  | some segmentId, some segmentId' => segmentId = segmentId'
  | none, none => o.kind = o'.kind ∧ o.domainId = o'.domainId ∧
      (o.kind = .latched → o.draw.counter = o'.draw.counter)
  | _, _ => False

/-- No live object clashes with the one that the action is about to create. -/
def Distinct (s : State) (a : Act) : Prop :=
  ∀ o, s.next a = some o → ∀ o' ∈ s.live, ¬ o.Clash o'

theorem Object.Clash.symm {o o' : Object} (h : o.Clash o') : o'.Clash o := by
  obtain ⟨htime, hcounter, h⟩ := h
  refine ⟨htime.symm, hcounter.symm, ?_⟩
  cases hs : o.segmentId <;> cases hs' : o'.segmentId <;> simp only [hs, hs'] at h ⊢
  · obtain ⟨hkind, hdomain, hlatched⟩ := h
    exact ⟨hkind.symm, hdomain.symm, fun hl => (hlatched (hkind.trans hl)).symm⟩
  · exact h.symm

/-- A payload segment is named by its number, whichever kind it is. -/
theorem Object.name_of_segmentId {pid : Pid} {o : Object} {segmentId : UInt64}
    (h : o.segmentId = some segmentId) :
    o.name pid =
      makeSegmentName o.domainId pid (mixedId o.draw.counter o.draw.now) segmentId := by
  unfold Object.segmentId at h
  unfold Object.name
  cases hk : o.kind with
  | ring handle n =>
    simp only [hk, Option.some.injEq] at h
    simp only [h]
  | durable =>
    simp only [hk, Option.some.injEq] at h
    simp only [h]
  | latched => simp [hk] at h
  | socket pfx => simp [hk] at h

theorem Object.kind_of_segmentId {o : Object} (h : o.segmentId = none) :
    o.kind = .latched ∨ ∃ pfx, o.kind = .socket pfx := by
  unfold Object.segmentId at h
  cases hk : o.kind with
  | ring handle n => simp [hk] at h
  | durable => simp [hk] at h
  | latched => exact Or.inl rfl
  | socket pfx => exact Or.inr ⟨pfx, rfl⟩

theorem Object.name_latched {pid : Pid} {o : Object} (h : o.kind = .latched) :
    o.name pid = tlRingName o.domainId pid o.draw.counter o.draw.now := by
  simp only [Object.name, h]

theorem Object.name_socket {pid : Pid} {o : Object} {pfx : SocketPrefix}
    (h : o.kind = .socket pfx) :
    o.name pid = makeSocketPath o.domainId pfx pid o.draw.counter o.draw.now := by
  simp only [Object.name, h]

/-- A payload segment is never named like anything else. -/
theorem Object.name_ne_of_segmentId {pid : Pid} {o o' : Object} {segmentId : UInt64}
    (h : o.segmentId = some segmentId) (h' : o'.segmentId = none) :
    o.name pid ≠ o'.name pid := by
  rw [Object.name_of_segmentId h]
  obtain hk | ⟨pfx, hk⟩ := Object.kind_of_segmentId h'
  · rw [Object.name_latched hk]
    exact makeSegmentName_ne_tlRingName
  · rw [Object.name_socket hk]
    exact makeSegmentName_ne_makeSocketPath

/-- Equal names come from draws that clash. -/
theorem Object.clash_of_name {pid : Pid} {o o' : Object} (h : o.name pid = o'.name pid) :
    o.Clash o' := by
  unfold Object.Clash
  cases hs : o.segmentId with
  | some n =>
    cases hs' : o'.segmentId with
    | some n' =>
      rw [Object.name_of_segmentId hs, Object.name_of_segmentId hs', makeSegmentName_inj,
        mixedId_inj] at h
      obtain ⟨-, ⟨hcounter, htime⟩, hn⟩ := h
      exact ⟨htime, hcounter, hn⟩
    | none => exact absurd h (Object.name_ne_of_segmentId hs hs')
  | none =>
    cases hs' : o'.segmentId with
    | some n' => exact absurd h.symm (Object.name_ne_of_segmentId hs' hs)
    | none =>
      obtain hk | ⟨pfx, hk⟩ := Object.kind_of_segmentId hs
      · obtain hk' | ⟨pfx', hk'⟩ := Object.kind_of_segmentId hs'
        · rw [Object.name_latched hk, Object.name_latched hk', tlRingName_inj] at h
          obtain ⟨hdomain, hcounter, htime⟩ := h
          exact ⟨htime, by rw [hcounter], hk.trans hk'.symm, hdomain, fun _ => hcounter⟩
        · rw [Object.name_latched hk, Object.name_socket hk'] at h
          exact absurd h tlRingName_ne_makeSocketPath
      · obtain hk' | ⟨pfx', hk'⟩ := Object.kind_of_segmentId hs'
        · rw [Object.name_socket hk, Object.name_latched hk'] at h
          exact absurd h.symm tlRingName_ne_makeSocketPath
        · rw [Object.name_socket hk, Object.name_socket hk', makeSocketPath_inj,
            mixedId_inj] at h
          obtain ⟨hdomain, rfl, hcounter, htime⟩ := h
          refine ⟨htime, hcounter, hk.trans hk'.symm, hdomain, ?_⟩
          simp [hk]

/-- Equal keys come from draws that clash. -/
theorem Object.clash_of_key {o o' : Object} {k : UInt32 × UInt64} (hk : o.key = some k)
    (hk' : o'.key = some k) : o.Clash o' := by
  simp only [Object.key, Option.map_eq_some_iff] at hk hk'
  obtain ⟨n, hs, rfl⟩ := hk
  obtain ⟨n', hs', heq⟩ := hk'
  simp only [Prod.mk.injEq, mixedId_inj] at heq
  obtain ⟨⟨hcounter, htime⟩, rfl⟩ := heq
  simp only [Object.Clash, hs, hs']
  exact ⟨htime.symm, hcounter.symm, trivial⟩

/-- Draws that clash give one name, or to two payload segments one key. -/
theorem Object.Clash.shared {o o' : Object} (h : o.Clash o') (pid : Pid) :
    o.name pid = o'.name pid ∨ ∃ k, o.key = some k ∧ o'.key = some k := by
  obtain ⟨htime, hcounter, h⟩ := h
  have hid : mixedId o.draw.counter o.draw.now = mixedId o'.draw.counter o'.draw.now :=
    mixedId_inj.mpr ⟨hcounter, htime⟩
  cases hs : o.segmentId with
  | some n =>
    cases hs' : o'.segmentId with
    | some n' =>
      simp only [hs, hs'] at h
      exact Or.inr ⟨_, by simp [Object.key, hs]; rfl, by simp [Object.key, hs', hid, h]⟩
    | none => simp only [hs, hs'] at h
  | none =>
    cases hs' : o'.segmentId with
    | some n' => simp only [hs, hs'] at h
    | none =>
      simp only [hs, hs'] at h
      obtain ⟨hkind, hdomain, hlatched⟩ := h
      left
      obtain hk | ⟨pfx, hk⟩ := Object.kind_of_segmentId hs
      · rw [Object.name_latched hk, Object.name_latched (hkind.symm.trans hk), tlRingName_inj]
        exact ⟨hdomain, hlatched hk, htime⟩
      · rw [Object.name_socket hk, Object.name_socket (hkind.symm.trans hk),
          makeSocketPath_inj]
        exact ⟨hdomain, rfl, hid⟩

/-! ## The invariant -/

/-- No two live objects clash, and each one has its file. -/
structure Ok (s : State) : Prop where
  apart : s.live.Pairwise fun o o' => ¬ o.Clash o'
  linked : ∀ o ∈ s.live, o.linked = true

theorem init_ok : Ok init where
  apart := List.Pairwise.nil
  linked := by simp [init]

/-- An unlink of a name that nobody has changes nothing. -/
theorem unlink_eq {pid : Pid} {s : State} {name : List Char}
    (hfree : ∀ o ∈ s.live, o.name pid ≠ name) : s.unlink pid name = s := by
  have hmap : (s.live.map fun o =>
      if o.name pid = name then { o with linked := false } else o) = s.live := by
    rw [List.map_congr_left fun o ho => if_neg (hfree o ho)]
    exact List.map_id' s.live
  simp only [State.unlink, hmap]

/-- A destructor of a live object takes this object away and no other file. -/
theorem Ok.destroy {s : State} (hs : Ok s) {o : Object} (ho : o ∈ s.live) (pid : Pid) :
    s.destroy pid o = { s with live := s.live.erase o } := by
  have hperm := List.perm_cons_erase ho
  have hpair := (hperm.pairwise_iff (fun h h' => h h'.symm)).mp hs.apart
  apply unlink_eq
  intro o' ho' hname
  exact (List.pairwise_cons.mp hpair).1 o' ho' (Object.clash_of_name hname.symm)

theorem Ok.erase {s : State} (hs : Ok s) (o : Object) :
    Ok { s with live := s.live.erase o } where
  apart := hs.apart.sublist List.erase_sublist
  linked := fun o' ho' => hs.linked o' (List.mem_of_mem_erase ho')

theorem Ok.append {s : State} (hs : Ok s) {o : Object} (hlinked : o.linked = true)
    (hnew : ∀ o' ∈ s.live, ¬ o.Clash o') : Ok { s with live := s.live ++ [o] } where
  apart := by
    rw [List.pairwise_append]
    refine ⟨hs.apart, List.pairwise_singleton _ _, ?_⟩
    intro o' ho' p hp hclash
    rw [List.mem_singleton.mp hp] at hclash
    exact hnew o' ho' hclash.symm
  linked := by
    intro o' ho'
    rcases List.mem_append.mp ho' with h | h
    · exact hs.linked o' h
    · rw [List.mem_singleton.mp h]
      exact hlinked

/-- Closing a ring drops at most its segment. -/
theorem Ok.closeRing {s : State} (hs : Ok s) (pid : Pid) (handle : Nat) :
    Ok (s.closeRing pid handle) ∧ (s.closeRing pid handle).live ⊆ s.live := by
  unfold State.closeRing
  cases hfind : s.live.find? fun o => o.kind.handle? = some handle with
  | none => exact ⟨hs, fun o ho => ho⟩
  | some o =>
    have ho : o ∈ s.live := List.mem_of_find?_eq_some hfind
    simp only [hs.destroy ho]
    exact ⟨hs.erase o, List.erase_subset⟩

theorem Ok.drawn {s : State} (hs : Ok s) (a : Act) :
    Ok (s.drawn a) ∧ (s.drawn a).live = s.live := by
  have hlive : (s.drawn a).live = s.live := by
    unfold State.drawn
    cases a with
    | createSegment handle domainId now outcome =>
      simp only
      split <;> rfl
    | _ => rfl
  exact ⟨⟨hlive ▸ hs.apart, hlive ▸ hs.linked⟩, hlive⟩

/-- The rest of a creation keeps the invariant if the new object clashes with none. -/
theorem Ok.create {s : State} (hs : Ok s) {pid : Pid} {o : Object} {outcome : Outcome}
    (hlinked : o.linked = true) (hnew : ∀ o' ∈ s.live, ¬ o.Clash o') :
    Ok (s.create pid o outcome) := by
  have hunlink : s.unlink pid (o.name pid) = s := by
    apply unlink_eq
    intro o' ho' hname
    exact hnew o' ho' (Object.clash_of_name hname.symm)
  cases outcome with
  | refused => exact hs
  | undone =>
    simp only [State.create, hunlink]
    exact hs
  | created =>
    simp only [State.create, hunlink]
    cases hk : o.kind with
    | ring handle segmentId =>
      obtain ⟨hclose, hsub⟩ := hs.closeRing pid handle
      have happend := hclose.append hlinked (fun o' ho' => hnew o' (hsub ho'))
      exact ⟨happend.apart, happend.linked⟩
    | durable => exact hs.append hlinked hnew
    | latched => exact hs.append hlinked hnew
    | socket pfx => exact hs.append hlinked hnew

theorem next_linked {s : State} {a : Act} {o : Object} (h : s.next a = some o) :
    o.linked = true := by
  unfold State.next at h
  cases a <;> simp only [Option.some.injEq, reduceCtorEq] at h <;> rw [← h]

theorem Ok.step {pid : Pid} {s t : State} {a : Act} (hs : Ok s) (hok : Distinct s a)
    (hstep : (machine pid).step s a = some t) : Ok t := by
  have hcreate : ∀ o, s.next a = some o → Ok ((s.drawn a).create pid o a.outcome) := by
    intro o hnext
    obtain ⟨hdrawn, hlive⟩ := hs.drawn a
    apply hdrawn.create (next_linked hnext)
    rw [hlive]
    exact hok o hnext
  cases a with
  | destroy o =>
    by_cases ho : o ∈ s.live
    · simp only [machine, Names.step, if_pos ho, hs.destroy ho, Option.some.injEq] at hstep
      rw [← hstep]
      exact hs.erase o
    · simp [machine, Names.step, ho] at hstep
  | _ =>
    simp only [machine, Names.step, Option.map_eq_some_iff] at hstep
    obtain ⟨o, hnext, rfl⟩ := hstep
    exact hcreate o hnext

/-- While no draw clashes with that of a live object, every live object has a name, a key and
a file of its own; and a creation gets a name and a key that no live object has exactly if its
draw does not clash. -/
theorem names_unique (pid : Pid) {s : State} (h : (machine pid).Reach Distinct init s) :
    (∀ o ∈ s.live, o.linked = true) ∧
    (s.live.map (Object.name pid)).Nodup ∧
    (s.live.filterMap Object.key).Nodup ∧
    ∀ a, Distinct s a ↔ ∀ o, s.next a = some o → ∀ o' ∈ s.live,
      o.name pid ≠ o'.name pid ∧ ∀ k, o.key = some k → o'.key ≠ some k := by
  have hs : Ok s := h.invariant init_ok fun _ _ _ hs hok hstep => hs.step hok hstep
  refine ⟨hs.linked, ?_, ?_, ?_⟩
  · rw [List.Nodup, List.pairwise_map]
    exact hs.apart.imp fun hno hname => hno (Object.clash_of_name hname)
  · rw [List.Nodup, List.pairwise_filterMap]
    refine hs.apart.imp ?_
    rintro o o' hno k hk k' hk' rfl
    exact hno (Object.clash_of_key hk hk')
  · intro a
    constructor
    · intro hok o hnext o' ho'
      refine ⟨fun hname => hok o hnext o' ho' (Object.clash_of_name hname), ?_⟩
      intro k hk hk'
      exact hok o hnext o' ho' (Object.clash_of_key hk hk')
    · intro hfree o hnext o' ho' hclash
      obtain ⟨hname, hkey⟩ := hfree o hnext o' ho'
      obtain heq | ⟨k, hk, hk'⟩ := hclash.shared pid
      · exact hname heq
      · exact hkey k hk hk'

instance (o o' : Object) : Decidable (o.Clash o') := by
  unfold Object.Clash
  cases o.segmentId <;> cases o'.segmentId <;> exact inferInstance

instance (s : State) (a : Act) : Decidable (Distinct s a) :=
  decidable_of_iff (∀ o ∈ (s.next a).toList, ∀ o' ∈ s.live, ¬ o.Clash o')
    (by simp [Distinct])

/-- Two rings, a latched cache and a socket, drawn at one clock reading. -/
theorem names_unique_four : ∃ s, (machine ⟨7, by decide, by decide⟩).Reach Distinct init s ∧
    s.live.length = 4 ∧ (s.live.map (Object.name ⟨7, by decide, by decide⟩)).Nodup := by
  have hrun : ∃ s, (machine ⟨7, by decide, by decide⟩).Reach Distinct init s ∧
      s.live.length = 4 := by
    apply Machine.exists_reach_of_guardedRun _ _ _
      [.createSegment 0 3 5 .created, .createSegment 1 3 5 .created, .tlRingCreate 3 5 .created,
        .createSocket .sub 3 5 .created]
    decide +kernel
  obtain ⟨s, hreach, hlen⟩ := hrun
  exact ⟨s, hreach, hlen, (names_unique _ hreach).2.1⟩

/-! ## The counter comes round -/

/-- A durable segment is staged and destroyed `n` times, at another clock reading than that of
the only live object. -/
theorem reach_churn (pid : Pid) {o : Object} (ho : o.draw.now = 0) (s : State)
    (hlive : s.live = [o]) (n : Nat) :
    (machine pid).Reach (fun _ _ => True) s
      { s with shmCounter := s.shmCounter + UInt32.ofNat n } := by
  induction n with
  | zero =>
    have hsame : s.shmCounter + UInt32.ofNat 0 = s.shmCounter := by simp
    rw [hsame]
    exact .refl
  | succ n ih =>
    let c := s.shmCounter + UInt32.ofNat n
    let d : Object := ⟨.durable, 0, ⟨c, 1⟩, true⟩
    have hne : o.name pid ≠ d.name pid := by
      intro hname
      have htime : o.draw.now.toNat % 2 ^ 16 = (1 : UInt64).toNat % 2 ^ 16 :=
        (Object.clash_of_name hname).1
      rw [ho] at htime
      exact absurd htime (by decide)
    have hod : o ≠ d := by
      rintro rfl
      exact hne rfl
    have hcreate : (machine pid).step { s with shmCounter := c }
        (.shmStageDurable 0 1 .created) =
        some { s with shmCounter := c + 1, live := [o, d] } := by
      have hun : (if o.name pid = d.name pid then { o with linked := false } else o) = o :=
        if_neg hne
      simp only [machine, Names.step, State.next, Act.outcome, State.drawn, State.create,
        Option.map_some, State.unlink, hlive, List.map_cons, List.map_nil]
      change some { s with shmCounter := c + 1, live :=
        [if o.name pid = d.name pid then { o with linked := false } else o] ++ [d] } = _
      rw [hun]
      rfl
    have hdestroy : (machine pid).step { s with shmCounter := c + 1, live := [o, d] }
        (.destroy d) = some { s with shmCounter := c + 1 } := by
      have herase : [o, d].erase d = [o] := by simp [hod]
      have hun : (if o.name pid = d.name pid then { o with linked := false } else o) = o :=
        if_neg hne
      have hmem : d ∈ [o, d] := by simp
      simp only [machine, Names.step, State.destroy, State.unlink, herase, List.map_cons,
        List.map_nil, hun, if_pos hmem, hlive]
    have hcount : s.shmCounter + UInt32.ofNat (n + 1) = c + 1 := by
      simp only [c, UInt32.ofNat_add, UInt32.add_assoc]
      rfl
    rw [hcount]
    exact .tail (.tail ih trivial hcreate) trivial hdestroy

/-- One payload ring lives while 65535 durable segments come and go.  The next ring that draws
at the clock reading of the first one takes its name, unlinks its file and shares its key. -/
theorem live_ring_unlinked : ∃ s t o o',
    (machine ⟨7, by decide, by decide⟩).Reach (fun _ _ => True) init s ∧
    s.next (.createSegment 1 0 0 .created) = some o ∧ o' ∈ s.live ∧
    o.name ⟨7, by decide, by decide⟩ = o'.name ⟨7, by decide, by decide⟩ ∧
    (machine ⟨7, by decide, by decide⟩).step s (.createSegment 1 0 0 .created) = some t ∧
    (∃ p ∈ t.live, p.linked = false) ∧ ¬ (t.live.filterMap Object.key).Nodup := by
  let pid : Pid := ⟨7, by decide, by decide⟩
  let ring : Object := ⟨.ring 0 1, 0, ⟨1, 0⟩, true⟩
  let s := ((machine pid).step init (.createSegment 0 0 0 .created)).getD init
  let u : State := { s with shmCounter := s.shmCounter + UInt32.ofNat 65535 }
  let t := ((machine pid).step u (.createSegment 1 0 0 .created)).getD init
  have hfirst : (machine pid).step init (.createSegment 0 0 0 .created) = some s := rfl
  have hchurn : (machine pid).Reach (fun _ _ => True) s u :=
    reach_churn pid (o := ring) rfl s rfl 65535
  refine ⟨u, t, ⟨.ring 1 1, 0, ⟨65537, 0⟩, true⟩, ring,
    (Machine.Reach.single trivial hfirst).trans hchurn, ?_, ?_, ?_, rfl, ?_, ?_⟩
  · decide +kernel
  · decide +kernel
  · decide +kernel
  · decide +kernel
  · decide +kernel

end RmwUnixSocket.Names
