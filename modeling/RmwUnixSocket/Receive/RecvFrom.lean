import RmwUnixSocket.Lib.Machine
import RmwUnixSocket.Wire.Codec

/-!
# Receiving a datagram

`recv_from` peeks at the socket, grows its buffer to what it has seen, and receives.  The peek
and the receive are two system calls, and other threads use the same socket, so the datagram
that is received need not be the one that was peeked at.  Junk is dropped and the loop goes
on.

* Every thread has a buffer of its own, which it keeps from call to call and which never
  shrinks.  `reuse` is what calls on other sockets do to it.
* A datagram has a number, its place in the order of arrival.  `returned`, `dropped` and
  `failed` are ghosts: what the calls have made of the datagrams so far.
-/

namespace RmwUnixSocket.Receive

open ByteMemory
open Wire (WireHeader)
open Latch (wireHeaderSize)

/-! ## The buffer -/

/-- `recv_buf`. -/
structure RecvBuf where
  size : Nat
  mem : ByteMemory

namespace RecvBuf

def initial : RecvBuf where
  size := 256 * 1024
  mem := fun _ => 0

/-- `recv` copies what fits. -/
def fill (buf : RecvBuf) (bytes : List UInt8) : RecvBuf :=
  { buf with mem := buf.mem.storeBytes 0 (bytes.take buf.size) }

/-- `recv_buf.resize`, if the buffer is too small. -/
def grow (buf : RecvBuf) (n : Nat) : RecvBuf :=
  if buf.size < n then
    { size := n, mem := fun y => if y < buf.size then buf.mem y else 0 }
  else buf

@[simp] theorem fill_size (buf : RecvBuf) (bytes : List UInt8) :
    (buf.fill bytes).size = buf.size := rfl

theorem le_grow (buf : RecvBuf) (n : Nat) : n ≤ (buf.grow n).size := by
  unfold grow
  split
  · exact le_refl n
  · omega

end RecvBuf

/-! ## The machine -/

structure Datagram where
  id : Nat
  bytes : List UInt8
deriving DecidableEq

inductive Pc
  | idle
  | peek
  /-- The buffer is large enough for the datagram that was peeked at. -/
  | consume (peeked : Datagram)

structure Thread where
  buf : RecvBuf
  pc : Pc

/-- A call that has returned true. -/
structure Returned where
  id : Nat
  header : List UInt8
  payload : List UInt8
deriving DecidableEq

/-- A datagram that was received and not returned. -/
structure Dropped where
  datagram : Datagram
  peeked : Datagram
  bufSize : Nat
deriving DecidableEq

/-- A call that has returned false, with what its last `recv` has found. -/
structure Failed where
  error : Bool
  empty : Bool
deriving DecidableEq

structure State (T : Type) where
  sent : List (List UInt8)
  queue : List Datagram
  threads : T → Thread
  returned : List Returned
  dropped : List Dropped
  failed : List Failed

variable {T : Type} [DecidableEq T]

def init (T : Type) : State T where
  sent := []
  queue := []
  threads := fun _ => ⟨.initial, .idle⟩
  returned := []
  dropped := []
  failed := []

namespace State

def setThread (s : State T) (t : T) (th : Thread) : State T :=
  { s with threads := Function.update s.threads t th }

/-- `return false`. -/
def fail (s : State T) (t : T) (error : Bool) : State T :=
  { s.setThread t { s.threads t with pc := .idle } with
    failed := s.failed ++ [⟨error, s.queue.isEmpty⟩] }

/-- `continue`. -/
def drop (s : State T) (t : T) (buf : RecvBuf) (peeked d : Datagram) : State T :=
  { s.setThread t ⟨buf, .peek⟩ with dropped := s.dropped ++ [⟨d, peeked, buf.size⟩] }

/-- `return true`.  The header is blitted from the buffer, and a payload that is longer than
the header says is cut. -/
def answer (s : State T) (t : T) (buf : RecvBuf) (d : Datagram) : State T :=
  let header := buf.mem.slice 0 wireHeaderSize
  let payloadSize := (WireHeader.ofBytes header).payloadSize.toNat
  let payloadLen := d.bytes.length - wireHeaderSize
  let payloadLen := if payloadLen ≠ payloadSize then min payloadLen payloadSize else payloadLen
  { s.setThread t ⟨buf, .idle⟩ with
    returned := s.returned ++ [⟨d.id, header, buf.mem.slice wireHeaderSize payloadLen⟩] }

/-- What follows the consuming `recv`. -/
def received (s : State T) (t : T) (buf : RecvBuf) (peeked d : Datagram) : State T :=
  let n := d.bytes.length
  if buf.size < n then s.drop t buf peeked d
  else if n = 0 then s.drop t buf peeked d
  else if n < wireHeaderSize then s.drop t buf peeked d
  else s.answer t buf d

end State

/-- `error` is a `recv` that fails, and not because the socket is empty. -/
inductive Act (T : Type)
  | send (bytes : List UInt8)
  | call (t : T)
  | peek (t : T) (error : Bool)
  | consume (t : T) (error : Bool)
  | reuse (t : T) (buf : RecvBuf)

def step (s : State T) : Act T → Option (State T)
  | .send bytes =>
    some { s with
      sent := s.sent ++ [bytes]
      queue := s.queue ++ [⟨s.sent.length, bytes⟩] }
  | .call t =>
    match (s.threads t).pc with
    | .idle => some (s.setThread t { s.threads t with pc := .peek })
    | _ => none
  | .peek t error =>
    match (s.threads t).pc with
    | .peek =>
      if error then some (s.fail t true)
      else
        match s.queue with
        | [] => some (s.fail t false)
        | d :: _ =>
          let buf := ((s.threads t).buf.fill d.bytes).grow d.bytes.length
          some (s.setThread t ⟨buf, .consume d⟩)
    | _ => none
  | .consume t error =>
    match (s.threads t).pc with
    | .consume peeked =>
      if error then some (s.fail t true)
      else
        match s.queue with
        | [] => some (s.fail t false)
        | d :: queue =>
          let buf := (s.threads t).buf.fill d.bytes
          some ({ s with queue }.received t buf peeked d)
    | _ => none
  | .reuse t buf =>
    match (s.threads t).pc with
    | .idle =>
      if (s.threads t).buf.size ≤ buf.size then some (s.setThread t ⟨buf, .idle⟩) else none
    | _ => none

def machine (T : Type) [DecidableEq T] : Machine (State T) (Act T) where
  step := step

/-! ## What a call has made of a datagram -/

/-- The header and the payload are those of one whole datagram. -/
def Returned.Whole (sent : List (List UInt8)) (r : Returned) : Prop :=
  ∃ bytes, sent[r.id]? = some bytes ∧ wireHeaderSize ≤ bytes.length ∧
    r.header = bytes.take wireHeaderSize ∧
    r.payload = (bytes.drop wireHeaderSize).take (min (bytes.length - wireHeaderSize)
      (WireHeader.ofBytes r.header).payloadSize.toNat)

/-- The datagram has no room for a header, or it is larger than the buffer and came in behind
a smaller one that the peek has seen. -/
def Dropped.Junk (sent : List (List UInt8)) (d : Dropped) : Prop :=
  sent[d.datagram.id]? = some d.datagram.bytes ∧
    (d.datagram.bytes.length < wireHeaderSize ∨
      d.bufSize < d.datagram.bytes.length ∧ sent[d.peeked.id]? = some d.peeked.bytes ∧
        d.peeked.id < d.datagram.id ∧ d.peeked.bytes.length < d.datagram.bytes.length)

theorem getElem?_append_of_some {α : Type} {xs : List α} {i : Nat} {a b : α}
    (h : xs[i]? = some a) : (xs ++ [b])[i]? = some a := by
  obtain ⟨hlt, -⟩ := List.getElem?_eq_some_iff.mp h
  rw [List.getElem?_append_left hlt, h]

theorem Returned.Whole.append {sent : List (List UInt8)} {r : Returned} (h : r.Whole sent)
    (bytes : List UInt8) : r.Whole (sent ++ [bytes]) := by
  obtain ⟨bytes', hat, hrest⟩ := h
  exact ⟨bytes', getElem?_append_of_some hat, hrest⟩

theorem Dropped.Junk.append {sent : List (List UInt8)} {d : Dropped} (h : d.Junk sent)
    (bytes : List UInt8) : d.Junk (sent ++ [bytes]) := by
  obtain ⟨hat, hshort | ⟨hlong, hpeeked, hrest⟩⟩ := h
  · exact ⟨getElem?_append_of_some hat, Or.inl hshort⟩
  · exact ⟨getElem?_append_of_some hat,
      Or.inr ⟨hlong, getElem?_append_of_some hpeeked, hrest⟩⟩

/-! ## The invariant -/

/-- How many datagrams have left the socket. -/
def State.taken (s : State T) : Nat :=
  s.returned.length + s.dropped.length

/-- The numbers of the datagrams that have left the socket. -/
def State.takenIds (s : State T) : List Nat :=
  s.returned.map (·.id) ++ s.dropped.map (·.datagram.id)

/-- A thread between peek and receive: its buffer holds what it has seen, and this is not
behind the head of the queue. -/
structure Peeked (s : State T) (th : Thread) (peeked : Datagram) : Prop where
  sent : s.sent[peeked.id]? = some peeked.bytes
  fits : peeked.bytes.length ≤ th.buf.size
  before : peeked.id ≤ s.taken

structure Ok (s : State T) : Prop where
  queued : ∀ d ∈ s.queue, s.sent[d.id]? = some d.bytes
  order : s.queue.map (·.id) = List.range' s.taken s.queue.length
  total : s.sent.length = s.taken + s.queue.length
  left : s.takenIds.Perm (List.range s.taken)
  returned : ∀ r ∈ s.returned, r.Whole s.sent
  dropped : ∀ d ∈ s.dropped, d.Junk s.sent
  failed : ∀ f ∈ s.failed, f.error = true ∨ f.empty = true
  peeked : ∀ t d, (s.threads t).pc = .consume d → Peeked s (s.threads t) d

omit [DecidableEq T] in
theorem init_ok : Ok (init T) where
  queued := by simp [init]
  order := rfl
  total := rfl
  left := List.Perm.refl _
  returned := by simp [init]
  dropped := by simp [init]
  failed := by simp [init]
  peeked := by simp [init]

namespace Ok

variable {s : State T}

omit [DecidableEq T] in
theorem send (hs : Ok s) (bytes : List UInt8) :
    Ok { s with sent := s.sent ++ [bytes], queue := s.queue ++ [⟨s.sent.length, bytes⟩] } where
  queued := by
    intro d hd
    rcases List.mem_append.mp hd with hd | hd
    · exact getElem?_append_of_some (hs.queued d hd)
    · rw [List.mem_singleton.mp hd]
      exact List.getElem?_concat_length
  order := by
    have horder := hs.order
    have htotal := hs.total
    simp only [List.map_append, List.map_cons, List.map_nil, List.length_append,
      List.length_singleton, List.range'_concat, horder, htotal]
    rw [Nat.one_mul]
    rfl
  total := by
    have htotal := hs.total
    simp only [State.taken, List.length_append, List.length_singleton] at htotal ⊢
    omega
  left := hs.left
  returned := fun r hr => (hs.returned r hr).append bytes
  dropped := fun d hd => (hs.dropped d hd).append bytes
  failed := hs.failed
  peeked := by
    intro t d hpc
    have hp := hs.peeked t d hpc
    exact ⟨getElem?_append_of_some hp.sent, hp.fits, hp.before⟩

/-- A step that moves one thread, to a phase that holds the invariant. -/
theorem setThread (hs : Ok s) (t : T) (th : Thread)
    (hth : ∀ d, th.pc = .consume d → Peeked s th d) : Ok (s.setThread t th) where
  queued := hs.queued
  order := hs.order
  total := hs.total
  left := hs.left
  returned := hs.returned
  dropped := hs.dropped
  failed := hs.failed
  peeked := by
    intro u d hpc
    by_cases hu : u = t
    · subst hu
      simp only [State.setThread, Function.update_self] at hpc ⊢
      have hp := hth d hpc
      exact ⟨hp.sent, hp.fits, hp.before⟩
    · simp only [State.setThread, Function.update_of_ne hu] at hpc ⊢
      have hp := hs.peeked u d hpc
      exact ⟨hp.sent, hp.fits, hp.before⟩

theorem fail (hs : Ok s) (t : T) {error : Bool} (hwhy : error = true ∨ s.queue = []) :
    Ok (s.fail t error) := by
  have hmoved := hs.setThread t { s.threads t with pc := .idle } (by simp)
  exact {
    queued := hmoved.queued
    order := hmoved.order
    total := hmoved.total
    left := hmoved.left
    returned := hmoved.returned
    dropped := hmoved.dropped
    failed := by
      intro f hf
      rcases List.mem_append.mp hf with hf | hf
      · exact hs.failed f hf
      · rw [List.mem_singleton.mp hf]
        rcases hwhy with h | h
        · exact Or.inl h
        · exact Or.inr (by simp [h])
    peeked := fun u d hpc => ⟨(hmoved.peeked u d hpc).sent, (hmoved.peeked u d hpc).fits,
      (hmoved.peeked u d hpc).before⟩ }

omit [DecidableEq T] in
/-- The head of the queue is the next datagram in the order of arrival. -/
theorem head (hs : Ok s) {d : Datagram} {queue : List Datagram} (hq : s.queue = d :: queue) :
    d.id = s.taken ∧ queue.map (·.id) = List.range' (s.taken + 1) queue.length ∧
      s.sent[d.id]? = some d.bytes := by
  have horder := hs.order
  rw [hq, List.map_cons, List.length_cons, List.range'_succ, List.cons.injEq] at horder
  exact ⟨horder.1, horder.2, hs.queued d (by simp [hq])⟩

/-- A peek that was not behind the head is not behind the next one either. -/
theorem peeked_after (hs : Ok s) {t u : T} {th : Thread} {d : Datagram}
    (hidle : ∀ d, th.pc ≠ .consume d)
    (hpc : ((s.setThread t th).threads u).pc = .consume d) :
    s.sent[d.id]? = some d.bytes ∧
      d.bytes.length ≤ ((s.setThread t th).threads u).buf.size ∧ d.id ≤ s.taken + 1 := by
  have hmoved := hs.setThread t th (fun d hd => absurd hd (hidle d))
  have hp := hmoved.peeked u d hpc
  have hbefore : d.id ≤ s.taken := hp.before
  exact ⟨hp.sent, hp.fits, by omega⟩

theorem drop (hs : Ok s) {d : Datagram} {queue : List Datagram} (hq : s.queue = d :: queue)
    {t : T} {buf : RecvBuf} {peeked : Datagram}
    (hjunk : Dropped.Junk s.sent ⟨d, peeked, buf.size⟩) :
    Ok (State.drop { s with queue } t buf peeked d) := by
  obtain ⟨hid, horder, -⟩ := hs.head hq
  have htaken : (State.drop { s with queue } t buf peeked d).taken = s.taken + 1 := by
    simp only [State.taken, State.drop, State.setThread, List.length_append,
      List.length_singleton]
    omega
  exact {
    queued := fun e he => hs.queued e (by rw [hq]; exact List.mem_cons_of_mem d he)
    order := by
      rw [htaken]
      exact horder
    total := by
      have htotal := hs.total
      rw [hq, List.length_cons] at htotal
      rw [htaken]
      change s.sent.length = s.taken + 1 + queue.length
      omega
    left := by
      rw [htaken, List.range_succ]
      simp only [State.takenIds, State.drop, State.setThread, List.map_append]
      rw [← List.append_assoc]
      exact hs.left.append (by simp [hid])
    returned := hs.returned
    dropped := by
      intro e he
      rcases List.mem_append.mp he with he | he
      · exact hs.dropped e he
      · rw [List.mem_singleton.mp he]
        exact hjunk
    failed := hs.failed
    peeked := by
      intro u e hpc
      have hidle : ∀ d, (⟨buf, .peek⟩ : Thread).pc ≠ .consume d := by simp
      obtain ⟨hsent, hfits, hbefore⟩ := hs.peeked_after hidle hpc
      exact ⟨hsent, hfits, by rw [htaken]; exact hbefore⟩ }

omit [DecidableEq T] in
/-- The bytes of a datagram that fits stand at the start of the buffer. -/
theorem whole {d : Datagram} (hd : s.sent[d.id]? = some d.bytes) {buf : RecvBuf}
    (hfits : d.bytes.length ≤ buf.size) (hlong : wireHeaderSize ≤ d.bytes.length) {n : Nat}
    (hn : n = min (d.bytes.length - wireHeaderSize)
      (WireHeader.ofBytes ((buf.fill d.bytes).mem.slice 0 wireHeaderSize)).payloadSize.toNat) :
    Returned.Whole s.sent ⟨d.id, (buf.fill d.bytes).mem.slice 0 wireHeaderSize,
      (buf.fill d.bytes).mem.slice wireHeaderSize n⟩ := by
  have hstore : (buf.fill d.bytes).mem = buf.mem.storeBytes 0 d.bytes := by
    simp only [RecvBuf.fill, List.take_of_length_le hfits]
  have hheader : (buf.fill d.bytes).mem.slice 0 wireHeaderSize =
      d.bytes.take wireHeaderSize := by
    rw [hstore]
    exact slice_storeBytes_inside (i := 0) (by omega)
  have hpayload : (buf.fill d.bytes).mem.slice wireHeaderSize n =
      (d.bytes.drop wireHeaderSize).take n := by
    have hinside : (buf.mem.storeBytes 0 d.bytes).slice (0 + wireHeaderSize) n =
        (d.bytes.drop wireHeaderSize).take n := slice_storeBytes_inside (by omega)
    rw [Nat.zero_add] at hinside
    rw [hstore, hinside]
  exact ⟨d.bytes, hd, hlong, hheader, by rw [hpayload, hn]⟩

theorem answer (hs : Ok s) {d : Datagram} {queue : List Datagram} (hq : s.queue = d :: queue)
    {t : T} {buf : RecvBuf} (hfits : d.bytes.length ≤ buf.size)
    (hlong : wireHeaderSize ≤ d.bytes.length) :
    Ok (State.answer { s with queue } t (buf.fill d.bytes) d) := by
  obtain ⟨hid, horder, hsent⟩ := hs.head hq
  have htaken : (State.answer { s with queue } t (buf.fill d.bytes) d).taken =
      s.taken + 1 := by
    simp only [State.taken, State.answer, State.setThread, List.length_append,
      List.length_singleton]
    omega
  exact {
    queued := fun e he => hs.queued e (by rw [hq]; exact List.mem_cons_of_mem d he)
    order := by
      rw [htaken]
      exact horder
    total := by
      have htotal := hs.total
      rw [hq, List.length_cons] at htotal
      rw [htaken]
      change s.sent.length = s.taken + 1 + queue.length
      omega
    left := by
      rw [htaken, List.range_succ]
      simp only [State.takenIds, State.answer, State.setThread, List.map_append, List.map_cons,
        List.map_nil, List.append_assoc, hid]
      refine (List.perm_append_left_iff _ |>.mpr List.perm_append_comm).trans ?_
      rw [← List.append_assoc]
      exact hs.left.append (List.Perm.refl _)
    returned := by
      intro r hr
      rcases List.mem_append.mp hr with hr | hr
      · exact hs.returned r hr
      · rw [List.mem_singleton.mp hr]
        apply whole hsent hfits hlong
        split
        · rfl
        · omega
    dropped := hs.dropped
    failed := hs.failed
    peeked := by
      intro u e hpc
      have hidle : ∀ d', (⟨buf.fill d.bytes, .idle⟩ : Thread).pc ≠ .consume d' := by simp
      obtain ⟨hsent, hfits, hbefore⟩ := hs.peeked_after hidle hpc
      exact ⟨hsent, hfits, by rw [htaken]; exact hbefore⟩ }

/-- Whatever the consuming `recv` has received. -/
theorem received (hs : Ok s) {d peeked : Datagram} {queue : List Datagram}
    (hq : s.queue = d :: queue) {t : T} (hpeeked : Peeked s (s.threads t) peeked) :
    Ok (State.received { s with queue } t ((s.threads t).buf.fill d.bytes) peeked d) := by
  obtain ⟨hid, -, hsent⟩ := hs.head hq
  unfold State.received
  have hsize : ((s.threads t).buf.fill d.bytes).size = (s.threads t).buf.size := rfl
  by_cases hlarge : ((s.threads t).buf.fill d.bytes).size < d.bytes.length
  · rw [if_pos hlarge]
    rw [hsize] at hlarge
    have hfits := hpeeked.fits
    refine hs.drop hq ⟨hsent, Or.inr ⟨hlarge, hpeeked.sent, ?_, by simp only; omega⟩⟩
    -- the datagram that was peeked at fits, so it is not this one
    have hne : peeked.id ≠ d.id := by
      intro heq
      have hsame := hpeeked.sent
      rw [heq, hsent, Option.some.injEq] at hsame
      rw [hsame] at hlarge
      omega
    have hbefore := hpeeked.before
    simp only
    omega
  · rw [if_neg hlarge]
    by_cases hzero : d.bytes.length = 0
    · rw [if_pos hzero]
      refine hs.drop hq ⟨hsent, Or.inl ?_⟩
      simp only [hzero]
      decide
    · rw [if_neg hzero]
      by_cases hrunt : d.bytes.length < wireHeaderSize
      · rw [if_pos hrunt]
        exact hs.drop hq ⟨hsent, Or.inl hrunt⟩
      · rw [if_neg hrunt]
        exact hs.answer hq (by omega) (by omega)

theorem step {a : Act T} {u : State T} (hs : Ok s) (hstep : (machine T).step s a = some u) :
    Ok u := by
  cases a with
  | send bytes =>
    simp only [machine, Receive.step, Option.some.injEq] at hstep
    rw [← hstep]
    exact hs.send bytes
  | call t =>
    simp only [machine, Receive.step] at hstep
    cases hpc : (s.threads t).pc <;> simp only [hpc, reduceCtorEq, Option.some.injEq] at hstep
    rw [← hstep]
    exact hs.setThread t _ (by simp)
  | peek t error =>
    simp only [machine, Receive.step] at hstep
    cases hpc : (s.threads t).pc <;> simp only [hpc, reduceCtorEq] at hstep
    by_cases herror : error = true
    · rw [if_pos herror, Option.some.injEq] at hstep
      rw [← hstep]
      exact hs.fail t (Or.inl rfl)
    · rw [if_neg herror] at hstep
      cases hq : s.queue with
      | nil =>
        rw [hq, Option.some.injEq] at hstep
        rw [← hstep]
        exact hs.fail t (Or.inr hq)
      | cons d queue =>
        rw [hq] at hstep
        simp only [Option.some.injEq] at hstep
        rw [← hstep]
        apply hs.setThread
        intro e he
        simp only [Pc.consume.injEq] at he
        obtain ⟨hid, -, hsent⟩ := hs.head hq
        rw [← he]
        exact ⟨hsent, RecvBuf.le_grow _ _, by omega⟩
  | consume t error =>
    simp only [machine, Receive.step] at hstep
    cases hpc : (s.threads t).pc with
    | idle => simp [hpc] at hstep
    | peek => simp [hpc] at hstep
    | consume peeked =>
      rw [hpc] at hstep
      simp only at hstep
      by_cases herror : error = true
      · rw [if_pos herror, Option.some.injEq] at hstep
        rw [← hstep]
        exact hs.fail t (Or.inl rfl)
      · rw [if_neg herror] at hstep
        cases hq : s.queue with
        | nil =>
          rw [hq, Option.some.injEq] at hstep
          rw [← hstep]
          exact hs.fail t (Or.inr hq)
        | cons d queue =>
          rw [hq] at hstep
          simp only [Option.some.injEq] at hstep
          rw [← hstep]
          exact hs.received hq (hs.peeked t peeked hpc)
  | reuse t buf =>
    simp only [machine, Receive.step] at hstep
    cases hpc : (s.threads t).pc <;> simp only [hpc, reduceCtorEq] at hstep
    split at hstep
    · rw [Option.some.injEq] at hstep
      rw [← hstep]
      exact hs.setThread t _ (by simp)
    · cases hstep

end Ok

/-! ## Every run -/

/-- What the calls of `recv_from` have returned, dropped and reported, for any datagrams and
any order of the threads. -/
theorem recv_from_whole {s : State T} (h : (machine T).Reach (fun _ _ => True) (init T) s) :
    (∀ r ∈ s.returned, r.Whole s.sent) ∧
    (s.returned.map (·.id)).Nodup ∧
    (∀ f ∈ s.failed, f.error = true ∨ f.empty = true) ∧
    (∀ i < s.sent.length, i ∈ s.queue.map (·.id) ∨ i ∈ s.returned.map (·.id) ∨
      i ∈ s.dropped.map (·.datagram.id)) ∧
    ∀ d ∈ s.dropped, d.Junk s.sent := by
  have hs : Ok s := h.invariant init_ok fun _ _ _ hs _ hstep => hs.step hstep
  have hnodup : s.takenIds.Nodup := hs.left.nodup_iff.mpr List.nodup_range
  refine ⟨hs.returned, hnodup.of_append_left, hs.failed, ?_, hs.dropped⟩
  intro i hi
  by_cases htaken : i < s.taken
  · right
    rw [← List.mem_append]
    exact hs.left.mem_iff.mpr (List.mem_range.mpr htaken)
  · left
    have htotal := hs.total
    rw [hs.order, List.mem_range'_1]
    omega

/-- Two threads peek at a zero-length datagram.  The first receives it, the second receives the
message behind it, and the first finds the socket empty. -/
theorem recv_from_whole_race : ∃ s,
    (machine Bool).Reach (fun _ _ => True) (init Bool) s ∧
    (s.returned.map (·.payload) = [[9, 8, 7]] ∧ s.dropped.length = 1 ∧
      s.failed = [⟨false, true⟩]) ∧ ∀ r ∈ s.returned, r.Whole s.sent := by
  have hrun : ∃ s, (machine Bool).Reach (fun _ _ => True) (init Bool) s ∧
      (s.returned.map (·.payload) = [[9, 8, 7]] ∧ s.dropped.length = 1 ∧
        s.failed = [⟨false, true⟩]) := by
    apply Machine.exists_reach_of_guardedRun _ _ _
      [.send [], .send (List.replicate 32 0 ++ [3, 0, 0, 0, 1, 9, 8, 7]), .call true,
        .call false, .peek true false, .peek false false, .consume true false,
        .consume false false, .peek true false]
    decide +kernel
  obtain ⟨s, hreach, hout⟩ := hrun
  exact ⟨s, hreach, hout, (recv_from_whole hreach).1⟩

end RmwUnixSocket.Receive
