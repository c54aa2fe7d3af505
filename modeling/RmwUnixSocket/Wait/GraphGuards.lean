import RmwUnixSocket.Lib.Exclusive
import RmwUnixSocket.Lib.Machine

/-!
# The graph guard conditions

Every node has a guard condition that `rmw_wait` triggers when the registry has changed.
The context lists them in `graph_gcs`, under a mutex.  Any number of threads create and
destroy nodes and run the generation check.

* A guard condition is a piece of memory and an eventfd.  As soon as it is destroyed, its
  address may be that of the next one, so the address is all that the list and the threads
  have.
* Whatever `rmw_create_node` does between its guard condition and the list may fail, and
  then the guard condition is destroyed.
* A wait looks at the list twice: it searches the guard conditions that it waits for, as
  long as the doorbell is not registered, and it triggers all of them when the generation
  is not the last one.

`faults` counts the accesses to a guard condition that does not exist.  `servedAt` is a
ghost: the generation when the node was listed, or when its eventfd was last found
readable and read.
-/

namespace RmwUnixSocket.Wait.GraphGuards

/-! ## The machine -/

/-- Where a thread is. -/
inductive Pc (P : Type)
  | idle
  -- rmw_create_node
  | made (gc : P)
  | publish (gc : P)
  | push (gc : P)
  | pushed (gc : P)
  -- rmw_destroy_node
  | withdraw (gc : P)
  | erase (gc : P)
  | erased (gc : P)
  | destroy (gc : P)
  -- rmw_wait
  | look (wants : List P)
  | search (wants : List P) (j : Nat)
  | load
  | compare (gen : Nat)
  | store (gen : Nat)
  | wake
  | trigger (i : Nat)
  deriving DecidableEq

/-- The context, its nodes and its threads.  A node is known by its guard condition. -/
structure State (T P : Type) where
  heap : P → Option Nat
  graphGcs : List P
  mutex : Option T
  nodes : P → Bool
  generation : Nat
  last : Nat
  threads : T → Pc P
  faults : Nat
  servedAt : P → Nat

/-- A step. -/
inductive Act (T P : Type)
  | create (t : T) (gc : P)
  | fail (t : T)
  | destroy (t : T) (gc : P)
  | wait (t : T) (wants : List P) (registered : Bool)
  | thread (t : T)
  | bump
  | read (gc : P)

/-- The counter of an eventfd after a `write` of one.  The largest value is
`0xfffffffffffffffe`, and then the `write` fails. -/
def eventfdWrite (counter : Nat) : Nat :=
  if counter < 0xfffffffffffffffe then counter + 1 else counter

namespace State

variable {T P : Type}

/-- `rmw_init`, with the generation that it has loaded. -/
def init (T P : Type) (gen : Nat) : State T P where
  heap := fun _ => none
  graphGcs := []
  mutex := none
  nodes := fun _ => false
  generation := gen
  last := gen
  threads := fun _ => .idle
  faults := 0
  servedAt := fun _ => gen

variable (s : State T P)

/-- A thread goes on. -/
def goto [DecidableEq T] (t : T) (pc : Pc P) : State T P :=
  { s with threads := Function.update s.threads t pc }

/-- The counter of an eventfd. -/
def counter (gc : P) : Nat :=
  (s.heap gc).getD 0

/-- A read of `gc->data`. -/
def data (gc : P) : State T P :=
  match s.heap gc with
  | none => { s with faults := s.faults + 1 }
  | some _ => s

/-- `rmw_trigger_guard_condition`. -/
def trigger [DecidableEq P] (gc : P) : State T P :=
  match s.heap gc with
  | none => { s with faults := s.faults + 1 }
  | some counter =>
    { s with heap := Function.update s.heap gc (some (eventfdWrite counter)) }

/-- `rmw_destroy_guard_condition`. -/
def destroy [DecidableEq P] (gc : P) : State T P :=
  match s.heap gc with
  | none => { s with faults := s.faults + 1 }
  | some _ => { s with heap := Function.update s.heap gc none }

end State

section Step

variable {T P : Type} [DecidableEq T] [DecidableEq P]

/-- A thread takes the mutex and goes on. -/
def lock (s : State T P) (t : T) (pc : Pc P) : Option (State T P) :=
  match s.mutex with
  | none => some ({ s with mutex := some t }.goto t pc)
  | some _ => none

/-- A thread leaves the mutex and goes on. -/
def unlock (s : State T P) (t : T) (pc : Pc P) : State T P :=
  { s with mutex := none }.goto t pc

/-- One step of a thread in a call. -/
def threadStep (s : State T P) (t : T) : Option (State T P) :=
  match s.threads t with
  | .idle => none
  | .made gc => some (s.goto t (.publish gc))
  | .publish gc => lock s t (.push gc)
  | .push gc =>
    some ({ s with
      graphGcs := s.graphGcs ++ [gc]
      servedAt := Function.update s.servedAt gc s.generation }.goto t (.pushed gc))
  | .pushed gc => some (unlock { s with nodes := Function.update s.nodes gc true } t .idle)
  | .withdraw gc => lock s t (.erase gc)
  | .erase gc =>
    some ({ s with graphGcs := s.graphGcs.filter (· ≠ gc) }.goto t (.erased gc))
  | .erased gc => some (unlock s t (.destroy gc))
  | .destroy gc => some ((s.destroy gc).goto t .idle)
  | .look wants => lock s t (.search wants 0)
  | .search [] _ => some (unlock s t .load)
  | .search (want :: wants) j =>
    match s.graphGcs[j]? with
    | none => some (s.goto t (.search wants 0))
    | some gc =>
      if gc = want then some (unlock (s.data gc) t .load)
      else some ((s.data gc).goto t (.search (want :: wants) (j + 1)))
  | .load => some (s.goto t (.compare s.generation))
  | .compare gen => some (s.goto t (if gen ≠ s.last then .store gen else .idle))
  | .store gen => some ({ s with last := gen }.goto t .wake)
  | .wake => lock s t (.trigger 0)
  | .trigger i =>
    match s.graphGcs[i]? with
    | none => some (unlock s t .idle)
    | some gc => some ((s.trigger gc).goto t (.trigger (i + 1)))

/-- One step. -/
def step (s : State T P) : Act T P → Option (State T P)
  | .create t gc =>
    if s.threads t = .idle ∧ s.heap gc = none then
      some ({ s with heap := Function.update s.heap gc (some 0) }.goto t (.made gc))
    else none
  | .fail t =>
    match s.threads t with
    | .made gc => some ((s.destroy gc).goto t .idle)
    | _ => none
  | .destroy t gc =>
    if s.threads t = .idle ∧ s.nodes gc = true then
      some ({ s with nodes := Function.update s.nodes gc false }.goto t (.withdraw gc))
    else none
  | .wait t wants registered =>
    if s.threads t = .idle then
      some (s.goto t (if registered then .load else .look wants))
    else none
  | .thread t => threadStep s t
  | .bump => some { s with generation := s.generation + 1 }
  | .read gc =>
    if s.nodes gc = true ∧ s.counter gc ≠ 0 then
      some { s with
        heap := Function.update s.heap gc (some 0)
        servedAt := Function.update s.servedAt gc s.generation }
    else none

/-- The context as a machine. -/
def machine (T P : Type) [DecidableEq T] [DecidableEq P] : Machine (State T P) (Act T P) where
  step := step

end Step

/-! ## The invariant -/

/-- The guard condition that a thread may access because nobody else may destroy it. -/
def Pc.owns {P : Type} : Pc P → Option P
  | .made gc | .publish gc | .push gc | .pushed gc | .withdraw gc | .erase gc | .erased gc
  | .destroy gc => some gc
  | _ => none

/-- The guard condition of a thread that is in the list without being that of a node. -/
def Pc.lists {P : Type} : Pc P → Option P
  | .pushed gc | .withdraw gc | .erase gc => some gc
  | _ => none

/-- The thread has the mutex. -/
def Pc.locked {P : Type} : Pc P → Bool
  | .push _ | .pushed _ | .erase _ | .erased _ | .search _ _ | .trigger _ => true
  | _ => false

/-- The generation that a thread has loaded. -/
def Pc.loaded {P : Type} : Pc P → Option Nat
  | .compare gen | .store gen => some gen
  | _ => none

/-- The guard conditions that a thread has still to trigger. -/
def Pc.owes {P : Type} (graphGcs : List P) : Pc P → List P
  | .wake => graphGcs
  | .trigger i => graphGcs.drop i
  | _ => []

namespace State

variable {T P : Type} [DecidableEq P]

/-- Who may destroy a guard condition: a thread or a node. -/
def owners (s : State T P) : T ⊕ P → Option P
  | .inl t => (s.threads t).owns
  | .inr gc => if s.nodes gc = true then some gc else none

/-- The node of a guard condition will be told, or has been told, of the last generation
that a check has stored. -/
def Served (s : State T P) (gc : P) : Prop :=
  s.counter gc ≠ 0 ∨ s.last ≤ s.servedAt gc ∨ ∃ t, gc ∈ (s.threads t).owes s.graphGcs

end State

/-- The invariant. -/
structure Ok {T P : Type} [DecidableEq P] (s : State T P) : Prop where
  faults : s.faults = 0
  owned : Linear (fun gc => (s.heap gc).isSome) s.owners
  nodup : s.graphGcs.Nodup
  listed : ∀ gc, gc ∈ s.graphGcs ↔ s.nodes gc = true ∨ ∃ t, (s.threads t).lists = some gc
  locked : ∀ t, (s.threads t).locked = true ↔ s.mutex = some t
  loaded : ∀ t gen, (s.threads t).loaded = some gen → gen ≤ s.generation
  last : s.last ≤ s.generation
  served : ∀ gc ∈ s.graphGcs, s.Served gc

section Invariant

variable {T P : Type} {s u : State T P} {t : T} {gc : P} {pc pc' : Pc P}

theorem Pc.owns_of_lists (h : pc.lists = some gc) : pc.owns = some gc := by
  cases pc <;> first | exact h | (cases h)

variable [DecidableEq P]

theorem Ok.init (T P : Type) [DecidableEq P] (gen : Nat) : Ok (State.init T P gen) where
  faults := rfl
  owned := by
    refine ⟨fun u _ gc hgc => ?_, fun u gc hu => ?_, fun gc hgc => ?_⟩
    · cases hgc
    · cases u <;> cases hu
    · cases hgc
  nodup := List.nodup_nil
  listed gc := by simp [State.init, Pc.lists]
  locked t := by simp [State.init, Pc.locked]
  loaded t gen hgen := by cases hgen
  last := Nat.le_refl _
  served gc hgc := by cases hgc

/-- What is in the list exists. -/
theorem Ok.listed_alive (h : Ok s) (hgc : gc ∈ s.graphGcs) : (s.heap gc).isSome := by
  obtain hnode | ⟨t, ht⟩ := (h.listed gc).mp hgc
  · exact h.owned.alive (.inr gc) gc (if_pos hnode)
  · exact h.owned.alive (.inl t) gc (Pc.owns_of_lists ht)

/-- A guard condition that a thread has and does not list is not in the list. -/
theorem Ok.not_listed (h : Ok s) (howns : (s.threads t).owns = some gc)
    (hlists : (s.threads t).lists = none) : gc ∉ s.graphGcs := by
  intro hgc
  obtain hnode | ⟨t', ht'⟩ := (h.listed gc).mp hgc
  · cases h.owned.unique (u := .inl t) (v := .inr gc) howns (if_pos hnode)
  · cases h.owned.unique (u := .inl t) (v := .inl t') howns (Pc.owns_of_lists ht')
    rw [hlists] at ht'
    cases ht'

/-- Only the thread that has the mutex is inside the loop. -/
theorem Ok.owes_of_locked (h : Ok s) (hlocked : (s.threads t).locked = true) {t' : T}
    (ht' : t' ≠ t) (howes : gc ∈ (s.threads t').owes s.graphGcs) : s.threads t' = .wake := by
  have hfree : (s.threads t').locked = false := by
    by_contra hin
    have hmine := (h.locked t).mp hlocked
    have htheirs := (h.locked t').mp (by simpa using hin)
    rw [hmine] at htheirs
    cases htheirs
    exact ht' rfl
  unfold Pc.owes at howes
  split at howes
  · assumption
  · rename_i i hpc
    rw [hpc] at hfree
    cases hfree
  · cases howes

omit [DecidableEq P] in
/-- What is served stays served, if it does where the step is. -/
theorem State.Served.move (h : s.Served gc) (hcounter : s.counter gc ≠ 0 → u.Served gc)
    (hat : s.last ≤ s.servedAt gc → u.Served gc)
    (hother : ∀ t' ≠ t, gc ∈ (s.threads t').owes s.graphGcs →
      gc ∈ (u.threads t').owes u.graphGcs)
    (hself : gc ∈ (s.threads t).owes s.graphGcs → u.Served gc) : u.Served gc := by
  obtain hcount | hlast | ⟨t', howes⟩ := h
  · exact hcounter hcount
  · exact hat hlast
  · by_cases ht : t' = t
    · subst ht
      exact hself howes
    · exact .inr (.inr ⟨t', hother t' ht howes⟩)

variable [DecidableEq T]

/-! ### The threads after a step of one of them -/

section Threads

variable {threads : T → Pc P} {mutex : Option T}

omit [DecidableEq P]

theorem locked_same (h : ∀ t, (threads t).locked = true ↔ mutex = some t)
    (hpc : pc'.locked = (threads t).locked) (t' : T) :
    (Function.update threads t pc' t').locked = true ↔ mutex = some t' := by
  by_cases ht : t' = t
  · subst ht
    rw [Function.update_self, hpc]
    exact h t'
  · rw [Function.update_of_ne ht]
    exact h t'

theorem locked_lock (h : ∀ t, (threads t).locked = true ↔ mutex = some t)
    (hfree : mutex = none) (hpc : pc'.locked = true) (t' : T) :
    (Function.update threads t pc' t').locked = true ↔ some t = some t' := by
  by_cases ht : t' = t
  · subst ht
    rw [Function.update_self]
    exact ⟨fun _ => rfl, fun _ => hpc⟩
  · rw [Function.update_of_ne ht, h t', hfree]
    constructor
    · intro hnone
      cases hnone
    · intro heq
      exact absurd (Option.some.inj heq).symm ht

theorem locked_unlock (h : ∀ t, (threads t).locked = true ↔ mutex = some t)
    (hheld : (threads t).locked = true) (hpc : pc'.locked = false) (t' : T) :
    (Function.update threads t pc' t').locked = true ↔ none = some t' := by
  by_cases ht : t' = t
  · subst ht
    rw [Function.update_self, hpc]
    simp
  · rw [Function.update_of_ne ht, h t', (h t).mp hheld]
    constructor
    · intro heq
      exact absurd (Option.some.inj heq).symm ht
    · intro hnone
      cases hnone

theorem loaded_update {generation : Nat}
    (h : ∀ t gen, (threads t).loaded = some gen → gen ≤ generation)
    (hpc : ∀ gen, pc'.loaded = some gen → gen ≤ generation) (t' : T) (gen : Nat)
    (hgen : (Function.update threads t pc' t').loaded = some gen) : gen ≤ generation := by
  by_cases ht : t' = t
  · subst ht
    rw [Function.update_self] at hgen
    exact hpc gen hgen
  · rw [Function.update_of_ne ht] at hgen
    exact h t' gen hgen

theorem owns_update (howns : pc'.owns = (threads t).owns) (t' : T) :
    (Function.update threads t pc' t').owns = (threads t').owns := by
  by_cases ht : t' = t
  · subst ht
    rw [Function.update_self, howns]
  · rw [Function.update_of_ne ht]

theorem lists_update (hlists : pc'.lists = (threads t).lists) :
    (∃ t', (Function.update threads t pc' t').lists = some gc) ↔
      ∃ t', (threads t').lists = some gc := by
  have hsame : ∀ t', (Function.update threads t pc' t').lists = (threads t').lists := by
    intro t'
    by_cases ht : t' = t
    · subst ht
      rw [Function.update_self, hlists]
    · rw [Function.update_of_ne ht]
  simp only [hsame]

end Threads

/-! ### Steps that only move a thread -/

/-- A thread goes on.  It may take or leave the mutex, and store a generation. -/
theorem Ok.control (h : Ok s) {mutex : Option T} {last : Nat}
    (howns : pc'.owns = (s.threads t).owns) (hlists : pc'.lists = (s.threads t).lists)
    (hlocked : ∀ t', (Function.update s.threads t pc' t').locked = true ↔ mutex = some t')
    (hloaded : ∀ gen, pc'.loaded = some gen → gen ≤ s.generation)
    (hlast : last ≤ s.generation)
    (hat : last = s.last ∨ pc' = .wake)
    (howes : ∀ gc ∈ s.graphGcs, gc ∈ (s.threads t).owes s.graphGcs →
      gc ∈ pc'.owes s.graphGcs ∨ s.counter gc ≠ 0) :
    Ok ({ s with mutex := mutex, last := last }.goto t pc') where
  faults := h.faults
  owned := by
    refine h.owned.congr (fun _ => Iff.rfl) fun w => ?_
    cases w with
    | inl t' => exact owns_update howns t'
    | inr gc => rfl
  nodup := h.nodup
  listed gc := (h.listed gc).trans (or_congr Iff.rfl (lists_update hlists).symm)
  locked := hlocked
  loaded := loaded_update h.loaded hloaded
  last := hlast
  served gc hgc := by
    have hmine : gc ∈ pc'.owes s.graphGcs →
        State.Served ({ s with mutex := mutex, last := last }.goto t pc') gc := by
      intro hin
      refine .inr (.inr ⟨t, ?_⟩)
      show gc ∈ (Function.update s.threads t pc' t).owes s.graphGcs
      rw [Function.update_self]
      exact hin
    obtain rfl | rfl := hat
    · refine (h.served gc hgc).move (t := t) .inl (fun hle => .inr (.inl hle)) ?_
        fun hin => (howes gc hgc hin).elim hmine .inl
      intro t' ht hin
      show gc ∈ (Function.update s.threads t pc' t').owes s.graphGcs
      rw [Function.update_of_ne ht]
      exact hin
    · exact hmine hgc

/-- A thread goes on, and nothing else happens. -/
theorem Ok.goto (h : Ok s) (howns : pc'.owns = (s.threads t).owns)
    (hlists : pc'.lists = (s.threads t).lists) (hlocked : pc'.locked = (s.threads t).locked)
    (hloaded : ∀ gen, pc'.loaded = some gen → gen ≤ s.generation)
    (howes : ∀ gc ∈ s.graphGcs, gc ∈ (s.threads t).owes s.graphGcs →
      gc ∈ pc'.owes s.graphGcs ∨ s.counter gc ≠ 0) : Ok (s.goto t pc') :=
  h.control howns hlists (locked_same h.locked hlocked) hloaded h.last (.inl rfl) howes

theorem Ok.lock (h : Ok s) (hstep : lock s t pc' = some u)
    (howns : pc'.owns = (s.threads t).owns) (hlists : pc'.lists = (s.threads t).lists)
    (hlocked : pc'.locked = true) (hloaded : pc'.loaded = none)
    (howes : ∀ gc ∈ s.graphGcs, gc ∈ (s.threads t).owes s.graphGcs →
      gc ∈ pc'.owes s.graphGcs ∨ s.counter gc ≠ 0) : Ok u := by
  unfold GraphGuards.lock at hstep
  split at hstep
  · rename_i hfree
    cases hstep
    refine h.control howns hlists (locked_lock h.locked hfree hlocked) ?_ h.last (.inl rfl) howes
    intro gen hgen
    rw [hloaded] at hgen
    cases hgen
  · cases hstep

theorem Ok.unlock (h : Ok s) (howns : pc'.owns = (s.threads t).owns)
    (hlists : pc'.lists = (s.threads t).lists) (hheld : (s.threads t).locked = true)
    (hlocked : pc'.locked = false) (hloaded : pc'.loaded = none)
    (howes : (s.threads t).owes s.graphGcs = []) : Ok (unlock s t pc') := by
  refine h.control howns hlists (locked_unlock h.locked hheld hlocked) ?_ h.last (.inl rfl) ?_
  · intro gen hgen
    rw [hloaded] at hgen
    cases hgen
  · intro gc _ hin
    rw [howes] at hin
    cases hin

/-! ### Steps on the list -/

/-- `push_back`. -/
theorem Ok.push (h : Ok s) (hpc : s.threads t = .push gc) :
    Ok ({ s with
      graphGcs := s.graphGcs ++ [gc]
      servedAt := Function.update s.servedAt gc s.generation }.goto t (.pushed gc)) where
  faults := h.faults
  owned := by
    refine h.owned.congr (fun _ => Iff.rfl) fun w => ?_
    cases w with
    | inl t' => exact owns_update (by rw [hpc]; rfl) t'
    | inr gc' => rfl
  nodup := by
    have hnew : gc ∉ s.graphGcs :=
      h.not_listed (t := t) (by rw [hpc]; rfl) (by rw [hpc]; rfl)
    show (s.graphGcs ++ [gc]).Nodup
    exact List.nodup_append.mpr ⟨h.nodup, by simp, by grind⟩
  listed gc' := by
    show gc' ∈ s.graphGcs ++ [gc] ↔ s.nodes gc' = true ∨
      ∃ t', (Function.update s.threads t (.pushed gc) t').lists = some gc'
    rw [List.mem_append, List.mem_singleton, h.listed gc', or_assoc]
    refine or_congr_right ⟨?_, ?_⟩
    · rintro (⟨t', ht'⟩ | rfl)
      · refine ⟨t', ?_⟩
        have ht : t' ≠ t := by
          rintro rfl
          rw [hpc] at ht'
          cases ht'
        rw [Function.update_of_ne ht]
        exact ht'
      · exact ⟨t, by rw [Function.update_self]; rfl⟩
    · rintro ⟨t', ht'⟩
      by_cases ht : t' = t
      · subst ht
        rw [Function.update_self] at ht'
        cases ht'
        exact .inr rfl
      · rw [Function.update_of_ne ht] at ht'
        exact .inl ⟨t', ht'⟩
  locked := locked_same h.locked (by rw [hpc]; rfl)
  loaded := loaded_update h.loaded (fun gen hgen => by cases hgen)
  last := h.last
  served gc' hgc' := by
    by_cases heq : gc' = gc
    · subst heq
      refine .inr (.inl ?_)
      show s.last ≤ Function.update s.servedAt gc' s.generation gc'
      rw [Function.update_self]
      exact h.last
    · have hold : gc' ∈ s.graphGcs := by
        obtain hold | hnew := List.mem_append.mp hgc'
        · exact hold
        · exact absurd (List.mem_singleton.mp hnew) heq
      refine (h.served gc' hold).move (t := t) .inl (fun hle => .inr (.inl ?_)) ?_ ?_
      · show s.last ≤ Function.update s.servedAt gc s.generation gc'
        rw [Function.update_of_ne heq]
        exact hle
      · intro t' ht hin
        have hwake := h.owes_of_locked (t := t) (by rw [hpc]; rfl) ht hin
        show gc' ∈ (Function.update s.threads t (.pushed gc) t').owes (s.graphGcs ++ [gc])
        rw [Function.update_of_ne ht, hwake]
        exact List.mem_append_left _ hold
      · intro hin
        rw [hpc] at hin
        cases hin

/-- `std::remove` and `erase`. -/
theorem Ok.erase (h : Ok s) (hpc : s.threads t = .erase gc) :
    Ok ({ s with graphGcs := s.graphGcs.filter (· ≠ gc) }.goto t (.erased gc)) where
  faults := h.faults
  owned := by
    refine h.owned.congr (fun _ => Iff.rfl) fun w => ?_
    cases w with
    | inl t' => exact owns_update (by rw [hpc]; rfl) t'
    | inr gc' => rfl
  nodup := h.nodup.filter _
  listed gc' := by
    show gc' ∈ s.graphGcs.filter (· ≠ gc) ↔ s.nodes gc' = true ∨
      ∃ t', (Function.update s.threads t (.erased gc) t').lists = some gc'
    have howned : s.owners (.inl t) = some gc := by
      show (s.threads t).owns = some gc
      rw [hpc]
      rfl
    simp only [List.mem_filter, decide_not, Bool.not_eq_eq_eq_not, Bool.not_true,
      decide_eq_false_iff_not, h.listed gc']
    constructor
    · rintro ⟨hnode | ⟨t', ht'⟩, hne⟩
      · exact .inl hnode
      · have ht : t' ≠ t := by
          rintro rfl
          rw [hpc] at ht'
          cases ht'
          exact hne rfl
        exact .inr ⟨t', by rw [Function.update_of_ne ht]; exact ht'⟩
    · rintro (hnode | ⟨t', ht'⟩)
      · refine ⟨.inl hnode, ?_⟩
        rintro rfl
        cases h.owned.unique (v := .inr gc') howned (if_pos hnode)
      · by_cases ht : t' = t
        · subst ht
          rw [Function.update_self] at ht'
          cases ht'
        · rw [Function.update_of_ne ht] at ht'
          refine ⟨.inr ⟨t', ht'⟩, ?_⟩
          rintro rfl
          cases h.owned.unique (v := .inl t') howned (Pc.owns_of_lists ht')
          exact ht rfl
  locked := locked_same h.locked (by rw [hpc]; rfl)
  loaded := loaded_update h.loaded (fun gen hgen => by cases hgen)
  last := h.last
  served gc' hgc' := by
    have hold := (List.mem_filter.mp hgc').1
    refine (h.served gc' hold).move (t := t) .inl (fun hle => .inr (.inl hle)) ?_ ?_
    · intro t' ht hin
      have hwake := h.owes_of_locked (t := t) (by rw [hpc]; rfl) ht hin
      show gc' ∈ (Function.update s.threads t (.erased gc) t').owes _
      rw [Function.update_of_ne ht, hwake]
      exact hgc'
    · intro hin
      rw [hpc] at hin
      cases hin

/-! ### Steps on a guard condition -/

/-- A guard condition that is not in the list is created or destroyed. -/
theorem Ok.memory (h : Ok s) {value : Option Nat} (hgc : gc ∉ s.graphGcs)
    (howned : Linear
      (fun gc' => (({ s with heap := Function.update s.heap gc value }.goto t pc').heap
        gc').isSome)
      ({ s with heap := Function.update s.heap gc value }.goto t pc').owners)
    (hlists : pc'.lists = (s.threads t).lists) (hlocked : pc'.locked = (s.threads t).locked)
    (hloaded : pc'.loaded = none) (howes : (s.threads t).owes s.graphGcs = []) :
    Ok ({ s with heap := Function.update s.heap gc value }.goto t pc') where
  faults := h.faults
  owned := howned
  nodup := h.nodup
  listed gc' := (h.listed gc').trans (or_congr Iff.rfl (lists_update hlists).symm)
  locked := locked_same h.locked hlocked
  loaded := loaded_update h.loaded fun gen hgen => by
    rw [hloaded] at hgen
    cases hgen
  last := h.last
  served gc' hgc' := by
    have hne : gc' ≠ gc := by
      intro heq
      exact hgc (heq ▸ hgc')
    refine (h.served gc' hgc').move (t := t) (fun hcount => .inl ?_)
      (fun hle => .inr (.inl hle)) ?_ ?_
    · show (Function.update s.heap gc value gc').getD 0 ≠ 0
      rw [Function.update_of_ne hne]
      exact hcount
    · intro t' ht hin
      show gc' ∈ (Function.update s.threads t pc' t').owes s.graphGcs
      rw [Function.update_of_ne ht]
      exact hin
    · intro hin
      rw [howes] at hin
      cases hin

theorem isSome_update (heap : P → Option Nat) (value : Nat) (gc' : P) :
    (Function.update heap gc (some value) gc').isSome ↔ (heap gc').isSome ∨ gc' = gc := by
  by_cases heq : gc' = gc
  · subst heq
    simp
  · rw [Function.update_of_ne heq]
    simp [heq]

/-- `rmw_create_guard_condition`, at any address that is free. -/
theorem Ok.create (h : Ok s) (hpc : s.threads t = .idle) (hfree : s.heap gc = none) :
    Ok ({ s with heap := Function.update s.heap gc (some 0) }.goto t (.made gc)) := by
  have hgc : gc ∉ s.graphGcs := by
    intro hgc
    have halive := h.listed_alive hgc
    rw [hfree] at halive
    cases halive
  refine h.memory hgc ?_ (by rw [hpc]; rfl) (by rw [hpc]; rfl) rfl (by rw [hpc]; rfl)
  refine h.owned.create (.inl t) (k := gc) ?_ ?_ ?_ (isSome_update s.heap 0) fun w hw => ?_
  · show (s.threads t).owns = none
    rw [hpc]
    rfl
  · show (Function.update s.threads t (.made gc) t).owns = some gc
    rw [Function.update_self]
    rfl
  · simp [hfree]
  · cases w with
    | inl t' =>
      show (Function.update s.threads t (.made gc) t').owns = (s.threads t').owns
      rw [Function.update_of_ne fun ht => hw (congrArg Sum.inl ht)]
    | inr gc' => rfl

/-- `rmw_destroy_guard_condition`, of a guard condition that nobody else has. -/
theorem Ok.destroy (h : Ok s) (howns : (s.threads t).owns = some gc)
    (hlists : (s.threads t).lists = none) (hlocked : (s.threads t).locked = false)
    (howes : (s.threads t).owes s.graphGcs = []) : Ok ((s.destroy gc).goto t .idle) := by
  have hgc := h.not_listed howns hlists
  obtain ⟨counter, halive⟩ := Option.isSome_iff_exists.mp (h.owned.alive (.inl t) gc howns)
  rw [State.destroy, halive]
  refine h.memory hgc ?_ hlists.symm hlocked.symm rfl howes
  refine h.owned.drop (.inl t) ?_ (fun gc' => ?_) fun w hw => ?_
  · show (Function.update s.threads t .idle t).owns = none
    rw [Function.update_self]
    rfl
  · show (Function.update s.heap gc none gc').isSome ↔
      (s.heap gc').isSome ∧ (s.threads t).owns ≠ some gc'
    rw [howns]
    by_cases heq : gc' = gc
    · subst heq
      simp
    · rw [Function.update_of_ne heq]
      simp [Ne.symm heq]
  · cases w with
    | inl t' =>
      show (Function.update s.threads t .idle t').owns = (s.threads t').owns
      rw [Function.update_of_ne fun ht => hw (congrArg Sum.inl ht)]
    | inr gc' => rfl

omit [DecidableEq T] in
/-- An eventfd of the list is written or read. -/
theorem Ok.eventfd (h : Ok s) (value : Nat) (servedAt : P → Nat) (hgc : gc ∈ s.graphGcs)
    (hserved : value ≠ 0 ∨ s.last ≤ servedAt gc)
    (hsame : ∀ gc' ≠ gc, servedAt gc' = s.servedAt gc') :
    Ok { s with heap := Function.update s.heap gc (some value), servedAt := servedAt } where
  faults := h.faults
  owned := by
    refine h.owned.congr (fun gc' => (isSome_update s.heap value gc').trans ?_) fun _ => rfl
    refine or_iff_left_of_imp ?_
    rintro rfl
    exact h.listed_alive hgc
  nodup := h.nodup
  listed := h.listed
  locked := h.locked
  loaded := h.loaded
  last := h.last
  served gc' hgc' := by
    by_cases heq : gc' = gc
    · subst heq
      obtain hcount | hle := hserved
      · refine .inl ?_
        show (Function.update s.heap gc' (some value) gc').getD 0 ≠ 0
        rw [Function.update_self]
        exact hcount
      · exact .inr (.inl hle)
    · obtain hcount | hle | howes := h.served gc' hgc'
      · refine .inl ?_
        show (Function.update s.heap gc (some value) gc').getD 0 ≠ 0
        rw [Function.update_of_ne heq]
        exact hcount
      · refine .inr (.inl ?_)
        show s.last ≤ servedAt gc'
        rw [hsame gc' heq]
        exact hle
      · exact .inr (.inr howes)

omit [DecidableEq T] [DecidableEq P] in
theorem eventfdWrite_ne_zero (counter : Nat) : eventfdWrite counter ≠ 0 := by
  unfold eventfdWrite
  split <;> omega

/-- `rmw_trigger_guard_condition` in the loop over the list. -/
theorem Ok.trigger (h : Ok s) {i : Nat} (hpc : s.threads t = .trigger i)
    (hat : s.graphGcs[i]? = some gc) : Ok ((s.trigger gc).goto t (.trigger (i + 1))) := by
  have hgc := List.mem_of_getElem? hat
  obtain ⟨counter, halive⟩ := Option.isSome_iff_exists.mp (h.listed_alive hgc)
  rw [State.trigger, halive]
  have hwritten := h.eventfd (eventfdWrite counter) s.servedAt hgc
    (.inl (eventfdWrite_ne_zero counter)) fun _ _ => rfl
  have hcons : s.graphGcs.drop i = gc :: s.graphGcs.drop (i + 1) := by
    obtain ⟨hi, rfl⟩ := List.getElem?_eq_some_iff.mp hat
    exact List.drop_eq_getElem_cons hi
  refine hwritten.goto (by show _ = (s.threads t).owns; rw [hpc]; rfl)
    (by show _ = (s.threads t).lists; rw [hpc]; rfl)
    (by show _ = (s.threads t).locked; rw [hpc]; rfl) (fun gen hgen => by cases hgen) ?_
  intro gc' _ hin
  have howes : gc' ∈ (s.threads t).owes s.graphGcs := hin
  rw [hpc] at howes
  have hdrop : gc' ∈ s.graphGcs.drop i := howes
  rw [hcons] at hdrop
  obtain rfl | hlater := List.mem_cons.mp hdrop
  · refine .inr ?_
    show (Function.update s.heap gc' (some (eventfdWrite counter)) gc').getD 0 ≠ 0
    rw [Function.update_self]
    exact eventfdWrite_ne_zero counter
  · exact .inl hlater

/-- A node gets its guard condition from the thread that creates it, or gives it to the
thread that destroys it. -/
theorem Ok.node (h : Ok s) (mutex : Option T) {value : Bool}
    (howned : Linear (fun gc => (s.heap gc).isSome)
      ({ s with nodes := Function.update s.nodes gc value, mutex := mutex }.goto t pc').owners)
    (hlisted : (value = true ∧ (s.threads t).lists = some gc ∧ pc'.lists = none) ∨
      (s.nodes gc = true ∧ value = false ∧ (s.threads t).lists = none ∧ pc'.lists = some gc))
    (hlocked : ∀ t', (Function.update s.threads t pc' t').locked = true ↔ mutex = some t')
    (hloaded : pc'.loaded = none) (howes : (s.threads t).owes s.graphGcs = []) :
    Ok ({ s with nodes := Function.update s.nodes gc value, mutex := mutex }.goto t pc') where
  faults := h.faults
  owned := howned
  nodup := h.nodup
  listed gc' := by
    show gc' ∈ s.graphGcs ↔ Function.update s.nodes gc value gc' = true ∨
      ∃ t', (Function.update s.threads t pc' t').lists = some gc'
    have hothers : (∃ t', (Function.update s.threads t pc' t').lists = some gc') ↔
        pc'.lists = some gc' ∨ ∃ t' ≠ t, (s.threads t').lists = some gc' := by
      constructor
      · rintro ⟨t', ht'⟩
        by_cases ht : t' = t
        · subst ht
          rw [Function.update_self] at ht'
          exact .inl ht'
        · rw [Function.update_of_ne ht] at ht'
          exact .inr ⟨t', ht, ht'⟩
      · rintro (hmine | ⟨t', ht, ht'⟩)
        · exact ⟨t, by rw [Function.update_self]; exact hmine⟩
        · exact ⟨t', by rw [Function.update_of_ne ht]; exact ht'⟩
    have hbefore : (∃ t', (s.threads t').lists = some gc') ↔
        (s.threads t).lists = some gc' ∨ ∃ t' ≠ t, (s.threads t').lists = some gc' := by
      constructor
      · rintro ⟨t', ht'⟩
        by_cases ht : t' = t
        · exact .inl (ht ▸ ht')
        · exact .inr ⟨t', ht, ht'⟩
      · rintro (hmine | ⟨t', _, ht'⟩)
        · exact ⟨t, hmine⟩
        · exact ⟨t', ht'⟩
    rw [h.listed gc', hbefore, hothers]
    by_cases heq : gc' = gc
    · subst heq
      rw [Function.update_self]
      obtain ⟨hvalue, hlists, hlists'⟩ | ⟨hnode, hvalue, hlists, hlists'⟩ := hlisted
      · simp [hvalue, hlists]
      · simp [hnode, hlists']
    · rw [Function.update_of_ne heq]
      obtain ⟨_, hlists, hlists'⟩ | ⟨_, _, hlists, hlists'⟩ := hlisted <;>
        simp [hlists, hlists', Ne.symm heq]
  locked := hlocked
  loaded := loaded_update h.loaded fun gen hgen => by
    rw [hloaded] at hgen
    cases hgen
  last := h.last
  served gc' hgc' := by
    refine (h.served gc' hgc').move (t := t) .inl (fun hle => .inr (.inl hle)) ?_ ?_
    · intro t' ht hin
      show gc' ∈ (Function.update s.threads t pc' t').owes s.graphGcs
      rw [Function.update_of_ne ht]
      exact hin
    · intro hin
      rw [howes] at hin
      cases hin

/-- `rmw_create_node` returns. -/
theorem Ok.created (h : Ok s) (hpc : s.threads t = .pushed gc) :
    Ok (GraphGuards.unlock { s with nodes := Function.update s.nodes gc true } t .idle) := by
  have howns : s.owners (.inl t) = some gc := by
    show (s.threads t).owns = some gc
    rw [hpc]
    rfl
  have hnode : s.owners (.inr gc) = none := by
    by_contra hnode
    obtain ⟨gc', hgc'⟩ := Option.ne_none_iff_exists'.mp hnode
    have hsame : gc' = gc := by
      simp only [State.owners] at hgc'
      split at hgc' <;> cases hgc'
      rfl
    subst hsame
    cases h.owned.unique howns hgc'
  refine h.node _ (.hand h.owned (.inl t) (.inr gc) hnode ?_ ?_ fun w hw hw' => ?_)
    (.inl ⟨rfl, by rw [hpc]; rfl, rfl⟩) (locked_unlock h.locked (by rw [hpc]; rfl) rfl) rfl
    (by rw [hpc]; rfl)
  · show (Function.update s.threads t .idle t).owns = none
    rw [Function.update_self]
    rfl
  · rw [howns]
    show (if Function.update s.nodes gc true gc = true then some gc else none) = some gc
    rw [Function.update_self, if_pos rfl]
  · cases w with
    | inl t' =>
      show (Function.update s.threads t .idle t').owns = (s.threads t').owns
      rw [Function.update_of_ne fun ht => hw (congrArg Sum.inl ht)]
    | inr gc' =>
      show (if Function.update s.nodes gc true gc' = true then some gc' else none) =
        if s.nodes gc' = true then some gc' else none
      rw [Function.update_of_ne fun heq => hw' (congrArg Sum.inr heq)]

/-- `rmw_destroy_node` starts. -/
theorem Ok.withdraw (h : Ok s) (hpc : s.threads t = .idle) (hnode : s.nodes gc = true) :
    Ok ({ s with nodes := Function.update s.nodes gc false }.goto t (.withdraw gc)) := by
  have hempty : s.owners (.inl t) = none := by
    show (s.threads t).owns = none
    rw [hpc]
    rfl
  refine h.node s.mutex
    (.hand h.owned (.inr gc) (.inl t) hempty ?_ ?_ fun w hw hw' => ?_)
    (.inr ⟨hnode, rfl, by rw [hpc]; rfl, rfl⟩) (locked_same h.locked (by rw [hpc]; rfl)) rfl
    (by rw [hpc]; rfl)
  · show (if Function.update s.nodes gc false gc = true then some gc else none) = none
    rw [Function.update_self]
    rfl
  · show (Function.update s.threads t (.withdraw gc) t).owns =
      if s.nodes gc = true then some gc else none
    rw [Function.update_self, if_pos hnode]
    rfl
  · cases w with
    | inl t' =>
      show (Function.update s.threads t (.withdraw gc) t').owns = (s.threads t').owns
      rw [Function.update_of_ne fun ht => hw' (congrArg Sum.inl ht)]
    | inr gc' =>
      show (if Function.update s.nodes gc false gc' = true then some gc' else none) =
        if s.nodes gc' = true then some gc' else none
      rw [Function.update_of_ne fun heq => hw (congrArg Sum.inr heq)]

/-! ### Every step -/

omit [DecidableEq T] in
/-- `has_graph_gc` reads what exists. -/
theorem Ok.data_eq (h : Ok s) (hgc : gc ∈ s.graphGcs) : s.data gc = s := by
  obtain ⟨counter, halive⟩ := Option.isSome_iff_exists.mp (h.listed_alive hgc)
  rw [State.data, halive]

theorem Ok.threadStep (h : Ok s) (hstep : threadStep s t = some u) : Ok u := by
  unfold GraphGuards.threadStep at hstep
  split at hstep
  · cases hstep
  · rename_i gc hpc
    cases hstep
    exact h.goto (by rw [hpc]; rfl) (by rw [hpc]; rfl) (by rw [hpc]; rfl)
      (fun gen hgen => by cases hgen) fun gc' _ hin => by rw [hpc] at hin; cases hin
  · rename_i gc hpc
    exact h.lock hstep (by rw [hpc]; rfl) (by rw [hpc]; rfl) rfl rfl
      fun gc' _ hin => by rw [hpc] at hin; cases hin
  · rename_i gc hpc
    cases hstep
    exact h.push hpc
  · rename_i gc hpc
    cases hstep
    exact h.created hpc
  · rename_i gc hpc
    exact h.lock hstep (by rw [hpc]; rfl) (by rw [hpc]; rfl) rfl rfl
      fun gc' _ hin => by rw [hpc] at hin; cases hin
  · rename_i gc hpc
    cases hstep
    exact h.erase hpc
  · rename_i gc hpc
    cases hstep
    exact h.unlock (by rw [hpc]; rfl) (by rw [hpc]; rfl) (by rw [hpc]; rfl) rfl rfl
      (by rw [hpc]; rfl)
  · rename_i gc hpc
    cases hstep
    exact h.destroy (by rw [hpc]; rfl) (by rw [hpc]; rfl) (by rw [hpc]; rfl) (by rw [hpc]; rfl)
  · rename_i wants hpc
    exact h.lock hstep (by rw [hpc]; rfl) (by rw [hpc]; rfl) rfl rfl
      fun gc' _ hin => by rw [hpc] at hin; cases hin
  · rename_i j hpc
    cases hstep
    exact h.unlock (by rw [hpc]; rfl) (by rw [hpc]; rfl) (by rw [hpc]; rfl) rfl rfl
      (by rw [hpc]; rfl)
  · rename_i want wants j hpc
    split at hstep
    · cases hstep
      exact h.goto (by rw [hpc]; rfl) (by rw [hpc]; rfl) (by rw [hpc]; rfl)
        (fun gen hgen => by cases hgen) fun gc' _ hin => by rw [hpc] at hin; cases hin
    · rename_i gc hat
      rw [h.data_eq (List.mem_of_getElem? hat)] at hstep
      split at hstep
      · cases hstep
        exact h.unlock (by rw [hpc]; rfl) (by rw [hpc]; rfl) (by rw [hpc]; rfl) rfl rfl
          (by rw [hpc]; rfl)
      · cases hstep
        exact h.goto (by rw [hpc]; rfl) (by rw [hpc]; rfl) (by rw [hpc]; rfl)
          (fun gen hgen => by cases hgen) fun gc' _ hin => by rw [hpc] at hin; cases hin
  · rename_i hpc
    cases hstep
    refine h.goto (by rw [hpc]; rfl) (by rw [hpc]; rfl) (by rw [hpc]; rfl) ?_
      fun gc' _ hin => by rw [hpc] at hin; cases hin
    intro gen hgen
    cases hgen
    exact Nat.le_refl _
  · rename_i gen hpc
    cases hstep
    have hle := h.loaded t gen (by rw [hpc]; rfl)
    split
    · refine h.goto (by rw [hpc]; rfl) (by rw [hpc]; rfl) (by rw [hpc]; rfl) ?_
        fun gc' _ hin => by rw [hpc] at hin; cases hin
      intro gen' hgen
      cases hgen
      exact hle
    · exact h.goto (by rw [hpc]; rfl) (by rw [hpc]; rfl) (by rw [hpc]; rfl)
        (fun gen hgen => by cases hgen) fun gc' _ hin => by rw [hpc] at hin; cases hin
  · rename_i gen hpc
    cases hstep
    exact h.control (by rw [hpc]; rfl) (by rw [hpc]; rfl)
      (locked_same h.locked (by rw [hpc]; rfl)) (fun gen' hgen => by cases hgen)
      (h.loaded t gen (by rw [hpc]; rfl)) (.inr rfl) fun gc' hgc' _ => .inl hgc'
  · rename_i hpc
    exact h.lock hstep (by rw [hpc]; rfl) (by rw [hpc]; rfl) rfl rfl fun gc' hgc' _ => .inl hgc'
  · rename_i i hpc
    split at hstep
    · rename_i hend
      cases hstep
      refine h.unlock (by rw [hpc]; rfl) (by rw [hpc]; rfl) (by rw [hpc]; rfl) rfl rfl ?_
      rw [hpc]
      exact List.drop_eq_nil_of_le (List.getElem?_eq_none_iff.mp hend)
    · rename_i gc hat
      cases hstep
      exact h.trigger hpc hat

theorem Ok.step (h : Ok s) {a : Act T P} (hstep : (machine T P).step s a = some u) : Ok u := by
  cases a with
  | create t gc =>
    simp only [machine, GraphGuards.step] at hstep
    split at hstep
    · rename_i hcall
      cases hstep
      exact h.create hcall.1 hcall.2
    · cases hstep
  | fail t =>
    simp only [machine, GraphGuards.step] at hstep
    split at hstep
    · rename_i gc hpc
      cases hstep
      exact h.destroy (by rw [hpc]; rfl) (by rw [hpc]; rfl) (by rw [hpc]; rfl)
        (by rw [hpc]; rfl)
    · cases hstep
  | destroy t gc =>
    simp only [machine, GraphGuards.step] at hstep
    split at hstep
    · rename_i hcall
      cases hstep
      exact h.withdraw hcall.1 hcall.2
    · cases hstep
  | wait t wants registered =>
    simp only [machine, GraphGuards.step] at hstep
    split at hstep
    · rename_i hpc
      cases hstep
      split <;>
        exact h.goto (by rw [hpc]; rfl) (by rw [hpc]; rfl) (by rw [hpc]; rfl)
          (fun gen hgen => by cases hgen) fun gc' _ hin => by rw [hpc] at hin; cases hin
    · cases hstep
  | thread t => exact h.threadStep hstep
  | bump =>
    cases hstep
    exact ⟨h.faults, h.owned.congr (fun _ => Iff.rfl) fun _ => rfl, h.nodup, h.listed, h.locked,
      fun t gen hgen => Nat.le_succ_of_le (h.loaded t gen hgen), Nat.le_succ_of_le h.last,
      h.served⟩
  | read gc =>
    simp only [machine, GraphGuards.step] at hstep
    split at hstep
    · rename_i hread
      cases hstep
      have hgc := (h.listed gc).mpr (.inl hread.1)
      refine h.eventfd _ _ hgc (.inr ?_) fun gc' hne => Function.update_of_ne hne ..
      rw [Function.update_self]
      exact h.last
    · cases hstep

/-- No guard condition is accessed that does not exist, each is in the list once, and the
list has those of all nodes.  A node that existed when a check stored its generation is
triggered: its eventfd is readable, or was read since, or a thread has still to trigger it.
When no call is under way, the list has the nodes' guard conditions and no others, and no
others exist. -/
theorem graph_guards_triggered {ok : State T P → Act T P → Prop} {gen : Nat}
    (h : (machine T P).Reach ok (.init T P gen) s) :
    s.faults = 0 ∧ s.graphGcs.Nodup ∧ (∀ gc ∈ s.graphGcs, (s.heap gc).isSome) ∧
    (∀ gc, s.nodes gc = true → gc ∈ s.graphGcs ∧ s.Served gc) ∧
    ((∀ t, s.threads t = .idle) → ∀ gc,
      (gc ∈ s.graphGcs ↔ s.nodes gc = true) ∧ ((s.heap gc).isSome ↔ s.nodes gc = true)) := by
  have hok : Ok s := h.invariant (.init T P gen) fun _ _ _ hI _ hstep => hI.step hstep
  refine ⟨hok.faults, hok.nodup, fun gc hgc => hok.listed_alive hgc, fun gc hnode => ?_,
    fun hidle gc => ?_⟩
  · have hgc := (hok.listed gc).mpr (.inl hnode)
    exact ⟨hgc, hok.served gc hgc⟩
  · have hlists : ¬∃ t, (s.threads t).lists = some gc := by
      intro ⟨t, ht⟩
      rw [hidle t] at ht
      cases ht
    have hlisted : gc ∈ s.graphGcs ↔ s.nodes gc = true := by
      rw [hok.listed gc, or_iff_left hlists]
    refine ⟨hlisted, fun halive => ?_, fun hnode => hok.listed_alive (hlisted.mpr hnode)⟩
    obtain ⟨w, hw⟩ := hok.owned.used gc halive
    cases w with
    | inl t =>
      have howns : (s.threads t).owns = some gc := hw
      rw [hidle t] at howns
      cases howns
    | inr gc' =>
      simp only [State.owners] at hw
      split at hw
      · rename_i hnode
        cases hw
        exact hnode
      · cases hw

end Invariant

/-- Thread `true` stores a new generation and waits for the mutex.  Meanwhile thread
`false` destroys the first node, and the second one gets its address. -/
def reuse : List (Act Bool Unit) :=
  [.create false ()] ++ List.replicate 4 (.thread false) ++
  [.bump, .wait true [()] true] ++ List.replicate 3 (.thread true) ++
  [.destroy false ()] ++ List.replicate 4 (.thread false) ++
  [.create false ()] ++ List.replicate 4 (.thread false) ++
  [.thread true]

/-- Thread `true` is in its loop over the new list. -/
theorem graph_guards_triggered_reuse :
    ∃ s, (machine Bool Unit).Reach (fun _ _ => True) (.init Bool Unit 0) s ∧
      s.threads true = .trigger 0 ∧ s.nodes () = true ∧ s.counter () = 0 ∧
      s.faults = 0 ∧ s.Served () := by
  obtain ⟨s, hreach, hpc, hnode, hcounter⟩ :=
    (machine Bool Unit).exists_reach_of_guardedRun (fun _ _ => True) (.init Bool Unit 0) reuse
      (fun s => s.threads true = .trigger 0 ∧ s.nodes () = true ∧ s.counter () = 0) (by decide)
  have hsafe := graph_guards_triggered hreach
  exact ⟨s, hreach, hpc, hnode, hcounter, hsafe.1, (hsafe.2.2.2.1 () hnode).2⟩

end RmwUnixSocket.Wait.GraphGuards
