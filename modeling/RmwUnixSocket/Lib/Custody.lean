import Mathlib.Algebra.Order.Group.Multiset
import Mathlib.Data.Multiset.UnionInter
import RmwUnixSocket.Lib.Machine

/-!
# Custody of resources

Programs that take resources from a system and give them back.  The system numbers what it
hands out, it may refuse, and it may hand out a number again after it was given back.  It
records as a fault every release of a resource that is not taken.

Some resources are names in a shared space, such as files.  A name is free for anyone to
make or to remove, so a program first draws the token that guards it.  A token is drawn
once and never given back.

* `Prog` is a program that performs one operation at a time, with the answers of the
  system as its branches.
* `Prog.Keeps` says what a program does with the resources that it has: it releases only
  what it has, and makes and removes only names whose tokens it has.
* `Prog.Turns` is the triple on top of it: from `mine` to `result`, whatever else the
  caller has.  It has the rule of sequence and the frame rule, and one rule for each
  operation.
* `machine` runs any number of programs at once.  Each holder is at rest with a value that
  records what it owns, or in a call.
* `Inv.reach`: when every call keeps custody, no run has a fault, and what is taken is
  what the values at rest record and what the calls under way own.

Nothing here is about a particular program.
-/

namespace Custody

/-- The token that guards each name. -/
structure Realm (R : Type) where
  guard : R → Option R
  /-- A token is not itself a guarded name. -/
  bare : ∀ {r t : R}, guard r = some t → guard t = none

/-- The resources of an optional field. -/
def held {R : Type} (r : Option R) : Multiset R := r.elim 0 ({·})

@[simp]
theorem held_none {R : Type} : held (none : Option R) = 0 := rfl

@[simp]
theorem held_some {R : Type} (r : R) : held (some r) = {r} := rfl

namespace Realm

variable {R : Type} (W : Realm R)

/-- A token guards some name. -/
def IsToken (t : R) : Prop := ∃ r, W.guard r = some t

/-- Whoever has a guarded name has its token as well. -/
def Closed (own : Multiset R) : Prop :=
  ∀ r ∈ own, ∀ t, W.guard r = some t → t ∈ own

variable {W} {a b : Multiset R} {r : R}

theorem Closed.zero : W.Closed 0 :=
  fun r hr => (Multiset.notMem_zero r hr).elim

theorem Closed.add (ha : W.Closed a) (hb : W.Closed b) : W.Closed (a + b) := by
  intro r hr t ht
  rcases Multiset.mem_add.mp hr with h | h
  · exact Multiset.mem_add.mpr (.inl (ha r h t ht))
  · exact Multiset.mem_add.mpr (.inr (hb r h t ht))

/-- A resource without a guard joins. -/
theorem Closed.cons_open (ha : W.Closed a) (hr : W.guard r = none) :
    W.Closed (r ::ₘ a) := by
  intro q hq t ht
  rcases Multiset.mem_cons.mp hq with rfl | h
  · rw [hr] at ht
    cases ht
  · exact Multiset.mem_cons_of_mem (ha q h t ht)

/-- A name joins its token. -/
theorem Closed.cons_guarded {t : R} (ha : W.Closed a) (hr : W.guard r = some t)
    (ht : t ∈ a) : W.Closed (r ::ₘ a) := by
  intro q hq u hu
  rcases Multiset.mem_cons.mp hq with rfl | h
  · have htu : t = u := Option.some.inj (hr.symm.trans hu)
    exact Multiset.mem_cons_of_mem (htu ▸ ht)
  · exact Multiset.mem_cons_of_mem (ha q h u hu)

/-- What is not a token may leave. -/
theorem Closed.erase [DecidableEq R] (ha : W.Closed a) (hr : ¬W.IsToken r) :
    W.Closed (a.erase r) := by
  intro q hq t ht
  have hne : t ≠ r := fun h => hr ⟨q, h ▸ ht⟩
  exact (Multiset.mem_erase_of_ne hne).mpr (ha q (Multiset.mem_of_mem_erase hq) t ht)

theorem Closed.of_tokens (ha : ∀ t ∈ a, W.IsToken t) : W.Closed a := by
  intro q hq t ht
  obtain ⟨r, hr⟩ := ha q hq
  rw [W.bare hr] at ht
  cases ht

/-- Whoever has the token is the only one who can have the name. -/
theorem Closed.notMem {t : R} (hb : W.Closed b) (hnodup : (a + b).Nodup)
    (ht : t ∈ a) (hr : W.guard r = some t) : r ∉ b := by
  intro hrb
  have htb : t ∈ b := hb r hrb t hr
  exact Multiset.disjoint_left.mp (Multiset.nodup_add.mp hnodup).2.2 ht htb

end Realm

/-- A program with its next operation.

* `ask`: the system answers with a number; nothing is taken.
* `acquire`: takes a resource that the system numbers, and makes a name with it; the
  system may refuse.
* `draw`: takes a resource that cannot be refused.
* `create`: makes a name; the system may refuse.
* `release`: gives a resource back.
* `remove`: removes a name, there or not. -/
inductive Prog (R A : Type) where
  | done (a : A)
  | ask (next : Nat → Prog R A)
  | acquire (make : Nat → R) (also : Option R) (next : Option Nat → Prog R A)
  | draw (make : Nat → R) (next : Nat → Prog R A)
  | create (name : R) (next : Bool → Prog R A)
  | release (r : R) (next : Prog R A)
  | remove (name : R) (next : Prog R A)

/-- What the system answers. -/
inductive Answer where
  | number (n : Nat)
  | refused
  | over
  deriving DecidableEq, Repr

namespace Prog

variable {R A B : Type}

def bind : Prog R A → (A → Prog R B) → Prog R B
  | .done a, f => f a
  | .ask next, f => .ask fun n => (next n).bind f
  | .acquire make also next, f => .acquire make also fun n => (next n).bind f
  | .draw make next, f => .draw make fun n => (next n).bind f
  | .create name next, f => .create name fun b => (next b).bind f
  | .release r next, f => .release r (next.bind f)
  | .remove name next, f => .remove name (next.bind f)

instance : Monad (Prog R) where
  pure := .done
  bind := .bind

variable [DecidableEq R] (W : Realm R)

/-- One operation: what is taken afterwards, the faults, and the rest of the program.  A
resource is handed out only while nobody has it. -/
def perform (held : Multiset R) (faults : Nat) :
    Prog R A → Answer → Option (Multiset R × Nat × Prog R A)
  | .ask next, .number n => some (held, faults, next n)
  | .acquire make also next, .number n =>
    if make n ∉ held ∧ ∀ name ∈ also, name ∉ held ∧ name ≠ make n then
      some (make n ::ₘ also.elim held (· ::ₘ held), faults, next (some n))
    else none
  | .acquire _ _ next, .refused => some (held, faults, next none)
  | .draw make next, .number n =>
    if make n ∉ held then some (make n ::ₘ held, faults, next n) else none
  | .create name next, .over =>
    if name ∉ held then some (name ::ₘ held, faults, next true) else none
  | .create _ next, .refused => some (held, faults, next false)
  | .release r next, .over =>
    if r ∈ held then some (held.erase r, faults, next)
    else some (held, faults + 1, next)
  | .remove name next, .over => some (held.erase name, faults, next)
  | _, _ => none

/-- The name may be made or removed: its token is at hand. -/
def Guarded (own : Multiset R) (name : R) : Prop :=
  ∃ t ∈ own, W.guard name = some t

/-- From the resources `own` the program releases only what it has, makes and removes only
names whose tokens it has, and ends in `post`. -/
def Keeps : Prog R A → Multiset R → (A → Multiset R → Prop) → Prop
  | .done a, own, post => post a own
  | .ask next, own, post => ∀ n, (next n).Keeps own post
  | .acquire make also next, own, post =>
    (∀ n, W.guard (make n) = none) ∧ (∀ name ∈ also, Guarded W own name) ∧
      (next none).Keeps own post ∧
      ∀ n, make n ∉ own → (∀ name ∈ also, name ∉ own) →
        (next (some n)).Keeps (make n ::ₘ also.elim own (· ::ₘ own)) post
  | .draw make next, own, post =>
    (∀ n, W.guard (make n) = none) ∧
      ∀ n, make n ∉ own → (next n).Keeps (make n ::ₘ own) post
  | .create name next, own, post =>
    Guarded W own name ∧ (next false).Keeps own post ∧
      (name ∉ own → (next true).Keeps (name ::ₘ own) post)
  | .release r next, own, post =>
    r ∈ own ∧ ¬W.IsToken r ∧ next.Keeps (own.erase r) post
  | .remove name next, own, post =>
    Guarded W own name ∧ ¬W.IsToken name ∧ next.Keeps (own.erase name) post

namespace Keeps

variable {W} {p : Prog R A} {f : A → Prog R B} {own rest : Multiset R}
  {post post' : A → Multiset R → Prop}

theorem mono (h : p.Keeps W own post) (himp : ∀ a own, post a own → post' a own) :
    p.Keeps W own post' := by
  induction p generalizing own with
  | done a => exact himp a own h
  | ask next ih => exact fun n => ih n (h n)
  | acquire make also next ih =>
    exact ⟨h.1, h.2.1, ih none h.2.2.1, fun n hn ha => ih (some n) (h.2.2.2 n hn ha)⟩
  | draw make next ih => exact ⟨h.1, fun n hn => ih n (h.2 n hn)⟩
  | create name next ih => exact ⟨h.1, ih false h.2.1, fun hn => ih true (h.2.2 hn)⟩
  | release r next ih => exact ⟨h.1, h.2.1, ih h.2.2⟩
  | remove name next ih => exact ⟨h.1, h.2.1, ih h.2.2⟩

/-- The rule of sequence. -/
theorem bind {post : B → Multiset R → Prop} {mid : A → Multiset R → Prop}
    (h : p.Keeps W own mid) (hnext : ∀ a own, mid a own → (f a).Keeps W own post) :
    (p.bind f).Keeps W own post := by
  induction p generalizing own with
  | done a => exact hnext a own h
  | ask next ih => exact fun n => ih n (h n)
  | acquire make also next ih =>
    exact ⟨h.1, h.2.1, ih none h.2.2.1, fun n hn ha => ih (some n) (h.2.2.2 n hn ha)⟩
  | draw make next ih => exact ⟨h.1, fun n hn => ih n (h.2 n hn)⟩
  | create name next ih => exact ⟨h.1, ih false h.2.1, fun hn => ih true (h.2.2 hn)⟩
  | release r next ih => exact ⟨h.1, h.2.1, ih h.2.2⟩
  | remove name next ih => exact ⟨h.1, h.2.1, ih h.2.2⟩

/-- One operation of a program that keeps custody: it changes its own part of what is
taken, and the rest of the program keeps custody of that. -/
theorem perform {held held' : Multiset R} {faults faults' : Nat} {p' : Prog R A}
    {answer : Answer} (h : p.Keeps W own post) (hheld : held = own + rest)
    (hnodup : held.Nodup) (hown : W.Closed own) (hrest : W.Closed rest)
    (hp : p.perform held faults answer = some (held', faults', p')) :
    faults' = faults ∧ held'.Nodup ∧ ∃ own', held' = own' + rest ∧ W.Closed own' ∧
      p'.Keeps W own' post := by
  subst hheld
  cases p <;> cases answer <;> simp only [Prog.perform, reduceCtorEq] at hp
  case ask.number next n =>
    cases hp
    exact ⟨rfl, hnodup, own, rfl, hown, h n⟩
  case acquire.number make also next n =>
    split at hp
    · rename_i hfresh
      cases hp
      obtain ⟨hopen, hguard, -, hnext⟩ := h
      obtain ⟨hn, halso⟩ := hfresh
      rw [Multiset.mem_add, not_or] at hn
      have hk := hnext n hn.1 fun name hname hm =>
        (halso name hname).1 (Multiset.mem_add.mpr (.inl hm))
      cases also with
      | none =>
        refine ⟨rfl, ?_, _, (Multiset.cons_add _ _ _).symm, hown.cons_open (hopen n), hk⟩
        exact Multiset.nodup_cons.mpr
          ⟨fun hm => (Multiset.mem_add.mp hm).elim hn.1 hn.2, hnodup⟩
      | some name =>
        obtain ⟨hfree, hne⟩ := halso name rfl
        obtain ⟨t, hto, hnt⟩ := hguard name rfl
        refine ⟨rfl, ?_, _, ?_, (hown.cons_guarded hnt hto).cons_open (hopen n), hk⟩
        · refine Multiset.nodup_cons.mpr ⟨fun hm => ?_, Multiset.nodup_cons.mpr ⟨hfree, hnodup⟩⟩
          rcases Multiset.mem_cons.mp hm with hm | hm
          · exact hne hm.symm
          · exact (Multiset.mem_add.mp hm).elim hn.1 hn.2
        · simp only [Option.elim_some, Multiset.cons_add]
    · cases hp
  case acquire.refused make also next =>
    cases hp
    exact ⟨rfl, hnodup, own, rfl, hown, h.2.2.1⟩
  case draw.number make next n =>
    split at hp
    · rename_i hn
      cases hp
      rw [Multiset.mem_add, not_or] at hn
      refine ⟨rfl, ?_, _, (Multiset.cons_add _ _ _).symm, hown.cons_open (h.1 n),
        h.2 n hn.1⟩
      exact Multiset.nodup_cons.mpr
        ⟨fun hm => (Multiset.mem_add.mp hm).elim hn.1 hn.2, hnodup⟩
    · cases hp
  case create.refused name next =>
    cases hp
    exact ⟨rfl, hnodup, own, rfl, hown, h.2.1⟩
  case create.over name next =>
    split at hp
    · rename_i hn
      cases hp
      obtain ⟨⟨t, hto, hnt⟩, -, hnext⟩ := h
      refine ⟨rfl, Multiset.nodup_cons.mpr ⟨hn, hnodup⟩, _,
        (Multiset.cons_add _ _ _).symm, hown.cons_guarded hnt hto,
        hnext fun hm => hn (Multiset.mem_add.mpr (.inl hm))⟩
    · cases hp
  case release.over r next =>
    obtain ⟨hr, htoken, hnext⟩ := h
    rw [if_pos (Multiset.mem_add.mpr (.inl hr))] at hp
    cases hp
    exact ⟨rfl, hnodup.erase r, own.erase r, Multiset.erase_add_left_pos _ hr,
      hown.erase htoken, hnext⟩
  case remove.over name next =>
    cases hp
    obtain ⟨⟨t, hto, hnt⟩, htoken, hnext⟩ := h
    refine ⟨rfl, hnodup.erase name, own.erase name, ?_, hown.erase htoken, hnext⟩
    by_cases hname : name ∈ own
    · exact Multiset.erase_add_left_pos _ hname
    · have hrest : name ∉ rest := hrest.notMem hnodup hto hnt
      rw [Multiset.erase_of_notMem hname, Multiset.erase_of_notMem]
      exact fun hm => (Multiset.mem_add.mp hm).elim hname hrest

end Keeps

/-! ## Triples -/

/-- From `mine` the program comes to what it answers with, whatever else its caller has.
Tokens may be left behind. -/
def Turns (p : Prog R A) (mine : Multiset R) (result : A → Multiset R) : Prop :=
  ∀ rest, W.Closed rest → (mine + rest).Nodup →
    p.Keeps W (mine + rest) fun a own =>
      own.Nodup ∧ ∃ spent, (∀ t ∈ spent, W.IsToken t) ∧ own = result a + spent + rest

namespace Turns

variable {W} {p : Prog R A} {f : A → Prog R B} {mine mine' own : Multiset R}
  {result result' : A → Multiset R} {after : B → Multiset R} {r t name : R}

theorem pure (a : A) (h : mine = result a) : Turns W (pure a) mine result := by
  intro rest _ hnodup
  refine ⟨hnodup, 0, fun t ht => (Multiset.notMem_zero t ht).elim, ?_⟩
  rw [h, add_zero]

/-- The rule of consequence; tokens that nobody needs any more are left behind. -/
theorem conseq (h : Turns W p mine result) (hmine : mine' = mine)
    (hresult : ∀ a, ∃ spent, (∀ t ∈ spent, W.IsToken t) ∧ result a = result' a + spent) :
    Turns W p mine' result' := by
  subst hmine
  intro rest hrest hnodup
  refine (h rest hrest hnodup).mono ?_
  rintro a own ⟨hown, spent, hspent, rfl⟩
  obtain ⟨more, hmore, heq⟩ := hresult a
  refine ⟨hown, more + spent, ?_, ?_⟩
  · intro t ht
    exact (Multiset.mem_add.mp ht).elim (hmore t) (hspent t)
  · rw [heq, add_assoc (result' a)]

/-- The rule of sequence. -/
theorem bind (h : Turns W p mine result) (hnext : ∀ a, Turns W (f a) (result a) after) :
    Turns W (p >>= f) mine after := by
  intro rest hrest hnodup
  refine Keeps.bind (h rest hrest hnodup) ?_
  rintro a own ⟨hown, spent, hspent, rfl⟩
  rw [add_assoc] at hown ⊢
  have hclosed : W.Closed (spent + rest) := (Realm.Closed.of_tokens hspent).add hrest
  refine (hnext a _ hclosed hown).mono ?_
  rintro b own ⟨hown', more, hmore, rfl⟩
  refine ⟨hown', more + spent, ?_, ?_⟩
  · intro t ht
    exact (Multiset.mem_add.mp ht).elim (hmore t) (hspent t)
  · rw [← add_assoc, ← add_assoc]

/-- The frame rule. -/
theorem frame (h : Turns W p mine result) (hown : W.Closed own) :
    Turns W p (mine + own) fun a => result a + own := by
  intro rest hrest hnodup
  rw [add_assoc] at hnodup ⊢
  refine (h _ (hown.add hrest) hnodup).mono ?_
  rintro a own' ⟨hown', spent, hspent, rfl⟩
  refine ⟨hown', spent, hspent, ?_⟩
  rw [add_assoc, add_assoc, add_assoc, add_left_comm spent]

/-- Tokens may be left behind before the program. -/
theorem drop {spent : Multiset R} (hspent : ∀ t ∈ spent, W.IsToken t)
    (hmine : mine' = spent + mine) (h : Turns W p mine result) : Turns W p mine' result := by
  refine (h.frame (Realm.Closed.of_tokens hspent)).conseq (by rw [hmine, add_comm]) ?_
  exact fun a => ⟨spent, hspent, rfl⟩

/-- A part of the program works on a part of the resources. -/
theorem seq (h : Turns W p mine result) (hmine : mine' = mine + own) (hown : W.Closed own)
    (hnext : ∀ a, Turns W (f a) (result a + own) after) : Turns W (p >>= f) mine' after :=
  hmine ▸ (h.frame hown).bind hnext

end Turns

/-! ## The operations -/

/-- The system answers with a number. -/
def query : Prog R Nat := .ask .done

/-- Takes a resource; with a name, the name is made in the same operation. -/
def take (make : Nat → R) (also : Option R) : Prog R (Option Nat) :=
  .acquire make also .done

/-- Draws a token. -/
def token (make : Nat → R) : Prog R Nat := .draw make .done

def make (name : R) : Prog R Bool := .create name .done

def free (r : R) : Prog R Unit := .release r (.done ())

def unlink (name : R) : Prog R Unit := .remove name (.done ())

/-- Gives back what is there. -/
def freeOption (r : Option R) : Prog R Unit :=
  match r with
  | none => Pure.pure ()
  | some r => free r

def freeAll : List R → Prog R Unit
  | [] => Pure.pure ()
  | r :: rs => do
    free r
    freeAll rs

namespace Turns

variable {W} {f : A → Prog R B} {mine mine' : Multiset R} {after : B → Multiset R}
  {r t name : R}

theorem query {f : Nat → Prog R B} (h : ∀ n, Turns W (f n) mine after) :
    Turns W (query >>= f) mine after :=
  fun rest hrest hnodup n => h n rest hrest hnodup

/-- Taking something that no name stands for. -/
theorem take {make : Nat → R} {f : Option Nat → Prog R B}
    (hopen : ∀ n, W.guard (make n) = none) (hnone : Turns W (f none) mine after)
    (hsome : ∀ n, make n ∉ mine → Turns W (f (some n)) ({make n} + mine) after) :
    Turns W (take make none >>= f) mine after := by
  intro rest hrest hnodup
  refine ⟨hopen, fun _ h => (by cases h), hnone rest hrest hnodup, fun n hn _ => ?_⟩
  rw [Multiset.mem_add, not_or] at hn
  have hnodup' : ({make n} + mine + rest).Nodup := by
    rw [add_assoc, Multiset.singleton_add]
    exact Multiset.nodup_cons.mpr ⟨fun h => (Multiset.mem_add.mp h).elim hn.1 hn.2, hnodup⟩
  have hk := hsome n hn.1 rest hrest hnodup'
  rwa [add_assoc, Multiset.singleton_add] at hk

/-- Taking something, with both answers at once. -/
theorem takeOption {make : Nat → R} {f : Option Nat → Prog R B}
    (hopen : ∀ n, W.guard (make n) = none)
    (h : ∀ n, Turns W (f n) (held (n.map make) + mine) after) :
    Turns W (Prog.take make none >>= f) mine after :=
  take hopen ((zero_add mine) ▸ h none) fun n _ => h (some n)

/-- Taking something under a new name. -/
theorem takeNamed {make : Nat → R} {f : Option Nat → Prog R B}
    (hopen : ∀ n, W.guard (make n) = none) (hguard : W.guard name = some t) (ht : t ∈ mine)
    (hnone : Turns W (f none) mine after)
    (hsome : ∀ n, Turns W (f (some n)) ({make n} + {name} + mine) after) :
    Turns W (Prog.take make (some name) >>= f) mine after := by
  intro rest hrest hnodup
  refine ⟨hopen, ?_, hnone rest hrest hnodup, fun n hn ha => ?_⟩
  · intro n hn
    cases hn
    exact ⟨t, Multiset.mem_add.mpr (.inl ht), hguard⟩
  · have hne : make n ≠ name := by
      intro h
      rw [← h, hopen n] at hguard
      cases hguard
    have hnodup' : ({make n} + {name} + mine + rest).Nodup := by
      rw [add_assoc, add_assoc, Multiset.singleton_add, Multiset.singleton_add]
      refine Multiset.nodup_cons.mpr ⟨fun h => ?_, Multiset.nodup_cons.mpr ⟨ha name rfl, hnodup⟩⟩
      exact (Multiset.mem_cons.mp h).elim hne hn
    have hk := hsome n rest hrest hnodup'
    rwa [add_assoc, add_assoc, Multiset.singleton_add, Multiset.singleton_add] at hk

theorem token {make : Nat → R} {f : Nat → Prog R B}
    (hopen : ∀ n, W.guard (make n) = none)
    (hnext : ∀ n, make n ∉ mine → Turns W (f n) ({make n} + mine) after) :
    Turns W (token make >>= f) mine after := by
  intro rest hrest hnodup
  refine ⟨hopen, fun n hn => ?_⟩
  rw [Multiset.mem_add, not_or] at hn
  have hnodup' : ({make n} + mine + rest).Nodup := by
    rw [add_assoc, Multiset.singleton_add]
    exact Multiset.nodup_cons.mpr ⟨fun h => (Multiset.mem_add.mp h).elim hn.1 hn.2, hnodup⟩
  have hk := hnext n hn.1 rest hrest hnodup'
  rwa [add_assoc, Multiset.singleton_add] at hk

theorem make {f : Bool → Prog R B} (hguard : W.guard name = some t) (ht : t ∈ mine)
    (hfalse : Turns W (f false) mine after)
    (htrue : Turns W (f true) ({name} + mine) after) :
    Turns W (make name >>= f) mine after := by
  intro rest hrest hnodup
  refine ⟨⟨t, Multiset.mem_add.mpr (.inl ht), hguard⟩, hfalse rest hrest hnodup, ?_⟩
  intro hn
  have hnodup' : ({name} + mine + rest).Nodup := by
    rw [add_assoc, Multiset.singleton_add]
    exact Multiset.nodup_cons.mpr ⟨hn, hnodup⟩
  have hk := htrue rest hrest hnodup'
  rwa [add_assoc, Multiset.singleton_add] at hk

theorem free {f : Unit → Prog R B} (htoken : ¬W.IsToken r) (hmine : mine' = {r} + mine)
    (hnext : Turns W (f ()) mine after) : Turns W (free r >>= f) mine' after := by
  subst hmine
  intro rest hrest hnodup
  have hin : r ∈ {r} + mine + rest := by simp
  have herase : ({r} + mine + rest).erase r = mine + rest := by
    rw [add_assoc, Multiset.singleton_add, Multiset.erase_cons_head]
  refine ⟨hin, htoken, ?_⟩
  rw [herase]
  exact hnext rest hrest (herase ▸ hnodup.erase r)

/-- Removing a name that is there. -/
theorem unlink {f : Unit → Prog R B} (htoken : ¬W.IsToken name)
    (hguard : W.guard name = some t) (ht : t ∈ mine) (hmine : mine' = {name} + mine)
    (hnext : Turns W (f ()) mine after) : Turns W (unlink name >>= f) mine' after := by
  subst hmine
  intro rest hrest hnodup
  have herase : ({name} + mine + rest).erase name = mine + rest := by
    rw [add_assoc, Multiset.singleton_add, Multiset.erase_cons_head]
  refine ⟨⟨t, ?_, hguard⟩, htoken, ?_⟩
  · exact Multiset.mem_add.mpr (.inl (Multiset.mem_add.mpr (.inr ht)))
  · rw [herase]
    exact hnext rest hrest (herase ▸ hnodup.erase name)

/-- Removing a name that is gone: nobody else can have it, so nothing happens. -/
theorem unlinkGone {f : Unit → Prog R B} (htoken : ¬W.IsToken name)
    (hguard : W.guard name = some t) (ht : t ∈ mine) (hgone : name ∉ mine)
    (hnext : Turns W (f ()) mine after) : Turns W (Prog.unlink name >>= f) mine after := by
  intro rest hrest hnodup
  have hgone' : name ∉ mine + rest := fun hm =>
    (Multiset.mem_add.mp hm).elim hgone (hrest.notMem hnodup ht hguard)
  refine ⟨⟨t, Multiset.mem_add.mpr (.inl ht), hguard⟩, htoken, ?_⟩
  rw [Multiset.erase_of_notMem hgone']
  exact hnext rest hrest hnodup

theorem freeOption {f : Unit → Prog R B} {o : Option R} (htoken : ∀ r ∈ o, ¬W.IsToken r)
    (hmine : mine' = held o + mine) (hnext : Turns W (f ()) mine after) :
    Turns W (freeOption o >>= f) mine' after := by
  subst hmine
  cases o with
  | none =>
    rw [held_none, zero_add]
    exact hnext
  | some r => exact free (htoken r rfl) rfl hnext

theorem freeAll {f : Unit → Prog R B} {rs : List R} (htoken : ∀ r ∈ rs, ¬W.IsToken r)
    (hmine : mine' = (rs : Multiset R) + mine) (hnext : Turns W (f ()) mine after) :
    Turns W (freeAll rs >>= f) mine' after := by
  subst hmine
  induction rs with
  | nil =>
    rw [Multiset.coe_nil, zero_add]
    exact hnext
  | cons r rs ih =>
    have htail := ih fun q hq => htoken q (List.mem_cons_of_mem r hq)
    refine free (f := fun _ => Prog.freeAll rs >>= f) (htoken r List.mem_cons_self) ?_ htail
    rw [← Multiset.cons_coe, ← Multiset.singleton_add, add_assoc]

end Turns

end Prog

/-! ## Many programs at once -/

/-- The entry points of a library over handles, and what each handle records. -/
structure Api (R H E : Type) where
  run : E → Option H → Prog R (Option H)
  owns : H → Multiset R

/-- What an optional handle records. -/
def Api.owned {R H E : Type} (api : Api R H E) (h : Option H) : Multiset R :=
  h.elim 0 api.owns

/-- A handle at rest, or a call under way. -/
inductive Holder (R H : Type) where
  | rest (h : H)
  | call (p : Prog R (Option H))

/-- What the system has given out, the faults so far, and the holders. -/
structure State (R H : Type) where
  held : Multiset R
  faults : Nat
  holders : List (Holder R H)

/-- A call starts without a handle or on a handle, a call performs its next operation, or
a call returns. -/
inductive Act (E : Type) where
  | spawn (e : E)
  | enter (i : Nat) (e : E)
  | perform (i : Nat) (answer : Answer)
  | leave (i : Nat)
  deriving DecidableEq, Repr

section Machine

variable {R H E : Type} [DecidableEq R] (api : Api R H E)

def init : State R H := ⟨0, 0, []⟩

def step (s : State R H) : Act E → Option (State R H)
  | .spawn e => some { s with holders := s.holders ++ [.call (api.run e none)] }
  | .enter i e =>
    match s.holders[i]? with
    | some (.rest h) => some { s with holders := s.holders.set i (.call (api.run e (some h))) }
    | _ => none
  | .perform i answer =>
    match s.holders[i]? with
    | some (.call p) =>
      (p.perform s.held s.faults answer).map fun r =>
        ⟨r.1, r.2.1, s.holders.set i (.call r.2.2)⟩
    | _ => none
  | .leave i =>
    match s.holders[i]? with
    | some (.call (.done (some h))) => some { s with holders := s.holders.set i (.rest h) }
    | some (.call (.done none)) => some { s with holders := s.holders.eraseIdx i }
    | _ => none

/-- The library with its callers and the system. -/
def machine : Machine (State R H) (Act E) := ⟨step api⟩

variable (W : Realm R)

/-- Every entry point keeps custody, and a handle that records a name records its
token. -/
structure Api.Sound : Prop where
  closed : ∀ h, W.Closed (api.owns h)
  turns : ∀ e h, (api.run e h).Turns W (api.owned h) api.owned

/-- The holder has the resources `own`. -/
def Holder.Has (c : Holder R H) (own : Multiset R) : Prop :=
  W.Closed own ∧
    match c with
    | .rest h => own = api.owns h
    | .call p => p.Keeps W own fun h out =>
        ∃ spent, (∀ t ∈ spent, W.IsToken t) ∧ out = api.owned h + spent

/-- All that the holders have. -/
def total : List (Holder R H × Multiset R) → Multiset R
  | [] => 0
  | x :: xs => x.2 + total xs

/-- Nothing has gone wrong, and every resource given out belongs to one holder, but for
the tokens left behind. -/
def Inv (s : State R H) : Prop :=
  s.faults = 0 ∧ s.held.Nodup ∧
    ∃ (owners : List (Holder R H × Multiset R)) (spent : Multiset R),
      s.holders = owners.map Prod.fst ∧ (∀ x ∈ owners, x.1.Has api W x.2) ∧
        (∀ t ∈ spent, W.IsToken t) ∧ s.held = total owners + spent

variable {api W} {s t : State R H} {owners : List (Holder R H × Multiset R)}

omit [DecidableEq R] in
theorem total_append (xs ys : List (Holder R H × Multiset R)) :
    total (xs ++ ys) = total xs + total ys := by
  induction xs with
  | nil => exact (zero_add _).symm
  | cons x xs ih =>
    show x.2 + total (xs ++ ys) = x.2 + total xs + total ys
    rw [ih, add_assoc]

omit [DecidableEq R] in
/-- One holder against the others. -/
theorem total_split {i : Nat} {x : Holder R H × Multiset R} (h : owners[i]? = some x) :
    ∃ others, total owners = x.2 + others ∧ total (owners.eraseIdx i) = others ∧
      ∀ y, total (owners.set i y) = y.2 + others := by
  induction owners generalizing i with
  | nil => simp at h
  | cons z zs ih =>
    cases i with
    | zero =>
      cases h
      exact ⟨total zs, rfl, rfl, fun y => rfl⟩
    | succ i =>
      obtain ⟨others, htotal, herase, hset⟩ := ih (by simpa using h)
      refine ⟨z.2 + others, ?_, ?_, fun y => ?_⟩
      · show z.2 + total zs = x.2 + (z.2 + others)
        rw [htotal, add_left_comm]
      · show z.2 + total (zs.eraseIdx i) = z.2 + others
        rw [herase]
      · show z.2 + total (zs.set i y) = y.2 + (z.2 + others)
        rw [hset, add_left_comm]

theorem closed_total (h : ∀ x ∈ owners, x.1.Has api W x.2) : W.Closed (total owners) := by
  induction owners with
  | nil => exact .zero
  | cons x xs ih =>
    exact (h x List.mem_cons_self).1.add (ih fun y hy => h y (List.mem_cons_of_mem x hy))

theorem Inv.init : Inv api W (init : State R H) :=
  ⟨rfl, Multiset.nodup_zero, [], 0, rfl, fun x hx => (by cases hx),
    fun t ht => (Multiset.notMem_zero t ht).elim, rfl⟩

omit [DecidableEq R] in
/-- The resources of a holder. -/
theorem owner_of (hs : s.holders = owners.map Prod.fst) {i : Nat} {c : Holder R H}
    (hi : s.holders[i]? = some c) : ∃ own, owners[i]? = some (c, own) := by
  rw [hs, List.getElem?_map, Option.map_eq_some_iff] at hi
  obtain ⟨⟨d, own⟩, hx, rfl⟩ := hi
  exact ⟨own, hx⟩

/-- A call starts with nothing. -/
theorem Inv.spawn (hapi : api.Sound W) (e : E) (h : Inv api W s) :
    Inv api W { s with holders := s.holders ++ [.call (api.run e none)] } := by
  obtain ⟨hfaults, hnodup, owners, spent, hs, hhas, hspent, hheld⟩ := h
  refine ⟨hfaults, hnodup, owners ++ [(.call (api.run e none), 0)], spent, ?_, ?_, hspent, ?_⟩
  · show s.holders ++ [.call (api.run e none)] = _
    rw [hs, List.map_append, List.map_singleton]
  · intro x hx
    rcases List.mem_append.mp hx with hx | hx
    · exact hhas x hx
    · rw [List.mem_singleton.mp hx]
      refine ⟨.zero, ?_⟩
      have hk := hapi.turns e none 0 .zero (by simp [Api.owned])
      refine hk.mono ?_
      rintro h own ⟨-, more, hmore, rfl⟩
      exact ⟨more, hmore, add_zero _⟩
  · show s.held = _
    rw [total_append, hheld]
    simp [total]

/-- One holder is replaced. -/
theorem Inv.replace {held : Multiset R} {i : Nat} {c : Holder R H}
    {own spent others : Multiset R} (hnodup : held.Nodup) (hs : s.holders = owners.map Prod.fst)
    (hhas : ∀ x ∈ owners, x.1.Has api W x.2) (hspent : ∀ t ∈ spent, W.IsToken t)
    (hset : ∀ y : Holder R H × Multiset R, total (owners.set i y) = y.2 + others)
    (hc : c.Has api W own) (hheld : held = own + others + spent) :
    Inv api W ⟨held, 0, s.holders.set i c⟩ := by
  refine ⟨rfl, hnodup, owners.set i (c, own), spent, ?_, ?_, hspent, ?_⟩
  · show s.holders.set i c = _
    rw [hs, List.map_set]
  · intro x hx
    rcases List.mem_or_eq_of_mem_set hx with hx | rfl
    · exact hhas x hx
    · exact hc
  · rw [hset]
    exact hheld

/-- A call on a handle starts with what the handle records. -/
theorem Inv.enter (hapi : api.Sound W) {i : Nat} {x : H} (e : E) (h : Inv api W s)
    (hi : s.holders[i]? = some (.rest x)) :
    Inv api W { s with holders := s.holders.set i (.call (api.run e (some x))) } := by
  obtain ⟨hfaults, hnodup, owners, spent, hs, hhas, hspent, hheld⟩ := h
  obtain ⟨own, hown⟩ := owner_of hs hi
  obtain ⟨others, htotal, -, hset⟩ := total_split hown
  obtain ⟨hclosed, rfl⟩ := hhas _ (List.mem_of_getElem? hown)
  rw [htotal] at hheld
  have hcall : (Holder.call (api.run e (some x))).Has api W (api.owns x) := by
    refine ⟨hclosed, ?_⟩
    have hnodup' : (api.owned (some x) + 0).Nodup := by
      rw [hheld, add_assoc] at hnodup
      rw [add_zero]
      exact (Multiset.nodup_add.mp hnodup).1
    have hk := hapi.turns e (some x) 0 .zero hnodup'
    rw [add_zero] at hk
    refine hk.mono ?_
    rintro y out ⟨-, more, hmore, rfl⟩
    exact ⟨more, hmore, add_zero _⟩
  exact hfaults ▸ Inv.replace hnodup hs hhas hspent hset hcall hheld

/-- A call performs an operation on its own resources. -/
theorem Inv.perform {i : Nat} {answer : Answer} {p p' : Prog R (Option H)}
    {held : Multiset R} {faults : Nat} (h : Inv api W s)
    (hi : s.holders[i]? = some (.call p))
    (hp : p.perform s.held s.faults answer = some (held, faults, p')) :
    Inv api W ⟨held, faults, s.holders.set i (.call p')⟩ := by
  obtain ⟨hfaults, hnodup, owners, spent, hs, hhas, hspent, hheld⟩ := h
  obtain ⟨own, hown⟩ := owner_of hs hi
  obtain ⟨others, htotal, herase, hset⟩ := total_split hown
  obtain ⟨hclosed, hkeeps⟩ := hhas _ (List.mem_of_getElem? hown)
  rw [htotal, add_assoc] at hheld
  have hothers : W.Closed (others + spent) := by
    rw [← herase]
    exact (closed_total fun x hx => hhas x (List.mem_of_mem_eraseIdx hx)).add
      (.of_tokens hspent)
  obtain ⟨hsame, hnodup', own', hheld', hclosed', hkeeps'⟩ :=
    Prog.Keeps.perform hkeeps hheld hnodup hclosed hothers hp
  rw [hsame, hfaults]
  exact Inv.replace hnodup' hs hhas hspent hset ⟨hclosed', hkeeps'⟩
    (hheld'.trans (add_assoc _ _ _).symm)

/-- A call returns with a handle that records what the call has. -/
theorem Inv.leave (hapi : api.Sound W) {i : Nat} {x : H} (h : Inv api W s)
    (hi : s.holders[i]? = some (.call (.done (some x)))) :
    Inv api W { s with holders := s.holders.set i (.rest x) } := by
  obtain ⟨hfaults, hnodup, owners, spent, hs, hhas, hspent, hheld⟩ := h
  obtain ⟨own, hown⟩ := owner_of hs hi
  obtain ⟨others, htotal, -, hset⟩ := total_split hown
  obtain ⟨hclosed, more, hmore, hout⟩ := hhas _ (List.mem_of_getElem? hown)
  have hspent' : ∀ t ∈ more + spent, W.IsToken t :=
    fun t ht => (Multiset.mem_add.mp ht).elim (hmore t) (hspent t)
  have hheld' : s.held = api.owns x + others + (more + spent) := by
    show s.held = api.owned (some x) + others + (more + spent)
    have hown : own = api.owned (some x) + more := hout
    rw [hheld, htotal]
    show own + others + spent = _
    rw [hown, ← add_assoc, add_right_comm _ more]
  exact hfaults ▸ Inv.replace hnodup hs hhas hspent' hset ⟨hapi.closed x, rfl⟩ hheld'

/-- A call returns without a handle: it has nothing left but tokens. -/
theorem Inv.leaveEmpty {i : Nat} (h : Inv api W s)
    (hi : s.holders[i]? = some (.call (.done none))) :
    Inv api W { s with holders := s.holders.eraseIdx i } := by
  obtain ⟨hfaults, hnodup, owners, spent, hs, hhas, hspent, hheld⟩ := h
  obtain ⟨own, hown⟩ := owner_of hs hi
  obtain ⟨others, htotal, herase, -⟩ := total_split hown
  obtain ⟨hclosed, more, hmore, hout⟩ := hhas _ (List.mem_of_getElem? hown)
  refine ⟨hfaults, hnodup, owners.eraseIdx i, more + spent, ?_, ?_, ?_, ?_⟩
  · show s.holders.eraseIdx i = _
    rw [hs, List.eraseIdx_map]
  · exact fun x hx => hhas x (List.mem_of_mem_eraseIdx hx)
  · exact fun t ht => (Multiset.mem_add.mp ht).elim (hmore t) (hspent t)
  · show s.held = _
    have hown : own = 0 + more := hout
    rw [hheld, htotal, herase]
    show own + others + spent = _
    rw [hown, zero_add, add_comm more, add_assoc]

/-- The step lemma. -/
theorem Inv.step (hapi : api.Sound W) {a : Act E} (h : Inv api W s)
    (hstep : (machine api).step s a = some t) : Inv api W t := by
  cases a with
  | spawn e =>
    cases hstep
    exact h.spawn hapi e
  | enter i e =>
    simp only [machine, Custody.step] at hstep
    split at hstep
    · rename_i x hi
      cases hstep
      exact h.enter hapi e hi
    · cases hstep
  | perform i answer =>
    simp only [machine, Custody.step] at hstep
    split at hstep
    · rename_i p hi
      obtain ⟨⟨held, faults, p'⟩, hp, rfl⟩ := Option.map_eq_some_iff.mp hstep
      exact h.perform hi hp
    · cases hstep
  | leave i =>
    simp only [machine, Custody.step] at hstep
    split at hstep
    · rename_i x hi
      cases hstep
      exact h.leave hapi hi
    · rename_i hi
      cases hstep
      exact h.leaveEmpty hi
    · cases hstep

/-- The run lemma. -/
theorem Inv.reach (hapi : api.Sound W)
    (h : (machine api).Reach (fun _ _ => True) Custody.init s) : Inv api W s :=
  h.invariant .init fun _ _ _ hinv _ hstep => hinv.step hapi hstep

/-- What the handles at rest record. -/
def recorded (api : Api R H E) : List (Holder R H) → Multiset R
  | [] => 0
  | .rest h :: cs => api.owns h + recorded api cs
  | .call _ :: cs => recorded api cs

/-- What the handles at rest record is theirs, whatever the calls under way do. -/
theorem Inv.recorded_le (h : Inv api W s) : recorded api s.holders ≤ s.held := by
  obtain ⟨-, -, owners, spent, hs, hhas, -, hheld⟩ := h
  rw [hheld, hs]
  refine le_trans ?_ (Multiset.le_add_right _ _)
  clear hheld hs
  induction owners with
  | nil => exact le_refl _
  | cons x xs ih =>
    have htail := ih fun z hz => hhas z (List.mem_cons_of_mem x hz)
    have hx := (hhas x List.mem_cons_self).2
    obtain ⟨c, own⟩ := x
    cases c with
    | rest h =>
      have hown : own = api.owns h := hx
      show api.owns h + Custody.recorded api (xs.map Prod.fst) ≤ own + total xs
      rw [hown]
      exact add_le_add_right htail (api.owns h)
    | call p => exact htail.trans (Multiset.le_add_left _ _)

/-- Once all calls have returned, what is given out is what the handles record. -/
theorem Inv.recorded (h : Inv api W s) (hrest : ∀ c ∈ s.holders, ∃ x, c = .rest x) :
    ∃ spent, (∀ t ∈ spent, W.IsToken t) ∧ s.held = recorded api s.holders + spent := by
  obtain ⟨-, -, owners, spent, hs, hhas, hspent, hheld⟩ := h
  refine ⟨spent, hspent, ?_⟩
  rw [hheld, hs]
  rw [hs] at hrest
  congr 1
  clear hheld hs
  induction owners with
  | nil => rfl
  | cons x xs ih =>
    obtain ⟨y, hy⟩ := hrest x.1 List.mem_cons_self
    have hx := (hhas x List.mem_cons_self).2
    have hxs := ih (fun c hc => hrest c (List.mem_cons_of_mem _ hc))
      (fun z hz => hhas z (List.mem_cons_of_mem x hz))
    rw [hy] at hx
    show x.2 + total xs = Custody.recorded api (x.1 :: xs.map Prod.fst)
    rw [hy, hx, hxs]
    rfl

end Machine

end Custody
