import Mathlib.Logic.Function.Basic

/-!
# Keys with one user

A family of users, each of which has at most one key.  `Exclusive` says that
no key that matters has two users.  The three rules cover what a step can do:
users give keys up (`Exclusive.mono`), one user hands its key to another
(`Exclusive.hand`), or a user takes a key that nobody has (`Exclusive.insert`,
`Exclusive.update`).

`Linear` says more: the keys that the users have are the live ones, so every live key
has exactly one user.  A key comes into being with its user (`Linear.create`), moves
from one user to another (`Linear.hand`), and goes with its user (`Linear.drop`).
-/

/-- No key that matters has two users. -/
def Exclusive {ι κ : Type} (matters : κ → Prop) (uses : ι → Option κ) : Prop :=
  ∀ u v k, matters k → uses u = some k → uses v = some k → u = v

namespace Exclusive

variable {ι κ : Type} {matters : κ → Prop} {uses uses' : ι → Option κ}

/-- Giving keys up keeps the keys exclusive. -/
theorem mono (h : Exclusive matters uses)
    (hsub : ∀ u k, uses' u = some k → uses u = some k) :
    Exclusive matters uses' :=
  fun u v k hk hu hv => h u v k hk (hsub u k hu) (hsub v k hv)

/-- User `a` hands its key to user `b`. -/
theorem hand (h : Exclusive matters uses) (a b : ι) (hempty : uses' a = none)
    (htake : ∀ k, uses' b = some k → uses a = some k)
    (hsub : ∀ u, u ≠ b → ∀ k, uses' u = some k → uses u = some k) :
    Exclusive matters uses' := by
  have hcross : ∀ u k, matters k → u ≠ b → uses' u = some k →
      uses' b = some k → False := by
    intro u k hk hub hu hb
    have hua : u = a := h u a k hk (hsub u hub k hu) (htake k hb)
    rw [hua, hempty] at hu
    cases hu
  intro u v k hk hu hv
  by_cases hub : u = b <;> by_cases hvb : v = b
  · rw [hub, hvb]
  · exact (hcross v k hk hvb hv (hub ▸ hu)).elim
  · exact (hcross u k hk hub hu (hvb ▸ hv)).elim
  · exact h u v k hk (hsub u hub k hu) (hsub v hvb k hv)

/-- User `a` takes a key that nobody else has. -/
theorem insert (h : Exclusive matters uses) (a : ι)
    (hfresh : ∀ k, matters k → uses' a = some k → ∀ u, u ≠ a → uses u ≠ some k)
    (hsub : ∀ u, u ≠ a → ∀ k, uses' u = some k → uses u = some k) :
    Exclusive matters uses' := by
  intro u v k hk hu hv
  by_cases hua : u = a <;> by_cases hva : v = a
  · rw [hua, hva]
  · exact (hfresh k hk (hua ▸ hu) v hva (hsub v hva k hv)).elim
  · exact (hfresh k hk (hva ▸ hv) u hua (hsub u hua k hu)).elim
  · exact h u v k hk (hsub u hua k hu) (hsub v hva k hv)

/-- User `a` has another key now, one that nobody else has, or none. -/
theorem update [DecidableEq ι] (h : Exclusive matters uses) (a : ι) (k : Option κ)
    (hfresh : ∀ j, k = some j → ∀ u, u ≠ a → uses u ≠ some j) :
    Exclusive matters (Function.update uses a k) := by
  refine h.insert a (fun j _ hj => hfresh j ?_) fun u hu j hj => ?_
  · rwa [Function.update_self] at hj
  · rwa [Function.update_of_ne hu] at hj

end Exclusive

/-- The live keys are those that have a user, and none has two. -/
structure Linear {ι κ : Type} (live : κ → Prop) (uses : ι → Option κ) : Prop where
  exclusive : Exclusive live uses
  alive : ∀ u k, uses u = some k → live k
  used : ∀ k, live k → ∃ u, uses u = some k

namespace Linear

variable {ι κ : Type} {live live' : κ → Prop} {uses uses' : ι → Option κ}

theorem unique (h : Linear live uses) {u v : ι} {k : κ} (hu : uses u = some k)
    (hv : uses v = some k) : u = v :=
  h.exclusive u v k (h.alive u k hu) hu hv

theorem congr (h : Linear live uses) (hlive : ∀ k, live' k ↔ live k)
    (huses : ∀ u, uses' u = uses u) : Linear live' uses' := by
  have hsame : uses' = uses := funext huses
  have hsame' : live' = live := funext fun k => propext (hlive k)
  rw [hsame, hsame']
  exact h

/-- User `a` comes with a new key. -/
theorem create (h : Linear live uses) (a : ι) {k : κ} (hempty : uses a = none)
    (htake : uses' a = some k) (hdead : ¬live k) (hlive : ∀ j, live' j ↔ live j ∨ j = k)
    (hsame : ∀ u, u ≠ a → uses' u = uses u) : Linear live' uses' := by
  have hold : ∀ u j, u ≠ a → uses' u = some j → uses u = some j := fun u j hu hj =>
    (hsame u hu).symm.trans hj
  refine ⟨fun u v j _ hu hv => ?_, fun u j hu => ?_, fun j hj => ?_⟩
  · by_cases hua : u = a <;> by_cases hva : v = a
    · rw [hua, hva]
    · rw [hua, htake] at hu
      cases hu
      exact (hdead (h.alive v k (hold v k hva hv))).elim
    · rw [hva, htake] at hv
      cases hv
      exact (hdead (h.alive u k (hold u k hua hu))).elim
    · exact h.unique (hold u j hua hu) (hold v j hva hv)
  · by_cases hua : u = a
    · rw [hua, htake] at hu
      cases hu
      exact (hlive k).mpr (.inr rfl)
    · exact (hlive j).mpr (.inl (h.alive u j (hold u j hua hu)))
  · obtain hj | rfl := (hlive j).mp hj
    · obtain ⟨u, hu⟩ := h.used j hj
      refine ⟨u, (hsame u fun hua => ?_).trans hu⟩
      rw [hua, hempty] at hu
      cases hu
    · exact ⟨a, htake⟩

/-- User `a` hands what it has to user `b`, who has nothing. -/
theorem hand (h : Linear live uses) (a b : ι) (hempty : uses b = none)
    (hgive : uses' a = none) (htake : uses' b = uses a)
    (hsame : ∀ u, u ≠ a → u ≠ b → uses' u = uses u) : Linear live uses' := by
  have hold : ∀ u j, u ≠ b → uses' u = some j → uses u = some j := by
    intro u j hub hj
    by_cases hua : u = a
    · rw [hua, hgive] at hj
      cases hj
    · exact (hsame u hua hub).symm.trans hj
  refine ⟨?_, fun u j hu => ?_, fun j hj => ?_⟩
  · exact h.exclusive.hand a b hgive (fun j hj => htake.symm.trans hj)
      fun u hub j => hold u j hub
  · by_cases hub : u = b
    · rw [hub, htake] at hu
      exact h.alive a j hu
    · exact h.alive u j (hold u j hub hu)
  · obtain ⟨u, hu⟩ := h.used j hj
    by_cases hua : u = a
    · exact ⟨b, by rw [htake, ← hua, hu]⟩
    · refine ⟨u, (hsame u hua fun hub => ?_).trans hu⟩
      rw [hub, hempty] at hu
      cases hu

/-- User `b` hands what it has to `c`, who has nothing, and gets what `a` has. -/
theorem rotate (h : Linear live uses) (a b c : ι) (hab : a ≠ b)
    (hac : a ≠ c) (hbc : b ≠ c) (hempty : uses c = none) (ha : uses' a = none)
    (hb : uses' b = uses a) (hc : uses' c = uses b)
    (hsame : ∀ u, u ≠ a → u ≠ b → u ≠ c → uses' u = uses u) : Linear live uses' := by
  classical
  let between : ι → Option κ := fun u =>
    if u = b then none else if u = c then uses b else uses u
  have hfirst : Linear live between := by
    refine h.hand b c hempty (if_pos rfl) ?_ fun u hub huc => ?_
    · exact (if_neg hbc.symm).trans (if_pos rfl)
    · exact (if_neg hub).trans (if_neg huc)
  have hfrom : between a = uses a := (if_neg hab).trans (if_neg hac)
  refine hfirst.hand a b (if_pos rfl) ha (hb.trans hfrom.symm) fun u hua hub => ?_
  by_cases huc : u = c
  · rw [huc, hc]
    exact ((if_neg hbc.symm).trans (if_pos rfl)).symm
  · rw [hsame u hua hub huc]
    exact ((if_neg hub).trans (if_neg huc)).symm

/-- User `a` goes with its key. -/
theorem drop (h : Linear live uses) (a : ι) (hgive : uses' a = none)
    (hlive : ∀ j, live' j ↔ live j ∧ uses a ≠ some j)
    (hsame : ∀ u, u ≠ a → uses' u = uses u) : Linear live' uses' := by
  have hold : ∀ u j, uses' u = some j → u ≠ a ∧ uses u = some j := by
    intro u j hj
    by_cases hua : u = a
    · rw [hua, hgive] at hj
      cases hj
    · exact ⟨hua, (hsame u hua).symm.trans hj⟩
  refine ⟨fun u v j _ hu hv => h.unique (hold u j hu).2 (hold v j hv).2,
    fun u j hu => ?_, fun j hj => ?_⟩
  · obtain ⟨hua, hu'⟩ := hold u j hu
    exact (hlive j).mpr ⟨h.alive u j hu', fun ha => hua (h.unique hu' ha)⟩
  · obtain ⟨hj', ha⟩ := (hlive j).mp hj
    obtain ⟨u, hu⟩ := h.used j hj'
    refine ⟨u, (hsame u fun hua => ha ?_).trans hu⟩
    rw [← hua, hu]

end Linear
