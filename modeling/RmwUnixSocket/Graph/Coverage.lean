import RmwUnixSocket.Graph.Cache

/-!
# What a cached value covers

Whichever comparison a cache makes, a caller that has loaded the generation
`g` ends up with a value that was made from an answer to a query of `g` or of
a later generation.  `Covers` says what such an answer owes to `g`.
-/

namespace RmwUnixSocket.Graph

variable {P T V : Type}

/-! ## The invariant -/

/-- What is known about a thread that uses a cache. -/
def PcOk (c : GenerationCache V) (d : Directory P) (cache : Cache T V)
    (t : T) : CachePc V → Prop
  | .idle => True
  | .loaded g => g ≤ d.generation
  | .compare g => g ≤ d.generation ∧ cache.mutex = some t
  | .query g scan => g ≤ d.generation ∧ cache.mutex = some t ∧
      c.stale g cache.cachedGeneration = true ∧ ScanOk d c.filter g scan
  | .use g v => ∃ ids, v = c.digest (d.answers ids) ∧ g ≤ d.generation ∧
      Covers d c.filter g d.capacity ids

/-- What is known about a cache. -/
structure CacheOk (c : GenerationCache V) (d : Directory P)
    (cache : Cache T V) : Prop where
  past : cache.cachedGeneration ≤ d.generation
  value : cache.cached = c.digest (d.answers cache.source)
  covers : Covers d c.filter cache.cachedGeneration d.capacity cache.source

section

variable {c : GenerationCache V} {d d' : Directory P} {cache cache' : Cache T V}
  {t : T} {pc pc' : CachePc V}

theorem CacheOk.fresh (c : GenerationCache V) (capacity : Nat) :
    CacheOk c (Directory.initialized P capacity) (Cache.fresh c T) where
  past := Nat.le_refl 0
  value := rfl
  covers := .initialized capacity c.filter capacity

theorem PcOk.later (h : PcOk c d cache t pc) (hlater : d.Later d') :
    PcOk c d' cache t pc := by
  have hgen := hlater.generation
  cases pc with
  | idle => trivial
  | loaded g => exact Nat.le_trans h hgen
  | compare g => exact ⟨Nat.le_trans h.1 hgen, h.2⟩
  | query g scan =>
    obtain ⟨hg, hmutex, hstale, hscan⟩ := h
    exact ⟨Nat.le_trans hg hgen, hmutex, hstale, hscan.later hlater hg⟩
  | use g v =>
    obtain ⟨ids, hv, hg, hcovers⟩ := h
    refine ⟨ids, ?_, Nat.le_trans hg hgen, ?_⟩
    · rw [hv, hcovers.answers_later hlater]
    · rw [hlater.capacity]
      exact hcovers.later hlater hg

theorem CacheOk.later (h : CacheOk c d cache) (hlater : d.Later d') :
    CacheOk c d' cache where
  past := Nat.le_trans h.past hlater.generation
  value := by
    rw [h.covers.answers_later hlater]
    exact h.value
  covers := by
    rw [hlater.capacity]
    exact h.covers.later hlater h.past

/-- What a thread knows does not depend on a step of another thread, as long
as that one does not take the mutex away. -/
theorem PcOk.other (h : PcOk c d cache t pc)
    (hmutex : cache.mutex = some t → cache' = cache) :
    PcOk c d cache' t pc := by
  cases pc with
  | idle => trivial
  | loaded g => exact h
  | compare g =>
    rw [hmutex h.2]
    exact h
  | query g scan =>
    rw [hmutex h.2.1]
    exact h
  | use g v => exact h

/-- A thread changes the cache only when it has the mutex or nobody has. -/
theorem cacheStep_mutex (hpc : PcOk c d cache t pc)
    (hstep : cacheStep c d cache t pc = some (cache', pc')) :
    cache' = cache ∨ cache.mutex = none ∨ cache.mutex = some t := by
  cases pc with
  | idle =>
    cases hstep
    exact .inl rfl
  | loaded g =>
    simp only [cacheStep, Option.ite_none_right_eq_some,
      Option.isNone_iff_eq_none] at hstep
    exact .inr (.inl hstep.1)
  | compare g => exact .inr (.inr hpc.2)
  | query g scan => exact .inr (.inr hpc.2.1)
  | use g v =>
    cases hstep
    exact .inl rfl

/-- What the other threads know outlives a step. -/
theorem PcOk.cacheStep_other {t' : T} {other : CachePc V}
    (hpc : PcOk c d cache t pc)
    (hstep : cacheStep c d cache t pc = some (cache', pc')) (hne : t' ≠ t)
    (h : PcOk c d cache t' other) : PcOk c d cache' t' other := by
  apply h.other
  intro hheld
  rcases cacheStep_mutex hpc hstep with hsame | hnone | hmine
  · exact hsame
  · rw [hheld] at hnone
    cases hnone
  · rw [hheld] at hmine
    exact absurd (Option.some.inj hmine) hne

/-- Every step keeps what is known, if a cache that is not stale was filled
for the generation of the caller or for a later one. -/
theorem CacheOk.cacheStep
    (hstale : ∀ current cached, c.stale current cached = false →
      current ≤ cached) (hdir : DirectoryOk d) (h : CacheOk c d cache)
    (hpc : PcOk c d cache t pc)
    (hstep : cacheStep c d cache t pc = some (cache', pc')) :
    CacheOk c d cache' ∧ PcOk c d cache' t pc' := by
  cases pc with
  | idle =>
    cases hstep
    exact ⟨h, Nat.le_refl _⟩
  | loaded g =>
    simp only [Graph.cacheStep, Option.ite_none_right_eq_some,
      Option.some.injEq, Prod.mk.injEq] at hstep
    obtain ⟨-, rfl, rfl⟩ := hstep
    exact ⟨⟨h.past, h.value, h.covers⟩, hpc, rfl⟩
  | compare g =>
    obtain ⟨hg, hheld⟩ := hpc
    cases hcmp : c.stale g cache.cachedGeneration with
    | true =>
      simp only [Graph.cacheStep, hcmp, if_true, Option.some.injEq,
        Prod.mk.injEq] at hstep
      obtain ⟨rfl, rfl⟩ := hstep
      exact ⟨h, hg, hheld, hcmp, .start hdir c.filter g⟩
    | false =>
      simp only [Graph.cacheStep, hcmp, Bool.false_eq_true, if_false,
        Option.some.injEq, Prod.mk.injEq] at hstep
      obtain ⟨rfl, rfl⟩ := hstep
      have hle := hstale g cache.cachedGeneration hcmp
      exact ⟨⟨h.past, h.value, h.covers⟩, cache.source, h.value, hg,
        h.covers.older hle⟩
  | query g scan =>
    obtain ⟨hg, hheld, hcmp, hscan⟩ := hpc
    cases scan with
    | done ids =>
      cases hstep
      exact ⟨⟨hg, rfl, hscan⟩, ids, rfl, hg, hscan⟩
    | peek max i ids =>
      cases hstep
      exact ⟨h, hg, hheld, hcmp, hscan.step hdir⟩
    | snap max i ids =>
      cases hstep
      exact ⟨h, hg, hheld, hcmp, hscan.step hdir⟩
  | use g v =>
    cases hstep
    exact ⟨h, trivial⟩

end

/-- The invariant of the machine. -/
structure StateOk (c : GenerationCache V) (s : State P T V) : Prop where
  dir : DirectoryOk s.dir
  cache : CacheOk c s.dir s.cache
  threads : ∀ t, PcOk c s.dir s.cache t (s.threads t)

section

variable [DecidableEq T] {c : GenerationCache V} {s s' : State P T V}

/-- Every step keeps the invariant. -/
theorem StateOk.step
    (hstale : ∀ current cached, c.stale current cached = false →
      current ≤ cached) {a : Act P T} (h : StateOk c s)
    (hstep : (machine c).step s a = some s') : StateOk c s' := by
  cases a with
  | mutate a =>
    obtain ⟨d, hd, rfl⟩ := Option.map_eq_some_iff.mp hstep
    have hmutated := mutated_of_mutate hd
    exact ⟨h.dir.mutated hmutated, h.cache.later hmutated.later,
      fun t => (h.threads t).later hmutated.later⟩
  | run t =>
    obtain ⟨⟨cache', pc'⟩, hrun, rfl⟩ := Option.map_eq_some_iff.mp hstep
    obtain ⟨hcache, hpc⟩ :=
      h.cache.cacheStep hstale h.dir (h.threads t) hrun
    refine ⟨h.dir, hcache, fun t' => ?_⟩
    show PcOk c s.dir cache' t' (Function.update s.threads t pc' t')
    by_cases ht : t' = t
    · subst ht
      rw [Function.update_self]
      exact hpc
    · rw [Function.update_of_ne ht]
      exact (h.threads t).cacheStep_other hrun ht (h.threads t')

theorem StateOk.reach
    (hstale : ∀ current cached, c.stale current cached = false →
      current ≤ cached) {capacity : Nat}
    (h : (machine c).Reach (fun _ _ => True) (State.init c P T capacity) s) :
    StateOk c s :=
  h.invariant ⟨.initialized capacity, .fresh c capacity, fun _ => trivial⟩
    fun _ _ _ hok _ hstep => hok.step hstale hstep

end

/-! ## The caches -/

/-- A value that a thread uses was made from registrations that cover the
generation that the thread has loaded. -/
def Sound (P T : Type) [DecidableEq T] (c : GenerationCache V) : Prop :=
  ∀ (capacity : Nat) (s : State P T V),
    (machine c).Reach (fun _ _ => True) (State.init c P T capacity) s →
    ∀ (t : T) (g : Nat) (v : V), s.threads t = .use g v →
      ∃ ids : List Nat, v = c.digest (s.dir.answers ids) ∧
        (∀ id ∈ ids, ∃ r, s.dir.regs[id]? = some r ∧
          c.filter.Matches r.entry) ∧
        (∀ (id : Nat) (r : Registration P) (b : Nat),
          s.dir.regs[id]? = some r → c.filter.Matches r.entry →
          r.added = some b → b ≤ g → r.leaving = false → id ∈ ids) ∧
        (∀ (id : Nat) (r : Registration P) (b : Nat),
          s.dir.regs[id]? = some r → r.removed = some b → b ≤ g → id ∉ ids)

theorem sound_of_stale [DecidableEq T] {c : GenerationCache V}
    (hstale : ∀ current cached, c.stale current cached = false →
      current ≤ cached) : Sound P T c := by
  intro capacity s hreach t g v huse
  have hok := StateOk.reach hstale hreach
  have ht := hok.threads t
  rw [huse] at ht
  obtain ⟨ids, hv, -, hcovers⟩ := ht
  refine ⟨ids, hv, hcovers.known, ?_, hcovers.excludes⟩
  intro id r b hr hmatch hadded hb hleaving
  exact hcovers.includes id r b hr (hok.dir.inside id r hr) hmatch hadded hb
    hleaving

theorem refreshSubPaths_stale {topicName : List UInt8} {current cached : Nat}
    (h : (refreshSubPaths topicName).stale current cached = false) :
    current ≤ cached := by
  simpa [refreshSubPaths] using h

theorem sendRequest_stale {serviceName : List UInt8} {current cached : Nat}
    (h : (sendRequest serviceName).stale current cached = false) :
    current ≤ cached := by
  have heq : current = cached := by simpa [sendRequest] using h
  exact Nat.le_of_eq heq

theorem sendResponse_stale {serviceName : List UInt8} {current cached : Nat}
    (h : (sendResponse serviceName).stale current cached = false) :
    current ≤ cached := by
  have heq : current = cached := by simpa [sendResponse] using h
  exact Nat.le_of_eq heq

/-- Only a query for a newer generation moves the generation of a publisher's
cache. -/
theorem cachedGeneration_le_step [DecidableEq T] {topicName : List UInt8}
    {s s' : State P T (List (List UInt8))} {a : Act P T}
    (hok : StateOk (refreshSubPaths topicName) s)
    (hstep : (machine (refreshSubPaths topicName)).step s a = some s') :
    s.cache.cachedGeneration ≤ s'.cache.cachedGeneration := by
  cases a with
  | mutate a =>
    obtain ⟨d, -, rfl⟩ := Option.map_eq_some_iff.mp hstep
    exact Nat.le_refl _
  | run t =>
    obtain ⟨⟨cache', pc'⟩, hrun, rfl⟩ := Option.map_eq_some_iff.mp hstep
    have ht := hok.threads t
    show s.cache.cachedGeneration ≤ cache'.cachedGeneration
    unfold cacheStep at hrun
    split at hrun
    · cases hrun
      exact Nat.le_refl _
    · split at hrun
      · cases hrun
        exact Nat.le_refl _
      · cases hrun
    · split at hrun
      · cases hrun
        exact Nat.le_refl _
      · cases hrun
        exact Nat.le_refl _
    · next g ids hpc =>
      rw [hpc] at ht
      cases hrun
      have hlt : s.cache.cachedGeneration < g := by
        simpa [refreshSubPaths] using ht.2.2.1
      exact Nat.le_of_lt hlt
    · cases hrun
      exact Nat.le_refl _
    · cases hrun
      exact Nat.le_refl _

end RmwUnixSocket.Graph
