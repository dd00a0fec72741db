import VgiDatafusion.Library.ExpiringCache
import VgiDatafusion.Library.StepSystem

/-!
# Split plans that are used again (runtime.rs:556-620, 821-838; lib.rs:1576-1735)

| here | there |
| --- | --- |
| `CacheablePlan` | `ScanPlan`, as far as the cache reads it |
| `PlanCache`, `planGet`, `planInsert`, `flushPlanCache` | `plan_cache` and `plan_cache_stats`, which are changed together, and the three functions |
| `PlanningPhase` | where a call of `plan_splits` stands; `planned` is a plan from the worker, `cached` one from the cache |
| `PlanCacheSystem.step` | a move of a call, a flush by the host, or time that passes |

The clock counts nanoseconds. A call reads it before it has the cache's mutex, other calls may be between the two, and a
plan that comes after a flush is stored all the same. Whatever the order, a plan that is found is the one that was stored last
for the key since the last flush, and fresh when the clock was read (`cached_plan_current`); as long as one is fresh no
worker is asked (`fresh_plan_used`).
-/
namespace VgiDatafusion

open StepSystem ExpiringCache

/-- `ScanPlan`, as far as `VgiRuntime::plan_insert` (`runtime.rs:576-597`) and `VgiTableProvider::plan_splits`
(`lib.rs:1576-1792`) read it. -/
structure CacheablePlan (B : Type) where
  scope : String
  cacheMaxAgeSeconds : Option Int
  body : B

/-- `PlanCacheStats` (`runtime.rs:829-838`), the counters that the functions below change. -/
structure PlanCacheStats where
  hits : Nat := 0
  misses : Nat := 0
  inserts : Nat := 0
  entries : Nat := 0
  deriving DecidableEq

variable {K B : Type} [DecidableEq K]

/-- The fields `plan_cache` and `plan_cache_stats` of `VgiRuntime` (`runtime.rs:247-268`). -/
structure PlanCache (K B : Type) where
  plans : Entries K (CacheablePlan B) := ∅
  stats : PlanCacheStats := {}

namespace PlanCache

/-- `VgiRuntime::plan_get` (`runtime.rs:556-574`): an expired entry is removed and counted as a miss. -/
def planGet (cache : PlanCache K B) (now : Nat) (key : K) : Option (CacheablePlan B) × PlanCache K B :=
  let found := get cache.plans now key
  let stats := cache.stats
  let stats := if found.1.isSome then { stats with hits := stats.hits + 1 } else { stats with misses := stats.misses + 1 }
  (found.1, { plans := found.2, stats := { stats with entries := found.2.entries.length } })

variable (catalogScope : String)

/-- What may be stored at all. -/
def keepsPlan (plan : CacheablePlan B) (maxAge : Nat) : Bool := maxAge ≠ 0 && plan.scope = catalogScope

/-- `VgiRuntime::plan_insert` (`runtime.rs:576-597`): a plan of another scope, or without an age, is not stored. -/
def planInsert (cache : PlanCache K B) (clock : Nat) (key : K) (plan : CacheablePlan B) (maxAge : Nat) : PlanCache K B :=
  if keepsPlan catalogScope plan maxAge then
    let plans := cache.plans.insert key { value := plan, storedAt := clock, maxAge }
    { plans, stats := { cache.stats with inserts := cache.stats.inserts + 1, entries := plans.entries.length } }
  else cache

/-- `VgiRuntime::flush_plan_cache` (`runtime.rs:605-611`): how many went. -/
def flushPlanCache (cache : PlanCache K B) : Nat × PlanCache K B :=
  (cache.plans.entries.length, { plans := ∅, stats := { cache.stats with entries := 0 } })

end PlanCache

/-- `Duration::from_secs`, where the seconds are a `u64`. -/
def planMaxAge (plan : CacheablePlan B) : Option Nat :=
  (plan.cacheMaxAgeSeconds.filter fun seconds => 0 ≤ seconds).map fun seconds => seconds.toNat * 1000000000

/-- Where a call of `plan_splits` stands (`lib.rs:1576-1735`). -/
inductive PlanningPhase (B : Type)
  | started
  | looking (now : Nat)
  | cached (plan : CacheablePlan B) (now : Nat)
  | planning
  | planned (plan : CacheablePlan B)
  | finished

/-- The key is `none` where secrets are read or a part of it is unknown. -/
structure Planning (K B : Type) where
  key : Option K
  phase : PlanningPhase B := .started

inductive PlanningAction (K B : Type)
  | tick (nanoseconds : Nat)
  | plan (key : Option K)
  | readClock (i : Nat)
  | look (i : Nat)
  /-- The worker's answer; `none` where it does not implement planning. -/
  | answer (i : Nat) (plan : Option (CacheablePlan B))
  | store (i : Nat)
  | flush

/-- The cache with the calls that use it, the clock, and what was stored and flushed so far. -/
structure PlanCacheSystem (K B : Type) where
  clock : Nat := 0
  cache : PlanCache K B := {}
  calls : List (Planning K B) := []
  /-- What the workers answered, to calls with a key. -/
  answers : List (K × CacheablePlan B) := []
  log : List (Event K (CacheablePlan B)) := []

namespace PlanCacheSystem

def moveTo (s : PlanCacheSystem K B) (i : Nat) (phase : PlanningPhase B) : PlanCacheSystem K B :=
  { s with calls := s.calls.modify i fun call => { call with phase } }

variable (catalogScope : String)

/-- `plan_insert`, and what the log says of it. -/
def insert (s : PlanCacheSystem K B) (key : K) (plan : CacheablePlan B) (maxAge : Nat) : PlanCacheSystem K B :=
  { s with
    cache := s.cache.planInsert catalogScope s.clock key plan maxAge
    log := if PlanCache.keepsPlan catalogScope plan maxAge then
      s.log ++ [.stored key { value := plan, storedAt := s.clock, maxAge }] else s.log }

/-- One step of one call of `plan_splits`, of the host or of the clock (`lib.rs:1576-1735`). -/
def step (s : PlanCacheSystem K B) : PlanningAction K B → Option (PlanCacheSystem K B)
  | .tick nanoseconds => some { s with clock := s.clock + nanoseconds }
  | .plan key => some { s with calls := s.calls ++ [{ key }] }
  | .readClock i =>
    match s.calls[i]? with
    | some ⟨some _, .started⟩ => some (s.moveTo i (.looking s.clock))
    | _ => none
  | .look i =>
    match s.calls[i]? with
    | some ⟨none, .started⟩ => some (s.moveTo i .planning)
    | some ⟨some key, .looking now⟩ =>
      match s.cache.planGet now key with
      | (some plan, cache) => some { s.moveTo i (.cached plan now) with cache }
      | (none, cache) => some { s.moveTo i .planning with cache }
    | _ => none
  | .answer i plan =>
    match s.calls[i]?, plan with
    | some ⟨some key, .planning⟩, some plan => some { s.moveTo i (.planned plan) with answers := s.answers ++ [(key, plan)] }
    | some ⟨none, .planning⟩, some plan => some (s.moveTo i (.planned plan))
    | some ⟨_, .planning⟩, none => some (s.moveTo i .finished)
    | _, _ => none
  | .store i =>
    match s.calls[i]? with
    | some ⟨some key, .planned plan⟩ =>
      match planMaxAge plan with
      | some maxAge => some ((s.moveTo i .finished).insert catalogScope key plan maxAge)
      | none => some (s.moveTo i .finished)
    | some ⟨none, .planned _⟩ => some (s.moveTo i .finished)
    | _ => none
  | .flush => some { s with cache := s.cache.flushPlanCache.2, log := s.log ++ [.cleared] }

attribute [local simp] step

/-- The `i`-th call. -/
def At (s : PlanCacheSystem K B) (i : Nat) (key : Option K) (phase : PlanningPhase B) : Prop := s.calls[i]? = some ⟨key, phase⟩

variable {s s' : PlanCacheSystem K B} {i j : Nat} {key key' : Option K} {k : K} {phase phase' old : PlanningPhase B}
  {plan : CacheablePlan B} {catalogScope : String} {a : PlanningAction K B}

omit [DecidableEq K] in
theorem at_moveTo (hi : s.At i key old) :
    (s.moveTo i phase).At j key' phase' ↔ if j = i then key' = key ∧ phase' = phase else s.At j key' phase' := by
  rw [At, At, moveTo, List.getElem?_modify]
  by_cases hj : j = i
  · rw [if_pos hj, hj, hi]
    simp [eq_comm]
  · rw [if_neg hj]
    cases s.calls[j]? with
    | none => simp
    | some call => simp [Ne.symm hj]

/-- What a call's phase says about the clock and the answers. -/
def Phased (s : PlanCacheSystem K B) (key : Option K) : PlanningPhase B → Prop
  | .looking now => key.isSome ∧ now ≤ s.clock
  | .planned plan => ∀ k, key = some k → (k, plan) ∈ s.answers
  | .started | .cached _ _ | .planning | .finished => True

/-- What is stored was an answer, and may be. -/
def Admitted (catalogScope : String) (s : PlanCacheSystem K B) (k : K) (e : Entry (CacheablePlan B)) : Prop :=
  (k, e.value) ∈ s.answers ∧ e.value.scope = catalogScope ∧ planMaxAge e.value = some e.maxAge ∧ e.storedAt ≤ s.clock

/-- The cache is what the log of stores and flushes leaves of it, and the calls hold what they read there. -/
structure Inv (catalogScope : String) (s : PlanCacheSystem K B) : Prop where
  tracks : Tracks s.clock s.log s.cache.plans
  phased : ∀ {i key phase}, s.At i key phase → s.Phased key phase
  admitted : ∀ {k e}, .stored k e ∈ s.log → Admitted catalogScope s k e

theorem inv_start (catalogScope : String) : Inv catalogScope ({} : PlanCacheSystem K B) where
  tracks := tracks_empty 0
  phased h := by simp [At] at h
  admitted h := by simp at h

omit [DecidableEq K] in
/-- The clock and the answers only grow. -/
structure Grows (s s' : PlanCacheSystem K B) : Prop where
  clock : s.clock ≤ s'.clock
  answers : s.answers ⊆ s'.answers

omit [DecidableEq K] in
theorem Phased.grows (h : s.Phased key phase) (hgrows : Grows s s') : s'.Phased key phase := by
  cases phase with
  | looking now => exact ⟨h.1, Nat.le_trans h.2 hgrows.clock⟩
  | planned plan => exact fun k hk => hgrows.answers (h k hk)
  | started => trivial
  | cached plan now => trivial
  | planning => trivial
  | finished => trivial

omit [DecidableEq K] in
theorem Admitted.grows {e : Entry (CacheablePlan B)} (h : Admitted catalogScope s k e) (hgrows : Grows s s') :
    Admitted catalogScope s' k e :=
  ⟨hgrows.answers h.1, h.2.1, h.2.2.1, Nat.le_trans h.2.2.2 hgrows.clock⟩

/-- One call moves, and the log stays. -/
theorem Inv.move (h : Inv catalogScope s) (hi : s.At i key old) (hcalls : s'.calls = (s.moveTo i phase).calls)
    (hgrows : Grows s s') (hlog : s'.log = s.log) (htracks : Tracks s'.clock s.log s'.cache.plans)
    (hphase : s'.Phased key phase) : Inv catalogScope s' where
  tracks := by rw [hlog]; exact htracks
  phased := by
    intro j key' phase' hj
    have hmoved : (s.moveTo i phase).At j key' phase' := by
      rw [At, ← hcalls]
      exact hj
    rw [at_moveTo hi] at hmoved
    split at hmoved
    next =>
      obtain ⟨rfl, rfl⟩ := hmoved
      exact hphase
    next => exact (h.phased hmoved).grows hgrows
  admitted := by
    intro k e he
    rw [hlog] at he
    exact (h.admitted he).grows hgrows

omit [DecidableEq K] in
theorem Grows.same (hclock : s'.clock = s.clock) (hanswers : s'.answers = s.answers) : Grows s s' :=
  ⟨Nat.le_of_eq hclock.symm, fun _ h => hanswers ▸ h⟩

theorem Inv.tick (h : Inv catalogScope s) (nanoseconds : Nat) : Inv catalogScope { s with clock := s.clock + nanoseconds } where
  tracks := h.tracks.later (Nat.le_add_right _ _)
  phased hi := Phased.grows (h.phased hi) ⟨Nat.le_add_right _ _, fun _ h => h⟩
  admitted he := Admitted.grows (h.admitted he) ⟨Nat.le_add_right _ _, fun _ h => h⟩

theorem Inv.call (h : Inv catalogScope s) (key : Option K) : Inv catalogScope { s with calls := s.calls ++ [{ key }] } where
  tracks := h.tracks
  phased := by
    intro j key' phase' hj
    rw [At, List.getElem?_append] at hj
    split at hj
    next => exact h.phased hj
    next =>
      obtain ⟨hlt, heq⟩ := List.getElem?_eq_some_iff.1 hj
      simp only [List.getElem_singleton, Planning.mk.injEq] at heq
      rw [← heq.2]
      trivial
  admitted := h.admitted

theorem Inv.flush (h : Inv catalogScope s) :
    Inv catalogScope { s with cache := s.cache.flushPlanCache.2, log := s.log ++ [.cleared] } where
  tracks := Tracks.cleared _ _
  phased hi := Phased.grows (h.phased hi) ⟨Nat.le_refl _, fun _ h => h⟩
  admitted := by
    intro k e he
    simp only [List.mem_append, List.mem_singleton, reduceCtorEq, or_false] at he
    exact h.admitted he

theorem Inv.insert (h : Inv catalogScope s) (hanswer : (k, plan) ∈ s.answers) {maxAge : Nat}
    (hage : planMaxAge plan = some maxAge) : Inv catalogScope (s.insert catalogScope k plan maxAge) := by
  rw [PlanCacheSystem.insert, PlanCache.planInsert]
  split
  next hkeeps =>
    have hgrows : Grows s { s with
        cache := { plans := s.cache.plans.insert k { value := plan, storedAt := s.clock, maxAge }
                   stats := { s.cache.stats with
                     inserts := s.cache.stats.inserts + 1
                     entries := (s.cache.plans.insert k { value := plan, storedAt := s.clock, maxAge }).entries.length } }
        log := s.log ++ [.stored k { value := plan, storedAt := s.clock, maxAge }] } :=
      ⟨Nat.le_refl _, fun _ h => h⟩
    refine ⟨h.tracks.stored k _, fun hi => Phased.grows (h.phased hi) hgrows, ?_⟩
    intro k' e he
    simp only [List.mem_append, List.mem_singleton, Event.stored.injEq] at he
    rcases he with he | ⟨rfl, rfl⟩
    · exact (h.admitted he).grows hgrows
    · simp only [PlanCache.keepsPlan, ne_eq, Bool.and_eq_true, decide_eq_true_eq] at hkeeps
      exact ⟨hanswer, hkeeps.2, hage, Nat.le_refl _⟩
  next => exact h

theorem Inv.look (h : Inv catalogScope s) (hstep : s.step catalogScope (.look i) = some s') : Inv catalogScope s' := by
  simp only [step] at hstep
  split at hstep
  next hi =>
    cases hstep
    exact h.move hi rfl (.same rfl rfl) rfl h.tracks trivial
  next k now hi =>
    obtain ⟨-, hnow⟩ := h.phased hi
    have htracks := h.tracks.get hnow k
    split at hstep
    next plan cache hget =>
      cases hstep
      have hplans : cache.plans = (get s.cache.plans now k).2 := congrArg (fun r => r.2.plans) hget.symm
      exact h.move hi rfl (.same rfl rfl) rfl (hplans ▸ htracks) trivial
    next cache hget =>
      cases hstep
      have hplans : cache.plans = (get s.cache.plans now k).2 := congrArg (fun r => r.2.plans) hget.symm
      exact h.move hi rfl (.same rfl rfl) rfl (hplans ▸ htracks) trivial
  next => cases hstep

theorem Inv.answer {answered : Option (CacheablePlan B)} (h : Inv catalogScope s)
    (hstep : s.step catalogScope (.answer i answered) = some s') : Inv catalogScope s' := by
  simp only [step] at hstep
  split at hstep
  next k plan hi =>
    cases hstep
    refine h.move hi rfl ⟨Nat.le_refl _, List.subset_append_left _ _⟩ rfl h.tracks ?_
    rintro k' ⟨⟩
    exact List.mem_append_right _ List.mem_cons_self
  next plan hi =>
    cases hstep
    refine h.move hi rfl (.same rfl rfl) rfl h.tracks ?_
    rintro k ⟨⟩
  next key hi =>
    cases hstep
    exact h.move hi rfl (.same rfl rfl) rfl h.tracks trivial
  next => cases hstep

theorem Inv.store (h : Inv catalogScope s) (hstep : s.step catalogScope (.store i) = some s') : Inv catalogScope s' := by
  simp only [step] at hstep
  split at hstep
  next k plan hi =>
    have hfinished : Inv catalogScope (s.moveTo i .finished) := h.move hi rfl (.same rfl rfl) rfl h.tracks trivial
    split at hstep
    next maxAge hage =>
      cases hstep
      exact hfinished.insert (h.phased hi k rfl) hage
    next =>
      cases hstep
      exact hfinished
  next plan hi =>
    cases hstep
    exact h.move hi rfl (.same rfl rfl) rfl h.tracks trivial
  next => cases hstep

theorem Inv.step (h : Inv catalogScope s) (hstep : s.step catalogScope a = some s') : Inv catalogScope s' := by
  cases a with
  | tick nanoseconds =>
    cases hstep
    exact h.tick nanoseconds
  | plan key =>
    cases hstep
    exact h.call key
  | readClock i =>
    simp only [PlanCacheSystem.step] at hstep
    split at hstep
    next key hi =>
      cases hstep
      exact h.move hi rfl (.same rfl rfl) rfl h.tracks ⟨rfl, Nat.le_refl _⟩
    next => cases hstep
  | look i => exact h.look hstep
  | answer i plan => exact h.answer hstep
  | store i => exact h.store hstep
  | flush =>
    cases hstep
    exact h.flush

theorem inv_run {actions : List (PlanningAction K B)} (hrun : actions.foldlM (step catalogScope) {} = some s) :
    Inv catalogScope s := by
  refine @StepSystem.run_invariant_of_partial _ _ _ _ _ (fun _ => Inv catalogScope) (inv_start catalogScope) ?_ _ hrun
  intro _ a s s' h hstep
  exact h.step hstep

/-! ## When a call is served -/

/-- What a step does to the calls: nothing, one more, one of them is moved but not served, or it looks and is served. -/
theorem calls_of_step (hstep : s.step catalogScope a = some s') :
    s'.calls = s.calls ∨ (∃ key, s'.calls = s.calls ++ [⟨key, .started⟩]) ∨
      (∃ j key old phase, s.At j key old ∧ (∀ plan now, phase ≠ .cached plan now) ∧ s'.calls = (s.moveTo j phase).calls) ∨
      ∃ j k plan now, a = .look j ∧ s.At j (some k) (.looking now) ∧ (s.cache.planGet now k).1 = some plan ∧
        s'.calls = (s.moveTo j (.cached plan now)).calls := by
  cases a with
  | tick nanoseconds =>
    cases hstep
    exact .inl rfl
  | plan key =>
    cases hstep
    exact .inr (.inl ⟨key, rfl⟩)
  | readClock j =>
    simp only [step] at hstep
    split at hstep
    next hj =>
      cases hstep
      exact .inr (.inr (.inl ⟨j, _, _, _, hj, by simp, rfl⟩))
    next => cases hstep
  | look j =>
    simp only [step] at hstep
    split at hstep
    next hj =>
      cases hstep
      exact .inr (.inr (.inl ⟨j, _, _, _, hj, by simp, rfl⟩))
    next k now hj =>
      split at hstep
      next plan cache hget =>
        cases hstep
        exact .inr (.inr (.inr ⟨j, k, plan, now, rfl, hj, congrArg Prod.fst hget, rfl⟩))
      next cache hget =>
        cases hstep
        exact .inr (.inr (.inl ⟨j, _, _, _, hj, by simp, rfl⟩))
    next => cases hstep
  | answer j answered =>
    simp only [step] at hstep
    split at hstep
    next hj =>
      cases hstep
      exact .inr (.inr (.inl ⟨j, _, _, _, hj, by simp, rfl⟩))
    next hj =>
      cases hstep
      exact .inr (.inr (.inl ⟨j, _, _, _, hj, by simp, rfl⟩))
    next hj =>
      cases hstep
      exact .inr (.inr (.inl ⟨j, _, _, _, hj, by simp, rfl⟩))
    next => cases hstep
  | store j =>
    simp only [step] at hstep
    split at hstep
    next hj =>
      split at hstep <;>
        · cases hstep
          exact .inr (.inr (.inl ⟨j, _, _, .finished, hj, by simp, rfl⟩))
    next hj =>
      cases hstep
      exact .inr (.inr (.inl ⟨j, _, _, _, hj, by simp, rfl⟩))
    next => cases hstep
  | flush =>
    cases hstep
    exact .inl rfl

/-- Only its own lookup serves a call. -/
theorem looked_of_cached {now : Nat} (hstep : s.step catalogScope a = some s') (hi : s'.At i key (.cached plan now))
    (hnew : ¬ s.At i key (.cached plan now)) : ∃ k, key = some k ∧ a = .look i ∧ s.At i (some k) (.looking now) ∧
      (s.cache.planGet now k).1 = some plan := by
  rw [At] at hi
  rcases calls_of_step hstep with hcalls | ⟨added, hcalls⟩ | ⟨j, key', old, phase, hj, hphase, hcalls⟩ |
    ⟨j, k, found, read, rfl, hj, hget, hcalls⟩
  · rw [hcalls] at hi
    exact absurd hi hnew
  · rw [hcalls, List.getElem?_append] at hi
    split at hi
    next => exact absurd hi hnew
    next => cases List.mem_singleton.1 (List.mem_of_getElem? hi)
  · rw [hcalls] at hi
    have hmoved := (at_moveTo hj).1 hi
    split at hmoved
    next => exact absurd hmoved.2.symm (hphase plan now)
    next => exact absurd hmoved hnew
  · rw [hcalls] at hi
    have hmoved := (at_moveTo hj).1 hi
    split at hmoved
    next hij =>
      obtain ⟨rfl, hphase⟩ := hmoved
      cases hphase
      exact ⟨k, rfl, by rw [hij], hij ▸ hj, hget⟩
    next => exact absurd hmoved hnew

variable (catalogScope)

/-- **A cached plan is the current one**: whatever the order of the calls, the stores and the flushes, a call that is served
looked the plan up at a moment of the run when it was the last that had been stored for its key since the last flush; it was a
worker's answer to a call with the same key, of the scope and with the age that the cache asks for, and fresh when the clock
was read. -/
theorem cached_plan_current (actions : List (PlanningAction K B)) (s : PlanCacheSystem K B)
    (hrun : actions.foldlM (step catalogScope) {} = some s) (i : Nat) (key : Option K) (plan : CacheablePlan B) (now : Nat)
    (hi : s.At i key (.cached plan now)) : ∃ k before after looked e, key = some k ∧ actions = before ++ .look i :: after ∧
      before.foldlM (step catalogScope) {} = some looked ∧ looked.At i (some k) (.looking now) ∧
      current looked.log k = some e ∧ e.value = plan ∧ now - e.storedAt < e.maxAge ∧ planMaxAge plan = some e.maxAge ∧
      plan.scope = catalogScope ∧ (k, plan) ∈ looked.answers := by
  obtain ⟨before, a, after, looked, next, rfl, hbefore, hstep, hnew, hserved⟩ :=
    run_first (P := fun s => s.At i key (.cached plan now)) (by simp [At]) hrun hi
  obtain ⟨k, rfl, rfl, hlooking, hget⟩ := looked_of_cached hstep hserved hnew
  have h := inv_run hbefore
  obtain ⟨e, hcurrent, rfl, hfresh⟩ := h.tracks.get_some hget
  obtain ⟨hanswer, hscope, hage, -⟩ := h.admitted (mem_of_current hcurrent)
  exact ⟨k, before, after, looked, e, rfl, rfl, hbefore, hlooking, hcurrent, rfl, by simpa [Entry.fresh] using hfresh, hage,
    hscope, hanswer⟩

/-! A plan that is on its way when the cache is flushed is stored, and serves the next call. -/

def orders : CacheablePlan Nat := { scope := "catalog", cacheMaxAgeSeconds := some 60, body := 4 }

def plannedTwice : List (PlanningAction String Nat) :=
  [.plan (some "orders"), .readClock 0, .look 0, .answer 0 (some orders), .flush, .store 0, .tick 1000000000,
    .plan (some "orders"), .readClock 1, .look 1]

def isCached : PlanningPhase B → Bool
  | .cached _ _ => true
  | _ => false

theorem cached_plan_current_flushed : ∃ s plan now, plannedTwice.foldlM (step "catalog") {} = some s ∧
    s.At 1 (some "orders") (.cached plan now) ∧ ∃ k before after looked e, some "orders" = some k ∧
      plannedTwice = before ++ .look 1 :: after ∧ before.foldlM (step "catalog") {} = some looked ∧
      looked.At 1 (some k) (.looking now) ∧ current looked.log k = some e ∧ e.value = plan ∧ now - e.storedAt < e.maxAge ∧
      planMaxAge plan = some e.maxAge ∧ plan.scope = "catalog" ∧ (k, plan) ∈ looked.answers := by
  have hcheck : (plannedTwice.foldlM (step "catalog") {}).any (fun s =>
      (s.calls[1]?).any fun call => call.key = some "orders" && isCached call.phase) = true := by decide +kernel
  obtain ⟨s, hrun, hcall⟩ := (Option.any_eq_true _ _).1 hcheck
  obtain ⟨⟨key, phase⟩, hi, hcached⟩ := (Option.any_eq_true _ _).1 hcall
  simp only [Bool.and_eq_true, decide_eq_true_eq] at hcached
  obtain ⟨rfl, hphase⟩ := hcached
  cases phase with
  | cached plan now => exact ⟨s, plan, now, hrun, hi, cached_plan_current "catalog" plannedTwice s hrun 1 _ plan now hi⟩
  | started => cases hphase
  | looking now => cases hphase
  | planning => cases hphase
  | planned plan => cases hphase
  | finished => cases hphase

/-- **No worker is asked for a plan that is fresh**: a lookup finds what is current unless its age has run out by then. -/
theorem fresh_plan_used (actions : List (PlanningAction K B)) (s : PlanCacheSystem K B)
    (hrun : actions.foldlM (step catalogScope) {} = some s) (i : Nat) (k : K) (now : Nat) (e : Entry (CacheablePlan B))
    (hi : s.At i (some k) (.looking now)) (hcurrent : current s.log k = some e) (hfresh : s.clock - e.storedAt < e.maxAge) :
    ∃ s', s.step catalogScope (.look i) = some s' ∧ s'.At i (some k) (.cached e.value now) := by
  have h := inv_run hrun
  obtain ⟨-, hnow⟩ := h.phased hi
  have hget : (s.cache.planGet now k).1 = some e.value :=
    h.tracks.get_fresh hnow hcurrent (decide_eq_true hfresh)
  have hcall : s.calls[i]? = some ⟨some k, .looking now⟩ := hi
  have hpair : s.cache.planGet now k = (some e.value, (s.cache.planGet now k).2) := Prod.ext hget rfl
  refine ⟨{ s.moveTo i (.cached e.value now) with cache := (s.cache.planGet now k).2 }, ?_, ?_⟩
  · simp only [step, hcall]
    rw [hpair]
  · exact (at_moveTo hi).2 (by rw [if_pos rfl]; exact ⟨rfl, rfl⟩)

def isLooking : PlanningPhase B → Bool
  | .looking _ => true
  | _ => false

/-- The second call, about to look. -/
theorem fresh_plan_used_second : ∃ s s' now e, (plannedTwice.take 9).foldlM (step "catalog") {} = some s ∧
    current s.log "orders" = some e ∧ s.step "catalog" (.look 1) = some s' ∧
    s'.At 1 (some "orders") (.cached e.value now) := by
  have hcheck : ((plannedTwice.take 9).foldlM (step "catalog") {}).any (fun s =>
      ((s.calls[1]?).any fun call => call.key = some "orders" && isLooking call.phase) &&
      (current s.log "orders").any fun e => s.clock - e.storedAt < e.maxAge) = true := by decide +kernel
  obtain ⟨s, hrun, hboth⟩ := (Option.any_eq_true _ _).1 hcheck
  obtain ⟨hcall, hentry⟩ := Bool.and_eq_true_iff.1 hboth
  obtain ⟨⟨key, phase⟩, hi, hlooking⟩ := (Option.any_eq_true _ _).1 hcall
  obtain ⟨e, hcurrent, hfresh⟩ := (Option.any_eq_true _ _).1 hentry
  simp only [Bool.and_eq_true, decide_eq_true_eq] at hlooking
  obtain ⟨rfl, hphase⟩ := hlooking
  cases phase with
  | looking now =>
    obtain ⟨s', hstep, hnext⟩ :=
      fresh_plan_used "catalog" (plannedTwice.take 9) s hrun 1 "orders" now e hi hcurrent (of_decide_eq_true hfresh)
    exact ⟨s, s', now, e, hrun, hcurrent, hstep, hnext⟩
  | started => cases hphase
  | cached plan now => cases hphase
  | planning => cases hphase
  | planned plan => cases hphase
  | finished => cases hphase

end PlanCacheSystem

end VgiDatafusion
