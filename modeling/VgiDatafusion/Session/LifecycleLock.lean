import Mathlib.Data.List.Basic
import VgiDatafusion.Library.StepSystem
import VgiDatafusion.Library.WeakRegistry

/-!
# ATTACH and DETACH of a session, one at a time (session.rs:705-724, 2209-2211, 3213-3215)

| here | there |
| --- | --- |
| `Lifecycle.registry` | `lifecycle_lock_registry`: session ids, with weak references to their locks |
| `LifecycleTask` | a call of `attach` or of `detach` |
| `search`, `sweep`, `find`, `create` | `session_lifecycle_lock`: its mutex, `retain`, `get` and `upgrade`, `insert` |
| `lock`, `unlock`, `drop` | `lifecycle.lock().await`, and the end of `_guard` and of `lifecycle`, which also comes to a call that is cancelled |
| `work` | what a call does to the registries of its session between two of these |
| `Lifecycle.queue`, `handOver` | the waiters of a lock, which is handed to the first of them when it is released |

A lock belongs to whoever waits for it or has it; the registry only has weak references, which die while it is searched. All
the same a session has one lock: the calls of a session take effect one after the other, in the order in which they got it
(`lifecycle_serial`), a call waits for no other session, and none is overtaken (`lifecycle_waits_own`).
-/
namespace VgiDatafusion

open StepSystem WeakRegistry

variable {K σ : Type}

/-- Where a call of `attach` or of `detach` stands (`session.rs:712-722`, `2210-2211`). -/
inductive LifecyclePhase
  | called
  /-- It has the mutex of the registry. -/
  | searching
  /-- It has it still, and has found no lock. -/
  | creating
  | found (lock : Nat)
  /-- It has asked for the lock and is in its queue. -/
  | waiting (lock : Nat)
  | inside (lock : Nat)
  | leaving (lock : Nat)
  | done
  deriving DecidableEq

namespace LifecyclePhase

/-- The `Arc` that a call has. -/
def arc : LifecyclePhase → Option Nat
  | found lock | waiting lock | inside lock | leaving lock => some lock
  | called | searching | creating | done => none

def inRegistry : LifecyclePhase → Bool
  | searching | creating => true
  | _ => false

/-- The call has got the lock once, or has gone without it. -/
def hadLock : LifecyclePhase → Bool
  | inside _ | leaving _ | done => true
  | _ => false

end LifecyclePhase

/-- A call of `attach` (`session.rs:2209-2270`) or of `detach` (`session.rs:3213-3230`). -/
structure LifecycleTask (K σ : Type) where
  session : K
  phase : LifecyclePhase := .called
  /-- What it has done so far. -/
  did : List (σ → σ) := []

/-- The registry of the locks, the calls and the queues, and what the sessions hold. -/
structure Lifecycle (K σ : Type) where
  registry : Registry K
  tasks : List (LifecycleTask K σ)
  store : K → σ
  queue : Nat → List Nat
  /-- The calls of a session that asked for its lock, in that order. -/
  asked : K → List Nat
  /-- The calls of a session that got its lock, in that order. -/
  order : K → List Nat

/-- A step of one call; `drop` may come at any time, when the call is cancelled. -/
inductive LifecycleAction (K σ : Type)
  | call (session : K)
  | search (i : Nat)
  | sweep (i : Nat) (session : K)
  | find (i : Nat)
  | create (i : Nat)
  | lock (i : Nat)
  | work (i : Nat) (effect : σ → σ)
  | unlock (i : Nat)
  | drop (i : Nat)

namespace Lifecycle

def start (store : K → σ) : Lifecycle K σ :=
  { registry := {}, tasks := [], store, queue := fun _ => [], asked := fun _ => [], order := fun _ => [] }

/-- All strong references. -/
def held (s : Lifecycle K σ) : List Nat := s.tasks.filterMap fun task => task.phase.arc

def moveTo (s : Lifecycle K σ) (i : Nat) (phase : LifecyclePhase) : Lifecycle K σ :=
  { s with tasks := s.tasks.modify i fun task => { task with phase } }

def isSearched (s : Lifecycle K σ) : Bool := s.tasks.any fun task => task.phase.inRegistry

def isLocked (s : Lifecycle K σ) (lock : Nat) : Bool := s.tasks.any fun task => task.phase = .inside lock

variable [DecidableEq K]

def enter (s : Lifecycle K σ) (i : Nat) (session : K) (lock : Nat) : Lifecycle K σ :=
  { s.moveTo i (.inside lock) with order := Function.update s.order session (s.order session ++ [i]) }

/-- `tokio::sync::Mutex::lock`: a call gets a lock that is free, else it comes to the end of the queue. -/
def ask (s : Lifecycle K σ) (i : Nat) (session : K) (lock : Nat) : Lifecycle K σ :=
  let s := { s with asked := Function.update s.asked session (s.asked session ++ [i]) }
  if s.isLocked lock then { s.moveTo i (.waiting lock) with queue := Function.update s.queue lock (s.queue lock ++ [i]) }
  else s.enter i session lock

/-- The lock that a call of the session releases goes to the first in the queue. -/
def handOver (s : Lifecycle K σ) (session : K) (lock : Nat) : Lifecycle K σ :=
  match s.queue lock with
  | [] => s
  | i :: rest => { s.enter i session lock with queue := Function.update s.queue lock rest }

/-- One step of one call (`session.rs:712-722`, `2209-2211`, `3213-3215`). -/
def step (s : Lifecycle K σ) : LifecycleAction K σ → Option (Lifecycle K σ)
  | .call session => some { s with tasks := s.tasks ++ [{ session }] }
  | .search i =>
    match s.tasks[i]? with
    | some ⟨_, .called, _⟩ => if s.isSearched then none else some (s.moveTo i .searching)
    | _ => none
  | .sweep i session =>
    match s.tasks[i]? with
    | some ⟨_, .searching, _⟩ => some { s with registry := s.registry.sweep s.held session }
    | _ => none
  | .find i =>
    match s.tasks[i]? with
    | some ⟨session, .searching, _⟩ =>
      match s.registry.find s.held session with
      | some lock => some (s.moveTo i (.found lock))
      | none => some (s.moveTo i .creating)
    | _ => none
  | .create i =>
    match s.tasks[i]? with
    | some ⟨session, .creating, _⟩ =>
      some { s.moveTo i (.found s.registry.made.length) with registry := s.registry.insert session }
    | _ => none
  | .lock i =>
    match s.tasks[i]? with
    | some ⟨session, .found lock, _⟩ => some (s.ask i session lock)
    | _ => none
  | .work i effect =>
    match s.tasks[i]? with
    | some ⟨session, .inside _, _⟩ =>
      some { s with
        store := Function.update s.store session (effect (s.store session))
        tasks := s.tasks.modify i fun task => { task with did := task.did ++ [effect] } }
    | _ => none
  | .unlock i =>
    match s.tasks[i]? with
    | some ⟨session, .inside lock, _⟩ => some ((s.moveTo i (.leaving lock)).handOver session lock)
    | _ => none
  | .drop i =>
    match s.tasks[i]? with
    | some ⟨_, .found _, _⟩ | some ⟨_, .leaving _, _⟩ => some (s.moveTo i .done)
    | some ⟨_, .waiting lock, _⟩ =>
      some { s.moveTo i .done with queue := Function.update s.queue lock ((s.queue lock).erase i) }
    | _ => none

attribute [local simp] step

/-! ## Tasks -/

section
omit [DecidableEq K]

/-- The `i`-th call. -/
def At (s : Lifecycle K σ) (i : Nat) (session : K) (phase : LifecyclePhase) (did : List (σ → σ)) : Prop :=
  s.tasks[i]? = some ⟨session, phase, did⟩

/-- What the `i`-th call has done. -/
def done (s : Lifecycle K σ) (i : Nat) : List (σ → σ) := ((s.tasks[i]?).map (·.did)).getD []

variable {s s' : Lifecycle K σ} {i j lock : Nat} {session k : K} {phase phase' old : LifecyclePhase} {did did' : List (σ → σ)}

theorem At.unique (h : s.At i session phase did) (h' : s.At i k phase' did') : session = k ∧ phase = phase' ∧ did = did' := by
  rw [At, h, Option.some.injEq, LifecycleTask.mk.injEq] at h'
  exact h'

theorem At.done (h : s.At i session phase did) : s.done i = did := by
  rw [Lifecycle.done, h]
  rfl

theorem mem_held : lock ∈ s.held ↔ ∃ i session phase did, s.At i session phase did ∧ phase.arc = some lock := by
  rw [held, List.mem_filterMap]
  constructor
  · rintro ⟨⟨session, phase, did⟩, htask, harc⟩
    obtain ⟨i, hi⟩ := List.mem_iff_getElem?.1 htask
    exact ⟨i, session, phase, did, hi, harc⟩
  · rintro ⟨i, session, phase, did, hi, harc⟩
    exact ⟨_, List.mem_of_getElem? hi, harc⟩

theorem At.mem_held (h : s.At i session phase did) (harc : phase.arc = some lock) : lock ∈ s.held :=
  Lifecycle.mem_held.2 ⟨i, session, phase, did, h, harc⟩

theorem isSearched_eq_true : s.isSearched = true ↔ ∃ i session phase did, s.At i session phase did ∧ phase.inRegistry = true := by
  rw [isSearched, List.any_eq_true]
  constructor
  · rintro ⟨⟨session, phase, did⟩, htask, hphase⟩
    obtain ⟨i, hi⟩ := List.mem_iff_getElem?.1 htask
    exact ⟨i, session, phase, did, hi, hphase⟩
  · rintro ⟨i, session, phase, did, hi, hphase⟩
    exact ⟨_, List.mem_of_getElem? hi, hphase⟩

theorem isLocked_eq_true : s.isLocked lock = true ↔ ∃ i session did, s.At i session (.inside lock) did := by
  rw [isLocked, List.any_eq_true]
  constructor
  · rintro ⟨⟨session, phase, did⟩, htask, hphase⟩
    obtain ⟨i, hi⟩ := List.mem_iff_getElem?.1 htask
    simp only [decide_eq_true_eq] at hphase
    exact ⟨i, session, did, hphase ▸ hi⟩
  · rintro ⟨i, session, did, hi⟩
    exact ⟨_, List.mem_of_getElem? hi, decide_eq_true rfl⟩

/-- One call comes to another phase, and the others stay where they are. -/
structure Moves (s s' : Lifecycle K σ) (i : Nat) (session : K) (old phase : LifecyclePhase) (did did' : List (σ → σ)) : Prop where
  before : s.At i session old did
  after : s'.At i session phase did'
  others : ∀ j, j ≠ i → s'.tasks[j]? = s.tasks[j]?

theorem moves_modify {change : LifecycleTask K σ → LifecycleTask K σ} (hi : s.At i session old did)
    (hs : s'.tasks = s.tasks.modify i change) (hchange : change ⟨session, old, did⟩ = ⟨session, phase, did'⟩) :
    Moves s s' i session old phase did did' := by
  refine ⟨hi, ?_, fun j hj => ?_⟩
  · rw [At, hs, List.getElem?_modify, hi]
    simp [hchange]
  · rw [hs, List.getElem?_modify]
    cases s.tasks[j]? with
    | none => rfl
    | some task => simp [Ne.symm hj]

theorem moves_moveTo (hi : s.At i session old did) (hs : s'.tasks = (s.moveTo i phase).tasks) :
    Moves s s' i session old phase did did := moves_modify hi hs rfl

namespace Moves

theorem cases (m : Moves s s' i session old phase did did') {d : List (σ → σ)} (hj : s'.At j k phase' d) :
    (j = i ∧ k = session ∧ phase' = phase ∧ d = did') ∨ (j ≠ i ∧ s.At j k phase' d) := by
  by_cases hji : j = i
  · subst hji
    exact .inl ⟨rfl, hj.unique m.after⟩
  · rw [At, m.others j hji] at hj
    exact .inr ⟨hji, hj⟩

theorem other (m : Moves s s' i session old phase did did') (hji : j ≠ i) {d : List (σ → σ)} (hj : s.At j k phase' d) :
    s'.At j k phase' d := by
  rwa [At, m.others j hji]

theorem done_other (m : Moves s s' i session old phase did did') (hji : j ≠ i) : s'.done j = s.done j := by
  rw [done, m.others j hji, done]

theorem done_eq (m : Moves s s' i session old phase did did) (j : Nat) : s'.done j = s.done j := by
  by_cases hji : j = i
  · rw [hji, m.after.done, m.before.done]
  · exact m.done_other hji

theorem held_cases (m : Moves s s' i session old phase did did') (h : lock ∈ s'.held) :
    lock ∈ s.held ∨ phase.arc = some lock := by
  obtain ⟨j, k, phase', d, hj, harc⟩ := mem_held.1 h
  rcases m.cases hj with ⟨-, -, rfl, -⟩ | ⟨-, hj⟩
  · exact .inr harc
  · exact .inl (hj.mem_held harc)

/-- The call gets no reference. -/
theorem held_subset (m : Moves s s' i session old phase did did') (harc : phase.arc = none ∨ phase.arc = old.arc) :
    s'.held ⊆ s.held := by
  intro lock hlock
  rcases m.held_cases hlock with hold | hnew
  · exact hold
  · rcases harc with hnone | hsame
    · rw [hnone] at hnew
      cases hnew
    · exact m.before.mem_held (hsame ▸ hnew)

end Moves

end

def apply (effects : List (σ → σ)) (x : σ) : σ := effects.foldl (fun x f => f x) x

/-! ## A session has one lock -/

/-- At most one call searches the registry, and a call that has a lock has the one made for its session. -/
structure Registered (s : Lifecycle K σ) : Prop where
  coherent : Coherent s.registry s.held
  keys : ∀ {i session phase did lock}, s.At i session phase did → phase.arc = some lock →
    s.registry.made[lock]? = some session
  searching : ∀ {i j session k phase phase' did did'}, s.At i session phase did → s.At j k phase' did' →
    phase.inRegistry = true → phase'.inRegistry = true → i = j
  creating : ∀ {i session did}, s.At i session .creating did → s.registry.find s.held session = none

variable {init : K → σ} {s s' : Lifecycle K σ} {i j lock : Nat} {session k : K} {phase phase' old : LifecyclePhase}
  {did did' : List (σ → σ)} {a : LifecycleAction K σ}

section
omit [DecidableEq K]

theorem find_of_subset {r : Registry K} {held held' : List Nat} (h : r.find held k = none) (hsub : held' ⊆ held) :
    r.find held' k = none := by
  rw [Registry.find_eq_none]
  intro id hentry hid
  exact Registry.find_eq_none.1 h id hentry (hsub hid)

theorem Registered.sameLock (h : Registered s) {a b : Nat} (hi : s.At i session phase did) (ha : phase.arc = some a)
    (hj : s.At j session phase' did') (hb : phase'.arc = some b) : a = b :=
  h.coherent.unique (hi.mem_held ha) (hj.mem_held hb) ((h.keys hi ha).trans (h.keys hj hb).symm)

theorem Registered.sameSession (h : Registered s) (hi : s.At i session phase did) (ha : phase.arc = some lock)
    (hj : s.At j k phase' did') (hb : phase'.arc = some lock) : session = k :=
  Option.some.inj ((h.keys hi ha).symm.trans (h.keys hj hb))

/-- A move of one call, with what it does to the registry. -/
theorem Registered.moves (h : Registered s) (m : Moves s s' i session old phase did did')
    (hcoherent : Coherent s'.registry s'.held)
    (hmade : ∀ (lock : Nat) (k : K), s.registry.made[lock]? = some k → s'.registry.made[lock]? = some k)
    (harc : ∀ lock, phase.arc = some lock → s'.registry.made[lock]? = some session)
    (hsearch : phase.inRegistry = true → old.inRegistry = true ∨ s.isSearched = false)
    (hcreating : phase = .creating → s'.registry.find s'.held session = none)
    (hothers : old.inRegistry = true ∨ s'.registry = s.registry ∧ s'.held ⊆ s.held) : Registered s' := by
  have hnone : phase.inRegistry = true → ∀ {j k phase' did'}, j ≠ i → s.At j k phase' did' → phase'.inRegistry ≠ true := by
    intro hphase j k phase' did' hji hj hphase'
    rcases hsearch hphase with hold | hfree
    · exact hji (h.searching hj m.before hphase' hold)
    · rw [isSearched_eq_true.2 ⟨j, k, phase', did', hj, hphase'⟩] at hfree
      cases hfree
  refine ⟨hcoherent, ?_, ?_, ?_⟩
  · intro j k phase' d lock hj harc'
    rcases m.cases hj with ⟨rfl, rfl, rfl, rfl⟩ | ⟨-, hj⟩
    · exact harc lock harc'
    · exact hmade lock k (h.keys hj harc')
  · intro j j' k k' phase₁ phase₂ d d' hj hj' hphase₁ hphase₂
    rcases m.cases hj with ⟨rfl, rfl, rfl, rfl⟩ | ⟨hji, hj⟩
    · rcases m.cases hj' with ⟨rfl, -⟩ | ⟨hji', hj'⟩
      · rfl
      · exact absurd hphase₂ (hnone hphase₁ hji' hj')
    · rcases m.cases hj' with ⟨rfl, rfl, rfl, rfl⟩ | ⟨-, hj'⟩
      · exact absurd hphase₁ (hnone hphase₂ hji hj)
      · exact h.searching hj hj' hphase₁ hphase₂
  · intro j k d hj
    rcases m.cases hj with ⟨rfl, rfl, hphase, rfl⟩ | ⟨hji, hj⟩
    · exact hcreating hphase.symm
    · rcases hothers with hold | ⟨hregistry, hsub⟩
      · exact absurd (h.searching hj m.before rfl hold) hji
      · rw [hregistry]
        exact find_of_subset (h.creating hj) hsub

/-- A move outside the registry, with the reference that the call has or none. -/
theorem Registered.keeps (h : Registered s) (m : Moves s s' i session old phase did did') (hregistry : s'.registry = s.registry)
    (harc : phase.arc = none ∨ phase.arc = old.arc) (houtside : phase.inRegistry = false) : Registered s' := by
  have hsub := m.held_subset harc
  refine h.moves m ?_ ?_ ?_ ?_ ?_ (.inr ⟨hregistry, hsub⟩)
  · rw [hregistry]
    exact h.coherent.of_subset hsub
  · rw [hregistry]
    exact fun _ _ hmade => hmade
  · intro lock hphase
    rw [hregistry]
    rcases harc with hnone | hsame
    · rw [hnone] at hphase
      cases hphase
    · exact h.keys m.before (hsame ▸ hphase)
  · rw [houtside]
    rintro ⟨⟩
  · rintro rfl
    cases houtside

/-! ## What a session has become -/

/-- What a session holds is what its calls did, in the order in which they got the lock. -/
structure Serial (init : K → σ) (s : Lifecycle K σ) : Prop where
  nodup : ∀ k, (s.order k).Nodup
  ordered : ∀ {k i}, i ∈ s.order k → ∃ phase did, s.At i k phase did ∧ phase.hadLock = true
  idle : ∀ {i session phase did}, s.At i session phase did → i ∉ s.order session → did = []
  last : ∀ {i session did lock}, s.At i session (.inside lock) did → (s.order session).getLast? = some i
  store : ∀ k, s.store k = (s.order k).foldl (fun x i => apply (s.done i) x) (init k)

theorem Serial.ordered_moves (h : Serial init s) (m : Moves s s' i session old phase did did')
    (hlock : old.hadLock = true → phase.hadLock = true) (hj : j ∈ s.order k) :
    ∃ phase did, s'.At j k phase did ∧ phase.hadLock = true := by
  obtain ⟨phase', d, hat, hhad⟩ := h.ordered hj
  by_cases hji : j = i
  · subst hji
    obtain ⟨rfl, rfl, rfl⟩ := hat.unique m.before
    exact ⟨phase, did', m.after, hlock hhad⟩
  · exact ⟨phase', d, m.other hji hat, hhad⟩

/-- A move of one call that does not take the lock. -/
theorem Serial.moves (h : Serial init s) (m : Moves s s' i session old phase did did) (horder : s'.order = s.order)
    (hstore : s'.store = s.store) (hinside : ∀ lock, phase ≠ .inside lock) (hlock : old.hadLock = true → phase.hadLock = true) :
    Serial init s' := by
  refine ⟨horder ▸ h.nodup, ?_, ?_, ?_, fun k => ?_⟩
  · intro k j hj
    exact h.ordered_moves m hlock (horder ▸ hj)
  · intro j k phase' d hj hnot
    rw [horder] at hnot
    rcases m.cases hj with ⟨rfl, rfl, rfl, rfl⟩ | ⟨-, hj⟩
    · exact h.idle m.before hnot
    · exact h.idle hj hnot
  · intro j k d lock hj
    rw [horder]
    rcases m.cases hj with ⟨-, -, hphase, -⟩ | ⟨-, hj⟩
    · exact absurd hphase.symm (hinside lock)
    · exact h.last hj
  · rw [hstore, horder, h.store k]
    simp only [m.done_eq]

/-- It asks for the first time. -/
theorem Serial.notOrdered (h : Serial init s) (hi : s.At i session phase did) (hnew : phase.hadLock = false) (k : K) :
    i ∉ s.order k := by
  intro hmem
  obtain ⟨phase', d, hj, hhad⟩ := h.ordered hmem
  obtain ⟨-, rfl, -⟩ := hj.unique hi
  rw [hnew] at hhad
  cases hhad

end

theorem Serial.enters (h : Serial init s) (m : Moves s s' i session old (.inside lock) did did) (hnew : old.hadLock = false)
    (horder : s'.order = Function.update s.order session (s.order session ++ [i])) (hstore : s'.store = s.store)
    (hnone : ∀ j other d, ¬ s.At j session (.inside other) d) : Serial init s' := by
  have hnot := h.notOrdered m.before hnew session
  have hself : s'.order session = s.order session ++ [i] := by rw [horder, Function.update_self]
  have hothers : ∀ {k}, k ≠ session → s'.order k = s.order k := fun hk => by rw [horder, Function.update_of_ne hk]
  refine ⟨fun k => ?_, ?_, ?_, ?_, fun k => ?_⟩
  · by_cases hk : k = session
    · rw [hk, hself]
      exact List.nodup_append.2 ⟨h.nodup session, by simp, by rintro a ha b hb rfl; exact hnot (List.mem_singleton.1 hb ▸ ha)⟩
    · rw [hothers hk]
      exact h.nodup k
  · intro k j hj
    have hlock : old.hadLock = true → (LifecyclePhase.inside lock).hadLock = true := fun _ => rfl
    by_cases hk : k = session
    · rw [hk, hself, List.mem_append, List.mem_singleton] at hj
      rcases hj with hj | rfl
      · exact hk ▸ h.ordered_moves m hlock hj
      · exact ⟨_, _, hk ▸ m.after, rfl⟩
    · rw [hothers hk] at hj
      exact h.ordered_moves m hlock hj
  · intro j k phase' d hj hmem
    rcases m.cases hj with ⟨rfl, rfl, rfl, rfl⟩ | ⟨-, hj⟩
    · exact absurd (by rw [hself]; simp) hmem
    · refine h.idle hj fun hold => hmem ?_
      by_cases hk : k = session
      · rw [hk] at hold ⊢
        rw [hself]
        exact List.mem_append_left _ hold
      · rwa [hothers hk]
  · intro j k d lock' hj
    rcases m.cases hj with ⟨rfl, rfl, -, -⟩ | ⟨-, hj⟩
    · rw [hself, List.getLast?_concat]
    · rw [hothers fun hk => hnone j lock' d (hk ▸ hj)]
      exact h.last hj
  · rw [hstore, h.store k]
    simp only [m.done_eq]
    by_cases hk : k = session
    · rw [hk, hself, List.foldl_concat, m.before.done, h.idle m.before hnot]
      rfl
    · rw [hothers hk]

/-- The call that has the lock works. It is the last that got it. -/
theorem Serial.works (h : Serial init s) {effect : σ → σ}
    (m : Moves s s' i session (.inside lock) (.inside lock) did (did ++ [effect])) (horder : s'.order = s.order)
    (hstore : s'.store = Function.update s.store session (effect (s.store session))) : Serial init s' := by
  have hlast := h.last m.before
  refine ⟨horder ▸ h.nodup, ?_, ?_, ?_, fun k => ?_⟩
  · intro k j hj
    exact h.ordered_moves m id (horder ▸ hj)
  · intro j k phase' d hj hnot
    rw [horder] at hnot
    rcases m.cases hj with ⟨rfl, rfl, -, -⟩ | ⟨-, hj⟩
    · exact absurd (List.mem_of_getLast? hlast) hnot
    · exact h.idle hj hnot
  · intro j k d lock' hj
    rw [horder]
    rcases m.cases hj with ⟨rfl, rfl, -, -⟩ | ⟨-, hj⟩
    · exact hlast
    · exact h.last hj
  · rw [hstore, horder]
    by_cases hk : k = session
    · subst hk
      obtain ⟨before, hbefore⟩ := List.getLast?_eq_some_iff.1 hlast
      have hnot : i ∉ before := by
        have hnodup := h.nodup k
        rw [hbefore] at hnodup
        exact fun hmem => (List.nodup_append.1 hnodup).2.2 i hmem i List.mem_cons_self rfl
      rw [Function.update_self, h.store k, hbefore, List.foldl_concat, List.foldl_concat, m.after.done, m.before.done, apply,
        apply, List.foldl_concat]
      congr 2
      exact List.foldl_ext _ _ _ fun x j hj => by rw [m.done_other fun heq => hnot (heq ▸ hj)]
    · rw [Function.update_of_ne hk, h.store k]
      refine List.foldl_ext _ _ _ fun x j hj => ?_
      obtain ⟨phase', d, hj', -⟩ := h.ordered hj
      rw [m.done_other]
      rintro rfl
      exact hk (hj'.unique m.before).1

/-! ## The queue of a lock -/

/-- The calls got the lock in the order in which they asked, and who waits is in the queue. -/
structure Queued (s : Lifecycle K σ) : Prop where
  queued : ∀ {lock i}, i ∈ s.queue lock ↔ ∃ session did, s.At i session (.waiting lock) did
  nodup : ∀ lock, (s.queue lock).Nodup
  asked : ∀ k, (s.order k).Sublist (s.asked k)
  fair : ∀ {lock k}, s.queue lock ≠ [] → s.registry.made[lock]? = some k → (s.order k ++ s.queue lock).Sublist (s.asked k)

/-- Nobody waits for a lock that is free. -/
def Busy (s : Lifecycle K σ) : Prop := ∀ lock, s.queue lock ≠ [] → s.isLocked lock = true

section
omit [DecidableEq K]

/-- Whoever waits for a lock has been queued with the session that it was made for. -/
theorem Queued.made (h : Queued s) (hregistered : Registered s) (hqueue : s.queue lock ≠ []) :
    ∃ k, s.registry.made[lock]? = some k := by
  obtain ⟨i, hi⟩ := List.exists_mem_of_ne_nil _ hqueue
  obtain ⟨session, did, hat⟩ := h.queued.1 hi
  exact ⟨session, hregistered.keys hat rfl⟩

/-- The one lock of a session with a reference to it is the one that its calls wait for. -/
theorem Queued.sameLock (h : Queued s) (hregistered : Registered s) (hi : s.At i session phase did) (harc : phase.arc = some lock)
    {other : Nat} (hqueue : s.queue other ≠ []) (hmade : s.registry.made[other]? = some session) : other = lock := by
  obtain ⟨j, hj⟩ := List.exists_mem_of_ne_nil _ hqueue
  obtain ⟨k, d, hat⟩ := h.queued.1 hj
  have hkeys := hregistered.keys hat rfl
  rw [hmade, Option.some.injEq] at hkeys
  subst hkeys
  exact hregistered.sameLock hat rfl hi harc

theorem Queued.fair_all (h : Queued s) (hmade : s.registry.made[lock]? = some k) :
    (s.order k ++ s.queue lock).Sublist (s.asked k) := by
  by_cases hqueue : s.queue lock = []
  · rw [hqueue, List.append_nil]
    exact h.asked k
  · exact h.fair hqueue hmade

/-- A call that neither comes to the queue nor leaves it. -/
theorem Queued.moves (h : Queued s) (hregistered : Registered s) (m : Moves s s' i session old phase did did')
    (hold : ∀ lock, old ≠ .waiting lock) (hphase : ∀ lock, phase ≠ .waiting lock) (hqueue : s'.queue = s.queue)
    (hasked : s'.asked = s.asked) (horder : s'.order = s.order)
    (hmade : ∀ (lock : Nat) (k : K), s.registry.made[lock]? = some k → s'.registry.made[lock]? = some k) : Queued s' := by
  refine ⟨?_, ?_, ?_, ?_⟩
  · intro lock j
    rw [hqueue, h.queued]
    constructor
    · rintro ⟨k, d, hj⟩
      refine ⟨k, d, m.other ?_ hj⟩
      rintro rfl
      exact hold lock (hj.unique m.before).2.1.symm
    · rintro ⟨k, d, hj⟩
      rcases m.cases hj with ⟨-, -, hwaits, -⟩ | ⟨-, hj⟩
      · exact absurd hwaits.symm (hphase lock)
      · exact ⟨k, d, hj⟩
  · rw [hqueue]
    exact h.nodup
  · rw [horder, hasked]
    exact h.asked
  · intro lock k hwaits hkey
    rw [hqueue] at hwaits ⊢
    rw [horder, hasked]
    obtain ⟨k', hmade'⟩ := h.made hregistered hwaits
    have hsame : k' = k := Option.some.inj ((hmade lock k' hmade').symm.trans hkey)
    exact h.fair hwaits (hsame ▸ hmade')

theorem Busy.moves (h : Busy s) (m : Moves s s' i session old phase did did') (hqueue : s'.queue = s.queue)
    (hinside : ∀ lock, old = .inside lock → phase = .inside lock) : Busy s' := by
  intro lock hwaits
  rw [hqueue] at hwaits
  obtain ⟨j, k, d, hj⟩ := isLocked_eq_true.1 (h lock hwaits)
  by_cases hji : j = i
  · subst hji
    obtain ⟨rfl, rfl, rfl⟩ := hj.unique m.before
    obtain rfl := hinside lock rfl
    exact isLocked_eq_true.2 ⟨j, k, did', m.after⟩
  · exact isLocked_eq_true.2 ⟨j, k, d, m.other hji hj⟩

end

/-- A move of one call with the lock of its session, by which the queue of that lock becomes another. -/
theorem Queued.changes (h : Queued s) (hregistered : Registered s) (m : Moves s s' i session old phase did did')
    (harc : old.arc = some lock) {q : List Nat} (hqueue : s'.queue = Function.update s.queue lock q)
    (hmem : ∀ j, j ∈ q ↔ (j = i ∧ phase = .waiting lock) ∨ (j ≠ i ∧ j ∈ s.queue lock)) (hnodup : q.Nodup)
    (hwaits : ∀ other, phase = .waiting other → other = lock) (hregistry : s'.registry = s.registry)
    (hframe : ∀ k, k ≠ session → s'.order k = s.order k ∧ s'.asked k = s.asked k)
    (hfair : (s'.order session ++ q).Sublist (s'.asked session)) : Queued s' := by
  have hself : s'.queue lock = q := by rw [hqueue, Function.update_self]
  have hothers : ∀ {other}, other ≠ lock → s'.queue other = s.queue other := fun hne => by rw [hqueue, Function.update_of_ne hne]
  refine ⟨?_, fun other => ?_, fun k => ?_, ?_⟩
  · intro other j
    by_cases hother : other = lock
    · subst hother
      rw [hself, hmem, h.queued]
      constructor
      · rintro (⟨rfl, rfl⟩ | ⟨hji, k, d, hj⟩)
        · exact ⟨session, did', m.after⟩
        · exact ⟨k, d, m.other hji hj⟩
      · rintro ⟨k, d, hj⟩
        rcases m.cases hj with ⟨rfl, -, hphase, -⟩ | ⟨hji, hj⟩
        · exact .inl ⟨rfl, hphase.symm⟩
        · exact .inr ⟨hji, k, d, hj⟩
    · rw [hothers hother, h.queued]
      constructor
      · rintro ⟨k, d, hj⟩
        refine ⟨k, d, m.other ?_ hj⟩
        rintro rfl
        obtain ⟨-, rfl, -⟩ := hj.unique m.before
        exact hother (Option.some.inj harc)
      · rintro ⟨k, d, hj⟩
        rcases m.cases hj with ⟨-, -, hphase, -⟩ | ⟨-, hj⟩
        · exact absurd (hwaits other hphase.symm) hother
        · exact ⟨k, d, hj⟩
  · by_cases hother : other = lock
    · rwa [hother, hself]
    · rw [hothers hother]
      exact h.nodup other
  · by_cases hk : k = session
    · rw [hk]
      exact (List.sublist_append_left _ _).trans hfair
    · rw [(hframe k hk).1, (hframe k hk).2]
      exact h.asked k
  · intro other k hsome hmade
    rw [hregistry] at hmade
    by_cases hother : other = lock
    · subst hother
      rw [Option.some.inj (hmade.symm.trans (hregistered.keys m.before harc)), hself]
      exact hfair
    · rw [hothers hother] at hsome ⊢
      have hk : k ≠ session := by
        rintro rfl
        exact hother (h.sameLock hregistered m.before harc hsome hmade)
      rw [(hframe k hk).1, (hframe k hk).2]
      exact h.fair hsome hmade

omit [DecidableEq K] in
/-- Only the queue of one lock changes. -/
theorem Busy.changes (h : ∀ other, other ≠ lock → s.queue other ≠ [] → s.isLocked other = true)
    (m : Moves s s' i session old phase did did') (harc : old.arc = some lock) {q : List Nat}
    (hqueue : s'.queue = Function.update s.queue lock q) (hlocked : q ≠ [] → s'.isLocked lock = true) : Busy s' := by
  intro other hwaits
  by_cases hother : other = lock
  · rw [hother, hqueue, Function.update_self] at hwaits
    rw [hother]
    exact hlocked hwaits
  · rw [hqueue, Function.update_of_ne hother] at hwaits
    obtain ⟨j, k, d, hj⟩ := isLocked_eq_true.1 (h other hother hwaits)
    refine isLocked_eq_true.2 ⟨j, k, d, m.other ?_ hj⟩
    rintro rfl
    obtain ⟨-, rfl, -⟩ := hj.unique m.before
    exact hother (Option.some.inj harc)

/-- What every interleaving keeps. -/
structure Inv (init : K → σ) (s : Lifecycle K σ) : Prop where
  registered : Registered s
  serial : Serial init s
  queued : Queued s
  busy : Busy s

section
omit [DecidableEq K]

theorem inv_start (init : K → σ) : Inv init (start init) where
  registered := ⟨coherent_empty, by simp [At, start], by simp [At, start], by simp [At, start]⟩
  serial := ⟨by simp [start], by simp [start], by simp [At, start], by simp [At, start], fun _ => rfl⟩
  queued := ⟨by simp [At, start], by simp [start], by simp [start], by simp [start]⟩
  busy := by simp [Busy, start]

/-- A move of one call that neither takes, leaves nor awaits a lock. -/
theorem Inv.moves (h : Inv init s) (m : Moves s s' i session old phase did did) (hregistered : Registered s')
    (hframe : s'.order = s.order ∧ s'.store = s.store ∧ s'.queue = s.queue ∧ s'.asked = s.asked)
    (hmade : ∀ (lock : Nat) (k : K), s.registry.made[lock]? = some k → s'.registry.made[lock]? = some k)
    (hold : ∀ lock, old ≠ .waiting lock ∧ old ≠ .inside lock) (hphase : ∀ lock, phase ≠ .waiting lock ∧ phase ≠ .inside lock)
    (hlock : old.hadLock = true → phase.hadLock = true) : Inv init s' := by
  obtain ⟨horder, hstore, hqueue, hasked⟩ := hframe
  refine ⟨hregistered, h.serial.moves m horder hstore (fun lock => (hphase lock).2) hlock, ?_, h.busy.moves m hqueue ?_⟩
  · exact h.queued.moves h.registered m (fun lock => (hold lock).1) (fun lock => (hphase lock).1) hqueue hasked horder hmade
  · exact fun lock hinside => absurd hinside (hold lock).2

theorem Inv.search (h : Inv init s) (hi : s.At i session .called did) (hfree : s.isSearched = false) :
    Inv init (s.moveTo i .searching) := by
  have m : Moves s (s.moveTo i .searching) i session .called .searching did did := moves_moveTo hi rfl
  have hsub := m.held_subset (.inl rfl)
  refine h.moves m (h.registered.moves m (h.registered.coherent.of_subset hsub) (fun _ _ hmade => hmade) ?_ (fun _ => .inr hfree)
    ?_ (.inr ⟨rfl, hsub⟩)) ⟨rfl, rfl, rfl, rfl⟩ (fun _ _ hmade => hmade) (by simp) (by simp) (by simp [LifecyclePhase.hadLock])
  · rintro lock ⟨⟩
  · rintro ⟨⟩

theorem Inv.found (h : Inv init s) (hi : s.At i session .searching did) (hfind : s.registry.find s.held session = some lock) :
    Inv init (s.moveTo i (.found lock)) := by
  have m : Moves s (s.moveTo i (.found lock)) i session .searching (.found lock) did did := moves_moveTo hi rfl
  have hsub : (s.moveTo i (.found lock)).held ⊆ s.held := by
    intro id hid
    rcases m.held_cases hid with hold | hnew
    · exact hold
    · cases hnew
      exact (Registry.find_eq_some.1 hfind).2
  refine h.moves m (h.registered.moves m (h.registered.coherent.of_subset hsub) (fun _ _ hmade => hmade) ?_ ?_ ?_ (.inl rfl))
    ⟨rfl, rfl, rfl, rfl⟩ (fun _ _ hmade => hmade) (by simp) (by simp) (by simp [LifecyclePhase.hadLock])
  · rintro id ⟨⟩
    exact h.registered.coherent.made_of_find hfind
  · rintro ⟨⟩
  · rintro ⟨⟩

theorem Inv.missed (h : Inv init s) (hi : s.At i session .searching did) (hfind : s.registry.find s.held session = none) :
    Inv init (s.moveTo i .creating) := by
  have m : Moves s (s.moveTo i .creating) i session .searching .creating did did := moves_moveTo hi rfl
  have hsub := m.held_subset (.inl rfl)
  refine h.moves m (h.registered.moves m (h.registered.coherent.of_subset hsub) (fun _ _ hmade => hmade) ?_ (fun _ => .inl rfl)
    ?_ (.inl rfl)) ⟨rfl, rfl, rfl, rfl⟩ (fun _ _ hmade => hmade) (by simp) (by simp) (by simp [LifecyclePhase.hadLock])
  · rintro lock ⟨⟩
  · exact fun _ => find_of_subset hfind hsub

/-- The end of a call that is in no queue. -/
theorem Inv.ends (h : Inv init s) (hi : s.At i session old did) (hold : ∀ lock, old ≠ .waiting lock ∧ old ≠ .inside lock) :
    Inv init (s.moveTo i .done) := by
  have m : Moves s (s.moveTo i .done) i session old .done did did := moves_moveTo hi rfl
  exact h.moves m (h.registered.keeps m rfl (.inl rfl) rfl) ⟨rfl, rfl, rfl, rfl⟩ (fun _ _ hmade => hmade) hold (by simp)
    fun _ => rfl

/-- A new call. -/
theorem Inv.call (h : Inv init s) (session : K) : Inv init { s with tasks := s.tasks ++ [{ session }] } := by
  set s' : Lifecycle K σ := { s with tasks := s.tasks ++ [{ session }] } with hs'
  have hkept : ∀ {j k phase did}, s.At j k phase did → s'.At j k phase did := fun hj =>
    (List.getElem?_append_left (List.getElem?_eq_some_iff.1 hj).1).trans hj
  have hat : ∀ {j k phase did}, s'.At j k phase did → s.At j k phase did ∨ phase = .called ∧ did = [] := by
    intro j k phase did hj
    by_cases hlt : j < s.tasks.length
    · exact .inl ((List.getElem?_append_left hlt).symm.trans hj)
    · rw [At, hs', List.getElem?_append_right (Nat.le_of_not_lt hlt)] at hj
      have hnew := List.mem_of_getElem? hj
      rw [List.mem_singleton, LifecycleTask.mk.injEq] at hnew
      exact .inr hnew.2
  have hold : ∀ {j k phase did}, s'.At j k phase did → phase ≠ .called → s.At j k phase did := fun hj hne =>
    (hat hj).resolve_right fun hnew => hne hnew.1
  have hheld : s'.held = s.held := by simp [hs', held, List.filterMap_append, LifecyclePhase.arc]
  refine ⟨⟨hheld ▸ h.registered.coherent, ?_, ?_, ?_⟩, ⟨h.serial.nodup, ?_, ?_, ?_, ?_⟩,
    ⟨?_, h.queued.nodup, h.queued.asked, h.queued.fair⟩, ?_⟩
  · intro j k phase did lock hj harc
    exact h.registered.keys (hold hj (by rintro rfl; cases harc)) harc
  · intro j j' k k' phase phase' did did' hj hj' hphase hphase'
    exact h.registered.searching (hold hj (by rintro rfl; cases hphase)) (hold hj' (by rintro rfl; cases hphase')) hphase hphase'
  · intro j k did hj
    rw [hheld]
    exact h.registered.creating (hold hj (by simp))
  · intro k j hj
    obtain ⟨phase, did, hat', hhad⟩ := h.serial.ordered hj
    exact ⟨phase, did, hkept hat', hhad⟩
  · intro j k phase did hj hnot
    rcases hat hj with hj | ⟨-, hdid⟩
    · exact h.serial.idle hj hnot
    · exact hdid
  · intro j k did lock hj
    exact h.serial.last (hold hj (by simp))
  · intro k
    refine (h.serial.store k).trans (List.foldl_ext _ _ _ fun x i hi => ?_)
    obtain ⟨phase, did, hat', -⟩ := h.serial.ordered hi
    rw [hat'.done, (hkept hat').done]
  · intro lock j
    refine h.queued.queued.trans ⟨?_, ?_⟩
    · rintro ⟨k, did, hj⟩
      exact ⟨k, did, hkept hj⟩
    · rintro ⟨k, did, hj⟩
      exact ⟨k, did, hold hj (by simp)⟩
  · intro lock hwaits
    obtain ⟨j, k, did, hj⟩ := isLocked_eq_true.1 (h.busy lock hwaits)
    exact isLocked_eq_true.2 ⟨j, k, did, hkept hj⟩

/-- Where the lock of a session is free, or was left by the one that had it, none of its calls is inside. -/
theorem Inv.noneInside (h : Inv init s) (hi : s.At i session phase did) (harc : phase.arc = some lock)
    (hfree : s.isLocked lock = false) {other : Nat} : ¬ s.At j session (.inside other) did' := by
  intro hj
  obtain rfl := h.registered.sameLock hj rfl hi harc
  rw [isLocked_eq_true.2 ⟨j, session, did', hj⟩] at hfree
  cases hfree

end

theorem Inv.create (h : Inv init s) (hi : s.At i session .creating did) :
    Inv init { s.moveTo i (.found s.registry.made.length) with registry := s.registry.insert session } := by
  set s' : Lifecycle K σ := { s.moveTo i (.found s.registry.made.length) with registry := s.registry.insert session }
  have m : Moves s s' i session .creating (.found s.registry.made.length) did did := moves_moveTo hi rfl
  have hheld : s'.held ⊆ s.registry.made.length :: s.held := by
    intro lock hlock
    rcases m.held_cases hlock with hold | hnew
    · exact List.mem_cons_of_mem _ hold
    · cases hnew
      exact List.mem_cons_self
  have hmade : ∀ (lock : Nat) (k : K), s.registry.made[lock]? = some k → s'.registry.made[lock]? = some k := fun lock k hmade =>
    (List.getElem?_append_left (List.getElem?_eq_some_iff.1 hmade).1).trans hmade
  refine h.moves m (h.registered.moves m ((h.registered.coherent.insert (h.registered.creating hi)).of_subset hheld) hmade ?_ ?_ ?_
    (.inl rfl)) ⟨rfl, rfl, rfl, rfl⟩ hmade (by simp) (by simp) (by simp [LifecyclePhase.hadLock])
  · rintro lock ⟨⟩
    exact made_insert _ _
  · rintro ⟨⟩
  · rintro ⟨⟩

theorem Inv.sweep (h : Inv init s) (k : K) : Inv init { s with registry := s.registry.sweep s.held k } where
  registered :=
    { coherent := h.registered.coherent.sweep k
      keys := fun hi harc => by
        rw [Registry.made_sweep]
        exact h.registered.keys hi harc
      searching := h.registered.searching
      creating := fun hi => (Registry.find_sweep _).trans (h.registered.creating hi) }
  serial := ⟨h.serial.nodup, h.serial.ordered, h.serial.idle, h.serial.last, h.serial.store⟩
  queued :=
    { queued := h.queued.queued
      nodup := h.queued.nodup
      asked := h.queued.asked
      fair := fun hwaits hmade => h.queued.fair hwaits (by rwa [Registry.made_sweep] at hmade) }
  busy := h.busy

theorem Inv.work (h : Inv init s) (hi : s.At i session (.inside lock) did) (effect : σ → σ) :
    Inv init { s with
      store := Function.update s.store session (effect (s.store session))
      tasks := s.tasks.modify i fun task => { task with did := task.did ++ [effect] } } := by
  set s' : Lifecycle K σ := { s with
    store := Function.update s.store session (effect (s.store session))
    tasks := s.tasks.modify i fun task => { task with did := task.did ++ [effect] } }
  have m : Moves s s' i session (.inside lock) (.inside lock) did (did ++ [effect]) := moves_modify hi rfl rfl
  exact ⟨h.registered.keeps m rfl (.inr rfl) rfl, h.serial.works m rfl rfl,
    h.queued.moves h.registered m (by simp) (by simp) rfl rfl rfl fun _ _ hmade => hmade,
    h.busy.moves m rfl fun _ hinside => hinside⟩

/-- The call comes to the end of the queue. -/
theorem Inv.waits (h : Inv init s) (hi : s.At i session (.found lock) did) (hlocked : s.isLocked lock = true) :
    Inv init { s.moveTo i (.waiting lock) with
      asked := Function.update s.asked session (s.asked session ++ [i])
      queue := Function.update s.queue lock (s.queue lock ++ [i]) } := by
  set s' : Lifecycle K σ := { s.moveTo i (.waiting lock) with
    asked := Function.update s.asked session (s.asked session ++ [i])
    queue := Function.update s.queue lock (s.queue lock ++ [i]) } with hs'
  have m : Moves s s' i session (.found lock) (.waiting lock) did did := moves_moveTo hi rfl
  have hnot : i ∉ s.queue lock := fun hmem => by
    obtain ⟨k, d, hj⟩ := h.queued.queued.1 hmem
    cases (hj.unique hi).2.1
  refine ⟨h.registered.keeps m rfl (.inr rfl) rfl, h.serial.moves m rfl rfl (by simp) (by simp [LifecyclePhase.hadLock]),
    h.queued.changes h.registered m rfl rfl (fun j => ?_) ?_ (fun other hphase => ?_) rfl (fun k hk => ?_) ?_,
    Busy.changes (fun other _ => h.busy other) m rfl rfl fun _ => ?_⟩
  · by_cases hji : j = i <;> simp [hji]
  · exact List.nodup_append.2 ⟨h.queued.nodup lock, by simp, by rintro a ha b hb rfl; exact hnot (List.mem_singleton.1 hb ▸ ha)⟩
  · cases hphase
    rfl
  · exact ⟨rfl, Function.update_of_ne hk _ _⟩
  · have hasked : s'.asked session = s.asked session ++ [i] := Function.update_self _ _ _
    rw [hasked, ← List.append_assoc]
    exact (h.queued.fair_all (h.registered.keys hi rfl)).append (.refl _)
  · obtain ⟨j, k, d, hj⟩ := isLocked_eq_true.1 hlocked
    refine isLocked_eq_true.2 ⟨j, k, d, m.other ?_ hj⟩
    rintro rfl
    cases (hj.unique hi).2.1

/-- The call gets the lock at once. -/
theorem Inv.enters (h : Inv init s) (hi : s.At i session (.found lock) did) (hfree : s.isLocked lock = false) :
    Inv init { s.enter i session lock with asked := Function.update s.asked session (s.asked session ++ [i]) } := by
  set s' : Lifecycle K σ := { s.enter i session lock with asked := Function.update s.asked session (s.asked session ++ [i]) }
  have m : Moves s s' i session (.found lock) (.inside lock) did did := moves_moveTo hi rfl
  have hempty : s.queue lock = [] := by
    by_contra hwaits
    rw [h.busy lock hwaits] at hfree
    cases hfree
  have hqueue : s'.queue = Function.update s.queue lock [] := by
    rw [← hempty, Function.update_eq_self]
    rfl
  refine ⟨h.registered.keeps m rfl (.inr rfl) rfl,
    h.serial.enters m rfl rfl rfl fun j other d => h.noneInside hi rfl hfree,
    h.queued.changes h.registered m rfl hqueue (fun j => ?_) List.nodup_nil (by simp) rfl (fun k hk => ?_) ?_,
    Busy.changes (fun other _ => h.busy other) m rfl hqueue fun hne => absurd rfl hne⟩
  · simp [hempty]
  · exact ⟨Function.update_of_ne hk _ _, Function.update_of_ne hk _ _⟩
  · have horder : s'.order session = s.order session ++ [i] := Function.update_self _ _ _
    have hasked : s'.asked session = s.asked session ++ [i] := Function.update_self _ _ _
    rw [horder, hasked, List.append_nil]
    exact (h.queued.asked session).append (.refl _)

/-- A call that waits is cancelled. -/
theorem Inv.givesUp (h : Inv init s) (hi : s.At i session (.waiting lock) did) :
    Inv init { s.moveTo i .done with queue := Function.update s.queue lock ((s.queue lock).erase i) } := by
  set s' : Lifecycle K σ := { s.moveTo i .done with queue := Function.update s.queue lock ((s.queue lock).erase i) }
  have m : Moves s s' i session (.waiting lock) .done did did := moves_moveTo hi rfl
  refine ⟨h.registered.keeps m rfl (.inl rfl) rfl, h.serial.moves m rfl rfl (by simp) (by simp [LifecyclePhase.hadLock]),
    h.queued.changes h.registered m rfl rfl (fun j => ?_) ((h.queued.nodup lock).erase i) (by simp) rfl (fun _ _ => ⟨rfl, rfl⟩) ?_,
    Busy.changes (fun other _ => h.busy other) m rfl rfl fun hwaits => ?_⟩
  · rw [(h.queued.nodup lock).mem_erase_iff]
    simp
  · exact ((List.Sublist.refl _).append List.erase_sublist).trans (h.queued.fair_all (h.registered.keys hi rfl))
  · have hold : s.queue lock ≠ [] := fun hempty => hwaits (by rw [hempty]; rfl)
    obtain ⟨j, k, d, hj⟩ := isLocked_eq_true.1 (h.busy lock hold)
    refine isLocked_eq_true.2 ⟨j, k, d, m.other ?_ hj⟩
    rintro rfl
    cases (hj.unique hi).2.1

/-- The lock is released, and the first in the queue has it. -/
theorem Inv.unlocks (h : Inv init s) (hi : s.At i session (.inside lock) did) :
    Inv init ((s.moveTo i (.leaving lock)).handOver session lock) := by
  set left : Lifecycle K σ := s.moveTo i (.leaving lock)
  have m : Moves s left i session (.inside lock) (.leaving lock) did did := moves_moveTo hi rfl
  have hregistered : Registered left := h.registered.keeps m rfl (.inr rfl) rfl
  have hserial : Serial init left := h.serial.moves m rfl rfl (by simp) fun _ => rfl
  have hqueued : Queued left := h.queued.moves h.registered m (by simp) (by simp) rfl rfl rfl fun _ _ hmade => hmade
  have hbusy : ∀ other, other ≠ lock → left.queue other ≠ [] → left.isLocked other = true := by
    intro other hother hwaits
    obtain ⟨j, k, d, hj⟩ := isLocked_eq_true.1 (h.busy other hwaits)
    refine isLocked_eq_true.2 ⟨j, k, d, m.other ?_ hj⟩
    rintro rfl
    cases (hj.unique hi).2.1
    exact hother rfl
  have hnone : ∀ j other d, ¬ left.At j session (.inside other) d := by
    intro j other d hj
    rcases m.cases hj with ⟨-, -, hphase, -⟩ | ⟨hji, hj⟩
    · cases hphase
    · exact hji (Option.some.inj ((h.serial.last hj).symm.trans (h.serial.last hi)))
  rw [handOver]
  split
  · rename_i hempty
    refine ⟨hregistered, hserial, hqueued, fun other hwaits => hbusy other ?_ hwaits⟩
    rintro rfl
    exact hwaits hempty
  · rename_i j rest hfirst
    obtain ⟨k, d, hj⟩ := hqueued.queued.1 (hfirst ▸ List.mem_cons_self : j ∈ left.queue lock)
    obtain rfl := hregistered.sameSession hj rfl m.after rfl
    set s' : Lifecycle K σ := { left.enter j k lock with queue := Function.update left.queue lock rest }
    have hnodup := hqueued.nodup lock
    rw [hfirst, List.nodup_cons] at hnodup
    have next : Moves left s' j k (.waiting lock) (.inside lock) d d := moves_moveTo hj rfl
    refine ⟨hregistered.keeps next rfl (.inr rfl) rfl, hserial.enters next rfl rfl rfl hnone,
      hqueued.changes hregistered next rfl rfl (fun x => ?_) hnodup.2 (by simp) rfl (fun k' hk => ?_) ?_,
      Busy.changes hbusy next rfl rfl fun _ => isLocked_eq_true.2 ⟨j, k, d, next.after⟩⟩
    · by_cases hx : x = j
      · simp [hx, hnodup.1]
      · simp [hx, hfirst]
    · exact ⟨Function.update_of_ne hk _ _, rfl⟩
    · have horder : s'.order k = left.order k ++ [j] := Function.update_self _ _ _
      have hfair := hqueued.fair_all (hregistered.keys hj rfl)
      rw [horder, List.append_assoc, List.singleton_append, ← hfirst]
      exact hfair

theorem Inv.step (h : Inv init s) (hstep : s.step a = some s') : Inv init s' := by
  cases a with
  | call session =>
    cases hstep
    exact h.call session
  | search i =>
    simp only [Lifecycle.step] at hstep
    split at hstep
    next session did hi =>
      split at hstep
      · cases hstep
      next hfree =>
        cases hstep
        exact h.search hi (by simpa using hfree)
    next => cases hstep
  | sweep i session =>
    simp only [Lifecycle.step] at hstep
    split at hstep
    · cases hstep
      exact h.sweep session
    · cases hstep
  | find i =>
    simp only [Lifecycle.step] at hstep
    split at hstep
    next session did hi =>
      split at hstep
      next lock hfind =>
        cases hstep
        exact h.found hi hfind
      next hfind =>
        cases hstep
        exact h.missed hi hfind
    next => cases hstep
  | create i =>
    simp only [Lifecycle.step] at hstep
    split at hstep
    next session did hi =>
      cases hstep
      exact h.create hi
    next => cases hstep
  | lock i =>
    simp only [Lifecycle.step] at hstep
    split at hstep
    next session lock did hi =>
      cases hstep
      rw [ask]
      split
      next hlocked => exact h.waits hi hlocked
      next hfree => exact h.enters hi (Bool.eq_false_iff.2 hfree)
    next => cases hstep
  | work i effect =>
    simp only [Lifecycle.step] at hstep
    split at hstep
    next session lock did hi =>
      cases hstep
      exact h.work hi effect
    next => cases hstep
  | unlock i =>
    simp only [Lifecycle.step] at hstep
    split at hstep
    next session lock did hi =>
      cases hstep
      exact h.unlocks hi
    next => cases hstep
  | drop i =>
    simp only [Lifecycle.step] at hstep
    split at hstep
    next session lock did hi =>
      cases hstep
      exact h.ends hi (by simp)
    next session lock did hi =>
      cases hstep
      exact h.ends hi (by simp)
    next session lock did hi =>
      cases hstep
      exact h.givesUp hi
    next => cases hstep

theorem inv_run {actions : List (LifecycleAction K σ)} (hrun : actions.foldlM step (start init) = some s) : Inv init s := by
  refine @StepSystem.run_invariant_of_partial _ _ _ _ _ (fun _ => Inv init) (inv_start init) ?_ _ hrun
  intro _ a s s' h hstep
  exact h.step hstep

/-- **The calls of a session take effect one after the other**: no two are inside, and the session is what they have done,
each call's effects together, in the order in which they got the lock. -/
theorem lifecycle_serial (init : K → σ) (actions : List (LifecycleAction K σ)) (s : Lifecycle K σ)
    (hrun : actions.foldlM step (start init) = some s) :
    (∀ i j session lock lock' did did', s.At i session (.inside lock) did → s.At j session (.inside lock') did' → i = j) ∧
      ∀ k, (s.order k).Nodup ∧ s.store k = (s.order k).foldl (fun x i => apply (s.done i) x) (init k) ∧
        ∀ i phase did, s.At i k phase did → i ∉ s.order k → did = [] := by
  have h := (inv_run hrun).serial
  refine ⟨?_, fun k => ⟨h.nodup k, h.store k, fun i phase did hi hnot => h.idle hi hnot⟩⟩
  intro i j session lock lock' did did' hi hj
  have hlast := h.last hi
  rw [h.last hj, Option.some.injEq] at hlast
  exact hlast.symm

/-! Two calls share a lock, for which the second waits and which dies with it; a third makes one of its own. -/

def threeCalls : List (LifecycleAction String (List Nat)) :=
  [.call "session", .call "session", .search 0, .find 0, .create 0, .lock 0, .work 0 (· ++ [1]), .search 1, .find 1, .lock 1,
    .work 0 (· ++ [2]), .unlock 0, .drop 0, .work 1 (· ++ [3]), .unlock 1, .drop 1, .call "session", .search 2,
    .sweep 2 "session", .find 2, .create 2, .lock 2, .work 2 (· ++ [4])]

theorem threeCalls_run : ∃ s, threeCalls.foldlM step (start fun _ => []) = some s ∧ s.order "session" = [0, 1, 2] ∧
    s.store "session" = [1, 2, 3, 4] ∧ s.registry.made.length = 2 := by
  have hcheck : (threeCalls.foldlM step (start fun _ => [])).any (fun s => s.order "session" == [0, 1, 2] &&
      s.store "session" == [1, 2, 3, 4] && s.registry.made.length == 2) = true := by decide +kernel
  obtain ⟨s, hrun, hends⟩ := (Option.any_eq_true _ _).1 hcheck
  simp only [Bool.and_eq_true, beq_iff_eq] at hends
  exact ⟨s, hrun, hends.1.1, hends.1.2, hends.2⟩

theorem lifecycle_serial_three : ∃ s, threeCalls.foldlM step (start fun _ => []) = some s ∧ s.registry.made.length = 2 ∧
    [1, 2, 3, 4] = [0, 1, 2].foldl (fun x i => apply (s.done i) x) [] := by
  obtain ⟨s, hrun, horder, hstore, hmade⟩ := threeCalls_run
  obtain ⟨-, hserial, -⟩ := (lifecycle_serial (fun _ => []) threeCalls s hrun).2 "session"
  rw [horder, hstore] at hserial
  exact ⟨s, hrun, hmade, hserial⟩

/-- **A call waits for its own session only, and none is overtaken**: whoever waits does so while another call of the session
has the lock, whoever asks for it while none has it gets it, and those that got it and those that wait are in the order in
which they asked. -/
theorem lifecycle_waits_own (init : K → σ) (actions : List (LifecycleAction K σ)) (s : Lifecycle K σ)
    (hrun : actions.foldlM step (start init) = some s) :
    (∀ i session lock did, s.At i session (.waiting lock) did → ∃ j did', j ≠ i ∧ s.At j session (.inside lock) did') ∧
      (∀ i session lock did, s.At i session (.found lock) did → (∀ j other did', ¬ s.At j session (.inside other) did') →
        ∃ s', s.step (.lock i) = some s' ∧ s'.At i session (.inside lock) did) ∧
      ∀ session, (s.order session).Sublist (s.asked session) ∧ ∀ i lock did, s.At i session (.waiting lock) did →
        i ∈ s.queue lock ∧ (s.order session ++ s.queue lock).Sublist (s.asked session) := by
  have h := inv_run hrun
  refine ⟨?_, ?_, ?_⟩
  · intro i session lock did hi
    obtain ⟨j, k, did', hj⟩ := isLocked_eq_true.1 (h.busy lock (List.ne_nil_of_mem (h.queued.queued.2 ⟨session, did, hi⟩)))
    obtain rfl := h.registered.sameSession hj rfl hi rfl
    refine ⟨j, did', ?_, hj⟩
    rintro rfl
    cases (hj.unique hi).2.1
  · intro i session lock did hi hnone
    have hfree : s.isLocked lock = false := by
      rw [← Bool.not_eq_true, isLocked_eq_true]
      rintro ⟨j, k, did', hj⟩
      obtain rfl := h.registered.sameSession hj rfl hi rfl
      exact hnone j lock did' hj
    refine ⟨s.ask i session lock, ?_, ?_⟩
    · have htask : s.tasks[i]? = some ⟨session, .found lock, did⟩ := hi
      simp only [step, htask]
    · have hentered : s.ask i session lock =
          { s.enter i session lock with asked := Function.update s.asked session (s.asked session ++ [i]) } :=
        if_neg (by rw [Bool.not_eq_true]; exact hfree)
      rw [hentered]
      exact (moves_moveTo hi rfl : Moves s _ i session (.found lock) (.inside lock) did did).after
  · refine fun session => ⟨h.queued.asked session, ?_⟩
    intro i lock did hi
    exact ⟨h.queued.queued.2 ⟨session, did, hi⟩, h.queued.fair_all (h.registered.keys hi rfl)⟩

/-- The second call waits while the first works. -/
theorem lifecycle_waits_own_second : ∃ s session did, (threeCalls.take 10).foldlM step (start fun _ => []) = some s ∧
    s.At 1 session (.waiting 0) did ∧ ∃ j did', j ≠ 1 ∧ s.At j session (.inside 0) did' := by
  have hcheck : ((threeCalls.take 10).foldlM step (start fun _ => [])).any (fun s =>
      (s.tasks[1]?).any fun task => task.phase = .waiting 0) = true := by decide +kernel
  obtain ⟨s, hrun, hends⟩ := (Option.any_eq_true _ _).1 hcheck
  obtain ⟨⟨session, phase, did⟩, htask, hphase⟩ := (Option.any_eq_true _ _).1 hends
  have hwaits : s.At 1 session (.waiting 0) did := by
    rw [decide_eq_true_eq] at hphase
    exact hphase ▸ htask
  exact ⟨s, session, did, hrun, hwaits, (lifecycle_waits_own (fun _ => []) _ s hrun).1 1 session 0 did hwaits⟩

end Lifecycle

end VgiDatafusion
