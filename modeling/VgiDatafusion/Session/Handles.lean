import Mathlib.Logic.Function.Basic
import VgiDatafusion.Library.StepSystem
import VgiDatafusion.Session.Options

/-!
# One attach handle a catalog (lib.rs:146-161, 375-400)

| here | there |
| --- | --- |
| `Handles.attached` | `VgiConnection::attached`, shared by the clones of a connection |
| `Handles.phase` | where each call of `VgiConnection::attach` stands |
| `lookup`, `store` | the two critical sections of a call |
| `reply`, `fail` | `client.attach`, made between them without the lock; the worker's token is a new one each time |

The handle is the worker's session token: a second one starts a session in which what the first accumulated is missing.
A call that finds no handle asks for one and stores it without looking again, so two calls that both found none return two
tokens (`two_calls_two_tokens`). All calls return one handle exactly in those runs where no call stores over another's
(`one_handle_iff`).
-/
namespace VgiDatafusion

open StepSystem

variable {O : Type}

/-- The handle of an attached catalog; the worker gives each a token of its own. -/
structure AttachedCatalog (O : Type) where
  catalog : Chars
  options : O
  token : Nat
  deriving DecidableEq

/-- Where a call of `VgiConnection::attach` (`lib.rs:380-400`) stands. -/
inductive AttachPhase (O : Type)
  | looking
  | asking (options : O)
  | holding (handle : AttachedCatalog O)
  | returned (handle : AttachedCatalog O)
  | failed
  deriving DecidableEq

/-- The calls there will ever be, and the options of the clone each is made on. -/
structure AttachCalls (O : Type) where
  catalog : Nat → Chars
  attachOptions : Nat → Chars → Option O

/-- The map `attached` that the clones of a connection share, and the calls. -/
structure Handles (O : Type) where
  attached : Chars → Option (AttachedCatalog O)
  phase : Nat → AttachPhase O
  next : Nat

inductive AttachAction
  | lookup (i : Nat)
  | reply (i : Nat)
  | fail (i : Nat)
  | store (i : Nat)
  deriving DecidableEq

namespace Handles

/-- No catalog is attached and no call has begun. -/
def init : Handles O := { attached := fun _ => none, phase := fun _ => .looking, next := 0 }

def setPhase (s : Handles O) (i : Nat) (phase : AttachPhase O) : Handles O :=
  { s with phase := Function.update s.phase i phase }

variable [Inhabited O] (calls : AttachCalls O)

/-- The first critical section (`lib.rs:385-389`). -/
def lookup (i : Nat) (s : Handles O) : Handles O :=
  match s.attached (calls.catalog i) with
  | some handle => s.setPhase i (.returned handle)
  | none => s.setPhase i (.asking ((calls.attachOptions i (calls.catalog i)).getD default))

omit [Inhabited O] in
/-- The worker's answer (`lib.rs:395`), for which no lock is held. -/
def reply (i : Nat) (options : O) (s : Handles O) : Handles O :=
  { s.setPhase i (.holding { catalog := calls.catalog i, options, token := s.next }) with next := s.next + 1 }

omit [Inhabited O] in
/-- The second critical section (`lib.rs:396-398`); it does not look again. -/
def store (i : Nat) (handle : AttachedCatalog O) (s : Handles O) : Handles O :=
  { s.setPhase i (.returned handle) with attached := Function.update s.attached (calls.catalog i) (some handle) }

def step (s : Handles O) : AttachAction → Option (Handles O)
  | .lookup i => match s.phase i with
    | .looking => some (s.lookup calls i)
    | _ => none
  | .reply i => match s.phase i with
    | .asking options => some (s.reply calls i options)
    | _ => none
  | .fail i => match s.phase i with
    | .asking _ => some (s.setPhase i .failed)
    | _ => none
  | .store i => match s.phase i with
    | .holding handle => some (s.store calls i handle)
    | _ => none

/-- Every call of a catalog that has returned returned the same handle. -/
def OneHandle (s : Handles O) : Prop :=
  ∀ i j hi hj, calls.catalog i = calls.catalog j → s.phase i = .returned hi → s.phase j = .returned hj → hi = hj

/-- Along the run, no call stores a handle where one is. -/
def FreshStores : Handles O → List AttachAction → Prop
  | _, [] => True
  | s, a :: rest => (∀ i, a = .store i → s.attached (calls.catalog i) = none) ∧
    ∀ s', step calls s a = some s' → FreshStores s' rest

variable {calls : AttachCalls O} {s s' : Handles O} {a : AttachAction}

/-- What a step can do. -/
theorem step_cases (h : step calls s a = some s') :
    (∃ i handle, a = .lookup i ∧ s.phase i = .looking ∧ s.attached (calls.catalog i) = some handle ∧
      s' = s.setPhase i (.returned handle)) ∨
    (∃ i options, a = .lookup i ∧ s.phase i = .looking ∧ s' = s.setPhase i (.asking options)) ∨
    (∃ i options, a = .reply i ∧ s.phase i = .asking options ∧ s' = s.reply calls i options) ∨
    (∃ i options, a = .fail i ∧ s.phase i = .asking options ∧ s' = s.setPhase i .failed) ∨
    ∃ i handle, a = .store i ∧ s.phase i = .holding handle ∧ s' = s.store calls i handle := by
  cases a with
  | lookup i =>
    simp only [step] at h
    split at h
    · rename_i hphase
      cases h
      simp only [lookup]
      split
      · rename_i handle hattached
        exact .inl ⟨i, handle, rfl, hphase, hattached, rfl⟩
      · exact .inr (.inl ⟨i, _, rfl, hphase, rfl⟩)
    · cases h
  | reply i =>
    simp only [step] at h
    split at h
    · rename_i options hphase
      cases h
      exact .inr (.inr (.inl ⟨i, options, rfl, hphase, rfl⟩))
    · cases h
  | fail i =>
    simp only [step] at h
    split at h
    · rename_i options hphase
      cases h
      exact .inr (.inr (.inr (.inl ⟨i, options, rfl, hphase, rfl⟩)))
    · cases h
  | store i =>
    simp only [step] at h
    split at h
    · rename_i handle hphase
      cases h
      exact .inr (.inr (.inr (.inr ⟨i, handle, rfl, hphase, rfl⟩)))
    · cases h

/-! ## What has returned -/

/-- A call that has returned is over. -/
theorem returned_step (h : step calls s a = some s') {j : Nat} {handle : AttachedCatalog O}
    (hj : s.phase j = .returned handle) : s'.phase j = .returned handle := by
  have hset : ∀ i phase, s.phase i ≠ .returned handle → Function.update s.phase i phase j = .returned handle := by
    intro i phase hi
    rw [Function.update_of_ne (by rintro rfl; exact hi hj)]
    exact hj
  rcases step_cases h with ⟨i, _, -, hphase, -, rfl⟩ | ⟨i, _, -, hphase, rfl⟩ | ⟨i, _, -, hphase, rfl⟩ |
      ⟨i, _, -, hphase, rfl⟩ | ⟨i, _, -, hphase, rfl⟩ <;>
    exact hset i _ (by simp [hphase])

theorem returned_run {actions : List AttachAction} {j : Nat} {handle : AttachedCatalog O} :
    ∀ {s s' : Handles O}, actions.foldlM (step calls) s = some s' → s.phase j = .returned handle →
      s'.phase j = .returned handle := by
  induction actions with
  | nil =>
    intro s s' hrun hj
    cases hrun
    exact hj
  | cons a actions ih =>
    intro s s' hrun hj
    rw [List.foldlM_cons] at hrun
    obtain ⟨next, hnext, hrun⟩ := Option.bind_eq_some_iff.1 hrun
    exact ih hrun (returned_step hnext hj)

/-! ## Tokens -/

/-- Where a handle can be: in a call that holds it, in a call that returned it, in the map. -/
def Known (s : Handles O) (handle : AttachedCatalog O) : Prop :=
  (∃ i, s.phase i = .holding handle) ∨ (∃ i, s.phase i = .returned handle) ∨ ∃ catalog, s.attached catalog = some handle

structure Inv (calls : AttachCalls O) (s : Handles O) : Prop where
  issued : ∀ handle, s.Known handle → handle.token < s.next
  /-- The token a call holds is nowhere else. -/
  sole : ∀ i handle, s.phase i = .holding handle →
    (∀ j, s.phase j = .holding handle → j = i) ∧ (∀ j, s.phase j ≠ .returned handle) ∧
      ∀ catalog, s.attached catalog ≠ some handle
  stored : ∀ catalog handle, s.attached catalog = some handle → ∃ i, calls.catalog i = catalog ∧ s.phase i = .returned handle

omit [Inhabited O] in
theorem inv_init : Inv calls (init : Handles O) where
  issued handle h := by rcases h with ⟨i, h⟩ | ⟨i, h⟩ | ⟨catalog, h⟩ <;> simp [init] at h
  sole i handle h := by simp [init] at h
  stored catalog handle h := by simp [init] at h

omit [Inhabited O] in
/-- A call that was not holding a handle goes on without one, or returns the one of the map. -/
theorem Inv.setPhase (h : Inv calls s) {i : Nat} {phase : AttachPhase O}
    (hbefore : ∀ handle, s.phase i ≠ .holding handle ∧ s.phase i ≠ .returned handle)
    (hholding : ∀ handle, phase ≠ .holding handle)
    (hreturned : ∀ handle, phase = .returned handle → s.attached (calls.catalog i) = some handle) :
    Inv calls (s.setPhase i phase) := by
  have hheld : ∀ j handle, (s.setPhase i phase).phase j = .holding handle → s.phase j = .holding handle := by
    intro j handle hj
    by_cases hij : j = i
    · subst hij
      simp only [Handles.setPhase, Function.update_self] at hj
      exact absurd hj (hholding handle)
    · simpa only [Handles.setPhase, Function.update_of_ne hij] using hj
  have hret : ∀ j handle, (s.setPhase i phase).phase j = .returned handle →
      s.phase j = .returned handle ∨ ∃ catalog, s.attached catalog = some handle := by
    intro j handle hj
    by_cases hij : j = i
    · subst hij
      simp only [Handles.setPhase, Function.update_self] at hj
      exact .inr ⟨_, hreturned handle hj⟩
    · exact .inl (by simpa only [Handles.setPhase, Function.update_of_ne hij] using hj)
  refine ⟨?_, ?_, ?_⟩
  · rintro handle (⟨j, hj⟩ | ⟨j, hj⟩ | hmap)
    · exact h.issued handle (.inl ⟨j, hheld j handle hj⟩)
    · rcases hret j handle hj with hj | hmap
      · exact h.issued handle (.inr (.inl ⟨j, hj⟩))
      · exact h.issued handle (.inr (.inr hmap))
    · exact h.issued handle (.inr (.inr hmap))
  · intro k handle hk
    obtain ⟨hsole, hnot, hmap⟩ := h.sole k handle (hheld k handle hk)
    refine ⟨fun j hj => hsole j (hheld j handle hj), fun j hj => ?_, hmap⟩
    rcases hret j handle hj with hj | ⟨catalog, hcatalog⟩
    · exact hnot j hj
    · exact hmap catalog hcatalog
  · intro catalog handle hcatalog
    obtain ⟨j, hj, hphase⟩ := h.stored catalog handle hcatalog
    have hij : j ≠ i := by
      rintro rfl
      exact (hbefore handle).2 hphase
    exact ⟨j, hj, by simpa only [Handles.setPhase, Function.update_of_ne hij] using hphase⟩

omit [Inhabited O] in
/-- The new token is nowhere yet. -/
theorem Inv.reply (h : Inv calls s) {i : Nat} {options : O} (hphase : s.phase i = .asking options) :
    Inv calls (s.reply calls i options) := by
  have hfresh : ∀ handle, s.Known handle → handle ≠ { catalog := calls.catalog i, options, token := s.next } := by
    rintro handle hknown rfl
    exact absurd (h.issued _ hknown) (Nat.lt_irrefl _)
  have hother : ∀ j handle, j ≠ i → ((s.reply calls i options).phase j = handle ↔ s.phase j = handle) := by
    intro j handle hij
    simp only [Handles.reply, Handles.setPhase, Function.update_of_ne hij]
  have hself : (s.reply calls i options).phase i =
      .holding { catalog := calls.catalog i, options, token := s.next } := by
    simp only [Handles.reply, Handles.setPhase, Function.update_self]
  have hreturned : ∀ j handle, (s.reply calls i options).phase j = .returned handle → s.phase j = .returned handle := by
    intro j handle hj
    by_cases hij : j = i
    · subst hij
      rw [hself] at hj
      cases hj
    · exact (hother j _ hij).1 hj
  refine ⟨?_, ?_, ?_⟩
  · rintro handle (⟨j, hj⟩ | ⟨j, hj⟩ | hmap)
    · by_cases hij : j = i
      · subst hij
        rw [hself] at hj
        cases hj
        exact Nat.lt_succ_self _
      · exact Nat.lt_succ_of_lt (h.issued handle (.inl ⟨j, (hother j _ hij).1 hj⟩))
    · exact Nat.lt_succ_of_lt (h.issued handle (.inr (.inl ⟨j, hreturned j handle hj⟩)))
    · exact Nat.lt_succ_of_lt (h.issued handle (.inr (.inr hmap)))
  · intro k handle hk
    by_cases hki : k = i
    · subst hki
      rw [hself] at hk
      cases hk
      refine ⟨fun j hj => ?_, fun j hj => ?_, fun catalog hcatalog => ?_⟩
      · by_contra hij
        exact hfresh _ (.inl ⟨j, (hother j _ hij).1 hj⟩) rfl
      · exact hfresh _ (.inr (.inl ⟨j, hreturned j _ hj⟩)) rfl
      · exact hfresh _ (.inr (.inr ⟨catalog, hcatalog⟩)) rfl
    · have hold := (hother k _ hki).1 hk
      obtain ⟨hsole, hnot, hmap⟩ := h.sole k handle hold
      refine ⟨fun j hj => ?_, fun j hj => hnot j (hreturned j handle hj), hmap⟩
      by_cases hij : j = i
      · subst hij
        rw [hself] at hj
        cases hj
        exact absurd rfl (hfresh _ (.inl ⟨k, hold⟩))
      · exact hsole j ((hother j _ hij).1 hj)
  · intro catalog handle hcatalog
    obtain ⟨j, hj, hold⟩ := h.stored catalog handle hcatalog
    have hij : j ≠ i := by
      rintro rfl
      rw [hphase] at hold
      cases hold
    exact ⟨j, hj, (hother j _ hij).2 hold⟩

omit [Inhabited O] in
theorem Inv.store (h : Inv calls s) {i : Nat} {handle : AttachedCatalog O} (hphase : s.phase i = .holding handle) :
    Inv calls (s.store calls i handle) := by
  have hother : ∀ j phase, j ≠ i → ((s.store calls i handle).phase j = phase ↔ s.phase j = phase) := by
    intro j phase hij
    simp only [Handles.store, Handles.setPhase, Function.update_of_ne hij]
  have hself : (s.store calls i handle).phase i = .returned handle := by
    simp only [Handles.store, Handles.setPhase, Function.update_self]
  have hheld : ∀ j held, (s.store calls i handle).phase j = .holding held → j ≠ i ∧ s.phase j = .holding held := by
    intro j held hj
    have hij : j ≠ i := by
      rintro rfl
      rw [hself] at hj
      cases hj
    exact ⟨hij, (hother j _ hij).1 hj⟩
  have hreturned : ∀ j r, (s.store calls i handle).phase j = .returned r → s.phase j = .returned r ∨ r = handle := by
    intro j r hj
    by_cases hij : j = i
    · subst hij
      rw [hself] at hj
      cases hj
      exact .inr rfl
    · exact .inl ((hother j _ hij).1 hj)
  have hmap : ∀ catalog r, (s.store calls i handle).attached catalog = some r → s.attached catalog = some r ∨ r = handle := by
    intro catalog r hcatalog
    by_cases hc : catalog = calls.catalog i
    · subst hc
      simp only [Handles.store, Function.update_self, Option.some.injEq] at hcatalog
      exact .inr hcatalog.symm
    · exact .inl (by simpa only [Handles.store, Function.update_of_ne hc] using hcatalog)
  have hknown := h.issued handle (.inl ⟨i, hphase⟩)
  refine ⟨?_, ?_, ?_⟩
  · rintro r (⟨j, hj⟩ | ⟨j, hj⟩ | ⟨catalog, hcatalog⟩)
    · exact h.issued r (.inl ⟨j, (hheld j r hj).2⟩)
    · rcases hreturned j r hj with hold | rfl
      · exact h.issued r (.inr (.inl ⟨j, hold⟩))
      · exact hknown
    · rcases hmap catalog r hcatalog with hold | rfl
      · exact h.issued r (.inr (.inr ⟨catalog, hold⟩))
      · exact hknown
  · intro k held hk
    obtain ⟨hki, hold⟩ := hheld k held hk
    have hne : held ≠ handle := by
      rintro rfl
      exact hki ((h.sole i held hphase).1 k hold)
    obtain ⟨hsole, hnot, hnone⟩ := h.sole k held hold
    refine ⟨fun j hj => hsole j (hheld j held hj).2, fun j hj => ?_, fun catalog hcatalog => ?_⟩
    · rcases hreturned j held hj with hj | hj
      · exact hnot j hj
      · exact hne hj
    · rcases hmap catalog held hcatalog with hcatalog | hcatalog
      · exact hnone catalog hcatalog
      · exact hne hcatalog
  · intro catalog r hcatalog
    by_cases hc : catalog = calls.catalog i
    · subst hc
      simp only [Handles.store, Function.update_self, Option.some.injEq] at hcatalog
      subst hcatalog
      exact ⟨i, rfl, hself⟩
    · have hold : s.attached catalog = some r := by simpa only [Handles.store, Function.update_of_ne hc] using hcatalog
      obtain ⟨j, hj, hreturned⟩ := h.stored catalog r hold
      have hij : j ≠ i := by
        rintro rfl
        exact hc hj.symm
      exact ⟨j, hj, (hother j _ hij).2 hreturned⟩

theorem inv_step (h : Inv calls s) (hstep : step calls s a = some s') : Inv calls s' := by
  rcases step_cases hstep with ⟨i, handle, -, hphase, hattached, rfl⟩ | ⟨i, _, -, hphase, rfl⟩ | ⟨i, _, -, hphase, rfl⟩ |
      ⟨i, _, -, hphase, rfl⟩ | ⟨i, _, -, hphase, rfl⟩
  · refine h.setPhase (by simp [hphase]) (by simp) fun found hfound => ?_
    cases hfound
    exact hattached
  · exact h.setPhase (by simp [hphase]) (by simp) (by simp)
  · exact h.reply hphase
  · exact h.setPhase (by simp [hphase]) (by simp) (by simp)
  · exact h.store hphase

/-! ## One handle -/

/-- What was returned for a catalog is what the map holds for it. -/
def Current (calls : AttachCalls O) (s : Handles O) : Prop :=
  ∀ i handle, s.phase i = .returned handle → s.attached (calls.catalog i) = some handle

omit [Inhabited O] in
theorem Current.oneHandle (h : Current calls s) : s.OneHandle calls := by
  intro i j hi hj hcatalog hphasei hphasej
  have hfirst := h i hi hphasei
  rw [hcatalog, h j hj hphasej] at hfirst
  exact (Option.some.inj hfirst).symm

theorem current_step (h : Current calls s) (hfree : ∀ i, a = .store i → s.attached (calls.catalog i) = none)
    (hstep : step calls s a = some s') : Current calls s' := by
  have hset : ∀ i (phase : AttachPhase O),
      (∀ handle, phase = .returned handle → s.attached (calls.catalog i) = some handle) →
      ∀ j handle, Function.update s.phase i phase j = .returned handle → s.attached (calls.catalog j) = some handle := by
    intro i phase hphase j handle hj
    by_cases hij : j = i
    · subst hij
      rw [Function.update_self] at hj
      exact hphase handle hj
    · rw [Function.update_of_ne hij] at hj
      exact h j handle hj
  rcases step_cases hstep with ⟨i, handle, -, -, hattached, rfl⟩ | ⟨i, _, -, -, rfl⟩ | ⟨i, _, -, -, rfl⟩ |
      ⟨i, _, -, -, rfl⟩ | ⟨i, handle, rfl, -, rfl⟩
  · exact hset i _ fun found hfound => by cases hfound; exact hattached
  · exact hset i _ (by simp)
  · exact hset i _ (by simp)
  · exact hset i _ (by simp)
  · intro j found hj
    by_cases hij : j = i
    · subst hij
      simp only [store, setPhase, Function.update_self, AttachPhase.returned.injEq] at hj
      simp only [store, Function.update_self, hj]
    · simp only [store, setPhase, Function.update_of_ne hij] at hj
      have hold := h j found hj
      have hne : calls.catalog j ≠ calls.catalog i := by
        intro hcatalog
        rw [hcatalog, hfree i rfl] at hold
        cases hold
      simpa only [store, Function.update_of_ne hne] using hold

theorem current_run : ∀ {actions : List AttachAction} {s s' : Handles O}, Current calls s → FreshStores calls s actions →
    actions.foldlM (step calls) s = some s' → Current calls s'
  | [], _, _, h, _, hrun => by
    cases hrun
    exact h
  | a :: actions, s, s', h, hfresh, hrun => by
    rw [List.foldlM_cons] at hrun
    obtain ⟨next, hnext, hrun⟩ := Option.bind_eq_some_iff.1 hrun
    exact current_run (current_step h hfresh.1 hnext) (hfresh.2 next hnext) hrun

/-- A handle stored over another: both have been returned. -/
theorem not_oneHandle_of_store (h : Inv calls s) {i : Nat} {other : AttachedCatalog O}
    (hother : s.attached (calls.catalog i) = some other) (hstep : step calls s (.store i) = some s') :
    ∃ j handle, calls.catalog j = calls.catalog i ∧ handle ≠ other ∧ s'.phase i = .returned handle ∧
      s'.phase j = .returned other := by
  obtain ⟨j, hj, hreturned⟩ := h.stored _ _ hother
  have hkept := returned_step hstep hreturned
  simp only [step] at hstep
  split at hstep
  · rename_i handle hphase
    cases hstep
    refine ⟨j, handle, hj, ?_, by simp [store, setPhase], hkept⟩
    rintro rfl
    exact (h.sole i handle hphase).2.2 _ hother
  · cases hstep

theorem freshStores_of_oneHandle : ∀ {actions : List AttachAction} {s s' : Handles O}, Inv calls s →
    actions.foldlM (step calls) s = some s' → s'.OneHandle calls → FreshStores calls s actions
  | [], _, _, _, _, _ => trivial
  | a :: actions, s, s', h, hrun, hone => by
    rw [List.foldlM_cons] at hrun
    obtain ⟨next, hnext, hrest⟩ := Option.bind_eq_some_iff.1 hrun
    refine ⟨?_, fun found hfound => ?_⟩
    · rintro i rfl
      by_contra hsome
      obtain ⟨other, hother⟩ := Option.ne_none_iff_exists'.1 hsome
      obtain ⟨j, handle, hcatalog, hne, hi, hj⟩ := not_oneHandle_of_store h hother hnext
      exact hne (hone i j handle other hcatalog.symm (returned_run hrest hi) (returned_run hrest hj))
    · rw [hnext] at hfound
      cases hfound
      exact freshStores_of_oneHandle (inv_step h hnext) hrest hone

variable (calls) in
/-- **All calls of a catalog return one handle exactly in the runs in which no call stores its handle where another's
already is.** -/
theorem one_handle_iff {actions : List AttachAction} (hrun : actions.foldlM (step calls) init = some s) :
    s.OneHandle calls ↔ FreshStores calls init actions := by
  have hstart : Current calls (init : Handles O) := fun i handle h => by simp [init] at h
  constructor
  · exact freshStores_of_oneHandle inv_init hrun
  · exact fun hfresh => (current_run hstart hfresh hrun).oneHandle

/-- Two calls of one catalog. -/
def twoCalls : AttachCalls Unit := { catalog := fun _ => "accumulate".toList, attachOptions := fun _ _ => none }

/-- The second call looks up after the first has stored. -/
def inTurn : List AttachAction := [.lookup 0, .reply 0, .store 0, .lookup 1]

theorem one_handle_in_turn : ∃ s, inTurn.foldlM (step twoCalls) init = some s ∧
    (s.OneHandle twoCalls ↔ FreshStores twoCalls init inTurn) :=
  ⟨_, rfl, one_handle_iff twoCalls rfl⟩

/-- Both calls look up before either has stored: two tokens are returned. -/
theorem two_calls_two_tokens : ∃ s : Handles Unit,
    [.lookup 0, .lookup 1, .reply 0, .reply 1, .store 0, .store 1].foldlM (step twoCalls) init = some s ∧
      ¬ s.OneHandle twoCalls := by
  refine ⟨_, rfl, fun h => ?_⟩
  have hsame := h 0 1 ⟨"accumulate".toList, (), 0⟩ ⟨"accumulate".toList, (), 1⟩ rfl rfl rfl
  cases hsame

end Handles

end VgiDatafusion
