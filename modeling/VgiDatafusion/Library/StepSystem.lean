import Mathlib.Algebra.GroupWithZero.Nat
import Mathlib.Logic.Relation

/-!
# Runs of a step function and of a step relation

A run of a deterministic machine is a fold of its step function over the calls it receives; an
invariant may also speak about the calls made so far. Where not every call is possible in every state
the step is partial, and the reachable states are those after the calls that were possible and met a
condition on the state before them.
-/
namespace StepSystem

variable {σ α : Type}

/-- An invariant of states and of the calls that led to them. -/
theorem run_invariant {step : σ → α → σ} {init : σ} {Inv : List α → σ → Prop} (hinit : Inv [] init)
    (hstep : ∀ done a s, Inv done s → Inv (done ++ [a]) (step s a)) (calls : List α) :
    Inv calls (calls.foldl step init) := by
  suffices h : ∀ (calls done : List α) (s : σ), Inv done s → Inv (done ++ calls) (calls.foldl step s) by
    simpa using h calls [] init hinit
  intro calls
  induction calls with
  | nil => intro done s h; simpa using h
  | cons a calls ih =>
    intro done s h
    have hnext := ih (done ++ [a]) (step s a) (hstep done a s h)
    simpa using hnext

/-- A fold whose every step is a run of a relation is a run of it. -/
theorem foldl_reflTransGen {R : σ → σ → Prop} {f : σ → α → σ} (hf : ∀ s a, Relation.ReflTransGen R s (f s a))
    (l : List α) (s : σ) : Relation.ReflTransGen R s (l.foldl f s) := by
  induction l generalizing s with
  | nil => exact .refl
  | cons a l ih => exact (hf s a).trans (ih (f s a))

/-- What no step changes, no run changes. -/
theorem run_frame {step : σ → α → σ} {β : Type} {view : σ → β} {P : σ → Prop}
    (hkeep : ∀ s a, P s → P (step s a)) (hview : ∀ s a, P s → view (step s a) = view s) :
    ∀ (calls : List α) (s : σ), P s → view (calls.foldl step s) = view s
  | [], _, _ => rfl
  | a :: calls, s, h => (run_frame hkeep hview calls (step s a) (hkeep s a h)).trans (hview s a h)

/-- The same where a call may not be possible. -/
theorem run_invariant_of_partial {step : σ → α → Option σ} {init s : σ} {Inv : List α → σ → Prop} (hinit : Inv [] init)
    (hstep : ∀ done a s s', Inv done s → step s a = some s' → Inv (done ++ [a]) s') {calls : List α}
    (hrun : calls.foldlM step init = some s) : Inv calls s := by
  suffices h : ∀ (calls done : List α) (s s' : σ), Inv done s → calls.foldlM step s = some s' → Inv (done ++ calls) s' by
    simpa using h calls [] init s hinit hrun
  intro calls
  induction calls with
  | nil =>
    intro done s s' h hrun
    cases hrun
    simpa using h
  | cons a calls ih =>
    intro done s s' h hrun
    rw [List.foldlM_cons] at hrun
    obtain ⟨next, hnext, hrun⟩ := Option.bind_eq_some_iff.1 hrun
    have hlast := ih (done ++ [a]) next s' (hstep done a s next h hnext) hrun
    simpa using hlast

/-- What does not hold at first and holds in the end came with one of the calls. -/
theorem run_first {step : σ → α → Option σ} {P : σ → Prop} {calls : List α} {init s : σ} (hinit : ¬ P init)
    (hrun : calls.foldlM step init = some s) (hs : P s) : ∃ before a after mid next, calls = before ++ a :: after ∧
      before.foldlM step init = some mid ∧ step mid a = some next ∧ ¬ P mid ∧ P next := by
  induction calls generalizing init with
  | nil =>
    cases hrun
    exact absurd hs hinit
  | cons a calls ih =>
    rw [List.foldlM_cons] at hrun
    obtain ⟨next, hnext, hrun⟩ := Option.bind_eq_some_iff.1 hrun
    by_cases hP : P next
    · exact ⟨[], a, calls, init, next, rfl, rfl, hnext, hinit, hP⟩
    · obtain ⟨before, b, after, mid, last, rfl, hbefore, hb, hmid, hlast⟩ := ih hP hrun
      refine ⟨a :: before, b, after, mid, last, rfl, ?_, hb, hmid, hlast⟩
      rw [List.foldlM_cons, hnext]
      exact hbefore

/-- Reached by possible calls that were all `ok` in the state before them. -/
inductive Reachable (step : σ → α → Option σ) (ok : σ → α → Prop) (init : σ) : σ → Prop
  | init : Reachable step ok init init
  | step {s s' : σ} {a : α} : Reachable step ok init s → ok s a → step s a = some s' → Reachable step ok init s'

theorem Reachable.invariant {step : σ → α → Option σ} {ok : σ → α → Prop} {init : σ} {Inv : σ → Prop}
    (hinit : Inv init) (hstep : ∀ s a s', Inv s → ok s a → step s a = some s' → Inv s') {s : σ}
    (h : Reachable step ok init s) : Inv s := by
  induction h with
  | init => exact hinit
  | step _ hok hs ih => exact hstep _ _ _ ih hok hs

/-- A list of calls that are all possible and `ok` leads to a reachable state. -/
theorem Reachable.of_run {step : σ → α → Option σ} {ok : σ → α → Prop} {init : σ} :
    ∀ (calls : List α) {s s' : σ}, Reachable step ok init s → (∀ a ∈ calls, ∀ s, ok s a) →
      calls.foldlM step s = some s' → Reachable step ok init s'
  | [], _, _, h, _, hrun => by
    cases hrun
    exact h
  | a :: calls, s, s', h, hok, hrun => by
    rw [List.foldlM_cons] at hrun
    cases hnext : step s a with
    | none =>
      rw [hnext] at hrun
      cases hrun
    | some next =>
      rw [hnext] at hrun
      have hreached := Reachable.step h (hok a List.mem_cons_self s) hnext
      exact Reachable.of_run calls hreached (fun b hb => hok b (List.mem_cons_of_mem _ hb)) hrun

end StepSystem
