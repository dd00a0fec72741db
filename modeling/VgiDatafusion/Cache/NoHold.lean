import VgiDatafusion.Cache.SingleFlight
import VgiDatafusion.Cache.ExchangeFlights
import Mathlib.Logic.Relation

/-!
# No hold and wait between exchange calls

| here | there |
| --- | --- |
| `Calls` | the registry with the calls that run against it |
| `Thread.waiting` | a call in `wait_blocking_timeout` |
| `Thread.completing`, `Thread.dropping` | a call in `stored` or `abort`, or in a `drop` of a producer |
| `Thread.returning` | a call that has its result and drops its units or claims |
| `RunningCall.owned` | the producers a call was given; they live until it returns |
| `CallAction.registry` | the steps of completions and waits, and every other user of the registry |

A call runs up to its next question, then anything else may happen. A completion that has begun goes through
its steps (`FlightAction.advance`) between those of the other calls, and the call goes on once it is over. A
panic unwinds through the same drops as an error. `no_hold_and_wait` is about every reachable state.
-/
namespace VgiDatafusion

open Program StepSystem ListFacts Exchange

section
variable (K R : Type)

abbrev ExchangeResult := Except String (List R)

/-- Where the thread of a call stands with respect to the registry. -/
inductive Thread
  | running (rest : ExchangeProg K R (ExchangeResult R))
  | completing (f : Nat) (rest : ExchangeProg K R (ExchangeResult R))
  | waiting (w : Nat) (next : FlightOutcome → ExchangeProg K R (ExchangeResult R))
  | returning (result : ExchangeResult R) (producers : List Nat)
  | dropping (result : ExchangeResult R) (f : Nat) (producers : List Nat)
  | returned (result : ExchangeResult R)

/-- A call, with the flights it was given and not yet completed. -/
structure RunningCall where
  thread : Thread K R
  owned : List Nat := []

structure Calls where
  flights : Flights K := {}
  calls : List (RunningCall K R) := []

inductive CallAction
  | start (call : ExchangeCall R)
  /-- The next step of a call, with what its surroundings answer. -/
  | proceed (i : Nat) (answers : ∀ question : Outside K R, question.Reply)
  | timeOut (i : Nat)
  | registry (a : FlightAction K)

end

variable {K R : Type} [DecidableEq K]

namespace Calls

def setCall (s : Calls K R) (i : Nat) (flights : Flights K) (call : RunningCall K R) : Calls K R :=
  ⟨flights, s.calls.set i call⟩

/-- The claim an acquisition will give. -/
def claimOf (flights : Flights K) (entries : List (K × Nat)) (key : K) : FlightClaim :=
  match entries.lookup key with
  | some _ => .follower flights.waiters.length
  | none => .producer flights.flights.length

/-- A completion of this flight that has begun is over. -/
def settled (flights : Flights K) (f : Nat) : Bool := flights.flights[f]?.any (·.phase = .idle)

/-- The next step of a call: the registry after it, and the call. -/
def proceed (flights : Flights K) (call : RunningCall K R) (answers : ∀ question : Outside K R, question.Reply) :
    Option (Flights K × RunningCall K R) :=
  match call.thread with
  | .running (.ret result) => some (flights, { call with thread := .returning result call.owned })
  | .running (.call (.acquire key) next) => do
    let entries ← flights.registry
    let flights' ← flights.step (.acquire key)
    let claim := claimOf flights entries key
    let owned := match claim with
      | .producer f => call.owned ++ [f]
      | .follower _ => call.owned
    some (flights', ⟨.running (next claim), owned⟩)
  | .running (.call (.finish f outcome) next) => do
    let flights' ← flights.step (.finish f outcome)
    some (flights', { call with thread := .completing f (next ⟨⟩) })
  | .running (.call (.wait w) next) => do
    let flights' ← flights.step (.waitBlocking w)
    some (flights', { call with thread := .waiting w next })
  | .running (.call (.outside question) next) =>
    some (flights, { call with thread := .running (next (answers question)) })
  | .completing f rest => if settled flights f then some (flights, { call with thread := .running rest }) else none
  | .waiting w next =>
    match flights.waiters[w]? with
    | some ⟨_, .returned outcome⟩ => some (flights, { call with thread := .running (next outcome) })
    | _ => none
  | .returning result (f :: producers) => do
    let flights' ← flights.step (.drop f)
    some (flights', { call with thread := .dropping result f producers })
  | .returning result [] => some (flights, { call with thread := .returned result })
  | .dropping result f producers =>
    if settled flights f then some (flights, { call with thread := .returning result producers }) else none
  | .returned _ => none

/-- The outcome of a wait that reached its deadline. -/
def deadlineOutcome : FlightOutcome := .aborted "cache flight wait exceeded rpc_timeout"

/-- One step of one call, whose program may ask or complete, and waits where the registry lets it. -/
def step (s : Calls K R) : CallAction K R → Option (Calls K R)
  | .start call => some { s with calls := s.calls ++ [{ thread := .running call.body.run }] }
  | .proceed i answers => do
    let call ← s.calls[i]?
    let (flights, call) ← proceed s.flights call answers
    some (s.setCall i flights call)
  | .timeOut i => do
    let call ← s.calls[i]?
    match call.thread with
    | .waiting _ next => some (s.setCall i s.flights { call with thread := .running (next deadlineOutcome) })
    | _ => none
  | .registry a =>
    -- only a call completes the flights it was given
    if s.calls.any fun call => call.owned.any fun f => (a.completes f).isSome then none
    else (s.flights.step a).map fun flights => { s with flights }

end Calls

/-! ## Flights that are over stay over -/

namespace Flights

variable {s s' : Flights K} {f : Nat}

/-- Completed or dropped. -/
def Ended (s : Flights K) (f : Nat) : Prop := ∃ fl, s.flights[f]? = some fl ∧ ¬fl.Unfinished

/-- Completed or dropped, to the end. -/
def Done (s : Flights K) (f : Nat) : Prop := ∃ fl, s.flights[f]? = some fl ∧ ¬fl.Unfinished ∧ fl.phase = .idle

/-- No step takes a completion back, and none begins a second one. -/
def Later (fl fl' : Flight K) : Prop :=
  ¬fl.Unfinished → ¬fl'.Unfinished ∧ (fl.phase = .idle → fl'.phase = .idle)

omit [DecidableEq K] in
theorem Later.refl (fl : Flight K) : Later fl fl := fun h => ⟨h, id⟩

omit [DecidableEq K] in
theorem later_setFlight {g : Nat} {fl gl gl' : Flight K} (hg : s.flights[g]? = some gl) (hlater : Later gl gl')
    (hf : s.flights[f]? = some fl) : ∃ fl', (s.setFlight g gl').flights[f]? = some fl' ∧ Later fl fl' := by
  have hlt : g < s.flights.length := (List.getElem?_eq_some_iff.1 hg).1
  by_cases hfg : g = f
  · subst hfg
    rw [hg] at hf
    cases hf
    refine ⟨gl', ?_, hlater⟩
    rw [setFlight, List.getElem?_set_self hlt]
  · refine ⟨fl, ?_, Later.refl fl⟩
    rw [setFlight, List.getElem?_set_ne hfg]
    exact hf

theorem later_step {a : FlightAction K} {fl : Flight K} (hstep : s.step a = some s') (hf : s.flights[f]? = some fl) :
    ∃ fl', s'.flights[f]? = some fl' ∧ Later fl fl' := by
  cases a with
  | acquire key =>
    obtain ⟨entries, -, rfl⟩ := Option.map_eq_some_iff.1 hstep
    rw [Flights.acquire]
    split
    · exact ⟨fl, hf, Later.refl fl⟩
    · refine ⟨fl, ?_, Later.refl fl⟩
      rw [List.getElem?_append_left (List.getElem?_eq_some_iff.1 hf).1]
      exact hf
  | finish g outcome =>
    obtain ⟨gl, hg, hstep⟩ := Option.bind_eq_some_iff.1 hstep
    obtain ⟨⟨hdropped, -⟩, hstep⟩ := free_of_guard hstep
    split at hstep
    · cases hstep
      exact ⟨fl, hf, Later.refl fl⟩
    next hfinished =>
      cases hstep
      exact later_setFlight hg (fun hended => absurd ⟨by simpa using hfinished, hdropped⟩ hended) hf
  | drop g =>
    obtain ⟨gl, hg, hstep⟩ := Option.bind_eq_some_iff.1 hstep
    obtain ⟨⟨hdropped, -⟩, hstep⟩ := free_of_guard hstep
    split at hstep
    · cases hstep
      refine later_setFlight hg (fun _ => ⟨?_, id⟩) hf
      exact fun h => absurd h.2 Bool.noConfusion
    next hfinished =>
      cases hstep
      exact later_setFlight hg (fun hended => absurd ⟨by simpa using hfinished, hdropped⟩ hended) hf
  | advance g =>
    obtain ⟨gl, hg, hstep⟩ := Option.bind_eq_some_iff.1 hstep
    have hother : ∀ gl' : Flight K, gl'.finished = gl.finished → gl'.dropped = gl.dropped → gl.phase ≠ .idle →
        ∃ fl', (s.setFlight g gl').flights[f]? = some fl' ∧ Later fl fl' := by
      intro gl' hfin hdrop hphase
      refine later_setFlight hg ?_ hf
      intro hended
      refine ⟨?_, fun h => absurd h hphase⟩
      rwa [Flight.Unfinished, hfin, hdrop]
    simp only [Flights.advance] at hstep
    split at hstep
    · cases hstep
    next hphase => cases hstep; exact hother _ rfl rfl (by simp [hphase])
    next hphase => cases hstep; exact hother _ rfl rfl (by simp [hphase])
    next hphase => cases hstep; exact hother _ rfl rfl (by simp [hphase])
    next hphase => cases hstep; exact hother _ rfl rfl (by simp [hphase])
  | _ =>
    -- a wait, or the end of the registry: no flight is touched
    rcases step_cases hstep with ⟨key, entries, h, -⟩ | ⟨g, gl, h, -⟩ | ⟨g, gl, h, -⟩ | ⟨w, waiter, state, -, rfl⟩ | ⟨-, rfl⟩
    · cases h
    · simp [FlightAction.completes] at h
    · cases h
    · exact ⟨fl, hf, Later.refl fl⟩
    · exact ⟨fl, hf, Later.refl fl⟩

theorem Ended.step {a : FlightAction K} (h : s.Ended f) (hstep : s.step a = some s') : s'.Ended f := by
  obtain ⟨fl, hf, hended⟩ := h
  obtain ⟨fl', hf', hlater⟩ := later_step hstep hf
  exact ⟨fl', hf', (hlater hended).1⟩

theorem Done.step {a : FlightAction K} (h : s.Done f) (hstep : s.step a = some s') : s'.Done f := by
  obtain ⟨fl, hf, hended, hphase⟩ := h
  obtain ⟨fl', hf', hlater⟩ := later_step hstep hf
  exact ⟨fl', hf', (hlater hended).1, (hlater hended).2 hphase⟩

omit [DecidableEq K] in
theorem Ended.done (h : s.Ended f) (hsettled : Calls.settled s f = true) : s.Done f := by
  obtain ⟨fl, hf, hended⟩ := h
  refine ⟨fl, hf, hended, ?_⟩
  rw [Calls.settled, hf] at hsettled
  simpa using hsettled

/-- A completion has begun, or one was there before. -/
theorem ended_of_completes {a : FlightAction K} (hstep : s.step a = some s') (ha : (a.completes f).isSome) :
    s'.Ended f := by
  cases a with
  | finish g outcome =>
    obtain rfl : g = f := by
      by_contra hne
      simp [FlightAction.completes, hne] at ha
    obtain ⟨gl, hg, hstep⟩ := Option.bind_eq_some_iff.1 hstep
    obtain ⟨-, hstep⟩ := free_of_guard hstep
    have hlt : g < s.flights.length := (List.getElem?_eq_some_iff.1 hg).1
    split at hstep
    next hfinished =>
      cases hstep
      exact ⟨gl, hg, fun h => by simp [h.1] at hfinished⟩
    · cases hstep
      refine ⟨_, List.getElem?_set_self hlt, ?_⟩
      exact fun h => absurd h.1 Bool.noConfusion
  | drop g =>
    obtain rfl : g = f := by
      by_contra hne
      simp [FlightAction.completes, hne] at ha
    obtain ⟨gl, hg, hstep⟩ := Option.bind_eq_some_iff.1 hstep
    obtain ⟨-, hstep⟩ := free_of_guard hstep
    have hlt : g < s.flights.length := (List.getElem?_eq_some_iff.1 hg).1
    split at hstep
    · cases hstep
      refine ⟨_, List.getElem?_set_self hlt, ?_⟩
      exact fun h => absurd h.2 Bool.noConfusion
    · cases hstep
      refine ⟨_, List.getElem?_set_self hlt, ?_⟩
      exact fun h => absurd h.2 Bool.noConfusion
  | _ => simp [FlightAction.completes] at ha

end Flights

/-! ## What a call owns -/

/-- What a call still has to complete is in the list its body may own, or being completed, or yet to be
dropped. -/
def Thread.Inv (flights : Flights K) (owned : List Nat) : Thread K R → Prop
  | .running rest => ∃ own, (∀ f ∈ owned, f ∈ own ∨ flights.Done f) ∧ wp (flightSpec K R) rest own fun _ _ => True
  | .completing f rest => flights.Ended f ∧
      ∃ own, (∀ g ∈ owned, g = f ∨ g ∈ own ∨ flights.Done g) ∧ wp (flightSpec K R) rest own fun _ _ => True
  | .waiting _ next => (∀ f ∈ owned, flights.Done f) ∧ ∀ outcome, wp (flightSpec K R) (next outcome) [] fun _ _ => True
  | .returning _ producers => ∀ f ∈ owned, f ∈ producers ∨ flights.Done f
  | .dropping _ f producers => flights.Ended f ∧ ∀ g ∈ owned, g = f ∨ g ∈ producers ∨ flights.Done g
  | .returned _ => ∀ f ∈ owned, flights.Done f

/-- The registry as it was or a step later. -/
def Flights.Next (s s' : Flights K) : Prop := s' = s ∨ ∃ a, s.step a = some s'

namespace Calls

variable {flights flights' : Flights K} {call call' : RunningCall K R}

theorem done_next {f : Nat} (h : flights.Done f) (hnext : flights.Next flights') : flights'.Done f := by
  rcases hnext with rfl | ⟨a, ha⟩
  · exact h
  · exact h.step ha

theorem ended_next {f : Nat} (h : flights.Ended f) (hnext : flights.Next flights') : flights'.Ended f := by
  rcases hnext with rfl | ⟨a, ha⟩
  · exact h
  · exact h.step ha

/-- What the other calls do leaves it. -/
theorem inv_next {owned : List Nat} {thread : Thread K R} (h : thread.Inv flights owned)
    (hnext : flights.Next flights') : thread.Inv flights' owned := by
  have hdone : ∀ f, flights.Done f → flights'.Done f := fun _ h => done_next h hnext
  cases thread with
  | running rest =>
    obtain ⟨own, hown, hrest⟩ := h
    exact ⟨own, fun f hf => (hown f hf).imp_right (hdone f), hrest⟩
  | completing f rest =>
    obtain ⟨hended, own, hown, hrest⟩ := h
    exact ⟨ended_next hended hnext, own, fun g hg => (hown g hg).imp_right (Or.imp_right (hdone g)), hrest⟩
  | waiting w next => exact ⟨fun f hf => hdone f (h.1 f hf), h.2⟩
  | returning result producers => exact fun f hf => (h f hf).imp_right (hdone f)
  | dropping result f producers =>
    exact ⟨ended_next h.1 hnext, fun g hg => (h.2 g hg).imp_right (Or.imp_right (hdone g))⟩
  | returned result => exact fun f hf => hdone f (h f hf)

/-- A call that runs puts its next question, or ends. -/
theorem running_inv {answers : ∀ question : Outside K R, question.Reply} {owned : List Nat}
    {rest : ExchangeProg K R (ExchangeResult R)} (h : (Thread.running rest).Inv flights owned)
    (hproceed : proceed flights ⟨.running rest, owned⟩ answers = some (flights', call')) :
    flights.Next flights' ∧ call'.thread.Inv flights' call'.owned := by
  obtain ⟨own, hown, hrest⟩ := h
  cases rest with
  | ret result =>
    cases hproceed
    refine ⟨.inl rfl, ?_⟩
    intro f hf
    exact .inl hf
  | call question next =>
    cases question with
    | acquire key =>
      obtain ⟨entries, hentries, hproceed⟩ := Option.bind_eq_some_iff.1 hproceed
      obtain ⟨flights₁, hstep, hproceed⟩ := Option.bind_eq_some_iff.1 hproceed
      cases hproceed
      have hnext : flights.Next flights' := .inr ⟨_, hstep⟩
      refine ⟨hnext, ?_⟩
      cases hclaim : claimOf flights entries key with
      | producer f =>
        refine ⟨f :: own, ?_, hrest.1 f⟩
        intro g hg
        rcases List.mem_append.1 hg with hg | hg
        · rcases hown g hg with hg | hg
          · exact .inl (List.mem_cons_of_mem f hg)
          · exact .inr (done_next hg hnext)
        · exact .inl (List.mem_cons.2 (.inl (List.mem_singleton.1 hg)))
      | follower w =>
        refine ⟨own, ?_, hrest.2 w⟩
        intro g hg
        exact (hown g hg).imp_right fun hg => done_next hg hnext
    | finish f outcome =>
      obtain ⟨flights₁, hstep, hproceed⟩ := Option.bind_eq_some_iff.1 hproceed
      cases hproceed
      have hnext : flights.Next flights' := .inr ⟨_, hstep⟩
      refine ⟨hnext, Flights.ended_of_completes hstep (by simp [FlightAction.completes]), own.filter (· ≠ f), ?_, hrest⟩
      intro g hg
      by_cases hgf : g = f
      · exact .inl hgf
      · refine .inr ((hown g hg).imp ?_ fun hg => done_next hg hnext)
        intro hg
        exact List.mem_filter.2 ⟨hg, by simpa using hgf⟩
    | wait w =>
      obtain ⟨flights₁, hstep, hproceed⟩ := Option.bind_eq_some_iff.1 hproceed
      cases hproceed
      have hnext : flights.Next flights' := .inr ⟨_, hstep⟩
      obtain ⟨rfl, houtcome⟩ := hrest
      refine ⟨hnext, ?_, houtcome⟩
      intro f hf
      rcases hown f hf with hf | hf
      · cases hf
      · exact done_next hf hnext
    | outside question =>
      cases hproceed
      exact ⟨.inl rfl, own, hown, hrest _⟩

theorem proceed_inv {answers : ∀ question : Outside K R, question.Reply} (h : call.thread.Inv flights call.owned)
    (hproceed : proceed flights call answers = some (flights', call')) :
    flights.Next flights' ∧ call'.thread.Inv flights' call'.owned := by
  obtain ⟨thread, owned⟩ := call
  cases thread with
  | running rest => exact running_inv h hproceed
  | completing f rest =>
    obtain ⟨hended, own, hown, hrest⟩ := h
    obtain ⟨hsettled, hproceed⟩ := Option.ite_none_right_eq_some.1 hproceed
    cases hproceed
    refine ⟨.inl rfl, own, ?_, hrest⟩
    intro g hg
    rcases hown g hg with rfl | hg | hg
    · exact .inr (hended.done hsettled)
    · exact .inl hg
    · exact .inr hg
  | waiting w next =>
    simp only [proceed] at hproceed
    split at hproceed
    · cases hproceed
      refine ⟨.inl rfl, [], ?_, h.2 _⟩
      intro f hf
      exact .inr (h.1 f hf)
    · cases hproceed
  | returning result producers =>
    cases producers with
    | nil =>
      cases hproceed
      refine ⟨.inl rfl, ?_⟩
      intro f hf
      rcases h f hf with hf | hf
      · cases hf
      · exact hf
    | cons f producers =>
      obtain ⟨flights₁, hstep, hproceed⟩ := Option.bind_eq_some_iff.1 hproceed
      cases hproceed
      have hnext : flights.Next flights' := .inr ⟨_, hstep⟩
      refine ⟨hnext, Flights.ended_of_completes hstep (by simp [FlightAction.completes]), ?_⟩
      intro g hg
      rcases h g hg with hg | hg
      · rcases List.mem_cons.1 hg with rfl | hg
        · exact .inl rfl
        · exact .inr (.inl hg)
      · exact .inr (.inr (done_next hg hnext))
  | dropping result f producers =>
    obtain ⟨hsettled, hproceed⟩ := Option.ite_none_right_eq_some.1 hproceed
    cases hproceed
    refine ⟨.inl rfl, ?_⟩
    intro g hg
    rcases h.2 g hg with rfl | hg | hg
    · exact .inr (h.1.done hsettled)
    · exact .inl hg
    · exact .inr hg
  | returned result => cases hproceed

/-! ## Every reachable state -/

variable {s s' : Calls K R}

/-- Every call is in step with the registry. -/
def Inv (s : Calls K R) : Prop :=
  ∀ (i : Nat) (call : RunningCall K R), s.calls[i]? = some call → call.thread.Inv s.flights call.owned

/-- A step of one call: the others see at most a step of the registry. -/
theorem Inv.setCall {i : Nat} {call : RunningCall K R} (h : s.Inv) (hnext : s.flights.Next flights')
    (hcall : call.thread.Inv flights' call.owned) : (s.setCall i flights' call).Inv := by
  intro j other hj
  rcases getElem?_set_cases hj with ⟨rfl, rfl⟩ | ⟨-, hj⟩
  · exact hcall
  · exact inv_next (h j other hj) hnext

theorem Inv.step {a : CallAction K R} (h : s.Inv) (hstep : s.step a = some s') : s'.Inv := by
  cases a with
  | start call =>
    cases hstep
    intro j other hj
    rcases getElem?_concat_cases hj with hj | ⟨-, rfl⟩
    · exact h j other hj
    · refine ⟨[], fun f hf => absurd hf List.not_mem_nil, ?_⟩
      exact wp_mono (fun _ _ _ => trivial) (ok_body call)
  | proceed i answers =>
    obtain ⟨call, hi, hstep⟩ := Option.bind_eq_some_iff.1 hstep
    obtain ⟨⟨flights', call'⟩, hproceed, hstep⟩ := Option.bind_eq_some_iff.1 hstep
    cases hstep
    obtain ⟨hnext, hcall⟩ := proceed_inv (h i call hi) hproceed
    exact h.setCall hnext hcall
  | timeOut i =>
    obtain ⟨call, hi, hstep⟩ := Option.bind_eq_some_iff.1 hstep
    have hcall := h i call hi
    split at hstep
    next w next hthread =>
      cases hstep
      rw [hthread] at hcall
      apply h.setCall (.inl rfl)
      exact ⟨[], fun f hf => .inr (hcall.1 f hf), hcall.2 _⟩
    · cases hstep
  | registry a =>
    obtain ⟨-, hstep⟩ := Option.ite_none_left_eq_some.1 hstep
    obtain ⟨flights', ha, rfl⟩ := Option.map_eq_some_iff.1 hstep
    intro j other hj
    exact inv_next (h j other hj) (.inr ⟨a, ha⟩)

/-- Call `i` waits for a flight of call `j` that is not over. -/
def WaitsFor (s : Calls K R) (i j : Nat) : Prop :=
  ∃ (waiting owner : RunningCall K R) (w : Nat) (waiter : Waiter) (next : FlightOutcome → ExchangeProg K R (ExchangeResult R)),
    s.calls[i]? = some waiting ∧ waiting.thread = .waiting w next ∧ s.flights.waiters[w]? = some waiter ∧
    s.calls[j]? = some owner ∧ waiter.flight ∈ owner.owned ∧ ¬s.flights.Done waiter.flight

/-- A call that waits owns nothing unfinished, waits form no cycle, and a call that returned leaves nothing behind. -/
structure NoHoldAndWait (s : Calls K R) : Prop where
  /-- A follower that waits owns no unfinished flight. -/
  noHold : ∀ (i : Nat) (call : RunningCall K R) (w : Nat) (next : FlightOutcome → ExchangeProg K R (ExchangeResult R)),
    s.calls[i]? = some call → call.thread = .waiting w next → ∀ f ∈ call.owned, s.flights.Done f
  noCycle : ∀ i, ¬Relation.TransGen s.WaitsFor i i
  /-- A call that returned, with a result or an error, has left nothing unfinished. -/
  exit : ∀ (i : Nat) (call : RunningCall K R) (result : ExchangeResult R), s.calls[i]? = some call →
    call.thread = .returned result → ∀ f ∈ call.owned, s.flights.Done f

omit [DecidableEq K] in
theorem Inv.noHoldAndWait (h : s.Inv) : s.NoHoldAndWait := by
  have hnoHold : ∀ (i : Nat) (call : RunningCall K R) (w : Nat)
      (next : FlightOutcome → ExchangeProg K R (ExchangeResult R)),
      s.calls[i]? = some call → call.thread = .waiting w next → ∀ f ∈ call.owned, s.flights.Done f := by
    intro i call w next hi hthread
    have hcall := h i call hi
    rw [hthread] at hcall
    exact hcall.1
  refine ⟨hnoHold, ?_, ?_⟩
  · intro i hcycle
    -- the first call of the cycle waits, and the last one waits for it
    obtain ⟨j, ⟨waiting, _, w, _, next, hi, hthread, -⟩, -⟩ := Relation.TransGen.head'_iff.1 hcycle
    obtain ⟨k, -, _, owner, _, waiter, _, -, -, -, hi', howned, hundone⟩ := Relation.TransGen.tail'_iff.1 hcycle
    rw [hi] at hi'
    cases hi'
    exact hundone (hnoHold i waiting w next hi hthread _ howned)
  · intro i call result hi hthread
    have hcall := h i call hi
    rw [hthread] at hcall
    exact hcall

/-- **No hold and wait**: in every state that concurrent exchange calls can reach, a call that waits as a follower
owns no unfinished flight, so no calls wait for each other in a circle; and a call that returned has finished every
flight it was given. -/
theorem no_hold_and_wait (h : Reachable step (fun _ _ => True) ({} : Calls K R) s) : s.NoHoldAndWait := by
  have hinit : ({} : Calls K R).Inv := by
    intro i call hi
    cases hi
  have hkeeps : ∀ (s : Calls K R) a s', s.Inv → True → step s a = some s' → s'.Inv :=
    fun s a s' hs _ hstep => hs.step hstep
  exact (h.invariant hinit hkeeps).noHoldAndWait

/-! Two calls over the keys 1 and 2, in opposite orders: each claims its first key and follows the other on its
second. The first call completes its own flight, then waits. -/

def numberTemplate : Template Nat Nat where
  inputDigest input := .ok [UInt8.ofNat input]
  keyForDigest digest := (digest.map UInt8.toNat).sum
  keyForUnorderedInputs inputs := .ok inputs.sum

/-- A cold cache, and a worker that echoes and lets its answers be stored. -/
def coldAnswers : ∀ question : Outside Nat Nat, question.Reply
  | .bind => .ok ⟨false, false⟩
  | .template _ => .ok (some numberTemplate)
  | .get _ | .getForRevalidation _ => none
  | .mayServeOnError _ | .commitAllowed | .hasPerValueOptIn => false
  | .eligibility .. => .ok 60
  | .insert .. | .remove _ | .slide .. | .notePerValueOptIn => ⟨⟩
  | .openExchange _ | .close => .ok ⟨⟩
  | .send input => .ok (some input, some { policy := "ttl=60" })
  | .bufferingBegin | .bufferingProcess .. => .ok []
  | .bufferingCombine .. => .ok []
  | .bufferingFinalize .. => .ok ([], none)

def numberOps : ExchangeOps Nat where
  rows _ := 1
  columns _ := 1
  memorySize _ := 8
  slice input _ _ := input
  concatInputs inputs := .ok inputs.sum
  concatOutputs outputs := .ok outputs.sum
  take batch _ := .ok batch
  gather batch _ := .ok batch
  hasOutputSchema _ := true

def crossedRun : List (CallAction Nat Nat) :=
  let first := .proceed 0 coldAnswers
  let second := .proceed 1 coldAnswers
  [.start (.exchange numberOps "echo" false [1, 2]), .start (.exchange numberOps "echo" false [2, 1])] ++
    List.replicate 4 first ++ List.replicate 4 second ++ List.replicate 2 first ++ List.replicate 2 second ++
    List.replicate 6 first ++ List.replicate 4 (.registry (.advance 0)) ++ List.replicate 3 first

def crossed : Calls Nat Nat := (crossedRun.foldlM step {}).getD {}

theorem no_hold_and_wait_crossed :
    crossedRun.foldlM step {} = some crossed ∧ crossed.WaitsFor 0 1 ∧ crossed.NoHoldAndWait := by
  have hrun : crossedRun.foldlM step {} = some crossed := rfl
  refine ⟨hrun, ?_, no_hold_and_wait (Reachable.of_run crossedRun .init (fun _ _ _ => trivial) hrun)⟩
  refine ⟨_, _, 0, ⟨1, .locking⟩, _, rfl, rfl, rfl, rfl, List.mem_cons_self, ?_⟩
  rintro ⟨fl, hfl, hended, -⟩
  cases hfl
  exact hended ⟨rfl, rfl⟩

end Calls

end VgiDatafusion
