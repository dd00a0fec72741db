import VgiDatafusion.Library.Lists
import VgiDatafusion.Library.StepSystem

/-!
# Single-flight claims (runtime.rs:618-801)

| here | there |
| --- | --- |
| `Flight` | a `ResultFlight` with its `ResultFlightProducer` |
| `FlightOutcome` | `ResultFlightOutcome` |
| `Waiter`, `WaitState` | a `ResultFlightWaiter` and how far its `wait` or `wait_blocking_timeout` is |
| `Flights` | the registry, every flight made so far, every waiter |
| `FlightAction.acquire` | `ResultFlightRegistry::acquire`, one critical section |
| `finish`, `drop` | `stored` and `abort`, and `Drop for ResultFlightProducer`, up to the first lock they take |
| `advance` | the rest of a completion: `removing`, `publishing`, `notifying`, `sending`, one step each |
| `waitAsync`, `waitBlocking`, `poll` | the two waits, one look at the channel a step |

A completion holds the producer's `finished` lock to its end, so another completion of the same producer
comes before it or after it; acquisitions, waiters and other producers come anywhere between its steps.
A condition variable is left by `notify_all` or spuriously. A `watch` receiver remembers the version it
saw. The sender of a flight lives in the flight, which its waiters hold, so the channel never closes.
Waits with a deadline are not modelled here.
-/
namespace VgiDatafusion

open StepSystem ListFacts

/-- `ResultFlightOutcome` (`runtime.rs:619-622`). -/
inductive FlightOutcome
  | stored
  | aborted (reason : String)
  deriving DecidableEq, Repr

/-- How far a completion is: its locks are taken one after the other (`runtime.rs:660-678`, `767-781`). -/
inductive FinishPhase
  | idle
  | removing (outcome : FlightOutcome)
  | publishing (outcome : FlightOutcome)
  | notifying (outcome : FlightOutcome)
  | sending (outcome : FlightOutcome)
  deriving DecidableEq

/-- `ResultFlight` (`runtime.rs:625-629`) together with its `ResultFlightProducer` (`runtime.rs:751-756`). -/
structure Flight (K : Type) where
  key : K
  /-- The flag of its producer. -/
  finished : Bool := false
  /-- The producer is gone. -/
  dropped : Bool := false
  phase : FinishPhase := .idle
  blockingOutcome : Option FlightOutcome := none
  outcome : Option FlightOutcome := none
  version : Nat := 0
  deriving DecidableEq

/-- How far a wait is: it looks at the outcome, then at the channel. -/
inductive WaitState
  | acquired
  /-- `wait`, about to look. -/
  | polling
  /-- In `changed`, having seen a version. -/
  | pending (seen : Nat)
  /-- `wait_blocking_timeout`, about to look. -/
  | locking
  | asleep
  | returned (outcome : FlightOutcome)
  deriving DecidableEq

/-- `ResultFlightWaiter` (`runtime.rs:687-690`). -/
structure Waiter where
  flight : Nat
  state : WaitState := .acquired
  deriving DecidableEq

/-- `ResultFlightRegistry` (`runtime.rs:632-634`), with every flight and every waiter there has been. -/
structure Flights (K : Type) where
  /-- Gone with its runtime. -/
  registry : Option (List (K × Nat)) := some []
  flights : List (Flight K) := []
  waiters : List Waiter := []

inductive FlightAction (K : Type)
  | acquire (key : K)
  | finish (f : Nat) (outcome : FlightOutcome)
  | drop (f : Nat)
  | advance (f : Nat)
  | waitAsync (w : Nat)
  | waitBlocking (w : Nat)
  | poll (w : Nat)
  | wakeSpuriously (w : Nat)
  | dropRegistry

/-- The outcome a dropped producer leaves (`runtime.rs:783-799`). -/
def droppedOutcome : FlightOutcome := .aborted "cache producer dropped"

def Waiter.notified (f : Nat) (w : Waiter) : Waiter :=
  if w.flight = f ∧ w.state = .asleep then { w with state := .locking } else w

variable {K : Type}

namespace Flights

variable [DecidableEq K] (s : Flights K)

def setFlight (f : Nat) (flight : Flight K) : Flights K := { s with flights := s.flights.set f flight }

def setWaiter (w : Nat) (waiter : Waiter) (state : WaitState) : Flights K :=
  { s with waiters := s.waiters.set w { waiter with state } }

/-- Removed only if the key still leads to this flight. -/
def unregister (f : Nat) (key : K) : Option (List (K × Nat)) :=
  s.registry.map fun entries =>
    if entries.lookup key = some f then entries.filter (·.1 ≠ key) else entries

/-- `ResultFlightRegistry::acquire` (`runtime.rs:637-658`): a live flight under the key is followed, else a new one begun. -/
def acquire (key : K) (entries : List (K × Nat)) : Flights K :=
  match entries.lookup key with
  | some f => { s with waiters := s.waiters ++ [⟨f, .acquired⟩] }
  | none => { s with registry := some ((key, s.flights.length) :: entries), flights := s.flights ++ [{ key }] }

/-- The next step of `ResultFlightRegistry::finish` (`runtime.rs:660-677`) after the registry's lock. -/
def advance (f : Nat) (flight : Flight K) : Option (Flights K) :=
  match flight.phase with
  | .idle => none
  | .removing outcome =>
    some { s.setFlight f { flight with phase := .publishing outcome } with registry := s.unregister f flight.key }
  | .publishing outcome => some (s.setFlight f { flight with blockingOutcome := some outcome, phase := .notifying outcome })
  | .notifying outcome =>
    some { s.setFlight f { flight with phase := .sending outcome } with waiters := s.waiters.map (Waiter.notified f) }
  | .sending outcome =>
    some (s.setFlight f { flight with outcome := some outcome, version := flight.version + 1, phase := .idle })

/-- One look of a wait at the channel (`runtime.rs:693-748`). -/
def poll (w : Nat) (waiter : Waiter) (flight : Flight K) : Option (Flights K) :=
  match waiter.state with
  | .polling => some (s.setWaiter w waiter (match flight.outcome with
    | some outcome => .returned outcome
    | none => .pending flight.version))
  | .pending seen => if flight.version = seen then none else some (s.setWaiter w waiter .polling)
  | .locking => some (s.setWaiter w waiter (match flight.blockingOutcome with
    | some outcome => .returned outcome
    | none => .asleep))
  | _ => none

/-- One step of one party (`runtime.rs:613-801`). -/
def step : FlightAction K → Option (Flights K)
  | .acquire key => s.registry.map (s.acquire key)
  | .finish f outcome => do
    let flight ← s.flights[f]?
    if flight.dropped || flight.phase ≠ .idle then none
    else if flight.finished then some s
    else some (s.setFlight f { flight with finished := true, phase := .removing outcome })
  | .drop f => do
    let flight ← s.flights[f]?
    if flight.dropped || flight.phase ≠ .idle then none
    else if flight.finished then some (s.setFlight f { flight with dropped := true })
    else some (s.setFlight f { flight with dropped := true, phase := .removing droppedOutcome })
  | .advance f => do
    let flight ← s.flights[f]?
    s.advance f flight
  | .waitAsync w => do
    let waiter ← s.waiters[w]?
    if waiter.state = .acquired then some (s.setWaiter w waiter .polling) else none
  | .waitBlocking w => do
    let waiter ← s.waiters[w]?
    if waiter.state = .acquired then some (s.setWaiter w waiter .locking) else none
  | .poll w => do
    let waiter ← s.waiters[w]?
    let flight ← s.flights[waiter.flight]?
    s.poll w waiter flight
  | .wakeSpuriously w => do
    let waiter ← s.waiters[w]?
    if waiter.state = .asleep then some (s.setWaiter w waiter .locking) else none
  | .dropRegistry => some { s with registry := none }

end Flights

/-! ## What a run says about a producer -/

/-- How an action completes the producer of flight `f`, if it does. -/
def FlightAction.completes (f : Nat) : FlightAction K → Option FlightOutcome
  | .finish g outcome => if g = f then some outcome else none
  | .drop g => if g = f then some droppedOutcome else none
  | _ => none

/-- The first completion of a producer in a run. -/
def firstOutcome (done : List (FlightAction K)) (f : Nat) : Option FlightOutcome := done.findSome? (·.completes f)

theorem firstOutcome_append (done : List (FlightAction K)) (a : FlightAction K) (f : Nat) :
    firstOutcome (done ++ [a]) f = (firstOutcome done f).or (a.completes f) := by
  rw [firstOutcome, List.findSome?_append]
  simp [firstOutcome]

namespace Flight

/-- Neither completed nor gone. -/
def Unfinished (fl : Flight K) : Prop := fl.finished = false ∧ fl.dropped = false

/-- How far the channels are, given the first completion. -/
def Progress (fl : Flight K) : Option FlightOutcome → Prop
  | none => fl.Unfinished ∧ fl.phase = .idle ∧ fl.blockingOutcome = none ∧ fl.outcome = none ∧ fl.version = 0
  | some first => ¬fl.Unfinished ∧ (fl.outcome = none → fl.version = 0) ∧ match fl.phase with
    | .removing outcome => outcome = first ∧ fl.blockingOutcome = none ∧ fl.outcome = none
    | .publishing outcome => outcome = first ∧ fl.blockingOutcome = none ∧ fl.outcome = none
    | .notifying outcome => outcome = first ∧ fl.blockingOutcome = some first ∧ fl.outcome = none
    | .sending outcome => outcome = first ∧ fl.blockingOutcome = some first ∧ fl.outcome = none
    | .idle => fl.blockingOutcome = some first ∧ fl.outcome = some first ∧ fl.version = 1

/-- Its key still leads to it. -/
def Registered (fl : Flight K) : Prop := fl.Unfinished ∨ ∃ outcome, fl.phase = .removing outcome

end Flight

/-- What a wait knows of a flight and of the first completion of its producer. -/
def WaitState.Knows (fl : Flight K) (first : Option FlightOutcome) : WaitState → Prop
  | .returned outcome => first = some outcome
  | .asleep => fl.blockingOutcome = none ∨ ∃ outcome, fl.phase = .notifying outcome
  | .pending seen => seen = 0
  | _ => True

theorem WaitState.Knows.later {fl fl' : Flight K} {first first' : Option FlightOutcome} {state : WaitState}
    (h : state.Knows fl first) (hfirst : ∀ outcome, first = some outcome → first' = some outcome)
    (hasleep : state = .asleep → WaitState.asleep.Knows fl' first') : state.Knows fl' first' := by
  cases state with
  | returned outcome => exact hfirst outcome h
  | asleep => exact hasleep rfl
  | pending seen => exact h
  | acquired => trivial
  | polling => trivial
  | locking => trivial

/-- A flight ends once, is found under its key as long as it is registered, and its waiters see how it ended. -/
structure Flights.Inv [DecidableEq K] (done : List (FlightAction K)) (s : Flights K) : Prop where
  progress : ∀ (f : Nat) (fl : Flight K), s.flights[f]? = some fl → fl.Progress (firstOutcome done f)
  unknown : ∀ f, s.flights.length ≤ f → firstOutcome done f = none
  unique : ∀ (f g : Nat) (fl gl : Flight K), s.flights[f]? = some fl → s.flights[g]? = some gl → fl.Registered → gl.Registered →
    fl.key = gl.key → f = g
  entries : ∀ entries, s.registry = some entries → ∀ key f, entries.lookup key = some f ↔
    ∃ fl : Flight K, s.flights[f]? = some fl ∧ fl.key = key ∧ fl.Registered
  waiters : ∀ (w : Nat) (waiter : Waiter), s.waiters[w]? = some waiter → ∃ fl : Flight K,
    s.flights[waiter.flight]? = some fl ∧ waiter.state.Knows fl (firstOutcome done waiter.flight)

/-! ## Every step keeps it -/

/-- Only a flight being removed can be registered once it is completed. -/
theorem Flight.not_registered {fl : Flight K} (hdone : ¬fl.Unfinished) (hphase : ∀ outcome, fl.phase ≠ .removing outcome) :
    ¬fl.Registered := by
  rintro (hunfinished | ⟨outcome, hremoving⟩)
  · exact hdone hunfinished
  · exact hphase outcome hremoving

/-- Something was completed before: the flight is not as it was made. -/
theorem Flight.Progress.completed {fl : Flight K} {first : Option FlightOutcome} (h : fl.Progress first)
    (hfl : ¬fl.Unfinished) : ∃ outcome, first = some outcome := by
  cases first with
  | none => exact absurd h.1 hfl
  | some outcome => exact ⟨outcome, rfl⟩

theorem Flight.Progress.fresh {fl : Flight K} {first : Option FlightOutcome} (h : fl.Progress first)
    (hfl : fl.Unfinished) : first = none ∧ fl.phase = .idle ∧ fl.blockingOutcome = none ∧ fl.outcome = none ∧
      fl.version = 0 := by
  cases first with
  | none => exact ⟨rfl, h.2⟩
  | some outcome => exact absurd hfl h.1

namespace Flights

variable [DecidableEq K] {s s' : Flights K} {done : List (FlightAction K)} {a : FlightAction K}

/-- The invariant reads a run through the first completions only. -/
theorem Inv.congr {done' : List (FlightAction K)} (h : s.Inv done)
    (heq : ∀ f, firstOutcome done' f = firstOutcome done f) : s.Inv done' := by
  refine ⟨?_, ?_, h.unique, h.entries, ?_⟩
  · intro f fl hf
    rw [heq f]
    exact h.progress f fl hf
  · intro f hf
    rw [heq f]
    exact h.unknown f hf
  · intro w waiter hw
    obtain ⟨fl, hfl, hstate⟩ := h.waiters w waiter hw
    refine ⟨fl, hfl, ?_⟩
    rw [heq waiter.flight]
    exact hstate

omit [DecidableEq K] in
theorem firstOutcome_of_silent (ha : ∀ f, a.completes f = none) (f : Nat) :
    firstOutcome (done ++ [a]) f = firstOutcome done f := by
  rw [firstOutcome_append, ha f, Option.or_none]

/-- A step that completes nothing adds nothing to remember. -/
theorem Inv.silent (h : s.Inv done) (ha : ∀ f, a.completes f = none) : s.Inv (done ++ [a]) :=
  h.congr (firstOutcome_of_silent ha)

/-- A step that replaces one flight. The registry may lose that flight, and its waiters may be woken. -/
theorem Inv.replace {f : Nat} {fl fl' : Flight K} {registry : Option (List (K × Nat))} {waiters : List Waiter}
    (h : s.Inv done) (hf : s.flights[f]? = some fl) (hkey : fl'.key = fl.key)
    (hprogress : fl'.Progress (firstOutcome (done ++ [a]) f)) (hothers : ∀ g, g ≠ f → a.completes g = none)
    (hregistered : fl'.Registered → fl.Registered)
    (hregistry : ∀ entries', registry = some entries' → ∃ entries, s.registry = some entries ∧
      ∀ key g, entries'.lookup key = some g ↔ entries.lookup key = some g ∧ (g = f → fl'.Registered))
    (hwaiters : ∀ (w : Nat) (waiter' : Waiter), waiters[w]? = some waiter' → ∃ waiter, s.waiters[w]? = some waiter ∧
      waiter'.flight = waiter.flight ∧ (waiter'.state = waiter.state ∨ waiter'.state = .locking) ∧
      (waiter'.state = .asleep → waiter'.flight = f →
        fl'.blockingOutcome = none ∨ ∃ outcome, fl'.phase = .notifying outcome)) :
    Inv (done ++ [a]) ⟨registry, s.flights.set f fl', waiters⟩ := by
  have hlt : f < s.flights.length := (List.getElem?_eq_some_iff.1 hf).1
  have hself : (s.flights.set f fl')[f]? = some fl' := by
    rw [List.getElem?_set_self hlt]
  have hother : ∀ g, g ≠ f → firstOutcome (done ++ [a]) g = firstOutcome done g := by
    intro g hg
    rw [firstOutcome_append, hothers g hg, Option.or_none]
  -- a registered flight of the new list was a registered flight of the old one
  have hback : ∀ (g : Nat) (gl : Flight K), (s.flights.set f fl')[g]? = some gl → gl.Registered →
      ∃ gl', s.flights[g]? = some gl' ∧ gl'.Registered ∧ gl'.key = gl.key := by
    intro g gl hg hreg
    rcases getElem?_set_cases hg with ⟨rfl, rfl⟩ | ⟨-, hg⟩
    · exact ⟨fl, hf, hregistered hreg, hkey.symm⟩
    · exact ⟨gl, hg, hreg, rfl⟩
  constructor
  · intro g gl hg
    rcases getElem?_set_cases hg with ⟨rfl, rfl⟩ | ⟨hne, hg⟩
    · exact hprogress
    · rw [hother g hne]
      exact h.progress g gl hg
  · intro g hg
    have hlength : s.flights.length ≤ g := by simpa using hg
    rw [hother g (by omega)]
    exact h.unknown g hlength
  · intro g k gl kl hg hk hgr hkr heq
    obtain ⟨gl', hg', hgr', hgk⟩ := hback g gl hg hgr
    obtain ⟨kl', hk', hkr', hkk⟩ := hback k kl hk hkr
    exact h.unique g k gl' kl' hg' hk' hgr' hkr' (by rw [hgk, hkk, heq])
  · intro entries' hentries' key g
    obtain ⟨entries, hentries, hlookup⟩ := hregistry entries' hentries'
    rw [hlookup key g, h.entries entries hentries key g]
    constructor
    · rintro ⟨⟨gl, hg, rfl, hreg⟩, hown⟩
      by_cases hgf : g = f
      · subst hgf
        rw [hf] at hg
        cases hg
        exact ⟨fl', hself, hkey, hown rfl⟩
      · exact ⟨gl, by rwa [List.getElem?_set_ne (fun h => hgf h.symm)], rfl, hreg⟩
    · rintro ⟨gl, hg, rfl, hreg⟩
      obtain ⟨gl', hg', hreg', hk⟩ := hback g gl hg hreg
      refine ⟨⟨gl', hg', hk, hreg'⟩, ?_⟩
      rintro rfl
      rw [hself] at hg
      cases hg
      exact hreg
  · intro w waiter' hw
    obtain ⟨waiter, hw, hflight, hstate, hasleep⟩ := hwaiters w waiter' hw
    obtain ⟨gl, hgl, hinv⟩ := h.waiters w waiter hw
    rw [← hflight] at hgl hinv
    -- what a first completion said stays said
    have hfirst : ∀ outcome, firstOutcome done waiter'.flight = some outcome →
        firstOutcome (done ++ [a]) waiter'.flight = some outcome := by
      intro outcome ho
      rw [firstOutcome_append, ho]
      rfl
    rcases hstate with hstate | hstate
    · rw [← hstate] at hinv
      by_cases hwf : waiter'.flight = f
      · refine ⟨fl', by rw [hwf]; exact hself, hinv.later hfirst ?_⟩
        intro hws
        exact hasleep hws hwf
      · refine ⟨gl, by rw [List.getElem?_set_ne (fun h => hwf h.symm)]; exact hgl, hinv.later hfirst ?_⟩
        intro hws
        rw [hws] at hinv
        exact hinv
    · rw [hstate]
      by_cases hwf : waiter'.flight = f
      · exact ⟨fl', by rw [hwf]; exact hself, trivial⟩
      · exact ⟨gl, by rw [List.getElem?_set_ne (fun h => hwf h.symm)]; exact hgl, trivial⟩

/-- A step of one flight that leaves the registry and the waiters alone. -/
theorem Inv.setFlight {f : Nat} {fl fl' : Flight K} (h : s.Inv done) (hf : s.flights[f]? = some fl)
    (hkey : fl'.key = fl.key) (hprogress : fl'.Progress (firstOutcome (done ++ [a]) f))
    (hothers : ∀ g, g ≠ f → a.completes g = none) (hregistered : fl'.Registered ↔ fl.Registered)
    (hasleep : fl.blockingOutcome = none ∨ (∃ outcome, fl.phase = .notifying outcome) →
      fl'.blockingOutcome = none ∨ ∃ outcome, fl'.phase = .notifying outcome) :
    Inv (done ++ [a]) (s.setFlight f fl') := by
  apply h.replace hf hkey hprogress hothers hregistered.1
  · intro entries hentries
    refine ⟨entries, hentries, fun key g => ?_⟩
    constructor
    · intro hlookup
      refine ⟨hlookup, ?_⟩
      rintro rfl
      obtain ⟨gl, hg, -, hreg⟩ := (h.entries entries hentries key g).1 hlookup
      rw [hf] at hg
      cases hg
      exact hregistered.2 hreg
    · exact fun hlookup => hlookup.1
  · intro w waiter hw
    refine ⟨waiter, hw, rfl, .inl rfl, ?_⟩
    rintro hstate rfl
    obtain ⟨gl, hgl, hknows⟩ := h.waiters w waiter hw
    rw [hf] at hgl
    cases hgl
    rw [hstate] at hknows
    exact hasleep hknows

/-- A step of one waiter. -/
theorem Inv.setWaiter {w : Nat} {waiter : Waiter} {state : WaitState} (h : s.Inv done) (ha : ∀ f, a.completes f = none)
    (hw : s.waiters[w]? = some waiter)
    (hstate : ∀ fl, s.flights[waiter.flight]? = some fl → state.Knows fl (firstOutcome done waiter.flight)) :
    Inv (done ++ [a]) (s.setWaiter w waiter state) := by
  refine Inv.silent ?_ ha
  refine ⟨h.progress, h.unknown, h.unique, h.entries, ?_⟩
  intro v other hv
  rcases getElem?_set_cases hv with ⟨rfl, rfl⟩ | ⟨-, hv⟩
  · obtain ⟨fl, hfl, -⟩ := h.waiters v waiter hw
    exact ⟨fl, hfl, hstate fl hfl⟩
  · exact h.waiters v other hv

theorem Inv.acquire (h : s.Inv done) {key : K} {entries : List (K × Nat)} (hentries : s.registry = some entries) :
    Inv (done ++ [.acquire key]) (s.acquire key entries) := by
  refine Inv.silent ?_ fun _ => rfl
  rw [Flights.acquire]
  cases hlookup : entries.lookup key with
  | some f =>
    obtain ⟨fl, hf, -, -⟩ := (h.entries entries hentries key f).1 hlookup
    refine ⟨h.progress, h.unknown, h.unique, h.entries, ?_⟩
    intro w waiter hw
    rcases getElem?_concat_cases hw with hw | ⟨-, rfl⟩
    · exact h.waiters w waiter hw
    · exact ⟨fl, hf, trivial⟩
  | none =>
    -- no flight of this key is registered, so the new one is alone
    have hfree : ∀ (f : Nat) (fl : Flight K), s.flights[f]? = some fl → fl.Registered → fl.key ≠ key := by
      intro f fl hf hreg hkey
      have hsome := (h.entries entries hentries key f).2 ⟨fl, hf, hkey, hreg⟩
      rw [hlookup] at hsome
      cases hsome
    have hnew : (s.flights ++ [({ key } : Flight K)])[s.flights.length]? = some { key } := by
      rw [List.getElem?_concat_length]
    have hold : ∀ (f : Nat) (fl : Flight K), s.flights[f]? = some fl → (s.flights ++ [({ key } : Flight K)])[f]? = some fl := by
      intro f fl hf
      rw [List.getElem?_append_left (List.getElem?_eq_some_iff.1 hf).1]
      exact hf
    constructor
    · intro f fl hf
      rcases getElem?_concat_cases hf with hf | ⟨rfl, rfl⟩
      · exact h.progress f fl hf
      · rw [h.unknown s.flights.length (Nat.le_refl _)]
        exact ⟨⟨rfl, rfl⟩, rfl, rfl, rfl, rfl⟩
    · intro f hf
      rw [List.length_append] at hf
      exact h.unknown f (by omega)
    · intro f g fl gl hf hg hfr hgr hkey
      rcases getElem?_concat_cases hf with hf | ⟨rfl, rfl⟩
      · rcases getElem?_concat_cases hg with hg | ⟨rfl, rfl⟩
        · exact h.unique f g fl gl hf hg hfr hgr hkey
        · exact absurd hkey (hfree f fl hf hfr)
      · rcases getElem?_concat_cases hg with hg | ⟨rfl, rfl⟩
        · exact absurd hkey.symm (hfree g gl hg hgr)
        · rfl
    · intro entries' hentries' other f
      cases hentries'
      rw [List.lookup_cons]
      by_cases hother : other = key
      · subst hother
        simp only [BEq.rfl]
        constructor
        · intro heq
          cases heq
          exact ⟨_, hnew, rfl, .inl ⟨rfl, rfl⟩⟩
        · rintro ⟨fl, hf, hkey, hreg⟩
          rcases getElem?_concat_cases hf with hf | ⟨rfl, -⟩
          · exact absurd hkey (hfree f fl hf hreg)
          · rfl
      · simp only [beq_eq_false_iff_ne.2 hother]
        rw [h.entries entries hentries other f]
        constructor
        · rintro ⟨fl, hf, hkey, hreg⟩
          exact ⟨fl, hold f fl hf, hkey, hreg⟩
        · rintro ⟨fl, hf, hkey, hreg⟩
          rcases getElem?_concat_cases hf with hf | ⟨-, rfl⟩
          · exact ⟨fl, hf, hkey, hreg⟩
          · exact absurd hkey.symm hother
    · intro w waiter hw
      obtain ⟨fl, hfl, hknows⟩ := h.waiters w waiter hw
      exact ⟨fl, hold _ fl hfl, hknows⟩

theorem Inv.finish (h : s.Inv done) {f : Nat} {fl : Flight K} {outcome : FlightOutcome} (hf : s.flights[f]? = some fl)
    (hfree : fl.dropped = false ∧ fl.phase = .idle) (hstep : (if fl.finished then some s
      else some (s.setFlight f { fl with finished := true, phase := .removing outcome })) = some s') :
    Inv (done ++ [.finish f outcome]) s' := by
  have hprogress := h.progress f fl hf
  by_cases hfinished : fl.finished = true
  · rw [if_pos hfinished] at hstep
    cases hstep
    obtain ⟨first, hfirst⟩ := hprogress.completed fun hu => by simp [hu.1] at hfinished
    apply h.congr
    intro g
    rw [firstOutcome_append]
    by_cases hg : f = g
    · subst hg
      rw [hfirst]
      rfl
    · simp [FlightAction.completes, hg]
  · rw [if_neg hfinished] at hstep
    cases hstep
    have hunfinished : fl.Unfinished := ⟨by simpa using hfinished, hfree.1⟩
    obtain ⟨hfirst, -, hblocking, houtcome, hversion⟩ := hprogress.fresh hunfinished
    apply h.setFlight hf (by rfl)
    · rw [firstOutcome_append, hfirst]
      simp only [FlightAction.completes, if_pos, Option.none_or]
      exact ⟨fun hu => absurd hu.1 (by simp), fun _ => hversion, rfl, hblocking, houtcome⟩
    · intro g hg
      simp [FlightAction.completes, Ne.symm hg]
    · exact ⟨fun _ => .inl hunfinished, fun _ => .inr ⟨outcome, rfl⟩⟩
    · exact fun _ => .inl hblocking

theorem Inv.drop (h : s.Inv done) {f : Nat} {fl : Flight K} (hf : s.flights[f]? = some fl)
    (hfree : fl.dropped = false ∧ fl.phase = .idle) (hstep : (if fl.finished then some (s.setFlight f { fl with dropped := true })
      else some (s.setFlight f { fl with dropped := true, phase := .removing droppedOutcome })) = some s') :
    Inv (done ++ [.drop f]) s' := by
  have hprogress := h.progress f fl hf
  have hothers : ∀ g, g ≠ f → (FlightAction.drop f : FlightAction K).completes g = none := by
    intro g hg
    simp [FlightAction.completes, Ne.symm hg]
  by_cases hfinished : fl.finished = true
  · rw [if_pos hfinished] at hstep
    cases hstep
    have hdone : ¬fl.Unfinished := fun hu => by simp [hu.1] at hfinished
    obtain ⟨first, hfirst⟩ := hprogress.completed hdone
    rw [hfirst] at hprogress
    apply h.setFlight hf (by rfl)
    · rw [firstOutcome_append, hfirst]
      exact ⟨fun hu => absurd hu.2 (by simp), hprogress.2⟩
    · exact hothers
    · have hidle : ∀ outcome, fl.phase ≠ .removing outcome := by
        intro outcome
        rw [hfree.2]
        nofun
      have hleft := Flight.not_registered hdone hidle
      have hright : ¬({ fl with dropped := true } : Flight K).Registered :=
        Flight.not_registered (fun hu => absurd hu.2 (by simp)) hidle
      exact ⟨fun hr => absurd hr hright, fun hr => absurd hr hleft⟩
    · exact id
  · rw [if_neg hfinished] at hstep
    cases hstep
    have hunfinished : fl.Unfinished := ⟨by simpa using hfinished, hfree.1⟩
    obtain ⟨hfirst, -, hblocking, houtcome, hversion⟩ := hprogress.fresh hunfinished
    apply h.setFlight hf (by rfl)
    · rw [firstOutcome_append, hfirst]
      simp only [FlightAction.completes, if_pos, Option.none_or]
      exact ⟨fun hu => absurd hu.2 (by simp), fun _ => hversion, rfl, hblocking, houtcome⟩
    · exact hothers
    · exact ⟨fun _ => .inl hunfinished, fun _ => .inr ⟨droppedOutcome, rfl⟩⟩
    · exact fun _ => .inl hblocking

/-- Looking up after the removal of one key. -/
theorem lookup_filter_ne {key other : K} (entries : List (K × Nat)) :
    (entries.filter (·.1 ≠ key)).lookup other = if other = key then none else entries.lookup other := by
  induction entries with
  | nil => simp
  | cons entry entries ih =>
    obtain ⟨k, f⟩ := entry
    by_cases hk : k = key
    · rw [List.filter_cons_of_neg (by simpa using hk), ih, List.lookup_cons]
      by_cases hother : other = key
      · simp [hother]
      · have hne : (other == k) = false := by simpa [hk] using hother
        simp [hother, hne]
    · rw [List.filter_cons_of_pos (by simpa using hk), List.lookup_cons, List.lookup_cons, ih]
      by_cases hother : other = key
      · subst hother
        simp [beq_eq_false_iff_ne.2 (Ne.symm hk)]
      · simp [hother]

/-- A completion under way, its outcome the first one. -/
theorem Inv.underway (h : s.Inv done) {f : Nat} {fl : Flight K} (hf : s.flights[f]? = some fl) (hphase : fl.phase ≠ .idle) :
    ∃ first, firstOutcome done f = some first ∧ fl.Progress (some first) := by
  have hprogress := h.progress f fl hf
  have hdone : ¬fl.Unfinished := fun hu => hphase (hprogress.fresh hu).2.1
  obtain ⟨first, hfirst⟩ := hprogress.completed hdone
  rw [hfirst] at hprogress
  exact ⟨first, hfirst, hprogress⟩

/-- What is left of the registry when a flight unregisters. -/
theorem Inv.lookup_unregister (h : s.Inv done) {f : Nat} {fl fl' : Flight K} (hf : s.flights[f]? = some fl)
    (hregistered : fl.Registered) (hunregistered : ¬fl'.Registered) {entries' : List (K × Nat)}
    (hentries' : s.unregister f fl.key = some entries') :
    ∃ entries, s.registry = some entries ∧
      ∀ key g, entries'.lookup key = some g ↔ entries.lookup key = some g ∧ (g = f → fl'.Registered) := by
  obtain ⟨entries, hentries, rfl⟩ := Option.map_eq_some_iff.1 hentries'
  have hown := (h.entries entries hentries fl.key f).2 ⟨fl, hf, rfl, hregistered⟩
  refine ⟨entries, hentries, fun key g => ?_⟩
  rw [if_pos hown, lookup_filter_ne]
  constructor
  · intro hlookup
    by_cases hkey : key = fl.key
    · rw [if_pos hkey] at hlookup
      cases hlookup
    · rw [if_neg hkey] at hlookup
      refine ⟨hlookup, ?_⟩
      rintro rfl
      obtain ⟨gl, hg, hk, -⟩ := (h.entries entries hentries key g).1 hlookup
      rw [hf] at hg
      cases hg
      exact absurd hk.symm hkey
  · rintro ⟨hlookup, hne⟩
    have hgf : g ≠ f := fun heq => hunregistered (hne heq)
    have hkey : key ≠ fl.key := by
      rintro rfl
      rw [hown] at hlookup
      cases hlookup
      exact hgf rfl
    rw [if_neg hkey]
    exact hlookup

/-- A notification wakes every sleeper of the flight and nothing else. -/
theorem notified_spec (f : Nat) (waiter : Waiter) : (waiter.notified f).flight = waiter.flight ∧
    ((waiter.notified f).state = waiter.state ∨ (waiter.notified f).state = .locking) ∧
      ((waiter.notified f).state = .asleep → (waiter.notified f).flight ≠ f) := by
  unfold Waiter.notified
  split
  · exact ⟨rfl, .inr rfl, nofun⟩
  · rename_i hno
    exact ⟨rfl, .inl rfl, fun hstate hflight => hno ⟨hflight, hstate⟩⟩

theorem Inv.advance (h : s.Inv done) {f : Nat} {fl : Flight K} (hf : s.flights[f]? = some fl)
    (hstep : s.advance f fl = some s') : Inv (done ++ [.advance f]) s' := by
  have hsilent : ∀ g, (FlightAction.advance f : FlightAction K).completes g = none := fun _ => rfl
  have hothers : ∀ g, g ≠ f → (FlightAction.advance f : FlightAction K).completes g = none := fun g _ => hsilent g
  have hsame : firstOutcome (done ++ [.advance f]) f = firstOutcome done f := firstOutcome_of_silent hsilent f
  simp only [Flights.advance] at hstep
  cases hphase : fl.phase with
  | idle =>
    rw [hphase] at hstep
    cases hstep
  | removing outcome =>
    rw [hphase] at hstep
    cases hstep
    obtain ⟨first, hfirst, hdone, hversion, hrest⟩ := h.underway hf (by rw [hphase]; nofun)
    rw [hphase] at hrest
    have hunregistered : ¬({ fl with phase := .publishing outcome } : Flight K).Registered :=
      Flight.not_registered hdone fun _ => nofun
    apply h.replace hf (by rfl)
    · rw [hsame, hfirst]
      exact ⟨hdone, hversion, hrest⟩
    · exact hothers
    · exact fun hr => absurd hr hunregistered
    · exact fun _ hentries' => h.lookup_unregister hf (.inr ⟨outcome, hphase⟩) hunregistered hentries'
    · intro w waiter hw
      exact ⟨waiter, hw, rfl, .inl rfl, fun _ _ => .inl hrest.2.1⟩
  | publishing outcome =>
    rw [hphase] at hstep
    cases hstep
    obtain ⟨first, hfirst, hdone, hversion, hrest⟩ := h.underway hf (by rw [hphase]; nofun)
    rw [hphase] at hrest
    obtain ⟨rfl, -, houtcome⟩ := hrest
    apply h.setFlight hf (by rfl)
    · rw [hsame, hfirst]
      exact ⟨hdone, hversion, rfl, rfl, houtcome⟩
    · exact hothers
    · constructor
      · exact fun hr => absurd hr (Flight.not_registered hdone fun _ => nofun)
      · exact fun hr => absurd hr (Flight.not_registered hdone fun _ => by rw [hphase]; nofun)
    · exact fun _ => .inr ⟨outcome, rfl⟩
  | notifying outcome =>
    rw [hphase] at hstep
    cases hstep
    obtain ⟨first, hfirst, hdone, hversion, hrest⟩ := h.underway hf (by rw [hphase]; nofun)
    rw [hphase] at hrest
    apply h.replace hf (by rfl)
    · rw [hsame, hfirst]
      exact ⟨hdone, hversion, hrest⟩
    · exact hothers
    · exact fun hr => absurd hr (Flight.not_registered hdone fun _ => nofun)
    · intro entries hentries
      refine ⟨entries, hentries, fun key g => ?_⟩
      constructor
      · intro hlookup
        refine ⟨hlookup, ?_⟩
        rintro rfl
        obtain ⟨gl, hg, -, hreg⟩ := (h.entries entries hentries key g).1 hlookup
        rw [hf] at hg
        cases hg
        exact absurd hreg (Flight.not_registered hdone fun _ => by rw [hphase]; nofun)
      · exact fun hlookup => hlookup.1
    · intro w waiter' hw
      rw [List.getElem?_map, Option.map_eq_some_iff] at hw
      obtain ⟨waiter, hw, rfl⟩ := hw
      obtain ⟨hflight, hstate, hasleep⟩ := notified_spec f waiter
      exact ⟨waiter, hw, hflight, hstate, fun hsleeps hf => absurd hf (hasleep hsleeps)⟩
  | sending outcome =>
    rw [hphase] at hstep
    cases hstep
    obtain ⟨first, hfirst, hdone, hversion, hrest⟩ := h.underway hf (by rw [hphase]; nofun)
    rw [hphase] at hrest
    obtain ⟨rfl, hblocking, houtcome⟩ := hrest
    apply h.setFlight hf (by rfl)
    · rw [hsame, hfirst]
      refine ⟨hdone, nofun, hblocking, rfl, ?_⟩
      show fl.version + 1 = 1
      rw [hversion houtcome]
    · exact hothers
    · constructor
      · exact fun hr => absurd hr (Flight.not_registered hdone fun _ => nofun)
      · exact fun hr => absurd hr (Flight.not_registered hdone fun _ => by rw [hphase]; nofun)
    · rintro (hnone | ⟨_, hp⟩)
      · exact .inl hnone
      · rw [hphase] at hp
        cases hp

end Flights

end VgiDatafusion
