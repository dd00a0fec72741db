import VgiDatafusion.Cache.Flights

/-!
# One producer a key, one outcome a flight

`Flights.Inv` holds after every run; what the registry promises is read off it at the moments when no
completion is under way.
-/
namespace VgiDatafusion

open StepSystem ListFacts

variable {K : Type} [DecidableEq K]

namespace Flights

variable {s s' : Flights K} {done : List (FlightAction K)} {a : FlightAction K}

omit [DecidableEq K] in
/-- Taking the lock of a producer that is there and not completing. -/
theorem free_of_guard {flight : Flight K} {next : Option (Flights K)}
    (h : (if flight.dropped || flight.phase ≠ .idle then none else next) = some s') :
    (flight.dropped = false ∧ flight.phase = .idle) ∧ next = some s' := by
  by_cases hguard : (flight.dropped || decide (flight.phase ≠ .idle)) = true
  · rw [if_pos hguard] at h
    cases h
  · rw [if_neg hguard] at h
    simp at hguard
    exact ⟨hguard, h⟩

theorem Inv.poll (h : s.Inv done) {w : Nat} {waiter : Waiter} {flight : Flight K} (hw : s.waiters[w]? = some waiter)
    (hf : s.flights[waiter.flight]? = some flight) (hstep : s.poll w waiter flight = some s') :
    Inv (done ++ [.poll w]) s' := by
  have hprogress := h.progress _ _ hf
  have hknown : ∀ outcome, flight.outcome = some outcome ∨ flight.blockingOutcome = some outcome →
      firstOutcome done waiter.flight = some outcome := by
    intro outcome ho
    cases hfirst : firstOutcome done waiter.flight with
    | none =>
      rw [hfirst] at hprogress
      obtain ⟨-, -, hblocking, houtcome, -⟩ := hprogress
      rw [houtcome, hblocking] at ho
      simp at ho
    | some first =>
      rw [hfirst] at hprogress
      obtain ⟨-, -, hrest⟩ := hprogress
      cases hphase : flight.phase <;> rw [hphase] at hrest <;> simp_all
  simp only [Flights.poll] at hstep
  split at hstep
  · cases hstep
    apply h.setWaiter (fun _ => rfl) hw
    intro fl hfl
    rw [hf] at hfl
    cases hfl
    cases houtcome : flight.outcome with
    | none =>
      show flight.version = 0
      cases hfirst : firstOutcome done waiter.flight with
      | none =>
        rw [hfirst] at hprogress
        exact hprogress.2.2.2.2
      | some first =>
        rw [hfirst] at hprogress
        exact hprogress.2.1 houtcome
    | some outcome => exact hknown outcome (.inl houtcome)
  · split at hstep
    · cases hstep
    · cases hstep
      exact h.setWaiter (fun _ => rfl) hw fun _ _ => trivial
  · cases hstep
    apply h.setWaiter (fun _ => rfl) hw
    intro fl hfl
    rw [hf] at hfl
    cases hfl
    cases hblocking : flight.blockingOutcome with
    | none => exact .inl hblocking
    | some outcome => exact hknown outcome (.inr hblocking)
  · cases hstep

theorem Inv.step (h : s.Inv done) (hstep : s.step a = some s') : Inv (done ++ [a]) s' := by
  cases a with
  | acquire key =>
    obtain ⟨entries, hentries, rfl⟩ := Option.map_eq_some_iff.1 hstep
    exact h.acquire hentries
  | finish f outcome =>
    obtain ⟨flight, hf, hstep⟩ := Option.bind_eq_some_iff.1 hstep
    obtain ⟨hfree, hstep⟩ := free_of_guard hstep
    exact h.finish hf hfree hstep
  | drop f =>
    obtain ⟨flight, hf, hstep⟩ := Option.bind_eq_some_iff.1 hstep
    obtain ⟨hfree, hstep⟩ := free_of_guard hstep
    exact h.drop hf hfree hstep
  | advance f =>
    obtain ⟨flight, hf, hstep⟩ := Option.bind_eq_some_iff.1 hstep
    exact h.advance hf hstep
  | waitAsync w =>
    obtain ⟨waiter, hw, hstep⟩ := Option.bind_eq_some_iff.1 hstep
    obtain ⟨-, hstep⟩ := Option.ite_none_right_eq_some.1 hstep
    cases hstep
    exact h.setWaiter (fun _ => rfl) hw fun _ _ => trivial
  | waitBlocking w =>
    obtain ⟨waiter, hw, hstep⟩ := Option.bind_eq_some_iff.1 hstep
    obtain ⟨-, hstep⟩ := Option.ite_none_right_eq_some.1 hstep
    cases hstep
    exact h.setWaiter (fun _ => rfl) hw fun _ _ => trivial
  | poll w =>
    obtain ⟨waiter, hw, hstep⟩ := Option.bind_eq_some_iff.1 hstep
    obtain ⟨flight, hf, hstep⟩ := Option.bind_eq_some_iff.1 hstep
    exact h.poll hw hf hstep
  | wakeSpuriously w =>
    obtain ⟨waiter, hw, hstep⟩ := Option.bind_eq_some_iff.1 hstep
    obtain ⟨-, hstep⟩ := Option.ite_none_right_eq_some.1 hstep
    cases hstep
    exact h.setWaiter (fun _ => rfl) hw fun _ _ => trivial
  | dropRegistry =>
    cases hstep
    refine Inv.silent ?_ fun _ => rfl
    exact ⟨h.progress, h.unknown, h.unique, nofun, h.waiters⟩

theorem inv_init : (({} : Flights K)).Inv [] := by
  constructor
  · intro f fl hf
    simp at hf
  · exact fun _ _ => rfl
  · intro f g fl gl hf
    simp at hf
  · intro entries hentries key f
    cases hentries
    simp
  · intro w waiter hw
    simp at hw

theorem run_inv (hrun : done.foldlM Flights.step ({} : Flights K) = some s) : s.Inv done :=
  run_invariant_of_partial inv_init (fun _ _ _ _ h hstep => h.step hstep) hrun

/-- No completion is under way. -/
def Quiet (s : Flights K) : Prop := ∀ fl ∈ s.flights, fl.phase = .idle

omit [DecidableEq K] in
theorem Quiet.phase (h : s.Quiet) {f : Nat} {fl : Flight K} (hf : s.flights[f]? = some fl) : fl.phase = .idle :=
  h fl (List.mem_of_getElem? hf)

omit [DecidableEq K] in
/-- At a quiet moment the registered flights are those without a completion. -/
theorem Quiet.registered_iff (h : s.Quiet) {f : Nat} {fl : Flight K} (hf : s.flights[f]? = some fl) :
    fl.Registered ↔ fl.Unfinished := by
  constructor
  · rintro (hu | ⟨outcome, hphase⟩)
    · exact hu
    · rw [h.phase hf] at hphase
      cases hphase
  · exact .inl

/-- What a flight has published once nothing is under way. -/
theorem Inv.published (h : s.Inv done) (hquiet : s.Quiet) {f : Nat} {fl : Flight K} {first : FlightOutcome}
    (hf : s.flights[f]? = some fl) (hfirst : firstOutcome done f = some first) :
    fl.blockingOutcome = some first ∧ fl.outcome = some first ∧ fl.version = 1 := by
  have hprogress := h.progress f fl hf
  rw [hfirst] at hprogress
  obtain ⟨-, -, hrest⟩ := hprogress
  rw [hquiet.phase hf] at hrest
  exact hrest

theorem step_poll {w : Nat} {waiter : Waiter} {fl : Flight K} (hw : s.waiters[w]? = some waiter)
    (hf : s.flights[waiter.flight]? = some fl) : s.step (.poll w) = s.poll w waiter fl := by
  show (s.waiters[w]?.bind fun waiter => s.flights[waiter.flight]?.bind fun flight => s.poll w waiter flight) = _
  rw [hw, Option.bind_some, hf, Option.bind_some]

/-- A wait that has begun returns within two looks once its producer is done: it is not left asleep, and
its receiver has a version to catch up with. -/
theorem Inv.returns (h : s.Inv done) (hquiet : s.Quiet) {w : Nat} {waiter : Waiter} {first : FlightOutcome}
    (hw : s.waiters[w]? = some waiter) (hfirst : firstOutcome done waiter.flight = some first)
    (hbegun : waiter.state ≠ .acquired) :
    ∃ n ≤ 2, ∃ s', (List.replicate n (.poll w)).foldlM Flights.step s = some s' ∧
      s'.waiters[w]? = some ⟨waiter.flight, .returned first⟩ := by
  obtain ⟨fl, hf, hknows⟩ := h.waiters w waiter hw
  obtain ⟨hblocking, houtcome, hversion⟩ := h.published hquiet hf hfirst
  have hlt : w < s.waiters.length := (List.getElem?_eq_some_iff.1 hw).1
  have hset : ∀ state, (s.setWaiter w waiter state).waiters[w]? = some ⟨waiter.flight, state⟩ := by
    intro state
    rw [Flights.setWaiter, List.getElem?_set_self hlt]
  cases hstate : waiter.state with
  | acquired => exact absurd hstate hbegun
  | returned outcome =>
    rw [hstate] at hknows
    refine ⟨0, by omega, s, rfl, ?_⟩
    rw [hw, ← Option.some.inj (hknows.symm.trans hfirst), ← hstate]
  | asleep =>
    -- it would have been woken before the outcome was sent
    rw [hstate] at hknows
    rcases hknows with hnone | ⟨outcome, hphase⟩
    · rw [hblocking] at hnone
      cases hnone
    · rw [hquiet.phase hf] at hphase
      cases hphase
  | locking =>
    have hpoll : s.step (.poll w) = some (s.setWaiter w waiter (.returned first)) := by
      rw [step_poll hw hf, Flights.poll, hstate]
      simp only [hblocking]
    refine ⟨1, by omega, s.setWaiter w waiter (.returned first), ?_, hset _⟩
    rw [List.replicate_one, List.foldlM_cons, hpoll]
    rfl
  | polling =>
    have hpoll : s.step (.poll w) = some (s.setWaiter w waiter (.returned first)) := by
      rw [step_poll hw hf, Flights.poll, hstate]
      simp only [houtcome]
    refine ⟨1, by omega, s.setWaiter w waiter (.returned first), ?_, hset _⟩
    rw [List.replicate_one, List.foldlM_cons, hpoll]
    rfl
  | pending seen =>
    rw [hstate] at hknows
    have hseen : seen = 0 := hknows
    have hwake : s.step (.poll w) = some (s.setWaiter w waiter .polling) := by
      rw [step_poll hw hf, Flights.poll, hstate]
      simp [hversion, hseen]
    have hpoll : (s.setWaiter w waiter .polling).step (.poll w) =
        some ((s.setWaiter w waiter .polling).setWaiter w ⟨waiter.flight, .polling⟩ (.returned first)) := by
      rw [step_poll (hset .polling) hf, Flights.poll]
      simp only [houtcome]
    refine ⟨2, by omega,
      (s.setWaiter w waiter .polling).setWaiter w ⟨waiter.flight, .polling⟩ (.returned first), ?_, ?_⟩
    · show ([FlightAction.poll w, .poll w]).foldlM Flights.step s = _
      rw [List.foldlM_cons, hwake]
      show ([FlightAction.poll w]).foldlM Flights.step (s.setWaiter w waiter .polling) = _
      rw [List.foldlM_cons, hpoll]
      rfl
    · rw [Flights.setWaiter, List.getElem?_set_self]
      show w < (s.waiters.set w _).length
      rw [List.length_set]
      exact hlt

/-! ## Frames -/

/-- What a step can touch. -/
theorem step_cases (hstep : s.step a = some s') :
    (∃ key entries, a = .acquire key ∧ s.registry = some entries ∧ s' = s.acquire key entries) ∨
    (∃ f fl, (a.completes f).isSome ∧ s.flights[f]? = some fl ∧ (s' = s ∨ ∃ fl', s' = s.setFlight f fl')) ∨
    (∃ f fl, a = .advance f ∧ s.flights[f]? = some fl ∧ s.advance f fl = some s') ∨
    (∃ w waiter state, s.waiters[w]? = some waiter ∧ s' = s.setWaiter w waiter state) ∨
    (a = .dropRegistry ∧ s' = { s with registry := none }) := by
  -- the three ways a wait begins or wakes share their shape
  have hwait : ∀ {w : Nat} {before after : WaitState},
      (s.waiters[w]?.bind fun waiter => if waiter.state = before then some (s.setWaiter w waiter after) else none) = some s' →
      ∃ w waiter state, s.waiters[w]? = some waiter ∧ s' = s.setWaiter w waiter state := by
    intro w before after h
    obtain ⟨waiter, hw, h⟩ := Option.bind_eq_some_iff.1 h
    obtain ⟨-, h⟩ := Option.ite_none_right_eq_some.1 h
    exact ⟨w, waiter, after, hw, (Option.some.inj h).symm⟩
  cases a with
  | acquire key =>
    obtain ⟨entries, hentries, rfl⟩ := Option.map_eq_some_iff.1 hstep
    exact .inl ⟨key, entries, rfl, hentries, rfl⟩
  | finish f outcome =>
    obtain ⟨fl, hf, hstep⟩ := Option.bind_eq_some_iff.1 hstep
    obtain ⟨-, hstep⟩ := free_of_guard hstep
    refine .inr (.inl ⟨f, fl, by simp [FlightAction.completes], hf, ?_⟩)
    split at hstep
    · exact .inl (Option.some.inj hstep).symm
    · exact .inr ⟨_, (Option.some.inj hstep).symm⟩
  | drop f =>
    obtain ⟨fl, hf, hstep⟩ := Option.bind_eq_some_iff.1 hstep
    obtain ⟨-, hstep⟩ := free_of_guard hstep
    refine .inr (.inl ⟨f, fl, by simp [FlightAction.completes], hf, .inr ?_⟩)
    split at hstep
    · exact ⟨_, (Option.some.inj hstep).symm⟩
    · exact ⟨_, (Option.some.inj hstep).symm⟩
  | advance f =>
    obtain ⟨fl, hf, hstep⟩ := Option.bind_eq_some_iff.1 hstep
    exact .inr (.inr (.inl ⟨f, fl, rfl, hf, hstep⟩))
  | waitAsync w => exact .inr (.inr (.inr (.inl (hwait hstep))))
  | waitBlocking w => exact .inr (.inr (.inr (.inl (hwait hstep))))
  | wakeSpuriously w => exact .inr (.inr (.inr (.inl (hwait hstep))))
  | poll w =>
    obtain ⟨waiter, hw, hstep⟩ := Option.bind_eq_some_iff.1 hstep
    obtain ⟨fl, -, hstep⟩ := Option.bind_eq_some_iff.1 hstep
    refine .inr (.inr (.inr (.inl ⟨w, waiter, ?_⟩)))
    simp only [Flights.poll] at hstep
    split at hstep
    · exact ⟨_, hw, (Option.some.inj hstep).symm⟩
    · split at hstep
      · cases hstep
      · exact ⟨_, hw, (Option.some.inj hstep).symm⟩
    · exact ⟨_, hw, (Option.some.inj hstep).symm⟩
    · cases hstep
  | dropRegistry => exact .inr (.inr (.inr (.inr ⟨rfl, (Option.some.inj hstep).symm⟩)))

/-- No step moves a waiter to another flight. -/
theorem step_waiter {w : Nat} {waiter : Waiter} (hstep : s.step a = some s') (hw : s.waiters[w]? = some waiter) :
    ∃ waiter', s'.waiters[w]? = some waiter' ∧ waiter'.flight = waiter.flight := by
  have hlt : w < s.waiters.length := (List.getElem?_eq_some_iff.1 hw).1
  rcases step_cases hstep with ⟨key, entries, -, -, rfl⟩ | ⟨f, fl, -, -, rfl | ⟨fl', rfl⟩⟩ | ⟨f, fl, -, -, hadvance⟩ |
    ⟨v, other, state, hv, rfl⟩ | ⟨-, rfl⟩
  · rw [Flights.acquire]
    split
    · refine ⟨waiter, ?_, rfl⟩
      rw [List.getElem?_append_left hlt]
      exact hw
    · exact ⟨waiter, hw, rfl⟩
  · exact ⟨waiter, hw, rfl⟩
  · exact ⟨waiter, hw, rfl⟩
  · simp only [Flights.advance] at hadvance
    split at hadvance
    · cases hadvance
    · cases hadvance
      exact ⟨waiter, hw, rfl⟩
    · cases hadvance
      exact ⟨waiter, hw, rfl⟩
    · cases hadvance
      refine ⟨waiter.notified f, ?_, ?_⟩
      · rw [List.getElem?_map, hw]
        rfl
      · rw [Waiter.notified]
        split <;> rfl
    · cases hadvance
      exact ⟨waiter, hw, rfl⟩
  · by_cases hvw : v = w
    · subst hvw
      rw [hw] at hv
      cases hv
      refine ⟨⟨waiter.flight, state⟩, ?_, rfl⟩
      rw [Flights.setWaiter, List.getElem?_set_self hlt]
    · refine ⟨waiter, ?_, rfl⟩
      rw [Flights.setWaiter, List.getElem?_set_ne hvw]
      exact hw
  · exact ⟨waiter, hw, rfl⟩

theorem run_waiter {after : List (FlightAction K)} {w : Nat} {waiter : Waiter} (hw : s.waiters[w]? = some waiter)
    (hrun : after.foldlM Flights.step s = some s') :
    ∃ waiter', s'.waiters[w]? = some waiter' ∧ waiter'.flight = waiter.flight := by
  induction after generalizing s waiter with
  | nil =>
    cases hrun
    exact ⟨waiter, hw, rfl⟩
  | cons a after ih =>
    rw [List.foldlM_cons] at hrun
    obtain ⟨next, hnext, hrun⟩ := Option.bind_eq_some_iff.1 hrun
    obtain ⟨waiter₁, hw₁, hflight₁⟩ := step_waiter hnext hw
    obtain ⟨waiter₂, hw₂, hflight₂⟩ := ih hw₁ hrun
    exact ⟨waiter₂, hw₂, hflight₂.trans hflight₁⟩

/-- An entry stays until its own flight is removed or the registry is gone. -/
theorem step_entry {entries : List (K × Nat)} {key : K} {g : Nat} (hentries : s.registry = some entries)
    (hlookup : entries.lookup key = some g) (hstep : s.step a = some s') (hown : a ≠ .advance g)
    (halive : a ≠ .dropRegistry) : ∃ entries', s'.registry = some entries' ∧ entries'.lookup key = some g := by
  rcases step_cases hstep with ⟨other, entries', -, hentries', rfl⟩ | ⟨f, fl, -, -, rfl | ⟨fl', rfl⟩⟩ |
    ⟨f, fl, rfl, -, hadvance⟩ | ⟨v, waiter, state, -, rfl⟩ | ⟨rfl, -⟩
  · rw [hentries] at hentries'
    cases hentries'
    rw [Flights.acquire]
    split
    · exact ⟨entries, hentries, hlookup⟩
    · rename_i hnone
      refine ⟨_, rfl, ?_⟩
      have hne : (key == other) = false := by
        rw [beq_eq_false_iff_ne]
        rintro rfl
        rw [hlookup] at hnone
        cases hnone
      rw [List.lookup_cons, hne]
      exact hlookup
  · exact ⟨entries, hentries, hlookup⟩
  · exact ⟨entries, hentries, hlookup⟩
  · simp only [Flights.advance] at hadvance
    split at hadvance
    · cases hadvance
    · cases hadvance
      have hregistry : s.unregister f fl.key =
          some (if entries.lookup fl.key = some f then entries.filter (·.1 ≠ fl.key) else entries) := by
        rw [Flights.unregister, hentries]
        rfl
      refine ⟨_, hregistry, ?_⟩
      by_cases hmine : entries.lookup fl.key = some f
      · -- the key of the flight that goes leads to that flight, so it is another key
        have hkey : key ≠ fl.key := by
          rintro rfl
          rw [hlookup] at hmine
          exact hown (by rw [Option.some.inj hmine])
        rw [if_pos hmine, lookup_filter_ne, if_neg hkey]
        exact hlookup
      · rw [if_neg hmine]
        exact hlookup
    · cases hadvance
      exact ⟨entries, hentries, hlookup⟩
    · cases hadvance
      exact ⟨entries, hentries, hlookup⟩
    · cases hadvance
      exact ⟨entries, hentries, hlookup⟩
  · exact ⟨entries, hentries, hlookup⟩
  · exact absurd rfl halive

/-- The registry, the waiters and, of every flight, all but whether its producer is gone. -/
structure SameView (s s' : Flights K) : Prop where
  registry : s'.registry = s.registry
  waiters : s'.waiters = s.waiters
  flights : s'.flights.map (fun fl => { fl with dropped := false }) = s.flights.map fun fl => { fl with dropped := false }

theorem Inv.finished (h : s.Inv done) {f : Nat} {fl : Flight K} {first : FlightOutcome} (hf : s.flights[f]? = some fl)
    (hfirst : firstOutcome done f = some first) (hdropped : fl.dropped = false) : fl.finished = true := by
  have hprogress := h.progress f fl hf
  rw [hfirst] at hprogress
  by_contra hno
  exact hprogress.1 ⟨by simpa using hno, hdropped⟩

omit [DecidableEq K] in
theorem sameView_drop {f : Nat} {fl : Flight K} (hf : s.flights[f]? = some fl) :
    s.SameView (s.setFlight f { fl with dropped := true }) := by
  refine ⟨rfl, rfl, ?_⟩
  apply List.ext_getElem?
  intro i
  rw [List.getElem?_map, List.getElem?_map]
  by_cases hi : i = f
  · subst hi
    rw [Flights.setFlight, List.getElem?_set_self (List.getElem?_eq_some_iff.1 hf).1, hf]
    rfl
  · rw [Flights.setFlight, List.getElem?_set_ne (Ne.symm hi)]

/-- A completion of a completed producer changes nothing. -/
theorem Inv.complete_again (h : s.Inv done) {f : Nat} {first : FlightOutcome} (hfirst : firstOutcome done f = some first)
    (ha : (a.completes f).isSome) (hstep : s.step a = some s') : s.SameView s' := by
  cases a with
  | finish g outcome =>
    have hgf : g = f := by
      by_contra hne
      simp [FlightAction.completes, hne] at ha
    subst hgf
    obtain ⟨fl, hf, hstep⟩ := Option.bind_eq_some_iff.1 hstep
    obtain ⟨⟨hdropped, -⟩, hstep⟩ := free_of_guard hstep
    rw [if_pos (h.finished hf hfirst hdropped)] at hstep
    cases hstep
    exact ⟨rfl, rfl, rfl⟩
  | drop g =>
    have hgf : g = f := by
      by_contra hne
      simp [FlightAction.completes, hne] at ha
    subst hgf
    obtain ⟨fl, hf, hstep⟩ := Option.bind_eq_some_iff.1 hstep
    obtain ⟨⟨hdropped, -⟩, hstep⟩ := free_of_guard hstep
    rw [if_pos (h.finished hf hfirst hdropped)] at hstep
    cases hstep
    exact sameView_drop hf
  | acquire key => simp [FlightAction.completes] at ha
  | advance g => simp [FlightAction.completes] at ha
  | waitAsync w => simp [FlightAction.completes] at ha
  | waitBlocking w => simp [FlightAction.completes] at ha
  | poll w => simp [FlightAction.completes] at ha
  | wakeSpuriously w => simp [FlightAction.completes] at ha
  | dropRegistry => simp [FlightAction.completes] at ha

end Flights

/-! ## What the registry promises -/

/-- After a run: the registry at a quiet moment, completions of completed producers, the followers, and the
flights that finish beside others of their key. -/
structure SingleFlight (done : List (FlightAction K)) (s : Flights K) : Prop where
  one : s.Quiet → ∀ (f g : Nat) (fl gl : Flight K), s.flights[f]? = some fl → s.flights[g]? = some gl →
    fl.Unfinished → gl.Unfinished → fl.key = gl.key → f = g
  registry : s.Quiet → ∀ entries, s.registry = some entries → ∀ key f, entries.lookup key = some f ↔
    ∃ fl : Flight K, s.flights[f]? = some fl ∧ fl.key = key ∧ fl.Unfinished
  once : ∀ f first a s', firstOutcome done f = some first → (a.completes f).isSome → s.step a = some s' → s.SameView s'
  /-- A follower is one of the flight its key led to, and stays so. -/
  joins : ∀ before key after s₀ entries f, done = before ++ .acquire key :: after →
    before.foldlM Flights.step {} = some s₀ → s₀.registry = some entries → entries.lookup key = some f →
    ∃ waiter : Waiter, s.waiters[s₀.waiters.length]? = some waiter ∧ waiter.flight = f
  returned : ∀ (w : Nat) (waiter : Waiter) outcome, s.waiters[w]? = some waiter → waiter.state = .returned outcome →
    firstOutcome done waiter.flight = some outcome
  returns : s.Quiet → ∀ (w : Nat) (waiter : Waiter) first, s.waiters[w]? = some waiter → waiter.state ≠ .acquired →
    firstOutcome done waiter.flight = some first →
    ∃ n ≤ 2, ∃ s', (List.replicate n (.poll w)).foldlM Flights.step s = some s' ∧
      s'.waiters[w]? = some ⟨waiter.flight, .returned first⟩
  newer : ∀ entries key g a s', s.registry = some entries → entries.lookup key = some g → s.step a = some s' →
    a ≠ .advance g → a ≠ .dropRegistry → ∃ entries', s'.registry = some entries' ∧ entries'.lookup key = some g

/-- **The registry keeps its promises in every run** of acquisitions, completions from all three places and
waits on both channels, interleaved in any way. -/
theorem single_flight (done : List (FlightAction K)) (s : Flights K)
    (hrun : done.foldlM Flights.step ({} : Flights K) = some s) : SingleFlight done s := by
  have h := Flights.run_inv hrun
  constructor
  · intro hquiet f g fl gl hf hg hfu hgu hkey
    exact h.unique f g fl gl hf hg (.inl hfu) (.inl hgu) hkey
  · intro hquiet entries hentries key f
    rw [h.entries entries hentries key f]
    constructor
    · rintro ⟨fl, hf, hkey, hreg⟩
      exact ⟨fl, hf, hkey, (hquiet.registered_iff hf).1 hreg⟩
    · rintro ⟨fl, hf, hkey, hun⟩
      exact ⟨fl, hf, hkey, .inl hun⟩
  · intro f first a s' hfirst ha hstep
    exact h.complete_again hfirst ha hstep
  · intro before key after s₀ entries f hsplit hbefore hentries hlookup
    rw [hsplit, List.foldlM_append, hbefore] at hrun
    have hrest : (FlightAction.acquire key :: after).foldlM Flights.step s₀ = some s := hrun
    rw [List.foldlM_cons] at hrest
    obtain ⟨s₁, hacquire, hafter⟩ := Option.bind_eq_some_iff.1 hrest
    have hs₁ : s₁ = s₀.acquire key entries := by
      obtain ⟨entries', hentries', heq⟩ := Option.map_eq_some_iff.1 hacquire
      rw [hentries] at hentries'
      cases hentries'
      exact heq.symm
    have hjoined : s₁.waiters[s₀.waiters.length]? = some ⟨f, .acquired⟩ := by
      rw [hs₁, Flights.acquire, hlookup]
      exact List.getElem?_concat_length
    obtain ⟨waiter, hw, hflight⟩ := Flights.run_waiter hjoined hafter
    exact ⟨waiter, hw, hflight⟩
  · intro w waiter outcome hw hstate
    obtain ⟨fl, hf, hknows⟩ := h.waiters w waiter hw
    rw [hstate] at hknows
    exact hknows
  · intro hquiet w waiter first hw hbegun hfirst
    exact h.returns hquiet hw hfirst hbegun
  · intro entries key g a s' hentries hlookup hstep hown halive
    exact Flights.step_entry hentries hlookup hstep hown halive

/-- A follower falls asleep, is woken by the producer and returns its outcome; the key is then free for a
second producer. -/
def wokenRun : List (FlightAction Nat) :=
  [.acquire 7, .acquire 7, .waitBlocking 0, .poll 0, .finish 0 .stored, .advance 0, .advance 0, .advance 0, .acquire 7,
    .advance 0, .poll 0, .drop 0]

def afterWoken : Flights Nat where
  registry := some [(7, 1)]
  flights := [⟨7, true, true, .idle, some .stored, some .stored, 1⟩, { key := 7 }]
  waiters := [⟨0, .returned .stored⟩]

theorem single_flight_woken : wokenRun.foldlM Flights.step {} = some afterWoken ∧ SingleFlight wokenRun afterWoken :=
  ⟨rfl, single_flight wokenRun afterWoken rfl⟩

end VgiDatafusion
