import VgiDatafusion.Library.Lists
import VgiDatafusion.Cache.Delivery

/-!
# The invariant of a running scan

`DeliveryInv` holds in every state reached by steps whose followers agree (`delivery_inv`). What a
partition emitted is one of two things: a cached result, all of it through partition 0, or what its
job delivers; and the shared cells leave room for both at once only among the followers of another
query's flight. There each follower decides for itself, after its own deadline and its own lookup of
a stale durable generation, so a split scan can replay the whole result in one partition and redeem
tokens in another. Nothing in the code excludes that; `FollowersAgree` does.
-/
namespace VgiDatafusion

variable {B R : Type}

def Phase.route : Phase B → Option Route
  | .starting => some .scanned
  | .done route _ => some route
  | _ => none

namespace DeliveryPlan

variable (plan : DeliveryPlan B R)

/-- The tokens partition `p` redeems in a split scan of its own. -/
def tokens (p : Nat) : List Token := (plan.groups.getD []).getD p []

/-- Its decision shows in the result: partition 0 replays, the others have tokens. -/
def Relevant (p : Nat) : Prop := p = 0 ∨ plan.tokens p ≠ []

/-- What a follower decides with this step, if it decides. -/
def decides (s : Delivery B) : DeliveryEvent B → Option (Nat × Route)
  | .observe p => if s.flightOutcome = some false then some (p, .scanned) else none
  | .timeOut p => some (p, .scanned)
  | .lookupStored p hit => if (s.flightProbe.getD hit).isSome then some (p, .cached) else none
  | .lookupStoredDisk p hit => if (s.flightDiskProbe.getD hit).isSome then some (p, .cached) else none
  | .lookupStoredStale p hit => some (p, if hit.isSome then .cached else .scanned)
  | _ => none

/-- In a split scan without a selected stale entry, a follower decides as those before it. -/
def FollowersAgree (s : Delivery B) (event : DeliveryEvent B) : Prop :=
  plan.groups.isSome = true → s.revalidationProbe = some none → ∀ p route, decides s event = some (p, route) →
    plan.Relevant p → ∀ q phase route', plan.Relevant q → s.phases[q]? = some phase → phase.route = some route' →
      route' = route

variable (worker : TokenWorker R) (Stored : List R → Prop)

/-- The lookups find complete results and the worker keeps to its rows. -/
def Sound : DeliveryEvent B → Prop
  | .execute _ hit stale => (∀ e, hit = some e → Complete Stored plan.ops e.read) ∧
      ∀ e, stale = some e → Complete Stored plan.ops e.read
  | .lookupStored _ hit => ∀ e, hit = some e → Complete Stored plan.ops e.read
  | .lookupDisk _ hit | .lookupStale _ hit | .lookupStoredDisk _ hit | .lookupStoredStale _ hit =>
    ∀ e, hit = some e → Complete Stored plan.ops e.read
  | .runJob _ env => Served worker plan.ops env
  | _ => True

/-! ## The invariant -/

/-- Both tiers were looked up before the flight, without a hit. -/
def Missed (s : Delivery B) : Prop := s.cacheProbe = some none ∧ s.diskProbe = some none

def Hit (s : Delivery B) : Prop := (∃ e, s.cacheProbe = some (some e)) ∨ ∃ hit, s.diskProbe = some (some hit)

theorem not_missed_of_hit {s : Delivery B} (h : Hit s) : ¬ Missed s := by
  rintro ⟨hcache, hdisk⟩
  rcases h with ⟨e, he⟩ | ⟨hit, hhit⟩
  · rw [hcache] at he
    cases he
  · rw [hdisk] at hhit
    cases hhit

/-- What is known of a partition from how far it is. -/
def PhaseInv (s : Delivery B) (p : Nat) : Phase B → Prop
  | .planned => True
  | .streaming stale => s.cacheProbe = some none ∧ ∀ e, stale = some e → Complete Stored plan.ops e.read
  | .diskMissed stale => Missed s ∧ ∀ e, stale = some e → Complete Stored plan.ops e.read
  | .selecting stale durable => Missed s ∧ (∀ e, stale = some e → Complete Stored plan.ops e.read) ∧
      ∀ e, durable = some e → Complete Stored plan.ops e.read
  | .serving entry => plan.groups = none ∧ Complete Stored plan.ops entry.read
  | .claiming => Missed s ∧ s.revalidationProbe.isSome = true
  | .waiting | .storedMemory | .storedDisk | .storedStale =>
    Missed s ∧ s.revalidationProbe.isSome = true ∧ s.flight = some .follower
  | .starting => Missed s ∧ s.revalidationProbe.isSome = true
  | .done .cached output => (∀ batches, output = .ok batches →
        if p = 0 then Stored (batches.flatMap plan.ops.rows) else batches = []) ∧
      (plan.groups.isSome = true → Hit s ∨ s.flight = some .follower)
  | .done .scanned output => Missed s ∧ s.revalidationProbe.isSome = true ∧ ∀ batches, output = .ok batches →
      JobDelivers worker Stored (plan.jobConfig p (s.revalidationProbe.getD none)) (batches.flatMap plan.ops.rows)

/-- Every shared cell holds complete results. -/
structure CellsComplete (s : Delivery B) : Prop where
  cache : ∀ e, s.cacheProbe = some (some e) → Complete Stored plan.ops e.read
  disk : ∀ e, s.diskProbe = some (some e) → Complete Stored plan.ops e.read
  stale : ∀ e, s.diskRevalidationProbe = some (some e) → Complete Stored plan.ops e.read
  selected : ∀ e, s.revalidationProbe = some (some e) → e.Complete Stored plan.ops
  flight : ∀ e, s.flightProbe = some (some e) → Complete Stored plan.ops e.read
  flightDisk : ∀ e, s.flightDiskProbe = some (some e) → Complete Stored plan.ops e.read

/-- Every cell that is filled is what the phases say of it. -/
structure DeliveryInv (s : Delivery B) : Prop where
  length : s.phases.length = plan.partitions
  cells : plan.CellsComplete Stored s
  phases : ∀ p phase, s.phases[p]? = some phase → plan.PhaseInv worker Stored s p phase
  agree : plan.groups.isSome = true → s.revalidationProbe = some none → ∀ p q a b,
    plan.Relevant p → plan.Relevant q → s.phases[p]? = some a → s.phases[q]? = some b →
      a.route = some .cached → b.route ≠ some .scanned

/-- The cells that decide keep what they hold. -/
structure Extends (s s' : Delivery B) : Prop where
  cache : ∀ v, s.cacheProbe = some v → s'.cacheProbe = some v
  disk : ∀ v, s.diskProbe = some v → s'.diskProbe = some v
  selected : ∀ v, s.revalidationProbe = some v → s'.revalidationProbe = some v
  flight : ∀ v, s.flight = some v → s'.flight = some v

variable {plan worker Stored} {s s' : Delivery B}

theorem Extends.missed (h : Extends s s') (hmissed : Missed s) : Missed s' :=
  ⟨h.cache _ hmissed.1, h.disk _ hmissed.2⟩

theorem Extends.hit (h : Extends s s') (hhit : Hit s) : Hit s' := by
  rcases hhit with ⟨e, he⟩ | ⟨hit, hhit⟩
  · exact Or.inl ⟨e, h.cache _ he⟩
  · exact Or.inr ⟨hit, h.disk _ hhit⟩

theorem Extends.selected_isSome (h : Extends s s') (hsome : s.revalidationProbe.isSome = true) :
    s'.revalidationProbe = s.revalidationProbe := by
  obtain ⟨v, hv⟩ := Option.isSome_iff_exists.1 hsome
  rw [hv]
  exact h.selected v hv

/-- What is known of a partition stays known. -/
theorem PhaseInv.mono (hextends : Extends s s') {p : Nat} {phase : Phase B}
    (h : plan.PhaseInv worker Stored s p phase) : plan.PhaseInv worker Stored s' p phase := by
  have hsome : s.revalidationProbe.isSome = true → s'.revalidationProbe.isSome = true := by
    intro hsome
    rw [hextends.selected_isSome hsome]
    exact hsome
  cases phase with
  | planned => exact h
  | streaming stale => exact ⟨hextends.cache _ h.1, h.2⟩
  | diskMissed stale => exact ⟨hextends.missed h.1, h.2⟩
  | selecting stale durable => exact ⟨hextends.missed h.1, h.2⟩
  | serving entry => exact h
  | claiming => exact ⟨hextends.missed h.1, hsome h.2⟩
  | waiting => exact ⟨hextends.missed h.1, hsome h.2.1, hextends.flight _ h.2.2⟩
  | storedMemory => exact ⟨hextends.missed h.1, hsome h.2.1, hextends.flight _ h.2.2⟩
  | storedDisk => exact ⟨hextends.missed h.1, hsome h.2.1, hextends.flight _ h.2.2⟩
  | storedStale => exact ⟨hextends.missed h.1, hsome h.2.1, hextends.flight _ h.2.2⟩
  | starting => exact ⟨hextends.missed h.1, hsome h.2⟩
  | done route output =>
    cases route with
    | cached => exact ⟨h.1, fun hsplit => (h.2 hsplit).imp hextends.hit (hextends.flight _)⟩
    | scanned =>
      refine ⟨hextends.missed h.1, hsome h.2.1, ?_⟩
      rw [hextends.selected_isSome h.2.1]
      exact h.2.2

/-- A partition that scans has missed both tiers, with the selection made. -/
theorem PhaseInv.of_scanned {p : Nat} {phase : Phase B} (h : plan.PhaseInv worker Stored s p phase)
    (hroute : phase.route = some .scanned) : Missed s ∧ s.revalidationProbe.isSome = true := by
  cases phase with
  | starting => exact h
  | done route output =>
    cases hroute
    exact ⟨h.1, h.2.1⟩
  | _ => cases hroute

theorem PhaseInv.of_cached {p : Nat} {phase : Phase B} (h : plan.PhaseInv worker Stored s p phase)
    (hroute : phase.route = some .cached) (hsplit : plan.groups.isSome = true) :
    Hit s ∨ s.flight = some .follower := by
  cases phase with
  | done route output =>
    cases hroute
    exact h.2 hsplit
  | _ => cases hroute

/-- One partition moves on. -/
theorem DeliveryInv.move (h : plan.DeliveryInv worker Stored s) {p : Nat} {phase : Phase B}
    (hextends : Extends s s') (hcells : plan.CellsComplete Stored s') (hphases : s'.phases = s.phases.set p phase)
    (hphase : plan.PhaseInv worker Stored s' p phase)
    (hagree : plan.groups.isSome = true → s'.revalidationProbe = some none → plan.Relevant p →
      ∀ q b, q ≠ p → plan.Relevant q → s.phases[q]? = some b →
        (phase.route = some .cached → b.route ≠ some .scanned) ∧
        (phase.route = some .scanned → b.route ≠ some .cached)) :
    plan.DeliveryInv worker Stored s' := by
  refine ⟨by rw [hphases, List.length_set]; exact h.length, hcells, ?_, ?_⟩
  · intro q b hq
    rw [hphases] at hq
    rcases ListFacts.getElem?_set_cases hq with ⟨rfl, rfl⟩ | ⟨-, hq⟩
    · exact hphase
    · exact (h.phases q b hq).mono hextends
  · intro hsplit hnone q r a b hq hr ha hb hcached hscanned
    rw [hphases] at ha hb
    rcases ListFacts.getElem?_set_cases ha with ⟨rfl, rfl⟩ | ⟨hqp, haold⟩
    · rcases ListFacts.getElem?_set_cases hb with ⟨rfl, rfl⟩ | ⟨hrp, hbold⟩
      · rw [hcached] at hscanned
        cases hscanned
      · exact (hagree hsplit hnone hq r b hrp hr hbold).1 hcached hscanned
    · rcases ListFacts.getElem?_set_cases hb with ⟨rfl, rfl⟩ | ⟨hrp, hbold⟩
      · exact (hagree hsplit hnone hr q a hqp hq haold).2 hscanned hcached
      · -- a scan was under way, so the selection had been made
        have hsome := (h.phases r b hbold).of_scanned hscanned
        rw [hextends.selected_isSome hsome.2] at hnone
        exact h.agree hsplit hnone q r a b hq hr haold hbold hcached hscanned

/-! ## Each step -/

/-- A partition that has not decided contradicts nobody. -/
theorem undecided {phase b : Phase B} (h : phase.route = none) :
    (phase.route = some .cached → b.route ≠ some .scanned) ∧ (phase.route = some .scanned → b.route ≠ some .cached) := by
  constructor
  · intro hroute
    rw [h] at hroute
    cases hroute
  · intro hroute
    rw [h] at hroute
    cases hroute

theorem Extends.of_same (hcache : s'.cacheProbe = s.cacheProbe) (hdisk : s'.diskProbe = s.diskProbe)
    (hselected : s'.revalidationProbe = s.revalidationProbe) (hflight : s'.flight = s.flight) : Extends s s' := by
  refine ⟨?_, ?_, ?_, ?_⟩
  · rw [hcache]; exact fun _ h => h
  · rw [hdisk]; exact fun _ h => h
  · rw [hselected]; exact fun _ h => h
  · rw [hflight]; exact fun _ h => h

/-- A replay through partition 0 emits a stored result. -/
theorem replayed_stored {p : Nat} {batches : List (Except String B)} (hcomplete : Complete Stored plan.ops batches) :
    ∀ out, plan.replayed p batches = .ok out → if p = 0 then Stored (out.flatMap plan.ops.rows) else out = [] := by
  intro out hout
  unfold replayed at hout
  split
  · rename_i hzero
    rw [if_pos hzero] at hout
    exact hcomplete out hout
  · rename_i hne
    rw [if_neg hne] at hout
    cases hout
    rfl

theorem getD_complete {α : Type} {P : α → Prop} {cell : Option (Option α)} {hit : Option α}
    (hcell : ∀ e, cell = some (some e) → P e) (hhit : ∀ e, hit = some e → P e) :
    ∀ e, some (cell.getD hit) = some (some e) → P e := by
  intro e he
  cases cell with
  | none => exact hhit e (by simpa using he)
  | some v => exact hcell e (by simpa using he)

theorem selectRevalidation_complete {stale : Option (CachedEntry B)} {durable : Option (DiskHit B)}
    (hstale : ∀ e, stale = some e → Complete Stored plan.ops e.read)
    (hdurable : ∀ e, durable = some e → Complete Stored plan.ops e.read) :
    ∀ e, selectRevalidation stale durable = some e → e.Complete Stored plan.ops := by
  intro e he
  cases stale with
  | none =>
    cases durable with
    | none => cases he
    | some hit =>
      cases he
      exact hdurable hit rfl
  | some entry =>
    cases he
    refine ⟨hstale entry rfl, ?_⟩
    intro hit hcompanion
    exact hdurable hit (Option.eq_some_of_filter_eq_some hcompanion)

theorem afterSelect_route (selected : Option (Revalidation B)) (mayServe : Bool) :
    (plan.afterSelect selected mayServe).route = none := by
  unfold afterSelect
  split
  · split <;> rfl
  · rfl

theorem afterSelect_inv {selected : Option (Revalidation B)} {mayServe : Bool} {p : Nat} (hmissed : Missed s)
    (hsome : s.revalidationProbe.isSome = true) (hcomplete : ∀ e, selected = some e → e.Complete Stored plan.ops) :
    plan.PhaseInv worker Stored s p (plan.afterSelect selected mayServe) := by
  unfold afterSelect
  split
  · rename_i hallowed
    simp only [Bool.and_eq_true, Option.isNone_iff_eq_none] at hallowed
    split
    · rename_i entry hserve
      refine ⟨hallowed.1.1, ?_⟩
      cases selected with
      | none => cases hserve
      | some e =>
        cases e with
        | disk hit => cases hserve
        | memory e companion =>
          cases hserve
          exact (hcomplete _ rfl).1
    · exact ⟨hmissed, hsome⟩
  · exact ⟨hmissed, hsome⟩

/-- The condition on followers is what the invariant needs of their decisions. -/
theorem agree_of_followers {event : DeliveryEvent B} {p : Nat} {route : Route} {phase : Phase B}
    (hfollowers : plan.FollowersAgree s event) (hdecides : decides s event = some (p, route))
    (hroute : phase.route = some route) (hsplit : plan.groups.isSome = true) (hnone : s.revalidationProbe = some none)
    (hp : plan.Relevant p) : ∀ q b, q ≠ p → plan.Relevant q → s.phases[q]? = some b →
      (phase.route = some .cached → b.route ≠ some .scanned) ∧
      (phase.route = some .scanned → b.route ≠ some .cached) := by
  intro q b _ hq hb
  constructor
  · intro hcached hscanned
    have hsame := hfollowers hsplit hnone p route hdecides hp q b _ hq hb hscanned
    rw [hroute, ← hsame] at hcached
    cases hcached
  · intro hscanned hcached
    have hsame := hfollowers hsplit hnone p route hdecides hp q b _ hq hb hcached
    rw [hroute, ← hsame] at hscanned
    cases hscanned

section
variable (h : plan.DeliveryInv worker Stored s)
include h

theorem execute_inv {p : Nat} {hit stale : Option (CachedEntry B)}
    (hsound : plan.Sound worker Stored (.execute p hit stale)) (hstep : plan.step s (.execute p hit stale) = some s') :
    plan.DeliveryInv worker Stored s' := by
  simp only [step] at hstep
  split at hstep
  · cases hstep
    have hcomplete := getD_complete h.cells.cache hsound.1
    refine h.move ⟨?_, fun _ hv => hv, fun _ hv => hv, fun _ hv => hv⟩
      { h.cells with cache := hcomplete } rfl ?_ ?_
    · intro v hv
      simp [hv]
    · cases hcached : s.cacheProbe.getD hit with
      | none => exact ⟨by simp, hsound.2⟩
      | some e =>
        refine ⟨replayed_stored (hcomplete e (by rw [hcached])), ?_⟩
        intro _
        exact Or.inl (Or.inl ⟨e, rfl⟩)
    · intro _ _ _ q b _ _ hb
      cases hcached : s.cacheProbe.getD hit with
      | none => exact undecided rfl
      | some e =>
        refine ⟨?_, fun hroute => absurd hroute (by simp [replayOr, Phase.route])⟩
        intro _ hscanned
        have hmissed := ((h.phases q b hb).of_scanned hscanned).1
        rw [hmissed.1] at hcached
        cases hcached
  · cases hstep

theorem lookupDisk_inv {p : Nat} {hit : Option (DiskHit B)} (hsound : plan.Sound worker Stored (.lookupDisk p hit))
    (hstep : plan.step s (.lookupDisk p hit) = some s') : plan.DeliveryInv worker Stored s' := by
  simp only [step] at hstep
  split at hstep
  · rename_i stale hp
    cases hstep
    have hbefore := h.phases p _ hp
    have hcomplete := getD_complete h.cells.disk hsound
    refine h.move ⟨fun _ hv => hv, ?_, fun _ hv => hv, fun _ hv => hv⟩
      { h.cells with disk := hcomplete } rfl ?_ ?_
    · intro v hv
      simp [hv]
    · cases hdurable : s.diskProbe.getD hit with
      | none => exact ⟨⟨hbefore.1, rfl⟩, hbefore.2⟩
      | some e =>
        refine ⟨replayed_stored (hcomplete e (by rw [hdurable])), ?_⟩
        intro _
        exact Or.inl (Or.inr ⟨e, rfl⟩)
    · intro _ _ _ q b _ _ hb
      cases hdurable : s.diskProbe.getD hit with
      | none => exact undecided rfl
      | some e =>
        refine ⟨?_, fun hroute => absurd hroute (by simp [replayOr, Phase.route])⟩
        intro _ hscanned
        have hmissed := ((h.phases q b hb).of_scanned hscanned).1
        rw [hmissed.2] at hdurable
        cases hdurable
  · cases hstep

theorem lookupStale_inv {p : Nat} {hit : Option (DiskHit B)} (hsound : plan.Sound worker Stored (.lookupStale p hit))
    (hstep : plan.step s (.lookupStale p hit) = some s') : plan.DeliveryInv worker Stored s' := by
  simp only [step] at hstep
  split at hstep
  · rename_i stale hp
    cases hstep
    have hbefore := h.phases p _ hp
    have hcomplete := getD_complete h.cells.stale hsound
    refine h.move (.of_same rfl rfl rfl rfl) { h.cells with stale := hcomplete } rfl ?_ ?_
    · exact ⟨hbefore.1, hbefore.2, fun e he => hcomplete e (by rw [he])⟩
    · intro _ _ _ q b _ _ _
      exact undecided rfl
  · cases hstep

theorem select_inv {p : Nat} {withinLimit mayServe : Bool}
    (hstep : plan.step s (.select p withinLimit mayServe) = some s') : plan.DeliveryInv worker Stored s' := by
  simp only [step] at hstep
  split at hstep
  · rename_i stale durable hp
    cases hstep
    obtain ⟨hmissed, hstale, hdurable⟩ := h.phases p _ hp
    have hkept : ∀ e, (if withinLimit then stale else none) = some e → Complete Stored plan.ops e.read := by
      intro e he
      split at he
      · exact hstale e he
      · cases he
    have hcomplete := getD_complete h.cells.selected (selectRevalidation_complete hkept hdurable)
    refine h.move ⟨fun _ hv => hv, fun _ hv => hv, ?_, fun _ hv => hv⟩
      { h.cells with selected := hcomplete } rfl ?_ ?_
    · intro v hv
      simp [hv]
    · exact afterSelect_inv hmissed rfl fun e he => hcomplete e (congrArg some he)
    · intro _ _ _ q b _ _ _
      exact undecided (afterSelect_route _ _)
  · cases hstep

theorem claim_inv {p : Nat} {claim : Claim} (hstep : plan.step s (.claim p claim) = some s') :
    plan.DeliveryInv worker Stored s' := by
  simp only [step] at hstep
  split at hstep
  · rename_i entry hp
    cases hstep
    obtain ⟨hnone, hcomplete⟩ := h.phases p _ hp
    have hplain : ¬ plan.groups.isSome = true := by simp [hnone]
    refine h.move ⟨fun _ hv => hv, fun _ hv => hv, fun _ hv => hv, ?_⟩ { h.cells with } rfl ?_ ?_
    · intro v hv
      simp [hv]
    · exact ⟨replayed_stored hcomplete, fun hsplit => absurd hsplit hplain⟩
    · intro hsplit
      exact absurd hsplit hplain
  · rename_i hp
    cases hstep
    obtain ⟨hmissed, hsome⟩ := h.phases p _ hp
    refine h.move ⟨fun _ hv => hv, fun _ hv => hv, fun _ hv => hv, ?_⟩ { h.cells with } rfl ?_ ?_
    · intro v hv
      simp [hv]
    · cases hclaim : s.flight.getD claim with
      | producer => exact ⟨hmissed, hsome⟩
      | follower => exact ⟨hmissed, hsome, rfl⟩
    · intro hsplit _ _ q b _ _ hb
      cases hclaim : s.flight.getD claim with
      | follower => exact undecided rfl
      | producer =>
        refine ⟨fun hroute => absurd hroute (by simp [Phase.route]), ?_⟩
        intro _ hcached
        -- a cached result means a hit, which `p` missed, or another query's flight
        rcases (h.phases q b hb).of_cached hcached hsplit with hhit | hfollower
        · exact not_missed_of_hit hhit hmissed
        · rw [hfollower] at hclaim
          cases hclaim
  · cases hstep

theorem flightEnds_inv {stored : Bool} (hstep : plan.step s (.flightEnds stored) = some s') :
    plan.DeliveryInv worker Stored s' := by
  simp only [step] at hstep
  split at hstep
  · cases hstep
    exact ⟨h.length, { h.cells with }, fun p phase hp => (h.phases p phase hp).mono (.of_same rfl rfl rfl rfl), h.agree⟩
  · cases hstep

theorem observe_inv {p : Nat} (hfollowers : plan.FollowersAgree s (.observe p))
    (hstep : plan.step s (.observe p) = some s') : plan.DeliveryInv worker Stored s' := by
  simp only [step] at hstep
  split at hstep
  · rename_i hp houtcome
    cases hstep
    refine h.move (.of_same rfl rfl rfl rfl) { h.cells with } rfl (h.phases p _ hp) ?_
    intro _ _ _ q b _ _ _
    exact undecided rfl
  · rename_i hp houtcome
    cases hstep
    obtain ⟨hmissed, hsome, -⟩ := h.phases p _ hp
    refine h.move (.of_same rfl rfl rfl rfl) { h.cells with } rfl ⟨hmissed, hsome⟩ ?_
    intro hsplit hnone hrelevant
    exact agree_of_followers hfollowers (by simp [decides, houtcome]) rfl hsplit hnone hrelevant
  · cases hstep

theorem timeOut_inv {p : Nat} (hfollowers : plan.FollowersAgree s (.timeOut p))
    (hstep : plan.step s (.timeOut p) = some s') : plan.DeliveryInv worker Stored s' := by
  simp only [step] at hstep
  split at hstep
  · rename_i hp
    split at hstep
    · cases hstep
      obtain ⟨hmissed, hsome, -⟩ := h.phases p _ hp
      refine h.move (.of_same rfl rfl rfl rfl) { h.cells with } rfl ⟨hmissed, hsome⟩ ?_
      intro hsplit hnone hrelevant
      exact agree_of_followers hfollowers rfl rfl hsplit hnone hrelevant
    · cases hstep
  · cases hstep

theorem lookupStored_inv {p : Nat} {hit : Option (CachedEntry B)}
    (hsound : plan.Sound worker Stored (.lookupStored p hit)) (hfollowers : plan.FollowersAgree s (.lookupStored p hit))
    (hstep : plan.step s (.lookupStored p hit) = some s') : plan.DeliveryInv worker Stored s' := by
  simp only [step] at hstep
  split at hstep
  · rename_i hp
    cases hstep
    have hcomplete := getD_complete h.cells.flight hsound
    obtain ⟨hmissed, hsome, hflight⟩ := h.phases p _ hp
    refine h.move (.of_same rfl rfl rfl rfl) { h.cells with flight := hcomplete } rfl ?_ ?_
    · cases hcached : s.flightProbe.getD hit with
      | none => exact ⟨hmissed, hsome, hflight⟩
      | some e => exact ⟨replayed_stored (hcomplete e (by rw [hcached])), fun _ => Or.inr hflight⟩
    · intro hsplit hnone hrelevant
      cases hcached : s.flightProbe.getD hit with
      | none => exact fun _ _ _ _ _ => undecided rfl
      | some e => exact agree_of_followers hfollowers (by simp [decides, hcached]) rfl hsplit hnone hrelevant
  · cases hstep

theorem lookupStoredDisk_inv {p : Nat} {hit : Option (DiskHit B)}
    (hsound : plan.Sound worker Stored (.lookupStoredDisk p hit))
    (hfollowers : plan.FollowersAgree s (.lookupStoredDisk p hit))
    (hstep : plan.step s (.lookupStoredDisk p hit) = some s') : plan.DeliveryInv worker Stored s' := by
  simp only [step] at hstep
  split at hstep
  · rename_i hp
    cases hstep
    have hcomplete := getD_complete h.cells.flightDisk hsound
    obtain ⟨hmissed, hsome, hflight⟩ := h.phases p _ hp
    refine h.move (.of_same rfl rfl rfl rfl) { h.cells with flightDisk := hcomplete } rfl ?_ ?_
    · cases hdurable : s.flightDiskProbe.getD hit with
      | none => exact ⟨hmissed, hsome, hflight⟩
      | some e => exact ⟨replayed_stored (hcomplete e (by rw [hdurable])), fun _ => Or.inr hflight⟩
    · intro hsplit hnone hrelevant
      cases hdurable : s.flightDiskProbe.getD hit with
      | none => exact fun _ _ _ _ _ => undecided rfl
      | some e => exact agree_of_followers hfollowers (by simp [decides, hdurable]) rfl hsplit hnone hrelevant
  · cases hstep

theorem lookupStoredStale_inv {p : Nat} {hit : Option (DiskHit B)}
    (hsound : plan.Sound worker Stored (.lookupStoredStale p hit))
    (hfollowers : plan.FollowersAgree s (.lookupStoredStale p hit))
    (hstep : plan.step s (.lookupStoredStale p hit) = some s') : plan.DeliveryInv worker Stored s' := by
  simp only [step] at hstep
  split at hstep
  · rename_i hp
    cases hstep
    obtain ⟨hmissed, hsome, hflight⟩ := h.phases p _ hp
    refine h.move (.of_same rfl rfl rfl rfl) { h.cells with } rfl ?_ ?_
    · cases hit with
      | none => exact ⟨hmissed, hsome⟩
      | some e => exact ⟨replayed_stored (hsound e rfl), fun _ => Or.inr hflight⟩
    · intro hsplit hnone hrelevant
      cases hit with
      | none => exact agree_of_followers hfollowers rfl rfl hsplit hnone hrelevant
      | some e => exact agree_of_followers hfollowers rfl rfl hsplit hnone hrelevant
  · cases hstep

theorem runJob_inv {p : Nat} {env : JobEnv B} (hsound : plan.Sound worker Stored (.runJob p env))
    (hstep : plan.step s (.runJob p env) = some s') : plan.DeliveryInv worker Stored s' := by
  simp only [step] at hstep
  split at hstep
  · rename_i hp
    cases hstep
    obtain ⟨hmissed, hsome⟩ := h.phases p _ hp
    refine h.move (.of_same rfl rfl rfl rfl) { h.cells with } rfl ⟨hmissed, hsome, ?_⟩ ?_
    · intro batches hbatches
      unfold jobOutput at hbatches
      split at hbatches
      · rename_i hok
        cases hbatches
        refine job_delivers hsound rfl ?_ hok
        intro e he
        obtain ⟨v, hv⟩ := Option.isSome_iff_exists.1 hsome
        apply h.cells.selected e
        rw [hv] at he ⊢
        exact congrArg some he
      · cases hbatches
    · intro hsplit hnone hrelevant q b _ hq hb
      refine ⟨fun hroute => absurd hroute (by simp [Phase.route]), ?_⟩
      intro _ hcached
      exact h.agree hsplit hnone q p b .starting hq hrelevant hb hp hcached rfl
  · cases hstep

end

theorem deliveryInv_init : plan.DeliveryInv worker Stored plan.init := by
  refine ⟨List.length_replicate, ⟨nofun, nofun, nofun, nofun, nofun, nofun⟩, ?_, nofun⟩
  intro p phase hp
  simp only [init, List.getElem?_replicate] at hp
  split at hp
  · cases hp
    trivial
  · cases hp

/-- The invariant holds in every state reached by steps whose followers agree. -/
theorem delivery_inv (h : StepSystem.Reachable plan.step (fun s e => plan.Sound worker Stored e ∧ plan.FollowersAgree s e)
    plan.init s) : plan.DeliveryInv worker Stored s := by
  refine h.invariant deliveryInv_init ?_
  rintro s event s' hinv ⟨hsound, hfollowers⟩ hstep
  cases event with
  | execute p hit stale => exact execute_inv hinv hsound hstep
  | lookupDisk p hit => exact lookupDisk_inv hinv hsound hstep
  | lookupStale p hit => exact lookupStale_inv hinv hsound hstep
  | select p withinLimit mayServe => exact select_inv hinv hstep
  | claim p claim => exact claim_inv hinv hstep
  | flightEnds stored => exact flightEnds_inv hinv hstep
  | observe p => exact observe_inv hinv hfollowers hstep
  | timeOut p => exact timeOut_inv hinv hfollowers hstep
  | lookupStored p hit => exact lookupStored_inv hinv hsound hfollowers hstep
  | lookupStoredDisk p hit => exact lookupStoredDisk_inv hinv hsound hfollowers hstep
  | lookupStoredStale p hit => exact lookupStoredStale_inv hinv hsound hfollowers hstep
  | runJob p env => exact runJob_inv hinv hsound hstep

end DeliveryPlan

end VgiDatafusion
