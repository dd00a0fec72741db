import VgiDatafusion.Filters.DeltaProtocol
import VgiDatafusion.Library.Lists
import VgiDatafusion.Library.VersionedCells

/-!
# A snapshot of the runtime filters is a cut (lib.rs:3072-3092)

| here | there |
| --- | --- |
| `RuntimeFilter` | what `DynamicFilterPhysicalExpr` keeps under its lock: the generation, and what `current()` makes of the expression |
| `SnapshotPhase` | where a call of `snapshot_dynamic_filters` stands |
| `SnapshotCall.step` | one read of one filter by the call, or an update of a filter by the operator that owns it |
| `SnapshotCall.readings` | the turns of the `loop` that found the counters moved |

The filters are read one at a time while their owners update them. A call returns the expressions that all the filters had
at one moment of the call, with the generation of that moment (`snapshot_is_cut`), and only an update makes it read again
(`rounds_le_updates`).
-/
namespace VgiDatafusion

open StepSystem VersionedCells ListFacts

variable {V : Type}

/-- What `DynamicFilterPhysicalExpr` keeps under its lock: the generation, and what `current()` makes of the expression. -/
abbrev RuntimeFilter (V : Type) := Cell (Option (PhysicalExpr V))

/-- Where a call of `snapshot_dynamic_filters` (`lib.rs:3072-3086`) stands: each read takes one lock. -/
inductive SnapshotPhase (V : Type)
  | before (counters : List Nat)
  | current (before : List Nat) (snapshots : List (PhysicalExpr V))
  | after (before : List Nat) (snapshots : List (PhysicalExpr V)) (counters : List Nat)
  | returned (generation : Nat) (snapshots : List (PhysicalExpr V))
  | failed

/-- A call among the operators that update the filters it reads, with the turns it has repeated. -/
structure SnapshotCall (V : Type) where
  filters : List (RuntimeFilter V)
  phase : SnapshotPhase V
  readings : List (Reading V)

/-- An update of a filter by its operator, or one read of one filter by the call. -/
inductive SnapshotAction (V : Type)
  | update (i : Nat) (expr : Option (PhysicalExpr V))
  | read

def SnapshotAction.isUpdate : SnapshotAction V → Bool
  | update _ _ => true
  | read => false

namespace SnapshotCall

def start (filters : List (RuntimeFilter V)) : SnapshotCall V := ⟨filters, .before [], []⟩

/-- The end of a turn of the loop. -/
def compare (s : SnapshotCall V) (before : List Nat) (snapshots : List (PhysicalExpr V)) (after : List Nat) : SnapshotCall V :=
  if dynamicFilterGeneration before = dynamicFilterGeneration after then
    { s with phase := .returned (dynamicFilterGeneration after) snapshots }
  else { s with phase := .before [], readings := s.readings ++ [⟨before, snapshots.map some, after⟩] }

/-- The next read of the call: a counter, an expression, or a counter again. -/
def read (s : SnapshotCall V) : Option (SnapshotCall V) :=
  match s.phase with
  | .before counters =>
    match s.filters[counters.length]? with
    | some filter => some { s with phase := .before (counters ++ [filter.version]) }
    | none => some { s with phase := .current counters [] }
  | .current before snapshots =>
    match s.filters[snapshots.length]? with
    | some filter =>
      match filter.value with
      | some expr => some { s with phase := .current before (snapshots ++ [expr]) }
      | none => some { s with phase := .failed }
    | none => some { s with phase := .after before snapshots [] }
  | .after before snapshots counters =>
    match s.filters[counters.length]? with
    | some filter => some { s with phase := .after before snapshots (counters ++ [filter.version]) }
    | none => some (s.compare before snapshots counters)
  | .returned _ _ | .failed => none

def step (s : SnapshotCall V) : SnapshotAction V → Option (SnapshotCall V)
  | .update i expr => if i < s.filters.length then some { s with filters := s.filters.modify i (·.write expr) } else none
  | .read => s.read

variable {filters : List (RuntimeFilter V)} {s s' : SnapshotCall V} {a : SnapshotAction V}

/-- What a read can do. -/
theorem read_cases (h : s.read = some s') :
    (∃ counters filter, s.phase = .before counters ∧ s.filters[counters.length]? = some filter ∧
      s' = { s with phase := .before (counters ++ [filter.version]) }) ∨
    (∃ counters, s.phase = .before counters ∧ s.filters[counters.length]? = none ∧ s' = { s with phase := .current counters [] }) ∨
    (∃ before snapshots filter expr, s.phase = .current before snapshots ∧ s.filters[snapshots.length]? = some filter ∧
      filter.value = some expr ∧ s' = { s with phase := .current before (snapshots ++ [expr]) }) ∨
    (∃ before snapshots, s.phase = .current before snapshots ∧ s' = { s with phase := .failed }) ∨
    (∃ before snapshots, s.phase = .current before snapshots ∧ s.filters[snapshots.length]? = none ∧
      s' = { s with phase := .after before snapshots [] }) ∨
    (∃ before snapshots counters filter, s.phase = .after before snapshots counters ∧
      s.filters[counters.length]? = some filter ∧
      s' = { s with phase := .after before snapshots (counters ++ [filter.version]) }) ∨
    ∃ before snapshots counters, s.phase = .after before snapshots counters ∧ s.filters[counters.length]? = none ∧
      s' = s.compare before snapshots counters := by
  rw [read] at h
  cases hphase : s.phase with
  | before counters =>
    rw [hphase] at h
    cases hfilter : s.filters[counters.length]? with
    | some filter => exact .inl ⟨counters, filter, rfl, hfilter, by simpa [hfilter] using h.symm⟩
    | none => exact .inr (.inl ⟨counters, rfl, hfilter, by simpa [hfilter] using h.symm⟩)
  | current before snapshots =>
    rw [hphase] at h
    cases hfilter : s.filters[snapshots.length]? with
    | some filter =>
      cases hvalue : filter.value with
      | some expr =>
        exact .inr (.inr (.inl ⟨before, snapshots, filter, expr, rfl, hfilter, hvalue, by simpa [hfilter, hvalue] using h.symm⟩))
      | none => exact .inr (.inr (.inr (.inl ⟨before, snapshots, rfl, by simpa [hfilter, hvalue] using h.symm⟩)))
    | none => exact .inr (.inr (.inr (.inr (.inl ⟨before, snapshots, rfl, hfilter, by simpa [hfilter] using h.symm⟩))))
  | after before snapshots counters =>
    rw [hphase] at h
    cases hfilter : s.filters[counters.length]? with
    | some filter =>
      exact .inr (.inr (.inr (.inr (.inr (.inl ⟨before, snapshots, counters, filter, rfl, hfilter, by
        simpa [hfilter] using h.symm⟩)))))
    | none =>
      exact .inr (.inr (.inr (.inr (.inr (.inr ⟨before, snapshots, counters, rfl, hfilter, by
        simpa [hfilter] using h.symm⟩)))))
  | returned generation snapshots =>
    rw [hphase] at h
    cases h
  | failed =>
    rw [hphase] at h
    cases h

/-! ## One turn of the loop -/

/-- What a turn has read, cell by cell. `base` are the filters when it began, `cut` when its first pass ended. -/
def Turn (moment : List (RuntimeFilter V) → Prop) (base now : List (RuntimeFilter V)) : SnapshotPhase V → Prop
  | .before counters => ∃ seen, counters = versions seen ∧ Collected base now seen
  | .current before snapshots => ∃ first cut seen, before = versions first ∧ moment cut ∧ Later base first ∧ Later first cut ∧
      Later cut now ∧ seen.map Cell.value = snapshots.map some ∧ Collected cut now seen
  | .after before snapshots counters => ∃ first cut seen last, before = versions first ∧ counters = versions last ∧
      moment cut ∧ Later base first ∧ Later first cut ∧ Later cut seen ∧ Later seen now ∧
      seen.map Cell.value = snapshots.map some ∧ Collected seen now last
  | .returned generation snapshots => ∃ cut, moment cut ∧ generation = dynamicFilterGeneration (versions cut) ∧
      cut.map Cell.value = snapshots.map some ∧ Later base cut
  | .failed => True

variable {moment moment' : List (RuntimeFilter V) → Prop} {base now now' : List (RuntimeFilter V)} {phase : SnapshotPhase V}

/-- What was read stays between the beginning and now. -/
theorem Turn.later (h : Turn moment base now phase) (hmoment : ∀ cut, moment cut → moment' cut) (hlater : Later now now') :
    Turn moment' base now' phase := by
  cases phase with
  | before counters =>
    obtain ⟨seen, hcounters, hseen⟩ := h
    exact ⟨seen, hcounters, hseen.later hlater⟩
  | current before snapshots =>
    obtain ⟨first, cut, seen, hbefore, hcut, hbase, hfirst, hnow, hvalues, hseen⟩ := h
    exact ⟨first, cut, seen, hbefore, hmoment cut hcut, hbase, hfirst, hnow.trans hlater, hvalues, hseen.later hlater⟩
  | after before snapshots counters =>
    obtain ⟨first, cut, seen, last, hbefore, hcounters, hcut, hbase, hfirst, hbetween, hnow, hvalues, hlast⟩ := h
    exact ⟨first, cut, seen, last, hbefore, hcounters, hmoment cut hcut, hbase, hfirst, hbetween, hnow.trans hlater, hvalues,
      hlast.later hlater⟩
  | returned generation snapshots =>
    obtain ⟨cut, hcut, hgeneration, hvalues, hbase⟩ := h
    exact ⟨cut, hmoment cut hcut, hgeneration, hvalues, hbase⟩
  | failed => trivial

theorem dynamicFilterGeneration_mod (counters : List Nat) : dynamicFilterGeneration counters = counters.sum % 2 ^ 64 := by
  suffices hfold : ∀ (counters : List Nat) (start : Nat), start % 2 ^ 64 = start →
      counters.foldl (fun generation counter => (generation + counter) % 2 ^ 64) start = (start + counters.sum) % 2 ^ 64 by
    simpa [dynamicFilterGeneration] using hfold counters 0 (Nat.zero_mod _)
  intro counters
  induction counters with
  | nil =>
    intro start hstart
    simpa using hstart.symm
  | cons counter counters ih =>
    intro start _
    rw [List.foldl_cons, ih _ (Nat.mod_mod _ _), List.sum_cons, Nat.mod_add_mod, Nat.add_assoc]

/-- The end of a turn: one cut, or counters that have moved. -/
theorem Turn.ends {before : List Nat} {snapshots : List (PhysicalExpr V)} {counters : List Nat}
    (h : Turn moment base now (.after before snapshots counters)) (hlength : now[counters.length]? = none)
    (hroom : (versions now).sum < (versions base).sum + 2 ^ 64) :
    (∃ cut, moment cut ∧ before = versions cut ∧ counters = versions cut ∧ cut.map Cell.value = snapshots.map some ∧
      Later base cut) ∨
    dynamicFilterGeneration before ≠ dynamicFilterGeneration counters ∧ (versions base).sum < (versions now).sum ∧
      List.Forall₂ (· ≤ ·) (versions base) before ∧ List.Forall₂ (· ≤ ·) before counters ∧
      List.Forall₂ (· ≤ ·) counters (versions now) := by
  obtain ⟨first, cut, seen, last, rfl, rfl, hcut, hbase, hfirst, hbetween, hnow, hvalues, hlast⟩ := h
  obtain ⟨hlast, hend⟩ := hlast.whole hnow (by simpa [versions] using hlength)
  have hsums := ((hfirst.trans hbetween).trans hlast).sum_le
  have hlow := hbase.sum_le
  have hhigh := hend.sum_le
  by_cases heq : dynamicFilterGeneration (versions first) = dynamicFilterGeneration (versions last)
  · left
    rw [dynamicFilterGeneration_mod, dynamicFilterGeneration_mod] at heq
    have hsame : (versions last).sum = (versions first).sum := by omega
    obtain ⟨rfl, rfl⟩ := cut_of_sums hfirst hbetween hlast hsame.le
    have hcutFirst := (hfirst.eq_of_sum hsame.le)
    subst hcutFirst
    exact ⟨first, hcut, rfl, rfl, hvalues, hbase⟩
  · right
    have hne : (versions first).sum ≠ (versions last).sum := by
      intro hsame
      rw [dynamicFilterGeneration_mod, dynamicFilterGeneration_mod, hsame] at heq
      exact heq rfl
    exact ⟨heq, by omega, hbase.versions, ((hfirst.trans hbetween).trans hlast).versions, hend.versions⟩

/-! ## Every run of a call -/

def updates (actions : List (SnapshotAction V)) : Nat := actions.countP SnapshotAction.isUpdate

def reads (actions : List (SnapshotAction V)) : Nat := actions.countP fun a => !a.isUpdate

/-- The filters were this at some moment of the run. -/
def Moment (filters : List (RuntimeFilter V)) (actions : List (SnapshotAction V)) (cut : List (RuntimeFilter V)) : Prop :=
  ∃ before s, before <+: actions ∧ before.foldlM step (start filters) = some s ∧ s.filters = cut

theorem Moment.later {actions later : List (SnapshotAction V)} {cut : List (RuntimeFilter V)} (h : Moment filters actions cut) :
    Moment filters (actions ++ later) cut := by
  obtain ⟨before, s, hbefore, hrun, hcut⟩ := h
  exact ⟨before, s, hbefore.trans (List.prefix_append _ _), hrun, hcut⟩

/-- `base` are the filters when the turn began. -/
structure Inv (filters base : List (RuntimeFilter V)) (done : List (SnapshotAction V)) (s : SnapshotCall V) : Prop where
  began : Later filters base
  now : Later base s.filters
  turn : Turn (Moment filters done) base s.filters s.phase
  sum : (versions s.filters).sum = (versions filters).sum + updates done
  /-- Every turn that is over has seen an update. -/
  rounds : (versions filters).sum + s.readings.length ≤ (versions base).sum
  moved : ∀ reading ∈ s.readings, dynamicFilterGeneration reading.before ≠ dynamicFilterGeneration reading.after ∧
    ∃ snapshots : List (PhysicalExpr V), reading.snapshots = snapshots.map some
  counting : (s.readings.flatMap Reading.reads).Pairwise (List.Forall₂ (· ≤ ·))
  before : ∀ counters ∈ s.readings.flatMap Reading.reads, List.Forall₂ (· ≤ ·) counters (versions base)

theorem inv_start (filters : List (RuntimeFilter V)) : Inv filters filters [] (start filters) where
  began := later_refl filters
  now := later_refl filters
  turn := ⟨[], rfl, collected_nil _ _⟩
  sum := rfl
  rounds := Nat.le_refl _
  moved := by simp [start]
  counting := by simp [start]
  before := by simp [start]

theorem updates_concat (actions : List (SnapshotAction V)) (a : SnapshotAction V) :
    updates (actions ++ [a]) = updates actions + if a.isUpdate then 1 else 0 := by
  rw [updates, List.countP_append, List.countP_singleton, updates]

variable {done : List (SnapshotAction V)}

theorem Inv.update (h : Inv filters base done s) {i : Nat} (hi : i < s.filters.length) (expr : Option (PhysicalExpr V)) :
    Inv filters base (done ++ [.update i expr]) { s with filters := s.filters.modify i (·.write expr) } where
  began := h.began
  now := h.now.trans (later_modify _ _ _)
  turn := h.turn.later (fun _ hcut => hcut.later) (later_modify _ _ _)
  sum := by
    rw [sum_modify hi, h.sum, updates_concat, SnapshotAction.isUpdate, if_pos rfl, Nat.add_assoc]
  rounds := h.rounds
  moved := h.moved
  counting := h.counting
  before := h.before

/-- A read within a turn. -/
theorem Inv.goesOn (h : Inv filters base done s) (hturn : Turn (Moment filters (done ++ [.read])) base s.filters phase) :
    Inv filters base (done ++ [.read]) { s with phase } where
  began := h.began
  now := h.now
  turn := hturn
  sum := by simpa [updates_concat, SnapshotAction.isUpdate] using h.sum
  rounds := h.rounds
  moved := h.moved
  counting := h.counting
  before := h.before

/-- A turn that found the counters moved is over. -/
theorem Inv.repeats (h : Inv filters base done s) {before counters : List Nat} {snapshots : List (PhysicalExpr V)}
    (hmoved : dynamicFilterGeneration before ≠ dynamicFilterGeneration counters)
    (hlater : (versions base).sum < (versions s.filters).sum) (hbase : List.Forall₂ (· ≤ ·) (versions base) before)
    (hmonotone : List.Forall₂ (· ≤ ·) before counters) (hnow : List.Forall₂ (· ≤ ·) counters (versions s.filters)) :
    Inv filters s.filters (done ++ [.read])
      { s with phase := .before [], readings := s.readings ++ [⟨before, snapshots.map some, counters⟩] } := by
  have hle : ∀ {xs ys zs : List Nat}, List.Forall₂ (· ≤ ·) xs ys → List.Forall₂ (· ≤ ·) ys zs → List.Forall₂ (· ≤ ·) xs zs :=
    fun hxy hyz => (forall₂_comp hxy hyz).imp fun _ _ h => by
      obtain ⟨y, hxy, hyz⟩ := h
      exact hxy.trans hyz
  refine ⟨h.began.trans h.now, later_refl _, ⟨[], rfl, collected_nil _ _⟩, ?_, ?_, ?_, ?_, ?_⟩
  · simpa [updates_concat, SnapshotAction.isUpdate] using h.sum
  · have hrounds := h.rounds
    rw [List.length_append, List.length_singleton]
    omega
  · intro reading hreading
    rcases List.mem_append.1 hreading with hreading | hreading
    · exact h.moved reading hreading
    · rw [List.mem_singleton.1 hreading]
      exact ⟨hmoved, snapshots, rfl⟩
  · rw [List.flatMap_append, List.pairwise_append]
    refine ⟨h.counting, by simpa [Reading.reads] using hmonotone, ?_⟩
    intro early hearly late hlate
    have hstart := hle (h.before early hearly) hbase
    have hcases : late = before ∨ late = counters := by simpa [Reading.reads] using hlate
    rcases hcases with rfl | rfl
    · exact hstart
    · exact hle hstart hmonotone
  · intro early hearly
    rw [List.flatMap_append, List.mem_append] at hearly
    rcases hearly with hearly | hearly
    · exact hle (hle (hle (h.before early hearly) hbase) hmonotone) hnow
    · have hcases : early = before ∨ early = counters := by simpa [Reading.reads] using hearly
      rcases hcases with rfl | rfl
      · exact hle hmonotone hnow
      · exact hnow

theorem Inv.read (h : Inv filters base done s) (hrun : done.foldlM step (start filters) = some s)
    (hroom : updates done < 2 ^ 64) (hread : s.read = some s') : ∃ base', Inv filters base' (done ++ [.read]) s' := by
  have hturn : Turn (Moment filters (done ++ [.read])) base s.filters s.phase :=
    h.turn.later (fun _ hcut => hcut.later) (later_refl s.filters)
  have hnow : Moment filters (done ++ [.read]) s.filters := ⟨done, s, List.prefix_append _ _, hrun, rfl⟩
  rcases read_cases hread with ⟨counters, filter, hphase, hfilter, rfl⟩ | ⟨counters, hphase, hlength, rfl⟩ |
      ⟨before, snapshots, filter, expr, hphase, hfilter, hvalue, rfl⟩ | ⟨before, snapshots, -, rfl⟩ |
      ⟨before, snapshots, hphase, hlength, rfl⟩ | ⟨before, snapshots, counters, filter, hphase, hfilter, rfl⟩ |
      ⟨before, snapshots, counters, hphase, hlength, rfl⟩ <;> try rw [hphase] at hturn
  · obtain ⟨seen, rfl, hseen⟩ := hturn
    refine ⟨base, h.goesOn ⟨seen ++ [filter], by simp [versions], hseen.read h.now ?_⟩⟩
    simpa [versions] using hfilter
  · obtain ⟨seen, rfl, hseen⟩ := hturn
    obtain ⟨hbase, hseen⟩ := hseen.whole h.now (by simpa [versions] using hlength)
    exact ⟨base, h.goesOn ⟨seen, s.filters, [], rfl, hnow, hbase, hseen, later_refl _, rfl, collected_nil _ _⟩⟩
  · obtain ⟨first, cut, seen, rfl, hcut, hbase, hfirst, hlater, hvalues, hseen⟩ := hturn
    have hlength : seen.length = snapshots.length := by simpa using congrArg List.length hvalues
    refine ⟨base, h.goesOn ⟨first, cut, seen ++ [filter], rfl, hcut, hbase, hfirst, hlater, ?_, hseen.read hlater ?_⟩⟩
    · simp [hvalues, hvalue]
    · rw [hlength]
      exact hfilter
  · exact ⟨base, h.goesOn trivial⟩
  · obtain ⟨first, cut, seen, rfl, hcut, hbase, hfirst, hlater, hvalues, hseen⟩ := hturn
    have hlength' : seen.length = snapshots.length := by simpa using congrArg List.length hvalues
    obtain ⟨hsince, hseen⟩ := hseen.whole hlater (by rw [hlength']; exact hlength)
    exact ⟨base, h.goesOn ⟨first, cut, seen, [], rfl, rfl, hcut, hbase, hfirst, hsince, hseen, hvalues, collected_nil _ _⟩⟩
  · obtain ⟨first, cut, seen, last, rfl, rfl, hcut, hbase, hfirst, hbetween, hlater, hvalues, hlast⟩ := hturn
    refine ⟨base, h.goesOn ⟨first, cut, seen, last ++ [filter], rfl, by simp [versions], hcut, hbase, hfirst, hbetween, hlater,
      hvalues, hlast.read hlater ?_⟩⟩
    simpa [versions] using hfilter
  · have hbase : (versions s.filters).sum < (versions base).sum + 2 ^ 64 := by
      have hsum := h.sum
      have hbegan := h.began.sum_le
      omega
    rw [compare]
    rcases hturn.ends hlength hbase with ⟨cut, hcut, rfl, rfl, hvalues, hlater⟩ | ⟨hmoved, hlt, hbefore, hmonotone, hafter⟩
    · rw [if_pos rfl]
      exact ⟨base, h.goesOn ⟨cut, hcut, rfl, hvalues, hlater⟩⟩
    · rw [if_neg hmoved]
      exact ⟨s.filters, h.repeats hmoved hlt hbefore hmonotone hafter⟩

theorem inv_run {actions : List (SnapshotAction V)} (hrun : actions.foldlM step (start filters) = some s)
    (hroom : updates actions < 2 ^ 64) : ∃ base, Inv filters base actions s := by
  let After (done : List (SnapshotAction V)) (s : SnapshotCall V) : Prop :=
    done.foldlM step (start filters) = some s ∧ (updates done < 2 ^ 64 → ∃ base, Inv filters base done s)
  have hafter : After actions s := by
    refine run_invariant_of_partial ⟨rfl, fun _ => ⟨filters, inv_start filters⟩⟩ ?_ hrun
    rintro done a s s' ⟨hdone, ih⟩ hstep
    refine ⟨by simp [List.foldlM_append, hdone, hstep], ?_⟩
    intro hroom
    rw [updates_concat] at hroom
    obtain ⟨base, h⟩ := ih (by omega)
    cases a with
    | update i expr =>
      simp only [step] at hstep
      split at hstep
      · next hi =>
        cases hstep
        exact ⟨base, h.update hi expr⟩
      · cases hstep
    | read => exact h.read hdone (by omega) hstep
  exact hafter.2 hroom

theorem snapshotDynamicFilters_moved {readings : List (Reading V)} {last : Reading V}
    (h : ∀ reading ∈ readings, dynamicFilterGeneration reading.before ≠ dynamicFilterGeneration reading.after ∧
      ∃ snapshots : List (PhysicalExpr V), reading.snapshots = snapshots.map some) :
    snapshotDynamicFilters (readings ++ [last]) = snapshotDynamicFilters [last] := by
  induction readings with
  | nil => rfl
  | cons reading readings ih =>
    obtain ⟨hmoved, snapshots, hsnapshots⟩ := h reading List.mem_cons_self
    have hall : reading.snapshots.mapM id = some snapshots := by
      rw [hsnapshots, mapM_some_iff]
      simp [List.forall₂_map_left_iff, List.forall₂_same]
    rw [List.cons_append, snapshotDynamicFilters, hall, Option.bind_eq_bind, Option.bind_some, if_neg hmoved]
    exact ih fun r hr => h r (List.mem_cons_of_mem _ hr)

/-- What a call read, turn by turn, and what it returned of it. -/
structure Answer (filters : List (RuntimeFilter V)) (actions : List (SnapshotAction V)) (s : SnapshotCall V) (generation : Nat)
    (snapshots : List (PhysicalExpr V)) : Prop where
  /-- The expressions and the generation are those of one moment of the call. -/
  cut : ∃ before s₀, before <+: actions ∧ before.foldlM step (start filters) = some s₀ ∧
    s₀.filters.map Cell.value = snapshots.map some ∧ generation = dynamicFilterGeneration (versions s₀.filters)
  /-- The reads are such as the batch loop of a scan relies on, and the answer is the one the turns of the loop give. -/
  readings : ∃ last, snapshotDynamicFilters (s.readings ++ [last]) = some (generation, snapshots) ∧
    ((s.readings ++ [last]).flatMap Reading.reads).Pairwise (List.Forall₂ (· ≤ ·))

/-- **A snapshot is a cut**: whatever is updated between its reads, a call that returns returns the expressions of all the
filters at one moment since it began, and the generation of that moment. -/
theorem snapshot_is_cut (filters : List (RuntimeFilter V)) (actions : List (SnapshotAction V)) (s : SnapshotCall V)
    (generation : Nat) (snapshots : List (PhysicalExpr V)) (hrun : actions.foldlM step (start filters) = some s)
    (hroom : updates actions < 2 ^ 64) (hreturned : s.phase = .returned generation snapshots) :
    Answer filters actions s generation snapshots := by
  obtain ⟨base, h⟩ := inv_run hrun hroom
  have hturn := h.turn
  rw [hreturned] at hturn
  obtain ⟨cut, hmoment, rfl, hvalues, hlater⟩ := hturn
  refine ⟨?_, ⟨versions cut, snapshots.map some, versions cut⟩, ?_, ?_⟩
  · obtain ⟨before, s₀, hbefore, hrun₀, rfl⟩ := hmoment
    exact ⟨before, s₀, hbefore, hrun₀, hvalues, rfl⟩
  · have hall : (snapshots.map some).mapM id = some snapshots := by
      rw [mapM_some_iff]
      simp [List.forall₂_map_left_iff, List.forall₂_same]
    rw [snapshotDynamicFilters_moved h.moved, snapshotDynamicFilters]
    simp [hall]
  · rw [List.flatMap_append, List.pairwise_append]
    have hlast : ∀ counters ∈ [(⟨versions cut, snapshots.map some, versions cut⟩ : Reading V)].flatMap Reading.reads,
        counters = versions cut := by simp [Reading.reads]
    refine ⟨h.counting, ?_, ?_⟩
    · simp [Reading.reads, List.forall₂_same]
    · intro early hearly late hlate
      rw [hlast late hlate]
      refine (forall₂_comp (h.before early hearly) hlater.versions).imp fun _ _ hle => ?_
      obtain ⟨y, hxy, hyz⟩ := hle
      exact hxy.trans hyz

/-! A join narrows the second of two filters while the first pass is on: the turn is repeated. -/

def joinFilters : List (RuntimeFilter Int) := [⟨1, some (.isNull (.column "a" 0))⟩, ⟨1, some (.column "b" 1)⟩]

def racedReads : List (SnapshotAction Int) :=
  [.read, .read, .update 1 (some (.isNotNull (.column "b" 1)))] ++ List.replicate 16 .read

theorem snapshot_is_cut_raced : ∃ s, racedReads.foldlM step (start joinFilters) = some s ∧ s.readings.length = 1 ∧
    Answer joinFilters racedReads s 3 [.isNull (.column "a" 0), .isNotNull (.column "b" 1)] := by
  refine ⟨_, rfl, rfl, ?_⟩
  exact snapshot_is_cut joinFilters racedReads _ 3 _ rfl (by decide) rfl

/-! ## How long a call can take -/

/-- The reads a turn has made; a turn over `n` filters makes `3 * n + 3`. -/
def made (n : Nat) : SnapshotPhase V → Nat
  | .before counters => counters.length
  | .current _ snapshots => n + 1 + snapshots.length
  | .after _ _ counters => 2 * n + 2 + counters.length
  | .returned _ _ | .failed => 3 * n + 3

/-- No pass reads more than there is. -/
def Within (n : Nat) : SnapshotPhase V → Prop
  | .before counters => counters.length ≤ n
  | .current _ snapshots => snapshots.length ≤ n
  | .after _ _ counters => counters.length ≤ n
  | .returned _ _ | .failed => True

theorem Within.made_le {n : Nat} (h : Within n phase) : made n phase ≤ 3 * n + 3 := by
  cases phase <;> simp only [Within] at h <;> simp only [made] <;> omega

/-- The reads of the run, turn by turn. -/
structure Pace (n : Nat) (done : List (SnapshotAction V)) (s : SnapshotCall V) : Prop where
  length : s.filters.length = n
  within : Within n s.phase
  count : reads done ≤ s.readings.length * (3 * n + 3) + made n s.phase

theorem Pace.step {n : Nat} (h : Pace n done s) (hstep : s.step a = some s') : Pace n (done ++ [a]) s' := by
  have hlength := h.length
  have hreads := h.count
  cases a with
  | update i expr =>
    simp only [SnapshotCall.step] at hstep
    split at hstep
    · cases hstep
      exact ⟨by simpa using hlength, h.within, by simpa [reads, List.countP_append, SnapshotAction.isUpdate] using hreads⟩
    · cases hstep
  | read =>
    have hcount : reads (done ++ [SnapshotAction.read]) = reads done + 1 := by
      rw [reads, List.countP_append]
      rfl
    have hlt : ∀ {k : Nat} {f : RuntimeFilter V}, s.filters[k]? = some f → k < n := by
      intro k f hk
      rw [← hlength]
      exact (List.getElem?_eq_some_iff.1 hk).1
    have hge : ∀ {k : Nat}, s.filters[k]? = none → n ≤ k := by
      intro k hk
      rw [← hlength]
      exact List.getElem?_eq_none_iff.1 hk
    have hwithin := h.within
    rcases read_cases hstep with ⟨counters, filter, hphase, hfilter, rfl⟩ | ⟨counters, hphase, hend, rfl⟩ |
        ⟨before, snapshots, filter, expr, hphase, hfilter, -, rfl⟩ | ⟨before, snapshots, hphase, rfl⟩ |
        ⟨before, snapshots, hphase, hend, rfl⟩ | ⟨before, snapshots, counters, filter, hphase, hfilter, rfl⟩ |
        ⟨before, snapshots, counters, hphase, hend, rfl⟩ <;> rw [hphase] at hreads hwithin <;>
        simp only [made] at hreads <;> simp only [Within] at hwithin
    · have hk := hlt hfilter
      refine ⟨hlength, ?_, ?_⟩ <;> simp only [Within, made, List.length_append, List.length_singleton] <;> omega
    · have hk := hge hend
      refine ⟨hlength, ?_, ?_⟩ <;> simp only [Within, made, List.length_nil] <;> omega
    · have hk := hlt hfilter
      refine ⟨hlength, ?_, ?_⟩ <;> simp only [Within, made, List.length_append, List.length_singleton] <;> omega
    · refine ⟨hlength, trivial, ?_⟩
      simp only [made]
      omega
    · have hk := hge hend
      refine ⟨hlength, ?_, ?_⟩ <;> simp only [Within, made, List.length_nil] <;> omega
    · have hk := hlt hfilter
      refine ⟨hlength, ?_, ?_⟩ <;> simp only [Within, made, List.length_append, List.length_singleton] <;> omega
    · have hk := hge hend
      rw [compare]
      split
      · refine ⟨hlength, trivial, ?_⟩
        simp only [made]
        omega
      · refine ⟨hlength, Nat.zero_le _, ?_⟩
        simp only [made, List.length_append, List.length_singleton, List.length_nil, Nat.add_mul]
        omega

theorem read_eq_none_iff : s.read = none ↔ s.phase = .failed ∨ ∃ generation snapshots, s.phase = .returned generation snapshots := by
  rw [read]
  cases s.phase with
  | before counters => cases h : s.filters[counters.length]? <;> simp [h]
  | current before snapshots =>
    cases h : s.filters[snapshots.length]? with
    | none => simp [h]
    | some filter => cases hvalue : filter.value <;> simp [h, hvalue]
  | after before snapshots counters => cases h : s.filters[counters.length]? <;> simp [h]
  | returned generation snapshots => simp
  | failed => simp

/-- **Only an update makes a call read again**: a call during which `u` updates are made ends within `u + 1` turns, and it can
always take its next read until then. -/
theorem rounds_le_updates (filters : List (RuntimeFilter V)) (actions : List (SnapshotAction V)) (s : SnapshotCall V)
    (hrun : actions.foldlM step (start filters) = some s) (hroom : updates actions < 2 ^ 64) :
    reads actions ≤ (updates actions + 1) * (3 * filters.length + 3) ∧
      (s.read = none ↔ s.phase = .failed ∨ ∃ generation snapshots, s.phase = .returned generation snapshots) := by
  refine ⟨?_, read_eq_none_iff⟩
  obtain ⟨base, h⟩ := inv_run hrun hroom
  have hpace : Pace filters.length actions s := by
    refine run_invariant_of_partial ⟨rfl, Nat.zero_le _, by simp [reads, start]⟩ ?_ hrun
    intro done a s s' h hstep
    exact h.step hstep
  have hrounds : s.readings.length ≤ updates actions := by
    have hsum := h.sum
    have hbase := h.rounds
    have hnow := h.now.sum_le
    omega
  have hreads := hpace.count
  have hmade := hpace.within.made_le
  have hturns := Nat.mul_le_mul_right (3 * filters.length + 3) hrounds
  rw [Nat.add_mul, Nat.one_mul]
  omega

theorem rounds_le_updates_raced : ∃ s, racedReads.foldlM step (start joinFilters) = some s ∧ reads racedReads = 18 ∧
    reads racedReads ≤ (updates racedReads + 1) * (3 * joinFilters.length + 3) ∧
    (s.read = none ↔ s.phase = .failed ∨ ∃ generation snapshots, s.phase = .returned generation snapshots) := by
  refine ⟨_, rfl, rfl, ?_⟩
  exact rounds_le_updates joinFilters racedReads _ rfl (by decide)

end SnapshotCall

end VgiDatafusion
