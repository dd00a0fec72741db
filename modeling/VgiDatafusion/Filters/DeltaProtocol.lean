import Std.Data.String.ToNat
import Mathlib.Algebra.Order.BigOperators.Group.List
import Mathlib.Algebra.Order.Group.Nat
import Mathlib.Data.List.Nodup
import VgiDatafusion.Filters.Deltas
import VgiDatafusion.Filters.Sound
import VgiDatafusion.Library.StepSystem
import VgiDatafusion.Provider

/-!
# The worker follows the latest snapshot

Ids are positions: a delta upserts the positions its snapshot has and removes those the generation before had
beyond them. A worker that ignores what is not newer then holds, after every turn of the batch loop, the
predicates of the latest snapshot and no other runtime predicate (`filter_deltas`). Which snapshot that is does not
depend on what the loop sends: `history` says what the filters are at each generation, and `FilterTick.observe` which
generation the reads of a turn show last. The revision cannot saturate, because it moves only when the sum of the
counters does.
-/
namespace VgiDatafusion

open StepSystem

variable {V : Type}

/-! ## Ids -/

def joinId (i : Nat) : String := "join:" ++ toString i

theorem joinId_injective {i j : Nat} (h : joinId i = joinId j) : i = j := by
  have hrepr : i.repr = j.repr := by simpa [joinId] using h
  exact Nat.repr_injective hrepr

theorem joinId_ne_query (i : Nat) (rest : String) : "query" ++ ":" ++ rest ≠ joinId i := by
  intro h
  have hlist := congrArg String.toList h
  simp [joinId] at hlist

theorem numbered_join (revision : Nat) (specs : List Spec) :
    numbered "join" "join" revision specs = specs.zipIdx.map fun s => ⟨joinId s.2, revision, "join", s.1⟩ := by
  have hprefix : "join" ++ ":" = "join:" := by decide
  simp [numbered, joinId, hprefix]

/-! ## The updates of a delta -/

/-- What `finishDelta` sends. -/
def deltaUpdates (specs : List Spec) (previousCount revision : Nat) : List Update :=
  (numbered "join" "join" revision specs).map .upsert ++ tombstones specs.length previousCount revision

theorem deltaUpdates_ids (specs : List Spec) (previousCount revision : Nat) :
    (deltaUpdates specs previousCount revision).map Update.id =
      (List.range (specs.length + (previousCount - specs.length))).map joinId := by
  have hupserts : specs.zipIdx.map (fun s => joinId s.2) = (List.range' 0 specs.length).map joinId := by
    calc specs.zipIdx.map (fun s => joinId s.2) = (specs.zipIdx.map Prod.snd).map joinId := by
          rw [List.map_map]
          rfl
      _ = (List.range' 0 specs.length).map joinId := by rw [List.zipIdx_map_snd]
  rw [deltaUpdates, numbered_join, tombstones, List.range_eq_range', ← List.range'_append_1, List.map_append, List.map_append,
    List.map_map, List.map_map, List.map_map, ← hupserts, Nat.zero_add]
  rfl

theorem deltaUpdates_nodup (specs : List Spec) (previousCount revision : Nat) :
    ((deltaUpdates specs previousCount revision).map Update.id).Nodup := by
  rw [deltaUpdates_ids, List.nodup_map_iff_inj_on List.nodup_range]
  intro i _ j _ h
  exact joinId_injective h

theorem upsert_mem_deltaUpdates {specs : List Spec} (previousCount revision : Nat) {i : Nat} {spec : Spec}
    (h : specs[i]? = some spec) :
    Update.upsert ⟨joinId i, revision, "join", spec⟩ ∈ deltaUpdates specs previousCount revision := by
  rw [deltaUpdates, numbered_join]
  apply List.mem_append_left
  apply List.mem_map_of_mem
  exact List.mem_map.2 ⟨(spec, i), List.mem_zipIdx_iff_getElem?.2 h, rfl⟩

theorem remove_mem_deltaUpdates {specs : List Spec} {previousCount : Nat} (revision : Nat) {i : Nat} (h : specs.length ≤ i)
    (hi : i < previousCount) : Update.remove (joinId i) revision ∈ deltaUpdates specs previousCount revision := by
  rw [deltaUpdates, tombstones]
  apply List.mem_append_right
  refine List.mem_map.2 ⟨i, List.mem_range'_1.2 ⟨h, ?_⟩, rfl⟩
  omega

theorem joinId_not_mem_deltaUpdates {specs : List Spec} {previousCount revision i : Nat} (h : specs.length ≤ i)
    (hi : previousCount ≤ i) : joinId i ∉ (deltaUpdates specs previousCount revision).map Update.id := by
  rw [deltaUpdates_ids, List.mem_map]
  rintro ⟨j, hj, hij⟩
  have hlt := List.mem_range.1 hj
  have hji := joinId_injective hij
  omega

theorem deltaUpdates_revision {specs : List Spec} {previousCount revision : Nat} {update : Update}
    (h : update ∈ deltaUpdates specs previousCount revision) : update.revision = revision := by
  rw [deltaUpdates, numbered_join, tombstones, List.mem_append, List.mem_map, List.mem_map] at h
  rcases h with ⟨predicate, hpredicate, rfl⟩ | ⟨i, -, rfl⟩
  · obtain ⟨s, -, rfl⟩ := List.mem_map.1 hpredicate
    rfl
  · rfl

/-! ## The worker, id by id -/

namespace FilterWorker

variable {w : FilterWorker V} {values : List (ScalarValue V)} {updates : List Update}

variable (w values) in
theorem held_of_not_mem {id : String} (h : id ∉ updates.map Update.id) :
    (updates.foldl (apply values) w).held id = w.held id := by
  induction updates generalizing w with
  | nil => rfl
  | cons update updates ih =>
    rw [List.map_cons, List.mem_cons, not_or] at h
    rw [List.foldl_cons, ih _ h.2, apply]
    simp [h.1]

variable (w values) in
/-- Ids are distinct, so one update meets what is held for its id. -/
theorem held_of_mem {update : Update} (hnodup : (updates.map Update.id).Nodup) (h : update ∈ updates) :
    (updates.foldl (apply values) w).held update.id = update.act w.remembers values (w.held update.id) := by
  induction updates generalizing w with
  | nil => cases h
  | cons first updates ih =>
    rw [List.map_cons, List.nodup_cons] at hnodup
    rw [List.foldl_cons]
    rcases List.mem_cons.1 h with rfl | h
    · rw [held_of_not_mem _ _ hnodup.1, apply]
      simp
    · have hne : update.id ≠ first.id := by
        intro heq
        exact hnodup.1 (heq ▸ List.mem_map_of_mem h)
      rw [ih _ hnodup.2 h, apply]
      simp [hne]

/-- Runtime predicates are held at this revision, and nothing is live beyond them. -/
def JoinCells (w : FilterWorker V) (revision : Nat) (predicates : List (LivePredicate V)) : Prop :=
  ∀ i, (∀ p, predicates[i]? = some p → w.held (joinId i) = some ⟨revision, some p⟩) ∧
    (predicates[i]? = none → ∀ held, w.held (joinId i) = some held → held.revision ≤ revision ∧ held.predicate = none)

theorem JoinCells.live {revision : Nat} {predicates : List (LivePredicate V)} (h : w.JoinCells revision predicates)
    (i : Nat) : w.live (joinId i) = predicates[i]? := by
  cases hi : predicates[i]? with
  | some p => rw [FilterWorker.live, (h i).1 p hi, Option.bind_some]
  | none =>
    rw [FilterWorker.live]
    cases hheld : w.held (joinId i) with
    | none => rfl
    | some held => exact ((h i).2 hi held hheld).2

/-- Every revision held for a runtime id is at most this one. -/
theorem JoinCells.revision_le {revision i : Nat} {predicates : List (LivePredicate V)} {held : Held V}
    (h : w.JoinCells revision predicates) (hheld : w.held (joinId i) = some held) : held.revision ≤ revision := by
  cases hi : predicates[i]? with
  | some p =>
    rw [(h i).1 p hi] at hheld
    cases hheld
    exact Nat.le_refl revision
  | none => exact ((h i).2 hi held hheld).1

/-- The runtime predicates of a delta. -/
def joinPredicates (specs : List Spec) (values : List (ScalarValue V)) (joinKeys : List (JoinKeys V)) :
    List (LivePredicate V) :=
  specs.map fun spec => ⟨"join", spec.resolve values joinKeys⟩

theorem getElem?_joinPredicates {specs : List Spec} {joinKeys : List (JoinKeys V)} {i : Nat} {p : LivePredicate V}
    (h : (joinPredicates specs values joinKeys)[i]? = some p) :
    ∃ spec, specs[i]? = some spec ∧ p = ⟨"join", spec.resolve values joinKeys⟩ := by
  rw [joinPredicates, List.getElem?_map, Option.map_eq_some_iff] at h
  obtain ⟨spec, hspec, rfl⟩ := h
  exact ⟨spec, hspec, rfl⟩

theorem length_le_of_getElem?_joinPredicates {specs : List Spec} {joinKeys : List (JoinKeys V)} {i : Nat}
    (h : (joinPredicates specs values joinKeys)[i]? = none) : specs.length ≤ i := by
  rw [List.getElem?_eq_none_iff, joinPredicates, List.length_map] at h
  exact h

/-- Removing leaves nothing live, whether the removal is newer or was made before. -/
theorem dead_of_remove {remembers : Bool} {id : String} {revision : Nat} {cell : Option (Held V)} {held : Held V}
    (hcell : ∀ old, cell = some old → old.revision < revision ∨ old.revision ≤ revision ∧ old.predicate = none)
    (h : (Update.remove id revision).act remembers values cell = some held) :
    held.revision ≤ revision ∧ held.predicate = none := by
  have hresult : (Update.remove id revision).result remembers values = some held →
      held.revision ≤ revision ∧ held.predicate = none := by
    intro hheld
    simp only [Update.result] at hheld
    split at hheld
    · cases hheld
      exact ⟨Nat.le_refl revision, rfl⟩
    · cases hheld
  cases cell with
  | none => exact hresult h
  | some old =>
    rw [Update.act] at h
    split at h
    · exact hresult h
    next hnot =>
      cases h
      rcases hcell held rfl with hlt | hdead
      · exact absurd hlt hnot
      · exact hdead

/-- A newer delta replaces what was there. -/
theorem JoinCells.replaced {revision newer : Nat} {predicates : List (LivePredicate V)} {specs : List Spec}
    (h : w.JoinCells revision predicates) (hnewer : revision < newer) :
    ((deltaUpdates specs predicates.length newer).foldl (apply values) w).JoinCells newer
      (joinPredicates specs values []) := by
  intro i
  constructor
  · intro p hp
    obtain ⟨spec, hspec, rfl⟩ := getElem?_joinPredicates hp
    have hact := held_of_mem w values (deltaUpdates_nodup specs predicates.length newer)
      (upsert_mem_deltaUpdates predicates.length newer hspec)
    simp only [Update.id] at hact
    rw [hact]
    cases hheld : w.held (joinId i) with
    | none => rfl
    | some held =>
      have hle := h.revision_le hheld
      rw [Update.act, if_pos (by simp only [Update.revision]; omega)]
      rfl
  · intro hnone held
    have hlength := length_le_of_getElem?_joinPredicates hnone
    by_cases hi : i < predicates.length
    · -- the generation before had this position
      have hact := held_of_mem w values (deltaUpdates_nodup specs predicates.length newer)
        (remove_mem_deltaUpdates newer hlength hi)
      simp only [Update.id] at hact
      rw [hact]
      apply dead_of_remove
      intro old hold
      have hle := h.revision_le hold
      exact .inl (by omega)
    · rw [held_of_not_mem w values (joinId_not_mem_deltaUpdates hlength (by omega))]
      intro hheld
      obtain ⟨hle, hpredicate⟩ := (h i).2 (by simpa using hi) held hheld
      exact ⟨by omega, hpredicate⟩

/-- With nothing to send and nothing to remove, the revision moves alone. -/
theorem JoinCells.unsent {revision newer : Nat} (h : w.JoinCells revision []) (hnewer : revision < newer) :
    w.JoinCells newer [] := by
  intro i
  constructor
  · intro p hp
    cases hp
  · intro hnone held hheld
    obtain ⟨hle, hdead⟩ := (h i).2 hnone held hheld
    exact ⟨by omega, hdead⟩

/-- The same delta again changes nothing. -/
theorem JoinCells.resent {revision previousCount : Nat} {specs : List Spec}
    (h : w.JoinCells revision (joinPredicates specs values [])) :
    ((deltaUpdates specs previousCount revision).foldl (apply values) w).JoinCells revision
      (joinPredicates specs values []) := by
  intro i
  constructor
  · intro p hp
    have hheld := (h i).1 p hp
    obtain ⟨spec, hspec, rfl⟩ := getElem?_joinPredicates hp
    have hact := held_of_mem w values (deltaUpdates_nodup specs previousCount revision)
      (upsert_mem_deltaUpdates previousCount revision hspec)
    simp only [Update.id] at hact
    rw [hact, hheld, Update.act, if_neg (by simp [Update.revision])]
  · intro hnone held
    have hlength := length_le_of_getElem?_joinPredicates hnone
    by_cases hi : i < previousCount
    · have hact := held_of_mem w values (deltaUpdates_nodup specs previousCount revision)
        (remove_mem_deltaUpdates revision hlength hi)
      simp only [Update.id] at hact
      rw [hact]
      apply dead_of_remove
      intro old hold
      exact .inr ((h i).2 hnone old hold)
    · rw [held_of_not_mem w values (joinId_not_mem_deltaUpdates hlength (by omega))]
      exact (h i).2 hnone held

end FilterWorker

open FilterWorker

/-! ## Init -/

theorem Spec.resolve_shift (values more : List (ScalarValue V)) (keys moreKeys : List (JoinKeys V)) (spec : Spec) :
    (spec.shift values.length keys.length).resolve (values ++ more) (keys ++ moreKeys) = spec.resolve more moreKeys := by
  induction spec with
  | comparison op left valueRef =>
    rw [Spec.shift, Spec.resolve, Spec.resolve, Nat.add_comm, List.getElem?_append_right (by omega), Nat.add_sub_cancel_left]
  | isNull e negated => rfl
  | inSet e set negated =>
    rw [Spec.shift, Spec.resolve, Spec.resolve]
    simp only
    rw [Nat.add_comm, List.getElem?_append_right (by omega), Nat.add_sub_cancel_left]
  | and l r ihl ihr => simp [Spec.shift, Spec.resolve, ihl, ihr]
  | or l r ihl ihr => simp [Spec.shift, Spec.resolve, ihl, ihr]

theorem find?_numbered_join (revision : Nat) (specs : List Spec) (i : Nat) :
    (numbered "join" "join" revision specs).find? (·.id = joinId i) =
      specs[i]?.map fun spec => ⟨joinId i, revision, "join", spec⟩ := by
  rw [numbered_join]
  -- positions counted from any start
  suffices h : ∀ start i, ((specs.zipIdx start).map fun s => (⟨joinId s.2, revision, "join", s.1⟩ : Predicate)).find?
      (·.id = joinId (start + i)) = specs[i]?.map fun spec => ⟨joinId (start + i), revision, "join", spec⟩ by
    simpa using h 0 i
  induction specs with
  | nil => simp
  | cons spec specs ih =>
    intro start i
    cases i with
    | zero => simp
    | succ i =>
      have hne : joinId start ≠ joinId (start + (i + 1)) := by
        intro h
        have := joinId_injective h
        omega
      have hnext := ih (start + 1) i
      rw [show start + 1 + i = start + (i + 1) by omega] at hnext
      simp [hne, hnext]

theorem numbered_shift (revision constants batches : Nat) (specs : List Spec) :
    (numbered "join" "join" revision specs).map (·.shift constants batches) =
      numbered "join" "join" revision (specs.map (·.shift constants batches)) := by
  simp [numbered, Predicate.shift, List.zipIdx_map, Function.comp_def]

/-- No id of a query filter is one of a runtime filter. -/
theorem find?_numbered_query (specs : List Spec) (i : Nat) :
    (numbered "query" "query" 0 specs).find? (·.id = joinId i) = none := by
  rw [List.find?_eq_none]
  intro p hp
  obtain ⟨s, -, rfl⟩ := List.mem_map.1 hp
  simpa using joinId_ne_query i (toString s.2)

/-- A static pushdown is empty or a snapshot of query predicates. -/
def QueryOnly (static : WirePushdown V) : Prop :=
  static.blob = none ∨ ∃ specs values, static.blob = some ⟨.snapshot (numbered "query" "query" 0 specs), values⟩

theorem scanPushdown_queryOnly (K : Kernel V) {t : TableProvider} {filters : List (Expr V)} {static : WirePushdown V}
    (h : t.scanPushdown K filters = some static) : QueryOnly static := by
  unfold TableProvider.scanPushdown at h
  split at h
  · cases h
    exact .inl rfl
  · unfold serialize at h
    simp only at h
    split at h
    · cases h
      exact .inl rfl
    next hspecs =>
      obtain ⟨p, hp, rfl⟩ := Option.map_eq_some_iff.1 h
      rw [finishSnapshot, if_neg (by simpa using hspecs)] at hp
      obtain ⟨values, -, rfl⟩ := Option.map_eq_some_iff.1 hp
      exact .inr ⟨_, values, rfl⟩

section
variable (K : Kernel V) (schema remote : Schema)

/-- The predicates `build_physical_top` expresses for these snapshots, with or without side batches. -/
def expressed (sideJoinKeys : Bool) (snapshots : List (PhysicalExpr V)) : List (LivePredicate V) :=
  let (specs, b) := buildPhysicalAll K schema remote sideJoinKeys {} snapshots
  joinPredicates specs b.constants b.joinKeys

/-- Those of the filters at a generation: with side batches at init, and on a tick without. -/
def expressedAt (history : Nat → List (PhysicalExpr V)) (initial generation : Nat) : List (LivePredicate V) :=
  expressed K schema remote (generation = initial) (history generation)

variable {K schema remote}

theorem serializePhysicalForRemote_eq {snapshots : List (PhysicalExpr V)} {p : WirePushdown V}
    (h : serializePhysicalForRemote K schema remote snapshots true = some p) :
    p.blob = some ⟨.snapshot (numbered "join" "join" 0 (buildPhysicalAll K schema remote true {} snapshots).1),
        (buildPhysicalAll K schema remote true {} snapshots).2.constants⟩ ∧
      p.joinKeys = (buildPhysicalAll K schema remote true {} snapshots).2.joinKeys ∧
      p.predicateCount = (buildPhysicalAll K schema remote true {} snapshots).1.length := by
  simp only [serializePhysicalForRemote, finishSnapshot, bne_self_eq_false, Bool.and_false, Bool.false_eq_true,
    if_false, Option.map_map, Option.map_eq_some_iff] at h
  obtain ⟨values, hvalues, rfl⟩ := h
  obtain rfl := toArrays_eq K hvalues
  exact ⟨rfl, rfl, rfl⟩

/-- The worker after init: what is found for a runtime id in the merged document. -/
theorem joinCells_init {remembers : Bool} {static p merged : WirePushdown V} {snapshots : List (PhysicalExpr V)}
    (hstatic : QueryOnly static) (hp : serializePhysicalForRemote K schema remote snapshots true = some p)
    (hmerged : merge static p = some merged) :
    (FilterWorker.init remembers merged).JoinCells 0 (expressed K schema remote true snapshots) := by
  obtain ⟨hblob, hkeys, -⟩ := serializePhysicalForRemote_eq hp
  set specs := (buildPhysicalAll K schema remote true {} snapshots).1
  set b := (buildPhysicalAll K schema remote true {} snapshots).2
  -- what is held for each position
  have hheld : ∀ i, (FilterWorker.init remembers merged).held (joinId i) =
      (expressed K schema remote true snapshots)[i]?.map fun p => ⟨0, some p⟩ := by
    intro i
    have hexpressed : (expressed K schema remote true snapshots)[i]? =
        specs[i]?.map fun spec => ⟨"join", spec.resolve b.constants b.joinKeys⟩ :=
      List.getElem?_map
    rw [hexpressed]
    rcases hstatic with hnone | ⟨query, values, hsome⟩
    · rw [merge, hnone, hblob] at hmerged
      cases hmerged
      rw [FilterWorker.init, hblob, hkeys]
      simp only [Option.bind_some, Document.predicates, find?_numbered_join]
      cases specs[i]? <;> rfl
    · rw [merge_of_snapshots hsome hblob] at hmerged
      obtain ⟨-, hmerged⟩ := Option.ite_none_right_eq_some.1 hmerged
      cases hmerged
      rw [FilterWorker.init]
      simp only [Option.bind_some, Document.predicates, numbered_shift, List.find?_append, find?_numbered_query,
        Option.none_or, find?_numbered_join, List.getElem?_map, hkeys]
      cases specs[i]? with
      | none => rfl
      | some spec => simp [Predicate.resolve, Spec.resolve_shift]
  intro i
  constructor
  · intro p hp
    rw [hheld i, hp]
    rfl
  · intro hnone held
    rw [hheld i, hnone]
    intro h
    cases h

end

/-! ## Counters -/

theorem dynamicFilterGeneration_eq {counters : List Nat} (h : counters.sum < 2 ^ 64) :
    dynamicFilterGeneration counters = counters.sum := by
  suffices hfold : ∀ (counters : List Nat) (start : Nat), start + counters.sum < 2 ^ 64 →
      counters.foldl (fun generation counter => (generation + counter) % 2 ^ 64) start = start + counters.sum by
    simpa [dynamicFilterGeneration] using hfold counters 0 (by omega)
  intro counters
  induction counters with
  | nil => simp
  | cons counter counters ih =>
    intro start hstart
    rw [List.sum_cons] at hstart ⊢
    rw [List.foldl_cons, Nat.mod_eq_of_lt (by omega), ih (start + counter) (by omega)]
    omega

/-- Nothing was written between its first read and its last. -/
def Reading.isStable (reading : Reading V) : Bool :=
  dynamicFilterGeneration reading.before = dynamicFilterGeneration reading.after

/-- A filter counts each write to it, so a reading without a write shows what the filters are at its generation. -/
def Reading.Shows (history : Nat → List (PhysicalExpr V)) (reading : Reading V) : Prop :=
  reading.isStable = true → ∀ snapshots, reading.snapshots = snapshots.map some →
    snapshots = history (dynamicFilterGeneration reading.after)

/-- The generation of the first reading without a write. -/
def stableGeneration (readings : List (Reading V)) : Option Nat :=
  (readings.find? Reading.isStable).map fun reading => dynamicFilterGeneration reading.after

/-- The generation observed last, after a turn: its counters where they have not moved, else the reading taken then. -/
def FilterTick.observe (latest : Nat) (turn : FilterTick V) : Nat :=
  if dynamicFilterGeneration turn.counters = latest then latest
  else (stableGeneration turn.readings).getD (dynamicFilterGeneration turn.counters)

theorem snapshotDynamicFilters_some {readings : List (Reading V)} {generation : Nat} {snapshots : List (PhysicalExpr V)}
    (h : snapshotDynamicFilters readings = some (generation, snapshots)) :
    ∃ reading ∈ readings, reading.isStable = true ∧ reading.snapshots = snapshots.map some ∧
      generation = dynamicFilterGeneration reading.after ∧ stableGeneration readings = some generation := by
  induction readings with
  | nil => cases h
  | cons reading readings ih =>
    rw [snapshotDynamicFilters] at h
    obtain ⟨read, hread, h⟩ := Option.bind_eq_some_iff.1 h
    split at h
    next hsame =>
      cases h
      have hstable : reading.isStable = true := decide_eq_true hsame
      have hshown : reading.snapshots = snapshots.map some := by
        simpa using ListFacts.map_of_mapM (g := id) (h := some) (fun h => h) hread
      refine ⟨reading, List.mem_cons_self, hstable, hshown, rfl, ?_⟩
      rw [stableGeneration, List.find?_cons_of_pos hstable]
      rfl
    next hmoved =>
      have hstable : ¬ reading.isStable = true := by
        rw [Reading.isStable, decide_eq_true_eq]
        exact hmoved
      obtain ⟨found, hfound, hfoundStable, hshown, hgeneration, hobserved⟩ := ih h
      refine ⟨found, List.mem_cons_of_mem reading hfound, hfoundStable, hshown, hgeneration, ?_⟩
      rw [stableGeneration, List.find?_cons_of_neg hstable]
      exact hobserved

def Reading.reads (reading : Reading V) : List (List Nat) := [reading.before, reading.after]

def FilterTick.reads (turn : FilterTick V) : List (List Nat) := turn.counters :: turn.readings.flatMap Reading.reads

/-- No counter decreases from one read to a later one, and their sum fits the generation. -/
structure Counting (reads : List (List Nat)) : Prop where
  monotone : reads.Pairwise (List.Forall₂ (· ≤ ·))
  bounded : ∀ counters ∈ reads, counters.sum < 2 ^ 64

theorem Counting.left {reads later : List (List Nat)} (h : Counting (reads ++ later)) : Counting reads :=
  ⟨(List.pairwise_append.1 h.monotone).1, fun counters hc => h.bounded counters (List.mem_append_left _ hc)⟩

/-- A turn that sees another generation sees a larger one, and what it then takes a snapshot of is no smaller. -/
theorem Counting.advances {reads : List (List Nat)} {turn : FilterTick V} {seen : List Nat} {reading : Reading V}
    (h : Counting (reads ++ turn.reads)) (hseen : seen ∈ reads) (hreading : reading ∈ turn.readings)
    (hne : dynamicFilterGeneration turn.counters ≠ seen.sum) : seen.sum < dynamicFilterGeneration reading.after := by
  obtain ⟨-, hturn, hacross⟩ := List.pairwise_append.1 h.monotone
  have hcounters : turn.counters ∈ turn.reads := List.mem_cons_self
  have hafter : reading.after ∈ turn.readings.flatMap Reading.reads :=
    List.mem_flatMap.2 ⟨reading, hreading, by simp [Reading.reads]⟩
  have hseenCounters : seen.sum ≤ turn.counters.sum := (hacross seen hseen turn.counters hcounters).sum_le_sum
  have hcountersAfter : turn.counters.sum ≤ reading.after.sum :=
    ((List.pairwise_cons.1 hturn).1 reading.after hafter).sum_le_sum
  rw [dynamicFilterGeneration_eq (h.bounded _ (List.mem_append_right _ hcounters))] at hne
  rw [dynamicFilterGeneration_eq (h.bounded _ (List.mem_append_right _ (List.mem_cons_of_mem _ hafter)))]
  omega

/-! ## Every run -/

/-- The revisions a delta carries. -/
def WirePushdown.revisions (p : WirePushdown V) : List Nat :=
  match p.blob with
  | some ⟨.delta updates, _⟩ => updates.map Update.revision
  | _ => []

section
variable {K : Kernel V} {schema remote : Schema}

/-- A delta that is made: what it carries, or that there is nothing to carry. -/
theorem serializePhysicalDeltaForRemote_eq {snapshots : List (PhysicalExpr V)} {revision previousCount : Nat}
    {delta : WirePushdown V}
    (h : serializePhysicalDeltaForRemote K schema remote snapshots revision previousCount = some delta) :
    ∃ specs values, expressed K schema remote false snapshots = joinPredicates specs values [] ∧
      delta.predicateCount = specs.length ∧
      (delta.blob = some ⟨.delta (deltaUpdates specs previousCount revision), values⟩ ∨
        delta.blob = none ∧ specs = [] ∧ previousCount = 0) := by
  refine ⟨(buildPhysicalAll K schema remote false {} snapshots).1,
    (buildPhysicalAll K schema remote false {} snapshots).2.constants, ?_, ?_⟩
  · have hkeys : (buildPhysicalAll K schema remote false {} snapshots).2.joinKeys = [] :=
      buildPhysicalAll_joinKeys K schema remote snapshots {}
    simp only [expressed, hkeys]
  · simp only [serializePhysicalDeltaForRemote, finishDelta] at h
    split at h
    next hempty =>
      cases h
      simp only [List.isEmpty_iff, List.append_eq_nil_iff, List.map_eq_nil_iff, numbered, tombstones,
        List.zipIdx_eq_nil_iff, List.range'_eq_nil_iff] at hempty
      refine ⟨rfl, .inr ⟨rfl, hempty.1, ?_⟩⟩
      have hcount := hempty.2
      rw [hempty.1, List.length_nil, Nat.sub_zero] at hcount
      exact hcount
    · obtain ⟨values, hvalues, rfl⟩ := Option.map_eq_some_iff.1 h
      obtain rfl := toArrays_eq K hvalues
      exact ⟨rfl, .inl rfl⟩

/-- What holds after the turns that made these reads, the last of them of this generation. -/
structure FilterSession.Inv (K : Kernel V) (schema remote : Schema) (history : Nat → List (PhysicalExpr V))
    (initial latest : Nat) (s first : FilterSession V) (reads : List (List Nat)) : Prop where
  generation : s.loop.generation = latest
  seen : ∃ counters ∈ reads, latest = counters.sum
  initial_le : initial ≤ latest
  revision_le : s.loop.revision ≤ latest
  count : s.loop.predicateCount = (expressedAt K schema remote history initial latest).length
  cells : s.worker.JoinCells s.loop.revision (expressedAt K schema remote history initial latest)
  others : ∀ id, (∀ i, id ≠ joinId i) → s.worker.held id = first.worker.held id
  /-- The delta that is sent again is the one of the latest snapshot. -/
  pending : ∀ p ∈ s.loop.tickPushdown, ∃ specs values previousCount,
    p.blob = some ⟨.delta (deltaUpdates specs previousCount s.loop.revision), values⟩ ∧
      expressedAt K schema remote history initial latest = joinPredicates specs values []
  carried : ∀ d ∈ s.deltas, ∀ r ∈ d.1.revisions, r ≤ s.loop.revision
  increasing : s.deltas.Pairwise fun d d' => ∀ r ∈ d.1.revisions, ∀ r' ∈ d'.1.revisions, r < r'

theorem FilterWorker.held_delta_of_ne {w : FilterWorker V} {values : List (ScalarValue V)} {specs : List Spec}
    {previousCount revision : Nat} {id : String} (h : ∀ i, id ≠ joinId i) :
    ((deltaUpdates specs previousCount revision).foldl (apply values) w).held id = w.held id := by
  apply held_of_not_mem
  rw [deltaUpdates_ids, List.mem_map]
  rintro ⟨i, -, hi⟩
  exact h i hi.symm

namespace FilterSession

variable {history : Nat → List (PhysicalExpr V)} {initial latest : Nat} {first s s' : FilterSession V} {reads : List (List Nat)}

/-- The counters have not moved: what was sent is sent again. -/
theorem Inv.resend (h : s.Inv K schema remote history initial latest first reads) (turn : FilterTick V) :
    Inv K schema remote history initial latest
      ⟨s.loop, s.worker.receive (s.loop.tickPushdown.bind (·.blob)), s.deltas ++ []⟩ first (reads ++ turn.reads) where
  generation := h.generation
  seen := by
    obtain ⟨counters, hcounters, hlatest⟩ := h.seen
    exact ⟨counters, List.mem_append_left _ hcounters, hlatest⟩
  initial_le := h.initial_le
  revision_le := h.revision_le
  count := h.count
  cells := by
    cases hpending : s.loop.tickPushdown with
    | none => exact h.cells
    | some p =>
      obtain ⟨specs, values, previousCount, hblob, hspecs⟩ := h.pending p hpending
      simp only [Option.bind_some, hblob, FilterWorker.receive]
      have hcells := h.cells
      rw [hspecs] at hcells ⊢
      exact hcells.resent
  others := by
    intro id hid
    cases hpending : s.loop.tickPushdown with
    | none => exact h.others id hid
    | some p =>
      obtain ⟨specs, values, previousCount, hblob, -⟩ := h.pending p hpending
      simp only [Option.bind_some, hblob, FilterWorker.receive, FilterWorker.held_delta_of_ne hid]
      exact h.others id hid
  pending := h.pending
  carried := by simpa using h.carried
  increasing := by simpa using h.increasing

theorem revisions_of_delta {delta : WirePushdown V} {specs : List Spec} {values : List (ScalarValue V)}
    {previousCount revision : Nat}
    (h : delta.blob = some ⟨.delta (deltaUpdates specs previousCount revision), values⟩ ∨
      delta.blob = none ∧ specs = [] ∧ previousCount = 0) : ∀ r ∈ delta.revisions, r = revision := by
  intro r hr
  rcases h with hblob | ⟨hblob, -⟩
  · rw [WirePushdown.revisions, hblob] at hr
    obtain ⟨update, hupdate, rfl⟩ := List.mem_map.1 hr
    exact deltaUpdates_revision hupdate
  · rw [WirePushdown.revisions, hblob] at hr
    cases hr

/-- What a delta does to the runtime predicates: it replaces those of the generation before. -/
theorem cells_of_delta {w : FilterWorker V} {delta : WirePushdown V} {predicates : List (LivePredicate V)} {specs : List Spec}
    {values : List (ScalarValue V)} {revision newer : Nat} (hcells : w.JoinCells revision predicates)
    (hnewer : revision < newer)
    (hblob : delta.blob = some ⟨.delta (deltaUpdates specs predicates.length newer), values⟩ ∨
      delta.blob = none ∧ specs = [] ∧ predicates.length = 0) :
    (w.receive delta.blob).JoinCells newer (joinPredicates specs values []) ∧
      ∀ id, (∀ i, id ≠ joinId i) → (w.receive delta.blob).held id = w.held id := by
  rcases hblob with hblob | ⟨hblob, rfl, hnone⟩
  · rw [hblob]
    exact ⟨hcells.replaced hnewer, fun id hid => held_delta_of_ne hid⟩
  · rw [List.length_eq_zero_iff] at hnone
    rw [hnone] at hcells
    rw [hblob]
    exact ⟨hcells.unsent hnewer, fun _ _ => rfl⟩

/-- A turn that made a delta of the snapshot it took. -/
theorem Inv.changed {turn : FilterTick V} {snapshots : List (PhysicalExpr V)} {delta : WirePushdown V} {reading : Reading V}
    (h : s.Inv K schema remote history initial latest first reads) (hcounting : Counting (reads ++ turn.reads))
    (hne : dynamicFilterGeneration turn.counters ≠ latest) (hreading : reading ∈ turn.readings)
    (hshown : snapshots = history (dynamicFilterGeneration reading.after))
    (hdelta : serializePhysicalDeltaForRemote K schema remote snapshots (nextRevision s.loop.revision)
      s.loop.predicateCount = some delta) :
    Inv K schema remote history initial (dynamicFilterGeneration reading.after)
      ⟨⟨dynamicFilterGeneration reading.after, delta.predicateCount, nextRevision s.loop.revision,
        if delta.blob.isSome then some delta else none⟩, s.worker.receive delta.blob, s.deltas ++ [(delta, snapshots)]⟩ first
      (reads ++ turn.reads) := by
  obtain ⟨counters, hcounters, hlatest⟩ := h.seen
  rw [hlatest] at hne
  have hadvances := hcounting.advances hcounters hreading hne
  have hafter : reading.after ∈ reads ++ turn.reads :=
    List.mem_append_right _ (List.mem_cons_of_mem _ (List.mem_flatMap.2 ⟨reading, hreading, by simp [Reading.reads]⟩))
  have hbounded := hcounting.bounded _ hafter
  rw [dynamicFilterGeneration_eq hbounded] at hadvances hshown ⊢
  have hle := h.revision_le
  have hsince := h.initial_le
  -- the counters have room left, so the revision does not saturate
  have hrevision : nextRevision s.loop.revision = s.loop.revision + 1 := by
    rw [nextRevision]
    omega
  obtain ⟨specs, values, hspecs, hcount, hblob⟩ := serializePhysicalDeltaForRemote_eq hdelta
  have hnow : expressedAt K schema remote history initial reading.after.sum = joinPredicates specs values [] := by
    rw [expressedAt, ← hshown, ← hspecs]
    congr 1
    exact decide_eq_false (by omega)
  rw [hrevision, h.count] at hblob
  obtain ⟨hcells, hothers⟩ := cells_of_delta h.cells (Nat.lt_succ_self _) hblob
  rw [hrevision]
  constructor
  case generation => rfl
  case seen => exact ⟨reading.after, hafter, rfl⟩
  case initial_le => omega
  case revision_le =>
    show s.loop.revision + 1 ≤ reading.after.sum
    omega
  case count =>
    rw [hnow, joinPredicates, List.length_map]
    exact hcount
  case cells =>
    rw [hnow]
    exact hcells
  case others => exact fun id hid => (hothers id hid).trans (h.others id hid)
  case pending =>
    intro p hp
    rcases hblob with hblob | ⟨hblob, -⟩
    · simp only [hblob, Option.isSome_some, if_true, Option.mem_def, Option.some.injEq] at hp
      subst hp
      exact ⟨specs, values, _, hblob, hnow⟩
    · simp [hblob] at hp
  case carried =>
    intro d hd r hr
    rcases List.mem_append.1 hd with hd | hd
    · have hold := h.carried d hd r hr
      exact Nat.le_succ_of_le hold
    · obtain rfl := List.mem_singleton.1 hd
      exact Nat.le_of_eq (revisions_of_delta hblob r hr)
  case increasing =>
    refine List.pairwise_append.2 ⟨h.increasing, List.pairwise_singleton _ _, ?_⟩
    intro d hd d' hd' r hr r' hr'
    obtain rfl := List.mem_singleton.1 hd'
    rw [revisions_of_delta hblob r' hr']
    exact Nat.lt_succ_of_le (h.carried d hd r hr)

theorem Inv.step {turn : FilterTick V} (h : s.Inv K schema remote history initial latest first reads)
    (hcounting : Counting (reads ++ turn.reads)) (hshows : ∀ reading ∈ turn.readings, reading.Shows history)
    (hstep : s.step K schema remote turn = some s') :
    s'.Inv K schema remote history initial (turn.observe latest) first (reads ++ turn.reads) := by
  obtain ⟨⟨loop, made⟩, htick, hstep⟩ := Option.bind_eq_some_iff.1 hstep
  cases hstep
  rw [FilterLoop.tick, h.generation] at htick
  rw [FilterTick.observe]
  split at htick
  next hsame =>
    cases htick
    rw [if_pos hsame]
    exact h.resend turn
  next hne =>
    obtain ⟨⟨generation, snapshots⟩, hsnapshot, htick⟩ := Option.bind_eq_some_iff.1 htick
    obtain ⟨delta, hdelta, htick⟩ := Option.bind_eq_some_iff.1 htick
    cases htick
    obtain ⟨reading, hreading, hstable, hread, rfl, hobserved⟩ := snapshotDynamicFilters_some hsnapshot
    rw [if_neg hne, hobserved, Option.getD_some]
    have hsent : (if delta.blob.isSome then some delta else none).bind (·.blob) = delta.blob := by
      cases hblob : delta.blob <;> simp [hblob]
    rw [hsent]
    exact h.changed hcounting hne hreading (hshows reading hreading hstable snapshots hread) hdelta

theorem Inv.start {remembers : Bool} {static : WirePushdown V} {readings : List (Reading V)} {snapshots : List (PhysicalExpr V)}
    (hstatic : QueryOnly static) (hcounting : Counting (readings.flatMap Reading.reads))
    (hshows : ∀ reading ∈ readings, reading.Shows history)
    (hstart : start K schema remote remembers static readings = some (first, snapshots)) :
    stableGeneration readings = some first.loop.generation ∧
      first.Inv K schema remote history first.loop.generation first.loop.generation first (readings.flatMap Reading.reads) := by
  obtain ⟨⟨generation, taken⟩, hsnapshot, hstart⟩ := Option.bind_eq_some_iff.1 hstart
  obtain ⟨p, hp, hstart⟩ := Option.bind_eq_some_iff.1 hstart
  obtain ⟨merged, hmerged, hstart⟩ := Option.bind_eq_some_iff.1 hstart
  cases hstart
  obtain ⟨reading, hreading, hstable, hread, rfl, hobserved⟩ := snapshotDynamicFilters_some hsnapshot
  have hafter : reading.after ∈ readings.flatMap Reading.reads :=
    List.mem_flatMap.2 ⟨reading, hreading, by simp [Reading.reads]⟩
  have hnow : expressedAt K schema remote history (dynamicFilterGeneration reading.after) (dynamicFilterGeneration reading.after) =
      expressed K schema remote true snapshots := by
    rw [expressedAt, ← hshows reading hreading hstable snapshots hread, decide_eq_true rfl]
  refine ⟨hobserved, ?_⟩
  constructor
  case generation => rfl
  case seen => exact ⟨reading.after, hafter, dynamicFilterGeneration_eq (hcounting.bounded _ hafter)⟩
  case initial_le => exact Nat.le_refl _
  case revision_le => exact Nat.zero_le _
  case count =>
    rw [hnow, (serializePhysicalForRemote_eq hp).2.2]
    simp [expressed, joinPredicates]
  case cells =>
    rw [hnow]
    exact joinCells_init hstatic hp hmerged
  case others => exact fun _ _ => rfl
  case pending =>
    intro p hp
    cases hp
  case carried =>
    intro d hd
    cases hd
  case increasing => exact List.Pairwise.nil

/-- What the worker holds, and what it was sent. -/
structure Follows (predicates : List (LivePredicate V)) (s first : FilterSession V) : Prop where
  /-- The live runtime predicates are these, position by position. -/
  join : ∀ i, s.worker.live (joinId i) = predicates[i]?
  /-- Every other predicate is as init left it. -/
  query : ∀ id, (∀ i, id ≠ joinId i) → s.worker.held id = first.worker.held id
  increasing : s.deltas.Pairwise fun d d' => ∀ r ∈ d.1.revisions, ∀ r' ∈ d'.1.revisions, r < r'

/-- The generation observed last: by the snapshot of init, and after it by the turns. -/
def latestGeneration (readings : List (Reading V)) (turns : List (FilterTick V)) : Option Nat :=
  (stableGeneration readings).map fun initial => turns.foldl FilterTick.observe initial

/-- **The worker follows the latest snapshot**: after every turn of the batch loop the live runtime predicates are
exactly those that the filters' expressions of the generation observed last have, the query predicates are untouched, and
the revisions of the deltas strictly increase. -/
theorem filter_deltas (t : TableProvider) (filters : List (Expr V)) (static : WirePushdown V) (remembers : Bool)
    (history : Nat → List (PhysicalExpr V)) (readings : List (Reading V)) (turns : List (FilterTick V)) (s : FilterSession V)
    (snapshots : List (PhysicalExpr V)) (hstatic : t.scanPushdown K filters = some static)
    (hstart : start K schema remote remembers static readings = some (first, snapshots))
    (hrun : turns.foldlM (step K schema remote) first = some s)
    (hcounting : Counting (readings.flatMap Reading.reads ++ turns.flatMap FilterTick.reads))
    (hshows : ∀ reading ∈ readings ++ turns.flatMap FilterTick.readings, reading.Shows history) :
    ∃ initial latest, stableGeneration readings = some initial ∧ latestGeneration readings turns = some latest ∧
      s.Follows (expressedAt K schema remote history initial latest) first := by
  have hshowsInit : ∀ reading ∈ readings, reading.Shows history := fun r hr => hshows r (List.mem_append_left _ hr)
  obtain ⟨hinitial, hbegin⟩ := Inv.start (scanPushdown_queryOnly K hstatic) hcounting.left hshowsInit hstart
  -- the reads of a prefix of the turns count and show as well
  let After (done : List (FilterTick V)) (s : FilterSession V) : Prop :=
    Counting (readings.flatMap Reading.reads ++ done.flatMap FilterTick.reads) →
      (∀ reading ∈ done.flatMap FilterTick.readings, reading.Shows history) →
      s.Inv K schema remote history first.loop.generation (done.foldl FilterTick.observe first.loop.generation) first
        (readings.flatMap Reading.reads ++ done.flatMap FilterTick.reads)
  have hafter : After turns s := by
    refine run_invariant_of_partial ?_ ?_ hrun
    · intro _ _
      simpa using hbegin
    · intro done turn s s' ih hstep hcounting hshows
      simp only [List.flatMap_append, List.flatMap_singleton, ← List.append_assoc, List.foldl_append, List.foldl_cons,
        List.foldl_nil] at hcounting hshows ⊢
      have hdone := ih hcounting.left fun r hr => hshows r (List.mem_append_left _ hr)
      exact hdone.step hcounting (fun r hr => hshows r (List.mem_append_right _ hr)) hstep
  have h := hafter hcounting fun r hr => hshows r (List.mem_append_right _ hr)
  exact ⟨_, _, hinitial, by rw [latestGeneration, hinitial]; rfl, h.cells.live, h.others, h.increasing⟩

/-! A join whose build side is a range and a set of keys at init, then a narrower range: the set is not sent on a
tick, so its position is removed. -/

def rangeFrom (n : Int) : PhysicalExpr Int := .binary (.column "a" 0) (.cmp .ge) (.literal (.atom .int64 (some n)))

def keySet (keys : List Int) : PhysicalExpr Int :=
  .inList (.column "a" 0) (keys.map fun key => .literal (.atom .int64 (some key))) false

def narrowing (generation : Nat) : List (PhysicalExpr Int) :=
  if generation = 1 then [.binary (rangeFrom 1) .and (keySet [1, 9])] else [.binary (rangeFrom 5) .and (keySet [5, 9])]

def takenAt (generation : Nat) : Reading Int := ⟨[generation], (narrowing generation).map some, [generation]⟩

def narrowingTurns : List (FilterTick Int) := [⟨[1], []⟩, ⟨[2], [takenAt 2]⟩, ⟨[2], []⟩]

theorem filter_deltas_narrowing : ∃ static first snapshots s,
    exactTable.scanPushdown Kernel.integers [] = some static ∧
    start Kernel.integers integerColumns integerColumns true static [takenAt 1] = some (first, snapshots) ∧
    narrowingTurns.foldlM (step Kernel.integers integerColumns integerColumns) first = some s ∧
    (expressedAt Kernel.integers integerColumns integerColumns narrowing 1 2).length = 1 ∧
    s.Follows (expressedAt Kernel.integers integerColumns integerColumns narrowing 1 2) first := by
  have hcounting : Counting ([takenAt 1].flatMap Reading.reads ++ narrowingTurns.flatMap FilterTick.reads) := by
    constructor
    · simp [takenAt, narrowingTurns, Reading.reads, FilterTick.reads]
    · simp [takenAt, narrowingTurns, Reading.reads, FilterTick.reads]
  have hshows : ∀ reading ∈ [takenAt 1] ++ narrowingTurns.flatMap FilterTick.readings, reading.Shows narrowing := by
    intro reading hreading
    have htaken : reading = takenAt 1 ∨ reading = takenAt 2 := by simpa [narrowingTurns] using hreading
    rcases htaken with rfl | rfl
    · exact fun _ snapshots hread => (List.map_injective_iff.2 (fun _ _ => Option.some.inj) hread).symm
    · exact fun _ snapshots hread => (List.map_injective_iff.2 (fun _ _ => Option.some.inj) hread).symm
  obtain ⟨static, first, snapshots, s, hstatic, hstart, hrun⟩ : ∃ static first snapshots s,
      exactTable.scanPushdown Kernel.integers [] = some static ∧
      start Kernel.integers integerColumns integerColumns true static [takenAt 1] = some (first, snapshots) ∧
      narrowingTurns.foldlM (step Kernel.integers integerColumns integerColumns) first = some s := ⟨_, _, _, _, rfl, rfl, rfl⟩
  obtain ⟨initial, latest, hinitial, hlatest, hfollows⟩ :=
    filter_deltas exactTable [] static true narrowing [takenAt 1] narrowingTurns s snapshots hstatic hstart hrun hcounting hshows
  cases hinitial
  cases hlatest
  exact ⟨static, first, snapshots, s, hstatic, hstart, hrun, rfl, hfollows⟩

end FilterSession

end

end VgiDatafusion
