import Mathlib.Algebra.Ring.Int.Defs
import Mathlib.Data.List.Sort
import VgiDatafusion.Scan.SplitMetadata
import VgiDatafusion.Library.ListScheduling

/-!
# Packing splits into partitions (lib.rs:1796-1983)

| here | there |
| --- | --- |
| `ScanSplitInfo`, `ScanPlan`, `PlannedSplits` | with the fields packing reads, those of `Scan/SplitMetadata.lean` included |
| `BatchReader` | `vgi_protocol::ipc::read_batch`; the rows of a batch are an `i64` of its message |
| `Arithmetic` | `+=` on `i64`: with overflow checks it panics, without it wraps |
| `splitRowCount`, `splitByteCount` | `split_row_count`, `split_byte_count`, which add with `checked_add` |
| `packSplits` | `pack_splits`; nothing where an addition panics |

A plan is packed by its ranges if it has valid ones and otherwise by the weights of its splits. Either way it is a
partition of the splits (`pack_splits_partitions`).
-/
namespace VgiDatafusion.Packing

open ListScheduling

variable {V : Type}

abbrev Bytes := List UInt8

def i64Min : Int := -9223372036854775808

def i64Max : Int := 9223372036854775807

def usizeMax : Nat := 18446744073709551615

def InI64 (value : Option Int) : Prop := ∀ v ∈ value, i64Min ≤ v ∧ v ≤ i64Max

instance decidableInI64 (value : Option Int) : Decidable (InI64 value) :=
  inferInstanceAs (Decidable (∀ v ∈ value, i64Min ≤ v ∧ v ≤ i64Max))

/-- A split of the worker's plan, with the fields that packing reads. -/
structure ScanSplitInfo (V : Type) extends VgiDatafusion.ScanSplitInfo V where
  token : Bytes
  rangeIndex : Option Int
  startPosition : Option Bytes
  endPosition : Option Bytes
  rows_i64 : InI64 estimatedRows
  bytes_i64 : InI64 estimatedBytes

/-- Keys and split points, each written as a batch of its own. -/
structure RangePartitioning where
  keys : List Bytes
  splitPoints : Bytes

structure ScanPlan (V : Type) where
  splits : List (ScanSplitInfo V)
  maxWorkers : Option Int
  rangePartitioning : Option RangePartitioning
  startPosition : Option Bytes
  endPosition : Option Bytes

/-- `SplitGroup` (`lib.rs:1797-1802`): the tokens of one partition. -/
structure SplitGroup where
  splitIndices : List Nat
  tokens : List Bytes
  numRows : Precision
  totalByteSize : Precision

/-- `PlannedSplits` (`lib.rs:1806-1818`). -/
structure PlannedSplits (V : Type) where
  groups : List SplitGroup
  numRows : Precision
  totalByteSize : Precision
  plan : ScanPlan V
  rangeGrouped : Bool
  unbounded : Bool

/-- `vgi_protocol::ipc::read_batch`, of which nothing else is known. -/
structure BatchReader (V : Type) where
  readBatch : Bytes → Option (RecordBatch V)
  rows_i64 : ∀ bytes batch, readBatch bytes = some batch → (batch.rows : Int) ≤ i64Max

/-! ## Totals -/

/-- `checked_add` on `usize`. -/
def checkedAdd (a b : Nat) : Option Nat := if a + b ≤ usizeMax then some (a + b) else none

/-- The loop of `split_row_count` (`lib.rs:1945-1966`), which gives up on an overflow. -/
def rowTotal : Nat → Bool → List (ScanSplitInfo V) → Precision
  | total, exact, [] => if exact then .exact total else .inexact total
  | total, exact, split :: rest =>
    match split.estimatedRows.bind usizeOf with
    | none => .absent
    | some rows =>
      match checkedAdd total rows with
      | none => .absent
      | some sum => rowTotal sum (exact && split.rowsExact) rest

/-- `split_row_count` (`lib.rs:1945-1966`). -/
def splitRowCount (splits : List (ScanSplitInfo V)) : Precision := rowTotal 0 true splits

/-- The loop of `split_byte_count` (`lib.rs:1968-1983`). -/
def byteTotal : Nat → List (ScanSplitInfo V) → Precision
  | total, [] => .inexact total
  | total, split :: rest =>
    match split.estimatedBytes.bind usizeOf with
    | none => .absent
    | some bytes =>
      match checkedAdd total bytes with
      | none => .absent
      | some sum => byteTotal sum rest

/-- `split_byte_count` (`lib.rs:1968-1983`). -/
def splitByteCount (splits : List (ScanSplitInfo V)) : Precision := byteTotal 0 splits

/-! ## Groups -/

/-- How the build adds `i64`s: with overflow checks, or without. -/
inductive Arithmetic
  | checked | wrapping | unbounded
  deriving DecidableEq, Repr

/-- `+=` on `i64`; nothing where it panics. -/
def Arithmetic.add : Arithmetic → Int → Int → Option Int
  | .checked, a, b => if i64Min ≤ a + b ∧ a + b ≤ i64Max then some (a + b) else none
  | .wrapping, a, b => some (Int.bmod (a + b) 18446744073709551616)
  | .unbounded, a, b => some (a + b)

def estimatedBytes (splits : List (ScanSplitInfo V)) (i : Nat) : Option Int := splits[i]?.bind (·.estimatedBytes)

/-- What the splits are sorted by. -/
def sortKey (splits : List (ScanSplitInfo V)) (i : Nat) : Int := (estimatedBytes splits i).getD 0

/-- What a split adds to its group. -/
def weight (splits : List (ScanSplitInfo V)) (i : Nat) : Int := max ((estimatedBytes splits i).getD 1) 1

/-- The splits from the largest to the smallest, ties as they came (`lib.rs:1902-1903`). -/
def order (splits : List (ScanSplitInfo V)) : List Nat :=
  (List.range splits.length).insertionSort fun i j => sortKey splits j ≤ sortKey splits i

def rangeOf (rangeCount : Nat) (split : ScanSplitInfo V) : Option Nat :=
  (split.rangeIndex.bind usizeOf).filter (· < rangeCount)

/-- The loop over the splits (`lib.rs:1852-1864`); a split without a valid range leaves the plan ungrouped. -/
def groupByRange (rangeCount : Nat) (splits : List (ScanSplitInfo V)) : Option (List (List Nat)) :=
  splits.zipIdx.foldlM (fun groups entry => (rangeOf rangeCount entry.1).map (push groups · entry.2))
    (List.replicate rangeCount [])

/-- `max_workers` (`lib.rs:1842-1845`): what the worker and the session allow. -/
def workerCap (plan : ScanPlan V) (targetPartitions : Nat) : Nat :=
  match plan.maxWorkers with
  | some m => if 0 < m then min m.toNat targetPartitions else targetPartitions
  | none => targetPartitions

section
variable (R : BatchReader V)

/-- `range_count` (`lib.rs:1846-1850`): one more than there are split points. -/
def rangeCount (plan : ScanPlan V) : Option Nat :=
  plan.rangePartitioning.bind fun range =>
    (R.readBatch range.splitPoints).map fun points => min (points.rows + 1) usizeMax

/-- A group for every range, where there are not more of them than workers (`lib.rs:1851-1864`). -/
def rangeGroups (plan : ScanPlan V) (maxWorkers : Nat) : Option (List (List Nat)) :=
  (rangeCount R plan).bind fun count =>
    if 0 < count ∧ count ≤ maxWorkers then groupByRange count plan.splits else none

/-- `unbounded` (`lib.rs:1836-1840`). -/
def isUnbounded (plan : ScanPlan V) : Bool :=
  (plan.startPosition.isSome && plan.endPosition.isNone) ||
    plan.splits.any fun split => split.startPosition.isSome && split.endPosition.isNone

/-- The group of these splits (`lib.rs:1921-1930`). -/
def splitGroup (splits : List (ScanSplitInfo V)) (indices : List Nat) : SplitGroup :=
  let members := indices.filterMap (splits[·]?)
  { splitIndices := indices
    tokens := members.map (·.token)
    numRows := splitRowCount members
    totalByteSize := splitByteCount members }

def planned (plan : ScanPlan V) (groupIndices : List (List Nat)) (rangeGrouped : Bool) : PlannedSplits V :=
  { groups := groupIndices.map (splitGroup plan.splits)
    numRows := splitRowCount plan.splits
    totalByteSize := splitByteCount plan.splits
    plan, rangeGrouped, unbounded := isUnbounded plan }

/-- A plan without splits: there is no work. -/
def noWork (plan : ScanPlan V) : PlannedSplits V :=
  { groups := [], numRows := .exact 0, totalByteSize := .exact 0, plan, rangeGrouped := false, unbounded := isUnbounded plan }

/-- The number of groups of the branch that weighs the splits. -/
def groupCount (plan : ScanPlan V) (targetPartitions : Nat) : Nat :=
  max (min (workerCap plan targetPartitions) plan.splits.length) 1

/-- The loop over the splits, largest first. -/
def weightLoop (arithmetic : Arithmetic) (splits : List (ScanSplitInfo V)) (n : Nat) : Option (Bins Nat Int) :=
  schedule arithmetic.add (weight splits) n (order splits)

/-- The loop that gives each split to the lightest group (`lib.rs:1898-1915`). -/
def packByWeight (arithmetic : Arithmetic) (plan : ScanPlan V) (targetPartitions : Nat) : Option (Bins Nat Int) :=
  weightLoop arithmetic plan.splits (groupCount plan targetPartitions)

/-- `pack_splits` (`lib.rs:1835-1940`); nothing where an addition panics. -/
def packSplits (arithmetic : Arithmetic) (plan : ScanPlan V) (targetPartitions : Nat) : Option (PlannedSplits V) :=
  match rangeGroups R plan (workerCap plan targetPartitions) with
  | some groups => some (planned plan groups true)
  | none =>
    if plan.splits.isEmpty then some (noWork plan)
    else (packByWeight arithmetic plan targetPartitions).map fun bins => planned plan bins.items false

end

/-! ## Counts -/

/-- The indices with exact row counts that are not negative and add up to `total`. -/
def ExactRows (splits : List (ScanSplitInfo V)) (indices : List Nat) (total : Nat) : Prop :=
  ∃ rows : List Nat, rows.sum = total ∧ List.Forall₂ (fun i count =>
    ∃ split, splits[i]? = some split ∧ split.rowsExact = true ∧ split.estimatedRows = some (count : Int)) indices rows

theorem usizeOf_eq_some {value : Int} {n : Nat} (h : usizeOf value = some n) : value = n := by
  unfold usizeOf at h
  split at h
  · cases h
    omega
  · cases h

theorem checkedAdd_eq_some {a b sum : Nat} (h : checkedAdd a b = some sum) : sum = a + b ∧ sum ≤ usizeMax := by
  unfold checkedAdd at h
  split at h
  · cases h
    exact ⟨rfl, by assumption⟩
  · cases h

/-- The total of a count that is given is the true sum of counts that are not negative, and it fits. -/
theorem rowTotal_eq {splits : List (ScanSplitInfo V)} {total n : Nat} {exact : Bool} (hfits : total ≤ usizeMax)
    (h : rowTotal total exact splits = .exact n ∨ rowTotal total exact splits = .inexact n) :
    ∃ rows : List Nat, total + rows.sum = n ∧ n ≤ usizeMax ∧
      List.Forall₂ (fun split count => split.estimatedRows = some (count : Int)) splits rows := by
  induction splits generalizing total exact with
  | nil =>
    have hn : total = n := by
      cases exact <;> simpa [rowTotal] using h
    exact ⟨[], by simpa using hn, hn ▸ hfits, .nil⟩
  | cons split splits ih =>
    unfold rowTotal at h
    cases hrows : split.estimatedRows.bind usizeOf with
    | none => simp [hrows] at h
    | some count =>
      cases hsum : checkedAdd total count with
      | none => simp [hrows, hsum] at h
      | some sum =>
        obtain ⟨hadded, hmax⟩ := checkedAdd_eq_some hsum
        obtain ⟨value, hvalue, hcount⟩ := Option.bind_eq_some_iff.1 hrows
        simp only [hrows, hsum] at h
        obtain ⟨rows, htotal, hle, hall⟩ := ih hmax h
        refine ⟨count :: rows, ?_, hle, .cons ?_ hall⟩
        · rw [List.sum_cons]
          omega
        · rw [hvalue, usizeOf_eq_some hcount]

theorem exact_of_rowTotal {splits : List (ScanSplitInfo V)} {total n : Nat} {exact : Bool}
    (h : rowTotal total exact splits = .exact n) : exact = true ∧ ∀ split ∈ splits, split.rowsExact = true := by
  induction splits generalizing total exact with
  | nil =>
    cases exact with
    | true => simp
    | false => simp [rowTotal] at h
  | cons split splits ih =>
    unfold rowTotal at h
    cases hrows : split.estimatedRows.bind usizeOf with
    | none => simp [hrows] at h
    | some count =>
      cases hsum : checkedAdd total count with
      | none => simp [hrows, hsum] at h
      | some sum =>
        simp only [hrows, hsum] at h
        obtain ⟨hexact, hall⟩ := ih h
        rw [Bool.and_eq_true] at hexact
        refine ⟨hexact.1, ?_⟩
        intro s hs
        rcases List.mem_cons.1 hs with rfl | hs
        · exact hexact.2
        · exact hall s hs

/-! ## Members of a group -/

def InRange (splits : List (ScanSplitInfo V)) (indices : List Nat) : Prop := ∀ i ∈ indices, i < splits.length

/-- The members are the splits of the indices, one for one. -/
theorem members_forall₂ {splits : List (ScanSplitInfo V)} {indices : List Nat} (h : InRange splits indices) :
    List.Forall₂ (fun i split => splits[i]? = some split) indices (indices.filterMap (splits[·]?)) := by
  induction indices with
  | nil => exact .nil
  | cons i indices ih =>
    obtain ⟨split, hi⟩ : ∃ split, splits[i]? = some split := ⟨_, List.getElem?_eq_getElem (h i List.mem_cons_self)⟩
    rw [List.filterMap_cons_some hi]
    exact .cons hi (ih fun j hj => h j (List.mem_cons_of_mem i hj))

theorem members_range (splits : List (ScanSplitInfo V)) :
    (List.range splits.length).filterMap (splits[·]?) = splits := by
  have hin : InRange splits (List.range splits.length) := fun i hi => List.mem_range.1 hi
  have hmembers := members_forall₂ hin
  apply List.ext_getElem?
  intro i
  have hlength := hmembers.length_eq
  rw [List.length_range] at hlength
  by_cases hi : i < splits.length
  · obtain ⟨split, hsplit, hat⟩ := ListFacts.forall₂_getElem? hmembers (List.getElem?_range hi)
    rw [hsplit, hat]
  · rw [List.getElem?_eq_none (by omega), List.getElem?_eq_none (by omega)]

theorem tokens_forall₂ {splits : List (ScanSplitInfo V)} {indices : List Nat} (h : InRange splits indices) :
    List.Forall₂ (fun i token => ∃ split, splits[i]? = some split ∧ split.token = token) (splitGroup splits indices).splitIndices
      (splitGroup splits indices).tokens := by
  rw [splitGroup, List.forall₂_map_right_iff]
  exact (members_forall₂ h).imp fun _ split hat => ⟨split, hat, rfl⟩

theorem exactRows_of_count {splits : List (ScanSplitInfo V)} {indices : List Nat} (h : InRange splits indices) {n : Nat}
    (hcount : splitRowCount (indices.filterMap (splits[·]?)) = .exact n) : ExactRows splits indices n := by
  have hmembers := members_forall₂ h
  obtain ⟨rows, hsum, -, hrows⟩ := rowTotal_eq (Nat.zero_le _) (.inl hcount)
  obtain ⟨-, hexact⟩ := exact_of_rowTotal hcount
  refine ⟨rows, by simpa using hsum, ?_⟩
  have hboth := ListFacts.forall₂_of_mem hrows (Q := fun split count =>
    split.rowsExact = true ∧ split.estimatedRows = some (count : Int)) fun split hsplit _ hcount => ⟨hexact split hsplit, hcount⟩
  exact (ListFacts.forall₂_comp hmembers hboth).imp fun _ _ ⟨split, hat, hsplit⟩ => ⟨split, hat, hsplit⟩

/-! ## Grouping by ranges -/

theorem rangeOf_eq_some {count : Nat} {split : ScanSplitInfo V} {r : Nat} :
    rangeOf count split = some r ↔ split.rangeIndex = some (r : Int) ∧ r < count := by
  unfold rangeOf
  rw [Option.filter_eq_some_iff, Option.bind_eq_some_iff, decide_eq_true_iff]
  constructor
  · rintro ⟨⟨value, hvalue, hr⟩, hlt⟩
    exact ⟨by rw [hvalue, usizeOf_eq_some hr], hlt⟩
  · rintro ⟨hindex, hlt⟩
    exact ⟨⟨r, hindex, by simp [usizeOf]⟩, hlt⟩

/-- The splits seen so far, each in the bin of its range. -/
structure Ranged (count : Nat) (seen : List (ScanSplitInfo V × Nat)) (groups : List (List Nat)) : Prop where
  length : groups.length = count
  once : groups.flatten.Perm (seen.map (·.2))
  ranges : ∀ (r : Nat) (bin : List Nat), groups[r]? = some bin → ∀ i, i ∈ bin ↔
    ∃ split, (split, i) ∈ seen ∧ rangeOf count split = some r

theorem Ranged.push {count : Nat} {seen : List (ScanSplitInfo V × Nat)} {groups : List (List Nat)}
    (h : Ranged count seen groups) {entry : ScanSplitInfo V × Nat} {r : Nat} (hr : rangeOf count entry.1 = some r) :
    Ranged count (seen ++ [entry]) (push groups r entry.2) := by
  have hlt : r < groups.length := by
    rw [h.length]
    exact (rangeOf_eq_some.1 hr).2
  refine ⟨by rw [length_push, h.length], ?_, ?_⟩
  · rw [List.map_append, List.map_singleton]
    exact (flatten_push hlt entry.2).trans (h.once.append_right _)
  · intro k bin hbin i
    by_cases hk : r = k
    · subst hk
      rw [getElem?_push_self (List.getElem?_eq_getElem hlt)] at hbin
      cases hbin
      rw [List.mem_append, h.ranges r _ (List.getElem?_eq_getElem hlt)]
      simp only [List.mem_append, List.mem_singleton]
      grind
    · rw [getElem?_push_ne hk] at hbin
      rw [h.ranges k bin hbin]
      simp only [List.mem_append, List.mem_singleton]
      grind

theorem groupByRange_spec {count : Nat} {splits : List (ScanSplitInfo V)} {groups : List (List Nat)}
    (h : groupByRange count splits = some groups) : Ranged count splits.zipIdx groups := by
  have hempty : Ranged count ([] : List (ScanSplitInfo V × Nat)) (List.replicate count []) := by
    refine ⟨by simp, by simp, ?_⟩
    intro r bin hbin i
    have hnil := List.eq_of_mem_replicate (List.mem_of_getElem? hbin)
    simp [hnil]
  refine StepSystem.run_invariant_of_partial hempty ?_ h
  intro seen entry groups groups' hseen hnext
  obtain ⟨r, hr, rfl⟩ := Option.map_eq_some_iff.1 hnext
  exact hseen.push hr

/-! ## The partition -/

/-- The splits are dealt to the groups, each once. -/
structure Covers (plan : ScanPlan V) (packed : PlannedSplits V) : Prop where
  splits_once : (packed.groups.flatMap (·.splitIndices)).Perm (List.range plan.splits.length)
  tokens : ∀ g ∈ packed.groups, List.Forall₂ (fun i token => ∃ split, plan.splits[i]? = some split ∧ split.token = token)
    g.splitIndices g.tokens
  group_rows : ∀ g ∈ packed.groups, ∀ n, g.numRows = .exact n → ExactRows plan.splits g.splitIndices n
  plan_rows : ∀ n, packed.numRows = .exact n → ExactRows plan.splits (List.range plan.splits.length) n

theorem planned_covers {plan : ScanPlan V} {groupIndices : List (List Nat)}
    (h : groupIndices.flatten.Perm (List.range plan.splits.length)) (rangeGrouped : Bool) :
    Covers plan (planned plan groupIndices rangeGrouped) := by
  have hin : ∀ g ∈ (planned plan groupIndices rangeGrouped).groups, ∃ indices, g = splitGroup plan.splits indices ∧
      InRange plan.splits indices := by
    intro g hg
    obtain ⟨indices, hindices, rfl⟩ := List.mem_map.1 hg
    refine ⟨indices, rfl, ?_⟩
    intro i hi
    exact List.mem_range.1 (h.subset (List.mem_flatten_of_mem hindices hi))
  refine ⟨?_, ?_, ?_, ?_⟩
  · have hindices : (planned plan groupIndices rangeGrouped).groups.flatMap (·.splitIndices) = groupIndices.flatten := by
      simp [planned, splitGroup, List.flatMap_map]
    rw [hindices]
    exact h
  · intro g hg
    obtain ⟨indices, rfl, hrange⟩ := hin g hg
    exact tokens_forall₂ hrange
  · intro g hg n hrows
    obtain ⟨indices, rfl, hrange⟩ := hin g hg
    exact exactRows_of_count hrange hrows
  · intro n hrows
    refine exactRows_of_count (fun i hi => List.mem_range.1 hi) ?_
    rw [members_range]
    exact hrows

theorem noWork_covers {plan : ScanPlan V} (h : plan.splits = []) : Covers plan (noWork plan) := by
  refine ⟨by simp [noWork, h], by simp [noWork], by simp [noWork], ?_⟩
  intro n hrows
  obtain rfl : 0 = n := by simpa [noWork] using hrows
  exact ⟨[], rfl, by simp [h]⟩

/-- What is claimed of a packed plan. -/
structure Partitions (R : BatchReader V) (plan : ScanPlan V) (targetPartitions : Nat) (packed : PlannedSplits V) : Prop
    extends Covers plan packed where
  at_most : packed.groups.length ≤ targetPartitions
  workers : ∀ m ∈ plan.maxWorkers, 0 < m → (packed.groups.length : Int) ≤ m
  nonempty : packed.rangeGrouped = false → ∀ g ∈ packed.groups, g.splitIndices ≠ []
  ranges : packed.rangeGrouped = true → ∃ range points, plan.rangePartitioning = some range ∧
    R.readBatch range.splitPoints = some points ∧ packed.groups.length = points.rows + 1 ∧
    ∀ (r : Nat) (g : SplitGroup), packed.groups[r]? = some g → ∀ i, i ∈ g.splitIndices ↔
      ∃ split, plan.splits[i]? = some split ∧ split.rangeIndex = some (r : Int)

theorem workerCap_le (plan : ScanPlan V) (targetPartitions : Nat) : workerCap plan targetPartitions ≤ targetPartitions := by
  unfold workerCap
  split
  · split
    · exact Nat.min_le_right _ _
    · exact Nat.le_refl _
  · exact Nat.le_refl _

theorem workerCap_le_max {plan : ScanPlan V} {m : Int} (hm : plan.maxWorkers = some m) (hpos : 0 < m)
    (targetPartitions : Nat) : (workerCap plan targetPartitions : Int) ≤ m := by
  simp only [workerCap, hm, if_pos hpos]
  omega

theorem workerCap_pos {plan : ScanPlan V} {targetPartitions : Nat} (h : 1 ≤ targetPartitions) :
    1 ≤ workerCap plan targetPartitions := by
  unfold workerCap
  split
  · split
    · omega
    · exact h
  · exact h

/-- The rows of a batch are few enough that counting one more does not saturate. -/
theorem rangeCount_eq {R : BatchReader V} {plan : ScanPlan V} {count : Nat} (h : rangeCount R plan = some count) :
    ∃ range points, plan.rangePartitioning = some range ∧ R.readBatch range.splitPoints = some points ∧
      count = points.rows + 1 := by
  obtain ⟨range, hrange, hmap⟩ := Option.bind_eq_some_iff.1 h
  obtain ⟨points, hpoints, rfl⟩ := Option.map_eq_some_iff.1 hmap
  refine ⟨range, points, hrange, hpoints, ?_⟩
  have hrows := R.rows_i64 _ _ hpoints
  simp only [i64Max] at hrows
  rw [usizeMax]
  omega

theorem rangeGroups_partitions {R : BatchReader V} {plan : ScanPlan V} {targetPartitions : Nat} {groups : List (List Nat)}
    (h : rangeGroups R plan (workerCap plan targetPartitions) = some groups) :
    Partitions R plan targetPartitions (planned plan groups true) := by
  obtain ⟨count, hcount, hgroups⟩ := Option.bind_eq_some_iff.1 h
  rw [Option.ite_none_right_eq_some] at hgroups
  obtain ⟨⟨-, hcap⟩, hgroups⟩ := hgroups
  obtain ⟨range, points, hrange, hpoints, rfl⟩ := rangeCount_eq hcount
  have hranged := groupByRange_spec hgroups
  have honce : groups.flatten.Perm (List.range plan.splits.length) := by
    have honce := hranged.once
    rwa [List.zipIdx_map_snd, ← List.range_eq_range'] at honce
  have hlength : (planned plan groups true).groups.length = points.rows + 1 := by
    simp [planned, hranged.length]
  refine { planned_covers honce true with at_most := ?_, workers := ?_, nonempty := ?_, ranges := ?_ }
  · rw [hlength]
    exact hcap.trans (workerCap_le plan targetPartitions)
  · intro m hm hpos
    have hle := workerCap_le_max hm hpos targetPartitions
    rw [hlength]
    omega
  · intro hfalse
    cases hfalse
  · intro _
    refine ⟨range, points, hrange, hpoints, hlength, ?_⟩
    intro r g hg i
    simp only [planned, List.getElem?_map] at hg
    obtain ⟨bin, hbin, rfl⟩ := Option.map_eq_some_iff.1 hg
    simp only [splitGroup]
    rw [hranged.ranges r bin hbin]
    have hlt : r < points.rows + 1 := by
      rw [← hranged.length]
      exact (List.getElem?_eq_some_iff.1 hbin).1
    simp only [List.mem_zipIdx_iff_getElem?, rangeOf_eq_some, hlt, and_true]

theorem order_perm (splits : List (ScanSplitInfo V)) : (order splits).Perm (List.range splits.length) :=
  List.perm_insertionSort _ _

theorem one_le_weight (splits : List (ScanSplitInfo V)) (i : Nat) : 1 ≤ weight splits i := le_max_right _ _

theorem weight_le (splits : List (ScanSplitInfo V)) (i : Nat) : weight splits i ≤ i64Max := by
  refine max_le ?_ (by decide)
  cases hbytes : estimatedBytes splits i with
  | none => decide
  | some bytes =>
    obtain ⟨split, -, hsplit⟩ := Option.bind_eq_some_iff.1 hbytes
    exact (split.bytes_i64 bytes hsplit).2

/-- The first split of a group weighs what it weighs, however sums are computed. -/
theorem add_zero_weight (arithmetic : Arithmetic) (splits : List (ScanSplitInfo V)) (i : Nat) :
    arithmetic.add 0 (weight splits i) = some (weight splits i) := by
  have hlow := one_le_weight splits i
  have hhigh := weight_le splits i
  simp only [i64Max] at hhigh
  cases arithmetic with
  | checked =>
    rw [Arithmetic.add, if_pos, zero_add]
    simp only [i64Min, i64Max]
    omega
  | wrapping =>
    rw [Arithmetic.add, zero_add, Int.bmod_eq_of_le (by omega) (by omega)]
  | unbounded => rw [Arithmetic.add, zero_add]

theorem groupCount_le {plan : ScanPlan V} {targetPartitions : Nat} (hsplits : plan.splits ≠ [])
    (htarget : 1 ≤ targetPartitions) : groupCount plan targetPartitions ≤ workerCap plan targetPartitions ∧
      groupCount plan targetPartitions ≤ plan.splits.length := by
  have hcap : 1 ≤ workerCap plan targetPartitions := workerCap_pos htarget
  have hlength : 1 ≤ plan.splits.length := by
    cases hs : plan.splits with
    | nil => exact absurd hs hsplits
    | cons split rest => simp
  unfold groupCount
  omega

theorem packByWeight_partitions {R : BatchReader V} {arithmetic : Arithmetic} {plan : ScanPlan V} {targetPartitions : Nat}
    (hsplits : plan.splits ≠ []) (htarget : 1 ≤ targetPartitions) {bins : Bins Nat Int}
    (h : packByWeight arithmetic plan targetPartitions = some bins) :
    Partitions R plan targetPartitions (planned plan bins.items false) := by
  have hdealt := dealt h
  obtain ⟨hcap, hmany⟩ := groupCount_le hsplits htarget
  have hlength : (planned plan bins.items false).groups.length = groupCount plan targetPartitions := by
    simp [planned, hdealt.bins]
  have honce := hdealt.items.trans (order_perm plan.splits)
  refine { planned_covers honce false with at_most := ?_, workers := ?_, nonempty := ?_, ranges := ?_ }
  · rw [hlength]
    exact hcap.trans (workerCap_le plan targetPartitions)
  · intro m hm hpos
    have hle := workerCap_le_max hm hpos targetPartitions
    rw [hlength]
    omega
  · intro _ g hg
    obtain ⟨indices, hindices, rfl⟩ := List.mem_map.1 hg
    have hlong : groupCount plan targetPartitions ≤ (order plan.splits).length := by
      rw [(order_perm plan.splits).length_eq, List.length_range]
      exact hmany
    exact no_bin_empty (fun i => one_le_weight plan.splits i) (add_zero_weight arithmetic plan.splits) hlong h indices hindices
  · intro htrue
    cases htrue

/-- **Packing partitions the plan**: where additions wrap it always gives groups, and the groups it gives hold every split
once, each with its token, in no more groups than allowed. -/
theorem pack_splits_partitions (R : BatchReader V) (plan : ScanPlan V) {targetPartitions : Nat} (h : 1 ≤ targetPartitions) :
    (∃ packed, packSplits R .wrapping plan targetPartitions = some packed) ∧
      ∀ arithmetic packed, packSplits R arithmetic plan targetPartitions = some packed →
        Partitions R plan targetPartitions packed := by
  constructor
  · unfold packSplits
    cases rangeGroups R plan (workerCap plan targetPartitions) with
    | some groups => exact ⟨_, rfl⟩
    | none =>
      cases hempty : plan.splits.isEmpty with
      | true => exact ⟨_, rfl⟩
      | false =>
        have hpos : 0 < groupCount plan targetPartitions := by
          unfold groupCount
          omega
        obtain ⟨bins, hbins⟩ : ∃ bins, weightLoop .wrapping plan.splits (groupCount plan targetPartitions) = some bins :=
          schedule_isSome (fun _ _ => ⟨_, rfl⟩) hpos (order plan.splits)
        exact ⟨planned plan bins.items false, by simp [packByWeight, hbins]⟩
  · intro arithmetic packed hpacked
    unfold packSplits at hpacked
    cases hgroups : rangeGroups R plan (workerCap plan targetPartitions) with
    | some groups =>
      simp only [hgroups] at hpacked
      cases hpacked
      exact rangeGroups_partitions hgroups
    | none =>
      simp only [hgroups] at hpacked
      split at hpacked
      next hempty =>
        cases hpacked
        have hnil := List.isEmpty_iff.1 hempty
        refine { noWork_covers hnil with at_most := ?_, workers := ?_, nonempty := ?_, ranges := ?_ } <;> simp [noWork]
        intro m _ hm
        exact hm.le
      next hempty =>
        obtain ⟨bins, hbins, rfl⟩ := Option.map_eq_some_iff.1 hpacked
        exact packByWeight_partitions (by simpa using hempty) h hbins

/-- One split point. -/
def onePoint : RecordBatch Int := ⟨⟨[⟨"t", .int64, true, []⟩], []⟩, [⟨.int64, [some 10]⟩], 1, by decide⟩

theorem onePoint_rows (bytes : Bytes) (batch : RecordBatch Int)
    (h : (if bytes = [1] then some onePoint else none) = some batch) : (batch.rows : Int) ≤ i64Max := by
  rw [Option.ite_none_right_eq_some] at h
  obtain rfl := Option.some.inj h.2
  decide

def pointReader : BatchReader Int where
  readBatch bytes := if bytes = [1] then some onePoint else none
  rows_i64 := onePoint_rows

/-- One row, known exactly. -/
def oneRow (token : UInt8) (rangeIndex bytes : Option Int) (h : InI64 bytes) : ScanSplitInfo Int where
  estimatedRows := some 1
  rowsExact := true
  estimatedBytes := bytes
  columnStatistics := none
  columnBounds := none
  partitionBounds := none
  token := [token]
  rangeIndex := rangeIndex
  startPosition := none
  endPosition := none
  rows_i64 := by decide
  bytes_i64 := h

/-- Three splits over two ranges. -/
def rangedPlan : ScanPlan Int where
  splits := [oneRow 7 (some 1) none (by decide), oneRow 8 (some 0) (some 5) (by decide), oneRow 9 (some 1) none (by decide)]
  maxWorkers := some 4
  rangePartitioning := some ⟨[], [1]⟩
  startPosition := none
  endPosition := none

theorem pack_splits_partitions_ranged : ∃ packed, packSplits pointReader .wrapping rangedPlan 2 = some packed ∧
    packed.groups.map (·.splitIndices) = [[1], [0, 2]] ∧ packed.groups.map (·.tokens) = [[[8]], [[7], [9]]] ∧
      packed.numRows = .exact 3 ∧ Partitions pointReader rangedPlan 2 packed :=
  ⟨_, rfl, rfl, rfl, rfl, (pack_splits_partitions pointReader rangedPlan (by decide)).2 .wrapping _ rfl⟩

end VgiDatafusion.Packing
