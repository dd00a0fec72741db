import Mathlib.Algebra.Order.Field.Rat
import Mathlib.Algebra.Order.Group.Int
import VgiDatafusion.Scan.Packing

/-!
# The weights of packed splits (lib.rs:1898-1917, 1942-1983)

The loop adds `i64` weights with `+=`. As long as no group weighs more than `i64::MAX` the machine's sums are the true
ones (`true_sums_iff`), and in true sums the groups are balanced (`packing_balanced`). The counts of rows and bytes are
added with `checked_add`, and a count that is given is the true sum (`rowTotal_eq`, `byteTotal_eq`).
-/
namespace VgiDatafusion.Packing

open ListScheduling

variable {V : Type}

/-! ## True sums -/

/-- No addition of the loop leaves `i64`: with or without overflow checks it goes the way of unbounded arithmetic. -/
def TrueSums (splits : List (ScanSplitInfo V)) (n : Nat) : Prop :=
  ∃ bins, weightLoop .unbounded splits n = some bins ∧ weightLoop .checked splits n = some bins ∧
    weightLoop .wrapping splits n = some bins

/-- The weights as such, largest first. -/
def largestFirst (splits : List (ScanSplitInfo V)) : List Int :=
  (splits.map fun split => max (split.estimatedBytes.getD 1) 1).insertionSort (· ≥ ·)

/-- What the groups weigh when every weight, largest first, goes to a lightest of them. -/
def trueLoads (splits : List (ScanSplitInfo V)) (n : Nat) : List Int := deal (List.replicate n 0) (largestFirst splits)

def totalWeight (splits : List (ScanSplitInfo V)) : Int := (splits.map fun split => max (split.estimatedBytes.getD 1) 1).sum

theorem weight_eq_sortKey (splits : List (ScanSplitInfo V)) (i : Nat) : weight splits i = max (sortKey splits i) 1 := by
  unfold weight sortKey
  cases estimatedBytes splits i with
  | none => decide
  | some bytes => rfl

/-- The key treats a missing estimate as zero and the weight as one, but the order is the same. -/
theorem order_sorted (splits : List (ScanSplitInfo V)) :
    (order splits).Pairwise fun i j => weight splits j ≤ weight splits i := by
  have htotal : Std.Total fun i j => sortKey splits j ≤ sortKey splits i := ⟨fun i j => le_total _ _⟩
  have htrans : IsTrans Nat fun i j => sortKey splits j ≤ sortKey splits i := ⟨fun _ _ _ hij hjk => hjk.trans hij⟩
  refine (List.pairwise_insertionSort _ (List.range splits.length)).imp ?_
  intro i j hij
  rw [weight_eq_sortKey, weight_eq_sortKey]
  exact max_le_max_right 1 hij

theorem map_weight_range (splits : List (ScanSplitInfo V)) :
    (List.range splits.length).map (weight splits) = splits.map fun split => max (split.estimatedBytes.getD 1) 1 := by
  apply List.ext_getElem
  · simp
  · intro i hi hi'
    simp only [List.length_map] at hi'
    simp [weight, estimatedBytes, hi']

theorem map_weight_order (splits : List (ScanSplitInfo V)) : (order splits).map (weight splits) = largestFirst splits := by
  have hperm : ((order splits).map (weight splits)).Perm (largestFirst splits) := by
    refine ((order_perm splits).map _).trans ?_
    rw [map_weight_range]
    exact (List.perm_insertionSort _ _).symm
  refine hperm.eq_of_pairwise ?_ ?_ (List.pairwise_insertionSort _ _)
  · intro x y _ _ hxy hyx
    exact le_antisymm hyx hxy
  · rw [List.pairwise_map]
    exact order_sorted splits

theorem weight_nonneg (splits : List (ScanSplitInfo V)) (i : Nat) : 0 ≤ weight splits i :=
  zero_le_one.trans (one_le_weight splits i)

/-- With overflow checks the loop adds as it would under a bound on the loads. -/
theorem checked_iff_bounded {splits : List (ScanSplitInfo V)} {n : Nat} {bins : Bins Nat Int} :
    weightLoop .checked splits n = some bins ↔ schedule (boundedAdd i64Max) (weight splits) n (order splits) = some bins := by
  constructor
  · refine schedule_of_agree (P := fun load : Int => 0 ≤ load) le_rfl ?_
    intro a i c ha hc
    have hi := weight_nonneg splits i
    simp only [Arithmetic.add, Option.ite_none_right_eq_some, Option.some.injEq] at hc
    obtain ⟨⟨-, hmax⟩, rfl⟩ := hc
    exact ⟨by simp [boundedAdd, hmax], by omega⟩
  · refine schedule_of_agree (P := fun load : Int => 0 ≤ load) le_rfl ?_
    intro a i c ha hc
    have hi := weight_nonneg splits i
    simp only [boundedAdd, Option.ite_none_right_eq_some, Option.some.injEq] at hc
    obtain ⟨hmax, rfl⟩ := hc
    have hmin : i64Min ≤ a + weight splits i := by
      simp only [i64Min]
      omega
    exact ⟨by simp [Arithmetic.add, hmax, hmin], by omega⟩

theorem unbounded_isSome (splits : List (ScanSplitInfo V)) {n : Nat} (hn : 1 ≤ n) :
    ∃ bins, weightLoop .unbounded splits n = some bins :=
  schedule_isSome (fun _ _ => ⟨_, rfl⟩) hn (order splits)

theorem unbounded_loads {splits : List (ScanSplitInfo V)} {n : Nat} {bins : Bins Nat Int}
    (h : weightLoop .unbounded splits n = some bins) : bins.loads.Perm (trueLoads splits n) := by
  rw [trueLoads, ← map_weight_order]
  exact schedule_loads h

theorem trueSums_iff_loads (splits : List (ScanSplitInfo V)) {n : Nat} (hn : 1 ≤ n) :
    TrueSums splits n ↔ ∀ load ∈ trueLoads splits n, load ≤ i64Max := by
  have hweight := weight_nonneg splits
  constructor
  · rintro ⟨bins, hexact, hchecked, -⟩ load hload
    obtain ⟨-, hle⟩ := (schedule_bounded_iff hweight (by decide)).1 (checked_iff_bounded.1 hchecked)
    exact hle load ((unbounded_loads hexact).symm.subset hload)
  · intro hle
    obtain ⟨bins, hexact⟩ := unbounded_isSome splits hn
    have hbounded : schedule (boundedAdd i64Max) (weight splits) n (order splits) = some bins := by
      refine (schedule_bounded_iff hweight (by decide)).2 ⟨hexact, ?_⟩
      intro load hload
      exact hle load ((unbounded_loads hexact).subset hload)
    refine ⟨bins, hexact, checked_iff_bounded.2 hbounded, ?_⟩
    refine schedule_of_agree (P := fun load : Int => 0 ≤ load) le_rfl ?_ hbounded
    intro a i c ha hc
    have hi := hweight i
    simp only [boundedAdd, Option.ite_none_right_eq_some, Option.some.injEq] at hc
    obtain ⟨hmax, rfl⟩ := hc
    simp only [i64Max] at hmax
    refine ⟨?_, by omega⟩
    rw [Arithmetic.add, Int.bmod_eq_of_le (by omega) (by omega)]

theorem total_eq (splits : List (ScanSplitInfo V)) : (largestFirst splits).sum = totalWeight splits :=
  (List.perm_insertionSort _ _).sum_eq

/-- One group takes all; more groups take less each. -/
theorem trueSums_all_iff (splits : List (ScanSplitInfo V)) :
    (∀ n, 1 ≤ n → TrueSums splits n) ↔ totalWeight splits ≤ i64Max := by
  constructor
  · intro h
    refine (trueSums_iff_loads splits le_rfl).1 (h 1 le_rfl) (totalWeight splits) ?_
    rw [trueLoads, List.replicate_one, deal_single, total_eq, zero_add]
    exact List.mem_singleton_self _
  · intro hle n hn
    refine (trueSums_iff_loads splits hn).2 ?_
    intro load hload
    have hne : List.replicate n (0 : Int) ≠ [] := by
      simp
      omega
    have hnonneg : ∀ load ∈ trueLoads splits n, 0 ≤ load := by
      refine deal_nonneg ?_ ?_
      · intro x hx
        exact (List.eq_of_mem_replicate hx).ge
      · intro w hw
        obtain ⟨split, -, rfl⟩ := List.mem_map.1 ((List.mem_insertionSort _).1 hw)
        exact zero_le_one.trans (le_max_right _ _)
    have hsum : (trueLoads splits n).sum = totalWeight splits := by
      rw [trueLoads, sum_deal _ hne, total_eq]
      simp
    exact (List.single_le_sum hnonneg load hload).trans (hsum.le.trans hle)

theorem byteTotal_eq {splits : List (ScanSplitInfo V)} {total n : Nat} (hfits : total ≤ usizeMax)
    (h : byteTotal total splits = .inexact n) : ∃ bytes : List Nat, total + bytes.sum = n ∧ n ≤ usizeMax ∧
      List.Forall₂ (fun split count => split.estimatedBytes = some (count : Int)) splits bytes := by
  induction splits generalizing total with
  | nil =>
    obtain rfl : total = n := by simpa [byteTotal] using h
    exact ⟨[], rfl, hfits, .nil⟩
  | cons split splits ih =>
    unfold byteTotal at h
    cases hbytes : split.estimatedBytes.bind usizeOf with
    | none => simp [hbytes] at h
    | some count =>
      cases hsum : checkedAdd total count with
      | none => simp [hbytes, hsum] at h
      | some sum =>
        obtain ⟨hadded, hmax⟩ := checkedAdd_eq_some hsum
        obtain ⟨value, hvalue, hcount⟩ := Option.bind_eq_some_iff.1 hbytes
        simp only [hbytes, hsum] at h
        obtain ⟨bytes, htotal, hle, hall⟩ := ih hmax h
        refine ⟨count :: bytes, ?_, hle, .cons ?_ hall⟩
        · rw [List.sum_cons]
          omega
        · rw [hvalue, usizeOf_eq_some hcount]

/-- No addition leaves its machine type: neither those of the loop nor those of the counts, which are true sums where
they are given. -/
structure AdditionsInRange (splits : List (ScanSplitInfo V)) (n : Nat) : Prop where
  loop : TrueSums splits n
  rows : ∀ (members : List (ScanSplitInfo V)) (total : Nat),
    splitRowCount members = .exact total ∨ splitRowCount members = .inexact total → ∃ rows : List Nat, rows.sum = total ∧
      total ≤ usizeMax ∧ List.Forall₂ (fun split count => split.estimatedRows = some (count : Int)) members rows
  bytes : ∀ (members : List (ScanSplitInfo V)) (total : Nat), splitByteCount members = .inexact total →
    ∃ bytes : List Nat, bytes.sum = total ∧ total ≤ usizeMax ∧
      List.Forall₂ (fun split count => split.estimatedBytes = some (count : Int)) members bytes

theorem additionsInRange_iff_trueSums {splits : List (ScanSplitInfo V)} {n : Nat} :
    AdditionsInRange splits n ↔ TrueSums splits n := by
  refine ⟨fun h => h.loop, fun h => ⟨h, ?_, ?_⟩⟩
  · intro members total hcount
    obtain ⟨rows, hsum, hrest⟩ := rowTotal_eq (Nat.zero_le _) hcount
    exact ⟨rows, by simpa using hsum, hrest⟩
  · intro members total hcount
    obtain ⟨bytes, hsum, hrest⟩ := byteTotal_eq (Nat.zero_le _) hcount
    exact ⟨bytes, by simpa using hsum, hrest⟩

/-- **Additions stay in range** exactly if the weights, dealt largest first each to a lightest group, leave no group above
`i64::MAX`; for every number of groups, exactly if their total is not above it. -/
theorem additions_in_range_iff (splits : List (ScanSplitInfo V)) {n : Nat} (hn : 1 ≤ n) :
    (AdditionsInRange splits n ↔ ∀ load ∈ trueLoads splits n, load ≤ i64Max) ∧
      ((∀ m, 1 ≤ m → AdditionsInRange splits m) ↔ totalWeight splits ≤ i64Max) := by
  simp only [additionsInRange_iff_trueSums]
  exact ⟨trueSums_iff_loads splits hn, trueSums_all_iff splits⟩

theorem additions_in_range_small :
    AdditionsInRange [oneRow 1 none (some 4) (by decide), oneRow 2 none none (by decide), oneRow 3 none (some (-7)) (by decide)] 2 :=
  (additions_in_range_iff _ (by decide)).1.2 (by decide)

/-- Two splits of `i64::MAX` bytes for one group: the second addition panics, or leaves the group at -2. -/
theorem largest_estimates_overflow :
    let splits := [oneRow 1 none (some i64Max) (by decide), oneRow 2 none (some i64Max) (by decide)]
    weightLoop .checked splits 1 = none ∧ weightLoop .wrapping splits 1 = some ⟨[[0, 1]], [-2]⟩ ∧
      ¬ AdditionsInRange splits 1 := by
  refine ⟨rfl, rfl, ?_⟩
  rintro ⟨⟨bins, -, hchecked, -⟩, -, -⟩
  cases hchecked

/-! ## Balance -/

/-- A plan that is neither empty nor grouped by its ranges. -/
theorem weighed {R : BatchReader V} {arithmetic : Arithmetic} {plan : ScanPlan V} {targetPartitions : Nat}
    {packed : PlannedSplits V} (h : packSplits R arithmetic plan targetPartitions = some packed)
    (hsplits : plan.splits ≠ []) (hranges : packed.rangeGrouped = false) :
    ∃ bins, packByWeight arithmetic plan targetPartitions = some bins ∧ packed = planned plan bins.items false := by
  unfold packSplits at h
  cases hgroups : rangeGroups R plan (workerCap plan targetPartitions) with
  | some groups =>
    simp only [hgroups] at h
    cases h
    cases hranges
  | none =>
    have hempty : plan.splits.isEmpty = false := by simpa using hsplits
    simp only [hgroups, hempty] at h
    obtain ⟨bins, hbins, rfl⟩ := Option.map_eq_some_iff.1 h
    exact ⟨bins, hbins, rfl⟩

theorem loadOf_order (splits : List (ScanSplitInfo V)) : loadOf (weight splits) (order splits) = totalWeight splits := by
  rw [loadOf, map_weight_order, total_eq]

theorem heaviest {splits : List (ScanSplitInfo V)} (h : splits ≠ []) :
    ∃ i < splits.length, ∀ j < splits.length, weight splits j ≤ weight splits i := by
  cases horder : order splits with
  | nil =>
    have hlength := (order_perm splits).length_eq
    rw [horder, List.length_range] at hlength
    exact absurd (List.length_eq_zero_iff.1 hlength.symm) h
  | cons i rest =>
    have hmem : ∀ j, j ∈ i :: rest ↔ j < splits.length := by
      intro j
      rw [← horder, (order_perm splits).mem_iff, List.mem_range]
    refine ⟨i, (hmem i).1 List.mem_cons_self, ?_⟩
    intro j hj
    have hsorted := order_sorted splits
    rw [horder, List.pairwise_cons] at hsorted
    rcases List.mem_cons.1 ((hmem j).2 hj) with rfl | hj
    · exact le_rfl
    · exact hsorted.1 j hj

/-- A bin without its last split is no heavier than the average, and the last is no heavier than the heaviest. -/
theorem bin_le_average {splits : List (ScanSplitInfo V)} {n : Nat} (hn : 0 < n) {bins : Bins Nat Int}
    (hbins : weightLoop .unbounded splits n = some bins) {i : Nat} (hheaviest : ∀ j < splits.length, weight splits j ≤ weight splits i)
    {indices : List Nat} (hbin : indices ∈ bins.items) :
    ((loadOf (weight splits) indices : Int) : ℚ) ≤ (totalWeight splits : ℚ) / n + weight splits i := by
  have hweight := weight_nonneg splits
  have hpos : (0 : ℚ) < n := Nat.cast_pos.2 hn
  rcases List.eq_nil_or_concat indices with rfl | ⟨front, last, rfl⟩
  · have htotal : 0 ≤ totalWeight splits := by
      rw [← loadOf_order]
      exact loadOf_nonneg hweight _
    have haverage : (0 : ℚ) ≤ (totalWeight splits : ℚ) / n := div_nonneg (by exact_mod_cast htotal) hpos.le
    exact add_nonneg haverage (by exact_mod_cast hweight i)
  · rw [List.concat_eq_append] at hbin ⊢
    have haverage := front_le_average hweight hbins hbin
    rw [loadOf_order, nsmul_eq_mul] at haverage
    have hfront : ((loadOf (weight splits) front : Int) : ℚ) ≤ (totalWeight splits : ℚ) / n := by
      rw [le_div_iff₀ hpos, mul_comm]
      exact_mod_cast haverage
    have hlast : weight splits last ≤ weight splits i := by
      refine hheaviest last ?_
      have hmem := ((dealt hbins).ordered _ hbin).subset (List.mem_append_right front (List.mem_singleton_self last))
      exact List.mem_range.1 ((order_perm splits).subset hmem)
    have hload : loadOf (weight splits) (front ++ [last]) = loadOf (weight splits) front + weight splits last := by
      simp [loadOf]
    rw [hload, Int.cast_add]
    exact add_le_add hfront (by exact_mod_cast hlast)

/-- **The groups are balanced** in true sums: a group without its last split weighs no more than any group, so no group
exceeds the average by more than the heaviest split. -/
theorem packing_balanced {R : BatchReader V} {plan : ScanPlan V} {targetPartitions : Nat} {packed : PlannedSplits V}
    (h : packSplits R .unbounded plan targetPartitions = some packed) (hsplits : plan.splits ≠ [])
    (hranges : packed.rangeGrouped = false) :
    ((order plan.splits).Pairwise (fun i j => weight plan.splits j ≤ weight plan.splits i) ∧
        ∀ g ∈ packed.groups, g.splitIndices.Sublist (order plan.splits)) ∧
      (∀ g ∈ packed.groups, ∀ front last, g.splitIndices = front ++ [last] → ∀ other ∈ packed.groups,
        loadOf (weight plan.splits) front ≤ loadOf (weight plan.splits) other.splitIndices) ∧
      ∃ i < plan.splits.length, (∀ j < plan.splits.length, weight plan.splits j ≤ weight plan.splits i) ∧
        ∀ g ∈ packed.groups, ((loadOf (weight plan.splits) g.splitIndices : Int) : ℚ) ≤
          (totalWeight plan.splits : ℚ) / packed.groups.length + weight plan.splits i := by
  obtain ⟨bins, hbins, rfl⟩ := weighed h hsplits hranges
  have hdealt := dealt hbins
  have hgroup : ∀ g ∈ (planned plan bins.items false).groups, g.splitIndices ∈ bins.items := by
    intro g hg
    obtain ⟨indices, hindices, rfl⟩ := List.mem_map.1 hg
    exact hindices
  refine ⟨⟨order_sorted plan.splits, fun g hg => hdealt.ordered _ (hgroup g hg)⟩, ?_, ?_⟩
  · intro g hg front last hfront other hother
    have hbin := hgroup g hg
    rw [hfront] at hbin
    exact (balanced (weight_nonneg plan.splits) hbins).front front last hbin _ (hgroup other hother)
  · obtain ⟨i, hi, hheaviest⟩ := heaviest hsplits
    have hlength : (planned plan bins.items false).groups.length = groupCount plan targetPartitions := by
      simp [planned, hdealt.bins]
    have hpos : 0 < groupCount plan targetPartitions := by
      unfold groupCount
      omega
    refine ⟨i, hi, hheaviest, ?_⟩
    intro g hg
    rw [hlength]
    exact bin_le_average hpos hbins hheaviest (hgroup g hg)

theorem inI64_none : InI64 none := by decide

/-- Three splits of 4, 3 and 1 for two groups. -/
def weighedPlan : ScanPlan Int where
  splits := [oneRow 1 none (some 4) (by decide), oneRow 2 none (some 3) (by decide), oneRow 3 none none inI64_none]
  maxWorkers := none
  rangePartitioning := none
  startPosition := none
  endPosition := none

theorem packing_balanced_small : ∃ packed, packSplits pointReader .unbounded weighedPlan 2 = some packed ∧
    packed.groups.map (·.splitIndices) = [[0], [1, 2]] ∧
      ∃ i < 3, ∀ g ∈ packed.groups, ((loadOf (weight weighedPlan.splits) g.splitIndices : Int) : ℚ) ≤
        (totalWeight weighedPlan.splits : ℚ) / packed.groups.length + weight weighedPlan.splits i := by
  have hpacked : ∃ packed, packSplits pointReader .unbounded weighedPlan 2 = some packed ∧
      packed.groups.map (·.splitIndices) = [[0], [1, 2]] ∧ packed.rangeGrouped = false := ⟨_, rfl, rfl, rfl⟩
  obtain ⟨packed, h, hgroups, hranges⟩ := hpacked
  obtain ⟨-, -, i, hi, -, hload⟩ := packing_balanced h (by simp [weighedPlan]) hranges
  exact ⟨packed, h, hgroups, i, hi, hload⟩

end VgiDatafusion.Packing
