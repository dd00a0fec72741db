import VgiDatafusion.Cache.ScalarChecks

/-!
# The scalar call equals the function, row by row (scalar.rs:735-822, 885-932, 1087-1461)

| here | there |
| --- | --- |
| `ofFunction` | a worker, and a cache, that know one value for each row |
| `numbers` | a batch of one column, all of whose rows differ |

With a worker that answers each row with the function's value, `scalar_eq_rowwise_iff` holds for every mixture
of hits, refreshes, cold rows and followers, and for both settings. What is left is the cast of an index to 32
bits: `warm_call` runs a batch of which every row is a hit, however long it is.
-/
namespace VgiDatafusion

open Program Exchange Framing

variable {K R C V : Type}

def ofFunction (f : InputRow V → V) (stands : K → InputRow V) (refresh : Conditions → Prop) : ScalarHistory K V where
  stands
  given x v := v = f x
  refresh

theorem forall₂_eq_map {f : InputRow V → V} {xs : List (InputRow V)} {vs : List V} :
    List.Forall₂ (fun x v => v = f x) xs vs ↔ vs = xs.map f := by
  constructor
  · intro h
    induction h with
    | nil => rfl
    | cons hx _ ih => rw [hx, ih, List.map_cons]
  · rintro rfl
    rw [List.forall₂_map_right_iff, List.forall₂_same]
    intro x _
    rfl

/-- **Deduplicated and cached execution equals row-by-row execution** if and only if no index is cut to that of
a row with another value. -/
theorem scalar_eq_rowwise_iff {ops : ScalarOps R C} {A : ScalarReading ops V} {f : InputRow V → V}
    {stands : K → InputRow V} {refresh : Conditions → Prop} {function registeredName : String} {volatility : Volatility}
    {settings : ScalarSettings} {columns : List C} {rows : Nat} {trace : List (Event (Question K R) Question.Reply)}
    {output : C}
    (hrun : Runs (invokeAsyncWithArgs ops function registeredName volatility settings columns rows).run trace
      (.ok output))
    (hallows : (scalarProtocol A (ofFunction f stands refresh) (·.InFull ops (ofFunction f stands refresh))
      (callerRows A columns rows)).Allows {} trace) :
    A.cells output = (callerRows A columns rows).map f ↔
      NeverCut A f volatility settings columns rows (dealings trace) := by
  have hfallback : True → ∀ r : ScalarReply R, r.InFull ops (ofFunction f stands refresh) → r.fallback = true →
      ops.rows r.answer = ops.rows r.input := by
    rintro - r (⟨hnot, -⟩ | hrows) hfallback
    · rw [hfallback] at hnot
      cases hnot
    · exact hrows
  obtain ⟨-, hresult⟩ := wp_runs (wpOk_invokeAsyncWithArgs hfallback) hrun hallows
  have houtcome := (hresult output rfl trivial).2
  rw [last_eq_foldl] at houtcome
  rw [← forall₂_eq_map]
  constructor
  · intro hall
    refine houtcome.neverCut ?_ hall
    intro x y v hx hy
    exact hx.symm.trans hy
  · intro hnever
    refine houtcome.given_of_neverCut ?_ hnever
    intro x y v hxy hv
    exact hv.trans hxy

theorem scalar_eq_rowwise_mixed : ∃ trace,
    Runs (columnCall ⟨false, true⟩ [1, 2, 3, 4, 5, 3]).run trace (.ok [10, 20, 30, 40, 50, 30]) ∧
    tableReading.cells [10, 20, 30, 40, 50, 30] = (columnRows [1, 2, 3, 4, 5, 3]).map tenfoldRow := by
  have hrun := runs_execute ScalarDealings.after tenfoldReply (columnCall ⟨false, true⟩ [1, 2, 3, 4, 5, 3]).run {}
  have hout : (Program.execute ScalarDealings.after tenfoldReply
      (columnCall ⟨false, true⟩ [1, 2, 3, 4, 5, 3]).run {}).2 = .ok [10, 20, 30, 40, 50, 30] := by decide +kernel
  rw [hout] at hrun
  have hcells : ∀ n ∈ [1, 2, 3, 4, 5, 3], n < 256 ^ 32 := by decide
  have hallows : (scalarProtocol tableReading tenfoldHistory (·.InFull tableOps tenfoldHistory)
      (columnRows [1, 2, 3, 4, 5, 3])).Allows {} (Program.execute ScalarDealings.after tenfoldReply
        (columnCall ⟨false, true⟩ [1, 2, 3, 4, 5, 3]).run {}).1 := by
    apply allows_execute_of_inv (I := AnswersTenfold) fun s q hs => tenfoldReply_allowed (fun _ h => h) hcells hs q
    rintro r ⟨⟩
  refine ⟨_, hrun, (scalar_eq_rowwise_iff hrun hallows).2 ?_⟩
  refine Or.inr fun template input _ hbuilt => unwrapped_of_short tenfoldRow ?_
  rw [rows_input tableReading hbuilt]
  decide

/-! ## A batch of which every row is a hit -/

def numbers (n : Nat) : NumberTable := ⟨1, (List.range n).map fun i => [i]⟩

section
variable {n : Nat}

theorem batchOf_range : tableOps.batchOf [List.range n] n = .ok (numbers n) := by
  simp only [tableOps, List.all_cons, List.all_nil, List.length_range, decide_true, Bool.and_true, if_true, numbers,
    List.length_singleton, List.map_cons, List.map_nil]
  congr 2
  apply List.map_congr_left
  intro i hi
  rw [List.getD_eq_getElem?_getD, List.getElem?_range (List.mem_range.1 hi), Option.getD_some]

theorem slice_numbers {i : Nat} (hi : i < n) : tableOps.slice (numbers n) i 1 = ⟨1, [[i]]⟩ := by
  have hlt : i < ((List.range n).map fun i => [i]).length := by simpa using hi
  simp only [tableOps, NumberTable.slice, numbers]
  rw [List.drop_eq_getElem_cons hlt, List.take_succ_cons, List.take_zero, List.getElem_map, List.getElem_range]

/-- The rows before `k`, each kept under its own key. -/
def firstRows (k : Nat) : Grouping.Found (List UInt8) NumberTable :=
  ((List.range k).map fun i => (littleEndian 32 i, ⟨1, [[i]]⟩), List.range k)

theorem collectRow_firstRows (hn : n ≤ 256 ^ 32) {k : Nat} (hk : k < n) :
    collectRow tableOps.toExchangeOps cellKey (numbers n) (firstRows k) k = .ok (firstRows (k + 1)) := by
  have hdigest : cellKey.inputDigest (tableOps.slice (numbers n) k 1) = .ok (littleEndian 32 k) := by
    rw [slice_numbers hk]
    rfl
  have hnew : ∀ u ∈ (firstRows k).1, u.1 ≠ littleEndian 32 k := by
    intro u hu
    obtain ⟨i, hi, rfl⟩ := List.mem_map.1 hu
    have hik := List.mem_range.1 hi
    intro heq
    have hsame : i = k := littleEndian_inj (by omega) (by omega) heq
    omega
  rw [collectRow_of_digest _ hdigest, Grouping.note_of_new hnew, slice_numbers hk]
  simp only [firstRows, List.range_succ, List.map_append, List.map_singleton, List.length_map, List.length_range]

/-- All rows are distinct. -/
theorem rowGroups_numbers (hn : n ≤ 256 ^ 32) :
    rowGroups tableOps.toExchangeOps cellKey (numbers n) = .ok (firstRows n) := by
  have hrows : tableOps.rows (numbers n) = n := by simp [tableOps, numbers]
  have hprefix : ∀ k ≤ n, (List.range k).foldlM (collectRow tableOps.toExchangeOps cellKey (numbers n)) ([], []) =
      .ok (firstRows k) := by
    intro k hk
    induction k with
    | zero => rfl
    | succ k ih =>
      rw [List.range_succ, List.foldlM_append, ih (by omega)]
      change collectRow tableOps.toExchangeOps cellKey (numbers n) _ k >>= (fun found => List.foldlM _ found []) = _
      rw [collectRow_firstRows hn (by omega)]
      rfl
  unfold rowGroups
  rw [hrows]
  exact hprefix n (Nat.le_refl n)

variable {trust : ScalarReply NumberTable → Prop} {asked : List (InputRow Nat)}
  {s : ScalarDealings (List UInt8) NumberTable}

/-- The entry of a key that is there. -/
def warmBatch (key : List UInt8) : NumberTable := ⟨1, [[tenfoldRow [some (readLittleEndian key)]]]⟩

theorem reaches_lookUp (row : ScalarRow (List UInt8) NumberTable) :
    Reaches (scalarProtocol tableReading tenfoldHistory trust asked) (lookUp tableOps.toExchangeOps row).run s
      (.ok { row with output := some (warmBatch row.key) }) s := by
  have hallowed : (scalarProtocol tableReading tenfoldHistory trust asked).allows s (.outside (.get row.key))
      (some { batches := [warmBatch row.key], bytes := 8 }) := by
    rintro entry ⟨⟩ b ⟨⟩ -
    exact ⟨_, rfl, rfl⟩
  apply reaches_then (reaches_ask _ hallowed)
  exact reaches_pure

theorem reaches_claimMiss {row : ScalarRow (List UInt8) NumberTable} (h : row.output.isSome) :
    Reaches (scalarProtocol tableReading tenfoldHistory trust asked) (claimMiss row).run s (.ok { row with }) s := by
  unfold claimMiss
  rw [if_pos h]
  exact reaches_pure

/-- Units without a claim pass through the rest of the call. -/
theorem reaches_unclaimed {units : List (ScalarUnit (List UInt8) NumberTable)} (h : ∀ unit ∈ units, unit.claim = none)
    {function : String} :
    Reaches (scalarProtocol tableReading tenfoldHistory trust asked)
        (units.mapM' (revalidateMiss tableOps.toExchangeOps function)).run s (.ok units) s ∧
      Reaches (scalarProtocol tableReading tenfoldHistory trust asked)
        (sendMisses tableOps.toExchangeOps function units).run s (.ok units) s ∧
      Reaches (scalarProtocol tableReading tenfoldHistory trust asked)
        (units.mapM' (followMiss tableOps.toExchangeOps function)).run s (.ok units) s := by
  refine ⟨?_, ?_, ?_⟩
  · apply reaches_mapM'
    rw [List.forall₂_same]
    intro unit hunit
    unfold revalidateMiss
    rw [h unit hunit]
    exact reaches_pure
  · have hcold : units.filter (·.isCold) = [] := by
      rw [List.filter_eq_nil_iff]
      intro unit hunit
      rw [ScalarUnit.isCold, h unit hunit]
      exact Bool.false_ne_true
    unfold sendMisses
    rw [hcold]
    exact reaches_pure
  · apply reaches_mapM'
    rw [List.forall₂_same]
    intro unit hunit
    unfold followMiss
    rw [h unit hunit]
    exact reaches_pure

/-- The distinct row `i`, found in the cache. -/
def warmUnit (i : Nat) : ScalarUnit (List UInt8) NumberTable where
  key := littleEndian 32 i
  input := ⟨1, [[i]]⟩
  output := some (warmBatch (littleEndian 32 i))

/-- Each row finds the distinct row of its index, cut to 32 bits. -/
theorem assembleRows_warm (hn : n ≤ 256 ^ 32) {function : String} :
    assembleRows tableOps.toExchangeOps function ((List.range n).map warmUnit) (List.range n) =
      .ok ⟨1, (List.range n).map fun i => [10 * (i % 2 ^ 32)]⟩ := by
  have houtputs : ∀ unanswered : String, ((List.range n).map warmUnit).mapM' (fun unit =>
      unit.output.elim (Except.error unanswered) Except.ok) =
        .ok ((List.range n).map fun i => warmBatch (littleEndian 32 i)) := by
    intro unanswered
    rw [List.mapM'_eq_mapM, ListFacts.mapM_ok_iff, List.forall₂_map_left_iff, List.forall₂_map_right_iff,
      List.forall₂_same]
    intro i _
    rfl
  have hconcat : tableOps.concatOutputs ((List.range n).map fun i => warmBatch (littleEndian 32 i)) =
      .ok ⟨1, (List.range n).map fun i => [10 * i]⟩ := by
    simp only [tableOps]
    rw [if_pos (by simp [warmBatch])]
    congr 2
    rw [List.flatMap_map, List.map_eq_flatMap]
    apply List.flatMap_congr
    intro i hi
    have hi := List.mem_range.1 hi
    simp only [warmBatch, readLittleEndian_littleEndian (show i < 256 ^ 32 by omega)]
    rfl
  have hgather : tableOps.gather ⟨1, (List.range n).map fun i => [10 * i]⟩ ((List.range n).map (· % 2 ^ 32)) =
      .ok ⟨1, (List.range n).map fun i => [10 * (i % 2 ^ 32)]⟩ := by
    have hcells : ((List.range n).map (· % 2 ^ 32)).mapM (NumberTable.at?
        (NumberTable.column ⟨1, (List.range n).map fun i => [10 * i]⟩)) =
          .ok ((List.range n).map fun i => 10 * (i % 2 ^ 32)) := by
      rw [ListFacts.mapM_ok_iff, List.forall₂_map_left_iff, List.forall₂_map_right_iff, List.forall₂_same]
      intro i hi
      have hlt : i % 2 ^ 32 < n := Nat.lt_of_le_of_lt (Nat.mod_le _ _) (List.mem_range.1 hi)
      simp only [NumberTable.at?, NumberTable.column, List.getElem?_map, List.getElem?_range hlt, Option.map_some]
      rfl
    simp only [tableOps]
    rw [hcells]
    simp only [Except.map, List.map_map]
    rfl
  unfold assembleRows
  dsimp only
  rw [houtputs]
  change (tableOps.concatOutputs _ >>= fun distinct => tableOps.gather distinct _) = _
  rw [hconcat]
  exact hgather

theorem reaches_bindCall : Reaches (scalarProtocol tableReading tenfoldHistory trust asked) (bindCall).run s
    (.ok { environmentIneligible := false, secretDependent := false }) s := by
  unfold bindCall
  apply reaches_then
  · exact reaches_ask (Except.ok { environmentIneligible := false, secretDependent := false }) trivial
  · exact reaches_liftExcept rfl

theorem reaches_cacheKeyTemplate {kind : String} (h : Scalar.KeysRows tableReading tenfoldHistory asked cellKey) :
    Reaches (scalarProtocol tableReading tenfoldHistory trust asked) (cacheKeyTemplate kind).run
      { s with optedIn := true } (.ok (some cellKey)) { s with optedIn := true, template := some cellKey } := by
  unfold cacheKeyTemplate
  have hallowed : (scalarProtocol tableReading tenfoldHistory trust asked).allows { s with optedIn := true }
      (.outside (.template kind)) (.ok (some cellKey)) := by
    rintro template ⟨⟩
    exact h
  apply reaches_then
  · exact reaches_ask _ hallowed
  · exact reaches_liftExcept rfl

theorem reaches_perValueExchange (hn : n ≤ 256 ^ 32) {function : String}
    (h : Scalar.KeysRows tableReading tenfoldHistory asked cellKey) :
    Reaches (scalarProtocol tableReading tenfoldHistory trust asked)
      (perValueExchange tableOps.toExchangeOps function (numbers n)).run { s with optedIn := true }
      (.ok ⟨1, (List.range n).map fun i => [10 * (i % 2 ^ 32)]⟩) { s with optedIn := true, template := some cellKey } := by
  unfold perValueExchange
  apply reaches_then (reaches_cacheKeyTemplate h)
  apply reaches_then (reaches_liftExcept (rowGroups_numbers hn))
  dsimp only
  have hclaim : ∀ unit ∈ (List.range n).map warmUnit, unit.claim = none := by
    intro unit hunit
    obtain ⟨i, -, rfl⟩ := List.mem_map.1 hunit
    rfl
  apply reaches_then (a := (List.range n).map fun i => (warmUnit i).toScalarRow)
  · apply reaches_mapM'
    rw [List.forall₂_map_left_iff, firstRows, List.forall₂_map_left_iff, List.forall₂_map_right_iff, List.forall₂_same]
    intro i _
    exact reaches_lookUp _
  apply reaches_then (a := (List.range n).map warmUnit)
  · apply reaches_mapM'
    rw [List.forall₂_map_left_iff, List.forall₂_map_right_iff, List.forall₂_same]
    intro i _
    exact reaches_claimMiss rfl
  apply reaches_then (reaches_unclaimed hclaim).1
  apply reaches_then (reaches_unclaimed hclaim).2.1
  apply reaches_then (reaches_unclaimed hclaim).2.2
  exact reaches_liftExcept (assembleRows_warm hn)

theorem reaches_warmExchange (hpos : 0 < n) (hn : n ≤ 256 ^ 32) {function : String}
    (h : Scalar.KeysRows tableReading tenfoldHistory asked cellKey) :
    Reaches (scalarProtocol tableReading tenfoldHistory trust asked)
      (runScalarExchange tableOps.toExchangeOps function true true (numbers n)).run {}
      (.ok ⟨1, (List.range n).map fun i => [10 * (i % 2 ^ 32)]⟩) { optedIn := true, template := some cellKey } := by
  have hrows : tableOps.rows (numbers n) ≠ 0 := by
    simp only [tableOps, numbers, List.length_map, List.length_range]
    omega
  unfold runScalarExchange
  apply reaches_then reaches_bindCall
  simp only [hrows, Bool.not_true, Bool.or_false, decide_false, Bool.false_eq_true, if_false]
  have hallowed : (scalarProtocol tableReading tenfoldHistory trust asked).allows {}
      (.outside .hasPerValueOptIn) true := trivial
  apply reaches_then (reaches_ask true hallowed)
  exact reaches_perValueExchange hn h

/-- Without deduplication, a call all of whose rows are hits returns them by their cut indices. -/
theorem warm_call (hpos : 0 < n) (hn : n ≤ 256 ^ 32) : ∃ s',
    Reaches (scalarProtocol tableReading tenfoldHistory trust (columnRows (List.range n)))
      (columnCall ⟨false, true⟩ (List.range n)).run {}
      (.ok ((List.range n).map fun i => 10 * (i % 2 ^ 32))) s' := by
  have hcells : ∀ i ∈ List.range n, i < 256 ^ 32 := by
    intro i hi
    have hlt := List.mem_range.1 hi
    omega
  have hkeys : Scalar.KeysRows tableReading tenfoldHistory (columnRows (List.range n)) cellKey := cellKey_stands hcells
  have hrpc : rpcRows .stable [List.range n] n = n := by simp [rpcRows]
  refine ⟨{ optedIn := true, template := some cellKey }, ?_⟩
  unfold columnCall invokeAsyncWithArgs
  rw [List.length_range, hrpc]
  apply reaches_then (reaches_liftExcept batchOf_range)
  apply reaches_then (reaches_liftExcept rfl)
  apply reaches_then (reaches_warmExchange hpos hn hkeys)
  have hrows : tableOps.rows ⟨1, (List.range n).map fun i => [10 * (i % 2 ^ 32)]⟩ = tableOps.rows (numbers n) := by
    simp only [tableOps, numbers, List.length_map]
  have hbroadcast : (decide (n = 1) && decide (1 < n)) = false := by
    rw [Bool.and_eq_false_iff, decide_eq_false_iff_not, decide_eq_false_iff_not]
    omega
  dsimp only
  have hcolumns : tableOps.columns ⟨1, (List.range n).map fun i => [10 * (i % 2 ^ 32)]⟩ = 1 := rfl
  rw [if_neg (not_not_intro hrows), if_neg (not_not_intro hcolumns), hbroadcast]
  apply reaches_liftExcept
  simp only [Bool.false_eq_true, if_false, tableOps, NumberTable.column, List.map_map]
  rfl

end

/-- One row more than indices of 32 bits can tell apart: the last row gets the value of the first. -/
theorem cut_index_repeats_row : ∃ trace output,
    Runs (columnCall ⟨false, true⟩ (List.range (2 ^ 32 + 1))).run trace (.ok output) ∧
    (scalarProtocol tableReading tenfoldHistory (·.InFull tableOps tenfoldHistory)
      (columnRows (List.range (2 ^ 32 + 1)))).Allows {} trace ∧
    tableReading.cells output ≠ (columnRows (List.range (2 ^ 32 + 1))).map tenfoldRow := by
  generalize hlong : 2 ^ 32 + 1 = n
  obtain ⟨s', trace, hrun, hallows, -⟩ := warm_call (n := n) (by omega) (by omega)
  refine ⟨trace, _, hrun, hallows, ?_⟩
  intro heq
  rw [columnRows_eq, List.map_map] at heq
  have hlast : 2 ^ 32 < n := by omega
  have hvalue := congrArg (fun cells => cells[2 ^ 32]?) heq
  simp only [tableReading, List.getElem?_map, List.getElem?_range hlast, Option.map_some, Function.comp_apply,
    Option.some.injEq, tenfoldRow, List.headD_cons, Option.getD_some] at hvalue
  omega

end VgiDatafusion
