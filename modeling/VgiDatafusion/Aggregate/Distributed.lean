import VgiDatafusion.Aggregate.Accumulator

/-!
# Distributed aggregation

Whatever tree of partial aggregations an accumulator comes from, its chunks hold, argument by argument, the cells of all
batches in the order in which they were merged (`Holds`). So the batch that goes to the worker depends on the batches
alone, and is the one a single accumulator would send (`distributed_aggregation`).
-/
namespace VgiDatafusion

open ListFacts

variable {V : Type} {call : AggregateCall}

/-! ## The cells of an argument -/

def cellsAt (i : Nat) (batches : List (List (Column V))) : List (Option V) :=
  batches.flatMap fun values => (values[i]?.map (·.cells)).getD []

@[simp] theorem cellsAt_nil (i : Nat) : cellsAt i ([] : List (List (Column V))) = [] := rfl

theorem cellsAt_append (i : Nat) (first second : List (List (Column V))) :
    cellsAt i (first ++ second) = cellsAt i first ++ cellsAt i second := List.flatMap_append

theorem cellsAt_flatten (i : Nat) (partials : List (List (List (Column V)))) :
    cellsAt i partials.flatten = partials.flatMap (cellsAt i) := by
  induction partials with
  | nil => rfl
  | cons batches partials ih => rw [List.flatten_cons, cellsAt_append, ih, List.flatMap_cons]

/-- The arguments of all batches, one column for each. -/
def gathered (call : AggregateCall) (batches : List (List (Column V))) : List (Column V) :=
  call.argTypes.zipIdx.map fun entry => { dataType := entry.1, cells := cellsAt entry.2 batches }

theorem gathered_getElem? (batches : List (List (Column V))) (i : Nat) :
    (gathered call batches)[i]? = call.argTypes[i]?.map fun ty => { dataType := ty, cells := cellsAt i batches } := by
  rw [gathered, List.getElem?_map, List.getElem?_zipIdx, Option.map_map]
  simp [Function.comp_def]

theorem concat_of_types {ty : DataType} {c : Column V} {rest : List (Column V)} (h : ∀ part ∈ c :: rest, part.dataType = ty) :
    Column.concat (c :: rest) = .ok { dataType := ty, cells := (c :: rest).flatMap (·.cells) } := by
  have hc : c.dataType = ty := h c List.mem_cons_self
  have hall : rest.all (·.dataType = c.dataType) = true := by
    rw [List.all_eq_true]
    intro part hpart
    rw [decide_eq_true_iff, hc]
    exact h part (List.mem_cons_of_mem _ hpart)
  rw [Column.concat, if_pos hall, hc]

theorem mapM_ok_of_forall {α β : Type} {f : α → Except String β} {g : α → β} {l : List α} (h : ∀ a ∈ l, f a = .ok (g a)) :
    l.mapM f = .ok (l.map g) := by
  rw [mapM_ok_iff, List.forall₂_map_right_iff, List.forall₂_same]
  exact h

/-! ## What an accumulator holds -/

def VgiAccumulator.chunksAt (acc : VgiAccumulator V) (i : Nat) : List (Column V) := acc.buffered[i]?.getD []

/-- The chunks of every argument are of its type, and hold the cells of the batches in order. -/
structure Holds (call : AggregateCall) (batches : List (List (Column V))) (acc : VgiAccumulator V) : Prop where
  call_eq : acc.call = call
  shape : acc.buffered = [] ∨ acc.buffered.length = call.argTypes.length
  types : ∀ i ty, call.argTypes[i]? = some ty → ∀ c ∈ acc.chunksAt i, c.dataType = ty
  cells : ∀ i ty, call.argTypes[i]? = some ty → (acc.chunksAt i).flatMap (·.cells) = cellsAt i batches

namespace Holds

variable {batches : List (List (Column V))} {acc : VgiAccumulator V}

theorem fresh : Holds call ([] : List (List (Column V))) { call } :=
  ⟨rfl, .inl rfl, fun _ _ _ _ hc => (by simp [VgiAccumulator.chunksAt] at hc), fun _ _ _ => rfl⟩

/-- A chunk for every argument, with the cells of further batches. -/
theorem push (h : Holds call batches acc) {more : List (List (Column V))} {values : List (Column V)}
    (hlength : values.length = call.argTypes.length)
    (hvalues : ∀ i ty c, call.argTypes[i]? = some ty → values[i]? = some c → c.dataType = ty ∧ c.cells = cellsAt i more) :
    Holds call (batches ++ more) (acc.push values) := by
  have hchunks : ∀ i ty, call.argTypes[i]? = some ty → ∃ c, values[i]? = some c ∧
      (acc.push values).chunksAt i = acc.chunksAt i ++ [c] := by
    intro i ty hty
    obtain ⟨hi, -⟩ := List.getElem?_eq_some_iff.1 hty
    refine ⟨values[i], List.getElem?_eq_getElem (by omega), ?_⟩
    rcases h.shape with hempty | hfull
    · simp [VgiAccumulator.chunksAt, VgiAccumulator.push, hempty, hlength, hi]
    · have hne : acc.buffered.isEmpty = false := by
        rw [List.isEmpty_eq_false_iff]
        rintro hnil
        rw [hnil] at hfull
        simp at hfull
        omega
      simp [VgiAccumulator.chunksAt, VgiAccumulator.push, hne, hlength, hfull, hi]
  refine ⟨h.call_eq, ?_, ?_, ?_⟩
  · rcases h.shape with hempty | hfull
    · exact .inr (by simp [VgiAccumulator.push, hempty, hlength])
    · by_cases hnil : acc.buffered = []
      · exact .inr (by simp [VgiAccumulator.push, hnil, hlength])
      · exact .inr (by simp [VgiAccumulator.push, List.isEmpty_iff, hnil, hfull])
  · intro i ty hty c hc
    obtain ⟨value, hvalue, hpushed⟩ := hchunks i ty hty
    rw [hpushed] at hc
    rcases List.mem_append.1 hc with hold | hnew
    · exact h.types i ty hty c hold
    · rw [List.mem_singleton.1 hnew]
      exact (hvalues i ty value hty hvalue).1
  · intro i ty hty
    obtain ⟨value, hvalue, hpushed⟩ := hchunks i ty hty
    rw [hpushed, List.flatMap_append, h.cells i ty hty, cellsAt_append]
    simp [(hvalues i ty value hty hvalue).2]

theorem collected (h : Holds call batches acc) : acc.collected = .ok (gathered call batches) := by
  rw [VgiAccumulator.collected, h.call_eq]
  refine mapM_ok_of_forall fun entry hentry => ?_
  obtain ⟨ty, i⟩ := entry
  have hty : call.argTypes[i]? = some ty := by simpa using List.mem_zipIdx_iff_getElem?.1 hentry
  have htypes := h.types i ty hty
  have hcells := h.cells i ty hty
  rw [VgiAccumulator.collectedAt]
  split
  · rename_i chunk chunks hchunks
    rw [VgiAccumulator.chunksAt, hchunks, Option.getD_some] at htypes hcells
    rw [concat_of_types htypes, hcells]
  · rename_i hnone
    have hempty : acc.chunksAt i = [] := by
      rw [VgiAccumulator.chunksAt]
      cases hchunks : acc.buffered[i]? with
      | none => rfl
      | some chunks =>
        cases chunks with
        | nil => rfl
        | cons chunk chunks => exact absurd hchunks (hnone chunk chunks)
    rw [hempty] at hcells
    rw [Column.empty, ← hcells]
    rfl

end Holds

/-! ## Partial states -/

/-- The lists of one argument, flattened, are its cells over all partials in order. -/
theorem flattenState_gathered {i : Nat} {ty : DataType} (hty : call.argTypes[i]? = some ty)
    (partials : List (List (List (Column V)))) :
    VgiAccumulator.flattenState call.function
        (.list ty ((partials.map (gathered call)).map (·[i]?))) = .ok { dataType := ty, cells := cellsAt i partials.flatten } := by
  let part (batches : List (List (Column V))) : Column V := { dataType := ty, cells := cellsAt i batches }
  have hlists : ((partials.map (gathered call)).map (·[i]?)).filterMap id = partials.map part := by
    rw [List.map_map, List.filterMap_map, ← List.filterMap_eq_map]
    refine List.filterMap_congr fun batches _ => ?_
    simp [gathered_getElem?, hty, part]
  have hcells : (partials.map part).flatMap (·.cells) = cellsAt i partials.flatten := by
    rw [List.flatMap_map, cellsAt_flatten]
  rw [VgiAccumulator.flattenState, hlists]
  cases hpartials : partials.map part with
  | nil =>
    rw [hpartials] at hcells
    rw [← hcells]
    rfl
  | cons first rest =>
    have htypes : ∀ c ∈ first :: rest, c.dataType = ty := by
      intro c hc
      rw [← hpartials] at hc
      obtain ⟨batches, -, rfl⟩ := List.mem_map.1 hc
      rfl
    rw [hpartials] at hcells
    dsimp only
    rw [concat_of_types htypes, hcells]

theorem Holds.mergeBatch {batches : List (List (Column V))} {acc : VgiAccumulator V} (h : Holds call batches acc)
    (partials : List (List (List (Column V)))) :
    ∃ acc', acc.mergeBatch (stateArrays call (partials.map (gathered call))) = .ok acc' ∧
      Holds call (batches ++ partials.flatten) acc' := by
  have hflattened : (stateArrays call (partials.map (gathered call))).mapM (VgiAccumulator.flattenState acc.call.function) =
      .ok (gathered call partials.flatten) := by
    rw [h.call_eq, stateArrays, List.mapM_map]
    refine mapM_ok_of_forall fun entry hentry => ?_
    exact flattenState_gathered (by simpa using List.mem_zipIdx_iff_getElem?.1 hentry) partials
  refine ⟨acc.push (gathered call partials.flatten), ?_, h.push (by simp [gathered]) ?_⟩
  · rw [VgiAccumulator.mergeBatch, hflattened]
    rfl
  · intro i ty c hty hc
    rw [gathered_getElem?, hty] at hc
    cases hc
    exact ⟨rfl, rfl⟩

theorem Holds.updateBatch {batches : List (List (Column V))} {acc : VgiAccumulator V} (h : Holds call batches acc)
    {values : List (Column V)} (hvalues : FitsCall call values) : Holds call (batches ++ [values]) (acc.updateBatch values) := by
  obtain ⟨rows, hfits⟩ := hvalues
  refine h.push hfits.length_eq.symm fun i ty c hty hc => ?_
  refine ⟨?_, by simp [cellsAt, hc]⟩
  obtain ⟨hi, hty⟩ := List.getElem?_eq_some_iff.1 hty
  obtain ⟨hi', hc⟩ := List.getElem?_eq_some_iff.1 hc
  have hboth := (List.forall₂_iff_get.1 hfits).2 i hi hi'
  simp only [List.get_eq_getElem, hty, hc] at hboth
  exact hboth.1

/-! ## Trees -/

namespace AccumulatorTree

theorem batchesOf_eq : ∀ partials : List (AccumulatorTree V), batchesOf partials = (partials.map batches).flatten
  | [] => rfl
  | partialTree :: partials => by rw [batchesOf, batchesOf_eq partials, List.map_cons, List.flatten_cons]

mutual

/-- A tree of any shape holds its batches. -/
theorem run_holds : ∀ t : AccumulatorTree V, (∀ values ∈ t.batches, FitsCall call values) →
    ∃ acc, t.run call = .ok acc ∧ Holds call t.batches acc
  | fresh, _ => ⟨_, rfl, .fresh⟩
  | update t values, h => by
    rw [batches] at h ⊢
    obtain ⟨acc, hacc, hholds⟩ := run_holds t fun b hb => h b (List.mem_append_left _ hb)
    refine ⟨acc.updateBatch values, by rw [run, hacc]; rfl, hholds.updateBatch (h values ?_)⟩
    exact List.mem_append_right _ List.mem_cons_self
  | merge t partials, h => by
    rw [batches] at h ⊢
    obtain ⟨acc, hacc, hholds⟩ := run_holds t fun b hb => h b (List.mem_append_left _ hb)
    have hstates := runStates_eq partials fun b hb => h b (List.mem_append_right _ hb)
    rw [batchesOf_eq]
    obtain ⟨acc', hmerge, hmerged⟩ := hholds.mergeBatch (partials.map batches)
    refine ⟨acc', ?_, hmerged⟩
    rw [List.map_map] at hmerge
    rw [run, hacc, hstates]
    exact hmerge

theorem runStates_eq : ∀ partials : List (AccumulatorTree V), (∀ values ∈ batchesOf partials, FitsCall call values) →
    runStates call partials = .ok (partials.map (gathered call ∘ batches))
  | [], _ => rfl
  | t :: partials, h => by
    rw [batchesOf] at h
    obtain ⟨acc, hacc, hholds⟩ := run_holds t fun b hb => h b (List.mem_append_left _ hb)
    have hrest := runStates_eq partials fun b hb => h b (List.mem_append_right _ hb)
    have hstate : acc.state = .ok (gathered call t.batches) := hholds.collected
    rw [runStates, hacc]
    show acc.state.bind _ = _
    rw [hstate]
    show (runStates call partials).bind _ = _
    rw [hrest]
    rfl

end

theorem batches_foldl_update (more : List (List (Column V))) (t : AccumulatorTree V) :
    batches (more.foldl update t) = t.batches ++ more := by
  induction more generalizing t with
  | nil => simp
  | cons values more ih => rw [List.foldl_cons, ih, batches, List.append_assoc, List.singleton_append]

theorem batches_single (more : List (List (Column V))) : (single more).batches = more := by
  rw [single, batches_foldl_update, batches, List.nil_append]

end AccumulatorTree

/-! ## Rows -/

theorem FitsCall.length_cells {values : List (Column V)} (h : FitsCall call values) {i : Nat} {c : Column V}
    (hc : values[i]? = some c) : c.cells.length = height values := by
  obtain ⟨rows, hfits⟩ := h
  have hlength : ∀ (k : Nat) (other : Column V), values[k]? = some other → other.cells.length = rows := by
    intro k other hother
    obtain ⟨hk, hother⟩ := List.getElem?_eq_some_iff.1 hother
    have hboth := (List.forall₂_iff_get.1 hfits).2 k (by rw [hfits.length_eq]; exact hk) hk
    simp only [List.get_eq_getElem, hother] at hboth
    exact hboth.2
  obtain ⟨hi, -⟩ := List.getElem?_eq_some_iff.1 hc
  have hfirst : values.head? = some values[0] := by
    rw [List.head?_eq_getElem?]
    exact List.getElem?_eq_getElem (by omega)
  rw [hlength i c hc, height, hfirst, Option.map_some, Option.getD_some]
  exact (hlength 0 values[0] (List.getElem?_eq_getElem (by omega))).symm

theorem FitsCall.length_eq {values : List (Column V)} (h : FitsCall call values) : values.length = call.argTypes.length := by
  obtain ⟨rows, hfits⟩ := h
  exact hfits.length_eq.symm

theorem length_cellsAt {batches : List (List (Column V))} (h : ∀ values ∈ batches, FitsCall call values) {i : Nat}
    (hi : i < call.argTypes.length) : (cellsAt i batches).length = (batches.map height).sum := by
  induction batches with
  | nil => rfl
  | cons values batches ih =>
    have hvalues := h values List.mem_cons_self
    have hi' : i < values.length := by rw [hvalues.length_eq]; exact hi
    have hc : values[i]? = some values[i] := List.getElem?_eq_getElem hi'
    have hrest := ih fun b hb => h b (List.mem_cons_of_mem _ hb)
    rw [cellsAt, List.flatMap_cons, ← cellsAt, List.length_append, hrest, List.map_cons, List.sum_cons, hc, Option.map_some,
      Option.getD_some, hvalues.length_cells hc]

theorem height_gathered {batches : List (List (Column V))} (h : ∀ values ∈ batches, FitsCall call values) :
    height (gathered call batches) = (batches.map height).sum := by
  by_cases hnone : call.argTypes = []
  · -- without arguments there is nothing to count rows by
    have hzero : ∀ values ∈ batches, height values = 0 := by
      intro values hvalues
      have hlength := (h values hvalues).length_eq
      rw [hnone, List.length_nil, List.length_eq_zero_iff] at hlength
      rw [hlength]
      rfl
    have hsum : (batches.map height).sum = 0 := by
      rw [List.map_congr_left hzero]
      simp
    rw [hsum, gathered, hnone]
    rfl
  · have hpos : 0 < call.argTypes.length := List.length_pos_iff.2 hnone
    rw [height, List.head?_eq_getElem?, gathered_getElem?, List.getElem?_eq_getElem hpos]
    exact length_cellsAt h hpos

/-- The rows of a batch, cell by cell. -/
def tableRows (columns : List (Column V)) (rows : Nat) : List (List (Option (Option V))) :=
  (List.range rows).map fun r => columns.map (·.cells[r]?)

theorem map_sent {α β : Type} (f : α → β) (values : List α) : (call.sent values).map f = call.sent (values.map f) := by
  simp [AggregateCall.sent, List.zipIdx_map, List.filter_map, List.map_map, Function.comp_def]

theorem row_gathered_cons {values : List (Column V)} (h : FitsCall call values) (batches : List (List (Column V))) (r : Nat) :
    (gathered call (values :: batches)).map (·.cells[r]?) =
      if r < height values then values.map (·.cells[r]?) else (gathered call batches).map (·.cells[r - height values]?) := by
  have hentry : ∀ i : Nat, ((gathered call (values :: batches)).map (·.cells[r]?))[i]? =
      if r < height values then (values.map (·.cells[r]?))[i]?
      else ((gathered call batches).map (·.cells[r - height values]?))[i]? := by
    intro i
    rw [List.getElem?_map, List.getElem?_map, List.getElem?_map, gathered_getElem?, gathered_getElem?]
    cases hty : call.argTypes[i]? with
    | none =>
      have hnone : values[i]? = none := by
        rw [List.getElem?_eq_none_iff, h.length_eq]
        exact List.getElem?_eq_none_iff.1 hty
      simp [hnone]
    | some ty =>
      obtain ⟨hi, -⟩ := List.getElem?_eq_some_iff.1 hty
      have hi' : i < values.length := by rw [h.length_eq]; exact hi
      have hc : values[i]? = some values[i] := List.getElem?_eq_getElem hi'
      have hcells : cellsAt i (values :: batches) = values[i].cells ++ cellsAt i batches := by simp [cellsAt, hc]
      rw [hc, Option.map_some, Option.map_some, Option.map_some, Option.map_some, Option.map_some, hcells,
        List.getElem?_append, h.length_cells hc]
      split <;> rfl
  refine List.ext_getElem? fun i => (hentry i).trans ?_
  split <;> rfl

/-- Row by row, what is gathered are the rows of the batches, one batch after the other. -/
theorem tableRows_gathered {batches : List (List (Column V))} (h : ∀ values ∈ batches, FitsCall call values) :
    tableRows (call.sent (gathered call batches)) (batches.map height).sum =
      batches.flatMap fun values => tableRows (call.sent values) (height values) := by
  induction batches with
  | nil => rfl
  | cons values batches ih =>
    have hvalues := h values List.mem_cons_self
    have hrest := ih fun b hb => h b (List.mem_cons_of_mem _ hb)
    rw [List.flatMap_cons, ← hrest, List.map_cons, List.sum_cons, tableRows, tableRows, tableRows, List.range_add,
      List.map_append, List.map_map]
    congr 1
    · refine List.map_congr_left fun r hr => ?_
      rw [map_sent, map_sent, row_gathered_cons hvalues, if_pos (List.mem_range.1 hr)]
    · refine List.map_congr_left fun r _ => ?_
      rw [Function.comp_apply, map_sent, map_sent, row_gathered_cons hvalues, if_neg (by omega), Nat.add_sub_cancel_left]

/-! ## The batch for the worker -/

theorem zipIdx_map_zipIdx {α β : Type} (f : α × Nat → β) (l : List α) :
    (l.zipIdx.map f).zipIdx = l.zipIdx.map fun entry => (f entry, entry.2) := by
  refine List.ext_getElem? fun i => ?_
  simp only [List.getElem?_zipIdx, List.getElem?_map, Option.map_map, Function.comp_def, Nat.zero_add]

theorem sent_gathered (batches : List (List (Column V))) (hwitness : call.rowWitness = false) :
    call.sent (gathered call batches) =
      call.columnInputs.map fun entry => { dataType := entry.1, cells := cellsAt entry.2 batches } := by
  have hsends : call.sends = fun i => !call.positionalIsConst i := by
    funext i
    rw [AggregateCall.sends, hwitness, Bool.not_false, Bool.true_and]
  rw [AggregateCall.sent, gathered, zipIdx_map_zipIdx, List.filter_map, List.map_map, hsends]
  rfl

theorem fits_sent {batches : List (List (Column V))} (h : ∀ values ∈ batches, FitsCall call values) :
    List.Forall₂ (fits (height (gathered call batches))) (if call.rowWitness then [] else call.columnInputFields)
      (call.sent (gathered call batches)) := by
  cases hwitness : call.rowWitness with
  | true =>
    have hnone : call.sent (gathered call batches) = [] := by simp [AggregateCall.sent, AggregateCall.sends, hwitness]
    rw [hnone]
    exact .nil
  | false =>
    rw [sent_gathered batches hwitness, AggregateCall.columnInputFields, height_gathered h]
    refine List.forall₂_iff_get.2 ⟨by simp, fun k hk hk' => ?_⟩
    have hinputs : k < call.columnInputs.length := by simpa using hk'
    have hmem : call.columnInputs[k] ∈ call.columnInputs := List.getElem_mem _
    have hentry : call.columnInputs[k].2 < call.argTypes.length := by
      have hzip := (List.mem_filter.1 hmem).1
      exact (List.getElem?_eq_some_iff.1 (by simpa using List.mem_zipIdx_iff_getElem?.1 hzip)).1
    refine ⟨?_, ?_, by simp⟩
    · simp
    · simp [length_cellsAt h hentry]

/-- The batch that belongs to a list of batches. -/
def sentBatch (call : AggregateCall) (batches : List (List (Column V))) (h : ∀ values ∈ batches, FitsCall call values) :
    RecordBatch V :=
  { schema := { fields := if call.rowWitness then [] else call.columnInputFields }
    columns := call.sent (gathered call batches)
    rows := height (gathered call batches)
    fits := fits_sent h }

theorem Holds.inputBatch {batches : List (List (Column V))} {acc : VgiAccumulator V} (hholds : Holds call batches acc)
    (h : ∀ values ∈ batches, FitsCall call values) : acc.inputBatch = .ok (sentBatch call batches h) := by
  have hbatch : RecordBatch.tryNew { fields := if call.rowWitness then [] else call.columnInputFields }
      (call.sent (gathered call batches)) (height (gathered call batches)) = .ok (sentBatch call batches h) :=
    tryNew_ok.2 ⟨rfl, rfl, rfl⟩
  rw [VgiAccumulator.inputBatch, hholds.collected, hholds.call_eq]
  show Except.mapError _ (RecordBatch.tryNew _ _ _) = _
  rw [hbatch]
  rfl

/-- **Whatever the tree of partial aggregations, the worker is sent the rows of all batches in the order in which they
were merged: the batch that one accumulator would send, had it seen them in that order.** -/
theorem distributed_aggregation (call : AggregateCall) (t : AccumulatorTree V)
    (h : ∀ values ∈ t.batches, FitsCall call values) :
    ∃ acc one batch, t.run call = .ok acc ∧ acc.inputBatch = .ok batch ∧
      (AccumulatorTree.single t.batches).run call = .ok one ∧ one.inputBatch = .ok batch ∧
      acc.collected = .ok (gathered call t.batches) ∧ batch.rows = (t.batches.map height).sum ∧
      tableRows batch.columns batch.rows = t.batches.flatMap fun values => tableRows (call.sent values) (height values) := by
  obtain ⟨acc, hacc, hholds⟩ := t.run_holds h
  obtain ⟨one, hone, hsingle⟩ : ∃ one, (AccumulatorTree.single t.batches).run call = .ok one ∧ Holds call _ one :=
    AccumulatorTree.run_holds _ (by rw [AccumulatorTree.batches_single]; exact h)
  rw [AccumulatorTree.batches_single] at hsingle
  refine ⟨acc, one, sentBatch call t.batches h, hacc, hholds.inputBatch h, hone, hsingle.inputBatch h, hholds.collected,
    height_gathered h, ?_⟩
  show tableRows (call.sent (gathered call t.batches)) (height (gathered call t.batches)) = _
  rw [height_gathered h]
  exact tableRows_gathered h

/-- A weighted mean: two columns and a constant. -/
def weightedMean : AggregateCall :=
  { function := "weighted_mean", argTypes := [.float64, .int64, .utf8], rowWitness := false, positionalIsConst := (· == 2) }

def weightedRows (values : List Nat) : List (Column Nat) :=
  [⟨.float64, values.map some⟩, ⟨.int64, values.map fun _ => none⟩, ⟨.utf8, values.map fun _ => some 0⟩]

theorem fitsCall_weightedRows (values : List Nat) : FitsCall weightedMean (weightedRows values) :=
  ⟨values.length, .cons ⟨rfl, by simp⟩ (.cons ⟨rfl, by simp⟩ (.cons ⟨rfl, by simp⟩ .nil))⟩

/-- Two partitions, one of them empty, merged after a batch of the final accumulator. -/
def partitioned : AccumulatorTree Nat :=
  .merge (.update .fresh (weightedRows [1])) [.update (.update .fresh (weightedRows [2, 3])) (weightedRows []), .fresh]

theorem distributed_aggregation_partitioned :
    ∃ acc one batch, partitioned.run weightedMean = .ok acc ∧ acc.inputBatch = .ok batch ∧
      (AccumulatorTree.single partitioned.batches).run weightedMean = .ok one ∧ one.inputBatch = .ok batch ∧
      acc.collected = .ok (gathered weightedMean partitioned.batches) ∧
      batch.rows = (partitioned.batches.map height).sum ∧
      tableRows batch.columns batch.rows =
        partitioned.batches.flatMap fun values => tableRows (weightedMean.sent values) (height values) :=
  distributed_aggregation weightedMean partitioned fun values hvalues => by
    have hbatches : partitioned.batches = [weightedRows [1], weightedRows [2, 3], weightedRows []] := by
      simp [partitioned, AccumulatorTree.batches, AccumulatorTree.batchesOf]
    rw [hbatches] at hvalues
    simp only [List.mem_cons, List.not_mem_nil, or_false] at hvalues
    rcases hvalues with rfl | rfl | rfl <;> exact fitsCall_weightedRows _

end VgiDatafusion
