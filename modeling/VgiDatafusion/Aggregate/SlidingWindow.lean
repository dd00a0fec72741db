import VgiDatafusion.Aggregate.Distributed

/-!
# The accumulator of a sliding window (aggregate.rs:595-633, 667-694)

| here | there |
| --- | --- |
| `trimFront` | the `while` of `retract_batch` over the chunks of one column |
| `VgiAccumulator.retractBatch` | `retract_batch`: what it leaves, also where it fails, and its result |
| `WindowRun` | the accumulator of a window, with what went in and how much has left |

Rows leave in the order in which they came (`sliding_window`). A call that asks for too many rows has removed some
by the time it finds out, and an accumulator that never saw a row has no column to find out with
(`over_retraction_refused_iff`).
-/
namespace VgiDatafusion

variable {V : Type}

/-- The chunks that are left, and the rows that are still to be removed when there are none. -/
def trimFront : List (Column V) → Nat → List (Column V) × Nat
  | [], remaining => ([], remaining)
  | first :: rest, remaining =>
    if remaining = 0 then (first :: rest, 0)
    else if first.cells.length ≤ remaining then trimFront rest (remaining - first.cells.length)
    else (first.slice remaining (first.cells.length - remaining) :: rest, 0)

/-- Column by column, up to the first that is short. -/
def retractColumns (rows : Nat) : List (List (Column V)) → List (List (Column V)) × Bool
  | [] => ([], true)
  | chunks :: rest =>
    match trimFront chunks rows with
    | (left, 0) => ((left :: (retractColumns rows rest).1), (retractColumns rows rest).2)
    | (left, _) => (left :: rest, false)

/-- `VgiAccumulator::retract_batch` (`aggregate.rs:667-694`): the accumulator it leaves behind and its result. A column that
runs short ends it, with those before it trimmed already. -/
def VgiAccumulator.retractBatch (acc : VgiAccumulator V) (values : List (Column V)) :
    VgiAccumulator V × Except String Unit :=
  let rows := height values
  if values.any (·.cells.length ≠ rows) then
    (acc, .error s!"VGI aggregate `{acc.call.function}` received retract columns with different lengths")
  else match retractColumns rows acc.buffered with
    | (buffered, true) => ({ acc with buffered }, .ok ())
    | (buffered, false) =>
      ({ acc with buffered }, .error s!"VGI aggregate `{acc.call.function}` retracted more rows than it holds")

/-! ## One column -/

/-- The cells of a column, chunk after chunk. -/
def content (chunks : List (Column V)) : List (Option V) := chunks.flatMap (·.cells)

@[simp] theorem content_nil : content ([] : List (Column V)) = [] := rfl

@[simp] theorem content_cons (first : Column V) (rest : List (Column V)) :
    content (first :: rest) = first.cells ++ content rest := rfl

/-- Trimming drops rows from the front, wherever the chunks are cut. -/
theorem content_trimFront (chunks : List (Column V)) (rows : Nat) :
    content (trimFront chunks rows).1 = (content chunks).drop rows ∧
      (trimFront chunks rows).2 = rows - (content chunks).length := by
  induction chunks generalizing rows with
  | nil => simp [trimFront]
  | cons first rest ih =>
    rw [trimFront]
    split
    next hnone => simp [hnone]
    next hsome =>
      split
      next hfirst =>
        obtain ⟨hcontent, hshort⟩ := ih (rows - first.cells.length)
        constructor
        · rw [hcontent, content_cons, List.drop_append, List.drop_eq_nil_of_le hfirst, List.nil_append]
        · rw [hshort, content_cons, List.length_append]
          omega
      next hfirst =>
        have htake : (first.cells.drop rows).take (first.cells.length - rows) = first.cells.drop rows :=
          List.take_of_length_le (Nat.le_of_eq List.length_drop)
        have hrest : rows - first.cells.length = 0 := by omega
        constructor
        · rw [content_cons, content_cons, List.drop_append, hrest, List.drop_zero, Column.slice, htake]
        · rw [content_cons, List.length_append]
          omega

theorem trimFront_types {ty : DataType} {chunks : List (Column V)} (h : ∀ c ∈ chunks, c.dataType = ty) (rows : Nat) :
    ∀ c ∈ (trimFront chunks rows).1, c.dataType = ty := by
  induction chunks generalizing rows with
  | nil => exact h
  | cons first rest ih =>
    have hrest : ∀ c ∈ rest, c.dataType = ty := fun c hc => h c (List.mem_cons_of_mem _ hc)
    rw [trimFront]
    split
    · exact h
    · split
      · exact ih hrest _
      · intro c hc
        rcases List.mem_cons.1 hc with rfl | hc
        · exact h first List.mem_cons_self
        · exact hrest c hc

theorem length_trimFront_le (chunks : List (Column V)) (rows : Nat) : (trimFront chunks rows).1.length ≤ chunks.length := by
  induction chunks generalizing rows with
  | nil => simp [trimFront]
  | cons first rest ih =>
    rw [trimFront]
    split
    · exact Nat.le_refl _
    · split
      · exact Nat.le_succ_of_le (ih _)
      · exact Nat.le_refl _

/-- Where a row is asked for, the first chunk goes or is cut. -/
theorem trimFront_ne {first : Column V} {rest : List (Column V)} {rows : Nat} (hrows : 0 < rows) :
    (trimFront (first :: rest) rows).1 ≠ first :: rest := by
  rw [trimFront, if_neg (by omega)]
  intro hsame
  split at hsame
  · have hle := length_trimFront_le rest (rows - first.cells.length)
    rw [hsame, List.length_cons] at hle
    omega
  next hlong =>
    have hfirst := congrArg (fun c : Column V => c.cells.length) (List.cons.inj hsame).1
    simp only [Column.slice, List.length_take, List.length_drop] at hfirst
    omega

/-! ## All columns -/

/-- With rows enough in every column, each is trimmed. -/
theorem retractColumns_enough {rows : Nat} {buffered : List (List (Column V))}
    (h : ∀ chunks ∈ buffered, rows ≤ (content chunks).length) :
    retractColumns rows buffered = (buffered.map fun chunks => (trimFront chunks rows).1, true) := by
  induction buffered with
  | nil => rfl
  | cons chunks rest ih =>
    have hshort : (trimFront chunks rows).2 = 0 := by
      rw [(content_trimFront chunks rows).2]
      have henough := h chunks List.mem_cons_self
      omega
    have htrim : trimFront chunks rows = ((trimFront chunks rows).1, 0) := Prod.ext rfl hshort
    rw [retractColumns, htrim, ih fun chunks hchunks => h chunks (List.mem_cons_of_mem _ hchunks)]
    rfl

variable {call : AggregateCall}

/-- What the engine takes away: as many rows of every argument. -/
def Level (values : List (Column V)) : Prop := ∀ c ∈ values, c.cells.length = height values

theorem any_of_level {values : List (Column V)} (h : Level values) :
    values.any (·.cells.length ≠ height values) = false := by
  rw [List.any_eq_false]
  intro c hc
  simp [h c hc]

theorem FitsCall.level {values : List (Column V)} (h : FitsCall call values) : Level values := by
  obtain ⟨rows, hfits⟩ := h
  have hrows : ∀ c ∈ values, c.cells.length = rows := by
    intro c hc
    obtain ⟨i, hi⟩ := List.mem_iff_getElem?.1 hc
    obtain ⟨ty, -, -, hlength⟩ := ListFacts.forall₂_getElem? hfits.flip hi
    exact hlength
  intro c hc
  cases values with
  | nil => cases hc
  | cons first rest =>
    rw [hrows c hc]
    exact (hrows first List.mem_cons_self).symm

/-- The rows of every argument, one like the other. -/
theorem FitsCall.length_cellsAt {values : List (Column V)} (h : FitsCall call values) {i : Nat} {ty : DataType}
    (hty : call.argTypes[i]? = some ty) : (cellsAt i [values]).length = height values := by
  obtain ⟨rows, hfits⟩ := id h
  obtain ⟨c, hc, -⟩ := ListFacts.forall₂_getElem? hfits hty
  simp only [cellsAt, List.flatMap_cons, List.flatMap_nil, List.append_nil, hc, Option.map_some, Option.getD_some]
  exact h.level c (List.mem_of_getElem? hc)

/-! ## The window -/

/-- The rows that batches bring. -/
def rowsOf : List (List (Column V)) → Nat
  | [] => 0
  | values :: batches => height values + rowsOf batches

theorem rowsOf_append (first second : List (List (Column V))) : rowsOf (first ++ second) = rowsOf first + rowsOf second := by
  induction first with
  | nil => simp [rowsOf]
  | cons values batches ih => rw [List.cons_append, rowsOf, rowsOf, ih, Nat.add_assoc]

/-- An accumulator to which `pushed` was given and from which `retracted` rows were taken, never more than it had. -/
inductive WindowRun (call : AggregateCall) : VgiAccumulator V → List (List (Column V)) → Nat → Prop
  | fresh : WindowRun call { call } [] 0
  | update {acc pushed retracted} (values : List (Column V)) (before : WindowRun call acc pushed retracted)
      (fits : FitsCall call values) : WindowRun call (acc.updateBatch values) (pushed ++ [values]) retracted
  | retract {acc pushed retracted} (values : List (Column V)) (before : WindowRun call acc pushed retracted)
      (level : Level values) (held : retracted + height values ≤ rowsOf pushed) :
      WindowRun call (acc.retractBatch values).1 pushed (retracted + height values)

/-- The window as one batch: of every argument what was pushed, without what was retracted. -/
def windowOf (call : AggregateCall) (pushed : List (List (Column V))) (retracted : Nat) : List (Column V) :=
  call.argTypes.zipIdx.map fun entry => { dataType := entry.1, cells := (cellsAt entry.2 pushed).drop retracted }

theorem windowOf_getElem? (pushed : List (List (Column V))) (retracted i : Nat) :
    (windowOf call pushed retracted)[i]? =
      call.argTypes[i]?.map fun ty => { dataType := ty, cells := (cellsAt i pushed).drop retracted } := by
  rw [windowOf, List.getElem?_map, List.getElem?_zipIdx, Option.map_map]
  simp [Function.comp_def]

/-- The chunks are those of some batches of as many rows that make up the window. -/
structure Windowed (call : AggregateCall) (pushed : List (List (Column V))) (retracted : Nat) (acc : VgiAccumulator V) :
    Prop where
  holds : ∃ batches, Holds call batches acc ∧
    ∀ i ty, call.argTypes[i]? = some ty → cellsAt i batches = (cellsAt i pushed).drop retracted
  rows : ∀ i ty, call.argTypes[i]? = some ty → (cellsAt i pushed).length = rowsOf pushed
  retracted_le : retracted ≤ rowsOf pushed

namespace Windowed

variable {acc : VgiAccumulator V} {pushed : List (List (Column V))} {retracted : Nat}

theorem update (h : Windowed call pushed retracted acc) {values : List (Column V)} (hfits : FitsCall call values) :
    Windowed call (pushed ++ [values]) retracted (acc.updateBatch values) := by
  obtain ⟨batches, hholds, hcells⟩ := h.holds
  refine ⟨⟨batches ++ [values], hholds.updateBatch hfits, ?_⟩, ?_, ?_⟩
  · intro i ty hty
    have hle : retracted ≤ (cellsAt i pushed).length := by
      rw [h.rows i ty hty]
      exact h.retracted_le
    rw [cellsAt_append, cellsAt_append, hcells i ty hty, List.drop_append_of_le_length hle]
  · intro i ty hty
    rw [cellsAt_append, List.length_append, h.rows i ty hty, hfits.length_cellsAt hty, rowsOf_append]
    rfl
  · rw [rowsOf_append]
    exact Nat.le_add_right_of_le h.retracted_le

/-- Every column has the rows that were pushed and not retracted. -/
theorem length_content (h : Windowed call pushed retracted acc) {chunks : List (Column V)} (hchunks : chunks ∈ acc.buffered) :
    (content chunks).length = rowsOf pushed - retracted := by
  obtain ⟨batches, hholds, hcells⟩ := h.holds
  obtain ⟨i, hi⟩ := List.mem_iff_getElem?.1 hchunks
  have hlt := (List.getElem?_eq_some_iff.1 hi).1
  have hargs : i < call.argTypes.length := by
    rcases hholds.shape with hempty | hlength
    · simp [hempty] at hlt
    · omega
  have hty : call.argTypes[i]? = some call.argTypes[i] := List.getElem?_eq_getElem hargs
  have hat : acc.chunksAt i = chunks := by
    rw [VgiAccumulator.chunksAt, hi, Option.getD_some]
  have hcontent := hholds.cells i _ hty
  rw [hat, hcells i _ hty] at hcontent
  rw [content, hcontent, List.length_drop, h.rows i _ hty]

/-- The rows that are there are taken, without an error. -/
theorem retractBatch_eq (h : Windowed call pushed retracted acc) {values : List (Column V)} (hlevel : Level values)
    (hheld : retracted + height values ≤ rowsOf pushed) : acc.retractBatch values =
      ({ acc with buffered := acc.buffered.map fun chunks => (trimFront chunks (height values)).1 }, .ok ()) := by
  have henough : ∀ chunks ∈ acc.buffered, height values ≤ (content chunks).length := by
    intro chunks hchunks
    rw [h.length_content hchunks]
    omega
  simp only [VgiAccumulator.retractBatch, any_of_level hlevel, Bool.false_eq_true, if_false, retractColumns_enough henough]

theorem retract (h : Windowed call pushed retracted acc) {values : List (Column V)} (hlevel : Level values)
    (hheld : retracted + height values ≤ rowsOf pushed) :
    Windowed call pushed (retracted + height values) (acc.retractBatch values).1 := by
  rw [h.retractBatch_eq hlevel hheld]
  obtain ⟨batches, hholds, hcells⟩ := h.holds
  have hchunks : ∀ i, ({ acc with buffered := acc.buffered.map fun chunks => (trimFront chunks (height values)).1 } :
      VgiAccumulator V).chunksAt i = (trimFront (acc.chunksAt i) (height values)).1 := by
    intro i
    simp only [VgiAccumulator.chunksAt, List.getElem?_map]
    cases acc.buffered[i]? with
    | none => simp [trimFront]
    | some chunks => rfl
  have hcut : ∀ i ty, call.argTypes[i]? = some ty →
      cellsAt i [windowOf call pushed (retracted + height values)] = (cellsAt i pushed).drop (retracted + height values) := by
    intro i ty hty
    simp only [cellsAt, List.flatMap_cons, List.flatMap_nil, List.append_nil, windowOf_getElem?, hty, Option.map_some,
      Option.getD_some]
  refine ⟨⟨[windowOf call pushed (retracted + height values)], ⟨hholds.call_eq, ?_, ?_, ?_⟩, hcut⟩, h.rows, hheld⟩
  · rcases hholds.shape with hempty | hlength
    · exact Or.inl (by simp [hempty])
    · exact Or.inr (by simp [hlength])
  · intro i ty hty
    rw [hchunks]
    exact trimFront_types (hholds.types i ty hty) _
  · intro i ty hty
    have hcontent : content (acc.chunksAt i) = cellsAt i batches := hholds.cells i ty hty
    rw [hchunks, hcut i ty hty]
    exact (content_trimFront _ _).1.trans (by rw [hcontent, hcells i ty hty, List.drop_drop])

theorem collected (h : Windowed call pushed retracted acc) : acc.collected = .ok (windowOf call pushed retracted) := by
  obtain ⟨batches, hholds, hcells⟩ := h.holds
  rw [hholds.collected]
  congr 1
  apply List.map_congr_left
  rintro ⟨ty, i⟩ hentry
  have hty : call.argTypes[i]? = some ty := by simpa using List.mem_zipIdx_iff_getElem?.1 hentry
  simp only [hcells i ty hty]

end Windowed

theorem WindowRun.windowed {acc : VgiAccumulator V} {pushed : List (List (Column V))} {retracted : Nat}
    (h : WindowRun call acc pushed retracted) : Windowed call pushed retracted acc := by
  induction h with
  | fresh => exact ⟨⟨[], Holds.fresh, fun _ _ _ => rfl⟩, fun _ _ _ => rfl, Nat.le_refl 0⟩
  | update values _ hfits ih => exact ih.update hfits
  | retract values _ hlevel hheld ih => exact ih.retract hlevel hheld

/-- **A window is first in, first out**: whatever the batches, every argument holds what was pushed without the rows
that were retracted, and the next rows can be retracted too. -/
theorem sliding_window {acc : VgiAccumulator V} {pushed : List (List (Column V))} {retracted : Nat}
    (h : WindowRun call acc pushed retracted) :
    acc.collected = .ok (windowOf call pushed retracted) ∧
      (∀ c ∈ windowOf call pushed retracted, c.cells.length = rowsOf pushed - retracted) ∧
      ∀ values, Level values → retracted + height values ≤ rowsOf pushed → (acc.retractBatch values).2 = .ok () := by
  have hwindowed := h.windowed
  refine ⟨hwindowed.collected, ?_, ?_⟩
  · intro c hc
    obtain ⟨⟨ty, i⟩, hentry, rfl⟩ := List.mem_map.1 hc
    have hty : call.argTypes[i]? = some ty := by simpa using List.mem_zipIdx_iff_getElem?.1 hentry
    rw [List.length_drop, hwindowed.rows i ty hty]
  · intro values hlevel hheld
    rw [hwindowed.retractBatch_eq hlevel hheld]

/-- One integer argument. -/
def sumCall : AggregateCall := { function := "sum", argTypes := [.int64], rowWitness := false, positionalIsConst := fun _ => false }

def integers (cells : List Int) : Column Int := { dataType := .int64, cells := cells.map some }

/-- Two rows leave, across a batch without rows and into the one behind it. -/
theorem sliding_window_across : ∃ acc : VgiAccumulator Int,
    WindowRun sumCall acc [[integers [1]], [integers []], [integers [2, 3]]] 2 ∧ acc.collected = .ok [integers [3]] := by
  have hfits : ∀ cells, FitsCall sumCall [integers cells] := fun cells => ⟨_, .cons ⟨rfl, rfl⟩ .nil⟩
  have hpushed := ((WindowRun.fresh.update [integers [1]] (hfits _)).update [integers []] (hfits _)).update
    [integers [2, 3]] (hfits _)
  have hrun := hpushed.retract [integers [1, 2]] (hfits _).level (by decide)
  exact ⟨_, hrun, (sliding_window hrun).1⟩

/-! ## More rows than there are -/

/-- The rows of the first column. -/
def VgiAccumulator.held (acc : VgiAccumulator V) : Nat := (acc.buffered.head?.map fun chunks => (content chunks).length).getD 0

/-- An error, and the buffers as they were. -/
def KeepsBuffers (acc : VgiAccumulator V) (values : List (Column V)) : Prop :=
  (∃ error, (acc.retractBatch values).2 = .error error) ∧ (acc.retractBatch values).1.buffered = acc.buffered

/-- An error, and the contents as they were, however they are cut into chunks. -/
def KeepsContents (acc : VgiAccumulator V) (values : List (Column V)) : Prop :=
  (∃ error, (acc.retractBatch values).2 = .error error) ∧
    (acc.retractBatch values).1.buffered.map content = acc.buffered.map content

/-- The first column decides: where it is short, the rest is not looked at. -/
theorem retractColumns_short {rows : Nat} {chunks : List (Column V)} {rest : List (List (Column V))}
    (h : (content chunks).length < rows) :
    retractColumns rows (chunks :: rest) = ((trimFront chunks rows).1 :: rest, false) := by
  have hshort : (trimFront chunks rows).2 ≠ 0 := by
    rw [(content_trimFront chunks rows).2]
    omega
  rw [retractColumns]
  split
  next left heq => exact absurd (congrArg Prod.snd heq) hshort
  next left n _ heq => rw [heq]

theorem refuses_of_not_level {acc : VgiAccumulator V} {values : List (Column V)} (h : ¬ Level values) :
    acc.retractBatch values = (acc,
      .error s!"VGI aggregate `{acc.call.function}` received retract columns with different lengths") := by
  have hany : values.any (·.cells.length ≠ height values) = true := by
    unfold Level at h
    rw [List.any_eq_true]
    simp only [not_forall] at h
    obtain ⟨c, hc, hlength⟩ := h
    exact ⟨c, hc, decide_eq_true hlength⟩
  simp only [VgiAccumulator.retractBatch, hany, if_true]

/-- What a short first column is left as. -/
theorem retractBatch_short {acc : VgiAccumulator V} {values chunks : List (Column V)} {rest : List (List (Column V))}
    (hlevel : Level values) (hbuffered : acc.buffered = chunks :: rest) (h : (content chunks).length < height values) :
    acc.retractBatch values = ({ acc with buffered := (trimFront chunks (height values)).1 :: rest },
      .error s!"VGI aggregate `{acc.call.function}` retracted more rows than it holds") := by
  simp only [VgiAccumulator.retractBatch, any_of_level hlevel, Bool.false_eq_true, if_false, hbuffered,
    retractColumns_short h]

/-- **Asked for more rows than it has, an accumulator refuses without damage** only if the columns differ in length or
it has been given rows and has no array any more; in its contents, only if they differ or no row is left of them. -/
theorem over_retraction_refused_iff {acc : VgiAccumulator V} {values : List (Column V)} (h : acc.held < height values) :
    (KeepsBuffers acc values ↔ ¬ Level values ∨ acc.buffered.head? = some []) ∧
      (KeepsContents acc values ↔ ¬ Level values ∨ (acc.buffered ≠ [] ∧ acc.held = 0)) := by
  by_cases hlevel : Level values
  · simp only [hlevel, not_true_eq_false, false_or]
    cases hbuffered : acc.buffered with
    | nil =>
      -- it never saw a row, so there is no column that could be short
      have hok : (acc.retractBatch values).2 = .ok () := by
        simp only [VgiAccumulator.retractBatch, any_of_level hlevel, Bool.false_eq_true, if_false, hbuffered, retractColumns]
      have hfails : ¬ ∃ error, (acc.retractBatch values).2 = .error error := by
        rw [hok]
        rintro ⟨error, herror⟩
        cases herror
      constructor
      · simp [KeepsBuffers, hfails]
      · simp [KeepsContents, hfails]
    | cons chunks rest =>
      have hheld : acc.held = (content chunks).length := by simp [VgiAccumulator.held, hbuffered]
      have hshort := retractBatch_short hlevel hbuffered (hheld ▸ h)
      constructor
      · rw [KeepsBuffers, hshort, hbuffered]
        simp only [Except.error.injEq, exists_eq', true_and, List.cons.injEq, and_true, List.head?_cons, Option.some.injEq]
        constructor
        · intro hsame
          cases chunks with
          | nil => rfl
          | cons first chunks => exact absurd hsame (trimFront_ne (by omega))
        · rintro rfl
          rfl
      · have hgone : content (trimFront chunks (height values)).1 = [] := by
          rw [(content_trimFront chunks _).1, List.drop_eq_nil_iff]
          omega
        rw [KeepsContents, hshort, hbuffered, hheld]
        simp only [Except.error.injEq, exists_eq', true_and, List.map_cons, List.cons.injEq, and_true, hgone, ne_eq,
          reduceCtorEq, not_false_eq_true, List.length_eq_zero_iff]
        exact eq_comm
  · rw [KeepsBuffers, KeepsContents, refuses_of_not_level hlevel]
    simp [hlevel]

/-- One row in, one row out. -/
def emptied : VgiAccumulator Int :=
  ((VgiAccumulator.updateBatch { call := sumCall } [integers [1]]).retractBatch [integers [1]]).1

theorem over_retraction_refused_emptied : KeepsBuffers emptied [integers [2]] ∧ KeepsContents emptied [integers [2]] := by
  obtain ⟨hrefuses, hcontents⟩ := @over_retraction_refused_iff _ emptied [integers [2]] (by decide)
  exact ⟨hrefuses.2 (Or.inr rfl), hcontents.2 (Or.inr ⟨by decide, rfl⟩)⟩

/-- Two arguments and one row: asked for two rows, it fails with the first argument gone and the second still there. -/
theorem over_retraction_misaligns : ∃ acc : VgiAccumulator Int,
    WindowRun { sumCall with argTypes := [.int64, .int64] } acc [[integers [1], integers [2]]] 0 ∧
      acc.held < height [integers [3, 4], integers [5, 6]] ∧
      (acc.retractBatch [integers [3, 4], integers [5, 6]]).2 =
        .error "VGI aggregate `sum` retracted more rows than it holds" ∧
      (acc.retractBatch [integers [3, 4], integers [5, 6]]).1.buffered = [[], [integers [2]]] ∧
      ¬ KeepsBuffers acc [integers [3, 4], integers [5, 6]] := by
  have hfits : FitsCall { sumCall with argTypes := [.int64, .int64] } [integers [1], integers [2]] :=
    ⟨1, .cons ⟨rfl, rfl⟩ (.cons ⟨rfl, rfl⟩ .nil)⟩
  have hrun := WindowRun.fresh.update [integers [1], integers [2]] hfits
  refine ⟨_, hrun, by decide, rfl, rfl, ?_⟩
  rintro ⟨-, hsame⟩
  cases hsame

end VgiDatafusion
