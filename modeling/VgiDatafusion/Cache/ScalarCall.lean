import VgiDatafusion.Cache.Exchange
import VgiDatafusion.Library.Grouping
import VgiDatafusion.Library.Lists
import VgiDatafusion.Session.Registry

/-!
# The scalar call around its exchange (scalar.rs:735-822, 885-932)

| here | there |
| --- | --- |
| `ScalarOps` | what the call does with arrays and batches besides the exchange |
| `deduplicateScalarInput` | `deduplicate_scalar_input` |
| `invokeAsyncWithArgs` | the end of `invoke_async_with_args`, from the columns on |
| `ScalarReading` | **Arrow boundary**: the rows of a batch, and what each operation does to them |

A batch that the worker is asked holds the distinct rows of the caller's batch, and an index for every row of
the caller finds it there again (`Deduplicated`). The two places that group rows, by their IPC bytes here and
by their digest in `run_scalar_exchange`, share `ScalarReading.gathered`.
-/
namespace VgiDatafusion

open Program Exchange

/-- What the call does with columns and batches around its exchange (`scalar.rs:735-822`). -/
structure ScalarOps (R C : Type) extends ExchangeOps R where
  /-- `RecordBatch::try_new_with_options` under the fields `col_0`, `col_1`, .., with a row count. -/
  batchOf : List C → Nat → Except String R
  writeBatch : R → Except String (List UInt8)
  /-- The first one. -/
  column : R → C
  takeColumn : C → List Nat → Except String C
  /-- The value of the first row, in an array of this size. -/
  broadcast : C → Nat → Except String C

structure ScalarSettings where
  exchangeInputDedup : Bool
  resultCachePerValue : Bool

namespace Exchange

variable {K R C : Type} (ops : ScalarOps R C)

/-- One turn of the loop of `deduplicate_scalar_input` (`scalar.rs:892-932`). -/
def uniqueRow (input : R) (found : List (List UInt8 × R) × List Nat) (row : Nat) :
    Except String (List (List UInt8 × R) × List Nat) := do
  let inputRow := ops.slice input row 1
  let ipc ← ops.writeBatch inputRow
  match found.1.findIdx? (·.1 = ipc) with
  | some unique => return (found.1, found.2 ++ [unique])
  | none =>
    if found.1.length < 2 ^ 32 then return (found.1 ++ [(ipc, inputRow)], found.2 ++ [found.1.length])
    else throw "stable scalar batch has more than u32::MAX distinct inputs"

/-- `deduplicate_scalar_input` (`scalar.rs:892-932`): the distinct rows, and for each row which of them it is. -/
def deduplicateScalarInput (input : R) : Except String (R × Option (List Nat)) :=
  if ops.rows input ≤ 1 then return (input, none)
  else do
    let (uniques, rowToUnique) ← (List.range (ops.rows input)).foldlM (uniqueRow ops input) ([], [])
    if uniques.length = ops.rows input then return (input, none)
    else
      let uniqueInput ← ops.concatInputs (uniques.map (·.2))
      return (uniqueInput, some rowToUnique)

/-- A call whose arguments are all constants asks for one row. -/
def rpcRows (volatility : Volatility) (columns : List C) (rows : Nat) : Nat :=
  if 0 < rows && columns.isEmpty && volatility ≠ .volatile then 1 else rows

/-- The end of `VgiScalarUdf::invoke_async_with_args` (`scalar.rs:664-822`), from the columns on. -/
def invokeAsyncWithArgs (function registeredName : String) (volatility : Volatility) (settings : ScalarSettings)
    (columns : List C) (rows : Nat) : ExchangeM K R C := do
  let rpcRows := rpcRows volatility columns rows
  let input ← liftExcept (ops.batchOf columns rpcRows)
  let cacheable := decide (volatility ≠ .volatile)
  let dedupEnabled := cacheable && settings.exchangeInputDedup
  let (input, gather) ← liftExcept (if dedupEnabled then deduplicateScalarInput ops input else .ok (input, none))
  let sentRows := ops.rows input
  let out ← runScalarExchange ops.toExchangeOps function cacheable settings.resultCachePerValue input
  if ops.rows out ≠ sentRows then
    let answered := ops.rows out
    throw s!"{registeredName} answered {answered} rows for {sentRows} input rows; a scalar function must be 1:1"
  else if ops.columns out ≠ 1 then
    let answered := ops.columns out
    throw s!"{registeredName} answered {answered} columns; a scalar function must return exactly one"
  else liftExcept <| match gather with
    | some gather => ops.takeColumn (ops.column out) gather
    | none => if rpcRows = 1 && 1 < rows then ops.broadcast (ops.column out) rows else .ok (ops.column out)

end Exchange

theorem rpcRows_cases {C : Type} (volatility : Volatility) (columns : List C) (rows : Nat) :
    Exchange.rpcRows volatility columns rows = rows ∨
      (Exchange.rpcRows volatility columns rows = 1 ∧ 0 < rows ∧ columns = []) := by
  unfold Exchange.rpcRows
  split
  next h =>
    simp only [Bool.and_eq_true, decide_eq_true_eq, List.isEmpty_iff] at h
    exact Or.inr ⟨rfl, h.1.1, h.1.2⟩
  next => exact Or.inl rfl

/-! ## Rows -/

/-- One cell of each column. -/
abbrev InputRow (V : Type) : Type := List (Option V)

/-- Of the columns of the caller. -/
def rowAt {C V : Type} (cells : C → List V) (columns : List C) (i : Nat) : InputRow V :=
  columns.map fun column => (cells column)[i]?

/-- An index finds its value. -/
def Taken {V : Type} (values : List V) : List Nat → List V → Prop :=
  List.Forall₂ fun j v => values[j]? = some v

/-- Each law is of an operation that succeeds. -/
structure ScalarReading {R C : Type} (ops : ScalarOps R C) (V : Type) where
  cells : C → List V
  inputRows : R → List (InputRow V)
  rows_eq : ∀ b, ops.rows b = (inputRows b).length
  batchOf : ∀ {columns n b}, ops.batchOf columns n = .ok b → inputRows b = (List.range n).map (rowAt cells columns)
  slice : ∀ b i n, inputRows (ops.slice b i n) = ((inputRows b).drop i).take n
  concatInputs : ∀ {bs b}, ops.concatInputs bs = .ok b → inputRows b = bs.flatMap inputRows
  /-- The bytes of a batch read back as that batch. -/
  writeBatch : ∀ {a b bytes}, ops.writeBatch a = .ok bytes → ops.writeBatch b = .ok bytes → inputRows a = inputRows b
  length_column : ∀ b, ops.columns b ≠ 0 → (cells (ops.column b)).length = ops.rows b
  columns_slice : ∀ b i n, ops.columns (ops.slice b i n) = ops.columns b
  column_slice : ∀ b i n, ops.columns b ≠ 0 →
    cells (ops.column (ops.slice b i n)) = ((cells (ops.column b)).drop i).take n
  take : ∀ {b indices out}, ops.columns b ≠ 0 → ops.take b indices = .ok out →
    Taken (cells (ops.column b)) indices (cells (ops.column out))
  /-- Columns are concatenated by position, under an output schema of one field. -/
  gather : ∀ {bs b indices out}, ops.concatOutputs bs = .ok b → ops.gather b indices = .ok out →
    (∀ a ∈ bs, ops.columns a ≠ 0) ∧
      Taken (bs.flatMap fun a => cells (ops.column a)) indices (cells (ops.column out))
  takeColumn : ∀ {c indices out}, ops.takeColumn c indices = .ok out → Taken (cells c) indices (cells out)
  broadcast : ∀ {c n out}, ops.broadcast c n = .ok out →
    ∃ v, (cells c)[0]? = some v ∧ cells out = List.replicate n v

section
variable {R C V : Type} {ops : ScalarOps R C} (A : ScalarReading ops V)

namespace ScalarReading

theorem slice_row (input : R) : List.Forall₂ (fun row x => A.inputRows (ops.slice input row 1) = [x])
    (List.range (ops.rows input)) (A.inputRows input) := by
  rw [List.forall₂_iff_get]
  refine ⟨by rw [List.length_range, A.rows_eq], ?_⟩
  intro i hi hx
  simp only [List.get_eq_getElem, List.getElem_range]
  rw [A.slice, List.drop_eq_getElem_cons hx, List.take_succ_cons, List.take_zero]

theorem flatMap_of_single {α β : Type} {f : α → List β} {us : List α} {xs : List β}
    (h : List.Forall₂ (fun u x => f u = [x]) us xs) : us.flatMap f = xs := by
  induction h with
  | nil => rfl
  | cons hux _ ih => rw [List.flatMap_cons, hux, ih, List.singleton_append]

/-- Rows grouped by a key that tells them apart are found again through their indices. -/
theorem gathered {κ : Type} {input : R} {seen : List (κ × R)} {found : Grouping.Found κ R} (keyed : R → κ → Prop)
    (hseen : List.Forall₂ (fun row s => keyed (ops.slice input row 1) s.1 ∧ s.2 = ops.slice input row 1)
      (List.range (ops.rows input)) seen)
    (hgrouped : Grouping.Grouped seen found)
    (hkeyed : ∀ a b key, (∃ x ∈ A.inputRows input, A.inputRows a = [x]) → (∃ x ∈ A.inputRows input, A.inputRows b = [x]) →
      keyed a key → keyed b key → A.inputRows a = A.inputRows b) :
    ∃ distinct, List.Forall₂ (fun u x => keyed u.2 u.1 ∧ x ∈ A.inputRows input ∧ A.inputRows u.2 = [x]) found.1 distinct ∧
      Taken distinct found.2 (A.inputRows input) := by
  have hrows : List.Forall₂ (fun x s => keyed s.2 s.1 ∧ A.inputRows s.2 = [x]) (A.inputRows input) seen := by
    refine (ListFacts.forall₂_comp (A.slice_row input).flip hseen).imp ?_
    rintro x s ⟨row, hrow, hkey, hslice⟩
    rw [hslice]
    exact ⟨hkey, hrow⟩
  have hmem : ∀ s ∈ seen, keyed s.2 s.1 ∧ ∃ x ∈ A.inputRows input, A.inputRows s.2 = [x] := by
    intro s hs
    obtain ⟨i, hi⟩ := List.mem_iff_getElem?.1 hs
    obtain ⟨x, hx, hkey, hrow⟩ := ListFacts.forall₂_getElem? hrows.flip hi
    exact ⟨hkey, x, List.mem_of_getElem? hx, hrow⟩
  have hsingle : ∀ u ∈ found.1, ∃ x, keyed u.2 u.1 ∧ x ∈ A.inputRows input ∧ A.inputRows u.2 = [x] := by
    intro u hu
    obtain ⟨hkey, x, hx, hrow⟩ := hmem u (hgrouped.kept u hu)
    exact ⟨x, hkey, hx, hrow⟩
  obtain ⟨distinct, hdistinct⟩ := ListFacts.forall₂_of_exists hsingle
  refine ⟨distinct, hdistinct, ?_⟩
  have hindexed := hgrouped.contents A.inputRows (by
    intro s hs s' hs' heq
    exact hkeyed s.2 s'.2 s.1 (hmem s hs).2 (hmem s' hs').2 (hmem s hs).1 (heq ▸ (hmem s' hs').1))
  refine ((ListFacts.forall₂_comp hrows hindexed).imp ?_).flip
  rintro x j ⟨s, ⟨-, hs⟩, u, hu, hcontent⟩
  obtain ⟨y, hy, -, -, huy⟩ := ListFacts.forall₂_getElem? hdistinct hu
  have hsame : [y] = [x] := by rw [← huy, hcontent, hs]
  exact hy.trans (congrArg some (List.singleton_inj.1 hsame))

/-- The distinct rows of a batch, as the worker is asked for them, and where the caller's rows find theirs. -/
structure Deduplicated (input sent : R) (gather : Option (List Nat)) : Prop where
  bounded : ops.rows sent ≤ 2 ^ 32
  subset : ∀ x ∈ A.inputRows sent, x ∈ A.inputRows input
  whole : gather = none → sent = input
  found : ∀ indices, gather = some indices → 1 < ops.rows input ∧ Taken (A.inputRows sent) indices (A.inputRows input)

theorem uniqueRow_note {input : R} {found found' : List (List UInt8 × R) × List Nat} {row : Nat}
    (h : uniqueRow ops input found row = .ok found') :
    ∃ ipc, ops.writeBatch (ops.slice input row 1) = .ok ipc ∧
      found' = Grouping.note found ipc (ops.slice input row 1) ∧ (found.1.length ≤ 2 ^ 32 → found'.1.length ≤ 2 ^ 32) := by
  unfold uniqueRow at h
  obtain ⟨ipc, hipc, h⟩ := except_of_bind_ok h
  refine ⟨ipc, hipc, ?_⟩
  unfold Grouping.note
  cases hfind : found.1.findIdx? (·.1 = ipc) with
  | some index =>
    rw [hfind] at h
    cases h
    exact ⟨rfl, id⟩
  | none =>
    rw [hfind] at h
    by_cases hlt : found.1.length < 2 ^ 32
    · simp only [if_pos hlt] at h
      cases h
      refine ⟨rfl, fun _ => ?_⟩
      rw [List.length_append, List.length_singleton]
      omega
    · simp only [if_neg hlt] at h
      cases h

theorem deduplicate_ok {input sent : R} {gather : Option (List Nat)}
    (h : deduplicateScalarInput ops input = .ok (sent, gather)) : A.Deduplicated input sent gather := by
  unfold deduplicateScalarInput at h
  split at h
  next hfew =>
    cases h
    exact ⟨by omega, fun _ hx => hx, fun _ => rfl, by rintro _ ⟨⟩⟩
  next hmany =>
    obtain ⟨⟨uniques, rowToUnique⟩, hfold, h⟩ := except_of_bind_ok h
    have hbounded : uniques.length ≤ 2 ^ 32 := by
      refine ListFacts.foldlM_ok_inv (I := fun found => found.1.length ≤ 2 ^ 32) ?_ (Nat.zero_le _) hfold
      intro found row found' hle hstep
      obtain ⟨-, -, -, hkeeps⟩ := uniqueRow_note hstep
      exact hkeeps hle
    by_cases hall : uniques.length = ops.rows input
    · simp only [if_pos hall] at h
      cases h
      exact ⟨hall ▸ hbounded, fun _ hx => hx, fun _ => rfl, by rintro _ ⟨⟩⟩
    · simp only [if_neg hall] at h
      obtain ⟨uniqueInput, hconcat, h⟩ := except_of_bind_ok h
      cases h
      obtain ⟨seen, hseen, hgrouped⟩ := Grouping.grouped_foldlM
        (fun found row found' hstep => by
          obtain ⟨ipc, hipc, hnote, -⟩ := uniqueRow_note hstep
          exact ⟨ipc, hipc, hnote⟩) Grouping.grouped_nil hfold
      rw [List.nil_append] at hgrouped
      obtain ⟨distinct, hdistinct, htaken⟩ := A.gathered (fun b ipc => ops.writeBatch b = .ok ipc) hseen hgrouped
        (fun a b ipc _ _ ha hb => A.writeBatch ha hb)
      have hsent : A.inputRows sent = distinct := by
        rw [A.concatInputs hconcat, List.flatMap_map]
        exact flatMap_of_single (hdistinct.imp fun _ _ h => h.2.2)
      refine ⟨?_, ?_, by rintro ⟨⟩, ?_⟩
      · rw [A.rows_eq, hsent, ← hdistinct.length_eq]
        exact hbounded
      · intro x hx
        rw [hsent] at hx
        obtain ⟨i, hi⟩ := List.mem_iff_getElem?.1 hx
        obtain ⟨-, -, -, hmem, -⟩ := ListFacts.forall₂_getElem? hdistinct.flip hi
        exact hmem
      · rintro indices ⟨⟩
        rw [hsent]
        exact ⟨by omega, htaken⟩

end ScalarReading

end

end VgiDatafusion
