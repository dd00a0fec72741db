import Mathlib.Data.List.Induction
import VgiDatafusion.Scan.Replay
import VgiDatafusion.Scan.Statistics

/-!
# Ordering and statistics of a split plan (lib.rs:1942-1983, 4052-4082, 4183-4335)

| here | there |
| --- | --- |
| `ScanSplitInfo`, `ScanPlan`, `PlannedSplits` | the parts of them that are read here |
| `StatisticRow` | a row of `column_statistics`, as `bool_at`, `i64_at` and `statistic_value` read it |
| `Bounds` | `column_bounds` or `partition_bounds`: for each column what rows 0 and 1 hold |
| `splitOrdering`, `statisticsForSplit` | `split_ordering`, `statistics_for_split` |
| `Claims` | the map `columns`, by the name the worker uses |

The schema is the public one, projected, and the worker's names are looked up in it as they are. A public column is backed
by the worker's column of the mapped name (`workerName`), which is what the rows are read from. `SaidOf` says what may be
said of a column because the plan says it of the worker's column behind it; `splitMetadata_iff` says exactly when all that is
advertised is said so. A direction is a word of the protocol in either letter case, as the range keys of the same plan have
it; here only one of the two is known.
-/
namespace VgiDatafusion

variable {V : Type}

/-! ## The plan -/

inductive PrecisionOf (α : Type)
  | exact (value : α) | inexact (value : α) | absent

structure SortField where
  column : String
  direction : String
  nulls : String
  deriving DecidableEq, Repr

/-- A column that is missing or of another type reads as NULL. -/
structure StatisticRow (V : Type) where
  columnName : Option String
  hasNull : Option Bool
  hasNotNull : Option Bool
  distinctCount : Option Int
  min : Option (ScalarValue V)
  max : Option (ScalarValue V)

/-- By column, the least and the greatest value; `none` where a value cannot be read. -/
abbrev Bounds (V : Type) := List (String × Option (ScalarValue V) × Option (ScalarValue V))

/-- No rows stand for a batch without a text column of names. -/
structure ScanSplitInfo (V : Type) where
  estimatedRows : Option Int
  rowsExact : Bool
  estimatedBytes : Option Int
  columnStatistics : Option (List (StatisticRow V))
  columnBounds : Option (Bounds V)
  partitionBounds : Option (Bounds V)

/-- The worker's plan, as far as order and statistics are read from it. -/
structure ScanPlan (V : Type) where
  splits : List (ScanSplitInfo V)
  sortOrder : Option (List SortField)

/-- `PlannedSplits` (`lib.rs:1806-1818`): the split indices of each group. -/
structure PlannedSplits (V : Type) where
  groups : List (List Nat)
  plan : ScanPlan V

/-! ## Ordering -/

structure PhysicalSortExpr where
  column : String
  index : Nat
  descending : Bool
  nullsFirst : Bool
  deriving DecidableEq, Repr

/-- One turn of the loop of `split_ordering` (`lib.rs:4052-4082`); only the lower-case words are known. -/
def sortExpr (schema : Schema) (field : SortField) : Option PhysicalSortExpr :=
  (schema.indexOf field.column).map fun index =>
    { column := field.column, index, descending := field.direction == "desc", nullsFirst := field.nulls == "nulls_first" }

/-- `split_ordering` (`lib.rs:4052-4082`): a group of several splits is not sorted even if each of them is. -/
def splitOrdering (schema : Schema) (planned : PlannedSplits V) : Option (List PhysicalSortExpr) :=
  if planned.groups.isEmpty || planned.groups.any (·.length ≠ 1) then none
  else match planned.plan.sortOrder with
    | none | some [] => none
    | some fields => fields.mapM (sortExpr schema)

/-! ## Statistics -/

structure ColumnStatistics (V : Type) where
  nullCount : Precision := .absent
  distinctCount : Precision := .absent
  minValue : PrecisionOf (ScalarValue V) := .absent
  maxValue : PrecisionOf (ScalarValue V) := .absent

structure Statistics (V : Type) where
  numRows : Precision
  totalByteSize : Precision
  columnStatistics : List (ColumnStatistics V)

/-- `split_row_count` (`lib.rs:1945-1966`) of one split. -/
def splitRowCount (split : ScanSplitInfo V) : Precision :=
  match split.estimatedRows.bind usizeOf with
  | none => .absent
  | some rows => if split.rowsExact then .exact rows else .inexact rows

/-- `split_byte_count` (`lib.rs:1968-1983`) of one split. -/
def splitByteCount (split : ScanSplitInfo V) : Precision :=
  match split.estimatedBytes.bind usizeOf with
  | none => .absent
  | some bytes => .inexact bytes

/-- What has been said so far, by the worker's column names. -/
abbrev Claims (V : Type) := String → Option (ColumnStatistics V)

section
variable (K : Kernel V) (same : ScalarValue V → ScalarValue V → Bool) (schema : Schema)

/-- An end from a row of `column_statistics`, cast. -/
def inexactValue (value : Option (ScalarValue V)) (target : DataType) : PrecisionOf (ScalarValue V) :=
  match value.bind (K.castTo · target) with
  | some value => .inexact value
  | none => .absent

/-- The NULLs of a column, from the flags in its row. -/
def nullCount (numRows : Precision) (row : StatisticRow V) : Precision :=
  match row.hasNull, row.hasNotNull with
  | some false, _ => .exact 0
  | _, some false => numRows
  | _, _ => .absent

/-- The distinct values of a column, from its row. -/
def distinctCount (row : StatisticRow V) : Precision :=
  match row.distinctCount.bind usizeOf with
  | some count => .inexact count
  | none => .absent

/-- A name the schema does not have is skipped; a later row replaces an earlier one. -/
def claimRow (numRows : Precision) (columns : Claims V) (row : StatisticRow V) : Claims V :=
  match row.columnName with
  | none => columns
  | some name =>
    match schema.fieldWithName name with
    | none => columns
    | some field => Function.update columns name (some {
        nullCount := nullCount numRows row
        distinctCount := distinctCount row
        minValue := inexactValue K row.min field.dataType
        maxValue := inexactValue K row.max field.dataType })

/-- An end from the bounds, cast. -/
def exactValue : Option (ScalarValue V) → PrecisionOf (ScalarValue V)
  | some value => .exact value
  | none => .absent

/-- One value, not NULL, at both ends. -/
def singleValue : Option (ScalarValue V) → Option (ScalarValue V) → Bool
  | some min, some max => !min.isNull && same min max
  | _, _ => false

/-- A name that occurs twice among the bounds is read at its first column. -/
def claimBound (bounds : Bounds V) (columns : Claims V) (name : String) : Claims V :=
  match schema.fieldWithName name, bounds.lookup name with
  | some output, some (low, high) =>
    let min := low.bind (K.castTo · output.dataType)
    let max := high.bind (K.castTo · output.dataType)
    let column := (columns name).getD {}
    let distinctCount := if singleValue same min max then .exact 1 else column.distinctCount
    Function.update columns name
      (some { column with minValue := exactValue min, maxValue := exactValue max, distinctCount })
  | _, _ => columns

/-- The bounds of a split's columns; `column_bounds` comes before `partition_bounds`. -/
def splitBounds (split : ScanSplitInfo V) : Bounds V := (split.columnBounds.or split.partitionBounds).getD []

/-- The map `columns` of `statistics_for_split` (`lib.rs:4238-4335`): the rows of `column_statistics`, then the bounds over
them. -/
def claims (split : ScanSplitInfo V) : Claims V :=
  let columns := (split.columnStatistics.getD []).foldl (claimRow K schema (splitRowCount split)) fun _ => none
  ((splitBounds split).map (·.1)).foldl (claimBound K same schema (splitBounds split)) columns

/-- `remove`: each public column takes the claim made under its name. -/
def takeClaims : List Field → Claims V → List (Option (String × ColumnStatistics V))
  | [], _ => []
  | field :: fields, columns =>
    (columns field.name).map (field.name, ·) :: takeClaims fields (Function.update columns field.name none)

/-- For each public column the claim it gets, with the name the worker made it under. -/
def attached (split : ScanSplitInfo V) : List (Option (String × ColumnStatistics V)) :=
  takeClaims schema.fields (claims K same schema split)

/-- `statistics_for_split` (`lib.rs:4238-4335`). -/
def statisticsForSplit (split : ScanSplitInfo V) : Statistics V :=
  { numRows := splitRowCount split
    totalByteSize := splitByteCount split
    columnStatistics := (attached K same schema split).map fun claim => (claim.map (·.2)).getD {} }

end

/-! ## What the plan says -/

/-- One of two words of the protocol, in either letter case. -/
def readWord (no yes word : String) : Option Bool :=
  let letters := word.toList.map Char.toLower
  if letters = no.toList then some false else if letters = yes.toList then some true else none

/-- The direction that a word of the protocol stands for, in any letter case. -/
def SortField.descending (field : SortField) : Option Bool := readWord "asc" "desc" field.direction

/-- The place of NULLs that a word of the protocol stands for, in any letter case. -/
def SortField.nullsFirst (field : SortField) : Option Bool := readWord "nulls_last" "nulls_first" field.nulls

/-- The column behind the one an expression orders by is the one the worker named, and the order is the worker's. -/
structure OrdersBacking (mapping : Option ColumnMapping) (schema : Schema) (field : SortField) (expr : PhysicalSortExpr) :
    Prop where
  backed : ∃ f, schema.fields[expr.index]? = some f ∧ workerName mapping f.name = field.column
  direction : field.descending = some expr.descending
  nulls : field.nullsFirst = some expr.nullsFirst

namespace ScanSplitInfo

/-- A row of the split's statistics is about this column. -/
def RowOf (split : ScanSplitInfo V) (name : String) (row : StatisticRow V) : Prop :=
  row ∈ split.columnStatistics.getD [] ∧ row.columnName = some name

/-- The row that counts, if there are several. -/
def lastRow (split : ScanSplitInfo V) (name : String) : Option (StatisticRow V) :=
  (split.columnStatistics.getD []).reverse.find? fun row => row.columnName = some name

/-- The bounds of a column, if it has some. -/
def boundsOf (split : ScanSplitInfo V) (name : String) : Option (Option (ScalarValue V) × Option (ScalarValue V)) :=
  (splitBounds split).lookup name

end ScanSplitInfo

section
variable (K : Kernel V) (same : ScalarValue V → ScalarValue V → Bool) (split : ScanSplitInfo V) (name : String)
  (target : DataType)

/-- A value of the plan, as one of the public type. -/
def ReadAs (said : Option (ScalarValue V)) (value : ScalarValue V) : Prop := ∃ x, said = some x ∧ K.castTo x target = some value

/-- The bounds of a column are one value. -/
def SingleSaid : Prop := ∃ bounds least greatest, split.boundsOf name = some bounds ∧ ReadAs K target bounds.1 least ∧
  ReadAs K target bounds.2 greatest ∧ least.isNull = false ∧ same least greatest = true

/-- The plan says of a column how many NULLs it has: none, or nothing else. -/
inductive NullCountSaid : Precision → Prop
  | absent : NullCountSaid .absent
  | noNulls {row} (hrow : split.RowOf name row) (hno : row.hasNull = some false) : NullCountSaid (.exact 0)
  | onlyNulls {row} (hrow : split.RowOf name row) (hno : row.hasNotNull = some false) : NullCountSaid (splitRowCount split)

/-- What may be said of the distinct values of a column. -/
inductive DistinctCountSaid : Precision → Prop
  | absent : DistinctCountSaid .absent
  | row {row count n} (hrow : split.RowOf name row) (hcount : row.distinctCount = some count) (hn : usizeOf count = some n) :
    DistinctCountSaid (.inexact n)
  | single (h : SingleSaid K same split name target) : DistinctCountSaid (.exact 1)

/-- An end of the values of a column: that of a row about it, or that of its bounds. -/
inductive EndSaid (ofRow : StatisticRow V → Option (ScalarValue V))
    (ofBounds : Option (ScalarValue V) × Option (ScalarValue V) → Option (ScalarValue V)) : PrecisionOf (ScalarValue V) → Prop
  | absent : EndSaid ofRow ofBounds .absent
  | row {row value} (hrow : split.RowOf name row) (hvalue : ReadAs K target (ofRow row) value) :
    EndSaid ofRow ofBounds (.inexact value)
  | bounds {bounds value} (hbounds : split.boundsOf name = some bounds) (hvalue : ReadAs K target (ofBounds bounds) value) :
    EndSaid ofRow ofBounds (.exact value)

/-- All that is known of a column is what the plan says of the worker's column of this name. -/
structure SaidOf (stats : ColumnStatistics V) : Prop where
  nullCount : NullCountSaid split name stats.nullCount
  distinctCount : DistinctCountSaid K same split name target stats.distinctCount
  minValue : EndSaid K split name target StatisticRow.min Prod.fst stats.minValue
  maxValue : EndSaid K split name target StatisticRow.max Prod.snd stats.maxValue

/-- What the last row of one name says, and its bounds, the plan also says of another name. -/
structure Repeats (other : String) : Prop where
  noNulls : ∀ row, split.lastRow name = some row → row.hasNull = some false → NullCountSaid split other (.exact 0)
  onlyNulls : ∀ row, split.lastRow name = some row → row.hasNull ≠ some false → row.hasNotNull = some false →
    NullCountSaid split other (splitRowCount split)
  distinctCount : ∀ row count n, split.lastRow name = some row → row.distinctCount = some count → usizeOf count = some n →
    ¬ SingleSaid K same split name target → DistinctCountSaid K same split other target (.inexact n)
  single : SingleSaid K same split name target → DistinctCountSaid K same split other target (.exact 1)
  /-- The bounds of the name stand instead of the ends in its row. -/
  rowEnds : ∀ row, split.lastRow name = some row → split.boundsOf name = none → ∀ value,
    (ReadAs K target row.min value → EndSaid K split other target StatisticRow.min Prod.fst (.inexact value)) ∧
    (ReadAs K target row.max value → EndSaid K split other target StatisticRow.max Prod.snd (.inexact value))
  boundEnds : ∀ bounds, split.boundsOf name = some bounds → ∀ value,
    (ReadAs K target bounds.1 value → EndSaid K split other target StatisticRow.min Prod.fst (.exact value)) ∧
    (ReadAs K target bounds.2 value → EndSaid K split other target StatisticRow.max Prod.snd (.exact value))

end

/-- All that is advertised about a public column the worker says of the column behind it. -/
structure DescribesBacking (K : Kernel V) (same : ScalarValue V → ScalarValue V → Bool) (mapping : Option ColumnMapping)
    (schema : Schema) (planned : PlannedSplits V) : Prop where
  ordering : ∀ fields exprs, planned.plan.sortOrder = some fields → splitOrdering schema planned = some exprs →
    List.Forall₂ (OrdersBacking mapping schema) fields exprs
  statistics : ∀ split ∈ planned.plan.splits, ∀ (i : Nat) f stats, schema.fields[i]? = some f →
    (statisticsForSplit K same schema split).columnStatistics[i]? = some stats →
      SaidOf K same split (workerName mapping f.name) f.dataType stats

/-- The plan has one split a group, and a sort order that the projection can name. -/
structure Sorted (schema : Schema) (planned : PlannedSplits V) (fields : List SortField) : Prop where
  grouped : planned.groups ≠ []
  single : ∀ group ∈ planned.groups, group.length = 1
  declared : planned.plan.sortOrder = some fields
  some : fields ≠ []
  projected : ∀ field ∈ fields, field.column ∈ schema.names

/-- Descending order and leading NULLs in lower case, or the opposite in any. -/
structure SortField.Understood (field : SortField) : Prop where
  direction : field.direction = "desc" ∨ field.direction.toList.map Char.toLower = "asc".toList
  nulls : field.nulls = "nulls_first" ∨ field.nulls.toList.map Char.toLower = "nulls_last".toList

/-- A sort order that is advertised names its columns as the worker does and is understood, and what a split says of a
projected name it says of the column behind it. -/
structure SpeaksOfBacking (K : Kernel V) (same : ScalarValue V → ScalarValue V → Bool) (mapping : Option ColumnMapping)
    (schema : Schema) (planned : PlannedSplits V) : Prop where
  ordering : ∀ fields, Sorted schema planned fields → ∀ field ∈ fields,
    workerName mapping field.column = field.column ∧ field.Understood
  statistics : ∀ split ∈ planned.plan.splits, ∀ f ∈ schema.fields, schema.fieldWithName f.name = some f →
    Repeats K same split f.name f.dataType (workerName mapping f.name)

/-! ### Ordering -/

section
variable {schema : Schema} {planned : PlannedSplits V} {fields : List SortField} {exprs : List PhysicalSortExpr}
  {mapping : Option ColumnMapping}

theorem sortExpr_eq_some {field : SortField} {expr : PhysicalSortExpr} (h : sortExpr schema field = some expr) :
    schema.indexOf field.column = some expr.index ∧ expr.descending = (field.direction == "desc") ∧
      expr.nullsFirst = (field.nulls == "nulls_first") := by
  unfold sortExpr at h
  obtain ⟨i, hi, rfl⟩ := Option.map_eq_some_iff.1 h
  exact ⟨hi, rfl, rfl⟩

theorem readWord_eq_iff {no yes word : String} (hyes : yes.toList.map Char.toLower = yes.toList) (hne : yes.toList ≠ no.toList) :
    readWord no yes word = some (word == yes) ↔ word = yes ∨ word.toList.map Char.toLower = no.toList := by
  by_cases hword : word = yes
  · subst hword
    simp [readWord, hyes, hne]
  · have hcode : (word == yes) = false := by simpa using hword
    rw [hcode, readWord]
    by_cases hno : word.toList.map Char.toLower = no.toList
    · simp [hno]
    · simp only [hno, if_false, hword, or_false, iff_false]
      split <;> simp

/-- An expression orders as the worker said iff the name is not mapped away and the words are understood. -/
theorem ordersBacking_iff {field : SortField} {expr : PhysicalSortExpr} (h : sortExpr schema field = some expr) :
    OrdersBacking mapping schema field expr ↔ workerName mapping field.column = field.column ∧ field.Understood := by
  obtain ⟨hindex, hdirection, hnulls⟩ := sortExpr_eq_some h
  obtain ⟨f, hf, hname⟩ := Schema.indexOf_spec hindex
  have hdescending : field.descending = some expr.descending ↔
      field.direction = "desc" ∨ field.direction.toList.map Char.toLower = "asc".toList := by
    rw [hdirection]
    exact readWord_eq_iff (by decide) (by decide)
  have hnullsFirst : field.nullsFirst = some expr.nullsFirst ↔
      field.nulls = "nulls_first" ∨ field.nulls.toList.map Char.toLower = "nulls_last".toList := by
    rw [hnulls]
    exact readWord_eq_iff (by decide) (by decide)
  constructor
  · intro hbacked
    obtain ⟨f', hf', hworker⟩ := hbacked.backed
    rw [hf] at hf'
    cases hf'
    rw [hname] at hworker
    exact ⟨hworker, hdescending.1 hbacked.direction, hnullsFirst.1 hbacked.nulls⟩
  · rintro ⟨hown, hunderstood⟩
    exact ⟨⟨f, hf, by rw [hname]; exact hown⟩, hdescending.2 hunderstood.direction, hnullsFirst.2 hunderstood.nulls⟩

theorem splitOrdering_eq_some_iff (hdeclared : planned.plan.sortOrder = some fields) :
    splitOrdering schema planned = some exprs ↔
      Sorted schema planned fields ∧ List.Forall₂ (fun field expr => sortExpr schema field = some expr) fields exprs := by
  have hgroups : (planned.groups.isEmpty || planned.groups.any (·.length ≠ 1)) = true ↔
      ¬ (planned.groups ≠ [] ∧ ∀ group ∈ planned.groups, group.length = 1) := by
    simp only [Bool.or_eq_true, List.isEmpty_iff, List.any_eq_true, decide_eq_true_eq]
    grind
  unfold splitOrdering
  rw [hdeclared]
  by_cases hone : planned.groups ≠ [] ∧ ∀ group ∈ planned.groups, group.length = 1
  · rw [if_neg (by rw [hgroups]; exact not_not.2 hone)]
    cases fields with
    | nil =>
      simp only [reduceCtorEq, false_iff]
      rintro ⟨hsorted, -⟩
      exact hsorted.some rfl
    | cons field rest =>
      simp only [ListFacts.mapM_some_iff]
      constructor
      · intro hexprs
        refine ⟨⟨hone.1, hone.2, hdeclared, by simp, ?_⟩, hexprs⟩
        intro f hf
        obtain ⟨i, hi⟩ := List.getElem?_of_mem hf
        obtain ⟨expr, -, hexpr⟩ := ListFacts.forall₂_getElem? hexprs hi
        rw [← Schema.indexOf_isSome, (sortExpr_eq_some hexpr).1]
        rfl
      · exact And.right
  · rw [if_pos (hgroups.2 hone)]
    simp only [reduceCtorEq, false_iff]
    rintro ⟨hsorted, -⟩
    exact hone ⟨hsorted.grouped, hsorted.single⟩

/-- A sort order that can be named is advertised. -/
theorem splitOrdering_isSome (h : Sorted schema planned fields) : ∃ exprs, splitOrdering schema planned = some exprs := by
  have hall : ∀ field ∈ fields, ∃ expr, sortExpr schema field = some expr := by
    intro field hfield
    obtain ⟨i, hi⟩ := Option.isSome_iff_exists.1 (Schema.indexOf_isSome.2 (h.projected field hfield))
    exact ⟨_, by rw [sortExpr, hi]; rfl⟩
  obtain ⟨exprs, hexprs⟩ := ListFacts.forall₂_of_exists hall
  exact ⟨exprs, (splitOrdering_eq_some_iff h.declared).2 ⟨h, hexprs⟩⟩

theorem splitOrdering_backing_iff :
    (∀ fields exprs, planned.plan.sortOrder = some fields → splitOrdering schema planned = some exprs →
      List.Forall₂ (OrdersBacking mapping schema) fields exprs) ↔
    ∀ fields, Sorted schema planned fields → ∀ field ∈ fields,
      workerName mapping field.column = field.column ∧ field.Understood := by
  constructor
  · intro h fields hsorted field hfield
    obtain ⟨exprs, hordering⟩ := splitOrdering_isSome hsorted
    obtain ⟨-, hexprs⟩ := (splitOrdering_eq_some_iff hsorted.declared).1 hordering
    obtain ⟨i, hi⟩ := List.getElem?_of_mem hfield
    obtain ⟨expr, hat, hexpr⟩ := ListFacts.forall₂_getElem? hexprs hi
    obtain ⟨expr', hat', hbacking⟩ := ListFacts.forall₂_getElem? (h fields exprs hsorted.declared hordering) hi
    rw [hat] at hat'
    cases hat'
    exact (ordersBacking_iff hexpr).1 hbacking
  · intro h fields exprs hdeclared hordering
    obtain ⟨hsorted, hexprs⟩ := (splitOrdering_eq_some_iff hdeclared).1 hordering
    have hown := h fields hsorted
    clear hordering hsorted hdeclared
    induction hexprs with
    | nil => exact .nil
    | cons hexpr _ ih =>
      refine .cons ((ordersBacking_iff hexpr).2 (hown _ (by simp))) (ih ?_)
      intro field hfield
      exact hown field (List.mem_cons_of_mem _ hfield)

end

/-! ### Statistics -/

/-- At its first column a name takes the claim made under it; at another column of the same name there is none left. -/
theorem takeClaims_at {fields : List Field} {columns : Claims V} {i : Nat} {f : Field} (hf : fields[i]? = some f) :
    (takeClaims fields columns)[i]? =
      some (if fields.findIdx? (·.name == f.name) = some i then (columns f.name).map (f.name, ·) else none) := by
  induction fields generalizing columns i with
  | nil => simp at hf
  | cons field fields ih =>
    cases i with
    | zero =>
      obtain rfl : field = f := by simpa using hf
      simp [takeClaims, List.findIdx?_cons]
    | succ i =>
      rw [List.getElem?_cons_succ] at hf
      rw [takeClaims, List.getElem?_cons_succ, ih hf, List.findIdx?_cons]
      by_cases hname : field.name = f.name
      · simp [hname]
      · simp [hname, Function.update_of_ne (Ne.symm hname)]

/-- The first column of a name takes the claim made under it. -/
theorem takeClaims_first {fields : List Field} {columns : Claims V} {name : String} {i : Nat} {stats : ColumnStatistics V}
    (hi : fields.findIdx? (·.name == name) = some i) (hstats : columns name = some stats) :
    (takeClaims fields columns)[i]? = some (some (name, stats)) := by
  obtain ⟨hlt, hname, -⟩ := List.findIdx?_eq_some_iff_getElem.1 hi
  obtain rfl := beq_iff_eq.1 hname
  rw [takeClaims_at (List.getElem?_eq_getElem hlt), if_pos hi, hstats]
  rfl

section
variable {K : Kernel V} {same : ScalarValue V → ScalarValue V → Bool} {schema : Schema} {split : ScanSplitInfo V}
  {name other : String} {f : Field}

/-- The claim of a row. -/
def rowClaim (K : Kernel V) (numRows : Precision) (target : DataType) (row : StatisticRow V) : ColumnStatistics V where
  nullCount := nullCount numRows row
  distinctCount := distinctCount row
  minValue := inexactValue K row.min target
  maxValue := inexactValue K row.max target

/-- A claim with the bounds of its column. -/
def boundClaim (K : Kernel V) (same : ScalarValue V → ScalarValue V → Bool) (target : DataType)
    (bounds : Option (ScalarValue V) × Option (ScalarValue V)) (column : ColumnStatistics V) : ColumnStatistics V :=
  let min := bounds.1.bind (K.castTo · target)
  let max := bounds.2.bind (K.castTo · target)
  { column with
    minValue := exactValue min
    maxValue := exactValue max
    distinctCount := if singleValue same min max then .exact 1 else column.distinctCount }

theorem claimRow_self (hf : schema.fieldWithName name = some f) (numRows : Precision) (columns : Claims V) (row : StatisticRow V) :
    claimRow K schema numRows columns row name =
      if row.columnName = some name then some (rowClaim K numRows f.dataType row) else columns name := by
  unfold claimRow
  cases hkey : row.columnName with
  | none => simp
  | some key =>
    by_cases hname : key = name
    · subst hname
      simp [hf, rowClaim]
    · cases hfield : schema.fieldWithName key with
      | none => simp [hname, hfield]
      | some field => simp [hname, hfield, Function.update_of_ne (Ne.symm hname)]

/-- The last row of a name is its claim. -/
theorem claimRow_fold (hf : schema.fieldWithName name = some f) (numRows : Precision) (rows : List (StatisticRow V)) :
    rows.foldl (claimRow K schema numRows) (fun _ => none) name =
      (rows.reverse.find? fun row => row.columnName = some name).map (rowClaim K numRows f.dataType) := by
  induction rows using List.reverseRecOn with
  | nil => rfl
  | append_singleton rows row ih =>
    rw [List.foldl_concat, claimRow_self hf, List.reverse_concat, List.find?_cons]
    by_cases hrow : row.columnName = some name
    · simp [hrow]
    · simp [hrow, ih]

theorem boundClaim_boundClaim (target : DataType) (bounds : Option (ScalarValue V) × Option (ScalarValue V))
    (column : ColumnStatistics V) :
    boundClaim K same target bounds (boundClaim K same target bounds column) = boundClaim K same target bounds column := by
  simp only [boundClaim]
  split <;> rfl

theorem claimBound_self (hf : schema.fieldWithName name = some f) (bounds : Bounds V) (columns : Claims V) (key : String) :
    claimBound K same schema bounds columns key name =
      if key = name then (bounds.lookup name).elim (columns name) fun b =>
        some (boundClaim K same f.dataType b ((columns name).getD {})) else columns name := by
  unfold claimBound
  by_cases hname : key = name
  · subst hname
    cases hbound : bounds.lookup key with
    | none => simp [hf]
    | some b => simp [hf, boundClaim]
  · cases hfield : schema.fieldWithName key with
    | none => simp [hname]
    | some field =>
      cases hbound : bounds.lookup key with
      | none => simp [hname]
      | some b => simp [hname, Function.update_of_ne (Ne.symm hname)]

/-- Reading the bounds of a name again changes nothing. -/
theorem claimBound_fold (hf : schema.fieldWithName name = some f) (bounds : Bounds V) (names : List String) (columns : Claims V) :
    names.foldl (claimBound K same schema bounds) columns name =
      if name ∈ names then (bounds.lookup name).elim (columns name) fun b =>
        some (boundClaim K same f.dataType b ((columns name).getD {})) else columns name := by
  induction names generalizing columns with
  | nil => rfl
  | cons key names ih =>
    rw [List.foldl_cons, ih, claimBound_self hf]
    by_cases hname : key = name
    · subst hname
      cases hbound : bounds.lookup key with
      | none => simp
      | some b => simp [boundClaim_boundClaim]
    · simp [hname, Ne.symm hname]

theorem lookup_eq_none_of_not_mem {bounds : Bounds V} (h : name ∉ bounds.map (·.1)) : bounds.lookup name = none := by
  rw [List.lookup_eq_none_iff]
  intro bound hbound
  rw [bne_iff_ne]
  rintro rfl
  exact h (List.mem_map_of_mem hbound)

/-- What is claimed under a projected name: its last row, with its bounds. -/
theorem claims_eq (hf : schema.fieldWithName name = some f) :
    claims K same schema split name =
      (split.boundsOf name).elim ((split.lastRow name).map (rowClaim K (splitRowCount split) f.dataType)) fun b =>
        some (boundClaim K same f.dataType b
          (((split.lastRow name).map (rowClaim K (splitRowCount split) f.dataType)).getD {})) := by
  unfold claims
  rw [claimBound_fold hf, claimRow_fold hf]
  by_cases hname : name ∈ (splitBounds split).map (·.1)
  · rw [if_pos hname]
    rfl
  · rw [if_neg hname, ScanSplitInfo.boundsOf, lookup_eq_none_of_not_mem hname]
    rfl

end

section
variable {K : Kernel V} {same : ScalarValue V → ScalarValue V → Bool} {schema : Schema} {split : ScanSplitInfo V}
  {name other : String} {target : DataType} {f : Field}

theorem nullCountSaid_iff :
    NullCountSaid split other (((split.lastRow name).map (nullCount (splitRowCount split))).getD .absent) ↔
      (∀ row, split.lastRow name = some row → row.hasNull = some false → NullCountSaid split other (.exact 0)) ∧
      ∀ row, split.lastRow name = some row → row.hasNull ≠ some false → row.hasNotNull = some false →
        NullCountSaid split other (splitRowCount split) := by
  cases split.lastRow name with
  | none => simp [NullCountSaid.absent]
  | some row =>
    simp only [Option.map_some, Option.getD_some, Option.some.injEq, forall_eq']
    by_cases hnone : row.hasNull = some false
    · simp [nullCount, hnone]
    · by_cases hall : row.hasNotNull = some false
      · simp [nullCount, hnone, hall]
      · simp [nullCount, hnone, hall, NullCountSaid.absent]

theorem singleValue_iff (bounds : Option (ScalarValue V) × Option (ScalarValue V)) :
    singleValue same (bounds.1.bind (K.castTo · target)) (bounds.2.bind (K.castTo · target)) = true ↔
      ∃ least greatest, ReadAs K target bounds.1 least ∧ ReadAs K target bounds.2 greatest ∧ least.isNull = false ∧
        same least greatest = true := by
  simp only [ReadAs, ← Option.bind_eq_some_iff]
  cases bounds.1.bind (K.castTo · target) with
  | none => simp [singleValue]
  | some least =>
    cases bounds.2.bind (K.castTo · target) with
    | none => simp [singleValue]
    | some greatest => simp [singleValue]

theorem distinctCountSaid_row_iff :
    DistinctCountSaid K same split other target (((split.lastRow name).map distinctCount).getD .absent) ↔
      ∀ row count n, split.lastRow name = some row → row.distinctCount = some count → usizeOf count = some n →
        DistinctCountSaid K same split other target (.inexact n) := by
  cases split.lastRow name with
  | none => simp [DistinctCountSaid.absent]
  | some row =>
    simp only [Option.map_some, Option.getD_some, Option.some.injEq, distinctCount]
    cases hcount : row.distinctCount.bind usizeOf with
    | none =>
      refine iff_of_true .absent ?_
      rintro _ count n rfl hrow hn
      rw [hrow, Option.bind_some, hn] at hcount
      cases hcount
    | some n =>
      obtain ⟨count, hrow, hn⟩ := Option.bind_eq_some_iff.1 hcount
      constructor
      · rintro h _ count' n' rfl hrow' hn'
        rw [hrow'] at hrow
        cases hrow
        rw [hn'] at hn
        cases hn
        exact h
      · exact fun h => h row count n rfl hrow hn

/-- The bounds of a name count as one value, or else its row is asked. -/
theorem distinctCountSaid_iff :
    DistinctCountSaid K same split other target ((split.boundsOf name).elim
        (((split.lastRow name).map distinctCount).getD .absent) fun b =>
          if singleValue same (b.1.bind (K.castTo · target)) (b.2.bind (K.castTo · target)) then .exact 1
          else ((split.lastRow name).map distinctCount).getD .absent) ↔
      (∀ row count n, split.lastRow name = some row → row.distinctCount = some count → usizeOf count = some n →
        ¬ SingleSaid K same split name target → DistinctCountSaid K same split other target (.inexact n)) ∧
      (SingleSaid K same split name target → DistinctCountSaid K same split other target (.exact 1)) := by
  have hrow : ¬ SingleSaid K same split name target →
      (DistinctCountSaid K same split other target (((split.lastRow name).map distinctCount).getD .absent) ↔
        (∀ row count n, split.lastRow name = some row → row.distinctCount = some count → usizeOf count = some n →
          ¬ SingleSaid K same split name target → DistinctCountSaid K same split other target (.inexact n)) ∧
        (SingleSaid K same split name target → DistinctCountSaid K same split other target (.exact 1))) := by
    intro hmany
    rw [distinctCountSaid_row_iff]
    simp only [hmany, not_false_eq_true, forall_const, false_implies, and_true]
  cases hbounds : split.boundsOf name with
  | none =>
    refine hrow ?_
    rintro ⟨bounds, -, -, hsome, -⟩
    rw [hbounds] at hsome
    cases hsome
  | some bounds =>
    have hsingle : SingleSaid K same split name target ↔
        singleValue same (bounds.1.bind (K.castTo · target)) (bounds.2.bind (K.castTo · target)) = true := by
      rw [singleValue_iff, SingleSaid, hbounds]
      simp
    rw [Option.elim_some]
    by_cases hone : SingleSaid K same split name target
    · rw [if_pos (hsingle.1 hone)]
      exact ⟨fun h => ⟨fun _ _ _ _ _ _ hmany => absurd hone hmany, fun _ => h⟩, fun h => h.2 hone⟩
    · rw [if_neg fun hvalue => hone (hsingle.2 hvalue)]
      exact hrow hone

/-- An end of a name is that of its bounds, or of its row where it has none. -/
theorem endSaid_iff {ofRow : StatisticRow V → Option (ScalarValue V)}
    {ofBounds : Option (ScalarValue V) × Option (ScalarValue V) → Option (ScalarValue V)} :
    EndSaid K split other target ofRow ofBounds ((split.boundsOf name).elim
        (((split.lastRow name).map fun row => inexactValue K (ofRow row) target).getD .absent) fun b =>
          exactValue ((ofBounds b).bind (K.castTo · target))) ↔
      (∀ row, split.lastRow name = some row → split.boundsOf name = none → ∀ value, ReadAs K target (ofRow row) value →
        EndSaid K split other target ofRow ofBounds (.inexact value)) ∧
      ∀ bounds, split.boundsOf name = some bounds → ∀ value, ReadAs K target (ofBounds bounds) value →
        EndSaid K split other target ofRow ofBounds (.exact value) := by
  simp only [ReadAs, ← Option.bind_eq_some_iff]
  cases split.boundsOf name with
  | none =>
    cases split.lastRow name with
    | none => simp [EndSaid.absent]
    | some row =>
      cases hvalue : (ofRow row).bind (K.castTo · target) <;> simp [inexactValue, hvalue, EndSaid.absent]
  | some bounds =>
    cases hvalue : (ofBounds bounds).bind (K.castTo · target) <;> simp [exactValue, hvalue, EndSaid.absent]

/-- A claim, statistic by statistic. -/
theorem claims_parts (hf : schema.fieldWithName name = some f) :
    let stats := (claims K same schema split name).getD {}
    stats.nullCount = ((split.lastRow name).map (nullCount (splitRowCount split))).getD .absent ∧
    stats.distinctCount = (split.boundsOf name).elim (((split.lastRow name).map distinctCount).getD .absent) (fun b =>
      if singleValue same (b.1.bind (K.castTo · f.dataType)) (b.2.bind (K.castTo · f.dataType)) then .exact 1
      else ((split.lastRow name).map distinctCount).getD .absent) ∧
    stats.minValue = (split.boundsOf name).elim
      (((split.lastRow name).map fun row => inexactValue K row.min f.dataType).getD .absent)
      (fun b => exactValue (b.1.bind (K.castTo · f.dataType))) ∧
    stats.maxValue = (split.boundsOf name).elim
      (((split.lastRow name).map fun row => inexactValue K row.max f.dataType).getD .absent)
      (fun b => exactValue (b.2.bind (K.castTo · f.dataType))) := by
  rw [claims_eq hf]
  cases split.boundsOf name <;> cases split.lastRow name <;> exact ⟨rfl, rfl, rfl, rfl⟩

/-- What is claimed under a name is said of another column exactly if the plan repeats it there. -/
theorem saidOf_iff (hf : schema.fieldWithName name = some f) :
    SaidOf K same split other f.dataType ((claims K same schema split name).getD {}) ↔
      Repeats K same split name f.dataType other := by
  obtain ⟨hnulls, hdistinct, hmin, hmax⟩ := claims_parts (K := K) hf
  constructor
  · intro h
    obtain ⟨hnone, honly⟩ := nullCountSaid_iff.1 (hnulls ▸ h.nullCount)
    obtain ⟨hrow, hsingle⟩ := distinctCountSaid_iff.1 (hdistinct ▸ h.distinctCount)
    obtain ⟨hrowMin, hboundMin⟩ := endSaid_iff.1 (hmin ▸ h.minValue)
    obtain ⟨hrowMax, hboundMax⟩ := endSaid_iff.1 (hmax ▸ h.maxValue)
    exact {
      noNulls := hnone
      onlyNulls := honly
      distinctCount := hrow
      single := hsingle
      rowEnds := fun row hlast hnone value => ⟨hrowMin row hlast hnone value, hrowMax row hlast hnone value⟩
      boundEnds := fun bounds hbounds value => ⟨hboundMin bounds hbounds value, hboundMax bounds hbounds value⟩ }
  · intro h
    constructor
    · rw [hnulls]
      exact nullCountSaid_iff.2 ⟨h.noNulls, h.onlyNulls⟩
    · rw [hdistinct]
      exact distinctCountSaid_iff.2 ⟨h.distinctCount, h.single⟩
    · rw [hmin]
      exact endSaid_iff.2 ⟨fun row hlast hnone value => (h.rowEnds row hlast hnone value).1,
        fun bounds hbounds value => (h.boundEnds bounds hbounds value).1⟩
    · rw [hmax]
      exact endSaid_iff.2 ⟨fun row hlast hnone value => (h.rowEnds row hlast hnone value).2,
        fun bounds hbounds value => (h.boundEnds bounds hbounds value).2⟩

theorem rowOf_lastRow {row : StatisticRow V} (h : split.lastRow name = some row) : split.RowOf name row := by
  rw [ScanSplitInfo.lastRow] at h
  exact ⟨List.mem_reverse.1 (List.mem_of_find?_eq_some h), by simpa using List.find?_some h⟩

/-- What the plan says of a column it says of that column. -/
theorem repeats_self : Repeats K same split name target name where
  noNulls _ hlast hno := .noNulls (rowOf_lastRow hlast) hno
  onlyNulls _ hlast _ hno := .onlyNulls (rowOf_lastRow hlast) hno
  distinctCount _ _ _ hlast hcount hn _ := .row (rowOf_lastRow hlast) hcount hn
  single hone := .single hone
  rowEnds _ hlast _ _ := ⟨.row (rowOf_lastRow hlast), .row (rowOf_lastRow hlast)⟩
  boundEnds _ hbounds _ := ⟨.bounds hbounds, .bounds hbounds⟩

/-- Of a name the plan does not speak of there is nothing to repeat. -/
theorem repeats_unmentioned (hrow : split.lastRow name = none) (hbounds : split.boundsOf name = none) :
    Repeats K same split name target other := by
  have hmany : ¬ SingleSaid K same split name target := by
    rintro ⟨bounds, -, -, hsome, -⟩
    rw [hbounds] at hsome
    cases hsome
  constructor
  case single => exact fun hone => absurd hone hmany
  case boundEnds =>
    intro bounds hsome
    rw [hbounds] at hsome
    cases hsome
  all_goals
    intro row
    rw [hrow]
  case noNulls => exact fun hsome => nomatch hsome
  case onlyNulls => exact fun hsome => nomatch hsome
  case distinctCount => exact fun _ _ hsome => nomatch hsome
  case rowEnds => exact fun hsome => nomatch hsome

theorem statistics_backing_iff {mapping : Option ColumnMapping} :
    (∀ (i : Nat) f stats, schema.fields[i]? = some f →
      (statisticsForSplit K same schema split).columnStatistics[i]? = some stats →
        SaidOf K same split (workerName mapping f.name) f.dataType stats) ↔
    ∀ f ∈ schema.fields, schema.fieldWithName f.name = some f →
      Repeats K same split f.name f.dataType (workerName mapping f.name) := by
  -- what is attached at a position: the claim, or nothing where the name has an earlier column
  have hat : ∀ {i : Nat} {f : Field}, schema.fields[i]? = some f →
      (statisticsForSplit K same schema split).columnStatistics[i]? =
        some (if schema.indexOf f.name = some i then (claims K same schema split f.name).getD {} else {}) := by
    intro i f hf
    rw [statisticsForSplit, List.getElem?_map, attached, takeClaims_at hf]
    by_cases hfirst : schema.indexOf f.name = some i
    · have hfind : schema.fields.findIdx? (·.name == f.name) = some i := hfirst
      rw [if_pos hfirst, if_pos hfind]
      cases claims K same schema split f.name <;> rfl
    · have hfind : ¬ schema.fields.findIdx? (·.name == f.name) = some i := hfirst
      rw [if_neg hfirst, if_neg hfind]
      rfl
  constructor
  · intro h f _ hfield
    have hindex := hfield
    rw [Schema.fieldWithName_eq] at hindex
    obtain ⟨i, hi, hf⟩ := Option.bind_eq_some_iff.1 hindex
    have hstats := hat hf
    rw [if_pos hi] at hstats
    exact (saidOf_iff hfield).1 (h i f _ hf hstats)
  · intro h i f stats hf hstats
    rw [hat hf] at hstats
    cases hstats
    by_cases hfirst : schema.indexOf f.name = some i
    · rw [if_pos hfirst]
      have hfield : schema.fieldWithName f.name = some f := by rw [Schema.fieldWithName_eq, hfirst, Option.bind_some, hf]
      exact (saidOf_iff hfield).2 (h f (List.mem_of_getElem? hf) hfield)
    · rw [if_neg hfirst]
      exact ⟨.absent, .absent, .absent, .absent⟩

end

/-- **Orderings and statistics are what the worker says of the right columns exactly when the plan is understood and says
the same of the column behind as of the public name.** -/
theorem splitMetadata_iff (K : Kernel V) (same : ScalarValue V → ScalarValue V → Bool) (mapping : Option ColumnMapping)
    (schema : Schema) (planned : PlannedSplits V) :
    DescribesBacking K same mapping schema planned ↔ SpeaksOfBacking K same mapping schema planned := by
  constructor
  · intro h
    refine ⟨splitOrdering_backing_iff.1 h.ordering, ?_⟩
    intro split hsplit
    exact statistics_backing_iff.1 (h.statistics split hsplit)
  · intro h
    refine ⟨splitOrdering_backing_iff.2 h.ordering, ?_⟩
    intro split hsplit
    exact statistics_backing_iff.2 (h.statistics split hsplit)

/-- Columns that keep their names, or that the plan does not speak of, are described right. -/
theorem describes_of_own_names {K : Kernel V} {same : ScalarValue V → ScalarValue V → Bool} {mapping : Option ColumnMapping}
    {schema : Schema} {planned : PlannedSplits V}
    (hordering : ∀ fields, Sorted schema planned fields → ∀ field ∈ fields,
      workerName mapping field.column = field.column ∧ field.Understood)
    (hstatistics : ∀ split ∈ planned.plan.splits, ∀ f ∈ schema.fields, workerName mapping f.name = f.name ∨
      split.lastRow f.name = none ∧ split.boundsOf f.name = none) : DescribesBacking K same mapping schema planned := by
  constructor
  · exact splitOrdering_backing_iff.2 hordering
  · intro split hsplit
    refine statistics_backing_iff.2 fun f hf _ => ?_
    rcases hstatistics split hsplit f hf with hown | ⟨hrow, hbounds⟩
    · rw [hown]
      exact repeats_self
    · exact repeats_unmentioned hrow hbounds

/-- One split, sorted by the worker's column `a`, which holds 1 to 2. -/
def sortedByA : PlannedSplits Int where
  groups := [[0]]
  plan :=
    { splits := [{ estimatedRows := some 2, rowsExact := true, estimatedBytes := none, columnStatistics := none
                   columnBounds := some [("a", some (.atom .int64 (some 1)), some (.atom .int64 (some 2)))]
                   partitionBounds := none }]
      sortOrder := some [⟨"a", "asc", "nulls_last"⟩] }

/-- The worker's `a` is behind the public `c`, but both the ordering and the bounds go to the public `a`. -/
theorem swapped_describes_other : swappedTable.project none = .ok integerColumns ∧
    splitOrdering integerColumns sortedByA = some [⟨"a", 0, false, false⟩] ∧
      workerName swappedTable.columnMapping "c" = "a" ∧
        ¬ DescribesBacking Kernel.integers (fun _ _ => false) swappedTable.columnMapping integerColumns sortedByA := by
  refine ⟨rfl, by decide, by decide, ?_⟩
  intro h
  have hsorted : Sorted integerColumns sortedByA [⟨"a", "asc", "nulls_last"⟩] :=
    ⟨by decide, by decide, rfl, by decide, by decide⟩
  have hown := (splitOrdering_backing_iff.1 h.ordering _ hsorted ⟨"a", "asc", "nulls_last"⟩ (by simp)).1
  exact absurd hown (by decide)

/-- In upper case the words of the worker are taken for the opposite ones. -/
example : splitOrdering integerColumns { sortedByA with
    plan := { sortedByA.plan with sortOrder := some [⟨"a", "DESC", "NULLS_FIRST"⟩] } } = some [⟨"a", 0, false, false⟩] := by
  decide

end VgiDatafusion
