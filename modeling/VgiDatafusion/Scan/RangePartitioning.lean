import Mathlib.Data.List.Dedup
import VgiDatafusion.Library.TopN
import VgiDatafusion.Scan.Packing

/-!
# Range partitioning of a split plan (lib.rs:4084-4178)

| here | there |
| --- | --- |
| `RangeKey`, `TransformSpec`, `FieldPath` | the records of `vgi_protocol`, each a batch of its own inside the one above it |
| `RangeSupport` | reading those batches, `try_from_array`, `LexOrdering::new` and `RangePartitioning::try_new` |
| `Partitioning` | DataFusion's, the two variants a scan uses |
| `ColumnMapping.publicNames` | the filter over the mapping (lib.rs:4131-4133); it has one entry a public name |
| `rangeSortExpr` | one turn of the loop over the keys (lib.rs:4104-4163) |
| `splitRangePartitioning` | `split_range_partitioning` |

`LexOrdering` holds a column once: of several keys over one column it keeps the first. The others order nothing, since rows
that agree on a column agree on it in every direction (`keyRanking_eq`).
-/
namespace VgiDatafusion

/-- The public names the worker's column is mapped from. -/
def ColumnMapping.publicNames (m : ColumnMapping) (worker : String) : List String :=
  (m.map (·.1)).dedup.filter fun name => m.get name == some worker

theorem ColumnMapping.mem_publicNames {m : ColumnMapping} {worker name : String} :
    name ∈ m.publicNames worker ↔ m.get name = some worker := by
  rw [publicNames, List.mem_filter, List.mem_dedup, beq_iff_eq, and_iff_right_iff_imp]
  intro h
  obtain ⟨before, after, hsplit, -⟩ := List.lookup_eq_some_iff.1 h
  have hmem : (name, worker) ∈ m.reverse := by
    rw [hsplit]
    simp
  exact List.mem_map_of_mem (List.mem_reverse.1 hmem)

namespace Packing

open TopN (Ranking)

variable {V : Type}

structure RangeKey where
  transform : Bytes
  direction : String
  nullOrder : String

structure TransformSpec where
  id : String
  inputs : List Bytes
  parameters : Option Bytes

structure FieldPath where
  components : List String

/-- `Column`s are equal if name and index are. -/
def sameColumn (a b : PhysicalSortExpr) : Bool := a.column == b.column && a.index == b.index

/-- What the library does with the batches of a range partitioning. -/
structure RangeSupport (V : Type) extends BatchReader V where
  rangeKey : RecordBatch V → Option RangeKey
  transformSpec : RecordBatch V → Option TransformSpec
  fieldPath : RecordBatch V → Option FieldPath
  tryFromArray : Column V → Nat → Option (ScalarValue V)
  tryFromArray_dataType : ∀ {column row value}, tryFromArray column row = some value → value.dataType = column.dataType
  lexOrdering : List PhysicalSortExpr → Option (List PhysicalSortExpr)
  lexOrdering_nil : lexOrdering [] = none
  lexOrdering_some : ∀ {exprs ordering}, lexOrdering exprs = some ordering → ordering = exprs.eraseDupsBy sameColumn
  /-- `RangePartitioning::try_new` succeeds; it keeps what it is given. -/
  accepts : List PhysicalSortExpr → List (List (ScalarValue V)) → Bool

/-- DataFusion's `Partitioning`, the two variants that a scan uses. -/
inductive Partitioning (V : Type)
  | unknownPartitioning (partitions : Nat)
  | range (ordering : List PhysicalSortExpr) (splitPoints : List (List (ScalarValue V)))

/-- `n` points split the rows into `n + 1` ranges. -/
def Partitioning.partitionCount : Partitioning V → Nat
  | .unknownPartitioning partitions => partitions
  | .range _ splitPoints => splitPoints.length + 1

/-- The name that the mapping gives the worker's column (`lib.rs:4129-4141`); there must be exactly one. -/
def publicName (mapping : Option ColumnMapping) (remoteName : String) : Option String :=
  match mapping with
  | some mapping => match mapping.publicNames remoteName with
    | [name] => some name
    | _ => none
  | none => some remoteName

/-- The word of a key's direction (`lib.rs:4149-4153`); any other refuses the partitioning. -/
def descending (direction : String) : Option Bool :=
  if direction = "ASC" then some false else if direction = "DESC" then some true else none

/-- The word for the place of NULLs (`lib.rs:4154-4158`); any other refuses the partitioning. -/
def nullsFirst (nullOrder : String) : Option Bool :=
  if nullOrder = "NULLS_FIRST" then some true else if nullOrder = "NULLS_LAST" then some false else none

section
variable (S : RangeSupport V)

/-- The one column that an identity transform reads (`lib.rs:4112-4127`). -/
def identityInput (key : RangeKey) : Option String := do
  let transformBatch ← S.readBatch key.transform
  let transform ← S.transformSpec transformBatch
  if transform.id ≠ "vgi.identity/1" ∨ transform.parameters.isSome = true then none
  else match transform.inputs with
    | [input] => do
      let pathBatch ← S.readBatch input
      let path ← S.fieldPath pathBatch
      match path.components with
      | [remoteName] => some remoteName
      | _ => none
    | _ => none

variable (schema remoteBindSchema : Schema) (mapping : Option ColumnMapping)

/-- One turn of the loop over the keys (`lib.rs:4104-4163`). -/
def rangeSortExpr (points : RecordBatch V) (entry : Bytes × Nat) : Option PhysicalSortExpr := do
  let keyBatch ← S.readBatch entry.1
  let key ← S.rangeKey keyBatch
  let remoteName ← identityInput S key
  let remote ← remoteBindSchema.fieldWithName remoteName
  let name ← publicName mapping remoteName
  let index ← schema.indexOf name
  let field ← schema.fields[index]?
  let column ← points.columns[entry.2]?
  if remote.dataType ≠ field.dataType ∨ column.dataType ≠ remote.dataType then none
  else do
    let descending ← descending key.direction
    let nullsFirst ← nullsFirst key.nullOrder
    some { column := name, index, descending, nullsFirst }

/-- The split points, one row each (`lib.rs:4166-4175`). -/
def splitPoints (points : RecordBatch V) : Option (List (List (ScalarValue V))) :=
  (List.range points.rows).mapM fun row => points.columns.mapM (S.tryFromArray · row)

/-- `split_range_partitioning` (`lib.rs:4090-4178`). -/
def splitRangePartitioning (planned : PlannedSplits V) : Option (Partitioning V) :=
  if !planned.rangeGrouped then none
  else do
    let range ← planned.plan.rangePartitioning
    let points ← S.readBatch range.splitPoints
    if points.columns.length ≠ range.keys.length ∨ min (points.rows + 1) usizeMax ≠ planned.groups.length then none
    else do
      let exprs ← range.keys.zipIdx.mapM (rangeSortExpr S schema remoteBindSchema mapping points)
      let ordering ← S.lexOrdering exprs
      let values ← splitPoints S points
      if S.accepts ordering values then some (.range ordering values) else none

end

/-! ## The order of the keys -/

/-- How one expression orders two rows, given the order of each column's values. -/
def keyRanking (values : Nat → Ranking V) (expr : PhysicalSortExpr) : Ranking (List (Option V)) :=
  ((if expr.descending then (values expr.index).reverse else values expr.index).withNone expr.nullsFirst).comap
    fun row => row[expr.index]?.join

/-- Rows tie if they agree on the column, whatever its direction. -/
theorem keyRanking_tied {values : Nat → Ranking V} {expr : PhysicalSortExpr} {x y : List (Option V)} :
    (keyRanking values expr).Tied x y ↔ match x[expr.index]?.join, y[expr.index]?.join with
      | some a, some b => (values expr.index).Tied a b
      | none, none => True
      | _, _ => False := by
  simp only [keyRanking, Ranking.Tied, Ranking.comap]
  cases x[expr.index]?.join <;> cases y[expr.index]?.join
  · simp [Ranking.withNone]
  · simp [Ranking.withNone]
  · simp [Ranking.withNone]
  · cases expr.descending
    · simp [Ranking.withNone]
    · simp [Ranking.withNone, Ranking.reverse, and_comm]

/-- Keeping each column once leaves the order of the rows as it is. -/
theorem keyRanking_eq (values : Nat → Ranking V) (exprs : List PhysicalSortExpr) (x y : List (Option V)) :
    (Ranking.lexAll (keyRanking values) (exprs.eraseDupsBy sameColumn)).le x y ↔
      (Ranking.lexAll (keyRanking values) exprs).le x y := by
  refine Ranking.lexAll_eraseDupsBy ?_ x y exprs
  intro b c x y hsame htied
  have hindex : c.index = b.index := by
    simp only [sameColumn, Bool.and_eq_true, beq_iff_eq] at hsame
    exact hsame.2
  rw [keyRanking_tied, hindex]
  exact keyRanking_tied.1 htied

/-! ## What a claimed range says -/

/-- The rows of this public column are read under a name of the mapping, or there is no mapping. -/
def Mapped (mapping : Option ColumnMapping) (name : String) : Prop := ∀ m ∈ mapping, (m.get name).isSome = true

/-- An identity transform of one column of the worker. -/
structure IdentityKey (S : RangeSupport V) (encoded : Bytes) (key : RangeKey) (remoteName : String) : Prop where
  decoded : (S.readBatch encoded).bind S.rangeKey = some key
  identity : ∃ transform input path, (S.readBatch key.transform).bind S.transformSpec = some transform ∧
    transform.id = "vgi.identity/1" ∧ transform.parameters = none ∧ transform.inputs = [input] ∧
    (S.readBatch input).bind S.fieldPath = some path ∧ path.components = [remoteName]

/-- A key and the expression it is exposed as. -/
structure TakenOver (S : RangeSupport V) (schema remoteBindSchema : Schema) (mapping : Option ColumnMapping)
    (points : RecordBatch V) (entry : Bytes × Nat) (expr : PhysicalSortExpr) (key : RangeKey) (remoteName : String) : Prop
    extends IdentityKey S entry.1 key remoteName where
  backed : workerName mapping expr.column = remoteName
  only : ∀ name, Mapped mapping name → workerName mapping name = remoteName → name = expr.column
  index : schema.indexOf expr.column = some expr.index
  types : ∃ remote field column, remoteBindSchema.fieldWithName remoteName = some remote ∧
    schema.fields[expr.index]? = some field ∧ points.columns[entry.2]? = some column ∧
    remote.dataType = field.dataType ∧ column.dataType = field.dataType
  direction : (key.direction = "ASC" ∧ expr.descending = false) ∨ (key.direction = "DESC" ∧ expr.descending = true)
  nullOrder : (key.nullOrder = "NULLS_FIRST" ∧ expr.nullsFirst = true) ∨
    (key.nullOrder = "NULLS_LAST" ∧ expr.nullsFirst = false)

section
variable {S : RangeSupport V} {schema remoteBindSchema : Schema} {mapping : Option ColumnMapping}

theorem publicName_spec {remoteName name : String} (h : publicName mapping remoteName = some name) :
    workerName mapping name = remoteName ∧ ∀ other, Mapped mapping other → workerName mapping other = remoteName →
      other = name := by
  unfold publicName at h
  cases mapping with
  | none =>
    cases h
    exact ⟨rfl, fun other _ hother => hother⟩
  | some m =>
    dsimp only at h
    split at h
    case h_2 => cases h
    case h_1 found hfound =>
      cases h
      have hiff : ∀ other, m.get other = some remoteName ↔ other = name := by
        intro other
        rw [← ColumnMapping.mem_publicNames, hfound, List.mem_singleton]
      refine ⟨by simp [workerName, (hiff name).2 rfl], ?_⟩
      intro other hmapped hother
      obtain ⟨worker, hworker⟩ := Option.isSome_iff_exists.1 (hmapped m rfl)
      rw [← hiff, hworker]
      simpa [workerName, hworker] using hother

theorem identityInput_spec {encoded : Bytes} {key : RangeKey} {remoteName : String}
    (hkey : (S.readBatch encoded).bind S.rangeKey = some key) (h : identityInput S key = some remoteName) :
    IdentityKey S encoded key remoteName := by
  refine ⟨hkey, ?_⟩
  simp only [identityInput, Option.bind_eq_bind, Option.bind_eq_some_iff] at h
  obtain ⟨transformBatch, htransformBatch, transform, htransform, h⟩ := h
  split at h
  case isTrue => cases h
  case isFalse hid =>
    split at h
    case h_2 => cases h
    case h_1 input hinputs =>
      simp only [Option.bind_eq_some_iff] at h
      obtain ⟨pathBatch, hpathBatch, path, hpath, h⟩ := h
      split at h
      case h_2 => cases h
      case h_1 name hcomponents =>
        cases h
        simp only [ne_eq, not_or, not_not, Bool.not_eq_true, Option.isSome_eq_false_iff, Option.isNone_iff_eq_none] at hid
        exact ⟨transform, input, path, by rw [htransformBatch]; exact htransform, hid.1, hid.2, hinputs,
          by rw [hpathBatch]; exact hpath, hcomponents⟩

theorem descending_spec {direction : String} {value : Bool} (h : descending direction = some value) :
    (direction = "ASC" ∧ value = false) ∨ (direction = "DESC" ∧ value = true) := by
  unfold descending at h
  split at h
  · simp_all
  · split at h <;> simp_all

theorem nullsFirst_spec {nullOrder : String} {value : Bool} (h : nullsFirst nullOrder = some value) :
    (nullOrder = "NULLS_FIRST" ∧ value = true) ∨ (nullOrder = "NULLS_LAST" ∧ value = false) := by
  unfold nullsFirst at h
  split at h
  · simp_all
  · split at h <;> simp_all

theorem rangeSortExpr_spec {points : RecordBatch V} {entry : Bytes × Nat} {expr : PhysicalSortExpr}
    (h : rangeSortExpr S schema remoteBindSchema mapping points entry = some expr) :
    ∃ key remoteName, TakenOver S schema remoteBindSchema mapping points entry expr key remoteName := by
  simp only [rangeSortExpr, Option.bind_eq_bind, Option.bind_eq_some_iff] at h
  obtain ⟨keyBatch, hkeyBatch, key, hkey, remoteName, hinput, remote, hremote, name, hname, index, hindex, field, hfield,
    column, hcolumn, h⟩ := h
  split at h
  case isTrue => cases h
  case isFalse htypes =>
    simp only [Option.bind_eq_some_iff, Option.some.injEq] at h
    obtain ⟨descending, hdescending, nullsFirst, hnulls, rfl⟩ := h
    simp only [ne_eq, not_or, not_not] at htypes
    obtain ⟨hbacked, honly⟩ := publicName_spec hname
    have hdecoded : (S.readBatch entry.1).bind S.rangeKey = some key := by rw [hkeyBatch]; exact hkey
    exact ⟨key, remoteName, { identityInput_spec hdecoded hinput with
      backed := hbacked
      only := honly
      index := hindex
      types := ⟨remote, field, column, hremote, hfield, hcolumn, htypes.1, htypes.2.trans htypes.1⟩
      direction := descending_spec hdescending
      nullOrder := nullsFirst_spec hnulls }⟩

/-- What exposing a range partitioning says about the plan. -/
structure RangeClaimed (S : RangeSupport V) (schema remoteBindSchema : Schema) (mapping : Option ColumnMapping)
    (planned : PlannedSplits V) (ordering : List PhysicalSortExpr) (splitPoints : List (List (ScalarValue V))) : Prop where
  grouped : planned.rangeGrouped = true
  count : planned.groups.length = splitPoints.length + 1
  keys : ∃ range points exprs, planned.plan.rangePartitioning = some range ∧ S.readBatch range.splitPoints = some points ∧
    points.rows = splitPoints.length ∧ points.columns.length = range.keys.length ∧
    List.Forall₂ (fun entry expr => ∃ key remoteName, TakenOver S schema remoteBindSchema mapping points entry expr key remoteName)
      range.keys.zipIdx exprs ∧
    ordering = exprs.eraseDupsBy sameColumn ∧ ordering ≠ [] ∧
    ∀ (values : Nat → Ranking V) x y,
      (Ranking.lexAll (keyRanking values) ordering).le x y ↔ (Ranking.lexAll (keyRanking values) exprs).le x y

theorem splitRangePartitioning_spec {planned : PlannedSplits V} {partitioning : Partitioning V}
    (h : splitRangePartitioning S schema remoteBindSchema mapping planned = some partitioning) :
    ∃ ordering values, partitioning = .range ordering values ∧
      RangeClaimed S schema remoteBindSchema mapping planned ordering values := by
  unfold splitRangePartitioning at h
  rw [Option.ite_none_left_eq_some] at h
  obtain ⟨hgrouped, h⟩ := h
  simp only [Option.bind_eq_bind, Option.bind_eq_some_iff] at h
  obtain ⟨range, hrange, points, hpoints, h⟩ := h
  rw [Option.ite_none_left_eq_some] at h
  obtain ⟨hshape, h⟩ := h
  simp only [Option.bind_eq_some_iff] at h
  obtain ⟨exprs, hexprs, ordering, hordering, values, hvalues, h⟩ := h
  rw [Option.ite_none_right_eq_some] at h
  obtain ⟨-, h⟩ := h
  cases h
  simp only [ne_eq, not_or, not_not] at hshape
  have hlength : points.rows = values.length := by
    have hall := (ListFacts.mapM_some_iff.1 hvalues).length_eq
    rwa [List.length_range] at hall
  have hrows := S.rows_i64 _ _ hpoints
  refine ⟨ordering, values, rfl, ?_⟩
  refine ⟨by simpa using hgrouped, ?_, ?_⟩
  · rw [← hshape.2, ← hlength]
    simp only [i64Max] at hrows
    simp only [usizeMax]
    omega
  · refine ⟨range, points, exprs, hrange, hpoints, hlength, hshape.1, ?_, S.lexOrdering_some hordering, ?_, ?_⟩
    · exact (ListFacts.mapM_some_iff.1 hexprs).imp fun _ _ => rangeSortExpr_spec
    · rintro rfl
      cases exprs with
      | nil =>
        rw [S.lexOrdering_nil] at hordering
        cases hordering
      | cons expr exprs =>
        have hnil := S.lexOrdering_some hordering
        rw [List.eraseDupsBy_cons] at hnil
        cases hnil
    · intro values x y
      rw [S.lexOrdering_some hordering]
      exact keyRanking_eq values exprs x y

end

end Packing

end VgiDatafusion
