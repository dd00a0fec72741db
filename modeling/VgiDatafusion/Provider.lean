import VgiDatafusion.Filters.Pushdown

/-!
# The table provider (lib.rs:949-1042, 2034-2190)

| here | there |
| --- | --- |
| `TableProvider` | `VgiTableProvider`, the fields its planning methods read |
| `ColumnMapping` | `HashMap<String, String>` from catalog to bind column names |
| `withDeclaredSchema` | `VgiTableProvider::with_declared_schema` (lib.rs:1013-1042) |
| `supportsFiltersPushdown` | lib.rs:2066-2085 |
| `project`, `scanPushdown`, `cacheStorageSchema` | the parts of `scan` (lib.rs:2087-2183) named there `projected`, `pushdown`, `cache_storage_schema` |

Connection, call coordinates and cache identity are in `Scan/Keys.lean`; statistics pruning and the
split plan do not touch what is modelled here.
-/
namespace VgiDatafusion

/-- Catalog name to bind name, in insertion order; a later pair replaces an earlier one. -/
abbrev ColumnMapping := List (String × String)

/-- The last entry of a name counts, as in a `HashMap` that is filled in this order. -/
def ColumnMapping.get (m : ColumnMapping) (name : String) : Option String := m.reverse.lookup name

/-- `column_mapping.and_then(|m| m.get(name)).unwrap_or(name)`. -/
def workerName (mapping : Option ColumnMapping) (name : String) : String :=
  (mapping.bind (·.get name)).getD name

/-- `VgiTableProvider`, the fields that its planning methods read (`lib.rs:949-1012`). -/
structure TableProvider where
  outputSchema : Schema
  /-- `statistics_bind.output_schema()`: what the worker bound. -/
  bindSchema : Schema
  columnMapping : Option ColumnMapping := none
  projectionPushdown : Bool
  filterPushdown : Option Bool
  filtersExactlyApplied : Bool
  cardinalityEstimate : Option Int
  cardinalityMax : Option Int
  deriving DecidableEq, Repr

namespace TableProvider

inductive PlanError
  /-- "VGI catalog schema … is incompatible with scan bind schema …". -/
  | incompatible (declared bound : Schema)
  /-- `Schema::project`: an index past the last field. -/
  | projection (index : Nat)
  deriving DecidableEq, Repr

/-- Same number of columns, same types position by position. -/
def compatible (bound declared : Schema) : Bool :=
  bound.fields.length == declared.fields.length &&
    (bound.fields.zip declared.fields).all fun (b, c) => b.dataType == c.dataType

/-- `VgiTableProvider::with_declared_schema` (`lib.rs:1014-1042`). -/
def withDeclaredSchema (t : TableProvider) (declared : Schema) : Except PlanError TableProvider :=
  if compatible t.outputSchema declared then
    .ok { t with
      columnMapping := some ((declared.fields.zip t.outputSchema.fields).map fun (c, b) => (c.name, b.name))
      outputSchema := declared }
  else .error (.incompatible declared t.outputSchema)

inductive FilterPushDown
  | unsupported | inexact | exact
  deriving DecidableEq, Repr

variable {V : Type} (K : Kernel V)

/-- The answer for one filter. -/
def filterSupport (t : TableProvider) (f : Expr V) : FilterPushDown :=
  if isPushable K t.outputSchema f then
    if t.filterPushdown ≠ some false ∧ t.filtersExactlyApplied then .exact else .inexact
  else .unsupported

/-- `VgiTableProvider::supports_filters_pushdown` (`lib.rs:2066-2085`). -/
def supportsFiltersPushdown (t : TableProvider) (filters : List (Expr V)) : List FilterPushDown :=
  filters.map (t.filterSupport K)

/-- A worker that declined filter pushdown gets no wire filter. -/
def scanPushdown (t : TableProvider) (filters : List (Expr V)) : Option (WirePushdown V) :=
  if t.filterPushdown = some false then some {} else serialize K t.outputSchema filters

/-- One step of `Schema::project`. -/
def fieldAt (s : Schema) (i : Nat) : Except PlanError Field :=
  match s.fields[i]? with
  | some f => .ok f
  | none => .error (.projection i)

/-- `Schema::project`. -/
def projectSchema (s : Schema) (projection : List Nat) : Except PlanError Schema :=
  (projection.mapM (fieldAt s)).map fun fields => { s with fields }

/-- `projected`. -/
def project (t : TableProvider) : Option (List Nat) → Except PlanError Schema
  | none => .ok t.outputSchema
  | some p => projectSchema t.outputSchema p

/-- What a captured batch is conformed to before it is stored. -/
def cacheStorageSchema (t : TableProvider) (projected : Schema) : Schema :=
  if t.projectionPushdown then projected else t.outputSchema

end TableProvider

/-- A provider whose declared schema renames the bind columns positionally: what
`withDeclaredSchema` makes of a freshly bound one. -/
structure Renamed (t : TableProvider) : Prop where
  compatible : TableProvider.compatible t.bindSchema t.outputSchema = true
  mapping : t.columnMapping =
    some ((t.outputSchema.fields.zip t.bindSchema.fields).map fun (c, b) => (c.name, b.name))

theorem withDeclaredSchema_renamed {t t' : TableProvider} {declared : Schema}
    (hbound : t.outputSchema = t.bindSchema) (h : t.withDeclaredSchema declared = .ok t') : Renamed t' := by
  unfold TableProvider.withDeclaredSchema at h
  split at h
  · rename_i hcompatible
    cases h
    exact ⟨by simpa [hbound] using hcompatible, by simp [hbound]⟩
  · cases h

theorem renamed_length {t : TableProvider} (ht : Renamed t) : t.bindSchema.fields.length = t.outputSchema.fields.length := by
  have h := ht.compatible
  simp only [TableProvider.compatible, Bool.and_eq_true, beq_iff_eq] at h
  exact h.1

/-! ## Two small tables -/

/-- Three nullable integer columns. -/
def integerColumns : Schema :=
  ⟨[⟨"a", .int64, true, []⟩, ⟨"b", .int64, true, []⟩, ⟨"c", .int64, true, []⟩], []⟩

/-- A table over them whose worker applies its filters exactly. -/
def exactTable : TableProvider where
  outputSchema := integerColumns
  bindSchema := integerColumns
  projectionPushdown := false
  filterPushdown := some true
  filtersExactlyApplied := true
  cardinalityEstimate := none
  cardinalityMax := none

/-- Public columns `a, b, c` over the worker's `c, b, a`. -/
def swappedTable : TableProvider :=
  { exactTable with
    bindSchema := ⟨integerColumns.fields.reverse, []⟩
    columnMapping := some [("a", "c"), ("b", "b"), ("c", "a")] }

theorem swappedTable_renamed : Renamed swappedTable := by
  have hdeclared : { swappedTable with outputSchema := swappedTable.bindSchema, columnMapping := none }.withDeclaredSchema
      integerColumns = .ok swappedTable := by decide
  exact withDeclaredSchema_renamed rfl hdeclared

end VgiDatafusion
