import VgiDatafusion.Library.TopN
import VgiDatafusion.Provider

/-!
# Logical plans and their rows

| here | there |
| --- | --- |
| `OrderBy`, `SortDirection`, `NullOrder` | the hint of `vgi_client` (order_pushdown.rs:33) |
| `Source` | `scan.source`: a `VgiTableProvider` with its `order_by`, or any other provider |
| `LogicalPlan` | the operators `hint_logical_input` knows, and `other` for the rest |
| `Produces` | what DataFusion computes: the rows a plan may give |

A plan's operators are DataFusion's. How it finds a column (`Column.index`, qualifier first) and what an operator gives are
stated here in positions, not names, so that the hints' tracing by name has something to be compared with. Expressions that
are neither a column nor an alias, and operators outside the list, are parameters (`F`, `O`) with a meaning in `Meaning`.

A scan's rows are the worker's, by the worker's column names, and are emitted under the public ones (`TableScan.row`). A
plan is run in an environment that gives the rows of the scan at each path. The order in which rows arrive is open, and so
is the order of tied rows of a sort; a sort that keeps `fetch` rows gives any `TopN.Top`.
-/
namespace VgiDatafusion.Order

open TopN

/-- Child indices from the root. -/
abbrev Path := List Nat

/-! ## The hint -/

inductive SortDirection
  | ascending | descending
  deriving DecidableEq, Repr

inductive NullOrder
  | first | last
  deriving DecidableEq, Repr

/-- The hint of `vgi_client` (`order_pushdown.rs:33`): one column, a direction and a limit. -/
structure OrderBy where
  column : String
  direction : SortDirection
  nullOrder : NullOrder
  limit : Option Nat
  deriving DecidableEq, Repr

/-! ## Plans -/

/-- `Q` is the type of table references. -/
structure Column (Q : Type) where
  relation : Option Q
  name : String

structure DFField (Q : Type) where
  qualifier : Option Q
  name : String

/-- DataFusion's `Expr`, as far as `direct_column` (`order_pushdown.rs:215-224`) takes it apart. -/
inductive Expr (Q F : Type)
  | column (column : Column Q)
  | aliased (expr : Expr Q F) (name : String)
  | other (expr : F)

structure SortExpr (Q F : Type) where
  expr : Expr Q F
  asc : Bool
  nullsFirst : Bool

structure Projection (Q F : Type) where
  exprs : List (Expr Q F)
  schema : List (DFField Q)
  fits : schema.length = exprs.length

/-- `scan.source`: a `VgiTableProvider` with its `order_by`, or any other provider. -/
inductive Source
  | vgi (provider : TableProvider) (orderBy : Option OrderBy)
  | other (schema : Schema)

structure TableScan (Q F : Type) where
  tableName : Q
  source : Source
  projection : Option (List Nat)
  filters : List (Expr Q F)

/-- The operators that `hint_logical_input` (`order_pushdown.rs:146-213`) knows, and `other` for the rest. -/
inductive LogicalPlan (Q F O : Type)
  | tableScan (scan : TableScan Q F)
  | filter (predicate : Expr Q F) (input : LogicalPlan Q F O)
  | projection (projection : Projection Q F) (input : LogicalPlan Q F O)
  | repartition (input : LogicalPlan Q F O)
  | subqueryAlias (name : Q) (input : LogicalPlan Q F O)
  | sort (expr : List (SortExpr Q F)) (fetch : Option Nat) (input : LogicalPlan Q F O)
  | other (operator : O) (schema : List (DFField Q)) (inputs : List (LogicalPlan Q F O))

variable {Q F O α : Type}

namespace Source

def schema : Source → Schema
  | vgi provider _ => provider.outputSchema
  | other schema => schema

def columnMapping : Source → Option ColumnMapping
  | vgi provider _ => provider.columnMapping
  | other _ => none

def orderBy : Source → Option OrderBy
  | vgi _ orderBy => orderBy
  | other _ => none

end Source

/-- The public names of the projected columns. -/
def TableScan.names (scan : TableScan Q F) : List String :=
  match scan.projection with
  | none => scan.source.schema.names
  | some projection => projection.filterMap (scan.source.schema.names[·]?)

/-- The worker's name for a public one. -/
def TableScan.remote (scan : TableScan Q F) (name : String) : String := workerName scan.source.columnMapping name

namespace LogicalPlan

def children : LogicalPlan Q F O → List (LogicalPlan Q F O)
  | tableScan _ => []
  | filter _ input | projection _ input | repartition input | subqueryAlias _ input | sort _ _ input => [input]
  | other _ _ inputs => inputs

def nodeAt (plan : LogicalPlan Q F O) : Path → Option (LogicalPlan Q F O)
  | [] => some plan
  | i :: path => match plan.children[i]? with
    | some child => child.nodeAt path
    | none => none

/-- An alias qualifies the columns anew and keeps their names. -/
def schema : LogicalPlan Q F O → List (DFField Q)
  | tableScan scan => scan.names.map fun name => ⟨some scan.tableName, name⟩
  | projection p _ => p.schema
  | subqueryAlias name input => input.schema.map fun field => ⟨some name, field.name⟩
  | filter _ input | repartition input | sort _ _ input => input.schema
  | other _ schema _ => schema

/-- No projection of the plan has two columns of one name. -/
def UniqueNames (plan : LogicalPlan Q F O) : Prop :=
  ∀ path p input, plan.nodeAt path = some (.projection p input) → (p.schema.map (·.name)).Nodup

end LogicalPlan

/-! ## Rows -/

/-- Values by position; `none` is NULL. -/
abbrev Row (α : Type) := List (Option α)

/-- Values by the worker's column names. -/
abbrev WorkerRow (α : Type) := String → Option α

/-- What the plan's references, expressions and operators mean. -/
structure Meaning (Q F O α : Type) where
  /-- `TableReference::resolved_eq`. -/
  resolvedEq : Q → Q → Bool
  compute : F → List (DFField Q) → Row α → Option α
  keeps : Option α → Bool
  operator : O → List (List (Row α)) → List (Row α) → Prop
  /-- The order of the values other than NULL. -/
  values : Ranking α

variable (M : Meaning Q F O α)

/-- A column names a field by its name, and by its qualifier if it has one. -/
def Column.matches (column : Column Q) (field : DFField Q) : Bool :=
  match column.relation, field.qualifier with
  | some relation, some qualifier => M.resolvedEq relation qualifier && field.name == column.name
  | some _, none => false
  | none, _ => field.name == column.name

/-- `DFSchema::index_of_column_by_name`: the first match. -/
def Column.index (schema : List (DFField Q)) (column : Column Q) : Option Nat := schema.findIdx? (column.matches M)

namespace Expr

/-- Planning fails unless every column is found. -/
def Resolves (schema : List (DFField Q)) : Expr Q F → Prop
  | column c => (c.index M schema).isSome = true
  | aliased expr _ => expr.Resolves schema
  | other _ => True

def eval (schema : List (DFField Q)) (row : Row α) : Expr Q F → Option α
  | column c => ((c.index M schema).bind (row[·]?)).getD none
  | aliased expr _ => expr.eval schema row
  | other expr => M.compute expr schema row

/-- The column an expression passes on unchanged. -/
def passes : Expr Q F → Option (Column Q)
  | column c => some c
  | aliased expr _ => expr.passes
  | other _ => none

end Expr

/-- Ascending or not, and with NULLs first or last. -/
def ranking (values : Ranking α) (ascending nullsFirst : Bool) : Ranking (Option α) :=
  (if ascending then values else values.reverse).withNone nullsFirst

def SortExpr.ranking (schema : List (DFField Q)) (key : SortExpr Q F) : Ranking (Row α) :=
  (Order.ranking M.values key.asc key.nullsFirst).comap fun row => key.expr.eval M schema row

/-- By the first key, ties by the next. -/
def sortRanking (schema : List (DFField Q)) : List (SortExpr Q F) → Ranking (Row α)
  | [] => .trivial
  | key :: keys => (key.ranking M schema).lex (sortRanking schema keys)

/-- The order a hint asks the worker for. -/
def OrderBy.ranking (values : Ranking α) (hint : OrderBy) : Ranking (WorkerRow α) :=
  (Order.ranking values (hint.direction == .ascending) (hint.nullOrder == .first)).comap fun row => row hint.column

/-- The worker's row under the public names. -/
def TableScan.row (scan : TableScan Q F) (row : WorkerRow α) : Row α := scan.names.map fun name => row (scan.remote name)

/-- The rows of each scan, by its path. -/
abbrev Env (α : Type) := Path → List (WorkerRow α)

def Env.below (env : Env α) (i : Nat) : Env α := fun path => env (i :: path)

/-- The results a plan may have. -/
inductive Produces : Env α → LogicalPlan Q F O → List (Row α) → Prop
  | tableScan {env : Env α} {scan out} (hout : out.Perm ((env []).map scan.row)) : Produces env (.tableScan scan) out
  | filter {env : Env α} {predicate input rows} (hrows : Produces (env.below 0) input rows) :
    Produces env (.filter predicate input) (rows.filter fun row => M.keeps (predicate.eval M input.schema row))
  | projection {env : Env α} {p : Projection Q F} {input rows} (hresolves : ∀ expr ∈ p.exprs, expr.Resolves M input.schema)
    (hrows : Produces (env.below 0) input rows) :
    Produces env (.projection p input) (rows.map fun row => p.exprs.map (·.eval M input.schema row))
  | repartition {env : Env α} {input rows out} (hrows : Produces (env.below 0) input rows) (hout : out.Perm rows) :
    Produces env (.repartition input) out
  | subqueryAlias {env : Env α} {name input rows} (hrows : Produces (env.below 0) input rows) :
    Produces env (.subqueryAlias name input) rows
  | sort {env : Env α} {keys fetch input rows out} (hresolves : ∀ key ∈ keys, key.expr.Resolves M input.schema)
    (hrows : Produces (env.below 0) input rows)
    (hout : Top (sortRanking M input.schema keys) (fetch.getD rows.length) rows out) :
    Produces env (.sort keys fetch input) out
  | other {env : Env α} {operator schema inputs rows out} (hlength : rows.length = inputs.length)
    (hrows : ∀ (i : Nat) input out, inputs[i]? = some input → rows[i]? = some out → Produces (env.below i) input out)
    (hout : M.operator operator rows out) : Produces env (.other operator schema inputs) out

/-! ## Where a column comes from -/

/-- The worker's column that a plan's column at a position passes on, if all that lies between hands it through. -/
def LogicalPlan.origin : LogicalPlan Q F O → Nat → Option String
  | .tableScan scan, i => (scan.names[i]?).map scan.remote
  | .filter _ input, i | .repartition input, i | .subqueryAlias _ input, i => input.origin i
  | .projection p input, i =>
    match ((p.exprs[i]?).bind Expr.passes).bind (Column.index M input.schema) with
    | some j => input.origin j
    | none => none
  | .sort _ _ _, _ | .other _ _ _, _ => none

/-- A plan that hands on the rows of one scan, each once: nothing but projections, repartitionings and aliases in between. -/
inductive RowWise (scan : TableScan Q F) : LogicalPlan Q F O → Path → Prop
  | tableScan : RowWise scan (.tableScan scan) []
  | projection {p input path} (h : RowWise scan input path) : RowWise scan (.projection p input) (0 :: path)
  | repartition {input path} (h : RowWise scan input path) : RowWise scan (.repartition input) (0 :: path)
  | subqueryAlias {name input path} (h : RowWise scan input path) : RowWise scan (.subqueryAlias name input) (0 :: path)

variable {M} {scan : TableScan Q F} {input : LogicalPlan Q F O} {path : Path} {g : WorkerRow α → Row α} {env : Env α}

/-- The plan gives the image of each row of the scan at the path, and cannot fail on other rows. -/
structure Streams (M : Meaning Q F O α) (input : LogicalPlan Q F O) (path : Path) (g : WorkerRow α → Row α) : Prop where
  reads : ∀ {env out}, Produces M env input out → out.Perm ((env path).map g)
  gives : ∀ {env out}, Produces M env input out → ∀ env', Produces M env' input ((env' path).map g)

/-- The image has the worker's value where its column is passed on. -/
def Carries (M : Meaning Q F O α) (input : LogicalPlan Q F O) (g : WorkerRow α → Row α) : Prop :=
  ∀ i name, input.origin M i = some name → ∀ row, (g row)[i]? = some (row name)

namespace Streams

theorem tableScan (scan : TableScan Q F) : Streams M (O := O) (.tableScan scan) [] scan.row := by
  constructor
  · intro env out h
    cases h with
    | tableScan hout => exact hout
  · intro env out _ env'
    exact .tableScan (List.Perm.refl _)

theorem projection (p : Projection Q F) (h : Streams M input path g) :
    Streams M (.projection p input) (0 :: path) fun row => p.exprs.map (·.eval M input.schema (g row)) := by
  constructor
  · intro env out hout
    cases hout with
    | projection hresolves hrows =>
      have hperm := (h.reads hrows).map fun row => p.exprs.map (·.eval M input.schema row)
      rwa [List.map_map] at hperm
  · intro env out hout env'
    cases hout with
    | projection hresolves hrows =>
      have hgives := Produces.projection hresolves (h.gives hrows (env'.below 0))
      rwa [List.map_map] at hgives

theorem repartition (h : Streams M input path g) : Streams M (.repartition input) (0 :: path) g := by
  constructor
  · intro env out hout
    cases hout with
    | repartition hrows hperm => exact hperm.trans (h.reads hrows)
  · intro env out hout env'
    cases hout with
    | repartition hrows hperm => exact .repartition (h.gives hrows (env'.below 0)) (List.Perm.refl _)

theorem subqueryAlias (name : Q) (h : Streams M input path g) : Streams M (.subqueryAlias name input) (0 :: path) g := by
  constructor
  · intro env out hout
    cases hout with
    | subqueryAlias hrows => exact h.reads hrows
  · intro env out hout env'
    cases hout with
    | subqueryAlias hrows => exact .subqueryAlias (h.gives hrows (env'.below 0))

end Streams

theorem Expr.eval_of_passes {expr : Expr Q F} {c : Column Q} {schema : List (DFField Q)} {row : Row α} {i : Nat}
    {value : Option α} (hpasses : expr.passes = some c) (hindex : c.index M schema = some i) (hvalue : row[i]? = some value) :
    expr.eval M schema row = value := by
  induction expr with
  | column c' =>
    cases hpasses
    rw [Expr.eval, hindex, Option.bind_some, hvalue, Option.getD_some]
  | aliased expr name ih => exact ih hpasses
  | other expr => cases hpasses

theorem Carries.tableScan (scan : TableScan Q F) : Carries M (O := O) (.tableScan scan) (scan.row : WorkerRow α → Row α) := by
  intro i name horigin row
  obtain ⟨column, hcolumn, rfl⟩ := Option.map_eq_some_iff.1 horigin
  rw [TableScan.row, List.getElem?_map, hcolumn, Option.map_some]

theorem Carries.projection (p : Projection Q F) (h : Carries M input g) :
    Carries M (.projection p input) fun row => p.exprs.map (·.eval M input.schema (g row)) := by
  intro i name horigin row
  unfold LogicalPlan.origin at horigin
  split at horigin
  · rename_i j hj
    obtain ⟨c, hc, hindex⟩ := Option.bind_eq_some_iff.1 hj
    obtain ⟨expr, hexpr, hpasses⟩ := Option.bind_eq_some_iff.1 hc
    rw [List.getElem?_map, hexpr, Option.map_some, Expr.eval_of_passes hpasses hindex (h j name horigin row)]
  · cases horigin

/-- Such a plan maps the scan's rows one to one, and its columns are where their origin says. -/
theorem RowWise.streams (h : RowWise scan input path) : ∃ g : WorkerRow α → Row α, Streams M input path g ∧ Carries M input g := by
  induction h with
  | tableScan => exact ⟨scan.row, .tableScan scan, .tableScan scan⟩
  | @projection p _ _ _ ih =>
    obtain ⟨g, hstreams, hcarries⟩ := ih
    exact ⟨_, hstreams.projection p, hcarries.projection p⟩
  | repartition _ ih =>
    obtain ⟨g, hstreams, hcarries⟩ := ih
    exact ⟨g, hstreams.repartition, hcarries⟩
  | @subqueryAlias name _ _ _ ih =>
    obtain ⟨g, hstreams, hcarries⟩ := ih
    exact ⟨g, hstreams.subqueryAlias name, hcarries⟩

end VgiDatafusion.Order
