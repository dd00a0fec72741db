import VgiDatafusion.Library.Lists
import VgiDatafusion.Order.LogicalPlan

/-!
# Top-N hints (order_pushdown.rs:101-224, lib.rs:1552-1567)

| here | there |
| --- | --- |
| `TableProvider.remoteColumnName` | `remote_column_name` |
| `Source.withOrderBy` | `with_order_by` |
| `directColumn`, `hintLogicalInput` | `direct_column`, `hint_logical_input` |
| `sortHint` | the hint the closure of `hint_logical_plan` builds; `none` where it gives up |
| `hintLogicalPlan` | `hint_logical_plan`: `transform_down`, which jumps over a sort it has hinted |

A sort that keeps `fetch` rows hands the worker its first key, traced down by name; with one key, no filter in the way and
no pushed filter it also hands down `fetch` as a limit, and the worker may then leave out rows. `topN_hints_safe` says that
the traced column is the one the key is resolved to by position, and that such a worker cannot be told from one that sends
everything, except in the choice among ties.
-/
namespace VgiDatafusion

/-- `VgiTableProvider::remote_column_name` (`lib.rs:1552-1561`). -/
def TableProvider.remoteColumnName (t : TableProvider) (publicName : String) : Option String :=
  (t.outputSchema.fieldWithName publicName).map fun _ => workerName t.columnMapping publicName

namespace Order

open TopN

variable {Q F O α : Type}

/-! ## The rule -/

/-- `VgiTableProvider::with_order_by` (`lib.rs:1563-1567`). -/
def Source.withOrderBy (provider : TableProvider) (hint : OrderBy) : Source := .vgi provider (some hint)

/-- `direct_column` (`order_pushdown.rs:215-224`): a column, under aliases. -/
def directColumn : Expr Q F → Option (Column Q)
  | .column c | .aliased (.column c) _ => some c
  | _ => none

def OrderBy.unlimited (hint : OrderBy) : OrderBy := { hint with limit := none }

/-- `hint_logical_input` (`order_pushdown.rs:146-213`): the input with the hint on its scan; `none` where the hint cannot go
down. -/
def hintLogicalInput : LogicalPlan Q F O → OrderBy → Option (LogicalPlan Q F O)
  | .tableScan scan, hint =>
    let hint := if scan.filters.isEmpty then hint else hint.unlimited
    match scan.source with
    | .other _ => none
    | .vgi provider _ => (provider.remoteColumnName hint.column).map fun remoteColumn =>
      .tableScan { scan with source := .withOrderBy provider { hint with column := remoteColumn } }
  | .filter predicate input, hint => (hintLogicalInput input hint.unlimited).map (.filter predicate)
  | .projection projection input, hint =>
    match ((projection.schema.findIdx? (·.name == hint.column)).bind (projection.exprs[·]?)).bind directColumn with
    | none => none
    | some column => (hintLogicalInput input { hint with column := column.name }).map (.projection projection)
  | .repartition input, hint => (hintLogicalInput input hint).map .repartition
  | .subqueryAlias name input, hint => (hintLogicalInput input hint).map (.subqueryAlias name)
  | .sort _ _ _, _ | .other _ _ _, _ => none

/-- `i64::MAX`. -/
def maxLimit : Nat := 9223372036854775807

/-- The hint of a sort with a limit, for its first key if it is a column (`order_pushdown.rs:101-144`). -/
def sortHint : List (SortExpr Q F) → Option Nat → Option OrderBy
  | first :: rest, some fetch =>
    match first.expr with
    | .column column => some {
        column := column.name
        direction := if first.asc then .ascending else .descending
        nullOrder := if first.nullsFirst then .first else .last
        limit := if rest.isEmpty && fetch ≤ maxLimit then some fetch else none }
    | _ => none
  | _, _ => none

/-- What the closure puts below a sort; `none` where it leaves the sort alone. -/
def hintedInput (keys : List (SortExpr Q F)) (fetch : Option Nat) (input : LogicalPlan Q F O) : Option (LogicalPlan Q F O) :=
  (sortHint keys fetch).bind (hintLogicalInput input)

mutual

/-- `hint_logical_plan` (`order_pushdown.rs:101-144`): `transform_down`, which jumps over a sort it has hinted. -/
def hintLogicalPlan : LogicalPlan Q F O → LogicalPlan Q F O
  | .sort keys fetch input =>
    match hintedInput keys fetch input with
    | some hinted => .sort keys fetch hinted
    | none => .sort keys fetch (hintLogicalPlan input)
  | .tableScan scan => .tableScan scan
  | .filter predicate input => .filter predicate (hintLogicalPlan input)
  | .projection projection input => .projection projection (hintLogicalPlan input)
  | .repartition input => .repartition (hintLogicalPlan input)
  | .subqueryAlias name input => .subqueryAlias name (hintLogicalPlan input)
  | .other operator schema inputs => .other operator schema (hintLogicalPlans inputs)
def hintLogicalPlans : List (LogicalPlan Q F O) → List (LogicalPlan Q F O)
  | [] => []
  | plan :: plans => hintLogicalPlan plan :: hintLogicalPlans plans
end

/-! ## Safety -/

/-- What makes a limit safe: the worker may send any part of the scan's rows that has the first `k` in the hinted order. -/
structure SafeLimit (M : Meaning Q F O α) (keys : List (SortExpr Q F)) (fetch : Nat) (input : LogicalPlan Q F O) (path : Path)
    (scan : TableScan Q F) (hint : OrderBy) (k : Nat) : Prop where
  single : keys.length = 1
  same : fetch = k
  unfiltered : scan.filters = []
  rowWise : RowWise scan input path
  refines : ∀ (env : Env α) first part out, First (hint.ranking M.values) k (env (0 :: path)) first →
    first.Subperm part → part.Subperm (env (0 :: path)) →
      Produces M (Function.update env (0 :: path) part) (.sort keys (some fetch) input) out →
        Produces M env (.sort keys (some fetch) input) out
  tied : ∀ (env : Env α) out out', Produces M env (.sort keys (some fetch) input) out →
    Produces M env (.sort keys (some fetch) input) out' → List.Forall₂ (sortRanking M input.schema keys).Tied out out'
  answers : ∀ (env : Env α) part out, Produces M env (.sort keys (some fetch) input) out →
    ∃ out', Produces M (Function.update env (0 :: path) part) (.sort keys (some fetch) input) out'

/-- The scan at a path below a sort's input got the sort's own hint. -/
structure SafeHint (M : Meaning Q F O α) (keys : List (SortExpr Q F)) (fetch : Nat) (input : LogicalPlan Q F O) (path : Path)
    (scan : TableScan Q F) (hint : OrderBy) : Prop where
  key : ∃ key rest column, keys = key :: rest ∧ key.expr = .column column ∧
    (hint.direction = .ascending ↔ key.asc = true) ∧ (hint.nullOrder = .first ↔ key.nullsFirst = true) ∧
      ∀ env out, Produces M env (.sort keys (some fetch) input) out →
        ∃ i, column.index M input.schema = some i ∧ input.origin M i = some hint.column
  limit : ∀ k, hint.limit = some k → SafeLimit M keys fetch input path scan hint k

/-! ### Sorting the rows of one scan -/

section
variable {M : Meaning Q F O α} {keys : List (SortExpr Q F)} {key : SortExpr Q F} {fetch : Nat} {input : LogicalPlan Q F O}
  {path : Path} {scan : TableScan Q F} {hint : OrderBy} {g : WorkerRow α → Row α} {env : Env α} {out : List (Row α)}

theorem Streams.top (h : Streams M input path g) (hout : Produces M env (.sort keys (some fetch) input) out) :
    Top (sortRanking M input.schema keys) fetch ((env (0 :: path)).map g) out := by
  cases hout with
  | sort hresolves hrows htop => exact htop.perm (h.reads hrows)

/-- What can be sorted once can be sorted over any rows. -/
theorem Streams.sort (h : Streams M input path g) (hout : Produces M env (.sort keys (some fetch) input) out) (env' : Env α)
    {out' : List (Row α)} (htop : Top (sortRanking M input.schema keys) fetch ((env' (0 :: path)).map g) out') :
    Produces M env' (.sort keys (some fetch) input) out' := by
  cases hout with
  | sort hresolves hrows _ => exact .sort hresolves (h.gives hrows (env'.below 0)) htop

/-- The worker's order of its rows is the sort's order of what becomes of them. -/
theorem ranking_comap {column : Column Q} {i : Nat} (hcarries : Carries M input g) (hkey : key.expr = .column column)
    (hasc : hint.direction = .ascending ↔ key.asc = true) (hnulls : hint.nullOrder = .first ↔ key.nullsFirst = true)
    (hindex : column.index M input.schema = some i) (horigin : input.origin M i = some hint.column) :
    (sortRanking M input.schema [key]).comap g = hint.ranking M.values := by
  have hvalue : (fun row => key.expr.eval M input.schema (g row)) = fun row => row hint.column := by
    funext row
    rw [hkey]
    exact Expr.eval_of_passes rfl hindex (hcarries i _ horigin row)
  have hdirection : key.asc = (hint.direction == .ascending) := by
    rw [Bool.eq_iff_iff, beq_iff_eq]
    exact hasc.symm
  have hfirst : key.nullsFirst = (hint.nullOrder == .first) := by
    rw [Bool.eq_iff_iff, beq_iff_eq]
    exact hnulls.symm
  calc (sortRanking M input.schema [key]).comap g
      = (key.ranking M input.schema).comap g := by rw [sortRanking, sortRanking, Ranking.lex_trivial]
    _ = (ranking M.values key.asc key.nullsFirst).comap fun row => key.expr.eval M input.schema (g row) := rfl
    _ = hint.ranking M.values := by rw [hvalue, hdirection, hfirst]; rfl

/-- A single key over the rows of one scan. -/
theorem RowWise.safeLimit {column : Column Q} (h : RowWise scan input path) (hunfiltered : scan.filters = [])
    (hkey : key.expr = .column column) (hasc : hint.direction = .ascending ↔ key.asc = true)
    (hnulls : hint.nullOrder = .first ↔ key.nullsFirst = true)
    (horigin : ∀ env out, Produces M env (.sort [key] (some fetch) input) out →
      ∃ i, column.index M input.schema = some i ∧ input.origin M i = some hint.column) :
    SafeLimit M [key] fetch input path scan hint fetch := by
  obtain ⟨g, hstreams, hcarries⟩ := h.streams (M := M)
  refine ⟨rfl, rfl, hunfiltered, h, ?_, ?_, ?_⟩
  · intro env first part out hfirst hkept hpart hout
    obtain ⟨i, hindex, hi⟩ := horigin _ _ hout
    have hrank := ranking_comap hcarries hkey hasc hnulls hindex hi
    have htop := hstreams.top hout
    rw [Function.update_self] at htop
    rw [← hrank] at hfirst
    exact hstreams.sort hout env (htop.of_subset hfirst.map (subperm_map g hkept) (subperm_map g hpart))
  · intro env out out' hout hout'
    exact (hstreams.top hout).tied (hstreams.top hout')
  · intro env part out hout
    obtain ⟨out', hout'⟩ := Top.exists (sortRanking M input.schema [key]) fetch
      ((Function.update env (0 :: path) part (0 :: path)).map g)
    exact ⟨out', hstreams.sort hout _ hout'⟩

end

/-! ### Tracing the key -/

section
variable {M : Meaning Q F O α} {input hinted : LogicalPlan Q F O} {hint : OrderBy} {path : Path}
  {scan scan' : TableScan Q F}

theorem Column.index_spec {schema : List (DFField Q)} {column : Column Q} {i : Nat} (h : column.index M schema = some i) :
    ∃ field, schema[i]? = some field ∧ field.name = column.name := by
  obtain ⟨hi, hmatches, -⟩ := List.findIdx?_eq_some_iff_getElem.1 h
  refine ⟨schema[i], List.getElem?_eq_getElem hi, ?_⟩
  unfold Column.matches at hmatches
  split at hmatches
  · exact beq_iff_eq.1 (Bool.and_eq_true_iff.1 hmatches).2
  · cases hmatches
  · exact beq_iff_eq.1 hmatches

theorem passes_of_directColumn {expr : Expr Q F} {column : Column Q} (h : directColumn expr = some column) :
    expr.passes = some column := by
  unfold directColumn at h
  split at h
  · exact h
  · exact h
  · cases h

theorem Expr.resolves_passes {expr : Expr Q F} {column : Column Q} {schema : List (DFField Q)}
    (hpasses : expr.passes = some column) (h : expr.Resolves M schema) : (column.index M schema).isSome = true := by
  induction expr with
  | column c =>
    cases hpasses
    exact h
  | aliased expr name ih => exact ih hpasses h
  | other expr => cases hpasses

theorem LogicalPlan.UniqueNames.child {plan child : LogicalPlan Q F O} {i : Nat} (h : plan.UniqueNames)
    (hchild : plan.children[i]? = some child) : child.UniqueNames := by
  intro path p input hnode
  refine h (i :: path) p input ?_
  rw [LogicalPlan.nodeAt, hchild]
  exact hnode

/-- The hint a scan gets: the sort's own, with the worker's column and with no limit unless the way down is row by row. -/
structure Traced (M : Meaning Q F O α) (input : LogicalPlan Q F O) (path : Path) (scan scan' : TableScan Q F)
    (hint attached : OrderBy) : Prop where
  onScan : scan'.source.orderBy = some attached
  direction : attached.direction = hint.direction
  nulls : attached.nullOrder = hint.nullOrder
  origin : ∀ env out, Produces M env input out → ∀ (i : Nat) field, input.schema[i]? = some field →
    field.name = hint.column → input.origin M i = some attached.column
  limit : attached.limit = none ∨ (attached.limit = hint.limit ∧ scan.filters = [] ∧ RowWise scan input path)

namespace Traced

theorem tableScan (h : hintLogicalInput (.tableScan scan : LogicalPlan Q F O) hint = some (.tableScan scan')) :
    ∃ attached, Traced M (.tableScan scan) [] scan scan' hint attached := by
  unfold hintLogicalInput at h
  cases hsource : scan.source with
  | other schema => rw [hsource] at h; cases h
  | vgi provider before =>
    simp only [hsource] at h
    obtain ⟨remote, hremote, hscan⟩ := Option.map_eq_some_iff.1 h
    obtain ⟨_, -, rfl⟩ := Option.map_eq_some_iff.1 hremote
    cases hscan
    have horigin : ∀ env out, Produces M env (.tableScan scan) out → ∀ (i : Nat) field,
        (LogicalPlan.tableScan scan : LogicalPlan Q F O).schema[i]? = some field → field.name = hint.column →
          (LogicalPlan.tableScan scan : LogicalPlan Q F O).origin M i = some (workerName provider.columnMapping hint.column) := by
      intro env out _ i field hfield hname
      rw [LogicalPlan.schema, List.getElem?_map] at hfield
      obtain ⟨name, hat, rfl⟩ := Option.map_eq_some_iff.1 hfield
      rw [LogicalPlan.origin, hat, Option.map_some, TableScan.remote, hsource, ← hname]
      rfl
    by_cases hfilters : scan.filters = []
    · rw [if_pos (by rw [hfilters]; rfl)]
      exact ⟨_, rfl, rfl, rfl, horigin, Or.inr ⟨rfl, hfilters, .tableScan⟩⟩
    · rw [if_neg (by rw [List.isEmpty_iff]; exact hfilters)]
      exact ⟨_, rfl, rfl, rfl, horigin, Or.inl rfl⟩

variable {attached : OrderBy}

theorem filter (predicate : Expr Q F) (h : Traced M input path scan scan' hint.unlimited attached) :
    Traced M (.filter predicate input) (0 :: path) scan scan' hint attached := by
  refine ⟨h.onScan, h.direction, h.nulls, ?_, Or.inl ?_⟩
  · intro env out hout
    cases hout with
    | filter hrows => exact h.origin _ _ hrows
  · rcases h.limit with hnone | ⟨hnone, -⟩
    · exact hnone
    · exact hnone

theorem projection {p : Projection Q F} {column : Column Q} (hunique : (p.schema.map (·.name)).Nodup)
    (hcolumn : ((p.schema.findIdx? (·.name == hint.column)).bind (p.exprs[·]?)).bind directColumn = some column)
    (h : Traced M input path scan scan' { hint with column := column.name } attached) :
    Traced M (.projection p input) (0 :: path) scan scan' hint attached := by
  refine ⟨h.onScan, h.direction, h.nulls, ?_, ?_⟩
  · intro env out hout i field hfield hname
    cases hout with
    | projection hresolves hrows =>
      rw [← hname, ListFacts.findIdx?_of_nodup hunique hfield, Option.bind_some] at hcolumn
      obtain ⟨expr, hexpr, hdirect⟩ := Option.bind_eq_some_iff.1 hcolumn
      have hpasses := passes_of_directColumn hdirect
      obtain ⟨j, hj⟩ := Option.isSome_iff_exists.1 (Expr.resolves_passes hpasses (hresolves expr (List.mem_of_getElem? hexpr)))
      obtain ⟨field', hfield', hname'⟩ := Column.index_spec hj
      rw [LogicalPlan.origin, hexpr, Option.bind_some, hpasses, Option.bind_some, hj]
      exact h.origin _ _ hrows j field' hfield' hname'
  · rcases h.limit with hnone | ⟨hlimit, hunfiltered, hrowWise⟩
    · exact Or.inl hnone
    · exact Or.inr ⟨hlimit, hunfiltered, hrowWise.projection⟩

theorem repartition (h : Traced M input path scan scan' hint attached) :
    Traced M (.repartition input) (0 :: path) scan scan' hint attached := by
  refine ⟨h.onScan, h.direction, h.nulls, ?_, ?_⟩
  · intro env out hout
    cases hout with
    | repartition hrows _ => exact h.origin _ _ hrows
  · rcases h.limit with hnone | ⟨hlimit, hunfiltered, hrowWise⟩
    · exact Or.inl hnone
    · exact Or.inr ⟨hlimit, hunfiltered, hrowWise.repartition⟩

theorem subqueryAlias (name : Q) (h : Traced M input path scan scan' hint attached) :
    Traced M (.subqueryAlias name input) (0 :: path) scan scan' hint attached := by
  refine ⟨h.onScan, h.direction, h.nulls, ?_, ?_⟩
  · intro env out hout i field hfield hname
    cases hout with
    | subqueryAlias hrows =>
      rw [LogicalPlan.schema, List.getElem?_map] at hfield
      obtain ⟨inner, hinner, rfl⟩ := Option.map_eq_some_iff.1 hfield
      exact h.origin _ _ hrows i inner hinner hname
  · rcases h.limit with hnone | ⟨hlimit, hunfiltered, hrowWise⟩
    · exact Or.inl hnone
    · exact Or.inr ⟨hlimit, hunfiltered, hrowWise.subqueryAlias⟩

end Traced

theorem nodeAt_only {plan child : LogicalPlan Q F O} {i : Nat} {path : Path} {node : LogicalPlan Q F O}
    (hchildren : plan.children = [child]) (h : plan.nodeAt (i :: path) = some node) : i = 0 ∧ child.nodeAt path = some node := by
  rw [LogicalPlan.nodeAt, hchildren] at h
  cases i with
  | zero => exact ⟨rfl, h⟩
  | succ i => cases h

/-- Going down, each operator keeps what holds below it. -/
theorem hintLogicalInput_traced (hunique : input.UniqueNames) (h : hintLogicalInput input hint = some hinted)
    (hbefore : input.nodeAt path = some (.tableScan scan)) (hafter : hinted.nodeAt path = some (.tableScan scan')) :
    ∃ attached, Traced M input path scan scan' hint attached := by
  induction path generalizing input hinted hint with
  | nil =>
    cases hbefore
    cases hafter
    exact Traced.tableScan h
  | cons j path ih =>
    -- the hypothesis for the one input of an operator
    have hbelow : ∀ (operator : LogicalPlan Q F O → LogicalPlan Q F O) (inner : LogicalPlan Q F O) (hint : OrderBy),
        (∀ plan, (operator plan).children = [plan]) → input = operator inner →
        (hintLogicalInput inner hint).map operator = some hinted →
          j = 0 ∧ ∃ attached, Traced M inner path scan scan' hint attached := by
      rintro operator inner hint hchildren rfl hmap
      obtain ⟨below, hinner, rfl⟩ := Option.map_eq_some_iff.1 hmap
      obtain ⟨hj, hscan⟩ := nodeAt_only (hchildren inner) hbefore
      obtain ⟨-, hscan'⟩ := nodeAt_only (hchildren below) hafter
      have hchild : (operator inner).children[0]? = some inner := by rw [hchildren]; rfl
      exact ⟨hj, ih (hunique.child hchild) hinner hscan hscan'⟩
    cases input with
    | tableScan _ => cases hbefore
    | filter predicate inner =>
      obtain ⟨rfl, attached, htraced⟩ := hbelow (.filter predicate) inner _ (fun _ => rfl) rfl h
      exact ⟨attached, htraced.filter predicate⟩
    | projection p inner =>
      unfold hintLogicalInput at h
      split at h
      · cases h
      · rename_i column hcolumn
        obtain ⟨rfl, attached, htraced⟩ := hbelow (.projection p) inner _ (fun _ => rfl) rfl h
        exact ⟨attached, htraced.projection (hunique [] p inner rfl) hcolumn⟩
    | repartition inner =>
      obtain ⟨rfl, attached, htraced⟩ := hbelow .repartition inner _ (fun _ => rfl) rfl h
      exact ⟨attached, htraced.repartition⟩
    | subqueryAlias name inner =>
      obtain ⟨rfl, attached, htraced⟩ := hbelow (.subqueryAlias name) inner _ (fun _ => rfl) rfl h
      exact ⟨attached, htraced.subqueryAlias name⟩
    | sort keys fetch inner => cases h
    | other operator schema inputs => cases h

/-! ### Walking down the plan -/

theorem hintLogicalPlans_eq (plans : List (LogicalPlan Q F O)) : hintLogicalPlans plans = plans.map hintLogicalPlan := by
  induction plans with
  | nil => rfl
  | cons plan plans ih => rw [hintLogicalPlans, ih, List.map_cons]

/-- Either the plan is a sort with a hinted input, or the walk goes on below it. -/
theorem hintLogicalPlan_cases (plan : LogicalPlan Q F O) :
    (∃ keys fetch input hinted, plan = .sort keys fetch input ∧ hintedInput keys fetch input = some hinted ∧
      hintLogicalPlan plan = .sort keys fetch hinted) ∨
    (hintLogicalPlan plan).children = plan.children.map hintLogicalPlan := by
  cases plan with
  | sort keys fetch input =>
    cases hhinted : hintedInput keys fetch input with
    | some hinted => exact Or.inl ⟨keys, fetch, input, hinted, rfl, hhinted, by rw [hintLogicalPlan, hhinted]⟩
    | none =>
      right
      rw [hintLogicalPlan, hhinted]
      rfl
  | other operator schema inputs =>
    right
    rw [hintLogicalPlan]
    exact hintLogicalPlans_eq inputs
  | tableScan _ | filter _ _ | projection _ _ | repartition _ | subqueryAlias _ _ =>
    right
    rw [hintLogicalPlan]
    rfl

theorem sortHint_spec {keys : List (SortExpr Q F)} {fetch : Option Nat} (h : sortHint keys fetch = some hint) :
    ∃ key rest column n, keys = key :: rest ∧ fetch = some n ∧ key.expr = .column column ∧ hint.column = column.name ∧
      (hint.direction = .ascending ↔ key.asc = true) ∧ (hint.nullOrder = .first ↔ key.nullsFirst = true) ∧
        ∀ k, hint.limit = some k → rest = [] ∧ n = k := by
  unfold sortHint at h
  split at h
  · rename_i first rest fetch
    split at h
    · rename_i column hcolumn
      cases h
      refine ⟨first, rest, column, fetch, rfl, rfl, hcolumn, rfl, ?_, ?_, ?_⟩
      · cases first.asc <;> simp
      · cases first.nullsFirst <;> simp
      · intro k hk
        simp only [Option.ite_none_right_eq_some, Bool.and_eq_true, List.isEmpty_iff, Option.some.injEq] at hk
        exact ⟨hk.1.1, hk.2⟩
    · cases h
  · cases h

end

/-- The hint a sort puts on the scan below it is safe. -/
theorem hintedInput_safe {M : Meaning Q F O α} {keys : List (SortExpr Q F)} {fetch : Option Nat}
    {input hinted : LogicalPlan Q F O} {path : Path} {scan scan' : TableScan Q F} {attached : OrderBy}
    (hunique : input.UniqueNames) (h : hintedInput keys fetch input = some hinted)
    (hbefore : input.nodeAt path = some (.tableScan scan)) (hafter : hinted.nodeAt path = some (.tableScan scan'))
    (hattached : scan'.source.orderBy = some attached) :
    ∃ n, fetch = some n ∧ SafeHint M keys n input path scan attached := by
  obtain ⟨hint, hhint, hinput⟩ := Option.bind_eq_some_iff.1 h
  obtain ⟨key, rest, column, n, rfl, rfl, hkey, hcolumn, hasc, hnulls, hlimit⟩ := sortHint_spec hhint
  obtain ⟨attached', htraced⟩ := hintLogicalInput_traced (M := M) hunique hinput hbefore hafter
  rw [htraced.onScan] at hattached
  cases hattached
  rw [← htraced.direction] at hasc
  rw [← htraced.nulls] at hnulls
  have horigin : ∀ env out, Produces M env (.sort (key :: rest) (some n) input) out →
      ∃ i, column.index M input.schema = some i ∧ input.origin M i = some attached.column := by
    intro env out hout
    cases hout with
    | sort hresolves hrows _ =>
      have hresolved := hresolves key (by simp)
      rw [hkey] at hresolved
      obtain ⟨i, hi⟩ := Option.isSome_iff_exists.1 hresolved
      obtain ⟨field, hfield, hname⟩ := Column.index_spec hi
      exact ⟨i, hi, htraced.origin _ _ hrows i field hfield (by rw [hname, hcolumn])⟩
  refine ⟨n, rfl, ⟨key, rest, column, rfl, hkey, hasc, hnulls, horigin⟩, ?_⟩
  intro k hk
  rcases htraced.limit with hnone | ⟨hsame, hunfiltered, hrowWise⟩
  · rw [hnone] at hk
    cases hk
  · rw [hsame] at hk
    obtain ⟨rfl, rfl⟩ := hlimit k hk
    exact hrowWise.safeLimit hunfiltered hkey hasc hnulls horigin

theorem nodeAt_cons {plan child : LogicalPlan Q F O} {i : Nat} (h : plan.children[i]? = some child) (path : Path) :
    plan.nodeAt (i :: path) = child.nodeAt path := by
  rw [LogicalPlan.nodeAt, h]

/-- **Top-N hints are safe**: wherever the rule puts a hint on a scan, a sort above that scan resolves its first key to the
hinted column; if the hint has a limit, that sort has one key and keeps that many rows, nothing in between drops,
repeats or recomputes a row, and rows left out by the worker change nothing but the choice among ties. -/
theorem topN_hints_safe (M : Meaning Q F O α) {plan : LogicalPlan Q F O} (hunique : plan.UniqueNames) {path : Path}
    {scan scan' : TableScan Q F} {hint : OrderBy} (hbefore : plan.nodeAt path = some (.tableScan scan))
    (hafter : (hintLogicalPlan plan).nodeAt path = some (.tableScan scan')) (hattached : scan'.source.orderBy = some hint)
    (hnew : scan.source.orderBy ≠ some hint) :
    ∃ above below keys fetch input, path = above ++ 0 :: below ∧ plan.nodeAt above = some (.sort keys (some fetch) input) ∧
      SafeHint M keys fetch input below scan hint := by
  induction path generalizing plan with
  | nil =>
    cases hbefore
    rw [hintLogicalPlan] at hafter
    cases hafter
    exact absurd hattached hnew
  | cons i path ih =>
    rcases hintLogicalPlan_cases plan with ⟨keys, fetch, input, hinted, rfl, hhinted, heq⟩ | hchildren
    · rw [heq] at hafter
      obtain ⟨rfl, hbefore⟩ := nodeAt_only rfl hbefore
      obtain ⟨-, hafter⟩ := nodeAt_only rfl hafter
      obtain ⟨n, rfl, hsafe⟩ := hintedInput_safe (M := M) (hunique.child (i := 0) rfl) hhinted hbefore hafter hattached
      exact ⟨[], path, keys, n, input, rfl, rfl, hsafe⟩
    · cases hchild : plan.children[i]? with
      | none =>
        rw [LogicalPlan.nodeAt, hchild] at hbefore
        cases hbefore
      | some child =>
        have hchild' : (hintLogicalPlan plan).children[i]? = some (hintLogicalPlan child) := by
          rw [hchildren, List.getElem?_map, hchild, Option.map_some]
        rw [nodeAt_cons hchild] at hbefore
        rw [nodeAt_cons hchild'] at hafter
        obtain ⟨above, below, keys, fetch, input, rfl, hsort, hsafe⟩ := ih (hunique.child hchild) hbefore hafter
        exact ⟨i :: above, below, keys, fetch, input, rfl, by rw [nodeAt_cons hchild]; exact hsort, hsafe⟩

/-- `a AS x, b` of the table whose public `a` is the worker's `c`. -/
def renamedColumns : Projection String Empty where
  exprs := [.aliased (.column ⟨some "t", "a"⟩) "x", .column ⟨some "t", "b"⟩]
  schema := [⟨none, "x"⟩, ⟨some "t", "b"⟩]
  fits := rfl

def swappedScan : TableScan String Empty := ⟨"t", .vgi swappedTable none, some [0, 1], []⟩

/-- `SELECT * FROM (SELECT a AS x, b FROM t) s ORDER BY s.x LIMIT 2`. -/
def firstTwo : LogicalPlan String Empty Empty :=
  .sort [⟨.column ⟨some "s", "x"⟩, true, false⟩] (some 2)
    (.subqueryAlias "s" (.projection renamedColumns (.tableScan swappedScan)))

def integerMeaning : Meaning String Empty Empty Int where
  resolvedEq := (· == ·)
  compute := nofun
  keeps _ := true
  operator := nofun
  values := ⟨(· ≤ ·), Int.le_trans, Int.le_total⟩

theorem firstTwo_unique : firstTwo.UniqueNames := by
  intro path p input h
  cases path with
  | nil => cases h
  | cons _ path =>
    obtain ⟨-, h⟩ := nodeAt_only rfl h
    cases path with
    | nil => cases h
    | cons _ path =>
      obtain ⟨-, h⟩ := nodeAt_only rfl h
      cases path with
      | nil =>
        cases h
        decide
      | cons _ path =>
        obtain ⟨-, h⟩ := nodeAt_only rfl h
        cases path <;> cases h

/-- The worker is asked for its column `c`, and for two rows. -/
theorem topN_hints_safe_firstTwo : ∃ above below keys fetch input, [0, 0, 0] = above ++ 0 :: below ∧
    firstTwo.nodeAt above = some (.sort keys (some fetch) input) ∧
      SafeHint integerMeaning keys fetch input below swappedScan ⟨"c", .ascending, .last, some 2⟩ :=
  topN_hints_safe integerMeaning firstTwo_unique rfl rfl rfl nofun

end Order

end VgiDatafusion
