import VgiDatafusion.Filters.Builder

/-!
# Pushdown documents (filters.rs:705-977) and what a worker reads in them

| here | there |
| --- | --- |
| `Pushdown` | `Pushdown`, over the two IPC payload types |
| `Document`, `FilterBlob` | the JSON document in column 0 and the constants in columns 1.. |
| `finishSnapshot`, `finishDelta` | filters.rs:842-905, 907-977 |
| `serialize` | filters.rs:752-767 |
| `serializePhysicalForRemote`, `serializePhysicalDeltaForRemote` | filters.rs:786-840 |
| `Spec.eval` | a worker evaluating one node, `value_ref` and `batch_index` resolved |

The only step of `finish_snapshot` and `finish_delta` that can fail is turning a constant into an
array; writing one-row columns of their own types to memory cannot. A reference that points past
the constants or the side batches is an error at the worker, so it accepts no row.
-/
namespace VgiDatafusion

open Kleene

/-- `Pushdown` (`filters.rs:717-727`): the filter blob, the bind-schema positions it reads, the side batches, and the number
of live predicates. -/
structure Pushdown (Blob Keys : Type) where
  blob : Option Blob := none
  columns : List Nat := []
  joinKeys : List Keys := []
  predicateCount : Nat := 0
  deriving DecidableEq, Repr

/-- `"mode": "advisory"` on every predicate; `source` is `query` or `join`. -/
structure Predicate where
  id : String
  revision : Nat
  source : String
  expression : Spec
  deriving DecidableEq, Repr

inductive Update
  | upsert (predicate : Predicate)
  | remove (id : String) (revision : Nat)
  deriving DecidableEq, Repr

/-- The JSON document in column 0: the `snapshot` of init, or the `delta` of a tick. -/
inductive Document
  | snapshot (predicates : List Predicate)
  | delta (updates : List Update)
  deriving DecidableEq, Repr

/-- The predicates a document asks the worker to apply. -/
def Document.predicates : Document → List Predicate
  | .snapshot predicates => predicates
  | .delta updates => updates.filterMap fun
    | .upsert predicate => some predicate
    | .remove _ _ => none

/-- Column 0 is the document, columns 1.. are the constants in `value_ref` order. -/
structure FilterBlob (V : Type) where
  document : Document
  values : List (ScalarValue V)

abbrev WirePushdown (V : Type) := Pushdown (FilterBlob V) (JoinKeys V)

variable {V : Type} (K : Kernel V)

/-- The predicates with their ids, as both `finish` functions number them. -/
def numbered (source idPrefix : String) (revision : Nat) (specs : List Spec) : List Predicate :=
  specs.zipIdx.map fun (spec, i) => ⟨idPrefix ++ ":" ++ toString i, revision, source, spec⟩

/-- `finish_snapshot` (`filters.rs:842-905`); a snapshot of runtime filters is sent even if it is empty. -/
def finishSnapshot (specs : List Spec) (constants : List (ScalarValue V)) (columns : List Nat)
    (source idPrefix : String) : Option (WirePushdown V) :=
  if specs.isEmpty && source != "join" then some {}
  else (constants.mapM K.toArray).map fun values =>
    { blob := some ⟨.snapshot (numbered source idPrefix 0 specs), values⟩
      columns, joinKeys := [], predicateCount := specs.length }

/-- Ids of the previous generation that this one no longer has (`filters.rs:907-977`). -/
def tombstones (count previousCount revision : Nat) : List Update :=
  (List.range' count (previousCount - count)).map fun i => .remove ("join:" ++ toString i) revision

/-- `finish_delta` (`filters.rs:907-977`): an upsert for every predicate, a tombstone for every id that is gone. -/
def finishDelta (specs : List Spec) (constants : List (ScalarValue V)) (columns : List Nat)
    (revision previousCount : Nat) : Option (WirePushdown V) :=
  let updates := (numbered "join" "join" revision specs).map .upsert ++
    tombstones specs.length previousCount revision
  if updates.isEmpty then some { predicateCount := specs.length }
  else (constants.mapM K.toArray).map fun values =>
    { blob := some ⟨.delta updates, values⟩
      columns, joinKeys := [], predicateCount := specs.length }

section
variable (schema remote : Schema)

/-- One optional predicate an expression, and the builder after them all. -/
def buildAll (b : Builder V) : List (Expr V) → List (Option Spec) × Builder V
  | [] => ([], b)
  | e :: es =>
    let (spec, b) := build K schema remote b e
    let (specs, b) := buildAll b es
    (spec :: specs, b)

/-- `serialize` (`filters.rs:752-767`). -/
def serialize (exprs : List (Expr V)) : Option (WirePushdown V) :=
  let (specs, b) := buildAll K schema schema {} exprs
  let specs := specs.reduceOption
  if specs.isEmpty then some {}
  else (finishSnapshot K specs b.constants b.referencedColumns "query" "query").map fun p =>
    { p with joinKeys := b.joinKeys }

/-- `build_physical_top` of each expression, one builder through them all. -/
def buildPhysicalAll (sideJoinKeys : Bool) (b : Builder V) : List (PhysicalExpr V) → List Spec × Builder V
  | [] => ([], b)
  | e :: es =>
    let (specs, b) := buildPhysicalTop K schema remote sideJoinKeys b e
    let (rest, b) := buildPhysicalAll sideJoinKeys b es
    (specs ++ rest, b)

/-- `serialize_physical_for_remote` (`filters.rs:787-807`). -/
def serializePhysicalForRemote (exprs : List (PhysicalExpr V)) (sideJoinKeys : Bool) :
    Option (WirePushdown V) :=
  let (specs, b) := buildPhysicalAll K schema remote sideJoinKeys {} exprs
  (finishSnapshot K specs b.constants b.referencedColumns "join" "join").map fun p =>
    { p with joinKeys := b.joinKeys }

/-- `serialize_physical_delta_for_remote` (`filters.rs:814-840`). -/
def serializePhysicalDeltaForRemote (exprs : List (PhysicalExpr V)) (revision previousCount : Nat) :
    Option (WirePushdown V) :=
  let (specs, b) := buildPhysicalAll K schema remote false {} exprs
  finishDelta K specs b.constants b.referencedColumns revision previousCount

end

/-! ## The worker's reading -/

/-- A node on a row whose columns `read` resolves. -/
def Spec.eval (read : ColumnRef → ScalarValue V) (constants : List (ScalarValue V))
    (joinKeys : List (JoinKeys V)) : Spec → Tri
  | .comparison op left valueRef =>
    match constants[valueRef]? with
    | some value => K.compare op (read left) value
    | none => .unknown
  | .isNull column negated => .ofBool ((read column).isNull != negated)
  | .inSet column set negated =>
    match joinKeys[set.batchIndex]? with
    | some keys => if set.columnIndex = 0 then K.inList (read column) keys.values negated else .unknown
    | none => .unknown
  | .and l r => (l.eval read constants joinKeys).and (r.eval read constants joinKeys)
  | .or l r => (l.eval read constants joinKeys).or (r.eval read constants joinKeys)

/-- Every predicate of the pushdown is TRUE for the worker; a pushdown without a blob asks for
nothing. -/
def WirePushdown.accepts (p : WirePushdown V) (read : ColumnRef → ScalarValue V) : Prop :=
  ∀ blob ∈ p.blob, ∀ predicate ∈ blob.document.predicates,
    predicate.expression.eval K read blob.values p.joinKeys = .yes

/-- The worker finds the row's cell behind a reference that carries the bind schema's position and
name of that cell's column. -/
def Resolves {schema : Schema} (remote : Schema) (row : Row V schema) (read : ColumnRef → ScalarValue V) : Prop :=
  ∀ i field value, remote.fields[i]? = some field → row.cells[i]? = some value →
    read ⟨i, field.name⟩ = value

/-- What the constants array read back is what was put in. -/
theorem toArrays_eq {vs as : List (ScalarValue V)} (h : vs.mapM K.toArray = some as) : as = vs := by
  have := ListFacts.map_of_mapM (g := id) (h := id) (fun h => (K.toArray_value h).symm) h
  simpa using this.symm

theorem numbered_expressions (source idPrefix : String) (revision : Nat) (specs : List Spec) :
    (numbered source idPrefix revision specs).map (·.expression) = specs := by
  simp [numbered, List.map_map, Function.comp_def]

/-- The pushdown carries these nodes, over these constants, columns and side batches; or nothing at
all, when there is no node. -/
def WirePushdown.Carries (p : WirePushdown V) (specs : List Spec) (b : Builder V) : Prop :=
  (specs = [] ∧ p.blob = none ∧ p.columns = [] ∧ p.joinKeys = []) ∨
    ∃ blob, p.blob = some blob ∧ blob.document.predicates.map (·.expression) = specs ∧
      blob.values = b.constants ∧ p.columns = b.referencedColumns ∧ p.joinKeys = b.joinKeys

theorem finishSnapshot_carries {specs : List Spec} {b : Builder V} {source idPrefix : String} {p : WirePushdown V}
    (h : finishSnapshot K specs b.constants b.referencedColumns source idPrefix = some p) :
    p.Carries specs { b with joinKeys := [] } := by
  unfold finishSnapshot at h
  split at h
  · rename_i hempty
    simp only [Bool.and_eq_true, List.isEmpty_iff] at hempty
    cases h
    exact Or.inl ⟨hempty.1, rfl, rfl, rfl⟩
  · rw [Option.map_eq_some_iff] at h
    obtain ⟨values, hvalues, rfl⟩ := h
    exact Or.inr ⟨_, rfl, numbered_expressions _ _ _ _, toArrays_eq K hvalues, rfl, rfl⟩

/-- A tombstone asks for nothing, so a delta carries its upserts. -/
theorem finishDelta_carries {specs : List Spec} {b : Builder V} {revision previousCount : Nat}
    {p : WirePushdown V} (h : finishDelta K specs b.constants b.referencedColumns revision previousCount = some p) :
    p.Carries specs { b with joinKeys := [] } := by
  simp only [finishDelta] at h
  split at h
  · rename_i hempty
    simp only [List.isEmpty_iff, List.append_eq_nil_iff, List.map_eq_nil_iff] at hempty
    cases h
    refine Or.inl ⟨?_, rfl, rfl, rfl⟩
    rw [← numbered_expressions "join" "join" revision specs, hempty.1, List.map_nil]
  · rw [Option.map_eq_some_iff] at h
    obtain ⟨values, hvalues, rfl⟩ := h
    refine Or.inr ⟨_, rfl, ?_, toArrays_eq K hvalues, rfl, rfl⟩
    have htomb : (tombstones specs.length previousCount revision).filterMap
        (fun | Update.upsert predicate => some predicate | Update.remove _ _ => none) = [] := by
      simp [tombstones]
    simp only [Document.predicates, List.filterMap_append, htomb, List.append_nil, List.filterMap_map,
      Function.comp_def, List.filterMap_some]
    exact numbered_expressions _ _ _ _

section
variable {schema remote : Schema} {p : WirePushdown V}

theorem serialize_carries {exprs : List (Expr V)} (h : serialize K schema exprs = some p) :
    p.Carries (buildAll K schema schema {} exprs).1.reduceOption (buildAll K schema schema {} exprs).2 := by
  simp only [serialize] at h
  split at h
  · rename_i hempty
    cases h
    exact Or.inl ⟨List.isEmpty_iff.1 hempty, rfl, rfl, rfl⟩
  · rename_i hne
    rw [Option.map_eq_some_iff] at h
    obtain ⟨q, hq, rfl⟩ := h
    rcases finishSnapshot_carries K hq with ⟨hnil, -⟩ | ⟨blob, h1, h2, h3, h4, -⟩
    · simp [hnil] at hne
    · exact Or.inr ⟨blob, h1, h2, h3, h4, rfl⟩

theorem serializePhysicalForRemote_carries {exprs : List (PhysicalExpr V)} {side : Bool}
    (h : serializePhysicalForRemote K schema remote exprs side = some p) :
    p.Carries (buildPhysicalAll K schema remote side {} exprs).1
      (buildPhysicalAll K schema remote side {} exprs).2 := by
  simp only [serializePhysicalForRemote, Option.map_eq_some_iff, finishSnapshot] at h
  obtain ⟨q, hq, rfl⟩ := h
  -- a join snapshot is written even when it is empty
  simp only [bne_self_eq_false, Bool.and_false, Bool.false_eq_true, if_false, Option.map_eq_some_iff] at hq
  obtain ⟨values, hvalues, rfl⟩ := hq
  exact Or.inr ⟨_, rfl, numbered_expressions _ _ _ _, toArrays_eq K hvalues, rfl, rfl⟩

theorem serializePhysicalDeltaForRemote_carries {exprs : List (PhysicalExpr V)} {revision previousCount : Nat}
    (h : serializePhysicalDeltaForRemote K schema remote exprs revision previousCount = some p) :
    p.Carries (buildPhysicalAll K schema remote false {} exprs).1
      { (buildPhysicalAll K schema remote false {} exprs).2 with joinKeys := [] } :=
  finishDelta_carries K h

end

end VgiDatafusion
