import VgiDatafusion.Filters.Pushdown

/-!
# Runtime filters between batches (filters.rs:1015-1170; lib.rs:3072-3092, 4836-4850, 5063-5087)

| here | there |
| --- | --- |
| `Spec.shift` | `shift_value_refs` with `shift_external_batch_refs` |
| `Document.depth`, `recursionLimit` | how deep the JSON of a document is, and how deep `serde_json` reads |
| `merge` | `merge` |
| `Reading` | one turn of the loop of `snapshot_dynamic_filters`: the counters, the snapshots, the counters again |
| `dynamicFilterGeneration`, `snapshotDynamicFilters` | the functions of that name |
| `FilterLoop` | `dynamic_generation`, `dynamic_predicate_count`, `dynamic_revision`, `tick_pushdown` |
| `FilterLoop.tick` | the head of the batch loop, up to `next_batch_with_pushdown_filters` |
| `FilterWorker` | what a worker holds for each predicate id, references followed |

The counters and the expressions of the dynamic filters change under the reader, so each read brings its own
values. A worker may remember the revision of a removed id or forget the id; both are here.
-/
namespace VgiDatafusion

variable {V : Type}

/-! ## The init snapshot -/

/-- `shift_value_refs` and `shift_external_batch_refs` on a predicate's expression (`filters.rs:1121-1170`). -/
def Spec.shift (constants batches : Nat) : Spec → Spec
  | .comparison op left valueRef => .comparison op left (valueRef + constants)
  | .isNull e negated => .isNull e negated
  | .inSet e set negated => .inSet e { set with batchIndex := set.batchIndex + batches } negated
  | .and l r => .and (l.shift constants batches) (r.shift constants batches)
  | .or l r => .or (l.shift constants batches) (r.shift constants batches)

def Predicate.shift (constants batches : Nat) (p : Predicate) : Predicate :=
  { p with expression := p.expression.shift constants batches }

/-- The levels of objects and arrays in the JSON of an expression. -/
def Spec.depth : Spec → Nat
  | .comparison _ _ _ | .isNull _ _ | .inSet _ _ _ => 2
  | .and l r | .or l r => max l.depth r.depth + 2

def Update.depth : Update → Nat
  | .upsert predicate => predicate.expression.depth + 1
  | .remove _ _ => 1

/-- The object of the document, the array in it, and the deepest element. -/
def Document.depth : Document → Nat
  | .snapshot predicates => (predicates.map fun p => p.expression.depth + 1).foldr max 0 + 2
  | .delta updates => (updates.map Update.depth).foldr max 0 + 2

/-- The levels at which `serde_json::from_str` gives up; the build does not lift its limit. -/
def recursionLimit : Nat := 128

/-- `parse_predicates` (filters.rs:1095-1119): the text of the document is read back, and one without `predicates` is an
error. -/
def parsePredicates (document : Document) : Option (List Predicate) :=
  if document.depth < recursionLimit then
    match document with
    | .snapshot predicates => some predicates
    | .delta _ => none
  else none

/-- `merge` (`filters.rs:1020-1085`): the constants and side batches of the second follow those of the first. -/
def merge (left right : WirePushdown V) : Option (WirePushdown V) :=
  match left.blob, right.blob with
  | none, none => some {}
  | some _, none => some left
  | none, some _ => some right
  | some leftBlob, some rightBlob => do
    let leftSpecs ← parsePredicates leftBlob.document
    let rightSpecs ← parsePredicates rightBlob.document
    let shifted := rightSpecs.map (·.shift leftBlob.values.length left.joinKeys.length)
    some {
      blob := some ⟨.snapshot (leftSpecs ++ shifted), leftBlob.values ++ rightBlob.values⟩
      columns := right.columns.foldl (fun columns c => if columns.contains c then columns else columns ++ [c]) left.columns
      joinKeys := left.joinKeys ++ right.joinKeys
      predicateCount := left.predicateCount + right.predicateCount }

/-- Two snapshots have a merged one unless one of them is too deep to be read back. -/
theorem merge_of_snapshots {left right : WirePushdown V} {leftSpecs rightSpecs : List Predicate}
    {leftValues rightValues : List (ScalarValue V)} (hleft : left.blob = some ⟨.snapshot leftSpecs, leftValues⟩)
    (hright : right.blob = some ⟨.snapshot rightSpecs, rightValues⟩) :
    merge left right =
      if (Document.snapshot leftSpecs).depth < recursionLimit ∧ (Document.snapshot rightSpecs).depth < recursionLimit then some {
        blob := some ⟨.snapshot (leftSpecs ++ rightSpecs.map (·.shift leftValues.length left.joinKeys.length)),
          leftValues ++ rightValues⟩
        columns := right.columns.foldl (fun columns c => if columns.contains c then columns else columns ++ [c]) left.columns
        joinKeys := left.joinKeys ++ right.joinKeys
        predicateCount := left.predicateCount + right.predicateCount }
      else none := by
  rw [merge, hleft, hright]
  by_cases hl : (Document.snapshot leftSpecs).depth < recursionLimit
  · by_cases hr : (Document.snapshot rightSpecs).depth < recursionLimit
    · simp [parsePredicates, hl, hr]
    · simp [parsePredicates, hl, hr]
  · simp [parsePredicates, hl]

/-! ## Reading the dynamic filters -/

/-- `dynamic_filter_generation` (`lib.rs:3088-3092`): `wrapping_add` over the counters. -/
def dynamicFilterGeneration (counters : List Nat) : Nat :=
  counters.foldl (fun generation counter => (generation + counter) % 2 ^ 64) 0

/-- One turn of the loop of `snapshot_dynamic_filters` (`lib.rs:3072-3086`): the counters, the snapshots, the counters again. -/
structure Reading (V : Type) where
  before : List Nat
  /-- `filter.current()`, which may fail. -/
  snapshots : List (Option (PhysicalExpr V))
  after : List Nat

/-- `snapshot_dynamic_filters` (`lib.rs:3072-3086`); `none`: a failed read, or not returned yet. -/
def snapshotDynamicFilters : List (Reading V) → Option (Nat × List (PhysicalExpr V))
  | [] => none
  | reading :: readings => do
    let snapshots ← reading.snapshots.mapM id
    if dynamicFilterGeneration reading.before = dynamicFilterGeneration reading.after then
      some (dynamicFilterGeneration reading.after, snapshots)
    else snapshotDynamicFilters readings

/-- What the batch loop keeps of the filters (`lib.rs:4836-4850`). -/
structure FilterLoop (V : Type) where
  generation : Nat
  predicateCount : Nat
  revision : Nat := 0
  tickPushdown : Option (WirePushdown V) := none

/-- What one turn of the batch loop reads: the counters, and the readings if they have moved. -/
structure FilterTick (V : Type) where
  counters : List Nat
  readings : List (Reading V) := []

/-- `saturating_add(1)`. -/
def nextRevision (revision : Nat) : Nat := min (revision + 1) (2 ^ 64 - 1)

variable (K : Kernel V) (schema remote : Schema)

/-- The head of the batch loop (`lib.rs:5063-5087`): the loop after it, and the delta if one was made, with the snapshots it
was made of. -/
def FilterLoop.tick (loop : FilterLoop V) (turn : FilterTick V) :
    Option (FilterLoop V × Option (WirePushdown V × List (PhysicalExpr V))) :=
  if dynamicFilterGeneration turn.counters = loop.generation then some (loop, none)
  else do
    let (generation, snapshots) ← snapshotDynamicFilters turn.readings
    let revision := nextRevision loop.revision
    let delta ← serializePhysicalDeltaForRemote K schema remote snapshots revision loop.predicateCount
    let tickPushdown := if delta.blob.isSome then some delta else none
    some ({ generation, predicateCount := delta.predicateCount, revision, tickPushdown }, some (delta, snapshots))

/-! ## The worker -/

/-- A predicate with its references followed; a dangling one leads nowhere. -/
inductive Resolved (V : Type)
  | comparison (op : Comparison) (left : ColumnRef) (value : Option (ScalarValue V))
  | isNull (expression : ColumnRef) (negated : Bool)
  | inSet (expression : ColumnRef) (keys : Option (JoinKeys V)) (column : Nat × String) (negated : Bool)
  | and (left right : Resolved V)
  | or (left right : Resolved V)

def Spec.resolve (values : List (ScalarValue V)) (joinKeys : List (JoinKeys V)) : Spec → Resolved V
  | .comparison op left valueRef => .comparison op left values[valueRef]?
  | .isNull e negated => .isNull e negated
  | .inSet e set negated => .inSet e joinKeys[set.batchIndex]? (set.columnIndex, set.columnName) negated
  | .and l r => .and (l.resolve values joinKeys) (r.resolve values joinKeys)
  | .or l r => .or (l.resolve values joinKeys) (r.resolve values joinKeys)

structure LivePredicate (V : Type) where
  source : String
  expression : Resolved V

/-- What is held for an id: the newest revision, and the predicate unless it was removed. -/
structure Held (V : Type) where
  revision : Nat
  predicate : Option (LivePredicate V)

/-- A worker that follows the deltas: for each predicate id what it holds. -/
structure FilterWorker (V : Type) where
  /-- The revision of a removed id is remembered. -/
  remembers : Bool
  held : String → Option (Held V)

def Predicate.resolve (values : List (ScalarValue V)) (joinKeys : List (JoinKeys V)) (p : Predicate) : LivePredicate V :=
  ⟨p.source, p.expression.resolve values joinKeys⟩

def Update.id : Update → String
  | .upsert predicate => predicate.id
  | .remove id _ => id

def Update.revision : Update → Nat
  | .upsert predicate => predicate.revision
  | .remove _ revision => revision

/-- What an accepted update leaves. Tick metadata carries no side batch. -/
def Update.result (remembers : Bool) (values : List (ScalarValue V)) : Update → Option (Held V)
  | .upsert predicate => some ⟨predicate.revision, some (predicate.resolve values [])⟩
  | .remove _ revision => if remembers then some ⟨revision, none⟩ else none

/-- An update that is not newer than what is held is ignored. -/
def Update.act (remembers : Bool) (values : List (ScalarValue V)) (update : Update) : Option (Held V) → Option (Held V)
  | none => update.result remembers values
  | some held => if held.revision < update.revision then update.result remembers values else some held

namespace FilterWorker

def apply (values : List (ScalarValue V)) (w : FilterWorker V) (update : Update) : FilterWorker V :=
  { w with held := fun id => if id = update.id then update.act w.remembers values (w.held id) else w.held id }

def live (w : FilterWorker V) (id : String) : Option (LivePredicate V) := (w.held id).bind (·.predicate)

/-- Init: the predicates of the snapshot. -/
def init (remembers : Bool) (pushdown : WirePushdown V) : FilterWorker V where
  remembers
  held id := pushdown.blob.bind fun blob =>
    (blob.document.predicates.find? (·.id = id)).map fun p =>
      ⟨p.revision, some (p.resolve blob.values pushdown.joinKeys)⟩

/-- A batch is asked for, with an update or without. -/
def receive (w : FilterWorker V) : Option (FilterBlob V) → FilterWorker V
  | some ⟨.delta updates, values⟩ => updates.foldl (apply values) w
  | _ => w

end FilterWorker

/-! ## The scan -/

/-- The loop of one partition and the worker behind it. -/
structure FilterSession (V : Type) where
  loop : FilterLoop V
  worker : FilterWorker V
  /-- The deltas made so far, each with the snapshots it was made of. -/
  deltas : List (WirePushdown V × List (PhysicalExpr V)) := []

namespace FilterSession

/-- The snapshots and the pushdown of init (`lib.rs:4836-4850`). -/
def start (remembers : Bool) (static : WirePushdown V) (readings : List (Reading V)) :
    Option (FilterSession V × List (PhysicalExpr V)) := do
  let (generation, snapshots) ← snapshotDynamicFilters readings
  let initial ← serializePhysicalForRemote K schema remote snapshots true
  let pushdown ← merge static initial
  let loop := { generation, predicateCount := initial.predicateCount }
  some (⟨loop, FilterWorker.init remembers pushdown, []⟩, snapshots)

/-- One turn: the update of the loop goes out with the request for a batch. -/
def step (s : FilterSession V) (turn : FilterTick V) : Option (FilterSession V) := do
  let (loop, delta) ← s.loop.tick K schema remote turn
  let worker := s.worker.receive (loop.tickPushdown.bind (·.blob))
  some ⟨loop, worker, s.deltas ++ delta.toList⟩

end FilterSession

end VgiDatafusion
