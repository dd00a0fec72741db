import VgiDatafusion.Scan.Conform

/-!
# The accumulator of a VGI aggregate (aggregate.rs:356-365, 412-433, 595-665, 700-735)

| here | there |
| --- | --- |
| `AggregateCall` | what `make_accumulator` fixes; whether a parameter is constant is the client library's |
| `VgiAccumulator.push`, `.collected` | `push`, `collected` |
| `.updateBatch`, `.mergeBatch`, `.state` | the methods of `Accumulator` |
| `.inputBatch` | the batch `evaluate` sends, with or without the window callback |
| `Column.concat` | arrow's `concat`: at least one array, all of one type |
| `StateArray` | a column of partial states: of each a list, with the type of its items |

A worker aggregate has no state of its own that could be handed over, so the rows are the state: every argument has a list
of chunks. Arrow's limit on the length of an array is not modelled.
-/
namespace VgiDatafusion

variable {V : Type}

/-! ## Arrays -/

def Column.empty (dataType : DataType) : Column V := { dataType, cells := [] }

/-- arrow's `concat` kernel, with its two error texts. -/
def Column.concat : List (Column V) → Except String (Column V)
  | [] => .error "concat requires input of at least one array"
  | c :: rest =>
    if rest.all (·.dataType = c.dataType) then .ok { dataType := c.dataType, cells := (c :: rest).flatMap (·.cells) }
    else .error "It is not possible to concatenate arrays of different data types"

/-- A NULL list is a partial that has none. -/
inductive StateArray (V : Type)
  | list (itemType : DataType) (lists : List (Option (Column V)))
  | other

/-! ## The accumulator -/

/-- What `make_accumulator` hands to `VgiAccumulator` (`aggregate.rs:412-436`): the name, the argument types and which of
them are constants. -/
structure AggregateCall where
  function : String
  argTypes : List DataType
  rowWitness : Bool
  positionalIsConst : Nat → Bool

/-- `VgiAccumulator` (`aggregate.rs:412-436`): of every argument the chunks seen so far; the window worker is `WindowSystem`. -/
structure VgiAccumulator (V : Type) where
  call : AggregateCall
  buffered : List (List (Column V)) := []

namespace VgiAccumulator

variable (acc : VgiAccumulator V)

/-- `VgiAccumulator::push` (`aggregate.rs:596-605`): each value array becomes one more chunk of its argument. -/
def push (values : List (Column V)) : VgiAccumulator V :=
  let buffered := if acc.buffered.isEmpty then List.replicate values.length [] else acc.buffered
  { acc with buffered := buffered.mapIdx fun i chunks => chunks ++ values[i]?.toList }

/-- One array for each declared argument, an empty one where nothing was seen. -/
def collectedAt (entry : DataType × Nat) : Except String (Column V) :=
  match acc.buffered[entry.2]? with
  | some (chunk :: chunks) => Column.concat (chunk :: chunks)
  | _ => .ok (Column.empty entry.1)

/-- `VgiAccumulator::collected` (`aggregate.rs:614-626`): an argument without chunks is an empty array of its type. -/
def collected : Except String (List (Column V)) := acc.call.argTypes.zipIdx.mapM acc.collectedAt

/-- `VgiAccumulator::update_batch` (`aggregate.rs:630-633`). -/
def updateBatch (values : List (Column V)) : VgiAccumulator V := acc.push values

/-- `VgiAccumulator::state` (`aggregate.rs:700-714`): for each argument the list of its items. -/
def state : Except String (List (Column V)) := acc.collected

/-- The loop body of `VgiAccumulator::merge_batch` (`aggregate.rs:635-665`): the lists of one column of states, one after the
other. -/
def flattenState (function : String) : StateArray V → Except String (Column V)
  | .other => .error s!"VGI aggregate `{function}` state is not a list"
  | .list itemType lists =>
    match lists.filterMap id with
    | [] => .ok (Column.empty itemType)
    | part :: parts => Column.concat (part :: parts)

/-- `VgiAccumulator::merge_batch` (`aggregate.rs:635-665`): all columns are flattened before any of them is pushed. -/
def mergeBatch (states : List (StateArray V)) : Except String (VgiAccumulator V) := do
  let flattened ← states.mapM (flattenState acc.call.function)
  .ok (acc.push flattened)

end VgiAccumulator

/-- The arguments that are columns, and where. -/
def AggregateCall.columnInputs (call : AggregateCall) : List (DataType × Nat) :=
  call.argTypes.zipIdx.filter fun entry => !call.positionalIsConst entry.2

/-- `column_input_fields` (`aggregate.rs:356-364`): the arguments that are not constants, under positional names. -/
def AggregateCall.columnInputFields (call : AggregateCall) : List Field :=
  call.columnInputs.zipIdx.map fun (entry, column) =>
    { name := s!"col_{column}", dataType := entry.1, nullable := true }

/-- What is sent is neither the row witness nor a constant. -/
def AggregateCall.sends (call : AggregateCall) (i : Nat) : Bool := !call.rowWitness && !call.positionalIsConst i

/-- Of something that there is for each argument, that for the arguments that are sent. -/
def AggregateCall.sent {α : Type} (call : AggregateCall) (values : List α) : List α :=
  (values.zipIdx.filter fun entry => call.sends entry.2).map (·.1)

/-- The length of the first array, none having none. -/
def height (values : List (Column V)) : Nat := (values.head?.map (·.cells.length)).getD 0

/-- The batch that `VgiAccumulator::evaluate` (`aggregate.rs:716-804`) sends, constants left out. -/
def VgiAccumulator.inputBatch (acc : VgiAccumulator V) : Except String (RecordBatch V) := do
  let collected ← acc.collected
  let fields := if acc.call.rowWitness then [] else acc.call.columnInputFields
  (RecordBatch.tryNew { fields } (acc.call.sent collected) (height collected)).mapError (·.message)

/-! ## Trees of partial aggregations -/

/-- How an accumulator came about: from batches, and from the states of others. -/
inductive AccumulatorTree (V : Type)
  | fresh
  | update (acc : AccumulatorTree V) (values : List (Column V))
  | merge (acc : AccumulatorTree V) (partials : List (AccumulatorTree V))

/-- The states of several partials, argument by argument (`state_fields`). -/
def stateArrays (call : AggregateCall) (states : List (List (Column V))) : List (StateArray V) :=
  call.argTypes.zipIdx.map fun (itemType, i) => .list itemType (states.map (·[i]?))

namespace AccumulatorTree

mutual

/-- What an accumulator holds at the root of such a tree. -/
def run (call : AggregateCall) : AccumulatorTree V → Except String (VgiAccumulator V)
  | fresh => .ok { call }
  | update acc values => do
    let acc ← run call acc
    .ok (acc.updateBatch values)
  | merge acc partials => do
    let acc ← run call acc
    let states ← runStates call partials
    acc.mergeBatch (stateArrays call states)

def runStates (call : AggregateCall) : List (AccumulatorTree V) → Except String (List (List (Column V)))
  | [] => .ok []
  | partialTree :: partials => do
    let acc ← run call partialTree
    let state ← acc.state
    let states ← runStates call partials
    .ok (state :: states)

end

mutual

/-- The batches in the order in which they were merged. -/
def batches : AccumulatorTree V → List (List (Column V))
  | fresh => []
  | update acc values => batches acc ++ [values]
  | merge acc partials => batches acc ++ batchesOf partials

def batchesOf : List (AccumulatorTree V) → List (List (Column V))
  | [] => []
  | partialTree :: partials => batches partialTree ++ batchesOf partials

end

/-- One accumulator that sees the batches one after the other. -/
def single (batches : List (List (Column V))) : AccumulatorTree V := batches.foldl update fresh

end AccumulatorTree

/-- What the engine passes to `update_batch`: an array for each argument, of its type, all of one length. -/
def FitsCall (call : AggregateCall) (values : List (Column V)) : Prop :=
  ∃ rows, List.Forall₂ (fun ty c => c.dataType = ty ∧ c.cells.length = rows) call.argTypes values

end VgiDatafusion
