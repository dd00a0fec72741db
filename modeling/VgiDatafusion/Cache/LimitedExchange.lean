import Mathlib.Logic.Relation
import VgiDatafusion.Cache.PlainExchange
import VgiDatafusion.Scan.Conform
import VgiDatafusion.Scan.Keys

/-!
# The limited exchange agrees with the full one (table_input_stream.rs:163-330, table_input.rs:1313-1397)

| here | there |
| --- | --- |
| `childItems` | the child's partitions, one after the other |
| `fullScan` | the unlimited path of `VgiTableInputProvider::scan`, with `MemorySourceConfig`'s projection |
| `LimitedState`, `LimitedStep` | the two tasks and two channels of `VgiLimitedTableInputExec::execute` |
| `limitedBatch` | the loop body from `conform` to `slice` |
| `Ended` | the consumer has read the stream to its end, without an error |

The child task, the blocking worker task and the consumer take steps in any order; the channels hold two
items each, and the consumer may drop the stream at any moment. At every moment the rows that left the
worker task are the first `limit` rows of what the inputs it has taken yield (`Good`). The task ends early
only with `limit` rows sent, so a stream read to its end is cut from the full result
(`limited_eq_take_full`). A panic of a task is left out.
-/
namespace VgiDatafusion

open Program Exchange

variable {V : Type}

/-- `RecordBatch::try_new`: without a column there is no row count. -/
def rebuilt (schema : Schema) (b : RecordBatch V) : Except ConformError (RecordBatch V) :=
  match b.columns with
  | [] => .error .arrow
  | c :: _ => RecordBatch.tryNew schema b.columns c.cells.length

def RecordBatch.project (b : RecordBatch V) (indices : List Nat) : Except ConformError (RecordBatch V) :=
  match indices.mapM (b.schema.fields[·]?), indices.mapM (b.columns[·]?) with
  | some fields, some columns => RecordBatch.tryNew { fields, metadata := b.schema.metadata } columns b.rows
  | _, _ => .error .arrow

/-- The schemas and the projection of one TABLE-input call. -/
structure TableInput where
  inputSchema : Schema
  outputSchema : Schema
  projection : Option (List Nat)

/-- What a partition of the child yields: `execute` fails, or a stream of batches and errors. -/
abbrev ChildPartition (V : Type) := Except String (List (Except String (RecordBatch V)))

/-- The items of the child's partitions, one partition after the other. -/
def childItems (partitions : List (ChildPartition V)) : List (Except String (RecordBatch V)) :=
  partitions.flatMap fun partition =>
    match partition with
    | .ok items => items
    | .error error => [.error error]

namespace TableInput

variable (table : TableInput)

def rebuilt (b : RecordBatch V) : Except String (RecordBatch V) :=
  (VgiDatafusion.rebuilt table.inputSchema b).mapError (·.message)

/-- `conform` to the output schema. -/
def conformed (answer : RecordBatch V) : Except String (RecordBatch V) :=
  (conform none answer table.outputSchema).mapError (·.message)

/-- The projection of the scan, if any. -/
def projected (b : RecordBatch V) : Except String (RecordBatch V) :=
  match table.projection with
  | some projection => (b.project projection).mapError (·.message)
  | none => .ok b

/-! ## The full path -/

/-- Every batch of the child, rebuilt; the first error ends it. -/
def inputs (partitions : List (ChildPartition V)) : Except String (List (RecordBatch V)) := do
  let batches ← (childItems partitions).mapM id
  batches.mapM table.rebuilt

/-- The unlimited path of the scan (`table_input.rs:1313-1397`). -/
def fullScan {K : Type} (ops : ExchangeOps (RecordBatch V)) (function : String) (shapeIneligible : Bool)
    (partitions : List (ChildPartition V)) : ExchangeM K (RecordBatch V) (List (RecordBatch V)) := do
  let inputs ← liftExcept (table.inputs partitions)
  let out ← runExchange ops function shapeIneligible inputs
  let out ← liftExcept (out.mapM table.conformed)
  liftExcept (out.mapM table.projected)

/-! ## The limited path -/

/-- An answer on its way to the output channel, with `emitted` rows sent before it. -/
def limitedBatch (limit : UInt64) (emitted : Nat) (answer : RecordBatch V) : Except String (RecordBatch V) := do
  let batch ← table.conformed answer
  let batch ← table.projected batch
  let remaining := limit.toNat - emitted
  return if remaining < batch.rows then batch.slice 0 remaining else batch

end TableInput

/-- Where the worker task stands (`table_input_stream.rs:163-330`). -/
inductive LimitedPhase (V : Type)
  /-- Not polled yet. -/
  | idle
  /-- Connecting, attaching, binding, opening the exchange. -/
  | starting
  | receiving (emitted : Nat)
  /-- In `output_tx.blocking_send`; `emitted` counts the batch. -/
  | sending (batch : RecordBatch V) (emitted : Nat)
  | failing (error : String)
  | finished

/-- The child task, the worker task and the consumer with the two channels between them. -/
structure LimitedState (V : Type) where
  /-- What the child task has yet to send. -/
  child : List (Except String (RecordBatch V))
  input : List (Except String (RecordBatch V)) := []
  phase : LimitedPhase V
  output : List (Except String (RecordBatch V)) := []
  received : List (Except String (RecordBatch V)) := []
  listening : Bool := true

/-- With `limit` 0 the stream is empty and no task is started. -/
def LimitedState.initial (limit : UInt64) (partitions : List (ChildPartition V)) : LimitedState V where
  child := childItems partitions
  phase := if limit = 0 then .finished else .idle

def channelCapacity : Nat := 2

def TableInput.afterReply (table : TableInput) (limit : UInt64) (emitted : Nat) :
    Except String (Option (RecordBatch V)) → LimitedPhase V
  | .error error => .failing error
  | .ok none => .receiving emitted
  | .ok (some answer) =>
    match table.limitedBatch limit emitted answer with
    | .error error => .failing error
    | .ok batch => .sending batch (emitted + batch.rows)

/-- `replies rowLimit input reply`: the worker, opened with this advisory `row_limit`, may reply so. -/
inductive LimitedStep (table : TableInput) (limit : UInt64)
    (replies : Option Int64 → RecordBatch V → Except String (Option (RecordBatch V)) → Prop) :
    LimitedState V → LimitedState V → Prop
  | poll {s : LimitedState V} (hphase : s.phase = .idle) (hlistening : s.listening = true) :
    LimitedStep table limit replies s { s with phase := .starting }
  | childBatch {s : LimitedState V} {batch : RecordBatch V} {rest : List (Except String (RecordBatch V))}
    (hchild : s.child = .ok batch :: rest) (hroom : s.input.length < channelCapacity) (hstarted : s.phase ≠ .idle)
    (hopen : s.phase ≠ .finished) :
    LimitedStep table limit replies s { s with child := rest, input := s.input ++ [.ok batch] }
  /-- The child task returns after an error. -/
  | childError {s : LimitedState V} {error : String} {rest : List (Except String (RecordBatch V))}
    (hchild : s.child = .error error :: rest) (hroom : s.input.length < channelCapacity) (hstarted : s.phase ≠ .idle)
    (hopen : s.phase ≠ .finished) :
    LimitedStep table limit replies s { s with child := [], input := s.input ++ [.error error] }
  | opened {s : LimitedState V} (hphase : s.phase = .starting) :
    LimitedStep table limit replies s { s with phase := .receiving 0 }
  | openFails {s : LimitedState V} (hphase : s.phase = .starting) (error : String) :
    LimitedStep table limit replies s { s with phase := .failing error }
  | takeError {s : LimitedState V} {emitted : Nat} {error : String} {rest : List (Except String (RecordBatch V))}
    (hphase : s.phase = .receiving emitted) (hinput : s.input = .error error :: rest) :
    LimitedStep table limit replies s { s with input := rest, phase := .failing error }
  | rebuildFails {s : LimitedState V} {emitted : Nat} {batch : RecordBatch V} {error : String}
    {rest : List (Except String (RecordBatch V))} (hphase : s.phase = .receiving emitted)
    (hinput : s.input = .ok batch :: rest) (hrebuilt : table.rebuilt batch = .error error) :
    LimitedStep table limit replies s { s with input := rest, phase := .failing error }
  | answered {s : LimitedState V} {emitted : Nat} {batch input : RecordBatch V}
    {rest : List (Except String (RecordBatch V))} {reply : Except String (Option (RecordBatch V))}
    (hphase : s.phase = .receiving emitted) (hinput : s.input = .ok batch :: rest)
    (hrebuilt : table.rebuilt batch = .ok input) (hreply : replies (i64TryFrom limit) input reply) :
    LimitedStep table limit replies s { s with input := rest, phase := table.afterReply limit emitted reply }
  /-- `blocking_recv` returned nothing: the child task has sent everything and dropped its end. -/
  | closed {s : LimitedState V} {emitted : Nat} (hphase : s.phase = .receiving emitted) (hinput : s.input = [])
    (hchild : s.child = []) : LimitedStep table limit replies s { s with phase := .finished }
  | closeFails {s : LimitedState V} {emitted : Nat} (hphase : s.phase = .receiving emitted) (hinput : s.input = [])
    (hchild : s.child = []) (error : String) : LimitedStep table limit replies s { s with phase := .failing error }
  | sent {s : LimitedState V} {batch : RecordBatch V} {emitted : Nat} (hphase : s.phase = .sending batch emitted)
    (hlistening : s.listening = true) (hroom : s.output.length < channelCapacity) :
    LimitedStep table limit replies s { s with
      output := s.output ++ [.ok batch]
      phase := if limit.toNat ≤ emitted then .finished else .receiving emitted }
  /-- The consumer is gone. -/
  | unsent {s : LimitedState V} {batch : RecordBatch V} {emitted : Nat} (hphase : s.phase = .sending batch emitted)
    (hlistening : s.listening = false) : LimitedStep table limit replies s { s with phase := .finished }
  | failed {s : LimitedState V} {error : String} (hphase : s.phase = .failing error) (hlistening : s.listening = true)
    (hroom : s.output.length < channelCapacity) :
    LimitedStep table limit replies s { s with output := s.output ++ [.error error], phase := .finished }
  | failedUnheard {s : LimitedState V} {error : String} (hphase : s.phase = .failing error)
    (hlistening : s.listening = false) : LimitedStep table limit replies s { s with phase := .finished }
  | consume {s : LimitedState V} {item : Except String (RecordBatch V)} {rest : List (Except String (RecordBatch V))}
    (hlistening : s.listening = true) (houtput : s.output = item :: rest) :
    LimitedStep table limit replies s { s with output := rest, received := s.received ++ [item] }
  | drop {s : LimitedState V} : LimitedStep table limit replies s { s with listening := false }

/-- The stream has ended, and these were its batches. -/
structure Ended (s : LimitedState V) (batches : List (RecordBatch V)) : Prop where
  listening : s.listening = true
  phase : s.phase = .finished
  output : s.output = []
  received : s.received = batches.map .ok

/-! ## What the limited path has sent -/

section
variable {K : Type} (table : TableInput) (W : BatchWorker K (RecordBatch V))

/-- The rows of an answer, conformed and projected. -/
def TableInput.answerRows (answer : RecordBatch V) : List (List (Option V)) :=
  match (table.conformed answer).bind table.projected with
  | .error _ => []
  | .ok b => b.rowList

/-- The rows that one batch of the child comes to. -/
def TableInput.yields (batch : RecordBatch V) : List (List (Option V)) :=
  match table.rebuilt batch with
  | .error _ => []
  | .ok input => (W.plain input).flatMap table.answerRows

end

def itemRows : Except String (RecordBatch V) → List (List (Option V))
  | .ok b => b.rowList
  | .error _ => []

def LimitedPhase.rows : LimitedPhase V → List (List (Option V))
  | .sending batch _ => batch.rowList
  | _ => []

/-- The rows that left the loop of the worker task, wherever they are now. -/
def LimitedState.rows (s : LimitedState V) : List (List (Option V)) :=
  (s.received ++ s.output).flatMap itemRows ++ s.phase.rows

/-- What the worker task knows of the rows sent so far, in each of its phases. -/
def Accounted (limit : Nat) (yielded : List (List (Option V))) (s : LimitedState V) : Prop :=
  match s.phase with
  | .idle | .starting => 0 < limit ∧ yielded = []
  | .receiving emitted => emitted < limit ∧ emitted = s.rows.length
  | .sending _ emitted => emitted = s.rows.length
  | .failing _ => False
  | .finished => limit ≤ yielded.length ∨ (s.input = [] ∧ s.child = [])

/-- `taken` are the batches the worker task has taken out of the input channel. -/
structure Good (yields : RecordBatch V → List (List (Option V))) (limit : Nat) (batches taken : List (RecordBatch V))
    (s : LimitedState V) : Prop where
  source : taken.map .ok ++ (s.input ++ s.child) = batches.map .ok
  rows : s.rows = (taken.flatMap yields).take limit
  accounted : Accounted limit (taken.flatMap yields) s

/-- An error is on its way to the consumer. -/
def Failed (s : LimitedState V) : Prop :=
  (∃ error, s.phase = .failing error) ∨ ∃ error, .error error ∈ s.received ++ s.output

/-- While the consumer listens there is an error on its way, or all that was sent is accounted for. -/
def LimitedInv (yields : RecordBatch V → List (List (Option V))) (limit : Nat) (batches : List (RecordBatch V))
    (s : LimitedState V) : Prop :=
  s.listening = true → Failed s ∨ ∃ taken, Good yields limit batches taken s

variable {K : Type} {table : TableInput} {W : BatchWorker K (RecordBatch V)} {limit : UInt64}
  {batches : List (RecordBatch V)}

/-- The batch that is sent holds the rows that are missing, as far as the answer has them. -/
theorem limitedBatch_ok {emitted : Nat} {answer batch : RecordBatch V}
    (h : table.limitedBatch limit emitted answer = .ok batch) :
    ∃ b, (table.conformed answer).bind table.projected = .ok b ∧
      batch.rowList = b.rowList.take (limit.toNat - emitted) := by
  unfold TableInput.limitedBatch at h
  cases hconformed : table.conformed answer with
  | error e =>
    rw [hconformed] at h
    cases h
  | ok c =>
    cases hprojected : table.projected c with
    | error e =>
      simp [hconformed, hprojected, bind, Except.bind] at h
    | ok b =>
      simp only [hconformed, hprojected, bind, Except.bind, pure, Except.pure, Except.ok.injEq] at h
      refine ⟨b, hprojected, ?_⟩
      by_cases hcut : limit.toNat - emitted < b.rows
      · rw [if_pos hcut] at h
        rw [← h, RecordBatch.rowList_slice, List.drop_zero]
      · rw [if_neg hcut] at h
        rw [← h, List.take_of_length_le]
        rw [RecordBatch.length_rowList]
        omega

/-- Nothing was cut off while there is room. -/
theorem Good.below {yields : RecordBatch V → List (List (Option V))} {limit : Nat} {taken : List (RecordBatch V)}
    {s : LimitedState V} (h : Good yields limit batches taken s) (hroom : s.rows.length < limit) :
    s.rows = taken.flatMap yields := by
  have hlength := congrArg List.length h.rows
  rw [List.length_take] at hlength
  rw [h.rows, List.take_of_length_le]
  omega

/-- One batch taken, with the rows it comes to. -/
theorem Good.take {yields : RecordBatch V → List (List (Option V))} {limit : Nat} {taken : List (RecordBatch V)}
    {s : LimitedState V} (h : Good yields limit batches taken s) {batch : RecordBatch V}
    {rest : List (Except String (RecordBatch V))} (hinput : s.input = .ok batch :: rest)
    (hroom : s.rows.length < limit) {phase : LimitedPhase V} (hidle : s.phase.rows = [])
    (hrows : phase.rows = (yields batch).take (limit - s.rows.length))
    (haccounted : Accounted limit ((taken ++ [batch]).flatMap yields) { s with input := rest, phase }) :
    Good yields limit batches (taken ++ [batch]) { s with input := rest, phase } where
  source := by
    rw [← h.source, hinput]
    simp
  rows := by
    have hbelow := h.below hroom
    have hshort : (taken.flatMap yields).length ≤ limit := by
      rw [← hbelow]
      omega
    have hdelivered : (s.received ++ s.output).flatMap itemRows = taken.flatMap yields := by
      simpa [LimitedState.rows, hidle] using hbelow
    have htaken : (taken ++ [batch]).flatMap yields = taken.flatMap yields ++ yields batch := by simp
    rw [htaken, List.take_append, List.take_of_length_le hshort, ← hbelow, ← hrows, hbelow, ← hdelivered]
    rfl
  accounted := haccounted

/-! ## Every step keeps the account -/

variable {replies : Option Int64 → RecordBatch V → Except String (Option (RecordBatch V)) → Prop}

theorem limitedInv_initial {partitions : List (ChildPartition V)} (hitems : childItems partitions = batches.map .ok) :
    LimitedInv (table.yields W) limit.toNat batches (.initial limit partitions) := by
  intro _
  refine Or.inr ⟨[], ?_, ?_, ?_⟩
  · simpa [LimitedState.initial] using hitems
  · by_cases hzero : limit = 0 <;> simp [LimitedState.initial, LimitedState.rows, LimitedPhase.rows, hzero]
  · by_cases hzero : limit = 0
    · simp [Accounted, LimitedState.initial, hzero]
    · have hpos : 0 < limit.toNat := by
        rcases Nat.eq_zero_or_pos limit.toNat with h | h
        · exact absurd (UInt64.toNat_inj.1 h) hzero
        · exact h
      simp [Accounted, LimitedState.initial, hzero, hpos]

/-- A reply of the worker to the batch just taken. -/
theorem afterReply_good {s : LimitedState V} {taken : List (RecordBatch V)} {emitted : Nat} {batch input : RecordBatch V}
    {rest : List (Except String (RecordBatch V))} {reply : Except String (Option (RecordBatch V))}
    (hgood : Good (table.yields W) limit.toNat batches taken s) (hphase : s.phase = .receiving emitted)
    (hinput : s.input = .ok batch :: rest) (hrebuilt : table.rebuilt batch = .ok input)
    (hreply : ∀ answer, reply = .ok answer → answer = W.answer input) :
    Failed { s with input := rest, phase := table.afterReply limit emitted reply } ∨
      ∃ taken, Good (table.yields W) limit.toNat batches taken
        { s with input := rest, phase := table.afterReply limit emitted reply } := by
  obtain ⟨hroom, hemitted⟩ : emitted < limit.toNat ∧ emitted = s.rows.length := by
    simpa [Accounted, hphase] using hgood.accounted
  have hidle : s.phase.rows = [] := by rw [hphase]; rfl
  have hdelivered : s.rows = (s.received ++ s.output).flatMap itemRows := by
    simp [LimitedState.rows, hidle]
  cases reply with
  | error error => exact Or.inl (Or.inl ⟨error, rfl⟩)
  | ok answer =>
    have hanswer := hreply answer rfl
    cases answer with
    | none =>
      have hyields : table.yields W batch = [] := by
        simp [TableInput.yields, hrebuilt, BatchWorker.plain, ← hanswer]
      refine Or.inr ⟨taken ++ [batch], hgood.take hinput (hemitted ▸ hroom) hidle ?_ ⟨hroom, ?_⟩⟩
      · rw [hyields, List.take_nil]
        rfl
      · rw [hemitted, hdelivered]
        simp [LimitedState.rows, LimitedPhase.rows, TableInput.afterReply]
    | some answer =>
      cases hbatch : table.limitedBatch limit emitted answer with
      | error error =>
        refine Or.inl (Or.inl ⟨error, ?_⟩)
        simp [TableInput.afterReply, hbatch]
      | ok cut =>
        obtain ⟨b, hb, hrows⟩ := limitedBatch_ok hbatch
        have hyields : table.yields W batch = b.rowList := by
          simp [TableInput.yields, hrebuilt, BatchWorker.plain, ← hanswer, TableInput.answerRows, hb]
        have hphase' : table.afterReply limit emitted (.ok (some answer)) = .sending cut (emitted + cut.rows) := by
          simp [TableInput.afterReply, hbatch]
        rw [hphase']
        refine Or.inr ⟨taken ++ [batch], hgood.take hinput (hemitted ▸ hroom) hidle ?_ ?_⟩
        · rw [hyields, ← hemitted, ← hrows]
          rfl
        · simp only [Accounted, LimitedState.rows, LimitedPhase.rows, List.length_append, RecordBatch.length_rowList]
          rw [hemitted, hdelivered]

theorem Failed.of_items {s s' : LimitedState V} (h : Failed s) (hphase : ∀ error, s.phase ≠ .failing error)
    (hitems : ∀ item ∈ s.received ++ s.output, item ∈ s'.received ++ s'.output) : Failed s' := by
  rcases h with ⟨error, herror⟩ | ⟨error, herror⟩
  · exact absurd herror (hphase error)
  · exact Or.inr ⟨error, hitems _ herror⟩

/-- Where nothing left the worker task, the account stands as it was. -/
theorem Good.same {yields : RecordBatch V → List (List (Option V))} {limit : Nat} {taken : List (RecordBatch V)}
    {s s' : LimitedState V} (h : Good yields limit batches taken s)
    (hsource : s'.input ++ s'.child = s.input ++ s.child) (hrows : s'.rows = s.rows)
    (haccounted : Accounted limit (taken.flatMap yields) s') : Good yields limit batches taken s' where
  source := by
    rw [hsource]
    exact h.source
  rows := hrows.trans h.rows
  accounted := haccounted

section Steps
variable {yields : RecordBatch V → List (List (Option V))} {limit : Nat} {taken : List (RecordBatch V)} {s : LimitedState V}

/-- A phase in which no batch is on its way holds no rows. -/
theorem LimitedState.rows_phase {phase : LimitedPhase V} (h : phase.rows = s.phase.rows) :
    LimitedState.rows { s with phase } = s.rows := by
  simp [LimitedState.rows, h]

theorem Good.poll (h : Good yields limit batches taken s) (hphase : s.phase = .idle) :
    Good yields limit batches taken { s with phase := .starting } := by
  have haccounted : 0 < limit ∧ taken.flatMap yields = [] := by simpa [Accounted, hphase] using h.accounted
  exact h.same rfl (LimitedState.rows_phase (by rw [hphase]; rfl)) haccounted

/-- The exchange is open: nothing was taken, so nothing was sent. -/
theorem Good.opened (h : Good yields limit batches taken s) (hphase : s.phase = .starting) :
    Good yields limit batches taken { s with phase := .receiving 0 } := by
  have haccounted : 0 < limit ∧ taken.flatMap yields = [] := by simpa [Accounted, hphase] using h.accounted
  have hrows : s.rows = [] := by
    rw [h.rows, haccounted.2, List.take_nil]
  have hsame : LimitedState.rows { s with phase := .receiving 0 } = s.rows :=
    LimitedState.rows_phase (by rw [hphase]; rfl)
  refine h.same rfl hsame ⟨haccounted.1, ?_⟩
  rw [hsame, hrows]
  rfl

/-- A batch of the child moves to the input channel; the worker task is not done, so its account says nothing of either. -/
theorem Good.childBatch (h : Good yields limit batches taken s) {batch : RecordBatch V}
    {rest : List (Except String (RecordBatch V))} (hchild : s.child = .ok batch :: rest) (hopen : s.phase ≠ .finished) :
    Good yields limit batches taken { s with child := rest, input := s.input ++ [.ok batch] } := by
  refine h.same (by simp [hchild]) rfl ?_
  have haccounted := h.accounted
  unfold Accounted at haccounted ⊢
  cases hphase : s.phase with
  | finished => exact absurd hphase hopen
  | failing error => simp [hphase] at haccounted
  | idle | starting | receiving emitted | sending batch emitted =>
    simpa [hphase, LimitedState.rows] using haccounted

/-- The child's batches are all good. -/
theorem Good.no_childError (h : Good yields limit batches taken s) {error : String}
    {rest : List (Except String (RecordBatch V))} (hchild : s.child = .error error :: rest) : False := by
  have hmem : (.error error : Except String (RecordBatch V)) ∈ batches.map .ok := by
    rw [← h.source, hchild]
    simp
  simp at hmem

/-- The input ended: what is sent is all there was. -/
theorem Good.closed (h : Good yields limit batches taken s) {emitted : Nat} (hphase : s.phase = .receiving emitted)
    (hinput : s.input = []) (hchild : s.child = []) : Good yields limit batches taken { s with phase := .finished } :=
  h.same rfl (LimitedState.rows_phase (by rw [hphase]; rfl)) (Or.inr ⟨hinput, hchild⟩)

/-- A batch is sent; the loop ends where the limit is reached. -/
theorem Good.sent (h : Good yields limit batches taken s) {batch : RecordBatch V} {emitted : Nat}
    (hphase : s.phase = .sending batch emitted) :
    Good yields limit batches taken { s with
      output := s.output ++ [.ok batch]
      phase := if limit ≤ emitted then .finished else .receiving emitted } := by
  have hemitted : emitted = s.rows.length := by simpa [Accounted, hphase] using h.accounted
  have hbatch : s.phase.rows = batch.rowList := by rw [hphase]; rfl
  have hsame : ∀ phase : LimitedPhase V, phase.rows = [] →
      LimitedState.rows { s with output := s.output ++ [.ok batch], phase } = s.rows := by
    intro phase hnone
    simp [LimitedState.rows, hbatch, hnone, itemRows]
  by_cases hfull : limit ≤ emitted
  · rw [if_pos hfull]
    refine h.same rfl (hsame _ rfl) (Or.inl ?_)
    have hlength := congrArg List.length h.rows
    rw [List.length_take] at hlength
    omega
  · rw [if_neg hfull]
    refine h.same rfl (hsame _ rfl) ⟨by omega, ?_⟩
    rw [hsame _ rfl]
    exact hemitted

theorem Good.consume (h : Good yields limit batches taken s) {item : Except String (RecordBatch V)}
    {rest : List (Except String (RecordBatch V))} (houtput : s.output = item :: rest) :
    Good yields limit batches taken { s with output := rest, received := s.received ++ [item] } := by
  have hsame : LimitedState.rows { s with output := rest, received := s.received ++ [item] } = s.rows := by
    simp [LimitedState.rows, houtput]
  refine h.same rfl hsame ?_
  have haccounted := h.accounted
  unfold Accounted at haccounted ⊢
  rw [hsame]
  exact haccounted

/-- What one step has to keep: an error on its way stays, and an account leads to an account or to an error. -/
theorem LimitedInv.step {s' : LimitedState V} (h : LimitedInv yields limit batches s)
    (hlistening : s'.listening = s.listening) (hfailed : Failed s → Failed s')
    (hgood : ∀ taken, Good yields limit batches taken s → Failed s' ∨ ∃ taken, Good yields limit batches taken s') :
    LimitedInv yields limit batches s' := by
  intro hheard
  rcases h (hlistening ▸ hheard) with hbefore | ⟨taken, hbefore⟩
  · exact Or.inl (hfailed hbefore)
  · exact hgood taken hbefore

theorem LimitedInv.of_failed {s' : LimitedState V} (h : Failed s') : LimitedInv yields limit batches s' :=
  fun _ => Or.inl h

end Steps

theorem limitedInv_step (hreplies : ∀ rowLimit input answer, replies rowLimit input (.ok answer) → answer = W.answer input)
    {s s' : LimitedState V} (hstep : LimitedStep table limit replies s s')
    (hinv : LimitedInv (table.yields W) limit.toNat batches s) :
    LimitedInv (table.yields W) limit.toNat batches s' := by
  cases hstep with
  | poll hphase _ =>
    refine hinv.step rfl (fun hfailed => hfailed.of_items (by simp [hphase]) fun _ h => h) ?_
    exact fun taken hgood => Or.inr ⟨taken, hgood.poll hphase⟩
  | childBatch hchild _ _ hopen =>
    exact hinv.step rfl id fun taken hgood => Or.inr ⟨taken, hgood.childBatch hchild hopen⟩
  | childError hchild =>
    exact hinv.step rfl id fun _ hgood => absurd hchild hgood.no_childError
  | opened hphase =>
    refine hinv.step rfl (fun hfailed => hfailed.of_items (by simp [hphase]) fun _ h => h) ?_
    exact fun taken hgood => Or.inr ⟨taken, hgood.opened hphase⟩
  | openFails _ error => exact .of_failed (Or.inl ⟨error, rfl⟩)
  | takeError => exact .of_failed (Or.inl ⟨_, rfl⟩)
  | rebuildFails => exact .of_failed (Or.inl ⟨_, rfl⟩)
  | answered hphase hinput hrebuilt hreply =>
    refine hinv.step rfl (fun hfailed => hfailed.of_items (by simp [hphase]) fun _ h => h) fun taken hgood => ?_
    apply afterReply_good hgood hphase hinput hrebuilt
    rintro answer rfl
    exact hreplies _ _ _ hreply
  | closed hphase hinput hchild =>
    refine hinv.step rfl (fun hfailed => hfailed.of_items (by simp [hphase]) fun _ h => h) ?_
    exact fun taken hgood => Or.inr ⟨taken, hgood.closed hphase hinput hchild⟩
  | closeFails _ _ _ error => exact .of_failed (Or.inl ⟨error, rfl⟩)
  | sent hphase =>
    refine hinv.step rfl (fun hfailed => hfailed.of_items (by simp [hphase]) ?_) ?_
    · intro item hitem
      simp only [List.mem_append] at hitem ⊢
      tauto
    · exact fun taken hgood => Or.inr ⟨taken, hgood.sent hphase⟩
  | unsent _ hgone | failedUnheard _ hgone =>
    -- nobody listens any more
    intro hheard
    simp [hgone] at hheard
  | @failed error => exact .of_failed (Or.inr ⟨error, by simp⟩)
  | @consume item rest _ houtput =>
    refine hinv.step rfl ?_ fun taken hgood => Or.inr ⟨taken, hgood.consume houtput⟩
    rintro (hphase | ⟨error, herror⟩)
    · exact Or.inl hphase
    · exact Or.inr ⟨error, by simpa [houtput] using herror⟩
  | drop =>
    intro hheard
    cases hheard

theorem limitedInv_reachable {partitions : List (ChildPartition V)} (hitems : childItems partitions = batches.map .ok)
    (hreplies : ∀ rowLimit input answer, replies rowLimit input (.ok answer) → answer = W.answer input)
    {s : LimitedState V} (hrun : Relation.ReflTransGen (LimitedStep table limit replies) (.initial limit partitions) s) :
    LimitedInv (table.yields W) limit.toNat batches s := by
  induction hrun with
  | refl => exact limitedInv_initial hitems
  | tail _ hstep ih => exact limitedInv_step hreplies hstep ih

/-! ## What the full path returns -/

theorem Except.bind_ok {ε α β : Type} {r : Except ε α} {f : α → Except ε β} {b : β} :
    r.bind f = .ok b ↔ ∃ a, r = .ok a ∧ f a = .ok b := by
  cases r with
  | error e => simp [Except.bind]
  | ok a => simp [Except.bind]

/-- The batches of the child, and each of them rebuilt. -/
theorem inputs_ok {partitions : List (ChildPartition V)} {inputs : List (RecordBatch V)}
    (h : table.inputs partitions = .ok inputs) : ∃ batches, childItems partitions = batches.map .ok ∧
      List.Forall₂ (fun batch input => table.rebuilt batch = .ok input) batches inputs := by
  obtain ⟨batches, hbatches, hinputs⟩ := Except.bind_ok.1 h
  have hitems : List.Forall₂ Eq (childItems partitions) (batches.map .ok) := by
    rw [List.forall₂_map_right_iff]
    exact ListFacts.mapM_ok_iff.1 hbatches
  rw [List.forall₂_eq_eq_eq] at hitems
  exact ⟨batches, hitems, ListFacts.mapM_ok_iff.1 hinputs⟩

theorem flatMap_yields {inputs : List (RecordBatch V)}
    (h : List.Forall₂ (fun batch input => table.rebuilt batch = .ok input) batches inputs) :
    batches.flatMap (table.yields W) = (inputs.flatMap W.plain).flatMap table.answerRows := by
  induction h with
  | nil => rfl
  | cons hrebuilt _ ih => simp [TableInput.yields, hrebuilt, ih]

theorem flatMap_answerRows {answers conformed out : List (RecordBatch V)}
    (hconformed : answers.mapM table.conformed = .ok conformed) (hout : conformed.mapM table.projected = .ok out) :
    out.flatMap RecordBatch.rowList = answers.flatMap table.answerRows := by
  have hfirst := ListFacts.mapM_ok_iff.1 hconformed
  have hsecond := ListFacts.mapM_ok_iff.1 hout
  clear hconformed hout
  induction hfirst generalizing out with
  | nil =>
    cases hsecond
    rfl
  | cons hc _ ih =>
    cases hsecond with
    | cons hp hrest => simp [TableInput.answerRows, hc, hp, Except.bind, ih hrest]

theorem wpOk_fullScan {ops : ExchangeOps (RecordBatch V)} {function : String} {shapeIneligible : Bool}
    {partitions : List (ChildPartition V)} {inputs : List (RecordBatch V)}
    (hinputs : table.inputs partitions = .ok inputs) {s : Conditions} :
    wpOk (exchangeProtocol W inputs).effects
      (table.fullScan ops function shapeIneligible partitions : ExchangeM K (RecordBatch V) (List (RecordBatch V))) s
      fun out _ => out.flatMap RecordBatch.rowList = (inputs.flatMap W.plain).flatMap table.answerRows := by
  apply wpOk_bind
  apply wpOk_liftExcept
  rintro inputs' hinputs'
  obtain rfl : inputs = inputs' := Except.ok.inj (hinputs.symm.trans hinputs')
  apply wpOk_then (wpOk_runExchange shapeIneligible)
  rintro _ s' rfl
  apply wpOk_bind
  apply wpOk_liftExcept
  intro conformed hconformed
  apply wpOk_liftExcept
  intro out hout
  exact flatMap_answerRows hconformed hout

theorem Ended.rows {s : LimitedState V} {limited : List (RecordBatch V)} (h : Ended s limited) :
    s.rows = limited.flatMap RecordBatch.rowList := by
  have hphase : s.phase.rows = [] := by rw [h.phase]; rfl
  simp [LimitedState.rows, hphase, h.received, h.output, List.flatMap_map, itemRows]

theorem Ended.not_failed {s : LimitedState V} {limited : List (RecordBatch V)} (h : Ended s limited) : ¬ Failed s := by
  rintro (⟨error, hphase⟩ | ⟨error, hmem⟩)
  · rw [h.phase] at hphase
    cases hphase
  · rw [h.received, h.output] at hmem
    simp at hmem

/-- A stream that was read to its end. -/
theorem Ended.take {s : LimitedState V} {limited : List (RecordBatch V)} (h : Ended s limited)
    {yields : RecordBatch V → List (List (Option V))} {limit : Nat} (hinv : LimitedInv yields limit batches s) :
    limited.flatMap RecordBatch.rowList = (batches.flatMap yields).take limit := by
  obtain ⟨taken, hgood⟩ := (hinv h.listening).resolve_left h.not_failed
  rw [← h.rows, hgood.rows]
  have hsource := hgood.source
  have haccounted : limit ≤ (taken.flatMap yields).length ∨ (s.input = [] ∧ s.child = []) := by
    simpa [Accounted, h.phase] using hgood.accounted
  rcases haccounted with hfull | ⟨hinput, hchild⟩
  · obtain ⟨rest, hrest⟩ : ∃ rest, batches = taken ++ rest := by
      have hmap := congrArg (List.map Except.toOption) hsource
      have hprefix : taken.map some <+: batches.map some := by
        refine ⟨(s.input ++ s.child).map Except.toOption, ?_⟩
        simpa [Function.comp_def, Except.toOption] using hmap
      obtain ⟨rest, hrest⟩ := (List.prefix_map_iff_of_injective fun _ _ => Option.some.inj).1 hprefix
      exact ⟨rest, hrest.symm⟩
    rw [hrest, List.flatMap_append, List.take_append_of_le_length hfull]
  · rw [hinput, hchild, List.append_nil, List.append_nil] at hsource
    rw [List.map_injective_iff.2 (fun _ _ => Except.ok.inj) hsource]

/-- **The limited exchange agrees with the full one**: when both end without an error, whatever the order in
which the tasks of the first took their steps and whatever the cache answered the second, the first returned
the first `limit` rows of the second, and no more. -/
theorem limited_eq_take_full {ops : ExchangeOps (RecordBatch V)} {function : String} {shapeIneligible : Bool}
    {partitions : List (ChildPartition V)}
    (hreplies : ∀ rowLimit input answer, replies rowLimit input (.ok answer) → answer = W.answer input)
    {s : LimitedState V} (hrun : Relation.ReflTransGen (LimitedStep table limit replies) (.initial limit partitions) s)
    {limited : List (RecordBatch V)} (hended : Ended s limited)
    {trace : List (Event (Question K (RecordBatch V)) Question.Reply)} {full : List (RecordBatch V)}
    (hfull : Runs (table.fullScan ops function shapeIneligible partitions :
      ExchangeM K (RecordBatch V) (List (RecordBatch V))).run trace (.ok full))
    (hallows : ∀ inputs, table.inputs partitions = .ok inputs → (exchangeProtocol W inputs).Allows (none, none) trace) :
    limited.flatMap RecordBatch.rowList = (full.flatMap RecordBatch.rowList).take limit.toNat ∧
      (limited.flatMap RecordBatch.rowList).length ≤ limit.toNat := by
  cases hinputs : table.inputs partitions with
  | error error =>
    rw [TableInput.fullScan, hinputs] at hfull
    cases hfull
  | ok inputs =>
    obtain ⟨batches, hitems, hrebuilt⟩ := inputs_ok hinputs
    have hfullRows : full.flatMap RecordBatch.rowList = batches.flatMap (table.yields W) := by
      rw [flatMap_yields hrebuilt]
      exact (wp_runs (wpOk_fullScan hinputs) hfull (hallows inputs hinputs)).2 full rfl
    have hlimited := hended.take (limitedInv_reachable hitems hreplies hrun)
    rw [← hfullRows] at hlimited
    refine ⟨hlimited, ?_⟩
    rw [hlimited, List.length_take]
    omega

/-! ### A limit inside the second partition -/

def countSchema : Schema := { fields := [{ name := "n", dataType := .int64, nullable := true }] }

theorem countBatch_fits (cells : List (Option Int)) :
    List.Forall₂ (fits cells.length) countSchema.fields [{ dataType := .int64, cells }] :=
  .cons ⟨rfl, rfl, by simp⟩ .nil

def countBatch (cells : List (Option Int)) : RecordBatch Int where
  schema := countSchema
  columns := [{ dataType := .int64, cells }]
  rows := cells.length
  fits := countBatch_fits cells

def countTable : TableInput where
  inputSchema := countSchema
  outputSchema := countSchema
  projection := some [0]

/-- Batches without rows are not answered, others with themselves. -/
def echo : BatchWorker Nat (RecordBatch Int) where
  answer input := if input.rows = 0 then none else some input
  stands _ := []

def countPartitions : List (ChildPartition Int) :=
  [.ok [.ok (countBatch [some 1, some 2])], .ok [.ok (countBatch []), .ok (countBatch [some 3, none])]]

def echoReplies (_ : Option Int64) (input : RecordBatch Int) (reply : Except String (Option (RecordBatch Int))) : Prop :=
  reply = .ok (echo.answer input)

/-- Nothing may be cached, so the full path sends every input. -/
def echoAll (_ : Conditions) : (q : Question Nat (RecordBatch Int)) → q.Reply
  | .acquire key => .producer key
  | .finish .. => ⟨⟩
  | .wait _ => .stored
  | .outside .bind => .ok { environmentIneligible := true, secretDependent := false }
  | .outside (.template _) => .ok none
  | .outside (.get _) | .outside (.getForRevalidation _) => none
  | .outside (.mayServeOnError _) | .outside .commitAllowed | .outside .hasPerValueOptIn => false
  | .outside (.eligibility ..) => .error "ineligible"
  | .outside (.insert ..) | .outside (.remove _) | .outside (.slide ..) | .outside .notePerValueOptIn => ⟨⟩
  | .outside (.openExchange _) | .outside .close => .ok ⟨⟩
  | .outside (.send input) => .ok (echo.answer input, none)
  | .outside .bufferingBegin | .outside (.bufferingProcess ..) => .error "unused"
  | .outside (.bufferingCombine ..) | .outside (.bufferingFinalize ..) => .error "unused"

theorem echoAll_allowed (inputs : List (RecordBatch Int)) (s : Conditions) (q : Question Nat (RecordBatch Int)) :
    (exchangeProtocol echo inputs).allows s q (echoAll s q) := by
  cases q with
  | acquire key | finish f outcome | wait w => trivial
  | outside q =>
    cases q with
    | template kind => rintro template ⟨⟩
    | get key | getForRevalidation key => rintro entry ⟨⟩
    | send input =>
      rintro batch control ⟨⟩
      exact Or.inr rfl
    | _ => trivial

def echoOps : ExchangeOps (RecordBatch Int) where
  rows batch := batch.rows
  columns batch := batch.columns.length
  memorySize batch := 8 * batch.rows
  slice := RecordBatch.slice
  concatInputs _ := .error "unused"
  concatOutputs _ := .error "unused"
  take _ _ := .error "unused"
  gather _ _ := .error "unused"
  hasOutputSchema batch := batch.schema = countSchema

/-- The empty batch is not answered, and the last one is cut after its first row. -/
theorem limited_run_three : ∃ s limited, Relation.ReflTransGen (LimitedStep countTable 3 echoReplies)
    (.initial 3 countPartitions) s ∧ Ended s limited := by
  have h0 : Relation.ReflTransGen (LimitedStep countTable 3 echoReplies) (.initial 3 countPartitions)
    (.initial 3 countPartitions) := .refl
  have h1 := h0.tail (.poll rfl rfl)
  have h2 := h1.tail (.opened rfl)
  have h3 := h2.tail (.childBatch rfl (by decide) nofun nofun)
  have h4 := h3.tail (.answered rfl rfl rfl rfl)
  have h5 := h4.tail (.sent rfl rfl (by decide))
  have h6 := h5.tail (.childBatch rfl (by decide) nofun nofun)
  have h7 := h6.tail (.answered rfl rfl rfl rfl)
  have h8 := h7.tail (.childBatch rfl (by decide) nofun nofun)
  have h9 := h8.tail (.answered rfl rfl rfl rfl)
  have h10 := h9.tail (.sent rfl rfl (by decide))
  have h11 := h10.tail (.consume rfl rfl)
  have h12 := h11.tail (.consume rfl rfl)
  exact ⟨_, [_, _], h12, rfl, rfl, rfl, rfl⟩

theorem limited_eq_take_full_three : ∃ (s : LimitedState Int) (limited full : List (RecordBatch Int))
    (trace : List (Event (Question Nat (RecordBatch Int)) Question.Reply)),
    Relation.ReflTransGen (LimitedStep countTable 3 echoReplies) (.initial 3 countPartitions) s ∧ Ended s limited ∧
      Runs (countTable.fullScan echoOps "f" false countPartitions :
        ExchangeM Nat (RecordBatch Int) (List (RecordBatch Int))).run trace (.ok full) ∧
      full.flatMap RecordBatch.rowList = [[some 1], [some 2], [some 3], [none]] ∧
      limited.flatMap RecordBatch.rowList = (full.flatMap RecordBatch.rowList).take 3 ∧
      (limited.flatMap RecordBatch.rowList).length ≤ 3 := by
  obtain ⟨s, limited, hrun, hended⟩ := limited_run_three
  have hfull := runs_execute (exchangeProtocol echo []).after echoAll
    (countTable.fullScan echoOps "f" false countPartitions :
      ExchangeM Nat (RecordBatch Int) (List (RecordBatch Int))).run (none, none)
  have hout : (Program.execute (exchangeProtocol echo []).after echoAll (countTable.fullScan echoOps "f" false
      countPartitions : ExchangeM Nat (RecordBatch Int) (List (RecordBatch Int))).run (none, none)).2 =
        .ok [countBatch [some 1, some 2], countBatch [some 3, none]] := rfl
  rw [hout] at hfull
  refine ⟨s, limited, _, _, hrun, hended, hfull, rfl, limited_eq_take_full (W := echo) ?_ hrun hended hfull ?_⟩
  · rintro _ input answer hreply
    exact Except.ok.inj hreply
  · intro inputs _
    exact allows_execute (echoAll_allowed inputs) _ _

end VgiDatafusion
