import VgiDatafusion.Aggregate.Accumulator
import VgiDatafusion.Library.PartialRuns
import VgiDatafusion.Library.StepSystem

/-!
# The thread behind a window (aggregate.rs:442-593, 716-760, 831-850)

| here | there |
| --- | --- |
| `WindowRpc`, `.Answer` | what the thread asks of the client library, and what it may be told; a connection, a catalog, a bound aggregate and a partition are numbers |
| `aggregateBind`, `evaluateWindowFrame` | `aggregate_bind`, `evaluate_window_frame` |
| `initialized`, `serve`, `leave` | the closure `initialized`, the arm of `WindowCommand::Evaluate`, what follows the loop |
| `WorkerPhase` | where the spawned thread stands; a program that has returned waits for `ready_tx.send` or `reply.send` |
| `CallerPhase` | where the accumulator stands, in `evaluate` or in `drop` |
| `WindowSystem.step` | a move of either, the channels between them, or a panic in the client library |

`SyncSender`s of capacity 0 hand over when both sides are there; `commands` is a queue, dropped with the thread. The
accumulator never drops a receiver while a reply is due, so a `send` to it does not fail. Whatever the schedule and the
answers, the accumulator's calls come out as those of one client used call by call (`window_worker_sequential`).
-/
namespace VgiDatafusion

open StepSystem Program

variable {V A R K : Type}

/-! ## What the thread asks -/

/-- `BindSpec`, as far as an aggregate sets it. -/
structure AggregateBindSpec (A : Type) where
  function : String
  schemaName : String
  arguments : A

/-- The calls of the client library in `WindowWorker::start` (`aggregate.rs:459-537`) and after it, with what each is given. -/
inductive WindowRpc (V A R K : Type)
  | connect
  | attach (client : Nat) (catalog : String)
  | resolveSecretBatch (requests : List R)
  | aggregateBind (attached : Nat) (spec : AggregateBindSpec A) (inputSchema : Schema) (secrets : Option K)
  | windowInit (bound group : Nat) (batch : RecordBatch V)
  | windowEvaluate (partition row : Nat) (frames : List (Nat × Nat))
  | windowDestroy (partition : Nat)
  | poison
  | aggregateDestroy (attached bound : Nat) (groups : List Nat)

@[reducible] def WindowRpc.Value : WindowRpc V A R K → Type
  | .connect | .attach _ _ | .aggregateBind _ _ _ _ | .windowInit _ _ _ => Nat
  | .resolveSecretBatch _ => K
  | .windowEvaluate _ _ _ => RecordBatch V
  | .windowDestroy _ | .aggregateDestroy _ _ _ | .poison => Unit

abbrev WindowRpc.Answer (e : WindowRpc V A R K) : Type := Except String e.Value

abbrev WindowProg (V A R K : Type) := Prog (WindowRpc V A R K) WindowRpc.Answer

abbrev WindowRpcs (V A R K : Type) := ExceptT String (WindowProg V A R K)

/-- A call whose error ends the program, as `?` does. -/
def rpc (e : WindowRpc V A R K) : WindowRpcs V A R K e.Value := ExceptT.mk (Prog.ask e)

/-- What an accumulator hands to the thread. -/
structure WindowCall (V A R : Type) where
  catalog : String
  schemaName : String
  function : String
  arguments : A
  requiredSecrets : List R
  /-- `ScalarValue::try_from_array`. -/
  tryFromArray : Column V → Nat → Except String (ScalarValue V)

/-- The attached catalog and the bound aggregate. -/
structure WindowSession where
  attached : Nat
  bound : Nat
  deriving DecidableEq

section Programs
variable (call : WindowCall V A R)

/-- `aggregate_bind` (`aggregate.rs:819-836`): the bind request of the aggregate with the secrets it asked for. -/
def aggregateBind (attached : Nat) (spec : AggregateBindSpec A) (inputSchema : Schema) (requiredSecrets : List R) :
    WindowRpcs V A R K Nat :=
  if requiredSecrets.isEmpty then rpc (.aggregateBind attached spec inputSchema none)
  else do
    let secrets ← rpc (.resolveSecretBatch requiredSecrets)
    rpc (.aggregateBind attached spec inputSchema (some secrets))

/-- The closure `initialized` of `WindowWorker::start` (`aggregate.rs:459-537`): connect, attach and bind; the first failure
ends it. -/
def WindowWorker.initialized (inputSchema : Schema) : WindowRpcs V A R K WindowSession := do
  let client ← rpc .connect
  let attached ← rpc (.attach client call.catalog)
  let bound ← aggregateBind attached ⟨call.function, call.schemaName, call.arguments⟩ inputSchema call.requiredSecrets
  pure ⟨attached, bound⟩

/-- The tail of `evaluate_window_frame` (`aggregate.rs:566-593`): one row of one column, or an error. -/
def frameValue (out : RecordBatch V) : Except String (ScalarValue V) :=
  match out.rows, out.columns with
  | 1, column :: _ => call.tryFromArray column 0
  | rows, columns => .error (s!"VGI window aggregate `{call.function}` evaluated to {rows} rows / {columns.length} columns; " ++
      "expected one value")

/-- `evaluate_window_frame` (`aggregate.rs:566-593`): every frame has a partition of its own, destroyed once the worker has
answered. -/
def evaluateWindowFrame (bound : Nat) (batch : RecordBatch V) : WindowRpcs V A R K (ScalarValue V) := do
  let rows := batch.rows
  let partition ← rpc (.windowInit bound 0 batch)
  let out ← rpc (.windowEvaluate partition 0 [(0, rows)])
  rpc (.windowDestroy partition)
  liftExcept (frameValue call out)

/-- A client that has failed is poisoned before the caller hears of it. -/
def WindowWorker.serve (bound : Nat) (batch : RecordBatch V) : WindowProg V A R K (Except String (ScalarValue V)) := do
  let result ← (evaluateWindowFrame call bound batch).run
  match result with
  | .ok value => pure (.ok value)
  | .error error => do
    let _ ← Prog.ask .poison
    pure (.error error)

/-- What follows the loop in `WindowWorker::start` (`aggregate.rs:459-537`): the state goes unless the last command failed. -/
def WindowWorker.leave (session : WindowSession) (reusable : Bool) : WindowProg V A R K Unit :=
  if reusable then do
    let _ ← Prog.ask (.aggregateDestroy session.attached session.bound [0])
    pure ()
  else pure ()

end Programs

/-! ## The thread and the accumulator -/

/-- Where the thread of `WindowWorker::start` (`aggregate.rs:459-537`) stands. -/
inductive WorkerPhase (V A R K : Type)
  /-- With its program over, at `ready_tx.send`. -/
  | opening (rest : WindowProg V A R K (Except String WindowSession))
  | receiving (session : WindowSession)
  /-- With its program over, at `reply.send`. -/
  | serving (session : WindowSession) (rest : WindowProg V A R K (Except String (ScalarValue V)))
  | leaving (rest : WindowProg V A R K Unit)
  | exited

/-- `WindowCommand` (`aggregate.rs:438-444`); the channel of the reply belongs to the caller's phase. -/
inductive WindowCommand (V : Type)
  | evaluate (batch : RecordBatch V)
  | stop

/-- Where the accumulator stands in `WindowWorker::evaluate` (`aggregate.rs:539-554`) or in `WindowWorker::drop`
(`aggregate.rs:558-563`). -/
inductive CallerPhase (V : Type)
  | idle
  /-- In `WindowWorker::start`, at `ready_rx.recv`. -/
  | starting (batch : RecordBatch V)
  | sending (batch : RecordBatch V)
  | awaiting (batch : RecordBatch V)
  /-- In `drop`, before `Stop` is sent. -/
  | stopping
  | joining
  | dropped

def CallerPhase.isDropped : CallerPhase V → Bool
  | .dropped => true
  | _ => false

/-- A move of the caller or of the thread, in any order the channels allow. -/
inductive WindowAction (V : Type)
  | evaluate (batch : RecordBatch V)
  /-- `Builder::spawn` fails. -/
  | spawnFails (batch : RecordBatch V) (error : String)
  | ask
  /-- The client library panics in the thread. -/
  | panics
  | ready
  | send
  | receive
  | reply
  /-- The other side of `ready_rx` or of the reply is gone. -/
  | hangUp
  | exit
  | drop
  | join

/-- A call of `evaluate`. -/
def WindowAction.isCall : WindowAction V → Bool
  | .evaluate _ | .spawnFails _ _ => true
  | _ => false

/-- The two sides with the channel between them, and what passed: the calls of the client library and the answers of
`evaluate`. -/
structure WindowSystem (V A R K : Type) where
  caller : CallerPhase V := .idle
  thread : Option (WorkerPhase V A R K) := none
  commands : List (WindowCommand V) := []
  log : List (Event (WindowRpc V A R K) WindowRpc.Answer) := []
  answers : List (RecordBatch V × Except String (ScalarValue V)) := []
  panicked : Bool := false

def noLongerRunning : String := "VGI window worker is no longer running"
def exitedWithoutResult : String := "VGI window worker exited without returning a result"
def exitedBeforeReady : String := "VGI window worker exited before initialization completed"

namespace WindowSystem

section Steps
variable (call : WindowCall V A R) (respond : List (Event (WindowRpc V A R K) WindowRpc.Answer) →
  (e : WindowRpc V A R K) → e.Answer) (s : WindowSystem V A R K)

/-- A call of `evaluate` is over. -/
def answer (batch : RecordBatch V) (result : Except String (ScalarValue V)) : WindowSystem V A R K :=
  { s with caller := .idle, answers := s.answers ++ [(batch, result)] }

/-- `VgiAccumulator::evaluate` (`aggregate.rs:716-804`) under a window: the first call starts the worker, every call sends
its batch. -/
def evaluate (batch : RecordBatch V) : Option (WindowSystem V A R K) :=
  match s.caller, s.thread with
  | .idle, none =>
    some { s with caller := .starting batch, thread := some (.opening (WindowWorker.initialized call batch.schema).run) }
  | .idle, some _ => some { s with caller := .sending batch }
  | _, _ => none

/-- `WindowWorker::start` (`aggregate.rs:459-537`), where the thread cannot be spawned. -/
def spawnFails (batch : RecordBatch V) (error : String) : Option (WindowSystem V A R K) :=
  match s.caller, s.thread with
  | .idle, none => some (s.answer batch (.error error))
  | _, _ => none

/-- The thread asks its next question. -/
def ask : Option (WindowSystem V A R K) :=
  match s.thread with
  | some (.opening (.call e next)) =>
    some { s with thread := some (.opening (next (respond s.log e))), log := s.log ++ [⟨e, respond s.log e⟩] }
  | some (.serving session (.call e next)) =>
    some { s with thread := some (.serving session (next (respond s.log e))), log := s.log ++ [⟨e, respond s.log e⟩] }
  | some (.leaving (.call e next)) =>
    some { s with thread := some (.leaving (next (respond s.log e))), log := s.log ++ [⟨e, respond s.log e⟩] }
  | _ => none

/-- The client library panics: the thread is gone, and so are its ends of the channels. -/
def panics : Option (WindowSystem V A R K) :=
  match s.thread with
  | some (.opening (.call _ _)) | some (.serving _ (.call _ _)) | some (.leaving (.call _ _)) =>
    some { s with thread := some (.leaving (.ret ())), panicked := true }
  | _ => none

/-- The end of `WindowWorker::start`; a thread that could not initialize is let go. -/
def ready : Option (WindowSystem V A R K) :=
  match s.caller, s.thread with
  | .starting batch, some (.opening (.ret (.ok session))) =>
    some { s with caller := .sending batch, thread := some (.receiving session) }
  | .starting batch, some (.opening (.ret (.error error))) => some ({ s with thread := none }.answer batch (.error error))
  | _, _ => none

/-- A `send` into the queue fails once its receiver is gone. -/
def send : Option (WindowSystem V A R K) :=
  match s.caller, s.thread with
  | .sending batch, some .exited => some (s.answer batch (.error noLongerRunning))
  | .sending batch, some _ => some { s with caller := .awaiting batch, commands := s.commands ++ [.evaluate batch] }
  | .stopping, some .exited => some { s with caller := .joining }
  | .stopping, some _ => some { s with caller := .joining, commands := s.commands ++ [.stop] }
  | _, _ => none

/-- The loop of `WindowWorker::start` (`aggregate.rs:459-537`) takes the next command. -/
def receive : Option (WindowSystem V A R K) :=
  match s.thread, s.commands with
  | some (.receiving session), .evaluate batch :: rest =>
    some { s with thread := some (.serving session (WindowWorker.serve call session.bound batch)), commands := rest }
  | some (.receiving session), .stop :: rest =>
    some { s with thread := some (.leaving (WindowWorker.leave session true)), commands := rest }
  | _, _ => none

/-- A frame that failed ends the loop. -/
def reply : Option (WindowSystem V A R K) :=
  match s.caller, s.thread with
  | .awaiting batch, some (.serving session (.ret result)) =>
    some ({ s with thread := some (if result.isOk then .receiving session else .leaving (WindowWorker.leave session false)) }.answer
      batch result)
  | _, _ => none

/-- The sender of the reply is gone when the thread has broken off the command, or was dropped with the queue. -/
def hangUp : Option (WindowSystem V A R K) :=
  match s.caller, s.thread, s.commands with
  | .starting batch, some (.leaving (.ret ())), _ => some ({ s with thread := none }.answer batch (.error exitedBeforeReady))
  | .awaiting batch, some (.leaving (.ret ())), [] | .awaiting batch, some .exited, _ =>
    some (s.answer batch (.error exitedWithoutResult))
  | _, _, _ => none

/-- The thread is over, and the receiver of the queue with it. -/
def exit : Option (WindowSystem V A R K) :=
  match s.caller, s.thread with
  | .starting _, _ => none
  | _, some (.leaving (.ret ())) => some { s with thread := some .exited, commands := [] }
  | _, _ => none

/-- `WindowWorker::drop` (`aggregate.rs:558-563`): `Stop` is sent before the thread is joined. -/
def drop : Option (WindowSystem V A R K) :=
  match s.caller, s.thread with
  | .idle, none => some { s with caller := .dropped }
  | .idle, some _ => some { s with caller := .stopping }
  | _, _ => none

def join : Option (WindowSystem V A R K) :=
  match s.caller, s.thread with
  | .joining, some .exited => some { s with caller := .dropped }
  | _, _ => none

/-- One move of the caller or of the thread (`aggregate.rs:456-593`). -/
def step : WindowAction V → Option (WindowSystem V A R K)
  | .evaluate batch => s.evaluate call batch
  | .spawnFails batch error => s.spawnFails batch error
  | .ask => s.ask respond
  | .panics => s.panics
  | .ready => s.ready
  | .send => s.send
  | .receive => s.receive call
  | .reply => s.reply
  | .hangUp => s.hangUp
  | .exit => s.exit
  | .drop => s.drop
  | .join => s.join

/-- From an accumulator that is new. -/
def run (actions : List (WindowAction V)) : Option (WindowSystem V A R K) :=
  actions.foldlM (step call respond) {}

end Steps

end WindowSystem

/-! ## One client, call by call -/

/-- What has become of the client. -/
inductive ClientUse
  | unused
  | usable (session : WindowSession)
  | broken
  | closed

/-- The answers and the questions where there is no thread: the accumulator runs the programs one after the other. The
flag says that one of them was broken off by a panic. -/
inductive OneClient (call : WindowCall V A R) : Bool → ClientUse → List (RecordBatch V × Except String (ScalarValue V)) →
    List (Event (WindowRpc V A R K) WindowRpc.Answer) → Prop
  | unused : OneClient call false .unused [] []
  | spawnFails {p answers log} (before : OneClient call p .unused answers log) (batch : RecordBatch V) (error : String) :
      OneClient call p .unused (answers ++ [(batch, .error error)]) log
  | initializeFails {p answers log} (before : OneClient call p .unused answers log) (batch : RecordBatch V) {trace error}
      (run : Runs (WindowWorker.initialized call batch.schema).run trace (.error error)) :
      OneClient call p .unused (answers ++ [(batch, .error error)]) (log ++ trace)
  | initializePanics {p answers log} (before : OneClient call p .unused answers log) (batch : RecordBatch V) {trace e next}
      (run : Asks (WindowWorker.initialized call batch.schema).run trace (.call e next)) :
      OneClient call true .unused (answers ++ [(batch, .error exitedBeforeReady)]) (log ++ trace)
  | initialized {p answers log} (before : OneClient call p .unused answers log) (inputSchema : Schema) {trace session}
      (run : Runs (WindowWorker.initialized call inputSchema).run trace (.ok session)) :
      OneClient call p (.usable session) answers (log ++ trace)
  | evaluated {p session answers log} (before : OneClient call p (.usable session) answers log) (batch : RecordBatch V)
      {trace value} (run : Runs (WindowWorker.serve call session.bound batch) trace (.ok value)) :
      OneClient call p (.usable session) (answers ++ [(batch, .ok value)]) (log ++ trace)
  | fails {p session answers log} (before : OneClient call p (.usable session) answers log) (batch : RecordBatch V)
      {trace error} (run : Runs (WindowWorker.serve call session.bound batch) trace (.error error)) :
      OneClient call p .broken (answers ++ [(batch, .error error)]) (log ++ trace)
  | panics {p session answers log} (before : OneClient call p (.usable session) answers log) (batch : RecordBatch V)
      {trace rest} (run : Asks (WindowWorker.serve call session.bound batch) trace rest) :
      OneClient call true .broken (answers ++ [(batch, .error exitedWithoutResult)]) (log ++ trace)
  | refused {p answers log} (before : OneClient call p .broken answers log) (batch : RecordBatch V) {error : String}
      (text : error = noLongerRunning ∨ error = exitedWithoutResult) :
      OneClient call p .broken (answers ++ [(batch, .error error)]) log
  | closes {p session answers log} (before : OneClient call p (.usable session) answers log) {trace}
      (run : Runs (WindowWorker.leave session true) trace ()) : OneClient call p .closed answers (log ++ trace)
  | closePanics {p session answers log} (before : OneClient call p (.usable session) answers log) :
      OneClient call true .closed answers log

namespace WindowSystem

variable {call : WindowCall V A R} {respond : List (Event (WindowRpc V A R K) WindowRpc.Answer) →
  (e : WindowRpc V A R K) → e.Answer} {s s' : WindowSystem V A R K} {a : WindowAction V}

/-- Between two calls. -/
def Resting (call : WindowCall V A R) (p : Bool) (answers : List (RecordBatch V × Except String (ScalarValue V)))
    (log : List (Event (WindowRpc V A R K) WindowRpc.Answer)) (commands : List (WindowCommand V)) :
    Option (WorkerPhase V A R K) → Prop
  | none => OneClient call p .unused answers log ∧ commands = []
  | some (.receiving session) => OneClient call p (.usable session) answers log ∧ commands = []
  | some (.leaving (.ret ())) | some .exited => OneClient call p .broken answers log
  | _ => False

/-- What the log and the answers are, wherever the two sides stand. -/
def Situation (call : WindowCall V A R) (p : Bool) (answers : List (RecordBatch V × Except String (ScalarValue V)))
    (log : List (Event (WindowRpc V A R K) WindowRpc.Answer)) (commands : List (WindowCommand V)) :
    CallerPhase V → Option (WorkerPhase V A R K) → Prop
  | .idle, thread => Resting call p answers log commands thread
  | .sending _, some phase | .stopping, some phase => Resting call p answers log commands (some phase)
  | .starting batch, some (.opening rest) => commands = [] ∧ ∃ before trace, log = before ++ trace ∧
      OneClient call p .unused answers before ∧ Asks (WindowWorker.initialized call batch.schema).run trace rest
  | .starting batch, some (.leaving (.ret ())) =>
      OneClient call p .unused (answers ++ [(batch, .error exitedBeforeReady)]) log ∧ commands = []
  | .awaiting batch, some (.receiving session) => OneClient call p (.usable session) answers log ∧ commands = [.evaluate batch]
  | .awaiting batch, some (.serving session rest) => commands = [] ∧ ∃ before trace, log = before ++ trace ∧
      OneClient call p (.usable session) answers before ∧ Asks (WindowWorker.serve call session.bound batch) trace rest
  | .awaiting batch, some (.leaving (.ret ())) | .awaiting batch, some .exited =>
      OneClient call p .broken (answers ++ [(batch, .error exitedWithoutResult)]) log
  | .joining, some (.receiving session) => OneClient call p (.usable session) answers log ∧ commands = [.stop]
  | .joining, some (.leaving (.call e next)) => ∃ before trace session, log = before ++ trace ∧
      OneClient call p (.usable session) answers before ∧ Asks (WindowWorker.leave session true) trace (.call e next)
  | .joining, some (.leaving (.ret ())) | .joining, some .exited | .dropped, some .exited =>
      OneClient call p .broken answers log ∨ OneClient call p .closed answers log
  | .dropped, none => OneClient call p .unused answers log
  | _, _ => False

/-- The two sides agree: what the caller waits for is what the thread does, and the log is that of the calls answered. -/
def Holds (call : WindowCall V A R) (s : WindowSystem V A R K) : Prop :=
  Situation call s.panicked s.answers s.log s.commands s.caller s.thread

theorem holds_start : ({} : WindowSystem V A R K).Holds call := ⟨.unused, rfl⟩

theorem Holds.evaluate {batch : RecordBatch V} (h : s.Holds call) (hstep : s.evaluate call batch = some s') :
    s'.Holds call := by
  obtain ⟨caller, thread, commands, log, answers, panicked⟩ := s
  simp only [WindowSystem.evaluate] at hstep
  split at hstep
  · cases hstep
    obtain ⟨hclient, hcommands⟩ := h
    exact ⟨hcommands, log, [], (List.append_nil log).symm, hclient, .nil _⟩
  · cases hstep
    exact h
  · cases hstep

theorem Holds.spawnFails {batch : RecordBatch V} {error : String} (h : s.Holds call)
    (hstep : s.spawnFails batch error = some s') : s'.Holds call := by
  obtain ⟨caller, thread, commands, log, answers, panicked⟩ := s
  simp only [WindowSystem.spawnFails] at hstep
  split at hstep
  · cases hstep
    exact ⟨h.1.spawnFails batch error, h.2⟩
  · cases hstep

/-- Where the caller stands while the thread has a program to run. -/
def Asking (caller : CallerPhase V) : Option (WorkerPhase V A R K) → Prop
  | some (.opening _) => ∃ batch, caller = .starting batch
  | some (.serving _ _) => ∃ batch, caller = .awaiting batch
  | some (.leaving (.call _ _)) => caller = .joining
  | _ => True

theorem asking_of_resting {p : Bool} {answers : List (RecordBatch V × Except String (ScalarValue V))}
    {log : List (Event (WindowRpc V A R K) WindowRpc.Answer)} {commands : List (WindowCommand V)}
    {thread : Option (WorkerPhase V A R K)} (h : Resting call p answers log commands thread) (caller : CallerPhase V) :
    Asking caller thread := by
  unfold Resting at h
  split at h
  · trivial
  · trivial
  · trivial
  · trivial
  · exact h.elim

theorem Holds.asking (h : s.Holds call) : Asking s.caller s.thread := by
  obtain ⟨caller, thread, commands, log, answers, panicked⟩ := s
  simp only [Holds] at h ⊢
  unfold Situation at h
  split at h
  · exact asking_of_resting h _
  · exact asking_of_resting h _
  · exact asking_of_resting h _
  · exact ⟨_, rfl⟩
  · trivial
  · trivial
  · exact ⟨_, rfl⟩
  · trivial
  · trivial
  · trivial
  · rfl
  · trivial
  · trivial
  · trivial
  · trivial
  · exact h.elim

/-- What is left of `leave` when something has been asked of it. -/
theorem asks_leave {session : WindowSession} {trace : List (Event (WindowRpc V A R K) WindowRpc.Answer)}
    {rest : WindowProg V A R K Unit} (h : Asks (WindowWorker.leave session true) trace rest) :
    trace = [] ∧ rest = WindowWorker.leave session true ∨ ∃ answer, rest = .ret () ∧
      trace = [⟨.aggregateDestroy session.attached session.bound [0], answer⟩] := by
  cases h with
  | nil => exact .inl ⟨rfl, rfl⟩
  | call answer later =>
    cases later with
    | nil => exact .inr ⟨answer, rfl, rfl⟩

theorem Holds.ask (h : s.Holds call) (hstep : s.ask respond = some s') : s'.Holds call := by
  simp only [WindowSystem.ask] at hstep
  split at hstep
  next e next hthread =>
    obtain ⟨batch, hcaller⟩ : Asking s.caller (some (.opening _)) := hthread ▸ h.asking
    cases hstep
    rw [Holds, hcaller, hthread] at h
    rw [Holds, hcaller]
    obtain ⟨hcommands, before, trace, hlog, hclient, hasks⟩ := h
    exact ⟨hcommands, before, _, by rw [hlog, List.append_assoc], hclient, hasks.concat _⟩
  next session e next hthread =>
    obtain ⟨batch, hcaller⟩ : Asking s.caller (some (.serving _ _)) := hthread ▸ h.asking
    cases hstep
    rw [Holds, hcaller, hthread] at h
    rw [Holds, hcaller]
    obtain ⟨hcommands, before, trace, hlog, hclient, hasks⟩ := h
    exact ⟨hcommands, before, _, by rw [hlog, List.append_assoc], hclient, hasks.concat _⟩
  next e next hthread =>
    have hasking := h.asking
    rw [hthread] at hasking
    have hcaller : s.caller = .joining := hasking
    cases hstep
    rw [Holds, hcaller, hthread] at h
    rw [Holds, hcaller]
    obtain ⟨before, trace, session, hlog, hclient, hasks⟩ := h
    have hmore := hasks.concat (respond s.log e)
    rcases asks_leave hmore with ⟨htrace, -⟩ | ⟨answer, hrest, htrace⟩
    · simp at htrace
    · rw [hrest] at hmore ⊢
      have hclosed := hclient.closes (asks_ret.1 hmore)
      rw [← List.append_assoc, ← hlog] at hclosed
      exact .inr hclosed
  next => cases hstep

theorem Holds.panics (h : s.Holds call) (hstep : s.panics = some s') : s'.Holds call := by
  simp only [WindowSystem.panics] at hstep
  split at hstep
  next e next hthread =>
    obtain ⟨batch, hcaller⟩ : Asking s.caller (some (.opening _)) := hthread ▸ h.asking
    cases hstep
    rw [Holds, hcaller, hthread] at h
    rw [Holds, hcaller]
    obtain ⟨hcommands, before, trace, hlog, hclient, hasks⟩ := h
    rw [hlog]
    exact ⟨hclient.initializePanics batch hasks, hcommands⟩
  next session e next hthread =>
    obtain ⟨batch, hcaller⟩ : Asking s.caller (some (.serving _ _)) := hthread ▸ h.asking
    cases hstep
    rw [Holds, hcaller, hthread] at h
    rw [Holds, hcaller]
    obtain ⟨hcommands, before, trace, hlog, hclient, hasks⟩ := h
    rw [hlog]
    exact hclient.panics batch hasks
  next e next hthread =>
    have hasking := h.asking
    rw [hthread] at hasking
    have hcaller : s.caller = .joining := hasking
    cases hstep
    rw [Holds, hcaller, hthread] at h
    rw [Holds, hcaller]
    obtain ⟨before, trace, session, hlog, hclient, hasks⟩ := h
    rcases asks_leave hasks with ⟨rfl, -⟩ | ⟨answer, hrest, -⟩
    · rw [List.append_nil] at hlog
      rw [hlog]
      exact .inr hclient.closePanics
    · cases hrest
  next => cases hstep

theorem Holds.ready (h : s.Holds call) (hstep : s.ready = some s') : s'.Holds call := by
  obtain ⟨caller, thread, commands, log, answers, panicked⟩ := s
  simp only [WindowSystem.ready] at hstep
  split at hstep
  next batch session =>
    cases hstep
    obtain ⟨hcommands, before, trace, rfl, hclient, hasks⟩ := h
    exact ⟨hclient.initialized batch.schema (asks_ret.1 hasks), hcommands⟩
  next batch error =>
    cases hstep
    obtain ⟨hcommands, before, trace, rfl, hclient, hasks⟩ := h
    exact ⟨hclient.initializeFails batch (asks_ret.1 hasks), hcommands⟩
  next => cases hstep

theorem Holds.send (h : s.Holds call) (hstep : s.send = some s') : s'.Holds call := by
  obtain ⟨caller, thread, commands, log, answers, panicked⟩ := s
  simp only [WindowSystem.send] at hstep
  split at hstep
  next batch =>
    cases hstep
    exact OneClient.refused h batch (.inl rfl)
  next batch phase hphase =>
    cases hstep
    cases phase with
    | opening rest => exact h.elim
    | receiving session =>
      obtain ⟨hclient, rfl⟩ := h
      exact ⟨hclient, rfl⟩
    | serving session rest => exact h.elim
    | leaving rest =>
      cases rest with
      | ret => exact OneClient.refused h batch (.inr rfl)
      | call e next => exact h.elim
    | exited => exact OneClient.refused h batch (.inr rfl)
  next =>
    cases hstep
    exact .inl h
  next phase hphase =>
    cases hstep
    cases phase with
    | opening rest => exact h.elim
    | receiving session =>
      obtain ⟨hclient, rfl⟩ := h
      exact ⟨hclient, rfl⟩
    | serving session rest => exact h.elim
    | leaving rest =>
      cases rest with
      | ret => exact .inl h
      | call e next => exact h.elim
    | exited => exact .inl h
  next => cases hstep

/-- A thread that receives finds what its caller has sent. -/
theorem holds_receiving {session : WindowSession} (h : s.Holds call) (hthread : s.thread = some (.receiving session)) :
    s.commands = [] ∨ (∃ batch, s.caller = .awaiting batch ∧ s.commands = [.evaluate batch]) ∨
      s.caller = .joining ∧ s.commands = [.stop] := by
  obtain ⟨caller, thread, commands, log, answers, panicked⟩ := s
  cases hthread
  cases caller with
  | idle => exact .inl h.2
  | sending batch => exact .inl h.2
  | stopping => exact .inl h.2
  | awaiting batch => exact .inr (.inl ⟨batch, rfl, h.2⟩)
  | joining => exact .inr (.inr ⟨rfl, h.2⟩)
  | starting batch => exact h.elim
  | dropped => exact h.elim

theorem Holds.receive (h : s.Holds call) (hstep : s.receive call = some s') : s'.Holds call := by
  simp only [WindowSystem.receive] at hstep
  split at hstep
  next session batch rest hthread hcommands =>
    rcases holds_receiving h hthread with hnone | ⟨sent, hcaller, hsent⟩ | ⟨-, hstop⟩
    · simp [hnone] at hcommands
    · rw [hsent] at hcommands
      cases hcommands
      cases hstep
      rw [Holds, hcaller, hthread] at h
      rw [Holds, hcaller]
      exact ⟨rfl, s.log, [], (List.append_nil _).symm, h.1, .nil _⟩
    · simp [hstop] at hcommands
  next session rest hthread hcommands =>
    rcases holds_receiving h hthread with hnone | ⟨sent, -, hsent⟩ | ⟨hcaller, -⟩
    · simp [hnone] at hcommands
    · simp [hsent] at hcommands
    · cases hstep
      rw [Holds, hcaller, hthread] at h
      rw [Holds, hcaller]
      exact ⟨s.log, [], session, (List.append_nil _).symm, h.1, .nil _⟩
  next => cases hstep

theorem Holds.reply (h : s.Holds call) (hstep : s.reply = some s') : s'.Holds call := by
  obtain ⟨caller, thread, commands, log, answers, panicked⟩ := s
  simp only [WindowSystem.reply] at hstep
  split at hstep
  next batch session result =>
    cases hstep
    obtain ⟨hcommands, before, trace, rfl, hclient, hasks⟩ := h
    cases result with
    | ok value => exact ⟨hclient.evaluated batch (asks_ret.1 hasks), hcommands⟩
    | error error => exact hclient.fails batch (asks_ret.1 hasks)
  next => cases hstep

theorem Holds.hangUp (h : s.Holds call) (hstep : s.hangUp = some s') : s'.Holds call := by
  obtain ⟨caller, thread, commands, log, answers, panicked⟩ := s
  simp only [WindowSystem.hangUp] at hstep
  split at hstep
  · cases hstep
    exact h
  · cases hstep
    exact h
  · cases hstep
    exact h
  · cases hstep

theorem Holds.exit (h : s.Holds call) (hstep : s.exit = some s') : s'.Holds call := by
  obtain ⟨caller, thread, commands, log, answers, panicked⟩ := s
  simp only [WindowSystem.exit] at hstep
  split at hstep
  · cases hstep
  next hcaller =>
    cases hstep
    cases caller with
    | starting batch => exact absurd rfl (hcaller batch)
    | idle => exact h
    | sending batch => exact h
    | awaiting batch => exact h
    | stopping => exact h
    | joining => exact h
    | dropped => exact h.elim
  · cases hstep

theorem Holds.drop (h : s.Holds call) (hstep : s.drop = some s') : s'.Holds call := by
  obtain ⟨caller, thread, commands, log, answers, panicked⟩ := s
  simp only [WindowSystem.drop] at hstep
  split at hstep
  · cases hstep
    exact h.1
  · cases hstep
    exact h
  · cases hstep

theorem Holds.join (h : s.Holds call) (hstep : s.join = some s') : s'.Holds call := by
  obtain ⟨caller, thread, commands, log, answers, panicked⟩ := s
  simp only [WindowSystem.join] at hstep
  split at hstep
  · cases hstep
    exact h
  · cases hstep

theorem Holds.step (h : s.Holds call) (hstep : s.step call respond a = some s') : s'.Holds call := by
  cases a with
  | evaluate batch => exact h.evaluate hstep
  | spawnFails batch error => exact h.spawnFails hstep
  | ask => exact h.ask hstep
  | panics => exact h.panics hstep
  | ready => exact h.ready hstep
  | send => exact h.send hstep
  | receive => exact h.receive hstep
  | reply => exact h.reply hstep
  | hangUp => exact h.hangUp hstep
  | exit => exact h.exit hstep
  | drop => exact h.drop hstep
  | join => exact h.join hstep

theorem holds_run {actions : List (WindowAction V)} (hrun : run call respond actions = some s) :
    s.Holds call := by
  refine @StepSystem.run_invariant_of_partial _ _ _ _ _ (fun _ => Holds call) holds_start ?_ _ hrun
  intro _ a s s' h hstep
  exact h.step hstep

/-- An accumulator that is gone has left nothing usable. -/
theorem Holds.dropped (h : s.Holds call) (hdropped : s.caller = .dropped) :
    ∃ use, OneClient call s.panicked use s.answers s.log ∧ ∀ session, use ≠ .usable session := by
  obtain ⟨caller, thread, commands, log, answers, panicked⟩ := s
  cases hdropped
  cases thread with
  | none => exact ⟨.unused, h, by simp⟩
  | some phase =>
    cases phase with
    | opening rest => exact h.elim
    | receiving session => exact h.elim
    | serving session rest => exact h.elim
    | leaving rest =>
      cases rest with
      | ret => exact h.elim
      | call e next => exact h.elim
    | exited =>
      rcases h with hbroken | hclosed
      · exact ⟨.broken, hbroken, by simp⟩
      · exact ⟨.closed, hclosed, by simp⟩

variable (call respond)

/-- **The thread is not to be seen**: whatever the schedule and the answers, when no call is on the answers and the log are
those of one client that is used call by call, and when the accumulator is gone nothing is left to be closed. -/
theorem window_worker_sequential (actions : List (WindowAction V)) (s : WindowSystem V A R K)
    (hrun : run call respond actions = some s) :
    (s.caller = .idle → ∃ use, OneClient call s.panicked use s.answers s.log) ∧
      (s.caller = .dropped → ∃ use, OneClient call s.panicked use s.answers s.log ∧ ∀ session, use ≠ .usable session) := by
  have h := holds_run hrun
  refine ⟨?_, h.dropped⟩
  intro hidle
  obtain ⟨caller, thread, commands, log, answers, panicked⟩ := s
  cases hidle
  cases thread with
  | none => exact ⟨_, h.1⟩
  | some phase =>
    cases phase with
    | opening rest => exact h.elim
    | receiving session => exact ⟨_, h.1⟩
    | serving session rest => exact h.elim
    | leaving rest =>
      cases rest with
      | ret => exact ⟨_, h⟩
      | call e next => exact h.elim
    | exited => exact ⟨_, h⟩

/-! Two frames, of which the server refuses the empty one; a third call reaches the thread on its way out. -/

def sumWindow : WindowCall Int Unit Unit where
  catalog := "example"
  schemaName := "main"
  function := "sum"
  arguments := ()
  requiredSecrets := []
  tryFromArray column row := (column.cells[row]?.map (ScalarValue.atom column.dataType)).elim (.error "index out of bounds") .ok

theorem fits_nothing (rows : Nat) : List.Forall₂ (fits (V := Int) rows) [] [] := .nil

def rowsOnly (rows : Nat) : RecordBatch Int := { schema := { fields := [] }, columns := [], rows, fits := fits_nothing rows }

def oneInteger (value : Int) : RecordBatch Int where
  schema := { fields := [{ name := "result", dataType := .int64, nullable := true }] }
  columns := [{ dataType := .int64, cells := [some value] }]
  rows := 1
  fits := .cons ⟨rfl, rfl, by simp⟩ .nil

def countingServer (_ : List (Event (WindowRpc Int Unit Unit Unit) WindowRpc.Answer)) :
    (e : WindowRpc Int Unit Unit Unit) → e.Answer
  | .connect | .attach _ _ | .aggregateBind _ _ _ _ => .ok 1
  | .resolveSecretBatch _ | .windowDestroy _ | .poison | .aggregateDestroy _ _ _ => .ok ()
  | .windowInit _ _ batch => if batch.rows = 0 then .error "empty partition" else .ok 7
  | .windowEvaluate _ _ frames => .ok (oneInteger (frames.map Prod.snd).sum)

def windowSchedule : List (WindowAction Int) :=
  [.evaluate (rowsOnly 3), .ask, .ask, .ask, .ready, .send, .receive, .ask, .ask, .ask, .reply,
    .evaluate (rowsOnly 0), .send, .receive, .ask, .ask, .reply, .evaluate (rowsOnly 2), .send, .exit, .hangUp,
    .drop, .send, .join]

/-- The run comes to its end, with one value and two errors. -/
theorem windowSchedule_runs : ∃ s, run sumWindow countingServer windowSchedule = some s ∧ s.caller = .dropped ∧
    s.panicked = false ∧ s.answers.map (·.2.isOk) = [true, false, false] := by
  have hcheck : (run sumWindow countingServer windowSchedule).any (fun s =>
      s.caller.isDropped && !s.panicked && s.answers.map (·.2.isOk) == [true, false, false]) = true := by decide +kernel
  obtain ⟨s, hrun, hends⟩ := (Option.any_eq_true _ _).1 hcheck
  simp only [Bool.and_eq_true, Bool.not_eq_true', beq_iff_eq] at hends
  obtain ⟨⟨hdropped, hcalm⟩, hanswers⟩ := hends
  refine ⟨s, hrun, ?_, hcalm, hanswers⟩
  cases hcaller : s.caller with
  | dropped => rfl
  | idle => simp [hcaller, CallerPhase.isDropped] at hdropped
  | starting batch => simp [hcaller, CallerPhase.isDropped] at hdropped
  | sending batch => simp [hcaller, CallerPhase.isDropped] at hdropped
  | awaiting batch => simp [hcaller, CallerPhase.isDropped] at hdropped
  | stopping => simp [hcaller, CallerPhase.isDropped] at hdropped
  | joining => simp [hcaller, CallerPhase.isDropped] at hdropped

theorem window_worker_sequential_scheduled : ∃ s, run sumWindow countingServer windowSchedule = some s ∧
    s.answers.map (·.2.isOk) = [true, false, false] ∧
    ∃ use, OneClient sumWindow s.panicked use s.answers s.log ∧ ∀ session, use ≠ .usable session := by
  obtain ⟨s, hrun, hdropped, -, hanswers⟩ := windowSchedule_runs
  exact ⟨s, hrun, hanswers, (window_worker_sequential sumWindow countingServer windowSchedule s hrun).2 hdropped⟩

end WindowSystem

end VgiDatafusion
