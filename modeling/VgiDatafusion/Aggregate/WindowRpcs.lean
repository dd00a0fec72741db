import VgiDatafusion.Aggregate.WindowWorker

/-!
# What the thread behind a window asks of the client library (aggregate.rs:442-593)

`clientProtocol` says which question is allowed when. The three programs of the thread keep it (`wp_initialized`, `wp_serve`,
`wp_leave`), and so does the log of every run at every moment (`window_rpcs_wellformed`): a bound aggregate is used with the
catalog it was bound in, a partition between its init and its destroy, a poisoned client never, and no client is left with
an aggregate bound.
-/
namespace VgiDatafusion

open StepSystem Program

variable {V A R K : Type}

/-- What the thread has open in the client library. -/
structure ClientLedger where
  client : Option Nat := none
  attached : Option Nat := none
  bound : Option Nat := none
  part : Option Nat := none
  poisoned : Bool := false

/-- A bound aggregate is used with the catalog it was bound in, a partition between its init and its destroy, and a
poisoned client not at all; nothing is opened while an aggregate is bound. -/
def ClientLedger.owes (l : ClientLedger) : WindowRpc V A R K → Prop
  | .connect | .resolveSecretBatch _ => l.bound = none
  | .attach client _ => l.client = some client ∧ l.bound = none
  | .aggregateBind attached _ _ _ => l.attached = some attached ∧ l.bound = none
  | .windowInit bound _ _ => l.bound = some bound ∧ l.part = none ∧ l.poisoned = false
  | .windowEvaluate p _ _ | .windowDestroy p => l.part = some p ∧ l.poisoned = false
  | .poison => l.bound.isSome ∧ l.poisoned = false
  | .aggregateDestroy attached bound _ => l.attached = some attached ∧ l.bound = some bound ∧ l.part = none ∧ l.poisoned = false

def ClientLedger.after (l : ClientLedger) : (e : WindowRpc V A R K) → e.Answer → ClientLedger
  | .connect, .ok client => { client := some client }
  | .connect, .error _ => {}
  | .attach _ _, .ok attached => { l with attached := some attached }
  | .aggregateBind _ _ _ _, .ok bound => { l with bound := some bound }
  | .windowInit _ _ _, .ok p => { l with part := some p }
  | .windowDestroy _, .ok _ => { l with part := none }
  | .poison, _ => { l with poisoned := true }
  | .aggregateDestroy _ _ _, _ => {}
  | _, _ => l

/-- The client library's side: any answer at all, and the ledger of what is attached, bound and open. -/
def clientProtocol : Protocol (WindowRpc V A R K) WindowRpc.Answer ClientLedger where
  allows _ _ _ := True
  owes := ClientLedger.owes
  after := ClientLedger.after

theorem allows_clientProtocol (l : ClientLedger) (log : List (Event (WindowRpc V A R K) WindowRpc.Answer)) :
    clientProtocol.Allows l log := Protocol.allows_of_all (fun _ _ _ => trivial) l log

/-- What is open between two frames. -/
structure Usable (session : WindowSession) (l : ClientLedger) : Prop where
  attached : l.attached = some session.attached
  bound : l.bound = some session.bound
  part : l.part = none
  poisoned : l.poisoned = false

variable {call : WindowCall V A R} {session : WindowSession} {l : ClientLedger}

/-- What `initialized` leaves open. -/
def Initialized : Except String WindowSession → ClientLedger → Prop
  | .ok session, l => Usable session l
  | .error _, l => l.bound = none

/-- While a session is opened, no aggregate is bound. -/
def openingProtocol : Protocol (WindowRpc V A R K) WindowRpc.Answer ClientLedger :=
  { clientProtocol with owes := fun l e => l.owes e ∧ l.bound = none }

theorem allows_openingProtocol (l : ClientLedger) (log : List (Event (WindowRpc V A R K) WindowRpc.Answer)) :
    openingProtocol.Allows l log := Protocol.allows_of_all (fun _ _ _ => trivial) l log

theorem wp_aggregateBind {attached : Nat} {spec : AggregateBindSpec A} {inputSchema : Schema} {requiredSecrets : List R}
    (h : l = { client := l.client, attached := some attached }) :
    wp (openingProtocol (V := V) (K := K)).effects (aggregateBind attached spec inputSchema requiredSecrets).run l
      fun r l => Initialized (r.map (⟨attached, ·⟩)) l := by
  have hbind : ∀ secrets, wp (openingProtocol (V := V) (K := K)).effects
      (rpc (.aggregateBind attached spec inputSchema secrets) : WindowRpcs V A R K Nat).run l
      fun r l => Initialized (r.map (⟨attached, ·⟩)) l := by
    intro secrets
    rw [h]
    refine ⟨⟨⟨rfl, rfl⟩, rfl⟩, fun bound _ => ?_⟩
    cases bound with
    | error error => rfl
    | ok bound => exact ⟨rfl, rfl, rfl, rfl⟩
  rw [aggregateBind]
  split
  · exact hbind none
  · have hbound := congrArg ClientLedger.bound h
    refine ⟨⟨hbound, hbound⟩, fun secrets _ => ?_⟩
    cases secrets with
    | error error =>
      rw [h]
      rfl
    | ok secrets => exact hbind (some secrets)

theorem wp_initialized_opening (inputSchema : Schema) (h : l.bound = none) :
    wp (openingProtocol (K := K)).effects (WindowWorker.initialized call inputSchema).run l Initialized := by
  refine ⟨⟨h, h⟩, fun client _ => ?_⟩
  cases client with
  | error error => rfl
  | ok client =>
    refine ⟨⟨⟨rfl, rfl⟩, rfl⟩, fun attached _ => ?_⟩
    cases attached with
    | error error => rfl
    | ok attached =>
      refine wp_bind (wp_bind (p := (aggregateBind attached _ inputSchema call.requiredSecrets).run) ?_)
      refine wp_mono ?_ (wp_aggregateBind rfl)
      intro r l h
      cases r with
      | error error => exact h
      | ok bound => exact h

theorem wp_initialized (inputSchema : Schema) (h : l.bound = none) :
    wp (clientProtocol (K := K)).effects (WindowWorker.initialized call inputSchema).run l Initialized := by
  refine wp_owes (P := openingProtocol) ?_ (wp_initialized_opening inputSchema h)
  rintro l e ⟨howes, -⟩
  exact howes

/-- What the ledger shows once the thread has served a call. -/
def ServedCall (session : WindowSession) : Except String (ScalarValue V) → ClientLedger → Prop
  | .ok _, l => Usable session l
  | .error _, l => l.poisoned = true

/-- The end of a frame that has failed. -/
theorem wp_poison {error : String} (hbound : l.bound = some session.bound) (hpoisoned : l.poisoned = false) :
    wp (clientProtocol (V := V) (A := A) (R := R) (K := K)).effects
      ((do
        let _ ← Prog.ask .poison
        pure (.error error)) : WindowProg V A R K (Except String (ScalarValue V))) l (ServedCall session) := by
  refine ⟨⟨?_, hpoisoned⟩, fun _ _ => rfl⟩
  rw [hbound]
  rfl

theorem wp_serve (batch : RecordBatch V) (h : Usable session l) :
    wp (clientProtocol (A := A) (R := R) (K := K)).effects (WindowWorker.serve call session.bound batch) l (ServedCall session) := by
  refine ⟨⟨h.bound, h.part, h.poisoned⟩, fun p _ => ?_⟩
  cases p with
  | error error => exact wp_poison h.bound h.poisoned
  | ok p =>
    refine ⟨⟨rfl, h.poisoned⟩, fun out _ => ?_⟩
    cases out with
    | error error => exact wp_poison h.bound h.poisoned
    | ok out =>
      refine ⟨⟨rfl, h.poisoned⟩, fun destroyed _ => ?_⟩
      cases destroyed with
      | error error => exact wp_poison h.bound h.poisoned
      | ok _ =>
        apply wp_bind
        cases frameValue call out with
        | error error => exact wp_poison h.bound h.poisoned
        | ok value => exact ⟨h.attached, h.bound, rfl, h.poisoned⟩

theorem wp_leave (h : Usable session l) :
    wp (clientProtocol (V := V) (A := A) (R := R) (K := K)).effects (WindowWorker.leave session true) l fun _ l => l = {} :=
  ⟨⟨h.attached, h.bound, h.part, h.poisoned⟩, fun _ _ => rfl⟩

/-- What is open when no call is on; after a panic nobody knows. -/
def Leaves (p : Bool) : ClientUse → ClientLedger → Prop
  | .unused, l => l.bound = none
  | .usable session, l => Usable session l
  | .broken, l => p = false → l.poisoned = true
  | .closed, l => p = false → l = {}

variable {p : Bool} {use : ClientUse} {answers : List (RecordBatch V × Except String (ScalarValue V))}
  {log trace : List (Event (WindowRpc V A R K) WindowRpc.Answer)}

/-- One more program is run, or a part of it. -/
theorem meets_more {α : Type} {prog rest : WindowProg V A R K α} {Q : α → ClientLedger → Prop}
    (hlog : clientProtocol.Meets {} log) (hprog : wp clientProtocol.effects prog (clientProtocol.last {} log) Q)
    (h : Asks prog trace rest) : clientProtocol.Meets {} (log ++ trace) ∧
      wp clientProtocol.effects rest (clientProtocol.last {} (log ++ trace)) Q := by
  obtain ⟨hmeets, hrest⟩ := wp_asks hprog h (allows_clientProtocol _ _)
  rw [Protocol.last_append]
  exact ⟨Protocol.meets_append.2 ⟨hlog, hmeets⟩, hrest⟩

theorem OneClient.meets (h : OneClient call p use answers log) :
    clientProtocol.Meets {} log ∧ Leaves p use (clientProtocol.last {} log) := by
  induction h with
  | unused => exact ⟨trivial, rfl⟩
  | spawnFails _ _ _ ih => exact ih
  | initializeFails _ batch run ih => exact meets_more ih.1 (wp_initialized _ ih.2) (asks_ret.2 run)
  | initializePanics _ batch run ih =>
    refine ⟨(meets_more ih.1 (wp_initialized _ ih.2) run).1, ?_⟩
    obtain ⟨-, ⟨-, hbound⟩, -⟩ := wp_asks (wp_initialized_opening _ ih.2) run (allows_openingProtocol _ _)
    rw [openingProtocol, Protocol.last_owes] at hbound
    rw [Protocol.last_append]
    exact hbound
  | initialized _ inputSchema run ih => exact meets_more ih.1 (wp_initialized _ ih.2) (asks_ret.2 run)
  | evaluated _ batch run ih => exact meets_more ih.1 (wp_serve batch ih.2) (asks_ret.2 run)
  | fails _ batch run ih =>
    obtain ⟨hmeets, hpoisoned⟩ := meets_more ih.1 (wp_serve batch ih.2) (asks_ret.2 run)
    exact ⟨hmeets, fun _ => hpoisoned⟩
  | panics _ batch run ih =>
    refine ⟨(meets_more ih.1 (wp_serve batch ih.2) run).1, ?_⟩
    rintro ⟨⟩
  | refused _ _ _ ih => exact ih
  | closes _ run ih =>
    obtain ⟨hmeets, hclosed⟩ := meets_more ih.1 (wp_leave ih.2) (asks_ret.2 run)
    exact ⟨hmeets, fun _ => hclosed⟩
  | closePanics _ ih =>
    refine ⟨ih.1, ?_⟩
    rintro ⟨⟩

/-- The log of one client, and what a program that is under way has asked. -/
inductive Ongoing (call : WindowCall V A R) (p : Bool) : List (Event (WindowRpc V A R K) WindowRpc.Answer) → Prop
  | resting {state given logged} (client : OneClient call p state given logged) : Ongoing call p logged
  | opening {given logged asked rest} (inputSchema : Schema) (client : OneClient call p .unused given logged)
      (asks : Asks (WindowWorker.initialized call inputSchema).run asked rest) : Ongoing call p (logged ++ asked)
  | serving {current given logged asked rest} (batch : RecordBatch V) (client : OneClient call p (.usable current) given logged)
      (asks : Asks (WindowWorker.serve call current.bound batch) asked rest) : Ongoing call p (logged ++ asked)
  | leaving {current given logged asked rest} (client : OneClient call p (.usable current) given logged)
      (asks : Asks (WindowWorker.leave current true) asked rest) : Ongoing call p (logged ++ asked)

theorem Ongoing.meets (h : Ongoing call p log) : clientProtocol.Meets {} log := by
  cases h with
  | resting client => exact client.meets.1
  | opening inputSchema client asks => exact (meets_more client.meets.1 (wp_initialized inputSchema client.meets.2) asks).1
  | serving batch client asks => exact (meets_more client.meets.1 (wp_serve batch client.meets.2) asks).1
  | leaving client asks => exact (meets_more client.meets.1 (wp_leave client.meets.2) asks).1

namespace WindowSystem

variable {respond : List (Event (WindowRpc V A R K) WindowRpc.Answer) → (e : WindowRpc V A R K) → e.Answer}
  {s : WindowSystem V A R K}

theorem ongoing_of_resting {commands : List (WindowCommand V)} {thread : Option (WorkerPhase V A R K)}
    (h : Resting call p answers log commands thread) : Ongoing call p log := by
  unfold Resting at h
  split at h
  · exact .resting h.1
  · exact .resting h.1
  · exact .resting h
  · exact .resting h
  · exact h.elim

theorem Holds.ongoing (h : s.Holds call) : Ongoing call s.panicked s.log := by
  obtain ⟨caller, thread, commands, log, answers, panicked⟩ := s
  simp only [Holds] at h ⊢
  unfold Situation at h
  split at h
  · exact ongoing_of_resting h
  · exact ongoing_of_resting h
  · exact ongoing_of_resting h
  · obtain ⟨-, before, trace, rfl, hclient, hasks⟩ := h
    exact .opening _ hclient hasks
  · exact .resting h.1
  · exact .resting h.1
  · obtain ⟨-, before, trace, rfl, hclient, hasks⟩ := h
    exact .serving _ hclient hasks
  · exact .resting h
  · exact .resting h
  · exact .resting h.1
  · obtain ⟨before, trace, session, rfl, hclient, hasks⟩ := h
    exact .leaving hclient hasks
  · rcases h with hbroken | hclosed
    · exact .resting hbroken
    · exact .resting hclosed
  · rcases h with hbroken | hclosed
    · exact .resting hbroken
    · exact .resting hclosed
  · rcases h with hbroken | hclosed
    · exact .resting hbroken
    · exact .resting hclosed
  · exact .resting h
  · exact h.elim

variable (call respond)

/-- **The client library is used as it has to be**, at every moment of every run; and when the accumulator is gone, what it
had bound has been destroyed or its client was poisoned, unless the library has panicked. -/
theorem window_rpcs_wellformed (actions : List (WindowAction V)) (s : WindowSystem V A R K)
    (hrun : run call respond actions = some s) :
    clientProtocol.Meets {} s.log ∧ (s.caller = .dropped → s.panicked = false →
      (clientProtocol.last {} s.log).poisoned = true ∨ (clientProtocol.last {} s.log).bound = none) := by
  refine ⟨(holds_run hrun).ongoing.meets, ?_⟩
  intro hdropped hcalm
  obtain ⟨use, hclient, hover⟩ := (holds_run hrun).dropped hdropped
  have hleaves := hclient.meets.2
  cases use with
  | unused => exact .inr hleaves
  | usable session => exact absurd rfl (hover session)
  | broken => exact .inl (hleaves hcalm)
  | closed => exact .inr (congrArg ClientLedger.bound (hleaves hcalm))

theorem window_rpcs_wellformed_scheduled : ∃ s, run sumWindow countingServer windowSchedule = some s ∧
    clientProtocol.Meets {} s.log ∧
    ((clientProtocol.last {} s.log).poisoned = true ∨ (clientProtocol.last {} s.log).bound = none) := by
  obtain ⟨s, hrun, hdropped, hcalm, -⟩ := windowSchedule_runs
  obtain ⟨hmeets, hend⟩ := window_rpcs_wellformed sumWindow countingServer windowSchedule s hrun
  exact ⟨s, hrun, hmeets, hend hdropped hcalm⟩

end WindowSystem

end VgiDatafusion
