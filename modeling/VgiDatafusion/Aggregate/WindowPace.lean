import VgiDatafusion.Aggregate.WindowWorker

/-!
# Every call of a window returns (aggregate.rs:442-593)

The programs of the thread ask a bounded number of questions, each call sends one command, and a thread that is gone takes
its queue with it: a run takes a bounded number of steps for each call, and as long as a call is on one of the two sides can
move (`window_calls_return`).
-/
namespace VgiDatafusion

open StepSystem Program

variable {V A R K : Type} {call : WindowCall V A R} {session : WindowSession}

theorem within_rpc (e : WindowRpc V A R K) : Within 1 (rpc e).run := fun _ => trivial

theorem within_initialized (inputSchema : Schema) :
    Within 4 (WindowWorker.initialized (K := K) call inputSchema).run := by
  have hbind : ∀ attached spec, Within 2
      (aggregateBind (V := V) (A := A) (K := K) attached spec inputSchema call.requiredSecrets).run := by
    intro attached spec
    rw [aggregateBind]
    split
    · exact (within_rpc _).mono (by decide)
    · exact within_then (n := 1) (m := 1) (within_rpc _) fun _ => within_rpc _
  refine within_then (n := 1) (m := 3) (within_rpc _) fun client => ?_
  refine within_then (n := 1) (m := 2) (within_rpc _) fun attached => ?_
  exact within_then (n := 2) (m := 0) (hbind attached _) fun _ => within_ret 0 _

theorem within_serve (bound : Nat) (batch : RecordBatch V) :
    Within 4 (WindowWorker.serve (K := K) call bound batch) := by
  have hframe : Within 3 (evaluateWindowFrame (K := K) call bound batch).run := by
    refine within_then (n := 1) (m := 2) (within_rpc _) fun p => ?_
    refine within_then (n := 1) (m := 1) (within_rpc _) fun out => ?_
    refine within_then (n := 1) (m := 0) (within_rpc _) fun _ => ?_
    cases h : frameValue call out with
    | ok value => exact within_ret 0 _
    | error error => exact within_ret 0 _
  refine within_bind (n := 3) (m := 1) hframe fun result => ?_
  cases result with
  | ok value => exact within_ret 1 _
  | error error => exact fun _ => trivial

theorem within_leave : Within 1 (WindowWorker.leave (V := V) (A := A) (R := R) (K := K) session true) := fun _ => trivial

namespace WindowSystem

variable {respond : List (Event (WindowRpc V A R K) WindowRpc.Answer) → (e : WindowRpc V A R K) → e.Answer}
  {s s' : WindowSystem V A R K} {a : WindowAction V}

/-- The steps the thread may still take by itself: after its program it can be told to stop, and leave. -/
def ThreadLeft (m : Nat) : Option (WorkerPhase V A R K) → Prop
  | none | some .exited => True
  | some (.opening rest) => ∃ k, Within k rest ∧ k + 4 ≤ m
  | some (.receiving _) => 3 ≤ m
  | some (.serving _ rest) => ∃ k, Within k rest ∧ k + 3 ≤ m
  | some (.leaving rest) => ∃ k, Within k rest ∧ k + 1 ≤ m

/-- The steps of the accumulator up to its end, where no call follows, with those that serve what it sends. -/
def callerLeft : CallerPhase V → Option (WorkerPhase V A R K) → Nat
  | .idle, _ => 3
  | .starting _, _ | .sending _, _ => 10
  | .awaiting _, some (.receiving _) => 9
  | .awaiting _, _ => 4
  | .stopping, _ => 2
  | .joining, _ => 1
  | .dropped, _ => 0

attribute [local simp] callerLeft

/-- A bound on the steps that remain, whatever the thread's program still asks. -/
def Left (n : Nat) (s : WindowSystem V A R K) : Prop := ∃ m, ThreadLeft m s.thread ∧ callerLeft s.caller s.thread + m ≤ n

/-- A question takes one from what is left. -/
theorem within_call {α : Type} {k : Nat} {e : WindowRpc V A R K} {next : e.Answer → WindowProg V A R K α}
    (h : Within k (.call e next)) (answer : e.Answer) : ∃ j, k = j + 1 ∧ Within j (next answer) := by
  cases k with
  | zero => exact h.elim
  | succ j => exact ⟨j, rfl, h answer⟩

/-- Something less is left. -/
theorem left_of_lt {n m k : Nat} (hle : callerLeft s.caller s.thread + m ≤ n) (hthread : ThreadLeft k s'.thread)
    (hlt : callerLeft s'.caller s'.thread + k < callerLeft s.caller s.thread + m) : ∃ j, n = j + 1 ∧ s'.Left j :=
  ⟨n - 1, by omega, k, hthread, by omega⟩

theorem Left.ask {n : Nat} (h : s.Left n) (hholds : s.Holds call) (hstep : s.ask respond = some s') :
    ∃ j, n = j + 1 ∧ s'.Left j := by
  obtain ⟨m, hleft, hle⟩ := h
  simp only [WindowSystem.ask] at hstep
  split at hstep
  next e next hthread =>
    obtain ⟨batch, hcaller⟩ : Asking s.caller (some (.opening _)) := hthread ▸ hholds.asking
    cases hstep
    rw [hthread] at hleft
    obtain ⟨k, hk, hm⟩ := hleft
    obtain ⟨i, rfl, hi⟩ := within_call hk (respond s.log e)
    refine left_of_lt hle ⟨i, hi, Nat.le_refl _⟩ ?_
    simp only [hcaller, callerLeft]
    omega
  next session e next hthread =>
    obtain ⟨batch, hcaller⟩ : Asking s.caller (some (.serving _ _)) := hthread ▸ hholds.asking
    cases hstep
    rw [hthread] at hleft
    obtain ⟨k, hk, hm⟩ := hleft
    obtain ⟨i, rfl, hi⟩ := within_call hk (respond s.log e)
    refine left_of_lt hle ⟨i, hi, Nat.le_refl _⟩ ?_
    simp only [hcaller, hthread, callerLeft]
    omega
  next e next hthread =>
    have hasking := hholds.asking
    rw [hthread] at hasking
    have hcaller : s.caller = .joining := hasking
    cases hstep
    rw [hthread] at hleft
    obtain ⟨k, hk, hm⟩ := hleft
    obtain ⟨i, rfl, hi⟩ := within_call hk (respond s.log e)
    refine left_of_lt hle ⟨i, hi, Nat.le_refl _⟩ ?_
    simp only [hcaller, callerLeft]
    omega
  next => cases hstep

theorem Left.panics {n : Nat} (h : s.Left n) (hholds : s.Holds call) (hstep : s.panics = some s') :
    ∃ j, n = j + 1 ∧ s'.Left j := by
  obtain ⟨m, hleft, hle⟩ := h
  have hgone : ThreadLeft 1 (some (WorkerPhase.leaving (.ret ())) : Option (WorkerPhase V A R K)) :=
    ⟨0, trivial, Nat.le_refl 1⟩
  simp only [WindowSystem.panics] at hstep
  split at hstep
  next e next hthread =>
    obtain ⟨batch, hcaller⟩ : Asking s.caller (some (.opening _)) := hthread ▸ hholds.asking
    cases hstep
    rw [hthread] at hleft
    obtain ⟨k, -, hm⟩ := hleft
    refine left_of_lt hle hgone ?_
    simp only [hcaller, callerLeft]
    omega
  next session e next hthread =>
    obtain ⟨batch, hcaller⟩ : Asking s.caller (some (.serving _ _)) := hthread ▸ hholds.asking
    cases hstep
    rw [hthread] at hleft
    obtain ⟨k, -, hm⟩ := hleft
    refine left_of_lt hle hgone ?_
    simp only [hcaller, hthread, callerLeft]
    omega
  next e next hthread =>
    have hasking := hholds.asking
    rw [hthread] at hasking
    have hcaller : s.caller = .joining := hasking
    cases hstep
    rw [hthread] at hleft
    obtain ⟨k, hk, hm⟩ := hleft
    -- a question that was due is asked no more
    have hk : k ≠ 0 := by
      rintro rfl
      exact hk
    refine left_of_lt hle hgone ?_
    simp only [hcaller, callerLeft]
    omega
  next => cases hstep

theorem Left.receive {n : Nat} (h : s.Left n) (hholds : s.Holds call) (hstep : s.receive call = some s') :
    ∃ j, n = j + 1 ∧ s'.Left j := by
  obtain ⟨m, hleft, hle⟩ := h
  simp only [WindowSystem.receive] at hstep
  split at hstep
  next session batch rest hthread hcommands =>
    rcases holds_receiving hholds hthread with hnone | ⟨sent, hcaller, -⟩ | ⟨-, hstop⟩
    · simp [hnone] at hcommands
    · cases hstep
      rw [hthread] at hleft
      have hthree : 3 ≤ m := hleft
      refine left_of_lt hle ⟨4, within_serve _ _, Nat.le_refl _⟩ ?_
      simp only [hcaller, hthread, callerLeft]
      omega
    · simp [hstop] at hcommands
  next session rest hthread hcommands =>
    rcases holds_receiving hholds hthread with hnone | ⟨sent, -, hsent⟩ | ⟨hcaller, -⟩
    · simp [hnone] at hcommands
    · simp [hsent] at hcommands
    · cases hstep
      rw [hthread] at hleft
      have hthree : 3 ≤ m := hleft
      refine left_of_lt hle ⟨1, within_leave, Nat.le_refl _⟩ ?_
      simp only [hcaller, callerLeft]
      omega
  next => cases hstep

theorem Left.ready {n : Nat} (h : s.Left n) (hstep : s.ready = some s') : ∃ j, n = j + 1 ∧ s'.Left j := by
  obtain ⟨m, hleft, hle⟩ := h
  simp only [WindowSystem.ready] at hstep
  split at hstep
  next batch session hcaller hthread =>
    cases hstep
    rw [hthread] at hleft
    obtain ⟨k, -, hm⟩ := hleft
    refine left_of_lt hle (Nat.le_refl 3 : ThreadLeft 3 (some (.receiving session))) ?_
    simp only [hcaller, callerLeft]
    omega
  next batch error hcaller hthread =>
    cases hstep
    refine left_of_lt (k := 0) hle trivial ?_
    simp only [hcaller, answer, callerLeft]
    omega
  next => cases hstep

theorem Left.send {n : Nat} (h : s.Left n) (hstep : s.send = some s') : ∃ j, n = j + 1 ∧ s'.Left j := by
  obtain ⟨m, hleft, hle⟩ := h
  have hawaiting : ∀ batch, callerLeft (.awaiting batch) s.thread ≤ 9 := by
    intro batch
    cases s.thread with
    | none => simp [callerLeft]
    | some phase => cases phase <;> simp [callerLeft]
  simp only [WindowSystem.send] at hstep
  split at hstep
  next batch hcaller hthread =>
    cases hstep
    refine left_of_lt hle hleft ?_
    simp only [hcaller, answer, callerLeft]
    omega
  next batch phase _ hcaller hthread =>
    cases hstep
    refine left_of_lt hle hleft ?_
    have hnine := hawaiting batch
    have hten : callerLeft s.caller s.thread = 10 := by simp only [hcaller, callerLeft]
    change callerLeft (.awaiting batch) s.thread + m < _
    omega
  next hcaller hthread =>
    cases hstep
    refine left_of_lt hle hleft ?_
    simp only [hcaller, callerLeft]
    omega
  next phase _ hcaller hthread =>
    cases hstep
    refine left_of_lt hle hleft ?_
    simp only [hcaller, callerLeft]
    omega
  next => cases hstep

theorem Left.reply {n : Nat} (h : s.Left n) (hstep : s.reply = some s') : ∃ j, n = j + 1 ∧ s'.Left j := by
  obtain ⟨m, hleft, hle⟩ := h
  simp only [WindowSystem.reply] at hstep
  split at hstep
  next batch session result hcaller hthread =>
    cases hstep
    rw [hthread] at hleft
    obtain ⟨k, -, hm⟩ := hleft
    have hthree : ThreadLeft 3 (some (if result.isOk then .receiving session
        else .leaving (WindowWorker.leave session false)) : Option (WorkerPhase V A R K)) := by
      cases result with
      | ok value => exact Nat.le_refl 3
      | error error => exact ⟨0, trivial, by decide⟩
    refine left_of_lt hle hthree ?_
    simp only [hcaller, hthread, answer, callerLeft]
    omega
  next => cases hstep

theorem Left.hangUp {n : Nat} (h : s.Left n) (hstep : s.hangUp = some s') : ∃ j, n = j + 1 ∧ s'.Left j := by
  obtain ⟨m, hleft, hle⟩ := h
  simp only [WindowSystem.hangUp] at hstep
  split at hstep
  next batch _ hcaller hthread =>
    cases hstep
    refine left_of_lt (k := 0) hle trivial ?_
    simp only [hcaller, answer, callerLeft]
    omega
  next batch hcaller hthread _ =>
    cases hstep
    refine left_of_lt hle hleft ?_
    simp only [hcaller, hthread, answer, callerLeft]
    omega
  next batch _ hcaller hthread =>
    cases hstep
    refine left_of_lt hle hleft ?_
    simp only [hcaller, hthread, answer, callerLeft]
    omega
  next => cases hstep

theorem Left.exit {n : Nat} (h : s.Left n) (hstep : s.exit = some s') : ∃ j, n = j + 1 ∧ s'.Left j := by
  obtain ⟨m, hleft, hle⟩ := h
  obtain ⟨caller, thread, commands, log, answers, panicked⟩ := s
  simp only [WindowSystem.exit] at hstep
  split at hstep
  next => cases hstep
  next =>
    cases hstep
    obtain ⟨k, -, hm⟩ := hleft
    refine left_of_lt (k := 0) hle trivial ?_
    cases caller <;> simp only [callerLeft] <;> omega
  next => cases hstep

theorem Left.drop {n : Nat} (h : s.Left n) (hstep : s.drop = some s') : ∃ j, n = j + 1 ∧ s'.Left j := by
  obtain ⟨m, hleft, hle⟩ := h
  simp only [WindowSystem.drop] at hstep
  split at hstep
  next hcaller hthread =>
    cases hstep
    refine left_of_lt hle hleft ?_
    simp only [hcaller, callerLeft]
    omega
  next hcaller hthread =>
    cases hstep
    refine left_of_lt hle hleft ?_
    simp only [hcaller, callerLeft]
    omega
  next => cases hstep

theorem Left.join {n : Nat} (h : s.Left n) (hstep : s.join = some s') : ∃ j, n = j + 1 ∧ s'.Left j := by
  obtain ⟨m, hleft, hle⟩ := h
  simp only [WindowSystem.join] at hstep
  split at hstep
  next hcaller hthread =>
    cases hstep
    refine left_of_lt hle hleft ?_
    simp only [hcaller, callerLeft]
    omega
  next => cases hstep

/-- A call brings its own steps. -/
theorem Left.evaluate {n : Nat} {batch : RecordBatch V} (h : s.Left n) (hstep : s.evaluate call batch = some s') :
    s'.Left (n + 15) := by
  obtain ⟨m, hleft, hle⟩ := h
  simp only [WindowSystem.evaluate] at hstep
  split at hstep
  next hcaller hthread =>
    cases hstep
    simp only [hcaller, callerLeft] at hle
    refine ⟨8, ⟨4, within_initialized _, Nat.le_refl 8⟩, ?_⟩
    simp only [callerLeft]
    omega
  next hcaller hthread =>
    cases hstep
    simp only [hcaller, callerLeft] at hle
    refine ⟨m, hleft, ?_⟩
    simp only [callerLeft]
    omega
  next => cases hstep

theorem Left.spawnFails {n : Nat} {batch : RecordBatch V} {error : String} (h : s.Left n)
    (hstep : s.spawnFails batch error = some s') : s'.Left n := by
  obtain ⟨m, hleft, hle⟩ := h
  simp only [WindowSystem.spawnFails] at hstep
  split at hstep
  next hcaller hthread =>
    cases hstep
    simp only [hcaller, callerLeft] at hle
    exact ⟨m, hleft, hle⟩
  next => cases hstep

def calls (actions : List (WindowAction V)) : Nat := actions.countP WindowAction.isCall

theorem calls_concat (actions : List (WindowAction V)) (a : WindowAction V) :
    calls (actions ++ [a]) = calls actions + if a.isCall then 1 else 0 := by
  rw [calls, List.countP_append, List.countP_singleton, calls]

/-- The steps made and those that are left, of the 16 that each call has and the 3 of the end. -/
def Pace (done : List (WindowAction V)) (s : WindowSystem V A R K) : Prop :=
  ∃ n, s.Left n ∧ done.length + n ≤ 16 * calls done + 3

theorem Pace.step {done : List (WindowAction V)} (h : Pace done s) (hholds : s.Holds call)
    (hstep : s.step call respond a = some s') : Pace (done ++ [a]) s' := by
  obtain ⟨n, hleft, hle⟩ := h
  have hcalls := calls_concat done a
  have hlength : (done ++ [a]).length = done.length + 1 := List.length_append
  -- a step that is no call uses up one of those that were left
  have hless : a.isCall = false → (∃ j, n = j + 1 ∧ s'.Left j) → Pace (done ++ [a]) s' := by
    rintro hcall ⟨j, rfl, hj⟩
    refine ⟨j, hj, ?_⟩
    rw [hcall] at hcalls
    simp only [Bool.false_eq_true, if_false] at hcalls
    omega
  cases a with
  | evaluate batch =>
    refine ⟨n + 15, hleft.evaluate hstep, ?_⟩
    simp only [WindowAction.isCall, if_true] at hcalls
    omega
  | spawnFails batch error =>
    refine ⟨n, hleft.spawnFails hstep, ?_⟩
    simp only [WindowAction.isCall, if_true] at hcalls
    omega
  | ask => exact hless rfl (hleft.ask hholds hstep)
  | panics => exact hless rfl (hleft.panics hholds hstep)
  | ready => exact hless rfl (hleft.ready hstep)
  | send => exact hless rfl (hleft.send hstep)
  | receive => exact hless rfl (hleft.receive hholds hstep)
  | reply => exact hless rfl (hleft.reply hstep)
  | hangUp => exact hless rfl (hleft.hangUp hstep)
  | exit => exact hless rfl (hleft.exit hstep)
  | drop => exact hless rfl (hleft.drop hstep)
  | join => exact hless rfl (hleft.join hstep)

/-- The steps that neither the engine nor a panic has to bring about. -/
def ownSteps : List (WindowAction V) := [.ask, .ready, .send, .receive, .reply, .hangUp, .exit, .join]

/-- While a call or the drop is on, one of the two sides can move. -/
theorem Holds.progress (h : s.Holds call) (hidle : s.caller ≠ .idle) (hdropped : s.caller ≠ .dropped) :
    ∃ a ∈ ownSteps, (s.step call respond a).isSome := by
  obtain ⟨caller, thread, commands, log, answers, panicked⟩ := s
  cases caller with
  | idle => exact absurd rfl hidle
  | dropped => exact absurd rfl hdropped
  | sending batch =>
    refine ⟨.send, by simp [ownSteps], ?_⟩
    cases thread with
    | none => exact h.elim
    | some phase => cases phase <;> rfl
  | stopping =>
    refine ⟨.send, by simp [ownSteps], ?_⟩
    cases thread with
    | none => exact h.elim
    | some phase => cases phase <;> rfl
  | starting batch =>
    cases thread with
    | none => exact h.elim
    | some phase =>
      cases phase with
      | opening rest =>
        cases rest with
        | ret result => exact ⟨.ready, by simp [ownSteps], by cases result <;> rfl⟩
        | call e next => exact ⟨.ask, by simp [ownSteps], rfl⟩
      | leaving rest =>
        cases rest with
        | ret => exact ⟨.hangUp, by simp [ownSteps], rfl⟩
        | call e next => exact h.elim
      | receiving session => exact h.elim
      | serving session rest => exact h.elim
      | exited => exact h.elim
  | awaiting batch =>
    cases thread with
    | none => exact h.elim
    | some phase =>
      cases phase with
      | receiving session =>
        obtain ⟨-, rfl⟩ := h
        exact ⟨.receive, by simp [ownSteps], rfl⟩
      | serving session rest =>
        cases rest with
        | ret result => exact ⟨.reply, by simp [ownSteps], rfl⟩
        | call e next => exact ⟨.ask, by simp [ownSteps], rfl⟩
      | leaving rest =>
        cases rest with
        | ret => exact ⟨.exit, by simp [ownSteps], rfl⟩
        | call e next => exact h.elim
      | exited => exact ⟨.hangUp, by simp [ownSteps], rfl⟩
      | opening rest => exact h.elim
  | joining =>
    cases thread with
    | none => exact h.elim
    | some phase =>
      cases phase with
      | receiving session =>
        obtain ⟨-, rfl⟩ := h
        exact ⟨.receive, by simp [ownSteps], rfl⟩
      | leaving rest =>
        cases rest with
        | ret => exact ⟨.exit, by simp [ownSteps], rfl⟩
        | call e next => exact ⟨.ask, by simp [ownSteps], rfl⟩
      | exited => exact ⟨.join, by simp [ownSteps], rfl⟩
      | opening rest => exact h.elim
      | serving session rest => exact h.elim

variable (call respond)

/-- **Every call returns**: a run takes at most 16 steps a call and 3 for the end, and as long as a call or the drop is on
there is a step that can be taken. -/
theorem window_calls_return (actions : List (WindowAction V)) (s : WindowSystem V A R K)
    (hrun : run call respond actions = some s) :
    actions.length ≤ 16 * calls actions + 3 ∧
      (s.caller ≠ .idle → s.caller ≠ .dropped → ∃ a ∈ ownSteps, (s.step call respond a).isSome) := by
  have hstart : ({} : WindowSystem V A R K).Holds call ∧ Pace [] ({} : WindowSystem V A R K) :=
    ⟨holds_start, 3, ⟨0, trivial, Nat.le_refl 3⟩, Nat.le_refl 3⟩
  have hboth : s.Holds call ∧ Pace actions s := by
    refine @StepSystem.run_invariant_of_partial _ _ _ _ _ (fun done s => s.Holds call ∧ Pace done s) hstart ?_ _ hrun
    rintro done a s s' ⟨hholds, hpace⟩ hstep
    exact ⟨hholds.step hstep, hpace.step hholds hstep⟩
  obtain ⟨hholds, n, -, hle⟩ := hboth
  exact ⟨by omega, hholds.progress⟩

theorem window_calls_return_scheduled : ∃ s, run sumWindow countingServer windowSchedule = some s ∧
    calls windowSchedule = 3 ∧ windowSchedule.length ≤ 16 * calls windowSchedule + 3 := by
  obtain ⟨s, hrun, -⟩ := windowSchedule_runs
  exact ⟨s, hrun, rfl, (window_calls_return sumWindow countingServer windowSchedule s hrun).1⟩

end WindowSystem

end VgiDatafusion
