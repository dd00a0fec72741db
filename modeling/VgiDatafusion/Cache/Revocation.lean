import VgiDatafusion.Cache.Atomic
import VgiDatafusion.Cache.Tiers
import VgiDatafusion.Cache.Validation

/-!
# A fresh answer that is not admitted (lib.rs:3738-3801, 5195-5328)

A stale result is asked for with conditions, and the worker sends new rows with a policy the cache
refuses. The job hands the policy to the capture; the capture, when the last partition completes,
refuses and removes the entry of the memory cache. It knows the key only. The durable generation the
conditions were taken from is known to the job, whose `remove_hit` calls are all on other paths.

| here | there |
| --- | --- |
| `PlainScan` | a `VgiScanExec` without a split plan, with the entry selected for revalidation |
| `ScanEvent`, `PlainScan.step` | one effect of one partition's job, with what a capture call meets outside |
| `Runs` | the jobs of all partitions, interleaved in any order |
| `RefusedAnswer` | partition 0 read a complete answer, and `complete` finds its control inadmissible |

`revoked_iff`: the memory entry goes when every partition completes, and the durable generation stays.
-/
namespace VgiDatafusion

open Traced

variable {B R : Type}

/-! ## The scan -/

/-- A `VgiScanExec` without a split plan, and the entry it was given to revalidate. -/
structure PlainScan (B R : Type) where
  function : String
  ops : BatchOps B R
  entry : Revalidation B
  limit : Option Nat
  background : Bool
  partitions : Nat
  durable : Bool
  durableRevalidation : Bool
  bytes : B → Nat

/-- What a call of the capture meets outside. -/
structure CaptureAnswers where
  diskAccepts : Bool
  maxEntryBytes : Nat
  publication : Publication

/-- The call as partition `p` makes it, with what it meets outside. -/
def CaptureCall.op (p : Nat) (a : CaptureAnswers) : CaptureCall B → CaptureOp B
  | .start => .start p a.diskAccepts
  | .pushBatch batch => .pushBatch p batch a.diskAccepts a.maxEntryBytes
  | .noWork => .noWork p a.publication
  | .scanned control => .scanned p control a.publication
  | .revalidated => .revalidated
  | .abort reason => .abort reason

/-- One effect of one partition's job, with what a capture call meets outside. -/
structure ScanEvent (B : Type) where
  partition : Nat
  effect : JobEffect B
  answers : CaptureAnswers

/-- How the tiers store a result: `insert_with_substreams`, `commit_freshness`, `reap`. -/
structure TierStores (B : Type) where
  insert : MemoryEntry B → Tiers → Tiers
  commit : List (Nat × B) → CacheControl → Tiers → Tiers
  reap : Tiers → Tiers

/-- What an effect of the capture does to the tiers. -/
def Tiers.publish (stores : TierStores B) (t : Tiers) : Effect B → Tiers
  | .insertMemory entry => stores.insert entry t
  | .commitDisk batches control => stores.commit batches control t
  | .reapDisk => stores.reap t
  | .removeMemory => { t with memory := none }
  | .flightStored _ | .flightAborted _ _ => t

/-- The capture and the tiers of a running scan. -/
structure ScanState (B : Type) where
  capture : Capture B
  tiers : Tiers

namespace PlainScan

/-- The jobs of a cached scan always have its capture. -/
def config (scan : PlainScan B R) (p : Nat) : JobConfig B R where
  function := scan.function
  partition := p
  ops := scan.ops
  groups := none
  revalidation := some scan.entry
  limit := scan.limit
  captures := true
  background := scan.background
  foreground h := by cases h

def captureConfig (scan : PlainScan B R) : CaptureConfig B where
  partitions := scan.partitions
  durable := scan.durable
  durableRevalidation := scan.durableRevalidation
  bytes := scan.bytes

variable (scan : PlainScan B R) (stores : TierStores B) (envs : Nat → JobEnv B) (remaining : Nat)

/-- One effect is carried out, on the capture or on the tiers. -/
def step (s : ScanState B) (event : ScanEvent B) : ScanState B :=
  match event.effect with
  | .capture call =>
    let capture := captureStep scan.captureConfig s.capture (call.op event.partition event.answers)
    ⟨capture, (capture.log.drop s.capture.log.length).foldl (Tiers.publish stores) s.tiers⟩
  | effect => { s with tiers := s.tiers.apply (envs event.partition) remaining effect }

/-- The capture holds the flight of the scan, if there is one. -/
def initial (flight : Option Nat) (t : Tiers) : ScanState B :=
  ⟨match flight with
    | none => Capture.new scan.captureConfig
    | some f => (Capture.new scan.captureConfig).setFlight f, t⟩

/-- The scan after these effects. -/
def finish (flight : Option Nat) (t : Tiers) (events : List (ScanEvent B)) : ScanState B :=
  events.foldl (scan.step stores envs remaining) (scan.initial flight t)

/-- Every partition's job runs to its end, interleaved with the others. -/
structure Runs (events : List (ScanEvent B)) : Prop where
  partition_lt : ∀ e ∈ events, e.partition < scan.partitions
  jobs : ∀ p < scan.partitions,
    (events.filter (·.partition = p)).map (·.effect) = (job (scan.config p) (envs p)).trace

/-- Partition 0 received a complete fresh answer with this control. -/
structure FreshAnswer (control : Option CacheControl) : Prop where
  prepared : (envs 0).prepared = .ok ()
  answered : ∃ stream emitted sent, (envs 0).scan none = .ok stream ∧ stream.failure = none ∧
    stream.control = control ∧ stream.notModified = none ∧
    (drain (scan.config 0) (envs 0) 0 0 stream.batches).result = .ok (.ended emitted sent) ∧
    limitReached (scan.config 0) emitted = false

/-- The worker did not opt in, or `freshness_deadline` refuses its policy. -/
def Refuses (control : Option CacheControl) (env : Publication) : Prop :=
  ∀ c, control = some c → ∃ reason, env.freshness (scanCacheStorageControl c scan.durableRevalidation) = .error reason

/-- Nothing that was selected for the request is left to replay or to serve on an error. -/
def Revoked (t : Tiers) : Prop := t.memory = none ∧ ∀ hit ∈ scan.entry.hits, t.durable hit.generation = none

end PlainScan

/-! ## What the jobs of such a scan do -/

section
variable {scan : PlainScan B R} {envs : Nat → JobEnv B} {control : Option CacheControl}

/-- The effects of partition `p` when partition 0 reads a fresh answer with this control. -/
def Expected (envs : Nat → JobEnv B) (control : Option CacheControl) (p : Nat) : JobEffect B → Prop
  | .capture .start | .capture (.pushBatch _) | .scan _ _ | .send _ | .sendError _ => True
  | .capture .noWork => p ≠ 0
  | .capture (.scanned c) => p = 0 ∧ c = control
  | .capture (.abort _) => ∃ error, (envs p).prepared = .error error
  | _ => False

/-- The call that gives the partition its outcome. -/
def JobEffect.completion : JobEffect B → Option Outcome
  | .capture .noWork => some .noWork
  | .capture (.scanned control) => some (.scanned control)
  | _ => none

theorem drain_expected (cfg : JobConfig B R) (env : JobEnv B) (p : Nat) : ∀ (batches : List B) (emitted sent : Nat),
    (∃ emitted' sent', (drain cfg env emitted sent batches).result = .ok (.ended emitted' sent')) →
    ∀ e ∈ (drain cfg env emitted sent batches).trace, Expected envs control p e
  | [], _, _, _ => by simp [drain]
  | batch :: batches, emitted, sent, hended => by
    unfold drain at hended ⊢
    refine forall_bind (by simp [lift]) fun stored hstored => ?_
    rw [bind_ok hstored] at hended
    refine forall_bind (by simp [lift]) fun conformed hconformed => ?_
    rw [bind_ok hconformed] at hended
    have hpushed : ∀ rows, (pushCaptured cfg stored rows).result = .ok () ∧
        ∀ e ∈ (pushCaptured cfg stored rows).trace, Expected envs control p e := by
      intro rows
      unfold pushCaptured
      split <;> simp [Traced.tell, Expected]
    refine forall_bind (hpushed _).2 fun _ _ => ?_
    rw [bind_ok (hpushed _).1] at hended
    split
    · rename_i htakes
      rw [if_pos htakes, tell_bind] at hended
      refine forall_bind (by simp [Traced.tell, Expected]) fun _ _ => ?_
      split
      · rename_i hlimit
        rw [if_pos hlimit, bind_ok (capture_result ..)] at hended
        obtain ⟨_, _, h⟩ := hended
        cases h
      · rename_i hlimit
        rw [if_neg hlimit] at hended
        exact drain_expected cfg env p batches _ (sent + 1) hended
    · rename_i htakes
      rw [if_neg htakes, bind_ok (capture_result ..)] at hended
      obtain ⟨_, _, h⟩ := hended
      cases h

/-- The run of partition 0: the conditional scan, its rows, and the control for the capture. -/
theorem run_fresh (h : scan.FreshAnswer envs control) : ∃ drained : List (JobEffect B),
    (run (scan.config 0) (envs 0)).result = .ok () ∧
      (run (scan.config 0) (envs 0)).trace =
        .scan none (some scan.entry.conditions) :: (drained ++ [.capture (.scanned control)]) ∧
      ∀ e ∈ drained, Expected envs control 0 e := by
  obtain ⟨stream, emitted, sent, hscan, hfailure, rfl, hfresh, hended, hlimit⟩ := h.answered
  have hrun : run (scan.config 0) (envs 0) = runScan (scan.config 0) (envs 0) (some scan.entry) none := by
    show (lift (envs 0).prepared >>= fun _ => _) = _
    rw [h.prepared, lift_ok_bind]
    rfl
  refine ⟨_, ?_, ?_, drain_expected (scan.config 0) (envs 0) 0 stream.batches 0 0 ⟨_, _, hended⟩⟩
  · rw [hrun, runScan, tell_bind, hscan]
    dsimp only
    rw [bind_ok hended]
    simp only [hfailure, hlimit, Bool.false_eq_true, if_false, hfresh]
    exact capture_result ..
  · rw [hrun, runScan, tell_bind, hscan]
    dsimp only
    rw [bind_ok hended]
    simp only [hfailure, hlimit, Bool.false_eq_true, if_false, hfresh]
    rfl

/-- The other partitions have nothing to scan. -/
theorem run_idle {p : Nat} (hp : p ≠ 0) : run (scan.config p) (envs p) =
    match (envs p).prepared with
    | .ok () => ⟨[.capture .noWork], .ok ()⟩
    | .error error => fail error := by
  have hrun : run (scan.config p) (envs p) =
      (lift (envs p).prepared >>= fun _ => execute (scan.config p) (envs p) (some scan.entry) none) := rfl
  have hexecute : execute (scan.config p) (envs p) (some scan.entry) none = ⟨[.capture .noWork], .ok ()⟩ := by
    have hpos : 0 < (scan.config p).partition := Nat.pos_of_ne_zero hp
    simp only [execute, if_pos hpos]
    rfl
  rw [hrun, hexecute]
  cases (envs p).prepared with
  | ok _ => exact lift_ok_bind ..
  | error error => exact bind_error rfl _

theorem job_trace (p : Nat) : (job (scan.config p) (envs p)).trace =
    .capture .start :: match (run (scan.config p) (envs p)).result with
      | .ok () => (run (scan.config p) (envs p)).trace
      | .error error =>
        (run (scan.config p) (envs p)).trace ++ [.capture (.abort "scan failed"), .sendError error] := by
  have hstarted : (capture (scan.config p) .start >>= fun _ => run (scan.config p) (envs p)) =
      ⟨.capture .start :: (run (scan.config p) (envs p)).trace, (run (scan.config p) (envs p)).result⟩ := rfl
  unfold job
  dsimp only
  rw [hstarted]
  cases hresult : (run (scan.config p) (envs p)).result with
  | ok _ => rfl
  | error error =>
    dsimp only
    show _ ++ [JobEffect.capture (CaptureCall.abort "scan failed")] ++ [_] = _
    simp

/-- Every effect is one of those expected, and a partition that was prepared completes. -/
theorem job_effects (h : scan.FreshAnswer envs control) (p : Nat) :
    (∀ e ∈ (job (scan.config p) (envs p)).trace, Expected envs control p e) ∧
      ((envs p).prepared = .ok () → ∃ e ∈ (job (scan.config p) (envs p)).trace, e.completion.isSome = true) ∧
      ((∃ error, (envs p).prepared = .error error) →
        ∀ e ∈ (job (scan.config p) (envs p)).trace, e.completion = none) := by
  rw [job_trace]
  by_cases hp : p = 0
  · subst hp
    obtain ⟨drained, hresult, htrace, hdrained⟩ := run_fresh h
    rw [hresult, htrace]
    refine ⟨?_, fun _ => ⟨.capture (.scanned control), by simp, rfl⟩, ?_⟩
    · intro e he
      simp only [List.mem_cons, List.mem_append, List.not_mem_nil, or_false] at he
      rcases he with rfl | rfl | he | rfl
      · trivial
      · trivial
      · exact hdrained e he
      · exact ⟨rfl, rfl⟩
    · rintro ⟨error, herror⟩
      rw [h.prepared] at herror
      cases herror
  · rw [run_idle hp]
    cases hprepared : (envs p).prepared with
    | ok _ =>
      refine ⟨?_, fun _ => ⟨.capture .noWork, by simp, rfl⟩, ?_⟩
      · simpa [Expected] using hp
      · rintro ⟨error, herror⟩
        cases herror
    | error error =>
      refine ⟨?_, ?_, ?_⟩
      · simp [fail, Expected, hprepared]
      · intro hok
        cases hok
      · simp [fail, JobEffect.completion]

/-! ## The capture of such a scan -/

/-- Partition 0 scans, the others have no work. -/
def partitionOutcome (control : Option CacheControl) (p : Nat) : Outcome :=
  if p = 0 then .scanned control else .noWork

theorem Expected.completion {p : Nat} {e : JobEffect B} {o : Outcome} (h : Expected envs control p e)
    (ho : e.completion = some o) : o = partitionOutcome control p := by
  unfold partitionOutcome
  cases e with
  | capture call =>
    cases call with
    | noWork =>
      rw [if_neg h]
      exact (Option.some.inj ho).symm
    | scanned c =>
      obtain ⟨hp, rfl⟩ := h
      rw [if_pos hp]
      exact (Option.some.inj ho).symm
    | _ => cases ho
  | _ => cases ho

/-- One partition scanned, so its control is the control of the result. -/
theorem scannedControls_eq {outcomes : List (Option Outcome)} (hne : outcomes ≠ [])
    (hall : ∀ p < outcomes.length, outcomes[p]? = some (some (partitionOutcome control p))) :
    outcomes.filterMap scannedControl = [control] := by
  cases outcomes with
  | nil => exact absurd rfl hne
  | cons first rest =>
    have hfirst := hall 0 (by simp)
    have hrest : rest.filterMap scannedControl = [] := by
      rw [List.filterMap_eq_nil_iff]
      intro o ho
      obtain ⟨p, hp⟩ := List.mem_iff_getElem?.1 ho
      have hlt := (List.getElem?_eq_some_iff.1 hp).1
      have hnext := hall (p + 1) (by simpa using hlt)
      rw [List.getElem?_cons_succ, hp] at hnext
      cases hnext
      simp [partitionOutcome, scannedControl]
    simp only [List.getElem?_cons_zero, Option.some.injEq] at hfirst
    subst hfirst
    simp [partitionOutcome, scannedControl, hrest]

/-- The outcomes of `n` partitions, of which those that are `done` have completed. -/
structure OutcomesOf (control : Option CacheControl) (n : Nat) (done : Nat → Prop)
    (outcomes : List (Option Outcome)) : Prop where
  length : outcomes.length = n
  known : ∀ p < n, (done p → outcomes[p]? = some (some (partitionOutcome control p))) ∧
    (¬ done p → outcomes[p]? = some none)

section
variable {n : Nat} {done : Nat → Prop} {outcomes : List (Option Outcome)}

theorem OutcomesOf.set (h : OutcomesOf control n done outcomes) {p : Nat} (hp : p < n) :
    OutcomesOf control n (fun q => done q ∨ p = q) (outcomes.set p (some (partitionOutcome control p))) where
  length := by rw [List.length_set, h.length]
  known q hq := by
    rw [List.getElem?_set]
    by_cases hpq : p = q
    · subst hpq
      rw [if_pos rfl, if_pos (by rw [h.length]; exact hp)]
      exact ⟨fun _ => rfl, fun hnot => absurd (Or.inr rfl) hnot⟩
    · rw [if_neg hpq]
      exact ⟨fun hd => (h.known q hq).1 (hd.resolve_right hpq), fun hd => (h.known q hq).2 fun hq => hd (Or.inl hq)⟩

theorem OutcomesOf.exists_open (h : OutcomesOf control n done outcomes) (hany : outcomes.any Option.isNone = true) :
    ∃ p < n, ¬ done p := by
  obtain ⟨x, hx, hxnone⟩ := List.any_eq_true.1 hany
  obtain ⟨p, hxp⟩ := List.mem_iff_getElem?.1 hx
  have hlt : p < n := by
    rw [← h.length]
    exact (List.getElem?_eq_some_iff.1 hxp).1
  refine ⟨p, hlt, ?_⟩
  intro hd
  rw [(h.known p hlt).1 hd] at hxp
  cases hxp
  cases hxnone

theorem OutcomesOf.all_done (h : OutcomesOf control n done outcomes) (hany : outcomes.any Option.isNone = false) :
    ∀ p < n, done p := by
  intro p hlt
  apply Classical.byContradiction
  intro hnot
  have hopen := List.any_eq_false.1 hany _ (List.mem_of_getElem? ((h.known p hlt).2 hnot))
  exact hopen rfl

theorem OutcomesOf.controls (h : OutcomesOf control n done outcomes) (hpos : 0 < n) (hall : ∀ p < n, done p) :
    outcomes.filterMap scannedControl = [control] := by
  apply scannedControls_eq
  · rintro rfl
    exact absurd h.length (by simp only [List.length_nil]; omega)
  · intro p hlt
    rw [h.length] at hlt
    exact (h.known p hlt).1 (hall p hlt)

end

/-- The last completion of a result that is not admitted: the memory entry goes, the flight is given up. -/
theorem complete_refuses {s : Capture B} {p : Nat} {o : Outcome} {env : Publication} (hunfinished : s.finished = false)
    (hp : p < s.partitions.length) (hfirst : s.outcomes[p]? = some none)
    (hall : (s.outcomes.set p (some o)).any Option.isNone = false)
    (hcontrols : (s.outcomes.set p (some o)).filterMap scannedControl = [control]) (hrefuses : scan.Refuses control env) :
    ∃ s' reason, Capture.complete scan.captureConfig s p o env = s' ∧ s'.aborted = true ∧ s'.committed = s.committed ∧
      s'.dropped = s.dropped ∧ s'.partitions.length = s.partitions.length ∧
      s'.log = s.log ++ .removeMemory :: s.flightAborts reason := by
  have hguard : ¬ (s.finished = true ∨ s.partitions.length ≤ p) := by
    rintro (h | h)
    · rw [hunfinished] at h
      cases h
    · omega
  simp only [Capture.complete, Bool.or_eq_true, decide_eq_true_eq, if_neg hguard, hfirst, hall,
    Bool.false_eq_true, if_false, completedScanCacheControl, hcontrols]
  cases control with
  | none => exact ⟨_, _, rfl, rfl, rfl, rfl, by simp [Capture.refuseCompleted, Capture.cleared], rfl⟩
  | some c =>
    obtain ⟨reason, hreason⟩ := hrefuses c rfl
    have hreason' : env.freshness (scanCacheStorageControl c scan.captureConfig.durableRevalidation) = .error reason :=
      hreason
    simp only [List.any_nil, Bool.false_eq_true, if_false, Capture.publish, hreason']
    exact ⟨_, _, rfl, rfl, rfl, rfl, rfl, rfl⟩

/-- The calls before a completion touch neither the log nor the outcomes. -/
theorem captureStep_pushes (cfg : CaptureConfig B) {s : Capture B} {op : CaptureOp B} (hlive : s.dropped = false)
    (hop : (∃ p d, op = .start p d) ∨ ∃ p b d m, op = .pushBatch p b d m) :
    (captureStep cfg s op).log = s.log ∧ (captureStep cfg s op).outcomes = s.outcomes ∧
      (captureStep cfg s op).aborted = s.aborted ∧ (captureStep cfg s op).committed = s.committed ∧
      (captureStep cfg s op).dropped = false ∧ (captureStep cfg s op).partitions.length = s.partitions.length := by
  rcases hop with ⟨p, d, rfl⟩ | ⟨p, b, d, m, rfl⟩
  · simp only [captureStep, hlive, Bool.false_eq_true, if_false, Capture.start]
    split <;> exact ⟨rfl, rfl, rfl, rfl, by simp [hlive], rfl⟩
  · simp only [captureStep, hlive, Bool.false_eq_true, if_false, Capture.pushBatch]
    split
    · exact ⟨rfl, rfl, rfl, rfl, hlive, rfl⟩
    · split
      · exact ⟨rfl, rfl, rfl, rfl, by simp, rfl⟩
      · split
        · exact ⟨rfl, rfl, rfl, rfl, by simp, by simp [Capture.cleared]⟩
        · exact ⟨rfl, rfl, rfl, rfl, by simp, by simp⟩

/-- What the effects of an aborted flight do to the tiers: nothing. -/
theorem publish_flightAborts (stores : TierStores B) (t : Tiers) (s : Capture B) (reason : String) :
    (s.flightAborts reason).foldl (Tiers.publish stores) t = t := by
  unfold Capture.flightAborts
  cases s.flight <;> rfl

/-- Partition `p` has completed its capture. -/
def Done (pre : List (ScanEvent B)) (p : Nat) : Prop :=
  ∃ e ∈ pre, e.partition = p ∧ e.effect.completion.isSome = true

theorem done_concat {pre : List (ScanEvent B)} {e : ScanEvent B} {p : Nat} :
    Done (pre ++ [e]) p ↔ Done pre p ∨ (e.partition = p ∧ e.effect.completion.isSome = true) := by
  simp [Done, or_and_right, exists_or]

theorem done_concat_of_none {pre : List (ScanEvent B)} {e : ScanEvent B} (h : e.effect.completion = none) (p : Nat) :
    Done (pre ++ [e]) p ↔ Done pre p := by
  simp [done_concat, h]

/-- The scan after the events `pre`, started with the tiers `t`. -/
structure Progress (scan : PlainScan B R) (envs : Nat → JobEnv B) (control : Option CacheControl) (t : Tiers)
    (pre : List (ScanEvent B)) (s : ScanState B) : Prop where
  durable : s.tiers.durable = t.durable
  dropped : s.capture.dropped = false
  committed : s.capture.committed = false
  partitions : s.capture.partitions.length = scan.partitions
  outcomes : s.capture.aborted = false → s.capture.outcomes.length = scan.partitions ∧ ∀ p < scan.partitions,
    (Done pre p → s.capture.outcomes[p]? = some (some (partitionOutcome control p))) ∧
      (¬ Done pre p → s.capture.outcomes[p]? = some none)
  unfinished : s.capture.aborted = false → s.tiers.memory = t.memory ∧ ∃ p < scan.partitions, ¬ Done pre p
  refused : s.capture.aborted = true → (s.tiers.memory = none ∧ ∀ p < scan.partitions, Done pre p) ∨
    (s.tiers.memory = t.memory ∧ ∃ p < scan.partitions, ∃ error, (envs p).prepared = .error error)

section
variable {stores : TierStores B} {remaining : Nat} {t : Tiers} {pre : List (ScanEvent B)} {s : ScanState B} {e : ScanEvent B}

/-- An event that gives no new outcome and leaves the capture's log alone. -/
theorem Progress.quiet (h : Progress scan envs control t pre s) {s' : ScanState B} (htiers : s'.tiers = s.tiers)
    (houtcomes : s'.capture.outcomes = s.capture.outcomes) (haborted : s'.capture.aborted = s.capture.aborted)
    (hcommitted : s'.capture.committed = s.capture.committed) (hdropped : s'.capture.dropped = false)
    (hpartitions : s'.capture.partitions.length = s.capture.partitions.length)
    (hdone : ∀ p, Done (pre ++ [e]) p ↔ Done pre p) :
    Progress scan envs control t (pre ++ [e]) s' where
  durable := by rw [htiers]; exact h.durable
  dropped := hdropped
  committed := by rw [hcommitted]; exact h.committed
  partitions := by rw [hpartitions]; exact h.partitions
  outcomes hlive := by
    simp only [hdone, houtcomes]
    exact h.outcomes (haborted ▸ hlive)
  unfinished hlive := by
    simp only [hdone, htiers]
    exact h.unfinished (haborted ▸ hlive)
  refused hfinished := by
    simp only [hdone, htiers]
    exact h.refused (haborted ▸ hfinished)

/-- A failed partition gives the capture up; the memory entry stays. -/
theorem Progress.abort (h : Progress scan envs control t pre s) {reason : String} (hp : e.partition < scan.partitions)
    (heffect : e.effect = .capture (.abort reason)) (hfailed : ∃ error, (envs e.partition).prepared = .error error) :
    Progress scan envs control t (pre ++ [e]) (scan.step stores envs remaining s e) := by
  have hnone : e.effect.completion = none := by rw [heffect]; rfl
  by_cases hfinished : s.capture.finished = true
  · have hsame : scan.step stores envs remaining s e = s := by
      simp [PlainScan.step, heffect, CaptureCall.op, captureStep, h.dropped, Capture.abort, hfinished]
    rw [hsame]
    exact h.quiet rfl rfl rfl rfl h.dropped rfl (done_concat_of_none hnone)
  · have hlive : s.capture.aborted = false := by
      rw [Capture.finished, h.committed, Bool.or_false] at hfinished
      simpa using hfinished
    have hstep : scan.step stores envs remaining s e = ⟨s.capture.abort reason, s.tiers⟩ := by
      simp [PlainScan.step, heffect, CaptureCall.op, captureStep, h.dropped, Capture.abort, hfinished,
        publish_flightAborts]
    rw [hstep]
    refine ⟨h.durable, ?_, ?_, ?_, ?_, ?_, ?_⟩
    · simp [Capture.abort, hfinished, h.dropped]
    · simp [Capture.abort, hfinished, h.committed]
    · simp [Capture.abort, hfinished, Capture.cleared, h.partitions]
    · intro haborted
      simp [Capture.abort, hfinished] at haborted
    · intro haborted
      simp [Capture.abort, hfinished] at haborted
    · intro _
      exact Or.inr ⟨(h.unfinished hlive).1, e.partition, hp, hfailed⟩

theorem step_completion {o : Outcome} (hdropped : s.capture.dropped = false) (hcompletes : e.effect.completion = some o) :
    scan.step stores envs remaining s e =
      ⟨Capture.complete scan.captureConfig s.capture e.partition o e.answers.publication,
        ((Capture.complete scan.captureConfig s.capture e.partition o e.answers.publication).log.drop
          s.capture.log.length).foldl (Tiers.publish stores) s.tiers⟩ := by
  cases heffect : e.effect with
  | capture call =>
    cases call with
    | noWork =>
      rw [heffect] at hcompletes
      cases hcompletes
      simp [PlainScan.step, heffect, CaptureCall.op, captureStep, hdropped]
    | scanned c =>
      rw [heffect] at hcompletes
      cases hcompletes
      simp [PlainScan.step, heffect, CaptureCall.op, captureStep, hdropped]
    | _ => rw [heffect] at hcompletes; cases hcompletes
  | _ => rw [heffect] at hcompletes; cases hcompletes

/-- A completion that the capture ignores: it is finished, or the partition has completed. -/
theorem Progress.complete_ignored (h : Progress scan envs control t pre s) {o : Outcome}
    (hcompletes : e.effect.completion = some o) (hignored : s.capture.aborted = true ∨ Done pre e.partition) :
    Progress scan envs control t (pre ++ [e]) s := by
  have hdone : ∀ p, Done (pre ++ [e]) p ↔ Done pre p ∨ e.partition = p := by
    intro p
    simp [done_concat, hcompletes]
  by_cases hbefore : Done pre e.partition
  · refine h.quiet rfl rfl rfl rfl h.dropped rfl ?_
    intro p
    rw [hdone]
    exact ⟨fun hd => hd.elim id fun heq => heq ▸ hbefore, Or.inl⟩
  · have haborted := hignored.resolve_right hbefore
    refine ⟨h.durable, h.dropped, h.committed, h.partitions, ?_, ?_, ?_⟩
    · intro hlive
      rw [haborted] at hlive
      cases hlive
    · intro hlive
      rw [haborted] at hlive
      cases hlive
    · intro _
      rcases h.refused haborted with ⟨hmemory, hall⟩ | hfailed
      · exact Or.inl ⟨hmemory, fun p hlt => (hdone p).2 (Or.inl (hall p hlt))⟩
      · exact Or.inr hfailed

/-- An outcome arrives; the last one has the result refused and the memory entry removed. -/
theorem Progress.complete (h : Progress scan envs control t pre s) {o : Outcome} (hp : e.partition < scan.partitions)
    (hcompletes : e.effect.completion = some o) (ho : o = partitionOutcome control e.partition)
    (hrefuses : scan.Refuses control e.answers.publication) :
    Progress scan envs control t (pre ++ [e]) (scan.step stores envs remaining s e) := by
  have hdone : Done (pre ++ [e]) = fun p => Done pre p ∨ e.partition = p := by
    funext p
    simp [done_concat, hcompletes]
  rw [step_completion h.dropped hcompletes]
  by_cases hfinished : s.capture.finished = true
  · have hsame : Capture.complete scan.captureConfig s.capture e.partition o e.answers.publication = s.capture := by
      simp [Capture.complete, hfinished]
    have haborted : s.capture.aborted = true := by
      simpa [Capture.finished, h.committed] using hfinished
    rw [hsame, List.drop_length, List.foldl_nil]
    exact h.complete_ignored hcompletes (Or.inl haborted)
  rw [Bool.not_eq_true] at hfinished
  have hlive : s.capture.aborted = false := by
    simpa [Capture.finished, h.committed] using hfinished
  obtain ⟨hlength, hknown⟩ := h.outcomes hlive
  have houtcomes : OutcomesOf control scan.partitions (Done pre) s.capture.outcomes := ⟨hlength, hknown⟩
  by_cases hbefore : Done pre e.partition
  · have hsame : Capture.complete scan.captureConfig s.capture e.partition o e.answers.publication = s.capture := by
      simp [Capture.complete, hfinished, (houtcomes.known _ hp).1 hbefore]
    rw [hsame, List.drop_length, List.foldl_nil]
    exact h.complete_ignored hcompletes (Or.inr hbefore)
  have hfirst := (houtcomes.known _ hp).2 hbefore
  have hpartition : e.partition < s.capture.partitions.length := by rw [h.partitions]; exact hp
  have hset : OutcomesOf control scan.partitions (Done (pre ++ [e])) (s.capture.outcomes.set e.partition (some o)) := by
    rw [ho, hdone]
    exact houtcomes.set hp
  cases hany : (s.capture.outcomes.set e.partition (some o)).any Option.isNone with
  | true =>
    have hguard : ¬ (s.capture.finished = true ∨ s.capture.partitions.length ≤ e.partition) := by
      rintro (hbad | hbad)
      · rw [hfinished] at hbad
        cases hbad
      · omega
    have hwaits : Capture.complete scan.captureConfig s.capture e.partition o e.answers.publication =
        { s.capture with outcomes := s.capture.outcomes.set e.partition (some o) } := by
      simp only [Capture.complete, Bool.or_eq_true, decide_eq_true_eq, if_neg hguard, hfirst, hany, if_true]
    rw [hwaits, List.drop_length, List.foldl_nil]
    refine ⟨h.durable, h.dropped, h.committed, h.partitions, ?_, ?_, ?_⟩
    · intro _
      exact ⟨hset.length, hset.known⟩
    · intro _
      exact ⟨(h.unfinished hlive).1, hset.exists_open hany⟩
    · intro haborted
      rw [hlive] at haborted
      cases haborted
  | false =>
    have hall := hset.all_done hany
    obtain ⟨s', reason, hcomplete, haborted, hcommitted, hdropped, hpartitions, hlog⟩ :=
      complete_refuses (o := o) hfinished hpartition hfirst hany (hset.controls (by omega) hall) hrefuses
    rw [hcomplete, hlog, List.drop_left, List.foldl_cons, publish_flightAborts]
    refine ⟨h.durable, hdropped.trans h.dropped, hcommitted.trans h.committed, hpartitions.trans h.partitions, ?_, ?_, ?_⟩
    · intro hbad
      rw [haborted] at hbad
      cases hbad
    · intro hbad
      rw [haborted] at hbad
      cases hbad
    · intro _
      exact Or.inl ⟨rfl, hall⟩

theorem Progress.step (h : Progress scan envs control t pre s) (hp : e.partition < scan.partitions)
    (hexpected : Expected envs control e.partition e.effect) (hrefuses : scan.Refuses control e.answers.publication) :
    Progress scan envs control t (pre ++ [e]) (scan.step stores envs remaining s e) := by
  cases heffect : e.effect with
  | capture call =>
    rw [heffect] at hexpected
    cases call with
    | start =>
      obtain ⟨hlog, houtcomes, haborted, hcommitted, hdropped, hpartitions⟩ :=
        captureStep_pushes scan.captureConfig h.dropped (Or.inl ⟨e.partition, e.answers.diskAccepts, rfl⟩)
      refine h.quiet ?_ ?_ ?_ ?_ ?_ ?_ (done_concat_of_none (by rw [heffect]; rfl))
      all_goals simp [PlainScan.step, CaptureCall.op, *]
    | pushBatch batch =>
      obtain ⟨hlog, houtcomes, haborted, hcommitted, hdropped, hpartitions⟩ :=
        captureStep_pushes scan.captureConfig h.dropped
          (Or.inr ⟨e.partition, batch, e.answers.diskAccepts, e.answers.maxEntryBytes, rfl⟩)
      refine h.quiet ?_ ?_ ?_ ?_ ?_ ?_ (done_concat_of_none (by rw [heffect]; rfl))
      all_goals simp [PlainScan.step, CaptureCall.op, *]
    | noWork => exact h.complete hp (by rw [heffect]; rfl) (hexpected.completion rfl) hrefuses
    | scanned c => exact h.complete hp (by rw [heffect]; rfl) (hexpected.completion rfl) hrefuses
    | revalidated => exact absurd hexpected id
    | abort reason => exact h.abort hp heffect hexpected
  | scan tokens conditions | send batch | sendError message =>
    refine h.quiet ?_ ?_ ?_ ?_ ?_ ?_ (done_concat_of_none (by rw [heffect]; rfl))
    all_goals simp [PlainScan.step, heffect, Tiers.apply, h.dropped]
  | removeMemory | removeHit _ | slideMemory _ | revalidateHit _ _ | replay =>
    rw [heffect] at hexpected
    exact absurd hexpected id

theorem Progress.run {events : List (ScanEvent B)} (hevents : ∀ e ∈ events, e.partition < scan.partitions ∧
      Expected envs control e.partition e.effect ∧ scan.Refuses control e.answers.publication) :
    ∀ (post pre : List (ScanEvent B)) (s : ScanState B), events = pre ++ post →
      Progress scan envs control t pre s →
      Progress scan envs control t events (post.foldl (scan.step stores envs remaining) s) := by
  intro post
  induction post with
  | nil =>
    intro pre s heq h
    rw [heq, List.append_nil]
    exact h
  | cons e post ih =>
    intro pre s heq h
    obtain ⟨hp, hexpected, hrefuses⟩ := hevents e (by simp [heq])
    rw [List.foldl_cons]
    exact ih (pre ++ [e]) _ (by simp [heq]) (h.step hp hexpected hrefuses)

theorem Progress.init (flight : Option Nat) (hpartitions : 0 < scan.partitions) :
    Progress scan envs control t [] (scan.initial flight t) := by
  have hnew : Progress scan envs control t [] ⟨Capture.new scan.captureConfig, t⟩ := by
    refine ⟨rfl, rfl, rfl, by simp [Capture.new, PlainScan.captureConfig], ?_, ?_, ?_⟩
    · intro _
      refine ⟨by simp [Capture.new, PlainScan.captureConfig], ?_⟩
      intro p hp
      simp [Done, Capture.new, PlainScan.captureConfig, hp]
    · intro _
      exact ⟨rfl, 0, hpartitions, by simp [Done]⟩
    · intro haborted
      cases haborted
  cases flight with
  | none => exact hnew
  | some f => exact ⟨rfl, rfl, rfl, hnew.partitions, hnew.outcomes, hnew.unfinished, hnew.refused⟩

variable (stores remaining t) in
/-- What the tiers hold after the scan. -/
theorem finish_tiers {events : List (ScanEvent B)} (flight : Option Nat) (hpartitions : 0 < scan.partitions)
    (hruns : scan.Runs envs events) (hfresh : scan.FreshAnswer envs control)
    (hrefuses : ∀ e ∈ events, scan.Refuses control e.answers.publication) :
    (scan.finish stores envs remaining flight t events).tiers.durable = t.durable ∧
      ((∀ p < scan.partitions, (envs p).prepared = .ok ()) →
        (scan.finish stores envs remaining flight t events).tiers.memory = none) ∧
      ((∃ p < scan.partitions, ∃ error, (envs p).prepared = .error error) →
        (scan.finish stores envs remaining flight t events).tiers.memory = t.memory) := by
  have hmem : ∀ e ∈ events, e.effect ∈ (job (scan.config e.partition) (envs e.partition)).trace := by
    intro e he
    rw [← hruns.jobs e.partition (hruns.partition_lt e he)]
    exact List.mem_map_of_mem (List.mem_filter.2 ⟨he, by simp⟩)
  have hdone : ∀ p < scan.partitions, Done events p ↔ (envs p).prepared = .ok () := by
    intro p hp
    obtain ⟨-, hcompletes, hfails⟩ := job_effects hfresh p
    constructor
    · rintro ⟨e, he, rfl, hsome⟩
      cases hprepared : (envs e.partition).prepared with
      | ok _ => rfl
      | error error =>
        rw [hfails ⟨error, hprepared⟩ e.effect (hmem e he)] at hsome
        cases hsome
    · intro hprepared
      obtain ⟨effect, heffect, hsome⟩ := hcompletes hprepared
      rw [← hruns.jobs p hp, List.mem_map] at heffect
      obtain ⟨e, he, rfl⟩ := heffect
      obtain ⟨he, hep⟩ := List.mem_filter.1 he
      exact ⟨e, he, by simpa using hep, hsome⟩
  have h : Progress scan envs control t events (scan.finish stores envs remaining flight t events) :=
    Progress.run (fun e he => ⟨hruns.partition_lt e he, (job_effects hfresh e.partition).1 e.effect (hmem e he),
      hrefuses e he⟩) events [] _ rfl (Progress.init flight hpartitions)
  refine ⟨h.durable, ?_, ?_⟩
  · intro hprepared
    cases haborted : (scan.finish stores envs remaining flight t events).capture.aborted with
    | false =>
      obtain ⟨-, p, hp, hnot⟩ := h.unfinished haborted
      exact absurd ((hdone p hp).2 (hprepared p hp)) hnot
    | true =>
      rcases h.refused haborted with ⟨hmemory, -⟩ | ⟨-, p, hp, error, herror⟩
      · exact hmemory
      · rw [hprepared p hp] at herror
        cases herror
  · rintro ⟨p, hp, error, herror⟩
    cases haborted : (scan.finish stores envs remaining flight t events).capture.aborted with
    | false => exact (h.unfinished haborted).1
    | true =>
      rcases h.refused haborted with ⟨-, hall⟩ | ⟨hmemory, -⟩
      · rw [(hdone p hp).1 (hall p hp)] at herror
        cases herror
      · exact hmemory

end

end

/-- **When a revoked result is gone.** Partition 0 read a complete fresh answer with an inadmissible
control. Nothing selected for the request is left exactly when every partition of the scan completed
(or the memory entry was gone before) and no selected durable generation was still on disk. -/
theorem revoked_iff (scan : PlainScan B R) (stores : TierStores B) (envs : Nat → JobEnv B) (remaining : Nat)
    (flight : Option Nat) (t : Tiers) (events : List (ScanEvent B)) (control : Option CacheControl)
    (hpartitions : 0 < scan.partitions) (hruns : scan.Runs envs events) (hfresh : scan.FreshAnswer envs control)
    (hrefuses : ∀ e ∈ events, scan.Refuses control e.answers.publication) :
    scan.Revoked (scan.finish stores envs remaining flight t events).tiers ↔
      (t.memory = none ∨ ∀ p < scan.partitions, (envs p).prepared = .ok ()) ∧
        ∀ hit ∈ scan.entry.hits, t.durable hit.generation = none := by
  obtain ⟨hdurable, hcompleted, hfailed⟩ :=
    finish_tiers stores remaining t flight hpartitions hruns hfresh hrefuses
  unfold PlainScan.Revoked
  rw [hdurable]
  refine and_congr_left fun _ => ?_
  by_cases hall : ∀ p < scan.partitions, (envs p).prepared = .ok ()
  · exact iff_of_true (hcompleted hall) (Or.inr hall)
  · have hexists : ∃ p < scan.partitions, ∃ error, (envs p).prepared = .error error := by
      apply Classical.byContradiction
      intro hnone
      apply hall
      intro p hp
      cases hprepared : (envs p).prepared with
      | ok _ => rfl
      | error error => exact absurd ⟨p, hp, error, hprepared⟩ hnone
    rw [hfailed hexists]
    exact (or_iff_left hall).symm

/-! ## One partition -/

/-- The job of a scan with one partition, nothing interleaved. -/
def soleEvents (scan : PlainScan B R) (env : JobEnv B) (answers : CaptureAnswers) : List (ScanEvent B) :=
  (job (scan.config 0) env).trace.map fun effect => ⟨0, effect, answers⟩

theorem soleEvents_runs {scan : PlainScan B R} (hone : scan.partitions = 1) (env : JobEnv B) (answers : CaptureAnswers) :
    scan.Runs (fun _ => env) (soleEvents scan env answers) := by
  constructor
  · intro e he
    obtain ⟨effect, -, rfl⟩ := List.mem_map.1 he
    show 0 < scan.partitions
    omega
  · intro p hp
    obtain rfl : p = 0 := by omega
    simp [soleEvents, List.filter_map, Function.comp_def]

/-- A stale result of one partition. -/
def staleScan (entry : Revalidation (List Nat)) : PlainScan (List Nat) Nat where
  function := "events"
  ops := integerBatches
  entry := entry
  limit := none
  background := false
  partitions := 1
  durable := true
  durableRevalidation := true
  bytes := fun batch => 8 * batch.length

/-- The worker sends a row and no longer opts into caching. -/
def withdrawing : JobEnv (List Nat) :=
  { answering (fun _ => modified) with scan := fun _ => .ok { batches := [[11]], control := none }, durable := true }

/-- The tiers as they store a result of one generation. -/
def plainStores : TierStores (List Nat) where
  insert entry t := { t with memory := some ⟨(entry.batches.map fun batch => 8 * batch.length).sum, entry.ttl, entry.control⟩ }
  commit batches control t :=
    t.mapDurable 8 fun _ => some ⟨(batches.map fun batch => 8 * batch.2.length).sum, 60, control⟩
  reap t := t

def publishing : CaptureAnswers where
  diskAccepts := true
  maxEntryBytes := 1024
  publication := ⟨fun _ => .error "NotOptedIn", .stored, ⟨16, 1024, 4096⟩⟩

theorem withdrawing_fresh (entry : Revalidation (List Nat)) :
    (staleScan entry).FreshAnswer (fun _ => withdrawing) none :=
  ⟨rfl, ⟨_, _, _, rfl, rfl, rfl, rfl, rfl, rfl⟩⟩

theorem refuses_none (scan : PlainScan B R) (env : Publication) : scan.Refuses none env := by
  intro c hc
  cases hc

/-- Only in memory: the entry goes. -/
theorem revoked_iff_memory :
    (staleScan (.memory { batches := [[10]], bytes := 8, etag := some "v1" } none)).Revoked
      ((staleScan (.memory { batches := [[10]], bytes := 8, etag := some "v1" } none)).finish plainStores
        (fun _ => withdrawing) 60 none expired
        (soleEvents (staleScan (.memory { batches := [[10]], bytes := 8, etag := some "v1" } none)) withdrawing publishing)).tiers :=
  (revoked_iff (staleScan (.memory { batches := [[10]], bytes := 8, etag := some "v1" } none)) plainStores
    (fun _ => withdrawing) 60 none expired _ none Nat.zero_lt_one (soleEvents_runs rfl withdrawing publishing)
    (withdrawing_fresh _) (fun _ _ => refuses_none _ _)).2 ⟨Or.inr fun _ _ => rfl, by simp [staleScan, Revalidation.hits]⟩

/-- On disk: the generation that the conditions were taken from is still there after the scan. -/
theorem durable_generation_survives :
    ∃ (scan : PlainScan (List Nat) Nat) (hit : DiskHit (List Nat)) (events : List (ScanEvent (List Nat))),
      scan.entry = .disk hit ∧ scan.Runs (fun _ => withdrawing) events ∧
        scan.FreshAnswer (fun _ => withdrawing) none ∧ (∀ e ∈ events, scan.Refuses none e.answers.publication) ∧
        ((scan.finish plainStores (fun _ => withdrawing) 60 none expired events).tiers.durable hit.generation).isSome = true ∧
        ¬ scan.Revoked (scan.finish plainStores (fun _ => withdrawing) 60 none expired events).tiers := by
  let hit : DiskHit (List Nat) := { generation := 7, etag := some "v1", partitions := [.ok [.ok [10]]] }
  refine ⟨staleScan (.disk hit), hit, soleEvents (staleScan (.disk hit)) withdrawing publishing, rfl,
    soleEvents_runs rfl withdrawing publishing, withdrawing_fresh _, fun _ _ => refuses_none _ _, rfl, ?_⟩
  rintro ⟨-, hgone⟩
  exact absurd (hgone hit (by simp [staleScan, Revalidation.hits])) (by decide)

end VgiDatafusion
