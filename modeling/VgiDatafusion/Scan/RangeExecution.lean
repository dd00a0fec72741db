import VgiDatafusion.Cache.Delivery
import VgiDatafusion.Cache.Validation
import VgiDatafusion.Scan.KeyCollisions
import VgiDatafusion.Scan.RangePartitioning

/-!
# Executing a range partitioned scan (lib.rs:1757-1794, 2694-3072, 4687-5768)

| here | there |
| --- | --- |
| `planSplits` | what `plan_splits` makes of the worker's plan; nothing where `pack_splits` panics |
| `VgiScanExec` | `VgiScanExec`, the fields its executions read |
| `planPartitioning`, `VgiScanExec.new` | `VgiScanExec::new`, called by `scan` with the partitions counted there (lib.rs:2137-2146) |
| `Rewrite` | `with_order_by`, `with_dynamic_filters` and `with_dynamic_profile`, after which a plan is executed in place of the first |
| `VgiScanExec.step` | `execute` and the stream it returns: with a cache key those of `Cache/Delivery.lean`, else the job at once |

A plan with range metadata never has a cache key (`new_uncached`), and no rewrite gives it one. Without a key there is no
lookup, no flight and no entry to validate, so a partition can only scan, once and unconditionally, the tokens of its own
group (`Redeems`). `range_partitioning_delivered` puts this together with what exposing the ranges says of the plan.
-/
namespace VgiDatafusion.Packing

open Traced

variable {B R V W Location Identity Arguments : Type}

/-! ## The plan -/

structure PlanAnswer (V : Type) extends ScanPlan V where
  estimatedTotalRows : Option Int
  estimatedTotalBytes : Option Int

/-- One split that carries nothing is the answer of a worker that never opted in. -/
def neverOptedIn (plan : ScanPlan V) : Bool :=
  match plan.splits with
  | [split] => split.token.isEmpty && split.estimatedRows.isNone && split.estimatedBytes.isNone
  | _ => false

/-- The plan's own estimate where the splits give no total. -/
def orEstimate (total : Precision) (estimate : Option Int) : Precision :=
  match total, estimate.bind usizeOf with
  | .absent, some n => .inexact n
  | total, _ => total

/-- What `VgiTableProvider::plan_splits` (`lib.rs:1576-1792`) makes of the worker's answer. -/
def planSplits (reader : BatchReader V) (arithmetic : Arithmetic) (answer : Option (PlanAnswer V)) (targetPartitions : Nat) :
    Option (Option (PlannedSplits V)) :=
  match answer with
  | none => some none
  | some answer =>
    if neverOptedIn answer.toScanPlan then some none
    else (packSplits reader arithmetic answer.toScanPlan (max targetPartitions 1)).map fun planned =>
      some { planned with
        numRows := orEstimate planned.numRows answer.estimatedTotalRows
        totalByteSize := orEstimate planned.totalByteSize answer.estimatedTotalBytes }

theorem packSplits_plan {reader : BatchReader V} {arithmetic : Arithmetic} {plan : ScanPlan V} {targetPartitions : Nat}
    {packed : PlannedSplits V} (h : packSplits reader arithmetic plan targetPartitions = some packed) : packed.plan = plan := by
  unfold packSplits at h
  split at h
  · cases h
    rfl
  · split at h
    · cases h
      rfl
    · obtain ⟨bins, -, rfl⟩ := Option.map_eq_some_iff.1 h
      rfl

theorem orEstimate_exact {total : Precision} {estimate : Option Int} {n : Nat} (h : orEstimate total estimate = .exact n) :
    total = .exact n := by
  unfold orEstimate at h
  split at h
  · cases h
  · exact h

/-- The plan is the worker's, and its groups are those it was packed into. -/
theorem planSplits_spec {reader : BatchReader V} {arithmetic : Arithmetic} {answer : Option (PlanAnswer V)}
    {targetPartitions : Nat} {planned : PlannedSplits V}
    (h : planSplits reader arithmetic answer targetPartitions = some (some planned)) :
    ∃ a, answer = some a ∧ planned.plan = a.toScanPlan ∧ Partitions reader planned.plan (max targetPartitions 1) planned := by
  unfold planSplits at h
  cases answer with
  | none => cases h
  | some a =>
    dsimp only at h
    split at h
    · cases h
    · obtain ⟨packed, hpacked, hplanned⟩ := Option.map_eq_some_iff.1 h
      obtain rfl := Option.some.inj hplanned
      have hplan := packSplits_plan hpacked
      have hpartitions := (pack_splits_partitions reader a.toScanPlan (le_max_right targetPartitions 1)).2 arithmetic packed
        hpacked
      refine ⟨a, rfl, hplan, ?_⟩
      dsimp only
      rw [hplan]
      exact { hpartitions with plan_rows := fun n hrows => hpartitions.plan_rows n (orEstimate_exact hrows) }

/-- `VgiScanExec` (`lib.rs:2301-2366`): the fields that its executions read. -/
structure VgiScanExec (B R V : Type) where
  function : String
  ops : BatchOps B R
  limit : Option Nat
  rpcTimeout : Bool
  orderBy : Option OrderBy
  outputPartitioning : Partitioning V
  splitGroups : Option (PlannedSplits V)
  cacheKey : Option CacheKey
  /-- There is a capture. -/
  cacheCapture : Bool
  positive : 0 < outputPartitioning.partitionCount
  split : ∀ planned, splitGroups = some planned → outputPartitioning.partitionCount = max planned.groups.length 1

/-- An empty plan still gets one partition. -/
def partitions (maxWorkers : Nat) : Option (PlannedSplits V) → Nat
  | none => maxWorkers
  | some planned => max planned.groups.length 1

/-- The partitioning that `VgiScanExec::new` (`lib.rs:2757-2976`) claims. -/
def planPartitioning (S : RangeSupport V) (schema remoteBindSchema : Schema) (mapping : Option ColumnMapping)
    (maxWorkers : Nat) (splitGroups : Option (PlannedSplits V)) : Partitioning V :=
  (splitGroups.bind (splitRangePartitioning S schema remoteBindSchema mapping)).getD
    (.unknownPartitioning (max (partitions maxWorkers splitGroups) 1))

theorem planPartitioning_split (S : RangeSupport V) (schema remoteBindSchema : Schema) (mapping : Option ColumnMapping)
    (maxWorkers : Nat) (splitGroups : Option (PlannedSplits V)) (planned : PlannedSplits V) (h : splitGroups = some planned) :
    (planPartitioning S schema remoteBindSchema mapping maxWorkers splitGroups).partitionCount =
      max planned.groups.length 1 := by
  subst h
  unfold planPartitioning
  cases hrange : (some planned).bind (splitRangePartitioning S schema remoteBindSchema mapping) with
  | none =>
    simp only [Option.getD_none, Partitioning.partitionCount, partitions]
    omega
  | some partitioning =>
    obtain ⟨ordering, values, rfl, hclaimed⟩ := splitRangePartitioning_spec hrange
    have hcount := hclaimed.count
    simp only [Option.getD_some, Partitioning.partitionCount]
    omega

theorem planPartitioning_positive (S : RangeSupport V) (schema remoteBindSchema : Schema) (mapping : Option ColumnMapping)
    (maxWorkers : Nat) (splitGroups : Option (PlannedSplits V)) :
    0 < (planPartitioning S schema remoteBindSchema mapping maxWorkers splitGroups).partitionCount := by
  cases splitGroups with
  | none =>
    show 0 < max maxWorkers 1
    omega
  | some planned =>
    rw [planPartitioning_split S schema remoteBindSchema mapping maxWorkers (some planned) planned rfl]
    omega

/-- Ranges are exposed only for a plan that says them. -/
theorem planPartitioning_range {S : RangeSupport V} {schema remoteBindSchema : Schema} {mapping : Option ColumnMapping}
    {maxWorkers : Nat} {splitGroups : Option (PlannedSplits V)} {ordering : List PhysicalSortExpr}
    {values : List (List (ScalarValue V))}
    (h : planPartitioning S schema remoteBindSchema mapping maxWorkers splitGroups = .range ordering values) :
    ∃ planned, splitGroups = some planned ∧ RangeClaimed S schema remoteBindSchema mapping planned ordering values := by
  unfold planPartitioning at h
  cases hrange : splitGroups.bind (splitRangePartitioning S schema remoteBindSchema mapping) with
  | none =>
    rw [hrange] at h
    cases h
  | some partitioning =>
    obtain ⟨planned, hplanned, hpartitioning⟩ := Option.bind_eq_some_iff.1 hrange
    obtain ⟨ordering', values', rfl, hclaimed⟩ := splitRangePartitioning_spec hpartitioning
    rw [hrange] at h
    cases h
    exact ⟨planned, hplanned, hclaimed⟩

/-- The scan as its key sees it. -/
def withSplits (x : Scan Location Identity Arguments) (splitGroups : Option (PlannedSplits V)) :
    Scan Location Identity Arguments :=
  { x with
    unbounded := splitGroups.any (·.unbounded)
    rangePartitioned := splitGroups.any (·.plan.rangePartitioning.isSome) }

/-- A copy of the plan that is executed in its place. -/
inductive Rewrite
  | orderBy (orderBy : OrderBy)
  | dynamicFilters
  | dynamicProfile

namespace VgiScanExec

/-- `VgiScanExec::new` (`lib.rs:2757-2976`). -/
def new (S : RangeSupport V) (C : Client Location Identity Arguments) (rt : Runtime Location Identity W)
    (x : Scan Location Identity Arguments) (ops : BatchOps B R) (rpcTimeout : Bool) (schema remoteBindSchema : Schema)
    (mapping : Option ColumnMapping) (maxWorkers : Nat) (splitGroups : Option (PlannedSplits V)) : VgiScanExec B R V where
  function := x.function
  ops := ops
  limit := x.limit.map (·.toNat)
  rpcTimeout := rpcTimeout
  orderBy := x.orderBy
  outputPartitioning := planPartitioning S schema remoteBindSchema mapping maxWorkers splitGroups
  splitGroups := splitGroups
  cacheKey := ((withSplits x splitGroups).cacheKey C rt).toOption
  cacheCapture := ((withSplits x splitGroups).cacheKey C rt).toOption.isSome
  positive := planPartitioning_positive S schema remoteBindSchema mapping maxWorkers splitGroups
  split := planPartitioning_split S schema remoteBindSchema mapping maxWorkers splitGroups

/-- A rewrite may confirm the planned order, never change it. -/
def rewrite (exec : VgiScanExec B R V) : Rewrite → Option (VgiScanExec B R V)
  | .orderBy order =>
    if exec.orderBy.map encodeOrderBy ≠ some (encodeOrderBy order) then none
    else some { exec with orderBy := some order, cacheCapture := exec.cacheKey.isSome }
  | .dynamicFilters => some { exec with cacheKey := none, cacheCapture := false }
  | .dynamicProfile => some exec

/-! ## Executions -/

variable (exec : VgiScanExec B R V)

def groups : Option (List (List Token)) := exec.splitGroups.map fun planned => planned.groups.map (·.tokens)

/-- The tokens a partition redeems. -/
def tokens (p : Nat) : List Token := (exec.groups.getD []).getD p []

theorem partitions_of_groups (gs : List (List Token)) (h : exec.groups = some gs) :
    exec.outputPartitioning.partitionCount = max gs.length 1 := by
  obtain ⟨planned, hplanned, rfl⟩ := Option.map_eq_some_iff.1 h
  rw [exec.split planned hplanned, List.length_map]

def deliveryPlan : DeliveryPlan B R where
  function := exec.function
  ops := exec.ops
  groups := exec.groups
  limit := exec.limit
  rpcTimeout := exec.rpcTimeout
  partitions := exec.outputPartitioning.partitionCount
  positive := exec.positive
  split := exec.partitions_of_groups

def jobConfig (p : Nat) (revalidation : Option (Revalidation B)) : JobConfig B R where
  function := exec.function
  partition := p
  ops := exec.ops
  groups := exec.groups
  revalidation := revalidation
  limit := exec.limit
  captures := exec.cacheCapture
  background := false
  foreground _ := rfl

def jobOutput (p : Nat) (revalidation : Option (Revalidation B)) (env : JobEnv B) : Except String (List B) :=
  match (job (exec.jobConfig p revalidation) env).result with
  | .ok _ => .ok (sentBatches (job (exec.jobConfig p revalidation) env).trace)
  | .error error => .error error

def init : Delivery B := exec.deliveryPlan.init

/-- Without a key: the job is spawned when the stream is polled. A partition may be executed again. -/
def scanStep (s : Delivery B) : DeliveryEvent B → Option (Delivery B)
  | .execute p _ _ =>
    match s.phases[p]? with
    | some .planned | some (.done ..) => some { s with phases := s.phases.set p .starting }
    | _ => none
  | .runJob p env =>
    match s.phases[p]? with
    | some .starting =>
      some { s with phases := s.phases.set p (.done .scanned (exec.jobOutput p (s.revalidationProbe.getD none) env)) }
    | _ => none
  | _ => none

/-- `VgiScanExec::execute` (`lib.rs:4687-5769`) and the streams it returns. -/
def step (s : Delivery B) (event : DeliveryEvent B) : Option (Delivery B) :=
  if exec.cacheKey.isSome then exec.deliveryPlan.step s event else exec.scanStep s event

end VgiScanExec

/-! ## A job without a cache entry -/

/-- Some of these batches, conformed and cut at the limit. -/
def SentFrom (cfg : JobConfig B R) (batches : List B) (e : JobEffect B) : Prop :=
  ∃ batch ∈ batches, ∃ conformed emitted, cfg.ops.conform batch = .ok conformed ∧ e = .send (cut cfg emitted conformed)

/-- What a partition did for its tokens: one unconditional scan of them, whose batches it sent, or nothing. -/
structure Redeems (cfg : JobConfig B R) (env : JobEnv B) (tokens : List Token) (trace : List (JobEffect B)) : Prop where
  redeemed : redemptions trace = match env.prepared with
    | .ok _ => if tokens = [] then [] else [some tokens]
    | .error _ => []
  effects : ∀ e ∈ trace, (∃ message, e = .sendError message) ∨ (tokens ≠ [] ∧ (e = .scan (some tokens) none ∨
    ∃ stream, env.scan (some tokens) = .ok stream ∧ SentFrom cfg stream.batches e))

section
variable {cfg : JobConfig B R} {env : JobEnv B}

theorem capture_nothing (h : cfg.captures = false) (call : CaptureCall B) : capture cfg call = pure () := by
  unfold capture
  rw [h]
  rfl

theorem drain_sentFrom (h : cfg.captures = false) : ∀ (batches : List B) (emitted sent : Nat),
    ∀ e ∈ (drain cfg env emitted sent batches).trace, SentFrom cfg batches e
  | [], _, _ => by simp [drain]
  | batch :: batches, emitted, sent => by
    have hrest : ∀ emitted sent, ∀ e ∈ (drain cfg env emitted sent batches).trace, SentFrom cfg (batch :: batches) e := by
      intro emitted sent e he
      obtain ⟨b, hb, hsent⟩ := drain_sentFrom h batches emitted sent e he
      exact ⟨b, List.mem_cons_of_mem _ hb, hsent⟩
    unfold drain
    rw [if_neg (by simp [h]), lift_ok_bind]
    refine forall_bind (by simp [lift]) fun conformed hconformed => ?_
    refine forall_bind (by simp [pushCaptured]) fun _ _ => ?_
    split
    · refine forall_bind ?_ fun _ _ => ?_
      · intro e he
        rw [List.mem_singleton.1 he]
        exact ⟨batch, List.mem_cons_self, conformed, emitted, hconformed, rfl⟩
      · split
        · rw [capture_nothing h, pure_bind]
          simp
        · exact hrest _ _
    · rw [capture_nothing h, pure_bind]
      simp

theorem mayServeStale_none : mayServeStale cfg env (none : Option (Revalidation B)) = none := by
  unfold mayServeStale
  split <;> rfl

theorem runScan_effects (h : cfg.captures = false) (tokens : Option (List Token)) :
    ∀ e ∈ (runScan cfg env none tokens).trace, e = .scan tokens none ∨
      ∃ stream, env.scan tokens = .ok stream ∧ SentFrom cfg stream.batches e := by
  unfold runScan
  refine forall_bind (by simp [Traced.tell]) fun _ _ => ?_
  cases hscan : env.scan tokens with
  | error error =>
    dsimp only
    rw [mayServeStale_none]
    simp [fail]
  | ok stream =>
    refine forall_bind ?_ fun drained _ => ?_
    · intro e he
      exact .inr ⟨stream, rfl, drain_sentFrom h stream.batches 0 0 e he⟩
    · cases drained with
      | cancelled => simp
      | limited => simp
      | ended emitted sent =>
        cases hfailure : stream.failure with
        | some error =>
          dsimp only
          rw [mayServeStale_none, ite_self]
          dsimp only
          rw [capture_nothing h, pure_bind]
          simp [fail]
        | none =>
          dsimp only
          split
          · simp
          · cases stream.notModified with
            | none =>
              dsimp only
              rw [capture_nothing h]
              simp
            | some control => simp [notModified, fail]

theorem job_redeems (hcaptures : cfg.captures = false) (hrevalidation : cfg.revalidation = none) {gs : List (List Token)}
    (hgroups : cfg.groups = some gs) : Redeems cfg env (gs.getD cfg.partition []) (job cfg env).trace := by
  have hrun : run cfg env = lift env.prepared >>= fun _ => execute cfg env none (some (gs.getD cfg.partition [])) := by
    unfold run
    rw [hrevalidation, hgroups]
    rfl
  constructor
  · have hobserved : redemptions (job cfg env).trace = redemptions (run cfg env).trace := by
      unfold redemptions
      rw [observed_job]
    rw [hobserved, hrun]
    cases hprepared : env.prepared with
    | error error =>
      rw [lift_error_bind]
      rfl
    | ok value =>
      rw [lift_ok_bind]
      cases htokens : gs.getD cfg.partition [] with
      | nil =>
        dsimp only [execute]
        rw [capture_nothing hcaptures]
        rfl
      | cons token tokens => exact (runScan_views cfg env (some (token :: tokens))).2.1
  · have heffects : ∀ e ∈ (run cfg env).trace, gs.getD cfg.partition [] ≠ [] ∧
        (e = .scan (some (gs.getD cfg.partition [])) none ∨
          ∃ stream, env.scan (some (gs.getD cfg.partition [])) = .ok stream ∧ SentFrom cfg stream.batches e) := by
      rw [hrun]
      refine forall_bind (by simp [lift]) fun _ _ => ?_
      cases gs.getD cfg.partition [] with
      | nil =>
        dsimp only [execute]
        rw [capture_nothing hcaptures]
        simp
      | cons token tokens =>
        intro e he
        exact ⟨by simp, runScan_effects hcaptures _ e he⟩
    intro e he
    unfold job at he
    simp only [capture_nothing hcaptures, pure_bind] at he
    split at he
    · exact .inr (heffects e he)
    · simp only [pure_trace, List.append_nil, List.mem_append, List.mem_singleton] at he
      rcases he with he | he
      · exact .inr (heffects e he)
      · exact .inl ⟨_, he⟩

end

/-! ## Every execution -/

namespace VgiScanExec

variable {exec : VgiScanExec B R V}

/-- Nothing is ever selected, and every partition that is done ran its job. -/
structure Scanning (exec : VgiScanExec B R V) (s : Delivery B) : Prop where
  unselected : s.revalidationProbe = none
  phases : ∀ (p : Nat) phase, s.phases[p]? = some phase → phase = .planned ∨ phase = .starting ∨
    ∃ env, phase = .done .scanned (exec.jobOutput p none env)

theorem Scanning.set {s : Delivery B} (h : Scanning exec s) {p : Nat} {phase : Phase B}
    (hphase : phase = .starting ∨ ∃ env, phase = .done .scanned (exec.jobOutput p none env)) :
    Scanning exec { s with phases := s.phases.set p phase } := by
  refine ⟨h.unselected, ?_⟩
  intro q other hother
  rcases ListFacts.getElem?_set_cases hother with ⟨rfl, rfl⟩ | ⟨-, hother⟩
  · exact .inr hphase
  · exact h.phases q other hother

theorem Scanning.step {s s' : Delivery B} (hkey : exec.cacheKey = none) (h : Scanning exec s) {event : DeliveryEvent B}
    (hstep : exec.step s event = some s') : Scanning exec s' := by
  unfold VgiScanExec.step at hstep
  rw [hkey] at hstep
  cases event with
  | execute p hit stale =>
    simp only [Option.isSome_none, Bool.false_eq_true, if_false, scanStep] at hstep
    split at hstep <;> cases hstep <;> exact h.set (.inl rfl)
  | runJob p env =>
    simp only [Option.isSome_none, Bool.false_eq_true, if_false, scanStep] at hstep
    split at hstep <;> cases hstep
    refine h.set (.inr ⟨env, ?_⟩)
    rw [h.unselected]
    rfl
  | _ => cases hstep

theorem run_scanning (hkey : exec.cacheKey = none) {events : List (DeliveryEvent B)} {s : Delivery B}
    (hrun : events.foldlM exec.step exec.init = some s) : Scanning exec s := by
  have hinit : Scanning exec exec.init := by
    refine ⟨rfl, ?_⟩
    intro p phase hphase
    exact .inl (List.eq_of_mem_replicate (List.mem_of_getElem? hphase))
  exact @StepSystem.run_invariant_of_partial _ _ exec.step exec.init s (fun _ => Scanning exec) hinit
    (fun _ _ _ _ h hstep => Scanning.step hkey h hstep) events hrun

/-- Without a key a partition that is done redeemed its own tokens. -/
theorem run_redeems (hkey : exec.cacheKey = none) (hcapture : exec.cacheCapture = false) {gs : List (List Token)}
    (hgroups : exec.groups = some gs) {events : List (DeliveryEvent B)} {s : Delivery B}
    (hrun : events.foldlM exec.step exec.init = some s) {i : Nat} {phase : Phase B} (hphase : s.phases[i]? = some phase) :
    phase = .planned ∨ phase = .starting ∨ ∃ env, phase = .done .scanned (exec.jobOutput i none env) ∧
      Redeems (exec.jobConfig i none) env (exec.tokens i) (job (exec.jobConfig i none) env).trace := by
  rcases (run_scanning hkey hrun).phases i phase hphase with hidle | hidle | ⟨env, hdone⟩
  · exact .inl hidle
  · exact .inr (.inl hidle)
  · have hredeems : Redeems (exec.jobConfig i none) env (gs.getD i []) (job (exec.jobConfig i none) env).trace :=
      job_redeems hcapture rfl hgroups
    have htokens : exec.tokens i = gs.getD i [] := by rw [tokens, hgroups, Option.getD_some]
    rw [← htokens] at hredeems
    exact .inr (.inr ⟨env, hdone, hredeems⟩)

/-- Range metadata refuses the key. -/
theorem new_uncached (S : RangeSupport V) (C : Client Location Identity Arguments) (rt : Runtime Location Identity W)
    (x : Scan Location Identity Arguments) (ops : BatchOps B R) (rpcTimeout : Bool) (schema remoteBindSchema : Schema)
    (mapping : Option ColumnMapping) (maxWorkers : Nat) {planned : PlannedSplits V}
    (h : planned.plan.rangePartitioning.isSome = true) :
    (new S C rt x ops rpcTimeout schema remoteBindSchema mapping maxWorkers (some planned)).cacheKey = none := by
  have hranged : (withSplits x (some planned)).rangePartitioned = true := h
  have hreason : (withSplits x (some planned)).cacheIneligibleReason C rt ≠ none := by
    simp [Scan.cacheIneligibleReason, hranged]
  obtain ⟨reason, hreason⟩ := Option.ne_none_iff_exists'.1 hreason
  simp only [new, Scan.cacheKey, hreason]
  rfl

/-- What the rewrites leave alone. -/
structure Kept (exec exec' : VgiScanExec B R V) : Prop where
  cacheKey : exec'.cacheKey = none
  cacheCapture : exec'.cacheCapture = false
  outputPartitioning : exec'.outputPartitioning = exec.outputPartitioning
  splitGroups : exec'.splitGroups = exec.splitGroups

theorem rewrites_keep {rewrites : List Rewrite} {exec' : VgiScanExec B R V} (hkey : exec.cacheKey = none)
    (hcapture : exec.cacheCapture = false) (h : rewrites.foldlM rewrite exec = some exec') : Kept exec exec' := by
  refine @StepSystem.run_invariant_of_partial _ _ rewrite exec exec' (fun _ => Kept exec) ⟨hkey, hcapture, rfl, rfl⟩ ?_
    rewrites h
  rintro - change e e' ⟨hkey, hcapture, hpartitioning, hsplits⟩ hrewrite
  cases change with
  | orderBy order =>
    simp only [rewrite] at hrewrite
    split at hrewrite <;> cases hrewrite
    exact ⟨hkey, by simp [hkey], hpartitioning, hsplits⟩
  | dynamicFilters =>
    cases hrewrite
    exact ⟨rfl, rfl, hpartitioning, hsplits⟩
  | dynamicProfile =>
    cases hrewrite
    exact ⟨hkey, hcapture, hpartitioning, hsplits⟩

end VgiScanExec

/-- What exposing ranges promises, of the plan and of its executions. -/
structure RangeDelivered (S : RangeSupport V) (schema remoteBindSchema : Schema) (mapping : Option ColumnMapping)
    (planned : PlannedSplits V) (exec : VgiScanExec B R V) (ordering : List PhysicalSortExpr)
    (splitPoints : List (List (ScalarValue V))) : Prop
    extends RangeClaimed S schema remoteBindSchema mapping planned ordering splitPoints where
  exposed : exec.outputPartitioning = .range ordering splitPoints
  tokens : ∀ i < exec.outputPartitioning.partitionCount, ∃ indices : List Nat, indices.Nodup ∧
    (∀ k, k ∈ indices ↔ ∃ split, planned.plan.splits[k]? = some split ∧ split.rangeIndex = some (i : Int)) ∧
    List.Forall₂ (fun k token => ∃ split, planned.plan.splits[k]? = some split ∧ split.token = token) indices (exec.tokens i)
  runs : ∀ (events : List (DeliveryEvent B)) (s : Delivery B), events.foldlM exec.step exec.init = some s →
    ∀ (i : Nat) phase, s.phases[i]? = some phase → phase = .planned ∨ phase = .starting ∨
      ∃ env, phase = .done .scanned (exec.jobOutput i none env) ∧
        Redeems (exec.jobConfig i none) env (exec.tokens i) (job (exec.jobConfig i none) env).trace

/-- A group of a plan packed by ranges holds the splits of its range. -/
theorem group_tokens {reader : BatchReader V} {plan : ScanPlan V} {targetPartitions : Nat} {planned : PlannedSplits V}
    (h : Partitions reader plan targetPartitions planned) (hgrouped : planned.rangeGrouped = true) {i : Nat} {group : SplitGroup}
    (hgroup : planned.groups[i]? = some group) : group.splitIndices.Nodup ∧
      (∀ k, k ∈ group.splitIndices ↔ ∃ split, plan.splits[k]? = some split ∧ split.rangeIndex = some (i : Int)) ∧
      List.Forall₂ (fun k token => ∃ split, plan.splits[k]? = some split ∧ split.token = token) group.splitIndices
        group.tokens := by
  obtain ⟨-, -, -, -, -, hranges⟩ := h.ranges hgrouped
  have hmem := List.mem_of_getElem? hgroup
  refine ⟨?_, hranges i group hgroup, h.tokens group hmem⟩
  have hall : (planned.groups.flatMap (·.splitIndices)).Nodup := h.splits_once.nodup_iff.2 List.nodup_range
  exact (List.nodup_flatMap.1 hall).1 group hmem

/-- **Exposed ranges are delivered**: a scan that exposes a range partitioning has a partition for each range, whose keys are
those of the plan, and in every execution, of it and of its rewrites, a partition's rows are those the worker sends for the
tokens of its own range. -/
theorem range_partitioning_delivered (S : RangeSupport V) (C : Client Location Identity Arguments)
    (rt : Runtime Location Identity W) (x : Scan Location Identity Arguments) (ops : BatchOps B R) (rpcTimeout : Bool)
    (schema remoteBindSchema : Schema) (mapping : Option ColumnMapping) (maxWorkers : Nat) {arithmetic : Arithmetic}
    {answer : Option (PlanAnswer V)} {targetPartitions : Nat} {splitGroups : Option (PlannedSplits V)}
    (hplanned : planSplits S.toBatchReader arithmetic answer targetPartitions = some splitGroups)
    {ordering : List PhysicalSortExpr} {values : List (List (ScalarValue V))}
    (hrange : (VgiScanExec.new S C rt x ops rpcTimeout schema remoteBindSchema mapping maxWorkers
      splitGroups).outputPartitioning = .range ordering values)
    {rewrites : List Rewrite} {exec : VgiScanExec B R V}
    (hexec : rewrites.foldlM VgiScanExec.rewrite (VgiScanExec.new S C rt x ops rpcTimeout schema remoteBindSchema mapping
      maxWorkers splitGroups) = some exec) :
    ∃ a planned, answer = some a ∧ splitGroups = some planned ∧ planned.plan = a.toScanPlan ∧
      RangeDelivered S schema remoteBindSchema mapping planned exec ordering values := by
  obtain ⟨planned, rfl, hclaimed⟩ := planPartitioning_range hrange
  obtain ⟨a, ha, hplan, hpacked⟩ := planSplits_spec hplanned
  have hmetadata : planned.plan.rangePartitioning.isSome = true := by
    obtain ⟨range, points, exprs, hrange, -⟩ := hclaimed.keys
    rw [hrange]
    rfl
  have hkey := VgiScanExec.new_uncached S C rt x ops rpcTimeout schema remoteBindSchema mapping maxWorkers hmetadata
  obtain ⟨hkey, hcapture, hpartitioning, hgroups⟩ := VgiScanExec.rewrites_keep hkey (congrArg Option.isSome hkey) hexec
  have hexposed : exec.outputPartitioning = .range ordering values := hpartitioning.trans hrange
  have hexecGroups : exec.groups = some (planned.groups.map (·.tokens)) := by
    rw [VgiScanExec.groups, hgroups]
    rfl
  refine ⟨a, planned, ha, rfl, hplan, { hclaimed with exposed := hexposed, tokens := ?_, runs := ?_ }⟩
  · intro i hi
    rw [hexposed, Partitioning.partitionCount, ← hclaimed.count] at hi
    have hgroup := List.getElem?_eq_getElem hi
    obtain ⟨hnodup, hindices, htokens⟩ := group_tokens hpacked hclaimed.grouped hgroup
    have hown : exec.tokens i = planned.groups[i].tokens := by
      simp [VgiScanExec.tokens, hexecGroups, List.getD_eq_getElem?_getD, hgroup]
    refine ⟨planned.groups[i].splitIndices, hnodup, hindices, ?_⟩
    rw [hown]
    exact htokens
  · intro events s hrun i phase hphase
    exact VgiScanExec.run_redeems hkey hcapture hexecGroups hrun hphase

/-! ## Two ranges of timestamps -/

/-- The records of the plan below, told apart by their rows. -/
def record (rows : Nat) : RecordBatch Int := ⟨⟨[], []⟩, [], rows, .nil⟩

def readRecord : Bytes → Option (RecordBatch Int)
  | [1] => some onePoint
  | [2] => some (record 2)
  | [3] => some (record 3)
  | [4] => some (record 4)
  | _ => none

theorem readRecord_rows (bytes : Bytes) (batch : RecordBatch Int) (h : readRecord bytes = some batch) :
    (batch.rows : Int) ≤ i64Max := by
  unfold readRecord at h
  split at h <;> cases h <;> decide

def orderingOf : List PhysicalSortExpr → Option (List PhysicalSortExpr)
  | [] => none
  | expr :: exprs => some ((expr :: exprs).eraseDupsBy sameColumn)

theorem orderingOf_some {exprs ordering : List PhysicalSortExpr} (h : orderingOf exprs = some ordering) :
    ordering = exprs.eraseDupsBy sameColumn := by
  cases exprs with
  | nil => cases h
  | cons expr exprs => exact (Option.some.inj h).symm

theorem atom_dataType {column : Column Int} {row : Nat} {value : ScalarValue Int}
    (h : column.cells[row]?.map (.atom column.dataType) = some value) : value.dataType = column.dataType := by
  obtain ⟨cell, -, rfl⟩ := Option.map_eq_some_iff.1 h
  rfl

def recordSupport : RangeSupport Int where
  readBatch := readRecord
  rows_i64 := readRecord_rows
  rangeKey batch := if batch.rows = 2 then some ⟨[3], "ASC", "NULLS_LAST"⟩ else none
  transformSpec batch := if batch.rows = 3 then some ⟨"vgi.identity/1", [[4]], none⟩ else none
  fieldPath batch := if batch.rows = 4 then some ⟨["event_time"]⟩ else none
  tryFromArray column row := column.cells[row]?.map (.atom column.dataType)
  tryFromArray_dataType := atom_dataType
  lexOrdering := orderingOf
  lexOrdering_nil := rfl
  lexOrdering_some := orderingOf_some
  accepts ordering values := values.all fun point => point.length == ordering.length

def timestampAnswer : PlanAnswer Int where
  toScanPlan := { rangedPlan with rangePartitioning := some ⟨[[2]], [1]⟩ }
  estimatedTotalRows := none
  estimatedTotalBytes := none

def timestampSchema (name : String) : Schema := ⟨[⟨name, .int64, true, []⟩], []⟩

/-- The three splits, in the groups of their ranges. -/
def timestampGroups : PlannedSplits Int := planned timestampAnswer.toScanPlan [[1], [0, 2]] true

/-- The worker's `event_time`, published as `timestamp`. -/
def timestampScan : VgiScanExec (List Nat) Nat Int :=
  VgiScanExec.new recordSupport anonymousClient anonymousRuntime (plainScan "main" "events") integerBatches true
    (timestampSchema "timestamp") (timestampSchema "event_time") (some [("timestamp", "event_time")]) 1 (some timestampGroups)

theorem range_partitioning_delivered_timestamps :
    planSplits recordSupport.toBatchReader .wrapping (some timestampAnswer) 2 = some (some timestampGroups) ∧
      ∃ exec, [.dynamicFilters, .dynamicProfile].foldlM VgiScanExec.rewrite timestampScan = some exec ∧
        exec.tokens 0 = [[8]] ∧ exec.tokens 1 = [[7], [9]] ∧
        ∃ a planned, some timestampAnswer = some a ∧ some timestampGroups = some planned ∧ planned.plan = a.toScanPlan ∧
          RangeDelivered recordSupport (timestampSchema "timestamp") (timestampSchema "event_time")
            (some [("timestamp", "event_time")]) planned exec [⟨"timestamp", 0, false, false⟩] [[.atom .int64 (some 10)]] := by
  have hplanned : planSplits recordSupport.toBatchReader .wrapping (some timestampAnswer) 2 = some (some timestampGroups) := rfl
  have hexec : [.dynamicFilters, .dynamicProfile].foldlM VgiScanExec.rewrite timestampScan =
      some { timestampScan with cacheKey := none, cacheCapture := false } := rfl
  exact ⟨hplanned, _, hexec, rfl, rfl, range_partitioning_delivered recordSupport anonymousClient anonymousRuntime
    (plainScan "main" "events") integerBatches true (timestampSchema "timestamp") (timestampSchema "event_time")
    (some [("timestamp", "event_time")]) 1 hplanned rfl hexec⟩

end VgiDatafusion.Packing
