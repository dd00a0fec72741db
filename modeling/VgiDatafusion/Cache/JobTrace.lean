import VgiDatafusion.Cache.Job

/-!
# What the trace of a job shows

Of what a job does, the consumer sees the batches sent, the capture the batches pushed, the cache
tiers the removals, and the worker the unconditional scans; `replayCount` counts the replays of the
selected entry. Each part of the job gets a lemma that says what it shows.
-/
namespace VgiDatafusion

open Traced

variable {B R : Type}

/-! ## The views -/

/-- What the outside can tell apart: rows out, rows captured, removals, and unconditional scans. -/
def JobEffect.observable : JobEffect B → Bool
  | .scan _ conditions => conditions.isNone
  | .removeMemory | .removeHit _ | .replay | .send _ | .capture (.pushBatch _) => true
  | _ => false

def observed (trace : List (JobEffect B)) : List (JobEffect B) := trace.filter JobEffect.observable

def JobEffect.sent? : JobEffect B → Option B
  | .send batch => some batch
  | _ => none

def JobEffect.pushed? : JobEffect B → Option B
  | .capture (.pushBatch batch) => some batch
  | _ => none

def JobEffect.redeemed? : JobEffect B → Option (Option (List Token))
  | .scan tokens none => some tokens
  | _ => none

def JobEffect.removes : JobEffect B → Bool
  | .removeMemory | .removeHit _ => true
  | _ => false

def JobEffect.replays : JobEffect B → Bool
  | .replay => true
  | _ => false

/-- The batches the consumer received. -/
def sentBatches (trace : List (JobEffect B)) : List B := (observed trace).filterMap JobEffect.sent?

/-- The batches the capture received. -/
def capturedBatches (trace : List (JobEffect B)) : List B := (observed trace).filterMap JobEffect.pushed?

/-- The tokens of the unconditional scans. -/
def redemptions (trace : List (JobEffect B)) : List (Option (List Token)) :=
  (observed trace).filterMap JobEffect.redeemed?

def removals (trace : List (JobEffect B)) : List (JobEffect B) := (observed trace).filter JobEffect.removes

def replayCount (trace : List (JobEffect B)) : Nat := (observed trace).countP JobEffect.replays

theorem observed_append (xs ys : List (JobEffect B)) : observed (xs ++ ys) = observed xs ++ observed ys :=
  List.filter_append ..

/-- What two parts show, seen through each view. -/
theorem views_append {trace : List (JobEffect B)} (xs ys : List (JobEffect B)) (h : observed trace = observed xs ++ observed ys) :
    sentBatches trace = sentBatches xs ++ sentBatches ys ∧
      capturedBatches trace = capturedBatches xs ++ capturedBatches ys ∧
      redemptions trace = redemptions xs ++ redemptions ys ∧ removals trace = removals xs ++ removals ys ∧
      replayCount trace = replayCount xs + replayCount ys := by
  simp only [sentBatches, capturedBatches, redemptions, removals, replayCount, h, List.filterMap_append,
    List.filter_append, List.countP_append, and_self]

theorem observed_capture (cfg : JobConfig B R) {call : CaptureCall B} (h : ∀ batch, call ≠ .pushBatch batch) :
    observed (capture cfg call).trace = [] := by
  unfold capture
  split
  · cases call with
    | pushBatch batch => exact absurd rfl (h batch)
    | _ => rfl
  · rfl

theorem capture_result (cfg : JobConfig B R) (call : CaptureCall B) : (capture cfg call).result = .ok () := by
  unfold capture
  split <;> rfl

theorem capture_captures (cfg : JobConfig B R) (call : CaptureCall B) :
    ∀ e ∈ (capture cfg call).trace, (∃ batch, e = .send batch) ∨ ∃ call, e = .capture call := by
  unfold capture
  split <;> simp [Traced.tell]

/-- The job shows what its run shows. -/
theorem observed_job (cfg : JobConfig B R) (env : JobEnv B) : observed (job cfg env).trace = observed (run cfg env).trace := by
  have hstarted : observed (capture cfg .start >>= fun _ => run cfg env).trace = observed (run cfg env).trace := by
    rw [bind_ok (capture_result cfg .start), observed_append, observed_capture cfg (by simp), List.nil_append]
  unfold job
  dsimp only
  split
  · exact hstarted
  · rw [observed_append, observed_append, observed_capture cfg (by simp), List.append_nil, hstarted]
    exact List.append_nil _

theorem job_result (cfg : JobConfig B R) (env : JobEnv B) : (job cfg env).result = (run cfg env).result := by
  have hstarted : (capture cfg .start >>= fun _ => run cfg env).result = (run cfg env).result := by
    rw [bind_ok (capture_result cfg .start)]
  unfold job
  dsimp only
  split
  · exact hstarted
  · rename_i error herror
    rw [← hstarted, herror]

/-! ## What each part of the job shows -/

section
variable (cfg : JobConfig B R) (env : JobEnv B)

theorem drain_sends_or_captures : ∀ (batches : List B) (emitted sent : Nat),
    ∀ e ∈ (drain cfg env emitted sent batches).trace, (∃ batch, e = .send batch) ∨ ∃ call, e = .capture call
  | [], _, _ => by simp [drain]
  | batch :: batches, emitted, sent => by
    unfold drain
    refine forall_bind (by simp [lift]) fun stored _ => ?_
    refine forall_bind (by simp [lift]) fun conformed _ => ?_
    refine forall_bind ?_ fun _ _ => ?_
    · unfold pushCaptured
      split <;> simp [Traced.tell]
    · split
      · refine forall_bind (by simp [Traced.tell]) fun _ _ => ?_
        split
        · exact forall_bind (capture_captures cfg _) (by simp)
        · exact drain_sends_or_captures batches _ (sent + 1)
      · exact forall_bind (capture_captures cfg _) (by simp)

/-- A trace that only removes. -/
theorem views_of_removes {trace : List (JobEffect B)} (h : ∀ e ∈ trace, e.removes = true) :
    removals trace = trace ∧ sentBatches trace = [] ∧ capturedBatches trace = [] ∧ redemptions trace = [] ∧
      replayCount trace = 0 := by
  have hkind : ∀ e ∈ trace, e.observable = true ∧ e.sent? = none ∧ e.pushed? = none ∧ e.redeemed? = none ∧
      e.replays = false := by
    intro e he
    have hremoves := h e he
    cases e with
    | removeMemory => exact ⟨rfl, rfl, rfl, rfl, rfl⟩
    | removeHit generation => exact ⟨rfl, rfl, rfl, rfl, rfl⟩
    | _ => cases hremoves
  have hobserved : observed trace = trace := List.filter_eq_self.2 fun e he => (hkind e he).1
  unfold removals sentBatches capturedBatches redemptions replayCount
  rw [hobserved]
  refine ⟨List.filter_eq_self.2 h, ?_, ?_, ?_, ?_⟩
  · exact List.filterMap_eq_nil_iff.2 fun e he => (hkind e he).2.1
  · exact List.filterMap_eq_nil_iff.2 fun e he => (hkind e he).2.2.1
  · exact List.filterMap_eq_nil_iff.2 fun e he => (hkind e he).2.2.2.1
  · rw [List.countP_eq_zero]
    intro e he
    simp [(hkind e he).2.2.2.2]

/-- A trace that neither removes nor replays nor redeems. -/
theorem views_of_rows {trace : List (JobEffect B)}
    (h : ∀ e ∈ trace, (∃ batch, e = .send batch) ∨ ∃ call, e = .capture call) :
    removals trace = [] ∧ redemptions trace = [] ∧ replayCount trace = 0 := by
  have hkind : ∀ e ∈ observed trace, e.removes = false ∧ e.redeemed? = none ∧ e.replays = false := by
    intro e he
    rcases h e (List.mem_filter.1 he).1 with ⟨batch, rfl⟩ | ⟨call, rfl⟩
    · exact ⟨rfl, rfl, rfl⟩
    · exact ⟨rfl, rfl, rfl⟩
  refine ⟨?_, ?_, ?_⟩
  · exact List.filter_eq_nil_iff.2 fun e he => by simp [(hkind e he).1]
  · exact List.filterMap_eq_nil_iff.2 fun e he => (hkind e he).2.1
  · exact List.countP_eq_zero.2 fun e he => by simp [(hkind e he).2.2]

/-- The wave only asks. -/
theorem wave_observed (entry : Revalidation B) : ∀ (groups : List (List Token)) (asked : Nat) (wave : Wave),
    observed (validationWave cfg env entry asked wave groups).trace = []
  | [], _, _ => rfl
  | tokens :: groups, asked, wave => by
    have hscan : observed [JobEffect.scan (B := B) (some tokens) (some entry.conditions)] = [] := rfl
    unfold validationWave
    rw [tell_bind]
    cases env.validation asked with
    | error error =>
      rw [lift_error_bind]
      exact hscan
    | ok answer =>
      rw [lift_ok_bind, observed_append, hscan, List.nil_append]
      split
      · rfl
      · split
        · rfl
        · split
          · exact wave_observed entry groups _ _
          · split
            · rfl
            · exact wave_observed entry groups _ _

theorem removeSelected_removes (entry : Revalidation B) :
    ∀ e ∈ (removeSelected env entry).trace, e.removes = true := by
  have hhit : ∀ hit : DiskHit B, ∀ e ∈ (removeHit env hit).trace, e.removes = true := by
    intro hit
    refine forall_bind (by simp [Traced.tell, JobEffect.removes]) fun _ _ => ?_
    split <;> simp [fail]
  cases entry with
  | memory entry companion =>
    refine forall_bind (by simp [Traced.tell, JobEffect.removes]) fun _ _ => ?_
    split
    · exact hhit _
    · simp
  | disk hit =>
    dsimp only [removeSelected]
    split
    · exact hhit hit
    · simp

theorem refreshSelected_quiet (control : CacheControl) (entry : Revalidation B) :
    ∀ e ∈ (refreshSelected env control entry).trace,
      e.sent? = none ∧ e.pushed? = none ∧ e.redeemed? = none ∧ e.replays = false := by
  have hhit : ∀ hit : DiskHit B, ∀ e ∈ (refreshHit env hit control).trace,
      e.sent? = none ∧ e.pushed? = none ∧ e.redeemed? = none ∧ e.replays = false := by
    intro hit
    unfold refreshHit
    split
    · refine forall_bind ?_ fun _ _ => ?_
      · simp [Traced.tell, JobEffect.sent?, JobEffect.pushed?, JobEffect.redeemed?, JobEffect.replays]
      · split <;> simp [fail]
    · simp [fail]
  cases entry with
  | disk hit => exact hhit hit
  | memory entry companion =>
    dsimp only [refreshSelected]
    split
    · refine forall_bind ?_ fun _ _ => ?_
      · simp [Traced.tell, JobEffect.sent?, JobEffect.pushed?, JobEffect.redeemed?, JobEffect.replays]
      · split
        · exact hhit _
        · simp [fail]
    · refine forall_bind ?_ fun _ _ => ?_
      · simp [Traced.tell, JobEffect.sent?, JobEffect.pushed?, JobEffect.redeemed?, JobEffect.replays]
      · split
        · split
          · refine forall_bind ?_ fun _ _ => ?_
            · simp [Traced.tell, JobEffect.sent?, JobEffect.pushed?, JobEffect.redeemed?, JobEffect.replays]
            · split <;> simp [fail]
          · simp
        · simp [fail]

/-- A refresh may remove an entry over the cap; it sends, captures and redeems nothing. -/
theorem refreshSelected_views (control : CacheControl) (entry : Revalidation B) :
    sentBatches (refreshSelected env control entry).trace = [] ∧
      capturedBatches (refreshSelected env control entry).trace = [] ∧
      redemptions (refreshSelected env control entry).trace = [] ∧
      replayCount (refreshSelected env control entry).trace = 0 := by
  have hquiet : ∀ e ∈ observed (refreshSelected env control entry).trace,
      e.sent? = none ∧ e.pushed? = none ∧ e.redeemed? = none ∧ e.replays = false :=
    fun e he => refreshSelected_quiet env control entry e (List.mem_filter.1 he).1
  refine ⟨?_, ?_, ?_, ?_⟩
  · exact List.filterMap_eq_nil_iff.2 fun e he => (hquiet e he).1
  · exact List.filterMap_eq_nil_iff.2 fun e he => (hquiet e he).2.1
  · exact List.filterMap_eq_nil_iff.2 fun e he => (hquiet e he).2.2.1
  · exact List.countP_eq_zero.2 fun e he => by simp [(hquiet e he).2.2.2]

theorem runScan_observed (tokens : Option (List Token)) :
    observed (runScan cfg env none tokens).trace = .scan tokens none ::
      match env.scan tokens with
      | .ok stream => observed (drain cfg env 0 0 stream.batches).trace
      | .error _ => [] := by
  unfold runScan
  rw [tell_bind, observed_append]
  show .scan tokens none :: observed _ = _
  congr 1
  have hnone : mayServeStale cfg env (none : Option (Revalidation B)) = none := by
    unfold mayServeStale
    split <;> rfl
  cases env.scan tokens with
  | error error =>
    rw [hnone]
    rfl
  | ok stream =>
    dsimp only
    cases hdrained : (drain cfg env 0 0 stream.batches).result with
    | error error => rw [bind_error hdrained]
    | ok drained =>
      rw [bind_ok hdrained, observed_append]
      suffices hinert : ∀ rest : JobM B Unit, observed rest.trace = [] → 
          observed (drain cfg env 0 0 stream.batches).trace ++ observed rest.trace =
            observed (drain cfg env 0 0 stream.batches).trace by
        apply hinert
        cases drained with
        | cancelled => rfl
        | limited => rfl
        | ended emitted sent =>
          dsimp only
          rw [hnone, ite_self]
          cases stream.failure with
          | some error =>
            dsimp only
            rw [bind_ok (capture_result ..), observed_append, observed_capture cfg (by simp)]
            rfl
          | none =>
            dsimp only
            split
            · rfl
            · split
              · exact observed_capture cfg (by simp)
              · rfl
      intro rest hrest
      rw [hrest, List.append_nil]

theorem runScan_views (tokens : Option (List Token)) :
    removals (runScan cfg env none tokens).trace = [] ∧ redemptions (runScan cfg env none tokens).trace = [tokens] ∧
      replayCount (runScan cfg env none tokens).trace = 0 ∧
      ((sentBatches (runScan cfg env none tokens).trace = [] ∧ capturedBatches (runScan cfg env none tokens).trace = []) ∨
        ∃ stream, env.scan tokens = .ok stream ∧
          sentBatches (runScan cfg env none tokens).trace = sentBatches (drain cfg env 0 0 stream.batches).trace ∧
          capturedBatches (runScan cfg env none tokens).trace =
            capturedBatches (drain cfg env 0 0 stream.batches).trace) := by
  have hobserved := runScan_observed cfg env tokens
  cases hscan : env.scan tokens with
  | error error =>
    rw [hscan] at hobserved
    obtain ⟨hsent, hcaptured, hredemptions, hremovals, hcount⟩ :=
      views_append [.scan tokens none] [] hobserved
    exact ⟨hremovals, hredemptions, hcount, Or.inl ⟨hsent, hcaptured⟩⟩
  | ok stream =>
    rw [hscan] at hobserved
    obtain ⟨hsent, hcaptured, hredemptions, hremovals, hcount⟩ :=
      views_append [.scan tokens none] (drain cfg env 0 0 stream.batches).trace hobserved
    obtain ⟨hnoRemovals, hnoRedemptions, hnoReplays⟩ := views_of_rows (drain_sends_or_captures cfg env stream.batches 0 0)
    rw [hnoRemovals] at hremovals
    rw [hnoRedemptions] at hredemptions
    rw [hnoReplays] at hcount
    exact ⟨hremovals, hredemptions, hcount, Or.inr ⟨stream, rfl, hsent, hcaptured⟩⟩

end

end VgiDatafusion
