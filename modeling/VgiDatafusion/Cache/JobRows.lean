import VgiDatafusion.Cache.JobTrace

/-!
# The rows a job delivers

`job_delivers` says, for a job that ends without an error, whose rows its partition emitted: those of
the selected cache entry, those of the worker's answer to the tokens it redeemed, or none. An answer
longer than the pushed limit is cut there (`cutRows`).
-/
namespace VgiDatafusion

open Traced

variable {B R : Type}

def rowsSent (ops : BatchOps B R) (trace : List (JobEffect B)) : List R := (sentBatches trace).flatMap ops.rows

/-- Every batch of a cache entry, conformed; the first failure fails the replay. -/
def conformAll (ops : BatchOps B R) : List (Except String B) → Except String (List B)
  | [] => .ok []
  | .error error :: _ => .error error
  | .ok batch :: rest => do
    let batch ← ops.conform batch
    let rest ← conformAll ops rest
    .ok (batch :: rest)

/-- The rows of a worker's batch as the scan declares them. -/
def delivered (ops : BatchOps B R) (batch : B) : List R :=
  match ops.conform batch with
  | .ok batch => ops.rows batch
  | .error _ => []

def cutRows (limit : Option Nat) (rows : List R) : List R :=
  match limit with
  | some l => rows.take l
  | none => rows

/-- Fixed rows for every token, and for the scan without tokens. -/
structure TokenWorker (R : Type) where
  redeem : Token → List R
  whole : List R

/-- The rows of a scan of these tokens, or of the whole. -/
def TokenWorker.expected (worker : TokenWorker R) : Option (List Token) → List R
  | some tokens => tokens.flatMap worker.redeem
  | none => worker.whole

/-- The stream of one scan is the worker's fixed rows in some order, or a first part of them before
an error, or the word that nothing changed. -/
def TokenWorker.Streams (worker : TokenWorker R) (ops : BatchOps B R) (tokens : Option (List Token))
    (stream : WorkerStream B) : Prop :=
  (stream.notModified = none ∧ ∃ rest, (stream.batches.flatMap (delivered ops) ++ rest).Perm (worker.expected tokens) ∧
    (stream.failure = none → rest = [])) ∨
  (stream.notModified.isSome = true ∧ stream.batches.flatMap (delivered ops) = [])

/-- The consumer stays to the end, and the worker keeps to its rows. -/
structure Served (worker : TokenWorker R) (ops : BatchOps B R) (env : JobEnv B) : Prop where
  takes : ∀ i, env.takes i = true
  streams : ∀ tokens stream, env.scan tokens = .ok stream → worker.Streams ops tokens stream

/-- `Stored` are the complete results under the key: a replay that succeeds yields one of them. -/
def Complete (Stored : List R → Prop) (ops : BatchOps B R) (batches : List (Except String B)) : Prop :=
  ∀ conformed, conformAll ops batches = .ok conformed → Stored (conformed.flatMap ops.rows)

def Revalidation.Complete (Stored : List R → Prop) (ops : BatchOps B R) : Revalidation B → Prop
  | .memory entry diskCompanion => VgiDatafusion.Complete Stored ops (Revalidation.memory entry none).read ∧
      ∀ hit, diskCompanion = some hit → VgiDatafusion.Complete Stored ops (Revalidation.disk hit).read
  | .disk hit => VgiDatafusion.Complete Stored ops (Revalidation.disk hit).read

/-- The worker's answer to these tokens, up to the limit. -/
def TokenWorker.Answers (worker : TokenWorker R) (limit : Option Nat) (tokens : Option (List Token)) (rows : List R) : Prop :=
  ∃ answer, answer.Perm (worker.expected tokens) ∧ rows = cutRows limit answer

/-- Whose rows a partition's job emits. -/
def JobDelivers (worker : TokenWorker R) (Stored : List R → Prop) (cfg : JobConfig B R) (rows : List R) : Prop :=
  match cfg.groups, cfg.revalidation with
  | some groups, some _ =>
    if cfg.partition = 0 then Stored rows ∨ worker.Answers cfg.limit (some groups.flatten) rows else rows = []
  | some groups, none => worker.Answers cfg.limit (some (groups.getD cfg.partition [])) rows
  | none, _ => if cfg.partition = 0 then Stored rows ∨ worker.Answers cfg.limit none rows else rows = []

/-! ## Rows of a sequence -/

theorem sentBatches_append (xs ys : List (JobEffect B)) : sentBatches (xs ++ ys) = sentBatches xs ++ sentBatches ys :=
  (views_append xs ys (observed_append xs ys)).1

theorem rowsSent_append (ops : BatchOps B R) (xs ys : List (JobEffect B)) :
    rowsSent ops (xs ++ ys) = rowsSent ops xs ++ rowsSent ops ys := by
  unfold rowsSent
  rw [sentBatches_append, List.flatMap_append]

theorem rowsSent_send (ops : BatchOps B R) (batch : B) : rowsSent ops [.send batch] = ops.rows batch := by
  show [batch].flatMap ops.rows = ops.rows batch
  rw [List.flatMap_singleton]

theorem rowsSent_capture (ops : BatchOps B R) (cfg : JobConfig B R) (call : CaptureCall B) :
    rowsSent ops (capture cfg call).trace = [] := by
  unfold capture
  split
  · cases call <;> rfl
  · rfl

theorem rowsSent_of_removes (ops : BatchOps B R) {trace : List (JobEffect B)} (h : ∀ e ∈ trace, e.removes = true) :
    rowsSent ops trace = [] := by
  unfold rowsSent
  rw [(views_of_removes h).2.1]
  rfl

section
variable {cfg : JobConfig B R} {env : JobEnv B} {worker : TokenWorker R} {Stored : List R → Prop}

theorem sendAll_rows (htakes : ∀ i, env.takes i = true) (dropped : String) :
    ∀ (batches : List (Except String B)) (sent : Nat), (sendAll cfg env dropped sent batches).result = .ok () →
      conformAll cfg.ops batches = .ok (sentBatches (sendAll cfg env dropped sent batches).trace)
  | [], _, _ => rfl
  | .error error :: _, _, h => by cases h
  | .ok batch :: batches, sent, h => by
    unfold sendAll at h ⊢
    obtain ⟨conformed, hconformed, hrest, htrace⟩ := of_bind_ok h
    rw [htrace]
    rw [if_pos (htakes sent), tell_bind] at hrest ⊢
    have ih := sendAll_rows htakes dropped batches (sent + 1) hrest
    show (cfg.ops.conform batch >>= fun b => conformAll cfg.ops batches >>= fun rest => .ok (b :: rest)) = _
    rw [show cfg.ops.conform batch = .ok conformed from hconformed, ih]
    rfl

/-- A replay that succeeds is a complete cached result. -/
theorem replay_rows (htakes : ∀ i, env.takes i = true) {entry : Revalidation B} {sent : Nat}
    (hcomplete : Complete Stored cfg.ops entry.read) (h : (replay cfg env entry sent).result = .ok ()) :
    Stored (rowsSent cfg.ops (replay cfg env entry sent).trace) := by
  unfold replay at h ⊢
  rw [tell_bind] at h ⊢
  have hconformed := hcomplete _ (sendAll_rows htakes _ _ sent h)
  exact hconformed

/-- The rows up to a limit, `emitted` of which are out already. -/
def remaining (limit : Option Nat) (emitted : Nat) (rows : List R) : List R :=
  match limit with
  | some l => rows.take (l - emitted)
  | none => rows

theorem cut_rows (emitted : Nat) (batch : B) :
    cfg.ops.rows (cut cfg emitted batch) = remaining cfg.limit emitted (cfg.ops.rows batch) := by
  unfold cut remaining
  cases cfg.limit with
  | none => rfl
  | some l =>
    dsimp only
    split
    · exact cfg.ops.rows_slice batch (l - emitted)
    · rw [List.take_of_length_le (by omega)]

/-- A limit reached leaves nothing of what follows. -/
theorem remaining_append (emitted : Nat) (xs ys : List R) :
    remaining cfg.limit emitted (xs ++ ys) = remaining cfg.limit emitted xs ++
      if limitReached cfg (emitted + (remaining cfg.limit emitted xs).length) then []
      else remaining cfg.limit (emitted + (remaining cfg.limit emitted xs).length) ys := by
  unfold remaining limitReached
  cases cfg.limit with
  | none => rfl
  | some l =>
    simp only [List.take_append, List.length_take, decide_eq_true_eq]
    congr 1
    split
    · rw [List.take_eq_nil_iff]
      omega
    · congr 1
      omega

/-- One batch of `drain`. -/
theorem drain_cons (htakes : ∀ i, env.takes i = true) {batch : B} {batches : List B} {emitted sent : Nat} {d : Drained}
    (h : (drain cfg env emitted sent (batch :: batches)).result = .ok d) :
    ∃ emitted', emitted' = emitted + (remaining cfg.limit emitted (delivered cfg.ops batch)).length ∧
      ((limitReached cfg emitted' = true ∧ d = .limited ∧
        rowsSent cfg.ops (drain cfg env emitted sent (batch :: batches)).trace =
          remaining cfg.limit emitted (delivered cfg.ops batch)) ∨
      (limitReached cfg emitted' = false ∧ (drain cfg env emitted' (sent + 1) batches).result = .ok d ∧
        rowsSent cfg.ops (drain cfg env emitted sent (batch :: batches)).trace =
          remaining cfg.limit emitted (delivered cfg.ops batch) ++
            rowsSent cfg.ops (drain cfg env emitted' (sent + 1) batches).trace)) := by
  generalize hstep : drain cfg env emitted sent (batch :: batches) = step at h ⊢
  rw [drain] at hstep
  subst hstep
  obtain ⟨stored, -, h, htrace⟩ := of_bind_ok h
  rw [htrace]
  clear htrace
  obtain ⟨conformed, hconformed, h, htrace⟩ := of_bind_ok h
  rw [htrace]
  clear htrace
  obtain ⟨-, -, h, htrace⟩ := of_bind_ok h
  rw [htrace]
  clear htrace
  have hrows : remaining cfg.limit emitted (delivered cfg.ops batch) = cfg.ops.rows (cut cfg emitted conformed) := by
    have hdelivered : delivered cfg.ops batch = cfg.ops.rows conformed := by
      unfold delivered
      rw [show cfg.ops.conform batch = .ok conformed from hconformed]
    rw [cut_rows, hdelivered]
  have hpushed : ∀ rows, rowsSent cfg.ops (pushCaptured cfg stored rows).trace = [] := by
    intro rows
    unfold pushCaptured
    split <;> rfl
  rw [if_pos (htakes sent), tell_bind] at h ⊢
  refine ⟨_, rfl, ?_⟩
  rw [hrows]
  have hsent : ∀ rest : List (JobEffect B), rowsSent cfg.ops ((lift (if cfg.captures = true then
        (cfg.ops.conformStorage batch).map some else .ok none) : JobM B (Option B)).trace ++
      ((lift (cfg.ops.conform batch) : JobM B B).trace ++
        ((pushCaptured cfg stored (cfg.ops.rows (cut cfg emitted conformed)).length).trace ++
          ([.send (cut cfg emitted conformed)] ++ rest)))) =
        cfg.ops.rows (cut cfg emitted conformed) ++ rowsSent cfg.ops rest := by
    intro rest
    rw [rowsSent_append, rowsSent_append, rowsSent_append, rowsSent_append, hpushed, rowsSent_send]
    rfl
  rw [hsent]
  by_cases hreached : limitReached cfg (emitted + (cfg.ops.rows (cut cfg emitted conformed)).length) = true
  · left
    rw [if_pos hreached] at h ⊢
    obtain ⟨-, -, h, htrace⟩ := of_bind_ok h
    cases h
    refine ⟨hreached, rfl, ?_⟩
    rw [htrace, rowsSent_append, rowsSent_capture]
    exact List.append_nil _
  · right
    rw [if_neg hreached] at h ⊢
    rw [Bool.not_eq_true] at hreached
    exact ⟨hreached, h, rfl⟩

/-- What `drain` sends is the stream, up to the limit. -/
theorem drain_rows (htakes : ∀ i, env.takes i = true) : ∀ (batches : List B) (emitted sent : Nat) (d : Drained),
    (drain cfg env emitted sent batches).result = .ok d →
      rowsSent cfg.ops (drain cfg env emitted sent batches).trace =
          remaining cfg.limit emitted (batches.flatMap (delivered cfg.ops)) ∧
        match d with
        | .ended emitted' _ => emitted' = emitted + (batches.flatMap (delivered cfg.ops)).length ∧
            rowsSent cfg.ops (drain cfg env emitted sent batches).trace = batches.flatMap (delivered cfg.ops)
        | .limited => ∃ l, cfg.limit = some l ∧ l ≤ emitted + (batches.flatMap (delivered cfg.ops)).length
        | .cancelled => False
  | [], emitted, sent, d, h => by
    cases h
    refine ⟨?_, rfl, rfl⟩
    unfold remaining
    cases cfg.limit <;> simp [rowsSent, sentBatches, observed, drain]
  | batch :: batches, emitted, sent, d, h => by
    obtain ⟨emitted', hemitted', ⟨hreached, rfl, hrows⟩ | ⟨hreached, hrest, hrows⟩⟩ := drain_cons htakes h
    · rw [List.flatMap_cons, remaining_append, ← hemitted', if_pos hreached, List.append_nil]
      refine ⟨hrows, ?_⟩
      unfold limitReached at hreached
      split at hreached
      · rename_i l hl
        refine ⟨l, hl, ?_⟩
        rw [decide_eq_true_eq] at hreached
        have hle : (remaining cfg.limit emitted (delivered cfg.ops batch)).length ≤ (delivered cfg.ops batch).length := by
          unfold remaining
          rw [hl]
          simp only [List.length_take]
          omega
        simp only [List.length_append]
        omega
      · cases hreached
    · obtain ⟨ihrows, ihd⟩ := drain_rows htakes batches emitted' (sent + 1) d hrest
      rw [List.flatMap_cons, remaining_append, ← hemitted', if_neg (by simp [hreached]), ← ihrows]
      refine ⟨hrows, ?_⟩
      -- the limit was not reached, so it did not cut this batch
      have hwhole : remaining cfg.limit emitted (delivered cfg.ops batch) = delivered cfg.ops batch := by
        unfold remaining at hemitted' ⊢
        unfold limitReached at hreached
        cases hl : cfg.limit with
        | none => rfl
        | some l =>
          rw [hl] at hemitted' hreached
          simp only [List.length_take, decide_eq_false_iff_not] at hemitted' hreached
          exact List.take_of_length_le (by omega)
      rw [hwhole] at hemitted' hrows
      cases d with
      | ended total _ =>
        obtain ⟨htotal, ihwhole⟩ := ihd
        simp only [List.length_append]
        rw [ihwhole] at hrows
        exact ⟨by omega, hrows⟩
      | limited =>
        obtain ⟨l, hl, hle⟩ := ihd
        refine ⟨l, hl, ?_⟩
        simp only [List.length_append]
        omega
      | cancelled => exact ihd

theorem Revalidation.Complete.read {entry : Revalidation B} (h : entry.Complete Stored cfg.ops) :
    VgiDatafusion.Complete Stored cfg.ops entry.read := by
  cases entry with
  | memory entry diskCompanion => exact h.1
  | disk hit => exact h

theorem serveStale_rows (htakes : ∀ i, env.takes i = true) {entry : Revalidation B} {sent : Nat}
    (hcomplete : entry.Complete Stored cfg.ops) (h : (serveStale cfg env entry sent).result = .ok ()) :
    Stored (rowsSent cfg.ops (serveStale cfg env entry sent).trace) := by
  unfold serveStale at h ⊢
  obtain ⟨_, hreplay, -, htrace⟩ := of_bind_ok h
  rw [htrace, rowsSent_append, rowsSent_capture, List.append_nil]
  exact replay_rows htakes hcomplete.read hreplay

theorem mayServeStale_eq {revalidation : Option (Revalidation B)} {entry : Revalidation B}
    (h : mayServeStale cfg env revalidation = some entry) : revalidation = some entry := by
  unfold mayServeStale at h
  split at h
  · exact h
  · cases h

/-- The tiers are told, the consumer gets nothing. -/
theorem slideSelected_rows (control : CacheControl) (entry : Revalidation B) :
    rowsSent cfg.ops (slideSelected env control entry).trace = [] := by
  cases entry with
  | disk hit =>
    dsimp only [slideSelected]
    split <;> rfl
  | memory entry diskCompanion =>
    dsimp only [slideSelected]
    rw [tell_bind, rowsSent_append]
    split <;> rfl

theorem admitSelected_rows {entry admitted : Revalidation B} (hcomplete : entry.Complete Stored cfg.ops)
    (h : (admitSelected cfg env entry).result = .ok admitted) :
    rowsSent cfg.ops (admitSelected cfg env entry).trace = [] ∧ admitted.Complete Stored cfg.ops := by
  cases entry with
  | disk hit =>
    cases h
    exact ⟨rfl, hcomplete⟩
  | memory entry diskCompanion =>
    dsimp only [admitSelected] at h ⊢
    split at h
    · rename_i hbytes
      rw [if_pos hbytes]
      rw [tell_bind] at h ⊢
      cases diskCompanion with
      | none => cases h
      | some hit =>
        cases h
        exact ⟨rfl, hcomplete.2 hit rfl⟩
    · rename_i hbytes
      rw [if_neg hbytes]
      cases h
      exact ⟨rfl, hcomplete⟩

/-- A conditional scan that was told nothing changed replays the entry, or its durable companion. -/
theorem notModified_rows (htakes : ∀ i, env.takes i = true) (hforeground : cfg.background = false)
    {revalidation : Option (Revalidation B)} (hcomplete : ∀ e, revalidation = some e → e.Complete Stored cfg.ops)
    {control : CacheControl} {emitted sent : Nat}
    (h : (notModified cfg env revalidation control emitted sent).result = .ok ()) :
    emitted = 0 ∧ Stored (rowsSent cfg.ops (notModified cfg env revalidation control emitted sent).trace) := by
  cases revalidation with
  | none => cases h
  | some entry =>
    have hentry := hcomplete entry rfl
    unfold notModified at h ⊢
    dsimp only at h ⊢
    by_cases hemitted : emitted ≠ 0
    · rw [if_pos hemitted] at h
      cases h
    · rw [if_neg hemitted] at h ⊢
      refine ⟨by omega, ?_⟩
      cases hfreshness : env.freshness control with
      | error reason =>
        rw [hfreshness] at h
        obtain ⟨-, -, h, -⟩ := of_bind_ok h
        cases h
      | ok freshness =>
        rw [hfreshness] at h
        obtain ⟨admitted, hadmitted, h, htrace⟩ := of_bind_ok h
        dsimp only
        rw [htrace, rowsSent_append]
        clear htrace
        obtain ⟨_, -, h, htrace⟩ := of_bind_ok h
        rw [htrace, rowsSent_append, slideSelected_rows]
        clear htrace
        obtain ⟨_, hreplay, -, htrace⟩ := of_bind_ok h
        rw [htrace, rowsSent_append, rowsSent_capture]
        obtain ⟨hquiet, hcompleted⟩ := admitSelected_rows hentry hadmitted
        have hrun : replayForeground cfg env admitted sent = replay cfg env admitted sent := by
          unfold replayForeground
          rw [if_neg (by simp [hforeground])]
        rw [hquiet, List.nil_append, List.nil_append, List.append_nil]
        rw [hrun] at hreplay ⊢
        exact replay_rows htakes hcompleted.read hreplay

/-- A limit that a first part of the answer fills cuts the whole answer to the same rows. -/
theorem answers_of_streams {tokens : Option (List Token)} {stream : WorkerStream B}
    (hstream : worker.Streams cfg.ops tokens stream)
    (hfull : (stream.failure = none ∧ stream.notModified = none) ∨
      ∃ l, cfg.limit = some l ∧ l ≤ (stream.batches.flatMap (delivered cfg.ops)).length) :
    worker.Answers cfg.limit tokens (cutRows cfg.limit (stream.batches.flatMap (delivered cfg.ops))) := by
  rcases hstream with ⟨-, rest, hperm, hcomplete⟩ | ⟨hmodified, hnone⟩
  · rcases hfull with ⟨hfailure, -⟩ | ⟨l, hl, hle⟩
    · rw [hcomplete hfailure, List.append_nil] at hperm
      exact ⟨_, hperm, rfl⟩
    · refine ⟨_, hperm, ?_⟩
      rw [hl]
      show List.take l _ = List.take l _
      rw [List.take_append_of_le_length hle]
  · rcases hfull with ⟨-, hmodified'⟩ | ⟨l, hl, hle⟩
    · rw [hmodified'] at hmodified
      cases hmodified
    · rw [hnone] at hle ⊢
      refine ⟨_, List.Perm.refl _, ?_⟩
      rw [hl]
      show List.take l _ = List.take l _
      have hzero : l = 0 := by simpa using hle
      rw [hzero]
      rfl

theorem remaining_zero (rows : List R) : remaining cfg.limit 0 rows = cutRows cfg.limit rows := by
  unfold remaining cutRows
  cases cfg.limit <;> rfl

variable (Stored) in
/-- One scan delivers the worker's answer, or the entry it was conditional on. -/
theorem runScan_rows (hserved : Served worker cfg.ops env) (hforeground : cfg.background = false)
    {revalidation : Option (Revalidation B)} (hcomplete : ∀ e, revalidation = some e → e.Complete Stored cfg.ops)
    {tokens : Option (List Token)} (h : (runScan cfg env revalidation tokens).result = .ok ()) :
    worker.Answers cfg.limit tokens (rowsSent cfg.ops (runScan cfg env revalidation tokens).trace) ∨
      (revalidation.isSome = true ∧ Stored (rowsSent cfg.ops (runScan cfg env revalidation tokens).trace)) := by
  unfold runScan at h ⊢
  rw [tell_bind] at h ⊢
  rw [rowsSent_append]
  have hscan : rowsSent cfg.ops [JobEffect.scan tokens (revalidation.map Revalidation.conditions)] = [] := by
    cases revalidation <;> rfl
  rw [hscan, List.nil_append]
  cases hstream : env.scan tokens with
  | error error =>
    rw [hstream] at h
    dsimp only at h ⊢
    split at h
    · rename_i entry hentry
      have hsome := mayServeStale_eq hentry
      exact Or.inr ⟨by rw [hsome]; rfl, serveStale_rows hserved.takes (hcomplete entry hsome) h⟩
    · cases h
  | ok stream =>
    have hstreams := hserved.streams tokens stream hstream
    rw [hstream] at h
    dsimp only at h ⊢
    obtain ⟨d, hd, h, htrace⟩ := of_bind_ok h
    rw [htrace, rowsSent_append]
    obtain ⟨hrows, hended⟩ := drain_rows hserved.takes stream.batches 0 0 d hd
    rw [remaining_zero] at hrows
    cases d with
    | cancelled => exact absurd hended id
    | limited =>
      obtain ⟨l, hl, hle⟩ := hended
      left
      rw [hrows]
      show worker.Answers cfg.limit tokens (_ ++ [])
      rw [List.append_nil]
      exact answers_of_streams hstreams (Or.inr ⟨l, hl, by omega⟩)
    | ended emitted sent =>
      obtain ⟨hemitted, hwhole⟩ := hended
      dsimp only at h ⊢
      cases hfailure : stream.failure with
      | some error =>
        rw [hfailure] at h
        dsimp only at h ⊢
        split at h
        · rename_i entry hentry
          split at hentry
          · rename_i hzero
            have hsome := mayServeStale_eq hentry
            have hnone : stream.batches.flatMap (delivered cfg.ops) = [] := List.length_eq_zero_iff.1 (by omega)
            rw [hwhole, hnone, List.nil_append]
            exact Or.inr ⟨by rw [hsome]; rfl, serveStale_rows hserved.takes (hcomplete entry hsome) h⟩
          · cases hentry
        · obtain ⟨_, -, h, -⟩ := of_bind_ok h
          cases h
      | none =>
        rw [hfailure] at h
        dsimp only at h ⊢
        by_cases hreached : limitReached cfg emitted = true
        · rw [if_pos hreached]
          left
          show worker.Answers cfg.limit tokens (_ ++ [])
          rw [hrows, List.append_nil]
          unfold limitReached at hreached
          split at hreached
          · rename_i l hl
            rw [decide_eq_true_eq] at hreached
            exact answers_of_streams hstreams (Or.inr ⟨l, hl, by omega⟩)
          · cases hreached
        · rw [if_neg hreached] at h ⊢
          cases hmodified : stream.notModified with
          | none =>
            left
            dsimp only
            rw [rowsSent_capture, hrows, List.append_nil]
            exact answers_of_streams hstreams (Or.inl ⟨hfailure, hmodified⟩)
          | some control =>
            rw [hmodified] at h
            dsimp only at h ⊢
            obtain ⟨hzero, hstored⟩ := notModified_rows hserved.takes hforeground hcomplete h
            have hnone : stream.batches.flatMap (delivered cfg.ops) = [] := List.length_eq_zero_iff.1 (by omega)
            rw [hwhole, hnone, List.nil_append]
            refine Or.inr ⟨?_, hstored⟩
            cases revalidation with
            | none => cases h
            | some entry => rfl

theorem answers_nothing : worker.Answers cfg.limit (some []) [] := by
  refine ⟨[], List.Perm.refl _, ?_⟩
  unfold cutRows
  cases cfg.limit <;> simp

/-- The tokens of an unconditional scan are answered; none of them means no work. -/
theorem execute_unconditional (hserved : Served worker cfg.ops env) (hforeground : cfg.background = false)
    {tokens : List Token} (h : (execute cfg env none (some tokens)).result = .ok ()) :
    worker.Answers cfg.limit (some tokens) (rowsSent cfg.ops (execute cfg env none (some tokens)).trace) := by
  cases tokens with
  | nil =>
    show worker.Answers cfg.limit (some []) (rowsSent cfg.ops (capture cfg .noWork).trace)
    rw [rowsSent_capture]
    exact answers_nothing
  | cons token tokens =>
    rcases runScan_rows (fun _ => False) hserved hforeground (fun _ hnone => by cases hnone) h with hanswers | ⟨hsome, -⟩
    · exact hanswers
    · cases hsome

theorem refreshSelected_complete {entry refreshed : Revalidation B} {control : CacheControl}
    (hcomplete : entry.Complete Stored cfg.ops) (h : (refreshSelected env control entry).result = .ok refreshed) :
    refreshed.Complete Stored cfg.ops := by
  have hhit : ∀ hit : DiskHit B, (refreshHit env hit control).result = .ok refreshed → refreshed = .disk hit := by
    intro hit hresult
    unfold refreshHit at hresult
    split at hresult
    · rw [tell_bind] at hresult
      dsimp only at hresult
      split at hresult
      · cases hresult
        rfl
      · cases hresult
      · cases hresult
    · cases hresult
  cases entry with
  | disk hit =>
    rw [hhit hit h]
    exact hcomplete
  | memory entry diskCompanion =>
    dsimp only [refreshSelected] at h
    split at h
    · rw [tell_bind] at h
      cases diskCompanion with
      | none => cases h
      | some hit =>
        rw [hhit hit h]
        exact hcomplete.2 hit rfl
    · rw [tell_bind] at h
      dsimp only at h
      split at h
      · split at h
        · rw [tell_bind] at h
          dsimp only at h
          split at h
          · cases h
            exact hcomplete
          · cases h
        · cases h
          exact hcomplete
      · cases h

/-- After the validation wave: the cached result is out, or all tokens are to be redeemed. -/
theorem afterWave_rows (htakes : ∀ i, env.takes i = true) (hforeground : cfg.background = false)
    {entry : Revalidation B} (hcomplete : entry.Complete Stored cfg.ops) {groups : List (List Token)} {wave : Wave}
    {after : AfterValidation} (h : (afterWave cfg env entry groups wave).result = .ok after) :
    (after = .done ∧ Stored (rowsSent cfg.ops (afterWave cfg env entry groups wave).trace)) ∨
      (rowsSent cfg.ops (afterWave cfg env entry groups wave).trace = [] ∧
        ((after = .done ∧ groups = []) ∨ after = .redeem groups.flatten)) := by
  have hremoves := rowsSent_of_removes cfg.ops (removeSelected_removes env entry)
  have hrerun : ∀ after, (rerunAll env entry groups).result = .ok after →
      rowsSent cfg.ops (rerunAll env entry groups).trace = [] ∧ after = .redeem groups.flatten := by
    intro after hrerun
    unfold rerunAll at hrerun ⊢
    obtain ⟨_, -, hafter, htrace⟩ := of_bind_ok hrerun
    cases hafter
    rw [htrace, rowsSent_append, hremoves]
    exact ⟨rfl, rfl⟩
  unfold afterWave at h ⊢
  by_cases hempty : wave.votes = 0 ∧ groups = []
  · rw [if_pos hempty] at h ⊢
    obtain ⟨_, -, h, htrace⟩ := of_bind_ok h
    rw [htrace, rowsSent_append, hremoves]
    clear htrace
    obtain ⟨_, -, h, htrace⟩ := of_bind_ok h
    cases h
    rw [htrace, rowsSent_append, rowsSent_capture]
    exact Or.inr ⟨rfl, Or.inl ⟨rfl, hempty.2⟩⟩
  · rw [if_neg hempty] at h ⊢
    by_cases hvotes : wave.votes = 0
    · rw [if_pos hvotes] at h
      cases h
    · rw [if_neg hvotes] at h ⊢
      split at h
      · split at h
        · unfold replayRefreshed at h ⊢
          obtain ⟨refreshed, hrefreshed, h, htrace⟩ := of_bind_ok h
          rw [htrace, rowsSent_append]
          clear htrace
          obtain ⟨_, hreplay, h, htrace⟩ := of_bind_ok h
          rw [htrace, rowsSent_append]
          clear htrace
          obtain ⟨_, -, h, htrace⟩ := of_bind_ok h
          cases h
          rw [htrace, rowsSent_append, rowsSent_capture]
          have hrun : replayForeground cfg env refreshed 0 = replay cfg env refreshed 0 := by
            unfold replayForeground
            rw [if_neg (by simp [hforeground])]
          have hquiet : ∀ control, rowsSent cfg.ops (refreshSelected env control entry).trace = [] := by
            intro control
            unfold rowsSent
            rw [(refreshSelected_views env control entry).1]
            rfl
          rw [hquiet, List.nil_append]
          rw [hrun] at hreplay ⊢
          left
          refine ⟨rfl, ?_⟩
          show Stored (_ ++ ([] ++ []))
          rw [List.append_nil, List.append_nil]
          exact replay_rows htakes (refreshSelected_complete hcomplete hrefreshed).read hreplay
        · obtain ⟨hnone, hredeem⟩ := hrerun after h
          exact Or.inr ⟨hnone, Or.inr hredeem⟩
      · obtain ⟨hnone, hredeem⟩ := hrerun after h
        exact Or.inr ⟨hnone, Or.inr hredeem⟩

/-- A stale split result in partition 0: validated or redeemed whole. -/
theorem splitRun_rows (hserved : Served worker cfg.ops env) (hforeground : cfg.background = false)
    {entry : Revalidation B} (hcomplete : entry.Complete Stored cfg.ops) {groups : List (List Token)}
    (hentry : cfg.revalidation = some entry) (hgroups : cfg.groups = some groups) (hzero : cfg.partition = 0)
    (h : (run cfg env).result = .ok ()) :
    Stored (rowsSent cfg.ops (run cfg env).trace) ∨
      worker.Answers cfg.limit (some groups.flatten) (rowsSent cfg.ops (run cfg env).trace) := by
  unfold run at h ⊢
  rw [hentry, hgroups] at h ⊢
  dsimp only at h ⊢
  rw [if_neg (by omega)] at h ⊢
  obtain ⟨_, -, h, htrace⟩ := of_bind_ok h
  rw [htrace]
  clear htrace
  obtain ⟨after, hafter, h, htrace⟩ := of_bind_ok h
  rw [htrace, rowsSent_append, rowsSent_append]
  clear htrace
  unfold splitValidation at hafter ⊢
  obtain ⟨wave, -, hafter, htrace⟩ := of_bind_ok hafter
  rw [htrace, rowsSent_append]
  have hasks : rowsSent cfg.ops (validationWave cfg env entry 0 {} (groups.filter (!·.isEmpty))).trace = [] := by
    unfold rowsSent sentBatches
    rw [wave_observed]
    rfl
  rw [hasks, List.nil_append]
  show Stored ([] ++ _) ∨ worker.Answers _ _ ([] ++ _)
  rw [List.nil_append]
  rcases afterWave_rows hserved.takes hforeground hcomplete hafter with ⟨rfl, hstored⟩ | ⟨hnone, ⟨rfl, rfl⟩ | rfl⟩
  · left
    show Stored (_ ++ [])
    rw [List.append_nil]
    exact hstored
  · right
    rw [hnone]
    exact answers_nothing
  · right
    rw [hnone, List.nil_append]
    exact execute_unconditional hserved hforeground h

/-- **Whose rows a job delivers.** -/
theorem job_delivers (hserved : Served worker cfg.ops env) (hforeground : cfg.background = false)
    (hcomplete : ∀ e, cfg.revalidation = some e → e.Complete Stored cfg.ops) (h : (job cfg env).result = .ok ()) :
    JobDelivers worker Stored cfg (rowsSent cfg.ops (job cfg env).trace) := by
  have hrows : rowsSent cfg.ops (job cfg env).trace = rowsSent cfg.ops (run cfg env).trace := by
    unfold rowsSent sentBatches
    rw [observed_job]
  rw [hrows]
  rw [job_result] at h
  unfold JobDelivers
  cases hgroups : cfg.groups with
  | some groups =>
    cases hentry : cfg.revalidation with
    | some entry =>
      dsimp only
      split
      · rename_i hzero
        exact splitRun_rows hserved hforeground (hcomplete entry hentry) hentry hgroups hzero h
      · unfold run
        rw [hentry, hgroups]
        dsimp only
        rw [if_pos (by omega), rowsSent_capture]
    | none =>
      dsimp only
      unfold run at h ⊢
      rw [hentry, hgroups] at h ⊢
      obtain ⟨_, -, h, htrace⟩ := of_bind_ok h
      rw [htrace, rowsSent_append]
      exact execute_unconditional hserved hforeground h
  | none =>
    have hplain : run cfg env = lift env.prepared >>= fun _ => execute cfg env cfg.revalidation none := by
      unfold run
      rw [hgroups]
      cases cfg.revalidation <;> rfl
    rw [hplain] at h ⊢
    obtain ⟨_, -, h, htrace⟩ := of_bind_ok h
    rw [htrace, rowsSent_append]
    dsimp only [execute] at h ⊢
    show if cfg.partition = 0 then Stored ([] ++ _) ∨ worker.Answers cfg.limit none ([] ++ _) else [] ++ _ = []
    rw [List.nil_append]
    by_cases hzero : cfg.partition = 0
    · have hfirst : ¬ 0 < cfg.partition := by omega
      rw [if_neg hfirst] at h ⊢
      rw [if_pos hzero]
      rcases runScan_rows Stored hserved hforeground hcomplete h with hanswers | ⟨-, hstored⟩
      · exact Or.inr hanswers
      · exact Or.inl hstored
    · have hlater : 0 < cfg.partition := by omega
      rw [if_pos hlater, if_neg hzero]
      exact rowsSent_capture cfg.ops cfg .noWork

end

end VgiDatafusion
