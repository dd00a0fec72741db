import VgiDatafusion.Cache.Capture

/-!
# A capture inserts at most once, and all or nothing

`CaptureInv` holds after every list of calls (`captureRun_inv`), whatever the partitions, their order
and what they meet outside. It ties the buffered batches to the calls made so far, the two flags to
each other, and the log to the flags. A finished capture logs nothing more
(`captureStep_finished_log`), so what the invariant says of an insertion is said of the call that
made it.
-/
namespace VgiDatafusion

variable {B : Type}

/-! ## Reading the log and the calls -/

def Effect.memory? : Effect B → Option (MemoryEntry B)
  | .insertMemory entry => some entry
  | _ => none

def Effect.disk? : Effect B → Option (List (Nat × B))
  | .commitDisk batches _ => some batches
  | _ => none

/-- Results inserted into the memory cache, in order. -/
def memoryEntries (log : List (Effect B)) : List (MemoryEntry B) := log.filterMap Effect.memory?

/-- Results committed to the durable cache, in order. -/
def diskEntries (log : List (Effect B)) : List (List (Nat × B)) := log.filterMap Effect.disk?

def CaptureOp.pushes (p : Nat) : CaptureOp B → Option B
  | .pushBatch q batch _ _ => if q = p then some batch else none
  | _ => none

/-- The batches pushed for partition `p`, in order. -/
def pushed (p : Nat) (ops : List (CaptureOp B)) : List B := ops.filterMap (CaptureOp.pushes p)

def CaptureOp.completes (p : Nat) : CaptureOp B → Bool
  | .noWork q _ | .scanned q _ _ => q == p
  | _ => false

/-- The pushed batches of `n` partitions, in partition order. -/
def inPartitionOrder (n : Nat) (ops : List (CaptureOp B)) : List B :=
  (List.range n).flatMap fun p => pushed p ops

/-- No partition pushes after it completed. -/
def pushesFirst (n : Nat) : List (CaptureOp B) → Bool
  | [] => true
  | op :: after => (List.range n).all (fun p => !op.completes p || (pushed p after).isEmpty) && pushesFirst n after

/-- Every partition has an outcome, one of them a scan, and all scans carried one and the same
control. -/
def AllAgreed (outcomes : List (Option Outcome)) : Prop :=
  (∀ o ∈ outcomes, o.isSome) ∧
    ∃ control, some (.scanned (some control)) ∈ outcomes ∧
      ∀ c, some (Outcome.scanned c) ∈ outcomes → c = some control

theorem allAgreed_of_completed {outcomes : List (Option Outcome)} {control : CacheControl}
    (hall : outcomes.any Option.isNone = false) (h : completedScanCacheControl outcomes = .ok control) :
    AllAgreed outcomes := by
  refine ⟨?_, control, ?_⟩
  · intro o ho
    rw [List.any_eq_false] at hall
    cases o with
    | none => exact absurd rfl (hall none ho)
    | some _ => rfl
  · unfold completedScanCacheControl at h
    split at h
    · rename_i first rest hscans
      split at h
      · cases h
      · rename_i hsame
        cases h
        simp only [List.any_eq_true, bne_iff_ne, ne_eq, not_exists, not_and, Decidable.not_not] at hsame
        have hmem : ∀ c, some (Outcome.scanned c) ∈ outcomes ↔ c ∈ some control :: rest := by
          intro c
          rw [← hscans, List.mem_filterMap]
          constructor
          · intro hc
            exact ⟨_, hc, rfl⟩
          · rintro ⟨o, ho, hscanned⟩
            cases o with
            | none => cases hscanned
            | some o => cases o with
              | noWork => cases hscanned
              | scanned c' =>
                cases hscanned
                exact ho
        refine ⟨(hmem _).2 List.mem_cons_self, ?_⟩
        intro c hc
        rcases List.mem_cons.1 ((hmem c).1 hc) with rfl | hrest
        · rfl
        · exact hsame c hrest
    · cases h

/-! ## The invariant -/

/-- What holds after any calls of the partitions: the buffers are the pushes so far, unless the capture is over or gave up
memory. -/
structure CaptureInv (cfg : CaptureConfig B) (ops : List (CaptureOp B)) (s : Capture B) : Prop where
  partitions : s.partitions.length = cfg.partitions
  outcomes : s.outcomes.length = cfg.partitions
  exclusive : ¬ (s.aborted = true ∧ s.committed = true)
  /-- Nothing was inserted, nor the flight stored, while unfinished. -/
  unfinished : s.finished = false →
    memoryEntries s.log = [] ∧ diskEntries s.log = [] ∧ ∀ f, Effect.flightStored f ∉ s.log
  buffered : s.finished = false → s.dropped = false → s.memoryAbandoned = false →
    s.partitions = (List.range cfg.partitions).map fun p => pushed p ops
  completed : ∀ p o, s.outcomes[p]? = some (some o) → ∃ op ∈ ops, op.completes p = true
  once : (memoryEntries s.log).length ≤ 1 ∧ (diskEntries s.log).length ≤ 1
  agreed : (memoryEntries s.log ≠ [] ∨ diskEntries s.log ≠ []) → AllAgreed s.outcomes
  /-- A memory entry is what had been pushed when the last partition completed. -/
  entries : ∀ entry ∈ memoryEntries s.log, ∃ before after, ops = before ++ after ∧
    entry.batches = inPartitionOrder cfg.partitions before ∧
      ∀ p < cfg.partitions, ∃ op ∈ before, op.completes p = true
  stored : ∀ f, .flightStored f ∈ s.log → s.committed = true
  abandoned : ∀ f reason, .flightAborted f reason ∈ s.log → s.committed = false ∧ (s.aborted = true ∨ s.dropped = true)

theorem captureInv_new (cfg : CaptureConfig B) : CaptureInv cfg [] (Capture.new cfg) where
  partitions := List.length_replicate
  outcomes := List.length_replicate
  exclusive := by simp [Capture.new]
  unfinished _ := ⟨rfl, rfl, by simp [Capture.new]⟩
  buffered _ _ _ := by
    simp only [Capture.new, pushed, List.filterMap_nil]
    rw [List.map_const', List.length_range]
  completed p o h := by
    simp only [Capture.new, List.getElem?_replicate] at h
    split at h <;> cases h
  once := by simp [Capture.new, memoryEntries, diskEntries]
  agreed h := by simp [Capture.new, memoryEntries, diskEntries] at h
  entries entry h := by simp [Capture.new, memoryEntries] at h
  stored f h := by simp [Capture.new] at h
  abandoned f reason h := by simp [Capture.new] at h

/-! ## What a call may do to it -/

variable {cfg : CaptureConfig B} {ops : List (CaptureOp B)} {op : CaptureOp B} {s s' : Capture B}

theorem finished_eq_false : s.finished = false ↔ s.aborted = false ∧ s.committed = false := by
  simp [Capture.finished]

theorem pushed_concat (p : Nat) (ops : List (CaptureOp B)) (op : CaptureOp B) :
    pushed p (ops ++ [op]) = pushed p ops ++ (op.pushes p).toList := by
  simp only [pushed, List.filterMap_append]
  cases hop : op.pushes p <;> simp [hop]

theorem memoryEntries_append (xs ys : List (Effect B)) :
    memoryEntries (xs ++ ys) = memoryEntries xs ++ memoryEntries ys := List.filterMap_append

theorem diskEntries_append (xs ys : List (Effect B)) :
    diskEntries (xs ++ ys) = diskEntries xs ++ diskEntries ys := List.filterMap_append

theorem flightAborts_inert (s : Capture B) (reason : String) :
    memoryEntries (s.flightAborts reason) = [] ∧ diskEntries (s.flightAborts reason) = [] ∧
      ∀ f, .flightStored f ∉ s.flightAborts reason := by
  unfold Capture.flightAborts
  cases s.flight <;> simp [memoryEntries, diskEntries, Effect.memory?, Effect.disk?]

theorem flightStores_inert (s : Capture B) :
    memoryEntries s.flightStores = [] ∧ diskEntries s.flightStores = [] ∧
      ∀ f reason, .flightAborted f reason ∉ s.flightStores := by
  unfold Capture.flightStores
  cases s.flight <;> simp [memoryEntries, diskEntries, Effect.memory?, Effect.disk?]

namespace CaptureInv

/-- The completions so far, after a call that completes nothing. -/
theorem completed_concat (h : CaptureInv cfg ops s) (op : CaptureOp B) :
    ∀ p o, s.outcomes[p]? = some (some o) → ∃ op' ∈ ops ++ [op], op'.completes p = true := by
  intro p o hp
  obtain ⟨op', hop', hcompletes⟩ := h.completed p o hp
  exact ⟨op', List.mem_append_left _ hop', hcompletes⟩

/-- The entries so far are still what had been pushed when they were made. -/
theorem entries_concat (h : CaptureInv cfg ops s) (op : CaptureOp B) :
    ∀ entry ∈ memoryEntries s.log, ∃ before after, ops ++ [op] = before ++ after ∧
      entry.batches = inPartitionOrder cfg.partitions before ∧
        ∀ p < cfg.partitions, ∃ op' ∈ before, op'.completes p = true := by
  intro entry hentry
  obtain ⟨before, after, rfl, hbatches, hall⟩ := h.entries entry hentry
  exact ⟨before, after ++ [op], by simp, hbatches, hall⟩

/-- A call that leaves what the invariant reads, and pushes nothing that counts. -/
theorem keep (h : CaptureInv cfg ops s) (hpartitions : s'.partitions = s.partitions)
    (houtcomes : s'.outcomes = s.outcomes) (haborted : s'.aborted = s.aborted)
    (hcommitted : s'.committed = s.committed) (habandoned : s'.memoryAbandoned = s.memoryAbandoned)
    (hdropped : s'.dropped = s.dropped) (hlog : s'.log = s.log)
    (hpush : s.finished = false → s.dropped = false → s.memoryAbandoned = false →
      ∀ p < cfg.partitions, op.pushes p = none) : CaptureInv cfg (ops ++ [op]) s' := by
  have hfinished : s'.finished = s.finished := by simp [Capture.finished, haborted, hcommitted]
  refine ⟨?_, ?_, ?_, ?_, ?_, ?_, ?_, ?_, ?_, ?_, ?_⟩
  · rw [hpartitions]; exact h.partitions
  · rw [houtcomes]; exact h.outcomes
  · rw [haborted, hcommitted]; exact h.exclusive
  · rw [hfinished, hlog]; exact h.unfinished
  · rw [hfinished, hdropped, habandoned, hpartitions]
    intro hunfinished hlive hmemory
    rw [h.buffered hunfinished hlive hmemory]
    refine List.map_congr_left fun p hp => ?_
    rw [pushed_concat, hpush hunfinished hlive hmemory p (List.mem_range.1 hp)]
    simp
  · rw [houtcomes]; exact h.completed_concat op
  · rw [hlog]; exact h.once
  · rw [hlog, houtcomes]; exact h.agreed
  · rw [hlog]; exact h.entries_concat op
  · rw [hlog, hcommitted]; exact h.stored
  · rw [hlog, hcommitted, haborted, hdropped]; exact h.abandoned

/-- A call that finishes the capture, with what it appends to the log. -/
theorem close {extra : List (Effect B)} (h : CaptureInv cfg ops s) (hunfinished : s.finished = false)
    (hlive : s.dropped = false) (hpush : ∀ p, op.pushes p = none)
    (hpartitions : s'.partitions.length = cfg.partitions) (houtcomes : s'.outcomes.length = cfg.partitions)
    (hflags : (s'.aborted = true ∧ s'.committed = false) ∨ (s'.aborted = false ∧ s'.committed = true))
    (hlog : s'.log = s.log ++ extra)
    (hcompleted : ∀ p o, s'.outcomes[p]? = some (some o) → ∃ op' ∈ ops ++ [op], op'.completes p = true)
    (hmemory : memoryEntries extra = [] ∨ ∃ entry, memoryEntries extra = [entry] ∧
      entry.batches = s.partitions.flatten ∧ s.memoryAbandoned = false)
    (hdisk : (diskEntries extra).length ≤ 1)
    (hagreed : memoryEntries extra ≠ [] ∨ diskEntries extra ≠ [] → AllAgreed s'.outcomes)
    (hstored : ∀ f, .flightStored f ∈ extra → s'.committed = true)
    (hgiven : ∀ f reason, .flightAborted f reason ∈ extra → s'.aborted = true) :
    CaptureInv cfg (ops ++ [op]) s' := by
  obtain ⟨hnoMemory, hnoDisk, hnoStored⟩ := h.unfinished hunfinished
  have hfinished : s'.finished = true := by
    rcases hflags with hflags | hflags <;> simp [Capture.finished, hflags]
  have hmemoryLog : memoryEntries s'.log = memoryEntries extra := by
    rw [hlog, memoryEntries_append, hnoMemory, List.nil_append]
  have hdiskLog : diskEntries s'.log = diskEntries extra := by
    rw [hlog, diskEntries_append, hnoDisk, List.nil_append]
  refine ⟨hpartitions, houtcomes, ?_, ?_, ?_, hcompleted, ?_, ?_, ?_, ?_, ?_⟩
  · rcases hflags with hflags | hflags <;> simp [hflags]
  · simp [hfinished]
  · simp [hfinished]
  · rw [hmemoryLog, hdiskLog]
    refine ⟨?_, hdisk⟩
    rcases hmemory with hnil | ⟨entry, hentry, -⟩
    · simp [hnil]
    · simp [hentry]
  · rw [hmemoryLog, hdiskLog]
    exact hagreed
  · intro entry hentry
    rw [hmemoryLog] at hentry
    rcases hmemory with hnil | ⟨entry', hentry', hbatches, habandoned⟩
    · simp [hnil] at hentry
    · obtain rfl : entry = entry' := by simpa [hentry'] using hentry
      refine ⟨ops ++ [op], [], by simp, ?_, ?_⟩
      · rw [hbatches, h.buffered hunfinished hlive habandoned, inPartitionOrder, List.flatMap_def]
        congr 1
        refine List.map_congr_left fun p _ => ?_
        rw [pushed_concat, hpush p]
        simp
      · intro p hp
        obtain ⟨hall, -⟩ := hagreed (Or.inl (by simp [hentry']))
        have hlt : p < s'.outcomes.length := by omega
        obtain ⟨o, ho⟩ := Option.isSome_iff_exists.1 (hall _ (List.getElem_mem hlt))
        exact hcompleted p o (by rw [List.getElem?_eq_getElem hlt, ho])
  · intro f hf
    rw [hlog] at hf
    rcases List.mem_append.1 hf with hf | hf
    · exact absurd hf (hnoStored f)
    · exact hstored f hf
  · intro f reason hf
    rw [hlog] at hf
    rcases List.mem_append.1 hf with hf | hf
    · obtain ⟨-, haborted | hdropped⟩ := h.abandoned f reason hf
      · rw [finished_eq_false] at hunfinished
        simp [hunfinished.1] at haborted
      · simp [hlive] at hdropped
    · have haborted := hgiven f reason hf
      rcases hflags with hflags | hflags
      · exact ⟨hflags.2, Or.inl hflags.1⟩
      · simp [hflags.1] at haborted

end CaptureInv

/-! ## Each call -/

theorem start_inv (h : CaptureInv cfg ops s) (partition : Nat) (diskAccepts : Bool) :
    CaptureInv cfg (ops ++ [.start partition diskAccepts]) (Capture.start cfg s partition diskAccepts) := by
  unfold Capture.start
  by_cases hbegin : (!s.diskCaptureStarted && !s.finished) = true
  · rw [if_pos hbegin]
    exact h.keep rfl rfl rfl rfl rfl rfl rfl (fun _ _ _ _ _ => rfl)
  · rw [if_neg hbegin]
    exact h.keep rfl rfl rfl rfl rfl rfl rfl (fun _ _ _ _ _ => rfl)

theorem setFlight_inv (h : CaptureInv cfg ops s) (flight : Nat) :
    CaptureInv cfg (ops ++ [.setFlight flight]) (s.setFlight flight) := by
  unfold Capture.setFlight
  split
  · exact h.keep rfl rfl rfl rfl rfl rfl rfl (fun _ _ _ _ _ => rfl)
  · exact h.keep rfl rfl rfl rfl rfl rfl rfl (fun _ _ _ _ _ => rfl)

theorem drop_inv (h : CaptureInv cfg ops s) : CaptureInv cfg (ops ++ [.drop]) s.drop := by
  have hlog : memoryEntries s.drop.log = memoryEntries s.log ∧ diskEntries s.drop.log = diskEntries s.log ∧
      ∀ f, .flightStored f ∈ s.drop.log → .flightStored f ∈ s.log := by
    unfold Capture.drop
    dsimp only
    split
    · obtain ⟨hmemory, hdisk, hstored⟩ := flightAborts_inert s "execution ended before every partition completed"
      refine ⟨by simp [memoryEntries_append, hmemory], by simp [diskEntries_append, hdisk], ?_⟩
      intro f hf
      rcases List.mem_append.1 hf with hf | hf
      · exact hf
      · exact absurd hf (hstored f)
    · simp
  obtain ⟨hmemory, hdisk, hstored⟩ := hlog
  refine ⟨h.partitions, h.outcomes, h.exclusive, ?_, ?_, h.completed_concat _, ?_, ?_, ?_, ?_, ?_⟩
  · intro hopen
    obtain ⟨hnoMemory, hnoDisk, hnoStored⟩ := h.unfinished hopen
    exact ⟨hmemory.trans hnoMemory, hdisk.trans hnoDisk, fun f hf => hnoStored f (hstored f hf)⟩
  · intro _ hdropped _
    cases hdropped
  · rw [hmemory, hdisk]
    exact h.once
  · rw [hmemory, hdisk]
    exact h.agreed
  · rw [hmemory]
    exact h.entries_concat _
  · intro f hf
    exact h.stored f (hstored f hf)
  · intro f reason hf
    refine ⟨?_, Or.inr rfl⟩
    rcases List.mem_append.1 hf with hf | hf
    · exact (h.abandoned f reason hf).1
    · split at hf
      · rename_i hopen
        simp only [Bool.and_eq_true, Bool.not_eq_true'] at hopen
        exact (finished_eq_false.1 hopen.1).2
      · simp at hf

section
variable (h : CaptureInv cfg ops s) (hlive : s.dropped = false)
include h hlive

theorem abort_inv (reason : String) : CaptureInv cfg (ops ++ [.abort reason]) (s.abort reason) := by
  unfold Capture.abort
  split
  · exact h.keep rfl rfl rfl rfl rfl rfl rfl (fun _ _ _ _ _ => rfl)
  · rename_i hfinished
    rw [Bool.not_eq_true] at hfinished
    have hflags := finished_eq_false.1 hfinished
    obtain ⟨hmemory, hdisk, hstored⟩ := flightAborts_inert s reason
    refine h.close hfinished hlive (fun _ => rfl) ?_ h.outcomes (Or.inl ⟨rfl, hflags.2⟩) rfl
      (h.completed_concat _) (Or.inl hmemory) (by simp [hdisk]) (by simp [hmemory, hdisk])
      (fun f hf => absurd hf (hstored f)) (fun _ _ _ => rfl)
    simp [Capture.cleared, h.partitions]

theorem revalidated_inv : CaptureInv cfg (ops ++ [.revalidated]) s.revalidated := by
  unfold Capture.revalidated
  split
  · exact h.keep rfl rfl rfl rfl rfl rfl rfl (fun _ _ _ _ _ => rfl)
  · rename_i hfinished
    rw [Bool.not_eq_true] at hfinished
    have hflags := finished_eq_false.1 hfinished
    obtain ⟨hmemory, hdisk, hgiven⟩ := flightStores_inert s
    exact h.close hfinished hlive (fun _ => rfl) h.partitions h.outcomes (Or.inr ⟨hflags.1, rfl⟩) rfl
      (h.completed_concat _) (Or.inl hmemory) (by simp [hdisk]) (by simp [hmemory, hdisk])
      (fun _ _ => rfl) (fun f reason hf => absurd hf (hgiven f reason))

theorem discardUnstarted_inv : CaptureInv cfg (ops ++ [.discardUnstarted]) s.discardUnstarted := by
  unfold Capture.discardUnstarted
  split
  · exact h.keep rfl rfl rfl rfl rfl rfl rfl (fun _ _ _ _ _ => rfl)
  · rename_i hopen
    simp only [Bool.or_eq_true, not_or, Bool.not_eq_true] at hopen
    have hflags := finished_eq_false.1 hopen.1
    refine h.close hopen.1 hlive (fun _ => rfl) ?_ h.outcomes (Or.inl ⟨rfl, hflags.2⟩)
      (List.append_nil _).symm (h.completed_concat _) (Or.inl rfl) (by simp [diskEntries])
      (by simp [memoryEntries, diskEntries]) (by simp) (by simp)
    simp [Capture.cleared, h.partitions]

/-- A batch goes to the end of its partition's buffer, or the buffers are given up for good. -/
theorem pushBatch_inv (partition : Nat) (batch : B) (diskAccepts : Bool) (maxEntryBytes : Nat) :
    CaptureInv cfg (ops ++ [.pushBatch partition batch diskAccepts maxEntryBytes])
      (Capture.pushBatch cfg s partition batch diskAccepts maxEntryBytes) := by
  unfold Capture.pushBatch
  split
  · -- finished, or a partition there is no buffer for
    rename_i hignored
    refine h.keep rfl rfl rfl rfl rfl rfl rfl ?_
    intro hopen _ _ p hp
    simp only [Bool.or_eq_true, hopen, Bool.false_eq_true, false_or, decide_eq_true_eq, h.partitions] at hignored
    have hne : partition ≠ p := by omega
    simp [CaptureOp.pushes, hne]
  · rename_i haccepted
    simp only [Bool.or_eq_true, decide_eq_true_eq, not_or, Bool.not_eq_true, h.partitions] at haccepted
    obtain ⟨hopen, hlt⟩ := haccepted
    dsimp only
    split
    · rename_i habandoned
      refine h.keep rfl rfl rfl rfl rfl rfl rfl ?_
      intro _ _ hnot
      simp [hnot] at habandoned
    · rename_i hbuffers
      rw [Bool.not_eq_true] at hbuffers
      split
      · exact ⟨by simp [Capture.cleared, h.partitions], h.outcomes, h.exclusive, h.unfinished, by simp,
          h.completed_concat _, h.once, h.agreed, h.entries_concat _, h.stored, h.abandoned⟩
      · refine ⟨by simp [h.partitions], h.outcomes, h.exclusive, h.unfinished, ?_,
          h.completed_concat _, h.once, h.agreed, h.entries_concat _, h.stored, h.abandoned⟩
        intro _ _ _
        show s.partitions.modify partition (· ++ [batch]) = _
        rw [h.buffered hopen hlive hbuffers]
        refine List.ext_getElem (by simp) fun p hp _ => ?_
        by_cases hpartition : partition = p
        · subst hpartition
          simp [pushed_concat, CaptureOp.pushes]
        · simp [pushed_concat, CaptureOp.pushes, hpartition]

end

/-! ## Completions -/

/-- What the tiers receive: at most one durable commit, then the memory entry if it fits. -/
theorem publishEffects_inert (cfg : CaptureConfig B) (s : Capture B) (env : Publication) (control : CacheControl)
    (freshness : Freshness) :
    memoryEntries (Capture.publishEffects cfg s env control freshness) =
        (if s.fitsMemory freshness env.limits then [s.memoryEntry freshness control] else []) ∧
      (diskEntries (Capture.publishEffects cfg s env control freshness)).length ≤ 1 ∧
      (∀ f, .flightStored f ∉ Capture.publishEffects cfg s env control freshness) ∧
        ∀ f reason, .flightAborted f reason ∉ Capture.publishEffects cfg s env control freshness := by
  unfold Capture.publishEffects
  by_cases hfits : s.fitsMemory freshness env.limits = true <;>
    by_cases hcommit : (cfg.durable && env.commit == .stored) = true <;>
    by_cases hreap : (!freshness.immediatelyStale && freshness.expired) = true <;>
    cases s.diskCapture <;>
    simp [hfits, hcommit, hreap, memoryEntries, diskEntries, List.filterMap_cons, Effect.memory?, Effect.disk?]

theorem refusal_inert (s : Capture B) (reason : String) :
    memoryEntries (.removeMemory :: s.flightAborts reason) = [] ∧
      diskEntries (.removeMemory :: s.flightAborts reason) = [] ∧
        ∀ f, .flightStored f ∉ (.removeMemory :: s.flightAborts reason : List (Effect B)) := by
  obtain ⟨hmemory, hdisk, hstored⟩ := flightAborts_inert s reason
  refine ⟨hmemory, hdisk, ?_⟩
  intro f hf
  rcases List.mem_cons.1 hf with hf | hf
  · cases hf
  · exact hstored f hf

section
variable {outcomes : List (Option Outcome)} (h : CaptureInv cfg ops s) (hopen : s.finished = false)
  (hlive : s.dropped = false) (hpush : ∀ p, op.pushes p = none) (houtcomes : outcomes.length = cfg.partitions)
  (hcompleted : ∀ p o, outcomes[p]? = some (some o) → ∃ op' ∈ ops ++ [op], op'.completes p = true)
include h hopen hlive hpush houtcomes hcompleted

theorem refuseCompleted_inv (reason : String) :
    CaptureInv cfg (ops ++ [op]) (Capture.refuseCompleted { s with outcomes := outcomes } reason) := by
  obtain ⟨hmemory, hdisk, hstored⟩ := refusal_inert s reason
  have hflags := finished_eq_false.1 hopen
  exact h.close hopen hlive hpush (by simp [Capture.refuseCompleted, Capture.cleared, h.partitions]) houtcomes
    (Or.inl ⟨rfl, hflags.2⟩) rfl hcompleted (Or.inl hmemory) (by erw [hdisk]; simp)
    (fun hnone => hnone.elim (absurd hmemory) (absurd hdisk)) (fun f hf => absurd hf (hstored f)) (fun _ _ _ => rfl)

theorem publish_inv (hagreed : AllAgreed outcomes) (env : Publication) (control : CacheControl) :
    CaptureInv cfg (ops ++ [op]) (Capture.publish cfg { s with outcomes := outcomes } env control) := by
  have hflags := finished_eq_false.1 hopen
  unfold Capture.publish
  dsimp only
  split
  · rename_i reason _
    obtain ⟨hmemory, hdisk, hstored⟩ := refusal_inert s ("cache refused result: " ++ reason)
    exact h.close hopen hlive hpush h.partitions houtcomes (Or.inl ⟨rfl, hflags.2⟩) rfl hcompleted (Or.inl hmemory)
      (by erw [hdisk]; simp) (fun _ => hagreed) (fun f hf => absurd hf (hstored f)) (fun _ _ _ => rfl)
  · rename_i freshness _
    generalize hstorage : scanCacheStorageControl control cfg.durableRevalidation = storage
    obtain ⟨hmemory, hdisk, hnoStored, hnoAborted⟩ :=
      publishEffects_inert cfg { s with outcomes := outcomes } env storage freshness
    -- an entry is inserted only while the buffers were kept
    have hinserted : ∀ tail : List (Effect B), memoryEntries tail = [] →
        memoryEntries (Capture.publishEffects cfg { s with outcomes := outcomes } env storage freshness ++ tail) = [] ∨
          ∃ entry, memoryEntries
              (Capture.publishEffects cfg { s with outcomes := outcomes } env storage freshness ++ tail) = [entry] ∧
            entry.batches = s.partitions.flatten ∧ s.memoryAbandoned = false := by
      intro tail htail
      rw [memoryEntries_append, htail, List.append_nil, hmemory]
      split
      · rename_i hfits
        simp only [Capture.fitsMemory, Bool.and_eq_true, Bool.not_eq_true'] at hfits
        exact Or.inr ⟨_, rfl, rfl, hfits.1.1.1.2⟩
      · exact Or.inl rfl
    split
    · obtain ⟨hnone, hnoDisk, hgiven⟩ := flightStores_inert { s with outcomes := outcomes }
      refine h.close hopen hlive hpush h.partitions houtcomes (Or.inr ⟨hflags.1, rfl⟩) rfl hcompleted
        (hinserted _ hnone) ?_ (fun _ => hagreed) (fun _ _ => rfl) ?_
      · rw [diskEntries_append, hnoDisk, List.append_nil]
        exact hdisk
      · intro f reason hf
        rcases List.mem_append.1 hf with hf | hf
        · exact absurd hf (hnoAborted f reason)
        · exact absurd hf (hgiven f reason)
    · obtain ⟨hnone, hnoDisk, hstored⟩ :=
        flightAborts_inert { s with outcomes := outcomes } "result fit neither configured cache tier"
      refine h.close hopen hlive hpush h.partitions houtcomes (Or.inl ⟨rfl, hflags.2⟩) rfl hcompleted
        (hinserted _ hnone) ?_ (fun _ => hagreed) ?_ (fun _ _ _ => rfl)
      · rw [diskEntries_append, hnoDisk, List.append_nil]
        exact hdisk
      · intro f hf
        rcases List.mem_append.1 hf with hf | hf
        · exact absurd hf (hnoStored f)
        · exact absurd hf (hstored f)

end

/-- A completion records its outcome; the last one publishes or refuses. -/
theorem complete_inv (h : CaptureInv cfg ops s) (hlive : s.dropped = false) (partition : Nat) (outcome : Outcome)
    (env : Publication) (hpush : ∀ p, op.pushes p = none) (hop : op.completes partition = true) :
    CaptureInv cfg (ops ++ [op]) (Capture.complete cfg s partition outcome env) := by
  unfold Capture.complete
  split
  · exact h.keep rfl rfl rfl rfl rfl rfl rfl (fun _ _ _ p _ => hpush p)
  · rename_i haccepted
    simp only [Bool.or_eq_true, decide_eq_true_eq, not_or, Bool.not_eq_true] at haccepted
    have hopen := haccepted.1
    split
    · have hlength : (s.outcomes.set partition (some outcome)).length = cfg.partitions := by simp [h.outcomes]
      have hcompleted : ∀ p o, (s.outcomes.set partition (some outcome))[p]? = some (some o) →
          ∃ op' ∈ ops ++ [op], op'.completes p = true := by
        intro p o hp
        by_cases hpartition : partition = p
        · subst hpartition
          exact ⟨op, by simp, hop⟩
        · rw [List.getElem?_set_ne hpartition] at hp
          exact h.completed_concat op p o hp
      dsimp only
      split
      · obtain ⟨hnoMemory, hnoDisk, -⟩ := h.unfinished hopen
        refine ⟨h.partitions, hlength, h.exclusive, h.unfinished, ?_, hcompleted, h.once, ?_, h.entries_concat op,
          h.stored, h.abandoned⟩
        · intro _ _ hbuffers
          show s.partitions = _
          rw [h.buffered hopen hlive hbuffers]
          refine List.map_congr_left fun p _ => ?_
          simp [pushed_concat, hpush p]
        · intro hinserted
          exact hinserted.elim (absurd hnoMemory) (absurd hnoDisk)
      · rename_i hall
        rw [Bool.not_eq_true] at hall
        split
        · exact refuseCompleted_inv h hopen hlive hpush hlength hcompleted _
        · rename_i control hcontrol
          exact publish_inv h hopen hlive hpush hlength hcompleted (allAgreed_of_completed hall hcontrol) env control
    · exact h.keep rfl rfl rfl rfl rfl rfl rfl (fun _ _ _ p _ => hpush p)

theorem captureStep_inv (h : CaptureInv cfg ops s) : CaptureInv cfg (ops ++ [op]) (captureStep cfg s op) := by
  unfold captureStep
  split
  · rename_i hdropped
    refine h.keep rfl rfl rfl rfl rfl rfl rfl ?_
    intro _ hlive
    simp [hlive] at hdropped
  · rename_i hlive
    rw [Bool.not_eq_true] at hlive
    cases op with
    | start partition diskAccepts => exact start_inv h partition diskAccepts
    | pushBatch partition batch diskAccepts maxEntryBytes =>
      exact pushBatch_inv h hlive partition batch diskAccepts maxEntryBytes
    | noWork partition env =>
      exact complete_inv h hlive partition .noWork env (fun _ => rfl) (by simp [CaptureOp.completes])
    | scanned partition control env =>
      exact complete_inv h hlive partition (.scanned control) env (fun _ => rfl) (by simp [CaptureOp.completes])
    | abort reason => exact abort_inv h hlive reason
    | revalidated => exact revalidated_inv h hlive
    | discardUnstarted => exact discardUnstarted_inv h hlive
    | setFlight flight => exact setFlight_inv h flight
    | drop => exact drop_inv h

theorem captureRun_inv (cfg : CaptureConfig B) (ops : List (CaptureOp B)) :
    CaptureInv cfg ops (captureRun cfg ops) :=
  StepSystem.run_invariant (captureInv_new cfg) (fun _ _ _ h => captureStep_inv h) ops

/-! ## After the capture finished -/

theorem captureStep_finished_log (hfinished : s.finished = true) :
    (captureStep cfg s op).finished = true ∧ (captureStep cfg s op).log = s.log := by
  unfold captureStep
  split
  · exact ⟨hfinished, rfl⟩
  · cases op with
    | start partition diskAccepts =>
      simp only [Capture.start, hfinished, Bool.not_true, Bool.and_false, Bool.false_eq_true, if_false, and_true]
      exact hfinished
    | pushBatch partition batch diskAccepts maxEntryBytes => simp [Capture.pushBatch, hfinished]
    | noWork partition env => simp [Capture.complete, hfinished]
    | scanned partition control env => simp [Capture.complete, hfinished]
    | abort reason => simp [Capture.abort, hfinished]
    | revalidated => simp [Capture.revalidated, hfinished]
    | discardUnstarted => simp [Capture.discardUnstarted, hfinished]
    | setFlight flight =>
      dsimp only [Capture.setFlight]
      split
      · exact ⟨hfinished, rfl⟩
      · exact ⟨hfinished, rfl⟩
    | drop =>
      simp only [Capture.drop, hfinished, Bool.not_true, Bool.false_and, Bool.false_eq_true, if_false,
        List.append_nil, and_true]
      exact hfinished

theorem captureRun_finished_log (hfinished : (captureRun cfg ops).finished = true) (later : List (CaptureOp B)) :
    (captureRun cfg (ops ++ later)).log = (captureRun cfg ops).log := by
  unfold captureRun
  rw [List.foldl_append]
  exact StepSystem.run_frame (P := fun s => s.finished = true) (fun _ _ h => (captureStep_finished_log h).1)
    (fun _ _ h => (captureStep_finished_log h).2) later _ hfinished

/-- The call `op` after `before` inserts a result into a cache. -/
def Inserts (cfg : CaptureConfig B) (before : List (CaptureOp B)) (op : CaptureOp B) : Prop :=
  memoryEntries (captureRun cfg (before ++ [op])).log ≠ memoryEntries (captureRun cfg before).log ∨
    diskEntries (captureRun cfg (before ++ [op])).log ≠ diskEntries (captureRun cfg before).log

/-- An insertion finishes the capture. -/
theorem Inserts.finished {before : List (CaptureOp B)} (h : Inserts cfg before op) :
    (captureRun cfg (before ++ [op])).finished = true := by
  by_cases hbefore : (captureRun cfg before).finished = true
  · -- then nothing was logged at all
    have hlog := captureRun_finished_log hbefore [op]
    rcases h with h | h
    · exact absurd (congrArg memoryEntries hlog) h
    · exact absurd (congrArg diskEntries hlog) h
  · rw [Bool.not_eq_true] at hbefore
    obtain ⟨hmemory, hdisk, -⟩ := (captureRun_inv cfg before).unfinished hbefore
    by_cases hafter : (captureRun cfg (before ++ [op])).finished = true
    · exact hafter
    · rw [Bool.not_eq_true] at hafter
      obtain ⟨hmemory', hdisk', -⟩ := (captureRun_inv cfg (before ++ [op])).unfinished hafter
      rcases h with h | h
      · exact absurd (hmemory'.trans hmemory.symm) h
      · exact absurd (hdisk'.trans hdisk.symm) h

theorem not_inserts_of_finished {before : List (CaptureOp B)} (h : (captureRun cfg before).finished = true)
    (later : List (CaptureOp B)) (op : CaptureOp B) : ¬ Inserts cfg (before ++ later) op := by
  have hlog : (captureRun cfg (before ++ later ++ [op])).log = (captureRun cfg (before ++ later)).log := by
    rw [List.append_assoc, captureRun_finished_log h, captureRun_finished_log h]
  rintro (hinserts | hinserts)
  · exact hinserts (congrArg memoryEntries hlog)
  · exact hinserts (congrArg diskEntries hlog)

theorem pushed_after_completes {n p : Nat} (hp : p < n) {after : List (CaptureOp B)} :
    ∀ {before : List (CaptureOp B)}, pushesFirst n (before ++ op :: after) = true → op.completes p = true →
      pushed p after = []
  | [], h, hcompletes => by
    simp only [List.nil_append, pushesFirst, Bool.and_eq_true, List.all_eq_true, List.mem_range] at h
    simpa [hcompletes] using h.1 p hp
  | _ :: _, h, hcompletes => by
    simp only [List.cons_append, pushesFirst, Bool.and_eq_true] at h
    exact pushed_after_completes hp h.2 hcompletes

/-- Partitions that complete after their pushes have no pushes left out. -/
theorem inPartitionOrder_of_completed {n : Nat} {before after : List (CaptureOp B)}
    (hfirst : pushesFirst n (before ++ after) = true) (hall : ∀ p < n, ∃ op ∈ before, op.completes p = true) :
    inPartitionOrder n before = inPartitionOrder n (before ++ after) := by
  unfold inPartitionOrder
  rw [List.flatMap_def, List.flatMap_def]
  congr 1
  refine List.map_congr_left fun p hp => ?_
  rw [List.mem_range] at hp
  obtain ⟨op, hop, hcompletes⟩ := hall p hp
  obtain ⟨pre, post, rfl⟩ := List.append_of_mem hop
  rw [List.append_assoc, List.cons_append] at hfirst
  have hnone := pushed_after_completes hp hfirst hcompletes
  simp only [pushed, List.filterMap_append, List.append_eq_nil_iff] at hnone ⊢
  simp [hnone.2]

/-- **A capture is atomic.** Over every list of calls: one call at most inserts, with at most one
entry a tier, and only once all partitions agreed; with pushes before completions the memory entry is
all that was pushed, in partition order; and the flight is told what happened. -/
theorem capture_atomic (cfg : CaptureConfig B) (ops : List (CaptureOp B)) :
    ((∀ before op between op' after, ops = before ++ op :: (between ++ op' :: after) →
        Inserts cfg before op → ¬ Inserts cfg (before ++ op :: between) op') ∧
      (memoryEntries (captureRun cfg ops).log).length ≤ 1 ∧ (diskEntries (captureRun cfg ops).log).length ≤ 1) ∧
    (∀ before op after, ops = before ++ op :: after → Inserts cfg before op →
      AllAgreed (captureRun cfg (before ++ [op])).outcomes) ∧
    (pushesFirst cfg.partitions ops = true → ∀ entry ∈ memoryEntries (captureRun cfg ops).log,
      entry.batches = inPartitionOrder cfg.partitions ops) ∧
    ¬ ((captureRun cfg ops).aborted = true ∧ (captureRun cfg ops).committed = true) ∧
    ((captureRun cfg ops).aborted = true ∨ (captureRun cfg ops).committed = true →
      ∀ later op, ¬ Inserts cfg (ops ++ later) op) ∧
    (∀ f, .flightStored f ∈ (captureRun cfg ops).log → (captureRun cfg ops).committed = true) ∧
    ∀ f reason, .flightAborted f reason ∈ (captureRun cfg ops).log →
      (captureRun cfg ops).committed = false ∧
        ((captureRun cfg ops).aborted = true ∨ (captureRun cfg ops).dropped = true) := by
  have hinv := captureRun_inv cfg ops
  refine ⟨⟨?_, hinv.once⟩, ?_, ?_, hinv.exclusive, ?_, hinv.stored, hinv.abandoned⟩
  · intro before op between op' after _ hinserts
    have hlater := not_inserts_of_finished hinserts.finished between op'
    simpa using hlater
  · intro before op after _ hinserts
    apply (captureRun_inv cfg (before ++ [op])).agreed
    by_cases hbefore : (captureRun cfg before).finished = true
    · have hnot := not_inserts_of_finished hbefore [] op
      rw [List.append_nil] at hnot
      exact absurd hinserts hnot
    · rw [Bool.not_eq_true] at hbefore
      obtain ⟨hmemory, hdisk, -⟩ := (captureRun_inv cfg before).unfinished hbefore
      unfold Inserts at hinserts
      rwa [hmemory, hdisk] at hinserts
  · intro hfirst entry hentry
    obtain ⟨before, after, rfl, hbatches, hall⟩ := hinv.entries entry hentry
    rw [hbatches]
    exact inPartitionOrder_of_completed hfirst hall
  · intro hfinished later op
    apply not_inserts_of_finished
    simpa [Capture.finished] using hfinished

/-- Two partitions that both answer with one control; the second pushes and completes first. -/
def interleavedCapture : List (CaptureOp Nat) :=
  let env : Publication :=
    { freshness := fun _ => .ok { immediatelyStale := false, remaining := 60, expired := false }
      commit := .stored
      limits := { maxEntries := 8, maxEntryBytes := 1024, maxTotalBytes := 4096 } }
  let control := some { policy := "max-age=60" }
  [.setFlight 7, .start 1 true, .start 0 true, .pushBatch 1 20 true 1024, .pushBatch 0 10 true 1024,
    .pushBatch 1 21 true 1024, .scanned 1 control env, .scanned 0 control env, .drop]

def smallCapture : CaptureConfig Nat where
  partitions := 2
  durable := true
  durableRevalidation := false
  bytes := fun _ => 8

theorem capture_atomic_interleaved :
    (memoryEntries (captureRun smallCapture interleavedCapture).log).map MemoryEntry.batches = [[10, 20, 21]] ∧
      diskEntries (captureRun smallCapture interleavedCapture).log = [[(1, 20), (0, 10), (1, 21)]] ∧
      ∀ entry ∈ memoryEntries (captureRun smallCapture interleavedCapture).log,
        entry.batches = inPartitionOrder 2 interleavedCapture :=
  ⟨rfl, rfl, (capture_atomic smallCapture interleavedCapture).2.2.1 rfl⟩

end VgiDatafusion
