import VgiDatafusion.Library.Traced
import VgiDatafusion.Cache.Capture

/-!
# The job of one partition (lib.rs:2410-2609, 4806-5418)

| here | there |
| --- | --- |
| `Revalidation` | `ScanCacheRevalidation`, the stale entry selected for this plan |
| `replay`, `removeSelected`, `refreshSelected` | its methods of those names |
| `validationWave` | the loop over the nonempty split groups (lib.rs:4896-4933) |
| `splitValidation` | what follows the loop (lib.rs:4935-5008) |
| `drain` | the loop over the batches of the scan (lib.rs:5074-5194) |
| `notModified` | a conditional scan answered `not_modified` (lib.rs:5270-5394) |
| `job` | `run` and the match on its result (lib.rs:4811-5418) |

The job talks to the worker, the cache tiers, the shared capture and the consumer of the stream; what
it does to them is the trace, what they answer is the `JobEnv`. Metrics, events and the dynamic
filter updates between two batches are left out. The selected entry exists only under a cache key,
so the errors for a missing key are not reached and have no branch here.
-/
namespace VgiDatafusion

abbrev Token := List UInt8

section
variable (B : Type)

/-- A durable generation: each partition opens or fails, and its reader may fail at any batch. -/
structure DiskHit where
  generation : Nat
  etag : Option String := none
  lastModified : Option String := none
  partitions : List (Except String (List (Except String B)))

/-- `ResultCacheEntry` as a job reads it. -/
structure CachedEntry where
  batches : List B
  bytes : Nat
  etag : Option String := none
  lastModified : Option String := none

/-- `ScanCacheRevalidation` (`lib.rs:2372-2378`): the tiers in which the stale generation was found. -/
inductive Revalidation
  | memory (entry : CachedEntry B) (diskCompanion : Option (DiskHit B))
  | disk (hit : DiskHit B)

/-- A worker's answer that was read to its end. -/
structure Answer where
  batches : List B
  control : Option CacheControl

/-- A worker's stream: its batches, then an error or the end. -/
structure WorkerStream extends Answer B where
  failure : Option String := none

/-- A call of `ScanCacheCapture`, whose methods are in `Capture`. -/
inductive CaptureCall
  | start
  | pushBatch (batch : B)
  | noWork
  | scanned (control : Option CacheControl)
  | revalidated
  | abort (reason : String)

/-- What a job does to the channel, the caches, the capture and the worker. -/
inductive JobEffect
  /-- A scan of these tokens, with `if_none_match` and `if_modified_since` when it is conditional. -/
  | scan (tokens : Option (List Token)) (conditions : Option (Option String × Option String))
  | removeMemory
  | removeHit (generation : Nat)
  | slideMemory (control : CacheControl)
  | revalidateHit (generation : Nat) (control : CacheControl)
  /-- A call of `replay`; the batches it sends follow. -/
  | replay
  | send (batch : B)
  | sendError (message : String)
  | capture (call : CaptureCall B)

/-- What the adapter does with batches. -/
structure BatchOps (R : Type) where
  rows : B → List R
  /-- `slice(0, n)`. -/
  slice : B → Nat → B
  rows_slice : ∀ b n, rows (slice b n) = (rows b).take n
  /-- `conform` to the schema of the scan. -/
  conform : B → Except String B
  /-- `conform` to the schema of the cache entry. -/
  conformStorage : B → Except String B

end

/-- The plan, as one partition sees it. -/
structure JobConfig (B R : Type) where
  function : String
  partition : Nat
  ops : BatchOps B R
  /-- The tokens of each group of a split plan. -/
  groups : Option (List (List Token))
  revalidation : Option (Revalidation B)
  limit : Option Nat
  captures : Bool
  background : Bool
  /-- Only a scan without a split plan is refreshed in the background (lib.rs:5453). -/
  foreground : groups.isSome = true → background = false

/-- What the job meets. -/
structure JobEnv (B : Type) where
  /-- Connecting, attaching, binding and the first filter snapshot. -/
  prepared : Except String Unit
  /-- The answer to the i-th conditional scan of the validation wave. -/
  validation : Nat → Except String (Answer B)
  scan : Option (List Token) → Except String (WorkerStream B)
  /-- `freshness_deadline`. -/
  freshness : CacheControl → Except String Freshness
  maxEntryBytes : Nat
  durable : Bool
  slides : Bool
  revalidatesHit : Except String Bool
  removesHit : Except String Unit
  mayServeOnError : Bool
  /-- The consumer still takes the i-th batch of the stream. -/
  takes : Nat → Bool

variable {B R : Type}

namespace Revalidation

/-- `if_none_match` and `if_modified_since`. -/
def conditions : Revalidation B → Option String × Option String
  | .memory entry _ => (entry.etag, entry.lastModified)
  | .disk hit => (hit.etag, hit.lastModified)

/-- The batches of the entry as `replay` reads them. -/
def read : Revalidation B → List (Except String B)
  | .memory entry _ => entry.batches.map .ok
  | .disk hit => hit.partitions.flatMap fun
    | .ok batches => batches
    | .error error => [.error ("VGI durable cache replay failed: " ++ error)]

def consumerDropped : Revalidation B → String
  | .memory .. => "cached revalidation consumer dropped"
  | .disk _ => "durable cached revalidation consumer dropped"

end Revalidation

open Traced

abbrev JobM (B α : Type) := Traced (JobEffect B) α

section
variable (cfg : JobConfig B R) (env : JobEnv B)

/-- The loop of `ScanCacheRevalidation::replay` (`lib.rs:2472-2512`). -/
def sendAll (dropped : String) : Nat → List (Except String B) → JobM B Unit
  | _, [] => pure ()
  | _, .error error :: _ => fail error
  | sent, .ok batch :: rest => do
    let batch ← lift (cfg.ops.conform batch)
    if env.takes sent then
      tell [.send batch]
      sendAll dropped (sent + 1) rest
    else fail dropped

/-- `ScanCacheRevalidation::replay` (`lib.rs:2472-2512`): `sent` batches have gone to the consumer already. -/
def replay (entry : Revalidation B) (sent : Nat) : JobM B Unit := do
  tell [.replay]
  sendAll cfg env entry.consumerDropped sent entry.read

def removeHit (hit : DiskHit B) : JobM B Unit := do
  tell [.removeHit hit.generation]
  match env.removesHit with
  | .ok () => pure ()
  | .error error => fail ("could not remove the selected durable validator generation: " ++ error)

/-- `ScanCacheRevalidation::remove_selected` (`lib.rs:2514-2542`): from each tier it was found in. -/
def removeSelected : Revalidation B → JobM B Unit
  | .memory _ diskCompanion => do
    tell [.removeMemory]
    match env.durable, diskCompanion with
    | true, some hit => removeHit env hit
    | _, _ => pure ()
  | .disk hit => if env.durable then removeHit env hit else pure ()

/-- The durable part of `ScanCacheRevalidation::refresh_selected` (`lib.rs:2544-2609`). -/
def refreshHit (hit : DiskHit B) (control : CacheControl) : JobM B (Revalidation B) :=
  if env.durable then do
    tell [.revalidateHit hit.generation control]
    match env.revalidatesHit with
    | .ok true => pure (.disk hit)
    | .ok false => fail "selected durable validator generation changed before refresh"
    | .error error => fail ("could not refresh the selected durable validator generation: " ++ error)
  else fail "selected durable validator cache is unavailable"

/-- `ScanCacheRevalidation::refresh_selected` (`lib.rs:2544-2609`); an L1 entry over the live cap gives way to its durable
companion. -/
def refreshSelected (control : CacheControl) : Revalidation B → JobM B (Revalidation B)
  | .memory entry diskCompanion =>
    if env.maxEntryBytes < entry.bytes then do
      tell [.removeMemory]
      match diskCompanion with
      | some hit => refreshHit env hit control
      | none => fail "selected L1 validator exceeded the current max_entry_bytes limit"
    else do
      tell [.slideMemory control]
      if env.slides then
        match env.durable, diskCompanion with
        | true, some hit => do
          tell [.revalidateHit hit.generation control]
          match env.revalidatesHit with
          | .ok _ => pure (.memory entry diskCompanion)
          | .error error => fail ("could not refresh the matching durable validator generation: " ++ error)
        | _, _ => pure (.memory entry diskCompanion)
      else fail "selected L1 validator generation changed before refresh"
  | .disk hit => refreshHit env hit control

/-! ## The validation wave of a split result -/

/-- What the loop over the split groups leaves (`lib.rs:4896-4933`). -/
structure Wave where
  agreedControl : Option CacheControl := none
  votes : Nat := 0
  rerun : Bool := false

def Answer.rowCount (answer : Answer B) : Nat :=
  (answer.batches.map fun batch => (cfg.ops.rows batch).length).sum

/-- The control of an answer that says `not_modified`. -/
def Answer.notModified (answer : Answer B) : Option CacheControl := answer.control.filter (·.notModified)

/-- `asked` groups have answered; the batches of an answer are read and dropped. -/
def validationWave (entry : Revalidation B) : Nat → Wave → List (List Token) → JobM B Wave
  | _, wave, [] => pure wave
  | asked, wave, tokens :: groups => do
    tell [.scan (some tokens) (some entry.conditions)]
    let answer ← lift (env.validation asked)
    if answer.notModified.isSome && answer.rowCount cfg != 0 then
      fail ("VGI function `" ++ cfg.function ++ "` returned rows and not_modified together during split validation")
    else match answer.notModified with
      | none => pure { wave with rerun := true }
      | some control =>
        match wave.agreedControl with
        | none => validationWave entry (asked + 1) { wave with agreedControl := some control, votes := wave.votes + 1 } groups
        | some agreed =>
          if agreed != control then pure { wave with votes := wave.votes + 1, rerun := true }
          else validationWave entry (asked + 1) { wave with votes := wave.votes + 1 } groups

def capture (call : CaptureCall B) : JobM B Unit := if cfg.captures then tell [.capture call] else pure ()

/-- What the wave leaves to do: nothing, or an unconditional scan of these tokens. -/
inductive AfterValidation
  | done
  | redeem (tokens : List Token)

/-- The generation is removed and every split group is scanned again. -/
def rerunAll (entry : Revalidation B) (groups : List (List Token)) : JobM B AfterValidation := do
  removeSelected env entry
  pure (.redeem groups.flatten)

/-- A background refresh sends its rows nowhere. -/
def replayForeground (entry : Revalidation B) (sent : Nat) : JobM B Unit :=
  if cfg.background then pure () else replay cfg env entry sent

/-- Every executed group answered `not_modified`: the generation is refreshed and replayed. -/
def replayRefreshed (entry : Revalidation B) (control : CacheControl) : JobM B AfterValidation := do
  let entry ← refreshSelected env control entry
  replayForeground cfg env entry 0
  capture cfg .revalidated
  pure .done

/-- The decision after the wave (`lib.rs:4935-4998`). -/
def afterWave (entry : Revalidation B) (groups : List (List Token)) (wave : Wave) : JobM B AfterValidation :=
  if wave.votes = 0 ∧ groups = [] then do
    removeSelected env entry
    capture cfg .noWork
    pure .done
  else if wave.votes = 0 then
    fail ("VGI function `" ++ cfg.function ++ "` had no executed split group to validate")
  else match wave.rerun, wave.agreedControl with
    | false, some control =>
      match env.freshness control with
      | .ok _ => replayRefreshed cfg env entry control
      | .error _ => rerunAll env entry groups
    -- a vote leaves an agreed control, so without one the code does not get here
    | _, _ => rerunAll env entry groups

/-- The validation of a generation that was planned by splits (`lib.rs:4880-5008`). -/
def splitValidation (entry : Revalidation B) (groups : List (List Token)) : JobM B AfterValidation := do
  let wave ← validationWave cfg env entry 0 {} (groups.filter (!·.isEmpty))
  afterWave cfg env entry groups wave

/-! ## The scan -/

/-- How the loop over a scan's batches ended. -/
inductive Drained
  /-- The stream ended, with so many rows and batches sent. -/
  | ended (emitted sent : Nat)
  | cancelled
  | limited

/-- A batch cut at the pushed limit. -/
def cut (emitted : Nat) (batch : B) : B :=
  match cfg.limit with
  | some l => if l < emitted + (cfg.ops.rows batch).length then cfg.ops.slice batch (l - emitted) else batch
  | none => batch

/-- The scan's limit is met (`lib.rs:5074-5194`). -/
def limitReached (emitted : Nat) : Bool :=
  match cfg.limit with
  | some l => decide (l ≤ emitted)
  | none => false

/-- The capture keeps as many rows as the consumer gets. -/
def pushCaptured (stored : Option B) (rows : Nat) : JobM B Unit :=
  match stored with
  | some stored => tell [.capture (.pushBatch (cfg.ops.slice stored rows))]
  | none => pure ()

/-- `emitted` rows in `sent` batches have gone to the consumer. -/
def drain : Nat → Nat → List B → JobM B Drained
  | emitted, sent, [] => pure (.ended emitted sent)
  | emitted, sent, batch :: rest => do
    let stored ← lift (if cfg.captures then (cfg.ops.conformStorage batch).map some else .ok none)
    let batch ← lift (cfg.ops.conform batch)
    let batch := cut cfg emitted batch
    let emitted := emitted + (cfg.ops.rows batch).length
    pushCaptured cfg stored (cfg.ops.rows batch).length
    if env.takes sent then
      tell [.send batch]
      if limitReached cfg emitted then
        capture cfg (.abort "limit abandoned scan")
        pure .limited
      else drain emitted (sent + 1) rest
    else
      capture cfg (.abort "consumer dropped")
      pure .cancelled

/-- A refresh outside the validation wave: a failing tier is only reported. -/
def slideSelected (control : CacheControl) : Revalidation B → JobM B Unit
  | .memory _ diskCompanion => do
    tell [.slideMemory control]
    match env.durable, diskCompanion with
    | true, some hit => tell [.revalidateHit hit.generation control]
    | _, _ => pure ()
  | .disk hit => if env.durable then tell [.revalidateHit hit.generation control] else pure ()

/-- A complete answer whose control does not let the generation stand (`lib.rs:5195-5210`). -/
def revokeSelected : Revalidation B → JobM B Unit
  | .memory _ diskCompanion => do
    tell [.removeMemory]
    match env.durable, diskCompanion with
    | true, some hit => tell [.removeHit hit.generation]
    | _, _ => pure ()
  | .disk hit => if env.durable then tell [.removeHit hit.generation] else pure ()

/-- The last admission decision before the replay: an L1 entry over the live cap gives way. -/
def admitSelected : Revalidation B → JobM B (Revalidation B)
  | .memory entry diskCompanion =>
    if env.maxEntryBytes < entry.bytes then do
      tell [.removeMemory]
      match diskCompanion with
      | some hit => pure (.disk hit)
      | none => fail ("VGI function `" ++ cfg.function ++ "` returned not_modified after its L1 cache entry " ++
          "exceeded the current max_entry_bytes limit")
    else pure (.memory entry diskCompanion)
  | .disk hit => pure (.disk hit)

/-- A conditional scan answered `not_modified` (`lib.rs:5270-5394`). -/
def notModified (revalidation : Option (Revalidation B)) (control : CacheControl) (emitted sent : Nat) : JobM B Unit :=
  match revalidation with
  | none => fail ("VGI function `" ++ cfg.function ++ "` returned not_modified without a conditional request")
  | some entry =>
    if emitted ≠ 0 then fail ("VGI function `" ++ cfg.function ++ "` returned rows and not_modified together")
    else match env.freshness control with
      | .error reason => do
        revokeSelected env entry
        fail ("VGI function `" ++ cfg.function ++ "` returned not_modified with ineligible cache control: " ++ reason)
      | .ok _ => do
        let entry ← admitSelected cfg env entry
        slideSelected env control entry
        replayForeground cfg env entry sent
        capture cfg .revalidated

/-- The stale entry in place of an answer that failed. -/
def serveStale (entry : Revalidation B) (sent : Nat) : JobM B Unit := do
  replay cfg env entry sent
  capture cfg .revalidated

/-- The generation to serve on an error, if its control allows it. -/
def mayServeStale (revalidation : Option (Revalidation B)) : Option (Revalidation B) :=
  if !cfg.background && env.mayServeOnError then revalidation else none

/-- The scan of a partition, its batches sent and captured (`lib.rs:5009-5269`). -/
def runScan (revalidation : Option (Revalidation B)) (tokens : Option (List Token)) : JobM B Unit := do
  tell [.scan tokens (revalidation.map Revalidation.conditions)]
  match env.scan tokens with
  | .error error =>
    match mayServeStale cfg env revalidation with
    | some entry => serveStale cfg env entry 0
    | none => fail error
  | .ok stream =>
    match ← drain cfg env 0 0 stream.batches with
    | .cancelled => pure ()
    | .limited => pure ()
    | .ended emitted sent =>
      match stream.failure with
      | some error =>
        match if emitted = 0 then mayServeStale cfg env revalidation else none with
        | some entry => serveStale cfg env entry sent
        | none => do
          capture cfg (.abort "worker error")
          fail error
      | none =>
        if limitReached cfg emitted then pure ()
        else match stream.notModified with
          | none => capture cfg (.scanned stream.control)
          | some control => notModified cfg env revalidation control emitted sent

/-- The tokens to redeem, if any; without a split plan partition 0 scans everything. -/
def execute (revalidation : Option (Revalidation B)) (tokens : Option (List Token)) : JobM B Unit :=
  match tokens with
  | some [] => capture cfg .noWork
  | some tokens => runScan cfg env revalidation (some tokens)
  | none => if 0 < cfg.partition then capture cfg .noWork else runScan cfg env revalidation none

/-- `run` (`lib.rs:4811-5394`). -/
def run : JobM B Unit :=
  match cfg.revalidation, cfg.groups with
  | some entry, some groups =>
    if 0 < cfg.partition then capture cfg .noWork
    else do
      lift env.prepared
      match ← splitValidation cfg env entry groups with
      | .done => pure ()
      | .redeem tokens => execute cfg env none (some tokens)
  | revalidation, groups => do
    lift env.prepared
    execute cfg env revalidation (groups.map fun groups => groups.getD cfg.partition [])

/-- The spawned job with the match on its result (`lib.rs:4806-5418`). -/
def job : JobM B Unit :=
  let started : JobM B Unit := do
    capture cfg .start
    run cfg env
  match started.result with
  | .ok () => started
  | .error error =>
    ⟨started.trace ++ (capture cfg (.abort "scan failed")).trace ++ [.sendError error], .error error⟩

end

end VgiDatafusion
