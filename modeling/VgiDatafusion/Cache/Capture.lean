import VgiDatafusion.Library.StepSystem

/-!
# Capturing a scan for the result caches (lib.rs:3094-3171, 3571-3929)

| here | there |
| --- | --- |
| `CacheControl` | `vgi_client::CacheControl`; what the adapter never looks into is `policy` |
| `Outcome` | `ScanCachePartitionOutcome` |
| `completedScanCacheControl`, `executedCacheSubstreams`, `scanCacheStorageControl` | the functions of those names |
| `Capture` | `ScanCacheCaptureState` with the attached flight and the log of effects |
| `Capture.start` … `Capture.drop` | the methods of `ScanCacheCapture` and its `Drop` |
| `CaptureOp`, `captureStep`, `captureRun` | the calls of all partitions in the order the state mutex serialises them |

Every method takes the state mutex first and holds it to its end, so a run of concurrent partitions
is a list of calls. What a call learns from outside (whether the durable cache accepts a capture, a
batch or a commit, the live limits, the freshness deadline) comes with the call. Metrics and event
texts are left out, except the reasons a flight is aborted with.
-/
namespace VgiDatafusion

/-- `vgi_client::CacheControl`, the flags that the adapter looks at and the rest as `policy`. -/
structure CacheControl where
  policy : String
  etag : Option String := none
  lastModified : Option String := none
  revalidatable : Bool := false
  staleWhileRevalidate : Option Nat := none
  staleIfError : Option Nat := none
  notModified : Bool := false
  deriving DecidableEq, Repr

/-- `NoWork`: no split token, so no scan and no policy. `scanned none`: a scan that did not opt into
caching. -/
inductive Outcome
  | noWork
  | scanned (control : Option CacheControl)
  deriving DecidableEq, Repr

/-- The control of a partition that has completed and was scanned; `none` where it had no work. -/
def scannedControl : Option Outcome → Option (Option CacheControl)
  | some (.scanned control) => some control
  | _ => none

/-- `completed_scan_cache_control` (`lib.rs:3128-3148`): all partitions that were scanned must agree. -/
def completedScanCacheControl (outcomes : List (Option Outcome)) : Except String CacheControl :=
  match outcomes.filterMap scannedControl with
  | some control :: rest =>
    if rest.any (· != some control) then .error "split cache controls disagreed or were missing" else .ok control
  | _ => .error "worker did not opt result into caching"

/-- `executed_cache_substreams` (`lib.rs:3150-3156`). -/
def executedCacheSubstreams (outcomes : List (Option Outcome)) : Nat :=
  max (outcomes.filterMap scannedControl).length 1

/-- `scan_cache_storage_control` (`lib.rs:3158-3171`): without revalidation the validators are not kept. -/
def scanCacheStorageControl (control : CacheControl) (allowRevalidation : Bool) : CacheControl :=
  if allowRevalidation then control
  else { control with
    etag := none, lastModified := none, revalidatable := false
    staleWhileRevalidate := none, staleIfError := none }

structure Limits where
  maxEntries : Nat
  maxEntryBytes : Nat
  maxTotalBytes : Nat

/-- `freshness_deadline`'s answer and how the clock reads when it is asked again. -/
structure Freshness where
  immediatelyStale : Bool
  remaining : Nat
  expired : Bool

inductive DiskCommit
  | stored | skipped | failed
  deriving DecidableEq, Repr

/-- What the last completion of a capture meets outside. -/
structure Publication where
  freshness : CacheControl → Except String Freshness
  commit : DiskCommit
  limits : Limits

section
variable (B : Type)

/-- What `ResultCacheEntry` keeps of a scan. -/
structure MemoryEntry where
  batches : List B
  substreams : Nat
  ttl : Nat
  control : CacheControl

/-- What a capture does outside of itself, in the order it does it. -/
inductive Effect
  | insertMemory (entry : MemoryEntry B)
  | commitDisk (batches : List (Nat × B)) (control : CacheControl)
  | reapDisk
  | removeMemory
  | flightStored (flight : Nat)
  | flightAborted (flight : Nat) (reason : String)

/-- `ScanCacheCaptureState` (`lib.rs:3106-3116`) with the flight that is attached to it and the effects so far. -/
structure Capture where
  partitions : List (List B)
  outcomes : List (Option Outcome)
  started : List Bool
  memoryBytes : Nat := 0
  memoryAbandoned : Bool := false
  /-- Batches written to the open durable capture, with their partitions. -/
  diskCapture : Option (List (Nat × B)) := none
  diskCaptureStarted : Bool := false
  aborted : Bool := false
  committed : Bool := false
  flight : Option Nat := none
  dropped : Bool := false
  log : List (Effect B) := []

end

/-- What does not change over a capture's life. -/
structure CaptureConfig (B : Type) where
  partitions : Nat
  /-- A durable result cache is configured. -/
  durable : Bool
  durableRevalidation : Bool
  /-- The memory size of a batch's arrays. -/
  bytes : B → Nat

namespace Capture

variable {B : Type} (cfg : CaptureConfig B)

/-- `ScanCacheCapture::new` (`lib.rs:3572-3603`). -/
def new : Capture B where
  partitions := List.replicate cfg.partitions []
  outcomes := List.replicate cfg.partitions none
  started := List.replicate cfg.partitions false

variable (s : Capture B)

/-- No longer accepts anything. -/
def finished : Bool := s.aborted || s.committed

def cleared : List (List B) := s.partitions.map fun _ => []

def flightAborts (reason : String) : List (Effect B) := (s.flight.map (Effect.flightAborted · reason)).toList

def flightStores : List (Effect B) := (s.flight.map Effect.flightStored).toList

/-- `ScanCacheCapture::abort` (`lib.rs:3605-3630`): the flight fails, the buffers and the durable capture are thrown away. -/
def abort (reason : String) : Capture B :=
  if s.finished then s
  else { s with
    aborted := true, partitions := s.cleared, diskCapture := none
    log := s.log ++ s.flightAborts reason }

/-- `ScanCacheCapture::set_flight` (`lib.rs:3632-3637`). -/
def setFlight (flight : Nat) : Capture B :=
  if s.flight.isNone then { s with flight := some flight } else s

/-- `ScanCacheCapture::revalidated` (`lib.rs:3639-3651`): the cached generation stands, nothing is stored. -/
def revalidated : Capture B :=
  if s.finished then s
  else { s with committed := true, diskCapture := none, log := s.log ++ s.flightStores }

/-- `ScanCacheCapture::discard_unstarted` (`lib.rs:3655-3665`). -/
def discardUnstarted : Capture B :=
  if s.finished || s.started.any id then s
  else { s with aborted := true, partitions := s.cleared, diskCapture := none }

/-- `ScanCacheCapture::start` (`lib.rs:3667-3690`). `diskAccepts`: `begin_capture` of a configured durable cache succeeds. -/
def start (partition : Nat) (diskAccepts : Bool) : Capture B :=
  let s :=
    if !s.diskCaptureStarted && !s.finished then
      { s with
        diskCaptureStarted := true
        diskCapture := if cfg.durable && diskAccepts then some [] else none }
    else s
  { s with started := s.started.set partition true }

/-- The durable copy of a batch; a failed write closes the durable capture. -/
def writeDisk (partition : Nat) (batch : B) (diskAccepts : Bool) : Option (List (Nat × B)) :=
  match s.diskCapture with
  | some written => if diskAccepts then some (written ++ [(partition, batch)]) else none
  | none => none

/-- `ScanCacheCapture::push_batch` (`lib.rs:3695-3728`): over the entry limit the memory copy is given up, the durable one
goes on. -/
def pushBatch (partition : Nat) (batch : B) (diskAccepts : Bool) (maxEntryBytes : Nat) : Capture B :=
  if s.finished || s.partitions.length ≤ partition then s
  else
    let s := { s with diskCapture := s.writeDisk partition batch diskAccepts }
    if s.memoryAbandoned then s
    else
      let memoryBytes := min (s.memoryBytes + cfg.bytes batch) (2 ^ 64 - 1)
      if maxEntryBytes < memoryBytes then
        { s with memoryBytes, partitions := s.cleared, memoryAbandoned := true }
      else { s with memoryBytes, partitions := s.partitions.modify partition (· ++ [batch]) }

/-- `ScanCacheCapture::refuse_completed` (`lib.rs:3738-3755`): the worker does not allow the result to be kept. -/
def refuseCompleted (reason : String) : Capture B :=
  { s with
    aborted := true, partitions := s.cleared, diskCapture := none
    log := s.log ++ .removeMemory :: s.flightAborts reason }

/-- The memory tier takes the result. -/
def fitsMemory (freshness : Freshness) (limits : Limits) : Bool :=
  (freshness.immediatelyStale || freshness.remaining != 0) && !s.memoryAbandoned && 0 < limits.maxEntries &&
    s.memoryBytes ≤ limits.maxEntryBytes && s.memoryBytes ≤ limits.maxTotalBytes

/-- The entry that `ScanCacheCapture::complete` (`lib.rs:3757-3900`) builds. -/
def memoryEntry (freshness : Freshness) (control : CacheControl) : MemoryEntry B where
  batches := s.partitions.flatten
  substreams := executedCacheSubstreams s.outcomes
  ttl := if freshness.immediatelyStale then 0 else freshness.remaining
  control := control

/-- What the tiers receive once the control is admitted; a durable generation that expired right
after its commit is reaped and does not count. -/
def publishEffects (env : Publication) (control : CacheControl) (freshness : Freshness) : List (Effect B) :=
  let committed := match s.diskCapture with
    | some written => if cfg.durable && env.commit == .stored then [Effect.commitDisk written control] else []
    | none => []
  let reaped := if !committed.isEmpty && !freshness.immediatelyStale && freshness.expired then [Effect.reapDisk] else []
  let inserted := if s.fitsMemory freshness env.limits then [Effect.insertMemory (s.memoryEntry freshness control)] else []
  committed ++ reaped ++ inserted

/-- The durable commit of `ScanCacheCapture::complete` (`lib.rs:3757-3900`) goes through. -/
def storesDisk (env : Publication) (freshness : Freshness) : Bool :=
  s.diskCapture.isSome && cfg.durable && env.commit == .stored && !(!freshness.immediatelyStale && freshness.expired)

/-- The rest of `complete` once every partition has an outcome and the controls agree. -/
def publish (env : Publication) (control : CacheControl) : Capture B :=
  let storage := scanCacheStorageControl control cfg.durableRevalidation
  match env.freshness storage with
  | .error reason =>
    { s with
      aborted := true, diskCapture := none
      log := s.log ++ .removeMemory :: s.flightAborts ("cache refused result: " ++ reason) }
  | .ok freshness =>
    let effects := publishEffects cfg s env storage freshness
    if s.fitsMemory freshness env.limits || storesDisk cfg s env freshness then
      { s with committed := true, diskCapture := none, log := s.log ++ (effects ++ s.flightStores) }
    else
      { s with
        aborted := true, diskCapture := none
        log := s.log ++ (effects ++ s.flightAborts "result fit neither configured cache tier") }

/-- `ScanCacheCapture::complete` (`lib.rs:3757-3900`): the last partition publishes, the others only leave their outcome. -/
def complete (partition : Nat) (outcome : Outcome) (env : Publication) : Capture B :=
  if s.finished || s.partitions.length ≤ partition then s
  else match s.outcomes[partition]? with
    | some none =>
      let s := { s with outcomes := s.outcomes.set partition (some outcome) }
      if s.outcomes.any Option.isNone then s
      else match completedScanCacheControl s.outcomes with
        | .error reason => s.refuseCompleted reason
        | .ok control => publish cfg s env control
    | _ => s

/-- The `Drop` of a capture (`lib.rs:3904-3928`): a started capture that never finished gives its flight up. -/
def drop : Capture B :=
  { s with
    diskCapture := none, dropped := true
    log := s.log ++
      if !s.finished && s.started.any id then
        s.flightAborts "execution ended before every partition completed" else [] }

end Capture

/-- One call, with what it meets outside. -/
inductive CaptureOp (B : Type)
  | start (partition : Nat) (diskAccepts : Bool)
  | pushBatch (partition : Nat) (batch : B) (diskAccepts : Bool) (maxEntryBytes : Nat)
  | noWork (partition : Nat) (env : Publication)
  | scanned (partition : Nat) (control : Option CacheControl) (env : Publication)
  | abort (reason : String)
  | revalidated
  | discardUnstarted
  | setFlight (flight : Nat)
  | drop

variable {B : Type} (cfg : CaptureConfig B)

/-- A dropped capture takes no more calls. -/
def captureStep (s : Capture B) (op : CaptureOp B) : Capture B :=
  if s.dropped then s
  else match op with
    | .start partition diskAccepts => Capture.start cfg s partition diskAccepts
    | .pushBatch partition batch diskAccepts maxEntryBytes =>
      Capture.pushBatch cfg s partition batch diskAccepts maxEntryBytes
    | .noWork partition env => Capture.complete cfg s partition .noWork env
    | .scanned partition control env => Capture.complete cfg s partition (.scanned control) env
    | .abort reason => s.abort reason
    | .revalidated => s.revalidated
    | .discardUnstarted => s.discardUnstarted
    | .setFlight flight => s.setFlight flight
    | .drop => s.drop

/-- The calls of all partitions, in the order the state mutex serialises them. -/
def captureRun (ops : List (CaptureOp B)) : Capture B := ops.foldl (captureStep cfg) (Capture.new cfg)

end VgiDatafusion
