import VgiDatafusion.Library.StepSystem
import VgiDatafusion.Cache.JobRows

/-!
# Where each partition of a cacheable scan takes its rows from (lib.rs:4704-4735, 5465-5765)

| here | there |
| --- | --- |
| `Delivery` | the cells a `VgiScanExec` shares between its partitions, and how far each partition is |
| `DeliveryEvent.execute` | the lookup in `execute` |
| `lookupDisk`, `lookupStale`, `select` | the durable probes and `cache_revalidation_probe` |
| `claim`, `observe`, `timeOut` | `acquire_result_flight` and `wait_timeout` |
| `lookupStored`, `lookupStoredDisk`, `lookupStoredStale` | a follower after `ResultFlightOutcome::Stored` |
| `runJob` | the spawned job, `job` |
| `replayed` | a replay through partition 0, as in `spawn_durable_replay` |

Every access to a shared cell is a step of its own, so partitions interleave in every way they can.
What a lookup finds, whether the claim is won and how the other query's flight ends come with the
event; a `OnceLock` keeps what its first visitor found (`getD`). The flight has one outcome for all
followers, but each of them waits with its own deadline.
-/
namespace VgiDatafusion

/-- What the partitions of one execution share from planning. -/
structure DeliveryPlan (B R : Type) where
  function : String
  ops : BatchOps B R
  groups : Option (List (List Token))
  limit : Option Nat
  /-- The attachment has an RPC timeout. -/
  rpcTimeout : Bool
  partitions : Nat
  positive : 0 < partitions
  /-- lib.rs:2141 -/
  split : ∀ gs, groups = some gs → partitions = max gs.length 1

/-- What `acquire_result_flight` (`runtime.rs:613-615`) answers, once and for all partitions. -/
inductive Claim
  | producer
  | follower
  deriving DecidableEq, Repr

inductive Route
  | cached
  | scanned
  deriving DecidableEq, Repr

section
variable (B : Type)

/-- Where a partition stands on the way there (`lib.rs:5465-5765`). -/
inductive Phase
  | planned
  /-- With the stale L1 entry taken along when the stream was built. -/
  | streaming (stale : Option (CachedEntry B))
  | diskMissed (stale : Option (CachedEntry B))
  | selecting (stale : Option (CachedEntry B)) (durable : Option (DiskHit B))
  /-- Stale rows now, a refresh in the background. -/
  | serving (entry : CachedEntry B)
  | claiming
  | waiting
  | storedMemory
  | storedDisk
  | storedStale
  | starting
  | done (route : Route) (output : Except String (List B))

/-- The cells that the partitions of a `VgiScanExec` share, each filled once, and the phases. -/
structure Delivery where
  cacheProbe : Option (Option (CachedEntry B)) := none
  diskProbe : Option (Option (DiskHit B)) := none
  diskRevalidationProbe : Option (Option (DiskHit B)) := none
  revalidationProbe : Option (Option (Revalidation B)) := none
  flight : Option Claim := none
  flightOutcome : Option Bool := none
  flightProbe : Option (Option (CachedEntry B)) := none
  flightDiskProbe : Option (Option (DiskHit B)) := none
  phases : List (Phase B)

/-- A move of one partition, or an eviction by the cache at any time. -/
inductive DeliveryEvent
  | execute (p : Nat) (hit stale : Option (CachedEntry B))
  | lookupDisk (p : Nat) (hit : Option (DiskHit B))
  | lookupStale (p : Nat) (hit : Option (DiskHit B))
  | select (p : Nat) (withinLimit mayServe : Bool)
  | claim (p : Nat) (claim : Claim)
  | flightEnds (stored : Bool)
  | observe (p : Nat)
  | timeOut (p : Nat)
  | lookupStored (p : Nat) (hit : Option (CachedEntry B))
  | lookupStoredDisk (p : Nat) (hit : Option (DiskHit B))
  | lookupStoredStale (p : Nat) (hit : Option (DiskHit B))
  | runJob (p : Nat) (env : JobEnv B)

end

variable {B R : Type}

def CachedEntry.read (entry : CachedEntry B) : List (Except String B) := (Revalidation.memory entry none).read

def DiskHit.read (hit : DiskHit B) : List (Except String B) := (Revalidation.disk hit).read

/-- `ScanCacheRevalidation::memory_with_matching_disk` (`lib.rs:2424-2438`): a durable generation goes with an L1 entry only
under the same validators. -/
def memoryWithMatchingDisk (entry : CachedEntry B) (disk : Option (DiskHit B)) : Revalidation B :=
  .memory entry (disk.filter fun hit =>
    (entry.etag.isSome || entry.lastModified.isSome) && entry.etag == hit.etag && entry.lastModified == hit.lastModified)

/-- The entry this partition would select; L1 comes before L2. -/
def selectRevalidation (stale : Option (CachedEntry B)) (durable : Option (DiskHit B)) : Option (Revalidation B) :=
  match stale with
  | some entry => some (memoryWithMatchingDisk entry durable)
  | none => durable.map .disk

/-- The L1 entry that may be served while it is refreshed. -/
def staleWhileRevalidate : Option (Revalidation B) → Option (CachedEntry B)
  | some (.memory entry _) => some entry
  | _ => none

namespace DeliveryPlan

variable (plan : DeliveryPlan B R)

def init : Delivery B where
  phases := List.replicate plan.partitions .planned

/-- The whole entry through partition 0, nothing elsewhere. -/
def replayed (p : Nat) (batches : List (Except String B)) : Except String (List B) :=
  if p = 0 then conformAll plan.ops batches else .ok []

def jobConfig (p : Nat) (revalidation : Option (Revalidation B)) : JobConfig B R where
  function := plan.function
  partition := p
  ops := plan.ops
  groups := plan.groups
  revalidation := revalidation
  limit := plan.limit
  captures := true
  background := false
  foreground _ := rfl

def jobOutput (p : Nat) (revalidation : Option (Revalidation B)) (env : JobEnv B) : Except String (List B) :=
  match (job (plan.jobConfig p revalidation) env).result with
  | .ok _ => .ok (sentBatches (job (plan.jobConfig p revalidation) env).trace)
  | .error error => .error error

/-- A replay of what a lookup found, or the next thing to try. -/
def replayOr (p : Nat) (next : Phase B) : Option (List (Except String B)) → Phase B
  | some batches => .done .cached (plan.replayed p batches)
  | none => next

/-- Only a scan without splits, and with a deadline for the refresh, serves stale rows meanwhile. -/
def afterSelect (selected : Option (Revalidation B)) (mayServe : Bool) : Phase B :=
  if plan.groups.isNone && plan.rpcTimeout && mayServe then
    match staleWhileRevalidate selected with
    | some entry => .serving entry
    | none => .claiming
  else .claiming

/-- One partition takes one step of `VgiScanExec::execute` (`lib.rs:4687-5769`) and what it spawns. -/
def step (s : Delivery B) : DeliveryEvent B → Option (Delivery B)
  | .execute p hit stale =>
    match s.phases[p]? with
    | some .planned =>
      let cached := s.cacheProbe.getD hit
      some { s with
        cacheProbe := some cached
        phases := s.phases.set p (plan.replayOr p (.streaming stale) (cached.map CachedEntry.read)) }
    | _ => none
  | .lookupDisk p hit =>
    match s.phases[p]? with
    | some (.streaming stale) =>
      let durable := s.diskProbe.getD hit
      some { s with
        diskProbe := some durable
        phases := s.phases.set p (plan.replayOr p (.diskMissed stale) (durable.map DiskHit.read)) }
    | _ => none
  | .lookupStale p hit =>
    match s.phases[p]? with
    | some (.diskMissed stale) =>
      let durable := s.diskRevalidationProbe.getD hit
      some { s with
        diskRevalidationProbe := some durable
        phases := s.phases.set p (.selecting stale durable) }
    | _ => none
  | .select p withinLimit mayServe =>
    match s.phases[p]? with
    | some (.selecting stale durable) =>
      let selected := s.revalidationProbe.getD (selectRevalidation (if withinLimit then stale else none) durable)
      some { s with
        revalidationProbe := some selected
        phases := s.phases.set p (plan.afterSelect selected mayServe) }
    | _ => none
  | .claim p claim =>
    let claim := s.flight.getD claim
    match s.phases[p]? with
    | some (.serving entry) =>
      some { s with flight := some claim, phases := s.phases.set p (.done .cached (plan.replayed p entry.read)) }
    | some .claiming =>
      some { s with
        flight := some claim
        phases := s.phases.set p (match claim with
          | .producer => .starting
          | .follower => .waiting) }
    | _ => none
  | .flightEnds stored => if s.flightOutcome.isNone then some { s with flightOutcome := some stored } else none
  | .observe p =>
    match s.phases[p]?, s.flightOutcome with
    | some .waiting, some true => some { s with phases := s.phases.set p .storedMemory }
    | some .waiting, some false => some { s with phases := s.phases.set p .starting }
    | _, _ => none
  | .timeOut p =>
    match s.phases[p]? with
    | some .waiting =>
      if plan.rpcTimeout && s.flightOutcome.isNone then some { s with phases := s.phases.set p .starting } else none
    | _ => none
  | .lookupStored p hit =>
    match s.phases[p]? with
    | some .storedMemory =>
      let cached := s.flightProbe.getD hit
      some { s with
        flightProbe := some cached
        phases := s.phases.set p (plan.replayOr p .storedDisk (cached.map CachedEntry.read)) }
    | _ => none
  | .lookupStoredDisk p hit =>
    match s.phases[p]? with
    | some .storedDisk =>
      let durable := s.flightDiskProbe.getD hit
      some { s with
        flightDiskProbe := some durable
        phases := s.phases.set p (plan.replayOr p .storedStale (durable.map DiskHit.read)) }
    | _ => none
  -- the one lookup that is not shared
  | .lookupStoredStale p hit =>
    match s.phases[p]? with
    | some .storedStale =>
      some { s with phases := s.phases.set p (plan.replayOr p .starting (hit.map DiskHit.read)) }
    | _ => none
  | .runJob p env =>
    match s.phases[p]? with
    | some .starting =>
      some { s with phases := s.phases.set p (.done .scanned (plan.jobOutput p (s.revalidationProbe.getD none) env)) }
    | _ => none

end DeliveryPlan

end VgiDatafusion
