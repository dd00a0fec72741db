import VgiDatafusion.Filters.Pushdown
import VgiDatafusion.Scan.Settings
import VgiDatafusion.Scan.Statistics

/-!
# Cache keys and the requests they stand for

| here | there |
| --- | --- |
| `Scan` | the fields of `VgiTableProvider` and the arguments of one `scan` that its requests and keys read |
| `Client` | `identity_scope`, `cache_fingerprint` and `Arguments::to_ipc` of `vgi_client` |
| `AttachOptions`, `cacheAttachContext` | lib.rs:312-341 |
| `OrderBy`, `encodeOrderBy`, `sampleCacheIdentity` | lib.rs:558-593 |
| `cacheIdentity` | `Pushdown::cache_identity` (filters.rs:733-750) |
| `Scan.cacheKey` | the `cache_key` of `VgiScanExec::new` (lib.rs:2850-2904) |
| `Scan.planCacheKey` | the key of `plan_splits` (lib.rs:1588-1623) |
| `Scan.bindRequest` | the bind of a job and of `plan_splits` (lib.rs:1648-1654, 4819-4833, 858-872) |
| `Scan.initRequest`, `narrowestColumn` | `scan_options(None)` (lib.rs:528-551, 4850-4879) |
| `Scan.planRequest` | the `PlanOptions` of `plan_splits` (lib.rs:1656-1688) |

Two scans of one runtime are compared: the session, its catalogs and what a worker answers are one
`Runtime`. A key is never built for a scan with runtime filters (lib.rs:2978-3012), so the pushdown of a
job is the planned one. The `plan` field of a `CacheKey`, always absent, is left out.

Four encodings lose something: the dot between schema and function, a limit that is no `i64`, an attach
option that is absent or empty, and the columns a filter reads. Everything else is recovered from the key
(`keyFields_eq_iff`), so those four decide whether equal keys mean equal requests (`keys_identify_iff`).
-/
namespace VgiDatafusion

open Framing

/-- The attach options of a connection, as `VgiConnection::cache_attach_context` (`lib.rs:312-343`) reads them. -/
structure AttachOptions where
  options : Option Buffer := none
  dataVersionSpec : Option Text := none
  implementationVersion : Option Text := none
  deriving DecidableEq

inductive SortDirection
  | ascending | descending
  deriving DecidableEq

inductive NullOrder
  | first | last
  deriving DecidableEq

structure OrderBy where
  column : Text
  direction : SortDirection
  nullOrder : NullOrder
  limit : Option Int64
  deriving DecidableEq

/-- An `AT` coordinate. -/
structure At where
  unit : String
  value : String
  deriving DecidableEq

/-- `b"vgi-pushdown-cache-v2"`. -/
def cacheTag : List UInt8 :=
  [118, 103, 105, 45, 112, 117, 115, 104, 100, 111, 119, 110, 45, 99, 97, 99, 104, 101, 45, 118, 50]

/-- A pushdown as `serialize` leaves it: without a blob there are no columns and no side batches, and an
IPC blob never starts with the tag. -/
structure PlannedPushdown extends Pushdown Buffer Buffer where
  nothing : blob = none → columns = [] ∧ joinKeys = []
  untagged : ∀ b ∈ blob, ¬cacheTag <+: b.bytes

/-- `VgiConnection`, as far as keys and requests read it (`lib.rs:129-162`). -/
structure Connection (Location Identity : Type) where
  location : Location
  /-- Of its authenticator, or anonymous. -/
  identity : Identity
  cacheEnabled : Bool
  attachOptions : String → Option AttachOptions

/-- The fields of `VgiTableProvider` and the arguments of one `scan` that its requests and keys read. -/
structure Scan (Location Identity Arguments : Type) where
  conn : Connection Location Identity
  catalog : String
  schemaName : String
  function : String
  arguments : Arguments
  rawArguments : Option Buffer
  projection : Option (List Int64)
  projectionPushdown : Bool
  pushdown : PlannedPushdown
  limit : Option UInt64
  orderBy : Option OrderBy
  sample : Option Sample
  atCoordinate : Option At
  catalogVersion : Int64
  secretDependent : Bool
  supportsSplits : Option Bool
  targetPartitions : UInt64
  /-- Of the split plan, if there is one. -/
  unbounded : Bool
  rangePartitioned : Bool
  orderedSplit : Bool

/-- What `attach` sends, with the connection it is sent on. -/
structure Attachment (Location Identity : Type) where
  location : Location
  identity : Identity
  catalog : String
  options : AttachOptions
  deriving DecidableEq

structure BindRequest (Location Identity V : Type) where
  attachment : Attachment Location Identity
  schemaName : String
  function : String
  arguments : Option Buffer
  atCoordinate : Option At
  /-- With an error here nothing is sent. -/
  settings : Except SettingError (Option (SettingsBatch V))

/-- The hints an init request and a plan request share. -/
structure Hints where
  pushdownFilters : Option Buffer
  joinKeys : Option (List Buffer)
  filterColumns : Option (List Nat)
  rowLimit : Option Int64
  orderBy : Option OrderBy
  sample : Option Sample
  deriving DecidableEq

structure InitRequest extends Hints where
  projection : Option (List Int64)
  deriving DecidableEq

/-- What the plan request of `VgiTableProvider::plan_splits` (`lib.rs:1576-1792`) sends. -/
structure PlanRequest (Location Identity V : Type) extends Hints where
  bind : BindRequest Location Identity V
  projection : Option (List Int64)
  minSplits : Option Int64

/-- The client library's part of a key. -/
structure Client (Location Identity Arguments : Type) where
  cacheFingerprint : Location → String
  cacheFingerprint_inj : Function.Injective cacheFingerprint
  identityScope : String → Identity → Option String
  identityScope_inj : ∀ {catalog catalog' identity identity' scope}, identityScope catalog identity = some scope →
    identityScope catalog' identity' = some scope → catalog = catalog' ∧ identity = identity'
  toIpc : Arguments → Option Buffer

/-- The state two scans have in common. -/
structure Runtime (Location Identity V : Type) where
  session : Session
  cacheEnabled : Bool
  readers : SettingReaders V
  declarations : Attachment Location Identity → List SettingSpec
  outputSchema : BindRequest Location Identity V → Schema

/-! ## Encodings -/

/-- The last `unwrap_or_default`s: an absent option is an empty one. -/
def AttachOptions.parts (o : AttachOptions) : List (List UInt8) :=
  [(o.options.map (·.bytes)).getD [], (o.dataVersionSpec.map (·.bytes)).getD [],
    (o.implementationVersion.map (·.bytes)).getD []]

/-- `VgiConnection::cache_attach_context` (`lib.rs:312-343`). -/
def cacheAttachContext : Option AttachOptions → List UInt8
  | none => []
  | some options => frames options.parts

/-- `to_le_bytes` of an `i64`. -/
def leBytes (value : Int64) : List UInt8 := littleEndian 8 value.toUInt64.toNat

def encodeOptional : Option Int64 → List UInt8
  | some value => 1 :: leBytes value
  | none => [0]

/-- `encode_order_by` (`lib.rs:572-594`). -/
def encodeOrderBy (order : OrderBy) : List UInt8 :=
  1 :: (framed order.column.bytes ++
    (match order.direction with | .ascending => 0 | .descending => 1) ::
    (match order.nullOrder with | .first => 0 | .last => 1) ::
    encodeOptional order.limit)

/-- `sample_cache_identity` (`lib.rs:558-569`). -/
def sampleCacheIdentity (sample : Sample) : List UInt8 :=
  littleEndian 8 sample.percentageBits.toNat ++ encodeOptional sample.seed

/-- `Pushdown::cache_identity` (`filters.rs:733-744`): nothing, where the filters change while the scan runs. -/
def cacheIdentity (p : Pushdown Buffer Buffer) : Option (List UInt8) :=
  p.blob.map fun blob =>
    if p.joinKeys.isEmpty then blob.bytes
    else cacheTag ++ framed blob.bytes ++ frames (p.joinKeys.map (·.bytes))

/-- `i64::try_from` of a `usize`. -/
def i64TryFrom (limit : UInt64) : Option Int64 := if limit.toNat < 2 ^ 63 then some limit.toInt64 else none

/-- The width of a column's type, by which `narrowest_column` (`lib.rs:528-551`) chooses. -/
def columnWidth : DataType → Nat
  | .boolean | .int8 | .uint8 => 1
  | .int16 | .uint16 => 2
  | .int32 | .uint32 | .float32 | .date32 => 4
  | .int64 | .uint64 | .float64 => 8
  | _ => 2 ^ 32 - 1

/-- `narrowest_column` (`lib.rs:528-551`): `min_by_key`, the first of the narrowest. -/
def narrowestColumn (schema : Schema) : Option Int64 :=
  let narrower := fun (best : Option (Field × Nat)) (field : Field × Nat) => match best with
    | none => some field
    | some found => if columnWidth field.1.dataType < columnWidth found.1.dataType then some field else some found
  (schema.fields.zipIdx.foldl narrower none).map fun field => Int64.ofNat field.2

/-! ## Keys -/

inductive CacheIneligibleReason
  | disabledGlobal | disabledAttach | identityUnresolved | unbounded | rangePartitioned | orderedSplit
  | secretDependent | unsupportedShape
  deriving DecidableEq, Repr

/-- The fields a result key and a plan key share. -/
structure KeyFields where
  identityScope : String
  workerLabel : String
  function : String
  arguments : Buffer
  projection : Option (List Int64)
  filters : Option (List UInt8)
  catalogVersion : Int64
  atCoordinate : Option At
  settings : List UInt8
  attachOptions : List UInt8
  rowLimit : Option Int64
  ordering : Option (List UInt8)
  sample : Option (List UInt8)
  deriving DecidableEq

/-- The `CacheKey` of `vgi_client`, fields that no scan sets left out. -/
structure CacheKey extends KeyFields where
  catalog : String
  deriving DecidableEq

/-- `PlanCacheKey` (`runtime.rs:804-819`). -/
structure PlanCacheKey extends KeyFields where
  targetPartitions : UInt64
  deriving DecidableEq

variable {Location Identity Arguments V : Type} (C : Client Location Identity Arguments)
  (rt : Runtime Location Identity V)

namespace Scan

variable (x : Scan Location Identity Arguments)

def identityScope : Option String := C.identityScope x.catalog x.conn.identity

/-- The worker's own bytes for a catalog table, the call's typed arguments otherwise. -/
def wireArguments : Option Buffer := x.rawArguments.or (C.toIpc x.arguments)

/-- A projection reaches the worker only if it opted in. -/
def pushedProjection : Option (List Int64) := if x.projectionPushdown then x.projection else none

/-- The fields that both keys share. -/
def keyFields (scope : String) (arguments : Buffer) : KeyFields where
  identityScope := scope
  workerLabel := C.cacheFingerprint x.conn.location
  function := x.schemaName ++ "." ++ x.function
  arguments
  projection := x.pushedProjection
  filters := cacheIdentity x.pushdown.toPushdown
  catalogVersion := x.catalogVersion
  atCoordinate := x.atCoordinate
  settings := rt.session.settingsIdentity x.catalog
  attachOptions := cacheAttachContext (x.conn.attachOptions x.catalog)
  rowLimit := x.limit.bind i64TryFrom
  ordering := x.orderBy.map encodeOrderBy
  sample := x.sample.map sampleCacheIdentity

/-- `VgiConnection::cache_environment_ineligible_reason` (`lib.rs:295-310`). -/
def cacheEnvironmentIneligibleReason : Option CacheIneligibleReason :=
  if !rt.cacheEnabled then some .disabledGlobal
  else if !x.conn.cacheEnabled then some .disabledAttach
  else if (x.identityScope C).isNone then some .identityUnresolved
  else none

/-- Why a scan has no cache key, if it has none (`lib.rs:2850-2904`). -/
def cacheIneligibleReason : Option CacheIneligibleReason :=
  (if x.secretDependent then some .secretDependent else none)
    |>.or (if x.unbounded then some .unbounded else none)
    |>.or (x.cacheEnvironmentIneligibleReason C rt)
    |>.or (if x.rangePartitioned then some .rangePartitioned else none)
    |>.or (if x.orderedSplit then some .orderedSplit else none)

/-- The `cache_key` of `VgiScanExec::new` (`lib.rs:2757-2976`). -/
def cacheKey : Except CacheIneligibleReason CacheKey :=
  match x.cacheIneligibleReason C rt with
  | some reason => .error reason
  | none => match x.identityScope C, x.wireArguments C with
    | some scope, some arguments => .ok { x.keyFields C rt scope arguments with catalog := x.catalog }
    | none, _ => .error .identityUnresolved
    | _, none => .error .unsupportedShape

/-- No key where no plan is asked for, and none for a function that reads secrets. -/
def planCacheKey : Option PlanCacheKey :=
  if x.supportsSplits = some false || x.secretDependent then none
  else match x.identityScope C, x.wireArguments C with
    | some scope, some arguments => some { x.keyFields C rt scope arguments with targetPartitions := x.targetPartitions }
    | _, _ => none

/-! ## Requests -/

def attachment : Attachment Location Identity where
  location := x.conn.location
  identity := x.conn.identity
  catalog := x.catalog
  options := (x.conn.attachOptions x.catalog).getD {}

/-- The bind of a job and of `plan_splits` (`lib.rs:1648-1654`, `4819-4833`). -/
def bindRequest : BindRequest Location Identity V where
  attachment := x.attachment
  schemaName := x.schemaName
  function := x.function
  arguments := x.wireArguments C
  atCoordinate := x.atCoordinate
  settings := encodeSettings rt.readers rt.session.settings (rt.declarations x.attachment)

/-- What init and plan requests have in common. -/
def hints : Hints where
  pushdownFilters := x.pushdown.blob
  joinKeys := if x.pushdown.joinKeys.isEmpty then none else some x.pushdown.joinKeys
  filterColumns := some x.pushdown.columns
  rowLimit := x.limit.map (·.toInt64)
  orderBy := x.orderBy
  sample := x.sample

/-- An empty projection is `count(*)`: `[]` would mean every column, so one column is asked for. -/
def initRequest : InitRequest where
  toHints := x.hints
  projection := match x.pushedProjection with
    | some [] => (narrowestColumn (rt.outputSchema (x.bindRequest C rt))).map ([·])
    | projection => projection

/-- The `PlanOptions` of `plan_splits` (`lib.rs:1656-1688`). -/
def planRequest : PlanRequest Location Identity V where
  toHints := x.hints
  bind := x.bindRequest C rt
  projection := x.pushedProjection
  minSplits := some x.targetPartitions.toInt64

end Scan

end VgiDatafusion
