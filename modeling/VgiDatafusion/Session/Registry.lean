import VgiDatafusion.Session.Attach

/-!
# What an attachment puts into a session (session.rs:725-1036, 2325-2692, 2923-3195; diagnostics.rs:2436-2520)

| here | there |
| --- | --- |
| `Registries.functions` | the scalar, aggregate and table functions of a `SessionState`, by name |
| `Registries.registrations` | `RegisteredNames` by lower-case alias: for a name, the `Weak` owner and what was declared |
| `Registries.macros`, `.defaultSchemas` | `macro_registry`, `default_schema_registry` |
| `Registries.metadata`, `AttachedMetadata` | `VgiCatalogMetadata`, kept by `VgiRuntime::set_catalog_metadata` |
| `CatalogList` | the catalog list of the session |
| `Owned.id` | the `Arc` an entry points to; `Arc::ptr_eq` compares ids |
| `attachOne` | `attach_one`: the fallible part first (`AttachSpec.prepare`), then the registries (`publish`) |

Not in the source: `Owned.publisher`, the alias whose ATTACH made an entry, `none` for what anyone else registered.

Planning the views of a catalog changes no registry; what a macro expands to and what a worker is told about an ATTACH
option are not modelled here.
-/
namespace VgiDatafusion

/-! ## What a worker declares -/

inductive Volatility
  | immutable
  | stable
  | volatile
  deriving DecidableEq

/-- `most_volatile` (`session.rs:2618-2628`). -/
def mostVolatile : Volatility → Volatility → Volatility
  | .volatile, _ | _, .volatile => .volatile
  | .stable, _ | _, .stable => .stable
  | _, _ => .immutable

structure ArgSpecs where
  minimumPositionalArity : Nat
  named : List Chars
  deriving DecidableEq

/-- `named_arguments` (`session.rs:898-905`). -/
def namedArguments (specs : ArgSpecs) : List Chars := specs.named.map lower

/-- The outcome of `ArgSpecs::parse` on the declared arguments is a field. -/
structure FunctionInfo where
  name : Chars
  schemaPath : List Chars
  functionType : Chars
  specs : Except String ArgSpecs
  volatility : Volatility
  strict : Bool

structure MacroInfo where
  name : Chars
  schemaPath : List Chars
  deriving DecidableEq

def schemaLeaf (path : List Chars) : Chars := path.getLast?.getD []

structure VgiSchemaProvider where
  name : Chars
  tableFunctions : List (Chars × Option ArgSpecs)
  scalars : List Chars
  aggregates : List (Chars × ArgSpecs)

structure VgiCatalogProvider where
  schemas : List VgiSchemaProvider
  macros : List MacroInfo
  defaultSchema : Chars
  globalFunctionPrefix : Chars
  globalFunctions : List FunctionInfo
  companions : List AttachCatalogInfo

/-! ### Nominated global functions -/

/-- `PreparedGlobalKind` (`session.rs:2523-2534`). -/
inductive PreparedGlobalKind
  | scalar (overloads : List ArgSpecs) (volatility : Volatility) (strict : Bool)
  | aggregate (specs : ArgSpecs) (nullary : Bool)
  | table (specs : ArgSpecs) (buffered : Bool)

/-- `PreparedGlobalFunction` (`session.rs:2536-2540`). -/
structure PreparedGlobalFunction where
  info : FunctionInfo
  name : Chars
  kind : PreparedGlobalKind

/-- One more overload of a scalar that is already there under this name and for this target. -/
def mergeOverload (name : Chars) (info : FunctionInfo) (specs : ArgSpecs) :
    List PreparedGlobalFunction → Option (List PreparedGlobalFunction)
  | [] => none
  | candidate :: rest =>
    match candidate.kind with
    | .scalar overloads volatility strict =>
      if candidate.name = name ∧ lower candidate.info.name = lower info.name ∧
          lower (schemaLeaf candidate.info.schemaPath) = lower (schemaLeaf info.schemaPath) then
        let kind := .scalar (overloads ++ [specs]) (mostVolatile volatility info.volatility) (strict && info.strict)
        some ({ candidate with kind } :: rest)
      else (mergeOverload name info specs rest).map (candidate :: ·)
    | _ => (mergeOverload name info specs rest).map (candidate :: ·)

/-- One turn of the loop of `prepare_global_functions` (`session.rs:2542-2616`). -/
def prepareGlobalFunction (globalPrefix : Chars) (prepared : List PreparedGlobalFunction) (info : FunctionInfo) :
    Except String (List PreparedGlobalFunction) := do
  let name := lower (if globalPrefix.isEmpty then info.name else globalPrefix ++ '_' :: info.name)
  let functionType := lower info.functionType
  let specs ← info.specs
  if functionType = "scalar".toList then
    let kind := .scalar [specs] info.volatility info.strict
    .ok ((mergeOverload name info specs prepared).getD (prepared ++ [{ info, name, kind }]))
  else if functionType = "aggregate".toList then
    .ok (prepared ++ [{ info, name, kind := .aggregate specs (specs.minimumPositionalArity = 0) }])
  else if functionType = "table".toList ∨ functionType = "table_buffering".toList then
    .ok (prepared ++ [{ info, name, kind := .table specs (functionType = "table_buffering".toList) }])
  else
    let (name, functionType) := (String.ofList info.name, String.ofList info.functionType)
    .error s!"worker nominated global function `{name}` with unsupported type `{functionType}`"

/-- `prepare_global_functions` (`session.rs:2542-2616`). -/
def prepareGlobalFunctions (provider : VgiCatalogProvider) : Except String (List PreparedGlobalFunction) :=
  provider.globalFunctions.foldlM (prepareGlobalFunction provider.globalFunctionPrefix) []

/-! ## The registries -/

inductive FunctionKind
  | scalar
  | aggregate
  | table
  deriving DecidableEq

/-- An `Arc` with an entry in it; who published it is not in the source. -/
structure Owned (α : Type) where
  id : Nat
  publisher : Option Chars
  value : α
  deriving DecidableEq

inductive Implementation
  | worker (catalog schema function : Chars)
  | other
  deriving DecidableEq

structure Registration where
  owner : Nat
  nullary : Bool := false
  namedArguments : List Chars := []
  deriving DecidableEq

/-- The rest of the metadata is read off the provider. -/
structure AttachedMetadata where
  connection : VgiConnection
  workerCatalog : Chars
  provider : VgiCatalogProvider
  publishedGlobalFunctions : List Chars

/-- A catalog without a provider is an empty one, or another's. -/
structure MountedCatalog where
  id : Nat
  provider : Option VgiCatalogProvider

/-- The catalogs of a session by their exact names. -/
structure CatalogList where
  mounted : Chars → Option MountedCatalog
  next : Nat
  below : ∀ name catalog, mounted name = some catalog → catalog.id < next

namespace CatalogList

def empty : CatalogList := { mounted := fun _ => none, next := 0, below := by simp }

/-- `register_catalog`: there is no way to remove a name. -/
def register (name : Chars) (provider : Option VgiCatalogProvider) (c : CatalogList) : CatalogList :=
  { mounted := Function.update c.mounted name (some { id := c.next, provider })
    next := c.next + 1
    below := by
      intro other catalog h
      by_cases hname : other = name
      · subst hname
        simp only [Function.update_self, Option.some.injEq] at h
        subst h
        exact Nat.lt_succ_self _
      · rw [Function.update_of_ne hname] at h
        exact Nat.lt_succ_of_lt (c.below other catalog h) }

@[simp] theorem register_mounted (name : Chars) (provider : Option VgiCatalogProvider) (c : CatalogList) :
    (c.register name provider).mounted = Function.update c.mounted name (some { id := c.next, provider }) := rfl

@[simp] theorem register_next (name : Chars) (provider : Option VgiCatalogProvider) (c : CatalogList) :
    (c.register name provider).next = c.next + 1 := rfl

end CatalogList

/-- Everything that an ATTACH writes into, for one session (`session.rs:725-1036`). -/
structure Registries where
  catalogs : CatalogList
  functions : FunctionKind → Chars → Option (Owned Implementation)
  registrations : Chars → FunctionKind → Chars → Option Registration
  macros : Chars → Option (Owned MacroInfo)
  defaultSchemas : Chars → Option (Owned Chars)
  metadata : Chars → Option (Owned AttachedMetadata)
  next : Nat

namespace Registries

def empty : Registries :=
  { catalogs := .empty, functions := fun _ _ => none, registrations := fun _ _ _ => none, macros := fun _ => none
    defaultSchemas := fun _ => none, metadata := fun _ => none, next := 0 }

/-! ### Functions of others -/

/-- Another's function, under its name and its aliases. -/
def registerOther (kind : FunctionKind) (keys : List Chars) (s : Registries) : Registries :=
  { s with
    functions := fun k key =>
      if k = kind ∧ key ∈ keys then some { id := s.next, publisher := none, value := .other } else s.functions k key
    next := s.next + 1 }

def deregisterOther (kind : FunctionKind) (keys : List Chars) (s : Registries) : Registries :=
  { s with functions := fun k key => if k = kind ∧ key ∈ keys then none else s.functions k key }

/-- The names of `diagnostics::register` (`diagnostics.rs:2436-2519`). -/
def diagnosticsFunctions : List (FunctionKind × Chars) :=
  (["vgi_cache_stats", "vgi_plan_cache_stats", "vgi_cache_entries", "vgi_logs", "vgi_log_stats",
    "vgi_result_cache_stats", "vgi_result_cache", "vgi_result_cache_flush", "vgi_result_cache_reap", "duckdb_logs",
    "duckdb_functions", "duckdb_settings", "vgi_global_functions", "duckdb_databases", "duckdb_schemas",
    "duckdb_tables", "duckdb_views", "duckdb_columns", "duckdb_constraints", "vgi_function_arguments",
    "vgi_table_branches", "vgi_table_statistics", "vgi_catalogs"].map fun name => (.table, name.toList)) ++
  (["typeof", "vgi_cache_flush", "vgi_cache_reap", "vgi_logs_clear"].map fun name => (.scalar, name.toList))

def registerFree (s : Registries) (entry : FunctionKind × Chars) : Registries :=
  if (s.functions entry.1 entry.2).isSome then s else s.registerOther entry.1 [entry.2]

/-- `diagnostics::register` (`diagnostics.rs:2436-2519`): each name that is still free. -/
def registerDiagnostics (s : Registries) : Registries := diagnosticsFunctions.foldl registerFree s

/-! ### Functions of an alias -/

/-- A function about to be published by the ATTACH of `name`. -/
structure Publication where
  name : Chars
  kind : FunctionKind
  key : Chars
  implementation : Implementation
  nullary : Bool := false
  namedArguments : List Chars := []

/-- The function is registered and `record_registration` keeps its owner. -/
def register (p : Publication) (s : Registries) : Registries :=
  { s with
    functions := fun k key =>
      if k = p.kind ∧ key = p.key then some { id := s.next, publisher := some p.name, value := p.implementation }
      else s.functions k key
    registrations := fun name k key =>
      if name = lower p.name ∧ k = p.kind ∧ key = p.key then
        some { owner := s.next, nullary := p.nullary, namedArguments := p.namedArguments }
      else s.registrations name k key
    next := s.next + 1 }

/-- `register_scalar_if_absent` and its two siblings. -/
def registerIfAbsent (p : Publication) (s : Registries) : Bool × Registries :=
  if (s.functions p.kind p.key).isSome then (false, s) else (true, s.register p)

/-- `register_scalar_if_absent` (`session.rs:820-842`). -/
def registerScalarIfAbsent (name key : Chars) (implementation : Implementation) : Registries → Bool × Registries :=
  registerIfAbsent { name, kind := .scalar, key, implementation }

/-- `register_aggregate_if_absent` (`session.rs:844-870`). -/
def registerAggregateIfAbsent (name key : Chars) (implementation : Implementation) (nullary : Bool) :
    Registries → Bool × Registries :=
  registerIfAbsent { name, kind := .aggregate, key, implementation, nullary }

/-- `register_table_if_absent` (`session.rs:872-896`). -/
def registerTableIfAbsent (name key : Chars) (implementation : Implementation) (namedArguments : List Chars) :
    Registries → Bool × Registries :=
  registerIfAbsent { name, kind := .table, key, implementation, namedArguments }

/-- The registration of `name` is the current owner of the function. -/
def owns (name : Chars) (kind : FunctionKind) (key : Chars) (s : Registries) : Bool :=
  match s.registrations (lower name) kind key, s.functions kind key with
  | some registered, some current => current.id = registered.owner
  | _, _ => false

/-- `deregister_alias_functions` (`session.rs:970-1036`). -/
def deregisterAliasFunctions (name : Chars) (s : Registries) : Registries :=
  { s with
    functions := fun kind key => if s.owns name kind key then none else s.functions kind key
    registrations := fun n kind key => if n = lower name then none else s.registrations n kind key }

/-- `publish_names` (`session.rs:3109-3116`): the spellings of a function, the bare name last. -/
def publishNames (name schema function : Chars) : List Chars :=
  [name ++ '.' :: schema ++ '.' :: function, name ++ '.' :: function, name ++ '_' :: function, function]

/-- `register_table_functions` (`session.rs:3043-3081`). -/
def registerTableFunctions (spec : AttachSpec) (provider : VgiCatalogProvider) (s : Registries) : Registries :=
  provider.schemas.foldl (fun s schema =>
    schema.tableFunctions.foldl (fun s function =>
      (publishNames spec.name schema.name function.1).foldl (fun s key =>
        (registerTableIfAbsent spec.name key (.worker spec.catalog schema.name function.1)
          ((function.2.map namedArguments).getD []) s).2) s) s) s

/-- `register_scalar_functions` (`session.rs:3128-3159`). -/
def registerScalarFunctions (spec : AttachSpec) (provider : VgiCatalogProvider) (s : Registries) : Registries :=
  provider.schemas.foldl (fun s schema =>
    schema.scalars.foldl (fun s function =>
      (publishNames spec.name schema.name function).foldl (fun s key =>
        (registerScalarIfAbsent spec.name key (.worker spec.catalog schema.name function) s).2) s) s) s

/-- `register_aggregate_functions` (`session.rs:3166-3199`). -/
def registerAggregateFunctions (spec : AttachSpec) (provider : VgiCatalogProvider) (s : Registries) : Registries :=
  provider.schemas.foldl (fun s schema =>
    schema.aggregates.foldl (fun s function =>
      (publishNames spec.name schema.name function.1).foldl (fun s key =>
        (registerAggregateIfAbsent spec.name key (.worker spec.catalog schema.name function.1)
          (function.2.minimumPositionalArity = 0) s).2) s) s) s

/-- One turn of the loop of `register_global_functions` (`session.rs:2630-2698`). -/
def registerGlobalFunction (spec : AttachSpec) (function : PreparedGlobalFunction) : Registries → Bool × Registries :=
  let implementation := .worker spec.catalog (schemaLeaf function.info.schemaPath) function.info.name
  match function.kind with
  | .scalar _ _ _ => registerScalarIfAbsent spec.name function.name implementation
  | .aggregate _ nullary => registerAggregateIfAbsent spec.name function.name implementation nullary
  | .table specs _ => registerTableIfAbsent spec.name function.name implementation (namedArguments specs)

/-- `register_global_functions` (`session.rs:2630-2698`): the names that were published, an earlier owner winning. -/
def registerGlobalFunctions (spec : AttachSpec) : List PreparedGlobalFunction → Registries → List Chars × Registries
  | [], s => ([], s)
  | function :: rest, s =>
    let (registered, s) := registerGlobalFunction spec function s
    let (published, s) := registerGlobalFunctions spec rest s
    (if registered then function.name :: published else published, s)

/-! ### Macros -/

/-- `starts_with` the alias and a dot. -/
def underAlias (name key : Chars) : Bool := (lower name ++ ['.']).isPrefixOf key

/-- The macros under an alias go (`session.rs:2923-3000`, `3213-3230`). -/
def removeMacros (name : Chars) (s : Registries) : Registries :=
  { s with macros := fun key => if underAlias name key then none else s.macros key }

def insertMacro (name key : Chars) (info : MacroInfo) (s : Registries) : Registries :=
  { s with
    macros := Function.update s.macros key (some { id := s.next, publisher := some name, value := info })
    next := s.next + 1 }

/-- One turn of the loop of `register_macros` (`session.rs:2923-3000`): a macro of the default schema has a second, shorter
name. -/
def registerMacro (spec : AttachSpec) (defaultSchema : Chars) (s : Registries) (info : MacroInfo) : Registries :=
  let schema := schemaLeaf info.schemaPath
  let s := s.insertMacro spec.name (lower (spec.name ++ '.' :: schema ++ '.' :: info.name)) info
  if lower schema = lower defaultSchema then s.insertMacro spec.name (lower (spec.name ++ '.' :: info.name)) info
  else s

/-- `register_macros` (`session.rs:2923-3000`). -/
def registerMacros (spec : AttachSpec) (provider : VgiCatalogProvider) (s : Registries) : Registries :=
  provider.macros.foldl (registerMacro spec provider.defaultSchema) (s.removeMacros spec.name)

/-! ### The rest -/

def registerCatalog (name : Chars) (provider : Option VgiCatalogProvider) (s : Registries) : Registries :=
  { s with catalogs := s.catalogs.register name provider }

/-- `record_default_schema` (`session.rs:756-763`). -/
def recordDefaultSchema (name schema : Chars) (s : Registries) : Registries :=
  { s with
    defaultSchemas :=
      Function.update s.defaultSchemas (lower name) (some { id := s.next, publisher := some name, value := schema })
    next := s.next + 1 }

/-- `remove_default_schema` (`session.rs:774-780`). -/
def removeDefaultSchema (name : Chars) (s : Registries) : Registries :=
  { s with defaultSchemas := Function.update s.defaultSchemas (lower name) none }

/-- `set_catalog_metadata` (`runtime.rs:420-425`). -/
def setCatalogMetadata (name : Chars) (metadata : AttachedMetadata) (s : Registries) : Registries :=
  { s with
    metadata := Function.update s.metadata (lower name) (some { id := s.next, publisher := some name, value := metadata })
    next := s.next + 1 }

/-- `remove_catalog_metadata` (`runtime.rs:427-432`). -/
def removeCatalogMetadata (name : Chars) (s : Registries) : Registries :=
  { s with metadata := Function.update s.metadata (lower name) none }

end Registries

/-! ## attach_one and detach -/

/-- What the session and the workers answer while one catalog is attached: whether the options a worker declares could be
evaluated, and what discovery found. -/
structure AttachAnswer where
  options : Except String Unit
  discovered : Except String VgiCatalogProvider

/-- What the fallible part of an ATTACH leaves for the rest. -/
structure PreparedAttach where
  provider : VgiCatalogProvider
  globals : List PreparedGlobalFunction

namespace AttachSpec

variable (spec : AttachSpec)

/-- The option `global_functions` (`session.rs:2332-2343`). -/
def globalFunctionsEnabled : Except String Bool :=
  match spec.options "global_functions".toList with
  | none => .ok true
  | some raw => do
    let value := lower (trim (← optionString raw))
    if value = "true".toList then .ok true
    else if value = "false".toList then .ok false
    else .error "ATTACH option `global_functions` must be true or false"

/-- `AttachSpec::connection_with_runtime` (`session.rs:2195-2206`): a deadline of the ATTACH is more specific than that of
the session. -/
def connectionWithRuntime (parse : Chars → Except String VgiLocation) (rpcTimeout : Option Nat) :
    Except String VgiConnection :=
  (spec.connection parse).map fun connection => { connection with rpcTimeout := connection.rpcTimeout <|> rpcTimeout }

/-- `build_attach_options` (`session.rs:2720-2829`): the checks in order; whether the declared options can be evaluated is
the answer's. -/
def buildAttachOptions (answer : AttachAnswer) : Except String Unit := do
  if (spec.options "secrets".toList).isSome then
    .error "ATTACH option `secrets` is not supported by vgi-datafusion yet"
  else if (spec.options "attach_companion_secrets".toList).isSome then
    .error "ATTACH option `attach_companion_secrets` is not supported by vgi-datafusion yet"
  else
    let _dataVersion ← spec.stringOption "data_version_spec"
    let _implementationVersion ← spec.stringOption "implementation_version"
    answer.options

/-- Every fallible step after the connection is there. -/
def prepare (globalFunctions : Bool) (answer : AttachAnswer) : Except String PreparedAttach := do
  spec.buildAttachOptions answer
  let provider ← answer.discovered
  let globals ← if globalFunctions then prepareGlobalFunctions provider else .ok []
  .ok { provider, globals }

end AttachSpec

namespace Registries

/-- Registry-only: nothing here can fail. -/
def publish (spec : AttachSpec) (connection : VgiConnection) (prepared : PreparedAttach) (s : Registries) : Registries :=
  let provider := prepared.provider
  let s := s.deregisterAliasFunctions spec.name
  let s := s.registerTableFunctions spec provider
  let s := s.registerScalarFunctions spec provider
  let s := s.registerAggregateFunctions spec provider
  let (publishedGlobalFunctions, s) := s.registerGlobalFunctions spec prepared.globals
  let s := s.registerMacros spec provider
  let s := s.registerCatalog spec.name (some provider)
  let s := s.recordDefaultSchema spec.name provider.defaultSchema
  s.setCatalogMetadata spec.name { connection, workerCatalog := spec.catalog, provider, publishedGlobalFunctions }

end Registries

/-- What one `attach_one` connected with, and how it ended. -/
structure AttachOutcome where
  connection : Option VgiConnection
  result : Except String (List AttachCatalogInfo)
  registries : Registries

/-- `attach_one` (`session.rs:2325-2405`). -/
def attachOne (parse : Chars → Except String VgiLocation) (rpcTimeout : Option Nat) (answer : AttachAnswer)
    (spec : AttachSpec) (s : Registries) : AttachOutcome :=
  match spec.globalFunctionsEnabled with
  | .error e => { connection := none, result := .error e, registries := s }
  | .ok globalFunctions =>
    match spec.connectionWithRuntime parse rpcTimeout with
    | .error e => { connection := none, result := .error e, registries := s }
    | .ok connection =>
      let s := s.registerDiagnostics
      match spec.prepare globalFunctions answer with
      | .error e => { connection, result := .error e, registries := s }
      | .ok prepared =>
        { connection, result := .ok prepared.provider.companions, registries := s.publish spec connection prepared }

/-- `detach` (`session.rs:3213-3230`): the name stays in the catalog list, with nothing in it. -/
def detach (name : Chars) (s : Registries) : Except String Unit × Registries :=
  if (s.catalogs.mounted name).isNone then (.error s!"no catalog attached as {repr (String.ofList name)}", s)
  else
    let s := s.deregisterAliasFunctions name
    let s := s.removeDefaultSchema name
    let s := s.removeCatalogMetadata name
    let s := s.removeMacros name
    (.ok (), s.registerCatalog name none)

end VgiDatafusion
