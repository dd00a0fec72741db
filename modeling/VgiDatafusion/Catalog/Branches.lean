import VgiDatafusion.Library.DepthFirst
import VgiDatafusion.Library.Outcomes
import VgiDatafusion.Session.Options

/-!
# Tables with several branches (catalog.rs:190-209, 884, 1039-1144, 1146-1264, 1440-1500, 1691-1740)

| here | there |
| --- | --- |
| `TableSource` | `Arc<dyn TableProvider>`; tables are told apart by their address, `std::ptr::eq` |
| `TableSource.table?` | `downcast_ref::<VgiCatalogTableProvider>()` |
| `Branches`, `Cells` | `Option<Vec<BoundCatalogBranch>>`, and the `branches` of every table, a `OnceCell` each |
| `catalogSourceCycle` | `catalog_source_cycle`; its `reaches` is `DepthFirst.reaches` |
| `bindBranch`, `multiBranches` | `bind_catalog_table_source` from the lookup on, `multi_branches` |
| `refuseCycle`, `scanBranch`, `scanBranches` | the loop of `scan_multi_branches` |
| `scan` | `VgiCatalogTableProvider::scan` |

What a scan asks for besides branches is a `ScanWorld`; a branch goes through null markers, reconciliation and its own filter
in `finishBranch`. Other scans may fill cells wherever this one waits (`others`). The depth of the recursion is a fuel; with
`checked` false neither of the checks for cycles is made, to say what a scan would follow.
-/
namespace VgiDatafusion.Catalog

/-! ## Tables -/

/-- A table of a catalog, or a provider of some other kind. -/
inductive TableSource (T L : Type)
  | table (t : T)
  | other (l : L)

def TableSource.table? {T L : Type} : TableSource T L → Option T
  | .table t => some t
  | .other _ => none

/-- What else is known of a branch is its `info`. -/
structure BoundCatalogBranch (T L B : Type) where
  info : B
  provider : TableSource T L

/-- What `VgiCatalogTableProvider::multi_branches` (`catalog.rs:1146-1265`) finds: the branches of a table, if it has several. -/
abbrev Branches (T L B : Type) := Option (List (BoundCatalogBranch T L B))

/-- The `OnceCell` `branches` of every table, as far as they are filled. -/
abbrev Cells (T L B : Type) := T → Option (Branches T L B)

/-- How a scan fails, without the text. -/
inductive ScanError (T : Type)
  | outOfDepth
  | selfReference (index : Nat) (t : T) (source : Chars)
  | cycle (path : List T)
  | failed (text : String)

/-- Both of the errors that tell of a cycle. -/
def ScanError.IsCycle {T : Type} : ScanError T → Prop
  | .selfReference _ _ _ | .cycle _ => True
  | .outOfDepth | .failed _ => False

/-! ## Cycles -/

section
variable {T L B : Type}

/-- The providers behind a table whose cell is filled. -/
def sourcesOf (cells : Cells T L B) (t : T) : List (TableSource T L) :=
  match cells t with
  | some (some branches) => branches.map (·.provider)
  | _ => []

/-- A branch of one table is the other. -/
abbrev References (cells : Cells T L B) : T → T → Prop := DepthFirst.Leads TableSource.table? (sourcesOf cells)

/-- `VgiCatalogTableProvider::catalog_source_cycle` (`catalog.rs:1043-1080`): the path from the provider back to the table. -/
def catalogSourceCycle [Fintype T] [DecidableEq T] (cells : Cells T L B) (self : T) (provider : TableSource T L) : Option (List T) :=
  match DepthFirst.reaches TableSource.table? (sourcesOf cells) self (Fintype.card T + 1) provider ⟨[], [self]⟩ with
  | some (true, s) => some s.path
  | _ => none

end

/-! ## Scans -/

/-- A branch as it is looked up, with the name it is looked up by. -/
structure ResolvedBranch (T L B : Type) where
  info : B
  source : Chars
  provider : Except String (TableSource T L)

/-- Filters are `F`, plans `P`. -/
structure ScanWorld (T L B F P : Type) where
  enforceRequiredFilters : T → F → Except String Unit
  /-- The empty plan, where the filters leave nothing. -/
  filtersPruneTable : T → F → Except String (Option P)
  /-- What the worker says at a moment; nothing but one function is `none`. -/
  resolve : Nat → T → Except String (Option (List (ResolvedBranch T L B)))
  boundScan : T → F → Except String P
  sourceScan : L → F → Except String P
  branchFilters : T → BoundCatalogBranch T L B → F → F
  finishBranch : T → BoundCatalogBranch T L B → P → Except String P
  union : T → List P → Except String P
  /-- The cells that other scans have filled by a moment. -/
  others : Nat → Cells T L B

/-- The cells as they are at a moment. -/
structure ScanState (T L B : Type) where
  moment : Nat
  cells : Cells T L B

section
variable {T L B F P : Type}

/-- A wait: a cell that is filled stays as it is. -/
def ScanState.wait (world : ScanWorld T L B F P) (st : ScanState T L B) : ScanState T L B :=
  { moment := st.moment + 1, cells := fun t => (st.cells t).or (world.others st.moment t) }

section
variable [DecidableEq T]

/-- A cell is filled, unless another scan was faster. -/
def ScanState.fill (st : ScanState T L B) (t : T) (branches : Branches T L B) : ScanState T L B :=
  { st with cells := Function.update st.cells t (some ((st.cells t).getD branches)) }

variable [Fintype T] (world : ScanWorld T L B F P) (checked : Bool)

/-- The check that a branch's source does not lead back to the table (`catalog.rs:1137-1142`). -/
def refuseCycle (cells : Cells T L B) (t : T) (provider : TableSource T L) : Except (ScanError T) Unit :=
  if checked then
    match catalogSourceCycle cells t provider with
    | some path => .error (.cycle path)
    | none => .ok ()
  else .ok ()

/-- `VgiCatalogTableProvider::bind_catalog_table_source` (`catalog.rs:1082-1144`) from the lookup on. -/
def bindBranch (cells : Cells T L B) (t : T) (index : Nat) (branch : ResolvedBranch T L B) :
    Except (ScanError T) (BoundCatalogBranch T L B) := do
  let provider ← branch.provider.mapError .failed
  if checked && provider.table? = some t then .error (.selfReference index t branch.source)
  else do
    refuseCycle checked cells t provider
    .ok { info := branch.info, provider }

/-- The loop of `VgiCatalogTableProvider::multi_branches` (`catalog.rs:1146-1265`); the first error ends it. -/
def bindBranches (t : T) : Nat → List (ResolvedBranch T L B) → ScanState T L B →
    Except (ScanError T) (List (BoundCatalogBranch T L B) × ScanState T L B)
  | _, [], st => .ok ([], st)
  | index, branch :: rest, st => do
    let st := st.wait world
    let bound ← bindBranch checked st.cells t index branch
    let (others, st) ← bindBranches t (index + 1) rest st
    .ok (bound :: others, st)

/-- The closure that fills the cell of a table (`catalog.rs:1146-1265`). -/
def initBranches (t : T) (st : ScanState T L B) : Except (ScanError T) (Branches T L B × ScanState T L B) := do
  let resolved ← (world.resolve st.moment t).mapError .failed
  match resolved with
  | none => .ok (none, st)
  | some branches => do
    let (bound, st) ← bindBranches world checked t 0 branches st
    .ok (some bound, st)

/-- `VgiCatalogTableProvider::multi_branches` (`catalog.rs:1146-1265`): `get_or_try_init` on the table's cell. -/
def multiBranches (t : T) (st : ScanState T L B) : Except (ScanError T) (Branches T L B × ScanState T L B) :=
  let st := st.wait world
  match st.cells t with
  | some branches => .ok (branches, st)
  | none => do
    let (branches, st) ← initBranches world checked t st
    .ok ((st.cells t).getD branches, st.fill t branches)

/-- The plan of a table that is no union, or the branches of one that is. -/
def enterScan (t : T) (filters : F) (st : ScanState T L B) :
    Except (ScanError T) ((P ⊕ List (BoundCatalogBranch T L B)) × ScanState T L B) := do
  (world.enforceRequiredFilters t filters).mapError .failed
  let pruned ← (world.filtersPruneTable t filters).mapError .failed
  match pruned with
  | some empty => .ok (.inl empty, st)
  | none => do
    let (branches, st) ← multiBranches world checked t st
    match branches with
    | some branches => .ok (.inr branches, st)
    | none => do
      let plan ← (world.boundScan t filters).mapError .failed
      .ok (.inl plan, st)

/-- `TableProvider::scan` of a branch. -/
def scanSource (scan : ScanState T L B → T → F → Except (ScanError T) (P × ScanState T L B)) (st : ScanState T L B)
    (provider : TableSource T L) (filters : F) : Except (ScanError T) (P × ScanState T L B) :=
  match provider with
  | .table t => scan st t filters
  | .other l => ((world.sourceScan l filters).mapError .failed).map (·, st)

/-- One turn of the loop of `VgiCatalogTableProvider::scan_multi_branches` (`catalog.rs:1440-1519`). -/
def scanBranch (scan : ScanState T L B → T → F → Except (ScanError T) (P × ScanState T L B)) (t : T) (filters : F)
    (branch : BoundCatalogBranch T L B) (st : ScanState T L B) : Except (ScanError T) (P × ScanState T L B) := do
  let st := st.wait world
  refuseCycle checked st.cells t branch.provider
  let (raw, st) ← scanSource world scan st branch.provider (world.branchFilters t branch filters)
  let plan ← (world.finishBranch t branch raw).mapError .failed
  .ok (plan, st)

/-- The loop of `VgiCatalogTableProvider::scan_multi_branches` (`catalog.rs:1440-1519`). -/
def scanBranches (scan : ScanState T L B → T → F → Except (ScanError T) (P × ScanState T L B)) (t : T) (filters : F) :
    List (BoundCatalogBranch T L B) → ScanState T L B → Except (ScanError T) (List P × ScanState T L B)
  | [], st => .ok ([], st)
  | branch :: rest, st => do
    let (plan, st) ← scanBranch world checked scan t filters branch st
    let (plans, st) ← scanBranches scan t filters rest st
    .ok (plan :: plans, st)

/-- `VgiCatalogTableProvider::scan` (`catalog.rs:1691-1741`); the number bounds how deep the tables are nested. -/
def scan : Nat → ScanState T L B → T → F → Except (ScanError T) (P × ScanState T L B)
  | 0, _, _, _ => .error .outOfDepth
  | n + 1, st, t, filters => do
    let (entered, st) ← enterScan world checked t filters st
    match entered with
    | .inl plan => .ok (plan, st)
    | .inr branches => do
      let (plans, st) ← scanBranches world checked (scan n) t filters branches st
      let plan ← (world.union t plans).mapError .failed
      .ok (plan, st)

/-- A scan comes to the scan of a table, by the tables it is then inside of. -/
inductive ScansTo : Nat → ScanState T L B → T → F → List T → Nat → ScanState T L B → T → F → Prop
  | here {n : Nat} {st : ScanState T L B} {t : T} {filters : F} : ScansTo n st t filters [t] n st t filters
  | into {n m : Nat} {st st₀ st₁ st' : ScanState T L B} {t p t' : T} {filters filters' : F} {path : List T} {plans : List P}
      {before after : List (BoundCatalogBranch T L B)} {branch : BoundCatalogBranch T L B}
      (henter : enterScan world checked t filters st = .ok (.inr (before ++ branch :: after), st₀))
      (hbefore : scanBranches world checked (scan world checked n) t filters before st₀ = .ok (plans, st₁))
      (hcheck : refuseCycle checked (st₁.wait world).cells t branch.provider = .ok ())
      (hprovider : branch.provider = .table p)
      (hrest : ScansTo n (st₁.wait world) p (world.branchFilters t branch filters) path m st' t' filters') :
      ScansTo (n + 1) st t filters (t :: path) m st' t' filters'

end

end

end VgiDatafusion.Catalog
