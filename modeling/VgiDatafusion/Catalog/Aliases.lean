import Mathlib.Data.List.AList
import Mathlib.Data.List.Destutter
import Mathlib.Data.List.Sort
import VgiDatafusion.Library.StepSystem
import VgiDatafusion.Session.Detach

/-!
# The alias a branch names (catalog.rs:244-297, 1097-1114; runtime.rs:336-351, 420-441)

| here | there |
| --- | --- |
| `VgiRuntime.catalogMetadata`, `VgiCatalogMetadata` | `catalog_metadata`, a `HashMap`, and the fields of an entry that are read here |
| `setTableBranches`, `setCatalogMetadata`, `removeCatalogMetadata` | the methods of `VgiRuntime` |
| `strLe`, `sortDedup` | the order of `str`; `sort` and then `dedup` |
| `selectCatalogAlias` | `select_catalog_alias`; the worker catalogs are those of `bind_catalog_table_source` |
| `SessionCatalogs`, `CatalogAction` | `catalog_list().catalog_names()` and the runtime, over ATTACH, DETACH and scans |

The catalog list tells names apart by case and the metadata does not: `setCatalogMetadata` and `removeCatalogMetadata` fold the
alias, `setTableBranches` does not, and `selectCatalogAlias` looks the folded aliases up in the list.

Not in the source: `mounts`, the worker catalog behind each alias as it was written.
-/
namespace VgiDatafusion.Catalog

/-! ## The metadata -/

/-- The functions of the branches of a table. -/
structure CatalogScanBranches where
  functions : List Chars
  requiredExtensions : List Chars
  deriving DecidableEq

/-- `VgiCatalogMetadata` (`runtime.rs:110-135`): the fields that the lookup of a source catalog reads. -/
structure VgiCatalogMetadata where
  workerCatalog : Chars
  tableBranches : AList fun _ : Chars × Chars => CatalogScanBranches

/-- The entry of a table, under its schema and name in lower case. -/
def VgiCatalogMetadata.record (schema table : Chars) (branches : CatalogScanBranches) (metadata : VgiCatalogMetadata) :
    VgiCatalogMetadata :=
  { metadata with tableBranches := metadata.tableBranches.insert (lower schema, lower table) branches }

/-- `VgiRuntime` (`runtime.rs:247-268`): its map `catalog_metadata`. -/
structure VgiRuntime where
  catalogMetadata : AList fun _ : Chars => VgiCatalogMetadata

namespace VgiRuntime

def entry (r : VgiRuntime) (key : Chars) : Option VgiCatalogMetadata := r.catalogMetadata.lookup key

/-- `VgiRuntime::set_table_branches` (`runtime.rs:336-351`): nothing is recorded for a name that is not attached. -/
def setTableBranches (name schema table : Chars) (branches : CatalogScanBranches) (r : VgiRuntime) : VgiRuntime :=
  match r.catalogMetadata.lookup name with
  | none => r
  | some metadata => { r with catalogMetadata := r.catalogMetadata.insert name (metadata.record schema table branches) }

/-- `VgiRuntime::set_catalog_metadata` (`runtime.rs:420-425`): the key is the alias in lower case. -/
def setCatalogMetadata (name : Chars) (metadata : VgiCatalogMetadata) (r : VgiRuntime) : VgiRuntime :=
  { r with catalogMetadata := r.catalogMetadata.insert (lower name) metadata }

/-- `VgiRuntime::remove_catalog_metadata` (`runtime.rs:427-432`). -/
def removeCatalogMetadata (name : Chars) (r : VgiRuntime) : VgiRuntime :=
  { r with catalogMetadata := r.catalogMetadata.erase (lower name) }

/-- `catalog_metadata`, as far as the lookup of a source catalog reads it. -/
def workerCatalogs (r : VgiRuntime) : List (Chars × Chars) := r.catalogMetadata.entries.map fun e => (e.1, e.2.workerCatalog)

variable (name : Chars) (r : VgiRuntime)

@[simp] theorem entry_setCatalogMetadata (metadata : VgiCatalogMetadata) :
    (r.setCatalogMetadata name metadata).entry = Function.update r.entry (lower name) (some metadata) := by
  ext1 key
  by_cases hkey : key = lower name
  · subst hkey
    simp [entry, setCatalogMetadata]
  · simp [entry, setCatalogMetadata, AList.lookup_insert_ne hkey, hkey]

@[simp] theorem entry_removeCatalogMetadata :
    (r.removeCatalogMetadata name).entry = Function.update r.entry (lower name) none := by
  ext1 key
  by_cases hkey : key = lower name
  · subst hkey
    simp [entry, removeCatalogMetadata]
  · simp [entry, removeCatalogMetadata, AList.lookup_erase_ne hkey, hkey]

@[simp] theorem entry_setTableBranches (schema table : Chars) (branches : CatalogScanBranches) :
    (r.setTableBranches name schema table branches).entry =
      Function.update r.entry name ((r.entry name).map (·.record schema table branches)) := by
  ext1 key
  cases hname : r.catalogMetadata.lookup name with
  | none =>
    have hentry : r.entry name = none := hname
    have hupdate : Function.update r.entry name none = r.entry := by rw [← hentry, Function.update_eq_self]
    simp only [setTableBranches, hname, hentry, Option.map_none, hupdate]
  | some metadata =>
    have hentry : r.entry name = some metadata := hname
    rw [hentry, Option.map_some]
    by_cases hkey : key = name
    · subst hkey
      simp [entry, setTableBranches, hname]
    · simp [entry, setTableBranches, hname, AList.lookup_insert_ne hkey, hkey]

theorem mem_workerCatalogs {key worker : Chars} :
    (key, worker) ∈ r.workerCatalogs ↔ (r.entry key).map (·.workerCatalog) = some worker := by
  simp only [workerCatalogs, entry, List.mem_map, Option.map_eq_some_iff, Prod.mk.injEq]
  constructor
  · rintro ⟨⟨key', metadata⟩, hmem, rfl, rfl⟩
    exact ⟨metadata, AList.mem_lookup_iff.2 hmem, rfl⟩
  · rintro ⟨metadata, hlookup, rfl⟩
    exact ⟨⟨key, metadata⟩, AList.mem_lookup_iff.1 hlookup, rfl, rfl⟩

/-- One entry is written, removed and given its branches under this spelling of an alias. -/
def SameEntry : Prop :=
  ∃ key, (∀ metadata, (r.setCatalogMetadata name metadata).entry = Function.update r.entry key (some metadata)) ∧
    (r.removeCatalogMetadata name).entry = Function.update r.entry key none ∧
    ∀ schema table branches, (r.setTableBranches name schema table branches).entry =
      Function.update r.entry key ((r.entry key).map (·.record schema table branches))

section
variable {name : Chars} {r : VgiRuntime}

theorem entry_eq_none (hkeys : ∀ key, (r.entry key).isSome → lower key = key) (hname : lower name ≠ name) :
    r.entry name = none := by
  by_contra hsome
  exact hname (hkeys name (Option.isSome_iff_ne_none.2 hsome))

/-- Nothing holds whatever branches it is given. -/
theorem record_ne (metadata : VgiCatalogMetadata) : ¬ ∀ branches, metadata = metadata.record [] [] branches := by
  intro hrecorded
  have hlookup : ∀ branches, metadata.tableBranches.lookup (lower [], lower []) = some branches := by
    intro branches
    rw [hrecorded branches, VgiCatalogMetadata.record, AList.lookup_insert]
  have hclash := (hlookup ⟨[], []⟩).symm.trans (hlookup ⟨[[]], []⟩)
  simp at hclash

/-- The metadata is kept under folded aliases: a spelling that is not folded misses the entry of its alias. -/
theorem sameEntry_iff (hkeys : ∀ key, (r.entry key).isSome → lower key = key) :
    SameEntry name r ↔ ((r.entry (lower name)).isSome → lower name = name) := by
  constructor
  · rintro ⟨key, hset, hremove, hbranches⟩ hentry
    obtain ⟨metadata, hmetadata⟩ := Option.isSome_iff_exists.1 hentry
    by_contra hname
    have hkey : key = lower name := by
      by_contra hother
      have hgone := congrFun hremove (lower name)
      rw [entry_removeCatalogMetadata, Function.update_self, Function.update_of_ne (Ne.symm hother), hmetadata] at hgone
      cases hgone
    subst hkey
    -- the branches go nowhere, so the entry would have to hold any branches already
    refine record_ne metadata fun branches => ?_
    have hsame := congrFun (hbranches [] [] branches) (lower name)
    rw [entry_setTableBranches, Function.update_of_ne hname, Function.update_self, hmetadata, Option.map_some] at hsame
    exact Option.some.inj hsame
  · intro hname
    refine ⟨lower name, fun metadata => entry_setCatalogMetadata .., entry_removeCatalogMetadata .., ?_⟩
    intro schema table branches
    rw [entry_setTableBranches]
    by_cases hfolded : lower name = name
    · rw [hfolded]
    · have hentry : r.entry (lower name) = none := by simpa using mt hname hfolded
      have hmissed := entry_eq_none hkeys hfolded
      have hupdate : Function.update r.entry name none = r.entry := by rw [← hmissed, Function.update_eq_self]
      have hupdate' : Function.update r.entry (lower name) none = r.entry := by rw [← hentry, Function.update_eq_self]
      rw [hmissed, hentry, Option.map_none, hupdate, hupdate']

end

end VgiRuntime

/-! ## The selection -/

/-- Strings are ordered by their code points. -/
def strLe : Chars → Chars → Bool
  | [], _ => true
  | _ :: _, [] => false
  | c :: s, d :: t => c.toNat < d.toNat || (c = d && strLe s t)

def sortDedup (names : List Chars) : List Chars := (names.insertionSort (strLe · ·)).destutter (· ≠ ·)

/-- `select_catalog_alias` (`catalog.rs:244-297`): each name in turn is the one alias, or there is none, or several, which
then are listed. -/
def selectCatalogAlias (requested : Chars) (catalogNames : List Chars) (workerCatalogs : List (Chars × Chars)) :
    Except String Chars :=
  let source := repr (String.ofList requested)
  if catalogNames.any (· = requested) then .ok requested
  else match sortDedup (catalogNames.filter fun name => lower name = lower requested) with
    | [name] => .ok name
    | [] =>
      match sortDedup ((workerCatalogs.filter fun entry =>
        lower entry.2 = lower requested && catalogNames.contains entry.1).map (·.1)) with
      | [name] => .ok name
      | [] => .error s!"VGI catalog-table source catalog {source} is not attached"
      | names =>
        let names := String.ofList (List.intercalate ", ".toList names)
        .error (s!"VGI catalog-table source catalog {source} maps to multiple attached aliases {names}" ++
          "; use the companion attachment alias")
    | names =>
      let names := String.ofList (List.intercalate ", ".toList names)
      .error s!"VGI catalog-table source catalog {source} ambiguously matches attached aliases {names}"

theorem destutter_ne_eq_singleton {a : Chars} {l : List Chars} :
    l.destutter (· ≠ ·) = [a] ↔ l ≠ [] ∧ ∀ b ∈ l, b = a := by
  cases l with
  | nil => simp
  | cons b l =>
    rw [List.destutter_cons']
    induction l generalizing b with
    | nil => simp
    | cons c l ih =>
      by_cases hbc : b = c
      · subst hbc
        rw [List.destutter'_cons_neg _ (by simp), ih]
        simp
      · rw [List.destutter'_cons_pos _ hbc]
        have hrest : List.destutter' (· ≠ ·) c l ≠ [] := List.destutter'_ne_nil _ _
        constructor
        · intro h
          exact absurd (List.cons.inj h).2 hrest
        · rintro ⟨-, hall⟩
          exact absurd ((hall b (by simp)).trans (hall c (by simp)).symm) hbc

theorem sortDedup_eq_nil {l : List Chars} : sortDedup l = [] ↔ ∀ b, b ∉ l := by
  rw [sortDedup, List.destutter_eq_nil, List.eq_nil_iff_forall_not_mem]
  simp

theorem sortDedup_eq_singleton {a : Chars} {l : List Chars} : sortDedup l = [a] ↔ a ∈ l ∧ ∀ b ∈ l, b = a := by
  rw [sortDedup, destutter_ne_eq_singleton]
  simp only [List.mem_insertionSort]
  constructor
  · rintro ⟨hne, hall⟩
    obtain ⟨b, hb⟩ := List.exists_mem_of_ne_nil _ hne
    rw [List.mem_insertionSort] at hb
    exact ⟨hall b hb ▸ hb, hall⟩
  · rintro ⟨ha, hall⟩
    refine ⟨List.ne_nil_of_mem ((List.mem_insertionSort _).2 ha), hall⟩

/-- Only `a` has the property; that there is such an `a` is `∃!`. -/
def Only (P : Chars → Prop) (a : Chars) : Prop := P a ∧ ∀ b, P b → b = a

section
variable {requested : Chars} {catalogNames : List Chars} {workerCatalogs : List (Chars × Chars)}

theorem selectCatalogAlias_listed (h : requested ∈ catalogNames) :
    selectCatalogAlias requested catalogNames workerCatalogs = .ok requested := by
  simp [selectCatalogAlias, h]

theorem selectCatalogAlias_folded {name : Chars}
    (h : Only (fun n => n ∈ catalogNames ∧ lower n = lower requested) name) :
    selectCatalogAlias requested catalogNames workerCatalogs = .ok name := by
  by_cases hlisted : requested ∈ catalogNames
  · rw [selectCatalogAlias_listed hlisted, h.2 requested ⟨hlisted, rfl⟩]
  · have hone : sortDedup (catalogNames.filter fun n => lower n = lower requested) = [name] := by
      rw [sortDedup_eq_singleton]
      simpa [Only, and_assoc] using h
    simp [selectCatalogAlias, hlisted, hone]

/-- No alias is asked for, so the worker catalogs decide. -/
theorem selectCatalogAlias_worker (h : ∀ n ∈ catalogNames, lower n ≠ lower requested) (name : Chars) :
    selectCatalogAlias requested catalogNames workerCatalogs = .ok name ↔
      Only (fun n => n ∈ catalogNames ∧ ∃ worker, (n, worker) ∈ workerCatalogs ∧ lower worker = lower requested) name := by
  have hlisted : requested ∉ catalogNames := fun hmem => h requested hmem rfl
  have hnone : sortDedup (catalogNames.filter fun n => lower n = lower requested) = [] := by
    rw [sortDedup_eq_nil]
    simpa using h
  have hmem : ∀ n, n ∈ (workerCatalogs.filter fun entry =>
      lower entry.2 = lower requested && catalogNames.contains entry.1).map (·.1) ↔
        n ∈ catalogNames ∧ ∃ worker, (n, worker) ∈ workerCatalogs ∧ lower worker = lower requested := by
    intro n
    simp only [List.mem_map, List.mem_filter, Bool.and_eq_true, decide_eq_true_eq, List.contains_iff_mem, Prod.exists]
    constructor
    · rintro ⟨n, worker, ⟨hentry, hworker, hn⟩, rfl⟩
      exact ⟨hn, worker, hentry, hworker⟩
    · rintro ⟨hn, worker, hentry, hworker⟩
      exact ⟨n, worker, ⟨hentry, hworker, hn⟩, rfl⟩
  simp only [Only, ← hmem, ← sortDedup_eq_singleton]
  simp only [selectCatalogAlias, List.any_eq_true, decide_eq_true_eq, exists_eq_right, hlisted, if_false, hnone]
  split <;> simp_all

end

/-! ## Attaching and detaching -/

/-- The catalogs are listed by their exact names. -/
structure SessionCatalogs where
  catalogNames : List Chars
  runtime : VgiRuntime

inductive CatalogAction
  /-- An `attach_one` that succeeds, with the name of the worker's catalog. -/
  | attach (name workerCatalog : Chars)
  | detach (name : Chars)
  /-- A scan or a diagnostics function resolved the branches of a table. -/
  | setTableBranches (name schema table : Chars) (branches : CatalogScanBranches)
  /-- Another's catalog. -/
  | registerCatalog (name : Chars)

namespace SessionCatalogs

def empty : SessionCatalogs := { catalogNames := [], runtime := { catalogMetadata := ∅ } }

def registerCatalog (name : Chars) (s : SessionCatalogs) : SessionCatalogs :=
  { s with catalogNames := s.catalogNames.insert name }

/-- The end of an `attach_one` that succeeds: the catalog under its name, its metadata under the alias in lower case. -/
def attach (name workerCatalog : Chars) (s : SessionCatalogs) : SessionCatalogs :=
  let s := s.registerCatalog name
  { s with runtime := s.runtime.setCatalogMetadata name { workerCatalog, tableBranches := ∅ } }

/-- The name is bound to an empty catalog, and so stays listed. -/
def detach (name : Chars) (s : SessionCatalogs) : SessionCatalogs :=
  if s.catalogNames.contains name then
    let s := { s with runtime := s.runtime.removeCatalogMetadata name }
    s.registerCatalog name
  else s

def step (s : SessionCatalogs) : CatalogAction → SessionCatalogs
  | .attach name workerCatalog => s.attach name workerCatalog
  | .detach name => s.detach name
  | .setTableBranches name schema table branches =>
    { s with runtime := s.runtime.setTableBranches name schema table branches }
  | .registerCatalog name => s.registerCatalog name

def run (actions : List CatalogAction) : SessionCatalogs := actions.foldl step empty

/-- The worker catalog of an entry. -/
def workerCatalog (s : SessionCatalogs) (key : Chars) : Option Chars := (s.runtime.entry key).map (·.workerCatalog)

@[simp] theorem workerCatalog_empty (key : Chars) : empty.workerCatalog key = none := by
  simp [workerCatalog, empty, VgiRuntime.entry]

@[simp] theorem workerCatalog_registerCatalog (name : Chars) (s : SessionCatalogs) :
    (s.registerCatalog name).workerCatalog = s.workerCatalog := rfl

theorem workerCatalog_attach (name worker : Chars) (s : SessionCatalogs) :
    (s.attach name worker).workerCatalog = Function.update s.workerCatalog (lower name) (some worker) := by
  ext1 key
  by_cases hkey : key = lower name <;> simp [workerCatalog, attach, registerCatalog, hkey]

theorem detach_listed {name : Chars} {s : SessionCatalogs} (h : name ∈ s.catalogNames) :
    s.detach name = { s with runtime := s.runtime.removeCatalogMetadata name }.registerCatalog name := by
  simp [detach, h]

theorem detach_unlisted {name : Chars} {s : SessionCatalogs} (h : name ∉ s.catalogNames) : s.detach name = s := by
  simp [detach, h]

theorem workerCatalog_detach {name : Chars} {s : SessionCatalogs} (h : name ∈ s.catalogNames) :
    (s.detach name).workerCatalog = Function.update s.workerCatalog (lower name) none := by
  ext1 key
  by_cases hkey : key = lower name <;> simp [workerCatalog, detach_listed h, registerCatalog, hkey]

theorem workerCatalog_setTableBranches (name schema table : Chars) (branches : CatalogScanBranches) (s : SessionCatalogs) :
    (s.step (.setTableBranches name schema table branches)).workerCatalog = s.workerCatalog := by
  ext1 key
  by_cases hkey : key = name
  · subst hkey
    simp only [workerCatalog, step, VgiRuntime.entry_setTableBranches, Function.update_self, Option.map_map]
    rfl
  · simp [workerCatalog, step, hkey]

theorem mem_catalogNames_step {s : SessionCatalogs} {a : CatalogAction} {name : Chars} :
    name ∈ (s.step a).catalogNames ↔
      name ∈ s.catalogNames ∨ (∃ worker, a = .attach name worker) ∨ a = .registerCatalog name := by
  cases a with
  | attach other worker => simp [step, attach, registerCatalog, or_comm, eq_comm]
  | detach other =>
    simp only [step, detach, registerCatalog]
    split <;> simp_all
  | setTableBranches other schema table branches => simp [step]
  | registerCatalog other => simp [step, registerCatalog, or_comm, eq_comm]

end SessionCatalogs

/-! ### The registries of a session

An ATTACH with its companions, whatever fails on the way, is a sequence of these actions to the two registries. -/

/-- The two descriptions of one session agree: the catalogs listed, and the worker's name under each key. -/
structure Represents (s : SessionCatalogs) (r : Registries) : Prop where
  catalogNames : ∀ name, name ∈ s.catalogNames ↔ (r.catalogs.mounted name).isSome
  metadata : ∀ key, s.workerCatalog key = (r.metadata key).map (·.value.workerCatalog)

def Represented (r : Registries) : Prop := ∃ actions, Represents (SessionCatalogs.run actions) r

section
variable {r r' : Registries}

theorem Represented.step {a : CatalogAction} (h : Represented r)
    (hstep : ∀ s, Represents s r → Represents (s.step a) r') : Represented r' := by
  obtain ⟨actions, hactions⟩ := h
  refine ⟨actions ++ [a], ?_⟩
  rw [SessionCatalogs.run, List.foldl_append]
  exact hstep _ hactions

theorem Represented.congr (h : Represented r) (hcatalogs : r'.catalogs = r.catalogs) (hmetadata : r'.metadata = r.metadata) :
    Represented r' := by
  obtain ⟨actions, hactions⟩ := h
  exact ⟨actions, by rw [hcatalogs]; exact hactions.catalogNames, by rw [hmetadata]; exact hactions.metadata⟩

theorem isSome_register {name other : Chars} {provider : Option VgiCatalogProvider} (catalogs : CatalogList) :
    ((catalogs.register name provider).mounted other).isSome ↔ (catalogs.mounted other).isSome ∨ other = name := by
  by_cases hother : other = name <;> simp [hother]

theorem map_update_metadata (metadata : Chars → Option (Owned AttachedMetadata)) (key : Chars)
    (new : Option (Owned AttachedMetadata)) :
    (fun k => (Function.update metadata key new k).map (·.value.workerCatalog)) =
      Function.update (fun k => (metadata k).map (·.value.workerCatalog)) key (new.map (·.value.workerCatalog)) := by
  ext1 k
  by_cases hk : k = key
  · subst hk
    simp
  · simp [hk]

theorem Represents.registerCatalog {s : SessionCatalogs} (h : Represents s r) (name : Chars)
    (provider : Option VgiCatalogProvider) :
    Represents (s.registerCatalog name) (r.registerCatalog name provider) := by
  refine ⟨fun other => ?_, h.metadata⟩
  simp only [SessionCatalogs.registerCatalog, List.mem_insert_iff, Registries.registerCatalog, isSome_register, h.catalogNames,
    or_comm]

theorem Represents.publish {s : SessionCatalogs} (h : Represents s r) (spec : AttachSpec) (connection : VgiConnection)
    (prepared : PreparedAttach) : Represents (s.attach spec.name spec.catalog) (r.publish spec connection prepared) := by
  obtain ⟨id, value, -, -, hmetadata, hworker⟩ := Registries.publish_metadata spec connection prepared r
  refine ⟨fun other => ?_, fun key => ?_⟩
  · rw [Registries.publish_catalogs, isSome_register, ← h.catalogNames]
    simp [SessionCatalogs.attach, SessionCatalogs.registerCatalog, or_comm]
  · rw [SessionCatalogs.workerCatalog_attach, hmetadata, congrFun (map_update_metadata r.metadata _ _) key,
      funext h.metadata, Option.map_some, hworker]

theorem Represented.attachOne {parse : Chars → Except String VgiLocation} {rpcTimeout : Option Nat} {answer : AttachAnswer}
    (h : Represented r) (spec : AttachSpec) : Represented (attachOne parse rpcTimeout answer spec r).registries := by
  by_cases hpublishable : spec.Publishable parse rpcTimeout answer
  · obtain ⟨connection, prepared, -, hregistries⟩ := attachOne_of_publishable hpublishable r
    have hdiagnostics := Registries.extends_registerDiagnostics r
    rw [hregistries]
    refine (h.congr hdiagnostics.catalogs hdiagnostics.metadata).step (a := .attach spec.name spec.catalog) fun s hs => ?_
    exact hs.publish spec connection prepared
  · obtain ⟨e, -, hextends⟩ := attachOne_of_not_publishable hpublishable r
    exact h.congr hextends.catalogs hextends.metadata

theorem Represented.attach (h : Represented r) (env : AttachEnvironment) (spec : AttachSpec) :
    Represented (attach env spec r).2.registries := by
  have hvisit : ∀ companion (t : Traversal), Represented t.registries →
      Represented (visit env spec companion t).2.registries := by
    intro companion t ht
    rcases visit_cases env spec companion t with ⟨hsame, -⟩ | ⟨child, -, -, hvisit⟩
    · rw [hsame]
      exact ht
    · rw [hvisit]
      exact ht.attachOne child
  rw [VgiDatafusion.attach]
  split
  · exact h
  · dsimp only
    split
    · exact h.attachOne spec
    · rw [traverse]
      split
      · refine Worklist.exhaust_keeps (fun t : Traversal => Represented t.registries) (fun item t => hvisit item t) _ _ ?_
        exact h.attachOne spec
      · exact h.attachOne spec

theorem Represented.detach (h : Represented r) (name : Chars) : Represented (detach name r).2 := by
  by_cases hname : (r.catalogs.mounted name).isSome
  · rw [detach_eq hname]
    refine h.step (a := .detach name) fun s hs => ?_
    have hlisted := (hs.catalogNames name).2 hname
    refine ⟨fun other => ?_, fun key => ?_⟩
    · rw [SessionCatalogs.step, SessionCatalogs.detach_listed hlisted]
      exact (hs.registerCatalog name none).catalogNames other
    · rw [SessionCatalogs.step, SessionCatalogs.workerCatalog_detach hlisted, funext hs.metadata]
      exact (congrFun (map_update_metadata r.metadata (lower name) none) key).symm
  · have hsame : (VgiDatafusion.detach name r).2 = r := by
      have hmounted : (r.catalogs.mounted name).isNone = true := by simpa using hname
      simp [VgiDatafusion.detach, hmounted]
    rw [hsame]
    exact h

/-- What the two registries of a session become, these actions make of them. -/
theorem represented_run (actions : List RegistryAction) : Represented (Registries.run actions) := by
  refine List.foldlRecOn _ _ ?_ fun r h a _ => ?_
  · exact ⟨[], by simp [SessionCatalogs.run, SessionCatalogs.empty, Registries.empty, CatalogList.empty],
      by simp [SessionCatalogs.run, Registries.empty]⟩
  · cases a with
    | attach env spec => exact h.attach env spec
    | detach name => exact h.detach name
    | registerOther => exact h.congr rfl rfl
    | deregisterOther => exact h.congr rfl rfl
    | registerCatalog name => exact h.step (a := .registerCatalog name) fun s hs => hs.registerCatalog name none

end

/-! ### What is mounted -/

def mountStep (mounted : Chars → Option Chars) : CatalogAction → Chars → Option Chars
  | .attach name workerCatalog => Function.update mounted name (some workerCatalog)
  | .detach name => Function.update mounted name none
  | .setTableBranches _ _ _ _ | .registerCatalog _ => mounted

/-- The aliases attached and not detached since, as they were written. -/
def mounts (actions : List CatalogAction) : Chars → Option Chars := actions.foldl mountStep fun _ => none

theorem mounts_append (actions : List CatalogAction) (a : CatalogAction) :
    mounts (actions ++ [a]) = mountStep (mounts actions) a := by
  simp [mounts]

def Attached (actions : List CatalogAction) (name : Chars) : Prop := ∃ worker, .attach name worker ∈ actions

/-- The aliases differ by more than case from each other and from the catalogs of others. -/
structure DistinctAliases (actions : List CatalogAction) : Prop where
  aliases : ∀ name other, Attached actions name → Attached actions other → lower name = lower other → name = other
  others : ∀ name other, Attached actions name → .registerCatalog other ∈ actions → lower name ≠ lower other

theorem Attached.append {actions : List CatalogAction} {name : Chars} (h : Attached actions name) (a : CatalogAction) :
    Attached (actions ++ [a]) name :=
  h.imp fun _ hworker => List.mem_append_left _ hworker

theorem DistinctAliases.of_append {actions : List CatalogAction} {a : CatalogAction} (h : DistinctAliases (actions ++ [a])) :
    DistinctAliases actions where
  aliases := fun name other hname hother => h.aliases name other (hname.append a) (hother.append a)
  others := fun name other hname hother => h.others name other (hname.append a) (List.mem_append_left _ hother)

namespace SessionCatalogs

/-- How the two registries relate to what is mounted. -/
structure Inv (done : List CatalogAction) (s : SessionCatalogs) : Prop where
  listed : ∀ name, name ∈ s.catalogNames ↔ Attached done name ∨ .registerCatalog name ∈ done
  attached : ∀ name, (mounts done name).isSome → Attached done name
  folded : ∀ key, (s.workerCatalog key).isSome → lower key = key
  metadata : DistinctAliases done → ∀ key worker,
    s.workerCatalog key = some worker ↔ ∃ name, lower name = key ∧ mounts done name = some worker

theorem Inv.init : Inv [] empty := by
  constructor <;> simp [mounts, Attached, empty, workerCatalog, VgiRuntime.entry]

section
variable {done : List CatalogAction} {s : SessionCatalogs}

theorem Inv.listed_step (h : Inv done s) (a : CatalogAction) (name : Chars) :
    name ∈ (s.step a).catalogNames ↔ Attached (done ++ [a]) name ∨ .registerCatalog name ∈ done ++ [a] := by
  rw [mem_catalogNames_step, h.listed]
  simp only [Attached, List.mem_append, List.mem_singleton, exists_or]
  constructor
  · rintro ((hold | hold) | hnew | hnew)
    · exact .inl (.inl hold)
    · exact .inr (.inl hold)
    · exact .inl (.inr (hnew.imp fun _ h => h.symm))
    · exact .inr (.inr hnew.symm)
  · rintro ((hold | hnew) | hold | hnew)
    · exact .inl (.inl hold)
    · exact .inr (.inl (hnew.imp fun _ h => h.symm))
    · exact .inl (.inr hold)
    · exact .inr (.inr hnew.symm)

theorem Inv.attached_step (h : Inv done s) (a : CatalogAction) (name : Chars)
    (hname : (mounts (done ++ [a]) name).isSome) : Attached (done ++ [a]) name := by
  rw [mounts_append] at hname
  cases a with
  | attach other worker =>
    by_cases hother : name = other
    · exact ⟨worker, by simp [hother]⟩
    · rw [mountStep, Function.update_of_ne hother] at hname
      exact (h.attached name hname).append _
  | detach other =>
    by_cases hother : name = other
    · simp [mountStep, hother] at hname
    · rw [mountStep, Function.update_of_ne hother] at hname
      exact (h.attached name hname).append _
  | setTableBranches => exact (h.attached name hname).append _
  | registerCatalog => exact (h.attached name hname).append _

theorem Inv.folded_step (h : Inv done s) (a : CatalogAction) (key : Chars) (hkey : ((s.step a).workerCatalog key).isSome) :
    lower key = key := by
  cases a with
  | attach name worker =>
    rw [step, workerCatalog_attach] at hkey
    by_cases hsame : key = lower name
    · rw [hsame, lower_lower]
    · rw [Function.update_of_ne hsame] at hkey
      exact h.folded key hkey
  | detach name =>
    by_cases hname : name ∈ s.catalogNames
    · rw [step, workerCatalog_detach hname] at hkey
      by_cases hsame : key = lower name
      · rw [hsame, lower_lower]
      · rw [Function.update_of_ne hsame] at hkey
        exact h.folded key hkey
    · rw [step, detach_unlisted hname] at hkey
      exact h.folded key hkey
  | setTableBranches =>
    rw [workerCatalog_setTableBranches] at hkey
    exact h.folded key hkey
  | registerCatalog => exact h.folded key hkey

/-- One folded alias is written, and no other alias folds to it. -/
theorem update_iff {entries mounted : Chars → Option Chars} {name : Chars} (new : Option Chars)
    (hown : ∀ other, (mounted other).isSome → lower other = lower name → other = name)
    (h : ∀ key worker, entries key = some worker ↔ ∃ name, lower name = key ∧ mounted name = some worker) (key worker : Chars) :
    Function.update entries (lower name) new key = some worker ↔
      ∃ other, lower other = key ∧ Function.update mounted name new other = some worker := by
  by_cases hkey : key = lower name
  · subst hkey
    rw [Function.update_self]
    constructor
    · intro hnew
      exact ⟨name, rfl, by rw [Function.update_self, hnew]⟩
    · rintro ⟨other, hfold, hother⟩
      by_cases hname : other = name
      · rw [hname, Function.update_self] at hother
        exact hother
      · rw [Function.update_of_ne hname] at hother
        exact absurd (hown other (by simp [hother]) hfold) hname
  · rw [Function.update_of_ne hkey, h]
    constructor
    · rintro ⟨other, hfold, hother⟩
      have hname : other ≠ name := fun hname => hkey (by rw [← hfold, hname])
      exact ⟨other, hfold, by rw [Function.update_of_ne hname, hother]⟩
    · rintro ⟨other, hfold, hother⟩
      have hname : other ≠ name := fun hname => hkey (by rw [← hfold, hname])
      rw [Function.update_of_ne hname] at hother
      exact ⟨other, hfold, hother⟩

theorem Inv.metadata_step (h : Inv done s) (a : CatalogAction) (hdistinct : DistinctAliases (done ++ [a])) (key worker : Chars) :
    (s.step a).workerCatalog key = some worker ↔ ∃ name, lower name = key ∧ mounts (done ++ [a]) name = some worker := by
  have hmetadata := h.metadata hdistinct.of_append
  rw [mounts_append]
  cases a with
  | attach name w =>
    rw [step, workerCatalog_attach]
    refine update_iff _ (fun other hother hfold => ?_) hmetadata key worker
    exact hdistinct.aliases other name ((h.attached other hother).append _) ⟨w, by simp⟩ hfold
  | detach name =>
    by_cases hname : name ∈ s.catalogNames
    · rw [step, workerCatalog_detach hname]
      refine update_iff _ (fun other hother hfold => ?_) hmetadata key worker
      have hother := h.attached other hother
      rcases (h.listed name).1 hname with hattached | hregistered
      · exact hdistinct.of_append.aliases other name hother hattached hfold
      · exact absurd hfold (hdistinct.of_append.others other name hother hregistered)
    · have hnone : mounts done name = none := by
        by_contra hsome
        exact hname ((h.listed name).2 (.inl (h.attached name (Option.isSome_iff_ne_none.2 hsome))))
      have hsame : Function.update (mounts done) name none = mounts done := by rw [← hnone, Function.update_eq_self]
      rw [step, detach_unlisted hname, mountStep, hsame]
      exact hmetadata key worker
  | setTableBranches =>
    rw [workerCatalog_setTableBranches]
    exact hmetadata key worker
  | registerCatalog => exact hmetadata key worker

theorem Inv.run (actions : List CatalogAction) : Inv actions (SessionCatalogs.run actions) := by
  refine StepSystem.run_invariant Inv.init (fun done a s h => ?_) actions
  exact ⟨h.listed_step a, h.attached_step a, h.folded_step a, h.metadata_step a⟩

end

end SessionCatalogs

/-! ## Resolution -/

/-- A mounted alias whose worker catalog is the requested one. -/
def Matches (actions : List CatalogAction) (requested name : Chars) : Prop :=
  ∃ worker, mounts actions name = some worker ∧ lower worker = lower requested

/-- No mounted alias and no catalog of others goes by this name. -/
structure NamedByNone (actions : List CatalogAction) (requested : Chars) : Prop where
  mounted : ∀ name, (mounts actions name).isSome → lower name ≠ lower requested
  others : ∀ name, .registerCatalog name ∈ actions → lower name ≠ lower requested

/-- The one alias that matches, and nothing where none or several do. -/
structure Resolves (actions : List CatalogAction) (requested : Chars) (outcome : Except String Chars) : Prop where
  one : ∀ name, Only (Matches actions requested) name → outcome = .ok name
  otherwise : (¬ ∃! name, Matches actions requested name) → ∃ e, outcome = .error e

/-- The registries are listed in any order. -/
structure Lists (s : SessionCatalogs) (catalogNames : List Chars) (workerCatalogs : List (Chars × Chars)) : Prop where
  catalogNames : catalogNames.Perm s.catalogNames
  workerCatalogs : workerCatalogs.Perm s.runtime.workerCatalogs

section
variable {actions : List CatalogAction} {requested : Chars} {catalogNames : List Chars} {workerCatalogs : List (Chars × Chars)}

/-- Of the mounted aliases that match, the list knows those written in lower case by their folded name. -/
theorem only_listed_iff (hdistinct : DistinctAliases actions)
    (hlists : Lists (SessionCatalogs.run actions) catalogNames workerCatalogs) (key : Chars) :
    Only (fun n => n ∈ catalogNames ∧ ∃ worker, (n, worker) ∈ workerCatalogs ∧ lower worker = lower requested) key ↔
      Only (fun n => Matches actions requested n ∧ lower n = n) key := by
  have hinv := SessionCatalogs.Inv.run actions
  have hmem : ∀ n, (n ∈ catalogNames ∧ ∃ worker, (n, worker) ∈ workerCatalogs ∧ lower worker = lower requested) ↔
      Matches actions requested n ∧ lower n = n := by
    intro n
    rw [hlists.catalogNames.mem_iff]
    simp only [hlists.workerCatalogs.mem_iff, VgiRuntime.mem_workerCatalogs]
    constructor
    · rintro ⟨hn, worker, hentry, hworker⟩
      obtain ⟨name, hfold, hname⟩ := (hinv.metadata hdistinct n worker).1 hentry
      have hattached := hinv.attached name (by simp [hname])
      have hsame : lower name = lower n := by rw [← hfold, lower_lower]
      rcases (hinv.listed n).1 hn with hn | hn
      · have heq := hdistinct.aliases name n hattached hn hsame
        subst heq
        exact ⟨⟨worker, hname, hworker⟩, hfold⟩
      · exact absurd hsame (hdistinct.others name n hattached hn)
    · rintro ⟨⟨worker, hn, hworker⟩, hfold⟩
      have hattached := hinv.attached n (by simp [hn])
      exact ⟨(hinv.listed n).2 (.inl hattached), worker, (hinv.metadata hdistinct n worker).2 ⟨n, hfold, hn⟩, hworker⟩
  simp only [Only, hmem]

/-- Asked for by a name that was detached, the session still answers with it. -/
theorem not_resolves_of_detached (hdistinct : DistinctAliases actions) (hnone : NamedByNone actions requested)
    (hlists : Lists (SessionCatalogs.run actions) catalogNames workerCatalogs) {name : Chars}
    (hattached : Attached actions name) (hname : lower name = lower requested) :
    ¬ Resolves actions requested (selectCatalogAlias requested catalogNames workerCatalogs) := by
  have hinv := SessionCatalogs.Inv.run actions
  have honly : Only (fun n => n ∈ catalogNames ∧ lower n = lower requested) name := by
    refine ⟨⟨hlists.catalogNames.mem_iff.2 ((hinv.listed name).2 (.inl hattached)), hname⟩, fun other hother => ?_⟩
    rcases (hinv.listed other).1 (hlists.catalogNames.mem_iff.1 hother.1) with hmem | hmem
    · exact hdistinct.aliases other name hmem hattached (hother.2.trans hname.symm)
    · exact absurd hother.2 (hnone.others other hmem)
  rw [selectCatalogAlias_folded honly]
  intro hresolves
  by_cases hone : ∃! n, Matches actions requested n
  · obtain ⟨found, hmatch⟩ := hone
    have heq := hresolves.one found hmatch
    obtain ⟨worker, hmounted, -⟩ := hmatch.1
    rw [Except.ok.injEq] at heq
    exact hnone.mounted found (by simp [hmounted]) (heq ▸ hname)
  · obtain ⟨e, he⟩ := hresolves.otherwise hone
    cases he

theorem resolves_iff (hdistinct : DistinctAliases actions) (hnone : NamedByNone actions requested)
    (hlists : Lists (SessionCatalogs.run actions) catalogNames workerCatalogs) :
    Resolves actions requested (selectCatalogAlias requested catalogNames workerCatalogs) ↔
      (∀ name, Attached actions name → lower name ≠ lower requested) ∧
        ((∃! name, Matches actions requested name) ↔ ∃! name, Matches actions requested name ∧ lower name = name) := by
  have hinv := SessionCatalogs.Inv.run actions
  by_cases hdetached : ∃ name, Attached actions name ∧ lower name = lower requested
  · obtain ⟨name, hattached, hname⟩ := hdetached
    constructor
    · intro hresolves
      exact absurd hresolves (not_resolves_of_detached hdistinct hnone hlists hattached hname)
    · rintro ⟨hfree, -⟩
      exact absurd hname (hfree name hattached)
  · have hfree : ∀ name, Attached actions name → lower name ≠ lower requested :=
      fun name hattached hname => hdetached ⟨name, hattached, hname⟩
    have hunlisted : ∀ n ∈ catalogNames, lower n ≠ lower requested := by
      intro n hn
      rcases (hinv.listed n).1 (hlists.catalogNames.mem_iff.1 hn) with hmem | hmem
      · exact hfree n hmem
      · exact hnone.others n hmem
    have hselect : ∀ name, selectCatalogAlias requested catalogNames workerCatalogs = .ok name ↔
        Only (fun n => Matches actions requested n ∧ lower n = n) name :=
      fun name => (selectCatalogAlias_worker hunlisted name).trans (only_listed_iff hdistinct hlists name)
    constructor
    · intro hresolves
      refine ⟨hfree, ?_⟩
      constructor
      · rintro ⟨name, hone⟩
        exact ⟨name, (hselect name).1 (hresolves.one name hone)⟩
      · rintro ⟨name, hone⟩
        by_contra hseveral
        obtain ⟨e, he⟩ := hresolves.otherwise hseveral
        rw [(hselect name).2 hone] at he
        cases he
    · rintro ⟨-, hiff⟩
      refine ⟨fun name hone => ?_, fun hseveral => ?_⟩
      · obtain ⟨folded, hfolded⟩ := hiff.1 ⟨name, hone⟩
        have hsame := hone.2 folded hfolded.1.1
        exact (hselect name).2 (hsame ▸ hfolded)
      · cases houtcome : selectCatalogAlias requested catalogNames workerCatalogs with
        | error e => exact ⟨e, rfl⟩
        | ok name => exact absurd (hiff.2 ⟨name, (hselect name).1 houtcome⟩) hseveral

end

theorem sameEntry_run_iff {actions : List CatalogAction} (hdistinct : DistinctAliases actions) (name : Chars) :
    (SessionCatalogs.run actions).runtime.SameEntry name ↔
      ∀ other, (mounts actions other).isSome → lower other = lower name → lower name = name := by
  have hinv := SessionCatalogs.Inv.run actions
  have hkeys : ∀ key, ((SessionCatalogs.run actions).runtime.entry key).isSome → lower key = key :=
    fun key hkey => hinv.folded key (by simpa [SessionCatalogs.workerCatalog] using hkey)
  rw [VgiRuntime.sameEntry_iff hkeys]
  constructor
  · intro hentry other hother hsame
    obtain ⟨worker, hworker⟩ := Option.isSome_iff_exists.1 hother
    have hmetadata := (hinv.metadata hdistinct (lower name) worker).2 ⟨other, hsame, hworker⟩
    refine hentry ?_
    have hsome : ((SessionCatalogs.run actions).workerCatalog (lower name)).isSome := by simp [hmetadata]
    simpa [SessionCatalogs.workerCatalog] using hsome
  · intro hfolded hentry
    have hsome : ((SessionCatalogs.run actions).workerCatalog (lower name)).isSome := by
      simpa [SessionCatalogs.workerCatalog] using hentry
    obtain ⟨worker, hworker⟩ := Option.isSome_iff_exists.1 hsome
    obtain ⟨other, hsame, hother⟩ := (hinv.metadata hdistinct (lower name) worker).1 hworker
    exact hfolded other (by simp [hother]) hsame

/-- **After any history of attachments, a worker catalog that nothing mounted is named after resolves as it should exactly if
no detached alias is named after it either and there is one alias that matches exactly when there is one in lower case; and an
alias stands for one metadata entry exactly if it is in lower case or not mounted.** -/
theorem aliases_consistent_iff (actions : List CatalogAction) (hdistinct : DistinctAliases actions) :
    (∀ requested, NamedByNone actions requested →
      ∀ catalogNames workerCatalogs, Lists (SessionCatalogs.run actions) catalogNames workerCatalogs →
        (Resolves actions requested (selectCatalogAlias requested catalogNames workerCatalogs) ↔
          (∀ name, Attached actions name → lower name ≠ lower requested) ∧
            ((∃! name, Matches actions requested name) ↔ ∃! name, Matches actions requested name ∧ lower name = name))) ∧
    ∀ name, (SessionCatalogs.run actions).runtime.SameEntry name ↔
      ∀ other, (mounts actions other).isSome → lower other = lower name → lower name = name :=
  ⟨fun _ hnone _ _ hlists => resolves_iff hdistinct hnone hlists, sameEntry_run_iff hdistinct⟩

/-- Two mounts of one worker catalog, one of them in lower case. -/
def lakes : List CatalogAction := [.attach "Lake".toList "acme".toList, .attach "cold".toList "acme".toList]

theorem distinctAliases_lakes : DistinctAliases lakes := by
  have hattached : ∀ name, Attached lakes name ↔ name = "Lake".toList ∨ name = "cold".toList := by
    simp [Attached, lakes, exists_or]
  refine ⟨fun name other hname hother hsame => ?_, fun name other _ hother => ?_⟩
  · rw [hattached] at hname hother
    rcases hname with rfl | rfl <;> rcases hother with rfl | rfl <;> first | rfl | exact absurd hsame (by decide)
  · simp [lakes] at hother

theorem namedByNone_lakes : NamedByNone lakes "acme".toList := by
  refine ⟨fun name hname hsame => ?_, fun name hname => by simp [lakes] at hname⟩
  by_cases hcold : name = "cold".toList
  · subst hcold
    exact absurd hsame (by decide)
  · by_cases hlake : name = "Lake".toList
    · subst hlake
      exact absurd hsame (by decide)
    · simp only [mounts, lakes, List.foldl_cons, List.foldl_nil, mountStep, Function.update_of_ne hcold,
        Function.update_of_ne hlake] at hname
      cases hname

theorem aliases_consistent_lakes :
    (Resolves lakes "acme".toList (selectCatalogAlias "acme".toList (SessionCatalogs.run lakes).catalogNames
        (SessionCatalogs.run lakes).runtime.workerCatalogs) ↔
      (∀ name, Attached lakes name → lower name ≠ lower "acme".toList) ∧
        ((∃! name, Matches lakes "acme".toList name) ↔ ∃! name, Matches lakes "acme".toList name ∧ lower name = name)) ∧
    ((SessionCatalogs.run lakes).runtime.SameEntry "Lake".toList ↔
      ∀ other, (mounts lakes other).isSome → lower other = lower "Lake".toList → lower "Lake".toList = "Lake".toList) :=
  ⟨(aliases_consistent_iff lakes distinctAliases_lakes).1 _ namedByNone_lakes _ _ ⟨.refl _, .refl _⟩,
    (aliases_consistent_iff lakes distinctAliases_lakes).2 _⟩

/-- `acme`, mounted as `Lake` and as `cold`, is found to be `cold`, and the branches of a table of `Lake` are not kept. -/
theorem mixed_case_missed :
    DistinctAliases lakes ∧ NamedByNone lakes "acme".toList ∧
      ¬ Resolves lakes "acme".toList (selectCatalogAlias "acme".toList (SessionCatalogs.run lakes).catalogNames
        (SessionCatalogs.run lakes).runtime.workerCatalogs) ∧
      ¬ (SessionCatalogs.run lakes).runtime.SameEntry "Lake".toList := by
  refine ⟨distinctAliases_lakes, namedByNone_lakes, fun hresolves => ?_, fun hsame => ?_⟩
  · have hselect : selectCatalogAlias "acme".toList (SessionCatalogs.run lakes).catalogNames
        (SessionCatalogs.run lakes).runtime.workerCatalogs = .ok "cold".toList := by decide +kernel
    have hlake : Matches lakes "acme".toList "Lake".toList := ⟨"acme".toList, by decide, rfl⟩
    have hcold : Matches lakes "acme".toList "cold".toList := ⟨"acme".toList, by decide, rfl⟩
    obtain ⟨e, he⟩ := hresolves.otherwise fun hone => absurd (hone.unique hlake hcold) (by decide)
    rw [hselect] at he
    cases he
  · have hfolded := (sameEntry_run_iff distinctAliases_lakes _).1 hsame "Lake".toList (by decide) rfl
    exact absurd hfolded (by decide)

/-- Mounted as `Lake` alone it is not found. -/
example : (selectCatalogAlias "acme".toList (SessionCatalogs.run (lakes.take 1)).catalogNames
    (SessionCatalogs.run (lakes.take 1)).runtime.workerCatalogs).toOption = none := by decide +kernel

end VgiDatafusion.Catalog
