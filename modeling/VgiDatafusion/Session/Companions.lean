import VgiDatafusion.Library.Worklist
import VgiDatafusion.Session.Registry

/-!
# The companions of an attached catalog (session.rs:2209-2270)

| here | there |
| --- | --- |
| `Companion` | an entry of `pending`; its depth is the level of the queue |
| `Traversal.seen`, `catalogKey` | `seen` and its keys |
| `visit`, `tooDeep` | the body of the loop |
| `attach` | `attach`; the queue is worked off by `exhaust` |
| `AttachEnvironment.answers` | what workers and session answer while the n-th catalog is attached, in order of `attach_one` |

Not in the source: the announcer of a companion, and `Traversal.connected`, the connections `attach_one` made for
companions.

Whatever the workers announce the queue runs empty, and every connection it leaves is that of a companion some worker
announced, resolved against the root (`connectsCompanions_attach`).
-/
namespace VgiDatafusion

open Worklist

/-- What an ATTACH finds outside: the parser of locations, the session's deadline, and the answers of the workers. -/
structure AttachEnvironment where
  parse : Chars → Except String VgiLocation
  rpcTimeout : Option Nat
  answers : Nat → AttachAnswer

structure Companion where
  info : AttachCatalogInfo
  announcer : AttachSpec

/-- A catalog that a connection was made for. -/
structure Connected where
  companion : Companion
  spec : AttachSpec
  connection : VgiConnection

/-- The state of the loop (`session.rs:2229-2268`), with the catalogs it has connected. -/
structure Traversal where
  registries : Registries
  seen : List Chars := []
  served : Nat := 0
  connected : List Connected := []

/-- The key of a catalog in `seen` (`session.rs:2234`, `2257`). -/
def catalogKey (spec : AttachSpec) : Chars := spec.location ++ Char.ofNat 0 :: spec.catalog

/-- An entry below the eighth level (`session.rs:2236-2241`). -/
def tooDeep (companion : Companion) : Except String Unit :=
  if companion.info.required then .error "required VGI companion catalog nesting exceeds 8 levels" else .ok ()

/-- A companion that is not attached is skipped, or ends the ATTACH (`session.rs:2245-2263`). -/
def passOver (companion : Companion) (e : String) (t : Traversal) : Except String (List Companion) × Traversal :=
  (if companion.info.required then .error e else .ok [], t)

def announcedBy (spec : AttachSpec) (infos : List AttachCatalogInfo) : List Companion :=
  infos.map fun info => { info, announcer := spec }

section
variable (env : AttachEnvironment)

/-- The end of a turn (`session.rs:2264-2267`). -/
def attachCompanion (spec : AttachSpec) (companion : Companion) (t : Traversal) :
    Except String (List Companion) × Traversal :=
  let outcome := attachOne env.parse env.rpcTimeout (env.answers t.served) spec t.registries
  (outcome.result.map (announcedBy spec),
    { registries := outcome.registries
      seen := catalogKey spec :: t.seen
      served := t.served + 1
      connected := t.connected ++ outcome.connection.toList.map fun connection => { companion, spec, connection } })

/-- One turn of the loop (`session.rs:2242-2267`); every companion is resolved against the root of the ATTACH. -/
def visit (root : AttachSpec) (companion : Companion) (t : Traversal) : Except String (List Companion) × Traversal :=
  match companionSpec root companion.info with
  | .error e => passOver companion e t
  | .ok none => (.ok [], t)
  | .ok (some spec) =>
    let name := String.ofList spec.name
    if (t.registries.catalogs.mounted spec.name).isSome then
      passOver companion s!"required VGI companion alias `{name}` is already registered" t
    else if t.seen.contains (catalogKey spec) then passOver companion "required VGI companion catalog cycle detected" t
    else attachCompanion env spec companion t

/-- The option `attach_companions` (`session.rs:2213-2223`). -/
def companionsEnabled (spec : AttachSpec) : Except String Bool := spec.boolOption "attach_companions" true

/-- The traversal when the root is attached. -/
def traverse (spec : AttachSpec) (enabled : Bool) (infos : List AttachCatalogInfo) (registries : Registries) :
    Except String Unit × Traversal :=
  let t := { registries, seen := [catalogKey spec], served := 1 }
  if enabled then exhaust 8 tooDeep (visit env spec) ((announcedBy spec infos).map (·, 1)) t else (.ok (), t)

/-- `attach` (`session.rs:2209-2270`). -/
def attach (spec : AttachSpec) (s : Registries) : Except String Unit × Traversal :=
  match companionsEnabled spec with
  | .error e => (.error e, { registries := s })
  | .ok enabled =>
    let outcome := attachOne env.parse env.rpcTimeout (env.answers 0) spec s
    match outcome.result with
    | .error e => (.error e, { registries := outcome.registries, served := 1 })
    | .ok infos => traverse env spec enabled infos outcome.registries

end

section
variable {env : AttachEnvironment} {root : AttachSpec}

/-! ## What a visit can do -/

theorem visit_cases (env : AttachEnvironment) (root : AttachSpec) (companion : Companion) (t : Traversal) :
    ((visit env root companion t).2 = t ∧ ∀ children, (visit env root companion t).1 = .ok children → children = []) ∨
      ∃ spec, companionSpec root companion.info = .ok (some spec) ∧ (t.registries.catalogs.mounted spec.name).isSome = false ∧
        visit env root companion t = attachCompanion env spec companion t := by
  have hpass : ∀ e, (passOver companion e t).2 = t ∧ ∀ children, (passOver companion e t).1 = .ok children → children = [] := by
    intro e
    refine ⟨rfl, fun children h => ?_⟩
    simp only [passOver] at h
    split at h <;> cases h
    rfl
  cases hspec : companionSpec root companion.info with
  | error e =>
    have hvisit : visit env root companion t = passOver companion e t := by simp only [visit, hspec]
    rw [hvisit]
    exact .inl (hpass e)
  | ok result =>
    cases result with
    | none =>
      have hvisit : visit env root companion t = (.ok [], t) := by simp only [visit, hspec]
      rw [hvisit]
      exact .inl ⟨rfl, fun children h => by cases h; rfl⟩
    | some spec =>
      by_cases hname : (t.registries.catalogs.mounted spec.name).isSome
      · have hvisit : ∃ e, visit env root companion t = passOver companion e t := ⟨_, by simp [visit, hspec, hname]; rfl⟩
        obtain ⟨e, hvisit⟩ := hvisit
        rw [hvisit]
        exact .inl (hpass e)
      · by_cases hseen : catalogKey spec ∈ t.seen
        · have hvisit : ∃ e, visit env root companion t = passOver companion e t := ⟨_, by simp [visit, hspec, hname, hseen]; rfl⟩
          obtain ⟨e, hvisit⟩ := hvisit
          rw [hvisit]
          exact .inl (hpass e)
        · exact .inr ⟨spec, rfl, by simpa using hname, by simp [visit, hspec, hname, hseen]⟩

theorem visit_of_companionSpec {companion : Companion} {spec : AttachSpec} {t : Traversal}
    (hspec : companionSpec root companion.info = .ok (some spec)) (hfree : (t.registries.catalogs.mounted spec.name).isSome = false)
    (hseen : catalogKey spec ∉ t.seen) : visit env root companion t = attachCompanion env spec companion t := by
  simp [visit, hspec, hfree, hseen]

/-- No visit forgets a connection. -/
theorem connected_visit (companion : Companion) (t : Traversal) {c : Connected} (h : c ∈ t.connected) :
    c ∈ (visit env root companion t).2.connected := by
  rcases visit_cases env root companion t with ⟨hsame, -⟩ | ⟨spec, -, -, hvisit⟩
  · rw [hsame]
    exact h
  · rw [hvisit]
    exact List.mem_append_left _ h

theorem connected_exhaust {companion : Companion} {level : Nat} {rest : List (Companion × Nat)} {t : Traversal} {c : Connected}
    (hlevel : level ≤ 8) (h : c ∈ (visit env root companion t).2.connected) :
    c ∈ (exhaust 8 tooDeep (visit env root) ((companion, level) :: rest) t).2.connected := by
  rw [exhaust_cons hlevel]
  split
  · rename_i hvisit
    rw [hvisit] at h
    exact h
  · rename_i hvisit
    rw [hvisit] at h
    exact exhaust_keeps (c ∈ ·.connected) (fun item t => connected_visit item t) _ _ h

theorem attachOne_connects {parse : Chars → Except String VgiLocation} {rpcTimeout : Option Nat} {answer : AttachAnswer}
    {spec : AttachSpec} {s : Registries} {globalFunctions : Bool} {connection : VgiConnection}
    (hglobal : spec.globalFunctionsEnabled = .ok globalFunctions)
    (hconnection : spec.connectionWithRuntime parse rpcTimeout = .ok connection) :
    (attachOne parse rpcTimeout answer spec s).connection = some connection := by
  simp only [attachOne, hglobal, hconnection]
  split <;> rfl

/-- A companion is connected by its own spec. -/
theorem attachOne_connection {parse : Chars → Except String VgiLocation} {rpcTimeout : Option Nat} {answer : AttachAnswer}
    {spec : AttachSpec} {s : Registries} {connection : VgiConnection}
    (h : (attachOne parse rpcTimeout answer spec s).connection = some connection) :
    spec.connectionWithRuntime parse rpcTimeout = .ok connection := by
  rw [attachOne] at h
  split at h
  · cases h
  · split at h
    · cases h
    · rename_i hconnection
      split at h <;> cases h <;> exact hconnection

/-! ## The whole traversal -/

/-- Announced by a worker that some catalog of this ATTACH reached. -/
def AttachEnvironment.Announces (env : AttachEnvironment) (info : AttachCatalogInfo) : Prop :=
  ∃ n provider, (env.answers n).discovered = .ok provider ∧ info ∈ provider.companions

/-- The connections of a traversal are those of its companions, resolved against the root. -/
def ConnectsCompanions (env : AttachEnvironment) (root : AttachSpec) (t : Traversal) : Prop :=
  ∀ c ∈ t.connected, env.Announces c.companion.info ∧ companionSpec root c.companion.info = .ok (some c.spec) ∧
    c.spec.connectionWithRuntime env.parse env.rpcTimeout = .ok c.connection

/-- What an attached catalog announces, its worker discovered. -/
theorem attachOne_announces {n : Nat} {spec : AttachSpec} {s : Registries} {infos : List AttachCatalogInfo}
    (h : (attachOne env.parse env.rpcTimeout (env.answers n) spec s).result = .ok infos) :
    ∀ info ∈ infos, env.Announces info := by
  rw [attachOne] at h
  split at h
  · cases h
  · split at h
    · cases h
    · dsimp only at h
      split at h
      · cases h
      · rename_i prepared hprepared
        cases h
        obtain ⟨_, _, hprepared⟩ := except_of_bind_ok hprepared
        obtain ⟨provider, hprovider, hprepared⟩ := except_of_bind_ok hprepared
        have hsame : prepared.provider = provider := by
          split at hprepared
          · obtain ⟨_, _, hprepared⟩ := except_of_bind_ok hprepared
            cases hprepared
            rfl
          · cases hprepared
            rfl
        rw [hsame]
        exact fun info hinfo => ⟨n, provider, hprovider, hinfo⟩

theorem connectsCompanions_visit (companion : Companion) (t : Traversal) (hcompanion : env.Announces companion.info)
    (h : ConnectsCompanions env root t) : ConnectsCompanions env root (visit env root companion t).2 := by
  rcases visit_cases env root companion t with ⟨hsame, -⟩ | ⟨spec, hspec, -, hvisit⟩
  · rw [hsame]
    exact h
  · rw [hvisit]
    intro c hc
    rcases List.mem_append.1 hc with hold | hnew
    · exact h c hold
    · obtain ⟨connection, hconnection, rfl⟩ := List.mem_map.1 hnew
      exact ⟨hcompanion, hspec, attachOne_connection (Option.mem_toList.1 hconnection)⟩

theorem announces_visit (companion : Companion) (t : Traversal) (children : List Companion)
    (h : (visit env root companion t).1 = .ok children) : ∀ child ∈ children, env.Announces child.info := by
  rcases visit_cases env root companion t with ⟨-, hnone⟩ | ⟨spec, -, -, hvisit⟩
  · simp [hnone children h]
  · rw [hvisit, attachCompanion] at h
    dsimp only at h
    cases hresult : (attachOne env.parse env.rpcTimeout (env.answers t.served) spec t.registries).result with
    | error e =>
      rw [hresult] at h
      cases h
    | ok infos =>
      rw [hresult] at h
      cases h
      intro child hchild
      obtain ⟨info, hinfo, rfl⟩ := List.mem_map.1 hchild
      exact attachOne_announces hresult info hinfo

theorem connectsCompanions_attach (env : AttachEnvironment) (spec : AttachSpec) (s : Registries) :
    ConnectsCompanions env spec (attach env spec s).2 := by
  have hnone : ∀ t : Traversal, t.connected = [] → ConnectsCompanions env spec t := fun t ht c hc => by simp [ht] at hc
  rw [attach]
  cases companionsEnabled spec with
  | error e => exact hnone _ rfl
  | ok enabled =>
    dsimp only
    cases hresult : (attachOne env.parse env.rpcTimeout (env.answers 0) spec s).result with
    | error e => exact hnone _ rfl
    | ok infos =>
      dsimp only [traverse]
      split
      · refine exhaust_invariant (ConnectsCompanions env spec) (fun companion => env.Announces companion.info)
          (fun item t => connectsCompanions_visit item t) (fun item t children _ => announces_visit item t children)
          _ _ ?_ (hnone _ rfl)
        intro entry hentry
        obtain ⟨companion, hcompanion, rfl⟩ := List.mem_map.1 hentry
        obtain ⟨info, hinfo, rfl⟩ := List.mem_map.1 hcompanion
        exact attachOne_announces hresult info hinfo
      · exact hnone _ rfl

end

end VgiDatafusion
