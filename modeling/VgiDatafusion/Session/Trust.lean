import VgiDatafusion.Session.Companions

/-!
# Local paths and the companions of a remote catalog (README.md:185-190; lib.rs:468-486)

A remote worker may name local paths only if the client said so at ATTACH. A companion's options are read by the code
that reads the client's (`companionSpec`), so a worker that supplies `allow_local_format_paths` or a location of its own
decides for its companion: `companion_allowsLocalFormatPaths` says exactly when, `companions_keep_trust` says it of the
whole traversal, and `companion_raises_trust` is a remote catalog whose companion reads local files.
-/
namespace VgiDatafusion

open Worklist

namespace AttachSpec

variable {spec : AttachSpec} {parse : Chars → Except String VgiLocation} {connection : VgiConnection}

theorem connection_ok (h : spec.connection parse = .ok connection) :
    parse spec.location = .ok connection.location ∧
      spec.boolOption "allow_local_format_paths" false = .ok connection.allowLocalFormatPaths := by
  obtain ⟨location, hlocation, h⟩ := except_of_bind_ok h
  obtain ⟨_, _, h⟩ := except_of_bind_ok h
  obtain ⟨_, _, h⟩ := except_of_bind_ok h
  obtain ⟨_, _, h⟩ := except_of_bind_ok h
  obtain ⟨_, _, h⟩ := except_of_bind_ok h
  obtain ⟨_, _, h⟩ := except_of_bind_ok h
  obtain ⟨allow, hallow, h⟩ := except_of_bind_ok h
  obtain ⟨_, _, h⟩ := except_of_bind_ok h
  cases h
  exact ⟨hlocation, hallow⟩

/-- The session's deadline has no part in it. -/
theorem connectionWithRuntime_ok {rpcTimeout : Option Nat} (h : spec.connectionWithRuntime parse rpcTimeout = .ok connection) :
    parse spec.location = .ok connection.location ∧
      spec.boolOption "allow_local_format_paths" false = .ok connection.allowLocalFormatPaths := by
  rw [connectionWithRuntime] at h
  cases hconnection : spec.connection parse with
  | error e =>
    rw [hconnection] at h
    cases h
  | ok made =>
    rw [hconnection] at h
    cases h
    have hmade := connection_ok hconnection
    exact ⟨hmade.1, hmade.2⟩

end AttachSpec

/-- The worker asks for local paths, or names a location that is trusted with them. -/
def AttachCatalogInfo.RaisesTrust (parse : Chars → Except String VgiLocation) (info : AttachCatalogInfo) : Prop :=
  info.supplied "allow_local_format_paths".toList = some "true".toList ∨
    ∃ text location, info.supplied "location".toList = some text ∧ parse text = .ok location ∧ location.isLocal = true

theorem companionSpec_ok {parent spec : AttachSpec} {info : AttachCatalogInfo}
    (h : companionSpec parent info = .ok (some spec)) :
    spec.location = (info.supplied "location".toList).getD parent.location ∧
      spec.options = Function.update info.merged "location".toList none := by
  rw [companionSpec] at h
  split at h
  · split at h <;> cases h
  · split at h
    · cases h
    · obtain ⟨location, hlocation, h⟩ := except_of_bind_ok h
      cases h
      rw [companionLocation_eq] at hlocation
      cases hlocation
      exact ⟨rfl, rfl⟩

theorem parseBool_eq_true {s : Chars} : parseBool s = some true ↔ s = "true".toList := by
  rw [parseBool]
  split
  · simp_all
  · split <;> simp_all

/-- A flag among the options of a companion is set by the worker that announced it. -/
theorem boolOption_companion {parent spec : AttachSpec} {info : AttachCatalogInfo} {name : String} {value : Bool}
    (h : companionSpec parent info = .ok (some spec)) (hname : name.toList ≠ "location".toList)
    (hvalue : spec.boolOption name false = .ok value) : value = true ↔ info.supplied name.toList = some "true".toList := by
  have hoption : spec.options name.toList = (info.supplied name.toList).map sqlString := by
    rw [(companionSpec_ok h).2, Function.update_of_ne hname, AttachCatalogInfo.merged_eq_supplied]
  rw [AttachSpec.boolOption, hoption] at hvalue
  cases hsupplied : info.supplied name.toList with
  | none =>
    rw [hsupplied] at hvalue
    cases hvalue
    simp
  | some text =>
    rw [hsupplied, Option.map_some] at hvalue
    obtain ⟨read, hread, hvalue⟩ := except_of_bind_ok hvalue
    rw [optionString_sqlString] at hread
    cases hread
    rw [Option.some.injEq, ← parseBool_eq_true]
    split at hvalue
    · rename_i hparse
      cases hvalue
      simp [hparse]
    · cases hvalue

/-- Below a remote root, a companion may name local paths exactly if its worker says so. -/
theorem companion_allowsLocalFormatPaths {parse : Chars → Except String VgiLocation} {rpcTimeout : Option Nat}
    {root spec : AttachSpec} {info : AttachCatalogInfo} {location : VgiLocation} {connection : VgiConnection}
    (hroot : parse root.location = .ok location) (hremote : location.isLocal = false)
    (hspec : companionSpec root info = .ok (some spec))
    (hconnection : spec.connectionWithRuntime parse rpcTimeout = .ok connection) :
    connection.allowsLocalFormatPaths = true ↔ info.RaisesTrust parse := by
  obtain ⟨hlocation, hallow⟩ := AttachSpec.connectionWithRuntime_ok hconnection
  rw [(companionSpec_ok hspec).1] at hlocation
  have hallow := boolOption_companion hspec (by decide) hallow
  rw [VgiConnection.allowsLocalFormatPaths, Bool.or_eq_true, hallow, AttachCatalogInfo.RaisesTrust]
  refine or_congr_right ?_
  cases hsupplied : info.supplied "location".toList with
  | none =>
    rw [hsupplied, Option.getD_none, hroot] at hlocation
    cases hlocation
    simp [hremote]
  | some text =>
    rw [hsupplied, Option.getD_some] at hlocation
    simp [hlocation]

/-! ## The traversal of a remote catalog -/

/-- **No companion of a remote catalog may name local paths, as long as none of those that are connected asks for it by
an option or a location of its own.** -/
theorem companions_keep_trust (env : AttachEnvironment) (root : AttachSpec) (s : Registries) {location : VgiLocation}
    (hroot : env.parse root.location = .ok location) (hremote : location.isLocal = false) :
    ((∀ c ∈ (attach env root s).2.connected, c.connection.allowsLocalFormatPaths = false) ↔
      ∀ c ∈ (attach env root s).2.connected, ¬ c.companion.info.RaisesTrust env.parse) ∧
    ((∀ info, env.Announces info → ¬ info.RaisesTrust env.parse) →
      ∀ c ∈ (attach env root s).2.connected, c.connection.allowsLocalFormatPaths = false) := by
  have hconnected := connectsCompanions_attach env root s
  have htrust : ∀ c ∈ (attach env root s).2.connected,
      (c.connection.allowsLocalFormatPaths = false ↔ ¬ c.companion.info.RaisesTrust env.parse) := by
    intro c hc
    obtain ⟨-, hspec, hconnection⟩ := hconnected c hc
    rw [← companion_allowsLocalFormatPaths hroot hremote hspec hconnection, Bool.not_eq_true]
  refine ⟨forall₂_congr htrust, ?_⟩
  intro hannounced c hc
  exact (htrust c hc).2 (hannounced _ (hconnected c hc).1)

def remoteSpec : AttachSpec :=
  { catalog := "sales".toList, name := "sales".toList, location := "https://worker.example/vgi".toList
    options := fun _ => none }

def providerWith (companions : List AttachCatalogInfo) : VgiCatalogProvider :=
  { schemas := [], macros := [], defaultSchema := "main".toList, globalFunctionPrefix := [], globalFunctions := []
    companions }

/-- A remote worker whose answer names one companion. -/
def announcing (companion : AttachCatalogInfo) : AttachEnvironment :=
  { parse := fun url => .ok (.http url)
    rpcTimeout := none
    answers := fun n =>
      { options := .ok (), discovered := .ok (providerWith (if n = 0 then [companion] else [])) } }

def filesCompanion : AttachCatalogInfo :=
  { target := "files".toList, name := "files".toList, dbType := "vgi".toList, required := false
    options := [("allow_local_format_paths".toList, "true".toList)] }

theorem companions_keep_trust_remote :
    (∀ c ∈ (attach (announcing { filesCompanion with options := [] }) remoteSpec .empty).2.connected,
      c.connection.allowsLocalFormatPaths = false) ↔
    ∀ c ∈ (attach (announcing { filesCompanion with options := [] }) remoteSpec .empty).2.connected,
      ¬ c.companion.info.RaisesTrust (announcing { filesCompanion with options := [] }).parse :=
  (companions_keep_trust (announcing { filesCompanion with options := [] }) remoteSpec .empty
    rfl (by decide)).1

/-- The client attached a remote catalog without the option; its worker added it for the companion. -/
theorem companion_raises_trust :
    ∃ location, (announcing filesCompanion).parse remoteSpec.location = .ok location ∧ location.isLocal = false ∧
      remoteSpec.options "allow_local_format_paths".toList = none ∧
      ∃ c ∈ (attach (announcing filesCompanion) remoteSpec .empty).2.connected,
        c.connection.allowsLocalFormatPaths = true := by
  refine ⟨.http remoteSpec.location, rfl, by decide, rfl, ?_⟩
  obtain ⟨spec, hspec⟩ : ∃ spec, companionSpec remoteSpec filesCompanion = .ok (some spec) := ⟨_, rfl⟩
  have hname : spec.name = "files".toList := by cases hspec; rfl
  have hglobal : spec.globalFunctionsEnabled = .ok true := by cases hspec; rfl
  have hkey : catalogKey spec ∉ [catalogKey remoteSpec] := by cases hspec; decide
  obtain ⟨connection, hconnection, hallows⟩ : ∃ connection, spec.connectionWithRuntime (announcing filesCompanion).parse none
      = .ok connection ∧ connection.allowsLocalFormatPaths = true := by
    cases hspec
    exact ⟨_, rfl, by decide⟩
  refine ⟨⟨⟨filesCompanion, remoteSpec⟩, spec, connection⟩, connected_exhaust (by decide) ?_, hallows⟩
  rw [visit_of_companionSpec hspec (by rw [hname]; rfl) hkey]
  refine List.mem_append_right _ (List.mem_map.2 ⟨connection, ?_, rfl⟩)
  exact Option.mem_toList.2 (attachOne_connects hglobal hconnection)

end VgiDatafusion
