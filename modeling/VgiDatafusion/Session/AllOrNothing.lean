import VgiDatafusion.Session.Publishing
import VgiDatafusion.Session.Trust

/-!
# A failed ATTACH (session.rs:2209-2270, 2330-2354)

`attach_one` does everything that can fail before it touches a registry (`attachOne_of_not_publishable`), but `attach`
goes on to the companions when the root is published, and a companion that fails ends the statement without taking
anything back. No companion is attached under the alias of the root (`mounted_visit`), so what the root has published is
never what was there before: a failed ATTACH leaves the registries alone exactly if it failed before the root was
published (`failed_attach_unchanged_iff`).
-/
namespace VgiDatafusion

open Worklist

variable {env : AttachEnvironment} {root spec : AttachSpec}

/-! ## What stays mounted -/

theorem mounted_attachOne {answer : AttachAnswer} {name : Chars} (hname : name ≠ spec.name) (s : Registries) :
    (attachOne env.parse env.rpcTimeout answer spec s).registries.catalogs.mounted name = s.catalogs.mounted name := by
  by_cases hpublishable : spec.Publishable env.parse env.rpcTimeout answer
  · obtain ⟨connection, prepared, -, hregistries⟩ := attachOne_of_publishable hpublishable s
    rw [hregistries, Registries.publish_catalogs, (Registries.extends_registerDiagnostics s).catalogs,
      CatalogList.register_mounted, Function.update_of_ne hname]
  · obtain ⟨e, -, hextends⟩ := attachOne_of_not_publishable hpublishable s
    rw [hextends.catalogs]

/-- A companion is only attached under a name that is free. -/
theorem mounted_visit (companion : Companion) {name : Chars} {catalog : MountedCatalog} (t : Traversal)
    (h : t.registries.catalogs.mounted name = some catalog) :
    (visit env root companion t).2.registries.catalogs.mounted name = some catalog := by
  rcases visit_cases env root companion t with ⟨hsame, -⟩ | ⟨spec, -, hfree, hvisit⟩
  · rw [hsame]
    exact h
  · have hname : name ≠ spec.name := by
      rintro rfl
      simp [h] at hfree
    rw [hvisit]
    exact (mounted_attachOne hname t.registries).trans h

theorem mounted_traverse (enabled : Bool) (infos : List AttachCatalogInfo) {s : Registries} {name : Chars}
    {catalog : MountedCatalog} (h : s.catalogs.mounted name = some catalog) :
    (traverse env spec enabled infos s).2.registries.catalogs.mounted name = some catalog := by
  rw [traverse]
  split
  · refine exhaust_keeps (·.registries.catalogs.mounted name = some catalog) (fun item t => mounted_visit item t) _ _ ?_
    exact h
  · exact h

/-! ## The statement as a whole -/

/-- The catalogs, functions, macros, default schemas and metadata are those of before, apart from diagnostics functions
whose names were free. -/
def Unchanged (s s' : Registries) : Prop := s.Extends Registries.IsDiagnostics s'

/-- The ATTACH gets as far as publishing its own catalog. -/
def RootPublished (env : AttachEnvironment) (spec : AttachSpec) : Prop :=
  (∃ enabled, companionsEnabled spec = .ok enabled) ∧ spec.Publishable env.parse env.rpcTimeout (env.answers 0)

theorem unchanged_of_not_rootPublished (h : ¬ RootPublished env spec) (s : Registries) :
    Unchanged s (attach env spec s).2.registries := by
  cases henabled : companionsEnabled spec with
  | error e =>
    simp only [attach, henabled]
    exact .refl s
  | ok enabled =>
    have hroot : ¬ spec.Publishable env.parse env.rpcTimeout (env.answers 0) := fun hp => h ⟨⟨enabled, henabled⟩, hp⟩
    obtain ⟨e, hresult, hextends⟩ := attachOne_of_not_publishable hroot s
    simp only [attach, henabled, hresult]
    exact hextends

/-- The catalog of the root is a new one, whatever became of the companions. -/
theorem mounted_of_rootPublished (h : RootPublished env spec) (s : Registries) :
    ∃ catalog, (attach env spec s).2.registries.catalogs.mounted spec.name = some catalog ∧ catalog.id = s.catalogs.next := by
  obtain ⟨⟨enabled, henabled⟩, hpublishable⟩ := h
  obtain ⟨connection, prepared, hresult, hregistries⟩ := attachOne_of_publishable hpublishable s
  refine ⟨{ id := s.catalogs.next, provider := some prepared.provider }, ?_, rfl⟩
  simp only [attach, henabled, hresult]
  refine mounted_traverse enabled _ ?_
  rw [hregistries, Registries.publish_catalogs, (Registries.extends_registerDiagnostics s).catalogs,
    CatalogList.register_mounted, Function.update_self]

theorem not_unchanged_of_rootPublished (h : RootPublished env spec) (s : Registries) :
    ¬ Unchanged s (attach env spec s).2.registries := by
  intro hunchanged
  obtain ⟨catalog, hcatalog, hid⟩ := mounted_of_rootPublished h s
  rw [hunchanged.catalogs] at hcatalog
  have hbelow := s.catalogs.below spec.name catalog hcatalog
  omega

/-- **A failed ATTACH leaves the registries as they were exactly if it failed before its own catalog was published.** -/
theorem failed_attach_unchanged_iff {s : Registries} {e : String} (_ : (attach env spec s).1 = .error e) :
    Unchanged s (attach env spec s).2.registries ↔ ¬ RootPublished env spec :=
  ⟨fun hunchanged hroot => not_unchanged_of_rootPublished hroot s hunchanged,
    fun hroot => unchanged_of_not_rootPublished hroot s⟩

/-- The worker of the root cannot be discovered. -/
def unreachable : AttachEnvironment :=
  { announcing filesCompanion with answers := fun _ => { options := .ok (), discovered := .error "connection refused" } }

theorem failed_attach_unchanged_unreachable :
    (attach unreachable remoteSpec .empty).1 = .error "connection refused" ∧
      (Unchanged .empty (attach unreachable remoteSpec .empty).2.registries ↔ ¬ RootPublished unreachable remoteSpec) :=
  ⟨rfl, failed_attach_unchanged_iff rfl⟩

/-- A required companion of a type that is not attached. -/
def foreignCompanion : AttachCatalogInfo := { filesCompanion with dbType := "postgres".toList, required := true }

/-- The ATTACH fails on the companion of a root that is attached by then. -/
theorem failed_attach_leaves_root : ∃ e, (attach (announcing foreignCompanion) remoteSpec .empty).1 = .error e ∧
    ¬ Unchanged .empty (attach (announcing foreignCompanion) remoteSpec .empty).2.registries := by
  have hattach : ∃ t, attach (announcing foreignCompanion) remoteSpec .empty =
      exhaust 8 tooDeep (visit (announcing foreignCompanion) remoteSpec) [(⟨foreignCompanion, remoteSpec⟩, 1)] t ∧
      ∃ e, visit (announcing foreignCompanion) remoteSpec ⟨foreignCompanion, remoteSpec⟩ t = (.error e, t) :=
    ⟨_, rfl, _, rfl⟩
  obtain ⟨t, hattach, e, hvisit⟩ := hattach
  have hroot : RootPublished (announcing foreignCompanion) remoteSpec := ⟨⟨true, rfl⟩, true, _, _, rfl, rfl, rfl⟩
  refine ⟨e, ?_, not_unchanged_of_rootPublished hroot .empty⟩
  rw [hattach, exhaust_cons (by decide), hvisit]

end VgiDatafusion
