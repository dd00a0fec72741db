import VgiDatafusion.Session.CompanionLocations

/-!
# Companions that are not required (session.rs:2229-2270, 2325-2354)

A companion can fail on its turn in two ways: it is passed over (`companion_spec`, the depth, the alias, the seen-set), or
its own attach fails (`FailsToAttach`). `attach` asks for the `required` flag in the first case only; the `?` on
`attach_one` ends the statement for any companion.

If whatever fails is not required, an ATTACH does what it can (`BestEffort`) exactly if no companion fails in its own
attach (`bestEffort_iff`).
-/
namespace VgiDatafusion

open Worklist

/-- Nothing passes the companion over. -/
structure Unobstructed (root : AttachSpec) (companion : Companion) (t : Traversal) (spec : AttachSpec) : Prop where
  resolved : companionSpec root companion.info = .ok (some spec)
  free : (t.registries.catalogs.mounted spec.name).isSome = false
  unseen : catalogKey spec ∉ t.seen

section
variable (env : AttachEnvironment) (root : AttachSpec)

/-- Its options, its connection or its worker's discovery fails. -/
def FailsToAttach (companion : Companion) (t : Traversal) : Prop :=
  ∃ spec, Unobstructed root companion t spec ∧ ¬ spec.Publishable env.parse env.rpcTimeout (env.answers t.served)

/-- The turn ends the ATTACH with an error. -/
def Fails (turn : Turn Companion Traversal) : Prop :=
  8 < turn.level ∨ (∀ spec, ¬ Unobstructed root turn.item turn.state spec) ∨ FailsToAttach env root turn.item turn.state

/-- The statement succeeds; the root is attached, everything that was announced has its turn, and what does not fail on its
turn is attached. -/
structure BestEffort (s : Registries) : Prop where
  succeeds : (attach env root s).1 = .ok ()
  rootMounted : ∃ catalog, (attach env root s).2.registries.catalogs.mounted root.name = some catalog ∧
    catalog.id = s.catalogs.next
  announced : companionsEnabled root = .ok true → ∀ infos,
    (attachOne env.parse env.rpcTimeout (env.answers 0) root s).result = .ok infos →
      Worklist.Covers ((announcedBy root infos).map (·, 1)) (attachTurns env root s)
  continues : Continues 8 (visit env root) (attachTurns env root s)
  attached : ∀ turn ∈ attachTurns env root s, turn.level ≤ 8 → ∀ spec, Unobstructed root turn.item turn.state spec →
    spec.Publishable env.parse env.rpcTimeout (env.answers turn.state.served) →
      ∃ catalog, (attach env root s).2.registries.catalogs.mounted spec.name = some catalog ∧
        catalog.id = turn.state.registries.catalogs.next

end

section
variable {env : AttachEnvironment} {root : AttachSpec}

/-! ## One turn -/

theorem visit_of_unobstructed {companion : Companion} {t : Traversal} {spec : AttachSpec} (h : Unobstructed root companion t spec) :
    visit env root companion t = attachCompanion env spec companion t :=
  visit_of_companionSpec h.resolved h.free h.unseen

/-- What is passed over and not required adds nothing. -/
theorem visit_of_not_unobstructed {companion : Companion} {t : Traversal} (h : ∀ spec, ¬ Unobstructed root companion t spec)
    (hoptional : companion.info.required = false) : visit env root companion t = (.ok [], t) := by
  have hpass : ∀ e, passOver companion e t = (.ok [], t) := fun e => by simp [passOver, hoptional]
  cases hspec : companionSpec root companion.info with
  | error e => simp only [visit, hspec, hpass]
  | ok result =>
    cases result with
    | none => simp only [visit, hspec]
    | some spec =>
      by_cases hfree : (t.registries.catalogs.mounted spec.name).isSome
      · simp only [visit, hspec, hfree, if_true, hpass]
      · by_cases hseen : catalogKey spec ∈ t.seen
        · simp [visit, hspec, hfree, hseen, hpass]
        · exact absurd ⟨hspec, by simpa using hfree, hseen⟩ (h spec)

theorem unobstructed_unique {companion : Companion} {t : Traversal} {spec spec' : AttachSpec}
    (h : Unobstructed root companion t spec) (h' : Unobstructed root companion t spec') : spec' = spec := by
  have hsame := h.resolved.symm.trans h'.resolved
  cases hsame
  rfl

theorem attachCompanion_ok_iff {companion : Companion} {t : Traversal} {spec : AttachSpec} :
    (∃ children, (attachCompanion env spec companion t).1 = .ok children) ↔
      spec.Publishable env.parse env.rpcTimeout (env.answers t.served) := by
  by_cases hpublishable : spec.Publishable env.parse env.rpcTimeout (env.answers t.served)
  · obtain ⟨connection, prepared, hresult, -⟩ := attachOne_of_publishable hpublishable t.registries
    simp [attachCompanion, hresult, hpublishable, Except.map]
  · obtain ⟨e, hresult, -⟩ := attachOne_of_not_publishable hpublishable t.registries
    simp [attachCompanion, hresult, hpublishable, Except.map]

theorem visit_ok_iff {companion : Companion} {t : Traversal}
    (hoptional : (∀ spec, ¬ Unobstructed root companion t spec) → companion.info.required = false) :
    (∃ children, (visit env root companion t).1 = .ok children) ↔ ¬ FailsToAttach env root companion t := by
  by_cases hunobstructed : ∃ spec, Unobstructed root companion t spec
  · obtain ⟨spec, hspec⟩ := hunobstructed
    rw [visit_of_unobstructed hspec, attachCompanion_ok_iff]
    constructor
    · rintro hpublishable ⟨spec', hspec', hnot⟩
      rw [unobstructed_unique hspec hspec'] at hnot
      exact hnot hpublishable
    · intro hnot
      by_contra hpublishable
      exact hnot ⟨spec, hspec, hpublishable⟩
  · have hnone : ∀ spec, ¬ Unobstructed root companion t spec := fun spec h => hunobstructed ⟨spec, h⟩
    rw [visit_of_not_unobstructed hnone (hoptional hnone)]
    exact ⟨fun _ ⟨spec, hspec, _⟩ => hnone spec hspec, fun _ => ⟨[], rfl⟩⟩

/-- An attachment that can be published is mounted, as a new catalog. -/
theorem mounted_of_publishable {spec : AttachSpec} {answer : AttachAnswer}
    (h : spec.Publishable env.parse env.rpcTimeout answer) (s : Registries) :
    ∃ catalog, (attachOne env.parse env.rpcTimeout answer spec s).registries.catalogs.mounted spec.name = some catalog ∧
      catalog.id = s.catalogs.next := by
  obtain ⟨connection, prepared, -, hregistries⟩ := attachOne_of_publishable h s
  refine ⟨{ id := s.catalogs.next, provider := some prepared.provider }, ?_, rfl⟩
  rw [hregistries, Registries.publish_catalogs, (Registries.extends_registerDiagnostics s).catalogs,
    CatalogList.register_mounted, Function.update_self]

/-! ## The whole ATTACH -/

/-- An ATTACH whose root is published is the traversal of its companions, if they are wanted. -/
theorem attach_of_rootPublished (hroot : RootPublished env root) (s : Registries) :
    (companionsEnabled root = .ok false ∧ attachTurns env root s = [] ∧ (attach env root s).1 = .ok ()) ∨
      ∃ infos t, companionsEnabled root = .ok true ∧
        (attachOne env.parse env.rpcTimeout (env.answers 0) root s).result = .ok infos ∧
        attach env root s = exhaust 8 tooDeep (visit env root) ((announcedBy root infos).map (·, 1)) t ∧
        attachTurns env root s = turns 8 tooDeep (visit env root) ((announcedBy root infos).map (·, 1)) t := by
  obtain ⟨⟨enabled, henabled⟩, hpublishable⟩ := hroot
  obtain ⟨connection, prepared, hresult, -⟩ := attachOne_of_publishable hpublishable s
  cases enabled with
  | false => exact .inl ⟨henabled, by simp only [attachTurns, henabled], by simp [attach, henabled, hresult, traverse]⟩
  | true =>
    refine .inr ⟨_, { registries := (attachOne env.parse env.rpcTimeout (env.answers 0) root s).registries
                      seen := [catalogKey root]
                      served := 1 }, henabled, hresult, ?_, ?_⟩
    · simp only [attach, henabled, hresult, traverse, if_true]
    · simp only [attachTurns, henabled, hresult]

theorem attach_ok_iff (hroot : RootPublished env root) (s : Registries)
    (hoptional : ∀ turn ∈ attachTurns env root s, Fails env root turn → turn.item.info.required = false) :
    (attach env root s).1 = .ok () ↔
      ∀ turn ∈ attachTurns env root s, turn.level ≤ 8 → ¬ FailsToAttach env root turn.item turn.state := by
  rcases attach_of_rootPublished hroot s with ⟨-, hturns, hok⟩ | ⟨infos, t, -, -, hattach, hturns⟩
  · simp [hturns, hok]
  · rw [hattach, exhaust_ok_iff, ← hturns]
    refine forall₂_congr fun turn hturn => ?_
    have hdeep : 8 < turn.level → tooDeep turn.item = .ok () := fun hlevel => by
      simp [tooDeep, hoptional turn hturn (.inl hlevel)]
    have hvisit := @visit_ok_iff env root turn.item turn.state fun hnone => hoptional turn hturn (.inr (.inl hnone))
    rw [hvisit]
    exact ⟨fun h => h.2, fun h => ⟨hdeep, h⟩⟩

theorem bestEffort_of_ok (hroot : RootPublished env root) (s : Registries) (hok : (attach env root s).1 = .ok ()) :
    BestEffort env root s := by
  have hmounted := mounted_of_rootPublished hroot s
  rcases attach_of_rootPublished hroot s with ⟨henabled, hturns, -⟩ | ⟨infos, t, -, hresult, hattach, hturns⟩
  · refine ⟨hok, hmounted, fun henabled' => ?_, by simp [Continues, hturns], by simp [hturns]⟩
    rw [henabled] at henabled'
    cases henabled'
  · have hcomplete := turns_complete ((announcedBy root infos).map (·, 1)) t
      (show (exhaust 8 tooDeep (visit env root) _ t).1 = .ok () by rw [← hattach]; exact hok)
    rw [← hturns] at hcomplete
    refine ⟨hok, hmounted, fun _ infos' hinfos' => ?_, hcomplete.2, fun turn hturn hlevel spec hspec hpublishable => ?_⟩
    · rw [hresult] at hinfos'
      cases hinfos'
      exact hcomplete.1
    · obtain ⟨catalog, hcatalog, hid⟩ := mounted_of_publishable hpublishable turn.state.registries
      refine ⟨catalog, ?_, hid⟩
      rw [hattach]
      refine exhaust_achieves (P := (·.registries.catalogs.mounted spec.name = some catalog))
        (fun companion t => mounted_visit companion t) _ t turn (hturns ▸ hturn) hlevel ?_
      rw [visit_of_unobstructed hspec]
      exact hcatalog

/-- **Where whatever fails is not required, an ATTACH does what it can exactly if no companion fails in its own attach.** -/
theorem bestEffort_iff (hroot : RootPublished env root) (s : Registries)
    (hoptional : ∀ turn ∈ attachTurns env root s, Fails env root turn → turn.item.info.required = false) :
    BestEffort env root s ↔
      ∀ turn ∈ attachTurns env root s, turn.level ≤ 8 → ¬ FailsToAttach env root turn.item turn.state :=
  ⟨fun h => (attach_ok_iff hroot s hoptional).1 h.succeeds,
    fun h => bestEffort_of_ok hroot s ((attach_ok_iff hroot s hoptional).2 h)⟩

/-- A companion whose turn comes was announced by some worker. -/
theorem announces_of_turn {s : Registries} : ∀ turn ∈ attachTurns env root s, env.Announces turn.item.info := by
  rw [attachTurns]
  split
  · dsimp only
    split
    · simp
    · rename_i infos hresult
      refine turns_forall (fun companion => env.Announces companion.info)
        (fun companion t children _ => announces_visit companion t children) _ _ fun entry hentry => ?_
      obtain ⟨companion, hcompanion, rfl⟩ := List.mem_map.1 hentry
      obtain ⟨info, hinfo, rfl⟩ := List.mem_map.1 hcompanion
      exact attachOne_announces hresult info hinfo
  · simp

/-! ## Two companions that are not required -/

theorem announcing_announces {companion info : AttachCatalogInfo} (h : (announcing companion).Announces info) :
    info = companion := by
  obtain ⟨n, provider, hprovider, hinfo⟩ := h
  cases hprovider
  by_cases hn : n = 0
  · rw [if_pos hn] at hinfo
    exact List.mem_singleton.1 hinfo
  · rw [if_neg hn] at hinfo
    cases hinfo

/-- One of another type is passed over. -/
def optionalForeign : AttachCatalogInfo := { foreignCompanion with required := false }

theorem bestEffort_optionalForeign : BestEffort (announcing optionalForeign) remoteSpec .empty ↔
    ∀ turn ∈ attachTurns (announcing optionalForeign) remoteSpec .empty, turn.level ≤ 8 →
      ¬ FailsToAttach (announcing optionalForeign) remoteSpec turn.item turn.state :=
  bestEffort_iff ⟨⟨true, rfl⟩, true, _, _, rfl, rfl, rfl⟩ .empty fun turn hturn _ => by
    rw [announcing_announces (announces_of_turn turn hturn)]
    rfl

/-- The worker announces `filesCompanion`, which cannot be discovered. -/
def unreachableFiles : AttachEnvironment :=
  { announcing filesCompanion with
    answers := fun n => if n = 0 then (announcing filesCompanion).answers 0
      else { options := .ok (), discovered := .error "connection refused" } }

/-- The other ends the ATTACH. -/
theorem not_bestEffort_unreachableFiles : RootPublished unreachableFiles remoteSpec ∧
    (∀ turn ∈ attachTurns unreachableFiles remoteSpec .empty, turn.item.info.required = false) ∧
    ¬ BestEffort unreachableFiles remoteSpec .empty := by
  have hroot : RootPublished unreachableFiles remoteSpec := ⟨⟨true, rfl⟩, true, _, _, rfl, rfl, rfl⟩
  refine ⟨hroot, fun turn hturn => ?_, fun h => ?_⟩
  · obtain ⟨n, provider, hprovider, hinfo⟩ := announces_of_turn turn hturn
    by_cases hn : n = 0
    · subst hn
      cases hprovider
      rw [List.mem_singleton.1 hinfo]
      rfl
    · simp [unreachableFiles, hn] at hprovider
  · obtain ⟨spec, hspec⟩ : ∃ spec, companionSpec remoteSpec filesCompanion = .ok (some spec) := ⟨_, rfl⟩
    obtain ⟨t, hattach, hserved, hseen, hmounted⟩ : ∃ t, attach unreachableFiles remoteSpec .empty =
        exhaust 8 tooDeep (visit unreachableFiles remoteSpec) [(⟨filesCompanion, remoteSpec⟩, 1)] t ∧ t.served = 1 ∧
        t.seen = [catalogKey remoteSpec] ∧ t.registries.catalogs.mounted "files".toList = none := ⟨_, rfl, rfl, rfl, rfl⟩
    have hunobstructed : Unobstructed remoteSpec ⟨filesCompanion, remoteSpec⟩ t spec := by
      have hname : spec.name = "files".toList := by cases hspec; rfl
      have hkey : catalogKey spec ∉ [catalogKey remoteSpec] := by cases hspec; decide
      exact ⟨hspec, by rw [hname, hmounted]; rfl, by rw [hseen]; exact hkey⟩
    have herror : ∃ e, (attachCompanion unreachableFiles spec ⟨filesCompanion, remoteSpec⟩ t).1 = .error e := by
      rw [attachCompanion, hserved]
      cases hspec
      exact ⟨_, rfl⟩
    obtain ⟨e, he⟩ := herror
    have hfailed : (attach unreachableFiles remoteSpec .empty).1 = .error e := by
      rw [hattach, exhaust_cons (by decide), visit_of_unobstructed hunobstructed]
      split
      · rename_i hvisit
        rw [hvisit] at he
        cases he
        rfl
      · rename_i hvisit
        rw [hvisit] at he
        cases he
    rw [h.succeeds] at hfailed
    cases hfailed

end

end VgiDatafusion
