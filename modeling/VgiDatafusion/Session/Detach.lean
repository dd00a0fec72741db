import VgiDatafusion.Session.Ownership
import VgiDatafusion.Session.Trust

/-!
# DETACH and re-ATTACH touch what belongs to the alias (session.rs:970-1036, 2325-2405, 3213-3230)

In every state a session can reach, deregistering an alias is exact (`Removes` for DETACH, `Replaces` for ATTACH) if and
only if the alias is apart from the others (`Apart`): nothing that another alias published is recorded under the same
lower-case alias, and no macro of another alias lies under it. The session accepts aliases that are not apart: `ex` and
`Ex`, or `a` and `a.b`.
-/
namespace VgiDatafusion

open StepSystem

/-! ## Removing and replacing the entries of an alias -/

section
variable {α : Type} {entries entries' : Chars → Option (Owned α)} {name : Chars} {next : Nat}

/-- The entries that `name` has not published. -/
def without (name : Chars) (entries : Chars → Option (Owned α)) (key : Chars) : Option (Owned α) :=
  (entries key).filter fun e => e.publisher ≠ some name

theorem without_eq_some {key : Chars} {e : Owned α} :
    without name entries key = some e ↔ entries key = some e ∧ e.publisher ≠ some name := by
  rw [without, Option.filter_eq_some_iff, decide_eq_true_iff]

/-- Removing by a test on the key is exact if the test hits no other's entry. -/
theorem remove_eq_without_iff (name : Chars) (entries : Chars → Option (Owned α)) (hit : Chars → Bool)
    (hown : ∀ key e, entries key = some e → e.publisher = some name → hit key = true) :
    (∀ key, (if hit key then none else entries key) = without name entries key) ↔
      ∀ key e, entries key = some e → hit key = true → e.publisher = some name := by
  constructor
  · intro hexact key e he hhit
    by_contra hother
    have hkept := without_eq_some.2 ⟨he, hother⟩
    rw [← hexact key, if_pos hhit] at hkept
    cases hkept
  · intro hapart key
    cases hentry : entries key with
    | none => simp [without, hentry]
    | some e =>
      by_cases hpublisher : e.publisher = some name
      · rw [if_pos (hown key e hentry hpublisher)]
        simp [without, hentry, Option.filter, hpublisher]
      · have hmiss : ¬ hit key = true := fun hhit => hpublisher (hapart key e hentry hhit)
        rw [if_neg hmiss]
        exact (without_eq_some.2 ⟨hentry, hpublisher⟩).symm

/-- Others' entries are kept, and what else there is was written by `name`, or by `extra`, since. -/
structure Replaced (name : Chars) (next : Nat) (extra : Chars → Owned α → Prop) (entries entries' : Chars → Option (Owned α)) :
    Prop where
  kept : ∀ key e, without name entries key = some e → entries' key = some e
  rest : ∀ key e, entries' key = some e →
    without name entries key = some e ∨ (e.publisher = some name ∨ extra key e) ∧ next ≤ e.id

theorem replaced_iff (hit : Chars → Bool) {extra : Chars → Owned α → Prop}
    (hown : ∀ key e, entries key = some e → e.publisher = some name → hit key = true)
    (hwrites : ∀ key, entries' key = (if hit key then none else entries key) ∨
      hit key = true ∧ ∃ e, entries' key = some e ∧ e.publisher = some name ∧ next ≤ e.id) :
    Replaced name next extra entries entries' ↔ ∀ key e, entries key = some e → hit key = true → e.publisher = some name := by
  constructor
  · intro hreplaced key e he hhit
    by_contra hother
    have hkept := hreplaced.kept key e (without_eq_some.2 ⟨he, hother⟩)
    rcases hwrites key with hgone | ⟨-, new, hnew, hpublisher, -⟩
    · rw [hgone, if_pos hhit] at hkept
      cases hkept
    · rw [hnew] at hkept
      cases hkept
      exact hother hpublisher
  · intro hapart
    refine ⟨fun key e he => ?_, fun key e he => ?_⟩
    · obtain ⟨he, hother⟩ := without_eq_some.1 he
      have hmiss : ¬ hit key = true := fun hhit => hother (hapart key e he hhit)
      rcases hwrites key with hsame | ⟨hhit, -⟩
      · rw [hsame, if_neg hmiss]
        exact he
      · exact absurd hhit hmiss
    · rcases hwrites key with hsame | ⟨-, new, hnew, hpublisher, hid⟩
      · rw [hsame] at he
        split at he
        · cases he
        · rename_i hmiss
          refine .inl (without_eq_some.2 ⟨he, fun hpublisher => hmiss (hown key e he hpublisher)⟩)
      · rw [hnew] at he
        cases he
        exact .inr ⟨.inl hpublisher, hid⟩

end

/-! ## Deregistering an alias -/

/-- Of the alias nothing is left, and nothing else is gone. -/
structure Removes (name : Chars) (s s' : Registries) : Prop where
  functions : ∀ kind key, s'.functions kind key = without name (s.functions kind) key
  macros : ∀ key, s'.macros key = without name s.macros key
  defaultSchemas : ∀ key, s'.defaultSchemas key = without name s.defaultSchemas key
  metadata : ∀ key, s'.metadata key = without name s.metadata key

/-- Besides those of the worker, an ATTACH registers the diagnostics functions that are missing. -/
structure Replaces (name : Chars) (s s' : Registries) : Prop where
  functions : ∀ kind, Replaced name s.next (Registries.IsDiagnostics kind) (s.functions kind) (s'.functions kind)
  macros : Replaced name s.next (fun _ _ => False) s.macros s'.macros
  defaultSchemas : Replaced name s.next (fun _ _ => False) s.defaultSchemas s'.defaultSchemas
  metadata : Replaced name s.next (fun _ _ => False) s.metadata s'.metadata

/-- Nothing of another alias is kept where the session keeps what is this alias's. -/
structure Apart (name : Chars) (s : Registries) : Prop where
  functions : ∀ kind key f, s.functions kind key = some f → f.publisher.map lower = some (lower name) →
    f.publisher = some name
  macros : ∀ key m, s.macros key = some m → Registries.underAlias name key = true → m.publisher = some name
  defaultSchemas : ∀ d, s.defaultSchemas (lower name) = some d → d.publisher = some name
  metadata : ∀ m, s.metadata (lower name) = some m → m.publisher = some name

section
variable {s : Registries} {name : Chars}

/-! ### What is an alias's is where the alias looks for it -/

theorem Registries.Inv.underAlias_of_publisher (h : s.Inv) (key : Chars) (m : Owned MacroInfo) (hm : s.macros key = some m)
    (hpublisher : m.publisher = some name) : Registries.underAlias name key = true := by
  obtain ⟨-, publisher, hname, hplace⟩ := h.macros key m hm
  rw [hpublisher] at hname
  cases hname
  exact hplace

theorem eq_lower_of_publisher {α : Type} {entries : Chars → Option (Owned α)} {next : Nat}
    (h : Registries.Entries Registries.AtAlias entries next) (key : Chars) (e : Owned α) (he : entries key = some e)
    (hpublisher : e.publisher = some name) : decide (key = lower name) = true := by
  obtain ⟨-, publisher, hname, hplace⟩ := h key e he
  rw [hpublisher] at hname
  cases hname
  exact decide_eq_true hplace.symm

/-- The entry at the lower-case alias, which is the only one to look at. -/
theorem atAlias_iff {α : Type} {entries : Chars → Option (Owned α)} :
    (∀ key e, entries key = some e → decide (key = lower name) = true → e.publisher = some name) ↔
      ∀ e, entries (lower name) = some e → e.publisher = some name := by
  constructor
  · intro h e he
    exact h _ e he (decide_eq_true rfl)
  · intro h key e he hkey
    rw [of_decide_eq_true hkey] at he
    exact h e he

theorem owns_publisher_iff (h : s.Inv) :
    (∀ kind key f, s.functions kind key = some f → s.owns name kind key = true → f.publisher = some name) ↔
      ∀ kind key f, s.functions kind key = some f → f.publisher.map lower = some (lower name) → f.publisher = some name := by
  have howns : ∀ kind key f, s.functions kind key = some f →
      (s.owns name kind key = true ↔ f.publisher.map lower = some (lower name)) := by
    intro kind key f hf
    rw [h.functions.owns_iff]
    constructor
    · rintro ⟨g, hg, hpublisher⟩
      rw [hf] at hg
      cases hg
      exact hpublisher
    · exact fun hpublisher => ⟨f, hf, hpublisher⟩
  constructor
  · exact fun hall kind key f hf hpublisher => hall kind key f hf ((howns kind key f hf).2 hpublisher)
  · exact fun hall kind key f hf hown => hall kind key f hf ((howns kind key f hf).1 hown)

/-! ### DETACH -/

theorem update_none_eq_ite {α : Type} (entries : Chars → Option (Owned α)) (key other : Chars) :
    Function.update entries key none other = if decide (other = key) = true then none else entries other := by
  simp [Function.update_apply]

theorem detach_eq (hname : (s.catalogs.mounted name).isSome) :
    (detach name s).2 = ((((s.deregisterAliasFunctions name).removeDefaultSchema name).removeCatalogMetadata name).removeMacros
      name).registerCatalog name none := by
  have hmounted : (s.catalogs.mounted name).isNone = false := by simpa using hname
  simp [detach, hmounted]

theorem removes_detach_iff (h : s.Inv) (hname : (s.catalogs.mounted name).isSome) :
    Removes name s (detach name s).2 ↔ Apart name s := by
  have hfunctions := fun kind => remove_eq_without_iff name (s.functions kind) (s.owns name kind)
    fun key f hf hpublisher => h.functions.owns_iff.2 ⟨f, hf, by rw [hpublisher, Option.map_some]⟩
  have hmacros := remove_eq_without_iff name s.macros (Registries.underAlias name) h.underAlias_of_publisher
  have hdefaults := remove_eq_without_iff name s.defaultSchemas (fun key => decide (key = lower name))
    (eq_lower_of_publisher h.defaultSchemas)
  have hmetadata := remove_eq_without_iff name s.metadata (fun key => decide (key = lower name))
    (eq_lower_of_publisher h.metadata)
  rw [detach_eq hname]
  constructor
  · intro hremoves
    refine ⟨?_, ?_, ?_, ?_⟩
    · exact (owns_publisher_iff h).1 fun kind => (hfunctions kind).1 (hremoves.functions kind)
    · exact hmacros.1 hremoves.macros
    · refine atAlias_iff.1 (hdefaults.1 fun key => ?_)
      rw [← update_none_eq_ite]
      exact hremoves.defaultSchemas key
    · refine atAlias_iff.1 (hmetadata.1 fun key => ?_)
      rw [← update_none_eq_ite]
      exact hremoves.metadata key
  · intro hapart
    refine ⟨fun kind => ?_, ?_, fun key => ?_, fun key => ?_⟩
    · exact (hfunctions kind).2 ((owns_publisher_iff h).2 hapart.functions kind)
    · exact hmacros.2 hapart.macros
    · exact (update_none_eq_ite ..).trans (hdefaults.2 (atAlias_iff.2 hapart.defaultSchemas) key)
    · exact (update_none_eq_ite ..).trans (hmetadata.2 (atAlias_iff.2 hapart.metadata) key)

/-! ### ATTACH -/

/-- The functions, through the diagnostics, the removal and the publication. -/
theorem replaced_functions_iff (h : s.Inv) (spec : AttachSpec) (connection : VgiConnection) (prepared : PreparedAttach) :
    (∀ kind, Replaced spec.name s.next (Registries.IsDiagnostics kind) (s.functions kind)
      ((s.registerDiagnostics.publish spec connection prepared).functions kind)) ↔
    ∀ kind key f, s.functions kind key = some f → f.publisher.map lower = some (lower spec.name) →
      f.publisher = some spec.name := by
  have hdiagnostics := Registries.extends_registerDiagnostics s
  have hinv := h.registerDiagnostics.functions
  have hpublished := Registries.extends_publishFunctions spec prepared s.registerDiagnostics
  rw [Registries.publish_functions]
  constructor
  · intro hreplaced kind key f hf hpublisher
    by_contra hother
    have hkept := (hreplaced kind).kept key f (without_eq_some.2 ⟨hf, hother⟩)
    rcases hpublished.added kind key f hkept with hleft | ⟨hnew, -⟩
    · have howns := hinv.owns_iff.2 ⟨f, hdiagnostics.kept kind key f hf, hpublisher⟩
      simp only [Registries.deregisterAliasFunctions, howns, if_true] at hleft
      cases hleft
    · exact hother hnew
  · intro hapart kind
    refine ⟨fun key f hf => ?_, fun key f hf => ?_⟩
    · obtain ⟨hf, hother⟩ := without_eq_some.1 hf
      have hkept := hdiagnostics.kept kind key f hf
      have howns : ¬ s.registerDiagnostics.owns spec.name kind key = true := by
        rw [hinv.owns_iff]
        rintro ⟨g, hg, hpublisher⟩
        rw [hkept] at hg
        cases hg
        exact hother (hapart kind key f hf hpublisher)
      refine hpublished.kept kind key f ?_
      simp only [Registries.deregisterAliasFunctions, if_neg howns]
      exact hkept
    · rcases hpublished.added kind key f hf with hleft | ⟨hnew, hid⟩
      · simp only [Registries.deregisterAliasFunctions] at hleft
        split at hleft
        · cases hleft
        · rename_i howns
          rcases hdiagnostics.added kind key f hleft with hold | ⟨hdiag, hid⟩
          · refine .inl (without_eq_some.2 ⟨hold, fun hpublisher => howns ?_⟩)
            exact hinv.owns_iff.2 ⟨f, hleft, by rw [hpublisher, Option.map_some]⟩
          · exact .inr ⟨.inr hdiag, hid⟩
      · exact .inr ⟨.inl hnew, hdiagnostics.next.trans hid⟩

/-- A single entry written at the lower-case alias. -/
theorem replaced_update_iff {α : Type} {entries entries' : Chars → Option (Owned α)} {next id : Nat} {value : α}
    (h : Registries.Entries Registries.AtAlias entries next) (hid : next ≤ id)
    (hentries : entries' = Function.update entries (lower name) (some { id, publisher := some name, value })) :
    Replaced name next (fun _ _ => False) entries entries' ↔ ∀ e, entries (lower name) = some e → e.publisher = some name := by
  refine (replaced_iff (fun key => decide (key = lower name)) (eq_lower_of_publisher h) fun key => ?_).trans atAlias_iff
  rw [hentries]
  by_cases hkey : key = lower name
  · subst hkey
    exact .inr ⟨decide_eq_true rfl, _, Function.update_self .., rfl, hid⟩
  · exact .inl (by simp [hkey])

theorem replaces_publish_iff (h : s.Inv) (spec : AttachSpec) (connection : VgiConnection) (prepared : PreparedAttach) :
    Replaces spec.name s (s.registerDiagnostics.publish spec connection prepared) ↔ Apart spec.name s := by
  have hdiagnostics := Registries.extends_registerDiagnostics s
  have hfunctions := replaced_functions_iff h spec connection prepared
  have hmacros : Replaced spec.name s.next (fun _ _ => False) s.macros
      (s.registerDiagnostics.publish spec connection prepared).macros ↔ _ :=
    replaced_iff (Registries.underAlias spec.name) h.underAlias_of_publisher fun key => by
      rcases Registries.publish_macros spec connection prepared s.registerDiagnostics key with
        hsame | ⟨hunder, m, hm, hpublisher, hid, -⟩
      · rw [hsame, Registries.removeMacros, hdiagnostics.macros]
        exact .inl rfl
      · exact .inr ⟨hunder, m, hm, hpublisher, hdiagnostics.next.trans hid⟩
  obtain ⟨id, hid, -, hdefault⟩ := Registries.publish_defaultSchemas spec connection prepared s.registerDiagnostics
  rw [hdiagnostics.defaultSchemas] at hdefault
  have hdefaults := replaced_update_iff h.defaultSchemas (hdiagnostics.next.trans hid) hdefault
  obtain ⟨id, value, hid, -, hmeta, -⟩ := Registries.publish_metadata spec connection prepared s.registerDiagnostics
  rw [hdiagnostics.metadata] at hmeta
  have hmetadata := replaced_update_iff h.metadata (hdiagnostics.next.trans hid) hmeta
  constructor
  · exact fun hreplaces => ⟨hfunctions.1 hreplaces.functions, hmacros.1 hreplaces.macros, hdefaults.1 hreplaces.defaultSchemas,
      hmetadata.1 hreplaces.metadata⟩
  · exact fun hapart => ⟨hfunctions.2 hapart.functions, hmacros.2 hapart.macros, hdefaults.2 hapart.defaultSchemas,
      hmetadata.2 hapart.metadata⟩

end

/-! ## Every history of a session -/

/-- What happens to the registries of a session, by its own statements or by others. -/
inductive RegistryAction
  | attach (env : AttachEnvironment) (spec : AttachSpec)
  | detach (name : Chars)
  | registerOther (kind : FunctionKind) (keys : List Chars)
  | deregisterOther (kind : FunctionKind) (keys : List Chars)
  | registerCatalog (name : Chars)

/-- A statement that fails leaves what it leaves. -/
def Registries.step (s : Registries) : RegistryAction → Registries
  | .attach env spec => (VgiDatafusion.attach env spec s).2.registries
  | .detach name => (VgiDatafusion.detach name s).2
  | .registerOther kind keys => s.registerOther kind keys
  | .deregisterOther kind keys => s.deregisterOther kind keys
  | .registerCatalog name => s.registerCatalog name none

theorem Registries.Inv.step {s : Registries} (h : s.Inv) (a : RegistryAction) : (s.step a).Inv := by
  cases a with
  | attach env spec => exact h.attach
  | detach name => exact h.detach name
  | registerOther kind keys => exact h.registerOther kind keys
  | deregisterOther kind keys =>
    exact ⟨h.functions.deregisterOther kind keys, h.macros, h.defaultSchemas, h.metadata⟩
  | registerCatalog name => exact ⟨h.functions.congr rfl rfl (Nat.le_refl _), h.macros, h.defaultSchemas, h.metadata⟩

def Registries.run (actions : List RegistryAction) : Registries := actions.foldl Registries.step .empty

theorem Registries.Inv.run (actions : List RegistryAction) : (Registries.run actions).Inv :=
  List.foldlRecOn _ _ Registries.Inv.init fun _ h a _ => h.step a

/-- **After any history, DETACH and ATTACH of an alias remove exactly what that alias published, and touch nothing of
another's, if and only if the alias is apart from the others.** -/
theorem deregistration_exact_iff (actions : List RegistryAction) :
    (∀ name, ((Registries.run actions).catalogs.mounted name).isSome →
      (Removes name (Registries.run actions) (detach name (Registries.run actions)).2 ↔
        Apart name (Registries.run actions))) ∧
    ∀ parse rpcTimeout answer spec, spec.Publishable parse rpcTimeout answer →
      (Replaces spec.name (Registries.run actions)
          (attachOne parse rpcTimeout answer spec (Registries.run actions)).registries ↔
        Apart spec.name (Registries.run actions)) := by
  have hinv := Registries.Inv.run actions
  refine ⟨fun name hname => removes_detach_iff hinv hname, ?_⟩
  intro parse rpcTimeout answer spec hpublishable
  obtain ⟨connection, prepared, -, hregistries⟩ := attachOne_of_publishable hpublishable (Registries.run actions)
  rw [hregistries]
  exact replaces_publish_iff hinv spec connection prepared

/-- An ATTACH without companions. -/
def attachAs (name : String) : RegistryAction :=
  .attach { announcing filesCompanion with answers := fun _ => { options := .ok (), discovered := .ok (providerWith []) } }
    { remoteSpec with
      name := name.toList
      options := fun option => if option = "attach_companions".toList then some "false".toList else none }

theorem deregistration_exact_single :
    Removes "ex".toList (Registries.run [attachAs "ex"]) (detach "ex".toList (Registries.run [attachAs "ex"])).2 ↔
      Apart "ex".toList (Registries.run [attachAs "ex"]) :=
  (deregistration_exact_iff [attachAs "ex"]).1 "ex".toList rfl

/-- Two catalogs to the session, one alias to its registries: DETACH of `Ex` removes the default schema of `ex`. -/
theorem detach_removes_other : ((Registries.run [attachAs "Ex", attachAs "ex"]).catalogs.mounted "Ex".toList).isSome ∧
    ¬ Removes "Ex".toList (Registries.run [attachAs "Ex", attachAs "ex"])
      (detach "Ex".toList (Registries.run [attachAs "Ex", attachAs "ex"])).2 := by
  refine ⟨by decide +kernel, fun hremoves => ?_⟩
  have hschema := hremoves.defaultSchemas "ex".toList
  have hgone : (detach "Ex".toList (Registries.run [attachAs "Ex", attachAs "ex"])).2.defaultSchemas "ex".toList = none := by
    decide +kernel
  have hpublished : ((Registries.run [attachAs "Ex", attachAs "ex"]).defaultSchemas "ex".toList).map (·.publisher) =
      some (some "ex".toList) := by decide +kernel
  obtain ⟨d, hd, hpublisher⟩ := Option.map_eq_some_iff.1 hpublished
  rw [hgone, without_eq_some.2 ⟨hd, by rw [hpublisher]; decide⟩] at hschema
  cases hschema

end VgiDatafusion
