import VgiDatafusion.Library.StepSystem
import VgiDatafusion.Session.Companions

/-!
# What one attachment does to the registries

`publish` registers functions one at a time, each only where nothing is (`PublishStep`), and macros one at a time under the
alias (`MacroStep`); the rest are single writes. Everything the later files need to know about an ATTACH is said here once:
`publish_functions`, `publish_macros` and the equations for the other registries.
-/
namespace VgiDatafusion

open Relation StepSystem

namespace Registries

variable {s s' : Registries} {name : Chars}

/-- One function of `name` is registered, unless its key is taken. -/
def PublishStep (name : Chars) (s s' : Registries) : Prop := ∃ p, p.name = name ∧ s' = (registerIfAbsent p s).2

/-- One macro of `name` is written. -/
def MacroStep (name : Chars) (s s' : Registries) : Prop :=
  ∃ key info, underAlias name key = true ∧ s' = s.insertMacro name key info

theorem publishes_registerTableIfAbsent (name key : Chars) (implementation : Implementation) (namedArguments : List Chars)
    (s : Registries) : ReflTransGen (PublishStep name) s (registerTableIfAbsent name key implementation namedArguments s).2 :=
  .single ⟨{ name, kind := .table, key, implementation, namedArguments }, rfl, rfl⟩

theorem publishes_registerScalarIfAbsent (name key : Chars) (implementation : Implementation) (s : Registries) :
    ReflTransGen (PublishStep name) s (registerScalarIfAbsent name key implementation s).2 :=
  .single ⟨{ name, kind := .scalar, key, implementation }, rfl, rfl⟩

theorem publishes_registerAggregateIfAbsent (name key : Chars) (implementation : Implementation) (nullary : Bool)
    (s : Registries) : ReflTransGen (PublishStep name) s (registerAggregateIfAbsent name key implementation nullary s).2 :=
  .single ⟨{ name, kind := .aggregate, key, implementation, nullary }, rfl, rfl⟩

theorem publishes_registerTableFunctions (spec : AttachSpec) (provider : VgiCatalogProvider) (s : Registries) :
    ReflTransGen (PublishStep spec.name) s (s.registerTableFunctions spec provider) := by
  refine foldl_reflTransGen (fun s schema => ?_) _ _
  refine foldl_reflTransGen (fun s function => ?_) _ _
  exact foldl_reflTransGen (fun s key => publishes_registerTableIfAbsent _ key _ _ s) _ _

theorem publishes_registerScalarFunctions (spec : AttachSpec) (provider : VgiCatalogProvider) (s : Registries) :
    ReflTransGen (PublishStep spec.name) s (s.registerScalarFunctions spec provider) := by
  refine foldl_reflTransGen (fun s schema => ?_) _ _
  refine foldl_reflTransGen (fun s function => ?_) _ _
  exact foldl_reflTransGen (fun s key => publishes_registerScalarIfAbsent _ key _ s) _ _

theorem publishes_registerAggregateFunctions (spec : AttachSpec) (provider : VgiCatalogProvider) (s : Registries) :
    ReflTransGen (PublishStep spec.name) s (s.registerAggregateFunctions spec provider) := by
  refine foldl_reflTransGen (fun s schema => ?_) _ _
  refine foldl_reflTransGen (fun s function => ?_) _ _
  exact foldl_reflTransGen (fun s key => publishes_registerAggregateIfAbsent _ key _ _ s) _ _

theorem publishes_registerGlobalFunction (spec : AttachSpec) (function : PreparedGlobalFunction) (s : Registries) :
    ReflTransGen (PublishStep spec.name) s (registerGlobalFunction spec function s).2 := by
  cases hkind : function.kind with
  | scalar overloads volatility strict =>
    simp only [registerGlobalFunction, hkind]
    exact publishes_registerScalarIfAbsent _ _ _ s
  | aggregate specs nullary =>
    simp only [registerGlobalFunction, hkind]
    exact publishes_registerAggregateIfAbsent _ _ _ _ s
  | table specs buffered =>
    simp only [registerGlobalFunction, hkind]
    exact publishes_registerTableIfAbsent _ _ _ _ s

theorem publishes_registerGlobalFunctions (spec : AttachSpec) (functions : List PreparedGlobalFunction) (s : Registries) :
    ReflTransGen (PublishStep spec.name) s (registerGlobalFunctions spec functions s).2 := by
  induction functions generalizing s with
  | nil => exact .refl
  | cons function functions ih => exact (publishes_registerGlobalFunction spec function s).trans (ih _)

/-- The functions of a whole attachment, from the state in which the alias has none. -/
def publishFunctions (spec : AttachSpec) (prepared : PreparedAttach) (s : Registries) : List Chars × Registries :=
  (((s.registerTableFunctions spec prepared.provider).registerScalarFunctions spec prepared.provider)
    |>.registerAggregateFunctions spec prepared.provider).registerGlobalFunctions spec prepared.globals

theorem publishes_publishFunctions (spec : AttachSpec) (prepared : PreparedAttach) (s : Registries) :
    ReflTransGen (PublishStep spec.name) s (publishFunctions spec prepared s).2 :=
  (((publishes_registerTableFunctions spec _ s).trans (publishes_registerScalarFunctions spec _ _)).trans
    (publishes_registerAggregateFunctions spec _ _)).trans (publishes_registerGlobalFunctions spec _ _)

/-! ## Functions are only added -/

/-- Everything but the functions is as it was; no function is lost, and a new one is of the kind `new`. -/
structure Extends (new : FunctionKind → Chars → Owned Implementation → Prop) (s s' : Registries) : Prop where
  next : s.next ≤ s'.next
  kept : ∀ kind key f, s.functions kind key = some f → s'.functions kind key = some f
  added : ∀ kind key f, s'.functions kind key = some f → s.functions kind key = some f ∨ new kind key f ∧ s.next ≤ f.id
  catalogs : s'.catalogs = s.catalogs
  macros : s'.macros = s.macros
  defaultSchemas : s'.defaultSchemas = s.defaultSchemas
  metadata : s'.metadata = s.metadata

namespace Extends

variable {new : FunctionKind → Chars → Owned Implementation → Prop} {s'' : Registries}

theorem refl (s : Registries) : Extends new s s :=
  ⟨Nat.le_refl _, fun _ _ _ h => h, fun _ _ _ h => .inl h, rfl, rfl, rfl, rfl⟩

theorem trans (h : Extends new s s') (h' : Extends new s' s'') : Extends new s s'' where
  next := h.next.trans h'.next
  kept kind key f hf := h'.kept kind key f (h.kept kind key f hf)
  added kind key f hf := by
    rcases h'.added kind key f hf with hf | ⟨hnew, hid⟩
    · exact h.added kind key f hf
    · exact .inr ⟨hnew, h.next.trans hid⟩
  catalogs := h'.catalogs.trans h.catalogs
  macros := h'.macros.trans h.macros
  defaultSchemas := h'.defaultSchemas.trans h.defaultSchemas
  metadata := h'.metadata.trans h.metadata

theorem of_run {R : Registries → Registries → Prop} (hR : ∀ s s', R s s' → Extends new s s') (h : ReflTransGen R s s') :
    Extends new s s' := by
  induction h with
  | refl => exact refl s
  | tail _ hstep ih => exact ih.trans (hR _ _ hstep)

end Extends

/-- A function where there was none. -/
theorem extends_of_update {new : FunctionKind → Chars → Owned Implementation → Prop} {kind : FunctionKind} {key : Chars}
    {f : Owned Implementation} (hnone : s.functions kind key = none) (hf : new kind key f) (hid : s.next ≤ f.id)
    (hnext : s.next ≤ s'.next)
    (hfunctions : ∀ k y, s'.functions k y = if k = kind ∧ y = key then some f else s.functions k y)
    (hcatalogs : s'.catalogs = s.catalogs) (hmacros : s'.macros = s.macros)
    (hdefaults : s'.defaultSchemas = s.defaultSchemas) (hmetadata : s'.metadata = s.metadata) : Extends new s s' where
  next := hnext
  kept k y g hg := by
    have hother : ¬ (k = kind ∧ y = key) := by
      rintro ⟨rfl, rfl⟩
      rw [hnone] at hg
      cases hg
    rw [hfunctions, if_neg hother]
    exact hg
  added k y g hg := by
    rw [hfunctions] at hg
    split at hg
    · rename_i hsame
      obtain ⟨rfl, rfl⟩ := hsame
      cases hg
      exact .inr ⟨hf, hid⟩
    · exact .inl hg
  catalogs := hcatalogs
  macros := hmacros
  defaultSchemas := hdefaults
  metadata := hmetadata

def PublishedBy (name : Chars) (_ : FunctionKind) (_ : Chars) (f : Owned Implementation) : Prop := f.publisher = some name

theorem extends_publishStep (h : PublishStep name s s') : Extends (PublishedBy name) s s' := by
  obtain ⟨p, rfl, rfl⟩ := h
  rw [registerIfAbsent]
  split
  · exact .refl s
  · rename_i hnone
    exact extends_of_update (Option.not_isSome_iff_eq_none.1 hnone)
      (f := { id := s.next, publisher := some p.name, value := p.implementation }) rfl (Nat.le_refl _) (Nat.le_succ _)
      (fun _ _ => rfl) rfl rfl rfl rfl

def IsDiagnostics (kind : FunctionKind) (key : Chars) (f : Owned Implementation) : Prop :=
  f.publisher = none ∧ (kind, key) ∈ diagnosticsFunctions

theorem extends_registerFree {entry : FunctionKind × Chars} (hentry : entry ∈ diagnosticsFunctions) (s : Registries) :
    Extends IsDiagnostics s (s.registerFree entry) := by
  rw [registerFree]
  split
  · exact .refl s
  · rename_i hnone
    refine extends_of_update (Option.not_isSome_iff_eq_none.1 hnone)
      (f := { id := s.next, publisher := none, value := .other }) ⟨rfl, hentry⟩ (Nat.le_refl _) (Nat.le_succ _)
      (fun k y => ?_) rfl rfl rfl rfl
    simp only [registerOther, List.mem_singleton]

theorem extends_registerDiagnostics (s : Registries) : Extends IsDiagnostics s s.registerDiagnostics := by
  -- over some of the names, so that the fold can be taken one name at a time
  suffices h : ∀ (names : List (FunctionKind × Chars)) (s : Registries), names ⊆ diagnosticsFunctions →
      Extends IsDiagnostics s (names.foldl registerFree s) from h diagnosticsFunctions s fun _ h => h
  intro names
  induction names with
  | nil => exact fun s _ => .refl s
  | cons entry names ih =>
    intro s hsub
    obtain ⟨hentry, hrest⟩ := List.cons_subset.1 hsub
    exact (extends_registerFree hentry s).trans (ih _ hrest)

/-! ## Macros are written under the alias -/

theorem underAlias_append (name rest : Chars) : underAlias name (lower (name ++ '.' :: rest)) = true := by
  rw [underAlias, List.isPrefixOf_iff_prefix, lower_append]
  exact ⟨lower rest, by simp [lower]⟩

theorem macroStep_registerMacro (spec : AttachSpec) (defaultSchema : Chars) (s : Registries) (info : MacroInfo) :
    ReflTransGen (MacroStep spec.name) s (registerMacro spec defaultSchema s info) := by
  have hqualified : ∀ s : Registries, MacroStep spec.name s
      (s.insertMacro spec.name (lower (spec.name ++ '.' :: schemaLeaf info.schemaPath ++ '.' :: info.name)) info) := by
    intro s
    refine ⟨_, info, ?_, rfl⟩
    rw [List.append_assoc]
    exact underAlias_append spec.name _
  rw [registerMacro]
  split
  · exact (ReflTransGen.single (hqualified s)).tail ⟨_, info, underAlias_append spec.name _, rfl⟩
  · exact .single (hqualified s)

theorem macroStep_registerMacros (spec : AttachSpec) (provider : VgiCatalogProvider) (s : Registries) :
    ReflTransGen (MacroStep spec.name) (s.removeMacros spec.name) (s.registerMacros spec provider) :=
  foldl_reflTransGen (fun s info => macroStep_registerMacro spec _ s info) _ _

/-- Everything but the macros is as it was, and a macro that changed is one of `name`, under `name`. -/
structure WritesMacros (name : Chars) (s s' : Registries) : Prop where
  next : s.next ≤ s'.next
  macros : ∀ key, s'.macros key = s.macros key ∨
    underAlias name key = true ∧ ∃ m, s'.macros key = some m ∧ m.publisher = some name ∧ s.next ≤ m.id ∧ m.id < s'.next
  catalogs : s'.catalogs = s.catalogs
  functions : s'.functions = s.functions
  registrations : s'.registrations = s.registrations
  defaultSchemas : s'.defaultSchemas = s.defaultSchemas
  metadata : s'.metadata = s.metadata

theorem writesMacros_run (h : ReflTransGen (MacroStep name) s s') : WritesMacros name s s' := by
  induction h with
  | refl => exact ⟨Nat.le_refl _, fun _ => .inl rfl, rfl, rfl, rfl, rfl, rfl⟩
  | @tail s' s'' _ hstep ih =>
    obtain ⟨key, info, hkey, rfl⟩ := hstep
    refine ⟨ih.next.trans (Nat.le_succ _), fun y => ?_, ih.catalogs, ih.functions, ih.registrations, ih.defaultSchemas,
      ih.metadata⟩
    by_cases hy : y = key
    · subst hy
      exact .inr ⟨hkey, _, Function.update_self .., rfl, ih.next, Nat.lt_succ_self _⟩
    · have hsame : (s'.insertMacro name key info).macros y = s'.macros y := Function.update_of_ne hy ..
      rw [hsame]
      rcases ih.macros y with hy | ⟨hunder, m, hm, hpublisher, hid, hlt⟩
      · exact .inl hy
      · exact .inr ⟨hunder, m, hm, hpublisher, hid, Nat.lt_succ_of_lt hlt⟩

theorem writesMacros_registerMacros (spec : AttachSpec) (provider : VgiCatalogProvider) (s : Registries) :
    WritesMacros spec.name (s.removeMacros spec.name) (s.registerMacros spec provider) :=
  writesMacros_run (macroStep_registerMacros spec provider s)

/-! ## A whole attachment -/

section
variable (spec : AttachSpec) (connection : VgiConnection) (prepared : PreparedAttach) (s : Registries)

/-- The functions of the alias are gone, and those of the worker are there where nothing is. -/
theorem extends_publishFunctions :
    Extends (PublishedBy spec.name) (s.deregisterAliasFunctions spec.name)
      (publishFunctions spec prepared (s.deregisterAliasFunctions spec.name)).2 :=
  .of_run (fun _ _ => extends_publishStep) (publishes_publishFunctions spec prepared _)

theorem publish_functions :
    (s.publish spec connection prepared).functions =
      (publishFunctions spec prepared (s.deregisterAliasFunctions spec.name)).2.functions :=
  (writesMacros_registerMacros spec prepared.provider _).functions

theorem publish_registrations :
    (s.publish spec connection prepared).registrations =
      (publishFunctions spec prepared (s.deregisterAliasFunctions spec.name)).2.registrations :=
  (writesMacros_registerMacros spec prepared.provider _).registrations

theorem publish_catalogs :
    (s.publish spec connection prepared).catalogs = s.catalogs.register spec.name (some prepared.provider) := by
  have hmacros := (writesMacros_registerMacros spec prepared.provider
    (publishFunctions spec prepared (s.deregisterAliasFunctions spec.name)).2).catalogs
  have hfunctions := (extends_publishFunctions spec prepared s).catalogs
  exact congrArg (CatalogList.register spec.name (some prepared.provider)) (hmacros.trans hfunctions)

theorem publish_macros (key : Chars) :
    (s.publish spec connection prepared).macros key = (s.removeMacros spec.name).macros key ∨
      underAlias spec.name key = true ∧ ∃ m, (s.publish spec connection prepared).macros key = some m ∧
        m.publisher = some spec.name ∧ s.next ≤ m.id ∧ m.id < (s.publish spec connection prepared).next := by
  have hextends := extends_publishFunctions spec prepared s
  have hmacros := writesMacros_registerMacros spec prepared.provider
    (publishFunctions spec prepared (s.deregisterAliasFunctions spec.name)).2
  rcases hmacros.macros key with hsame | ⟨hunder, m, hm, hpublisher, hid, hlt⟩
  · refine .inl (hsame.trans ?_)
    simp only [removeMacros, hextends.macros]
    rfl
  · refine .inr ⟨hunder, m, hm, hpublisher, hextends.next.trans hid, ?_⟩
    exact Nat.lt_of_lt_of_le hlt (Nat.le_add_right _ 2)

theorem publish_next : s.next ≤ (s.publish spec connection prepared).next := by
  have hextends := extends_publishFunctions spec prepared s
  have hmacros := writesMacros_registerMacros spec prepared.provider
    (publishFunctions spec prepared (s.deregisterAliasFunctions spec.name)).2
  exact (hextends.next.trans hmacros.next).trans (Nat.le_add_right _ 2)

/-- The default schema and the metadata are written at the lower-case alias. -/
theorem publish_defaultSchemas : ∃ id, s.next ≤ id ∧ id < (s.publish spec connection prepared).next ∧
    (s.publish spec connection prepared).defaultSchemas = Function.update s.defaultSchemas (lower spec.name)
      (some { id, publisher := some spec.name, value := prepared.provider.defaultSchema }) := by
  have hextends := extends_publishFunctions spec prepared s
  have hmacros := writesMacros_registerMacros spec prepared.provider
    (publishFunctions spec prepared (s.deregisterAliasFunctions spec.name)).2
  refine ⟨_, hextends.next.trans hmacros.next, Nat.lt_add_of_pos_right (by decide : 0 < 2), ?_⟩
  exact congrArg (fun schemas => Function.update schemas _ _) (hmacros.defaultSchemas.trans hextends.defaultSchemas)

theorem publish_metadata : ∃ id value, s.next ≤ id ∧ id < (s.publish spec connection prepared).next ∧
    (s.publish spec connection prepared).metadata = Function.update s.metadata (lower spec.name)
      (some { id, publisher := some spec.name, value }) ∧ value.workerCatalog = spec.catalog := by
  have hextends := extends_publishFunctions spec prepared s
  have hmacros := writesMacros_registerMacros spec prepared.provider
    (publishFunctions spec prepared (s.deregisterAliasFunctions spec.name)).2
  let value : AttachedMetadata := { connection, workerCatalog := spec.catalog, provider := prepared.provider
                                    publishedGlobalFunctions :=
                                      (publishFunctions spec prepared (s.deregisterAliasFunctions spec.name)).1 }
  refine ⟨_, value, (hextends.next.trans hmacros.next).trans (Nat.le_succ _), Nat.lt_succ_self _, ?_, rfl⟩
  exact congrArg (fun metadata => Function.update metadata _ _) (hmacros.metadata.trans hextends.metadata)

end

end Registries

/-! ## When an attachment is published -/

/-- The options and the connection are sound, and the worker can be discovered: nothing can fail any more. -/
def AttachSpec.Publishable (parse : Chars → Except String VgiLocation) (rpcTimeout : Option Nat) (answer : AttachAnswer)
    (spec : AttachSpec) : Prop :=
  ∃ globalFunctions connection prepared, spec.globalFunctionsEnabled = .ok globalFunctions ∧
    spec.connectionWithRuntime parse rpcTimeout = .ok connection ∧ spec.prepare globalFunctions answer = .ok prepared

section
variable {parse : Chars → Except String VgiLocation} {rpcTimeout : Option Nat} {answer : AttachAnswer} {spec : AttachSpec}

theorem attachOne_of_publishable (h : spec.Publishable parse rpcTimeout answer) (s : Registries) :
    ∃ connection prepared, (attachOne parse rpcTimeout answer spec s).result = .ok prepared.provider.companions ∧
      (attachOne parse rpcTimeout answer spec s).registries = s.registerDiagnostics.publish spec connection prepared := by
  obtain ⟨globalFunctions, connection, prepared, hglobal, hconnection, hprepared⟩ := h
  exact ⟨connection, prepared, by simp [attachOne, hglobal, hconnection, hprepared]⟩

/-- A failure comes before the old alias is touched. -/
theorem attachOne_of_not_publishable (h : ¬ spec.Publishable parse rpcTimeout answer) (s : Registries) :
    ∃ e, (attachOne parse rpcTimeout answer spec s).result = .error e ∧
      s.Extends Registries.IsDiagnostics (attachOne parse rpcTimeout answer spec s).registries := by
  cases hglobal : spec.globalFunctionsEnabled with
  | error e => exact ⟨e, by simp only [attachOne, hglobal, true_and]; exact .refl s⟩
  | ok globalFunctions =>
    cases hconnection : spec.connectionWithRuntime parse rpcTimeout with
    | error e => exact ⟨e, by simp only [attachOne, hglobal, hconnection, true_and]; exact .refl s⟩
    | ok connection =>
      cases hprepared : spec.prepare globalFunctions answer with
      | error e =>
        refine ⟨e, ?_⟩
        simp only [attachOne, hglobal, hconnection, hprepared, true_and]
        exact Registries.extends_registerDiagnostics s
      | ok prepared => exact absurd ⟨globalFunctions, connection, prepared, hglobal, hconnection, hprepared⟩ h

end

end VgiDatafusion
