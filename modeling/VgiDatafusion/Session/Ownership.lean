import VgiDatafusion.Session.Publishing

/-!
# Who published what: the invariant of a session

Whatever is attached, detached or registered by others, in any order:

* the function an alias published is recorded under the alias in lower case, with the object that is registered, and what is
  recorded and still registered was published under that lower-case alias (`FunctionsInv`);
* a macro lies under the lower-case alias it was published for, a default schema and the metadata at it (`Entries`).

So the lower-case alias is what the session knows an attachment by, while its catalogs are told apart by their exact names.
-/
namespace VgiDatafusion

open Relation StepSystem Worklist

namespace Registries

variable {s s' : Registries} {name : Chars}

/-! ## Keyed registries -/

/-- Every entry is an alias's, and lies where that alias puts it. -/
def Entries {α : Type} (place : Chars → Chars → Prop) (entries : Chars → Option (Owned α)) (next : Nat) : Prop :=
  ∀ key e, entries key = some e → e.id < next ∧ ∃ name, e.publisher = some name ∧ place name key

namespace Entries

variable {α : Type} {place : Chars → Chars → Prop} {entries entries' : Chars → Option (Owned α)} {next next' : Nat}

theorem mono (h : Entries place entries next) (hnext : next ≤ next') : Entries place entries next' :=
  fun key e he => ⟨Nat.lt_of_lt_of_le (h key e he).1 hnext, (h key e he).2⟩

/-- Each entry is an old one or a new one in its place. -/
theorem of_or (h : Entries place entries next) (hnext : next ≤ next')
    (hor : ∀ key e, entries' key = some e →
      entries key = some e ∨ e.id < next' ∧ ∃ name, e.publisher = some name ∧ place name key) :
    Entries place entries' next' := by
  intro key e he
  rcases hor key e he with hold | hnew
  · exact h.mono hnext key e hold
  · exact hnew

theorem update (h : Entries place entries next) (hnext : next ≤ next') {key : Chars} {e : Owned α} (hid : e.id < next')
    (hpublisher : e.publisher = some name) (hplace : place name key) :
    Entries place (Function.update entries key (some e)) next' := by
  refine h.of_or hnext fun other found hfound => ?_
  by_cases hother : other = key
  · subst hother
    rw [Function.update_self] at hfound
    cases hfound
    exact .inr ⟨hid, name, hpublisher, hplace⟩
  · rw [Function.update_of_ne hother] at hfound
    exact .inl hfound

theorem remove (h : Entries place entries next) (key : Chars) : Entries place (Function.update entries key none) next := by
  refine h.of_or (Nat.le_refl _) fun other found hfound => ?_
  by_cases hother : other = key
  · subst hother
    rw [Function.update_self] at hfound
    cases hfound
  · rw [Function.update_of_ne hother] at hfound
    exact .inl hfound

end Entries

def AtAlias (name key : Chars) : Prop := lower name = key

def UnderAlias (name key : Chars) : Prop := underAlias name key = true

/-! ## Functions -/

/-- Every function of an alias was published by it, and is on record under it. -/
structure FunctionsInv (s : Registries) : Prop where
  issued : ∀ kind key f, s.functions kind key = some f → f.id < s.next
  registered : ∀ n kind key r, s.registrations n kind key = some r → r.owner < s.next
  /-- What an alias published is recorded for it. -/
  recorded : ∀ kind key f name, s.functions kind key = some f → f.publisher = some name →
    (s.registrations (lower name) kind key).map (·.owner) = some f.id
  /-- What is recorded and still there was published under that alias. -/
  owned : ∀ n kind key r f, s.registrations n kind key = some r → s.functions kind key = some f →
    f.id = r.owner → f.publisher.map lower = some n

namespace FunctionsInv

theorem owns_iff (h : FunctionsInv s) {kind : FunctionKind} {key : Chars} :
    s.owns name kind key = true ↔ ∃ f, s.functions kind key = some f ∧ f.publisher.map lower = some (lower name) := by
  constructor
  · intro howns
    rw [owns] at howns
    split at howns
    · rename_i registered current hregistered hcurrent
      exact ⟨current, hcurrent, h.owned _ _ _ _ _ hregistered hcurrent (of_decide_eq_true howns)⟩
    · cases howns
  · rintro ⟨f, hf, hpublisher⟩
    obtain ⟨publisher, hname, hlower⟩ := Option.map_eq_some_iff.1 hpublisher
    have hrecorded := h.recorded kind key f publisher hf hname
    rw [hlower] at hrecorded
    obtain ⟨registered, hregistered, howner⟩ := Option.map_eq_some_iff.1 hrecorded
    simp only [owns, hregistered, hf, howner, decide_true]

/-- Registering where nothing is. -/
theorem register (h : FunctionsInv s) (p : Publication) : FunctionsInv (s.register p) where
  issued kind key f hf := by
    simp only [Registries.register] at hf ⊢
    split at hf
    · cases hf
      exact Nat.lt_succ_self _
    · exact Nat.lt_succ_of_lt (h.issued kind key f hf)
  registered n kind key r hr := by
    simp only [Registries.register] at hr ⊢
    split at hr
    · cases hr
      exact Nat.lt_succ_self _
    · exact Nat.lt_succ_of_lt (h.registered n kind key r hr)
  recorded kind key f publisher hf hpublisher := by
    simp only [Registries.register] at hf ⊢
    by_cases hsame : kind = p.kind ∧ key = p.key
    · rw [if_pos hsame] at hf
      cases hf
      cases hpublisher
      simp [hsame]
    · rw [if_neg hsame] at hf
      have hother : ¬ (lower publisher = lower p.name ∧ kind = p.kind ∧ key = p.key) := fun hall => hsame hall.2
      rw [if_neg hother]
      exact h.recorded kind key f publisher hf hpublisher
  owned n kind key r f hr hf hid := by
    simp only [Registries.register] at hr hf
    by_cases hsame : kind = p.kind ∧ key = p.key
    · rw [if_pos hsame] at hf
      cases hf
      by_cases hname : n = lower p.name
      · simp [hname]
      · have hother : ¬ (n = lower p.name ∧ kind = p.kind ∧ key = p.key) := fun hall => hname hall.1
        rw [if_neg hother] at hr
        have hbelow := h.registered n kind key r hr
        exact absurd hid (Nat.ne_of_gt hbelow)
    · rw [if_neg hsame] at hf
      have hother : ¬ (n = lower p.name ∧ kind = p.kind ∧ key = p.key) := fun hall => hsame hall.2
      rw [if_neg hother] at hr
      exact h.owned n kind key r f hr hf hid

theorem registerOther (h : FunctionsInv s) (kind : FunctionKind) (keys : List Chars) :
    FunctionsInv (s.registerOther kind keys) where
  issued k key f hf := by
    simp only [Registries.registerOther] at hf ⊢
    split at hf
    · cases hf
      exact Nat.lt_succ_self _
    · exact Nat.lt_succ_of_lt (h.issued k key f hf)
  registered n k key r hr := Nat.lt_succ_of_lt (h.registered n k key r hr)
  recorded k key f publisher hf hpublisher := by
    simp only [Registries.registerOther] at hf ⊢
    split at hf
    · cases hf
      cases hpublisher
    · exact h.recorded k key f publisher hf hpublisher
  owned n k key r f hr hf hid := by
    simp only [Registries.registerOther] at hr hf
    split at hf
    · cases hf
      exact absurd hid (Nat.ne_of_gt (h.registered n k key r hr))
    · exact h.owned n k key r f hr hf hid

theorem deregisterOther (h : FunctionsInv s) (kind : FunctionKind) (keys : List Chars) :
    FunctionsInv (s.deregisterOther kind keys) := by
  have hold : ∀ k key f, (s.deregisterOther kind keys).functions k key = some f → s.functions k key = some f := by
    intro k key f hf
    simp only [Registries.deregisterOther] at hf
    split at hf
    · cases hf
    · exact hf
  exact ⟨fun k key f hf => h.issued k key f (hold k key f hf), h.registered,
    fun k key f publisher hf => h.recorded k key f publisher (hold k key f hf),
    fun n k key r f hr hf => h.owned n k key r f hr (hold k key f hf)⟩

theorem deregisterAliasFunctions (h : FunctionsInv s) (name : Chars) :
    FunctionsInv (s.deregisterAliasFunctions name) := by
  have hold : ∀ kind key f, (s.deregisterAliasFunctions name).functions kind key = some f →
      s.functions kind key = some f ∧ f.publisher.map lower ≠ some (lower name) := by
    intro kind key f hf
    simp only [Registries.deregisterAliasFunctions] at hf
    split at hf
    · cases hf
    · rename_i howns
      exact ⟨hf, fun hpublisher => howns (h.owns_iff.2 ⟨f, hf, hpublisher⟩)⟩
  have hregistered : ∀ n kind key r, (s.deregisterAliasFunctions name).registrations n kind key = some r →
      s.registrations n kind key = some r := by
    intro n kind key r hr
    simp only [Registries.deregisterAliasFunctions] at hr
    split at hr
    · cases hr
    · exact hr
  refine ⟨fun kind key f hf => h.issued kind key f (hold kind key f hf).1,
    fun n kind key r hr => h.registered n kind key r (hregistered n kind key r hr), ?_,
    fun n kind key r f hr hf => h.owned n kind key r f (hregistered n kind key r hr) (hold kind key f hf).1⟩
  intro kind key f publisher hf hpublisher
  obtain ⟨hf, hother⟩ := hold kind key f hf
  have hname : lower publisher ≠ lower name := by
    intro hlower
    exact hother (by rw [hpublisher, Option.map_some, hlower])
  simp only [Registries.deregisterAliasFunctions, if_neg hname]
  exact h.recorded kind key f publisher hf hpublisher

theorem publishStep (h : FunctionsInv s) (hstep : PublishStep name s s') : FunctionsInv s' := by
  obtain ⟨p, -, rfl⟩ := hstep
  rw [registerIfAbsent]
  split
  · exact h
  · exact h.register p

theorem publishes (h : FunctionsInv s) (hrun : ReflTransGen (PublishStep name) s s') : FunctionsInv s' := by
  induction hrun with
  | refl => exact h
  | tail _ hstep ih => exact ih.publishStep hstep

/-- Only the two maps and the counter matter, and the counter may grow. -/
theorem congr (h : FunctionsInv s) (hfunctions : s'.functions = s.functions) (hregistrations : s'.registrations = s.registrations)
    (hnext : s.next ≤ s'.next) : FunctionsInv s' where
  issued kind key f hf := Nat.lt_of_lt_of_le (h.issued kind key f (hfunctions ▸ hf)) hnext
  registered n kind key r hr := Nat.lt_of_lt_of_le (h.registered n kind key r (hregistrations ▸ hr)) hnext
  recorded kind key f publisher hf hpublisher := by
    rw [hregistrations]
    exact h.recorded kind key f publisher (hfunctions ▸ hf) hpublisher
  owned n kind key r f hr hf := h.owned n kind key r f (hregistrations ▸ hr) (hfunctions ▸ hf)

end FunctionsInv

/-! ## The invariant -/

/-- Every entry of the registries is under the alias of the catalog that made it. -/
structure Inv (s : Registries) : Prop where
  functions : FunctionsInv s
  macros : Entries UnderAlias s.macros s.next
  defaultSchemas : Entries AtAlias s.defaultSchemas s.next
  metadata : Entries AtAlias s.metadata s.next

namespace Inv

theorem init : Inv empty where
  functions := ⟨fun _ _ _ h => (by cases h), fun _ _ _ _ h => (by cases h), fun _ _ _ _ h => (by cases h),
    fun _ _ _ _ _ h => (by cases h)⟩
  macros _ _ h := by cases h
  defaultSchemas _ _ h := by cases h
  metadata _ _ h := by cases h

theorem registerOther (h : Inv s) (kind : FunctionKind) (keys : List Chars) : Inv (s.registerOther kind keys) where
  functions := h.functions.registerOther kind keys
  macros := h.macros.mono (Nat.le_succ _)
  defaultSchemas := h.defaultSchemas.mono (Nat.le_succ _)
  metadata := h.metadata.mono (Nat.le_succ _)

theorem registerFree (h : Inv s) (entry : FunctionKind × Chars) : Inv (s.registerFree entry) := by
  rw [Registries.registerFree]
  split
  · exact h
  · exact h.registerOther _ _

theorem registerDiagnostics (h : Inv s) : Inv s.registerDiagnostics :=
  List.foldlRecOn _ _ h fun _ hs entry _ => hs.registerFree entry

theorem publish (h : Inv s) (spec : AttachSpec) (connection : VgiConnection) (prepared : PreparedAttach) :
    Inv (s.publish spec connection prepared) := by
  have hnext := publish_next spec connection prepared s
  refine ⟨?_, ?_, ?_, ?_⟩
  · have hpublished := (h.functions.deregisterAliasFunctions spec.name).publishes (publishes_publishFunctions spec prepared _)
    have hmacros := writesMacros_registerMacros spec prepared.provider
      (publishFunctions spec prepared (s.deregisterAliasFunctions spec.name)).2
    exact hpublished.congr (publish_functions spec connection prepared s) (publish_registrations spec connection prepared s)
      (hmacros.next.trans (Nat.le_add_right _ 2))
  · refine h.macros.of_or hnext fun key m hm => ?_
    rcases publish_macros spec connection prepared s key with hold | ⟨hunder, m', hm', hpublisher, -, hlt⟩
    · rw [hold, removeMacros] at hm
      dsimp only at hm
      split at hm
      · cases hm
      · exact .inl hm
    · rw [hm'] at hm
      cases hm
      exact .inr ⟨hlt, spec.name, hpublisher, hunder⟩
  · obtain ⟨id, -, hlt, hdefaults⟩ := publish_defaultSchemas spec connection prepared s
    rw [hdefaults]
    exact h.defaultSchemas.update hnext hlt rfl rfl
  · obtain ⟨id, value, -, hlt, hmetadata, -⟩ := publish_metadata spec connection prepared s
    rw [hmetadata]
    exact h.metadata.update hnext hlt rfl rfl

theorem attachOne {parse : Chars → Except String VgiLocation} {rpcTimeout : Option Nat} {answer : AttachAnswer}
    {spec : AttachSpec} (h : Inv s) : Inv (attachOne parse rpcTimeout answer spec s).registries := by
  rw [VgiDatafusion.attachOne]
  split
  · exact h
  · split
    · exact h
    · dsimp only
      split
      · exact h.registerDiagnostics
      · exact h.registerDiagnostics.publish _ _ _

theorem visit {env : AttachEnvironment} {root : AttachSpec} (companion : Companion) {t : Traversal} (h : Inv t.registries) :
    Inv (visit env root companion t).2.registries := by
  rcases visit_cases env root companion t with ⟨hsame, -⟩ | ⟨spec, -, -, hvisit⟩
  · rw [hsame]
    exact h
  · rw [hvisit]
    exact h.attachOne

theorem attach {env : AttachEnvironment} {spec : AttachSpec} (h : Inv s) : Inv (attach env spec s).2.registries := by
  rw [VgiDatafusion.attach]
  split
  · exact h
  · dsimp only
    split
    · exact h.attachOne
    · rw [traverse]
      split
      · refine exhaust_keeps (fun t : Traversal => Inv t.registries) (fun companion t ht => ht.visit companion) _ _ ?_
        exact h.attachOne
      · exact h.attachOne

theorem detach (h : Inv s) (name : Chars) : Inv (detach name s).2 := by
  rw [VgiDatafusion.detach]
  split
  · exact h
  · refine ⟨?_, ?_, h.defaultSchemas.remove _, h.metadata.remove _⟩
    · exact (h.functions.deregisterAliasFunctions name).congr rfl rfl (Nat.le_refl _)
    · refine h.macros.of_or (Nat.le_refl _) fun key m hm => ?_
      dsimp only [registerCatalog, removeMacros] at hm
      split at hm
      · cases hm
      · exact .inl hm

end Inv

end Registries

end VgiDatafusion
