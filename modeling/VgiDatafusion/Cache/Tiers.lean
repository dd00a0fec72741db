import VgiDatafusion.Cache.JobTrace

/-!
# The two cache tiers behind one key

| here | there |
| --- | --- |
| `TierEntry` | what decides the life of a stored result: its size, its remaining freshness, its control |
| `Tiers` | the entry of the memory cache under the scan's key, and the durable generations on disk |
| `Tiers.apply` | `ResultCache::remove`, `DiskCache::remove_hit`, `slide_with_control`, `revalidate_freshness` on them |
| `RefreshAtomic` | `refresh_selected` (lib.rs:2544-2609) as one update of both tiers |

The tier operations answer what the `JobEnv` says; an operation that reports no success has changed
nothing. `refresh_atomic_iff` is the exact condition: the memory entry is slid before the durable
companion is asked, and an entry over the cap is dropped by its key, whatever the map holds under it
by then.
-/
namespace VgiDatafusion

open Traced

variable {B R : Type}

/-- What decides the life of a stored result: its size, its remaining freshness and its control. -/
structure TierEntry where
  bytes : Nat
  remaining : Nat
  control : CacheControl
  deriving DecidableEq

/-- The entry of the memory cache under the scan's key, and the durable generations. -/
structure Tiers where
  memory : Option TierEntry
  durable : Nat → Option TierEntry

/-- The durable generations of a selected entry. -/
def Revalidation.hits : Revalidation B → List (DiskHit B)
  | .memory _ diskCompanion => diskCompanion.toList
  | .disk hit => [hit]

/-- A new deadline and policy for the same rows. -/
def TierEntry.refresh (remaining : Nat) (control : CacheControl) (entry : TierEntry) : TierEntry :=
  { entry with remaining, control }

namespace Tiers

variable (env : JobEnv B) (remaining : Nat)

def mapDurable (t : Tiers) (generation : Nat) (f : Option TierEntry → Option TierEntry) : Tiers :=
  { t with durable := fun g => if g = generation then f (t.durable g) else t.durable g }

/-- What one operation of the job does to the tiers; `remaining` is the freshness it brings. -/
def apply (t : Tiers) : JobEffect B → Tiers
  | .removeMemory => { t with memory := none }
  | .removeHit generation =>
    match env.removesHit with
    | .ok () => t.mapDurable generation fun _ => none
    | .error _ => t
  | .slideMemory control => if env.slides then { t with memory := t.memory.map (.refresh remaining control) } else t
  | .revalidateHit generation control =>
    match env.revalidatesHit with
    | .ok true => t.mapDurable generation (·.map (.refresh remaining control))
    | _ => t
  | _ => t

def applyAll (t : Tiers) (trace : List (JobEffect B)) : Tiers := trace.foldl (apply env remaining) t

end Tiers

/-- The tiers report success only for an entry they hold. -/
structure TierReports (env : JobEnv B) (t : Tiers) (entry : Revalidation B) : Prop where
  slides : env.slides = true → t.memory.isSome = true
  revalidates : env.revalidatesHit = .ok true → ∀ hit ∈ entry.hits, (t.durable hit.generation).isSome = true

/-- The entry has the freshness and the control of the answer. -/
def Refreshed (remaining : Nat) (control : CacheControl) (entry : Option TierEntry) : Prop :=
  ∃ e, entry = some e ∧ e.remaining = remaining ∧ e.control = control

theorem refreshed_map (remaining : Nat) (control : CacheControl) {entry : Option TierEntry}
    (h : entry.isSome = true) :
    Refreshed remaining control (entry.map (.refresh remaining control)) := by
  obtain ⟨e, rfl⟩ := Option.isSome_iff_exists.1 h
  exact ⟨_, rfl, rfl, rfl⟩

section
variable (env : JobEnv B) (remaining : Nat) (control : CacheControl)

/-- The memory tier keeps its entry, or loses one that exceeds the current cap. -/
def KeptOrOverCap (before after : Option TierEntry) : Prop :=
  after = before ∨ ∃ e, before = some e ∧ env.maxEntryBytes < e.bytes ∧ after = none

/-- An error has changed nothing; without one the tier that is replayed from is refreshed. -/
def RefreshAtomic (entry : Revalidation B) (t : Tiers) : Prop :=
  let after := t.applyAll env remaining (refreshSelected env control entry).trace
  match (refreshSelected env control entry).result with
  | .error _ => KeptOrOverCap env t.memory after.memory ∧ after.durable = t.durable
  | .ok (.memory _ _) => Refreshed remaining control after.memory
  | .ok (.disk hit) => Refreshed remaining control (after.durable hit.generation)

/-- When `refreshSelected` updates both tiers or neither. -/
def RefreshSafe (entry : Revalidation B) (t : Tiers) : Prop :=
  match entry with
  | .disk _ => True
  | .memory selected diskCompanion =>
    if env.maxEntryBytes < selected.bytes then
      -- what the map holds under the key is over the cap too, or the companion takes over
      (∀ e, t.memory = some e → env.maxEntryBytes < e.bytes) ∨
        diskCompanion.isSome = true ∧ env.durable = true ∧ env.revalidatesHit = .ok true
    else
      -- no companion fails after the memory entry has slid
      ¬ (diskCompanion.isSome = true ∧ env.durable = true ∧ env.slides = true ∧ ∃ error, env.revalidatesHit = .error error) ∨
        t.memory.map (.refresh remaining control) = t.memory

variable {env remaining control}

variable (env remaining control) in
/-- The durable half: the generation is refreshed, or the tiers stay as they are. -/
theorem refreshHit_cases (hit : DiskHit B) (t : Tiers) :
    (env.durable = true ∧ env.revalidatesHit = .ok true ∧ (refreshHit env hit control).result = .ok (.disk hit) ∧
      t.applyAll env remaining (refreshHit env hit control).trace =
        t.mapDurable hit.generation (·.map (.refresh remaining control))) ∨
    (¬ (env.durable = true ∧ env.revalidatesHit = .ok true) ∧
      (∃ error, (refreshHit env hit control).result = .error error) ∧
      t.applyAll env remaining (refreshHit env hit control).trace = t) := by
  unfold refreshHit
  by_cases hdurable : env.durable = true
  · rw [if_pos hdurable, tell_bind]
    cases hanswer : env.revalidatesHit with
    | error error =>
      refine Or.inr ⟨by simp, ⟨_, rfl⟩, ?_⟩
      simp [Tiers.applyAll, Tiers.apply, hanswer, fail]
    | ok refreshed =>
      cases refreshed with
      | false =>
        refine Or.inr ⟨by simp, ⟨_, rfl⟩, ?_⟩
        simp [Tiers.applyAll, Tiers.apply, hanswer, fail]
      | true =>
        refine Or.inl ⟨hdurable, rfl, rfl, ?_⟩
        simp [Tiers.applyAll, Tiers.apply, hanswer]
  · rw [if_neg hdurable]
    exact Or.inr ⟨fun h => hdurable h.1, ⟨_, rfl⟩, rfl⟩

theorem mapDurable_refreshed {t : Tiers} {generation : Nat} (h : (t.durable generation).isSome = true) :
    Refreshed remaining control ((t.mapDurable generation (·.map (.refresh remaining control))).durable generation) := by
  simp only [Tiers.mapDurable, if_true]
  exact refreshed_map remaining control h

theorem refreshAtomic_disk {hit : DiskHit B} {t : Tiers} (hreports : TierReports env t (.disk hit)) :
    RefreshAtomic env remaining control (.disk hit) t := by
  unfold RefreshAtomic
  dsimp only [refreshSelected]
  rcases refreshHit_cases env remaining control hit t with
    ⟨-, hanswer, hresult, hafter⟩ | ⟨-, ⟨error, hresult⟩, hafter⟩
  · rw [hresult, hafter]
    exact mapDurable_refreshed (hreports.revalidates hanswer hit (by simp [Revalidation.hits]))
  · rw [hresult, hafter]
    exact ⟨Or.inl rfl, rfl⟩

theorem keptOrOverCap_none {before : Option TierEntry} :
    KeptOrOverCap env before none ↔ ∀ e, before = some e → env.maxEntryBytes < e.bytes := by
  cases before with
  | none => simp [KeptOrOverCap]
  | some e => simp [KeptOrOverCap]

/-- A selected entry over the cap: its key is cleared, and the companion, if any, decides. -/
theorem refreshAtomic_overCap {selected : CachedEntry B} {diskCompanion : Option (DiskHit B)} {t : Tiers}
    (hover : env.maxEntryBytes < selected.bytes) (hreports : TierReports env t (.memory selected diskCompanion)) :
    RefreshAtomic env remaining control (.memory selected diskCompanion) t ↔
      (∀ e, t.memory = some e → env.maxEntryBytes < e.bytes) ∨
        diskCompanion.isSome = true ∧ env.durable = true ∧ env.revalidatesHit = .ok true := by
  unfold RefreshAtomic
  dsimp only [refreshSelected]
  rw [if_pos hover]
  cases diskCompanion with
  | none =>
    rw [tell_bind]
    simp only [fail, List.append_nil, Tiers.applyAll, List.foldl_cons, List.foldl_nil, Tiers.apply, and_true]
    rw [keptOrOverCap_none]
    simp
  | some hit =>
    rw [tell_bind]
    simp only [Tiers.applyAll, List.foldl_append, List.foldl_cons, List.foldl_nil, Tiers.apply]
    rcases refreshHit_cases env remaining control hit { t with memory := none } with
      ⟨hdurable, hanswer, hresult, hafter⟩ | ⟨hrefused, ⟨error, hresult⟩, hafter⟩
    · simp only [Tiers.applyAll] at hafter
      rw [hresult, hafter]
      have hpresent := hreports.revalidates hanswer hit (by simp [Revalidation.hits])
      exact iff_of_true (mapDurable_refreshed hpresent) (Or.inr ⟨rfl, hdurable, hanswer⟩)
    · simp only [Tiers.applyAll] at hafter
      rw [hresult, hafter]
      simp only [and_true, keptOrOverCap_none, Option.isSome_some, true_and]
      exact (or_iff_left hrefused).symm

/-- A selected entry within the cap: it slides first, and the companion is asked afterwards. -/
theorem refreshAtomic_withinCap {selected : CachedEntry B} {diskCompanion : Option (DiskHit B)} {t : Tiers}
    (hwithin : ¬ env.maxEntryBytes < selected.bytes) (hreports : TierReports env t (.memory selected diskCompanion)) :
    RefreshAtomic env remaining control (.memory selected diskCompanion) t ↔
      ¬ (diskCompanion.isSome = true ∧ env.durable = true ∧ env.slides = true ∧
          ∃ error, env.revalidatesHit = .error error) ∨
        t.memory.map (.refresh remaining control) = t.memory := by
  unfold RefreshAtomic
  dsimp only [refreshSelected]
  rw [if_neg hwithin]
  by_cases hslides : env.slides = true
  · have hslid := refreshed_map remaining control (hreports.slides hslides)
    rw [if_pos hslides]
    by_cases hasked : env.durable = true ∧ ∃ hit, diskCompanion = some hit
    · obtain ⟨hdurable, hit, rfl⟩ := hasked
      rw [hdurable]
      cases hanswer : env.revalidatesHit with
      | ok refreshed =>
        refine iff_of_true ?_ (Or.inl (by simp))
        simp only [tell_bind, pure_trace, pure_result]
        cases refreshed <;>
          simpa [Tiers.applyAll, Tiers.apply, hslides, hanswer, Tiers.mapDurable] using hslid
      | error error =>
        simp only [tell_bind, fail]
        simp only [List.append_nil, List.cons_append, List.nil_append, Tiers.applyAll, List.foldl_cons, List.foldl_nil,
          Tiers.apply, hslides, if_true, hanswer, and_true, Option.isSome_some, Except.error.injEq,
          exists_eq', not_true, false_or]
        constructor
        · rintro (hkept | ⟨e, he, -, hnone⟩)
          · exact hkept
          · simp [he] at hnone
        · exact Or.inl
    · refine iff_of_true ?_ (Or.inl ?_)
      · cases hdurable : env.durable with
        | false => simpa [tell_bind, Tiers.applyAll, Tiers.apply, hslides] using hslid
        | true =>
          cases diskCompanion with
          | none => simpa [tell_bind, Tiers.applyAll, Tiers.apply, hslides] using hslid
          | some hit => exact absurd ⟨hdurable, hit, rfl⟩ hasked
      · rintro ⟨hsome, hdurable, -⟩
        obtain ⟨hit, rfl⟩ := Option.isSome_iff_exists.1 hsome
        exact hasked ⟨hdurable, hit, rfl⟩
  · rw [if_neg hslides]
    refine iff_of_true ?_ (Or.inl fun h => hslides h.2.2.1)
    simp only [tell_bind, fail, List.append_nil, Tiers.applyAll, List.foldl_cons, List.foldl_nil, Tiers.apply,
      hslides, Bool.false_eq_true, if_false]
    exact ⟨Or.inl rfl, trivial⟩

end

/-- **When a refresh is atomic across the tiers.** Always for a durable entry; for a memory entry
unless it slid and its companion then failed, or it was over the cap, its key held an entry within
the cap, and no companion took over. -/
theorem refresh_atomic_iff (env : JobEnv B) (remaining : Nat) (control : CacheControl) (entry : Revalidation B)
    (t : Tiers) (hreports : TierReports env t entry) :
    RefreshAtomic env remaining control entry t ↔ RefreshSafe env remaining control entry t := by
  cases entry with
  | disk hit => exact iff_of_true (refreshAtomic_disk hreports) trivial
  | memory selected diskCompanion =>
    by_cases hover : env.maxEntryBytes < selected.bytes
    · simp only [RefreshSafe, if_pos hover]
      exact refreshAtomic_overCap hover hreports
    · simp only [RefreshSafe, if_neg hover]
      exact refreshAtomic_withinCap hover hreports

/-! ## An entry in both tiers -/

def bothTiers : Revalidation Nat :=
  .memory { batches := [10], bytes := 8, etag := some "v1" } (some { generation := 7, etag := some "v1", partitions := [] })

def validated : CacheControl := { policy := "max-age=60", notModified := true }

/-- Expired in memory and on disk. -/
def expired : Tiers where
  memory := some ⟨8, 0, { policy := "max-age=60" }⟩
  durable g := if g = 7 then some ⟨8, 0, { policy := "max-age=60" }⟩ else none

/-- The tiers answer a refresh, the durable one as given. -/
def refreshing (revalidatesHit : Except String Bool) : JobEnv Nat where
  prepared := .ok ()
  validation _ := .ok { batches := [], control := some validated }
  scan _ := .ok { batches := [], control := some validated }
  freshness _ := .ok { immediatelyStale := false, remaining := 60, expired := false }
  maxEntryBytes := 1024
  durable := true
  slides := true
  revalidatesHit := revalidatesHit
  removesHit := .ok ()
  mayServeOnError := false
  takes _ := true

theorem refresh_atomic_iff_changed : RefreshAtomic (refreshing (.ok false)) 60 validated bothTiers expired :=
  (refresh_atomic_iff (refreshing (.ok false)) 60 validated bothTiers expired ⟨fun _ => rfl, by simp [refreshing]⟩).2
    (Or.inl (by simp [refreshing]))

/-- The durable refresh fails: the call is an error, and the memory entry lives another minute. -/
theorem refresh_fails_after_sliding :
    TierReports (refreshing (.error "no space left on device")) expired bothTiers ∧
      (refreshSelected (refreshing (.error "no space left on device")) validated bothTiers).result =
        .error "could not refresh the matching durable validator generation: no space left on device" ∧
      (expired.applyAll (refreshing (.error "no space left on device")) 60
        (refreshSelected (refreshing (.error "no space left on device")) validated bothTiers).trace).memory =
          some ⟨8, 60, validated⟩ ∧
      ¬ RefreshAtomic (refreshing (.error "no space left on device")) 60 validated bothTiers expired := by
  refine ⟨⟨fun _ => rfl, by simp [refreshing]⟩, rfl, rfl, ?_⟩
  rintro ⟨hkept | ⟨e, -, -, hnone⟩, -⟩
  · exact absurd hkept (by decide)
  · exact absurd hnone (by decide)

end VgiDatafusion
