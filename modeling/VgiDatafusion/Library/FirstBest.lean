import Mathlib.Order.Lattice
import Mathlib.Data.List.Basic
import Mathlib.Data.List.Induction

/-!
# The first candidate of the best score

Candidates come in order, and some do not qualify. The best so far is replaced by a strictly better one only, so among
equals the first is kept.
-/
namespace FirstBest

variable {α β : Type} [LinearOrder β] (score : α → Option β)

def consider (best : Option (α × β)) (a : α) : Option (α × β) :=
  match score a with
  | none => best
  | some s =>
    match best with
    | none => some (a, s)
    | some (b, t) => if t < s then some (a, s) else some (b, t)

def firstBest (candidates : List α) : Option (α × β) := candidates.foldl (consider score) none

/-- It qualifies, with a score above those before it and not below those after it. -/
def IsBest (candidates : List α) (a : α) (s : β) : Prop :=
  ∃ before after, candidates = before ++ a :: after ∧ score a = some s ∧
    (∀ b ∈ before, ∀ t, score b = some t → t < s) ∧ ∀ b ∈ after, ∀ t, score b = some t → t ≤ s

variable {score}

theorem IsBest.mem {candidates : List α} {a : α} {s : β} (h : IsBest score candidates a s) : a ∈ candidates := by
  obtain ⟨before, after, rfl, -⟩ := h
  simp

theorem IsBest.qualifies {candidates : List α} {a : α} {s : β} (h : IsBest score candidates a s) : score a = some s := by
  obtain ⟨-, -, -, hs, -⟩ := h
  exact hs

/-- The last candidate is the best, or it is not better than the best before it. -/
theorem isBest_append_singleton {candidates : List α} {x a : α} {s : β} :
    IsBest score (candidates ++ [x]) a s ↔
      (a = x ∧ score x = some s ∧ ∀ b ∈ candidates, ∀ t, score b = some t → t < s) ∨
        (IsBest score candidates a s ∧ ∀ t, score x = some t → t ≤ s) := by
  constructor
  · rintro ⟨before, after, hsplit, hs, hbefore, hafter⟩
    rcases List.eq_nil_or_concat' after with rfl | ⟨after, y, rfl⟩
    · obtain ⟨rfl, rfl⟩ : candidates = before ∧ x = a := by simpa using hsplit
      exact .inl ⟨rfl, hs, hbefore⟩
    · rw [← List.cons_append, ← List.append_assoc] at hsplit
      obtain ⟨rfl, hlast⟩ := List.append_inj' hsplit rfl
      obtain rfl := List.singleton_inj.1 hlast
      have hx := hafter x (by simp)
      exact .inr ⟨⟨before, after, rfl, hs, hbefore, fun b hb => hafter b (List.mem_append_left _ hb)⟩, hx⟩
  · rintro (⟨rfl, hs, hall⟩ | ⟨⟨before, after, rfl, hs, hbefore, hafter⟩, hx⟩)
    · exact ⟨candidates, [], rfl, hs, hall, by simp⟩
    · refine ⟨before, after ++ [x], by simp, hs, hbefore, ?_⟩
      intro b hb
      rcases List.mem_append.1 hb with hb | hb
      · exact hafter b hb
      · rw [List.mem_singleton.1 hb]
        exact hx

theorem firstBest_append_singleton (candidates : List α) (x : α) :
    firstBest score (candidates ++ [x]) = consider score (firstBest score candidates) x := by
  rw [firstBest, List.foldl_append]
  rfl

/-- Nothing qualifies, or the best is found. -/
theorem firstBest_found (score : α → Option β) (candidates : List α) :
    (firstBest score candidates = none ∧ ∀ a ∈ candidates, score a = none) ∨
      ∃ a s, firstBest score candidates = some (a, s) ∧ IsBest score candidates a s := by
  induction candidates using List.reverseRecOn with
  | nil => exact .inl ⟨rfl, by simp⟩
  | append_singleton candidates x ih =>
    rw [firstBest_append_singleton]
    simp only [isBest_append_singleton]
    cases hx : score x with
    | none =>
      rcases ih with ⟨hnone, hall⟩ | ⟨a, s, hbest, ha⟩
      · refine .inl ⟨by simp [consider, hx, hnone], ?_⟩
        intro b hb
        rcases List.mem_append.1 hb with hb | hb
        · exact hall b hb
        · rw [List.mem_singleton.1 hb, hx]
      · exact .inr ⟨a, s, by simp [consider, hx, hbest], .inr ⟨ha, by simp⟩⟩
    | some t =>
      rcases ih with ⟨hnone, hall⟩ | ⟨a, s, hbest, ha⟩
      · exact .inr ⟨x, t, by simp [consider, hx, hnone], .inl ⟨rfl, rfl, fun b hb u hu => by simp [hall b hb] at hu⟩⟩
      · by_cases hlt : s < t
        · refine .inr ⟨x, t, by simp [consider, hx, hbest, hlt], .inl ⟨rfl, rfl, ?_⟩⟩
          obtain ⟨before, after, rfl, hs, hbefore, hafter⟩ := ha
          intro b hb u hu
          rcases List.mem_append.1 hb with hb | hb
          · exact (hbefore b hb u hu).trans hlt
          · rcases List.mem_cons.1 hb with rfl | hb
            · rw [hs, Option.some.injEq] at hu
              exact hu ▸ hlt
            · exact (hafter b hb u hu).trans_lt hlt
        · refine .inr ⟨a, s, by simp [consider, hx, hbest, hlt], .inr ⟨ha, ?_⟩⟩
          intro u hu
          rw [← Option.some.inj hu]
          exact not_lt.1 hlt

theorem IsBest.unique {candidates : List α} {a b : α} {s t : β} (ha : IsBest score candidates a s)
    (hb : IsBest score candidates b t) : a = b ∧ s = t := by
  induction candidates using List.reverseRecOn with
  | nil => simpa using ha.mem
  | append_singleton candidates x ih =>
    rcases isBest_append_singleton.1 ha with ⟨rfl, hs, hall⟩ | ⟨ha, hx⟩ <;>
      rcases isBest_append_singleton.1 hb with ⟨hbx, ht, hall'⟩ | ⟨hb, hx'⟩
    · rw [hs, Option.some.injEq] at ht
      exact ⟨hbx.symm, ht⟩
    · exact absurd (hx' s hs) (not_le.2 (hall b hb.mem t hb.qualifies))
    · exact absurd (hx t ht) (not_le.2 (hall' a ha.mem s ha.qualifies))
    · exact ih ha hb

theorem firstBest_eq_some_iff {candidates : List α} {a : α} {s : β} :
    firstBest score candidates = some (a, s) ↔ IsBest score candidates a s := by
  rcases firstBest_found score candidates with ⟨hnone, hall⟩ | ⟨b, t, hbest, hb⟩
  · rw [hnone]
    refine ⟨by simp, fun h => ?_⟩
    have hqualifies := h.qualifies
    rw [hall a h.mem] at hqualifies
    cases hqualifies
  · rw [hbest]
    constructor
    · rintro heq
      cases heq
      exact hb
    · intro ha
      obtain ⟨rfl, rfl⟩ := hb.unique ha
      rfl

theorem firstBest_eq_none_iff {candidates : List α} :
    firstBest score candidates = none ↔ ∀ a ∈ candidates, score a = none := by
  rcases firstBest_found score candidates with ⟨hnone, hall⟩ | ⟨b, t, hbest, hb⟩
  · exact iff_of_true hnone hall
  · refine iff_of_false (by simp [hbest]) ?_
    intro hall
    have hqualifies := hb.qualifies
    rw [hall b hb.mem] at hqualifies
    cases hqualifies

end FirstBest
