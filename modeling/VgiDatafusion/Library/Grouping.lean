import Mathlib.Data.List.Forall2

/-!
# Grouping by first occurrence

Elements come one after the other, each with a key. The first one of a key is kept, and every element is given
the index of the one kept for its key. `Grouped` says what stands of the elements seen so far; `grouped_foldlM`
carries it through a pass that may fail.
-/
namespace Grouping

variable {κ α β ε : Type}

/-- The elements kept, under their keys, and the index each element got. -/
abbrev Found (κ α : Type) : Type := List (κ × α) × List Nat

def note [DecidableEq κ] (found : Found κ α) (key : κ) (a : α) : Found κ α :=
  match found.1.findIdx? (·.1 = key) with
  | some index => (found.1, found.2 ++ [index])
  | none => (found.1 ++ [(key, a)], found.2 ++ [found.1.length])

/-- An element whose key is new is kept, under the next index. -/
theorem note_of_new [DecidableEq κ] {found : Found κ α} {key : κ} (h : ∀ u ∈ found.1, u.1 ≠ key) (a : α) :
    note found key a = (found.1 ++ [(key, a)], found.2 ++ [found.1.length]) := by
  have hnone : found.1.findIdx? (·.1 = key) = none := by
    rw [List.findIdx?_eq_none_iff]
    intro u hu
    exact decide_eq_false (h u hu)
  unfold note
  rw [hnone]

structure Grouped (seen : List (κ × α)) (found : Found κ α) : Prop where
  kept : ∀ u ∈ found.1, u ∈ seen
  indexed : List.Forall₂ (fun s j => ∃ u, found.1[j]? = some u ∧ u.1 = s.1) seen found.2
  used : ∀ j < found.1.length, j ∈ found.2
  short : found.1.length ≤ seen.length

theorem grouped_nil : Grouped ([] : List (κ × α)) ([], []) where
  kept := by simp
  indexed := .nil
  used := by simp
  short := by simp

theorem Grouped.note [DecidableEq κ] {seen : List (κ × α)} {found : Found κ α} (h : Grouped seen found) (key : κ) (a : α) :
    Grouped (seen ++ [(key, a)]) (Grouping.note found key a) := by
  unfold Grouping.note
  cases hfind : found.1.findIdx? (·.1 = key) with
  | some index =>
    obtain ⟨hlt, hkey, -⟩ := List.findIdx?_eq_some_iff_getElem.1 hfind
    refine ⟨fun u hu => List.mem_append_left _ (h.kept u hu), ?_, ?_, ?_⟩
    · refine List.rel_append h.indexed (.cons ⟨found.1[index], List.getElem?_eq_getElem hlt, ?_⟩ .nil)
      simpa using hkey
    · intro j hj
      exact List.mem_append_left _ (h.used j hj)
    · rw [List.length_append]
      exact Nat.le_add_right_of_le h.short
  | none =>
    refine ⟨?_, ?_, ?_, ?_⟩
    · intro u hu
      rcases List.mem_append.1 hu with hu | hu
      · exact List.mem_append_left _ (h.kept u hu)
      · exact List.mem_append_right _ hu
    · apply List.rel_append
      · -- an index given before still finds the same element
        refine h.indexed.imp ?_
        rintro s j ⟨u, hj, hkey⟩
        refine ⟨u, ?_, hkey⟩
        rw [List.getElem?_append_left (List.getElem?_eq_some_iff.1 hj).1, hj]
      · exact .cons ⟨(key, a), by simp, rfl⟩ .nil
    · intro j hj
      rw [List.length_append, List.length_singleton] at hj
      by_cases hlt : j < found.1.length
      · exact List.mem_append_left _ (h.used j hlt)
      · have hlast : j = found.1.length := by omega
        subst hlast
        exact List.mem_append_right _ (List.mem_singleton.2 rfl)
    · rw [List.length_append, List.length_append]
      exact Nat.add_le_add_right h.short 1

/-- A pass each step of which notes one element. -/
theorem grouped_foldlM [DecidableEq κ] {step : Found κ α → β → Except ε (Found κ α)} {keyed : β → κ → Prop} {element : β → α}
    (hstep : ∀ found x found', step found x = .ok found' →
      ∃ key, keyed x key ∧ found' = note found key (element x)) :
    ∀ {xs : List β} {seen : List (κ × α)} {found found' : Found κ α}, Grouped seen found →
      xs.foldlM step found = .ok found' →
      ∃ later, List.Forall₂ (fun x s => keyed x s.1 ∧ s.2 = element x) xs later ∧ Grouped (seen ++ later) found'
  | [], seen, found, found', h, hfold => by
    cases hfold
    exact ⟨[], .nil, by simpa using h⟩
  | x :: xs, seen, found, found', h, hfold => by
    rw [List.foldlM_cons] at hfold
    cases hx : step found x with
    | error e =>
      rw [hx] at hfold
      cases hfold
    | ok next =>
      rw [hx] at hfold
      obtain ⟨key, hkey, rfl⟩ := hstep found x next hx
      obtain ⟨later, hlater, hgrouped⟩ := grouped_foldlM hstep (h.note key (element x)) hfold
      refine ⟨(key, element x) :: later, .cons ⟨hkey, rfl⟩ hlater, ?_⟩
      simpa using hgrouped

/-- Where equal keys mean equal contents, the index finds an element of the same contents. -/
theorem Grouped.contents {seen : List (κ × α)} {found : Found κ α} (h : Grouped seen found) (content : α → β)
    (hkeys : ∀ s ∈ seen, ∀ s' ∈ seen, s.1 = s'.1 → content s.2 = content s'.2) :
    List.Forall₂ (fun s j => ∃ u, found.1[j]? = some u ∧ content u.2 = content s.2) seen found.2 := by
  have hkept := h.kept
  have hindexed := h.indexed
  rw [List.forall₂_iff_get] at hindexed ⊢
  refine ⟨hindexed.1, fun i hi hj => ?_⟩
  obtain ⟨u, hu, hkey⟩ := hindexed.2 i hi hj
  exact ⟨u, hu, hkeys u (hkept u (List.mem_of_getElem? hu)) _ (List.getElem_mem _) hkey⟩

end Grouping
