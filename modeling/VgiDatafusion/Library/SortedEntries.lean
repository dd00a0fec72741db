import Mathlib.Order.Lattice

/-!
# Ordered maps as sorted lists of entries

An entry carries its key; a map is a list of entries with strictly increasing keys. Insertion replaces the entry of the
same key and keeps the order.
-/
namespace SortedEntries

variable {α κ : Type} [LinearOrder κ] (key : α → κ)

/-- Strictly increasing keys. -/
def Sorted (entries : List α) : Prop := entries.Pairwise fun a b => key a < key b

def put (x : α) : List α → List α
  | [] => [x]
  | y :: rest =>
    if key x < key y then x :: y :: rest
    else if key x = key y then x :: rest
    else y :: put x rest

variable {key} {x : α} {entries : List α}

theorem mem_put {a : α} (h : a ∈ put key x entries) : a = x ∨ a ∈ entries := by
  induction entries with
  | nil => simpa [put] using h
  | cons y rest ih =>
    rw [put] at h
    split at h
    · simpa using h
    · split at h
      · rcases List.mem_cons.1 h with rfl | h
        · exact .inl rfl
        · exact .inr (List.mem_cons_of_mem _ h)
      · rcases List.mem_cons.1 h with rfl | h
        · exact .inr List.mem_cons_self
        · exact (ih h).imp_right (List.mem_cons_of_mem _)

theorem put_sorted (h : Sorted key entries) : Sorted key (put key x entries) := by
  induction entries with
  | nil => simp [put, Sorted]
  | cons y rest ih =>
    obtain ⟨hfirst, hrest⟩ := List.pairwise_cons.1 h
    rw [put]
    split
    · rename_i hlt
      refine List.pairwise_cons.2 ⟨?_, h⟩
      intro a ha
      rcases List.mem_cons.1 ha with rfl | ha
      · exact hlt
      · exact hlt.trans (hfirst a ha)
    · rename_i hge
      split
      · rename_i heq
        refine List.pairwise_cons.2 ⟨?_, hrest⟩
        intro a ha
        rw [heq]
        exact hfirst a ha
      · rename_i hne
        refine List.pairwise_cons.2 ⟨?_, ih hrest⟩
        intro a ha
        rcases mem_put ha with rfl | ha
        · exact lt_of_le_of_ne (not_lt.1 hge) (Ne.symm hne)
        · exact hfirst a ha

/-- The entry itself, and those of other keys. -/
theorem mem_put_iff (h : Sorted key entries) {a : α} :
    a ∈ put key x entries ↔ a = x ∨ (a ∈ entries ∧ key a ≠ key x) := by
  induction entries with
  | nil => simp [put]
  | cons y rest ih =>
    obtain ⟨hfirst, hrest⟩ := List.pairwise_cons.1 h
    rw [put]
    split
    · rename_i hlt
      have hothers : ∀ b ∈ y :: rest, key b ≠ key x := by
        intro b hb
        rcases List.mem_cons.1 hb with rfl | hb
        · exact hlt.ne'
        · exact (hlt.trans (hfirst b hb)).ne'
      rw [List.mem_cons]
      exact or_congr_right ⟨fun ha => ⟨ha, hothers a ha⟩, fun ha => ha.1⟩
    · split
      · rename_i heq
        rw [List.mem_cons, List.mem_cons]
        refine or_congr_right ⟨fun ha => ⟨.inr ha, ?_⟩, ?_⟩
        · rw [heq]
          exact (hfirst a ha).ne'
        · rintro ⟨rfl | ha, hne⟩
          · exact absurd heq.symm hne
          · exact ha
      · rename_i hne
        rw [List.mem_cons, List.mem_cons, ih hrest]
        constructor
        · rintro (rfl | rfl | ⟨ha, hkey⟩)
          · exact .inr ⟨.inl rfl, Ne.symm hne⟩
          · exact .inl rfl
          · exact .inr ⟨.inr ha, hkey⟩
        · rintro (rfl | ⟨rfl | ha, hkey⟩)
          · exact .inr (.inl rfl)
          · exact .inl rfl
          · exact .inr (.inr ⟨ha, hkey⟩)

end SortedEntries
