import Mathlib.Logic.Function.Basic

/-!
# Objects shared through weak references

A registry has for each key a weak reference to the object last made for it. An object lives as long as somebody holds a
strong reference (`held` lists the references of all); the registry hands out the living object of a key, and makes a new
one only where there is none. Then a key never has two living objects (`Coherent.unique`), however the references are
dropped.
-/
namespace WeakRegistry

variable {K : Type}

/-- Objects are numbered in the order in which they are made; `made` has their keys. -/
structure Registry (K : Type) where
  entries : K → Option Nat := fun _ => none
  made : List K := []

/-- Every object that lives is the one that the registry has for its key. -/
structure Coherent (r : Registry K) (held : List Nat) : Prop where
  made : ∀ k id, r.entries k = some id → r.made[id]? = some k
  living : ∀ id ∈ held, ∃ k, r.entries k = some id

variable {r : Registry K} {held held' : List Nat} {k : K} {id : Nat}

theorem coherent_empty : Coherent ({} : Registry K) [] := ⟨by simp, by simp⟩

/-- **A key has one living object.** -/
theorem Coherent.unique (h : Coherent r held) {a b : Nat} (ha : a ∈ held) (hb : b ∈ held) (hkey : r.made[a]? = r.made[b]?) :
    a = b := by
  obtain ⟨k, hentry⟩ := h.living a ha
  obtain ⟨k', hentry'⟩ := h.living b hb
  have hsame : k = k' := by
    rw [h.made k a hentry, h.made k' b hentry', Option.some.injEq] at hkey
    exact hkey
  rw [hsame, hentry', Option.some.injEq] at hentry
  exact hentry.symm

/-- References are dropped, or copied. -/
theorem Coherent.of_subset (h : Coherent r held) (hsub : held' ⊆ held) : Coherent r held' :=
  ⟨h.made, fun id hid => h.living id (hsub hid)⟩

namespace Registry

/-- The weak reference of a key, upgraded. -/
def find (r : Registry K) (held : List Nat) (k : K) : Option Nat := (r.entries k).filter fun id => held.contains id

theorem find_eq_some : r.find held k = some id ↔ r.entries k = some id ∧ id ∈ held := by
  rw [find, Option.filter_eq_some_iff, List.contains_iff_mem]

theorem find_eq_none : r.find held k = none ↔ ∀ id, r.entries k = some id → id ∉ held := by
  rw [Option.eq_none_iff_forall_ne_some]
  simp only [ne_eq, find_eq_some, not_and]

variable [DecidableEq K]

/-- An entry whose object is dead is taken out. -/
def sweep (r : Registry K) (held : List Nat) (k : K) : Registry K :=
  match r.find held k with
  | some _ => r
  | none => { r with entries := Function.update r.entries k none }

def insert (r : Registry K) (k : K) : Registry K :=
  { entries := Function.update r.entries k (some r.made.length), made := r.made ++ [k] }

theorem made_sweep (r : Registry K) (held : List Nat) (k : K) : (r.sweep held k).made = r.made := by
  rw [sweep]
  split <;> rfl

theorem entries_sweep {k' : K} : (r.sweep held k).entries k' = some id → r.entries k' = some id := by
  rw [sweep]
  split
  · exact fun hentry => hentry
  · by_cases hk : k' = k
    · simp [hk]
    · simp [Function.update_of_ne hk]

/-- Sweeping takes nothing away that could be found. -/
theorem find_sweep (k' : K) : (r.sweep held k).find held k' = r.find held k' := by
  rw [sweep]
  split
  next => rfl
  next hnone =>
    by_cases hk : k' = k
    · rw [hk, hnone]
      simp [find]
    · simp [find, Function.update_of_ne hk]

end Registry

variable [DecidableEq K]

theorem Coherent.sweep (h : Coherent r held) (k : K) : Coherent (r.sweep held k) held := by
  refine ⟨?_, ?_⟩
  · intro k' id hentry
    rw [Registry.made_sweep]
    exact h.made k' id (Registry.entries_sweep hentry)
  · intro id hid
    obtain ⟨k', hentry⟩ := h.living id hid
    have hfind : (r.sweep held k).find held k' = some id := by
      rw [Registry.find_sweep]
      exact Registry.find_eq_some.2 ⟨hentry, hid⟩
    exact ⟨k', (Registry.find_eq_some.1 hfind).1⟩

omit [DecidableEq K] in
theorem Coherent.made_of_find (h : Coherent r held) (hfind : r.find held k = some id) : r.made[id]? = some k :=
  h.made k id (Registry.find_eq_some.1 hfind).1

theorem made_insert (r : Registry K) (k : K) : (r.insert k).made[r.made.length]? = some k := List.getElem?_concat_length

/-- A new object, where the key has none that lives. -/
theorem Coherent.insert (h : Coherent r held) (hfind : r.find held k = none) :
    Coherent (r.insert k) (r.made.length :: held) := by
  refine ⟨?_, ?_⟩
  · intro k' id hentry
    by_cases hk : k' = k
    · simp only [Registry.insert, hk, Function.update_self, Option.some.injEq] at hentry
      rw [hk, ← hentry]
      exact made_insert r k
    · simp only [Registry.insert, Function.update_of_ne hk] at hentry
      have hmade := h.made k' id hentry
      rw [Registry.insert, List.getElem?_append_left (List.getElem?_eq_some_iff.1 hmade).1]
      exact hmade
  · intro id hid
    rcases List.mem_cons.1 hid with rfl | hid
    · exact ⟨k, Function.update_self _ _ _⟩
    · obtain ⟨k', hentry⟩ := h.living id hid
      have hk : k' ≠ k := by
        rintro rfl
        exact Registry.find_eq_none.1 hfind id hentry hid
      exact ⟨k', by simp [Registry.insert, Function.update_of_ne hk, hentry]⟩

end WeakRegistry
