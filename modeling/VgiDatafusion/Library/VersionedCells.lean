import Mathlib.Algebra.GroupWithZero.Nat
import Mathlib.Algebra.Order.BigOperators.Group.List
import Mathlib.Algebra.Order.Group.Nat
import Mathlib.Data.List.Forall2
import VgiDatafusion.Library.Lists

/-!
# Cells with versions, read one at a time

Every write to a cell raises its version, so a cell whose version is the same has not been written. Who reads a list of
cells one by one while others write to them gets a list that was never there as a whole; `Collected lo hi seen` says what it
does get: cells that stand between those when it began and those of now.

Who sums the versions, copies the values and sums the versions again has copied one moment if the sums are equal
(`cut_of_sums`): nothing was written between the end of the first pass and the beginning of the last.
-/
namespace VersionedCells

open ListFacts

structure Cell (α : Type) where
  version : Nat
  value : α
  deriving DecidableEq

variable {α : Type}

namespace Cell

def write (c : Cell α) (value : α) : Cell α := ⟨c.version + 1, value⟩

/-- What a cell may become: what it is, or something of a higher version. -/
def Le (c d : Cell α) : Prop := c = d ∨ c.version < d.version

theorem Le.refl (c : Cell α) : c.Le c := .inl rfl

theorem Le.trans {c d e : Cell α} (h : c.Le d) (h' : d.Le e) : c.Le e := by
  rcases h with rfl | hlt
  · exact h'
  · rcases h' with rfl | hlt'
    · exact .inr hlt
    · exact .inr (hlt.trans hlt')

theorem Le.version {c d : Cell α} (h : c.Le d) : c.version ≤ d.version := by
  rcases h with rfl | hlt
  · exact Nat.le_refl _
  · exact hlt.le

theorem Le.eq {c d : Cell α} (h : c.Le d) (hversion : d.version ≤ c.version) : c = d :=
  h.resolve_right (Nat.not_lt.2 hversion)

theorem le_write (c : Cell α) (value : α) : c.Le (c.write value) := .inr (Nat.lt_succ_self c.version)

end Cell

def versions (cells : List (Cell α)) : List Nat := cells.map Cell.version

abbrev Later (cells cells' : List (Cell α)) : Prop := List.Forall₂ Cell.Le cells cells'

variable {cells cells' lo hi hi' seen first : List (Cell α)}

theorem later_refl (cells : List (Cell α)) : Later cells cells := List.forall₂_same.2 fun c _ => Cell.Le.refl c

theorem Later.trans {cells'' : List (Cell α)} (h : Later cells cells') (h' : Later cells' cells'') : Later cells cells'' :=
  (forall₂_comp h h').imp fun _ _ hcell => by
    obtain ⟨d, hcd, hde⟩ := hcell
    exact hcd.trans hde

theorem Later.versions (h : Later cells cells') : List.Forall₂ (· ≤ ·) (versions cells) (versions cells') := by
  rw [VersionedCells.versions, VersionedCells.versions, List.forall₂_map_left_iff, List.forall₂_map_right_iff]
  exact h.imp fun _ _ => Cell.Le.version

theorem Later.sum_le (h : Later cells cells') : (VersionedCells.versions cells).sum ≤ (VersionedCells.versions cells').sum :=
  h.versions.sum_le_sum

/-- No version has moved if their sum has not. -/
theorem Later.eq_of_sum : ∀ {cells cells' : List (Cell α)}, Later cells cells' →
    (VersionedCells.versions cells').sum ≤ (VersionedCells.versions cells).sum → cells = cells'
  | _, _, .nil, _ => rfl
  | c :: cells, d :: cells', .cons hc h, hsum => by
    have hhead := hc.version
    have htail := Later.sum_le h
    simp only [VersionedCells.versions, List.map_cons, List.sum_cons] at hsum htail
    rw [hc.eq (by omega), Later.eq_of_sum h (by simp only [VersionedCells.versions]; omega)]

theorem later_modify (cells : List (Cell α)) (i : Nat) (value : α) : Later cells (cells.modify i (·.write value)) := by
  induction cells generalizing i with
  | nil => simp
  | cons c cells ih =>
    cases i with
    | zero => exact .cons (c.le_write value) (later_refl cells)
    | succ i => exact .cons (Cell.Le.refl c) (ih i)

theorem sum_modify {i : Nat} (h : i < cells.length) (value : α) :
    (versions (cells.modify i (·.write value))).sum = (versions cells).sum + 1 := by
  induction cells generalizing i with
  | nil => simp at h
  | cons c cells ih =>
    cases i with
    | zero => simp [versions, Cell.write]; omega
    | succ i =>
      have hi := ih (i := i) (by simpa using h)
      simp only [versions, List.modify_succ_cons, List.map_cons, List.sum_cons] at hi ⊢
      omega

/-! ## Reading one by one -/

/-- The cells read so far, by a reader that began when they were `lo`; they are `hi` now. -/
structure Collected (lo hi seen : List (Cell α)) : Prop where
  since : Later (lo.take seen.length) seen
  now : Later seen (hi.take seen.length)

theorem collected_nil (lo hi : List (Cell α)) : Collected lo hi [] := ⟨by simp, by simp⟩

theorem Collected.later (h : Collected lo hi seen) (hlater : Later hi hi') : Collected lo hi' seen :=
  ⟨h.since, Later.trans h.now (List.forall₂_take _ hlater)⟩

theorem Collected.read (h : Collected lo hi seen) (hlater : Later lo hi) {c : Cell α} (hc : hi[seen.length]? = some c) :
    Collected lo hi (seen ++ [c]) := by
  obtain ⟨hlt, rfl⟩ := List.getElem?_eq_some_iff.1 hc
  have hlo : seen.length < lo.length := by rw [hlater.length_eq]; exact hlt
  have hcell : lo[seen.length].Le hi[seen.length] := (List.forall₂_iff_get.1 hlater).2 _ hlo hlt
  constructor
  · rw [List.length_append, List.length_singleton, List.take_add_one, List.getElem?_eq_getElem hlo]
    exact List.rel_append h.since (.cons hcell .nil)
  · rw [List.length_append, List.length_singleton, List.take_add_one, List.getElem?_eq_getElem hlt]
    exact List.rel_append h.now (.cons (Cell.Le.refl _) .nil)

theorem Collected.whole (h : Collected lo hi seen) (hlater : Later lo hi) (hlength : hi[seen.length]? = none) :
    Later lo seen ∧ Later seen hi := by
  have hle := List.getElem?_eq_none_iff.1 hlength
  have hsince := h.since
  have hnow := h.now
  rw [List.take_of_length_le (by rw [hlater.length_eq]; exact hle)] at hsince
  rw [List.take_of_length_le hle] at hnow
  exact ⟨hsince, hnow⟩

/-- **Equal sums make a cut**: the values read between the two passes are those of the moment when the first pass ended,
and so are the versions summed. -/
theorem cut_of_sums {first cut seen last : List (Cell α)} (hfirst : Later first cut) (hseen : Later cut seen)
    (hlast : Later seen last) (hsum : (versions last).sum ≤ (versions first).sum) : seen = cut ∧ last = cut := by
  have h₁ := hfirst.sum_le
  have h₂ := hseen.sum_le
  have h₃ := hlast.sum_le
  have hcut := hseen.eq_of_sum (by omega)
  have hall := (hseen.trans hlast).eq_of_sum (by omega)
  exact ⟨hcut.symm, hall.symm⟩

end VersionedCells
