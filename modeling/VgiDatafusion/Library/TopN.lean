import Mathlib.Data.List.Perm.Subperm
import Mathlib.Data.List.Forall2

/-!
# The first rows of a list under a total preorder

`First r n rows first` says that `first` is some choice of the `n` least elements of `rows`, `Top` that they are also in
order: the possible results of a sort that keeps `n` rows. Which of several tied elements is kept is left open.

`Top.of_subset` is what lets a producer stop early: any part of the rows that contains a choice of the first `n` has no
results that the rows themselves do not have. `Top.tied` says that any two results agree position by position, up to ties.

A ranking may be composed of several, each for the ties of those before it (`Ranking.lexAll`); one that ties what an earlier
one ties may be left out (`Ranking.lexAll_eraseDupsBy`).
-/
namespace TopN

open List

/-- A total preorder. -/
structure Ranking (α : Type) where
  le : α → α → Prop
  trans : ∀ {a b c}, le a b → le b c → le a c
  total : ∀ a b, le a b ∨ le b a

variable {α β : Type}

namespace Ranking

theorem refl (r : Ranking α) (a : α) : r.le a a := (r.total a a).elim id id

def Tied (r : Ranking α) (a b : α) : Prop := r.le a b ∧ r.le b a

def comap (r : Ranking β) (f : α → β) : Ranking α where
  le a b := r.le (f a) (f b)
  trans := r.trans
  total a b := r.total (f a) (f b)

def reverse (r : Ranking α) : Ranking α where
  le a b := r.le b a
  trans hab hbc := r.trans hbc hab
  total a b := r.total b a

/-- Everything is tied. -/
def trivial : Ranking α where
  le _ _ := True
  trans _ _ := True.intro
  total _ _ := Or.inl True.intro

/-- By the first ranking, its ties by the second. -/
def lex (r s : Ranking α) : Ranking α where
  le a b := r.le a b ∧ (r.le b a → s.le a b)
  trans := by
    rintro a b c ⟨hab, hab'⟩ ⟨hbc, hbc'⟩
    refine ⟨r.trans hab hbc, fun hca => ?_⟩
    exact s.trans (hab' (r.trans hbc hca)) (hbc' (r.trans hca hab))
  total a b := by
    by_cases hab : r.le a b
    · by_cases hba : r.le b a
      · rcases s.total a b with h | h
        · exact Or.inl ⟨hab, fun _ => h⟩
        · exact Or.inr ⟨hba, fun _ => h⟩
      · exact Or.inl ⟨hab, fun h => absurd h hba⟩
    · exact Or.inr ⟨(r.total a b).resolve_left hab, fun h => absurd h hab⟩

theorem lex_trivial (r : Ranking α) : r.lex trivial = r := by
  cases r with
  | mk le trans total =>
    simp only [lex, trivial, mk.injEq]
    funext a b
    simp

/-- By the first of several rankings, its ties by the next. -/
def lexAll (f : β → Ranking α) : List β → Ranking α
  | [] => trivial
  | b :: bs => (f b).lex (lexAll f bs)

/-- What is tied by some rankings is ranked without them. -/
theorem lexAll_filter {f : β → Ranking α} {keep : β → Bool} {x y : α} (htied : ∀ b, keep b = false → (f b).Tied x y) :
    ∀ bs : List β, (lexAll f (bs.filter keep)).le x y ↔ (lexAll f bs).le x y
  | [] => Iff.rfl
  | b :: bs => by
    have ih := lexAll_filter htied bs
    by_cases hkeep : keep b = true
    · rw [List.filter_cons_of_pos hkeep]
      simp only [lexAll, lex, ih]
    · rw [List.filter_cons_of_neg hkeep, ih]
      obtain ⟨hxy, hyx⟩ := htied b (by simpa using hkeep)
      simp [lexAll, lex, hxy, hyx]

/-- A ranking that ties whatever an earlier one ties adds nothing. -/
theorem lexAll_eraseDupsBy {f : β → Ranking α} {same : β → β → Bool}
    (hsame : ∀ b c x y, same c b = true → (f b).Tied x y → (f c).Tied x y) (x y : α) :
    ∀ bs : List β, (lexAll f (bs.eraseDupsBy same)).le x y ↔ (lexAll f bs).le x y
  | [] => Iff.rfl
  | b :: bs => by
    have ih := lexAll_eraseDupsBy hsame x y (bs.filter fun c => same c b = false)
    rw [List.eraseDupsBy_cons]
    simp only [lexAll, lex, ih]
    refine and_congr_right fun hxy => imp_congr_right fun hyx => ?_
    refine lexAll_filter ?_ bs
    intro c hc
    exact hsame b c x y (by simpa using hc) ⟨hxy, hyx⟩
termination_by bs => bs.length
decreasing_by exact Nat.lt_succ_of_le (List.length_filter_le _ _)

/-- With an element below or above all others. -/
def withNone (first : Bool) (r : Ranking α) : Ranking (Option α) where
  le
    | none, none => True
    | none, some _ => first = true
    | some _, none => first = false
    | some a, some b => r.le a b
  trans := by
    intro a b c hab hbc
    cases a <;> cases b <;> cases c <;> first | exact r.trans hab hbc | simp_all
  total a b := by
    cases a <;> cases b <;> first | exact r.total _ _ | simp

end Ranking

variable {r : Ranking α} {n : Nat} {rows part first out out' : List α}

/-- Some choice of the `n` least elements, all of them if there are fewer. -/
structure First (r : Ranking α) (n : Nat) (rows first : List α) : Prop where
  length : first.length = min n rows.length
  least : ∃ rest, rows ~ first ++ rest ∧ ∀ a ∈ first, ∀ b ∈ rest, r.le a b

/-- … in order. -/
structure Top (r : Ranking α) (n : Nat) (rows out : List α) : Prop where
  first : First r n rows out
  sorted : out.Pairwise r.le

theorem exists_perm_append {l l' : List α} (h : l <+~ l') : ∃ rest, l' ~ l ++ rest := by
  obtain ⟨k, hperm, hsub⟩ := h
  obtain ⟨rest, hrest⟩ := hsub.exists_perm_append
  exact ⟨rest, hrest.trans (hperm.append_right rest)⟩

/-- Mathlib's needs an injective map. -/
theorem subperm_map (f : α → β) {l l' : List α} (h : l <+~ l') : l.map f <+~ l'.map f := by
  obtain ⟨k, hperm, hsub⟩ := h
  exact ⟨k.map f, hperm.map f, hsub.map f⟩

namespace First

theorem perm {rows' : List α} (h : First r n rows first) (hperm : rows ~ rows') : First r n rows' first := by
  obtain ⟨rest, hrest, hle⟩ := h.least
  exact ⟨by rw [h.length, hperm.length_eq], rest, hperm.symm.trans hrest, hle⟩

theorem map {r : Ranking β} {f : α → β} (h : First (r.comap f) n rows first) :
    First r n (rows.map f) (first.map f) := by
  obtain ⟨rest, hrest, hle⟩ := h.least
  refine ⟨by simp [h.length], rest.map f, by simpa using hrest.map f, ?_⟩
  intro a ha b hb
  obtain ⟨x, hx, rfl⟩ := List.mem_map.1 ha
  obtain ⟨y, hy, rfl⟩ := List.mem_map.1 hb
  exact hle x hx y hy

/-- A choice from a part that contains another choice has nothing above all of that one. -/
theorem bounded (hfirst : first <+~ part) (hlength : first.length = out.length) (hout : First r n part out) {a : α}
    (ha : a ∈ out) : ∃ c ∈ first, r.le a c := by
  classical
  obtain ⟨rest, hpart, hle⟩ := hout.least
  by_contra hnone
  simp only [not_exists, not_and] at hnone
  -- then no element of `first` was left over, so `first` is `out`
  have hkept : ∀ c ∈ first, c ∉ rest := fun c hc hrest => hnone c hc (hle a ha c hrest)
  have hsub : first <+~ out := by
    rw [List.subperm_ext_iff]
    intro c hc
    have hcount := (hfirst.trans hpart.subperm).count_le c
    rw [List.count_append, List.count_eq_zero_of_not_mem (hkept c hc)] at hcount
    exact hcount
  have hmem : a ∈ first := (hsub.perm_of_length_le (by omega)).mem_iff.2 ha
  exact hnone a hmem (r.refl a)

theorem of_subset (hfirst : First r n rows first) (hkept : first <+~ part) (hpart : part <+~ rows)
    (hout : First r n part out) : First r n rows out := by
  obtain ⟨rest, hrows, hle⟩ := hfirst.least
  obtain ⟨left, hleft, hle'⟩ := hout.least
  obtain ⟨extra, hextra⟩ := exists_perm_append hkept
  obtain ⟨dropped, hdropped⟩ := exists_perm_append hpart
  have hlength : out.length = min n rows.length := by
    have h1 := hfirst.length
    have h2 := hout.length
    have h3 := hkept.length_le
    have h4 := hpart.length_le
    omega
  have hrest : rest ~ extra ++ dropped := by
    have hall : first ++ rest ~ first ++ (extra ++ dropped) := by
      rw [← List.append_assoc]
      exact hrows.symm.trans (hdropped.trans (hextra.append_right dropped))
    exact (List.perm_append_left_iff first).1 hall
  refine ⟨hlength, left ++ dropped, ?_, ?_⟩
  · rw [← List.append_assoc]
    exact hdropped.trans (hleft.append_right dropped)
  · intro a ha b hb
    rcases List.mem_append.1 hb with hb | hb
    · exact hle' a ha b hb
    · obtain ⟨c, hc, hac⟩ := bounded hkept (by rw [hfirst.length, hlength]) hout ha
      exact r.trans hac (hle c hc b (hrest.mem_iff.2 (List.mem_append_right _ hb)))

end First

namespace Top

theorem perm {rows' : List α} (h : Top r n rows out) (hperm : rows ~ rows') : Top r n rows' out :=
  ⟨h.first.perm hperm, h.sorted⟩

theorem of_subset (hout : Top r n part out) (hfirst : First r n rows first) (hkept : first <+~ part) (hpart : part <+~ rows) :
    Top r n rows out :=
  ⟨hfirst.of_subset hkept hpart hout.first, hout.sorted⟩

theorem «exists» (r : Ranking α) (n : Nat) (rows : List α) : ∃ out, Top r n rows out := by
  classical
  have hsorted : (rows.mergeSort fun a b => decide (r.le a b)).Pairwise r.le := by
    refine (List.pairwise_mergeSort ?_ ?_ rows).imp (by simp)
    · simp only [decide_eq_true_eq]
      exact fun _ _ _ => r.trans
    · simp only [Bool.or_eq_true, decide_eq_true_eq]
      exact r.total
  rw [← List.take_append_drop n (rows.mergeSort _), List.pairwise_append] at hsorted
  refine ⟨_, ⟨by simp, _, ?_, hsorted.2.2⟩, hsorted.1⟩
  rw [List.take_append_drop]
  exact (List.mergeSort_perm rows _).symm

/-- At most `i` elements are below the one that stands at `i`. -/
theorem countP_lt_le (h : Top r n rows out) {i : Nat} (hi : i < out.length) [DecidablePred (¬ r.le out[i] ·)] :
    rows.countP (¬ r.le out[i] ·) ≤ i := by
  obtain ⟨rest, hrows, hle⟩ := h.first.least
  have hrest : rest.countP (¬ r.le out[i] ·) = 0 := by
    rw [List.countP_eq_zero]
    intro b hb
    simpa using hle _ (List.getElem_mem hi) b hb
  have hdrop : (out.drop i).countP (¬ r.le out[i] ·) = 0 := by
    rw [List.countP_eq_zero]
    intro b hb
    obtain ⟨j, hj, rfl⟩ := List.mem_iff_getElem.1 hb
    rw [List.getElem_drop]
    rcases Nat.eq_zero_or_pos j with rfl | hpos
    · simpa using r.refl _
    · simpa using List.pairwise_iff_getElem.1 h.sorted i (i + j) hi (by simp at hj; omega) (by omega)
  have hsplit : out.countP (¬ r.le out[i] ·) =
      (out.take i).countP (¬ r.le out[i] ·) + (out.drop i).countP (¬ r.le out[i] ·) := by
    rw [← List.countP_append, List.take_append_drop]
  calc rows.countP (¬ r.le out[i] ·)
      = (out.take i).countP (¬ r.le out[i] ·) := by rw [hrows.countP_eq, List.countP_append, hrest, hsplit, hdrop]; omega
    _ ≤ (out.take i).length := List.countP_le_length
    _ ≤ i := by rw [List.length_take]; omega

theorem le_getElem (h : Top r n rows out) (h' : Top r n rows out') {i : Nat} (hi : i < out.length)
    (hi' : i < out'.length) : r.le out[i] out'[i] := by
  classical
  by_contra hlt
  obtain ⟨rest, hrows, -⟩ := h'.first.least
  have hbelow : (out'.take (i + 1)).countP (¬ r.le out[i] ·) = i + 1 := by
    have hlength : (out'.take (i + 1)).length = i + 1 := by simp; omega
    refine (List.countP_eq_length.2 ?_).trans hlength
    intro b hb
    obtain ⟨j, hj, rfl⟩ := List.mem_iff_getElem.1 hb
    have hji : j ≤ i := by omega
    rw [List.getElem_take, decide_eq_true_eq]
    intro hle
    refine hlt (r.trans hle ?_)
    rcases Nat.lt_or_eq_of_le hji with hlt | rfl
    · exact List.pairwise_iff_getElem.1 h'.sorted j i (by omega) hi' hlt
    · exact r.refl _
  have hcount := countP_lt_le h hi
  have hsub : (out'.take (i + 1)) <+~ rows :=
    ((List.take_sublist _ _).trans (List.sublist_append_left _ rest)).subperm.trans hrows.symm.subperm
  have := hsub.countP_le (fun b => decide ¬ r.le out[i] b)
  omega

/-- Any two results agree up to ties. -/
theorem tied (h : Top r n rows out) (h' : Top r n rows out') : Forall₂ r.Tied out out' := by
  have hlength : out.length = out'.length := by rw [h.first.length, h'.first.length]
  rw [List.forall₂_iff_get]
  refine ⟨hlength, ?_⟩
  intro i hi hi'
  exact ⟨le_getElem h h' hi hi', le_getElem h' h hi' hi⟩

end Top

end TopN
