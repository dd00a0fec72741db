import Mathlib.Data.Fintype.Card
import Mathlib.Data.List.Chain

/-!
# Depth-first search for a vertex, with the way to it

`reaches` goes through items, some of which are vertices. It keeps the vertices it has seen and the path of those it is inside
of. Given enough fuel it ends; it finds the target exactly if that is reachable from where it starts, and the path then
leads there.
-/
namespace DepthFirst

variable {ι V : Type}

structure Search (V : Type) where
  visited : List V
  path : List V

/-! ## The search -/

section
variable [DecidableEq V] (vertex : ι → Option V) (items : V → List ι) (target : V)

/-- One item after the other, up to the first that leads to the target. -/
def firstReaching (visit : ι → Search V → Option (Bool × Search V)) : List ι → Search V → Option (Bool × Search V)
  | [], s => some (false, s)
  | i :: rest, s => do
    let (found, s) ← visit i s
    if found then some (true, s) else firstReaching visit rest s

def reaches : Nat → ι → Search V → Option (Bool × Search V)
  | 0, _, _ => none
  | n + 1, i, s =>
    match vertex i with
    | none => some (false, s)
    | some v =>
      if v ∈ s.visited then some (false, s)
      else if v = target then some (true, ⟨v :: s.visited, s.path ++ [v]⟩)
      else do
        let (found, s) ← firstReaching (reaches n) (items v) ⟨v :: s.visited, s.path ++ [v]⟩
        some (found, if found then s else ⟨s.visited, s.path.dropLast⟩)

end

/-! ## What it finds -/

section
variable (vertex : ι → Option V) (items : V → List ι) (target : V)

/-- One step of a path. -/
def Leads (v w : V) : Prop := ∃ i ∈ items v, vertex i = some w

/-- The vertices that are new have been seen through. -/
structure Closed (s s' : Search V) : Prop where
  visited : ∀ v ∈ s.visited, v ∈ s'.visited
  target : ∀ v ∈ s'.visited, v ∉ s.visited → v ≠ target
  leads : ∀ v ∈ s'.visited, v ∉ s.visited → ∀ w, Leads vertex items v w → w ∈ s'.visited

/-- Either a way from one of the items to the target, or all there is behind the items. -/
def Outcome (starts : List ι) (s : Search V) : Bool × Search V → Prop
  | (true, s') => ∃ i ∈ starts, ∃ v chain, vertex i = some v ∧ s'.path = s.path ++ v :: chain ∧
      List.IsChain (Leads vertex items) (v :: chain) ∧ (v :: chain).getLast? = some target
  | (false, s') => s'.path = s.path ∧ Closed vertex items target s s' ∧
      ∀ i ∈ starts, ∀ v, vertex i = some v → v ∈ s'.visited

end

variable {vertex : ι → Option V} {items : V → List ι} {target : V}

theorem Closed.refl (s : Search V) : Closed vertex items target s s :=
  ⟨fun _ h => h, fun _ h hnot => absurd h hnot, fun _ h hnot => absurd h hnot⟩

theorem Closed.trans {s s' s'' : Search V} (h : Closed vertex items target s s') (h' : Closed vertex items target s' s'') :
    Closed vertex items target s s'' := by
  refine ⟨fun v hv => h'.visited v (h.visited v hv), fun v hv hnew => ?_, fun v hv hnew w hw => ?_⟩
  · by_cases hmid : v ∈ s'.visited
    · exact h.target v hmid hnew
    · exact h'.target v hv hmid
  · by_cases hmid : v ∈ s'.visited
    · exact h'.visited w (h.leads v hmid hnew w hw)
    · exact h'.leads v hv hmid w hw

theorem firstReaching_outcome {visit : ι → Search V → Option (Bool × Search V)}
    (hvisit : ∀ i s r, visit i s = some r → Outcome vertex items target [i] s r) (starts : List ι) {s : Search V}
    {r : Bool × Search V} (h : firstReaching visit starts s = some r) : Outcome vertex items target starts s r := by
  induction starts generalizing s with
  | nil =>
    cases h
    exact ⟨rfl, .refl s, by simp⟩
  | cons i rest ih =>
    obtain ⟨⟨found, s'⟩, hfirst, h⟩ := Option.bind_eq_some_iff.1 h
    have hone := hvisit i s _ hfirst
    cases found with
    | true =>
      cases h
      obtain ⟨_, hi, v, chain, hv⟩ := hone
      obtain rfl := List.mem_singleton.1 hi
      exact ⟨_, List.mem_cons_self, v, chain, hv⟩
    | false =>
      obtain ⟨hpath, hclosed, hseen⟩ := hone
      have hrest := ih h
      obtain ⟨found, s''⟩ := r
      cases found with
      | true =>
        obtain ⟨j, hj, v, chain, hv, hend⟩ := hrest
        rw [hpath] at hend
        exact ⟨j, List.mem_cons_of_mem i hj, v, chain, hv, hend⟩
      | false =>
        obtain ⟨hpath', hclosed', hseen'⟩ := hrest
        refine ⟨hpath'.trans hpath, hclosed.trans hclosed', fun j hj v hv => ?_⟩
        rcases List.mem_cons.1 hj with rfl | hj
        · exact hclosed'.visited v (hseen j (List.mem_singleton_self j) v hv)
        · exact hseen' j hj v hv

section
variable [DecidableEq V]

theorem reaches_outcome {n : Nat} {i : ι} {s : Search V} {r : Bool × Search V}
    (h : reaches vertex items target n i s = some r) : Outcome vertex items target [i] s r := by
  induction n generalizing i s r with
  | zero => cases h
  | succ n ih =>
    rw [reaches] at h
    cases hi : vertex i with
    | none =>
      rw [hi] at h
      cases h
      exact ⟨rfl, .refl s, by simp [hi]⟩
    | some v =>
      rw [hi] at h
      dsimp only at h
      split at h
      · rename_i hvisited
        cases h
        exact ⟨rfl, .refl s, by simpa [hi] using hvisited⟩
      rename_i hnew
      split at h
      · rename_i htarget
        cases h
        exact ⟨i, List.mem_singleton_self i, v, [], hi, rfl, .singleton v, by simp [htarget]⟩
      rename_i hother
      obtain ⟨⟨found, s'⟩, hfirst, h⟩ := Option.bind_eq_some_iff.1 h
      have hbehind := firstReaching_outcome (fun j s r => ih) (items v) hfirst
      cases h
      cases found with
      | true =>
        obtain ⟨j, hj, w, chain, hw, hpath, hchain, hlast⟩ := hbehind
        refine ⟨i, List.mem_singleton_self i, v, w :: chain, hi, ?_, .cons_cons ⟨j, hj, hw⟩ hchain, ?_⟩
        · simpa using hpath
        · simpa using hlast
      | false =>
        obtain ⟨hpath, hclosed, hseen⟩ := hbehind
        have hv : v ∈ s'.visited := hclosed.visited v List.mem_cons_self
        refine ⟨by simp [hpath], ⟨fun u hu => hclosed.visited u (List.mem_cons_of_mem v hu), fun u hu hfresh => ?_,
          fun u hu hfresh w hw => ?_⟩, by simpa [hi] using hv⟩
        · by_cases huv : u = v
          · exact huv ▸ hother
          · exact hclosed.target u hu (by simp [huv, hfresh])
        · by_cases huv : u = v
          · obtain ⟨j, hj, hjw⟩ := huv ▸ hw
            exact hseen j hj w hjw
          · exact hclosed.leads u hu (by simp [huv, hfresh]) w hw

/-! ## Exactness -/

/-- A start that is a vertex leads to the target. -/
def Reachable (vertex : ι → Option V) (items : V → List ι) (target : V) (i : ι) : Prop :=
  ∃ v, vertex i = some v ∧ Relation.ReflTransGen (Leads vertex items) v target

/-- **The search finds the target exactly if it is reachable.** -/
theorem reaches_found_iff {n : Nat} {i : ι} {path : List V} {found : Bool} {s : Search V}
    (h : reaches vertex items target n i ⟨[], path⟩ = some (found, s)) :
    found = true ↔ Reachable vertex items target i := by
  have houtcome := reaches_outcome h
  cases found with
  | true =>
    obtain ⟨_, hi, v, chain, hv, -, hchain, hlast⟩ := houtcome
    obtain rfl := List.mem_singleton.1 hi
    refine iff_of_true rfl ⟨v, hv, ?_⟩
    refine List.relationReflTransGen_of_exists_isChain_cons chain hchain ?_
    rw [List.getLast?_eq_some_getLast (List.cons_ne_nil v chain)] at hlast
    exact Option.some.inj hlast
  | false =>
    obtain ⟨-, hclosed, hseen⟩ := houtcome
    refine iff_of_false Bool.false_ne_true ?_
    rintro ⟨v, hv, hreach⟩
    have hvisited : ∀ w, Relation.ReflTransGen (Leads vertex items) v w → w ∈ s.visited := by
      intro w hw
      induction hw with
      | refl => exact hseen i (List.mem_singleton_self i) v hv
      | tail _ hlead ih => exact hclosed.leads _ ih (by simp) _ hlead
    exact hclosed.target target (hvisited target hreach) (by simp) rfl

/-- The path it then holds goes on to the target. -/
theorem reaches_path {n : Nat} {i : ι} {s s' : Search V} (h : reaches vertex items target n i s = some (true, s')) :
    ∃ v chain, vertex i = some v ∧ s'.path = s.path ++ v :: chain ∧ List.IsChain (Leads vertex items) (v :: chain) ∧
      (v :: chain).getLast? = some target := by
  obtain ⟨_, hi, v, chain, hv⟩ := reaches_outcome h
  obtain rfl := List.mem_singleton.1 hi
  exact ⟨v, chain, hv⟩

/-! ## Fuel -/

section
variable [Fintype V]

def unvisited (visited : List V) : Nat := (Finset.univ.filter (· ∉ visited)).card

theorem unvisited_le {visited visited' : List V} (h : ∀ v ∈ visited, v ∈ visited') : unvisited visited' ≤ unvisited visited := by
  refine Finset.card_le_card fun v => ?_
  simp only [Finset.mem_filter, Finset.mem_univ, true_and]
  exact fun hnot hv => hnot (h v hv)

theorem unvisited_lt {visited : List V} {v : V} (h : v ∉ visited) : unvisited (v :: visited) < unvisited visited := by
  refine Finset.card_lt_card ((Finset.ssubset_iff_of_subset fun u => ?_).2 ⟨v, by simp [h], by simp⟩)
  simp only [Finset.mem_filter, Finset.mem_univ, true_and, List.mem_cons, not_or]
  exact fun hu => hu.2

theorem firstReaching_isSome {visit : ι → Search V → Option (Bool × Search V)} {bound : Nat}
    (hvisit : ∀ i s, unvisited s.visited < bound → (visit i s).isSome)
    (hgrows : ∀ i s s', visit i s = some (false, s') → ∀ v ∈ s.visited, v ∈ s'.visited) (starts : List ι) {s : Search V}
    (hs : unvisited s.visited < bound) : (firstReaching visit starts s).isSome := by
  induction starts generalizing s with
  | nil => rfl
  | cons i rest ih =>
    obtain ⟨⟨found, s'⟩, hfirst⟩ := Option.isSome_iff_exists.1 (hvisit i s hs)
    simp only [firstReaching, hfirst, Option.bind_eq_bind, Option.bind_some]
    cases found with
    | true => rfl
    | false => exact ih ((unvisited_le (hgrows i s s' hfirst)).trans_lt hs)

theorem reaches_isSome {n : Nat} {i : ι} {s : Search V} (h : unvisited s.visited < n) :
    (reaches vertex items target n i s).isSome := by
  induction n generalizing i s with
  | zero => exact absurd h (Nat.not_lt_zero _)
  | succ n ih =>
    rw [reaches]
    cases vertex i with
    | none => rfl
    | some v =>
      dsimp only
      split
      · rfl
      rename_i hnew
      split
      · rfl
      have hsmaller : unvisited (v :: s.visited) < n := by
        have hlt := unvisited_lt hnew
        omega
      have hgrows : ∀ j s s', reaches vertex items target n j s = some (false, s') → ∀ v ∈ s.visited, v ∈ s'.visited :=
        fun j s s' hj => (reaches_outcome hj).2.1.visited
      have hsome := firstReaching_isSome (s := ⟨v :: s.visited, s.path ++ [v]⟩) (fun j s hs => ih hs) hgrows (items v) hsmaller
      obtain ⟨r, hr⟩ := Option.isSome_iff_exists.1 hsome
      rw [hr]
      rfl

/-- **It ends: as much fuel as there are vertices, and one more, is enough.** -/
theorem reaches_ends (i : ι) (path : List V) : (reaches vertex items target (Fintype.card V + 1) i ⟨[], path⟩).isSome := by
  refine reaches_isSome ?_
  have hle : unvisited ([] : List V) ≤ Fintype.card V := Finset.card_le_univ _
  exact Nat.lt_succ_of_le hle

end

end

end DepthFirst
