import Mathlib.Data.List.MinMax
import Mathlib.Data.List.Sort
import Mathlib.Algebra.Order.BigOperators.Group.List
import VgiDatafusion.Library.StepSystem

/-!
# Dealing items to bins

Items come one after the other; each goes to the end of a bin, and a list schedule puts it into a lightest one. The
arithmetic of the loads is a parameter, partial where an addition may fail: `schedule_bounded_iff` says when a bound on
the loads is never felt, `Balanced` what a schedule in exact arithmetic keeps, `no_bin_empty` when every bin gets an
item.
-/
namespace ListScheduling

variable {ι α : Type}

/-! ## Bins -/

def push (bins : List (List ι)) (k : Nat) (i : ι) : List (List ι) := bins.modify k (· ++ [i])

@[simp] theorem length_push (bins : List (List ι)) (k : Nat) (i : ι) : (push bins k i).length = bins.length :=
  List.length_modify _ _ _

theorem getElem?_push_self {bins : List (List ι)} {k : Nat} {bin : List ι} (h : bins[k]? = some bin) (i : ι) :
    (push bins k i)[k]? = some (bin ++ [i]) := by
  simp [push, h]

theorem getElem?_push_ne {k j : Nat} (h : k ≠ j) (bins : List (List ι)) (i : ι) : (push bins k i)[j]? = bins[j]? := by
  simp [push, h]

theorem mem_push {bins : List (List ι)} {k : Nat} {i : ι} {bin : List ι} (h : bin ∈ push bins k i) :
    bin ∈ bins ∨ ∃ old, bins[k]? = some old ∧ bin = old ++ [i] := by
  obtain ⟨j, hj⟩ := List.mem_iff_getElem?.1 h
  by_cases hkj : k = j
  · subst hkj
    have hlt : k < bins.length := by
      rw [← length_push bins k i]
      exact (List.getElem?_eq_some_iff.1 hj).1
    rw [getElem?_push_self (List.getElem?_eq_getElem hlt)] at hj
    cases hj
    exact .inr ⟨_, List.getElem?_eq_getElem hlt, rfl⟩
  · rw [getElem?_push_ne hkj] at hj
    exact .inl (List.mem_of_getElem? hj)

/-- Nothing is lost and nothing doubled. -/
theorem flatten_push : ∀ {bins : List (List ι)} {k : Nat}, k < bins.length → ∀ i,
    (push bins k i).flatten.Perm (bins.flatten ++ [i])
  | bin :: bins, 0, _, i => by
    have hswap : (bin ++ ([i] ++ bins.flatten)).Perm (bin ++ (bins.flatten ++ [i])) := List.perm_append_comm.append_left bin
    simpa [push] using hswap
  | bin :: bins, k + 1, h, i => by
    have ih := flatten_push (k := k) (Nat.lt_of_succ_lt_succ h) i
    simpa [push] using ih.append_left bin

theorem set_perm {x y : α} : ∀ {l : List α} {k : Nat}, l[k]? = some x → ∃ rest, l.Perm (x :: rest) ∧ (l.set k y).Perm (y :: rest)
  | a :: l, 0, h => by
    obtain rfl : a = x := by simpa using h
    exact ⟨l, List.Perm.refl _, List.Perm.refl _⟩
  | a :: l, k + 1, h => by
    obtain ⟨rest, hbefore, hafter⟩ := set_perm (y := y) (l := l) (k := k) (by simpa using h)
    exact ⟨a :: rest, (hbefore.cons a).trans (.swap x a rest), (hafter.cons a).trans (.swap y a rest)⟩

structure Bins (ι α : Type) where
  items : List (List ι)
  loads : List α

def empty [Zero α] (n : Nat) : Bins ι α := { items := List.replicate n [], loads := List.replicate n 0 }

/-- As many bins as asked for, and the items in them in the order in which they came. -/
structure Dealt (n : Nat) (done : List ι) (b : Bins ι α) : Prop where
  bins : b.items.length = n
  loads : b.loads.length = n
  items : b.items.flatten.Perm done
  ordered : ∀ bin ∈ b.items, bin.Sublist done

theorem dealt_empty [Zero α] (n : Nat) : Dealt n [] (empty n : Bins ι α) :=
  ⟨by simp [empty], by simp [empty], by simp [empty], by simp [empty]⟩

theorem Dealt.bin {n : Nat} {done : List ι} {b : Bins ι α} (h : Dealt n done b) {k : Nat} {load : α}
    (hload : b.loads[k]? = some load) : ∃ bin, b.items[k]? = some bin := by
  have hlt := (List.getElem?_eq_some_iff.1 hload).1
  rw [h.loads, ← h.bins] at hlt
  exact ⟨_, List.getElem?_eq_getElem hlt⟩

theorem used_push {bins : List (List ι)} {k : Nat} (h : bins[k]? = some []) (i : ι) :
    ((push bins k i).filter (!·.isEmpty)).length = (bins.filter (!·.isEmpty)).length + 1 := by
  induction bins generalizing k with
  | nil => simp at h
  | cons bin bins ih =>
    cases k with
    | zero =>
      obtain rfl : bin = [] := by simpa using h
      simp [push]
    | succ k =>
      have hrest := ih (k := k) (by simpa using h)
      simp only [push, List.modify_succ_cons, List.filter_cons] at hrest ⊢
      split
      · simp only [List.length_cons, hrest]
      · exact hrest

/-- While a bin is empty it is among the lightest: no bin has two items, and as many are used as items came. -/
structure Filling [Zero α] (weight : ι → α) (done : List ι) (b : Bins ι α) : Prop where
  single : ∀ (k : Nat) (bin : List ι), b.items[k]? = some bin →
    bin = [] ∧ b.loads[k]? = some 0 ∨ ∃ i, bin = [i] ∧ b.loads[k]? = some (weight i)
  used : (b.items.filter (!·.isEmpty)).length = done.length

theorem Filling.nonempty [Zero α] {weight : ι → α} {n : Nat} {done : List ι} {b : Bins ι α} (h : Filling weight done b)
    (hdealt : Dealt n done b) (hfull : done.length = n) : ∀ bin ∈ b.items, bin ≠ [] := by
  have hall : (b.items.filter (!·.isEmpty)).length = b.items.length := by rw [h.used, hfull, hdealt.bins]
  rw [List.length_filter_eq_length_iff] at hall
  rintro bin hbin rfl
  simpa using hall [] hbin

theorem filling_empty [Zero α] {weight : ι → α} (n : Nat) : Filling weight [] (empty n : Bins ι α) where
  single k bin h := by
    obtain ⟨hk, rfl⟩ := List.getElem?_eq_some_iff.1 h
    simp only [empty, List.length_replicate] at hk
    simp [empty, hk]
  used := by simp [empty]

/-! ## Schedules -/

section
variable [LinearOrder α] (add : α → α → Option α) (weight : ι → α)

/-- The first of the least loads, and its bin. -/
def lightest (loads : List α) : Option (α × Nat) := loads.zipIdx.argmin (·.1)

def place (b : Bins ι α) (i : ι) : Option (Bins ι α) :=
  (lightest b.loads).bind fun least =>
    (add least.1 (weight i)).map fun load => { items := push b.items least.2 i, loads := b.loads.set least.2 load }

def schedule [Zero α] (n : Nat) (order : List ι) : Option (Bins ι α) := order.foldlM (place add weight) (empty n)

end

section
variable [LinearOrder α] {add : α → α → Option α} {weight : ι → α}

theorem lightest_spec {loads : List α} {least : α} {k : Nat} (h : lightest loads = some (least, k)) :
    loads[k]? = some least ∧ ∀ load ∈ loads, least ≤ load := by
  have hmem : (least, k) ∈ loads.zipIdx := List.argmin_mem h
  refine ⟨List.mem_zipIdx_iff_getElem?.1 hmem, ?_⟩
  intro load hload
  obtain ⟨j, hj⟩ := List.mem_iff_getElem?.1 hload
  have hle := List.le_of_mem_argmin (List.mem_zipIdx_iff_getElem? (x := (load, j)).2 hj) h
  exact hle

theorem lightest_isSome {loads : List α} (h : loads ≠ []) : ∃ least, lightest loads = some least := by
  cases hleast : lightest loads with
  | some least => exact ⟨least, rfl⟩
  | none =>
    have hnil := List.argmin_eq_none.1 hleast
    exact absurd (List.zipIdx_eq_nil_iff.1 hnil) h

/-- What placing an item does. -/
structure Places (add : α → α → Option α) (weight : ι → α) (b b' : Bins ι α) (i : ι) (k : Nat) (least load : α) : Prop where
  at_least : b.loads[k]? = some least
  least_le : ∀ load ∈ b.loads, least ≤ load
  added : add least (weight i) = some load
  items : b'.items = push b.items k i
  loads : b'.loads = b.loads.set k load

theorem place_cases {b b' : Bins ι α} {i : ι} (h : place add weight b i = some b') :
    ∃ k least load, Places add weight b b' i k least load := by
  obtain ⟨⟨least, k⟩, hleast, hadd⟩ := Option.bind_eq_some_iff.1 h
  obtain ⟨load, hload, rfl⟩ := Option.map_eq_some_iff.1 hadd
  obtain ⟨hat, hle⟩ := lightest_spec hleast
  exact ⟨k, least, load, hat, hle, hload, rfl, rfl⟩

/-- What holds of empty bins and is kept by placing an item holds of a schedule, with the items placed so far. -/
theorem schedule_invariant [Zero α] (Inv : List ι → Bins ι α → Prop) {n : Nat} (hempty : Inv [] (empty n))
    (hplace : ∀ done i b b', Inv done b → place add weight b i = some b' → Inv (done ++ [i]) b') {order : List ι}
    {b : Bins ι α} (h : schedule add weight n order = some b) : Inv order b :=
  StepSystem.run_invariant_of_partial hempty hplace h

theorem Dealt.place {n : Nat} {done : List ι} {b b' : Bins ι α} {i : ι} (h : Dealt n done b)
    (hplace : place add weight b i = some b') : Dealt n (done ++ [i]) b' := by
  obtain ⟨k, least, load, hp⟩ := place_cases hplace
  obtain ⟨bin, hbin⟩ := h.bin hp.at_least
  refine ⟨?_, ?_, ?_, ?_⟩
  · rw [hp.items, length_push, h.bins]
  · rw [hp.loads, List.length_set, h.loads]
  · rw [hp.items]
    exact (flatten_push (List.getElem?_eq_some_iff.1 hbin).1 i).trans (h.items.append_right [i])
  · rw [hp.items]
    intro later hlater
    rcases mem_push hlater with hold | ⟨old, hold, rfl⟩
    · exact (h.ordered later hold).trans (List.sublist_append_left done [i])
    · exact (h.ordered old (List.mem_of_getElem? hold)).append (List.Sublist.refl [i])

theorem dealt [Zero α] {n : Nat} {order : List ι} {b : Bins ι α} (h : schedule add weight n order = some b) :
    Dealt n order b :=
  schedule_invariant (Dealt n) (dealt_empty n) (fun _ _ _ _ hs hnext => hs.place hnext) h

/-- Where the addition never fails, there is a schedule for every positive number of bins. -/
theorem schedule_isSome [Zero α] (hadd : ∀ a b, ∃ c, add a b = some c) {n : Nat} (hn : 0 < n) (order : List ι) :
    ∃ b, schedule add weight n order = some b := by
  suffices hrun : ∀ (order : List ι) (s : Bins ι α), s.loads ≠ [] → ∃ b, order.foldlM (place add weight) s = some b from
    hrun order _ (by simp [empty]; omega)
  intro order
  induction order with
  | nil => exact fun s _ => ⟨s, rfl⟩
  | cons i order ih =>
    intro s hs
    obtain ⟨least, hleast⟩ := lightest_isSome hs
    obtain ⟨load, hload⟩ := hadd least.1 (weight i)
    have hnext : place add weight s i = some ⟨push s.items least.2 i, s.loads.set least.2 load⟩ := by
      simp [place, hleast, hload]
    obtain ⟨b, hb⟩ := ih ⟨push s.items least.2 i, s.loads.set least.2 load⟩ (by simpa using hs)
    exact ⟨b, by rw [List.foldlM_cons, hnext]; exact hb⟩

/-- An arithmetic that agrees with another one on the loads that occur gives the same schedule. -/
theorem schedule_of_agree [Zero α] {add' : α → α → Option α} {P : α → Prop} (hzero : P 0)
    (hagree : ∀ a i c, P a → add a (weight i) = some c → add' a (weight i) = some c ∧ P c) {n : Nat} {order : List ι}
    {b : Bins ι α} (h : schedule add weight n order = some b) : schedule add' weight n order = some b := by
  suffices hrun : ∀ (order : List ι) (s : Bins ι α), (∀ load ∈ s.loads, P load) →
      order.foldlM (place add weight) s = some b → order.foldlM (place add' weight) s = some b by
    refine hrun order _ ?_ h
    intro load hload
    rw [List.eq_of_mem_replicate hload]
    exact hzero
  intro order
  induction order with
  | nil => exact fun s _ hs => hs
  | cons i order ih =>
    intro s hP hs
    rw [List.foldlM_cons] at hs
    obtain ⟨next, hnext, hs⟩ := Option.bind_eq_some_iff.1 hs
    obtain ⟨least, hleast, hmap⟩ := Option.bind_eq_some_iff.1 hnext
    obtain ⟨load, hload, rfl⟩ := Option.map_eq_some_iff.1 hmap
    obtain ⟨hload', hPload⟩ := hagree least.1 i load (hP _ (List.mem_of_getElem? (lightest_spec hleast).1)) hload
    have hnext' : place add' weight s i = some ⟨push s.items least.2 i, s.loads.set least.2 load⟩ := by
      simp [place, hleast, hload']
    rw [List.foldlM_cons, hnext']
    refine ih _ ?_ hs
    intro other hother
    rcases List.mem_or_eq_of_mem_set hother with hother | rfl
    · exact hP other hother
    · exact hPload

/-! ## No bin stays empty -/

theorem Filling.place [Zero α] {n : Nat} {done : List ι} {b b' : Bins ι α} {i : ι} (h : Filling weight done b)
    (hdealt : Dealt n done b) (hshort : done.length < n) (hpos : ∀ i, 0 < weight i)
    (hadd : ∀ i, add 0 (weight i) = some (weight i)) (hplace : place add weight b i = some b') :
    Filling weight (done ++ [i]) b' := by
  obtain ⟨k, least, load, hp⟩ := place_cases hplace
  obtain ⟨chosen, hat⟩ := hdealt.bin hp.at_least
  -- some bin is empty, so the least load is zero and the bin it is taken from is empty
  obtain ⟨bin, hbin, hempty⟩ : ∃ bin ∈ b.items, bin = [] := by
    by_contra hnone
    have hall : b.items.filter (!·.isEmpty) = b.items := by
      rw [List.filter_eq_self]
      intro bin hbin
      cases bin with
      | nil => exact absurd ⟨[], hbin, rfl⟩ hnone
      | cons i bin => rfl
    have hused := h.used
    rw [hall, hdealt.bins] at hused
    omega
  have hzero : least ≤ 0 := by
    obtain ⟨j, hj⟩ := List.mem_iff_getElem?.1 hbin
    rcases h.single j bin hj with ⟨-, hload⟩ | ⟨_, rfl, -⟩
    · exact hp.least_le 0 (List.mem_of_getElem? hload)
    · cases hempty
  rcases h.single k chosen hat with ⟨rfl, hload⟩ | ⟨j, -, hload⟩
  · rw [hp.at_least] at hload
    cases hload
    have hsum : load = weight i := by
      have hadded := hp.added
      rw [hadd i] at hadded
      exact (Option.some.inj hadded).symm
    refine ⟨?_, ?_⟩
    · intro j bin hj
      rw [hp.items] at hj
      rw [hp.loads]
      by_cases hkj : k = j
      · subst hkj
        rw [getElem?_push_self hat] at hj
        cases hj
        refine .inr ⟨i, rfl, ?_⟩
        rw [List.getElem?_set_self (List.getElem?_eq_some_iff.1 hp.at_least).1, hsum]
      · rw [getElem?_push_ne hkj] at hj
        rw [List.getElem?_set_ne hkj]
        exact h.single j bin hj
    · rw [hp.items, used_push hat, h.used, List.length_append, List.length_singleton]
  · rw [hp.at_least] at hload
    cases hload
    exact absurd (lt_of_lt_of_le (hpos j) hzero) (lt_irrefl _)

/-- With at least as many items as bins, every bin gets one, whatever the addition does to larger loads. -/
theorem no_bin_empty [Zero α] (hpos : ∀ i, 0 < weight i) (hadd : ∀ i, add 0 (weight i) = some (weight i)) {n : Nat}
    {order : List ι} (hmany : n ≤ order.length) {b : Bins ι α} (h : schedule add weight n order = some b) :
    ∀ bin ∈ b.items, bin ≠ [] := by
  have hinv : Dealt n order b ∧ (order.length ≤ n → Filling weight order b) ∧
      (n ≤ order.length → ∀ bin ∈ b.items, bin ≠ []) := by
    refine schedule_invariant (fun done b => Dealt n done b ∧ (done.length ≤ n → Filling weight done b) ∧
      (n ≤ done.length → ∀ bin ∈ b.items, bin ≠ [])) ?_ ?_ h
    · refine ⟨dealt_empty n, fun _ => filling_empty n, ?_⟩
      intro hn
      obtain rfl : n = 0 := Nat.le_zero.1 hn
      simp [empty]
    · intro done i s next hs hnext
      obtain ⟨hdealt, hfilling, hfull⟩ := hs
      have hdealt' := hdealt.place hnext
      rcases Nat.lt_or_ge done.length n with hlt | hge
      · have hfilling' := (hfilling (by omega)).place hdealt hlt hpos hadd hnext
        refine ⟨hdealt', fun _ => hfilling', ?_⟩
        intro hn
        rw [List.length_append, List.length_singleton] at hn
        exact hfilling'.nonempty hdealt' (by rw [List.length_append, List.length_singleton]; omega)
      · refine ⟨hdealt', ?_, ?_⟩
        · intro hle
          rw [List.length_append, List.length_singleton] at hle
          omega
        · intro _ bin hbin
          obtain ⟨k, least, load, hp⟩ := place_cases hnext
          rw [hp.items] at hbin
          rcases mem_push hbin with hbin | ⟨old, -, rfl⟩
          · exact hfull hge bin hbin
          · simp
  exact hinv.2.2 hmany

end

/-! ## Exact and bounded loads -/

section
variable [AddCommMonoid α] {weight : ι → α}

/-- What the items of a bin weigh. -/
def loadOf (weight : ι → α) (bin : List ι) : α := (bin.map weight).sum

theorem loadOf_flatten (bins : List (List ι)) : (bins.map (loadOf weight)).sum = loadOf weight bins.flatten := by
  simp only [loadOf, List.map_flatten, List.sum_flatten, List.map_map]
  rfl

end

section
variable [LinearOrder α] [AddCommMonoid α] [IsOrderedAddMonoid α]

def exactAdd (a b : α) : Option α := some (a + b)

def boundedAdd (top a b : α) : Option α := if a + b ≤ top then some (a + b) else none

variable {weight : ι → α}

theorem loadOf_nonneg (hweight : ∀ i, 0 ≤ weight i) (bin : List ι) : 0 ≤ loadOf weight bin := by
  refine List.sum_nonneg ?_
  intro w hw
  obtain ⟨i, -, rfl⟩ := List.mem_map.1 hw
  exact hweight i

/-- The loads are the bins' weights, and a bin without its last item is no heavier than any bin. -/
structure Balanced (weight : ι → α) (b : Bins ι α) : Prop where
  loads : b.loads = b.items.map (loadOf weight)
  front : ∀ front last, front ++ [last] ∈ b.items → ∀ bin ∈ b.items, loadOf weight front ≤ loadOf weight bin

theorem Balanced.place (hweight : ∀ i, 0 ≤ weight i) {b b' : Bins ι α} {i : ι} (h : Balanced weight b)
    (hplace : place exactAdd weight b i = some b') : Balanced weight b' := by
  obtain ⟨k, least, load, hp⟩ := place_cases hplace
  have hat := hp.at_least
  rw [h.loads, List.getElem?_map] at hat
  obtain ⟨chosen, hchosen, rfl⟩ := Option.map_eq_some_iff.1 hat
  obtain rfl : loadOf weight chosen + weight i = load := Option.some.inj hp.added
  have hadded : loadOf weight (chosen ++ [i]) = loadOf weight chosen + weight i := by simp [loadOf]
  have hlight : ∀ bin ∈ b.items, loadOf weight chosen ≤ loadOf weight bin := by
    intro bin hbin
    refine hp.least_le _ ?_
    rw [h.loads]
    exact List.mem_map_of_mem hbin
  have hheavier : loadOf weight chosen ≤ loadOf weight (chosen ++ [i]) := by
    rw [hadded]
    exact le_add_of_nonneg_right (hweight i)
  refine ⟨?_, ?_⟩
  · rw [hp.loads, hp.items, h.loads, ← hadded]
    apply List.ext_getElem?
    intro j
    by_cases hkj : k = j
    · subst hkj
      rw [List.getElem?_map, getElem?_push_self hchosen, List.getElem?_set_self]
      · rfl
      · rw [List.length_map]
        exact (List.getElem?_eq_some_iff.1 hchosen).1
    · rw [List.getElem?_set_ne hkj, List.getElem?_map, List.getElem?_map, getElem?_push_ne hkj]
  · intro front last hfront bin hbin
    rw [hp.items] at hfront hbin
    -- the new item stands last in the lightest bin; any other last item stood there before
    have hbefore : ∀ bin ∈ b.items, loadOf weight front ≤ loadOf weight bin := by
      rcases mem_push hfront with hold | ⟨old, hold, heq⟩
      · exact h.front front last hold
      · rw [hchosen] at hold
        cases hold
        obtain ⟨rfl, -⟩ := List.append_inj' heq rfl
        exact hlight
    rcases mem_push hbin with hbin | ⟨old, hold, rfl⟩
    · exact hbefore bin hbin
    · rw [hchosen] at hold
      cases hold
      exact (hbefore chosen (List.mem_of_getElem? hchosen)).trans hheavier

theorem balanced (hweight : ∀ i, 0 ≤ weight i) {n : Nat} {order : List ι} {b : Bins ι α}
    (h : schedule exactAdd weight n order = some b) : Balanced weight b := by
  refine schedule_invariant (fun _ b => Balanced weight b) ?_ (fun _ _ _ _ hs hnext => hs.place hweight hnext) h
  refine ⟨by simp [empty, loadOf], ?_⟩
  intro front last hfront
  have hnil := List.eq_of_mem_replicate hfront
  simp at hnil

/-- A bin without its last item weighs at most the average. -/
theorem front_le_average (hweight : ∀ i, 0 ≤ weight i) {n : Nat} {order : List ι} {b : Bins ι α}
    (h : schedule exactAdd weight n order = some b) {front : List ι} {last : ι} (hfront : front ++ [last] ∈ b.items) :
    n • loadOf weight front ≤ loadOf weight order := by
  have hdealt := dealt h
  have hsum : (b.items.map (loadOf weight)).length • loadOf weight front ≤ (b.items.map (loadOf weight)).sum := by
    refine List.card_nsmul_le_sum _ _ ?_
    intro load hload
    obtain ⟨bin, hbin, rfl⟩ := List.mem_map.1 hload
    exact (balanced hweight h).front front last hfront bin hbin
  rw [List.length_map, hdealt.bins, loadOf_flatten] at hsum
  exact hsum.trans_eq (hdealt.items.map weight).sum_eq

/-- Loads only grow. -/
theorem grows (hweight : ∀ i, 0 ≤ weight i) {order : List ι} :
    ∀ {s b : Bins ι α}, order.foldlM (place exactAdd weight) s = some b → ∀ {k : Nat} {load : α}, s.loads[k]? = some load →
      ∃ later ∈ b.loads, load ≤ later := by
  induction order with
  | nil =>
    intro s b hrun k load hload
    cases hrun
    exact ⟨load, List.mem_of_getElem? hload, le_refl load⟩
  | cons i order ih =>
    intro s b hrun k load hload
    rw [List.foldlM_cons] at hrun
    obtain ⟨next, hnext, hrun⟩ := Option.bind_eq_some_iff.1 hrun
    obtain ⟨j, least, sum, hp⟩ := place_cases hnext
    by_cases hjk : j = k
    · subst hjk
      rw [hp.at_least] at hload
      cases hload
      obtain rfl : load + weight i = sum := Option.some.inj hp.added
      have hnew : next.loads[j]? = some (load + weight i) := by
        rw [hp.loads, List.getElem?_set_self (List.getElem?_eq_some_iff.1 hp.at_least).1]
      obtain ⟨later, hlater, hle⟩ := ih hrun hnew
      exact ⟨later, hlater, (le_add_of_nonneg_right (hweight i)).trans hle⟩
    · have hsame : next.loads[k]? = some load := by rw [hp.loads, List.getElem?_set_ne hjk, hload]
      exact ih hrun hsame

/-- A bound is never felt exactly if no bin ends above it. -/
theorem schedule_bounded_iff (hweight : ∀ i, 0 ≤ weight i) {top : α} (htop : 0 ≤ top) {n : Nat} {order : List ι}
    {b : Bins ι α} : schedule (boundedAdd top) weight n order = some b ↔
      schedule exactAdd weight n order = some b ∧ ∀ load ∈ b.loads, load ≤ top := by
  constructor
  · intro h
    refine ⟨schedule_of_agree (P := fun _ => True) trivial ?_ h, ?_⟩
    · intro x i sum _ hsum
      rw [boundedAdd, Option.ite_none_right_eq_some] at hsum
      exact ⟨hsum.2, trivial⟩
    · refine schedule_invariant (fun _ b => ∀ load ∈ b.loads, load ≤ top) ?_ ?_ h
      · intro load hload
        rw [List.eq_of_mem_replicate hload]
        exact htop
      · intro _ i s next hs hnext load hload
        obtain ⟨k, least, sum, hp⟩ := place_cases hnext
        rw [hp.loads] at hload
        rcases List.mem_or_eq_of_mem_set hload with hold | rfl
        · exact hs load hold
        · have hadded := hp.added
          rw [boundedAdd, Option.ite_none_right_eq_some, Option.some.injEq] at hadded
          exact hadded.2 ▸ hadded.1
  · rintro ⟨h, hle⟩
    suffices hrun : ∀ (order : List ι) (s : Bins ι α), order.foldlM (place exactAdd weight) s = some b →
        order.foldlM (place (boundedAdd top) weight) s = some b from hrun order _ h
    intro order
    induction order with
    | nil => exact fun s hs => hs
    | cons i order ih =>
      intro s hs
      rw [List.foldlM_cons] at hs
      obtain ⟨next, hnext, hs⟩ := Option.bind_eq_some_iff.1 hs
      obtain ⟨least, hleast, hmap⟩ := Option.bind_eq_some_iff.1 hnext
      obtain ⟨sum, hsum, rfl⟩ := Option.map_eq_some_iff.1 hmap
      obtain rfl : least.1 + weight i = sum := Option.some.inj hsum
      have hlt := (List.getElem?_eq_some_iff.1 (lightest_spec hleast).1).1
      obtain ⟨later, hlater, hgrown⟩ := grows hweight hs (List.getElem?_set_self hlt)
      have hfits : least.1 + weight i ≤ top := hgrown.trans (hle later hlater)
      have hnext' : place (boundedAdd top) weight s i =
          some ⟨push s.items least.2 i, s.loads.set least.2 (least.1 + weight i)⟩ := by
        simp [place, hleast, boundedAdd, hfits]
      rw [List.foldlM_cons, hnext']
      exact ih _ hs

end

/-! ## The loads alone -/

section
variable [LinearOrder α] [AddCommMonoid α] {weight : ι → α}

/-- Loads in ascending order; every weight goes to the first of them. -/
def deal : List α → List α → List α
  | loads, [] => loads
  | [], _ :: _ => []
  | least :: loads, w :: ws => deal (loads.orderedInsert (· ≤ ·) (least + w)) ws

attribute [local simp] deal

/-- The loads of a schedule are those dealt without looking at the bins, in some order. -/
theorem schedule_loads {n : Nat} {order : List ι} {b : Bins ι α} (h : schedule exactAdd weight n order = some b) :
    b.loads.Perm (deal (List.replicate n 0) (order.map weight)) := by
  suffices hrun : ∀ (order : List ι) (s : Bins ι α) (loads : List α), loads.Pairwise (· ≤ ·) → s.loads.Perm loads →
      order.foldlM (place exactAdd weight) s = some b → b.loads.Perm (deal loads (order.map weight)) by
    refine hrun order _ _ ?_ (List.Perm.refl _) h
    simp [List.pairwise_replicate]
  intro order
  induction order with
  | nil =>
    intro s loads _ hperm hs
    cases hs
    simpa [deal] using hperm
  | cons i order ih =>
    intro s loads hsorted hperm hs
    rw [List.foldlM_cons] at hs
    obtain ⟨next, hnext, hs⟩ := Option.bind_eq_some_iff.1 hs
    obtain ⟨k, least, load, hp⟩ := place_cases hnext
    obtain rfl : least + weight i = load := Option.some.inj hp.added
    obtain ⟨rest, hbefore, hafter⟩ := set_perm (y := least + weight i) hp.at_least
    cases loads with
    | nil => exact absurd (hbefore.symm.trans hperm).length_eq (by simp)
    | cons first loads =>
      obtain ⟨hfirst, hloads⟩ := List.pairwise_cons.1 hsorted
      -- the least load is the first of the sorted ones
      obtain rfl : first = least := by
        refine le_antisymm ?_ (hp.least_le first (hperm.symm.subset List.mem_cons_self))
        rcases List.mem_cons.1 (hperm.subset (List.mem_of_getElem? hp.at_least)) with heq | hmem
        · exact heq.ge
        · exact hfirst least hmem
      have hrest : rest.Perm loads := (hbefore.symm.trans hperm).cons_inv
      refine ih next _ (List.Pairwise.orderedInsert _ _ hloads) ?_ hs
      rw [hp.loads]
      exact hafter.trans ((hrest.cons _).trans (List.perm_orderedInsert _ _ _).symm)

theorem sum_deal : ∀ {loads : List α} (ws : List α), loads ≠ [] → (deal loads ws).sum = loads.sum + ws.sum
  | loads, [], _ => by simp [deal]
  | least :: loads, w :: ws, _ => by
    have hperm := List.perm_orderedInsert (· ≤ ·) (least + w) loads
    have hne : loads.orderedInsert (· ≤ ·) (least + w) ≠ [] := by
      intro hnil
      rw [hnil] at hperm
      exact absurd hperm.length_eq (by simp)
    rw [deal, sum_deal ws hne, hperm.sum_eq, List.sum_cons, List.sum_cons, List.sum_cons, add_assoc (least + w),
      add_add_add_comm]

theorem deal_nonneg [IsOrderedAddMonoid α] {ws : List α} : ∀ {loads : List α}, (∀ load ∈ loads, 0 ≤ load) → (∀ w ∈ ws, 0 ≤ w) →
    ∀ load ∈ deal loads ws, 0 ≤ load := by
  induction ws with
  | nil => exact fun hloads _ load hload => hloads load (by simpa [deal] using hload)
  | cons w ws ih =>
    intro loads hloads hws load hload
    cases loads with
    | nil => simp [deal] at hload
    | cons least loads =>
      refine ih ?_ (fun x hx => hws x (List.mem_cons_of_mem w hx)) load hload
      intro x hx
      rcases (List.mem_orderedInsert _).1 hx with rfl | hx
      · exact add_nonneg (hloads least List.mem_cons_self) (hws w List.mem_cons_self)
      · exact hloads x (List.mem_cons_of_mem least hx)

theorem deal_single (ws : List α) : ∀ load : α, deal [load] ws = [load + ws.sum] := by
  induction ws with
  | nil => simp [deal]
  | cons w ws ih =>
    intro load
    rw [deal, List.orderedInsert_nil, ih, List.sum_cons, add_assoc]

end

end ListScheduling
