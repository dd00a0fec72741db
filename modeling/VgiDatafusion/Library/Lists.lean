import Mathlib.Data.List.Forall2

/-!
# Facts about lists read back from a fallible traversal, and about growing lists

`mapM` in `Option` succeeds only if every element does; `map_of_mapM` turns that into an equation
between two ordinary maps. The lemmas on `<+:` say that an index valid in a list stays valid, with
the same element, in every list that extends it.
-/
namespace ListFacts

theorem map_of_mapM {α β γ : Type} {f : α → Option β} {g : α → γ} {h : β → γ}
    (hf : ∀ {a b}, f a = some b → g a = h b) :
    ∀ {as : List α} {bs : List β}, as.mapM f = some bs → as.map g = bs.map h
  | [], bs, hm => by simp at hm; simp [hm]
  | a :: as, bs, hm => by
    simp only [List.mapM_cons, Option.bind_eq_bind, Option.bind_eq_some_iff, Option.pure_def,
      Option.some.injEq] at hm
    obtain ⟨b, hb, bs', hbs, rfl⟩ := hm
    simp [hf hb, map_of_mapM hf hbs]

theorem mem_of_mapM {α β : Type} {f : α → Option β} {a : α} :
    ∀ {as : List α} {bs : List β}, as.mapM f = some bs → a ∈ as → ∃ b ∈ bs, f a = some b
  | x :: as, bs, hm, ha => by
    simp only [List.mapM_cons, Option.bind_eq_bind, Option.bind_eq_some_iff, Option.pure_def,
      Option.some.injEq] at hm
    obtain ⟨y, hy, ys, hys, rfl⟩ := hm
    rcases List.mem_cons.1 ha with rfl | ha
    · exact ⟨y, List.mem_cons_self, hy⟩
    · obtain ⟨b, hb, hab⟩ := mem_of_mapM hys ha
      exact ⟨b, List.mem_cons_of_mem _ hb, hab⟩

/-- A traversal in `Except` succeeds with a list exactly when every element does, in order. -/
theorem mapM_ok_iff {ε α β : Type} {f : α → Except ε β} :
    ∀ {as : List α} {bs : List β}, as.mapM f = .ok bs ↔ List.Forall₂ (fun a b => f a = .ok b) as bs
  | [], bs => by
    rw [List.mapM_nil, List.forall₂_nil_left_iff]
    constructor
    · intro h; cases h; rfl
    · rintro rfl; rfl
  | a :: as, bs => by
    rw [List.mapM_cons, List.forall₂_cons_left_iff]
    constructor
    · intro h
      cases ha : f a with
      | error e => rw [ha] at h; cases h
      | ok b =>
        cases has : as.mapM f with
        | error e => rw [ha, has] at h; cases h
        | ok bs' =>
          rw [ha, has] at h
          cases h
          exact ⟨b, bs', rfl, mapM_ok_iff.1 has, rfl⟩
    · rintro ⟨b, bs', hb, hbs, rfl⟩
      rw [hb, mapM_ok_iff.2 hbs]
      rfl

theorem mapM_error {ε α β : Type} {f : α → Except ε β} {e : ε} :
    ∀ {as : List α}, as.mapM f = .error e → ∃ a ∈ as, f a = .error e
  | [], h => by cases h
  | a :: as, h => by
    rw [List.mapM_cons] at h
    cases ha : f a with
    | error e' =>
      rw [ha] at h
      cases h
      exact ⟨a, List.mem_cons_self, ha⟩
    | ok b =>
      rw [ha] at h
      cases has : as.mapM f with
      | error e' =>
        rw [has] at h
        cases h
        obtain ⟨c, hc, herror⟩ := mapM_error has
        exact ⟨c, List.mem_cons_of_mem _ hc, herror⟩
      | ok bs =>
        rw [has] at h
        cases h

theorem mapM_congr {ε α β : Type} {f g : α → Except ε β} :
    ∀ {as : List α}, (∀ a ∈ as, f a = g a) → as.mapM f = as.mapM g
  | [], _ => rfl
  | a :: as, h => by
    rw [List.mapM_cons, List.mapM_cons, h a List.mem_cons_self, mapM_congr fun b hb => h b (List.mem_cons_of_mem _ hb)]

theorem zipWith_apply {α β γ : Type} (f : α → β → γ) (as : List α) (bs : List β) :
    (as.map f).zipWith (fun g b => g b) bs = (as.zip bs).map fun p => f p.1 p.2 := by
  rw [List.zipWith_map_left, List.zip, List.map_zipWith]

theorem map_zip_left {α β γ : Type} (f : α → γ) {as : List α} {bs : List β} (h : bs.length = as.length) :
    ((as.zip bs).map fun p => f p.1) = as.map f := by
  have hfst := List.map_fst_zip (Nat.le_of_eq h.symm)
  conv_rhs => rw [← hfst, List.map_map]
  rfl

theorem map_zip_const {α β γ : Type} (f : α → β → γ) (b : β) (as : List α) :
    ((as.zip (as.map fun _ => b)).map fun p => f p.1 p.2) = as.map (f · b) := by
  induction as with
  | nil => rfl
  | cons a as ih => simp only [List.map_cons, List.zip_cons_cons, ih]

/-- What a second round leaves as it is. -/
theorem map_zip_twice {α β : Type} {f : α → β → α} {R : β → β → Prop} {bs bs' : List β} (hbs : List.Forall₂ R bs bs') :
    ∀ {as : List α}, (∀ a ∈ as, ∀ b b', R b b' → f (f a b) b' = f a b) →
      ((((as.zip bs).map fun p => f p.1 p.2).zip bs').map fun p => f p.1 p.2) = (as.zip bs).map fun p => f p.1 p.2 := by
  induction hbs with
  | nil => simp
  | cons hb _ ih =>
    intro as h
    match as with
    | [] => rfl
    | a :: as =>
      simp only [List.zip_cons_cons, List.map_cons, h a List.mem_cons_self _ _ hb]
      rw [ih fun a ha => h a (List.mem_cons_of_mem _ ha)]

theorem forall₂_append_iff {α β : Type} {R : α → β → Prop} :
    ∀ {as cs : List α} {bs : List β}, List.Forall₂ R (as ++ cs) bs ↔
      ∃ bs₁ bs₂, List.Forall₂ R as bs₁ ∧ List.Forall₂ R cs bs₂ ∧ bs = bs₁ ++ bs₂
  | [], cs, bs => by simp
  | a :: as, cs, bs => by
    rw [List.cons_append, List.forall₂_cons_left_iff]
    constructor
    · rintro ⟨b, bs', hab, hrest, rfl⟩
      obtain ⟨bs₁, bs₂, h₁, h₂, rfl⟩ := forall₂_append_iff.1 hrest
      exact ⟨b :: bs₁, bs₂, .cons hab h₁, h₂, rfl⟩
    · rintro ⟨_, bs₂, h₁, h₂, rfl⟩
      cases h₁ with
      | cons hab hrest => exact ⟨_, _, hab, forall₂_append_iff.2 ⟨_, bs₂, hrest, h₂, rfl⟩, rfl⟩

theorem mapM_some_iff {α β : Type} {f : α → Option β} :
    ∀ {as : List α} {bs : List β}, as.mapM f = some bs ↔ List.Forall₂ (fun a b => f a = some b) as bs
  | [], bs => by
    rw [List.mapM_nil, List.forall₂_nil_left_iff, Option.pure_def, Option.some.injEq, eq_comm]
  | a :: as, bs => by
    simp only [List.mapM_cons, Option.bind_eq_bind, Option.bind_eq_some_iff, Option.pure_def, Option.some.injEq,
      List.forall₂_cons_left_iff]
    constructor
    · rintro ⟨b, hb, bs', hbs, rfl⟩
      exact ⟨b, bs', hb, mapM_some_iff.1 hbs, rfl⟩
    · rintro ⟨b, bs', hb, hbs, rfl⟩
      exact ⟨b, hb, bs', mapM_some_iff.2 hbs, rfl⟩

/-- A traversal keeps what each of its steps keeps. -/
theorem foldlM_ok_inv {ε α β : Type} {f : β → α → Except ε β} {I : β → Prop}
    (hf : ∀ b a b', I b → f b a = .ok b' → I b') :
    ∀ {as : List α} {b b' : β}, I b → as.foldlM f b = .ok b' → I b'
  | [], b, b', hb, h => by
    cases h
    exact hb
  | a :: as, b, b', hb, h => by
    rw [List.foldlM_cons] at h
    cases ha : f b a with
    | error e =>
      rw [ha] at h
      cases h
    | ok next =>
      rw [ha] at h
      exact foldlM_ok_inv hf (hf b a next hb ha) h

theorem forall₂_of_exists {α β : Type} {R : α → β → Prop} :
    ∀ {as : List α}, (∀ a ∈ as, ∃ b, R a b) → ∃ bs, List.Forall₂ R as bs
  | [], _ => ⟨[], .nil⟩
  | a :: as, h => by
    obtain ⟨b, hb⟩ := h a List.mem_cons_self
    obtain ⟨bs, hbs⟩ := forall₂_of_exists fun a ha => h a (List.mem_cons_of_mem _ ha)
    exact ⟨b :: bs, .cons hb hbs⟩

theorem forall₂_getElem? {α β : Type} {R : α → β → Prop} :
    ∀ {as : List α} {bs : List β}, List.Forall₂ R as bs → ∀ {i : Nat} {a : α}, as[i]? = some a →
      ∃ b, bs[i]? = some b ∧ R a b
  | _, _, .cons hab _, 0, _, h => by
    cases h
    exact ⟨_, rfl, hab⟩
  | _ :: _, _ :: _, .cons _ hrest, i + 1, _, h => forall₂_getElem? hrest h

theorem forall₂_of_mem {α β : Type} {R : α → β → Prop} {as : List α} {bs : List β} (h : List.Forall₂ R as bs)
    {Q : α → β → Prop} (hQ : ∀ a ∈ as, ∀ c, R a c → Q a c) : List.Forall₂ Q as bs := by
  induction h with
  | nil => exact .nil
  | cons hab _ ih =>
    exact .cons (hQ _ List.mem_cons_self _ hab) (ih fun a ha => hQ a (List.mem_cons_of_mem _ ha))

theorem forall₂_mem_right {α β : Type} {R : α → β → Prop} {as : List α} {bs : List β} (h : List.Forall₂ R as bs) {b : β}
    (hb : b ∈ bs) : ∃ a ∈ as, R a b := by
  induction h with
  | nil => cases hb
  | cons hab _ ih =>
    rcases List.mem_cons.1 hb with rfl | hb
    · exact ⟨_, List.mem_cons_self, hab⟩
    · obtain ⟨a, ha, hab⟩ := ih hb
      exact ⟨a, List.mem_cons_of_mem _ ha, hab⟩

theorem forall₂_mem_left {α β : Type} {R : α → β → Prop} {as : List α} {bs : List β} (h : List.Forall₂ R as bs) {a : α}
    (ha : a ∈ as) : ∃ b ∈ bs, R a b := forall₂_mem_right h.flip ha

theorem forall₂_comp {α β γ : Type} {R : α → β → Prop} {S : β → γ → Prop} :
    ∀ {as : List α} {bs : List β} {cs : List γ}, List.Forall₂ R as bs → List.Forall₂ S bs cs →
      List.Forall₂ (fun a c => ∃ b, R a b ∧ S b c) as cs
  | _, _, _, .nil, .nil => .nil
  | _, _, _, .cons hab has, .cons hbc hbs => .cons ⟨_, hab, hbc⟩ (forall₂_comp has hbs)

/-- In an association list without repeated keys the value found is the one stored. -/
theorem lookup_of_mem {α β : Type} [BEq α] [LawfulBEq α] {k : α} {v : β} :
    ∀ {l : List (α × β)}, (l.map (·.1)).Nodup → (k, v) ∈ l → l.lookup k = some v
  | (k', v') :: l, hnodup, hmem => by
    rw [List.map_cons, List.nodup_cons] at hnodup
    rcases List.mem_cons.1 hmem with heq | hrest
    · cases heq
      exact List.lookup_cons_self
    · have hkey : k ∈ l.map (·.1) := List.mem_map_of_mem hrest
      have hne : k ≠ k' := by
        rintro rfl
        exact hnodup.1 hkey
      rw [List.lookup_cons, beq_false_of_ne hne]
      exact lookup_of_mem hnodup.2 hrest

theorem mem_of_lookup {α β : Type} [BEq α] [LawfulBEq α] {k : α} {v : β} :
    ∀ {l : List (α × β)}, l.lookup k = some v → (k, v) ∈ l
  | (k', v') :: l, h => by
    by_cases hk : k = k'
    · subst hk
      rw [List.lookup_cons_self] at h
      cases h
      exact List.mem_cons_self
    · rw [List.lookup_cons, beq_false_of_ne hk] at h
      exact List.mem_cons_of_mem _ (mem_of_lookup h)

/-- The order of an association list without repeated keys does not matter. -/
theorem lookup_perm {α β : Type} [BEq α] [LawfulBEq α] {l l' : List (α × β)} (hnodup : (l.map (·.1)).Nodup)
    (hperm : l.Perm l') (k : α) : l'.lookup k = l.lookup k := by
  have hnodup' : (l'.map (·.1)).Nodup := (hperm.map (·.1)).nodup_iff.1 hnodup
  cases h : l.lookup k with
  | some v => exact lookup_of_mem hnodup' (hperm.mem_iff.1 (mem_of_lookup h))
  | none =>
    rw [List.lookup_eq_none_iff] at h ⊢
    exact fun p hp => h p (hperm.mem_iff.2 hp)

/-- Elements of one kind before those of the other. -/
theorem eq_filter_append {α : Type} {p : α → Bool} :
    ∀ {l : List α}, (l.Pairwise fun a b => p a = true → p b = true) → l = l.filter (!p ·) ++ l.filter p
  | [], _ => rfl
  | a :: l, h => by
    rw [List.pairwise_cons] at h
    cases ha : p a with
    | false =>
      rw [List.filter_cons_of_pos (by simp [ha]), List.filter_cons_of_neg (by simp [ha]), List.cons_append,
        ← eq_filter_append h.2]
    | true =>
      have hall : ∀ b ∈ a :: l, p b = true := by
        intro b hb
        rcases List.mem_cons.1 hb with rfl | hb
        · exact ha
        · exact h.1 b hb ha
      rw [List.filter_eq_self.2 hall, List.filter_eq_nil_iff.2 fun b hb => by simp [hall b hb], List.nil_append]

theorem initial_getElem? {α : Type} {xs ys : List α} (h : xs <+: ys) {i : Nat} {x : α}
    (hi : xs[i]? = some x) : ys[i]? = some x := by
  obtain ⟨zs, rfl⟩ := h
  rw [List.getElem?_append_left (List.getElem?_eq_some_iff.1 hi).1, hi]

theorem initial_take {α : Type} {xs ys : List α} (h : xs <+: ys) : ys.take xs.length = xs := by
  obtain ⟨zs, rfl⟩ := h
  simp

theorem getElem?_set_cases {α : Type} {xs : List α} {i j : Nat} {x y : α} (h : (xs.set i x)[j]? = some y) :
    (j = i ∧ y = x) ∨ (j ≠ i ∧ xs[j]? = some y) := by
  by_cases hij : i = j
  · subst hij
    rw [List.getElem?_set, if_pos rfl] at h
    split at h
    · cases h
      exact Or.inl ⟨rfl, rfl⟩
    · cases h
  · rw [List.getElem?_set_ne hij] at h
    exact Or.inr ⟨fun hji => hij hji.symm, h⟩

theorem getElem?_concat_cases {α : Type} {xs : List α} {j : Nat} {x y : α} (h : (xs ++ [x])[j]? = some y) :
    xs[j]? = some y ∨ (j = xs.length ∧ y = x) := by
  by_cases hj : j < xs.length
  · rw [List.getElem?_append_left hj] at h
    exact .inl h
  · rw [List.getElem?_append_right (by omega)] at h
    obtain ⟨hlt, heq⟩ := List.getElem?_eq_some_iff.1 h
    rw [List.length_singleton] at hlt
    right
    refine ⟨by omega, ?_⟩
    rw [← heq, List.getElem_singleton]

/-- Two lists cut at one separator are cut at the same place, or one cut lies further right. -/
theorem append_cons_eq_append_cons_iff {α : Type} {d : α} {a b a' b' : List α} :
    a ++ d :: b = a' ++ d :: b' ↔ (a = a' ∧ b = b') ∨ (∃ mid, a' = a ++ d :: mid ∧ b = mid ++ d :: b') ∨
      ∃ mid, a = a' ++ d :: mid ∧ b' = mid ++ d :: b := by
  constructor
  · intro h
    rcases List.append_eq_append_iff.1 h with ⟨mid, rfl, hb⟩ | ⟨mid, rfl, hb⟩
    · cases mid with
      | nil => simp_all
      | cons e mid =>
        obtain ⟨rfl, rfl⟩ := List.cons.inj hb
        exact .inr (.inl ⟨mid, rfl, rfl⟩)
    · cases mid with
      | nil => simp_all
      | cons e mid =>
        obtain ⟨rfl, rfl⟩ := List.cons.inj hb
        exact .inr (.inr ⟨mid, rfl, rfl⟩)
  · rintro (⟨rfl, rfl⟩ | ⟨mid, rfl, rfl⟩ | ⟨mid, rfl, rfl⟩)
    · rfl
    · simp
    · simp

/-- Where the keys differ, an element's key is found where the element stands. -/
theorem findIdx?_of_nodup {α β : Type} [DecidableEq β] {key : α → β} {l : List α} (hl : (l.map key).Nodup) {i : Nat} {a : α}
    (ha : l[i]? = some a) : l.findIdx? (key · == key a) = some i := by
  obtain ⟨hi, rfl⟩ := List.getElem?_eq_some_iff.1 ha
  rw [List.findIdx?_eq_some_iff_getElem]
  refine ⟨hi, by simp, ?_⟩
  intro j hj hkey
  have hj' : j < l.length := by omega
  have hsame : (l.map key)[j]? = (l.map key)[i]? := by
    simp only [List.getElem?_map, List.getElem?_eq_getElem hi, List.getElem?_eq_getElem hj', Option.map_some]
    simpa using hkey
  have := (List.getElem?_inj (by simpa using hj') hl).1 hsame
  omega

/-- A selection by index, of values that the index determines. -/
theorem map_filter_zipIdx {α β : Type} {xs : List α} {p : Nat → Bool} {f : α × Nat → β} {h : Nat → β}
    (hf : ∀ a i, xs[i]? = some a → f (a, i) = h i) :
    (xs.zipIdx.filter fun a => p a.2).map f = ((List.range xs.length).filter p).map h := by
  have hmap : (xs.zipIdx.filter fun a => p a.2).map f = (xs.zipIdx.filter fun a => p a.2).map (h ∘ Prod.snd) := by
    refine List.map_congr_left ?_
    intro a ha
    have hget := List.mem_zipIdx_iff_getElem?.1 (List.mem_filter.1 ha).1
    exact hf a.1 a.2 hget
  rw [hmap, ← List.map_map, List.range_eq_range', ← List.zipIdx_map_snd 0 xs, List.filter_map]
  rfl

end ListFacts
