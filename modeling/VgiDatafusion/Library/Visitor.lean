import VgiDatafusion.Library.Outcomes
import VgiDatafusion.Library.Tree

/-!
# Visitors that change the tree they visit

A visitor has a state for what is around a node. Before the children of a node it may replace the node and change the
state, after them it may replace the node once more, and have what it put there visited again. A visit may so go on for
ever: `visit` goes down to some depth only and fails with `limit` below it, `Halts` says that some depth is enough.

Rules: `visit_ok` for what a visit returns, `halts_node` for its end.
-/

inductive Next (σ α : Type)
  | done (t : LabelTree α)
  | again (s : σ) (t : LabelTree α)

/-- What is done after the children may be a visit of its own, and has a depth like one. -/
structure Visitor (σ α ε : Type) where
  pre : σ → LabelTree α → Except ε (σ × LabelTree α)
  post : Nat → σ → LabelTree α → Except ε (Next σ α)

namespace Visitor

variable {σ α ε : Type}

section
variable (limit : ε) (V : Visitor σ α ε)

def visit : Nat → σ → LabelTree α → Except ε (LabelTree α)
  | 0, _, _ => .error limit
  | n + 1, s, t => do
    let (s, t) ← V.pre s t
    let cs ← t.children.mapM (visit n s)
    match ← V.post n s (.node t.label cs) with
    | .done t => pure t
    | .again s t => visit n s t

/-- More depth makes no difference where there was enough. -/
def Steady : Prop := ∀ n s t, Follows (· = limit) Eq (V.post n s t) (V.post (n + 1) s t)

/-- Some depth is enough. -/
def Halts (s : σ) (t : LabelTree α) : Prop := ∃ n, visit limit V n s t ≠ .error limit

end

variable {limit : ε} {V : Visitor σ α ε}

/-! ## One node -/

/-- The four ways in which the visit of a node goes on. -/
theorem visit_succ (n : Nat) (s : σ) (t : LabelTree α) :
    (∃ e, V.pre s t = .error e ∧ visit limit V (n + 1) s t = .error e) ∨
    ∃ s' t', V.pre s t = .ok (s', t') ∧
      ((∃ e, t'.children.mapM (visit limit V n s') = .error e ∧ visit limit V (n + 1) s t = .error e) ∨
      ∃ cs, t'.children.mapM (visit limit V n s') = .ok cs ∧
        ((∃ e, V.post n s' (.node t'.label cs) = .error e ∧ visit limit V (n + 1) s t = .error e) ∨
        (∃ u, V.post n s' (.node t'.label cs) = .ok (.done u) ∧ visit limit V (n + 1) s t = .ok u) ∨
        ∃ s'' u, V.post n s' (.node t'.label cs) = .ok (.again s'' u) ∧
          visit limit V (n + 1) s t = visit limit V n s'' u)) := by
  rw [visit]
  cases hpre : V.pre s t with
  | error e => exact .inl ⟨e, rfl, rfl⟩
  | ok st =>
    obtain ⟨s', t'⟩ := st
    refine .inr ⟨s', t', rfl, ?_⟩
    show _ ∨ _
    simp only [bind, Except.bind]
    cases hcs : t'.children.mapM (visit limit V n s') with
    | error e => exact .inl ⟨e, rfl, rfl⟩
    | ok cs =>
      refine .inr ⟨cs, rfl, ?_⟩
      cases hpost : V.post n s' (.node t'.label cs) with
      | error e => exact .inl ⟨e, rfl, by simp [hpost]⟩
      | ok next =>
        cases next with
        | done u => exact .inr (.inl ⟨u, rfl, by simp [hpost]; rfl⟩)
        | again s'' u => exact .inr (.inr ⟨s'', u, rfl, by simp [hpost]⟩)

/-! ## Results -/

/-- What holds of every node and what is returned for it, if it holds of its children. -/
theorem visit_ok {Q : σ → LabelTree α → LabelTree α → Prop}
    (hdone : ∀ n s t s' t' cs u, V.pre s t = .ok (s', t') → List.Forall₂ (Q s') t'.children cs →
      V.post n s' (.node t'.label cs) = .ok (.done u) → Q s t u)
    (hagain : ∀ n s t s' t' cs s'' u r, V.pre s t = .ok (s', t') → List.Forall₂ (Q s') t'.children cs →
      V.post n s' (.node t'.label cs) = .ok (.again s'' u) → Q s'' u r → Q s t r) :
    ∀ n s t r, visit limit V n s t = .ok r → Q s t r
  | 0, s, t, r, h => by cases h
  | n + 1, s, t, r, h => by
    have ih := visit_ok hdone hagain n
    rcases visit_succ n s t with ⟨e, -, he⟩ | ⟨s', t', hpre, ⟨e, -, he⟩ | ⟨cs, hcs, ⟨e, -, he⟩ | ⟨u, hpost, hu⟩ | ⟨s'', u, hpost, hu⟩⟩⟩
    · rw [he] at h
      cases h
    · rw [he] at h
      cases h
    · rw [he] at h
      cases h
    · rw [hu] at h
      cases h
      exact hdone n s t s' t' cs r hpre ((ListFacts.mapM_ok_iff.1 hcs).imp fun c c' hc => ih s' c c' hc) hpost
    · rw [hu] at h
      exact hagain n s t s' t' cs s'' u r hpre ((ListFacts.mapM_ok_iff.1 hcs).imp fun c c' hc => ih s' c c' hc) hpost
        (ih s'' u r h)

/-! ## Two visitors -/

/-- What the steps of two visitors have in common. -/
inductive NextRel {τ β : Type} (I : σ → τ → LabelTree α → LabelTree β → Prop) (R : LabelTree α → LabelTree β → Prop) :
    Next σ α → Next τ β → Prop
  | done {t : LabelTree α} {t' : LabelTree β} (h : R t t') : NextRel I R (.done t) (.done t')
  | again {s : σ} {s' : τ} {t : LabelTree α} {t' : LabelTree β} (h : I s s' t t') : NextRel I R (.again s t) (.again s' t')

/-- Two visits, the second `k` deeper. Whatever the index, trees are related by `I` before a node, by `J` where its
children are visited, under an index of their own, and by `R` after it. -/
theorem visit_follows {ι τ β : Type} {W : Visitor τ β ε} (excused : ε → Prop) {k : Nat} (hk : k = 0 ∨ excused limit)
    {I : ι → σ → τ → LabelTree α → LabelTree β → Prop} {J : ι → ι → σ → τ → LabelTree α → LabelTree β → Prop}
    {R : ι → LabelTree α → LabelTree β → Prop}
    (hchildren : ∀ i j s s' t t', J i j s s' t t' → List.Forall₂ (I j s s') t.children t'.children)
    (hpre : ∀ i s s' t t', I i s s' t t' →
      Follows excused (fun p p' => ∃ j, J i j p.1 p'.1 p.2 p'.2) (V.pre s t) (W.pre s' t'))
    (hpost : ∀ n i j s s' t t' cs cs', J i j s s' t t' → List.Forall₂ (R j) cs cs' →
      Follows excused (NextRel (I i) (R i)) (V.post n s (.node t.label cs)) (W.post (n + k) s' (.node t'.label cs'))) :
    ∀ n i s s' t t', I i s s' t t' → Follows excused (R i) (visit limit V n s t) (visit limit W (n + k) s' t')
  | 0, i, s, s', t, t', _ => by
    rcases hk with rfl | hlimit
    · exact .inr rfl
    · exact .inl hlimit
  | n + 1, i, s, s', t, t', h => by
    have ih := visit_follows excused hk hchildren hpre hpost n
    rw [Nat.succ_add]
    refine (hpre i s s' t t' h).bind fun p p' _ hp => ?_
    obtain ⟨j, hj⟩ := hp
    refine (Follows.mapM ((hchildren _ _ _ _ _ _ hj).imp fun c c' hc => ih j _ _ c c' hc)).bind fun cs cs' _ hcs => ?_
    refine (hpost n _ _ _ _ _ _ cs cs' hj hcs).bind fun next next' _ hnext => ?_
    cases hnext with
    | done h => exact .ok h
    | again h => exact ih i _ _ _ _ h

/-! ## Depth -/

theorem visit_steady (hsteady : V.Steady limit) (n : Nat) (s : σ) (t : LabelTree α) :
    Follows (· = limit) Eq (visit limit V n s t) (visit limit V (n + 1) s t) := by
  refine visit_follows (· = limit) (.inr rfl) (I := fun (_ : Unit) s s' t t' => s = s' ∧ t = t')
    (J := fun _ _ s s' t t' => s = s' ∧ t = t') (R := fun _ => Eq) ?_ ?_ ?_ n () s s t t ⟨rfl, rfl⟩
  · rintro _ _ s _ t _ ⟨rfl, rfl⟩
    exact List.forall₂_same.2 fun _ _ => ⟨rfl, rfl⟩
  · rintro _ s _ t _ ⟨rfl, rfl⟩
    exact (Follows.refl _).mono fun p p' _ h => h ▸ ⟨(), rfl, rfl⟩
  · rintro n _ _ s _ t _ cs cs' ⟨rfl, rfl⟩ hcs
    obtain rfl := List.forall₂_eq_eq_eq ▸ hcs
    refine (hsteady n s _).mono fun next next' _ h => ?_
    subst h
    cases next with
    | done t => exact .done rfl
    | again s t => exact .again ⟨rfl, rfl⟩

theorem visit_le (hsteady : V.Steady limit) {n m : Nat} (hle : n ≤ m) {s : σ} {t : LabelTree α}
    (h : visit limit V n s t ≠ .error limit) : visit limit V m s t = visit limit V n s t := by
  induction hle with
  | refl => rfl
  | step _ ih =>
    rcases Follows.eq_iff.1 (visit_steady hsteady _ s t) with ⟨e, he, hlimit⟩ | hsame
    · rw [ih, hlimit] at he
      exact absurd he h
    · rw [hsame, ih]

theorem post_le (hsteady : V.Steady limit) {n m : Nat} (hle : n ≤ m) {s : σ} {t : LabelTree α}
    (h : V.post n s t ≠ .error limit) : V.post m s t = V.post n s t := by
  induction hle with
  | refl => rfl
  | step _ ih =>
    rcases Follows.eq_iff.1 (hsteady _ s t) with ⟨e, he, hlimit⟩ | hsame
    · rw [ih, hlimit] at he
      exact absurd he h
    · rw [hsame, ih]

/-- One depth is enough for finitely many. -/
theorem exists_depth {s : σ} : ∀ {cs : List (LabelTree α)}, V.Steady limit → (∀ c ∈ cs, Halts limit V s c) →
    ∃ n, ∀ c ∈ cs, visit limit V n s c ≠ .error limit
  | [], _, _ => ⟨0, fun c hc => by cases hc⟩
  | c :: cs, hsteady, h => by
    obtain ⟨n, hn⟩ := h c List.mem_cons_self
    obtain ⟨m, hm⟩ := exists_depth hsteady fun c hc => h c (List.mem_cons_of_mem _ hc)
    refine ⟨max n m, fun d hd => ?_⟩
    rcases List.mem_cons.1 hd with rfl | hd
    · rw [visit_le hsteady (Nat.le_max_left n m) hn]
      exact hn
    · rw [visit_le hsteady (Nat.le_max_right n m) (hm d hd)]
      exact hm d hd

/-- A visit does not run out of depth where none of its steps does. -/
theorem visit_succ_ne {n : Nat} {s : σ} {t : LabelTree α} (hpre : V.pre s t ≠ .error limit)
    (h : ∀ s' t', V.pre s t = .ok (s', t') → (∀ c ∈ t'.children, visit limit V n s' c ≠ .error limit) ∧
      ∀ cs, t'.children.mapM (visit limit V n s') = .ok cs → V.post n s' (.node t'.label cs) ≠ .error limit ∧
        ∀ s'' u, V.post n s' (.node t'.label cs) = .ok (.again s'' u) → visit limit V n s'' u ≠ .error limit) :
    visit limit V (n + 1) s t ≠ .error limit := by
  have hother : ∀ {β : Type} {x : Except ε β} {e : ε}, x ≠ .error limit → x = .error e →
      (Except.error e : Except ε (LabelTree α)) ≠ .error limit := by
    rintro β x e hx rfl hlimit
    cases hlimit
    exact hx rfl
  rcases @visit_succ _ _ _ limit V n s t with ⟨e, he, hvisit⟩ | ⟨s', t', hstart, hrest⟩
  · rw [hvisit]
    exact hother hpre he
  · obtain ⟨hchildren, hafter⟩ := h s' t' hstart
    rcases hrest with ⟨e, he, hvisit⟩ | ⟨cs, hcs, hpost⟩
    · obtain ⟨c, hc, herror⟩ := ListFacts.mapM_error he
      rw [hvisit]
      exact hother (hchildren c hc) herror
    · obtain ⟨hdone, hagain⟩ := hafter cs hcs
      rcases hpost with ⟨e, he, hvisit⟩ | ⟨u, -, hvisit⟩ | ⟨s'', u, hnext, hvisit⟩
      · rw [hvisit]
        exact hother hdone he
      · rw [hvisit]
        exact fun hlimit => by cases hlimit
      · rw [hvisit]
        exact hagain s'' u hnext

/-- The visit of a node ends if the visits to its children do, what is done after them does, and the visit of what is put
in its place. -/
theorem halts_node (hsteady : V.Steady limit) {s : σ} {t : LabelTree α} (hpre : V.pre s t ≠ .error limit)
    (h : ∀ s' t', V.pre s t = .ok (s', t') → (∀ c ∈ t'.children, Halts limit V s' c) ∧
      ∀ n cs, List.Forall₂ (fun c c' => visit limit V n s' c = .ok c') t'.children cs →
        (∃ m, V.post m s' (.node t'.label cs) ≠ .error limit) ∧
        ∀ m s'' u, V.post m s' (.node t'.label cs) = .ok (.again s'' u) → Halts limit V s'' u) : Halts limit V s t := by
  by_cases hok : ∃ s' t', V.pre s t = .ok (s', t')
  · obtain ⟨s', t', hstart⟩ := hok
    obtain ⟨hchildren, hrest⟩ := h s' t' hstart
    obtain ⟨n, hn⟩ := exists_depth hsteady hchildren
    have hmapM : ∀ depth, n ≤ depth → t'.children.mapM (visit limit V depth s') = t'.children.mapM (visit limit V n s') :=
      fun depth hdepth => ListFacts.mapM_congr fun c hc => visit_le hsteady hdepth (hn c hc)
    -- from depth `n` on the children become the same, so only what is done after them may need more
    suffices henough : ∃ depth, n ≤ depth ∧ ∀ cs, t'.children.mapM (visit limit V n s') = .ok cs →
        V.post depth s' (.node t'.label cs) ≠ .error limit ∧
          ∀ s'' u, V.post depth s' (.node t'.label cs) = .ok (.again s'' u) → visit limit V depth s'' u ≠ .error limit by
      obtain ⟨depth, hdepth, hpost⟩ := henough
      refine ⟨depth + 1, visit_succ_ne hpre fun s1 t1 hstart1 => ?_⟩
      rw [hstart] at hstart1
      cases hstart1
      refine ⟨fun c hc => ?_, fun cs hcs => hpost cs ?_⟩
      · rw [visit_le hsteady hdepth (hn c hc)]
        exact hn c hc
      · rwa [hmapM depth hdepth] at hcs
    cases hcs : t'.children.mapM (visit limit V n s') with
    | error e => exact ⟨n, Nat.le_refl n, fun cs hok => by cases hok⟩
    | ok cs =>
      obtain ⟨⟨m, hm⟩, hagain⟩ := hrest n cs (ListFacts.mapM_ok_iff.1 hcs)
      by_cases hmore : ∃ s'' u, V.post m s' (.node t'.label cs) = .ok (.again s'' u)
      · obtain ⟨s'', u, hpost⟩ := hmore
        obtain ⟨k, hk⟩ := hagain m s'' u hpost
        have hmk : m ≤ max (max n m) k := Nat.le_trans (Nat.le_max_right n m) (Nat.le_max_left _ k)
        refine ⟨max (max n m) k, Nat.le_trans (Nat.le_max_left n m) (Nat.le_max_left _ k), fun cs' hcs' => ?_⟩
        cases hcs'
        rw [post_le hsteady hmk hm, hpost]
        refine ⟨(fun hlimit => by cases hlimit), fun s1 u1 hnext => ?_⟩
        cases hnext
        rw [visit_le hsteady (Nat.le_max_right _ k) hk]
        exact hk
      · refine ⟨max n m, Nat.le_max_left n m, fun cs' hcs' => ?_⟩
        cases hcs'
        rw [post_le hsteady (Nat.le_max_right n m) hm]
        exact ⟨hm, fun s'' u hnext => absurd ⟨s'', u, hnext⟩ hmore⟩
  · exact ⟨1, visit_succ_ne hpre fun s' t' hstart => absurd ⟨s', t', hstart⟩ hok⟩

end Visitor
