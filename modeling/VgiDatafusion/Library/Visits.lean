import VgiDatafusion.Library.Visitor

/-!
# What a visit comes to

`Visits` are the trees that a visit is at, one after the other, as far as it gets: a child is come to when those before it
have been visited, what is put in the place of a node when all its children have. With it is said where a guard stops a visit
(`visit_guarded`) and what all the visits on the way return.
-/

namespace Visitor

variable {σ α ε : Type}

section
variable (limit : ε) (V : Visitor σ α ε)

/-- The visit of the first tree comes to the second one. -/
inductive Visits : Nat → σ → LabelTree α → Nat → σ → LabelTree α → Prop
  | here {n : Nat} {s : σ} {t : LabelTree α} : Visits n s t n s t
  | child {n m : Nat} {s s' r : σ} {t t' c u : LabelTree α} {before after : List (LabelTree α)} (hpre : V.pre s t = .ok (s', t'))
      (hsplit : t'.children = before ++ c :: after) (hbefore : ∃ cs, before.mapM (visit limit V n s') = .ok cs)
      (h : Visits n s' c m r u) : Visits (n + 1) s t m r u
  | again {n m : Nat} {s s' s'' r : σ} {t t' v u : LabelTree α} {cs : List (LabelTree α)} (hpre : V.pre s t = .ok (s', t'))
      (hcs : t'.children.mapM (visit limit V n s') = .ok cs) (hpost : V.post n s' (.node t'.label cs) = .ok (.again s'' v))
      (h : Visits n s'' v m r u) : Visits (n + 1) s t m r u

/-- After its children, a node is as `t` is when it is left. -/
def LeavesAs (n : Nat) (s : σ) (t : LabelTree α) (s' : σ) (u : LabelTree α) : Prop :=
  ∃ t' cs, V.pre s t = .ok (s', t') ∧ t'.children.mapM (visit limit V n s') = .ok cs ∧ u = .node t'.label cs

/-- A visit comes to a node where it may not go on. -/
def Stops (enter : σ → LabelTree α → Prop) (leave : Nat → σ → LabelTree α → Prop) (n : Nat) (s : σ) (t : LabelTree α) : Prop :=
  ∃ m r u, Visits limit V n s t (m + 1) r u ∧ (enter r u ∨ ∃ r' u', LeavesAs limit V m r u r' u' ∧ leave m r' u')

end

variable {limit : ε} {V W : Visitor σ α ε} {enter : σ → LabelTree α → Prop} {leave : Nat → σ → LabelTree α → Prop}

theorem not_stops_zero (s : σ) (t : LabelTree α) : ¬Stops limit V enter leave 0 s t := by
  rintro ⟨m, r, u, h, -⟩
  cases h

theorem stops_succ (n : Nat) (s : σ) (t : LabelTree α) :
    Stops limit V enter leave (n + 1) s t ↔ enter s t ∨ ∃ s' t', V.pre s t = .ok (s', t') ∧
      ((∃ before c after, t'.children = before ++ c :: after ∧ (∃ cs, before.mapM (visit limit V n s') = .ok cs) ∧
          Stops limit V enter leave n s' c) ∨
        ∃ cs, t'.children.mapM (visit limit V n s') = .ok cs ∧ (leave n s' (.node t'.label cs) ∨
          ∃ s'' v, V.post n s' (.node t'.label cs) = .ok (.again s'' v) ∧ Stops limit V enter leave n s'' v)) := by
  constructor
  · rintro ⟨m, r, u, h, hstop⟩
    cases h with
    | here =>
      rcases hstop with henter | ⟨r', u', ⟨t', cs, hpre, hcs, rfl⟩, hleave⟩
      · exact .inl henter
      · exact .inr ⟨r', t', hpre, .inr ⟨cs, hcs, .inl hleave⟩⟩
    | child hpre hsplit hbefore h => exact .inr ⟨_, _, hpre, .inl ⟨_, _, _, hsplit, hbefore, m, r, u, h, hstop⟩⟩
    | again hpre hcs hpost h => exact .inr ⟨_, _, hpre, .inr ⟨_, hcs, .inr ⟨_, _, hpost, m, r, u, h, hstop⟩⟩⟩
  · rintro (henter | ⟨s', t', hpre, ⟨before, c, after, hsplit, hbefore, m, r, u, h, hstop⟩ | ⟨cs, hcs, hleave |
      ⟨s'', v, hpost, m, r, u, h, hstop⟩⟩⟩)
    · exact ⟨n, s, t, .here, .inl henter⟩
    · exact ⟨m, r, u, .child hpre hsplit hbefore h, hstop⟩
    · exact ⟨n, s, t, .here, .inr ⟨s', _, ⟨t', cs, hpre, hcs, rfl⟩, hleave⟩⟩
    · exact ⟨m, r, u, .again hpre hcs hpost h, hstop⟩

/-- What a visit does with what it leaves behind. -/
def resume (limit : ε) (V : Visitor σ α ε) (n : Nat) : Next σ α → Except ε (LabelTree α)
  | .done t => .ok t
  | .again s t => visit limit V n s t

/-- A visit after it has entered a node. -/
def visitEntered (limit : ε) (V : Visitor σ α ε) (n : Nat) (p : σ × LabelTree α) : Except ε (LabelTree α) := do
  let cs ← p.2.children.mapM (visit limit V n p.1)
  let next ← V.post n p.1 (.node p.2.label cs)
  resume limit V n next

theorem visit_eq_entered (n : Nat) (s : σ) (t : LabelTree α) :
    visit limit V (n + 1) s t = V.pre s t >>= visitEntered limit V n := by
  rw [visit]
  cases V.pre s t with
  | error e => rfl
  | ok p =>
    refine congrArg (p.2.children.mapM (visit limit V n p.1) >>= ·) (funext fun cs => ?_)
    refine congrArg (V.post n p.1 (.node p.2.label cs) >>= ·) (funext fun next => ?_)
    cases next <;> rfl

/-- A visitor with guards goes on like the one without them up to the first node where one of them stops it. -/
theorem visit_guarded {stop : ε → Prop} (hlimit : ¬stop limit) (hpre : ∀ s t, Guarded stop (enter s t) (V.pre s t) (W.pre s t))
    (hpost : ∀ n s t, Guarded stop (leave n s t) (V.post n s t) (W.post n s t)) :
    ∀ n s t, Guarded stop (Stops limit W enter leave n s t) (visit limit V n s t) (visit limit W n s t)
  | 0, s, t => (Guarded.error hlimit).congr ⟨fun h => not_stops_zero s t h, False.elim⟩
  | n + 1, s, t => by
    have ih := visit_guarded hlimit hpre hpost n
    have hnode := (hpre s t).bind (f := visitEntered limit V n) (g := visitEntered limit W n) fun p _ =>
        (Guarded.mapM fun c _ => ih p.1 c).bind fun cs _ =>
          (hpost n p.1 (.node p.2.label cs)).bind (q := fun next => ∃ s'' v, next = .again s'' v ∧ Stops limit W enter leave n s'' v)
            fun next _ => by
              cases next with
              | done u =>
                refine (Guarded.ok u).congr ⟨?_, False.elim⟩
                rintro ⟨_, _, h, -⟩
                cases h
              | again s'' v =>
                refine (ih s'' v).congr ⟨?_, fun h => ⟨s'', v, rfl, h⟩⟩
                rintro ⟨_, _, ⟨⟩, h⟩
                exact h
    rw [visit_eq_entered, visit_eq_entered]
    refine hnode.congr ?_
    rw [stops_succ]
    refine or_congr_right ?_
    constructor
    · rintro ⟨s', t', hp, hchildren | ⟨cs, hcs, hleave | ⟨s'', v, hv, hagain⟩⟩⟩
      · exact ⟨(s', t'), hp, .inl hchildren⟩
      · exact ⟨(s', t'), hp, .inr ⟨cs, hcs, .inl hleave⟩⟩
      · exact ⟨(s', t'), hp, .inr ⟨cs, hcs, .inr ⟨_, hv, s'', v, rfl, hagain⟩⟩⟩
    · rintro ⟨⟨s', t'⟩, hp, hchildren | ⟨cs, hcs, hleave | ⟨_, hv, s'', v, rfl, hagain⟩⟩⟩
      · exact ⟨s', t', hp, .inl hchildren⟩
      · exact ⟨s', t', hp, .inr ⟨cs, hcs, .inl hleave⟩⟩
      · exact ⟨s', t', hp, .inr ⟨cs, hcs, .inr ⟨s'', v, hv, hagain⟩⟩⟩

/-! ## Visits on the way -/

theorem Visits.trans {n m k : Nat} {s r q : σ} {t u v : LabelTree α} (h : Visits limit V n s t m r u)
    (h' : Visits limit V m r u k q v) : Visits limit V n s t k q v := by
  induction h with
  | here => exact h'
  | child hpre hsplit hbefore _ ih => exact .child hpre hsplit hbefore (ih h')
  | again hpre hcs hpost _ ih => exact .again hpre hcs hpost (ih h')

/-- Where a visit succeeds, it comes to every child. -/
theorem visits_child {n : Nat} {s s' : σ} {t t' c : LabelTree α} {cs : List (LabelTree α)} (hpre : V.pre s t = .ok (s', t'))
    (hcs : t'.children.mapM (visit limit V n s') = .ok cs) (hc : c ∈ t'.children) : Visits limit V (n + 1) s t n s' c := by
  obtain ⟨before, after, hsplit⟩ := List.append_of_mem hc
  rw [hsplit, ListFacts.mapM_ok_iff] at hcs
  obtain ⟨bs, _, hbs, -⟩ := ListFacts.forall₂_append_iff.1 hcs
  exact .child hpre hsplit ⟨bs, ListFacts.mapM_ok_iff.2 hbs⟩ .here

/-- And all the visits on the way succeed. -/
theorem visits_ok {n m : Nat} {s r : σ} {t u v : LabelTree α} (hv : Visits limit V n s t m r v)
    (h : visit limit V n s t = .ok u) : ∃ w, visit limit V m r v = .ok w := by
  induction hv generalizing u with
  | here => exact ⟨u, h⟩
  | @child n _ s s' _ t t' c _ before after hpre hsplit _ _ ih =>
    rcases visit_succ n s t with ⟨e, -, he⟩ | ⟨_, _, hpre', ⟨e, -, he⟩ | ⟨cs, hcs, -⟩⟩
    · rw [he] at h
      cases h
    · rw [he] at h
      cases h
    · rw [hpre] at hpre'
      cases hpre'
      have hc : c ∈ t'.children := by simp [hsplit]
      obtain ⟨c', -, hcc⟩ := ListFacts.forall₂_mem_left (ListFacts.mapM_ok_iff.1 hcs) hc
      exact ih hcc
  | @again n _ s s' s'' _ t t' v _ cs hpre hcs hpost _ ih =>
    rw [visit, hpre] at h
    change (t'.children.mapM (visit limit V n s') >>= _) = _ at h
    rw [hcs] at h
    change (V.post n s' (.node t'.label cs) >>= _) = _ at h
    rw [hpost] at h
    exact ih h

/-- What holds of every node and what is returned for it, if it holds of its children and the nodes that are come to are
as `C` says. -/
theorem visit_ok_visits {C : σ → LabelTree α → Prop} {Q : σ → LabelTree α → LabelTree α → Prop}
    (hdone : ∀ n s t s' t' cs u, C s t → V.pre s t = .ok (s', t') →
      List.Forall₂ (fun c c' => visit limit V n s' c = .ok c' ∧ Q s' c c') t'.children cs →
      V.post n s' (.node t'.label cs) = .ok (.done u) → Q s t u)
    (hagain : ∀ n s t s' t' cs s'' u r, C s t → V.pre s t = .ok (s', t') →
      List.Forall₂ (fun c c' => visit limit V n s' c = .ok c' ∧ Q s' c c') t'.children cs →
      V.post n s' (.node t'.label cs) = .ok (.again s'' u) → Q s'' u r → Q s t r) :
    ∀ n s t u, (∀ m r v, Visits limit V n s t m r v → C r v) → visit limit V n s t = .ok u → Q s t u
  | 0, s, t, u, _, h => by cases h
  | n + 1, s, t, u, hC, h => by
    have ih := visit_ok_visits hdone hagain n
    have hchildren : ∀ {s' t' cs}, V.pre s t = .ok (s', t') → t'.children.mapM (visit limit V n s') = .ok cs →
        List.Forall₂ (fun c c' => visit limit V n s' c = .ok c' ∧ Q s' c c') t'.children cs := by
      intro s' t' cs hpre hcs
      refine ListFacts.forall₂_of_mem (ListFacts.mapM_ok_iff.1 hcs) fun c hc c' hcc => ⟨hcc, ih s' c c' ?_ hcc⟩
      exact fun m r v hv => hC m r v ((visits_child hpre hcs hc).trans hv)
    rcases visit_succ n s t with ⟨e, -, he⟩ | ⟨s', t', hpre, ⟨e, -, he⟩ | ⟨cs, hcs, ⟨e, -, he⟩ | ⟨v, hpost, hv⟩ | ⟨s'', v, hpost, hv⟩⟩⟩
    · rw [he] at h
      cases h
    · rw [he] at h
      cases h
    · rw [he] at h
      cases h
    · rw [hv] at h
      cases h
      exact hdone n s t s' t' cs u (hC _ _ _ .here) hpre (hchildren hpre hcs) hpost
    · rw [hv] at h
      refine hagain n s t s' t' cs s'' v u (hC _ _ _ .here) hpre (hchildren hpre hcs) hpost (ih s'' v u ?_ h)
      exact fun m r w hw => hC m r w (.again hpre hcs hpost hw)

end Visitor
