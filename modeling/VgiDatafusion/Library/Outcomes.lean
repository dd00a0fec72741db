import VgiDatafusion.Library.Lists

/-!
# Computations that may fail, compared

`Follows` compares two outcomes: the second is what the first is, up to a relation between the values, unless the first is
an error that excuses everything (a limit reached). `Guarded` compares a computation with the same one without its guards,
and says when a guard stops it. The rules of both go through the steps of two computations side by side.
-/

/-! ## Successes and errors -/

theorem except_of_map_ok {ε α β : Type} {x : Except ε α} {f : α → β} {b : β} (h : x.map f = .ok b) :
    ∃ a, x = .ok a ∧ f a = b := by
  cases x with
  | error e => cases h
  | ok a =>
    cases h
    exact ⟨a, rfl, rfl⟩

theorem except_of_mapError_ok {ε δ α : Type} {x : Except ε α} {f : ε → δ} {a : α} (h : x.mapError f = .ok a) : x = .ok a := by
  cases x with
  | error e => cases h
  | ok b =>
    cases h
    rfl

/-- A sequence of two fails in one of them. -/
theorem except_of_bind_error {ε α β : Type} {x : Except ε α} {f : α → Except ε β} {e : ε} (h : x >>= f = .error e) :
    x = .error e ∨ ∃ a, x = .ok a ∧ f a = .error e := by
  cases x with
  | error e' =>
    cases h
    exact .inl rfl
  | ok a => exact .inr ⟨a, rfl, h⟩

/-! ## Comparison -/

def Follows {ε α β : Type} (excused : ε → Prop) (R : α → β → Prop) (r : Except ε α) (r' : Except ε β) : Prop :=
  match r with
  | .error e => excused e ∨ r' = .error e
  | .ok a => ∃ b, r' = .ok b ∧ R a b

namespace Follows

variable {ε α β γ δ : Type} {excused : ε → Prop} {R : α → β → Prop} {S : γ → δ → Prop}

theorem ok {a : α} {b : β} (h : R a b) : Follows excused R (.ok a) (.ok b) := ⟨b, rfl, h⟩

theorem error (e : ε) : Follows excused R (.error e) (.error e) := .inr rfl

theorem refl (r : Except ε α) : Follows excused Eq r r := by
  cases r with
  | error e => exact .inr rfl
  | ok a => exact ⟨a, rfl, rfl⟩

theorem mono {R' : α → β → Prop} {r : Except ε α} {r' : Except ε β} (h : Follows excused R r r')
    (hR : ∀ a b, r = .ok a → R a b → R' a b) : Follows excused R' r r' := by
  cases r with
  | error e => exact h
  | ok a =>
    obtain ⟨b, hb, hab⟩ := h
    exact ⟨b, hb, hR a b rfl hab⟩

/-- With nothing but equality, the outcomes are equal unless they are excused. -/
theorem eq_iff {r r' : Except ε α} : Follows excused Eq r r' ↔ (∃ e, r = .error e ∧ excused e) ∨ r' = r := by
  cases r with
  | error e =>
    constructor
    · rintro (h | h)
      · exact .inl ⟨e, rfl, h⟩
      · exact .inr h
    · rintro (⟨_, ⟨⟩, h⟩ | h)
      · exact .inl h
      · exact .inr h
  | ok a =>
    constructor
    · rintro ⟨b, hb, rfl⟩
      exact .inr hb
    · rintro (⟨_, h, -⟩ | h)
      · cases h
      · exact ⟨a, h, rfl⟩

theorem bind {r : Except ε α} {r' : Except ε β} {f : α → Except ε γ} {g : β → Except ε δ} (h : Follows excused R r r')
    (hfg : ∀ a b, r = .ok a → R a b → Follows excused S (f a) (g b)) : Follows excused S (r >>= f) (r' >>= g) := by
  cases r with
  | error e =>
    rcases h with h | rfl
    · exact .inl h
    · exact .inr rfl
  | ok a =>
    obtain ⟨b, rfl, hab⟩ := h
    exact hfg a b rfl hab

theorem map {r : Except ε α} {r' : Except ε β} {f : α → γ} {g : β → δ} (h : Follows excused R r r')
    (hfg : ∀ a b, R a b → S (f a) (g b)) : Follows excused S (r.map f) (r'.map g) := by
  cases r with
  | error e =>
    rcases h with h | rfl
    · exact .inl h
    · exact .inr rfl
  | ok a =>
    obtain ⟨b, rfl, hab⟩ := h
    exact ⟨g b, rfl, hfg a b hab⟩

theorem mapM {f : α → Except ε γ} {g : β → Except ε δ} {as : List α} {bs : List β}
    (h : List.Forall₂ (fun a b => Follows excused S (f a) (g b)) as bs) :
    Follows excused (List.Forall₂ S) (as.mapM f) (bs.mapM g) := by
  induction h with
  | nil => exact ok .nil
  | cons hab _ ih =>
    rw [List.mapM_cons, List.mapM_cons]
    exact hab.bind fun c d _ hcd => ih.bind fun cs ds _ hcds => ok (.cons hcd hcds)

theorem foldlM {f : γ → α → Except ε γ} {g : δ → β → Except ε δ}
    (hstep : ∀ c d a b, S c d → R a b → Follows excused S (f c a) (g d b)) {as : List α} {bs : List β}
    (h : List.Forall₂ R as bs) : ∀ {c d}, S c d → Follows excused S (as.foldlM f c) (bs.foldlM g d) := by
  induction h with
  | nil => exact fun hcd => ok hcd
  | cons hab _ ih =>
    intro c d hcd
    rw [List.foldlM_cons, List.foldlM_cons]
    exact (hstep c d _ _ hcd hab).bind fun c' d' _ hcd' => ih hcd'

end Follows

/-! ## Guards -/

/-- The first computation is the second one with guards, whose errors are `stop`; one of them holds it up exactly if
`stopped`. -/
def Guarded {ε α : Type} (stop : ε → Prop) (stopped : Prop) (r r' : Except ε α) : Prop :=
  (stopped ∧ ∃ e, stop e ∧ r = .error e) ∨ (¬stopped ∧ r = r' ∧ ∀ e, r' = .error e → ¬stop e)

namespace Guarded

variable {ε α β : Type} {stop : ε → Prop} {p p' : Prop}

theorem congr {r r' : Except ε α} (h : Guarded stop p r r') (hp : p' ↔ p) : Guarded stop p' r r' := by
  unfold Guarded
  rw [hp]
  exact h

theorem ok (a : α) : Guarded stop False (.ok a) (.ok a) := .inr ⟨id, rfl, fun e he => by cases he⟩

theorem error {e : ε} (h : ¬stop e) : Guarded stop False (.error e : Except ε α) (.error e) :=
  .inr ⟨id, rfl, fun e' he => by cases he; exact h⟩

theorem stopped_iff {r r' : Except ε α} (h : Guarded stop p r r') : p ↔ ∃ e, stop e ∧ r = .error e := by
  rcases h with ⟨hp, hstop⟩ | ⟨hp, rfl, hnever⟩
  · exact ⟨fun _ => hstop, fun _ => hp⟩
  · constructor
    · exact fun h => absurd h hp
    · rintro ⟨e, hstop, he⟩
      exact absurd hstop (hnever e he)

theorem bind {r r' : Except ε α} {f g : α → Except ε β} {q : α → Prop} (h : Guarded stop p r r')
    (hfg : ∀ a, r' = .ok a → Guarded stop (q a) (f a) (g a)) :
    Guarded stop (p ∨ ∃ a, r' = .ok a ∧ q a) (r >>= f) (r' >>= g) := by
  rcases h with ⟨hp, e, hstop, rfl⟩ | ⟨hp, rfl, hnever⟩
  · exact .inl ⟨.inl hp, e, hstop, rfl⟩
  · cases r with
    | error e =>
      refine .inr ⟨?_, rfl, fun e' he => by cases he; exact hnever e rfl⟩
      rintro (h | ⟨a, ha, -⟩)
      · exact hp h
      · cases ha
    | ok a =>
      rcases hfg a rfl with ⟨hq, e, hstop, he⟩ | ⟨hq, hsame, hnever'⟩
      · exact .inl ⟨.inr ⟨a, rfl, hq⟩, e, hstop, he⟩
      · refine .inr ⟨?_, hsame, hnever'⟩
        rintro (h | ⟨a', ha', hq'⟩)
        · exact hp h
        · cases ha'
          exact hq hq'

/-- The elements of a list are gone through as far as the second computation succeeds. -/
theorem mapM {f g : α → Except ε β} {q : α → Prop} : ∀ {as : List α}, (∀ a ∈ as, Guarded stop (q a) (f a) (g a)) →
    Guarded stop (∃ before a after, as = before ++ a :: after ∧ (∃ bs, before.mapM g = .ok bs) ∧ q a) (as.mapM f) (as.mapM g)
  | [], _ => by
    refine (ok []).congr ⟨?_, False.elim⟩
    rintro ⟨before, a, after, h, -⟩
    cases before <;> cases h
  | a :: as, h => by
    rw [List.mapM_cons, List.mapM_cons]
    have hrest := mapM fun b hb => h b (List.mem_cons_of_mem _ hb)
    refine ((h a List.mem_cons_self).bind fun b _ => hrest.bind fun bs _ => ok (b :: bs)).congr ?_
    constructor
    · rintro ⟨before, c, after, hsplit, ⟨bs, hbs⟩, hc⟩
      cases before with
      | nil =>
        cases hsplit
        exact .inl hc
      | cons d before =>
        cases hsplit
        obtain ⟨b, bs', hb, hbs', rfl⟩ := List.forall₂_cons_left_iff.1 (ListFacts.mapM_ok_iff.1 hbs)
        exact .inr ⟨b, hb, .inl ⟨before, c, after, rfl, ⟨bs', ListFacts.mapM_ok_iff.2 hbs'⟩, hc⟩⟩
    · rintro (ha | ⟨b, hb, ⟨before, c, after, rfl, ⟨bs, hbs⟩, hc⟩ | ⟨bs, -, ⟨⟩⟩⟩)
      · exact ⟨[], a, as, rfl, ⟨[], rfl⟩, ha⟩
      · refine ⟨a :: before, c, after, rfl, ⟨b :: bs, ?_⟩, hc⟩
        rw [List.mapM_cons, hb, hbs]
        rfl

end Guarded
