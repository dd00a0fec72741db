import Mathlib.Data.List.Forall2
import VgiDatafusion.Library.Program

/-!
# Runs of programs that ask their surroundings

A run of a program is the questions it asked, each with its answer, and what it returned. A `Protocol` says
which answers are possible in a state that the questions move, and what the program owes with a question.
`wp` over a protocol then speaks of every run the protocol allows (`wp_runs`). `execute` is the run against
one way to answer.
-/
namespace Program

variable {E : Type} {A : E → Type} {σ α β γ ε : Type}

/-- A question with its answer. -/
abbrev Event (E : Type) (A : E → Type) : Type := (e : E) × A e

inductive Runs : Prog E A α → List (Event E A) → α → Prop
  | ret (a : α) : Runs (.ret a) [] a
  | call {e : E} {next : A e → Prog E A α} {trace : List (Event E A)} {a : α} (answer : A e)
      (rest : Runs (next answer) trace a) : Runs (.call e next) (⟨e, answer⟩ :: trace) a

/-- A run of a sequence is a run of its first part and then one of its second. -/
theorem runs_bind {p : Prog E A α} {f : α → Prog E A β} {trace : List (Event E A)} {b : β} :
    Runs (p >>= f) trace b ↔
      ∃ before a later, trace = before ++ later ∧ Runs p before a ∧ Runs (f a) later b := by
  change Runs (p.bind f) trace b ↔ _
  induction p generalizing trace with
  | ret a =>
    constructor
    · intro h
      exact ⟨[], a, trace, rfl, .ret a, h⟩
    · rintro ⟨before, a', later, rfl, hfirst, hlast⟩
      cases hfirst
      exact hlast
  | call e next ih =>
    constructor
    · intro h
      cases h with
      | call answer hrest =>
        obtain ⟨before, a, later, rfl, hfirst, hlast⟩ := (ih answer).1 hrest
        exact ⟨⟨e, answer⟩ :: before, a, later, rfl, .call answer hfirst, hlast⟩
    · rintro ⟨before, a, later, rfl, hfirst, hlast⟩
      cases hfirst with
      | call answer hrest => exact .call answer ((ih answer).2 ⟨_, a, later, rfl, hrest, hlast⟩)

/-! ## Protocols -/

structure Protocol (E : Type) (A : E → Type) (σ : Type) where
  /-- The answers that may come. -/
  allows : σ → (e : E) → A e → Prop
  /-- What must hold when the question is asked. -/
  owes : σ → E → Prop
  after : σ → (e : E) → A e → σ

namespace Protocol

variable (P : Protocol E A σ)

def effects : Effects E A σ where
  holds e s Q := P.owes s e ∧ ∀ answer, P.allows s e answer → Q answer (P.after s e answer)
  mono := fun hQ h => ⟨h.1, fun answer ha => hQ answer _ (h.2 answer ha)⟩

def Allows : σ → List (Event E A) → Prop
  | _, [] => True
  | s, ⟨e, answer⟩ :: rest => P.allows s e answer ∧ Allows (P.after s e answer) rest

def Meets : σ → List (Event E A) → Prop
  | _, [] => True
  | s, ⟨e, answer⟩ :: rest => P.owes s e ∧ Meets (P.after s e answer) rest

def last : σ → List (Event E A) → σ
  | s, [] => s
  | s, ⟨e, answer⟩ :: rest => last (P.after s e answer) rest

end Protocol

variable {P : Protocol E A σ}

/-- **What `wp` says, every run does.** -/
theorem wp_runs {p : Prog E A α} {s : σ} {Q : α → σ → Prop} (h : wp P.effects p s Q) {trace : List (Event E A)}
    {a : α} (hrun : Runs p trace a) (hallows : P.Allows s trace) : P.Meets s trace ∧ Q a (P.last s trace) := by
  induction hrun generalizing s with
  | ret a => exact ⟨trivial, h⟩
  | call answer rest ih =>
    obtain ⟨howes, hnext⟩ := h
    obtain ⟨hanswer, hlater⟩ := hallows
    obtain ⟨hmeets, hQ⟩ := ih (hnext answer hanswer) hlater
    exact ⟨⟨howes, hmeets⟩, hQ⟩

/-- What the program owes at one of its questions. -/
theorem Protocol.Meets.getElem? {s : σ} {events : List (Event E A)} (h : P.Meets s events) {j : Nat} {e : E}
    {answer : A e} (hj : events[j]? = some ⟨e, answer⟩) : P.owes (P.last s (events.take j)) e := by
  induction events generalizing s j with
  | nil => simp at hj
  | cons event rest ih =>
    obtain ⟨e', answer'⟩ := event
    cases j with
    | zero =>
      cases hj
      exact h.1
    | succ j => exact ih h.2 hj

/-! ## The run against one way to answer -/

section
variable (after : σ → (e : E) → A e → σ) (respond : σ → (e : E) → A e)

def execute : Prog E A α → σ → List (Event E A) × α
  | .ret a, _ => ([], a)
  | .call e next, s =>
    let answer := respond s e
    let rest := execute (next answer) (after s e answer)
    (⟨e, answer⟩ :: rest.1, rest.2)

theorem runs_execute (p : Prog E A α) (s : σ) :
    Runs p (execute after respond p s).1 (execute after respond p s).2 := by
  induction p generalizing s with
  | ret a => exact .ret a
  | call e next ih => exact .call (respond s e) (ih _ _)

/-- Every answer in it was given by `respond`. -/
theorem mem_execute {p : Prog E A α} {s : σ} {e : E} {answer : A e} (h : ⟨e, answer⟩ ∈ (execute after respond p s).1) :
    ∃ s', answer = respond s' e := by
  induction p generalizing s with
  | ret a => cases h
  | call e' next ih =>
    rcases List.mem_cons.1 h with heq | hrest
    · cases heq
      exact ⟨s, rfl⟩
    · exact ih _ hrest

end

/-- It is allowed if every answer is, in the states that keep `I`. -/
theorem allows_execute_of_inv {respond : σ → (e : E) → A e} {I : σ → Prop}
    (h : ∀ s e, I s → P.allows s e (respond s e) ∧ I (P.after s e (respond s e))) (p : Prog E A α) {s : σ} (hs : I s) :
    P.Allows s (execute P.after respond p s).1 := by
  induction p generalizing s with
  | ret a => trivial
  | call e next ih =>
    obtain ⟨hanswer, hnext⟩ := h s e hs
    exact ⟨hanswer, ih _ hnext⟩

theorem allows_execute {respond : σ → (e : E) → A e} (h : ∀ s e, P.allows s e (respond s e)) (p : Prog E A α) (s : σ) :
    P.Allows s (execute P.after respond p s).1 :=
  allows_execute_of_inv (I := fun _ => True) (fun s e _ => ⟨h s e, trivial⟩) p trivial

/-! ## A run that is allowed -/

theorem Protocol.allows_append {s : σ} {before later : List (Event E A)} :
    P.Allows s (before ++ later) ↔ P.Allows s before ∧ P.Allows (P.last s before) later := by
  induction before generalizing s with
  | nil => simp [Protocol.Allows, Protocol.last]
  | cons event rest ih => simp [Protocol.Allows, Protocol.last, ih, and_assoc]

theorem Protocol.last_append {s : σ} {before later : List (Event E A)} :
    P.last s (before ++ later) = P.last (P.last s before) later := by
  induction before generalizing s with
  | nil => rfl
  | cons event rest ih => exact ih

/-- There is a run that is allowed and ends so. -/
def Reaches (P : Protocol E A σ) (p : Prog E A α) (s : σ) (a : α) (s' : σ) : Prop :=
  ∃ trace, Runs p trace a ∧ P.Allows s trace ∧ P.last s trace = s'

theorem reaches_bind {p : Prog E A α} {f : α → Prog E A β} {s s' s'' : σ} {a : α} {b : β} (hp : Reaches P p s a s')
    (hf : Reaches P (f a) s' b s'') : Reaches P (p >>= f) s b s'' := by
  obtain ⟨before, hbefore, hallows, rfl⟩ := hp
  obtain ⟨later, hlater, hallows', rfl⟩ := hf
  exact ⟨before ++ later, runs_bind.2 ⟨before, a, later, rfl, hbefore, hlater⟩,
    Protocol.allows_append.2 ⟨hallows, hallows'⟩, Protocol.last_append⟩

theorem reaches_then {p : ExceptT ε (Prog E A) α} {f : α → ExceptT ε (Prog E A) β} {s s' s'' : σ} {a : α} {r : Except ε β}
    (hp : Reaches P p.run s (.ok a) s') (hf : Reaches P (f a).run s' r s'') : Reaches P (p >>= f).run s r s'' :=
  reaches_bind hp hf

theorem reaches_pure {s : σ} {a : α} : Reaches P (pure a : ExceptT ε (Prog E A) α).run s (.ok a) s :=
  ⟨[], .ret _, trivial, rfl⟩

theorem reaches_ask {e : E} {s : σ} (answer : A e) (h : P.allows s e answer) :
    Reaches P (ExceptT.lift (Prog.ask e) : ExceptT ε (Prog E A) (A e)).run s (.ok answer) (P.after s e answer) :=
  ⟨[⟨e, answer⟩], .call answer (.ret _), ⟨h, trivial⟩, rfl⟩

theorem reaches_liftExcept {s : σ} {r : Except ε α} {a : α} (h : r = .ok a) :
    Reaches P (liftExcept r : ExceptT ε (Prog E A) α).run s (.ok a) s := by
  subst h
  exact reaches_pure

/-- A pass each step of which ends where it began. -/
theorem reaches_mapM' {f : α → ExceptT ε (Prog E A) β} {s : σ} {xs : List α} {ys : List β}
    (h : List.Forall₂ (fun x y => Reaches P (f x).run s (.ok y) s) xs ys) : Reaches P (xs.mapM' f).run s (.ok ys) s := by
  induction h with
  | nil => exact reaches_pure
  | cons hx _ ih =>
    apply reaches_then hx
    apply reaches_then ih
    exact reaches_pure

/-- What the first part ends with is what the second starts from. -/
theorem wpOk_then {S : Effects E A σ} {p : ExceptT ε (Prog E A) α} {f : α → ExceptT ε (Prog E A) β} {s : σ}
    {Q : α → σ → Prop} {Q' : β → σ → Prop} (hp : wpOk S p s Q) (hf : ∀ a s', Q a s' → wpOk S (f a) s' Q') :
    wpOk S (p >>= f) s Q' :=
  wpOk_bind (wpOk_mono hf hp)

/-- A question that moves nothing, and whose answer says nothing. -/
theorem wpOk_quietly {e : E} {p : A e → ExceptT ε (Prog E A) β} {s : σ} {Q : β → σ → Prop} (howes : P.owes s e)
    (hafter : ∀ answer, P.after s e answer = s) (h : ∀ answer, wpOk P.effects (p answer) s Q) :
    wpOk P.effects (ExceptT.lift (Prog.ask e) >>= p) s Q := by
  apply wpOk_bind
  apply wpOk_ask
  refine ⟨howes, ?_⟩
  intro answer _
  rw [hafter]
  exact h answer

/-! ## Passes that relate each element to what became of it -/

/-- `R` held of what the pass starts from, `R'` holds of what it ends with. -/
theorem wpOk_mapM'_forall₂ {S : Effects E A σ} {f : β → ExceptT ε (Prog E A) γ} {I : σ → Prop} {R : α → β → Prop}
    {R' : α → γ → Prop} {xs : List α} {ys : List β} (hR : List.Forall₂ R xs ys)
    (hf : ∀ x ∈ xs, ∀ y, R x y → ∀ s, I s → wpOk S (f y) s fun z s' => I s' ∧ R' x z) {s : σ} (hs : I s) :
    wpOk S (ys.mapM' f) s fun zs s' => I s' ∧ List.Forall₂ R' xs zs := by
  induction hR generalizing s with
  | nil => exact wpOk_pure ⟨hs, .nil⟩
  | @cons x y xs ys hxy _ ih =>
    apply wpOk_bind
    refine wpOk_mono ?_ (hf x List.mem_cons_self y hxy s hs)
    rintro z s' ⟨hs', hxz⟩
    apply wpOk_bind
    refine wpOk_mono ?_ (ih (fun x' hx' => hf x' (List.mem_cons_of_mem _ hx')) hs')
    rintro zs s'' ⟨hs'', hall⟩
    exact wpOk_pure ⟨hs'', .cons hxz hall⟩

/-- A pass whose steps need nothing of the state. -/
theorem wpOk_pass {S : Effects E A σ} {f : β → ExceptT ε (Prog E A) γ} {R : α → β → Prop} {R' : α → γ → Prop}
    {xs : List α} {ys : List β} (hR : List.Forall₂ R xs ys)
    (hf : ∀ x ∈ xs, ∀ y, R x y → ∀ s, wpOk S (f y) s fun z _ => R' x z) {s : σ} :
    wpOk S (ys.mapM' f) s fun zs _ => List.Forall₂ R' xs zs := by
  refine wpOk_mono (fun _ _ h => h.2) (wpOk_mapM'_forall₂ (I := fun _ => True) hR ?_ trivial)
  intro x hx y hxy s _
  exact wpOk_mono (fun _ _ h => ⟨trivial, h⟩) (hf x hx y hxy s)

/-- A pass with an accumulator. -/
theorem wpOk_foldlM {S : Effects E A σ} {f : β → α → ExceptT ε (Prog E A) β} {I : σ → Prop} :
    ∀ {xs : List α}, (∀ x ∈ xs, ∀ b s, I s → wpOk S (f b x) s fun _ s' => I s') → ∀ {b : β} {s : σ}, I s →
      wpOk S (xs.foldlM f b) s fun _ s' => I s'
  | [], _, _, _, hs => wpOk_pure hs
  | x :: xs, hf, b, s, hs => by
    apply wpOk_bind
    refine wpOk_mono ?_ (hf x List.mem_cons_self b s hs)
    intro b' s' hs'
    exact wpOk_foldlM (fun y hy => hf y (List.mem_cons_of_mem _ hy)) hs'

theorem wpOk_liftExcept {S : Effects E A σ} {r : Except ε α} {s : σ} {Q : α → σ → Prop} (h : ∀ a, r = .ok a → Q a s) :
    wpOk S (liftExcept r : ExceptT ε (Prog E A) α) s Q := by
  cases r with
  | ok a => exact wpOk_pure (h a rfl)
  | error e => exact wpOk_throw

/-- A result that is looked at. -/
theorem wpOk_captured {S : Effects E A σ} {p : ExceptT ε (Prog E A) α} {s : σ} {Q : Except ε α → σ → Prop}
    (h : wp S p.run s Q) : wpOk S (ExceptT.lift p.run : ExceptT ε (Prog E A) (Except ε α)) s Q := by
  apply wp_bind
  refine wp_mono ?_ h
  rintro r s' hr a ⟨⟩
  exact hr

/-! ## Programs whose failures are spoken of too -/

/-- `Q` where the program returns, `F` where it fails. -/
def wpBoth (S : Effects E A σ) (p : ExceptT ε (Prog E A) α) (s : σ) (Q : α → σ → Prop) (F : ε → σ → Prop) : Prop :=
  wp S p.run s fun r s' =>
    match r with
    | .ok a => Q a s'
    | .error e => F e s'

section
variable {S : Effects E A σ} {p : ExceptT ε (Prog E A) α} {s : σ} {F F' : ε → σ → Prop}

theorem wpBoth_pure {a : α} {Q : α → σ → Prop} (h : Q a s) : wpBoth S (pure a : ExceptT ε (Prog E A) α) s Q F := h

theorem wpBoth_throw {e : ε} {Q : α → σ → Prop} (h : F e s) :
    wpBoth S (throw e : ExceptT ε (Prog E A) α) s Q F := h

theorem wpBoth_mono {Q Q' : α → σ → Prop} (hQ : ∀ a s', Q a s' → Q' a s') (hF : ∀ e s', F e s' → F' e s')
    (h : wpBoth S p s Q F) : wpBoth S p s Q' F' := by
  refine wp_mono ?_ h
  intro r s' hr
  cases r with
  | ok a => exact hQ a s' hr
  | error e => exact hF e s' hr

theorem wpBoth_bind {f : α → ExceptT ε (Prog E A) β} {Q : β → σ → Prop}
    (h : wpBoth S p s (fun a s' => wpBoth S (f a) s' Q F) F) : wpBoth S (p >>= f) s Q F := by
  apply wp_bind
  refine wp_mono ?_ h
  intro r s' hr
  cases r with
  | ok a => exact hr
  | error e => exact hr

theorem wpBoth_then {f : α → ExceptT ε (Prog E A) β} {Q : α → σ → Prop} {Q' : β → σ → Prop} (hp : wpBoth S p s Q F')
    (hF : ∀ e s', F' e s' → F e s') (hf : ∀ a s', Q a s' → wpBoth S (f a) s' Q' F) : wpBoth S (p >>= f) s Q' F :=
  wpBoth_bind (wpBoth_mono hf hF hp)

theorem wpBoth_ask {e : E} {Q : A e → σ → Prop} (h : S.holds e s Q) :
    wpBoth S (ExceptT.lift (Prog.ask e) : ExceptT ε (Prog E A) (A e)) s Q F :=
  S.mono (fun _ _ ha => ha) h

theorem wpBoth_liftExcept {r : Except ε α} {Q : α → σ → Prop} (hQ : ∀ a, r = .ok a → Q a s)
    (hF : ∀ e, r = .error e → F e s) : wpBoth S (liftExcept r : ExceptT ε (Prog E A) α) s Q F := by
  cases r with
  | ok a => exact hQ a rfl
  | error e => exact hF e rfl

/-- A result that is looked at: the whole does not fail here. -/
theorem wpBoth_captured {Q : Except ε α → σ → Prop} (h : wpBoth S p s (fun a => Q (.ok a)) fun e => Q (.error e)) :
    wpBoth S (ExceptT.lift p.run : ExceptT ε (Prog E A) (Except ε α)) s Q F := by
  apply wp_bind
  refine wp_mono ?_ h
  intro r s' hr
  cases r with
  | ok a => exact hr
  | error e => exact hr

theorem wpOk_of_wpBoth {Q : α → σ → Prop} (h : wpBoth S p s Q F) : wpOk S p s Q := by
  refine wp_mono ?_ h
  rintro r s' hr a rfl
  exact hr

/-- A pass that keeps `I` as long as no step fails. -/
theorem wpBoth_mapM' {f : α → ExceptT ε (Prog E A) β} {I : σ → Prop}
    (hf : ∀ x s, I s → wpBoth S (f x) s (fun _ s' => I s') F) :
    ∀ (xs : List α) {s : σ}, I s → wpBoth S (xs.mapM' f) s (fun _ s' => I s') F
  | [], _, h => wpBoth_pure h
  | x :: xs, s, h => by
    apply wpBoth_then (hf x s h) (fun _ _ he => he)
    intro y s' hy
    apply wpBoth_then (wpBoth_mapM' hf xs hy) (fun _ _ he => he)
    intro ys s'' hys
    exact wpBoth_pure hys

end

end Program
