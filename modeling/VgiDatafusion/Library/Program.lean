import Mathlib.Algebra.GroupWithZero.Nat

/-!
# Programs that ask their surroundings

A program is a tree: it returns, or asks something and goes on with the answer. `wp` folds a
specification of the questions over it, with a ghost state that the questions move; a run of the program
then carries `wp` of what is left of it along (`wp_call`). Programs that may fail stop at the first error,
and `wpOk` says what holds where they do not.
-/
namespace Program

inductive Prog (E : Type) (A : E → Type) (α : Type) : Type
  | ret (a : α)
  | call (e : E) (next : A e → Prog E A α)

variable {E : Type} {A : E → Type} {σ α β ε : Type}

namespace Prog

def bind : Prog E A α → (α → Prog E A β) → Prog E A β
  | .ret a, f => f a
  | .call e next, f => .call e fun answer => (next answer).bind f

instance : Monad (Prog E A) where
  pure := .ret
  bind := bind

/-- One question. -/
def ask (e : E) : Prog E A (A e) := .call e .ret

end Prog

/-- What a question may do to the ghost state, for every answer. -/
structure Effects (E : Type) (A : E → Type) (σ : Type) where
  holds : (e : E) → σ → (A e → σ → Prop) → Prop
  mono : ∀ {e s} {Q Q' : A e → σ → Prop}, (∀ a s', Q a s' → Q' a s') → holds e s Q → holds e s Q'

variable (S : Effects E A σ)

def wp : Prog E A α → σ → (α → σ → Prop) → Prop
  | .ret a, s, Q => Q a s
  | .call e next, s, Q => S.holds e s fun answer s' => wp (next answer) s' Q

variable {S}

theorem wp_mono {p : Prog E A α} {s : σ} {Q Q' : α → σ → Prop} (hQ : ∀ a s', Q a s' → Q' a s') (h : wp S p s Q) :
    wp S p s Q' := by
  induction p generalizing s with
  | ret a => exact hQ a s h
  | call e next ih => exact S.mono (fun answer s' hnext => ih answer hnext) h

theorem wp_bind {p : Prog E A α} {f : α → Prog E A β} {s : σ} {Q : β → σ → Prop}
    (h : wp S p s fun a s' => wp S (f a) s' Q) : wp S (p >>= f) s Q := by
  show wp S (p.bind f) s Q
  induction p generalizing s with
  | ret a => exact h
  | call e next ih => exact S.mono (fun answer s' hnext => ih answer hnext) h

/-! ## Programs that may fail -/

/-- Nothing is asked of a run that fails. -/
def wpOk (S : Effects E A σ) (p : ExceptT ε (Prog E A) α) (s : σ) (Q : α → σ → Prop) : Prop :=
  wp S p.run s fun r s' => ∀ a, r = .ok a → Q a s'

theorem wpOk_pure {a : α} {s : σ} {Q : α → σ → Prop} (h : Q a s) : wpOk S (pure a : ExceptT ε (Prog E A) α) s Q := by
  rintro b ⟨⟩
  exact h

theorem wpOk_throw {e : ε} {s : σ} {Q : α → σ → Prop} : wpOk S (throw e : ExceptT ε (Prog E A) α) s Q := by
  rintro b ⟨⟩

theorem wpOk_mono {p : ExceptT ε (Prog E A) α} {s : σ} {Q Q' : α → σ → Prop} (hQ : ∀ a s', Q a s' → Q' a s')
    (h : wpOk S p s Q) : wpOk S p s Q' :=
  wp_mono (fun _ s' hr a ha => hQ a s' (hr a ha)) h

theorem wpOk_bind {p : ExceptT ε (Prog E A) α} {f : α → ExceptT ε (Prog E A) β} {s : σ} {Q : β → σ → Prop}
    (h : wpOk S p s fun a s' => wpOk S (f a) s' Q) : wpOk S (p >>= f) s Q := by
  apply wp_bind
  refine wp_mono ?_ h
  intro r s' hr
  cases r with
  | ok a => exact hr a rfl
  | error e =>
    rintro b ⟨⟩

theorem wpOk_ask {e : E} {s : σ} {Q : A e → σ → Prop} (h : S.holds e s Q) :
    wpOk S (ExceptT.lift (Prog.ask e) : ExceptT ε (Prog E A) (A e)) s Q := by
  refine S.mono ?_ h
  rintro a s' ha b ⟨⟩
  exact ha

/-- A pass over a list keeps what each step keeps. -/
theorem wpOk_mapM' {f : α → ExceptT ε (Prog E A) β} {Inv : σ → Prop}
    (hf : ∀ x s, Inv s → wpOk S (f x) s fun _ s' => Inv s') :
    ∀ (xs : List α) {s : σ}, Inv s → wpOk S (xs.mapM' f) s fun _ s' => Inv s'
  | [], s, h => wpOk_pure h
  | x :: xs, s, h => by
    apply wpOk_bind
    refine wpOk_mono ?_ (hf x s h)
    intro y s' hy
    apply wpOk_bind
    refine wpOk_mono ?_ (wpOk_mapM' hf xs hy)
    intro ys s'' hys
    exact wpOk_pure hys

/-! ## Programs that leave the ghost state alone -/

/-- Whatever is answered, and whether it fails or not. -/
def Silent (S : Effects E A σ) (p : ExceptT ε (Prog E A) α) : Prop :=
  ∀ (s : σ) (Q : Except ε α → σ → Prop), (∀ r, Q r s) → wp S p.run s Q

theorem silent_pure {a : α} : Silent S (pure a : ExceptT ε (Prog E A) α) := fun _ _ hQ => hQ (.ok a)

theorem silent_throw {e : ε} : Silent S (throw e : ExceptT ε (Prog E A) α) := fun _ _ hQ => hQ (.error e)

theorem silent_liftExcept (r : Except ε α) : Silent S (liftExcept r : ExceptT ε (Prog E A) α) := by
  cases r with
  | ok a => exact silent_pure
  | error e => exact silent_throw

theorem silent_bind {p : ExceptT ε (Prog E A) α} {f : α → ExceptT ε (Prog E A) β} (hp : Silent S p)
    (hf : ∀ a, Silent S (f a)) : Silent S (p >>= f) := by
  intro s Q hQ
  apply wp_bind
  apply hp
  intro r
  cases r with
  | ok a => exact hf a s Q hQ
  | error e => exact hQ (.error e)

theorem silent_ask {e : E} (h : ∀ (s : σ) (Q : A e → σ → Prop), (∀ a, Q a s) → S.holds e s Q) :
    Silent S (ExceptT.lift (Prog.ask e) : ExceptT ε (Prog E A) (A e)) :=
  fun s _ hQ => h s _ fun a => hQ (.ok a)

/-- A failure that is looked at. -/
theorem silent_captured {p : ExceptT ε (Prog E A) α} (hp : Silent S p) :
    Silent S (ExceptT.lift p.run : ExceptT ε (Prog E A) (Except ε α)) := by
  intro s Q hQ
  apply wp_bind
  exact hp s _ fun r => hQ (.ok r)

theorem silent_mapM' {f : α → ExceptT ε (Prog E A) β} (hf : ∀ x, Silent S (f x)) :
    ∀ xs : List α, Silent S (xs.mapM' f)
  | [] => silent_pure
  | x :: xs => silent_bind (hf x) fun _ => silent_bind (silent_mapM' hf xs) fun _ => silent_pure

theorem silent_foldlM {f : β → α → ExceptT ε (Prog E A) β} (hf : ∀ b x, Silent S (f b x)) :
    ∀ (xs : List α) (b : β), Silent S (xs.foldlM f b)
  | [], _ => silent_pure
  | x :: xs, b => silent_bind (hf b x) fun b' => silent_foldlM hf xs b'

theorem wpOk_silent {p : ExceptT ε (Prog E A) α} {s : σ} {Q : α → σ → Prop} (hp : Silent S p) (hQ : ∀ a, Q a s) :
    wpOk S p s Q := by
  apply hp
  intro r a _
  exact hQ a

theorem wpOk_silent_bind {p : ExceptT ε (Prog E A) α} {f : α → ExceptT ε (Prog E A) β} {s : σ} {Q : β → σ → Prop}
    (hp : Silent S p) (hf : ∀ a, wpOk S (f a) s Q) : wpOk S (p >>= f) s Q :=
  wpOk_bind (wpOk_silent hp hf)

end Program
