import VgiDatafusion.Library.Runs

/-!
# Runs that are not over

Of a program that another party steps, or that breaks off, a part has been run: some questions with their
answers, and the program that is left. A run of the whole is a part with nothing left; what `wp` promises holds of
every part. `Within n` bounds what is still to be asked.
-/
namespace Program

variable {E : Type} {A : E → Type} {σ α β ε : Type}

/-- After the questions of `trace`, `rest` is left of `p`. -/
inductive Asks : Prog E A α → List (Event E A) → Prog E A α → Prop
  | nil (p : Prog E A α) : Asks p [] p
  | call {e : E} {next : A e → Prog E A α} {trace : List (Event E A)} {rest : Prog E A α} (answer : A e)
      (later : Asks (next answer) trace rest) : Asks (.call e next) (⟨e, answer⟩ :: trace) rest

theorem asks_ret {p : Prog E A α} {trace : List (Event E A)} {a : α} : Asks p trace (.ret a) ↔ Runs p trace a := by
  constructor
  · intro h
    generalize hrest : (Prog.ret a : Prog E A α) = rest at h
    induction h with
    | nil p =>
      subst hrest
      exact .ret a
    | call answer later ih => exact .call answer (ih hrest)
  · intro h
    induction h with
    | ret a => exact .nil _
    | call answer rest ih => exact .call answer ih

/-- One more question. -/
theorem Asks.concat {p : Prog E A α} {trace : List (Event E A)} {e : E} {next : A e → Prog E A α}
    (h : Asks p trace (.call e next)) (answer : A e) : Asks p (trace ++ [⟨e, answer⟩]) (next answer) := by
  generalize hrest : (Prog.call e next : Prog E A α) = rest at h
  induction h with
  | nil p =>
    subst hrest
    exact .call answer (.nil _)
  | call answer' later ih => exact .call answer' (ih hrest)

/-- **What `wp` says holds of every part of a run.** -/
theorem wp_asks {P : Protocol E A σ} {p rest : Prog E A α} {s : σ} {Q : α → σ → Prop} (h : wp P.effects p s Q)
    {trace : List (Event E A)} (hasks : Asks p trace rest) (hallows : P.Allows s trace) :
    P.Meets s trace ∧ wp P.effects rest (P.last s trace) Q := by
  induction hasks generalizing s with
  | nil p => exact ⟨trivial, h⟩
  | call answer later ih =>
    obtain ⟨howes, hnext⟩ := h
    obtain ⟨hanswer, hlater⟩ := hallows
    obtain ⟨hmeets, hrest⟩ := ih (hnext answer hanswer) hlater
    exact ⟨⟨howes, hmeets⟩, hrest⟩

/-- A program that owes more owes less. -/
theorem wp_owes {P : Protocol E A σ} {owes : σ → E → Prop} (howes : ∀ s e, P.owes s e → owes s e) {p : Prog E A α} {s : σ}
    {Q : α → σ → Prop} (h : wp P.effects p s Q) : wp ({ P with owes } : Protocol E A σ).effects p s Q := by
  induction p generalizing s with
  | ret a => exact h
  | call e next ih => exact ⟨howes s e h.1, fun answer ha => ih answer (h.2 answer ha)⟩

theorem Protocol.last_owes {P : Protocol E A σ} {owes : σ → E → Prop} (s : σ) (trace : List (Event E A)) :
    ({ P with owes } : Protocol E A σ).last s trace = P.last s trace := by
  induction trace generalizing s with
  | nil => rfl
  | cons event rest ih => exact ih _

theorem Protocol.meets_append {P : Protocol E A σ} {s : σ} {before later : List (Event E A)} :
    P.Meets s (before ++ later) ↔ P.Meets s before ∧ P.Meets (P.last s before) later := by
  induction before generalizing s with
  | nil => simp [Protocol.Meets, Protocol.last]
  | cons event rest ih => simp [Protocol.Meets, Protocol.last, ih, and_assoc]

/-- Where every answer is possible, every trace is allowed. -/
theorem Protocol.allows_of_all {P : Protocol E A σ} (h : ∀ s e answer, P.allows s e answer) (s : σ)
    (trace : List (Event E A)) : P.Allows s trace := by
  induction trace generalizing s with
  | nil => trivial
  | cons event rest ih => exact ⟨h _ _ _, ih _⟩

/-! ## How much is still to be asked -/

def Within : Nat → Prog E A α → Prop
  | _, .ret _ => True
  | 0, .call _ _ => False
  | n + 1, .call _ next => ∀ answer, Within n (next answer)

theorem Within.mono {n m : Nat} {p : Prog E A α} (h : Within n p) (hle : n ≤ m) : Within m p := by
  induction p generalizing n m with
  | ret a => cases m <;> trivial
  | call e next ih =>
    cases n with
    | zero => exact h.elim
    | succ n =>
      cases m with
      | zero => omega
      | succ m => exact fun answer => ih answer (h answer) (by omega)

theorem within_ret (n : Nat) (a : α) : Within n (Prog.ret a : Prog E A α) := by cases n <;> trivial

theorem within_bind {n m : Nat} {p : Prog E A α} {f : α → Prog E A β} (hp : Within n p) (hf : ∀ a, Within m (f a)) :
    Within (n + m) (p >>= f) := by
  change Within (n + m) (p.bind f)
  induction p generalizing n with
  | ret a => exact (hf a).mono (Nat.le_add_left m n)
  | call e next ih =>
    cases n with
    | zero => exact hp.elim
    | succ n =>
      rw [Nat.succ_add]
      exact fun answer => ih answer (hp answer)

theorem within_then {n m : Nat} {p : ExceptT ε (Prog E A) α} {f : α → ExceptT ε (Prog E A) β} (hp : Within n p.run)
    (hf : ∀ a, Within m (f a).run) : Within (n + m) (p >>= f).run := by
  apply within_bind hp
  intro r
  cases r with
  | ok a => exact hf a
  | error e => exact within_ret m _

end Program
