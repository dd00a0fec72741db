/-!
# Computations that leave a trace and may fail

A `Traced` value is a finished run: what it did, in order, and what it returned. A failure keeps what
was done before it, which an exception over a state would lose.
-/

structure Traced (ε α : Type) where
  trace : List ε
  result : Except String α

namespace Traced

variable {ε α β γ : Type}

def tell (effects : List ε) : Traced ε Unit := ⟨effects, .ok ()⟩

def fail (message : String) : Traced ε α := ⟨[], .error message⟩

/-- An answer from outside, with nothing done for it. -/
def lift (answer : Except String α) : Traced ε α := ⟨[], answer⟩

instance : Monad (Traced ε) where
  pure a := ⟨[], .ok a⟩
  bind x f :=
    match x.result with
    | .ok a => ⟨x.trace ++ (f a).trace, (f a).result⟩
    | .error message => ⟨x.trace, .error message⟩

/-! ## Executing one step -/

@[simp] theorem pure_trace (a : α) : (pure a : Traced ε α).trace = [] := rfl

@[simp] theorem pure_result (a : α) : (pure a : Traced ε α).result = .ok a := rfl

theorem pure_bind (a : α) (f : α → Traced ε β) : (pure a >>= f) = f a := by
  show (⟨[] ++ (f a).trace, (f a).result⟩ : Traced ε β) = f a
  rw [List.nil_append]

theorem bind_ok {x : Traced ε α} {a : α} (h : x.result = .ok a) (f : α → Traced ε β) :
    (x >>= f) = ⟨x.trace ++ (f a).trace, (f a).result⟩ := by
  show (match x.result with
    | .ok a => (⟨x.trace ++ (f a).trace, (f a).result⟩ : Traced ε β)
    | .error message => ⟨x.trace, .error message⟩) = _
  rw [h]

theorem bind_error {x : Traced ε α} {message : String} (h : x.result = .error message) (f : α → Traced ε β) :
    (x >>= f) = ⟨x.trace, .error message⟩ := by
  show (match x.result with
    | .ok a => (⟨x.trace ++ (f a).trace, (f a).result⟩ : Traced ε β)
    | .error message => ⟨x.trace, .error message⟩) = _
  rw [h]

theorem tell_bind (effects : List ε) (f : Unit → Traced ε β) :
    (tell effects >>= f) = ⟨effects ++ (f ()).trace, (f ()).result⟩ := bind_ok rfl f

theorem lift_ok_bind (a : α) (f : α → Traced ε β) : (lift (.ok a) >>= f) = f a := pure_bind a f

theorem lift_error_bind (message : String) (f : α → Traced ε β) : (lift (.error message) >>= f) = fail message :=
  bind_error rfl f

/-- A sequence that succeeded ran both of its parts. -/
theorem of_bind_ok {x : Traced ε α} {f : α → Traced ε β} {b : β} (h : (x >>= f).result = .ok b) :
    ∃ a, x.result = .ok a ∧ (f a).result = .ok b ∧ (x >>= f).trace = x.trace ++ (f a).trace := by
  cases hresult : x.result with
  | ok a =>
    rw [bind_ok hresult] at h ⊢
    exact ⟨a, rfl, h, rfl⟩
  | error message =>
    rw [bind_error hresult] at h
    cases h

/-- The effects of a sequence satisfy what those of its two parts satisfy. -/
theorem forall_bind {P : ε → Prop} {x : Traced ε α} {f : α → Traced ε β} (hx : ∀ e ∈ x.trace, P e)
    (hf : ∀ a, x.result = .ok a → ∀ e ∈ (f a).trace, P e) : ∀ e ∈ (x >>= f).trace, P e := by
  intro e he
  cases hresult : x.result with
  | ok a =>
    rw [bind_ok hresult] at he
    rcases List.mem_append.1 he with he | he
    · exact hx e he
    · exact hf a hresult e he
  | error message =>
    rw [bind_error hresult] at he
    exact hx e he

end Traced
