/-!
# Three-valued logic

Kleene's strong connectives, and the one fact a filter needs about each of them: when the result
is TRUE. A filter keeps a row only on TRUE, so `unknown` and `no` are told apart by nothing here
except the connectives themselves.
-/
namespace Kleene

inductive Tri
  | yes | no | unknown
  deriving DecidableEq, Repr

namespace Tri

def ofBool : Bool → Tri
  | true => yes
  | false => no

def and : Tri → Tri → Tri
  | no, _ | _, no => no
  | yes, yes => yes
  | _, _ => unknown

def or : Tri → Tri → Tri
  | yes, _ | _, yes => yes
  | no, no => no
  | _, _ => unknown

def not : Tri → Tri
  | yes => no
  | no => yes
  | unknown => unknown

/-- Disjunction of a list: `no` when it is empty. -/
def any : List Tri → Tri
  | [] => no
  | t :: ts => or t (any ts)

@[simp] theorem ofBool_eq_yes {b : Bool} : ofBool b = yes ↔ b = true := by cases b <;> simp [ofBool]

@[simp] theorem and_eq_yes {s t : Tri} : and s t = yes ↔ s = yes ∧ t = yes := by
  cases s <;> cases t <;> simp [and]

@[simp] theorem or_eq_yes {s t : Tri} : or s t = yes ↔ s = yes ∨ t = yes := by
  cases s <;> cases t <;> simp [or]

@[simp] theorem any_eq_yes {ts : List Tri} : any ts = yes ↔ yes ∈ ts := by
  induction ts with
  | nil => simp [any]
  | cons t ts ih => rw [any, or_eq_yes, ih, List.mem_cons, eq_comm]

end Tri
end Kleene
