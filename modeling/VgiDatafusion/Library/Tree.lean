import VgiDatafusion.Library.Lists

/-!
# Trees with labels, and visits to them

A node has a label and any number of children, in order. `fold` is recursion over a tree, the children at hand;
`bottomUp` visits the children of a node from left to right and then the node itself, and does not visit what it puts in its
place.
-/

inductive LabelTree (α : Type)
  | node (label : α) (children : List (LabelTree α))

namespace LabelTree

variable {α β : Type}

def label : LabelTree α → α
  | node a _ => a

def children : LabelTree α → List (LabelTree α)
  | node _ cs => cs

@[simp] theorem label_node (a : α) (cs : List (LabelTree α)) : (node a cs).label = a := rfl

@[simp] theorem children_node (a : α) (cs : List (LabelTree α)) : (node a cs).children = cs := rfl

theorem eta (t : LabelTree α) : node t.label t.children = t := by cases t; rfl

/-! ## Recursion and induction -/

mutual

def fold (f : α → List (LabelTree α) → List β → β) : LabelTree α → β
  | node a cs => f a cs (foldAll f cs)

def foldAll (f : α → List (LabelTree α) → List β → β) : List (LabelTree α) → List β
  | [] => []
  | c :: cs => fold f c :: foldAll f cs

end

theorem foldAll_eq (f : α → List (LabelTree α) → List β → β) (cs : List (LabelTree α)) : foldAll f cs = cs.map (fold f) := by
  induction cs with
  | nil => rfl
  | cons c cs ih => rw [foldAll, ih, List.map_cons]

theorem fold_node (f : α → List (LabelTree α) → List β → β) (a : α) (cs : List (LabelTree α)) :
    fold f (node a cs) = f a cs (cs.map (fold f)) := by
  rw [fold, foldAll_eq]

theorem induct {P : LabelTree α → Prop} (h : ∀ a cs, (∀ c ∈ cs, P c) → P (node a cs)) : ∀ t, P t
  | node a cs => h a cs fun c _ => induct h c

/-! ## Height -/

def height : LabelTree α → Nat := fold fun _ _ results => results.foldr max 0 + 1

theorem height_node (a : α) (cs : List (LabelTree α)) : (node a cs).height = (cs.map height).foldr max 0 + 1 := fold_node _ a cs

theorem le_foldr_max {n : Nat} : ∀ {ns : List Nat}, n ∈ ns → n ≤ ns.foldr max 0
  | m :: ns, h => by
    rw [List.foldr_cons]
    rcases List.mem_cons.1 h with rfl | h
    · exact Nat.le_max_left ..
    · exact Nat.le_trans (le_foldr_max h) (Nat.le_max_right ..)

theorem height_lt {a : α} {c : LabelTree α} {cs : List (LabelTree α)} (hc : c ∈ cs) : c.height < (node a cs).height := by
  rw [height_node]
  exact Nat.lt_succ_of_le (le_foldr_max (List.mem_map_of_mem hc))

/-! ## Subtrees -/

inductive Subtree (s : LabelTree α) : LabelTree α → Prop
  | refl : Subtree s s
  | child {a : α} {c : LabelTree α} {cs : List (LabelTree α)} (hmem : c ∈ cs) (hsub : Subtree s c) : Subtree s (node a cs)

/-- The tree itself and all its subtrees. -/
def Everywhere (P : LabelTree α → Prop) (t : LabelTree α) : Prop := ∀ s, Subtree s t → P s

theorem everywhere_node {P : LabelTree α → Prop} {a : α} {cs : List (LabelTree α)} :
    Everywhere P (node a cs) ↔ P (node a cs) ∧ ∀ c ∈ cs, Everywhere P c := by
  constructor
  · exact fun h => ⟨h _ .refl, fun c hc s hs => h s (.child hc hs)⟩
  · rintro ⟨hroot, hchildren⟩ s hs
    cases hs with
    | refl => exact hroot
    | child hmem hsub => exact hchildren _ hmem s hsub

theorem Everywhere.root {P : LabelTree α → Prop} {t : LabelTree α} (h : Everywhere P t) : P t := h t .refl

theorem Everywhere.child {P : LabelTree α → Prop} {a : α} {cs : List (LabelTree α)} (h : Everywhere P (node a cs)) {c : LabelTree α}
    (hc : c ∈ cs) : Everywhere P c := (everywhere_node.1 h).2 c hc

theorem Everywhere.mono {P Q : LabelTree α → Prop} (h : ∀ t, P t → Q t) {t : LabelTree α} (ht : Everywhere P t) : Everywhere Q t :=
  fun s hs => h s (ht s hs)

/-! ## Visits -/

def bottomUp (post : LabelTree α → LabelTree α) : LabelTree α → LabelTree α := fold fun a _ results => post (node a results)

theorem bottomUp_node (post : LabelTree α → LabelTree α) (a : α) (cs : List (LabelTree α)) :
    bottomUp post (node a cs) = post (node a (cs.map (bottomUp post))) := fold_node _ a cs

end LabelTree
