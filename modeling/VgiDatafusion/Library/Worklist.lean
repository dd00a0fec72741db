import Mathlib.Logic.Hydra

/-!
# A queue that is worked off breadth first

Every item has a level. Visiting an item may change a state, fail, or put further items, one level up, at the end of the
queue; an item above the limit is not visited. However many items a visit adds, the queue runs empty: the items that
are left, counted from the limit down, lose one head and grow lower ones.
-/
namespace Worklist

variable {σ ε β : Type}

/-- How far the items of a queue are from the limit. -/
def heads (limit : Nat) (queue : List (β × Nat)) : Multiset Nat := queue.map fun item => limit + 1 - item.2

theorem cutExpand_heads (limit : Nat) (item : β) {level : Nat} (hlevel : level ≤ limit) (rest : List (β × Nat))
    (children : List β) :
    Relation.CutExpand (· < ·) (heads limit (rest ++ children.map (·, level + 1))) (heads limit ((item, level) :: rest)) := by
  refine ⟨heads limit (children.map (·, level + 1)), limit + 1 - level, ?_, ?_⟩
  · intro head hhead
    simp only [heads, Multiset.mem_coe, List.mem_map, exists_exists_and_eq_and] at hhead
    obtain ⟨_, _, rfl⟩ := hhead
    omega
  · simp only [heads, List.map_append, List.map_cons, ← Multiset.coe_add, ← Multiset.cons_coe, ← Multiset.singleton_add]
    ac_rfl

theorem cutExpand_heads_rest (limit : Nat) (item : β × Nat) (rest : List (β × Nat)) :
    Relation.CutExpand (· < ·) (heads limit rest) (heads limit (item :: rest)) := by
  refine ⟨0, limit + 1 - item.2, by simp, ?_⟩
  simp only [heads, List.map_cons, ← Multiset.cons_coe, ← Multiset.singleton_add]
  ac_rfl

local instance multisetRelation : WellFoundedRelation (Multiset Nat) := ⟨Relation.CutExpand (· < ·), Nat.lt_wfRel.wf.cutExpand⟩

/-- The first failure ends it; what was done before it stays. -/
def exhaust (limit : Nat) (tooDeep : β → Except ε Unit) (visit : β → σ → Except ε (List β) × σ) :
    List (β × Nat) → σ → Except ε Unit × σ
  | [], s => (.ok (), s)
  | (item, level) :: rest, s =>
    if _hlevel : limit < level then
      match tooDeep item with
      | .error e => (.error e, s)
      | .ok () => exhaust limit tooDeep visit rest s
    else match visit item s with
      | (.error e, s) => (.error e, s)
      | (.ok children, s) => exhaust limit tooDeep visit (rest ++ children.map (·, level + 1)) s
termination_by queue => heads limit queue
decreasing_by
  · exact cutExpand_heads_rest limit _ rest
  · exact cutExpand_heads limit item (by omega) rest children

section
variable {limit : Nat} {tooDeep : β → Except ε Unit} {visit : β → σ → Except ε (List β) × σ}

@[simp] theorem exhaust_nil (s : σ) : exhaust limit tooDeep visit [] s = (.ok (), s) := by rw [exhaust]

theorem exhaust_cons {item : β} {level : Nat} {rest : List (β × Nat)} {s : σ} (hlevel : level ≤ limit) :
    exhaust limit tooDeep visit ((item, level) :: rest) s =
      match visit item s with
      | (.error e, s) => (.error e, s)
      | (.ok children, s) => exhaust limit tooDeep visit (rest ++ children.map (·, level + 1)) s := by
  rw [exhaust, dif_neg (by omega)]

/-- What every visit keeps, the whole queue keeps, however it ends; the items may be known to be of some kind. -/
theorem exhaust_invariant (Inv : σ → Prop) (Item : β → Prop) (hvisit : ∀ item s, Item item → Inv s → Inv (visit item s).2)
    (hchildren : ∀ item s children, Item item → (visit item s).1 = .ok children → ∀ child ∈ children, Item child)
    (queue : List (β × Nat)) (s : σ) (hqueue : ∀ entry ∈ queue, Item entry.1) (hs : Inv s) :
    Inv (exhaust limit tooDeep visit queue s).2 := by
  fun_induction exhaust limit tooDeep visit queue s with
  | case1 s => exact hs
  | case2 => exact hs
  | case3 _ _ _ _ _ _ ih => exact ih (fun entry hentry => hqueue entry (List.mem_cons_of_mem _ hentry)) hs
  | case4 item level rest s _ e s' hv =>
    have hnext := hvisit item s (hqueue (item, level) List.mem_cons_self) hs
    rw [hv] at hnext
    exact hnext
  | case5 item level rest s _ children s' hv ih =>
    have hitem : Item item := hqueue (item, level) List.mem_cons_self
    have hnext := hvisit item s hitem hs
    rw [hv] at hnext
    refine ih (fun entry hentry => ?_) hnext
    rcases List.mem_append.1 hentry with hrest | hnew
    · exact hqueue entry (List.mem_cons_of_mem _ hrest)
    · obtain ⟨child, hchild, rfl⟩ := List.mem_map.1 hnew
      exact hchildren item s children hitem (by rw [hv]) child hchild

/-- The same where nothing is to be known of the items. -/
theorem exhaust_keeps (Inv : σ → Prop) (hvisit : ∀ item s, Inv s → Inv (visit item s).2) (queue : List (β × Nat)) (s : σ)
    (hs : Inv s) : Inv (exhaust limit tooDeep visit queue s).2 :=
  exhaust_invariant Inv (fun _ => True) (fun item s _ => hvisit item s) (fun _ _ _ _ _ _ _ => trivial) queue s
    (fun _ _ => trivial) hs

end

/-! ## Turn by turn -/

/-- One turn of the loop: the item whose turn it is, and the state before. -/
structure Turn (β σ : Type) where
  item : β
  level : Nat
  state : σ

section
variable (limit : Nat) (tooDeep : β → Except ε Unit) (visit : β → σ → Except ε (List β) × σ)

/-- The turns in order, up to the first that fails. -/
def turns : List (β × Nat) → σ → List (Turn β σ)
  | [], _ => []
  | (item, level) :: rest, s =>
    ⟨item, level, s⟩ ::
      if _hlevel : limit < level then
        match tooDeep item with
        | .error _ => []
        | .ok () => turns rest s
      else match visit item s with
        | (.error _, _) => []
        | (.ok children, s) => turns (rest ++ children.map (·, level + 1)) s
termination_by queue => heads limit queue
decreasing_by
  · exact cutExpand_heads_rest limit _ rest
  · exact cutExpand_heads limit item (by omega) rest children

/-- One turn as a step from queue and state to queue and state. -/
inductive Step : List (β × Nat) × σ → List (β × Nat) × σ → Prop
  | dropped {item : β} {level : Nat} {rest : List (β × Nat)} {s : σ} (hlevel : limit < level)
      (hdeep : tooDeep item = .ok ()) : Step ((item, level) :: rest, s) (rest, s)
  | visited {item : β} {level : Nat} {rest : List (β × Nat)} {children : List β} {s s' : σ} (hlevel : level ≤ limit)
      (hvisit : visit item s = (.ok children, s')) :
      Step ((item, level) :: rest, s) (rest ++ children.map (·, level + 1), s')

/-- There is no endless sequence of turns. -/
theorem wellFounded_step : WellFounded fun next now => Step limit tooDeep visit now next := by
  have hheads : WellFounded fun next now : List (β × Nat) × σ =>
      Relation.CutExpand (· < ·) (heads limit next.1) (heads limit now.1) :=
    InvImage.wf (fun now : List (β × Nat) × σ => heads limit now.1) Nat.lt_wfRel.wf.cutExpand
  refine Subrelation.wf (fun hstep => ?_) hheads
  cases hstep with
  | dropped => exact cutExpand_heads_rest limit _ _
  | visited hlevel => exact cutExpand_heads limit _ hlevel _ _

end

section
variable {limit : Nat} {tooDeep : β → Except ε Unit} {visit : β → σ → Except ε (List β) × σ}

/-- What each visit adds to a fact about the state, the whole queue adds. -/
theorem exhaust_iff {P : σ → Prop} {Q : β → σ → Prop} (hvisit : ∀ item s, P (visit item s).2 ↔ P s ∧ Q item s)
    (queue : List (β × Nat)) (s : σ) : P (exhaust limit tooDeep visit queue s).2 ↔
      P s ∧ ∀ turn ∈ turns limit tooDeep visit queue s, turn.level ≤ limit → Q turn.item turn.state := by
  fun_induction exhaust limit tooDeep visit queue s with
  | case1 s => simp [turns]
  | case2 item level rest s hlevel e he => simp [turns, hlevel, he]
  | case3 item level rest s hlevel he ih => simp [turns, hlevel, he, ih]
  | case4 item level rest s hlevel e s' hv =>
    have hstep := hvisit item s
    rw [hv] at hstep
    simp [turns, hlevel, hv, hstep, Nat.le_of_not_lt hlevel]
  | case5 item level rest s hlevel children s' hv ih =>
    have hstep := hvisit item s
    rw [hv] at hstep
    rw [ih, hstep]
    simp [turns, hlevel, hv, Nat.le_of_not_lt hlevel, and_assoc]

/-- Of the kind of the queue, if what visits add is of that kind too. -/
theorem turns_forall (Item : β → Prop)
    (hchildren : ∀ item s children, Item item → (visit item s).1 = .ok children → ∀ child ∈ children, Item child)
    (queue : List (β × Nat)) (s : σ) (hqueue : ∀ entry ∈ queue, Item entry.1) :
    ∀ turn ∈ turns limit tooDeep visit queue s, Item turn.item := by
  fun_induction exhaust limit tooDeep visit queue s with
  | case1 s => simp [turns]
  | case2 item level rest s hlevel e he => simpa [turns, hlevel, he] using hqueue (item, level) List.mem_cons_self
  | case3 item level rest s hlevel he ih =>
    intro turn hturn
    rw [turns, dif_pos hlevel, he] at hturn
    rcases List.mem_cons.1 hturn with rfl | hturn
    · exact hqueue (item, level) List.mem_cons_self
    · exact ih (fun entry hentry => hqueue entry (List.mem_cons_of_mem _ hentry)) turn hturn
  | case4 item level rest s hlevel e s' hv => simpa [turns, hlevel, hv] using hqueue (item, level) List.mem_cons_self
  | case5 item level rest s hlevel children s' hv ih =>
    have hitem : Item item := hqueue (item, level) List.mem_cons_self
    intro turn hturn
    rw [turns, dif_neg hlevel, hv] at hturn
    rcases List.mem_cons.1 hturn with rfl | hturn
    · exact hitem
    · refine ih (fun entry hentry => ?_) turn hturn
      rcases List.mem_append.1 hentry with hrest | hnew
      · exact hqueue entry (List.mem_cons_of_mem _ hrest)
      · obtain ⟨child, hchild, rfl⟩ := List.mem_map.1 hnew
        exact hchildren item s children hitem (by rw [hv]) child hchild

/-- Every item of the queue has its turn. -/
def Covers (queue : List (β × Nat)) (turns : List (Turn β σ)) : Prop :=
  ∀ entry ∈ queue, ∃ turn ∈ turns, turn.item = entry.1 ∧ turn.level = entry.2

/-- So has every item that a visit adds. -/
def Continues (limit : Nat) (visit : β → σ → Except ε (List β) × σ) (turns : List (Turn β σ)) : Prop :=
  ∀ turn ∈ turns, turn.level ≤ limit → ∃ children, (visit turn.item turn.state).1 = .ok children ∧
    Covers (children.map (·, turn.level + 1)) turns

theorem Covers.cons {queue : List (β × Nat)} {ts : List (Turn β σ)} (h : Covers queue ts) (turn : Turn β σ) :
    Covers queue (turn :: ts) := by
  intro entry hentry
  obtain ⟨t, ht, hsame⟩ := h entry hentry
  exact ⟨t, List.mem_cons_of_mem turn ht, hsame⟩

/-- A queue that is worked off without a failure leaves nothing out. -/
theorem turns_complete (queue : List (β × Nat)) (s : σ) (h : (exhaust limit tooDeep visit queue s).1 = .ok ()) :
    Covers queue (turns limit tooDeep visit queue s) ∧ Continues limit visit (turns limit tooDeep visit queue s) := by
  fun_induction exhaust limit tooDeep visit queue s with
  | case1 s => simp [turns, Covers, Continues]
  | case2 => cases h
  | case3 item level rest s hlevel he ih =>
    obtain ⟨hcovers, hcontinues⟩ := ih h
    have hturns : turns limit tooDeep visit ((item, level) :: rest) s =
        ⟨item, level, s⟩ :: turns limit tooDeep visit rest s := by
      rw [turns, dif_pos hlevel, he]
    rw [hturns]
    constructor
    · intro entry hentry
      rcases List.mem_cons.1 hentry with rfl | hentry
      · exact ⟨_, List.mem_cons_self, rfl, rfl⟩
      · exact hcovers.cons _ entry hentry
    · intro turn hturn hle
      rcases List.mem_cons.1 hturn with rfl | hturn
      · exact absurd hle (Nat.not_le_of_lt hlevel)
      · obtain ⟨children, hchildren, hcovered⟩ := hcontinues turn hturn hle
        exact ⟨children, hchildren, hcovered.cons _⟩
  | case4 => cases h
  | case5 item level rest s hlevel children s' hv ih =>
    obtain ⟨hcovers, hcontinues⟩ := ih h
    have hturns : turns limit tooDeep visit ((item, level) :: rest) s =
        ⟨item, level, s⟩ :: turns limit tooDeep visit (rest ++ children.map (·, level + 1)) s' := by
      rw [turns, dif_neg hlevel, hv]
    rw [hturns]
    constructor
    · intro entry hentry
      rcases List.mem_cons.1 hentry with rfl | hentry
      · exact ⟨_, List.mem_cons_self, rfl, rfl⟩
      · exact hcovers.cons _ entry (List.mem_append_left _ hentry)
    · intro turn hturn hle
      rcases List.mem_cons.1 hturn with rfl | hturn
      · refine ⟨children, by rw [hv], fun entry hentry => ?_⟩
        exact hcovers.cons _ entry (List.mem_append_right _ hentry)
      · obtain ⟨children', hchildren, hcovered⟩ := hcontinues turn hturn hle
        exact ⟨children', hchildren, hcovered.cons _⟩

/-- The queue is worked off exactly if no turn fails. -/
theorem exhaust_ok_iff (queue : List (β × Nat)) (s : σ) : (exhaust limit tooDeep visit queue s).1 = .ok () ↔
    ∀ turn ∈ turns limit tooDeep visit queue s,
      (limit < turn.level → tooDeep turn.item = .ok ()) ∧
      (turn.level ≤ limit → ∃ children, (visit turn.item turn.state).1 = .ok children) := by
  fun_induction exhaust limit tooDeep visit queue s with
  | case1 s => simp [turns]
  | case2 item level rest s hlevel e he => simp [turns, hlevel, he]
  | case3 item level rest s hlevel he ih => simp [turns, hlevel, he, ih, Nat.not_le_of_lt hlevel]
  | case4 item level rest s hlevel e s' hv => simp [turns, hlevel, hv, Nat.le_of_not_lt hlevel]
  | case5 item level rest s hlevel children s' hv ih => simp [turns, hlevel, hv, ih, Nat.le_of_not_lt hlevel]

/-- What a visit achieves stays, if no visit undoes it. -/
theorem exhaust_achieves {P : σ → Prop} (hkeeps : ∀ item s, P s → P (visit item s).2) (queue : List (β × Nat)) (s : σ) :
    ∀ turn ∈ turns limit tooDeep visit queue s, turn.level ≤ limit → P (visit turn.item turn.state).2 →
      P (exhaust limit tooDeep visit queue s).2 := by
  fun_induction exhaust limit tooDeep visit queue s with
  | case1 s => simp [turns]
  | case2 item level rest s hlevel e he => simp [turns, hlevel, he, Nat.not_le_of_lt hlevel]
  | case3 item level rest s hlevel he ih => simpa [turns, hlevel, he, Nat.not_le_of_lt hlevel] using ih
  | case4 item level rest s hlevel e s' hv => simp [turns, hlevel, hv]
  | case5 item level rest s hlevel children s' hv ih =>
    intro turn hturn hle hP
    rw [turns, dif_neg hlevel, hv] at hturn
    rcases List.mem_cons.1 hturn with rfl | hturn
    · rw [hv] at hP
      exact exhaust_keeps P hkeeps _ _ hP
    · exact ih turn hturn hle hP

end

end Worklist
