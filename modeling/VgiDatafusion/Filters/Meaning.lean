import VgiDatafusion.Filters.Pushdown

/-!
# What one call of the builder does to its state, and what the node it returns means

The references of a node are positions in lists that keep growing and are cut back after a failed
branch. Three facts carry every proof about the translation:

* `Grows`: no call changes what was already there; a rollback returns to it exactly.
* `Spec.InRange` with `eval_of_grows`: a node whose references are in range keeps its meaning in
  every later state.
* `Means`: the node is in range and TRUE exactly where a given proposition about the row holds.
  `membership_means`, `comparisonLeaf_means` and `nullLeaf_means` are the leaves; the front ends
  combine them in `Exact.lean` and `Sound.lean`.
-/
namespace VgiDatafusion

open Kleene

variable {V : Type} (K : Kernel V) {schema remote : Schema}

/-! ## Growth and rollback -/

/-- `b'` holds everything `b` holds, at the same positions. -/
structure Builder.Grows (b b' : Builder V) : Prop where
  constants : b.constants <+: b'.constants
  referencedColumns : b.referencedColumns <+: b'.referencedColumns
  joinKeys : b.joinKeys <+: b'.joinKeys

namespace Builder.Grows

theorem refl (b : Builder V) : b.Grows b := ⟨List.prefix_rfl, List.prefix_rfl, List.prefix_rfl⟩

theorem trans {b c d : Builder V} (h : b.Grows c) (h' : c.Grows d) : b.Grows d :=
  ⟨h.constants.trans h'.constants, h.referencedColumns.trans h'.referencedColumns, h.joinKeys.trans h'.joinKeys⟩

/-- Rolling back to a checkpoint restores the state it was taken in. -/
theorem rollback {b c : Builder V} (h : b.Grows c) : c.rollback b.checkpoint = b := by
  obtain ⟨h1, h2, h3⟩ := h
  simp [Builder.rollback, Builder.checkpoint, ListFacts.initial_take h1, ListFacts.initial_take h2,
    ListFacts.initial_take h3]

end Builder.Grows

theorem remoteColumn_grows (schema remote : Schema) (b : Builder V) (name : String) :
    b.Grows (remoteColumn schema remote b name).2 := by
  unfold remoteColumn
  split
  · exact .refl b
  · split
    · exact .refl b
    · dsimp only
      split
      · exact .refl b
      · exact ⟨List.prefix_rfl, List.prefix_append _ _, List.prefix_rfl⟩

theorem membership_grows (b : Builder V) (name : String) (values : List (ScalarValue V)) :
    b.Grows (membership K schema remote b name values).2 := by
  unfold membership
  split
  · exact .refl b
  · have hb := remoteColumn_grows schema remote b name
    split
    · rename_i b' heq; rwa [heq] at hb
    · rename_i column b' heq
      rw [heq] at hb
      split
      · exact hb
      · exact hb.trans ⟨List.prefix_rfl, List.prefix_rfl, List.prefix_append _ _⟩

theorem comparisonLeaf_grows (b : Builder V) (name : String) (value : ScalarValue V) (op : Operator) :
    b.Grows (comparisonLeaf schema remote b name value op).2 := by
  have hb := remoteColumn_grows schema remote b name
  unfold comparisonLeaf
  split
  · rename_i b' heq; rwa [heq] at hb
  · rename_i column b' heq
    rw [heq] at hb
    split
    · exact hb.trans ⟨List.prefix_append _ _, List.prefix_rfl, List.prefix_rfl⟩
    · exact hb

theorem nullLeaf_grows (b : Builder V) (name : Option String) (negated : Bool) :
    b.Grows (nullLeaf schema remote b name negated).2 := by
  unfold nullLeaf
  split
  · exact .refl b
  · rename_i name
    have hb := remoteColumn_grows schema remote b name
    split
    · rename_i b' heq; rwa [heq] at hb
    · rename_i column b' heq; rwa [heq] at hb

/-! ## References in range -/

/-- Every `value_ref` and `batch_index` below points into the builder's lists. -/
def Spec.InRange (b : Builder V) : Spec → Prop
  | .comparison _ _ valueRef => valueRef < b.constants.length
  | .isNull _ _ => True
  | .inSet _ set _ => set.batchIndex < b.joinKeys.length
  | .and l r | .or l r => l.InRange b ∧ r.InRange b

/-- The node as the worker evaluates it against the builder's lists. -/
def Spec.denote (read : ColumnRef → ScalarValue V) (b : Builder V) (spec : Spec) : Tri :=
  spec.eval K read b.constants b.joinKeys

theorem Spec.InRange.mono {b b' : Builder V} (hb : b.Grows b') : ∀ {spec : Spec}, spec.InRange b → spec.InRange b'
  | .comparison _ _ _, h => Nat.lt_of_lt_of_le h hb.constants.length_le
  | .isNull _ _, _ => trivial
  | .inSet _ _ _, h => Nat.lt_of_lt_of_le h hb.joinKeys.length_le
  | .and _ _, h | .or _ _, h => ⟨h.1.mono hb, h.2.mono hb⟩

/-- Growing the lists does not change the meaning of a node already in range. -/
theorem denote_of_grows {b b' : Builder V} (hb : b.Grows b') (read : ColumnRef → ScalarValue V) :
    ∀ {spec : Spec}, spec.InRange b → spec.denote K read b' = spec.denote K read b
  | .comparison op left valueRef, h => by
    have hc := List.getElem?_eq_getElem (l := b.constants) h
    simp [Spec.denote, Spec.eval, hc, ListFacts.initial_getElem? hb.constants hc]
  | .isNull _ _, _ => rfl
  | .inSet column set negated, h => by
    have hk := List.getElem?_eq_getElem (l := b.joinKeys) h
    simp [Spec.denote, Spec.eval, hk, ListFacts.initial_getElem? hb.joinKeys hk]
  | .and l r, h => by
    have hl := denote_of_grows hb read h.1
    have hr := denote_of_grows hb read h.2
    simp only [Spec.denote, Spec.eval] at hl hr ⊢
    rw [hl, hr]
  | .or l r, h => by
    have hl := denote_of_grows hb read h.1
    have hr := denote_of_grows hb read h.2
    simp only [Spec.denote, Spec.eval] at hl hr ⊢
    rw [hl, hr]

/-! ## Meaning -/

/-- `spec` is in range and TRUE for the worker exactly when `P` holds. -/
structure Means (read : ColumnRef → ScalarValue V) (b : Builder V) (spec : Spec) (P : Prop) : Prop where
  inRange : spec.InRange b
  denote : spec.denote K read b = .yes ↔ P

/-- The direction pushdown safety needs: nothing `P` accepts is refused. -/
structure Covers (read : ColumnRef → ScalarValue V) (b : Builder V) (spec : Spec) (P : Prop) : Prop where
  inRange : spec.InRange b
  denote : P → spec.denote K read b = .yes

variable {K} {read : ColumnRef → ScalarValue V} {b b' : Builder V} {spec l r : Spec} {P Q : Prop}

theorem Means.covers (h : Means K read b spec P) : Covers K read b spec P := ⟨h.inRange, h.denote.2⟩

theorem Means.mono (hb : b.Grows b') (h : Means K read b spec P) : Means K read b' spec P :=
  ⟨h.inRange.mono hb, by rw [denote_of_grows K hb read h.inRange]; exact h.denote⟩

theorem Means.congr (hPQ : P ↔ Q) (h : Means K read b spec P) : Means K read b spec Q :=
  ⟨h.inRange, h.denote.trans hPQ⟩

theorem Means.and (hl : Means K read b l P) (hr : Means K read b r Q) : Means K read b (.and l r) (P ∧ Q) := by
  refine ⟨⟨hl.inRange, hr.inRange⟩, ?_⟩
  have h1 := hl.denote
  have h2 := hr.denote
  simp only [Spec.denote, Spec.eval, Tri.and_eq_yes] at h1 h2 ⊢
  rw [h1, h2]

theorem Means.or (hl : Means K read b l P) (hr : Means K read b r Q) : Means K read b (.or l r) (P ∨ Q) := by
  refine ⟨⟨hl.inRange, hr.inRange⟩, ?_⟩
  have h1 := hl.denote
  have h2 := hr.denote
  simp only [Spec.denote, Spec.eval, Tri.or_eq_yes] at h1 h2 ⊢
  rw [h1, h2]

theorem Covers.mono (hb : b.Grows b') (h : Covers K read b spec P) : Covers K read b' spec P :=
  ⟨h.inRange.mono hb, fun hp => by rw [denote_of_grows K hb read h.inRange]; exact h.denote hp⟩

theorem Covers.weaken (hPQ : P → Q) (h : Covers K read b spec Q) : Covers K read b spec P :=
  ⟨h.inRange, fun hp => h.denote (hPQ hp)⟩

theorem Covers.and (hl : Covers K read b l P) (hr : Covers K read b r Q) : Covers K read b (.and l r) (P ∧ Q) := by
  refine ⟨⟨hl.inRange, hr.inRange⟩, fun ⟨hp, hq⟩ => ?_⟩
  have h1 := hl.denote hp
  have h2 := hr.denote hq
  simp only [Spec.denote] at h1 h2
  simp [Spec.denote, Spec.eval, h1, h2]

theorem Covers.or (hl : Covers K read b l P) (hr : Covers K read b r Q) : Covers K read b (.or l r) (P ∨ Q) := by
  refine ⟨⟨hl.inRange, hr.inRange⟩, fun h => ?_⟩
  rcases h with hp | hq
  · have h1 := hl.denote hp
    simp only [Spec.denote] at h1
    simp [Spec.denote, Spec.eval, h1]
  · have h2 := hr.denote hq
    simp only [Spec.denote] at h2
    simp [Spec.denote, Spec.eval, h2]

/-! ## The leaves -/

section
variable (K) {row : Row V schema} (hread : Resolves remote row read)
include hread

/-- A resolved reference reads the public column. -/
theorem remoteColumn_read {name : String} {column : ColumnRef}
    (h : remoteColumn schema remote b name = (some column, b')) :
    read column = row.column name ∧ b'.constants = b.constants ∧ b'.joinKeys = b.joinKeys := by
  unfold remoteColumn at h
  split at h
  · simp at h
  · rename_i index hindex
    split at h
    · simp at h
    · rename_i field hfield
      simp only [Prod.mk.injEq, Option.some.injEq] at h
      obtain ⟨rfl, rfl⟩ := h
      refine ⟨hread _ _ _ hfield (row.column_of_indexOf hindex), ?_, ?_⟩ <;> split <;> rfl

theorem membership_means {name : String} {values : List (ScalarValue V)}
    (h : membership K schema remote b name values = (some spec, b')) :
    (∀ v ∈ values, v.isNull = false ∧ ∃ ty payload, v = .atom ty payload) ∧
      Means K read b' spec (∃ v ∈ values, K.compare .eq (row.column name) v = .yes) := by
  unfold membership at h
  split at h
  · simp at h
  · rename_i hconstants
    simp only [Bool.or_eq_true, List.any_eq_true, not_or, not_exists, not_and, Option.isNone_iff_eq_none] at hconstants
    have hatoms : ∀ v ∈ values, v.isNull = false ∧ ∃ ty payload, v = .atom ty payload := by
      intro v hv
      obtain ⟨c, hc⟩ := Option.ne_none_iff_exists'.1 (hconstants.2 v hv)
      exact (Constant.fromScalar_spec hc).2
    refine ⟨hatoms, ?_⟩
    split at h
    · simp at h
    · rename_i column b₁ hcolumn
      obtain ⟨hcell, -, -⟩ := remoteColumn_read hread hcolumn
      split at h
      · simp at h
      · rename_i keys hkeys
        simp only [joinKeysIpc, Option.map_eq_some_iff] at hkeys
        obtain ⟨array, harray, rfl⟩ := hkeys
        obtain rfl := K.iterToArray_values harray
        simp only [Prod.mk.injEq, Option.some.injEq] at h
        obtain ⟨rfl, rfl⟩ := h
        refine ⟨by simp [Spec.InRange], ?_⟩
        simp only [Spec.denote, Spec.eval, List.getElem?_concat_length, if_true, hcell, Kernel.inList_eq_yes]
        refine exists_congr fun v => and_congr_right fun hv => ?_
        obtain ⟨-, ty, payload, rfl⟩ := hatoms v hv
        rw [Kernel.member_atom]

theorem comparisonLeaf_means {name : String} {value : ScalarValue V} {op : Operator}
    (h : comparisonLeaf schema remote b name value op = (some spec, b')) :
    ∃ token, op = .cmp token ∧ Means K read b' spec (K.compare token (row.column name) value = .yes) := by
  unfold comparisonLeaf at h
  split at h
  · simp at h
  · rename_i column b₁ hcolumn
    obtain ⟨hcell, -, -⟩ := remoteColumn_read hread hcolumn
    split at h
    · rename_i token constant htoken hconstant
      simp only [Prod.mk.injEq, Option.some.injEq] at h
      obtain ⟨rfl, rfl⟩ := h
      obtain ⟨rfl, -, -⟩ := Constant.fromScalar_spec hconstant
      have hop : op = .cmp token := by
        cases op <;> simp [opToken] at htoken
        rw [htoken]
      exact ⟨token, hop, by simp [Spec.InRange], by simp [Spec.denote, Spec.eval, hcell]⟩
    · simp at h

theorem nullLeaf_means {name : Option String} {negated : Bool}
    (h : nullLeaf schema remote b name negated = (some spec, b')) :
    ∃ n, name = some n ∧ Means K read b' spec (((row.column n).isNull != negated) = true) := by
  unfold nullLeaf at h
  split at h
  · simp at h
  · rename_i n
    split at h
    · simp at h
    · rename_i column b₁ hcolumn
      obtain ⟨hcell, -, -⟩ := remoteColumn_read hread hcolumn
      simp only [Prod.mk.injEq, Option.some.injEq] at h
      obtain ⟨rfl, rfl⟩ := h
      exact ⟨n, rfl, trivial, by simp [Spec.denote, Spec.eval, hcell]⟩

end

/-! ## Operands

Both front ends read an operand as a column or as a literal and then go through the same two
matches; `x` and `y` stand for the values of the two operands on the row. -/

section
variable (K) {row : Row V schema} {x y : ScalarValue V} {lc rc : Option String} {ll rl : Option (ScalarValue V)}
  (hlc : ∀ {n}, lc = some n → x = row.column n) (hrl : ∀ {v}, rl = some v → y = v)
  (hll : ∀ {v}, ll = some v → x = v) (hrc : ∀ {n}, rc = some n → y = row.column n)
include hlc hrl hll hrc

/-- An oriented comparison has the value of the original one, flipped or not. -/
theorem orient_compare {op : Operator} {name : String} {value : ScalarValue V} {token : Comparison}
    (h : orient lc rl ll rc op = some (name, value, .cmp token)) :
    ∃ c, op = .cmp c ∧ K.compare token (row.column name) value = K.compare c x y := by
  unfold orient at h
  split at h
  · rename_i n v
    simp only [Option.some.injEq, Prod.mk.injEq] at h
    obtain ⟨rfl, rfl, rfl⟩ := h
    exact ⟨token, rfl, by rw [hlc rfl, hrl rfl]⟩
  · split at h
    · rename_i v n _
      simp only [Option.map_eq_some_iff, Prod.mk.injEq] at h
      obtain ⟨flipped, hflip, rfl, rfl, rfl⟩ := h
      cases op with
      | cmp c =>
        simp only [flip, Option.some.injEq, Operator.cmp.injEq] at hflip
        subst hflip
        exact ⟨c, rfl, by rw [hll rfl, hrc rfl, K.compare_mirror]⟩
      | and | or | other _ => simp [flip] at hflip
    · cases h

theorem equalityTerm_compare {term : String × ScalarValue V} (h : equalityTerm lc rl ll rc = some term) :
    K.compare .eq (row.column term.1) term.2 = K.compare .eq x y := by
  unfold equalityTerm at h
  split at h
  · cases h
    rw [hlc rfl, hrl rfl]
  · split at h
    · cases h
      rw [hll rfl, hrc rfl]
      exact K.compare_mirror .eq _ _
    · cases h

end

/-- The terms of a disjunction on one column, as one membership. -/
theorem sameColumnMembership_exists {terms : List (String × ScalarValue V)} {name : String}
    {values : List (ScalarValue V)} (h : sameColumnMembership terms = some (name, values))
    (P : String → ScalarValue V → Prop) : (∃ term ∈ terms, P term.1 term.2) ↔ ∃ v ∈ values, P name v := by
  unfold sameColumnMembership at h
  split at h
  · cases h
  · rename_i n v rest
    split at h
    · cases h
    · rename_i hsame
      simp only [List.any_eq_true, bne_iff_ne, ne_eq, not_exists, not_and, Decidable.not_not] at hsame
      simp only [Option.some.injEq, Prod.mk.injEq] at h
      obtain ⟨rfl, rfl⟩ := h
      constructor
      · rintro ⟨term, hterm, hP⟩
        rcases List.mem_cons.1 hterm with rfl | hrest
        · exact ⟨v, List.mem_cons_self, hP⟩
        · exact ⟨term.2, List.mem_cons_of_mem _ (List.mem_map_of_mem hrest), hsame term hrest ▸ hP⟩
      · rintro ⟨w, hw, hP⟩
        rcases List.mem_cons.1 hw with rfl | hrest
        · exact ⟨(n, w), List.mem_cons_self, hP⟩
        · obtain ⟨term, hterm, rfl⟩ := List.mem_map.1 hrest
          exact ⟨term, List.mem_cons_of_mem _ hterm, by rw [hsame term hterm]; exact hP⟩

end VgiDatafusion
