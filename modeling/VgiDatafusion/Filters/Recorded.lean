import VgiDatafusion.Filters.Columns
import VgiDatafusion.Filters.Sound

/-!
# The positions a translation records

`Pushdown::columns` tells the worker which bind columns it needs besides the projected ones. The
builder records a position when it resolves a name and takes it back when it rolls back; a position
of a node that was given up later may stay. `Recorded` bounds what is there: positions of columns
the expressions read, inside the bind schema.
-/
namespace VgiDatafusion

variable {V : Type} {K : Kernel V} {schema remote : Schema}

/-- Every position recorded since `b` is that of a named column. -/
def Recorded (schema remote : Schema) (names : List String) (b b' : Builder V) : Prop :=
  ∀ i ∈ b'.referencedColumns, i ∈ b.referencedColumns ∨
    ∃ n ∈ names, schema.indexOf n = some i ∧ i < remote.fields.length

namespace Recorded

variable {names : List String} {b b₁ b₂ : Builder V}

theorem refl (names : List String) (b : Builder V) : Recorded schema remote names b b := fun _ hi => Or.inl hi

theorem trans (h : Recorded schema remote names b b₁) (h' : Recorded schema remote names b₁ b₂) :
    Recorded schema remote names b b₂ := by
  intro i hi
  rcases h' i hi with hi | hi
  · exact h i hi
  · exact Or.inr hi

theorem mono {names' : List String} (h : Recorded schema remote names b b₁) (hsub : names ⊆ names') :
    Recorded schema remote names' b b₁ := by
  intro i hi
  rcases h i hi with hi | ⟨n, hn, hindex⟩
  · exact Or.inl hi
  · exact Or.inr ⟨n, hsub hn, hindex⟩

/-- The two sides of a binary operator, one after the other. -/
theorem append {ls rs : List String} (h : Recorded schema remote ls b b₁) (h' : Recorded schema remote rs b₁ b₂) :
    Recorded schema remote (ls ++ rs) b b₂ :=
  (h.mono (List.subset_append_left _ _)).trans (h'.mono (List.subset_append_right _ _))

end Recorded

section
variable (b : Builder V)

theorem remoteColumn_recorded (schema remote : Schema) (name : String) :
    Recorded schema remote [name] b (remoteColumn schema remote b name).2 := by
  intro i hi
  unfold remoteColumn at hi
  split at hi
  · exact Or.inl hi
  · rename_i index hindex
    split at hi
    · exact Or.inl hi
    · rename_i field hfield
      dsimp only at hi
      split at hi
      · exact Or.inl hi
      · rcases List.mem_append.1 hi with hi | hi
        · exact Or.inl hi
        · rw [List.mem_singleton] at hi
          subst hi
          exact Or.inr ⟨name, List.mem_singleton_self name, hindex, (List.getElem?_eq_some_iff.1 hfield).1⟩

theorem membership_recorded (K : Kernel V) (schema remote : Schema) (name : String) (values : List (ScalarValue V)) :
    Recorded schema remote [name] b (membership K schema remote b name values).2 := by
  have h := remoteColumn_recorded b schema remote name
  unfold membership
  split
  · exact .refl _ b
  · split <;> rename_i heq <;> rw [heq] at h
    · exact h
    · split <;> exact h

theorem comparisonLeaf_recorded (schema remote : Schema) (name : String) (value : ScalarValue V) (op : Operator) :
    Recorded schema remote [name] b (comparisonLeaf schema remote b name value op).2 := by
  have h := remoteColumn_recorded b schema remote name
  unfold comparisonLeaf
  split <;> rename_i heq <;> rw [heq] at h
  · exact h
  · split <;> exact h

theorem nullLeaf_recorded (schema remote : Schema) (name : String) (negated : Bool) :
    Recorded schema remote [name] b (nullLeaf schema remote b (some name) negated).2 := by
  have h := remoteColumn_recorded b schema remote name
  simp only [nullLeaf]
  split <;> rename_i heq <;> rw [heq] at h <;> exact h

end

theorem build_recorded (K : Kernel V) (schema : Schema) : ∀ (e : Expr V) (b : Builder V),
    Recorded schema schema e.columns b (build K schema schema b e).2
  | .binary l .and r, b => (build_recorded K schema l b).append (build_recorded K schema r _)
  | .binary l .or r, b => by
    simp only [build]
    cases hequalities : logicalOrEqualities K schema l r with
    | some equalities =>
      simp only [logicalOrEqualities, Option.bind_eq_some_iff] at hequalities
      obtain ⟨terms, hterms, hsame⟩ := hequalities
      refine (membership_recorded b K schema schema _ _).mono ?_
      rw [collectLogicalOrEqualities_columns hterms]
      intro n hn
      exact (sameColumnMembership_names hsame n).2 (List.mem_singleton.1 hn)
    | none =>
      have hgrow := (build_grows K schema l b).trans (build_grows K schema r _)
      dsimp only
      split
      · rw [hgrow.rollback]; exact .refl _ b
      · exact (build_recorded K schema l b).append (build_recorded K schema r _)
  | .binary l (.cmp c) r, b => by
    simp only [build]
    split
    · exact .refl _ b
    · rename_i horient
      simp only [Expr.columns,
        orient_columns columnName_columns literal_columns literal_columns columnName_columns horient]
      exact comparisonLeaf_recorded b schema schema _ _ _
  | .binary l (.other s) r, b => by
    simp only [build]
    split
    · exact .refl _ b
    · rename_i horient
      simp only [Expr.columns,
        orient_columns columnName_columns literal_columns literal_columns columnName_columns horient]
      exact comparisonLeaf_recorded b schema schema _ _ _
  | .isNull e, b => by
    simp only [build]
    cases hname : columnName schema e with
    | none => exact .refl _ b
    | some name => simpa [Expr.columns, columnName_columns hname] using nullLeaf_recorded b schema schema name false
  | .isNotNull e, b => by
    simp only [build]
    cases hname : columnName schema e with
    | none => exact .refl _ b
    | some name => simpa [Expr.columns, columnName_columns hname] using nullLeaf_recorded b schema schema name true
  | .inList e list negated, b => by
    simp only [build]
    split
    · exact .refl _ b
    · split
      · rename_i name values hname hvalues
        simpa [Expr.columns, columnName_columns hname, literals_columns hvalues] using
          membership_recorded b K schema schema name values
      · exact .refl _ b
  | .column _ _, b | .literal _, b | .cast _ _, b | .other _ _, b => .refl _ b

theorem buildAll_recorded (K : Kernel V) (schema : Schema) : ∀ (es : List (Expr V)) (b : Builder V),
    Recorded schema schema (es.flatMap (·.columns)) b (buildAll K schema schema b es).2
  | [], b => .refl _ b
  | e :: es, b => (build_recorded K schema e b).append (buildAll_recorded K schema es _)

/-! ## Runtime filters -/

theorem buildPhysical_comparison_recorded {l r : PhysicalExpr V} {op : Operator} (b : Builder V) :
    Recorded schema remote (l.columns ++ r.columns) b
      (match orient (physicalColumnName schema l) (physicalLiteral K r) (physicalLiteral K l)
          (physicalColumnName schema r) op with
        | none => (none, b)
        | some (name, value, op) => comparisonLeaf schema remote b name value op).2 := by
  split
  · exact .refl _ b
  · rename_i horient
    rw [orient_columns physicalColumnName_columns physicalLiteral_columns physicalLiteral_columns
      physicalColumnName_columns horient]
    exact comparisonLeaf_recorded b schema remote _ _ _

theorem buildPhysical_recorded (K : Kernel V) (schema remote : Schema) (side : Bool) :
    ∀ (e : PhysicalExpr V) (b : Builder V),
      Recorded schema remote e.columns b (buildPhysical K schema remote side b e).2
  | .binary l .and r, b => by
    have hgrow := (buildPhysical_grows K schema remote side l b).trans (buildPhysical_grows K schema remote side r _)
    simp only [buildPhysical]
    split
    · rw [hgrow.rollback]; exact .refl _ b
    · exact (buildPhysical_recorded K schema remote side l b).append (buildPhysical_recorded K schema remote side r _)
  | .binary l .or r, b => by
    have hgrow := (buildPhysical_grows K schema remote side l b).trans (buildPhysical_grows K schema remote side r _)
    simp only [buildPhysical]
    split
    · rename_i name values hequalities
      by_cases hside : side = true
      · rw [if_pos hside] at hequalities
        simp only [physicalOrEqualities, Option.bind_eq_some_iff] at hequalities
        obtain ⟨terms, hterms, hsame⟩ := hequalities
        refine (membership_recorded b K schema remote _ _).mono ?_
        rw [collectPhysicalOrEqualities_columns hterms]
        intro n hn
        exact (sameColumnMembership_names hsame n).2 (List.mem_singleton.1 hn)
      · simp [hside] at hequalities
    · split
      · rw [hgrow.rollback]; exact .refl _ b
      · exact (buildPhysical_recorded K schema remote side l b).append
          (buildPhysical_recorded K schema remote side r _)
  | .binary l (.cmp c) r, b => buildPhysical_comparison_recorded b
  | .binary l (.other s) r, b => buildPhysical_comparison_recorded b
  | .isNull e, b => by
    simp only [buildPhysical]
    cases hname : physicalColumnName schema e with
    | none => exact .refl _ b
    | some name =>
      simpa [PhysicalExpr.columns, physicalColumnName_columns hname] using nullLeaf_recorded b schema remote name false
  | .isNotNull e, b => by
    simp only [buildPhysical]
    cases hname : physicalColumnName schema e with
    | none => exact .refl _ b
    | some name =>
      simpa [PhysicalExpr.columns, physicalColumnName_columns hname] using nullLeaf_recorded b schema remote name true
  | .inList e list negated, b => by
    simp only [buildPhysical]
    split
    · exact .refl _ b
    · split
      · rename_i name values hname hvalues
        split
        · simpa [PhysicalExpr.columns, physicalColumnName_columns hname, physicalLiterals_columns hvalues] using
            membership_recorded b K schema remote name values
        · exact .refl _ b
      · exact .refl _ b
  | .column _ _, b | .literal _, b | .cast _ _, b | .scalarFunction _ _, b | .other _ _, b => .refl _ b

theorem memberships_recorded (K : Kernel V) (schema remote : Schema) (tuples : List (List (ScalarValue V))) :
    ∀ (names : List String) (i : Nat) (b : Builder V),
      Recorded schema remote names b (memberships K schema remote b tuples i names).2
  | [], i, b => .refl _ b
  | name :: names, i, b => by
    have h := membership_recorded b K schema remote name (fieldValues tuples i)
    simp only [memberships]
    split <;> rename_i heq <;> rw [heq] at h
    · exact h.mono (by simp)
    · rename_i spec b₁
      have hrest := h.append (memberships_recorded K schema remote tuples names (i + 1) b₁)
      split <;> rename_i hmore <;> rw [hmore] at hrest <;> exact hrest

theorem structMemberships_recorded (K : Kernel V) (schema remote : Schema) (b : Builder V) (e : PhysicalExpr V)
    (list : List (PhysicalExpr V)) (negated : Bool) :
    Recorded schema remote e.columns b (structMemberships K schema remote b e list negated).2 := by
  unfold structMemberships
  split
  · exact .refl _ b
  · split
    · exact .refl _ b
    · rename_i columns hcolumns
      split
      · exact .refl _ b
      · split
        · exact .refl _ b
        · rename_i tuples _
          have hgrow := memberships_grows K schema remote tuples columns 0 b
          have hrecorded := memberships_recorded K schema remote tuples columns 0 b
          rw [physicalStructColumns_columns hcolumns]
          split <;> rename_i heq <;> rw [heq] at hgrow hrecorded
          · rw [hgrow.rollback]; exact .refl _ b
          · exact hrecorded

theorem buildPhysicalTop_recorded (K : Kernel V) (schema remote : Schema) (side : Bool) :
    ∀ (e : PhysicalExpr V) (b : Builder V),
      Recorded schema remote e.columns b (buildPhysicalTop K schema remote side b e).2
  | .binary l .and r, b => by
    simp only [buildPhysicalTop]
    exact (buildPhysicalTop_recorded K schema remote side l b).append
      (buildPhysicalTop_recorded K schema remote side r _)
  | .inList e list negated, b => by
    have hstruct := (structMemberships_recorded K schema remote b e list negated).mono
      (List.subset_append_left e.columns (PhysicalExpr.columnsList list))
    simp only [buildPhysicalTop]
    split
    · split <;> rename_i heq <;> rw [heq] at hstruct
      · exact hstruct
      · exact hstruct.trans (buildPhysical_recorded K schema remote side (.inList e list negated) _)
    · exact buildPhysical_recorded K schema remote side (.inList e list negated) b
  | .binary l .or r, b | .binary l (.cmp c) r, b | .binary l (.other s) r, b | .isNull e, b | .isNotNull e, b
  | .column _ _, b | .literal _, b | .cast _ _, b | .scalarFunction _ _, b | .other _ _, b => by
    simp only [buildPhysicalTop]
    exact buildPhysical_recorded K schema remote side _ b

theorem buildPhysicalAll_recorded (K : Kernel V) (schema remote : Schema) (side : Bool) :
    ∀ (es : List (PhysicalExpr V)) (b : Builder V),
      Recorded schema remote (es.flatMap (·.columns)) b (buildPhysicalAll K schema remote side b es).2
  | [], b => .refl _ b
  | e :: es, b =>
    (buildPhysicalTop_recorded K schema remote side e b).append (buildPhysicalAll_recorded K schema remote side es _)

end VgiDatafusion
