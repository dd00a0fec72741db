import VgiDatafusion.Filters.Builder

/-!
# The columns an expression reads

`Expr.columns` and `PhysicalExpr.columns` list every column name in an expression. What the two
operand readers accept, and what they collect from a disjunction of equalities, says which columns
those are: one for a comparison, none for a literal, the same one throughout for a membership.
-/
namespace VgiDatafusion

variable {V : Type}

mutual

def Expr.columns : Expr V → List String
  | .column _ name => [name]
  | .literal _ => []
  | .cast e _ | .isNull e | .isNotNull e => e.columns
  | .binary l _ r => l.columns ++ r.columns
  | .inList e list _ => e.columns ++ Expr.columnsList list
  | .other _ args => Expr.columnsList args
def Expr.columnsList : List (Expr V) → List String
  | [] => []
  | e :: es => e.columns ++ Expr.columnsList es
end

mutual

def PhysicalExpr.columns : PhysicalExpr V → List String
  | .column name _ => [name]
  | .literal _ => []
  | .cast e _ | .isNull e | .isNotNull e => e.columns
  | .binary l _ r => l.columns ++ r.columns
  | .inList e list _ => e.columns ++ PhysicalExpr.columnsList list
  | .scalarFunction _ args | .other _ args => PhysicalExpr.columnsList args
def PhysicalExpr.columnsList : List (PhysicalExpr V) → List String
  | [] => []
  | e :: es => e.columns ++ PhysicalExpr.columnsList es
end

attribute [local simp] Expr.columns PhysicalExpr.columns

variable {K : Kernel V} {schema : Schema}

theorem columnName_columns : ∀ {e : Expr V} {name : String}, columnName schema e = some name → e.columns = [name]
  | .column _ _, _, h => by simp only [columnName, Option.some.injEq] at h; simp [Expr.columns, h]
  | .cast e ty, name, h => by
    simp only [columnName, Option.bind_eq_some_iff] at h
    obtain ⟨inner, hinner, hcast⟩ := h
    unfold noopCast at hcast
    split at hcast
    · cases hcast
    · split at hcast
      · cases hcast
        simpa [Expr.columns] using columnName_columns hinner
      · cases hcast
  | .literal _, _, h | .binary _ _ _, _, h | .isNull _, _, h | .isNotNull _, _, h
  | .inList _ _ _, _, h | .other _ _, _, h => by simp [columnName] at h

theorem literal_columns : ∀ {e : Expr V} {v : ScalarValue V}, literal K e = some v → e.columns = []
  | .literal _, _, _ => rfl
  | .cast e ty, v, h => by
    simp only [literal, Option.bind_eq_some_iff] at h
    obtain ⟨inner, hinner, -⟩ := h
    simpa [Expr.columns] using literal_columns hinner
  | .column _ _, _, h | .binary _ _ _, _, h | .isNull _, _, h | .isNotNull _, _, h
  | .inList _ _ _, _, h | .other _ _, _, h => by simp [literal] at h

theorem literals_columns : ∀ {es : List (Expr V)} {vs : List (ScalarValue V)},
    es.mapM (literal K) = some vs → Expr.columnsList es = []
  | [], _, _ => rfl
  | e :: es, vs, h => by
    simp only [List.mapM_cons, Option.bind_eq_bind, Option.bind_eq_some_iff] at h
    obtain ⟨v, hv, rest, hrest, -⟩ := h
    simp [Expr.columnsList, literal_columns hv, literals_columns hrest]

theorem physicalColumnName_columns : ∀ {e : PhysicalExpr V} {name : String},
    physicalColumnName schema e = some name → e.columns = [name]
  | .column _ _, _, h => by
    simp only [physicalColumnName, Option.some.injEq] at h; simp [PhysicalExpr.columns, h]
  | .cast e ty, name, h => by
    simp only [physicalColumnName, Option.bind_eq_some_iff] at h
    obtain ⟨inner, hinner, hcast⟩ := h
    unfold noopCast at hcast
    split at hcast
    · cases hcast
    · split at hcast
      · cases hcast
        simpa [PhysicalExpr.columns] using physicalColumnName_columns hinner
      · cases hcast
  | .literal _, _, h | .binary _ _ _, _, h | .isNull _, _, h | .isNotNull _, _, h
  | .inList _ _ _, _, h | .scalarFunction _ _, _, h | .other _ _, _, h => by simp [physicalColumnName] at h

theorem physicalLiteral_columns : ∀ {e : PhysicalExpr V} {v : ScalarValue V},
    physicalLiteral K e = some v → e.columns = []
  | .literal _, _, _ => rfl
  | .cast e ty, v, h => by
    simp only [physicalLiteral, Option.bind_eq_some_iff] at h
    obtain ⟨inner, hinner, -⟩ := h
    simpa [PhysicalExpr.columns] using physicalLiteral_columns hinner
  | .column _ _, _, h | .binary _ _ _, _, h | .isNull _, _, h | .isNotNull _, _, h
  | .inList _ _ _, _, h | .scalarFunction _ _, _, h | .other _ _, _, h => by simp [physicalLiteral] at h

theorem physicalLiterals_columns : ∀ {es : List (PhysicalExpr V)} {vs : List (ScalarValue V)},
    es.mapM (physicalLiteral K) = some vs → PhysicalExpr.columnsList es = []
  | [], _, _ => rfl
  | e :: es, vs, h => by
    simp only [List.mapM_cons, Option.bind_eq_bind, Option.bind_eq_some_iff] at h
    obtain ⟨v, hv, rest, hrest, -⟩ := h
    simp [PhysicalExpr.columnsList, physicalLiteral_columns hv, physicalLiterals_columns hrest]

theorem physicalColumns_columns : ∀ {es : List (PhysicalExpr V)} {names : List String},
    es.mapM (physicalColumnName schema) = some names → PhysicalExpr.columnsList es = names
  | [], names, h => by
    simp only [List.mapM_nil, Option.pure_def, Option.some.injEq] at h
    simp [PhysicalExpr.columnsList, ← h]
  | e :: es, names, h => by
    simp only [List.mapM_cons, Option.bind_eq_bind, Option.bind_eq_some_iff, Option.pure_def,
      Option.some.injEq] at h
    obtain ⟨name, hname, rest, hrest, rfl⟩ := h
    simp [PhysicalExpr.columnsList, physicalColumnName_columns hname, physicalColumns_columns hrest]

theorem physicalStructColumns_columns {e : PhysicalExpr V} {columns : List String}
    (h : physicalStructColumns schema e = some columns) : e.columns = columns := by
  unfold physicalStructColumns at h
  split at h
  · split at h
    · exact physicalColumns_columns h
    · cases h
  · cases h

/-- The operands of a comparison read one column between them. -/
theorem orient_columns {l r : List String} {lc rc : Option String} {ll rl : Option (ScalarValue V)}
    {op op' : Operator} {name : String} {value : ScalarValue V}
    (hlc : ∀ {n}, lc = some n → l = [n]) (hrl : ∀ {v}, rl = some v → r = [])
    (hll : ∀ {v}, ll = some v → l = []) (hrc : ∀ {n}, rc = some n → r = [n])
    (h : orient lc rl ll rc op = some (name, value, op')) : l ++ r = [name] := by
  unfold orient at h
  split at h
  · simp only [Option.some.injEq, Prod.mk.injEq] at h
    obtain ⟨rfl, -, -⟩ := h
    rw [hlc rfl, hrl rfl]; rfl
  · split at h
    · simp only [Option.map_eq_some_iff, Prod.mk.injEq] at h
      obtain ⟨flipped, -, rfl, -, -⟩ := h
      rw [hll rfl, hrc rfl]; rfl
    · cases h

theorem equalityTerm_columns {l r : List String} {lc rc : Option String} {ll rl : Option (ScalarValue V)}
    {term : String × ScalarValue V} (hlc : ∀ {n}, lc = some n → l = [n]) (hrl : ∀ {v}, rl = some v → r = [])
    (hll : ∀ {v}, ll = some v → l = []) (hrc : ∀ {n}, rc = some n → r = [n])
    (h : equalityTerm lc rl ll rc = some term) : l ++ r = [term.1] := by
  unfold equalityTerm at h
  split at h
  · cases h; rw [hlc rfl, hrl rfl]; rfl
  · split at h
    · cases h; rw [hll rfl, hrc rfl]; rfl
    · cases h

theorem collectLogicalOrEqualities_columns : ∀ {e : Expr V} {terms : List (String × ScalarValue V)},
    collectLogicalOrEqualities K schema e = some terms → e.columns = terms.map (·.1)
  | .binary l .or r, terms, h => by
    simp only [collectLogicalOrEqualities, Option.bind_eq_some_iff, Option.map_eq_some_iff] at h
    obtain ⟨ls, hls, rs, hrs, rfl⟩ := h
    simp [Expr.columns, collectLogicalOrEqualities_columns hls, collectLogicalOrEqualities_columns hrs]
  | .binary l (.cmp .eq) r, terms, h => by
    simp only [collectLogicalOrEqualities, Option.map_eq_some_iff] at h
    obtain ⟨term, hterm, rfl⟩ := h
    exact equalityTerm_columns columnName_columns literal_columns literal_columns columnName_columns hterm
  | .binary _ .and _, _, h | .binary _ (.cmp .ne) _, _, h | .binary _ (.cmp .lt) _, _, h
  | .binary _ (.cmp .le) _, _, h | .binary _ (.cmp .gt) _, _, h | .binary _ (.cmp .ge) _, _, h
  | .binary _ (.other _) _, _, h | .column _ _, _, h | .literal _, _, h | .cast _ _, _, h | .isNull _, _, h
  | .isNotNull _, _, h | .inList _ _ _, _, h | .other _ _, _, h => by simp [collectLogicalOrEqualities] at h

theorem collectPhysicalOrEqualities_columns : ∀ {e : PhysicalExpr V} {terms : List (String × ScalarValue V)},
    collectPhysicalOrEqualities K schema e = some terms → e.columns = terms.map (·.1)
  | .binary l .or r, terms, h => by
    simp only [collectPhysicalOrEqualities, Option.bind_eq_some_iff, Option.map_eq_some_iff] at h
    obtain ⟨ls, hls, rs, hrs, rfl⟩ := h
    simp [PhysicalExpr.columns, collectPhysicalOrEqualities_columns hls, collectPhysicalOrEqualities_columns hrs]
  | .binary l (.cmp .eq) r, terms, h => by
    simp only [collectPhysicalOrEqualities, Option.map_eq_some_iff] at h
    obtain ⟨term, hterm, rfl⟩ := h
    exact equalityTerm_columns physicalColumnName_columns physicalLiteral_columns physicalLiteral_columns
      physicalColumnName_columns hterm
  | .binary _ .and _, _, h | .binary _ (.cmp .ne) _, _, h | .binary _ (.cmp .lt) _, _, h
  | .binary _ (.cmp .le) _, _, h | .binary _ (.cmp .gt) _, _, h | .binary _ (.cmp .ge) _, _, h
  | .binary _ (.other _) _, _, h | .column _ _, _, h | .literal _, _, h | .cast _ _, _, h | .isNull _, _, h
  | .isNotNull _, _, h | .inList _ _ _, _, h | .scalarFunction _ _, _, h | .other _ _, _, h => by
    simp [collectPhysicalOrEqualities] at h

/-- The terms of one membership name its column and no other. -/
theorem sameColumnMembership_names {terms : List (String × ScalarValue V)} {name : String}
    {values : List (ScalarValue V)} (h : sameColumnMembership terms = some (name, values)) (n : String) :
    n ∈ terms.map (·.1) ↔ n = name := by
  unfold sameColumnMembership at h
  split at h
  · cases h
  · rename_i first value rest
    split at h
    · cases h
    · rename_i hsame
      simp only [List.any_eq_true, bne_iff_ne, ne_eq, not_exists, not_and, Decidable.not_not] at hsame
      simp only [Option.some.injEq, Prod.mk.injEq] at h
      obtain ⟨rfl, -⟩ := h
      simp only [List.map_cons, List.mem_cons, List.mem_map]
      constructor
      · rintro (rfl | ⟨term, hterm, rfl⟩)
        · rfl
        · exact hsame term hterm
      · rintro rfl
        exact Or.inl rfl

end VgiDatafusion
