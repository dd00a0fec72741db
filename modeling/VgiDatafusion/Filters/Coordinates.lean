import VgiDatafusion.Filters.Recorded

/-!
# Wire coordinates

A worker finds a filtered column by the name and position written in the pushdown. `Backs` is the
right pair: the position of the public column, and the bind schema's name there. `Located` says it
of a whole node, leaf by leaf: every leaf of the node names the one public column its
sub-expression reads.

Runtime filters resolve against the bind schema and are always located. `scan` calls
`filters::serialize(filters, &self.output_schema)`, which takes the public schema for both roles
(lib.rs:2114, filters.rs:752), so a static filter carries public names:
`scanPushdown_located_iff` says exactly when those happen to be the worker's.
-/
namespace VgiDatafusion

open TableProvider

variable {V : Type} {K : Kernel V} {schema remote : Schema}

/-- `c` is where the worker's bind schema has the column behind the public name `n`. -/
def Backs (schema bind : Schema) (n : String) (c : ColumnRef) : Prop :=
  schema.indexOf n = some c.index ∧ ∃ f, bind.fields[c.index]? = some f ∧ f.name = c.name

theorem backs_self_name {n : String} {c : ColumnRef} (h : Backs schema schema n c) : c.name = n := by
  obtain ⟨hindex, f, hf, hname⟩ := h
  obtain ⟨f', hf', hname'⟩ := Schema.indexOf_spec hindex
  rw [hf] at hf'
  cases hf'
  exact hname.symm.trans hname'

/-- The reference of a leaf; a membership must repeat the column's name on its set. -/
def Spec.leaf : Spec → Option ColumnRef
  | .comparison _ c _ | .isNull c _ => some c
  | .inSet c set _ => if set.columnName = c.name then some c else none
  | .and _ _ | .or _ _ => none

/-- The columns that a node refers to. -/
def Spec.references : Spec → List ColumnRef
  | .comparison _ c _ | .isNull c _ | .inSet c _ _ => [c]
  | .and l r | .or l r => l.references ++ r.references

theorem Spec.references_of_leaf {spec : Spec} {c : ColumnRef} (h : spec.leaf = some c) : spec.references = [c] := by
  cases spec with
  | comparison op c' k => cases h; rfl
  | isNull c' negated => cases h; rfl
  | inSet c' set negated =>
    simp only [Spec.leaf] at h
    split at h
    · cases h; rfl
    · cases h
  | and l r => cases h
  | or l r => cases h

/-- Every leaf of the node names the column its sub-expression reads. AND may have lost a side;
`fields` are the columns of a struct `IN`, each of which gets a node of its own. -/
inductive Located {E : Type} (conj disj : E → E → E) (columns fields : E → List String)
    (backs : String → ColumnRef → Prop) : E → Spec → Prop
  | leaf {e : E} {spec : Spec} {n : String} {c : ColumnRef} (only : ∀ m, m ∈ columns e ↔ m = n)
      (hleaf : spec.leaf = some c) (hbacks : backs n c) : Located conj disj columns fields backs e spec
  | field {e : E} {spec : Spec} {n : String} {c : ColumnRef} (hn : n ∈ fields e)
      (hleaf : spec.leaf = some c) (hbacks : backs n c) : Located conj disj columns fields backs e spec
  | andLeft {l r : E} {s : Spec} : Located conj disj columns fields backs l s →
      Located conj disj columns fields backs (conj l r) s
  | andRight {l r : E} {s : Spec} : Located conj disj columns fields backs r s →
      Located conj disj columns fields backs (conj l r) s
  | and {l r : E} {s t : Spec} : Located conj disj columns fields backs l s →
      Located conj disj columns fields backs r t → Located conj disj columns fields backs (conj l r) (.and s t)
  | or {l r : E} {s t : Spec} : Located conj disj columns fields backs l s →
      Located conj disj columns fields backs r t → Located conj disj columns fields backs (disj l r) (.or s t)

/-- A logical filter and the node for it. -/
abbrev Expr.LocatedAt (backs : String → ColumnRef → Prop) : Expr V → Spec → Prop :=
  Located (.binary · .and ·) (.binary · .or ·) Expr.columns (fun _ => []) backs

/-- The columns of `struct(...) IN (...)`. -/
def PhysicalExpr.structFields : PhysicalExpr V → List String
  | .inList (.scalarFunction _ args) _ _ => PhysicalExpr.columnsList args
  | _ => []

/-- Every column of the node is where the worker has the one that the expression names. -/
abbrev PhysicalExpr.LocatedAt (backs : String → ColumnRef → Prop) : PhysicalExpr V → Spec → Prop :=
  Located (.binary · .and ·) (.binary · .or ·) PhysicalExpr.columns PhysicalExpr.structFields backs

section
variable {E : Type} {conj disj : E → E → E} {columns fields : E → List String}
  {backs backs' : String → ColumnRef → Prop} {e : E} {spec : Spec}

theorem Located.references (h : Located conj disj columns fields backs e spec) :
    ∀ c ∈ spec.references, ∃ n, backs n c := by
  induction h with
  | leaf _ hleaf hbacks | field _ hleaf hbacks =>
    rw [Spec.references_of_leaf hleaf]
    intro c hc
    rw [List.mem_singleton] at hc
    exact ⟨_, hc ▸ hbacks⟩
  | andLeft _ ih | andRight _ ih => exact ih
  | and _ _ ihl ihr | or _ _ ihl ihr =>
    intro c hc
    rcases List.mem_append.1 hc with hc | hc
    · exact ihl c hc
    · exact ihr c hc

/-- Relocation: it is enough to know the references the node really has. -/
theorem Located.relocate (h : Located conj disj columns fields backs e spec) :
    (∀ c ∈ spec.references, ∀ n, backs n c → backs' n c) → Located conj disj columns fields backs' e spec := by
  induction h with
  | leaf only hleaf hbacks =>
    intro hc
    refine .leaf only hleaf (hc _ ?_ _ hbacks)
    rw [Spec.references_of_leaf hleaf]
    exact List.mem_singleton_self _
  | field hn hleaf hbacks =>
    intro hc
    refine .field hn hleaf (hc _ ?_ _ hbacks)
    rw [Spec.references_of_leaf hleaf]
    exact List.mem_singleton_self _
  | andLeft _ ih => exact fun hc => .andLeft (ih hc)
  | andRight _ ih => exact fun hc => .andRight (ih hc)
  | and _ _ ihl ihr =>
    exact fun hc => .and (ihl fun c h => hc c (List.mem_append_left _ h)) (ihr fun c h => hc c (List.mem_append_right _ h))
  | or _ _ ihl ihr =>
    exact fun hc => .or (ihl fun c h => hc c (List.mem_append_left _ h)) (ihr fun c h => hc c (List.mem_append_right _ h))

end

/-! ## The leaves -/

section
variable {b b' : Builder V} {spec : Spec}

theorem remoteColumn_backs {name : String} {column : ColumnRef}
    (h : remoteColumn schema remote b name = (some column, b')) : Backs schema remote name column := by
  unfold remoteColumn at h
  split at h
  · cases h
  · rename_i index hindex
    split at h
    · cases h
    · rename_i field hfield
      cases h
      exact ⟨hindex, field, hfield, rfl⟩

theorem membership_leaf {name : String} {values : List (ScalarValue V)}
    (h : membership K schema remote b name values = (some spec, b')) :
    ∃ c, spec.leaf = some c ∧ Backs schema remote name c := by
  unfold membership at h
  split at h
  · cases h
  · split at h
    · cases h
    · rename_i column b₁ hcolumn
      split at h
      · cases h
      · cases h
        exact ⟨column, by simp [Spec.leaf], remoteColumn_backs hcolumn⟩

theorem comparisonLeaf_leaf {name : String} {value : ScalarValue V} {op : Operator}
    (h : comparisonLeaf schema remote b name value op = (some spec, b')) :
    ∃ c, spec.leaf = some c ∧ Backs schema remote name c := by
  unfold comparisonLeaf at h
  split at h
  · cases h
  · rename_i column b₁ hcolumn
    split at h
    · cases h
      exact ⟨column, rfl, remoteColumn_backs hcolumn⟩
    · cases h

theorem nullLeaf_leaf {name : Option String} {negated : Bool}
    (h : nullLeaf schema remote b name negated = (some spec, b')) :
    ∃ n c, name = some n ∧ spec.leaf = some c ∧ Backs schema remote n c := by
  unfold nullLeaf at h
  split at h
  · cases h
  · rename_i n
    split at h
    · cases h
    · rename_i column b₁ hcolumn
      cases h
      exact ⟨n, column, rfl, rfl, remoteColumn_backs hcolumn⟩

end

/-! ## Logical filters -/

theorem build_comparison_columns {b b' : Builder V} {l r : Expr V} {op : Operator} {spec : Spec}
    (h : (match orient (columnName schema l) (literal K r) (literal K l) (columnName schema r) op with
      | none => (none, b)
      | some (name, value, op) => comparisonLeaf schema schema b name value op) = (some spec, b')) :
    ∃ n c, l.columns ++ r.columns = [n] ∧ spec.leaf = some c ∧ Backs schema schema n c := by
  split at h
  · cases h
  · rename_i name value op' horient
    obtain ⟨c, hleaf, hbacks⟩ := comparisonLeaf_leaf h
    exact ⟨name, c, orient_columns columnName_columns literal_columns literal_columns columnName_columns horient,
      hleaf, hbacks⟩

/-- The leaf both facts below are about: `e` reads one column, and the node refers to it. -/
theorem located_leaf {e : Expr V} {spec : Spec} {n : String} {c : ColumnRef} (hcolumns : ∀ m, m ∈ e.columns ↔ m = n)
    (hleaf : spec.leaf = some c) (hbacks : Backs schema schema n c) :
    e.LocatedAt (Backs schema schema) spec ∧
      ∀ m, m ∈ e.columns ↔ ∃ c ∈ spec.references, Backs schema schema m c := by
  refine ⟨.leaf hcolumns hleaf hbacks, ?_⟩
  intro m
  rw [hcolumns, Spec.references_of_leaf hleaf]
  constructor
  · rintro rfl
    exact ⟨c, List.mem_singleton_self c, hbacks⟩
  · rintro ⟨c', hc', hm⟩
    rw [List.mem_singleton] at hc'
    subst hc'
    exact (backs_self_name hm).symm.trans (backs_self_name hbacks)

theorem references_append {ls rs : List String} {s t : List ColumnRef} {backs : String → ColumnRef → Prop}
    (hl : ∀ n, n ∈ ls ↔ ∃ c ∈ s, backs n c) (hr : ∀ n, n ∈ rs ↔ ∃ c ∈ t, backs n c) :
    ∀ n, n ∈ ls ++ rs ↔ ∃ c ∈ s ++ t, backs n c := by
  intro n
  simp only [List.mem_append, hl, hr, or_and_right, exists_or]

/-- The node's leaves are located, and its references are the columns of the kept filter. -/
theorem build_located : ∀ {e : Expr V} {b b' : Builder V} {spec : Spec},
    build K schema schema b e = (some spec, b') →
      e.LocatedAt (Backs schema schema) spec ∧
        ∀ n, n ∈ (kept K schema e).columns ↔ ∃ c ∈ spec.references, Backs schema schema n c
  | .binary l .and r, b, b', spec, h => by
    simp only [build] at h
    have hl := build_isSome K schema l b
    have hr := build_isSome K schema r (build K schema schema b l).2
    cases hleft : build K schema schema b l with
    | mk left b₁ => cases hright : build K schema schema b₁ r with
      | mk right b₂ =>
        simp only [hleft, hright] at h hl hr
        cases left <;> cases right <;>
          simp only [keepExpressible, Option.isSome_none, Option.isSome_some] at h hl hr <;> cases h
        · obtain ⟨hlocated, hrefs⟩ := build_located hright
          exact ⟨.andRight hlocated, by simpa [kept, ← hl, ← hr] using hrefs⟩
        · obtain ⟨hlocated, hrefs⟩ := build_located hleft
          exact ⟨.andLeft hlocated, by simpa [kept, ← hl, ← hr] using hrefs⟩
        · obtain ⟨hlocated, hrefs⟩ := build_located hleft
          obtain ⟨hlocated', hrefs'⟩ := build_located hright
          refine ⟨.and hlocated hlocated', ?_⟩
          simp only [kept, ← hl, ← hr, Expr.columns]
          exact references_append hrefs hrefs'
  | .binary l .or r, b, b', spec, h => by
    simp only [build] at h
    cases hequalities : logicalOrEqualities K schema l r with
    | some equalities =>
      rw [hequalities] at h
      obtain ⟨c, hleaf, hbacks⟩ := membership_leaf h
      simp only [logicalOrEqualities, Option.bind_eq_some_iff] at hequalities
      obtain ⟨terms, hterms, hsame⟩ := hequalities
      have hcolumns : ∀ m, m ∈ (Expr.binary l .or r).columns ↔ m = equalities.1 := by
        intro m
        rw [collectLogicalOrEqualities_columns hterms]
        exact sameColumnMembership_names hsame m
      have hkept : kept K schema (.binary l .or r) = .binary l .or r := by
        simp [kept, logicalOrEqualities, hterms, hsame]
      rw [hkept]
      exact located_leaf hcolumns hleaf hbacks
    | none =>
      rw [hequalities] at h
      cases hleft : build K schema schema b l with
      | mk left b₁ => cases hright : build K schema schema b₁ r with
        | mk right b₂ =>
          simp only [hleft, hright] at h
          cases left <;> cases right <;> simp only [bothOrNone] at h
          case some.some left right =>
            by_cases hkeys : containsJoinKeys (.or left right) = true
            · simp [hkeys] at h
            · simp only [hkeys] at h
              cases h
              obtain ⟨hlocated, hrefs⟩ := build_located hleft
              obtain ⟨hlocated', hrefs'⟩ := build_located hright
              refine ⟨.or hlocated hlocated', ?_⟩
              simp only [kept, hequalities, Option.isSome_none, Bool.false_eq_true, if_false, Expr.columns]
              exact references_append hrefs hrefs'
          all_goals cases h
  | .binary l (.cmp c) r, b, b', spec, h => by
    obtain ⟨n, c, hcolumns, hleaf, hbacks⟩ := build_comparison_columns h
    exact located_leaf (by simp [Expr.columns, hcolumns]) hleaf hbacks
  | .binary l (.other s) r, b, b', spec, h => by
    obtain ⟨n, c, hcolumns, hleaf, hbacks⟩ := build_comparison_columns h
    exact located_leaf (by simp [Expr.columns, hcolumns]) hleaf hbacks
  | .isNull e, b, b', spec, h => by
    obtain ⟨n, c, hname, hleaf, hbacks⟩ := nullLeaf_leaf h
    exact located_leaf (by simp [Expr.columns, columnName_columns hname]) hleaf hbacks
  | .isNotNull e, b, b', spec, h => by
    obtain ⟨n, c, hname, hleaf, hbacks⟩ := nullLeaf_leaf h
    exact located_leaf (by simp [Expr.columns, columnName_columns hname]) hleaf hbacks
  | .inList e list negated, b, b', spec, h => by
    simp only [build] at h
    split at h
    · cases h
    · split at h
      · rename_i name values hname hvalues
        obtain ⟨c, hleaf, hbacks⟩ := membership_leaf h
        exact located_leaf (by simp [Expr.columns, columnName_columns hname, literals_columns hvalues]) hleaf hbacks
      · cases h
  | .column _ _, _, _, _, h | .literal _, _, _, _, h | .cast _ _, _, _, _, h | .other _ _, _, _, _, h => by
    simp [build] at h

/-! ## Runtime filters -/

theorem buildPhysical_comparison_located {b b' : Builder V} {l r : PhysicalExpr V} {op : Operator} {spec : Spec}
    (h : (match orient (physicalColumnName schema l) (physicalLiteral K r) (physicalLiteral K l)
          (physicalColumnName schema r) op with
      | none => (none, b)
      | some (name, value, op) => comparisonLeaf schema remote b name value op) = (some spec, b')) :
    (PhysicalExpr.binary l op r).LocatedAt (Backs schema remote) spec := by
  split at h
  · cases h
  · rename_i name value op' horient
    obtain ⟨c, hleaf, hbacks⟩ := comparisonLeaf_leaf h
    have hcolumns := orient_columns physicalColumnName_columns physicalLiteral_columns physicalLiteral_columns
      physicalColumnName_columns horient
    exact .leaf (by simp [PhysicalExpr.columns, hcolumns]) hleaf hbacks

theorem buildPhysical_located {side : Bool} : ∀ {e : PhysicalExpr V} {b b' : Builder V} {spec : Spec},
    buildPhysical K schema remote side b e = (some spec, b') → e.LocatedAt (Backs schema remote) spec
  | .binary l .and r, b, b', spec, h => by
    simp only [buildPhysical] at h
    cases hleft : buildPhysical K schema remote side b l with
    | mk left b₁ => cases hright : buildPhysical K schema remote side b₁ r with
      | mk right b₂ =>
        simp only [hleft, hright] at h
        cases left <;> cases right <;> simp only [keepExpressible] at h <;> cases h
        · exact .andRight (buildPhysical_located hright)
        · exact .andLeft (buildPhysical_located hleft)
        · exact .and (buildPhysical_located hleft) (buildPhysical_located hright)
  | .binary l .or r, b, b', spec, h => by
    simp only [buildPhysical] at h
    split at h
    · rename_i name values hequalities
      by_cases hside : side = true
      · rw [if_pos hside] at hequalities
        obtain ⟨c, hleaf, hbacks⟩ := membership_leaf h
        simp only [physicalOrEqualities, Option.bind_eq_some_iff] at hequalities
        obtain ⟨terms, hterms, hsame⟩ := hequalities
        refine .leaf ?_ hleaf hbacks
        intro m
        rw [collectPhysicalOrEqualities_columns hterms]
        exact sameColumnMembership_names hsame m
      · simp [hside] at hequalities
    · cases hleft : buildPhysical K schema remote side b l with
      | mk left b₁ => cases hright : buildPhysical K schema remote side b₁ r with
        | mk right b₂ =>
          simp only [hleft, hright] at h
          cases left <;> cases right <;> simp only [bothOrNone] at h
          case some.some left right =>
            by_cases hkeys : containsJoinKeys (.or left right) = true
            · simp [hkeys] at h
            · simp only [hkeys] at h
              cases h
              exact .or (buildPhysical_located hleft) (buildPhysical_located hright)
          all_goals cases h
  | .binary l (.cmp c) r, b, b', spec, h => buildPhysical_comparison_located h
  | .binary l (.other s) r, b, b', spec, h => buildPhysical_comparison_located h
  | .isNull e, b, b', spec, h => by
    obtain ⟨n, c, hname, hleaf, hbacks⟩ := nullLeaf_leaf h
    exact .leaf (by simp [PhysicalExpr.columns, physicalColumnName_columns hname]) hleaf hbacks
  | .isNotNull e, b, b', spec, h => by
    obtain ⟨n, c, hname, hleaf, hbacks⟩ := nullLeaf_leaf h
    exact .leaf (by simp [PhysicalExpr.columns, physicalColumnName_columns hname]) hleaf hbacks
  | .inList e list negated, b, b', spec, h => by
    simp only [buildPhysical] at h
    split at h
    · cases h
    · split at h
      · rename_i name values hname hvalues
        split at h
        · obtain ⟨c, hleaf, hbacks⟩ := membership_leaf h
          exact .leaf
            (by simp [PhysicalExpr.columns, physicalColumnName_columns hname, physicalLiterals_columns hvalues])
            hleaf hbacks
        · cases h
      · cases h
  | .column _ _, _, _, _, h | .literal _, _, _, _, h | .cast _ _, _, _, _, h | .scalarFunction _ _, _, _, _, h
  | .other _ _, _, _, _, h => by simp [buildPhysical] at h

theorem memberships_leaves {tuples : List (List (ScalarValue V))} :
    ∀ {names : List String} {i : Nat} {b b' : Builder V} {specs : List Spec},
      memberships K schema remote b tuples i names = (some specs, b') →
        ∀ spec ∈ specs, ∃ n ∈ names, ∃ c, spec.leaf = some c ∧ Backs schema remote n c
  | [], i, b, b', specs, h, spec, hspec => by
    simp only [memberships, Prod.mk.injEq, Option.some.injEq] at h
    simp [← h.1] at hspec
  | name :: names, i, b, b', specs, h, spec, hspec => by
    simp only [memberships] at h
    split at h
    · cases h
    · rename_i first b₁ hfirst
      split at h
      · cases h
      · rename_i rest b₂ hrest
        cases h
        rcases List.mem_cons.1 hspec with rfl | hspec
        · obtain ⟨c, hleaf, hbacks⟩ := membership_leaf hfirst
          exact ⟨name, List.mem_cons_self, c, hleaf, hbacks⟩
        · obtain ⟨n, hn, hleaf⟩ := memberships_leaves hrest spec hspec
          exact ⟨n, List.mem_cons_of_mem _ hn, hleaf⟩

theorem physicalStructColumns_fields {e : PhysicalExpr V} {columns : List String} (list : List (PhysicalExpr V))
    (negated : Bool) (h : physicalStructColumns schema e = some columns) :
    (PhysicalExpr.inList e list negated).structFields = columns := by
  unfold physicalStructColumns at h
  split at h
  · rename_i name args
    split at h
    · simp [PhysicalExpr.structFields, physicalColumns_columns h]
    · cases h
  · cases h

theorem structMemberships_located {b b' : Builder V} {e : PhysicalExpr V} {list : List (PhysicalExpr V)}
    {negated : Bool} {specs : List Spec}
    (h : structMemberships K schema remote b e list negated = (some specs, b')) :
    ∀ spec ∈ specs, (PhysicalExpr.inList e list negated).LocatedAt (Backs schema remote) spec := by
  unfold structMemberships at h
  split at h
  · cases h
  · split at h
    · cases h
    · rename_i columns hcolumns
      split at h
      · cases h
      · split at h
        · cases h
        · split at h
          · cases h
          · rename_i specs' b₁ hmemberships
            cases h
            intro spec hspec
            obtain ⟨n, hn, c, hleaf, hbacks⟩ := memberships_leaves hmemberships spec hspec
            exact .field (by rw [physicalStructColumns_fields list negated hcolumns]; exact hn) hleaf hbacks

theorem buildPhysical_toList_located {side : Bool} {e : PhysicalExpr V} {b : Builder V} :
    ∀ spec ∈ (buildPhysical K schema remote side b e).1.toList, e.LocatedAt (Backs schema remote) spec := by
  intro spec hspec
  exact buildPhysical_located (Prod.ext (Option.mem_toList.1 hspec) rfl)

/-- At the top an AND is flattened: each predicate belongs to one conjunct. -/
theorem buildPhysicalTop_located {side : Bool} : ∀ {e : PhysicalExpr V} {b : Builder V},
    ∀ spec ∈ (buildPhysicalTop K schema remote side b e).1, e.LocatedAt (Backs schema remote) spec
  | .binary l .and r, b, spec, hspec => by
    simp only [buildPhysicalTop] at hspec
    rcases List.mem_append.1 hspec with hl | hr
    · exact .andLeft (buildPhysicalTop_located spec hl)
    · exact .andRight (buildPhysicalTop_located spec hr)
  | .inList e list negated, b, spec, hspec => by
    simp only [buildPhysicalTop] at hspec
    split at hspec
    · split at hspec
      · rename_i specs b₁ heq
        exact structMemberships_located heq spec hspec
      · exact buildPhysical_toList_located spec hspec
    · exact buildPhysical_toList_located spec hspec
  | .binary l .or r, b, spec, hspec | .binary l (.cmp c) r, b, spec, hspec
  | .binary l (.other s) r, b, spec, hspec | .isNull e, b, spec, hspec | .isNotNull e, b, spec, hspec
  | .column _ _, b, spec, hspec | .literal _, b, spec, hspec | .cast _ _, b, spec, hspec
  | .scalarFunction _ _, b, spec, hspec | .other _ _, b, spec, hspec => by
    simp only [buildPhysicalTop] at hspec
    exact buildPhysical_toList_located spec hspec

theorem buildPhysicalAll_located {side : Bool} : ∀ {es : List (PhysicalExpr V)} {b : Builder V},
    ∀ spec ∈ (buildPhysicalAll K schema remote side b es).1, ∃ e ∈ es, e.LocatedAt (Backs schema remote) spec
  | [], b, spec, hspec => by simp [buildPhysicalAll] at hspec
  | e :: es, b, spec, hspec => by
    simp only [buildPhysicalAll] at hspec
    rcases List.mem_append.1 hspec with hfirst | hrest
    · exact ⟨e, List.mem_cons_self, buildPhysicalTop_located spec hfirst⟩
    · obtain ⟨e', he', hlocated⟩ := buildPhysicalAll_located spec hrest
      exact ⟨e', List.mem_cons_of_mem _ he', hlocated⟩

/-! ## The pushdown of a scan -/

/-- Every reference of the pushdown is where the worker's bind schema has the column: node by node
for the predicates, and for the recorded positions. -/
structure Coordinates {E : Type} (located : (String → ColumnRef → Prop) → E → Spec → Prop)
    (columns : E → List String) (t : TableProvider) (exprs : List E) (p : WirePushdown V) : Prop where
  predicates : ∀ blob ∈ p.blob, ∀ predicate ∈ blob.document.predicates,
    ∃ e ∈ exprs, located (Backs t.outputSchema t.bindSchema) e predicate.expression
  positions : ∀ i ∈ p.columns, ∃ e ∈ exprs, ∃ n ∈ columns e, ∃ name,
    Backs t.outputSchema t.bindSchema n ⟨i, name⟩

/-- The public name is also the worker's, at the column's position. -/
def Unrenamed (t : TableProvider) (n : String) : Prop :=
  ∃ i f, t.outputSchema.indexOf n = some i ∧ t.bindSchema.fields[i]? = some f ∧ f.name = n

/-- A reference with the public name is right for the worker exactly when the column kept it. -/
theorem backs_bind_iff {t : TableProvider} {n : String} {c : ColumnRef}
    (h : Backs t.outputSchema t.outputSchema n c) : Backs t.outputSchema t.bindSchema n c ↔ Unrenamed t n := by
  have hname := backs_self_name h
  constructor
  · rintro ⟨hindex, f, hf, hfname⟩
    exact ⟨c.index, f, hindex, hf, hfname.trans hname⟩
  · rintro ⟨i, f, hindex, hf, hfname⟩
    obtain rfl : c.index = i := Option.some.inj (h.1.symm.trans hindex)
    exact ⟨hindex, f, hf, hfname.trans hname.symm⟩

variable {t : TableProvider}

/-- Recorded positions are positions of the bind schema. -/
theorem positions_of_recorded {E : Type} {columns : E → List String} {exprs : List E} {b : Builder V}
    (hlen : t.bindSchema.fields.length = t.outputSchema.fields.length)
    (h : Recorded t.outputSchema remote (exprs.flatMap columns) {} b) :
    ∀ i ∈ b.referencedColumns, ∃ e ∈ exprs, ∃ n ∈ columns e, ∃ name,
      Backs t.outputSchema t.bindSchema n ⟨i, name⟩ := by
  intro i hi
  rcases h i hi with hi | ⟨n, hn, hindex, -⟩
  · cases hi
  · obtain ⟨e, he, hn⟩ := List.mem_flatMap.1 hn
    obtain ⟨f, hf, -⟩ := Schema.indexOf_spec hindex
    have hlt : i < t.bindSchema.fields.length := by
      have := (List.getElem?_eq_some_iff.1 hf).1
      omega
    exact ⟨e, he, n, hn, t.bindSchema.fields[i].name, hindex, _, List.getElem?_eq_getElem hlt, rfl⟩

theorem buildAll_located : ∀ {es : List (Expr V)} {b : Builder V},
    ∀ spec ∈ (buildAll K schema schema b es).1.reduceOption, ∃ e ∈ es, isPushable K schema e = true ∧
      e.LocatedAt (Backs schema schema) spec ∧
        ∀ n, n ∈ (kept K schema e).columns ↔ ∃ c ∈ spec.references, Backs schema schema n c
  | [], b, spec, hspec => by simp [buildAll] at hspec
  | e :: es, b, spec, hspec => by
    simp only [buildAll, List.reduceOption_mem_iff, List.mem_cons] at hspec
    rcases hspec with hfirst | hrest
    · have hpushable : isPushable K schema e = true := by
        rw [← build_isSome K schema e b, ← hfirst]; rfl
      exact ⟨e, List.mem_cons_self, hpushable, build_located (Prod.ext hfirst.symm rfl)⟩
    · obtain ⟨e', he', h⟩ := buildAll_located spec (List.reduceOption_mem_iff.2 hrest)
      exact ⟨e', List.mem_cons_of_mem _ he', h⟩

/-- Every pushable filter has its node in the list. -/
theorem buildAll_emits : ∀ {es : List (Expr V)} {b : Builder V} {e : Expr V}, e ∈ es → isPushable K schema e = true →
    ∃ spec ∈ (buildAll K schema schema b es).1.reduceOption,
      ∀ n, n ∈ (kept K schema e).columns ↔ ∃ c ∈ spec.references, Backs schema schema n c
  | e' :: es, b, e, he, hpushable => by
    simp only [buildAll, List.reduceOption_mem_iff, List.mem_cons]
    rcases List.mem_cons.1 he with rfl | he
    · obtain ⟨spec, hspec⟩ := Option.isSome_iff_exists.1 ((build_isSome K schema e b).trans hpushable)
      exact ⟨spec, Or.inl hspec.symm, (build_located (Prod.ext hspec rfl)).2⟩
    · obtain ⟨spec, hspec, h⟩ := buildAll_emits he hpushable
      exact ⟨spec, Or.inr (List.reduceOption_mem_iff.1 hspec), h⟩

/-- Static filters go out under public names, so they are located exactly when every column of a
pushed filter kept the worker's name. -/
theorem scanPushdown_coordinates {filters : List (Expr V)} {p : WirePushdown V} (ht : Renamed t)
    (hp : t.scanPushdown K filters = some p) :
    Coordinates Expr.LocatedAt Expr.columns t filters p ↔
      (t.filterPushdown = some false ∨ ∀ f ∈ filters, isPushable K t.outputSchema f = true →
        ∀ n ∈ (kept K t.outputSchema f).columns, Unrenamed t n) := by
  unfold scanPushdown at hp
  split at hp
  · rename_i hdeclined
    cases hp
    simp only [hdeclined, true_or, iff_true]
    exact ⟨by simp, by simp⟩
  · rename_i hdeclined
    simp only [hdeclined, false_or]
    have hcarries := serialize_carries K hp
    constructor
    · intro hcoordinates f hf hpushable n hn
      obtain ⟨spec, hspec, hrefs⟩ := buildAll_emits (b := {}) hf hpushable
      obtain ⟨c, hc, hbacks⟩ := (hrefs n).1 hn
      rcases hcarries with ⟨hnil, -⟩ | ⟨blob, hblob, hpredicates, -⟩
      · simp [hnil] at hspec
      · rw [← hpredicates] at hspec
        obtain ⟨predicate, hpredicate, rfl⟩ := List.mem_map.1 hspec
        obtain ⟨e, -, hlocated⟩ := hcoordinates.predicates blob hblob predicate hpredicate
        obtain ⟨m, hm⟩ := Located.references hlocated c hc
        exact (backs_bind_iff hbacks).1 ⟨hbacks.1, hm.2⟩
    · intro hunrenamed
      refine ⟨?_, ?_⟩
      · intro blob hblob predicate hpredicate
        rcases hcarries with ⟨-, hnone, -⟩ | ⟨blob', hblob', hpredicates, -⟩
        · simp [hnone] at hblob
        · obtain rfl : blob' = blob := by simpa [hblob'] using hblob
          have hspec := hpredicates ▸ List.mem_map_of_mem hpredicate
          obtain ⟨e, he, hpushable, hlocated, hrefs⟩ := buildAll_located _ hspec
          refine ⟨e, he, hlocated.relocate ?_⟩
          intro c hc n hbacks
          exact (backs_bind_iff hbacks).2 (hunrenamed e he hpushable n ((hrefs n).2 ⟨c, hc, hbacks⟩))
      · intro i hi
        rcases hcarries with ⟨-, -, hcolumns, -⟩ | ⟨-, -, -, -, hcolumns, -⟩
        · simp [hcolumns] at hi
        · rw [hcolumns] at hi
          exact positions_of_recorded (renamed_length ht) (buildAll_recorded K t.outputSchema filters {}) i hi

/-- Whatever carries the nodes of the runtime translation is located. -/
theorem physical_coordinates {exprs : List (PhysicalExpr V)} {side : Bool} {p : WirePushdown V}
    {joinKeys : List (JoinKeys V)} (ht : Renamed t)
    (hp : p.Carries (buildPhysicalAll K t.outputSchema t.bindSchema side {} exprs).1
      { (buildPhysicalAll K t.outputSchema t.bindSchema side {} exprs).2 with joinKeys := joinKeys }) :
    Coordinates PhysicalExpr.LocatedAt PhysicalExpr.columns t exprs p := by
  refine ⟨?_, ?_⟩
  · intro blob hblob predicate hpredicate
    rcases hp with ⟨-, hnone, -⟩ | ⟨blob', hblob', hpredicates, -⟩
    · simp [hnone] at hblob
    · obtain rfl : blob' = blob := by simpa [hblob'] using hblob
      exact buildPhysicalAll_located _ (hpredicates ▸ List.mem_map_of_mem hpredicate)
  · intro i hi
    rcases hp with ⟨-, -, hcolumns, -⟩ | ⟨-, -, -, -, hcolumns, -⟩
    · simp [hcolumns] at hi
    · rw [hcolumns] at hi
      exact positions_of_recorded (renamed_length ht)
        (buildPhysicalAll_recorded K t.outputSchema t.bindSchema side exprs {}) i hi

/-- **Wire coordinates of a renaming table.** Runtime snapshots and deltas always agree with the
bind schema; static filters do exactly when none of their pushed columns is renamed. -/
theorem coordinates_agree (ht : Renamed t) :
    (∀ (filters : List (Expr V)) (p : WirePushdown V), t.scanPushdown K filters = some p →
      (Coordinates Expr.LocatedAt Expr.columns t filters p ↔
        (t.filterPushdown = some false ∨ ∀ f ∈ filters, isPushable K t.outputSchema f = true →
          ∀ n ∈ (kept K t.outputSchema f).columns, Unrenamed t n))) ∧
    (∀ (exprs : List (PhysicalExpr V)) (sideJoinKeys : Bool) (p : WirePushdown V),
      serializePhysicalForRemote K t.outputSchema t.bindSchema exprs sideJoinKeys = some p →
        Coordinates PhysicalExpr.LocatedAt PhysicalExpr.columns t exprs p) ∧
    (∀ (exprs : List (PhysicalExpr V)) (revision previousCount : Nat) (p : WirePushdown V),
      serializePhysicalDeltaForRemote K t.outputSchema t.bindSchema exprs revision previousCount = some p →
        Coordinates PhysicalExpr.LocatedAt PhysicalExpr.columns t exprs p) := by
  refine ⟨?_, ?_, ?_⟩
  · intro filters p hp
    exact scanPushdown_coordinates ht hp
  · intro exprs side p hp
    exact physical_coordinates ht (serializePhysicalForRemote_carries K hp)
  · intro exprs revision previousCount p hp
    exact physical_coordinates ht (serializePhysicalDeltaForRemote_carries K hp)

theorem coordinates_agree_swapped :
    (∃ p, swappedTable.scanPushdown Kernel.integers [equalsOne "b"] = some p ∧
      Coordinates Expr.LocatedAt Expr.columns swappedTable [equalsOne "b"] p) ∧
    (∃ p, serializePhysicalForRemote Kernel.integers swappedTable.outputSchema swappedTable.bindSchema
        [tupleFilter] true = some p ∧
      Coordinates PhysicalExpr.LocatedAt PhysicalExpr.columns swappedTable [tupleFilter] p) ∧
    (∃ p, serializePhysicalDeltaForRemote Kernel.integers swappedTable.outputSchema swappedTable.bindSchema
        [tupleFilter] 2 3 = some p ∧
      Coordinates PhysicalExpr.LocatedAt PhysicalExpr.columns swappedTable [tupleFilter] p) := by
  obtain ⟨hstatic, hsnapshot, hdelta⟩ := @coordinates_agree Int Kernel.integers swappedTable swappedTable_renamed
  refine ⟨?_, ?_, ?_⟩
  · obtain ⟨p, hp⟩ : ∃ p, swappedTable.scanPushdown Kernel.integers [equalsOne "b"] = some p := ⟨_, rfl⟩
    refine ⟨p, hp, (hstatic _ p hp).2 (Or.inr ?_)⟩
    intro f hf _ n hn
    rw [List.mem_singleton] at hf
    subst hf
    obtain rfl : n = "b" := by simpa [kept, equalsOne, Expr.columns] using hn
    exact ⟨1, ⟨"b", .int64, true, []⟩, by decide, rfl, rfl⟩
  · obtain ⟨p, hp⟩ : ∃ p, serializePhysicalForRemote Kernel.integers swappedTable.outputSchema
        swappedTable.bindSchema [tupleFilter] true = some p := ⟨_, rfl⟩
    exact ⟨p, hp, hsnapshot _ _ p hp⟩
  · obtain ⟨p, hp⟩ : ∃ p, serializePhysicalDeltaForRemote Kernel.integers swappedTable.outputSchema
        swappedTable.bindSchema [tupleFilter] 2 3 = some p := ⟨_, rfl⟩
    exact ⟨p, hp, hdelta _ _ _ p hp⟩

/-- The static filter `a = 1` is sent as column 0 named `a`, where the worker bound `c`. -/
theorem equalsOne_misplaced :
    Renamed swappedTable ∧
      ∃ p, swappedTable.scanPushdown Kernel.integers [equalsOne "a"] = some p ∧
        ¬ Coordinates Expr.LocatedAt Expr.columns swappedTable [equalsOne "a"] p := by
  have ht := swappedTable_renamed
  obtain ⟨p, hp⟩ : ∃ p, swappedTable.scanPushdown Kernel.integers [equalsOne "a"] = some p := ⟨_, rfl⟩
  refine ⟨ht, p, hp, ?_⟩
  rw [scanPushdown_coordinates ht hp]
  rintro (hdeclined | hunrenamed)
  · exact absurd hdeclined (by decide)
  · obtain ⟨i, f, hindex, hf, hname⟩ := hunrenamed _ (List.mem_singleton_self _) (by decide) "a" (by decide)
    have hzero : swappedTable.outputSchema.indexOf "a" = some 0 := by decide
    obtain rfl : 0 = i := Option.some.inj (hzero.symm.trans hindex)
    cases hf
    exact absurd hname (by decide)

end VgiDatafusion
