import Mathlib.Data.List.ReduceOption
import VgiDatafusion.Filters.Meaning
import VgiDatafusion.Provider

/-!
# Which predicate a pushed filter becomes

`build` drops a conjunct it cannot express and keeps the rest. `kept` is that expression: the filter
with every unpushable side of an AND deleted. The predicate emitted for a filter accepts exactly the
rows `kept` accepts (`build_means`), and `kept` accepts every row the filter does
(`accepts_kept`), so the predicate is a superset and is exact only when the deleted conjuncts never
decide a row. An OR below which a conjunct was deleted is where that matters: DataFusion splits a
top-level AND before it asks, and never looks below an OR.

`build_shape` is what makes `isPushable` (an empty builder) speak about `build` in any later state.
-/
namespace VgiDatafusion

open Kleene TableProvider

variable {V : Type} (K : Kernel V) (schema : Schema)

/-- The filter without the conjuncts the builder drops. -/
def kept : Expr V → Expr V
  | .binary l .and r =>
    match isPushable K schema l, isPushable K schema r with
    | true, true => .binary (kept l) .and (kept r)
    | true, false => kept l
    | false, true => kept r
    | false, false => .binary l .and r
  | .binary l .or r =>
    if (logicalOrEqualities K schema l r).isSome then .binary l .or r
    else .binary (kept l) .or (kept r)
  | e => e

/-- No AND below has a side the builder drops. -/
def DropsNothing : Expr V → Prop
  | .binary l .and r =>
    isPushable K schema l = true ∧ isPushable K schema r = true ∧ DropsNothing l ∧ DropsNothing r
  | .binary l .or r => DropsNothing l ∧ DropsNothing r
  | _ => True

variable {K schema}

theorem kept_of_dropsNothing : ∀ {e : Expr V}, DropsNothing K schema e → kept K schema e = e
  | .binary l .and r, h => by
    obtain ⟨hl, hr, hdl, hdr⟩ := h
    simp [kept, hl, hr, kept_of_dropsNothing hdl, kept_of_dropsNothing hdr]
  | .binary l .or r, h => by
    simp only [kept, kept_of_dropsNothing h.1, kept_of_dropsNothing h.2, ite_self]
  | .binary _ (.cmp _) _, _ | .binary _ (.other _) _, _ | .column _ _, _ | .literal _, _ | .cast _ _, _
  | .isNull _, _ | .isNotNull _, _ | .inList _ _ _, _ | .other _ _, _ => rfl

/-- Deleting conjuncts only widens: every AND and OR of the tree is in a positive position. -/
theorem accepts_kept {row : Row V schema} : ∀ {e : Expr V}, e.accepts K row → (kept K schema e).accepts K row
  | .binary l .and r, h => by
    obtain ⟨hl, hr⟩ := (Expr.accepts_and K).1 h
    simp only [kept]
    split
    · exact (Expr.accepts_and K).2 ⟨accepts_kept hl, accepts_kept hr⟩
    · exact accepts_kept hl
    · exact accepts_kept hr
    · exact h
  | .binary l .or r, h => by
    simp only [kept]
    split
    · exact h
    · rcases (Expr.accepts_or K).1 h with hl | hr
      · exact (Expr.accepts_or K).2 (Or.inl (accepts_kept hl))
      · exact (Expr.accepts_or K).2 (Or.inr (accepts_kept hr))
  | .binary _ (.cmp _) _, h | .binary _ (.other _) _, h | .column _ _, h | .literal _, h | .cast _ _, h
  | .isNull _, h | .isNotNull _, h | .inList _ _ _, h | .other _ _, h => h

/-! ## The result's shape does not depend on the builder's state -/

section
variable (b b₁ : Builder V)

theorem remoteColumn_shape (schema remote : Schema) (name : String) :
    (remoteColumn schema remote b name).1 = (remoteColumn schema remote b₁ name).1 := by
  unfold remoteColumn
  split
  · rfl
  · split <;> rfl

theorem membership_shape (name : String) (values : List (ScalarValue V)) :
    (membership K schema schema b name values).1.map containsJoinKeys =
      (membership K schema schema b₁ name values).1.map containsJoinKeys := by
  have hcolumn := remoteColumn_shape b b₁ schema schema name
  unfold membership
  split
  · rfl
  · cases h : remoteColumn schema schema b name with
    | mk column b' => cases h₁ : remoteColumn schema schema b₁ name with
      | mk column₁ b₁' =>
        rw [h, h₁] at hcolumn
        cases hcolumn
        cases column with
        | none => rfl
        | some column =>
          dsimp only
          cases joinKeysIpc K column.name values <;> rfl

theorem comparisonLeaf_shape (name : String) (value : ScalarValue V) (op : Operator) :
    (comparisonLeaf schema schema b name value op).1.map containsJoinKeys =
      (comparisonLeaf schema schema b₁ name value op).1.map containsJoinKeys := by
  have hcolumn := remoteColumn_shape b b₁ schema schema name
  unfold comparisonLeaf
  cases h : remoteColumn schema schema b name with
  | mk column b' => cases h₁ : remoteColumn schema schema b₁ name with
    | mk column₁ b₁' =>
      rw [h, h₁] at hcolumn
      cases hcolumn
      cases column with
      | none => rfl
      | some column =>
        dsimp only
        cases opToken op <;> cases Constant.fromScalar value <;> rfl

theorem nullLeaf_shape (name : Option String) (negated : Bool) :
    (nullLeaf schema schema b name negated).1.map containsJoinKeys =
      (nullLeaf schema schema b₁ name negated).1.map containsJoinKeys := by
  cases name with
  | none => rfl
  | some name =>
    have hcolumn := remoteColumn_shape b b₁ schema schema name
    simp only [nullLeaf]
    cases h : remoteColumn schema schema b name with
    | mk column b' => cases h₁ : remoteColumn schema schema b₁ name with
      | mk column₁ b₁' =>
        rw [h, h₁] at hcolumn
        cases hcolumn
        cases column <;> rfl

end

theorem keepExpressible_shape {l r l₁ r₁ : Option Spec} (hl : l.map containsJoinKeys = l₁.map containsJoinKeys)
    (hr : r.map containsJoinKeys = r₁.map containsJoinKeys) :
    (keepExpressible l r).map containsJoinKeys = (keepExpressible l₁ r₁).map containsJoinKeys := by
  cases l <;> cases l₁ <;> cases r <;> cases r₁ <;> simp_all [keepExpressible, containsJoinKeys]

theorem bothOrNone_shape {l r l₁ r₁ : Option Spec} (hl : l.map containsJoinKeys = l₁.map containsJoinKeys)
    (hr : r.map containsJoinKeys = r₁.map containsJoinKeys) :
    (bothOrNone l r).map containsJoinKeys = (bothOrNone l₁ r₁).map containsJoinKeys := by
  cases l <;> cases l₁ <;> cases r <;> cases r₁ <;> simp_all [bothOrNone, containsJoinKeys]
  split <;> simp [containsJoinKeys, *]

theorem build_shape (K : Kernel V) (schema : Schema) : ∀ (e : Expr V) (b b₁ : Builder V),
    (build K schema schema b e).1.map containsJoinKeys = (build K schema schema b₁ e).1.map containsJoinKeys
  | .binary l .and r, b, b₁ => by
    simp only [build]
    exact keepExpressible_shape (build_shape K schema l _ _) (build_shape K schema r _ _)
  | .binary l .or r, b, b₁ => by
    simp only [build]
    cases logicalOrEqualities K schema l r with
    | some equalities => exact membership_shape b b₁ _ _
    | none =>
      have h := bothOrNone_shape (build_shape K schema l b b₁)
        (build_shape K schema r (build K schema schema b l).2 (build K schema schema b₁ l).2)
      dsimp only
      split <;> rename_i heq <;> split <;> rename_i heq₁ <;> simp_all
  | .binary l (.cmp c) r, b, b₁ => by
    simp only [build]
    split
    · rfl
    · exact comparisonLeaf_shape b b₁ _ _ _
  | .binary l (.other s) r, b, b₁ => by
    simp only [build]
    split
    · rfl
    · exact comparisonLeaf_shape b b₁ _ _ _
  | .isNull e, b, b₁ => nullLeaf_shape b b₁ _ _
  | .isNotNull e, b, b₁ => nullLeaf_shape b b₁ _ _
  | .inList e list negated, b, b₁ => by
    simp only [build]
    split
    · rfl
    · split
      · exact membership_shape b b₁ _ _
      · rfl
  | .column _ _, _, _ | .literal _, _, _ | .cast _ _, _, _ | .other _ _, _, _ => rfl

/-- `isPushable` answers for the builder in any state. -/
theorem build_isSome (K : Kernel V) (schema : Schema) (e : Expr V) (b : Builder V) :
    (build K schema schema b e).1.isSome = isPushable K schema e := by
  have h := congrArg Option.isSome (build_shape K schema e b {})
  simpa [isPushable] using h

/-! ## The state after a translation -/

theorem build_grows (K : Kernel V) (schema : Schema) : ∀ (e : Expr V) (b : Builder V), b.Grows (build K schema schema b e).2
  | .binary l .and r, b => by
    simp only [build]
    exact (build_grows K schema l b).trans (build_grows K schema r _)
  | .binary l .or r, b => by
    simp only [build]
    cases logicalOrEqualities K schema l r with
    | some equalities => exact membership_grows K b _ _
    | none =>
      have h := (build_grows K schema l b).trans (build_grows K schema r _)
      dsimp only
      split
      · rw [h.rollback]; exact .refl b
      · exact h
  | .binary l (.cmp c) r, b => by
    simp only [build]
    split
    · exact .refl b
    · exact comparisonLeaf_grows b _ _ _
  | .binary l (.other s) r, b => by
    simp only [build]
    split
    · exact .refl b
    · exact comparisonLeaf_grows b _ _ _
  | .isNull e, b => nullLeaf_grows b _ _
  | .isNotNull e, b => nullLeaf_grows b _ _
  | .inList e list negated, b => by
    simp only [build]
    split
    · exact .refl b
    · split
      · exact membership_grows K b _ _
      · exact .refl b
  | .column _ _, b | .literal _, b | .cast _ _, b | .other _ _, b => .refl b

/-! ## The meaning of the emitted node -/

section
variable {row : Row V schema} {read : ColumnRef → ScalarValue V}

theorem collectLogicalOrEqualities_accepts : ∀ {e : Expr V} {terms : List (String × ScalarValue V)},
    collectLogicalOrEqualities K schema e = some terms →
      (e.accepts K row ↔ ∃ term ∈ terms, K.compare .eq (row.column term.1) term.2 = .yes)
  | .binary l .or r, terms, h => by
    simp only [collectLogicalOrEqualities, Option.bind_eq_some_iff, Option.map_eq_some_iff] at h
    obtain ⟨ls, hls, rs, hrs, rfl⟩ := h
    rw [Expr.accepts_or, collectLogicalOrEqualities_accepts hls, collectLogicalOrEqualities_accepts hrs]
    simp only [List.mem_append, or_and_right, exists_or]
  | .binary l (.cmp .eq) r, terms, h => by
    simp only [collectLogicalOrEqualities, Option.map_eq_some_iff] at h
    obtain ⟨term, hterm, rfl⟩ := h
    have heq := equalityTerm_compare K (columnName_eval K row) (literal_eval K row)
      (literal_eval K row) (columnName_eval K row) hterm
    simp [heq, Expr.accepts, Expr.eval, Kernel.operator]
  | .binary _ .and _, _, h | .binary _ (.cmp .ne) _, _, h | .binary _ (.cmp .lt) _, _, h
  | .binary _ (.cmp .le) _, _, h | .binary _ (.cmp .gt) _, _, h | .binary _ (.cmp .ge) _, _, h
  | .binary _ (.other _) _, _, h | .column _ _, _, h | .literal _, _, h | .cast _ _, _, h | .isNull _, _, h
  | .isNotNull _, _, h | .inList _ _ _, _, h | .other _ _, _, h => by simp [collectLogicalOrEqualities] at h

theorem logicalOrEqualities_accepts {l r : Expr V} {name : String} {values : List (ScalarValue V)}
    (h : logicalOrEqualities K schema l r = some (name, values)) :
    (Expr.binary l .or r).accepts K row ↔ ∃ v ∈ values, K.compare .eq (row.column name) v = .yes := by
  simp only [logicalOrEqualities, Option.bind_eq_some_iff] at h
  obtain ⟨terms, hterms, hsame⟩ := h
  rw [collectLogicalOrEqualities_accepts hterms]
  exact sameColumnMembership_exists hsame fun n v => K.compare .eq (row.column n) v = .yes

variable (hread : Resolves schema row read)
include hread

/-- The node of a binary operator other than AND and OR. -/
theorem build_comparison_means {b b' : Builder V} {l r : Expr V} {op : Operator} {spec : Spec}
    (h : (match orient (columnName schema l) (literal K r) (literal K l) (columnName schema r) op with
      | none => (none, b)
      | some (name, value, op) => comparisonLeaf schema schema b name value op) = (some spec, b')) :
    Means K read b' spec ((Expr.binary l op r).accepts K row) := by
  split at h
  · cases h
  · rename_i name value op' horient
    obtain ⟨token, rfl, hmeans⟩ := comparisonLeaf_means K hread h
    obtain ⟨c, rfl, heq⟩ := orient_compare K (columnName_eval K row) (literal_eval K row)
      (literal_eval K row) (columnName_eval K row) horient
    refine hmeans.congr ?_
    simp [heq, Expr.accepts, Expr.eval, Kernel.operator]

/-- **The emitted node accepts exactly what the kept expression accepts.** -/
theorem build_means : ∀ {e : Expr V} {b b' : Builder V} {spec : Spec},
    build K schema schema b e = (some spec, b') → Means K read b' spec ((kept K schema e).accepts K row)
  | .binary l .and r, b, b', spec, h => by
    simp only [build] at h
    obtain ⟨hspec, rfl⟩ := Prod.mk.inj h
    have hl := build_isSome K schema l b
    have hr := build_isSome K schema r (build K schema schema b l).2
    have hgrow := build_grows K schema r (build K schema schema b l).2
    cases hleft : build K schema schema b l with
    | mk left b₁ => cases hright : build K schema schema b₁ r with
      | mk right b₂ =>
        simp only [hleft, hright] at hspec hl hr hgrow
        cases left <;> cases right <;>
          simp only [keepExpressible, Option.some.injEq, Option.isSome_none, Option.isSome_some] at hspec hl hr
        · cases hspec
        · subst hspec
          simpa [kept, ← hl, ← hr, hleft, hright] using build_means hright
        · subst hspec
          simpa [kept, ← hl, ← hr, hleft, hright] using (build_means hleft).mono hgrow
        · subst hspec
          have hand := ((build_means hleft).mono hgrow).and (build_means hright)
          simpa [kept, ← hl, ← hr, hleft, hright, Expr.accepts_and] using hand
  | .binary l .or r, b, b', spec, h => by
    simp only [build] at h
    cases hequalities : logicalOrEqualities K schema l r with
    | some equalities =>
      rw [hequalities] at h
      obtain ⟨-, hmeans⟩ := membership_means K hread h
      refine hmeans.congr ?_
      rw [← logicalOrEqualities_accepts hequalities]
      simp [kept, hequalities]
    | none =>
      have hgrow := build_grows K schema r (build K schema schema b l).2
      rw [hequalities] at h
      cases hleft : build K schema schema b l with
      | mk left b₁ => cases hright : build K schema schema b₁ r with
        | mk right b₂ =>
          simp only [hleft, hright] at h hgrow
          cases left <;> cases right <;> simp only [bothOrNone] at h
          case some.some left right =>
            -- an OR over an external set is given up, so only plain sides remain
            by_cases hkeys : containsJoinKeys (.or left right) = true
            · simp [hkeys] at h
            · simp only [hkeys] at h
              obtain ⟨hspec, rfl⟩ := Prod.mk.inj h
              cases hspec
              have hor := ((build_means hleft).mono hgrow).or (build_means hright)
              simpa [kept, hequalities, Expr.accepts_or] using hor
          all_goals cases h
  | .binary l (.cmp c) r, b, b', spec, h => build_comparison_means hread h
  | .binary l (.other s) r, b, b', spec, h => build_comparison_means hread h
  | .isNull e, b, b', spec, h => by
    obtain ⟨n, hname, hmeans⟩ := nullLeaf_means K hread h
    refine hmeans.congr ?_
    simp [kept, Expr.accepts, Expr.eval, columnName_eval K row hname]
  | .isNotNull e, b, b', spec, h => by
    obtain ⟨n, hname, hmeans⟩ := nullLeaf_means K hread h
    refine hmeans.congr ?_
    simp [kept, Expr.accepts, Expr.eval, columnName_eval K row hname]
  | .inList e list negated, b, b', spec, h => by
    simp only [build] at h
    split at h
    · cases h
    · rename_i hnegated
      split at h
      · rename_i name values hname hvalues
        obtain ⟨hatoms, hmeans⟩ := membership_means K hread h
        refine hmeans.congr ?_
        simp only [Bool.not_eq_true] at hnegated
        subst hnegated
        simp only [kept, Expr.accepts, Expr.eval, columnName_eval K row hname, literals_eval K row hvalues,
          Kernel.truthOf_ofTri, Kernel.inList_eq_yes]
        refine exists_congr fun v => and_congr_right fun hv => ?_
        obtain ⟨-, ty, payload, rfl⟩ := hatoms v hv
        rw [Kernel.member_atom]
      · cases h
  | .column _ _, _, _, _, h | .literal _, _, _, _, h | .cast _ _, _, _, _, h | .other _ _, _, _, _, h => by
    simp [build] at h

end

/-! ## A list of filters -/

theorem buildAll_grows (K : Kernel V) (schema : Schema) :
    ∀ (es : List (Expr V)) (b : Builder V), b.Grows (buildAll K schema schema b es).2
  | [], b => .refl b
  | e :: es, b => (build_grows K schema e b).trans (buildAll_grows K schema es _)

theorem buildAll_append (K : Kernel V) (schema : Schema) : ∀ (es fs : List (Expr V)) (b : Builder V),
    buildAll K schema schema b (es ++ fs) =
      ((buildAll K schema schema b es).1 ++ (buildAll K schema schema (buildAll K schema schema b es).2 fs).1,
        (buildAll K schema schema (buildAll K schema schema b es).2 fs).2)
  | [], fs, b => rfl
  | e :: es, fs, b => by simp [buildAll, buildAll_append K schema es fs]

/-- A filter leaves a predicate when it is pushable. -/
theorem buildAll_count (K : Kernel V) (schema : Schema) : ∀ (es : List (Expr V)) (b : Builder V),
    (buildAll K schema schema b es).1.reduceOption.length = es.countP (isPushable K schema)
  | [], b => rfl
  | e :: es, b => by
    have hsome := build_isSome K schema e b
    have ih := buildAll_count K schema es (build K schema schema b e).2
    cases hspec : (build K schema schema b e).1 <;>
      simp_all [buildAll, List.reduceOption_cons_of_none, List.reduceOption_cons_of_some]

/-- The predicate a snapshot carries for the filter after `pre`: those of the pushable filters among
`pre` come first. -/
def emitted (K : Kernel V) (schema : Schema) (p : WirePushdown V) (pre : List (Expr V)) : Option Predicate :=
  p.blob.bind (·.document.predicates[pre.countP (isPushable K schema)]?)

/-- One predicate of the pushdown is TRUE for the worker. -/
def WirePushdown.satisfies (K : Kernel V) (p : WirePushdown V) (read : ColumnRef → ScalarValue V)
    (predicate : Predicate) : Prop :=
  ∃ blob ∈ p.blob, predicate.expression.eval K read blob.values p.joinKeys = .yes

/-- The predicate for a pushable filter accepts exactly the rows its kept part accepts. -/
theorem serialize_emitted {pre post : List (Expr V)} {f : Expr V} {p : WirePushdown V}
    (hp : serialize K schema (pre ++ f :: post) = some p) (hf : isPushable K schema f = true) :
    ∃ predicate, emitted K schema p pre = some predicate ∧
      ∀ (row : Row V schema) (read : ColumnRef → ScalarValue V), Resolves schema row read →
        (p.satisfies K read predicate ↔ (kept K schema f).accepts K row) := by
  have hcarries := serialize_carries K hp
  have hcount := buildAll_count K schema pre {}
  rw [buildAll_append] at hcarries
  generalize hpre : buildAll K schema schema {} pre = done at hcarries hcount
  obtain ⟨spec, hspec⟩ := Option.isSome_iff_exists.1 ((build_isSome K schema f done.2).trans hf)
  simp only [buildAll, hspec, List.reduceOption_append, List.reduceOption_cons_of_some] at hcarries
  rcases hcarries with ⟨hnil, -⟩ | ⟨blob, hblob, hpredicates, hvalues, -, hkeys⟩
  · simp at hnil
  · have hat : (blob.document.predicates.map (·.expression))[pre.countP (isPushable K schema)]? = some spec := by
      rw [hpredicates, ← hcount, List.getElem?_append_right (Nat.le_refl _)]
      simp
    rw [List.getElem?_map, Option.map_eq_some_iff] at hat
    obtain ⟨predicate, hpredicate, rfl⟩ := hat
    refine ⟨predicate, by simp [emitted, hblob, hpredicate], ?_⟩
    intro row read hread
    have hmeans := (build_means hread (Prod.ext hspec rfl)).mono (buildAll_grows K schema post _)
    have hdenote := hmeans.denote
    simp only [Spec.denote] at hdenote
    simp [WirePushdown.satisfies, hblob, hvalues, hkeys, hdenote]

theorem buildAll_denote {row : Row V schema} {read : ColumnRef → ScalarValue V} (hread : Resolves schema row read) :
    ∀ (es : List (Expr V)) (b : Builder V),
      (∀ spec ∈ (buildAll K schema schema b es).1.reduceOption,
        spec.denote K read (buildAll K schema schema b es).2 = .yes) ↔
      ∀ e ∈ es, isPushable K schema e = true → (kept K schema e).accepts K row
  | [], b => by simp [buildAll]
  | e :: es, b => by
    have hsome := build_isSome K schema e b
    have hgrow := buildAll_grows K schema es (build K schema schema b e).2
    have ih := buildAll_denote hread es (build K schema schema b e).2
    cases hspec : (build K schema schema b e).1 with
    | none =>
      rw [hspec] at hsome
      simp [buildAll, hspec, ih, ← hsome]
    | some spec =>
      rw [hspec] at hsome
      have hmeans := (build_means hread (Prod.ext hspec rfl)).mono hgrow
      simp [buildAll, hspec, ih, ← hsome, hmeans.denote]

/-- A static pushdown accepts the rows every kept filter accepts. -/
theorem serialize_accepts_iff {filters : List (Expr V)} {p : WirePushdown V}
    (hp : serialize K schema filters = some p) {row : Row V schema} {read : ColumnRef → ScalarValue V}
    (hread : Resolves schema row read) :
    p.accepts K read ↔ ∀ f ∈ filters, isPushable K schema f = true → (kept K schema f).accepts K row := by
  rw [← buildAll_denote hread filters {}]
  rcases serialize_carries K hp with ⟨hnil, hnone, -⟩ | ⟨blob, hblob, hpredicates, hvalues, -, hkeys⟩
  · simp [WirePushdown.accepts, hnone, hnil]
  · rw [← hpredicates]
    simp [WirePushdown.accepts, hblob, hvalues, hkeys, Spec.denote]

/-- A worker that binds the public schema itself. -/
def Row.lookup (row : Row V schema) (column : ColumnRef) : ScalarValue V :=
  (row.cells[column.index]?).getD .untypedNull

theorem Row.lookup_resolves (remote : Schema) (row : Row V schema) : Resolves remote row row.lookup := by
  intro i field value _ hvalue
  simp [Row.lookup, hvalue]

/-- The emitted predicate is TRUE exactly where the filter is. -/
def EmitsExactly (K : Kernel V) (schema : Schema) (p : WirePushdown V) (pre : List (Expr V)) (f : Expr V) : Prop :=
  ∃ predicate, emitted K schema p pre = some predicate ∧
    ∀ (row : Row V schema) (read : ColumnRef → ScalarValue V), Resolves schema row read →
      (p.satisfies K read predicate ↔ f.accepts K row)

theorem emitsExactly_iff {pre post : List (Expr V)} {f : Expr V} {p : WirePushdown V}
    (hp : serialize K schema (pre ++ f :: post) = some p) (hf : isPushable K schema f = true) :
    EmitsExactly K schema p pre f ↔ ∀ row : Row V schema, (kept K schema f).accepts K row → f.accepts K row := by
  obtain ⟨predicate, hemitted, hmeaning⟩ := serialize_emitted hp hf
  constructor
  · rintro ⟨predicate', hemitted', hexact⟩ row hkept
    obtain rfl : predicate = predicate' := Option.some.inj (hemitted.symm.trans hemitted')
    have hlookup := row.lookup_resolves schema
    exact (hexact row _ hlookup).1 ((hmeaning row _ hlookup).2 hkept)
  · intro hback
    refine ⟨predicate, hemitted, ?_⟩
    intro row read hread
    rw [hmeaning row read hread]
    exact ⟨hback row, accepts_kept⟩

/-! ## The answer `Exact` -/

/-- **When an `Exact` answer is true**: exactly when the conjuncts the builder drops never decide a
row. Dropping none is enough. -/
theorem supportsFiltersPushdown_exact (t : TableProvider) {pre post : List (Expr V)} {f : Expr V}
    {p : WirePushdown V} (hp : serialize K t.outputSchema (pre ++ f :: post) = some p) :
    ((t.supportsFiltersPushdown K [f] = [.exact] → EmitsExactly K t.outputSchema p pre f) ↔
      (t.supportsFiltersPushdown K [f] = [.exact] →
        ∀ row : Row V t.outputSchema, (kept K t.outputSchema f).accepts K row → f.accepts K row)) ∧
    (DropsNothing K t.outputSchema f →
      t.supportsFiltersPushdown K [f] = [.exact] → EmitsExactly K t.outputSchema p pre f) := by
  have hpushable : t.supportsFiltersPushdown K [f] = [.exact] → isPushable K t.outputSchema f = true := by
    intro hexact
    by_cases hf : isPushable K t.outputSchema f = true
    · exact hf
    · simp [supportsFiltersPushdown, filterSupport, hf] at hexact
  constructor
  · exact imp_congr_right fun hexact => emitsExactly_iff hp (hpushable hexact)
  · intro hdrops hexact
    rw [emitsExactly_iff hp (hpushable hexact), kept_of_dropsNothing hdrops]
    exact fun _ h => h

def integer (n : Int) : ScalarValue Int := .atom .int64 (some n)

def integerRow (a b c : Int) : Row Int integerColumns := ⟨[integer a, integer b, integer c], rfl⟩

/-- `name = 1`. -/
def equalsOne (name : String) : Expr Int := .binary (.column none name) (.cmp .eq) (.literal (integer 1))

/-- `(a = 1 AND a + b = 7) OR c = 2`. -/
def guardedSum : Expr Int :=
  .binary
    (.binary (.binary (.column none "a") (.cmp .eq) (.literal (integer 1))) .and
      (.binary (.binary (.column none "a") (.other "+") (.column none "b")) (.cmp .eq) (.literal (integer 7))))
    .or (.binary (.column none "c") (.cmp .eq) (.literal (integer 2)))

/-- `5 < a OR c = 2`, where nothing is dropped. -/
def plainOr : Expr Int :=
  .binary (.binary (.literal (integer 5)) (.cmp .lt) (.column none "a")) .or
    (.binary (.column none "c") (.cmp .eq) (.literal (integer 2)))

theorem supportsFiltersPushdown_exact_plainOr :
    ∃ p, serialize Kernel.integers exactTable.outputSchema [plainOr] = some p ∧
      EmitsExactly Kernel.integers exactTable.outputSchema p [] plainOr := by
  obtain ⟨p, hp⟩ : ∃ p, serialize Kernel.integers exactTable.outputSchema ([] ++ plainOr :: []) = some p :=
    ⟨_, rfl⟩
  refine ⟨p, hp, (supportsFiltersPushdown_exact exactTable hp).2 ⟨trivial, trivial⟩ ?_⟩
  decide

/-- The conjunct `a + b = 7` is dropped under an OR, yet the filter is answered `Exact`: the row
`(1, 0, 0)` passes the worker and nothing above the scan removes it. -/
theorem guardedSum_not_exact :
    (∀ l r, guardedSum ≠ .binary l .and r) ∧
      exactTable.supportsFiltersPushdown Kernel.integers [guardedSum] = [.exact] ∧
      ∃ p, serialize Kernel.integers exactTable.outputSchema [guardedSum] = some p ∧
        ¬ EmitsExactly Kernel.integers exactTable.outputSchema p [] guardedSum := by
  refine ⟨by simp [guardedSum], by decide, ?_⟩
  obtain ⟨p, hp⟩ : ∃ p, serialize Kernel.integers exactTable.outputSchema ([] ++ guardedSum :: []) = some p :=
    ⟨_, rfl⟩
  refine ⟨p, hp, ?_⟩
  rw [emitsExactly_iff hp (by decide)]
  intro hback
  have haccepts := hback (integerRow 1 0 0) (by unfold Expr.accepts; decide)
  exact absurd haccepts (by unfold Expr.accepts; decide)

end VgiDatafusion
