import VgiDatafusion.Filters.Exact

/-!
# Pushdown never loses a row

A row on which every input expression is TRUE satisfies every emitted predicate, for the three
entry points of filters.rs. For logical expressions this is `build_means` with `accepts_kept`. The
physical front end is followed directly: `buildPhysical_covers` for one node,
`structMemberships_covers` for a struct `IN` taken apart into one set a column, and
`buildPhysicalTop_covers` for the flattened conjunctions at the top.

Taking a struct `IN` apart is sound because a tuple with a NULL field is refused (`membership`
wants non-null constants), so whatever the kernel says about two NULL fields does not matter.
-/
namespace VgiDatafusion

open Kleene

variable {V : Type} {K : Kernel V} {schema remote : Schema}

/-! ## The physical front end grows the state -/

theorem buildPhysical_grows (K : Kernel V) (schema remote : Schema) (side : Bool) :
    ∀ (e : PhysicalExpr V) (b : Builder V), b.Grows (buildPhysical K schema remote side b e).2
  | .binary l .and r, b => by
    have h := (buildPhysical_grows K schema remote side l b).trans (buildPhysical_grows K schema remote side r _)
    simp only [buildPhysical]
    split
    · rw [h.rollback]; exact .refl b
    · exact h
  | .binary l .or r, b => by
    have h := (buildPhysical_grows K schema remote side l b).trans (buildPhysical_grows K schema remote side r _)
    simp only [buildPhysical]
    split
    · exact membership_grows K b _ _
    · split
      · rw [h.rollback]; exact .refl b
      · exact h
  | .binary l (.cmp c) r, b => by
    simp only [buildPhysical]
    split
    · exact .refl b
    · exact comparisonLeaf_grows b _ _ _
  | .binary l (.other s) r, b => by
    simp only [buildPhysical]
    split
    · exact .refl b
    · exact comparisonLeaf_grows b _ _ _
  | .isNull e, b => nullLeaf_grows b _ _
  | .isNotNull e, b => nullLeaf_grows b _ _
  | .inList e list negated, b => by
    simp only [buildPhysical]
    split
    · exact .refl b
    · split
      · split
        · exact membership_grows K b _ _
        · exact .refl b
      · exact .refl b
  | .column _ _, b | .literal _, b | .cast _ _, b | .scalarFunction _ _, b | .other _ _, b => .refl b

theorem memberships_grows (K : Kernel V) (schema remote : Schema) (tuples : List (List (ScalarValue V))) :
    ∀ (names : List String) (i : Nat) (b : Builder V), b.Grows (memberships K schema remote b tuples i names).2
  | [], i, b => .refl b
  | name :: names, i, b => by
    have h : b.Grows (membership K schema remote b name (fieldValues tuples i)).2 := membership_grows K b _ _
    simp only [memberships]
    split
    · rename_i b₁ heq
      rwa [heq] at h
    · rename_i spec b₁ heq
      rw [heq] at h
      have hrest := h.trans (memberships_grows K schema remote tuples names (i + 1) b₁)
      split <;> rename_i hmore <;> rwa [hmore] at hrest

theorem structMemberships_grows (K : Kernel V) (schema remote : Schema) (b : Builder V) (e : PhysicalExpr V)
    (list : List (PhysicalExpr V)) (negated : Bool) :
    b.Grows (structMemberships K schema remote b e list negated).2 := by
  unfold structMemberships
  split
  · exact .refl b
  · split
    · exact .refl b
    · rename_i columns _
      split
      · exact .refl b
      · split
        · exact .refl b
        · rename_i tuples _
          have h := memberships_grows K schema remote tuples columns 0 b
          split
          · rename_i b' heq
            rw [heq] at h
            rw [h.rollback]; exact .refl b
          · rename_i specs b' heq
            rwa [heq] at h

/-! ## One node -/

section
variable {row : Row V schema} {read : ColumnRef → ScalarValue V}

theorem collectPhysicalOrEqualities_accepts : ∀ {e : PhysicalExpr V} {terms : List (String × ScalarValue V)},
    collectPhysicalOrEqualities K schema e = some terms →
      (e.accepts K row ↔ ∃ term ∈ terms, K.compare .eq (row.column term.1) term.2 = .yes)
  | .binary l .or r, terms, h => by
    simp only [collectPhysicalOrEqualities, Option.bind_eq_some_iff, Option.map_eq_some_iff] at h
    obtain ⟨ls, hls, rs, hrs, rfl⟩ := h
    rw [PhysicalExpr.accepts_or, collectPhysicalOrEqualities_accepts hls, collectPhysicalOrEqualities_accepts hrs]
    simp only [List.mem_append, or_and_right, exists_or]
  | .binary l (.cmp .eq) r, terms, h => by
    simp only [collectPhysicalOrEqualities, Option.map_eq_some_iff] at h
    obtain ⟨term, hterm, rfl⟩ := h
    have heq := equalityTerm_compare K (physicalColumnName_eval K row) (physicalLiteral_eval K row)
      (physicalLiteral_eval K row) (physicalColumnName_eval K row) hterm
    simp [heq, PhysicalExpr.accepts, PhysicalExpr.eval, Kernel.operator]
  | .binary _ .and _, _, h | .binary _ (.cmp .ne) _, _, h | .binary _ (.cmp .lt) _, _, h
  | .binary _ (.cmp .le) _, _, h | .binary _ (.cmp .gt) _, _, h | .binary _ (.cmp .ge) _, _, h
  | .binary _ (.other _) _, _, h | .column _ _, _, h | .literal _, _, h | .cast _ _, _, h | .isNull _, _, h
  | .isNotNull _, _, h | .inList _ _ _, _, h | .scalarFunction _ _, _, h | .other _ _, _, h => by
    simp [collectPhysicalOrEqualities] at h

theorem physicalOrEqualities_accepts {l r : PhysicalExpr V} {name : String} {values : List (ScalarValue V)}
    (h : physicalOrEqualities K schema l r = some (name, values)) :
    (PhysicalExpr.binary l .or r).accepts K row ↔ ∃ v ∈ values, K.compare .eq (row.column name) v = .yes := by
  simp only [physicalOrEqualities, Option.bind_eq_some_iff] at h
  obtain ⟨terms, hterms, hsame⟩ := h
  rw [collectPhysicalOrEqualities_accepts hterms]
  exact sameColumnMembership_exists hsame fun n v => K.compare .eq (row.column n) v = .yes

variable (hread : Resolves remote row read)
include hread

theorem buildPhysical_comparison_covers {b b' : Builder V} {l r : PhysicalExpr V} {op : Operator} {spec : Spec}
    (h : (match orient (physicalColumnName schema l) (physicalLiteral K r) (physicalLiteral K l)
          (physicalColumnName schema r) op with
      | none => (none, b)
      | some (name, value, op) => comparisonLeaf schema remote b name value op) = (some spec, b')) :
    Covers K read b' spec ((PhysicalExpr.binary l op r).accepts K row) := by
  split at h
  · cases h
  · rename_i name value op' horient
    obtain ⟨token, rfl, hmeans⟩ := comparisonLeaf_means K hread h
    obtain ⟨c, rfl, heq⟩ := orient_compare K (physicalColumnName_eval K row) (physicalLiteral_eval K row)
      (physicalLiteral_eval K row) (physicalColumnName_eval K row) horient
    refine (hmeans.congr ?_).covers
    simp [heq, PhysicalExpr.accepts, PhysicalExpr.eval, Kernel.operator]

theorem buildPhysical_covers {side : Bool} : ∀ {e : PhysicalExpr V} {b b' : Builder V} {spec : Spec},
    buildPhysical K schema remote side b e = (some spec, b') → Covers K read b' spec (e.accepts K row)
  | .binary l .and r, b, b', spec, h => by
    simp only [buildPhysical] at h
    have hgrow := buildPhysical_grows K schema remote side r (buildPhysical K schema remote side b l).2
    cases hleft : buildPhysical K schema remote side b l with
    | mk left b₁ => cases hright : buildPhysical K schema remote side b₁ r with
      | mk right b₂ =>
        simp only [hleft, hright] at h hgrow
        cases left <;> cases right <;> simp only [keepExpressible] at h <;> cases h
        · exact (buildPhysical_covers hright).weaken fun ha => ((PhysicalExpr.accepts_and K).1 ha).2
        · exact ((buildPhysical_covers hleft).mono hgrow).weaken fun ha => ((PhysicalExpr.accepts_and K).1 ha).1
        · exact (((buildPhysical_covers hleft).mono hgrow).and (buildPhysical_covers hright)).weaken
            (PhysicalExpr.accepts_and K).1
  | .binary l .or r, b, b', spec, h => by
    simp only [buildPhysical] at h
    have hgrow := buildPhysical_grows K schema remote side r (buildPhysical K schema remote side b l).2
    split at h
    · rename_i name values hequalities
      by_cases hside : side = true
      · rw [if_pos hside] at hequalities
        obtain ⟨-, hmeans⟩ := membership_means K hread h
        exact (hmeans.congr (physicalOrEqualities_accepts hequalities).symm).covers
      · simp [hside] at hequalities
    · cases hleft : buildPhysical K schema remote side b l with
      | mk left b₁ => cases hright : buildPhysical K schema remote side b₁ r with
        | mk right b₂ =>
          simp only [hleft, hright] at h hgrow
          cases left <;> cases right <;> simp only [bothOrNone] at h
          case some.some left right =>
            by_cases hkeys : containsJoinKeys (.or left right) = true
            · simp [hkeys] at h
            · simp only [hkeys] at h
              cases h
              exact (((buildPhysical_covers hleft).mono hgrow).or (buildPhysical_covers hright)).weaken
                (PhysicalExpr.accepts_or K).1
          all_goals cases h
  | .binary l (.cmp c) r, b, b', spec, h => buildPhysical_comparison_covers hread h
  | .binary l (.other s) r, b, b', spec, h => buildPhysical_comparison_covers hread h
  | .isNull e, b, b', spec, h => by
    obtain ⟨n, hname, hmeans⟩ := nullLeaf_means K hread h
    refine (hmeans.congr ?_).covers
    simp [PhysicalExpr.accepts, PhysicalExpr.eval, physicalColumnName_eval K row hname]
  | .isNotNull e, b, b', spec, h => by
    obtain ⟨n, hname, hmeans⟩ := nullLeaf_means K hread h
    refine (hmeans.congr ?_).covers
    simp [PhysicalExpr.accepts, PhysicalExpr.eval, physicalColumnName_eval K row hname]
  | .inList e list negated, b, b', spec, h => by
    simp only [buildPhysical] at h
    split at h
    · cases h
    · rename_i hguard
      split at h
      · rename_i name values hname hvalues
        split at h
        · obtain ⟨hatoms, hmeans⟩ := membership_means K hread h
          refine (hmeans.congr ?_).covers
          simp only [Bool.or_eq_true, not_or, Bool.not_eq_true] at hguard
          simp only [PhysicalExpr.accepts, PhysicalExpr.eval, physicalColumnName_eval K row hname,
            physicalLiterals_eval K row hvalues, Kernel.truthOf_ofTri, hguard.1, Kernel.inList_eq_yes]
          refine exists_congr fun v => and_congr_right fun hv => ?_
          obtain ⟨-, ty, payload, rfl⟩ := hatoms v hv
          rw [Kernel.member_atom]
        · cases h
      · cases h
  | .column _ _, _, _, _, h | .literal _, _, _, _, h | .cast _ _, _, _, _, h | .scalarFunction _ _, _, _, _, h
  | .other _ _, _, _, _, h => by simp [buildPhysical] at h

/-! ## A struct `IN` taken apart -/

omit hread in
theorem tupleFields_eval {arity : Nat} {e : PhysicalExpr V} {fields : List (ScalarValue V)}
    (h : tupleFields K arity e = some fields) : ∃ shape, e.eval K row = .tuple shape 1 false fields := by
  unfold tupleFields at h
  split at h
  · rename_i shape rows null0 columns hliteral
    split at h
    · cases h
    · rename_i hguard
      simp only [Bool.or_eq_true, bne_iff_ne, ne_eq, not_or, Decidable.not_not, Bool.not_eq_true] at hguard
      obtain ⟨⟨rfl, rfl⟩, -⟩ := hguard
      have hfields := ListFacts.map_of_mapM (g := id) (h := id) (fun h => (K.tryFromArray_value h).symm) h
      simp only [List.map_id] at hfields
      subst hfields
      exact ⟨shape, physicalLiteral_eval K row hliteral⟩
  · cases h

omit hread in
theorem physicalStructColumns_eval {e : PhysicalExpr V} {columns : List String}
    (h : physicalStructColumns schema e = some columns) :
    e.eval K row = .tuple "struct" 1 false (columns.map row.column) := by
  unfold physicalStructColumns at h
  split at h
  · rename_i name args
    split at h
    · rename_i hname
      simp only [PhysicalExpr.eval, Kernel.scalarFunction, hname, if_true, physicalColumns_eval K row h]
    · cases h
  · cases h

/-- The sets of a struct `IN`: a tuple that matches field by field from `i` on is in all of them. -/
theorem memberships_covers {tuples : List (List (ScalarValue V))} :
    ∀ {names : List String} {i : Nat} {b b' : Builder V} {specs : List Spec},
      memberships K schema remote b tuples i names = (some specs, b') →
        ∀ spec ∈ specs, Covers K read b' spec
          (∃ tuple ∈ tuples, K.fieldsMatch (names.map row.column) (tuple.drop i) = true)
  | [], i, b, b', specs, h, spec, hspec => by
    simp only [memberships, Prod.mk.injEq, Option.some.injEq] at h
    simp [← h.1] at hspec
  | name :: names, i, b, b', specs, h, spec, hspec => by
    simp only [memberships] at h
    split at h
    · cases h
    · rename_i first b₁ hfirst
      have hgrow := memberships_grows K schema remote tuples names (i + 1) b₁
      split at h
      · cases h
      · rename_i rest b₂ hrest
        cases h
        rw [hrest] at hgrow
        -- what a match at `i` says about field `i` and about the fields after it
        have hsplit : ∀ tuple : List (ScalarValue V),
            K.fieldsMatch ((name :: names).map row.column) (tuple.drop i) = true →
              ∃ y, tuple[i]? = some y ∧ K.fieldMatches (row.column name) y = true ∧
                K.fieldsMatch (names.map row.column) (tuple.drop (i + 1)) = true := by
          intro tuple hmatch
          cases hdrop : tuple.drop i with
          | nil => simp [hdrop, Kernel.fieldsMatch] at hmatch
          | cons y ys =>
            simp only [hdrop, List.map_cons, Kernel.fieldsMatch, Bool.and_eq_true] at hmatch
            have hat : tuple[i]? = some y := by
              rw [← List.head?_drop, hdrop, List.head?_cons]
            have htail : tuple.drop (i + 1) = ys := by
              rw [← List.tail_drop, hdrop, List.tail_cons]
            exact ⟨y, hat, hmatch.1, by rw [htail]; exact hmatch.2⟩
        rcases List.mem_cons.1 hspec with rfl | hspec
        · obtain ⟨hatoms, hmeans⟩ := membership_means K hread hfirst
          refine (hmeans.covers.mono hgrow).weaken ?_
          rintro ⟨tuple, htuple, hmatch⟩
          obtain ⟨y, hy, hfield, -⟩ := hsplit tuple hmatch
          have hmem : y ∈ fieldValues tuples i := List.mem_filterMap.2 ⟨tuple, htuple, hy⟩
          refine ⟨y, hmem, ?_⟩
          simpa [Kernel.fieldMatches, (hatoms y hmem).1] using hfield
        · refine (memberships_covers hrest spec hspec).weaken ?_
          rintro ⟨tuple, htuple, hmatch⟩
          obtain ⟨y, -, -, htail⟩ := hsplit tuple hmatch
          exact ⟨tuple, htuple, htail⟩

theorem structMemberships_covers {b b' : Builder V} {e : PhysicalExpr V} {list : List (PhysicalExpr V)}
    {negated : Bool} {specs : List Spec}
    (h : structMemberships K schema remote b e list negated = (some specs, b')) :
    ∀ spec ∈ specs, Covers K read b' spec ((PhysicalExpr.inList e list negated).accepts K row) := by
  unfold structMemberships at h
  split at h
  · cases h
  · rename_i hguard
    simp only [Bool.or_eq_true, not_or, Bool.not_eq_true] at hguard
    split at h
    · cases h
    · rename_i columns hcolumns
      split at h
      · cases h
      · split at h
        · cases h
        · rename_i tuples htuples
          split at h
          · cases h
          · rename_i specs' b₁ hmemberships
            cases h
            intro spec hspec
            refine (memberships_covers hread hmemberships spec hspec).weaken ?_
            intro haccepts
            simp only [PhysicalExpr.accepts, PhysicalExpr.eval, hguard.1, Kernel.truthOf_ofTri,
              Kernel.inList_eq_yes, PhysicalExpr.evalList_eq, List.mem_map] at haccepts
            obtain ⟨v, ⟨x, hx, rfl⟩, hmember⟩ := haccepts
            obtain ⟨fields, hfields, htuple⟩ := ListFacts.mem_of_mapM htuples hx
            obtain ⟨shape, heval⟩ := tupleFields_eval htuple
            rw [physicalStructColumns_eval hcolumns, heval] at hmember
            exact ⟨fields, hfields, by simpa [Kernel.member] using hmember⟩

/-! ## The top level -/

omit hread in
theorem buildPhysicalTop_grows (K : Kernel V) (schema remote : Schema) (side : Bool) :
    ∀ (e : PhysicalExpr V) (b : Builder V), b.Grows (buildPhysicalTop K schema remote side b e).2
  | .binary l .and r, b => by
    simp only [buildPhysicalTop]
    exact (buildPhysicalTop_grows K schema remote side l b).trans (buildPhysicalTop_grows K schema remote side r _)
  | .inList e list negated, b => by
    have hstruct := structMemberships_grows K schema remote b e list negated
    simp only [buildPhysicalTop]
    split
    · split
      · rename_i specs b₁ heq
        rwa [heq] at hstruct
      · rename_i b₁ heq
        rw [heq] at hstruct
        exact hstruct.trans (buildPhysical_grows K schema remote side _ _)
    · exact buildPhysical_grows K schema remote side _ b
  | .binary l .or r, b | .binary l (.cmp c) r, b | .binary l (.other s) r, b | .isNull e, b | .isNotNull e, b
  | .column _ _, b | .literal _, b | .cast _ _, b | .scalarFunction _ _, b | .other _ _, b => by
    simp only [buildPhysicalTop]
    exact buildPhysical_grows K schema remote side _ b

/-- The zero or one predicates of a node that is not flattened. -/
theorem buildPhysical_toList_covers {side : Bool} {e : PhysicalExpr V} {b : Builder V} :
    ∀ spec ∈ (buildPhysical K schema remote side b e).1.toList,
      Covers K read (buildPhysical K schema remote side b e).2 spec (e.accepts K row) := by
  intro spec hspec
  exact buildPhysical_covers hread (Prod.ext (Option.mem_toList.1 hspec) rfl)

theorem buildPhysicalTop_covers {side : Bool} : ∀ {e : PhysicalExpr V} {b : Builder V},
    ∀ spec ∈ (buildPhysicalTop K schema remote side b e).1,
      Covers K read (buildPhysicalTop K schema remote side b e).2 spec (e.accepts K row)
  | .binary l .and r, b, spec, hspec => by
    simp only [buildPhysicalTop] at hspec ⊢
    have hgrow := buildPhysicalTop_grows K schema remote side r (buildPhysicalTop K schema remote side b l).2
    rcases List.mem_append.1 hspec with hl | hr
    · exact ((buildPhysicalTop_covers spec hl).mono hgrow).weaken fun ha => ((PhysicalExpr.accepts_and K).1 ha).1
    · exact (buildPhysicalTop_covers spec hr).weaken fun ha => ((PhysicalExpr.accepts_and K).1 ha).2
  | .inList e list negated, b, spec, hspec => by
    simp only [buildPhysicalTop] at hspec ⊢
    split
    · rename_i hside
      rw [if_pos hside] at hspec
      split
      · rename_i specs b₁ heq
        rw [heq] at hspec
        exact structMemberships_covers hread heq spec hspec
      · rename_i b₁ heq
        rw [heq] at hspec
        exact buildPhysical_toList_covers hread spec hspec
    · rename_i hside
      rw [if_neg hside] at hspec
      exact buildPhysical_toList_covers hread spec hspec
  | .binary l .or r, b, spec, hspec | .binary l (.cmp c) r, b, spec, hspec
  | .binary l (.other s) r, b, spec, hspec | .isNull e, b, spec, hspec | .isNotNull e, b, spec, hspec
  | .column _ _, b, spec, hspec | .literal _, b, spec, hspec | .cast _ _, b, spec, hspec
  | .scalarFunction _ _, b, spec, hspec | .other _ _, b, spec, hspec => by
    simp only [buildPhysicalTop] at hspec ⊢
    exact buildPhysical_toList_covers hread spec hspec

omit hread in
theorem buildPhysicalAll_grows (K : Kernel V) (schema remote : Schema) (side : Bool) :
    ∀ (es : List (PhysicalExpr V)) (b : Builder V), b.Grows (buildPhysicalAll K schema remote side b es).2
  | [], b => .refl b
  | e :: es, b =>
    (buildPhysicalTop_grows K schema remote side e b).trans (buildPhysicalAll_grows K schema remote side es _)

theorem buildPhysicalAll_covers {side : Bool} : ∀ {es : List (PhysicalExpr V)} {b : Builder V},
    ∀ spec ∈ (buildPhysicalAll K schema remote side b es).1,
      Covers K read (buildPhysicalAll K schema remote side b es).2 spec (∀ e ∈ es, e.accepts K row)
  | [], b, spec, hspec => by simp [buildPhysicalAll] at hspec
  | e :: es, b, spec, hspec => by
    simp only [buildPhysicalAll] at hspec ⊢
    rcases List.mem_append.1 hspec with hfirst | hrest
    · have hgrow := buildPhysicalAll_grows K schema remote side es (buildPhysicalTop K schema remote side b e).2
      exact ((buildPhysicalTop_covers hread spec hfirst).mono hgrow).weaken fun h => h e List.mem_cons_self
    · exact (buildPhysicalAll_covers spec hrest).weaken fun h e' he' => h e' (List.mem_cons_of_mem _ he')

omit hread in
/-- The logical front end, through the kept part of each filter. -/
theorem buildAll_covers (hself : Resolves schema row read) : ∀ {es : List (Expr V)} {b : Builder V},
    ∀ spec ∈ (buildAll K schema schema b es).1.reduceOption,
      Covers K read (buildAll K schema schema b es).2 spec (∀ e ∈ es, e.accepts K row)
  | [], b, spec, hspec => by simp [buildAll] at hspec
  | e :: es, b, spec, hspec => by
    simp only [buildAll, List.reduceOption_mem_iff, List.mem_cons] at hspec
    rcases hspec with hfirst | hrest
    · have hmeans := build_means hself (Prod.ext hfirst.symm rfl)
      have hgrow := buildAll_grows K schema es (build K schema schema b e).2
      exact (hmeans.covers.mono hgrow).weaken fun h => accepts_kept (h e List.mem_cons_self)
    · exact (buildAll_covers hself spec (List.reduceOption_mem_iff.2 hrest)).weaken
        fun h e' he' => h e' (List.mem_cons_of_mem _ he')

end

/-! ## Without side batches -/

section
variable (b : Builder V)

theorem remoteColumn_joinKeys (name : String) : (remoteColumn schema remote b name).2.joinKeys = b.joinKeys := by
  unfold remoteColumn
  split
  · rfl
  · split
    · rfl
    · dsimp only
      split <;> rfl

theorem comparisonLeaf_joinKeys (name : String) (value : ScalarValue V) (op : Operator) :
    (comparisonLeaf schema remote b name value op).2.joinKeys = b.joinKeys := by
  have h : (remoteColumn schema remote b name).2.joinKeys = b.joinKeys := remoteColumn_joinKeys b name
  unfold comparisonLeaf
  split <;> rename_i heq <;> rw [heq] at h
  · exact h
  · split <;> exact h

theorem nullLeaf_joinKeys (name : Option String) (negated : Bool) :
    (nullLeaf schema remote b name negated).2.joinKeys = b.joinKeys := by
  cases name with
  | none => rfl
  | some name =>
    have h : (remoteColumn schema remote b name).2.joinKeys = b.joinKeys := remoteColumn_joinKeys b name
    simp only [nullLeaf]
    split <;> rename_i heq <;> rw [heq] at h <;> exact h

end

theorem buildPhysical_joinKeys (K : Kernel V) (schema remote : Schema) : ∀ (e : PhysicalExpr V) (b : Builder V),
    (buildPhysical K schema remote false b e).2.joinKeys = b.joinKeys
  | .binary l .and r, b => by
    have h : (buildPhysical K schema remote false (buildPhysical K schema remote false b l).2 r).2.joinKeys =
        b.joinKeys := by rw [buildPhysical_joinKeys K schema remote r, buildPhysical_joinKeys K schema remote l]
    simp only [buildPhysical]
    split
    · simp [Builder.rollback, Builder.checkpoint, h]
    · exact h
  | .binary l .or r, b => by
    have h : (buildPhysical K schema remote false (buildPhysical K schema remote false b l).2 r).2.joinKeys =
        b.joinKeys := by rw [buildPhysical_joinKeys K schema remote r, buildPhysical_joinKeys K schema remote l]
    simp only [buildPhysical, Bool.false_eq_true, if_false]
    split
    · simp [Builder.rollback, Builder.checkpoint, h]
    · exact h
  | .binary l (.cmp c) r, b => by
    simp only [buildPhysical]
    split
    · rfl
    · exact comparisonLeaf_joinKeys b _ _ _
  | .binary l (.other s) r, b => by
    simp only [buildPhysical]
    split
    · rfl
    · exact comparisonLeaf_joinKeys b _ _ _
  | .isNull e, b => nullLeaf_joinKeys b _ _
  | .isNotNull e, b => nullLeaf_joinKeys b _ _
  | .inList e list negated, b => by
    simp only [buildPhysical, Bool.false_eq_true, if_false]
    split
    · rfl
    · split <;> rfl
  | .column _ _, b | .literal _, b | .cast _ _, b | .scalarFunction _ _, b | .other _ _, b => rfl

theorem buildPhysicalTop_joinKeys (K : Kernel V) (schema remote : Schema) : ∀ (e : PhysicalExpr V) (b : Builder V),
    (buildPhysicalTop K schema remote false b e).2.joinKeys = b.joinKeys
  | .binary l .and r, b => by
    simp only [buildPhysicalTop]
    rw [buildPhysicalTop_joinKeys K schema remote r, buildPhysicalTop_joinKeys K schema remote l]
  | .inList _ _ _, b | .binary _ .or _, b | .binary _ (.cmp _) _, b | .binary _ (.other _) _, b | .isNull _, b
  | .isNotNull _, b | .column _ _, b | .literal _, b | .cast _ _, b | .scalarFunction _ _, b | .other _ _, b => by
    simp only [buildPhysicalTop, Bool.false_eq_true, if_false]
    exact buildPhysical_joinKeys K schema remote _ b

/-- Continuation metadata has no side batch, and no node that would need one. -/
theorem buildPhysicalAll_joinKeys (K : Kernel V) (schema remote : Schema) :
    ∀ (es : List (PhysicalExpr V)) (b : Builder V),
      (buildPhysicalAll K schema remote false b es).2.joinKeys = b.joinKeys
  | [], b => rfl
  | e :: es, b => by
    simp only [buildPhysicalAll]
    rw [buildPhysicalAll_joinKeys K schema remote es, buildPhysicalTop_joinKeys K schema remote e]

theorem Builder.without_joinKeys {b : Builder V} (h : b.joinKeys = []) : { b with joinKeys := [] } = b := by
  cases b
  cases h
  rfl

/-! ## The three entry points -/

/-- A pushdown whose nodes cover `P` accepts every row where `P` holds. -/
theorem WirePushdown.Carries.accepts {p : WirePushdown V} {specs : List Spec} {b : Builder V}
    {read : ColumnRef → ScalarValue V} {P : Prop} (hp : p.Carries specs b)
    (hcovers : ∀ spec ∈ specs, Covers K read b spec P) (hP : P) : p.accepts K read := by
  intro blob hblob predicate hpredicate
  rcases hp with ⟨-, hnone, -, -⟩ | ⟨blob', hsome, hpredicates, hvalues, -, hkeys⟩
  · simp [hnone] at hblob
  · obtain rfl : blob' = blob := by simpa [hsome] using hblob
    have hmem : predicate.expression ∈ specs := by
      rw [← hpredicates]
      exact List.mem_map_of_mem hpredicate
    have hdenote := (hcovers _ hmem).denote hP
    simpa [Spec.denote, hvalues, hkeys] using hdenote

/-- **Filter pushdown never loses a row**: logical filters, runtime snapshots with or without side
batches, and runtime deltas. -/
theorem pushdown_keeps_row {row : Row V schema} {read : ColumnRef → ScalarValue V} :
    (∀ (exprs : List (Expr V)) (p : WirePushdown V), Resolves schema row read →
      serialize K schema exprs = some p → (∀ e ∈ exprs, e.accepts K row) → p.accepts K read) ∧
    (∀ (remote : Schema) (exprs : List (PhysicalExpr V)) (sideJoinKeys : Bool) (p : WirePushdown V),
      Resolves remote row read → serializePhysicalForRemote K schema remote exprs sideJoinKeys = some p →
        (∀ e ∈ exprs, e.accepts K row) → p.accepts K read) ∧
    (∀ (remote : Schema) (exprs : List (PhysicalExpr V)) (revision previousCount : Nat) (p : WirePushdown V),
      Resolves remote row read →
        serializePhysicalDeltaForRemote K schema remote exprs revision previousCount = some p →
          (∀ e ∈ exprs, e.accepts K row) → p.accepts K read) := by
  refine ⟨?_, ?_, ?_⟩
  · intro exprs p hread hp haccepts
    exact (serialize_carries K hp).accepts (buildAll_covers hread) haccepts
  · intro remote exprs side p hread hp haccepts
    exact (serializePhysicalForRemote_carries K hp).accepts (buildPhysicalAll_covers hread) haccepts
  · intro remote exprs revision previousCount p hread hp haccepts
    have hcarries := serializePhysicalDeltaForRemote_carries K hp
    rw [Builder.without_joinKeys (buildPhysicalAll_joinKeys K schema remote exprs {})] at hcarries
    exact hcarries.accepts (buildPhysicalAll_covers hread) haccepts

/-- The worker's names for `integerColumns`. -/
def workerColumns : Schema :=
  ⟨[⟨"x", .int64, true, []⟩, ⟨"y", .int64, true, []⟩, ⟨"z", .int64, true, []⟩], []⟩

/-- `struct(a, b) IN ((1, 2), (3, 4)) AND 0 < c`. -/
def tupleFilter : PhysicalExpr Int :=
  .binary
    (.inList (.scalarFunction "struct" [.column "a" 0, .column "b" 1])
      [.literal (.tuple "struct" 1 false [integer 1, integer 2]),
        .literal (.tuple "struct" 1 false [integer 3, integer 4])] false)
    .and (.binary (.literal (integer 0)) (.cmp .lt) (.column "c" 2))

theorem pushdown_keeps_row_tuples :
    (∃ p, serialize Kernel.integers integerColumns [guardedSum] = some p ∧
      p.accepts Kernel.integers (integerRow 1 2 2).lookup) ∧
    (∃ p, serializePhysicalForRemote Kernel.integers integerColumns workerColumns [tupleFilter] true = some p ∧
      p.predicateCount = 3 ∧ p.joinKeys.length = 2 ∧ p.accepts Kernel.integers (integerRow 1 2 2).lookup) ∧
    (∃ p, serializePhysicalDeltaForRemote Kernel.integers integerColumns workerColumns [tupleFilter] 1 4 = some p ∧
      p.predicateCount = 1 ∧ p.accepts Kernel.integers (integerRow 1 2 2).lookup) := by
  have hlogical : ∀ e ∈ [guardedSum], e.accepts Kernel.integers (integerRow 1 2 2) := by
    simp only [List.mem_singleton, forall_eq]
    unfold Expr.accepts
    decide
  have hphysical : ∀ e ∈ [tupleFilter], e.accepts Kernel.integers (integerRow 1 2 2) := by
    simp only [List.mem_singleton, forall_eq]
    unfold PhysicalExpr.accepts
    decide
  have hresolves := fun remote => (integerRow 1 2 2).lookup_resolves remote
  obtain ⟨hstatic, hsnapshot, hdelta⟩ :=
    @pushdown_keeps_row Int Kernel.integers integerColumns (integerRow 1 2 2) (integerRow 1 2 2).lookup
  refine ⟨?_, ?_, ?_⟩
  · obtain ⟨p, hp⟩ : ∃ p, serialize Kernel.integers integerColumns [guardedSum] = some p := ⟨_, rfl⟩
    exact ⟨p, hp, hstatic _ p (hresolves _) hp hlogical⟩
  · obtain ⟨p, hp, hcount, hkeys⟩ : ∃ p, serializePhysicalForRemote Kernel.integers integerColumns workerColumns
        [tupleFilter] true = some p ∧ p.predicateCount = 3 ∧ p.joinKeys.length = 2 := ⟨_, rfl, rfl, rfl⟩
    exact ⟨p, hp, hcount, hkeys, hsnapshot _ _ _ p (hresolves _) hp hphysical⟩
  · obtain ⟨p, hp, hcount⟩ : ∃ p, serializePhysicalDeltaForRemote Kernel.integers integerColumns workerColumns
        [tupleFilter] 1 4 = some p ∧ p.predicateCount = 1 := ⟨_, rfl, rfl⟩
    exact ⟨p, hp, hcount, hdelta _ _ _ _ p (hresolves _) hp hphysical⟩

end VgiDatafusion
