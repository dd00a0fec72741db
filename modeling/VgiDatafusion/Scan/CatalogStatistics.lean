import VgiDatafusion.Scan.SplitMetadata

/-!
# Catalog statistics and what they prune (lib.rs:2098-2104, 4211-4231, 4338-4469)

| here | there |
| --- | --- |
| `TextKernel` | the kernels with what they do on text: `>` of two scalars, equality |
| `catalogName` | the lookup in `column_mapping`, its entries in the order in which they are visited |
| `keptBounds` | `min` and `max` of a row as far as they are kept |
| `statisticsForCatalogTable` | `statistics_for_catalog_table` |
| `Pruner` | from the conjunction of the filters to `prune` on one container, anything that fails on the way included |
| `filtersPruneStatistics` | `filters_prune_statistics` |

A worker reports the bounds of an ENUM column by ordinal. They are dropped if the lower one is the greater text, but the
value in the middle of the enumeration may be the one that is out of order (`enum_bounds_iff`).
-/
namespace VgiDatafusion

variable {V : Type}

/-- The kernels, with what they do on text. -/
structure TextKernel (V : Type) extends Kernel V where
  text : String → V
  /-- `ScalarValue`'s `>`. -/
  exceeds : ScalarValue V → ScalarValue V → Bool
  exceeds_text : ∀ a b, exceeds (.atom .utf8 (some (text a))) (.atom .utf8 (some (text b))) = decide (b < a)
  text_injective : ∀ a b, text a = text b → a = b

def TextKernel.scalar (T : TextKernel V) (s : String) : ScalarValue V := .atom .utf8 (some (T.text s))

/-! ## The statistics -/

/-- The catalog's name for a worker's column; a name that is not mapped stays. -/
def catalogName (mapping : Option ColumnMapping) (worker : String) : String :=
  ((mapping.bind fun m => m.find? (·.2 == worker)).map (·.1)).getD worker

section
variable (T : TextKernel V) (mapping : Option ColumnMapping) (schema : Schema)

/-- `statistic_value` (`lib.rs:4211-4231`): the statistic as a value of the column's type. -/
def statisticValue (value : Option (ScalarValue V)) (target : DataType) : Option (ScalarValue V) :=
  value.bind (T.castTo · target)

/-- Both are dropped where the lower bound exceeds the upper one. -/
def keptBounds (row : StatisticRow V) (target : DataType) : Option (ScalarValue V) × Option (ScalarValue V) :=
  match statisticValue T row.min target, statisticValue T row.max target with
  | some min, some max => if T.exceeds min max then (none, none) else (some min, some max)
  | min, max => (min, max)

/-- The statistics of one column in `statistics_for_catalog_table` (`lib.rs:4343-4413`). -/
def catalogColumn (numRows : Precision) (row : StatisticRow V) (target : DataType) : ColumnStatistics V where
  nullCount := nullCount numRows row
  distinctCount := distinctCount row
  minValue := exactValue (keptBounds T row target).1
  maxValue := exactValue (keptBounds T row target).2

/-- One turn of the loop of `statistics_for_catalog_table` (`lib.rs:4343-4413`). -/
def claimCatalogRow (numRows : Precision) (columns : Claims V) (row : StatisticRow V) : Claims V :=
  match row.columnName.map (catalogName mapping) with
  | none => columns
  | some name =>
    match schema.fieldWithName name with
    | none => columns
    | some field => Function.update columns name (some (catalogColumn T numRows row field.dataType))

/-- `statistics_for_catalog_table` (`lib.rs:4343-4413`). -/
def statisticsForCatalogTable (rows : List (StatisticRow V)) (estimate maximum : Option Int) : Statistics V :=
  let numRows := (cardinalityRows estimate maximum).getD .absent
  let columns := rows.foldl (claimCatalogRow T mapping schema numRows) fun _ => none
  { numRows
    totalByteSize := .absent
    columnStatistics := (takeClaims schema.fields columns).map fun claim => (claim.map (·.2)).getD {} }

end

/-! ## Pruning -/

/-- The containers to keep, for the conjunction of some filters. -/
structure Pruner (V : Type) where
  keep : Schema → List (Expr V) → Statistics V → Option (List Bool)

/-- `filters_prune_statistics` (`lib.rs:4443-4469`): the scan is empty without asking the worker. -/
def filtersPruneStatistics (P : Pruner V) (schema : Schema) (statistics : Statistics V) (filters : List (Expr V)) : Bool :=
  if filters.isEmpty then false else P.keep schema filters statistics == some [false]

/-- A column as the statistics describe it. -/
structure TruthfulAt (T : TextKernel V) (column : ColumnStatistics V) (cells : List (ScalarValue V)) : Prop where
  nulls : ∀ n, column.nullCount = .exact n → (cells.filter (·.isNull)).length = n
  min : ∀ low, column.minValue = .exact low → ∀ cell ∈ cells, cell.isNull = false → T.exceeds low cell = false
  max : ∀ high, column.maxValue = .exact high → ∀ cell ∈ cells, cell.isNull = false → T.exceeds cell high = false

/-- The cells of one column. -/
def columnCells {schema : Schema} (rows : List (Row V schema)) (i : Nat) : List (ScalarValue V) :=
  rows.filterMap (·.cells[i]?)

/-- The statistics are true of these rows. -/
structure Truthful (T : TextKernel V) {schema : Schema} (statistics : Statistics V) (rows : List (Row V schema)) : Prop where
  numRows : ∀ n, statistics.numRows = .exact n → rows.length = n
  columns : ∀ (i : Nat) (column : ColumnStatistics V), statistics.columnStatistics[i]? = some column →
    TruthfulAt T column (columnCells rows i)

/-- Where the statistics are true, a pruned container has no row that satisfies the filters. -/
def Pruner.Sound (P : Pruner V) (T : TextKernel V) : Prop :=
  ∀ (schema : Schema) (filters : List (Expr V)) (statistics : Statistics V) (rows : List (Row V schema)),
    Truthful T statistics rows → P.keep schema filters statistics = some [false] →
      ∀ row ∈ rows, ¬ ∀ f ∈ filters, f.accepts T.toKernel row

/-! ## An ENUM column -/

/-- The values in the order of their ordinals, and those that occur in the column. -/
structure EnumColumn where
  enumeration : List String
  distinct : enumeration.Nodup
  present : List String
  declared : ∀ v ∈ present, v ∈ enumeration
  nonempty : present ≠ []

namespace EnumColumn

variable (E : EnumColumn)

/-- The present values by ordinal. -/
def ordered : List String := E.enumeration.filter (· ∈ E.present)

def first : String := E.ordered.headD ""

def last : String := E.ordered.getLastD ""

end EnumColumn

/-- The worker's row for the column: the values of the least and the greatest ordinal present. -/
structure Reports (T : TextKernel V) (E : EnumColumn) (row : StatisticRow V) : Prop where
  min : statisticValue T row.min .utf8 = some (T.scalar E.first)
  max : statisticValue T row.max .utf8 = some (T.scalar E.last)

/-- Column `i`, exposed as `Utf8`, is described by this row and by none after it. -/
structure Describes (mapping : Option ColumnMapping) (schema : Schema) (rows : List (StatisticRow V)) (i : Nat)
    (row : StatisticRow V) (name : String) : Prop where
  index : schema.indexOf name = some i
  utf8 : ∀ f, schema.fields[i]? = some f → f.dataType = .utf8
  named : row.columnName.map (catalogName mapping) = some name
  latest : ∃ before after, rows = before ++ row :: after ∧
    ∀ later ∈ after, later.columnName.map (catalogName mapping) ≠ some name

section
variable {T : TextKernel V} {mapping : Option ColumnMapping} {schema : Schema} {rows : List (StatisticRow V)}
  {estimate maximum : Option Int} {i : Nat} {row : StatisticRow V} {name : String}

theorem claimCatalogRow_other {numRows : Precision} {later : List (StatisticRow V)}
    (h : ∀ r ∈ later, r.columnName.map (catalogName mapping) ≠ some name) (columns : Claims V) :
    later.foldl (claimCatalogRow T mapping schema numRows) columns name = columns name := by
  induction later generalizing columns with
  | nil => rfl
  | cons r later ih =>
    rw [List.foldl_cons, ih fun r hr => h r (List.mem_cons_of_mem _ hr)]
    have hr := h r List.mem_cons_self
    unfold claimCatalogRow
    cases hname : r.columnName.map (catalogName mapping) with
    | none => rfl
    | some other =>
      have hne : name ≠ other := by
        rintro rfl
        exact hr hname
      cases hfield : schema.fieldWithName other with
      | none => simp [hfield]
      | some field => simp [hfield, Function.update_of_ne hne]

/-- The last row for a column is the one that counts. -/
theorem Describes.column (h : Describes mapping schema rows i row name) :
    (statisticsForCatalogTable T mapping schema rows estimate maximum).columnStatistics[i]? =
      some (catalogColumn T ((cardinalityRows estimate maximum).getD .absent) row .utf8) := by
  obtain ⟨before, after, rfl, hafter⟩ := h.latest
  obtain ⟨f, hf, hname⟩ := Schema.indexOf_spec h.index
  have hfield : schema.fieldWithName name = some f := by rw [Schema.fieldWithName_eq, h.index, Option.bind_some, hf]
  have hclaim : (before ++ row :: after).foldl (claimCatalogRow T mapping schema
      ((cardinalityRows estimate maximum).getD .absent)) (fun _ => none) name =
        some (catalogColumn T ((cardinalityRows estimate maximum).getD .absent) row .utf8) := by
    rw [List.foldl_append, List.foldl_cons, claimCatalogRow_other hafter]
    simp [claimCatalogRow, h.named, hfield, h.utf8 f hf]
  rw [statisticsForCatalogTable, List.getElem?_map, takeClaims_first h.index hclaim]
  rfl

/-- Each bound is missing or a bound of the texts. -/
structure Lexicographic (T : TextKernel V) (column : ColumnStatistics V) (values : List String) : Prop where
  min : column.minValue = .absent ∨ ∃ low, column.minValue = .exact (T.scalar low) ∧ ∀ v ∈ values, ¬ v < low
  max : column.maxValue = .absent ∨ ∃ high, column.maxValue = .exact (T.scalar high) ∧ ∀ v ∈ values, ¬ high < v

/-- The ends are the wrong way round, or no present value lies outside them. -/
def EnumColumn.Bounded (E : EnumColumn) : Prop := E.last < E.first ∨ ∀ v ∈ E.present, ¬ v < E.first ∧ ¬ E.last < v

theorem Reports.keptBounds {E : EnumColumn} (h : Reports T E row) : keptBounds T row .utf8 =
    if E.last < E.first then (none, none) else (some (T.scalar E.first), some (T.scalar E.last)) := by
  simp only [VgiDatafusion.keptBounds, h.min, h.max, TextKernel.scalar, T.exceeds_text, decide_eq_true_eq]

theorem TextKernel.scalar_injective {a b : String} (h : T.scalar a = T.scalar b) : a = b := by
  simp only [TextKernel.scalar, ScalarValue.atom.injEq, Option.some.injEq, true_and] at h
  exact T.text_injective a b h

theorem lexicographic_iff {E : EnumColumn} {numRows : Precision} (h : Reports T E row) :
    Lexicographic T (catalogColumn T numRows row .utf8) E.present ↔ E.Bounded := by
  by_cases hswapped : E.last < E.first
  · refine iff_of_true ⟨.inl ?_, .inl ?_⟩ (.inl hswapped) <;> simp [catalogColumn, h.keptBounds, hswapped, exactValue]
  · have hmin : (catalogColumn T numRows row .utf8).minValue = .exact (T.scalar E.first) := by
      simp [catalogColumn, h.keptBounds, hswapped, exactValue]
    have hmax : (catalogColumn T numRows row .utf8).maxValue = .exact (T.scalar E.last) := by
      simp [catalogColumn, h.keptBounds, hswapped, exactValue]
    constructor
    · rintro ⟨hlow, hhigh⟩
      rw [hmin] at hlow
      rw [hmax] at hhigh
      obtain ⟨low, hlow, hbelow⟩ := hlow.resolve_left (by simp)
      obtain ⟨high, hhigh, habove⟩ := hhigh.resolve_left (by simp)
      obtain rfl := TextKernel.scalar_injective (PrecisionOf.exact.inj hlow)
      obtain rfl := TextKernel.scalar_injective (PrecisionOf.exact.inj hhigh)
      exact .inr fun v hv => ⟨hbelow v hv, habove v hv⟩
    · rintro (hlt | hall)
      · exact absurd hlt hswapped
      · exact ⟨.inr ⟨E.first, hmin, fun v hv => (hall v hv).1⟩, .inr ⟨E.last, hmax, fun v hv => (hall v hv).2⟩⟩

/-- The rows of the table: those of column `i` hold the present values, and the rest of the statistics is true. -/
structure EnumRows (T : TextKernel V) (E : EnumColumn) (i : Nat) (statistics : Statistics V) (data : List (Row V schema)) :
    Prop where
  numRows : ∀ n, statistics.numRows = .exact n → data.length = n
  nulls : ∀ column, statistics.columnStatistics[i]? = some column → ∀ n, column.nullCount = .exact n →
    ((columnCells data i).filter (·.isNull)).length = n
  others : ∀ (j : Nat) (column : ColumnStatistics V), j ≠ i → statistics.columnStatistics[j]? = some column →
    TruthfulAt T column (columnCells data j)
  values : ∀ cell ∈ columnCells data i, cell.isNull = false → ∃ v ∈ E.present, cell = T.scalar v

/-- Lexicographic bounds are true ones. -/
theorem EnumRows.truthful {E : EnumColumn} {statistics : Statistics V} {data : List (Row V schema)}
    {column : ColumnStatistics V} (h : EnumRows T E i statistics data)
    (hcolumn : statistics.columnStatistics[i]? = some column) (hbounds : Lexicographic T column E.present) :
    Truthful T statistics data := by
  refine ⟨h.numRows, ?_⟩
  intro j other hother
  by_cases hj : j = i
  · subst hj
    rw [hcolumn] at hother
    cases hother
    refine ⟨h.nulls column hcolumn, ?_, ?_⟩
    · intro low hlow cell hcell hnull
      obtain ⟨v, hv, rfl⟩ := h.values cell hcell hnull
      rcases hbounds.min with habsent | ⟨low', hlow', hall⟩
      · rw [habsent] at hlow
        cases hlow
      · rw [hlow'] at hlow
        cases hlow
        simpa [TextKernel.scalar, T.exceeds_text] using hall v hv
    · intro high hhigh cell hcell hnull
      obtain ⟨v, hv, rfl⟩ := h.values cell hcell hnull
      rcases hbounds.max with habsent | ⟨high', hhigh', hall⟩
      · rw [habsent] at hhigh
        cases hhigh
      · rw [hhigh'] at hhigh
        cases hhigh
        simpa [TextKernel.scalar, T.exceeds_text] using hall v hv
  · exact h.others j other hj hother

/-- What is kept of the bounds, and what is pruned with it. -/
structure NeverMisleads (T : TextKernel V) (E : EnumColumn) (schema : Schema) (i : Nat) (statistics : Statistics V) : Prop where
  bounds : ∃ column, statistics.columnStatistics[i]? = some column ∧ Lexicographic T column E.present
  prunes : ∀ P : Pruner V, P.Sound T → ∀ (filters : List (Expr V)) (data : List (Row V schema)),
    EnumRows T E i statistics data → filtersPruneStatistics P schema statistics filters = true →
      ∀ r ∈ data, ¬ ∀ f ∈ filters, f.accepts T.toKernel r

theorem pruned {P : Pruner V} {statistics : Statistics V} {filters : List (Expr V)}
    (h : filtersPruneStatistics P schema statistics filters = true) : P.keep schema filters statistics = some [false] := by
  unfold filtersPruneStatistics at h
  split at h
  · cases h
  · exact beq_iff_eq.1 h

/-- **ENUM bounds are harmless** exactly if they are the wrong way round, and so dropped, or no present value lies
outside them: an enumeration need not be in the order of its texts between its ends. -/
theorem enum_bounds_iff {E : EnumColumn} (hdescribes : Describes mapping schema rows i row name) (hreports : Reports T E row) :
    NeverMisleads T E schema i (statisticsForCatalogTable T mapping schema rows estimate maximum) ↔ E.Bounded := by
  have hcolumn : (statisticsForCatalogTable T mapping schema rows estimate maximum).columnStatistics[i]? =
      some (catalogColumn T ((cardinalityRows estimate maximum).getD .absent) row .utf8) := hdescribes.column
  constructor
  · rintro ⟨⟨column, hcolumn', hbounds⟩, -⟩
    rw [hcolumn] at hcolumn'
    cases hcolumn'
    exact (lexicographic_iff hreports).1 hbounds
  · intro hbounded
    have hbounds : Lexicographic T (catalogColumn T ((cardinalityRows estimate maximum).getD .absent) row .utf8)
        E.present := (lexicographic_iff hreports).2 hbounded
    refine ⟨⟨_, hcolumn, hbounds⟩, ?_⟩
    intro P hsound filters data hdata hprune
    exact hsound schema filters _ data (hdata.truthful hcolumn hbounds) (pruned hprune)

end

/-! ## On strings -/

/-- Texts are the only payloads, and compare as they are. -/
def Kernel.strings : Kernel String where
  castTo v ty := if v.dataType = ty then some v else none
  castTo_self v := by simp
  iterToArray vs := if vs.isEmpty then none else some vs
  iterToArray_values h := by
    split at h
    · cases h
    · cases h; rfl
  toArray v := some v
  toArray_value h := by cases h; rfl
  tryFromArray v := some v
  tryFromArray_value h := by cases h; rfl
  holds
    | .eq, a, b => decide (a = b)
    | .ne, a, b => decide (a ≠ b)
    | .lt, a, b => decide (a < b)
    | .le, a, b => decide (¬ b < a)
    | .gt, a, b => decide (b < a)
    | .ge, a, b => decide (¬ a < b)
  holds_mirror c a b := by
    cases c with
    | eq => exact decide_eq_decide.2 eq_comm
    | ne => exact decide_eq_decide.2 ne_comm
    | lt | le | gt | ge => rfl
  nestedHolds _ _ _ := .unknown
  nestedHolds_mirror _ _ _ := rfl
  nullFieldsMatch := true
  bool b := if b then "true" else "false"
  truth s := if s = "true" then .yes else if s = "false" then .no else .unknown
  truth_bool b := by cases b <;> rfl
  function _ _ := .atom .null none

def greaterText : ScalarValue String → ScalarValue String → Bool
  | .atom _ (some a), .atom _ (some b) => decide (b < a)
  | _, _ => false

def TextKernel.strings : TextKernel String where
  toKernel := Kernel.strings
  text s := s
  exceeds := greaterText
  exceeds_text _ _ := rfl
  text_injective _ _ h := h

/-- The value lies outside the kept bounds. -/
def missesBounds (column : ColumnStatistics String) (value : ScalarValue String) : Bool :=
  (match column.minValue with
    | .exact low => greaterText low value
    | _ => false) ||
  (match column.maxValue with
    | .exact high => greaterText value high
    | _ => false)

/-- What becomes of one filter `column = value`; others are not used. -/
def equalityPruner : Pruner String where
  keep schema filters statistics :=
    match filters with
    | [.binary (.column _ name) (.cmp .eq) (.literal value)] =>
      ((schema.indexOf name).bind (statistics.columnStatistics[·]?)).map fun column => [!missesBounds column value]
    | _ => none

theorem equal_texts {x y : ScalarValue String} (h : Kernel.strings.compare .eq x y = .yes) :
    ∃ tx ty s, x = .atom tx (some s) ∧ y = .atom ty (some s) := by
  cases x with
  | tuple shape rows null0 columns => cases y with
    | tuple shape' rows' null1 columns' => cases h
    | atom ty b => cases b <;> cases h
  | atom tx a => cases y with
    | tuple shape rows null0 columns => cases a <;> cases h
    | atom ty b => cases a with
      | none => cases b <;> cases h
      | some a => cases b with
        | none => cases h
        | some b =>
          by_cases hab : a = b
          · exact ⟨tx, ty, a, rfl, by rw [hab]⟩
          · simp [Kernel.compare, Kernel.strings, hab, Kleene.Tri.ofBool] at h

theorem equalityPruner_sound : equalityPruner.Sound TextKernel.strings := by
  intro schema filters statistics rows htrue hkeep row hrow haccepts
  simp only [equalityPruner] at hkeep
  split at hkeep
  · rename_i relation name value
    simp only [Option.map_eq_some_iff, Option.bind_eq_some_iff, List.cons.injEq, and_true, Bool.not_eq_false'] at hkeep
    obtain ⟨column, ⟨i, hi, hcolumn⟩, houtside⟩ := hkeep
    have hcell : row.column name ∈ columnCells rows i := List.mem_filterMap.2 ⟨row, hrow, row.column_of_indexOf hi⟩
    have hequal : Kernel.strings.compare .eq (row.column name) value = .yes := by
      have := haccepts _ List.mem_cons_self
      simpa [Expr.accepts, Expr.eval, Kernel.operator, TextKernel.strings] using this
    obtain ⟨tx, ty, s, hx, rfl⟩ := equal_texts hequal
    have hnull : (row.column name).isNull = false := by rw [hx]; rfl
    have hat := htrue.columns i column hcolumn
    rw [missesBounds, Bool.or_eq_true] at houtside
    rcases houtside with hlow | hhigh
    · split at hlow
      · rename_i low hmin
        have hexceeds := hat.min low hmin _ hcell hnull
        rw [hx] at hexceeds
        cases low with
        | tuple shape rows null0 columns => cases hlow
        | atom tl l => cases l with
          | none => cases hlow
          | some l => exact absurd hlow (by simpa [TextKernel.strings, greaterText] using hexceeds)
      · cases hlow
    · split at hhigh
      · rename_i high hmax
        have hexceeds := hat.max high hmax _ hcell hnull
        rw [hx] at hexceeds
        cases high with
        | tuple shape rows null0 columns => cases hhigh
        | atom tl l => cases l with
          | none => cases hhigh
          | some l => exact absurd hhigh (by simpa [TextKernel.strings, greaterText] using hexceeds)
      · cases hhigh
  · cases hkeep

def lettersSchema : Schema := ⟨[⟨"c", .utf8, true, []⟩], []⟩

/-- The worker's statistics of the column `c`. -/
def letterRow (low high : String) : StatisticRow String :=
  ⟨some "c", some false, some true, none, some (.atom .utf8 (some low)), some (.atom .utf8 (some high))⟩

theorem letterRow_describes (low high : String) :
    Describes none lettersSchema [letterRow low high] 0 (letterRow low high) "c" where
  index := by decide
  utf8 f hf := by
    cases hf
    rfl
  named := rfl
  latest := ⟨[], [], rfl, by simp⟩

def letter (s : String) : Row String lettersSchema := ⟨[.atom .utf8 (some s)], rfl⟩

def equalsLetter (s : String) : Expr String := .binary (.column none "c") (.cmp .eq) (.literal (.atom .utf8 (some s)))

/-- All values of an enumeration are there. -/
def allPresent (enumeration : List String) (distinct : enumeration.Nodup) (nonempty : enumeration ≠ []) : EnumColumn :=
  ⟨enumeration, distinct, enumeration, fun _ h => h, nonempty⟩

theorem enum_bounds_iff_sorted :
    NeverMisleads TextKernel.strings (allPresent ["a", "b", "c"] (by decide) (by decide)) lettersSchema 0
      (statisticsForCatalogTable TextKernel.strings none lettersSchema [letterRow "a" "c"] none none) :=
  (enum_bounds_iff (letterRow_describes "a" "c") ⟨rfl, rfl⟩).2 (.inr (by decide))

/-- The ends of `a, z, b` are in order, so they are kept; the scan for `z` is then replaced by an empty one, though a
row of the table is `z`. -/
theorem enum_bounds_prune_present :
    Reports TextKernel.strings (allPresent ["a", "z", "b"] (by decide) (by decide)) (letterRow "a" "b") ∧
      EnumRows TextKernel.strings (allPresent ["a", "z", "b"] (by decide) (by decide)) 0
        (statisticsForCatalogTable TextKernel.strings none lettersSchema [letterRow "a" "b"] none none)
        [letter "a", letter "z", letter "b"] ∧
      equalityPruner.Sound TextKernel.strings ∧
      filtersPruneStatistics equalityPruner lettersSchema
        (statisticsForCatalogTable TextKernel.strings none lettersSchema [letterRow "a" "b"] none none)
        [equalsLetter "z"] = true ∧
      (equalsLetter "z").accepts Kernel.strings (letter "z") ∧
      ¬ NeverMisleads TextKernel.strings (allPresent ["a", "z", "b"] (by decide) (by decide)) lettersSchema 0
        (statisticsForCatalogTable TextKernel.strings none lettersSchema [letterRow "a" "b"] none none) := by
  have hrows : EnumRows TextKernel.strings (allPresent ["a", "z", "b"] (by decide) (by decide)) 0
      (statisticsForCatalogTable TextKernel.strings none lettersSchema [letterRow "a" "b"] none none)
      [letter "a", letter "z", letter "b"] := by
    refine ⟨?_, ?_, ?_, ?_⟩
    · intro n hn
      cases hn
    · intro column hcolumn n hn
      cases hcolumn
      cases hn
      rfl
    · intro j column hj hcolumn
      have hlength := (List.getElem?_eq_some_iff.1 hcolumn).1
      have hone : j < 1 := hlength
      omega
    · intro cell hcell _
      simp only [columnCells, letter, List.filterMap_cons, List.filterMap_nil, List.mem_cons, List.not_mem_nil,
        or_false, List.getElem?_cons_zero] at hcell
      rcases hcell with rfl | rfl | rfl
      · exact ⟨"a", by decide, rfl⟩
      · exact ⟨"z", by decide, rfl⟩
      · exact ⟨"b", by decide, rfl⟩
  have hprunes : filtersPruneStatistics equalityPruner lettersSchema
      (statisticsForCatalogTable TextKernel.strings none lettersSchema [letterRow "a" "b"] none none)
      [equalsLetter "z"] = true := by decide
  have haccepts : (equalsLetter "z").accepts Kernel.strings (letter "z") := by
    unfold Expr.accepts
    decide
  refine ⟨⟨rfl, rfl⟩, hrows, equalityPruner_sound, hprunes, haccepts, ?_⟩
  rintro ⟨-, hnever⟩
  refine hnever equalityPruner equalityPruner_sound _ _ hrows hprunes (letter "z") (by simp) ?_
  intro f hf
  obtain rfl := List.mem_singleton.1 hf
  exact haccepts

end VgiDatafusion
