import VgiDatafusion.Filters.Columns
import VgiDatafusion.Session.Options

/-!
# Filters below the reconciliation of branches (catalog.rs:893-906, 1267-1370, 1462-1489)

| here | there |
| --- | --- |
| `CatalogTable.physicalSchema` | `physical_schema`: the columns of `output_schema` that are not generated |
| `RawBranch` | the schema of a `BoundCatalogBranch`'s provider, and its `null_string` |
| `sameName` | `eq_ignore_ascii_case` |
| `nullMarked` | what `apply_native_null_string` makes of a value |
| `reconcileBranch`, `ColumnSource.eval` | `reconcile_branch`, and its projection on a row |
| `branchFilters` | the filters that are sent to a branch |
| `Removes` | not in the source: a provider that evaluates a filter exactly on its own rows |
| `evalIn` | not in the source: an expression's value, given those of the columns |

A filter is sent as it is to every branch that has its columns by name, ignoring case, and is evaluated there before null
markers are replaced and values are cast. A provider looks a column up by its very name: where only the letter case is the
same it cannot evaluate the filter, and removes nothing by it. No filter loses a row exactly if the values of the columns that
have their public names are those of the reconciled row already (`losesNothing_iff`).
-/
namespace VgiDatafusion.Catalog

open Kleene

variable {V : Type}

/-! ## Expressions -/

section
variable (K : Kernel V) (look : String → ScalarValue V)

mutual

/-- The value of an expression, the columns' values given by name. -/
def evalIn : Expr V → ScalarValue V
  | .column _ name => look name
  | .literal v => v
  | .cast e ty => K.cast (evalIn e) ty
  | .binary l op r => K.operator op (evalIn l) (evalIn r)
  | .isNull e => K.ofTri (.ofBool (evalIn e).isNull)
  | .isNotNull e => K.ofTri (.ofBool (!(evalIn e).isNull))
  | .inList e list negated => K.ofTri (K.inList (evalIn e) (evalListIn list) negated)
  | .other name args => K.function name (evalListIn args)
def evalListIn : List (Expr V) → List (ScalarValue V)
  | [] => []
  | e :: es => evalIn e :: evalListIn es
end

def acceptsIn (e : Expr V) : Prop := K.truthOf (evalIn K look e) = .yes

end

mutual
/-- The value on a row, columns being found by name. -/
theorem eval_eq_evalIn (K : Kernel V) {schema : Schema} (row : Row V schema) : ∀ e : Expr V,
    e.eval K row = evalIn K row.column e
  | .column _ _ | .literal _ => rfl
  | .cast e _ | .isNull e | .isNotNull e => by rw [Expr.eval, evalIn, eval_eq_evalIn K row e]
  | .binary l _ r => by rw [Expr.eval, evalIn, eval_eq_evalIn K row l, eval_eq_evalIn K row r]
  | .inList e list _ => by rw [Expr.eval, evalIn, eval_eq_evalIn K row e, evalList_eq_evalListIn K row list]
  | .other _ args => by rw [Expr.eval, evalIn, evalList_eq_evalListIn K row args]
theorem evalList_eq_evalListIn (K : Kernel V) {schema : Schema} (row : Row V schema) : ∀ es : List (Expr V),
    Expr.evalList K row es = evalListIn K row.column es
  | [] => rfl
  | e :: es => by rw [Expr.evalList, evalListIn, eval_eq_evalIn K row e, evalList_eq_evalListIn K row es]
end

mutual
/-- Only the columns that are read matter. -/
theorem evalIn_congr {K : Kernel V} {look look' : String → ScalarValue V} : ∀ {e : Expr V},
    (∀ c ∈ e.columns, look c = look' c) → evalIn K look e = evalIn K look' e
  | .column _ name, h => h name (by simp [Expr.columns])
  | .literal _, _ => rfl
  | .cast e _, h | .isNull e, h | .isNotNull e, h => by
    rw [evalIn, evalIn, evalIn_congr fun c hc => h c (by simpa [Expr.columns] using hc)]
  | .binary l _ r, h => by
    rw [evalIn, evalIn, evalIn_congr fun c hc => h c (List.mem_append_left _ hc),
      evalIn_congr fun c hc => h c (List.mem_append_right _ hc)]
  | .inList e list _, h => by
    rw [evalIn, evalIn, evalIn_congr fun c hc => h c (List.mem_append_left _ hc),
      evalListIn_congr fun c hc => h c (List.mem_append_right _ hc)]
  | .other _ args, h => by rw [evalIn, evalIn, evalListIn_congr fun c hc => h c (by simpa [Expr.columns] using hc)]
theorem evalListIn_congr {K : Kernel V} {look look' : String → ScalarValue V} : ∀ {es : List (Expr V)},
    (∀ c ∈ Expr.columnsList es, look c = look' c) → evalListIn K look es = evalListIn K look' es
  | [], _ => rfl
  | e :: es, h => by
    rw [evalListIn, evalListIn, evalIn_congr fun c hc => h c (List.mem_append_left _ hc),
      evalListIn_congr fun c hc => h c (List.mem_append_right _ hc)]
end

/-! ## Branches -/

/-- `VgiCatalogTableProvider`, as far as its branches are reconciled. -/
structure CatalogTable where
  schemaName : String
  name : String
  outputSchema : Schema

/-- A column that the catalog marks as generated (`catalog.rs:893-906`). -/
def isGenerated (field : Field) : Bool := field.metadata.any (·.1 = "generated_expression")

/-- `physical_schema` (`catalog.rs:893-906`): the columns that are stored. -/
def CatalogTable.physicalSchema (table : CatalogTable) : Schema :=
  { table.outputSchema with fields := table.outputSchema.fields.filter fun field => !isGenerated field }

/-- A branch, by the schema of its provider and its `null_string`. -/
structure RawBranch (V : Type) where
  schema : Schema
  nullString : Option V

def sameName (a b : String) : Bool := lower a.toList = lower b.toList

/-- Why `VgiCatalogTableProvider::reconcile_branch` (`catalog.rs:1267-1319`) fails, without the text. -/
inductive ReconcileError
  | unknownColumn (name : String)
  | duplicateColumn (name : String)

/-- The column that the error names. -/
def ReconcileError.column : ReconcileError → String
  | .unknownColumn name | .duplicateColumn name => name

/-- NULL for a column that is missing, else the cast of a raw one. -/
inductive ColumnSource
  | missing (ty : DataType)
  | column (index : Nat) (ty : DataType)

/-- One expression of the projection in `VgiCatalogTableProvider::reconcile_branch` (`catalog.rs:1267-1319`). -/
def columnSource (raw : Schema) (canonical : Field) : Except ReconcileError ColumnSource :=
  match raw.fields.zipIdx.filter fun entry => sameName entry.1.name canonical.name with
  | [] => .ok (.missing canonical.dataType)
  | [(_, index)] => .ok (.column index canonical.dataType)
  | _ => .error (.duplicateColumn canonical.name)

/-- `VgiCatalogTableProvider::reconcile_branch` (`catalog.rs:1267-1319`): every stored column by its name, letter case aside. -/
def reconcileBranch (table : CatalogTable) (raw : Schema) : Except ReconcileError (List ColumnSource) :=
  match raw.fields.find? fun field => !table.physicalSchema.fields.any fun canonical => sameName canonical.name field.name with
  | some field => .error (.unknownColumn field.name)
  | none => table.physicalSchema.fields.mapM (columnSource raw)

/-- The types that a null marker is looked for in (`catalog.rs:1334-1339`). -/
def isString (ty : DataType) : Bool := ty = .utf8 || ty = .largeUtf8 || ty = .utf8View

/-- The filters that go to a branch: those whose columns it has, letter case aside (`catalog.rs:1462-1489`). -/
def branchFilters (raw : Schema) (filters : List (Expr V)) : List (Expr V) :=
  filters.filter fun e => e.columns.all fun c => raw.fields.any fun field => sameName field.name c

section
variable (K : Kernel V)

/-- A string that is the null marker. -/
def IsMarker (nullString : Option V) (v : ScalarValue V) : Prop :=
  ∃ marker, nullString = some marker ∧ isString v.dataType = true ∧ K.compare .eq v (.atom v.dataType (some marker)) = .yes

/-- What `VgiCatalogTableProvider::apply_native_null_string` (`catalog.rs:1321-1370`) makes of a value. -/
def nullMarked (nullString : Option V) (v : ScalarValue V) : ScalarValue V :=
  match nullString with
  | some marker =>
    if isString v.dataType ∧ K.compare .eq v (.atom v.dataType (some marker)) = .yes then .atom v.dataType none else v
  | none => v

/-- The value of a reconciled column; none where the cast fails. -/
def ColumnSource.eval (cells : List (ScalarValue V)) : ColumnSource → Option (ScalarValue V)
  | .missing ty => some (.atom ty none)
  | .column index ty => cells[index]?.bind fun v => K.castTo v ty

variable (table : CatalogTable) (branch : RawBranch V)

/-- The reconciled form of a raw row; there is none where a cast fails. -/
def reconciled (row : Row V branch.schema) : Option (Row V table.physicalSchema) :=
  match reconcileBranch table branch.schema with
  | .error _ => none
  | .ok sources =>
    match sources.mapM (ColumnSource.eval K (row.cells.map (nullMarked K branch.nullString))) with
    | none => none
    | some cells =>
      if typed : cells.map (·.dataType) = table.physicalSchema.fields.map (·.dataType) then some ⟨cells, typed⟩ else none

/-- The provider of a branch evaluates a filter exactly on its own row, and removes it. A filter on a column that it has not,
or has in other letter case only, is one it cannot evaluate: it fails or leaves it out, and removes nothing. -/
def Removes (row : Row V branch.schema) (e : Expr V) : Prop :=
  (∀ c ∈ e.columns, c ∈ branch.schema.names) ∧ ¬ e.accepts K row

/-- A column of a filter above; a generated one is computed later. -/
def publicColumn (out : Row V table.physicalSchema) (generated : String → ScalarValue V) (name : String) : ScalarValue V :=
  if name ∈ table.physicalSchema.names then out.column name else generated name

/-- A row that passes all filters is not removed by those that are sent below. -/
def LosesNothing (row : Row V branch.schema) : Prop :=
  ∀ (out : Row V table.physicalSchema) (generated : String → ScalarValue V) (filters : List (Expr V)),
    reconciled K table branch row = some out → (∀ e ∈ filters, ∀ c ∈ e.columns, c ∈ table.outputSchema.names) →
    (∀ e ∈ filters, acceptsIn K (publicColumn table out generated) e) →
      ∀ e ∈ branchFilters branch.schema filters, ¬ Removes K branch row e

/-- Where a raw column has the very name of a public one, that is stored with the same type, and no marker stands there. -/
def Untouched (row : Row V branch.schema) : Prop :=
  ∀ name ∈ table.outputSchema.names, ∀ field, branch.schema.fieldWithName name = some field →
    ∃ stored, table.physicalSchema.fieldWithName name = some stored ∧ stored.dataType = field.dataType ∧
      ¬ IsMarker K branch.nullString (row.column name)

end

/-! ## Reconciliation, column by column -/

section
variable {K : Kernel V} {table : CatalogTable} {branch : RawBranch V} {row : Row V branch.schema}
  {out : Row V table.physicalSchema}

/-- An error names a column of the branch, in some letter case. -/
theorem reconcileBranch_error {raw : Schema} {e : ReconcileError} (h : reconcileBranch table raw = .error e) :
    ∃ field ∈ raw.fields, sameName field.name e.column = true := by
  rw [reconcileBranch] at h
  split at h
  · rename_i field hfield
    cases h
    exact ⟨field, List.mem_of_find?_eq_some hfield, by simp [ReconcileError.column, sameName]⟩
  · obtain ⟨canonical, -, hcanonical⟩ := ListFacts.mapM_error h
    rw [columnSource] at hcanonical
    split at hcanonical
    · cases hcanonical
    · cases hcanonical
    · rename_i hnone hmany
      cases hcanonical
      cases hentries : raw.fields.zipIdx.filter fun entry => sameName entry.1.name canonical.name with
      | nil => exact absurd hentries hnone
      | cons entry rest =>
        obtain ⟨hmem, hname⟩ := List.mem_filter.1 (hentries ▸ List.mem_cons_self)
        exact ⟨entry.1, List.fst_mem_of_mem_zipIdx hmem, hname⟩

/-- A raw column is found by its name, as no other may have that in any case. -/
theorem columnSource_ok {raw : Schema} {canonical : Field} {source : ColumnSource} {i : Nat}
    (h : columnSource raw canonical = .ok source) (hi : raw.indexOf canonical.name = some i) :
    source = .column i canonical.dataType := by
  obtain ⟨field, hfield, hname⟩ := Schema.indexOf_spec hi
  have hmem : (field, i) ∈ raw.fields.zipIdx.filter fun entry => sameName entry.1.name canonical.name :=
    List.mem_filter.2 ⟨List.mk_mem_zipIdx_iff_getElem?.2 hfield, by simp [sameName, hname]⟩
  rw [columnSource] at h
  split at h
  · rename_i hnone
    rw [hnone] at hmem
    cases hmem
  · rename_i hone
    rw [hone] at hmem
    cases List.mem_singleton.1 hmem
    cases h
    rfl
  · cases h

/-- A stored column is the cast of its raw one. -/
theorem reconciled_column (h : reconciled K table branch row = some out) {name : String} {stored : Field}
    (hstored : table.physicalSchema.fieldWithName name = some stored) (hraw : name ∈ branch.schema.names) :
    K.castTo (nullMarked K branch.nullString (row.column name)) stored.dataType = some (out.column name) := by
  obtain ⟨i, hi⟩ := Option.isSome_iff_exists.1 (Schema.indexOf_isSome.2 hraw)
  have hcell := row.column_of_indexOf hi
  rw [Schema.fieldWithName_eq] at hstored
  obtain ⟨j, hj, hfield⟩ := Option.bind_eq_some_iff.1 hstored
  obtain rfl : stored.name = name := by
    obtain ⟨field, hfield', hname⟩ := Schema.indexOf_spec hj
    rw [hfield] at hfield'
    cases hfield'
    exact hname
  have hout := out.column_of_indexOf hj
  rw [reconciled] at h
  cases hsources : reconcileBranch table branch.schema with
  | error e =>
    rw [hsources] at h
    cases h
  | ok sources =>
    rw [hsources] at h
    dsimp only at h
    cases hcells : sources.mapM (ColumnSource.eval K (row.cells.map (nullMarked K branch.nullString))) with
    | none =>
      rw [hcells] at h
      cases h
    | some cells =>
      rw [hcells] at h
      dsimp only at h
      split at h
      · cases h
        rw [reconcileBranch] at hsources
        split at hsources
        · cases hsources
        obtain ⟨source, hsource, hcolumn⟩ := ListFacts.forall₂_getElem? (ListFacts.mapM_ok_iff.1 hsources) hfield
        rw [columnSource_ok hcolumn hi] at hsource
        obtain ⟨v, hv, heval⟩ := ListFacts.forall₂_getElem? (ListFacts.mapM_some_iff.1 hcells) hsource
        obtain rfl : v = _ := Option.some.inj (hv.symm.trans hout)
        simpa [ColumnSource.eval, hcell] using heval
      · cases h

theorem nullMarked_of_not {nullString : Option V} {v : ScalarValue V} (h : ¬ IsMarker K nullString v) :
    nullMarked K nullString v = v := by
  cases nullString with
  | none => rfl
  | some marker => exact if_neg fun hmarker => h ⟨marker, rfl, hmarker⟩

theorem nullMarked_of {nullString : Option V} {v : ScalarValue V} (h : IsMarker K nullString v) :
    nullMarked K nullString v = .atom v.dataType none := by
  obtain ⟨marker, rfl, hmarker⟩ := h
  exact if_pos hmarker

/-- A marker is no NULL. -/
theorem isNull_marker {nullString : Option V} {v : ScalarValue V} (h : IsMarker K nullString v) : v.isNull = false := by
  obtain ⟨marker, -, hstring, hequal⟩ := h
  cases v with
  | atom ty value =>
    cases value with
    | none => simp [Kernel.compare] at hequal
    | some value => rfl
  | tuple shape rows null0 columns => simp [ScalarValue.dataType, isString] at hstring

/-! ## What is lost -/

theorem mem_names_of_fieldWithName {schema : Schema} {name : String} {field : Field} (h : schema.fieldWithName name = some field) :
    name ∈ schema.names := Schema.fieldWithName_isSome.1 (by rw [h]; rfl)

theorem accepts_iff {schema : Schema} (row : Row V schema) (e : Expr V) : e.accepts K row ↔ acceptsIn K row.column e := by
  rw [Expr.accepts, eval_eq_evalIn, acceptsIn]

/-- Values that are not touched are read alike. -/
theorem losesNothing_of_untouched (h : Untouched K table branch row) : LosesNothing K table branch row := by
  rintro out generated filters hout hover haccepts e he ⟨hraw, hremoved⟩
  obtain ⟨hmem, -⟩ := List.mem_filter.1 he
  have hsame : ∀ c ∈ e.columns, publicColumn table out generated c = row.column c := by
    intro c hc
    obtain ⟨field, hfield⟩ := Option.isSome_iff_exists.1 (Schema.fieldWithName_isSome.2 (hraw c hc))
    obtain ⟨stored, hstored, hsame, hmarker⟩ := h c (hover e hmem c hc) field hfield
    have hcast := reconciled_column hout hstored (hraw c hc)
    rw [nullMarked_of_not hmarker, hsame, ← row.column_dataType hfield, K.castTo_self] at hcast
    rw [publicColumn, if_pos (mem_names_of_fieldWithName hstored)]
    exact (Option.some.inj hcast).symm
  have hpublic := haccepts e hmem
  rw [acceptsIn, evalIn_congr hsame] at hpublic
  exact hremoved ((accepts_iff row e).2 hpublic)

/-- `arrow_typeof` of one value is that of another. -/
def TellsTypes (K : Kernel V) (typeTest : String) : Prop :=
  ∀ v w, K.truthOf (K.function typeTest [v, w]) = .yes ↔ v.dataType = w.dataType

/-- A filter on one column is evaluated wherever there is a column of this name. -/
theorem accepts_raw_of_losesNothing (h : LosesNothing K table branch row) (hout : reconciled K table branch row = some out)
    {name : String} (hname : name ∈ table.outputSchema.names) (hraw : name ∈ branch.schema.names)
    (generated : String → ScalarValue V) {e : Expr V} (hcolumns : e.columns = [name])
    (haccepts : acceptsIn K (publicColumn table out generated) e) : acceptsIn K row.column e := by
  have hsent : e ∈ branchFilters branch.schema [e] := by
    obtain ⟨field, hfield, rfl⟩ := List.mem_map.1 hraw
    have hsame : branch.schema.fields.any fun other => sameName other.name field.name :=
      List.any_eq_true.2 ⟨field, hfield, by simp [sameName]⟩
    simp [branchFilters, hcolumns, hsame]
  by_contra hrefused
  refine h out generated [e] hout (by simpa [hcolumns] using hname) (by simpa using haccepts) e hsent ⟨?_, ?_⟩
  · simpa [hcolumns] using hraw
  · rwa [accepts_iff]

/-- `IS NULL` and its negation tell a value that is NULL from one that is not. -/
theorem isNull_eq_of_losesNothing (h : LosesNothing K table branch row) (hout : reconciled K table branch row = some out)
    {name : String} (hname : name ∈ table.outputSchema.names) (hraw : name ∈ branch.schema.names)
    (generated : String → ScalarValue V) : (row.column name).isNull = (publicColumn table out generated name).isNull := by
  cases hnull : (publicColumn table out generated name).isNull with
  | true =>
    have haccepts := accepts_raw_of_losesNothing h hout hname hraw generated (e := .isNull (.column none name))
      (by simp [Expr.columns]) (by simp [acceptsIn, evalIn, hnull])
    simpa [acceptsIn, evalIn] using haccepts
  | false =>
    have haccepts := accepts_raw_of_losesNothing h hout hname hraw generated (e := .isNotNull (.column none name))
      (by simp [Expr.columns]) (by simp [acceptsIn, evalIn, hnull])
    simpa [acceptsIn, evalIn] using haccepts

theorem untouched_of_losesNothing {typeTest : String} (htypes : TellsTypes K typeTest) (h : LosesNothing K table branch row)
    (hout : reconciled K table branch row = some out) : Untouched K table branch row := by
  intro name hname field hfield
  have hraw := mem_names_of_fieldWithName hfield
  cases hstored : table.physicalSchema.fieldWithName name with
  | none =>
    -- a generated column may be NULL or not, whatever the raw one is
    have hnot : name ∉ table.physicalSchema.names := fun hmem => by
      have hsome := Schema.fieldWithName_isSome.2 hmem
      rw [hstored] at hsome
      cases hsome
    have hnull := isNull_eq_of_losesNothing h hout hname hraw fun _ => .atom .boolean none
    have hvalued := isNull_eq_of_losesNothing h hout hname hraw fun _ => K.ofTri .yes
    rw [publicColumn, if_neg hnot] at hnull hvalued
    rw [hnull] at hvalued
    cases hvalued
  | some stored =>
    have hpublic : publicColumn table out (fun _ => .untypedNull) name = out.column name := by
      rw [publicColumn, if_pos (mem_names_of_fieldWithName hstored)]
    have hsame : stored.dataType = field.dataType := by
      have haccepts := accepts_raw_of_losesNothing h hout hname hraw (fun _ => .untypedNull)
        (e := .other typeTest [.column none name, .literal (.atom stored.dataType none)])
        (by simp [Expr.columns, Expr.columnsList])
        (by
          simp only [acceptsIn, evalIn, evalListIn, hpublic]
          exact (htypes _ _).2 (out.column_dataType hstored))
      simp only [acceptsIn, evalIn, evalListIn] at haccepts
      exact ((htypes _ _).1 haccepts).symm.trans (row.column_dataType hfield)
    refine ⟨stored, rfl, hsame, fun hmarker => ?_⟩
    have hcast := reconciled_column hout hstored hraw
    have hnull : out.column name = .atom (row.column name).dataType none := by
      have hself := K.castTo_self (.atom (row.column name).dataType none)
      rw [nullMarked_of hmarker, hsame, ← row.column_dataType hfield] at hcast
      exact Option.some.inj (hcast.symm.trans hself)
    have hequal := isNull_eq_of_losesNothing h hout hname hraw fun _ => .untypedNull
    rw [hpublic, isNull_marker hmarker, hnull] at hequal
    cases hequal

/-- **No filter loses a row exactly if, where the row can be reconciled, what the branch can read by a public
name is the reconciled value.** -/
theorem losesNothing_iff {typeTest : String} (htypes : TellsTypes K typeTest) :
    LosesNothing K table branch row ↔ ((reconciled K table branch row).isSome → Untouched K table branch row) := by
  constructor
  · intro h hsome
    obtain ⟨out, hout⟩ := Option.isSome_iff_exists.1 hsome
    exact untouched_of_losesNothing htypes h hout
  · intro h out generated filters hout
    exact losesNothing_of_untouched (h (by rw [hout]; rfl)) out generated filters hout

end

/-! ### A null marker -/

/-- Texts are told apart by numbers; the one function compares types. -/
def numberedTexts : Kernel Int :=
  { Kernel.integers with
    function := fun _ args =>
      match args with
      | [v, w] => Kernel.integers.ofTri (.ofBool (v.dataType = w.dataType))
      | _ => .untypedNull }

theorem tellsTypes_numberedTexts : TellsTypes numberedTexts "same_type" := by
  intro v w
  change Kernel.integers.truthOf (Kernel.integers.ofTri (.ofBool (v.dataType = w.dataType))) = .yes ↔ _
  simp

def textTable : CatalogTable :=
  { schemaName := "main", name := "notes", outputSchema := ⟨[{ name := "note", dataType := .utf8, nullable := true }], []⟩ }

def textFile : RawBranch Int :=
  { schema := ⟨[{ name := "note", dataType := .utf8, nullable := true }], []⟩, nullString := some 7 }

def textRow (text : Int) : Row Int textFile.schema := ⟨[.atom .utf8 (some text)], rfl⟩

theorem losesNothing_numberedTexts : (reconciled numberedTexts textTable textFile (textRow 5)).isSome = true ∧
    LosesNothing numberedTexts textTable textFile (textRow 5) := by
  refine ⟨by decide, (losesNothing_iff tellsTypes_numberedTexts).2 fun _ => ?_⟩
  intro name hname field hfield
  obtain rfl : name = "note" := List.mem_singleton.1 hname
  cases hfield
  refine ⟨{ name := "note", dataType := .utf8, nullable := true }, rfl, rfl, ?_⟩
  rintro ⟨marker, hmarker, -, hequal⟩
  cases hmarker
  revert hequal
  decide

/-- The file evaluates `note IS NULL` exactly, and removes the row with the marker, whose note is NULL. -/
theorem marker_lost : ¬ ∀ (K : Kernel Int) (table : CatalogTable) (branch : RawBranch Int) (row : Row Int branch.schema),
    LosesNothing K table branch row := by
  intro h
  have hout : reconciled numberedTexts textTable textFile (textRow 7) = some ⟨[.atom .utf8 none], rfl⟩ := rfl
  have hname : "note" ∈ textTable.outputSchema.names := by decide
  have hraw : "note" ∈ textFile.schema.names := by decide
  have hnull := isNull_eq_of_losesNothing (h numberedTexts textTable textFile (textRow 7)) hout hname hraw fun _ => .untypedNull
  revert hnull
  decide

end VgiDatafusion.Catalog
