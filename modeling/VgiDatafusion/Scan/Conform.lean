import VgiDatafusion.Library.Lists
import VgiDatafusion.Provider

/-!
# Conforming a batch to the declared schema (lib.rs:655-718)

| here | there |
| --- | --- |
| `Column`, `RecordBatch` | arrow's arrays and `RecordBatch`, with the checks of `try_new` as an invariant |
| `conform` | `conform` |
| `workerName` | the mapped name it looks up (lib.rs:694-696) |
| `RecordBatch.slice` | `RecordBatch::slice` |

A batch whose schema is already the wanted one is returned as it stands; otherwise `conform_ok_iff`
says that the result is the selection by mapped name and nothing else.

A batch is its values: `rowList` lists its rows, which with the schema determine it
(`RecordBatch.ext_of_rowList`).
-/
namespace VgiDatafusion

structure Column (V : Type) where
  dataType : DataType
  cells : List (Option V)
  deriving DecidableEq, Repr

/-- What `RecordBatch::try_new_with_options` checks of one column. -/
def fits {V : Type} (rows : Nat) (f : Field) (c : Column V) : Prop :=
  c.dataType = f.dataType ∧ c.cells.length = rows ∧ (f.nullable = false → ∀ cell ∈ c.cells, cell.isSome)

/-- arrow's `RecordBatch`, with the checks of `try_new` as an invariant. -/
structure RecordBatch (V : Type) where
  schema : Schema
  columns : List (Column V)
  rows : Nat
  fits : List.Forall₂ (fits rows) schema.fields columns

/-- How `conform` (`lib.rs:661-718`) fails. -/
inductive ConformError
  /-- A declared column the worker did not send, with the names it did send. -/
  | missing (worker catalog : String) (emitted : List String)
  /-- `RecordBatch::try_new_with_options` refused the columns. -/
  | arrow
  deriving DecidableEq, Repr

/-- The text of the error. -/
def ConformError.message : ConformError → String
  | .missing worker catalog emitted =>
    "worker returned no column named `" ++ worker ++ "` for catalog column `" ++ catalog ++
      "`; it emitted [" ++ String.intercalate ", " emitted ++ "]"
  | .arrow => "Arrow error"

namespace RecordBatch

variable {V : Type}

theorem ext_of {b b' : RecordBatch V} (hschema : b.schema = b'.schema) (hcolumns : b.columns = b'.columns)
    (hrows : b.rows = b'.rows) : b = b' := by
  cases b
  cases b'
  cases hschema
  cases hcolumns
  cases hrows
  rfl

/-- `RecordBatch::column_by_name`: the first column of that name. -/
def columnByName (b : RecordBatch V) (name : String) : Option (Column V) :=
  (b.schema.indexOf name).bind (b.columns[·]?)

instance (rows : Nat) (f : Field) (c : Column V) : Decidable (VgiDatafusion.fits rows f c) :=
  inferInstanceAs (Decidable (_ ∧ _ ∧ _))

def tryNew (schema : Schema) (columns : List (Column V)) (rows : Nat) : Except ConformError (RecordBatch V) :=
  if h : List.Forall₂ (VgiDatafusion.fits rows) schema.fields columns then .ok ⟨schema, columns, rows, h⟩
  else .error .arrow

end RecordBatch

variable {V : Type}

/-- The column of the batch that belongs under a declared field. -/
def selected (mapping : Option ColumnMapping) (b : RecordBatch V) (want : Field) : Except ConformError (Column V) :=
  match b.columnByName (workerName mapping want.name) with
  | some column => .ok column
  | none => .error (.missing (workerName mapping want.name) want.name b.schema.names)

/-- `conform` (`lib.rs:661-718`): the columns of the declared schema, by their own or their mapped names, and cast. -/
def conform (mapping : Option ColumnMapping) (b : RecordBatch V) (schema : Schema) :
    Except ConformError (RecordBatch V) :=
  if b.schema = schema then .ok b
  else if schema.fields = [] then RecordBatch.tryNew schema [] b.rows
  else (schema.fields.mapM (selected mapping b)).bind fun columns => RecordBatch.tryNew schema columns b.rows

/-! ## What a conformed batch holds -/

/-- `r` has, under each field of `want`, the batch's column of the mapped name. -/
structure Selects (mapping : Option ColumnMapping) (b r : RecordBatch V) (want : Schema) : Prop where
  schema : r.schema = want
  rows : r.rows = b.rows
  columns : List.Forall₂ (fun f c => b.columnByName (workerName mapping f.name) = some c) want.fields r.columns

/-- The columns for the declared NOT NULL fields have no NULL. -/
def NotNull (mapping : Option ColumnMapping) (b : RecordBatch V) (schema : Schema) : Prop :=
  ∀ f ∈ schema.fields, f.nullable = false →
    ∀ c, b.columnByName (workerName mapping f.name) = some c → ∀ cell ∈ c.cells, cell.isSome

variable {mapping : Option ColumnMapping} {b r r' : RecordBatch V} {schema : Schema}

theorem selected_ok {f : Field} {c : Column V} :
    selected mapping b f = .ok c ↔ b.columnByName (workerName mapping f.name) = some c := by
  unfold selected
  split <;> rename_i h <;> simp [h]

theorem tryNew_ok {columns : List (Column V)} {rows : Nat} :
    RecordBatch.tryNew schema columns rows = .ok r ↔ r.schema = schema ∧ r.columns = columns ∧ r.rows = rows := by
  unfold RecordBatch.tryNew
  constructor
  · intro h
    split at h
    · cases h
      exact ⟨rfl, rfl, rfl⟩
    · cases h
  · rintro ⟨rfl, rfl, rfl⟩
    rw [dif_pos r.fits]

/-- Off the fast path, a conformed batch is the selection and nothing else. -/
theorem conform_ok_iff (hne : b.schema ≠ schema) : conform mapping b schema = .ok r ↔ Selects mapping b r schema := by
  unfold conform
  rw [if_neg hne]
  split
  · rename_i hempty
    rw [tryNew_ok]
    constructor
    · rintro ⟨h1, h2, h3⟩
      exact ⟨h1, h3, by rw [hempty, h2]; exact .nil⟩
    · rintro ⟨h1, h2, h3⟩
      rw [hempty, List.forall₂_nil_left_iff] at h3
      exact ⟨h1, h3, h2⟩
  · constructor
    · intro h
      cases hcolumns : schema.fields.mapM (selected mapping b) with
      | error e => rw [hcolumns] at h; cases h
      | ok columns =>
        rw [hcolumns] at h
        obtain ⟨h1, h2, h3⟩ := tryNew_ok.1 h
        rw [ListFacts.mapM_ok_iff] at hcolumns
        exact ⟨h1, h3, h2 ▸ hcolumns.imp fun f c hc => selected_ok.1 hc⟩
    · rintro ⟨h1, h2, h3⟩
      have hcolumns : schema.fields.mapM (selected mapping b) = .ok r.columns :=
        ListFacts.mapM_ok_iff.2 (h3.imp fun f c hc => selected_ok.2 hc)
      rw [hcolumns]
      exact tryNew_ok.2 ⟨h1, rfl, h2⟩

theorem conform_self (h : b.schema = schema) : conform mapping b schema = .ok b := by
  unfold conform
  rw [if_pos h]

/-- A selection exists when every column is there with its declared type and nullability. -/
theorem Selects.exists (hcolumns : ∀ f ∈ schema.fields, ∃ c, b.columnByName (workerName mapping f.name) = some c ∧
    c.dataType = f.dataType ∧ c.cells.length = b.rows) (hnull : NotNull mapping b schema) :
    ∃ r, Selects mapping b r schema := by
  obtain ⟨columns, hall⟩ := ListFacts.forall₂_of_exists fun f hf =>
    (hcolumns f hf).imp fun c hc => hc.1
  have hfits : List.Forall₂ (fits b.rows) schema.fields columns := by
    refine ListFacts.forall₂_of_mem hall ?_
    intro f hf c hc
    obtain ⟨c', hc', htype, hlen⟩ := hcolumns f hf
    obtain rfl : c = c' := Option.some.inj (hc.symm.trans hc')
    exact ⟨htype, hlen, fun hn => hnull f hf hn c hc⟩
  exact ⟨⟨schema, columns, b.rows, hfits⟩, rfl, rfl, hall⟩

theorem Selects.notNull (h : Selects mapping b r schema) : NotNull mapping b schema := by
  intro f hf hn c hc
  obtain ⟨i, hi⟩ := List.getElem?_of_mem hf
  obtain ⟨c', hc', hsel⟩ := ListFacts.forall₂_getElem? h.columns hi
  obtain rfl : c = c' := Option.some.inj (hc.symm.trans hsel)
  obtain ⟨c'', hc'', hfit⟩ := ListFacts.forall₂_getElem? r.fits (h.schema ▸ hi)
  obtain rfl : c = c'' := Option.some.inj (hc'.symm.trans hc'')
  exact hfit.2.2 hn

/-! ## Rows of a batch -/

def Column.slice (c : Column V) (offset length : Nat) : Column V :=
  { c with cells := (c.cells.drop offset).take length }

theorem fits.slice {rows : Nat} {f : Field} {c : Column V} (h : fits rows f c) (offset length : Nat) :
    fits (min length (rows - offset)) f (c.slice offset length) := by
  obtain ⟨htype, hlength, hnull⟩ := h
  refine ⟨htype, ?_, ?_⟩
  · simp [Column.slice, hlength]
  · intro hf cell hcell
    exact hnull hf cell (List.mem_of_mem_drop (List.mem_of_mem_take hcell))

namespace RecordBatch

theorem slice_fits (b : RecordBatch V) (offset length : Nat) :
    List.Forall₂ (VgiDatafusion.fits (min length (b.rows - offset))) b.schema.fields
      (b.columns.map (·.slice offset length)) := by
  rw [List.forall₂_map_right_iff]
  exact b.fits.imp fun f c h => h.slice offset length

def slice (b : RecordBatch V) (offset length : Nat) : RecordBatch V where
  schema := b.schema
  columns := b.columns.map (·.slice offset length)
  rows := min length (b.rows - offset)
  fits := b.slice_fits offset length

/-- The values of one row, a cell for each column. -/
def row (b : RecordBatch V) (i : Nat) : List (Option V) := b.columns.map fun c => (c.cells[i]?).join

def rowList (b : RecordBatch V) : List (List (Option V)) := (List.range b.rows).map b.row

@[simp] theorem length_rowList (b : RecordBatch V) : b.rowList.length = b.rows := by
  simp [rowList]

theorem getElem_rowList (b : RecordBatch V) {i : Nat} (h : i < b.rowList.length) : b.rowList[i] = b.row i := by
  simp [rowList]

theorem row_slice (b : RecordBatch V) {offset length i : Nat} (hi : i < length) :
    (b.slice offset length).row i = b.row (offset + i) := by
  simp only [row, slice, List.map_map]
  congr 1
  funext c
  simp [Column.slice, hi]

theorem rowList_slice (b : RecordBatch V) (offset length : Nat) :
    (b.slice offset length).rowList = (b.rowList.drop offset).take length := by
  apply List.ext_getElem
  · simp [slice]
  · intro i hi hi'
    have hlength : i < length := by
      simp at hi'
      omega
    rw [getElem_rowList, row_slice b hlength, List.getElem_take, List.getElem_drop, getElem_rowList]

/-- The schema and the rows are the whole batch. -/
theorem ext_of_rowList {a b : RecordBatch V} (hschema : a.schema = b.schema) (hrows : a.rowList = b.rowList) :
    a = b := by
  have hcount : a.rows = b.rows := by
    rw [← length_rowList a, hrows, length_rowList]
  have hcolumns : a.columns.length = b.columns.length := by
    rw [← a.fits.length_eq, ← b.fits.length_eq, hschema]
  refine ext_of hschema ?_ hcount
  apply List.ext_getElem hcolumns
  intro j hja hjb
  have hfield : j < a.schema.fields.length := a.fits.length_eq ▸ hja
  have hfield' : j < b.schema.fields.length := b.fits.length_eq ▸ hjb
  have hfitsA := a.fits.get hfield hja
  have hfitsB := b.fits.get hfield' hjb
  have htype : a.columns[j].dataType = b.columns[j].dataType := by
    have hfields : a.schema.fields[j] = b.schema.fields[j] := by simp [hschema]
    exact hfitsA.1.trans ((congrArg Field.dataType hfields).trans hfitsB.1.symm)
  have hcells : a.columns[j].cells = b.columns[j].cells := by
    apply List.ext_getElem
    · exact hfitsA.2.1.trans (hcount.trans hfitsB.2.1.symm)
    · intro i hia hib
      have hi : i < a.rowList.length := by
        rw [length_rowList, ← hfitsA.2.1]
        exact hia
      have hrow : a.row i = b.row i := by
        rw [← getElem_rowList a hi, ← getElem_rowList b (hrows ▸ hi)]
        simp [hrows]
      have hcell := congrArg (·[j]?) hrow
      simpa [row, hja, hjb, hia, hib] using hcell
  cases hca : a.columns[j]
  cases hcb : b.columns[j]
  rw [hca, hcb] at htype hcells
  cases htype
  cases hcells
  rfl

end RecordBatch

end VgiDatafusion
