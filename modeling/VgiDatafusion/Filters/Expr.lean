import VgiDatafusion.Arrow
import VgiDatafusion.Library.Lists

/-!
# Filter expressions: what the translation reads

| here | there |
| --- | --- |
| `Operator` | DataFusion's `Operator`, the ones the builder tells apart |
| `Expr` | the logical `Expr` handed to `TableProvider::scan` |
| `PhysicalExpr` | the physical expressions of a runtime-filter snapshot |
| `Expr.eval`, `PhysicalExpr.eval` | their value on a row, in three-valued logic |
| `columnName`, `literal` | `column_name`, `literal` (filters.rs:522-544) |
| `physicalColumnName`, `physicalLiteral` | the physical twins (filters.rs:546-562) |
| `physicalStructColumns` | `physical_struct_columns` (filters.rs:566-578) |

Everything the builder has no case for (`NOT`, `LIKE`, `CASE`, user functions, `TRY_CAST`, …) is
`other`, whose value is the kernel's business. A physical column carries an index relative to a
projected scan; the builder resolves it by name, and so does `eval`.

`columnName_eval` and `literal_eval` say why the two readers are safe: an expression read as a
column has that column's value (only casts to the column's own type are looked through), and one
read as a literal has the literal's value on every row.
-/
namespace VgiDatafusion

open Kleene

/-- DataFusion's `Operator`: comparisons, the two connectives, and the others that the builder refuses. -/
inductive Operator
  | and | or
  | cmp (c : Comparison)
  | other (symbol : String)
  deriving DecidableEq, Repr

section
variable (V : Type)

/-- The logical `Expr` that is handed to `TableProvider::scan`; `other` is any that the builder does not know. -/
inductive Expr
  | column (relation : Option String) (name : String)
  | literal (value : ScalarValue V)
  | cast (expr : Expr) (ty : DataType)
  | binary (left : Expr) (op : Operator) (right : Expr)
  | isNull (expr : Expr)
  | isNotNull (expr : Expr)
  | inList (expr : Expr) (list : List Expr) (negated : Bool)
  | other (name : String) (args : List Expr)

inductive PhysicalExpr
  | column (name : String) (index : Nat)
  | literal (value : ScalarValue V)
  | cast (expr : PhysicalExpr) (ty : DataType)
  | binary (left : PhysicalExpr) (op : Operator) (right : PhysicalExpr)
  | isNull (arg : PhysicalExpr)
  | isNotNull (arg : PhysicalExpr)
  | inList (expr : PhysicalExpr) (list : List PhysicalExpr) (negated : Bool)
  | scalarFunction (name : String) (args : List PhysicalExpr)
  | other (name : String) (args : List PhysicalExpr)

end

variable {V : Type} (K : Kernel V) {schema : Schema}

/-! ## Values on a row -/

/-- A binary operator on two values. -/
def Kernel.operator (op : Operator) (x y : ScalarValue V) : ScalarValue V :=
  match op with
  | .and => K.ofTri ((K.truthOf x).and (K.truthOf y))
  | .or => K.ofTri ((K.truthOf x).or (K.truthOf y))
  | .cmp c => K.ofTri (K.compare c x y)
  | .other symbol => K.function symbol [x, y]

/-- `CAST(x AS ty)`; a cast that fails has no value. -/
def Kernel.cast (x : ScalarValue V) (ty : DataType) : ScalarValue V :=
  (K.castTo x ty).getD (.atom ty none)

/-- DataFusion's `struct(...)` assembles its arguments; other functions are the kernel's. -/
def Kernel.scalarFunction (name : String) (args : List (ScalarValue V)) : ScalarValue V :=
  if name = "struct" then .tuple "struct" 1 false args else K.function name args

mutual

def Expr.eval (row : Row V schema) : Expr V → ScalarValue V
  | .column _ name => row.column name
  | .literal v => v
  | .cast e ty => K.cast (e.eval row) ty
  | .binary l op r => K.operator op (l.eval row) (r.eval row)
  | .isNull e => K.ofTri (.ofBool (e.eval row).isNull)
  | .isNotNull e => K.ofTri (.ofBool (!(e.eval row).isNull))
  | .inList e list negated => K.ofTri (K.inList (e.eval row) (Expr.evalList row list) negated)
  | .other name args => K.function name (Expr.evalList row args)
def Expr.evalList (row : Row V schema) : List (Expr V) → List (ScalarValue V)
  | [] => []
  | e :: es => e.eval row :: Expr.evalList row es
end

mutual

/-- The value of a physical expression; its columns are read by position. -/
def PhysicalExpr.eval (row : Row V schema) : PhysicalExpr V → ScalarValue V
  | .column name _ => row.column name
  | .literal v => v
  | .cast e ty => K.cast (e.eval row) ty
  | .binary l op r => K.operator op (l.eval row) (r.eval row)
  | .isNull e => K.ofTri (.ofBool (e.eval row).isNull)
  | .isNotNull e => K.ofTri (.ofBool (!(e.eval row).isNull))
  | .inList e list negated => K.ofTri (K.inList (e.eval row) (PhysicalExpr.evalList row list) negated)
  | .scalarFunction name args => K.scalarFunction name (PhysicalExpr.evalList row args)
  | .other name args => K.function name (PhysicalExpr.evalList row args)
def PhysicalExpr.evalList (row : Row V schema) : List (PhysicalExpr V) → List (ScalarValue V)
  | [] => []
  | e :: es => e.eval row :: PhysicalExpr.evalList row es
end

attribute [local simp] Expr.eval PhysicalExpr.eval

/-- The filter is TRUE on the row. -/
def Expr.accepts (e : Expr V) (row : Row V schema) : Prop := K.truthOf (e.eval K row) = .yes

/-- The row passes the filter. -/
def PhysicalExpr.accepts (e : PhysicalExpr V) (row : Row V schema) : Prop :=
  K.truthOf (e.eval K row) = .yes

theorem Expr.accepts_and {l r : Expr V} {row : Row V schema} :
    (Expr.binary l .and r).accepts K row ↔ l.accepts K row ∧ r.accepts K row := by
  simp [accepts, eval, Kernel.operator]

theorem Expr.accepts_or {l r : Expr V} {row : Row V schema} :
    (Expr.binary l .or r).accepts K row ↔ l.accepts K row ∨ r.accepts K row := by
  simp [accepts, eval, Kernel.operator]

theorem PhysicalExpr.accepts_and {l r : PhysicalExpr V} {row : Row V schema} :
    (PhysicalExpr.binary l .and r).accepts K row ↔ l.accepts K row ∧ r.accepts K row := by
  simp [accepts, eval, Kernel.operator]

theorem PhysicalExpr.accepts_or {l r : PhysicalExpr V} {row : Row V schema} :
    (PhysicalExpr.binary l .or r).accepts K row ↔ l.accepts K row ∨ r.accepts K row := by
  simp [accepts, eval, Kernel.operator]

/-! ## Reading an operand as a column or as a literal -/

/-- A cast is removed only when it is to the column's own type (filters.rs:525-531). -/
def noopCast (schema : Schema) (name : String) (ty : DataType) : Option String :=
  match schema.fieldWithName name with
  | none => none
  | some field => if field.dataType = ty then some name else none

/-- `column_name` (`filters.rs:522-534`). -/
def columnName (schema : Schema) : Expr V → Option String
  | .column _ name => some name
  | .cast e ty => (columnName schema e).bind fun name => noopCast schema name ty
  | _ => none

/-- `literal` (`filters.rs:536-542`). -/
def literal : Expr V → Option (ScalarValue V)
  | .literal v => some v
  | .cast e ty => (literal e).bind fun v => K.castTo v ty
  | _ => none

/-- `physical_column_name` (`filters.rs:544-551`). -/
def physicalColumnName (schema : Schema) : PhysicalExpr V → Option String
  | .column name _ => some name
  | .cast e ty => (physicalColumnName schema e).bind fun name => noopCast schema name ty
  | _ => none

/-- `physical_literal` (`filters.rs:553-560`). -/
def physicalLiteral : PhysicalExpr V → Option (ScalarValue V)
  | .literal v => some v
  | .cast e ty => (physicalLiteral e).bind fun v => K.castTo v ty
  | _ => none

/-- `physical_struct_columns` (`filters.rs:564-574`). -/
def physicalStructColumns (schema : Schema) : PhysicalExpr V → Option (List String)
  | .scalarFunction name args => if name = "struct" then args.mapM (physicalColumnName schema) else none
  | _ => none

theorem cast_noop (row : Row V schema) {name n : String} {ty : DataType}
    (h : noopCast schema name ty = some n) : n = name ∧ K.cast (row.column name) ty = row.column name := by
  unfold noopCast at h
  split at h
  · cases h
  · rename_i field hf
    split at h
    · rename_i hty
      cases h
      have := K.castTo_self (row.column name)
      rw [row.column_dataType hf, hty] at this
      exact ⟨rfl, by simp [Kernel.cast, this]⟩
    · cases h

theorem columnName_eval (row : Row V schema) : ∀ {e : Expr V} {name : String},
    columnName schema e = some name → e.eval K row = row.column name
  | .column _ _, _, h => by simp only [columnName, Option.some.injEq] at h; simp [Expr.eval, h]
  | .cast e ty, name, h => by
    simp only [columnName, Option.bind_eq_some_iff] at h
    obtain ⟨inner, hinner, hcast⟩ := h
    obtain ⟨rfl, heq⟩ := cast_noop K row hcast
    simp [Expr.eval, columnName_eval row hinner, heq]
  | .literal _, _, h | .binary _ _ _, _, h | .isNull _, _, h | .isNotNull _, _, h
  | .inList _ _ _, _, h | .other _ _, _, h => by simp [columnName] at h

theorem literal_eval (row : Row V schema) : ∀ {e : Expr V} {v : ScalarValue V},
    literal K e = some v → e.eval K row = v
  | .literal _, _, h => by simp only [literal, Option.some.injEq] at h; simp [Expr.eval, h]
  | .cast e ty, v, h => by
    simp only [literal, Option.bind_eq_some_iff] at h
    obtain ⟨inner, hinner, hcast⟩ := h
    simp [Expr.eval, literal_eval row hinner, Kernel.cast, hcast]
  | .column _ _, _, h | .binary _ _ _, _, h | .isNull _, _, h | .isNotNull _, _, h
  | .inList _ _ _, _, h | .other _ _, _, h => by simp [literal] at h

theorem physicalColumnName_eval (row : Row V schema) : ∀ {e : PhysicalExpr V} {name : String},
    physicalColumnName schema e = some name → e.eval K row = row.column name
  | .column _ _, _, h => by
    simp only [physicalColumnName, Option.some.injEq] at h; simp [PhysicalExpr.eval, h]
  | .cast e ty, name, h => by
    simp only [physicalColumnName, Option.bind_eq_some_iff] at h
    obtain ⟨inner, hinner, hcast⟩ := h
    obtain ⟨rfl, heq⟩ := cast_noop K row hcast
    simp [PhysicalExpr.eval, physicalColumnName_eval row hinner, heq]
  | .literal _, _, h | .binary _ _ _, _, h | .isNull _, _, h | .isNotNull _, _, h
  | .inList _ _ _, _, h | .scalarFunction _ _, _, h | .other _ _, _, h => by
    simp [physicalColumnName] at h

theorem physicalLiteral_eval (row : Row V schema) : ∀ {e : PhysicalExpr V} {v : ScalarValue V},
    physicalLiteral K e = some v → e.eval K row = v
  | .literal _, _, h => by
    simp only [physicalLiteral, Option.some.injEq] at h; simp [PhysicalExpr.eval, h]
  | .cast e ty, v, h => by
    simp only [physicalLiteral, Option.bind_eq_some_iff] at h
    obtain ⟨inner, hinner, hcast⟩ := h
    simp [PhysicalExpr.eval, physicalLiteral_eval row hinner, Kernel.cast, hcast]
  | .column _ _, _, h | .binary _ _ _, _, h | .isNull _, _, h | .isNotNull _, _, h
  | .inList _ _ _, _, h | .scalarFunction _ _, _, h | .other _ _, _, h => by
    simp [physicalLiteral] at h

theorem Expr.evalList_eq (row : Row V schema) : ∀ es : List (Expr V),
    Expr.evalList K row es = es.map (·.eval K row)
  | [] => rfl
  | e :: es => by simp [evalList, evalList_eq row es]

theorem PhysicalExpr.evalList_eq (row : Row V schema) : ∀ es : List (PhysicalExpr V),
    PhysicalExpr.evalList K row es = es.map (·.eval K row)
  | [] => rfl
  | e :: es => by simp [evalList, evalList_eq row es]

/-- A list of literals evaluates to those literals. -/
theorem literals_eval (row : Row V schema) {es : List (Expr V)} {vs : List (ScalarValue V)}
    (h : es.mapM (literal K) = some vs) : Expr.evalList K row es = vs := by
  rw [Expr.evalList_eq, ListFacts.map_of_mapM (h := id) (literal_eval K row) h, List.map_id]

theorem physicalLiterals_eval (row : Row V schema) {es : List (PhysicalExpr V)}
    {vs : List (ScalarValue V)} (h : es.mapM (physicalLiteral K) = some vs) :
    PhysicalExpr.evalList K row es = vs := by
  rw [PhysicalExpr.evalList_eq, ListFacts.map_of_mapM (h := id) (physicalLiteral_eval K row) h,
    List.map_id]

theorem physicalColumns_eval (row : Row V schema) {es : List (PhysicalExpr V)} {names : List String}
    (h : es.mapM (physicalColumnName schema) = some names) :
    PhysicalExpr.evalList K row es = names.map row.column := by
  rw [PhysicalExpr.evalList_eq, ListFacts.map_of_mapM (physicalColumnName_eval K row) h]

end VgiDatafusion
