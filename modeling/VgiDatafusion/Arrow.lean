import Mathlib.Algebra.GroupWithZero.Nat
import VgiDatafusion.Library.Kleene

/-!
# Arrow types, schemas and scalars

| here | there |
| --- | --- |
| `DataType`, `Field`, `Schema` | arrow's `DataType`, `Field`, `Schema` |
| `Schema.indexOf`, `Schema.fieldWithName` | `Schema::index_of`, `Schema::field_with_name`: the first field of that name |
| `ScalarValue` | DataFusion's `ScalarValue`, a struct scalar being a `StructArray` |
| `Kernel` | the arrow and DataFusion kernels the adapter calls on scalars |

Arrow and DataFusion are outside this repository. What the adapter relies on is collected in
`Kernel`: casting a value to its own type is the identity, an array built from scalars holds those
scalars, and a comparison can be mirrored. Everything else about the kernels is left open.
-/
namespace VgiDatafusion

open Kleene

inductive TimeUnit
  | second | millisecond | microsecond | nanosecond
  deriving DecidableEq, Repr

inductive IntervalUnit
  | yearMonth | dayTime | monthDayNano
  deriving DecidableEq, Repr

/-- arrow's `DataType`, as far as the adapter tells types apart. -/
inductive DataType
  | null | boolean
  | float16 | float32 | float64
  | decimal32 (precision scale : Int) | decimal64 (precision scale : Int)
  | decimal128 (precision scale : Int) | decimal256 (precision scale : Int)
  | int8 | int16 | int32 | int64
  | uint8 | uint16 | uint32 | uint64
  | utf8 | utf8View | largeUtf8
  | binary | binaryView | fixedSizeBinary (width : Int) | largeBinary
  | date32 | date64
  | time32 (unit : TimeUnit) | time64 (unit : TimeUnit)
  | timestamp (unit : TimeUnit) (tz : Option String)
  | interval (unit : IntervalUnit) | duration (unit : TimeUnit)
  | dictionary (key value : DataType)
  /-- Lists, structs, maps, unions and run-end arrays, told apart by their rendering. -/
  | nested (shape : String)
  deriving DecidableEq, Repr

/-- `HashMap<String, String>` metadata, as a sorted association list. -/
abbrev Metadata := List (String × String)

structure Field where
  name : String
  dataType : DataType
  nullable : Bool
  metadata : Metadata := []
  deriving DecidableEq, Repr

structure Schema where
  fields : List Field
  metadata : Metadata := []
  deriving DecidableEq, Repr

namespace Schema

def names (s : Schema) : List String := s.fields.map (·.name)

/-- `Schema::index_of`: the first field carrying the name. -/
def indexOf (s : Schema) (name : String) : Option Nat := s.fields.findIdx? (·.name == name)

/-- `Schema::field_with_name`. -/
def fieldWithName (s : Schema) (name : String) : Option Field := s.fields.find? (·.name == name)

theorem indexOf_spec {s : Schema} {name : String} {i : Nat} (h : s.indexOf name = some i) :
    ∃ f, s.fields[i]? = some f ∧ f.name = name := by
  rw [indexOf, List.findIdx?_eq_some_iff_getElem] at h
  obtain ⟨hi, hname, -⟩ := h
  exact ⟨s.fields[i], List.getElem?_eq_getElem hi, by simpa using hname⟩

theorem indexOf_isSome {s : Schema} {name : String} : (s.indexOf name).isSome = true ↔ name ∈ s.names := by
  rw [indexOf, List.findIdx?_isSome, List.any_eq_true, names, List.mem_map]
  simp

theorem fieldWithName_isSome {s : Schema} {name : String} : (s.fieldWithName name).isSome = true ↔ name ∈ s.names := by
  rw [fieldWithName, List.find?_isSome, names, List.mem_map]
  simp

theorem fieldWithName_eq (s : Schema) (name : String) :
    s.fieldWithName name = (s.indexOf name).bind (s.fields[·]?) :=
  List.find?_eq_bind_findIdx?_getElem?

end Schema

/-! ## Scalars -/

/-- `ScalarValue`. Every non-struct scalar is a type with a payload, `none` for a typed NULL; a
struct scalar is a one-column-per-field array of `rows` rows, `null0` its validity bit at row 0
and `columns` the fields read at row 0. -/
inductive ScalarValue (V : Type)
  | atom (ty : DataType) (value : Option V)
  | tuple (shape : String) (rows : Nat) (null0 : Bool) (columns : List (ScalarValue V))

namespace ScalarValue

variable {V : Type}

def dataType : ScalarValue V → DataType
  | atom ty _ => ty
  | tuple shape _ _ _ => .nested shape

def isNull : ScalarValue V → Bool
  | atom _ value => value.isNone
  | tuple _ _ null0 _ => null0

/-- The untyped NULL. -/
def untypedNull : ScalarValue V := .atom .null none

end ScalarValue

/-- The six comparisons of the filter encoding. -/
inductive Comparison
  | eq | ne | lt | le | gt | ge
  deriving DecidableEq, Repr

/-- The same comparison read from the other side. -/
def Comparison.mirror : Comparison → Comparison
  | eq => eq
  | ne => ne
  | lt => gt
  | le => ge
  | gt => lt
  | ge => le

/-- The arrow and DataFusion kernels, with the facts the adapter relies on. -/
structure Kernel (V : Type) where
  /-- `ScalarValue::cast_to`. -/
  castTo : ScalarValue V → DataType → Option (ScalarValue V)
  castTo_self : ∀ v, castTo v v.dataType = some v
  /-- `ScalarValue::iter_to_array`: refuses an empty list and mixed types. -/
  iterToArray : List (ScalarValue V) → Option (List (ScalarValue V))
  iterToArray_values : ∀ {vs a}, iterToArray vs = some a → a = vs
  /-- `ScalarValue::to_array_of_size(1)`. -/
  toArray : ScalarValue V → Option (ScalarValue V)
  toArray_value : ∀ {v a}, toArray v = some a → a = v
  /-- `ScalarValue::try_from_array` on one field of a struct scalar. -/
  tryFromArray : ScalarValue V → Option (ScalarValue V)
  tryFromArray_value : ∀ {v a}, tryFromArray v = some a → a = v
  /-- Comparison of two non-null payloads. -/
  holds : Comparison → V → V → Bool
  holds_mirror : ∀ c a b, holds c.mirror a b = holds c b a
  /-- Comparison where a side is a struct. -/
  nestedHolds : Comparison → ScalarValue V → ScalarValue V → Tri
  nestedHolds_mirror : ∀ c x y, nestedHolds c.mirror x y = nestedHolds c y x
  /-- Whether two NULL fields of a struct count as equal. -/
  nullFieldsMatch : Bool
  /-- Booleans among the payloads. -/
  bool : Bool → V
  truth : V → Tri
  truth_bool : ∀ b, truth (bool b) = Tri.ofBool b
  /-- Scalar functions, and the operators the encoding has no token for. -/
  function : String → List (ScalarValue V) → ScalarValue V

namespace Kernel

variable {V : Type} (K : Kernel V)

/-- A scalar read as a truth value: NULL and non-booleans are `unknown`. -/
def truthOf : ScalarValue V → Tri
  | .atom _ (some v) => K.truth v
  | _ => .unknown

/-- A truth value as a Boolean scalar. -/
def ofTri : Tri → ScalarValue V
  | .yes => .atom .boolean (some (K.bool true))
  | .no => .atom .boolean (some (K.bool false))
  | .unknown => .atom .boolean none

@[simp] theorem truthOf_ofTri (t : Tri) : K.truthOf (K.ofTri t) = t := by
  cases t <;> simp [ofTri, truthOf, K.truth_bool, Tri.ofBool]

/-- SQL comparison: NULL on either side is `unknown`. -/
def compare (c : Comparison) : ScalarValue V → ScalarValue V → Tri
  | .atom _ (some a), .atom _ (some b) => Tri.ofBool (K.holds c a b)
  | .atom _ none, _ | _, .atom _ none => .unknown
  | x, y => K.nestedHolds c x y

theorem compare_mirror (c : Comparison) (x y : ScalarValue V) :
    K.compare c.mirror x y = K.compare c y x := by
  cases x with
  | atom ty a => cases y with
    | atom ty' b => cases a <;> cases b <;> simp [compare, K.holds_mirror]
    | tuple shape rows null0 columns => cases a <;> simp [compare, K.nestedHolds_mirror]
  | tuple shape rows null0 columns => cases y with
    | atom ty' b => cases b <;> simp [compare, K.nestedHolds_mirror]
    | tuple shape' rows' null1 columns' => simp [compare, K.nestedHolds_mirror]

/-- One field of a struct comparison. -/
def fieldMatches (x y : ScalarValue V) : Bool :=
  if x.isNull && y.isNull then K.nullFieldsMatch else K.compare .eq x y == .yes

def fieldsMatch : List (ScalarValue V) → List (ScalarValue V) → Bool
  | [], [] => true
  | x :: xs, y :: ys => K.fieldMatches x y && fieldsMatch xs ys
  | _, _ => false

/-- `x = v` as an `IN` list tests it: a struct field by field, anything else as `=` does. -/
def member (x v : ScalarValue V) : Tri :=
  match x, v with
  | .tuple _ _ null0 xs, .tuple _ _ null1 ys =>
    if null0 || null1 then .unknown else Tri.ofBool (K.fieldsMatch xs ys)
  | x, v => K.compare .eq x v

@[simp] theorem member_atom (x : ScalarValue V) (ty : DataType) (value : Option V) :
    K.member x (.atom ty value) = K.compare .eq x (.atom ty value) := by
  cases x <;> rfl

/-- `x IN (vs)`, or `x NOT IN (vs)`. -/
def inList (x : ScalarValue V) (vs : List (ScalarValue V)) (negated : Bool) : Tri :=
  let t := Tri.any (vs.map (K.member x))
  if negated then t.not else t

@[simp] theorem inList_eq_yes {x : ScalarValue V} {vs : List (ScalarValue V)} :
    K.inList x vs false = .yes ↔ ∃ v ∈ vs, K.member x v = .yes := by
  simp [inList]

end Kernel

/-- Nullable 64-bit integers and booleans, with the addition the filters below use: enough of the
kernels to run the model on concrete rows. Booleans are the payloads 0 and 1. -/
def Kernel.integers : Kernel Int where
  castTo v ty := if v.dataType = ty then some v else none
  castTo_self v := by simp
  iterToArray
    | [] => none
    | v :: vs => if vs.all (·.dataType = v.dataType) then some (v :: vs) else none
  iterToArray_values {vs a} h := by
    split at h
    · cases h
    · split at h
      · cases h; rfl
      · cases h
  toArray v := some v
  toArray_value h := by cases h; rfl
  tryFromArray v := some v
  tryFromArray_value h := by cases h; rfl
  holds
    | .eq, a, b => a == b
    | .ne, a, b => a != b
    | .lt, a, b => decide (a < b)
    | .le, a, b => decide (a ≤ b)
    | .gt, a, b => decide (b < a)
    | .ge, a, b => decide (b ≤ a)
  holds_mirror c a b := by
    cases c <;> simp only [Comparison.mirror]
    · exact Bool.beq_comm
    · exact bne_comm
  nestedHolds _ _ _ := .unknown
  nestedHolds_mirror _ _ _ := rfl
  nullFieldsMatch := true
  bool b := if b then 1 else 0
  truth n := if n = 1 then .yes else if n = 0 then .no else .unknown
  truth_bool b := by cases b <;> rfl
  function
    | "+", [.atom .int64 (some a), .atom .int64 (some b)] => .atom .int64 (some (a + b))
    | _, _ => .atom .null none

/-! ## Rows -/

/-- A row of a table: one scalar of the declared type for each field. -/
structure Row (V : Type) (schema : Schema) where
  cells : List (ScalarValue V)
  typed : cells.map (·.dataType) = schema.fields.map (·.dataType)

namespace Row

variable {V : Type} {schema : Schema}

/-- The value of a column, found by name as the adapter finds it. -/
def column (row : Row V schema) (name : String) : ScalarValue V :=
  ((schema.indexOf name).bind (row.cells[·]?)).getD .untypedNull

theorem column_of_indexOf (row : Row V schema) {name : String} {i : Nat}
    (h : schema.indexOf name = some i) : row.cells[i]? = some (row.column name) := by
  obtain ⟨f, hf, -⟩ := Schema.indexOf_spec h
  have hlen : row.cells.length = schema.fields.length := by
    simpa using congrArg List.length row.typed
  have hi : i < row.cells.length := by
    have := (List.getElem?_eq_some_iff.1 hf).1; omega
  simp [column, h, List.getElem?_eq_getElem hi]

/-- A column holds values of its declared type, so a cast to that type changes nothing. -/
theorem column_dataType (row : Row V schema) {name : String} {f : Field}
    (h : schema.fieldWithName name = some f) : (row.column name).dataType = f.dataType := by
  rw [Schema.fieldWithName_eq, Option.bind_eq_some_iff] at h
  obtain ⟨i, hi, hf⟩ := h
  have hcell := row.column_of_indexOf hi
  have htyped := congrArg (·[i]?) row.typed
  simpa [hcell, hf] using htyped

end Row
end VgiDatafusion
