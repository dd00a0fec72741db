import VgiDatafusion.Filters.Expr

/-!
# The filter builder (filters.rs:112-703)

| here | there |
| --- | --- |
| `supportedConstantType`, `Constant.fromScalar` | filters.rs:46-110 |
| `Spec`, `ColumnRef`, `ExternalSet` | the JSON nodes `comparison`, `is_null`, `in`, `and`, `or` of the filter encoding, `column_ref`, and the `set` of an external membership |
| `JoinKeys` | one side IPC batch: `join_keys_ipc` (filters.rs:993-1013) |
| `Builder` | `Builder`, without the two schemas it borrows |
| `remoteColumn`, `membership` | filters.rs:155-204 |
| `build`, `binary` | `Builder::build`, `Builder::binary` (filters.rs:206-243, 452-500) |
| `buildPhysical`, `physicalBinary` | filters.rs:248-296, 384-437 |
| `buildPhysicalTop`, `structMemberships` | filters.rs:303-382 |
| `collectLogicalOrEqualities`, `sameColumnMembership`, … | filters.rs:580-666 |
| `opToken`, `flip`, `isPushable` | filters.rs:668-703 |

The builder is a state that outlives a failed translation: `?` in the source returns `None` and
keeps whatever was pushed before, so every function here returns the state beside its optional
result. An IPC batch is kept as what it carries (a column name and its values); the bytes of a
field index never leave `i64`, since a schema has fewer than `isize::MAX` fields.
-/
namespace VgiDatafusion

/-! ## The wire nodes -/

/-- `{"node": "column_ref", "column_index": …, "column_name": …}`. -/
structure ColumnRef where
  index : Nat
  name : String
  deriving DecidableEq, Repr

/-- `{"kind": "external", "batch_index": …, "column_index": 0, "column_name": …}`. -/
structure ExternalSet where
  batchIndex : Nat
  columnIndex : Nat
  columnName : String
  deriving DecidableEq, Repr

/-- A node of the filter encoding, as the `json!` of the builder writes it (`filters.rs:155-500`). -/
inductive Spec
  | comparison (op : Comparison) (left : ColumnRef) (valueRef : Nat)
  | isNull (expression : ColumnRef) (negated : Bool)
  | inSet (expression : ColumnRef) (set : ExternalSet) (negated : Bool)
  | and (left right : Spec)
  | or (left right : Spec)
  deriving DecidableEq, Repr

/-- A single-column membership batch. -/
structure JoinKeys (V : Type) where
  column : String
  values : List (ScalarValue V)

/-- `contains_join_keys` (`filters.rs:511-520`): some node below names an external set. -/
def containsJoinKeys : Spec → Bool
  | .comparison _ _ _ | .isNull _ _ => false
  | .inSet _ _ _ => true
  | .and l r | .or l r => containsJoinKeys l || containsJoinKeys r

/-! ## Constants -/

/-- What may index a dictionary (`filters.rs:100-103`). -/
def DataType.isInteger : DataType → Bool
  | .int8 | .int16 | .int32 | .int64 | .uint8 | .uint16 | .uint32 | .uint64 => true
  | _ => false

/-- `supported_constant_type` (`filters.rs:65-107`); a dictionary needs an integer key and a supported value that is not
itself a dictionary (`supported_dictionary_value_type`). -/
def supportedConstantType : DataType → Bool
  | .null | .nested _ => false
  | .dictionary _ (.dictionary _ _) => false
  | .dictionary key value => key.isInteger && supportedConstantType value
  | _ => true

variable {V : Type}

/-- `Constant::from_scalar` (`filters.rs:48-55`): `col = NULL` is not `col IS NULL`, so a NULL is refused. -/
def Constant.fromScalar (v : ScalarValue V) : Option (ScalarValue V) :=
  if v.isNull || !supportedConstantType v.dataType then none else some v

theorem Constant.fromScalar_spec {v c : ScalarValue V} (h : Constant.fromScalar v = some c) :
    c = v ∧ v.isNull = false ∧ ∃ ty payload, v = .atom ty payload := by
  unfold Constant.fromScalar at h
  split at h
  · cases h
  · rename_i hsupported
    simp only [Option.some.injEq] at h
    simp only [Bool.or_eq_true, Bool.not_eq_true', not_or, Bool.not_eq_true, Bool.not_eq_false] at hsupported
    refine ⟨h.symm, hsupported.1, ?_⟩
    cases v with
    | atom ty payload => exact ⟨ty, payload, rfl⟩
    | tuple shape rows null0 columns =>
      exact absurd hsupported.2 (by simp [ScalarValue.dataType, supportedConstantType])

/-! ## The builder -/

/-- `Builder` (`filters.rs:114-133`), without the two schemas it borrows. -/
structure Builder (V : Type) where
  constants : List (ScalarValue V) := []
  /-- Bind-schema positions of every column resolved so far, in first-seen order. -/
  referencedColumns : List Nat := []
  joinKeys : List (JoinKeys V) := []

/-- What `Builder::checkpoint` (`filters.rs:141-147`) returns: three lengths. -/
structure Checkpoint where
  constants : Nat
  referencedColumns : Nat
  joinKeys : Nat

/-- `Builder::checkpoint` (`filters.rs:141-147`). -/
def Builder.checkpoint (b : Builder V) : Checkpoint :=
  ⟨b.constants.length, b.referencedColumns.length, b.joinKeys.length⟩

/-- `Builder::rollback` (`filters.rs:149-153`): each list is cut back to its length. -/
def Builder.rollback (b : Builder V) (c : Checkpoint) : Builder V :=
  ⟨b.constants.take c.constants, b.referencedColumns.take c.referencedColumns, b.joinKeys.take c.joinKeys⟩

variable (K : Kernel V) (schema remote : Schema)

/-- `Builder::remote_column` (`filters.rs:185-204`): public name to (worker name, position), recording the position. -/
def remoteColumn (b : Builder V) (name : String) : Option ColumnRef × Builder V :=
  match schema.indexOf name with
  | none => (none, b)
  | some index =>
    match remote.fields[index]? with
    | none => (none, b)
    | some field =>
      (some ⟨index, field.name⟩,
        if b.referencedColumns.contains index then b
        else { b with referencedColumns := b.referencedColumns ++ [index] })

/-- `join_keys_ipc` (`filters.rs:995-1013`). -/
def joinKeysIpc (column : String) (values : List (ScalarValue V)) : Option (JoinKeys V) :=
  (K.iterToArray values).map fun array => ⟨column, array⟩

/-- `Builder::membership` (`filters.rs:159-178`): the column is resolved (and recorded) before the side batch is built. -/
def membership (b : Builder V) (name : String) (values : List (ScalarValue V)) : Option Spec × Builder V :=
  if values.isEmpty || values.any (fun v => (Constant.fromScalar v).isNone) then (none, b)
  else match remoteColumn schema remote b name with
    | (none, b) => (none, b)
    | (some column, b) =>
      match joinKeysIpc K column.name values with
      | none => (none, b)
      | some keys =>
        (some (.inSet column ⟨b.joinKeys.length, 0, column.name⟩ false),
          { b with joinKeys := b.joinKeys ++ [keys] })

/-- `op_token` (`filters.rs:668-678`). -/
def opToken : Operator → Option Comparison
  | .cmp c => some c
  | _ => none

/-- `flip` (`filters.rs:681-691`): `5 < x` becomes `x > 5`. -/
def flip : Operator → Option Operator
  | .cmp c => some (.cmp c.mirror)
  | _ => none

/-- `col <op> literal`, or `literal <op> col` with the operator flipped (filters.rs:476-482). -/
def orient (leftColumn : Option String) (rightLiteral : Option (ScalarValue V))
    (leftLiteral : Option (ScalarValue V)) (rightColumn : Option String) (op : Operator) :
    Option (String × ScalarValue V × Operator) :=
  match leftColumn, rightLiteral with
  | some name, some value => some (name, value, op)
  | _, _ =>
    match leftLiteral, rightColumn with
    | some value, some name => (flip op).map fun flipped => (name, value, flipped)
    | _, _ => none

/-- The comparison leaf both front ends end in (filters.rs:427-436, 490-499). -/
def comparisonLeaf (b : Builder V) (name : String) (value : ScalarValue V) (op : Operator) :
    Option Spec × Builder V :=
  match remoteColumn schema remote b name with
  | (none, b) => (none, b)
  | (some column, b) =>
    match opToken op, Constant.fromScalar value with
    | some token, some constant =>
      (some (.comparison token column b.constants.length),
        { b with constants := b.constants ++ [constant] })
    | _, _ => (none, b)

/-- `IS NULL` and `IS NOT NULL` of a column, in both front ends. -/
def nullLeaf (b : Builder V) (name : Option String) (negated : Bool) : Option Spec × Builder V :=
  match name with
  | none => (none, b)
  | some name =>
    match remoteColumn schema remote b name with
    | (none, b) => (none, b)
    | (some column, b) => (some (.isNull column negated), b)

/-! ## Disjunctions of equalities on one column -/

/-- `column = literal` in either order. -/
def equalityTerm (leftColumn : Option String) (rightLiteral : Option (ScalarValue V))
    (leftLiteral : Option (ScalarValue V)) (rightColumn : Option String) :
    Option (String × ScalarValue V) :=
  match leftColumn, rightLiteral with
  | some name, some value => some (name, value)
  | _, _ =>
    match leftLiteral, rightColumn with
    | some value, some name => some (name, value)
    | _, _ => none

/-- `collect_logical_or_equalities` (`filters.rs:591-616`): an OR tree of equalities, from left to right. -/
def collectLogicalOrEqualities : Expr V → Option (List (String × ScalarValue V))
  | .binary l .or r =>
    (collectLogicalOrEqualities l).bind fun ls =>
      (collectLogicalOrEqualities r).map fun rs => ls ++ rs
  | .binary l (.cmp .eq) r =>
    (equalityTerm (columnName schema l) (literal K r) (literal K l) (columnName schema r)).map ([·])
  | _ => none

/-- `collect_physical_or_equalities` (`filters.rs:628-657`). -/
def collectPhysicalOrEqualities : PhysicalExpr V → Option (List (String × ScalarValue V))
  | .binary l .or r =>
    (collectPhysicalOrEqualities l).bind fun ls =>
      (collectPhysicalOrEqualities r).map fun rs => ls ++ rs
  | .binary l (.cmp .eq) r =>
    (equalityTerm (physicalColumnName schema l) (physicalLiteral K r) (physicalLiteral K l)
      (physicalColumnName schema r)).map ([·])
  | _ => none

/-- `same_column_membership` (`filters.rs:659-665`). -/
def sameColumnMembership : List (String × ScalarValue V) → Option (String × List (ScalarValue V))
  | [] => none
  | (name, value) :: terms =>
    if terms.any (fun term => term.1 != name) then none
    else some (name, value :: terms.map (·.2))

/-- `logical_or_equalities` (`filters.rs:580-589`), on the two sides of an OR. -/
def logicalOrEqualities (l r : Expr V) : Option (String × List (ScalarValue V)) :=
  (collectLogicalOrEqualities K schema (.binary l .or r)).bind sameColumnMembership

/-- `physical_or_equalities` (`filters.rs:618-626`), on the two sides of an OR. -/
def physicalOrEqualities (l r : PhysicalExpr V) : Option (String × List (ScalarValue V)) :=
  (collectPhysicalOrEqualities K schema (.binary l .or r)).bind sameColumnMembership

/-! ## Combining two translated sides -/

/-- AND keeps whichever side is expressible: dropping one conjunct yields a superset. -/
def keepExpressible : Option Spec → Option Spec → Option Spec
  | some l, some r => some (.and l r)
  | some one, none | none, some one => some one
  | none, none => none

/-- OR keeps both sides or none, and never a side that needs an external set. -/
def bothOrNone : Option Spec → Option Spec → Option Spec
  | some l, some r => if containsJoinKeys (.or l r) then none else some (.or l r)
  | _, _ => none

/-! ## Logical expressions -/

/-- `Builder::build` (`filters.rs:207-243`); `binary` is its arm for a comparison. -/
def build (b : Builder V) : Expr V → Option Spec × Builder V
  | .binary l .and r =>
    let (left, b₁) := build b l
    let (right, b₂) := build b₁ r
    (keepExpressible left right, b₂)
  | .binary l .or r =>
    match logicalOrEqualities K schema l r with
    | some (name, values) => membership K schema remote b name values
    | none =>
      let (left, b₁) := build b l
      let (right, b₂) := build b₁ r
      match bothOrNone left right with
      | none => (none, b₂.rollback b.checkpoint)
      | some spec => (some spec, b₂)
  | .binary l op r =>
    match orient (columnName schema l) (literal K r) (literal K l) (columnName schema r) op with
    | none => (none, b)
    | some (name, value, op) => comparisonLeaf schema remote b name value op
  | .isNull e => nullLeaf schema remote b (columnName schema e) false
  | .isNotNull e => nullLeaf schema remote b (columnName schema e) true
  | .inList e list negated =>
    if negated then (none, b)
    else match columnName schema e, list.mapM (literal K) with
      | some name, some values => membership K schema remote b name values
      | _, _ => (none, b)
  | _ => (none, b)

/-- `is_pushable` (`filters.rs:694-703`): whether a predicate can be expressed on the wire at all. -/
def isPushable (e : Expr V) : Bool := (build K schema schema {} e).1.isSome

/-! ## Physical expressions -/

/-- `Builder::build_physical` (`filters.rs:248-294`). -/
def buildPhysical (sideJoinKeys : Bool) (b : Builder V) : PhysicalExpr V → Option Spec × Builder V
  | .binary l .and r =>
    let (left, b₁) := buildPhysical sideJoinKeys b l
    let (right, b₂) := buildPhysical sideJoinKeys b₁ r
    match keepExpressible left right with
    | none => (none, b₂.rollback b.checkpoint)
    | some spec => (some spec, b₂)
  | .binary l .or r =>
    match (if sideJoinKeys then physicalOrEqualities K schema l r else none) with
    | some (name, values) => membership K schema remote b name values
    | none =>
      let (left, b₁) := buildPhysical sideJoinKeys b l
      let (right, b₂) := buildPhysical sideJoinKeys b₁ r
      match bothOrNone left right with
      | none => (none, b₂.rollback b.checkpoint)
      | some spec => (some spec, b₂)
  | .binary l op r =>
    match orient (physicalColumnName schema l) (physicalLiteral K r) (physicalLiteral K l)
        (physicalColumnName schema r) op with
    | none => (none, b)
    | some (name, value, op) => comparisonLeaf schema remote b name value op
  | .isNull e => nullLeaf schema remote b (physicalColumnName schema e) false
  | .isNotNull e => nullLeaf schema remote b (physicalColumnName schema e) true
  | .inList e list negated =>
    if negated || list.isEmpty then (none, b)
    else match physicalColumnName schema e, list.mapM (physicalLiteral K) with
      | some name, some values =>
        -- continuation metadata carries no side batch, so membership is omitted there
        if sideJoinKeys then membership K schema remote b name values else (none, b)
      | _, _ => (none, b)
  | _ => (none, b)

/-- The fields of one tuple of a struct `IN` list (filters.rs:357-366). -/
def tupleFields (arity : Nat) (e : PhysicalExpr V) : Option (List (ScalarValue V)) :=
  match physicalLiteral K e with
  | some (.tuple _ rows null0 columns) =>
    if rows != 1 || null0 || columns.length != arity then none
    else columns.mapM K.tryFromArray
  | _ => none

/-- The `i`-th field of every tuple. -/
def fieldValues (tuples : List (List (ScalarValue V))) (i : Nat) : List (ScalarValue V) :=
  tuples.filterMap (·[i]?)

/-- The loop of `struct_memberships`: one membership a column, `none` at the first refusal. -/
def memberships (b : Builder V) (tuples : List (List (ScalarValue V))) :
    Nat → List String → Option (List Spec) × Builder V
  | _, [] => (some [], b)
  | i, name :: names =>
    match membership K schema remote b name (fieldValues tuples i) with
    | (none, b) => (none, b)
    | (some spec, b) =>
      match memberships b tuples (i + 1) names with
      | (none, b) => (none, b)
      | (some specs, b) => (some (spec :: specs), b)

/-- `Builder::struct_memberships` (`filters.rs:341-378`): `struct(a, b) IN ((a1, b1), …)` as one independent set a column,
all of them or none. -/
def structMemberships (b : Builder V) (e : PhysicalExpr V) (list : List (PhysicalExpr V))
    (negated : Bool) : Option (List Spec) × Builder V :=
  if negated || list.isEmpty then (none, b)
  else match physicalStructColumns schema e with
    | none => (none, b)
    | some columns =>
      if columns.length < 2 || !columns.Nodup then (none, b)
      else match list.mapM (tupleFields K columns.length) with
        | none => (none, b)
        | some tuples =>
          match memberships K schema remote b tuples 0 columns with
          | (none, b') => (none, b'.rollback b.checkpoint)
          | (some specs, b') => (some specs, b')

/-- `Builder::build_physical_top` (`filters.rs:301-334`): top-level predicates are conjoined by the wire format, so AND trees
are flattened; a struct `IN` is tried as a family of memberships first. -/
def buildPhysicalTop (sideJoinKeys : Bool) (b : Builder V) : PhysicalExpr V → List Spec × Builder V
  | .binary l .and r =>
    let (left, b) := buildPhysicalTop sideJoinKeys b l
    let (right, b) := buildPhysicalTop sideJoinKeys b r
    (left ++ right, b)
  | .inList e list negated =>
    if sideJoinKeys then
      match structMemberships K schema remote b e list negated with
      | (some specs, b) => (specs, b)
      | (none, b) =>
        let (spec, b) := buildPhysical K schema remote sideJoinKeys b (.inList e list negated)
        (spec.toList, b)
    else
      let (spec, b) := buildPhysical K schema remote sideJoinKeys b (.inList e list negated)
      (spec.toList, b)
  | e =>
    let (spec, b) := buildPhysical K schema remote sideJoinKeys b e
    (spec.toList, b)

end VgiDatafusion
