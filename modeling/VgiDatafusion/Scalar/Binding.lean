import VgiDatafusion.Scalar.Overloads
import VgiDatafusion.Library.Lists

/-!
# The call that is planned and the call that is made (scalar.rs:245-279, 398-485, 614-761)

| here | there |
| --- | --- |
| `ArrowArray`, `ColumnarValue`, `ArgValue` | an array by its type and its cells; the enums of DataFusion and `vgi_client` |
| `ArgKernel` | `ScalarValue::cast_to`, the `cast` kernel, `to_array_of_size` and `from_array_row0` |
| `splitArguments` | `split_arguments` |
| `constScalarToArg`, `constArrayToArg`, `scalarToArg` | `const_scalar_to_arg`, `const_array_to_arg`; `scalar_to_arg` (table_function.rs:322-334) |
| `resolveReturnType` | `resolve_return_type`, up to what is sent to `bind` |
| `returnFieldFromArgs` | `return_field_from_args`, the same; with no literals at all `return_type` |
| `invokeAsyncWithArgs` | `invoke_async_with_args`, up to what is sent to the worker |

A return type is remembered under the types and values that `resolve_return_type` is given, so a remembered one is that of
the same call. Where a caller fixes the return type there is no bind while planning.

Planning selects an overload, resolves the NULLs of its varargs and selects again; the call is made with the first
selection. `planning_binds_executed_iff` says when this is one call.

Not in the source: `Constant.source`, the argument of the call that a positional of the `Arguments` comes from.
-/
namespace VgiDatafusion.Overloads

open FirstBest

variable {V : Type}

structure ArrowArray (V : Type) where
  dataType : DataType
  cells : List (ScalarValue V)

inductive ColumnarValue (V : Type)
  | scalar (value : ScalarValue V)
  | array (cells : ArrowArray V)

def ColumnarValue.dataType : ColumnarValue V → DataType
  | .scalar value => value.dataType
  | .array cells => cells.dataType

inductive ArgValue (V : Type)
  | null (dataType : DataType)
  | arrow (array : ArrowArray V)

/-- `ScalarValue::cast_to`, the `cast` kernel, `to_array_of_size` and `from_array_row0`. -/
structure ArgKernel (V : Type) where
  castTo : ScalarValue V → DataType → Except String (ScalarValue V)
  cast : ArrowArray V → DataType → Except String (ArrowArray V)
  cast_type : ∀ {array ty result}, cast array ty = .ok result → result.dataType = ty
  toArrayOfSize : ScalarValue V → Nat → Except String (ArrowArray V)
  toArrayOfSize_type : ∀ {value n result}, toArrayOfSize value n = .ok result → result.dataType = value.dataType
  /-- With the name of what is read, for the error. -/
  fromArrayRow0 : ArrowArray V → String → Except String (ArgValue V)

inductive ScalarError
  /-- "VGI scalar `function` const argument `index` cannot be cast from `source` to `target`: `error`". -/
  | constant (function : String) (index : Nat) (source target : DataType) (error : String)
  /-- "VGI scalar `function` argument `index` cannot be cast from `source` to `target`: `error`". -/
  | argument (function : String) (index : Nat) (source target : DataType) (error : String)
  | kernel (error : String)

/-! ## Constants and columns -/

structure Constant (V : Type) where
  source : Nat
  value : ArgValue V

/-- The type that is declared, where it is to be enforced; `Null` stands for any type. -/
def coercedType (specs : ArgSpecs) (coerceToDeclaredTypes : Bool) (index : Nat) : Option DataType :=
  if coerceToDeclaredTypes then
    ((positionalSpec specs.positional index).map (·.dataType)).filter (· ≠ .null)
  else none

def columnField (index : Nat) (ty : DataType) : Field := ⟨s!"col_{index}", ty, true, []⟩

section
variable (specs : ArgSpecs) (values : List (Option (ArgValue V))) (coerceToDeclaredTypes : Bool)

/-- The value where it is known, else a typed NULL. -/
def constantOf (argument : DataType × Nat) : Constant V :=
  let (ty, i) := argument
  ⟨i, (values[i]?.join).getD (.null ((coercedType specs coerceToDeclaredTypes i).getD ty))⟩

/-- One turn of the loop of `VgiScalarUdf::split_arguments` (`scalar.rs:245-283`). -/
def splitStep (state : List (Constant V) × List Field) (argument : DataType × Nat) : List (Constant V) × List Field :=
  let (ty, i) := argument
  if specs.positionalIsConst i then (state.1 ++ [constantOf specs values coerceToDeclaredTypes argument], state.2)
  else (state.1, state.2 ++ [columnField state.2.length ((coercedType specs coerceToDeclaredTypes i).getD ty)])

end

/-- `VgiScalarUdf::split_arguments` (`scalar.rs:245-283`): the constants, and the fields of the columns. -/
def splitArguments (specs : ArgSpecs) (types : List DataType) (values : List (Option (ArgValue V)))
    (coerceToDeclaredTypes : Bool) : List (Constant V) × List Field :=
  types.zipIdx.foldl (splitStep specs values coerceToDeclaredTypes) ([], [])

section
variable (K : ArgKernel V) (function : String)

/-- `scalar_to_arg` (`table_function.rs:322-334`). -/
def scalarToArg (index : Nat) (value : ScalarValue V) : Except ScalarError (ArgValue V) :=
  if value.isNull then .ok (.null value.dataType)
  else do
    let array ← (K.toArrayOfSize value 1).mapError .kernel
    (K.fromArrayRow0 array s!"{function} argument {index}").mapError .kernel

/-- `VgiScalarUdf::declared_const_type` (`scalar.rs:398-402`). -/
def declaredConstType (specs : ArgSpecs) (index : Nat) : Option DataType :=
  ((positionalSpec specs.positional index).filter (·.isConst)).map (·.dataType)

/-- `VgiScalarUdf::const_scalar_to_arg` (`scalar.rs:409-430`): cast to the declared type, if there is one. -/
def constScalarToArg (specs : ArgSpecs) (index : Nat) (value : ScalarValue V) : Except ScalarError (ArgValue V) := do
  let declared := (declaredConstType specs index).getD .null
  let value ← if declared = .null then .ok value
    else (K.castTo value declared).mapError (.constant function index value.dataType declared)
  scalarToArg K function index value

/-- `VgiScalarUdf::const_array_to_arg` (`scalar.rs:432-450`). -/
def constArrayToArg (specs : ArgSpecs) (index : Nat) (array : ArrowArray V) : Except ScalarError (ArgValue V) :=
  let declared := (declaredConstType specs index).getD .null
  if declared = .null ∨ array.dataType = declared then (K.fromArrayRow0 array function).mapError .kernel
  else do
    let coerced ← (K.cast array declared).mapError (.constant function index array.dataType declared)
    (K.fromArrayRow0 coerced function).mapError .kernel

/-! ## The two calls -/

/-- What a bind gets to see of a call, and the overload it was made for. -/
structure BoundCall (V : Type) where
  specs : ArgSpecs
  arguments : List (Constant V)
  inputSchema : List Field

/-- `VgiScalarUdf::resolve_return_type` (`scalar.rs:459-524`), up to what is sent to `bind`. -/
def resolveReturnType (udf : VgiScalarUdf) (argTypes : List DataType) (values : List (Option (ArgValue V))) :
    BoundCall V :=
  let (specs, compatible) := selectSpecs udf argTypes
  let (arguments, columns) := splitArguments specs argTypes values compatible
  ⟨specs, arguments, columns⟩

/-- A literal in the place of a constant. -/
def plannedValue (specs : ArgSpecs) (compatible : Bool) (argument : Option (ScalarValue V) × Nat) :
    Except ScalarError (Option (ArgValue V)) :=
  match argument with
  | (some value, i) =>
    if specs.positionalIsConst i then
      (if compatible then constScalarToArg K function specs i value else scalarToArg K function i value).map some
    else .ok none
  | (none, _) => .ok none

/-- `VgiScalarUdf::return_field_from_args` (`scalar.rs:614-646`), the same; with no literals at all it is `return_type`. -/
def returnFieldFromArgs (udf : VgiScalarUdf) (types : List DataType) (scalarArguments : List (Option (ScalarValue V))) :
    Except ScalarError (BoundCall V) := do
  let (specs, compatible) := selectSpecs udf types
  let resolvedTypes := resolveUntypedNullVarargs specs types
  let values ← scalarArguments.zipIdx.mapM (plannedValue K udf.function specs compatible)
  return resolveReturnType udf resolvedTypes values

/-- A constant of the call that is made (`scalar.rs:664-734`). -/
def executedValue (specs : ArgSpecs) (compatible : Bool) (argument : ColumnarValue V × Nat) :
    Except ScalarError (Option (ArgValue V)) :=
  match argument with
  | (.scalar value, i) =>
    if specs.positionalIsConst i then
      (if compatible then constScalarToArg K function specs i value else scalarToArg K function i value).map some
    else .ok none
  | (.array array, i) =>
    if specs.positionalIsConst i then
      (if compatible then constArrayToArg K function specs i array
        else (K.fromArrayRow0 array function).mapError .kernel).map some
    else .ok none

/-- The type a column is cast to, if any. -/
def castTarget (specs : ArgSpecs) (compatible : Bool) (resolved actual : DataType) (index : Nat) : Option DataType :=
  let declared := (positionalSpec specs.positional index).map (·.dataType)
  let resolvedNull := if actual = .null ∧ resolved ≠ .null then some resolved else none
  (declared.filter fun ty => compatible && ty ≠ .null).or resolvedNull

def toArray (rows : Nat) : ColumnarValue V → Except ScalarError (ArrowArray V)
  | .scalar value => (K.toArrayOfSize value rows).mapError .kernel
  | .array array => .ok array

/-- A column of the call that is made (`scalar.rs:664-761`). -/
def executedColumn (specs : ArgSpecs) (compatible : Bool) (resolvedTypes : List DataType) (rows : Nat)
    (argument : ColumnarValue V × Nat) : Except ScalarError (ArrowArray V) := do
  let array ← toArray K rows argument.1
  match castTarget specs compatible (resolvedTypes[argument.2]?.getD .null) array.dataType argument.2 with
  | none => .ok array
  | some declared =>
    if array.dataType = declared then .ok array
    else (K.cast array declared).mapError (.argument function argument.2 array.dataType declared)

/-- `VgiScalarUdf::invoke_async_with_args` (`scalar.rs:664-822`), up to what is sent to the worker. -/
def invokeAsyncWithArgs (udf : VgiScalarUdf) (args : List (ColumnarValue V)) (rows : Nat) :
    Except ScalarError (BoundCall V) := do
  let types := args.map (·.dataType)
  let (specs, compatible) := selectSpecs udf types
  let resolvedTypes := resolveUntypedNullVarargs specs types
  let values ← args.zipIdx.mapM (executedValue K udf.function specs compatible)
  let (arguments, _) := splitArguments specs resolvedTypes values compatible
  let columns ← (args.zipIdx.filter fun argument => !specs.positionalIsConst argument.2).mapM
    (executedColumn K udf.function specs compatible resolvedTypes rows)
  return ⟨specs, arguments, columns.mapIdx fun i column => columnField i column.dataType⟩

end

/-! ## One call -/

/-- The planned call is the one that is made, up to constants that are not literals. -/
structure SameCall (scalarArguments : List (Option (ScalarValue V))) (args : List (ColumnarValue V))
    (planned executed : BoundCall V) : Prop where
  overload : planned.specs = executed.specs
  layout : planned.arguments.map (·.source) = executed.arguments.map (·.source)
  literals : ∀ c ∈ planned.arguments, ∀ v, scalarArguments[c.source]? = some (some v) →
    args[c.source]? = some (.scalar v) → c ∈ executed.arguments
  inputSchema : planned.inputSchema = executed.inputSchema

/-- The type an argument is bound with. -/
def boundType (specs : ArgSpecs) (coerce : Bool) (types : List DataType) (i : Nat) : DataType :=
  (coercedType specs coerce i).getD (types[i]?.getD .null)

def constantIndices (specs : ArgSpecs) (n : Nat) : List Nat := (List.range n).filter specs.positionalIsConst

def columnIndices (specs : ArgSpecs) (n : Nat) : List Nat := (List.range n).filter fun i => !specs.positionalIsConst i

section
variable {specs : ArgSpecs} {coerce : Bool} {values : List (Option (ArgValue V))} {types : List DataType}

def constantFor (specs : ArgSpecs) (coerce : Bool) (types : List DataType) (values : List (Option (ArgValue V))) (i : Nat) :
    Constant V :=
  ⟨i, (values[i]?.join).getD (.null (boundType specs coerce types i))⟩

/-- The split by index. -/
theorem splitArguments_eq : splitArguments specs types values coerce =
    ((constantIndices specs types.length).map (constantFor specs coerce types values),
      ((columnIndices specs types.length).map (boundType specs coerce types)).mapIdx columnField) := by
  have hfold : ∀ (arguments : List (DataType × Nat)) (state : List (Constant V) × List Field),
      arguments.foldl (splitStep specs values coerce) state =
        (state.1 ++ (arguments.filter fun a => specs.positionalIsConst a.2).map (constantOf specs values coerce),
          state.2 ++ ((arguments.filter fun a => !specs.positionalIsConst a.2).map fun a =>
            (coercedType specs coerce a.2).getD a.1).mapIdx fun i => columnField (state.2.length + i)) := by
    intro arguments
    induction arguments with
    | nil => simp
    | cons a arguments ih =>
      intro state
      rw [List.foldl_cons, ih]
      by_cases hconst : specs.positionalIsConst a.2 = true
      · simp [splitStep, hconst]
      · simp [splitStep, hconst, Nat.add_assoc, Nat.add_comm 1]
  have htypes : ∀ ty i, types[i]? = some ty → (coercedType specs coerce i).getD ty = boundType specs coerce types i := by
    intro ty i hty
    simp [boundType, hty]
  have hcolumns := ListFacts.map_filter_zipIdx (p := fun i => !specs.positionalIsConst i)
    (f := fun a => (coercedType specs coerce a.2).getD a.1) htypes
  have hvalues : ∀ ty i, types[i]? = some ty →
      constantOf specs values coerce (ty, i) = constantFor specs coerce types values i := by
    intro ty i hty
    simp [constantOf, constantFor, htypes ty i hty]
  have hconstants := ListFacts.map_filter_zipIdx (p := specs.positionalIsConst) hvalues
  rw [splitArguments, hfold, hconstants]
  simp only [List.nil_append, List.length_nil, Nat.zero_add]
  rw [columnIndices, ← hcolumns]
  rfl

end

section
variable {K : ArgKernel V} {function : String} {specs : ArgSpecs} {compatible : Bool} {types resolved : List DataType}
  {rows : Nat}

theorem toArray_type {argument : ColumnarValue V} {array : ArrowArray V} (h : toArray K rows argument = .ok array) :
    array.dataType = argument.dataType := by
  cases argument with
  | array cells =>
    cases h
    rfl
  | scalar value =>
    simp only [toArray] at h
    cases hsize : K.toArrayOfSize value rows with
    | error e => simp [hsize, Except.mapError] at h
    | ok a =>
      simp only [hsize, Except.mapError, Except.ok.injEq] at h
      subst h
      exact K.toArrayOfSize_type hsize

/-- Kept or cast, an array ends with the type asked for. -/
theorem castUnless_type {array column : ArrowArray V} {ty : DataType} {error : String → ScalarError}
    (h : (if array.dataType = ty then .ok array else (K.cast array ty).mapError error) = .ok column) : column.dataType = ty := by
  split at h
  · rename_i heq
    cases h
    exact heq
  · cases hresult : K.cast array ty with
    | error e => simp [hresult, Except.mapError] at h
    | ok result =>
      simp only [hresult, Except.mapError, Except.ok.injEq] at h
      subst h
      exact K.cast_type hresult

/-- A column is sent with the type that the split gives it. -/
theorem executedColumn_type {argument : ColumnarValue V} {i : Nat} {ty : DataType} {column : ArrowArray V}
    (hty : resolved[i]? = some ty) (hresolved : ty = argument.dataType ∨ argument.dataType = .null)
    (h : executedColumn K function specs compatible resolved rows (argument, i) = .ok column) :
    column.dataType = boundType specs compatible resolved i := by
  unfold executedColumn at h
  cases harray : toArray K rows argument with
  | error e => simp [harray, bind, Except.bind] at h
  | ok array =>
    simp only [harray, bind, Except.bind, hty, Option.getD_some] at h
    have hactual := toArray_type harray
    have htarget : castTarget specs compatible ty array.dataType i =
        (coercedType specs compatible i).or (if array.dataType = .null ∧ ty ≠ .null then some ty else none) := by
      cases compatible <;> simp [castTarget, coercedType]
    rw [htarget] at h
    rw [boundType, hty, Option.getD_some]
    cases hcoerced : coercedType specs compatible i with
    | some declared =>
      rw [hcoerced] at h
      exact castUnless_type h
    | none =>
      rw [hcoerced, Option.none_or] at h
      rw [Option.getD_none]
      by_cases hnull : array.dataType = .null ∧ ty ≠ .null
      · rw [if_pos hnull] at h
        exact castUnless_type h
      · rw [if_neg hnull] at h
        cases h
        rcases hresolved with heq | harg
        · rw [heq, hactual]
        · rw [harg] at hactual
          rw [hactual] at hnull ⊢
          simpa [eq_comm] using hnull

/-- The split of a call for a given selection. -/
def boundWith (selection : ArgSpecs × Bool) (types : List DataType) (values : List (Option (ArgValue V))) : BoundCall V :=
  ⟨selection.1, (splitArguments selection.1 types values selection.2).1,
    (splitArguments selection.1 types values selection.2).2⟩

theorem returnFieldFromArgs_eq {udf : VgiScalarUdf} {scalarArguments : List (Option (ScalarValue V))} {planned : BoundCall V}
    (h : returnFieldFromArgs K udf types scalarArguments = .ok planned) : ∃ values,
      scalarArguments.zipIdx.mapM (plannedValue K udf.function (selectSpecs udf types).1 (selectSpecs udf types).2) =
        .ok values ∧
      planned = boundWith (selectSpecs udf (resolveUntypedNullVarargs (selectSpecs udf types).1 types))
        (resolveUntypedNullVarargs (selectSpecs udf types).1 types) values := by
  simp only [returnFieldFromArgs, bind, Except.bind] at h
  split at h
  · cases h
  · rename_i values hvalues
    cases h
    exact ⟨values, hvalues, rfl⟩

/-- The arrays that are sent have the types of the split. -/
theorem executedColumns_types {args : List (ColumnarValue V)} {columns : List (ArrowArray V)}
    (hresolved : ∀ (i : Nat) (argument : ColumnarValue V), args[i]? = some argument →
      ∃ ty, resolved[i]? = some ty ∧ (ty = argument.dataType ∨ argument.dataType = .null))
    (h : (args.zipIdx.filter fun argument => !specs.positionalIsConst argument.2).mapM
      (executedColumn K function specs compatible resolved rows) = .ok columns) :
    columns.map (·.dataType) = (columnIndices specs args.length).map (boundType specs compatible resolved) := by
  have hpairs : List.Forall₂ (fun argument column => boundType specs compatible resolved argument.2 = column.dataType)
      (args.zipIdx.filter fun argument => !specs.positionalIsConst argument.2) columns := by
    refine ListFacts.forall₂_of_mem (ListFacts.mapM_ok_iff.1 h) ?_
    rintro ⟨argument, i⟩ hmem column hcolumn
    have hargument := List.mem_zipIdx_iff_getElem?.1 (List.mem_filter.1 hmem).1
    obtain ⟨ty, hty, hsame⟩ := hresolved i argument hargument
    exact (executedColumn_type hty hsame hcolumn).symm
  have hindices := ListFacts.map_filter_zipIdx (p := fun i => !specs.positionalIsConst i)
    (f := fun argument : ColumnarValue V × Nat => boundType specs compatible resolved argument.2)
    (h := boundType specs compatible resolved) fun a i (_ : args[i]? = some a) => rfl
  rw [columnIndices, ← hindices]
  have hequal : List.Forall₂ Eq ((args.zipIdx.filter fun argument => !specs.positionalIsConst argument.2).map fun argument =>
      boundType specs compatible resolved argument.2) (columns.map (·.dataType)) := by
    rw [List.forall₂_map_left_iff, List.forall₂_map_right_iff]
    exact hpairs
  rw [List.forall₂_eq_eq_eq] at hequal
  exact hequal.symm

theorem resolved_of_args {args : List (ColumnarValue V)} {i : Nat} {argument : ColumnarValue V}
    (h : args[i]? = some argument) : ∃ ty, (resolveUntypedNullVarargs specs (args.map (·.dataType)))[i]? = some ty ∧
      (ty = argument.dataType ∨ argument.dataType = .null) := by
  have htype : (args.map (·.dataType))[i]? = some argument.dataType := by simp [h]
  have hi := (List.getElem?_eq_some_iff.1 htype).1
  rw [← length_resolveUntypedNullVarargs specs] at hi
  refine ⟨_, List.getElem?_eq_getElem hi, ?_⟩
  rcases resolved_getElem? specs (args.map (·.dataType)) i with hsame | hnull
  · rw [htype, List.getElem?_eq_getElem hi, Option.some.injEq] at hsame
    exact .inl hsame
  · exact .inr (Option.some.inj (htype.symm.trans hnull))

theorem invokeAsyncWithArgs_eq {udf : VgiScalarUdf} {args : List (ColumnarValue V)} {executed : BoundCall V}
    (htypes : args.map (·.dataType) = types) (h : invokeAsyncWithArgs K udf args rows = .ok executed) : ∃ values,
      args.zipIdx.mapM (executedValue K udf.function (selectSpecs udf types).1 (selectSpecs udf types).2) = .ok values ∧
      executed = boundWith (selectSpecs udf types) (resolveUntypedNullVarargs (selectSpecs udf types).1 types) values := by
  subst htypes
  simp only [invokeAsyncWithArgs, bind, Except.bind] at h
  split at h
  · cases h
  · rename_i values hvalues
    split at h
    · cases h
    · rename_i columns hcolumns
      cases h
      refine ⟨values, hvalues, ?_⟩
      have hsent := executedColumns_types (fun i argument hargument => resolved_of_args hargument) hcolumns
      have hfields : (columns.mapIdx fun i column => columnField i column.dataType) =
          (columns.map (·.dataType)).mapIdx columnField := by
        refine List.ext_getElem? fun i => ?_
        rw [List.getElem?_mapIdx, List.getElem?_mapIdx, List.getElem?_map, Option.map_map]
        rfl
      rw [hfields, hsent]
      simp only [boundWith, splitArguments_eq, length_resolveUntypedNullVarargs, List.length_map]

/-- A literal is converted as the scalar it arrives as. -/
theorem same_literal {scalarArguments : List (Option (ScalarValue V))} {args : List (ColumnarValue V)}
    {planned executed : List (Option (ArgValue V))}
    (hplanned : scalarArguments.zipIdx.mapM (plannedValue K function specs compatible) = .ok planned)
    (hexecuted : args.zipIdx.mapM (executedValue K function specs compatible) = .ok executed) {i : Nat} {v : ScalarValue V}
    (hliteral : scalarArguments[i]? = some (some v)) (harg : args[i]? = some (.scalar v)) : planned[i]? = executed[i]? := by
  have hleft : scalarArguments.zipIdx[i]? = some (some v, i) := by simp [List.getElem?_zipIdx, hliteral]
  have hright : args.zipIdx[i]? = some (.scalar v, i) := by simp [List.getElem?_zipIdx, harg]
  obtain ⟨a, ha, hvalue⟩ := ListFacts.forall₂_getElem? (ListFacts.mapM_ok_iff.1 hplanned) hleft
  obtain ⟨b, hb, hvalue'⟩ := ListFacts.forall₂_getElem? (ListFacts.mapM_ok_iff.1 hexecuted) hright
  have hsame : (Except.ok a : Except ScalarError _) = .ok b := hvalue.symm.trans hvalue'
  rw [ha, hb, Except.ok.inj hsame]

theorem sameCall_of_selection {selection : ArgSpecs × Bool} {scalarArguments : List (Option (ScalarValue V))}
    {args : List (ColumnarValue V)} {planned executed : List (Option (ArgValue V))}
    (hplanned : scalarArguments.zipIdx.mapM (plannedValue K function selection.1 selection.2) = .ok planned)
    (hexecuted : args.zipIdx.mapM (executedValue K function selection.1 selection.2) = .ok executed) :
    SameCall scalarArguments args (boundWith selection resolved planned) (boundWith selection resolved executed) := by
  constructor
  · rfl
  · simp only [boundWith, splitArguments_eq, List.map_map]
    rfl
  · intro c hc v hliteral harg
    simp only [boundWith, splitArguments_eq, List.mem_map] at hc ⊢
    obtain ⟨i, hi, rfl⟩ := hc
    have hsame : planned[i]? = executed[i]? := same_literal hplanned hexecuted hliteral harg
    refine ⟨i, hi, ?_⟩
    rw [constantFor, constantFor, hsame]
  · simp only [boundWith, splitArguments_eq]

theorem columnField_types (tys : List DataType) : (tys.mapIdx columnField).map (·.dataType) = tys := by
  refine List.ext_getElem? fun i => ?_
  rw [List.getElem?_map, List.getElem?_mapIdx, Option.map_map]
  exact Option.map_id'

/-- An overload that does not accept the types is bound with them as they are. -/
theorem inputSchema_ne (hshort : resolved.length = types.length) (haccepts : acceptance types specs ≠ none)
    (hrefuses : acceptance resolved specs = none) {planned executed : List (Option (ArgValue V))} :
    (boundWith (specs, false) resolved planned).inputSchema ≠ (boundWith (specs, true) resolved executed).inputSchema := by
  have harity : specs.arityMatches types.length = true := by
    by_contra harity
    exact haccepts (if_neg harity)
  rw [acceptance, hshort, if_pos harity] at hrefuses
  have hbad : ¬ (callScore specs.positional 0 resolved).isSome = true := by simp [hrefuses]
  rw [callScore_isSome_iff] at hbad
  push Not at hbad
  obtain ⟨i, ty, spec, hty, hspec, hscore, hconst⟩ := hbad
  rw [Nat.zero_add] at hspec
  have hcolumn := specs.column_of_spec hspec (by simpa using hconst)
  simp only [boundWith, splitArguments_eq]
  intro hschema
  have htypes : (columnIndices specs resolved.length).map (boundType specs false resolved) =
      (columnIndices specs resolved.length).map (boundType specs true resolved) := by
    have hfields := congrArg (List.map (·.dataType)) hschema
    rwa [columnField_types, columnField_types] at hfields
  have hi : i ∈ columnIndices specs resolved.length := by
    have hlt := (List.getElem?_eq_some_iff.1 hty).1
    simp [columnIndices, hlt, hcolumn]
  have hsame := List.map_inj_left.1 htypes i hi
  -- Uncoerced it is the type itself, coerced the declared one, which does not suit it.
  have hnull : spec.dataType ≠ .null := by
    rintro hnull
    simp [scalarTypeScore, hnull] at hscore
    split at hscore <;> simp at hscore
  have hdeclared : ty = spec.dataType := by
    simpa [boundType, coercedType, hty, hspec, hnull, Option.filter] using hsame
  simp [scalarTypeScore, hdeclared] at hscore

end

/-- **Planning and execution bind the same call** exactly if the overload that is best for the types is still best for the
types in which the NULLs of its varargs are those of their peers. -/
theorem planning_binds_executed_iff {K : ArgKernel V} {udf : VgiScalarUdf} {types : List DataType}
    {scalarArguments : List (Option (ScalarValue V))} {args : List (ColumnarValue V)} {rows : Nat}
    {planned executed : BoundCall V} (htypes : args.map (·.dataType) = types)
    (hplanned : returnFieldFromArgs K udf types scalarArguments = .ok planned)
    (hexecuted : invokeAsyncWithArgs K udf args rows = .ok executed) :
    SameCall scalarArguments args planned executed ↔
      ∀ specs score, IsBest (acceptance types) udf.overloads specs score →
        ∃ score', IsBest (acceptance (resolveUntypedNullVarargs specs types)) udf.overloads specs score' := by
  obtain ⟨values, hvalues, rfl⟩ := returnFieldFromArgs_eq hplanned
  obtain ⟨values', hvalues', rfl⟩ := invokeAsyncWithArgs_eq htypes hexecuted
  constructor
  · intro hsame specs score hbest
    rw [selectSpecs_of_best hbest] at hsame
    cases hagain : firstBest (acceptance (resolveUntypedNullVarargs specs types)) udf.overloads with
    | some best =>
      obtain ⟨specs', score'⟩ := best
      have hbest' := firstBest_eq_some_iff.1 hagain
      have hoverload : specs' = specs := by
        have hoverload := hsame.overload
        rw [selectSpecs_of_best hbest'] at hoverload
        exact hoverload
      exact ⟨score', hoverload ▸ hbest'⟩
    | none =>
      have hnone := firstBest_eq_none_iff.1 hagain
      obtain ⟨fallback, hselected⟩ :
          ∃ fallback, selectSpecs udf (resolveUntypedNullVarargs specs types) = (fallback, false) :=
        ⟨_, selectSpecs_of_none hnone⟩
      rw [hselected] at hsame
      obtain rfl : fallback = specs := hsame.overload
      refine absurd hsame.inputSchema (inputSchema_ne (length_resolveUntypedNullVarargs _ types) ?_ (hnone _ hbest.mem))
      rw [hbest.qualifies]
      simp
  · intro hstill
    have hselection : selectSpecs udf (resolveUntypedNullVarargs (selectSpecs udf types).1 types) = selectSpecs udf types := by
      cases hfirst : firstBest (acceptance types) udf.overloads with
      | some best =>
        obtain ⟨specs, score⟩ := best
        have hbest := firstBest_eq_some_iff.1 hfirst
        obtain ⟨score', hbest'⟩ := hstill specs score hbest
        rw [selectSpecs_of_best hbest, selectSpecs_of_best hbest']
      | none =>
        have hnone := firstBest_eq_none_iff.1 hfirst
        rw [selectSpecs_of_none hnone, selectSpecs_of_none fun specs h => acceptance_none_of_resolved (hnone specs h),
          length_resolveUntypedNullVarargs]
    rw [hselection]
    exact sameCall_of_selection hvalues hvalues'

/-! ## Two calls with a NULL -/

/-- Nothing but NULLs is cast to another type. -/
def ArgKernel.integers : ArgKernel Int where
  castTo value ty :=
    if value.dataType = ty then .ok value
    else if value.isNull then .ok (.atom ty none)
    else .error "unsupported cast"
  cast array ty :=
    if array.cells.all fun cell => cell.dataType = ty || cell.isNull then .ok ⟨ty, array.cells⟩
    else .error "unsupported cast"
  cast_type h := by
    split at h
    · cases h
      rfl
    · cases h
  toArrayOfSize value n := .ok ⟨value.dataType, List.replicate n value⟩
  toArrayOfSize_type h := by
    cases h
    rfl
  fromArrayRow0 array name :=
    match array.cells with
    | [] => .error name
    | value :: _ => .ok (if value.isNull then .null array.dataType else .arrow ⟨array.dataType, [value]⟩)

/-- Any number of columns of any type. -/
def anyVarargs : ArgSpecs where
  positional := [⟨.null, false, true⟩]
  minimumPositionalArity := 1
  positionalIsConst _ := false
  column_of_spec _ _ := rfl

/-- A constant and a column. -/
def constantAndColumn : ArgSpecs where
  positional := [⟨.int64, true, false⟩, ⟨.int64, false, false⟩]
  minimumPositionalArity := 2
  positionalIsConst i := i == 0
  column_of_spec {i spec} hspec hconst := by
    rcases i with _ | i
    · cases hspec
      cases hconst
    · rfl

def sumValues : VgiScalarUdf := ⟨"sum_values", [anyVarargs], by decide⟩

def mixedValues : VgiScalarUdf := ⟨"mixed_values", [anyVarargs, constantAndColumn], by decide⟩

def untyped : ScalarValue Int := .untypedNull

def number (n : Int) : ScalarValue Int := .atom .int64 (some n)

theorem planning_binds_executed_sum : ∃ planned executed,
    returnFieldFromArgs ArgKernel.integers sumValues [.null, .int64, .int64]
      [some untyped, some (number 2), some (number 3)] = .ok planned ∧
    invokeAsyncWithArgs ArgKernel.integers sumValues [.scalar untyped, .scalar (number 2), .scalar (number 3)] 1 =
      .ok executed ∧
    SameCall [some untyped, some (number 2), some (number 3)] [.scalar untyped, .scalar (number 2), .scalar (number 3)]
      planned executed := by
  refine ⟨_, _, rfl, rfl, ?_⟩
  refine (@planning_binds_executed_iff Int ArgKernel.integers sumValues _ _ _ 1 _ _ rfl rfl rfl).2 ?_
  intro specs score hbest
  obtain rfl := List.mem_singleton.1 hbest.mem
  exact ⟨0, [], [], rfl, rfl, by simp, by simp⟩

/-- `mixed_values(NULL, 2)`. The varargs score 4 for the NULL and come first; once the NULL is an integer the other overload
scores 8. The bind while planning has one constant, of which the call has none. -/
theorem null_switches_overload :
    returnFieldFromArgs ArgKernel.integers mixedValues [.null, .int64] [some untyped, some (number 2)] =
      .ok ⟨constantAndColumn, [⟨0, .null .int64⟩], [columnField 0 .int64]⟩ ∧
    invokeAsyncWithArgs ArgKernel.integers mixedValues [.scalar untyped, .scalar (number 2)] 1 =
      .ok ⟨anyVarargs, [], [columnField 0 .int64, columnField 1 .int64]⟩ ∧
    ¬ SameCall [some untyped, some (number 2)] [.scalar untyped, .scalar (number 2)]
      ⟨constantAndColumn, [⟨0, .null .int64⟩], [columnField 0 .int64]⟩
      ⟨anyVarargs, [], [columnField 0 .int64, columnField 1 .int64]⟩ := by
  refine ⟨rfl, rfl, ?_⟩
  intro hsame
  have hlayout := hsame.layout
  simp at hlayout

end VgiDatafusion.Overloads
