import VgiDatafusion.Arrow
import VgiDatafusion.Library.FirstBest
import Mathlib.Algebra.Order.Group.Int

/-!
# Choosing an overload of a scalar function (scalar.rs:281-396, 549-593)

| here | there |
| --- | --- |
| `ArgSpec` | what the adapter reads of an `ArgSpec` |
| `ArgSpecs` | `ArgSpecs`, with what `positional`, `minimum_positional_arity` and `positional_is_const` answer |
| `positionalSpec` | `positional_spec`, and the same lookup in `select_specs` |
| `scalarTypeScore`, `callScore` | `scalar_type_score`; the inner loop of `select_specs` |
| `selectSpecs` | `select_specs`: the overload, and whether it accepts the types |
| `resolveUntypedNullVarargs` | `resolve_untyped_null_varargs` |

The loop keeps the first overload of the highest score (`selectSpecs_eq`). An untyped NULL suits every declaration, so
giving it a type only ever makes an overload unsuitable (`acceptance_none_of_resolved`).
-/
namespace VgiDatafusion.Overloads

open FirstBest

structure ArgSpec where
  dataType : DataType
  isConst : Bool
  isVarargs : Bool
  deriving DecidableEq

/-- `VgiScalarUdf::positional_spec` (`scalar.rs:340-346`): the declaration for a positional argument, its own or that of the
varargs. -/
def positionalSpec (positional : List ArgSpec) (index : Nat) : Option ArgSpec :=
  positional[index]?.or (positional.find? (·.isVarargs))

structure ArgSpecs where
  positional : List ArgSpec
  minimumPositionalArity : Nat
  positionalIsConst : Nat → Bool
  column_of_spec : ∀ {index spec}, positionalSpec positional index = some spec → spec.isConst = false →
    positionalIsConst index = false

/-! ## Scores -/

/-- The integer types of `scalar_type_score` (`scalar.rs:552-590`); the other families follow. -/
def isInteger : DataType → Bool
  | .int8 | .int16 | .int32 | .int64 | .uint8 | .uint16 | .uint32 | .uint64 => true
  | _ => false

def isNumeric : DataType → Bool
  | .float16 | .float32 | .float64 | .decimal128 _ _ | .decimal256 _ _ => true
  | ty => isInteger ty

def isText : DataType → Bool
  | .utf8 | .largeUtf8 | .utf8View => true
  | _ => false

def isBinary : DataType → Bool
  | .binary | .largeBinary | .binaryView => true
  | _ => false

/-- `scalar_type_score` (`scalar.rs:552-590`). -/
def scalarTypeScore (actual expected : DataType) : Option Int :=
  if actual = expected then some 4
  else if actual = .null ∨ expected = .null then some 0
  else if isInteger actual && isInteger expected then some 3
  else if isNumeric actual && isNumeric expected && !isInteger actual && !isInteger expected then some 2
  else if (isText actual && isText expected) || (isBinary actual && isBinary expected) then some 3
  else none

/-- The score of the arguments from `index` on; `none` is an incompatible one. -/
def callScore (positional : List ArgSpec) : Nat → List DataType → Option Int
  | _, [] => some 0
  | index, actual :: rest =>
    match positionalSpec positional index with
    | none => callScore positional (index + 1) rest
    | some spec =>
      match scalarTypeScore actual spec.dataType with
      | some value => (callScore positional (index + 1) rest).map (value + ·)
      | none => if spec.isConst then (callScore positional (index + 1) rest).map (-1 + ·) else none

def ArgSpecs.arityMatches (specs : ArgSpecs) (n : Nat) : Bool :=
  if specs.positional.any (·.isVarargs) then decide (specs.minimumPositionalArity ≤ n)
  else decide (specs.minimumPositionalArity ≤ n) && decide (n ≤ specs.positional.length)

/-! ## The loop -/

/-- The best overload so far with its score, and the first of a matching arity. -/
abbrev Selection := Option (ArgSpecs × Int) × Option ArgSpecs

/-- One turn of the loop of `VgiScalarUdf::select_specs` (`scalar.rs:289-338`). -/
def selectStep (types : List DataType) (state : Selection) (specs : ArgSpecs) : Selection :=
  if specs.arityMatches types.length then
    let arityFallback := some (state.2.getD specs)
    match callScore specs.positional 0 types with
    | none => (state.1, arityFallback)
    | some score =>
      match state.1 with
      | none => (some (specs, score), arityFallback)
      | some (best, current) =>
        if current < score then (some (specs, score), arityFallback) else (some (best, current), arityFallback)
  else state

/-- `VgiScalarUdf` (`scalar.rs:36-79`): its name and its overloads, of which there is one. -/
structure VgiScalarUdf where
  function : String
  overloads : List ArgSpecs
  nonempty : overloads ≠ []

/-- `VgiScalarUdf::select_specs` (`scalar.rs:289-338`): the overload, and whether it accepts the types. -/
def selectSpecs (udf : VgiScalarUdf) (types : List DataType) : ArgSpecs × Bool :=
  match udf.overloads.foldl (selectStep types) (none, none) with
  | (some (specs, _), _) => (specs, true)
  | (none, arityFallback) => (arityFallback.getD (udf.overloads.head udf.nonempty), false)

/-- The score of an overload that accepts these types. -/
def acceptance (types : List DataType) (specs : ArgSpecs) : Option Int :=
  if specs.arityMatches types.length then callScore specs.positional 0 types else none

theorem selectStep_eq (types : List DataType) (best : Option (ArgSpecs × Int)) (fallback : Option ArgSpecs) (specs : ArgSpecs) :
    selectStep types (best, fallback) specs =
      (consider (acceptance types) best specs,
        if specs.arityMatches types.length then some (fallback.getD specs) else fallback) := by
  unfold selectStep consider acceptance
  by_cases harity : specs.arityMatches types.length = true
  · simp only [harity, if_true]
    cases callScore specs.positional 0 types with
    | none => rfl
    | some score => cases best with
      | none => rfl
      | some best =>
        obtain ⟨b, current⟩ := best
        by_cases hlt : current < score <;> simp [hlt]
  · simp [harity]

/-- The loop finds the first best overload and the first of a matching arity. -/
theorem foldl_selectStep (types : List DataType) (overloads : List ArgSpecs) (best : Option (ArgSpecs × Int))
    (fallback : Option ArgSpecs) :
    overloads.foldl (selectStep types) (best, fallback) =
      (overloads.foldl (consider (acceptance types)) best,
        fallback.or (overloads.find? (·.arityMatches types.length))) := by
  induction overloads generalizing best fallback with
  | nil => simp
  | cons specs overloads ih =>
    rw [List.foldl_cons, selectStep_eq, ih, List.foldl_cons, List.find?_cons]
    by_cases harity : specs.arityMatches types.length = true
    · cases fallback <;> simp [harity]
    · simp [harity]

theorem selectSpecs_eq (udf : VgiScalarUdf) (types : List DataType) :
    selectSpecs udf types =
      match firstBest (acceptance types) udf.overloads with
      | some (specs, _) => (specs, true)
      | none =>
        ((udf.overloads.find? (·.arityMatches types.length)).getD (udf.overloads.head udf.nonempty), false) := by
  rw [selectSpecs, foldl_selectStep, Option.none_or, ← firstBest]
  cases firstBest (acceptance types) udf.overloads <;> rfl

theorem selectSpecs_of_best {udf : VgiScalarUdf} {types : List DataType} {specs : ArgSpecs} {score : Int}
    (h : IsBest (acceptance types) udf.overloads specs score) : selectSpecs udf types = (specs, true) := by
  rw [selectSpecs_eq, firstBest_eq_some_iff.2 h]

theorem selectSpecs_of_none {udf : VgiScalarUdf} {types : List DataType}
    (h : ∀ specs ∈ udf.overloads, acceptance types specs = none) :
    selectSpecs udf types =
      ((udf.overloads.find? (·.arityMatches types.length)).getD (udf.overloads.head udf.nonempty), false) := by
  rw [selectSpecs_eq, firstBest_eq_none_iff.2 h]

/-! ## Untyped NULLs -/

/-- `VgiScalarUdf::resolve_untyped_null_varargs` (`scalar.rs:362-396`). -/
def resolveUntypedNullVarargs (specs : ArgSpecs) (types : List DataType) : List DataType :=
  match specs.positional.findIdx? (·.isVarargs) with
  | none => types
  | some varargsIndex =>
    if specs.positional[varargsIndex]?.map (·.dataType) ≠ some .null ∨ types.length ≤ varargsIndex then types
    else
      match (types.drop varargsIndex).filter (· ≠ .null) with
      | [] => types
      | inferred :: rest =>
        if rest.any (· ≠ inferred) then types
        else types.mapIdx fun index ty => if varargsIndex ≤ index ∧ ty = .null then inferred else ty

@[simp] theorem length_resolveUntypedNullVarargs (specs : ArgSpecs) (types : List DataType) :
    (resolveUntypedNullVarargs specs types).length = types.length := by
  unfold resolveUntypedNullVarargs
  repeat' split
  all_goals simp

/-- A type that changes was that of an untyped NULL. -/
theorem resolved_getElem? (specs : ArgSpecs) (types : List DataType) (i : Nat) :
    (resolveUntypedNullVarargs specs types)[i]? = types[i]? ∨ types[i]? = some .null := by
  unfold resolveUntypedNullVarargs
  split
  · exact .inl rfl
  · split
    · exact .inl rfl
    · split
      · exact .inl rfl
      · split
        · exact .inl rfl
        · rw [List.getElem?_mapIdx]
          cases hi : types[i]? with
          | none => exact .inl rfl
          | some ty =>
            by_cases hnull : ty = .null
            · exact .inr (by rw [hnull])
            · exact .inl (by simp [hnull])

theorem scalarTypeScore_null (expected : DataType) : (scalarTypeScore .null expected).isSome = true := by
  unfold scalarTypeScore
  split
  · rfl
  · simp

/-- The call is compatible if each argument is, or is a constant. -/
theorem callScore_isSome_iff (positional : List ArgSpec) (types : List DataType) (index : Nat) :
    (callScore positional index types).isSome = true ↔
      ∀ i ty spec, types[i]? = some ty → positionalSpec positional (index + i) = some spec →
        (scalarTypeScore ty spec.dataType).isSome = true ∨ spec.isConst = true := by
  induction types generalizing index with
  | nil => simp [callScore]
  | cons ty types ih =>
    have hsplit : (∀ i ty' spec, (ty :: types)[i]? = some ty' → positionalSpec positional (index + i) = some spec →
        (scalarTypeScore ty' spec.dataType).isSome = true ∨ spec.isConst = true) ↔
      (∀ spec, positionalSpec positional index = some spec →
        (scalarTypeScore ty spec.dataType).isSome = true ∨ spec.isConst = true) ∧
      (callScore positional (index + 1) types).isSome = true := by
      rw [ih]
      constructor
      · intro h
        refine ⟨fun spec => h 0 ty spec rfl, fun i ty' spec hty hspec => h (i + 1) ty' spec hty ?_⟩
        rw [← hspec]
        congr 1
        omega
      · rintro ⟨hfirst, hrest⟩ i ty' spec hty hspec
        cases i with
        | zero =>
          obtain rfl := Option.some.inj hty
          exact hfirst spec hspec
        | succ i =>
          refine hrest i ty' spec hty ?_
          rw [← hspec]
          congr 1
          omega
    rw [hsplit, callScore]
    cases positionalSpec positional index with
    | none => simp
    | some spec =>
      cases hscore : scalarTypeScore ty spec.dataType with
      | some value => simp [hscore]
      | none => by_cases hconst : spec.isConst = true <;> simp [hscore, hconst]

/-- What accepts the types of the NULLs accepts the NULLs. -/
theorem acceptance_none_of_resolved {specs chosen : ArgSpecs} {types : List DataType}
    (h : acceptance types specs = none) : acceptance (resolveUntypedNullVarargs chosen types) specs = none := by
  unfold acceptance at h ⊢
  rw [length_resolveUntypedNullVarargs]
  split at h
  · rename_i harity
    rw [if_pos harity]
    by_contra hsome
    have hresolved := (callScore_isSome_iff _ _ _).1 (Option.isSome_iff_ne_none.2 hsome)
    have hcompatible : (callScore specs.positional 0 types).isSome = true := by
      rw [callScore_isSome_iff]
      intro i ty spec hty hspec
      rcases resolved_getElem? chosen types i with hsame | hnull
      · exact hresolved i ty spec (hsame.trans hty) hspec
      · obtain rfl := Option.some.inj (hty.symm.trans hnull)
        exact .inl (scalarTypeScore_null spec.dataType)
    rw [h] at hcompatible
    cases hcompatible
  · rename_i harity
    rw [if_neg harity]

end VgiDatafusion.Overloads
