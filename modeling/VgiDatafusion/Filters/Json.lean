import VgiDatafusion.Filters.Deltas

/-!
# Filter documents as JSON (filters.rs:165-224, 430-512, 842-945, 1109-1170)

| here | there |
| --- | --- |
| `Json` | `serde_json::Value`; the keys of an object are distinct, and their order says nothing |
| `Spec.toJson`, `Predicate.toJson`, `Document.toJson` | the `json!` of the builder, of `finish_snapshot` and of `finish_delta` |
| `FilterBatch` | the record batch of a blob: the document and the constants with their column names |
| `Json.fromStr` | `serde_json::from_str` on the text of a value |
| `shiftValueRefs`, `shiftExternalBatchRefs` | `shift_value_refs`, `shift_external_batch_refs` |
| `mergeWritten` | `merge`, on JSON as it is there |

The shifts look for keys anywhere in a document they know nothing else about. On the documents written here they do what
`Spec.shift` does to the nodes (`Spec.shift_toJson`), so merging what was written is writing what was merged
(`mergeWritten_written`). Text and IPC bytes are kept as what they carry; but a text is only read back if it does not nest
too deep (`Json.fromStr`), and each `AND` or `OR` in a filter is two levels.
-/
namespace VgiDatafusion

variable {V : Type}

inductive Json
  | null
  | bool (value : Bool)
  | number (value : Int)
  | string (value : String)
  | array (elements : List Json)
  | object (members : List (String × Json))

namespace Json

/-- `object.get(key)`. -/
def get : Json → String → Option Json
  | .object members, key => members.lookup key
  | _, _ => none

/-- Adds to a number that is a `u64`. -/
def bump (offset : Nat) : Json → Json
  | .number value => if 0 ≤ value then .number (value + offset) else .number value
  | other => other

/-- What is done to a member for its own key. -/
def bumpValueRef (offset : Nat) (key : String) (value : Json) : Json :=
  if key = "value_ref" then value.bump offset
  else if key = "value_refs" then
    match value with
    | .array references => .array (references.map (bump offset))
    | other => other
  else value

/- The source visits a member after it has changed it; a number is not visited any further, so the order does not
matter. -/
mutual

/-- `shift_value_refs` (`filters.rs:1121-1147`): every `value_ref`, at whatever depth. -/
def shiftValueRefs (offset : Nat) : Json → Json
  | .object members => .object (shiftMembers offset members)
  | .array elements => .array (shiftElements offset elements)
  | other => other

def shiftElements (offset : Nat) : List Json → List Json
  | [] => []
  | element :: rest => shiftValueRefs offset element :: shiftElements offset rest

def shiftMembers (offset : Nat) : List (String × Json) → List (String × Json)
  | [] => []
  | (key, value) :: rest => (key, bumpValueRef offset key (shiftValueRefs offset value)) :: shiftMembers offset rest

end

/-- An object that says it is external. -/
def isExternal (members : List (String × Json)) : Bool :=
  match members.lookup "kind" with
  | some (.string kind) => kind == "external"
  | _ => false

def bumpBatchIndex (external : Bool) (offset : Nat) (key : String) (value : Json) : Json :=
  if external && key == "batch_index" then value.bump offset else value

mutual

/-- `shift_external_batch_refs` (`filters.rs:1149-1170`): every `batch_index` beside a `kind` that is `external`. -/
def shiftExternalBatchRefs (offset : Nat) : Json → Json
  | .object members => .object (shiftExternalMembers (isExternal members) offset members)
  | .array elements => .array (shiftExternalElements offset elements)
  | other => other

def shiftExternalElements (offset : Nat) : List Json → List Json
  | [] => []
  | element :: rest => shiftExternalBatchRefs offset element :: shiftExternalElements offset rest

def shiftExternalMembers (external : Bool) (offset : Nat) : List (String × Json) → List (String × Json)
  | [] => []
  | (key, value) :: rest =>
    (key, bumpBatchIndex external offset key (shiftExternalBatchRefs offset value)) ::
      shiftExternalMembers external offset rest

end

mutual

/-- The levels of objects and arrays. -/
def depth : Json → Nat
  | .array elements => depthElements elements + 1
  | .object members => depthMembers members + 1
  | _ => 0

def depthElements : List Json → Nat
  | [] => 0
  | element :: rest => max (depth element) (depthElements rest)

def depthMembers : List (String × Json) → Nat
  | [] => 0
  | (_, value) :: rest => max (depth value) (depthMembers rest)

end

/-- The value back from its text, unless it has too many levels. -/
def fromStr (written : Json) : Option Json := if written.depth < recursionLimit then some written else none

theorem depthElements_eq (elements : List Json) : depthElements elements = (elements.map depth).foldr max 0 := by
  induction elements with
  | nil => rfl
  | cons element rest ih => rw [depthElements, ih, List.map_cons, List.foldr_cons]

end Json

/-! ## The documents -/

def Comparison.token : Comparison → String
  | .eq => "eq" | .ne => "ne" | .lt => "lt" | .le => "le" | .gt => "gt" | .ge => "ge"

def ColumnRef.toJson (c : ColumnRef) : Json :=
  .object [("node", .string "column_ref"), ("column_index", .number c.index), ("column_name", .string c.name)]

def ExternalSet.toJson (set : ExternalSet) : Json :=
  .object [("kind", .string "external"), ("batch_index", .number set.batchIndex),
    ("column_index", .number set.columnIndex), ("column_name", .string set.columnName)]

/-- The `json!` of the builder's nodes (`filters.rs:165-500`). -/
def Spec.toJson : Spec → Json
  | .comparison op left valueRef => .object [("node", .string "comparison"), ("op", .string op.token),
      ("left", left.toJson), ("right", .object [("node", .string "literal"), ("value_ref", .number valueRef)])]
  | .isNull e negated => .object [("node", .string "is_null"), ("expression", e.toJson), ("negated", .bool negated)]
  | .inSet e set negated => .object [("node", .string "in"), ("expression", e.toJson), ("set", set.toJson),
      ("negated", .bool negated)]
  | .and l r => .object [("node", .string "and"), ("children", .array [l.toJson, r.toJson])]
  | .or l r => .object [("node", .string "or"), ("children", .array [l.toJson, r.toJson])]

/-- The members that `finish_snapshot` and `finish_delta` write for a predicate (`filters.rs:842-977`). -/
def Predicate.members (p : Predicate) : List (String × Json) :=
  [("id", .string p.id), ("revision", .number p.revision), ("mode", .string "advisory"), ("source", .string p.source),
    ("expression", p.expression.toJson)]

def Predicate.toJson (p : Predicate) : Json := .object p.members

def Update.toJson : Update → Json
  | .upsert predicate => .object (("operation", .string "upsert") :: predicate.members)
  | .remove id revision => .object [("operation", .string "remove"), ("id", .string id), ("revision", .number revision)]

/-- A document of this kind, with the list that comes last in it. -/
def documentJson (kind key : String) (elements : List Json) : Json :=
  .object [("encoding", .string "vgi.filters.v2"), ("semantics", .string "vgi.duckdb.standard.v1"),
    ("kind", .string kind), (key, .array elements)]

def Document.toJson : Document → Json
  | .snapshot predicates => documentJson "snapshot" "predicates" (predicates.map (·.toJson))
  | .delta updates => documentJson "delta" "updates" (updates.map (·.toJson))

/-! ## The batches -/

/-- The record batch of a blob: the document, and the constants with their column names. -/
structure FilterBatch (V : Type) where
  document : Json
  values : List (String × ScalarValue V)

/-- The constants in order, each under the name of its position. -/
def valueColumns (values : List (ScalarValue V)) : List (String × ScalarValue V) :=
  values.zipIdx.map fun value => ("value_" ++ toString value.2, value.1)

def FilterBlob.batch (blob : FilterBlob V) : FilterBatch V := ⟨blob.document.toJson, valueColumns blob.values⟩

/-- `parse_predicates` (filters.rs:1095-1119): the array under `predicates` in the document that is read back. -/
def parsePredicatesJson (document : Json) : Option (List Json) := do
  let document ← document.fromStr
  match document.get "predicates" with
  | some (.array predicates) => some predicates
  | _ => none

abbrev WrittenPushdown (V : Type) := Pushdown (FilterBatch V) (JoinKeys V)

def WirePushdown.written (p : WirePushdown V) : WrittenPushdown V where
  blob := p.blob.map (·.batch)
  columns := p.columns
  joinKeys := p.joinKeys
  predicateCount := p.predicateCount

/-- `merge` (filters.rs:1015-1085). -/
def mergeWritten (left right : WrittenPushdown V) : Option (WrittenPushdown V) :=
  match left.blob, right.blob with
  | none, none => some {}
  | some _, none => some left
  | none, some _ => some right
  | some leftBatch, some rightBatch => do
    let leftSpecs ← parsePredicatesJson leftBatch.document
    let rightSpecs ← parsePredicatesJson rightBatch.document
    let shifted := rightSpecs.map fun spec =>
      (spec.shiftValueRefs leftBatch.values.length).shiftExternalBatchRefs left.joinKeys.length
    some {
      blob := some ⟨documentJson "snapshot" "predicates" (leftSpecs ++ shifted),
        valueColumns ((leftBatch.values ++ rightBatch.values).map (·.2))⟩
      columns := right.columns.foldl (fun columns c => if columns.contains c then columns else columns ++ [c]) left.columns
      joinKeys := left.joinKeys ++ right.joinKeys
      predicateCount := left.predicateCount + right.predicateCount }

/-! ## Both shifts on a written document -/

open Json

theorem Spec.shift_toJson (constants batches : Nat) (spec : Spec) :
    (spec.toJson.shiftValueRefs constants).shiftExternalBatchRefs batches = (spec.shift constants batches).toJson := by
  induction spec with
  | comparison op left valueRef =>
    simp [Spec.toJson, Spec.shift, ColumnRef.toJson, shiftValueRefs, shiftMembers, shiftExternalBatchRefs,
      shiftExternalMembers, bumpValueRef, bumpBatchIndex, isExternal, bump]
  | isNull e negated =>
    simp [Spec.toJson, Spec.shift, ColumnRef.toJson, shiftValueRefs, shiftMembers, shiftExternalBatchRefs,
      shiftExternalMembers, bumpValueRef, bumpBatchIndex, isExternal]
  | inSet e set negated =>
    simp [Spec.toJson, Spec.shift, ColumnRef.toJson, ExternalSet.toJson, shiftValueRefs, shiftMembers,
      shiftExternalBatchRefs, shiftExternalMembers, bumpValueRef, bumpBatchIndex, isExternal, bump]
  | and l r ihl ihr =>
    simp [Spec.toJson, Spec.shift, shiftValueRefs, shiftMembers, shiftElements, shiftExternalBatchRefs,
      shiftExternalMembers, shiftExternalElements, bumpValueRef, bumpBatchIndex, isExternal, ihl, ihr]
  | or l r ihl ihr =>
    simp [Spec.toJson, Spec.shift, shiftValueRefs, shiftMembers, shiftElements, shiftExternalBatchRefs,
      shiftExternalMembers, shiftExternalElements, bumpValueRef, bumpBatchIndex, isExternal, ihl, ihr]

theorem Predicate.shift_toJson (constants batches : Nat) (p : Predicate) :
    (p.toJson.shiftValueRefs constants).shiftExternalBatchRefs batches = (p.shift constants batches).toJson := by
  simp [Predicate.toJson, Predicate.members, Predicate.shift, shiftValueRefs, shiftMembers, shiftExternalBatchRefs,
    shiftExternalMembers, bumpValueRef, bumpBatchIndex, isExternal, Spec.shift_toJson]

@[simp] theorem length_valueColumns (values : List (ScalarValue V)) : (valueColumns values).length = values.length := by
  simp [valueColumns]

@[simp] theorem map_valueColumns (values : List (ScalarValue V)) : (valueColumns values).map (·.2) = values := by
  simp [valueColumns, Function.comp_def]

theorem Spec.depth_toJson (spec : Spec) : spec.toJson.depth = spec.depth := by
  induction spec with
  | comparison op left valueRef => simp [Spec.toJson, ColumnRef.toJson, Spec.depth, Json.depth, depthMembers]
  | isNull e negated => simp [Spec.toJson, ColumnRef.toJson, Spec.depth, Json.depth, depthMembers]
  | inSet e set negated => simp [Spec.toJson, ColumnRef.toJson, ExternalSet.toJson, Spec.depth, Json.depth, depthMembers]
  | and l r ihl ihr => simp [Spec.toJson, Spec.depth, Json.depth, depthMembers, depthElements, ihl, ihr]
  | or l r ihl ihr => simp [Spec.toJson, Spec.depth, Json.depth, depthMembers, depthElements, ihl, ihr]

theorem Predicate.depth_toJson (p : Predicate) : p.toJson.depth = p.expression.depth + 1 := by
  simp [Predicate.toJson, Predicate.members, Json.depth, depthMembers, Spec.depth_toJson]

theorem Update.depth_toJson (update : Update) : update.toJson.depth = update.depth := by
  cases update with
  | upsert predicate => simp [Update.toJson, Update.depth, Predicate.members, Json.depth, depthMembers, Spec.depth_toJson]
  | remove id revision => simp [Update.toJson, Update.depth, Json.depth, depthMembers]

/-- A document is as deep as its JSON. -/
theorem Document.depth_toJson (document : Document) : document.toJson.depth = document.depth := by
  cases document with
  | snapshot predicates =>
    simp [Document.toJson, Document.depth, documentJson, Json.depth, depthMembers, depthElements_eq, Function.comp_def,
      Predicate.depth_toJson]
  | delta updates =>
    simp [Document.toJson, Document.depth, documentJson, Json.depth, depthMembers, depthElements_eq, Function.comp_def,
      Update.depth_toJson]

theorem parsePredicatesJson_toJson (document : Document) :
    parsePredicatesJson document.toJson = (parsePredicates document).map fun predicates => predicates.map (·.toJson) := by
  rw [parsePredicatesJson, Json.fromStr, Document.depth_toJson]
  unfold parsePredicates
  split
  · cases document <;> rfl
  · rfl

/-- Merging what was written is writing what was merged, and fails where that fails. -/
theorem mergeWritten_written (left right : WirePushdown V) :
    mergeWritten left.written right.written = (merge left right).map (·.written) := by
  cases hleft : left.blob with
  | none =>
    cases hright : right.blob with
    | none => simp [mergeWritten, merge, WirePushdown.written, hleft, hright]
    | some rightBlob => simp [mergeWritten, merge, WirePushdown.written, hleft, hright]
  | some leftBlob =>
    cases hright : right.blob with
    | none => simp [mergeWritten, merge, WirePushdown.written, hleft, hright]
    | some rightBlob =>
      simp only [mergeWritten, merge, WirePushdown.written, hleft, hright, Option.map_some, FilterBlob.batch,
        parsePredicatesJson_toJson]
      cases parsePredicates leftBlob.document with
      | none => rfl
      | some leftSpecs =>
        cases parsePredicates rightBlob.document with
        | none => rfl
        | some rightSpecs =>
          simp [Document.toJson, Predicate.shift_toJson, Function.comp_def]

end VgiDatafusion
