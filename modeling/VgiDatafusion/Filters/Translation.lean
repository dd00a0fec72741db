import VgiDatafusion.Filters.Coordinates
import VgiDatafusion.Filters.Deltas

/-!
# The builder as a pure translation

The builder's calls share three lists and undo them by truncation. `translate` says what a call is
for, without the lists: the nodes an expression stands for, each literal and value set inside its
node, and the positions of the columns that were looked up for a leaf given up afterwards.

`Builds` connects the two. From any state, a call returns the nodes of the translation numbered from
the lists' lengths, appends exactly their literals and value sets, and records exactly the columns
of the nodes and the stranded ones. `build_builds`, `buildPhysical_builds` and
`buildPhysicalTop_builds` prove it for the front ends, by induction on the expression.
-/
namespace VgiDatafusion

variable {V : Type}

/-! ## Nodes that carry their values -/

namespace Resolved

/-- The literals below, in `value_ref` order. -/
def constants : Resolved V → List (ScalarValue V)
  | .comparison _ _ value => value.toList
  | .isNull _ _ | .inSet _ _ _ _ => []
  | .and l r | .or l r => l.constants ++ r.constants

/-- The value sets below, in `batch_index` order. -/
def joinKeys : Resolved V → List (JoinKeys V)
  | .comparison _ _ _ | .isNull _ _ => []
  | .inSet _ keys _ _ => keys.toList
  | .and l r | .or l r => l.joinKeys ++ r.joinKeys

/-- The column references below. -/
def references : Resolved V → List ColumnRef
  | .comparison _ c _ | .isNull c _ | .inSet c _ _ _ => [c]
  | .and l r | .or l r => l.references ++ r.references

/-- Every leaf has its literal or its value set. -/
def Full : Resolved V → Prop
  | .comparison _ _ value => value.isSome
  | .isNull _ _ => True
  | .inSet _ keys _ _ => keys.isSome
  | .and l r | .or l r => l.Full ∧ r.Full

def usesSets : Resolved V → Bool
  | .comparison _ _ _ | .isNull _ _ => false
  | .inSet _ _ _ _ => true
  | .and l r | .or l r => l.usesSets || r.usesSets

/-- The wire node, its references counted from `c` constants and `k` side batches. -/
def number (c k : Nat) : Resolved V → Spec
  | .comparison op left _ => .comparison op left c
  | .isNull e negated => .isNull e negated
  | .inSet e _ column negated => .inSet e ⟨k, column.1, column.2⟩ negated
  | .and l r => .and (l.number c k) (r.number (c + l.constants.length) (k + l.joinKeys.length))
  | .or l r => .or (l.number c k) (r.number (c + l.constants.length) (k + l.joinKeys.length))

/-- The nodes numbered one after the other, as one builder would. -/
def numberAll (c k : Nat) : List (Resolved V) → List Spec
  | [] => []
  | n :: ns => n.number c k :: numberAll (c + n.constants.length) (k + n.joinKeys.length) ns

theorem numberAll_append (ns ms : List (Resolved V)) : ∀ c k : Nat,
    numberAll c k (ns ++ ms) = numberAll c k ns ++
      numberAll (c + (ns.flatMap constants).length) (k + (ns.flatMap joinKeys).length) ms := by
  induction ns with
  | nil => intro c k; simp [numberAll]
  | cons n ns ih => intro c k; simp [numberAll, ih, Nat.add_assoc]

theorem containsJoinKeys_number (n : Resolved V) : ∀ c k : Nat, containsJoinKeys (n.number c k) = n.usesSets := by
  induction n with
  | comparison op left value => intro c k; rfl
  | isNull e negated => intro c k; rfl
  | inSet e keys column negated => intro c k; rfl
  | and l r ihl ihr => intro c k; simp [number, containsJoinKeys, usesSets, ihl, ihr]
  | or l r ihl ihr => intro c k; simp [number, containsJoinKeys, usesSets, ihl, ihr]

theorem references_number (n : Resolved V) : ∀ c k : Nat, (n.number c k).references = n.references := by
  induction n with
  | comparison op left value => intro c k; rfl
  | isNull e negated => intro c k; rfl
  | inSet e keys column negated => intro c k; rfl
  | and l r ihl ihr => intro c k; simp [number, Spec.references, references, ihl, ihr]
  | or l r ihl ihr => intro c k; simp [number, Spec.references, references, ihl, ihr]

theorem references_numberAll (ns : List (Resolved V)) : ∀ c k : Nat,
    (numberAll c k ns).flatMap Spec.references = ns.flatMap references := by
  induction ns with
  | nil => intro c k; rfl
  | cons n ns ih => intro c k; simp [numberAll, references_number, ih]

end Resolved

/-! ## Wire references -/

def Spec.valueRefs : Spec → List Nat
  | .comparison _ _ valueRef => [valueRef]
  | .isNull _ _ | .inSet _ _ _ => []
  | .and l r | .or l r => l.valueRefs ++ r.valueRefs

def Spec.batchIndexes : Spec → List Nat
  | .comparison _ _ _ | .isNull _ _ => []
  | .inSet _ set _ => [set.batchIndex]
  | .and l r | .or l r => l.batchIndexes ++ r.batchIndexes

namespace Resolved

attribute [local simp] Spec.valueRefs

/-- Numbering uses each constant once, in order. -/
theorem valueRefs_number (n : Resolved V) : n.Full → ∀ c k : Nat,
    (n.number c k).valueRefs = List.range' c n.constants.length := by
  induction n with
  | comparison op left value =>
    intro hfull c k
    obtain ⟨v, rfl⟩ := Option.isSome_iff_exists.1 hfull
    rfl
  | isNull e negated => intro _ c k; rfl
  | inSet e keys column negated => intro _ c k; rfl
  | and l r ihl ihr | or l r ihl ihr =>
    intro hfull c k
    simp only [number, Spec.valueRefs, constants, List.length_append, ihl hfull.1, ihr hfull.2]
    rw [List.range'_append_1]

theorem batchIndexes_number (n : Resolved V) : n.Full → ∀ c k : Nat,
    (n.number c k).batchIndexes = List.range' k n.joinKeys.length := by
  induction n with
  | comparison op left value => intro _ c k; rfl
  | isNull e negated => intro _ c k; rfl
  | inSet e keys column negated =>
    intro hfull c k
    obtain ⟨v, rfl⟩ := Option.isSome_iff_exists.1 hfull
    rfl
  | and l r ihl ihr | or l r ihl ihr =>
    intro hfull c k
    simp only [number, Spec.batchIndexes, joinKeys, List.length_append, ihl hfull.1, ihr hfull.2]
    rw [List.range'_append_1]

theorem valueRefs_numberAll (ns : List (Resolved V)) : (∀ n ∈ ns, n.Full) → ∀ c k : Nat,
    (numberAll c k ns).flatMap Spec.valueRefs = List.range' c (ns.flatMap constants).length := by
  induction ns with
  | nil => intro _ c k; rfl
  | cons n ns ih =>
    intro hfull c k
    have hn := valueRefs_number n (hfull n List.mem_cons_self) c k
    have hns := ih (fun m hm => hfull m (List.mem_cons_of_mem n hm)) (c + n.constants.length) (k + n.joinKeys.length)
    simp only [numberAll, List.flatMap_cons, List.length_append, hn, hns]
    rw [List.range'_append_1]

theorem batchIndexes_numberAll (ns : List (Resolved V)) : (∀ n ∈ ns, n.Full) → ∀ c k : Nat,
    (numberAll c k ns).flatMap Spec.batchIndexes = List.range' k (ns.flatMap joinKeys).length := by
  induction ns with
  | nil => intro _ c k; rfl
  | cons n ns ih =>
    intro hfull c k
    have hn := batchIndexes_number n (hfull n List.mem_cons_self) c k
    have hns := ih (fun m hm => hfull m (List.mem_cons_of_mem n hm)) (c + n.constants.length) (k + n.joinKeys.length)
    simp only [numberAll, List.flatMap_cons, List.length_append, hn, hns]
    rw [List.range'_append_1]

/-- Following the references of a numbered node leads back to the node. -/
theorem resolve_number (n : Resolved V) : n.Full → ∀ (cs cs' : List (ScalarValue V)) (ks ks' : List (JoinKeys V)),
    (n.number cs.length ks.length).resolve (cs ++ n.constants ++ cs') (ks ++ n.joinKeys ++ ks') = n := by
  induction n with
  | comparison op left value =>
    intro hfull cs cs' ks ks'
    obtain ⟨v, rfl⟩ := Option.isSome_iff_exists.1 hfull
    simp [number, Spec.resolve, constants]
  | isNull e negated => intro _ cs cs' ks ks'; rfl
  | inSet e keys column negated =>
    intro hfull cs cs' ks ks'
    obtain ⟨v, rfl⟩ := Option.isSome_iff_exists.1 hfull
    simp [number, Spec.resolve, joinKeys]
  | and l r ihl ihr | or l r ihl ihr =>
    intro hfull cs cs' ks ks'
    have hl := ihl hfull.1 cs (r.constants ++ cs') ks (r.joinKeys ++ ks')
    have hr := ihr hfull.2 (cs ++ l.constants) cs' (ks ++ l.joinKeys) ks'
    simp only [List.append_assoc, List.length_append] at hl hr
    simp [number, Spec.resolve, constants, joinKeys, hl, hr]

theorem resolve_numberAll (ns : List (Resolved V)) : (∀ n ∈ ns, n.Full) →
    ∀ (cs : List (ScalarValue V)) (ks : List (JoinKeys V)),
      (numberAll cs.length ks.length ns).map
        (·.resolve (cs ++ ns.flatMap constants) (ks ++ ns.flatMap joinKeys)) = ns := by
  induction ns with
  | nil => intro _ cs ks; rfl
  | cons n ns ih =>
    intro hfull cs ks
    have hn := resolve_number n (hfull n List.mem_cons_self) cs (ns.flatMap constants) ks (ns.flatMap joinKeys)
    have hns := ih (fun m hm => hfull m (List.mem_cons_of_mem n hm)) (cs ++ n.constants) (ks ++ n.joinKeys)
    simp only [List.append_assoc, List.length_append] at hn hns
    simp only [numberAll, List.map_cons, List.flatMap_cons, hn, hns]

end Resolved

/-! ## The translation -/

/-- What an expression stands for, and the positions of the columns looked up for a leaf that was
given up afterwards. -/
structure Translation (V : Type) where
  node : Option (Resolved V) := none
  stranded : List Nat := []

/-- A top-level runtime filter may stand for several nodes. -/
structure Translations (V : Type) where
  nodes : List (Resolved V) := []
  stranded : List Nat := []

def Translation.toAll (t : Translation V) : Translations V := ⟨t.node.toList, t.stranded⟩

def Translations.append (t u : Translations V) : Translations V := ⟨t.nodes ++ u.nodes, t.stranded ++ u.stranded⟩

section
variable (K : Kernel V) (schema remote : Schema)

/-- Where the worker has the column behind a public name. -/
def resolveColumn (name : String) : Option ColumnRef :=
  (schema.indexOf name).bind fun i => remote.fields[i]?.map fun field => ⟨i, field.name⟩

/-- A leaf that reads one column: stranded if the column is there and the rest of the leaf fails. -/
def Translation.leaf (name : String) (node : ColumnRef → Option (Resolved V)) : Translation V :=
  match resolveColumn schema remote name with
  | none => {}
  | some column =>
    match node column with
    | none => { stranded := [column.index] }
    | some node => { node := some node }

/-- The comparison leaf; its column is recorded also where the constant is refused. -/
def comparisonTranslation (name : String) (value : ScalarValue V) (op : Operator) : Translation V :=
  .leaf schema remote name fun column =>
    (opToken op).bind fun token => (Constant.fromScalar value).map fun constant =>
      .comparison token column (some constant)

/-- The values are checked before the column is looked up, and made into one array after it. -/
def membershipTranslation (name : String) (values : List (ScalarValue V)) : Translation V :=
  if values.isEmpty || values.any (fun v => (Constant.fromScalar v).isNone) then {}
  else .leaf schema remote name fun column =>
    (joinKeysIpc K column.name values).map fun keys => .inSet column (some keys) (0, column.name) false

def nullTranslation (name : Option String) (negated : Bool) : Translation V :=
  match name with
  | none => {}
  | some name => .leaf schema remote name fun column => some (.isNull column negated)

/-- AND of what is left of two sides. -/
def keepNodes : Option (Resolved V) → Option (Resolved V) → Option (Resolved V)
  | some l, some r => some (.and l r)
  | some one, none | none, some one => some one
  | none, none => none

def bothNodes : Option (Resolved V) → Option (Resolved V) → Option (Resolved V)
  | some l, some r => if l.usesSets || r.usesSets then none else some (.or l r)
  | _, _ => none

def Translation.and (l r : Translation V) : Translation V := ⟨keepNodes l.node r.node, l.stranded ++ r.stranded⟩

/-- A disjunction that is given up takes everything back. -/
def Translation.or (l r : Translation V) : Translation V :=
  match bothNodes l.node r.node with
  | none => {}
  | some node => ⟨some node, l.stranded ++ r.stranded⟩

/-- What `Builder::build` makes of an expression, its references followed. -/
def translate : Expr V → Translation V
  | .binary l .and r => (translate l).and (translate r)
  | .binary l .or r =>
    match logicalOrEqualities K schema l r with
    | some (name, values) => membershipTranslation K schema schema name values
    | none => (translate l).or (translate r)
  | .binary l op r =>
    match orient (columnName schema l) (literal K r) (literal K l) (columnName schema r) op with
    | none => {}
    | some (name, value, op) => comparisonTranslation schema schema name value op
  | .isNull e => nullTranslation schema schema (columnName schema e) false
  | .isNotNull e => nullTranslation schema schema (columnName schema e) true
  | .inList e list negated =>
    if negated then {}
    else match columnName schema e, list.mapM (literal K) with
      | some name, some values => membershipTranslation K schema schema name values
      | _, _ => {}
  | _ => {}

/-- A physical AND without a node is given up as a whole. -/
def Translation.physicalAnd (l r : Translation V) : Translation V :=
  match keepNodes l.node r.node with
  | none => {}
  | some node => ⟨some node, l.stranded ++ r.stranded⟩

/-- What `Builder::build_physical` makes of one. -/
def translatePhysical (sideJoinKeys : Bool) : PhysicalExpr V → Translation V
  | .binary l .and r => (translatePhysical sideJoinKeys l).physicalAnd (translatePhysical sideJoinKeys r)
  | .binary l .or r =>
    match (if sideJoinKeys then physicalOrEqualities K schema l r else none) with
    | some (name, values) => membershipTranslation K schema remote name values
    | none => (translatePhysical sideJoinKeys l).or (translatePhysical sideJoinKeys r)
  | .binary l op r =>
    match orient (physicalColumnName schema l) (physicalLiteral K r) (physicalLiteral K l)
        (physicalColumnName schema r) op with
    | none => {}
    | some (name, value, op) => comparisonTranslation schema remote name value op
  | .isNull e => nullTranslation schema remote (physicalColumnName schema e) false
  | .isNotNull e => nullTranslation schema remote (physicalColumnName schema e) true
  | .inList e list negated =>
    if negated || list.isEmpty then {}
    else match physicalColumnName schema e, list.mapM (physicalLiteral K) with
      | some name, some values =>
        if sideJoinKeys then membershipTranslation K schema remote name values else {}
      | _, _ => {}
  | _ => {}

/-- One membership a tuple field, all of them or none. -/
def membershipNodes (tuples : List (List (ScalarValue V))) : Nat → List String → Option (List (Resolved V))
  | _, [] => some []
  | i, name :: names =>
    (membershipTranslation K schema remote name (fieldValues tuples i)).node.bind fun node =>
      (membershipNodes tuples (i + 1) names).map (node :: ·)

/-- A struct `IN`, a membership for each of its columns. -/
def structNodes (e : PhysicalExpr V) (list : List (PhysicalExpr V)) (negated : Bool) : Option (List (Resolved V)) :=
  if negated || list.isEmpty then none
  else match physicalStructColumns schema e with
    | none => none
    | some columns =>
      if columns.length < 2 || !columns.Nodup then none
      else (list.mapM (tupleFields K columns.length)).bind fun tuples =>
        membershipNodes K schema remote tuples 0 columns

/-- What `Builder::build_physical_top` makes of one. -/
def translatePhysicalTop (sideJoinKeys : Bool) : PhysicalExpr V → Translations V
  | .binary l .and r => (translatePhysicalTop sideJoinKeys l).append (translatePhysicalTop sideJoinKeys r)
  | .inList e list negated =>
    match (if sideJoinKeys then structNodes K schema remote e list negated else none) with
    | some nodes => ⟨nodes, []⟩
    | none => (translatePhysical K schema remote sideJoinKeys (.inList e list negated)).toAll
  | e => (translatePhysical K schema remote sideJoinKeys e).toAll

def translateAll : List (Expr V) → Translations V
  | [] => {}
  | e :: es => (translate K schema e).toAll.append (translateAll es)

def translatePhysicalAll (sideJoinKeys : Bool) : List (PhysicalExpr V) → Translations V
  | [] => {}
  | e :: es => (translatePhysicalTop K schema remote sideJoinKeys e).append (translatePhysicalAll sideJoinKeys es)

end

/-! ## What a call of the builder adds -/

/-- From `b`, the builder returned `specs` and moved to `b'` for these nodes and stranded positions. -/
structure Builds (b : Builder V) (t : Translations V) (specs : List Spec) (b' : Builder V) : Prop where
  specs : specs = Resolved.numberAll b.constants.length b.joinKeys.length t.nodes
  constants : b'.constants = b.constants ++ t.nodes.flatMap Resolved.constants
  joinKeys : b'.joinKeys = b.joinKeys ++ t.nodes.flatMap Resolved.joinKeys
  columns : ∀ i, i ∈ b'.referencedColumns ↔
    i ∈ b.referencedColumns ∨ (∃ c ∈ t.nodes.flatMap Resolved.references, c.index = i) ∨ i ∈ t.stranded
  nodup : b.referencedColumns.Nodup → b'.referencedColumns.Nodup
  full : ∀ n ∈ t.nodes, n.Full

namespace Builds

variable {b b₁ b₂ : Builder V}

theorem nothing (b : Builder V) : Builds b {} [] b where
  specs := rfl
  constants := by simp
  joinKeys := by simp
  columns i := by simp
  nodup h := h
  full n hn := by simp at hn

theorem append {t u : Translations V} {ss ss' : List Spec} (h : Builds b t ss b₁) (h' : Builds b₁ u ss' b₂) :
    Builds b (t.append u) (ss ++ ss') b₂ where
  specs := by
    rw [h.specs, h'.specs, h.constants, h.joinKeys, Translations.append, Resolved.numberAll_append]
    simp only [List.length_append]
  constants := by simp [h'.constants, h.constants, Translations.append]
  joinKeys := by simp [h'.joinKeys, h.joinKeys, Translations.append]
  columns i := by
    rw [h'.columns, h.columns]
    simp only [Translations.append, List.flatMap_append, List.mem_append]
    constructor
    · rintro ((h | ⟨c, h, rfl⟩ | h) | ⟨c, h, rfl⟩ | h)
      · exact Or.inl h
      · exact Or.inr (Or.inl ⟨c, Or.inl h, rfl⟩)
      · exact Or.inr (Or.inr (Or.inl h))
      · exact Or.inr (Or.inl ⟨c, Or.inr h, rfl⟩)
      · exact Or.inr (Or.inr (Or.inr h))
    · rintro (h | ⟨c, h | h, rfl⟩ | h | h)
      · exact Or.inl (Or.inl h)
      · exact Or.inl (Or.inr (Or.inl ⟨c, h, rfl⟩))
      · exact Or.inr (Or.inl ⟨c, h, rfl⟩)
      · exact Or.inl (Or.inr (Or.inr h))
      · exact Or.inr (Or.inr h)
  nodup hb := h'.nodup (h.nodup hb)
  full n hn := by
    rcases List.mem_append.1 hn with hn | hn
    · exact h.full n hn
    · exact h'.full n hn

/-- Two nodes under one `and` or `or` are numbered as they were side by side. -/
theorem join {l r n : Resolved V} {s t spec : Spec} {stranded : List Nat}
    (h : Builds b ⟨[l, r], stranded⟩ [s, t] b₁)
    (hspec : (n = .and l r ∧ spec = .and s t) ∨ (n = .or l r ∧ spec = .or s t)) :
    Builds b ⟨[n], stranded⟩ [spec] b₁ := by
  have hspecs := h.specs
  simp only [Resolved.numberAll, List.cons.injEq, and_true] at hspecs
  have hfull : l.Full ∧ r.Full := ⟨h.full l (by simp), h.full r (by simp)⟩
  obtain ⟨rfl, rfl⟩ | ⟨rfl, rfl⟩ := hspec
  all_goals
    refine ⟨?_, ?_, ?_, ?_, h.nodup, ?_⟩
    · simp [Resolved.numberAll, Resolved.number, hspecs.1, hspecs.2]
    · simpa [Resolved.constants] using h.constants
    · simpa [Resolved.joinKeys] using h.joinKeys
    · simpa [Resolved.references] using h.columns
    · simpa [Resolved.Full] using hfull

/-- The optional result of one expression. -/
theorem spec_eq {n : Option (Resolved V)} {s : Option Spec} {stranded : List Nat}
    (h : Builds b ⟨n.toList, stranded⟩ s.toList b₁) :
    s = n.map fun node => node.number b.constants.length b.joinKeys.length := by
  have hspecs := h.specs
  cases n <;> cases s <;> simp_all [Resolved.numberAll]

section
variable {n m : Option (Resolved V)} {s t : Option Spec} {stranded stranded' : List Nat}

theorem keep (hl : Builds b ⟨n.toList, stranded⟩ s.toList b₁) (hr : Builds b₁ ⟨m.toList, stranded'⟩ t.toList b₂) :
    Builds b ⟨(keepNodes n m).toList, stranded ++ stranded'⟩ (keepExpressible s t).toList b₂ := by
  have h := hl.append hr
  have hs := hl.spec_eq
  have ht := hr.spec_eq
  subst hs ht
  cases n with
  | none => cases m <;> exact h
  | some l =>
    cases m with
    | none => simpa [keepNodes, keepExpressible, Translations.append] using h
    | some r => exact h.join (Or.inl ⟨rfl, rfl⟩)

/-- OR keeps both sides in the translation exactly when the builder does. -/
theorem both (hl : Builds b ⟨n.toList, stranded⟩ s.toList b₁) (hr : Builds b₁ ⟨m.toList, stranded'⟩ t.toList b₂) :
    (bothNodes n m = none ∧ bothOrNone s t = none) ∨
      ∃ node spec, bothNodes n m = some node ∧ bothOrNone s t = some spec ∧
        Builds b ⟨[node], stranded ++ stranded'⟩ [spec] b₂ := by
  have h := hl.append hr
  have hs := hl.spec_eq
  have ht := hr.spec_eq
  subst hs ht
  cases n with
  | none => exact Or.inl ⟨rfl, rfl⟩
  | some l =>
    cases m with
    | none => exact Or.inl ⟨rfl, rfl⟩
    | some r =>
      simp only [bothNodes, bothOrNone, Option.map_some, containsJoinKeys, Resolved.containsJoinKeys_number]
      by_cases hsets : (l.usesSets || r.usesSets) = true
      · exact Or.inl ⟨if_pos hsets, if_pos hsets⟩
      · exact Or.inr ⟨_, _, if_neg hsets, if_neg hsets, h.join (Or.inr ⟨rfl, rfl⟩)⟩

end

/-- A looked-up column followed by the leaf that reads it. -/
theorem read {c : ColumnRef} {n : Resolved V} (h : Builds b ⟨[], [c.index]⟩ [] b₁) (href : n.references = [c])
    (hfull : n.Full) (hconstants : b₂.constants = b₁.constants ++ n.constants)
    (hkeys : b₂.joinKeys = b₁.joinKeys ++ n.joinKeys) (hcolumns : b₂.referencedColumns = b₁.referencedColumns) :
    Builds b ⟨[n], []⟩ [n.number b₁.constants.length b₁.joinKeys.length] b₂ where
  specs := by simp [h.constants, h.joinKeys, Resolved.numberAll]
  constants := by simp [hconstants, h.constants]
  joinKeys := by simp [hkeys, h.joinKeys]
  columns i := by
    rw [hcolumns, h.columns]
    simp [href, eq_comm]
  nodup hb := by rw [hcolumns]; exact h.nodup hb
  full m hm := by rw [List.mem_singleton.1 hm]; exact hfull

end Builds

/-! ## The leaves -/

section
variable {K : Kernel V} {schema remote : Schema} (b : Builder V)

theorem Translation.leaf_stranded {name : String} {node : ColumnRef → Option (Resolved V)} {n : Resolved V}
    (h : (Translation.leaf schema remote name node).node = some n) :
    (Translation.leaf schema remote name node).stranded = [] := by
  unfold Translation.leaf at h ⊢
  cases hcolumn : resolveColumn schema remote name with
  | none => rfl
  | some column =>
    cases hnode : node column with
    | none => simp [hcolumn, hnode] at h
    | some m => simp only [hnode]

theorem membershipTranslation_stranded {name : String} {values : List (ScalarValue V)} {n : Resolved V}
    (h : (membershipTranslation K schema remote name values).node = some n) :
    (membershipTranslation K schema remote name values).stranded = [] := by
  unfold membershipTranslation at h ⊢
  split at h
  · cases h
  · rename_i hvalues
    rw [if_neg hvalues]
    exact Translation.leaf_stranded h

variable (schema remote) in
theorem remoteColumn_builds (name : String) :
    (remoteColumn schema remote b name).1 = resolveColumn schema remote name ∧
      Builds b ⟨[], ((resolveColumn schema remote name).map (·.index)).toList⟩ []
        (remoteColumn schema remote b name).2 := by
  unfold remoteColumn resolveColumn
  cases schema.indexOf name with
  | none => exact ⟨rfl, .nothing b⟩
  | some index =>
    simp only [Option.bind_some]
    cases remote.fields[index]? with
    | none => exact ⟨rfl, .nothing b⟩
    | some field =>
      refine ⟨rfl, ?_⟩
      dsimp only
      split
      · rename_i hmem
        refine { Builds.nothing b with columns := ?_ }
        intro i
        simp only [List.contains_eq_mem, decide_eq_true_eq] at hmem
        by_cases hi : i = index
        · simp [hi, hmem]
        · simp [hi]
      · rename_i hmem
        simp only [List.contains_eq_mem, decide_eq_true_eq] at hmem
        refine { Builds.nothing b with columns := ?_, nodup := ?_ }
        · intro i
          simp
        · intro hb
          exact List.nodup_append.2 ⟨hb, by simp, by simpa using fun i hi => ne_of_mem_of_not_mem hi hmem⟩

theorem comparisonLeaf_builds (name : String) (value : ScalarValue V) (op : Operator) :
    Builds b (comparisonTranslation schema remote name value op).toAll
      (comparisonLeaf schema remote b name value op).1.toList (comparisonLeaf schema remote b name value op).2 := by
  obtain ⟨hcolumn, hb⟩ := remoteColumn_builds schema remote b name
  unfold comparisonLeaf comparisonTranslation Translation.leaf
  rw [← hcolumn] at hb ⊢
  cases h : remoteColumn schema remote b name with
  | mk column b' =>
    rw [h] at hb
    cases column with
    | none => exact hb
    | some column =>
      cases opToken op with
      | none => exact hb
      | some token =>
        cases Constant.fromScalar value with
        | none => exact hb
        | some constant =>
          exact hb.read (n := .comparison token column (some constant)) rfl rfl rfl (by simp [Resolved.joinKeys]) rfl

theorem membership_builds (name : String) (values : List (ScalarValue V)) :
    Builds b (membershipTranslation K schema remote name values).toAll
      (membership K schema remote b name values).1.toList (membership K schema remote b name values).2 := by
  obtain ⟨hcolumn, hb⟩ := remoteColumn_builds schema remote b name
  unfold membership membershipTranslation
  split
  · exact .nothing b
  · unfold Translation.leaf
    rw [← hcolumn] at hb ⊢
    cases h : remoteColumn schema remote b name with
    | mk column b' =>
      rw [h] at hb
      cases column with
      | none => exact hb
      | some column =>
        dsimp only
        cases joinKeysIpc K column.name values with
        | none => exact hb
        | some keys =>
          exact hb.read (n := .inSet column (some keys) (0, column.name) false) rfl rfl
            (by simp [Resolved.constants]) rfl rfl

theorem nullLeaf_builds (name : Option String) (negated : Bool) :
    Builds b (nullTranslation schema remote name negated).toAll (nullLeaf schema remote b name negated).1.toList
      (nullLeaf schema remote b name negated).2 := by
  cases name with
  | none => exact .nothing b
  | some name =>
    obtain ⟨hcolumn, hb⟩ := remoteColumn_builds schema remote b name
    simp only [nullLeaf, nullTranslation, Translation.leaf]
    rw [← hcolumn] at hb ⊢
    cases h : remoteColumn schema remote b name with
    | mk column b' =>
      rw [h] at hb
      cases column with
      | none => exact hb
      | some column =>
        exact hb.read (n := .isNull column negated) rfl trivial (by simp [Resolved.constants])
          (by simp [Resolved.joinKeys]) rfl

end

/-! ## The front ends -/

section
variable (K : Kernel V) (schema remote : Schema)

theorem build_builds : ∀ (e : Expr V) (b : Builder V),
    Builds b (translate K schema e).toAll (build K schema schema b e).1.toList (build K schema schema b e).2
  | .binary l .and r, b => (build_builds l b).keep (build_builds r _)
  | .binary l .or r, b => by
    have hgrow := (build_grows K schema l b).trans (build_grows K schema r _)
    simp only [build, translate]
    cases logicalOrEqualities K schema l r with
    | some equalities => exact membership_builds b _ _
    | none =>
      dsimp only [Translation.or]
      rcases (build_builds l b).both (build_builds r _) with ⟨hnode, hspec⟩ | ⟨node, spec, hnode, hspec, h⟩
      · rw [hnode, hspec, hgrow.rollback]
        exact .nothing b
      · rw [hnode, hspec]
        exact h
  | .binary l (.cmp c) r, b | .binary l (.other c) r, b => by
    simp only [build, translate]
    cases orient (columnName schema l) (literal K r) (literal K l) (columnName schema r) _ with
    | none => exact .nothing b
    | some leaf => exact comparisonLeaf_builds b _ _ _
  | .isNull e, b => nullLeaf_builds b _ _
  | .isNotNull e, b => nullLeaf_builds b _ _
  | .inList e list negated, b => by
    simp only [build, translate]
    split
    · exact .nothing b
    · cases columnName schema e with
      | none => exact .nothing b
      | some name =>
        cases list.mapM (literal K) with
        | none => exact .nothing b
        | some values => exact membership_builds b name values
  | .column _ _, b | .literal _, b | .cast _ _, b | .other _ _, b => .nothing b

theorem buildPhysical_builds (side : Bool) : ∀ (e : PhysicalExpr V) (b : Builder V),
    Builds b (translatePhysical K schema remote side e).toAll (buildPhysical K schema remote side b e).1.toList
      (buildPhysical K schema remote side b e).2
  | .binary l .and r, b => by
    have hgrow := (buildPhysical_grows K schema remote side l b).trans (buildPhysical_grows K schema remote side r _)
    have h := (buildPhysical_builds side l b).keep (buildPhysical_builds side r _)
    have hspec := h.spec_eq
    simp only [buildPhysical, translatePhysical, Translation.physicalAnd]
    cases hnode : keepNodes (translatePhysical K schema remote side l).node (translatePhysical K schema remote side r).node with
    | none =>
      rw [hnode, Option.map_none] at hspec
      rw [hspec, hgrow.rollback]
      exact .nothing b
    | some node =>
      rw [hnode, Option.map_some] at hspec
      rw [hnode, hspec] at h
      rw [hspec]
      exact h
  | .binary l .or r, b => by
    have hgrow := (buildPhysical_grows K schema remote side l b).trans (buildPhysical_grows K schema remote side r _)
    simp only [buildPhysical, translatePhysical]
    cases (if side then physicalOrEqualities K schema l r else none) with
    | some equalities => exact membership_builds b _ _
    | none =>
      dsimp only [Translation.or]
      rcases (buildPhysical_builds side l b).both (buildPhysical_builds side r _) with
        ⟨hnode, hspec⟩ | ⟨node, spec, hnode, hspec, h⟩
      · rw [hnode, hspec, hgrow.rollback]
        exact .nothing b
      · rw [hnode, hspec]
        exact h
  | .binary l (.cmp c) r, b | .binary l (.other c) r, b => by
    simp only [buildPhysical, translatePhysical]
    cases orient (physicalColumnName schema l) (physicalLiteral K r) (physicalLiteral K l) (physicalColumnName schema r) _ with
    | none => exact .nothing b
    | some leaf => exact comparisonLeaf_builds b _ _ _
  | .isNull e, b => nullLeaf_builds b _ _
  | .isNotNull e, b => nullLeaf_builds b _ _
  | .inList e list negated, b => by
    simp only [buildPhysical, translatePhysical]
    split
    · exact .nothing b
    · cases physicalColumnName schema e with
      | none => exact .nothing b
      | some name =>
        cases list.mapM (physicalLiteral K) with
        | none => exact .nothing b
        | some values =>
          cases side with
          | false => exact .nothing b
          | true => exact membership_builds b name values
  | .column _ _, b | .literal _, b | .cast _ _, b | .scalarFunction _ _, b | .other _ _, b => .nothing b

/-- A family of memberships that goes through strands nothing. -/
theorem memberships_builds (tuples : List (List (ScalarValue V))) : ∀ (names : List String) (i : Nat) (b : Builder V),
    (membershipNodes K schema remote tuples i names = none ∧ (memberships K schema remote b tuples i names).1 = none) ∨
      ∃ nodes specs, membershipNodes K schema remote tuples i names = some nodes ∧
        (memberships K schema remote b tuples i names).1 = some specs ∧
        Builds b ⟨nodes, []⟩ specs (memberships K schema remote b tuples i names).2
  | [], i, b => Or.inr ⟨[], [], rfl, rfl, .nothing b⟩
  | name :: names, i, b => by
    have h : Builds b (membershipTranslation K schema remote name (fieldValues tuples i)).toAll
        (membership K schema remote b name (fieldValues tuples i)).1.toList
        (membership K schema remote b name (fieldValues tuples i)).2 := membership_builds b name _
    have hspec := h.spec_eq
    simp only [memberships, membershipNodes]
    cases hm : membership K schema remote b name (fieldValues tuples i) with
    | mk spec b₁ =>
      rw [hm] at h hspec
      cases hnode : (membershipTranslation K schema remote name (fieldValues tuples i)).node with
      | none =>
        rw [hnode] at hspec
        subst hspec
        exact Or.inl ⟨rfl, rfl⟩
      | some node =>
        rw [hnode] at hspec
        subst hspec
        rw [Translation.toAll, hnode, membershipTranslation_stranded hnode] at h
        rcases memberships_builds tuples names (i + 1) b₁ with ⟨hnodes, hspecs⟩ | ⟨nodes, specs, hnodes, hspecs, hrest⟩
        · refine Or.inl ⟨by simp [hnodes], ?_⟩
          dsimp only [Option.map_some]
          cases hr : memberships K schema remote b₁ tuples (i + 1) names with
          | mk rest b₂ => rw [hr] at hspecs; cases hspecs; rfl
        · refine Or.inr ⟨node :: nodes, node.number b.constants.length b.joinKeys.length :: specs, by simp [hnodes], ?_⟩
          dsimp only [Option.map_some]
          cases hr : memberships K schema remote b₁ tuples (i + 1) names with
          | mk rest b₂ =>
            rw [hr] at hspecs hrest
            cases hspecs
            exact ⟨rfl, h.append hrest⟩

theorem structMemberships_builds (b : Builder V) (e : PhysicalExpr V) (list : List (PhysicalExpr V)) (negated : Bool) :
    (structNodes K schema remote e list negated = none ∧
        structMemberships K schema remote b e list negated = (none, b)) ∨
      ∃ nodes specs, structNodes K schema remote e list negated = some nodes ∧
        (structMemberships K schema remote b e list negated).1 = some specs ∧
        Builds b ⟨nodes, []⟩ specs (structMemberships K schema remote b e list negated).2 := by
  unfold structMemberships structNodes
  split
  · exact Or.inl ⟨rfl, rfl⟩
  · cases physicalStructColumns schema e with
    | none => exact Or.inl ⟨rfl, rfl⟩
    | some columns =>
      dsimp only
      split
      · exact Or.inl ⟨rfl, rfl⟩
      · cases list.mapM (tupleFields K columns.length) with
        | none => exact Or.inl ⟨rfl, rfl⟩
        | some tuples =>
          dsimp only [Option.bind_some]
          have hgrow := memberships_grows K schema remote tuples columns 0 b
          have h := memberships_builds K schema remote tuples columns 0 b
          cases hm : memberships K schema remote b tuples 0 columns with
          | mk specs b' =>
            rw [hm] at h hgrow
            rcases h with ⟨hnodes, hspecs⟩ | ⟨nodes, specs', hnodes, hspecs, hbuilds⟩
            · cases hspecs
              exact Or.inl ⟨hnodes, by simp only [hgrow.rollback]⟩
            · cases hspecs
              exact Or.inr ⟨nodes, specs', hnodes, rfl, hbuilds⟩

theorem buildPhysicalTop_builds (side : Bool) : ∀ (e : PhysicalExpr V) (b : Builder V),
    Builds b (translatePhysicalTop K schema remote side e) (buildPhysicalTop K schema remote side b e).1
      (buildPhysicalTop K schema remote side b e).2
  | .binary l .and r, b => (buildPhysicalTop_builds side l b).append (buildPhysicalTop_builds side r _)
  | .inList e list negated, b => by
    simp only [buildPhysicalTop, translatePhysicalTop]
    cases side with
    | false => exact buildPhysical_builds K schema remote false (.inList e list negated) b
    | true =>
      simp only [if_true]
      rcases structMemberships_builds K schema remote b e list negated with ⟨hnodes, hm⟩ | ⟨nodes, specs, hnodes, hm, h⟩
      · rw [hnodes, hm]
        exact buildPhysical_builds K schema remote true (.inList e list negated) b
      · rw [hnodes]
        cases hstruct : structMemberships K schema remote b e list negated with
        | mk found b' =>
          rw [hstruct] at hm h
          cases hm
          exact h
  | .binary l .or r, b | .binary l (.cmp c) r, b | .binary l (.other s) r, b | .isNull e, b | .isNotNull e, b
  | .column _ _, b | .literal _, b | .cast _ _, b | .scalarFunction _ _, b | .other _ _, b => by
    simp only [buildPhysicalTop, translatePhysicalTop]
    exact buildPhysical_builds K schema remote side _ b

theorem buildAll_builds : ∀ (es : List (Expr V)) (b : Builder V),
    Builds b (translateAll K schema es) (buildAll K schema schema b es).1.reduceOption (buildAll K schema schema b es).2
  | [], b => .nothing b
  | e :: es, b => by
    have h := (build_builds K schema e b).append (buildAll_builds es _)
    simp only [buildAll, translateAll]
    cases hspec : (build K schema schema b e).1 with
    | none => simpa [hspec, List.reduceOption_cons_of_none] using h
    | some spec => simpa [hspec, List.reduceOption_cons_of_some] using h

theorem buildPhysicalAll_builds (side : Bool) : ∀ (es : List (PhysicalExpr V)) (b : Builder V),
    Builds b (translatePhysicalAll K schema remote side es) (buildPhysicalAll K schema remote side b es).1
      (buildPhysicalAll K schema remote side b es).2
  | [], b => .nothing b
  | e :: es, b => (buildPhysicalTop_builds K schema remote side e b).append (buildPhysicalAll_builds side es _)

end

end VgiDatafusion
