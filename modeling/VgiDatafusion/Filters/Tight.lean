import VgiDatafusion.Filters.Translation

/-!
# Constants, side batches and columns of a pushdown

What `Builds` says of the builder's state, said of the documents it ends in.

* `pushdown_references_tight`: every reference is in range and leads to the literal or value set of
  its own expression, every constant and every side batch has exactly one node, and what yields no
  predicate leaves neither behind.
* `reported_columns_iff`: the columns are those the predicates read, unless a leaf was given up
  after its column had been recorded. A NULL literal, an operator that is no comparison, a type the
  encoding lacks, a set of mixed types: all are noticed only then (filters.rs:427-429, 490-492,
  162-164), and no checkpoint is taken around a single leaf.
-/
namespace VgiDatafusion

variable {V : Type}

namespace WirePushdown

/-- The predicates' expressions, in document order. -/
def specs (p : WirePushdown V) : List Spec :=
  (p.blob.map fun blob => blob.document.predicates.map (·.expression)).getD []

def values (p : WirePushdown V) : List (ScalarValue V) := (p.blob.map (·.values)).getD []

/-- The predicates are these nodes, and the payload is what they refer to and nothing else. -/
structure Tight (p : WirePushdown V) (nodes : List (Resolved V)) : Prop where
  /-- Each reference leads to the value its own node was built with. -/
  points : p.specs.map (·.resolve p.values p.joinKeys) = nodes
  full : ∀ n ∈ nodes, n.Full
  valueRef_lt : ∀ r ∈ p.specs.flatMap Spec.valueRefs, r < p.values.length
  batchIndex_lt : ∀ r ∈ p.specs.flatMap Spec.batchIndexes, r < p.joinKeys.length
  constant_once : ∀ r < p.values.length, (p.specs.flatMap Spec.valueRefs).count r = 1
  batch_once : ∀ r < p.joinKeys.length, (p.specs.flatMap Spec.batchIndexes).count r = 1

/-- The reported columns are, each once, those some predicate reads. -/
def ReportsRead (p : WirePushdown V) : Prop :=
  p.columns.Nodup ∧ ∀ i, i ∈ p.columns ↔ ∃ c ∈ p.specs.flatMap Spec.references, c.index = i

end WirePushdown

/-- The call left no constant and no side batch. -/
def Builder.LeavesNothing (b b' : Builder V) : Prop := b'.constants = b.constants ∧ b'.joinKeys = b.joinKeys

/-- Whatever was stranded is also read by a node. -/
def Translations.Covered (t : Translations V) : Prop :=
  ∀ i ∈ t.stranded, ∃ c ∈ t.nodes.flatMap Resolved.references, c.index = i

/-! ## From the builder's state to the document -/

section
variable {p : WirePushdown V} {specs : List Spec} {b : Builder V} {t : Translations V}

/-- What a payload without a blob carries: nothing. -/
theorem WirePushdown.Carries.contents (h : p.Carries specs b) : p.specs = specs ∧
    (p.blob = none ∧ specs = [] ∧ p.values = [] ∧ p.joinKeys = [] ∧ p.columns = [] ∨
      p.values = b.constants ∧ p.joinKeys = b.joinKeys ∧ p.columns = b.referencedColumns) := by
  rcases h with ⟨rfl, hblob, hcolumns, hkeys⟩ | ⟨blob, hblob, hspecs, hvalues, hcolumns, hkeys⟩
  · simp [WirePushdown.specs, WirePushdown.values, hblob, hcolumns, hkeys]
  · refine ⟨by simp [WirePushdown.specs, hblob, hspecs], Or.inr ⟨?_, hkeys, hcolumns⟩⟩
    simp [WirePushdown.values, hblob, hvalues]

theorem Builds.tight (hb : Builds {} t specs b) (hp : p.Carries specs b) : p.Tight t.nodes := by
  obtain ⟨hspecs, hcontents⟩ := hp.contents
  have hconstants : b.constants = t.nodes.flatMap Resolved.constants := by simpa using hb.constants
  have hkeys : b.joinKeys = t.nodes.flatMap Resolved.joinKeys := by simpa using hb.joinKeys
  have hnumbered : specs = Resolved.numberAll 0 0 t.nodes := hb.specs
  rcases hcontents with ⟨-, hnil, hv, hk, -⟩ | ⟨hv, hk, -⟩
  · have hnodes : t.nodes = [] := by
      rw [hnil] at hnumbered
      cases hn : t.nodes with
      | nil => rfl
      | cons n ns => simp [hn, Resolved.numberAll] at hnumbered
    rw [hnodes]
    rw [hnil] at hspecs
    constructor <;> simp [hspecs, hv, hk]
  · have hvalueRefs := Resolved.valueRefs_numberAll t.nodes hb.full 0 0
    have hbatches := Resolved.batchIndexes_numberAll t.nodes hb.full 0 0
    rw [← hnumbered, ← hspecs, ← hconstants, ← hv, ← List.range_eq_range'] at hvalueRefs
    rw [← hnumbered, ← hspecs, ← hkeys, ← hk, ← List.range_eq_range'] at hbatches
    refine ⟨?_, hb.full, ?_, ?_, ?_, ?_⟩
    · have h := Resolved.resolve_numberAll t.nodes hb.full [] []
      simpa [hspecs, hnumbered, hv, hk, hconstants, hkeys] using h
    · intro r hr
      rw [hvalueRefs] at hr
      exact List.mem_range.1 hr
    · intro r hr
      rw [hbatches] at hr
      exact List.mem_range.1 hr
    · intro r hr
      rw [hvalueRefs, List.count_range, if_pos hr]
    · intro r hr
      rw [hbatches, List.count_range, if_pos hr]

/-- Where no document is written no column is reported; elsewhere the stranded ones are too. -/
theorem Builds.reportsRead_iff (hb : Builds {} t specs b) (hp : p.Carries specs b) :
    p.ReportsRead ↔ p.blob = none ∨ t.Covered := by
  obtain ⟨hspecs, hcontents⟩ := hp.contents
  have href : p.specs.flatMap Spec.references = t.nodes.flatMap Resolved.references := by
    rw [hspecs, hb.specs, Resolved.references_numberAll]
  unfold WirePushdown.ReportsRead
  rw [href]
  rcases hcontents with ⟨hblob, hnil, -, -, hcolumns⟩ | ⟨-, -, hcolumns⟩
  · have hnone : t.nodes.flatMap Resolved.references = [] := by
      rw [← href, hspecs, hnil, List.flatMap_nil]
    simp [hblob, hcolumns, hnone]
  · have hmem : ∀ i, i ∈ b.referencedColumns ↔
        (∃ c ∈ t.nodes.flatMap Resolved.references, c.index = i) ∨ i ∈ t.stranded := by
      intro i
      simpa using hb.columns i
    have hnodup : b.referencedColumns.Nodup := hb.nodup List.nodup_nil
    rw [hcolumns]
    constructor
    · intro hreports
      refine Or.inr ?_
      intro i hi
      exact (hreports.2 i).1 ((hmem i).2 (Or.inr hi))
    · rintro (hblob | hcovered)
      · -- no blob: there was nothing to carry
        rcases hp with ⟨-, -, hnone, -⟩ | ⟨blob, hsome, -⟩
        · have hempty : b.referencedColumns = [] := hcolumns ▸ hnone
          refine ⟨hnodup, fun i => ⟨?_, fun h => (hmem i).2 (Or.inl h)⟩⟩
          intro hi
          simp [hempty] at hi
        · simp [hsome] at hblob
      · refine ⟨hnodup, fun i => ⟨?_, fun h => (hmem i).2 (Or.inl h)⟩⟩
        intro hi
        rcases (hmem i).1 hi with h | h
        · exact h
        · exact hcovered i h

theorem Builds.leavesNothing {b₀ : Builder V} (hb : Builds b₀ t specs b) (hspecs : specs = []) :
    b₀.LeavesNothing b := by
  have hnumbered := hb.specs
  have hnodes : t.nodes = [] := by
    cases hn : t.nodes with
    | nil => rfl
    | cons n ns => simp [hspecs, hn, Resolved.numberAll] at hnumbered
  exact ⟨by simp [hb.constants, hnodes], by simp [hb.joinKeys, hnodes]⟩

end

/-! ## The documents -/

section
variable (K : Kernel V) (schema remote : Schema)

theorem serialize_tight {exprs : List (Expr V)} {p : WirePushdown V} (hp : serialize K schema exprs = some p) :
    p.Tight (translateAll K schema exprs).nodes :=
  (buildAll_builds K schema exprs {}).tight (serialize_carries K hp)

theorem serializePhysical_tight {exprs : List (PhysicalExpr V)} {side : Bool} {p : WirePushdown V}
    (hp : serializePhysicalForRemote K schema remote exprs side = some p) :
    p.Tight (translatePhysicalAll K schema remote side exprs).nodes :=
  (buildPhysicalAll_builds K schema remote side exprs {}).tight (serializePhysicalForRemote_carries K hp)

/-- What a delta carries: the builder's state has no side batch to leave out. -/
theorem serializePhysicalDelta_carries {exprs : List (PhysicalExpr V)} {revision previousCount : Nat}
    {p : WirePushdown V} (hp : serializePhysicalDeltaForRemote K schema remote exprs revision previousCount = some p) :
    p.Carries (buildPhysicalAll K schema remote false {} exprs).1
      (buildPhysicalAll K schema remote false {} exprs).2 := by
  have hcarries := serializePhysicalDeltaForRemote_carries K hp
  rwa [Builder.without_joinKeys (buildPhysicalAll_joinKeys K schema remote exprs {})] at hcarries

theorem serializePhysicalDelta_tight {exprs : List (PhysicalExpr V)} {revision previousCount : Nat}
    {p : WirePushdown V} (hp : serializePhysicalDeltaForRemote K schema remote exprs revision previousCount = some p) :
    p.Tight (translatePhysicalAll K schema remote false exprs).nodes :=
  (buildPhysicalAll_builds K schema remote false exprs {}).tight (serializePhysicalDelta_carries K schema remote hp)

theorem build_leavesNothing {e : Expr V} {b : Builder V} (h : (build K schema schema b e).1 = none) :
    b.LeavesNothing (build K schema schema b e).2 :=
  (build_builds K schema e b).leavesNothing (by rw [h, Option.toList_none])

theorem buildPhysical_leavesNothing {side : Bool} {e : PhysicalExpr V} {b : Builder V}
    (h : (buildPhysical K schema remote side b e).1 = none) :
    b.LeavesNothing (buildPhysical K schema remote side b e).2 :=
  (buildPhysical_builds K schema remote side e b).leavesNothing (by rw [h, Option.toList_none])

theorem structMemberships_leavesNothing {b : Builder V} {e : PhysicalExpr V} {list : List (PhysicalExpr V)}
    {negated : Bool} (h : (structMemberships K schema remote b e list negated).1 = none) :
    b.LeavesNothing (structMemberships K schema remote b e list negated).2 := by
  rcases structMemberships_builds K schema remote b e list negated with ⟨-, hnone⟩ | ⟨nodes, specs, -, hsome, -⟩
  · rw [hnone]
    exact ⟨rfl, rfl⟩
  · rw [h] at hsome
    cases hsome

/-- **Pushdown references are tight.** In every document each `value_ref` and `batch_index` is in
range and leads to the literal or value set of its own expression, each constant and each side batch
has exactly one node; an expression, sub-expression or struct `IN` without a predicate, wherever the
builder meets it, leaves no constant and no side batch. -/
theorem pushdown_references_tight :
    (∀ (exprs : List (Expr V)) (p : WirePushdown V), serialize K schema exprs = some p →
      p.Tight (translateAll K schema exprs).nodes) ∧
    (∀ (exprs : List (PhysicalExpr V)) (sideJoinKeys : Bool) (p : WirePushdown V),
      serializePhysicalForRemote K schema remote exprs sideJoinKeys = some p →
        p.Tight (translatePhysicalAll K schema remote sideJoinKeys exprs).nodes) ∧
    (∀ (exprs : List (PhysicalExpr V)) (revision previousCount : Nat) (p : WirePushdown V),
      serializePhysicalDeltaForRemote K schema remote exprs revision previousCount = some p →
        p.Tight (translatePhysicalAll K schema remote false exprs).nodes) ∧
    (∀ (b : Builder V) (e : Expr V), (build K schema schema b e).1 = none →
      b.LeavesNothing (build K schema schema b e).2) ∧
    (∀ (b : Builder V) (sideJoinKeys : Bool) (e : PhysicalExpr V),
      ((buildPhysical K schema remote sideJoinKeys b e).1 = none →
        b.LeavesNothing (buildPhysical K schema remote sideJoinKeys b e).2) ∧
      ((buildPhysicalTop K schema remote sideJoinKeys b e).1 = [] →
        b.LeavesNothing (buildPhysicalTop K schema remote sideJoinKeys b e).2)) ∧
    (∀ (b : Builder V) (e : PhysicalExpr V) (list : List (PhysicalExpr V)) (negated : Bool),
      (structMemberships K schema remote b e list negated).1 = none →
        b.LeavesNothing (structMemberships K schema remote b e list negated).2) := by
  refine ⟨?_, ?_, ?_, ?_, ?_, ?_⟩
  · intro exprs p hp
    exact serialize_tight K schema hp
  · intro exprs side p hp
    exact serializePhysical_tight K schema remote hp
  · intro exprs revision previousCount p hp
    exact serializePhysicalDelta_tight K schema remote hp
  · intro b e h
    exact build_leavesNothing K schema h
  · intro b side e
    refine ⟨fun h => buildPhysical_leavesNothing K schema remote h, ?_⟩
    intro h
    exact (buildPhysicalTop_builds K schema remote side e b).leavesNothing h
  · intro b e list negated h
    exact structMemberships_leavesNothing K schema remote h

/-- `(a = 1 AND a + b = 7) OR c = 2` beside `5 < a OR c = 2`, and a struct `IN` with a range. -/
theorem pushdown_references_tight_disjunctions :
    (∃ p, serialize Kernel.integers integerColumns [guardedSum, plainOr] = some p ∧ p.values.length = 4 ∧
      p.Tight (translateAll Kernel.integers integerColumns [guardedSum, plainOr]).nodes) ∧
    (∃ p, serializePhysicalForRemote Kernel.integers integerColumns workerColumns [tupleFilter] true = some p ∧
      p.joinKeys.length = 2 ∧
      p.Tight (translatePhysicalAll Kernel.integers integerColumns workerColumns true [tupleFilter]).nodes) ∧
    (∃ p, serializePhysicalDeltaForRemote Kernel.integers integerColumns workerColumns [tupleFilter] 1 4 = some p ∧
      p.Tight (translatePhysicalAll Kernel.integers integerColumns workerColumns false [tupleFilter]).nodes) := by
  obtain ⟨hstatic, hsnapshot, hdelta, -⟩ := pushdown_references_tight Kernel.integers integerColumns workerColumns
  refine ⟨?_, ?_, ?_⟩
  · obtain ⟨p, hp, hlength⟩ : ∃ p, serialize Kernel.integers integerColumns [guardedSum, plainOr] = some p ∧
        p.values.length = 4 := ⟨_, rfl, rfl⟩
    exact ⟨p, hp, hlength, hstatic _ p hp⟩
  · obtain ⟨p, hp, hlength⟩ : ∃ p, serializePhysicalForRemote Kernel.integers integerColumns workerColumns
        [tupleFilter] true = some p ∧ p.joinKeys.length = 2 := ⟨_, rfl, rfl⟩
    exact ⟨p, hp, hlength, hsnapshot _ _ p hp⟩
  · obtain ⟨p, hp⟩ : ∃ p, serializePhysicalDeltaForRemote Kernel.integers integerColumns workerColumns
        [tupleFilter] 1 4 = some p := ⟨_, rfl⟩
    exact ⟨p, hp, hdelta _ _ _ p hp⟩

/-! ## Reported columns -/

/-- A static pushdown has no document exactly when no filter is expressible. -/
theorem serialize_blob_none {exprs : List (Expr V)} {p : WirePushdown V} (hp : serialize K schema exprs = some p) :
    p.blob = none ↔ ∀ e ∈ exprs, isPushable K schema e = false := by
  have hempty : ∀ (es : List (Expr V)) (b : Builder V),
      (buildAll K schema schema b es).1.reduceOption = [] ↔ ∀ e ∈ es, isPushable K schema e = false := by
    intro es
    induction es with
    | nil => intro b; simp [buildAll]
    | cons e es ih =>
      intro b
      have hpushable := build_isSome K schema e b
      simp only [buildAll, List.mem_cons, forall_eq_or_imp, ← hpushable]
      cases (build K schema schema b e).1 with
      | none => simp [List.reduceOption_cons_of_none, ih]
      | some spec => simp [List.reduceOption_cons_of_some]
  rw [← hempty exprs {}]
  simp only [serialize] at hp
  split at hp
  · rename_i hnil
    cases hp
    simp [List.isEmpty_iff.1 hnil]
  · rename_i hcons
    have hne : (buildAll K schema schema {} exprs).1.reduceOption ≠ [] := fun h => hcons (by simp [h])
    simp only [Option.map_eq_some_iff, finishSnapshot] at hp
    obtain ⟨q, hq, rfl⟩ := hp
    rw [if_neg (by simp [hne]), Option.map_eq_some_iff] at hq
    obtain ⟨values, -, rfl⟩ := hq
    simp [hne]

/-- A snapshot of runtime filters is written even when it is empty. -/
theorem serializePhysical_blob {exprs : List (PhysicalExpr V)} {side : Bool} {p : WirePushdown V}
    (hp : serializePhysicalForRemote K schema remote exprs side = some p) : p.blob ≠ none := by
  simp only [serializePhysicalForRemote, Option.map_eq_some_iff, finishSnapshot, bne_self_eq_false, Bool.and_false,
    Bool.false_eq_true, if_false] at hp
  obtain ⟨q, ⟨values, -, rfl⟩, rfl⟩ := hp
  simp

/-- A delta is written unless there is nothing to say and nothing to take back. -/
theorem serializePhysicalDelta_blob_none {exprs : List (PhysicalExpr V)} {revision previousCount : Nat}
    {p : WirePushdown V} (hp : serializePhysicalDeltaForRemote K schema remote exprs revision previousCount = some p) :
    p.blob = none ↔ (translatePhysicalAll K schema remote false exprs).nodes = [] ∧ previousCount = 0 := by
  have hb := buildPhysicalAll_builds K schema remote false exprs {}
  have hspecs : (buildPhysicalAll K schema remote false {} exprs).1 = [] ↔
      (translatePhysicalAll K schema remote false exprs).nodes = [] := by
    rw [hb.specs]
    cases (translatePhysicalAll K schema remote false exprs).nodes <;> simp [Resolved.numberAll]
  rw [← hspecs]
  simp only [serializePhysicalDeltaForRemote, finishDelta] at hp
  split at hp
  · rename_i hempty
    simp only [List.isEmpty_iff, List.append_eq_nil_iff, List.map_eq_nil_iff, tombstones, List.range'_eq_nil_iff,
      numbered, List.zipIdx_eq_nil_iff] at hempty
    cases hp
    refine iff_of_true rfl ⟨hempty.1, ?_⟩
    have hlength := hempty.2
    rw [hempty.1, List.length_nil] at hlength
    omega
  · rename_i hne
    rw [Option.map_eq_some_iff] at hp
    obtain ⟨values, -, rfl⟩ := hp
    refine iff_of_false (by simp) ?_
    rintro ⟨hnil, rfl⟩
    simp [hnil, numbered, tombstones] at hne

/-- **The reported columns are the ones read, exactly when nothing stays stranded.** A column is
stranded when a leaf is given up after looking it up and no disjunction around the leaf is given up
with it; the report is right when some predicate reads that column anyway, or no document is sent. -/
theorem reported_columns_iff :
    (∀ (exprs : List (Expr V)) (p : WirePushdown V), serialize K schema exprs = some p →
      (p.ReportsRead ↔
        (∀ e ∈ exprs, isPushable K schema e = false) ∨ (translateAll K schema exprs).Covered)) ∧
    (∀ (exprs : List (PhysicalExpr V)) (sideJoinKeys : Bool) (p : WirePushdown V),
      serializePhysicalForRemote K schema remote exprs sideJoinKeys = some p →
        (p.ReportsRead ↔ (translatePhysicalAll K schema remote sideJoinKeys exprs).Covered)) ∧
    (∀ (exprs : List (PhysicalExpr V)) (revision previousCount : Nat) (p : WirePushdown V),
      serializePhysicalDeltaForRemote K schema remote exprs revision previousCount = some p →
        (p.ReportsRead ↔
          ((translatePhysicalAll K schema remote false exprs).nodes = [] ∧ previousCount = 0) ∨
            (translatePhysicalAll K schema remote false exprs).Covered)) := by
  refine ⟨?_, ?_, ?_⟩
  · intro exprs p hp
    rw [(buildAll_builds K schema exprs {}).reportsRead_iff (serialize_carries K hp), serialize_blob_none K schema hp]
  · intro exprs side p hp
    rw [(buildPhysicalAll_builds K schema remote side exprs {}).reportsRead_iff
      (serializePhysicalForRemote_carries K hp)]
    exact or_iff_right (serializePhysical_blob K schema remote hp)
  · intro exprs revision previousCount p hp
    rw [(buildPhysicalAll_builds K schema remote false exprs {}).reportsRead_iff
      (serializePhysicalDelta_carries K schema remote hp), serializePhysicalDelta_blob_none K schema remote hp]

end

/-- `name = NULL`. -/
def equalsNull (name : String) : Expr Int := .binary (.column none name) (.cmp .eq) (.literal (.atom .int64 none))

/-- `a = 1` and `b = NULL`: column 1 is reported, and no predicate reads it. -/
theorem equalsNull_reported :
    ∃ p, serialize Kernel.integers integerColumns [equalsOne "a", equalsNull "b"] = some p ∧ p.columns = [0, 1] ∧
      p.specs.flatMap Spec.references = [⟨0, "a"⟩] ∧ ¬ p.ReportsRead := by
  obtain ⟨p, hp, hcolumns, hrefs⟩ : ∃ p, serialize Kernel.integers integerColumns
      [equalsOne "a", equalsNull "b"] = some p ∧ p.columns = [0, 1] ∧
        p.specs.flatMap Spec.references = [⟨0, "a"⟩] := ⟨_, rfl, rfl, rfl⟩
  refine ⟨p, hp, hcolumns, hrefs, ?_⟩
  rintro ⟨-, hreports⟩
  have hread := (hreports 1).1 (by simp [hcolumns])
  simp [hrefs] at hread

/-- `a = 1` with `b = NULL OR c = 1`: the disjunction takes column 1 back. -/
theorem reported_columns_iff_disjunction :
    ∃ p, serialize Kernel.integers integerColumns
        [equalsOne "a", .binary (equalsNull "b") .or (equalsOne "c")] = some p ∧ p.ReportsRead := by
  obtain ⟨p, hp⟩ : ∃ p, serialize Kernel.integers integerColumns
      [equalsOne "a", .binary (equalsNull "b") .or (equalsOne "c")] = some p := ⟨_, rfl⟩
  refine ⟨p, hp, ((reported_columns_iff Kernel.integers integerColumns workerColumns).1 _ p hp).2 (Or.inr ?_)⟩
  intro i hi
  exact absurd hi (by decide +revert)

end VgiDatafusion
