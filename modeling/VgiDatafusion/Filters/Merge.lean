import VgiDatafusion.Filters.Json
import VgiDatafusion.Filters.Tight
import VgiDatafusion.Filters.DeltaProtocol

/-!
# Merging is conjunction (filters.rs:1015-1085; lib.rs:4836-4850)

Init sends the static pushdown and the snapshot of the runtime filters as one document. The predicates of the merged
document are those of the two, each with its references leading where they led before (`Merges.resolved`), so a row passes
both exactly if it passes the merged one. But `merge` reads back the text of both documents, and `serde_json` gives up at
128 levels: a filter of 62 nested `OR`s, which is sent without complaint where it is sent alone, makes the query fail where
there are runtime filters as well (`merge_is_conjunction_iff`, `merge_too_deep`).
-/
namespace VgiDatafusion

open Kleene

variable {V : Type}

/-! ## References followed, then evaluated -/

/-- A node on a row; a reference that leads nowhere is an error at the worker. -/
def Resolved.eval (K : Kernel V) (read : ColumnRef → ScalarValue V) : Resolved V → Tri
  | .comparison op left (some value) => K.compare op (read left) value
  | .comparison _ _ none => .unknown
  | .isNull column negated => .ofBool ((read column).isNull != negated)
  | .inSet column (some keys) set negated =>
    if set.1 = 0 then K.inList (read column) keys.values negated else .unknown
  | .inSet _ none _ _ => .unknown
  | .and l r => (l.eval K read).and (r.eval K read)
  | .or l r => (l.eval K read).or (r.eval K read)

theorem Spec.eval_resolve (K : Kernel V) (read : ColumnRef → ScalarValue V) (values : List (ScalarValue V))
    (joinKeys : List (JoinKeys V)) (spec : Spec) :
    spec.eval K read values joinKeys = (spec.resolve values joinKeys).eval K read := by
  induction spec with
  | comparison op left valueRef => cases h : values[valueRef]? <;> simp [Spec.eval, Spec.resolve, Resolved.eval, h]
  | isNull e negated => rfl
  | inSet e set negated => cases h : joinKeys[set.batchIndex]? <;> simp [Spec.eval, Spec.resolve, Resolved.eval, h]
  | and l r ihl ihr => simp [Spec.eval, Spec.resolve, Resolved.eval, ihl, ihr]
  | or l r ihl ihr => simp [Spec.eval, Spec.resolve, Resolved.eval, ihl, ihr]

/-- A reference in range leads to the same in a longer list. -/
theorem Spec.resolve_append {values : List (ScalarValue V)} {keys : List (JoinKeys V)} (more : List (ScalarValue V))
    (moreKeys : List (JoinKeys V)) {spec : Spec} (hvalues : ∀ r ∈ spec.valueRefs, r < values.length)
    (hkeys : ∀ r ∈ spec.batchIndexes, r < keys.length) :
    spec.resolve (values ++ more) (keys ++ moreKeys) = spec.resolve values keys := by
  induction spec with
  | comparison op left valueRef =>
    have hlt : valueRef < values.length := hvalues valueRef (by simp [Spec.valueRefs])
    simp [Spec.resolve, List.getElem?_append_left hlt]
  | isNull e negated => rfl
  | inSet e set negated =>
    have hlt : set.batchIndex < keys.length := hkeys set.batchIndex (by simp [Spec.batchIndexes])
    simp [Spec.resolve, List.getElem?_append_left hlt]
  | and l r ihl ihr | or l r ihl ihr =>
    simp only [Spec.valueRefs, Spec.batchIndexes, List.mem_append] at hvalues hkeys
    simp only [Spec.resolve]
    rw [ihl (fun r hr => hvalues r (.inl hr)) (fun r hr => hkeys r (.inl hr)),
      ihr (fun r hr => hvalues r (.inr hr)) (fun r hr => hkeys r (.inr hr))]

namespace WirePushdown

def predicates (p : WirePushdown V) : List Predicate := (p.blob.map fun blob => blob.document.predicates).getD []

/-- The predicates under their ids, references followed. -/
def resolved (p : WirePushdown V) : List (String × LivePredicate V) :=
  p.predicates.map fun predicate => (predicate.id, predicate.resolve p.values p.joinKeys)

theorem accepts_iff_resolved (K : Kernel V) (p : WirePushdown V) (read : ColumnRef → ScalarValue V) :
    p.accepts K read ↔ ∀ q ∈ p.resolved, q.2.expression.eval K read = .yes := by
  cases hblob : p.blob with
  | none => simp [accepts, resolved, predicates, hblob]
  | some blob =>
    simp [accepts, resolved, predicates, values, hblob, Predicate.resolve, Spec.eval_resolve]

theorem specs_eq (p : WirePushdown V) : p.specs = p.predicates.map (·.expression) := by
  cases hblob : p.blob <;> simp [specs, predicates, hblob]

end WirePushdown

/-! ## The merged pushdown -/

/-- Appending each column that is not there yet. -/
theorem foldl_appendNew {left right : List Nat} (hright : right.Nodup) :
    right.foldl (fun columns c => if columns.contains c then columns else columns ++ [c]) left =
      left ++ right.filter (· ∉ left) := by
  induction right generalizing left with
  | nil => simp
  | cons c right ih =>
    obtain ⟨hc, hright⟩ := List.nodup_cons.1 hright
    rw [List.foldl_cons, ih hright]
    by_cases hmem : c ∈ left
    · simp [hmem]
    · have hsame : right.filter (· ∉ left ++ [c]) = right.filter (· ∉ left) := by
        refine List.filter_congr ?_
        intro d hd
        have hne : d ≠ c := fun h => hc (h ▸ hd)
        simp [hne]
      simp [hmem] at hsame ⊢
      exact hsame

/-- The conjunction of two pushdowns. -/
structure Merges (K : Kernel V) (a b merged : WirePushdown V) : Prop where
  accepts : ∀ read, merged.accepts K read ↔ a.accepts K read ∧ b.accepts K read
  resolved : merged.resolved = a.resolved ++ b.resolved
  ids : (merged.resolved.map (·.1)).Nodup
  columns : merged.columns = a.columns ++ b.columns.filter (· ∉ a.columns)
  columns_nodup : merged.columns.Nodup
  joinKeys : merged.joinKeys = a.joinKeys ++ b.joinKeys
  predicateCount : merged.predicateCount = a.predicateCount + b.predicateCount

/-- A snapshot that refers to nothing but its own constants and side batches. -/
structure Snapshot (p : WirePushdown V) (predicates : List Predicate) (values : List (ScalarValue V)) : Prop where
  blob : p.blob = some ⟨.snapshot predicates, values⟩
  valueRef_lt : ∀ q ∈ predicates, ∀ r ∈ q.expression.valueRefs, r < values.length
  batchIndex_lt : ∀ q ∈ predicates, ∀ r ∈ q.expression.batchIndexes, r < p.joinKeys.length

theorem Snapshot.resolved {p : WirePushdown V} {predicates : List Predicate} {values : List (ScalarValue V)}
    (h : Snapshot p predicates values) : p.resolved = predicates.map fun q => (q.id, q.resolve values p.joinKeys) := by
  simp [WirePushdown.resolved, WirePushdown.predicates, WirePushdown.values, h.blob, Document.predicates]

theorem Snapshot.ids {p : WirePushdown V} {predicates : List Predicate} {values : List (ScalarValue V)}
    (h : Snapshot p predicates values) : p.resolved.map (·.1) = predicates.map (·.id) := by
  simp [h.resolved, Function.comp_def]

/-- The text of its document can be read back. -/
def WirePushdown.Readable (p : WirePushdown V) : Prop :=
  ∀ blob, p.blob = some blob → blob.document.toJson.depth < recursionLimit

theorem WirePushdown.readable_of_depth {p : WirePushdown V} {n : Nat} (h : p.blob.map (·.document.depth) = some n)
    (hn : n < recursionLimit) : p.Readable := by
  intro blob hblob
  have hdepth : blob.document.depth = n := by simpa [hblob] using h
  rw [Document.depth_toJson, hdepth]
  exact hn

theorem Snapshot.readable_iff {p : WirePushdown V} {predicates : List Predicate} {values : List (ScalarValue V)}
    (h : Snapshot p predicates values) : p.Readable ↔ (Document.snapshot predicates).depth < recursionLimit := by
  simp [WirePushdown.Readable, h.blob, Document.depth_toJson]

/-- Two snapshots that can be read back have a merged one; the left references stay, the right ones are moved. -/
theorem merge_snapshots (K : Kernel V) {a b : WirePushdown V} {as bs : List Predicate} {va vb : List (ScalarValue V)}
    (ha : Snapshot a as va) (hb : Snapshot b bs vb) (hids : (as.map (·.id) ++ bs.map (·.id)).Nodup)
    (hacolumns : a.columns.Nodup) (hbcolumns : b.columns.Nodup) (hreadable : a.Readable ∧ b.Readable) :
    ∃ merged, merge a b = some merged ∧ Merges K a b merged := by
  rw [ha.readable_iff, hb.readable_iff] at hreadable
  refine ⟨_, by rw [merge_of_snapshots ha.blob hb.blob, if_pos hreadable], ?_⟩
  set merged : WirePushdown V := {
    blob := some ⟨.snapshot (as ++ bs.map (·.shift va.length a.joinKeys.length)), va ++ vb⟩
    columns := b.columns.foldl (fun columns c => if columns.contains c then columns else columns ++ [c]) a.columns
    joinKeys := a.joinKeys ++ b.joinKeys
    predicateCount := a.predicateCount + b.predicateCount }
  have hleft : ∀ q ∈ as, q.resolve (va ++ vb) (a.joinKeys ++ b.joinKeys) = q.resolve va a.joinKeys := by
    intro q hq
    simp only [Predicate.resolve]
    rw [Spec.resolve_append vb b.joinKeys (ha.valueRef_lt q hq) (ha.batchIndex_lt q hq)]
  have hright : ∀ q : Predicate, (q.shift va.length a.joinKeys.length).resolve (va ++ vb) (a.joinKeys ++ b.joinKeys) =
      q.resolve vb b.joinKeys := by
    intro q
    simp only [Predicate.resolve, Predicate.shift]
    rw [Spec.resolve_shift]
  have hresolved : merged.resolved = a.resolved ++ b.resolved := by
    have hmerged : merged.resolved = (as ++ bs.map (·.shift va.length a.joinKeys.length)).map fun q =>
        (q.id, q.resolve (va ++ vb) (a.joinKeys ++ b.joinKeys)) := rfl
    rw [hmerged, ha.resolved, hb.resolved, List.map_append, List.map_map]
    congr 1
    · refine List.map_congr_left ?_
      intro q hq
      rw [hleft q hq]
    · refine List.map_congr_left ?_
      intro q _
      simp only [Function.comp_apply, hright]
      rfl
  have hcolumns : merged.columns = a.columns ++ b.columns.filter (· ∉ a.columns) := foldl_appendNew hbcolumns
  refine ⟨?_, hresolved, ?_, hcolumns, ?_, rfl, rfl⟩
  · intro read
    simp only [WirePushdown.accepts_iff_resolved, hresolved, List.mem_append]
    constructor
    · exact fun h => ⟨fun q hq => h q (.inl hq), fun q hq => h q (.inr hq)⟩
    · rintro ⟨hleft, hright⟩ q (hq | hq)
      · exact hleft q hq
      · exact hright q hq
  · rw [hresolved, List.map_append, ha.ids, hb.ids]
    exact hids
  · rw [hcolumns]
    refine List.Nodup.append hacolumns (hbcolumns.filter _) ?_
    intro c hc hc'
    simpa [hc] using (List.mem_filter.1 hc').2

/-! ## The pushdowns of a scan -/

theorem numbered_ids (source idPrefix : String) (specs : List Spec) :
    (numbered source idPrefix 0 specs).map (·.id) =
      (List.range specs.length).map fun i => idPrefix ++ ":" ++ toString i := by
  rw [numbered, List.map_map, List.range_eq_range', ← List.zipIdx_map_snd 0 specs, List.map_map]
  rfl

/-- Static and runtime predicates have different prefixes, those of one kind different positions. -/
theorem ids_nodup (specs specs' : List Spec) :
    ((numbered "query" "query" 0 specs).map (·.id) ++ (numbered "join" "join" 0 specs').map (·.id)).Nodup := by
  rw [numbered_ids, numbered_ids]
  have hinj : ∀ idPrefix : String, Function.Injective fun i : Nat => idPrefix ++ ":" ++ toString i := by
    intro idPrefix i j h
    have hrepr : i.repr = j.repr := by simpa using h
    exact Nat.repr_injective hrepr
  refine List.Nodup.append (List.nodup_range.map (hinj "query")) (List.nodup_range.map (hinj "join")) ?_
  intro id hquery hjoin
  obtain ⟨i, -, rfl⟩ := List.mem_map.1 hquery
  obtain ⟨j, -, h⟩ := List.mem_map.1 hjoin
  exact joinId_ne_query j (toString i) h.symm

theorem Builds.columns_nodup {p : WirePushdown V} {t : Translations V} {specs : List Spec} {b : Builder V}
    (hb : Builds {} t specs b) (hp : p.Carries specs b) : p.columns.Nodup := by
  rcases hp.contents.2 with ⟨-, -, -, -, hcolumns⟩ | ⟨-, -, hcolumns⟩
  · rw [hcolumns]
    exact List.nodup_nil
  · rw [hcolumns]
    exact hb.nodup List.nodup_nil

theorem Snapshot.of_tight {p : WirePushdown V} {nodes : List (Resolved V)} (h : p.Tight nodes) {predicates : List Predicate}
    {values : List (ScalarValue V)} (hblob : p.blob = some ⟨.snapshot predicates, values⟩) : Snapshot p predicates values := by
  have hspecs : p.specs = predicates.map (·.expression) := by
    simp [p.specs_eq, WirePushdown.predicates, hblob, Document.predicates]
  have hvalues : p.values = values := by simp [WirePushdown.values, hblob]
  refine ⟨hblob, ?_, ?_⟩
  · intro q hq r hr
    rw [← hvalues]
    refine h.valueRef_lt r (List.mem_flatMap.2 ⟨q.expression, ?_, hr⟩)
    rw [hspecs]
    exact List.mem_map_of_mem hq
  · intro q hq r hr
    refine h.batchIndex_lt r (List.mem_flatMap.2 ⟨q.expression, ?_, hr⟩)
    rw [hspecs]
    exact List.mem_map_of_mem hq

section
variable {K : Kernel V} {schema table remote : Schema}

theorem serialize_snapshot {exprs : List (Expr V)} {a : WirePushdown V} (h : serialize K table exprs = some a) :
    a = {} ∨ ∃ specs values, Snapshot a (numbered "query" "query" 0 specs) values := by
  have htight := serialize_tight K table h
  unfold serialize at h
  simp only at h
  split at h
  · cases h
    exact .inl rfl
  next hspecs =>
    obtain ⟨p, hp, rfl⟩ := Option.map_eq_some_iff.1 h
    rw [finishSnapshot, if_neg (by simpa using hspecs)] at hp
    obtain ⟨values, -, rfl⟩ := Option.map_eq_some_iff.1 hp
    exact .inr ⟨_, values, .of_tight htight rfl⟩

theorem serializePhysical_snapshot {exprs : List (PhysicalExpr V)} {side : Bool} {b : WirePushdown V}
    (h : serializePhysicalForRemote K schema remote exprs side = some b) :
    ∃ specs values, Snapshot b (numbered "join" "join" 0 specs) values := by
  have htight := serializePhysical_tight K schema remote h
  simp only [serializePhysicalForRemote, finishSnapshot, bne_self_eq_false, Bool.and_false, Bool.false_eq_true, if_false,
    Option.map_map, Option.map_eq_some_iff] at h
  obtain ⟨values, -, rfl⟩ := h
  exact ⟨_, values, .of_tight htight rfl⟩

/-- Whatever else it says, a pushdown without a document adds nothing. -/
theorem merge_blank {e p : WirePushdown V} (he : e.blob = none) (hp : p = {} ∨ p.blob.isSome) :
    merge e p = some p ∧ merge p e = some p := by
  rcases hp with rfl | hp
  · simp [merge, he]
  · obtain ⟨blob, hblob⟩ := Option.isSome_iff_exists.1 hp
    simp [merge, he, hblob]

theorem merges_empty (K : Kernel V) {b : WirePushdown V} (hids : (b.resolved.map (·.1)).Nodup) (hcolumns : b.columns.Nodup) :
    Merges K {} b b where
  accepts read := by simp [WirePushdown.accepts]
  resolved := by simp [WirePushdown.resolved, WirePushdown.predicates]
  ids := hids
  columns := by simp
  columns_nodup := hcolumns
  joinKeys := by simp
  predicateCount := by simp

/-- A snapshot that is too deep to be read back is not merged with another. -/
theorem merge_unreadable {a b : WirePushdown V} {as bs : List Predicate} {va vb : List (ScalarValue V)} (ha : Snapshot a as va)
    (hb : Snapshot b bs vb) (h : ¬ (a.Readable ∧ b.Readable)) : merge a b = none := by
  rw [ha.readable_iff, hb.readable_iff] at h
  rw [merge_of_snapshots ha.blob hb.blob, if_neg h]

/-- **Merging is conjunction, where both texts can be read back**: the static pushdown and the snapshot of the runtime
filters have a merged document, written as `merge` writes it, whose predicates are those of both with their references
leading where they led, exactly if there is no static document or neither is too deep. -/
theorem merge_is_conjunction_iff {exprs : List (Expr V)} {snapshots : List (PhysicalExpr V)} {side : Bool} {a b : WirePushdown V}
    (ha : serialize K table exprs = some a) (hb : serializePhysicalForRemote K schema remote snapshots side = some b) :
    ((∃ merged, merge a b = some merged ∧ mergeWritten a.written b.written = some merged.written ∧ Merges K a b merged) ↔
      a.blob = none ∨ a.Readable ∧ b.Readable) ∧
      ∀ e : WirePushdown V, e.blob = none →
        (merge e a = some a ∧ merge a e = some a) ∧ (merge e b = some b ∧ merge b e = some b) := by
  have hacolumns := (buildAll_builds K table exprs {}).columns_nodup (serialize_carries K ha)
  have hbcolumns := (buildPhysicalAll_builds K schema remote side snapshots {}).columns_nodup
    (serializePhysicalForRemote_carries K hb)
  obtain ⟨joins, vb, hjoin⟩ := serializePhysical_snapshot hb
  have hblob : b.blob.isSome := by simp [hjoin.blob]
  rcases serialize_snapshot ha with rfl | ⟨queries, va, hquery⟩
  · refine ⟨iff_of_true ⟨b, ?_, ?_, merges_empty K ?_ hbcolumns⟩ (.inl rfl),
      fun e he => ⟨merge_blank he (.inl rfl), merge_blank he (.inr hblob)⟩⟩
    · exact (merge_blank rfl (.inr hblob)).1
    · rw [mergeWritten_written, (merge_blank rfl (.inr hblob)).1, Option.map_some]
    · rw [hjoin.ids]
      exact (ids_nodup [] joins).of_append_right
  · have hdocument : a.blob.isSome := by simp [hquery.blob]
    refine ⟨⟨?_, ?_⟩, fun e he => ⟨merge_blank he (.inr hdocument), merge_blank he (.inr hblob)⟩⟩
    · rintro ⟨merged, hmerged, -⟩
      by_contra hnot
      rw [not_or] at hnot
      rw [merge_unreadable hquery hjoin hnot.2] at hmerged
      cases hmerged
    · rintro (hnone | hreadable)
      · rw [hnone] at hdocument
        cases hdocument
      · obtain ⟨merged, hmerged, hmerges⟩ :=
          merge_snapshots K hquery hjoin (ids_nodup queries joins) hacolumns hbcolumns hreadable
        exact ⟨merged, hmerged, by rw [mergeWritten_written, hmerged, Option.map_some], hmerges⟩

end

/-- Two disjunctions over four literals, and a struct `IN` of two side batches with a range. -/
theorem merge_is_conjunction_disjunctions : ∃ a b merged,
    serialize Kernel.integers integerColumns [guardedSum, plainOr] = some a ∧ a.values.length = 4 ∧
      serializePhysicalForRemote Kernel.integers integerColumns workerColumns [tupleFilter] true = some b ∧
        b.joinKeys.length = 2 ∧ (a.Readable ∧ b.Readable) ∧ merge a b = some merged ∧ Merges Kernel.integers a b merged := by
  obtain ⟨a, ha, hvalues, hleft⟩ : ∃ a, serialize Kernel.integers integerColumns [guardedSum, plainOr] = some a ∧
      a.values.length = 4 ∧ a.blob.map (·.document.depth) = some 7 := ⟨_, rfl, rfl, rfl⟩
  obtain ⟨b, hb, hkeys, hright⟩ : ∃ b, serializePhysicalForRemote Kernel.integers integerColumns workerColumns
      [tupleFilter] true = some b ∧ b.joinKeys.length = 2 ∧ b.blob.map (·.document.depth) = some 5 := ⟨_, rfl, rfl, rfl⟩
  have hreadable : a.Readable ∧ b.Readable :=
    ⟨WirePushdown.readable_of_depth hleft (by decide), WirePushdown.readable_of_depth hright (by decide)⟩
  obtain ⟨merged, hmerged, -, hmerges⟩ := (merge_is_conjunction_iff ha hb).1.2 (.inr hreadable)
  exact ⟨a, b, merged, ha, hvalues, hb, hkeys, hreadable, hmerged, hmerges⟩

/-- `a > 0 OR b > 1 OR a > 2 OR ...`, nested to the left as it is parsed. -/
def manyOr : Nat → Expr Int
  | 0 => .binary (.column none "a") (.cmp .gt) (.literal (integer 0))
  | n + 1 => .binary (manyOr n) .or
      (.binary (.column none (if n % 2 = 0 then "b" else "a")) (.cmp .gt) (.literal (integer (n + 1))))

/-- With 62 `OR`s and a runtime filter that has not arrived yet there is no merged document. -/
theorem merge_too_deep : ∃ a b, serialize Kernel.integers integerColumns [manyOr 62] = some a ∧
    serializePhysicalForRemote Kernel.integers integerColumns integerColumns [] true = some b ∧
      ¬ ∃ merged, merge a b = some merged ∧ Merges Kernel.integers a b merged := by
  have hmerge : ((serialize Kernel.integers integerColumns [manyOr 62]).bind fun a =>
      (serializePhysicalForRemote Kernel.integers integerColumns integerColumns [] true).map fun b =>
        (merge a b).isNone) = some true := by decide +kernel
  obtain ⟨a, ha, hmerge⟩ := Option.bind_eq_some_iff.1 hmerge
  obtain ⟨b, hb, hnone⟩ := Option.map_eq_some_iff.1 hmerge
  refine ⟨a, b, ha, hb, ?_⟩
  rintro ⟨merged, hmerged, -⟩
  rw [hmerged] at hnone
  cases hnone

end VgiDatafusion
