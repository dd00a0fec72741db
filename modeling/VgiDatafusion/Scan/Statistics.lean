import VgiDatafusion.Filters.Exact

/-!
# Row counts a scan reports

| here | there |
| --- | --- |
| `Precision` | DataFusion's `Precision<usize>` |
| `cardinalityRows` | `num_rows` of `cardinality_statistics` (lib.rs:4415-4441) |
| `scanRows` | `num_rows` of a non-split `VgiScanExec::new` (lib.rs:2841-2848) |
| `Sample` | `vgi_client::Sample`, the percentage as its bits |
| `Worker` | what the claims about a worker allow it to do with a pushed filter and a sample |

The count is the table's, taken from catalog discovery; the filters and the sample of the same scan
do not enter it. DataFusion answers `COUNT(*)` from an exact count without scanning.
-/
namespace VgiDatafusion

inductive Precision
  | exact (n : Nat) | inexact (n : Nat) | absent
  deriving DecidableEq, Repr

/-- `usize::try_from` of an `i64`. -/
def usizeOf (value : Int) : Option Nat := if 0 ≤ value then some value.toNat else none

/-- `num_rows` of `cardinality_statistics` (`lib.rs:4415-4441`). -/
def cardinalityRows (estimate maximum : Option Int) : Option Precision :=
  if estimate.isNone && maximum.isNone then none
  else match estimate.bind usizeOf, maximum.bind usizeOf with
    | some estimate, some maximum => some (if estimate = maximum then .exact estimate else .inexact estimate)
    | some estimate, none => some (.inexact estimate)
    | none, _ => some .absent

/-- A scan without a split plan reports the declared cardinality, or nothing. -/
def scanRows (t : TableProvider) : Precision :=
  (cardinalityRows t.cardinalityEstimate t.cardinalityMax).getD .absent

structure Sample where
  percentageBits : UInt64
  seed : Option Int64
  deriving DecidableEq, Repr

/-- 100.0. -/
def Sample.everything (s : Sample) : Bool := s.percentageBits == 0x4059000000000000

variable {V : Type} (K : Kernel V)

instance (p : WirePushdown V) (read : ColumnRef → ScalarValue V) : Decidable (p.accepts K read) :=
  inferInstanceAs (Decidable (∀ blob ∈ p.blob, ∀ predicate ∈ blob.document.predicates,
    predicate.expression.eval K read blob.values p.joinKeys = .yes))

/-- The rows on which every pushed predicate is TRUE. -/
def passing {schema : Schema} (p : WirePushdown V) (rows : List (Row V schema)) : List (Row V schema) :=
  rows.filter fun row => p.accepts K row.lookup

/-- A worker: a pushed filter is advice unless it is advertised as exactly applied, and a sample is
some of the rows, all of them at 100 percent. -/
structure Worker (t : TableProvider) where
  filter : WirePushdown V → List (Row V t.outputSchema) → List (Row V t.outputSchema)
  filter_keeps : ∀ p rows, (passing K p rows).Sublist (filter p rows)
  filter_drops : ∀ p rows, (filter p rows).Sublist rows
  filter_exact : t.filtersExactlyApplied = true → ∀ p rows, filter p rows = passing K p rows
  sample : Sample → List (Row V t.outputSchema) → List (Row V t.outputSchema)
  sample_drops : ∀ s rows, (sample s rows).Sublist rows
  sample_everything : ∀ s rows, s.everything = true → sample s rows = rows

variable {K} {t : TableProvider}

/-- The rows a scan without a limit emits over all its partitions. -/
def Worker.emit (W : Worker K t) (p : WirePushdown V) (sample : Option Sample)
    (rows : List (Row V t.outputSchema)) : List (Row V t.outputSchema) :=
  match sample with
  | none => W.filter p rows
  | some s => W.sample s (W.filter p rows)

theorem Worker.emit_sublist (W : Worker K t) (p : WirePushdown V) (sample : Option Sample)
    (rows : List (Row V t.outputSchema)) : (W.emit p sample rows).Sublist (W.filter p rows) := by
  cases sample with
  | none => exact List.Sublist.refl _
  | some s => exact W.sample_drops s _

theorem passing_eq_self_iff {p : WirePushdown V} {rows : List (Row V t.outputSchema)} :
    passing K p rows = rows ↔ ∀ row ∈ rows, p.accepts K row.lookup := by
  simp [passing, List.filter_eq_self]

/-- Nothing to drop, nothing dropped. -/
theorem Worker.emit_eq_self (W : Worker K t) {p : WirePushdown V} {sample : Option Sample}
    {rows : List (Row V t.outputSchema)} (haccepts : ∀ row ∈ rows, p.accepts K row.lookup)
    (hsample : (∀ s ∈ sample, s.everything = true) ∨ rows = []) : W.emit p sample rows = rows := by
  have hfilter : W.filter p rows = rows := by
    have hkeeps := W.filter_keeps p rows
    rw [passing_eq_self_iff.2 haccepts] at hkeeps
    exact (W.filter_drops p rows).antisymm hkeeps
  rcases hsample with hsample | rfl
  · cases sample with
    | none => exact hfilter
    | some s =>
      simp only [emit, hfilter]
      exact W.sample_everything s rows (hsample s rfl)
  · have hnil := W.emit_sublist p sample []
    rw [hfilter] at hnil
    exact List.sublist_nil.1 hnil

/-- The worker that drops all it may: it applies every filter, and a partial sample keeps nothing. -/
def strictWorker (K : Kernel V) (t : TableProvider) : Worker K t where
  filter := passing K
  filter_keeps _ _ := List.Sublist.refl _
  filter_drops _ _ := List.filter_sublist
  filter_exact _ _ _ := rfl
  sample s rows := if s.everything then rows else []
  sample_drops s rows := by
    split
    · exact List.Sublist.refl _
    · exact List.nil_sublist _
  sample_everything s rows h := if_pos h

/-- The strict worker returns everything only when nothing may be dropped. -/
theorem strictWorker_emit_length {p : WirePushdown V} {sample : Option Sample} {rows : List (Row V t.outputSchema)}
    (h : ((strictWorker K t).emit p sample rows).length = rows.length) :
    (∀ row ∈ rows, p.accepts K row.lookup) ∧ ((∀ s ∈ sample, s.everything = true) ∨ rows = []) := by
  have hle := ((strictWorker K t).emit_sublist p sample rows).length_le
  have hpassing : passing K p rows = rows := by
    refine List.Sublist.eq_of_length List.filter_sublist (Nat.le_antisymm List.filter_sublist.length_le ?_)
    rw [h] at hle
    exact hle
  refine ⟨passing_eq_self_iff.1 hpassing, ?_⟩
  by_cases hrows : rows = []
  · exact Or.inr hrows
  · refine Or.inl fun s hs => ?_
    by_cases heverything : s.everything = true
    · exact heverything
    · obtain rfl : sample = some s := hs
      simp only [Worker.emit, strictWorker, heverything] at h
      exact absurd (List.length_eq_zero_iff.1 h.symm) hrows

/-- What the pushed filters leave of the table: everything if pushdown was declined, else the rows the
kept part of every pushable filter accepts. -/
def Survives (K : Kernel V) (t : TableProvider) (filters : List (Expr V)) (row : Row V t.outputSchema) : Prop :=
  t.filterPushdown = some false ∨
    ∀ f ∈ filters, isPushable K t.outputSchema f = true → (kept K t.outputSchema f).accepts K row

theorem scanPushdown_accepts_iff {filters : List (Expr V)} {p : WirePushdown V}
    (hp : t.scanPushdown K filters = some p) (row : Row V t.outputSchema) :
    p.accepts K row.lookup ↔ Survives K t filters row := by
  unfold TableProvider.scanPushdown at hp
  split at hp
  · rename_i hdeclined
    cases hp
    simp [WirePushdown.accepts, Survives, hdeclined]
  · rename_i hdeclined
    rw [serialize_accepts_iff hp (row.lookup_resolves t.outputSchema)]
    simp [Survives, hdeclined]

/-- **When an exact row count is true** of every worker that keeps its promises: no exact count is
reported, or neither the pushed filters nor the sample can drop a row of the table. -/
theorem scanRows_exact_iff {filters : List (Expr V)} {p : WirePushdown V} (hp : t.scanPushdown K filters = some p)
    (sample : Option Sample) {table : List (Row V t.outputSchema)}
    (hdeclared : ∀ n, scanRows t = .exact n → table.length = n) :
    (∀ (W : Worker K t) (n : Nat), scanRows t = .exact n → (W.emit p sample table).length = n) ↔
      ((∀ n, scanRows t ≠ .exact n) ∨
        ((∀ row ∈ table, Survives K t filters row) ∧ ((∀ s ∈ sample, s.everything = true) ∨ table = []))) := by
  simp only [← scanPushdown_accepts_iff hp]
  constructor
  · intro h
    cases hrows : scanRows t with
    | exact n =>
      refine Or.inr (strictWorker_emit_length ?_)
      rw [h (strictWorker K t) n hrows, hdeclared n hrows]
    | inexact n => exact Or.inl fun n' => by simp
    | absent => exact Or.inl fun n' => by simp
  · rintro (hinexact | ⟨haccepts, hsample⟩) W n hn
    · exact absurd hn (hinexact n)
    · rw [W.emit_eq_self haccepts hsample]
      exact hdeclared n hn

/-- A table declared to have exactly one row. -/
def oneRowTable : TableProvider := { exactTable with cardinalityEstimate := some 1, cardinalityMax := some 1 }

theorem scanRows_exact_iff_matching :
    scanRows oneRowTable = .exact 1 ∧
      ∃ p, oneRowTable.scanPushdown Kernel.integers [equalsOne "a"] = some p ∧
        ∀ W : Worker Kernel.integers oneRowTable,
          (W.emit p (some ⟨0x4059000000000000, none⟩) [integerRow 1 2 3]).length = 1 := by
  refine ⟨by decide, ?_⟩
  obtain ⟨p, hp⟩ : ∃ p, oneRowTable.scanPushdown Kernel.integers [equalsOne "a"] = some p := ⟨_, rfl⟩
  refine ⟨p, hp, fun W => ?_⟩
  have hdeclared : ∀ n, scanRows oneRowTable = .exact n → [integerRow 1 2 3].length = n := by
    intro n hn
    rw [show scanRows oneRowTable = .exact 1 by decide] at hn
    cases hn
    rfl
  refine (scanRows_exact_iff hp (some ⟨0x4059000000000000, none⟩) hdeclared).2 (Or.inr ⟨?_, Or.inl ?_⟩) W 1 (by decide)
  · intro row hrow
    obtain rfl := List.mem_singleton.1 hrow
    refine Or.inr fun f hf _ => ?_
    obtain rfl := List.mem_singleton.1 hf
    unfold Expr.accepts
    decide
  · intro s hs
    cases hs
    rfl

/-- The filter `a = 1` is answered `Exact` and applied by the worker, so the scan emits nothing of the
row `(0, 2, 3)`; it still reports exactly one row. -/
theorem filtered_count_wrong :
    oneRowTable.supportsFiltersPushdown Kernel.integers [equalsOne "a"] = [.exact] ∧
      scanRows oneRowTable = .exact 1 ∧ [integerRow 0 2 3].length = 1 ∧
      ∃ p, oneRowTable.scanPushdown Kernel.integers [equalsOne "a"] = some p ∧
        ((strictWorker Kernel.integers oneRowTable).emit p none [integerRow 0 2 3]).length = 0 := by
  refine ⟨by decide, by decide, rfl, ?_⟩
  obtain ⟨p, hp⟩ : ∃ p, oneRowTable.scanPushdown Kernel.integers [equalsOne "a"] = some p := ⟨_, rfl⟩
  refine ⟨p, hp, ?_⟩
  rw [List.length_eq_zero_iff]
  refine List.filter_eq_nil_iff.2 fun row hrow => ?_
  intro hrowAccepts
  rcases (scanPushdown_accepts_iff hp row).1 (of_decide_eq_true hrowAccepts) with hdeclined | hkept
  · exact absurd hdeclined (by decide)
  · have haccepts := hkept (equalsOne "a") (List.mem_singleton_self _) (by decide)
    obtain rfl := List.mem_singleton.1 hrow
    unfold Expr.accepts at haccepts
    exact absurd haccepts (by decide)

end VgiDatafusion
