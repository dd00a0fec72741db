import VgiDatafusion.Cache.ScalarAssembly
import VgiDatafusion.Library.Framing

/-!
# Tables of numbers

Batches small enough to run the scalar call on: `tableReading` shows that what is asked of Arrow can be had, and
`cellKey` that keys can tell the rows of one column apart.
-/
namespace VgiDatafusion

open Program Exchange Framing

structure NumberTable where
  width : Nat
  rows : List (List Nat)
  deriving DecidableEq

namespace NumberTable

def column (t : NumberTable) : List Nat := t.rows.map (·.headD 0)

def at? {α : Type} (xs : List α) (i : Nat) : Except String α := (xs[i]?).elim (.error "out of bounds") .ok

def slice (t : NumberTable) (offset length : Nat) : NumberTable := { t with rows := (t.rows.drop offset).take length }

def concat (t : NumberTable) (ts : List NumberTable) : Except String NumberTable :=
  if ts.all (·.width = t.width) then .ok { t with rows := (t :: ts).flatMap (·.rows) } else .error "schemas differ"

end NumberTable

def tableOps : ScalarOps NumberTable (List Nat) where
  rows t := t.rows.length
  columns t := t.width
  memorySize t := 8 * t.width * t.rows.length
  slice := NumberTable.slice
  concatInputs
    | [] => .ok ⟨0, []⟩
    | t :: ts => t.concat ts
  concatOutputs ts :=
    if ts.all (·.width ≠ 0) then .ok ⟨1, ts.flatMap fun t => t.rows.map (·.take 1)⟩ else .error "no column"
  take t indices := (indices.mapM (NumberTable.at? t.rows)).map fun rows => ⟨t.width, rows⟩
  gather t indices := (indices.mapM (NumberTable.at? t.column)).map fun cells => ⟨1, cells.map fun cell => [cell]⟩
  hasOutputSchema t := t.width = 1
  batchOf columns rows :=
    if columns.all (·.length = rows) then .ok ⟨columns.length, (List.range rows).map fun i => columns.map (·.getD i 0)⟩
    else .error "lengths differ"
  writeBatch t :=
    match t.rows with
    | [[x]] => if x < 256 ^ 8 then .ok (littleEndian 8 x) else .error "too large"
    | _ => .error "not one cell"
  column := NumberTable.column
  takeColumn column indices := indices.mapM (NumberTable.at? column)
  broadcast column rows := (column.head?).elim (.error "no row") fun x => .ok (List.replicate rows x)

theorem taken_mapM {α : Type} {xs : List α} {indices : List Nat} {out : List α}
    (h : indices.mapM (NumberTable.at? xs) = .ok out) : Taken xs indices out := by
  rw [ListFacts.mapM_ok_iff] at h
  refine h.imp ?_
  intro i x hx
  unfold NumberTable.at? at hx
  cases hi : xs[i]? with
  | none =>
    rw [hi] at hx
    cases hx
  | some y =>
    rw [hi] at hx
    cases hx
    rfl

theorem taken_column {t : NumberTable} {indices : List Nat} {rows : List (List Nat)} {width : Nat}
    (h : indices.mapM (NumberTable.at? t.rows) = .ok rows) :
    Taken t.column indices (NumberTable.column ⟨width, rows⟩) := by
  rw [Taken, NumberTable.column, NumberTable.column, List.forall₂_map_right_iff]
  refine (taken_mapM h).imp ?_
  intro i row hrow
  rw [List.getElem?_map, hrow, Option.map_some]

theorem ok_of_map {α β : Type} {x : Except String α} {f : α → β} {b : β} (h : x.map f = .ok b) :
    ∃ a, x = .ok a ∧ b = f a := by
  cases x with
  | error e => cases h
  | ok a =>
    cases h
    exact ⟨a, rfl, rfl⟩

theorem rowAt_table {columns : List (List Nat)} {rows : Nat} (h : ∀ c ∈ columns, c.length = rows) {i : Nat}
    (hi : i < rows) :
    (columns.map (·.getD i 0)).map some = rowAt (fun column => column) columns i := by
  rw [rowAt, List.map_map]
  apply List.map_congr_left
  intro c hc
  have hlt : i < c.length := by
    rw [h c hc]
    exact hi
  simp [List.getElem?_eq_getElem hlt]

theorem cell_of_writeBatch {t : NumberTable} {bytes : List UInt8} (h : tableOps.writeBatch t = .ok bytes) :
    ∃ x, t.rows = [[x]] ∧ x < 256 ^ 8 ∧ bytes = littleEndian 8 x := by
  simp only [tableOps] at h
  split at h
  next x hx =>
    split at h
    next hlt =>
      cases h
      exact ⟨x, hx, hlt, rfl⟩
    next => cases h
  next => cases h

def tableReading : ScalarReading tableOps Nat where
  cells column := column
  inputRows t := t.rows.map (·.map some)
  rows_eq t := by simp [tableOps]
  batchOf := by
    intro columns rows t h
    simp only [tableOps] at h
    split at h
    next hall =>
      cases h
      rw [List.map_map]
      apply List.map_congr_left
      intro i hi
      exact rowAt_table (by simpa using hall) (List.mem_range.1 hi)
    next => cases h
  slice t i n := by simp [tableOps, NumberTable.slice, List.map_take, List.map_drop]
  concatInputs := by
    intro ts t h
    cases ts with
    | nil =>
      cases h
      rfl
    | cons first rest =>
      simp only [tableOps, NumberTable.concat] at h
      split at h
      next =>
        cases h
        rw [List.map_flatMap]
      next => cases h
  writeBatch := by
    intro a b bytes ha hb
    obtain ⟨x, hx, hlt, rfl⟩ := cell_of_writeBatch ha
    obtain ⟨y, hy, hlt', heq⟩ := cell_of_writeBatch hb
    rw [hx, hy, littleEndian_inj hlt hlt' heq]
  length_column t _ := by simp [tableOps, NumberTable.column]
  columns_slice _ _ _ := rfl
  column_slice t i n _ := by simp [tableOps, NumberTable.column, NumberTable.slice, List.map_take, List.map_drop]
  take := by
    intro t indices out _ h
    obtain ⟨rows, hrows, rfl⟩ := ok_of_map h
    exact taken_column hrows
  gather := by
    intro ts t indices out hconcat h
    obtain ⟨cells, hcells, rfl⟩ := ok_of_map h
    simp only [tableOps] at hconcat
    split at hconcat
    next hall =>
      cases hconcat
      refine ⟨by simpa [tableOps] using hall, ?_⟩
      have hcolumn : (ts.flatMap fun t => t.rows.map (·.take 1)).map (·.headD 0) = ts.flatMap (·.column) := by
        rw [List.map_flatMap]
        simp only [List.map_map]
        refine congrArg (fun f => ts.flatMap f) (funext fun t => List.map_congr_left ?_)
        intro row _
        cases row with
        | nil => rfl
        | cons x xs => rfl
      have htaken := taken_mapM hcells
      rw [NumberTable.column, hcolumn] at htaken
      have hout : (cells.map fun cell => [cell]).map (·.headD 0) = cells := by
        rw [List.map_map]
        exact List.map_id cells
      change Taken _ indices ((cells.map fun cell => [cell]).map (·.headD 0))
      rw [hout]
      exact htaken
    next => cases hconcat
  takeColumn := taken_mapM
  broadcast := by
    intro column rows out h
    cases column with
    | nil => cases h
    | cons x xs =>
      cases h
      exact ⟨x, rfl, rfl⟩

/-! ## Keys -/

/-- The cell of a row of one column, as 32 bytes. -/
def cellKey : Template (List UInt8) NumberTable where
  inputDigest t :=
    match t.rows with
    | [row] => .ok (littleEndian 32 (row.headD 0))
    | _ => .error "not one row"
  keyForDigest digest := digest
  keyForUnorderedInputs _ := .error "unused"

def cellHistory (given : InputRow Nat → Nat → Prop) (refresh : Conditions → Prop) : ScalarHistory (List UInt8) Nat where
  stands key := [some (readLittleEndian key)]
  given
  refresh

/-- A call with one column of numbers. -/
def columnCall (settings : ScalarSettings) (xs : List Nat) : ExchangeM (List UInt8) NumberTable (List Nat) :=
  invokeAsyncWithArgs tableOps "f" "f" .stable settings [xs] xs.length

/-- The rows it is called with. -/
def columnRows (xs : List Nat) : List (InputRow Nat) := callerRows tableReading [xs] xs.length

theorem columnRows_eq (xs : List Nat) : columnRows xs = xs.map fun n => [some n] := by
  apply List.ext_getElem
  · simp [columnRows, callerRows]
  · intro i hi hi'
    have hlt : i < xs.length := by simpa using hi'
    simp [columnRows, callerRows, rowAt, tableReading, List.getElem?_eq_getElem hlt]

theorem cellKey_stands {given : InputRow Nat → Nat → Prop} {refresh : Conditions → Prop} {xs : List Nat}
    (h : ∀ n ∈ xs, n < 256 ^ 32) :
    Scalar.KeysRows tableReading (cellHistory given refresh) (columnRows xs) cellKey := by
  intro t x hx digest hrow hdigest
  rw [columnRows_eq] at hx
  obtain ⟨n, hn, rfl⟩ := List.mem_map.1 hx
  simp only [tableReading] at hrow
  simp only [cellKey] at hdigest
  split at hdigest
  next row hrows =>
    cases hdigest
    rw [hrows, List.map_singleton, List.singleton_inj] at hrow
    cases row with
    | nil => cases hrow
    | cons m rest =>
      have hm : m = n := by simpa using (List.cons.inj hrow).1
      subst hm
      exact congrArg (fun k => [some k]) (readLittleEndian_littleEndian (h m hn))
  next => cases hdigest

end VgiDatafusion
