import Mathlib.Data.List.Perm.Basic
import Mathlib.Data.List.Sort
import VgiDatafusion.Scan.Conform
import VgiDatafusion.Scan.Keys

/-!
# The key of a whole unordered input (table_input.rs:478-581)

| here | there |
| --- | --- |
| `ExchangeCacheKeyTemplate` | its namesake, the fields in the source's order |
| `hashExchangeField` | `hash_exchange_field`; the state of the hasher is what it was fed |
| `keyForDigest`, `keyForUnorderedInputs` | `key_for_digest`, `key_for_unordered_inputs` |
| `Encoders` | `Sha256`, and the IPC writer of `vgi_protocol` |

A row reaches the key as the digest of its own IPC encoding, and the digests are sorted: the key keeps
how often each row occurs and nothing else of the input (`keyForUnorderedInputs_eq_iff`). A digest has 32
bytes, so no hash is free of collisions; none among what the two calls feed it is enough.
-/
namespace VgiDatafusion

open Framing ListFacts

abbrev Digest := Vector UInt8 32

/-- `Sha256` and the IPC writer, of which nothing else is known. -/
structure Encoders (V : Type) where
  sha256 : List UInt8 → Digest
  writeBatch : RecordBatch V → Except String (List UInt8)
  writeSchema : Schema → Except String (List UInt8)

/-- `ExchangeCacheKeyTemplate` (`table_input.rs:483-491`). -/
structure ExchangeCacheKeyTemplate where
  catalog : String
  identityScope : String
  workerLabel : String
  function : String
  catalogVersion : Int64
  settings : List UInt8
  staticDigest : Digest
  deriving DecidableEq

/-- A `CacheKey` with its `plan`. -/
structure ExchangeCacheKey extends CacheKey where
  plan : Option (List UInt8)
  deriving DecidableEq

/-- `hash_exchange_field` (`table_input.rs:576-581`): the length of a field goes before its bytes. -/
def hashExchangeField (digest field : List UInt8) : List UInt8 := digest ++ framed field

/-- `b"vgi_buffered_whole_input_multiset_v2"`. -/
def multisetTag : List UInt8 :=
  [118, 103, 105, 95, 98, 117, 102, 102, 101, 114, 101, 100, 95, 119, 104, 111, 108, 101, 95, 105, 110, 112, 117,
   116, 95, 109, 117, 108, 116, 105, 115, 101, 116, 95, 118, 50]

theorem Digest.length_toList (d : Digest) : d.toList.length = 32 := by simp

theorem Digest.fits (d : Digest) : d.toList.length < 2 ^ 63 := by
  rw [d.length_toList]
  decide

def Digest.toBuffer (d : Digest) : Buffer := { bytes := d.toList, fits := d.fits }

/-- Arrays of bytes compare byte by byte. -/
def Digest.le (a b : Digest) : Prop := a.toList ≤ b.toList

instance Digest.decidableLe : DecidableRel Digest.le := fun a b => inferInstanceAs (Decidable (a.toList ≤ b.toList))

/-- `input.slice(row, 1)` for every row. -/
def RecordBatch.oneRowSlices {V : Type} (input : RecordBatch V) : List (RecordBatch V) :=
  (List.range input.rows).map fun row => input.slice row 1

variable {V : Type} (E : Encoders V)

def Encoders.rowDigest (row : RecordBatch V) : Except String Digest := (E.writeBatch row).map E.sha256

namespace ExchangeCacheKeyTemplate

variable (template : ExchangeCacheKeyTemplate)

/-- `ExchangeCacheKeyTemplate::key_for_digest` (`table_input.rs:508-529`). -/
def keyForDigest (inputDigest : Digest) : ExchangeCacheKey where
  catalog := template.catalog
  identityScope := template.identityScope
  workerLabel := template.workerLabel
  function := template.function
  arguments := template.staticDigest.toBuffer
  projection := none
  filters := none
  catalogVersion := template.catalogVersion
  atCoordinate := none
  settings := template.settings
  attachOptions := []
  rowLimit := none
  ordering := none
  sample := none
  plan := some inputDigest.toList

/-- What the hasher is fed for the whole input. -/
def multisetMessage (inputSchema : List UInt8) (rows : List Digest) : List UInt8 :=
  let digest := hashExchangeField [] multisetTag
  let digest := hashExchangeField digest template.staticDigest.toList
  let digest := hashExchangeField digest inputSchema
  let digest := hashExchangeField digest (littleEndian 8 rows.length)
  rows.foldl (fun digest row => hashExchangeField digest row.toList) digest

/-- What is hashed of the whole input: its row count, then the sorted digests of its rows. -/
def wholeMessage (inputs : List (RecordBatch V)) (inputSchema : Schema) : Except String (List UInt8) := do
  let rows ← (inputs.flatMap RecordBatch.oneRowSlices).mapM E.rowDigest
  let inputSchema ← E.writeSchema inputSchema
  return template.multisetMessage inputSchema (rows.insertionSort Digest.le)

/-- `ExchangeCacheKeyTemplate::key_for_unordered_inputs` (`table_input.rs:546-573`). -/
def keyForUnorderedInputs (inputs : List (RecordBatch V)) (inputSchema : Schema) : Except String ExchangeCacheKey :=
  (template.wholeMessage E inputs inputSchema).map fun message => template.keyForDigest (E.sha256 message)

/-- Everything the call hashes: each encoded row, and the message over their digests. -/
def hashed (inputs : List (RecordBatch V)) (inputSchema : Schema) : List (List UInt8) :=
  (inputs.flatMap RecordBatch.oneRowSlices).filterMap (fun row => (E.writeBatch row).toOption) ++
    (template.wholeMessage E inputs inputSchema).toOption.toList

end ExchangeCacheKeyTemplate

/-! ## Sorted digests -/

instance Digest.total_le : Std.Total Digest.le := ⟨fun a b => List.le_total a.toList b.toList⟩

instance Digest.trans_le : IsTrans Digest Digest.le := ⟨fun _ _ _ hab hbc => List.le_trans hab hbc⟩

theorem Digest.le_antisymm {a b : Digest} (hab : Digest.le a b) (hba : Digest.le b a) : a = b :=
  Vector.toList_inj.1 (List.le_antisymm hab hba)

/-- Sorting forgets the order and keeps how often each digest occurs. -/
theorem sorted_eq_iff {xs ys : List Digest} :
    xs.insertionSort Digest.le = ys.insertionSort Digest.le ↔ xs.Perm ys := by
  have hxs := List.perm_insertionSort Digest.le xs
  have hys := List.perm_insertionSort Digest.le ys
  constructor
  · intro h
    rw [h] at hxs
    exact hxs.symm.trans hys
  · intro h
    have hperm := hxs.trans (h.trans hys.symm)
    have hsorted := List.pairwise_insertionSort Digest.le xs
    have hsorted' := List.pairwise_insertionSort Digest.le ys
    exact hperm.eq_of_pairwise (fun _ _ _ _ => Digest.le_antisymm) hsorted hsorted'

/-! ## The message read back -/

theorem foldl_hashExchangeField (digest : List UInt8) (rows : List Digest) :
    rows.foldl (fun digest row => hashExchangeField digest row.toList) digest =
      digest ++ frames (rows.map (·.toList)) := by
  induction rows generalizing digest with
  | nil => simp [frames]
  | cons row rows ih =>
    rw [List.foldl_cons, ih]
    simp [hashExchangeField, frames]

theorem multisetMessage_eq (template : ExchangeCacheKeyTemplate) (inputSchema : List UInt8) (rows : List Digest) :
    template.multisetMessage inputSchema rows =
      (framed multisetTag ++ framed template.staticDigest.toList ++ framed inputSchema) ++
        (framed (littleEndian 8 rows.length) ++ frames (rows.map (·.toList))) := by
  simp only [ExchangeCacheKeyTemplate.multisetMessage, foldl_hashExchangeField]
  simp [hashExchangeField]

/-- One schema, one template: the message tells the sorted digests, however many there are. -/
theorem multisetMessage_inj {template : ExchangeCacheKeyTemplate} {inputSchema : List UInt8} {xs ys : List Digest}
    (h : template.multisetMessage inputSchema xs = template.multisetMessage inputSchema ys) : xs = ys := by
  rw [multisetMessage_eq, multisetMessage_eq] at h
  have hrest := List.append_cancel_left h
  have hwidth : ∀ n, (littleEndian 8 n).length < 2 ^ 64 := by
    intro n
    simp
  have hdigest : ∀ zs : List Digest, ∀ z ∈ zs.map (·.toList), z.length < 2 ^ 64 := by
    intro zs z hz
    obtain ⟨d, -, rfl⟩ := List.mem_map.1 hz
    simp
  obtain ⟨-, hframes⟩ := framed_append_inj (hwidth _) (hwidth _) hrest
  have hlists := frames_inj (hdigest xs) (hdigest ys) hframes
  exact List.map_injective_iff.2 (fun _ _ => Vector.toList_inj.1) hlists

/-! ## Rows and their digests -/

/-- One-row batches with the same bytes hold the same row. -/
def Encoders.RowInjective (schema : Schema) : Prop :=
  ∀ (a b : RecordBatch V) (bytes : List UInt8), a.schema = schema → b.schema = schema → a.rows = 1 → b.rows = 1 →
    E.writeBatch a = .ok bytes → E.writeBatch b = .ok bytes → a.row 0 = b.row 0

/-- No two of these messages share a digest. -/
def Encoders.NoCollisions (messages : List (List UInt8)) : Prop :=
  ∀ m ∈ messages, ∀ m' ∈ messages, E.sha256 m = E.sha256 m' → m = m'

/-- `digest` is that of a one-row batch with the values `row`. -/
def Encoders.DigestOf (slices : List (RecordBatch V)) (row : List (Option V)) (digest : Digest) : Prop :=
  ∃ slice ∈ slices, slice.row 0 = row ∧ E.rowDigest slice = .ok digest

/-- All of the schema, and each of one row, as `key_for_unordered_inputs` (`table_input.rs:546-573`) slices its batches. -/
def OneRow (schema : Schema) (slices : List (RecordBatch V)) : Prop := ∀ s ∈ slices, s.schema = schema ∧ s.rows = 1

theorem oneRow_slices {schema : Schema} {inputs : List (RecordBatch V)} (h : ∀ b ∈ inputs, b.schema = schema) :
    OneRow schema (inputs.flatMap RecordBatch.oneRowSlices) := by
  intro s hs
  obtain ⟨b, hb, hs⟩ := List.mem_flatMap.1 hs
  obtain ⟨i, hi, rfl⟩ := List.mem_map.1 hs
  have hlt : i < b.rows := List.mem_range.1 hi
  refine ⟨h b hb, ?_⟩
  simp only [RecordBatch.slice]
  omega

/-- The slices hold the rows, in order. -/
theorem slices_row (inputs : List (RecordBatch V)) :
    (inputs.flatMap RecordBatch.oneRowSlices).map (·.row 0) = inputs.flatMap RecordBatch.rowList := by
  have hone : ∀ b : RecordBatch V, b.oneRowSlices.map (·.row 0) = b.rowList := by
    intro b
    simp [RecordBatch.oneRowSlices, RecordBatch.rowList, Function.comp_def, RecordBatch.row_slice]
  simp [List.map_flatMap, hone]

theorem ext_of_row {schema : Schema} {slices : List (RecordBatch V)} (h : OneRow schema slices) {a b : RecordBatch V}
    (ha : a ∈ slices) (hb : b ∈ slices) (hrow : a.row 0 = b.row 0) : a = b := by
  apply RecordBatch.ext_of_rowList ((h a ha).1.trans (h b hb).1.symm)
  simp [RecordBatch.rowList, (h a ha).2, (h b hb).2, hrow]

variable {E}

theorem rowDigest_ok {row : RecordBatch V} {digest : Digest} :
    E.rowDigest row = .ok digest ↔ ∃ bytes, E.writeBatch row = .ok bytes ∧ E.sha256 bytes = digest := by
  unfold Encoders.rowDigest
  cases E.writeBatch row with
  | error e => simp [Except.map]
  | ok bytes => simp [Except.map]

/-- A row has one digest, and without collisions a digest has one row. -/
theorem digestOf_biUnique {schema : Schema} {slices : List (RecordBatch V)} (hone : OneRow schema slices)
    (hinj : E.RowInjective schema)
    (hhash : E.NoCollisions (slices.filterMap fun row => (E.writeBatch row).toOption)) :
    Relator.BiUnique (E.DigestOf slices) := by
  constructor
  · rintro row row' digest ⟨s, hs, rfl, hd⟩ ⟨s', hs', rfl, hd'⟩
    obtain ⟨bytes, hbytes, hsha⟩ := rowDigest_ok.1 hd
    obtain ⟨bytes', hbytes', hsha'⟩ := rowDigest_ok.1 hd'
    have hmem : bytes ∈ slices.filterMap fun row => (E.writeBatch row).toOption :=
      List.mem_filterMap.2 ⟨s, hs, by simp [hbytes, Except.toOption]⟩
    have hmem' : bytes' ∈ slices.filterMap fun row => (E.writeBatch row).toOption :=
      List.mem_filterMap.2 ⟨s', hs', by simp [hbytes', Except.toOption]⟩
    have heq : bytes = bytes' := hhash bytes hmem bytes' hmem' (hsha.trans hsha'.symm)
    exact hinj s s' bytes (hone s hs).1 (hone s' hs').1 (hone s hs).2 (hone s' hs').2 hbytes (heq ▸ hbytes')
  · rintro row digest digest' ⟨s, hs, hrow, hd⟩ ⟨s', hs', hrow', hd'⟩
    have heq : s = s' := ext_of_row hone hs hs' (hrow.trans hrow'.symm)
    rw [heq, hd'] at hd
    cases hd
    rfl

/-- The digests of an input are those of its rows, in order. -/
theorem digestOf_rows {slices : List (RecordBatch V)} {inputs : List (RecordBatch V)}
    (hsub : ∀ s ∈ inputs.flatMap RecordBatch.oneRowSlices, s ∈ slices) {digests : List Digest}
    (h : (inputs.flatMap RecordBatch.oneRowSlices).mapM E.rowDigest = .ok digests) :
    List.Forall₂ (E.DigestOf slices) (inputs.flatMap RecordBatch.rowList) digests := by
  rw [← slices_row, List.forall₂_map_left_iff]
  apply forall₂_of_mem (mapM_ok_iff.1 h)
  intro s hs digest hd
  exact ⟨s, hsub s hs, rfl, hd⟩

/-- Rows that another input encodes too are encoded here. -/
theorem digests_of_perm {schema : Schema} {I J : List (RecordBatch V)} (hI : ∀ b ∈ I, b.schema = schema)
    (hJ : ∀ b ∈ J, b.schema = schema) (hperm : (I.flatMap RecordBatch.rowList).Perm (J.flatMap RecordBatch.rowList))
    {digests : List Digest} (h : (I.flatMap RecordBatch.oneRowSlices).mapM E.rowDigest = .ok digests) :
    ∃ digests', (J.flatMap RecordBatch.oneRowSlices).mapM E.rowDigest = .ok digests' := by
  have hencoded := mapM_ok_iff.1 h
  obtain ⟨digests', hd⟩ : ∃ digests', List.Forall₂ (fun s d => E.rowDigest s = .ok d)
      (J.flatMap RecordBatch.oneRowSlices) digests' := by
    apply forall₂_of_exists
    intro s hs
    have hrow : s.row 0 ∈ I.flatMap RecordBatch.rowList := by
      rw [hperm.mem_iff, ← slices_row]
      exact List.mem_map_of_mem hs
    rw [← slices_row] at hrow
    obtain ⟨s', hs', hrow'⟩ := List.mem_map.1 hrow
    have hone : OneRow schema ((I ++ J).flatMap RecordBatch.oneRowSlices) := by
      apply oneRow_slices
      intro b hb
      rcases List.mem_append.1 hb with hb | hb
      · exact hI b hb
      · exact hJ b hb
    have heq : s' = s := by
      apply ext_of_row hone _ _ hrow'
      · simp only [List.flatMap_append, List.mem_append]
        exact Or.inl hs'
      · simp only [List.flatMap_append, List.mem_append]
        exact Or.inr hs
    obtain ⟨i, hi⟩ := List.getElem?_of_mem hs'
    obtain ⟨d, -, hd⟩ := forall₂_getElem? hencoded hi
    exact ⟨d, heq ▸ hd⟩
  exact ⟨digests', mapM_ok_iff.2 hd⟩

/-! ## The key -/

theorem wholeMessage_ok {template : ExchangeCacheKeyTemplate} {inputs : List (RecordBatch V)} {schema : Schema}
    {message : List UInt8} : template.wholeMessage E inputs schema = .ok message ↔
      ∃ digests bytes, (inputs.flatMap RecordBatch.oneRowSlices).mapM E.rowDigest = .ok digests ∧
        E.writeSchema schema = .ok bytes ∧
          message = template.multisetMessage bytes (digests.insertionSort Digest.le) := by
  unfold ExchangeCacheKeyTemplate.wholeMessage
  cases hd : (inputs.flatMap RecordBatch.oneRowSlices).mapM E.rowDigest with
  | error e => simp [bind, Except.bind]
  | ok digests =>
    cases hs : E.writeSchema schema with
    | error e => simp [bind, Except.bind]
    | ok bytes => simp [bind, Except.bind, pure, Except.pure, eq_comm]

theorem keyForUnorderedInputs_ok {template : ExchangeCacheKeyTemplate} {inputs : List (RecordBatch V)}
    {schema : Schema} {key : ExchangeCacheKey} : template.keyForUnorderedInputs E inputs schema = .ok key ↔
      ∃ message, template.wholeMessage E inputs schema = .ok message ∧
        template.keyForDigest (E.sha256 message) = key := by
  unfold ExchangeCacheKeyTemplate.keyForUnorderedInputs
  cases template.wholeMessage E inputs schema with
  | error e => simp [Except.map]
  | ok message => simp [Except.map]

theorem keyForDigest_inj {template : ExchangeCacheKeyTemplate} {a b : Digest}
    (h : template.keyForDigest a = template.keyForDigest b) : a = b := by
  have hplan := congrArg ExchangeCacheKey.plan h
  exact Vector.toList_inj.1 (Option.some.inj hplan)

/-- **The key is that of the multiset of rows**: two inputs of one schema have the same key exactly when
their concatenations are permutations of each other. -/
theorem keyForUnorderedInputs_eq_iff {template : ExchangeCacheKeyTemplate} {I J : List (RecordBatch V)}
    {schema : Schema} (hI : ∀ b ∈ I, b.schema = schema) (hJ : ∀ b ∈ J, b.schema = schema)
    (hinj : E.RowInjective schema) (hhash : E.NoCollisions (template.hashed E I schema ++ template.hashed E J schema))
    {key : ExchangeCacheKey} (hkey : template.keyForUnorderedInputs E I schema = .ok key) :
    template.keyForUnorderedInputs E J schema = .ok key ↔
      (I.flatMap RecordBatch.rowList).Perm (J.flatMap RecordBatch.rowList) := by
  have hschema : ∀ b ∈ I ++ J, b.schema = schema := by
    intro b hb
    rcases List.mem_append.1 hb with hb | hb
    · exact hI b hb
    · exact hJ b hb
  have hbi : Relator.BiUnique (E.DigestOf ((I ++ J).flatMap RecordBatch.oneRowSlices)) := by
    apply digestOf_biUnique (oneRow_slices hschema) hinj
    intro m hm m' hm'
    apply hhash
    · simp only [List.flatMap_append, List.filterMap_append, List.mem_append] at hm
      simp only [ExchangeCacheKeyTemplate.hashed, List.mem_append]
      tauto
    · simp only [List.flatMap_append, List.filterMap_append, List.mem_append] at hm'
      simp only [ExchangeCacheKeyTemplate.hashed, List.mem_append]
      tauto
  -- the rows are permuted exactly when their digests are
  have hrows : ∀ {digests digests' : List Digest}, (I.flatMap RecordBatch.oneRowSlices).mapM E.rowDigest = .ok digests →
      (J.flatMap RecordBatch.oneRowSlices).mapM E.rowDigest = .ok digests' →
        ((I.flatMap RecordBatch.rowList).Perm (J.flatMap RecordBatch.rowList) ↔ digests.Perm digests') := by
    intro digests digests' hd hd'
    apply List.rel_perm hbi
    · apply digestOf_rows _ hd
      intro s hs
      simp [hs]
    · apply digestOf_rows _ hd'
      intro s hs
      simp [hs]
  obtain ⟨message, hmessage, rfl⟩ := keyForUnorderedInputs_ok.1 hkey
  obtain ⟨digests, bytes, hdigests, hbytes, rfl⟩ := wholeMessage_ok.1 hmessage
  constructor
  · intro h
    obtain ⟨message', hmessage', hkey'⟩ := keyForUnorderedInputs_ok.1 h
    have hfed : template.multisetMessage bytes (digests.insertionSort Digest.le) = message' := by
      apply hhash
      · simp [ExchangeCacheKeyTemplate.hashed, hmessage, Except.toOption]
      · simp [ExchangeCacheKeyTemplate.hashed, hmessage', Except.toOption]
      · exact (keyForDigest_inj hkey').symm
    obtain ⟨digests', bytes', hdigests', hbytes', rfl⟩ := wholeMessage_ok.1 hmessage'
    rw [hbytes] at hbytes'
    cases hbytes'
    exact (hrows hdigests hdigests').2 (sorted_eq_iff.1 (multisetMessage_inj hfed))
  · intro hperm
    obtain ⟨digests', hdigests'⟩ := digests_of_perm hI hJ hperm hdigests
    have hsorted := sorted_eq_iff.2 ((hrows hdigests hdigests').1 hperm)
    apply keyForUnorderedInputs_ok.2
    exact ⟨_, wholeMessage_ok.2 ⟨digests', bytes, hdigests', hbytes, rfl⟩, by rw [hsorted]⟩

/-! ### One column of flags -/

def flagSchema : Schema := { fields := [{ name := "flag", dataType := .boolean, nullable := true }] }

theorem flagBatch_fits (cells : List (Option Bool)) :
    List.Forall₂ (fits cells.length) flagSchema.fields [{ dataType := .boolean, cells }] :=
  .cons ⟨rfl, rfl, by simp⟩ .nil

def flagBatch (cells : List (Option Bool)) : RecordBatch Bool where
  schema := flagSchema
  columns := [{ dataType := .boolean, cells }]
  rows := cells.length
  fits := flagBatch_fits cells

def flagByte : Option Bool → UInt8
  | none => 0
  | some false => 1
  | some true => 2

theorem flagByte_inj {a b : Option Bool} (h : flagByte a = flagByte b) : a = b := by
  rcases a with - | - | - <;> rcases b with - | - | - <;> first | rfl | exact absurd h (by decide)

/-- One byte a cell, and a digest of the length and the first byte. -/
def flagEncoders : Encoders Bool where
  sha256 message := Vector.replicate 32 (UInt8.ofNat message.length + message.headD 0)
  writeBatch batch := .ok ((batch.row 0).map flagByte)
  writeSchema schema := .ok [UInt8.ofNat schema.fields.length]

theorem flagEncoders_injective : flagEncoders.RowInjective flagSchema := by
  intro a b bytes _ _ _ _ ha hb
  cases ha
  exact (List.map_injective_iff.2 (fun _ _ => flagByte_inj) (Except.ok.inj hb)).symm

def flagTemplate : ExchangeCacheKeyTemplate where
  catalog := "example"
  identityScope := "shared"
  workerLabel := "worker"
  function := "main.sum_all"
  catalogVersion := 7
  settings := []
  staticDigest := Vector.replicate 32 0

/-- Another order and another cut into batches, one of them empty. -/
theorem keyForUnorderedInputs_eq_rebatched :
    ∃ key, flagTemplate.keyForUnorderedInputs flagEncoders [flagBatch [some true, none, some true]] flagSchema = .ok key ∧
      flagTemplate.keyForUnorderedInputs flagEncoders
        [flagBatch [none], flagBatch [], flagBatch [some true, some true]] flagSchema = .ok key := by
  obtain ⟨key, hkey⟩ : ∃ key, flagTemplate.keyForUnorderedInputs flagEncoders
      [flagBatch [some true, none, some true]] flagSchema = .ok key := ⟨_, rfl⟩
  refine ⟨key, hkey, (keyForUnorderedInputs_eq_iff ?_ ?_ flagEncoders_injective ?_ hkey).2 ?_⟩
  · simp [flagBatch]
  · simp [flagBatch]
  · unfold Encoders.NoCollisions
    decide +kernel
  · decide +kernel

end VgiDatafusion
