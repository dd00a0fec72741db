import Mathlib.Data.List.Nodup
import VgiDatafusion.Scan.Conform

/-!
# Cold and cached answers under column renaming

A scan conforms each worker batch twice: to the projected schema `P`, which it emits, and to the
storage schema `S`, which it captures (lib.rs:5136-5168). A later hit conforms the stored batch to
`P` again (lib.rs:4716-4735), through the same mapping from public to worker names, although the
stored columns now carry public names.

That is right when no projected column is renamed, when `P` is empty, or when the stored batch is
already a `P` batch. It is also right when the worker's own schema happens to equal `S`, for then
the capture is untouched. `cold_replay_iff` collects these; the other way to go wrong is a worker
batch whose schema equals `P` although its names mean something else, which `conform` returns as it
stands.
-/
namespace VgiDatafusion

open TableProvider

variable {V : Type} {t : TableProvider} {projection : Option (List Nat)} {P : Schema} {b : RecordBatch V}

/-- The bind columns a projection asks for. -/
def requested (t : TableProvider) : Option (List Nat) → List Field
  | none => t.bindSchema.fields
  | some p => p.filterMap (t.bindSchema.fields[·]?)

/-- The name and type a worker column carries. -/
def Field.key (f : Field) : String × DataType := (f.name, f.dataType)

/-- A batch of the worker's: all bind columns, or just the requested ones if it opted into
receiving the projection, each once, in any order. -/
structure WorkerBatch (t : TableProvider) (projection : Option (List Nat)) (b : RecordBatch V) : Prop where
  distinct : b.schema.names.Nodup
  layout : (b.schema.fields.map Field.key).Perm (t.bindSchema.fields.map Field.key) ∨
    (t.projectionPushdown = true ∧ ∀ k, k ∈ b.schema.fields.map Field.key ↔ k ∈ (requested t projection).map Field.key)

/-- What a scan emits has the mapped worker column under each public name, and a hit on the
captured batch emits the same. -/
def ColdMatchesReplay (t : TableProvider) (b : RecordBatch V) (P : Schema) : Prop :=
  ∃ r, conform t.columnMapping b P = .ok r ∧ Selects t.columnMapping b r P ∧
    (conform t.columnMapping b (t.cacheStorageSchema P)).bind (conform t.columnMapping · P) = .ok r

/-! ## Positions, names and the mapping -/

theorem indexOf_getElem {s : Schema} (hs : s.names.Nodup) {i : Nat} {f : Field} (hf : s.fields[i]? = some f) :
    s.indexOf f.name = some i :=
  ListFacts.findIdx?_of_nodup hs hf

theorem columnByName_getElem (hb : b.schema.names.Nodup) {i : Nat} {f : Field} (hf : b.schema.fields[i]? = some f) :
    b.columnByName f.name = b.columns[i]? := by
  rw [RecordBatch.columnByName, indexOf_getElem hb hf]
  rfl

/-- The mapping sends the public name of a position to its bind name. -/
theorem workerName_getElem (ht : Renamed t) (hnames : t.outputSchema.names.Nodup) {i : Nat} {f g : Field}
    (hf : t.outputSchema.fields[i]? = some f) (hg : t.bindSchema.fields[i]? = some g) :
    workerName t.columnMapping f.name = g.name := by
  have hmapping : t.columnMapping =
      some ((t.outputSchema.fields.zip t.bindSchema.fields).map fun p => (p.1.name, p.2.name)) := ht.mapping
  have hkeys : (((t.outputSchema.fields.zip t.bindSchema.fields).map fun p => (p.1.name, p.2.name)).map (·.1)) =
      t.outputSchema.names := by
    have hlen := renamed_length ht
    rw [List.map_map, Schema.names]
    calc (t.outputSchema.fields.zip t.bindSchema.fields).map (fun p => p.1.name)
        = ((t.outputSchema.fields.zip t.bindSchema.fields).map Prod.fst).map (·.name) := by rw [List.map_map]; rfl
      _ = t.outputSchema.fields.map (·.name) := by rw [List.map_fst_zip (by omega)]
  have hmem : (f.name, g.name) ∈
      ((t.outputSchema.fields.zip t.bindSchema.fields).map fun p => (p.1.name, p.2.name)) := by
    refine List.mem_map.2 ⟨(f, g), List.mem_of_getElem? (i := i) ?_, rfl⟩
    rw [List.getElem?_zip_eq_some]
    exact ⟨hf, hg⟩
  have hlookup : ColumnMapping.get ((t.outputSchema.fields.zip t.bindSchema.fields).map fun p =>
      (p.1.name, p.2.name)) f.name = some g.name := by
    unfold ColumnMapping.get
    refine ListFacts.lookup_of_mem ?_ (List.mem_reverse.2 hmem)
    rw [List.map_reverse, List.nodup_reverse, hkeys]
    exact hnames
  rw [workerName, hmapping, Option.bind_some, hlookup, Option.getD_some]

/-- Position by position, the declared type is the bound one. -/
theorem bind_getElem (ht : Renamed t) {i : Nat} {f : Field} (hf : t.outputSchema.fields[i]? = some f) :
    ∃ g, t.bindSchema.fields[i]? = some g ∧ g.dataType = f.dataType := by
  have hlen := renamed_length ht
  have hi := (List.getElem?_eq_some_iff.1 hf).1
  have hbind : t.bindSchema.fields[i]? = some t.bindSchema.fields[i] := List.getElem?_eq_getElem (by omega)
  refine ⟨_, hbind, ?_⟩
  have hcompatible := ht.compatible
  simp only [compatible, Bool.and_eq_true, List.all_eq_true, beq_iff_eq] at hcompatible
  have hzip : (t.bindSchema.fields[i], f) ∈ t.bindSchema.fields.zip t.outputSchema.fields := by
    refine List.mem_of_getElem? (i := i) ?_
    rw [List.getElem?_zip_eq_some]
    exact ⟨hbind, hf⟩
  exact hcompatible.2 _ hzip

/-- A projected field is a field of the table, at a position of the projection. -/
theorem project_mem (hP : t.project projection = .ok P) {f : Field} (hf : f ∈ P.fields) :
    ∃ i, t.outputSchema.fields[i]? = some f ∧ ∀ p, projection = some p → i ∈ p := by
  cases projection with
  | none =>
    cases hP
    obtain ⟨i, hi⟩ := List.getElem?_of_mem hf
    exact ⟨i, hi, by simp⟩
  | some p =>
    simp only [project, projectSchema] at hP
    cases hfields : p.mapM (fieldAt t.outputSchema) with
    | error e => rw [hfields] at hP; cases hP
    | ok fields =>
      rw [hfields] at hP
      cases hP
      obtain ⟨k, hk⟩ := List.getElem?_of_mem hf
      obtain ⟨i, hi, hsome⟩ := ListFacts.forall₂_getElem? (ListFacts.mapM_ok_iff.1 hfields).flip hk
      refine ⟨i, ?_, ?_⟩
      · unfold fieldAt at hsome
        split at hsome
        · rename_i f' hf'
          cases hsome
          exact hf'
        · cases hsome
      · rintro p' hp'
        cases hp'
        exact List.mem_of_getElem? hi

/-! ## What the worker sent -/

section
variable (ht : Renamed t) (hnames : t.outputSchema.names.Nodup) (hP : t.project projection = .ok P)
  (hb : WorkerBatch t projection b)
include ht hnames hP hb

omit hnames in
/-- Every field of the storage schema is a field of the table, and its bind column is in the batch. -/
theorem storage_mem {f : Field} (hf : f ∈ (t.cacheStorageSchema P).fields) :
    ∃ (i : Nat) (g : Field), t.outputSchema.fields[i]? = some f ∧ t.bindSchema.fields[i]? = some g ∧
      g.dataType = f.dataType ∧ g.key ∈ b.schema.fields.map Field.key := by
  unfold cacheStorageSchema at hf
  split at hf
  · obtain ⟨i, hi, hprojected⟩ := project_mem hP hf
    obtain ⟨g, hg, htype⟩ := bind_getElem ht hi
    refine ⟨i, g, hi, hg, htype, ?_⟩
    rcases hb.layout with hall | ⟨-, hrequested⟩
    · exact hall.mem_iff.2 (List.mem_map_of_mem (List.mem_of_getElem? hg))
    · rw [hrequested]
      refine List.mem_map_of_mem ?_
      cases projection with
      | none => exact List.mem_of_getElem? hg
      | some p => exact List.mem_filterMap.2 ⟨i, hprojected p rfl, hg⟩
  · rename_i hpushdown
    obtain ⟨i, hi⟩ := List.getElem?_of_mem hf
    obtain ⟨g, hg, htype⟩ := bind_getElem ht hi
    refine ⟨i, g, hi, hg, htype, ?_⟩
    rcases hb.layout with hall | ⟨hpushed, -⟩
    · exact hall.mem_iff.2 (List.mem_map_of_mem (List.mem_of_getElem? hg))
    · exact absurd hpushed hpushdown

/-- The worker's column for a stored field is there, with the declared type. -/
theorem storage_column {f : Field} (hf : f ∈ (t.cacheStorageSchema P).fields) :
    ∃ c, b.columnByName (workerName t.columnMapping f.name) = some c ∧ c.dataType = f.dataType ∧
      c.cells.length = b.rows := by
  obtain ⟨i, g, hi, hg, htype, hkey⟩ := storage_mem ht hP hb hf
  obtain ⟨h, hh, hkey⟩ := List.mem_map.1 hkey
  simp only [Field.key, Prod.mk.injEq] at hkey
  obtain ⟨j, hj⟩ := List.getElem?_of_mem hh
  obtain ⟨c, hc, hfit⟩ := ListFacts.forall₂_getElem? b.fits hj
  refine ⟨c, ?_, hfit.1.trans (hkey.2.trans htype), hfit.2.1⟩
  rw [workerName_getElem ht hnames hi hg, ← hkey.1, columnByName_getElem hb.distinct hj, hc]

omit ht hnames hb in
/-- A projected field is a stored one. -/
theorem projected_subset {f : Field} (hf : f ∈ P.fields) : f ∈ (t.cacheStorageSchema P).fields := by
  unfold cacheStorageSchema
  split
  · exact hf
  · obtain ⟨i, hi, -⟩ := project_mem hP hf
    exact List.mem_of_getElem? hi

theorem storage_selects (hnull : NotNull t.columnMapping b (t.cacheStorageSchema P)) :
    ∃ s, Selects t.columnMapping b s (t.cacheStorageSchema P) :=
  Selects.exists (fun _ hf => storage_column ht hnames hP hb hf) hnull

theorem projected_selects (hnull : NotNull t.columnMapping b P) : ∃ r, Selects t.columnMapping b r P :=
  Selects.exists (fun _ hf => storage_column ht hnames hP hb (projected_subset hP hf)) hnull

/-- With nothing renamed among the projected columns, the batch conforms to `P` by selection, also
on the fast path. -/
theorem projected_unrenamed (hkept : ∀ f ∈ P.fields, workerName t.columnMapping f.name = f.name)
    (hnull : b.schema = P ∨ NotNull t.columnMapping b P) :
    ∃ r, conform t.columnMapping b P = .ok r ∧ Selects t.columnMapping b r P := by
  by_cases hfast : b.schema = P
  · refine ⟨b, conform_self hfast, hfast, rfl, ?_⟩
    rw [List.forall₂_iff_get]
    refine ⟨by rw [← hfast]; exact b.fits.length_eq, ?_⟩
    intro i hi hc
    have hi' : P.fields[i]? = some P.fields[i] := List.getElem?_eq_getElem hi
    have hat : b.schema.fields[i]? = some P.fields[i] := by rw [hfast]; exact hi'
    simp only [List.get_eq_getElem]
    rw [hkept _ (List.mem_of_getElem? hi'), columnByName_getElem hb.distinct hat]
    exact List.getElem?_eq_getElem hc
  · obtain ⟨r, hr⟩ := projected_selects ht hnames hP hb (hnull.resolve_left hfast)
    exact ⟨r, (conform_ok_iff hfast).2 hr, hr⟩

omit ht hb in
/-- A stored batch replays to the selection when nothing among the projected columns is renamed. -/
theorem replay_unrenamed {s r : RecordBatch V} (hs : Selects t.columnMapping b s t.outputSchema)
    (hr : Selects t.columnMapping b r P) (hne : t.outputSchema ≠ P)
    (hkept : ∀ f ∈ P.fields, workerName t.columnMapping f.name = f.name) :
    conform t.columnMapping s P = .ok r := by
  have hsne : s.schema ≠ P := by rw [hs.schema]; exact hne
  refine (conform_ok_iff hsne).2 ⟨hr.schema, hr.rows.trans hs.rows.symm, ?_⟩
  refine ListFacts.forall₂_of_mem hr.columns ?_
  intro f hf c hc
  obtain ⟨i, hi, -⟩ := project_mem hP hf
  obtain ⟨c', hc', hsel⟩ := ListFacts.forall₂_getElem? hs.columns hi
  rw [hkept f hf, columnByName_getElem (by rw [hs.schema]; exact hnames) (by rw [hs.schema]; exact hi), hc']
  exact congrArg some (Option.some.inj (hsel.symm.trans hc))

end

/-- When a cold answer and its replay agree: the declared NOT NULLs hold wherever columns are
selected, and the projection is empty, or renames nothing, or the worker's batch is not mistaken
for a projected one and is stored either as one or untouched. -/
def AgreesWhen (t : TableProvider) (b : RecordBatch V) (P : Schema) : Prop :=
  (b.schema = t.cacheStorageSchema P ∨ NotNull t.columnMapping b (t.cacheStorageSchema P)) ∧
  (b.schema = P ∨ NotNull t.columnMapping b P) ∧
  (P.fields = [] ∨ (∀ f ∈ P.fields, workerName t.columnMapping f.name = f.name) ∨
    (b.schema ≠ P ∧ (t.cacheStorageSchema P = P ∨ b.schema = t.cacheStorageSchema P)))

section
variable (ht : Renamed t) (hnames : t.outputSchema.names.Nodup) (hP : t.project projection = .ok P)
  (hb : WorkerBatch t projection b)
include ht hnames hP hb

theorem coldMatchesReplay_of_agreesWhen (h : AgreesWhen t b P) : ColdMatchesReplay t b P := by
  obtain ⟨hstored, hprojected, hcases⟩ := h
  -- in every case the cold answer is the selection
  have hcold : ∃ r, conform t.columnMapping b P = .ok r ∧ Selects t.columnMapping b r P := by
    rcases hcases with hempty | hkept | ⟨hne, -⟩
    · exact projected_unrenamed ht hnames hP hb (by simp [hempty]) hprojected
    · exact projected_unrenamed ht hnames hP hb hkept hprojected
    · obtain ⟨r, hr⟩ := projected_selects ht hnames hP hb (hprojected.resolve_left hne)
      exact ⟨r, (conform_ok_iff hne).2 hr, hr⟩
  obtain ⟨r, hr, hselects⟩ := hcold
  refine ⟨r, hr, hselects, ?_⟩
  by_cases hsame : t.cacheStorageSchema P = P
  · rw [hsame, hr]
    exact conform_self hselects.schema
  · by_cases huntouched : b.schema = t.cacheStorageSchema P
    · rw [conform_self huntouched]
      exact hr
    · obtain ⟨s, hs⟩ := storage_selects ht hnames hP hb (hstored.resolve_left huntouched)
      have hfull : t.cacheStorageSchema P = t.outputSchema := by
        unfold cacheStorageSchema at hsame ⊢
        split
        · rename_i hpushdown
          simp [hpushdown] at hsame
        · rfl
      have hkept : ∀ f ∈ P.fields, workerName t.columnMapping f.name = f.name := by
        rcases hcases with hempty | hkept | ⟨-, hor⟩
        · simp [hempty]
        · exact hkept
        · exact absurd hor (by simp [hsame, huntouched])
      rw [(conform_ok_iff huntouched).2 hs]
      rw [hfull] at hs hsame
      exact replay_unrenamed hnames hP hs hselects hsame hkept

omit hP in
/-- The worker names behind the public ones are different, since the batch repeats none. -/
theorem workerName_injective (hall : (b.schema.fields.map Field.key).Perm (t.bindSchema.fields.map Field.key))
    {f g : Field} (hf : f ∈ t.outputSchema.fields) (hg : g ∈ t.outputSchema.fields)
    (h : workerName t.columnMapping f.name = workerName t.columnMapping g.name) : f.name = g.name := by
  have hbind : t.bindSchema.names.Nodup := by
    have hperm : b.schema.names.Perm t.bindSchema.names := by
      simpa [Schema.names, Field.key, Function.comp_def] using hall.map Prod.fst
    exact hperm.nodup_iff.1 hb.distinct
  obtain ⟨i, hi⟩ := List.getElem?_of_mem hf
  obtain ⟨j, hj⟩ := List.getElem?_of_mem hg
  obtain ⟨f', hf', -⟩ := bind_getElem ht hi
  obtain ⟨g', hg', -⟩ := bind_getElem ht hj
  rw [workerName_getElem ht hnames hi hf', workerName_getElem ht hnames hj hg'] at h
  have hindex := indexOf_getElem hbind hf'
  rw [h, indexOf_getElem hbind hg'] at hindex
  cases hindex
  rw [hi] at hj
  cases hj
  rfl

omit ht hnames hP hb in
/-- Two names with the same column in a batch without repeated columns are one. -/
theorem columnByName_injective (hcolumns : b.columns.Nodup) {x y : String} {c : Column V}
    (hx : b.columnByName x = some c) (hy : b.columnByName y = some c) : x = y := by
  simp only [RecordBatch.columnByName, Option.bind_eq_some_iff] at hx hy
  obtain ⟨i, hi, hci⟩ := hx
  obtain ⟨j, hj, hcj⟩ := hy
  obtain ⟨f, hf, rfl⟩ := Schema.indexOf_spec hi
  obtain ⟨g, hg, rfl⟩ := Schema.indexOf_spec hj
  have hlt := (List.getElem?_eq_some_iff.1 hci).1
  obtain rfl : i = j := (List.getElem?_inj hlt hcolumns).1 (hci.trans hcj.symm)
  rw [hf] at hg
  cases hg
  rfl

theorem agreesWhen_of_coldMatchesReplay (hcolumns : b.columns.Nodup) (h : ColdMatchesReplay t b P) :
    AgreesWhen t b P := by
  obtain ⟨r, hr, hselects, hreplay⟩ := h
  have hstored : b.schema = t.cacheStorageSchema P ∨ NotNull t.columnMapping b (t.cacheStorageSchema P) := by
    by_cases huntouched : b.schema = t.cacheStorageSchema P
    · exact Or.inl huntouched
    · cases hs : conform t.columnMapping b (t.cacheStorageSchema P) with
      | error e => rw [hs] at hreplay; cases hreplay
      | ok s => exact Or.inr ((conform_ok_iff huntouched).1 hs).notNull
  refine ⟨hstored, Or.inr hselects.notNull, ?_⟩
  by_cases hempty : P.fields = []
  · exact Or.inl hempty
  refine Or.inr ?_
  by_cases hfast : b.schema = P
  · -- the batch came back as it stands: each column must be its own
    refine Or.inl fun f hf => ?_
    have hrb : r = b := by
      rw [conform_self hfast] at hr
      cases hr
      rfl
    subst hrb
    obtain ⟨i, hi⟩ := List.getElem?_of_mem hf
    obtain ⟨c, hc, hsel⟩ := ListFacts.forall₂_getElem? hselects.columns hi
    have hown := columnByName_getElem hb.distinct (by rw [hfast]; exact hi)
    exact columnByName_injective hcolumns hsel (hown.trans hc)
  · by_cases hsame : t.cacheStorageSchema P = P
    · exact Or.inr ⟨hfast, Or.inl hsame⟩
    by_cases huntouched : b.schema = t.cacheStorageSchema P
    · exact Or.inr ⟨hfast, Or.inr huntouched⟩
    -- the stored batch has public names, and is looked up by worker names
    refine Or.inl fun f hf => ?_
    have hpushdown : t.projectionPushdown ≠ true := by
      intro hpushdown
      simp [cacheStorageSchema, hpushdown] at hsame
    have hfull : t.cacheStorageSchema P = t.outputSchema := by simp [cacheStorageSchema, hpushdown]
    have hall := hb.layout.resolve_right fun hpushed => hpushdown hpushed.1
    cases hs : conform t.columnMapping b (t.cacheStorageSchema P) with
    | error e => rw [hs] at hreplay; cases hreplay
    | ok s =>
      rw [hs] at hreplay
      have hsel := (conform_ok_iff huntouched).1 hs
      have hsne : s.schema ≠ P := by rw [hsel.schema]; exact hsame
      have hagain := (conform_ok_iff hsne).1 hreplay
      obtain ⟨k, hk⟩ := List.getElem?_of_mem hf
      obtain ⟨c, hc, hcold⟩ := ListFacts.forall₂_getElem? hselects.columns hk
      obtain ⟨c', hc', hwarm⟩ := ListFacts.forall₂_getElem? hagain.columns hk
      obtain rfl : c = c' := Option.some.inj (hc.symm.trans hc')
      -- so the worker name is itself public, and the field under it has the same worker column
      simp only [RecordBatch.columnByName, hsel.schema, hfull, Option.bind_eq_some_iff] at hwarm
      obtain ⟨i, hi, hci⟩ := hwarm
      obtain ⟨g, hg, hgname⟩ := Schema.indexOf_spec hi
      obtain ⟨c'', hc'', hstoredColumn⟩ := ListFacts.forall₂_getElem? hsel.columns (by rw [hfull]; exact hg)
      obtain rfl : c = c'' := Option.some.inj (hci.symm.trans hc'')
      have hworker := columnByName_injective hcolumns hstoredColumn hcold
      obtain ⟨j, hj, -⟩ := project_mem hP hf
      have hgf := workerName_injective ht hnames hb hall (List.mem_of_getElem? hg) (List.mem_of_getElem? hj) hworker
      exact hgname.symm.trans hgf

/-- **Cold and cached answers agree** under the condition above, and only under it when the worker's
columns differ from one another. -/
theorem cold_replay_agree :
    (AgreesWhen t b P → ColdMatchesReplay t b P) ∧
      (b.columns.Nodup → ColdMatchesReplay t b P → AgreesWhen t b P) := by
  constructor
  · exact coldMatchesReplay_of_agreesWhen ht hnames hP hb
  · exact agreesWhen_of_coldMatchesReplay ht hnames hP hb

end

/-- One row of the worker's `c, b, a`. -/
def workerBatch : RecordBatch Int :=
  ⟨swappedTable.bindSchema, [⟨.int64, [some 30]⟩, ⟨.int64, [some 20]⟩, ⟨.int64, [some 10]⟩], 1, by decide⟩

/-- The projection to the public column `a`. -/
def onlyA : Schema := ⟨[⟨"a", .int64, true, []⟩], []⟩

/-- A worker that receives the projection has its answer stored as projected. -/
theorem cold_replay_agree_pushed :
    ColdMatchesReplay { swappedTable with projectionPushdown := true } workerBatch onlyA := by
  have hb : WorkerBatch { swappedTable with projectionPushdown := true } (some [0]) workerBatch :=
    ⟨by decide, Or.inl (List.Perm.refl _)⟩
  refine (cold_replay_agree ⟨by decide, by decide⟩ (by decide) rfl hb).1 ?_
  · refine ⟨Or.inr ?_, Or.inr ?_, Or.inr (Or.inr ⟨by decide, Or.inl rfl⟩)⟩ <;>
    · intro f hf hnull
      obtain rfl := List.mem_singleton.1 hf
      cases hnull

/-- Without projection pushdown the full batch is stored under public names and looked up again by
worker names: cold, `a` is the worker's `c`; cached, it is the worker's `a`. -/
theorem swapped_replay_differs :
    Renamed swappedTable ∧ swappedTable.outputSchema.names.Nodup ∧
      swappedTable.project (some [0]) = .ok onlyA ∧ WorkerBatch swappedTable (some [0]) workerBatch ∧
        ¬ ColdMatchesReplay swappedTable workerBatch onlyA := by
  have ht := swappedTable_renamed
  have hnames : swappedTable.outputSchema.names.Nodup := by decide
  have hP : swappedTable.project (some [0]) = .ok onlyA := rfl
  have hb : WorkerBatch swappedTable (some [0]) workerBatch := ⟨by decide, Or.inl (List.Perm.refl _)⟩
  refine ⟨ht, hnames, hP, hb, ?_⟩
  intro h
  obtain ⟨-, -, hcases⟩ := agreesWhen_of_coldMatchesReplay ht hnames hP hb (by decide) h
  rcases hcases with hempty | hkept | ⟨-, hsame | huntouched⟩
  · exact absurd hempty (by decide)
  · exact absurd (hkept _ List.mem_cons_self) (by decide)
  · exact absurd hsame (by decide)
  · exact absurd huntouched (by decide)

end VgiDatafusion
