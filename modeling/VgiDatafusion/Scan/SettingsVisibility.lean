import VgiDatafusion.Library.SortedEntries
import VgiDatafusion.Scan.Settings
import VgiDatafusion.Session.Options
import Mathlib.Data.String.Basic
import Mathlib.Data.List.Sort

/-!
# What a worker sees of the settings, and what the identity says of it

| here | there |
| --- | --- |
| `CacheLimits` | the limits of `vgi_client::CacheLimits` that have a setting |
| `adapterBooleans`, `adapterSizes`, `adapterDefault` | `ADAPTER_BOOLEAN_SETTINGS`, `ADAPTER_USIZE_SETTINGS`, `adapter_default` (settings.rs:36-41, 235-245) |
| `normalizeName`, `parseAdapterBool`, `parseAdapterUsize` | `normalize_name`, `parse_bool`, `parse_usize` (settings.rs:206-214, 244-261) |
| `Setup`, `SettingCall`, `VgiSettings.Reached` | `with_cache_limits`, `set_value` and `reset_value` (settings.rs:80-124) |
| `settingsFor` | `settings_for` (lib.rs:402-410) down to the bytes |

A worker may declare a name the adapter uses itself. It is then sent the value; the identity holds it only if the metadata
of the catalog says so (`settings_separated_iff`), which an attached catalog has and one bound directly does not.
-/
namespace VgiDatafusion

/-! ## Setting and resetting -/

/-- The limits of `vgi_client::CacheLimits` that have a setting. -/
structure CacheLimits where
  maxEntryBytes : Nat
  maxTotalBytes : Nat
  maxEntries : Nat
  fits : maxEntryBytes < 2 ^ 64 ∧ maxTotalBytes < 2 ^ 64 ∧ maxEntries < 2 ^ 64

/-- `ADAPTER_BOOLEAN_SETTINGS` (`settings.rs:36-41`). -/
def adapterBooleans : List String := ["vgi_exchange_input_dedup", "vgi_result_cache_per_value"]

/-- `ADAPTER_USIZE_SETTINGS` (`settings.rs:36-41`). -/
def adapterSizes : List String :=
  ["vgi_result_cache_max_entry_bytes", "vgi_result_cache_max_bytes", "vgi_result_cache_max_entries"]

/-- `is_adapter_boolean_setting` (`settings.rs:221-225`). -/
def isAdapterBooleanSetting (name : String) : Bool := adapterBooleans.any (eqIgnoreAsciiCase · name)

/-- `is_adapter_usize_setting` (`settings.rs:227-231`). -/
def isAdapterUsizeSetting (name : String) : Bool := adapterSizes.any (eqIgnoreAsciiCase · name)

/-- `adapter_default` (`settings.rs:233-243`). -/
def adapterDefault (name : String) (limits : CacheLimits) : Option String :=
  if isAdapterBooleanSetting name then some "true"
  else if name = "vgi_result_cache_max_entry_bytes" then some (toString limits.maxEntryBytes)
  else if name = "vgi_result_cache_max_bytes" then some (toString limits.maxTotalBytes)
  else if name = "vgi_result_cache_max_entries" then some (toString limits.maxEntries)
  else none

/-- `normalize_name` (`settings.rs:207-215`). -/
def normalizeName (name : String) : Except String String :=
  let name := String.ofList (trim name.toList)
  if name.isEmpty || name.toList.contains '.' then
    .error s!"VGI setting names must be non-empty and contain no dots, found `{name}`"
  else .ok (toAsciiLowercase name)

/-- `parse_bool` (`settings.rs:245-253`). -/
def parseAdapterBool (name value : String) : Except String Bool :=
  let word := String.ofList (lower (trim value.toList))
  if word = "true" ∨ word = "on" ∨ word = "1" then .ok true
  else if word = "false" ∨ word = "off" ∨ word = "0" then .ok false
  else .error s!"VGI adapter setting `{name}` expects a boolean, found `{value}`"

/-- `parse_usize` (`settings.rs:255-260`). -/
def parseAdapterUsize (name value : String) : Except String Nat :=
  match parseU64 (trim value.toList) with
  | some n => .ok n
  | none =>
    .error s!"VGI adapter setting `{name}` expects a non-negative integer that fits this host, found `{value}`"

/-- What `set_value` writes. -/
def storedValue (name value : String) : Except String String :=
  if isAdapterBooleanSetting name then (parseAdapterBool name value).map toString
  else if isAdapterUsizeSetting name then (parseAdapterUsize name value).map toString
  else .ok value

theorem adapterDefault_isSome {name : String} (h : name ∈ adapterSettings) (limits : CacheLimits) :
    (adapterDefault name limits).isSome = true := by
  simp only [adapterSettings, List.mem_cons, List.not_mem_nil, or_false] at h
  rcases h with rfl | rfl | rfl | rfl | rfl <;> rfl

/-- What can be there under a name. -/
def Stored (name value : String) : Prop :=
  (isAdapterBooleanSetting name = true → value = "true" ∨ value = "false") ∧
    (isAdapterUsizeSetting name = true → ∃ n < 2 ^ 64, value = toString n)

theorem toString_bool (b : Bool) : toString b = "true" ∨ toString b = "false" := by
  cases b
  · exact .inr rfl
  · exact .inl rfl

theorem not_both (name : String) (h : isAdapterBooleanSetting name = true) : isAdapterUsizeSetting name = false := by
  simp only [isAdapterBooleanSetting, adapterBooleans, eqIgnoreAsciiCase, List.any_cons, List.any_nil, Bool.or_false,
    Bool.or_eq_true, beq_iff_eq] at h
  simp only [isAdapterUsizeSetting, eqIgnoreAsciiCase]
  rcases h with h | h <;> rw [← h] <;> decide

theorem parseU64_lt {s : Chars} {n : Nat} (h : parseU64 s = some n) : n < 2 ^ 64 := by
  simp only [parseU64] at h
  split_ifs at h with hsign hempty hlt hempty hlt
  · rw [← Option.some.inj h]
    exact hlt
  · rw [← Option.some.inj h]
    exact hlt

theorem storedValue_stored {name value stored : String} (h : storedValue name value = .ok stored) : Stored name stored := by
  unfold storedValue at h
  split at h
  · rename_i hbool
    cases hparse : parseAdapterBool name value with
    | error e => simp [hparse, Except.map] at h
    | ok b =>
      simp only [hparse, Except.map, Except.ok.injEq] at h
      subst h
      exact ⟨fun _ => toString_bool b, fun hsize => absurd hsize (by simp [not_both name hbool])⟩
  · rename_i hbool
    split at h
    · cases hparse : parseAdapterUsize name value with
      | error e => simp [hparse, Except.map] at h
      | ok n =>
        simp only [hparse, Except.map, Except.ok.injEq] at h
        subst h
        refine ⟨fun hb => absurd hb hbool, fun _ => ⟨n, ?_, rfl⟩⟩
        unfold parseAdapterUsize at hparse
        split at hparse
        · rename_i m hm
          cases hparse
          exact parseU64_lt hm
        · cases hparse
    · rename_i hsize
      exact ⟨fun hb => absurd hb hbool, fun hs => absurd hs hsize⟩

theorem adapterDefault_stored {name value : String} {limits : CacheLimits} (h : adapterDefault name limits = some value) :
    Stored name value := by
  unfold adapterDefault at h
  split at h
  · rename_i hbool
    cases h
    exact ⟨fun _ => .inl rfl, fun hsize => absurd hsize (by simp [not_both name hbool])⟩
  · rename_i hbool
    refine ⟨fun hb => absurd hb hbool, fun _ => ?_⟩
    split at h
    · cases h
      exact ⟨_, limits.fits.1, rfl⟩
    · split at h
      · cases h
        exact ⟨_, limits.fits.2.1, rfl⟩
      · split at h
        · cases h
          exact ⟨_, limits.fits.2.2, rfl⟩
        · cases h

namespace VgiSettings

open SortedEntries

variable (s : VgiSettings)

/-- `BTreeMap::insert`. -/
def insert (name value : Text) : VgiSettings where
  values := put (·.1.text) (name, value) s.values
  sorted := put_sorted s.sorted
  adapters adapter hadapter := by
    obtain ⟨v, hv, rfl⟩ := s.adapters adapter hadapter
    by_cases hname : v.1.text = name.text
    · exact ⟨_, (mem_put_iff s.sorted).2 (.inl rfl), hname.symm⟩
    · exact ⟨v, (mem_put_iff s.sorted).2 (.inr ⟨hv, hname⟩), rfl⟩

/-- `BTreeMap::remove`. -/
def remove (name : String) (hname : name ∉ adapterSettings) : VgiSettings where
  values := s.values.filter (·.1.text ≠ name)
  sorted := s.sorted.filter _
  adapters adapter hadapter := by
    obtain ⟨v, hv, rfl⟩ := s.adapters adapter hadapter
    refine ⟨v, List.mem_filter.2 ⟨hv, ?_⟩, rfl⟩
    simp only [ne_eq, decide_not, Bool.not_eq_true', decide_eq_false_iff_not]
    rintro rfl
    exact hname hadapter

theorem mem_insert {name value : Text} : ∀ v ∈ (s.insert name value).values, v = (name, value) ∨ v ∈ s.values :=
  fun _ hv => mem_put hv

def collectDefault (limits : CacheLimits) (values : List (String × String)) (name : String) : List (String × String) :=
  match adapterDefault name limits with
  | some value => put Prod.fst (name, value) values
  | none => values

/-- What the constructor collects. -/
def defaultValues (limits : CacheLimits) : List (String × String) :=
  (adapterBooleans ++ adapterSizes).foldl (collectDefault limits) []

theorem not_adapter_of_default {name : String} {limits : CacheLimits} (h : adapterDefault name limits = none) :
    name ∉ adapterSettings := by
  intro hname
  have hsome := adapterDefault_isSome hname limits
  rw [h] at hsome
  cases hsome

/-- The settings a constructor and any number of `SET` and `RESET` lead to. -/
inductive Reached (limits : CacheLimits) : VgiSettings → Prop
  | constructed {s : VgiSettings} (h : s.values.map (fun v => (v.1.text, v.2.text)) = defaultValues limits) : Reached limits s
  | set {s : VgiSettings} {raw value : String} {name stored : Text} (hs : Reached limits s)
    (hname : normalizeName raw = .ok name.text) (hstored : storedValue name.text value = .ok stored.text) :
    Reached limits (s.insert name stored)
  | restore {s : VgiSettings} {raw : String} {name value : Text} (hs : Reached limits s)
    (hname : toAsciiLowercase raw = name.text) (hvalue : adapterDefault name.text limits = some value.text) :
    Reached limits (s.insert name value)
  | unset {s : VgiSettings} {raw : String} (hs : Reached limits s)
    (h : adapterDefault (toAsciiLowercase raw) limits = none) :
    Reached limits (s.remove (toAsciiLowercase raw) (not_adapter_of_default h))

theorem mem_defaultValues {limits : CacheLimits} {entry : String × String} (h : entry ∈ defaultValues limits) :
    adapterDefault entry.1 limits = some entry.2 := by
  have hput : ∀ (names : List String) (values : List (String × String)),
      (∀ e ∈ values, adapterDefault e.1 limits = some e.2) →
      ∀ e ∈ names.foldl (collectDefault limits) values, adapterDefault e.1 limits = some e.2 := by
    intro names
    induction names with
    | nil => exact fun values hvalues => hvalues
    | cons name names ih =>
      intro values hvalues
      refine ih _ ?_
      intro e he
      unfold collectDefault at he
      split at he
      · rename_i value hvalue
        rcases mem_put he with rfl | he
        · exact hvalue
        · exact hvalues e he
      · exact hvalues e he
  exact hput _ [] (by simp) entry h

/-- Whatever is there can be there. -/
theorem Reached.stored {limits : CacheLimits} {s : VgiSettings} (h : Reached limits s) :
    ∀ v ∈ s.values, Stored v.1.text v.2.text := by
  induction h with
  | constructed h =>
    intro v hv
    have hmem : (v.1.text, v.2.text) ∈ defaultValues limits := by
      rw [← h, List.mem_map]
      exact ⟨v, hv, rfl⟩
    have hdefault := mem_defaultValues hmem
    exact adapterDefault_stored hdefault
  | set hs hname hstored ih =>
    intro v hv
    rcases mem_insert _ v hv with hnew | hv
    · rw [hnew]
      exact storedValue_stored hstored
    · exact ih v hv
  | restore hs hname hvalue ih =>
    intro v hv
    rcases mem_insert _ v hv with hnew | hv
    · rw [hnew]
      exact adapterDefault_stored hvalue
    · exact ih v hv
  | unset hs h ih => exact fun v hv => ih v (List.mem_filter.1 hv).1

/-! ### Snapshots of given adapter settings -/

theorem dedup_fits : "vgi_exchange_input_dedup".utf8ByteSize < 2 ^ 63 := by decide

theorem maxBytes_fits : "vgi_result_cache_max_bytes".utf8ByteSize < 2 ^ 63 := by decide

theorem maxEntries_fits : "vgi_result_cache_max_entries".utf8ByteSize < 2 ^ 63 := by decide

theorem maxEntryBytes_fits : "vgi_result_cache_max_entry_bytes".utf8ByteSize < 2 ^ 63 := by decide

theorem perValue_fits : "vgi_result_cache_per_value".utf8ByteSize < 2 ^ 63 := by decide

theorem true_fits : "true".utf8ByteSize < 2 ^ 63 := by decide

/-- The constructor's settings, the limits written out. -/
def ofLimits (entryBytes totalBytes entries : Text) : VgiSettings where
  values := [(.lit "vgi_exchange_input_dedup" dedup_fits, .lit "true" true_fits),
    (.lit "vgi_result_cache_max_bytes" maxBytes_fits, totalBytes),
    (.lit "vgi_result_cache_max_entries" maxEntries_fits, entries),
    (.lit "vgi_result_cache_max_entry_bytes" maxEntryBytes_fits, entryBytes),
    (.lit "vgi_result_cache_per_value" perValue_fits, .lit "true" true_fits)]
  sorted := by
    simp only [List.pairwise_cons, List.mem_cons, List.not_mem_nil, or_false, forall_eq_or_imp, forall_eq,
      false_imp_iff, implies_true, List.Pairwise.nil, and_true, Text.lit]
    decide
  adapters := by
    simp [adapterSettings, Text.lit]

theorem ofLimits_reached {limits : CacheLimits} {entryBytes totalBytes entries : Text}
    (h : entryBytes.text = toString limits.maxEntryBytes ∧ totalBytes.text = toString limits.maxTotalBytes ∧
      entries.text = toString limits.maxEntries) : Reached limits (ofLimits entryBytes totalBytes entries) := by
  refine .constructed ?_
  have hdedup : adapterDefault "vgi_exchange_input_dedup" limits = some "true" := rfl
  have hvalue : adapterDefault "vgi_result_cache_per_value" limits = some "true" := rfl
  have hentryBytes : adapterDefault "vgi_result_cache_max_entry_bytes" limits = some entryBytes.text := by
    rw [h.1]
    rfl
  have htotalBytes : adapterDefault "vgi_result_cache_max_bytes" limits = some totalBytes.text := by
    rw [h.2.1]
    rfl
  have hentries : adapterDefault "vgi_result_cache_max_entries" limits = some entries.text := by
    rw [h.2.2]
    rfl
  simp only [ofLimits, defaultValues, adapterBooleans, adapterSizes, List.cons_append, List.nil_append, List.foldl_cons,
    List.foldl_nil, collectDefault, hdedup, hvalue, hentryBytes, htotalBytes, hentries, put, String.reduceLT,
    String.reduceEq, if_true, if_false, List.map_cons, List.map_nil, Text.lit]

/-- `SET` of an adapter's switch. -/
theorem Reached.switch {limits : CacheLimits} {s : VgiSettings} (hs : Reached limits s) {name stored : Text}
    (hname : name.text ∈ adapterBooleans) (hstored : Stored name.text stored.text) : Reached limits (s.insert name stored) := by
  have hbool : isAdapterBooleanSetting name.text = true ∧ normalizeName name.text = .ok name.text := by
    revert hname
    generalize name.text = text
    revert text
    decide
  refine .set hs hbool.2 (?_ : storedValue name.text stored.text = .ok stored.text)
  rw [storedValue, if_pos hbool.1]
  rcases hstored.1 hbool.1 with h | h <;> rw [h] <;> rfl

/-- Only adapter settings, with these values. -/
def Holds (w : String → Text) : Prop := ∀ v ∈ s.values, v.1.text ∈ adapterSettings ∧ v.2 = w v.1.text

/-- A session's settings as a query sees them. -/
def Snapshot : Prop := ∃ limits, s.Reached limits

theorem Snapshot.stored {s : VgiSettings} (h : s.Snapshot) : ∀ v ∈ s.values, Stored v.1.text v.2.text := by
  obtain ⟨limits, h⟩ := h
  exact h.stored

/-- Whatever the adapter settings can hold, some session holds. -/
theorem exists_snapshot (w : String → Text) (hw : ∀ name ∈ adapterSettings, Stored name (w name).text) :
    ∃ s : VgiSettings, s.Snapshot ∧ s.Holds w := by
  obtain ⟨m, hm, hentryBytes⟩ := (hw "vgi_result_cache_max_entry_bytes" (by decide)).2 (by decide)
  obtain ⟨b, hb, htotalBytes⟩ := (hw "vgi_result_cache_max_bytes" (by decide)).2 (by decide)
  obtain ⟨e, he, hentries⟩ := (hw "vgi_result_cache_max_entries" (by decide)).2 (by decide)
  have hconstructed := @ofLimits_reached ⟨m, b, e, hm, hb, he⟩ _ _ _ ⟨hentryBytes, htotalBytes, hentries⟩
  have hdedup := @Reached.switch _ _ hconstructed (.lit "vgi_exchange_input_dedup") _ (by decide) (hw _ (by decide))
  have hvalue := @Reached.switch _ _ hdedup (.lit "vgi_result_cache_per_value") _ (by decide) (hw _ (by decide))
  refine ⟨_, ⟨_, hvalue⟩, ?_⟩
  intro v hv
  rcases (mem_put_iff (insert _ _ _).sorted).1 hv with rfl | ⟨hv, hnotValue⟩
  · exact ⟨by simp [adapterSettings, Text.lit], rfl⟩
  rcases (mem_put_iff (ofLimits _ _ _).sorted).1 hv with rfl | ⟨hv, hnotDedup⟩
  · exact ⟨by simp [adapterSettings, Text.lit], rfl⟩
  simp only [ofLimits, List.mem_cons, List.not_mem_nil, or_false] at hv
  rcases hv with rfl | rfl | rfl | rfl | rfl
  · exact absurd rfl hnotDedup
  · exact ⟨by simp [adapterSettings, Text.lit], rfl⟩
  · exact ⟨by simp [adapterSettings, Text.lit], rfl⟩
  · exact ⟨by simp [adapterSettings, Text.lit], rfl⟩
  · exact absurd rfl hnotValue

variable {s}

theorem get_mem {name : String} {value : Text} (h : s.get name = some value) :
    ∃ v ∈ s.values, v.1.text = toAsciiLowercase name ∧ v.2 = value := by
  obtain ⟨v, hv, rfl⟩ := Option.map_eq_some_iff.1 h
  exact ⟨v, List.mem_of_find?_eq_some hv, by simpa using List.find?_some hv, rfl⟩

theorem get_adapter {name : String} (h : toAsciiLowercase name ∈ adapterSettings) : ∃ value, s.get name = some value := by
  obtain ⟨v, hv, hname⟩ := s.adapters _ h
  rw [← Option.isSome_iff_exists, get, Option.isSome_map, List.find?_isSome]
  exact ⟨v, hv, by simpa using hname⟩

theorem Holds.get {w : String → Text} (h : s.Holds w) {name : String} {value : Text} (hget : s.get name = some value) :
    toAsciiLowercase name ∈ adapterSettings ∧ value = w (toAsciiLowercase name) := by
  obtain ⟨v, hv, hname, rfl⟩ := get_mem hget
  rw [← hname]
  exact h v hv

theorem Holds.get_eq {w : String → Text} (h : s.Holds w) {name : String} (hname : toAsciiLowercase name ∈ adapterSettings) :
    s.get name = some (w (toAsciiLowercase name)) := by
  obtain ⟨value, hvalue⟩ := s.get_adapter hname
  rw [hvalue, (h.get hvalue).2]

theorem Holds.mem_iff {w : String → Text} (h : s.Holds w) {v : Text × Text} :
    v ∈ s.values ↔ v.1.text ∈ adapterSettings ∧ v.2 = w v.1.text := by
  refine ⟨h v, ?_⟩
  rintro ⟨hname, hvalue⟩
  obtain ⟨u, hu, htext⟩ := s.adapters v.1.text hname
  have hsame : u = v := by
    refine Prod.ext ?_ ?_
    · obtain ⟨⟨utext, ufits⟩, uvalue⟩ := u
      obtain ⟨⟨vtext, vfits⟩, vvalue⟩ := v
      cases htext
      rfl
    · rw [(h u hu).2, htext, hvalue]
  exact hsame ▸ hu

/-- A setting as a declaration reads it, if it is there. -/
def reading {V : Type} (R : SettingReaders V) (s : VgiSettings) (d : SettingSpec) :
    Option (Except String (ScalarValue V)) :=
  (s.get d.name).map fun raw => parseSettingValue R raw.text d.dataType

end VgiSettings

/-! ## What is sent -/

/-- `write_batch`, of which the batch is read back. -/
structure BatchWriter (V Bytes : Type) where
  writeBatch : SettingsBatch V → Bytes
  injective : ∀ a b, writeBatch a = writeBatch b → a = b

section
variable {V Bytes : Type} (R : SettingReaders V) (W : BatchWriter V Bytes)

/-- `VgiConnection::settings_for` (`lib.rs:404-410`), down to the bytes. -/
def settingsFor (s : VgiSettings) (declarations : List SettingSpec) : Except SettingError (Option Bytes) :=
  (encodeSettings R s declarations).map (·.map W.writeBatch)

variable {R W} {s t : VgiSettings} {declarations : List SettingSpec}

theorem encodeColumns_none {d : SettingSpec} (h : s.reading R d = none) :
    encodeColumns R s (d :: declarations) = encodeColumns R s declarations := by
  rw [VgiSettings.reading, Option.map_eq_none_iff] at h
  simp only [encodeColumns, h]

theorem encodeColumns_error {d : SettingSpec} {e : String} (h : s.reading R d = some (.error e)) :
    encodeColumns R s (d :: declarations) = .error ⟨d.name, d.dataType, e⟩ := by
  obtain ⟨raw, hraw, hparse⟩ := Option.map_eq_some_iff.1 h
  simp only [encodeColumns, hraw, hparse]

theorem encodeColumns_ok {d : SettingSpec} {v : ScalarValue V} (h : s.reading R d = some (.ok v)) :
    encodeColumns R s (d :: declarations) =
      (encodeColumns R s declarations).map fun rest => (⟨d.name, d.dataType, v.isNull, []⟩, v) :: rest := by
  obtain ⟨raw, hraw, hparse⟩ := Option.map_eq_some_iff.1 h
  simp only [encodeColumns, hraw, hparse]
  cases encodeColumns R s declarations <;> rfl

/-- What is sent depends on the readings only. -/
theorem encodeColumns_congr (h : ∀ d ∈ declarations, s.reading R d = t.reading R d) :
    encodeColumns R s declarations = encodeColumns R t declarations := by
  induction declarations with
  | nil => rfl
  | cons d declarations ih =>
    have hd := h d List.mem_cons_self
    have hrest := ih fun d hd => h d (List.mem_cons_of_mem _ hd)
    cases hread : s.reading R d with
    | none => rw [encodeColumns_none hread, encodeColumns_none (hd ▸ hread), hrest]
    | some r => cases r with
      | error e => rw [encodeColumns_error hread, encodeColumns_error (hd ▸ hread)]
      | ok v => rw [encodeColumns_ok hread, encodeColumns_ok (hd ▸ hread), hrest]

/-- It is sent if every declared setting that is there can be read. -/
theorem encodeColumns_isOk :
    (∃ columns, encodeColumns R s declarations = .ok columns) ↔
      ∀ d ∈ declarations, ∀ e, s.reading R d ≠ some (.error e) := by
  induction declarations with
  | nil => simp [encodeColumns]
  | cons d declarations ih =>
    rw [List.forall_mem_cons, ← ih]
    cases hread : s.reading R d with
    | none => simp [encodeColumns_none hread]
    | some r => cases r with
      | error e => simp [encodeColumns_error hread]
      | ok v =>
        rw [encodeColumns_ok hread]
        cases encodeColumns R s declarations <;> simp [Except.map]

/-- Of two sessions with the same declared settings, what is sent tells the readings apart. -/
theorem reading_of_columns {columns : SettingsBatch V} (hs : encodeColumns R s declarations = .ok columns)
    (ht : encodeColumns R t declarations = .ok columns)
    (hsame : ∀ d ∈ declarations, (s.get d.name).isSome = (t.get d.name).isSome) :
    ∀ d ∈ declarations, s.reading R d = t.reading R d := by
  induction declarations generalizing columns with
  | nil => simp
  | cons d declarations ih =>
    have hboth : (s.reading R d).isSome = (t.reading R d).isSome := by
      simpa [VgiSettings.reading] using hsame d List.mem_cons_self
    have hrest : ∀ d ∈ declarations, (s.get d.name).isSome = (t.get d.name).isSome :=
      fun d hd => hsame d (List.mem_cons_of_mem _ hd)
    rw [List.forall_mem_cons]
    cases hread : s.reading R d with
    | none =>
      rw [hread, Option.isSome_none, eq_comm, Option.isSome_eq_false_iff, Option.isNone_iff_eq_none] at hboth
      rw [encodeColumns_none hread] at hs
      rw [encodeColumns_none hboth] at ht
      exact ⟨hboth.symm, ih hs ht hrest⟩
    | some r =>
      rw [hread, Option.isSome_some, eq_comm, Option.isSome_iff_exists] at hboth
      obtain ⟨r', hread'⟩ := hboth
      cases r with
      | error e => simp [encodeColumns_error hread] at hs
      | ok v => cases r' with
        | error e => simp [encodeColumns_error hread'] at ht
        | ok v' =>
          rw [encodeColumns_ok hread] at hs
          rw [encodeColumns_ok hread'] at ht
          cases hs' : encodeColumns R s declarations with
          | error e => simp [hs', Except.map] at hs
          | ok rest => cases ht' : encodeColumns R t declarations with
            | error e => simp [ht', Except.map] at ht
            | ok rest' =>
              simp only [hs', Except.map, Except.ok.injEq] at hs
              simp only [ht', Except.map, Except.ok.injEq] at ht
              subst hs
              simp only [List.cons.injEq, Prod.mk.injEq] at ht
              obtain ⟨⟨-, rfl⟩, rfl⟩ := ht
              exact ⟨hread'.symm, ih hs' ht' hrest⟩

theorem settingsFor_ok {sent : Option Bytes} (h : settingsFor R W s declarations = .ok sent) :
    ∃ columns, encodeColumns R s declarations = .ok columns ∧
      sent = if columns.isEmpty then none else some (W.writeBatch columns) := by
  unfold settingsFor encodeSettings at h
  cases hcolumns : encodeColumns R s declarations with
  | error e => simp [hcolumns, Except.map, bind, Except.bind] at h
  | ok columns =>
    simp only [hcolumns, Except.map, bind, Except.bind, pure, Except.pure, Except.ok.injEq] at h
    refine ⟨columns, rfl, h.symm.trans ?_⟩
    split <;> rfl

theorem settingsFor_of_columns {columns : SettingsBatch V} (h : encodeColumns R s declarations = .ok columns) :
    settingsFor R W s declarations = .ok (if columns.isEmpty then none else some (W.writeBatch columns)) := by
  simp only [settingsFor, encodeSettings, h, Except.map, bind, Except.bind, pure, Except.pure]
  split <;> rfl

/-- The bytes tell the columns apart. -/
theorem columns_of_bytes {a b : SettingsBatch V}
    (h : (if a.isEmpty then none else some (W.writeBatch a)) = if b.isEmpty then none else some (W.writeBatch b)) : a = b := by
  cases a with
  | nil => cases b with
    | nil => rfl
    | cons c b => simp at h
  | cons c a => cases b with
    | nil => simp at h
    | cons d b => exact W.injective _ _ (by simpa using h)

/-! ## What the identity says -/

/-- `replace_session_settings`. -/
def Session.replace (runtime : Session) (s : VgiSettings) : Session := { runtime with settings := s }

/-- A value the setting can hold and every declaration of it can read. -/
structure Readable (R : SettingReaders V) (declarations : List SettingSpec) (name : String) (value : Text) : Prop where
  stored : Stored name value.text
  read : ∀ d ∈ declarations, toAsciiLowercase d.name = name → ∃ v, parseSettingValue R value.text d.dataType = .ok v

/-- A declared setting that the identity leaves out reads the same whatever it holds. -/
def ReadAlike (R : SettingReaders V) (runtime : Session) (catalog : String) (declarations : List SettingSpec) : Prop :=
  ∀ d ∈ declarations, runtime.keeps catalog (toAsciiLowercase d.name) = false → ∀ value value' : Text,
    Readable R declarations (toAsciiLowercase d.name) value → Readable R declarations (toAsciiLowercase d.name) value' →
      parseSettingValue R value.text d.dataType = parseSettingValue R value'.text d.dataType

/-- Different bytes, different identities. -/
def Separates (R : SettingReaders V) (W : BatchWriter V Bytes) (runtime : Session) (catalog : String)
    (declarations : List SettingSpec) : Prop :=
  ∀ (s t : VgiSettings) (sent sent' : Option Bytes), s.Snapshot → t.Snapshot →
    settingsFor R W s declarations = .ok sent → settingsFor R W t declarations = .ok sent' → sent ≠ sent' →
      (runtime.replace s).settingsIdentity catalog ≠ (runtime.replace t).settingsIdentity catalog

variable {runtime : Session} {catalog : String}

theorem Session.adapter_of_left_out {name : String} (h : runtime.keeps catalog name = false) :
    isAdapterSetting name = true := by
  simp only [keeps, Bool.not_eq_false', Bool.and_eq_true] at h
  exact h.1

/-- A value that was sent could be read. -/
theorem readable_of_sent {columns : SettingsBatch V} (hs : s.Snapshot) (h : encodeColumns R s declarations = .ok columns)
    {name : String} {value : Text} (hget : s.get name = some value) :
    Readable R declarations (toAsciiLowercase name) value := by
  constructor
  · obtain ⟨v, hv, hname, rfl⟩ := VgiSettings.get_mem hget
    rw [← hname]
    exact hs.stored v hv
  · intro d hd hname
    have hread := encodeColumns_isOk.1 ⟨columns, h⟩ d hd
    have hvalue : s.get d.name = some value := by
      rw [VgiSettings.get, hname]
      exact hget
    rw [VgiSettings.reading, hvalue, Option.map_some] at hread
    cases hparse : parseSettingValue R value.text d.dataType with
    | ok v => exact ⟨v, rfl⟩
    | error e => exact absurd (congrArg some hparse) (hread e)

/-- Two snapshots of one identity are read alike where each setting left out is. -/
theorem reading_of_identity {d : SettingSpec} (hd : d ∈ declarations) (halike : ReadAlike R runtime catalog declarations)
    (hs : s.Snapshot) (ht : t.Snapshot) {columns columns' : SettingsBatch V}
    (hcolumns : encodeColumns R s declarations = .ok columns) (hcolumns' : encodeColumns R t declarations = .ok columns')
    (hidentity : (runtime.replace s).settingsIdentity catalog = (runtime.replace t).settingsIdentity catalog) :
    s.reading R d = t.reading R d := by
  have hkept : (runtime.replace s).kept catalog = (runtime.replace t).kept catalog := pairs_inj hidentity
  cases hkeeps : runtime.keeps catalog (toAsciiLowercase d.name) with
  | true =>
    have hget : s.get d.name = t.get d.name := by
      have hs' := Session.find?_kept (s := runtime.replace s) hkeeps
      have ht' := Session.find?_kept (s := runtime.replace t) hkeeps
      rw [VgiSettings.get, VgiSettings.get]
      exact congrArg (Option.map (·.2)) (hs'.symm.trans ((congrArg _ hkept).trans ht'))
    rw [VgiSettings.reading, VgiSettings.reading, hget]
  | false =>
    have hadapter := mem_adapterSettings (toAsciiLowercase_idem d.name) (Session.adapter_of_left_out hkeeps)
    obtain ⟨value, hvalue⟩ := s.get_adapter hadapter
    obtain ⟨value', hvalue'⟩ := t.get_adapter hadapter
    have hreads := halike d hd hkeeps value value' (readable_of_sent hs hcolumns hvalue)
      (readable_of_sent ht hcolumns' hvalue')
    rw [VgiSettings.reading, VgiSettings.reading, hvalue, hvalue', Option.map_some, Option.map_some, hreads]

theorem sorted_ext {xs ys : List (Text × Text)} (hx : SortedEntries.Sorted (fun v : Text × Text => v.1.text) xs)
    (hy : SortedEntries.Sorted (fun v : Text × Text => v.1.text) ys) (h : ∀ v, v ∈ xs ↔ v ∈ ys) : xs = ys := by
  have : Std.Irrefl fun a b : Text × Text => a.1.text < b.1.text := ⟨fun a => lt_irrefl a.1.text⟩
  have : Std.Antisymm fun a b : Text × Text => a.1.text < b.1.text :=
    ⟨fun a b hab hba => absurd (hab.trans hba) (lt_irrefl a.1.text)⟩
  exact List.Pairwise.eq_of_mem_iff hx hy h

/-- Snapshots that differ in settings that are left out have one identity. -/
theorem identity_of_left_out {w w' : String → Text} (hs : s.Holds w) (ht : t.Holds w')
    (hsame : ∀ name, runtime.keeps catalog name = true → w name = w' name) :
    (runtime.replace s).settingsIdentity catalog = (runtime.replace t).settingsIdentity catalog := by
  have hkept : (runtime.replace s).kept catalog = (runtime.replace t).kept catalog := by
    refine sorted_ext (s.sorted.filter _) (t.sorted.filter _) ?_
    intro v
    rw [Session.kept, Session.kept, List.mem_filter, List.mem_filter]
    refine and_congr_left ?_
    intro hkeeps
    have hkeeps : runtime.keeps catalog v.1.text = true := hkeeps
    change v ∈ s.values ↔ v ∈ t.values
    rw [hs.mem_iff, ht.mem_iff, hsame _ hkeeps]
  exact congrArg (List.flatMap fun v => Framing.framed v.1.bytes ++ Framing.framed v.2.bytes) hkept

theorem columns_of_readable {w : String → Text} (hs : s.Holds w)
    (hw : ∀ name ∈ adapterSettings, Readable R declarations name (w name)) :
    ∃ columns, encodeColumns R s declarations = .ok columns := by
  refine encodeColumns_isOk.2 ?_
  intro d hd e hread
  obtain ⟨raw, hraw, hparse⟩ := Option.map_eq_some_iff.1 hread
  obtain ⟨hname, rfl⟩ := hs.get hraw
  obtain ⟨v, hv⟩ := (hw _ hname).read d hd rfl
  rw [hv] at hparse
  cases hparse

/-- Two snapshots that differ in one setting that is left out would otherwise be sent as different bytes. -/
theorem alike_of_separates (hseparates : Separates R W runtime catalog declarations)
    (hreadable : ∀ name ∈ adapterSettings, ∃ value, Readable R declarations name value) :
    ReadAlike R runtime catalog declarations := by
  have hchoice : ∀ name, ∃ value, name ∈ adapterSettings → Readable R declarations name value := by
    intro name
    by_cases hname : name ∈ adapterSettings
    · obtain ⟨value, hvalue⟩ := hreadable name hname
      exact ⟨value, fun _ => hvalue⟩
    · exact ⟨.lit "", fun h => absurd h hname⟩
  choose w hw using hchoice
  intro d hd hkeeps value value' hvalue hvalue'
  have hname := mem_adapterSettings (toAsciiLowercase_idem d.name) (Session.adapter_of_left_out hkeeps)
  have hupdate : ∀ u, Readable R declarations (toAsciiLowercase d.name) u →
      ∀ name ∈ adapterSettings, Readable R declarations name (Function.update w (toAsciiLowercase d.name) u name) := by
    intro u hu name hmem
    by_cases heq : name = toAsciiLowercase d.name
    · rw [heq, Function.update_self]
      exact hu
    · rw [Function.update_of_ne heq]
      exact hw name hmem
  obtain ⟨s, hs, hholds⟩ := VgiSettings.exists_snapshot _ fun name h => (hupdate value hvalue name h).stored
  obtain ⟨t, ht, hholds'⟩ := VgiSettings.exists_snapshot _ fun name h => (hupdate value' hvalue' name h).stored
  obtain ⟨columns, hcolumns⟩ := columns_of_readable hholds (hupdate value hvalue)
  obtain ⟨columns', hcolumns'⟩ := columns_of_readable hholds' (hupdate value' hvalue')
  have hidentity : (runtime.replace s).settingsIdentity catalog = (runtime.replace t).settingsIdentity catalog := by
    refine identity_of_left_out hholds hholds' ?_
    intro name hkept
    have hne : name ≠ toAsciiLowercase d.name := by
      rintro rfl
      rw [hkeeps] at hkept
      cases hkept
    rw [Function.update_of_ne hne, Function.update_of_ne hne]
  have hsame : columns = columns' := by
    by_contra hne
    refine hseparates s t _ _ hs ht (settingsFor_of_columns hcolumns) (settingsFor_of_columns hcolumns') ?_ hidentity
    exact fun hbytes => hne (columns_of_bytes hbytes)
  have hpresent : ∀ d ∈ declarations, (s.get d.name).isSome = (t.get d.name).isSome := by
    intro d _
    rw [Bool.eq_iff_iff, Option.isSome_iff_exists, Option.isSome_iff_exists]
    exact ⟨fun ⟨u, hu⟩ => ⟨_, hholds'.get_eq (hholds.get hu).1⟩, fun ⟨u, hu⟩ => ⟨_, hholds.get_eq (hholds'.get hu).1⟩⟩
  have hread := reading_of_columns hcolumns (hsame ▸ hcolumns') hpresent d hd
  simpa [VgiSettings.reading, hholds.get_eq hname, hholds'.get_eq hname] using hread

theorem separates_of_alike (halike : ReadAlike R runtime catalog declarations) :
    Separates R W runtime catalog declarations := by
  intro s t sent sent' hs ht hsent hsent' hbytes hidentity
  obtain ⟨columns, hcolumns, rfl⟩ := settingsFor_ok hsent
  obtain ⟨columns', hcolumns', rfl⟩ := settingsFor_ok hsent'
  have hsame := encodeColumns_congr fun d hd => reading_of_identity hd halike hs ht hcolumns hcolumns' hidentity
  rw [hcolumns, hcolumns', Except.ok.injEq] at hsame
  exact hbytes (by rw [hsame])

/-- Nothing is sent that cannot be read. -/
theorem separates_of_unreadable {name : String} (hname : name ∈ adapterSettings)
    (hnone : ∀ value, ¬ Readable R declarations name value) : Separates R W runtime catalog declarations := by
  intro s t sent sent' hs ht hsent hsent' hbytes hidentity
  obtain ⟨columns, hcolumns, -⟩ := settingsFor_ok hsent
  have hlower : ∀ adapter ∈ adapterSettings, toAsciiLowercase adapter = adapter := by decide
  obtain ⟨value, hvalue⟩ := s.get_adapter ((hlower name hname).symm ▸ hname)
  have hreadable := readable_of_sent hs hcolumns hvalue
  rw [hlower name hname] at hreadable
  exact hnone value hreadable

/-- **The identity separates what a worker can see** exactly if some adapter setting holds no value that its declarations
can read, so that nothing is ever sent, or each setting the worker declares and the catalog's metadata does not reads the
same whatever it holds. -/
theorem settings_separated_iff (R : SettingReaders V) (W : BatchWriter V Bytes) (runtime : Session) (catalog : String)
    (declarations : List SettingSpec) :
    Separates R W runtime catalog declarations ↔
      (∃ name ∈ adapterSettings, ∀ value, ¬ Readable R declarations name value) ∨
        ReadAlike R runtime catalog declarations := by
  constructor
  · intro hseparates
    by_cases hreadable : ∀ name ∈ adapterSettings, ∃ value, Readable R declarations name value
    · exact .inr (alike_of_separates hseparates hreadable)
    · push Not at hreadable
      exact .inl hreadable
  · rintro (⟨name, hname, hnone⟩ | halike)
    · exact separates_of_unreadable hname hnone
    · exact separates_of_alike halike

end

/-! ## A catalog bound directly -/

/-- Text settings only. -/
def plainReaders : SettingReaders String where
  text s := s
  other raw _ := .error raw

/-- The batch in place of its stream. -/
def asBytes : BatchWriter String (SettingsBatch String) where
  writeBatch b := b
  injective _ _ h := h

/-- `CacheLimits::default`. -/
def defaultLimits : CacheLimits := ⟨67108864, 268435456, 131072, by decide⟩

def dedupOff : VgiSettings :=
  defaultSettings.insert (.lit "vgi_exchange_input_dedup" VgiSettings.dedup_fits) (.lit "false")

def dedupDeclared : List SettingSpec := [⟨"vgi_exchange_input_dedup", .utf8⟩]

def dedupSent (text : String) : SettingsBatch String :=
  [(⟨"vgi_exchange_input_dedup", .utf8, false, []⟩, .atom .utf8 (some text))]

theorem dedupSent_inj {text text' : String} (h : dedupSent text = dedupSent text') : text = text' := by
  simpa [dedupSent] using h

/-- No catalog was attached by SQL, so none has metadata. The worker is sent `true` or `false`, and the identity is that of
no settings at all. -/
theorem settings_bound_directly :
    defaultSettings.Reached defaultLimits ∧ dedupOff.Reached defaultLimits ∧
      settingsFor plainReaders asBytes defaultSettings dedupDeclared = .ok (some (dedupSent "true")) ∧
      settingsFor plainReaders asBytes dedupOff dedupDeclared = .ok (some (dedupSent "false")) ∧
      Session.settingsIdentity ⟨defaultSettings, []⟩ "direct" = [] ∧ Session.settingsIdentity ⟨dedupOff, []⟩ "direct" = [] ∧
      ¬ Separates plainReaders asBytes ⟨defaultSettings, []⟩ "direct" dedupDeclared := by
  have hdefault : defaultSettings.Reached defaultLimits := VgiSettings.ofLimits_reached ⟨rfl, rfl, rfl⟩
  have hoff : dedupOff.Reached defaultLimits :=
    @VgiSettings.Reached.switch _ _ hdefault (.lit "vgi_exchange_input_dedup") (.lit "false") (by decide)
      ⟨fun _ => .inr rfl, fun h => absurd h (by decide)⟩
  have hsent : settingsFor plainReaders asBytes defaultSettings dedupDeclared = .ok (some (dedupSent "true")) := rfl
  have hsent' : settingsFor plainReaders asBytes dedupOff dedupDeclared = .ok (some (dedupSent "false")) := rfl
  have hidentity : Session.settingsIdentity ⟨defaultSettings, []⟩ "direct" = [] := by decide
  have hidentity' : Session.settingsIdentity ⟨dedupOff, []⟩ "direct" = [] := by decide
  refine ⟨hdefault, hoff, hsent, hsent', hidentity, hidentity', ?_⟩
  intro hseparates
  refine hseparates _ _ _ _ ⟨_, hdefault⟩ ⟨_, hoff⟩ hsent hsent' ?_ (hidentity.trans hidentity'.symm)
  intro hsame
  have htext := dedupSent_inj (Option.some.inj hsame)
  exact absurd htext (by decide)

end VgiDatafusion
