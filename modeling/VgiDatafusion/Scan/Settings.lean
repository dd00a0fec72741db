import VgiDatafusion.Arrow
import VgiDatafusion.Library.Framing
import VgiDatafusion.Session.Options

/-!
# Session settings and what a key says about them

| here | there |
| --- | --- |
| `VgiSettings`, `VgiSettings.get` | `VgiSettings` and its `get` (settings.rs:26-29, 127-132) |
| `isAdapterSetting` | `is_adapter_setting` (settings.rs:216-230) |
| `VgiCatalogMetadata`, `Session` | the `catalog_metadata` and `session_settings` of a `VgiRuntime` (runtime.rs:264-268) |
| `Session.declaredAdapterSettings`, `Session.keeps` | the filter of `session_settings_identity` (runtime.rs:500-524) |
| `Session.settingsIdentity` | `session_settings_identity` (runtime.rs:499-532) |
| `parseSettingValue`, `encodeColumns`, `encodeSettings` | settings.rs:258-298 |

A bind sends the values of the settings its worker declares (`encodeSettings`); a cache key holds an
encoding of the session's own pairs (`settingsIdentity`). The second determines the first as long as the
session keeps every setting the worker declares (`encodeSettings_of_identity`): adapter settings are kept
only for a catalog whose metadata declares them, and the metadata is that of `ATTACH`.
-/
namespace VgiDatafusion

open Framing

/-! ## Strings and buffers

Rust's are at most `isize::MAX` bytes. It matters where a length is written down. -/

structure Text where
  text : String
  fits : text.utf8ByteSize < 2 ^ 63
  deriving DecidableEq

structure Buffer where
  bytes : List UInt8
  fits : bytes.length < 2 ^ 63
  deriving DecidableEq

/-- `as_bytes`. -/
def Text.bytes (t : Text) : List UInt8 := t.text.toByteArray.data.toList

theorem Text.length_bytes (t : Text) : t.bytes.length = t.text.utf8ByteSize := rfl

theorem Text.bytes_inj {s t : Text} (h : s.bytes = t.bytes) : s = t := by
  obtain ⟨s, hs⟩ := s
  obtain ⟨t, ht⟩ := t
  have hdata : s.toByteArray.data = t.toByteArray.data := Array.toList_inj.1 h
  have htext : s = t := String.toByteArray_inj.1 (ByteArray.ext hdata)
  subst htext
  rfl

theorem Text.length_lt (t : Text) : t.bytes.length < 2 ^ 64 := by
  have hfits := t.fits
  rw [Text.length_bytes]
  omega

/-- `to_ascii_lowercase`. -/
def toAsciiLowercase (s : String) : String := String.ofList (s.toList.map Char.toLower)

@[simp] theorem toAsciiLowercase_idem (s : String) : toAsciiLowercase (toAsciiLowercase s) = toAsciiLowercase s := by
  have hchar : Char.toLower ∘ Char.toLower = Char.toLower := by
    funext c
    exact char_toLower_idem c
  rw [toAsciiLowercase, toAsciiLowercase, String.toList_ofList, List.map_map, hchar]

def eqIgnoreAsciiCase (s t : String) : Bool := toAsciiLowercase s == toAsciiLowercase t

/-! ## The session -/

/-- The names of the adapter's own settings (`settings.rs:36-41`). -/
def adapterSettings : List String :=
  ["vgi_exchange_input_dedup", "vgi_result_cache_per_value", "vgi_result_cache_max_entry_bytes",
    "vgi_result_cache_max_bytes", "vgi_result_cache_max_entries"]

/-- `is_adapter_setting` (`settings.rs:217-219`). -/
def isAdapterSetting (name : String) : Bool := adapterSettings.any (eqIgnoreAsciiCase · name)

/-- The pairs of a `BTreeMap`, in key order. The adapter's own settings are there from the constructor on;
a reset puts their defaults back. -/
structure VgiSettings where
  values : List (Text × Text)
  sorted : values.Pairwise fun a b => a.1.text < b.1.text
  adapters : ∀ name ∈ adapterSettings, ∃ v ∈ values, v.1.text = name

/-- A name or value short enough to be written out. -/
def Text.lit (text : String) (fits : text.utf8ByteSize < 2 ^ 63 := by decide) : Text := ⟨text, fits⟩

/-- `VgiSettings::default`. -/
def defaultSettings : VgiSettings where
  values := [(.lit "vgi_exchange_input_dedup", .lit "true"), (.lit "vgi_result_cache_max_bytes", .lit "268435456"),
    (.lit "vgi_result_cache_max_entries", .lit "131072"), (.lit "vgi_result_cache_max_entry_bytes", .lit "67108864"),
    (.lit "vgi_result_cache_per_value", .lit "true")]
  sorted := by decide
  adapters := by decide

/-- `VgiSettings::get` (`settings.rs:126-130`). -/
def VgiSettings.get (s : VgiSettings) (name : String) : Option Text :=
  (s.values.find? fun v => v.1.text == toAsciiLowercase name).map (·.2)

/-- A setting a worker declares, with the Arrow type its value is cast to. -/
structure SettingSpec where
  name : String
  dataType : DataType
  deriving DecidableEq

/-- `VgiCatalogMetadata` (`runtime.rs:110-135`): the setting names that a catalog declares. -/
structure VgiCatalogMetadata where
  workerCatalog : String
  settings : List SettingSpec
  deriving DecidableEq

/-- The `session_settings` and the `catalog_metadata` of `VgiRuntime` (`runtime.rs:247-268`). -/
structure Session where
  settings : VgiSettings
  catalogMetadata : List (String × VgiCatalogMetadata)

namespace Session

/-- The adapter settings that the catalog's worker declares too (`runtime.rs:500-524`). -/
def declaredAdapterSettings (s : Session) (catalog : String) : List String :=
  let declared := s.catalogMetadata.filter fun entry =>
    eqIgnoreAsciiCase entry.1 catalog || eqIgnoreAsciiCase entry.2.workerCatalog catalog
  let settings := declared.flatMap fun entry => entry.2.settings
  (settings.filter fun setting => isAdapterSetting setting.name).map fun setting => toAsciiLowercase setting.name

/-- Not an adapter setting, or one the catalog's worker declares as well. -/
def keeps (s : Session) (catalog name : String) : Bool :=
  !(isAdapterSetting name && !(s.declaredAdapterSettings catalog).contains name)

/-- `session_settings_identity` (`runtime.rs:499-532`). -/
def settingsIdentity (s : Session) (catalog : String) : List UInt8 :=
  (s.settings.values.filter fun v => s.keeps catalog v.1.text).flatMap fun v => framed v.1.bytes ++ framed v.2.bytes

end Session

/-! ## What a bind sends -/

/-- The readers of a setting's string: as text, or by DataFusion and, for structs, JSON. -/
structure SettingReaders (V : Type) where
  text : String → V
  other : String → DataType → Except String (ScalarValue V)

variable {V : Type} (R : SettingReaders V)

/-- `parse_setting_value` (`settings.rs:296-304`). -/
def parseSettingValue (raw : String) : DataType → Except String (ScalarValue V)
  | .utf8 => .ok (.atom .utf8 (some (R.text raw)))
  | .largeUtf8 => .ok (.atom .largeUtf8 (some (R.text raw)))
  | .utf8View => .ok (.atom .utf8View (some (R.text raw)))
  | dataType => R.other raw dataType

/-- "VGI setting `name` cannot be cast to `dataType`: `error`". -/
structure SettingError where
  name : String
  dataType : DataType
  error : String

/-- The one-row batch of settings, column by column. -/
abbrev SettingsBatch (V : Type) := List (Field × ScalarValue V)

/-- The loop of `encode_settings` (`settings.rs:263-294`). -/
def encodeColumns (configured : VgiSettings) : List SettingSpec → Except SettingError (SettingsBatch V)
  | [] => .ok []
  | declaration :: declarations =>
    match configured.get declaration.name with
    | none => encodeColumns configured declarations
    | some raw =>
      match parseSettingValue R raw.text declaration.dataType with
      | .error error => .error ⟨declaration.name, declaration.dataType, error⟩
      | .ok scalar => do
        let rest ← encodeColumns configured declarations
        return (⟨declaration.name, declaration.dataType, scalar.isNull, []⟩, scalar) :: rest

/-- `encode_settings` (`settings.rs:263-294`). -/
def encodeSettings (configured : VgiSettings) (declarations : List SettingSpec) :
    Except SettingError (Option (SettingsBatch V)) := do
  let columns ← encodeColumns R configured declarations
  return if columns.isEmpty then none else some columns

/-- What is sent depends on the declared settings only. -/
theorem encodeSettings_congr {s t : VgiSettings} {declarations : List SettingSpec}
    (h : ∀ declaration ∈ declarations, s.get declaration.name = t.get declaration.name) :
    encodeSettings R s declarations = encodeSettings R t declarations := by
  have hcolumns : encodeColumns R s declarations = encodeColumns R t declarations := by
    induction declarations with
    | nil => rfl
    | cons declaration declarations ih =>
      have hget := h declaration List.mem_cons_self
      have hrest := ih fun d hd => h d (List.mem_cons_of_mem _ hd)
      rw [encodeColumns, encodeColumns, hget, hrest]
  rw [encodeSettings, encodeSettings, hcolumns]

/-! ## The identity determines what is sent -/

/-- The session keeps every setting the declarations read. -/
def Session.Covers (s : Session) (catalog : String) (declarations : List SettingSpec) : Prop :=
  ∀ declaration ∈ declarations, s.keeps catalog (toAsciiLowercase declaration.name) = true

instance (s : Session) (catalog : String) (declarations : List SettingSpec) :
    Decidable (s.Covers catalog declarations) := List.decidableBAll _ _

theorem pairs_inj {xs ys : List (Text × Text)}
    (h : (xs.flatMap fun v => framed v.1.bytes ++ framed v.2.bytes) =
      ys.flatMap fun v => framed v.1.bytes ++ framed v.2.bytes) : xs = ys := by
  induction xs generalizing ys with
  | nil =>
    cases ys with
    | nil => rfl
    | cons y ys =>
      have hlength := congrArg List.length h
      simp [framed] at hlength
      omega
  | cons x xs ih =>
    obtain ⟨name, value⟩ := x
    cases ys with
    | nil =>
      have hlength := congrArg List.length h
      simp [framed] at hlength
    | cons y ys =>
      obtain ⟨name', value'⟩ := y
      simp only [List.flatMap_cons, List.append_assoc] at h
      obtain ⟨hname, h⟩ := framed_append_inj name.length_lt name'.length_lt h
      obtain ⟨hvalue, h⟩ := framed_append_inj value.length_lt value'.length_lt h
      rw [Text.bytes_inj hname, Text.bytes_inj hvalue, ih h]

/-- An adapter setting in lower case is one of the five names. -/
theorem mem_adapterSettings {name : String} (hlower : toAsciiLowercase name = name) (h : isAdapterSetting name = true) :
    name ∈ adapterSettings := by
  obtain ⟨candidate, hmem, heq⟩ := List.any_eq_true.1 h
  have hcandidate : ∀ c ∈ adapterSettings, toAsciiLowercase c = c := by decide
  rw [eqIgnoreAsciiCase, beq_iff_eq, hcandidate candidate hmem, hlower] at heq
  rw [← heq]
  exact hmem

/-- The kept pairs of a session, as its identity encodes them. -/
def Session.kept (s : Session) (catalog : String) : List (Text × Text) :=
  s.settings.values.filter fun v => s.keeps catalog v.1.text

/-- Looking a kept name up among the kept pairs is looking it up. -/
theorem Session.find?_kept {s : Session} {catalog name : String} (h : s.keeps catalog name = true) :
    ((s.kept catalog).find? fun v => v.1.text == name) = s.settings.values.find? fun v => v.1.text == name := by
  rw [kept, List.find?_filter]
  congr 1
  funext v
  by_cases hv : v.1.text = name
  · simp [hv, h]
  · simp [hv]

/-- What one session keeps, another of the same kept pairs keeps: the pair itself is there. -/
theorem Session.keeps_of_kept {s t : Session} {catalog name : String} (hlower : toAsciiLowercase name = name)
    (hs : s.keeps catalog name = true) (h : s.kept catalog = t.kept catalog) : t.keeps catalog name = true := by
  by_cases hadapter : isAdapterSetting name = true
  · obtain ⟨v, hv, hname⟩ := s.settings.adapters name (mem_adapterSettings hlower hadapter)
    have hkept : v ∈ s.kept catalog := by
      rw [kept, List.mem_filter, hname]
      exact ⟨hv, hs⟩
    rw [h, kept, List.mem_filter, hname] at hkept
    exact hkept.2
  · simp [keeps, hadapter]

/-- **Two sessions of one identity send the same settings**, when the first keeps what the worker declares. -/
theorem encodeSettings_of_identity {s t : Session} {catalog : String} {declarations : List SettingSpec}
    (hs : s.Covers catalog declarations) (h : s.settingsIdentity catalog = t.settingsIdentity catalog) :
    encodeSettings R s.settings declarations = encodeSettings R t.settings declarations := by
  apply encodeSettings_congr
  intro declaration hdeclaration
  have hkept : s.kept catalog = t.kept catalog := pairs_inj h
  have hkeeps := hs declaration hdeclaration
  have hkeeps' := Session.keeps_of_kept (toAsciiLowercase_idem _) hkeeps hkept
  rw [VgiSettings.get, VgiSettings.get, ← Session.find?_kept hkeeps, ← Session.find?_kept hkeeps', hkept]

end VgiDatafusion
