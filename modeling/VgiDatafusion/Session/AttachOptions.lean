import VgiDatafusion.Session.AttachText

/-!
# What becomes of ATTACH options (session.rs:1519-1579, 2046-2080)

| here | there |
| --- | --- |
| `writtenOption`, `listedOptions` | the `key value` pairs of the parenthesised list, as they are inserted (session.rs:1525-1546) |
| `targetPairs` | the `key=value` pairs after the `?` of the target (session.rs:2056-2061) |
| `statementParts` | the target string and what follows the name |
| `WrittenOptions.Consumed` | `type` and the location that is used, by the `remove`s at session.rs:1554 and 1565-1567 |

One of the two routes is followed and the other forgotten: without a location in the list the whole list is, with one the
pairs of the target are (`options_kept_iff`).
-/
namespace VgiDatafusion

/-! ## What is written -/

/-- The options as they are written: in the list behind the statement, and in the target. -/
structure WrittenOptions where
  listed : List (Chars × Chars)
  inTarget : List (Chars × Chars)
  deriving DecidableEq

namespace WrittenOptions

variable (w : WrittenOptions)

def listedNames : List Chars := w.listed.map (·.1)

def names : List Chars := w.listedNames ++ w.inTarget.map (·.1)

/-- The list says where the worker is. -/
def Located : Prop := "location".toList ∈ w.listedNames ∨ "path".toList ∈ w.listedNames

/-- An option of the list that has done its work. -/
def Consumed (name : Chars) : Prop :=
  name = "type".toList ∨ name = "location".toList ∨ (name = "path".toList ∧ "location".toList ∉ w.listedNames)

/-- No option is lost. -/
def KeptIn (spec : AttachSpec) : Prop :=
  (∀ option ∈ w.listed, w.Consumed option.1 ∨ spec.options option.1 = some option.2) ∧
    ∀ option ∈ w.inTarget, (option.1 = "location".toList ∧ ¬ w.Located) ∨ spec.options option.1 = some option.2

end WrittenOptions

section
variable (u : TextTables)

/-- One `key value` pair of the list (`session.rs:1525-1546`). -/
def writtenOption (pair : Chars) : Chars × Chars :=
  let (key, value) := takeIdent u (trim pair)
  let start := trimStart value
  (lower key, trim (((stripPrefix [':', '='] start).or (stripPrefix ['='] start)).getD start))

/-- The pairs of the parenthesised list (`session.rs:1519-1546`). -/
def listedOptions (rest : Chars) : List (Chars × Chars) :=
  match (stripPrefix ['('] rest).bind (stripSuffix ')') with
  | some inner => ((splitTopLevelCommas none 0 inner).filter fun part => !(trim part).isEmpty).map (writtenOption u)
  | none => []

/-- The pairs behind the `?` of the target (`session.rs:2056-2061`). -/
def targetPairs (target : Chars) : List (Chars × Chars) :=
  let query := ((splitOnce '?' target).getD (target, [])).2
  (((split '&' query).filter (!·.isEmpty)).filterMap (splitOnce '=')).map fun pair =>
    (lower (trim pair.1), sqlString (trim pair.2))

/-- The target and what follows the name, of a statement that is an ATTACH. -/
def statementParts (sql : Chars) : Option (Chars × Chars) := do
  let rest ← stripPrefixCi "ATTACH".toList (trimSemicolons (trim sql))
  let (target, rest) ← takeQuoted (skipGuard (trimStart rest))
  let (_, rest) ← readName u target rest
  some (target, trimStart rest)

def writtenOptions (sql : Chars) : WrittenOptions :=
  match statementParts u sql with
  | some (target, rest) => ⟨listedOptions u rest, targetPairs target⟩
  | none => ⟨[], []⟩

end

/-! ## What is read -/

/-- The map of the pairs, a later one replacing an earlier one of its name. -/
def insertAll (pairs : List (Chars × Chars)) (options : Chars → Option Chars) : Chars → Option Chars :=
  pairs.foldl (fun options pair => Function.update options pair.1 (some pair.2)) options

theorem update_none {options : Chars → Option Chars} {name : Chars} (h : options name = none) (key : Chars) :
    Function.update options key none name = none := by
  by_cases hname : name = key
  · rw [hname, Function.update_self]
  · rw [Function.update_of_ne hname, h]

theorem insertAll_of_notMem {pairs : List (Chars × Chars)} {name : Chars} (h : name ∉ pairs.map (·.1))
    (options : Chars → Option Chars) : insertAll pairs options name = options name := by
  induction pairs generalizing options with
  | nil => rfl
  | cons pair pairs ih =>
    simp only [List.map_cons, List.mem_cons, not_or] at h
    rw [insertAll, List.foldl_cons, ← insertAll, ih h.2, Function.update_of_ne h.1]

theorem insertAll_of_mem {pairs : List (Chars × Chars)} (hdistinct : (pairs.map (·.1)).Nodup) {pair : Chars × Chars}
    (h : pair ∈ pairs) (options : Chars → Option Chars) : insertAll pairs options pair.1 = some pair.2 := by
  induction pairs generalizing options with
  | nil => simp at h
  | cons head pairs ih =>
    rw [List.map_cons, List.nodup_cons] at hdistinct
    rw [insertAll, List.foldl_cons, ← insertAll]
    rcases List.mem_cons.1 h with rfl | hmem
    · rw [insertAll_of_notMem hdistinct.1, Function.update_self]
    · exact ih hdistinct.2 hmem _

theorem insertAll_isSome {pairs : List (Chars × Chars)} {name : Chars} :
    (insertAll pairs (fun _ => none) name).isSome ↔ name ∈ pairs.map (·.1) := by
  constructor
  · intro h
    by_contra hmem
    rw [insertAll_of_notMem hmem] at h
    cases h
  · suffices hkeep : ∀ options : Chars → Option Chars, (options name).isSome ∨ name ∈ pairs.map (·.1) →
        (insertAll pairs options name).isSome from fun h => hkeep _ (.inr h)
    induction pairs with
    | nil => simp [insertAll]
    | cons pair pairs ih =>
      intro options h
      rw [insertAll, List.foldl_cons, ← insertAll]
      refine ih _ ?_
      by_cases hname : name = pair.1
      · simp [hname]
      · simpa [Function.update_of_ne hname, hname] using h

section
variable {u : TextTables}

theorem readOption_ok {options options' : Chars → Option Chars} {pair : Chars} (h : readOption u options pair = .ok options') :
    ((trim pair).isEmpty = true ∧ options' = options) ∨
      ((trim pair).isEmpty = false ∧
        options' = Function.update options (writtenOption u pair).1 (some (writtenOption u pair).2)) := by
  rw [readOption] at h
  by_cases hempty : (trim pair).isEmpty
  · rw [if_pos hempty] at h
    cases h
    exact .inl ⟨hempty, rfl⟩
  · rw [if_neg hempty] at h
    dsimp only at h
    split at h
    · cases h
    split at h
    · cases h
    cases h
    exact .inr ⟨by simpa using hempty, rfl⟩

theorem foldlM_readOption_ok {parts : List Chars} {options options' : Chars → Option Chars}
    (h : parts.foldlM (readOption u) options = .ok options') :
    options' = insertAll ((parts.filter fun part => !(trim part).isEmpty).map (writtenOption u)) options := by
  induction parts generalizing options with
  | nil =>
    cases h
    rfl
  | cons part parts ih =>
    rw [List.foldlM_cons] at h
    obtain ⟨next, hnext, hrest⟩ := except_of_bind_ok h
    have hih := ih hrest
    rcases readOption_ok hnext with ⟨hempty, hsame⟩ | ⟨hempty, hinsert⟩
    · simpa [hempty, hsame] using hih
    · simpa [hempty, insertAll, hinsert] using hih

/-- The list is read as it is written. -/
theorem readOptions_ok {rest : Chars} {options : Chars → Option Chars} (h : readOptions u rest = .ok options) :
    options = insertAll (listedOptions u rest) fun _ => none := by
  rw [readOptions] at h
  rw [listedOptions]
  cases hinner : (stripPrefix ['('] rest).bind (stripSuffix ')') with
  | some inner =>
    rw [hinner] at h
    exact foldlM_readOption_ok h
  | none =>
    rw [hinner] at h
    dsimp only at h
    split at h
    · cases h
      rfl
    · cases h

/-- So are the pairs of the target, where all of them are pairs. -/
theorem targetOptions_ok {target : Chars} {options : Chars → Option Chars}
    (h : targetOptions u ((splitOnce '?' target).getD (target, [])).2 = .ok options) :
    options = insertAll (targetPairs target) fun _ => none := by
  rw [targetOptions] at h
  rw [targetPairs]
  generalize (split '&' ((splitOnce '?' target).getD (target, [])).2).filter (!·.isEmpty) = parts at h ⊢
  generalize (fun _ => none : Chars → Option Chars) = start at h ⊢
  induction parts generalizing start with
  | nil =>
    cases h
    rfl
  | cons part parts ih =>
    rw [List.foldlM_cons] at h
    obtain ⟨next, hnext, h⟩ := except_of_bind_ok h
    cases hsplit : splitOnce '=' part with
    | none =>
      rw [hsplit] at hnext
      cases hnext
    | some pair =>
      rw [hsplit] at hnext
      cases hnext
      simpa [hsplit, insertAll] using ih _ h

theorem dropType_ok {options options' : Chars → Option Chars} (h : dropType u options = .ok options') :
    options' = Function.update options "type".toList none := by
  rw [dropType] at h
  split at h
  · rename_i hnone
    cases h
    rw [← hnone, Function.update_eq_self]
  · obtain ⟨kind, -, h⟩ := except_of_bind_ok h
    split at h
    · cases h
      rfl
    · cases h

/-! ## Both routes -/

/-- An accepted statement, read step by step. -/
theorem parseDuckdbAttach_ok {sql : Chars} {spec : AttachSpec} (h : parseDuckdbAttach u sql = some (.ok spec)) :
    ∃ target name rest, statementParts u sql = some (target, rest) ∧
      locate u target name (Function.update (insertAll (listedOptions u rest) fun _ => none) "type".toList none) = .ok spec := by
  obtain ⟨start, hstart, h⟩ := Option.map_eq_some_iff.1 h
  rw [parseTarget] at h
  cases hquoted : takeQuoted (skipGuard (trimStart start)) with
  | none =>
    rw [hquoted] at h
    cases h
  | some quoted =>
    obtain ⟨target, afterTarget⟩ := quoted
    rw [hquoted] at h
    dsimp only at h
    cases hname : readName u target afterTarget with
    | none =>
      rw [hname] at h
      cases h
    | some named =>
      obtain ⟨name, rest⟩ := named
      rw [hname] at h
      obtain ⟨options, hoptions, h⟩ := except_of_bind_ok h
      obtain ⟨typed, htyped, h⟩ := except_of_bind_ok h
      refine ⟨target, name, trimStart rest, ?_, ?_⟩
      · simp only [statementParts, hstart, Option.bind_eq_bind, Option.bind_some, hquoted, hname]
      · rw [← readOptions_ok hoptions, ← dropType_ok htyped]
        exact h

/-- The options of the list without the location, or those of the target without it. -/
theorem locate_ok {target name : Chars} {options : Chars → Option Chars} {spec : AttachSpec}
    (h : locate u target name options = .ok spec) :
    (∃ raw rest, takeLocation options = some (raw, rest) ∧ spec.options = rest) ∨
      (takeLocation options = none ∧
        spec.options = Function.update (insertAll (targetPairs target) fun _ => none) "location".toList none) := by
  rw [locate] at h
  cases htake : takeLocation options with
  | some taken =>
    obtain ⟨raw, rest⟩ := taken
    rw [htake] at h
    obtain ⟨location, -, h⟩ := except_of_bind_ok h
    split at h
    · cases h
    · cases h
      exact .inl ⟨raw, rest, rfl, rfl⟩
  | none =>
    rw [htake] at h
    refine .inr ⟨rfl, ?_⟩
    dsimp only at h
    rw [AttachSpec.parse] at h
    dsimp only at h
    split at h
    · cases h
    obtain ⟨read, hread, h⟩ := except_of_bind_ok h
    rw [targetOptions_ok hread] at h
    split at h
    · cases h
    · obtain ⟨location, -, h⟩ := except_of_bind_ok h
      split at h
      · cases h
      · cases h
        rfl

theorem takeLocation_eq (options : Chars → Option Chars) :
    (takeLocation options = none ∧ options "location".toList = none ∧ options "path".toList = none) ∨
      ∃ raw key, takeLocation options = some (raw, Function.update options key none) ∧
        (key = "location".toList ∨ (key = "path".toList ∧ options "location".toList = none)) ∧ options key = some raw := by
  rw [takeLocation]
  cases hlocation : options "location".toList with
  | some raw => exact .inr ⟨raw, _, rfl, .inl rfl, hlocation⟩
  | none =>
    cases hpath : options "path".toList with
    | none => exact .inl ⟨rfl, rfl, rfl⟩
    | some raw => exact .inr ⟨raw, _, rfl, .inr ⟨rfl, rfl⟩, hpath⟩

section
variable {w : WrittenOptions} {spec : AttachSpec} (hdistinct : w.names.Nodup)
include hdistinct

/-- Located by the list, a statement keeps the list and forgets the target. -/
theorem keptIn_of_listed {key : Chars} (hlocated : key ∈ w.listedNames)
    (hkey : key = "location".toList ∨ (key = "path".toList ∧ "location".toList ∉ w.listedNames))
    (hspec : spec.options = Function.update (Function.update (insertAll w.listed fun _ => none) "type".toList none) key none) :
    w.KeptIn spec ↔ w.inTarget = [] := by
  have hLocated : w.Located := by
    rcases hkey with rfl | ⟨rfl, -⟩
    · exact .inl hlocated
    · exact .inr hlocated
  have hlisted : (w.listed.map (·.1)).Nodup := (List.nodup_append.1 hdistinct).1
  constructor
  · rintro ⟨-, htarget⟩
    refine List.eq_nil_iff_forall_not_mem.2 fun option hoption => ?_
    have hkept := (htarget option hoption).resolve_left fun h => h.2 hLocated
    have hforeign : option.1 ∉ w.listed.map (·.1) := fun hmem =>
      (List.nodup_append.1 hdistinct).2.2 _ hmem _ (List.mem_map_of_mem hoption) rfl
    rw [hspec, update_none (update_none (insertAll_of_notMem hforeign _) _)] at hkept
    cases hkept
  · intro hnil
    refine ⟨fun option hoption => ?_, by simp [hnil]⟩
    by_cases hconsumed : w.Consumed option.1
    · exact .inl hconsumed
    · simp only [WrittenOptions.Consumed, not_or] at hconsumed
      have hne : option.1 ≠ key := by
        rintro rfl
        rcases hkey with hkey | hkey
        · exact hconsumed.2.1 hkey
        · exact hconsumed.2.2 hkey
      right
      rw [hspec, Function.update_of_ne hne, Function.update_of_ne hconsumed.1, insertAll_of_mem hlisted hoption]

/-- Located by the target, it keeps the pairs of the target and forgets the list. -/
theorem keptIn_of_target (hlocated : ¬ w.Located)
    (hspec : spec.options = Function.update (insertAll w.inTarget fun _ => none) "location".toList none) :
    w.KeptIn spec ↔ ∀ option ∈ w.listed, option.1 = "type".toList := by
  constructor
  · rintro ⟨hlist, -⟩ option hoption
    have hmem : option.1 ∈ w.listedNames := List.mem_map_of_mem hoption
    rcases hlist option hoption with (htype | hlocation | ⟨hpath, -⟩) | hkept
    · exact htype
    · exact absurd (.inl (hlocation ▸ hmem)) hlocated
    · exact absurd (.inr (hpath ▸ hmem)) hlocated
    · have hforeign : option.1 ∉ w.inTarget.map (·.1) := fun htarget =>
        (List.nodup_append.1 hdistinct).2.2 _ hmem _ htarget rfl
      rw [hspec, update_none (insertAll_of_notMem hforeign _)] at hkept
      cases hkept
  · intro htype
    refine ⟨fun option hoption => .inl (.inl (htype option hoption)), fun option hoption => ?_⟩
    by_cases hname : option.1 = "location".toList
    · exact .inl ⟨hname, hlocated⟩
    · right
      rw [hspec, Function.update_of_ne hname, insertAll_of_mem (List.nodup_append.1 hdistinct).2.1 hoption]

end

/-- **No option of an accepted statement is lost exactly if a list with a location comes with a target without pairs, and a
list without one has nothing but a type.** -/
theorem options_kept_iff {sql : Chars} {spec : AttachSpec} (h : parseDuckdbAttach u sql = some (.ok spec))
    (hdistinct : (writtenOptions u sql).names.Nodup) :
    (writtenOptions u sql).KeptIn spec ↔
      ((writtenOptions u sql).Located → (writtenOptions u sql).inTarget = []) ∧
        (¬ (writtenOptions u sql).Located → ∀ option ∈ (writtenOptions u sql).listed, option.1 = "type".toList) := by
  obtain ⟨target, name, rest, hparts, hlocate⟩ := parseDuckdbAttach_ok h
  have hwritten : writtenOptions u sql = ⟨listedOptions u rest, targetPairs target⟩ := by rw [writtenOptions, hparts]
  rw [hwritten] at hdistinct ⊢
  -- a location is taken exactly where one is listed
  have hlisted : ∀ key, key ≠ "type".toList → ((Function.update (insertAll (listedOptions u rest) fun _ => none) "type".toList none
      key).isSome ↔ key ∈ (listedOptions u rest).map (·.1)) := fun key hkey => by
    rw [Function.update_of_ne hkey, insertAll_isSome]
  have hlocation := hlisted "location".toList (by decide)
  have hpath := hlisted "path".toList (by decide)
  rcases takeLocation_eq (Function.update (insertAll (listedOptions u rest) fun _ => none) "type".toList none) with
    ⟨htake, hnone, hnone'⟩ | ⟨raw, key, htake, hkey, hraw⟩
  · have hnot : ¬ WrittenOptions.Located ⟨listedOptions u rest, targetPairs target⟩ := by
      rintro (hmem | hmem)
      · exact absurd (hlocation.2 hmem) (by rw [hnone]; decide)
      · exact absurd (hpath.2 hmem) (by rw [hnone']; decide)
    rcases locate_ok hlocate with ⟨_, _, htake', -⟩ | ⟨-, hspec⟩
    · rw [htake] at htake'
      cases htake'
    · rw [keptIn_of_target hdistinct hnot hspec]
      exact ⟨fun h => ⟨fun hlocated => absurd hlocated hnot, fun _ => h⟩, fun h => h.2 hnot⟩
  · rcases locate_ok hlocate with ⟨_, _, htake', hspec⟩ | ⟨htake', -⟩
    · rw [htake] at htake'
      cases htake'
      have hmem : key ∈ (listedOptions u rest).map (·.1) := by
        refine (hlisted key ?_).1 (by rw [hraw]; rfl)
        rcases hkey with rfl | ⟨rfl, -⟩ <;> decide
      have hkey' : key = "location".toList ∨ (key = "path".toList ∧ "location".toList ∉ (listedOptions u rest).map (·.1)) := by
        refine hkey.imp_right fun h => ⟨h.1, fun hmem => ?_⟩
        exact absurd (hlocation.2 hmem) (by rw [h.2]; decide)
      have hLocated : WrittenOptions.Located ⟨listedOptions u rest, targetPairs target⟩ := by
        rcases hkey with rfl | ⟨rfl, -⟩
        · exact .inl hmem
        · exact .inr hmem
      rw [keptIn_of_listed hdistinct hmem hkey' hspec]
      exact ⟨fun h => ⟨fun _ => h, fun hnot => absurd hLocated hnot⟩, fun h => h.1 hLocated⟩
    · rw [htake] at htake'
      cases htake'

end

/-- The cache of a worker named in the target stays on. -/
theorem option_lost : ¬ ∀ (u : TextTables) (sql : Chars) (spec : AttachSpec), parseDuckdbAttach u sql = some (.ok spec) →
    (writtenOptions u sql).names.Nodup → (writtenOptions u sql).KeptIn spec := by
  intro h
  have hwritten : writtenOptions asciiTables "ATTACH 'c?location=w' AS a (cache false)".toList =
      ⟨[("cache".toList, "false".toList)], [("location".toList, "'w'".toList)]⟩ := by decide
  have hparse : ∃ spec, parseDuckdbAttach asciiTables "ATTACH 'c?location=w' AS a (cache false)".toList = some (.ok spec) ∧
      spec.options "cache".toList = none := ⟨_, rfl, by decide⟩
  obtain ⟨spec, hspec, hnone⟩ := hparse
  have hkept := (h asciiTables _ spec hspec (by rw [hwritten]; decide)).1
  rw [hwritten] at hkept
  rcases hkept _ List.mem_cons_self with (h | h | ⟨h, -⟩) | h
  · revert h
    decide
  · revert h
    decide
  · revert h
    decide
  · rw [hnone] at h
    cases h

theorem options_kept_iff_listed : ∃ spec,
    parseDuckdbAttach asciiTables "ATTACH 'c' AS a (TYPE vgi, LOCATION 'w', cache false)".toList = some (.ok spec) ∧
      (writtenOptions asciiTables "ATTACH 'c' AS a (TYPE vgi, LOCATION 'w', cache false)".toList).KeptIn spec := by
  have hwritten : writtenOptions asciiTables "ATTACH 'c' AS a (TYPE vgi, LOCATION 'w', cache false)".toList =
      ⟨[("type".toList, "vgi".toList), ("location".toList, "'w'".toList), ("cache".toList, "false".toList)], []⟩ := by decide
  have hlocated : (writtenOptions asciiTables "ATTACH 'c' AS a (TYPE vgi, LOCATION 'w', cache false)".toList).Located := by
    rw [hwritten]
    exact .inl (by decide)
  refine ⟨_, rfl, ?_⟩
  rw [options_kept_iff rfl (by rw [hwritten]; decide)]
  exact ⟨fun _ => by rw [hwritten], fun hnot => absurd hlocated hnot⟩

end VgiDatafusion
