import VgiDatafusion.Library.Lists
import VgiDatafusion.Library.StepSystem
import VgiDatafusion.Scan.Settings

/-!
# Settings of a key and settings of its bind, over whole runs

| here | there |
| --- | --- |
| `SessionAction.replaceSettings` | `SET` and `RESET`, reaching `replace_session_settings` (runtime.rs:483-489) |
| `setCatalogMetadata`, `removeCatalogMetadata` | runtime.rs:420-432, called by `ATTACH` and `DETACH` |
| `planSplits`, `planBind`, `planPut` | `plan_splits`: its key (lib.rs:1592-1623), its bind (lib.rs:1654), `plan_put` |
| `newScan` | the `cache_key` of `VgiScanExec::new` (lib.rs:2861-2893) |
| `jobBind`, `jobIdle`, `scanStore` | the bind of each partition's job (lib.rs:4833), a partition without work, the stored capture |
| `exchangeBind`, `exchangeKey`, `exchangeStore` | table_input.rs:147-180, scalar.rs:975-1040: bind first, `exchange_cache_key_template` later |

A call reads the shared settings twice: once for its key, once (a scan: once for each partition) for its bind.
Every read is a step of its own, so a `SET` can fall between any two of them. Calls of any number of
catalogs are under way at once; each carries the declarations of its attach handle, which its connection
keeps. A `VgiScanExec` copied by an optimizer rule keeps its key and takes the place of the first.
-/
namespace VgiDatafusion

open StepSystem ListFacts

/-- The catalog a call binds to, with the settings its worker declared when attached. -/
structure Target where
  catalog : String
  declarations : List SettingSpec
  deriving DecidableEq

section

variable (V : Type)

inductive PartitionBind
  | waiting
  | bound (sent : Option (SettingsBatch V))
  | idle

inductive SettingsCall
  /-- The plan key is read. -/
  | planKeyed (target : Target) (key : List UInt8)
  | planBound (target : Target) (key : List UInt8) (sent : Option (SettingsBatch V))
  /-- The result key is read; each partition binds when it runs. -/
  | scan (target : Target) (key : List UInt8) (partitions : List (PartitionBind V))
  | exchangeBound (target : Target) (sent : Option (SettingsBatch V))
  | exchangeKeyed (target : Target) (sent : Option (SettingsBatch V)) (key : List UInt8)
  | finished

inductive StoredKind
  | plan
  | rows
  deriving DecidableEq

/-- A split plan or rows in a cache: the settings of the key, and what the binds behind it sent. -/
structure StoredEntry where
  kind : StoredKind
  target : Target
  key : List UInt8
  sent : List (Option (SettingsBatch V))

/-- The session with the calls that read it and the entries they stored. -/
structure SettingsState where
  session : Session
  calls : List (SettingsCall V) := []
  stored : List (StoredEntry V) := []

end

/-- A `SET`, an ATTACH or DETACH, or a step of one call, in any order. -/
inductive SessionAction
  | replaceSettings (settings : VgiSettings)
  | setCatalogMetadata (catalogAlias : String) (metadata : VgiCatalogMetadata)
  | removeCatalogMetadata (catalogAlias : String)
  | planSplits (target : Target)
  | planBind (i : Nat)
  | planPut (i : Nat)
  | newScan (target : Target) (partitions : Nat)
  | jobBind (i p : Nat)
  | jobIdle (i p : Nat)
  | scanStore (i : Nat)
  | exchangeBind (target : Target)
  | exchangeKey (i : Nat)
  | exchangeStore (i : Nat)
  /-- A call ends, with an error or with nothing more to store. -/
  | finish (i : Nat)
  | evict (i : Nat)

variable {V : Type} (R : SettingReaders V)

def PartitionBind.sent : PartitionBind V → Option (Option (SettingsBatch V))
  | .bound sent => some sent
  | _ => none

def PartitionBind.isWaiting : PartitionBind V → Bool
  | .waiting => true
  | _ => false

namespace SettingsState

variable (s : SettingsState V)

/-- `VgiConnection::settings_for` (`lib.rs:404-410`). -/
def settingsFor (target : Target) : Except SettingError (Option (SettingsBatch V)) :=
  encodeSettings R s.session.settings target.declarations

def begin (call : SettingsCall V) : SettingsState V := { s with calls := s.calls ++ [call] }

def update (i : Nat) (call : SettingsCall V) : SettingsState V := { s with calls := s.calls.set i call }

def store (entry : StoredEntry V) : SettingsState V := { s with stored := entry :: s.stored }

/-- The bind of a partition; a setting that cannot be cast fails the scan. -/
def bindPartition (i p : Nat) (target : Target) (key : List UInt8) (partitions : List (PartitionBind V)) :
    SettingsState V :=
  match s.settingsFor R target with
  | .ok sent => s.update i (.scan target key (partitions.set p (.bound sent)))
  | .error _ => s.update i .finished

/-- One step of the session or of a call; a call's key and its bind are read at two moments. -/
def step : SessionAction → Option (SettingsState V)
  | .replaceSettings settings => some { s with session := { s.session with settings } }
  | .setCatalogMetadata catalogAlias metadata =>
    let others := s.session.catalogMetadata.filter fun entry => entry.1 != toAsciiLowercase catalogAlias
    some { s with session := { s.session with catalogMetadata := (toAsciiLowercase catalogAlias, metadata) :: others } }
  | .removeCatalogMetadata catalogAlias =>
    let others := s.session.catalogMetadata.filter fun entry => entry.1 != toAsciiLowercase catalogAlias
    some { s with session := { s.session with catalogMetadata := others } }
  | .planSplits target => some (s.begin (.planKeyed target (s.session.settingsIdentity target.catalog)))
  | .planBind i => match s.calls[i]? with
    | some (.planKeyed target key) => match s.settingsFor R target with
      | .ok sent => some (s.update i (.planBound target key sent))
      | .error _ => some (s.update i .finished)
    | _ => none
  | .planPut i => match s.calls[i]? with
    | some (.planBound target key sent) => some ((s.update i .finished).store ⟨.plan, target, key, [sent]⟩)
    | _ => none
  | .newScan target partitions =>
    some (s.begin (.scan target (s.session.settingsIdentity target.catalog) (List.replicate (max partitions 1) .waiting)))
  | .jobBind i p => match s.calls[i]? with
    | some (.scan target key partitions) => match partitions[p]? with
      | some .waiting => some (s.bindPartition R i p target key partitions)
      | _ => none
    | _ => none
  | .jobIdle i p => match s.calls[i]? with
    | some (.scan target key partitions) => match partitions[p]? with
      | some .waiting => some (s.update i (.scan target key (partitions.set p .idle)))
      | _ => none
    | _ => none
  | .scanStore i => match s.calls[i]? with
    | some (.scan target key partitions) =>
      if partitions.any (·.isWaiting) then none
      else some ((s.update i .finished).store ⟨.rows, target, key, partitions.filterMap (·.sent)⟩)
    | _ => none
  | .exchangeBind target => match s.settingsFor R target with
    | .ok sent => some (s.begin (.exchangeBound target sent))
    | .error _ => some s
  | .exchangeKey i => match s.calls[i]? with
    | some (.exchangeBound target sent) =>
      some (s.update i (.exchangeKeyed target sent (s.session.settingsIdentity target.catalog)))
    | _ => none
  | .exchangeStore i => match s.calls[i]? with
    | some (.exchangeKeyed target sent key) => some (s.store ⟨.rows, target, key, [sent]⟩)
    | _ => none
  | .finish i => some (s.update i .finished)
  | .evict i => some { s with stored := s.stored.eraseIdx i }

end SettingsState

/-! ## Isolation -/

/-- What the binds of an entry sent is what its key's settings stand for: those of a session with that
identity, and of every other session with it. -/
structure StoredEntry.Isolated (e : StoredEntry V) : Prop where
  identified : ∃ session : Session, session.settingsIdentity e.target.catalog = e.key ∧
    ∀ sent ∈ e.sent, encodeSettings R session.settings e.target.declarations = .ok sent
  replayed : ∀ session : Session, session.settingsIdentity e.target.catalog = e.key →
    ∀ sent ∈ e.sent, encodeSettings R session.settings e.target.declarations = .ok sent

/-- Some of the two reads of a call is still to come. -/
def SettingsCall.between : SettingsCall V → Option Target
  | .planKeyed target _ => some target
  | .scan target _ partitions => if partitions.any (·.isWaiting) then some target else none
  | .exchangeBound target _ => some target
  | _ => none

/-- A change of settings leaves alone what the calls between their reads send, and a key is read while the
session keeps every setting its worker declares. -/
def Undisturbed (s : SettingsState V) : SessionAction → Prop
  | .replaceSettings settings => ∀ call ∈ s.calls, ∀ target ∈ call.between,
    encodeSettings R settings target.declarations = s.settingsFor R target
  | .planSplits target => s.session.Covers target.catalog target.declarations
  | .newScan target _ => s.session.Covers target.catalog target.declarations
  | .exchangeKey i => ∀ target sent, s.calls[i]? = some (.exchangeBound target sent) →
    s.session.Covers target.catalog target.declarations
  | _ => True

/-- A session a key was read from, keeping all that the worker declares. -/
structure KeySnapshot (target : Target) (key : List UInt8) (session : Session) : Prop where
  covers : session.Covers target.catalog target.declarations
  identity : session.settingsIdentity target.catalog = key

/-- The binds of an entry sent the settings of the session its key was read from. -/
def StoredEntry.Read (e : StoredEntry V) : Prop :=
  ∃ session, KeySnapshot e.target e.key session ∧
    ∀ sent ∈ e.sent, encodeSettings R session.settings e.target.declarations = .ok sent

variable {R}

theorem StoredEntry.Read.isolated {e : StoredEntry V} (h : e.Read R) : e.Isolated R := by
  obtain ⟨session, hsnapshot, hsent⟩ := h
  constructor
  · exact ⟨session, hsnapshot.identity, hsent⟩
  · intro other hother sent hmem
    have hsame := encodeSettings_of_identity R hsnapshot.covers (hsnapshot.identity.trans hother.symm)
    rw [← hsame]
    exact hsent sent hmem

variable (R)

/-- Relative to the settings now: a call that has read one side only still finds there what it read. -/
def SettingsCall.Inv (settings : VgiSettings) : SettingsCall V → Prop
  | .planKeyed target key => ∃ session, KeySnapshot target key session ∧
    encodeSettings R settings target.declarations = encodeSettings R session.settings target.declarations
  | .planBound target key sent => ∃ session, KeySnapshot target key session ∧
    encodeSettings R session.settings target.declarations = .ok sent
  | .scan target key partitions => ∃ session, KeySnapshot target key session ∧
    (∀ part ∈ partitions, ∀ sent ∈ part.sent, encodeSettings R session.settings target.declarations = .ok sent) ∧
    (partitions.any (·.isWaiting) →
      encodeSettings R settings target.declarations = encodeSettings R session.settings target.declarations)
  | .exchangeBound target sent => encodeSettings R settings target.declarations = .ok sent
  | .exchangeKeyed target sent key => ∃ session, KeySnapshot target key session ∧
    encodeSettings R session.settings target.declarations = .ok sent
  | .finished => True

/-- Every call and every entry has a session its key was read from, whose settings its binds sent or will send. -/
structure SettingsState.Inv (s : SettingsState V) : Prop where
  calls : ∀ call ∈ s.calls, call.Inv R s.session.settings
  stored : ∀ e ∈ s.stored, e.Read R

namespace SettingsState

variable {R} {s s' : SettingsState V}

theorem Inv.begin (h : s.Inv R) {call : SettingsCall V} (hcall : call.Inv R s.session.settings) : (s.begin call).Inv R := by
  refine ⟨?_, h.stored⟩
  intro other hother
  rcases List.mem_append.1 hother with hother | hother
  · exact h.calls other hother
  · rw [List.mem_singleton.1 hother]
    exact hcall

theorem Inv.update (h : s.Inv R) (i : Nat) {call : SettingsCall V} (hcall : call.Inv R s.session.settings) :
    (s.update i call).Inv R := by
  refine ⟨?_, h.stored⟩
  intro other hother
  rcases List.mem_or_eq_of_mem_set hother with hother | rfl
  · exact h.calls other hother
  · exact hcall

theorem Inv.finish (h : s.Inv R) (i : Nat) : (s.update i .finished).Inv R := h.update i trivial

theorem Inv.store (h : s.Inv R) {e : StoredEntry V} (he : e.Read R) : (s.store e).Inv R := by
  refine ⟨h.calls, ?_⟩
  intro other hother
  rcases List.mem_cons.1 hother with rfl | hother
  · exact he
  · exact h.stored other hother

/-- New settings that leave every call between its reads what it sends. -/
theorem Inv.replaceSettings (h : s.Inv R) {settings : VgiSettings} (hok : Undisturbed R s (.replaceSettings settings)) :
    Inv R { s with session := { s.session with settings } } := by
  refine ⟨?_, h.stored⟩
  intro call hmem
  have hcall := h.calls call hmem
  have hsame := hok call hmem
  cases call with
  | planKeyed target key =>
    obtain ⟨session, hsnapshot, hsent⟩ := hcall
    exact ⟨session, hsnapshot, (hsame target rfl).trans hsent⟩
  | planBound target key sent => exact hcall
  | scan target key partitions =>
    obtain ⟨session, hsnapshot, hbound, hwaiting⟩ := hcall
    refine ⟨session, hsnapshot, hbound, ?_⟩
    intro hany
    have hbetween : target ∈ (SettingsCall.scan target key partitions).between := by
      simp only [SettingsCall.between, hany, if_true, Option.mem_some_iff]
    exact (hsame target hbetween).trans (hwaiting hany)
  | exchangeBound target sent => exact (hsame target rfl).trans hcall
  | exchangeKeyed target sent key => exact hcall
  | finished => trivial

/-- Binding a waiting partition: the settings are still those of the key. -/
theorem Inv.bindPartition (h : s.Inv R) {i p : Nat} {target : Target} {key : List UInt8}
    {partitions : List (PartitionBind V)} (hcall : s.calls[i]? = some (.scan target key partitions))
    (hwaiting : partitions[p]? = some .waiting) : (s.bindPartition R i p target key partitions).Inv R := by
  obtain ⟨session, hsnapshot, hbound, hsame⟩ := h.calls _ (List.mem_of_getElem? hcall)
  have hany : partitions.any (·.isWaiting) := List.any_eq_true.2 ⟨_, List.mem_of_getElem? hwaiting, rfl⟩
  rw [SettingsState.bindPartition]
  cases hsent : s.settingsFor R target with
  | error error => exact h.finish i
  | ok sent =>
    apply h.update i
    refine ⟨session, hsnapshot, ?_, fun _ => hsame hany⟩
    intro part hpart sent' hsent'
    rcases List.mem_or_eq_of_mem_set hpart with hpart | rfl
    · exact hbound part hpart sent' hsent'
    · rw [Option.mem_some_iff.1 hsent'] at hsent
      exact (hsame hany).symm.trans hsent

/-- A partition without work: the others are where they were. -/
theorem Inv.jobIdle (h : s.Inv R) {i p : Nat} {target : Target} {key : List UInt8} {partitions : List (PartitionBind V)}
    (hcall : s.calls[i]? = some (.scan target key partitions)) (hwaiting : partitions[p]? = some .waiting) :
    (s.update i (.scan target key (partitions.set p .idle))).Inv R := by
  obtain ⟨session, hsnapshot, hbound, hsame⟩ := h.calls _ (List.mem_of_getElem? hcall)
  have hany : partitions.any (·.isWaiting) := List.any_eq_true.2 ⟨_, List.mem_of_getElem? hwaiting, rfl⟩
  apply h.update i
  refine ⟨session, hsnapshot, ?_, fun _ => hsame hany⟩
  intro part hpart sent hsent
  rcases List.mem_or_eq_of_mem_set hpart with hpart | rfl
  · exact hbound part hpart sent hsent
  · cases hsent

/-- `plan_splits` binds once: the settings are still those of the key. -/
theorem Inv.planBind (h : s.Inv R) {i : Nat} {target : Target} {key : List UInt8} {sent : Option (SettingsBatch V)}
    (hcall : s.calls[i]? = some (.planKeyed target key)) (hsent : s.settingsFor R target = .ok sent) :
    (s.update i (.planBound target key sent)).Inv R := by
  obtain ⟨session, hsnapshot, hsame⟩ := h.calls _ (List.mem_of_getElem? hcall)
  exact h.update i ⟨session, hsnapshot, hsame.symm.trans hsent⟩

/-- A key is read while the settings are those an exchange was bound under. -/
theorem Inv.exchangeKey (h : s.Inv R) {i : Nat} {target : Target} {sent : Option (SettingsBatch V)}
    (hcall : s.calls[i]? = some (.exchangeBound target sent))
    (hcovers : s.session.Covers target.catalog target.declarations) :
    (s.update i (.exchangeKeyed target sent (s.session.settingsIdentity target.catalog))).Inv R :=
  h.update i ⟨s.session, ⟨hcovers, rfl⟩, h.calls _ (List.mem_of_getElem? hcall)⟩

/-- A scan begins with every partition waiting. -/
theorem Inv.newScan (h : s.Inv R) {target : Target} (hcovers : s.session.Covers target.catalog target.declarations)
    (partitions : Nat) :
    (s.begin (.scan target (s.session.settingsIdentity target.catalog) (List.replicate partitions .waiting))).Inv R := by
  refine h.begin ⟨s.session, ⟨hcovers, rfl⟩, ?_, fun _ => rfl⟩
  intro part hpart sent hsent
  rw [List.eq_of_mem_replicate hpart] at hsent
  cases hsent

/-- The entry of a call with one bind. -/
theorem read_of_bind {target : Target} {key : List UInt8} {sent : Option (SettingsBatch V)} {kind : StoredKind}
    (h : ∃ session, KeySnapshot target key session ∧ encodeSettings R session.settings target.declarations = .ok sent) :
    StoredEntry.Read R ⟨kind, target, key, [sent]⟩ := by
  obtain ⟨session, hsnapshot, hsent⟩ := h
  refine ⟨session, hsnapshot, ?_⟩
  intro other hother
  rw [List.mem_singleton.1 hother]
  exact hsent

/-- The entry of a scan holds what its partitions sent. -/
theorem Inv.read_of_scan (h : s.Inv R) {i : Nat} {target : Target} {key : List UInt8} {partitions : List (PartitionBind V)}
    (hcall : s.calls[i]? = some (.scan target key partitions)) :
    StoredEntry.Read R ⟨.rows, target, key, partitions.filterMap (·.sent)⟩ := by
  obtain ⟨session, hsnapshot, hbound, -⟩ := h.calls _ (List.mem_of_getElem? hcall)
  refine ⟨session, hsnapshot, ?_⟩
  intro sent hsent
  obtain ⟨part, hpart, hsent⟩ := List.mem_filterMap.1 hsent
  exact hbound part hpart sent hsent

theorem Inv.step (h : s.Inv R) {a : SessionAction} (hok : Undisturbed R s a) (hstep : s.step R a = some s') : s'.Inv R := by
  cases a with
  | replaceSettings settings =>
    cases hstep
    exact h.replaceSettings hok
  | setCatalogMetadata catalogAlias metadata =>
    cases hstep
    exact ⟨h.calls, h.stored⟩
  | removeCatalogMetadata catalogAlias =>
    cases hstep
    exact ⟨h.calls, h.stored⟩
  | planSplits target =>
    cases hstep
    exact h.begin ⟨s.session, ⟨hok, rfl⟩, rfl⟩
  | planBind i =>
    simp only [SettingsState.step] at hstep
    split at hstep
    · rename_i target key hcall
      split at hstep <;> cases hstep
      · rename_i sent hsent
        exact h.planBind hcall hsent
      · exact h.finish i
    · cases hstep
  | planPut i =>
    simp only [SettingsState.step] at hstep
    split at hstep <;> cases hstep
    rename_i target key sent hcall
    exact (h.finish i).store (read_of_bind (h.calls _ (List.mem_of_getElem? hcall)))
  | newScan target partitions =>
    cases hstep
    exact h.newScan hok _
  | jobBind i p =>
    simp only [SettingsState.step] at hstep
    split at hstep
    · rename_i target key partitions hcall
      split at hstep <;> cases hstep
      exact h.bindPartition hcall ‹_›
    · cases hstep
  | jobIdle i p =>
    simp only [SettingsState.step] at hstep
    split at hstep
    · rename_i target key partitions hcall
      split at hstep <;> cases hstep
      exact h.jobIdle hcall ‹_›
    · cases hstep
  | scanStore i =>
    simp only [SettingsState.step] at hstep
    split at hstep
    · rename_i target key partitions hcall
      split at hstep <;> cases hstep
      exact (h.finish i).store (h.read_of_scan hcall)
    · cases hstep
  | exchangeBind target =>
    simp only [SettingsState.step] at hstep
    split at hstep <;> cases hstep
    · rename_i sent hsent
      exact h.begin hsent
    · exact h
  | exchangeKey i =>
    simp only [SettingsState.step] at hstep
    split at hstep <;> cases hstep
    rename_i target sent hcall
    exact h.exchangeKey hcall (hok target sent hcall)
  | exchangeStore i =>
    simp only [SettingsState.step] at hstep
    split at hstep <;> cases hstep
    rename_i target sent key hcall
    exact h.store (read_of_bind (h.calls _ (List.mem_of_getElem? hcall)))
  | finish i =>
    cases hstep
    exact h.finish i
  | evict i =>
    cases hstep
    exact ⟨h.calls, fun e he => h.stored e (List.mem_of_mem_eraseIdx he)⟩

end SettingsState

/-- **Every entry stands for the settings its binds sent**, in every run without a change of settings
between the two reads of a call whose worker sees it. -/
theorem settings_isolated {session : Session} {s : SettingsState V}
    (h : Reachable (SettingsState.step R) (Undisturbed R) { session } s) : ∀ e ∈ s.stored, e.Isolated R := by
  have hinit : SettingsState.Inv R { session } := ⟨nofun, nofun⟩
  have hinv : s.Inv R := h.invariant hinit fun _ _ _ hs hok hstep => hs.step hok hstep
  intro e he
  exact (hinv.stored e he).isolated

/-! ### Two runs with one `SET` -/

def textReaders : SettingReaders String := ⟨id, fun raw dataType => .ok (.atom dataType (some raw))⟩

/-- A worker that declares one setting of its own. -/
def multiplied : Target := ⟨"example", [⟨"multiplier", .utf8⟩]⟩

theorem multiplier_first : ∀ v ∈ defaultSettings.values, "multiplier" < v.1.text := by decide

/-- The defaults and a multiplier. -/
def withMultiplier (value : Text) : VgiSettings where
  values := (.lit "multiplier", value) :: defaultSettings.values
  sorted := List.pairwise_cons.2 ⟨multiplier_first, defaultSettings.sorted⟩
  adapters name hname := by
    obtain ⟨v, hv, hn⟩ := defaultSettings.adapters name hname
    exact ⟨v, List.mem_cons_of_mem _ hv, hn⟩

def sessionWith (value : Text) : Session := ⟨withMultiplier value, []⟩

def sentMultiplier (value : String) : Option (SettingsBatch String) :=
  some [(⟨"multiplier", .utf8, false, []⟩, .atom .utf8 (some value))]

theorem encode_withMultiplier (value : Text) :
    encodeSettings textReaders (withMultiplier value) multiplied.declarations = .ok (sentMultiplier value.text) := by
  have hget : (withMultiplier value).get "multiplier" = some value := by
    rw [VgiSettings.get, show toAsciiLowercase "multiplier" = "multiplier" by decide]
    rfl
  rw [encodeSettings, multiplied, encodeColumns]
  simp only [hget]
  rfl

def three : Text := .lit "3"
def five : Text := .lit "5"

def keyOfThree : List UInt8 := (sessionWith three).settingsIdentity "example"

/-- The scan planned under the multiplier 3, its only partition still to bind. -/
def plannedUnder (value : Text) : SettingsState String where
  session := sessionWith value
  calls := [.scan multiplied keyOfThree [.waiting]]

def boundUnder (value sent : Text) : SettingsState String where
  session := sessionWith value
  calls := [.scan multiplied keyOfThree [.bound (sentMultiplier sent.text)]]

def storedUnder (value sent : Text) : SettingsState String where
  session := sessionWith value
  calls := [.finished]
  stored := [⟨.rows, multiplied, keyOfThree, [sentMultiplier sent.text]⟩]

theorem plannedUnder_jobBind (value : Text) : (plannedUnder value).step textReaders (.jobBind 0 0) = some (boundUnder value value) := by
  show some ((plannedUnder value).bindPartition textReaders 0 0 multiplied keyOfThree [.waiting]) = some (boundUnder value value)
  rw [SettingsState.bindPartition, show (plannedUnder value).settingsFor textReaders multiplied = _ from encode_withMultiplier value]
  rfl

/-- Planned, run and stored under 3; the multiplier changes afterwards. -/
theorem settings_isolated_scan :
    (storedUnder five three).stored ≠ [] ∧ ∀ e ∈ (storedUnder five three).stored, e.Isolated textReaders := by
  have hcovers : (sessionWith three).Covers "example" multiplied.declarations := by decide
  have hplanned : Reachable (SettingsState.step textReaders) (Undisturbed textReaders) { session := sessionWith three }
      (plannedUnder three) := .step (a := .newScan multiplied 1) .init hcovers rfl
  have hbound : Reachable (SettingsState.step textReaders) (Undisturbed textReaders) { session := sessionWith three }
      (boundUnder three three) := .step (a := .jobBind 0 0) hplanned trivial (plannedUnder_jobBind three)
  have hstored : Reachable (SettingsState.step textReaders) (Undisturbed textReaders) { session := sessionWith three }
      (storedUnder three three) := .step (a := .scanStore 0) hbound trivial rfl
  have hset : Undisturbed textReaders (storedUnder three three) (.replaceSettings (withMultiplier five)) := by
    intro call hcall target htarget
    rw [List.mem_singleton.1 hcall] at htarget
    cases htarget
  exact ⟨nofun, settings_isolated textReaders (.step hstored hset rfl)⟩

/-- Planned under 3, run under 5: the rows computed with 5 are kept for every session with 3. -/
theorem settings_set_between : Reachable (SettingsState.step textReaders) (fun _ _ => True)
      { session := sessionWith three } (storedUnder five five) ∧
    ¬∀ e ∈ (storedUnder five five).stored, e.Isolated textReaders := by
  constructor
  · have hplanned : Reachable (SettingsState.step textReaders) (fun _ _ => True) { session := sessionWith three }
        (plannedUnder three) := .step (a := .newScan multiplied 1) .init trivial rfl
    have hset : Reachable (SettingsState.step textReaders) (fun _ _ => True) { session := sessionWith three }
        (plannedUnder five) := .step (a := .replaceSettings (withMultiplier five)) hplanned trivial rfl
    have hbound := Reachable.step hset trivial (plannedUnder_jobBind five)
    exact .step (a := .scanStore 0) hbound trivial rfl
  · intro h
    have hisolated := h _ List.mem_cons_self
    have hsent := hisolated.replayed (sessionWith three) rfl _ List.mem_cons_self
    have hthree : Except.ok (sentMultiplier "3") = Except.ok (sentMultiplier "5") :=
      (encode_withMultiplier three).symm.trans hsent
    simp [sentMultiplier] at hthree

end VgiDatafusion
