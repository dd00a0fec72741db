import VgiDatafusion.Library.Lists
import VgiDatafusion.Scan.Keys

/-!
# When equal keys mean equal requests

Each encoding of a key is read back first. What the key keeps of a scan is `Indistinct`; what its
requests still depend on beyond that is `SameRequests`. Equal keys stand for different requests exactly
where the second does not follow from the first (`keys_identify_iff`).
-/
namespace VgiDatafusion

open Framing ListFacts

/-! ## Encodings read back -/

theorem leBytes_inj {a b : Int64} (h : leBytes a = leBytes b) : a = b := by
  have hnat : a.toUInt64.toNat = b.toUInt64.toNat :=
    littleEndian_inj (by simpa using a.toUInt64.toNat_lt) (by simpa using b.toUInt64.toNat_lt) h
  have hwords : a.toUInt64 = b.toUInt64 := UInt64.toNat_inj.1 hnat
  rw [← a.toInt64_toUInt64, hwords, b.toInt64_toUInt64]

theorem encodeOptional_inj {a b : Option Int64} (h : encodeOptional a = encodeOptional b) : a = b := by
  cases a with
  | none =>
    cases b with
    | none => rfl
    | some b => simp [encodeOptional] at h
  | some a =>
    cases b with
    | none => simp [encodeOptional] at h
    | some b => rw [leBytes_inj (List.cons.inj h).2]

theorem encodeOrderBy_inj {a b : OrderBy} (h : encodeOrderBy a = encodeOrderBy b) : a = b := by
  obtain ⟨column, direction, nullOrder, limit⟩ := a
  obtain ⟨column', direction', nullOrder', limit'⟩ := b
  obtain ⟨hcolumn, hrest⟩ := framed_append_inj column.length_lt column'.length_lt (List.cons.inj h).2
  obtain ⟨hdirection, hrest⟩ := List.cons.inj hrest
  obtain ⟨hnulls, hlimit⟩ := List.cons.inj hrest
  have hdirection' : direction = direction' := by
    cases direction <;> cases direction' <;> simp at hdirection <;> rfl
  have hnulls' : nullOrder = nullOrder' := by
    cases nullOrder <;> cases nullOrder' <;> simp at hnulls <;> rfl
  have hlimit' : limit = limit' := encodeOptional_inj hlimit
  rw [Text.bytes_inj hcolumn, hdirection', hnulls', hlimit']

theorem sampleCacheIdentity_inj {a b : Sample} (h : sampleCacheIdentity a = sampleCacheIdentity b) : a = b := by
  obtain ⟨bits, seed⟩ := a
  obtain ⟨bits', seed'⟩ := b
  obtain ⟨hbits, hseed⟩ := word_append_inj bits.toNat_lt bits'.toNat_lt h
  have hseed' : seed = seed' := encodeOptional_inj hseed
  rw [UInt64.toNat_inj.1 hbits, hseed']

theorem Buffer.length_lt (b : Buffer) : b.bytes.length < 2 ^ 64 := by
  have hfits := b.fits
  omega

theorem Buffer.bytes_inj {a b : Buffer} (h : a.bytes = b.bytes) : a = b := by
  obtain ⟨a, ha⟩ := a
  obtain ⟨b, hb⟩ := b
  subst h
  rfl

theorem Buffer.map_bytes_inj {xs ys : List Buffer} (h : xs.map (·.bytes) = ys.map (·.bytes)) : xs = ys :=
  List.map_injective_iff.2 (fun _ _ => Buffer.bytes_inj) h

theorem Buffer.map_bytes_length_lt (xs : List Buffer) : ∀ part ∈ xs.map (·.bytes), part.length < 2 ^ 64 := by
  intro part hpart
  obtain ⟨b, -, rfl⟩ := List.mem_map.1 hpart
  exact b.length_lt

/-- The identity of a pushdown is its blob and its side batches. A blob alone is told from the tagged
form because it does not start with the tag. -/
theorem cacheIdentity_eq_iff {p q : PlannedPushdown} : cacheIdentity p.toPushdown = cacheIdentity q.toPushdown ↔
    p.blob = q.blob ∧ p.joinKeys = q.joinKeys := by
  constructor
  · intro h
    cases hp : p.blob with
    | none =>
      cases hq : q.blob with
      | none => exact ⟨rfl, (p.nothing hp).2.trans (q.nothing hq).2.symm⟩
      | some b => simp [cacheIdentity, hp, hq] at h
    | some a =>
      cases hq : q.blob with
      | none => simp [cacheIdentity, hp, hq] at h
      | some b =>
        have ha := p.untagged a hp
        have hb := q.untagged b hq
        simp only [cacheIdentity, hp, hq, Option.map_some, Option.some.injEq] at h
        by_cases hpk : p.joinKeys = []
        · by_cases hqk : q.joinKeys = []
          · simp only [hpk, hqk, List.isEmpty_nil, if_pos] at h
            exact ⟨by rw [Buffer.bytes_inj h], hpk.trans hqk.symm⟩
          · simp only [hpk, List.isEmpty_nil, List.isEmpty_iff, hqk, if_pos, if_false] at h
            exact absurd ⟨_, by rw [h, List.append_assoc]⟩ ha
        · by_cases hqk : q.joinKeys = []
          · simp only [hqk, List.isEmpty_nil, List.isEmpty_iff, hpk, if_pos, if_false] at h
            exact absurd ⟨_, by rw [← h, List.append_assoc]⟩ hb
          · simp only [List.isEmpty_iff, hpk, hqk, if_false, List.append_assoc] at h
            obtain ⟨hblob, hkeys⟩ := framed_append_inj a.length_lt b.length_lt (List.append_cancel_left h)
            have hkeys' := frames_inj (Buffer.map_bytes_length_lt _) (Buffer.map_bytes_length_lt _) hkeys
            exact ⟨by rw [Buffer.bytes_inj hblob], Buffer.map_bytes_inj hkeys'⟩
  · rintro ⟨hblob, hkeys⟩
    simp only [cacheIdentity, hblob, hkeys]

/-- Equal once an absent part counts as an empty one. -/
def Alike : Option AttachOptions → Option AttachOptions → Prop
  | none, none => True
  | some a, some b => a.parts = b.parts
  | _, _ => False

theorem AttachOptions.parts_length_lt (o : AttachOptions) : ∀ part ∈ o.parts, part.length < 2 ^ 64 := by
  intro part hpart
  simp only [parts, List.mem_cons, List.not_mem_nil, or_false] at hpart
  rcases hpart with rfl | rfl | rfl
  · cases o.options with
    | none => simp
    | some b => exact b.length_lt
  · cases o.dataVersionSpec with
    | none => simp
    | some t => exact t.length_lt
  · cases o.implementationVersion with
    | none => simp
    | some t => exact t.length_lt

theorem cacheAttachContext_eq_iff {o o' : Option AttachOptions} :
    cacheAttachContext o = cacheAttachContext o' ↔ Alike o o' := by
  -- three frames are never empty, so a catalog without options stands apart
  have hne : ∀ a : AttachOptions, frames a.parts ≠ [] := by
    intro a h
    have hlength := congrArg List.length h
    simp [frames, framed, AttachOptions.parts] at hlength
  cases o with
  | none =>
    cases o' with
    | none => simp [Alike]
    | some b => simpa [Alike, cacheAttachContext] using (hne b).symm
  | some a =>
    cases o' with
    | none => simpa [Alike, cacheAttachContext] using hne a
    | some b =>
      simp only [Alike, cacheAttachContext]
      constructor
      · exact frames_inj a.parts_length_lt b.parts_length_lt
      · intro h
        rw [h]

/-- No limit, or one that is no `i64`. -/
def Unkeyed (limit : Option UInt64) : Prop := ∀ n ∈ limit, 2 ^ 63 ≤ n.toNat

theorem keyed_eq_none_iff {limit : Option UInt64} : limit.bind i64TryFrom = none ↔ Unkeyed limit := by
  cases limit with
  | none => simp [Unkeyed]
  | some n =>
    simp only [Unkeyed, Option.bind_some, i64TryFrom, Option.mem_some_iff, forall_eq']
    split <;> simp <;> omega

theorem keyLimit_eq_iff {a b : Option UInt64} :
    a.bind i64TryFrom = b.bind i64TryFrom ↔ a = b ∨ (Unkeyed a ∧ Unkeyed b) := by
  constructor
  · intro h
    by_cases ha : Unkeyed a
    · exact .inr ⟨ha, keyed_eq_none_iff.1 (h.symm.trans (keyed_eq_none_iff.2 ha))⟩
    · left
      have hsome : a.bind i64TryFrom ≠ none := fun hnone => ha (keyed_eq_none_iff.1 hnone)
      obtain ⟨value, hvalue⟩ := Option.ne_none_iff_exists'.1 hsome
      have hread : ∀ limit : Option UInt64, limit.bind i64TryFrom = some value → limit = some value.toUInt64 := by
        intro limit hlimit
        obtain ⟨n, rfl, hn⟩ := Option.bind_eq_some_iff.1 hlimit
        simp only [i64TryFrom, Option.ite_none_right_eq_some, Option.some.injEq] at hn
        rw [← hn.2, UInt64.toUInt64_toInt64]
      rw [hread a hvalue, hread b (h.symm.trans hvalue)]
  · rintro (rfl | ⟨ha, hb⟩)
    · rfl
    · rw [keyed_eq_none_iff.2 ha, keyed_eq_none_iff.2 hb]

/-- The dot moves right: a part of the function becomes a part of the schema. -/
def Shifted (schema function schema' function' : String) : Prop :=
  ∃ mid, schema' = schema ++ "." ++ mid ∧ function = mid ++ "." ++ function'

theorem dotted_eq_iff {s f s' f' : String} :
    s ++ "." ++ f = s' ++ "." ++ f' ↔ (s = s' ∧ f = f') ∨ Shifted s f s' f' ∨ Shifted s' f' s f := by
  -- on characters, where a shift is a list between the two dots
  have hshift : ∀ s f s' f' : String, Shifted s f s' f' ↔
      ∃ mid, s'.toList = s.toList ++ '.' :: mid ∧ f.toList = mid ++ '.' :: f'.toList := by
    intro s f s' f'
    constructor
    · rintro ⟨mid, rfl, rfl⟩
      exact ⟨mid.toList, by simp, by simp⟩
    · rintro ⟨mid, hs, hf⟩
      refine ⟨String.ofList mid, ?_, ?_⟩
      · rw [← String.toList_inj, hs]
        simp
      · rw [← String.toList_inj, hf]
        simp
  have hdot : ∀ s f : String, (s ++ "." ++ f).toList = s.toList ++ '.' :: f.toList := by
    intro s f
    simp
  rw [← String.toList_inj, hdot, hdot, append_cons_eq_append_cons_iff, hshift, hshift, String.toList_inj,
    String.toList_inj]

/-! ## What a key keeps -/

variable {Location Identity Arguments V : Type} (C : Client Location Identity Arguments)
  (rt : Runtime Location Identity V)

section

variable (x y : Scan Location Identity Arguments)

/-- What the key keeps as it is. -/
structure SameElsewhere : Prop where
  location : x.conn.location = y.conn.location
  identity : x.conn.identity = y.conn.identity
  catalog : x.catalog = y.catalog
  arguments : x.wireArguments C = y.wireArguments C
  projection : x.pushedProjection = y.pushedProjection
  blob : x.pushdown.blob = y.pushdown.blob
  joinKeys : x.pushdown.joinKeys = y.pushdown.joinKeys
  orderBy : x.orderBy = y.orderBy
  sample : x.sample = y.sample
  atCoordinate : x.atCoordinate = y.atCoordinate
  catalogVersion : x.catalogVersion = y.catalogVersion

def SameNames : Prop := x.schemaName = y.schemaName ∧ x.function = y.function

/-- Two scans whose keys are the same, apart from whether they are keyed at all. -/
structure Indistinct : Prop where
  elsewhere : SameElsewhere C x y
  names : SameNames x y ∨ Shifted x.schemaName x.function y.schemaName y.function ∨
    Shifted y.schemaName y.function x.schemaName x.function
  limits : x.limit = y.limit ∨ (Unkeyed x.limit ∧ Unkeyed y.limit)
  options : Alike (x.conn.attachOptions x.catalog) (y.conn.attachOptions y.catalog)

/-- What the requests depend on and a key does not keep. -/
structure SameRequests : Prop where
  names : SameNames x y
  limit : x.limit = y.limit
  options : x.conn.attachOptions x.catalog = y.conn.attachOptions y.catalog
  columns : x.pushdown.columns = y.pushdown.columns

end

variable {C rt} {x y : Scan Location Identity Arguments}

theorem keyFields_eq_iff {scope scope' : String} {arguments arguments' : Buffer}
    (hscope : x.identityScope C = some scope) (hscope' : y.identityScope C = some scope')
    (harguments : x.wireArguments C = some arguments) (harguments' : y.wireArguments C = some arguments') :
    x.keyFields C rt scope arguments = y.keyFields C rt scope' arguments' ↔ Indistinct C x y := by
  constructor
  · intro h
    simp only [Scan.keyFields, KeyFields.mk.injEq] at h
    obtain ⟨rfl, hlabel, hfunction, rfl, hprojection, hfilters, hversion, hat, -, hoptions, hlimit, hordering,
      hsample⟩ := h
    obtain ⟨hcatalog, hidentity⟩ := C.identityScope_inj hscope hscope'
    obtain ⟨hblob, hkeys⟩ := cacheIdentity_eq_iff.1 hfilters
    refine ⟨?_, dotted_eq_iff.1 hfunction, keyLimit_eq_iff.1 hlimit, cacheAttachContext_eq_iff.1 hoptions⟩
    exact {
      location := C.cacheFingerprint_inj hlabel
      identity := hidentity
      catalog := hcatalog
      arguments := harguments.trans harguments'.symm
      projection := hprojection
      blob := hblob
      joinKeys := hkeys
      orderBy := (Option.map_inj_right fun _ _ => encodeOrderBy_inj).1 hordering
      sample := (Option.map_inj_right fun _ _ => sampleCacheIdentity_inj).1 hsample
      atCoordinate := hat
      catalogVersion := hversion }
  · rintro ⟨h, hnames, hlimits, hoptions⟩
    have hscopes : scope = scope' := by
      rw [Scan.identityScope, h.catalog, h.identity] at hscope
      exact Option.some.inj (hscope.symm.trans hscope')
    have hbytes : arguments = arguments' := Option.some.inj (harguments.symm.trans (h.arguments.trans harguments'))
    have hfilters := cacheIdentity_eq_iff.2 ⟨h.blob, h.joinKeys⟩
    have hfunction := dotted_eq_iff.2 hnames
    simp only [Scan.keyFields, hscopes, hbytes, h.location, hfunction, h.projection, hfilters, h.catalogVersion,
      h.atCoordinate, cacheAttachContext_eq_iff.2 hoptions, keyLimit_eq_iff.2 hlimits, h.orderBy, h.sample]
    rw [h.catalog]

/-! ## What the requests need -/

/-- Indistinct scans attach alike only with the same options: either both have some or neither has. -/
theorem attachment_eq_iff (h : Indistinct C x y) :
    x.attachment = y.attachment ↔ x.conn.attachOptions x.catalog = y.conn.attachOptions y.catalog := by
  have halike := h.options
  simp only [Scan.attachment, Attachment.mk.injEq, h.elsewhere.location, h.elsewhere.identity, true_and]
  cases hx : x.conn.attachOptions x.catalog with
  | none =>
    cases hy : y.conn.attachOptions y.catalog with
    | none => simp [h.elsewhere.catalog]
    | some b => simp [hx, hy, Alike] at halike
  | some a =>
    cases hy : y.conn.attachOptions y.catalog with
    | none => simp [hx, hy, Alike] at halike
    | some b => simp [h.elsewhere.catalog]

theorem bindRequest_eq_iff (h : Indistinct C x y) :
    x.bindRequest C rt = y.bindRequest C rt ↔ x.attachment = y.attachment ∧ SameNames x y := by
  constructor
  · intro hbind
    simp only [Scan.bindRequest, BindRequest.mk.injEq] at hbind
    exact ⟨hbind.1, hbind.2.1, hbind.2.2.1⟩
  · rintro ⟨hattachment, hschema, hfunction⟩
    simp only [Scan.bindRequest, hattachment, hschema, hfunction, h.elsewhere.arguments, h.elsewhere.atCoordinate]

theorem hints_eq_iff (h : Indistinct C x y) :
    x.hints = y.hints ↔ x.limit = y.limit ∧ x.pushdown.columns = y.pushdown.columns := by
  have hlimit : x.limit.map (·.toInt64) = y.limit.map (·.toInt64) ↔ x.limit = y.limit := by
    apply Option.map_inj_right
    intro a b hab
    rw [← a.toUInt64_toInt64, hab, b.toUInt64_toInt64]
  simp only [Scan.hints, Hints.mk.injEq, h.elsewhere.blob, h.elsewhere.joinKeys, h.elsewhere.orderBy,
    h.elsewhere.sample, hlimit, Option.some.injEq, true_and, and_true]
  exact and_comm

variable (rt) in
theorem sameRequests_iff (h : Indistinct C x y) :
    SameRequests x y ↔ x.bindRequest C rt = y.bindRequest C rt ∧ x.hints = y.hints := by
  rw [bindRequest_eq_iff h, hints_eq_iff h, attachment_eq_iff h]
  constructor
  · rintro ⟨hnames, hlimit, hoptions, hcolumns⟩
    exact ⟨⟨hoptions, hnames⟩, hlimit, hcolumns⟩
  · rintro ⟨⟨hoptions, hnames⟩, hlimit, hcolumns⟩
    exact ⟨hnames, hlimit, hoptions, hcolumns⟩

theorem init_eq_iff (h : Indistinct C x y) :
    (x.bindRequest C rt = y.bindRequest C rt ∧ x.initRequest C rt = y.initRequest C rt) ↔ SameRequests x y := by
  rw [sameRequests_iff rt h]
  constructor
  · rintro ⟨hbind, hinit⟩
    exact ⟨hbind, congrArg InitRequest.toHints hinit⟩
  · rintro ⟨hbind, hhints⟩
    refine ⟨hbind, ?_⟩
    simp only [Scan.initRequest, hbind, hhints, h.elsewhere.projection]

theorem planRequest_eq_iff (h : Indistinct C x y) (hpartitions : x.targetPartitions = y.targetPartitions) :
    x.planRequest C rt = y.planRequest C rt ↔ SameRequests x y := by
  rw [sameRequests_iff rt h]
  constructor
  · intro hplan
    exact ⟨congrArg PlanRequest.bind hplan, congrArg PlanRequest.toHints hplan⟩
  · rintro ⟨hbind, hhints⟩
    simp only [Scan.planRequest, hbind, hhints, h.elsewhere.projection, hpartitions]

/-! ## Equal keys -/

variable (C rt x y) in
/-- Scans of equal keys ask the worker the same. -/
structure KeysIdentify : Prop where
  result : ∀ key, x.cacheKey C rt = .ok key → y.cacheKey C rt = .ok key →
    x.bindRequest C rt = y.bindRequest C rt ∧ x.initRequest C rt = y.initRequest C rt
  plan : ∀ key, x.planCacheKey C rt = some key → y.planCacheKey C rt = some key →
    x.planRequest C rt = y.planRequest C rt

namespace Scan

variable (C rt x)

/-- The scan is named to the client library at all. -/
def Named : Prop := (x.identityScope C).isSome ∧ (x.wireArguments C).isSome

/-- Its rows are cached. -/
def ResultKeyed : Prop := x.cacheIneligibleReason C rt = none ∧ x.Named C

/-- Its split plan is cached. -/
def PlanKeyed : Prop := x.supportsSplits ≠ some false ∧ x.secretDependent = false ∧ x.Named C

end Scan

theorem exists_cacheKey_iff : (∃ key, x.cacheKey C rt = .ok key ∧ y.cacheKey C rt = .ok key) ↔
    (x.ResultKeyed C rt ∧ y.ResultKeyed C rt) ∧ Indistinct C x y := by
  have hkey : ∀ {z : Scan Location Identity Arguments} {key}, z.cacheKey C rt = .ok key ↔
      ∃ scope arguments, z.cacheIneligibleReason C rt = none ∧ z.identityScope C = some scope ∧
        z.wireArguments C = some arguments ∧ key = { z.keyFields C rt scope arguments with catalog := z.catalog } := by
    intro z key
    rw [Scan.cacheKey]
    cases z.cacheIneligibleReason C rt with
    | some reason => simp
    | none =>
      cases z.identityScope C with
      | none => simp
      | some scope =>
        cases z.wireArguments C with
        | none => simp
        | some arguments => simp [eq_comm]
  simp only [hkey, Scan.ResultKeyed, Scan.Named, Option.isSome_iff_exists]
  constructor
  · rintro ⟨key, ⟨scope, arguments, hx, hscope, harguments, rfl⟩, scope', arguments', hy, hscope', harguments', heq⟩
    refine ⟨⟨⟨hx, ⟨scope, hscope⟩, arguments, harguments⟩, hy, ⟨scope', hscope'⟩, arguments', harguments'⟩, ?_⟩
    exact (keyFields_eq_iff hscope hscope' harguments harguments').1 (congrArg CacheKey.toKeyFields heq)
  · rintro ⟨⟨⟨hx, ⟨scope, hscope⟩, arguments, harguments⟩, hy, ⟨scope', hscope'⟩, arguments', harguments'⟩, h⟩
    refine ⟨_, ⟨scope, arguments, hx, hscope, harguments, rfl⟩, scope', arguments', hy, hscope', harguments', ?_⟩
    rw [(keyFields_eq_iff hscope hscope' harguments harguments').2 h, h.elsewhere.catalog]

variable (rt) in
theorem exists_planCacheKey_iff : (∃ key, x.planCacheKey C rt = some key ∧ y.planCacheKey C rt = some key) ↔
    (x.PlanKeyed C ∧ y.PlanKeyed C) ∧ x.targetPartitions = y.targetPartitions ∧ Indistinct C x y := by
  have hkey : ∀ {z : Scan Location Identity Arguments} {key}, z.planCacheKey C rt = some key ↔
      ∃ scope arguments, (z.supportsSplits ≠ some false ∧ z.secretDependent = false) ∧
        z.identityScope C = some scope ∧ z.wireArguments C = some arguments ∧
        key = { z.keyFields C rt scope arguments with targetPartitions := z.targetPartitions } := by
    intro z key
    rw [Scan.planCacheKey]
    by_cases hsplits : z.supportsSplits = some false
    · simp [hsplits]
    · by_cases hsecret : z.secretDependent = true
      · simp [hsecret]
      · cases z.identityScope C with
        | none => simp
        | some scope =>
          cases z.wireArguments C with
          | none => simp
          | some arguments => simp [hsplits, hsecret, eq_comm]
  simp only [hkey, Scan.PlanKeyed, Scan.Named, Option.isSome_iff_exists]
  constructor
  · rintro ⟨key, ⟨scope, arguments, hx, hscope, harguments, rfl⟩, scope', arguments', hy, hscope', harguments', heq⟩
    refine ⟨⟨⟨hx.1, hx.2, ⟨scope, hscope⟩, arguments, harguments⟩, hy.1, hy.2, ⟨scope', hscope'⟩, arguments',
      harguments'⟩, congrArg PlanCacheKey.targetPartitions heq, ?_⟩
    exact (keyFields_eq_iff hscope hscope' harguments harguments').1 (congrArg PlanCacheKey.toKeyFields heq)
  · rintro ⟨⟨⟨hx, hx', ⟨scope, hscope⟩, arguments, harguments⟩, hy, hy', ⟨scope', hscope'⟩, arguments', harguments'⟩,
      hpartitions, h⟩
    refine ⟨_, ⟨scope, arguments, ⟨hx, hx'⟩, hscope, harguments, rfl⟩, scope', arguments', ⟨hy, hy'⟩, hscope',
      harguments', ?_⟩
    rw [(keyFields_eq_iff hscope hscope' harguments harguments').2 h, hpartitions]

variable (C rt x y) in
/-- Both scans are cached, for rows or for plans of one parallelism, in a way the key cannot tell apart,
and differ in what is sent. -/
structure Collide : Prop where
  keyed : (x.ResultKeyed C rt ∧ y.ResultKeyed C rt) ∨
    ((x.PlanKeyed C ∧ y.PlanKeyed C) ∧ x.targetPartitions = y.targetPartitions)
  indistinct : Indistinct C x y
  differ : ¬SameRequests x y

/-- **Equal keys stand for equal requests exactly when the scans do not collide**: in the place of the dot
between schema and function, in two limits that are no `i64`, in an attach option absent here and empty
there, or in the columns that come with one filter. -/
theorem keys_identify_iff : KeysIdentify C rt x y ↔ ¬Collide C rt x y := by
  constructor
  · rintro ⟨hresult, hplan⟩ ⟨hkeyed, h, hdiffer⟩
    rcases hkeyed with hkeyed | ⟨hkeyed, hpartitions⟩
    · obtain ⟨key, hx, hy⟩ := exists_cacheKey_iff.2 ⟨hkeyed, h⟩
      exact hdiffer ((init_eq_iff h).1 (hresult key hx hy))
    · obtain ⟨key, hx, hy⟩ := (exists_planCacheKey_iff rt).2 ⟨hkeyed, hpartitions, h⟩
      exact hdiffer ((planRequest_eq_iff h hpartitions).1 (hplan key hx hy))
  · intro hfree
    constructor
    · intro key hx hy
      obtain ⟨hkeyed, h⟩ := exists_cacheKey_iff.1 ⟨key, hx, hy⟩
      apply (init_eq_iff h).2
      by_contra hdiffer
      exact hfree ⟨.inl hkeyed, h, hdiffer⟩
    · intro key hx hy
      obtain ⟨hkeyed, hpartitions, h⟩ := (exists_planCacheKey_iff rt).1 ⟨key, hx, hy⟩
      apply (planRequest_eq_iff h hpartitions).2
      by_contra hdiffer
      exact hfree ⟨.inr ⟨hkeyed, hpartitions⟩, h, hdiffer⟩

/-! ### A collision: one name dotted in two ways -/

/-- Anonymous sessions of workers named by their location. -/
def anonymousClient : Client String Unit Buffer where
  cacheFingerprint location := location
  cacheFingerprint_inj _ _ h := h
  identityScope catalog _ := some catalog
  identityScope_inj hs ht := ⟨Option.some.inj (hs.trans ht.symm), rfl⟩
  toIpc arguments := some arguments

def anonymousRuntime : Runtime String Unit String where
  session := ⟨defaultSettings, []⟩
  cacheEnabled := true
  readers := ⟨id, fun raw dataType => .ok (.atom dataType (some raw))⟩
  declarations _ := []
  outputSchema _ := ⟨[], []⟩

/-- A full scan of a function without arguments. -/
def plainScan (schemaName function : String) : Scan String Unit Buffer where
  conn := ⟨"worker", (), true, fun _ => none⟩
  catalog := "example"
  schemaName
  function
  arguments := ⟨[], by decide⟩
  rawArguments := none
  projection := none
  projectionPushdown := false
  pushdown := { nothing := fun _ => ⟨rfl, rfl⟩, untagged := by simp }
  limit := none
  orderBy := none
  sample := none
  atCoordinate := none
  catalogVersion := 0
  secretDependent := false
  supportsSplits := none
  targetPartitions := 1
  unbounded := false
  rangePartitioned := false
  orderedSplit := false

/-- Function `c` of schema `a.b` and function `b.c` of schema `a` share their key. -/
theorem keys_collide_dotted :
    ¬KeysIdentify anonymousClient anonymousRuntime (plainScan "a.b" "c") (plainScan "a" "b.c") := by
  intro h
  have helsewhere : SameElsewhere anonymousClient (plainScan "a.b" "c") (plainScan "a" "b.c") := by
    constructor <;> rfl
  have hindistinct : Indistinct anonymousClient (plainScan "a.b" "c") (plainScan "a" "b.c") := by
    refine ⟨helsewhere, .inr (.inr ⟨"b", ?_, ?_⟩), .inl rfl, trivial⟩
    · show "a.b" = "a" ++ "." ++ "b"
      decide
    · show "b.c" = "b" ++ "." ++ "c"
      decide
  have hkeyed : ∀ schemaName function, (plainScan schemaName function).ResultKeyed anonymousClient anonymousRuntime :=
    fun _ _ => ⟨rfl, rfl, rfl⟩
  obtain ⟨key, hx, hy⟩ := exists_cacheKey_iff.2 ⟨⟨hkeyed _ _, hkeyed _ _⟩, hindistinct⟩
  have hschema : "a.b" = "a" := congrArg BindRequest.schemaName (h.result key hx hy).1
  exact absurd hschema (by decide)

end VgiDatafusion
