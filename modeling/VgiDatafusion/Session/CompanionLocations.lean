import VgiDatafusion.Session.AllOrNothing

/-!
# Where companions are attached (session.rs:2229-2323)

`companion_spec` takes a companion that names no location to be where its `parent` is, and `attach` hands it the root of
the ATTACH for every companion, also for those another companion announced. `attachTurns` are the turns of the loop, with
the companion whose turn it is and the traversal before.

The companions are where the catalogs that announced them are exactly if none that is attached without a location of its
own was announced from elsewhere than the root (`companions_located_iff`).
-/
namespace VgiDatafusion

open Worklist

section
variable (env : AttachEnvironment) (root : AttachSpec)

/-- The turns of an ATTACH; none if the root fails or its companions are not wanted. -/
def attachTurns (s : Registries) : List (Turn Companion Traversal) :=
  match companionsEnabled root with
  | .ok true =>
    let outcome := attachOne env.parse env.rpcTimeout (env.answers 0) root s
    match outcome.result with
    | .error _ => []
    | .ok infos => turns 8 tooDeep (visit env root) ((announcedBy root infos).map (·, 1))
        { registries := outcome.registries, seen := [catalogKey root], served := 1 }
  | _ => []

/-- The companion is connected when its turn comes: nothing passes it over, and its own options make a connection. -/
def Connects (companion : Companion) (t : Traversal) : Prop :=
  ∃ spec, companionSpec root companion.info = .ok (some spec) ∧ (t.registries.catalogs.mounted spec.name).isSome = false ∧
    catalogKey spec ∉ t.seen ∧ (attachOne env.parse env.rpcTimeout (env.answers t.served) spec t.registries).connection.isSome

end

/-- At its own location, or else at the one of the catalog that announced it. -/
def Connected.Located (c : Connected) : Prop :=
  c.spec.location = (c.companion.info.supplied "location".toList).getD c.companion.announcer.location

/-- The pairs of location and worker catalog, the one of the root first. -/
def attachedPairs (root : AttachSpec) (t : Traversal) : List (Chars × Chars) :=
  (root.location, root.catalog) :: t.connected.map fun c => (c.spec.location, c.spec.catalog)

/-- The companion names no location and was announced from elsewhere than the root. -/
def Misplaced (root : AttachSpec) (companion : Companion) : Prop :=
  companion.info.supplied "location".toList = none ∧ companion.announcer.location ≠ root.location

section
variable {env : AttachEnvironment} {root : AttachSpec}

/-- What a visit connects: nothing, or the companion by its spec. -/
theorem connected_visit_eq (companion : Companion) (t : Traversal) :
    ((visit env root companion t).2.connected = t.connected ∧ ¬ Connects env root companion t) ∨
      ∃ (spec : AttachSpec) (connection : VgiConnection), companionSpec root companion.info = .ok (some spec) ∧
        catalogKey spec ∉ t.seen ∧ (visit env root companion t).2.connected = t.connected ++ [⟨companion, spec, connection⟩] ∧
        (visit env root companion t).2.seen = catalogKey spec :: t.seen ∧ Connects env root companion t := by
  cases hspec : companionSpec root companion.info with
  | error e => exact .inl ⟨by simp [visit, hspec, passOver], by rintro ⟨_, h, -⟩; simp [hspec] at h⟩
  | ok result =>
    cases result with
    | none => exact .inl ⟨by simp [visit, hspec], by rintro ⟨_, h, -⟩; simp [hspec] at h⟩
    | some spec =>
      have honly : ∀ spec', companionSpec root companion.info = .ok (some spec') → spec' = spec := fun spec' h => by
        rw [hspec] at h
        cases h
        rfl
      by_cases hname : (t.registries.catalogs.mounted spec.name).isSome
      · refine .inl ⟨by simp [visit, hspec, hname, passOver], ?_⟩
        rintro ⟨spec', h, hfree, -⟩
        rw [honly spec' h, hname] at hfree
        cases hfree
      · by_cases hseen : catalogKey spec ∈ t.seen
        · refine .inl ⟨by simp [visit, hspec, hname, hseen, passOver], ?_⟩
          rintro ⟨spec', h, -, hkey, -⟩
          exact hkey (honly spec' h ▸ hseen)
        · have hvisit := @visit_of_companionSpec env root companion spec t hspec (by simpa using hname) hseen
          cases hconnection : (attachOne env.parse env.rpcTimeout (env.answers t.served) spec t.registries).connection with
          | none =>
            refine .inl ⟨by simp [hvisit, attachCompanion, hconnection], ?_⟩
            rintro ⟨spec', h, -, -, hsome⟩
            rw [honly spec' h, hconnection] at hsome
            cases hsome
          | some connection =>
            exact .inr ⟨spec, connection, rfl, hseen, by simp [hvisit, attachCompanion, hconnection],
              by rw [hvisit, attachCompanion], spec, hspec, by simpa using hname, hseen, by rw [hconnection]; rfl⟩

theorem located_iff {c : Connected} (hspec : companionSpec root c.companion.info = .ok (some c.spec)) :
    c.Located ↔ ¬ Misplaced root c.companion := by
  rw [Connected.Located, (companionSpec_ok hspec).1, Misplaced]
  cases c.companion.info.supplied "location".toList with
  | none => simp [eq_comm]
  | some text => simp

theorem located_visit (companion : Companion) (t : Traversal) :
    (∀ c ∈ (visit env root companion t).2.connected, c.Located) ↔
      (∀ c ∈ t.connected, c.Located) ∧ (Connects env root companion t → ¬ Misplaced root companion) := by
  rcases @connected_visit_eq env root companion t with
    ⟨hsame, hnot⟩ | ⟨spec, connection, hspec, -, hconnected, -, hconnects⟩
  · simp [hsame, hnot]
  · have hnew := located_iff (c := { companion, spec, connection }) hspec
    simp [hconnected, hconnects, or_imp, forall_and, hnew]

/-! ## No pair twice -/

/-- The keys of what is attached are remembered. -/
def RemembersPairs (root : AttachSpec) (t : Traversal) : Prop :=
  (attachedPairs root t).Nodup ∧ ∀ pair ∈ attachedPairs root t, pair.1 ++ Char.ofNat 0 :: pair.2 ∈ t.seen

theorem seen_visit (companion : Companion) (t : Traversal) {key : Chars} (h : key ∈ t.seen) :
    key ∈ (visit env root companion t).2.seen := by
  rcases visit_cases env root companion t with ⟨hsame, -⟩ | ⟨spec, -, -, hvisit⟩
  · rw [hsame]
    exact h
  · rw [hvisit]
    exact List.mem_cons_of_mem _ h

theorem remembersPairs_visit (companion : Companion) (t : Traversal) (h : RemembersPairs root t) :
    RemembersPairs root (visit env root companion t).2 := by
  rcases @connected_visit_eq env root companion t with
    ⟨hsame, -⟩ | ⟨spec, connection, -, hkey, hconnected, hseen, -⟩
  · rw [RemembersPairs, attachedPairs, hsame]
    exact ⟨h.1, fun pair hpair => seen_visit companion t (h.2 pair hpair)⟩
  · have hpairs : attachedPairs root (visit env root companion t).2 =
        attachedPairs root t ++ [(spec.location, spec.catalog)] := by
      simp [attachedPairs, hconnected]
    have hnew : (spec.location, spec.catalog) ∉ attachedPairs root t := fun hold => hkey (h.2 _ hold)
    rw [RemembersPairs, hpairs]
    constructor
    · rw [List.nodup_append]
      refine ⟨h.1, List.nodup_singleton _, fun a ha b hb => ?_⟩
      rw [List.mem_singleton.1 hb]
      rintro rfl
      exact hnew ha
    · intro pair hpair
      rcases List.mem_append.1 hpair with hold | hlast
      · exact seen_visit companion t (h.2 pair hold)
      · rw [List.mem_singleton.1 hlast, hseen]
        exact List.mem_cons_self

/-! ## The whole ATTACH -/

/-- What is said of the traversal of the root's companions is said of the ATTACH, with its turns. -/
theorem attach_turns {P : Traversal → Prop} {Q : Companion → Traversal → Prop}
    (hvisit : ∀ companion t, P (visit env root companion t).2 ↔ P t ∧ Q companion t)
    (hstart : ∀ t : Traversal, t.connected = [] → P t) (s : Registries) :
    P (attach env root s).2 ↔ ∀ turn ∈ attachTurns env root s, turn.level ≤ 8 → Q turn.item turn.state := by
  rw [attach, attachTurns]
  cases companionsEnabled root with
  | error e => simp [hstart]
  | ok enabled =>
    dsimp only
    cases hresult : (attachOne env.parse env.rpcTimeout (env.answers 0) root s).result with
    | error e => cases enabled <;> simp [hstart]
    | ok infos =>
      cases enabled with
      | false => simp [traverse, hstart]
      | true =>
        dsimp only [traverse]
        rw [if_pos rfl, exhaust_iff hvisit]
        simp [hstart]

theorem nodup_attachedPairs (env : AttachEnvironment) (root : AttachSpec) (s : Registries) :
    (attachedPairs root (attach env root s).2).Nodup := by
  have hstart : ∀ t : Traversal, t.connected = [] → (attachedPairs root t).Nodup := fun t ht => by simp [attachedPairs, ht]
  rw [attach]
  cases companionsEnabled root with
  | error e => exact hstart _ rfl
  | ok enabled =>
    dsimp only
    cases hresult : (attachOne env.parse env.rpcTimeout (env.answers 0) root s).result with
    | error e => exact hstart _ rfl
    | ok infos =>
      dsimp only [traverse]
      split
      · refine (exhaust_keeps (RemembersPairs root) (fun companion t => remembersPairs_visit companion t) _ _ ?_).1
        refine ⟨by simp [attachedPairs], fun pair hpair => ?_⟩
        obtain rfl : pair = (root.location, root.catalog) := by simpa [attachedPairs] using hpair
        exact List.mem_singleton.2 rfl
      · exact hstart _ rfl

/-- What is expected of the companions of an ATTACH. -/
structure ResolvedByAnnouncer (env : AttachEnvironment) (root : AttachSpec) (s : Registries) : Prop where
  ends : WellFounded fun next now => Step 8 tooDeep (visit env root) now next
  once : (attachedPairs root (attach env root s).2).Nodup
  located : ∀ c ∈ (attach env root s).2.connected, c.Located

/-- **Every companion is at its own location or at that of the catalog that announced it exactly if none that is connected
without a location was announced from elsewhere than the root.** -/
theorem resolvedByAnnouncer_iff (env : AttachEnvironment) (root : AttachSpec) (s : Registries) :
    ResolvedByAnnouncer env root s ↔ ∀ turn ∈ attachTurns env root s, turn.level ≤ 8 →
      Connects env root turn.item turn.state → ¬ Misplaced root turn.item := by
  have hlocated := attach_turns (P := fun t => ∀ c ∈ t.connected, c.Located)
    (fun companion t => @located_visit env root companion t)
    (fun t ht c hc => by rw [ht] at hc; cases hc) s
  exact ⟨fun h => hlocated.1 h.located, fun h => ⟨wellFounded_step 8 tooDeep (visit env root), nodup_attachedPairs env root s,
    hlocated.2 h⟩⟩

end

/-! ## A companion of a companion -/

/-- A companion on a worker of its own, which announces another one there. -/
def elsewhere : AttachCatalogInfo :=
  { target := "files".toList, name := "files".toList, dbType := "vgi".toList, required := false
    options := [("location".toList, "https://other.example/vgi".toList)] }

def beside : AttachCatalogInfo := { target := "more".toList, name := "more".toList, dbType := "vgi".toList, required := false }

def twoWorkers : AttachEnvironment :=
  { announcing elsewhere with
    answers := fun n => { options := .ok (), discovered := .ok (providerWith ([[elsewhere], [beside]].getD n [])) } }

theorem not_resolvedByAnnouncer_twoWorkers : ¬ ResolvedByAnnouncer twoWorkers remoteSpec .empty := by
  intro h
  obtain ⟨spec, hspec⟩ : ∃ spec, companionSpec remoteSpec elsewhere = .ok (some spec) := ⟨_, rfl⟩
  obtain ⟨inner, hinner⟩ : ∃ inner, companionSpec remoteSpec beside = .ok (some inner) := ⟨_, rfl⟩
  have hresult : ∀ s, (attachOne twoWorkers.parse twoWorkers.rpcTimeout (twoWorkers.answers 1) spec s).result =
      .ok [beside] := by
    cases hspec
    exact fun s => rfl
  have hname : spec.name = "files".toList ∧ inner.name = "more".toList := by
    cases hspec
    cases hinner
    exact ⟨rfl, rfl⟩
  have hkeys : catalogKey spec ∉ [catalogKey remoteSpec] ∧ catalogKey inner ∉ [catalogKey spec, catalogKey remoteSpec] := by
    cases hspec
    cases hinner
    decide
  have hglobal : inner.globalFunctionsEnabled = .ok true := by cases hinner; rfl
  obtain ⟨connection, hconnection⟩ : ∃ connection, inner.connectionWithRuntime twoWorkers.parse twoWorkers.rpcTimeout =
      .ok connection := by cases hinner; exact ⟨_, rfl⟩
  obtain ⟨t, hattach, hserved, hseen, hfiles, hmore⟩ : ∃ t, attach twoWorkers remoteSpec .empty =
      exhaust 8 tooDeep (visit twoWorkers remoteSpec) [(⟨elsewhere, remoteSpec⟩, 1)] t ∧ t.served = 1 ∧
      t.seen = [catalogKey remoteSpec] ∧ t.registries.catalogs.mounted "files".toList = none ∧
      t.registries.catalogs.mounted "more".toList = none := ⟨_, rfl, rfl, rfl, rfl, rfl⟩
  -- the first turn attaches the catalog on the other worker
  have hfirst : visit twoWorkers remoteSpec ⟨elsewhere, remoteSpec⟩ t =
      attachCompanion twoWorkers spec ⟨elsewhere, remoteSpec⟩ t :=
    visit_of_companionSpec hspec (by rw [hname.1, hfiles]; rfl) (by rw [hseen]; exact hkeys.1)
  obtain ⟨t', hchildren, hseen', hmore'⟩ : ∃ t', attachCompanion twoWorkers spec ⟨elsewhere, remoteSpec⟩ t =
      (.ok [⟨beside, spec⟩], t') ∧ t'.seen = catalogKey spec :: t.seen ∧
      t'.registries.catalogs.mounted "more".toList = none := by
    refine ⟨(attachCompanion twoWorkers spec ⟨elsewhere, remoteSpec⟩ t).2, ?_, rfl, ?_⟩
    · refine Prod.ext ?_ rfl
      rw [attachCompanion, hserved]
      change ((attachOne _ _ _ spec _).result.map (announcedBy spec)) = _
      rw [hresult]
      rfl
    · refine (mounted_attachOne ?_ t.registries).trans hmore
      rw [hname.1]
      decide
  -- the second one resolves its companion against the root
  have hsecond : visit twoWorkers remoteSpec ⟨beside, spec⟩ t' = attachCompanion twoWorkers inner ⟨beside, spec⟩ t' :=
    visit_of_companionSpec hinner (by rw [hname.2, hmore']; rfl) (by rw [hseen', hseen]; exact hkeys.2)
  have hconnected : ⟨⟨beside, spec⟩, inner, connection⟩ ∈ (attach twoWorkers remoteSpec .empty).2.connected := by
    rw [hattach, exhaust_cons (by decide), hfirst, hchildren]
    refine connected_exhaust (by decide) ?_
    rw [hsecond]
    refine List.mem_append_right _ (List.mem_map.2 ⟨connection, ?_, rfl⟩)
    exact Option.mem_toList.2 (attachOne_connects hglobal hconnection)
  have hlocated : inner.location = spec.location := h.located _ hconnected
  cases hspec
  cases hinner
  exact absurd hlocated (by decide)

end VgiDatafusion
