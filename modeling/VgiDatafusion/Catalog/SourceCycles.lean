import VgiDatafusion.Catalog.Branches
import VgiDatafusion.Library.Lists

/-!
# Scans do not go in circles (catalog.rs:1043-1080, 1440-1460)

A table that a scan is inside of has its cell filled, and the next one is behind it, so every table on the way leads to the
last (`scansTo_path`). The check before a branch then keeps the way free of repetitions; it ends after as many tables as there
are, and where the scan without the checks would come back to a table, this one reports a cycle (`source_cycles`).
-/
namespace VgiDatafusion.Catalog

variable {T L B F P : Type}

/-! ## Cells -/

/-- Filled cells stay as they are. -/
def Grows (cells cells' : Cells T L B) : Prop := ∀ t branches, cells t = some branches → cells' t = some branches

theorem Grows.refl (cells : Cells T L B) : Grows cells cells := fun _ _ h => h

theorem Grows.trans {cells cells' cells'' : Cells T L B} (h : Grows cells cells') (h' : Grows cells' cells'') :
    Grows cells cells'' := fun t branches ht => h' t branches (h t branches ht)

theorem References.mono {cells cells' : Cells T L B} (h : Grows cells cells') {t p : T} (hp : References cells t p) :
    References cells' t p := by
  obtain ⟨provider, hprovider, htable⟩ := hp
  refine ⟨provider, ?_, htable⟩
  rw [sourcesOf] at hprovider ⊢
  cases hcell : cells t with
  | none => simp [hcell] at hprovider
  | some branches =>
    rw [h t branches hcell]
    rw [hcell] at hprovider
    exact hprovider

theorem references_of_branch {cells : Cells T L B} {t p : T} {branches : List (BoundCatalogBranch T L B)}
    {branch : BoundCatalogBranch T L B} (hcell : cells t = some (some branches)) (hbranch : branch ∈ branches)
    (hprovider : branch.provider = .table p) : References cells t p := by
  refine ⟨branch.provider, ?_, by rw [hprovider]; rfl⟩
  rw [sourcesOf, hcell]
  exact List.mem_map_of_mem hbranch

theorem grows_wait (world : ScanWorld T L B F P) (st : ScanState T L B) : Grows st.cells (st.wait world).cells := by
  intro t branches ht
  simp [ScanState.wait, ht]

variable [DecidableEq T]

theorem grows_fill (st : ScanState T L B) (t : T) (branches : Branches T L B) : Grows st.cells (st.fill t branches).cells := by
  intro p held hp
  by_cases hpt : p = t
  · subst hpt
    simp [ScanState.fill, hp]
  · simpa [ScanState.fill, hpt] using hp

variable [Fintype T]

/-! ## The search -/

theorem catalogSourceCycle_isSome_iff (cells : Cells T L B) (self : T) (provider : TableSource T L) :
    (catalogSourceCycle cells self provider).isSome ↔
      ∃ p, provider = .table p ∧ Relation.ReflTransGen (References cells) p self := by
  have htable : ∀ p, provider.table? = some p ↔ provider = .table p := by
    intro p
    cases provider <;> simp [TableSource.table?]
  obtain ⟨⟨found, s⟩, hs⟩ := Option.isSome_iff_exists.1
    (@DepthFirst.reaches_ends _ _ TableSource.table? (sourcesOf cells) self _ _ provider [self])
  have hfound := DepthFirst.reaches_found_iff hs
  simp only [DepthFirst.Reachable, htable] at hfound
  rw [← hfound, catalogSourceCycle, hs]
  cases found <;> simp

/-- The path goes from the table over the provider back to the table. -/
theorem catalogSourceCycle_path {cells : Cells T L B} {self : T} {provider : TableSource T L} {path : List T}
    (h : catalogSourceCycle cells self provider = some path) :
    ∃ p chain, provider = .table p ∧ path = self :: p :: chain ∧ List.IsChain (References cells) (p :: chain) ∧
      (p :: chain).getLast? = some self := by
  rw [catalogSourceCycle] at h
  split at h
  · rename_i s hs
    cases h
    obtain ⟨p, chain, hp, hpath, hchain, hlast⟩ := DepthFirst.reaches_path hs
    refine ⟨p, chain, ?_, hpath, hchain, hlast⟩
    cases provider with
    | table t =>
      cases hp
      rfl
    | other l => cases hp
  · cases h

/-- The way over two tables in between. -/
example : catalogSourceCycle (T := Fin 3) (L := Unit) (B := Unit)
    (fun t => if t = 2 then none else some (some [⟨(), .table (t + 1)⟩])) 2 (.table 0) = some [2, 0, 1, 2] := by decide

theorem refuseCycle_ok {cells : Cells T L B} {t : T} {provider : TableSource T L}
    (h : refuseCycle true cells t provider = .ok ()) {p : T} (hp : provider = .table p) :
    ¬ Relation.ReflTransGen (References cells) p t := by
  intro hreach
  obtain ⟨path, hpath⟩ := Option.isSome_iff_exists.1 ((catalogSourceCycle_isSome_iff cells t provider).2 ⟨p, hp, hreach⟩)
  rw [refuseCycle, if_pos rfl, hpath] at h
  cases h

/-! ## Cells along a scan -/

section
variable {world : ScanWorld T L B F P} {checked : Bool}

theorem bindBranches_grows {t : T} {branches : List (ResolvedBranch T L B)} {index : Nat} {st st' : ScanState T L B}
    {bound : List (BoundCatalogBranch T L B)} (h : bindBranches world checked t index branches st = .ok (bound, st')) :
    Grows st.cells st'.cells := by
  induction branches generalizing index st bound with
  | nil =>
    cases h
    exact .refl _
  | cons branch rest ih =>
    obtain ⟨_, -, h⟩ := except_of_bind_ok h
    obtain ⟨⟨_, st₁⟩, hrest, h⟩ := except_of_bind_ok h
    cases h
    exact (grows_wait world st).trans (ih hrest)

/-- A table's branches are in its cell before they are scanned. -/
theorem multiBranches_ok {t : T} {st st' : ScanState T L B} {branches : Branches T L B}
    (h : multiBranches world checked t st = .ok (branches, st')) :
    Grows st.cells st'.cells ∧ st'.cells t = some branches := by
  rw [multiBranches] at h
  dsimp only at h
  cases hcell : (st.wait world).cells t with
  | some held =>
    rw [hcell] at h
    cases h
    exact ⟨grows_wait world st, hcell⟩
  | none =>
    rw [hcell] at h
    obtain ⟨⟨bound, st₁⟩, hinit, h⟩ := except_of_bind_ok h
    cases h
    refine ⟨(grows_wait world st).trans (Grows.trans ?_ (grows_fill st₁ t bound)), by simp [ScanState.fill]⟩
    obtain ⟨resolved, -, hinit⟩ := except_of_bind_ok hinit
    cases resolved with
    | none =>
      cases hinit
      exact .refl _
    | some branches =>
      obtain ⟨⟨_, _⟩, hbind, hinit⟩ := except_of_bind_ok hinit
      cases hinit
      exact bindBranches_grows hbind

theorem enterScan_ok {t : T} {filters : F} {st st' : ScanState T L B} {entered : P ⊕ List (BoundCatalogBranch T L B)}
    (h : enterScan world checked t filters st = .ok (entered, st')) :
    Grows st.cells st'.cells ∧ ∀ branches, entered = .inr branches → st'.cells t = some (some branches) := by
  obtain ⟨-, -, h⟩ := except_of_bind_ok h
  obtain ⟨pruned, -, h⟩ := except_of_bind_ok h
  cases pruned with
  | some empty =>
    cases h
    exact ⟨.refl _, fun _ h => by cases h⟩
  | none =>
    obtain ⟨⟨branches, st₁⟩, hbranches, h⟩ := except_of_bind_ok h
    obtain ⟨hgrows, hcell⟩ := multiBranches_ok hbranches
    cases branches with
    | some branches =>
      cases h
      exact ⟨hgrows, fun _ h => by cases h; exact hcell⟩
    | none =>
      obtain ⟨_, -, h⟩ := except_of_bind_ok h
      cases h
      exact ⟨hgrows, fun _ h => by cases h⟩

/-- Scans of one table after the other keep the cells filled. -/
def GrowingScan (scan : ScanState T L B → T → F → Except (ScanError T) (P × ScanState T L B)) : Prop :=
  ∀ st t filters plan st', scan st t filters = .ok (plan, st') → Grows st.cells st'.cells

theorem scanBranch_grows {scan : ScanState T L B → T → F → Except (ScanError T) (P × ScanState T L B)} (hscan : GrowingScan scan)
    {t : T} {filters : F} {branch : BoundCatalogBranch T L B} {st st' : ScanState T L B} {plan : P}
    (h : scanBranch world checked scan t filters branch st = .ok (plan, st')) : Grows st.cells st'.cells := by
  obtain ⟨-, -, h⟩ := except_of_bind_ok h
  obtain ⟨⟨raw, st₁⟩, hraw, h⟩ := except_of_bind_ok h
  obtain ⟨_, -, h⟩ := except_of_bind_ok h
  cases h
  refine (grows_wait world st).trans ?_
  cases hprovider : branch.provider with
  | table p =>
    rw [hprovider] at hraw
    exact hscan _ _ _ _ _ hraw
  | other l =>
    rw [hprovider] at hraw
    obtain ⟨_, -, h⟩ := except_of_map_ok hraw
    cases h
    exact .refl _

theorem scanBranches_grows {scan : ScanState T L B → T → F → Except (ScanError T) (P × ScanState T L B)} (hscan : GrowingScan scan)
    {t : T} {filters : F} {branches : List (BoundCatalogBranch T L B)} {st st' : ScanState T L B} {plans : List P}
    (h : scanBranches world checked scan t filters branches st = .ok (plans, st')) : Grows st.cells st'.cells := by
  induction branches generalizing st plans with
  | nil =>
    cases h
    exact .refl _
  | cons branch rest ih =>
    obtain ⟨⟨_, st₁⟩, hbranch, h⟩ := except_of_bind_ok h
    obtain ⟨⟨_, st₂⟩, hrest, h⟩ := except_of_bind_ok h
    cases h
    exact (scanBranch_grows hscan hbranch).trans (ih hrest)

theorem scan_grows (n : Nat) : GrowingScan (scan world checked n) := by
  induction n with
  | zero => intro st t filters plan st' h; cases h
  | succ n ih =>
    intro st t filters plan st' h
    obtain ⟨⟨entered, st₁⟩, henter, h⟩ := except_of_bind_ok h
    obtain ⟨hgrows, -⟩ := enterScan_ok henter
    cases entered with
    | inl plan =>
      cases h
      exact hgrows
    | inr branches =>
      obtain ⟨⟨_, st₂⟩, hbranches, h⟩ := except_of_bind_ok h
      obtain ⟨_, -, h⟩ := except_of_bind_ok h
      cases h
      exact hgrows.trans (scanBranches_grows ih hbranches)

end

/-! ## No table twice -/

/-- Every table above leads to the one at hand. -/
def Above (cells : Cells T L B) (above : List T) (t : T) : Prop := ∀ a ∈ above, Relation.TransGen (References cells) a t

omit [DecidableEq T] [Fintype T] in
theorem Above.into {cells cells' : Cells T L B} {above : List T} {t p : T} (h : Above cells above t) (hgrows : Grows cells cells')
    (hp : References cells' t p) : Above cells' (above ++ [t]) p := by
  intro a ha
  rcases List.mem_append.1 ha with ha | ha
  · exact (Relation.TransGen.mono (fun _ _ => References.mono hgrows) a t (h a ha)).tail hp
  · obtain rfl := List.mem_singleton.1 ha
    exact .single hp

/-- **The way into a scan has no table twice, nor one of those above.** -/
theorem scansTo_path {world : ScanWorld T L B F P} {n m : Nat} {st st' : ScanState T L B} {t t' : T} {filters filters' : F}
    {path : List T} (h : ScansTo world true n st t filters path m st' t' filters') {above : List T}
    (habove : Above st.cells above t) (hnodup : (above ++ [t]).Nodup) : (above ++ path).Nodup := by
  induction h generalizing above with
  | here => exact hnodup
  | @into n m st st₀ st₁ st' t p t' filters filters' path plans before after branch henter hbefore hcheck hprovider hrest ih =>
    obtain ⟨hgrows, hcell⟩ := enterScan_ok henter
    have hlater : Grows st₀.cells (st₁.wait world).cells := (scanBranches_grows (scan_grows n) hbefore).trans (grows_wait world st₁)
    have hreference : References (st₁.wait world).cells t p :=
      (references_of_branch (hcell _ rfl) (by simp) hprovider).mono hlater
    have hnext := habove.into (hgrows.trans hlater) hreference
    -- the branch does not lead back, the tables above do
    have hfresh : p ∉ above ++ [t] := by
      intro hmem
      have hback := refuseCycle_ok hcheck hprovider
      rcases List.mem_append.1 hmem with hmem | hmem
      · have hleads := Relation.TransGen.mono (fun _ _ => References.mono (hgrows.trans hlater)) p t (habove p hmem)
        exact hback hleads.to_reflTransGen
      · obtain rfl := List.mem_singleton.1 hmem
        exact hback .refl
    have hpath := ih hnext (by
      rw [List.nodup_append]
      exact ⟨hnodup, List.nodup_singleton p, fun a ha b hb => by
        obtain rfl := List.mem_singleton.1 hb
        rintro rfl
        exact hfresh ha⟩)
    simpa using hpath

/-! ## Depth -/

section
variable {world : ScanWorld T L B F P} {checked : Bool}

theorem refuseCycle_error {cells : Cells T L B} {t : T} {provider : TableSource T L} {e : ScanError T}
    (h : refuseCycle checked cells t provider = .error e) : e.IsCycle := by
  rw [refuseCycle] at h
  split at h
  · split at h
    · cases h
      trivial
    · cases h
  · cases h

omit [DecidableEq T] [Fintype T] in
theorem mapError_failed_ne {α : Type} {x : Except String α} : x.mapError ScanError.failed ≠ .error (.outOfDepth : ScanError T) := by
  cases x <;> simp [Except.mapError]

theorem bindBranch_ne {cells : Cells T L B} {t : T} {index : Nat} {branch : ResolvedBranch T L B} :
    bindBranch checked cells t index branch ≠ .error .outOfDepth := by
  intro h
  rcases except_of_bind_error h with h | ⟨provider, -, h⟩
  · exact mapError_failed_ne h
  · split at h
    · cases h
    · rcases except_of_bind_error h with h | ⟨_, -, h⟩
      · exact refuseCycle_error h
      · cases h

theorem bindBranches_ne {t : T} {branches : List (ResolvedBranch T L B)} {index : Nat} {st : ScanState T L B} :
    bindBranches world checked t index branches st ≠ .error .outOfDepth := by
  induction branches generalizing index st with
  | nil => intro h; cases h
  | cons branch rest ih =>
    intro h
    rcases except_of_bind_error h with h | ⟨_, -, h⟩
    · exact bindBranch_ne h
    · rcases except_of_bind_error h with h | ⟨_, -, h⟩
      · exact ih h
      · cases h

theorem multiBranches_ne {t : T} {st : ScanState T L B} : multiBranches world checked t st ≠ .error .outOfDepth := by
  intro h
  rw [multiBranches] at h
  dsimp only at h
  split at h
  · cases h
  · rcases except_of_bind_error h with h | ⟨_, -, h⟩
    · rcases except_of_bind_error h with h | ⟨resolved, -, h⟩
      · exact mapError_failed_ne h
      · cases resolved with
        | none => cases h
        | some branches =>
          rcases except_of_bind_error h with h | ⟨_, -, h⟩
          · exact bindBranches_ne h
          · cases h
    · cases h

theorem enterScan_ne {t : T} {filters : F} {st : ScanState T L B} : enterScan world checked t filters st ≠ .error .outOfDepth := by
  intro h
  rcases except_of_bind_error h with h | ⟨_, -, h⟩
  · exact mapError_failed_ne h
  rcases except_of_bind_error h with h | ⟨pruned, -, h⟩
  · exact mapError_failed_ne h
  cases pruned with
  | some empty => cases h
  | none =>
    rcases except_of_bind_error h with h | ⟨⟨branches, _⟩, -, h⟩
    · exact multiBranches_ne h
    · cases branches with
      | some branches => cases h
      | none =>
        rcases except_of_bind_error h with h | ⟨_, -, h⟩
        · exact mapError_failed_ne h
        · cases h

/-- The branch at which the loop fails. -/
theorem scanBranches_error {scan : ScanState T L B → T → F → Except (ScanError T) (P × ScanState T L B)} {t : T} {filters : F}
    {branches : List (BoundCatalogBranch T L B)} {st : ScanState T L B} {e : ScanError T}
    (h : scanBranches world checked scan t filters branches st = .error e) :
    ∃ before branch after plans st₁, branches = before ++ branch :: after ∧
      scanBranches world checked scan t filters before st = .ok (plans, st₁) ∧
        scanBranch world checked scan t filters branch st₁ = .error e := by
  induction branches generalizing st with
  | nil => cases h
  | cons branch rest ih =>
    rcases except_of_bind_error h with h | ⟨⟨plan, st₁⟩, hbranch, h⟩
    · exact ⟨[], branch, rest, [], st, rfl, rfl, h⟩
    · rcases except_of_bind_error h with h | ⟨_, -, h⟩
      · obtain ⟨before, failing, after, plans, st₂, rfl, hbefore, hfails⟩ := ih h
        refine ⟨branch :: before, failing, after, plan :: plans, st₂, rfl, ?_, hfails⟩
        rw [scanBranches, hbranch]
        change (scanBranches world checked scan t filters before st₁ >>= _) = _
        rw [hbefore]
        rfl
      · cases h

/-- A scan that runs out of depth has gone as deep. -/
theorem scan_outOfDepth {n : Nat} {st : ScanState T L B} {t : T} {filters : F}
    (h : scan world checked n st t filters = .error .outOfDepth) :
    ∃ path st' t' filters', ScansTo world checked n st t filters path 0 st' t' filters' ∧ path.length = n + 1 := by
  induction n generalizing st t filters with
  | zero => exact ⟨[t], st, t, filters, .here, rfl⟩
  | succ n ih =>
    rcases except_of_bind_error h with h | ⟨⟨entered, st₀⟩, henter, h⟩
    · exact absurd h enterScan_ne
    cases entered with
    | inl plan => cases h
    | inr branches =>
      rcases except_of_bind_error h with h | ⟨_, -, h⟩
      · obtain ⟨before, branch, after, plans, st₁, rfl, hbefore, h⟩ := scanBranches_error h
        rcases except_of_bind_error h with h | ⟨_, hcheck, h⟩
        · exact absurd (refuseCycle_error h) id
        rcases except_of_bind_error h with h | ⟨_, -, h⟩
        · cases hprovider : branch.provider with
          | table p =>
            rw [hprovider] at h
            obtain ⟨path, st', t', filters', hpath, hlength⟩ := ih h
            exact ⟨t :: path, st', t', filters', .into henter hbefore hcheck hprovider hpath, by simp [hlength]⟩
          | other l =>
            rw [hprovider] at h
            change (Except.map _ _) = _ at h
            cases hsource : world.sourceScan l (world.branchFilters t branch filters) <;>
              simp [hsource, Except.mapError, Except.map] at h
        · rcases except_of_bind_error h with h | ⟨_, -, h⟩
          · exact absurd h mapError_failed_ne
          · cases h
      · rcases except_of_bind_error h with h | ⟨_, -, h⟩
        · exact absurd h mapError_failed_ne
        · cases h

end

/-! ## Cycles are reported -/

section
variable {world : ScanWorld T L B F P}

/-- What the checks stop is told as a cycle; for the rest they make no difference. -/
abbrev Checked {α : Type} (r r' : Except (ScanError T) α) : Prop := Follows ScanError.IsCycle Eq r r'

omit [DecidableEq T] [Fintype T] in
theorem Checked.bind {α β : Type} {r r' : Except (ScanError T) α} {f g : α → Except (ScanError T) β} (h : Checked r r')
    (hfg : ∀ a, Checked (f a) (g a)) : Checked (r >>= f) (r' >>= g) := by
  refine Follows.bind h fun a b _ hab => ?_
  subst hab
  exact hfg a

theorem refuseCycle_checked (cells : Cells T L B) (t : T) (provider : TableSource T L) :
    Checked (refuseCycle true cells t provider) (refuseCycle false cells t provider) := by
  rw [refuseCycle, if_pos rfl]
  split
  · exact .inl trivial
  · exact .refl _

theorem bindBranch_checked (cells : Cells T L B) (t : T) (index : Nat) (branch : ResolvedBranch T L B) :
    Checked (bindBranch true cells t index branch) (bindBranch false cells t index branch) := by
  refine Checked.bind (.refl _) fun provider => ?_
  by_cases hself : provider.table? = some t
  · simp only [hself, decide_true, Bool.and_self, if_true]
    exact .inl trivial
  · simp only [hself, decide_false, Bool.and_false, Bool.false_eq_true, if_false]
    exact (refuseCycle_checked cells t provider).bind fun _ => .refl _

theorem bindBranches_checked (t : T) (branches : List (ResolvedBranch T L B)) (index : Nat) (st : ScanState T L B) :
    Checked (bindBranches world true t index branches st) (bindBranches world false t index branches st) := by
  induction branches generalizing index st with
  | nil => exact .refl _
  | cons branch rest ih =>
    exact (bindBranch_checked _ t index branch).bind fun bound => (ih (index + 1) _).bind fun _ => .refl _

theorem multiBranches_checked (t : T) (st : ScanState T L B) :
    Checked (multiBranches world true t st) (multiBranches world false t st) := by
  rw [multiBranches, multiBranches]
  dsimp only
  cases (st.wait world).cells t with
  | some branches => exact .refl _
  | none =>
    refine Checked.bind (Checked.bind (.refl _) fun resolved => ?_) fun _ => .refl _
    cases resolved with
    | none => exact .refl _
    | some branches => exact (bindBranches_checked t branches 0 _).bind fun _ => .refl _

theorem enterScan_checked (t : T) (filters : F) (st : ScanState T L B) :
    Checked (enterScan world true t filters st) (enterScan world false t filters st) := by
  refine Checked.bind (.refl _) fun _ => Checked.bind (.refl _) fun pruned => ?_
  cases pruned with
  | some empty => exact .refl _
  | none => exact (multiBranches_checked t st).bind fun _ => .refl _

theorem scanBranch_checked {scan scan' : ScanState T L B → T → F → Except (ScanError T) (P × ScanState T L B)}
    (hscan : ∀ st t filters, Checked (scan st t filters) (scan' st t filters)) (t : T) (filters : F)
    (branch : BoundCatalogBranch T L B) (st : ScanState T L B) :
    Checked (scanBranch world true scan t filters branch st) (scanBranch world false scan' t filters branch st) := by
  have hsource : ∀ st provider filters, Checked (scanSource world scan st provider filters)
      (scanSource world scan' st provider filters) := by
    intro st provider filters
    cases provider with
    | table p => exact hscan st p filters
    | other l => exact .refl _
  exact (refuseCycle_checked _ t branch.provider).bind fun _ => (hsource _ _ _).bind fun _ => .refl _

theorem scanBranches_checked {scan scan' : ScanState T L B → T → F → Except (ScanError T) (P × ScanState T L B)}
    (hscan : ∀ st t filters, Checked (scan st t filters) (scan' st t filters)) (t : T) (filters : F)
    (branches : List (BoundCatalogBranch T L B)) (st : ScanState T L B) :
    Checked (scanBranches world true scan t filters branches st) (scanBranches world false scan' t filters branches st) := by
  induction branches generalizing st with
  | nil => exact .refl _
  | cons branch rest ih =>
    exact (scanBranch_checked hscan t filters branch st).bind fun _ => (ih _).bind fun _ => .refl _

theorem scan_checked (n : Nat) (st : ScanState T L B) (t : T) (filters : F) :
    Checked (scan world true n st t filters) (scan world false n st t filters) := by
  induction n generalizing st t filters with
  | zero => exact .refl _
  | succ n ih =>
    refine (enterScan_checked t filters st).bind fun entered => ?_
    obtain ⟨entered, st₀⟩ := entered
    cases entered with
    | inl plan => exact .refl _
    | inr branches => exact (scanBranches_checked ih t filters branches st₀).bind fun _ => .refl _

/-- The loop fails where it fails on the way. -/
theorem scanBranches_append_error {checked : Bool} {scan : ScanState T L B → T → F → Except (ScanError T) (P × ScanState T L B)}
    {t : T} {filters : F} {before rest : List (BoundCatalogBranch T L B)} {st : ScanState T L B} {e : ScanError T}
    (h : scanBranches world checked scan t filters before st = .error e ∨ ∃ plans st₁,
      scanBranches world checked scan t filters before st = .ok (plans, st₁) ∧
        scanBranches world checked scan t filters rest st₁ = .error e) :
    scanBranches world checked scan t filters (before ++ rest) st = .error e := by
  induction before generalizing st with
  | nil =>
    rcases h with h | ⟨_, _, hbefore, h⟩
    · cases h
    · cases hbefore
      exact h
  | cons branch before ih =>
    rw [List.cons_append, scanBranches]
    cases hbranch : scanBranch world checked scan t filters branch st with
    | error e' =>
      simp only [scanBranches, hbranch, bind, Except.bind] at h
      rcases h with h | ⟨_, _, h, -⟩
      · exact h
      · cases h
    | ok r =>
      obtain ⟨plan, st₁⟩ := r
      have hcons : scanBranches world checked scan t filters (branch :: before) st =
          scanBranches world checked scan t filters before st₁ >>= fun r => .ok (plan :: r.1, r.2) := by
        rw [scanBranches, hbranch]
        rfl
      have hrest : scanBranches world checked scan t filters (before ++ rest) st₁ = .error e := by
        refine ih ?_
        rw [hcons] at h
        rcases h with h | ⟨plans, st₂, h, hrest⟩
        · rcases except_of_bind_error h with h | ⟨_, -, h⟩
          · exact .inl h
          · cases h
        · obtain ⟨⟨plans', st₃⟩, hbefore, h⟩ := except_of_bind_ok h
          cases h
          exact .inr ⟨plans', st₃, hbefore, hrest⟩
      change (scanBranches world checked scan t filters (before ++ rest) st₁ >>= _) = _
      rw [hrest]
      rfl

/-- **Whatever the scan without checks comes to, the scan comes to, or it reports a cycle.** -/
theorem scansTo_checked {n m : Nat} {st st' : ScanState T L B} {t t' : T} {filters filters' : F} {path : List T}
    (h : ScansTo world false n st t filters path m st' t' filters') :
    (∃ e, scan world true n st t filters = .error e ∧ e.IsCycle) ∨ ScansTo world true n st t filters path m st' t' filters' := by
  induction h with
  | here => exact .inr .here
  | @into n m st st₀ st₁ st' t p t' filters filters' path plans before after branch henter hbefore hcheck hprovider hrest ih =>
    rcases Follows.eq_iff.1 (@enterScan_checked T L B F P _ _ world t filters st) with ⟨e, he, hcycle⟩ | hsame
    · exact .inl ⟨e, by rw [scan, he]; rfl, hcycle⟩
    rw [hsame] at henter
    have hfails : ∀ e, scanBranches world true (scan world true n) t filters (before ++ branch :: after) st₀ = .error e →
        scan world true (n + 1) st t filters = .error e := by
      intro e he
      rw [scan, henter]
      change (scanBranches world true (scan world true n) t filters (before ++ branch :: after) st₀ >>= _) = _
      rw [he]
      rfl
    rcases Follows.eq_iff.1 (@scanBranches_checked T L B F P _ _ world _ _ (scan_checked n) t filters before st₀) with
      ⟨e, he, hcycle⟩ | hsame
    · exact .inl ⟨e, hfails e (scanBranches_append_error (.inl he)), hcycle⟩
    rw [hsame] at hbefore
    have hbranch : ∀ e, scanBranch world true (scan world true n) t filters branch st₁ = .error e →
        scan world true (n + 1) st t filters = .error e := fun e he =>
      hfails e (scanBranches_append_error (.inr ⟨plans, st₁, hbefore, by rw [scanBranches, he]; rfl⟩))
    cases hrefuse : refuseCycle true (st₁.wait world).cells t branch.provider with
    | error e =>
      exact .inl ⟨e, hbranch e (by rw [scanBranch, hrefuse]; rfl), refuseCycle_error hrefuse⟩
    | ok _ =>
      rcases ih with ⟨e, he, hcycle⟩ | hscans
      · refine .inl ⟨e, hbranch e ?_, hcycle⟩
        rw [scanBranch, hrefuse, hprovider]
        change (scan world true n (st₁.wait world) p (world.branchFilters t branch filters) >>= _) = _
        rw [he]
        rfl
      · exact .inr (.into henter hbefore hrefuse hprovider hscans)

end

/-- **The search ends, finds a cycle exactly if there is one and tells it as it is; the way into a scan has no table twice, so a
scan ends, and where it would come back to a table without the checks, it reports a cycle.** -/
theorem source_cycles (T L B F P : Type) [Fintype T] [DecidableEq T] :
    (∀ (cells : Cells T L B) (self : T) (provider : TableSource T L),
      (DepthFirst.reaches TableSource.table? (sourcesOf cells) self (Fintype.card T + 1) provider ⟨[], [self]⟩).isSome ∧
      ((catalogSourceCycle cells self provider).isSome ↔
        ∃ p, provider = .table p ∧ Relation.ReflTransGen (References cells) p self) ∧
      ∀ path, catalogSourceCycle cells self provider = some path → ∃ p chain, provider = .table p ∧ path = self :: p :: chain ∧
        List.IsChain (References cells) (p :: chain) ∧ (p :: chain).getLast? = some self) ∧
    ∀ (world : ScanWorld T L B F P) (n : Nat) (st : ScanState T L B) (t : T) (filters : F),
      (∀ path m st' t' filters', ScansTo world true n st t filters path m st' t' filters' → path.Nodup) ∧
      (Fintype.card T ≤ n → scan world true n st t filters ≠ .error .outOfDepth) ∧
      ((∃ path m st' t' filters', ScansTo world false n st t filters path m st' t' filters' ∧ ¬ path.Nodup) →
        ∃ e, scan world true n st t filters = .error e ∧ e.IsCycle) := by
  have hnodup : ∀ (world : ScanWorld T L B F P) (n : Nat) (st : ScanState T L B) (t : T) (filters : F) path m st' t' filters',
      ScansTo world true n st t filters path m st' t' filters' → path.Nodup := by
    intro world n st t filters path m st' t' filters' h
    have hpath : ([] ++ path).Nodup := scansTo_path h (fun a ha => absurd ha List.not_mem_nil) (List.nodup_singleton t)
    exact hpath
  refine ⟨fun cells self provider => ⟨DepthFirst.reaches_ends provider [self], catalogSourceCycle_isSome_iff cells self provider,
    fun path => catalogSourceCycle_path⟩, fun world n st t filters => ⟨hnodup world n st t filters, fun hn hdepth => ?_, ?_⟩⟩
  · obtain ⟨path, st', t', filters', hscans, hlength⟩ := scan_outOfDepth hdepth
    have hle := (hnodup world n st t filters path 0 st' t' filters' hscans).length_le_card
    omega
  · rintro ⟨path, m, st', t', filters', hscans, hrepeats⟩
    rcases scansTo_checked hscans with hcycle | hscans
    · exact hcycle
    · exact absurd (hnodup world n st t filters path m st' t' filters' hscans) hrepeats

end VgiDatafusion.Catalog
