import VgiDatafusion.Cache.ScalarAnswers

/-!
# From distinct rows back to the caller's (scalar.rs:798-822, 1101-1131, 1453-1461)

| here | there |
| --- | --- |
| `rowGroups` | the loop over the rows that fills `uniques` and `row_to_unique` |
| `Assembled` | what `run_scalar_exchange` returns on its per-value path |
| `Unwrapped` | each distinct row means the same as the one its index is cut to |

The gather of the per-value path cuts an index to 32 bits, so a batch of more distinct rows than that gives
some row the answer of another. The indices of `deduplicate_scalar_input` are checked instead.
-/
namespace VgiDatafusion

open Program Exchange

variable {K R C V β : Type}

/-- The loop that fills `uniques` and `row_to_unique` (`scalar.rs:1101-1118`). -/
def rowGroups (ops : ExchangeOps R) (template : Template K R) (input : R) :
    Except String (List (List UInt8 × R) × List Nat) :=
  (List.range (ops.rows input)).foldlM (collectRow ops template input) ([], [])

theorem collectRow_of_digest {ops : ExchangeOps R} {template : Template K R} {input : R}
    (found : List (List UInt8 × R) × List Nat) {row : Nat} {digest : List UInt8}
    (h : template.inputDigest (ops.slice input row 1) = .ok digest) :
    collectRow ops template input found row = .ok (Grouping.note found digest (ops.slice input row 1)) := by
  unfold collectRow Grouping.note
  dsimp only
  rw [h]
  dsimp only [bind, Except.bind]
  cases found.1.findIdx? (·.1 = digest) with
  | some index => rfl
  | none => rfl

theorem collectRow_note {ops : ExchangeOps R} {template : Template K R} {input : R}
    {found found' : List (List UInt8 × R) × List Nat} {row : Nat}
    (h : collectRow ops template input found row = .ok found') :
    ∃ digest, template.inputDigest (ops.slice input row 1) = .ok digest ∧
      found' = Grouping.note found digest (ops.slice input row 1) := by
  obtain ⟨digest, hdigest, -⟩ := except_of_bind_ok h
  rw [collectRow_of_digest found hdigest] at h
  cases h
  exact ⟨digest, hdigest, rfl⟩

variable {ops : ScalarOps R C} (A : ScalarReading ops V) (H : ScalarHistory K V)

/-- The distinct rows of a batch, by a digest that tells them apart. -/
structure DistinctRows (template : Template K R) (input : R) (uniques : List (List UInt8 × R)) (indices : List Nat)
    (distinct : List (InputRow V)) : Prop where
  rows : List.Forall₂ (fun u x => template.inputDigest u.2 = .ok u.1 ∧ x ∈ A.inputRows input ∧ A.inputRows u.2 = [x])
    uniques distinct
  indexed : Taken distinct indices (A.inputRows input)
  used : ∀ j < uniques.length, j ∈ indices

/-- Every distinct row got a value given for it; the indices are cut. -/
inductive Assembled (template : Template K R) (input : R) (values : List V) : Prop
  | intro (uniques : List (List UInt8 × R)) (indices : List Nat) (distinct : List (InputRow V)) (settled : List V)
    (groups : rowGroups ops.toExchangeOps template input = .ok (uniques, indices))
    (rows : DistinctRows A template input uniques indices distinct)
    (given : List.Forall₂ H.given distinct settled)
    (taken : Taken settled (indices.map (· % 2 ^ 32)) values)

/-- As far as `meaning` tells rows apart. -/
def Unwrapped (meaning : InputRow V → β) (template : Template K R) (input : R) : Prop :=
  ∀ uniques indices, rowGroups ops.toExchangeOps template input = .ok (uniques, indices) →
    ∀ j u u', uniques[j]? = some u → uniques[j % 2 ^ 32]? = some u' →
      (A.inputRows u.2).map meaning = (A.inputRows u'.2).map meaning

variable {A H} {template : Template K R} {input : R}

theorem grouped_of_rowGroups {uniques : List (List UInt8 × R)} {indices : List Nat}
    (h : rowGroups ops.toExchangeOps template input = .ok (uniques, indices)) :
    ∃ seen, List.Forall₂ (fun row s => template.inputDigest (ops.slice input row 1) = .ok s.1 ∧
        s.2 = ops.slice input row 1) (List.range (ops.rows input)) seen ∧
      Grouping.Grouped seen (uniques, indices) := by
  obtain ⟨seen, hseen, hgrouped⟩ :=
    Grouping.grouped_foldlM (fun _ _ _ => collectRow_note) Grouping.grouped_nil h
  exact ⟨seen, hseen, by simpa using hgrouped⟩

theorem distinctRows_of_rowGroups {uniques : List (List UInt8 × R)} {indices : List Nat}
    (h : rowGroups ops.toExchangeOps template input = .ok (uniques, indices))
    (hkeys : ∀ b, ∀ x ∈ A.inputRows input, ∀ digest, A.inputRows b = [x] → template.inputDigest b = .ok digest →
      H.stands (template.keyForDigest digest) = x) :
    ∃ distinct, DistinctRows A template input uniques indices distinct := by
  obtain ⟨seen, hseen, hgrouped⟩ := grouped_of_rowGroups h
  obtain ⟨distinct, hdistinct, htaken⟩ :=
    A.gathered (fun b digest => template.inputDigest b = .ok digest) hseen hgrouped (by
      rintro a b digest ⟨x, hx, ha⟩ ⟨y, hy, hb⟩ hda hdb
      rw [ha, hb, ← hkeys a x hx digest ha hda, ← hkeys b y hy digest hb hdb])
  exact ⟨distinct, hdistinct, htaken, hgrouped.used⟩

/-- An index of a batch that is not too long is not cut. -/
theorem unwrapped_of_short (meaning : InputRow V → β) (h : ops.rows input ≤ 2 ^ 32) :
    Unwrapped A meaning template input := by
  intro uniques indices hgroups j u u' hu hu'
  obtain ⟨seen, hseen, hgrouped⟩ := grouped_of_rowGroups hgroups
  have hshort : uniques.length ≤ ops.rows input := by
    have hlength := hseen.length_eq
    rw [List.length_range] at hlength
    rw [hlength]
    exact hgrouped.short
  have hj : j < uniques.length := (List.getElem?_eq_some_iff.1 hu).1
  rw [Nat.mod_eq_of_lt (by omega), hu] at hu'
  rw [Option.some.inj hu']

theorem Assembled.given_of_unwrapped {meaning : InputRow V → β} {values : List V}
    (hmeaning : ∀ x y v, meaning x = meaning y → H.given x v → H.given y v) (h : Assembled A H template input values)
    (hunwrapped : Unwrapped A meaning template input) : List.Forall₂ H.given (A.inputRows input) values := by
  obtain ⟨uniques, indices, distinct, settled, hgroups, hrows, hgiven, htaken⟩ := h
  rw [Taken, List.forall₂_map_left_iff] at htaken
  refine (ListFacts.forall₂_comp hrows.indexed.flip htaken).imp ?_
  rintro x v ⟨j, hj, hv⟩
  obtain ⟨u, hu, -, -, hux⟩ := ListFacts.forall₂_getElem? hrows.rows.flip hj
  obtain ⟨y, hy, hyv⟩ := ListFacts.forall₂_getElem? hgiven.flip hv
  obtain ⟨u', hu', -, -, huy⟩ := ListFacts.forall₂_getElem? hrows.rows.flip hy
  have hsame := hunwrapped uniques indices hgroups j u u' hu hu'
  rw [hux, huy] at hsame
  exact hmeaning y x v (List.singleton_inj.1 hsame).symm hyv

theorem Assembled.unwrapped {meaning : InputRow V → β} {values : List V}
    (hmeaning : ∀ x y v, H.given x v → H.given y v → meaning x = meaning y) (h : Assembled A H template input values)
    (hall : List.Forall₂ H.given (A.inputRows input) values) : Unwrapped A meaning template input := by
  obtain ⟨uniques, indices, distinct, settled, hgroups, hrows, hgiven, htaken⟩ := h
  intro uniques' indices' hgroups' j u u' hu hu'
  cases hgroups.symm.trans hgroups'
  rw [Taken, List.forall₂_map_left_iff] at htaken
  obtain ⟨i, hi⟩ := List.mem_iff_getElem?.1 (hrows.used j (List.getElem?_eq_some_iff.1 hu).1)
  obtain ⟨x, hx, hjx⟩ := ListFacts.forall₂_getElem? hrows.indexed hi
  obtain ⟨v, hv, hjv⟩ := ListFacts.forall₂_getElem? htaken hi
  obtain ⟨w, hw, hxw⟩ := ListFacts.forall₂_getElem? hall hx
  obtain ⟨y, hy, hyv⟩ := ListFacts.forall₂_getElem? hgiven.flip hjv
  obtain ⟨x', hx', -, -, hux⟩ := ListFacts.forall₂_getElem? hrows.rows hu
  obtain ⟨y', hy', -, -, huy⟩ := ListFacts.forall₂_getElem? hrows.rows hu'
  cases hv.symm.trans hw
  cases hjx.symm.trans hx'
  cases hy.symm.trans hy'
  rw [hux, huy, List.map_singleton, List.map_singleton, hmeaning x y v hxw hyv]

namespace Scalar

theorem forall₂_flatMap_of_single {α γ : Type} {R : α → γ → Prop} {f : β → List γ} {xs : List α} {bs : List β}
    (h : List.Forall₂ (fun x b => ∃ v, f b = [v] ∧ R x v) xs bs) : List.Forall₂ R xs (bs.flatMap f) := by
  induction h with
  | nil => exact .nil
  | cons hxb _ ih =>
    obtain ⟨v, hf, hv⟩ := hxb
    rw [List.flatMap_cons, hf]
    exact .cons hv ih

theorem assembleRows_ok {function : String} {xs : List (InputRow V)} {units : List (ScalarUnit K R)} {indices : List Nat}
    {out : R} (h : List.Forall₂ (UnitFor A H) xs units)
    (hout : assembleRows ops.toExchangeOps function units indices = .ok out) :
    ∃ settled, List.Forall₂ H.given xs settled ∧ Taken settled (indices.map (· % 2 ^ 32)) (A.cells (ops.column out)) := by
  unfold assembleRows at hout
  obtain ⟨outputs, houtputs, hout⟩ := except_of_bind_ok hout
  obtain ⟨distinct, hdistinct, hout⟩ := except_of_bind_ok hout
  obtain ⟨hcolumns, htaken⟩ := A.gather hdistinct hout
  rw [List.mapM'_eq_mapM, ListFacts.mapM_ok_iff] at houtputs
  refine ⟨_, ?_, htaken⟩
  apply forall₂_flatMap_of_single
  have hrows := ListFacts.forall₂_comp h houtputs
  refine (ListFacts.forall₂_of_mem hrows.flip (Q := fun b x => ∃ v, A.cells (ops.column b) = [v] ∧ H.given x v) ?_).flip
  rintro b hb x ⟨unit, hunit, hb'⟩
  refine hunit.output b ?_ (hcolumns b hb)
  cases houtput : unit.output with
  | none =>
    rw [houtput] at hb'
    cases hb'
  | some b' =>
    rw [houtput] at hb'
    cases hb'
    rfl

variable {trust : ScalarReply R → Prop} {asked : List (InputRow V)} {s : ScalarDealings K R} {function : String}

/-- What a template that is given does with the rows asked for. -/
def KeysRows (A : ScalarReading ops V) (H : ScalarHistory K V) (asked : List (InputRow V))
    (template : Template K R) : Prop :=
  ∀ b, ∀ x ∈ asked, ∀ digest, A.inputRows b = [x] → template.inputDigest b = .ok digest →
    H.stands (template.keyForDigest digest) = x

theorem wpOk_cacheKeyTemplate {kind : String} : wpOk (scalarProtocol A H trust asked).effects (cacheKeyTemplate kind) s
    fun found s' => s' = (if s.optedIn then { s with template := found } else s) ∧
      ∀ template, found = some template → KeysRows A H asked template := by
  apply wpOk_bind
  apply wpOk_question
  · trivial
  intro reply hreply
  apply wpOk_liftExcept
  rintro found rfl
  refine ⟨rfl, ?_⟩
  rintro template rfl
  exact hreply template rfl

/-- What the exchange of a scalar call brings back. -/
inductive Returned (A : ScalarReading ops V) (H : ScalarHistory K V) (input out : R) (s' : ScalarDealings K R) : Prop
  /-- The answer to the whole input, as it is. -/
  | whole (r : ScalarReply R) (template : s'.template = none) (replies : s'.replies = [r]) (asked : r.input = input)
    (answer : r.answer = out) (gives : Gives A H r)
  | rows (template : Template K R) (going : Going ops H template s')
    (assembled : Assembled A H template input (A.cells (ops.column out)))

theorem wpOk_perValueExchange {fair : Prop}
    (htrust : fair → ∀ r, trust r → r.fallback = true → ops.rows r.answer = ops.rows r.input)
    (hasked : ∀ x ∈ A.inputRows input, x ∈ asked) (hopted : s.optedIn = true) (hwaited : s.waited = false)
    (hreplies : s.replies = []) :
    wpOk (scalarProtocol A H trust asked).effects (perValueExchange ops.toExchangeOps function input) s
      fun out s' => fair → Returned A H input out s' := by
  apply wpOk_then wpOk_cacheKeyTemplate
  rintro found _ ⟨rfl, hkeys⟩
  cases found with
  | none => exact wpOk_throw
  | some template =>
    rw [if_pos hopted]
    apply wpOk_bind
    apply wpOk_liftExcept
    rintro ⟨uniques, rowToUnique⟩ hgroups
    have htemplate : KeysRows A H (A.inputRows input) template := by
      intro b x hx
      exact hkeys template rfl b x (hasked x hx)
    obtain ⟨distinct, hdistinct⟩ := distinctRows_of_rowGroups hgroups htemplate
    have hrows : List.Forall₂ (RowFor A H) distinct
        (uniques.map fun unique => { key := template.keyForDigest unique.1, input := unique.2 : ScalarRow K R }) := by
      rw [List.forall₂_map_right_iff]
      refine hdistinct.rows.flip.imp ?_
      rintro x unique ⟨hdigest, hx, hrow⟩
      exact ⟨hrow, htemplate unique.2 x hx unique.1 hrow hdigest, by rintro b ⟨⟩⟩
    have hgoing : Going ops H template { s with template := some template } := by
      refine ⟨rfl, ?_⟩
      intro r hr
      change r ∈ s.replies at hr
      rw [hreplies] at hr
      cases hr
    have hstart : Going ops H template { s with template := some template } ∧ s.waited = false := ⟨hgoing, hwaited⟩
    apply wpOk_bind
    refine wpOk_mono ?_ (wpOk_mapM'_forall₂ (I := fun s' => Going ops H template s' ∧ s'.waited = false) hrows
      (fun _ _ _ hrow s' hs' => wpOk_mono (by rintro _ _ ⟨rfl, h⟩; exact ⟨hs', h⟩) (wpOk_lookUp hrow)) hstart)
    rintro probed s' ⟨hs', hprobed⟩
    apply wpOk_bind
    refine wpOk_mono ?_ (wpOk_mapM'_forall₂ (I := fun s' => Going ops H template s' ∧ s'.waited = false) hprobed
      (fun _ _ _ hrow s' hs' => wpOk_mono (by rintro _ _ ⟨rfl, h⟩; exact ⟨hs', h⟩) (wpOk_claimMiss hrow)) hs')
    rintro claimed s' ⟨hs', hclaimed⟩
    apply wpOk_bind
    refine wpOk_mono ?_ (wpOk_mapM'_forall₂ (I := fun s' => Going ops H template s' ∧ s'.waited = false) hclaimed
      (fun _ _ _ hunit s' hs' => wpOk_revalidateMiss hunit hs') hs')
    rintro revalidated s' ⟨⟨hs', -⟩, hrevalidated⟩
    apply wpOk_then (wpOk_sendMisses hrevalidated hs')
    rintro sent s' ⟨hs', hsent⟩
    apply wpOk_bind
    refine wpOk_mono ?_ (wpOk_mapM'_forall₂ (I := fun s' => fair → Going ops H template s') hsent
      (fun _ _ _ hunit s' hs' => wpOk_followMiss htrust hunit hs') fun _ => hs')
    rintro answered s' ⟨hs', hanswered⟩
    apply wpOk_liftExcept
    intro out hout hfair
    obtain ⟨settled, hgiven, htaken⟩ := assembleRows_ok (hanswered.imp fun _ _ h => h hfair) hout
    exact .rows template (hs' hfair) ⟨uniques, rowToUnique, distinct, settled, hgroups, hdistinct, hgiven, htaken⟩

/-- What the first answer warms the cache with. -/
theorem wpOk_warmRow {answer : R} {control : Option ExchangeControl} (hkeys : KeysRows A H (A.inputRows input) template)
    (hcolumns : ops.columns answer ≠ 0)
    (hgives : List.Forall₂ H.given (A.inputRows input) (A.cells (ops.column answer))) {row : Nat}
    (hrow : row < ops.rows input) (warmed : List (List UInt8) × Nat) :
    wpOk (scalarProtocol A H trust asked).effects (warmRow ops.toExchangeOps template input answer control warmed row) s
      fun _ s' => s' = s := by
  unfold warmRow
  split
  · exact wpOk_pure rfl
  · apply wpOk_bind
    apply wpOk_liftExcept
    intro digest hdigest
    split
    · exact wpOk_pure rfl
    · have hlt : row < (A.inputRows input).length := by rw [← A.rows_eq]; exact hrow
      have hx : (A.inputRows input)[row]? = some ((A.inputRows input)[row]) := List.getElem?_eq_getElem hlt
      obtain ⟨v, hv, hgiven⟩ := ListFacts.forall₂_getElem? hgives hx
      have hsliced : A.inputRows (ops.slice input row 1) = [(A.inputRows input)[row]] := by
        rw [A.slice, List.drop_eq_getElem_cons hlt, List.take_succ_cons, List.take_zero]
      have hkey := hkeys _ _ (List.getElem_mem hlt) digest hsliced hdigest
      apply wpOk_then (wpOk_materializeOutputRow hcolumns hv hgiven)
      rintro output _ ⟨rfl, houtput⟩
      refine wpOk_quietly trivial (fun _ => rfl) fun ttl => ?_
      cases ttl with
      | ok ttl =>
        have hstored : HoldsGiven A H (template.keyForDigest digest) [output] := by
          rintro b ⟨⟩
          rw [hkey]
          exact houtput
        refine wpOk_quietly hstored (fun _ => rfl) fun _ => ?_
        exact wpOk_pure rfl
      | error reason => exact wpOk_pure rfl

theorem wpOk_firstExchange (hasked : ∀ x ∈ A.inputRows input, x ∈ asked) (hopted : s.optedIn = false)
    (htemplate : s.template = none) (hreplies : s.replies = []) :
    wpOk (scalarProtocol A H trust asked).effects (firstExchange ops.toExchangeOps function input : ExchangeM K R R) s
      fun out s' => Returned A H input out s' := by
  apply wpOk_then wpOk_direct
  rintro ⟨answer, control⟩ s' hheard
  obtain ⟨hgives, -⟩ := hheard.2 _ rfl
  have hreturned : Returned A H input answer s' := by
    refine .whole _ ?_ ?_ rfl rfl hgives
    · rw [hheard.1]
      exact htemplate
    · rw [hheard.1, hreplies]
      rfl
  dsimp only
  split
  next hshape =>
    simp only [Bool.and_eq_true, decide_eq_true_eq] at hshape
    have hcolumns : ops.columns answer ≠ 0 := by omega
    have hall := hgives hshape.1.2 hcolumns
    have hopted' : s'.optedIn = false := by
      rw [hheard.1]
      exact hopted
    apply wpOk_then wpOk_cacheKeyTemplate
    rintro found _ ⟨rfl, hkeys⟩
    simp only [hopted', Bool.false_eq_true, if_false]
    cases found with
    | none => exact wpOk_throw
    | some template =>
      have htemplate : KeysRows A H (A.inputRows input) template := by
        intro b x hx
        exact hkeys template rfl b x (hasked x hx)
      apply wpOk_bind
      refine wpOk_mono ?_ (wpOk_foldlM (I := fun s => s = s') ?_ rfl)
      · rintro warmed _ rfl
        split
        · refine wpOk_quietly trivial (fun _ => rfl) fun _ => ?_
          exact wpOk_pure hreturned
        · exact wpOk_pure hreturned
      · rintro row hrow warmed _ rfl
        exact wpOk_warmRow htemplate hcolumns hall (List.mem_range.1 hrow) warmed
  next => exact wpOk_pure hreturned

theorem wpOk_runScalarExchange {fair : Prop}
    (htrust : fair → ∀ r, trust r → r.fallback = true → ops.rows r.answer = ops.rows r.input)
    (hasked : ∀ x ∈ A.inputRows input, x ∈ asked) {cacheable perValueEnabled : Bool} :
    wpOk (scalarProtocol A H trust asked).effects
      (runScalarExchange ops.toExchangeOps function cacheable perValueEnabled input : ExchangeM K R R) {}
      fun out s' => fair → Returned A H input out s' := by
  apply wpOk_bind
  apply wpOk_bind
  apply wpOk_question
  · trivial
  intro bound _
  apply wpOk_liftExcept
  intro bound _
  split
  · apply wpOk_then wpOk_direct
    rintro ⟨answer, control⟩ s' hheard
    refine wpOk_pure fun _ => .whole _ ?_ ?_ rfl rfl (hheard.2 _ rfl).1
    · rw [hheard.1]
      rfl
    · rw [hheard.1]
      rfl
  · apply wpOk_bind
    apply wpOk_question
    · trivial
    intro opted _
    cases opted with
    | true => exact wpOk_perValueExchange htrust hasked rfl rfl rfl
    | false => exact wpOk_mono (fun _ _ h _ => h) (wpOk_firstExchange hasked rfl rfl rfl)

end Scalar

/-! ## The call -/

/-- The rows that the caller has. -/
def callerRows (A : ScalarReading ops V) (columns : List C) (rows : Nat) : List (InputRow V) :=
  (List.range rows).map (rowAt A.cells columns)

/-- Only a function that is not volatile is asked once for equal rows (`scalar.rs:735-797`). -/
def dedupEnabled (volatility : Volatility) (settings : ScalarSettings) : Bool :=
  decide (volatility ≠ .volatile) && settings.exchangeInputDedup

/-- No row is given the answer of another, as far as `meaning` tells them apart. -/
def NeverCut (A : ScalarReading ops V) (meaning : InputRow V → β) (volatility : Volatility) (settings : ScalarSettings)
    (columns : List C) (rows : Nat) (s : ScalarDealings K R) : Prop :=
  dedupEnabled volatility settings = true ∨ ∀ template input, s.template = some template →
    ops.batchOf columns (rpcRows volatility columns rows) = .ok input → Unwrapped A meaning template input

section
variable {volatility : Volatility} {settings : ScalarSettings} {columns : List C} {rows : Nat}

theorem inputRows_eq (h : ops.batchOf columns (rpcRows volatility columns rows) = .ok input)
    (hrows : rpcRows volatility columns rows = rows) : A.inputRows input = callerRows A columns rows := by
  rw [A.batchOf h, hrows]
  rfl

theorem rows_input (A : ScalarReading ops V) (h : ops.batchOf columns (rpcRows volatility columns rows) = .ok input) :
    ops.rows input = rpcRows volatility columns rows := by
  rw [A.rows_eq, A.batchOf h, List.length_map, List.length_range]

/-- Without columns all rows are the same, and one of them is asked for. -/
theorem inputRows_of_one (h : ops.batchOf columns (rpcRows volatility columns rows) = .ok input)
    (hone : rpcRows volatility columns rows = 1) (hcolumns : columns = []) :
    A.inputRows input = [[]] ∧ callerRows A columns rows = List.replicate rows [] := by
  constructor
  · rw [A.batchOf h, hone, hcolumns]
    rfl
  · rw [callerRows, hcolumns]
    change (List.range rows).map (fun _ => ([] : InputRow V)) = _
    rw [List.map_const', List.length_range]

theorem subset_callerRows (h : ops.batchOf columns (rpcRows volatility columns rows) = .ok input) :
    ∀ x ∈ A.inputRows input, x ∈ callerRows A columns rows := by
  intro x hx
  rcases rpcRows_cases volatility columns rows with hrows | ⟨hone, hpos, hcolumns⟩
  · rwa [inputRows_eq h hrows] at hx
  · obtain ⟨hinput, hcaller⟩ := inputRows_of_one (A := A) h hone hcolumns
    rw [hinput, List.mem_singleton] at hx
    rw [hcaller, hx, List.mem_replicate]
    exact ⟨by omega, rfl⟩

/-- What is sent of the batch, and how its rows are found again. -/
def SentFor (A : ScalarReading ops V) (dedup : Bool) (input sent : R) (gather : Option (List Nat)) : Prop :=
  (dedup = true ∧ A.Deduplicated input sent gather) ∨ (dedup = false ∧ sent = input ∧ gather = none)

theorem sentFor {dedup : Bool} {sent : R} {gather : Option (List Nat)}
    (h : (if dedup then deduplicateScalarInput ops input else .ok (input, none)) = .ok (sent, gather)) :
    SentFor A dedup input sent gather := by
  cases dedup with
  | true => exact Or.inl ⟨rfl, A.deduplicate_ok h⟩
  | false =>
    cases h
    exact Or.inr ⟨rfl, rfl, rfl⟩

/-- The values of the rows sent, given back to the rows of the caller. -/
theorem given_of_sent {dedup : Bool} {sent out : R} {gather : Option (List Nat)} {output : C}
    (hinput : ops.batchOf columns (rpcRows volatility columns rows) = .ok input)
    (hsent : SentFor A dedup input sent gather)
    (hall : List.Forall₂ H.given (A.inputRows sent) (A.cells (ops.column out)))
    (houtput : (match gather with
      | some gather => ops.takeColumn (ops.column out) gather
      | none => if rpcRows volatility columns rows = 1 && 1 < rows then ops.broadcast (ops.column out) rows
        else .ok (ops.column out)) = .ok output) :
    List.Forall₂ H.given (callerRows A columns rows) (A.cells output) := by
  have hrpc := rpcRows_cases volatility columns rows
  have hcount := rows_input A hinput
  cases gather with
  | some gather =>
    obtain ⟨hmany, htaken⟩ : 1 < ops.rows input ∧ Taken (A.inputRows sent) gather (A.inputRows input) := by
      rcases hsent with ⟨-, hdedup⟩ | ⟨-, -, hnone⟩
      · exact hdedup.found gather rfl
      · cases hnone
    have hrows : rpcRows volatility columns rows = rows := by
      rcases hrpc with hrows | ⟨hone, -, -⟩
      · exact hrows
      · omega
    rw [← inputRows_eq hinput hrows]
    refine (ListFacts.forall₂_comp htaken.flip (A.takeColumn houtput)).imp ?_
    rintro x v ⟨j, hx, hv⟩
    obtain ⟨w, hw, hgiven⟩ := ListFacts.forall₂_getElem? hall hx
    cases hw.symm.trans hv
    exact hgiven
  | none =>
    have hwhole : sent = input := by
      rcases hsent with ⟨-, hdedup⟩ | ⟨-, hsame, -⟩
      · exact hdedup.whole rfl
      · exact hsame
    subst hwhole
    dsimp only at houtput
    split at houtput
    next hbroadcast =>
      simp only [Bool.and_eq_true, decide_eq_true_eq] at hbroadcast
      rcases hrpc with hrows | ⟨hone, -, hcolumns⟩
      · omega
      · obtain ⟨hinput', hcaller⟩ := inputRows_of_one (A := A) hinput hone hcolumns
        obtain ⟨v, hv, hcells⟩ := A.broadcast houtput
        rw [hinput'] at hall
        obtain ⟨w, hw, hgiven⟩ := ListFacts.forall₂_getElem? hall (List.getElem?_cons_zero)
        cases hw.symm.trans hv
        rw [hcaller, hcells, List.forall₂_iff_get]
        refine ⟨by simp, ?_⟩
        intro i hi hj
        simpa using hgiven
    next hdirect =>
      cases houtput
      simp only [Bool.and_eq_true, decide_eq_true_eq, not_and] at hdirect
      have hrows : rpcRows volatility columns rows = rows := by
        rcases hrpc with hrows | ⟨hone, hpos, -⟩
        · exact hrows
        · have := hdirect hone
          omega
      rw [← inputRows_eq hinput hrows]
      exact hall

/-- What the call returns: every row with a value given for it, or the rows of a batch too long for its indices. -/
inductive ScalarOutcome (A : ScalarReading ops V) (H : ScalarHistory K V) (volatility : Volatility)
    (settings : ScalarSettings) (columns : List C) (rows : Nat) (output : C) (s : ScalarDealings K R) : Prop
  | kept (given : List.Forall₂ H.given (callerRows A columns rows) (A.cells output))
    (never : ∀ {β : Type} (meaning : InputRow V → β), NeverCut A meaning volatility settings columns rows s)
  | cut (template : Template K R) (input : R) (plain : dedupEnabled volatility settings = false)
    (found : s.template = some template) (built : ops.batchOf columns (rpcRows volatility columns rows) = .ok input)
    (whole : A.inputRows input = callerRows A columns rows) (assembled : Assembled A H template input (A.cells output))

theorem ScalarOutcome.given_of_neverCut {meaning : InputRow V → β} {output : C} {s : ScalarDealings K R}
    (hmeaning : ∀ x y v, meaning x = meaning y → H.given x v → H.given y v)
    (h : ScalarOutcome A H volatility settings columns rows output s)
    (hnever : NeverCut A meaning volatility settings columns rows s) :
    List.Forall₂ H.given (callerRows A columns rows) (A.cells output) := by
  cases h with
  | kept given never => exact given
  | cut template input plain found built whole assembled =>
    rcases hnever with hdedup | hnever
    · rw [plain] at hdedup
      cases hdedup
    · rw [← whole]
      exact assembled.given_of_unwrapped hmeaning (hnever template input found built)

theorem ScalarOutcome.neverCut {β : Type} {meaning : InputRow V → β} {output : C} {s : ScalarDealings K R}
    (hmeaning : ∀ x y v, H.given x v → H.given y v → meaning x = meaning y)
    (h : ScalarOutcome A H volatility settings columns rows output s)
    (hall : List.Forall₂ H.given (callerRows A columns rows) (A.cells output)) :
    NeverCut A meaning volatility settings columns rows s := by
  cases h with
  | kept given never => exact never meaning
  | cut template input plain found built whole assembled =>
    refine Or.inr ?_
    intro template' input' found' built'
    cases found.symm.trans found'
    cases built.symm.trans built'
    rw [← whole] at hall
    exact assembled.unwrapped hmeaning hall

theorem outcome_of_returned {sent out : R} {gather : Option (List Nat)} {output : C}
    {s : ScalarDealings K R} (hinput : ops.batchOf columns (rpcRows volatility columns rows) = .ok input)
    (hsent : SentFor A (dedupEnabled volatility settings) input sent gather) (h : Scalar.Returned A H sent out s)
    (hrows : ops.rows out = ops.rows sent) (hcolumns : ops.columns out = 1)
    (houtput : (match gather with
      | some gather => ops.takeColumn (ops.column out) gather
      | none => if rpcRows volatility columns rows = 1 && 1 < rows then ops.broadcast (ops.column out) rows
        else .ok (ops.column out)) = .ok output) :
    (∀ r ∈ s.replies, r.InFull ops H) ∧ ScalarOutcome A H volatility settings columns rows output s := by
  cases h with
  | whole r template replies asked answer gives =>
    subst asked answer
    constructor
    · intro r' hr'
      rw [replies, List.mem_singleton] at hr'
      subst hr'
      exact Or.inr hrows
    · refine .kept (given_of_sent hinput hsent (gives hrows (by omega)) houtput) ?_
      intro β meaning
      refine Or.inr ?_
      intro template' input' htemplate'
      rw [template] at htemplate'
      cases htemplate'
  | rows template going assembled =>
    refine ⟨going.replies, ?_⟩
    by_cases hshort : ops.rows sent ≤ 2 ^ 32
    · have hsame : ∀ x y v, id x = id y → H.given x v → H.given y v := by
        intro x y v hxy hv
        cases (hxy : x = y)
        exact hv
      have hall := assembled.given_of_unwrapped hsame (unwrapped_of_short id hshort)
      refine .kept (given_of_sent hinput hsent hall houtput) ?_
      intro β meaning
      rcases hsent with ⟨hdedup, -⟩ | ⟨-, rfl, -⟩
      · exact Or.inl hdedup
      · refine Or.inr ?_
        intro template' input' _ hinput'
        cases hinput.symm.trans hinput'
        exact unwrapped_of_short meaning hshort
    · obtain ⟨hplain, rfl, rfl⟩ : dedupEnabled volatility settings = false ∧ sent = input ∧ gather = none := by
        rcases hsent with ⟨-, hdedup⟩ | hplain
        · exact absurd hdedup.bounded hshort
        · exact hplain
      have hcount := rows_input A hinput
      have hrpc : rpcRows volatility columns rows = rows := by
        rcases rpcRows_cases volatility columns rows with hrpc | ⟨hone, -, -⟩
        · exact hrpc
        · omega
      have hlong : rpcRows volatility columns rows ≠ 1 := by omega
      simp only [hlong, decide_false, Bool.false_and, Bool.false_eq_true, if_false] at houtput
      cases houtput
      exact .cut template sent hplain going.template hinput (inputRows_eq hinput hrpc) assembled

theorem wpOk_invokeAsyncWithArgs {fair : Prop} {trust : ScalarReply R → Prop}
    (htrust : fair → ∀ r, trust r → r.fallback = true → ops.rows r.answer = ops.rows r.input)
    {function registeredName : String} : wpOk (scalarProtocol A H trust (callerRows A columns rows)).effects
      (invokeAsyncWithArgs ops function registeredName volatility settings columns rows : ExchangeM K R C) {}
      fun output s => fair →
        (∀ r ∈ s.replies, r.InFull ops H) ∧ ScalarOutcome A H volatility settings columns rows output s := by
  apply wpOk_bind
  apply wpOk_liftExcept
  intro input hinput
  apply wpOk_bind
  apply wpOk_liftExcept
  rintro ⟨sent, gather⟩ hsent
  have hsent := sentFor (A := A) hsent
  have hasked : ∀ x ∈ A.inputRows sent, x ∈ callerRows A columns rows := by
    intro x hx
    apply subset_callerRows hinput
    rcases hsent with ⟨-, hdedup⟩ | ⟨-, rfl, -⟩
    · exact hdedup.subset x hx
    · exact hx
  apply wpOk_then (Scalar.wpOk_runScalarExchange htrust hasked)
  intro out s hreturned
  split
  · exact wpOk_throw
  · split
    · exact wpOk_throw
    · apply wpOk_liftExcept
      intro output houtput hfair
      exact outcome_of_returned hinput hsent (hreturned hfair) (by omega) (by omega) houtput

end

end VgiDatafusion
