import VgiDatafusion.Cache.Exchange

/-!
# What an exchange call owns while it runs

The ghost state is the list of the flights a body has claimed and not completed. `flightSpec` lets it wait
only with an empty list; the three bodies meet that for every answer of their surroundings, because each pass
over the units completes what the passes before it left (`wpOk_runExchange`, `wpOk_runBuffered`,
`wpOk_runScalarExchange`).
-/
namespace VgiDatafusion.Exchange

open Program

section
variable {K R : Type}

/-- The state is the list of flights a call still owns; completing one needs it there. -/
def flightSpec (K R : Type) : Effects (Question K R) Question.Reply (List Nat) where
  holds
    | .acquire _, own, Q => (∀ f, Q (.producer f) (f :: own)) ∧ ∀ w, Q (.follower w) own
    | .finish f _, own, Q => Q ⟨⟩ (own.filter (· ≠ f))
    | .wait _, own, Q => own = [] ∧ ∀ outcome, Q outcome own
    | .outside _, own, Q => ∀ reply, Q reply own
  mono := by
    intro e own Q Q' hQ h
    cases e with
    | acquire key => exact ⟨fun f => hQ _ _ (h.1 f), fun w => hQ _ _ (h.2 w)⟩
    | finish f outcome => exact hQ _ _ h
    | wait w => exact ⟨h.1, fun outcome => hQ _ _ (h.2 outcome)⟩
    | outside question => exact fun reply => hQ _ _ (h reply)

/-- The body keeps to the specification and may end in any way. -/
abbrev ok {α : Type} (p : ExchangeM K R α) (own : List Nat) (Q : α → List Nat → Prop) : Prop :=
  wpOk (flightSpec K R) p own Q

/-- The program asks nothing of the registry. -/
abbrev Quiet {α : Type} (p : ExchangeM K R α) : Prop := Silent (flightSpec K R) p

/-! ## The questions -/

theorem ok_acquire {key : K} {own : List Nat} {Q : FlightClaim → List Nat → Prop}
    (hproducer : ∀ f, Q (.producer f) (f :: own)) (hfollower : ∀ w, Q (.follower w) own) :
    ok (acquire key : ExchangeM K R FlightClaim) own Q :=
  wpOk_ask ⟨hproducer, hfollower⟩

theorem ok_finish {f : Nat} {outcome : FlightOutcome} {own : List Nat} {Q : PUnit → List Nat → Prop}
    (h : Q ⟨⟩ (own.filter (· ≠ f))) : ok (finish f outcome : ExchangeM K R PUnit) own Q :=
  wpOk_ask (S := flightSpec K R) (e := .finish f outcome) h

theorem quiet_outside (question : Outside K R) : Quiet (outside question) := silent_ask fun _ _ hQ => hQ

theorem quiet_answered {α : Type} {p : ExchangeM K R (Except String α)} (hp : Quiet p) : Quiet (p >>= liftExcept) :=
  silent_bind hp silent_liftExcept

/-! ## Parts that touch no flight -/

theorem quiet_exchangeOnce (conditions : Conditions) (input : R) :
    Quiet (exchangeOnce conditions input : ExchangeM K R _) := by
  apply silent_bind (quiet_answered (quiet_outside _))
  intro _
  apply silent_bind (quiet_answered (quiet_outside _))
  intro answer
  apply silent_bind (quiet_answered (quiet_outside _))
  intro _
  exact silent_pure

theorem quiet_exchangeAnswered (missing : String) (conditions : Conditions) (input : R) :
    Quiet (exchangeAnswered missing conditions input : ExchangeM K R _) := by
  apply silent_bind (quiet_exchangeOnce conditions input)
  rintro ⟨_ | answer, control⟩
  · exact silent_throw
  · exact silent_pure

theorem quiet_runLifecycle (inputs : List R) (conditions : Conditions) :
    Quiet (runLifecycle inputs conditions : ExchangeM K R _) := by
  apply silent_bind (quiet_answered (quiet_outside _))
  intro execution
  apply silent_bind (silent_mapM' (fun _ => quiet_answered (quiet_outside _)) _)
  intro states
  apply silent_bind (quiet_answered (quiet_outside _))
  intro finalizes
  apply silent_bind (silent_mapM' (fun _ => quiet_answered (quiet_outside _)) _)
  intro scans
  exact silent_pure

theorem quiet_storedEntry (key : K) : Quiet (storedEntry key : ExchangeM K R _) := by
  apply silent_bind (quiet_outside _)
  intro entry
  cases entry with
  | some entry => exact silent_pure
  | none => exact quiet_outside _

/-- A follower waits, owning nothing, and owns nothing after. -/
theorem ok_awaitEntry {key : K} {w : Nat} {Q : Option (CachedEntry R) → List Nat → Prop} (hQ : ∀ entry, Q entry []) :
    ok (awaitEntry key w) [] Q := by
  apply wpOk_bind
  apply wpOk_ask
  refine ⟨rfl, ?_⟩
  intro outcome
  cases outcome with
  | stored => exact wpOk_silent (quiet_storedEntry key) hQ
  | aborted reason => exact wpOk_pure (hQ none)

end

/-! ## Owning no more than a list of flights -/

/-- Every flight owned is one of these. -/
def Within (flights own : List Nat) : Prop := ∀ f ∈ own, f ∈ flights

theorem Within.eq_nil {own : List Nat} (h : Within [] own) : own = [] :=
  List.eq_nil_iff_forall_not_mem.2 fun f hf => List.not_mem_nil (h f hf)

variable {K R α β : Type}

/-- Whatever else is owned: of the flights in `before`, those in `after` are left. -/
def Settles (p : ExchangeM K R α) (before : List Nat) (after : α → List Nat) : Prop :=
  ∀ first last own, Within (first ++ before ++ last) own →
    ok p own fun a own' => Within (first ++ after a ++ last) own'

namespace Settles

theorem acquire (key : K) : Settles (R := R) (acquire key) [] fun
    | .producer f => [f]
    | .follower _ => [] := by
  intro first last own hown
  apply ok_acquire
  · intro f g hg
    rcases List.mem_cons.1 hg with rfl | hg
    · simp
    · have hmem := hown g hg
      simp only [List.append_nil, List.mem_append] at hmem
      simp only [List.mem_append]
      tauto
  · intro w
    exact hown

theorem finish (f : Nat) (outcome : FlightOutcome) :
    Settles (K := K) (R := R) (finish f outcome) [f] fun _ => [] := by
  intro first last own hown
  apply ok_finish
  intro g hg
  obtain ⟨hg, hne⟩ := List.mem_filter.1 hg
  have hmem := hown g hg
  simp only [List.mem_append, List.mem_singleton] at hmem
  simp only [List.append_nil, List.mem_append]
  simp only [ne_eq, decide_eq_true_eq] at hne
  tauto

theorem pure {a : α} {before : List Nat} {after : α → List Nat} (h : after a = before) :
    Settles (K := K) (R := R) (pure a) before after := by
  intro first last own hown
  apply wpOk_pure
  rw [h]
  exact hown

theorem throw {error : String} {before : List Nat} {after : α → List Nat} :
    Settles (K := K) (R := R) (throw error) before after :=
  fun _ _ _ _ => wpOk_throw

theorem bind {p : ExchangeM K R α} {f : α → ExchangeM K R β} {before : List Nat} {between : α → List Nat}
    {after : β → List Nat} (hp : Settles p before between) (hf : ∀ a, Settles (f a) (between a) after) :
    Settles (p >>= f) before after := by
  intro first last own hown
  apply wpOk_bind
  refine wpOk_mono ?_ (hp first last own hown)
  intro a own' hown'
  exact hf a first last own' hown'

theorem quiet {p : ExchangeM K R α} {before : List Nat} {after : α → List Nat} (hp : Quiet p)
    (h : ∀ a, after a = before) : Settles p before after := by
  intro first last own hown
  apply wpOk_silent hp
  intro a
  rw [h a]
  exact hown

/-- A part that touches no flight comes first. -/
theorem after_quiet {p : ExchangeM K R α} {f : α → ExchangeM K R β} {before : List Nat} {after : β → List Nat}
    (hp : Quiet p) (hf : ∀ a, Settles (f a) before after) : Settles (p >>= f) before after :=
  bind (quiet hp fun _ => rfl) hf

/-- A completion, and then a part that owns nothing more. -/
theorem finish_then {f : Nat} {outcome : FlightOutcome} {p : PUnit → ExchangeM K R α} {after : α → List Nat}
    (hp : ∀ u, Settles (p u) [] after) : Settles (Exchange.finish f outcome >>= p) [f] after :=
  bind (finish f outcome) hp

/-- The cache is told, then the flight is completed. -/
theorem told_then {question : Outside K R} {f : Nat} {outcome : FlightOutcome} {p : PUnit → ExchangeM K R α}
    {after : α → List Nat} (hp : ∀ u, Settles (p u) [] after) :
    Settles (outside question >>= fun _ => Exchange.finish f outcome >>= p) [f] after :=
  after_quiet (quiet_outside question) fun _ => finish_then hp

/-- Owning less. -/
theorem weaken {p : ExchangeM K R α} {before before' : List Nat} {after : α → List Nat} (hp : Settles p before' after)
    (h : before ⊆ before') : Settles p before after := by
  intro first last own hown
  apply hp first last own
  intro f hf
  have hmem := hown f hf
  simp only [List.mem_append] at hmem ⊢
  rcases hmem with (hfirst | hbefore) | hlast
  · exact .inl (.inl hfirst)
  · exact .inl (.inr (h hbefore))
  · exact .inr hlast

theorem frame {p : ExchangeM K R α} {before : List Nat} {after : α → List Nat} (hp : Settles p before after)
    (others : List Nat) : Settles p (before ++ others) fun a => after a ++ others := by
  intro first last own hown
  refine wpOk_mono ?_ (hp first (others ++ last) own (by simpa using hown))
  intro a own' hown'
  simpa using hown'

theorem mapM' {f : α → ExchangeM K R β} {before : α → List Nat} {after : β → List Nat}
    (hf : ∀ x, Settles (f x) (before x) after) :
    ∀ xs : List α, Settles (xs.mapM' f) (xs.flatMap before) fun ys => ys.flatMap after
  | [] => pure rfl
  | x :: xs => by
    intro first last own hown
    rw [List.flatMap_cons] at hown
    apply wpOk_bind
    refine wpOk_mono ?_ (hf x first (xs.flatMap before ++ last) own (by simpa using hown))
    intro y own' hown'
    apply wpOk_bind
    refine wpOk_mono ?_ (mapM' hf xs (first ++ after y) last own' (by simpa using hown'))
    intro ys own'' hown''
    apply wpOk_pure
    simpa using hown''

end Settles

/-! ## `run_exchange` -/

variable (ops : ExchangeOps R) (function : String)

/-- The flight of a unit that still has to be answered. -/
def ExchangeUnit.held (unit : ExchangeUnit K R) : List Nat :=
  match unit.state, unit.output with
  | .producer _ f, none => [f]
  | _, _ => []

@[simp] theorem ExchangeUnit.held_answered (unit : ExchangeUnit K R) (batches : List R) :
    ({ unit with output := some batches } : ExchangeUnit K R).held = [] := by
  unfold ExchangeUnit.held
  split <;> simp_all

theorem settles_claimUnit (template : Option (Template K R)) (input : R) :
    Settles (claimUnit template input) [] ExchangeUnit.held := by
  cases template with
  | none => exact Settles.pure rfl
  | some template =>
    apply Settles.after_quiet (silent_liftExcept _)
    intro key
    apply Settles.after_quiet (quiet_outside _)
    intro entry
    cases entry with
    | some entry => exact Settles.pure rfl
    | none =>
      apply Settles.bind (Settles.acquire key)
      intro claim
      cases claim with
      | producer f => exact Settles.pure rfl
      | follower w => exact Settles.pure rfl

theorem settles_findStale (unit : ExchangeUnit K R) :
    Settles (findStale unit) unit.held fun found => found.1.held := by
  unfold findStale
  split
  · apply Settles.after_quiet (quiet_outside _)
    intro stale
    exact Settles.pure rfl
  · exact Settles.pure rfl

theorem settles_acceptRevalidation (unit : ExchangeUnit K R) (key : K) (f : Nat) (stale : CachedEntry R) (answer : R)
    (control : Option ExchangeControl) :
    Settles (acceptRevalidation ops function unit key f stale answer control) [f] ExchangeUnit.held := by
  unfold acceptRevalidation
  split
  · split
    · exact Settles.throw
    · apply Settles.after_quiet (quiet_outside _)
      intro ttl
      cases ttl with
      | ok ttl =>
        apply Settles.told_then
        intro _
        exact Settles.pure (ExchangeUnit.held_answered unit stale.batches)
      | error reason =>
        apply Settles.told_then
        intro _
        exact Settles.throw
  · apply Settles.after_quiet (quiet_outside _)
    intro ttl
    cases ttl with
    | ok ttl =>
      apply Settles.told_then
      intro _
      exact Settles.pure (ExchangeUnit.held_answered unit [answer])
    | error reason =>
      apply Settles.told_then
      intro _
      exact Settles.pure (ExchangeUnit.held_answered unit [answer])

theorem held_subset_of_producer {unit : ExchangeUnit K R} {key : K} {f : Nat} (h : unit.state = .producer key f) :
    unit.held ⊆ [f] := by
  unfold ExchangeUnit.held
  rw [h]
  cases unit.output <;> simp

theorem settles_revalidateUnit (found : ExchangeUnit K R × Option (CachedEntry R)) :
    Settles (revalidateUnit ops function found) found.1.held ExchangeUnit.held := by
  unfold revalidateUnit
  split
  next stale key f _ hstate =>
    apply Settles.weaken _ (held_subset_of_producer hstate)
    apply Settles.after_quiet (silent_captured (quiet_exchangeAnswered _ _ _))
    intro attempt
    cases attempt with
    | ok answer => exact settles_acceptRevalidation ops function found.1 key f stale answer.1 answer.2
    | error error =>
      apply Settles.after_quiet (quiet_outside _)
      intro serves
      cases serves with
      | true =>
        apply Settles.finish_then
        intro _
        exact Settles.pure (ExchangeUnit.held_answered _ _)
      | false => exact Settles.throw
  next => exact Settles.pure rfl

theorem settles_storeAnswer (key : K) (f : Nat) (answer : R) (control : Option ExchangeControl) :
    Settles (storeAnswer ops key f answer control) [f] fun _ => [] := by
  apply Settles.after_quiet (quiet_outside _)
  intro ttl
  cases ttl with
  | ok ttl => exact Settles.after_quiet (quiet_outside _) fun _ => Settles.finish f _
  | error reason => exact Settles.finish f _

theorem held_of_not_direct {unit : ExchangeUnit K R} (h : ¬unit.isDirect = true) : unit.held = [] := by
  unfold ExchangeUnit.held
  unfold ExchangeUnit.isDirect at h
  split
  · simp_all
  · rfl

theorem settles_settleUnit (unit : ExchangeUnit K R) (answer : Option R) (control : Option ExchangeControl) :
    Settles (settleUnit ops unit answer control) unit.held fun _ => [] := by
  cases hstate : unit.state with
  | producer key f =>
    apply Settles.weaken _ (held_subset_of_producer hstate)
    cases answer with
    | some answer =>
      simp only [settleUnit, hstate]
      exact settles_storeAnswer ops key f answer control
    | none =>
      simp only [settleUnit, hstate]
      exact Settles.finish f _
  | hit batches =>
    simp only [settleUnit, ExchangeUnit.held, hstate]
    exact Settles.pure rfl
  | follower key w =>
    simp only [settleUnit, ExchangeUnit.held, hstate]
    exact Settles.pure rfl
  | uncached =>
    simp only [settleUnit, ExchangeUnit.held, hstate]
    exact Settles.pure rfl

theorem settles_sendUnit (unit : ExchangeUnit K R) : Settles (sendUnit ops unit) unit.held fun _ => [] := by
  unfold sendUnit
  split
  · apply Settles.after_quiet (quiet_answered (quiet_outside _))
    intro answer
    exact Settles.bind (settles_settleUnit ops unit answer.1 answer.2) fun _ => Settles.pure rfl
  next hdirect => exact Settles.pure (held_of_not_direct hdirect).symm

theorem settles_sendDirect (units : List (ExchangeUnit K R)) :
    Settles (sendDirect ops units) (units.flatMap (·.held)) fun _ => [] := by
  unfold sendDirect
  split
  · apply Settles.after_quiet (quiet_answered (quiet_outside _))
    intro _
    apply Settles.bind (Settles.mapM' (settles_sendUnit ops) units)
    intro sent
    apply Settles.after_quiet (quiet_answered (quiet_outside _))
    intro _
    exact Settles.pure (List.flatMap_eq_nil_iff.2 fun _ _ => rfl).symm
  next hdirect =>
    apply Settles.pure
    simp only [List.any_eq_true, not_exists, not_and] at hdirect
    symm
    rw [List.flatMap_eq_nil_iff]
    intro unit hunit
    exact held_of_not_direct (hdirect unit hunit)

/-- A pass of followers, with everything settled before it. -/
theorem ok_followers {follow : α → ExchangeM K R β} (hfollow : ∀ x, ok (follow x) [] fun _ own => own = [])
    (xs : List α) : ok (xs.mapM' follow) [] fun _ own => own = [] := by
  have hpass : ∀ x own, own = [] → ok (follow x) own fun _ own' => own' = [] := by
    rintro x _ rfl
    exact hfollow x
  exact wpOk_mapM' hpass xs rfl

theorem ok_followUnit (unit : ExchangeUnit K R) : ok (followUnit unit) [] fun _ own => own = [] := by
  unfold followUnit
  split
  · apply wpOk_bind
    apply ok_awaitEntry
    intro entry
    cases entry with
    | some entry => exact wpOk_pure rfl
    | none => exact wpOk_silent_bind (quiet_exchangeOnce _ _) fun _ => wpOk_pure rfl
  · exact wpOk_pure rfl

/-- A pass of a body, between what is owned before it and what is owned after it. -/
theorem Settles.ok_bind {p : ExchangeM K R α} {f : α → ExchangeM K R β} {before own : List Nat} {after : α → List Nat}
    {Q : β → List Nat → Prop} (hp : Settles p before after) (hown : Within before own)
    (hf : ∀ a own', Within (after a) own' → ok (f a) own' Q) : ok (p >>= f) own Q := by
  apply wpOk_bind
  refine wpOk_mono ?_ (hp [] [] own (by simpa using hown))
  intro a own' hown'
  exact hf a own' (by simpa using hown')

theorem quiet_template (ineligible : Bool) (kind : String) :
    Quiet (templateUnless ineligible kind : ExchangeM K R _) := by
  unfold templateUnless
  split
  · exact silent_pure
  · exact quiet_answered (quiet_outside _)

theorem ok_runExchange (shapeIneligible : Bool) (inputs : List R) :
    ok (runExchange (K := K) ops function shapeIneligible inputs) [] fun _ own => own = [] := by
  apply wpOk_silent_bind (quiet_answered (quiet_outside _))
  intro bound
  apply wpOk_silent_bind (quiet_template _ _)
  intro template
  -- what each pass leaves, the next one settles
  apply Settles.ok_bind (Settles.mapM' (settles_claimUnit template) inputs) (fun f hf => absurd hf List.not_mem_nil)
  intro claimed own hclaimed
  apply Settles.ok_bind (Settles.mapM' settles_findStale claimed) hclaimed
  intro found own hfound
  apply Settles.ok_bind (Settles.mapM' (settles_revalidateUnit ops function) found) hfound
  intro revalidated own hrevalidated
  apply Settles.ok_bind (settles_sendDirect ops revalidated) hrevalidated
  intro sent own hsent
  obtain rfl := hsent.eq_nil
  apply wpOk_bind
  refine wpOk_mono ?_ (ok_followers ok_followUnit sent)
  rintro units _ rfl
  exact wpOk_pure rfl

/-! ## `run_buffered` -/

/-- The flight is completed whatever is returned. -/
abbrev Completes (p : ExchangeM K R α) (f : Nat) : Prop := Settles p [f] fun _ => []

theorem completes_bufferedFailure (f : Nat) (stale : Option (CachedEntry R)) (error : String) :
    Completes (K := K) (bufferedFailure f stale error) f := by
  apply Settles.after_quiet (quiet_outside _)
  intro allowed
  cases allowed with
  | false => exact Settles.finish_then fun _ => Settles.throw
  | true =>
    cases stale with
    | none => exact Settles.finish_then fun _ => Settles.throw
    | some entry =>
      apply Settles.after_quiet (quiet_outside _)
      intro serves
      cases serves with
      | true => exact Settles.finish_then fun _ => Settles.pure rfl
      | false => exact Settles.finish_then fun _ => Settles.throw

theorem completes_bufferedNotModified (key : K) (f : Nat) (stale : Option (CachedEntry R)) (batches : List R)
    (control : Option ExchangeControl) :
    Completes (bufferedNotModified ops function key f stale batches control) f := by
  cases stale with
  | none => exact Settles.finish_then fun _ => Settles.throw
  | some stale =>
    unfold bufferedNotModified
    dsimp only
    split
    · exact Settles.finish_then fun _ => Settles.throw
    · apply Settles.after_quiet (quiet_outside _)
      intro ttl
      cases ttl with
      | ok ttl => exact Settles.told_then fun _ => Settles.pure rfl
      | error reason => exact Settles.told_then fun _ => Settles.throw

theorem completes_bufferedSuccess (key : K) (f : Nat) (stale : Option (CachedEntry R)) (batches : List R)
    (controls : List (Option ExchangeControl)) :
    Completes (bufferedSuccess ops function key f stale batches controls) f := by
  apply Settles.after_quiet (quiet_outside _)
  intro allowed
  cases allowed with
  | false => exact Settles.finish_then fun _ => Settles.pure rfl
  | true =>
    apply Settles.after_quiet (silent_liftExcept _)
    intro normalized
    cases normalized with
    | refused => exact Settles.told_then fun _ => Settles.pure rfl
    | consistent control =>
      dsimp only
      split
      · exact completes_bufferedNotModified ops function key f stale batches control
      · apply Settles.after_quiet (quiet_outside _)
        intro ttl
        cases ttl with
        | ok ttl => exact Settles.told_then fun _ => Settles.pure rfl
        | error reason => exact Settles.told_then fun _ => Settles.pure rfl

theorem completes_produceBuffered (inputs : List R) (key : K) (f : Nat) :
    Completes (produceBuffered ops function inputs key f) f := by
  apply Settles.after_quiet (quiet_outside _)
  intro stale
  apply Settles.after_quiet (silent_captured (quiet_runLifecycle _ _))
  intro attempt
  cases attempt with
  | ok result => exact completes_bufferedSuccess ops function key f stale result.1 result.2
  | error error => exact completes_bufferedFailure f stale error

theorem ok_followBuffered (inputs : List R) (key : K) (w : Nat) :
    ok (followBuffered inputs key w) [] fun _ own => own = [] := by
  apply wpOk_bind
  apply ok_awaitEntry
  intro entry
  cases entry with
  | some entry => exact wpOk_pure rfl
  | none => exact wpOk_silent_bind (quiet_runLifecycle _ _) fun _ => wpOk_pure rfl

theorem ok_runBuffered (sinkOrderDependent : Bool) (inputs : List R) :
    ok (runBuffered (K := K) ops function sinkOrderDependent inputs) [] fun _ own => own = [] := by
  apply wpOk_silent_bind (quiet_answered (quiet_outside _))
  intro bound
  apply wpOk_silent_bind (quiet_template _ _)
  intro template
  cases template with
  | none => exact wpOk_silent_bind (quiet_runLifecycle _ _) fun _ => wpOk_pure rfl
  | some template =>
    apply wpOk_silent_bind (silent_liftExcept _)
    intro key
    apply wpOk_silent_bind (quiet_outside _)
    intro entry
    cases entry with
    | some entry => exact wpOk_pure rfl
    | none =>
      apply Settles.ok_bind (Settles.acquire key) (fun f hf => hf)
      intro claim own hown
      cases claim with
      | follower w =>
        obtain rfl := hown.eq_nil
        exact ok_followBuffered inputs key w
      | producer f =>
        refine wpOk_mono ?_ (completes_produceBuffered ops function inputs key f [] [] own hown)
        intro batches own' hown'
        exact hown'.eq_nil

/-! ## `run_scalar_exchange` -/

theorem quiet_direct (conditions : Conditions) (input : R) :
    Quiet (direct function conditions input : ExchangeM K R _) :=
  quiet_exchangeAnswered _ conditions input

theorem quiet_warmRow (template : Template K R) (input answer : R) (control : Option ExchangeControl)
    (warmed : List (List UInt8) × Nat) (row : Nat) : Quiet (warmRow ops template input answer control warmed row) := by
  unfold warmRow
  split
  · exact silent_pure
  · apply silent_bind (silent_liftExcept _)
    intro digest
    split
    · exact silent_pure
    · apply silent_bind (silent_liftExcept _)
      intro output
      apply silent_bind (quiet_outside _)
      intro ttl
      cases ttl with
      | ok ttl => exact silent_bind (quiet_outside _) fun _ => silent_pure
      | error reason => exact silent_pure

theorem quiet_firstExchange (input : R) : Quiet (firstExchange (K := K) ops function input) := by
  apply silent_bind (quiet_direct function _ input)
  rintro ⟨answer, control⟩
  dsimp only
  split
  · apply silent_bind (quiet_answered (quiet_outside _))
    intro template
    cases template with
    | none => exact silent_throw
    | some template =>
      apply silent_bind (silent_foldlM (quiet_warmRow ops template input answer control) _ _)
      intro warmed
      split
      · exact silent_bind (quiet_outside _) fun _ => silent_pure
      · exact silent_pure
  · exact silent_pure

theorem quiet_lookUp (row : ScalarRow K R) : Quiet (lookUp ops row) := by
  apply silent_bind (quiet_outside _)
  intro entry
  split
  · split
    · exact silent_pure
    · exact silent_pure
  · exact silent_pure

/-- The flight of a row that is claimed and not settled; of a cold row only, once the others are revalidated. -/
def ScalarUnit.claimed (unit : ScalarUnit K R) : List Nat :=
  match unit.claim with
  | some (.producer f _) => [f]
  | _ => []

def ScalarUnit.cold (unit : ScalarUnit K R) : List Nat :=
  match unit.claim with
  | some (.producer f none) => [f]
  | _ => []

theorem settles_claimMiss (row : ScalarRow K R) : Settles (claimMiss row) [] ScalarUnit.claimed := by
  unfold claimMiss
  split
  · exact Settles.pure rfl
  · apply Settles.bind (Settles.acquire row.key)
    intro claim
    cases claim with
    | producer f =>
      apply Settles.after_quiet (quiet_outside _)
      intro stale
      exact Settles.pure rfl
    | follower w => exact Settles.pure rfl

theorem settles_acceptMiss (unit : ScalarUnit K R) (f : Nat) (stale : CachedEntry R) (answer : R)
    (control : Option ExchangeControl) (hcold : unit.cold = []) :
    Settles (acceptMiss ops function unit f stale answer control) [f] ScalarUnit.cold := by
  unfold acceptMiss
  split
  · split
    · exact Settles.throw
    · split
      next cached hbatches =>
        apply Settles.after_quiet (quiet_outside _)
        intro ttl
        cases ttl with
        | ok ttl => exact Settles.told_then fun _ => Settles.pure hcold
        | error reason => exact Settles.told_then fun _ => Settles.throw
      next => exact Settles.finish_then fun _ => Settles.pure hcold
  · split
    · apply Settles.after_quiet (silent_liftExcept _)
      intro output
      apply Settles.after_quiet (quiet_outside _)
      intro ttl
      cases ttl with
      | ok ttl =>
        dsimp only
        split
        · exact Settles.told_then fun _ => Settles.pure hcold
        · exact Settles.told_then fun _ => Settles.pure hcold
      | error reason => exact Settles.told_then fun _ => Settles.pure hcold
    · exact Settles.throw

theorem settles_revalidateMiss (unit : ScalarUnit K R) :
    Settles (revalidateMiss ops function unit) unit.claimed ScalarUnit.cold := by
  cases hclaim : unit.claim with
  | none =>
    simp only [revalidateMiss, ScalarUnit.claimed, hclaim]
    exact Settles.pure (by simp [ScalarUnit.cold, hclaim])
  | some claim =>
    cases claim with
    | follower w =>
      simp only [revalidateMiss, ScalarUnit.claimed, hclaim]
      exact Settles.pure (by simp [ScalarUnit.cold, hclaim])
    | producer f stale =>
      cases stale with
      | none =>
        simp only [revalidateMiss, ScalarUnit.claimed, hclaim]
        exact Settles.pure (by simp [ScalarUnit.cold, hclaim])
      | some stale =>
        have hcold : unit.cold = [] := by simp [ScalarUnit.cold, hclaim]
        rw [show unit.claimed = [f] by simp [ScalarUnit.claimed, hclaim]]
        unfold revalidateMiss
        rw [hclaim]
        apply Settles.after_quiet (silent_captured (quiet_direct function _ _))
        intro attempt
        cases attempt with
        | ok answer => exact settles_acceptMiss ops function unit f stale answer.1 answer.2 hcold
        | error error =>
          apply Settles.after_quiet (quiet_outside _)
          intro serves
          cases serves with
          | false => exact Settles.throw
          | true =>
            rw [if_pos rfl]
            split
            · exact Settles.finish_then fun _ => Settles.pure rfl
            · exact Settles.finish_then fun _ => Settles.throw

theorem completes_storeMiss (key : K) (f : Nat) (fresh : R) (control : Option ExchangeControl) (row : Nat) :
    Completes (storeMiss ops key f fresh control row) f := by
  apply Settles.after_quiet (silent_liftExcept _)
  intro output
  apply Settles.after_quiet (quiet_outside _)
  intro ttl
  cases ttl with
  | ok ttl => exact Settles.after_quiet (quiet_outside _) fun _ => Settles.finish f _
  | error reason => exact Settles.finish f _

theorem completes_settleMiss (key : K) (f : Nat) (fresh : R) (control : Option ExchangeControl) (row : Nat)
    (tried : Bool) : Completes (settleMiss ops key f fresh control row tried) f := by
  unfold settleMiss
  split
  · exact completes_storeMiss ops key f fresh control row
  · exact Settles.finish f _

theorem settles_settleMisses (fresh : R) (control : Option ExchangeControl) (units : List (ScalarUnit K R)) :
    ∀ row attempts, Settles (settleMisses ops fresh control row attempts units) (units.flatMap (·.cold)) fun _ => [] := by
  induction units with
  | nil => exact fun _ _ => Settles.pure rfl
  | cons unit rest ih =>
    intro row attempts
    rw [List.flatMap_cons]
    -- the units after this one, whatever is counted so far
    have hrest : ∀ row attempts, Settles (do
        let settled ← settleMisses ops fresh control row attempts rest
        return unit :: settled) (rest.flatMap (·.cold)) fun _ => [] := by
      intro row attempts
      exact Settles.bind (ih row attempts) fun _ => Settles.pure rfl
    cases hclaim : unit.claim with
    | none =>
      simp only [settleMisses, ScalarUnit.cold, hclaim]
      exact hrest row attempts
    | some claim =>
      cases claim with
      | follower w =>
        simp only [settleMisses, ScalarUnit.cold, hclaim]
        exact hrest row attempts
      | producer f stale =>
        cases stale with
        | some stale =>
          simp only [settleMisses, ScalarUnit.cold, hclaim]
          exact hrest row attempts
        | none =>
          simp only [settleMisses, ScalarUnit.cold, hclaim]
          apply Settles.bind ((completes_settleMiss ops unit.key f fresh control row _).frame _)
          intro _
          exact Settles.bind (ih _ _) fun _ => Settles.pure rfl

theorem cold_of_not_isCold {unit : ScalarUnit K R} (h : ¬unit.isCold = true) : unit.cold = [] := by
  unfold ScalarUnit.cold
  unfold ScalarUnit.isCold at h
  split
  · simp_all
  · rfl

theorem settles_sendMisses (units : List (ScalarUnit K R)) :
    Settles (sendMisses ops function units) (units.flatMap (·.cold)) fun _ => [] := by
  unfold sendMisses
  dsimp only
  split
  next hempty =>
    apply Settles.pure
    symm
    rw [List.flatMap_eq_nil_iff]
    intro unit hunit
    apply cold_of_not_isCold
    rw [List.isEmpty_iff] at hempty
    exact List.filter_eq_nil_iff.1 hempty unit hunit
  · apply Settles.after_quiet (silent_liftExcept _)
    intro input
    apply Settles.after_quiet (quiet_answered (quiet_outside _))
    intro _
    apply Settles.after_quiet (quiet_answered (quiet_outside _))
    rintro ⟨_ | fresh, control⟩
    · exact Settles.throw
    · apply Settles.after_quiet (quiet_answered (quiet_outside _))
      intro _
      split
      · exact settles_settleMisses ops fresh control units 0 0
      · exact Settles.throw

theorem ok_followMiss (unit : ScalarUnit K R) : ok (followMiss ops function unit) [] fun _ own => own = [] := by
  -- without an entry of the right shape the row is asked for directly
  have hdirect : ok (do
      let answered ← direct function (none, none) unit.input
      return { unit with output := some answered.1 } : ExchangeM K R (ScalarUnit K R)) [] fun _ own => own = [] :=
    wpOk_silent_bind (quiet_direct function _ _) fun _ => wpOk_pure rfl
  unfold followMiss
  split
  · apply wpOk_bind
    apply ok_awaitEntry
    intro entry
    split
    · split
      · exact wpOk_pure rfl
      · exact hdirect
    · exact hdirect
  · exact wpOk_pure rfl

theorem ok_perValueExchange (input : R) :
    ok (perValueExchange (K := K) ops function input) [] fun _ own => own = [] := by
  apply wpOk_silent_bind (quiet_answered (quiet_outside _))
  intro template
  cases template with
  | none => exact wpOk_throw
  | some template =>
    apply wpOk_silent_bind (silent_liftExcept _)
    rintro ⟨uniques, rowToUnique⟩
    apply wpOk_silent_bind (silent_mapM' (quiet_lookUp ops) _)
    intro probed
    apply Settles.ok_bind (Settles.mapM' settles_claimMiss probed) (fun f hf => absurd hf List.not_mem_nil)
    intro claimed own hclaimed
    apply Settles.ok_bind (Settles.mapM' (settles_revalidateMiss ops function) claimed) hclaimed
    intro revalidated own hrevalidated
    apply Settles.ok_bind (settles_sendMisses ops function revalidated) hrevalidated
    intro sent own hsent
    obtain rfl := hsent.eq_nil
    apply wpOk_bind
    refine wpOk_mono ?_ (ok_followers (ok_followMiss ops function) sent)
    rintro answered _ rfl
    exact wpOk_silent (silent_liftExcept _) fun _ => rfl

theorem ok_runScalarExchange (cacheable perValueEnabled : Bool) (input : R) :
    ok (runScalarExchange (K := K) ops function cacheable perValueEnabled input) [] fun _ own => own = [] := by
  apply wpOk_silent_bind (quiet_answered (quiet_outside _))
  intro bound
  split
  · exact wpOk_silent_bind (quiet_direct function _ _) fun _ => wpOk_pure rfl
  · apply wpOk_silent_bind (quiet_outside _)
    intro optedIn
    cases optedIn with
    | true => exact ok_perValueExchange ops function input
    | false => exact wpOk_silent (quiet_firstExchange ops function input) fun _ => rfl

/-- Every call keeps to the specification, and owns nothing unfinished where it succeeds. -/
theorem ok_body (call : ExchangeCall R) : ok (call.body (K := K)) [] fun _ own => own = [] := by
  cases call with
  | exchange ops function shapeIneligible inputs => exact ok_runExchange ops function shapeIneligible inputs
  | buffered ops function sinkOrderDependent inputs => exact ok_runBuffered ops function sinkOrderDependent inputs
  | scalar ops function cacheable perValueEnabled input =>
    apply wpOk_bind
    refine wpOk_mono ?_ (ok_runScalarExchange ops function cacheable perValueEnabled input)
    rintro output _ rfl
    exact wpOk_pure rfl

end VgiDatafusion.Exchange
