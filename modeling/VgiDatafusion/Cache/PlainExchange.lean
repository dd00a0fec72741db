import VgiDatafusion.Cache.Exchange
import VgiDatafusion.Library.Runs

/-!
# The cached exchange equals the plain one (table_input.rs:181-476)

| here | there |
| --- | --- |
| `BatchWorker.answer` | a worker whose answer to a batch depends on that batch only |
| `BatchWorker.stands` | the answer that a key of the cache stands for |
| `exchangeProtocol` | the answers that such a worker and a cache consistent with it may give |

A unit of `run_exchange` is resolved by a hit, a refresh, the shared exchange or as a follower. Whichever
way, what becomes of it is the worker's answer to its input (`AnswersInput`); each loop is a pass that keeps
this, and after the last one every unit has an output (`runExchange_eq_plain`). What the call stores is
again what the keys stand for, so the cache stays consistent for the next one.
-/
namespace VgiDatafusion

open Program Exchange

/-- A worker whose answer to a batch depends on the batch, and what the entries of the cache stand for. -/
structure BatchWorker (K R : Type) where
  answer : R → Option R
  stands : K → List R

variable {K R : Type}

/-- The plain exchange of one input. -/
def BatchWorker.plain (W : BatchWorker K R) (input : R) : List R := (W.answer input).toList

/-- What may be answered while an exchange with these conditions is the last one opened. Only a conditional
exchange may be answered `not_modified`; equal keys of this call stand for equal answers. -/
def BatchWorker.mayAnswer (W : BatchWorker K R) (inputs : List R) (conditions : Conditions) :
    (q : Question K R) → q.Reply → Prop
  | .outside (.template _), reply => ∀ template : Template K R, reply = .ok (some template) →
      ∀ input ∈ inputs, ∀ key, template.keyForInput input = .ok key → W.stands key = W.plain input
  | .outside (.get key), reply | .outside (.getForRevalidation key), reply =>
      ∀ entry : CachedEntry R, reply = some entry → entry.batches = W.stands key
  | .outside (.send input), reply => ∀ (batch : Option R) (control : Option ExchangeControl),
      reply = .ok (batch, control) →
        (conditions ≠ (none, none) ∧ Exchange.notModified control = true) ∨ batch = W.answer input
  | _, _ => True

/-- What an entry is filled with is what its key stands for. -/
def BatchWorker.mayAsk (W : BatchWorker K R) : Question K R → Prop
  | .outside (.insert key batches _ _) => batches = W.stands key
  | _ => True

def lastOpened (conditions : Conditions) : Question K R → Conditions
  | .outside (.openExchange conditions) => conditions
  | _ => conditions

/-- What such a worker and a cache consistent with it may answer. -/
def exchangeProtocol (W : BatchWorker K R) (inputs : List R) : Protocol (Question K R) Question.Reply Conditions where
  allows := W.mayAnswer inputs
  owes _ q := W.mayAsk q
  after conditions q _ := lastOpened conditions q

/-! ## What the parts bring back -/

variable {W : BatchWorker K R} {inputs : List R} {α : Type}

theorem wpOk_question {q : Outside K R} {s : Conditions} {Q : q.Reply → Conditions → Prop}
    (howes : W.mayAsk (.outside q))
    (h : ∀ reply, W.mayAnswer inputs s (.outside q) reply → Q reply (lastOpened s (.outside q : Question K R))) :
    wpOk (exchangeProtocol W inputs).effects (outside q) s Q :=
  wpOk_ask ⟨howes, h⟩

theorem wpOk_finish {f : Nat} {outcome : FlightOutcome} {s : Conditions} {Q : PUnit → Conditions → Prop}
    (h : Q ⟨⟩ s) : wpOk (exchangeProtocol W inputs).effects (finish f outcome) s Q :=
  wpOk_ask ⟨trivial, fun _ _ => h⟩

/-- The reply to an input under these conditions. -/
def Replied (W : BatchWorker K R) (conditions : Conditions) (input : R) (reply : Option R × Option ExchangeControl) : Prop :=
  (conditions ≠ (none, none) ∧ Exchange.notModified reply.2 = true) ∨ reply.1 = W.answer input

theorem wpOk_send {input : R} {s : Conditions} : wpOk (exchangeProtocol W inputs).effects (send input) s
    fun reply s' => s' = s ∧ Replied W s input reply := by
  apply wpOk_bind
  apply wpOk_question
  · trivial
  intro reply hreply
  apply wpOk_liftExcept
  rintro ⟨batch, control⟩ hok
  exact ⟨rfl, hreply batch control hok⟩

theorem wpOk_openExchange {conditions s : Conditions} : wpOk (exchangeProtocol W inputs).effects
    (openExchange conditions) s fun _ s' => s' = conditions := by
  apply wpOk_bind
  apply wpOk_question
  · trivial
  intro reply _
  apply wpOk_liftExcept
  intro _ _
  rfl

theorem wpOk_close {s : Conditions} {Q : PUnit → Conditions → Prop} (h : Q ⟨⟩ s) :
    wpOk (exchangeProtocol W inputs).effects close s Q := by
  refine wpOk_quietly trivial (fun _ => rfl) fun reply => ?_
  apply wpOk_liftExcept
  intro _ _
  exact h

theorem wpOk_exchangeOnce {conditions : Conditions} {input : R} {s : Conditions} :
    wpOk (exchangeProtocol W inputs).effects (exchangeOnce conditions input) s
      fun reply _ => Replied W conditions input reply := by
  apply wpOk_then wpOk_openExchange
  rintro _ _ rfl
  apply wpOk_then wpOk_send
  rintro ⟨batch, control⟩ _ ⟨-, hreply⟩
  apply wpOk_bind
  apply wpOk_close
  exact wpOk_pure hreply

theorem wpOk_exchangeAnswered {missing : String} {conditions : Conditions} {input : R} {s : Conditions} :
    wpOk (exchangeProtocol W inputs).effects (exchangeAnswered missing conditions input) s
      fun reply _ => Replied W conditions input (some reply.1, reply.2) := by
  apply wpOk_then wpOk_exchangeOnce
  rintro ⟨batch, control⟩ s' hreply
  cases batch with
  | none => exact wpOk_throw
  | some batch => exact wpOk_pure hreply

theorem wpOk_storedEntry {key : K} {s : Conditions} : wpOk (exchangeProtocol W inputs).effects (storedEntry key) s
    fun entry s' => s' = s ∧ ∀ e, entry = some e → e.batches = W.stands key := by
  apply wpOk_bind
  apply wpOk_question
  · trivial
  intro reply hreply
  cases reply with
  | some entry =>
    apply wpOk_pure
    refine ⟨rfl, ?_⟩
    rintro e ⟨⟩
    exact hreply entry rfl
  | none =>
    apply wpOk_question
    · trivial
    intro reply hreply
    exact ⟨rfl, hreply⟩

theorem wpOk_awaitEntry {key : K} {w : Nat} {s : Conditions} : wpOk (exchangeProtocol W inputs).effects
    (awaitEntry key w) s fun entry s' => s' = s ∧ ∀ e, entry = some e → e.batches = W.stands key := by
  apply wpOk_bind
  apply wpOk_ask
  refine ⟨trivial, ?_⟩
  intro outcome _
  cases outcome with
  | stored => exact wpOk_storedEntry
  | aborted reason =>
    apply wpOk_pure
    refine ⟨rfl, ?_⟩
    rintro e ⟨⟩

/-! ## Units -/

/-- The key of a unit that has one stands for the answer to its input; what it holds already is that answer. -/
structure AnswersInput (W : BatchWorker K R) (input : R) (unit : ExchangeUnit K R) : Prop where
  asked : unit.input = input
  hit : ∀ batches, unit.state = .hit batches → batches = W.plain input
  producer : ∀ key f, unit.state = .producer key f → W.stands key = W.plain input
  follower : ∀ key w, unit.state = .follower key w → W.stands key = W.plain input
  output : ∀ batches, unit.output = some batches → batches = W.plain input

theorem AnswersInput.answered {input : R} {unit : ExchangeUnit K R} (h : AnswersInput W input unit) {batches : List R}
    (hbatches : batches = W.plain input) : AnswersInput W input { unit with output := some batches } where
  asked := h.asked
  hit := h.hit
  producer := h.producer
  follower := h.follower
  output := by
    rintro b ⟨⟩
    exact hbatches

/-- Nothing is left to do for it. -/
def UnitDone (unit : ExchangeUnit K R) : Prop := (∃ batches, unit.state = .hit batches) ∨ unit.output.isSome

theorem AnswersInput.batches {input : R} {unit : ExchangeUnit K R} (h : AnswersInput W input unit) (hdone : UnitDone unit) :
    unit.batches = W.plain input := by
  unfold ExchangeUnit.batches
  cases hstate : unit.state with
  | hit batches => exact h.hit batches hstate
  | producer key f | follower key w | uncached =>
    rcases hdone with ⟨batches, hhit⟩ | hsome
    · rw [hstate] at hhit
      cases hhit
    · obtain ⟨b, hb⟩ := Option.isSome_iff_exists.1 hsome
      simpa [hb] using h.output b hb

/-! ## The loops -/

theorem wpOk_templateUnless {ineligible : Bool} {kind : String} {s : Conditions} :
    wpOk (exchangeProtocol W inputs).effects (templateUnless ineligible kind) s
      fun template s' => s' = s ∧ ∀ t : Template K R, template = some t →
        ∀ input ∈ inputs, ∀ key, t.keyForInput input = .ok key → W.stands key = W.plain input := by
  unfold templateUnless
  split
  · apply wpOk_pure
    refine ⟨rfl, ?_⟩
    rintro t ⟨⟩
  · apply wpOk_bind
    apply wpOk_question
    · trivial
    intro reply hreply
    apply wpOk_liftExcept
    rintro template rfl
    refine ⟨rfl, ?_⟩
    rintro t rfl
    exact hreply t rfl

theorem wpOk_claimUnit {template : Option (Template K R)} (htemplate : ∀ t : Template K R, template = some t →
      ∀ input ∈ inputs, ∀ key, t.keyForInput input = .ok key → W.stands key = W.plain input)
    {input : R} (hmem : input ∈ inputs) {s : Conditions} :
    wpOk (exchangeProtocol W inputs).effects (claimUnit template input) s
      fun unit _ => AnswersInput W input unit := by
  cases template with
  | none => exact wpOk_pure ⟨rfl, by rintro _ ⟨⟩, by rintro _ _ ⟨⟩, by rintro _ _ ⟨⟩, by rintro _ ⟨⟩⟩
  | some t =>
    apply wpOk_bind
    apply wpOk_liftExcept
    intro key hkey
    have hstands : W.stands key = W.plain input := htemplate t rfl input hmem key hkey
    apply wpOk_bind
    apply wpOk_question
    · trivial
    intro reply hreply
    cases reply with
    | some entry =>
      refine wpOk_pure ⟨rfl, ?_, by rintro _ _ ⟨⟩, by rintro _ _ ⟨⟩, by rintro _ ⟨⟩⟩
      rintro batches ⟨⟩
      exact (hreply entry rfl).trans hstands
    | none =>
      apply wpOk_bind
      apply wpOk_ask
      refine ⟨trivial, ?_⟩
      intro claim _
      cases claim with
      | producer f =>
        refine wpOk_pure ⟨rfl, by rintro _ ⟨⟩, ?_, by rintro _ _ ⟨⟩, by rintro _ ⟨⟩⟩
        rintro key' f' ⟨⟩
        exact hstands
      | follower w =>
        refine wpOk_pure ⟨rfl, by rintro _ ⟨⟩, by rintro _ _ ⟨⟩, ?_, by rintro _ ⟨⟩⟩
        rintro key' w' ⟨⟩
        exact hstands

/-- A stale entry is one of its producer's key. -/
structure StaleOf (W : BatchWorker K R) (input : R) (found : ExchangeUnit K R × Option (CachedEntry R)) : Prop where
  resolved : AnswersInput W input found.1
  consistent : ∀ stale, found.2 = some stale → stale.batches = W.plain input

theorem wpOk_findStale {input : R} {unit : ExchangeUnit K R} (h : AnswersInput W input unit) {s : Conditions} :
    wpOk (exchangeProtocol W inputs).effects (findStale unit) s fun found _ => StaleOf W input found := by
  unfold findStale
  cases hstate : unit.state with
  | producer key f =>
    apply wpOk_bind
    apply wpOk_question
    · trivial
    intro reply hreply
    refine wpOk_pure ⟨h, ?_⟩
    rintro stale rfl
    exact (hreply stale rfl).trans (h.producer key f hstate)
  | hit batches | follower key w | uncached => exact wpOk_pure ⟨h, by rintro stale ⟨⟩⟩

variable {ops : ExchangeOps R} {function : String}

theorem wpOk_acceptRevalidation {input : R} {unit : ExchangeUnit K R} (h : AnswersInput W input unit) {key : K} {f : Nat}
    (hkey : W.stands key = W.plain input) {stale : CachedEntry R} (hstale : stale.batches = W.plain input) {answer : R}
    {control : Option ExchangeControl} (hanswer : Exchange.notModified control = true ∨ W.answer input = some answer)
    {s : Conditions} : wpOk (exchangeProtocol W inputs).effects
      (acceptRevalidation ops function unit key f stale answer control) s fun unit' _ => AnswersInput W input unit' := by
  unfold acceptRevalidation
  by_cases hcontrol : Exchange.notModified control = true
  · rw [if_pos hcontrol]
    split
    · exact wpOk_throw
    · refine wpOk_quietly trivial (fun _ => rfl) fun ttl => ?_
      cases ttl with
      | ok ttl =>
        refine wpOk_quietly trivial (fun _ => rfl) fun _ => ?_
        refine wpOk_quietly trivial (fun _ => rfl) fun _ => ?_
        exact wpOk_pure (h.answered hstale)
      | error reason =>
        refine wpOk_quietly trivial (fun _ => rfl) fun _ => ?_
        refine wpOk_quietly trivial (fun _ => rfl) fun _ => ?_
        exact wpOk_throw
  · rw [if_neg hcontrol]
    have hfresh : [answer] = W.plain input := by
      simp [BatchWorker.plain, hanswer.resolve_left hcontrol]
    refine wpOk_quietly trivial (fun _ => rfl) fun ttl => ?_
    cases ttl with
    | ok ttl =>
      refine wpOk_quietly (hfresh.trans hkey.symm) (fun _ => rfl) fun _ => ?_
      refine wpOk_quietly trivial (fun _ => rfl) fun _ => ?_
      exact wpOk_pure (h.answered hfresh)
    | error reason =>
      refine wpOk_quietly trivial (fun _ => rfl) fun _ => ?_
      refine wpOk_quietly trivial (fun _ => rfl) fun _ => ?_
      exact wpOk_pure (h.answered hfresh)

theorem wpOk_revalidateUnit {input : R} {unit : ExchangeUnit K R × Option (CachedEntry R)} (h : StaleOf W input unit)
    {s : Conditions} : wpOk (exchangeProtocol W inputs).effects (revalidateUnit ops function unit) s
      fun unit' _ => AnswersInput W input unit' := by
  obtain ⟨⟨asked, state, output⟩, found⟩ := unit
  cases found with
  | none => exact wpOk_pure h.resolved
  | some stale =>
    cases state with
    | hit batches | follower key w | uncached => exact wpOk_pure h.resolved
    | producer key f =>
      apply wpOk_then (wpOk_captured wpOk_exchangeAnswered)
      intro result s' hresult
      cases result with
      | ok reply =>
        apply wpOk_acceptRevalidation h.resolved (h.resolved.producer key f rfl) (h.consistent stale rfl)
        rcases hresult reply rfl with ⟨-, hnot⟩ | hfresh
        · exact Or.inl hnot
        · rw [← h.resolved.asked]
          exact Or.inr hfresh.symm
      | error error =>
        refine wpOk_quietly trivial (fun _ => rfl) fun serve => ?_
        cases serve with
        | true =>
          refine wpOk_quietly trivial (fun _ => rfl) fun _ => ?_
          exact wpOk_pure (h.resolved.answered (h.consistent stale rfl))
        | false => exact wpOk_throw

/-- No unit is left for the shared exchange. -/
structure UnitSent (W : BatchWorker K R) (input : R) (unit : ExchangeUnit K R) : Prop extends AnswersInput W input unit where
  direct : unit.isDirect = false

theorem wpOk_settleUnit {input : R} {unit : ExchangeUnit K R} (h : AnswersInput W input unit)
    {control : Option ExchangeControl} {s : Conditions} : wpOk (exchangeProtocol W inputs).effects
      (settleUnit ops unit (W.answer input) control) s fun _ s' => s' = s := by
  obtain ⟨asked, state, output⟩ := unit
  cases hanswer : W.answer input with
  | none =>
    cases state with
    | producer key f =>
      apply wpOk_finish
      rfl
    | hit batches | follower key w | uncached => exact wpOk_pure rfl
  | some answer =>
    have hfresh : [answer] = W.plain input := by simp [BatchWorker.plain, hanswer]
    cases state with
    | producer key f =>
      refine wpOk_quietly trivial (fun _ => rfl) fun ttl => ?_
      cases ttl with
      | ok ttl =>
        refine wpOk_quietly (hfresh.trans (h.producer key f rfl).symm) (fun _ => rfl) fun _ => ?_
        apply wpOk_finish
        rfl
      | error reason =>
        apply wpOk_finish
        rfl
    | hit batches | follower key w | uncached => exact wpOk_pure rfl

/-- The shared exchange is opened without conditions, so its answers are the worker's. -/
theorem wpOk_sendUnit {input : R} {unit : ExchangeUnit K R} (h : AnswersInput W input unit) {s : Conditions}
    (hs : s = (none, none)) : wpOk (exchangeProtocol W inputs).effects (sendUnit ops unit) s
      fun unit' s' => s' = (none, none) ∧ UnitSent W input unit' := by
  unfold sendUnit
  by_cases hdirect : unit.isDirect = true
  · rw [if_pos hdirect]
    apply wpOk_then wpOk_send
    rintro ⟨answer, control⟩ s' ⟨rfl, hreply⟩
    have hanswer : answer = W.answer input := by
      rcases hreply with ⟨hne, -⟩ | hfresh
      · exact absurd hs hne
      · rw [← h.asked]
        exact hfresh
    subst hanswer
    apply wpOk_then (wpOk_settleUnit h)
    rintro _ _ rfl
    exact wpOk_pure ⟨hs, h.answered rfl, by simp [ExchangeUnit.isDirect]⟩
  · rw [if_neg hdirect]
    exact wpOk_pure ⟨hs, h, by simpa using hdirect⟩

theorem wpOk_sendDirect {units : List (ExchangeUnit K R)} (h : List.Forall₂ (AnswersInput W) inputs units)
    {s : Conditions} : wpOk (exchangeProtocol W inputs).effects (sendDirect ops units) s
      fun units' _ => List.Forall₂ (UnitSent W) inputs units' := by
  unfold sendDirect
  by_cases hany : units.any (·.isDirect) = true
  · rw [if_pos hany]
    apply wpOk_then wpOk_openExchange
    rintro _ _ rfl
    apply wpOk_bind
    refine wpOk_mono ?_ (wpOk_mapM'_forall₂ (I := fun s => s = (none, none)) h
      (fun input _ unit hunit s hs => wpOk_sendUnit hunit hs) rfl)
    rintro units' s' ⟨-, hsent⟩
    apply wpOk_bind
    apply wpOk_close
    exact wpOk_pure hsent
  · rw [if_neg hany]
    apply wpOk_pure
    simp only [List.any_eq_true, not_exists, not_and, Bool.not_eq_true] at hany
    apply List.Forall₂.flip
    apply ListFacts.forall₂_of_mem h.flip
    intro unit hunit input hresolved
    exact ⟨hresolved, hany unit hunit⟩

theorem wpOk_followUnit {input : R} {unit : ExchangeUnit K R} (h : UnitSent W input unit) {s : Conditions} :
    wpOk (exchangeProtocol W inputs).effects (followUnit unit) s
      fun unit' _ => unit'.batches = W.plain input := by
  obtain ⟨asked, state, output⟩ := unit
  have hresolved := h.toAnswersInput
  cases state with
  | hit batches => exact wpOk_pure (hresolved.batches (Or.inl ⟨batches, rfl⟩))
  | producer key f | uncached =>
    have hsome : output.isSome := by
      have hdirect := h.direct
      cases output with
      | some batches => rfl
      | none => simp [ExchangeUnit.isDirect] at hdirect
    exact wpOk_pure (hresolved.batches (Or.inr hsome))
  | follower key w =>
    apply wpOk_then wpOk_awaitEntry
    rintro entry s' ⟨-, hentry⟩
    cases entry with
    | some entry =>
      have hstored : entry.batches = W.plain input := (hentry entry rfl).trans (hresolved.follower key w rfl)
      exact wpOk_pure ((hresolved.answered hstored).batches (Or.inr rfl))
    | none =>
      apply wpOk_then wpOk_exchangeOnce
      rintro ⟨answer, control⟩ s'' hreply
      have hanswer : answer.toList = W.plain input := by
        rcases hreply with ⟨hne, -⟩ | hfresh
        · exact absurd rfl hne
        · rw [BatchWorker.plain, ← hresolved.asked]
          exact congrArg Option.toList hfresh
      exact wpOk_pure ((hresolved.answered hanswer).batches (Or.inr rfl))

/-! ## The call -/

theorem flatMap_of_forall₂ {units : List (ExchangeUnit K R)}
    (h : List.Forall₂ (fun input unit => unit.batches = W.plain input) inputs units) :
    units.flatMap (·.batches) = inputs.flatMap W.plain := by
  induction h with
  | nil => rfl
  | cons hunit _ ih => rw [List.flatMap_cons, List.flatMap_cons, hunit, ih]

theorem wpOk_runExchange (shapeIneligible : Bool) {s : Conditions} : wpOk (exchangeProtocol W inputs).effects
    (runExchange ops function shapeIneligible inputs : ExchangeM K R (List R)) s
      fun out _ => out = inputs.flatMap W.plain := by
  apply wpOk_bind
  apply wpOk_bind
  apply wpOk_question
  · trivial
  intro bound _
  apply wpOk_liftExcept
  intro bound _
  apply wpOk_then wpOk_templateUnless
  rintro template s' ⟨-, htemplate⟩
  apply wpOk_then (Q := fun claimed _ => List.Forall₂ (AnswersInput W) inputs claimed)
  · apply wpOk_pass (R := Eq) (List.forall₂_refl inputs)
    rintro input hmem _ rfl s
    exact wpOk_claimUnit htemplate hmem
  intro claimed s' hclaimed
  apply wpOk_then (wpOk_pass hclaimed fun _ _ _ hunit _ => wpOk_findStale hunit)
  intro revalidations s' hfound
  apply wpOk_then (wpOk_pass hfound fun _ _ _ hunit _ => wpOk_revalidateUnit hunit)
  intro revalidated s' hrevalidated
  apply wpOk_then (wpOk_sendDirect hrevalidated)
  intro sent s' hsent
  apply wpOk_then (wpOk_pass hsent fun _ _ _ hunit _ => wpOk_followUnit hunit)
  intro units s' hunits
  exact wpOk_pure (flatMap_of_forall₂ hunits)

/-- **The cached exchange equals the plain one**, in every run: it returns the worker's answers in the order
of the inputs, and fills entries with what their keys stand for. -/
theorem runExchange_eq_plain {shapeIneligible : Bool} {trace : List (Event (Question K R) Question.Reply)}
    {out : List R} (hrun : Runs (runExchange ops function shapeIneligible inputs : ExchangeM K R (List R)).run trace
      (.ok out)) (hallows : (exchangeProtocol W inputs).Allows (none, none) trace) :
    out = inputs.flatMap W.plain ∧ (exchangeProtocol W inputs).Meets (none, none) trace := by
  obtain ⟨hmeets, hout⟩ := wp_runs (wpOk_runExchange shapeIneligible) hrun hallows
  exact ⟨hout out rfl, hmeets⟩

/-! ### Six inputs, each resolved in its own way -/

def tenfold : BatchWorker Nat Nat where
  answer input := some (10 * input)
  stands key := [10 * key]

def countOps : ExchangeOps Nat where
  rows batch := batch
  columns _ := 1
  memorySize batch := batch
  slice batch _ _ := batch
  concatInputs _ := .error "unused"
  concatOutputs _ := .error "unused"
  take batch _ := .ok batch
  gather batch _ := .ok batch
  hasOutputSchema _ := true

def ownKey : Template Nat Nat where
  inputDigest input := .ok [UInt8.ofNat input]
  keyForDigest digest := (digest.headD 0).toNat
  keyForUnorderedInputs _ := .error "unused"

/-- 1 is a hit, 2 is stale, 3 is cold, 4 and 5 are claimed elsewhere and 5 is aborted. -/
def mixedReply (conditions : Conditions) : (q : Question Nat Nat) → q.Reply
  | .acquire key => if key = 4 ∨ key = 5 then .follower key else .producer key
  | .finish .. => ⟨⟩
  | .wait w => if w = 4 then .stored else .aborted "producer dropped"
  | .outside .bind => .ok { environmentIneligible := false, secretDependent := false }
  | .outside (.template _) => .ok (some ownKey)
  | .outside (.get key) => if key = 1 ∨ key = 4 then some { batches := [10 * key], bytes := 8 } else none
  | .outside (.getForRevalidation key) =>
    if key = 2 then some { batches := [10 * key], bytes := 8, etag := some "v1" } else none
  | .outside (.mayServeOnError _) => false
  | .outside (.eligibility ..) => .ok 60
  | .outside (.insert ..) | .outside (.remove _) | .outside (.slide ..) | .outside .notePerValueOptIn => ⟨⟩
  | .outside (.openExchange _) | .outside .close => .ok ⟨⟩
  | .outside (.send input) => .ok (if conditions = (none, none) then (some (10 * input), none)
      else (some 0, some { policy := "", notModified := true }))
  | .outside .bufferingBegin | .outside (.bufferingProcess ..) => .error "unused"
  | .outside (.bufferingCombine ..) => .error "unused"
  | .outside (.bufferingFinalize ..) => .error "unused"
  | .outside .commitAllowed | .outside .hasPerValueOptIn => false

def mixedInputs : List Nat := [1, 2, 3, 4, 5, 3]

theorem mixedReply_allowed (s : Conditions) (q : Question Nat Nat) :
    (exchangeProtocol tenfold mixedInputs).allows s q (mixedReply s q) := by
  cases q with
  | acquire key | finish f outcome | wait w => trivial
  | outside q =>
    cases q with
    | template kind =>
      rintro template ⟨⟩ input hmem key hkey
      have hown : ∀ input ∈ mixedInputs, ownKey.keyForInput input = .ok input := by decide
      rw [hown input hmem] at hkey
      cases hkey
      rfl
    | get key =>
      intro entry hentry
      simp only [mixedReply] at hentry
      split at hentry
      · cases hentry
        rfl
      · cases hentry
    | getForRevalidation key =>
      intro entry hentry
      simp only [mixedReply] at hentry
      split at hentry
      · cases hentry
        rfl
      · cases hentry
    | send input =>
      intro batch control hreply
      simp only [mixedReply, Except.ok.injEq] at hreply
      split at hreply
      · cases hreply
        exact Or.inr rfl
      · rename_i hconditions
        cases hreply
        exact Or.inl ⟨hconditions, rfl⟩
    | _ => trivial

theorem runExchange_eq_plain_mixed : ∃ trace, Runs (runExchange countOps "f" false mixedInputs :
    ExchangeM Nat Nat (List Nat)).run trace (.ok [10, 20, 30, 40, 50, 30]) ∧
      [10, 20, 30, 40, 50, 30] = mixedInputs.flatMap tenfold.plain := by
  have hrun := runs_execute (exchangeProtocol tenfold mixedInputs).after mixedReply
    (runExchange countOps "f" false mixedInputs : ExchangeM Nat Nat (List Nat)).run (none, none)
  have hout : (Program.execute (exchangeProtocol tenfold mixedInputs).after mixedReply
      (runExchange countOps "f" false mixedInputs : ExchangeM Nat Nat (List Nat)).run (none, none)).2 =
        .ok [10, 20, 30, 40, 50, 30] := by decide +kernel
  rw [hout] at hrun
  exact ⟨_, hrun, (runExchange_eq_plain hrun (allows_execute mixedReply_allowed _ _)).1⟩

end VgiDatafusion
