import VgiDatafusion.Cache.ScalarCall
import VgiDatafusion.Library.Runs

/-!
# Which answer a scalar row gets (scalar.rs:798-822, 1087-1461)

| here | there |
| --- | --- |
| `ScalarDealings` | what went between the call and the worker: the exchange under way, the answers so far |
| `ScalarReply.InFull` | an answer of one row for each row asked for, or a validation of a stale entry |
| `ScalarHistory.given` | the values the worker gave for a row, in this call or for an entry of the cache |
| `scalarProtocol` | the answers that may come, of a worker free to answer anything |

Every answer is checked before its rows are assigned, but for one: what a follower gets when it asks for itself
is concatenated as it is. If those answers are in full as well, each row gets a value given for it
(`scalar_assigned_iff`). The second condition there is about indices: they are cut to 32 bits.
-/
namespace VgiDatafusion

open Program Exchange

/-! ## What went between call and worker -/

/-- One answer of the worker, with the batch it answers and the conditions it was asked under. -/
structure ScalarReply (R : Type) where
  conditions : Conditions
  /-- Asked after a wait, so by a follower for itself. -/
  fallback : Bool
  input : R
  answer : R
  control : Option ExchangeControl

/-- An answer counts once its exchange is closed. -/
structure ScalarDealings (K R : Type) where
  conditions : Conditions := (none, none)
  waited : Bool := false
  optedIn : Bool := false
  /-- Of the per-value path. -/
  template : Option (Template K R) := none
  pending : Option (ScalarReply R) := none
  replies : List (ScalarReply R) := []

/-- What the worker knows of each row, and what the entries of the cache stand for. -/
structure ScalarHistory (K V : Type) where
  /-- The row that a key of the cache stands for. -/
  stands : K → InputRow V
  given : InputRow V → V → Prop
  /-- The conditions of the stale entries. -/
  refresh : Conditions → Prop

variable {K R C V : Type}

/-- The dealings after one more answer; opening an exchange sets its conditions. -/
def ScalarDealings.after (s : ScalarDealings K R) : (q : Question K R) → q.Reply → ScalarDealings K R
  | .wait _, _ => { s with waited := true }
  | .outside .hasPerValueOptIn, optedIn => { s with optedIn }
  | .outside (.template _), .ok template => if s.optedIn then { s with template } else s
  | .outside (.openExchange conditions), _ => { s with conditions }
  | .outside (.send input), .ok (answer, control) =>
    { s with pending := answer.map fun answer => ⟨s.conditions, s.waited, input, answer, control⟩ }
  | .outside .close, .ok _ => { s with pending := none, replies := s.pending.toList ++ s.replies }
  | _, _ => s

/-- Only the refresh of a stale entry may be answered without rows. -/
def ScalarReply.InFull (ops : ScalarOps R C) (H : ScalarHistory K V) (r : ScalarReply R) : Prop :=
  (r.fallback = false ∧ H.refresh r.conditions ∧ Exchange.notModified r.control = true) ∨
    ops.rows r.answer = ops.rows r.input

section
variable {ops : ScalarOps R C} (A : ScalarReading ops V) (H : ScalarHistory K V)

/-- One value given for the row. -/
def AnswersRow (x : InputRow V) (b : R) : Prop := ops.columns b ≠ 0 → ∃ v, A.cells (ops.column b) = [v] ∧ H.given x v

/-- An entry of one batch holds a value given for the row of its key. -/
def HoldsGiven (key : K) (batches : List R) : Prop := ∀ b, batches = [b] → AnswersRow A H (H.stands key) b

/-- Row by row. -/
def Gives (r : ScalarReply R) : Prop :=
  ops.rows r.answer = ops.rows r.input → ops.columns r.answer ≠ 0 →
    List.Forall₂ H.given (A.inputRows r.input) (A.cells (ops.column r.answer))

/-- `trust` says what else is known of the worker. Equal keys of the rows asked for stand for equal rows. -/
def scalarAnswers (trust : ScalarReply R → Prop) (asked : List (InputRow V)) (s : ScalarDealings K R) :
    (q : Question K R) → q.Reply → Prop
  | .outside (.template _), reply => ∀ template : Template K R, reply = .ok (some template) →
      ∀ b, ∀ x ∈ asked, ∀ digest, A.inputRows b = [x] → template.inputDigest b = .ok digest →
        H.stands (template.keyForDigest digest) = x
  | .outside (.get key), reply => ∀ entry : CachedEntry R, reply = some entry → HoldsGiven A H key entry.batches
  | .outside (.getForRevalidation key), reply => ∀ entry : CachedEntry R, reply = some entry →
      HoldsGiven A H key entry.batches ∧ H.refresh (entry.etag, entry.lastModified)
  | .outside .close, reply => reply = .ok ⟨⟩ → ∀ r, s.pending = some r → Gives A H r ∧ trust r
  | _, _ => True

/-- What is put into the cache was given for the row of its key. -/
def scalarStores : Question K R → Prop
  | .outside (.insert key batches _ _) => HoldsGiven A H key batches
  | _ => True

/-- The answers that may come (`scalar.rs:798-822`, `1087-1461`). -/
def scalarProtocol (trust : ScalarReply R → Prop) (asked : List (InputRow V)) :
    Protocol (Question K R) Question.Reply (ScalarDealings K R) where
  allows := scalarAnswers A H trust asked
  owes _ q := scalarStores A H q
  after := ScalarDealings.after

end

namespace Scalar

variable {ops : ScalarOps R C} {A : ScalarReading ops V} {H : ScalarHistory K V} {trust : ScalarReply R → Prop}
  {asked : List (InputRow V)} {α : Type} {s : ScalarDealings K R}

/-! ## Exchanges -/

theorem wpBoth_question {q : Outside K R} {Q : q.Reply → ScalarDealings K R → Prop}
    {F : String → ScalarDealings K R → Prop} (howes : scalarStores A H (.outside q))
    (h : ∀ reply, scalarAnswers A H trust asked s (.outside q) reply → Q reply (s.after (.outside q) reply)) :
    wpBoth (scalarProtocol A H trust asked).effects (outside q) s Q F :=
  wpBoth_ask ⟨howes, h⟩

/-- A worker heard: the answer is one more reply. -/
def Heard (A : ScalarReading ops V) (H : ScalarHistory K V) (trust : ScalarReply R → Prop) (conditions : Conditions)
    (input : R) (s : ScalarDealings K R) (answer : Option R) (control : Option ExchangeControl)
    (s' : ScalarDealings K R) : Prop :=
  let reply := answer.map fun answer => ⟨conditions, s.waited, input, answer, control⟩
  s' = { s with conditions, pending := none, replies := reply.toList ++ s.replies } ∧
    ∀ r, reply = some r → Gives A H r ∧ trust r

/-- An exchange that failed leaves no reply. -/
def Unheard (s s' : ScalarDealings K R) : Prop :=
  ∃ conditions pending, s' = { s with conditions, pending }

theorem wpBoth_openExchange {conditions : Conditions} :
    wpBoth (scalarProtocol A H trust asked).effects (openExchange conditions) s
      (fun _ s' => s' = { s with conditions }) (fun _ s' => Unheard s s') := by
  apply wpBoth_bind
  apply wpBoth_question
  · trivial
  intro opened _
  apply wpBoth_liftExcept
  · intro _ _
    rfl
  · intro error _
    exact ⟨conditions, s.pending, rfl⟩

theorem wpBoth_send {input : R} : wpBoth (scalarProtocol A H trust asked).effects (send input) s
    (fun answer s' => s' = { s with
      pending := answer.1.map fun batch => ⟨s.conditions, s.waited, input, batch, answer.2⟩ })
    (fun _ s' => Unheard s s') := by
  apply wpBoth_bind
  apply wpBoth_question
  · trivial
  intro sent _
  apply wpBoth_liftExcept
  · rintro ⟨answer, control⟩ rfl
    rfl
  · rintro error rfl
    exact ⟨s.conditions, s.pending, rfl⟩

theorem wpBoth_close : wpBoth (scalarProtocol A H trust asked).effects close s
    (fun _ s' => s' = { s with pending := none, replies := s.pending.toList ++ s.replies } ∧
      ∀ r, s.pending = some r → Gives A H r ∧ trust r)
    (fun _ s' => Unheard s s') := by
  apply wpBoth_bind
  apply wpBoth_question
  · trivial
  intro closed hclosed
  apply wpBoth_liftExcept
  · rintro _ rfl
    exact ⟨rfl, hclosed rfl⟩
  · rintro error rfl
    exact ⟨s.conditions, s.pending, rfl⟩

theorem Unheard.trans {s' s'' : ScalarDealings K R} {conditions : Conditions} {pending : Option (ScalarReply R)}
    (hs' : s' = { s with conditions, pending }) (h : Unheard s' s'') : Unheard s s'' := by
  obtain ⟨conditions', pending', rfl⟩ := h
  subst hs'
  exact ⟨conditions', pending', rfl⟩

theorem wpBoth_exchangeOnce {conditions : Conditions} {input : R} :
    wpBoth (scalarProtocol A H trust asked).effects (exchangeOnce conditions input) s
      (fun answer s' => Heard A H trust conditions input s answer.1 answer.2 s') (fun _ s' => Unheard s s') := by
  apply wpBoth_then wpBoth_openExchange (fun _ _ h => h)
  rintro _ _ rfl
  apply wpBoth_then wpBoth_send
  · intro error s' h
    exact h.trans rfl
  rintro ⟨answer, control⟩ _ rfl
  apply wpBoth_then wpBoth_close
  · intro error s' h
    exact h.trans rfl
  rintro _ s' ⟨rfl, hreply⟩
  exact wpBoth_pure ⟨rfl, hreply⟩

theorem wpBoth_exchangeAnswered {missing : String} {conditions : Conditions} {input : R} :
    wpBoth (scalarProtocol A H trust asked).effects (exchangeAnswered missing conditions input) s
      (fun answer s' => Heard A H trust conditions input s (some answer.1) answer.2 s') (fun _ s' => Unheard s s') := by
  apply wpBoth_then wpBoth_exchangeOnce (fun _ _ h => h)
  rintro ⟨answer, control⟩ s' hheard
  cases answer with
  | some answer => exact wpBoth_pure hheard
  | none =>
    apply wpBoth_throw
    exact ⟨conditions, none, hheard.1⟩

theorem wpOk_question {q : Outside K R} {Q : q.Reply → ScalarDealings K R → Prop} (howes : scalarStores A H (.outside q))
    (h : ∀ reply, scalarAnswers A H trust asked s (.outside q) reply → Q reply (s.after (.outside q) reply)) :
    wpOk (scalarProtocol A H trust asked).effects (outside q) s Q :=
  wpOk_ask ⟨howes, h⟩

/-- No entry is put under the key, and the flight ends. -/
theorem wpOk_revoked {key : K} {f : Nat} {reason : String} {p : ExchangeM K R α} {Q : α → ScalarDealings K R → Prop}
    (h : wpOk (scalarProtocol A H trust asked).effects p s Q) :
    wpOk (scalarProtocol A H trust asked).effects
      (outside (.remove key) >>= fun _ => abort f reason >>= fun _ => p) s Q := by
  refine wpOk_quietly trivial (fun _ => rfl) fun _ => ?_
  exact wpOk_quietly trivial (fun _ => rfl) fun _ => h

theorem wpOk_get {key : K} : wpOk (scalarProtocol A H trust asked).effects (outside (.get key)) s
    fun entry s' => s' = s ∧ ∀ e, entry = some e → HoldsGiven A H key e.batches := by
  apply wpOk_question
  · trivial
  intro reply hreply
  exact ⟨rfl, hreply⟩

theorem wpOk_getForRevalidation {key : K} : wpOk (scalarProtocol A H trust asked).effects
    (outside (.getForRevalidation key)) s fun entry s' => s' = s ∧ ∀ e, entry = some e →
      HoldsGiven A H key e.batches ∧ H.refresh (e.etag, e.lastModified) := by
  apply wpOk_question
  · trivial
  intro reply hreply
  exact ⟨rfl, hreply⟩

theorem wpOk_awaitEntry {key : K} {w : Nat} : wpOk (scalarProtocol A H trust asked).effects (awaitEntry key w) s
    fun entry s' => s' = { s with waited := true } ∧ ∀ e, entry = some e → HoldsGiven A H key e.batches := by
  apply wpOk_bind
  apply wpOk_ask
  refine ⟨trivial, ?_⟩
  intro outcome _
  cases outcome with
  | stored =>
    apply wpOk_then wpOk_get
    rintro entry _ ⟨rfl, hentry⟩
    cases entry with
    | some entry => exact wpOk_pure ⟨rfl, hentry⟩
    | none =>
      refine wpOk_mono ?_ wpOk_getForRevalidation
      rintro entry _ ⟨rfl, hentry⟩
      exact ⟨rfl, fun e he => (hentry e he).1⟩
  | aborted reason => exact wpOk_pure ⟨rfl, by rintro e ⟨⟩⟩

/-! ## Distinct rows -/

/-- A distinct row, its key, and its output if there is one yet. -/
structure RowFor (A : ScalarReading ops V) (H : ScalarHistory K V) (x : InputRow V) (row : ScalarRow K R) : Prop where
  asked : A.inputRows row.input = [x]
  key : H.stands row.key = x
  output : ∀ b, row.output = some b → AnswersRow A H x b

theorem RowFor.answered {x : InputRow V} {row : ScalarRow K R} (h : RowFor A H x row) {b : R}
    (hb : AnswersRow A H x b) : RowFor A H x { row with output := some b } where
  asked := h.asked
  key := h.key
  output := by
    rintro _ ⟨⟩
    exact hb

/-- A unit whose row means `x`, and whose output, if any, is a value given for it. -/
structure UnitFor (A : ScalarReading ops V) (H : ScalarHistory K V) (x : InputRow V) (unit : ScalarUnit K R) : Prop
    extends RowFor A H x unit.toScalarRow where
  stale : ∀ f stale, unit.claim = some (.producer f (some stale)) →
    HoldsGiven A H unit.key stale.batches ∧ H.refresh (stale.etag, stale.lastModified)

theorem UnitFor.answered {x : InputRow V} {unit : ScalarUnit K R} (h : UnitFor A H x unit) {b : R}
    (hb : AnswersRow A H x b) : UnitFor A H x { unit with output := some b } where
  toRowFor := h.toRowFor.answered hb
  stale := h.stale

theorem wpOk_lookUp {x : InputRow V} {row : ScalarRow K R} (h : RowFor A H x row) :
    wpOk (scalarProtocol A H trust asked).effects (lookUp ops.toExchangeOps row) s
      fun row' s' => s' = s ∧ RowFor A H x row' := by
  apply wpOk_then wpOk_get
  rintro entry _ ⟨rfl, hentry⟩
  split
  next batch bytes etag lastModified =>
    split
    · have hbatch := hentry _ rfl batch rfl
      rw [h.key] at hbatch
      exact wpOk_pure ⟨rfl, h.answered hbatch⟩
    · exact wpOk_pure ⟨rfl, h⟩
  next => exact wpOk_pure ⟨rfl, h⟩

theorem wpOk_claimMiss {x : InputRow V} {row : ScalarRow K R} (h : RowFor A H x row) :
    wpOk (scalarProtocol A H trust asked).effects (claimMiss row) s fun unit s' => s' = s ∧ UnitFor A H x unit := by
  unfold claimMiss
  split
  · exact wpOk_pure ⟨rfl, h, by rintro _ _ ⟨⟩⟩
  · apply wpOk_bind
    apply wpOk_ask
    refine ⟨trivial, ?_⟩
    intro claim _
    cases claim with
    | producer f =>
      apply wpOk_then wpOk_getForRevalidation
      rintro stale _ ⟨rfl, hstale⟩
      refine wpOk_pure ⟨rfl, h, ?_⟩
      rintro _ entry ⟨⟩
      exact hstale entry rfl
    | follower w => exact wpOk_pure ⟨rfl, h, by rintro _ _ ⟨⟩⟩

/-! ## Refreshes -/

theorem wpOk_materializeOutputRow {x : InputRow V} {answer : R} {row : Nat} {v : V}
    (hcolumns : ops.columns answer ≠ 0) (hrow : (A.cells (ops.column answer))[row]? = some v) (hv : H.given x v) :
    wpOk (scalarProtocol A H trust asked).effects
      (liftExcept (materializeOutputRow ops.toExchangeOps answer row) : ExchangeM K R R) s
      fun output s' => s' = s ∧ AnswersRow A H x output := by
  apply wpOk_liftExcept
  intro output houtput
  refine ⟨rfl, fun _ => ⟨v, ?_, hv⟩⟩
  unfold materializeOutputRow at houtput
  split at houtput
  · have htaken := A.take hcolumns houtput
    obtain ⟨w, ws, hw, hrest, heq⟩ := List.forall₂_cons_left_iff.1 htaken
    rw [heq, List.forall₂_nil_left_iff.1 hrest, Option.some.inj (hw.symm.trans hrow)]
  · cases houtput

/-- Whether it is validated or answered anew, the row has a value given for it. -/
theorem wpOk_acceptMiss {x : InputRow V} {unit : ScalarUnit K R} (h : UnitFor A H x unit) {f : Nat}
    {stale : CachedEntry R} (hstale : HoldsGiven A H unit.key stale.batches) {conditions : Conditions}
    (hrefresh : H.refresh conditions) {answer : R} {control : Option ExchangeControl}
    (hgives : Gives A H ⟨conditions, false, unit.input, answer, control⟩) {function : String} :
    wpOk (scalarProtocol A H trust asked).effects (acceptMiss ops.toExchangeOps function unit f stale answer control) s
      fun unit' s' => s' = s ∧ (⟨conditions, false, unit.input, answer, control⟩ : ScalarReply R).InFull ops H ∧
        UnitFor A H x unit' := by
  unfold acceptMiss
  by_cases hcontrol : Exchange.notModified control = true
  · have hfull : (⟨conditions, false, unit.input, answer, control⟩ : ScalarReply R).InFull ops H :=
      Or.inl ⟨rfl, hrefresh, hcontrol⟩
    rw [if_pos hcontrol]
    split
    · exact wpOk_throw
    · split
      next cached hbatches =>
        have hcached := hstale cached hbatches
        rw [h.key] at hcached
        refine wpOk_quietly trivial (fun _ => rfl) fun ttl => ?_
        cases ttl with
        | ok ttl =>
          refine wpOk_quietly trivial (fun _ => rfl) fun _ => ?_
          refine wpOk_quietly trivial (fun _ => rfl) fun _ => ?_
          exact wpOk_pure ⟨rfl, hfull, h.answered hcached⟩
        | error reason =>
          apply wpOk_revoked
          exact wpOk_throw
      next =>
        refine wpOk_quietly trivial (fun _ => rfl) fun _ => ?_
        exact wpOk_pure ⟨rfl, hfull, h⟩
  · rw [if_neg hcontrol]
    split
    next hshape =>
      simp only [Bool.and_eq_true, decide_eq_true_eq] at hshape
      have hone : ops.rows unit.input = 1 := by rw [A.rows_eq, h.asked, List.length_singleton]
      have hcolumns : ops.columns answer ≠ 0 := by omega
      have hrows : ops.rows answer = ops.rows unit.input := hshape.1.trans hone.symm
      obtain ⟨v, hv, hgiven⟩ : ∃ v, (A.cells (ops.column answer))[0]? = some v ∧ H.given x v := by
        have hall := hgives hrows hcolumns
        simp only [h.asked, List.forall₂_cons_left_iff] at hall
        obtain ⟨v, _, hgiven, -, heq⟩ := hall
        exact ⟨v, by rw [heq, List.getElem?_cons_zero], hgiven⟩
      have hfull : (⟨conditions, false, unit.input, answer, control⟩ : ScalarReply R).InFull ops H := Or.inr hrows
      apply wpOk_then (wpOk_materializeOutputRow hcolumns hv hgiven)
      rintro output _ ⟨rfl, houtput⟩
      have hstored : HoldsGiven A H unit.key [output] := by
        rintro b ⟨⟩
        rw [h.key]
        exact houtput
      refine wpOk_quietly trivial (fun _ => rfl) fun ttl => ?_
      cases ttl with
      | ok ttl =>
        dsimp only
        split
        · refine wpOk_quietly hstored (fun _ => rfl) fun _ => ?_
          refine wpOk_quietly trivial (fun _ => rfl) fun _ => ?_
          exact wpOk_pure ⟨rfl, hfull, h.answered houtput⟩
        · apply wpOk_revoked
          exact wpOk_pure ⟨rfl, hfull, h.answered houtput⟩
      | error reason =>
        apply wpOk_revoked
        exact wpOk_pure ⟨rfl, hfull, h.answered houtput⟩
    next => exact wpOk_throw

/-- What the per-value path keeps. -/
structure Going (ops : ScalarOps R C) (H : ScalarHistory K V) (template : Template K R)
    (s : ScalarDealings K R) : Prop where
  template : s.template = some template
  replies : ∀ r ∈ s.replies, r.InFull ops H

theorem Going.heard {template : Template K R} {conditions : Conditions} {input answer : R}
    {control : Option ExchangeControl} {s' : ScalarDealings K R} (h : Going ops H template s)
    (hs' : Heard A H trust conditions input s (some answer) control s')
    (hfull : (⟨conditions, s.waited, input, answer, control⟩ : ScalarReply R).InFull ops H) :
    Going ops H template s' := by
  obtain ⟨rfl, -⟩ := hs'
  refine ⟨h.template, ?_⟩
  intro r hr
  rcases List.mem_cons.1 hr with rfl | hr
  · exact hfull
  · exact h.replies r hr

variable {function : String} {template : Template K R}

theorem wpOk_direct {conditions : Conditions} {input : R} :
    wpOk (scalarProtocol A H trust asked).effects (direct function conditions input) s
      fun answer s' => Heard A H trust conditions input s (some answer.1) answer.2 s' := by
  apply wpOk_of_wpBoth (F := fun _ => Unheard s)
  exact wpBoth_exchangeAnswered

theorem wpOk_capturedDirect {conditions : Conditions} {input : R} :
    wpOk (scalarProtocol A H trust asked).effects (captured (direct function conditions input)) s fun result s' =>
      (∀ answer, result = .ok answer → Heard A H trust conditions input s (some answer.1) answer.2 s') ∧
        ∀ error, result = .error error → Unheard s s' := by
  apply wpOk_of_wpBoth (F := fun _ _ => False)
  apply wpBoth_captured
  refine wpBoth_mono ?_ ?_ wpBoth_exchangeAnswered
  · intro answer s' hheard
    refine ⟨?_, by rintro error ⟨⟩⟩
    rintro _ ⟨⟩
    exact hheard
  · intro error s' hunheard
    refine ⟨by rintro answer ⟨⟩, ?_⟩
    rintro _ ⟨⟩
    exact hunheard

theorem wpOk_revalidateMiss {x : InputRow V} {unit : ScalarUnit K R} (h : UnitFor A H x unit)
    (hs : Going ops H template s ∧ s.waited = false) :
    wpOk (scalarProtocol A H trust asked).effects (revalidateMiss ops.toExchangeOps function unit) s
      fun unit' s' => (Going ops H template s' ∧ s'.waited = false) ∧ UnitFor A H x unit' := by
  unfold revalidateMiss
  split
  next f stale hclaim =>
    obtain ⟨hstale, hrefresh⟩ := h.stale f stale hclaim
    apply wpOk_then wpOk_capturedDirect
    rintro result s' ⟨hok, herror⟩
    cases result with
    | ok answer =>
      have hheard := hok answer rfl
      have hgives := (hheard.2 _ rfl).1
      rw [hs.2] at hgives
      refine wpOk_mono ?_ (wpOk_acceptMiss h hstale hrefresh hgives)
      rintro unit' _ ⟨rfl, hfull, hunit⟩
      refine ⟨⟨hs.1.heard hheard (by rw [hs.2]; exact hfull), ?_⟩, hunit⟩
      rw [hheard.1]
      exact hs.2
    | error error =>
      obtain ⟨conditions, pending, rfl⟩ := herror error rfl
      have hgoing : Going ops H template { s with conditions, pending } := ⟨hs.1.template, hs.1.replies⟩
      refine wpOk_quietly trivial (fun _ => rfl) fun serve => ?_
      cases serve with
      | true =>
        simp only [if_true]
        split
        next cached hbatches =>
          have hcached := hstale cached hbatches
          rw [h.key] at hcached
          refine wpOk_quietly trivial (fun _ => rfl) fun _ => ?_
          exact wpOk_pure ⟨⟨hgoing, hs.2⟩, h.answered hcached⟩
        next =>
          refine wpOk_quietly trivial (fun _ => rfl) fun _ => ?_
          exact wpOk_throw
      | false => exact wpOk_throw
  next => exact wpOk_pure ⟨hs, h⟩

/-! ## The shared exchange of the cold rows -/

theorem wpOk_storeMiss {x : InputRow V} {key : K} {f : Nat} {fresh : R} {control : Option ExchangeControl} {row : Nat}
    {v : V} (hkey : H.stands key = x) (hcolumns : ops.columns fresh ≠ 0)
    (hrow : (A.cells (ops.column fresh))[row]? = some v) (hv : H.given x v) :
    wpOk (scalarProtocol A H trust asked).effects (storeMiss ops.toExchangeOps key f fresh control row) s
      fun _ s' => s' = s := by
  apply wpOk_then (wpOk_materializeOutputRow hcolumns hrow hv)
  rintro output _ ⟨rfl, houtput⟩
  refine wpOk_quietly trivial (fun _ => rfl) fun ttl => ?_
  cases ttl with
  | ok ttl =>
    have hstored : HoldsGiven A H key [output] := by
      rintro b ⟨⟩
      rw [hkey]
      exact houtput
    refine wpOk_quietly hstored (fun _ => rfl) fun _ => ?_
    exact wpOk_ask ⟨trivial, fun _ _ => rfl⟩
  | error reason => exact wpOk_ask ⟨trivial, fun _ _ => rfl⟩

/-- The rows of the units that the shared exchange is for. -/
def coldRows (A : ScalarReading ops V) (units : List (ScalarUnit K R)) : List (InputRow V) :=
  (units.filter (·.isCold)).flatMap fun unit => A.inputRows unit.input

theorem length_coldRows {xs : List (InputRow V)} {units : List (ScalarUnit K R)} (h : List.Forall₂ (UnitFor A H) xs units) :
    (coldRows A units).length = (units.filter (·.isCold)).length := by
  induction h with
  | nil => rfl
  | @cons x unit xs units hunit _ ih =>
    unfold coldRows at *
    by_cases hcold : unit.isCold = true
    · rw [List.filter_cons_of_pos hcold, List.flatMap_cons, hunit.asked, List.singleton_append, List.length_cons,
        List.length_cons, ih]
    · rw [List.filter_cons_of_neg hcold, ih]

/-- The answer is taken row by row, in the order of the cold units. -/
theorem wpOk_settleMisses {xs : List (InputRow V)} {units : List (ScalarUnit K R)} {fresh : R}
    {control : Option ExchangeControl} (hcolumns : ops.columns fresh ≠ 0) (h : List.Forall₂ (UnitFor A H) xs units)
    {row attempts : Nat} (hfresh : List.Forall₂ H.given (coldRows A units) ((A.cells (ops.column fresh)).drop row)) :
    wpOk (scalarProtocol A H trust asked).effects (settleMisses ops.toExchangeOps fresh control row attempts units) s
      fun units' s' => s' = s ∧ List.Forall₂ (UnitFor A H) xs units' := by
  induction h generalizing row attempts with
  | nil => exact wpOk_pure ⟨rfl, .nil⟩
  | @cons x unit xs units hunit _ ih =>
    unfold settleMisses
    split
    next f hclaim =>
      have hcold : unit.isCold = true := by rw [ScalarUnit.isCold, hclaim]
      rw [coldRows, List.filter_cons_of_pos hcold, List.flatMap_cons, hunit.asked, List.singleton_append,
        List.forall₂_cons_left_iff] at hfresh
      obtain ⟨v, vs, hv, hrest, hdrop⟩ := hfresh
      have hrow : (A.cells (ops.column fresh))[row]? = some v := by
        rw [← List.head?_drop, hdrop, List.head?_cons]
      have hvs : vs = (A.cells (ops.column fresh)).drop (row + 1) := by
        rw [← List.tail_drop, hdrop, List.tail_cons]
      rw [hvs] at hrest
      have hsliced : AnswersRow A H x (ops.slice fresh row 1) := by
        intro _
        refine ⟨v, ?_, hv⟩
        rw [A.column_slice fresh row 1 hcolumns, hdrop, List.take_succ_cons, List.take_zero]
      have hsettled : wpOk (scalarProtocol A H trust asked).effects
          (settleMiss ops.toExchangeOps unit.key f fresh control row
            (control.any (·.perValue) && attempts < perValueMaxNewStoresPerCall)) s fun _ s' => s' = s := by
        unfold settleMiss
        split
        · exact wpOk_storeMiss hunit.key hcolumns hrow hv
        · exact wpOk_ask ⟨trivial, fun _ _ => rfl⟩
      apply wpOk_then hsettled
      rintro _ _ rfl
      apply wpOk_then (ih hrest)
      rintro settled _ ⟨rfl, hall⟩
      exact wpOk_pure ⟨rfl, .cons (hunit.answered hsliced) hall⟩
    next hclaim =>
      have hcold : unit.isCold = false := by
        unfold ScalarUnit.isCold
        split
        next f heq => exact absurd heq (hclaim f)
        next => rfl
      rw [coldRows, List.filter_cons_of_neg (by rw [hcold]; exact Bool.false_ne_true)] at hfresh
      apply wpOk_then (ih hfresh)
      rintro settled _ ⟨rfl, hall⟩
      exact wpOk_pure ⟨rfl, .cons hunit hall⟩

theorem wpOk_sendMisses {xs : List (InputRow V)} {units : List (ScalarUnit K R)} (h : List.Forall₂ (UnitFor A H) xs units)
    (hs : Going ops H template s) :
    wpOk (scalarProtocol A H trust asked).effects (sendMisses ops.toExchangeOps function units) s
      fun units' s' => Going ops H template s' ∧ List.Forall₂ (UnitFor A H) xs units' := by
  unfold sendMisses
  dsimp only
  split
  · exact wpOk_pure ⟨hs, h⟩
  · apply wpOk_bind
    apply wpOk_liftExcept
    intro input hinput
    have hcold : A.inputRows input = coldRows A units := by
      rw [A.concatInputs hinput, List.flatMap_map]
      rfl
    have hlength : ops.rows input = (units.filter (·.isCold)).length := by
      rw [A.rows_eq, hcold, length_coldRows h]
    apply wpOk_then (wpOk_of_wpBoth wpBoth_openExchange)
    rintro _ _ rfl
    apply wpOk_then (wpOk_of_wpBoth wpBoth_send)
    rintro ⟨answer, control⟩ _ rfl
    cases answer with
    | none => exact wpOk_throw
    | some fresh =>
      apply wpOk_then (wpOk_of_wpBoth wpBoth_close)
      rintro _ _ ⟨rfl, hreply⟩
      split
      next hshape =>
        simp only [Bool.and_eq_true, decide_eq_true_eq] at hshape
        have hcolumns : ops.columns fresh ≠ 0 := by omega
        have hrows : ops.rows fresh = ops.rows input := hshape.1.trans hlength.symm
        have hgives := (hreply _ rfl).1 hrows hcolumns
        have hfresh : List.Forall₂ H.given (coldRows A units) ((A.cells (ops.column fresh)).drop 0) := by
          rw [← hcold]
          exact hgives
        refine wpOk_mono ?_ (wpOk_settleMisses hcolumns h hfresh)
        rintro units' _ ⟨rfl, hall⟩
        refine ⟨⟨hs.template, ?_⟩, hall⟩
        intro r hr
        rcases List.mem_cons.1 hr with rfl | hr
        · exact Or.inr hrows
        · exact hs.replies r hr
      next => exact wpOk_throw

/-! ## Followers -/

/-- What a follower asks for itself is the one answer that is not looked at: `fair` says it is in full. -/
theorem wpOk_followMiss {fair : Prop}
    (htrust : fair → ∀ r, trust r → r.fallback = true → ops.rows r.answer = ops.rows r.input) {x : InputRow V}
    {unit : ScalarUnit K R} (h : UnitFor A H x unit) (hs : fair → Going ops H template s) :
    wpOk (scalarProtocol A H trust asked).effects (followMiss ops.toExchangeOps function unit) s
      fun unit' s' => (fair → Going ops H template s') ∧ (fair → UnitFor A H x unit') := by
  have hgoing : fair → Going ops H template { s with waited := true } :=
    fun hfair => ⟨(hs hfair).template, (hs hfair).replies⟩
  have hfallback : wpOk (scalarProtocol A H trust asked).effects
      (direct function (none, none) unit.input >>= fun answer => pure { unit with output := some answer.1 })
      { s with waited := true } fun unit' s' => (fair → Going ops H template s') ∧ (fair → UnitFor A H x unit') := by
    apply wpOk_then wpOk_direct
    rintro ⟨answer, control⟩ s' hheard
    obtain ⟨hgives, hknown⟩ := hheard.2 _ rfl
    refine wpOk_pure ⟨fun hfair => ?_, fun hfair => h.answered ?_⟩
    · exact (hgoing hfair).heard hheard (Or.inr (htrust hfair _ hknown rfl))
    · intro hcolumns
      have hall := hgives (htrust hfair _ hknown rfl) hcolumns
      rw [h.asked, List.forall₂_cons_left_iff] at hall
      obtain ⟨v, vs, hv, hrest, heq⟩ := hall
      exact ⟨v, by rw [heq, List.forall₂_nil_left_iff.1 hrest], hv⟩
  unfold followMiss
  split
  next w hclaim =>
    apply wpOk_then wpOk_awaitEntry
    rintro entry s' ⟨rfl, hentry⟩
    split
    next batch hbatch =>
      obtain ⟨e, rfl, hbatches⟩ := Option.map_eq_some_iff.1 hbatch
      split
      · have hstored := hentry e rfl batch hbatches
        rw [h.key] at hstored
        exact wpOk_pure ⟨hgoing, fun _ => h.answered hstored⟩
      · exact hfallback
    next => exact hfallback
  next => exact wpOk_pure ⟨hs, fun _ => h⟩

end Scalar

end VgiDatafusion
