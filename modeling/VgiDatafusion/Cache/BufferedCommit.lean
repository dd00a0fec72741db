import VgiDatafusion.Cache.Exchange
import VgiDatafusion.Library.Runs

/-!
# The commit of a buffered call (table_input.rs:685-739, 863-1193)

| here | there |
| --- | --- |
| `BufferedLog` | what a call has seen of the cache, the worker and the guard, and done to the cache |
| `bufferedProtocol` | any answers at all, the cache's eligibility being a function of its arguments |
| `GuardHistory` | `BufferedCommitGuard`: when its drop took the lock, if it did |
| `Discipline` | what may be committed, combined and left in the cache |

Failures may come from every phase. The lock that answers `commitAllowed` is held until the call returns, so a
drop of the guard comes before it or after the return. Two things end the call before it touches the entry it
used: finalize controls that disagree where one is `not_modified` leave through the `?` of
`normalize_buffered_cache_control`, above the `remove` of the other disagreements; and rows beside a
`not_modified` are refused above the check of eligibility. Both leave an entry behind that the worker has
revoked, and nothing else does (`discipline_iff`).
-/
namespace VgiDatafusion

open Program Exchange

variable {K R : Type}

inductive CacheOp (K R : Type)
  | insert (key : K) (batches : List R)
  | slide (key : K)
  | remove (key : K)

/-- What a buffered call has seen so far: the entry it used, the controls and the batches of its streams. -/
structure BufferedLog (K R : Type) where
  /-- The entry whose validators the finalize streams carry. -/
  used : Option (K × CachedEntry R) := none
  batches : List R := []
  /-- One for each finalize stream read to its end. -/
  controls : List (Option ExchangeControl) := []
  /-- A lifecycle phase has failed. -/
  failed : Bool := false
  /-- What the lock of the guard held, once it was taken. -/
  alive : Option Bool := none
  cacheOps : List (CacheOp K R) := []

namespace BufferedLog

/-- The validators a conditional request carries: those of the entry in use. -/
def conditions (s : BufferedLog K R) : Conditions := (s.used.bind (·.2.etag), s.used.bind (·.2.lastModified))

/-- The control of the first stream. -/
def control (s : BufferedLog K R) : Option ExchangeControl := s.controls.headD none

def Disagree (s : BufferedLog K R) : Prop := ∃ c ∈ s.controls, c ≠ s.control

def HasRows (ops : ExchangeOps R) (s : BufferedLog K R) : Prop := ∃ b ∈ s.batches, ops.rows b ≠ 0

def bytes (ops : ExchangeOps R) (s : BufferedLog K R) : Nat := (s.batches.map ops.memorySize).sum

/-- A reply of one phase of the lifecycle. -/
def phase {α : Type} (s : BufferedLog K R) : Except String α → BufferedLog K R
  | .ok _ => s
  | .error _ => { s with failed := true }

def after (s : BufferedLog K R) : (q : Question K R) → q.Reply → BufferedLog K R
  | .outside (.getForRevalidation key), (reply : Option (CachedEntry R)) => { s with used := reply.map (key, ·) }
  | .outside .bufferingBegin, (reply : Except String Token) => s.phase reply
  | .outside (.bufferingProcess ..), (reply : Except String Token) => s.phase reply
  | .outside (.bufferingCombine ..), (reply : Except String (List Token)) => s.phase reply
  | .outside (.bufferingFinalize ..), (reply : Except String (List R × Option ExchangeControl)) =>
    match reply with
    | .ok (batches, control) => { s with batches := s.batches ++ batches, controls := s.controls ++ [control] }
    | .error _ => { s with failed := true }
  | .outside .commitAllowed, (reply : Bool) => { s with alive := some reply }
  | .outside (.insert key batches _ _), _ => { s with cacheOps := s.cacheOps ++ [.insert key batches] }
  | .outside (.slide key _), _ => { s with cacheOps := s.cacheOps ++ [.slide key] }
  | .outside (.remove key), _ => { s with cacheOps := s.cacheOps ++ [.remove key] }
  | _, _ => s

end BufferedLog

/-! ## The discipline -/

section
variable (eligible : Option ExchangeControl → K → Nat → Except String Nat) (ops : ExchangeOps R)

/-- Every phase has succeeded, every finalize stream carried this control, and the guard was alive. -/
structure Agreed (s : BufferedLog K R) (control : Option ExchangeControl) : Prop where
  succeeded : s.failed = false
  equal : ∀ c ∈ s.controls, c = control
  alive : s.alive = some true

/-- A commit with this control is one the streams of the call allow. -/
def mayCommit (s : BufferedLog K R) : Question K R → Prop
  | .outside (.insert key batches ttl control) =>
    Agreed s control ∧ Exchange.notModified control = false ∧ batches = s.batches ∧ eligible control key (s.bytes ops) = .ok ttl
  | .outside (.slide key ttl) => ∃ entry control, s.used = some (key, entry) ∧ Agreed s control ∧
      Exchange.notModified control = true ∧ ¬ s.HasRows ops ∧ eligible control key entry.bytes = .ok ttl
  | .outside (.bufferingFinalize _ _ conditions) => conditions = s.conditions
  | _ => True

def bufferedProtocol : Protocol (Question K R) Question.Reply (BufferedLog K R) where
  allows _ q reply :=
    match q, reply with
    | .outside (.eligibility control key bytes), (reply : Except String Nat) => reply = eligible control key bytes
    | _, _ => True
  owes := mayCommit eligible ops
  after := BufferedLog.after

/-- What the whole run saw and did. -/
def logOf (events : List (Event (Question K R) Question.Reply)) : BufferedLog K R :=
  (bufferedProtocol eligible ops).last {} events

/-- `dropped = some d`: the drop of the guard took the lock before the `d`-th question. -/
structure GuardHistory (dropped : Option Nat) (events : List (Event (Question K R) Question.Reply)) : Prop where
  reads : ∀ i reply, events[i]? = some ⟨.outside .commitAllowed, reply⟩ →
    (reply = true ↔ ∀ d, dropped = some d → i < d)
  /-- The lock is held from the answer to the return. -/
  holds : ∀ i reply, events[i]? = some ⟨.outside .commitAllowed, reply⟩ → ∀ d, dropped = some d → i < d → events.length < d

/-- The answer to the conditional request does not let the entry stand: a control is missing, two disagree, or
the common one is not eligible. -/
def Refuses (s : BufferedLog K R) (key : K) (entry : CachedEntry R) : Prop :=
  s.Disagree ∨ s.control = none ∨
    ∃ reason, eligible s.control key (if Exchange.notModified s.control then entry.bytes else s.bytes ops) = .error reason

/-- Removed, or replaced by what the worker sent. -/
def Gone (key : K) (s : BufferedLog K R) : Prop :=
  .remove key ∈ s.cacheOps ∨ .insert key s.batches ∈ s.cacheOps

/-- Rows beside a `not_modified` neither touch the cache nor join the entry's. -/
def NotCombined (s : BufferedLog K R) (result : Except String (List R)) : Prop :=
  s.failed = false → (∃ c ∈ s.controls, Exchange.notModified c = true) → s.HasRows ops →
    s.cacheOps = [] ∧ ∀ out, result = .ok out → s.alive ≠ some true ∧ out = s.batches

def Revoked (s : BufferedLog K R) : Prop :=
  s.alive = some true → s.failed = false → ∀ key entry, s.used = some (key, entry) →
    Refuses eligible ops s key entry → Gone key s

/-- What the cache may show after a buffered call (`table_input.rs:685-739`, `863-1193`). -/
structure Discipline (dropped : Option Nat) (events : List (Event (Question K R) Question.Reply))
    (result : Except String (List R)) : Prop where
  /-- A commit comes after the whole lifecycle, under one eligible control, while the guard is alive. -/
  commits : ∀ j q reply, events[j]? = some ⟨q, reply⟩ → mayCommit eligible ops (logOf eligible ops (events.take j)) q
  /-- And the guard is dropped after it, if at all. -/
  guarded : ∀ j q reply, events[j]? = some ⟨.outside q, reply⟩ →
    (∃ key batches ttl control, q = .insert key batches ttl control) ∨ (∃ key ttl, q = .slide key ttl) →
      ∀ d, dropped = some d → j < d
  notCombined : NotCombined ops (logOf eligible ops events) result
  revoked : Revoked eligible ops (logOf eligible ops events)

/-- With the guard alive, the controls disagree and one is `not_modified`; or all are one ineligible
`not_modified`, and rows came with it. -/
def LeftBehind (s : BufferedLog K R) : Prop :=
  s.alive = some true ∧ s.failed = false ∧ ∃ key entry, s.used = some (key, entry) ∧
    ((s.Disagree ∧ ∃ c ∈ s.controls, Exchange.notModified c = true) ∨
      (¬ s.Disagree ∧ Exchange.notModified s.control = true ∧ s.HasRows ops ∧
        ∃ reason, eligible s.control key entry.bytes = .error reason))

end

/-! ## The phases -/

variable {eligible : Option ExchangeControl → K → Nat → Except String Nat} {ops : ExchangeOps R} {α : Type}

theorem wpBoth_outside {q : Outside K R} {s : BufferedLog K R} {Q : q.Reply → BufferedLog K R → Prop}
    {F : String → BufferedLog K R → Prop} (howes : mayCommit eligible ops s (.outside q))
    (h : ∀ reply, (bufferedProtocol eligible ops).allows s (.outside q) reply → Q reply (s.after (.outside q) reply)) :
    wpBoth (bufferedProtocol eligible ops).effects (outside q) s Q F :=
  wpBoth_ask ⟨howes, h⟩

theorem wpBoth_finish {f : Nat} {outcome : FlightOutcome} {s : BufferedLog K R} {Q : PUnit → BufferedLog K R → Prop}
    {F : String → BufferedLog K R → Prop} (h : Q ⟨⟩ s) :
    wpBoth (bufferedProtocol eligible ops).effects (finish f outcome) s Q F :=
  wpBoth_ask ⟨trivial, fun _ _ => h⟩

/-- The lifecycle failed, whatever was read before. -/
def FailedFrom (s s' : BufferedLog K R) : Prop :=
  ∃ batches controls, s' = { s with batches, controls, failed := true }

theorem wpBoth_phase {q : Outside K R} (read : q.Reply → Except String α) {s : BufferedLog K R}
    (howes : mayCommit eligible ops s (.outside q)) (hafter : ∀ reply, s.after (.outside q) reply = s.phase (read reply)) :
    wpBoth (bufferedProtocol eligible ops).effects (outside q >>= fun reply => liftExcept (read reply)) s
      (fun _ s' => s' = s) (fun _ s' => FailedFrom s s') := by
  apply wpBoth_bind
  apply wpBoth_outside howes
  intro reply _
  apply wpBoth_liftExcept
  · intro a ha
    rw [hafter, ha]
    rfl
  · intro error he
    refine ⟨s.batches, s.controls, ?_⟩
    rw [hafter, he]
    rfl

/-- The finalize streams, read one after the other. -/
theorem wpBoth_finalize {execution : Token} (states : List Token) {s : BufferedLog K R} :
    wpBoth (bufferedProtocol eligible ops).effects (states.mapM' fun state =>
        outside (.bufferingFinalize execution state s.conditions : Outside K R) >>= liftExcept) s
      (fun scans s' => s' = { s with
        batches := s.batches ++ scans.flatMap (·.1)
        controls := s.controls ++ scans.map (·.2) }) (fun _ s' => FailedFrom s s') := by
  induction states generalizing s with
  | nil =>
    apply wpBoth_pure
    simp
  | cons state states ih =>
    apply wpBoth_bind
    apply wpBoth_bind
    apply wpBoth_outside
    · rfl
    intro reply _
    apply wpBoth_liftExcept
    · rintro ⟨batches, control⟩ rfl
      apply wpBoth_then (ih (s := { s with batches := s.batches ++ batches, controls := s.controls ++ [control] }))
      · rintro error _ ⟨batches', controls', rfl⟩
        exact ⟨batches', controls', rfl⟩
      · rintro scans _ rfl
        apply wpBoth_pure
        simp
    · rintro error rfl
      exact ⟨s.batches, s.controls, rfl⟩

theorem wpBoth_runLifecycle {inputs : List R} {conditions : Conditions} {s : BufferedLog K R}
    (hconditions : conditions = s.conditions) (hbatches : s.batches = []) (hcontrols : s.controls = []) :
    wpBoth (bufferedProtocol eligible ops).effects (runLifecycle inputs conditions) s
      (fun out s' => s' = { s with batches := out.1, controls := out.2 }) (fun _ s' => FailedFrom s s') := by
  subst hconditions
  apply wpBoth_then (wpBoth_phase (q := .bufferingBegin) id trivial fun _ => rfl) (fun _ _ h => h)
  rintro execution s rfl
  apply wpBoth_then (wpBoth_mapM' (I := fun s' => s' = s) ?_ _ rfl) (fun _ _ h => h)
  · rintro tokens s rfl
    apply wpBoth_then (wpBoth_phase (q := .bufferingCombine execution tokens) id trivial fun _ => rfl) (fun _ _ h => h)
    rintro finalizes s rfl
    apply wpBoth_then (wpBoth_finalize finalizes) (fun _ _ h => h)
    rintro scans _ rfl
    apply wpBoth_pure
    rw [hbatches, hcontrols, List.nil_append, List.nil_append]
  · rintro input s rfl
    exact wpBoth_phase (q := .bufferingProcess execution input.1 input.2) id trivial fun _ => rfl

/-! ## What the call leaves -/

/-- What holds of a call that has returned: the entry it used is revoked where it should be, unless left behind. -/
structure CallLeaves (eligible : Option ExchangeControl → K → Nat → Except String Nat) (ops : ExchangeOps R)
    (result : Except String (List R)) (s : BufferedLog K R) : Prop where
  notCombined : NotCombined ops s result
  revoked : Revoked eligible ops s ↔ ¬ LeftBehind eligible ops s

/-- Nothing was answered in full. -/
theorem CallLeaves.of_failed {result : Except String (List R)} {s : BufferedLog K R} (h : s.failed = true) :
    CallLeaves eligible ops result s where
  notCombined := by
    intro hfailed
    rw [h] at hfailed
    cases hfailed
  revoked := by
    refine iff_of_true ?_ ?_
    · intro _ hfailed
      rw [h] at hfailed
      cases hfailed
    · rintro ⟨-, hfailed, -⟩
      rw [h] at hfailed
      cases hfailed

/-- No commit was tried, and what the worker sent is returned. -/
theorem CallLeaves.of_not_alive {out : List R} {s : BufferedLog K R} (h : s.alive ≠ some true) (hops : s.cacheOps = [])
    (hout : s.batches = [] ∨ out = s.batches) : CallLeaves eligible ops (.ok out) s where
  notCombined := by
    rintro - - ⟨b, hb, hrows⟩
    refine ⟨hops, ?_⟩
    rintro _ ⟨⟩
    rcases hout with hnone | hout
    · rw [hnone] at hb
      cases hb
    · exact ⟨h, hout⟩
  revoked := by
    refine iff_of_true ?_ ?_
    · intro halive
      exact absurd halive h
    · rintro ⟨halive, -⟩
      exact absurd halive h

/-- The entry is gone, and no `not_modified` came with rows or in disagreement. -/
theorem CallLeaves.of_gone {result : Except String (List R)} {key : K} {s : BufferedLog K R} (hgone : Gone key s)
    (hkey : ∀ key' entry, s.used = some (key', entry) → key' = key)
    (hclean : s.HasRows ops ∨ s.Disagree → ∀ c ∈ s.controls, Exchange.notModified c = false) :
    CallLeaves eligible ops result s where
  notCombined := by
    rintro - ⟨c, hc, hnot⟩ hrows
    rw [hclean (Or.inl hrows) c hc] at hnot
    cases hnot
  revoked := by
    refine iff_of_true ?_ ?_
    · intro _ _ key' entry hused _
      rw [hkey key' entry hused]
      exact hgone
    · rintro ⟨-, -, key', entry, -, ⟨hdisagree, c, hc, hnot⟩ | ⟨-, hnot, hrows, -⟩⟩
      · rw [hclean (Or.inr hdisagree) c hc] at hnot
        cases hnot
      · cases hcontrols : s.controls with
        | nil => simp [BufferedLog.control, hcontrols, Exchange.notModified] at hnot
        | cons c rest =>
          have hmem : s.control ∈ s.controls := by simp [BufferedLog.control, hcontrols]
          rw [hclean (Or.inl hrows) _ hmem] at hnot
          cases hnot

/-- The call failed before it touched the cache. -/
theorem CallLeaves.of_untouched {error : String} {s : BufferedLog K R} (hops : s.cacheOps = [])
    (hrefuses : ∀ key entry, s.used = some (key, entry) → s.alive = some true → s.failed = false →
      (Refuses eligible ops s key entry ↔ LeftBehind eligible ops s)) : CallLeaves eligible ops (.error error) s where
  notCombined := by
    intro _ _ _
    refine ⟨hops, ?_⟩
    rintro _ ⟨⟩
  revoked := by
    have hkept : ∀ key, ¬ Gone key s := by
      rintro key (hmem | hmem) <;> simp [hops] at hmem
    constructor
    · rintro hrevoked ⟨halive, hfailed, key, entry, hused, hleft⟩
      exact hkept key (hrevoked halive hfailed key entry hused
        ((hrefuses key entry hused halive hfailed).2 ⟨halive, hfailed, key, entry, hused, hleft⟩))
    · intro hleft halive hfailed key entry hused hr
      exact absurd ((hrefuses key entry hused halive hfailed).1 hr) hleft

theorem normalize_cases (function : String) (controls : List (Option ExchangeControl)) :
    (normalizeBufferedCacheControl function controls = .ok (.consistent (controls.headD none)) ∧
      ∀ c ∈ controls, c = controls.headD none) ∨
    (normalizeBufferedCacheControl function controls = .ok .refused ∧ (∃ c ∈ controls, c ≠ controls.headD none) ∧
      ∀ c ∈ controls, Exchange.notModified c = false) ∨
    (∃ error, normalizeBufferedCacheControl function controls = .error error ∧
      (∃ c ∈ controls, c ≠ controls.headD none) ∧ ∃ c ∈ controls, Exchange.notModified c = true) := by
  cases controls with
  | nil => exact Or.inl ⟨rfl, by simp⟩
  | cons first rest =>
    unfold normalizeBufferedCacheControl
    simp only [List.head?_cons, List.headD_cons]
    by_cases hall : (first :: rest).all (· == first) = true
    · refine Or.inl ⟨by rw [if_pos hall], ?_⟩
      intro c hc
      simpa using List.all_eq_true.1 hall c hc
    · have hdisagree : ∃ c ∈ first :: rest, c ≠ first := by
        simpa [List.all_eq_true] using hall
      rw [if_neg hall]
      by_cases hany : (first :: rest).any Exchange.notModified = true
      · refine Or.inr (Or.inr ⟨_, by rw [if_pos hany], hdisagree, ?_⟩)
        obtain ⟨c, hc, hnot⟩ := List.any_eq_true.1 hany
        exact ⟨c, hc, hnot⟩
      · refine Or.inr (Or.inl ⟨by rw [if_neg hany], hdisagree, ?_⟩)
        intro c hc
        cases hnot : Exchange.notModified c with
        | false => rfl
        | true => exact absurd (List.any_eq_true.2 ⟨c, hc, hnot⟩) hany

/-! ## The producer -/

variable {function : String} {key : K} {f : Nat} {stale : Option (CachedEntry R)}

/-- The lifecycle is over, and the cache untouched. -/
structure Answered (key : K) (stale : Option (CachedEntry R)) (s : BufferedLog K R) : Prop where
  used : s.used = stale.map (key, ·)
  succeeded : s.failed = false
  untouched : s.cacheOps = []

theorem Answered.same_key {s : BufferedLog K R} (h : Answered key stale s) :
    ∀ key' entry, s.used = some (key', entry) → key' = key := by
  intro key' entry hused
  rw [h.used] at hused
  cases stale with
  | none => cases hused
  | some entry =>
    cases hused
    rfl

theorem CallLeaves.of_removed {result : Except String (List R)} {s : BufferedLog K R} (h : Answered key stale s)
    (hclean : s.HasRows ops ∨ s.Disagree → ∀ c ∈ s.controls, Exchange.notModified c = false) :
    CallLeaves eligible ops result { s with cacheOps := s.cacheOps ++ [.remove key] } := by
  have hgone : Gone key { s with cacheOps := s.cacheOps ++ [.remove key] } := Or.inl (by simp)
  exact CallLeaves.of_gone hgone h.same_key hclean

theorem CallLeaves.of_stored {result : Except String (List R)} {s : BufferedLog K R} (h : Answered key stale s)
    (hclean : s.HasRows ops ∨ s.Disagree → ∀ c ∈ s.controls, Exchange.notModified c = false) :
    CallLeaves eligible ops result { s with cacheOps := s.cacheOps ++ [.insert key s.batches] } := by
  have hgone : Gone key { s with cacheOps := s.cacheOps ++ [.insert key s.batches] } := Or.inr (by simp)
  exact CallLeaves.of_gone hgone h.same_key hclean

theorem Agreed.not_disagree {s : BufferedLog K R} (h : Agreed s s.control) : ¬ s.Disagree := by
  rintro ⟨c, hc, hne⟩
  exact hne (h.equal c hc)

/-- Under one `not_modified` the answer refuses the entry exactly when that control is not eligible. -/
theorem refuses_of_notModified {s : BufferedLog K R} {entry : CachedEntry R} (h : Agreed s s.control)
    (hnot : Exchange.notModified s.control = true) : Refuses eligible ops s key entry ↔
      ∃ reason, eligible s.control key entry.bytes = .error reason := by
  unfold Refuses
  rw [if_pos hnot]
  constructor
  · rintro (hdisagree | hnone | hreason)
    · exact absurd hdisagree h.not_disagree
    · simp [hnone, Exchange.notModified] at hnot
    · exact hreason
  · intro hreason
    exact Or.inr (Or.inr hreason)

/-- Refused for its rows, above the check of eligibility. -/
theorem CallLeaves.of_rows {error : String} {entry : CachedEntry R} {s : BufferedLog K R}
    (hused : s.used = some (key, entry)) (huntouched : s.cacheOps = []) (hagreed : Agreed s s.control)
    (hnot : Exchange.notModified s.control = true) (hrows : s.HasRows ops) :
    CallLeaves eligible ops (.error error) s := by
  apply CallLeaves.of_untouched huntouched
  intro key' entry' hused' halive hfailed
  rw [hused] at hused'
  cases hused'
  rw [refuses_of_notModified hagreed hnot]
  constructor
  · intro hreason
    exact ⟨halive, hfailed, key, entry, hused, Or.inr ⟨hagreed.not_disagree, hnot, hrows, hreason⟩⟩
  · rintro ⟨-, -, key', entry', hused', ⟨hdisagree, -⟩ | ⟨-, -, -, hreason⟩⟩
    · exact absurd hdisagree hagreed.not_disagree
    · rw [hused] at hused'
      cases hused'
      exact hreason

/-- The worker has confirmed the entry, which stays. -/
theorem CallLeaves.of_confirmed {out : List R} {ttl : Nat} {entry : CachedEntry R} {s : BufferedLog K R}
    (hused : s.used = some (key, entry)) (hagreed : Agreed s s.control)
    (hnot : Exchange.notModified s.control = true) (hnone : ¬ s.HasRows ops)
    (heligible : eligible s.control key entry.bytes = .ok ttl) : CallLeaves eligible ops (.ok out) s where
  notCombined _ _ hrows := absurd hrows hnone
  revoked := by
    refine iff_of_true ?_ ?_
    · intro _ _ key' entry' hused' hrefuses
      rw [hused] at hused'
      cases hused'
      obtain ⟨reason, hreason⟩ := (refuses_of_notModified hagreed hnot).1 hrefuses
      rw [heligible] at hreason
      cases hreason
    · rintro ⟨-, -, _, _, -, ⟨hdisagree, -⟩ | ⟨-, -, hrows, -⟩⟩
      · exact absurd hdisagree hagreed.not_disagree
      · exact absurd hrows hnone

theorem wpBoth_bufferedNotModified {s : BufferedLog K R} (h : Answered key stale s)
    (hagreed : Agreed s s.control) (hnot : Exchange.notModified s.control = true) :
    wpBoth (bufferedProtocol eligible ops).effects
      (bufferedNotModified ops function key f stale s.batches s.control) s
      (fun out => CallLeaves eligible ops (.ok out)) (fun error => CallLeaves eligible ops (.error error)) := by
  cases stale with
  | none =>
    apply wpBoth_bind
    apply wpBoth_finish
    apply wpBoth_throw
    apply CallLeaves.of_untouched h.untouched
    intro key' entry hused
    rw [h.used] at hused
    cases hused
  | some entry =>
    have hused : s.used = some (key, entry) := h.used
    simp only [bufferedNotModified]
    split
    next hrows =>
      apply wpBoth_bind
      apply wpBoth_finish
      apply wpBoth_throw
      exact CallLeaves.of_rows hused h.untouched hagreed hnot (by simpa [BufferedLog.HasRows] using hrows)
    next hrows =>
      have hnone : ¬ s.HasRows ops := by simpa [BufferedLog.HasRows] using hrows
      apply wpBoth_bind
      apply wpBoth_outside
      · trivial
      intro reply hreply
      have heligible : reply = eligible s.control key entry.bytes := hreply
      cases reply with
      | ok ttl =>
        apply wpBoth_bind
        apply wpBoth_outside
        · exact ⟨entry, s.control, hused, hagreed, hnot, hnone, heligible.symm⟩
        intro _ _
        apply wpBoth_bind
        apply wpBoth_finish
        apply wpBoth_pure
        exact CallLeaves.of_confirmed hused ⟨hagreed.succeeded, hagreed.equal, hagreed.alive⟩ hnot hnone heligible.symm
      | error reason =>
        apply wpBoth_bind
        apply wpBoth_outside
        · trivial
        intro _ _
        apply wpBoth_bind
        apply wpBoth_finish
        apply wpBoth_throw
        apply CallLeaves.of_removed h
        rintro (hrows' | hdisagree)
        · exact absurd hrows' hnone
        · exact absurd hdisagree hagreed.not_disagree

theorem wpBoth_bufferedSuccess {s : BufferedLog K R} (h : Answered key stale s) :
    wpBoth (bufferedProtocol eligible ops).effects
      (bufferedSuccess ops function key f stale s.batches s.controls) s
      (fun out => CallLeaves eligible ops (.ok out)) (fun error => CallLeaves eligible ops (.error error)) := by
  apply wpBoth_bind
  apply wpBoth_outside
  · trivial
  intro alive _
  cases alive with
  | false =>
    apply wpBoth_bind
    apply wpBoth_finish
    apply wpBoth_pure
    exact CallLeaves.of_not_alive (by simp [BufferedLog.after]) h.untouched (Or.inr rfl)
  | true =>
    have halive : Answered key stale { s with alive := some true } := ⟨h.used, h.succeeded, h.untouched⟩
    apply wpBoth_bind
    rcases normalize_cases function s.controls with ⟨hok, hequal⟩ | ⟨hok, hdisagree, hclean⟩ | ⟨error, herror, hdisagree, hleft⟩
    · rw [hok]
      apply wpBoth_pure
      have hagreed : Agreed { s with alive := some true } s.control := ⟨h.succeeded, hequal, rfl⟩
      dsimp only
      split
      next hnot => exact wpBoth_bufferedNotModified halive hagreed hnot
      next hnot =>
        have hclean : ∀ c ∈ s.controls, Exchange.notModified c = false := by
          intro c hc
          rw [hequal c hc]
          simpa using hnot
        apply wpBoth_bind
        apply wpBoth_outside
        · trivial
        intro reply hreply
        have heligible : reply = eligible s.control key (s.bytes ops) := hreply
        cases reply with
        | ok ttl =>
          apply wpBoth_bind
          apply wpBoth_outside
          · exact ⟨hagreed, by simpa using hnot, rfl, heligible.symm⟩
          intro _ _
          apply wpBoth_bind
          apply wpBoth_finish
          apply wpBoth_pure
          exact CallLeaves.of_stored halive fun _ => hclean
        | error reason =>
          apply wpBoth_bind
          apply wpBoth_outside
          · trivial
          intro _ _
          apply wpBoth_bind
          apply wpBoth_finish
          apply wpBoth_pure
          exact CallLeaves.of_removed halive fun _ => hclean
    · rw [hok]
      apply wpBoth_pure
      apply wpBoth_bind
      apply wpBoth_outside
      · trivial
      intro _ _
      apply wpBoth_bind
      apply wpBoth_finish
      apply wpBoth_pure
      exact CallLeaves.of_removed halive fun _ => hclean
    · rw [herror]
      apply wpBoth_throw
      -- the `?` of the source: no removal
      apply CallLeaves.of_untouched halive.untouched
      intro key' entry hused hguard hfailed
      exact iff_of_true (Or.inl hdisagree) ⟨hguard, hfailed, key', entry, hused, Or.inl ⟨hdisagree, hleft⟩⟩

theorem wpBoth_bufferedFailure {s : BufferedLog K R} (h : s.failed = true) {error : String} :
    wpBoth (bufferedProtocol eligible ops).effects (bufferedFailure f stale error) s
      (fun out => CallLeaves eligible ops (.ok out)) (fun error => CallLeaves eligible ops (.error error)) := by
  apply wpBoth_bind
  apply wpBoth_outside
  · trivial
  intro alive _
  cases alive with
  | false =>
    apply wpBoth_bind
    apply wpBoth_finish
    apply wpBoth_throw
    exact CallLeaves.of_failed h
  | true =>
    cases stale with
    | none =>
      apply wpBoth_bind
      apply wpBoth_finish
      apply wpBoth_throw
      exact CallLeaves.of_failed h
    | some entry =>
      apply wpBoth_bind
      apply wpBoth_outside
      · trivial
      intro serve _
      cases serve with
      | true =>
        apply wpBoth_bind
        apply wpBoth_finish
        apply wpBoth_pure
        exact CallLeaves.of_failed h
      | false =>
        apply wpBoth_bind
        apply wpBoth_finish
        apply wpBoth_throw
        exact CallLeaves.of_failed h

theorem wpBoth_produceBuffered {inputs : List R} :
    wpBoth (bufferedProtocol eligible ops).effects (produceBuffered ops function inputs key f) {}
      (fun out => CallLeaves eligible ops (.ok out)) (fun error => CallLeaves eligible ops (.error error)) := by
  apply wpBoth_bind
  apply wpBoth_outside
  · trivial
  intro stale _
  apply wpBoth_bind
  apply wpBoth_captured
  refine wpBoth_mono ?_ ?_ (wpBoth_runLifecycle ?_ rfl rfl)
  · rintro ⟨batches, controls⟩ _ rfl
    have hanswered : Answered key stale { used := stale.map (key, ·), batches, controls } := ⟨rfl, rfl, rfl⟩
    exact wpBoth_bufferedSuccess hanswered
  · rintro error _ ⟨batches, controls, rfl⟩
    exact wpBoth_bufferedFailure rfl
  · cases stale with
    | none => rfl
    | some entry => rfl

/-! ## The call -/

/-- An unconditional lifecycle: its rows are returned, and nothing else happens. -/
theorem wpBoth_unconditional {inputs : List R} {s : BufferedLog K R} (hused : s.used = none) (hbatches : s.batches = [])
    (hcontrols : s.controls = []) (halive : s.alive = none) (hops : s.cacheOps = []) :
    wpBoth (bufferedProtocol eligible ops).effects (do
        let (batches, _) ← runLifecycle inputs (none, none)
        return batches) s
      (fun out => CallLeaves eligible ops (.ok out)) (fun error => CallLeaves eligible ops (.error error)) := by
  have hconditions : ((none, none) : Conditions) = s.conditions := by simp [BufferedLog.conditions, hused]
  apply wpBoth_then (wpBoth_runLifecycle hconditions hbatches hcontrols)
  · rintro error _ ⟨batches, controls, rfl⟩
    exact CallLeaves.of_failed rfl
  · rintro ⟨batches, controls⟩ _ rfl
    apply wpBoth_pure
    exact CallLeaves.of_not_alive (by simp [halive]) hops (Or.inr rfl)

theorem wpBoth_followBuffered {inputs : List R} {w : Nat} :
    wpBoth (bufferedProtocol eligible ops).effects (followBuffered inputs key w) {}
      (fun out => CallLeaves eligible ops (.ok out)) (fun error => CallLeaves eligible ops (.error error)) := by
  apply wpBoth_bind
  apply wpBoth_bind
  apply wpBoth_ask
  refine ⟨trivial, ?_⟩
  intro outcome _
  cases outcome with
  | aborted reason =>
    apply wpBoth_pure
    exact wpBoth_unconditional rfl rfl rfl rfl rfl
  | stored =>
    apply wpBoth_bind
    apply wpBoth_outside
    · trivial
    intro hit _
    cases hit with
    | some entry =>
      apply wpBoth_pure
      apply wpBoth_pure
      exact CallLeaves.of_not_alive nofun rfl (Or.inl rfl)
    | none =>
      apply wpBoth_outside
      · trivial
      intro found _
      cases found with
      | some entry =>
        apply wpBoth_pure
        exact CallLeaves.of_not_alive nofun rfl (Or.inl rfl)
      | none => exact wpBoth_unconditional rfl rfl rfl rfl rfl

/-- A call that failed before it could read or write. -/
theorem CallLeaves.initial (result : Except String (List R)) :
    CallLeaves eligible ops result ({} : BufferedLog K R) where
  notCombined := by
    rintro - ⟨c, hc, -⟩
    cases hc
  revoked := by
    refine iff_of_true ?_ ?_
    · rintro ⟨⟩
    · rintro ⟨⟨⟩, -⟩

theorem wpBoth_templateUnless {ineligible : Bool} {kind : String} {s : BufferedLog K R} :
    wpBoth (bufferedProtocol eligible ops).effects (templateUnless ineligible kind) s
      (fun _ s' => s' = s) (fun _ s' => s' = s) := by
  unfold templateUnless
  split
  · exact wpBoth_pure rfl
  · apply wpBoth_bind
    apply wpBoth_outside
    · trivial
    intro reply _
    apply wpBoth_liftExcept
    · intro template _
      rfl
    · intro error _
      rfl

theorem wpBoth_runBuffered {sinkOrderDependent : Bool} {inputs : List R} :
    wpBoth (bufferedProtocol eligible ops).effects
      (runBuffered ops function sinkOrderDependent inputs : ExchangeM K R (List R)) {}
      (fun out => CallLeaves eligible ops (.ok out)) (fun error => CallLeaves eligible ops (.error error)) := by
  apply wpBoth_bind
  apply wpBoth_bind
  apply wpBoth_outside
  · trivial
  intro reply _
  apply wpBoth_liftExcept
  · intro bound _
    apply wpBoth_then wpBoth_templateUnless
    · rintro error _ rfl
      exact CallLeaves.initial _
    rintro template _ rfl
    cases template with
    | none => exact wpBoth_unconditional rfl rfl rfl rfl rfl
    | some template =>
      apply wpBoth_bind
      apply wpBoth_liftExcept
      · intro key _
        apply wpBoth_bind
        apply wpBoth_outside
        · trivial
        intro hit _
        cases hit with
        | some entry => exact CallLeaves.initial _
        | none =>
          apply wpBoth_bind
          apply wpBoth_ask
          refine ⟨trivial, ?_⟩
          intro claim _
          cases claim with
          | follower w => exact wpBoth_followBuffered
          | producer f => exact wpBoth_produceBuffered
      · intro error _
        exact CallLeaves.initial _
  · intro error _
    exact CallLeaves.initial _

/-- In every run. -/
theorem callLeaves_of_run {sinkOrderDependent : Bool} {inputs : List R}
    {events : List (Event (Question K R) Question.Reply)} {result : Except String (List R)}
    (hrun : Runs (runBuffered ops function sinkOrderDependent inputs : ExchangeM K R (List R)).run events result)
    (hallows : (bufferedProtocol eligible ops).Allows {} events) :
    (bufferedProtocol eligible ops).Meets {} events ∧ CallLeaves eligible ops result (logOf eligible ops events) := by
  obtain ⟨hmeets, hleaves⟩ := wp_runs wpBoth_runBuffered hrun hallows
  cases result with
  | ok out => exact ⟨hmeets, hleaves⟩
  | error error => exact ⟨hmeets, hleaves⟩

/-! ## The guard -/

theorem BufferedLog.after_alive {s : BufferedLog K R} {q : Question K R} {reply : q.Reply}
    (h : (s.after q reply).alive = some true) :
    s.alive = some true ∨ (⟨q, reply⟩ : Event (Question K R) Question.Reply) = ⟨.outside .commitAllowed, true⟩ := by
  have hphase : ∀ {α : Type} (r : Except String α), (s.phase r).alive = s.alive := by
    intro α r
    cases r <;> rfl
  cases q with
  | acquire key | finish f outcome | wait w => exact Or.inl h
  | outside q =>
    cases q with
    | commitAllowed =>
      have hreply : reply = true := by simpa [BufferedLog.after] using h
      exact Or.inr (by rw [hreply])
    | bufferingBegin => exact Or.inl ((hphase reply).symm.trans h)
    | bufferingProcess execution input index => exact Or.inl ((hphase reply).symm.trans h)
    | bufferingCombine execution states => exact Or.inl ((hphase reply).symm.trans h)
    | bufferingFinalize execution state conditions =>
      cases reply with
      | ok answer => exact Or.inl h
      | error error => exact Or.inl h
    | _ => exact Or.inl h

/-- The lock was taken, and the guard was alive. -/
def guardAlive : Event (Question K R) Question.Reply := ⟨.outside .commitAllowed, true⟩

/-- Where the log says the guard is alive, its lock was taken before. -/
theorem locked_before {events : List (Event (Question K R) Question.Reply)} {s : BufferedLog K R}
    (h : ((bufferedProtocol eligible ops).last s events).alive = some true) :
    s.alive = some true ∨ ∃ i : Nat, events[i]? = some guardAlive := by
  induction events generalizing s with
  | nil => exact Or.inl h
  | cons event rest ih =>
    rcases ih h with hafter | ⟨i, hi⟩
    · rcases BufferedLog.after_alive hafter with hs | heq
      · exact Or.inl hs
      · exact Or.inr ⟨0, congrArg some heq⟩
    · exact Or.inr ⟨i + 1, hi⟩

theorem GuardHistory.commit {dropped : Option Nat} {events : List (Event (Question K R) Question.Reply)}
    (h : GuardHistory dropped events) {j : Nat} (hj : j < events.length)
    (halive : (logOf eligible ops (events.take j)).alive = some true) : ∀ d, dropped = some d → j < d := by
  intro d hd
  rcases locked_before halive with hnone | ⟨i, hi⟩
  · cases hnone
  · have hevent : events[i]? = some guardAlive := by
      rw [List.getElem?_take] at hi
      split at hi
      · exact hi
      · cases hi
    have hbefore : i < d := (h.reads i true hevent).1 rfl d hd
    have hafter := h.holds i true hevent d hd hbefore
    omega

/-- **The commit discipline holds exactly where no revoked entry is left behind**, in every run: with any
number of streams, a failure of any phase, and the guard dropped at any moment or not at all. -/
theorem discipline_iff {sinkOrderDependent : Bool} {inputs : List R} {dropped : Option Nat}
    {events : List (Event (Question K R) Question.Reply)} {result : Except String (List R)}
    (hrun : Runs (runBuffered ops function sinkOrderDependent inputs : ExchangeM K R (List R)).run events result)
    (hallows : (bufferedProtocol eligible ops).Allows {} events) (hguard : GuardHistory dropped events) :
    Discipline eligible ops dropped events result ↔ ¬ LeftBehind eligible ops (logOf eligible ops events) := by
  obtain ⟨hmeets, hleaves⟩ := callLeaves_of_run hrun hallows
  rw [← hleaves.revoked]
  constructor
  · intro h
    exact h.revoked
  · intro hrevoked
    refine ⟨fun j q reply hj => hmeets.getElem? hj, ?_, hleaves.notCombined, hrevoked⟩
    intro j q reply hj hcommit
    have hlength : j < events.length := (List.getElem?_eq_some_iff.1 hj).1
    have howes : mayCommit eligible ops (logOf eligible ops (events.take j)) (.outside q) := hmeets.getElem? hj
    apply hguard.commit hlength
    rcases hcommit with ⟨key, batches, ttl, control, rfl⟩ | ⟨key, ttl, rfl⟩
    · exact howes.1.alive
    · obtain ⟨entry, control, -, hagreed, -⟩ := howes
      exact hagreed.alive

/-! ### A stale entry and two finalize streams -/

/-- A batch is how many rows it has. -/
def rowCounts : ExchangeOps Nat where
  rows batch := batch
  columns _ := 1
  memorySize batch := batch
  slice batch _ _ := batch
  concatInputs _ := .error "unused"
  concatOutputs _ := .error "unused"
  take batch _ := .ok batch
  gather batch _ := .ok batch
  hasOutputSchema _ := true

def wholeKey : Template Nat Nat where
  inputDigest _ := .error "unused"
  keyForDigest _ := 0
  keyForUnorderedInputs _ := .ok 0

def optIn (control : Option ExchangeControl) (_ _ : Nat) : Except String Nat :=
  if control.isSome then .ok 60 else .error "no cache control"

/-- The i-th stream is answered by `stream i`; every phase succeeds, and the guard is alive. -/
def streamsReply (stream : Nat → List Nat × Option ExchangeControl) (s : BufferedLog Nat Nat) :
    (q : Question Nat Nat) → q.Reply
  | .acquire _ => .producer 0
  | .finish .. => ⟨⟩
  | .wait _ => .stored
  | .outside .bind => .ok { environmentIneligible := false, secretDependent := false }
  | .outside (.template _) => .ok (some wholeKey)
  | .outside (.get _) => none
  | .outside (.getForRevalidation _) => some { batches := [7], bytes := 8, etag := some "v1" }
  | .outside (.mayServeOnError _) | .outside .hasPerValueOptIn => false
  | .outside (.eligibility control key bytes) => optIn control key bytes
  | .outside (.insert ..) | .outside (.remove _) | .outside (.slide ..) | .outside .notePerValueOptIn => ⟨⟩
  | .outside (.openExchange _) | .outside .close => .ok ⟨⟩
  | .outside (.send _) => .error "unused"
  | .outside .bufferingBegin | .outside (.bufferingProcess ..) => .ok []
  | .outside (.bufferingCombine ..) => .ok [[1], [2]]
  | .outside (.bufferingFinalize ..) => .ok (stream s.controls.length)
  | .outside .commitAllowed => true

theorem streamsReply_allowed (stream : Nat → List Nat × Option ExchangeControl) (s : BufferedLog Nat Nat)
    (q : Question Nat Nat) : (bufferedProtocol optIn rowCounts).allows s q (streamsReply stream s q) := by
  cases q with
  | acquire key | finish f outcome | wait w => trivial
  | outside q =>
    cases q with
    | eligibility control key bytes => rfl
    | _ => trivial

/-- The run of a call with one input batch. -/
def streamsRun (stream : Nat → List Nat × Option ExchangeControl) :
    List (Event (Question Nat Nat) Question.Reply) × Except String (List Nat) :=
  Program.execute (bufferedProtocol optIn rowCounts).after (streamsReply stream)
    (runBuffered rowCounts "sum_all" false [5] : ExchangeM Nat Nat (List Nat)).run {}

/-- The guard is never dropped. -/
theorem streamsRun_guard (stream : Nat → List Nat × Option ExchangeControl) :
    GuardHistory none (streamsRun stream).1 where
  reads := by
    intro i reply hi
    obtain ⟨s', hreply⟩ := mem_execute _ _ (List.mem_of_getElem? hi)
    refine iff_of_true hreply ?_
    rintro d ⟨⟩
  holds := by
    rintro i reply - d ⟨⟩

def freshStream (_ : Nat) : List Nat × Option ExchangeControl := ([3], some { policy := "ttl=60" })

/-- Two fresh streams under one control: the entry is replaced. -/
theorem discipline_iff_fresh : Discipline optIn rowCounts none (streamsRun freshStream).1 (.ok [3, 3]) := by
  have hcontrols : (logOf optIn rowCounts (streamsRun freshStream).1).controls =
    [(freshStream 0).2, (freshStream 1).2] := rfl
  have hkept : ¬ LeftBehind optIn rowCounts (logOf optIn rowCounts (streamsRun freshStream).1) := by
    rintro ⟨-, -, key, entry, -, ⟨-, c, hc, hnot⟩ | ⟨-, hnot, -⟩⟩
    · rw [hcontrols] at hc
      simp only [List.mem_cons, List.not_mem_nil, or_false] at hc
      rcases hc with rfl | rfl <;> cases hnot
    · rw [BufferedLog.control, hcontrols] at hnot
      cases hnot
  exact (discipline_iff (runs_execute _ _ _ _) (allows_execute (streamsReply_allowed _) _ _) (streamsRun_guard _)).2 hkept

/-- The first stream says `not_modified`, the second sends three rows under another control. -/
def mixedStream : Nat → List Nat × Option ExchangeControl
  | 0 => ([], some { policy := "ttl=60", notModified := true })
  | _ => ([3], some { policy := "ttl=60" })

/-- The disagreement ends the call, and the entry it used stays. -/
theorem mixed_controls_keep_entry : ∃ events result,
    Runs (runBuffered rowCounts "sum_all" false [5] : ExchangeM Nat Nat (List Nat)).run events result ∧
      (bufferedProtocol optIn rowCounts).Allows {} events ∧ GuardHistory none events ∧
        ¬ Discipline optIn rowCounts none events result := by
  refine ⟨(streamsRun mixedStream).1, (streamsRun mixedStream).2, runs_execute _ _ _ _,
    allows_execute (streamsReply_allowed _) _ _, streamsRun_guard _, ?_⟩
  intro h
  have hdisagree : (logOf optIn rowCounts (streamsRun mixedStream).1).Disagree :=
    ⟨(mixedStream 1).2, .tail _ (.head _), by decide⟩
  have hops : (logOf optIn rowCounts (streamsRun mixedStream).1).cacheOps = [] := rfl
  have hgone := h.revoked rfl rfl 0 { batches := [7], bytes := 8, etag := some "v1" } rfl (Or.inl hdisagree)
  rcases hgone with hmem | hmem <;> simp [hops] at hmem

end VgiDatafusion
