import VgiDatafusion.Cache.ScalarTables

/-!
# A malformed scalar answer (scalar.rs:798-822, 1203-1349, 1413-1461)

| here | there |
| --- | --- |
| `dealings` | the answers that came in a run, whatever they are |
| `Assigned` | every row has a value that was given for it, and every answer was in full |

`run_scalar_exchange` and its caller check an answer on every path but one. `scalar_assigned_iff` says that the
answers on that path are all that has to be asked of the worker, and `long_answer_shifts_rows` is a run where
one of them has a row too many.
-/
namespace VgiDatafusion

open Program Exchange Framing

variable {K R C V : Type}

/-- What went between call and worker in a run. -/
def dealings (trace : List (Event (Question K R) Question.Reply)) : ScalarDealings K R :=
  trace.foldl (fun s event => s.after event.1 event.2) {}

variable {ops : ScalarOps R C} {A : ScalarReading ops V} {H : ScalarHistory K V} {trust : ScalarReply R → Prop}
  {asked : List (InputRow V)}

theorem last_eq_foldl (trace : List (Event (Question K R) Question.Reply)) (s : ScalarDealings K R) :
    (scalarProtocol A H trust asked).last s trace = trace.foldl (fun s event => s.after event.1 event.2) s := by
  induction trace generalizing s with
  | nil => rfl
  | cons event rest ih => exact ih _

/-- A reply stays. -/
theorem mem_replies_after {s : ScalarDealings K R} {r : ScalarReply R} (h : r ∈ s.replies) (q : Question K R)
    (reply : q.Reply) : r ∈ (s.after q reply).replies := by
  unfold ScalarDealings.after
  split
  case h_3 =>
    split
    · exact h
    · exact h
  case h_6 => exact List.mem_append_right _ h
  all_goals exact h

theorem mem_replies_foldl {trace : List (Event (Question K R) Question.Reply)} {s : ScalarDealings K R}
    {r : ScalarReply R} (h : r ∈ s.replies) : r ∈ (trace.foldl (fun s event => s.after event.1 event.2) s).replies := by
  induction trace generalizing s with
  | nil => exact h
  | cons event rest ih => exact ih (mem_replies_after h event.1 event.2)

/-- What holds of every answer of the run may be taken for what is known of the worker. -/
theorem allows_of_replies {trace : List (Event (Question K R) Question.Reply)} {s : ScalarDealings K R}
    (htrust : ∀ r ∈ (trace.foldl (fun s event => s.after event.1 event.2) s).replies, trust r)
    (h : (scalarProtocol A H (fun _ => True) asked).Allows s trace) :
    (scalarProtocol A H trust asked).Allows s trace := by
  induction trace generalizing s with
  | nil => trivial
  | cons event rest ih =>
    obtain ⟨q, reply⟩ := event
    obtain ⟨hanswer, hrest⟩ := h
    refine ⟨?_, ih htrust hrest⟩
    cases q with
    | acquire key | finish f outcome | wait w => trivial
    | outside q =>
      cases q with
      | close =>
        intro hok r hr
        cases hok
        refine ⟨(hanswer rfl r hr).1, htrust r (mem_replies_foldl (s := s.after (.outside .close) (.ok ⟨⟩)) ?_)⟩
        change r ∈ s.pending.toList ++ s.replies
        rw [hr]
        exact List.mem_cons_self
      | _ => exact hanswer

theorem meets_of_trust {trust' : ScalarReply R → Prop} {trace : List (Event (Question K R) Question.Reply)}
    {s : ScalarDealings K R} (h : (scalarProtocol A H trust asked).Meets s trace) :
    (scalarProtocol A H trust' asked).Meets s trace := by
  induction trace generalizing s with
  | nil => trivial
  | cons event rest ih => exact ⟨h.1, ih h.2⟩

/-! ## The call -/

/-- Every row has a value that was given for it, and no answer of another length was let through. -/
structure Assigned (A : ScalarReading ops V) (H : ScalarHistory K V) (columns : List C) (rows : Nat) (output : C)
    (s : ScalarDealings K R) : Prop where
  given : List.Forall₂ H.given (callerRows A columns rows) (A.cells output)
  inFull : ∀ r ∈ s.replies, r.InFull ops H

/-- What followers get when they ask for themselves is as long as what they ask. -/
def FollowersInFull (ops : ScalarOps R C) (s : ScalarDealings K R) : Prop :=
  ∀ r ∈ s.replies, r.fallback = true → ops.rows r.answer = ops.rows r.input

variable {function registeredName : String} {volatility : Volatility} {settings : ScalarSettings} {columns : List C}
  {rows : Nat} {trace : List (Event (Question K R) Question.Reply)}

/-- In every run, failed ones included, the cache is given what its keys stand for. -/
theorem invokeAsyncWithArgs_run {result : Except String C}
    (hrun : Runs (invokeAsyncWithArgs ops function registeredName volatility settings columns rows).run trace result)
    (hallows : (scalarProtocol A H (fun _ => True) (callerRows A columns rows)).Allows {} trace) :
    (scalarProtocol A H (fun _ => True) (callerRows A columns rows)).Meets {} trace ∧
      ∀ output, result = .ok output → FollowersInFull ops (dealings trace) →
        (∀ r ∈ (dealings trace).replies, r.InFull ops H) ∧
          ScalarOutcome A H volatility settings columns rows output (dealings trace) := by
  have hknown : (scalarProtocol A H (fun r => FollowersInFull ops (dealings trace) → r.fallback = true →
      ops.rows r.answer = ops.rows r.input) (callerRows A columns rows)).Allows {} trace :=
    allows_of_replies (fun r hr hfollowers => hfollowers r hr) hallows
  obtain ⟨hmeets, hresult⟩ := wp_runs (wpOk_invokeAsyncWithArgs fun hfollowers r hr => hr hfollowers) hrun hknown
  refine ⟨meets_of_trust hmeets, ?_⟩
  intro output houtput
  have hfinal := hresult output houtput
  rw [last_eq_foldl] at hfinal
  exact hfinal

/-- **A row gets a value given for it** wherever followers are answered in full and no index is cut short; and
these are the only ways to miss it, as far as the values given tell the rows apart. -/
theorem scalar_assigned_iff {output : C}
    (hrun : Runs (invokeAsyncWithArgs ops function registeredName volatility settings columns rows).run trace
      (.ok output))
    (hallows : (scalarProtocol A H (fun _ => True) (callerRows A columns rows)).Allows {} trace) :
    (FollowersInFull ops (dealings trace) ∧ NeverCut A H.given volatility settings columns rows (dealings trace) →
        Assigned A H columns rows output (dealings trace)) ∧
      (Assigned A H columns rows output (dealings trace) → FollowersInFull ops (dealings trace) ∧
        ((∀ x y v, H.given x v → H.given y v → H.given x = H.given y) →
          NeverCut A H.given volatility settings columns rows (dealings trace))) := by
  obtain ⟨-, hresult⟩ := invokeAsyncWithArgs_run hrun hallows
  constructor
  · rintro ⟨hfollowers, hnever⟩
    obtain ⟨hfull, houtcome⟩ := hresult output rfl hfollowers
    refine ⟨houtcome.given_of_neverCut ?_ hnever, hfull⟩
    intro x y v hxy hv
    exact (congrFun hxy v).mp hv
  · rintro ⟨hgiven, hfull⟩
    have hfollowers : FollowersInFull ops (dealings trace) := by
      intro r hr hfallback
      rcases hfull r hr with ⟨hnot, -⟩ | hrows
      · rw [hfallback] at hnot
        cases hnot
      · exact hrows
    refine ⟨hfollowers, fun hapart => ?_⟩
    obtain ⟨-, houtcome⟩ := hresult output rfl hfollowers
    exact houtcome.neverCut hapart hgiven

/-- 2 is a hit; the producer of 1 is dropped, and the worker answers its follower with two rows. -/
def longReply (_ : ScalarDealings (List UInt8) NumberTable) : (q : Question (List UInt8) NumberTable) → q.Reply
  | .acquire _ => .follower 0
  | .finish .. => ⟨⟩
  | .wait _ => .aborted "producer dropped"
  | .outside .bind => .ok { environmentIneligible := false, secretDependent := false }
  | .outside (.template _) => .ok (some cellKey)
  | .outside (.get key) => if key = littleEndian 32 2 then some { batches := [⟨1, [[20]]⟩], bytes := 8 } else none
  | .outside (.getForRevalidation _) => none
  | .outside (.mayServeOnError _) => false
  | .outside (.eligibility ..) => .ok 60
  | .outside (.insert ..) | .outside (.remove _) | .outside (.slide ..) | .outside .notePerValueOptIn => ⟨⟩
  | .outside (.openExchange _) | .outside .close => .ok ⟨⟩
  | .outside (.send input) => if input.rows.length = 1 then .ok (some ⟨1, [[7], [8]]⟩, none) else .error "unused"
  | .outside .bufferingBegin | .outside (.bufferingProcess ..) => .error "unused"
  | .outside (.bufferingCombine ..) => .error "unused"
  | .outside (.bufferingFinalize ..) => .error "unused"
  | .outside .commitAllowed => false
  | .outside .hasPerValueOptIn => true

/-- All that was ever given for these rows. -/
def twenty (x : InputRow Nat) (v : Nat) : Prop := x = [some 2] ∧ v = 20

def twentyOnly : ScalarHistory (List UInt8) Nat := cellHistory twenty fun _ => False

/-- Its one answer has a row too many. -/
def AnswersLong (s : ScalarDealings (List UInt8) NumberTable) : Prop :=
  ∀ r, s.pending = some r → tableOps.rows r.answer = 2 ∧ tableOps.rows r.input = 1

theorem longReply_allowed {s : ScalarDealings (List UInt8) NumberTable} (hs : AnswersLong s)
    (q : Question (List UInt8) NumberTable) :
    (scalarProtocol tableReading twentyOnly (fun _ => True) (columnRows [1, 2])).allows s q (longReply s q) ∧
      AnswersLong (s.after q (longReply s q)) := by
  cases q with
  | acquire key | finish f outcome | wait w => exact ⟨trivial, hs⟩
  | outside q =>
    cases q with
    | template kind =>
      refine ⟨?_, ?_⟩
      · rintro template ⟨⟩
        exact cellKey_stands (by decide)
      · unfold ScalarDealings.after
        dsimp only [longReply]
        split
        · exact hs
        · exact hs
    | get key =>
      refine ⟨?_, hs⟩
      intro entry hentry
      simp only [longReply] at hentry
      split at hentry
      next hkey =>
        cases hentry
        rintro b ⟨⟩ -
        refine ⟨20, rfl, ?_, rfl⟩
        rw [hkey]
        decide +kernel
      next => cases hentry
    | send input =>
      refine ⟨trivial, ?_⟩
      unfold ScalarDealings.after
      dsimp only [longReply]
      by_cases hone : input.rows.length = 1
      · simp only [if_pos hone]
        rintro r ⟨⟩
        exact ⟨rfl, hone⟩
      · simp only [if_neg hone]
        exact hs
    | close =>
      refine ⟨?_, by rintro r ⟨⟩⟩
      rintro - r hr
      obtain ⟨htwo, hone⟩ := hs r hr
      refine ⟨fun hrows => ?_, trivial⟩
      omega
    | getForRevalidation key => exact ⟨by rintro entry ⟨⟩, hs⟩
    | _ => exact ⟨trivial, hs⟩

/-- The second row is returned with 8, the second row of the answer to the first; it was given 20. -/
theorem long_answer_shifts_rows : ∃ trace, Runs (columnCall ⟨false, true⟩ [1, 2]).run trace (.ok [7, 8]) ∧
    (scalarProtocol tableReading twentyOnly (fun _ => True) (columnRows [1, 2])).Allows {} trace ∧
    ¬ Assigned tableReading twentyOnly [[1, 2]] 2 [7, 8] (dealings trace) := by
  have hrun := runs_execute ScalarDealings.after longReply (columnCall ⟨false, true⟩ [1, 2]).run {}
  have hout : (Program.execute ScalarDealings.after longReply (columnCall ⟨false, true⟩ [1, 2]).run {}).2 = .ok [7, 8] := by
    decide +kernel
  rw [hout] at hrun
  refine ⟨_, hrun, ?_, ?_⟩
  · apply allows_execute_of_inv (I := AnswersLong) fun s q hs => longReply_allowed hs q
    rintro r ⟨⟩
  · rintro ⟨hgiven, -⟩
    obtain ⟨-, hrest⟩ := List.forall₂_cons.1 hgiven
    obtain ⟨⟨-, height⟩, -⟩ := List.forall₂_cons.1 hrest
    cases height

/-! ### Six rows, each answered in its own way -/

def tenfoldRow (x : InputRow Nat) : Nat := 10 * (x.headD none).getD 0

def tenfoldHistory : ScalarHistory (List UInt8) Nat :=
  cellHistory (fun x v => v = tenfoldRow x) fun conditions => conditions = (some "v1", none)

/-- 1 is a hit, 2 is stale, 3 is cold, 4 and 5 are claimed elsewhere and 5 is aborted. -/
def tenfoldReply (s : ScalarDealings (List UInt8) NumberTable) : (q : Question (List UInt8) NumberTable) → q.Reply
  | .acquire key =>
    if key = littleEndian 32 4 then .follower 4
    else if key = littleEndian 32 5 then .follower 5
    else .producer 0
  | .finish .. => ⟨⟩
  | .wait w => if w = 4 then .stored else .aborted "producer dropped"
  | .outside .bind => .ok { environmentIneligible := false, secretDependent := false }
  | .outside (.template _) => .ok (some cellKey)
  | .outside (.get key) =>
    if key = littleEndian 32 1 ∨ (s.waited ∧ key = littleEndian 32 4) then
      some { batches := [⟨1, [[tenfoldRow [some (readLittleEndian key)]]]⟩], bytes := 8 }
    else none
  | .outside (.getForRevalidation key) =>
    if key = littleEndian 32 2 then
      some { batches := [⟨1, [[tenfoldRow [some (readLittleEndian key)]]]⟩], bytes := 8, etag := some "v1" }
    else none
  | .outside (.mayServeOnError _) => false
  | .outside (.eligibility ..) => .ok 60
  | .outside (.insert ..) | .outside (.remove _) | .outside (.slide ..) | .outside .notePerValueOptIn => ⟨⟩
  | .outside (.openExchange _) | .outside .close => .ok ⟨⟩
  | .outside (.send input) =>
    if s.conditions = (none, none) then
      .ok (some ⟨1, input.rows.map fun row => [tenfoldRow (row.map some)]⟩, some { policy := "", perValue := true })
    else if s.conditions = (some "v1", none) ∧ s.waited = false then
      .ok (some ⟨1, []⟩, some { policy := "", notModified := true })
    else .error "unused"
  | .outside .bufferingBegin | .outside (.bufferingProcess ..) => .error "unused"
  | .outside (.bufferingCombine ..) => .error "unused"
  | .outside (.bufferingFinalize ..) => .error "unused"
  | .outside .commitAllowed => false
  | .outside .hasPerValueOptIn => true

def AnswersTenfold (s : ScalarDealings (List UInt8) NumberTable) : Prop :=
  ∀ r, s.pending = some r → Gives tableReading tenfoldHistory r ∧ r.InFull tableOps tenfoldHistory

theorem gives_tenfold {conditions : Conditions} {fallback : Bool} {input : NumberTable}
    {control : Option ExchangeControl} : Gives tableReading tenfoldHistory
      ⟨conditions, fallback, input, ⟨1, input.rows.map fun row => [tenfoldRow (row.map some)]⟩, control⟩ := by
  intro _ _
  change List.Forall₂ _ (input.rows.map (·.map some))
    ((input.rows.map fun row => [tenfoldRow (row.map some)]).map (·.headD 0))
  rw [List.map_map, List.forall₂_map_left_iff, List.forall₂_map_right_iff, List.forall₂_same]
  intro row _
  rfl

theorem gives_nothing {conditions : Conditions} {fallback : Bool} {input : NumberTable}
    {control : Option ExchangeControl} : Gives tableReading tenfoldHistory ⟨conditions, fallback, input, ⟨1, []⟩, control⟩ := by
  intro hrows _
  have hnone : input.rows = [] := List.length_eq_zero_iff.1 hrows.symm
  change List.Forall₂ _ (input.rows.map (·.map some)) []
  rw [hnone]
  exact .nil

theorem tenfoldReply_allowed {trust : ScalarReply NumberTable → Prop}
    (htrust : ∀ r, r.InFull tableOps tenfoldHistory → trust r) {xs : List Nat} (hxs : ∀ n ∈ xs, n < 256 ^ 32)
    {s : ScalarDealings (List UInt8) NumberTable} (hs : AnswersTenfold s) (q : Question (List UInt8) NumberTable) :
    (scalarProtocol tableReading tenfoldHistory trust (columnRows xs)).allows s q (tenfoldReply s q) ∧
      AnswersTenfold (s.after q (tenfoldReply s q)) := by
  cases q with
  | acquire key | finish f outcome | wait w => exact ⟨trivial, hs⟩
  | outside q =>
    cases q with
    | template kind =>
      refine ⟨?_, ?_⟩
      · rintro template ⟨⟩
        exact cellKey_stands hxs
      · unfold ScalarDealings.after
        dsimp only [tenfoldReply]
        split
        · exact hs
        · exact hs
    | get key =>
      refine ⟨?_, hs⟩
      intro entry hentry
      simp only [tenfoldReply] at hentry
      split at hentry
      · cases hentry
        rintro b ⟨⟩ -
        exact ⟨_, rfl, rfl⟩
      · cases hentry
    | getForRevalidation key =>
      refine ⟨?_, hs⟩
      intro entry hentry
      simp only [tenfoldReply] at hentry
      split at hentry
      · cases hentry
        refine ⟨?_, rfl⟩
        rintro b ⟨⟩ -
        exact ⟨_, rfl, rfl⟩
      · cases hentry
    | send input =>
      refine ⟨trivial, ?_⟩
      unfold ScalarDealings.after
      dsimp only [tenfoldReply]
      by_cases hplain : s.conditions = (none, none)
      · simp only [if_pos hplain]
        rintro r ⟨⟩
        exact ⟨gives_tenfold, Or.inr (by simp [tableOps])⟩
      · simp only [if_neg hplain]
        by_cases hrefresh : s.conditions = (some "v1", none) ∧ s.waited = false
        · simp only [if_pos hrefresh]
          rintro r ⟨⟩
          exact ⟨gives_nothing, Or.inl ⟨hrefresh.2, hrefresh.1, rfl⟩⟩
        · simp only [if_neg hrefresh]
          exact hs
    | close =>
      refine ⟨?_, by rintro r ⟨⟩⟩
      rintro - r hr
      exact ⟨(hs r hr).1, htrust r (hs r hr).2⟩
    | _ => exact ⟨trivial, hs⟩

theorem scalar_assigned_mixed : ∃ trace,
    Runs (columnCall ⟨true, true⟩ [1, 2, 3, 4, 5, 3]).run trace (.ok [10, 20, 30, 40, 50, 30]) ∧
    Assigned tableReading tenfoldHistory [[1, 2, 3, 4, 5, 3]] 6 [10, 20, 30, 40, 50, 30] (dealings trace) := by
  have hrun := runs_execute ScalarDealings.after tenfoldReply (columnCall ⟨true, true⟩ [1, 2, 3, 4, 5, 3]).run {}
  have hout : (Program.execute ScalarDealings.after tenfoldReply
      (columnCall ⟨true, true⟩ [1, 2, 3, 4, 5, 3]).run {}).2 = .ok [10, 20, 30, 40, 50, 30] := by decide +kernel
  have hfollowers : ∀ r ∈ (dealings (Program.execute ScalarDealings.after tenfoldReply
      (columnCall ⟨true, true⟩ [1, 2, 3, 4, 5, 3]).run {}).1).replies,
      r.fallback = true → tableOps.rows r.answer = tableOps.rows r.input := by decide +kernel
  rw [hout] at hrun
  refine ⟨_, hrun, (scalar_assigned_iff hrun ?_).1 ⟨hfollowers, Or.inl rfl⟩⟩
  have hcells : ∀ n ∈ [1, 2, 3, 4, 5, 3], n < 256 ^ 32 := by decide
  apply allows_execute_of_inv (I := AnswersTenfold) fun s q hs => tenfoldReply_allowed (fun _ _ => trivial) hcells hs q
  rintro r ⟨⟩

end VgiDatafusion
