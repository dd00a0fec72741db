import VgiDatafusion.Cache.DeliveryInvariant

/-!
# Exactly-once delivery

The rows of a finished scan are one cached result through partition 0, or the worker's answers to
every token once (`delivery_exactly_once`), as long as followers agree. `delivery_follower_timeout`
is a run where they do not.
-/
namespace VgiDatafusion

variable {B R : Type}

namespace DeliveryPlan

variable {plan : DeliveryPlan B R} {worker : TokenWorker R} {Stored : List R → Prop} {s : Delivery B}

/-! ## What a finished scan emitted -/

/-- The rows partition `p` emitted. -/
def rowsOf (plan : DeliveryPlan B R) (s : Delivery B) (p : Nat) : List R :=
  match s.phases[p]? with
  | some (.done _ (.ok batches)) => batches.flatMap plan.ops.rows
  | _ => []

/-- Every partition was run to its end and none reported an error. -/
def Finished (plan : DeliveryPlan B R) (s : Delivery B) : Prop :=
  ∀ p < plan.partitions, ∃ route batches, s.phases[p]? = some (.done route (.ok batches))

/-- All rows the scan emitted. -/
def emitted (plan : DeliveryPlan B R) (s : Delivery B) : List R :=
  (List.range plan.partitions).flatMap (plan.rowsOf s)

/-- The partitions' rows are the worker's answers, and every token was redeemed once. -/
def AnsweredOnce (plan : DeliveryPlan B R) (worker : TokenWorker R) (s : Delivery B) : Prop :=
  match plan.groups with
  | some groups => ∃ redeemed : List (List Token), redeemed.length = plan.partitions ∧
      redeemed.flatten = groups.flatten ∧
      ∀ p < plan.partitions, worker.Answers plan.limit (some (redeemed.getD p [])) (plan.rowsOf s p)
  | none => worker.Answers plan.limit none (plan.rowsOf s 0) ∧ ∀ p, 0 < p → plan.rowsOf s p = []

/-- One cached result through partition 0, or the worker's answers; without a limit these are the
worker's rows, each once. -/
def ExactlyOnce (plan : DeliveryPlan B R) (worker : TokenWorker R) (Stored : List R → Prop) (s : Delivery B) : Prop :=
  (Stored (plan.rowsOf s 0) ∧ ∀ p, 0 < p → plan.rowsOf s p = []) ∨
    (plan.AnsweredOnce worker s ∧
      (plan.limit = none → (plan.emitted s).Perm (worker.expected (plan.groups.map List.flatten))))

theorem answers_nil_iff {limit : Option Nat} {rows : List R} : worker.Answers limit (some []) rows ↔ rows = [] := by
  have hcut : cutRows limit ([] : List R) = [] := by
    unfold cutRows
    cases limit <;> simp
  constructor
  · rintro ⟨answer, hperm, rfl⟩
    rw [hperm.eq_nil]
    exact hcut
  · rintro rfl
    exact ⟨[], List.Perm.refl _, hcut.symm⟩

/-- Partition by partition, and then all together. -/
theorem perm_flatten {redeem : Token → List R} : ∀ {redeemed : List (List Token)} {rows : Nat → List R},
    (∀ p < redeemed.length, (rows p).Perm ((redeemed.getD p []).flatMap redeem)) →
      ((List.range redeemed.length).flatMap rows).Perm (redeemed.flatten.flatMap redeem)
  | [], _, _ => List.Perm.refl _
  | tokens :: redeemed, rows, h => by
    rw [List.length_cons, List.range_succ_eq_map, List.flatMap_cons, List.flatMap_map, List.flatten_cons,
      List.flatMap_append]
    refine (h 0 (by simp)).append (perm_flatten fun p hp => ?_)
    exact h (p + 1) (by simp; omega)

/-- Without a limit the answers add up to the worker's rows. -/
theorem emitted_perm (hanswered : plan.AnsweredOnce worker s) (hlimit : plan.limit = none) :
    (plan.emitted s).Perm (worker.expected (plan.groups.map List.flatten)) := by
  unfold AnsweredOnce at hanswered
  rw [hlimit] at hanswered
  unfold emitted
  cases hgroups : plan.groups with
  | some groups =>
    rw [hgroups] at hanswered
    obtain ⟨redeemed, hlength, hflatten, hrows⟩ := hanswered
    have hperm : ((List.range redeemed.length).flatMap (plan.rowsOf s)).Perm (redeemed.flatten.flatMap worker.redeem) := by
      refine perm_flatten fun p hp => ?_
      obtain ⟨answer, hanswer, hcut⟩ := hrows p (by omega)
      rw [hcut]
      exact hanswer
    rw [hlength, hflatten] at hperm
    exact hperm
  | none =>
    rw [hgroups] at hanswered
    obtain ⟨⟨answer, hanswer, hcut⟩, hothers⟩ := hanswered
    obtain ⟨n, hn⟩ := Nat.exists_eq_add_of_lt plan.positive
    rw [hn, Nat.zero_add, List.range_succ_eq_map, List.flatMap_cons, List.flatMap_map]
    have hnone : (List.range n).flatMap (fun p => plan.rowsOf s p.succ) = [] := by
      rw [List.flatMap_eq_nil_iff]
      intro p _
      exact hothers _ (Nat.succ_pos p)
    rw [hnone, List.append_nil, hcut]
    exact hanswer

theorem rowsOf_done {p : Nat} {route : Route} {batches : List B} (h : s.phases[p]? = some (.done route (.ok batches))) :
    plan.rowsOf s p = batches.flatMap plan.ops.rows := by
  unfold rowsOf
  rw [h]

/-- A partition that is not there emitted nothing. -/
theorem rowsOf_beyond (hinv : plan.DeliveryInv worker Stored s) {p : Nat} (hp : plan.partitions ≤ p) :
    plan.rowsOf s p = [] := by
  have hnone : s.phases[p]? = none := List.getElem?_eq_none (by rw [hinv.length]; exact hp)
  unfold rowsOf
  rw [hnone]

/-- What a finished partition emitted, by the way it took. -/
theorem rowsOf_cases (hinv : plan.DeliveryInv worker Stored s) (hdone : plan.Finished s) {p : Nat}
    (hp : p < plan.partitions) :
    ∃ phase, s.phases[p]? = some phase ∧
      ((phase.route = some .cached ∧ if p = 0 then Stored (plan.rowsOf s p) else plan.rowsOf s p = []) ∨
       (phase.route = some .scanned ∧ s.revalidationProbe.isSome = true ∧
        JobDelivers worker Stored (plan.jobConfig p (s.revalidationProbe.getD none)) (plan.rowsOf s p))) := by
  obtain ⟨route, batches, hphase⟩ := hdone p hp
  have hknown := hinv.phases p _ hphase
  refine ⟨_, hphase, ?_⟩
  rw [rowsOf_done hphase]
  cases route with
  | cached =>
    left
    refine ⟨rfl, ?_⟩
    have hstored := hknown.1 batches rfl
    split
    · rename_i hzero
      rw [if_pos hzero] at hstored
      exact hstored
    · rename_i hne
      rw [if_neg hne] at hstored
      rw [hstored]
      rfl
  | scanned =>
    right
    exact ⟨rfl, hknown.2.1, hknown.2.2 batches rfl⟩

/-- Where only the job of partition 0 can emit: it replayed, or answers for all. -/
theorem exactlyOnce_alone (hinv : plan.DeliveryInv worker Stored s) (hdone : plan.Finished s)
    {tokens : Option (List Token)}
    (hdelivers : ∀ p rows, JobDelivers worker Stored (plan.jobConfig p (s.revalidationProbe.getD none)) rows →
      if p = 0 then Stored rows ∨ worker.Answers plan.limit tokens rows else rows = []) :
    (Stored (plan.rowsOf s 0) ∨ worker.Answers plan.limit tokens (plan.rowsOf s 0)) ∧
      ∀ p, 0 < p → plan.rowsOf s p = [] := by
  constructor
  · obtain ⟨phase, -, ⟨-, hrows⟩ | ⟨-, -, hrows⟩⟩ := rowsOf_cases hinv hdone plan.positive
    · rw [if_pos rfl] at hrows
      exact Or.inl hrows
    · have hfirst := hdelivers 0 _ hrows
      rwa [if_pos rfl] at hfirst
  · intro p hpos
    by_cases hp : p < plan.partitions
    · obtain ⟨phase, -, ⟨-, hrows⟩ | ⟨-, -, hrows⟩⟩ := rowsOf_cases hinv hdone hp
      · rwa [if_neg (by omega)] at hrows
      · have hnone := hdelivers p _ hrows
        rwa [if_neg (by omega)] at hnone
    · exact rowsOf_beyond hinv (by omega)

theorem exactlyOnce_plain (hinv : plan.DeliveryInv worker Stored s) (hdone : plan.Finished s)
    (hgroups : plan.groups = none) :
    (Stored (plan.rowsOf s 0) ∧ ∀ p, 0 < p → plan.rowsOf s p = []) ∨ plan.AnsweredOnce worker s := by
  obtain ⟨hfirst, hothers⟩ := exactlyOnce_alone hinv hdone fun p rows h => by
    unfold JobDelivers at h
    rw [show (plan.jobConfig p (s.revalidationProbe.getD none)).groups = none from hgroups] at h
    exact h
  rcases hfirst with hstored | hanswers
  · exact Or.inl ⟨hstored, hothers⟩
  · right
    unfold AnsweredOnce
    rw [hgroups]
    exact ⟨hanswers, hothers⟩

/-- A split scan with a selected stale entry: partition 0 does all the work. -/
theorem exactlyOnce_selected (hinv : plan.DeliveryInv worker Stored s) (hdone : plan.Finished s)
    {groups : List (List Token)} (hgroups : plan.groups = some groups) {entry : Revalidation B}
    (hselected : s.revalidationProbe = some (some entry)) :
    (Stored (plan.rowsOf s 0) ∧ ∀ p, 0 < p → plan.rowsOf s p = []) ∨ plan.AnsweredOnce worker s := by
  obtain ⟨hfirst, hothers⟩ := exactlyOnce_alone hinv hdone fun p rows h => by
    rw [hselected] at h
    unfold JobDelivers at h
    rw [show (plan.jobConfig p ((some (some entry)).getD none)).groups = some groups from hgroups] at h
    exact h
  rcases hfirst with hstored | hanswers
  · exact Or.inl ⟨hstored, hothers⟩
  · right
    unfold AnsweredOnce
    rw [hgroups]
    have hpositive := plan.positive
    refine ⟨groups.flatten :: List.replicate (plan.partitions - 1) [], ?_, ?_, ?_⟩
    · simp
      omega
    · simp
    · intro p hp
      cases p with
      | zero => exact hanswers
      | succ p =>
        have hempty : (List.replicate (plan.partitions - 1) ([] : List Token)).getD p [] = [] := by
          rw [List.getD_eq_getElem?_getD, List.getElem?_replicate]
          split <;> rfl
        rw [hothers _ (Nat.succ_pos p), List.getD_cons_succ, hempty]
        exact answers_nil_iff.2 rfl

/-- A split scan without one: the partitions that matter took one way. -/
theorem exactlyOnce_split (hinv : plan.DeliveryInv worker Stored s) (hdone : plan.Finished s)
    {groups : List (List Token)} (hgroups : plan.groups = some groups) (hselected : s.revalidationProbe.getD none = none) :
    (Stored (plan.rowsOf s 0) ∧ ∀ p, 0 < p → plan.rowsOf s p = []) ∨ plan.AnsweredOnce worker s := by
  have hsplit : plan.groups.isSome = true := by rw [hgroups]; rfl
  have htokens : ∀ p, plan.tokens p = groups.getD p [] := by
    intro p
    unfold tokens
    rw [hgroups]
    rfl
  have hdelivers : ∀ p rows, JobDelivers worker Stored (plan.jobConfig p (s.revalidationProbe.getD none)) rows →
      worker.Answers plan.limit (some (groups.getD p [])) rows := by
    intro p rows h
    rw [hselected] at h
    unfold JobDelivers at h
    rw [show (plan.jobConfig p none).groups = some groups from hgroups] at h
    exact h
  have hnone : s.revalidationProbe.isSome = true → s.revalidationProbe = some none := by
    intro hsome
    obtain ⟨v, hv⟩ := Option.isSome_iff_exists.1 hsome
    rw [hv] at hselected ⊢
    exact congrArg some hselected
  obtain ⟨first, hfirst, ⟨hcached, hrows⟩ | ⟨hscanned, hsome, hrows⟩⟩ := rowsOf_cases hinv hdone plan.positive
  · -- partition 0 replayed: a partition that scanned had nothing to redeem
    left
    rw [if_pos rfl] at hrows
    refine ⟨hrows, ?_⟩
    intro p hpos
    by_cases hp : p < plan.partitions
    · obtain ⟨phase, hphase, ⟨-, hnothing⟩ | ⟨hscanned, hsome, hjob⟩⟩ := rowsOf_cases hinv hdone hp
      · rwa [if_neg (by omega)] at hnothing
      · by_cases hempty : plan.tokens p = []
        · have hanswers := hdelivers p _ hjob
          rw [← htokens, hempty] at hanswers
          exact answers_nil_iff.1 hanswers
        · exact absurd hscanned
            (hinv.agree hsplit (hnone hsome) 0 p first phase (Or.inl rfl) (Or.inr hempty) hfirst hphase hcached)
    · exact rowsOf_beyond hinv (by omega)
  · -- partition 0 scanned: a partition that replayed had nothing to redeem either
    right
    have hanswers : ∀ p < plan.partitions, worker.Answers plan.limit (some (groups.getD p [])) (plan.rowsOf s p) := by
      intro p hp
      obtain ⟨phase, hphase, ⟨hcached, hnothing⟩ | ⟨-, -, hjob⟩⟩ := rowsOf_cases hinv hdone hp
      · by_cases hempty : plan.tokens p = []
        · have hne : p ≠ 0 := by
            rintro rfl
            rw [hfirst] at hphase
            cases hphase
            rw [hcached] at hscanned
            cases hscanned
          rw [if_neg hne] at hnothing
          rw [← htokens, hempty]
          exact answers_nil_iff.2 hnothing
        · exact absurd hscanned
            (hinv.agree hsplit (hnone hsome) p 0 phase first (Or.inr hempty) (Or.inl rfl) hphase hfirst hcached)
      · exact hdelivers p _ hjob
    unfold AnsweredOnce
    rw [hgroups]
    have hcount := plan.split groups hgroups
    cases groups with
    | nil =>
      refine ⟨[[]], by simp [hcount], rfl, ?_⟩
      intro p hp
      have hzero : p = 0 := by
        simp at hcount
        omega
      subst hzero
      exact hanswers 0 hp
    | cons group groups =>
      refine ⟨group :: groups, ?_, rfl, hanswers⟩
      simp at hcount
      simp [hcount]

/-- **Exactly-once delivery**, in every run whose followers agree. -/
theorem delivery_exactly_once
    (h : StepSystem.Reachable plan.step (fun s e => plan.Sound worker Stored e ∧ plan.FollowersAgree s e) plan.init s)
    (hdone : plan.Finished s) : plan.ExactlyOnce worker Stored s := by
  have hinv := delivery_inv h
  have hsource : (Stored (plan.rowsOf s 0) ∧ ∀ p, 0 < p → plan.rowsOf s p = []) ∨ plan.AnsweredOnce worker s := by
    cases hgroups : plan.groups with
    | none => exact exactlyOnce_plain hinv hdone hgroups
    | some groups =>
      cases hselected : s.revalidationProbe.getD none with
      | none => exact exactlyOnce_split hinv hdone hgroups hselected
      | some entry =>
        have hprobe : s.revalidationProbe = some (some entry) := by
          cases hcell : s.revalidationProbe with
          | none => rw [hcell] at hselected; cases hselected
          | some v =>
            rw [hcell] at hselected
            exact congrArg some hselected
        exact exactlyOnce_selected hinv hdone hgroups hprobe
  rcases hsource with hcached | hanswered
  · exact Or.inl hcached
  · exact Or.inr ⟨hanswered, emitted_perm hanswered⟩

end DeliveryPlan

/-! ## Two partitions, one token each -/

def oneTokenEach : DeliveryPlan (List Nat) Nat where
  function := "events"
  ops :=
    { rows := id
      slice := fun batch n => batch.take n
      rows_slice := fun _ _ => rfl
      conform := .ok
      conformStorage := .ok }
  groups := some [[[1]], [[2]]]
  limit := none
  rpcTimeout := true
  partitions := 2
  positive := by decide
  split := by
    intro gs hgs
    cases hgs
    rfl

/-- A token's one row is its byte. -/
def byteRows : TokenWorker Nat where
  redeem token := token.map UInt8.toNat
  whole := [1, 2]

/-- A worker that answers in one batch. -/
def prompt : JobEnv (List Nat) where
  prepared := .ok ()
  validation _ := .error "not asked"
  scan tokens := .ok { batches := [byteRows.expected tokens], control := none }
  freshness _ := .error "no policy"
  maxEntryBytes := 1024
  durable := false
  slides := false
  revalidatesHit := .ok false
  removesHit := .ok ()
  mayServeOnError := false
  takes _ := true

theorem prompt_served : Served byteRows oneTokenEach.ops prompt := by
  refine ⟨fun _ => rfl, ?_⟩
  intro tokens stream hstream
  cases hstream
  refine Or.inl ⟨rfl, [], ?_, fun _ => rfl⟩
  have hrows : [byteRows.expected tokens].flatMap (delivered oneTokenEach.ops) = byteRows.expected tokens := by
    rw [List.flatMap_singleton]
    rfl
  rw [List.append_nil, hrows]

/-- The first polls of both partitions up to the flight: nothing is cached. -/
def missEverything (claim : Claim) : List (DeliveryEvent (List Nat)) :=
  [.execute 0 none none, .execute 1 none none, .lookupDisk 1 none, .lookupDisk 0 none, .lookupStale 0 none,
    .lookupStale 1 none, .select 0 true false, .select 1 true false, .claim 1 claim, .claim 0 claim]

theorem missEverything_sound (claim : Claim) : ∀ e ∈ missEverything claim,
    oneTokenEach.Sound byteRows (· = [1, 2]) e ∧ ∀ s, DeliveryPlan.decides s e = none := by
  simp [missEverything, DeliveryPlan.Sound, DeliveryPlan.decides]

/-- The producer of the flight redeems both tokens, each in its partition. -/
def producerRun : List (DeliveryEvent (List Nat)) :=
  missEverything .producer ++ [.runJob 1 prompt, .runJob 0 prompt]

/-- Two followers: partition 1 gives up waiting and redeems its token, then the flight is stored and
partition 0 replays the whole result. -/
def timeoutRun : List (DeliveryEvent (List Nat)) :=
  missEverything .follower ++ [.timeOut 1, .runJob 1 prompt, .flightEnds true, .observe 0,
    .lookupStored 0 (some { batches := [[1], [2]], bytes := 16 })]

def afterProducerRun : Delivery (List Nat) where
  cacheProbe := some none
  diskProbe := some none
  diskRevalidationProbe := some none
  revalidationProbe := some none
  flight := some .producer
  phases := [.done .scanned (.ok [[1]]), .done .scanned (.ok [[2]])]

def afterTimeoutRun : Delivery (List Nat) where
  cacheProbe := some none
  diskProbe := some none
  diskRevalidationProbe := some none
  revalidationProbe := some none
  flight := some .follower
  flightOutcome := some true
  flightProbe := some (some { batches := [[1], [2]], bytes := 16 })
  phases := [.done .cached (.ok [[1], [2]]), .done .scanned (.ok [[2]])]

theorem finished_two {s : Delivery (List Nat)} {first second : Route} {xs ys : List (List Nat)}
    (h : s.phases = [.done first (.ok xs), .done second (.ok ys)]) : oneTokenEach.Finished s := by
  intro p hp
  have hlt : p < 2 := hp
  rw [h]
  match p, hlt with
  | 0, _ => exact ⟨first, xs, rfl⟩
  | 1, _ => exact ⟨second, ys, rfl⟩

theorem producerRun_reached : StepSystem.Reachable oneTokenEach.step
    (fun s e => oneTokenEach.Sound byteRows (· = [1, 2]) e ∧ oneTokenEach.FollowersAgree s e)
    oneTokenEach.init afterProducerRun := by
  have hok : ∀ e ∈ producerRun, oneTokenEach.Sound byteRows (· = [1, 2]) e ∧ ∀ s, DeliveryPlan.decides s e = none := by
    intro e he
    rcases List.mem_append.1 he with he | he
    · exact missEverything_sound .producer e he
    · simp only [List.mem_cons, List.not_mem_nil, or_false] at he
      rcases he with rfl | rfl
      · exact ⟨prompt_served, fun _ => rfl⟩
      · exact ⟨prompt_served, fun _ => rfl⟩
  refine StepSystem.Reachable.of_run producerRun .init ?_ rfl
  intro e he s
  refine ⟨(hok e he).1, ?_⟩
  intro _ _ p route hdecides
  rw [(hok e he).2 s] at hdecides
  cases hdecides

theorem delivery_exactly_once_producer :
    oneTokenEach.emitted afterProducerRun = [1, 2] ∧
      oneTokenEach.ExactlyOnce byteRows (· = [1, 2]) afterProducerRun :=
  ⟨rfl, DeliveryPlan.delivery_exactly_once producerRun_reached (finished_two rfl)⟩

/-- The second row comes twice. -/
theorem delivery_follower_timeout :
    StepSystem.Reachable oneTokenEach.step (fun _ e => oneTokenEach.Sound byteRows (· = [1, 2]) e)
        oneTokenEach.init afterTimeoutRun ∧
      oneTokenEach.Finished afterTimeoutRun ∧ oneTokenEach.emitted afterTimeoutRun = [1, 2, 2] ∧
        ¬ oneTokenEach.ExactlyOnce byteRows (· = [1, 2]) afterTimeoutRun := by
  refine ⟨StepSystem.Reachable.of_run timeoutRun .init ?_ rfl, finished_two rfl, rfl, ?_⟩
  · intro e he s
    rcases List.mem_append.1 he with he | he
    · exact (missEverything_sound .follower e he).1
    · simp only [List.mem_cons, List.not_mem_nil, or_false] at he
      rcases he with rfl | rfl | rfl | rfl | rfl
      · trivial
      · exact prompt_served
      · trivial
      · trivial
      · intro entry hentry conformed hconformed
        cases hentry
        cases hconformed
        rfl
  · rintro (⟨-, hothers⟩ | ⟨-, hperm⟩)
    · exact absurd (hothers 1 (by decide)) (by decide)
    · exact absurd (hperm rfl).length_eq (by decide)

end VgiDatafusion
