import VgiDatafusion.Sql.Alike
import VgiDatafusion.Sql.Termination

/-!
# SEMI and ANTI joins (session.rs:1727-1746, 1933-1954)

The hook on a SELECT goes through the relations of its FROM list and the joins of each. `normaliseAt` does the same to a
whole tree: the operators that it changes are those of the joins it finds by the way SELECT, FROM list, relation, join, and
the `Stage` says how far on this way a node is. Everything else that the rewrite does commutes with it, so the rewrite is the
one without the hook, normalised (`visit_joins`).
-/
namespace VgiDatafusion.Sql

/-! ## Stages -/

/-- The child of what a node may be. -/
inductive Stage
  | outside
  | ofSelect
  | ofFrom
  | ofRelation

def Stage.below : Stage → Tag → Stage
  | _, .select => ofSelect
  | ofSelect, .selectFrom => ofFrom
  | ofFrom, .tableWithJoins => ofRelation
  | _, _ => outside

def Stage.tagAt : Stage → Tag → Tag
  | ofRelation, .join operator => .join (normaliseOperator operator)
  | _, tag => tag

def normaliseAt (t : Ast) : Stage → Ast :=
  t.fold fun tag _ results stage => .node (stage.tagAt tag) (results.map fun result => result (stage.below tag))

theorem normaliseAt_node (tag : Tag) (cs : List Ast) (stage : Stage) :
    normaliseAt (.node tag cs) stage = .node (stage.tagAt tag) (cs.map fun c => normaliseAt c (stage.below tag)) := by
  rw [normaliseAt, LabelTree.fold_node, List.map_map]
  rfl

theorem normaliseOperator_twice (operator : JoinOperator) :
    normaliseOperator (normaliseOperator operator) = normaliseOperator operator := by
  cases operator <;> rfl

namespace Stage

@[simp] theorem below_select (stage : Stage) : stage.below .select = .ofSelect := by
  cases stage <;> rfl

@[simp] theorem tagAt_outside (tag : Tag) : outside.tagAt tag = tag := rfl

theorem below_outside {tag : Tag} (h : tag ≠ .select) : outside.below tag = .outside := by
  cases tag <;> first | rfl | exact absurd rfl h

theorem tagAt_twice (stage : Stage) (tag : Tag) : stage.tagAt (stage.tagAt tag) = stage.tagAt tag := by
  cases stage with
  | ofRelation =>
    cases tag with
    | join operator => simp only [tagAt, normaliseOperator_twice]
    | _ => rfl
  | _ => rfl

theorem below_tagAt (stage : Stage) (tag : Tag) : stage.below (stage.tagAt tag) = stage.below tag := by
  cases stage with
  | ofRelation => cases tag <;> rfl
  | _ => rfl

/-- Only joins change. -/
theorem tagAt_of_ne (stage : Stage) {tag : Tag} (h : ∀ operator, tag ≠ .join operator) : stage.tagAt tag = tag := by
  cases stage with
  | ofRelation =>
    cases tag with
    | join operator => exact absurd rfl (h operator)
    | _ => rfl
  | _ => rfl

theorem hook_tagAt (stage : Stage) (tag : Tag) : (stage.tagAt tag).hook = tag.hook := by
  cases stage with
  | ofRelation => cases tag <;> rfl
  | _ => rfl

theorem tagAt_ne_select (stage : Stage) {tag : Tag} (h : tag ≠ .select) : stage.tagAt tag ≠ .select := by
  cases stage <;> cases tag <;> first | exact h | exact fun h => by cases h

theorem below_of_hook (stage : Stage) {tag : Tag} (h : tag.hook ≠ .none) (hselect : tag ≠ .select) :
    stage.below tag = .outside := by
  cases stage <;> cases tag <;> first | rfl | exact absurd rfl h | exact absurd rfl hselect

end Stage

/-- What is normalised at a stage, or at the outside and then at a stage, is normalised once. -/
theorem normaliseAt_normaliseAt {t : Ast} {stage stage' : Stage} (h : stage = .outside ∨ stage = stage') :
    normaliseAt (normaliseAt t stage) stage' = normaliseAt t stage' := by
  induction t using LabelTree.induct generalizing stage stage' with
  | h tag cs ih =>
    rw [normaliseAt_node, normaliseAt_node, normaliseAt_node, List.map_map]
    rcases h with rfl | rfl
    · refine congrArg _ (List.map_congr_left fun c hc => ih c hc ?_)
      by_cases hselect : tag = .select
      · exact .inr (by simp [hselect])
      · exact .inl (Stage.below_outside hselect)
    · rw [Stage.tagAt_twice, Stage.below_tagAt]
      exact congrArg _ (List.map_congr_left fun c hc => ih c hc (.inr rfl))

/-! ## Trees that are the same once they are normalised -/

def SameAt (stage : Stage) (t t' : Ast) : Prop := normaliseAt t stage = normaliseAt t' stage

theorem SameAt.of_outside {t t' : Ast} (h : SameAt .outside t t') (stage : Stage) : SameAt stage t t' := by
  unfold SameAt
  rw [← normaliseAt_normaliseAt (t := t) (.inl rfl), ← normaliseAt_normaliseAt (t := t') (.inl rfl), h]

theorem sameAt_normaliseAt (t : Ast) (stage : Stage) : SameAt stage (normaliseAt t stage) t := normaliseAt_normaliseAt (.inr rfl)

theorem sameAt_map {stage : Stage} : ∀ {cs cs' : List Ast},
    cs.map (normaliseAt · stage) = cs'.map (normaliseAt · stage) ↔ List.Forall₂ (SameAt stage) cs cs'
  | [], [] => by simp
  | [], _ :: _ => by simp
  | _ :: _, [] => by simp
  | c :: cs, c' :: cs' => by
    rw [List.map_cons, List.map_cons, List.cons_eq_cons, List.forall₂_cons, sameAt_map]
    rfl

theorem sameAt_node {stage : Stage} {tag tag' : Tag} {cs cs' : List Ast} :
    SameAt stage (.node tag cs) (.node tag' cs') ↔
      stage.tagAt tag = stage.tagAt tag' ∧ List.Forall₂ (SameAt (stage.below tag)) cs cs' := by
  rw [SameAt, normaliseAt_node, normaliseAt_node, LabelTree.node.injEq, ← sameAt_map]
  refine and_congr_right fun htag => ?_
  rw [← Stage.below_tagAt stage tag', ← htag, Stage.below_tagAt]

theorem keepsLabels_sameAt : KeepsLabels (SameAt .outside) where
  refl _ := rfl
  label := by
    rintro ⟨tag, cs⟩ ⟨tag', cs'⟩ h
    exact (sameAt_node.1 h).1.symm
  children := by
    rintro ⟨tag, cs⟩ ⟨tag', cs'⟩ h hselect
    have hcs := (sameAt_node.1 h).2
    have hbelow : Stage.outside.below tag = .outside := Stage.below_outside hselect
    rwa [hbelow] at hcs
  build h := sameAt_node.2 ⟨rfl, h.imp fun _ _ hc => hc.of_outside _⟩

/-! ## What the hook has done -/

/-- The part of the hook that is left at a stage. -/
def hookAt : Stage → Ast → Ast
  | .outside, t => t
  | .ofSelect, t => normaliseFrom t
  | .ofFrom, t => normaliseRelation t
  | .ofRelation, t => normaliseJoin t

/-- The hook has been here. -/
def Ready (stage : Stage) (t : Ast) : Prop := hookAt stage t = t

theorem hookAt_node (stage : Stage) {tag : Tag} (h : tag ≠ .select) (cs : List Ast) :
    hookAt stage (.node tag cs) = .node (stage.tagAt tag) (cs.map (hookAt (stage.below tag))) := by
  have hid : ∀ cs : List Ast, cs.map (hookAt .outside) = cs := List.map_id
  cases stage <;> cases tag <;> first | exact absurd rfl h | rfl | exact congrArg (LabelTree.node _) (hid cs).symm

theorem hookAt_select (stage : Stage) (cs : List Ast) : hookAt stage (.node .select cs) = .node .select cs := by
  cases stage <;> rfl

theorem normaliseAt_hookAt (stage : Stage) (t : Ast) : SameAt stage (hookAt stage t) t := by
  induction t using LabelTree.induct generalizing stage with
  | h tag cs ih =>
    by_cases hselect : tag = .select
    · rw [hselect, hookAt_select]
      rfl
    · rw [hookAt_node stage hselect]
      refine sameAt_node.2 ⟨Stage.tagAt_twice stage tag, ?_⟩
      rw [Stage.below_tagAt, List.forall₂_map_left_iff, List.forall₂_same]
      exact fun c hc => ih c hc _

theorem ready_hookAt (stage : Stage) (t : Ast) : Ready stage (hookAt stage t) := by
  induction t using LabelTree.induct generalizing stage with
  | h tag cs ih =>
    by_cases hselect : tag = .select
    · rw [Ready, hselect, hookAt_select, hookAt_select]
    · rw [Ready, hookAt_node stage hselect, hookAt_node stage (stage.tagAt_ne_select hselect), Stage.tagAt_twice,
        Stage.below_tagAt, List.map_map]
      exact congrArg _ (List.map_congr_left fun c hc => ih c hc _)

theorem ready_outside (t : Ast) : Ready .outside t := rfl

theorem ready_node {stage : Stage} {tag : Tag} (h : tag ≠ .select) {cs : List Ast} :
    Ready stage (.node tag cs) ↔ stage.tagAt tag = tag ∧ ∀ c ∈ cs, Ready (stage.below tag) c := by
  rw [Ready, hookAt_node stage h, LabelTree.node.injEq]
  refine and_congr_right fun _ => ?_
  conv_lhs => rw [← List.map_id cs, List.map_map]
  exact List.map_inj_left

theorem ready_of_hook {stage : Stage} {t : Ast} (h : t.label.hook ≠ .none) : Ready stage t := by
  obtain ⟨tag, cs⟩ := t
  by_cases hselect : tag = .select
  · rw [hselect]
    exact hookAt_select stage cs
  · have hbelow : stage.below tag = .outside := stage.below_of_hook h hselect
    rw [ready_node hselect, hbelow]
    refine ⟨stage.tagAt_of_ne ?_, fun c _ => ready_outside c⟩
    rintro operator rfl
    exact h rfl

/-! ## The scalar macros -/

section
variable {session : SqlSession}

theorem SameAt.hook {stage : Stage} {t t' : Ast} (h : SameAt stage t t') : t'.label.hook = t.label.hook := by
  obtain ⟨tag, cs⟩ := t
  obtain ⟨tag', cs'⟩ := t'
  have htag := congrArg Tag.hook (sameAt_node.1 h).1
  rw [Stage.hook_tagAt, Stage.hook_tagAt] at htag
  exact htag.symm

theorem SameAt.label {stage : Stage} {t t' : Ast} (h : SameAt stage t t') (hhook : t.label.hook ≠ .none) :
    t'.label = t.label := by
  have hhook' : t'.label.hook ≠ .none := by
    rw [h.hook]
    exact hhook
  have hjoin : ∀ {tag : Tag}, tag.hook ≠ .none → ∀ operator, tag ≠ .join operator := by
    rintro _ h operator rfl
    exact h rfl
  obtain ⟨tag, cs⟩ := t
  obtain ⟨tag', cs'⟩ := t'
  have htag := (sameAt_node.1 h).1
  rw [LabelTree.label_node] at hhook hhook'
  rw [stage.tagAt_of_ne (hjoin hhook), stage.tagAt_of_ne (hjoin hhook')] at htag
  exact htag.symm

/-- On expressions and relations the stages agree. -/
theorem SameAt.outside {stage : Stage} {t t' : Ast} (h : SameAt stage t t') (hhook : t.label.hook ≠ .none)
    (hselect : t.label ≠ .select) : SameAt .outside t t' := by
  have hlabel := h.label hhook
  obtain ⟨tag, cs⟩ := t
  obtain ⟨tag', cs'⟩ := t'
  obtain rfl : tag' = tag := hlabel
  have hcs := (sameAt_node.1 h).2
  rw [LabelTree.label_node] at hhook hselect
  rw [stage.below_of_hook hhook hselect] at hcs
  refine sameAt_node.2 ⟨rfl, ?_⟩
  rwa [Stage.below_outside hselect]

theorem SameAt.of_expr {stage : Stage} {t t' : Ast} (h : SameAt stage t t') (hexpr : t.label.hook = .expr) :
    SameAt .outside t t' := by
  refine h.outside (by simp [hexpr]) fun hselect => ?_
  rw [hselect] at hexpr
  cases hexpr

theorem scalarCall_sameAt {stage : Stage} {t t' : Ast} (h : SameAt stage t t') :
    Follows Never (Option.Rel (CallRel (SameAt .outside))) (scalarCall session t) (scalarCall session t') := by
  by_cases hexpr : t.label.hook = .expr
  · exact scalarCall_alike keepsLabels_sameAt (h.of_expr hexpr)
  · have hnone : ∀ u : Ast, u.label.hook ≠ .expr → scalarCall session u = .ok none := by
      intro u hu
      rcases scalarCall_cases session u with ⟨-, hnone⟩ | ⟨hcall, -⟩
      · exact hnone
      · exact absurd (hook_of_isScalarCall hcall) hu
    rw [hnone t hexpr, hnone t' (h.hook ▸ hexpr)]
    exact .ok .none

theorem visit_expandNested_sameAt (n : Nat) (active : List Chars) {stage : Stage} {t t' : Ast} (h : SameAt stage t t') :
    Follows Never (SameAt stage) (Visitor.visit .outOfDepth (expandNested session) n active t)
      (Visitor.visit .outOfDepth (expandNested session) n active t') := by
  refine Visitor.visit_follows Never (.inl rfl) (I := fun stage s s' t t' => s = s' ∧ SameAt stage t t')
    (J := fun stage j s s' t t' => s = s' ∧ j = stage.below t.label ∧ SameAt stage t t') (R := SameAt)
    ?_ ?_ ?_ n stage active active t t' ⟨rfl, h⟩
  · rintro stage _ s _ ⟨tag, cs⟩ ⟨tag', cs'⟩ ⟨rfl, rfl, h⟩
    exact (sameAt_node.1 h).2.imp fun _ _ hc => ⟨rfl, hc⟩
  · rintro stage s _ t t' ⟨rfl, h⟩
    exact .ok ⟨_, rfl, rfl, h⟩
  · rintro n stage _ s _ ⟨tag, fields⟩ ⟨tag', fields'⟩ cs cs' ⟨rfl, rfl, h⟩ hcs
    have hnode : SameAt stage (.node tag cs) (.node tag' cs') := sameAt_node.2 ⟨(sameAt_node.1 h).1, hcs⟩
    refine (scalarCall_sameAt hnode).bind fun call call' _ hcall => ?_
    rcases optionRel_cases hcall with ⟨rfl, rfl⟩ | ⟨⟨key, body⟩, ⟨_, body'⟩, rfl, rfl, rfl, hbody⟩
    · exact .ok (.done hnode)
    · refine (Follows.refl (enterScalar s key)).bind fun s' _ _ hs' => ?_
      subst hs'
      exact .ok (.again ⟨rfl, SameAt.of_outside hbody stage⟩)

theorem expandScalarMacro_sameAt (n : Nat) (active : List Chars) {stage : Stage} {t t' : Ast} (h : SameAt stage t t') :
    Follows Never (Option.Rel (SameAt .outside)) (expandScalarMacro session n active t)
      (expandScalarMacro session n active t') := by
  refine (scalarCall_sameAt h).bind fun call call' _ hcall => ?_
  rcases optionRel_cases hcall with ⟨rfl, rfl⟩ | ⟨⟨key, body⟩, ⟨_, body'⟩, rfl, rfl, rfl, hbody⟩
  · exact .ok .none
  · refine (Follows.refl (enterScalar active key)).bind fun active' _ _ hactive => ?_
    subst hactive
    exact (visit_expandNested_sameAt n active' hbody).bind fun u u' _ hu => .ok (.some hu)

/-! ## The rewrite without the hook -/

theorem normaliseAt_addRowWitness (t : Ast) :
    normaliseAt (addRowWitness t) .outside = addRowWitness (normaliseAt t .outside) := by
  obtain ⟨tag, cs⟩ := t
  cases tag with
  | arguments => cases cs <;> rfl
  | _ => rfl

/-- Row witnesses go with every stage. -/
theorem witnessRows_normaliseAt (stage : Stage) (t : Ast) :
    witnessRows session (normaliseAt t stage) = normaliseAt (witnessRows session t) stage := by
  obtain ⟨tag, cs⟩ := t
  cases tag with
  | function name =>
    have hnode : ∀ cs, normaliseAt (.node (.function name) cs) stage =
        .node (.function name) (cs.map fun c => normaliseAt c .outside) := by
      intro cs
      rw [normaliseAt_node, stage.tagAt_of_ne (by simp), stage.below_of_hook (by simp [Tag.hook]) (by simp)]
    simp only [hnode, witnessRows]
    split
    · rw [hnode, List.map_map, List.map_map]
      exact congrArg _ (List.map_congr_left fun c _ => (normaliseAt_addRowWitness c).symm)
    · rw [hnode]
  | _ => cases stage <;> rfl

variable (session) in
/-- The rewrite, but for the hook on SELECT. -/
def rewriteKeepingJoins : Visitor (List Chars) Tag Failure where
  pre := Rewrite.preVisitTableFactor session
  post := Rewrite.postVisitExpr session

/-- Where the children of two nodes are visited, one normalised by the hook. -/
structure Entered (stage j : Stage) (active active' : List Chars) (t t' : Ast) : Prop where
  active : active = active'
  below : j = stage.below t.label
  label : t.label = stage.tagAt t'.label
  children : List.Forall₂ (fun c c' => SameAt j c c' ∧ Ready j c) t.children t'.children

theorem enter_select (stage : Stage) (active : List Chars) {cs cs' : List Ast}
    (h : SameAt stage (.node .select cs) (.node .select cs')) :
    Entered stage .ofSelect active active (.node .select (cs.map normaliseFrom)) (.node .select cs') := by
  have hcs := (sameAt_node.1 h).2
  rw [Stage.below_select] at hcs
  refine ⟨rfl, stage.below_select.symm, (stage.tagAt_of_ne (by simp)).symm, ?_⟩
  rw [LabelTree.children_node, List.forall₂_map_left_iff]
  exact hcs.imp fun c c' hc => ⟨(normaliseAt_hookAt .ofSelect c).trans hc, ready_hookAt .ofSelect c⟩

theorem enter_other {stage : Stage} (active : List Chars) {tag : Tag} (htag : tag ≠ .select) {cs : List Ast} {t' : Ast}
    (h : SameAt stage (.node tag cs) t') (hready : Ready stage (.node tag cs)) :
    Entered stage (stage.below tag) active active (.node tag cs) t' := by
  obtain ⟨tag', cs'⟩ := t'
  obtain ⟨hlabel, hcs⟩ := sameAt_node.1 h
  obtain ⟨hown, hchildren⟩ := (ready_node htag).1 hready
  exact ⟨rfl, rfl, hown.symm.trans hlabel, ((List.forall₂_and_left _ _).2 ⟨hchildren, hcs⟩).imp fun _ _ hc => ⟨hc.2, hc.1⟩⟩

theorem enter {stage : Stage} (active : List Chars) {t t' : Ast} (h : SameAt stage t t') (hready : Ready stage t) :
    Follows Never (fun p p' => ∃ j, Entered stage j p.1 p'.1 p.2 p'.2) ((rewrite session).pre active t)
      ((rewriteKeepingJoins session).pre active t') := by
  obtain ⟨tag, cs⟩ := t
  by_cases hselect : tag = .select
  · subst hselect
    have hlabel := h.label (by simp [Tag.hook])
    obtain ⟨tag', cs'⟩ := t'
    obtain rfl : tag' = .select := hlabel
    exact .ok ⟨_, enter_select stage active h⟩
  by_cases htable : ∃ name, tag = .table name
  · obtain ⟨name, rfl⟩ := htable
    obtain ⟨cs', rfl, hcs⟩ := keepsLabels_sameAt.node (h.outside (by simp [Tag.hook]) (by simp)) (by simp)
    refine (preVisitTableFactor_alike keepsLabels_sameAt active hcs).mono ?_
    rintro ⟨active', ⟨tag, cs⟩⟩ ⟨_, u'⟩ hpre ⟨rfl, hu⟩
    have hpre : (rewrite session).pre active (.node (.table name) _) = .ok (active', .node tag cs) := hpre
    have hhook : tag.hook = .tableFactor := (pre_sameSort hpre).1
    have htag : tag ≠ .select := by
      rintro rfl
      cases hhook
    exact ⟨_, enter_other active' htag (SameAt.of_outside hu stage) (ready_of_hook (by simp [hhook]))⟩
  · have hother : ∀ name, tag ≠ .table name := fun name h => htable ⟨name, h⟩
    have hother' : ∀ name, t'.label ≠ .table name := by
      intro name hname
      have hback := SameAt.label (Eq.symm h) (by simp [hname, Tag.hook])
      exact hother name (hback.trans hname)
    have hpre' : (rewriteKeepingJoins session).pre active t' = .ok (active, t') := by
      obtain ⟨tag', cs'⟩ := t'
      cases tag' with
      | table name => exact absurd rfl (hother' name)
      | _ => rfl
    rw [pre_other hselect hother, hpre']
    exact .ok ⟨_, enter_other active hselect h hready⟩

theorem hook_of_expanded {n : Nat} {t u : Ast} (h : expandScalarMacro session n [] t = .ok (some u)) :
    u.label.hook = .expr := by
  rcases expandScalarMacro_cases session n t with ⟨-, hnone⟩ | ⟨-, ⟨e, herror⟩ | ⟨v, hv, -, hhook⟩⟩
  · rw [hnone] at h
    cases h
  · rw [herror] at h
    cases h
  · rw [hv] at h
    cases h
    exact hhook

/-- A normalised node is left as the node is, normalised. -/
theorem leave (n : Nat) (stage : Stage) (active : List Chars) (t : Ast) :
    Follows Never
      (Visitor.NextRel (fun s s' u u' => s = s' ∧ SameAt stage u u' ∧ Ready stage u) fun u u' => u = normaliseAt u' stage)
      ((rewrite session).post n active (normaliseAt t stage)) ((rewriteKeepingJoins session).post n active t) := by
  refine (expandScalarMacro_sameAt n [] (sameAt_normaliseAt t stage)).bind fun u u' hu huu => ?_
  rcases optionRel_cases huu with ⟨rfl, rfl⟩ | ⟨v, v', rfl, rfl, hv⟩
  · exact .ok (.done (witnessRows_normaliseAt stage t))
  · exact .ok (.again ⟨rfl, SameAt.of_outside hv stage, ready_of_hook (by simp [hook_of_expanded hu])⟩)

theorem visit_joins (n : Nat) {stage : Stage} (active : List Chars) {t t' : Ast} (h : SameAt stage t t') (hready : Ready stage t) :
    Follows Never (fun u u' => u = normaliseAt u' stage) (Visitor.visit .outOfDepth (rewrite session) n active t)
      (Visitor.visit .outOfDepth (rewriteKeepingJoins session) n active t') := by
  refine Visitor.visit_follows Never (.inl rfl) (I := fun stage s s' t t' => s = s' ∧ SameAt stage t t' ∧ Ready stage t)
    (J := Entered) (R := fun stage u u' => u = normaliseAt u' stage) ?_ ?_ ?_ n stage active active t t' ⟨rfl, h, hready⟩
  · rintro stage j s s' t t' h
    exact h.children.imp fun _ _ hc => ⟨h.active, hc⟩
  · rintro stage s _ t t' ⟨rfl, h, hready⟩
    exact enter s h hready
  · rintro n stage j s _ ⟨tag, fields⟩ ⟨tag', fields'⟩ cs cs' ⟨rfl, rfl, hlabel, -⟩ hcs
    have hbelow : stage.below tag = stage.below tag' := by
      rw [show tag = stage.tagAt tag' from hlabel, Stage.below_tagAt]
    have hmap : cs = cs'.map fun c => normaliseAt c (stage.below tag) := by
      rw [← List.forall₂_eq_eq_eq, List.forall₂_map_right_iff]
      exact hcs
    have hnode : LabelTree.node tag cs = normaliseAt (.node tag' cs') stage := by
      rw [normaliseAt_node, ← hbelow, ← show tag = stage.tagAt tag' from hlabel, ← hmap]
    rw [LabelTree.label_node, hnode]
    exact leave n stage s (.node tag' cs')

/-! ## Bare joins -/

def Tag.isBareJoin : Tag → Bool
  | join .semi | join .anti => true
  | _ => false

/-- No join is left without a direction. -/
def NoBareJoin : Ast → Prop := LabelTree.Everywhere fun t => t.label.isBareJoin = false

/-- Every bare join is one of the joins of a relation in the FROM list of a SELECT. -/
def BareInFromLists (t : Ast) : Stage → Prop :=
  t.fold fun tag _ results stage => (tag.isBareJoin = true → stage = .ofRelation) ∧ ∀ result ∈ results, result (stage.below tag)

theorem bareInFromLists_node {tag : Tag} {cs : List Ast} {stage : Stage} :
    BareInFromLists (.node tag cs) stage ↔
      (tag.isBareJoin = true → stage = .ofRelation) ∧ ∀ c ∈ cs, BareInFromLists c (stage.below tag) := by
  rw [BareInFromLists, LabelTree.fold_node, List.forall_mem_map]
  rfl

theorem isBareJoin_tagAt (stage : Stage) (tag : Tag) :
    (stage.tagAt tag).isBareJoin = false ↔ (tag.isBareJoin = true → stage = .ofRelation) := by
  cases stage <;> cases tag with
  | join operator => cases operator <;> simp [Stage.tagAt, Tag.isBareJoin, normaliseOperator]
  | _ => simp [Stage.tagAt, Tag.isBareJoin]

/-- What is normalised has no bare join exactly if all of them were in FROM lists. -/
theorem noBareJoin_normaliseAt {t : Ast} {stage : Stage} : NoBareJoin (normaliseAt t stage) ↔ BareInFromLists t stage := by
  induction t using LabelTree.induct generalizing stage with
  | h tag cs ih =>
    rw [normaliseAt_node, NoBareJoin, LabelTree.everywhere_node, bareInFromLists_node, List.forall_mem_map]
    exact and_congr (isBareJoin_tagAt stage tag) (forall₂_congr fun c hc => ih c hc)

/-! ## What is put together of trees with their bare joins in FROM lists -/

/-- On expressions and relations the stages agree. -/
theorem bareInFromLists_of_hook {t : Ast} (h : t.label.hook ≠ .none) {stage stage' : Stage} (ht : BareInFromLists t stage) :
    BareInFromLists t stage' := by
  obtain ⟨tag, cs⟩ := t
  rw [LabelTree.label_node] at h
  have hbelow : stage'.below tag = stage.below tag := by
    by_cases hselect : tag = .select
    · rw [hselect, Stage.below_select, Stage.below_select]
    · rw [stage.below_of_hook h hselect, stage'.below_of_hook h hselect]
  rw [bareInFromLists_node] at ht ⊢
  rw [hbelow]
  refine ⟨fun hbare => ?_, ht.2⟩
  cases tag with
  | join operator => exact absurd rfl h
  | _ => cases hbare

theorem bareInFromLists_subtree {s t : Ast} (hsub : LabelTree.Subtree s t) (hs : s.label.hook ≠ .none) {stage : Stage}
    (ht : BareInFromLists t stage) : BareInFromLists s .outside := by
  induction hsub generalizing stage with
  | refl => exact bareInFromLists_of_hook hs ht
  | child hmem _ ih => exact ih ((bareInFromLists_node.1 ht).2 _ hmem)

theorem BareInFromLists.expr {e : Expr} {stage : Stage} (h : BareInFromLists e.1 stage) (stage' : Stage) :
    BareInFromLists e.1 stage' := bareInFromLists_of_hook (by simp [hook_of_isExpr e.2]) h

theorem labelled_ok {label : Option Chars} {arg : Ast} {name : ObjectName} {form : Argument}
    (h : labelled session name label arg = .ok form) : form.2.1 = arg := by
  unfold labelled asExpr at h
  split at h
  · rename_i e he
    split at he
    · cases he
      cases h
      rfl
    · cases he
  · cases h

/-- The value of an argument is a part of it. -/
theorem readArgument_subtree {name : ObjectName} {parameters : List Chars} {a : Ast} {form : Argument}
    (h : readArgument session name parameters a = .ok form) : LabelTree.Subtree form.2.1 a := by
  unfold readArgument at h
  split at h
  · rw [labelled_ok h]
    exact .child List.mem_cons_self .refl
  · rw [labelled_ok h]
    exact .child (List.mem_cons_of_mem _ List.mem_cons_self) .refl
  · cases h
  · split at h
    · rw [labelled_ok h]
      exact .child List.mem_cons_self (.child (List.mem_cons_of_mem _ List.mem_cons_self) .refl)
    · rw [labelled_ok h]
      exact .child List.mem_cons_self .refl
  · rw [labelled_ok h]
    exact .child List.mem_cons_self .refl
  · cases h

/-- What a parameter is given comes from an argument or is its default. -/
theorem bindMacroArguments_origin {name : ObjectName} {info : SqlMacro} {arguments : List Ast} {actual : List Expr}
    (h : bindMacroArguments session name info arguments = .ok actual) {e : Expr} (he : e ∈ actual) :
    (∃ a ∈ arguments, LabelTree.Subtree e.1 a) ∨ ∃ parameter, info.defaults parameter = some (.ok e) := by
  obtain ⟨forms, hforms, -, hbound⟩ := (bindMacroArguments_ok_iff info arguments actual).1 h
  have hmem : some e ∈ info.parameters.mapIdx (boundTo info forms) := by
    rw [hbound]
    exact List.mem_map_of_mem he
  obtain ⟨index, hindex, hvalue⟩ := List.mem_mapIdx.1 hmem
  rw [boundTo, Option.or_eq_some_iff] at hvalue
  rcases hvalue with hgiven | ⟨-, hdefault⟩
  · left
    have hzip := ListFacts.mem_of_lookup hgiven
    obtain ⟨form, hform, rfl⟩ := List.mem_map.1 (List.of_mem_zip hzip).2
    obtain ⟨a, ha, hread⟩ := ListFacts.forall₂_mem_right hforms hform
    exact ⟨a, ha, readArgument_subtree hread⟩
  · right
    refine ⟨lower info.parameters[index], ?_⟩
    unfold defaultOf at hdefault
    split at hdefault
    · cases hdefault
      assumption
    · cases hdefault

/-- The bare joins of a macro are in FROM lists. -/
structure SqlMacro.JoinsInFromLists (info : SqlMacro) : Prop where
  scalar : ∀ template, info.body = .scalar template → BareInFromLists template.1 .outside
  table : ∀ template, info.body = .table template → BareInFromLists template.1 .outside
  defaults : ∀ parameter e, info.defaults parameter = some (.ok e) → BareInFromLists e.1 .outside

variable (session) in
/-- The bare joins of all macros of the session are. -/
def SqlSession.JoinsInFromLists : Prop := ∀ entry ∈ session.macros, ∀ info ∈ entry.2, info.JoinsInFromLists

/-- An overload comes from the family, and what it is given from the call and the macro. -/
theorem bareInFromLists_bound {name : ObjectName} {family : List SqlMacro} {kind : SqlMacroKind} {arguments : List Ast}
    {info : SqlMacro} {actual : List Expr} (hfamily : ∀ info ∈ family, info.JoinsInFromLists)
    (harguments : ∀ a ∈ arguments, BareInFromLists a .outside)
    (h : bindMacroOverload session name family kind arguments = .ok (info, actual)) :
    info.JoinsInFromLists ∧ ∀ e ∈ actual, BareInFromLists e.1 .outside := by
  rw [bindMacroOverload_ok_iff] at h
  have hmem : (info, actual) ∈ (family.filter (·.kind = kind)).filterMap fun candidate =>
      (bindMacroArguments session name candidate arguments).toOption.map (candidate, ·) := by simp [h]
  obtain ⟨_, hcandidate, hbind⟩ := List.mem_filterMap.1 hmem
  obtain ⟨_, hactual', hpair⟩ := Option.map_eq_some_iff.1 hbind
  cases hpair
  have hinfo := hfamily info (List.mem_of_mem_filter hcandidate)
  refine ⟨hinfo, fun e he => ?_⟩
  cases hbinding : bindMacroArguments session name info arguments with
  | error text =>
    rw [hbinding] at hactual'
    cases hactual'
  | ok bound =>
    rw [hbinding] at hactual'
    cases hactual'
    rcases bindMacroArguments_origin hbinding he with ⟨a, ha, hsub⟩ | ⟨parameter, hdefault⟩
    · exact bareInFromLists_subtree hsub (by simp [hook_of_isExpr e.2]) (harguments a ha)
    · exact hinfo.defaults parameter e hdefault

theorem bareInFromLists_substituteMacro {parameters : List Chars} {actual : List Expr}
    (hactual : ∀ e ∈ actual, BareInFromLists e.1 .outside) (body : Ast) :
    ∀ stage, BareInFromLists body stage → BareInFromLists (substituteMacro parameters actual body) stage := by
  induction body using LabelTree.induct with
  | h tag cs ih =>
    intro stage h
    by_cases htag : ∃ ident, tag = .identifier ident
    · obtain ⟨ident, rfl⟩ := htag
      rw [substituteMacro_identifier]
      cases hargument : argumentFor parameters actual ident with
      | none => exact bareInFromLists_node.2 ⟨fun hbare => (by cases hbare), by simp⟩
      | some value =>
        obtain ⟨index, -, hvalue⟩ := Option.bind_eq_some_iff.1 hargument
        obtain ⟨e, he, rfl⟩ := Option.map_eq_some_iff.1 hvalue
        exact (hactual e (List.mem_of_getElem? he)).expr stage
    · have hother : ∀ ident, tag ≠ .identifier ident := fun ident h => htag ⟨ident, h⟩
      rw [substituteMacro_node hother, bareInFromLists_node, List.forall_mem_map]
      rw [bareInFromLists_node] at h
      exact ⟨h.1, fun c hc => ih c hc _ (h.2 c hc)⟩

theorem onlyArguments_ok {name : ObjectName} {fields arguments : List Ast}
    (h : onlyArguments session name fields = .ok arguments) : fields = [.node .arguments arguments] := by
  by_cases hone : ∃ arguments, fields = [.node .arguments arguments]
  · obtain ⟨arguments', rfl⟩ := hone
    cases h
    rfl
  · rw [onlyArguments_other fun arguments heq => hone ⟨arguments, heq⟩] at h
    simp only at h
    split at h <;> cases h

theorem mem_of_argumentsOf {fields arguments : List Ast} (h : argumentsOf fields = some arguments) :
    .node .arguments arguments ∈ fields := by
  obtain ⟨⟨tag, cs⟩, hmem, hlabel⟩ := List.exists_of_findSome?_eq_some h
  split at hlabel
  · rename_i htag
    cases hlabel
    obtain rfl : tag = .arguments := htag
    exact hmem
  · cases hlabel

theorem arguments_joinsInFromLists {arguments : List Ast} {stage : Stage}
    (h : BareInFromLists (.node .arguments arguments) stage) : ∀ a ∈ arguments, BareInFromLists a .outside := by
  have hbelow : stage.below .arguments = .outside := by cases stage <;> rfl
  rw [bareInFromLists_node, hbelow] at h
  exact h.2

section
variable (hsession : session.JoinsInFromLists)
include hsession

theorem family_joinsInFromLists {name : ObjectName} {family : List SqlMacro} (h : session.lookupMacro name = some family) :
    ∀ info ∈ family, info.JoinsInFromLists := by
  obtain ⟨key, -, hlookup⟩ := Option.bind_eq_some_iff.1 h
  exact hsession (key, family) (ListFacts.mem_of_lookup hlookup)

theorem bareInFromLists_scalarCall {t : Ast} {key : Chars} {body : Expr} (h : scalarCall session t = .ok (some (key, body)))
    {stage : Stage} (ht : BareInFromLists t stage) : BareInFromLists body.1 .outside := by
  obtain ⟨tag, fields⟩ := t
  cases tag with
  | function name =>
    simp only [scalarCall] at h
    split at h
    · rename_i family _ hlookup
      obtain ⟨_, hopen, hpair⟩ := except_of_map_ok h
      cases hpair
      have hopen := except_of_mapError_ok hopen
      obtain ⟨arguments, harguments, hopen⟩ := except_of_bind_ok hopen
      obtain ⟨⟨info, actual⟩, hbind, hbody⟩ := except_of_bind_ok hopen
      obtain rfl := onlyArguments_ok harguments
      have hgiven := arguments_joinsInFromLists ((bareInFromLists_node.1 ht).2 _ List.mem_cons_self)
      obtain ⟨hinfo, hactual⟩ := bareInFromLists_bound (family_joinsInFromLists hsession hlookup) hgiven hbind
      cases htemplate : info.body with
      | scalar template =>
        simp only [htemplate] at hbody
        cases hbody
        exact bareInFromLists_substituteMacro hactual template.1 _ (hinfo.scalar template htemplate)
      | table _ =>
        simp only [htemplate] at hbody
        cases hbody
      | invalid _ =>
        simp only [htemplate] at hbody
        cases hbody
    · cases h
  | _ => cases h

theorem bareInFromLists_expandTableMacro {t u : Ast} (h : expandTableMacro session t = .ok (some u)) {stage : Stage}
    (ht : BareInFromLists t stage) : BareInFromLists u stage := by
  obtain ⟨tag, fields⟩ := t
  cases tag with
  | table name =>
    simp only [expandTableMacro] at h
    split at h
    · rename_i arguments family hargs hlookup
      obtain ⟨u', hopen, hu⟩ := except_of_map_ok h
      cases hu
      have hopen := except_of_mapError_ok hopen
      obtain ⟨-, -, hopen⟩ := except_of_bind_ok hopen
      obtain ⟨⟨info, actual⟩, hbind, hbody⟩ := except_of_bind_ok hopen
      have hfields := (bareInFromLists_node.1 ht).2
      have hgiven := arguments_joinsInFromLists (hfields _ (mem_of_argumentsOf hargs))
      obtain ⟨hinfo, hactual⟩ := bareInFromLists_bound (family_joinsInFromLists hsession hlookup) hgiven hbind
      cases htemplate : info.body with
      | table template =>
        simp only [htemplate] at hbody
        cases hbody
        have hbelow : ∀ tag : Tag, tag.hook = .tableFactor → stage.below tag = .outside := fun tag htag =>
          stage.below_of_hook (by simp [htag]) (by rintro rfl; cases htag)
        rw [hbelow _ rfl] at hfields
        rw [bareInFromLists_node, hbelow _ rfl, List.forall_mem_cons]
        refine ⟨fun hbare => (by cases hbare), ?_, fun c hc => hfields c (List.mem_of_mem_filter hc)⟩
        exact bareInFromLists_substituteMacro hactual template.1 _ (hinfo.table template htemplate)
      | scalar _ =>
        simp only [htemplate] at hbody
        cases hbody
      | invalid _ =>
        simp only [htemplate] at hbody
        cases hbody
    · cases h
  | _ => cases h

omit hsession in
/-- A node is as good as its children. -/
theorem bareInFromLists_children {t : Ast} {cs : List Ast}
    (hcs : List.Forall₂ (fun c c' => ∀ stage, BareInFromLists c stage → BareInFromLists c' stage) t.children cs)
    {stage : Stage} (ht : BareInFromLists t stage) : BareInFromLists (.node t.label cs) stage := by
  obtain ⟨tag, children⟩ := t
  rw [bareInFromLists_node] at ht
  rw [LabelTree.label_node, bareInFromLists_node]
  refine ⟨ht.1, fun c' hc' => ?_⟩
  obtain ⟨c, hc, hcc⟩ := ListFacts.forall₂_mem_right hcs hc'
  exact hcc _ (ht.2 c hc)

theorem bareInFromLists_expandNested {n : Nat} {active : List Chars} {t u : Ast}
    (h : Visitor.visit .outOfDepth (expandNested session) n active t = .ok u) :
    ∀ stage, BareInFromLists t stage → BareInFromLists u stage := by
  refine Visitor.visit_ok (Q := fun _ t u => ∀ stage, BareInFromLists t stage → BareInFromLists u stage) ?_ ?_ n active t u h
  · intro n active t _ _ cs u hpre hcs hpost stage ht
    cases hpre
    rcases postNested_cases n active (.node t.label cs) with ⟨-, h⟩ | ⟨_, h⟩ | ⟨_, h⟩ | ⟨_, _, -, -, -, h⟩
    · rw [h] at hpost
      cases hpost
      exact bareInFromLists_children hcs ht
    · rw [h] at hpost
      cases hpost
    · rw [h] at hpost
      cases hpost
    · rw [h] at hpost
      cases hpost
  · intro n active t _ _ cs active' u r hpre hcs hpost hr stage ht
    cases hpre
    rcases postNested_cases n active (.node t.label cs) with ⟨-, h⟩ | ⟨_, h⟩ | ⟨_, h⟩ | ⟨_, body, -, -, hcall, h⟩
    · rw [h] at hpost
      cases hpost
    · rw [h] at hpost
      cases hpost
    · rw [h] at hpost
      cases hpost
    · rw [h] at hpost
      cases hpost
      exact hr stage ((bareInFromLists_scalarCall hsession hcall (bareInFromLists_children hcs ht)).expr stage)

theorem bareInFromLists_expandScalarMacro {n : Nat} {t u : Ast} (h : expandScalarMacro session n [] t = .ok (some u))
    {stage : Stage} (ht : BareInFromLists t stage) : BareInFromLists u stage := by
  obtain ⟨call, hcall, h⟩ := except_of_bind_ok h
  cases call with
  | none => cases h
  | some call =>
    obtain ⟨key, body⟩ := call
    obtain ⟨active, -, h⟩ := except_of_bind_ok h
    obtain ⟨v, hvisit, h⟩ := except_of_bind_ok h
    cases h
    exact bareInFromLists_expandNested hsession hvisit stage ((bareInFromLists_scalarCall hsession hcall ht).expr stage)

omit hsession in
theorem bareInFromLists_namedArgument {functionName : Chars} {a value : Ast} {name : Chars}
    (h : namedArgument session functionName a = some (name, value)) (ha : BareInFromLists a .outside) :
    BareInFromLists value .outside := by
  unfold namedArgument at h
  split at h
  · split at h
    · cases h
      simpa [bareInFromLists_node, Stage.below, Tag.isBareJoin] using ha
    · cases h
  · split at h
    · cases h
      simp only [bareInFromLists_node, List.forall_mem_cons] at ha
      exact ha.2.2.1
    · cases h
  · split at h
    · cases h
      simp only [bareInFromLists_node, List.forall_mem_cons] at ha
      exact ha.2.1.2.2.1
    · cases h
  · cases h

omit hsession in
theorem bareInFromLists_rewriteArguments (functionName : Chars) {t : Ast} (ht : BareInFromLists t .outside) :
    BareInFromLists (rewriteArguments session functionName t) .outside := by
  unfold rewriteArguments
  split
  · have hgiven := arguments_joinsInFromLists ht
    rw [bareInFromLists_node, List.forall_mem_map]
    refine ⟨fun hbare => (by cases hbare), fun a ha => ?_⟩
    show BareInFromLists _ .outside
    rw [rewriteArgument]
    split
    · rename_i name value hnamed
      simpa [carryNamed, bareInFromLists_node, Stage.below, Tag.isBareJoin] using
        bareInFromLists_namedArgument hnamed (hgiven a ha)
    · exact hgiven a ha
  · exact ht

omit hsession in
theorem bareInFromLists_rewriteRelation {t : Ast} {stage : Stage} (ht : BareInFromLists t stage) :
    BareInFromLists (rewriteRelation session t) stage := by
  obtain ⟨tag, fields⟩ := t
  cases tag with
  | table name =>
    have hbelow : ∀ name, stage.below (.table name) = .outside := fun name => by cases stage <;> rfl
    rw [bareInFromLists_node, hbelow] at ht
    rcases rewriteRelation_table session name fields with ⟨-, _, h⟩ | ⟨-, h⟩
    · rw [h, bareInFromLists_node, hbelow, List.forall_mem_map]
      exact ⟨fun hbare => (by cases hbare), fun c hc => bareInFromLists_rewriteArguments _ (ht.2 c hc)⟩
    · rw [h, bareInFromLists_node, hbelow]
      exact ⟨fun hbare => (by cases hbare), ht.2⟩
  | _ => exact ht

theorem bareInFromLists_pre {active active' : List Chars} {t t' : Ast}
    (h : Rewrite.preVisitTableFactor session active t = .ok (active', t')) {stage : Stage} (ht : BareInFromLists t stage) :
    BareInFromLists t' stage := by
  unfold Rewrite.preVisitTableFactor at h
  split at h
  · split at h
    · cases h
    · obtain ⟨expanded, hexpand, h⟩ := except_of_bind_ok h
      cases expanded with
      | none =>
        cases h
        exact bareInFromLists_rewriteRelation ht
      | some u =>
        cases h
        exact bareInFromLists_expandTableMacro hsession hexpand ht
  · cases h
    exact bareInFromLists_rewriteRelation ht

omit hsession in
theorem bareInFromLists_witnessRows {t : Ast} {stage : Stage} (ht : BareInFromLists t stage) :
    BareInFromLists (witnessRows session t) stage := by
  have hbelow : ∀ name, stage.below (.function name) = .outside := fun name => by cases stage <;> rfl
  unfold witnessRows
  split
  · simp only
    split
    · rw [bareInFromLists_node, hbelow] at ht ⊢
      rw [List.forall_mem_map]
      refine ⟨ht.1, fun c hc => ?_⟩
      unfold addRowWitness
      split
      · simp [rowWitness, bareInFromLists_node, Tag.isBareJoin]
      · exact ht.2 c hc
    · exact ht
  · exact ht

theorem bareInFromLists_keepingJoins {n : Nat} {active : List Chars} {t u : Ast}
    (h : Visitor.visit .outOfDepth (rewriteKeepingJoins session) n active t = .ok u) :
    ∀ stage, BareInFromLists t stage → BareInFromLists u stage := by
  refine Visitor.visit_ok (Q := fun _ t u => ∀ stage, BareInFromLists t stage → BareInFromLists u stage) ?_ ?_ n active t u h
  · intro n active t active' t' cs u hpre hcs hpost stage ht
    have hnode := bareInFromLists_children hcs (bareInFromLists_pre hsession hpre ht)
    obtain ⟨expanded, -, hpost⟩ := except_of_bind_ok hpost
    cases expanded with
    | none =>
      cases hpost
      exact bareInFromLists_witnessRows hnode
    | some _ => cases hpost
  · intro n active t active' t' cs active'' u r hpre hcs hpost hr stage ht
    have hnode := bareInFromLists_children hcs (bareInFromLists_pre hsession hpre ht)
    obtain ⟨expanded, hexpand, hpost⟩ := except_of_bind_ok hpost
    cases expanded with
    | none => cases hpost
    | some _ =>
      cases hpost
      exact hr stage (bareInFromLists_expandScalarMacro hsession hexpand hnode)

end

/-! ## The claim -/

/-- What the visitor goes through, changed. -/
def DFStatement.mapVisited (f : Ast → Ast) : DFStatement → DFStatement
  | statement t => statement (f t)
  | explain inner => explain (inner.mapVisited f)
  | other t => other t

theorem visited_mapVisited (f : Ast → Ast) (statement : DFStatement) :
    (statement.mapVisited f).visited = statement.visited.map f := by
  induction statement with
  | statement t => rfl
  | explain statement ih => exact ih
  | other t => rfl

variable (session) in
/-- The statement with the calls of macros replaced and its relations and aggregates rewritten, every join as it was written. -/
def keepingJoins (depth : Nat) : DFStatement → Except Failure DFStatement
  | .statement t => (Visitor.visit .outOfDepth (rewriteKeepingJoins session) depth [] t).map .statement
  | .explain statement => (keepingJoins depth statement).map .explain
  | .other t => .ok (.other t)

theorem rewriteVgiSql_joins (depth : Nat) (statement : DFStatement) :
    Follows Never (fun result kept => result = kept.mapVisited fun t => normaliseAt t .outside)
      (rewriteVgiSql session depth statement) (keepingJoins session depth statement) := by
  induction statement with
  | statement t =>
    refine (visit_joins depth [] rfl (ready_outside t)).bind fun u u' _ hu => ?_
    exact .ok (congrArg _ hu)
  | explain statement ih =>
    refine ih.bind fun result kept _ hresult => ?_
    exact .ok (congrArg _ hresult)
  | other t => exact .ok rfl

theorem bareInFromLists_kept (hsession : session.JoinsInFromLists) {depth : Nat} {statement kept : DFStatement}
    (h : keepingJoins session depth statement = .ok kept) (ht : ∀ t, statement.visited = some t → BareInFromLists t .outside) :
    ∀ t, kept.visited = some t → BareInFromLists t .outside := by
  induction statement generalizing kept with
  | statement t =>
    obtain ⟨u, hvisit, rfl⟩ := except_of_map_ok h
    rintro _ ⟨⟩
    exact bareInFromLists_keepingJoins hsession hvisit .outside (ht t rfl)
  | explain statement ih =>
    obtain ⟨inner, hinner, rfl⟩ := except_of_map_ok h
    have hrest := ih hinner ht
    exact hrest
  | other t =>
    cases h
    exact ht

/-- **A rewritten statement is the one with every join as it was written, its FROM lists normalised and nothing else; so no
bare join is left in it exactly if each stood in the FROM list of a SELECT, not inside a parenthesised join, and none is if the
statement and the macros have none elsewhere.** -/
theorem no_bare_join_iff {depth : Nat} {statement result : DFStatement} (h : rewriteVgiSql session depth statement = .ok result) :
    ∃ kept, keepingJoins session depth statement = .ok kept ∧ result = kept.mapVisited (fun t => normaliseAt t .outside) ∧
      ((∀ t, result.visited = some t → NoBareJoin t) ↔ ∀ t, kept.visited = some t → BareInFromLists t .outside) ∧
      (session.JoinsInFromLists → (∀ t, statement.visited = some t → BareInFromLists t .outside) →
        ∀ t, result.visited = some t → NoBareJoin t) := by
  have hjoins := @rewriteVgiSql_joins session depth statement
  rw [h] at hjoins
  obtain ⟨kept, hkept, rfl⟩ := hjoins
  have hiff : (∀ t, (kept.mapVisited fun t => normaliseAt t .outside).visited = some t → NoBareJoin t) ↔
      ∀ t, kept.visited = some t → BareInFromLists t .outside := by
    rw [visited_mapVisited]
    constructor
    · intro hbare t ht
      exact noBareJoin_normaliseAt.1 (hbare _ (by rw [ht]; rfl))
    · intro hplaces u hu
      obtain ⟨t, ht, rfl⟩ := Option.map_eq_some_iff.1 hu
      exact noBareJoin_normaliseAt.2 (hplaces t ht)
  exact ⟨kept, hkept, rfl, hiff, fun hsession hstatement => hiff.2 (bareInFromLists_kept hsession hkept hstatement)⟩

end

/-- `a .. JOIN b`, as a relation with its join. -/
def joinedWith (operator : JoinOperator) : Ast :=
  .node .tableWithJoins [.node (.table [identName ['a']]) [], .node (.join operator) [.node (.table [identName ['b']]) []]]

/-- `SELECT .. FROM` -/
def selectFrom (relation : Ast) : Ast := .node .query [.node .select [.node .selectFrom [relation]]]

theorem no_bare_join_plain :
    rewriteVgiSql emptySession 6 (.statement (selectFrom (joinedWith .semi))) =
        .ok (.statement (selectFrom (joinedWith .leftSemi))) ∧
      ∃ kept, keepingJoins emptySession 6 (.statement (selectFrom (joinedWith .semi))) = .ok kept ∧
        DFStatement.statement (selectFrom (joinedWith .leftSemi)) = kept.mapVisited (fun t => normaliseAt t .outside) :=
  ⟨rfl, by
    obtain ⟨kept, hkept, hresult, -⟩ := @no_bare_join_iff emptySession 6 (.statement (selectFrom (joinedWith .semi)))
      (.statement (selectFrom (joinedWith .leftSemi))) rfl
    exact ⟨kept, hkept, hresult⟩⟩

/-- `SELECT .. FROM (a SEMI JOIN b)` stays as it is. -/
theorem rewriteVgiSql_parenthesised :
    rewriteVgiSql emptySession 8 (.statement (selectFrom (.node .tableWithJoins [.node .nestedJoin [joinedWith .semi]]))) =
        .ok (.statement (selectFrom (.node .tableWithJoins [.node .nestedJoin [joinedWith .semi]]))) ∧
      ¬NoBareJoin (selectFrom (.node .tableWithJoins [.node .nestedJoin [joinedWith .semi]])) := by
  refine ⟨rfl, fun h => ?_⟩
  simp [NoBareJoin, selectFrom, joinedWith, LabelTree.everywhere_node, Tag.isBareJoin] at h

end VgiDatafusion.Sql
