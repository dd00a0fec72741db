import VgiDatafusion.Sql.Unfolding

/-!
# A second rewrite (session.rs:1711-1954)

What the rewrite returns has no macro calls, its joins, names and row witnesses are as the hooks leave them (`Prepared`), and
a second visit finds nothing to do but in one place: the arguments of a table function are looked at before they are visited,
and a scalar macro in them may expand to a named argument. `GivenLate` is the call where this happens, and the rewrite of a
statement without one can be repeated, as can that of every part it is made of.
-/
namespace VgiDatafusion.Sql

section
variable (session : SqlSession)

/-- Names in relations are as the rewrite leaves them. -/
def NameSettled : Ast → Prop
  | .node (.table name) fields =>
    if (argumentsOf fields).isSome then collapseName name = name else insertDefaultSchema session name = name
  | _ => True

/-- The name by which the options of a table function are declared. -/
def functionNameOf (name : ObjectName) : Chars := (((collapseName name).head?.bind ObjectNamePart.asIdent).map Ident.value).getD []

/-- No argument of a table function has a name. -/
def NoneNamed (t : Ast) : Prop := ∀ name fields, t = .node (.table name) fields →
  ∀ arguments, .node .arguments arguments ∈ fields → ∀ a ∈ arguments, namedArgument session (functionNameOf name) a = none

/-- What the hooks leave alone, but for the arguments of table functions. -/
structure Prepared (t : Ast) : Prop where
  scalar : ¬isScalarCall session t
  table : ¬isTableCall session t
  joins : Rewrite.preVisitSelect t = t
  name : NameSettled session t
  witness : witnessRows session t = t

/-- What a second rewrite leaves alone. -/
def Settled : Ast → Prop := LabelTree.Everywhere fun t => Prepared session t ∧ NoneNamed session t

end

variable {session : SqlSession}

/-! ## What is settled stays -/

theorem collapseName_twice (name : ObjectName) : collapseName (collapseName name) = collapseName name := by
  unfold collapseName
  by_cases hlong : 1 < name.length
  · rw [if_pos hlong]
    simp only
    by_cases hempty : (List.intercalate ['.'] (name.filterMap fun part => part.asIdent.map Ident.value)).isEmpty = true
    · rw [if_pos hempty, if_pos hlong, if_pos hempty]
    · rw [if_neg hempty]
      rfl
  · rw [if_neg hlong, if_neg hlong]

theorem insertDefaultSchema_of_length {name : ObjectName} (h : name.length ≠ 2) : insertDefaultSchema session name = name := by
  unfold insertDefaultSchema
  split
  · exact absurd rfl h
  · rfl

theorem insertDefaultSchema_twice (name : ObjectName) :
    insertDefaultSchema session (insertDefaultSchema session name) = insertDefaultSchema session name := by
  have hcases : insertDefaultSchema session name = name ∨ (insertDefaultSchema session name).length = 3 := by
    unfold insertDefaultSchema
    split
    · split
      · exact .inr rfl
      · exact .inl rfl
    · exact .inl rfl
  rcases hcases with hsame | hthree
  · rw [hsame, hsame]
  · exact insertDefaultSchema_of_length (by omega)

theorem namedArgument_carryNamed (functionName name : Chars) (value : Ast) :
    namedArgument session functionName (carryNamed name value) = none := rfl

theorem rewriteArgument_eq_iff (functionName : Chars) (a : Ast) :
    rewriteArgument session functionName a = a ↔ namedArgument session functionName a = none := by
  rw [rewriteArgument]
  cases hnamed : namedArgument session functionName a with
  | none => simp
  | some named =>
    simp only [reduceCtorEq, iff_false]
    intro h
    rw [← h, namedArgument_carryNamed] at hnamed
    cases hnamed

theorem rewriteArguments_eq {functionName : Chars} {t : Ast}
    (h : ∀ arguments, t = .node .arguments arguments → ∀ a ∈ arguments, namedArgument session functionName a = none) :
    rewriteArguments session functionName t = t := by
  obtain ⟨tag, cs⟩ := t
  cases tag with
  | arguments =>
    have hmap : cs.map (rewriteArgument session functionName) = cs := by
      rw [List.map_congr_left fun a ha => (rewriteArgument_eq_iff functionName a).2 (h cs rfl a ha), List.map_id']
    exact congrArg _ hmap
  | _ => rfl

/-- A relation in which nothing is left to do. -/
theorem rewriteRelation_eq {t : Ast} (hname : NameSettled session t) (hnamed : NoneNamed session t) :
    rewriteRelation session t = t := by
  obtain ⟨tag, fields⟩ := t
  cases tag with
  | table name =>
    simp only [NameSettled] at hname
    simp only [rewriteRelation]
    split
    · rename_i hargs
      rw [if_pos hargs] at hname
      have hmap : fields.map (rewriteArguments session (functionNameOf name)) = fields := by
        rw [List.map_congr_left fun f hf => rewriteArguments_eq fun arguments hf' a ha =>
          hnamed name fields rfl arguments (hf' ▸ hf) a ha, List.map_id']
      rw [functionNameOf, hname] at hmap
      rw [hname, hmap]
    · rename_i hargs
      rw [if_neg hargs] at hname
      rw [hname]
  | _ => rfl

theorem pre_settled {active : List Chars} {t : Ast} (hjoins : Rewrite.preVisitSelect t = t) (htable : ¬isTableCall session t) :
    (rewrite session).pre active t = .ok (active, rewriteRelation session t) := by
  show Rewrite.preVisitTableFactor session active (Rewrite.preVisitSelect t) = _
  rw [hjoins]
  rcases preVisitTableFactor_cases session active t with ⟨-, h⟩ | ⟨key, -, hkey, -⟩
  · exact h
  · exact absurd (by rw [isTableCall, hkey]; rfl) htable

theorem post_settled {depth : Nat} {active : List Chars} {t : Ast} (h : ¬isScalarCall session t) :
    (rewrite session).post depth active t = .ok (.done (witnessRows session t)) := by
  rcases postVisitExpr_cases session depth active t with ⟨-, hpost⟩ | ⟨hcall, -⟩
  · exact hpost
  · exact absurd hcall h

theorem visit_settled {t : Ast} (h : Settled session t) (active : List Chars) {n : Nat} (hn : t.height ≤ n) :
    Visitor.visit .outOfDepth (rewrite session) n active t = .ok t := by
  induction t using LabelTree.induct generalizing n with
  | h tag cs ih =>
    obtain ⟨⟨hprepared, hnamed⟩, hchildren⟩ := LabelTree.everywhere_node.1 h
    cases n with
    | zero =>
      rw [LabelTree.height_node] at hn
      exact absurd hn (Nat.not_succ_le_zero _)
    | succ n =>
      have hvisits : cs.mapM (Visitor.visit .outOfDepth (rewrite session) n active) = .ok cs := by
        rw [ListFacts.mapM_ok_iff, List.forall₂_same]
        exact fun c hc => ih c hc (hchildren c hc) (Nat.le_of_lt_succ (Nat.lt_of_lt_of_le (LabelTree.height_lt hc) hn))
      rw [Visitor.visit, pre_settled hprepared.joins hprepared.table, rewriteRelation_eq hprepared.name hnamed]
      show (cs.mapM (Visitor.visit .outOfDepth (rewrite session) n active) >>= _) = _
      rw [hvisits]
      show ((rewrite session).post n active (.node tag cs) >>= _) = _
      rw [post_settled hprepared.scalar, hprepared.witness]
      rfl

/-! ## What is returned is prepared -/

theorem ready_normaliseAt (t : Ast) (stage : Stage) : Ready stage (normaliseAt t stage) := by
  induction t using LabelTree.induct generalizing stage with
  | h tag cs ih =>
    rw [normaliseAt_node]
    by_cases hselect : tag = .select
    · subst hselect
      rw [stage.tagAt_of_ne (by simp)]
      exact hookAt_select stage _
    · rw [ready_node (stage.tagAt_ne_select hselect), Stage.tagAt_twice, Stage.below_tagAt, List.forall_mem_map]
      exact ⟨rfl, fun c hc => ih c hc _⟩

theorem everywhere_joins (t : Ast) (stage : Stage) :
    LabelTree.Everywhere (fun s => Rewrite.preVisitSelect s = s) (normaliseAt t stage) := by
  induction t using LabelTree.induct generalizing stage with
  | h tag cs ih =>
    rw [normaliseAt_node, LabelTree.everywhere_node, List.forall_mem_map]
    refine ⟨?_, fun c hc => ih c hc _⟩
    by_cases hselect : tag = .select
    · subst hselect
      rw [stage.tagAt_of_ne (by simp), Stage.below_select]
      refine congrArg (LabelTree.node Tag.select) ?_
      rw [List.map_map]
      exact List.map_congr_left fun c _ => ready_normaliseAt c .ofSelect
    · have htag := stage.tagAt_ne_select hselect
      generalize stage.tagAt tag = tag' at htag
      cases tag' with
      | select => exact absurd rfl htag
      | _ => rfl

theorem addRowWitness_twice (t : Ast) : addRowWitness (addRowWitness t) = addRowWitness t := by
  obtain ⟨tag, cs⟩ := t
  cases tag with
  | arguments => cases cs <;> rfl
  | _ => rfl

/-- What is left of the row witnesses and the names in relations. -/
def Finished (session : SqlSession) (t : Ast) : Prop := witnessRows session t = t ∧ NameSettled session t

theorem everywhere_addRowWitness {t : Ast} (h : LabelTree.Everywhere (Finished session) t) :
    LabelTree.Everywhere (Finished session) (addRowWitness t) := by
  unfold addRowWitness
  split
  · simp [rowWitness, LabelTree.everywhere_node, Finished, witnessRows, NameSettled]
  · exact h

theorem everywhere_witnessRows {tag : Tag} {cs : List Ast} (hroot : NameSettled session (.node tag cs))
    (h : ∀ c ∈ cs, LabelTree.Everywhere (Finished session) c) :
    LabelTree.Everywhere (Finished session) (witnessRows session (.node tag cs)) := by
  cases tag with
  | function name =>
    simp only [witnessRows]
    split
    · rename_i haggregate
      rw [LabelTree.everywhere_node, List.forall_mem_map]
      refine ⟨⟨?_, trivial⟩, fun c hc => everywhere_addRowWitness (h c hc)⟩
      simp only [witnessRows, haggregate, if_true, List.map_map]
      exact congrArg _ (List.map_congr_left fun c _ => addRowWitness_twice c)
    · rename_i haggregate
      refine LabelTree.everywhere_node.2 ⟨⟨?_, trivial⟩, h⟩
      simp only [witnessRows, haggregate]
      rfl
  | _ => exact LabelTree.everywhere_node.2 ⟨⟨rfl, hroot⟩, h⟩

theorem label_rewriteArguments (functionName : Chars) (t : Ast) : (rewriteArguments session functionName t).label = t.label := by
  obtain ⟨tag, cs⟩ := t
  cases tag <;> rfl

/-- The name of a relation is settled when it is entered, and its visit does not take its arguments away. -/
theorem nameSettled_of_pre {active active' : List Chars} {t t' : Ast} {cs : List Ast}
    (hpre : (rewrite session).pre active t = .ok (active', t')) (hcs : List.Forall₂ SameSort t'.children cs) :
    NameSettled session (.node t'.label cs) := by
  rcases pre_cases hpre with ⟨fields, rfl, rfl⟩ | ⟨name, fields, rfl, ⟨-, rfl⟩ | ⟨children, rfl⟩⟩ | ⟨rfl, -, hother⟩
  · trivial
  · have hback : (argumentsOf cs).isSome = true → (argumentsOf (rewriteRelation session (.node (.table name) fields)).children).isSome :=
      argumentsOf_sameSort hcs
    have hforth : (argumentsOf (rewriteRelation session (.node (.table name) fields)).children).isSome → (argumentsOf cs).isSome := by
      rw [argumentsOf_isSome_iff, argumentsOf_isSome_iff]
      rintro ⟨field, hfield, hlabel⟩
      obtain ⟨field', hfield', hsort⟩ := ListFacts.forall₂_mem_left hcs hfield
      exact ⟨field', hfield', (hsort.2 (by simp [hlabel, Tag.hook])).trans hlabel⟩
    rcases rewriteRelation_table session name fields with ⟨hargs, functionName, h⟩ | ⟨hargs, h⟩
    · rw [h] at hforth ⊢
      rw [argumentsOf_isSome_iff] at hargs
      obtain ⟨field, hfield, hlabel⟩ := hargs
      have hsome : (argumentsOf cs).isSome := by
        refine hforth (argumentsOf_isSome_iff.2 ⟨_, List.mem_map_of_mem hfield, ?_⟩)
        rw [label_rewriteArguments, hlabel]
      show NameSettled session (.node (.table (collapseName name)) cs)
      rw [NameSettled, if_pos hsome]
      exact collapseName_twice name
    · rw [h] at hback ⊢
      have hnone : ¬(argumentsOf cs).isSome = true := fun hsome => hargs (hback hsome)
      show NameSettled session (.node (.table (insertDefaultSchema session name)) cs)
      rw [NameSettled, if_neg hnone]
      exact insertDefaultSchema_twice name
  · trivial
  · obtain ⟨tag, fields⟩ := t'
    cases tag with
    | table name => exact absurd rfl (hother name)
    | _ => trivial

theorem everywhere_finished {n : Nat} {active : List Chars} {t u : Ast}
    (h : Visitor.visit .outOfDepth (rewrite session) n active t = .ok u) : LabelTree.Everywhere (Finished session) u := by
  refine Visitor.visit_ok_visits (C := fun _ _ => True) (Q := fun _ _ u => LabelTree.Everywhere (Finished session) u) ?_ ?_ n active t u
    (fun _ _ _ _ => trivial) h
  · intro n active t active' t' cs u _ hpre hcs hpost
    have hsort : List.Forall₂ SameSort t'.children cs := hcs.imp fun c c' hc => (visit_rewrite hc.1).2
    rcases postVisitExpr_cases session n active' (.node t'.label cs) with ⟨-, h⟩ | ⟨-, ⟨e, h⟩ | ⟨u, h, -, -⟩⟩
    · rw [h] at hpost
      cases hpost
      refine everywhere_witnessRows (nameSettled_of_pre hpre hsort) fun c' hc' => ?_
      obtain ⟨c, -, -, hc⟩ := ListFacts.forall₂_mem_right hcs hc'
      exact hc
    · rw [h] at hpost
      cases hpost
    · rw [h] at hpost
      cases hpost
  · exact fun n active t active' t' cs active'' u r _ _ _ _ hr => hr

/-- **Nothing but a named argument is left to be done.** -/
theorem prepared_visit {n : Nat} {active : List Chars} {t u : Ast}
    (h : Visitor.visit .outOfDepth (rewrite session) n active t = .ok u) : LabelTree.Everywhere (Prepared session) u := by
  have hjoins : LabelTree.Everywhere (fun s => Rewrite.preVisitSelect s = s) u := by
    have hfollows := @visit_joins session n .outside active t t rfl (ready_outside t)
    rw [h] at hfollows
    obtain ⟨u', -, rfl⟩ := hfollows
    exact everywhere_joins u' .outside
  have hfree := (visit_rewrite h).1
  have hfinished := everywhere_finished h
  exact fun s hs => ⟨(hfree s hs).1, (hfree s hs).2, hjoins s hs, (hfinished s hs).2, (hfinished s hs).1⟩

/-! ## What scalar macros make of an argument -/

variable (session) in
/-- The call of a scalar macro, its arguments rewritten, expands to this. -/
def ExpandsTo (active : List Chars) (t u : Ast) : Prop := ∃ depth t',
  Visitor.LeavesAs .outOfDepth (rewrite session) depth active t active t' ∧ expandScalarMacro session depth [] t' = .ok (some u)

variable (session) in
/-- One of the places of an argument that decide whether it has a name is expanded. -/
inductive ArgumentExpands (active : List Chars) : Ast → Ast → Prop
  | value {v u : Ast} (h : ExpandsTo session active v u) : ArgumentExpands active (.node .argUnnamed [v]) (.node .argUnnamed [u])
  | left {l r u : Ast} (h : ExpandsTo session active l u) :
    ArgumentExpands active (.node .argUnnamed [.node .eq [l, r]]) (.node .argUnnamed [.node .eq [u, r]])
  | label {l v u : Ast} (h : ExpandsTo session active l u) :
    ArgumentExpands active (.node .argExprNamed [l, v]) (.node .argExprNamed [u, v])

variable (session) in
/-- A call of a table function in which a scalar macro expands to the name of an argument that has none. -/
def GivenLate (active : List Chars) (t : Ast) : Prop := tableMacroKey session t = none ∧ ∃ name fields,
  t = .node (.table name) fields ∧ ∃ arguments, .node .arguments arguments ∈ fields ∧ ∃ a ∈ arguments,
    namedArgument session (functionNameOf name) a = none ∧
      ∃ b, ArgumentExpands session active a b ∧ (namedArgument session (functionNameOf name) b).isSome

/-- The visit of a node that is no call of a scalar macro. -/
theorem visit_of_pre {n : Nat} {active active' : List Chars} {t t' u : Ast} (hpre : (rewrite session).pre active t = .ok (active', t'))
    (hcall : ∀ cs, ¬isScalarCall session (.node t'.label cs))
    (h : Visitor.visit .outOfDepth (rewrite session) n active t = .ok u) :
    ∃ m cs, List.Forall₂ (fun c c' => Visitor.visit .outOfDepth (rewrite session) m active' c = .ok c') t'.children cs ∧
      u = witnessRows session (.node t'.label cs) := by
  cases n with
  | zero => cases h
  | succ n =>
    rcases Visitor.visit_succ n active t with
      ⟨e, -, he⟩ | ⟨_, _, hpre', ⟨e, -, he⟩ | ⟨cs, hcs, ⟨e, -, he⟩ | ⟨v, hpost, hv⟩ | ⟨_, v, hpost, -⟩⟩⟩
    · rw [he] at h
      cases h
    · rw [he] at h
      cases h
    · rw [he] at h
      cases h
    · rw [hv] at h
      cases h
      rw [hpre] at hpre'
      cases hpre'
      rw [post_settled (hcall cs)] at hpost
      cases hpost
      exact ⟨n, cs, ListFacts.mapM_ok_iff.1 hcs, rfl⟩
    · rw [hpre] at hpre'
      cases hpre'
      rw [post_settled (hcall cs)] at hpost
      cases hpost

/-- A node without a hook. -/
theorem visit_plain {n : Nat} {active : List Chars} {tag : Tag} {cs : List Ast} {u : Ast} (hselect : tag ≠ .select)
    (htable : ∀ name, tag ≠ .table name) (hcall : ¬isScalarCall session (.node tag cs))
    (h : Visitor.visit .outOfDepth (rewrite session) n active (.node tag cs) = .ok u) :
    ∃ m cs', List.Forall₂ (fun c c' => Visitor.visit .outOfDepth (rewrite session) m active c = .ok c') cs cs' ∧
      u = witnessRows session (.node tag cs') :=
  visit_of_pre (pre_other hselect htable active cs) (fun _ => hcall) h

theorem visit_scalarCall {n : Nat} {active : List Chars} {t u : Ast} (hcall : isScalarCall session t)
    (h : Visitor.visit .outOfDepth (rewrite session) n active t = .ok u) :
    ∃ m v, ExpandsTo session active t v ∧ ScalarFree session v ∧ v.label.hook = .expr ∧
      Visitor.visit .outOfDepth (rewrite session) m active v = .ok u := by
  obtain ⟨tag, cs⟩ := t
  obtain ⟨name, rfl, hlookup⟩ := hcall
  cases n with
  | zero => cases h
  | succ n =>
    have hpre' : (rewrite session).pre active (.node (.function name) cs) = .ok (active, .node (.function name) cs) := rfl
    rcases Visitor.visit_succ n active (.node (.function name) cs) with
      ⟨e, -, he⟩ | ⟨_, _, hpre, ⟨e, -, he⟩ | ⟨cs', hcs, ⟨e, -, he⟩ | ⟨v, hpost, hv⟩ | ⟨active', v, hpost, hv⟩⟩⟩
    · rw [he] at h
      cases h
    · rw [he] at h
      cases h
    · rw [he] at h
      cases h
    · rw [hpre'] at hpre
      cases hpre
      rcases postVisitExpr_cases session n active (.node (.function name) cs') with
        ⟨hnot, -⟩ | ⟨-, ⟨e, herror⟩ | ⟨w, hagain, -⟩⟩
      · exact absurd ⟨name, rfl, hlookup⟩ hnot
      · rw [LabelTree.label_node, herror] at hpost
        cases hpost
      · rw [LabelTree.label_node, hagain] at hpost
        cases hpost
    · rw [hpre'] at hpre
      cases hpre
      rw [hv] at h
      obtain ⟨expanded, hexpand, hpost⟩ := except_of_bind_ok hpost
      cases expanded with
      | none => cases hpost
      | some w =>
        cases hpost
        rcases expandScalarMacro_cases session n (.node (.function name) cs') with ⟨hnot, -⟩ | ⟨-, ⟨e, herror⟩ | ⟨w, hw, hfree, hhook⟩⟩
        · exact absurd ⟨name, rfl, hlookup⟩ hnot
        · rw [LabelTree.label_node, herror] at hexpand
          cases hexpand
        · rw [LabelTree.label_node, hw] at hexpand
          cases hexpand
          exact ⟨n, _, ⟨n, _, ⟨_, cs', hpre', hcs, rfl⟩, hw⟩, hfree, hhook, h⟩

/-- There is one such expansion. -/
theorem expandsTo_unique {active : List Chars} {t u v : Ast} (hu : ExpandsTo session active t u) (hv : ExpandsTo session active t v) :
    u = v := by
  obtain ⟨n, _, ⟨t', cs, hpre, hcs, rfl⟩, hu⟩ := hu
  obtain ⟨m, _, ⟨_, cs', hpre', hcs', rfl⟩, hv⟩ := hv
  rw [hpre] at hpre'
  cases hpre'
  have hdeeper : ∀ {k cs}, k ≤ max n m → t'.children.mapM (Visitor.visit .outOfDepth (rewrite session) k active) = .ok cs →
      t'.children.mapM (Visitor.visit .outOfDepth (rewrite session) (max n m) active) = .ok cs := by
    intro k cs hk h
    rw [ListFacts.mapM_ok_iff] at h ⊢
    refine h.imp fun c c' hc => ?_
    rw [Visitor.visit_le steady_rewrite hk (by rw [hc]; exact fun h => by cases h), hc]
  have hsame := (hdeeper (Nat.le_max_left n m) hcs).symm.trans (hdeeper (Nat.le_max_right n m) hcs')
  cases hsame
  have hmore : ∀ {k d w}, k ≤ d → expandScalarMacro session k [] (.node t'.label cs) = .ok (some w) →
      expandScalarMacro session d [] (.node t'.label cs) = .ok (some w) := by
    intro k d w hk h
    induction hk with
    | refl => exact h
    | step _ ih =>
      obtain ⟨_, hnext, rfl⟩ : Follows (· = .outOfDepth) Eq (.ok (some w)) _ := ih ▸ steady_expandScalarMacro _ [] (.node t'.label cs)
      exact hnext
  have hboth := (hmore (Nat.le_max_left n m) hu).symm.trans (hmore (Nat.le_max_right n m) hv)
  cases hboth
  rfl

theorem expandsTo_call {active : List Chars} {t u : Ast} (h : ExpandsTo session active t u) : isScalarCall session t := by
  obtain ⟨n, _, ⟨t', cs, hpre, -, rfl⟩, hu⟩ := h
  have hcall : isScalarCall session (.node t'.label cs) := by
    rcases expandScalarMacro_cases session n (.node t'.label cs) with ⟨-, hnone⟩ | ⟨hcall, -⟩
    · rw [hnone] at hu
      cases hu
    · exact hcall
  obtain ⟨name, hname, hlookup⟩ := hcall
  rw [LabelTree.label_node] at hname
  rcases pre_cases hpre with ⟨fields, rfl, rfl⟩ | ⟨_, fields, rfl, ⟨-, rfl⟩ | ⟨children, rfl⟩⟩ | ⟨rfl, -⟩
  · cases hname
  · rcases rewriteRelation_table session _ fields with ⟨-, _, h⟩ | ⟨-, h⟩ <;>
    · rw [h] at hname
      cases hname
  · cases hname
  · exact ⟨name, hname, hlookup⟩

theorem label_visit {n : Nat} {active : List Chars} {t u : Ast} (hhook : t.label.hook = .expr) (hcall : ¬isScalarCall session t)
    (h : Visitor.visit .outOfDepth (rewrite session) n active t = .ok u) : u.label = t.label := by
  obtain ⟨tag, cs⟩ := t
  obtain ⟨m, cs', -, rfl⟩ := visit_plain (by rintro rfl; cases hhook) (by rintro name rfl; cases hhook) hcall h
  exact label_witnessRows _

theorem hook_visit {n : Nat} {active : List Chars} {t u : Ast}
    (h : Visitor.visit .outOfDepth (rewrite session) n active t = .ok u) : u.label.hook = t.label.hook := (visit_rewrite h).2.1

/-- Where an identifier comes from. -/
theorem identifier_visit {n : Nat} {active : List Chars} {t u : Ast} {ident : Ident}
    (h : Visitor.visit .outOfDepth (rewrite session) n active t = .ok u) :
    u.label = .identifier ident ↔ t.label = .identifier ident ∨ ∃ v, ExpandsTo session active t v ∧ v.label = .identifier ident := by
  by_cases hcall : isScalarCall session t
  · obtain ⟨m, v, hexpands, hfree, hhook, hv⟩ := visit_scalarCall hcall h
    rw [label_visit hhook hfree.root hv]
    constructor
    · exact fun hident => .inr ⟨v, hexpands, hident⟩
    · rintro (hident | ⟨w, hw, hident⟩)
      · obtain ⟨name, hname, -⟩ := hcall
        rw [hname] at hident
        cases hident
      · rw [expandsTo_unique hexpands hw]
        exact hident
  · have hnone : ∀ v, ¬ExpandsTo session active t v := fun v hv => hcall (expandsTo_call hv)
    simp only [hnone, false_and, exists_false, or_false]
    by_cases hhook : t.label.hook = .expr
    · rw [label_visit hhook hcall h]
    · have hhook' := hook_visit h
      constructor
      · intro hident
        rw [hident] at hhook'
        exact absurd hhook'.symm hhook
      · intro hident
        rw [hident] at hhook
        exact absurd rfl hhook

/-! ## Named arguments -/

theorem namedArgument_unnamed_iff {functionName : Chars} {v : Ast} :
    (namedArgument session functionName (.node .argUnnamed [v])).isSome ↔ ∃ l r ident, v = .node .eq [l, r] ∧
      l.label = .identifier ident ∧ session.isDeclaredNamedTableArgument functionName ident.value = true := by
  by_cases hplain : Plain v
  · rw [namedArgument_plain hplain]
    simp only [Option.isSome_none, Bool.false_eq_true, false_iff]
    rintro ⟨⟨tag, fields⟩, r, ident, rfl, hl, -⟩
    obtain rfl : tag = .identifier ident := hl
    exact hplain ident fields r rfl
  · simp only [Plain, not_forall, not_not] at hplain
    obtain ⟨ident, fields, r, rfl⟩ := hplain
    simp only [namedArgument]
    constructor
    · intro h
      split at h
      · rename_i hdeclared
        exact ⟨_, r, ident, rfl, rfl, hdeclared⟩
      · cases h
    · rintro ⟨l, r', ident', heq, hl, hdeclared⟩
      cases heq
      cases hl
      rw [if_pos hdeclared]
      rfl

theorem namedArgument_label_iff {functionName : Chars} {cs : List Ast} :
    (namedArgument session functionName (.node .argExprNamed cs)).isSome ↔ ∃ l v ident, cs = [l, v] ∧
      l.label = .identifier ident ∧ Ast.isExpr v = true := by
  constructor
  · intro h
    unfold namedArgument at h
    split at h
    · rename_i heq
      cases heq
    · rename_i ident fields v heq
      cases heq
      split at h
      · exact ⟨_, v, ident, rfl, rfl, by assumption⟩
      · cases h
    · rename_i heq
      cases heq
    · cases h
  · rintro ⟨⟨tag, fields⟩, v, ident, rfl, hl, hexpr⟩
    obtain rfl : tag = .identifier ident := hl
    simp [namedArgument, hexpr]

theorem namedArgument_named_iff {functionName : Chars} {name : Ident} {cs : List Ast} :
    (namedArgument session functionName (.node (.argNamed name) cs)).isSome ↔ ∃ v, cs = [v] ∧ Ast.isExpr v = true := by
  constructor
  · intro h
    unfold namedArgument at h
    split at h
    · rename_i heq
      cases heq
      split at h
      · exact ⟨_, rfl, by assumption⟩
      · cases h
    · rename_i heq
      cases heq
    · rename_i heq
      cases heq
    · cases h
  · rintro ⟨v, rfl, hexpr⟩
    simp [namedArgument, hexpr]

theorem isExpr_visit {n : Nat} {active : List Chars} {t u : Ast}
    (h : Visitor.visit .outOfDepth (rewrite session) n active t = .ok u) : Ast.isExpr u = Ast.isExpr t := by
  rw [Ast.isExpr, Ast.isExpr, hook_visit h]

theorem namedArgument_unnamed_other {functionName : Chars} {v : Ast} (h : v.label ≠ .eq) :
    ¬(namedArgument session functionName (.node .argUnnamed [v])).isSome = true := by
  rw [namedArgument_unnamed_iff]
  rintro ⟨l, r, ident, rfl, -⟩
  exact h rfl

/-- Whether a value that is no call of a scalar macro becomes an equation with a name. -/
theorem named_visit_plain {n : Nat} {active : List Chars} (functionName : Chars) {v v' : Ast} (hcall : ¬isScalarCall session v)
    (h : Visitor.visit .outOfDepth (rewrite session) n active v = .ok v') :
    (namedArgument session functionName (.node .argUnnamed [v'])).isSome ↔
      (namedArgument session functionName (.node .argUnnamed [v])).isSome ∨ ∃ l r u, v = .node .eq [l, r] ∧
        ExpandsTo session active l u ∧ (namedArgument session functionName (.node .argUnnamed [.node .eq [u, r]])).isSome := by
  by_cases heq : v.label = .eq
  · obtain ⟨tag, cs⟩ := v
    obtain rfl : tag = .eq := heq
    obtain ⟨m, cs', hcs, rfl⟩ := visit_plain (by simp) (by simp) hcall h
    change (namedArgument session functionName (.node .argUnnamed [.node .eq cs'])).isSome ↔ _
    constructor
    · intro hnamed
      obtain ⟨l', r', ident, hequation, hident, hdeclared⟩ := namedArgument_unnamed_iff.1 hnamed
      cases hequation
      obtain ⟨l, _, hl, hrest, rfl⟩ := List.forall₂_cons_right_iff.1 hcs
      obtain ⟨r, _, -, hnil, rfl⟩ := List.forall₂_cons_right_iff.1 hrest
      obtain rfl := List.forall₂_nil_right_iff.1 hnil
      rcases (identifier_visit hl).1 hident with hident | ⟨u, hu, hident⟩
      · exact .inl (namedArgument_unnamed_iff.2 ⟨l, r, ident, rfl, hident, hdeclared⟩)
      · exact .inr ⟨l, r, u, rfl, hu, namedArgument_unnamed_iff.2 ⟨u, r, ident, rfl, hident, hdeclared⟩⟩
    · intro hnamed
      have hvisited : ∀ {l r : Ast} {ident : Ident}, cs = [l, r] →
          (l.label = .identifier ident ∨ ∃ u, ExpandsTo session active l u ∧ u.label = .identifier ident) →
          session.isDeclaredNamedTableArgument functionName ident.value = true →
          (namedArgument session functionName (.node .argUnnamed [.node .eq cs'])).isSome := by
        rintro l r ident rfl hident hdeclared
        obtain ⟨l', _, hl, hrest, rfl⟩ := List.forall₂_cons_left_iff.1 hcs
        obtain ⟨r', _, -, hnil, rfl⟩ := List.forall₂_cons_left_iff.1 hrest
        obtain rfl := List.forall₂_nil_left_iff.1 hnil
        exact namedArgument_unnamed_iff.2 ⟨l', r', ident, rfl, (identifier_visit hl).2 hident, hdeclared⟩
      rcases hnamed with hnamed | ⟨l, r, u, hequation, hu, hnamed⟩
      · obtain ⟨l, r, ident, hequation, hident, hdeclared⟩ := namedArgument_unnamed_iff.1 hnamed
        cases hequation
        exact hvisited rfl (.inl hident) hdeclared
      · obtain ⟨_, _, ident, hequation', hident, hdeclared⟩ := namedArgument_unnamed_iff.1 hnamed
        cases hequation
        cases hequation'
        exact hvisited rfl (.inr ⟨u, hu, hident⟩) hdeclared
  · have hneq : v'.label ≠ .eq := by
      intro heq'
      have hhook := hook_visit h
      rw [heq'] at hhook
      exact heq ((label_visit hhook.symm hcall h).symm.trans heq')
    constructor
    · exact fun hnamed => absurd hnamed (namedArgument_unnamed_other hneq)
    · rintro (hnamed | ⟨l, r, u, rfl, -⟩)
      · exact absurd hnamed (namedArgument_unnamed_other heq)
      · exact absurd rfl heq

theorem unnamed_visit {n : Nat} {active : List Chars} (functionName : Chars) {v v' : Ast}
    (hnone : namedArgument session functionName (.node .argUnnamed [v]) = none)
    (h : Visitor.visit .outOfDepth (rewrite session) n active v = .ok v') :
    (namedArgument session functionName (.node .argUnnamed [v'])).isSome ↔
      ∃ b, ArgumentExpands session active (.node .argUnnamed [v]) b ∧ (namedArgument session functionName b).isSome := by
  by_cases hcall : isScalarCall session v
  · obtain ⟨m, u, hu, hfree, hhook, huv⟩ := visit_scalarCall hcall h
    rw [named_visit_plain functionName hfree.root huv]
    constructor
    · rintro (hnamed | ⟨l, r, w, rfl, hw, -⟩)
      · exact ⟨_, .value hu, hnamed⟩
      · exact absurd (expandsTo_call hw) (hfree.child List.mem_cons_self).root
    · rintro ⟨b, hb, hnamed⟩
      cases hb with
      | value hu' =>
        rw [expandsTo_unique hu hu']
        exact .inl hnamed
      | left _ =>
        obtain ⟨name, hname, -⟩ := hcall
        cases hname
  · rw [named_visit_plain functionName hcall h]
    constructor
    · rintro (hnamed | ⟨l, r, u, rfl, hu, hnamed⟩)
      · rw [hnone] at hnamed
        cases hnamed
      · exact ⟨_, .left hu, hnamed⟩
    · rintro ⟨b, hb, hnamed⟩
      cases hb with
      | value hu => exact absurd (expandsTo_call hu) hcall
      | left hu => exact .inr ⟨_, _, _, rfl, hu, hnamed⟩

theorem label_visit_named {n : Nat} {active : List Chars} (functionName : Chars) {cs : List Ast} {a' : Ast}
    (hnone : namedArgument session functionName (.node .argExprNamed cs) = none)
    (h : Visitor.visit .outOfDepth (rewrite session) n active (.node .argExprNamed cs) = .ok a') :
    (namedArgument session functionName a').isSome ↔
      ∃ b, ArgumentExpands session active (.node .argExprNamed cs) b ∧ (namedArgument session functionName b).isSome := by
  have hcall : ¬isScalarCall session (.node .argExprNamed cs) := not_isScalarCall (by simp) cs
  obtain ⟨m, cs', hcs, rfl⟩ := visit_plain (by simp) (by simp) hcall h
  change (namedArgument session functionName (.node .argExprNamed cs')).isSome ↔ _
  constructor
  · intro hnamed
    obtain ⟨l', v', ident, rfl, hident, hexpr⟩ := namedArgument_label_iff.1 hnamed
    obtain ⟨l, _, hl, hrest, rfl⟩ := List.forall₂_cons_right_iff.1 hcs
    obtain ⟨v, _, hv, hnil, rfl⟩ := List.forall₂_cons_right_iff.1 hrest
    obtain rfl := List.forall₂_nil_right_iff.1 hnil
    rw [isExpr_visit hv] at hexpr
    rcases (identifier_visit hl).1 hident with hident | ⟨u, hu, hident⟩
    · have hsome : (namedArgument session functionName (.node .argExprNamed [l, v])).isSome :=
        namedArgument_label_iff.2 ⟨l, v, ident, rfl, hident, hexpr⟩
      rw [hnone] at hsome
      cases hsome
    · exact ⟨_, .label hu, namedArgument_label_iff.2 ⟨u, v, ident, rfl, hident, hexpr⟩⟩
  · rintro ⟨b, hb, hnamed⟩
    cases hb with
    | label hu =>
      obtain ⟨_, _, ident, heq, hident, hexpr⟩ := namedArgument_label_iff.1 hnamed
      cases heq
      obtain ⟨l', _, hl, hrest, rfl⟩ := List.forall₂_cons_left_iff.1 hcs
      obtain ⟨v', _, hv, hnil, rfl⟩ := List.forall₂_cons_left_iff.1 hrest
      obtain rfl := List.forall₂_nil_left_iff.1 hnil
      rw [← isExpr_visit hv] at hexpr
      exact namedArgument_label_iff.2 ⟨l', v', ident, rfl, (identifier_visit hl).2 (.inr ⟨_, hu, hident⟩), hexpr⟩

/-- The three forms of an argument. -/
theorem namedArgument_cases {functionName : Chars} {a : Ast} (h : (namedArgument session functionName a).isSome) :
    (∃ name cs, a = .node (.argNamed name) cs) ∨ (∃ cs, a = .node .argExprNamed cs) ∨ ∃ v, a = .node .argUnnamed [v] := by
  unfold namedArgument at h
  split at h
  · exact .inl ⟨_, _, rfl⟩
  · exact .inr (.inl ⟨_, rfl⟩)
  · exact .inr (.inr ⟨_, rfl⟩)
  · cases h

theorem label_of_named {n : Nat} {active : List Chars} {functionName : Chars} {a a' : Ast}
    (h : Visitor.visit .outOfDepth (rewrite session) n active a = .ok a') (hnamed : (namedArgument session functionName a').isSome) :
    a.label = a'.label := by
  obtain ⟨-, hhook, hlabel⟩ := visit_rewrite h
  have hnone : a.label.hook = .none := by
    rw [← hhook]
    rcases namedArgument_cases hnamed with ⟨_, _, rfl⟩ | ⟨_, rfl⟩ | ⟨_, rfl⟩ <;> rfl
  exact (hlabel hnone).symm

/-- **An argument without a name gets one exactly by the expansion of a scalar macro.** -/
theorem namedArgument_visit {n : Nat} {active : List Chars} {functionName : Chars} {a a' : Ast}
    (hnone : namedArgument session functionName a = none)
    (h : Visitor.visit .outOfDepth (rewrite session) n active a = .ok a') :
    (namedArgument session functionName a').isSome ↔
      ∃ b, ArgumentExpands session active a b ∧ (namedArgument session functionName b).isSome := by
  constructor
  · intro hnamed
    have hlabel := label_of_named h hnamed
    obtain ⟨tag, cs⟩ := a
    rcases namedArgument_cases hnamed with ⟨name, cs', rfl⟩ | ⟨cs', rfl⟩ | ⟨v', rfl⟩
    · obtain rfl : tag = .argNamed name := hlabel
      obtain ⟨m, cs'', hcs, heq⟩ := visit_plain (by simp) (by simp) (not_isScalarCall (by simp) cs) h
      cases heq
      obtain ⟨v', rfl, hexpr⟩ := namedArgument_named_iff.1 hnamed
      obtain ⟨v, _, hv, hnil, rfl⟩ := List.forall₂_cons_right_iff.1 hcs
      obtain rfl := List.forall₂_nil_right_iff.1 hnil
      rw [isExpr_visit hv] at hexpr
      have hsome : (namedArgument session functionName (.node (.argNamed name) [v])).isSome :=
        namedArgument_named_iff.2 ⟨v, rfl, hexpr⟩
      rw [hnone] at hsome
      cases hsome
    · obtain rfl : tag = .argExprNamed := hlabel
      exact (label_visit_named functionName hnone h).1 hnamed
    · obtain rfl : tag = .argUnnamed := hlabel
      obtain ⟨m, cs'', hcs, heq⟩ := visit_plain (by simp) (by simp) (not_isScalarCall (by simp) cs) h
      cases heq
      obtain ⟨v, _, hv, hnil, rfl⟩ := List.forall₂_cons_right_iff.1 hcs
      obtain rfl := List.forall₂_nil_right_iff.1 hnil
      exact (unnamed_visit functionName hnone hv).1 hnamed
  · rintro ⟨b, hb, hnamed⟩
    have hunnamed : ∀ v, a = .node .argUnnamed [v] → (namedArgument session functionName a').isSome := by
      rintro v rfl
      obtain ⟨m, cs'', hcs, rfl⟩ := visit_plain (by simp) (by simp) (not_isScalarCall (by simp) [v]) h
      obtain ⟨v', _, hv, hnil, rfl⟩ := List.forall₂_cons_left_iff.1 hcs
      obtain rfl := List.forall₂_nil_left_iff.1 hnil
      exact (unnamed_visit functionName hnone hv).2 ⟨b, hb, hnamed⟩
    cases hb with
    | value _ => exact hunnamed _ rfl
    | left _ => exact hunnamed _ rfl
    | label hu => exact (label_visit_named functionName hnone h).2 ⟨_, .label hu, hnamed⟩

/-! ## Calls of table functions -/

theorem rewriteRelation_call (name : ObjectName) {fields : List Ast} (h : (argumentsOf fields).isSome) :
    rewriteRelation session (.node (.table name) fields) =
      .node (.table (collapseName name)) (fields.map (rewriteArguments session (functionNameOf name))) := by
  rw [rewriteRelation, if_pos h]
  rfl

theorem functionNameOf_collapseName (name : ObjectName) : functionNameOf (collapseName name) = functionNameOf name := by
  rw [functionNameOf, collapseName_twice, functionNameOf]

/-- An argument that has been given its form keeps it. -/
theorem carried_visit {n : Nat} {active : List Chars} {functionName name : Chars} {value a' : Ast}
    (h : Visitor.visit .outOfDepth (rewrite session) n active (carryNamed name value) = .ok a') :
    namedArgument session functionName a' = none := by
  rw [← Option.not_isSome_iff_eq_none, namedArgument_visit (namedArgument_carryNamed functionName name value) h]
  rintro ⟨b, hb, -⟩
  cases hb with
  | value hu =>
    obtain ⟨_, hname, -⟩ := expandsTo_call hu
    cases hname

/-- The arguments that a call ends with, each with the one that it was. -/
theorem arguments_visit {n : Nat} {active : List Chars} {functionName : Chars} {args : List Ast} {u : Ast}
    (h : Visitor.visit .outOfDepth (rewrite session) n active (rewriteArguments session functionName (.node .arguments args)) = .ok u) :
    ∃ m args', u = .node .arguments args' ∧ List.Forall₂ (fun a a' =>
      Visitor.visit .outOfDepth (rewrite session) m active (rewriteArgument session functionName a) = .ok a') args args' := by
  obtain ⟨m, args', hargs, rfl⟩ := visit_plain (by simp) (by simp) (not_isScalarCall (by simp) _) h
  exact ⟨m, args', rfl, List.forall₂_map_left_iff.1 hargs⟩

/-- The arguments that a call ends with come from arguments. -/
theorem arguments_of_visit {n : Nat} {active : List Chars} {functionName : Chars} {field : Ast} {args' : List Ast}
    (h : Visitor.visit .outOfDepth (rewrite session) n active (rewriteArguments session functionName field) =
      .ok (.node .arguments args')) : ∃ args, field = .node .arguments args := by
  obtain ⟨-, hhook, hlabel⟩ := visit_rewrite h
  have hnone : (rewriteArguments session functionName field).label.hook = .none := hhook.symm
  have hfield := hlabel hnone
  rw [label_rewriteArguments] at hfield
  obtain ⟨tag, args⟩ := field
  exact ⟨args, by rw [show tag = .arguments from hfield.symm]⟩

theorem noneNamed_of_not_givenLate {n : Nat} {active : List Chars} {name : ObjectName} {fields cs : List Ast}
    (hkey : tableMacroKey session (.node (.table name) fields) = none) (hlate : ¬GivenLate session active (.node (.table name) fields))
    (hcs : List.Forall₂ (fun c c' => Visitor.visit .outOfDepth (rewrite session) n active c = .ok c')
      (fields.map (rewriteArguments session (functionNameOf name))) cs) :
    NoneNamed session (.node (.table (collapseName name)) cs) := by
  rintro _ _ ⟨⟩ args' hargs' a' ha'
  rw [functionNameOf_collapseName]
  obtain ⟨_, hmem, hvisit⟩ := ListFacts.forall₂_mem_right hcs hargs'
  obtain ⟨field, hfield, rfl⟩ := List.mem_map.1 hmem
  obtain ⟨args, rfl⟩ := arguments_of_visit hvisit
  obtain ⟨m, _, heq, hargs⟩ := arguments_visit hvisit
  cases heq
  obtain ⟨a, ha, haa⟩ := ListFacts.forall₂_mem_right hargs ha'
  cases hnamed : namedArgument session (functionNameOf name) a with
  | some named =>
    rw [rewriteArgument, hnamed] at haa
    exact carried_visit haa
  | none =>
    rw [(rewriteArgument_eq_iff _ a).2 hnamed] at haa
    rw [← Option.not_isSome_iff_eq_none, namedArgument_visit hnamed haa]
    rintro ⟨b, hb, hsome⟩
    exact hlate ⟨hkey, name, fields, rfl, args, hfield, a, ha, hnamed, b, hb, hsome⟩

theorem not_givenLate_of_noneNamed {n : Nat} {active : List Chars} {name : ObjectName} {fields cs : List Ast}
    (hcs : List.Forall₂ (fun c c' => Visitor.visit .outOfDepth (rewrite session) n active c = .ok c')
      (fields.map (rewriteArguments session (functionNameOf name))) cs)
    (hnone : NoneNamed session (.node (.table (collapseName name)) cs)) :
    ¬GivenLate session active (.node (.table name) fields) := by
  rintro ⟨-, _, _, ⟨⟩, args, hargs, a, ha, hnamed, hlate⟩
  obtain ⟨_, hmem, hvisit⟩ := ListFacts.forall₂_mem_left hcs (List.mem_map_of_mem hargs)
  obtain ⟨m, args', rfl, hvisits⟩ := arguments_visit hvisit
  obtain ⟨a', ha', haa⟩ := ListFacts.forall₂_mem_left hvisits ha
  rw [(rewriteArgument_eq_iff _ a).2 hnamed] at haa
  have hsome := (namedArgument_visit hnamed haa).2 hlate
  have hnone' := hnone _ _ rfl args' hmem a' ha'
  rw [functionNameOf_collapseName] at hnone'
  rw [hnone'] at hsome
  cases hsome

/-- A call that a visit leaves as it is has no argument with a name. -/
theorem noneNamed_of_same {n : Nat} {active : List Chars} {name : ObjectName} {fields : List Ast}
    (hcs : List.Forall₂ (fun c c' => Visitor.visit .outOfDepth (rewrite session) n active c = .ok c')
      (fields.map (rewriteArguments session (functionNameOf name))) fields) : NoneNamed session (.node (.table name) fields) := by
  rintro _ _ ⟨⟩ args hargs a ha
  have hvisit := List.forall₂_same.1 (List.forall₂_map_left_iff.1 hcs) _ hargs
  obtain ⟨m, _, heq, hvisits⟩ := arguments_visit hvisit
  cases heq
  have haa := List.forall₂_same.1 hvisits a ha
  cases hnamed : namedArgument session (functionNameOf name) a with
  | none => rfl
  | some named =>
    rw [rewriteArgument, hnamed] at haa
    rw [← hnamed]
    exact carried_visit haa

/-! ## The whole visit -/

/-- How a call that is no macro is entered. -/
theorem pre_call {active : List Chars} {name : ObjectName} {fields : List Ast}
    (hkey : tableMacroKey session (.node (.table name) fields) = none) :
    (rewrite session).pre active (.node (.table name) fields) = .ok (active, rewriteRelation session (.node (.table name) fields)) :=
  pre_settled rfl (by rw [isTableCall, hkey]; simp)

theorem noneNamed_without {name : ObjectName} {fields : List Ast} (h : ¬(argumentsOf fields).isSome = true) :
    NoneNamed session (.node (.table name) fields) := by
  rintro _ _ ⟨⟩ args hargs
  exact absurd (argumentsOf_isSome_iff.2 ⟨_, hargs, rfl⟩) h

theorem noneNamed_other {t : Ast} (h : ∀ name, t.label ≠ .table name) : NoneNamed session t := by
  rintro name _ rfl
  exact absurd rfl (h name)

/-- A node ends without named arguments if none is given late. -/
theorem noneNamed_of_pre {n : Nat} {active active' : List Chars} {t t' : Ast} {cs : List Ast}
    (hpre : (rewrite session).pre active t = .ok (active', t')) (hlate : ¬GivenLate session active t)
    (hcs : List.Forall₂ (fun c c' => Visitor.visit .outOfDepth (rewrite session) n active' c = .ok c') t'.children cs) :
    NoneNamed session (.node t'.label cs) := by
  have hsort : List.Forall₂ SameSort t'.children cs := hcs.imp fun c c' hc => (visit_rewrite hc).2
  rcases pre_cases hpre with ⟨fields, rfl, rfl⟩ | ⟨name, fields, rfl, ⟨hkey, rfl⟩ | ⟨children, rfl⟩⟩ | ⟨rfl, -, hother⟩
  · exact noneNamed_other (by simp)
  · rw [pre_call hkey] at hpre
    cases hpre
    by_cases hargs : (argumentsOf fields).isSome = true
    · rw [rewriteRelation_call name hargs] at hcs ⊢
      exact noneNamed_of_not_givenLate hkey hlate hcs
    · rcases rewriteRelation_table session name fields with ⟨hargs', -⟩ | ⟨-, h⟩
      · exact absurd hargs' hargs
      · rw [h] at hsort ⊢
        exact noneNamed_without fun hsome => hargs (argumentsOf_sameSort hsort hsome)
  · exact noneNamed_other (by simp)
  · exact noneNamed_other hother

theorem everywhere_noneNamed_witnessRows {tag : Tag} {cs : List Ast} (hroot : NoneNamed session (.node tag cs))
    (h : ∀ c ∈ cs, LabelTree.Everywhere (NoneNamed session) c) :
    LabelTree.Everywhere (NoneNamed session) (witnessRows session (.node tag cs)) := by
  cases tag with
  | function name =>
    simp only [witnessRows]
    split
    · rw [LabelTree.everywhere_node, List.forall_mem_map]
      refine ⟨noneNamed_other (by simp), fun c hc => ?_⟩
      unfold addRowWitness
      split
      · simp only [rowWitness, LabelTree.everywhere_node, List.forall_mem_singleton, List.not_mem_nil, false_implies,
          implies_true, and_true]
        exact ⟨noneNamed_other (by simp), noneNamed_other (by simp), noneNamed_other (by simp), noneNamed_other (by simp),
          noneNamed_other (by simp)⟩
      · exact h c hc
    · exact LabelTree.everywhere_node.2 ⟨hroot, h⟩
  | _ => exact LabelTree.everywhere_node.2 ⟨hroot, h⟩

/-- **If no name is given late on the way, what is returned is settled.** -/
theorem settled_visit {n : Nat} {active : List Chars} {t u : Ast}
    (hlate : ∀ m r v, Visitor.Visits .outOfDepth (rewrite session) n active t m r v → ¬GivenLate session r v)
    (h : Visitor.visit .outOfDepth (rewrite session) n active t = .ok u) : Settled session u := by
  have hnone : LabelTree.Everywhere (NoneNamed session) u := by
    refine Visitor.visit_ok_visits (C := fun r v => ¬GivenLate session r v)
      (Q := fun _ _ u => LabelTree.Everywhere (NoneNamed session) u) ?_ ?_ n active t u hlate h
    · intro n active t active' t' cs u hlate hpre hcs hpost
      have hroot := noneNamed_of_pre hpre hlate (hcs.imp fun _ _ hc => hc.1)
      rcases postVisitExpr_cases session n active' (.node t'.label cs) with ⟨-, h⟩ | ⟨-, ⟨e, h⟩ | ⟨u, h, -, -⟩⟩
      · rw [h] at hpost
        cases hpost
        refine everywhere_noneNamed_witnessRows hroot fun c' hc' => ?_
        obtain ⟨c, -, -, hc⟩ := ListFacts.forall₂_mem_right hcs hc'
        exact hc
      · rw [h] at hpost
        cases hpost
      · rw [h] at hpost
        cases hpost
    · exact fun n active t active' t' cs active'' u r _ _ _ _ hr => hr
  exact fun s hs => ⟨prepared_visit h s hs, hnone s hs⟩

/-- How the visit of a call that is no macro ends. -/
theorem visit_call {n : Nat} {active : List Chars} {name : ObjectName} {fields : List Ast} {u : Ast}
    (hkey : tableMacroKey session (.node (.table name) fields) = none) (hargs : (argumentsOf fields).isSome)
    (h : Visitor.visit .outOfDepth (rewrite session) n active (.node (.table name) fields) = .ok u) :
    ∃ m cs, List.Forall₂ (fun c c' => Visitor.visit .outOfDepth (rewrite session) m active c = .ok c')
      (fields.map (rewriteArguments session (functionNameOf name))) cs ∧ u = .node (.table (collapseName name)) cs := by
  have hpre := @pre_call session active name fields hkey
  rw [rewriteRelation_call name hargs] at hpre
  obtain ⟨m, cs, hcs, rfl⟩ := visit_of_pre hpre (not_isScalarCall (by simp)) h
  exact ⟨m, cs, hcs, rfl⟩

/-- Where a name is given late, what is returned is not left as it is. -/
theorem not_givenLate_of_fixed {n m : Nat} {active : List Chars} {t u : Ast}
    (h : Visitor.visit .outOfDepth (rewrite session) n active t = .ok u)
    (hfixed : Visitor.visit .outOfDepth (rewrite session) m active u = .ok u) : ¬GivenLate session active t := by
  intro hlate
  have hcall := hlate
  obtain ⟨hkey, name, fields, rfl, args, hargs, -⟩ := hcall
  obtain ⟨k, cs, hcs, rfl⟩ := visit_call hkey (argumentsOf_isSome_iff.2 ⟨_, hargs, rfl⟩) h
  refine not_givenLate_of_noneNamed hcs ?_ hlate
  by_cases hsome : (argumentsOf cs).isSome = true
  · have hnone : tableMacroKey session (.node (.table (collapseName name)) cs) = none := by
      simpa [isTableCall] using (prepared_visit h).root.table
    obtain ⟨_, cs', hcs', heq⟩ := visit_call hnone hsome hfixed
    obtain rfl : cs = cs' := (LabelTree.node.inj heq).2
    exact noneNamed_of_same hcs'
  · exact noneNamed_without hsome

/-! ## The claim -/

theorem visited_rewrite {depth : Nat} {statement result : DFStatement} (h : rewriteVgiSql session depth statement = .ok result) :
    Option.Rel (fun t u => Visitor.visit .outOfDepth (rewrite session) depth [] t = .ok u) statement.visited result.visited := by
  induction statement generalizing result with
  | statement t =>
    obtain ⟨u, hu, h⟩ := except_of_bind_ok h
    cases h
    exact .some hu
  | explain statement ih =>
    obtain ⟨inner, hinner, h⟩ := except_of_bind_ok h
    cases h
    have hrest := ih hinner
    exact hrest
  | other t =>
    cases h
    exact .none

/-- A statement whose tree stays as it is stays as it is. -/
theorem rewriteVgiSql_fixed {depth : Nat} {statement : DFStatement}
    (h : ∀ t, statement.visited = some t → Visitor.visit .outOfDepth (rewrite session) depth [] t = .ok t) :
    rewriteVgiSql session depth statement = .ok statement := by
  induction statement with
  | statement t =>
    rw [rewriteVgiSql, h t rfl]
    rfl
  | explain statement ih =>
    have hinner := ih h
    rw [rewriteVgiSql, hinner]
    rfl
  | other t => rfl

/-- **A rewritten statement is left as it is by a second rewrite, and every part that was rewritten on the way by a second
visit, exactly if no scalar macro expands to the name of an argument of a table function that had none.** -/
theorem rewriteVgiSql_twice_iff {depth : Nat} {statement result : DFStatement} (h : rewriteVgiSql session depth statement = .ok result) :
    ((∃ deeper, rewriteVgiSql session deeper result = .ok result) ∧
      ∀ t, statement.visited = some t → ∀ m active s u, Visitor.Visits .outOfDepth (rewrite session) depth [] t m active s →
        Visitor.visit .outOfDepth (rewrite session) m active s = .ok u →
          ∀ again, ∃ deeper, Visitor.visit .outOfDepth (rewrite session) deeper again u = .ok u) ↔
      ∀ t, statement.visited = some t → ∀ m active s, Visitor.Visits .outOfDepth (rewrite session) depth [] t m active s →
        ¬GivenLate session active s := by
  have hvisited := visited_rewrite h
  constructor
  · rintro ⟨-, hparts⟩ t ht m active s hs
    rw [ht] at hvisited
    obtain ⟨u, hu⟩ : ∃ u, Visitor.visit .outOfDepth (rewrite session) depth [] t = .ok u := by
      generalize result.visited = visited at hvisited
      cases hvisited with
      | some hu => exact ⟨_, hu⟩
    obtain ⟨w, hw⟩ := Visitor.visits_ok hs hu
    obtain ⟨deeper, hfixed⟩ := hparts t ht m active s w hs hw active
    exact not_givenLate_of_fixed hw hfixed
  · intro hlate
    have hsettled : ∀ t, statement.visited = some t → ∀ m active s u,
        Visitor.Visits .outOfDepth (rewrite session) depth [] t m active s →
        Visitor.visit .outOfDepth (rewrite session) m active s = .ok u → Settled session u := fun t ht m active s u hs hu =>
      settled_visit (fun k r v hv => hlate t ht k r v (hs.trans hv)) hu
    constructor
    · cases hstatement : statement.visited with
      | none =>
        rw [hstatement] at hvisited
        have hnone : result.visited = none := by
          generalize result.visited = visited at hvisited
          cases hvisited
          rfl
        exact ⟨0, rewriteVgiSql_fixed fun t ht => by rw [hnone] at ht; cases ht⟩
      | some t =>
        rw [hstatement] at hvisited
        obtain ⟨u, hresult, hu⟩ : ∃ u, result.visited = some u ∧ Visitor.visit .outOfDepth (rewrite session) depth [] t = .ok u := by
          generalize result.visited = visited at hvisited
          cases hvisited with
          | some hu => exact ⟨_, rfl, hu⟩
        refine ⟨u.height, rewriteVgiSql_fixed fun t' ht' => ?_⟩
        rw [hresult] at ht'
        cases ht'
        exact visit_settled (hsettled t hstatement depth [] t u .here hu) [] (Nat.le_refl _)
    · exact fun t ht m active s u hs hu again =>
        ⟨u.height, visit_settled (hsettled t ht m active s u hs hu) again (Nat.le_refl _)⟩

/-- Without macros nothing is given late. -/
theorem not_givenLate_of_no_macros (hmacros : session.macros = []) (active : List Chars) (t : Ast) : ¬GivenLate session active t := by
  have hnone : ∀ t u, ¬ExpandsTo session active t u := by
    intro t u hu
    obtain ⟨name, -, hlookup⟩ := expandsTo_call hu
    cases hkey : macroKey name <;> simp [SqlSession.lookupMacro, hmacros, hkey] at hlookup
  rintro ⟨-, _, _, -, _, -, _, -, -, b, hb, -⟩
  cases hb with
  | value hu => exact hnone _ _ hu
  | left hu => exact hnone _ _ hu
  | label hu => exact hnone _ _ hu

theorem rewriteVgiSql_twice_plain :
    rewriteVgiSql emptySession 6 (.statement (selectFrom (joinedWith .semi))) =
        .ok (.statement (selectFrom (joinedWith .leftSemi))) ∧
      ∃ deeper, rewriteVgiSql emptySession deeper (.statement (selectFrom (joinedWith .leftSemi))) =
        .ok (.statement (selectFrom (joinedWith .leftSemi))) :=
  ⟨rfl, ((@rewriteVgiSql_twice_iff emptySession 6 (.statement (selectFrom (joinedWith .semi))) _ rfl).2
    fun _ _ _ active s _ => not_givenLate_of_no_macros rfl active s).1⟩

def settingName : ObjectName := [identName "cat".toList, identName "main".toList, identName "setting".toList]

/-- With the scalar macro `setting() := opt = 1`; the table functions have an option `opt`. -/
def settingSession : SqlSession :=
  { emptySession with
    macros := [("cat.main.setting".toList, [
      { takes [] with body := .scalar ⟨.node .eq [parameterName "opt", literal "1"], rfl⟩ }])]
    isDeclaredNamedTableArgument := fun _ option => option = "opt".toList }

/-- `SELECT .. FROM f(..)` -/
def fromFunction (argument : Ast) : Ast :=
  selectFrom (.node .tableWithJoins [.node (.table [identName ['f']]) [.node .arguments [argument]]])

/-- `f(cat.main.setting())` becomes `f(opt = 1)`, and the second time `opt` is taken for a name. -/
theorem rewriteVgiSql_twice_setting :
    rewriteVgiSql settingSession 20
        (.statement (fromFunction (.node .argUnnamed [.node (.function settingName) [.node .arguments []]]))) =
      .ok (.statement (fromFunction (.node .argUnnamed [.node .eq [parameterName "opt", literal "1"]]))) ∧
    rewriteVgiSql settingSession 20 (.statement (fromFunction (.node .argUnnamed [.node .eq [parameterName "opt", literal "1"]]))) =
      .ok (.statement (fromFunction (carryNamed "opt".toList (literal "1").1))) ∧
    fromFunction (carryNamed "opt".toList (literal "1").1) ≠
      fromFunction (.node .argUnnamed [.node .eq [parameterName "opt", literal "1"]]) :=
  ⟨rfl, rfl, by simp [fromFunction, selectFrom, carryNamed]⟩

end VgiDatafusion.Sql
