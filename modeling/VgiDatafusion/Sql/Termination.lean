import VgiDatafusion.Sql.Rewrite

/-!
# The rewrite ends, and no macro call is left (session.rs:564-698, 1711-1954)

Both guards bound the nesting: a macro is entered at most once on a path, and there are finitely many. At one level of
table macros the measure is whether a tree has calls of scalar macros, and then its size: what a call of a scalar macro
becomes has none (`scalarFree_expandNested`), so its second visit can only go down.
-/
namespace VgiDatafusion.Sql

section
variable (session : SqlSession)

def isScalarCall (t : Ast) : Prop := ∃ name, t.label = .function name ∧ (session.lookupMacro name).isSome

def isTableCall (t : Ast) : Prop := (tableMacroKey session t).isSome

def ScalarFree : Ast → Prop := LabelTree.Everywhere fun t => ¬isScalarCall session t

def CallFree : Ast → Prop := LabelTree.Everywhere fun t => ¬isScalarCall session t ∧ ¬isTableCall session t

/-- The macros that are not active. -/
def inactive (active : List Chars) : List Chars := (session.macros.map (·.1)).filter (!active.contains ·)

end

variable {session : SqlSession}

/-! ## Keys -/

theorem macroKey_of_lookup {name : ObjectName} {family : List SqlMacro} (h : session.lookupMacro name = some family) :
    ∃ key, macroKey name = some key ∧ key ∈ session.macros.map (·.1) := by
  obtain ⟨key, hkey, hlookup⟩ := Option.bind_eq_some_iff.1 h
  exact ⟨key, hkey, List.mem_map_of_mem (ListFacts.mem_of_lookup hlookup)⟩

theorem inactive_lt {active active' : List Chars} {key : Chars} (hkey : key ∈ session.macros.map (·.1))
    (hnew : key ∉ active) (hactive : ∀ k, k ∈ active' ↔ k ∈ active ∨ k = key) :
    (inactive session active').length < (inactive session active).length := by
  have hsub : inactive session active' = (inactive session active).filter fun k => k ≠ key := by
    rw [inactive, inactive, List.filter_filter]
    refine List.filter_congr fun k _ => ?_
    simp [hactive, Bool.and_comm]
  have hmem : key ∈ inactive session active := List.mem_filter.2 ⟨hkey, by simpa using hnew⟩
  rw [hsub]
  exact List.length_filter_lt_length_iff_exists.2 ⟨key, hmem, by simp⟩

variable (session) in
/-- What the calls of a macro are. -/
theorem scalarCall_cases (t : Ast) :
    (¬isScalarCall session t ∧ scalarCall session t = .ok none) ∨
    (isScalarCall session t ∧ ((∃ text, scalarCall session t = .error (.plan text)) ∨
      ∃ key body, key ∈ session.macros.map (·.1) ∧ scalarCall session t = .ok (some (key, body)))) := by
  obtain ⟨tag, fields⟩ := t
  cases tag with
  | function name =>
    cases hlookup : session.lookupMacro name with
    | none =>
      left
      constructor
      · rintro ⟨name', hname, hsome⟩
        cases hname
        rw [hlookup] at hsome
        cases hsome
      · simp only [scalarCall, hlookup]
        cases macroKey name <;> rfl
    | some family =>
      obtain ⟨key, hkey, hmem⟩ := macroKey_of_lookup hlookup
      right
      refine ⟨⟨name, rfl, by rw [hlookup]; rfl⟩, ?_⟩
      simp only [scalarCall, hlookup, hkey]
      cases openScalar session name family fields with
      | error text => exact .inl ⟨text, rfl⟩
      | ok body => exact .inr ⟨key, body, hmem, rfl⟩
  | _ =>
    left
    refine ⟨?_, rfl⟩
    rintro ⟨name, hname, -⟩
    cases hname

theorem enterScalar_cases (active : List Chars) (key : Chars) :
    (key ∈ active ∧ ∃ cycle, enterScalar active key = .error (.recursiveScalar cycle)) ∨
    (key ∉ active ∧ enterScalar active key = .ok (active ++ [key])) := by
  rw [enterScalar]
  cases hfind : active.findIdx? (· = key) with
  | some start =>
    have hsome : (active.findIdx? (· = key)).isSome := by rw [hfind]; rfl
    rw [List.findIdx?_isSome] at hsome
    exact .inl ⟨by simpa using hsome, _, rfl⟩
  | none =>
    rw [List.findIdx?_eq_none_iff] at hfind
    refine .inr ⟨fun h => ?_, rfl⟩
    simpa using hfind key h

theorem openTable_ok {name : ObjectName} {family : List SqlMacro} {fields arguments : List Ast} {t : Ast}
    (h : openTable session name family fields arguments = .ok t) : ∃ fields, t = .node (.derived false) fields := by
  obtain ⟨-, -, h⟩ := except_of_bind_ok h
  obtain ⟨⟨info, actual⟩, -, h⟩ := except_of_bind_ok h
  cases hbody : info.body with
  | table template =>
    simp only [hbody] at h
    cases h
    exact ⟨_, rfl⟩
  | scalar template =>
    simp only [hbody] at h
    cases h
  | invalid error =>
    simp only [hbody] at h
    cases h

theorem expandTableMacro_cases (t : Ast) :
    (tableMacroKey session t = none ∧ expandTableMacro session t = .ok none) ∨
    ∃ key, key ∈ session.macros.map (·.1) ∧ tableMacroKey session t = some key ∧
      ((∃ text, expandTableMacro session t = .error (.plan text)) ∨
        ∃ fields, expandTableMacro session t = .ok (some (.node (.derived false) fields))) := by
  obtain ⟨tag, fields⟩ := t
  cases tag with
  | table name =>
    cases hlookup : session.lookupMacro name with
    | none =>
      left
      simp only [tableMacroKey, expandTableMacro, hlookup]
      cases argumentsOf fields <;> simp
    | some family =>
      cases hargs : argumentsOf fields with
      | none =>
        left
        simp [tableMacroKey, expandTableMacro, hargs]
      | some arguments =>
        obtain ⟨key, hkey, hmem⟩ := macroKey_of_lookup hlookup
        right
        refine ⟨key, hmem, by simp [tableMacroKey, hargs, hlookup, hkey], ?_⟩
        simp only [expandTableMacro, hargs, hlookup]
        cases hopen : openTable session name family fields arguments with
        | error text => exact .inl ⟨text, rfl⟩
        | ok t =>
          obtain ⟨children, rfl⟩ := openTable_ok hopen
          exact .inr ⟨children, rfl⟩
  | _ => exact .inl ⟨rfl, rfl⟩

/-! ## The scalar macros -/

theorem steady_expandNested : (expandNested session).Steady .outOfDepth := fun _ _ _ => Follows.refl _

/-- What the call of a scalar macro becomes. -/
theorem postNested_cases (depth : Nat) (active : List Chars) (t : Ast) :
    (¬isScalarCall session t ∧ (expandNested session).post depth active t = .ok (.done t)) ∨
    (∃ text, (expandNested session).post depth active t = .error (.plan text)) ∨
    (∃ cycle, (expandNested session).post depth active t = .error (.recursiveScalar cycle)) ∨
    ∃ key body, key ∈ session.macros.map (·.1) ∧ key ∉ active ∧ scalarCall session t = .ok (some (key, body)) ∧
      (expandNested session).post depth active t = .ok (.again (active ++ [key]) body.1) := by
  simp only [expandNested]
  rcases scalarCall_cases session t with ⟨hnot, hcall⟩ | ⟨-, ⟨text, hcall⟩ | ⟨key, body, hmem, hcall⟩⟩
  · exact .inl ⟨hnot, by rw [hcall]; rfl⟩
  · exact .inr (.inl ⟨text, by rw [hcall]; rfl⟩)
  · rcases enterScalar_cases active key with ⟨-, cycle, henter⟩ | ⟨hnew, henter⟩
    · refine .inr (.inr (.inl ⟨cycle, ?_⟩))
      rw [hcall]
      show (enterScalar active key >>= _) = _
      rw [henter]
      rfl
    · refine .inr (.inr (.inr ⟨key, body, hmem, hnew, hcall, ?_⟩))
      rw [hcall]
      show (enterScalar active key >>= _) = _
      rw [henter]
      rfl

variable (session) in
theorem halts_expandNested (active : List Chars) : ∀ t, Visitor.Halts .outOfDepth (expandNested session) active t := by
  induction hn : (inactive session active).length using Nat.strongRecOn generalizing active with
  | ind n ihn =>
    intro t
    induction t using LabelTree.induct with
    | h tag cs ih =>
      refine Visitor.halts_node steady_expandNested (fun h => by cases h) ?_
      rintro _ _ ⟨⟩
      refine ⟨ih, fun depth cs' _ => ⟨⟨0, ?_⟩, ?_⟩⟩
      · rcases postNested_cases 0 active (.node tag cs') with ⟨-, h⟩ | ⟨_, h⟩ | ⟨_, h⟩ | ⟨_, _, -, -, -, h⟩ <;>
          (rw [LabelTree.label_node, h]; exact fun hlimit => by cases hlimit)
      · intro m active' u hagain
        rcases postNested_cases m active (.node tag cs') with ⟨-, h⟩ | ⟨_, h⟩ | ⟨_, h⟩ | ⟨key, body, hmem, hnew, -, h⟩
        · rw [LabelTree.label_node, h] at hagain
          cases hagain
        · rw [LabelTree.label_node, h] at hagain
          cases hagain
        · rw [LabelTree.label_node, h] at hagain
          cases hagain
        · rw [LabelTree.label_node, h] at hagain
          cases hagain
          have hlt := inactive_lt hmem hnew fun k => (by simp : k ∈ active ++ [key] ↔ k ∈ active ∨ k = key)
          exact ihn _ (hn ▸ hlt) _ rfl body.1

/-- An expression stays an expression, a relation a relation, and anything without a hook keeps its label. -/
def SameSort (t u : Ast) : Prop := u.label.hook = t.label.hook ∧ (t.label.hook = .none → u.label = t.label)

theorem SameSort.of_label {t u : Ast} (h : u.label = t.label) : SameSort t u := ⟨by rw [h], fun _ => h⟩

theorem SameSort.trans {t u v : Ast} (htu : SameSort t u) (huv : SameSort u v) : SameSort t v :=
  ⟨huv.1.trans htu.1, fun h => (huv.2 (htu.1.trans h)).trans (htu.2 h)⟩

theorem SameSort.of_expr {t u : Ast} (ht : t.label.hook = .expr) (hu : u.label.hook = .expr) : SameSort t u :=
  ⟨hu.trans ht.symm, fun h => by rw [ht] at h; cases h⟩

theorem hook_of_isExpr {t : Ast} (h : Ast.isExpr t = true) : t.label.hook = .expr := by
  simpa [Ast.isExpr] using h

theorem isScalarCall_of_some {t : Ast} {call : Chars × Expr} (h : scalarCall session t = .ok (some call)) :
    isScalarCall session t := by
  rcases scalarCall_cases session t with ⟨-, hnone⟩ | ⟨hcall, -⟩
  · rw [hnone] at h
    cases h
  · exact hcall

theorem hook_of_isScalarCall {t : Ast} (h : isScalarCall session t) : t.label.hook = .expr := by
  obtain ⟨name, hname, -⟩ := h
  rw [hname]
  rfl

/-- Nothing that a visit of the scalar macros returns has a call of one. -/
theorem visit_expandNested {n : Nat} {active : List Chars} {t u : Ast}
    (h : Visitor.visit .outOfDepth (expandNested session) n active t = .ok u) : ScalarFree session u ∧ SameSort t u := by
  refine Visitor.visit_ok (Q := fun _ t u => ScalarFree session u ∧ SameSort t u) ?_ ?_ n active t u h
  · intro n active t _ _ cs u hpre hcs hpost
    cases hpre
    rcases postNested_cases n active (.node t.label cs) with ⟨hnot, h⟩ | ⟨_, h⟩ | ⟨_, h⟩ | ⟨_, _, -, -, -, h⟩
    · rw [h] at hpost
      cases hpost
      refine ⟨LabelTree.everywhere_node.2 ⟨hnot, fun c hc => ?_⟩, .of_label rfl⟩
      obtain ⟨c', -, hfree, -⟩ := ListFacts.forall₂_mem_right hcs hc
      exact hfree
    · rw [h] at hpost
      cases hpost
    · rw [h] at hpost
      cases hpost
    · rw [h] at hpost
      cases hpost
  · intro n active t _ _ cs active' u r hpre hcs hpost hr
    cases hpre
    rcases postNested_cases n active (.node t.label cs) with ⟨-, h⟩ | ⟨_, h⟩ | ⟨_, h⟩ | ⟨_, body, -, -, hcall, h⟩
    · rw [h] at hpost
      cases hpost
    · rw [h] at hpost
      cases hpost
    · rw [h] at hpost
      cases hpost
    · rw [h] at hpost
      cases hpost
      have ht : (LabelTree.node t.label cs).label.hook = .expr := hook_of_isScalarCall (isScalarCall_of_some hcall)
      exact ⟨hr.1, .of_expr ht (hr.2.1.trans (hook_of_isExpr body.2))⟩

variable (session) in
theorem expandScalarMacro_cases (depth : Nat) (t : Ast) :
    (¬isScalarCall session t ∧ expandScalarMacro session depth [] t = .ok none) ∨
    (isScalarCall session t ∧ ((∃ e, expandScalarMacro session depth [] t = .error e) ∨
      ∃ u, expandScalarMacro session depth [] t = .ok (some u) ∧ ScalarFree session u ∧ u.label.hook = .expr)) := by
  rcases scalarCall_cases session t with ⟨hnot, hcall⟩ | ⟨hcall, ⟨text, hopen⟩ | ⟨key, body, -, hopen⟩⟩
  · exact .inl ⟨hnot, by rw [expandScalarMacro, hcall]; rfl⟩
  · exact .inr ⟨hcall, .inl ⟨.plan text, by rw [expandScalarMacro, hopen]; rfl⟩⟩
  · refine .inr ⟨hcall, ?_⟩
    have hstart : expandScalarMacro session depth [] t =
        (Visitor.visit .outOfDepth (expandNested session) depth [key] body.1).map some := by
      rw [expandScalarMacro, hopen]
      rfl
    cases hvisit : Visitor.visit .outOfDepth (expandNested session) depth [key] body.1 with
    | error e => exact .inl ⟨e, hstart.trans (by rw [hvisit]; rfl)⟩
    | ok u =>
      obtain ⟨hfree, hsort⟩ := visit_expandNested hvisit
      exact .inr ⟨u, hstart.trans (by rw [hvisit]; rfl), hfree, hsort.1.trans (hook_of_isExpr body.2)⟩

variable (session) in
/-- What is done after the children of a node. -/
theorem postVisitExpr_cases (depth : Nat) (active : List Chars) (t : Ast) :
    (¬isScalarCall session t ∧ (rewrite session).post depth active t = .ok (.done (witnessRows session t))) ∨
    (isScalarCall session t ∧ ((∃ e, (rewrite session).post depth active t = .error e) ∨
      ∃ u, (rewrite session).post depth active t = .ok (.again active u) ∧ ScalarFree session u ∧ u.label.hook = .expr)) := by
  simp only [rewrite, Rewrite.postVisitExpr]
  rcases expandScalarMacro_cases session depth t with ⟨hnot, h⟩ | ⟨hcall, ⟨e, h⟩ | ⟨u, h, hfree, hsort⟩⟩
  · exact .inl ⟨hnot, by rw [h]; rfl⟩
  · exact .inr ⟨hcall, .inl ⟨e, by rw [h]; rfl⟩⟩
  · exact .inr ⟨hcall, .inr ⟨u, by rw [h]; rfl, hfree, hsort⟩⟩

/-! ## The relations -/

variable (session) in
theorem preVisitTableFactor_cases (active : List Chars) (t : Ast) :
    (tableMacroKey session t = none ∧
      Rewrite.preVisitTableFactor session active t = .ok (active, rewriteRelation session t)) ∨
    ∃ key, key ∈ session.macros.map (·.1) ∧ tableMacroKey session t = some key ∧
      ((key ∈ active ∧ Rewrite.preVisitTableFactor session active t = .error (.recursiveTable key)) ∨
      (∃ text, Rewrite.preVisitTableFactor session active t = .error (.plan text)) ∨
      ∃ fields, key ∉ active ∧
        Rewrite.preVisitTableFactor session active t = .ok (key :: active, .node (.derived false) fields)) := by
  rcases expandTableMacro_cases t with ⟨hkey, -⟩ | ⟨key, hmem, hkey, hexpand⟩
  · exact .inl ⟨hkey, by rw [Rewrite.preVisitTableFactor, hkey]; rfl⟩
  · refine .inr ⟨key, hmem, hkey, ?_⟩
    simp only [Rewrite.preVisitTableFactor, hkey]
    by_cases hactive : key ∈ active
    · exact .inl ⟨hactive, by simp [hactive]⟩
    · have hcontains : active.contains key = false := by simpa using hactive
      rcases hexpand with ⟨text, hexpand⟩ | ⟨fields, hexpand⟩
      · exact .inr (.inl ⟨text, by simp only [hcontains, hexpand]; rfl⟩)
      · exact .inr (.inr ⟨fields, hactive, by simp only [hcontains, hexpand]; rfl⟩)

theorem pre_ne_limit (active : List Chars) (t : Ast) : (rewrite session).pre active t ≠ .error .outOfDepth := by
  show Rewrite.preVisitTableFactor session active (Rewrite.preVisitSelect t) ≠ _
  rcases preVisitTableFactor_cases session active (Rewrite.preVisitSelect t) with
    ⟨-, h⟩ | ⟨_, _, _, ⟨-, h⟩ | ⟨_, h⟩ | ⟨_, -, h⟩⟩ <;>
  · rw [h]
    exact fun hlimit => by cases hlimit

theorem steady_expandScalarMacro (n : Nat) (active : List Chars) (t : Ast) :
    Follows (· = .outOfDepth) Eq (expandScalarMacro session n active t) (expandScalarMacro session (n + 1) active t) := by
  refine (Follows.refl (scalarCall session t)).bind fun call _ _ h => ?_
  subst h
  cases call with
  | none => exact Follows.refl _
  | some call =>
    refine (Follows.refl (enterScalar active call.1)).bind fun active' _ _ h => ?_
    subst h
    refine (Visitor.visit_steady steady_expandNested n active' call.2.1).bind fun u _ _ h => ?_
    subst h
    exact Follows.refl _

theorem steady_rewrite : (rewrite session).Steady .outOfDepth := by
  intro n active t
  refine (steady_expandScalarMacro n [] t).bind fun expanded _ _ h => ?_
  subst h
  exact Follows.refl _

/-! ## The end of the rewrite -/

/-- A node that is no call of a scalar macro. -/
theorem halts_plain {active active' : List Chars} {t t' : Ast} (hpre : (rewrite session).pre active t = .ok (active', t'))
    (hcall : ∀ cs, ¬isScalarCall session (.node t'.label cs))
    (h : ∀ c ∈ t'.children, Visitor.Halts .outOfDepth (rewrite session) active' c) :
    Visitor.Halts .outOfDepth (rewrite session) active t := by
  have hpost : ∀ depth cs, (rewrite session).post depth active' (.node t'.label cs) =
      .ok (.done (witnessRows session (.node t'.label cs))) := by
    intro depth cs
    rcases postVisitExpr_cases session depth active' (.node t'.label cs) with ⟨-, h⟩ | ⟨h, -⟩
    · exact h
    · exact absurd h (hcall cs)
  refine Visitor.halts_node steady_rewrite (pre_ne_limit _ _) ?_
  intro _ _ hok
  rw [hpre] at hok
  cases hok
  refine ⟨h, fun n cs _ => ⟨⟨0, ?_⟩, ?_⟩⟩
  · rw [hpost]
    exact fun h => by cases h
  · intro m _ u hagain
    rw [hpost] at hagain
    cases hagain

theorem pre_other {tag : Tag} (hselect : tag ≠ .select) (htable : ∀ name, tag ≠ .table name) (active : List Chars)
    (cs : List Ast) : (rewrite session).pre active (.node tag cs) = .ok (active, .node tag cs) := by
  cases tag with
  | select => exact absurd rfl hselect
  | table name => exact absurd rfl (htable name)
  | _ => rfl

/-- A node that neither hook changes. -/
theorem halts_inert {active : List Chars} {tag : Tag} {cs : List Ast} (hselect : tag ≠ .select)
    (htable : ∀ name, tag ≠ .table name) (hcall : ∀ cs, ¬isScalarCall session (.node tag cs))
    (h : ∀ c ∈ cs, Visitor.Halts .outOfDepth (rewrite session) active c) :
    Visitor.Halts .outOfDepth (rewrite session) active (.node tag cs) :=
  halts_plain (pre_other hselect htable active cs) hcall h

theorem not_isScalarCall {tag : Tag} (h : ∀ name, tag ≠ .function name) (cs : List Ast) :
    ¬isScalarCall session (.node tag cs) := fun ⟨name, hname, _⟩ => h name hname

section
variable {active : List Chars}

/-- All nodes of a tree. -/
def AllHalt (session : SqlSession) (active : List Chars) : Ast → Prop :=
  LabelTree.Everywhere (Visitor.Halts .outOfDepth (rewrite session) active)

theorem AllHalt.children {tag : Tag} {cs : List Ast} (h : AllHalt session active (.node tag cs)) {c : Ast} (hc : c ∈ cs) :
    AllHalt session active c := LabelTree.Everywhere.child h hc

theorem halts_normaliseJoin {t : Ast} (h : AllHalt session active t) :
    Visitor.Halts .outOfDepth (rewrite session) active (normaliseJoin t) := by
  obtain ⟨tag, cs⟩ := t
  cases tag with
  | join operator =>
    exact halts_inert (by simp) (by simp) (not_isScalarCall (by simp)) fun c hc => (h.children hc).root
  | _ => exact h.root

theorem halts_normaliseRelation {t : Ast} (h : AllHalt session active t) :
    Visitor.Halts .outOfDepth (rewrite session) active (normaliseRelation t) := by
  obtain ⟨tag, cs⟩ := t
  cases tag with
  | tableWithJoins =>
    refine halts_inert (by simp) (by simp) (not_isScalarCall (by simp)) ?_
    rw [List.forall_mem_map]
    exact fun c hc => halts_normaliseJoin (h.children hc)
  | _ => exact h.root

theorem halts_normaliseFrom {t : Ast} (h : AllHalt session active t) :
    Visitor.Halts .outOfDepth (rewrite session) active (normaliseFrom t) := by
  obtain ⟨tag, cs⟩ := t
  cases tag with
  | selectFrom =>
    refine halts_inert (by simp) (by simp) (not_isScalarCall (by simp)) ?_
    rw [List.forall_mem_map]
    exact fun c hc => halts_normaliseRelation (h.children hc)
  | _ => exact h.root

theorem namedArgument_subtree {functionName name : Chars} {argument value : Ast}
    (h : namedArgument session functionName argument = some (name, value)) : LabelTree.Subtree value argument := by
  unfold namedArgument at h
  split at h
  · split at h
    · cases h
      exact .child List.mem_cons_self .refl
    · cases h
  · split at h
    · cases h
      exact .child (List.mem_cons_of_mem _ List.mem_cons_self) .refl
    · cases h
  · split at h
    · cases h
      exact .child List.mem_cons_self (.child (List.mem_cons_of_mem _ List.mem_cons_self) .refl)
    · cases h
  · cases h

theorem halts_carryNamed (name : Chars) {value : Ast} (h : Visitor.Halts .outOfDepth (rewrite session) active value) :
    Visitor.Halts .outOfDepth (rewrite session) active (carryNamed name value) := by
  have hone : ∀ {tag : Tag} {c : Ast}, tag ≠ .select → (∀ name, tag ≠ .table name) → (∀ name, tag ≠ .function name) →
      Visitor.Halts .outOfDepth (rewrite session) active c →
        Visitor.Halts .outOfDepth (rewrite session) active (.node tag [c]) := by
    intro tag c hselect htable hfunction hc
    exact halts_inert hselect htable (not_isScalarCall hfunction) (by simpa using hc)
  exact hone (by simp) (by simp) (by simp) (hone (by simp) (by simp) (by simp) (hone (by simp) (by simp) (by simp) h))

theorem halts_rewriteArguments (functionName : Chars) {t : Ast} (h : AllHalt session active t) :
    Visitor.Halts .outOfDepth (rewrite session) active (rewriteArguments session functionName t) := by
  obtain ⟨tag, cs⟩ := t
  cases tag with
  | arguments =>
    refine halts_inert (by simp) (by simp) (not_isScalarCall (by simp)) ?_
    rw [List.forall_mem_map]
    intro c hc
    unfold rewriteArgument
    split
    · rename_i name value hnamed
      exact halts_carryNamed name (h.children hc value (namedArgument_subtree hnamed))
    · exact (h.children hc).root
  | _ => exact h.root

/-- The children of a relation that is no call of a macro. -/
theorem halts_rewriteRelation {name : ObjectName} {fields : List Ast} (h : ∀ field ∈ fields, AllHalt session active field) :
    ∀ c ∈ (rewriteRelation session (.node (.table name) fields)).children,
      Visitor.Halts .outOfDepth (rewrite session) active c := by
  simp only [rewriteRelation]
  split
  · rw [LabelTree.children_node, List.forall_mem_map]
    exact fun field hfield => halts_rewriteArguments _ (h field hfield)
  · exact fun field hfield => (h field hfield).root

theorem halts_refused {t : Ast} {e : Failure} (h : (rewrite session).pre active t = .error e) :
    Visitor.Halts .outOfDepth (rewrite session) active t := by
  refine Visitor.halts_node steady_rewrite (pre_ne_limit _ _) ?_
  intro _ _ hok
  rw [h] at hok
  cases hok

theorem halts_table (hdeeper : ∀ active', (inactive session active').length < (inactive session active).length →
      ∀ t, Visitor.Halts .outOfDepth (rewrite session) active' t) {name : ObjectName} {fields : List Ast}
    (h : ∀ field ∈ fields, AllHalt session active field) :
    Visitor.Halts .outOfDepth (rewrite session) active (.node (.table name) fields) := by
  rcases preVisitTableFactor_cases session active (.node (.table name) fields) with
    ⟨-, hpre⟩ | ⟨key, hmem, -, ⟨-, hpre⟩ | ⟨text, hpre⟩ | ⟨children, hnew, hpre⟩⟩
  · refine halts_plain hpre ?_ (halts_rewriteRelation h)
    intro cs
    simp only [rewriteRelation]
    split <;> exact not_isScalarCall (by simp) cs
  · exact halts_refused hpre
  · exact halts_refused hpre
  · have hlt := inactive_lt hmem hnew fun k => (by simp [or_comm] : k ∈ key :: active ↔ k ∈ active ∨ k = key)
    exact halts_plain hpre (not_isScalarCall (by simp)) fun c _ => hdeeper _ hlt c

variable (session) in
theorem expandScalarMacro_ends (t : Ast) : ∃ depth, expandScalarMacro session depth [] t ≠ .error .outOfDepth := by
  rcases scalarCall_cases session t with ⟨-, hcall⟩ | ⟨-, ⟨text, hcall⟩ | ⟨key, body, -, hcall⟩⟩
  · exact ⟨0, by rw [expandScalarMacro, hcall]; exact fun h => by cases h⟩
  · exact ⟨0, by rw [expandScalarMacro, hcall]; exact fun h => by cases h⟩
  · obtain ⟨depth, hdepth⟩ := halts_expandNested session [key] body.1
    refine ⟨depth, ?_⟩
    rw [expandScalarMacro, hcall]
    show (Visitor.visit .outOfDepth (expandNested session) depth [key] body.1 >>= fun expanded => pure (some expanded)) ≠ _
    cases hvisit : Visitor.visit .outOfDepth (expandNested session) depth [key] body.1 with
    | error e =>
      rw [hvisit] at hdepth
      intro hlimit
      cases hlimit
      exact hdepth rfl
    | ok u => exact fun h => by cases h

/-- A call of a scalar macro, and what becomes of it. -/
theorem halts_scalarCall {tag : Tag} {cs : List Ast} (hcall : isScalarCall session (.node tag cs))
    (hchildren : ∀ c ∈ cs, Visitor.Halts .outOfDepth (rewrite session) active c)
    (h : ∀ u, ScalarFree session u → Visitor.Halts .outOfDepth (rewrite session) active u) :
    Visitor.Halts .outOfDepth (rewrite session) active (.node tag cs) := by
  obtain ⟨name, hname, -⟩ := id hcall
  cases hname
  refine Visitor.halts_node steady_rewrite (pre_ne_limit _ _) ?_
  rintro _ _ ⟨⟩
  refine ⟨hchildren, fun _ cs' _ => ⟨?_, ?_⟩⟩
  · obtain ⟨depth, hdepth⟩ := expandScalarMacro_ends session (.node (.function name) cs')
    refine ⟨depth, ?_⟩
    show (expandScalarMacro session depth [] (.node (.function name) cs') >>= _) ≠ _
    cases hexpand : expandScalarMacro session depth [] (.node (.function name) cs') with
    | error e =>
      rw [hexpand] at hdepth
      intro hlimit
      cases hlimit
      exact hdepth rfl
    | ok expanded =>
      cases expanded with
      | none => exact fun h => by cases h
      | some u => exact fun h => by cases h
  · intro m active' u hagain
    change (rewrite session).post m active (.node (.function name) cs') = _ at hagain
    rcases postVisitExpr_cases session m active (.node (.function name) cs') with
      ⟨hnot, -⟩ | ⟨-, ⟨e, hpost⟩ | ⟨v, hpost, hfree, -⟩⟩
    · exact absurd hcall hnot
    · rw [hpost] at hagain
      cases hagain
    · rw [hpost] at hagain
      cases hagain
      exact h _ hfree

/-- If every visit with one more active table macro ends, a visit ends where the visits end of what the calls of scalar
macros become. -/
theorem allHalt_of (hdeeper : ∀ active', (inactive session active').length < (inactive session active).length →
      ∀ t, Visitor.Halts .outOfDepth (rewrite session) active' t) (t : Ast)
    (hcalls : LabelTree.Everywhere (fun s => isScalarCall session s → ∀ u, ScalarFree session u →
      Visitor.Halts .outOfDepth (rewrite session) active u) t) : AllHalt session active t := by
  induction t using LabelTree.induct with
  | h tag cs ih =>
    have hchildren : ∀ c ∈ cs, AllHalt session active c := fun c hc => ih c hc (hcalls.child hc)
    refine LabelTree.everywhere_node.2 ⟨?_, hchildren⟩
    by_cases hcall : isScalarCall session (.node tag cs)
    · exact halts_scalarCall hcall (fun c hc => (hchildren c hc).root) (hcalls.root hcall)
    have hsame : ∀ cs', ¬isScalarCall session (.node tag cs') := fun cs' h => hcall h
    by_cases hselect : tag = .select
    · subst hselect
      have hpre : (rewrite session).pre active (.node .select cs) = .ok (active, .node .select (cs.map normaliseFrom)) := rfl
      refine halts_plain hpre hsame ?_
      rw [LabelTree.children_node, List.forall_mem_map]
      exact fun c hc => halts_normaliseFrom (hchildren c hc)
    by_cases htable : ∃ name, tag = .table name
    · obtain ⟨name, rfl⟩ := htable
      exact halts_table hdeeper hchildren
    · exact halts_inert hselect (fun name h => htable ⟨name, h⟩) hsame fun c hc => (hchildren c hc).root

end

variable (session) in
/-- **Every rewrite ends.** -/
theorem halts_rewrite (active : List Chars) : ∀ t, Visitor.Halts .outOfDepth (rewrite session) active t := by
  induction hn : (inactive session active).length using Nat.strongRecOn generalizing active with
  | ind n ihn =>
    intro t
    have hdeeper : ∀ active', (inactive session active').length < (inactive session active).length →
        ∀ t, Visitor.Halts .outOfDepth (rewrite session) active' t := fun active' hlt => ihn _ (hn ▸ hlt) active' rfl
    have hfree : ∀ u, ScalarFree session u → Visitor.Halts .outOfDepth (rewrite session) active u := fun u hu =>
      (allHalt_of hdeeper u (hu.mono fun s hnot hcall => absurd hcall hnot)).root
    exact (allHalt_of hdeeper t fun _ _ _ => hfree).root

/-! ## What a rewrite returns -/

theorem macroKey_single (part : ObjectNamePart) : macroKey [part] = none := by
  cases part <;> rfl

theorem lookupMacro_collapseName {name : ObjectName} (h : session.lookupMacro name = none) :
    session.lookupMacro (collapseName name) = none := by
  simp only [collapseName]
  split
  · split
    · exact h
    · rw [SqlSession.lookupMacro, identName, macroKey_single]
      rfl
  · exact h

theorem lookupMacro_of_tableMacroKey {name : ObjectName} {fields : List Ast} (hargs : (argumentsOf fields).isSome)
    (h : tableMacroKey session (.node (.table name) fields) = none) : session.lookupMacro name = none := by
  cases hlookup : session.lookupMacro name with
  | none => rfl
  | some family =>
    obtain ⟨key, hkey, -⟩ := macroKey_of_lookup hlookup
    simp [tableMacroKey, hargs, hlookup, hkey] at h

theorem argumentsOf_sameSort {fields fields' : List Ast} (h : List.Forall₂ SameSort fields fields')
    (hargs : (argumentsOf fields').isSome) : (argumentsOf fields).isSome := by
  rw [argumentsOf_isSome_iff] at hargs ⊢
  obtain ⟨field', hmem, hlabel⟩ := hargs
  obtain ⟨field, hfield, hsort⟩ := ListFacts.forall₂_mem_right h hmem
  refine ⟨field, hfield, ?_⟩
  have hhook : field.label.hook = .none := by
    rw [← hsort.1, hlabel]
    rfl
  rw [← hsort.2 hhook, hlabel]

theorem callFree_node {tag : Tag} {cs : List Ast} (hfunction : ∀ name, tag ≠ .function name)
    (htable : ∀ name, tag ≠ .table name) (h : ∀ c ∈ cs, CallFree session c) : CallFree session (.node tag cs) := by
  refine LabelTree.everywhere_node.2 ⟨⟨not_isScalarCall hfunction cs, ?_⟩, h⟩
  cases tag with
  | table name => exact absurd rfl (htable name)
  | _ => exact fun hcall => by cases hcall

theorem callFree_addRowWitness {t : Ast} (h : CallFree session t) : CallFree session (addRowWitness t) := by
  unfold addRowWitness
  split
  · have hnone : ∀ c ∈ ([] : List Ast), CallFree session c := by simp
    have hone : ∀ {tag : Tag} {c : Ast}, (∀ name, tag ≠ .function name) → (∀ name, tag ≠ .table name) →
        CallFree session c → CallFree session (.node tag [c]) :=
      fun hfunction htable hc => callFree_node hfunction htable (by simpa using hc)
    exact hone (by simp) (by simp) (hone (by simp) (by simp) (hone (by simp) (by simp) (hone (by simp) (by simp)
      (callFree_node (by simp) (by simp) hnone))))
  · exact h

theorem label_witnessRows (t : Ast) : (witnessRows session t).label = t.label := by
  unfold witnessRows
  split
  · simp only
    split <;> rfl
  · rfl

/-- What is returned for a node has no calls if nothing that is returned for its children has. -/
theorem callFree_witnessRows {tag : Tag} {cs : List Ast} (hscalar : ¬isScalarCall session (.node tag cs))
    (htable : ¬isTableCall session (.node tag cs)) (h : ∀ c ∈ cs, CallFree session c) :
    CallFree session (witnessRows session (.node tag cs)) := by
  have hplain : CallFree session (.node tag cs) := LabelTree.everywhere_node.2 ⟨⟨hscalar, htable⟩, h⟩
  unfold witnessRows
  split
  · rename_i name fields heq
    cases heq
    simp only
    split
    · refine LabelTree.everywhere_node.2 ⟨⟨hscalar, fun hcall => by cases hcall⟩, ?_⟩
      rw [List.forall_mem_map]
      exact fun c hc => callFree_addRowWitness (h c hc)
    · exact hplain
  · exact hplain

/-- What a node becomes before its children are visited. -/
theorem pre_cases {active active' : List Chars} {t t' : Ast} (h : (rewrite session).pre active t = .ok (active', t')) :
    (∃ fields, t = .node .select fields ∧ t' = .node .select (fields.map normaliseFrom)) ∨
    (∃ name fields, t = .node (.table name) fields ∧ ((tableMacroKey session t = none ∧ t' = rewriteRelation session t) ∨
      ∃ children, t' = .node (.derived false) children)) ∨
    (t' = t ∧ t.label ≠ .select ∧ ∀ name, t.label ≠ .table name) := by
  obtain ⟨tag, fields⟩ := t
  by_cases hselect : tag = .select
  · subst hselect
    cases h
    exact .inl ⟨fields, rfl, rfl⟩
  by_cases htable : ∃ name, tag = .table name
  · obtain ⟨name, rfl⟩ := htable
    change Rewrite.preVisitTableFactor session active (.node (.table name) fields) = _ at h
    refine .inr (.inl ⟨name, fields, rfl, ?_⟩)
    rcases preVisitTableFactor_cases session active (.node (.table name) fields) with
      ⟨hkey, hpre⟩ | ⟨_, -, -, ⟨-, hpre⟩ | ⟨_, hpre⟩ | ⟨children, -, hpre⟩⟩
    · rw [hpre] at h
      cases h
      exact .inl ⟨hkey, rfl⟩
    · rw [hpre] at h
      cases h
    · rw [hpre] at h
      cases h
    · rw [hpre] at h
      cases h
      exact .inr ⟨children, rfl⟩
  · have hother : ∀ name, tag ≠ .table name := fun name h => htable ⟨name, h⟩
    rw [pre_other hselect hother] at h
    cases h
    exact .inr (.inr ⟨rfl, hselect, hother⟩)

variable (session) in
theorem rewriteRelation_table (name : ObjectName) (fields : List Ast) :
    ((argumentsOf fields).isSome ∧ ∃ functionName, rewriteRelation session (.node (.table name) fields) =
        .node (.table (collapseName name)) (fields.map (rewriteArguments session functionName))) ∨
      (¬(argumentsOf fields).isSome ∧ rewriteRelation session (.node (.table name) fields) =
        .node (.table (insertDefaultSchema session name)) fields) := by
  by_cases h : (argumentsOf fields).isSome = true
  · exact .inl ⟨h, _, by rw [rewriteRelation, if_pos h]⟩
  · exact .inr ⟨h, by rw [rewriteRelation, if_neg h]⟩

theorem pre_sameSort {active active' : List Chars} {t t' : Ast} (h : (rewrite session).pre active t = .ok (active', t')) :
    SameSort t t' := by
  rcases pre_cases h with ⟨fields, rfl, rfl⟩ | ⟨name, fields, rfl, ⟨-, rfl⟩ | ⟨children, rfl⟩⟩ | ⟨rfl, -⟩
  · exact .of_label rfl
  · refine ⟨?_, fun hnone => by cases hnone⟩
    rcases rewriteRelation_table session name fields with ⟨-, _, h⟩ | ⟨-, h⟩ <;>
    · rw [h]
      rfl
  · exact ⟨rfl, fun hnone => by cases hnone⟩
  · exact .of_label rfl

/-- After its children, a relation is no call of a table macro. -/
theorem not_isTableCall_of_pre {active active' : List Chars} {t t' : Ast} {cs : List Ast}
    (h : (rewrite session).pre active t = .ok (active', t')) (hcs : List.Forall₂ SameSort t'.children cs) :
    ¬isTableCall session (.node t'.label cs) := by
  rcases pre_cases h with ⟨fields, rfl, rfl⟩ | ⟨name, fields, rfl, ⟨hkey, rfl⟩ | ⟨children, rfl⟩⟩ | ⟨rfl, hother⟩
  · exact fun hcall => by cases hcall
  · rcases rewriteRelation_table session name fields with ⟨hargs, _, h⟩ | ⟨hargs, h⟩
    · have hlookup := lookupMacro_collapseName (lookupMacro_of_tableMacroKey hargs hkey)
      rw [h]
      simp [isTableCall, tableMacroKey, hlookup]
    · rw [h] at hcs ⊢
      have hnone : ¬(argumentsOf cs).isSome = true := fun hsome => hargs (argumentsOf_sameSort hcs hsome)
      simp [isTableCall, tableMacroKey, hnone]
  · exact fun hcall => by cases hcall
  · obtain ⟨tag, fields⟩ := t'
    cases tag with
    | table name => exact absurd rfl (hother.2 name)
    | _ => exact fun hcall => by cases hcall

theorem visit_rewrite {n : Nat} {active : List Chars} {t u : Ast}
    (h : Visitor.visit .outOfDepth (rewrite session) n active t = .ok u) : CallFree session u ∧ SameSort t u := by
  refine Visitor.visit_ok (Q := fun _ t u => CallFree session u ∧ SameSort t u) ?_ ?_ n active t u h
  · intro n active t active' t' cs u hpre hcs hpost
    rcases postVisitExpr_cases session n active' (.node t'.label cs) with ⟨hnot, h⟩ | ⟨-, ⟨e, h⟩ | ⟨u, h, -, -⟩⟩
    · rw [h] at hpost
      cases hpost
      have htable := not_isTableCall_of_pre hpre (hcs.imp fun _ _ hc => hc.2)
      refine ⟨callFree_witnessRows hnot htable fun c hc => ?_, (pre_sameSort hpre).trans (.of_label (label_witnessRows _))⟩
      obtain ⟨c', -, hfree, -⟩ := ListFacts.forall₂_mem_right hcs hc
      exact hfree
    · rw [h] at hpost
      cases hpost
    · rw [h] at hpost
      cases hpost
  · intro n active t active' t' cs active'' u r hpre hcs hpost hr
    rcases postVisitExpr_cases session n active' (.node t'.label cs) with ⟨hnot, h⟩ | ⟨hcall, ⟨e, h⟩ | ⟨u, h, -, hexpr⟩⟩
    · rw [h] at hpost
      cases hpost
    · rw [h] at hpost
      cases hpost
    · rw [h] at hpost
      cases hpost
      have ht' : t'.label.hook = .expr := hook_of_isScalarCall hcall
      exact ⟨hr.1, (pre_sameSort hpre).trans (.of_expr ht' (hr.2.1.trans hexpr))⟩

/-! ## The claim -/

/-- What the visitor goes through of a statement. -/
def DFStatement.visited : DFStatement → Option Ast
  | statement t => some t
  | explain inner => inner.visited
  | other _ => none

theorem rewriteVgiSql_le {depth deeper : Nat} (hle : depth ≤ deeper) {statement : DFStatement}
    (h : rewriteVgiSql session depth statement ≠ .error .outOfDepth) :
    rewriteVgiSql session deeper statement = rewriteVgiSql session depth statement := by
  induction statement with
  | statement t =>
    have hvisit : Visitor.visit .outOfDepth (rewrite session) depth [] t ≠ .error .outOfDepth := by
      intro hlimit
      rw [rewriteVgiSql, hlimit] at h
      exact h rfl
    rw [rewriteVgiSql, rewriteVgiSql, Visitor.visit_le steady_rewrite hle hvisit]
  | explain statement ih =>
    have hinner : rewriteVgiSql session depth statement ≠ .error .outOfDepth := by
      intro hlimit
      rw [rewriteVgiSql, hlimit] at h
      exact h rfl
    rw [rewriteVgiSql, rewriteVgiSql, ih hinner]
  | other t => rfl

variable (session) in
theorem rewriteVgiSql_ends (statement : DFStatement) : ∃ depth, rewriteVgiSql session depth statement ≠ .error .outOfDepth := by
  induction statement with
  | statement t =>
    obtain ⟨depth, hdepth⟩ := halts_rewrite session [] t
    refine ⟨depth, ?_⟩
    rw [rewriteVgiSql]
    cases hvisit : Visitor.visit .outOfDepth (rewrite session) depth [] t with
    | error e =>
      rw [hvisit] at hdepth
      intro hlimit
      cases hlimit
      exact hdepth rfl
    | ok u => exact fun h => by cases h
  | explain statement ih =>
    obtain ⟨depth, hdepth⟩ := ih
    refine ⟨depth, ?_⟩
    rw [rewriteVgiSql]
    cases hinner : rewriteVgiSql session depth statement with
    | error e =>
      rw [hinner] at hdepth
      intro hlimit
      cases hlimit
      exact hdepth rfl
    | ok u => exact fun h => by cases h
  | other t => exact ⟨0, fun h => by cases h⟩

theorem callFree_rewriteVgiSql {depth : Nat} {statement statement' : DFStatement}
    (h : rewriteVgiSql session depth statement = .ok statement') : ∀ t, statement'.visited = some t → CallFree session t := by
  induction statement generalizing statement' with
  | statement t =>
    rw [rewriteVgiSql] at h
    cases hvisit : Visitor.visit .outOfDepth (rewrite session) depth [] t with
    | error e =>
      rw [hvisit] at h
      cases h
    | ok u =>
      rw [hvisit] at h
      cases h
      rintro _ ⟨⟩
      exact (visit_rewrite hvisit).1
  | explain statement ih =>
    rw [rewriteVgiSql] at h
    cases hinner : rewriteVgiSql session depth statement with
    | error e =>
      rw [hinner] at h
      cases h
    | ok inner =>
      rw [hinner] at h
      cases h
      exact fun t ht => ih hinner t ht
  | other t =>
    cases h
    rintro _ ⟨⟩

/-- **The rewrite of every statement ends, with an error or with a statement in which no call of a macro is left; more
depth than it needs makes no difference.** -/
theorem rewriteVgiSql_terminates (session : SqlSession) (statement : DFStatement) :
    ∃ depth, rewriteVgiSql session depth statement ≠ .error .outOfDepth ∧
      (∀ deeper, depth ≤ deeper → rewriteVgiSql session deeper statement = rewriteVgiSql session depth statement) ∧
      ∀ statement', rewriteVgiSql session depth statement = .ok statement' →
        ∀ t, statement'.visited = some t → CallFree session t := by
  obtain ⟨depth, hdepth⟩ := rewriteVgiSql_ends session statement
  exact ⟨depth, hdepth, fun deeper hle => rewriteVgiSql_le hle hdepth, fun statement' h => callFree_rewriteVgiSql h⟩

/-! ### LATERAL -/

def rowsName : ObjectName := [identName "cat".toList, identName "main".toList, identName "rows".toList]

/-- With the table macro `rows()`. -/
def rowsSession : SqlSession :=
  { emptySession with
    macros := [("cat.main.rows".toList, [{
      kind := .table
      parameters := []
      defaults := fun _ => none
      body := .table ⟨.node .query [], rfl⟩ }])] }

/-- `SELECT .. FROM LATERAL cat.main.rows()` -/
def lateralRows : Ast :=
  .node .query [.node .select [.node .selectFrom [.node .tableWithJoins [.node (.lateralFunction rowsName) [.node .arguments []]]]]]

/-- The call of the macro is still there. -/
theorem rewriteVgiSql_lateral :
    (rowsSession.lookupMacro rowsName).isSome ∧ rewriteVgiSql rowsSession 7 (.statement lateralRows) = .ok (.statement lateralRows) :=
  ⟨rfl, rfl⟩

end VgiDatafusion.Sql
