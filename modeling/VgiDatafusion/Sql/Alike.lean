import VgiDatafusion.Sql.Rewrite

/-!
# Calls with alike arguments (session.rs:384-537, 594-698, 1748-1862)

Binding and opening a call look at the labels of the arguments and no deeper than that: under any relation that keeps labels
and goes down to the children, alike arguments are bound alike, and the same errors are reported for them.
-/
namespace VgiDatafusion.Sql

/-- No error is excused. -/
def Never (_ : Failure) : Prop := False

/-- A relation that a look at the labels does not tell apart from equality. -/
structure KeepsLabels (A : Ast → Ast → Prop) : Prop where
  refl : ∀ t, A t t
  label : ∀ {t t'}, A t t' → t'.label = t.label
  children : ∀ {t t'}, A t t' → t.label ≠ .select → List.Forall₂ A t.children t'.children
  build : ∀ {tag cs cs'}, List.Forall₂ A cs cs' → A (.node tag cs) (.node tag cs')

theorem optionRel_cases {α β : Type} {R : α → β → Prop} {x : Option α} {y : Option β} (h : Option.Rel R x y) :
    (x = none ∧ y = none) ∨ ∃ a b, x = some a ∧ y = some b ∧ R a b := by
  cases h with
  | none => exact .inl ⟨rfl, rfl⟩
  | some hab => exact .inr ⟨_, _, rfl, rfl, hab⟩

section
variable {A : Ast → Ast → Prop} (hA : KeepsLabels A) {session : SqlSession} {name : ObjectName}

/-- The value of an argument, with its label. -/
def ArgumentRel (A : Ast → Ast → Prop) (x y : Argument) : Prop := x.1 = y.1 ∧ A x.2.1 y.2.1

include hA

theorem KeepsLabels.isExpr {t t' : Ast} (h : A t t') : t'.isExpr = t.isExpr := by
  rw [Ast.isExpr, Ast.isExpr, hA.label h]

theorem labelled_alike (label : Option Chars) {t t' : Ast} (h : A t t') :
    Follows (fun _ => False) (ArgumentRel A) (labelled session name label t) (labelled session name label t') := by
  unfold labelled asExpr
  by_cases hexpr : t.isExpr = true
  · have hexpr' : t'.isExpr = true := (hA.isExpr h).trans hexpr
    simp only [hexpr, hexpr', dite_true]
    exact .ok ⟨rfl, h⟩
  · have hexpr' : ¬t'.isExpr = true := fun h' => hexpr ((hA.isExpr h).symm.trans h')
    simp only [hexpr, hexpr']
    exact .error _

/-- Alike nodes have the same label and alike children. -/
theorem KeepsLabels.node {tag : Tag} {cs : List Ast} {t' : Ast} (h : A (.node tag cs) t') (htag : tag ≠ .select) :
    ∃ cs', t' = .node tag cs' ∧ List.Forall₂ A cs cs' := by
  obtain ⟨tag', cs'⟩ := t'
  obtain rfl : tag' = tag := hA.label h
  exact ⟨cs', rfl, hA.children h htag⟩

omit hA in
theorem readArgument_plain {v : Ast} (h : Plain v) (parameters : List Chars) :
    readArgument session name parameters (.node .argUnnamed [v]) = labelled session name none v := by
  rw [readArgument]
  exact h

theorem plain_alike {v v' : Ast} (hv : Plain v) (h : A v v') : Plain v' := by
  rintro ident fields right rfl
  obtain ⟨tag, cs⟩ := v
  obtain rfl : tag = .eq := (hA.label h).symm
  obtain ⟨_, heq, hcs⟩ := hA.node h (by simp)
  cases heq
  obtain ⟨left, _, hleft, hrest, rfl⟩ := List.forall₂_cons_right_iff.1 hcs
  obtain ⟨value, _, -, hnil, rfl⟩ := List.forall₂_cons_right_iff.1 hrest
  obtain rfl := List.forall₂_nil_right_iff.1 hnil
  obtain ⟨tag, leftFields⟩ := left
  obtain rfl : tag = .identifier ident := (hA.label hleft).symm
  exact hv ident leftFields value rfl

/-- The equations are told apart from the other values by labels. -/
theorem readArgument_unnamed_alike (parameters : List Chars) {v v' : Ast} (h : A v v') :
    Follows (fun _ => False) (ArgumentRel A) (readArgument session name parameters (.node .argUnnamed [v]))
      (readArgument session name parameters (.node .argUnnamed [v'])) := by
  by_cases hplain : Plain v
  · rw [readArgument_plain hplain, readArgument_plain (plain_alike hA hplain h)]
    exact labelled_alike hA none h
  · simp only [Plain, not_forall, not_not] at hplain
    obtain ⟨ident, left, right, rfl⟩ := hplain
    obtain ⟨fields', rfl, hfields⟩ := hA.node h (by simp)
    obtain ⟨l', _, hl, hrest, rfl⟩ := List.forall₂_cons_left_iff.1 hfields
    obtain ⟨right', _, hright, hnil, rfl⟩ := List.forall₂_cons_left_iff.1 hrest
    obtain rfl := List.forall₂_nil_left_iff.1 hnil
    obtain ⟨left', rfl, -⟩ := hA.node hl (by simp)
    simp only [readArgument]
    split
    · exact labelled_alike hA _ hright
    · exact labelled_alike hA _ h

theorem readArgument_exprNamed_alike (parameters : List Chars) {cs cs' : List Ast} (h : List.Forall₂ A cs cs') :
    Follows (fun _ => False) (ArgumentRel A) (readArgument session name parameters (.node .argExprNamed cs))
      (readArgument session name parameters (.node .argExprNamed cs')) := by
  cases h with
  | nil => exact .error _
  | @cons label label' cs cs' hlabel hcs =>
    obtain ⟨tag, fields⟩ := label
    obtain ⟨tag', fields'⟩ := label'
    obtain rfl : tag' = tag := hA.label hlabel
    cases tag' with
    | identifier ident =>
      cases hcs with
      | nil => exact .error _
      | cons hvalue hcs =>
        cases hcs with
        | nil => exact labelled_alike hA _ hvalue
        | cons _ _ => exact .error _
    | _ => exact .error _

theorem readArgument_alike (parameters : List Chars) {a a' : Ast} (h : A a a') :
    Follows (fun _ => False) (ArgumentRel A) (readArgument session name parameters a)
      (readArgument session name parameters a') := by
  obtain ⟨tag, cs⟩ := a
  by_cases hselect : tag = .select
  · subst hselect
    obtain ⟨tag', cs'⟩ := a'
    obtain rfl : tag' = .select := hA.label h
    exact .error _
  obtain ⟨cs', rfl, hcs⟩ := hA.node h hselect
  cases tag with
  | argNamed label =>
    cases hcs with
    | nil => exact .error _
    | cons hc hcs =>
      cases hcs with
      | nil => exact labelled_alike hA _ hc
      | cons _ _ => exact .error _
  | argExprNamed => exact readArgument_exprNamed_alike hA parameters hcs
  | argUnnamed =>
    cases hcs with
    | nil => exact .error _
    | cons hc hcs =>
      cases hcs with
      | nil => exact readArgument_unnamed_alike hA parameters hc
      | cons _ _ =>
        simp only [readArgument]
        exact .error _
  | _ => exact .error _

/-! ## Binding -/

/-- Two expressions. -/
def ExprRel (A : Ast → Ast → Prop) (e e' : Expr) : Prop := A e.1 e'.1

/-- The two loops have bound alike arguments. -/
structure BindRel (A : Ast → Ast → Prop) (st st' : BindState) : Prop where
  actual : List.Forall₂ (Option.Rel (ExprRel A)) st.actual st'.actual
  positional : st.positional = st'.positional
  sawNamed : st.sawNamed = st'.sawNamed

omit hA in
theorem isSome_of_rel {x y : Option Expr} (h : Option.Rel (ExprRel A) x y) : x.isSome = y.isSome := by
  cases h <;> rfl

omit hA in
theorem isSome_getD {xs ys : List (Option Expr)} (h : List.Forall₂ (Option.Rel (ExprRel A)) xs ys) :
    ∀ i, (xs.getD i none).isSome = (ys.getD i none).isSome := by
  induction h with
  | nil => exact fun _ => rfl
  | cons hxy _ ih =>
    intro i
    cases i with
    | zero => exact isSome_of_rel hxy
    | succ i => exact ih i

omit hA in
theorem set_alike {xs ys : List (Option Expr)} (h : List.Forall₂ (Option.Rel (ExprRel A)) xs ys) {e e' : Expr}
    (he : ExprRel A e e') : ∀ i, List.Forall₂ (Option.Rel (ExprRel A)) (xs.set i (some e)) (ys.set i (some e')) := by
  induction h with
  | nil => exact fun _ => .nil
  | cons hxy hrest ih =>
    intro i
    cases i with
    | zero => exact .cons (.some he) hrest
    | succ i => exact .cons hxy (ih i)

omit hA in
theorem bindArgument_alike (parameters : List Chars) {st st' : BindState} {x x' : Argument} (hst : BindRel A st st')
    (hx : ArgumentRel A x x') : Follows (fun _ => False) (BindRel A) (bindArgument session name parameters st x)
      (bindArgument session name parameters st' x') := by
  obtain ⟨label, e⟩ := x
  obtain ⟨label', e'⟩ := x'
  obtain ⟨hlabel, he⟩ := hx
  cases hlabel
  have hlength := hst.actual.length_eq
  cases label with
  | none =>
    simp only [bindArgument, ← hst.sawNamed, ← hst.positional, ← hlength]
    split
    · exact .error _
    · split
      · exact .error _
      · exact .ok ⟨set_alike hst.actual he _, by rw [hst.positional], rfl⟩
  | some label =>
    simp only [bindArgument, ← isSome_getD hst.actual]
    split
    · exact .error _
    · split
      · exact .error _
      · exact .ok ⟨set_alike hst.actual he _, hst.positional, rfl⟩

theorem fillArgument_alike (info : SqlMacro) (parameter : Chars) {x x' : Option Expr} (h : Option.Rel (ExprRel A) x x') :
    Follows (fun _ => False) (Option.Rel (ExprRel A)) (fillArgument info parameter x) (fillArgument info parameter x') := by
  cases h with
  | some he => exact .ok (.some he)
  | none =>
    refine (Follows.refl _).mono fun y y' _ hy => ?_
    subst hy
    cases y with
    | none => exact .none
    | some e => exact .some (hA.refl e.1)

omit hA in
theorem missing_alike {xs ys : List (Option Expr)} (h : List.Forall₂ (Option.Rel (ExprRel A)) xs ys) :
    ∀ parameters : List Chars, ((parameters.zip xs).filter (·.2.isNone)).map (fun entry => String.ofList entry.1) =
      ((parameters.zip ys).filter (·.2.isNone)).map fun entry => String.ofList entry.1 := by
  induction h with
  | nil => simp
  | cons hxy _ ih =>
    intro parameters
    cases parameters with
    | nil => rfl
    | cons parameter parameters =>
      cases hxy with
      | none => simp [ih parameters]
      | some _ => simp [ih parameters]

omit hA in
theorem given_alike {xs ys : List (Option Expr)} (h : List.Forall₂ (Option.Rel (ExprRel A)) xs ys) :
    List.Forall₂ (ExprRel A) (xs.filterMap id) (ys.filterMap id) := by
  induction h with
  | nil => exact .nil
  | cons hxy _ ih =>
    cases hxy with
    | none => exact ih
    | some he => exact .cons he ih

omit hA in
theorem requireAll_alike (parameters : List Chars) {xs ys : List (Option Expr)}
    (h : List.Forall₂ (Option.Rel (ExprRel A)) xs ys) :
    Follows (fun _ => False) (List.Forall₂ (ExprRel A)) (requireAll session name parameters xs)
      (requireAll session name parameters ys) := by
  simp only [requireAll, missing_alike h parameters]
  split
  · exact .ok (given_alike h)
  · exact .error _

omit hA in
theorem zip_alike {xs ys : List (Option Expr)} (h : List.Forall₂ (Option.Rel (ExprRel A)) xs ys) :
    ∀ parameters : List Chars, List.Forall₂ (fun p q : Chars × Option Expr => p.1 = q.1 ∧ Option.Rel (ExprRel A) p.2 q.2)
      (parameters.zip xs) (parameters.zip ys) := by
  induction h with
  | nil => simp
  | cons hxy _ ih =>
    intro parameters
    cases parameters with
    | nil => exact .nil
    | cons parameter parameters => exact .cons ⟨rfl, hxy⟩ (ih parameters)

theorem bindMacroArguments_alike (info : SqlMacro) {as as' : List Ast} (h : List.Forall₂ A as as') :
    Follows (fun _ => False) (List.Forall₂ (ExprRel A)) (bindMacroArguments session name info as)
      (bindMacroArguments session name info as') := by
  have hstart : BindRel A { actual := List.replicate info.parameters.length none }
      { actual := List.replicate info.parameters.length none } := by
    refine ⟨List.forall₂_same.2 fun x hx => ?_, rfl, rfl⟩
    rw [List.eq_of_mem_replicate hx]
    exact .none
  refine (Follows.foldlM (fun st st' a a' hst ha => ?_) h hstart).bind fun st st' _ hst => ?_
  · exact (readArgument_alike hA info.parameters ha).bind fun x x' _ hx => bindArgument_alike info.parameters hst hx
  have hfilled : Follows (fun _ => False) (List.Forall₂ (Option.Rel (ExprRel A)))
      ((info.parameters.zip st.actual).mapM fun entry => fillArgument info entry.1 entry.2)
      ((info.parameters.zip st'.actual).mapM fun entry => fillArgument info entry.1 entry.2) := by
    refine Follows.mapM ((zip_alike hst.actual info.parameters).imp ?_)
    rintro ⟨parameter, x⟩ ⟨_, x'⟩ ⟨rfl, hx⟩
    exact fillArgument_alike hA info parameter hx
  exact hfilled.bind fun xs ys _ hxs => requireAll_alike info.parameters hxs

/-! ## Overloads -/

/-- The same macro, with alike arguments. -/
def SelectedRel (A : Ast → Ast → Prop) (x y : SqlMacro × List Expr) : Prop := x.1 = y.1 ∧ List.Forall₂ (ExprRel A) x.2 y.2

omit hA in
theorem matching_alike {f g : SqlMacro → Except String (List Expr)} (candidates : List SqlMacro)
    (h : ∀ c, Follows (fun _ => False) (List.Forall₂ (ExprRel A)) (f c) (g c)) :
    List.Forall₂ (SelectedRel A)
      ((candidates.map fun c => (c, f c)).filterMap fun result => result.2.toOption.map (result.1, ·))
      ((candidates.map fun c => (c, g c)).filterMap fun result => result.2.toOption.map (result.1, ·)) := by
  induction candidates with
  | nil => exact .nil
  | cons c candidates ih =>
    have hc := h c
    cases hf : f c with
    | error e =>
      rw [hf] at hc
      rcases hc with hc | hc
      · exact hc.elim
      · simpa [hf, hc, Except.toOption] using ih
    | ok actual =>
      rw [hf] at hc
      obtain ⟨actual', hg, hactual⟩ := hc
      simpa [hf, hg, Except.toOption, SelectedRel, hactual] using ih

omit hA in
theorem failures_alike {f g : SqlMacro → Except String (List Expr)} (candidates : List SqlMacro)
    (h : ∀ c, Follows (fun _ => False) (List.Forall₂ (ExprRel A)) (f c) (g c))
    (failure : SqlMacro × Except String (List Expr) → Option String)
    (hfailure : ∀ c x y, failure (c, .ok x) = failure (c, .ok y)) :
    (candidates.map fun c => (c, f c)).filterMap failure = (candidates.map fun c => (c, g c)).filterMap failure := by
  rw [List.filterMap_map, List.filterMap_map]
  refine List.filterMap_congr fun c _ => ?_
  have hc := h c
  cases hf : f c with
  | error e =>
    rw [hf] at hc
    rcases hc with hc | hc
    · exact hc.elim
    · simp [hf, hc]
  | ok actual =>
    rw [hf] at hc
    obtain ⟨actual', hg, -⟩ := hc
    simp [hf, hg, hfailure c actual actual']

/-- What one overload makes of two calls. -/
theorem bindMacroOverload_alike (family : List SqlMacro) (kind : SqlMacroKind) {as as' : List Ast} (h : List.Forall₂ A as as') :
    Follows (fun _ => False) (SelectedRel A) (bindMacroOverload session name family kind as)
      (bindMacroOverload session name family kind as') := by
  have hbind : ∀ info, Follows (fun _ => False) (List.Forall₂ (ExprRel A)) (bindMacroArguments session name info as)
      (bindMacroArguments session name info as') := fun info => bindMacroArguments_alike hA info h
  have hmatching := matching_alike (family.filter (·.kind = kind)) hbind
  simp only [bindMacroOverload]
  rw [failures_alike (family.filter (·.kind = kind)) hbind _ fun _ _ _ => rfl]
  revert hmatching
  generalize ((family.filter (·.kind = kind)).map fun c => (c, bindMacroArguments session name c as)).filterMap _ = m
  generalize ((family.filter (·.kind = kind)).map fun c => (c, bindMacroArguments session name c as')).filterMap _ = m'
  intro hmatching
  split
  · exact .error _
  · cases hmatching with
    | nil =>
      by_cases hone : family.length = 1
      · simp only [hone, if_true]
        exact .error _
      · simp only [hone, if_false]
        exact .error _
    | cons hxy hrest =>
      cases hrest with
      | nil => exact .ok hxy
      | cons _ hrest =>
        simp only [List.length_cons, hrest.length_eq]
        exact .error _

/-! ## Opening -/

omit hA in
theorem argumentFor_alike (parameters : List Chars) {actual actual' : List Expr} (h : List.Forall₂ (ExprRel A) actual actual')
    (ident : Ident) : Option.Rel A (argumentFor parameters actual ident) (argumentFor parameters actual' ident) := by
  unfold argumentFor
  cases parameters.findIdx? (sameName · ident.value) with
  | none => exact .none
  | some index =>
    simp only [Option.bind_some]
    induction h generalizing index with
    | nil => exact .none
    | cons he _ ih =>
      cases index with
      | zero => exact .some he
      | succ index => exact ih index

theorem substituteMacro_alike (parameters : List Chars) {actual actual' : List Expr}
    (h : List.Forall₂ (ExprRel A) actual actual') (body : Ast) :
    A (substituteMacro parameters actual body) (substituteMacro parameters actual' body) := by
  induction body using LabelTree.induct with
  | h tag cs ih =>
    by_cases htag : ∃ ident, tag = .identifier ident
    · obtain ⟨ident, rfl⟩ := htag
      rw [substituteMacro_identifier, substituteMacro_identifier]
      rcases optionRel_cases (argumentFor_alike parameters h ident) with ⟨hnone, hnone'⟩ | ⟨e, e', he, he', hee⟩
      · rw [hnone, hnone']
        exact hA.refl _
      · rw [he, he']
        exact hee
    · have hother : ∀ ident, tag ≠ .identifier ident := fun ident h => htag ⟨ident, h⟩
      rw [substituteMacro_node hother, substituteMacro_node hother]
      refine hA.build ?_
      rw [List.forall₂_map_left_iff, List.forall₂_map_right_iff, List.forall₂_same]
      exact ih

theorem argumentsOf_alike {fields fields' : List Ast} (h : List.Forall₂ A fields fields') :
    Option.Rel (List.Forall₂ A) (argumentsOf fields) (argumentsOf fields') := by
  induction h with
  | nil => exact .none
  | @cons field field' fields fields' hfield _ ih =>
    simp only [argumentsOf, List.findSome?_cons, hA.label hfield]
    by_cases hargs : field.label = .arguments
    · simp only [hargs, if_true]
      exact .some (hA.children hfield (by simp [hargs]))
    · simp only [hargs, if_false]
      exact ih

theorem argumentsOf_isSome_alike {fields fields' : List Ast} (h : List.Forall₂ A fields fields') :
    (argumentsOf fields').isSome = (argumentsOf fields).isSome := by
  rcases optionRel_cases (argumentsOf_alike hA h) with ⟨hnone, hnone'⟩ | ⟨_, _, hsome, hsome', -⟩
  · rw [hnone, hnone']
  · rw [hsome, hsome']
    rfl

omit hA in
theorem onlyArguments_other {fields : List Ast} (h : ∀ arguments, fields ≠ [.node .arguments arguments]) :
    onlyArguments session name fields =
      let text := macroName session name
      if (argumentsOf fields).isSome then
        planErr s!"VGI scalar macro `{text}` does not accept DISTINCT, FILTER, OVER, or argument clauses"
      else planErr s!"VGI scalar macro `{text}` requires an argument list" := by
  rw [onlyArguments]
  exact h

theorem filter_alike (p : Tag → Bool) {fields fields' : List Ast} (h : List.Forall₂ A fields fields') :
    List.Forall₂ A (fields.filter fun field => p field.label) (fields'.filter fun field => p field.label) := by
  induction h with
  | nil => exact .nil
  | @cons field field' fields fields' hfield _ ih =>
    simp only [List.filter_cons, hA.label hfield]
    split
    · exact .cons hfield ih
    · exact ih

theorem all_alike (p : Tag → Bool) {fields fields' : List Ast} (h : List.Forall₂ A fields fields') :
    (fields.all fun field => p field.label) = fields'.all fun field => p field.label := by
  induction h with
  | nil => rfl
  | cons hfield _ ih => simp only [List.all_cons, hA.label hfield, ih]

theorem onlyArguments_alike {fields fields' : List Ast} (h : List.Forall₂ A fields fields') :
    Follows (fun _ => False) (List.Forall₂ A) (onlyArguments session name fields) (onlyArguments session name fields') := by
  have hargs := argumentsOf_isSome_alike hA h
  by_cases hone : ∃ arguments, fields = [.node .arguments arguments]
  · obtain ⟨arguments, rfl⟩ := hone
    obtain ⟨field', _, hfield, hnil, rfl⟩ := List.forall₂_cons_left_iff.1 h
    obtain rfl := List.forall₂_nil_left_iff.1 hnil
    obtain ⟨arguments', rfl, harguments⟩ := hA.node hfield (by simp)
    exact .ok harguments
  · have hone' : ∀ arguments, fields' ≠ [.node .arguments arguments] := by
      rintro arguments rfl
      obtain ⟨field, _, hfield, hnil, rfl⟩ := List.forall₂_cons_right_iff.1 h
      obtain rfl := List.forall₂_nil_right_iff.1 hnil
      obtain ⟨tag, cs⟩ := field
      obtain rfl : tag = .arguments := (hA.label hfield).symm
      exact hone ⟨cs, rfl⟩
    have hone'' : ∀ arguments, fields ≠ [.node .arguments arguments] := fun arguments h => hone ⟨arguments, h⟩
    rw [onlyArguments_other hone'', onlyArguments_other hone', hargs]
    split <;> exact .error _

theorem openScalar_alike (family : List SqlMacro) {fields fields' : List Ast} (h : List.Forall₂ A fields fields') :
    Follows (fun _ => False) (ExprRel A) (openScalar session name family fields) (openScalar session name family fields') := by
  refine (onlyArguments_alike hA h).bind fun arguments arguments' _ harguments => ?_
  refine (bindMacroOverload_alike hA family .scalar harguments).bind fun x y _ hxy => ?_
  obtain ⟨⟨kind, parameters, defaults, body⟩, actual⟩ := x
  obtain ⟨info', actual'⟩ := y
  obtain ⟨hinfo, hactual⟩ := hxy
  cases hinfo
  cases body with
  | scalar template =>
    exact .ok (substituteMacro_alike hA parameters hactual template.1)
  | table template =>
    exact .error _
  | invalid error =>
    exact .error _

theorem openTable_alike (family : List SqlMacro) {fields fields' arguments arguments' : List Ast}
    (h : List.Forall₂ A fields fields') (harguments : List.Forall₂ A arguments arguments') :
    Follows (fun _ => False) A (openTable session name family fields arguments)
      (openTable session name family fields' arguments') := by
  have haccepted := all_alike hA acceptedByTableMacro h
  have hrest := filter_alike hA (fun tag => tag ≠ .arguments) h
  simp only [openTable, haccepted]
  refine (Follows.refl _).bind fun _ _ _ _ => ?_
  refine (bindMacroOverload_alike hA family .table harguments).bind fun x y _ hxy => ?_
  obtain ⟨⟨kind, parameters, defaults, body⟩, actual⟩ := x
  obtain ⟨info', actual'⟩ := y
  obtain ⟨hinfo, hactual⟩ := hxy
  cases hinfo
  cases body with
  | table template =>
    exact .ok (hA.build (.cons (substituteMacro_alike hA parameters hactual template.1) hrest))
  | scalar template =>
    exact .error _
  | invalid error =>
    exact .error _

omit hA in
/-- As an error of the rewrite. -/
theorem planned {α β : Type} {R : α → β → Prop} {r : Except String α} {r' : Except String β}
    (h : Follows (fun _ => False) R r r') : Follows Never R (r.mapError .plan) (r'.mapError .plan) := by
  cases r with
  | error e =>
    rcases h with h | rfl
    · exact h.elim
    · exact .error _
  | ok a =>
    obtain ⟨b, rfl, hab⟩ := h
    exact .ok hab

/-- Alike calls have the same key. -/
def CallRel (A : Ast → Ast → Prop) (x y : Chars × Expr) : Prop := x.1 = y.1 ∧ ExprRel A x.2 y.2

theorem scalarCall_alike {t t' : Ast} (h : A t t') :
    Follows Never (Option.Rel (CallRel A)) (scalarCall session t) (scalarCall session t') := by
  obtain ⟨tag, fields⟩ := t
  obtain ⟨tag', fields'⟩ := t'
  obtain rfl : tag' = tag := hA.label h
  cases tag' with
  | function name =>
    have hfields : List.Forall₂ A fields fields' := hA.children h (by simp)
    simp only [scalarCall]
    split
    · rename_i key family _ _
      exact (planned (openScalar_alike hA family hfields)).map fun e e' he => .some ⟨rfl, he⟩
    · exact .ok .none
  | _ => exact .ok .none

theorem expandTableMacro_alike {t t' : Ast} (h : A t t') :
    Follows Never (Option.Rel A) (expandTableMacro session t) (expandTableMacro session t') := by
  obtain ⟨tag, fields⟩ := t
  obtain ⟨tag', fields'⟩ := t'
  obtain rfl : tag' = tag := hA.label h
  cases tag' with
  | table name =>
    have hfields : List.Forall₂ A fields fields' := hA.children h (by simp)
    simp only [expandTableMacro]
    rcases optionRel_cases (argumentsOf_alike hA hfields) with ⟨hnone, hnone'⟩ | ⟨arguments, arguments', hsome, hsome', hargs⟩
    · rw [hnone, hnone']
      exact .ok .none
    · rw [hsome, hsome']
      cases session.lookupMacro name with
      | none => exact .ok .none
      | some family => exact (planned (openTable_alike hA family hfields hargs)).map fun u u' hu => .some hu
  | _ => exact .ok .none

/-! ## The relations -/

/-- The same name, with alike values. -/
def NamedRel (A : Ast → Ast → Prop) (x y : Chars × Ast) : Prop := x.1 = y.1 ∧ A x.2 y.2

omit hA in
theorem namedArgument_plain {v : Ast} (h : Plain v) (functionName : Chars) :
    namedArgument session functionName (.node .argUnnamed [v]) = none := by
  unfold namedArgument
  split
  · rename_i heq
    cases heq
  · rename_i heq
    cases heq
  · rename_i heq
    cases heq
    exact absurd rfl (h _ _ _)
  · rfl

theorem named_alike (name : Chars) {v v' : Ast} (h : A v v') :
    Option.Rel (NamedRel A) (if v.isExpr then some (name, v) else none) (if v'.isExpr then some (name, v') else none) := by
  rw [hA.isExpr h]
  split
  · exact .some ⟨rfl, h⟩
  · exact .none

theorem namedArgument_unnamed_alike (functionName : Chars) {v v' : Ast} (h : A v v') :
    Option.Rel (NamedRel A) (namedArgument session functionName (.node .argUnnamed [v]))
      (namedArgument session functionName (.node .argUnnamed [v'])) := by
  by_cases hplain : Plain v
  · rw [namedArgument_plain hplain, namedArgument_plain (plain_alike hA hplain h)]
    exact .none
  · simp only [Plain, not_forall, not_not] at hplain
    obtain ⟨ident, left, right, rfl⟩ := hplain
    obtain ⟨fields', rfl, hfields⟩ := hA.node h (by simp)
    obtain ⟨l', _, hl, hrest, rfl⟩ := List.forall₂_cons_left_iff.1 hfields
    obtain ⟨right', _, hright, hnil, rfl⟩ := List.forall₂_cons_left_iff.1 hrest
    obtain rfl := List.forall₂_nil_left_iff.1 hnil
    obtain ⟨left', rfl, -⟩ := hA.node hl (by simp)
    simp only [namedArgument]
    split
    · exact .some ⟨rfl, hright⟩
    · exact .none

theorem namedArgument_exprNamed_alike (functionName : Chars) {cs cs' : List Ast} (h : List.Forall₂ A cs cs') :
    Option.Rel (NamedRel A) (namedArgument session functionName (.node .argExprNamed cs))
      (namedArgument session functionName (.node .argExprNamed cs')) := by
  cases h with
  | nil => exact .none
  | @cons label label' cs cs' hlabel hcs =>
    obtain ⟨tag, fields⟩ := label
    obtain ⟨tag', fields'⟩ := label'
    obtain rfl : tag' = tag := hA.label hlabel
    cases tag' with
    | identifier ident =>
      cases hcs with
      | nil => exact .none
      | cons hvalue hcs =>
        cases hcs with
        | nil => exact named_alike hA _ hvalue
        | cons _ _ => exact .none
    | _ => exact .none

theorem namedArgument_alike (functionName : Chars) {a a' : Ast} (h : A a a') :
    Option.Rel (NamedRel A) (namedArgument session functionName a) (namedArgument session functionName a') := by
  obtain ⟨tag, cs⟩ := a
  by_cases hselect : tag = .select
  · subst hselect
    obtain ⟨tag', cs'⟩ := a'
    obtain rfl : tag' = .select := hA.label h
    exact .none
  obtain ⟨cs', rfl, hcs⟩ := hA.node h hselect
  cases tag with
  | argNamed label =>
    cases hcs with
    | nil => exact .none
    | cons hc hcs =>
      cases hcs with
      | nil => exact named_alike hA _ hc
      | cons _ _ => exact .none
  | argExprNamed => exact namedArgument_exprNamed_alike hA functionName hcs
  | argUnnamed =>
    cases hcs with
    | nil => exact .none
    | cons hc hcs =>
      cases hcs with
      | nil => exact namedArgument_unnamed_alike hA functionName hc
      | cons _ _ =>
        simp only [namedArgument]
        exact .none
  | _ => exact .none

theorem carryNamed_alike (name : Chars) {v v' : Ast} (h : A v v') : A (carryNamed name v) (carryNamed name v') :=
  hA.build (.cons (hA.build (.cons (hA.build (.cons h .nil)) .nil)) .nil)

theorem rewriteArgument_alike (functionName : Chars) {a a' : Ast} (h : A a a') :
    A (rewriteArgument session functionName a) (rewriteArgument session functionName a') := by
  have hnamed : Option.Rel (NamedRel A) (namedArgument session functionName a) (namedArgument session functionName a') :=
    namedArgument_alike hA functionName h
  simp only [rewriteArgument]
  rcases optionRel_cases hnamed with
    ⟨hnone, hnone'⟩ | ⟨⟨name, v⟩, ⟨_, v'⟩, hsome, hsome', rfl, hv⟩
  · rw [hnone, hnone']
    exact h
  · rw [hsome, hsome']
    exact carryNamed_alike hA name hv

theorem rewriteArguments_alike (functionName : Chars) {t t' : Ast} (h : A t t') :
    A (rewriteArguments session functionName t) (rewriteArguments session functionName t') := by
  by_cases harguments : t.label = .arguments
  · obtain ⟨tag, cs⟩ := t
    obtain rfl : tag = .arguments := harguments
    obtain ⟨cs', rfl, hcs⟩ := hA.node h (by simp)
    refine hA.build ?_
    rw [List.forall₂_map_left_iff, List.forall₂_map_right_iff]
    exact hcs.imp fun _ _ hc => rewriteArgument_alike hA functionName hc
  · have hother : ∀ u : Ast, u.label ≠ .arguments → rewriteArguments session functionName u = u := by
      rintro ⟨tag, cs⟩ hu
      cases tag with
      | arguments => exact absurd rfl hu
      | _ => rfl
    rw [hother t harguments, hother t' (hA.label h ▸ harguments)]
    exact h

theorem rewriteRelation_alike {name : ObjectName} {fields fields' : List Ast} (h : List.Forall₂ A fields fields') :
    A (rewriteRelation session (.node (.table name) fields)) (rewriteRelation session (.node (.table name) fields')) := by
  simp only [rewriteRelation, argumentsOf_isSome_alike hA h]
  split
  · refine hA.build ?_
    rw [List.forall₂_map_left_iff, List.forall₂_map_right_iff]
    exact h.imp fun _ _ hfield => rewriteArguments_alike hA _ hfield
  · exact hA.build h

/-- Alike relations are entered alike, with the same macros active. -/
theorem preVisitTableFactor_alike (active : List Chars) {name : ObjectName} {fields fields' : List Ast}
    (h : List.Forall₂ A fields fields') :
    Follows Never (fun p p' => p.1 = p'.1 ∧ A p.2 p'.2)
      (Rewrite.preVisitTableFactor session active (.node (.table name) fields))
      (Rewrite.preVisitTableFactor session active (.node (.table name) fields')) := by
  simp only [Rewrite.preVisitTableFactor, tableMacroKey, argumentsOf_isSome_alike hA h]
  split
  · split
    · exact .error _
    · refine (expandTableMacro_alike hA (hA.build h)).bind fun u u' _ hu => ?_
      rcases optionRel_cases hu with ⟨rfl, rfl⟩ | ⟨v, v', rfl, rfl, hv⟩
      · exact .ok ⟨rfl, rewriteRelation_alike hA h⟩
      · exact .ok ⟨rfl, hv⟩
  · exact .ok ⟨rfl, rewriteRelation_alike hA h⟩

end

end VgiDatafusion.Sql
