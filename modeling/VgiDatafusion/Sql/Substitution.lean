import VgiDatafusion.Sql.MacroBinding

/-!
# The arguments of a macro in its body (session.rs:539-562)

| here | there |
| --- | --- |
| `replaceParameter`, `substituteMacro` | `Substitute::post_visit_expr`, `substitute_macro` |
| `Role`, `childRoles`, `withRoles` | not in the source: what the nodes of a body are to the macro calls in it |
| `substituteKeepingLabels` | not in the source: the substitution that leaves labels alone |

What is put in place of an identifier is not visited again, so the substitution is simultaneous. Two spellings of a label
are expressions to the parser, `label = value` and a label before `=>` that is read as an expression, and are replaced
like any other identifier; and what replaces a positional argument may itself read as `label = value`
(`substitution_iff`).
-/
namespace VgiDatafusion.Sql

section
variable (parameters : List Chars) (actual : List Expr)

/-- The argument of the parameter that an identifier names. -/
def argumentFor (ident : Ident) : Option Ast :=
  (parameters.findIdx? (sameName · ident.value)).bind fun index => (actual[index]?).map (·.1)

/-- An identifier has no children. -/
def replaceParameter : Ast → Ast
  | .node (.identifier ident) _ => (argumentFor parameters actual ident).getD (.node (.identifier ident) [])
  | t => t

/-- `substitute_macro` (`session.rs:539-562`): every node that names a parameter, what else it may be included. -/
def substituteMacro : Ast → Ast := LabelTree.bottomUp (replaceParameter parameters actual)

end

/-! ## Labels -/

/-- What a node is to the macro call around it, if that is near. -/
inductive Role
  | plain
  /-- The argument list of a call of the family. -/
  | arguments (family : List SqlMacro)
  | argument (family : List SqlMacro)
  /-- An argument without a label before it. -/
  | value (family : List SqlMacro)
  | label

/-- A parameter of some overload. -/
def namesParameter (family : List SqlMacro) (t : Ast) : Bool :=
  match t.label with
  | .identifier ident => family.any fun overload => overload.parameters.any (sameName · ident.value)
  | _ => false

section
variable (session : SqlSession)

/-- The roles of the children of a node. -/
def childRoles (role : Role) (tag : Tag) (cs : List Ast) : List Role :=
  match role, tag, cs with
  | _, .identifier _, _ => []
  | .arguments family, .arguments, cs => cs.map fun _ => .argument family
  | .argument _, .argExprNamed, [_, _] => [.label, .plain]
  | .argument family, .argUnnamed, [_] => [.value family]
  | .value family, .eq, [left, _] => [if namesParameter family left then .label else .plain, .plain]
  | _, .function name, cs | _, .table name, cs =>
    match session.lookupMacro name with
    | some family => cs.map fun c => if c.label = .arguments then .arguments family else .plain
    | none => cs.map fun _ => .plain
  | _, _, cs => cs.map fun _ => .plain

/-- All nodes, with their roles. -/
def withRoles : Ast → Role → List (Ast × Role) :=
  LabelTree.fold fun tag cs results role =>
    (.node tag cs, role) :: (results.zipWith (fun result role => result role) (childRoles session role tag cs)).flatten

variable (parameters : List Chars) (actual : List Expr)

/-- All at once, and every label as it is written. -/
def substituteKeepingLabels : Ast → Role → Ast :=
  LabelTree.fold fun tag cs results role =>
    match tag, role with
    | .identifier ident, .label => .node (.identifier ident) []
    | .identifier ident, _ => (argumentFor parameters actual ident).getD (.node (.identifier ident) [])
    | _, _ => .node tag (results.zipWith (fun result role => result role) (childRoles session role tag cs))

/-- The label of an argument of a call, under the parameters of an overload. -/
def labelUnder (parameters : List Chars) (argument : Ast) : Option (Option Chars) :=
  (readArgument session [] parameters argument).toOption.map (·.1)

/-- The calls in a body have the same labels after the substitution, whatever the overload. -/
def BindsAsWritten (body : Ast) : Prop :=
  ∀ argument family, (argument, Role.argument family) ∈ withRoles session body .plain → ∀ overload ∈ family,
    labelUnder session overload.parameters (substituteMacro parameters actual argument) =
      labelUnder session overload.parameters argument

/-- No label is one that the substitution replaces by something else. -/
def LabelsKept (body : Ast) (role : Role) : Prop :=
  ∀ ident cs, (.node (.identifier ident) cs, Role.label) ∈ withRoles session body role →
    ∀ e, argumentFor parameters actual ident = some e → e = .node (.identifier ident) []

/-- An equation with a parameter on its left. -/
def equates (family : List SqlMacro) : Ast → Bool
  | .node .eq [left, _] => namesParameter family left
  | _ => false

/-- An argument without a label that is not made an equation by the substitution. -/
def StaysPositional (family : List SqlMacro) : Ast → Prop
  | .node .argUnnamed [.node (.identifier ident) _] =>
    ∀ e, argumentFor parameters actual ident = some e → equates family e = false
  | .node .argUnnamed [.node .eq [.node (.identifier ident) _, _]] =>
    namesParameter family (.node (.identifier ident) []) = false →
      ∀ e, argumentFor parameters actual ident = some e → namesParameter family e = false
  | _ => True

def PositionalKept (body : Ast) : Prop :=
  ∀ argument family, (argument, Role.argument family) ∈ withRoles session body .plain →
    StaysPositional parameters actual family argument

end

/-! ## Nodes and their roles -/

variable {session : SqlSession} {parameters : List Chars} {actual : List Expr}

attribute [local simp] readArgument

theorem childRoles_length (session : SqlSession) {tag : Tag} (htag : ∀ ident, tag ≠ .identifier ident) (role : Role) (cs : List Ast) :
    (childRoles session role tag cs).length = cs.length := by
  unfold childRoles
  split
  · exact absurd rfl (htag _)
  all_goals (try split) <;> simp

theorem mem_withRoles_node (tag : Tag) (cs : List Ast) (role : Role) (p : Ast × Role) :
    p ∈ withRoles session (.node tag cs) role ↔
      p = (.node tag cs, role) ∨ ∃ c ∈ cs.zip (childRoles session role tag cs), p ∈ withRoles session c.1 c.2 := by
  rw [withRoles, LabelTree.fold_node, ListFacts.zipWith_apply, List.mem_cons, List.mem_flatten]
  simp

theorem withRoles_self (t : Ast) (role : Role) : (t, role) ∈ withRoles session t role := by
  cases t
  exact (mem_withRoles_node ..).2 (.inl rfl)

/-- The nodes of a node are among the nodes. -/
theorem withRoles_trans {t body : Ast} {inner role : Role} (ht : (t, inner) ∈ withRoles session body role) {p : Ast × Role}
    (hp : p ∈ withRoles session t inner) : p ∈ withRoles session body role := by
  induction body using LabelTree.induct generalizing role with
  | h tag cs ih =>
    rcases (mem_withRoles_node ..).1 ht with heq | ⟨c, hc, hin⟩
    · cases heq
      exact hp
    · exact (mem_withRoles_node ..).2 (.inr ⟨c, hc, ih c.1 (List.of_mem_zip hc).1 hin⟩)

/-! ## The substitution, node by node -/

theorem substituteMacro_identifier (ident : Ident) (cs : List Ast) :
    substituteMacro parameters actual (.node (.identifier ident) cs) =
      (argumentFor parameters actual ident).getD (.node (.identifier ident) []) := by
  rw [substituteMacro, LabelTree.bottomUp_node]
  rfl

theorem argUnnamed_ne (ident : Ident) : Tag.argUnnamed ≠ .identifier ident := fun h => by cases h

theorem argExprNamed_ne (ident : Ident) : Tag.argExprNamed ≠ .identifier ident := fun h => by cases h

theorem substituteMacro_node {tag : Tag} (htag : ∀ ident, tag ≠ .identifier ident) (cs : List Ast) :
    substituteMacro parameters actual (.node tag cs) = .node tag (cs.map (substituteMacro parameters actual)) := by
  rw [substituteMacro, LabelTree.bottomUp_node]
  cases tag with
  | identifier ident => exact absurd rfl (htag ident)
  | _ => rfl

theorem substituteKeepingLabels_node {tag : Tag} (htag : ∀ ident, tag ≠ .identifier ident) (cs : List Ast) (role : Role) :
    substituteKeepingLabels session parameters actual (.node tag cs) role =
      .node tag ((cs.zip (childRoles session role tag cs)).map fun c =>
        substituteKeepingLabels session parameters actual c.1 c.2) := by
  rw [substituteKeepingLabels, LabelTree.fold_node, ListFacts.zipWith_apply]
  cases tag with
  | identifier ident => exact absurd rfl (htag ident)
  | _ => rfl

theorem labelsKept_node {tag : Tag} (htag : ∀ ident, tag ≠ .identifier ident) (cs : List Ast) (role : Role) :
    LabelsKept session parameters actual (.node tag cs) role ↔
      ∀ c ∈ cs.zip (childRoles session role tag cs), LabelsKept session parameters actual c.1 c.2 := by
  constructor
  · exact fun h c hc ident fields hmem => h ident fields ((mem_withRoles_node ..).2 (.inr ⟨c, hc, hmem⟩))
  · intro h ident fields hmem
    rcases (mem_withRoles_node ..).1 hmem with heq | ⟨c, hc, hin⟩
    · cases heq
      exact absurd rfl (htag ident)
    · exact h c hc ident fields hin

theorem labelsKept_identifier (ident : Ident) (cs : List Ast) (role : Role) :
    LabelsKept session parameters actual (.node (.identifier ident) cs) role ↔
      (role = .label → ∀ e, argumentFor parameters actual ident = some e → e = .node (.identifier ident) []) := by
  have hnone : childRoles session role (.identifier ident) cs = [] := by simp [childRoles]
  constructor
  · rintro h rfl
    exact h ident cs (withRoles_self ..)
  · intro h ident' fields hmem
    rcases (mem_withRoles_node ..).1 hmem with heq | ⟨c, hc, -⟩
    · cases heq
      exact h rfl
    · simp [hnone] at hc

/-- At a leaf only a label is treated differently. -/
theorem substituteMacro_identifier_iff (ident : Ident) (cs : List Ast) (role : Role) :
    substituteMacro parameters actual (.node (.identifier ident) cs) =
        substituteKeepingLabels session parameters actual (.node (.identifier ident) cs) role ↔
      LabelsKept session parameters actual (.node (.identifier ident) cs) role := by
  rw [substituteMacro_identifier, substituteKeepingLabels, labelsKept_identifier, LabelTree.fold_node]
  cases role with
  | label => cases argumentFor parameters actual ident <;> simp
  | _ => simp

theorem substituteMacro_eq_iff (body : Ast) :
    ∀ role, substituteMacro parameters actual body = substituteKeepingLabels session parameters actual body role ↔
      LabelsKept session parameters actual body role := by
  induction body using LabelTree.induct with
  | h tag cs ih =>
    intro role
    by_cases htag : ∃ ident, tag = .identifier ident
    · obtain ⟨ident, rfl⟩ := htag
      exact substituteMacro_identifier_iff ident cs role
    · have hother : ∀ ident, tag ≠ .identifier ident := fun ident h => htag ⟨ident, h⟩
      have hzip := ListFacts.map_zip_left (substituteMacro parameters actual)
        (childRoles_length session hother role cs)
      rw [substituteMacro_node hother, substituteKeepingLabels_node hother, labelsKept_node hother, ← hzip]
      simp only [LabelTree.node.injEq, true_and, List.map_inj_left]
      exact forall₂_congr fun c hc => ih c.1 (List.of_mem_zip hc).1 c.2

/-! ## The labels that are read -/

variable (parameters actual) in
theorem isExpr_substituteMacro (t : Ast) : (substituteMacro parameters actual t).isExpr = t.isExpr := by
  obtain ⟨tag, cs⟩ := t
  by_cases htag : ∃ ident, tag = .identifier ident
  · obtain ⟨ident, rfl⟩ := htag
    rw [substituteMacro_identifier]
    cases h : argumentFor parameters actual ident with
    | none => rfl
    | some e =>
      obtain ⟨index, -, hindex⟩ := Option.bind_eq_some_iff.1 h
      obtain ⟨expression, -, rfl⟩ := Option.map_eq_some_iff.1 hindex
      exact expression.2
  · rw [substituteMacro_node fun ident h => htag ⟨ident, h⟩]
    rfl

variable (parameters actual) in
/-- Only an identifier is replaced. -/
theorem label_substituteMacro {t : Ast} (h : ∀ ident, t.label ≠ .identifier ident) :
    (substituteMacro parameters actual t).label = t.label := by
  obtain ⟨tag, cs⟩ := t
  have hother : ∀ ident, tag ≠ .identifier ident := h
  rw [substituteMacro_node hother]
  rfl

@[simp] theorem labelled_map (label : Option Chars) (arg : Ast) :
    (labelled session [] label arg).toOption.map (·.1) = if arg.isExpr then some label else none := by
  unfold labelled asExpr
  by_cases h : arg.isExpr = true
  · simp [h, Except.toOption]
  · simp [h, Except.toOption, planErr]

theorem labelUnder_equation (ps : List Chars) (ident : Ident) (fields : List Ast) (right : Ast) :
    labelUnder session ps (.node .argUnnamed [.node .eq [.node (.identifier ident) fields, right]]) =
      if ps.any (sameName · ident.value) then if right.isExpr then some (some ident.value) else none else some none := by
  by_cases h : ps.any (sameName · ident.value) = true
  · rw [if_pos h, labelUnder, readArgument, if_pos h, labelled_map]
  · rw [if_neg h, labelUnder, readArgument, if_neg h, labelled_map]
    rfl

/-- No equation with an identifier on its left. -/
def Plain (t : Ast) : Prop := ∀ ident fields right, t ≠ .node .eq [.node (.identifier ident) fields, right]

theorem labelUnder_plain {t : Ast} (h : Plain t) (ps : List Chars) :
    labelUnder session ps (.node .argUnnamed [t]) = if t.isExpr then some none else none := by
  rw [labelUnder, readArgument, labelled_map]
  exact h

variable (session) in
/-- An expression is an argument without a label exactly for the overloads that have no parameter on its left. -/
theorem labelUnder_none_iff (family : List SqlMacro) {t : Ast} (ht : t.isExpr = true) :
    (∀ overload ∈ family, labelUnder session overload.parameters (.node .argUnnamed [t]) = some none) ↔
      equates family t = false := by
  by_cases h : Plain t
  · have hequates : equates family t = false := by
      unfold equates namesParameter
      split
      · rename_i left right
        split
        · rename_i ident hlabel
          obtain ⟨tag, fields⟩ := left
          cases hlabel
          exact absurd rfl (h ident fields right)
        · rfl
      · rfl
    simp [labelUnder_plain h, ht, hequates]
  · simp only [Plain, not_forall, not_not] at h
    obtain ⟨ident, fields, right, rfl⟩ := h
    simp only [labelUnder_equation, equates, namesParameter, LabelTree.label_node, List.any_eq_false]
    refine forall₂_congr fun overload _ => ?_
    by_cases hlabel : overload.parameters.any (sameName · ident.value) = true
    · simp only [hlabel, if_true, not_true_eq_false, iff_false]
      split <;> simp
    · simp [hlabel]

/-- What is no label stays none, unless it is an identifier. -/
theorem plain_substituteMacro {t : Ast} (h : Plain t) (hidentifier : ∀ ident, t.label ≠ .identifier ident) :
    Plain (substituteMacro parameters actual t) := by
  obtain ⟨tag, cs⟩ := t
  have hother : ∀ ident, tag ≠ .identifier ident := hidentifier
  rw [substituteMacro_node hother]
  intro ident fields right heq
  simp only [LabelTree.node.injEq] at heq
  obtain ⟨rfl, hcs⟩ := heq
  obtain ⟨left, rest, rfl, hleft, hrest⟩ := List.map_eq_cons_iff.1 hcs
  obtain ⟨value, _, rfl, -, hnil⟩ := List.map_eq_cons_iff.1 hrest
  rw [List.map_eq_nil_iff.1 hnil] at h
  by_cases hlabel : ∃ name, left.label = .identifier name
  · obtain ⟨name, hname⟩ := hlabel
    refine h name left.children value ?_
    rw [← hname, LabelTree.eta]
  · have hkept := label_substituteMacro parameters actual fun name hname => hlabel ⟨name, hname⟩
    rw [hleft] at hkept
    exact hlabel ⟨ident, hkept.symm⟩

theorem substituteMacro_label {ident : Ident} {cs : List Ast}
    (h : LabelsKept session parameters actual (.node (.identifier ident) cs) .label) :
    substituteMacro parameters actual (.node (.identifier ident) cs) = .node (.identifier ident) [] := by
  rw [substituteMacro_identifier]
  cases hargument : argumentFor parameters actual ident with
  | none => rfl
  | some e => exact (labelsKept_identifier ident cs .label).1 h rfl e hargument

section
variable {family : List SqlMacro}

/-- An identifier or an expression that is no equation. -/
theorem labelUnder_identifier_iff (ident : Ident) (cs : List Ast) :
    (∀ overload ∈ family,
      labelUnder session overload.parameters (substituteMacro parameters actual (.node .argUnnamed [.node (.identifier ident) cs])) =
        labelUnder session overload.parameters (.node .argUnnamed [.node (.identifier ident) cs])) ↔
      StaysPositional parameters actual family (.node .argUnnamed [.node (.identifier ident) cs]) := by
  have hplain : Plain (.node (.identifier ident) cs) := by
    intro _ _ _ h
    cases h
  have hexpr := isExpr_substituteMacro parameters actual (.node (.identifier ident) cs)
  simp only [labelUnder_plain hplain, substituteMacro_node argUnnamed_ne, List.map_cons,
    List.map_nil]
  refine (labelUnder_none_iff session family hexpr).trans ?_
  rw [substituteMacro_identifier]
  simp only [StaysPositional]
  cases argumentFor parameters actual ident with
  | none => simp [equates]
  | some e => simp

theorem labelUnder_equation_iff (ident : Ident) (cs : List Ast) (right : Ast)
    (hlabels : LabelsKept session parameters actual
      (.node .argUnnamed [.node .eq [.node (.identifier ident) cs, right]]) (.argument family)) :
    (∀ overload ∈ family,
      labelUnder session overload.parameters
          (substituteMacro parameters actual (.node .argUnnamed [.node .eq [.node (.identifier ident) cs, right]])) =
        labelUnder session overload.parameters (.node .argUnnamed [.node .eq [.node (.identifier ident) cs, right]])) ↔
      StaysPositional parameters actual family (.node .argUnnamed [.node .eq [.node (.identifier ident) cs, right]]) := by
  have hother : ∀ {tag : Tag}, tag = .argUnnamed ∨ tag = .eq → ∀ name, tag ≠ .identifier name := by
    rintro _ (rfl | rfl) _ h <;> cases h
  simp only [substituteMacro_node (hother (.inl rfl)), substituteMacro_node (hother (.inr rfl)), List.map_cons, List.map_nil,
    StaysPositional]
  by_cases hlabel : namesParameter family (.node (.identifier ident) []) = true
  · have hkept : LabelsKept session parameters actual (.node (.identifier ident) cs) .label := by
      have hvalue := (labelsKept_node (hother (.inl rfl)) _ _).1 hlabels
      simp only [childRoles, List.zip_cons_cons, List.zip_nil_right, List.mem_singleton, forall_eq] at hvalue
      have hleft := (labelsKept_node (hother (.inr rfl)) _ _).1 hvalue
      have hnames : namesParameter family (.node (.identifier ident) cs) = true := hlabel
      simp only [childRoles, hnames, if_true, List.zip_cons_cons] at hleft
      exact hleft _ List.mem_cons_self
    simp only [substituteMacro_label hkept, labelUnder_equation, isExpr_substituteMacro, hlabel]
    simp
  · have hnone : equates family (.node .eq [.node (.identifier ident) cs, right]) = false := by
      simpa [equates, namesParameter] using hlabel
    have hbefore := (labelUnder_none_iff session family
      (show Ast.isExpr (.node .eq [.node (.identifier ident) cs, right]) = true from rfl)).2 hnone
    have hafter := labelUnder_none_iff session family
      (show Ast.isExpr (.node .eq [substituteMacro parameters actual (.node (.identifier ident) cs),
        substituteMacro parameters actual right]) = true from rfl)
    have hsame : namesParameter family (.node (.identifier ident) []) = false := by simpa using hlabel
    refine Iff.trans (forall₂_congr fun overload hmem => by rw [hbefore overload hmem]) (hafter.trans ?_)
    rw [equates, substituteMacro_identifier]
    simp only [hsame, forall_const]
    cases argumentFor parameters actual ident with
    | none => simp [hsame]
    | some e => simp

/-- Where the rest of an argument is as the parser builds it, its value is one child. -/
theorem labelUnder_argNamed (ps : List Chars) (label : Ident) (cs : List Ast) :
    labelUnder session ps (.node (.argNamed label) cs) =
      match cs with
      | [arg] => if arg.isExpr then some (some label.value) else none
      | _ => none := by
  match cs with
  | [arg] => rw [labelUnder, readArgument, labelled_map]
  | [] => rfl
  | _ :: _ :: _ => rfl

theorem labelUnder_argExprNamed (ps : List Chars) (cs : List Ast) :
    labelUnder session ps (.node .argExprNamed cs) =
      match cs with
      | [.node (.identifier label) _, arg] => if arg.isExpr then some (some label.value) else none
      | _ => none := by
  match cs with
  | [.node tag fields, arg] =>
    cases tag with
    | identifier label => rw [labelUnder, readArgument, labelled_map]
    | _ => rfl
  | [] => rfl
  | [.node tag fields] => cases tag <;> rfl
  | .node tag fields :: _ :: _ :: _ => cases tag <;> rfl

theorem labelUnder_argExprNamed_other {name : Ast} (h : ∀ ident, name.label ≠ .identifier ident) (ps : List Chars)
    (arg : Ast) : labelUnder session ps (.node .argExprNamed [name, arg]) = none := by
  obtain ⟨tag, fields⟩ := name
  cases tag with
  | identifier ident => exact absurd rfl (h ident)
  | _ => rfl

variable (parameters actual family) in
theorem stays_of_plain {t : Ast} (h : Plain t) (hidentifier : ∀ ident, t.label ≠ .identifier ident) :
    StaysPositional parameters actual family (.node .argUnnamed [t]) := by
  unfold StaysPositional
  split
  · rename_i ident cs heq
    cases heq
    exact absurd rfl (hidentifier ident)
  · rename_i ident cs right heq
    cases heq
    exact absurd rfl (h ident cs right)
  · trivial

theorem labelUnder_argUnnamed_cons (ps : List Chars) (c d : Ast) (cs : List Ast) :
    labelUnder session ps (.node .argUnnamed (c :: d :: cs)) = none := by
  simp [labelUnder, readArgument, planErr, Except.toOption]

theorem labelUnder_of_isExpr {t : Ast} (h : t.isExpr = true) (ps : List Chars) : labelUnder session ps t = none := by
  obtain ⟨tag, cs⟩ := t
  cases tag with
  | argNamed label => cases h
  | argExprNamed => cases h
  | argUnnamed => cases h
  | _ => rfl

/-- The substitution reads the same labels from an argument, unless it makes it one with a label. -/
theorem labelUnder_iff {argument : Ast} (hlabels : LabelsKept session parameters actual argument (.argument family)) :
    (∀ overload ∈ family, labelUnder session overload.parameters (substituteMacro parameters actual argument) =
      labelUnder session overload.parameters argument) ↔ StaysPositional parameters actual family argument := by
  obtain ⟨tag, cs⟩ := argument
  cases tag with
  | identifier ident =>
    have hidentifier : Ast.isExpr (.node (.identifier ident) cs) = true := rfl
    have hexpr := isExpr_substituteMacro parameters actual (.node (.identifier ident) cs)
    simp [labelUnder_of_isExpr hexpr, labelUnder_of_isExpr hidentifier, StaysPositional]
  | argNamed label =>
    rw [substituteMacro_node fun _ h => by cases h]
    match cs with
    | [arg] => simp [labelUnder_argNamed, isExpr_substituteMacro, StaysPositional]
    | [] => simp [StaysPositional]
    | _ :: _ :: _ => simp [labelUnder_argNamed, StaysPositional]
  | argExprNamed =>
    rw [substituteMacro_node fun _ h => by cases h]
    match cs with
    | [name, arg] =>
      have hnode := (labelsKept_node argExprNamed_ne _ _).1 hlabels
      obtain ⟨nameTag, fields⟩ := name
      by_cases hlabel : ∃ ident, nameTag = .identifier ident
      · obtain ⟨ident, rfl⟩ := hlabel
        have hkept : LabelsKept session parameters actual (.node (.identifier ident) fields) .label :=
          hnode (_, .label) List.mem_cons_self
        simp [labelUnder_argExprNamed, substituteMacro_label hkept, isExpr_substituteMacro, StaysPositional]
      · have hwritten : ∀ ident, (LabelTree.node nameTag fields).label ≠ .identifier ident := fun ident h => hlabel ⟨ident, h⟩
        have hkept := label_substituteMacro parameters actual hwritten
        have hsubstituted := fun ident => hkept ▸ hwritten ident
        simp [labelUnder_argExprNamed_other hwritten, labelUnder_argExprNamed_other hsubstituted, StaysPositional]
    | [] => simp [StaysPositional]
    | [name] => simp [labelUnder_argExprNamed, StaysPositional]
    | _ :: _ :: _ :: _ => simp [labelUnder_argExprNamed, StaysPositional]
  | argUnnamed =>
    match cs with
    | [] => simp [substituteMacro_node, StaysPositional]
    | c :: d :: cs => simp [substituteMacro_node, labelUnder_argUnnamed_cons, StaysPositional]
    | [value] =>
      by_cases hplain : Plain value
      · obtain ⟨valueTag, fields⟩ := value
        by_cases hidentifier : ∃ ident, valueTag = .identifier ident
        · obtain ⟨ident, rfl⟩ := hidentifier
          exact labelUnder_identifier_iff ident fields
        · have hkept : Plain (substituteMacro parameters actual (.node valueTag fields)) :=
            plain_substituteMacro hplain fun ident h => hidentifier ⟨ident, h⟩
          have hstays := stays_of_plain parameters actual family hplain
            fun ident h => hidentifier ⟨ident, h⟩
          simp only [substituteMacro_node argUnnamed_ne, List.map_cons, List.map_nil,
            labelUnder_plain hplain, labelUnder_plain hkept, isExpr_substituteMacro]
          exact iff_of_true (fun _ _ => trivial) hstays
      · simp only [Plain, not_forall, not_not] at hplain
        obtain ⟨ident, fields, right, rfl⟩ := hplain
        exact labelUnder_equation_iff ident fields right hlabels
  | _ =>
    rw [substituteMacro_node fun _ h => by cases h]
    simp [labelUnder, readArgument, planErr, Except.toOption, StaysPositional]

end

/-! ## The claim -/

theorem labelsKept_of_mem {t body : Ast} {inner role : Role} (ht : (t, inner) ∈ withRoles session body role)
    (h : LabelsKept session parameters actual body role) : LabelsKept session parameters actual t inner :=
  fun ident cs hmem => h ident cs (withRoles_trans ht hmem)

/-- **The substitution replaces all parameters at once and leaves the labels of the calls in a body as they are written,
exactly if no label that the parser reads as an expression names a parameter with another argument, and no argument
without a label is made an equation with a parameter of the call on its left.** -/
theorem substitution_iff (session : SqlSession) (parameters : List Chars) (actual : List Expr) (body : Ast) :
    (substituteMacro parameters actual body = substituteKeepingLabels session parameters actual body .plain ∧
        BindsAsWritten session parameters actual body) ↔
      LabelsKept session parameters actual body .plain ∧ PositionalKept session parameters actual body := by
  rw [substituteMacro_eq_iff]
  refine and_congr_right fun hlabels => ?_
  exact forall₃_congr fun argument family hmem => labelUnder_iff (labelsKept_of_mem hmem hlabels)

/-! ### A label that is a parameter -/

def innerName : ObjectName := [identName "cat".toList, identName "main".toList, identName "inner".toList]

/-- With the macro `inner(a)`. -/
def innerSession : SqlSession := { emptySession with macros := [("cat.main.inner".toList, [takes ["a"]])] }

/-- `left = 1` -/
def equationArgument (left : Ast) : Ast := .node .argUnnamed [.node .eq [left, literal "1"]]

def innerCall (argument : Ast) : Ast := .node (.function innerName) [.node .arguments [argument]]

def labelA : Ast := .node (.identifier { value := "a".toList }) []

/-- In a macro with the parameter `a` that is given 5, `inner(a = 1)` becomes `inner(5 = 1)`, which binds the equation. -/
theorem substituteMacro_replaces_label :
    substituteMacro ["a".toList] [literal "5"] (innerCall (equationArgument labelA)) =
        innerCall (equationArgument (literal "5")) ∧
      substituteKeepingLabels innerSession ["a".toList] [literal "5"] (innerCall (equationArgument labelA)) .plain =
        innerCall (equationArgument labelA) ∧
      innerCall (equationArgument (literal "5")) ≠ innerCall (equationArgument labelA) ∧
      bindMacroArguments innerSession innerName (takes ["a"]) [equationArgument labelA] = .ok [literal "1"] ∧
      bindMacroArguments innerSession innerName (takes ["a"]) [equationArgument (literal "5")] =
        .ok [⟨.node .eq [literal "5", literal "1"], rfl⟩] := by
  refine ⟨rfl, rfl, ?_, rfl, rfl⟩
  intro h
  simp only [innerCall, equationArgument, labelA, literal, LabelTree.node.injEq, List.cons.injEq] at h
  exact absurd h.2.1.2.1.2.1.2.1.1 (by decide)

end VgiDatafusion.Sql
