import VgiDatafusion.Library.Visits
import VgiDatafusion.Sql.Joins

/-!
# Recursion reports (session.rs:594-698, 1748-1775)

The unfolding of a statement is its rewrite without the two guards against recursion: every call is replaced by the body of
the overload its arguments select, and may so be replaced for ever. Both guards go by the name of a macro and not by the
overload, and the one for table macros is up while the arguments of a call are visited in its body. A recursion is reported
exactly where the unfolding comes to a call of a name that is being unfolded (`recursion_reported_iff`).
-/
namespace VgiDatafusion.Sql

/-- The failure is one of the two reports of recursion. -/
def Failure.isRecursion : Failure → Prop
  | recursiveScalar _ | recursiveTable _ => True
  | plan _ | outOfDepth => False

/-! ## Unfolding -/

section
variable (session : SqlSession)

/-- `expandNested` without the guard. -/
def unfoldNested : Visitor (List Chars) Tag Failure where
  pre active t := .ok (active, t)
  post _ active t := do
    match ← scalarCall session t with
    | none => pure (.done t)
    | some (key, body) => pure (.again (active ++ [key]) body.1)

/-- A call of a scalar macro is opened, without a look at what is open already. -/
def unfoldScalarMacro (depth : Nat) (t : Ast) : Except Failure (Option Ast) := do
  match ← scalarCall session t with
  | none => pure none
  | some (key, body) =>
    let unfolded ← Visitor.visit .outOfDepth (unfoldNested session) depth [key] body.1
    pure (some unfolded)

/-- A call of a table macro is opened, without such a look. -/
def unfoldTableFactor (active : List Chars) (t : Ast) : Except Failure (List Chars × Ast) :=
  match tableMacroKey session t with
  | some key => do
    match ← expandTableMacro session t with
    | some expanded => pure (key :: active, expanded)
    | none => pure (active, rewriteRelation session t)
  | none => pure (active, rewriteRelation session t)

/-- `rewrite` without the guards. -/
def unfold : Visitor (List Chars) Tag Failure where
  pre active t := unfoldTableFactor session active (Rewrite.preVisitSelect t)
  post depth active t := do
    match ← unfoldScalarMacro session depth t with
    | some unfolded => pure (.again active unfolded)
    | none => pure (.done (witnessRows session t))

/-- The rewrite without the checks for recursion. -/
def unfoldVgiSql (depth : Nat) : DFStatement → Except Failure DFStatement
  | .statement t => do pure (.statement (← Visitor.visit .outOfDepth (unfold session) depth [] t))
  | .explain statement => do pure (.explain (← unfoldVgiSql depth statement))
  | .other t => .ok (.other t)

/-! ## Calls of what is being unfolded -/

/-- A call of a scalar macro that is being unfolded. -/
def CallsOpenScalar (_ : Nat) (active : List Chars) (t : Ast) : Prop :=
  ∃ key body, scalarCall session t = .ok (some (key, body)) ∧ key ∈ active

/-- A call of a scalar macro in whose unfolding there is such a call. -/
def UnfoldsOpenScalar (depth : Nat) (_ : List Chars) (t : Ast) : Prop :=
  ∃ key body, scalarCall session t = .ok (some (key, body)) ∧
    Visitor.Stops .outOfDepth (unfoldNested session) (fun _ _ => False) (CallsOpenScalar session) depth [key] body.1

/-- A call of a table macro that is being unfolded. -/
def CallsOpenTable (active : List Chars) (t : Ast) : Prop :=
  ∃ key, tableMacroKey session (Rewrite.preVisitSelect t) = some key ∧ key ∈ active

/-- The unfolding, followed to some depth, comes to a call of a name that is being unfolded. -/
def MeetsItself (depth : Nat) (t : Ast) : Prop :=
  Visitor.Stops .outOfDepth (unfold session) (CallsOpenTable session) (UnfoldsOpenScalar session) depth [] t

end

/-! ## The guards -/

variable {session : SqlSession}

theorem enterScalar_guarded (active : List Chars) (key : Chars) :
    Guarded Failure.isRecursion (key ∈ active) (enterScalar active key) (.ok (active ++ [key])) := by
  rcases enterScalar_cases active key with ⟨hmem, cycle, h⟩ | ⟨hnew, h⟩
  · exact .inl ⟨hmem, .recursiveScalar cycle, trivial, h⟩
  · exact .inr ⟨hnew, h, fun e he => by cases he⟩

/-- Binding a call reports no recursion. -/
theorem scalarCall_guarded (t : Ast) : Guarded Failure.isRecursion False (scalarCall session t) (scalarCall session t) := by
  rcases scalarCall_cases session t with ⟨-, h⟩ | ⟨-, ⟨text, h⟩ | ⟨key, body, -, h⟩⟩
  · rw [h]
    exact .ok none
  · rw [h]
    exact .error id
  · rw [h]
    exact .ok _

theorem postNested_guarded (depth : Nat) (active : List Chars) (t : Ast) :
    Guarded Failure.isRecursion (CallsOpenScalar session depth active t) ((expandNested session).post depth active t)
      ((unfoldNested session).post depth active t) := by
  refine ((scalarCall_guarded t).bind (q := fun call => ∃ key body, call = some (key, body) ∧ key ∈ active) fun call _ => ?_).congr ?_
  · cases call with
    | none =>
      refine (Guarded.ok _).congr ⟨?_, False.elim⟩
      rintro ⟨_, _, h, -⟩
      cases h
    | some call =>
      obtain ⟨key, body⟩ := call
      refine ((enterScalar_guarded active key).bind fun active' _ => Guarded.ok (Next.again active' body.1)).congr ?_
      simp
  · simp [CallsOpenScalar]

theorem expandNested_guarded (depth : Nat) (active : List Chars) (t : Ast) :
    Guarded Failure.isRecursion
      (Visitor.Stops .outOfDepth (unfoldNested session) (fun _ _ => False) (CallsOpenScalar session) depth active t)
      (Visitor.visit .outOfDepth (expandNested session) depth active t)
      (Visitor.visit .outOfDepth (unfoldNested session) depth active t) :=
  Visitor.visit_guarded id (fun active t => Guarded.ok (active, t)) postNested_guarded depth active t

/-- The call that is unfolded is no recursion, only a call in its unfolding can be. -/
theorem expandScalarMacro_guarded (depth : Nat) (active : List Chars) (t : Ast) :
    Guarded Failure.isRecursion (UnfoldsOpenScalar session depth active t) (expandScalarMacro session depth [] t)
      (unfoldScalarMacro session depth t) := by
  refine ((scalarCall_guarded t).bind (q := fun call => ∃ key body, call = some (key, body) ∧ Visitor.Stops .outOfDepth
    (unfoldNested session) (fun _ _ => False) (CallsOpenScalar session) depth [key] body.1) fun call _ => ?_).congr ?_
  · cases call with
    | none =>
      refine (Guarded.ok none).congr ⟨?_, False.elim⟩
      rintro ⟨_, _, h, -⟩
      cases h
    | some call =>
      obtain ⟨key, body⟩ := call
      refine ((expandNested_guarded depth [key] body.1).bind fun u _ => Guarded.ok (some u)).congr ?_
      constructor
      · rintro ⟨_, _, ⟨⟩, h⟩
        exact .inl h
      · rintro (h | ⟨_, -, ⟨⟩⟩)
        exact ⟨key, body, rfl, h⟩
  · simp [UnfoldsOpenScalar]

theorem post_guarded (depth : Nat) (active : List Chars) (t : Ast) :
    Guarded Failure.isRecursion (UnfoldsOpenScalar session depth active t) ((rewrite session).post depth active t)
      ((unfold session).post depth active t) := by
  refine ((expandScalarMacro_guarded depth active t).bind (q := fun _ => False) fun expanded _ => ?_).congr (by simp)
  cases expanded with
  | none => exact .ok _
  | some u => exact .ok _

theorem expandTableMacro_guarded (t : Ast) :
    Guarded Failure.isRecursion False (expandTableMacro session t) (expandTableMacro session t) := by
  rcases expandTableMacro_cases t with ⟨-, h⟩ | ⟨-, -, -, ⟨text, h⟩ | ⟨fields, h⟩⟩
  · rw [h]
    exact .ok none
  · rw [h]
    exact .error id
  · rw [h]
    exact .ok _

theorem pre_guarded (active : List Chars) (t : Ast) :
    Guarded Failure.isRecursion (CallsOpenTable session active t) ((rewrite session).pre active t)
      ((unfold session).pre active t) := by
  show Guarded _ _ (Rewrite.preVisitTableFactor session active (Rewrite.preVisitSelect t))
    (unfoldTableFactor session active (Rewrite.preVisitSelect t))
  rw [CallsOpenTable]
  generalize Rewrite.preVisitSelect t = t
  cases hkey : tableMacroKey session t with
  | none =>
    simp only [Rewrite.preVisitTableFactor, unfoldTableFactor, hkey]
    refine (Guarded.ok _).congr (by simp)
  | some key =>
    by_cases hactive : key ∈ active
    · refine .inl ⟨⟨key, rfl, hactive⟩, .recursiveTable key, trivial, ?_⟩
      simp [Rewrite.preVisitTableFactor, hkey, hactive]
    · have hcontains : active.contains key = false := by simpa using hactive
      simp only [Rewrite.preVisitTableFactor, unfoldTableFactor, hkey, hcontains]
      refine ((expandTableMacro_guarded t).bind (q := fun _ => False) fun expanded _ => ?_).congr ?_
      · cases expanded with
        | none => exact .ok _
        | some u => exact .ok _
      · simp [hactive]

variable (session) in
/-- The rewrite is the unfolding up to the first call of what is being unfolded, and reports a recursion there. -/
theorem rewrite_guarded (depth : Nat) (active : List Chars) (t : Ast) :
    Guarded Failure.isRecursion
      (Visitor.Stops .outOfDepth (unfold session) (CallsOpenTable session) (UnfoldsOpenScalar session) depth active t)
      (Visitor.visit .outOfDepth (rewrite session) depth active t) (Visitor.visit .outOfDepth (unfold session) depth active t) :=
  Visitor.visit_guarded id pre_guarded post_guarded depth active t

variable (session) in
theorem rewriteVgiSql_guarded (depth : Nat) (statement : DFStatement) :
    Guarded Failure.isRecursion (∃ t, statement.visited = some t ∧ MeetsItself session depth t)
      (rewriteVgiSql session depth statement) (unfoldVgiSql session depth statement) := by
  induction statement with
  | statement t =>
    refine ((rewrite_guarded session depth [] t).bind fun u _ => Guarded.ok (DFStatement.statement u)).congr ?_
    simp [DFStatement.visited, MeetsItself]
  | explain statement ih =>
    refine (ih.bind fun inner _ => Guarded.ok (DFStatement.explain inner)).congr ?_
    simp [DFStatement.visited]
  | other t => exact (Guarded.ok (DFStatement.other t)).congr (by simp [DFStatement.visited])

/-- **No recursion is reported exactly if the unfolding never comes to a call of a name that is being unfolded; what is
rewritten then is what is unfolded, and where the unfolding never ends a recursion is reported.** -/
theorem recursion_reported_iff (session : SqlSession) (statement : DFStatement) :
    ((∀ depth failure, rewriteVgiSql session depth statement = .error failure → ¬failure.isRecursion) ↔
      ∀ depth t, statement.visited = some t → ¬MeetsItself session depth t) ∧
    (∀ depth, (∀ t, statement.visited = some t → ¬MeetsItself session depth t) →
      rewriteVgiSql session depth statement = unfoldVgiSql session depth statement) ∧
    ((∀ depth, unfoldVgiSql session depth statement = .error .outOfDepth) →
      ∃ depth failure, rewriteVgiSql session depth statement = .error failure ∧ failure.isRecursion) := by
  refine ⟨⟨?_, ?_⟩, ?_, ?_⟩
  · intro hnever depth t ht hmeets
    obtain ⟨failure, hrecursion, hfailure⟩ := (rewriteVgiSql_guarded session depth statement).stopped_iff.1 ⟨t, ht, hmeets⟩
    exact hnever depth failure hfailure hrecursion
  · intro hnever depth failure hfailure hrecursion
    obtain ⟨t, ht, hmeets⟩ := (rewriteVgiSql_guarded session depth statement).stopped_iff.2 ⟨failure, hrecursion, hfailure⟩
    exact hnever depth t ht hmeets
  · intro depth hnever
    rcases rewriteVgiSql_guarded session depth statement with ⟨⟨t, ht, hmeets⟩, -⟩ | ⟨-, hsame, -⟩
    · exact absurd hmeets (hnever t ht)
    · exact hsame
  · intro hendless
    obtain ⟨depth, hdepth⟩ := rewriteVgiSql_ends session statement
    rcases rewriteVgiSql_guarded session depth statement with ⟨-, failure, hrecursion, hfailure⟩ | ⟨-, hsame, -⟩
    · exact ⟨depth, failure, hfailure, hrecursion⟩
    · rw [hsame] at hdepth
      exact absurd (hendless depth) hdepth

/-! ### Reports where nothing is recursive -/

def parameterName (text : String) : Ast := .node (.identifier { value := text.toList }) []

def passName : ObjectName := [identName "cat".toList, identName "main".toList, identName "pass".toList]

def pickName : ObjectName := [identName "cat".toList, identName "main".toList, identName "pick".toList]

/-- With the table macro `pass(x) := SELECT x` and two overloads, `pick(x) := pick(x, 1)` and `pick(x, y) := x`. -/
def overloadedSession : SqlSession :=
  { emptySession with
    macros := [
      ("cat.main.pass".toList, [{
        kind := .table
        parameters := ["x".toList]
        defaults := fun _ => none
        body := .table ⟨.node .query [.node .select [parameterName "x"]], rfl⟩ }]),
      ("cat.main.pick".toList, [
        { takes ["x"] with
          body := .scalar ⟨.node (.function pickName) [.node .arguments [.node .argUnnamed [parameterName "x"],
            .node .argUnnamed [literal "1"]]], rfl⟩ },
        { takes ["x", "y"] with body := .scalar ⟨parameterName "x", rfl⟩ }])] }

/-- `FROM cat.main.pass(..)` -/
def fromPass (argument : Ast) : Ast :=
  selectFrom (.node .tableWithJoins [.node (.table passName) [.node .arguments [.node .argUnnamed [argument]]]])

/-- `SELECT .. FROM cat.main.pass((SELECT .. FROM cat.main.pass(1)))` -/
def passTwice : Ast := fromPass (.node (.expr "subquery".toList) [fromPass (literal "1")])

/-- `SELECT cat.main.pick(1)` -/
def pickOne : Ast :=
  .node .query [.node .select [.node (.function pickName) [.node .arguments [.node .argUnnamed [literal "1"]]]]]

/-- Both unfold to something without calls, both are reported to be recursive. -/
theorem recursion_reported_falsely :
    (∃ failure, rewriteVgiSql overloadedSession 20 (.statement passTwice) = .error failure ∧ failure.isRecursion) ∧
    (∃ result, unfoldVgiSql overloadedSession 20 (.statement passTwice) = .ok result) ∧
    (∃ failure, rewriteVgiSql overloadedSession 20 (.statement pickOne) = .error failure ∧ failure.isRecursion) ∧
    ∃ result, unfoldVgiSql overloadedSession 20 (.statement pickOne) = .ok result :=
  ⟨⟨_, rfl, trivial⟩, ⟨_, rfl⟩, ⟨_, rfl, trivial⟩, _, rfl⟩

end VgiDatafusion.Sql
