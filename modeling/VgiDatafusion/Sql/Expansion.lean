import VgiDatafusion.Library.Visitor
import VgiDatafusion.Sql.Substitution

/-!
# Macro calls and what they stand for (session.rs:564-698)

| here | there |
| --- | --- |
| `Failure` | the errors of the rewrite; `outOfDepth` is the model's own |
| `onlyArguments`, `openScalar`, `scalarCall`, `enterScalar` | `expand_scalar_macro` up to the nested visit: the body, the key, the guard |
| `expandNested`, `expandScalarMacro` | `ExpandNested`, `expand_scalar_macro` |
| `openTable`, `expandTableMacro` | `expand_table_macro` |

The arguments of a scalar call are expanded before the call is, those of a table call are not.
-/
namespace VgiDatafusion.Sql

/-- How a rewrite fails, without the text; `outOfDepth` is the model's own. -/
inductive Failure
  | plan (text : String)
  | recursiveScalar (cycle : List Chars)
  | recursiveTable (key : Chars)
  | outOfDepth
  deriving DecidableEq

section
variable (session : SqlSession)

/-! ## Scalar macros -/

/-- Nothing but a list of arguments is accepted. -/
def onlyArguments (name : ObjectName) (fields : List Ast) : Except String (List Ast) :=
  let text := macroName session name
  match fields with
  | [.node .arguments arguments] => .ok arguments
  | fields =>
    if (argumentsOf fields).isSome then
      planErr s!"VGI scalar macro `{text}` does not accept DISTINCT, FILTER, OVER, or argument clauses"
    else planErr s!"VGI scalar macro `{text}` requires an argument list"

/-- The body of a call with the arguments in it. -/
def openScalar (name : ObjectName) (family : List SqlMacro) (fields : List Ast) : Except String Expr := do
  let text := macroName session name
  let arguments ← onlyArguments session name fields
  let (info, actual) ← bindMacroOverload session name family .scalar arguments
  match info.body with
  | .scalar template => .ok ⟨substituteMacro info.parameters actual template.1, by
      rw [isExpr_substituteMacro]
      exact template.2⟩
  | .invalid error => planErr s!"invalid VGI macro `{text}`: {error}"
  | .table _ => planErr s!"VGI macro `{text}` has an invalid scalar body"

/-- The key of a call, and its body. -/
def scalarCall : Ast → Except Failure (Option (Chars × Expr))
  | .node (.function name) fields =>
    match macroKey name, session.lookupMacro name with
    | some key, some family => ((openScalar session name family fields).mapError .plan).map fun body => some (key, body)
    | _, _ => .ok none
  | _ => .ok none

/-- A macro must not be entered again from within. -/
def enterScalar (active : List Chars) (key : Chars) : Except Failure (List Chars) :=
  match active.findIdx? (· = key) with
  | some start => .error (.recursiveScalar (active.drop start ++ [key]))
  | none => .ok (active ++ [key])

/-- The state is the stack of the macros that are open. -/
def expandNested : Visitor (List Chars) Tag Failure where
  pre active t := .ok (active, t)
  post _ active t := do
    match ← scalarCall session t with
    | none => pure (.done t)
    | some (key, body) => pure (.again (← enterScalar active key) body.1)

/-- `expand_scalar_macro` (`session.rs:564-645`); the depth bounds how far calls in bodies are followed. -/
def expandScalarMacro (depth : Nat) (active : List Chars) (t : Ast) : Except Failure (Option Ast) := do
  match ← scalarCall session t with
  | none => pure none
  | some (key, body) =>
    let expanded ← Visitor.visit .outOfDepth (expandNested session) depth (← enterScalar active key) body.1
    pure (some expanded)

/-! ## Table macros -/

/-- What a table macro passes on, or lets through. -/
def acceptedByTableMacro : Tag → Bool
  | .arguments | .tableAlias | .sample => true
  | _ => false

/-- The derived table that a call stands for. -/
def openTable (name : ObjectName) (family : List SqlMacro) (fields arguments : List Ast) : Except String Ast := do
  let text := macroName session name
  let _ ← (if fields.all (acceptedByTableMacro ·.label) then .ok () else
    planErr (s!"VGI table macro `{text}` does not accept SETTINGS, hints, versions, ordinality, partitions, JSON paths, " ++
      "or index hints"))
  let (info, actual) ← bindMacroOverload session name family .table arguments
  match info.body with
  | .table template =>
    .ok (.node (.derived false) (substituteMacro info.parameters actual template.1 ::
      fields.filter fun field => field.label ≠ .arguments))
  | .invalid error => planErr s!"invalid VGI macro `{text}`: {error}"
  | .scalar _ => planErr s!"VGI macro `{text}` has an invalid table body"

/-- `expand_table_macro` (`session.rs:647-698`); what it puts in place of the call is walked by the visitor. -/
def expandTableMacro : Ast → Except Failure (Option Ast)
  | .node (.table name) fields =>
    match argumentsOf fields, session.lookupMacro name with
    | some arguments, some family => ((openTable session name family fields arguments).mapError .plan).map some
    | _, _ => .ok none
  | _ => .ok none

end

end VgiDatafusion.Sql
