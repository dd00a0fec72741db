import VgiDatafusion.Library.Tree
import VgiDatafusion.Session.Options

/-!
# SQL as the visitors see it (session.rs:67-72, 153-180, 360-369)

`VisitMut` is derived: it enters the fields of a node in their order and calls the hooks of a visitor on queries, selects,
table factors and expressions. A statement is a tree whose labels say what the hooks look at; whatever they do not look at
is a child like any other, under `expr`, `factor` or `other`.

| here | there |
| --- | --- |
| `identifier`, `eq`, `function`, `struct`, `named`, `expr` | `Expr`; `eq` is `BinaryOp` with `Eq`, its children left and right |
| `arguments` | `FunctionArguments::List`, `TableFunctionArgs`; anything else a call has besides is a child of the call |
| `argNamed`, `argExprNamed`, `argUnnamed` | `FunctionArg`; the child is the value, before it the name of `ExprNamed` |
| `table`, `derived`, `lateralFunction`, `nestedJoin`, `factor` | `TableFactor` |
| `query`, `ctes`, `cte`, `select`, `selectFrom`, `tableWithJoins`, `join` | `Query`, its `With`, and what a `Select` is made of |
| `tableAlias`, `sample` | the fields a table macro passes on |
| `macroKey` | `macro_key` |

An argument that is no expression is a wildcard.
-/
namespace VgiDatafusion.Sql

structure Ident where
  value : Chars
  quoteStyle : Option Char := none
  deriving DecidableEq

/-- A part is an identifier or a function of some dialect. -/
inductive ObjectNamePart
  | identifier (ident : Ident)
  | function (text : Chars)
  deriving DecidableEq

abbrev ObjectName := List ObjectNamePart

def ObjectNamePart.asIdent : ObjectNamePart → Option Ident
  | identifier ident => some ident
  | function _ => none

inductive JoinOperator
  | semi
  | anti
  | leftSemi
  | leftAnti
  | other (kind : Chars)
  deriving DecidableEq

inductive Tag
  | identifier (ident : Ident)
  | eq
  | function (name : ObjectName)
  | struct
  | named (name : Ident)
  | expr (kind : Chars)
  | arguments
  | argNamed (name : Ident)
  | argExprNamed
  | argUnnamed
  | table (name : ObjectName)
  | derived (lateral : Bool)
  | lateralFunction (name : ObjectName)
  | nestedJoin
  | factor (kind : Chars)
  | query
  | ctes (recursive : Bool)
  | cte (name : Ident)
  | select
  | selectFrom
  | tableWithJoins
  | join (operator : JoinOperator)
  | tableAlias
  | sample
  | other (kind : Chars)
  deriving DecidableEq

/-- The sorts a visitor has hooks for. -/
inductive Hook
  | expr
  | tableFactor
  | query
  | select
  | none
  deriving DecidableEq

def Tag.hook : Tag → Hook
  | identifier _ | eq | function _ | struct | named _ | expr _ => .expr
  | table _ | derived _ | lateralFunction _ | nestedJoin | factor _ => .tableFactor
  | query => .query
  | select => .select
  | _ => .none

/-- A syntax tree; what the visitors do not look into is `other`. -/
abbrev Ast := LabelTree Tag

namespace Ast

def isExpr (t : Ast) : Bool := t.label.hook = .expr

end Ast

abbrev Expr := { t : Ast // t.isExpr = true }

abbrev Query := { t : Ast // t.label = .query }

/-- The arguments among the fields of a call. -/
def argumentsOf (fields : List Ast) : Option (List Ast) :=
  fields.findSome? fun field => if field.label = .arguments then some field.children else none

theorem argumentsOf_isSome_iff {fields : List Ast} :
    (argumentsOf fields).isSome ↔ ∃ field ∈ fields, field.label = .arguments := by
  rw [argumentsOf, List.findSome?_isSome_iff]
  refine exists_congr fun field => and_congr_right fun _ => ?_
  by_cases h : field.label = .arguments <;> simp [h]

def identName (value : Chars) : ObjectNamePart := .identifier { value }

/-! ## The registry of macros -/

/-- `macro_key` (`session.rs:359-369`): two or three identifiers, in lower case. -/
def macroKey (name : ObjectName) : Option Chars := do
  let path ← name.mapM fun part => part.asIdent.map Ident.value
  if path.length = 2 ∨ path.length = 3 then some (lower (List.intercalate ['.'] path)) else none

/-- `SqlMacroKind` (`session.rs:99-102`). -/
inductive SqlMacroKind
  | scalar
  | table
  deriving DecidableEq

/-- `SqlMacroBody` (`session.rs:113-117`). -/
inductive SqlMacroBody
  | scalar (expression : Expr)
  | table (query : Query)
  | invalid (error : String)

/-- `SqlMacro` (`session.rs:91-96`); of a default the outcome of `macro_default_expr` is given. -/
structure SqlMacro where
  kind : SqlMacroKind
  parameters : List Chars
  defaults : Chars → Option (Except String Expr)
  body : SqlMacroBody

/-- What the rewrite asks the session. -/
structure SqlSession where
  /-- How the parser library writes a name. -/
  render : ObjectName → Chars
  /-- The macros of the session, by key. -/
  macros : List (Chars × List SqlMacro)
  attachedDefaultSchema : Chars → Option Chars
  isDeclaredNamedTableArgument : Chars → Chars → Bool
  isDeclaredNullaryAggregate : Chars → Bool
  isScalarFunction : Chars → Bool

/-- `lookup_macro` (`session.rs:371-377`). -/
def SqlSession.lookupMacro (session : SqlSession) (name : ObjectName) : Option (List SqlMacro) := do
  let key ← macroKey name
  session.macros.lookup key

end VgiDatafusion.Sql
