import VgiDatafusion.Sql.Expansion

/-!
# The rewrite of a statement (session.rs:1711-1954)

| here | there |
| --- | --- |
| `Rewrite.preVisitSelect`, `Rewrite.preVisitTableFactor`, `Rewrite.postVisitExpr` | the hooks of `Rewrite` |
| `insertDefaultSchema`, `collapseName`, `namedArgument`, `carryNamed` | the parts of `pre_visit_table_factor` |
| `rewrite` | the visitor; its state is `active_table_macros` |
| `rewriteVgiSql` | `rewrite_vgi_sql` |

What a table macro adds to the active ones is removed when its factor is left, so the state of a node is what the factors
around it have added. `scalar_macros` is empty between two calls of `expand_scalar_macro`.
-/
namespace VgiDatafusion.Sql

/-- DataFusion's `Statement`, as far as `rewrite_vgi_sql` (`session.rs:1711-1954`) tells it apart. -/
inductive DFStatement
  | statement (statement : Ast)
  | explain (statement : DFStatement)
  /-- COPY, CREATE EXTERNAL TABLE, RESET. -/
  | other (statement : Ast)

/-! ## Joins -/

/-- The `match` over the join operator (`session.rs:1738-1742`). -/
def normaliseOperator : JoinOperator → JoinOperator
  | .semi => .leftSemi
  | .anti => .leftAnti
  | operator => operator

def normaliseJoin : Ast → Ast
  | .node (.join operator) fields => .node (.join (normaliseOperator operator)) fields
  | t => t

/-- A relation of a FROM list, with its joins. -/
def normaliseRelation : Ast → Ast
  | .node .tableWithJoins fields => .node .tableWithJoins (fields.map normaliseJoin)
  | t => t

def normaliseFrom : Ast → Ast
  | .node .selectFrom relations => .node .selectFrom (relations.map normaliseRelation)
  | t => t

/-- `pre_visit_select` (`session.rs:1727-1746`): only the joins next to each relation of the `FROM`. -/
def Rewrite.preVisitSelect : Ast → Ast
  | .node .select fields => .node .select (fields.map normaliseFrom)
  | t => t

/-! ## Relations -/

def namedArgPrefix : Chars := "__vgi_datafusion_named_arg__".toList

def rowWitnessField : Chars := "__vgi_datafusion_row_witness__".toList

section
variable (session : SqlSession)

/-- The key of a table macro that is called. -/
def tableMacroKey : Ast → Option Chars
  | .node (.table name) fields =>
    if (argumentsOf fields).isSome && (session.lookupMacro name).isSome then macroKey name else none
  | _ => none

/-- `cat.table` becomes `cat.schema.table` (`session.rs:1776-1788`). -/
def insertDefaultSchema (name : ObjectName) : ObjectName :=
  match name with
  | [.identifier catalog, table] =>
    match session.attachedDefaultSchema catalog.value with
    | some schema => [.identifier catalog, identName schema, table]
    | none => name
  | _ => name

/-- A dotted name as one identifier (`session.rs:1790-1800`). -/
def collapseName (name : ObjectName) : ObjectName :=
  if 1 < name.length then
    let dotted := List.intercalate ['.'] (name.filterMap fun part => part.asIdent.map Ident.value)
    if dotted.isEmpty then name else [identName dotted]
  else name

/-- A private struct of one field carries the name (`session.rs:1852-1858`). -/
def carryNamed (name : Chars) (value : Ast) : Ast :=
  .node .argUnnamed [.node .struct [.node (.named { value := namedArgPrefix ++ name }) [value]]]

/-- The name and the value of an argument that has a name (`session.rs:1815-1848`). -/
def namedArgument (functionName : Chars) : Ast → Option (Chars × Ast)
  | .node (.argNamed name) [value] => if Ast.isExpr value then some (name.value, value) else none
  | .node .argExprNamed [.node (.identifier name) _, value] => if Ast.isExpr value then some (name.value, value) else none
  | .node .argUnnamed [.node .eq [.node (.identifier name) _, right]] =>
    if session.isDeclaredNamedTableArgument functionName name.value then some (name.value, right) else none
  | _ => none

/-- One turn of the loop over the arguments (`session.rs:1814-1859`). -/
def rewriteArgument (functionName : Chars) (argument : Ast) : Ast :=
  match namedArgument session functionName argument with
  | some (name, value) => carryNamed name value
  | none => argument

def rewriteArguments (functionName : Chars) : Ast → Ast
  | .node .arguments arguments => .node .arguments (arguments.map (rewriteArgument session functionName))
  | t => t

/-- A relation that is no call of a macro. -/
def rewriteRelation : Ast → Ast
  | .node (.table name) fields =>
    if (argumentsOf fields).isSome then
      let name := collapseName name
      let functionName := ((name.head?.bind ObjectNamePart.asIdent).map Ident.value).getD []
      .node (.table name) (fields.map (rewriteArguments session functionName))
    else .node (.table (insertDefaultSchema session name)) fields
  | t => t

/-- `pre_visit_table_factor` (`session.rs:1748-1862`); the frames are the visitor's own. -/
def Rewrite.preVisitTableFactor (active : List Chars) (t : Ast) : Except Failure (List Chars × Ast) :=
  match tableMacroKey session t with
  | some key =>
    if active.contains key then .error (.recursiveTable key)
    else do
      match ← expandTableMacro session t with
      | some expanded => pure (key :: active, expanded)
      | none => pure (active, rewriteRelation session t)
  | none => pure (active, rewriteRelation session t)

/-! ## Expressions -/

/-- The struct that stands for a row (`session.rs:1914-1924`). -/
def rowWitness : Ast :=
  .node .argUnnamed [.node .struct [.node (.named { value := rowWitnessField }) [.node (.expr ['1']) []]]]

/-- The witness goes into a call without arguments (`session.rs:1910-1926`). -/
def addRowWitness : Ast → Ast
  | .node .arguments [] => .node .arguments [rowWitness]
  | t => t

/-- An aggregate that is declared without arguments gets one that counts its rows. -/
def witnessRows : Ast → Ast
  | .node (.function name) fields =>
    let functionName := session.render name
    if !session.isScalarFunction functionName && session.isDeclaredNullaryAggregate functionName then
      .node (.function name) (fields.map addRowWitness)
    else .node (.function name) fields
  | t => t

/-- `post_visit_expr` (`session.rs:1871-1930`); what is put in place of a call of a scalar macro is visited again. -/
def Rewrite.postVisitExpr (depth : Nat) (active : List Chars) (t : Ast) : Except Failure (Next (List Chars) Tag) := do
  match ← expandScalarMacro session depth [] t with
  | some expanded => pure (.again active expanded)
  | none => pure (.done (witnessRows session t))

/-! ## The visitor -/

def rewrite : Visitor (List Chars) Tag Failure where
  pre active t := Rewrite.preVisitTableFactor session active (Rewrite.preVisitSelect t)
  post := Rewrite.postVisitExpr session

/-- `rewrite_vgi_sql` (`session.rs:1711-1954`). -/
def rewriteVgiSql (depth : Nat) : DFStatement → Except Failure DFStatement
  | .statement t => do pure (.statement (← Visitor.visit .outOfDepth (rewrite session) depth [] t))
  | .explain statement => do pure (.explain (← rewriteVgiSql depth statement))
  | .other t => .ok (.other t)

end

end VgiDatafusion.Sql
