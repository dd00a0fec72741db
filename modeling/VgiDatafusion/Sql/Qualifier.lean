import VgiDatafusion.Scan.Settings
import VgiDatafusion.Sql.Syntax

/-!
# Names in worker SQL (session.rs:118-137, 188-357)

| here | there |
| --- | --- |
| `SqlMacroNamespace`, `SqlCatalogNamespace`, `CatalogSqlQualifier` | the same, without the scopes |
| `objectKey`, `qualifyName`, `cteInScope` | `object_key`, `qualify_name`, `cte_in_scope` |
| `preVisitQuery`, `walkDefinitions`, `preVisitTableFactor`, `postVisitExpr` | the hooks |
| `visit`, `visitFields` | the derived traversal, to some depth |
| `qualifyCatalogSql` | `qualify_catalog_sql` |
| `Place`, `childPlaces`, `qualified` | not in the source: which CTEs a place sees, and the names there qualified once |

The definitions of a WITH that is not recursive are visited twice, the second time with all its aliases exposed
(`visit_eq`). A function after LATERAL has no hook (`qualifyCatalogSql_lateral`).
-/
namespace VgiDatafusion.Sql

/-- `SqlMacroNamespace` (`session.rs:123-127`): the names in one schema. -/
structure SqlMacroNamespace where
  expressionFunctions : List Chars
  relationFunctions : List Chars
  relations : List Chars

/-- `SqlCatalogNamespace` (`session.rs:134-136`): the schemas of a catalog, by name in lower case. -/
abbrev SqlCatalogNamespace := List (Chars × SqlMacroNamespace)

/-- `CatalogSqlQualifier` (`session.rs:188-193`), without the scopes. -/
structure CatalogSqlQualifier where
  catalog : Chars
  owningSchema : Chars
  schemas : SqlCatalogNamespace

/-- The aliases that the open queries expose, the innermost query first. -/
abbrev Scopes := List (List Chars)

def cteName (cte : Ast) : Option Chars :=
  match cte.label with
  | .cte name => some (lower name.value)
  | _ => none

def cteNames (ctes : List Ast) : List Chars := ctes.filterMap cteName

/-- `CatalogSqlQualifier::cte_in_scope` (`session.rs:238-243`). -/
def cteInScope (scopes : Scopes) (name : Chars) : Bool := scopes.any fun scope => scope.contains (lower name)

section
variable (qualifier : CatalogSqlQualifier)

/-- `CatalogSqlQualifier::object_key` (`session.rs:198-215`). -/
def objectKey (name : ObjectName) : Option (Chars × Chars) := do
  let identifiers ← name.mapM ObjectNamePart.asIdent
  match identifiers with
  | [object] => some (lower qualifier.owningSchema, lower object.value)
  | [schema, object] => some (lower schema.value, lower object.value)
  | _ => none

/-- `CatalogSqlQualifier::qualify_name` (`session.rs:217-236`). -/
def qualifyName : ObjectName → ObjectName
  | [local_] => [identName qualifier.catalog, identName qualifier.owningSchema, local_]
  | [schema, object] => [identName qualifier.catalog, schema, object]
  | name => name

/-! ## The hooks -/

/-- `CatalogSqlQualifier::pre_visit_table_factor` (`session.rs:287-307`). -/
def preVisitTableFactor (scopes : Scopes) : Ast → Ast
  | .node (.table name) fields =>
    match objectKey qualifier name with
    | none => .node (.table name) fields
    | some (schema, object) =>
      match qualifier.schemas.lookup schema with
      | none => .node (.table name) fields
      | some names =>
        let workerObject :=
          if (argumentsOf fields).isSome then names.relationFunctions.contains object
          else (name.length ≠ 1 || !cteInScope scopes object) && names.relations.contains object
        if workerObject then .node (.table (qualifyName qualifier name)) fields else .node (.table name) fields
  | t => t

/-- `CatalogSqlQualifier::post_visit_expr` (`session.rs:309-325`). -/
def postVisitExpr : Ast → Ast
  | .node (.function name) fields =>
    match objectKey qualifier name with
    | none => .node (.function name) fields
    | some (schema, object) =>
      if (qualifier.schemas.lookup schema).any (·.expressionFunctions.contains object) then
        .node (.function (qualifyName qualifier name)) fields
      else .node (.function name) fields
  | t => t

def visitFields (visit : Scopes → Ast → Scopes × Ast) : Scopes → List Ast → Scopes × List Ast
  | scopes, [] => (scopes, [])
  | scopes, field :: fields =>
    let (scopes, field) := visit scopes field
    let (scopes, fields) := visitFields visit scopes fields
    (scopes, field :: fields)

/-- The innermost scope gets the alias of a definition. -/
def expose (cte : Ast) : Scopes → Scopes
  | scope :: outer => (scope ++ cteNames [cte]) :: outer
  | [] => []

/-- Of a definition the query is all that a hook looks at. -/
def walkDefinitions (visit : Scopes → Ast → Scopes × Ast) : Scopes → List Ast → Scopes × List Ast
  | scopes, [] => (scopes, [])
  | scopes, cte :: ctes =>
    let (scopes, visited) := visit scopes cte
    let (scopes, ctes) := walkDefinitions visit (expose cte scopes) ctes
    (scopes, visited :: ctes)

/-- `CatalogSqlQualifier::pre_visit_query` (`session.rs:249-280`): the definitions are walked by hand, each in the scope of
those before it. -/
def preVisitQuery (visit : Scopes → Ast → Scopes × Ast) (scopes : Scopes) (fields : List Ast) : Scopes × List Ast :=
  match fields with
  | .node (.ctes true) ctes :: rest => (cteNames ctes :: scopes, .node (.ctes true) ctes :: rest)
  | .node (.ctes false) ctes :: rest =>
    let (scopes, ctes) := walkDefinitions visit ([] :: scopes) ctes
    (scopes, .node (.ctes false) ctes :: rest)
  | fields => ([] :: scopes, fields)

/-! ## The traversal -/

/-- The derived traversal, with the hooks; the number bounds its depth. -/
def visit : Nat → Scopes → Ast → Scopes × Ast
  | 0, scopes, t => (scopes, t)
  | depth + 1, scopes, .node tag fields =>
    if tag = .query then
      let (scopes, fields) := preVisitQuery (visit depth) scopes fields
      let (scopes, fields) := visitFields (visit depth) scopes fields
      (scopes.tail, .node .query fields)
    else
      let t := preVisitTableFactor qualifier scopes (.node tag fields)
      let (scopes, fields) := visitFields (visit depth) scopes t.children
      (scopes, postVisitExpr qualifier (.node t.label fields))

/-- `qualify_catalog_sql` (`session.rs:328-340`); no tree is deeper than its height. -/
def qualifyCatalogSql (t : Ast) : Ast := (visit qualifier t.height [] t).2

end

/-! ## What a place sees -/

/-- A place in a query, or the WITH of one, and the CTEs that are visible there. -/
inductive Place
  | within (visible : List Chars)
  | definitions (visible : List Chars)

def Place.visible : Place → List Chars
  | within visible => visible
  | definitions visible => visible

/-- In a definition the earlier ones are visible, in a recursive WITH all. -/
def definitionPlaces (recursive : Bool) (visible : List Chars) (ctes : List Ast) : List Place :=
  ctes.mapIdx fun i _ => .within (cteNames (if recursive then ctes else ctes.take i) ++ visible)

/-- The CTEs of a WITH. -/
def exposedBy : Ast → Option (List Chars)
  | .node (.ctes _) ctes => some (cteNames ctes)
  | _ => none

/-- The CTEs of a query, if it has a WITH. -/
def exposed (tag : Tag) (cs : List Ast) : Option (List Chars) :=
  match tag with
  | .query => cs.head?.bind exposedBy
  | _ => none

/-- The places of the children of a node. -/
def childPlaces (place : Place) (tag : Tag) (cs : List Ast) : List Place :=
  match exposed tag cs with
  | some names => .definitions place.visible :: cs.tail.map fun _ => .within (names ++ place.visible)
  | none =>
    match place, tag with
    | .definitions visible, .ctes recursive => definitionPlaces recursive visible cs
    | place, _ => cs.map fun _ => .within place.visible

section
variable (qualifier : CatalogSqlQualifier)

/-- A worker object of some kind. -/
def denotes (objects : SqlMacroNamespace → List Chars) (name : ObjectName) : Bool :=
  (objectKey qualifier name).any fun key =>
    (qualifier.schemas.lookup key.1).any fun names => (objects names).contains key.2

/-- A name of one part that is a CTE here. -/
def isCte (visible : List Chars) : ObjectName → Bool
  | [.identifier ident] => visible.contains (lower ident.value)
  | _ => false

def qualifiedTag (visible : List Chars) (tag : Tag) (cs : List Ast) : Tag :=
  match tag with
  | .table name =>
    if (argumentsOf cs).isSome then
      if denotes qualifier (·.relationFunctions) name then .table (qualifyName qualifier name) else .table name
    else
      if denotes qualifier (·.relations) name && !isCte visible name then .table (qualifyName qualifier name)
      else .table name
  | .function name =>
    if denotes qualifier (·.expressionFunctions) name then .function (qualifyName qualifier name) else .function name
  | tag => tag

/-- Every name of a worker object, as its place resolves it. -/
def qualified : Ast → Place → Ast :=
  LabelTree.fold fun tag cs results place =>
    .node (qualifiedTag qualifier place.visible tag cs)
      (results.zipWith (fun result place => result place) (childPlaces place tag cs))

end

/-! ## Lemmas: names -/

section
variable (qualifier : CatalogSqlQualifier)

/-- A qualified name has three parts. -/
theorem objectKey_qualifyName {name : ObjectName} (h : (objectKey qualifier name).isSome) :
    objectKey qualifier (qualifyName qualifier name) = none := by
  match name with
  | [.identifier object] => rfl
  | [.identifier schema, .identifier object] => rfl
  | [.function text] => cases h
  | [.function text, part] => cases h
  | [.identifier schema, .function text] => cases h
  | [] => cases h
  | first :: second :: third :: rest =>
    exfalso
    revert h
    unfold objectKey
    cases hidentifiers : (first :: second :: third :: rest).mapM ObjectNamePart.asIdent with
    | none => simp
    | some identifiers =>
      have hlength := (ListFacts.mapM_some_iff.1 hidentifiers).length_eq
      match identifiers, hlength with
      | _ :: _ :: _ :: _, _ => simp

theorem denotes_qualifyName {objects : SqlMacroNamespace → List Chars} {name : ObjectName}
    (h : denotes qualifier objects name = true) (objects' : SqlMacroNamespace → List Chars) :
    denotes qualifier objects' (qualifyName qualifier name) = false := by
  have hsome : (objectKey qualifier name).isSome := by
    unfold denotes at h
    cases hkey : objectKey qualifier name with
    | none => simp [hkey] at h
    | some key => rfl
  rw [denotes, objectKey_qualifyName qualifier hsome]
  rfl

theorem isCte_mono {visible visible' : List Chars} (h : visible ⊆ visible') {name : ObjectName}
    (hcte : isCte visible name = true) : isCte visible' name = true := by
  unfold isCte at hcte ⊢
  split at hcte
  · exact List.contains_iff_mem.2 (h (List.contains_iff_mem.1 hcte))
  · cases hcte

/-- Under more CTEs a qualified name stays as it is. -/
theorem qualifiedTag_twice {visible visible' : List Chars} (h : visible ⊆ visible') (tag : Tag) {cs cs' : List Ast}
    (hcs : (argumentsOf cs').isSome = (argumentsOf cs).isSome) :
    qualifiedTag qualifier visible' (qualifiedTag qualifier visible tag cs) cs' = qualifiedTag qualifier visible tag cs := by
  cases tag with
  | table name =>
    by_cases hargs : (argumentsOf cs).isSome = true
    · by_cases hdenotes : denotes qualifier (·.relationFunctions) name = true
      · have hqualified := denotes_qualifyName qualifier hdenotes (·.relationFunctions)
        simp [qualifiedTag, hcs, hargs, hdenotes, hqualified]
      · simp [qualifiedTag, hcs, hargs, hdenotes]
    · by_cases hdenotes : denotes qualifier (·.relations) name = true
      · by_cases hcte : isCte visible name = true
        · simp [qualifiedTag, hcs, hargs, hdenotes, hcte, isCte_mono h hcte]
        · have hqualified := denotes_qualifyName qualifier hdenotes (·.relations)
          simp [qualifiedTag, hcs, hargs, hdenotes, hcte, hqualified]
      · simp [qualifiedTag, hcs, hargs, hdenotes]
  | function name =>
    by_cases hdenotes : denotes qualifier (·.expressionFunctions) name = true
    · have hqualified := denotes_qualifyName qualifier hdenotes (·.expressionFunctions)
      simp [qualifiedTag, hdenotes, hqualified]
    · simp [qualifiedTag, hdenotes]
  | _ => rfl

/-! ## Lemmas: places -/

def Place.Le : Place → Place → Prop
  | within visible, within visible' => visible ⊆ visible'
  | definitions visible, definitions visible' => visible ⊆ visible'
  | _, _ => False

theorem Place.Le.subset {place place' : Place} (h : place.Le place') : place.visible ⊆ place'.visible := by
  match place, place' with
  | within _, within _ => exact h
  | definitions _, definitions _ => exact h

theorem childPlaces_length (place : Place) (tag : Tag) (cs : List Ast) :
    (childPlaces place tag cs).length = cs.length := by
  unfold childPlaces
  split
  · rename_i names h
    match tag, cs with
    | .query, _ :: _ => simp
  · split <;> simp [definitionPlaces]

theorem forall₂_within {V V' : List Chars} (h : V ⊆ V') (cs : List Ast) :
    List.Forall₂ Place.Le (cs.map fun _ => .within V) (cs.map fun _ => .within V') := by
  rw [List.forall₂_map_left_iff, List.forall₂_map_right_iff, List.forall₂_same]
  exact fun _ _ => h

theorem definitionPlaces_le {visible visible' : List Chars} (h : visible ⊆ visible') (recursive : Bool) (ctes : List Ast) :
    List.Forall₂ Place.Le (definitionPlaces recursive visible ctes) (definitionPlaces recursive visible' ctes) := by
  rw [List.forall₂_iff_get]
  refine ⟨by simp [definitionPlaces], fun i hi hi' => ?_⟩
  simp only [definitionPlaces, List.get_eq_getElem, List.getElem_mapIdx]
  exact List.append_subset.2 ⟨List.subset_append_left _ _, List.Subset.trans h (List.subset_append_right _ _)⟩

theorem childPlaces_le {place place' : Place} (h : place.Le place') (tag : Tag) (cs : List Ast) :
    List.Forall₂ Place.Le (childPlaces place tag cs) (childPlaces place' tag cs) := by
  have hsubset := h.subset
  unfold childPlaces
  cases exposed tag cs with
  | some names =>
    exact .cons hsubset (forall₂_within
      (List.append_subset.2 ⟨List.subset_append_left _ _, List.Subset.trans hsubset (List.subset_append_right _ _)⟩) _)
  | none =>
    match place, place' with
    | .within visible, .within visible' => exact forall₂_within hsubset cs
    | .definitions visible, .definitions visible' =>
      cases tag with
      | ctes recursive => exact definitionPlaces_le hsubset recursive cs
      | _ => exact forall₂_within hsubset cs

/-- The children of a node, each at its place. -/
def qualifiedChildren (cs : List Ast) (places : List Place) : List Ast :=
  (cs.zip places).map fun c => qualified qualifier c.1 c.2

theorem qualified_node (tag : Tag) (cs : List Ast) (place : Place) :
    qualified qualifier (.node tag cs) place =
      .node (qualifiedTag qualifier place.visible tag cs) (qualifiedChildren qualifier cs (childPlaces place tag cs)) := by
  rw [qualified, LabelTree.fold_node, ListFacts.zipWith_apply]
  rfl

theorem label_qualified (t : Ast) (place : Place) :
    (qualified qualifier t place).label = qualifiedTag qualifier place.visible t.label t.children := by
  cases t
  rw [qualified_node]
  rfl

theorem qualifiedTag_table (visible : List Chars) (name : ObjectName) (cs : List Ast) :
    ∃ name', qualifiedTag qualifier visible (.table name) cs = .table name' := by
  simp only [qualifiedTag]
  split <;> split <;> exact ⟨_, rfl⟩

theorem qualifiedTag_function (visible : List Chars) (name : ObjectName) (cs : List Ast) :
    ∃ name', qualifiedTag qualifier visible (.function name) cs = .function name' := by
  simp only [qualifiedTag]
  split <;> exact ⟨_, rfl⟩

/-- What looks at a label but not at the names of relations and calls sees no difference. -/
theorem apply_qualifiedTag {β : Type} (f : Tag → β) (hf : ∀ name name', f (.table name) = f (.table name') ∧
    f (.function name) = f (.function name')) (visible : List Chars) (tag : Tag) (cs : List Ast) :
    f (qualifiedTag qualifier visible tag cs) = f tag := by
  cases tag with
  | table name =>
    obtain ⟨name', hname'⟩ := qualifiedTag_table qualifier visible name cs
    rw [hname', (hf name' name).1]
  | function name =>
    obtain ⟨name', hname'⟩ := qualifiedTag_function qualifier visible name cs
    rw [hname', (hf name' name).2]
  | _ => rfl

theorem argumentsOf_isSome (fields : List Ast) :
    (argumentsOf fields).isSome = (fields.map fun field => decide (field.label = .arguments)).any id := by
  rw [argumentsOf, List.any_map]
  induction fields with
  | nil => rfl
  | cons field fields ih =>
    by_cases h : field.label = .arguments
    · simp [h]
    · simpa [List.findSome?_cons, h] using ih

theorem cteNames_eq (ctes : List Ast) : cteNames ctes = (ctes.map cteName).filterMap id := by
  rw [List.filterMap_map]
  rfl

theorem cteName_qualified (t : Ast) (place : Place) : cteName (qualified qualifier t place) = cteName t := by
  have h := apply_qualifiedTag qualifier (fun tag => match tag with
    | .cte name => some (lower name.value)
    | _ => none) (fun _ _ => ⟨rfl, rfl⟩) place.visible t.label t.children
  rw [← label_qualified] at h
  exact h

section
variable {cs : List Ast} {places : List Place}

theorem map_qualifiedChildren {β : Type} {f : Ast → β} (hf : ∀ t place, f (qualified qualifier t place) = f t)
    (hlength : places.length = cs.length) : (qualifiedChildren qualifier cs places).map f = cs.map f := by
  rw [qualifiedChildren, List.map_map, ← ListFacts.map_zip_left f hlength]
  exact List.map_congr_left fun c _ => hf c.1 c.2

theorem argumentsOf_qualifiedChildren (hlength : places.length = cs.length) :
    (argumentsOf (qualifiedChildren qualifier cs places)).isSome = (argumentsOf cs).isSome := by
  rw [argumentsOf_isSome, argumentsOf_isSome, map_qualifiedChildren qualifier _ hlength]
  intro t place
  have h := apply_qualifiedTag qualifier (fun tag => decide (tag = .arguments)) (fun _ _ => ⟨rfl, rfl⟩) place.visible
    t.label t.children
  rw [← label_qualified] at h
  exact h

theorem cteNames_take_qualifiedChildren (hlength : places.length = cs.length) (i : Nat) :
    cteNames ((qualifiedChildren qualifier cs places).take i) = cteNames (cs.take i) := by
  have h := map_qualifiedChildren qualifier (cteName_qualified qualifier) hlength
  rw [cteNames_eq, cteNames_eq, List.map_take, h, ← List.map_take]

end

theorem map_const_qualifiedChildren {β : Type} (b : β) {cs : List Ast} {places : List Place}
    (hlength : places.length = cs.length) : ((qualifiedChildren qualifier cs places).map fun _ => b) = cs.map fun _ => b :=
  map_qualifiedChildren qualifier (fun _ _ => rfl) hlength

theorem cteNames_qualifiedChildren {cs : List Ast} {places : List Place} (hlength : places.length = cs.length) :
    cteNames (qualifiedChildren qualifier cs places) = cteNames cs := by
  rw [cteNames_eq, cteNames_eq, map_qualifiedChildren qualifier (cteName_qualified qualifier) hlength]

theorem exposedBy_qualified (t : Ast) (place : Place) : exposedBy (qualified qualifier t place) = exposedBy t := by
  obtain ⟨tag, cs⟩ := t
  rw [qualified_node]
  cases tag with
  | table name =>
    obtain ⟨name', hname'⟩ := qualifiedTag_table qualifier place.visible name cs
    rw [hname']
    rfl
  | function name =>
    obtain ⟨name', hname'⟩ := qualifiedTag_function qualifier place.visible name cs
    rw [hname']
    rfl
  | ctes recursive => exact congrArg some (cteNames_qualifiedChildren qualifier (childPlaces_length place _ cs))
  | _ => rfl

theorem definitionPlaces_qualifiedChildren (recursive : Bool) (visible : List Chars) {cs : List Ast} {places : List Place}
    (hlength : places.length = cs.length) :
    definitionPlaces recursive visible (qualifiedChildren qualifier cs places) = definitionPlaces recursive visible cs := by
  have hlengths : (qualifiedChildren qualifier cs places).length = cs.length := by
    simpa using congrArg List.length (map_const_qualifiedChildren qualifier () hlength)
  refine List.ext_getElem (by simp [definitionPlaces, hlengths]) fun i _ _ => ?_
  cases recursive with
  | true => simp [definitionPlaces, cteNames_qualifiedChildren qualifier hlength]
  | false => simp [definitionPlaces, cteNames_take_qualifiedChildren qualifier hlength]

/-- The children of a qualified node are where they were. -/
theorem childPlaces_qualified (visible : List Chars) (place : Place) (tag : Tag) {cs : List Ast} {places : List Place}
    (hlength : places.length = cs.length) :
    childPlaces place (qualifiedTag qualifier visible tag cs) (qualifiedChildren qualifier cs places) =
      childPlaces place tag cs := by
  have hexposed : exposed (qualifiedTag qualifier visible tag cs) (qualifiedChildren qualifier cs places) = exposed tag cs := by
    have hhead : (qualifiedChildren qualifier cs places).head?.bind exposedBy = cs.head?.bind exposedBy := by
      have hmap := congrArg List.head? (map_qualifiedChildren qualifier (exposedBy_qualified qualifier) hlength)
      rw [List.head?_map, List.head?_map] at hmap
      have hbind : ∀ c : Option Ast, c.bind exposedBy = (c.map exposedBy).join := fun c => by cases c <;> rfl
      rw [hbind, hbind, hmap]
    cases tag with
    | query => exact hhead
    | table name =>
      obtain ⟨name', hname'⟩ := qualifiedTag_table qualifier visible name cs
      rw [hname']
      rfl
    | function name =>
      obtain ⟨name', hname'⟩ := qualifiedTag_function qualifier visible name cs
      rw [hname']
      rfl
    | _ => rfl
  have htail : ∀ p : Place, ((qualifiedChildren qualifier cs places).tail.map fun _ => p) = cs.tail.map fun _ => p := by
    intro p
    rw [List.map_tail, map_const_qualifiedChildren qualifier p hlength, List.map_tail]
  unfold childPlaces
  rw [hexposed]
  cases exposed tag cs with
  | some names => simp only [htail]
  | none =>
    have hconst : ∀ p : Place, ((qualifiedChildren qualifier cs places).map fun _ => p) = cs.map fun _ => p := fun p =>
      map_const_qualifiedChildren qualifier p hlength
    cases tag with
    | table name =>
      obtain ⟨name', hname'⟩ := qualifiedTag_table qualifier visible name cs
      cases place <;> simp [hname', hconst]
    | function name =>
      obtain ⟨name', hname'⟩ := qualifiedTag_function qualifier visible name cs
      cases place <;> simp [hname', hconst]
    | ctes recursive =>
      cases place with
      | definitions outer => exact definitionPlaces_qualifiedChildren qualifier recursive outer hlength
      | within outer => exact hconst _
    | _ => cases place <;> exact hconst _

theorem height_qualified (t : Ast) : ∀ place, (qualified qualifier t place).height = t.height := by
  induction t using LabelTree.induct with
  | h tag cs ih =>
    intro place
    have hchildren : (qualifiedChildren qualifier cs (childPlaces place tag cs)).map LabelTree.height = cs.map LabelTree.height := by
      rw [qualifiedChildren, List.map_map, ← ListFacts.map_zip_left LabelTree.height (childPlaces_length place tag cs)]
      exact List.map_congr_left fun c hc => ih c.1 (List.of_mem_zip hc).1 c.2
    rw [qualified_node, LabelTree.height_node, LabelTree.height_node]
    exact congrArg (·.foldr max 0 + 1) hchildren

theorem qualified_twice (t : Ast) : ∀ {place place' : Place}, place.Le place' →
    qualified qualifier (qualified qualifier t place) place' = qualified qualifier t place := by
  induction t using LabelTree.induct with
  | h tag cs ih =>
    intro place place' hle
    have hplaces := childPlaces_length place tag cs
    rw [qualified_node qualifier tag cs place, qualified_node,
      qualifiedTag_twice qualifier hle.subset tag (argumentsOf_qualifiedChildren qualifier hplaces)]
    have hchildren := childPlaces_qualified qualifier place.visible place' tag hplaces
    have htwice := ListFacts.map_zip_twice (childPlaces_le hle tag cs) fun c hc p p' => ih c hc
    rw [← hchildren] at htwice
    exact congrArg (LabelTree.node _) htwice

/-! ## The visits -/

theorem visitFields_eq {visit : Scopes → Ast → Scopes × Ast} {f : Ast → Ast} {scopes : Scopes} :
    ∀ {fields : List Ast}, (∀ field ∈ fields, visit scopes field = (scopes, f field)) →
      visitFields visit scopes fields = (scopes, fields.map f)
  | [], _ => rfl
  | field :: fields, h => by
    have ih := visitFields_eq fun c (hc : c ∈ fields) => h c (List.mem_cons_of_mem _ hc)
    rw [visitFields, h field List.mem_cons_self]
    simp only [ih, List.map_cons]

theorem cteInScope_lower (scopes : Scopes) (name : Chars) :
    cteInScope scopes (lower name) = scopes.flatten.contains (lower name) := by
  rw [cteInScope, lower_lower, List.contains_flatten]

theorem isCte_eq (scopes : Scopes) {name : ObjectName} {key : Chars × Chars} (hkey : objectKey qualifier name = some key) :
    (name.length ≠ 1 || !cteInScope scopes key.2) = !isCte scopes.flatten name := by
  match name with
  | [.identifier ident] =>
    have hlocal : objectKey qualifier [.identifier ident] = some (lower qualifier.owningSchema, lower ident.value) := rfl
    rw [hlocal, Option.some.injEq] at hkey
    subst hkey
    rw [cteInScope_lower]
    rfl
  | [.function text] => cases hkey
  | [] => cases hkey
  | _ :: _ :: _ => simp [isCte]

theorem preVisitTableFactor_table (scopes : Scopes) (name : ObjectName) (fields : List Ast) :
    preVisitTableFactor qualifier scopes (.node (.table name) fields) =
      .node (qualifiedTag qualifier scopes.flatten (.table name) fields) fields := by
  obtain hkey | ⟨⟨schema, object⟩, hkey⟩ := Option.eq_none_or_eq_some (objectKey qualifier name)
  · simp [preVisitTableFactor, qualifiedTag, denotes, hkey]
  have hcte := isCte_eq qualifier scopes hkey
  obtain hlookup | ⟨names, hlookup⟩ := Option.eq_none_or_eq_some (qualifier.schemas.lookup schema)
  · simp [preVisitTableFactor, qualifiedTag, denotes, hkey, hlookup]
  · simp only [preVisitTableFactor, qualifiedTag, denotes, hkey, hlookup, hcte, Option.any_some]
    by_cases hargs : (argumentsOf fields).isSome = true
    · simp only [hargs, if_true]
      split <;> rfl
    · simp only [hargs, Bool.false_eq_true, if_false, Bool.and_comm]
      split <;> rfl

theorem postVisitExpr_function (visible : List Chars) (name : ObjectName) (fields fields' : List Ast) :
    postVisitExpr qualifier (.node (.function name) fields') =
      .node (qualifiedTag qualifier visible (.function name) fields) fields' := by
  obtain hkey | ⟨⟨schema, object⟩, hkey⟩ := Option.eq_none_or_eq_some (objectKey qualifier name)
  · simp [postVisitExpr, qualifiedTag, denotes, hkey]
  · simp only [postVisitExpr, qualifiedTag, denotes, hkey, Option.any_some]
    split <;> rfl

theorem preVisitTableFactor_children (scopes : Scopes) (tag : Tag) (fields : List Ast) :
    (preVisitTableFactor qualifier scopes (.node tag fields)).children = fields := by
  cases tag with
  | table name => rw [preVisitTableFactor_table, LabelTree.children_node]
  | _ => rfl

/-- The hooks on a node qualify its label. -/
theorem hooks_eq (scopes : Scopes) (tag : Tag) (fields fields' : List Ast) :
    postVisitExpr qualifier (.node (preVisitTableFactor qualifier scopes (.node tag fields)).label fields') =
      .node (qualifiedTag qualifier scopes.flatten tag fields) fields' := by
  cases tag with
  | table name =>
    rw [preVisitTableFactor_table]
    obtain ⟨name', hname'⟩ := qualifiedTag_table qualifier scopes.flatten name fields
    rw [hname']
    rfl
  | function name => exact postVisitExpr_function qualifier scopes.flatten name fields fields'
  | _ => rfl

theorem walkDefinitions_eq {visit : Scopes → Ast → Scopes × Ast} (outer : Scopes) :
    ∀ {ctes : List Ast} (seen : List Chars),
      (∀ cte ∈ ctes, ∀ scopes : Scopes, visit scopes cte = (scopes, qualified qualifier cte (.within scopes.flatten))) →
      walkDefinitions visit (seen :: outer) ctes =
        ((seen ++ cteNames ctes) :: outer, qualifiedChildren qualifier ctes
          (ctes.mapIdx fun i _ => .within (seen ++ cteNames (ctes.take i) ++ outer.flatten)))
  | [], seen, _ => by simp [walkDefinitions, cteNames, qualifiedChildren]
  | cte :: ctes, seen, h => by
    have ih := walkDefinitions_eq outer (seen ++ cteNames [cte]) fun c (hc : c ∈ ctes) => h c (List.mem_cons_of_mem _ hc)
    have hnames : ∀ ctes, cteNames (cte :: ctes) = cteNames [cte] ++ cteNames ctes := fun ctes =>
      List.filterMap_append (l := [cte])
    rw [walkDefinitions, h cte List.mem_cons_self]
    simp only [expose, ih, List.append_assoc, ← hnames, qualifiedChildren, List.mapIdx_cons, List.zip_cons_cons,
      List.map_cons, List.take_succ_cons]
    simp [cteNames]

theorem qualifiedChildren_const (place : Place) (cs : List Ast) :
    qualifiedChildren qualifier cs (cs.map fun _ => place) = cs.map (qualified qualifier · place) :=
  ListFacts.map_zip_const (qualified qualifier) place cs

theorem childPlaces_within {tag : Tag} (h : tag ≠ .query) (visible : List Chars) (cs : List Ast) :
    childPlaces (.within visible) tag cs = cs.map fun _ => .within visible := by
  cases tag with
  | query => exact absurd rfl h
  | _ => rfl

/-- Where all CTEs are visible, the definitions stay as their first visit left them. -/
theorem qualified_definitions (recursive : Bool) (visible : List Chars) (ctes : List Ast) :
    qualified qualifier (.node (.ctes recursive) (if recursive then ctes else
        qualifiedChildren qualifier ctes (definitionPlaces false visible ctes))) (.within (cteNames ctes ++ visible)) =
      qualified qualifier (.node (.ctes recursive) ctes) (.definitions visible) := by
  have hright : qualified qualifier (.node (.ctes recursive) ctes) (.definitions visible) =
      .node (.ctes recursive) (qualifiedChildren qualifier ctes (definitionPlaces recursive visible ctes)) :=
    qualified_node qualifier (.ctes recursive) ctes _
  rw [hright, qualified_node, childPlaces_within (by simp), qualifiedChildren_const]
  cases recursive with
  | true =>
    have hconst : definitionPlaces true visible ctes = ctes.map fun _ => .within (cteNames ctes ++ visible) := by
      refine List.ext_getElem (by simp [definitionPlaces]) fun i _ _ => ?_
      simp [definitionPlaces]
    rw [hconst, qualifiedChildren_const]
    rfl
  | false =>
    refine congrArg (LabelTree.node (Tag.ctes false)) ((List.map_congr_left fun t ht => ?_).trans (List.map_id _))
    obtain ⟨⟨cte, place⟩, hmem, rfl⟩ := List.mem_map.1 ht
    obtain ⟨i, hi, hplace⟩ := List.mem_mapIdx.1 (List.of_mem_zip hmem).2
    refine qualified_twice qualifier cte ?_
    rw [← hplace]
    have htake : cteNames (ctes.take i) ⊆ cteNames ctes := ((List.take_sublist i ctes).filterMap cteName).subset
    exact List.append_subset.2 ⟨List.Subset.trans htake (List.subset_append_left _ _), List.subset_append_right _ _⟩

theorem height_definitions (recursive : Bool) (visible : List Chars) (ctes : List Ast) :
    LabelTree.height (.node (Tag.ctes recursive) (if recursive then ctes else
        qualifiedChildren qualifier ctes (definitionPlaces false visible ctes))) =
      LabelTree.height (.node (Tag.ctes recursive) ctes) := by
  cases recursive with
  | true => rfl
  | false =>
    have hlength : (definitionPlaces false visible ctes).length = ctes.length := by simp [definitionPlaces]
    rw [LabelTree.height_node, LabelTree.height_node]
    exact congrArg (·.foldr max 0 + 1) (map_qualifiedChildren qualifier (height_qualified qualifier) hlength)

theorem preVisitQuery_with {visit : Scopes → Ast → Scopes × Ast} (scopes : Scopes) (recursive : Bool) {ctes : List Ast}
    (rest : List Ast)
    (h : ∀ cte ∈ ctes, ∀ scopes : Scopes, visit scopes cte = (scopes, qualified qualifier cte (.within scopes.flatten))) :
    preVisitQuery visit scopes (.node (.ctes recursive) ctes :: rest) =
      (cteNames ctes :: scopes, .node (Tag.ctes recursive) (if recursive then ctes else
        qualifiedChildren qualifier ctes (definitionPlaces false scopes.flatten ctes)) :: rest) := by
  cases recursive with
  | true => rfl
  | false =>
    rw [preVisitQuery, walkDefinitions_eq qualifier scopes [] h]
    rfl

/-- The fields of a query after both visits. -/
theorem visitFields_preVisitQuery {visit : Scopes → Ast → Scopes × Ast} {depth : Nat} (scopes : Scopes)
    {fields : List Ast} (hfields : ∀ field ∈ fields, field.height ≤ depth)
    (h : ∀ t : Ast, t.height ≤ depth → ∀ scopes : Scopes, visit scopes t = (scopes, qualified qualifier t (.within scopes.flatten))) :
    ∃ names, visitFields visit (preVisitQuery visit scopes fields).1 (preVisitQuery visit scopes fields).2 =
      (names :: scopes, qualifiedChildren qualifier fields (childPlaces (.within scopes.flatten) .query fields)) := by
  have hwithout : preVisitQuery visit scopes fields = ([] :: scopes, fields) → exposed .query fields = none →
      ∃ names, visitFields visit (preVisitQuery visit scopes fields).1 (preVisitQuery visit scopes fields).2 =
        (names :: scopes, qualifiedChildren qualifier fields (childPlaces (.within scopes.flatten) .query fields)) := by
    intro hpre hexposed
    refine ⟨[], ?_⟩
    rw [hpre, visitFields_eq fun field hfield => h field (hfields field hfield) ([] :: scopes)]
    simp only [childPlaces, hexposed, Place.visible, qualifiedChildren_const, List.flatten_cons, List.nil_append]
  match fields with
  | [] => exact hwithout rfl rfl
  | .node tag ctes :: rest =>
    cases tag with
    | ctes recursive =>
      have hheight := hfields _ List.mem_cons_self
      have hctes : ∀ cte ∈ ctes, ∀ scopes : Scopes,
          visit scopes cte = (scopes, qualified qualifier cte (.within scopes.flatten)) :=
        fun cte hcte => h cte (Nat.le_of_lt (Nat.lt_of_lt_of_le (LabelTree.height_lt hcte) hheight))
      have hall : ∀ field ∈ LabelTree.node (Tag.ctes recursive) (if recursive then ctes else
          qualifiedChildren qualifier ctes (definitionPlaces false scopes.flatten ctes)) :: rest,
          visit (cteNames ctes :: scopes) field =
            (cteNames ctes :: scopes, qualified qualifier field (.within (cteNames ctes ++ scopes.flatten))) := by
        intro field hfield
        rcases List.mem_cons.1 hfield with rfl | hfield
        · exact h _ (by rwa [height_definitions]) _
        · exact h field (hfields field (List.mem_cons_of_mem _ hfield)) _
      refine ⟨cteNames ctes, ?_⟩
      rw [preVisitQuery_with qualifier scopes recursive rest hctes]
      rw [visitFields_eq hall, List.map_cons, qualified_definitions, ← qualifiedChildren_const]
      rfl
    | _ => exact hwithout rfl rfl

theorem visit_eq : ∀ (depth : Nat) (scopes : Scopes) (t : Ast), t.height ≤ depth →
    visit qualifier depth scopes t = (scopes, qualified qualifier t (.within scopes.flatten))
  | 0, scopes, .node tag cs, h => by
    rw [LabelTree.height_node] at h
    omega
  | depth + 1, scopes, .node tag cs, h => by
    have hfields : ∀ c ∈ cs, c.height ≤ depth := fun c hc => Nat.le_of_lt_succ (Nat.lt_of_lt_of_le (LabelTree.height_lt hc) h)
    have hvisit : ∀ t : Ast, t.height ≤ depth → ∀ scopes,
        visit qualifier depth scopes t = (scopes, qualified qualifier t (.within scopes.flatten)) :=
      fun t ht scopes => visit_eq depth scopes t ht
    by_cases hquery : tag = .query
    · subst hquery
      obtain ⟨names, hnames⟩ := visitFields_preVisitQuery qualifier scopes hfields hvisit
      rw [visit, if_pos rfl, qualified_node]
      simp only [hnames, List.tail_cons]
      rfl
    · have hall := visitFields_eq fun c hc => hvisit c (hfields c hc) scopes
      simp only [visit, if_neg hquery, preVisitTableFactor_children, hall, hooks_eq]
      rw [qualified_node, childPlaces_within hquery, qualifiedChildren_const]
      rfl

/-! ## The claim -/

theorem qualifyCatalogSql_eq (t : Ast) : qualifyCatalogSql qualifier t = qualified qualifier t (.within []) := by
  rw [qualifyCatalogSql, visit_eq qualifier t.height [] t (Nat.le_refl _)]
  rfl

end

/-- **The traversal qualifies exactly the names that denote a worker object of their kind where they stand, a name of one
part only where no CTE of that name is visible; and qualifying twice is qualifying once.** -/
theorem qualifier_scoping (qualifier : CatalogSqlQualifier) (t : Ast) :
    qualifyCatalogSql qualifier t = qualified qualifier t (.within []) ∧
      qualifyCatalogSql qualifier (qualifyCatalogSql qualifier t) = qualifyCatalogSql qualifier t := by
  refine ⟨qualifyCatalogSql_eq qualifier t, ?_⟩
  rw [qualifyCatalogSql_eq, qualifyCatalogSql_eq]
  exact qualified_twice qualifier t (List.Subset.refl [])

/-! ### LATERAL -/

/-- A worker with the table function `f` in its schema `main`. -/
def rowsQualifier : CatalogSqlQualifier where
  catalog := "cat".toList
  owningSchema := "main".toList
  schemas := [("main".toList, { expressionFunctions := [], relationFunctions := ["f".toList], relations := [] })]

/-- `SELECT .. FROM factor` -/
def selectFromFactor (factor : Ast) : Ast :=
  .node .query [.node .select [.node .selectFrom [.node .tableWithJoins [factor]]]]

/-- `f()` becomes `cat.main.f()`, `LATERAL f()` stays. -/
theorem qualifyCatalogSql_lateral :
    denotes rowsQualifier (·.relationFunctions) [identName "f".toList] = true ∧
      qualifyCatalogSql rowsQualifier (selectFromFactor (.node (.table [identName "f".toList]) [.node .arguments []])) =
        selectFromFactor
          (.node (.table [identName "cat".toList, identName "main".toList, identName "f".toList]) [.node .arguments []]) ∧
      qualifyCatalogSql rowsQualifier (selectFromFactor (.node (.lateralFunction [identName "f".toList]) [.node .arguments []])) =
        selectFromFactor (.node (.lateralFunction [identName "f".toList]) [.node .arguments []]) :=
  ⟨by decide, rfl, rfl⟩

end VgiDatafusion.Sql
