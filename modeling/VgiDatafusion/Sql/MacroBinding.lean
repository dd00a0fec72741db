import Mathlib.Data.List.Induction
import Mathlib.Data.List.Perm.Basic
import VgiDatafusion.Sql.Syntax

/-!
# The arguments of a macro call (session.rs:384-537)

| here | there |
| --- | --- |
| `readArgument` | the forms of an argument in `bind_macro_arguments` |
| `BindState`, `bindArgument` | the variables of the loop and its body |
| `fillArgument` | what becomes of a parameter that is not given |
| `bindMacroArguments`, `bindMacroOverload` | `bind_macro_arguments`, `bind_macro_overload` |
| `Acceptable`, `boundTo` | not in the source: what a call has to fulfil, and what it binds |

An argument `x = e` is a named one only under the parameters of a macro that has a parameter `x`
(`bindMacroOverload_depends_on_order`).
-/
namespace VgiDatafusion.Sql

/-- How a planning error reads. -/
def planErr {α : Type} (text : String) : Except String α := .error ("Error during planning: " ++ text)

def asExpr (t : Ast) : Option Expr := if h : t.isExpr = true then some ⟨t, h⟩ else none

/-- `eq_ignore_ascii_case` -/
def sameName (a b : Chars) : Bool := lower a = lower b

section
variable (session : SqlSession) (name : ObjectName)

def macroName : String := String.ofList (session.render name)

/-- An expression, with its label if it has one. -/
abbrev Argument := Option Chars × Expr

def labelled (label : Option Chars) (arg : Ast) : Except String Argument :=
  match asExpr arg with
  | some expression => .ok (label, expression)
  | none =>
    let name := macroName session name
    planErr s!"VGI macro `{name}` does not accept wildcard arguments"

/-- What one argument is, by its form (`session.rs:393-450`). -/
def readArgument (parameters : List Chars) (argument : Ast) : Except String Argument :=
  match argument with
  | .node (.argNamed label) [arg] => labelled session name (some label.value) arg
  | .node .argExprNamed [.node (.identifier label) _, arg] => labelled session name (some label.value) arg
  | .node .argExprNamed _ =>
    let name := macroName session name
    planErr s!"VGI macro `{name}` requires identifier argument names"
  | .node .argUnnamed [.node .eq [.node (.identifier label) fields, right]] =>
    if parameters.any (sameName · label.value) then labelled session name (some label.value) right
    else labelled session name none (.node .eq [.node (.identifier label) fields, right])
  | .node .argUnnamed [arg] => labelled session name none arg
  | _ =>
    let name := macroName session name
    planErr s!"VGI macro `{name}` does not accept wildcard arguments"

/-- The variables of the loop of `bind_macro_arguments` (`session.rs:384-495`). -/
structure BindState where
  actual : List (Option Expr)
  positional : Nat := 0
  sawNamed : Bool := false

/-- One turn of the loop over the arguments, the argument read. -/
def bindArgument (parameters : List Chars) (st : BindState) (argument : Argument) : Except String BindState :=
  let name := macroName session name
  match argument with
  | (some label, expression) =>
    match parameters.findIdx? (sameName · label) with
    | none =>
      let label := String.ofList label
      planErr s!"VGI macro `{name}` has no parameter named `{label}`"
    | some index =>
      if (st.actual.getD index none).isSome then
        let parameter := String.ofList (parameters.getD index [])
        planErr s!"VGI macro `{name}` received parameter `{parameter}` more than once"
      else .ok { st with actual := st.actual.set index (some expression), sawNamed := true }
  | (none, expression) =>
    if st.sawNamed then planErr s!"VGI macro `{name}` does not accept positional arguments after named arguments"
    else if st.actual.length ≤ st.positional then
      let count := st.actual.length
      planErr s!"VGI macro `{name}` expects at most {count} argument(s), received more"
    else .ok { st with actual := st.actual.set st.positional (some expression), positional := st.positional + 1 }

/-- A parameter that is not given takes its default (`session.rs:479-486`). -/
def fillArgument (info : SqlMacro) (parameter : Chars) : Option Expr → Except String (Option Expr)
  | some expression => .ok (some expression)
  | none =>
    match info.defaults (lower parameter) with
    | some default => default.map some
    | none => .ok none

/-- Nothing may be missing. -/
def requireAll (parameters : List Chars) (filled : List (Option Expr)) : Except String (List Expr) :=
  let missing := ((parameters.zip filled).filter (·.2.isNone)).map fun entry => String.ofList entry.1
  if missing.isEmpty then .ok (filled.filterMap id)
  else
    let name := macroName session name
    let missing := ", ".intercalate missing
    planErr s!"VGI macro `{name}` is missing required argument(s): {missing}"

/-- `bind_macro_arguments` (`session.rs:384-495`). -/
def bindMacroArguments (info : SqlMacro) (arguments : List Ast) : Except String (List Expr) := do
  let st ← arguments.foldlM (fun st argument => do
    bindArgument session name info.parameters st (← readArgument session name info.parameters argument))
    { actual := List.replicate info.parameters.length none }
  let filled ← (info.parameters.zip st.actual).mapM fun entry => fillArgument info entry.1 entry.2
  requireAll session name info.parameters filled

/-- `bind_macro_overload` (`session.rs:497-537`): the one overload that the arguments fit. -/
def bindMacroOverload (family : List SqlMacro) (kind : SqlMacroKind) (arguments : List Ast) :
    Except String (SqlMacro × List Expr) :=
  let candidates := family.filter (·.kind = kind)
  let results := candidates.map fun candidate => (candidate, bindMacroArguments session name candidate arguments)
  let matching := results.filterMap fun result => result.2.toOption.map (result.1, ·)
  let failures := results.filterMap fun result => match result.2 with
    | .error e => some e
    | .ok _ => none
  let count := matching.length
  let name := macroName session name
  if candidates.isEmpty then
    let other := if kind = .scalar then "table" else "scalar"
    planErr s!"VGI {other} macro `{name}` cannot be used in this context"
  else match matching with
  | [selected] => .ok selected
  | [] =>
    if family.length = 1 then planErr (failures.getLast?.getD s!"VGI macro `{name}` has no usable overload")
    else
      let failures := "; ".intercalate failures
      planErr s!"VGI macro `{name}` has no overload matching these arguments ({failures})"
  | _ =>
    planErr (s!"VGI macro `{name}` call is ambiguous across {count} overloads; DataFusion cannot dispatch " ++
      "macro overloads by declared parameter type before expression planning")

end

/-! ## What a call has to fulfil -/

section
variable (parameters : List Chars)

/-- The parameter that the argument at a position is for. -/
def slot (position : Nat) (argument : Argument) : Option Nat :=
  match argument.1 with
  | none => some position
  | some label => parameters.findIdx? (sameName · label)

def slots (arguments : List Argument) : List (Option Nat) := arguments.mapIdx (slot parameters)

/-- What a parameter is given. -/
def given (arguments : List Argument) (index : Nat) : Option Expr :=
  ((slots parameters arguments).zip (arguments.map (·.2))).lookup (some index)

/-- As far as the arguments alone decide it. -/
structure WellPlaced (arguments : List Argument) : Prop where
  positionalFirst : arguments.Pairwise fun a b => a.1.isSome → b.1.isSome
  known : ∀ argument ∈ arguments, ∀ label, argument.1 = some label → ∃ parameter ∈ parameters, sameName parameter label
  fits : (arguments.filter (·.1.isNone)).length ≤ parameters.length
  once : (slots parameters arguments).Nodup

end

/-- The default of a parameter, as an expression. -/
def defaultOf (info : SqlMacro) (parameter : Chars) : Option Expr :=
  match info.defaults (lower parameter) with
  | some (.ok expression) => some expression
  | _ => none

structure Acceptable (info : SqlMacro) (arguments : List Argument) : Prop extends
    WellPlaced info.parameters arguments where
  complete : ∀ index parameter, info.parameters[index]? = some parameter → some index ∉ slots info.parameters arguments →
    (defaultOf info parameter).isSome

/-- What the parameter at a position is bound to. -/
def boundTo (info : SqlMacro) (arguments : List Argument) (index : Nat) (parameter : Chars) : Option Expr :=
  (given info.parameters arguments index).or (defaultOf info parameter)

section
variable {session : SqlSession} {name : ObjectName} {parameters : List Chars}

/-! ## The loop -/

/-- The variables of the loop after some arguments. -/
def bindStateOf (parameters : List Chars) (arguments : List Argument) : BindState where
  actual := (List.range parameters.length).map (given parameters arguments)
  positional := (arguments.filter (·.1.isNone)).length
  sawNamed := arguments.any (·.1.isSome)

theorem slots_append (parameters : List Chars) (arguments : List Argument) (argument : Argument) :
    slots parameters (arguments ++ [argument]) = slots parameters arguments ++ [slot parameters arguments.length argument] := by
  rw [slots, List.mapIdx_concat]
  rfl

theorem given_append (arguments : List Argument) (argument : Argument) (index : Nat) :
    given parameters (arguments ++ [argument]) index = (given parameters arguments index).or
      (if slot parameters arguments.length argument = some index then some argument.2 else none) := by
  have hlength : (slots parameters arguments).length = (arguments.map (·.2)).length := by simp [slots]
  rw [given, slots_append, List.map_append, List.zip_append hlength, List.lookup_append]
  congr 1
  simp only [List.map_cons, List.map_nil, List.zip_cons_cons, List.zip_nil_right]
  by_cases hslot : slot parameters arguments.length argument = some index
  · rw [if_pos hslot, hslot, List.lookup_cons_self]
  · rw [if_neg hslot, List.lookup_cons, beq_false_of_ne (Ne.symm hslot), List.lookup_nil]

theorem given_eq_none_iff (arguments : List Argument) (index : Nat) :
    given parameters arguments index = none ↔ some index ∉ slots parameters arguments := by
  induction arguments using List.reverseRecOn with
  | nil => simp [given, slots]
  | append_singleton arguments argument ih =>
    rw [given_append, Option.or_eq_none_iff, ih, slots_append, List.mem_append, List.mem_singleton, not_or]
    simp [eq_comm]

theorem given_isSome_iff (arguments : List Argument) (index : Nat) :
    (given parameters arguments index).isSome ↔ some index ∈ slots parameters arguments := by
  rw [Option.isSome_iff_ne_none, ne_eq, given_eq_none_iff, not_not]

/-- One argument more. -/
theorem wellPlaced_append (arguments : List Argument) (argument : Argument) :
    WellPlaced parameters (arguments ++ [argument]) ↔ WellPlaced parameters arguments ∧
      (argument.1 = none → ¬ arguments.any (·.1.isSome) ∧ (arguments.filter (·.1.isNone)).length < parameters.length) ∧
      (∀ label, argument.1 = some label → ∃ parameter ∈ parameters, sameName parameter label) ∧
      slot parameters arguments.length argument ∉ slots parameters arguments := by
  constructor
  · rintro ⟨hfirst, hknown, hfits, honce⟩
    rw [List.pairwise_append] at hfirst
    rw [slots_append, List.nodup_append] at honce
    refine ⟨⟨hfirst.1, fun a ha => hknown a (List.mem_append_left _ ha), ?_, honce.1⟩, fun hnone => ⟨?_, ?_⟩,
      hknown argument (by simp), fun hmem => honce.2.2 _ hmem _ (by simp) rfl⟩
    · rw [List.filter_append, List.length_append] at hfits
      omega
    · intro hany
      obtain ⟨a, ha, hsome⟩ := List.any_eq_true.1 hany
      have hnamed := hfirst.2.2 a ha argument (by simp) hsome
      simp [hnone] at hnamed
    · simp only [List.filter_append, List.length_append, List.filter_cons, hnone, Option.isNone_none, if_true,
        List.filter_nil, List.length_cons, List.length_nil] at hfits
      omega
  · rintro ⟨⟨hfirst, hknown, hfits, honce⟩, hnone, hlabel, hslot⟩
    refine ⟨List.pairwise_append.2 ⟨hfirst, List.pairwise_singleton _ _, ?_⟩, ?_, ?_, ?_⟩
    · intro a ha b hb hsome
      rw [List.mem_singleton.1 hb]
      cases hargument : argument.1 with
      | some label => rfl
      | none => exact absurd (List.any_eq_true.2 ⟨a, ha, hsome⟩) (hnone hargument).1
    · intro a ha
      rcases List.mem_append.1 ha with ha | ha
      · exact hknown a ha
      · rw [List.mem_singleton.1 ha]
        exact hlabel
    · rw [List.filter_append, List.length_append]
      cases hargument : argument.1 with
      | none =>
        have hlt := (hnone hargument).2
        simp [hargument]
        omega
      | some label => simpa [hargument] using hfits
    · rw [slots_append, List.nodup_append]
      refine ⟨honce, by simp, fun a ha b hb => ?_⟩
      rw [List.mem_singleton.1 hb]
      rintro rfl
      exact hslot ha

theorem findIdx?_isSome_iff (label : Chars) :
    (∃ parameter ∈ parameters, sameName parameter label) ↔ ∃ index, parameters.findIdx? (sameName · label) = some index := by
  rw [← Option.isSome_iff_exists, List.findIdx?_isSome, List.any_eq_true]

theorem findIdx?_lt {label : Chars} {index : Nat} (h : parameters.findIdx? (sameName · label) = some index) :
    index < parameters.length := (List.findIdx?_eq_some_iff_getElem.1 h).1

/-- While the positional arguments come first, each is for the parameter at its own position. -/
theorem positional_length {arguments : List Argument} (h : arguments.any (·.1.isSome) = false) :
    (arguments.filter (·.1.isNone)).length = arguments.length := by
  rw [List.filter_eq_self.2 fun a ha => ?_]
  have hnone := List.any_eq_false.1 h a ha
  simpa using hnone

/-- Where the next positional argument goes is still free. -/
theorem slot_free {arguments : List Argument} (h : arguments.any (·.1.isSome) = false) :
    some arguments.length ∉ slots parameters arguments := by
  intro hmem
  rw [slots, List.mem_mapIdx] at hmem
  obtain ⟨j, hj, hslot⟩ := hmem
  have hnone := List.any_eq_false.1 h _ (List.getElem_mem hj)
  rw [slot] at hslot
  split at hslot
  · injection hslot with hslot
    omega
  · rename_i hsome
    simp [hsome] at hnone

theorem bindStateOf_set {arguments : List Argument} {argument : Argument} {index : Nat}
    (hslot : slot parameters arguments.length argument = some index) (hfree : some index ∉ slots parameters arguments) :
    (bindStateOf parameters arguments).actual.set index (some argument.2) =
      (bindStateOf parameters (arguments ++ [argument])).actual := by
  have hself : given parameters (arguments ++ [argument]) index = some argument.2 := by
    rw [given_append, (given_eq_none_iff arguments index).2 hfree, if_pos hslot, Option.none_or]
  have hother : ∀ i, index ≠ i → given parameters (arguments ++ [argument]) i = given parameters arguments i := by
    intro i hi
    rw [given_append, hslot, if_neg fun h => hi (Option.some.inj h), Option.or_none]
  refine List.ext_getElem (by simp [bindStateOf]) fun i hi hi' => ?_
  rw [List.getElem_set]
  by_cases hindex : index = i
  · rw [if_pos hindex, ← hself, hindex]
    simp [bindStateOf]
  · rw [if_neg hindex]
    simp [bindStateOf, hother i hindex]

theorem bindStateOf_positional (parameters : List Chars) (arguments : List Argument) (argument : Argument) :
    (bindStateOf parameters (arguments ++ [argument])).positional =
      (bindStateOf parameters arguments).positional + if argument.1.isNone then 1 else 0 := by
  simp only [bindStateOf, List.filter_append, List.length_append]
  split <;> simp [*]

theorem bindStateOf_sawNamed (parameters : List Chars) (arguments : List Argument) (argument : Argument) :
    (bindStateOf parameters (arguments ++ [argument])).sawNamed =
      ((bindStateOf parameters arguments).sawNamed || argument.1.isSome) := by
  simp [bindStateOf]

theorem bindStateOf_length (arguments : List Argument) :
    (bindStateOf parameters arguments).actual.length = parameters.length := by
  simp [bindStateOf]

/-- One turn of the loop. -/
theorem bindArgument_next {arguments : List Argument} {argument : Argument}
    (h : WellPlaced parameters (arguments ++ [argument])) :
    bindArgument session name parameters (bindStateOf parameters arguments) argument =
      .ok (bindStateOf parameters (arguments ++ [argument])) := by
  obtain ⟨-, hpositional, hknown, hfree⟩ := (wellPlaced_append arguments argument).1 h
  have hcount := bindStateOf_positional parameters arguments argument
  have hsaw := bindStateOf_sawNamed parameters arguments argument
  obtain ⟨label, expression⟩ := argument
  cases label with
  | none =>
    obtain ⟨hnamed, hfits⟩ := hpositional rfl
    rw [Bool.not_eq_true] at hnamed
    have hposition : (bindStateOf parameters arguments).positional = arguments.length := positional_length hnamed
    have hset := @bindStateOf_set parameters arguments (none, expression) _ rfl (slot_free hnamed)
    have hnot : (bindStateOf parameters arguments).sawNamed = false := hnamed
    have hroom : ¬ (bindStateOf parameters arguments).actual.length ≤ (bindStateOf parameters arguments).positional := by
      rw [bindStateOf_length]
      exact Nat.not_le_of_lt hfits
    rw [bindArgument, hnot, if_neg (by decide), if_neg hroom, hposition, hset]
    rw [hnot] at hsaw
    simp only [Option.isNone_none, if_true, Option.isSome_none, Bool.or_false] at hcount hsaw
    congr 1
    rw [← hposition, ← hcount, ← hsaw]
  | some label =>
    obtain ⟨index, hindex⟩ := (findIdx?_isSome_iff label).1 (hknown label rfl)
    have hslot : slot parameters arguments.length (some label, expression) = some index := hindex
    rw [hslot] at hfree
    have hset := bindStateOf_set hslot hfree
    have hvacant : (bindStateOf parameters arguments).actual.getD index none = none := by
      simp [bindStateOf, List.getD_eq_getElem?_getD, findIdx?_lt hindex, (given_eq_none_iff arguments index).2 hfree]
    rw [bindArgument, hindex]
    dsimp only
    rw [hvacant, if_neg (by decide), hset]
    simp only [Option.isNone_some, Option.isSome_some, Bool.or_true] at hcount hsaw
    congr 1
    rw [← hsaw]
    exact congrArg (BindState.mk _ · _) hcount.symm

theorem bindArgument_wrong {arguments : List Argument} {argument : Argument} (hbefore : WellPlaced parameters arguments)
    (h : ¬ WellPlaced parameters (arguments ++ [argument])) :
    ∃ e, bindArgument session name parameters (bindStateOf parameters arguments) argument = .error e := by
  rw [wellPlaced_append] at h
  obtain ⟨label, expression⟩ := argument
  cases label with
  | none =>
    by_cases hnamed : arguments.any (·.1.isSome) = true
    · have hsaw : (bindStateOf parameters arguments).sawNamed = true := hnamed
      exact ⟨_, by rw [bindArgument, hsaw, if_pos rfl]; rfl⟩
    · have hnot : (bindStateOf parameters arguments).sawNamed = false := by rwa [Bool.not_eq_true] at hnamed
      have hfull : (bindStateOf parameters arguments).actual.length ≤ (bindStateOf parameters arguments).positional := by
        rw [bindStateOf_length]
        by_contra hroom
        refine h ⟨hbefore, fun _ => ⟨hnamed, Nat.lt_of_not_le hroom⟩, fun _ hsome => (by cases hsome), ?_⟩
        exact slot_free (by rwa [Bool.not_eq_true] at hnamed)
      exact ⟨_, by rw [bindArgument, hnot, if_neg (by decide), if_pos hfull]; rfl⟩
  | some label =>
    cases hindex : parameters.findIdx? (sameName · label) with
    | none => exact ⟨_, by rw [bindArgument, hindex]; rfl⟩
    | some index =>
      have htaken : some index ∈ slots parameters arguments := by
        by_contra hfree
        refine h ⟨hbefore, fun hnone => (by cases hnone), fun l hl => ?_, ?_⟩
        · cases hl
          exact (findIdx?_isSome_iff label).2 ⟨index, hindex⟩
        · rw [show slot parameters arguments.length (some label, expression) = some index from hindex]
          exact hfree
      have hfilled : ((bindStateOf parameters arguments).actual.getD index none).isSome = true := by
        simpa [bindStateOf, List.getD_eq_getElem?_getD, findIdx?_lt hindex] using (given_isSome_iff arguments index).2 htaken
      exact ⟨_, by rw [bindArgument, hindex]; dsimp only; rw [if_pos hfilled]; rfl⟩

theorem bindArgument_ok_iff {arguments : List Argument} {argument : Argument} {st : BindState}
    (h : WellPlaced parameters arguments) :
    bindArgument session name parameters (bindStateOf parameters arguments) argument = .ok st ↔
      WellPlaced parameters (arguments ++ [argument]) ∧ st = bindStateOf parameters (arguments ++ [argument]) := by
  by_cases hnext : WellPlaced parameters (arguments ++ [argument])
  · rw [bindArgument_next hnext]
    simp [hnext, eq_comm]
  · obtain ⟨e, he⟩ := @bindArgument_wrong session name parameters arguments argument h hnext
    simp [he, hnext]

theorem wellPlaced_nil (parameters : List Chars) : WellPlaced parameters [] := by
  constructor <;> simp [slots]

/-- The whole loop. -/
theorem bindArguments_ok_iff (arguments : List Ast) (st : BindState) :
    arguments.foldlM (fun st argument => do
        bindArgument session name parameters st (← readArgument session name parameters argument))
      { actual := List.replicate parameters.length none } = .ok st ↔
    ∃ forms, List.Forall₂ (fun a form => readArgument session name parameters a = .ok form) arguments forms ∧
      WellPlaced parameters forms ∧ st = bindStateOf parameters forms := by
  induction arguments using List.reverseRecOn generalizing st with
  | nil =>
    have hstart : bindStateOf parameters [] = { actual := List.replicate parameters.length none } := by
      simp only [bindStateOf, List.filter_nil, List.length_nil, List.any_nil, BindState.mk.injEq, and_true]
      refine List.eq_replicate_iff.2 ⟨by simp, fun x hx => ?_⟩
      obtain ⟨i, -, rfl⟩ := List.mem_map.1 hx
      rfl
    simp only [List.foldlM_nil, List.forall₂_nil_left_iff, exists_eq_left, wellPlaced_nil, true_and, hstart]
    exact ⟨fun h => (by cases h; rfl), fun h => (by rw [h]; rfl)⟩
  | append_singleton arguments argument ih =>
    rw [List.foldlM_append]
    constructor
    · intro h
      obtain ⟨before, hbefore, h⟩ := except_of_bind_ok h
      obtain ⟨forms, hforms, hplaced, rfl⟩ := (ih before).1 hbefore
      rw [List.foldlM_cons] at h
      obtain ⟨after, hafter, h⟩ := except_of_bind_ok h
      cases h
      obtain ⟨form, hform, hafter⟩ := except_of_bind_ok hafter
      obtain ⟨hnext, rfl⟩ := (bindArgument_ok_iff hplaced).1 hafter
      exact ⟨forms ++ [form], List.rel_append hforms (.cons hform .nil), hnext, rfl⟩
    · rintro ⟨forms, hforms, hplaced, rfl⟩
      obtain ⟨before, last, hbefore, hlast, rfl⟩ := ListFacts.forall₂_append_iff.1 hforms
      cases hlast with
      | cons hform hnil =>
        cases hnil
        have hstart := ((wellPlaced_append before _).1 hplaced).1
        rw [(ih _).2 ⟨before, hbefore, hstart, rfl⟩]
        change (readArgument session name parameters argument >>= bindArgument session name parameters
          (bindStateOf parameters before)) >>= pure = _
        rw [hform]
        change bindArgument session name parameters (bindStateOf parameters before) _ >>= pure = _
        rw [bindArgument_next hplaced]
        rfl

/-! ## The parameters that are not given -/

theorem fillArgument_ok_iff (info : SqlMacro) (parameter : Chars) (value : Option Expr) (e : Expr) :
    fillArgument info parameter value = .ok (some e) ↔ value.or (defaultOf info parameter) = some e := by
  cases value with
  | some expression => simp [fillArgument]
  | none =>
    rw [fillArgument, defaultOf, Option.none_or]
    cases info.defaults (lower parameter) with
    | none => simp
    | some default => cases default <;> simp [Except.map]

theorem fill_ok_iff (info : SqlMacro) (entries : List (Chars × Option Expr)) (actual : List Expr) :
    entries.mapM (fun entry => fillArgument info entry.1 entry.2) = .ok (actual.map some) ↔
      entries.map (fun entry => entry.2.or (defaultOf info entry.1)) = actual.map some := by
  rw [ListFacts.mapM_ok_iff, List.forall₂_map_right_iff]
  induction entries generalizing actual with
  | nil => cases actual <;> simp
  | cons entry entries ih =>
    cases actual with
    | nil => simp
    | cons e actual =>
      rw [List.forall₂_cons, ih, fillArgument_ok_iff, List.map_cons, List.map_cons, List.cons.injEq]

theorem requireAll_ok_iff {filled : List (Option Expr)} (hlength : filled.length = parameters.length) (actual : List Expr) :
    requireAll session name parameters filled = .ok actual ↔ filled = actual.map some := by
  have hmissing : (((parameters.zip filled).filter (·.2.isNone)).map fun entry => String.ofList entry.1).isEmpty = true ↔
      filled = (filled.filterMap id).map some := by
    induction filled generalizing parameters with
    | nil => simp
    | cons x filled ih =>
      cases parameters with
      | nil => simp at hlength
      | cons parameter parameters =>
        have ih := ih (Nat.succ.inj hlength)
        cases x with
        | none =>
          refine iff_of_false (by simp [List.zip_cons_cons]) fun h => ?_
          have hmem : none ∈ ((none :: filled).filterMap id).map some := h ▸ List.mem_cons_self
          simp at hmem
        | some e => simpa [List.zip_cons_cons] using ih
  rw [requireAll]
  split
  · rename_i hempty
    have hsome := hmissing.1 hempty
    constructor
    · intro h
      cases h
      exact hsome
    · rintro rfl
      simp
  · rename_i hnot
    refine ⟨fun h => (by cases h), ?_⟩
    rintro rfl
    exact absurd (hmissing.2 (by simp)) hnot

theorem entries_eq (info : SqlMacro) (forms : List Argument) :
    (info.parameters.zip (bindStateOf info.parameters forms).actual).map (fun entry => entry.2.or (defaultOf info entry.1)) =
      info.parameters.mapIdx (boundTo info forms) := by
  refine List.ext_getElem (by simp [bindStateOf]) fun i hi hi' => ?_
  simp [bindStateOf, boundTo]

/-- **The binding of a call.** -/
theorem bindMacroArguments_ok_iff (info : SqlMacro) (arguments : List Ast) (actual : List Expr) :
    bindMacroArguments session name info arguments = .ok actual ↔
      ∃ forms, List.Forall₂ (fun a form => readArgument session name info.parameters a = .ok form) arguments forms ∧
        WellPlaced info.parameters forms ∧ info.parameters.mapIdx (boundTo info forms) = actual.map some := by
  have hlength : ∀ forms filled, (info.parameters.zip (bindStateOf info.parameters forms).actual).mapM
      (fun entry => fillArgument info entry.1 entry.2) = .ok filled → filled.length = info.parameters.length := by
    intro forms filled h
    have hsame := (ListFacts.mapM_ok_iff.1 h).length_eq
    simpa [bindStateOf] using hsame.symm
  constructor
  · intro h
    obtain ⟨st, hst, h⟩ := except_of_bind_ok h
    obtain ⟨filled, hfilled, hrequire⟩ := except_of_bind_ok h
    obtain ⟨forms, hforms, hplaced, rfl⟩ := (bindArguments_ok_iff arguments st).1 hst
    rw [requireAll_ok_iff (hlength forms filled hfilled)] at hrequire
    refine ⟨forms, hforms, hplaced, ?_⟩
    rw [← entries_eq, ← fill_ok_iff, hfilled, hrequire]
  · rintro ⟨forms, hforms, hplaced, hactual⟩
    rw [← entries_eq, ← fill_ok_iff] at hactual
    rw [bindMacroArguments, (bindArguments_ok_iff arguments _).2 ⟨forms, hforms, hplaced, rfl⟩]
    change (_ >>= requireAll session name info.parameters) = _
    rw [hactual]
    exact (requireAll_ok_iff (hlength forms _ hactual) actual).2 rfl

/-! ## The order of named arguments -/

/-- The arguments with the parameters they are for. -/
def placed (parameters : List Chars) (arguments : List Argument) : List (Option Nat × Expr) :=
  (slots parameters arguments).zip (arguments.map (·.2))

theorem placed_append (arguments : List Argument) (argument : Argument) :
    placed parameters (arguments ++ [argument]) =
      placed parameters arguments ++ [(slot parameters arguments.length argument, argument.2)] := by
  rw [placed, slots_append, List.map_append, List.zip_append (by simp [slots])]
  rfl

theorem placed_named (positional : List Argument) {named : List Argument} (h : ∀ a ∈ named, a.1.isSome) :
    placed parameters (positional ++ named) =
      placed parameters positional ++ named.map fun a => (slot parameters 0 a, a.2) := by
  induction named using List.reverseRecOn with
  | nil => simp
  | append_singleton named a ih =>
    have ha : slot parameters (positional ++ named).length a = slot parameters 0 a := by
      obtain ⟨label, hlabel⟩ := Option.isSome_iff_exists.1 (h a (by simp))
      simp [slot, hlabel]
    rw [← List.append_assoc, placed_append, ih fun b hb => h b (List.mem_append_left _ hb), ha]
    simp

theorem placed_fst (arguments : List Argument) : (placed parameters arguments).map (·.1) = slots parameters arguments := by
  rw [placed, List.map_fst_zip (by simp [slots])]

/-- The same arguments, those with labels in another order. -/
structure Reordered {α : Type} (named : α → Bool) (arguments arguments' : List α) : Prop where
  places : arguments'.map named = arguments.map named
  positional : arguments'.filter (!named ·) = arguments.filter (!named ·)
  labelled : (arguments'.filter named).Perm (arguments.filter named)

theorem Reordered.symm {α : Type} {named : α → Bool} {arguments arguments' : List α}
    (h : Reordered named arguments arguments') : Reordered named arguments' arguments :=
  ⟨h.places.symm, h.positional.symm, h.labelled.symm⟩

theorem Reordered.mem {α : Type} {named : α → Bool} {arguments arguments' : List α} (h : Reordered named arguments arguments')
    {a : α} (ha : a ∈ arguments') : a ∈ arguments := by
  by_cases hnamed : named a = true
  · have hmem : a ∈ arguments'.filter named := List.mem_filter.2 ⟨ha, hnamed⟩
    exact (List.mem_filter.1 (h.labelled.mem_iff.1 hmem)).1
  · have hmem : a ∈ arguments'.filter (!named ·) := List.mem_filter.2 ⟨ha, by simpa using hnamed⟩
    rw [h.positional] at hmem
    exact (List.mem_filter.1 hmem).1

theorem placed_reordered {arguments arguments' : List Argument} (hfirst : arguments.Pairwise fun a b => a.1.isSome → b.1.isSome)
    (h : Reordered (·.1.isSome) arguments arguments') :
    (placed parameters arguments').Perm (placed parameters arguments) ∧
      arguments'.Pairwise fun a b => a.1.isSome → b.1.isSome := by
  have hfirst' : arguments'.Pairwise fun a b => a.1.isSome → b.1.isSome := by
    have hmap : (arguments.map (·.1.isSome)).Pairwise fun a b => a = true → b = true := List.pairwise_map.2 hfirst
    rw [← h.places] at hmap
    exact List.pairwise_map.1 hmap
  have hnamed : ∀ l : List Argument, ∀ a ∈ l.filter (·.1.isSome), a.1.isSome := fun l a ha => (List.mem_filter.1 ha).2
  refine ⟨?_, hfirst'⟩
  rw [ListFacts.eq_filter_append hfirst, ListFacts.eq_filter_append hfirst', placed_named _ (hnamed _), placed_named _ (hnamed _),
    h.positional]
  exact (h.labelled.map _).append_left _

theorem wellPlaced_reordered {arguments arguments' : List Argument} (hplaced : WellPlaced parameters arguments)
    (h : Reordered (·.1.isSome) arguments arguments') : WellPlaced parameters arguments' := by
  obtain ⟨hperm, hfirst⟩ := @placed_reordered parameters _ _ hplaced.positionalFirst h
  refine ⟨hfirst, fun a ha => hplaced.known a (h.mem ha), ?_, ?_⟩
  · have hsame : arguments'.filter (·.1.isNone) = arguments.filter (·.1.isNone) := by
      simpa [← Option.not_isSome] using h.positional
    rw [hsame]
    exact hplaced.fits
  · have hslots := hperm.map (·.1)
    rw [placed_fst, placed_fst] at hslots
    exact hslots.nodup_iff.2 hplaced.once

theorem given_reordered {arguments arguments' : List Argument} (hplaced : WellPlaced parameters arguments)
    (h : Reordered (·.1.isSome) arguments arguments') (index : Nat) :
    given parameters arguments' index = given parameters arguments index := by
  have hperm := (@placed_reordered parameters _ _ hplaced.positionalFirst h).1
  have honce : ((placed parameters arguments).map (·.1)).Nodup := by
    rw [placed_fst]
    exact hplaced.once
  exact ListFacts.lookup_perm honce hperm.symm (some index)

/-- Written with a label, under these parameters. -/
def takenAsNamed (session : SqlSession) (name : ObjectName) (parameters : List Chars) (argument : Ast) : Bool :=
  match readArgument session name parameters argument with
  | .ok (some _, _) => true
  | _ => false

theorem takenAsNamed_of_read {argument : Ast} {form : Argument}
    (h : readArgument session name parameters argument = .ok form) :
    takenAsNamed session name parameters argument = form.1.isSome := by
  obtain ⟨label, expression⟩ := form
  rw [takenAsNamed, h]
  cases label <;> rfl

theorem filter_read (p : Bool → Bool) {arguments : List Ast} {forms : List Argument}
    (h : List.Forall₂ (fun a form => readArgument session name parameters a = .ok form) arguments forms) :
    List.Forall₂ (fun a form => readArgument session name parameters a = .ok form)
      (arguments.filter fun a => p (takenAsNamed session name parameters a)) (forms.filter fun form => p form.1.isSome) := by
  induction h with
  | nil => exact .nil
  | cons hread _ ih =>
    rw [List.filter_cons, List.filter_cons, takenAsNamed_of_read hread]
    split
    · exact .cons hread ih
    · exact ih

theorem forall₂_map_ok {arguments : List Ast} {forms : List Argument} :
    List.Forall₂ (fun a form => readArgument session name parameters a = .ok form) arguments forms ↔
      arguments.map (readArgument session name parameters) = forms.map .ok := by
  rw [← List.forall₂_eq_eq_eq, List.forall₂_map_left_iff, List.forall₂_map_right_iff]

/-- What was read is reordered with what was written. -/
theorem read_reordered {arguments arguments' : List Ast} {forms : List Argument}
    (h : Reordered (takenAsNamed session name parameters) arguments arguments')
    (hforms : List.Forall₂ (fun a form => readArgument session name parameters a = .ok form) arguments forms) :
    ∃ forms', List.Forall₂ (fun a form => readArgument session name parameters a = .ok form) arguments' forms' ∧
      Reordered (·.1.isSome) forms forms' := by
  have hok : Function.Injective (Except.ok : Argument → Except String Argument) := fun a b hab => Except.ok.inj hab
  have hread : ∀ a ∈ arguments', ∃ form, readArgument session name parameters a = .ok form := by
    intro a ha
    obtain ⟨i, hi⟩ := List.getElem?_of_mem (h.mem ha)
    obtain ⟨form, -, hform⟩ := ListFacts.forall₂_getElem? hforms hi
    exact ⟨form, hform⟩
  obtain ⟨forms', hforms'⟩ := ListFacts.forall₂_of_exists hread
  have hflags : ∀ {as : List Ast} {fs : List Argument},
      List.Forall₂ (fun a form => readArgument session name parameters a = .ok form) as fs →
        as.map (takenAsNamed session name parameters) = fs.map (·.1.isSome) := by
    intro as fs hfs
    rw [← List.forall₂_eq_eq_eq, List.forall₂_map_left_iff, List.forall₂_map_right_iff]
    exact hfs.imp fun a form hread => takenAsNamed_of_read hread
  refine ⟨forms', hforms', by rw [← hflags hforms, ← hflags hforms', h.places], ?_, ?_⟩
  · have hpositional := forall₂_map_ok.1 (filter_read not hforms')
    rw [h.positional, forall₂_map_ok.1 (filter_read not hforms)] at hpositional
    exact (List.map_injective_iff.2 hok hpositional).symm
  · have hlabelled := h.labelled.map (readArgument session name parameters)
    have hread := forall₂_map_ok.1 (filter_read id hforms)
    have hread' := forall₂_map_ok.1 (filter_read id hforms')
    simp only [id_eq] at hread hread'
    rw [hread, hread'] at hlabelled
    exact (List.map_perm_map_iff hok).1 hlabelled

theorem bindMacroArguments_reordered {info : SqlMacro} {arguments arguments' : List Ast}
    (h : Reordered (takenAsNamed session name info.parameters) arguments arguments') {actual : List Expr}
    (hbind : bindMacroArguments session name info arguments = .ok actual) :
    bindMacroArguments session name info arguments' = .ok actual := by
  rw [bindMacroArguments_ok_iff] at hbind ⊢
  obtain ⟨forms, hforms, hplaced, hactual⟩ := hbind
  obtain ⟨forms', hforms', hreordered⟩ := read_reordered h hforms
  refine ⟨forms', hforms', wellPlaced_reordered hplaced hreordered, ?_⟩
  rw [← hactual]
  refine List.ext_getElem (by simp) fun i hi hi' => ?_
  simp [boundTo, given_reordered hplaced hreordered]

theorem bindMacroArguments_reordered_iff {info : SqlMacro} {arguments arguments' : List Ast}
    (h : Reordered (takenAsNamed session name info.parameters) arguments arguments') (actual : List Expr) :
    bindMacroArguments session name info arguments' = .ok actual ↔ bindMacroArguments session name info arguments = .ok actual :=
  ⟨bindMacroArguments_reordered h.symm, bindMacroArguments_reordered h⟩

/-! ## Overloads -/

theorem bindMacroOverload_ok_iff (family : List SqlMacro) (kind : SqlMacroKind) (arguments : List Ast)
    (selected : SqlMacro × List Expr) : bindMacroOverload session name family kind arguments = .ok selected ↔
      (family.filter (·.kind = kind)).filterMap (fun candidate =>
        (bindMacroArguments session name candidate arguments).toOption.map (candidate, ·)) = [selected] := by
  have hmatching : ((family.filter (·.kind = kind)).map fun candidate =>
      (candidate, bindMacroArguments session name candidate arguments)).filterMap
        (fun result => result.2.toOption.map (result.1, ·)) =
      (family.filter (·.kind = kind)).filterMap fun candidate =>
        (bindMacroArguments session name candidate arguments).toOption.map (candidate, ·) := List.filterMap_map
  rw [← hmatching, bindMacroOverload]
  dsimp only
  split
  · rename_i hnone
    rw [List.isEmpty_iff] at hnone
    simp [hnone, planErr]
  · split
    · rename_i hone
      rw [hone]
      simp
    · rename_i hzero
      rw [hzero]
      split <;> simp [planErr]
    · rename_i hother _
      exact ⟨fun h => (by cases h), fun h => absurd h (hother selected)⟩

theorem bindMacroOverload_reordered_iff {family : List SqlMacro} {kind : SqlMacroKind} {arguments arguments' : List Ast}
    (h : ∀ candidate ∈ family, candidate.kind = kind →
      Reordered (takenAsNamed session name candidate.parameters) arguments arguments') (selected : SqlMacro × List Expr) :
    bindMacroOverload session name family kind arguments' = .ok selected ↔
      bindMacroOverload session name family kind arguments = .ok selected := by
  rw [bindMacroOverload_ok_iff, bindMacroOverload_ok_iff]
  refine iff_of_eq (congrArg (· = [selected]) (List.filterMap_congr fun candidate hcandidate => ?_))
  obtain ⟨hmem, hkind⟩ := List.mem_filter.1 hcandidate
  have hsame := bindMacroArguments_reordered_iff (h candidate hmem (by simpa using hkind))
  have hoption : (bindMacroArguments session name candidate arguments').toOption =
      (bindMacroArguments session name candidate arguments).toOption := by
    cases hbind : bindMacroArguments session name candidate arguments with
    | ok actual => rw [(hsame actual).2 hbind]
    | error e =>
      cases hbind' : bindMacroArguments session name candidate arguments' with
      | ok actual =>
        rw [(hsame actual).1 hbind'] at hbind
        cases hbind
      | error e' => rfl
  rw [hoption]

/-! ## The binding as a whole -/

theorem complete_iff (info : SqlMacro) (forms : List Argument) :
    (∃ actual : List Expr, info.parameters.mapIdx (boundTo info forms) = actual.map some) ↔
      ∀ index parameter, info.parameters[index]? = some parameter → some index ∉ slots info.parameters forms →
        (defaultOf info parameter).isSome := by
  have hentry : ∀ index parameter, info.parameters[index]? = some parameter →
      ((boundTo info forms index parameter).isSome ↔
        (some index ∉ slots info.parameters forms → (defaultOf info parameter).isSome)) := by
    intro index parameter _
    rw [boundTo, Option.isSome_or, Bool.or_eq_true, given_isSome_iff, or_iff_not_imp_left]
  have hlists : ∀ values : List (Option Expr), (∃ actual : List Expr, values = actual.map some) ↔ ∀ x ∈ values, x.isSome := by
    intro values
    constructor
    · rintro ⟨actual, rfl⟩ x hx
      obtain ⟨e, -, rfl⟩ := List.mem_map.1 hx
      rfl
    · intro h
      refine ⟨values.filterMap id, ?_⟩
      induction values with
      | nil => rfl
      | cons x values ih =>
        obtain ⟨e, rfl⟩ := Option.isSome_iff_exists.1 (h x List.mem_cons_self)
        have hcons : (some e :: values).filterMap id = e :: values.filterMap id := rfl
        rw [hcons, List.map_cons, ← ih fun y hy => h y (List.mem_cons_of_mem _ hy)]
  rw [hlists]
  constructor
  · intro h index parameter hparameter
    refine (hentry index parameter hparameter).1 (h _ (List.mem_iff_getElem?.2 ⟨index, ?_⟩))
    rw [List.getElem?_mapIdx, hparameter, Option.map_some]
  · intro h x hx
    obtain ⟨index, hindex⟩ := List.mem_iff_getElem?.1 hx
    rw [List.getElem?_mapIdx, Option.map_eq_some_iff] at hindex
    obtain ⟨parameter, hparameter, rfl⟩ := hindex
    exact (hentry index parameter hparameter).2 (h index parameter hparameter)

/-- **A call is bound exactly if it is acceptable; every parameter is bound once, to what it is given or else to its
default; and the order of the arguments that are named for every overload does not matter.** -/
theorem macro_binding (session : SqlSession) (name : ObjectName) (info : SqlMacro) (arguments : List Ast) :
    ((∃ actual, bindMacroArguments session name info arguments = .ok actual) ↔
      ∃ forms, List.Forall₂ (fun a form => readArgument session name info.parameters a = .ok form) arguments forms ∧
        Acceptable info forms) ∧
    (∀ actual forms, bindMacroArguments session name info arguments = .ok actual →
      List.Forall₂ (fun a form => readArgument session name info.parameters a = .ok form) arguments forms →
        actual.length = info.parameters.length ∧
        ∀ index parameter, info.parameters[index]? = some parameter → actual[index]? = boundTo info forms index parameter) ∧
    (∀ arguments', Reordered (takenAsNamed session name info.parameters) arguments arguments' →
      ∀ actual, bindMacroArguments session name info arguments' = .ok actual ↔
        bindMacroArguments session name info arguments = .ok actual) ∧
    (∀ family kind arguments', (∀ candidate ∈ family, candidate.kind = kind →
      Reordered (takenAsNamed session name candidate.parameters) arguments arguments') →
        ∀ selected, bindMacroOverload session name family kind arguments' = .ok selected ↔
          bindMacroOverload session name family kind arguments = .ok selected) := by
  refine ⟨?_, ?_, fun _ h => bindMacroArguments_reordered_iff h, fun _ _ _ h => bindMacroOverload_reordered_iff h⟩
  · constructor
    · rintro ⟨actual, hactual⟩
      obtain ⟨forms, hforms, hplaced, hbound⟩ := (bindMacroArguments_ok_iff info arguments actual).1 hactual
      exact ⟨forms, hforms, hplaced, (complete_iff info forms).1 ⟨actual, hbound⟩⟩
    · rintro ⟨forms, hforms, hacceptable⟩
      obtain ⟨actual, hactual⟩ := (complete_iff info forms).2 hacceptable.complete
      exact ⟨actual, (bindMacroArguments_ok_iff info arguments actual).2 ⟨forms, hforms, hacceptable.toWellPlaced, hactual⟩⟩
  · intro actual forms hactual hforms
    obtain ⟨forms', hforms', -, hbound⟩ := (bindMacroArguments_ok_iff info arguments actual).1 hactual
    have hsame : forms' = forms := by
      have hboth := (forall₂_map_ok.1 hforms').symm.trans (forall₂_map_ok.1 hforms)
      exact List.map_injective_iff.2 (fun a b hab => Except.ok.inj hab) hboth
    subst hsame
    constructor
    · simpa using (congrArg List.length hbound).symm
    · intro index parameter hparameter
      have hat := congrArg (·[index]?) hbound
      simp only [List.getElem?_mapIdx, hparameter, Option.map_some, List.getElem?_map] at hat
      cases hactual : actual[index]? with
      | none => simp [hactual] at hat
      | some e =>
        rw [hactual] at hat
        exact (Option.some.inj hat).symm

/-! ### Two overloads -/

def anyName (_ : ObjectName) : Chars := "m".toList

def emptySession : SqlSession where
  render := anyName
  macros := []
  attachedDefaultSchema _ := none
  isDeclaredNamedTableArgument _ _ := false
  isDeclaredNullaryAggregate _ := false
  isScalarFunction _ := false

def literal (text : String) : Expr := ⟨.node (.expr text.toList) [], rfl⟩

def takes (parameters : List String) : SqlMacro where
  kind := .scalar
  parameters := parameters.map String.toList
  defaults _ := none
  body := .scalar (literal "1")

/-- `a = 1` -/
def equality : Ast := .node .argUnnamed [.node .eq [.node (.identifier { value := "a".toList }) [], literal "1"]]

/-- `b => 2` -/
def arrow : Ast := .node (.argNamed { value := "b".toList }) [literal "2"]

/-- Both overloads take `(a = 1, b => 2)`, only the first one takes `(b => 2, a = 1)`. -/
theorem bindMacroOverload_depends_on_order :
    (∀ argument ∈ [equality, arrow], takenAsNamed emptySession [] ["a".toList, "b".toList] argument = true) ∧
    (∃ e, bindMacroOverload emptySession [] [takes ["a", "b"], takes ["x", "b"]] .scalar [equality, arrow] = .error e) ∧
      ∃ selected, bindMacroOverload emptySession [] [takes ["a", "b"], takes ["x", "b"]] .scalar [arrow, equality] =
        .ok selected :=
  ⟨by decide, ⟨_, rfl⟩, _, rfl⟩

end

end VgiDatafusion.Sql
