import VgiDatafusion.Session.Attach

/-!
# ATTACH as it is written (session.rs:1488-1677, 2046-2084)

| here | there |
| --- | --- |
| `TextTables` | the Unicode tables of the standard library |
| `stripPrefixCi`, `stripPrefix`, `stripSuffix` | `strip_prefix_ci` and the methods of `str` |
| `takeIdent`, `splitTopLevelCommas` | `take_ident`, `split_top_level_commas` |
| `readOption`, `readOptions` | the loop over the options |
| `parseDuckdbAttach`, `AttachSpec.parse` | `parse_duckdb_attach`, `AttachSpec::parse` |
| `AttachStatement`, `Layout`, `render` | not in the source: a statement, how it is laid out, and its text |

A rendered statement reads back as it was exactly if its `IF NOT EXISTS` is spelled with single spaces and nothing stands
before its semicolon (`parse_render_iff`).
-/
namespace VgiDatafusion

/-- What `char::is_alphanumeric` and the debug format of a string look up. -/
structure TextTables where
  isAlphanumeric : Char → Bool
  debug : Chars → String
  ascii : ∀ c, c.toNat < 128 → isAlphanumeric c = c.isAlphanum
  whitespace : ∀ c, isWhitespace c = true → isAlphanumeric c = false

/-! ## Scanning -/

def stripPrefix (start s : Chars) : Option Chars := if s.take start.length = start then some (s.drop start.length) else none

/-- `strip_prefix_ci` (`session.rs:1668-1676`) of an upper-case keyword; it is ASCII, so are the characters it matches. -/
def stripPrefixCi (word s : Chars) : Option Chars :=
  if lower (s.take word.length) = lower word then some (s.drop word.length) else none

def stripSuffix (c : Char) (s : Chars) : Option Chars := if s.getLast? = some c then some s.dropLast else none

/-- `trim_end_matches(';')` -/
def trimSemicolons (s : Chars) : Chars := (s.reverse.dropWhile (· = ';')).reverse

/-- A character of the part at hand. -/
def extend (c : Char) : List Chars → List Chars
  | [] => [[c]]
  | part :: parts => (c :: part) :: parts

/-- `split_top_level_commas` (`session.rs:1611-1643`): split at commas, inside of no quotes and `depth` brackets. -/
def splitTopLevelCommas : Option Char → Nat → Chars → List Chars
  | _, _, [] => [[]]
  | some q, depth, [c] => extend c (splitTopLevelCommas (if c = q then none else some q) depth [])
  | some q, depth, c :: d :: rest =>
    if c = q then
      if d = q then extend c (extend d (splitTopLevelCommas (some q) depth rest))
      else extend c (splitTopLevelCommas none depth (d :: rest))
    else if c = '\\' ∧ q = doubleQuote then extend c (extend d (splitTopLevelCommas (some q) depth rest))
    else extend c (splitTopLevelCommas (some q) depth (d :: rest))
  | none, depth, c :: rest =>
    if c = quote ∨ c = doubleQuote then extend c (splitTopLevelCommas (some c) depth rest)
    else if c = '(' ∨ c = '[' ∨ c = '{' then extend c (splitTopLevelCommas none (depth + 1) rest)
    else if c = ')' ∨ c = ']' ∨ c = '}' then extend c (splitTopLevelCommas none (depth - 1) rest)
    else if c = ',' ∧ depth = 0 then [] :: splitTopLevelCommas none depth rest
    else extend c (splitTopLevelCommas none depth rest)
termination_by structural _ _ s => s

/-! ## Reading -/

section
variable (u : TextTables)

/-- What `take_ident` (`session.rs:1602-1608`) takes. -/
def isIdentChar (c : Char) : Bool := u.isAlphanumeric c || c = '_' || c = '.'

/-- `take_ident` (`session.rs:1602-1608`). -/
def takeIdent (s : Chars) : Chars × Chars :=
  ((trimStart s).takeWhile (isIdentChar u), (trimStart s).dropWhile (isIdentChar u))

/-- One turn of the loop over the options. -/
def readOption (options : Chars → Option Chars) (pair : Chars) : Except String (Chars → Option Chars) :=
  let pair := trim pair
  if pair.isEmpty then .ok options
  else
    let (key, value) := takeIdent u pair
    if key.isEmpty then
      let text := String.ofList pair
      .error s!"ATTACH option has no name: {text}"
    else
      let start := trimStart value
      let value := trim (((stripPrefix [':', '='] start).or (stripPrefix ['='] start)).getD start)
      if value.isEmpty then
        let name := String.ofList key
        .error s!"ATTACH option `{name}` has no value"
      else .ok (Function.update options (lower key) (some value))

/-- The options of the parenthesised list, if there is one. -/
def readOptions (rest : Chars) : Except String (Chars → Option Chars) :=
  match (stripPrefix ['('] rest).bind (stripSuffix ')') with
  | some inner => (splitTopLevelCommas none 0 inner).foldlM (readOption u) fun _ => none
  | none =>
    if rest.isEmpty then .ok fun _ => none
    else
      let text := String.ofList rest
      .error s!"unexpected text after ATTACH alias: {text}"

/-- `TYPE` has to be `vgi` and is dropped. -/
def dropType (options : Chars → Option Chars) : Except String (Chars → Option Chars) :=
  match options "type".toList with
  | none => .ok options
  | some raw => do
    let kind ← optionString raw
    if lower kind = "vgi".toList then .ok (Function.update options "type".toList none)
    else
      let text := u.debug kind
      .error s!"unsupported ATTACH TYPE {text}; expected VGI"

/-- The query of a target, later pairs overriding earlier ones. -/
def targetOptions (query : Chars) : Except String (Chars → Option Chars) :=
  ((split '&' query).filter (!·.isEmpty)).foldlM
    (fun options pair => match splitOnce '=' pair with
      | none =>
        let text := u.debug pair
        .error s!"ATTACH option {text} is not key=value"
      | some (name, value) => .ok (Function.update options (lower (trim name)) (some (sqlString (trim value)))))
    fun _ => none

/-- `AttachSpec::parse` (`session.rs:2046-2080`): location and options out of the target. -/
def AttachSpec.parse (target name : Chars) : Except String AttachSpec :=
  let (catalog, query) := (splitOnce '?' target).getD (target, [])
  let text := u.debug target
  if catalog.isEmpty then .error s!"ATTACH target names no catalog: {text}"
  else do
    let options ← targetOptions u query
    match options "location".toList with
    | none =>
      let as := String.ofList name
      let of := String.ofList catalog
      .error (s!"ATTACH target {text} has no `location`; " ++ s!"write ATTACH '{of}?location=<worker>' AS {as}")
    | some raw =>
      let location ← optionString raw
      if location.isEmpty then .error "ATTACH `location` is empty"
      else .ok { catalog, name, location, options := Function.update options "location".toList none }

/-- The option `LOCATION`, else `PATH`, and the options without it. -/
def takeLocation (options : Chars → Option Chars) : Option (Chars × (Chars → Option Chars)) :=
  match options "location".toList with
  | some raw => some (raw, Function.update options "location".toList none)
  | none => (options "path".toList).map fun raw => (raw, Function.update options "path".toList none)

/-- Where the worker is: in an option, or in the target itself. -/
def locate (catalog name : Chars) (options : Chars → Option Chars) : Except String AttachSpec :=
  match takeLocation options with
  | some (raw, options) => do
    let location ← optionString raw
    if location.isEmpty then .error "ATTACH `location` is empty"
    else .ok { catalog, name, location, options }
  | none => AttachSpec.parse u catalog name

/-- What follows `AS`, else the catalog again. -/
def readName (catalog rest : Chars) : Option (Chars × Chars) :=
  match stripPrefixCi "AS".toList (trimStart rest) with
  | some rest => if (takeIdent u rest).1.isEmpty then none else some (takeIdent u rest)
  | none => some (catalog, trimStart rest)

/-- After the keyword. -/
def parseTarget (trimmed rest : Chars) : Except String AttachSpec :=
  let text := String.ofList trimmed
  match takeQuoted rest with
  | none => .error s!"ATTACH target must be a quoted string: {text}"
  | some (catalog, rest) =>
    match readName u catalog rest with
    | none => .error s!"ATTACH is missing an alias: {text}"
    | some (name, rest) => do
      let options ← readOptions u (trimStart rest)
      let options ← dropType u options
      locate u catalog name options

/-- `IF NOT EXISTS` is passed over, where it is written like this. -/
def skipGuard (rest : Chars) : Chars := ((stripPrefixCi "IF NOT EXISTS".toList rest).map trimStart).getD rest

/-- `parse_duckdb_attach` (`session.rs:1488-1579`); whatever does not start with `ATTACH` is no statement of this kind. -/
def parseDuckdbAttach (sql : Chars) : Option (Except String AttachSpec) :=
  let trimmed := trimSemicolons (trim sql)
  (stripPrefixCi "ATTACH".toList trimmed).map fun rest => parseTarget u trimmed (skipGuard (trimStart rest))

end

/-! ## Writing -/

/-- Whitespace, perhaps none. -/
abbrev Gap := { s : Chars // s.all isWhitespace = true }

abbrev Space := { s : Chars // s ≠ [] ∧ s.all isWhitespace = true }

/-- A word in any letter case. -/
abbrev Keyword (word : String) := { s : Chars // lower s = word.toList }

def IsOptionName (u : TextTables) (name : Chars) : Prop :=
  (name ≠ [] ∧ name.all (isIdentChar u) = true) ∧ lower name = name ∧
    name ∉ ["type".toList, "location".toList, "path".toList]

/-- What an ATTACH says, however it is laid out. -/
structure AttachStatement (u : TextTables) where
  catalog : Chars
  name : { s : Chars // s ≠ [] ∧ s.all (isIdentChar u) = true }
  location : { s : Chars // s ≠ [] }
  options : List (Chars × Chars)
  optionNames : ∀ option ∈ options, IsOptionName u option.1
  distinct : (options.map (·.1)).Nodup

structure OptionGaps where
  before : Gap
  between : Space
  after : Gap

structure Guard where
  ifWord : Keyword "if"
  afterIf : Space
  notWord : Keyword "not"
  afterNot : Space
  existsWord : Keyword "exists"
  afterExists : Space

/-- Options are told apart by their names, so each has gaps of its own. -/
structure Layout where
  start : Gap
  attachWord : Keyword "attach"
  afterAttach : Space
  guard : Option Guard
  afterCatalog : Space
  asWord : Keyword "as"
  afterAs : Space
  afterName : Gap
  typeWord : Keyword "type"
  vgiWord : Keyword "vgi"
  typeGaps : OptionGaps
  locationWord : Keyword "location"
  locationGaps : OptionGaps
  optionGaps : Chars → OptionGaps
  afterClose : Gap
  semicolon : Bool
  finish : Gap

def Guard.render (g : Guard) : Chars :=
  g.ifWord.1 ++ (g.afterIf.1 ++ (g.notWord.1 ++ (g.afterNot.1 ++ (g.existsWord.1 ++ g.afterExists.1))))

def OptionGaps.render (gaps : OptionGaps) (key raw : Chars) : Chars :=
  gaps.before.1 ++ (key ++ (gaps.between.1 ++ (raw ++ gaps.after.1)))

section
variable {u : TextTables} (a : AttachStatement u) (l : Layout)

/-- The options with their gaps, names and values. -/
def written : List (OptionGaps × Chars × Chars) :=
  (l.typeGaps, l.typeWord.1, l.vgiWord.1) :: (l.locationGaps, l.locationWord.1, sqlString a.location.1) ::
    a.options.map fun option => (l.optionGaps option.1, option.1, sqlString option.2)

def renderedOptions : List Chars := (written a l).map fun option => option.1.render option.2.1 option.2.2

/-- From the catalog to the closing bracket. -/
def renderedTarget : Chars :=
  sqlString a.catalog ++ (l.afterCatalog.1 ++ (l.asWord.1 ++ (l.afterAs.1 ++ (a.name.1 ++ (l.afterName.1 ++
    '(' :: (List.intercalate [','] (renderedOptions a l) ++ [')']))))))

/-- The text of a statement in this layout. -/
def render : Chars :=
  l.start.1 ++ (l.attachWord.1 ++ (l.afterAttach.1 ++ ((l.guard.map Guard.render).getD [] ++ (renderedTarget a l ++
    (l.afterClose.1 ++ ((if l.semicolon then [';'] else []) ++ l.finish.1))))))

/-- What was written, options by what they say. -/
def AttachStatement.ReadAs (spec : AttachSpec) : Prop :=
  spec.catalog = a.catalog ∧ spec.name = a.name.1 ∧ spec.location = a.location.1 ∧
    ∀ name, (spec.options name).map optionString = (a.options.lookup name).map .ok

end

/-! ## Scanning what was written -/

theorem head?_append_of_ne {s : Chars} (h : s ≠ []) (rest : Chars) : (s ++ rest).head? = s.head? := by
  rw [List.head?_append, List.head?_eq_some_head h, Option.some_or]

theorem getLast?_append_of_ne {s : Chars} (h : s ≠ []) (before : Chars) : (before ++ s).getLast? = s.getLast? := by
  rw [List.getLast?_append, List.getLast?_eq_some_getLast h, Option.some_or]

theorem trimStart_of_head {s : Chars} (hs : ∀ c ∈ s.head?, isWhitespace c = false) : trimStart s = s := by
  cases s with
  | nil => rfl
  | cons c s => rw [trimStart, List.dropWhile_cons_of_neg (by simp [hs c rfl])]

theorem trimStart_gap {gap s : Chars} (hgap : gap.all isWhitespace = true) (hs : ∀ c ∈ s.head?, isWhitespace c = false) :
    trimStart (gap ++ s) = s := by
  rw [trimStart, List.dropWhile_append_of_pos (by simpa using hgap), ← trimStart, trimStart_of_head hs]

theorem trimEnd_gap {gap s : Chars} (hgap : gap.all isWhitespace = true) (hs : ∀ c ∈ s.getLast?, isWhitespace c = false) :
    trimEnd (s ++ gap) = s := by
  have hstart : trimStart (gap.reverse ++ s.reverse) = s.reverse :=
    trimStart_gap (by simpa using hgap) (by simpa [List.head?_reverse] using hs)
  rw [trimEnd, List.reverse_append, ← trimStart, hstart, List.reverse_reverse]

/-- Nothing to trim. -/
theorem trim_of_ends {s : Chars} (hhead : ∀ c ∈ s.head?, isWhitespace c = false)
    (hlast : ∀ c ∈ s.getLast?, isWhitespace c = false) : trim s = s := by
  have hend : trimEnd (s ++ []) = s := trimEnd_gap rfl hlast
  rw [List.append_nil] at hend
  rw [trim, trimStart_of_head hhead, hend]

theorem trim_gaps {before s after : Chars} (hbefore : before.all isWhitespace = true) (hafter : after.all isWhitespace = true)
    (hne : s ≠ []) (hhead : ∀ c ∈ s.head?, isWhitespace c = false) (hlast : ∀ c ∈ s.getLast?, isWhitespace c = false) :
    trim (before ++ (s ++ after)) = s := by
  have hhead' : ∀ c ∈ (s ++ after).head?, isWhitespace c = false := by
    rw [head?_append_of_ne hne]
    exact hhead
  rw [trim, trimStart_gap hbefore hhead', trimEnd_gap hafter hlast]

theorem lower_length (s : Chars) : (lower s).length = s.length := List.length_map _

/-- A keyword is read off what starts with it. -/
theorem stripPrefixCi_append {word : Chars} {s : Chars} (h : lower s = lower word) (rest : Chars) :
    stripPrefixCi word (s ++ rest) = some rest := by
  have hlength : word.length = s.length := by rw [← lower_length word, ← h, lower_length]
  rw [stripPrefixCi, hlength, List.take_left, if_pos h, List.drop_left]

theorem quotedBody_append (value : Chars) {rest : Chars} (hrest : rest.head? ≠ some quote) :
    quotedBody (doubled value ++ quote :: rest) = some (value, rest) := by
  induction value with
  | nil =>
    cases rest with
    | nil => rfl
    | cons d rest => simp [doubled, quotedBody, show d ≠ quote by simpa using hrest]
  | cons c value ih =>
    by_cases hc : c = quote
    · have hdoubled : doubled (c :: value) = quote :: quote :: doubled value := by simp [doubled, hc]
      rw [hdoubled, List.cons_append, List.cons_append, quotedBody, if_pos rfl, if_pos rfl, ih, hc]
      rfl
    · have hdoubled : doubled (c :: value) = c :: doubled value := by simp [doubled, hc]
      rw [hdoubled, List.cons_append]
      cases htail : doubled value ++ quote :: rest with
      | nil => simp at htail
      | cons d tail =>
        rw [quotedBody, if_neg hc, ← htail, ih]
        rfl

theorem isWhitespace_quote : isWhitespace quote = false := by decide

theorem takeQuoted_sqlString (value : Chars) {rest : Chars} (hrest : rest.head? ≠ some quote) :
    takeQuoted (sqlString value ++ rest) = some (value, rest) := by
  have htext : sqlString value ++ rest = quote :: (doubled value ++ quote :: rest) := by simp [sqlString]
  rw [takeQuoted, htext, trimStart, List.dropWhile_cons_of_neg (by simp [isWhitespace_quote])]
  simp [quotedBody_append value hrest]

/-! ### Identifiers -/

section
variable {u : TextTables}

theorem isIdentChar_of_whitespace {c : Char} (h : isWhitespace c = true) : isIdentChar u c = false := by
  have hnot : c ≠ '_' ∧ c ≠ '.' := by
    constructor <;> rintro rfl <;> revert h <;> decide
  simp [isIdentChar, u.whitespace c h, hnot]

theorem isIdentChar_ascii {c : Char} (h : c.toNat < 128) :
    isIdentChar u c = (c.isAlphanum || c = '_' || c = '.') := by rw [isIdentChar, u.ascii c h]

theorem not_whitespace_of_isIdentChar {c : Char} (h : isIdentChar u c = true) : isWhitespace c = false := by
  by_contra hwhite
  rw [Bool.not_eq_false] at hwhite
  simp [isIdentChar_of_whitespace hwhite] at h

theorem takeIdent_append {gap name rest : Chars} (hgap : gap.all isWhitespace = true)
    (hname : name ≠ [] ∧ name.all (isIdentChar u) = true) (hrest : ∀ c ∈ rest.head?, isIdentChar u c = false) :
    takeIdent u (gap ++ (name ++ rest)) = (name, rest) := by
  have hall : ∀ c ∈ name, isIdentChar u c = true := List.all_eq_true.1 hname.2
  have hstart : trimStart (gap ++ (name ++ rest)) = name ++ rest := by
    refine trimStart_gap hgap fun c hc => ?_
    rw [head?_append_of_ne hname.1] at hc
    exact not_whitespace_of_isIdentChar (hall c (List.mem_of_mem_head? hc))
  rw [takeIdent, hstart, List.takeWhile_append_of_pos hall, List.dropWhile_append_of_pos hall]
  cases rest with
  | nil => simp
  | cons c rest => simp [hrest c rfl]

/-! ### Keywords -/

theorem ascii_of_toLower {c : Char} (h : c.toLower.isLower = true) : c.toNat < 128 ∧ c.isAlphanum = true := by
  by_cases hupper : 'A'.val ≤ c.val ∧ c.val ≤ 'Z'.val
  · have hle : c.val ≤ 'Z'.val := hupper.2
    have hisUpper : c.isUpper = true := by
      delta Char.isUpper
      simpa using hupper
    have : c.toNat ≤ 90 := hle
    refine ⟨by omega, ?_⟩
    delta Char.isAlphanum Char.isAlpha
    simp [hisUpper]
  · have hsame : c.toLower = c := by
      delta Char.toLower
      rw [dif_neg hupper]
    rw [hsame] at h
    have hle : c.val ≤ 'z'.val := by
      delta Char.isLower at h
      simp only [Bool.and_eq_true, decide_eq_true_eq] at h
      exact h.2
    have : c.toNat ≤ 122 := hle
    refine ⟨by omega, ?_⟩
    delta Char.isAlphanum Char.isAlpha
    simp [h]

theorem toLower_of_whitespace {c : Char} (h : isWhitespace c = true) : c.toLower = c := by
  have hrange : c.toNat < 65 ∨ 90 < c.toNat := by
    simp [isWhitespace] at h
    omega
  exact toLower_eq_self hrange

/-- Keywords are identifiers. -/
theorem ident_of_keyword {word : String} (hne : word.toList ≠ []) (hword : word.toList.all Char.isLower = true)
    (k : Keyword word) : k.1 ≠ [] ∧ k.1.all (isIdentChar u) = true := by
  have hlower : ∀ c ∈ k.1, c.toLower.isLower = true := by
    intro c hc
    have hmem : c.toLower ∈ word.toList := by
      rw [← k.2]
      exact List.mem_map_of_mem hc
    exact List.all_eq_true.1 hword _ hmem
  refine ⟨?_, List.all_eq_true.2 fun c hc => ?_⟩
  · intro hnil
    have hlength := lower_length k.1
    rw [k.2, hnil] at hlength
    exact hne (List.eq_nil_of_length_eq_zero hlength)
  · obtain ⟨hascii, halphanum⟩ := ascii_of_toLower (hlower c hc)
    rw [isIdentChar_ascii hascii, halphanum]
    rfl

end

/-! ### Splitting at commas -/

/-- A character that only moves the scan on. -/
def Quiet (c : Char) : Prop := c ∉ [quote, doubleQuote, '(', '[', '{', ')', ']', '}', ',']

theorem quiet_of_whitespace {c : Char} (h : isWhitespace c = true) : Quiet c := by
  intro hc
  have hnone : [quote, doubleQuote, '(', '[', '{', ')', ']', '}', ','].all (!isWhitespace ·) = true := by decide
  simpa [h] using List.all_eq_true.1 hnone c hc

theorem quiet_of_isIdentChar {u : TextTables} {c : Char} (h : isIdentChar u c = true) : Quiet c := by
  intro hc
  have hnone : [quote, doubleQuote, '(', '[', '{', ')', ']', '}', ','].all
      (fun d => d.toNat < 128 && !(d.isAlphanum || d = '_' || d = '.')) = true := by decide
  have hascii := List.all_eq_true.1 hnone c hc
  rw [Bool.and_eq_true, decide_eq_true_iff, Bool.not_eq_true'] at hascii
  rw [isIdentChar_ascii hascii.1, hascii.2] at h
  cases h

theorem foldr_extend (part : Chars) (parts : List Chars) : part.foldr extend ([] :: parts) = part :: parts := by
  induction part with
  | nil => rfl
  | cons c part ih => rw [List.foldr_cons, ih, extend]

theorem split_quiet {part : Chars} (hpart : ∀ c ∈ part, Quiet c) (rest : Chars) :
    splitTopLevelCommas none 0 (part ++ rest) = part.foldr extend (splitTopLevelCommas none 0 rest) := by
  induction part with
  | nil => rfl
  | cons c part ih =>
    have hc : Quiet c := hpart c List.mem_cons_self
    simp only [Quiet, List.mem_cons, List.not_mem_nil, or_false, not_or] at hc
    rw [List.cons_append, splitTopLevelCommas, ih fun d hd => hpart d (List.mem_cons_of_mem c hd)]
    simp [hc]

/-- Inside of the quotes, up to the closing one. -/
theorem split_doubled (value : Chars) {rest : Chars} (hrest : rest.head? ≠ some quote) :
    splitTopLevelCommas (some quote) 0 (doubled value ++ quote :: rest) =
      (doubled value ++ [quote]).foldr extend (splitTopLevelCommas none 0 rest) := by
  have hmark : quote ≠ doubleQuote := by decide
  induction value with
  | nil =>
    cases rest with
    | nil => rfl
    | cons d rest => simp [doubled, splitTopLevelCommas, show d ≠ quote by simpa using hrest]
  | cons c value ih =>
    by_cases hc : c = quote
    · have hdoubled : doubled (c :: value) = quote :: quote :: doubled value := by simp [doubled, hc]
      rw [hdoubled, List.cons_append, List.cons_append, splitTopLevelCommas, if_pos rfl, if_pos rfl, ih]
      rfl
    · have hdoubled : doubled (c :: value) = c :: doubled value := by simp [doubled, hc]
      rw [hdoubled, List.cons_append, List.cons_append, List.foldr_cons, ← ih]
      cases htail : doubled value ++ quote :: rest with
      | nil => simp at htail
      | cons d tail => simp [splitTopLevelCommas, hc, hmark]

theorem split_sqlString (value : Chars) {rest : Chars} (hrest : rest.head? ≠ some quote) :
    splitTopLevelCommas none 0 (sqlString value ++ rest) =
      (sqlString value).foldr extend (splitTopLevelCommas none 0 rest) := by
  have htext : sqlString value ++ rest = quote :: (doubled value ++ quote :: rest) := by simp [sqlString]
  rw [htext, splitTopLevelCommas, if_pos (.inl rfl), split_doubled value hrest, sqlString, List.cons_append,
    List.foldr_cons]

/-- A part that the scan goes over without splitting it. -/
def IsPart (part : Chars) : Prop :=
  ∀ rest : Chars, rest.head? ≠ some quote →
    splitTopLevelCommas none 0 (part ++ rest) = part.foldr extend (splitTopLevelCommas none 0 rest)

theorem split_intercalate : ∀ {parts : List Chars}, parts ≠ [] → (∀ part ∈ parts, IsPart part) →
    splitTopLevelCommas none 0 (List.intercalate [','] parts) = parts
  | [part], _, h => by
    have hend := h part (by simp) [] (by simp)
    rw [List.append_nil] at hend
    rw [List.intercalate_singleton, hend, splitTopLevelCommas, foldr_extend]
  | part :: next :: parts, _, h => by
    have hrest := split_intercalate (List.cons_ne_nil next parts) fun p hp => h p (List.mem_cons_of_mem part hp)
    have hcomma : splitTopLevelCommas none 0 (',' :: List.intercalate [','] (next :: parts)) = [] :: next :: parts := by
      rw [splitTopLevelCommas, hrest]
      simp [show ',' ≠ quote by decide, show ',' ≠ doubleQuote by decide]
    rw [List.intercalate_cons_cons, List.append_assoc, List.singleton_append,
      h part List.mem_cons_self (',' :: List.intercalate [','] (next :: parts)) (by simp; decide), hcomma, foldr_extend]

/-! ### Options -/

section
variable {u : TextTables}

/-- A value as it stands in the list. -/
structure IsRaw (raw : Chars) : Prop where
  ne : raw ≠ []
  head : ∀ c ∈ raw.head?, isWhitespace c = false ∧ c ≠ ':' ∧ c ≠ '='
  last : ∀ c ∈ raw.getLast?, isWhitespace c = false
  part : IsPart raw

theorem isRaw_sqlString (value : Chars) : IsRaw (sqlString value) where
  ne := by simp [sqlString]
  head := by
    intro c hc
    obtain rfl : quote = c := by simpa [sqlString] using hc
    decide
  last := by
    intro c hc
    rw [sqlString, List.getLast?_concat] at hc
    obtain rfl : quote = c := by simpa using hc
    decide
  part := fun _ => split_sqlString value

theorem isRaw_ident {name : Chars} (hname : name ≠ [] ∧ name.all (isIdentChar u) = true) : IsRaw name := by
  have hall : ∀ c ∈ name, isIdentChar u c = true := List.all_eq_true.1 hname.2
  have hnot : ∀ c ∈ [':', '='], isIdentChar u c = false := by
    intro c hc
    have hnone : [':', '='].all (fun d => d.toNat < 128 && !(d.isAlphanum || d = '_' || d = '.')) = true := by decide
    have hascii := List.all_eq_true.1 hnone c hc
    rw [Bool.and_eq_true, decide_eq_true_iff, Bool.not_eq_true'] at hascii
    rw [isIdentChar_ascii hascii.1, hascii.2]
  refine ⟨hname.1, fun c hc => ?_, fun c hc => ?_, fun rest _ => split_quiet (fun c hc => quiet_of_isIdentChar (hall c hc)) rest⟩
  · have hc := hall c (List.mem_of_mem_head? hc)
    refine ⟨not_whitespace_of_isIdentChar hc, ?_, ?_⟩ <;> rintro rfl <;> simp [hnot] at hc
  · exact not_whitespace_of_isIdentChar (hall c (List.mem_of_mem_getLast? hc))

theorem head?_gap {gap rest : Chars} (hgap : gap.all isWhitespace = true) {p : Char → Prop}
    (hwhite : ∀ c, isWhitespace c = true → p c) (hrest : ∀ c ∈ rest.head?, p c) : ∀ c ∈ (gap ++ rest).head?, p c := by
  intro c hc
  cases gap with
  | nil => exact hrest c hc
  | cons d gap =>
    obtain rfl : d = c := by simpa using hc
    exact hwhite d (by simpa using (List.all_eq_true.1 hgap) d List.mem_cons_self)

theorem isPart_render (gaps : OptionGaps) {key raw : Chars} (hkey : key.all (isIdentChar u) = true) (hraw : IsRaw raw) :
    IsPart (gaps.render key raw) := by
  have hquiet : ∀ {gap : Chars}, gap.all isWhitespace = true → ∀ c ∈ gap, Quiet c := fun hgap c hc =>
    quiet_of_whitespace (List.all_eq_true.1 hgap c hc)
  intro rest hrest
  have hafter : (gaps.after.1 ++ rest).head? ≠ some quote := by
    intro hhead
    refine head?_gap (p := (· ≠ quote)) gaps.after.2 ?_ (fun c hc => ?_) quote hhead rfl
    · rintro c hc rfl
      simp [isWhitespace_quote] at hc
    · rintro rfl
      exact hrest hc
  simp only [OptionGaps.render, List.append_assoc, List.foldr_append]
  rw [split_quiet (hquiet gaps.before.2), split_quiet fun c hc => quiet_of_isIdentChar (List.all_eq_true.1 hkey c hc),
    split_quiet (hquiet gaps.between.2.2), hraw.part _ hafter, split_quiet (hquiet gaps.after.2)]

theorem readOption_render (gaps : OptionGaps) {key raw : Chars} (hkey : key ≠ [] ∧ key.all (isIdentChar u) = true)
    (hraw : IsRaw raw) (options : Chars → Option Chars) :
    readOption u options (gaps.render key raw) = .ok (Function.update options (lower key) (some raw)) := by
  have hall : ∀ c ∈ key, isIdentChar u c = true := List.all_eq_true.1 hkey.2
  have htrim : trim (gaps.render key raw) = key ++ (gaps.between.1 ++ raw) := by
    have hshape : gaps.render key raw = gaps.before.1 ++ ((key ++ (gaps.between.1 ++ raw)) ++ gaps.after.1) := by
      simp [OptionGaps.render]
    rw [hshape]
    refine trim_gaps gaps.before.2 gaps.after.2 (by simp [hkey.1]) (fun c hc => ?_) fun c hc => ?_
    · rw [head?_append_of_ne hkey.1] at hc
      exact not_whitespace_of_isIdentChar (hall c (List.mem_of_mem_head? hc))
    · rw [← List.append_assoc, getLast?_append_of_ne hraw.ne] at hc
      exact hraw.last c hc
  have hident : takeIdent u (key ++ (gaps.between.1 ++ raw)) = (key, gaps.between.1 ++ raw) := by
    refine @takeIdent_append u [] key (gaps.between.1 ++ raw) rfl hkey fun c hc => ?_
    rw [head?_append_of_ne gaps.between.2.1] at hc
    exact isIdentChar_of_whitespace (List.all_eq_true.1 gaps.between.2.2 c (List.mem_of_mem_head? hc))
  have hvalue : trimStart (gaps.between.1 ++ raw) = raw := trimStart_gap gaps.between.2.2 fun c hc => (hraw.head c hc).1
  have hraw' : trim raw = raw :=
    trim_of_ends (fun c hc => (hraw.head c hc).1) hraw.last
  have hassign : stripPrefix [':', '='] raw = none ∧ stripPrefix ['='] raw = none := by
    cases raw with
    | nil => exact absurd rfl hraw.ne
    | cons c raw =>
      have hc := (hraw.head c rfl).2
      simp [stripPrefix, hc.1, hc.2]
  simp [readOption, htrim, hident, hvalue, hassign, hraw', hkey.1, hraw.ne]

theorem isOptionWord {word : String} (hword : word ∈ ["type", "vgi", "location"]) (k : Keyword word) :
    k.1 ≠ [] ∧ k.1.all (isIdentChar u) = true := by
  have hall : ∀ word ∈ ["type", "vgi", "location"], word.toList ≠ [] ∧ word.toList.all Char.isLower = true := by decide
  exact ident_of_keyword (hall word hword).1 (hall word hword).2 k

variable (a : AttachStatement u) (l : Layout)

theorem written_raw : ∀ option ∈ written a l,
    (option.2.1 ≠ [] ∧ option.2.1.all (isIdentChar u) = true) ∧ IsRaw option.2.2 := by
  intro option hoption
  simp only [written, List.mem_cons, List.mem_map] at hoption
  rcases hoption with rfl | rfl | ⟨pair, hpair, rfl⟩
  · exact ⟨isOptionWord (by decide) _, isRaw_ident (u := u) (isOptionWord (by decide) l.vgiWord)⟩
  · exact ⟨isOptionWord (by decide) _, isRaw_sqlString _⟩
  · exact ⟨(a.optionNames pair hpair).1, isRaw_sqlString _⟩

/-- The options as they are read: the last of a name. -/
def readWritten (entries : List (OptionGaps × Chars × Chars)) : (Chars → Option Chars) → Chars → Option Chars :=
  fun options => entries.foldl (fun options entry => Function.update options (lower entry.2.1) (some entry.2.2)) options

theorem foldlM_readOption {entries : List (OptionGaps × Chars × Chars)}
    (h : ∀ entry ∈ entries, (entry.2.1 ≠ [] ∧ entry.2.1.all (isIdentChar u) = true) ∧ IsRaw entry.2.2)
    (options : Chars → Option Chars) :
    (entries.map fun entry => entry.1.render entry.2.1 entry.2.2).foldlM (readOption u) options =
      .ok (readWritten entries options) := by
  induction entries generalizing options with
  | nil => rfl
  | cons entry entries ih =>
    have hentry := h entry List.mem_cons_self
    rw [List.map_cons, List.foldlM_cons, readOption_render entry.1 hentry.1 hentry.2]
    exact ih (fun e he => h e (List.mem_cons_of_mem entry he)) _

theorem stripSuffix_append (c : Char) (s : Chars) : stripSuffix c (s ++ [c]) = some s := by
  simp [stripSuffix]

theorem readOptions_rendered : readOptions u ('(' :: (List.intercalate [','] (renderedOptions a l) ++ [')'])) =
    .ok (readWritten (written a l) fun _ => none) := by
  have hparts : ∀ part ∈ renderedOptions a l, IsPart part := by
    intro part hpart
    obtain ⟨entry, hentry, rfl⟩ := List.mem_map.1 hpart
    obtain ⟨hkey, hraw⟩ := written_raw a l entry hentry
    exact isPart_render entry.1 hkey.2 hraw
  have hne : renderedOptions a l ≠ [] := by simp [renderedOptions, written]
  have hopen : ∀ s : Chars, stripPrefix ['('] ('(' :: s) = some s := by simp [stripPrefix]
  rw [readOptions, hopen, Option.bind_some, stripSuffix_append]
  dsimp only
  rw [split_intercalate hne hparts, renderedOptions, foldlM_readOption (written_raw a l)]

/-- Nothing may follow the bracket. -/
theorem readOptions_trailing (inner : Chars) {left : Chars} (hne : left ≠ []) (hleft : left.all isWhitespace = true) :
    ∃ e, readOptions u ('(' :: (inner ++ ')' :: left)) = .error e := by
  have hopen : ∀ s : Chars, stripPrefix ['('] ('(' :: s) = some s := by simp [stripPrefix]
  have hlast : (inner ++ ')' :: left).getLast? ≠ some ')' := by
    rw [getLast?_append_of_ne (by simp), List.getLast?_cons_of_ne_nil hne]
    intro hlast
    have hwhite := List.all_eq_true.1 hleft ')' (List.mem_of_mem_getLast? hlast)
    revert hwhite
    decide
  rw [readOptions, hopen, Option.bind_some, stripSuffix, if_neg hlast]
  exact ⟨_, rfl⟩

theorem readWritten_options (name : Chars) (options : Chars → Option Chars) {pairs : List (Chars × Chars)}
    (hlower : ∀ pair ∈ pairs, lower pair.1 = pair.1) (hdistinct : (pairs.map (·.1)).Nodup) :
    readWritten (pairs.map fun pair => (l.optionGaps pair.1, pair.1, sqlString pair.2)) options name =
      ((pairs.lookup name).map sqlString).or (options name) := by
  induction pairs generalizing options with
  | nil => rfl
  | cons pair pairs ih =>
    obtain ⟨key, value⟩ := pair
    rw [List.map_cons, List.nodup_cons] at hdistinct
    have hkey : lower key = key := hlower (key, value) List.mem_cons_self
    rw [List.map_cons, readWritten, List.foldl_cons, ← readWritten,
      ih _ (fun p hp => hlower p (List.mem_cons_of_mem _ hp)) hdistinct.2]
    by_cases hname : name = key
    · have hnone : pairs.lookup name = none := by
        rw [List.lookup_eq_none_iff]
        intro p hp
        have : p.1 ≠ key := fun heq => hdistinct.1 (List.mem_map.2 ⟨p, hp, heq⟩)
        simpa [hname] using this.symm
      rw [hnone, hname, List.lookup_cons_self, hkey, Function.update_self]
      rfl
    · have hskip : ((key, value) :: pairs).lookup name = pairs.lookup name := by
        rw [List.lookup_cons, beq_false_of_ne hname]
      rw [hskip, hkey, Function.update_of_ne hname]

/-- The options of the whole list. -/
theorem readWritten_written (name : Chars) : readWritten (written a l) (fun _ => none) name =
    ((a.options.lookup name).map sqlString).or
      (Function.update (Function.update (fun _ => none) "type".toList (some l.vgiWord.1)) "location".toList
        (some (sqlString a.location.1)) name) := by
  rw [written, readWritten, List.foldl_cons, List.foldl_cons, ← readWritten,
    readWritten_options l name _ (fun pair hpair => (a.optionNames pair hpair).2.1) a.distinct, l.typeWord.2, l.locationWord.2]

theorem lookup_reserved {name : Chars} (hname : name ∈ ["type".toList, "location".toList, "path".toList]) :
    a.options.lookup name = none := by
  rw [List.lookup_eq_none_iff]
  intro pair hpair
  have hother := (a.optionNames pair hpair).2.2
  rw [bne_iff_ne]
  rintro rfl
  exact hother hname

/-- A bare word stands for itself. -/
theorem optionString_ident {word : Chars} (hword : word ≠ [] ∧ word.all (isIdentChar u) = true) :
    optionString word = .ok word := by
  have hraw : IsRaw word := isRaw_ident hword
  have htrim : trim word = word :=
    trim_of_ends (fun c hc => (hraw.head c hc).1) hraw.last
  have hmark : ∀ mark ∈ [quote, doubleQuote], word.head? ≠ some mark := by
    intro mark hmark hhead
    have hquiet := quiet_of_isIdentChar (List.all_eq_true.1 hword.2 mark (List.mem_of_mem_head? hhead))
    simp only [List.mem_cons, List.not_mem_nil, or_false] at hmark
    rcases hmark with rfl | rfl <;> exact hquiet (by decide)
  rw [optionString, htrim, if_neg (hmark quote (by decide)), if_neg fun h => hmark doubleQuote (by decide) h.1]

/-- What is made of the options of a rendered statement. -/
theorem locate_written (catalog name : Chars) : ∃ options,
    (do locate u catalog name (← dropType u (readWritten (written a l) fun _ => none))) =
      .ok { catalog, name, location := a.location.1, options } ∧
    ∀ name, (options name).map optionString = (a.options.lookup name).map .ok := by
  have hread := readWritten_written a l
  generalize readWritten (written a l) (fun _ => none) = options at hread ⊢
  have hlt : "type".toList ≠ "location".toList := by decide
  have htype : options "type".toList = some l.vgiWord.1 := by
    rw [hread, lookup_reserved a (by decide), Option.map_none, Option.none_or, Function.update_of_ne hlt, Function.update_self]
  have hlocation : options "location".toList = some (sqlString a.location.1) := by
    rw [hread, lookup_reserved a (by decide), Option.map_none, Option.none_or, Function.update_self]
  have hdrop : dropType u options = .ok (Function.update options "type".toList none) := by
    rw [dropType, htype]
    dsimp only
    rw [optionString_ident (u := u) (isOptionWord (by decide) l.vgiWord)]
    exact if_pos l.vgiWord.2
  have htake : takeLocation (Function.update options "type".toList none) = some (sqlString a.location.1,
      Function.update (Function.update options "type".toList none) "location".toList none) := by
    rw [takeLocation, Function.update_of_ne hlt.symm, hlocation]
  refine ⟨Function.update (Function.update options "type".toList none) "location".toList none, ?_, fun name => ?_⟩
  · rw [hdrop]
    change locate u catalog _ _ = _
    rw [locate, htake]
    dsimp only
    rw [optionString_sqlString]
    have hne : a.location.1.isEmpty = false := by simpa using a.location.2
    change (if a.location.1.isEmpty = true then _ else _) = _
    rw [hne, if_neg (by decide)]
  · by_cases hl : name = "location".toList
    · rw [hl, Function.update_self, lookup_reserved a (by decide)]
      rfl
    · by_cases ht : name = "type".toList
      · rw [Function.update_of_ne hl, ht, Function.update_self, lookup_reserved a (by decide)]
        rfl
      · rw [Function.update_of_ne hl, Function.update_of_ne ht, hread, Function.update_of_ne hl, Function.update_of_ne ht,
          Option.or_none, Option.map_map]
        exact congrArg (Option.map · _) (funext optionString_sqlString)

/-! ### The statement -/

/-- A word read at its front. -/
theorem trimStart_word {gap word rest : Chars} (hgap : gap.all isWhitespace = true)
    (hword : word ≠ [] ∧ word.all (isIdentChar u) = true) : trimStart (gap ++ (word ++ rest)) = word ++ rest := by
  refine trimStart_gap hgap fun c hc => ?_
  rw [head?_append_of_ne hword.1] at hc
  exact not_whitespace_of_isIdentChar (List.all_eq_true.1 hword.2 c (List.mem_of_mem_head? hc))

theorem parseTarget_rendered (trimmed left : Chars) : parseTarget u trimmed (renderedTarget a l ++ left) =
    (readOptions u ('(' :: (List.intercalate [','] (renderedOptions a l) ++ ')' :: left)) >>= fun options => do
      locate u a.catalog a.name.1 (← dropType u options)) := by
  have hquote : ∀ rest : Chars, (l.afterCatalog.1 ++ rest).head? ≠ some quote := by
    intro rest hhead
    rw [head?_append_of_ne l.afterCatalog.2.1] at hhead
    have hwhite := List.all_eq_true.1 l.afterCatalog.2.2 quote (List.mem_of_mem_head? hhead)
    simp [isWhitespace_quote] at hwhite
  have hbracket : ∀ c ∈ (l.afterName.1 ++ '(' :: (List.intercalate [','] (renderedOptions a l) ++ ')' :: left)).head?,
      isIdentChar u c = false := by
    refine head?_gap l.afterName.2 (fun c => isIdentChar_of_whitespace) fun c hc => ?_
    obtain rfl : '(' = c := by simpa using hc
    rw [isIdentChar_ascii (by decide)]
    decide
  have has : l.asWord.1 ≠ [] ∧ l.asWord.1.all (isIdentChar u) = true := ident_of_keyword (by decide) (by decide) l.asWord
  have hname := takeIdent_append l.afterAs.2.2 a.name.2 hbracket
  have hopen : trimStart (l.afterName.1 ++ '(' :: (List.intercalate [','] (renderedOptions a l) ++ ')' :: left)) =
      '(' :: (List.intercalate [','] (renderedOptions a l) ++ ')' :: left) := by
    refine trimStart_gap l.afterName.2 fun c hc => ?_
    obtain rfl : '(' = c := by simpa using hc
    decide
  have hshape : renderedTarget a l ++ left = sqlString a.catalog ++ (l.afterCatalog.1 ++ (l.asWord.1 ++
      (l.afterAs.1 ++ (a.name.1 ++ (l.afterName.1 ++
        '(' :: (List.intercalate [','] (renderedOptions a l) ++ ')' :: left)))))) := by
    simp [renderedTarget]
  have hempty : a.name.1.isEmpty = false := by simpa using a.name.2.1
  rw [hshape, parseTarget, takeQuoted_sqlString _ (hquote _)]
  dsimp only
  rw [readName, trimStart_word l.afterCatalog.2.2 has, stripPrefixCi_append (l.asWord.2.trans (by decide))]
  dsimp only
  rw [hname, hempty, if_neg (by decide)]
  dsimp only
  rw [hopen]

/-- Up to the semicolon, if that is where the whitespace stands; what is left of it. -/
def Layout.left : Chars := if l.semicolon then l.afterClose.1 else []

theorem Layout.left_all : l.left.all isWhitespace = true := by
  rw [Layout.left]
  split
  · exact l.afterClose.2
  · rfl

theorem trimSemicolons_of_last {s : Chars} (h : s.getLast? ≠ some ';') : trimSemicolons s = s := by
  rw [trimSemicolons]
  cases hreverse : s.reverse with
  | nil => simpa using hreverse
  | cons c rest =>
    have hlast : c ≠ ';' := by
      rintro rfl
      rw [List.getLast?_eq_head?_reverse, hreverse] at h
      exact h rfl
    rw [List.dropWhile_cons_of_neg (by simpa using hlast), ← hreverse, List.reverse_reverse]

theorem trimSemicolons_append (s : Chars) : trimSemicolons (s ++ [';']) = trimSemicolons s := by
  simp [trimSemicolons]

theorem trimmed_render : trimSemicolons (trim (render a l)) =
    l.attachWord.1 ++ (l.afterAttach.1 ++ ((l.guard.map Guard.render).getD [] ++ (renderedTarget a l ++ l.left))) := by
  have hattach : l.attachWord.1 ≠ [] ∧ l.attachWord.1.all (isIdentChar u) = true :=
    ident_of_keyword (by decide) (by decide) l.attachWord
  have hhead : ∀ rest : Chars, ∀ c ∈ (l.attachWord.1 ++ rest).head?, isWhitespace c = false := by
    intro rest c hc
    rw [head?_append_of_ne hattach.1] at hc
    exact not_whitespace_of_isIdentChar (List.all_eq_true.1 hattach.2 c (List.mem_of_mem_head? hc))
  obtain ⟨inner, hinner⟩ : ∃ inner, renderedTarget a l = inner ++ [')'] :=
    ⟨sqlString a.catalog ++ (l.afterCatalog.1 ++ (l.asWord.1 ++ (l.afterAs.1 ++ (a.name.1 ++ (l.afterName.1 ++
      '(' :: List.intercalate [','] (renderedOptions a l)))))), by simp [renderedTarget]⟩
  -- the text up to the closing bracket
  obtain ⟨command, hcommand⟩ : ∃ command, ∀ rest, l.attachWord.1 ++ (l.afterAttach.1 ++
      ((l.guard.map Guard.render).getD [] ++ (renderedTarget a l ++ rest))) = l.attachWord.1 ++ (command ++ ')' :: rest) :=
    ⟨l.afterAttach.1 ++ ((l.guard.map Guard.render).getD [] ++ inner), fun rest => by simp [hinner]⟩
  rw [render, hcommand, hcommand]
  by_cases hsemicolon : l.semicolon
  · have hshape : l.start.1 ++ (l.attachWord.1 ++ (command ++ ')' :: (l.afterClose.1 ++
        ((if l.semicolon then [';'] else []) ++ l.finish.1)))) =
        l.start.1 ++ ((l.attachWord.1 ++ (command ++ ')' :: (l.afterClose.1 ++ [';']))) ++ l.finish.1) := by
      simp [hsemicolon]
    have hsplit : l.attachWord.1 ++ (command ++ ')' :: (l.afterClose.1 ++ [';'])) =
        (l.attachWord.1 ++ (command ++ ')' :: l.afterClose.1)) ++ [';'] := by simp
    have hlast : (l.attachWord.1 ++ (command ++ ')' :: l.afterClose.1)).getLast? ≠ some ';' := by
      rw [← List.append_assoc, getLast?_append_of_ne (by simp)]
      intro hlast
      have hmem := List.mem_of_mem_getLast? hlast
      simp only [List.mem_cons] at hmem
      rcases hmem with hmem | hmem
      · revert hmem
        decide
      · have hwhite := List.all_eq_true.1 l.afterClose.2 ';' hmem
        revert hwhite
        decide
    rw [hshape, trim_gaps l.start.2 l.finish.2 (by simp) (hhead _) (by rw [hsplit, List.getLast?_concat]; simp; decide), hsplit,
      trimSemicolons_append, trimSemicolons_of_last hlast, Layout.left, if_pos hsemicolon]
  · have hshape : l.start.1 ++ (l.attachWord.1 ++ (command ++ ')' :: (l.afterClose.1 ++
        ((if l.semicolon then [';'] else []) ++ l.finish.1)))) =
        l.start.1 ++ (((l.attachWord.1 ++ command) ++ [')']) ++ (l.afterClose.1 ++ l.finish.1)) := by
      simp [hsemicolon]
    have hgap : (l.afterClose.1 ++ l.finish.1).all isWhitespace = true := by
      rw [List.all_append, l.afterClose.2, l.finish.2]
      rfl
    rw [hshape, trim_gaps l.start.2 hgap (by simp) (by rw [List.append_assoc]; exact hhead _)
      (by rw [List.getLast?_concat]; simp; decide), trimSemicolons_of_last (by rw [List.getLast?_concat]; decide), Layout.left,
      if_neg hsemicolon, List.append_assoc]

/-! ### IF NOT EXISTS -/

/-- One blank between the words of the guard. -/
def Guard.SingleSpaced (g : Guard) : Prop := g.afterIf.1 = [' '] ∧ g.afterNot.1 = [' ']

theorem lower_whitespace {gap : Chars} (h : gap.all isWhitespace = true) : lower gap = gap := by
  refine (List.map_congr_left fun c hc => ?_).trans (List.map_id gap)
  exact toLower_of_whitespace (List.all_eq_true.1 h c hc)

/-- Whitespace before a word matches a single space before it only as that space. -/
theorem single_of_take {gap rest word : Chars} {c : Char} {n : Nat} (hgap : gap ≠ [] ∧ gap.all isWhitespace = true)
    (hc : isWhitespace c = false) (h : (gap ++ rest).take (n + 2) = ' ' :: c :: word) :
    gap = [' '] ∧ rest.take (n + 1) = c :: word := by
  match gap, hgap with
  | [w], _ =>
    rw [List.singleton_append, List.take_succ_cons, List.cons.injEq] at h
    exact ⟨by rw [h.1], h.2⟩
  | w :: v :: gap, hgap =>
    simp only [List.cons_append, List.take_succ_cons, List.cons.injEq] at h
    have hv := List.all_eq_true.1 hgap.2 v (by simp)
    rw [h.2.1, hc] at hv
    cases hv

theorem lower_guard (g : Guard) (rest : Chars) : lower (g.render ++ rest) =
    'i' :: 'f' :: (g.afterIf.1 ++ ('n' :: 'o' :: 't' :: (g.afterNot.1 ++ ("exists".toList ++ lower (g.afterExists.1 ++ rest))))) := by
  simp only [Guard.render, List.append_assoc, lower_append, g.ifWord.2, g.notWord.2, g.existsWord.2,
    lower_whitespace g.afterIf.2.2, lower_whitespace g.afterNot.2.2]
  rfl

theorem stripPrefixCi_guard_iff (g : Guard) (rest : Chars) :
    lower ((g.render ++ rest).take 13) = lower "IF NOT EXISTS".toList ↔ g.SingleSpaced := by
  have htake : lower ((g.render ++ rest).take 13) = (lower (g.render ++ rest)).take 13 := List.map_take
  have hword : lower "IF NOT EXISTS".toList = 'i' :: 'f' :: ' ' :: 'n' :: 'o' :: 't' :: ' ' :: "exists".toList := by decide
  rw [htake, lower_guard, hword]
  constructor
  · intro h
    rw [List.take_succ_cons, List.take_succ_cons, List.cons.injEq, List.cons.injEq] at h
    obtain ⟨hif, h⟩ := single_of_take g.afterIf.2 (by decide) h.2.2
    rw [List.take_succ_cons, List.take_succ_cons, List.take_succ_cons, List.cons.injEq, List.cons.injEq, List.cons.injEq] at h
    exact ⟨hif, (single_of_take g.afterNot.2 (by decide) h.2.2.2).1⟩
  · rintro ⟨hif, hnot⟩
    rw [hif, hnot]
    rfl

theorem guard_head (g : Guard) (rest : Chars) :
    ∃ c tail, g.render ++ rest = c :: tail ∧ isWhitespace c = false ∧ c ≠ quote := by
  have hlower : lower g.ifWord.1 = ['i', 'f'] := g.ifWord.2
  cases hword : g.ifWord.1 with
  | nil => simp [hword, lower] at hlower
  | cons c word =>
    rw [hword, lower, List.map_cons, List.cons.injEq] at hlower
    refine ⟨c, _, by rw [Guard.render, hword]; rfl, ?_, ?_⟩
    · by_contra hwhite
      rw [Bool.not_eq_false] at hwhite
      rw [toLower_of_whitespace hwhite] at hlower
      rw [hlower.1] at hwhite
      revert hwhite
      decide
    · rintro rfl
      exact absurd hlower.1 (by decide)

theorem skipGuard_of_ne {s : Chars} (h : lower (s.take 13) ≠ lower "IF NOT EXISTS".toList) : skipGuard s = s := by
  have hnone : stripPrefixCi "IF NOT EXISTS".toList s = none := if_neg h
  rw [skipGuard, hnone]
  rfl

theorem skipGuard_of_eq {s : Chars} (h : lower (s.take 13) = lower "IF NOT EXISTS".toList) :
    skipGuard s = trimStart (s.drop 13) := by
  have hsome : stripPrefixCi "IF NOT EXISTS".toList s = some (s.drop 13) := if_pos h
  rw [skipGuard, hsome]
  rfl

theorem target_head (left : Chars) : ∃ tail, renderedTarget a l ++ left = quote :: tail :=
  ⟨_, by rw [renderedTarget, sqlString]; rfl⟩

/-- What the guard is taken for, if it is there. -/
theorem skipGuard_render (left : Chars) (hspaced : ∀ g ∈ l.guard, g.SingleSpaced) :
    skipGuard (trimStart (l.afterAttach.1 ++ ((l.guard.map Guard.render).getD [] ++ (renderedTarget a l ++ left)))) =
      renderedTarget a l ++ left := by
  obtain ⟨tail, htail⟩ := target_head a l left
  have hstart : ∀ {gap : Chars}, gap.all isWhitespace = true → trimStart (gap ++ quote :: tail) = quote :: tail := fun hgap =>
    trimStart_gap hgap fun c hc => by
      obtain rfl : quote = c := by simpa using hc
      exact isWhitespace_quote
  rw [htail]
  cases hguard : l.guard with
  | none =>
    have hword : lower ((quote :: tail).take 13) ≠ lower "IF NOT EXISTS".toList := by
      rw [List.take_succ_cons]
      intro h
      exact absurd (List.cons.inj h).1 (by decide)
    change skipGuard (trimStart (l.afterAttach.1 ++ quote :: tail)) = _
    rw [hstart l.afterAttach.2.2, skipGuard_of_ne hword]
  | some g =>
    obtain ⟨c, rest, hhead, hwhite, -⟩ := guard_head g (quote :: tail)
    have htrim : trimStart (l.afterAttach.1 ++ (g.render ++ quote :: tail)) = g.render ++ quote :: tail :=
      trimStart_gap l.afterAttach.2.2 fun d hd => by
        rw [hhead] at hd
        obtain rfl : c = d := by simpa using hd
        exact hwhite
    have hword := (stripPrefixCi_guard_iff g (quote :: tail)).2 (hspaced g hguard)
    have hdrop : (g.render ++ quote :: tail).drop 13 = g.afterExists.1 ++ quote :: tail := by
      have hlength : 13 = (g.ifWord.1 ++ (g.afterIf.1 ++ (g.notWord.1 ++ (g.afterNot.1 ++ g.existsWord.1)))).length := by
        have hif := lower_length g.ifWord.1
        have hnot := lower_length g.notWord.1
        have hexists := lower_length g.existsWord.1
        rw [g.ifWord.2] at hif
        rw [g.notWord.2] at hnot
        rw [g.existsWord.2] at hexists
        simp only [List.length_append, (hspaced g hguard).1, (hspaced g hguard).2, ← hif, ← hnot, ← hexists]
        decide
      have hshape : g.render ++ quote :: tail = (g.ifWord.1 ++ (g.afterIf.1 ++ (g.notWord.1 ++ (g.afterNot.1 ++ g.existsWord.1)))) ++
          (g.afterExists.1 ++ quote :: tail) := by simp [Guard.render]
      rw [hlength, hshape, List.drop_left]
    change skipGuard (trimStart (l.afterAttach.1 ++ (g.render ++ quote :: tail))) = _
    rw [htrim, skipGuard_of_eq hword, hdrop, hstart g.afterExists.2.2]

/-- Written in any other way it is taken for the target. -/
theorem parseTarget_guard {g : Guard} (hguard : l.guard = some g) (hspaced : ¬ g.SingleSpaced) (trimmed left : Chars) :
    ∃ e, parseTarget u trimmed (skipGuard (trimStart (l.afterAttach.1 ++ ((l.guard.map Guard.render).getD [] ++ left)))) =
      .error e := by
  obtain ⟨c, rest, hhead, hwhite, hquote⟩ := guard_head g left
  have htrim : trimStart (l.afterAttach.1 ++ (g.render ++ left)) = g.render ++ left :=
    trimStart_gap l.afterAttach.2.2 fun d hd => by
      rw [hhead] at hd
      obtain rfl : c = d := by simpa using hd
      exact hwhite
  have hskip : skipGuard (g.render ++ left) = g.render ++ left :=
    skipGuard_of_ne fun h => hspaced ((stripPrefixCi_guard_iff g left).1 h)
  have htake : takeQuoted (g.render ++ left) = none := by
    rw [takeQuoted, hhead, trimStart, List.dropWhile_cons_of_neg (by simp [hwhite])]
    exact if_neg hquote
  rw [hguard]
  change ∃ e, parseTarget u trimmed (skipGuard (trimStart (l.afterAttach.1 ++ (g.render ++ left)))) = .error e
  rw [htrim, hskip, parseTarget, htake]
  exact ⟨_, rfl⟩

theorem parseDuckdbAttach_render : parseDuckdbAttach u (render a l) =
    some (parseTarget u (trimSemicolons (trim (render a l))) (skipGuard (trimStart (l.afterAttach.1 ++
      ((l.guard.map Guard.render).getD [] ++ (renderedTarget a l ++ l.left)))))) := by
  have hword : lower l.attachWord.1 = lower "ATTACH".toList := l.attachWord.2.trans (by decide)
  have hprefix : ∀ trimmed : Chars, trimmed = l.attachWord.1 ++ (l.afterAttach.1 ++
      ((l.guard.map Guard.render).getD [] ++ (renderedTarget a l ++ l.left))) →
      stripPrefixCi "ATTACH".toList trimmed =
        some (l.afterAttach.1 ++ ((l.guard.map Guard.render).getD [] ++ (renderedTarget a l ++ l.left))) := by
    rintro trimmed rfl
    exact stripPrefixCi_append hword _
  rw [parseDuckdbAttach, hprefix _ (trimmed_render a l)]
  rfl

/-- **A rendered ATTACH reads back as it was exactly if its guard is single-spaced and nothing stands before its
semicolon.** -/
theorem parse_render_iff :
    (∃ spec, parseDuckdbAttach u (render a l) = some (.ok spec) ∧ a.ReadAs spec) ↔
      (∀ g ∈ l.guard, g.SingleSpaced) ∧ (l.semicolon = true → l.afterClose.1 = []) := by
  have hleft : (l.semicolon = true → l.afterClose.1 = []) ↔ l.left = [] := by
    rw [Layout.left]
    split <;> simp_all
  rw [hleft, parseDuckdbAttach_render]
  by_cases hspaced : ∀ g ∈ l.guard, g.SingleSpaced
  · rw [skipGuard_render a l l.left hspaced, parseTarget_rendered]
    by_cases hempty : l.left = []
    · obtain ⟨options, hlocate, hoptions⟩ := locate_written a l a.catalog a.name.1
      rw [hempty, readOptions_rendered]
      exact ⟨fun _ => ⟨hspaced, rfl⟩, fun _ => ⟨_, congrArg some hlocate, rfl, rfl, rfl, hoptions⟩⟩
    · obtain ⟨e, he⟩ := readOptions_trailing (u := u) (List.intercalate [','] (renderedOptions a l)) hempty l.left_all
      rw [he]
      exact ⟨fun ⟨spec, hspec, _⟩ => (by cases hspec), fun h => absurd h.2 hempty⟩
  · have hguard : ∃ g, l.guard = some g ∧ ¬ g.SingleSpaced := by
      cases hguard : l.guard with
      | none => exact absurd (fun g hg => by simp [hguard] at hg) hspaced
      | some g => exact ⟨g, rfl, fun hg => hspaced fun g' hg' => by rw [hguard] at hg'; cases hg'; exact hg⟩
    obtain ⟨g, hg, hnot⟩ := hguard
    obtain ⟨e, he⟩ := parseTarget_guard l hg hnot (trimSemicolons (trim (render a l))) (renderedTarget a l ++ l.left)
    rw [he]
    exact ⟨fun ⟨spec, hspec, _⟩ => (by cases hspec), fun h => absurd h.1 hspaced⟩

/-! ### A space before the semicolon -/

theorem not_isAlphanum_of_whitespace {c : Char} (h : isWhitespace c = true) : c.isAlphanum = false := by
  by_contra halphanum
  rw [Bool.not_eq_false] at halphanum
  delta Char.isAlphanum Char.isAlpha Char.isUpper Char.isLower Char.isDigit at halphanum
  simp [UInt32.le_iff_toNat_le] at halphanum
  simp [isWhitespace] at h
  omega

/-- The tables of the first 128 characters. -/
def asciiTables : TextTables where
  isAlphanumeric := Char.isAlphanum
  debug s := "\"" ++ String.ofList s ++ "\""
  ascii _ _ := rfl
  whitespace _ := not_isAlphanum_of_whitespace

def oneSpace : Space := ⟨[' '], by decide⟩

def spaced : OptionGaps := { before := ⟨[' '], rfl⟩, between := oneSpace, after := ⟨[], rfl⟩ }

def plainStatement : AttachStatement asciiTables where
  catalog := "cat".toList
  name := ⟨"ex".toList, by decide⟩
  location := ⟨"worker".toList, by decide⟩
  options := []
  optionNames := by simp
  distinct := by simp

def spaceBeforeSemicolon : Layout where
  start := ⟨[], rfl⟩
  attachWord := ⟨"ATTACH".toList, by decide⟩
  afterAttach := oneSpace
  guard := none
  afterCatalog := oneSpace
  asWord := ⟨"AS".toList, by decide⟩
  afterAs := oneSpace
  afterName := ⟨[' '], rfl⟩
  typeWord := ⟨"TYPE".toList, by decide⟩
  vgiWord := ⟨"vgi".toList, by decide⟩
  typeGaps := spaced
  locationWord := ⟨"LOCATION".toList, by decide⟩
  locationGaps := spaced
  optionGaps _ := spaced
  afterClose := ⟨[' '], rfl⟩
  semicolon := true
  finish := ⟨[], rfl⟩

theorem parse_render_spaceBeforeSemicolon :
    render plainStatement spaceBeforeSemicolon = "ATTACH 'cat' AS ex ( TYPE vgi, LOCATION 'worker') ;".toList ∧
      ¬ ∃ spec, parseDuckdbAttach asciiTables (render plainStatement spaceBeforeSemicolon) = some (.ok spec) ∧
        plainStatement.ReadAs spec := by
  refine ⟨by decide, ?_⟩
  rintro ⟨spec, hspec, -⟩
  have herror : parseDuckdbAttach asciiTables (render plainStatement spaceBeforeSemicolon) =
      some (.error "unexpected text after ATTACH alias: ( TYPE vgi, LOCATION 'worker') ") := rfl
  rw [herror] at hspec
  cases hspec

end

end VgiDatafusion
