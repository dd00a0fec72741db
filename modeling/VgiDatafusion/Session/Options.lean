import Mathlib.Algebra.GroupWithZero.Nat
import Mathlib.Logic.Function.Basic

/-!
# ATTACH option values (session.rs:1581-1599, 1645-1664)

| here | there |
| --- | --- |
| `Chars` | `str` and `String`, character by character |
| `lower` | `to_ascii_lowercase` |
| `trim`, `splitOnce`, `split`, `isWhitespace` | the methods of `str` and `char` |
| `takeQuoted`, `quotedBody` | `take_quoted` and its loop |
| `optionString`, `sqlString` | `option_string`, `sql_string` |
| `parseBool`, `parseU64` | `parse::<bool>`, `parse::<u64>` |

What is quoted reads back as it was (`optionString_sqlString`): a value a worker supplies means what it says.
-/
namespace VgiDatafusion

abbrev Chars := List Char

def lower (s : Chars) : Chars := s.map Char.toLower

theorem lower_append (s t : Chars) : lower (s ++ t) = lower s ++ lower t := List.map_append

/-- Only a large letter has another one for its small one. -/
theorem toLower_eq_self {c : Char} (h : c.toNat < 65 ∨ 90 < c.toNat) : c.toLower = c := by
  delta Char.toLower
  rw [dif_neg]
  rintro ⟨hge, hle⟩
  have hle' : ∀ d e : Char, d.val ≤ e.val ↔ d.toNat ≤ e.toNat := fun d e => by rw [UInt32.le_iff_toNat_le]; rfl
  rw [ge_iff_le, hle'] at hge
  rw [hle'] at hle
  have hA : 'A'.toNat = 65 := rfl
  have hZ : 'Z'.toNat = 90 := rfl
  omega

theorem char_toLower_idem (c : Char) : c.toLower.toLower = c.toLower := by
  have hval : c.toLower.val < 'A'.val ∨ 'Z'.val < c.toLower.val := by
    delta Char.toLower
    split <;> grind [UInt32.toNat_add, Char.toNat_val]
  have hrange : c.toLower.toNat < 65 ∨ 90 < c.toLower.toNat := by
    rw [UInt32.lt_iff_toNat_lt, UInt32.lt_iff_toNat_lt] at hval
    exact hval
  exact toLower_eq_self hrange

theorem lower_lower (s : Chars) : lower (lower s) = lower s := by
  rw [lower, lower, List.map_map]
  exact List.map_congr_left fun c _ => char_toLower_idem c

theorem mem_of_lower {s word : Chars} (h : lower s = word) {c : Char} (hc : c ∈ s) (hfixed : c.toLower = c) : c ∈ word := by
  rw [← h, ← hfixed]
  exact List.mem_map_of_mem hc

/-- Unicode's `White_Space`. -/
def isWhitespace (c : Char) : Bool :=
  let n := c.toNat
  (9 ≤ n && n ≤ 13) || n = 0x20 || n = 0x85 || n = 0xA0 || n = 0x1680 || (0x2000 ≤ n && n ≤ 0x200A) || n = 0x2028 ||
    n = 0x2029 || n = 0x202F || n = 0x205F || n = 0x3000

def trimStart (s : Chars) : Chars := s.dropWhile isWhitespace

def trimEnd (s : Chars) : Chars := (s.reverse.dropWhile isWhitespace).reverse

def trim (s : Chars) : Chars := trimEnd (trimStart s)

/-- `split_once`, at a character. -/
def splitOnce (separator : Char) : Chars → Option (Chars × Chars)
  | [] => none
  | c :: rest =>
    if c = separator then some ([], rest)
    else (splitOnce separator rest).map fun parts => (c :: parts.1, parts.2)

/-- `split`, at a character: one part more than there are separators. -/
def split (separator : Char) : Chars → List Chars
  | [] => [[]]
  | c :: rest =>
    if c = separator then [] :: split separator rest
    else match split separator rest with
      | [] => [[c]]
      | part :: parts => (c :: part) :: parts

def quote : Char := Char.ofNat 39

def doubleQuote : Char := Char.ofNat 34

/-- Up to the closing quote, two quotes being one; the rest follows it. -/
def quotedBody : Chars → Option (Chars × Chars)
  | [] => none
  | [c] => if c = quote then some ([], []) else none
  | c :: d :: rest =>
    if c = quote then
      if d = quote then (quotedBody rest).map fun (value, after) => (quote :: value, after)
      else some ([], d :: rest)
    else (quotedBody (d :: rest)).map fun (value, after) => (c :: value, after)

/-- `take_quoted` (`session.rs:1582-1599`). -/
def takeQuoted (s : Chars) : Option (Chars × Chars) :=
  match trimStart s with
  | [] => none
  | c :: rest => if c = quote then quotedBody rest else none

/-- `replace` of two double quotes by one. -/
def undouble : Chars → Chars
  | [] => []
  | [c] => [c]
  | c :: d :: rest => if c = doubleQuote ∧ d = doubleQuote then doubleQuote :: undouble rest else c :: undouble (d :: rest)

/-- `option_string` (`session.rs:1645-1660`). -/
def optionString (raw : Chars) : Except String Chars :=
  let raw := trim raw
  if raw.head? = some quote then
    match takeQuoted raw with
    | none => .error "unterminated ATTACH string value"
    | some (value, rest) =>
      if (trim rest).isEmpty then .ok value
      else .error ("unexpected text after ATTACH string value: " ++ String.ofList rest)
  else if raw.head? = some doubleQuote ∧ raw.getLast? = some doubleQuote ∧ 2 ≤ raw.length then
    .ok (undouble (raw.tail.dropLast))
  else .ok raw

def doubled (value : Chars) : Chars := value.flatMap fun c => if c = quote then [quote, quote] else [c]

/-- `sql_string` (`session.rs:1662-1664`). -/
def sqlString (value : Chars) : Chars := quote :: doubled value ++ [quote]

def parseBool (s : Chars) : Option Bool :=
  if s = "true".toList then some true else if s = "false".toList then some false else none

/-- A sign is accepted, an empty number or one that does not fit is not. -/
def parseU64 (s : Chars) : Option Nat :=
  let digits := if s.head? = some '+' then s.tail else s
  if digits.isEmpty || !digits.all Char.isDigit then none
  else
    let value := digits.foldl (fun n c => 10 * n + (c.toNat - 48)) 0
    if value < 2 ^ 64 then some value else none

/-- Where a sequence of fallible readings succeeds, its first one did. -/
theorem except_of_bind_ok {ε α β : Type} {x : Except ε α} {f : α → Except ε β} {b : β} (h : (x >>= f) = .ok b) :
    ∃ a, x = .ok a ∧ f a = .ok b := by
  cases x with
  | error e => cases h
  | ok a => exact ⟨a, rfl, h⟩

/-! ## Quoting and reading back -/

theorem quotedBody_doubled (value : Chars) : quotedBody (doubled value ++ [quote]) = some (value, []) := by
  induction value with
  | nil => simp [doubled, quotedBody]
  | cons c value ih =>
    by_cases hc : c = quote
    · have hdoubled : doubled (c :: value) = quote :: quote :: doubled value := by simp [doubled, hc]
      rw [hdoubled, List.cons_append, List.cons_append, quotedBody, if_pos rfl, if_pos rfl, ih, hc]
      rfl
    · have hdoubled : doubled (c :: value) = c :: doubled value := by simp [doubled, hc]
      rw [hdoubled, List.cons_append]
      cases hrest : doubled value ++ [quote] with
      | nil => simp at hrest
      | cons d rest =>
        rw [quotedBody, if_neg hc, ← hrest, ih]
        rfl

theorem trim_of_quoted (value : Chars) : trim (quote :: value ++ [quote]) = quote :: value ++ [quote] := by
  have hquote : isWhitespace quote = false := by decide
  have hstart : trimStart (quote :: value ++ [quote]) = quote :: value ++ [quote] := by
    simp [trimStart, hquote]
  rw [trim, hstart, trimEnd]
  simp [hquote]

theorem optionString_sqlString (value : Chars) : optionString (sqlString value) = .ok value := by
  have hquote : isWhitespace quote = false := by decide
  have htake : takeQuoted (sqlString value) = some (value, []) := by
    rw [takeQuoted, sqlString, List.cons_append, trimStart, List.dropWhile_cons_of_neg (by simp [hquote])]
    simp [quotedBody_doubled]
  rw [optionString, sqlString, trim_of_quoted, ← sqlString, htake]
  simp [sqlString, trim, trimStart, trimEnd]

end VgiDatafusion
