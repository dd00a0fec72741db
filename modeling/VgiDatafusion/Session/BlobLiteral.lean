import VgiDatafusion.Session.AttachText

/-!
# Blob literals of ATTACH options (session.rs:2893-2921)

| here | there |
| --- | --- |
| `utf8` | `str::as_bytes` |
| `fromUtf8Pair` | `std::str::from_utf8` of the two bytes after `\x` |
| `fromStrRadix16` | `u8::from_str_radix(hex, 16)`, which takes a leading `+` |
| `escapedByte`, `decodeBlob` | one escape, and the `while` loop (session.rs:2905-2919) |
| `blobLiteral` | `blob_literal` |
| `Spells`, `BlobText` | not in the source: how bytes are spelled, and the text of a literal |

What is spelled is what is decoded (`decodeBlob_spells`). An escape cut short by the end of the text is kept as text and
one like `\x+f` is read as a byte, so a malformed escape is reported exactly if one of them is followed by two bytes that are
not of that kind (`blob_exact_iff`).
-/
namespace VgiDatafusion

/-! ## Bytes -/

def utf8 (s : Chars) : List UInt8 := s.flatMap String.utf8EncodeChar

def backslash : UInt8 := 0x5C

def letterX : UInt8 := 0x78

/-- Two bytes are two ASCII characters or one character of two bytes. -/
def fromUtf8Pair (a b : UInt8) : Option Chars :=
  if a.toNat < 0x80 ∧ b.toNat < 0x80 then some [Char.ofNat a.toNat, Char.ofNat b.toNat]
  else if 0xC2 ≤ a.toNat ∧ a.toNat ≤ 0xDF ∧ 0x80 ≤ b.toNat ∧ b.toNat ≤ 0xBF then
    some [Char.ofNat (64 * (a.toNat - 0xC0) + (b.toNat - 0x80))]
  else none

/-- Digits after an optional sign, as long as the number is a byte. -/
def fromStrRadix16 (s : Chars) : Option UInt8 :=
  if s = [] ∨ s = ['+'] ∨ s = ['-'] then none
  else
    let digits := if s.head? = some '+' then s.tail else s
    (digits.foldlM (fun n c => (digitValue c).bind fun d => if 16 * n + d < 256 then some (16 * n + d) else none) 0).map
      UInt8.ofNat

/-- The two bytes behind `\x` (`session.rs:2908-2914`). -/
def escapedByte (a b : UInt8) : Except String UInt8 :=
  match fromUtf8Pair a b with
  | none => .error "invalid BLOB escape"
  | some hex =>
    match fromStrRadix16 hex with
    | none =>
      let hex := String.ofList hex
      .error s!"invalid BLOB escape `\\x{hex}`"
    | some byte => .ok byte

/-- An escape has four bytes, so the last three are taken as they are. -/
def decodeBlob : List UInt8 → Except String (List UInt8)
  | c :: x :: a :: b :: rest =>
    if c = backslash ∧ x = letterX then do
      let byte ← escapedByte a b
      let out ← decodeBlob rest
      .ok (byte :: out)
    else do
      let out ← decodeBlob (x :: a :: b :: rest)
      .ok (c :: out)
  | bytes => .ok bytes

/-- The cast a literal ends with. -/
def blobSuffix (raw : Chars) : Option Chars :=
  if "::blob".toList.isSuffixOf (lower (trim raw)) then some "::blob".toList
  else if "::binary".toList.isSuffixOf (lower (trim raw)) then some "::binary".toList
  else none

/-- `blob_literal` (`session.rs:2893-2921`); `none` where the text is no blob literal. -/
def blobLiteral (raw : Chars) : Except String (Option (List UInt8)) :=
  match blobSuffix raw with
  | none => .ok none
  | some suffix => do
    let value ← optionString (trim ((trim raw).take ((trim raw).length - suffix.length)))
    let out ← decodeBlob (utf8 value)
    .ok (some out)

/-! ## Literals -/

/-- A single-quoted literal and its cast, with the text between the quotes undoubled. -/
structure BlobText where
  before : Gap
  content : Chars
  between : Gap
  cast : { s : Chars // lower s = "::blob".toList ∨ lower s = "::binary".toList }
  after : Gap

def BlobText.render (t : BlobText) : Chars :=
  t.before.1 ++ ((sqlString t.content ++ (t.between.1 ++ t.cast.1)) ++ t.after.1)

/-- Printable bytes may stand for themselves, any byte may be escaped. -/
inductive Spells : Chars → List UInt8 → Prop
  | nil : Spells [] []
  | plain {byte : UInt8} {content : Chars} {bytes : List UInt8} (hprintable : 0x20 ≤ byte.toNat ∧ byte.toNat ≤ 0x7E)
      (hbackslash : byte ≠ backslash) (h : Spells content bytes) : Spells (Char.ofNat byte.toNat :: content) (byte :: bytes)
  | escaped {byte : UInt8} {high low : Char} {content : Chars} {bytes : List UInt8}
      (hhigh : digitValue high = some (byte.toNat / 16)) (hlow : digitValue low = some (byte.toNat % 16))
      (h : Spells content bytes) : Spells ('\\' :: 'x' :: high :: low :: content) (byte :: bytes)

/-- A `\x` without its two digits. -/
def BadEscape (content : Chars) : Prop :=
  ∃ rest, '\\' :: 'x' :: rest <:+ content ∧
    ¬ ∃ high low rest', rest = high :: low :: rest' ∧ (digitValue high).isSome ∧ (digitValue low).isSome

def isHexDigit (byte : UInt8) : Bool := (digitValue (Char.ofNat byte.toNat)).isSome

/-- Two digits, or a plus sign and a digit. -/
def DigitPair (a b : UInt8) : Prop := (isHexDigit a = true ∨ a.toNat = 0x2B) ∧ isHexDigit b = true

/-- A `\x` with two bytes after it that are no digits. -/
def RefusedEscape (bytes : List UInt8) : Prop := ∃ a b rest, backslash :: letterX :: a :: b :: rest <:+ bytes ∧ ¬ DigitPair a b

/-! ## Escapes -/

theorem digitValue_some {c : Char} {d : Nat} (h : digitValue c = some d) : c.toNat < 128 ∧ d < 16 := by
  simp only [digitValue, Char.le_def, UInt32.le_iff_toNat_le, Char.reduceVal, UInt32.reduceToNat] at h
  have hval : c.val.toNat = c.toNat := rfl
  split at h
  · cases h
    omega
  split at h
  · cases h
    omega
  split at h
  · cases h
    omega
  · cases h

theorem toNat_ofNat_small {n : Nat} (h : n < 0xD800) : (Char.ofNat n).toNat = n := by
  have hvalid : n.isValidChar := .inl h
  rw [Char.ofNat, dif_pos hvalid]
  rfl

theorem toNat_ofNat_byte (byte : UInt8) : (Char.ofNat byte.toNat).toNat = byte.toNat := by
  have hbyte := byte.toNat_lt
  exact toNat_ofNat_small (by omega)

theorem fromStrRadix16_pair (c d : Char) : fromStrRadix16 [c, d] =
    if c = '+' then (digitValue d).map UInt8.ofNat
    else (digitValue c).bind fun n => (digitValue d).map fun m => UInt8.ofNat (16 * n + m) := by
  by_cases hc : c = '+'
  · cases hd : digitValue d with
    | none => simp [fromStrRadix16, hc, hd]
    | some m =>
      have hm := (digitValue_some hd).2
      simp [fromStrRadix16, hc, hd, show m < 256 by omega]
  · cases hn : digitValue c with
    | none => simp [fromStrRadix16, hc, hn]
    | some n =>
      have hn' := (digitValue_some hn).2
      cases hd : digitValue d with
      | none => simp [fromStrRadix16, hc, hn, hd, show n < 256 by omega]
      | some m =>
        have hm := (digitValue_some hd).2
        simp [fromStrRadix16, hc, hn, hd, show n < 256 by omega, show 16 * n + m < 256 by omega]

theorem escapedByte_digits {a b : UInt8} {n m : Nat} (ha : digitValue (Char.ofNat a.toNat) = some n)
    (hb : digitValue (Char.ofNat b.toNat) = some m) : escapedByte a b = .ok (UInt8.ofNat (16 * n + m)) := by
  have hsmall : a.toNat < 0x80 ∧ b.toNat < 0x80 := by
    rw [← toNat_ofNat_byte a, ← toNat_ofNat_byte b]
    exact ⟨(digitValue_some ha).1, (digitValue_some hb).1⟩
  have hplus : Char.ofNat a.toNat ≠ '+' := by
    intro hplus
    rw [hplus, show digitValue '+' = none by decide] at ha
    cases ha
  simp [escapedByte, fromUtf8Pair, hsmall, fromStrRadix16_pair, hplus, ha, hb]

theorem digitValue_large {c : Char} (h : 0x80 ≤ c.toNat) : digitValue c = none := by
  cases hd : digitValue c with
  | none => rfl
  | some d =>
    have hlt := (digitValue_some hd).1
    omega

theorem ofNat_eq_plus_iff {byte : UInt8} : Char.ofNat byte.toNat = '+' ↔ byte.toNat = 0x2B := by
  constructor
  · intro h
    rw [← toNat_ofNat_byte byte, h]
    rfl
  · intro h
    rw [h]

theorem escapedByte_ascii_iff {a b : UInt8} (hsmall : a.toNat < 0x80 ∧ b.toNat < 0x80) :
    (∃ byte, escapedByte a b = .ok byte) ↔ DigitPair a b := by
  have hpair : fromUtf8Pair a b = some [Char.ofNat a.toNat, Char.ofNat b.toNat] := by simp [fromUtf8Pair, hsmall]
  rw [escapedByte, hpair]
  dsimp only
  rw [fromStrRadix16_pair]
  simp only [DigitPair, isHexDigit, ofNat_eq_plus_iff]
  by_cases ha : a.toNat = 0x2B
  · cases hb : digitValue (Char.ofNat b.toNat) <;> simp [ha]
  · cases hn : digitValue (Char.ofNat a.toNat) <;> cases hb : digitValue (Char.ofNat b.toNat) <;> simp [ha]

theorem DigitPair.ascii {a b : UInt8} (h : DigitPair a b) : a.toNat < 0x80 ∧ b.toNat < 0x80 := by
  obtain ⟨ha, hb⟩ := h
  have hdigit : ∀ byte : UInt8, isHexDigit byte = true → byte.toNat < 0x80 := by
    intro byte hbyte
    by_contra hlarge
    rw [isHexDigit, digitValue_large (by rw [toNat_ofNat_byte]; omega)] at hbyte
    cases hbyte
  refine ⟨?_, hdigit b hb⟩
  rcases ha with ha | ha
  · exact hdigit a ha
  · omega

/-- A character of two bytes is no digit. -/
theorem escapedByte_wide {a b : UInt8} (h : ¬ (a.toNat < 0x80 ∧ b.toNat < 0x80)) (byte : UInt8) : escapedByte a b ≠ .ok byte := by
  intro hbyte
  rw [escapedByte, fromUtf8Pair, if_neg h] at hbyte
  split at hbyte
  · cases hbyte
  · rename_i hex hutf8
    split at hutf8
    · cases hutf8
      have hchar : (Char.ofNat (64 * (a.toNat - 0xC0) + (b.toNat - 0x80))).toNat = 64 * (a.toNat - 0xC0) + (b.toNat - 0x80) :=
        toNat_ofNat_small (by omega)
      generalize Char.ofNat (64 * (a.toNat - 0xC0) + (b.toNat - 0x80)) = c at hchar hbyte
      have hlarge : 0x80 ≤ c.toNat := by omega
      have hsign : c ≠ '+' := by
        rintro rfl
        exact absurd hlarge (by decide)
      have hnone : fromStrRadix16 [c] = none := by simp [fromStrRadix16, digitValue_large hlarge, hsign]
      rw [hnone] at hbyte
      cases hbyte
    · cases hutf8

/-- Which pairs are read. -/
theorem escapedByte_ok_iff (a b : UInt8) : (∃ byte, escapedByte a b = .ok byte) ↔ DigitPair a b := by
  by_cases hsmall : a.toNat < 0x80 ∧ b.toNat < 0x80
  · exact escapedByte_ascii_iff hsmall
  · refine iff_of_false ?_ fun hpair => hsmall hpair.ascii
    rintro ⟨byte, hbyte⟩
    exact escapedByte_wide hsmall byte hbyte

/-! ## The walk -/

theorem decodeBlob_escape (a b : UInt8) (rest : List UInt8) : decodeBlob (backslash :: letterX :: a :: b :: rest) =
    escapedByte a b >>= fun byte => (decodeBlob rest).map (byte :: ·) := by
  rw [decodeBlob, if_pos ⟨rfl, rfl⟩]
  cases escapedByte a b with
  | error e => rfl
  | ok byte => cases decodeBlob rest <;> rfl

theorem decodeBlob_short {bytes : List UInt8} (h : bytes.length < 4) : decodeBlob bytes = .ok bytes := by
  match bytes, h with
  | [], _ => rfl
  | [_], _ => rfl
  | [_, _], _ => rfl
  | [_, _, _], _ => rfl

/-- No escape begins with this byte. -/
theorem decodeBlob_cons {c : UInt8} {rest : List UInt8} (h : ¬ (c = backslash ∧ rest.head? = some letterX)) :
    decodeBlob (c :: rest) = (decodeBlob rest).map (c :: ·) := by
  match rest, h with
  | [], _ => rfl
  | [_], _ => rfl
  | [_, _], _ => rfl
  | x :: a :: b :: rest, h =>
    have hnot : ¬ (c = backslash ∧ x = letterX) := by simpa using h
    rw [decodeBlob, if_neg hnot]
    cases decodeBlob (x :: a :: b :: rest) <;> rfl

theorem refusedEscape_cons {c : UInt8} {rest : List UInt8} (h : ¬ (c = backslash ∧ rest.head? = some letterX)) :
    RefusedEscape (c :: rest) ↔ RefusedEscape rest := by
  constructor
  · rintro ⟨a, b, after, hsuffix, hpair⟩
    rcases List.suffix_cons_iff.1 hsuffix with heq | htail
    · cases heq
      exact absurd ⟨rfl, rfl⟩ h
    · exact ⟨a, b, after, htail, hpair⟩
  · rintro ⟨a, b, after, hsuffix, hpair⟩
    exact ⟨a, b, after, List.suffix_cons_iff.2 (.inr hsuffix), hpair⟩

/-- A pair that is read holds no backslash. -/
theorem ne_backslash_of_pair {a b : UInt8} (h : DigitPair a b) : a ≠ backslash ∧ b ≠ backslash := by
  have hnone : isHexDigit backslash = false := by decide
  constructor
  · rintro rfl
    rcases h.1 with hdigit | hplus
    · rw [hnone] at hdigit
      cases hdigit
    · exact absurd hplus (by decide)
  · rintro rfl
    have hdigit := h.2
    rw [hnone] at hdigit
    cases hdigit

theorem refusedEscape_escape {a b : UInt8} {rest : List UInt8} :
    RefusedEscape (backslash :: letterX :: a :: b :: rest) ↔ ¬ DigitPair a b ∨ RefusedEscape rest := by
  by_cases hpair : DigitPair a b
  · obtain ⟨ha, hb⟩ := ne_backslash_of_pair hpair
    have hskip : RefusedEscape (letterX :: a :: b :: rest) ↔ RefusedEscape rest := by
      rw [refusedEscape_cons (fun h => absurd h.1 (by decide)), refusedEscape_cons (fun h => ha h.1),
        refusedEscape_cons (fun h => hb h.1)]
    simp only [hpair, not_true, false_or]
    rw [← hskip]
    constructor
    · rintro ⟨c, d, after, hsuffix, hnot⟩
      rcases List.suffix_cons_iff.1 hsuffix with heq | htail
      · cases heq
        exact absurd hpair hnot
      · exact ⟨c, d, after, htail, hnot⟩
    · rintro ⟨c, d, after, hsuffix, hnot⟩
      exact ⟨c, d, after, List.suffix_cons_iff.2 (.inr hsuffix), hnot⟩
  · exact iff_of_true ⟨a, b, rest, List.suffix_rfl, hpair⟩ (.inl hpair)

theorem not_refusedEscape_of_short {bytes : List UInt8} (h : bytes.length < 4) : ¬ RefusedEscape bytes := by
  rintro ⟨a, b, after, hsuffix, -⟩
  have hlength := hsuffix.length_le
  simp only [List.length_cons] at hlength
  omega

/-- The walk fails at the first escape that is refused. -/
theorem decodeBlob_error_iff (bytes : List UInt8) : (∃ e, decodeBlob bytes = .error e) ↔ RefusedEscape bytes := by
  have hmap : ∀ (c : UInt8) (r : Except String (List UInt8)), (∃ e, r.map (c :: ·) = .error e) ↔ ∃ e, r = .error e := by
    intro c r
    cases r <;> simp [Except.map]
  induction hn : bytes.length using Nat.strongRecOn generalizing bytes with
  | _ n ih =>
    by_cases hshort : bytes.length < 4
    · refine iff_of_false ?_ (not_refusedEscape_of_short hshort)
      simp [decodeBlob_short hshort]
    · obtain ⟨c, x, a, b, rest, rfl⟩ : ∃ c x a b rest, bytes = c :: x :: a :: b :: rest := by
        rcases bytes with - | ⟨c, - | ⟨x, - | ⟨a, - | ⟨b, rest⟩⟩⟩⟩ <;> simp at hshort ⊢
      by_cases hstart : c = backslash ∧ x = letterX
      · obtain ⟨rfl, rfl⟩ := hstart
        rw [decodeBlob_escape, refusedEscape_escape, ← escapedByte_ok_iff]
        cases hbyte : escapedByte a b with
        | error e => simp [bind, Except.bind]
        | ok byte =>
          have hlater := ih rest.length (by rw [← hn]; simp only [List.length_cons]; omega) rest rfl
          have hread : ∃ byte', Except.ok byte = (Except.ok byte' : Except String UInt8) := ⟨byte, rfl⟩
          exact (hmap byte _).trans (hlater.trans ⟨.inr, fun h => h.resolve_left (not_not_intro hread)⟩)
      · have hstart : ¬ (c = backslash ∧ (x :: a :: b :: rest).head? = some letterX) := by simpa using hstart
        rw [decodeBlob_cons hstart, refusedEscape_cons hstart]
        exact (hmap c _).trans (ih _ (by rw [← hn]; simp only [List.length_cons]; omega) _ rfl)

theorem utf8_cons_ascii {c : Char} (h : c.toNat < 0x80) (content : Chars) :
    utf8 (c :: content) = UInt8.ofNat c.toNat :: utf8 content := by
  have hone : String.utf8EncodeChar c = [UInt8.ofNat c.toNat] := by
    have hle : c.val.toNat ≤ 0x7F := Nat.lt_succ_iff.1 h
    rw [String.utf8EncodeChar, if_pos hle]
    rfl
  rw [utf8, List.flatMap_cons, hone]
  rfl

/-- What is spelled is what the walk decodes. -/
theorem decodeBlob_spells {content : Chars} {bytes : List UInt8} (h : Spells content bytes) :
    decodeBlob (utf8 content) = .ok bytes := by
  induction h with
  | nil => rfl
  | @plain byte content bytes hprintable hbackslash _ ih =>
    have hchar := toNat_ofNat_byte byte
    rw [utf8_cons_ascii (by omega), hchar, UInt8.ofNat_toNat, decodeBlob_cons (fun h => hbackslash h.1), ih]
    rfl
  | @escaped byte high low content bytes hhigh hlow _ ih =>
    have hasciiHigh := (digitValue_some hhigh).1
    have hasciiLow := (digitValue_some hlow).1
    have hback : ∀ c : Char, c.toNat < 128 → Char.ofNat (UInt8.ofNat c.toNat).toNat = c := by
      intro c hc
      rw [UInt8.toNat_ofNat_of_lt' (by simp only [UInt8.size]; omega), Char.ofNat_toNat]
    have hbyte : escapedByte (UInt8.ofNat high.toNat) (UInt8.ofNat low.toNat) = .ok byte := by
      rw [escapedByte_digits (by rw [hback high hasciiHigh]; exact hhigh) (by rw [hback low hasciiLow]; exact hlow)]
      rw [Nat.div_add_mod, UInt8.ofNat_toNat]
    rw [utf8_cons_ascii (by decide), utf8_cons_ascii (by decide), utf8_cons_ascii hasciiHigh, utf8_cons_ascii hasciiLow]
    have hescape := decodeBlob_escape (UInt8.ofNat high.toNat) (UInt8.ofNat low.toNat) (utf8 content)
    rw [hbyte, ih] at hescape
    exact hescape

/-! ## The literal -/

theorem cast_ne_nil (t : BlobText) : t.cast.1 ≠ [] := by
  intro hnil
  have hcast := t.cast.2
  rw [hnil] at hcast
  revert hcast
  decide

theorem cast_last (t : BlobText) : ∀ c ∈ t.cast.1.getLast?, isWhitespace c = false := by
  intro c hc
  have hlast : (lower t.cast.1).getLast? = some c.toLower := by
    rw [lower, List.getLast?_map, show t.cast.1.getLast? = some c from hc]
    rfl
  by_contra hwhite
  rw [Bool.not_eq_false] at hwhite
  rw [toLower_of_whitespace hwhite] at hlast
  rcases t.cast.2 with hcast | hcast
  all_goals
    rw [hcast] at hlast
    simp at hlast
    subst hlast
    revert hwhite
    decide

theorem trim_render (t : BlobText) : trim t.render = sqlString t.content ++ (t.between.1 ++ t.cast.1) := by
  refine trim_gaps t.before.2 t.after.2 (by simp [sqlString]) ?_ ?_
  · intro c hc
    obtain rfl : quote = c := by simpa [sqlString] using hc
    exact isWhitespace_quote
  · rw [← List.append_assoc, getLast?_append_of_ne (cast_ne_nil t)]
    exact cast_last t

theorem blobSuffix_render (t : BlobText) : ∃ suffix, blobSuffix t.render = some suffix ∧ suffix.length = t.cast.1.length := by
  have hlower : lower (trim t.render) = lower (sqlString t.content ++ t.between.1) ++ lower t.cast.1 := by
    rw [trim_render, ← List.append_assoc, lower_append]
  rw [blobSuffix, hlower, ← lower_length t.cast.1]
  rcases t.cast.2 with hcast | hcast
  · refine ⟨"::blob".toList, if_pos ?_, by rw [hcast]⟩
    rw [hcast, List.isSuffixOf_iff_suffix]
    exact List.suffix_append _ _
  · refine ⟨"::binary".toList, ?_, by rw [hcast]⟩
    rw [hcast, if_neg, if_pos]
    · rw [List.isSuffixOf_iff_suffix]
      exact List.suffix_append _ _
    · rw [List.isSuffixOf_iff_suffix]
      rintro ⟨start, hstart⟩
      have hlast := congrArg List.getLast? hstart
      rw [getLast?_append_of_ne (by decide), getLast?_append_of_ne (by decide)] at hlast
      revert hlast
      decide

theorem blobLiteral_render (t : BlobText) : blobLiteral t.render = (decodeBlob (utf8 t.content)).map some := by
  obtain ⟨suffix, hsuffix, hlength⟩ := blobSuffix_render t
  have htake : (trim t.render).take ((trim t.render).length - suffix.length) = sqlString t.content ++ t.between.1 := by
    rw [trim_render, hlength, ← List.append_assoc, List.length_append, Nat.add_sub_cancel, List.take_left]
  have hvalue : trim ([] ++ (sqlString t.content ++ t.between.1)) = sqlString t.content := by
    refine trim_gaps rfl t.between.2 (by simp [sqlString]) ?_ ?_
    · intro c hc
      obtain rfl : quote = c := by simpa [sqlString] using hc
      exact isWhitespace_quote
    · intro c hc
      rw [sqlString, List.getLast?_concat] at hc
      obtain rfl : quote = c := by simpa using hc
      exact isWhitespace_quote
  rw [blobLiteral, hsuffix]
  dsimp only
  rw [htake, show trim (sqlString t.content ++ t.between.1) = sqlString t.content from hvalue, optionString_sqlString]
  change (decodeBlob (utf8 t.content) >>= fun out => Except.ok (some out)) = _
  cases decodeBlob (utf8 t.content) <;> rfl

/-- **A literal decodes to what it spells and a malformed escape is refused exactly if, where there is a malformed one, some
`\x` is followed by two bytes that are neither two digits nor a plus sign and a digit.** -/
theorem blob_exact_iff (t : BlobText) :
    ((∀ bytes, Spells t.content bytes → blobLiteral t.render = .ok (some bytes)) ∧
      (BadEscape t.content → ∃ e, blobLiteral t.render = .error e)) ↔
    (BadEscape t.content → RefusedEscape (utf8 t.content)) := by
  have hspells : ∀ bytes, Spells t.content bytes → blobLiteral t.render = .ok (some bytes) := by
    intro bytes h
    rw [blobLiteral_render, decodeBlob_spells h]
    rfl
  have herror : (∃ e, blobLiteral t.render = .error e) ↔ RefusedEscape (utf8 t.content) := by
    rw [blobLiteral_render, ← decodeBlob_error_iff]
    cases decodeBlob (utf8 t.content) <;> simp [Except.map]
  rw [herror]
  exact ⟨fun h => h.2, fun h => ⟨hspells, h⟩⟩

/-- An escape of one digit at the end of the text. -/
theorem short_escape_kept : ¬ ∀ t : BlobText,
    (∀ bytes, Spells t.content bytes → blobLiteral t.render = .ok (some bytes)) ∧
      (BadEscape t.content → ∃ e, blobLiteral t.render = .error e) := by
  intro h
  obtain ⟨e, he⟩ := (h ⟨⟨[], rfl⟩, ['\\', 'x', '4'], ⟨[], rfl⟩, ⟨"::blob".toList, by decide⟩, ⟨[], rfl⟩⟩).2
    ⟨['4'], List.suffix_rfl, fun ⟨_, _, _, h, _⟩ => by simp at h⟩
  rw [blobLiteral_render, decodeBlob_short (by decide)] at he
  cases he

end VgiDatafusion
