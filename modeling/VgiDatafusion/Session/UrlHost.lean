import Mathlib.Data.List.TakeWhile
import VgiDatafusion.Session.Attach

/-!
# Where an HTTP client connects

The host of an http(s) URL as the URL standard finds it: the ends are trimmed and tabs and line breaks removed, any slashes after
the scheme are skipped, a backslash being one, the authority ends at the next slash, question mark or hash, and the host stands
after its last at-sign, up to a colon outside brackets.

How a host is read once it is cut out is the client's (`HostParser`), with what the standard says of names and addresses.
-/
namespace VgiDatafusion

/-! ## Addresses are made of digits, dots and colons -/

/-- What is read is of one kind of characters. -/
def Reads (P : Char → Prop) (s rest : Chars) : Prop := ∃ taken, s = taken ++ rest ∧ ∀ c ∈ taken, P c

theorem Reads.refl (P : Char → Prop) (s : Chars) : Reads P s s := ⟨[], rfl, by simp⟩

theorem Reads.trans {P : Char → Prop} {s mid rest : Chars} (h : Reads P s mid) (h' : Reads P mid rest) : Reads P s rest := by
  obtain ⟨taken, rfl, htaken⟩ := h
  obtain ⟨taken', rfl, htaken'⟩ := h'
  refine ⟨taken ++ taken', by simp, fun c hc => ?_⟩
  rcases List.mem_append.1 hc with hc | hc
  · exact htaken c hc
  · exact htaken' c hc

theorem Reads.mono {P Q : Char → Prop} {s rest : Chars} (h : Reads P s rest) (hPQ : ∀ c, P c → Q c) : Reads Q s rest := by
  obtain ⟨taken, rfl, htaken⟩ := h
  exact ⟨taken, rfl, fun c hc => hPQ c (htaken c hc)⟩

theorem Reads.all {P : Char → Prop} {s : Chars} (h : Reads P s []) : ∀ c ∈ s, P c := by
  obtain ⟨taken, rfl, htaken⟩ := h
  simpa using htaken

theorem Reads.mem {P : Char → Prop} {s rest : Chars} (h : Reads P s rest) {c : Char} (hc : c ∈ rest) : c ∈ s := by
  obtain ⟨taken, rfl, -⟩ := h
  simp [hc]

def IsDigit (c : Char) : Prop := (digitValue c).isSome

def IsAddressChar (c : Char) : Prop := IsDigit c ∨ c = '.' ∨ c = ':'

theorem isDigit_range {c : Char} (h : IsDigit c) :
    (48 ≤ c.toNat ∧ c.toNat ≤ 57) ∨ (97 ≤ c.toNat ∧ c.toNat ≤ 102) ∨ (65 ≤ c.toNat ∧ c.toNat ≤ 70) := by
  have hle : ∀ d e : Char, d ≤ e ↔ d.toNat ≤ e.toNat := fun d e => by rw [Char.le_def, UInt32.le_iff_toNat_le]; rfl
  unfold IsDigit digitValue at h
  simp only [hle] at h
  split at h
  · rename_i hdigit
    exact .inl hdigit
  · split at h
    · rename_i hsmall
      exact .inr (.inl hsmall)
    · split at h
      · rename_i hlarge
        exact .inr (.inr hlarge)
      · cases h

section
variable {s rest : Chars}

theorem readNumber_reads {radix maxDigits bound v : Nat} {allowZeroPrefix : Bool}
    (h : readNumber radix maxDigits bound allowZeroPrefix s = some (v, rest)) : Reads IsDigit s rest := by
  unfold readNumber at h
  simp only at h
  split at h
  · cases h
  · split at h
    · cases h
    · simp only [Option.some.injEq, Prod.mk.injEq] at h
      obtain ⟨-, rfl⟩ := h
      refine ⟨_, List.takeWhile_append_dropWhile.symm, fun c hc => ?_⟩
      have hdigit := List.mem_takeWhile_imp hc
      cases hd : digitValue c with
      | none => simp [hd] at hdigit
      | some d => simp [IsDigit, hd]

theorem readSeparator_ok {α : Type} {separator : Char} {index : Nat} {read : Chars → Option (α × Chars)} {a : α}
    (h : readSeparator separator index read s = some (a, rest)) :
    (index = 0 ∧ read s = some (a, rest)) ∨ ∃ tail, s = separator :: tail ∧ read tail = some (a, rest) := by
  unfold readSeparator at h
  split at h
  · rename_i hindex
    exact .inl ⟨hindex, h⟩
  · cases s with
    | nil => cases h
    | cons c tail =>
      simp only at h
      split at h
      · rename_i hc
        exact .inr ⟨tail, by rw [hc], h⟩
      · cases h

theorem readSeparator_reads {α : Type} {separator : Char} {index : Nat} {read : Chars → Option (α × Chars)} {a : α}
    {P : Char → Prop} (hread : ∀ s a rest, read s = some (a, rest) → Reads P s rest) (hseparator : P separator)
    (h : readSeparator separator index read s = some (a, rest)) : Reads P s rest := by
  rcases readSeparator_ok h with ⟨-, hfirst⟩ | ⟨tail, rfl, htail⟩
  · exact hread s a rest hfirst
  · exact Reads.trans ⟨[separator], rfl, by simpa using hseparator⟩ (hread tail a rest htail)

theorem readIpv4_reads {octets : List Nat} (h : readIpv4 s = some (octets, rest)) :
    Reads (fun c => IsDigit c ∨ c = '.') s rest := by
  have hoctet : ∀ index s octet rest, readSeparator '.' index (readNumber 10 3 255 false) s = some (octet, rest) →
      Reads (fun c => IsDigit c ∨ c = '.') s rest := by
    intro index s octet rest h
    refine readSeparator_reads (fun s a rest h => ?_) (.inr rfl) h
    exact (readNumber_reads h).mono fun _ => .inl
  unfold readIpv4 at h
  simp only [Option.bind_eq_bind, Option.bind_eq_some_iff, Prod.exists] at h
  obtain ⟨a, s1, ha, b, s2, hb, c, s3, hc, d, s4, hd, h⟩ := h
  simp only [Option.some.injEq, Prod.mk.injEq] at h
  obtain ⟨-, rfl⟩ := h
  exact (hoctet _ _ _ _ ha).trans ((hoctet _ _ _ _ hb).trans ((hoctet _ _ _ _ hc).trans (hoctet _ _ _ _ hd)))

/-- What a group begins with, and what is read for it. -/
theorem readGroups_cases (left index : Nat) (s : Chars) :
    (∃ a b c d rest, readSeparator ':' index readIpv4 s = some ([a, b, c, d], rest) ∧
      readGroups (left + 1) index s = ([256 * a + b, 256 * c + d], true, rest)) ∨
    (∃ group rest, readSeparator ':' index (readNumber 16 4 65535 true) s = some (group, rest) ∧
      readGroups (left + 1) index s = (group :: (readGroups left (index + 1) rest).1, (readGroups left (index + 1) rest).2)) ∨
    readGroups (left + 1) index s = ([], false, s) := by
  rw [readGroups]
  split
  · rename_i a b c d rest hipv4
    split at hipv4
    · cases hipv4
    · exact .inl ⟨a, b, c, d, rest, hipv4, rfl⟩
  · split
    · rename_i group rest hgroup
      exact .inr (.inl ⟨group, rest, hgroup, rfl⟩)
    · exact .inr (.inr rfl)

theorem readGroups_reads (left index : Nat) (s : Chars) : Reads IsAddressChar s (readGroups left index s).2.2 := by
  induction left generalizing index s with
  | zero => exact .refl _ s
  | succ left ih =>
    rcases readGroups_cases left index s with ⟨a, b, c, d, rest, hread, heq⟩ | ⟨group, rest, hread, heq⟩ | heq
    · rw [heq]
      refine readSeparator_reads (fun s a rest h => ?_) (.inr (.inr rfl)) hread
      exact (readIpv4_reads h).mono fun c hc => hc.imp id .inl
    · rw [heq]
      refine Reads.trans ?_ (ih (index + 1) rest)
      refine readSeparator_reads (fun s a rest h => ?_) (.inr (.inr rfl)) hread
      exact (readNumber_reads h).mono fun _ => .inl
    · rw [heq]
      exact .refl _ s

/-- Every group but the first comes after a colon. -/
theorem colon_of_readGroups {left index : Nat} (hindex : index ≠ 0) (h : (readGroups left index s).1 ≠ []) : ':' ∈ s := by
  cases left with
  | zero => simp [readGroups] at h
  | succ left =>
    rcases readGroups_cases left index s with ⟨a, b, c, d, rest, hread, -⟩ | ⟨group, rest, hread, -⟩ | heq
    · rcases readSeparator_ok hread with ⟨hzero, -⟩ | ⟨tail, rfl, -⟩
      · exact absurd hzero hindex
      · simp
    · rcases readSeparator_ok hread with ⟨hzero, -⟩ | ⟨tail, rfl, -⟩
      · exact absurd hzero hindex
      · simp
    · simp [heq] at h

theorem readIpv6_reads {groups : List Nat} (h : readIpv6 s = some (groups, rest)) : Reads IsAddressChar s rest := by
  have hhead := readGroups_reads 8 0 s
  unfold readIpv6 at h
  simp only at h
  split at h
  · simp only [Option.some.injEq, Prod.mk.injEq] at h
    rw [← h.2]
    exact hhead
  · split at h
    · cases h
    · split at h
      · rename_i tail hrest
        simp only [Option.some.injEq, Prod.mk.injEq] at h
        rw [hrest] at hhead
        rw [← h.2]
        have hcolons : Reads IsAddressChar (':' :: ':' :: tail) tail := ⟨[':', ':'], rfl, by simp [IsAddressChar]⟩
        exact (hhead.trans hcolons).trans (readGroups_reads _ 0 tail)
      · cases h

theorem colon_of_readIpv6 {groups : List Nat} (h : readIpv6 s = some (groups, rest)) : ':' ∈ s := by
  have hhead := readGroups_reads 8 0 s
  unfold readIpv6 at h
  simp only at h
  split at h
  · rename_i hlength
    rcases readGroups_cases 7 0 s with ⟨a, b, c, d, after, -, heq⟩ | ⟨group, after, hread, heq⟩ | heq
    · simp [heq] at hlength
    · have hmore : (readGroups 7 1 after).1 ≠ [] := by
        intro hnil
        simp [heq, hnil] at hlength
      have hfirst : Reads IsDigit s after := by
        rcases readSeparator_ok hread with ⟨-, hread⟩ | ⟨tail, -, -⟩
        · exact readNumber_reads hread
        · simpa [readSeparator] using readNumber_reads (by simpa [readSeparator] using hread)
      exact hfirst.mem (colon_of_readGroups (by decide) hmore)
    · simp [heq] at hlength
  · split at h
    · cases h
    · split at h
      · rename_i tail hrest
        rw [hrest] at hhead
        exact hhead.mem (by simp)
      · cases h

end

/-! ## Hosts -/

inductive UrlHost
  | domain (name : Chars)
  | ipv4 (octets : List Nat)
  | ipv6 (groups : List Nat)
  deriving DecidableEq

/-- A connection to this host stays on the machine. -/
def UrlHost.isLoopback : UrlHost → Bool
  | .domain name => name = "localhost".toList
  | .ipv4 octets => octets.head? = some 127
  | .ipv6 groups => groups = [0, 0, 0, 0, 0, 0, 0, 1]

/-- The address between brackets, in the notation that `IpAddr` reads too. -/
def readBracketed (inner : Chars) : Option UrlHost :=
  match readIpv6 inner with
  | some (groups, []) => some (.ipv6 groups)
  | _ => none

/-- The host parser of the URL standard, and what is known of it. -/
structure HostParser where
  parse : Chars → Option UrlHost
  /-- Domains are folded. -/
  localhost : ∀ host, lower host = "localhost".toList → parse host = some (.domain "localhost".toList)
  /-- Four decimal numbers are an address. -/
  ipv4 : ∀ host octets, readIpv4 host = some (octets, []) → parse host = some (.ipv4 octets)
  /-- Nothing but an IPv6 address stands between brackets. -/
  bracketed : ∀ inner, parse ('[' :: inner ++ [']']) = readBracketed inner
  unclosed : ∀ rest, rest.getLast? ≠ some ']' → parse ('[' :: rest) = none
  /-- Brackets are forbidden in a domain. -/
  forbidden : ∀ host c, host.head? ≠ some '[' → c ∈ host → isBracket c = true → parse host = none

/-- What is trimmed at both ends of a URL. -/
def isC0OrSpace (c : Char) : Bool := c.toNat ≤ 0x20

/-- What is left out wherever it stands. -/
def isTabOrNewline (c : Char) : Bool := c.toNat = 9 || c.toNat = 10 || c.toNat = 13

/-- A backslash counts as a slash in a special scheme. -/
def isSlash (c : Char) : Bool := c = '/' || c = '\\'

def endsAuthority (c : Char) : Bool := isSlash c || c = '?' || c = '#'

def trimC0End (s : Chars) : Chars := (s.reverse.dropWhile isC0OrSpace).reverse

def withoutTabs (s : Chars) : Chars := s.filter (!isTabOrNewline ·)

def afterLast (separator : Char) (s : Chars) : Chars := (s.reverse.takeWhile (· ≠ separator)).reverse

/-- The host state: up to a colon that stands outside brackets; the port is what follows it. -/
def splitPort : Bool → Chars → Chars × Option Chars
  | _, [] => ([], none)
  | inside, c :: rest =>
    if c = ':' ∧ inside = false then ([], some rest)
    else
      let (host, port) := splitPort (if c = '[' then true else if c = ']' then false else inside) rest
      (c :: host, port)

/-- The port state: digits, and no more than fit into 16 bits. -/
def validPort (port : Chars) : Bool :=
  port.all Char.isDigit && decide (port.foldl (fun n c => 10 * n + (c.toNat - 48)) 0 < 2 ^ 16)

section
variable (hosts : HostParser)

/-- What follows the userinfo. -/
def HostParser.read (hostPort : Chars) : Option UrlHost :=
  let (host, port) := splitPort false hostPort
  if host.isEmpty || !port.all validPort then none else hosts.parse host

/-- The host of an http(s) URL, if it has one. -/
def HostParser.hostOfUrl (url : Chars) : Option UrlHost := do
  let (scheme, rest) ← splitOnce ':' (withoutTabs (trimC0End (url.dropWhile isC0OrSpace)))
  if lower scheme = "http".toList ∨ lower scheme = "https".toList then
    hosts.read (afterLast '@' ((rest.dropWhile isSlash).takeWhile (!endsAuthority ·)))
  else none

end

/-! ### Cutting a host out -/

/-- Up to a character that fails a test, nothing after it counts. -/
theorem takeWhile_append_of_head {p : Char → Bool} {s t : Chars} (hs : ∀ c ∈ s, p c = true) (ht : ∀ c ∈ t.head?, p c = false) :
    (s ++ t).takeWhile p = s := by
  induction s with
  | nil =>
    cases t with
    | nil => rfl
    | cons c t =>
      have hc := ht c rfl
      simp [hc]
  | cons c s ih =>
    have hc := hs c (by simp)
    simp [hc, ih fun d hd => hs d (by simp [hd])]

theorem afterLast_of_notMem {separator : Char} {s : Chars} (h : separator ∉ s) : afterLast separator s = s := by
  have hall : ∀ c ∈ s.reverse, decide (c ≠ separator) = true := by
    intro c hc
    refine decide_eq_true fun hsame => h ?_
    rw [← hsame]
    simpa using hc
  rw [afterLast, List.takeWhile_eq_self_iff.2 hall, List.reverse_reverse]

theorem afterLast_append_notMem {separator : Char} (s : Chars) {t : Chars} (h : separator ∉ t) :
    afterLast separator (s ++ t) = afterLast separator s ++ t := by
  have hall : ∀ c ∈ t.reverse, decide (c ≠ separator) = true := by
    intro c hc
    refine decide_eq_true fun hsame => h ?_
    rw [← hsame]
    simpa using hc
  rw [afterLast, List.reverse_append, List.takeWhile_append_of_pos hall, List.reverse_append, List.reverse_reverse]
  rfl

theorem afterLast_append_mem {separator : Char} (s : Chars) {t : Chars} (h : separator ∈ t) :
    afterLast separator (s ++ t) = afterLast separator t := by
  have hstop : ¬ (t.reverse.takeWhile (· ≠ separator)).length = t.reverse.length := by
    intro hlength
    have hself := List.takeWhile_eq_self_iff.1 ((List.takeWhile_prefix _).eq_of_length hlength) separator (by simpa using h)
    simp at hself
  rw [afterLast, List.reverse_append, List.takeWhile_append, if_neg hstop]
  rfl

end VgiDatafusion
