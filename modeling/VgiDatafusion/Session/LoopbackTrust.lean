import VgiDatafusion.Session.UrlHost

/-!
# Which HTTP locations are trusted as local (lib.rs:468-506)

| here | there |
| --- | --- |
| `authority`, `hostPart` | `http_host` up to the userinfo, and from there on |
| `IsHttp`, `cleaned` | not in the source: what the client makes of a scheme, and of what follows it |

Any text may be the location. `http_host` looks for the host behind the first `://` of the text as it stands, the client behind
the first colon and any slashes there are; and `http_host` ends the authority at a slash, a question mark or a hash, but not at
a backslash, where the client ends it. So the host that is trusted need not be the host that is contacted
(`loopback_trust_iff`).
-/
namespace VgiDatafusion

/-- What `http_host` (`lib.rs:488-498`) takes for the authority. -/
def authority (rest : Chars) : Chars := rest.takeWhile fun c => c ≠ '/' ∧ c ≠ '?' ∧ c ≠ '#'

/-- The host in what follows the userinfo. -/
def hostPart (s : Chars) : Option Chars :=
  match s with
  | '[' :: bracketed => (splitOnce ']' bracketed).map (·.1)
  | _ =>
    match rsplitOnce ':' s with
    | some (host, port) => if port.all Char.isDigit then some host else some s
    | none => some s

theorem httpHost_eq (url : Chars) :
    httpHost url = (afterScheme url).bind fun rest => hostPart (afterLast '@' (authority rest)) := rfl

/-! ## The scheme -/

theorem afterScheme_cons {c : Char} {s : Chars} (h : ¬ [':', '/', '/'] <+: c :: s) : afterScheme (c :: s) = afterScheme s := by
  rw [afterScheme]
  rintro rest rfl rfl
  exact h ⟨rest, rfl⟩

/-- The first `://` of a text. -/
theorem afterScheme_eq_some_iff {url rest : Chars} : afterScheme url = some rest ↔
    ∃ before, url = before ++ ':' :: '/' :: '/' :: rest ∧ ¬ [':', '/', '/'] <:+: before ++ [':', '/'] := by
  constructor
  · intro h
    induction url with
    | nil => cases h
    | cons c s ih =>
      by_cases hhere : [':', '/', '/'] <+: c :: s
      · obtain ⟨after, hafter⟩ := hhere
        rw [← hafter] at h ⊢
        cases h
        exact ⟨[], rfl, fun hinfix => absurd hinfix.length_le (by decide)⟩
      · rw [afterScheme_cons hhere] at h
        obtain ⟨before, rfl, hfirst⟩ := ih h
        refine ⟨c :: before, rfl, fun hinfix => ?_⟩
        rcases List.infix_cons_iff.1 hinfix with hstart | hinfix
        · exact hhere (hstart.trans ⟨'/' :: rest, by simp⟩)
        · exact hfirst hinfix
  · rintro ⟨before, rfl, hfirst⟩
    induction before with
    | nil => rfl
    | cons c before ih =>
      have hlater : ¬ [':', '/', '/'] <:+: before ++ [':', '/'] := fun hinfix => hfirst (List.infix_cons hinfix)
      rw [List.cons_append, afterScheme_cons, ih hlater]
      intro hstart
      have hshort : c :: before ++ [':', '/'] <+: c :: (before ++ ':' :: '/' :: '/' :: rest) := ⟨'/' :: rest, by simp⟩
      exact hfirst (List.prefix_of_prefix_length_le hstart hshort (by simp)).isInfix

theorem afterScheme_append {scheme : Chars} (h : ':' ∉ scheme) (rest : Chars) :
    afterScheme (scheme ++ ':' :: '/' :: '/' :: rest) = some rest := by
  induction scheme with
  | nil => rfl
  | cons c scheme ih =>
    rw [List.cons_append, afterScheme_cons, ih fun hmem => h (by simp [hmem])]
    rintro ⟨after, hafter⟩
    exact h (List.mem_cons.2 (.inl (List.cons.inj hafter).1))

/-! ## Loopback hosts -/

/-- Neither trimmed nor removed nor a delimiter for the client. -/
def Plain (c : Char) : Prop := isC0OrSpace c = false ∧ c ≠ '\\'

theorem plain_of_range {c : Char} (h : 32 < c.toNat) (hbackslash : c.toNat ≠ 92) : Plain c := by
  refine ⟨by simp [isC0OrSpace]; omega, ?_⟩
  rintro rfl
  exact hbackslash rfl

theorem plain_of_addressChar {c : Char} (h : IsAddressChar c) : Plain c ∧ isBracket c = false := by
  rcases h with hdigit | rfl | rfl
  · have hrange := isDigit_range hdigit
    refine ⟨plain_of_range (by omega) (by omega), ?_⟩
    have hopen : c ≠ '[' := by
      rintro rfl
      simp at hrange
    have hclose : c ≠ ']' := by
      rintro rfl
      simp at hrange
    simp [isBracket, hopen, hclose]
  · exact ⟨plain_of_range (by decide) (by decide), by decide⟩
  · exact ⟨plain_of_range (by decide) (by decide), by decide⟩

theorem plain_of_bracket {c : Char} (h : isBracket c = true) : Plain c := by
  rcases (by simpa [isBracket] using h : c = '[' ∨ c = ']') with rfl | rfl <;> exact plain_of_range (by decide) (by decide)

theorem parsesAsLoopback_cases {s : Chars} (h : parsesAsLoopback s = true) :
    (∃ octets, readIpv4 s = some (octets, []) ∧ octets.head? = some 127) ∨
      readIpv6 s = some ([0, 0, 0, 0, 0, 0, 0, 1], []) := by
  unfold parsesAsLoopback at h
  split at h
  · rename_i octets rest hread
    simp only [Bool.and_eq_true, List.isEmpty_iff, decide_eq_true_eq] at h
    obtain ⟨rfl, hfirst⟩ := h
    exact .inl ⟨octets, hread, hfirst⟩
  · split at h
    · rename_i groups rest hread
      simp only [Bool.and_eq_true, List.isEmpty_iff, decide_eq_true_eq] at h
      obtain ⟨rfl, rfl⟩ := h
      exact .inr hread
    · cases h

theorem addressChar_of_parsesAsLoopback {s : Chars} (h : parsesAsLoopback s = true) : ∀ c ∈ s, IsAddressChar c := by
  rcases parsesAsLoopback_cases h with ⟨octets, hread, -⟩ | hread
  · intro c hc
    exact ((readIpv4_reads hread).all c hc).imp id .inl
  · exact (readIpv6_reads hread).all

theorem mem_trimBrackets {s : Chars} {c : Char} (h : c ∈ s) : isBracket c = true ∨ c ∈ trimBrackets s := by
  rw [← List.takeWhile_append_dropWhile (p := isBracket) (l := s), List.mem_append] at h
  rcases h with hfront | h
  · exact .inl (List.mem_takeWhile_imp hfront)
  · rw [← List.mem_reverse, ← List.takeWhile_append_dropWhile (p := isBracket) (l := (s.dropWhile isBracket).reverse),
      List.mem_append] at h
    rcases h with hback | h
    · exact .inl (List.mem_takeWhile_imp hback)
    · exact .inr (List.mem_reverse.2 h)

theorem trimBrackets_of_none {s : Chars} (h : ∀ c ∈ s, isBracket c = false) : trimBrackets s = s := by
  have hdrop : ∀ s : Chars, (∀ c ∈ s, isBracket c = false) → s.dropWhile isBracket = s := by
    intro s h
    cases s with
    | nil => rfl
    | cons c s =>
      have hc := h c (by simp)
      simp [hc]
  rw [trimBrackets, hdrop s h, hdrop s.reverse (by simpa using h), List.reverse_reverse]

theorem hostIsLoopback_cases {host : Chars} (h : hostIsLoopback host = true) :
    lower host = "localhost".toList ∨ parsesAsLoopback (trimBrackets host) = true := by
  rwa [hostIsLoopback, Bool.or_eq_true, decide_eq_true_eq] at h

theorem plain_of_hostIsLoopback {host : Chars} (h : hostIsLoopback host = true) : ∀ c ∈ host, Plain c := by
  intro c hc
  rcases hostIsLoopback_cases h with hname | haddress
  · have hletters : "localhost".toList.all (fun d => decide (97 ≤ d.toNat)) = true := by decide
    by_cases hrange : c.toNat < 65 ∨ 90 < c.toNat
    · have hmem := mem_of_lower hname hc (toLower_eq_self hrange)
      have hle := of_decide_eq_true (List.all_eq_true.1 hletters c hmem)
      exact plain_of_range (by omega) (by omega)
    · exact plain_of_range (by omega) (by omega)
  · rcases mem_trimBrackets hc with hbracket | hinner
    · exact plain_of_bracket hbracket
    · exact (plain_of_addressChar (addressChar_of_parsesAsLoopback haddress c hinner)).1

/-! ## Cutting the host out -/

theorem splitOnce_eq_some_iff {separator : Char} {s before after : Chars} :
    splitOnce separator s = some (before, after) ↔ s = before ++ separator :: after ∧ separator ∉ before := by
  induction s generalizing before with
  | nil => simp [splitOnce]
  | cons c s ih =>
    rw [splitOnce]
    by_cases hc : c = separator
    · subst hc
      rw [if_pos rfl]
      cases before with
      | nil => simp [eq_comm]
      | cons d before =>
        simp only [Option.some.injEq, Prod.mk.injEq, reduceCtorEq, false_and, false_iff, not_and, List.cons_append]
        intro hsame hnot
        exact hnot (by simp [(List.cons.inj hsame).1])
    · rw [if_neg hc]
      cases before with
      | nil => simp [hc]
      | cons d before =>
        simp only [Option.map_eq_some_iff, Prod.exists, Prod.mk.injEq, List.cons.injEq, List.cons_append, List.mem_cons, not_or]
        constructor
        · rintro ⟨before', after', hsplit, ⟨rfl, rfl⟩, rfl⟩
          obtain ⟨hs, hnot⟩ := ih.1 hsplit
          exact ⟨⟨rfl, hs⟩, Ne.symm hc, hnot⟩
        · rintro ⟨⟨rfl, hs⟩, -, hnot⟩
          exact ⟨before, after, ih.2 ⟨hs, hnot⟩, ⟨rfl, rfl⟩, rfl⟩

theorem rsplitOnce_eq_some_iff {separator : Char} {s before after : Chars} :
    rsplitOnce separator s = some (before, after) ↔ s = before ++ separator :: after ∧ separator ∉ after := by
  simp only [rsplitOnce, Option.map_eq_some_iff, Prod.exists, splitOnce_eq_some_iff, Prod.mk.injEq]
  constructor
  · rintro ⟨a, b, ⟨hs, hnot⟩, rfl, rfl⟩
    refine ⟨?_, by simpa using hnot⟩
    rw [← List.reverse_reverse s, hs]
    simp
  · rintro ⟨rfl, hnot⟩
    exact ⟨after.reverse, before.reverse, ⟨by simp, by simpa using hnot⟩, by simp, by simp⟩

theorem hostPart_bracketed {host : Chars} (h : ']' ∉ host) (after : Chars) :
    hostPart ('[' :: (host ++ ']' :: after)) = some host := by
  rw [hostPart, splitOnce_eq_some_iff.2 ⟨rfl, h⟩]
  rfl

theorem hostPart_unbracketed {s : Chars} (h : s.head? ≠ some '[') :
    hostPart s = match rsplitOnce ':' s with
      | some (host, port) => if port.all Char.isDigit then some host else some s
      | none => some s := by
  unfold hostPart
  split
  · simp at h
  · rfl

/-- A host in brackets, with anything after them, or a host with or without a port. -/
theorem hostPart_cases {s host : Chars} (h : hostPart s = some host) :
    (∃ after, s = '[' :: (host ++ ']' :: after) ∧ ']' ∉ host) ∨
      s.head? ≠ some '[' ∧ ((∃ port, s = host ++ ':' :: port ∧ port.all Char.isDigit = true) ∨ s = host) := by
  by_cases hbracket : s.head? = some '['
  · obtain ⟨bracketed, rfl⟩ := List.head?_eq_some_iff.1 hbracket
    rw [hostPart] at h
    obtain ⟨⟨before, after⟩, hsplit, rfl⟩ := Option.map_eq_some_iff.1 h
    obtain ⟨rfl, hnot⟩ := splitOnce_eq_some_iff.1 hsplit
    exact .inl ⟨after, rfl, hnot⟩
  · rw [hostPart_unbracketed hbracket] at h
    refine .inr ⟨hbracket, ?_⟩
    split at h
    · rename_i before port hsplit
      split at h
      · rename_i hport
        cases h
        exact .inl ⟨port, (rsplitOnce_eq_some_iff.1 hsplit).1, hport⟩
      · exact .inr (Option.some.inj h)
    · exact .inr (Option.some.inj h)

theorem plain_of_isDigit {c : Char} (h : c.isDigit = true) : Plain c := by
  simp only [Char.isDigit, Bool.and_eq_true, decide_eq_true_eq, UInt32.le_iff_toNat_le, ge_iff_le, Char.toNat_val] at h
  have h0 : '0'.toNat = 48 := rfl
  have h9 : '9'.toNat = 57 := rfl
  exact plain_of_range (by omega) (by omega)

/-- Only after a closing bracket may a trusted authority go on with anything. -/
theorem hostPart_plain {s host : Chars} (h : hostPart s = some host) (hloopback : hostIsLoopback host = true) :
    (∃ after, s = '[' :: (host ++ [']']) ++ after ∧ ']' ∉ host ∧ ∀ c ∈ '[' :: (host ++ [']']), Plain c) ∨
      ∀ c ∈ s, Plain c := by
  have hplain := plain_of_hostIsLoopback hloopback
  rcases hostPart_cases h with ⟨after, rfl, hnot⟩ | ⟨-, ⟨port, rfl, hport⟩ | rfl⟩
  · refine .inl ⟨after, by simp, hnot, fun c hc => ?_⟩
    simp only [List.mem_cons, List.mem_append, List.not_mem_nil, or_false] at hc
    rcases hc with rfl | hc | rfl
    · exact plain_of_bracket rfl
    · exact hplain c hc
    · exact plain_of_bracket rfl
  · refine .inr fun c hc => ?_
    simp only [List.mem_append, List.mem_cons] at hc
    rcases hc with hc | rfl | hc
    · exact hplain c hc
    · exact plain_of_range (by decide) (by decide)
    · exact plain_of_isDigit (List.all_eq_true.1 hport c hc)
  · exact .inr hplain

theorem hostPart_closed {host : Chars} (h : ']' ∉ host) (after : Chars) :
    hostPart ('[' :: (host ++ [']']) ++ after) = some host := by
  rw [List.cons_append, List.append_assoc, List.singleton_append, hostPart_bracketed h]

/-- What stands after a character that is not plain has no part in a host that is trusted. -/
theorem hostPart_cut {s rest host : Chars} (h : hostPart (s ++ rest) = some host) (hloopback : hostIsLoopback host = true)
    (hrest : ∀ c ∈ rest.head?, ¬ Plain c) : hostPart s = some host := by
  rcases hostPart_plain h hloopback with ⟨after, hs, hnot, hplain⟩ | hplain
  · rcases List.append_eq_append_iff.1 hs with ⟨middle, hfront, hback⟩ | ⟨middle, hfront, -⟩
    · cases middle with
      | nil =>
        have hwhole := hostPart_closed hnot []
        rw [hfront] at hwhole
        simpa using hwhole
      | cons c middle =>
        have hin : c ∈ '[' :: (host ++ [']']) := by simp [hfront]
        exact absurd (hplain c hin) (hrest c (by simp [hback]))
    · rw [hfront, hostPart_closed hnot]
  · cases rest with
    | nil => simpa using h
    | cons c rest => exact absurd (hplain c (by simp)) (hrest c rfl)

/-- Nor have tabs and line breaks. -/
theorem hostPart_withoutTabs {s host : Chars} (h : hostPart s = some host) (hloopback : hostIsLoopback host = true) :
    hostPart (withoutTabs s) = some host := by
  have hkeep : ∀ {s : Chars}, (∀ c ∈ s, Plain c) → withoutTabs s = s := by
    intro s hs
    refine List.filter_eq_self.2 fun c hc => ?_
    have hlarge := (hs c hc).1
    simp only [isC0OrSpace, decide_eq_false_iff_not] at hlarge
    simp only [isTabOrNewline, Bool.not_eq_true', Bool.or_eq_false_iff, decide_eq_false_iff_not]
    omega
  rcases hostPart_plain h hloopback with ⟨after, rfl, hnot, hplain⟩ | hplain
  · rw [withoutTabs, List.filter_append, ← withoutTabs, hkeep hplain, hostPart_closed hnot]
  · rw [hkeep hplain, h]

/-! ## The same host, once it is cut out the same -/

attribute [local simp] splitPort

/-- The port is split off with its colon, and the host has no other where it has no bracket. -/
theorem splitPort_eq (inside : Bool) (s : Chars) :
    s = (splitPort inside s).1 ++ (match (splitPort inside s).2 with | none => [] | some port => ':' :: port) := by
  induction s generalizing inside with
  | nil => rfl
  | cons c s ih =>
    rw [splitPort]
    split
    · rename_i hc
      simp [hc.1]
    · simp only [List.cons_append, List.cons.injEq, true_and]
      exact ih _

theorem splitPort_colon {s : Chars} (h : ∀ c ∈ (splitPort false s).1, isBracket c = false) : ':' ∉ (splitPort false s).1 := by
  induction s with
  | nil => simp [splitPort]
  | cons c s ih =>
    rw [splitPort] at h ⊢
    by_cases hc : c = ':'
    · simp [hc]
    · simp only [hc, false_and, if_false] at h ⊢
      have hbracket := h c (by simp)
      simp only [isBracket, Bool.or_eq_false_iff, decide_eq_false_iff_not] at hbracket
      simp only [hbracket.1, hbracket.2, if_false] at h ⊢
      simp only [List.mem_cons, not_or]
      exact ⟨Ne.symm hc, ih fun d hd => h d (by simp [hd])⟩

/-- Up to the closing bracket a colon belongs to the host. -/
theorem splitPort_bracketed {host : Chars} (h : ']' ∉ host) (after : Chars) :
    splitPort true (host ++ ']' :: after) = (host ++ ']' :: (splitPort false after).1, (splitPort false after).2) := by
  induction host with
  | nil => simp [splitPort]
  | cons c host ih =>
    have hc : c ≠ ']' := fun hsame => h (by simp [hsame])
    have ih := ih fun hmem => h (by simp [hmem])
    simp [splitPort, hc, ih]

/-- Only `::1` is a loopback address with a colon in it. -/
theorem loopback_of_colon {host : Chars} (hcolon : ':' ∈ host) (hbrackets : ∀ c ∈ host, isBracket c = false)
    (h : hostIsLoopback host = true) : readIpv6 host = some ([0, 0, 0, 0, 0, 0, 0, 1], []) := by
  rcases hostIsLoopback_cases h with hname | haddress
  · exact absurd (mem_of_lower hname hcolon (by decide)) (by decide)
  · rw [trimBrackets_of_none hbrackets] at haddress
    rcases parsesAsLoopback_cases haddress with ⟨octets, hread, -⟩ | hread
    · rcases (readIpv4_reads hread).all ':' hcolon with hdigit | hdot
      · exact absurd hdigit (by unfold IsDigit; decide)
      · exact absurd hdot (by decide)
    · exact hread

section
variable {hosts : HostParser} {s host : Chars} {contacted : UrlHost}

theorem parse_of_read (h : hosts.read s = some contacted) :
    (∀ port ∈ (splitPort false s).2, validPort port = true) ∧ hosts.parse (splitPort false s).1 = some contacted := by
  rw [HostParser.read] at h
  simp only [Bool.or_eq_true, List.isEmpty_iff, Bool.not_eq_true', Option.all_eq_false] at h
  split at h
  · cases h
  · rename_i hvalid
    simp only [not_or, not_exists, not_and, Bool.not_eq_false] at hvalid
    exact ⟨hvalid.2, h⟩

theorem loopback_of_bracketed (hclosed : ']' ∉ host) (hloopback : hostIsLoopback host = true) {after : Chars}
    (h : hosts.read ('[' :: (host ++ ']' :: after)) = some contacted) : contacted.isLoopback = true := by
  obtain ⟨-, hparse⟩ := parse_of_read h
  have hsplit : (splitPort false ('[' :: (host ++ ']' :: after))).1 = '[' :: (host ++ ']' :: (splitPort false after).1) := by
    simp [splitPort, splitPort_bracketed hclosed]
  rw [hsplit] at hparse
  by_cases hlast : (host ++ ']' :: (splitPort false after).1).getLast? = some ']'
  · obtain ⟨inner, hinner⟩ := List.getLast?_eq_some_iff.1 hlast
    rw [hinner, ← List.cons_append, hosts.bracketed, readBracketed] at hparse
    split at hparse
    · rename_i groups hread
      have haddress := (readIpv6_reads hread).all
      have hnot : ']' ∉ inner := fun hmem => absurd (plain_of_addressChar (haddress _ hmem)).2 (by decide)
      have hsame : some (inner, []) = some (host, (splitPort false after).1) := by
        rw [← splitOnce_eq_some_iff.2 ⟨rfl, hnot⟩, ← splitOnce_eq_some_iff.2 ⟨rfl, hclosed⟩, hinner]
      simp only [Option.some.injEq, Prod.mk.injEq] at hsame
      obtain ⟨rfl, -⟩ := hsame
      have hone := loopback_of_colon (colon_of_readIpv6 hread) (fun c hc => (plain_of_addressChar (haddress c hc)).2) hloopback
      rw [hread] at hone
      cases hone
      cases hparse
      rfl
    · cases hparse
  · rw [hosts.unclosed _ hlast] at hparse
    cases hparse

/-- Without brackets the last colon is the first one. -/
theorem hostPart_of_splitPort (hopen : s.head? ≠ some '[') (hcolon : ':' ∉ (splitPort false s).1)
    (hport : ∀ port ∈ (splitPort false s).2, validPort port = true) : hostPart s = some (splitPort false s).1 := by
  have heq := splitPort_eq false s
  rw [hostPart_unbracketed hopen]
  generalize (splitPort false s).1 = cut at *
  generalize (splitPort false s).2 = port at *
  cases port with
  | none =>
    simp only [List.append_nil] at heq
    have hnone : rsplitOnce ':' s = none := by
      rw [Option.eq_none_iff_forall_not_mem]
      rintro ⟨before, after⟩ hsplit
      obtain ⟨hs, -⟩ := rsplitOnce_eq_some_iff.1 hsplit
      exact hcolon (by rw [← heq, hs]; simp)
    rw [hnone, heq]
  | some port =>
    have hvalid := hport port rfl
    simp only [validPort, Bool.and_eq_true] at hvalid
    have hnot : ':' ∉ port := fun hmem => absurd (List.all_eq_true.1 hvalid.1 _ hmem) (by decide)
    rw [rsplitOnce_eq_some_iff.2 ⟨heq, hnot⟩]
    simp [hvalid.1]

theorem unbracketed_of_parse (hopen : s.head? ≠ some '[') (h : hosts.parse (splitPort false s).1 = some contacted) :
    ∀ c ∈ (splitPort false s).1, isBracket c = false := by
  have heq := splitPort_eq false s
  have hhead : (splitPort false s).1.head? ≠ some '[' := by
    intro hbad
    obtain ⟨rest, hrest⟩ := List.head?_eq_some_iff.1 hbad
    rw [hrest] at heq
    rw [heq] at hopen
    exact hopen rfl
  intro c hc
  by_contra hbracket
  rw [hosts.forbidden _ c hhead hc (by simpa using hbracket)] at h
  cases h

theorem loopback_of_unbracketed (hopen : s.head? ≠ some '[') (hhost : hostPart s = some host)
    (hloopback : hostIsLoopback host = true) (h : hosts.read s = some contacted) : contacted.isLoopback = true := by
  obtain ⟨hport, hparse⟩ := parse_of_read h
  have hbrackets := unbracketed_of_parse hopen hparse
  have hcolon := splitPort_colon hbrackets
  rw [hostPart_of_splitPort hopen hcolon hport] at hhost
  cases hhost
  rcases hostIsLoopback_cases hloopback with hname | haddress
  · rw [hosts.localhost _ hname] at hparse
    cases hparse
    rfl
  · rw [trimBrackets_of_none hbrackets] at haddress
    rcases parsesAsLoopback_cases haddress with ⟨octets, hread, hfirst⟩ | hread
    · rw [hosts.ipv4 _ octets hread] at hparse
      cases hparse
      simp [UrlHost.isLoopback, hfirst]
    · exact absurd (colon_of_readIpv6 hread) hcolon

theorem loopback_of_read (hhost : hostPart s = some host) (hloopback : hostIsLoopback host = true)
    (h : hosts.read s = some contacted) : contacted.isLoopback = true := by
  rcases hostPart_cases hhost with ⟨after, rfl, hnot⟩ | ⟨hopen, -⟩
  · exact loopback_of_bracketed hnot hloopback h
  · exact loopback_of_unbracketed hopen hhost hloopback h

end

/-! ## What the client makes of the authority -/

/-- The end is trimmed, and tabs and line breaks are gone. -/
def cleaned (rest : Chars) : Chars := withoutTabs (trimC0End rest)

theorem trimC0End_append {s : Chars} (h : ∀ c ∈ s.getLast?, isC0OrSpace c = false) (t : Chars) :
    trimC0End (s ++ t) = s ++ trimC0End t := by
  have hs : s.reverse.dropWhile isC0OrSpace = s.reverse := by
    cases hlast : s.reverse with
    | nil => rfl
    | cons c rest =>
      have hc := h c (by rw [List.getLast?_eq_head?_reverse, hlast]; rfl)
      simp [hc]
  rw [trimC0End, List.reverse_append, List.dropWhile_append, trimC0End]
  split
  · rename_i hempty
    rw [List.isEmpty_iff] at hempty
    rw [hs, hempty]
    simp
  · simp

/-- A scheme that the client reads as `http` or `https`: spaces before it do not count, nor tabs in it. -/
def IsHttp (scheme : Chars) : Prop :=
  lower (withoutTabs (scheme.dropWhile isC0OrSpace)) = "http".toList ∨
    lower (withoutTabs (scheme.dropWhile isC0OrSpace)) = "https".toList

theorem dropWhile_append_cons {p : Char → Bool} {c : Char} (hc : p c = false) (s t : Chars) :
    (s ++ c :: t).dropWhile p = s.dropWhile p ++ c :: t := by
  rw [List.dropWhile_append]
  split
  · rename_i hempty
    rw [List.isEmpty_iff.1 hempty]
    simp [hc]
  · rfl

theorem withoutTabs_append (s t : Chars) : withoutTabs (s ++ t) = withoutTabs s ++ withoutTabs t := List.filter_append ..

/-- What ends in a character that stays is cleaned apart from what follows. -/
theorem cleaned_append {s : Chars} (h : ∀ c ∈ s.getLast?, isC0OrSpace c = false) (t : Chars) :
    cleaned (s ++ t) = withoutTabs s ++ cleaned t := by
  rw [cleaned, trimC0End_append h, withoutTabs_append, cleaned]

theorem cleaned_text (scheme rest : Chars) : withoutTabs (trimC0End ((scheme ++ ':' :: rest).dropWhile isC0OrSpace)) =
    withoutTabs (scheme.dropWhile isC0OrSpace) ++ ':' :: cleaned rest := by
  rw [dropWhile_append_cons (by decide), ← List.singleton_append, ← List.append_assoc, ← cleaned, cleaned_append (by simp; decide),
    withoutTabs_append, List.append_assoc]
  rfl

theorem colon_notMem_cleaned {scheme : Chars} (h : ':' ∉ scheme) : ':' ∉ withoutTabs (scheme.dropWhile isC0OrSpace) :=
  fun hmem => h (List.dropWhile_subset _ (List.mem_filter.1 hmem).1)

theorem IsHttp.colon_notMem {scheme : Chars} (h : IsHttp scheme) : ':' ∉ scheme := by
  intro hmem
  obtain ⟨front, back, rfl, -⟩ := List.eq_append_cons_of_mem hmem
  have hkept : ':' ∈ withoutTabs ((front ++ ':' :: back).dropWhile isC0OrSpace) := by
    rw [dropWhile_append_cons (by decide)]
    exact List.mem_filter.2 ⟨by simp, by decide⟩
  rcases h with h | h <;> exact absurd (mem_of_lower h hkept (by decide)) (by decide)

theorem hostOfUrl_iff {hosts : HostParser} {scheme : Chars} (h : ':' ∉ scheme) {rest : Chars} {host : UrlHost} :
    hosts.hostOfUrl (scheme ++ ':' :: rest) = some host ↔ IsHttp scheme ∧
      hosts.read (afterLast '@' (((cleaned rest).dropWhile isSlash).takeWhile (!endsAuthority ·))) = some host := by
  rw [HostParser.hostOfUrl, cleaned_text, splitOnce_eq_some_iff.2 ⟨rfl, colon_notMem_cleaned h⟩]
  simp only [Option.bind_eq_bind, Option.bind_some]
  split
  · rename_i hhttp
    exact (and_iff_right hhttp).symm
  · rename_i hother
    exact iff_of_false (by simp) fun hhttp => hother hhttp.1

/-- Where what a filter takes out does not end the prefix. -/
theorem takeWhile_filter {p q : Char → Bool} (h : ∀ c, q c = false → p c = true) (s : Chars) :
    (s.filter q).takeWhile p = (s.takeWhile p).filter q := by
  induction s with
  | nil => rfl
  | cons c s ih =>
    by_cases hq : q c = true
    · by_cases hp : p c = true <;> simp [hq, hp, ih]
    · have hp := h c (by simpa using hq)
      simp [hq, hp, ih]

theorem afterLast_withoutTabs (s : Chars) : afterLast '@' (withoutTabs s) = withoutTabs (afterLast '@' s) := by
  have hstop : ∀ c, (!isTabOrNewline c) = false → decide (c ≠ '@') = true := by
    rintro c hc
    refine decide_eq_true ?_
    rintro rfl
    exact absurd hc (by decide)
  rw [afterLast, withoutTabs, ← List.filter_reverse, takeWhile_filter hstop, ← List.filter_reverse]
  rfl

theorem authority_cleaned (rest : Chars) :
    ∃ spaces, withoutTabs (authority rest) = authority (cleaned rest) ++ spaces ∧ ∀ c ∈ spaces, isC0OrSpace c = true := by
  have hstop : ∀ c, (!isTabOrNewline c) = false → decide (c ≠ '/' ∧ c ≠ '?' ∧ c ≠ '#') = true := by
    intro c hc
    refine decide_eq_true ⟨?_, ?_, ?_⟩ <;> (rintro rfl; exact absurd hc (by decide))
  have htrimmed : trimC0End rest ++ (rest.reverse.takeWhile isC0OrSpace).reverse = rest := by
    rw [trimC0End, ← List.reverse_append, List.takeWhile_append_dropWhile, List.reverse_reverse]
  have hspace : ∀ c ∈ withoutTabs (rest.reverse.takeWhile isC0OrSpace).reverse, isC0OrSpace c = true := by
    intro c hc
    exact List.mem_takeWhile_imp (List.mem_reverse.1 (List.mem_filter.1 hc).1)
  have hwhole : withoutTabs rest = cleaned rest ++ withoutTabs (rest.reverse.takeWhile isC0OrSpace).reverse := by
    rw [cleaned, withoutTabs, withoutTabs, withoutTabs, ← List.filter_append, htrimmed]
  rw [authority, withoutTabs, ← takeWhile_filter hstop, ← withoutTabs, hwhole, List.takeWhile_append, authority]
  split
  · rename_i hlength
    rw [List.IsPrefix.eq_of_length (List.takeWhile_prefix _) hlength]
    exact ⟨_, rfl, fun c hc => hspace c (List.takeWhile_subset _ hc)⟩
  · exact ⟨[], by simp, by simp⟩

/-- A trusted host is still there when the authority is cleaned. -/
theorem hostPart_cleaned {rest host : Chars} (h : hostPart (afterLast '@' (authority rest)) = some host)
    (hloopback : hostIsLoopback host = true) : hostPart (afterLast '@' (authority (cleaned rest))) = some host := by
  obtain ⟨spaces, hspaces, hspace⟩ := authority_cleaned rest
  have hat : '@' ∉ spaces := fun hmem => absurd (hspace _ hmem) (by decide)
  have hwithout := hostPart_withoutTabs h hloopback
  rw [← afterLast_withoutTabs, hspaces, afterLast_append_notMem _ hat] at hwithout
  refine hostPart_cut hwithout hloopback fun c hc hplain => ?_
  have hkept := hplain.1
  rw [hspace c (List.mem_of_mem_head? hc)] at hkept
  cases hkept

theorem of_head?_dropWhile {p : Char → Bool} {s : Chars} : ∀ c ∈ (s.dropWhile p).head?, p c = false := by
  intro c hc
  have hstop := List.head?_dropWhile_not p s
  rw [Option.mem_def.1 hc] at hstop
  exact hstop

theorem mem_authority {rest : Chars} {c : Char} (h : c ∈ authority rest) : c ≠ '/' ∧ c ≠ '?' ∧ c ≠ '#' := by
  simpa using List.mem_takeWhile_imp h

/-- What follows the authority begins with a character that ends it. -/
theorem authority_append (rest : Chars) : ∃ tail, rest = authority rest ++ tail ∧ ∀ c ∈ tail.head?, endsAuthority c = true := by
  refine ⟨_, List.takeWhile_append_dropWhile.symm, fun c hc => ?_⟩
  have hfails := of_head?_dropWhile c hc
  rw [decide_eq_false_iff_not] at hfails
  by_contra hend
  refine hfails ⟨?_, ?_, ?_⟩ <;> (rintro rfl; exact hend (by decide))

/-- The client ends an authority at its first backslash. -/
theorem takeWhile_body {body tail : Chars} (hbody : ∀ c ∈ body, c ≠ '/' ∧ c ≠ '?' ∧ c ≠ '#')
    (htail : ∀ c ∈ tail.head?, endsAuthority c = true) :
    (body ++ tail).takeWhile (!endsAuthority ·) = body.takeWhile (· ≠ '\\') := by
  have hparts : body ++ tail = body.takeWhile (· ≠ '\\') ++ (body.dropWhile (· ≠ '\\') ++ tail) := by
    rw [← List.append_assoc, List.takeWhile_append_dropWhile]
  rw [hparts]
  refine takeWhile_append_of_head (fun c hc => ?_) fun c hc => ?_
  · have hbackslash : c ≠ '\\' := by simpa using List.mem_takeWhile_imp hc
    simp [endsAuthority, isSlash, hbody c (List.takeWhile_subset _ hc), hbackslash]
  · cases hstop : body.dropWhile (· ≠ '\\') with
    | nil =>
      rw [hstop] at hc
      simp [htail c hc]
    | cons d more =>
      rw [hstop] at hc
      cases hc
      have hhead : c ∈ (body.dropWhile (· ≠ '\\')).head? := by rw [hstop]; rfl
      have hbackslash : c = '\\' := by simpa using of_head?_dropWhile c hhead
      rw [hbackslash]
      decide

/-- What the client skips before the authority, and where it ends it. -/
theorem contacted_authority {rest : Chars} (h : (authority rest).dropWhile (· = '\\') ≠ []) :
    (rest.dropWhile isSlash).takeWhile (!endsAuthority ·) =
      ((authority rest).dropWhile (· = '\\')).takeWhile (· ≠ '\\') := by
  obtain ⟨tail, hrest, htail⟩ := authority_append rest
  have hbody : ∀ c ∈ (authority rest).dropWhile (· = '\\'), c ≠ '/' ∧ c ≠ '?' ∧ c ≠ '#' :=
    fun c hc => mem_authority (List.dropWhile_subset _ hc)
  have hskipped : rest.dropWhile isSlash = (authority rest).dropWhile (· = '\\') ++ tail := by
    have hslashes : ∀ c ∈ (authority rest).takeWhile (· = '\\'), isSlash c = true := by
      intro c hc
      have hbackslash : c = '\\' := by simpa using List.mem_takeWhile_imp hc
      simp [isSlash, hbackslash]
    have hparts : rest = (authority rest).takeWhile (· = '\\') ++ ((authority rest).dropWhile (· = '\\') ++ tail) := by
      rw [← List.append_assoc, List.takeWhile_append_dropWhile, ← hrest]
    rw [congrArg (List.dropWhile isSlash) hparts, List.dropWhile_append_of_pos hslashes]
    cases hfirst : (authority rest).dropWhile (· = '\\') with
    | nil => exact absurd hfirst h
    | cons c body =>
      have hslash : c ≠ '/' := (hbody c (by simp [hfirst])).1
      have hhead : c ∈ ((authority rest).dropWhile (· = '\\')).head? := by rw [hfirst]; rfl
      have hbackslash : c ≠ '\\' := by simpa using of_head?_dropWhile c hhead
      simp [isSlash, hslash, hbackslash]
  rw [hskipped, takeWhile_body hbody htail]

/-! ## Trust -/

/-- What follows the first `://` of a text names a loopback host. -/
def Trusted (rest : Chars) : Prop := ∃ host, hostPart (afterLast '@' (authority rest)) = some host ∧ hostIsLoopback host = true

/-- The texts of http(s) URLs with a host of something other than loopback, where `http_host` finds a loopback host behind it. -/
inductive Smuggles (hosts : HostParser) : Chars → Prop
  /-- A backslash stands in the authority, past those at its start, and before an at-sign: what precedes it names the host. -/
  | beforeBackslash {scheme rest before after : Chars} {host : UrlHost} (http : IsHttp scheme) (trusted : Trusted rest)
      (stops : (authority (cleaned rest)).dropWhile (· = '\\') = before ++ '\\' :: after) (first : '\\' ∉ before)
      (sign : '@' ∈ after) (contacted : hosts.read (afterLast '@' before) = some host) (remote : host.isLoopback = false) :
      Smuggles hosts (scheme ++ ':' :: '/' :: '/' :: rest)
  /-- The colon of the scheme is not the one of the first `://`: what stands between them names the host. -/
  | beforeSlashes {scheme between rest : Chars} {host : UrlHost} (http : IsHttp scheme) (trusted : Trusted rest)
      (first : ¬ [':', '/', '/'] <:+: scheme ++ ':' :: between ++ [':', '/'])
      (contacted : hosts.read (afterLast '@' (((withoutTabs between).dropWhile isSlash ++ [':']).takeWhile (!endsAuthority ·))) =
        some host) (remote : host.isLoopback = false) :
      Smuggles hosts (scheme ++ ':' :: between ++ ':' :: '/' :: '/' :: rest)

theorem allowsLocalFormatPaths_http (c : VgiConnection) (url : Chars) :
    { c with location := .http url, allowLocalFormatPaths := false }.allowsLocalFormatPaths = true ↔
      ∃ rest, afterScheme url = some rest ∧ Trusted rest := by
  rw [VgiConnection.allowsLocalFormatPaths, Bool.false_or, VgiLocation.isLocal, httpHost_eq, Option.any_eq_true]
  simp only [Option.bind_eq_some_iff, Trusted]
  constructor
  · rintro ⟨host, ⟨rest, hrest, hhost⟩, hloopback⟩
    exact ⟨rest, hrest, host, hhost, hloopback⟩
  · rintro ⟨rest, hrest, host, hhost, hloopback⟩
    exact ⟨host, ⟨rest, hrest, hhost⟩, hloopback⟩

/-- A trusted host begins at once. -/
theorem head?_of_trusted {s host : Chars} (h : hostPart s = some host) (hloopback : hostIsLoopback host = true) :
    ∃ c, s.head? = some c ∧ Plain c := by
  cases s with
  | nil =>
    cases h
    exact absurd hloopback (by decide)
  | cons c s =>
    refine ⟨c, rfl, ?_⟩
    by_contra hplain
    have hcut : hostPart ([] ++ c :: s) = some host := h
    have hempty := hostPart_cut hcut hloopback (by simpa using hplain)
    cases hempty
    exact absurd hloopback (by decide)

/-- The backslashes that the client skips before a trusted host stand in its userinfo. -/
theorem trusted_behind_backslashes {s host : Chars} (h : hostPart (afterLast '@' s) = some host)
    (hloopback : hostIsLoopback host = true) :
    s.dropWhile (· = '\\') ≠ [] ∧ afterLast '@' (s.dropWhile (· = '\\')) = afterLast '@' s := by
  have hparts : s.takeWhile (· = '\\') ++ s.dropWhile (· = '\\') = s := List.takeWhile_append_dropWhile
  by_cases hat : '@' ∈ s.dropWhile (· = '\\')
  · refine ⟨List.ne_nil_of_mem hat, ?_⟩
    rw [← congrArg (afterLast '@') hparts, afterLast_append_mem _ hat]
  · have hnone : '@' ∉ s := by
      rw [← hparts, List.mem_append]
      rintro (hmem | hmem)
      · exact absurd (List.mem_takeWhile_imp hmem) (by decide)
      · exact hat hmem
    rw [afterLast_of_notMem hnone] at h
    obtain ⟨c, hhead, hplain⟩ := head?_of_trusted h hloopback
    obtain ⟨tail, rfl⟩ := List.head?_eq_some_iff.1 hhead
    simp [hplain.2]

section
variable {hosts : HostParser}

/-- Behind `://` the client skips slashes too. -/
theorem hostOfUrl_authority {scheme rest : Chars} (h : ':' ∉ scheme) {host : UrlHost} :
    hosts.hostOfUrl (scheme ++ ':' :: '/' :: '/' :: rest) = some host ↔ IsHttp scheme ∧
      hosts.read (afterLast '@' (((cleaned rest).dropWhile isSlash).takeWhile (!endsAuthority ·))) = some host := by
  have hslashes : cleaned ('/' :: '/' :: rest) = '/' :: '/' :: cleaned rest :=
    cleaned_append (s := ['/', '/']) (by simp; decide) rest
  have hskipped : ('/' :: '/' :: cleaned rest).dropWhile isSlash = (cleaned rest).dropWhile isSlash := rfl
  rw [hostOfUrl_iff h, hslashes, hskipped]

/-- The slashes of a later `://` end the client's authority at the latest. -/
theorem hostOfUrl_between {scheme between rest : Chars} (h : ':' ∉ scheme) {host : UrlHost} :
    hosts.hostOfUrl (scheme ++ ':' :: between ++ ':' :: '/' :: '/' :: rest) = some host ↔ IsHttp scheme ∧
      hosts.read (afterLast '@' (((withoutTabs between).dropWhile isSlash ++ [':']).takeWhile (!endsAuthority ·))) =
        some host := by
  have hcleaned : cleaned (between ++ ':' :: '/' :: '/' :: rest) = withoutTabs between ++ ':' :: '/' :: '/' :: cleaned rest := by
    have hparts := cleaned_append (s := between ++ [':', '/', '/']) (by simp; decide) rest
    rw [withoutTabs_append, List.append_assoc, List.append_assoc] at hparts
    exact hparts
  have hends : ∀ s t : Chars, (s ++ ':' :: '/' :: t).takeWhile (!endsAuthority ·) = (s ++ [':']).takeWhile (!endsAuthority ·) := by
    intro s t
    have hslash : ('/' :: t).takeWhile (!endsAuthority ·) = [] := rfl
    rw [List.append_cons, List.takeWhile_append, hslash]
    split
    · rename_i hlength
      rw [List.append_nil, (List.takeWhile_prefix _).eq_of_length hlength]
    · rfl
  rw [List.append_assoc, List.cons_append, hostOfUrl_iff h, hcleaned, dropWhile_append_cons (by decide), hends]

/-- A trusted host at the start of the authority is contacted unless another stands before a backslash. -/
theorem loopback_of_authority {scheme rest : Chars} (hsafe : ¬ Smuggles hosts (scheme ++ ':' :: '/' :: '/' :: rest))
    (hscheme : ':' ∉ scheme) (htrusted : Trusted rest) {contacted : UrlHost}
    (hcontacted : hosts.hostOfUrl (scheme ++ ':' :: '/' :: '/' :: rest) = some contacted) : contacted.isLoopback = true := by
  obtain ⟨host, hhost, hloopback⟩ := htrusted
  obtain ⟨hhttp, hread⟩ := (hostOfUrl_authority hscheme).1 hcontacted
  have hcleaned := hostPart_cleaned hhost hloopback
  obtain ⟨hbody, hafterLast⟩ := trusted_behind_backslashes hcleaned hloopback
  rw [contacted_authority hbody] at hread
  rw [← hafterLast] at hcleaned
  generalize hrest : (authority (cleaned rest)).dropWhile (· = '\\') = body at *
  have hparts : body.takeWhile (· ≠ '\\') ++ body.dropWhile (· ≠ '\\') = body := List.takeWhile_append_dropWhile
  by_cases hat : '@' ∈ body.dropWhile (· ≠ '\\')
  · -- the at-sign that the code goes by is behind the authority that the client sees
    by_contra hother
    cases hstop : body.dropWhile (· ≠ '\\') with
    | nil =>
      rw [hstop] at hat
      cases hat
    | cons c after =>
      have hhead : c ∈ (body.dropWhile (· ≠ '\\')).head? := by rw [hstop]; rfl
      have hbackslash : c = '\\' := by simpa using of_head?_dropWhile c hhead
      subst hbackslash
      refine hsafe (@Smuggles.beforeBackslash hosts _ _ (body.takeWhile (· ≠ '\\')) after _ hhttp
        ⟨host, hhost, hloopback⟩ ?_ ?_ ?_ hread ?_)
      · rw [hrest, ← hstop, hparts]
      · exact fun hmem => absurd (List.mem_takeWhile_imp hmem) (by decide)
      · rw [hstop] at hat
        simpa using hat
      · simpa using hother
  · rw [← hparts, afterLast_append_notMem _ hat] at hcleaned
    have hcut : hostPart (afterLast '@' (body.takeWhile (· ≠ '\\'))) = some host := by
      refine hostPart_cut hcleaned hloopback fun c hc hplain => ?_
      have hbackslash : c = '\\' := by simpa using of_head?_dropWhile c hc
      exact hplain.2 hbackslash
    exact loopback_of_read hcut hloopback hread

/-- A trusted host is contacted unless another is smuggled in before it. -/
theorem loopback_of_not_smuggles {url rest : Chars} (hsafe : ¬ Smuggles hosts url) (hrest : afterScheme url = some rest)
    (htrusted : Trusted rest) {contacted : UrlHost} (hcontacted : hosts.hostOfUrl url = some contacted) :
    contacted.isLoopback = true := by
  obtain ⟨before, rfl, hfirst⟩ := afterScheme_eq_some_iff.1 hrest
  by_cases hcolon : ':' ∈ before
  · obtain ⟨scheme, between, rfl, hscheme⟩ := List.eq_append_cons_of_mem hcolon
    obtain ⟨hhttp, hread⟩ := (hostOfUrl_between hscheme).1 hcontacted
    by_contra hother
    exact hsafe (.beforeSlashes hhttp htrusted hfirst hread (by simpa using hother))
  · exact loopback_of_authority hsafe hcolon htrusted hcontacted

theorem contacted_of_smuggles {url : Chars} (h : Smuggles hosts url) :
    (∃ rest, afterScheme url = some rest ∧ Trusted rest) ∧
      ∃ contacted, hosts.hostOfUrl url = some contacted ∧ contacted.isLoopback = false := by
  cases h with
  | @beforeBackslash scheme rest before after host http trusted stops first sign contacted remote =>
    refine ⟨⟨rest, afterScheme_append http.colon_notMem rest, trusted⟩, host, ?_, remote⟩
    have hall : ∀ c ∈ before, decide (c ≠ '\\') = true := by
      intro c hc
      refine decide_eq_true ?_
      rintro rfl
      exact first hc
    refine (hostOfUrl_authority http.colon_notMem).2 ⟨http, ?_⟩
    rw [contacted_authority (by rw [stops]; simp), stops, takeWhile_append_of_head hall (by simp), contacted]
  | @beforeSlashes scheme between rest host http trusted first contacted remote =>
    exact ⟨⟨rest, afterScheme_eq_some_iff.2 ⟨_, rfl, first⟩, trusted⟩, host,
      (hostOfUrl_between http.colon_notMem).2 ⟨http, contacted⟩, remote⟩

/-- **A connection to an http(s) URL that is trusted with local paths without the opt-in goes to a loopback host, exactly if
the URL smuggles no other host in before the trusted one.** -/
theorem loopback_trust_iff (hosts : HostParser) (url : Chars) (c : VgiConnection) :
    ({ c with location := .http url, allowLocalFormatPaths := false }.allowsLocalFormatPaths = true →
      ∀ host, hosts.hostOfUrl url = some host → host.isLoopback = true) ↔ ¬ Smuggles hosts url := by
  rw [allowsLocalFormatPaths_http]
  constructor
  · intro hsafe hsmuggles
    obtain ⟨htrusted, contacted, hcontacted, hremote⟩ := contacted_of_smuggles hsmuggles
    rw [hsafe htrusted contacted hcontacted] at hremote
    cases hremote
  · rintro hsafe ⟨rest, hrest, htrusted⟩ contacted hcontacted
    exact loopback_of_not_smuggles hsafe hrest htrusted hcontacted

end

theorem readIpv4_localhost {host : Chars} (h : lower host = "localhost".toList) (octets : List Nat) :
    readIpv4 host ≠ some (octets, []) := by
  intro hread
  obtain ⟨c, hc, hsmall⟩ := List.mem_map.1 (show 'h' ∈ lower host by rw [h]; decide)
  rcases (readIpv4_reads hread).all c hc with hdigit | rfl
  · have hrange := isDigit_range hdigit
    by_cases hletter : c.toNat < 65 ∨ 90 < c.toNat
    · rw [toLower_eq_self hletter] at hsmall
      subst hsmall
      simp at hrange
    · have hlarge : c.toNat = 65 ∨ c.toNat = 66 ∨ c.toNat = 67 ∨ c.toNat = 68 ∨ c.toNat = 69 ∨ c.toNat = 70 := by omega
      rw [← Char.ofNat_toNat c] at hsmall
      rcases hlarge with hn | hn | hn | hn | hn | hn <;> rw [hn] at hsmall <;> exact absurd hsmall (by decide)
  · exact absurd hsmall (by decide)

/-- Hosts as they are written in ASCII, without escapes. -/
def asciiHosts : HostParser where
  parse := fun host =>
    if host.head? = some '[' then
      if host.tail.getLast? = some ']' then readBracketed host.tail.dropLast else none
    else if host.any isBracket then none
    else match readIpv4 host with
      | some (octets, []) => some (.ipv4 octets)
      | _ => some (.domain (lower host))
  localhost := by
    intro host h
    have hopen : host.head? ≠ some '[' := fun hhead =>
      absurd (mem_of_lower h (List.mem_of_mem_head? hhead) (by decide)) (by decide)
    have hbrackets : host.any isBracket = false := by
      rw [List.any_eq_false]
      intro c hc hbracket
      rcases (by simpa [isBracket] using hbracket : c = '[' ∨ c = ']') with rfl | rfl <;>
        exact absurd (mem_of_lower h hc (by decide)) (by decide)
    rw [if_neg hopen, hbrackets]
    split
    · contradiction
    · split
      · rename_i octets hread
        exact absurd hread (readIpv4_localhost h octets)
      · rw [h]
  ipv4 := by
    intro host octets h
    have hchars : ∀ c ∈ host, isBracket c = false := fun c hc =>
      (plain_of_addressChar (((readIpv4_reads h).all c hc).imp id .inl)).2
    have hopen : host.head? ≠ some '[' := fun hhead => absurd (hchars _ (List.mem_of_mem_head? hhead)) (by decide)
    have hbrackets : host.any isBracket = false := by
      rw [List.any_eq_false]
      exact fun c hc => by simp [hchars c hc]
    simp [hopen, hbrackets, h]
  bracketed := by
    intro inner
    simp
  unclosed := by
    intro rest h
    simp [h]
  forbidden := by
    intro host c hhead hc hbracket
    have hbrackets : host.any isBracket = true := List.any_eq_true.2 ⟨c, hc, hbracket⟩
    simp [hhead, hbrackets]

/-- `http://evil.com\@localhost/` is trusted as `localhost` and goes to `evil.com`. -/
def smuggling : Chars := "http://evil.com\\@localhost/".toList

/-- Neither is the backslash needed, nor are two slashes. -/
example : httpHost "http:/evil.com/://localhost/".toList = some "localhost".toList ∧
    asciiHosts.hostOfUrl "http:/evil.com/://localhost/".toList = some (.domain "evil.com".toList) := by decide +kernel

theorem smuggled_host_trusted : ¬ ∀ (hosts : HostParser) (url : Chars) (c : VgiConnection),
    { c with location := .http url, allowLocalFormatPaths := false }.allowsLocalFormatPaths = true →
      ∀ host, hosts.hostOfUrl url = some host → host.isLoopback = true := by
  intro hsafe
  let connection : VgiConnection := { location := .http smuggling, pool := .disabled, auth := .none }
  have hcontacted : asciiHosts.hostOfUrl smuggling = some (.domain "evil.com".toList) := by decide +kernel
  have htrusted : connection.allowsLocalFormatPaths = true := by decide +kernel
  exact absurd (hsafe asciiHosts smuggling connection htrusted _ hcontacted) (by decide)

end VgiDatafusion
