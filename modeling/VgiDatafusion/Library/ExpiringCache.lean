import Mathlib.Data.List.AList
import Mathlib.Data.List.Induction

/-!
# Caches whose entries expire

An entry is served while it is younger than its own maximum age; a lookup that finds it too old takes it out. The age is
told by a reading of the clock, which may be older than the lookup. `current` is the entry that a history of stores and
flushes leaves for a key: a cache serves nothing else (`Tracks.get_some`), and it serves it as long as it is fresh
(`Tracks.get_fresh`).
-/
namespace ExpiringCache

structure Entry (V : Type) where
  value : V
  storedAt : Nat
  maxAge : Nat

variable {K V : Type}

def Entry.fresh (e : Entry V) (now : Nat) : Bool := now - e.storedAt < e.maxAge

theorem Entry.fresh_of_le {e : Entry V} {now later : Nat} (h : e.fresh later = true) (hle : now ≤ later) : e.fresh now = true := by
  simp only [fresh, decide_eq_true_eq] at h ⊢
  omega

inductive Event (K V : Type)
  | stored (k : K) (e : Entry V)
  | cleared

variable [DecidableEq K]

/-- What an event leaves for a key. -/
def Event.leaves (k : K) (before : Option (Entry V)) : Event K V → Option (Entry V)
  | stored k' e => if k' = k then some e else before
  | cleared => none

/-- The last that was stored since the last flush. -/
def current (log : List (Event K V)) (k : K) : Option (Entry V) := log.foldl (Event.leaves k) none

theorem current_concat (log : List (Event K V)) (event : Event K V) (k : K) :
    current (log ++ [event]) k = event.leaves k (current log k) := List.foldl_concat _ _ _ _

theorem mem_of_current {log : List (Event K V)} {k : K} {e : Entry V} (h : current log k = some e) : .stored k e ∈ log := by
  induction log using List.reverseRecOn with
  | nil => cases h
  | append_singleton log event ih =>
    rw [current_concat] at h
    cases event with
    | stored k' e' =>
      rw [Event.leaves] at h
      split at h
      next hk =>
        cases h
        simp [hk]
      next => exact List.mem_append_left _ (ih h)
    | cleared => cases h

abbrev Entries (K V : Type) := AList fun _ : K => Entry V

def get (m : Entries K V) (now : Nat) (k : K) : Option V × Entries K V :=
  match (m.lookup k).filter fun e => e.fresh now with
  | some e => (some e.value, m)
  | none => (none, m.erase k)

/-- The cache has what is current, as far as it may still be served. -/
structure Tracks (clock : Nat) (log : List (Event K V)) (m : Entries K V) : Prop where
  sound : ∀ k e, m.lookup k = some e → current log k = some e
  complete : ∀ k e, current log k = some e → m.lookup k = some e ∨ e.fresh clock = false

variable {clock now : Nat} {log : List (Event K V)} {m : Entries K V} {k : K} {v : V}

theorem tracks_empty (clock : Nat) : Tracks clock [] (∅ : Entries K V) := by
  constructor
  · intro k e h
    simp at h
  · rintro k e ⟨⟩

/-- Time passes. -/
theorem Tracks.later {later : Nat} (h : Tracks clock log m) (hle : clock ≤ later) : Tracks later log m := by
  refine ⟨h.sound, ?_⟩
  intro k e hcurrent
  rcases h.complete k e hcurrent with hlookup | hstale
  · exact .inl hlookup
  · right
    by_contra hfresh
    rw [Bool.not_eq_false] at hfresh
    rw [Entry.fresh_of_le hfresh hle] at hstale
    cases hstale

theorem Tracks.stored (h : Tracks clock log m) (k : K) (e : Entry V) : Tracks clock (log ++ [.stored k e]) (m.insert k e) := by
  constructor
  · intro k' e' hlookup
    rw [current_concat, Event.leaves]
    by_cases hk : k = k'
    · subst hk
      rw [AList.lookup_insert] at hlookup
      rw [if_pos rfl, hlookup]
    · rw [AList.lookup_insert_ne (Ne.symm hk)] at hlookup
      rw [if_neg hk]
      exact h.sound k' e' hlookup
  · intro k' e' hcurrent
    rw [current_concat, Event.leaves] at hcurrent
    by_cases hk : k = k'
    · subst hk
      rw [if_pos rfl] at hcurrent
      exact .inl (by rw [AList.lookup_insert, hcurrent])
    · rw [if_neg hk] at hcurrent
      rw [AList.lookup_insert_ne (Ne.symm hk)]
      exact h.complete k' e' hcurrent

theorem Tracks.cleared (clock : Nat) (log : List (Event K V)) : Tracks clock (log ++ [.cleared]) (∅ : Entries K V) := by
  constructor
  · intro k e h
    simp at h
  · intro k e h
    rw [current_concat] at h
    cases h

/-- A lookup only takes out what is stale already. -/
theorem Tracks.get (h : Tracks clock log m) (hnow : now ≤ clock) (k : K) : Tracks clock log (get m now k).2 := by
  rw [ExpiringCache.get]
  split
  next => exact h
  next hmiss =>
    constructor
    · intro k' e hlookup
      by_cases hk : k' = k
      · subst hk
        rw [AList.lookup_erase] at hlookup
        cases hlookup
      · rw [AList.lookup_erase_ne hk] at hlookup
        exact h.sound k' e hlookup
    · intro k' e hcurrent
      by_cases hk : k' = k
      · subst hk
        rcases h.complete k' e hcurrent with hlookup | hstale
        · right
          rw [hlookup, Option.filter_eq_none_iff] at hmiss
          by_contra hfresh
          rw [Bool.not_eq_false] at hfresh
          exact hmiss e rfl (Entry.fresh_of_le hfresh hnow)
        · exact .inr hstale
      · rw [AList.lookup_erase_ne hk]
        exact h.complete k' e hcurrent

/-- **What is served is current**, and was not too old when the clock was read. -/
theorem Tracks.get_some (h : Tracks clock log m) (hget : (ExpiringCache.get m now k).1 = some v) :
    ∃ e, current log k = some e ∧ e.value = v ∧ e.fresh now = true := by
  rw [ExpiringCache.get] at hget
  split at hget
  next e hfound =>
    obtain ⟨hlookup, hfresh⟩ := Option.filter_eq_some_iff.1 hfound
    cases hget
    exact ⟨e, h.sound k e hlookup, rfl, hfresh⟩
  next => cases hget

/-- **What is current is served** while it is fresh. -/
theorem Tracks.get_fresh (h : Tracks clock log m) (hnow : now ≤ clock) {e : Entry V} (hcurrent : current log k = some e)
    (hfresh : e.fresh clock = true) : (ExpiringCache.get m now k).1 = some e.value := by
  rcases h.complete k e hcurrent with hlookup | hstale
  · rw [ExpiringCache.get, hlookup, Option.filter_some, if_pos (Entry.fresh_of_le hfresh hnow)]
  · rw [hfresh] at hstale
    cases hstale

end ExpiringCache
