import Mathlib.Algebra.GroupWithZero.Nat

/-!
# Length-framed byte strings

A frame is eight little-endian bytes of length, then the bytes. Frames can be concatenated and read
back, so a concatenation of frames determines its parts (`framed_append_inj`, `frames_inj`), also when
something else follows.
-/
namespace Framing

/-- `width` little-endian bytes of `n`. -/
def littleEndian : Nat → Nat → List UInt8
  | 0, _ => []
  | width + 1, n => UInt8.ofNat n :: littleEndian width (n / 256)

@[simp] theorem length_littleEndian (width n : Nat) : (littleEndian width n).length = width := by
  induction width generalizing n with
  | zero => rfl
  | succ width ih => rw [littleEndian, List.length_cons, ih]

theorem littleEndian_inj {width m n : Nat} (hm : m < 256 ^ width) (hn : n < 256 ^ width)
    (h : littleEndian width m = littleEndian width n) : m = n := by
  induction width generalizing m n with
  | zero =>
    rw [Nat.pow_zero] at hm hn
    omega
  | succ width ih =>
    rw [littleEndian, littleEndian, List.cons.injEq] at h
    obtain ⟨hlow, hhigh⟩ := h
    rw [Nat.pow_succ] at hm hn
    have hmod : m % 256 = n % 256 := by simpa using congrArg UInt8.toNat hlow
    have hdiv : m / 256 = n / 256 := ih (by omega) (by omega) hhigh
    omega

def readLittleEndian : List UInt8 → Nat
  | [] => 0
  | byte :: bytes => byte.toNat + 256 * readLittleEndian bytes

theorem readLittleEndian_littleEndian {width n : Nat} (hn : n < 256 ^ width) :
    readLittleEndian (littleEndian width n) = n := by
  induction width generalizing n with
  | zero =>
    rw [Nat.pow_zero] at hn
    rw [littleEndian, readLittleEndian]
    omega
  | succ width ih =>
    rw [Nat.pow_succ] at hn
    rw [littleEndian, readLittleEndian, ih (by omega)]
    have hlow : (UInt8.ofNat n).toNat = n % 256 := by simp
    omega

/-- Two words of eight bytes, whatever follows them. -/
theorem word_append_inj {m n : Nat} {xs ys : List UInt8} (hm : m < 2 ^ 64) (hn : n < 2 ^ 64)
    (h : littleEndian 8 m ++ xs = littleEndian 8 n ++ ys) : m = n ∧ xs = ys := by
  obtain ⟨hword, hrest⟩ := List.append_inj h (by simp)
  exact ⟨littleEndian_inj (by simpa using hm) (by simpa using hn) hword, hrest⟩

def framed (bytes : List UInt8) : List UInt8 := littleEndian 8 bytes.length ++ bytes

theorem framed_append_inj {a b xs ys : List UInt8} (ha : a.length < 2 ^ 64) (hb : b.length < 2 ^ 64)
    (h : framed a ++ xs = framed b ++ ys) : a = b ∧ xs = ys := by
  rw [framed, framed, List.append_assoc, List.append_assoc] at h
  obtain ⟨hlength, hrest⟩ := word_append_inj ha hb h
  exact List.append_inj hrest hlength

def frames (parts : List (List UInt8)) : List UInt8 := parts.flatMap framed

theorem frames_inj {xs ys : List (List UInt8)} (hxs : ∀ x ∈ xs, x.length < 2 ^ 64) (hys : ∀ y ∈ ys, y.length < 2 ^ 64)
    (h : frames xs = frames ys) : xs = ys := by
  induction xs generalizing ys with
  | nil =>
    cases ys with
    | nil => rfl
    | cons y ys =>
      have hlength := congrArg List.length h
      simp [frames, framed] at hlength
      omega
  | cons x xs ih =>
    cases ys with
    | nil =>
      have hlength := congrArg List.length h
      simp [frames, framed] at hlength
    | cons y ys =>
      simp only [frames, List.flatMap_cons] at h
      obtain ⟨rfl, hrest⟩ := framed_append_inj (hxs x List.mem_cons_self) (hys y List.mem_cons_self) h
      have htail : xs = ys := by
        apply ih
        · exact fun z hz => hxs z (List.mem_cons_of_mem _ hz)
        · exact fun z hz => hys z (List.mem_cons_of_mem _ hz)
        · exact hrest
      rw [htail]

end Framing
