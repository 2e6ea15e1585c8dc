import Mathlib.Data.UInt
import Mathlib.Tactic.Ring

/-!
# Byte strings of a fixed length

A buffer is `Bytes n`: one byte for each index below `n`.  `splice` overwrites a range, as a
`memmove` into the buffer does, and `rdLE` reads a little-endian number.  The rules say what
is read inside a range that was just written (`rdLE_eq_mod`, for the bytes `leByte` of a
number) and that nothing changes outside it (`rdLE_splice_of_disjoint`).
-/

namespace Concur

/-- A buffer of `n` bytes. -/
def Bytes (n : ℕ) : Type := Fin n → UInt8

namespace Bytes

variable {n : ℕ}

/-- The byte at index `i`; reading past the end gives `0`. -/
def get (b : Bytes n) (i : ℕ) : UInt8 := if h : i < n then b ⟨i, h⟩ else 0

/-- The all-zero buffer. -/
def zero : Bytes n := fun _ => 0

/-- Overwrite the `len` bytes from `off` on with `f 0`, `f 1`, … -/
def splice (b : Bytes n) (off len : ℕ) (f : ℕ → UInt8) : Bytes n := fun j =>
  if off ≤ j.val ∧ j.val < off + len then f (j.val - off) else b j

lemma ext_get {a b : Bytes n} (h : ∀ i, i < n → a.get i = b.get i) : a = b := by
  funext j
  have hj := h j.val j.isLt
  simpa [get] using hj

@[simp] lemma get_zero (i : ℕ) : (zero : Bytes n).get i = 0 := by
  simp [get, zero]

lemma get_splice (b : Bytes n) (off len : ℕ) (f : ℕ → UInt8) {i : ℕ} (hi : i < n) :
    (b.splice off len f).get i =
      if off ≤ i ∧ i < off + len then f (i - off) else b.get i := by
  simp [get, hi, splice]

lemma get_splice_of_mem (b : Bytes n) {off len : ℕ} (f : ℕ → UInt8) {i : ℕ} (hi : i < n)
    (h1 : off ≤ i) (h2 : i < off + len) : (b.splice off len f).get i = f (i - off) := by
  rw [get_splice b off len f hi, if_pos ⟨h1, h2⟩]

lemma get_splice_of_not_mem (b : Bytes n) {off len : ℕ} (f : ℕ → UInt8) {i : ℕ}
    (h : i < off ∨ off + len ≤ i) : (b.splice off len f).get i = b.get i := by
  by_cases hi : i < n
  · rw [get_splice b off len f hi, if_neg (by omega)]
  · simp [get, hi]

/-! ## Little-endian numbers -/

/-- Byte `r` of the number `v`. -/
def leByte (v r : ℕ) : UInt8 := UInt8.ofNat (v / 256 ^ r)

/-- The number in the `k` bytes from `i` on, least significant byte first. -/
def rdLE (b : Bytes n) : ℕ → ℕ → ℕ
  | _, 0 => 0
  | i, k + 1 => (b.get i).toNat + 256 * rdLE b (i + 1) k

lemma toNat_leByte_zero (v : ℕ) : (leByte v 0).toNat = v % 256 := by
  simp [leByte]

lemma leByte_succ (v r : ℕ) : leByte v (r + 1) = leByte (v / 256) r := by
  rw [leByte, leByte, Nat.div_div_eq_div_mul, pow_succ']

lemma rdLE_lt (b : Bytes n) (i k : ℕ) : rdLE b i k < 256 ^ k := by
  induction k generalizing i with
  | zero => simp [rdLE]
  | succ k ih =>
    have hb : (b.get i).toNat < 256 := (b.get i).toNat_lt
    have hrest := ih (i + 1)
    rw [rdLE, pow_succ']
    omega

lemma rdLE_eq_mod {b : Bytes n} {i k v : ℕ} (h : ∀ r, r < k → b.get (i + r) = leByte v r) :
    rdLE b i k = v % 256 ^ k := by
  induction k generalizing i v with
  | zero => simp [rdLE, Nat.mod_one]
  | succ k ih =>
    have hfst : (b.get i).toNat = v % 256 := by
      have h0 := h 0 (by omega)
      rw [Nat.add_zero] at h0
      rw [h0, toNat_leByte_zero]
    have hrest : rdLE b (i + 1) k = v / 256 % 256 ^ k := by
      apply ih
      intro r hr
      rw [Nat.add_right_comm, Nat.add_assoc, h (r + 1) (by omega), leByte_succ]
    rw [rdLE, hfst, hrest, pow_succ', Nat.mod_mul]

lemma rdLE_congr {a b : Bytes n} {i k : ℕ} (h : ∀ r, r < k → a.get (i + r) = b.get (i + r)) :
    rdLE a i k = rdLE b i k := by
  induction k generalizing i with
  | zero => rfl
  | succ k ih =>
    have hfst := h 0 (by omega)
    rw [Nat.add_zero] at hfst
    rw [rdLE, rdLE, hfst, ih (fun r hr => ?_)]
    have hr' := h (r + 1) (by omega)
    rwa [Nat.add_right_comm, Nat.add_assoc]

lemma rdLE_splice_of_disjoint (b : Bytes n) {off len : ℕ} (f : ℕ → UInt8) {i k : ℕ}
    (h : i + k ≤ off ∨ off + len ≤ i) : rdLE (b.splice off len f) i k = rdLE b i k :=
  rdLE_congr fun _ _ => get_splice_of_not_mem b f (by omega)

lemma rdLE_splice_leByte (b : Bytes n) {off k : ℕ} (v : ℕ) (h : off + k ≤ n) :
    rdLE (b.splice off k (leByte v)) off k = v % 256 ^ k := by
  apply rdLE_eq_mod
  intro r hr
  rw [get_splice_of_mem b _ (by omega) (by omega) (by omega), Nat.add_sub_cancel_left]

@[simp] lemma rdLE_zero (i k : ℕ) : rdLE (zero : Bytes n) i k = 0 := by
  induction k generalizing i with
  | zero => rfl
  | succ k ih => rw [rdLE, ih]; simp

end Bytes

end Concur
