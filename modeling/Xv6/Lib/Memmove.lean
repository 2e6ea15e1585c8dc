import Xv6.Framework.Prog
import Mathlib.Algebra.GroupWithZero.Nat

/-!
# The two versions of `memmove`

`memmove` of `kernel/string.c`, whose length is a `uint`, and of `user/ulib.c`, whose length is an
`int`.  They choose the direction of the copy by different tests.  Both have the effect of `moved`,
which reads all bytes before it writes any.
-/

namespace Xv6.Memmove

open Concur

/-- The bytes at all addresses. -/
abbrev Mem : Type := BitVec 64 → UInt8

/-- `while(n-- > 0) *d++ = *s++;` -/
def copyUp (m : Mem) (d s : BitVec 64) : ℕ → Mem
  | 0 => m
  | n + 1 => copyUp (setAt m d (m s)) (d + 1) (s + 1) n

/-- `while(n-- > 0) *--d = *--s;` -/
def copyDown (m : Mem) (d s : BitVec 64) : ℕ → Mem
  | 0 => m
  | n + 1 => copyDown (setAt m (d - 1) (m (s - 1))) (d - 1) (s - 1) n

/-- `memmove(dst, src, n)` of the kernel. -/
def Kernel.memmove (m : Mem) (dst src : BitVec 64) (n : BitVec 32) : Mem :=
  if n = 0 then m
  else if src < dst ∧ dst < src + n.setWidth 64 then
    copyDown m (dst + n.setWidth 64) (src + n.setWidth 64) n.toNat
  else copyUp m dst src n.toNat

/-- `memmove(vdst, vsrc, n)` of user programs. -/
def User.memmove (m : Mem) (vdst vsrc : BitVec 64) (n : BitVec 32) : Mem :=
  if vdst < vsrc then copyUp m vdst vsrc n.toInt.toNat
  else copyDown m (vdst + n.signExtend 64) (vsrc + n.signExtend 64) n.toInt.toNat

/-- Memory `m'` is `m` with the `n` bytes from `src` on copied to `dst`. -/
structure IsCopy (m : Mem) (dst src : BitVec 64) (n : ℕ) (m' : Mem) : Prop where
  dest : ∀ i < n, m' (dst + BitVec.ofNat 64 i) = m (src + BitVec.ofNat 64 i)
  rest : ∀ a, (∀ i < n, a ≠ dst + BitVec.ofNat 64 i) → m' a = m a

/-- All bytes copied at once. -/
def moved (m : Mem) (dst src : BitVec 64) (n : ℕ) : Mem := fun a =>
  if dst.toNat ≤ a.toNat ∧ a.toNat < dst.toNat + n then m (src + (a - dst)) else m a

variable {m : Mem} {d s : BitVec 64} {n : ℕ}

lemma moved_isCopy (hd : d.toNat + n ≤ 2 ^ 64) : IsCopy m d s n (moved m d s n) := by
  refine ⟨fun i hi => ?_, fun a ha => if_neg fun hin => ?_⟩
  · have hsub : d + BitVec.ofNat 64 i - d = BitVec.ofNat 64 i := by bv_omega
    rw [moved, if_pos (by bv_omega), hsub]
  · exact ha (a.toNat - d.toNat) (by omega) (by bv_omega)

/-- Upwards, no byte is overwritten before it is read, unless the destination begins inside the
source. -/
lemma copyUp_eq (hs : s.toNat + n ≤ 2 ^ 64) (hd : d.toNat + n ≤ 2 ^ 64)
    (h : s.toNat < d.toNat → s.toNat + n ≤ d.toNat) : copyUp m d s n = moved m d s n := by
  induction n generalizing m d s with
  | zero =>
    funext a
    exact (if_neg (by omega)).symm
  | succ n ih =>
    rw [copyUp, ih (by bv_omega) (by bv_omega) (by bv_omega)]
    funext a
    by_cases ha : a = d
    · subst ha
      have hzero : s + (a - a) = s := by bv_omega
      rw [moved, if_neg (by bv_omega), setAt_self, moved, if_pos (by omega), hzero]
    · by_cases hin : d.toNat ≤ a.toNat ∧ a.toNat < d.toNat + (n + 1)
      · have hsrc : s + 1 + (a - (d + 1)) = s + (a - d) := by bv_omega
        rw [moved, if_pos (by bv_omega), hsrc, setAt_of_ne _ _ (by bv_omega), moved, if_pos hin]
      · rw [moved, if_neg (by bv_omega), setAt_of_ne _ _ ha, moved, if_neg hin]

/-- Downwards, the same unless the source begins inside the destination. -/
lemma copyDown_eq (hs : s.toNat + n ≤ 2 ^ 64) (hd : d.toNat + n ≤ 2 ^ 64)
    (h : d.toNat < s.toNat → d.toNat + n ≤ s.toNat) :
    copyDown m (d + BitVec.ofNat 64 n) (s + BitVec.ofNat 64 n) n = moved m d s n := by
  induction n generalizing m with
  | zero =>
    funext a
    exact (if_neg (by omega)).symm
  | succ n ih =>
    have hdec : ∀ a : BitVec 64, a + BitVec.ofNat 64 (n + 1) - 1 = a + BitVec.ofNat 64 n :=
      fun a => by bv_omega
    rw [copyDown, hdec, hdec, ih (by omega) (by omega) (by omega)]
    funext a
    by_cases ha : a = d + BitVec.ofNat 64 n
    · subst ha
      have hsrc : s + (d + BitVec.ofNat 64 n - d) = s + BitVec.ofNat 64 n := by bv_omega
      rw [moved, if_neg (by bv_omega), setAt_self, moved, if_pos (by bv_omega), hsrc]
    · by_cases hin : d.toNat ≤ a.toNat ∧ a.toNat < d.toNat + (n + 1)
      · rw [moved, if_pos (by bv_omega), setAt_of_ne _ _ (by bv_omega), moved, if_pos hin]
      · rw [moved, if_neg (by omega), setAt_of_ne _ _ ha, moved, if_neg hin]

lemma kernel_memmove_eq {dst src : BitVec 64} {n : BitVec 32} (hsrc : src.toNat + n.toNat ≤ 2 ^ 64)
    (hdst : dst.toNat + n.toNat ≤ 2 ^ 64) :
    Kernel.memmove m dst src n = moved m dst src n.toNat := by
  unfold Kernel.memmove
  split
  · rename_i hn
    subst hn
    exact copyUp_eq (n := 0) hsrc hdst Nat.le_of_lt
  split
  · have hwide : n.setWidth 64 = BitVec.ofNat 64 n.toNat := by bv_omega
    rw [hwide]
    exact copyDown_eq hsrc hdst (by bv_omega)
  · exact copyUp_eq hsrc hdst (by bv_omega)

lemma user_memmove_eq {dst src : BitVec 64} {n : BitVec 32} (hn : 0 ≤ n.toInt)
    (hsrc : src.toNat + n.toNat ≤ 2 ^ 64) (hdst : dst.toNat + n.toNat ≤ 2 ^ 64) :
    User.memmove m dst src n = moved m dst src n.toNat := by
  have hmsb : n.msb = false := BitVec.msb_eq_false_iff_two_mul_lt.2 (BitVec.toInt_pos_iff.1 hn)
  have hcount : n.toInt.toNat = n.toNat := by
    rw [BitVec.toInt_eq_toNat_of_msb hmsb, Int.toNat_natCast]
  have hwide : n.signExtend 64 = BitVec.ofNat 64 n.toNat := by
    rw [BitVec.signExtend_eq_setWidth_of_msb_false hmsb]
    bv_omega
  unfold User.memmove
  rw [hcount, hwide]
  split
  · exact copyUp_eq hsrc hdst (by bv_omega)
  · exact copyDown_eq hsrc hdst (by bv_omega)

/-- Whether or not the ranges overlap, and in whichever direction, both versions copy the source as
it was and change nothing else; for the lengths that both can have, they do the same. -/
theorem memmove_simultaneous (m : Mem) (dst src : BitVec 64) (n : BitVec 32)
    (hsrc : src.toNat + n.toNat ≤ 2 ^ 64) (hdst : dst.toNat + n.toNat ≤ 2 ^ 64) :
    IsCopy m dst src n.toNat (Kernel.memmove m dst src n) ∧
      (0 ≤ n.toInt → IsCopy m dst src n.toNat (User.memmove m dst src n) ∧
        User.memmove m dst src n = Kernel.memmove m dst src n) := by
  rw [kernel_memmove_eq hsrc hdst]
  refine ⟨moved_isCopy hdst, fun hn => ?_⟩
  rw [user_memmove_eq hn hsrc hdst]
  exact ⟨moved_isCopy hdst, rfl⟩

/-- A copy that overlaps, at the end of the address space. -/
theorem memmove_simultaneous_overlap :
    IsCopy (fun a => UInt8.ofNat a.toNat) (-3) (-4) 3
      (Kernel.memmove (fun a => UInt8.ofNat a.toNat) (-3) (-4) 3) :=
  (memmove_simultaneous (fun a => UInt8.ofNat a.toNat) (-3) (-4) 3 (by decide) (by decide)).1

end Xv6.Memmove
