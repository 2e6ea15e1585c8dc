import Mathlib.Algebra.Order.Group.Int
import Mathlib.Algebra.GroupWithZero.Nat

/-!
# The `printf` of the kernel and of user programs

`printint`, `printptr` and the loop over the format, from `kernel/printf.c` and `user/printf.c`.

A loop over the format is described by the calls that it makes, in order (`Item`).  The kernel's
loop looks at the format from a `%` on, that of user programs has a state instead; they make the
same calls (`items_eq`).  What differs is `printint`: it has a `long long` in the kernel, but an
`int` in user programs.

In both, `printint` stores the digits in an array of 16 characters, with the last digit first.  The
result `none` stands for a store outside the array.  The kernel prints numbers of more than 16
characters, and then `printint` does not stay inside the array (`Kernel.printint_eq`).
-/

namespace Xv6.Printf

/-- The bases that are used. -/
inductive Base where
  | dec
  | hex
  deriving DecidableEq

def Base.val : Base → ℕ
  | dec => 10
  | hex => 16

lemma Base.two_le (b : Base) : 2 ≤ b.val := by cases b <;> decide

lemma Base.le_sixteen (b : Base) : b.val ≤ 16 := by cases b <;> decide

/-- What `printf` passes on to `printint`: the type in `va_arg`, the base and `sign`. -/
structure Conv where
  long : Bool
  base : Base
  sign : Bool
  deriving DecidableEq

/-! ## Numerals -/

/-- The usual numeral of a number, with small letters. -/
def numeral (b : Base) (z : ℤ) : List Char :=
  if z < 0 then '-' :: b.val.toDigits z.natAbs else b.val.toDigits z.toNat

/-- The number that a conversion is about, from the register that holds the argument. -/
def Conv.value (c : Conv) (v : BitVec 64) : ℤ :=
  match c.long, c.sign with
  | true, true => v.toInt
  | true, false => v.toNat
  | false, true => (v.setWidth 32).toInt
  | false, false => (v.setWidth 32).toNat

/-! ## Numbers in an array -/

/-- `buf[i++] = c`, where `buf[0]`, …, `buf[i - 1]` are what is stored so far. -/
def push (buf : List Char) (c : Char) : Option (List Char) :=
  if buf.length < 16 then some (buf ++ [c]) else none

/-- `do { buf[i++] = digits[x % base]; } while((x /= base) != 0);` -/
def digitLoop (digits : List Char) (b : Base) (buf : List Char) (x : ℕ) : Option (List Char) :=
  (push buf (digits.getD (x % b.val) '?')).bind fun buf =>
    if x / b.val ≠ 0 then digitLoop digits b buf (x / b.val) else some buf
termination_by x
decreasing_by
  exact Nat.div_lt_self (Nat.pos_of_ne_zero fun hx => by simp_all) b.two_le

/-- The digits, the sign and the loop that prints them, from the end of the array on. -/
def printDigits (digits : List Char) (b : Base) (neg : Bool) (x : ℕ) : Option (List Char) :=
  (digitLoop digits b [] x).bind fun buf =>
    if neg then (push buf '-').map List.reverse else some buf.reverse

/-- A list of characters that fits in the array. -/
def fit (s : List Char) : Option (List Char) := if s.length ≤ 16 then some s else none

lemma fit_of_le {s : List Char} (h : s.length ≤ 16) : fit s = some s := if_pos h

lemma fit_of_lt {s : List Char} (h : 16 < s.length) : fit s = none := if_neg h.not_ge

lemma push_eq_fit (buf : List Char) (c : Char) : push buf c = fit (buf ++ [c]) := by
  simp only [push, fit, List.length_append, List.length_singleton, Nat.succ_le_iff]

section

variable {digits : List Char} {f : Char → Char} {b : Base}

lemma digitLoop_eq (hdigits : ∀ d < 16, digits.getD d '?' = f d.digitChar) (buf : List Char)
    (x : ℕ) : digitLoop digits b buf x =
      fit (buf ++ ((b.val.toDigits x).map f).reverse) := by
  induction x using Nat.strongRecOn generalizing buf with
  | _ x ih =>
  have hlt : x % b.val < 16 := (Nat.mod_lt _ (by have := b.two_le; omega)).trans_le b.le_sixteen
  rw [digitLoop, Nat.toDigits_eq_if b.two_le, hdigits _ hlt]
  by_cases hx : x / b.val = 0
  · have hsmall : x < b.val := (Nat.div_eq_zero_iff.1 hx).resolve_left (by have := b.two_le; omega)
    rw [if_pos hsmall, Nat.mod_eq_of_lt hsmall, push_eq_fit]
    simp only [hx, ne_eq, not_true_eq_false, if_false, Option.bind_fun_some]
    rfl
  · have hbig : ¬ x < b.val := fun h => hx (Nat.div_eq_of_lt h)
    rw [if_neg hbig]
    by_cases hbuf : buf.length < 16
    · rw [push, if_pos hbuf, Option.bind_some, if_pos hx,
        ih _ (Nat.div_lt_self (Nat.pos_of_ne_zero fun h0 => hx (by simp [h0])) b.two_le)]
      simp
    · rw [push, if_neg hbuf, Option.bind_none, fit_of_lt]
      simp only [List.length_append, List.length_reverse, List.length_map, List.length_singleton]
      omega

lemma printDigits_eq (hdigits : ∀ d < 16, digits.getD d '?' = f d.digitChar) (hminus : f '-' = '-')
    (neg : Bool) (x : ℕ) : printDigits digits b neg x =
      fit (((if neg then ['-'] else []) ++ b.val.toDigits x).map f) := by
  rw [printDigits, digitLoop_eq hdigits]
  cases neg with
  | false =>
    by_cases h : (b.val.toDigits x).length ≤ 16 <;> simp [fit, h]
  | true =>
    have hbuf : ([] ++ ((b.val.toDigits x).map f).reverse).length = (b.val.toDigits x).length := by
      rw [List.nil_append, List.length_reverse, List.length_map]
    have hall : (((if true then ['-'] else []) ++ b.val.toDigits x).map f).length =
        (b.val.toDigits x).length + 1 := by
      rw [if_pos rfl, List.length_map, List.length_append, List.length_singleton, Nat.add_comm]
    by_cases h : (b.val.toDigits x).length < 16
    · rw [fit_of_le (by omega), fit_of_le (by omega), Option.bind_some, if_pos rfl, push,
        if_pos (by omega)]
      simp [hminus]
    · rw [fit_of_lt (s := List.map f _) (by omega)]
      by_cases hle : (b.val.toDigits x).length ≤ 16
      · rw [fit_of_le (by omega), Option.bind_some, if_pos rfl, push, if_neg (by omega)]
        rfl
      · rw [fit_of_lt (by omega)]
        rfl

end

/-- `static char digits[] = "0123456789abcdef";` -/
def Kernel.digits : List Char := "0123456789abcdef".toList

/-- `static char digits[] = "0123456789ABCDEF";` -/
def User.digits : List Char := "0123456789ABCDEF".toList

/-- `printint(xx, base, sign)` of the kernel. -/
def Kernel.printint (xx : BitVec 64) (b : Base) (sign : Bool) : Option (List Char) :=
  let neg := sign && xx.slt 0
  printDigits digits b neg (if neg then (-xx).toNat else xx.toNat)

/-- `printint(fd, xx, base, sgn)` of user programs. -/
def User.printint (xx : BitVec 32) (b : Base) (sgn : Bool) : Option (List Char) :=
  let neg := sgn && xx.slt 0
  printDigits digits b neg (if neg then (-xx).toNat else xx.toNat)

lemma Kernel.digits_eq : ∀ d < 16, digits.getD d '?' = id d.digitChar := by decide

lemma User.digits_eq : ∀ d < 16, digits.getD d '?' = d.digitChar.toUpper := by decide

lemma numeral_eq {w : ℕ} (xx : BitVec w) (b : Base) (sign : Bool) :
    (if sign && xx.slt 0 then ['-'] else []) ++
        b.val.toDigits (if sign && xx.slt 0 then (-xx).toNat else xx.toNat) =
      numeral b (if sign then xx.toInt else xx.toNat) := by
  cases sign with
  | false => simp [numeral]
  | true =>
    have hslt : xx.slt 0 = decide (xx.toInt < 0) := by simp [BitVec.slt]
    simp only [Bool.true_and, hslt, decide_eq_true_eq, if_true, numeral]
    split
    · rename_i hneg
      have habs : (-xx).toNat = xx.toInt.natAbs := by
        have hlt := xx.isLt
        have hpos : 0 < xx.toNat := by
          by_contra h0
          have hzero : xx = 0 := BitVec.eq_of_toNat_eq (by simp; omega)
          simp [hzero] at hneg
        rw [BitVec.toInt_eq_toNat_cond] at hneg ⊢
        rw [BitVec.toNat_neg, Nat.mod_eq_of_lt (by omega)]
        split at hneg <;> omega
      rw [habs]
      rfl
    · rename_i hneg
      rw [BitVec.toInt_eq_toNat_cond] at hneg ⊢
      have hlt := xx.isLt
      split at hneg
      · rename_i hsmall
        rw [if_pos hsmall, Int.toNat_natCast]
        rfl
      · omega

lemma Kernel.printint_eq (xx : BitVec 64) (b : Base) (sign : Bool) :
    printint xx b sign = fit (numeral b (if sign then xx.toInt else xx.toNat)) := by
  rw [printint, printDigits_eq digits_eq rfl, List.map_id, numeral_eq]

lemma User.printint_eq (xx : BitVec 32) (b : Base) (sgn : Bool) : printint xx b sgn =
    fit ((numeral b (if sgn then xx.toInt else xx.toNat)).map Char.toUpper) := by
  rw [printint, printDigits_eq digits_eq (by decide), numeral_eq]

/-! ## Numerals are exact

Two numbers have the same numeral only if they are equal.  This holds with capital letters too, so
that `f` stands for the letters that are used. -/

section

variable {f : Char → Char} {b : Base}

lemma fit_eq_some {s t : List Char} : fit s = some t ↔ s = t ∧ t.length ≤ 16 := by
  unfold fit
  constructor
  · intro h
    split at h
    · rename_i hlen
      cases h
      exact ⟨rfl, hlen⟩
    · cases h
  · intro h
    rw [h.1, if_pos h.2]

lemma exists_digit_of_mem {x : ℕ} {c : Char} (hc : c ∈ b.val.toDigits x) :
    ∃ d < 16, c = d.digitChar := by
  induction x using Nat.strongRecOn with
  | _ x ih =>
  have hb := b.two_le
  have hdigit : ∀ d < b.val, d < 16 := fun d hd => hd.trans_le b.le_sixteen
  rw [Nat.toDigits_eq_if b.two_le] at hc
  split at hc
  · rename_i hx
    exact ⟨x, hdigit x hx, List.mem_singleton.1 hc⟩
  · rename_i hx
    obtain hc | hc := List.mem_append.1 hc
    · exact ih _ (Nat.div_lt_self (by omega) b.two_le) hc
    · exact ⟨x % b.val, hdigit _ (Nat.mod_lt _ (by omega)), List.mem_singleton.1 hc⟩

lemma toDigits_inj (hf : ∀ d < 16, ∀ e < 16, f d.digitChar = f e.digitChar → d = e) {x y : ℕ}
    (h : (b.val.toDigits x).map f = (b.val.toDigits y).map f) : x = y := by
  induction x using Nat.strongRecOn generalizing y with
  | _ x ih =>
  have hb := b.two_le
  have hdigit : ∀ d < b.val, d < 16 := fun d hd => hd.trans_le b.le_sixteen
  have hlong : ∀ n, 0 < ((b.val.toDigits n).map f).length := fun n => by
    rw [List.length_map]
    exact Nat.length_toDigits_pos
  rw [Nat.toDigits_eq_if b.two_le, Nat.toDigits_eq_if (n := y) b.two_le] at h
  by_cases hx : x < b.val <;> by_cases hy : y < b.val
  · rw [if_pos hx, if_pos hy] at h
    exact hf x (hdigit x hx) y (hdigit y hy) (List.singleton_inj.1 h)
  · have hlen := congrArg List.length h
    have := hlong (y / b.val)
    simp only [hx, hy, if_true, if_false, List.map_append, List.length_append, List.length_map,
      List.length_singleton] at hlen this
    omega
  · have hlen := congrArg List.length h
    have := hlong (x / b.val)
    simp only [hx, hy, if_true, if_false, List.map_append, List.length_append, List.length_map,
      List.length_singleton] at hlen this
    omega
  · rw [if_neg hx, if_neg hy, List.map_append, List.map_append] at h
    obtain ⟨hquot, hrem⟩ := List.append_inj' h rfl
    have hq := ih _ (Nat.div_lt_self (by omega) b.two_le) hquot
    have hr := hf _ (hdigit _ (Nat.mod_lt x (by omega))) _ (hdigit _ (Nat.mod_lt y (by omega)))
      (List.singleton_inj.1 hrem)
    rw [← Nat.div_add_mod x b.val, hq, hr, Nat.div_add_mod]

lemma numeral_inj (hf : ∀ d < 16, ∀ e < 16, f d.digitChar = f e.digitChar → d = e)
    (hminus : ∀ d < 16, f d.digitChar ≠ f '-') {z z' : ℤ}
    (h : (numeral b z).map f = (numeral b z').map f) : z = z' := by
  -- a numeral with a sign and one without differ in the first character
  have hsign : ∀ (x : ℕ) (s : List Char), (b.val.toDigits x).map f ≠ ('-' :: s).map f := by
    intro x s heq
    have hmem : f '-' ∈ (b.val.toDigits x).map f := by
      rw [heq]
      exact List.mem_cons_self
    obtain ⟨c, hc, hcf⟩ := List.mem_map.1 hmem
    obtain ⟨d, hd, rfl⟩ := exists_digit_of_mem hc
    exact hminus d hd hcf
  unfold numeral at h
  by_cases hz : z < 0 <;> by_cases hz' : z' < 0
  · rw [if_pos hz, if_pos hz'] at h
    have := toDigits_inj hf (List.tail_eq_of_cons_eq h)
    omega
  · rw [if_pos hz, if_neg hz'] at h
    exact absurd h.symm (hsign _ _)
  · rw [if_neg hz, if_pos hz'] at h
    exact absurd h (hsign _ _)
  · rw [if_neg hz, if_neg hz'] at h
    have := toDigits_inj hf h
    omega

end

lemma numeral_injective (b : Base) : Function.Injective (numeral b) := fun z z' h =>
  numeral_inj (f := id) (by decide) (by decide) (congrArg (List.map id) h)

lemma upper_numeral_injective (b : Base) :
    Function.Injective fun z => (numeral b z).map Char.toUpper := fun _ _ h =>
  numeral_inj (by decide) (by decide) h

/-! ## Conversions -/

/-- `va_arg` and `printint` of the kernel; an `int` is extended to a `long long`. -/
def Kernel.convert (c : Conv) (v : BitVec 64) : Option (List Char) :=
  printint (if c.long then v else (v.setWidth 32).signExtend 64) c.base c.sign

/-- `va_arg` and `printint` of user programs; a `uint64` is cut to an `int`. -/
def User.convert (c : Conv) (v : BitVec 64) : Option (List Char) :=
  printint (v.setWidth 32) c.base c.sign

/-- The kernel's conversion of an argument is in bounds and exact.  The array is not too small, and
an `unsigned int` is not a negative `int`, which would be extended to a `long long`. -/
def Conv.Fits (c : Conv) (v : BitVec 64) : Prop :=
  (numeral c.base (c.value v)).length ≤ 16 ∧
    (c.long = false → c.sign = false → (v.setWidth 32).toNat < 2 ^ 31)

/-- The number that the kernel prints is the argument, unless this is a large `unsigned int`. -/
lemma value_extended (c : Conv) (v : BitVec 64) :
    (if c.sign then (if c.long then v else (v.setWidth 32).signExtend 64).toInt
        else ((if c.long then v else (v.setWidth 32).signExtend 64).toNat : ℤ)) = c.value v ↔
      (c.long = false → c.sign = false → (v.setWidth 32).toNat < 2 ^ 31) := by
  obtain ⟨_ | _, b, _ | _⟩ := c
  · simp only [Bool.false_eq_true, if_false, Conv.value, true_implies]
    rw [BitVec.toNat_signExtend, BitVec.toNat_setWidth_of_le (by decide), BitVec.msb_eq_decide]
    simp only [decide_eq_true_eq]
    split <;> omega
  · simp only [Bool.false_eq_true, if_false, if_true, Conv.value]
    rw [BitVec.toInt_signExtend_of_le (by decide)]
    simp
  · simp [Conv.value]
  · simp [Conv.value]

/-- A conversion that reaches `printint` ends, stays inside `buf` and prints the numeral of its
argument exactly if this fits. -/
theorem printint_in_bounds (c : Conv) (v : BitVec 64) :
    Kernel.convert c v = some (numeral c.base (c.value v)) ↔ c.Fits v := by
  rw [Kernel.convert, Kernel.printint_eq, fit_eq_some, (numeral_injective c.base).eq_iff,
    value_extended, Conv.Fits, and_comm]

/-- The most negative number, as an `int`. -/
theorem printint_in_bounds_min :
    Kernel.convert ⟨false, .dec, true⟩ (1 <<< 31) = some "-2147483648".toList :=
  (printint_in_bounds ⟨false, .dec, true⟩ (1 <<< 31)).2 ⟨by decide, by rintro _ ⟨⟩⟩

/-- The array is too small for `%lu` with the largest number, for `%ld` with the most negative one
and for `%u` with the largest number; `%x` prints a negative `int` with 16 digits. -/
theorem printint_out_of_bounds :
    Kernel.convert ⟨true, .dec, false⟩ (-1) = none ∧
      Kernel.convert ⟨true, .dec, true⟩ (1 <<< 63) = none ∧
      Kernel.convert ⟨false, .dec, false⟩ (-1) = none ∧
      Kernel.convert ⟨false, .hex, false⟩ (-1) = some "ffffffffffffffff".toList := by
  simp only [Kernel.convert, Kernel.printint_eq]
  decide

/-! ## The loops over the format -/

/-- `printptr(x)`, the same in both up to `digits`. -/
def printptr (digits : List Char) (x : BitVec 64) : List Char :=
  '0' :: 'x' :: (List.range 16).map fun i => digits.getD (x <<< (4 * i) >>> 60).toNat '?'

/-- What the loop does with the characters after a `%`. -/
inductive Directive where
  /-- It calls `printint` and skips this many characters. -/
  | int (c : Conv) (skip : ℕ)
  | ptr
  | str
  | percent
  | unknown

/-- The tests for `c0`, `c1` and `c2`, the same in both. -/
def directive (c0 c1 c2 : Char) : Directive :=
  if c0 = 'd' then .int ⟨false, .dec, true⟩ 0
  else if c0 = 'l' ∧ c1 = 'd' then .int ⟨true, .dec, true⟩ 1
  else if c0 = 'l' ∧ c1 = 'l' ∧ c2 = 'd' then .int ⟨true, .dec, true⟩ 2
  else if c0 = 'u' then .int ⟨false, .dec, false⟩ 0
  else if c0 = 'l' ∧ c1 = 'u' then .int ⟨true, .dec, false⟩ 1
  else if c0 = 'l' ∧ c1 = 'l' ∧ c2 = 'u' then .int ⟨true, .dec, false⟩ 2
  else if c0 = 'x' then .int ⟨false, .hex, false⟩ 0
  else if c0 = 'l' ∧ c1 = 'x' then .int ⟨true, .hex, false⟩ 1
  else if c0 = 'l' ∧ c1 = 'l' ∧ c2 = 'x' then .int ⟨true, .hex, false⟩ 2
  else if c0 = 'p' then .ptr
  else if c0 = 's' then .str
  else if c0 = '%' then .percent
  else .unknown

/-- A call that the loop makes; `arg` is the number of the argument that `va_arg` takes. -/
inductive Item where
  | chr (c : Char)
  | int (c : Conv) (arg : ℕ)
  | ptr (arg : ℕ)
  | str (arg : ℕ)
  deriving DecidableEq

/-- The character that ends a string. -/
def nul : Char := Char.ofNat 0

/-- `s[i]` -/
def charAt (s : List Char) (i : ℕ) : Char := s.getD i nul

lemma length_drop_lt (c : Char) (n : ℕ) (rest : List Char) :
    (rest.drop n).length < (c :: rest).length :=
  Nat.lt_succ_of_le (List.length_drop ▸ Nat.sub_le _ _)

/-- The loop of `printf` in the kernel, from `fmt[i]` on, after `k` arguments. -/
def Kernel.items (fmt : List Char) (k : ℕ) : List Item :=
  match fmt with
  | [] => []
  | cx :: rest =>
    if cx = nul then []
    else if cx ≠ '%' then .chr cx :: items rest k
    else
      let c0 := charAt rest 0
      let c1 := if c0 ≠ nul then charAt rest 1 else nul
      let c2 := if c1 ≠ nul then charAt rest 2 else nul
      match directive c0 c1 c2 with
      | .int c skip => .int c k :: items (rest.drop (skip + 1)) (k + 1)
      | .ptr => .ptr k :: items (rest.drop 1) (k + 1)
      | .str => .str k :: items (rest.drop 1) (k + 1)
      | .percent => .chr '%' :: items (rest.drop 1) k
      | .unknown => if c0 = nul then [] else .chr '%' :: .chr c0 :: items (rest.drop 1) k
termination_by fmt.length
decreasing_by
  all_goals first
    | exact Nat.lt_succ_self _
    | exact length_drop_lt _ _ _

/-- The loop of `vprintf` in user programs, from `fmt[i]` on, after `k` arguments; `state` says
whether the last character was a `%`. -/
def User.items (state : Bool) (fmt : List Char) (k : ℕ) : List Item :=
  match fmt with
  | [] => []
  | c0 :: rest =>
    if c0 = nul then []
    else if state = false then
      if c0 = '%' then items true rest k else .chr c0 :: items false rest k
    else
      let c1 := if c0 ≠ nul then charAt rest 0 else nul
      let c2 := if c1 ≠ nul then charAt rest 1 else nul
      match directive c0 c1 c2 with
      | .int c skip => .int c k :: items false (rest.drop skip) (k + 1)
      | .ptr => .ptr k :: items false rest (k + 1)
      | .str => .str k :: items false rest (k + 1)
      | .percent => .chr '%' :: items false rest k
      | .unknown => .chr '%' :: .chr c0 :: items false rest k
termination_by fmt.length
decreasing_by
  all_goals first
    | exact Nat.lt_succ_self _
    | exact length_drop_lt _ _ _

lemma items_eq (fmt : List Char) (k : ℕ) : User.items false fmt k = Kernel.items fmt k := by
  induction hn : fmt.length using Nat.strongRecOn generalizing fmt k with
  | _ n ih =>
  subst hn
  cases fmt with
  | nil => rw [User.items, Kernel.items]
  | cons cx rest =>
    rw [User.items, Kernel.items]
    by_cases h0 : cx = nul
    · rw [if_pos h0, if_pos h0]
    rw [if_neg h0, if_neg h0, if_pos rfl]
    by_cases hcx : cx = '%'
    · rw [if_pos hcx, if_neg (not_not.2 hcx)]
      cases rest with
      | nil =>
        rw [User.items]
        rfl
      | cons c0 rest =>
        rw [User.items, if_neg Bool.true_eq_false_eq_False]
        have hstep : ∀ (i j : ℕ), User.items false (rest.drop i) j = Kernel.items (rest.drop i) j :=
          fun i j => ih _ (by simp; omega) _ _ rfl
        by_cases hnul : c0 = nul
        · subst hnul
          rfl
        · simp only [hnul, if_false, charAt, List.getD_cons_zero, List.getD_cons_succ, ne_eq,
            not_false_eq_true, if_true, List.drop_succ_cons, List.drop_zero]
          have hrest := hstep 0
          rw [List.drop_zero] at hrest
          split <;> simp only [hstep, hrest]
    · rw [if_neg hcx, if_pos hcx, ih _ (by simp) _ _ rfl]

/-! ## What is printed -/

/-- The calls are made, with the arguments `ap` and the strings in memory; a null pointer stands for
`(null)`. -/
def emit (convert : Conv → BitVec 64 → Option (List Char)) (digits : List Char)
    (strings : BitVec 64 → List Char) (ap : ℕ → BitVec 64) : Item → Option (List Char)
  | .chr c => some [c]
  | .int c k => convert c (ap k)
  | .ptr k => some (printptr digits (ap k))
  | .str k => some (if ap k = 0 then "(null)".toList else strings (ap k))

/-- All calls, one after the other. -/
def emitAll (f : Item → Option (List Char)) : List Item → Option (List Char)
  | [] => some []
  | item :: items => (f item).bind fun s => (emitAll f items).map (s ++ ·)

lemma emitAll_congr {f g : Item → Option (List Char)} {items : List Item}
    (h : ∀ item ∈ items, f item = g item) : emitAll f items = emitAll g items := by
  induction items with
  | nil => rfl
  | cons item items ih =>
    rw [emitAll, emitAll, h item List.mem_cons_self,
      ih fun i hi => h i (List.mem_cons_of_mem _ hi)]

/-- `printf(fmt, ...)` of the kernel. -/
def Kernel.printf (strings : BitVec 64 → List Char) (fmt : List Char) (ap : ℕ → BitVec 64) :
    Option (List Char) :=
  emitAll (emit convert digits strings ap) (items fmt 0)

/-- `vprintf(fd, fmt, ap)` of user programs. -/
def User.vprintf (strings : BitVec 64 → List Char) (fmt : List Char) (ap : ℕ → BitVec 64) :
    Option (List Char) :=
  emitAll (emit convert digits strings ap) (items false fmt 0)

/-- The numerals of all arguments in full, with capital letters. -/
def exact (c : Conv) (v : BitVec 64) : Option (List Char) :=
  some ((numeral c.base (c.value v)).map Char.toUpper)

/-- A 64-bit argument that an `int` or an `unsigned int` can hold. -/
def Conv.Narrow (c : Conv) (v : BitVec 64) : Prop :=
  if c.sign then -2 ^ 31 ≤ c.value v ∧ c.value v < 2 ^ 31 else c.value v < 2 ^ 32

lemma length_numeral_le {b : Base} {z : ℤ} (hlow : -2 ^ 31 ≤ z) (hhigh : z < 2 ^ 32) :
    (numeral b z).length ≤ 16 := by
  have hlen : ∀ n : ℕ, n < 2 ^ 32 → (b.val.toDigits n).length ≤ 10 := by
    intro n hn
    rw [Nat.length_toDigits_le_iff b.two_le (by decide)]
    have hten : 10 ≤ b.val := by cases b <;> decide
    exact hn.trans_le ((by decide : 2 ^ 32 ≤ 10 ^ 10).trans (Nat.pow_le_pow_left hten 10))
  unfold numeral
  split
  · have := hlen z.natAbs (by omega)
    simp only [List.length_cons]
    omega
  · exact (hlen z.toNat (by omega)).trans (by decide)

lemma value_bounds {c : Conv} {v : BitVec 64} (h : c.long = true → c.Narrow v) :
    -2 ^ 31 ≤ c.value v ∧ c.value v < 2 ^ 32 := by
  have hlt := (v.setWidth 32).isLt
  have hle := (v.setWidth 32).le_toInt
  have hge := (v.setWidth 32).toInt_lt
  obtain ⟨_ | _, b, _ | _⟩ := c
  all_goals
    simp only [Conv.Narrow, Conv.value, Bool.false_eq_true, if_false, if_true, true_implies,
      false_implies] at h ⊢
    omega

/-- What is left of an argument, as `printint` of user programs sees it, is the argument itself
exactly if 32 bits are enough. -/
lemma value_narrow (c : Conv) (v : BitVec 64) :
    (if c.sign then (v.setWidth 32).toInt else ((v.setWidth 32).toNat : ℤ)) = c.value v ↔
      (c.long = true → c.Narrow v) := by
  have hlt := v.isLt
  obtain ⟨_ | _, b, _ | _⟩ := c
  · simp [Conv.value]
  · simp [Conv.value]
  · simp only [Conv.Narrow, Conv.value, Bool.false_eq_true, if_false, true_implies]
    rw [BitVec.toNat_setWidth]
    omega
  · simp only [Conv.Narrow, Conv.value, if_true, true_implies]
    rw [BitVec.toInt_eq_toNat_cond, BitVec.toInt_eq_toNat_cond, BitVec.toNat_setWidth]
    split <;> split <;> omega

lemma User.convert_eq_iff (c : Conv) (v : BitVec 64) :
    convert c v = exact c v ↔ (c.long = true → c.Narrow v) := by
  rw [convert, printint_eq, exact, fit_eq_some, (upper_numeral_injective c.base).eq_iff,
    value_narrow, List.length_map, and_iff_left_iff_imp]
  intro h
  obtain ⟨hlow, hhigh⟩ := value_bounds h
  exact length_numeral_le hlow hhigh

lemma Kernel.convert_eq_of_narrow {c : Conv} {v : BitVec 64} (hlong : c.long = true)
    (h : c.Narrow v) : convert c v = some (numeral c.base (c.value v)) := by
  obtain ⟨hlow, hhigh⟩ := value_bounds fun _ => h
  rw [convert, printint_eq, fit_eq_some, (numeral_injective c.base).eq_iff, value_extended]
  exact ⟨fun hshort => by simp [hshort] at hlong, length_numeral_le hlow hhigh⟩

/-- A conversion of a user program prints the numeral of its argument exactly if this is a 32-bit
one or small enough for 32 bits.  So all calls of a format print what they should exactly if the
64-bit arguments are small enough; then the output is what the kernel's loop makes of the exact
numerals, and the kernel prints the same numerals for the 64-bit arguments, with small letters. -/
theorem vprintf_faithful (strings : BitVec 64 → List Char) (fmt : List Char)
    (ap : ℕ → BitVec 64) :
    (∀ c v, User.convert c v = exact c v ↔ (c.long = true → c.Narrow v)) ∧
      ((∀ item ∈ User.items false fmt 0, emit User.convert User.digits strings ap item =
          emit exact User.digits strings ap item) ↔
        ∀ c k, .int c k ∈ User.items false fmt 0 → c.long = true → c.Narrow (ap k)) ∧
      ((∀ c k, .int c k ∈ User.items false fmt 0 → c.long = true → c.Narrow (ap k)) →
        User.vprintf strings fmt ap =
            emitAll (emit exact User.digits strings ap) (Kernel.items fmt 0) ∧
          ∀ c k, .int c k ∈ Kernel.items fmt 0 → c.long = true →
            Kernel.convert c (ap k) = some (numeral c.base (c.value (ap k)))) := by
  have hcalls : (∀ item ∈ User.items false fmt 0, emit User.convert User.digits strings ap item =
      emit exact User.digits strings ap item) ↔
        ∀ c k, .int c k ∈ User.items false fmt 0 → c.long = true → c.Narrow (ap k) := by
    constructor
    · intro h c k hmem
      exact (User.convert_eq_iff c (ap k)).1 (h _ hmem)
    · intro h item hmem
      cases item with
      | int c k => exact (User.convert_eq_iff c (ap k)).2 (h c k hmem)
      | chr c => rfl
      | ptr k => rfl
      | str k => rfl
  refine ⟨User.convert_eq_iff, hcalls, fun h => ⟨?_, ?_⟩⟩
  · rw [User.vprintf, emitAll_congr (hcalls.2 h), items_eq]
  · intro c k hmem hlong
    rw [← items_eq] at hmem
    exact Kernel.convert_eq_of_narrow hlong (h c k hmem hlong)

/-- A negative `long` between text, then a sign that nothing follows. -/
theorem vprintf_faithful_minus :
    User.vprintf (fun _ => []) "a%ld %".toList (fun _ => -5) =
      emitAll (emit exact User.digits (fun _ => []) fun _ => -5) (Kernel.items "a%ld %".toList 0) :=
  ((vprintf_faithful (fun _ => []) "a%ld %".toList (fun _ => -5)).2.2 fun c k hmem _ => by
    simp [User.items, directive, charAt, nul] at hmem
    simp [hmem, Conv.Narrow, Conv.value]).1

/-- `printf("%ld", 1L << 32)` prints 0. -/
theorem vprintf_cuts : User.vprintf (fun _ => []) "%ld".toList (fun _ => 1 <<< 32) = some ['0'] ∧
    Kernel.printf (fun _ => []) "%ld".toList (fun _ => 1 <<< 32) = some "4294967296".toList := by
  have hitems : Kernel.items "%ld".toList 0 = [.int ⟨true, .dec, true⟩ 0] := by
    simp [Kernel.items, directive, charAt, nul]
  rw [User.vprintf, items_eq, Kernel.printf, hitems]
  simp only [emitAll, emit, User.convert, User.printint_eq, Kernel.convert, Kernel.printint_eq]
  decide

end Xv6.Printf
