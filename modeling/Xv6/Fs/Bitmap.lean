import Xv6.Fs.Blocks
import Mathlib.Order.Bounds.Defs

/-!
# The scan of the bitmap

`balloc`, `bzero` and `bfree` of `kernel/fs.c` with the machine's arithmetic: `b` and `bi` are
`int`s, but `sb.size` and the numbers of blocks are `uint`s.  They work on the contents of the
blocks, for any superblock.  The rest of the development uses `Sec.balloc`, over natural numbers;
on a disk with a `Geometry` it takes the same block (`balloc_agrees`).
-/

namespace Xv6.Fs.Bitmap

open Concur

variable (sb : Superblock)

/-! ## The code -/

/-- The inner loop of `balloc`, for at most `fuel` more rounds: the first free bit from `bi` on. -/
def scanBits (b : BitVec 32) (bp : Block) : ℕ → BitVec 32 → Option (BitVec 32)
  | 0, _ => none
  | fuel + 1, bi =>
    if bi.slt (BitVec.ofNat 32 BPB) ∧ b + bi < BitVec.ofNat 32 sb.size then
      if getBit bp bi.toNat then scanBits b bp fuel (bi + 1) else some bi
    else none

/-- `BBLOCK(b, sb)` for an `int` -/
def bblock (b : BitVec 32) : ℕ :=
  (b.sdiv (BitVec.ofNat 32 BPB) + BitVec.ofNat 32 sb.bmapstart).toNat

/-- `bzero(dev, bno)` -/
def bzero (bno : BitVec 32) (d : Disk) : Disk := setAt d bno.toNat Bytes.zero

/-- The outer loop of `balloc`, for at most `fuel` more rounds. -/
def ballocFrom (d : Disk) : ℕ → BitVec 32 → ℕ × Disk
  | 0, _ => (0, d)
  | fuel + 1, b =>
    if b < BitVec.ofNat 32 sb.size then
      match scanBits sb b (d (bblock sb b)) (BPB + 1) 0#32 with
      | some bi =>
        ((b + bi).toNat, bzero (b + bi) (setAt d (bblock sb b)
          (putBit (d (bblock sb b)) bi.toNat true)))
      | none => ballocFrom d fuel (b + BitVec.ofNat 32 BPB)
    else (0, d)

/-- `balloc(dev)`: the number of the block and the blocks afterwards. -/
def balloc (d : Disk) : ℕ × Disk := ballocFrom sb d (sb.size / BPB + 2) 0#32

/-- `bfree(dev, b)`; `none` is the panic for a free block. -/
def bfree (b : BitVec 32) (d : Disk) : Option Disk :=
  let no := (b / BitVec.ofNat 32 BPB + BitVec.ofNat 32 sb.bmapstart).toNat
  let bi := (b % BitVec.ofNat 32 BPB).toNat
  if getBit (d no) bi then some (setAt d no (putBit (d no) bi false)) else none

/-! ## The bitmap -/

/-- The block with the bit of block `b`. -/
def blockOf (b : ℕ) : ℕ := b / BPB + sb.bmapstart

/-- Whether the block `b` is marked. -/
def marked (d : Disk) (b : ℕ) : Bool := getBit (d (blockOf sb b)) (b % BPB)

/-- The bits of the blocks that make up the bitmap, beyond `sb.size` too. -/
def InMap (b : ℕ) : Prop := b / BPB ≤ sb.size / BPB

/-- What is assumed of the superblock: the counter of the scan is an `int`, and the numbers of the
blocks of the bitmap are `uint`s. -/
structure Scannable : Prop where
  size_le : sb.size + BPB ≤ 2 ^ 31
  bmap_lt : sb.bmapstart + sb.size / BPB < 2 ^ 32

variable {sb} {d : Disk} {n k : ℕ}

lemma marked_putBit (b c : ℕ) (v : Bool) :
    marked sb (setAt d (blockOf sb b) (putBit (d (blockOf sb b)) (b % BPB) v)) c =
      if c = b then v else marked sb d c := by
  by_cases hblock : blockOf sb c = blockOf sb b
  · have hiff : c % BPB = b % BPB ↔ c = b := by
      simp only [blockOf, BPB_eq] at hblock ⊢
      omega
    rw [marked, marked, hblock, setAt_self, getBit_putBit _ (Nat.mod_lt _ (by decide))]
    simp only [hiff]
  · rw [marked, setAt_of_ne _ _ hblock, if_neg fun he => hblock (by rw [he]), marked]

lemma blockOf_add {j : ℕ} (hn : n % BPB = 0) (hj : j < BPB) :
    blockOf sb (n + j) = blockOf sb n := by
  simp only [blockOf, BPB_eq] at *
  omega

lemma add_mod_BPB {j : ℕ} (hn : n % BPB = 0) (hj : j < BPB) : (n + j) % BPB = j := by
  rw [BPB_eq] at *
  omega

/-- With enough fuel the inner loop does not overflow. -/
lemma scanBits_eq {b : BitVec 32} (bp : Block) (fuel : ℕ) (hsize : sb.size < 2 ^ 32)
    (hb : b.toNat + BPB ≤ 2 ^ 31) (hn : n ≤ BPB) (hfuel : BPB + 1 ≤ n + fuel) :
    scanBits sb b bp fuel (BitVec.ofNat 32 n) =
      (freeBit bp (min BPB (sb.size - b.toNat) - n) n).map (BitVec.ofNat 32) := by
  induction fuel generalizing n with
  | zero => omega
  | succ fuel ih =>
    rw [BPB_eq] at hb hn hfuel
    have hval : (BitVec.ofNat 32 n).toNat = n := by
      rw [BitVec.toNat_ofNat, Nat.mod_eq_of_lt (by omega)]
    have hcond : ((BitVec.ofNat 32 n).slt (BitVec.ofNat 32 BPB) ∧
        b + BitVec.ofNat 32 n < BitVec.ofNat 32 sb.size) ↔ n < BPB ∧ b.toNat + n < sb.size := by
      have hslt : (BitVec.ofNat 32 n).slt (BitVec.ofNat 32 BPB) = true ↔ n < BPB := by
        rw [BPB_eq, BitVec.slt_iff_toInt_lt, BitVec.toInt_eq_toNat_of_lt (by omega),
          BitVec.toInt_eq_toNat_of_lt (by decide), hval]
        simp
      rw [hslt, BitVec.lt_def, BitVec.toNat_add, hval, BitVec.toNat_ofNat, Nat.mod_eq_of_lt hsize,
        Nat.mod_eq_of_lt (by omega)]
    rw [scanBits, hval]
    by_cases hin : n < BPB ∧ b.toNat + n < sb.size
    · have hleft : min BPB (sb.size - b.toNat) - n = min BPB (sb.size - b.toNat) - (n + 1) + 1 := by
        omega
      rw [if_pos (hcond.2 hin), hleft, freeBit]
      cases getBit bp n with
      | true =>
        rw [if_pos rfl, if_pos rfl, ← ih (n := n + 1) hin.1 (by rw [BPB_eq]; omega),
          BitVec.ofNat_add]
        rfl
      | false => rfl
    · rw [if_neg fun h => hin (hcond.1 h), show min BPB (sb.size - b.toNat) - n = 0 by omega]
      rfl

/-- How `balloc` ends: all blocks are marked, or it takes the first one that is not. -/
inductive Ends (sb : Superblock) (d : Disk) : ℕ × Disk → Prop
  | full (h : ∀ b < sb.size, marked sb d b = true) : Ends sb d (0, d)
  | took (f : ℕ) (hf : f < sb.size) (hfree : marked sb d f = false)
      (hleast : ∀ b < f, marked sb d b = true) :
      Ends sb d (f, setAt (setAt d (blockOf sb f)
        (putBit (d (blockOf sb f)) (f % BPB) true)) f Bytes.zero)

section

variable (h : Scannable sb)

include h

lemma bblock_eq (hn : n < sb.size) :
    bblock sb (BitVec.ofNat 32 n) = blockOf sb n := by
  have hsize := h.size_le
  have hbmap := h.bmap_lt
  have hdiv : n / BPB ≤ sb.size / BPB := Nat.div_le_div_right hn.le
  rw [BPB_eq] at *
  have hmsb : (BitVec.ofNat 32 n).msb = false := by
    rw [BitVec.msb_eq_false_iff_two_mul_lt, BitVec.toNat_ofNat, Nat.mod_eq_of_lt (by omega)]
    omega
  rw [bblock, BPB_eq, BitVec.sdiv_eq, hmsb, blockOf, BPB_eq]
  simp only [show (BitVec.ofNat 32 8192).msb = false by decide]
  rw [BitVec.toNat_add, BitVec.udiv_eq, BitVec.toNat_udiv]
  simp only [BitVec.toNat_ofNat]
  rw [Nat.mod_eq_of_lt (show n < 2 ^ 32 by omega), Nat.mod_eq_of_lt (show 8192 < 2 ^ 32 by decide),
    Nat.mod_eq_of_lt (show sb.bmapstart < 2 ^ 32 by omega), Nat.mod_eq_of_lt (by omega)]

lemma ballocFrom_ends {fuel : ℕ} (hn : n % BPB = 0)
    (hle : n < sb.size + BPB) (hfuel : sb.size < n + fuel * BPB)
    (hbefore : ∀ b < n, b < sb.size → marked sb d b = true) :
    Ends sb d (ballocFrom sb d fuel (BitVec.ofNat 32 n)) := by
  have hsize := h.size_le
  induction fuel generalizing n with
  | zero => exact .full fun b hb => hbefore b (by omega) hb
  | succ fuel ih =>
    have hpos : BPB = 8192 := rfl
    have hval : (BitVec.ofNat 32 n).toNat = n := by
      rw [BitVec.toNat_ofNat, Nat.mod_eq_of_lt (by omega)]
    have hcond : BitVec.ofNat 32 n < BitVec.ofNat 32 sb.size ↔ n < sb.size := by
      rw [BitVec.lt_def, hval, BitVec.toNat_ofNat, Nat.mod_eq_of_lt (by omega)]
    rw [ballocFrom]
    by_cases hlt : n < sb.size
    · rw [if_pos (hcond.2 hlt), bblock_eq h hlt]
      -- the bits of this block of the bitmap
      have hmark : ∀ j < BPB, marked sb d (n + j) = getBit (d (blockOf sb n)) j := by
        intro j hj
        rw [marked, blockOf_add hn hj, add_mod_BPB hn hj]
      rw [scanBits_eq (b := BitVec.ofNat 32 n) (n := 0) (d (blockOf sb n)) (BPB + 1)
        (by omega) (by rw [hval]; omega) (Nat.zero_le _) (by omega), hval, Nat.sub_zero]
      have hscan := freeBit_spec (d (blockOf sb n)) (min BPB (sb.size - n)) 0
      cases hr : freeBit (d (blockOf sb n)) (min BPB (sb.size - n)) 0 with
      | none =>
        rw [hr] at hscan
        rw [Option.map_none, ← BitVec.ofNat_add]
        refine ih (by rwa [Nat.add_mod_right]) (by omega) (by rw [Nat.succ_mul] at hfuel; omega)
          fun b hb hbs => ?_
        by_cases hbn : b < n
        · exact hbefore b hbn hbs
        · rw [show b = n + (b - n) by omega, hmark _ (by omega)]
          exact hscan _ (Nat.zero_le _) (by omega)
      | some r =>
        rw [hr] at hscan
        obtain ⟨hlt', hfree, hset⟩ := hscan
        have hrB : r < BPB := by omega
        have hval' : (BitVec.ofNat 32 r).toNat = r := by
          rw [BitVec.toNat_ofNat, Nat.mod_eq_of_lt (by omega)]
        have hsum : (BitVec.ofNat 32 n + BitVec.ofNat 32 r).toNat = n + r := by
          rw [BitVec.toNat_add, hval, hval', Nat.mod_eq_of_lt (by omega)]
        have htook : Ends sb d _ := Ends.took (n + r) (by omega)
          (by rw [hmark _ hrB, hfree]) fun b hb => ?_
        · rw [blockOf_add hn hrB, add_mod_BPB hn hrB, ← hsum] at htook
          rw [Option.map_some]
          simp only [hval']
          exact htook
        · by_cases hbn : b < n
          · exact hbefore b hbn (by omega)
          · rw [show b = n + (b - n) by omega, hmark _ (by omega)]
            exact hset _ (Nat.zero_le _) (by omega)
    · rw [if_neg fun hc => hlt (hcond.1 hc)]
      exact .full fun b hb => hbefore b (by omega) hb

lemma balloc_ends : Ends sb d (balloc sb d) :=
  ballocFrom_ends h (n := 0) rfl (by rw [BPB_eq]; omega) (by rw [BPB_eq]; omega) (by rintro _ ⟨⟩)

lemma bfree_eq (hn : n < sb.size) : bfree sb (BitVec.ofNat 32 n) d =
    if marked sb d n then some (setAt d (blockOf sb n) (putBit (d (blockOf sb n)) (n % BPB) false))
    else none := by
  have hsize := h.size_le
  have hbmap := h.bmap_lt
  have hdiv : n / BPB ≤ sb.size / BPB := Nat.div_le_div_right hn.le
  have hno : (BitVec.ofNat 32 n / BitVec.ofNat 32 BPB + BitVec.ofNat 32 sb.bmapstart).toNat =
      blockOf sb n := by
    rw [BPB_eq] at *
    rw [blockOf, BPB_eq, BitVec.toNat_add, BitVec.toNat_udiv]
    simp only [BitVec.toNat_ofNat, Nat.mod_eq_of_lt (show 8192 < 2 ^ 32 by decide)]
    omega
  have hbi : (BitVec.ofNat 32 n % BitVec.ofNat 32 BPB).toNat = n % BPB := by
    rw [BPB_eq] at *
    rw [BitVec.toNat_umod]
    simp only [BitVec.toNat_ofNat, Nat.mod_eq_of_lt (show 8192 < 2 ^ 32 by decide)]
    omega
  simp only [bfree, hno, hbi]
  rfl

lemma bfree_clears (hn : n < sb.size) (hm : marked sb d n = true) :
    ∃ d', bfree sb (BitVec.ofNat 32 n) d = some d' ∧
      (∀ b, marked sb d' b = if b = n then false else marked sb d b) ∧
      ∀ c, c ≠ blockOf sb n → d' c = d c :=
  ⟨_, by rw [bfree_eq h hn, if_pos hm], fun b => marked_putBit n b false,
    fun _ hc => setAt_of_ne _ _ hc⟩

end

/-- `Sec.balloc` and `Sec.bfree` do to the blocks what the code does with its machine words. -/
lemma balloc_agrees {G : Geometry} (h : Scannable G.toSuperblock) {c c' : Ictx} :
    (∀ r, Sec.balloc G c = .ok (r, c') → balloc G.toSuperblock c.blk = (r, c'.blk)) ∧
      ∀ n < G.size, Sec.bfree G n c = .ok ((), c') →
        bfree G.toSuperblock (BitVec.ofNat 32 n) c.blk = some c'.blk := by
  constructor
  · intro r hrun
    have hends := balloc_ends (d := c.blk) h
    generalize balloc G.toSuperblock c.blk = res at hends
    rcases balloc_eq G c.blk with ⟨hall, heq⟩ | ⟨f, hf, hfree, hleast, heq⟩
    · rw [heq c.log c.ip] at hrun
      cases hrun
      cases hends with
      | full => rfl
      | took f hf hfree =>
        rw [show marked G.toSuperblock c.blk f = true from hall f hf] at hfree
        cases hfree
    · rw [heq c.log c.ip] at hrun
      cases hends with
      | full hall =>
        rw [show G.bit c.blk f = true from hall f hf] at hfree
        cases hfree
      | took g hg hfree' hleast' =>
        -- both are the first free block
        obtain rfl : g = f := by
          rcases lt_trichotomy g f with hlt | heq | hlt
          · rw [show marked G.toSuperblock c.blk g = true from hleast g hlt] at hfree'
            cases hfree'
          · exact heq
          · rw [show G.bit c.blk f = true from hleast' f hlt] at hfree
            cases hfree
        have hwp : Wp Unexpected (Sec.take G c.blk g)
            (fun a c1 => (g, setAt (setAt c.blk (G.BBLOCK g)
              (putBit (c.blk (G.BBLOCK g)) (g % BPB) true)) g Bytes.zero) = (a, c1.blk)) c :=
          Wp.bind (logWrite_wp fun _ => Wp.bind (logWrite_wp fun _ => Wp.pure rfl))
        exact hwp.result hrun
  · intro n hn hrun
    rw [bfree_eq h hn]
    rw [Sec.bfree, run_get] at hrun
    split at hrun
    · rename_i hbit
      rw [if_pos (show marked G.toSuperblock c.blk n = true from hbit)]
      exact (logWrite_wp (Q := fun _ c1 => some (setAt c.blk (G.BBLOCK n)
        (putBit (c.blk (G.BBLOCK n)) (n % BPB) false)) = some c1.blk) fun _ => rfl).result hrun
    · cases hrun

/-- What `balloc` does to a disk from which it takes the block `f`. -/
structure Takes (sb : Superblock) (d : Disk) (f : ℕ) (d' : Disk) : Prop where
  least : IsLeast {b | b < sb.size ∧ marked sb d b = false} f
  bits : ∀ b, InMap sb b → marked sb d' b = if b = f then true else marked sb d b
  zero : d' f = Bytes.zero
  rest : ∀ c, c ≠ f → c ≠ blockOf sb f → d' c = d c

lemma Ends.takes (hmeta : ∀ b < sb.size, b < sb.bmapstart + (sb.size / BPB + 1) →
      marked sb d b = true) {r : ℕ × Disk} (h : Ends sb d r) :
    (∀ b < sb.size, marked sb d b = true) ∧ r = (0, d) ∨ r.1 ≠ 0 ∧ Takes sb d r.1 r.2 := by
  cases h with
  | full hall => exact .inl ⟨hall, rfl⟩
  | took f hf hfree hleast =>
    have hdata : sb.bmapstart + (sb.size / BPB + 1) ≤ f := by
      by_contra hlt
      rw [hmeta f hf (by omega)] at hfree
      cases hfree
    have h0 : f ≠ 0 := fun h0 => Nat.not_succ_le_zero _ (h0 ▸ hdata)
    refine .inr ⟨h0, ⟨⟨hf, hfree⟩, ?_⟩, fun b hb => ?_, setAt_self _ _ _,
      fun c hc hc' => (setAt_of_ne _ _ hc).trans (setAt_of_ne _ _ hc')⟩
    · rintro b ⟨-, hb⟩
      by_contra hlt
      rw [hleast b (by omega)] at hb
      cases hb
    · have hne : blockOf sb b ≠ f := by
        rw [InMap] at hb
        rw [blockOf]
        omega
      exact (congrArg (getBit · (b % BPB)) (setAt_of_ne _ _ hne)).trans (marked_putBit f b true)

/-- On every bitmap with the metadata marked: `balloc` answers 0 just when all blocks are marked,
and then it changes nothing; otherwise it takes the smallest one that is not.  `bfree` clears the
bit of a block that is marked, and after `balloc` it restores the bitmap. -/
theorem balloc_scan (sb : Superblock) (d : Disk) (h : Scannable sb)
    (hmeta : ∀ b < sb.size, b < sb.bmapstart + (sb.size / BPB + 1) → marked sb d b = true) :
    ((balloc sb d).1 = 0 ↔ ∀ b < sb.size, marked sb d b = true) ∧
      ((balloc sb d).1 = 0 → (balloc sb d).2 = d) ∧
      ((balloc sb d).1 ≠ 0 → Takes sb d (balloc sb d).1 (balloc sb d).2 ∧
        ∃ d', bfree sb (BitVec.ofNat 32 (balloc sb d).1) (balloc sb d).2 = some d' ∧
          ∀ b, InMap sb b → marked sb d' b = marked sb d b) ∧
      ∀ n < sb.size, marked sb d n = true → ∃ d', bfree sb (BitVec.ofNat 32 n) d = some d' ∧
        (∀ b, marked sb d' b = if b = n then false else marked sb d b) ∧
        ∀ c, c ≠ blockOf sb n → d' c = d c := by
  refine ⟨?_, ?_, ?_, fun n hn hm => bfree_clears h hn hm⟩
  · rcases (balloc_ends h).takes hmeta with ⟨hall, hr⟩ | ⟨hne, htakes⟩
    · rw [hr]
      exact ⟨fun _ => hall, fun _ => rfl⟩
    · refine ⟨fun h0 => absurd h0 hne, fun hall => ?_⟩
      have hfree := htakes.least.1.2
      rw [hall _ htakes.least.1.1] at hfree
      cases hfree
  · intro h0
    rcases (balloc_ends h).takes hmeta with ⟨-, hr⟩ | ⟨hne, -⟩
    · rw [hr]
    · exact absurd h0 hne
  · intro h0
    rcases (balloc_ends h).takes hmeta with ⟨-, hr⟩ | ⟨-, htakes⟩
    · rw [hr] at h0
      exact absurd rfl h0
    · have hlt := htakes.least.1.1
      have hin : InMap sb (balloc sb d).1 := Nat.div_le_div_right hlt.le
      obtain ⟨d', hfree, hbits, -⟩ := bfree_clears h hlt (by rw [htakes.bits _ hin, if_pos rfl])
      refine ⟨htakes, d', hfree, fun b hb => ?_⟩
      rw [hbits, htakes.bits b hb]
      split
      · rename_i hbf
        rw [hbf, htakes.least.1.2]
      · rfl

/-- A bitmap in which the first four blocks are marked, -/
def fourMarked : Disk := fun _ => Bytes.zero.splice 0 1 fun _ => 0x0f

/-- on a disk of twenty blocks. -/
def twentyBlocks : Superblock := ⟨20, 2, 0, 1, 1, 2⟩

theorem balloc_scan_small : (balloc twentyBlocks fourMarked).1 = 4 ∧
    marked twentyBlocks (balloc twentyBlocks fourMarked).2 4 = true := by
  obtain ⟨hiff, -, htake, -⟩ :=
    balloc_scan twentyBlocks fourMarked ⟨by decide, by decide⟩ (by decide)
  obtain ⟨htakes, -⟩ := htake (by rw [Ne, hiff]; decide)
  have hlow : ∀ b < 4, marked twentyBlocks fourMarked b = true := by decide
  have hfour : (balloc twentyBlocks fourMarked).1 = 4 := by
    refine le_antisymm (htakes.least.2 (by decide)) (not_lt.1 fun hlt => ?_)
    have hfree := htakes.least.1.2
    rw [hlow _ hlt] at hfree
    cases hfree
  refine ⟨hfour, ?_⟩
  rw [htakes.bits 4 (Nat.div_le_div_right (by decide)), hfour]
  rfl

end Xv6.Fs.Bitmap
