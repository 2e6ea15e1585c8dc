import Xv6.Framework.Prog
import Xv6.Param
import Mathlib.Data.Fintype.Pi
import Mathlib.Data.Nat.Bitwise

/-!
# The on-disk format

The layout that `kernel/fs.h` fixes: where the inodes and the bitmap are, the bytes of a
`struct dinode`, the bits of the bitmap and the entries of an indirect block.  Every structure
has a function that reads it from a disk and one that stores it, and the lemmas say that what
was stored is read back and that nothing else changes.  The rest of the development uses these
lemmas and never looks at bytes.

A `short` is an `Int16` and a `uint` a `UInt32`, so a structure read back is the structure
stored without side conditions on its fields.
-/

namespace Xv6

open Concur Concur.Bytes

/-- Direct block addresses of an inode. -/
def NDIRECT : ℕ := 12

/-- Block addresses in an indirect block, `BSIZE / sizeof(uint)`. -/
def NINDIRECT : ℕ := 256

/-- Maximum number of blocks of a file. -/
def MAXFILE : ℕ := NDIRECT + NINDIRECT

/-- Inodes per block, `BSIZE / sizeof(struct dinode)`. -/
def IPB : ℕ := 16

/-- Bitmap bits per block. -/
def BPB : ℕ := BSIZE * 8

/-- The root's inode number. -/
def ROOTINO : ℕ := 1

lemma NDIRECT_eq : NDIRECT = 12 := rfl

lemma NINDIRECT_eq : NINDIRECT = 256 := rfl

@[simp] lemma MAXFILE_eq : MAXFILE = 268 := rfl

@[simp] lemma IPB_eq : IPB = 16 := rfl

@[simp] lemma BPB_eq : BPB = 8192 := rfl

/-- `T_DIR` -/
def T_DIR : Int16 := 1

/-- `T_FILE` -/
def T_FILE : Int16 := 2

/-- `T_DEVICE` -/
def T_DEVICE : Int16 := 3

/-- `struct superblock`, without the magic number and `nblocks`, which no modelled routine
reads. -/
structure Superblock where
  /-- Size of the file system image in blocks. -/
  size : ℕ
  ninodes : ℕ
  nlog : ℕ
  logstart : ℕ
  inodestart : ℕ
  bmapstart : ℕ

/-- A superblock whose areas follow each other as `mkfs` lays them out: boot block, superblock,
log, inodes, bitmap, data.  Inode numbers fit into a `ushort` and block numbers into an
`int`. -/
structure Geometry extends Superblock where
  log_le : logstart + nlog ≤ inodestart
  inodes_le : inodestart + (ninodes / IPB + 1) ≤ bmapstart
  bitmap_le : bmapstart + (size / BPB + 1) ≤ size
  root_lt : ROOTINO < ninodes
  ninodes_le : ninodes ≤ 2 ^ 16
  size_lt : size < 2 ^ 31

/-- `struct dinode` -/
structure Dinode where
  type : Int16
  major : Int16
  minor : Int16
  nlink : Int16
  size : UInt32
  addrs : Fin (NDIRECT + 1) → UInt32

namespace Dinode

/-- The inode that `memset` leaves. -/
def zero : Dinode := ⟨0, 0, 0, 0, 0, fun _ => 0⟩

lemma ext_fields {x y : Dinode} (h1 : x.type = y.type) (h2 : x.major = y.major)
    (h3 : x.minor = y.minor) (h4 : x.nlink = y.nlink) (h5 : x.size = y.size)
    (h6 : ∀ k, x.addrs k = y.addrs k) : x = y := by
  cases x
  cases y
  simp only [mk.injEq] at *
  exact ⟨h1, h2, h3, h4, h5, funext h6⟩

/-- Byte `r` of the structure. -/
def byte (x : Dinode) (r : ℕ) : UInt8 :=
  if r < 2 then leByte x.type.toUInt16.toNat r
  else if r < 4 then leByte x.major.toUInt16.toNat (r - 2)
  else if r < 6 then leByte x.minor.toUInt16.toNat (r - 4)
  else if r < 8 then leByte x.nlink.toUInt16.toNat (r - 6)
  else if r < 12 then leByte x.size.toNat (r - 8)
  else if h : (r - 12) / 4 < NDIRECT + 1 then
    leByte (x.addrs ⟨(r - 12) / 4, h⟩).toNat ((r - 12) % 4)
  else 0

end Dinode

/-- The `short` at the byte `o` of a block. -/
def rd16 (b : Block) (o : ℕ) : Int16 := (UInt16.ofNat (rdLE b o 2)).toInt16

/-- The `uint` at the byte `o` of a block. -/
def rd32 (b : Block) (o : ℕ) : UInt32 := UInt32.ofNat (rdLE b o 4)

/-- `((struct dinode*)bp->data)[r]` -/
def getDinode (b : Block) (r : ℕ) : Dinode where
  type := rd16 b (64 * r)
  major := rd16 b (64 * r + 2)
  minor := rd16 b (64 * r + 4)
  nlink := rd16 b (64 * r + 6)
  size := rd32 b (64 * r + 8)
  addrs k := rd32 b (64 * r + 12 + 4 * k)

/-- `((struct dinode*)bp->data)[r] = x` -/
def putDinode (b : Block) (r : ℕ) (x : Dinode) : Block := b.splice (64 * r) 64 x.byte

section Codec

variable (b : Block) (r : ℕ)

lemma rd16_of_bytes {b : Block} {o : ℕ} {v : Int16}
    (h : ∀ r, r < 2 → b.get (o + r) = leByte v.toUInt16.toNat r) : rd16 b o = v := by
  rw [rd16, rdLE_eq_mod h, Nat.mod_eq_of_lt (by simpa using v.toUInt16.toNat_lt)]
  simp

lemma rd32_of_bytes {b : Block} {o : ℕ} {v : UInt32}
    (h : ∀ r, r < 4 → b.get (o + r) = leByte v.toNat r) : rd32 b o = v := by
  rw [rd32, rdLE_eq_mod h, Nat.mod_eq_of_lt (by simpa using v.toNat_lt)]
  simp

lemma rd16_congr {a b : Block} {o : ℕ} (h : ∀ r, r < 2 → a.get (o + r) = b.get (o + r)) :
    rd16 a o = rd16 b o := by
  rw [rd16, rd16, rdLE_congr h]

lemma rd32_congr {a b : Block} {o : ℕ} (h : ∀ r, r < 4 → a.get (o + r) = b.get (o + r)) :
    rd32 a o = rd32 b o := by
  rw [rd32, rd32, rdLE_congr h]

lemma get_putDinode {r : ℕ} (hr : r < IPB) (x : Dinode) {o : ℕ} (ho : o < 64) :
    (putDinode b r x).get (64 * r + o) = x.byte o := by
  rw [IPB_eq] at hr
  rw [putDinode, get_splice_of_mem b _ (by rw [BSIZE_eq]; omega) (by omega) (by omega),
    Nat.add_sub_cancel_left]

@[simp] lemma getDinode_putDinode {r : ℕ} (hr : r < IPB) (x : Dinode) :
    getDinode (putDinode b r x) r = x := by
  have hget := fun o ho => get_putDinode b hr x (o := o) ho
  apply Dinode.ext_fields
  · refine rd16_of_bytes fun q hq => ?_
    rw [hget q (by omega), Dinode.byte, if_pos hq]
  · refine rd16_of_bytes fun q hq => ?_
    rw [Nat.add_assoc, hget (2 + q) (by omega), Dinode.byte, if_neg (by omega),
      if_pos (by omega), Nat.add_sub_cancel_left]
  · refine rd16_of_bytes fun q hq => ?_
    rw [Nat.add_assoc, hget (4 + q) (by omega), Dinode.byte, if_neg (by omega),
      if_neg (by omega), if_pos (by omega), Nat.add_sub_cancel_left]
  · refine rd16_of_bytes fun q hq => ?_
    rw [Nat.add_assoc, hget (6 + q) (by omega), Dinode.byte, if_neg (by omega),
      if_neg (by omega), if_neg (by omega), if_pos (by omega), Nat.add_sub_cancel_left]
  · refine rd32_of_bytes fun q hq => ?_
    rw [Nat.add_assoc, hget (8 + q) (by omega), Dinode.byte, if_neg (by omega),
      if_neg (by omega), if_neg (by omega), if_neg (by omega), if_pos (by omega),
      Nat.add_sub_cancel_left]
  · intro k
    have hk : k.val < 13 := k.isLt
    refine rd32_of_bytes fun q hq => ?_
    have hdiv : (12 + 4 * k.val + q - 12) / 4 = k.val := by omega
    have hmod : (12 + 4 * k.val + q - 12) % 4 = q := by omega
    rw [Nat.add_assoc, Nat.add_assoc, ← Nat.add_assoc 12, hget (12 + 4 * k.val + q) (by omega),
      Dinode.byte, if_neg (by omega), if_neg (by omega), if_neg (by omega), if_neg (by omega),
      if_neg (by omega), dif_pos (by rw [hdiv]; exact k.isLt), hmod]
    congr 3
    exact Fin.ext hdiv

lemma getDinode_zero (r : ℕ) : getDinode Bytes.zero r = Dinode.zero := by
  apply Dinode.ext_fields <;> simp [getDinode, Dinode.zero, rd16, rd32]

lemma getDinode_congr {a b : Block} {r : ℕ}
    (h : ∀ o, o < 64 → a.get (64 * r + o) = b.get (64 * r + o)) :
    getDinode a r = getDinode b r := by
  have hoff : ∀ p q, p + q < 64 → a.get (64 * r + p + q) = b.get (64 * r + p + q) := by
    intro p q hpq
    rw [Nat.add_assoc]
    exact h (p + q) hpq
  apply Dinode.ext_fields
  · exact rd16_congr fun q hq => h q (by omega)
  · exact rd16_congr fun q hq => hoff 2 q (by omega)
  · exact rd16_congr fun q hq => hoff 4 q (by omega)
  · exact rd16_congr fun q hq => hoff 6 q (by omega)
  · exact rd32_congr fun q hq => hoff 8 q (by omega)
  · intro k
    have hk : k.val < 13 := k.isLt
    refine rd32_congr fun q hq => ?_
    rw [Nat.add_assoc (64 * r) 12]
    exact hoff (12 + 4 * k.val) q (by omega)

lemma getDinode_putDinode_of_ne {r r' : ℕ} (h : r' ≠ r) (x : Dinode) :
    getDinode (putDinode b r x) r' = getDinode b r' :=
  getDinode_congr fun o ho => get_splice_of_not_mem b _ (by omega)

end Codec

/-! ## Bitmap bits and indirect entries -/

/-- `1 << (bi % 8)` -/
def bitMask (bi : ℕ) : UInt8 := UInt8.ofNat (2 ^ (bi % 8))

/-- `(bp->data[bi/8] & m) != 0` -/
def getBit (b : Block) (bi : ℕ) : Bool := b.get (bi / 8) &&& bitMask bi ≠ 0

/-- `bp->data[bi/8] |= m`, or `bp->data[bi/8] &= ~m` -/
def putBit (b : Block) (bi : ℕ) (v : Bool) : Block :=
  b.splice (bi / 8) 1 fun _ =>
    if v then b.get (bi / 8) ||| bitMask bi else b.get (bi / 8) &&& ~~~bitMask bi

section Bits

lemma toNat_bitMask (bi : ℕ) : (bitMask bi).toNat = 2 ^ (bi % 8) := by
  have hlt : 2 ^ (bi % 8) < 2 ^ 8 := Nat.pow_lt_pow_right (by decide) (Nat.mod_lt _ (by decide))
  rw [bitMask, UInt8.toNat_ofNat']
  exact Nat.mod_eq_of_lt hlt

lemma and_bitMask_ne_zero (x : UInt8) (bi : ℕ) :
    (x &&& bitMask bi ≠ 0) ↔ x.toNat.testBit (bi % 8) = true := by
  have hzero : x &&& bitMask bi = 0 ↔ x.toNat &&& 2 ^ (bi % 8) = 0 := by
    rw [← toNat_bitMask, ← UInt8.toNat_and, ← UInt8.toNat_inj]
    rfl
  rw [Ne, hzero, Nat.and_two_pow]
  cases x.toNat.testBit (bi % 8) <;> simp

lemma getBit_eq (b : Block) (bi : ℕ) :
    getBit b bi = (b.get (bi / 8)).toNat.testBit (bi % 8) := by
  rw [getBit, Bool.eq_iff_iff, decide_eq_true_iff]
  exact and_bitMask_ne_zero _ bi

lemma testBit_or_bitMask (x : UInt8) (bi k : ℕ) :
    (x ||| bitMask bi).toNat.testBit k = (x.toNat.testBit k || decide (bi % 8 = k)) := by
  rw [UInt8.toNat_or, toNat_bitMask, Nat.testBit_or, Nat.testBit_two_pow]

lemma testBit_and_not_bitMask (x : UInt8) (bi : ℕ) {k : ℕ} (hk : k < 8) :
    (x &&& ~~~bitMask bi).toNat.testBit k = (x.toNat.testBit k && !decide (bi % 8 = k)) := by
  have hnot : (~~~bitMask bi).toNat = 2 ^ 8 - (2 ^ (bi % 8) + 1) := by
    rw [UInt8.toNat_not, toNat_bitMask, UInt8.size]
    omega
  rw [UInt8.toNat_and, hnot, Nat.testBit_and,
    Nat.testBit_two_pow_sub_succ (Nat.pow_lt_pow_right (by decide) (Nat.mod_lt _ (by decide))),
    Nat.testBit_two_pow]
  simp [hk]

lemma getBit_putBit (b : Block) {bi bj : ℕ} (hj : bj < BPB) (v : Bool) :
    getBit (putBit b bi v) bj = if bj = bi then v else getBit b bj := by
  rw [BPB_eq] at hj
  rw [getBit_eq, getBit_eq, putBit]
  by_cases hbyte : bj / 8 = bi / 8
  · rw [get_splice_of_mem b _ (by rw [BSIZE_eq]; omega) (by omega) (by omega), hbyte]
    by_cases hbit : bj = bi
    · subst hbit
      cases v with
      | false =>
        simp only [Bool.false_eq_true, ↓reduceIte]
        rw [testBit_and_not_bitMask _ _ (Nat.mod_lt _ (by decide))]
        simp
      | true =>
        simp only [↓reduceIte]
        rw [testBit_or_bitMask]
        simp
    · have hne : bi % 8 ≠ bj % 8 := by omega
      cases v with
      | false =>
        simp only [Bool.false_eq_true, ↓reduceIte]
        rw [testBit_and_not_bitMask _ _ (Nat.mod_lt _ (by decide))]
        simp [hne, hbit]
      | true =>
        simp only [↓reduceIte]
        rw [testBit_or_bitMask]
        simp [hne, hbit]
  · rw [get_splice_of_not_mem b _ (by omega), if_neg (by omega)]

/-- `((uint*)bp->data)[j]` -/
def getEntry (b : Block) (j : ℕ) : UInt32 := rd32 b (4 * j)

/-- `((uint*)bp->data)[j] = a` -/
def putEntry (b : Block) (j : ℕ) (a : UInt32) : Block := b.splice (4 * j) 4 (leByte a.toNat)

lemma getEntry_putEntry (b : Block) {j j' : ℕ} (hj : j < NINDIRECT) (a : UInt32) :
    getEntry (putEntry b j a) j' = if j' = j then a else getEntry b j' := by
  rw [NINDIRECT_eq] at hj
  by_cases h : j' = j
  · subst h
    rw [if_pos rfl]
    refine rd32_of_bytes fun q hq => ?_
    rw [putEntry, get_splice_of_mem b _ (by rw [BSIZE_eq]; omega) (by omega) (by omega),
      Nat.add_sub_cancel_left]
  · rw [if_neg h]
    exact rd32_congr fun q hq => get_splice_of_not_mem b _ (by omega)

@[simp] lemma getEntry_zero (j : ℕ) : getEntry Bytes.zero j = 0 := by
  simp [getEntry, rd32]

end Bits

/-! ## The structures on a disk -/

namespace Geometry

variable (G : Geometry)

/-- Number of metadata blocks: boot block, superblock, log, inodes and bitmap. -/
def nmeta : ℕ := G.bmapstart + (G.size / BPB + 1)

/-- Block containing inode `i`. -/
def IBLOCK (i : ℕ) : ℕ := i / IPB + G.inodestart

/-- Block of the free map containing the bit for block `b`. -/
def BBLOCK (b : ℕ) : ℕ := b / BPB + G.bmapstart

/-- The inode `i` on the disk. -/
def din (d : Disk) (i : ℕ) : Dinode := getDinode (d (G.IBLOCK i)) (i % IPB)

/-- The disk with the inode `i` stored. -/
def putDin (d : Disk) (i : ℕ) (x : Dinode) : Disk :=
  setAt d (G.IBLOCK i) (putDinode (d (G.IBLOCK i)) (i % IPB) x)

/-- The bit of block `b` in the free map: whether the block is in use. -/
def bit (d : Disk) (b : ℕ) : Bool := getBit (d (G.BBLOCK b)) (b % BPB)

/-- The disk with the bit of block `b` stored. -/
def putBit (d : Disk) (b : ℕ) (v : Bool) : Disk :=
  setAt d (G.BBLOCK b) (Xv6.putBit (d (G.BBLOCK b)) (b % BPB) v)

variable {G} {d : Disk}

lemma nmeta_le : G.nmeta ≤ G.size := G.bitmap_le

lemma nmeta_pos : 0 < G.nmeta := Nat.lt_add_left _ (Nat.succ_pos _)

lemma inodestart_le_IBLOCK (i : ℕ) : G.inodestart ≤ G.IBLOCK i := Nat.le_add_left _ _

lemma IBLOCK_lt {i : ℕ} (hi : i < G.ninodes) : G.IBLOCK i < G.bmapstart := by
  have hle := G.inodes_le
  have hdiv : i / IPB ≤ G.ninodes / IPB := Nat.div_le_div_right hi.le
  rw [IBLOCK]
  omega

lemma bmapstart_le_BBLOCK (b : ℕ) : G.bmapstart ≤ G.BBLOCK b := Nat.le_add_left _ _

lemma BBLOCK_lt {b : ℕ} (hb : b < G.size) : G.BBLOCK b < G.nmeta := by
  have hdiv : b / BPB ≤ G.size / BPB := Nat.div_le_div_right hb.le
  rw [BBLOCK, nmeta]
  omega

lemma din_update {c : ℕ} (v : Block) (hc : c < G.inodestart ∨ G.bmapstart ≤ c) {i : ℕ}
    (hi : i < G.ninodes) : G.din (setAt d c v) i = G.din d i := by
  have h1 := inodestart_le_IBLOCK (G := G) i
  have h2 := IBLOCK_lt hi
  rw [din, din, setAt_of_ne _ _ (by omega)]

lemma bit_update {c : ℕ} (v : Block) (hc : c < G.bmapstart ∨ G.nmeta ≤ c) {b : ℕ}
    (hb : b < G.size) : G.bit (setAt d c v) b = G.bit d b := by
  have h1 := bmapstart_le_BBLOCK (G := G) b
  have h2 := BBLOCK_lt hb
  rw [bit, bit, setAt_of_ne _ _ (by omega)]

lemma din_putDin (i j : ℕ) (x : Dinode) :
    G.din (G.putDin d i x) j = if j = i then x else G.din d j := by
  rw [din, putDin]
  by_cases hblock : G.IBLOCK j = G.IBLOCK i
  · rw [hblock, setAt_self]
    by_cases hij : j = i
    · subst hij
      rw [getDinode_putDinode _ (Nat.mod_lt _ (by decide)), if_pos rfl]
    · have hne : j % IPB ≠ i % IPB := by
        simp only [IBLOCK, IPB_eq] at hblock ⊢
        omega
      rw [getDinode_putDinode_of_ne _ hne, if_neg hij, din, hblock]
  · have hij : j ≠ i := fun h => hblock (h ▸ rfl)
    rw [setAt_of_ne _ _ hblock, if_neg hij, din]

lemma bit_putDin {i : ℕ} (hi : i < G.ninodes) (x : Dinode) {b : ℕ} (hb : b < G.size) :
    G.bit (G.putDin d i x) b = G.bit d b :=
  bit_update _ (Or.inl (IBLOCK_lt hi)) hb

lemma putDin_apply {i : ℕ} (hi : i < G.ninodes) (x : Dinode) {c : ℕ} (hc : G.nmeta ≤ c) :
    G.putDin d i x c = d c := by
  have h1 := IBLOCK_lt hi
  have h2 : G.bmapstart ≤ G.nmeta := Nat.le_add_right _ _
  rw [putDin, setAt_of_ne _ _ (by omega)]

lemma bit_putBit (b c : ℕ) (v : Bool) :
    G.bit (G.putBit d b v) c = if c = b then v else G.bit d c := by
  rw [bit, putBit]
  by_cases hblock : G.BBLOCK c = G.BBLOCK b
  · have hiff : c % BPB = b % BPB ↔ c = b := by
      simp only [BBLOCK, BPB_eq] at hblock ⊢
      omega
    rw [hblock, setAt_self, getBit_putBit _ (Nat.mod_lt _ (by decide)), bit, hblock]
    simp only [hiff]
  · have hcb : c ≠ b := fun h => hblock (h ▸ rfl)
    rw [setAt_of_ne _ _ hblock, if_neg hcb, bit]

lemma din_putBit (b : ℕ) (v : Bool) {i : ℕ} (hi : i < G.ninodes) :
    G.din (G.putBit d b v) i = G.din d i :=
  din_update _ (Or.inr (bmapstart_le_BBLOCK b)) hi

lemma putBit_apply {b : ℕ} (hb : b < G.size) (v : Bool) {c : ℕ} (hc : G.nmeta ≤ c) :
    G.putBit d b v c = d c := by
  have h := BBLOCK_lt hb
  rw [putBit, setAt_of_ne _ _ (by omega)]

end Geometry

end Xv6
