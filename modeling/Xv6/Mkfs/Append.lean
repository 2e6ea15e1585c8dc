import Xv6.Fs.Contents
import Xv6.Mkfs.Program

/-!
# What `iappend` does to an image under construction

`mkfs` marks the blocks it used in the bitmap only at its end.  The *image* of a state is the
image that it would leave by doing so now; on it the bitmap and the references of the inodes
balance as on the disk of a running system (`Fs/Blocks.lean`), since the program hands out
blocks in order and every block it hands out goes into an inode.  So the lemmas about `bmap`
and `writei` there also serve for `iappend`, which does the same to the image.

The module goes up to one block: `blockFor` finds the sector of a block of the file, with the blocks
that it takes for this, or it runs into the end of the image (`blockFor_spec`, `blockFor_full`).
`need` counts the blocks that it takes.  What the file and the other files hold afterwards is in
`Mkfs/Files.lean`.
-/

namespace Xv6.Mkfs

open Concur Concur.Bytes Fs

/-! ## Sectors -/

@[simp] lemma FSSIZE_eq : FSSIZE = 2000 := rfl

@[simp] lemma NINODES_eq : NINODES = 200 := rfl

@[simp] lemma nmeta_eq : nmeta = 46 := rfl

@[simp] lemma sb_size : sb.size = FSSIZE := rfl

@[simp] lemma sb_ninodes : sb.ninodes = NINODES := rfl

@[simp] lemma sb_nmeta : sb.nmeta = nmeta := rfl

@[simp] lemma sb_bmapstart : sb.bmapstart = 45 := rfl

@[simp] lemma sb_inodestart : sb.inodestart = 32 := rfl

namespace Img

/-- The state with a sector written. -/
def put (s : Img) (b : ℕ) (v : Block) : Img := { s with disk := setAt s.disk b v }

/-- The state with the next block handed out. -/
def next (s : Img) : Img := { s with freeblock := s.freeblock + 1 }

variable (s : Img) (b : ℕ) (v : Block)

@[simp] lemma put_disk : (s.put b v).disk = setAt s.disk b v := rfl

@[simp] lemma put_len : (s.put b v).len = s.len := rfl

@[simp] lemma put_freeinode : (s.put b v).freeinode = s.freeinode := rfl

@[simp] lemma put_freeblock : (s.put b v).freeblock = s.freeblock := rfl

@[simp] lemma next_disk : s.next.disk = s.disk := rfl

@[simp] lemma next_len : s.next.len = s.len := rfl

@[simp] lemma next_freeinode : s.next.freeinode = s.freeinode := rfl

@[simp] lemma next_freeblock : s.next.freeblock = s.freeblock + 1 := rfl

end Img

section Sectors

variable {s : Img} {b : ℕ}

lemma sector_eq (hb : b ≤ FSSIZE) : sector b = b := by
  rw [FSSIZE_eq] at hb
  rw [sector, BSIZE_eq, Nat.mod_eq_of_lt (by omega), Nat.mul_div_cancel _ (by decide)]

lemma wsect_eq (hb : b < FSSIZE) (hlen : s.len = FSSIZE) (v : Block) :
    wsect b v s = some ((), s.put b v) := by
  have hmax : max s.len (b + 1) = s.len := by omega
  have hmodify : wsect b v s = some ((), { s with
      disk := setAt s.disk (sector b) v, len := max s.len (sector b + 1) }) := rfl
  rw [hmodify, sector_eq hb.le, hmax]
  rfl

lemma rsect_def (b : ℕ) (s : Img) :
    rsect b s = if sector b < s.len then some (s.disk (sector b), s) else none := by
  change ((assert (sector b < s.len) : Mk Unit) s).bind
    (fun r => some (s.disk (sector b), r.2)) = _
  rw [assert]
  split <;> rfl

lemma rsect_eq (hb : b < FSSIZE) (hlen : s.len = FSSIZE) : rsect b s = some (s.disk b, s) := by
  rw [rsect_def, sector_eq hb.le, if_pos (by omega)]

lemma rsect_end (hlen : s.len = FSSIZE) : rsect FSSIZE s = none := by
  rw [rsect_def, sector_eq le_rfl, if_neg (by omega)]

lemma IBLOCK_lt_size {i : ℕ} (hi : i < NINODES) : sb.IBLOCK i < FSSIZE := by
  have h := Geometry.IBLOCK_lt (G := sb) hi
  rw [sb_bmapstart] at h
  rw [FSSIZE_eq]
  omega

lemma winode_eq {i : ℕ} (hi : i < NINODES) (hlen : s.len = FSSIZE) (x : Dinode) :
    winode i x s = some ((), { s with disk := sb.putDin s.disk i x }) := by
  have hlt := IBLOCK_lt_size hi
  have hdef : winode i x s = (rsect (sb.IBLOCK i) s).bind fun r =>
      wsect (sb.IBLOCK i) (putDinode r.1 (i % IPB) x) r.2 := rfl
  rw [hdef, rsect_eq hlt hlen, Option.bind_some, wsect_eq hlt hlen]
  rfl

lemma rinode_eq {i : ℕ} (hi : i < NINODES) (hlen : s.len = FSSIZE) :
    rinode i s = some (sb.din s.disk i, s) := by
  have hdef : rinode i s = (rsect (sb.IBLOCK i) s).bind fun r =>
      some (getDinode r.1 (i % IPB), r.2) := rfl
  rw [hdef, rsect_eq (IBLOCK_lt_size hi) hlen, Option.bind_some]
  rfl

end Sectors

/-! ## The image -/

lemma marks_zero : marks 0 = Bytes.zero := rfl

lemma marks_succ (n : ℕ) : marks (n + 1) = putBit (marks n) n true := by
  rw [marks, List.range_succ, List.foldl_append]
  rfl

lemma getBit_marks (n : ℕ) {b : ℕ} (hb : b < BPB) : getBit (marks n) b = decide (b < n) := by
  induction n with
  | zero =>
    rw [marks_zero, getBit_eq, get_zero]
    simp
  | succ n ih =>
    rw [marks_succ, getBit_putBit _ hb, ih]
    by_cases h : b = n
    · simp [h]
    · rw [if_neg h, decide_eq_decide]
      omega

/-- The image that the program leaves if it writes the bitmap now. -/
def Img.image (s : Img) : Disk := setAt s.disk sb.bmapstart (marks s.freeblock)

section Image

variable {s : Img}

lemma image_of_ne {b : ℕ} (h : b ≠ sb.bmapstart) : s.image b = s.disk b := setAt_of_ne _ _ h

lemma ne_bmapstart {b : ℕ} (h : nmeta ≤ b) : b ≠ sb.bmapstart := by
  rw [nmeta_eq] at h
  rw [sb_bmapstart]
  omega

lemma image_of_data {b : ℕ} (h : nmeta ≤ b) : s.image b = s.disk b :=
  image_of_ne (ne_bmapstart h)

lemma BBLOCK_eq {b : ℕ} (hb : b < FSSIZE) : sb.BBLOCK b = sb.bmapstart ∧ b % BPB = b := by
  rw [FSSIZE_eq] at hb
  rw [Geometry.BBLOCK, BPB_eq, Nat.div_eq_of_lt (by omega), Nat.mod_eq_of_lt (by omega),
    Nat.zero_add]
  exact ⟨rfl, rfl⟩

lemma bit_image {b : ℕ} (hb : b < FSSIZE) : sb.bit s.image b = decide (b < s.freeblock) := by
  obtain ⟨hblock, hmod⟩ := BBLOCK_eq hb
  rw [Geometry.bit, hblock, hmod, Img.image, setAt_self, getBit_marks]
  rw [FSSIZE_eq] at hb
  rw [BPB_eq]
  omega

lemma din_image {i : ℕ} (hi : i < NINODES) : sb.din s.image i = sb.din s.disk i :=
  Geometry.din_update _ (Or.inr le_rfl) hi

lemma image_put {b : ℕ} (v : Block) (hb : b ≠ sb.bmapstart) :
    (s.put b v).image = setAt s.image b v := by
  funext c
  by_cases hc : c = b
  · subst hc
    rw [setAt_self, image_of_ne hb, Img.put_disk, setAt_self]
  · rw [setAt_of_ne _ _ hc]
    by_cases hc' : c = sb.bmapstart
    · rw [hc', Img.image, Img.image, setAt_self, setAt_self, Img.put_freeblock]
    · rw [image_of_ne hc', image_of_ne hc', Img.put_disk, setAt_of_ne _ _ hc]

lemma image_next (hlo : nmeta ≤ s.freeblock) (hhi : s.freeblock < FSSIZE)
    (hz : s.disk s.freeblock = Bytes.zero) :
    s.next.image = setAt (sb.putBit s.image s.freeblock true) s.freeblock Bytes.zero := by
  obtain ⟨hblock, hmod⟩ := BBLOCK_eq hhi
  funext c
  by_cases hc : c = s.freeblock
  · rw [hc, setAt_self, image_of_data hlo, Img.next_disk, hz]
  · rw [setAt_of_ne _ _ hc, Geometry.putBit, hblock, hmod]
    by_cases hc' : c = sb.bmapstart
    · rw [hc', setAt_self, Img.image, Img.image, setAt_self, setAt_self, Img.next_freeblock,
        marks_succ]
    · rw [setAt_of_ne _ _ hc', image_of_ne hc', image_of_ne hc', Img.next_disk]

/-- What `iappend` works on: the image, and its copy of the inode. -/
def Img.ctx (s : Img) (x : Dinode) : Ictx := ⟨s.image, Log.init sb.nlog, x⟩

@[simp] lemma ctx_blk (x : Dinode) : (s.ctx x).blk = s.image := rfl

@[simp] lemma ctx_ip (x : Dinode) : (s.ctx x).ip = x := rfl

end Image

/-! ## Handing out blocks -/

/-- The blocks from `freeblock` on are still zero, and the file has all its sectors. -/
structure Img.Tidy (s : Img) : Prop where
  len : s.len = FSSIZE
  lo : nmeta ≤ s.freeblock
  zero : ∀ b, s.freeblock ≤ b → s.disk b = Bytes.zero

/-- What `iappend` may do to the image and its inode while it looks for a block. -/
structure Grew (inum : ℕ) (s : Img) (x : Dinode) (s' : Img) (x' : Dinode) : Prop where
  kept : Kept sb inum ∅ (s.ctx x) (s'.ctx x')
  tidy : s'.Tidy
  freeinode : s'.freeinode = s.freeinode

lemma Grew.trans {inum : ℕ} {s s' s'' : Img} {x x' x'' : Dinode} (h : Grew inum s x s' x')
    (h' : Grew inum s' x' s'' x'') : Grew inum s x s'' x'' :=
  ⟨h.kept.trans h'.kept, h'.tidy, h'.freeinode.trans h.freeinode⟩

section Allocation

variable {inum : ℕ} {s : Img} {x : Dinode}

lemma ref_range (hw : Working sb inum ∅ (s.ctx x)) {p : Place} (hp : ref s.image x p ≠ 0) :
    nmeta ≤ ref s.image x p ∧ ref s.image x p < FSSIZE :=
  hw.nmeta_le hp

lemma ref_lt_freeblock (hw : Working sb inum ∅ (s.ctx x)) {p : Place}
    (hp : ref s.image x p ≠ 0) : ref s.image x p < s.freeblock := by
  have hused := hw.owned.used_of_ref (p := (inum, p)) (by rw [hw.refs_self]; exact hp)
  rw [hw.refs_self, ctx_blk, ctx_ip, bit_image (ref_range hw hp).2] at hused
  exact of_decide_eq_true hused

lemma Img.Tidy.fresh (h : s.Tidy) (hw : Working sb inum ∅ (s.ctx x))
    (hroom : s.freeblock < FSSIZE) :
    Fresh sb inum ∅ (s.ctx x) s.freeblock (s.next.ctx x) := by
  have hfree : sb.bit s.image s.freeblock = false := by
    rw [bit_image hroom]
    exact decide_eq_false (lt_irrefl _)
  have hfresh := hw.fresh hroom hfree (Log.init sb.nlog)
  rw [Img.ctx.eq_1 s.next, image_next h.lo hroom (h.zero _ le_rfl)]
  exact hfresh

lemma Img.Tidy.next (h : s.Tidy) : s.next.Tidy :=
  ⟨h.len, h.lo.trans (Nat.le_succ _), fun b hb => h.zero b ((Nat.le_succ _).trans hb)⟩

lemma Img.Tidy.put (h : s.Tidy) {b : ℕ} (hb : b < s.freeblock) (v : Block) : (s.put b v).Tidy := by
  refine ⟨h.len, h.lo, fun c hc => ?_⟩
  rw [Img.put_freeblock] at hc
  rw [Img.put_disk, setAt_of_ne _ _ (by omega), h.zero c hc]

lemma fillAddr_of_ne {k : Fin (NDIRECT + 1)} (hk : x.addrs k ≠ 0) :
    fillAddr x k s = some (x, s) := by
  rw [fillAddr, if_neg hk]
  rfl

lemma fillAddr_of_eq {k : Fin (NDIRECT + 1)} (hk : x.addrs k = 0) :
    fillAddr x k s =
      some ({ x with addrs := setAt x.addrs k (UInt32.ofNat s.freeblock) }, s.next) := by
  rw [fillAddr, if_pos hk]
  rfl

/-- Filling a slot of the inode: if there is room, the slot has a block then, and the other
places are as before. -/
lemma fillAddr_spec (h : s.Tidy) (hw : Working sb inum ∅ (s.ctx x)) (k : Fin (NDIRECT + 1))
    (hroom : x.addrs k = 0 → s.freeblock < FSSIZE) :
    ∃ x' s', fillAddr x k s = some (x', s') ∧ Grew inum s x s' x' ∧
      s'.freeblock = s.freeblock + (if x.addrs k = 0 then 1 else 0) ∧ x'.addrs k ≠ 0 ∧
      ∀ p, p ≠ slotOf k → ref s'.image x' p = ref s.image x p := by
  by_cases hk : x.addrs k = 0
  · have hfresh := h.fresh hw (hroom hk)
    have hz : s.next.image (UInt32.ofNat s.freeblock).toNat = Bytes.zero := by
      rw [hfresh.toNat_ofNat]
      exact hfresh.zero
    refine ⟨_, _, fillAddr_of_eq hk, ⟨hfresh.setAddr hw hk, h.next, rfl⟩, by simp [hk], ?_,
      fun p hp => ?_⟩
    · simpa only [setAt_self] using hfresh.ofNat_ne_zero
    · rw [ref_setAddr hk hz, if_neg hp]
      exact hfresh.ref_eq hw p
  · exact ⟨x, s, fillAddr_of_ne hk, ⟨.refl hw, h, rfl⟩, by simp [hk], hk, fun _ _ => rfl⟩

lemma fillEntry_of_ne {b j : ℕ} {buf : Block} (hj : getEntry buf j ≠ 0) :
    fillEntry b buf j s = some (buf, s) := by
  rw [fillEntry, if_neg hj]
  rfl

lemma fillEntry_of_eq {b j : ℕ} {buf : Block} (hb : b < FSSIZE) (hlen : s.len = FSSIZE)
    (hj : getEntry buf j = 0) :
    fillEntry b buf j s =
      some (putEntry buf j (UInt32.ofNat s.freeblock),
        s.next.put b (putEntry buf j (UInt32.ofNat s.freeblock))) := by
  rw [fillEntry, if_pos hj]
  have hnext : nextBlock s = some (s.freeblock, s.next) := rfl
  rw [bind_apply, hnext, Option.bind_some, bind_apply, wsect_eq hb (by exact hlen)]
  rfl

lemma ref_entry_eq {d : Disk} (hind : ref d x .indirect ≠ 0) (j : Fin NINDIRECT) :
    ref d x (.entry j) = (getEntry (d (ref d x .indirect)) j).toNat :=
  if_neg fun h => hind (ref_indirect_eq_zero.2 h)

lemma getEntry_eq_zero_iff {d : Disk} (hind : ref d x .indirect ≠ 0) (j : Fin NINDIRECT) :
    getEntry (d (ref d x .indirect)) j = 0 ↔ ref d x (.entry j) = 0 := by
  rw [ref_entry_eq hind, ← UInt32.toNat_inj]
  rfl

lemma fillEntry_spec (h : s.Tidy) (hw : Working sb inum ∅ (s.ctx x))
    (hind : ref s.image x .indirect ≠ 0) (j : Fin NINDIRECT)
    (hroom : ref s.image x (.entry j) = 0 → s.freeblock < FSSIZE) :
    ∃ buf s', fillEntry (ref s.image x .indirect) (s.image (ref s.image x .indirect)) j s =
        some (buf, s') ∧ Grew inum s x s' x ∧
      s'.freeblock = s.freeblock + (if ref s.image x (.entry j) = 0 then 1 else 0) ∧
      (getEntry buf j).toNat = ref s'.image x (.entry j) ∧ ref s'.image x (.entry j) ≠ 0 ∧
      ∀ p, p ≠ .entry j → ref s'.image x p = ref s.image x p := by
  have hrange := ref_range hw hind
  by_cases hj : ref s.image x (.entry j) = 0
  · have hfresh := h.fresh hw (hroom hj)
    have hlt := ref_lt_freeblock hw hind
    have hpos : s.freeblock ≠ 0 := (lt_of_lt_of_le (by decide : 0 < nmeta) h.lo).ne'
    have himage : s.next.image (ref s.image x .indirect) = s.image (ref s.image x .indirect) :=
      hfresh.other _ hrange.1 hlt.ne
    have hrefn : ∀ p, ref s.next.image x p = ref s.image x p := hfresh.ref_eq hw
    have hput := image_put (s := s.next)
      (putEntry (s.next.image (ref s.image x .indirect)) j (UInt32.ofNat s.freeblock))
      (ne_bmapstart hrange.1)
    rw [← himage]
    have href : ∀ p, ref (s.next.put (ref s.image x .indirect) (putEntry
        (s.next.image (ref s.image x .indirect)) j (UInt32.ofNat s.freeblock))).image x p =
        if p = .entry j then s.freeblock else ref s.image x p := by
      intro p
      rw [hput, ← hrefn .indirect, ref_putEntry (by rwa [hrefn]), hfresh.toNat_ofNat, hrefn]
    refine ⟨_, _, fillEntry_of_eq hrange.2 h.len ?_, ⟨?_, h.next.put ?_ _, rfl⟩, by simp [hj],
      ?_, ?_, fun p hp => ?_⟩
    · rw [himage]
      exact (getEntry_eq_zero_iff hind j).2 hj
    · rw [Img.ctx.eq_1 (Img.put _ _ _), hput]
      exact hfresh.putEntry hw hind hj (Log.init sb.nlog)
    · exact hlt.trans (Nat.lt_succ_self _)
    · rw [href, if_pos rfl, getEntry_putEntry _ j.isLt, if_pos rfl, hfresh.toNat_ofNat]
    · rw [href, if_pos rfl]
      exact hpos
    · rw [href, if_neg hp]
  · exact ⟨_, s, fillEntry_of_ne (mt (getEntry_eq_zero_iff hind j).1 hj), ⟨.refl hw, h, rfl⟩,
      by simp [hj], (ref_entry_eq hind j).symm, hj, fun _ _ => rfl⟩

/-- What `blockFor` has done when it answers `b` for the block `n`. -/
structure Found (inum n : ℕ) (s : Img) (x : Dinode) (b : ℕ) (s' : Img) (x' : Dinode) : Prop where
  grew : Grew inum s x s' x'
  freeblock : s'.freeblock = s.freeblock + need s.image x n
  block : blockAt s'.image x' n = b
  ne_zero : b ≠ 0
  other : ∀ m, m ≠ n → blockAt s'.image x' m = blockAt s.image x m
  indirect : ref s'.image x' .indirect ≠ 0 ↔ ref s.image x .indirect ≠ 0 ∨ NDIRECT ≤ n

lemma dataPlace_direct {n : ℕ} (hn : n < NDIRECT) : dataPlace n = some (.direct ⟨n, hn⟩) :=
  dif_pos hn

lemma dataPlace_entry {n : ℕ} (hn : ¬ n < NDIRECT) (hj : n - NDIRECT < NINDIRECT) :
    dataPlace n = some (.entry ⟨n - NDIRECT, hj⟩) := by
  rw [dataPlace, dif_neg hn, dif_pos hj]

lemma blockAt_of_ne {d d' : Disk} {x' : Dinode} {n : ℕ} {p : Place} (hp : dataPlace n = some p)
    (h : ∀ q, q ≠ p → q ≠ .indirect → ref d' x' q = ref d x q) {m : ℕ} (hm : m ≠ n) :
    blockAt d' x' m = blockAt d x m := by
  cases hq : dataPlace m with
  | none => rw [blockAt, blockAt, hq]; rfl
  | some q =>
    rw [blockAt_of_dataPlace hq, blockAt_of_dataPlace hq]
    refine h q (fun heq => hm ?_) fun hi => dataPlace_ne_indirect m (hi ▸ hq)
    exact dataPlace_inj hq (heq ▸ hp)

lemma addrs_eq_zero_iff {d : Disk} (k : Fin (NDIRECT + 1)) :
    x.addrs k = 0 ↔ ref d x (slotOf k) = 0 := by
  rw [ref_slotOf, ← UInt32.toNat_inj]
  rfl

lemma blockFor_of_lt {n : ℕ} (hn : n < NDIRECT) :
    blockFor x n s = (fillAddr x ⟨n, Nat.lt_succ_of_lt hn⟩ s).bind fun r =>
      some (((r.1.addrs ⟨n, Nat.lt_succ_of_lt hn⟩).toNat, r.1), r.2) := by
  rw [blockFor, dif_pos hn]
  simp only [bind_apply, pure_apply]

lemma blockFor_of_not_lt {n : ℕ} (hn : ¬ n < NDIRECT) :
    blockFor x n s = (fillAddr x (Fin.last NDIRECT) s).bind fun r =>
      (rsect (r.1.addrs (Fin.last NDIRECT)).toNat r.2).bind fun r' =>
        (fillEntry (r.1.addrs (Fin.last NDIRECT)).toNat r'.1 (n - NDIRECT) r'.2).bind fun r'' =>
          some (((getEntry r''.1 (n - NDIRECT)).toNat, r.1), r''.2) := by
  rw [blockFor, dif_neg hn]
  simp only [bind_apply, pure_apply]

lemma rsect_indirect (hw : Working sb inum ∅ (s.ctx x)) (hlen : s.len = FSSIZE)
    (hind : ref s.image x .indirect ≠ 0) :
    rsect (x.addrs (Fin.last NDIRECT)).toNat s =
      some (s.image (ref s.image x .indirect), s) := by
  have hrange := ref_range hw hind
  rw [image_of_data hrange.1]
  exact rsect_eq hrange.2 hlen

section

variable (h : s.Tidy) (hw : Working sb inum ∅ (s.ctx x))

include h hw

lemma blockFor_direct {n : ℕ} (hn : n < NDIRECT) (hroom : s.freeblock + need s.image x n ≤ FSSIZE) :
    ∃ b x' s', blockFor x n s = some ((b, x'), s') ∧ Found inum n s x b s' x' := by
  have hslot : slotOf ⟨n, Nat.lt_succ_of_lt hn⟩ = .direct ⟨n, hn⟩ := dif_pos hn
  have hplace := dataPlace_direct hn
  have hzero : x.addrs ⟨n, Nat.lt_succ_of_lt hn⟩ = 0 ↔ blockAt s.image x n = 0 := by
    rw [addrs_eq_zero_iff (d := s.image), hslot, blockAt_of_dataPlace hplace]
  have hneed : need s.image x n = if x.addrs ⟨n, Nat.lt_succ_of_lt hn⟩ = 0 then 1 else 0 := by
    rw [need_eq, if_neg (c := NDIRECT ≤ n ∧ _) fun h => absurd h.1 (not_le.2 hn)]
    simp only [hzero, Nat.add_zero]
  obtain ⟨x', s', hrun, hgrew, hfree, hne, href⟩ :=
    fillAddr_spec h hw ⟨n, Nat.lt_succ_of_lt hn⟩ fun h0 => by
      rw [hneed, if_pos h0] at hroom
      omega
  rw [hslot] at href
  have hblock : blockAt s'.image x' n = (x'.addrs ⟨n, Nat.lt_succ_of_lt hn⟩).toNat := by
    rw [blockAt_of_dataPlace hplace, ← hslot, ref_slotOf]
  refine ⟨_, x', s', ?_, ⟨hgrew, by rw [hfree, hneed], hblock, ?_, fun m hm => ?_, ?_⟩⟩
  · rw [blockFor_of_lt hn, hrun, Option.bind_some]
  · exact fun h0 => hne (UInt32.toNat_inj.1 h0)
  · exact blockAt_of_ne hplace (fun q hq _ => href q hq) hm
  · rw [href .indirect (by simp)]
    simp only [not_le.2 hn, or_false]

lemma blockFor_indirect {n : ℕ} (hn : ¬ n < NDIRECT) (hmax : n < MAXFILE)
    (hroom : s.freeblock + need s.image x n ≤ FSSIZE) :
    ∃ b x' s', blockFor x n s = some ((b, x'), s') ∧ Found inum n s x b s' x' := by
  have hj : n - NDIRECT < NINDIRECT := by
    rw [MAXFILE] at hmax
    omega
  have hplace := dataPlace_entry hn hj
  have hzero : x.addrs (Fin.last NDIRECT) = 0 ↔ ref s.image x .indirect = 0 :=
    ref_indirect_eq_zero.symm
  have hneed : need s.image x n =
      (if ref s.image x (.entry ⟨n - NDIRECT, hj⟩) = 0 then 1 else 0) +
        if x.addrs (Fin.last NDIRECT) = 0 then 1 else 0 := by
    rw [need_eq, blockAt_of_dataPlace hplace]
    simp only [hzero, not_lt.1 hn, true_and]
  obtain ⟨x', s1, hrun1, hgrew1, hfree1, hne1, href1⟩ :=
    fillAddr_spec h hw (Fin.last NDIRECT) fun h0 => by
      rw [hneed, if_pos h0] at hroom
      omega
  rw [slotOf_last] at href1
  have hind : ref s1.image x' .indirect ≠ 0 := fun h0 => hne1 (ref_indirect_eq_zero.1 h0)
  have hentry : ref s1.image x' (.entry ⟨n - NDIRECT, hj⟩) =
      ref s.image x (.entry ⟨n - NDIRECT, hj⟩) := href1 _ (by simp)
  obtain ⟨buf, s2, hrun2, hgrew2, hfree2, hbuf, hne2, href2⟩ :=
    fillEntry_spec hgrew1.tidy hgrew1.kept.working hind ⟨n - NDIRECT, hj⟩ fun h0 => by
      rw [hentry] at h0
      rw [hneed, if_pos h0] at hroom
      omega
  refine ⟨(getEntry buf (n - NDIRECT)).toNat, x', s2, ?_, ⟨hgrew1.trans hgrew2, ?_, ?_, ?_,
    fun m hm => ?_, ?_⟩⟩
  · have hfill : fillEntry (x'.addrs (Fin.last NDIRECT)).toNat
        (s1.image (ref s1.image x' .indirect)) (n - NDIRECT) s1 = some (buf, s2) := hrun2
    rw [blockFor_of_not_lt hn, hrun1, Option.bind_some,
      rsect_indirect hgrew1.kept.working hgrew1.tidy.len hind, Option.bind_some, hfill,
      Option.bind_some]
  · rw [hfree2, hfree1, hneed, hentry]
    omega
  · rw [blockAt_of_dataPlace hplace]
    exact hbuf.symm
  · rw [hbuf]
    exact hne2
  · refine blockAt_of_ne hplace (fun q hq hi => ?_) hm
    rw [href2 q hq, href1 q hi]
  · rw [href2 .indirect (by simp)]
    exact iff_of_true hind (Or.inr (not_lt.1 hn))

lemma blockFor_spec {n : ℕ} (hmax : n < MAXFILE) (hroom : s.freeblock + need s.image x n ≤ FSSIZE) :
    ∃ b x' s', blockFor x n s = some ((b, x'), s') ∧ Found inum n s x b s' x' := by
  by_cases hn : n < NDIRECT
  · exact blockFor_direct h hw hn hroom
  · exact blockFor_indirect h hw hn hmax hroom

end

lemma toNat_ofNat_size : (UInt32.ofNat FSSIZE).toNat = FSSIZE := by decide

lemma blockFor_full (h : s.Tidy) (hw : Working sb inum ∅ (s.ctx x)) {n : ℕ} (hmax : n < MAXFILE)
    (hle : s.freeblock ≤ FSSIZE) (hroom : FSSIZE < s.freeblock + need s.image x n) :
    blockFor x n s = none ∨
      ∃ x' s', blockFor x n s = some ((FSSIZE, x'), s') ∧ s'.len = FSSIZE := by
  by_cases hn : n < NDIRECT
  · have hslot : slotOf ⟨n, Nat.lt_succ_of_lt hn⟩ = .direct ⟨n, hn⟩ := dif_pos hn
    rw [need_eq, if_neg (c := NDIRECT ≤ n ∧ _) fun h => absurd h.1 (not_le.2 hn),
      Nat.add_zero] at hroom
    have hzero : blockAt s.image x n = 0 := by
      by_contra h0
      rw [if_neg h0] at hroom
      omega
    have hend : s.freeblock = FSSIZE := by
      rw [if_pos hzero] at hroom
      omega
    rw [blockAt_of_dataPlace (dataPlace_direct hn), ← hslot, ← addrs_eq_zero_iff] at hzero
    rw [blockFor_of_lt hn, fillAddr_of_eq hzero, Option.bind_some]
    simp only [setAt_self, hend, toNat_ofNat_size]
    exact Or.inr ⟨_, s.next, rfl, h.len⟩
  · have hj : n - NDIRECT < NINDIRECT := by
      rw [MAXFILE] at hmax
      omega
    rw [need_eq, blockAt_of_dataPlace (dataPlace_entry hn hj)] at hroom
    simp only [not_lt.1 hn, true_and] at hroom
    rw [blockFor_of_not_lt hn]
    by_cases hfull : x.addrs (Fin.last NDIRECT) = 0 ∧ s.freeblock = FSSIZE
    · -- the indirect block itself is past the end
      left
      rw [fillAddr_of_eq hfull.1, Option.bind_some]
      simp only [setAt_self, hfull.2, toNat_ofNat_size]
      rw [rsect_end (by exact h.len)]
      rfl
    · right
      obtain ⟨x', s1, hrun1, hgrew1, hfree1, hne1, href1⟩ :=
        fillAddr_spec h hw (Fin.last NDIRECT) fun h0 => by
          have hne : s.freeblock ≠ FSSIZE := fun heq => hfull ⟨h0, heq⟩
          omega
      rw [slotOf_last] at href1
      have hind : ref s1.image x' .indirect ≠ 0 := fun h0 => hne1 (ref_indirect_eq_zero.1 h0)
      have hrange := ref_range hgrew1.kept.working hind
      simp only [ref_indirect_eq_zero, ← href1 (.entry ⟨n - NDIRECT, hj⟩) (by simp)] at hroom
      have hzero : ref s1.image x' (.entry ⟨n - NDIRECT, hj⟩) = 0 := by
        by_contra h0
        rw [if_neg h0] at hroom
        split at hroom <;> rename_i h1
        · exact hfull ⟨h1, by omega⟩
        · omega
      have hend : s1.freeblock = FSSIZE := by
        rw [if_pos hzero] at hroom
        rw [hfree1]
        split at hroom <;> rename_i h1
        · have hne : s.freeblock ≠ FSSIZE := fun heq => hfull ⟨h1, heq⟩
          rw [if_pos h1]
          omega
        · rw [if_neg h1]
          omega
      have hentry := (getEntry_eq_zero_iff hind ⟨n - NDIRECT, hj⟩).2 hzero
      have hread := rsect_indirect hgrew1.kept.working hgrew1.tidy.len hind
      obtain ⟨buf, s2, hfill, hbuf, hlen⟩ : ∃ buf s2,
          fillEntry (x'.addrs (Fin.last NDIRECT)).toNat (s1.image (ref s1.image x' .indirect))
            (n - NDIRECT) s1 = some (buf, s2) ∧
          getEntry buf (n - NDIRECT) = UInt32.ofNat FSSIZE ∧ s2.len = FSSIZE := by
        refine ⟨_, _, fillEntry_of_eq hrange.2 hgrew1.tidy.len hentry, ?_, hgrew1.tidy.len⟩
        rw [getEntry_putEntry _ hj, if_pos rfl, hend]
      refine ⟨x', s2, ?_, hlen⟩
      rw [hrun1, Option.bind_some, hread, Option.bind_some, hfill, Option.bind_some, hbuf,
        toNat_ofNat_size]

end Allocation

end Xv6.Mkfs
