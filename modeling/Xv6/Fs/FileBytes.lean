import Xv6.Fs.Contents

/-!
# A file is an array of bytes

On a disk whose blocks are owned once and whose inodes have no holes (`Solid`), `writei` followed
by `readi` behaves as an assignment to a range of an array and a read of it: `readi_writei`.  The
frame is part of the statement: no other inode's fields, block map or contents change.

Blocks may be marked in the bitmap although nothing refers to them, as a crash or an older kernel
can leave them.  They are a parameter of `Solid`; no operation changes them, and nothing but their
being out of use depends on them (`exists_solid`).

The last section builds a small disk with a root directory and one empty file, on which the
general results can be evaluated.
-/

namespace Xv6.Fs

open Concur Concur.Bytes

/-- Blocks that are referenced are marked in the bitmap and referenced once, and no allocated inode
has a hole.  Beside the metadata, the blocks that are marked and not referenced are those of
`leaked`. -/
structure Solid (G : Geometry) (leaked : Set ℕ) (d : Disk) : Prop where
  owned : Ledger G.nmeta G.size (refs G d (G.din d)) leaked (G.bit d)
  noHoles : ∀ i, i < G.ninodes → (G.din d i).type ≠ 0 → NoHoles d (G.din d i)

lemma exists_solid {G : Geometry} {d : Disk} (hmeta : ∀ b, b < G.nmeta → G.bit d b = true)
    (hrange : ∀ p, refs G d (G.din d) p ≠ 0 → G.nmeta ≤ refs G d (G.din d) p ∧
      refs G d (G.din d) p < G.size ∧ G.bit d (refs G d (G.din d) p) = true)
    (honce : ∀ p q, refs G d (G.din d) p ≠ 0 → refs G d (G.din d) p = refs G d (G.din d) q → p = q)
    (hfull : ∀ i, i < G.ninodes → (G.din d i).type ≠ 0 → NoHoles d (G.din d i)) :
    ∃ leaked, Solid G leaked d := by
  refine ⟨{b | G.nmeta ≤ b ∧ b < G.size ∧ G.bit d b = true ∧ ∀ p, refs G d (G.din d) p ≠ b},
    ⟨Geometry.nmeta_pos, fun p hp => ⟨(hrange p hp).1, (hrange p hp).2.1⟩, honce,
      fun b hb => ⟨hb.1, hb.2.1⟩, fun b hb => hb.2.2.2, fun b hb => ⟨fun hused => ?_, ?_⟩⟩, hfull⟩
  · by_cases hlt : b < G.nmeta
    · exact Or.inl hlt
    · by_cases href : ∃ p, refs G d (G.din d) p = b
      · exact Or.inr (Or.inr href)
      · exact Or.inr (Or.inl ⟨not_lt.1 hlt, hb, hused, not_exists.1 href⟩)
  · rintro (hlt | hleak | ⟨p, rfl⟩)
    · exact hmeta b hlt
    · exact hleak.2.2.1
    · by_cases h0 : refs G d (G.din d) p = 0
      · rw [h0]
        exact hmeta 0 Geometry.nmeta_pos
      · exact (hrange p h0).2.2

namespace Solid

variable {G : Geometry} {L : Set ℕ} {d : Disk} {inum : ℕ} {c c' : Ictx}

lemma working (h : Solid G L c.blk) (hip : c.ip = G.din c.blk inum) (hlt : inum < G.ninodes)
    (htype : c.ip.type ≠ 0) : Working G inum L c :=
  ⟨hlt, htype, by rw [Ictx.ino_eq_din hip]; exact h.owned⟩

lemma of_working (h : Solid G L c.blk) (hw : Working G inum L c')
    (hip : c'.ip = G.din c'.blk inum) (hothers : Others G inum c.blk c'.blk)
    (hfull : NoHoles c'.blk c'.ip) : Solid G L c'.blk := by
  refine ⟨by rw [← Ictx.ino_eq_din hip]; exact hw.owned, fun j hj htype => ?_⟩
  by_cases hne : j = inum
  · subst hne
    rwa [← hip]
  · have hdin := hothers.din j hj hne
    have htype' : (G.din c.blk j).type ≠ 0 := by rwa [← hdin]
    intro n hn
    rw [hothers.blockAt_eq hj hne htype']
    exact h.noHoles j hj htype' n (by rwa [← hdin])

end Solid

/-! ## Reading what was written -/

/-- After `writei` has written all `n` bytes at `off`, the inode has the size
`max size (off + n)`, every `readi` returns the old contents overlaid with the source, and
nothing of any other inode has changed. -/
theorem readi_writei (G : Geometry) (leaked : Set ℕ) (d : Disk) (hd : Solid G leaked d) (inum : ℕ)
    (hlt : inum < G.ninodes) (htype : (G.din d inum).type ≠ 0) (l : Log)
    (src : ℕ → Option UInt8) (off n : ℕ) (c' : Ictx)
    (hrun : Sec.writei G inum src off n ⟨d, l, G.din d inum⟩ = .ok ((n : ℤ), c')) :
    c'.ip = G.din c'.blk inum ∧ Solid G leaked c'.blk ∧
      c'.ip.size.toNat = max (G.din d inum).size.toNat (off + n) ∧
      (∀ l' o m, ∃ dst, Sec.readi G (fun _ _ => true) o m ⟨c'.blk, l', c'.ip⟩ =
          .ok (((readCount (max (G.din d inum).size.toNat (off + n)) o m : ℕ), dst),
            ⟨c'.blk, l', c'.ip⟩) ∧
        ∀ j, j < readCount (max (G.din d inum).size.toNat (off + n)) o m →
          some (dst j) = if off ≤ o + j ∧ o + j < off + n then src (o + j - off)
            else some (content d (G.din d inum) (o + j))) ∧
      ∀ i, i < G.ninodes → i ≠ inum → G.din c'.blk i = G.din d i ∧
        ((G.din d i).type ≠ 0 →
          (∀ k, blockAt c'.blk (G.din c'.blk i) k = blockAt d (G.din d i) k) ∧
          ∀ o, content c'.blk (G.din c'.blk i) o = content d (G.din d i) o) := by
  have hfull := hd.noHoles inum hlt htype
  have hw : Working G inum leaked ⟨d, l, G.din d inum⟩ := hd.working rfl hlt htype
  rcases (writei_spec hw hfull src off n).result hrun with ⟨hneg, -, -⟩ | ⟨tot, htot, hwr⟩
  · omega
  obtain rfl : n = tot := Int.ofNat.inj htot
  have hfull' : NoHoles c'.blk c'.ip := hwr.full
  refine ⟨hwr.stored, hd.of_working hwr.working hwr.stored hwr.others hfull', hwr.size_eq,
    fun l' o m => ?_, fun i hi hne => ⟨hwr.others.din i hi hne, fun hi' => ?_⟩⟩
  · have hread := readi_eq (G := G) (c := ⟨c'.blk, l', c'.ip⟩) hfull' (fun _ _ => true) o m
    obtain ⟨⟨r, dst⟩, hr, hbytes⟩ := hread
    obtain ⟨hcount, hdst⟩ := hbytes fun _ _ => rfl
    simp only [hwr.size_eq] at hcount hdst
    refine ⟨dst, by rw [hr, hcount], fun j hj => ?_⟩
    rw [hdst j hj, hwr.content_eq (MappedOn.whole (by rw [Nat.zero_add]; exact hwr.mapped))]
    by_cases hin : off ≤ o + j ∧ o + j < off + n
    · have hsome := hwr.mapped (o + j - off) (Nat.zero_le _) (by omega)
      rw [if_pos hin, if_pos hin]
      obtain ⟨b, hb⟩ := Option.isSome_iff_exists.1 hsome
      rw [hb]
      rfl
    · rw [if_neg hin, if_neg hin]
  · exact ⟨hwr.others.blockAt_eq hi hne hi', hwr.others.content_eq hi hne hi'⟩

/-! ## A small disk -/

/-- The disk with the bits of the first `n` blocks set. -/
def markUsed (G : Geometry) (d : Disk) : ℕ → Disk
  | 0 => d
  | n + 1 => G.putBit (markUsed G d n) n true

section Mark

variable {G : Geometry} {d : Disk}

lemma bit_markUsed (n b : ℕ) : G.bit (markUsed G d n) b = if b < n then true else G.bit d b := by
  induction n with
  | zero => rfl
  | succ n ih =>
    rw [markUsed, Geometry.bit_putBit, ih]
    by_cases hb : b = n
    · rw [if_pos hb, if_pos (by omega)]
    · rw [if_neg hb]
      simp only [show b < n + 1 ↔ b < n by omega]

lemma din_markUsed (n : ℕ) {i : ℕ} (hi : i < G.ninodes) :
    G.din (markUsed G d n) i = G.din d i := by
  induction n with
  | zero => rfl
  | succ n ih => rw [markUsed, Geometry.din_putBit _ _ hi, ih]

end Mark

/-- Twelve blocks, of which five are metadata, and four inodes. -/
def smallGeometry : Geometry where
  size := 12
  ninodes := 4
  nlog := 1
  logstart := 2
  inodestart := 3
  bmapstart := 4
  log_le := by decide
  inodes_le := by decide
  bitmap_le := by decide
  root_lt := by decide
  ninodes_le := by decide
  size_lt := by decide

/-- The root directory, in the block 5. -/
def smallRoot : Dinode := ⟨T_DIR, 0, 0, 1, 48, fun k => if k = 0 then 5 else 0⟩

/-- An empty file. -/
def emptyFile : Dinode := ⟨T_FILE, 0, 0, 1, 0, fun _ => 0⟩

/-- The entries `.`, `..` and `a` of the root, of which the last names the file. -/
def rootEntries : Block := fun i =>
  if i.val < 16 then direntBytes ROOTINO dot i.val
  else if i.val < 32 then direntBytes ROOTINO dotdot (i.val - 16)
  else if i.val < 48 then direntBytes 2 [97] (i.val - 32) else 0

/-- A root directory (inode 1) and an empty file (inode 2). -/
def smallDisk : Disk :=
  smallGeometry.putDin
    (smallGeometry.putDin
      (markUsed smallGeometry (setAt (fun _ => Bytes.zero) 5 rootEntries) 6) 1 smallRoot)
    2 emptyFile

lemma din_smallDisk {i : ℕ} (hi : i < 4) : smallGeometry.din smallDisk i =
    if i = 2 then emptyFile else if i = 1 then smallRoot else Dinode.zero := by
  have hblank : smallGeometry.din (setAt (fun _ => Bytes.zero) 5 rootEntries) i = Dinode.zero := by
    rw [Geometry.din_update _ (Or.inr (by decide)) hi]
    exact getDinode_zero _
  rw [smallDisk, Geometry.din_putDin, Geometry.din_putDin, din_markUsed 6 hi, hblank]

lemma bit_smallDisk {b : ℕ} (hb : b < 12) : smallGeometry.bit smallDisk b = decide (b < 6) := by
  rw [smallDisk, Geometry.bit_putDin (by decide) _ hb, Geometry.bit_putDin (by decide) _ hb,
    bit_markUsed]
  have hblank : smallGeometry.bit (setAt (fun _ => Bytes.zero) 5 rootEntries) b = false := by
    rw [Geometry.bit_update _ (Or.inr (by decide)) hb, Geometry.bit, getBit_eq]
    simp
  rw [hblank]
  by_cases h : b < 6 <;> simp [h]

lemma ref_emptyFile (d : Disk) (p : Place) : ref d emptyFile p = 0 := by
  cases p <;> rfl

lemma ref_smallRoot (d : Disk) (p : Place) :
    ref d smallRoot p = if p = .direct ⟨0, by decide⟩ then 5 else 0 := by
  cases p with
  | direct k =>
    have hk : ∀ k : Fin NDIRECT,
        (smallRoot.addrs k.castSucc).toNat = if k.val = 0 then 5 else 0 := by
      decide
    simp only [ref, hk, Place.direct.injEq, Fin.ext_iff]
  | indirect => rfl
  | entry j => rfl

lemma noHoles_smallRoot (d : Disk) : NoHoles d smallRoot := by
  intro n hn
  obtain rfl : n = 0 := by
    change n * 1024 < 48 at hn
    omega
  change ref d smallRoot (.direct ⟨0, by decide⟩) ≠ 0
  rw [ref_smallRoot]
  decide

lemma refs_smallDisk (q : ℕ × Place) :
    refs smallGeometry smallDisk (smallGeometry.din smallDisk) q =
      if q = (1, .direct ⟨0, by decide⟩) then 5 else 0 := by
  obtain ⟨i, p⟩ := q
  simp only [Prod.mk.injEq]
  by_cases hi : i < 4
  · simp only [refs, din_smallDisk hi]
    by_cases h2 : i = 2
    · simp [h2, ref_emptyFile]
    · by_cases h1 : i = 1
      · rw [if_neg h2, if_pos h1, if_pos ⟨hi, by decide⟩, ref_smallRoot]
        simp only [h1, true_and]
      · simp [h1, h2, Dinode.zero]
  · rw [if_neg fun h => hi (by rw [h.1]; decide)]
    exact if_neg fun h => hi h.1

lemma solid_smallDisk : Solid smallGeometry ∅ smallDisk := by
  have hlo : smallGeometry.nmeta = 5 := rfl
  refine ⟨⟨by decide, fun q hq => ?_, fun q r hq hqr => ?_, fun b hb => hb.elim,
    fun b hb => hb.elim, fun b hb => ?_⟩, fun i hi htype => ?_⟩
  · rw [refs_smallDisk] at hq ⊢
    split at hq
    · rw [if_pos ‹_›]
      decide
    · exact absurd rfl hq
  · rw [refs_smallDisk] at hq hqr
    rw [refs_smallDisk] at hqr
    split at hq
    · split at hqr
      · split at hqr
        · rw [‹q = _›, ‹r = _›]
        · cases hqr
      · exact absurd ‹q = _› ‹¬ q = _›
    · exact absurd rfl hq
  · rw [bit_smallDisk hb, decide_eq_true_iff, hlo]
    simp only [refs_smallDisk, Set.mem_empty_iff_false, false_or]
    constructor
    · intro h
      by_cases h5 : b = 5
      · exact Or.inr ⟨_, (if_pos rfl).trans h5.symm⟩
      · exact Or.inl (by omega)
    · rintro (h | ⟨q, rfl⟩)
      · omega
      · split <;> omega
  · rw [din_smallDisk hi] at htype ⊢
    by_cases h2 : i = 2
    · rw [if_pos h2]
      exact fun n hn => absurd hn (Nat.not_lt_zero _)
    · rw [if_neg h2] at htype ⊢
      by_cases h1 : i = 1
      · rw [if_pos h1]
        exact noHoles_smallRoot _
      · rw [if_neg h1] at htype
        exact absurd rfl htype

/-- Three bytes written to the empty file are read back. -/
theorem readi_writei_threeBytes :
    Solid smallGeometry ∅ smallDisk ∧
      ∃ c', Sec.writei smallGeometry 2 (fun i => some (UInt8.ofNat (97 + i))) 0 3
          ⟨smallDisk, (Log.init 30).beginOp, smallGeometry.din smallDisk 2⟩ = .ok (3, c') ∧
        ∃ dst, Sec.readi smallGeometry (fun _ _ => true) 1 5 ⟨c'.blk, Log.init 30, c'.ip⟩ =
            .ok ((2, dst), ⟨c'.blk, Log.init 30, c'.ip⟩) ∧ dst 0 = 98 ∧ dst 1 = 99 := by
  refine ⟨solid_smallDisk, ?_⟩
  have hany : (Sec.writei smallGeometry 2 (fun i => some (UInt8.ofNat (97 + i))) 0 3
      ⟨smallDisk, (Log.init 30).beginOp, smallGeometry.din smallDisk 2⟩).any
      (fun r => r.1 = 3) = true := by
    decide +kernel
  obtain ⟨⟨r, c'⟩, hrun, hr⟩ := Outcome.eq_ok_of_any hany
  obtain rfl : r = 3 := of_decide_eq_true hr
  have hsize : (smallGeometry.din smallDisk 2).size.toNat = 0 := by
    rw [din_smallDisk (by decide)]
    rfl
  obtain ⟨-, -, -, hread, -⟩ := readi_writei smallGeometry ∅ smallDisk solid_smallDisk 2
    (by decide) (by rw [din_smallDisk (by decide)]; decide) _ _ 0 3 c' hrun
  obtain ⟨dst, hdst, hbytes⟩ := hread (Log.init 30) 1 5
  rw [hsize] at hdst hbytes
  exact ⟨c', hrun, dst, hdst, Option.some.inj (hbytes 0 (by decide)),
    Option.some.inj (hbytes 1 (by decide))⟩

end Xv6.Fs
