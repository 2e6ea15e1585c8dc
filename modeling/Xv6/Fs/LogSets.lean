import Xv6.Fs.Contents
import Mathlib.Data.Finset.Card

/-!
# Which blocks a routine can log

Upper bounds for the block numbers that the routines of `Fs/Inode.lean` pass to `log_write`, by name
where the name is known: a bitmap block, the block of an inode.  `Log.Within X l l'` says that from
`l` to `l'` the log has gained block numbers of `X` only.  The exact count for the chunks of
`filewrite` is in `Fs/Footprint.lean`.
-/

namespace Xv6

open Concur Concur.Bytes

/-- The log has gained only block numbers of `X`. -/
structure Log.Within (X : Finset ℕ) (l l' : Log) : Prop where
  fields : l' = { l with lh := l'.lh }
  nodup : l.lh.Nodup → l'.lh.Nodup
  sub : ∀ b ∈ l.lh, b ∈ l'.lh
  mem : ∀ b ∈ l'.lh, b ∈ l.lh ∨ b ∈ X

namespace Log.Within

variable {X Y : Finset ℕ} {l l' l'' : Log}

lemma refl (X : Finset ℕ) (l : Log) : Within X l l :=
  ⟨rfl, id, fun _ hb => hb, fun _ hb => Or.inl hb⟩

lemma mono (h : Within X l l') (hXY : X ⊆ Y) : Within Y l l' :=
  ⟨h.fields, h.nodup, h.sub, fun b hb => (h.mem b hb).imp_right fun hX => hXY hX⟩

lemma trans (h : Within X l l') (h' : Within X l' l'') : Within X l l'' := by
  refine ⟨by rw [h'.fields, h.fields], fun hn => h'.nodup (h.nodup hn),
    fun b hb => h'.sub b (h.sub b hb), fun b hb => ?_⟩
  rcases h'.mem b hb with hb' | hX
  · exact h.mem b hb'
  · exact Or.inr hX

lemma of_write {b : ℕ} {new : Bool} (h : l.write b = .ok (new, l')) : Within {b} l l' := by
  obtain ⟨-, -, -, -, rfl⟩ := Log.write_eq_ok h
  refine ⟨rfl, record_nodup, fun c hc => Log.mem_record.2 (Or.inr hc), fun c hc => ?_⟩
  rcases Log.mem_record.1 hc with rfl | hc
  · exact Or.inr (Finset.mem_singleton_self c)
  · exact Or.inl hc

end Log.Within

/-- The bitmap blocks. -/
def Geometry.bitmap (G : Geometry) : Finset ℕ :=
  (Finset.range (G.size / BPB + 1)).image (· + G.bmapstart)

lemma Geometry.BBLOCK_mem_bitmap {G : Geometry} {b : ℕ} (hb : b ≤ G.size) :
    G.BBLOCK b ∈ G.bitmap := by
  refine Finset.mem_image.2 ⟨b / BPB, Finset.mem_range.2 ?_, rfl⟩
  exact Nat.lt_succ_of_le (Nat.div_le_div_right hb)

namespace Fs

section

variable {G : Geometry} {inum : ℕ} {c c' : Ictx}

/-- The log has gained only block numbers of `X`, and what has changed is in the log. -/
def Logs (X : Finset ℕ) (c c' : Ictx) : Prop :=
  Log.Within X c.log c'.log ∧ ∀ a, a ∉ c'.log.lh → c'.blk a = c.blk a

lemma Logs.refl (X : Finset ℕ) (c : Ictx) : Logs X c c := ⟨.refl _ _, fun _ _ => rfl⟩

lemma Logs.mono {X Y : Finset ℕ} (h : Logs X c c') (hXY : X ⊆ Y) : Logs Y c c' :=
  ⟨h.1.mono hXY, h.2⟩

lemma Logs.trans {X : Finset ℕ} {c'' : Ictx} (h : Logs X c c') (h' : Logs X c' c'') :
    Logs X c c'' :=
  ⟨h.1.trans h'.1, fun a ha => (h'.2 a ha).trans (h.2 a (mt (h'.1.sub a) ha))⟩

lemma logWrite_within {X : Finset ℕ} {b : ℕ} (hb : b ∈ X) (v : Block) :
    Wp (fun _ => False) (Sec.logWrite b v)
      (fun _ c' => Logs X c c' ∧ c'.ip = c.ip ∧ c'.blk = setAt c.blk b v ∧ b ∈ c'.log.lh) c := by
  unfold Wp Sec.logWrite
  cases hw : c.log.write b with
  | ok r =>
    have hmem : b ∈ r.2.lh := by
      obtain ⟨-, -, -, -, hl⟩ := Log.write_eq_ok hw
      rw [hl]
      exact Log.mem_record.2 (Or.inl rfl)
    refine ⟨⟨(Log.Within.of_write hw).mono (Finset.singleton_subset_iff.2 hb), fun a ha => ?_⟩,
      rfl, rfl, hmem⟩
    exact setAt_of_ne _ _ fun he => ha (he ▸ hmem)
  | blocked => exact trivial
  | panic m => exact not_false

lemma iupdate_within {X : Finset ℕ} (hX : G.IBLOCK inum ∈ X) :
    Wp (fun _ => False) (Sec.iupdate G inum)
      (fun _ c' => Log.Within X c.log c'.log ∧ c'.ip = c.ip) c := by
  rw [Sec.iupdate]
  exact Wp.get_bind ((logWrite_within hX _).mono fun _ _ h => ⟨h.1.1, h.2.1⟩)

/-! ## The allocator and `bmap` -/

lemma balloc_within :
    Wp (fun _ => False) (Sec.balloc G)
      (fun a c' => Logs (G.bitmap ∪ {a}) c c' ∧ c'.ip = c.ip ∧ a < 2 ^ 32 ∧
        (a = 0 ∨ (a ∈ c'.log.lh ∧ c'.blk a = Bytes.zero))) c := by
  refine balloc_wp (fun _ => ⟨.refl _ _, rfl, by decide, Or.inl rfl⟩) fun f hf _ => ?_
  have hsize := G.size_lt
  have hbit : G.BBLOCK f ∈ G.bitmap ∪ {f} :=
    Finset.mem_union_left _ (Geometry.BBLOCK_mem_bitmap hf.le)
  have hnew : f ∈ G.bitmap ∪ {f} := Finset.mem_union_right _ (Finset.mem_singleton_self _)
  refine Wp.seq (logWrite_within hbit _) fun _ c1 h1 => ?_
  refine Wp.seq (logWrite_within hnew _) fun _ c2 h2 => Wp.pure ?_
  refine ⟨h1.1.trans h2.1, h2.2.1.trans h1.2.1, by omega, Or.inr ⟨h2.2.2.2, ?_⟩⟩
  rw [h2.2.2.1, setAt_self]

lemma ensureAddr_within (k : Fin (NDIRECT + 1)) :
    Wp (fun _ => False) (Sec.ensureAddr G k)
      (fun a c' => Logs (G.bitmap ∪ {a}) c c' ∧ (c'.ip.addrs k).toNat = a ∧
        (c' = c ∨ a = 0 ∨ (a ∈ c'.log.lh ∧ c'.blk a = Bytes.zero))) c := by
  rw [Sec.ensureAddr]
  refine Wp.get_bind ?_
  simp only
  split
  · rename_i hk
    refine Wp.seq balloc_within fun a c1 h1 => ?_
    obtain ⟨hlog, hip, ha, hnew⟩ := h1
    split
    · rename_i h0
      refine Wp.pure ⟨?_, ?_, Or.inr (Or.inl rfl)⟩
      · rwa [h0] at hlog
      · rw [hip, hk]
        rfl
    · refine Wp.bind (Wp.of_modify (Wp.pure ⟨hlog, ?_, Or.inr hnew⟩))
      simp only [setAt_self]
      exact UInt32.toNat_ofNat_of_lt' ha
  · exact Wp.pure ⟨.refl _ _, rfl, Or.inl rfl⟩

/-- The number in the slot for the indirect block. -/
def Ictx.indirect (c : Ictx) : ℕ := (c.ip.addrs (Fin.last NDIRECT)).toNat

/-- Beside bitmap blocks, `bmap` logs the block it returns and the indirect block, and it does log a
block that it has allocated. -/
lemma bmap_within (n : ℕ) :
    Wp (fun _ => False) (Sec.bmap G n)
      (fun a c' => Logs (G.bitmap ∪ {a, c'.indirect}) c c' ∧
        (c' = c ∨ a = 0 ∨ a ∈ c'.log.lh)) c := by
  rw [Sec.bmap]
  split
  · refine (ensureAddr_within _).mono fun a c' h => ⟨h.1.mono ?_, ?_⟩
    · exact Finset.union_subset_union_right (by simp)
    · exact h.2.2.imp_right (Or.imp_right And.left)
  · split
    · refine Wp.seq (ensureAddr_within _) fun ind c1 h1 => ?_
      obtain ⟨hlog1, hind, hnew⟩ := h1
      have hind' : c1.indirect = ind := hind
      have hsub : ∀ a, G.bitmap ∪ {ind} ⊆ G.bitmap ∪ {a, ind} :=
        fun a => Finset.union_subset_union_right (by simp)
      split
      · rw [← hind'] at hlog1 hsub
        exact Wp.pure ⟨hlog1.mono (hsub 0), Or.inr (Or.inl rfl)⟩
      · rename_i h0
        refine Wp.get_bind ?_
        simp only
        split
        · refine Wp.seq balloc_within fun a c2 h2 => ?_
          obtain ⟨hlog2, hip2, -, hnew2⟩ := h2
          have hlog : Logs (G.bitmap ∪ {a, ind}) c c2 :=
            (hlog1.mono (hsub a)).trans
              (hlog2.mono (Finset.union_subset_union_right (by simp)))
          have hind2 : c2.indirect = ind := by
            rw [Ictx.indirect, hip2]
            exact hind
          split
          · rename_i ha
            rw [ha, ← hind2] at hlog
            exact Wp.pure ⟨hlog, Or.inr (Or.inl rfl)⟩
          · rename_i ha
            have hmem : ind ∈ G.bitmap ∪ {a, ind} := by simp
            refine Wp.get_bind (Wp.seq (logWrite_within hmem _) fun _ c3 h3 => Wp.pure ⟨?_, ?_⟩)
            · have hind3 : c3.indirect = ind := by
                rw [Ictx.indirect, h3.2.1]
                exact hind2
              rw [hind3]
              exact hlog.trans h3.1
            · exact Or.inr (Or.inr (h3.1.1.sub a (hnew2.resolve_left ha).1))
        · rename_i hentry
          rw [← hind'] at hlog1 hsub
          refine Wp.pure ⟨hlog1.mono (hsub _), ?_⟩
          -- the entries of a new indirect block are 0
          rcases hnew with hsame | hzero | ⟨-, hblank⟩
          · exact Or.inl hsame
          · exact absurd hzero h0
          · rw [hblank, getEntry_zero] at hentry
            exact absurd rfl hentry
    · exact not_false

/-! ## Writing within one block -/

lemma writeFrom_within (src : ℕ → Option UInt8) (fuel off left tot : ℕ)
    (hleft : off % BSIZE + left ≤ BSIZE) :
    Wp (fun _ => False) (Sec.writeFrom G src fuel off left tot)
      (fun _ c' => ∃ Y : Finset ℕ, Y.card ≤ 2 ∧ Log.Within (G.bitmap ∪ Y) c.log c'.log) c := by
  cases fuel with
  | zero => exact Wp.pure ⟨∅, Nat.zero_le _, .refl _ _⟩
  | succ fuel =>
    rw [Sec.writeFrom]
    split
    · exact Wp.pure ⟨∅, Nat.zero_le _, .refl _ _⟩
    · refine Wp.seq (bmap_within _) fun a c1 h1 => ?_
      obtain ⟨⟨hlog1, -⟩, -⟩ := h1
      generalize c1.indirect = ind at hlog1
      have hcard : ({a, ind} : Finset ℕ).card ≤ 2 := Finset.card_le_two
      split
      · exact Wp.pure ⟨{a, ind}, hcard, hlog1⟩
      · refine Wp.get_bind ?_
        simp only
        split
        · have hmem : a ∈ G.bitmap ∪ {a, ind} := by simp
          refine Wp.seq (logWrite_within hmem _) fun _ c2 h2 => ?_
          -- nothing is left for another round
          have hrest : left - min left (BSIZE - off % BSIZE) = 0 := by omega
          rw [hrest]
          have hdone : Sec.writeFrom G src fuel (off + min left (BSIZE - off % BSIZE)) 0
              (tot + min left (BSIZE - off % BSIZE)) =
              pure (tot + min left (BSIZE - off % BSIZE),
                off + min left (BSIZE - off % BSIZE)) := by
            cases fuel with
            | zero => rfl
            | succ fuel => rw [Sec.writeFrom, if_pos rfl]
          rw [hdone]
          exact Wp.pure ⟨{a, ind}, hcard, hlog1.trans h2.1.1⟩
        · exact Wp.bind (Wp.of_modify (Wp.pure ⟨{a, ind}, hcard, hlog1⟩))

lemma writei_within (src : ℕ → Option UInt8) (off n : ℕ) (hn : off % BSIZE + n ≤ BSIZE) :
    Wp (fun _ => False) (Sec.writei G inum src off n)
      (fun _ c' => ∃ Y : Finset ℕ, Y.card ≤ 2 ∧
        Log.Within (G.bitmap ∪ {G.IBLOCK inum} ∪ Y) c.log c'.log) c := by
  rw [Sec.writei]
  refine Wp.get_bind ?_
  simp only
  split
  · exact Wp.pure ⟨∅, Nat.zero_le _, .refl _ _⟩
  · split
    · exact Wp.pure ⟨∅, Nat.zero_le _, .refl _ _⟩
    · refine Wp.seq (writeFrom_within src n off n 0 hn) fun r c1 h1 => ?_
      obtain ⟨Y, hY, hlog1⟩ := h1
      have hlog1' : Log.Within (G.bitmap ∪ {G.IBLOCK inum} ∪ Y) c.log c1.log :=
        hlog1.mono (Finset.union_subset_union_left Finset.subset_union_left)
      refine Wp.seq (P := fun _ c2 => c2.log = c1.log) ?_ fun _ c2 h2 => ?_
      · rw [Sec.when]
        split
        · exact Wp.of_modify rfl
        · exact Wp.pure rfl
      · have hmem : G.IBLOCK inum ∈ G.bitmap ∪ {G.IBLOCK inum} ∪ Y := by simp
        refine Wp.seq (iupdate_within hmem) fun _ c3 h3 => Wp.pure ⟨Y, hY, ?_⟩
        rw [h2] at h3
        exact hlog1'.trans h3.1

/-! ## Freeing -/

lemma bfree_within {b : ℕ} (hb : b < G.size) :
    Wp (fun _ => False) (Sec.bfree G b)
      (fun _ c' => Log.Within G.bitmap c.log c'.log ∧ c'.ip = c.ip ∧
        ∀ a, G.nmeta ≤ a → c'.blk a = c.blk a) c := by
  rw [Sec.bfree]
  refine Wp.get_bind ?_
  simp only
  split
  · refine (logWrite_within (Geometry.BBLOCK_mem_bitmap hb.le) _).mono fun _ c' h => ?_
    refine ⟨h.1.1, h.2.1, fun a ha => ?_⟩
    rw [h.2.2.1]
    exact setAt_of_ne _ _ (((Geometry.BBLOCK_lt hb).trans_le ha).ne')
  · exact not_false

lemma freeDirect_within (is : List (Fin NDIRECT)) (hlt : ∀ k, (c.ip.addrs k).toNat < G.size) :
    Wp (fun _ => False) (Sec.freeDirect G is)
      (fun _ c' => Log.Within G.bitmap c.log c'.log ∧
        (∀ a, G.nmeta ≤ a → c'.blk a = c.blk a) ∧
        c'.ip.addrs (Fin.last NDIRECT) = c.ip.addrs (Fin.last NDIRECT)) c := by
  induction is generalizing c with
  | nil => exact Wp.pure ⟨.refl _ _, fun _ _ => rfl, rfl⟩
  | cons i is ih =>
    rw [Sec.freeDirect]
    refine Wp.get_bind ?_
    simp only
    refine Wp.seq (P := fun _ c1 => Log.Within G.bitmap c.log c1.log ∧
      (∀ a, G.nmeta ≤ a → c1.blk a = c.blk a) ∧ (∀ k, (c1.ip.addrs k).toNat < G.size) ∧
      c1.ip.addrs (Fin.last NDIRECT) = c.ip.addrs (Fin.last NDIRECT)) ?_ fun _ c1 h1 => ?_
    · rw [Sec.when]
      split
      · refine Wp.seq (bfree_within (hlt _)) fun _ c1 h1 => Wp.of_modify ?_
        obtain ⟨hlog, hip, hblk⟩ := h1
        refine ⟨hlog, hblk, fun k => ?_, ?_⟩
        · by_cases hk : k = i.castSucc
          · simp only [hk, setAt_self]
            exact (Nat.zero_le _).trans_lt (hlt k)
          · simp only [setAt_of_ne _ _ hk, hip]
            exact hlt k
        · simp only [setAt_of_ne _ _ (Fin.castSucc_ne_last i).symm, hip]
      · exact Wp.pure ⟨.refl _ _, fun _ _ => rfl, hlt, rfl⟩
    · obtain ⟨hlog, hblk, hlt1, hlast⟩ := h1
      refine (ih hlt1).mono fun _ c2 h2 => ⟨hlog.trans h2.1, fun a ha => ?_, h2.2.2.trans hlast⟩
      exact (h2.2.1 a ha).trans (hblk a ha)

lemma freeEntries_within (bp : Block) (js : List (Fin NINDIRECT))
    (hlt : ∀ j : Fin NINDIRECT, (getEntry bp j).toNat < G.size) :
    Wp (fun _ => False) (Sec.freeEntries G bp js)
      (fun _ c' => Log.Within G.bitmap c.log c'.log) c := by
  induction js generalizing c with
  | nil => exact Wp.pure (.refl _ _)
  | cons j js ih =>
    rw [Sec.freeEntries]
    refine Wp.seq (P := fun _ c1 => Log.Within G.bitmap c.log c1.log) ?_ fun _ c1 h1 => ?_
    · rw [Sec.when]
      split
      · exact (bfree_within (hlt j)).mono fun _ _ h => h.1
      · exact Wp.pure (.refl _ _)
    · exact ih.mono fun _ _ h2 => h1.trans h2

lemma itrunc_within (hw : Working G inum ∅ c) :
    Wp (fun _ => False) (Sec.itrunc G inum)
      (fun _ c' => Log.Within (G.bitmap ∪ {G.IBLOCK inum}) c.log c'.log) c := by
  have hrefs : ∀ p, ref c.blk c.ip p < G.size := by
    intro p
    by_cases h0 : ref c.blk c.ip p = 0
    · rw [h0]
      exact Geometry.nmeta_pos.trans_le Geometry.nmeta_le
    · exact (hw.nmeta_le h0).2
  have haddrs : ∀ k, (c.ip.addrs k).toNat < G.size := by
    intro k
    rw [← ref_slotOf c.blk c.ip k]
    exact hrefs _
  rw [Sec.itrunc]
  refine Wp.seq (freeDirect_within _ haddrs) fun _ c1 h1 => Wp.get_bind ?_
  obtain ⟨hlog1, hblk1, hlast1⟩ := h1
  simp only
  refine Wp.seq (P := fun _ c2 => Log.Within G.bitmap c.log c2.log) ?_ fun _ c2 h2 => ?_
  · rw [Sec.when]
    split
    · rename_i hind
      rw [hlast1] at hind ⊢
      have h0 : ref c.blk c.ip .indirect ≠ 0 := fun h => hind (ref_indirect_eq_zero.1 h)
      refine Wp.get_bind (Wp.seq (freeEntries_within _ _ fun j => ?_) fun _ c2 h2 => ?_)
      · have hbp : c1.blk (c.ip.addrs (Fin.last NDIRECT)).toNat =
            c.blk (c.ip.addrs (Fin.last NDIRECT)).toNat := hblk1 _ (hw.nmeta_le h0).1
        have hj := hrefs (.entry j)
        rw [ref, if_neg hind] at hj
        rwa [hbp]
      · refine Wp.seq (bfree_within (hrefs .indirect)) fun _ c3 h3 => Wp.of_modify ?_
        exact (hlog1.trans h2).trans h3.1
    · exact Wp.pure hlog1
  · refine Wp.bind (Wp.of_modify ?_)
    have hmem : G.IBLOCK inum ∈ G.bitmap ∪ {G.IBLOCK inum} :=
      Finset.mem_union_right _ (Finset.mem_singleton_self _)
    refine (iupdate_within hmem).mono fun _ c3 h3 => ?_
    exact (h2.mono Finset.subset_union_left).trans h3.1

end

end Fs

end Xv6
