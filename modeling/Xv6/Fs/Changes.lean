import Xv6.Fs.DirMap
import Xv6.Fs.Slots

/-!
# Changing inodes while one process runs

The routines that change an inode, in the accounts of `Fs/Slots.lean`: `iupdate` after a change of
fields, `ialloc`, `dirlink`, the erasure of an entry, `itrunc`, and `iput` of an inode that may have
to be freed.  Each is specified by the references and locks afterwards and by what it does to the
tree.  The blocks of inodes and of the bitmap that it may log are to be in the set `K` beforehand
(`Holding.mono`), so that only the blocks of directories are counted.
-/

namespace Xv6.Fs

open Concur

/-- Having to wait is allowed, and so are the panics of `log_write`. -/
structure LogStops (stop : Option Panic → Prop) : Prop where
  wait : stop none
  panic : ∀ m, ¬ Unexpected m → stop (some m)

variable {N : ℕ} {B : Finset ℕ → ℕ → Prop} {G : Geometry} {t : Fin N}
  {base own : Fin NINODE → ℕ} {L : Finset (Fin NINODE)} {K : Finset ℕ} {n e : ℕ} {s s' : St N}
  {stop : Option Panic → Prop} {k : Fin NINODE}

section

variable (hc : Holding B G t base own L K n s)

include hc

lemma Holding.mono {K' : Finset ℕ} {n' : ℕ} (hK : K ⊆ K')
    (hn : n ≤ n') (hB : B K' n') : Holding B G t base own L K' n' s :=
  ⟨hc.fs, hc.ref_eq, hc.lock_eq, hc.locked, hc.inj, hc.lt, hc.copy, hc.alloc, hc.log.mono hK hn, hB⟩

lemma Holding.onInode {α : Type} (hk : k ∈ L) {m : Sec α}
    {Q : α → Ictx → Prop} (hm : Wp Unexpected m Q ⟨s.blk, s.log, (s.itable k).d⟩)
    (hQ : ∀ a c', Q a c' → Stored G (s.itable k).inum ⟨s.blk, s.log, (s.itable k).d⟩ c' ∧
      ∃ Y : Finset ℕ, Y.card ≤ e ∧ Log.Within (K ∪ Y) s.log c'.log)
    (hB : B K (n + e)) (hstop : LogStops stop) :
    (St.onInode k m s).Meets stop fun r => Fits B r.2 ∧
      Holding B G t base own L K (n + e) r.2 ∧ Frame (base + own) s r.2 ∧
      (∀ j, (r.2.itable j).inum = (s.itable j).inum) ∧
      ∃ c', Q r.1 c' ∧ r.2.blk = c'.blk := by
  obtain ⟨hpos, hvalid⟩ := hc.locked k hk
  have hheld := hc.held hk
  unfold Wp at hm
  cases hrun : m ⟨s.blk, s.log, (s.itable k).d⟩ with
  | blocked =>
    simp only [St.onInode, hrun, Outcome.blocked_bind]
    exact hstop.wait
  | panic p =>
    rw [hrun] at hm
    simp only [St.onInode, hrun, Outcome.panic_bind]
    exact hstop.panic p hm
  | ok r =>
    obtain ⟨a, c'⟩ := r
    rw [hrun] at hm
    obtain ⟨hst, Y, hY, hlog⟩ := hQ a c' hm
    simp only [St.onInode, hrun, Outcome.ok_bind, Outcome.pure_eq]
    have hne : ∀ j, j ≠ k → 0 < base j + own j → (s.itable j).inum ≠ (s.itable k).inum :=
      fun j hjk hj heq => hjk (hc.inj j k hj hpos heq)
    have htype := (hst.held hheld).type_ne
    have hlogK : LogIn K (n + e) c'.log := by
      have h := hc.log.within hlog hY
      rwa [Finset.union_self] at h
    have hc' : Holding B G t base own L K (n + e) { s with
        blk := c'.blk
        log := c'.log
        itable := setAt s.itable k { s.itable k with d := c'.ip } } :=
      hc.replace (x := { s.itable k with d := c'.ip }) (hc.ref_eq k) (fun _ _ => rfl) (hc.lock_eq k)
        (fun _ _ => Iff.rfl) (fun _ => ⟨hpos, hvalid⟩) (fun _ => hne) (fun _ => hc.lt k hpos) hst.fs
        hst.others (fun j hjk hj _ => hne j hjk hj) hlogK hB rfl (fun _ _ => ⟨hst.eq, htype⟩)
          fun _ => hst.eq ▸ htype
    have hinum : ∀ j, (setAt s.itable k { s.itable k with d := c'.ip } j).inum =
        (s.itable j).inum := map_setAt Inode.inum (by rfl)
    refine ⟨hc'.toFits, hc', ⟨?_, fun j _ => hinum j⟩, hinum, c', hm, rfl⟩
    rw [hlog.fields]

lemma Holding.tree_eq (hpos : 0 < base k + own k) :
    tree G s.blk (s.itable k).inum = node s.blk (G.din s.blk (s.itable k).inum) :=
  tree_of_lt (hc.lt k hpos)

end

/-- At most the contents of the inode `i` change. -/
abbrev Rewrites (G : Geometry) (i : ℕ) (d d' : Disk) : Prop :=
  ∃ x, tree G d' = setAt (tree G d) i x ∧ x.type = (tree G d i).type ∧ x.nlink = (tree G d i).nlink

/-- The disks differ in the inode `i`, and no other inode and no bit of the bitmap has changed. -/
structure SameSpace (G : Geometry) (i : ℕ) (d d' : Disk) : Prop where
  others : Others G i d d'
  bit_eq : ∀ b, b < G.size → G.bit d' b = G.bit d b

lemma SameSpace.trans {i : ℕ} {d d' d'' : Disk} (h : SameSpace G i d d')
    (h' : SameSpace G i d' d'') : SameSpace G i d d'' :=
  ⟨h.others.trans h'.others, fun b hb => (h'.bit_eq b hb).trans (h.bit_eq b hb)⟩

lemma SameSpace.hasRoom_iff {i j : ℕ} {d d' : Disk} (h : SameSpace G i d d') (hj : j < G.ninodes)
    (hne : j ≠ i) (htype : (G.din d j).type ≠ 0) : HasRoom G d' j ↔ HasRoom G d j := by
  have hfree : freeBlocks G d' = freeBlocks G d :=
    Finset.filter_congr fun b hb => by rw [h.bit_eq b (Finset.mem_range.1 hb)]
  have hdin := h.others.din j hj hne
  have hent := entInum_congr (h.others.content_eq hj hne htype)
  have hblock := h.others.blockAt_eq hj hne htype
  rw [hdin] at hent hblock
  simp only [HasRoom, CanGrow, need, hfree, hdin, hent, hblock]

section

variable (hc : Holding B G t base own L K n s) (hk : k ∈ L)

include hc hk

lemma change_ends (f : Dinode → Dinode)
    (hf : ∀ x, (f x).type = x.type ∧ (f x).size = x.size ∧ (f x).addrs = x.addrs)
    (hK : G.IBLOCK (s.itable k).inum ∈ K) (hstop : LogStops stop) :
    Ends (Fits B) stop (change G k f) s fun _ s' =>
      Holding B G t base own L K n s' ∧ Frame (base + own) s s' ∧
      (∀ j, (s'.itable j).inum = (s.itable j).inum) ∧
      tree G s'.blk = setAt (tree G s.blk) (s.itable k).inum
        { tree G s.blk (s.itable k).inum with
          nlink := (f (G.din s.blk (s.itable k).inum)).nlink } ∧
      SameSpace G (s.itable k).inum s.blk s'.blk := by
  have hheld := hc.held hk
  have hd := hc.d_eq hk
  have hsub : {G.IBLOCK (s.itable k).inum} ⊆ K ∪ ∅ :=
    Finset.singleton_subset_iff.2 (Finset.mem_union_left _ hK)
  refine Ends.update (Outcome.Meets.bind (hc.onInode (e := 0) hk (hheld.change (hf _))
    (fun a c' h => ⟨h.1, ∅, le_rfl, h.2.2.1.mono hsub⟩) hc.fits hstop) ?_)
  rintro ⟨_, s'⟩ ⟨hfits, hc', hf', hj', c', ⟨hst, hnode, -, hbit⟩, hblk⟩
  refine ⟨hfits, hc', hf', hj', ?_, ?_⟩
  · rw [hblk, hst.tree hheld, hnode, hc.tree_eq (hc.locked k hk).1, hd]
  · rw [hblk]
    exact ⟨hst.others, hbit⟩

lemma Holding.writeEntry {α : Type} {m : Sec α} {P Q : α → Prop} (hm : Wp Unexpected m (fun r c' =>
      Stored G (s.itable k).inum ⟨s.blk, s.log, (s.itable k).d⟩ c' ∧
      c'.ip.nlink = (s.itable k).d.nlink ∧
      (P r → node c'.blk c'.ip = node s.blk (s.itable k).d) ∧
      (∃ Y : Finset ℕ, Y.card ≤ 2 ∧
        Log.Within (G.bitmap ∪ {G.IBLOCK (s.itable k).inum} ∪ Y) s.log c'.log) ∧ Q r)
      ⟨s.blk, s.log, (s.itable k).d⟩)
    (hbit : G.bitmap ⊆ K) (hK : G.IBLOCK (s.itable k).inum ∈ K) (hB : B K (n + 2))
    (hstop : LogStops stop) :
    Ends (Fits B) stop (.atomic (St.onInode k m)) s fun r s' =>
      Holding B G t base own L K (n + 2) s' ∧ Frame (base + own) s s' ∧
      (∀ j, (s'.itable j).inum = (s.itable j).inum) ∧
      (P r → tree G s'.blk = tree G s.blk) ∧ Q r ∧
      Rewrites G (s.itable k).inum s.blk s'.blk := by
  have hheld := hc.held hk
  have hd := hc.d_eq hk
  have htree := hc.tree_eq (hc.locked k hk).1
  have hsub : G.bitmap ∪ {G.IBLOCK (s.itable k).inum} ⊆ K :=
    Finset.union_subset hbit (Finset.singleton_subset_iff.2 hK)
  refine Ends.atomic (Outcome.Meets.mono (hc.onInode (e := 2) hk hm (fun a c' h => ⟨h.1, ?_⟩) hB
    hstop) ?_)
  · obtain ⟨Y, hY, hlog⟩ := h.2.2.2.1
    exact ⟨Y, hY, hlog.mono (Finset.union_subset_union_left hsub)⟩
  · rintro ⟨r, s'⟩ ⟨hfits, hc', hf', hj', c', ⟨hst, hnlink, hnode, -, hQ⟩, hblk⟩
    refine ⟨hfits, hc', hf', hj', fun hr => ?_, hQ, node c'.blk c'.ip, ?_, ?_, ?_⟩
    · rw [hblk, hst.tree hheld, hnode hr, hd, ← htree, setAt_eq_self]
    · rw [hblk, hst.tree hheld]
    · rw [htree, ← hd]
      exact hst.type_eq
    · rw [htree, ← hd]
      exact hnlink

lemma dirlinkEntry_ends (hdir : (G.din s.blk (s.itable k).inum).type = T_DIR) (name : Name) {i : ℕ}
    (hi : i < G.ninodes) (hbit : G.bitmap ⊆ K) (hK : G.IBLOCK (s.itable k).inum ∈ K)
    (hB : B K (n + 2)) (hstop : LogStops stop) :
    Ends (Fits B) stop
      (.atomic (St.onInode k (Sec.dirlinkEntry G (s.itable k).inum name i))) s fun r s' =>
      Holding B G t base own L K (n + 2) s' ∧ Frame (base + own) s s' ∧
      (∀ j, (s'.itable j).inum = (s.itable j).inum) ∧
      (r = false → tree G s'.blk = tree G s.blk) ∧
      (r = true ↔ HasRoom G s.blk (s.itable k).inum) ∧
      Rewrites G (s.itable k).inum s.blk s'.blk := by
  have hd := hc.d_eq hk
  have hdir' : (s.itable k).d.type = T_DIR := by rwa [hd]
  have hiff := ((hc.held hk).dir hdir').dirlinkEntry_iff name i
  refine hc.writeEntry hk (((hc.held hk).dirlinkEntry hdir' name hi).and
    hiff |>.mono fun r c' h => ?_) hbit hK hB hstop
  obtain ⟨⟨hst, hnlink, hnode, hlog⟩, hr⟩ := h
  refine ⟨hst, hnlink, hnode, hlog, ?_⟩
  rw [← Bool.not_eq_false, hr, HasRoom, not_and_or, not_not, hd]
  simp only [ne_eq, not_forall, not_not, exists_prop]

lemma eraseEntry_ends (hdir : (G.din s.blk (s.itable k).inum).type = T_DIR) {m : ℕ}
    (hm : m < nent (G.din s.blk (s.itable k).inum)) (hbit : G.bitmap ⊆ K)
    (hK : G.IBLOCK (s.itable k).inum ∈ K) (hB : B K (n + 2)) (hstop : LogStops stop) :
    Ends (Fits B) stop
      (.atomic (St.onInode k (Sec.eraseEntry G (s.itable k).inum (DESIZE * m)))) s fun _ s' =>
      Holding B G t base own L K (n + 2) s' ∧ Frame (base + own) s s' ∧
      (∀ j, (s'.itable j).inum = (s.itable j).inum) ∧
      Rewrites G (s.itable k).inum s.blk s'.blk := by
  have hd := hc.d_eq hk
  have herase := (hc.held hk).eraseEntry (by rwa [hd]) (k := m) (by rwa [hd])
  refine (hc.writeEntry (P := fun _ => False) (Q := fun _ => True) hk
    (herase.mono fun _ c' h => ?_) hbit hK hB hstop).mono fun _ s' h => ?_
  · exact ⟨h.1, h.2.1, False.elim, h.2.2, trivial⟩
  · exact ⟨h.1, h.2.1, h.2.2.1, h.2.2.2.2.2⟩

lemma itrunc_ends (hbit : G.bitmap ⊆ K)
    (hK : G.IBLOCK (s.itable k).inum ∈ K) (hstop : LogStops stop) :
    Ends (Fits B) stop (.atomic (St.onInode k (Sec.itrunc G (s.itable k).inum))) s fun _ s' =>
      Holding B G t base own L K n s' ∧ Frame (base + own) s s' ∧
      (∀ j, (s'.itable j).inum = (s.itable j).inum) := by
  have hsub : G.bitmap ∪ {G.IBLOCK (s.itable k).inum} ⊆ K ∪ ∅ :=
    Finset.subset_union_left.trans' (Finset.union_subset hbit (Finset.singleton_subset_iff.2 hK))
  refine Ends.atomic (Outcome.Meets.mono (hc.onInode (e := 0) hk (hc.held hk).itrunc
    (fun a c' h => ⟨h.1, ∅, le_rfl, h.2.2.mono hsub⟩) hc.fits hstop) ?_)
  rintro ⟨_, s'⟩ ⟨hfits, hc', hf', hj', -⟩
  exact ⟨hfits, hc', hf', hj'⟩

end

/-! ## Allocation -/

lemma Holding.store (hc : Holding B G t base own L K n s) {i n' : ℕ} {K' : Finset ℕ}
    (hfs : FsOk G s'.blk) (hothers : Others G i s.blk s'.blk)
    (hne : ∀ j, 0 < base j + own j → (s.itable j).valid = true ∨ 0 < base j →
      (s.itable j).inum ≠ i)
    (hlog : LogIn K' n' s'.log) (hB : B K' n') (htab : s'.itable = s.itable) :
    Holding B G t base own L K' n' s' := by
  refine ⟨hfs, ?_, ?_, ?_, ?_, ?_, fun j hj hv => ?_, fun j hj => ?_, hlog, hB⟩ <;> rw [htab] at *
  · exact hc.ref_eq
  · exact hc.lock_eq
  · exact hc.locked
  · exact hc.inj
  · exact hc.lt
  · rw [hothers.din _ (hc.lt j hj) (hne j hj (Or.inl hv))]
    exact hc.copy j hj hv
  · have hpos : 0 < base j + own j := by omega
    rw [hothers.din _ (hc.lt j hpos) (hne j hpos (Or.inr hj))]
    exact hc.alloc j hj

lemma FsOk.tree_of_free {d : Disk} (h : FsOk G d) {i : ℕ} (hi : i < G.ninodes)
    (hfree : (G.din d i).type = 0) : tree G d i = .blank := by
  obtain ⟨hnlink, hsize⟩ := (h.node i hi).blank hfree
  rw [tree_of_lt hi, Fs.node, if_pos hfree, hfree, hnlink, hsize]
  rfl

lemma markInode_ends (hc : Holding B G t base own L K n s) {i : ℕ} (hi : i < G.ninodes)
    (type : Int16) (hB : B (K ∪ {G.IBLOCK i}) n) (hstop : LogStops stop) :
    Ends (Fits B) stop (.atomic (St.ialloc G i type)) s fun r s' =>
      if r = true then (G.din s.blk i).type = 0 ∧
        Holding B G t base own L (K ∪ {G.IBLOCK i}) n s' ∧ Frame (base + own) s s' ∧
        s'.itable = s.itable ∧
        tree G s'.blk = setAt (tree G s.blk) i ⟨type, 0, 0, fun _ => 0⟩ ∧
        SameSpace G i s.blk s'.blk
      else s' = s ∧ (G.din s.blk i).type ≠ 0 := by
  refine Ends.atomic ?_
  rw [St.ialloc]
  by_cases hfree : (G.din s.blk i).type = 0
  · rw [if_pos hfree]
    cases hw : s.log.write (G.IBLOCK i) with
    | blocked => exact hstop.wait
    | panic m =>
      refine hstop.panic m ?_
      rintro ⟨h1, h2⟩
      rcases Log.write_eq_panic hw with ⟨rfl, -⟩ | ⟨rfl, -⟩
      · exact h1 rfl
      · exact h2 rfl
    | ok r =>
      obtain ⟨new, l⟩ := r
      obtain ⟨hfs, hothers, hdin⟩ := hc.fs.ialloc hi hfree type
      have hwithin := Log.Within.of_write hw
      have hlog : LogIn (K ∪ {G.IBLOCK i}) (n + 0) l :=
        hc.log.within (Y := ∅) (by rwa [Finset.union_empty]) le_rfl
      have hc' : Holding B G t base own L (K ∪ {G.IBLOCK i}) n { s with
          blk := G.putDin s.blk i { Dinode.zero with type := type }
          log := l } := by
        refine hc.store hfs hothers (fun j hj hv heq => ?_) hlog hB rfl
        rw [← heq] at hfree
        rcases hv with hv | hv
        · obtain ⟨hd, ht⟩ := hc.copy j hj hv
          rw [hd] at ht
          exact ht hfree
        · exact hc.alloc j hv hfree
      refine ⟨hc'.toFits, ?_⟩
      rw [if_pos rfl]
      refine ⟨hfree, hc', ⟨?_, fun _ _ => rfl⟩, rfl, ?_, hothers, fun b hb =>
        Geometry.bit_putDin hi _ hb⟩
      · rw [← hwithin.fields]
      · rw [hothers.tree hi, hdin, node]
        congr 2
        split
        · rfl
        · exact funext (content_of_addrs_zero fun _ => rfl)
  · rw [if_neg hfree]
    exact ⟨hc.toFits, rfl, hfree⟩

/-- An inode is free, other than the inode 0. -/
def FreeInode (G : Geometry) (d : Disk) : Prop :=
  ∃ i, 0 < i ∧ i < G.ninodes ∧ (G.din d i).type = 0

lemma ialloc_ends (hc : Holding B G t base own L K n s)
    (hown : ∀ j, 0 < own j → (G.din s.blk (s.itable j).inum).type ≠ 0) (type : Int16)
    (hB : ∀ i, B (K ∪ {G.IBLOCK i}) n) (hstop : LogStops stop)
    (hfull : stop (some .igetNoInodes)) :
    Ends (Fits B) stop (ialloc G type) s fun r s' =>
      match r with
      | none => s' = s ∧ ¬ FreeInode G s.blk
      | some k => base k + own k = 0 ∧ FreeInode G s.blk ∧
        SameSpace G (s'.itable k).inum s.blk s'.blk ∧
        Holding B G t base (own + one k) L (K ∪ {G.IBLOCK (s'.itable k).inum}) n s' ∧
        Frame (base + own) s s' ∧ tree G s.blk (s'.itable k).inum = .blank ∧
        tree G s'.blk = setAt (tree G s.blk) (s'.itable k).inum ⟨type, 0, 0, fun _ => 0⟩ := by
  refine Ends.iterateMeasure (fun i s' => s' = s ∧ 0 < i ∧
    ∀ j, 0 < j → j < i → (G.din s.blk j).type ≠ 0) (fun i => G.ninodes - i) ?_
    ⟨rfl, Nat.one_pos, fun j h1 h2 => by omega⟩
  rintro i s ⟨rfl, hpos, hused⟩
  split
  · rename_i hlt
    refine (markInode_ends hc hlt type (hB i) hstop).seq ?_
    rintro (_ | _) s1 h1
    · refine .ret ⟨⟨h1.1, Nat.succ_pos i, fun j hj hji => ?_⟩, by omega⟩
      rcases (Nat.lt_succ_iff.1 hji).eq_or_lt with rfl | hlt
      · exact h1.2
      · exact hused j hj hlt
    · rw [if_pos rfl] at h1
      obtain ⟨hfree, hc1, hf1, htab1, htree1, hspace⟩ := h1
      refine (iget_ends hc1 hlt fun _ => hfull).seq ?_
      rintro k s2 ⟨hc2, hf2, hb2, hi2, hold⟩
      have hzero : base k + own k = 0 := by
        by_contra hpos
        have hinum := hold (by omega)
        rw [htab1] at hinum
        rw [← hinum] at hfree
        by_cases hbase : 0 < base k
        · exact hc.alloc k hbase hfree
        · exact hown k (by omega) hfree
      refine .ret ⟨hzero, ⟨i, hpos, hlt, hfree⟩, ?_, ?_, hf1.trans hf2, ?_, ?_⟩
      · rwa [hi2, hb2]
      · rwa [hi2]
      · rw [hi2]
        exact hc.fs.tree_of_free hlt hfree
      · rw [hb2, htree1, hi2]
  · refine .ret ⟨rfl, ?_⟩
    rintro ⟨j, hj, hlt, hfree⟩
    exact hused j hj (by omega) hfree

/-! ## Freeing -/

lemma ifree_ends (hc : Holding B G t base own L K n s) (hk : k ∈ L) (hbase : base k = 0)
    (hnlink : (G.din s.blk (s.itable k).inum).nlink = 0) (hbit : G.bitmap ⊆ K)
    (hK : G.IBLOCK (s.itable k).inum ∈ K) (hstop : LogStops stop) :
    Ends (Fits B) stop (.update (St.ifree G k)) s fun _ s' =>
      Holding B G t base own (L.erase k) K n s' ∧ Frame (base + own) s s' ∧
      (∀ j, (s'.itable j).inum = (s.itable j).inum) ∧
      tree G s'.blk = setAt (tree G s.blk) (s.itable k).inum .blank := by
  obtain ⟨hpos, hvalid⟩ := hc.locked k hk
  have hheld := hc.held hk
  have hsub : G.bitmap ∪ {G.IBLOCK (s.itable k).inum} ⊆ K :=
    Finset.union_subset hbit (Finset.singleton_subset_iff.2 hK)
  have hfree := hheld.free (by rw [← hc.d_eq hk] at hnlink; exact hnlink)
  refine Ends.update ?_
  unfold Wp at hfree
  rw [St.ifree, St.onInode]
  generalize (do
    Sec.itrunc G (s.itable k).inum
    modify fun c => { c with ip := { c.ip with type := 0 } }
    Sec.iupdate G (s.itable k).inum : Sec Unit) ⟨s.blk, s.log, (s.itable k).d⟩ = out at hfree ⊢
  cases out with
  | blocked => exact hstop.wait
  | panic m => exact hstop.panic m hfree
  | ok r =>
    obtain ⟨u, c'⟩ := r
    obtain ⟨hfs, hothers, hblank, hlog⟩ := hfree
    have hlog' : LogIn (K ∪ K) (n + 0) c'.log :=
      hc.log.within (Y := ∅) (by rw [Finset.union_empty]; exact hlog.mono hsub) le_rfl
    rw [Finset.union_self] at hlog'
    simp only [Outcome.ok_bind, Outcome.pure_eq]
    generalize hs' : (St.setInode _ k _ : St N) = s'
    have hblk : s'.blk = c'.blk := by rw [← hs']; rfl
    have htab : s'.itable = setAt s.itable k { s.itable k with
        d := c'.ip, valid := false, lock := none, freeing := false } := by
      rw [← hs']
      exact (setAt_setAt ..).trans (by rw [setAt_self])
    have hne : ∀ j, j ≠ k → 0 < base j + own j → (s.itable j).inum ≠ (s.itable k).inum :=
      fun j hjk hj heq => hjk (hc.inj j k hj hpos heq)
    have hc' : Holding B G t base own (L.erase k) K n s' := by
      refine hc.replace (x := { s.itable k with
          d := c'.ip, valid := false, lock := none, freeing := false }) (hc.ref_eq k)
        (fun _ _ => rfl) ?_ (fun j hj => ?_) (fun h => ?_) (fun _ => hne) (fun _ => hc.lt k hpos)
        (hblk ▸ hfs) (hblk ▸ hothers) (fun j hjk hj _ => hne j hjk hj)
        (by rw [← hs']; exact hlog') hc.fits htab (by rintro _ ⟨⟩) fun h => ?_
      · rw [if_neg (Finset.notMem_erase k L)]
      · rw [Finset.mem_erase]
        exact and_iff_right hj
      · exact absurd h (Finset.notMem_erase k L)
      · omega
    have hinum : ∀ j, (s'.itable j).inum = (s.itable j).inum := by
      rw [htab]
      exact map_setAt Inode.inum (by rfl)
    refine ⟨hc'.toFits, hc', ⟨?_, fun j _ => hinum j⟩, hinum, ?_⟩
    · rw [← hs', hlog.fields]
      rfl
    · rw [hblk, hothers.tree (hc.lt k hpos), hblank]

lemma iput_ends (hc : Holding B G t base (own + one k) L K n s) (hL : k ∈ L → 0 < base k + own k)
    (hbit : G.bitmap ⊆ K) (hK : G.IBLOCK (s.itable k).inum ∈ K) (hstop : LogStops stop) :
    Ends (Fits B) stop (iput G t k) s fun _ s' => Holding B G t base own L K n s' ∧
      Frame (base + own) s s' ∧ (∀ j, (s'.itable j).inum = (s.itable j).inum) ∧
      (s'.blk = s.blk ∧ ((s.itable k).valid = true →
          (G.din s.blk (s.itable k).inum).nlink = 0 → 0 < base k + own k) ∨
        tree G s'.blk = setAt (tree G s.blk) (s.itable k).inum .blank) := by
  by_cases hkeep : (s.itable k).valid = true → (G.din s.blk (s.itable k).inum).nlink = 0 →
      0 < base k + own k
  · refine (iput_kept hc hL hkeep).mono ?_
    rintro _ s' ⟨hc', hf', hb', hj'⟩
    exact ⟨hc', hf', fun j => (hj' j).1, Or.inl ⟨hb', hkeep⟩⟩
  · push Not at hkeep
    obtain ⟨hv, hnlink, hzero⟩ := hkeep
    have hkL : k ∉ L := fun h => absurd (hL h) (by omega)
    have hown := add_one_self own k
    have hpos : 0 < base k + (own + one k) k := by omega
    have href : (s.itable k).ref = 1 := by
      rw [hc.ref_eq]
      omega
    have hlock : (s.itable k).lock = none := by rw [hc.lock_eq, if_neg hkL]
    have hd := (hc.copy k hpos hv).1
    have hfirst : St.iputFirst t k s =
        .ok (true, s.setInode k { s.itable k with lock := some t, freeing := true }) := by
      rw [St.iputFirst]
      rw [if_pos ⟨href, hv, by rw [hd]; exact hnlink⟩, if_pos hlock]
    have hin : k ∈ insert k L := Finset.mem_insert_self k L
    have hc1 : Holding B G t base (own + one k) (insert k L) K n
        (s.setInode k { s.itable k with lock := some t, freeing := true }) := by
      refine hc.touch (hc.ref_eq k) (fun _ _ => rfl) (if_pos hin).symm (fun j hj => ?_)
        (fun _ => ⟨hpos, hv⟩) hpos rfl fun _ hv => hc.copy k hpos hv
      rw [Finset.mem_insert]
      exact or_iff_right hj
    rw [iput]
    refine Ends.seq (P := fun b s' => b = true ∧
      s' = s.setInode k { s.itable k with lock := some t, freeing := true }) (Ends.atomic ?_) ?_
    · rw [hfirst]
      exact ⟨hc1.toFits, rfl, rfl⟩
    rintro _ s1 ⟨rfl, hs1⟩
    have hb1 : s1.blk = s.blk := by rw [hs1]; rfl
    have hf1 : Frame (base + (own + one k)) s s1 := by
      rw [hs1]
      exact Frame.setInode fun _ => rfl
    have hi1 : ∀ j, (s1.itable j).inum = (s.itable j).inum := by
      rw [hs1]
      exact map_setAt Inode.inum (by rfl)
    rw [← hs1] at hc1
    refine (ifree_ends hc1 hin (by omega) (by rw [hb1, hi1]; exact hnlink) hbit
      (by rw [hi1]; exact hK) hstop).seq ?_
    rintro _ s2 ⟨hc2, hf2, hi2, htree2⟩
    rw [Finset.erase_insert hkL] at hc2
    have hc3 : Holding B G t base own L K n (St.iputLast k s2) := hc2.decr fun h => absurd h hkL
    have hi3 : ∀ j, ((St.iputLast k s2).itable j).inum = (s2.itable j).inum :=
      map_setAt Inode.inum (by rfl)
    refine Ends.modify hc3.toFits ⟨hc3, ?_, fun j => ?_, Or.inr ?_⟩
    · refine ((hf1.trans hf2).mono fun j => ?_).trans (Frame.setInode fun _ => rfl)
      simp only [Pi.add_apply]
      omega
    · rw [hi3, hi2, hi1]
    · show tree G s2.blk = _
      rw [htree2, hb1, hi1]

lemma iunlockput_ends (hc : Holding B G t base (own + one k) L K n s) (hk : k ∈ L)
    (hbit : G.bitmap ⊆ K) (hK : G.IBLOCK (s.itable k).inum ∈ K) (hstop : LogStops stop) :
    Ends (Fits B) stop (iunlockput G t k) s fun _ s' =>
      Holding B G t base own (L.erase k) K n s' ∧ Frame (base + own) s s' ∧
      (∀ j, (s'.itable j).inum = (s.itable j).inum) ∧
      (s'.blk = s.blk ∧
          ((G.din s.blk (s.itable k).inum).nlink = 0 → 0 < base k + own k) ∨
        tree G s'.blk = setAt (tree G s.blk) (s.itable k).inum .blank) := by
  have hv := (hc.locked k hk).2
  rw [iunlockput]
  refine (iunlock_ends hc hk).seq ?_
  rintro _ s1 ⟨hc1, hf1, hb1, hj1⟩
  refine (iput_ends hc1 (fun h => absurd h (Finset.notMem_erase k L)) hbit
    (by rw [(hj1 k).1]; exact hK) hstop).mono ?_
  rintro _ s2 ⟨hc2, hf2, hj2, hcase⟩
  rw [hb1, (hj1 k).1, (hj1 k).2] at hcase
  refine ⟨hc2, (hf1.mono fun j => ?_).trans hf2, fun j => (hj2 j).trans (hj1 j).1, ?_⟩
  · simp only [Pi.add_apply]
    omega
  · exact hcase.imp (fun h => ⟨h.1, h.2 hv⟩) id

/-! ## Anchored inodes and `dirlink` -/

lemma anchored_iff_tree : Anchored G base s ↔ ∀ i, (tree G s.blk i).type ≠ 0 →
    (tree G s.blk i).nlink = 0 → ∃ k, 0 < base k ∧ (s.itable k).inum = i := by
  constructor
  · intro h i htype hnlink
    by_cases hi : i < G.ninodes
    · rw [tree_of_lt hi] at htype hnlink
      exact h i hi htype hnlink
    · rw [tree, if_neg hi] at htype
      exact absurd rfl htype
  · intro h i hi htype hnlink
    refine h i ?_ ?_
    · rw [tree_of_lt hi]
      exact htype
    · rw [tree_of_lt hi]
      exact hnlink

section

variable (h : Anchored G base s) (hf : Frame base s s')

include h hf

lemma Anchored.of_tree_eq (htree : tree G s'.blk = tree G s.blk) : Anchored G base s' := by
  rw [anchored_iff_tree] at h ⊢
  intro i htype hnlink
  rw [htree] at htype hnlink
  obtain ⟨k, hk, hinum⟩ := h i htype hnlink
  exact ⟨k, hk, (hf.inum k hk).trans hinum⟩

lemma Anchored.of_setAt {i : ℕ} {x : Node} (htree : tree G s'.blk = setAt (tree G s.blk) i x)
    (hx : x.type ≠ 0 → x.nlink = 0 → ∃ k, 0 < base k ∧ (s.itable k).inum = i) :
    Anchored G base s' := by
  rw [anchored_iff_tree] at h ⊢
  intro j htype hnlink
  have hj : ∃ k, 0 < base k ∧ (s.itable k).inum = j := by
    rw [htree] at htype hnlink
    by_cases hji : j = i
    · subst hji
      rw [setAt_self] at htype hnlink
      exact hx htype hnlink
    · rw [setAt_of_ne _ _ hji] at htype hnlink
      exact h j htype hnlink
  obtain ⟨k, hk, hinum⟩ := hj
  exact ⟨k, hk, (hf.inum k hk).trans hinum⟩

lemma Anchored.of_same {i : ℕ} {x : Node}
    (htree : tree G s'.blk = setAt (tree G s.blk) i x) (htype : x.type = (tree G s.blk i).type)
    (hnlink : x.nlink = (tree G s.blk i).nlink) : Anchored G base s' := by
  refine h.of_setAt hf htree fun h0 hn => ?_
  rw [htype] at h0
  rw [hnlink] at hn
  exact anchored_iff_tree.1 h i h0 hn

end

lemma dirlink_ends (hc : Holding B G t base own L K n s) (hanchor : Anchored G base s)
    (hk : k ∈ L) (hdir : (G.din s.blk (s.itable k).inum).type = T_DIR) (name : Name) {i : ℕ}
    (hi : i < G.ninodes) (hbit : G.bitmap ⊆ K) (hK : G.IBLOCK (s.itable k).inum ∈ K)
    (hB : B K (n + 2)) (hstop : LogStops stop) (hfull : stop (some .igetNoInodes)) :
    Ends (Fits B) stop (dirlink G t k name i) s fun r s' =>
      Holding B G t base own L K (n + 2) s' ∧ Frame (base + own) s s' ∧
      (r = false → tree G s'.blk = tree G s.blk) ∧
      (findEntry s.blk (G.din s.blk (s.itable k).inum) name = none →
        (r = true ↔ HasRoom G s.blk (s.itable k).inum)) ∧
      Rewrites G (s.itable k).inum s.blk s'.blk := by
  have hpos := (hc.locked k hk).1
  rw [dirlink]
  refine (dirlookup_ends hc hk hdir (fun _ => hfull) name).seq ?_
  rintro (_ | ⟨k', off⟩) s1 h1
  · obtain ⟨-, rfl⟩ := h1
    refine (inumOf_ends hc).seq ?_
    rintro _ s1 ⟨rfl, rfl⟩
    refine (dirlinkEntry_ends hc hk hdir name hi hbit hK hB hstop).mono ?_
    rintro r s' ⟨hc', hf', -, hsame, hiff, hx⟩
    exact ⟨hc', hf', hsame, fun _ => hiff, hx⟩
  · -- the name is there: its inode is put back
    obtain ⟨j, hfind, hc1, hf1, hb1, -, -⟩ := h1
    have hpos1 : 0 < base k' + (own + one k') k' := by
      rw [add_one_self]
      omega
    refine (iput_kept hc1 (fun h => (hc.locked k' h).1) fun hv hn => ?_).seq ?_
    · have := (hanchor.frame hf1.left hb1).keep hc1 hpos1 hv hn
      omega
    · rintro _ s2 ⟨hc2, hf2, hb2, -⟩
      have hblk := hb2.trans hb1
      refine .ret ⟨hc2.mono subset_rfl (by omega) hB, hf1.trans hf2, fun _ => by rw [hblk], ?_, _,
        ?_, rfl, rfl⟩
      · intro hnone
        rw [hnone] at hfind
        cases hfind
      · rw [hblk, setAt_eq_self]

end Xv6.Fs
