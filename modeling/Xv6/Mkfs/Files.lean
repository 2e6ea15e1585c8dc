import Xv6.Mkfs.Append

/-!
# The files of an image under construction

`Rep` says that the image of a state holds a list of files: the file at position `k` is inode
`k + 1`, it has exactly the blocks its length takes (`blocks`), and its contents are the file's
bytes followed by zeros to the end of the last block.  `ialloc` adds an empty file and `iappend`
appends bytes to one; `iappend` ends exactly when the files then fit (`Fits`).
-/

namespace Xv6.Mkfs

open Concur Concur.Bytes Fs

/-- A file of the image. -/
structure FileData where
  type : Int16
  data : List UInt8

/-- The file with bytes appended. -/
def FileData.append (f : FileData) (p : List UInt8) : FileData := { f with data := f.data ++ p }

/-- The number of blocks that a file of `n` bytes takes, its indirect block included. -/
def blocks (n : ℕ) : ℕ := (n + BSIZE - 1) / BSIZE + if NDIRECT * BSIZE < n then 1 else 0

/-- The number of blocks in use when the image holds the files. -/
def usedBlocks (fs : List FileData) : ℕ := nmeta + (fs.map fun f => blocks f.data.length).sum

/-- The image has room for the files. -/
structure Fits (fs : List FileData) : Prop where
  size_le : ∀ f ∈ fs, f.data.length ≤ MAXFILE * BSIZE
  used_le : usedBlocks fs ≤ FSSIZE

/-- The inode `x` holds the file `f`; its size is not looked at. -/
structure FileOk (d : Disk) (x : Dinode) (f : FileData) : Prop where
  type : x.type = f.type
  alive : f.type ≠ 0
  block : ∀ n, blockAt d x n ≠ 0 ↔ n * BSIZE < f.data.length
  indirect : ref d x .indirect ≠ 0 ↔ NDIRECT * BSIZE < f.data.length
  content : ∀ o, content d x o = f.data.getD o 0

/-- The image of the state, with the inodes `ino`, holds the files. -/
structure Rep (s : Img) (ino : ℕ → Dinode) (fs : List FileData) : Prop where
  tidy : s.Tidy
  freeinode : s.freeinode = fs.length + 1
  count : fs.length < NINODES
  freeblock : s.freeblock = usedBlocks fs
  fits : Fits fs
  owned : Ledger sb.nmeta sb.size (refs sb s.image ino) ∅ (sb.bit s.image)
  file : ∀ k (hk : k < fs.length), FileOk s.image (ino (k + 1)) fs[k]
  unused : ∀ i, i < NINODES → i = 0 ∨ fs.length < i → (ino i).type = 0

/-! ## Room -/

section Room

lemma blocks_zero : blocks 0 = 0 := by decide

lemma blocks_mono {m n : ℕ} (h : m ≤ n) : blocks m ≤ blocks n := by
  unfold blocks
  rw [BSIZE_eq, NDIRECT_eq]
  split_ifs <;> omega

lemma usedBlocks_append (fs gs : List FileData) :
    usedBlocks (fs ++ gs) = usedBlocks fs + (gs.map fun f => blocks f.data.length).sum := by
  rw [usedBlocks, usedBlocks, List.map_append, List.sum_append, Nat.add_assoc]

lemma usedBlocks_set (fs : List FileData) {k : ℕ} (hk : k < fs.length) (f : FileData) :
    usedBlocks (fs.set k f) + blocks fs[k].data.length =
      usedBlocks fs + blocks f.data.length := by
  have hsum : ∀ (l : List FileData) (j : ℕ) (hj : j < l.length),
      ((l.set j f).map fun f => blocks f.data.length).sum + blocks l[j].data.length =
        (l.map fun f => blocks f.data.length).sum + blocks f.data.length := by
    intro l
    induction l with
    | nil => intro j hj; cases hj
    | cons a l ih =>
      intro j hj
      cases j with
      | zero =>
        simp only [List.set_cons_zero, List.map_cons, List.sum_cons, List.getElem_cons_zero]
        omega
      | succ j =>
        have hrest := ih j (Nat.lt_of_succ_lt_succ hj)
        simp only [List.set_cons_succ, List.map_cons, List.sum_cons, List.getElem_cons_succ]
        omega
  have h := hsum fs k hk
  unfold usedBlocks
  omega

lemma Fits.set_mono {fs : List FileData} {k : ℕ} (hk : k < fs.length) {f g : FileData}
    (h : Fits (fs.set k g)) (hle : f.data.length ≤ g.data.length) : Fits (fs.set k f) := by
  refine ⟨fun f' hf' => ?_, ?_⟩
  · rcases List.mem_or_eq_of_mem_set hf' with hmem | rfl
    · obtain ⟨j, hj, rfl⟩ := List.mem_iff_getElem.1 hf'
      by_cases hjk : k = j
      · subst hjk
        rw [List.getElem_set_self]
        exact hle.trans (h.size_le g (List.mem_set hk g))
      · refine h.size_le _ (List.mem_iff_getElem.2 ⟨j, by simpa using hj, ?_⟩)
        rw [List.getElem_set_ne hjk, List.getElem_set_ne hjk]
    · exact hle.trans (h.size_le g (List.mem_set hk g))
  · have h1 := usedBlocks_set fs hk f
    have h2 := usedBlocks_set fs hk g
    have h3 := blocks_mono hle
    have h4 := h.used_le
    omega

lemma Fits.of_append {fs gs : List FileData} (h : Fits (fs ++ gs)) : Fits fs := by
  refine ⟨fun f hf => h.size_le f (List.mem_append_left _ hf), ?_⟩
  have hle := h.used_le
  rw [usedBlocks_append] at hle
  omega

lemma blocks_add {d : Disk} {x : Dinode} {f : FileData} (h : FileOk d x f) {m : ℕ} (hm : 0 < m)
    (hend : f.data.length % BSIZE + m ≤ BSIZE) :
    blocks (f.data.length + m) = blocks f.data.length + need d x (f.data.length / BSIZE) := by
  have hblock := h.block (f.data.length / BSIZE)
  have hind := h.indirect
  have hzero : blockAt d x (f.data.length / BSIZE) = 0 ↔
      f.data.length ≤ f.data.length / BSIZE * BSIZE := by
    rw [← not_iff_not, ← Ne, hblock, not_le]
  have hzero' : ref d x .indirect = 0 ↔ f.data.length ≤ NDIRECT * BSIZE := by
    rw [← not_iff_not, ← Ne, hind, not_le]
  rw [need_eq]
  unfold blocks
  simp only [hzero, hzero']
  generalize f.data.length = n at *
  rw [BSIZE_eq] at hend
  rw [BSIZE_eq, NDIRECT_eq]
  split_ifs <;> omega

end Room

/-! ## Appending to one file -/

section Append

variable {s : Img} {x : Dinode} {fs : List FileData} {k : ℕ}

lemma Rep.working (h : Rep s ((s.ctx x).ino sb (k + 1)) fs) (hk : k < fs.length) :
    Working sb (k + 1) ∅ (s.ctx x) ∧ FileOk s.image x fs[k] := by
  have hfile := h.file k hk
  rw [Ictx.ino, setAt_self, ctx_ip] at hfile
  have hcount := h.count
  refine ⟨⟨?_, ?_, h.owned⟩, hfile⟩
  · rw [sb_ninodes]
    omega
  · rw [ctx_ip, hfile.type]
    exact hfile.alive

lemma FileOk.of_others {inum j : ℕ} {d d' : Disk} {f : FileData} (h : FileOk d (sb.din d j) f)
    (ho : Others sb inum d d') (hj : j < NINODES) (hne : j ≠ inum) :
    FileOk d' (sb.din d' j) f := by
  have htype : (sb.din d j).type ≠ 0 := by
    rw [h.type]
    exact h.alive
  refine ⟨?_, h.alive, fun n => ?_, ?_, fun o => ?_⟩
  · rw [ho.din j hj hne]
    exact h.type
  · rw [ho.blockAt_eq hj hne htype]
    exact h.block n
  · rw [ho.ref_eq hj hne htype]
    exact h.indirect
  · rw [ho.content_eq hj hne htype]
    exact h.content o

lemma Rep.update (h : Rep s ((s.ctx x).ino sb (k + 1)) fs) (hk : k < fs.length) (s' : Img)
    (x' : Dinode) {f : FileData} (hw : Working sb (k + 1) ∅ (s'.ctx x'))
    (ho : Others sb (k + 1) s.image s'.image) (htidy : s'.Tidy)
    (hinode : s'.freeinode = s.freeinode) (hblock : s'.freeblock = usedBlocks (fs.set k f))
    (hfits : Fits (fs.set k f)) (hfile : FileOk s'.image x' f) :
    Rep s' ((s'.ctx x').ino sb (k + 1)) (fs.set k f) := by
  have hcount := h.count
  have hino : ∀ (t : Img) (y : Dinode) {i : ℕ}, i ≠ k + 1 →
      (t.ctx y).ino sb (k + 1) i = sb.din t.image i :=
    fun _ _ _ hne => setAt_of_ne _ _ hne
  refine ⟨htidy, ?_, by simpa using hcount, hblock, hfits, hw.owned, fun j hj => ?_,
    fun i hi hfree => ?_⟩
  · rw [hinode, h.freeinode, List.length_set]
  · rw [List.length_set] at hj
    by_cases hjk : j = k
    · subst hjk
      rw [List.getElem_set_self, Ictx.ino, setAt_self]
      exact hfile
    · have hne : j + 1 ≠ k + 1 := fun heq => hjk (Nat.succ.inj heq)
      have hold := h.file j hj
      rw [hino _ _ hne] at hold
      rw [List.getElem_set_ne (Ne.symm hjk), hino _ _ hne]
      exact hold.of_others ho (by omega) hne
  · rw [List.length_set] at hfree
    have hne : i ≠ k + 1 := by omega
    have hold := h.unused i hi hfree
    rw [hino _ _ hne] at hold
    rw [hino _ _ hne, ho.din i hi hne]
    exact hold

lemma FileOk.append {inum : ℕ} {f : FileData} (h : FileOk s.image x f) {s1 : Img} {x1 : Dinode}
    {b : ℕ} (hfound : Found inum (f.data.length / BSIZE) s x b s1 x1) {p : List UInt8}
    (hp : p ≠ []) (hend : f.data.length % BSIZE + p.length ≤ BSIZE) :
    FileOk (setAt s1.image b ((s1.image b).splice (f.data.length % BSIZE) p.length
      fun i => p.getD i 0)) x1 (f.append p) := by
  have hkept := hfound.grew.kept
  have hw := hkept.working
  obtain rfl := hfound.block
  have hlen : 0 < p.length := List.length_pos_iff.2 hp
  have hwrite := write_block hw hfound.ne_zero
    ((s1.image (blockAt s1.image x1 (f.data.length / BSIZE))).splice (f.data.length % BSIZE)
      p.length fun i => p.getD i 0) (Log.init sb.nlog)
  have hfields : x1 = { x with addrs := x1.addrs } := hkept.fields
  have hlength : (f.append p).data.length = f.data.length + p.length := List.length_append
  refine ⟨?_, h.alive, fun n => ?_, ?_, fun o => ?_⟩
  · rw [hfields]
    exact h.type
  · rw [hlength]
    refine (iff_of_eq (congrArg (· ≠ 0) (hwrite.2.1 n))).trans ?_
    by_cases hn : n = f.data.length / BSIZE
    · subst hn
      refine iff_of_true hfound.ne_zero ?_
      have := Nat.div_mul_le_self f.data.length BSIZE
      omega
    · rw [ctx_blk, ctx_ip, hfound.other n hn, h.block n]
      generalize f.data.length = m at *
      rw [BSIZE_eq] at *
      omega
  · rw [hlength]
    refine (hfound.indirect).trans ?_
    rw [h.indirect]
    generalize f.data.length = m at *
    rw [BSIZE_eq, NDIRECT_eq] at *
    omega
  · refine (content_splice hw _ hend hfound.ne_zero (fun i => p.getD i 0) o).trans ?_
    rw [hkept.content_eq]
    change _ = (f.data ++ p).getD o 0
    by_cases ho : o < f.data.length
    · rw [if_neg (by omega), List.getD_append _ _ _ _ ho]
      exact h.content o
    · rw [List.getD_append_right _ _ _ _ (not_lt.1 ho)]
      by_cases hin : o < f.data.length + p.length
      · rw [if_pos ⟨not_lt.1 ho, hin⟩]
      · rw [if_neg fun h => hin h.2, List.getD_eq_default _ _ (by omega)]
        exact (h.content o).trans (List.getD_eq_default _ _ (not_lt.1 ho))

lemma appendBlock_spec (h : Rep s ((s.ctx x).ino sb (k + 1)) fs) (hk : k < fs.length)
    {p : List UInt8} (hp : p ≠ []) (hend : fs[k].data.length % BSIZE + p.length ≤ BSIZE) :
    Runs (Fits (fs.set k (fs[k].append p))) (appendBlock x fs[k].data.length p)
      (fun x' s' => Rep s' ((s'.ctx x').ino sb (k + 1)) (fs.set k (fs[k].append p)) ∧
        Others sb (k + 1) s.image s'.image ∧ x' = { x with addrs := x'.addrs }) s := by
  obtain ⟨hw, hfile⟩ := h.working hk
  have hlen : 0 < p.length := List.length_pos_iff.2 hp
  have hlength : (fs[k].append p).data.length = fs[k].data.length + p.length := List.length_append
  have hset := usedBlocks_set fs hk (fs[k].append p)
  rw [hlength, blocks_add hfile hlen hend] at hset
  have hused := h.freeblock
  have hfits := h.fits
  have hmax : Fits (fs.set k (fs[k].append p)) → fs[k].data.length / BSIZE < MAXFILE := by
    intro hf
    have hle := hf.size_le _ (List.mem_set hk _)
    rw [hlength] at hle
    rw [BSIZE_eq, MAXFILE_eq] at *
    omega
  have hoff : fs[k].data.length - fs[k].data.length / BSIZE * BSIZE =
      fs[k].data.length % BSIZE := by
    have := Nat.div_add_mod' fs[k].data.length BSIZE
    omega
  rw [appendBlock]
  refine Runs.assert_bind hmax fun hlt => ?_
  by_cases hroom : s.freeblock + need s.image x (fs[k].data.length / BSIZE) ≤ FSSIZE
  · obtain ⟨b, x1, s1, hrun, hfound⟩ := blockFor_spec h.tidy hw hlt hroom
    have hw1 := hfound.grew.kept.working
    obtain ⟨q, -, -, hq⟩ := blockAt_eq_ref (hfound.block.symm ▸ hfound.ne_zero)
    rw [hfound.block] at hq
    have hne : ref s1.image x1 q ≠ 0 := hq ▸ hfound.ne_zero
    have hrange := ref_range hw1 hne
    have hb := ref_lt_freeblock hw1 hne
    rw [hq] at hrange hb
    have hlen1 := hfound.grew.tidy.len
    refine Runs.seq hrun (Runs.seq (rsect_eq hrange.2 hlen1)
      (Runs.seq (wsect_eq hrange.2 hlen1 _) ?_))
    have himage := image_put (s := s1) ((s1.disk b).splice (fs[k].data.length % BSIZE) p.length
      fun i => p.getD i 0) (ne_bmapstart hrange.1)
    have hdisk : s1.disk b = s1.image b := (image_of_data hrange.1).symm
    have hnew := hfile.append hfound hp hend
    have hwrite := write_block (n := fs[k].data.length / BSIZE) hw1
      (by rw [ctx_blk, ctx_ip, hfound.block]; exact hfound.ne_zero)
      ((s1.image b).splice (fs[k].data.length % BSIZE) p.length fun i => p.getD i 0)
      (Log.init sb.nlog)
    rw [ctx_blk, ctx_ip, hfound.block] at hwrite
    rw [hdisk] at himage
    have hctx : ((s1.put b ((s1.image b).splice (fs[k].data.length % BSIZE) p.length
        fun i => p.getD i 0)).ctx x1) =
        ⟨setAt s1.image b ((s1.image b).splice (fs[k].data.length % BSIZE) p.length
          fun i => p.getD i 0), Log.init sb.nlog, x1⟩ := by
      rw [Img.ctx, himage]
    have hfit : Fits (fs.set k (fs[k].append p)) := by
      refine ⟨fun f hf => ?_, by omega⟩
      rcases List.mem_or_eq_of_mem_set hf with hmem | rfl
      · exact hfits.size_le f hmem
      · rw [hlength]
        rw [BSIZE_eq, MAXFILE_eq] at *
        omega
    simp only [hoff, hdisk]
    refine (Runs.pure ⟨h.update hk _ _ ?_ ?_ (hfound.grew.tidy.put hb _) hfound.grew.freeinode ?_
      hfit ?_, ?_, hfound.grew.kept.fields⟩).of_iff (iff_true_intro hfit)
    · rw [hctx]
      exact hwrite.1.working
    · rw [himage]
      exact hfound.grew.kept.others.trans hwrite.1.others
    · rw [Img.put_freeblock, hfound.freeblock]
      omega
    · rw [himage]
      exact hnew
    · rw [himage]
      exact hfound.grew.kept.others.trans hwrite.1.others
  · have hnot : ¬ Fits (fs.set k (fs[k].append p)) := by
      intro hf
      have := hf.used_le
      omega
    refine ⟨fun hf => absurd hf hnot, fun _ => ?_⟩
    rcases blockFor_full h.tidy hw hlt (by have := hfits.used_le; omega) (not_le.1 hroom) with
      hnone | ⟨x1, s1, hrun, hlen1⟩
    · exact Runs.bind_none hnone
    · change (blockFor x (fs[k].data.length / BSIZE) s).bind _ = _
      rw [hrun]
      exact Runs.bind_none (rsect_end hlen1)

lemma append_nil (f : FileData) : f.append [] = f := by
  rw [FileData.append, List.append_nil]

lemma append_append (f : FileData) (p q : List UInt8) :
    (f.append p).append q = f.append (p ++ q) := by
  simp only [FileData.append, List.append_assoc]

lemma appendFrom_spec (fuel : ℕ) {s : Img} {x : Dinode} {fs : List FileData} {p : List UInt8}
    (hfuel : p.length ≤ fuel) (h : Rep s ((s.ctx x).ino sb (k + 1)) fs) (hk : k < fs.length) :
    Runs (Fits (fs.set k (fs[k].append p))) (appendFrom fuel x fs[k].data.length p)
      (fun r s' => r.2 = fs[k].data.length + p.length ∧
        Rep s' ((s'.ctx r.1).ino sb (k + 1)) (fs.set k (fs[k].append p)) ∧
        Others sb (k + 1) s.image s'.image ∧ r.1 = { x with addrs := r.1.addrs }) s := by
  have hnil : p = [] → Runs (Fits (fs.set k (fs[k].append p)))
      (pure (x, fs[k].data.length) : Mk (Dinode × ℕ))
      (fun r s' => r.2 = fs[k].data.length + p.length ∧
        Rep s' ((s'.ctx r.1).ino sb (k + 1)) (fs.set k (fs[k].append p)) ∧
        Others sb (k + 1) s.image s'.image ∧ r.1 = { x with addrs := r.1.addrs }) s := by
    rintro rfl
    rw [append_nil, List.set_getElem_self]
    exact (Runs.pure ⟨rfl, h, .refl _ _ _, rfl⟩).of_iff (iff_true_intro h.fits)
  induction fuel generalizing s x fs p with
  | zero => exact hnil (List.eq_nil_of_length_eq_zero (Nat.le_zero.1 hfuel))
  | succ fuel ih =>
    rw [appendFrom]
    by_cases hp : p = []
    · rw [if_pos hp]
      exact hnil hp
    · rw [if_neg hp]
      have hpos : 0 < p.length := List.length_pos_iff.2 hp
      generalize hn1 : min p.length ((fs[k].data.length / BSIZE + 1) * BSIZE -
        fs[k].data.length) = n1
      have hle : n1 ≤ p.length := by omega
      have hlen : (p.take n1).length = n1 := by
        rw [List.length_take]
        omega
      have hpos1 : 0 < n1 ∧ fs[k].data.length % BSIZE + n1 ≤ BSIZE := by
        rw [BSIZE_eq] at *
        omega
      have hne : p.take n1 ≠ [] := by
        rw [← List.length_pos_iff, hlen]
        exact hpos1.1
      have hshort : Fits (fs.set k (fs[k].append p)) →
          Fits (fs.set k (fs[k].append (p.take n1))) := by
        refine fun hf => hf.set_mono hk ?_
        simp only [FileData.append, List.length_append, hlen]
        omega
      have hall : (fs[k].append (p.take n1)).append (p.drop n1) = fs[k].append p := by
        rw [append_append, List.take_append_drop]
      refine (appendBlock_spec h hk hne (by rw [hlen]; exact hpos1.2)).bind hshort
        fun x1 s1 _ h1 => ?_
      obtain ⟨hrep, ho, hx⟩ := h1
      have hk1 : k < (fs.set k (fs[k].append (p.take n1))).length := by simpa using hk
      have hrest := ih (p := p.drop n1) (by rw [List.length_drop]; omega) hrep hk1 ?_
      · simp only [List.getElem_set_self, List.set_set, hall] at hrest
        have hoff : (fs[k].append (p.take n1)).data.length = fs[k].data.length + n1 := by
          simp only [FileData.append, List.length_append, hlen]
        rw [hoff] at hrest
        refine hrest.mono fun r s' hr => ⟨?_, hr.2.1, ho.trans hr.2.2.1, ?_⟩
        · rw [hr.1, List.length_drop]
          omega
        · rw [hr.2.2.2, hx]
      · intro hnil'
        rw [hnil', append_nil, List.set_getElem_self]
        exact (Runs.pure ⟨rfl, hrep, .refl _ _ _, rfl⟩).of_iff (iff_true_intro hrep.fits)

end Append

/-! ## The state between calls -/

/-- The image holds the files, with their sizes. -/
structure Holds (s : Img) (fs : List FileData) : Prop where
  rep : Rep s (sb.din s.image) fs
  size : ∀ k (hk : k < fs.length), (sb.din s.image (k + 1)).size.toNat = fs[k].data.length

section Calls

variable {s : Img} {fs : List FileData}

/-- The state with an inode written. -/
def Img.putInode (s : Img) (i : ℕ) (x : Dinode) : Img := { s with disk := sb.putDin s.disk i x }

lemma image_putInode {i : ℕ} (hi : i < NINODES) (x : Dinode) :
    (s.putInode i x).image = sb.putDin s.image i x := by
  have hne : sb.IBLOCK i ≠ sb.bmapstart := (Geometry.IBLOCK_lt (G := sb) hi).ne
  rw [Geometry.putDin, image_of_ne hne]
  exact image_put _ hne

lemma Img.Tidy.putInode (h : s.Tidy) {i : ℕ} (hi : i < NINODES) (x : Dinode) :
    (s.putInode i x).Tidy := by
  refine ⟨h.len, h.lo, fun b hb => ?_⟩
  have hb' : s.freeblock ≤ b := hb
  exact (Geometry.putDin_apply hi x (h.lo.trans hb')).trans (h.zero b hb')

lemma toNat_ofNat_length {f : FileData} (hfit : Fits fs) (hf : f ∈ fs) :
    (UInt32.ofNat f.data.length).toNat = f.data.length := by
  have hle := hfit.size_le f hf
  rw [MAXFILE_eq, BSIZE_eq] at hle
  rw [UInt32.toNat_ofNat']
  exact Nat.mod_eq_of_lt (by omega)

lemma Rep.store {k : ℕ} {x y : Dinode} (h : Rep s ((s.ctx x).ino sb (k + 1)) fs)
    (hk : k < fs.length) (haddrs : y.addrs = x.addrs) (htype : y.type = x.type) :
    Rep (s.putInode (k + 1) y) (sb.din (s.putInode (k + 1) y).image) fs ∧
      Others sb (k + 1) s.image (s.putInode (k + 1) y).image := by
  obtain ⟨hw, hfile⟩ := h.working hk
  have hi : k + 1 < NINODES := hw.lt
  have hw' : Working sb (k + 1) ∅ (s.ctx y) := hw.set_ip haddrs (by rw [htype]; exact hw.type_ne)
  obtain ⟨hstored, ho, hdata⟩ := hw'.store (Log.init sb.nlog)
  have hctx : (s.putInode (k + 1) y).ctx y =
      ⟨sb.putDin s.image (k + 1) y, Log.init sb.nlog, y⟩ := by
    rw [Img.ctx, image_putInode hi]
  have hself : sb.din (s.putInode (k + 1) y).image (k + 1) = y := by
    rw [image_putInode hi, Geometry.din_putDin, if_pos rfl]
  obtain ⟨hblock, hcontent⟩ := content_eq_of_data (c := s.ctx x)
    ((s.putInode (k + 1) y).ctx y) hw haddrs (by rw [hctx]; exact hdata)
  have hothers : Others sb (k + 1) s.image (s.putInode (k + 1) y).image := by
    rw [image_putInode hi]
    exact ho
  refine ⟨?_, hothers⟩
  have hrep := h.update hk (s.putInode (k + 1) y) y (f := fs[k])
    (by rw [hctx]; exact hstored) hothers (h.tidy.putInode hi y) rfl
    (by rw [List.set_getElem_self]; exact h.freeblock)
    (by rw [List.set_getElem_self]; exact h.fits) ?_
  · rwa [List.set_getElem_self, Ictx.ino_eq_din (by exact hself.symm)] at hrep
  · refine ⟨htype.trans hfile.type, hfile.alive, fun n => ?_, ?_, fun o => ?_⟩
    · rw [show blockAt (s.putInode (k + 1) y).image y n = _ from hblock n]
      exact hfile.block n
    · have hind : ref (s.putInode (k + 1) y).image y .indirect = ref s.image x .indirect := by
        rw [ref, ref, haddrs]
      rw [hind]
      exact hfile.indirect
    · exact (hcontent o).trans (hfile.content o)

/-- `iappend` ends exactly when the longer file fits, and then has appended the bytes to it and
left the other files. -/
lemma iappend_spec (h : Holds s fs) {k : ℕ} (hk : k < fs.length) (p : List UInt8) :
    Runs (Fits (fs.set k (fs[k].append p))) (iappend (k + 1) p)
      (fun _ s' => Holds s' (fs.set k (fs[k].append p)) ∧
        Others sb (k + 1) s.image s'.image) s := by
  have hi : k + 1 < NINODES := by
    have := h.rep.count
    omega
  have hopen : Rep s ((s.ctx (sb.din s.image (k + 1))).ino sb (k + 1)) fs := by
    rw [Ictx.ino_eq_din (by rfl)]
    exact h.rep
  rw [iappend]
  refine Runs.seq (rinode_eq hi h.rep.tidy.len) ?_
  rw [← din_image hi, h.size k hk]
  refine (appendFrom_spec p.length le_rfl hopen hk).bind id fun r s1 hfit hr => ?_
  obtain ⟨hoff, hrep, ho, hfields⟩ := hr
  have hk1 : k < (fs.set k (fs[k].append p)).length := by simpa using hk
  obtain ⟨hstored, ho'⟩ := hrep.store hk1 (y := { r.1 with size := UInt32.ofNat r.2 }) rfl rfl
  have hrun := winode_eq hi hrep.tidy.len { r.1 with size := UInt32.ofNat r.2 }
  have hlen : r.2 = (fs[k].append p).data.length := by
    rw [hoff]
    exact List.length_append.symm
  refine (Runs.of_eq hrun ⟨⟨hstored, fun j hj => ?_⟩, ho.trans ho'⟩).of_iff (iff_true_intro hfit)
  change (sb.din (s1.putInode (k + 1) { r.1 with size := UInt32.ofNat r.2 }).image
    (j + 1)).size.toNat = _
  by_cases hjk : j = k
  · subst hjk
    rw [image_putInode hi, Geometry.din_putDin, if_pos rfl, List.getElem_set_self, hlen]
    exact toNat_ofNat_length hfit (List.mem_set hk _)
  · have hne : j + 1 ≠ k + 1 := fun heq => hjk (Nat.succ.inj heq)
    have hj' : j < fs.length := by simpa using hj
    have hlt : j + 1 < sb.ninodes := by
      have := h.rep.count
      rw [sb_ninodes]
      omega
    rw [(ho.trans ho').din (j + 1) hlt hne, List.getElem_set_ne (Ne.symm hjk)]
    exact h.size j hj'

lemma FileOk.empty {d : Disk} {x : Dinode} (h : x.addrs = fun _ => 0) (ht : x.type ≠ 0) :
    FileOk d x ⟨x.type, []⟩ := by
  have hblock : ∀ n, blockAt d x n = 0 := by
    intro n
    by_contra hne
    obtain ⟨p, -, -, hp⟩ := blockAt_eq_ref hne
    exact hne (hp.symm.trans (ref_of_addrs_zero (congrFun h) p))
  refine ⟨rfl, ht, fun n => ?_, ?_, fun o => ?_⟩
  · simp [hblock n]
  · simp [ref_of_addrs_zero (congrFun h)]
  · rw [Fs.content, if_pos (hblock _)]
    rfl

lemma Rep.others_putInode (h : Rep s (sb.din s.image) fs) {i : ℕ} (hi : i < NINODES)
    (y : Dinode) : Others sb i s.image (s.putInode i y).image := by
  rw [image_putInode hi]
  refine ⟨fun j _ hne => by rw [Geometry.din_putDin, if_neg hne], fun j hj _ htype p hp => ?_⟩
  refine Geometry.putDin_apply hi y ?_
  have hrange := h.owned.range (j, p)
  rw [refs_of_alive hj htype] at hrange
  exact (hrange hp).1

lemma Rep.owned_putInode (h : Rep s (sb.din s.image) fs) {i : ℕ} (hi : i < NINODES)
    (hfree : (sb.din s.image i).type = 0) {y : Dinode} (hy : y.addrs = fun _ => 0) :
    Ledger sb.nmeta sb.size
      (refs sb (s.putInode i y).image (sb.din (s.putInode i y).image)) ∅
      (sb.bit (s.putInode i y).image) := by
  have hdin : ∀ j, sb.din (s.putInode i y).image j = if j = i then y else sb.din s.image j := by
    intro j
    rw [image_putInode hi, Geometry.din_putDin]
  refine h.owned.congr (fun q => ?_) fun b hb => ?_
  · by_cases hq : q.1 = i
    · have hnew : refs sb (s.putInode i y).image (sb.din (s.putInode i y).image) q = 0 := by
        rw [refs]
        split
        · rw [hdin, if_pos hq]
          exact ref_of_addrs_zero (congrFun hy) _
        · rfl
      rw [hnew, refs, if_neg]
      rintro ⟨-, htype⟩
      rw [hq] at htype
      exact htype hfree
    · refine refs_din_congr (fun _ => by rw [hdin, if_neg hq]) fun hne => ?_
      rw [image_putInode hi]
      exact Geometry.putDin_apply hi y (h.owned.range _ hne).1
  · rw [image_putInode hi]
    exact Geometry.bit_putDin hi y hb

lemma ialloc_spec (h : Holds s fs) (hcount : fs.length + 1 < NINODES) {t : Int16} (ht : t ≠ 0) :
    ∃ s', ialloc t s = some (fs.length + 1, s') ∧ Holds s' (fs ++ [⟨t, []⟩]) ∧
      Others sb (fs.length + 1) s.image s'.image := by
  have hfree := h.rep.unused (fs.length + 1) hcount (Or.inr (Nat.lt_succ_self _))
  obtain ⟨y, hy⟩ : ∃ y : Dinode, y = { Dinode.zero with type := t, nlink := 1, size := 0 } :=
    ⟨_, rfl⟩
  obtain ⟨s', hs'⟩ : ∃ s' : Img,
      s' = Img.putInode { s with freeinode := s.freeinode + 1 } (fs.length + 1) y := ⟨_, rfl⟩
  have himage : s'.image = (s.putInode (fs.length + 1) y).image := by
    rw [hs']
    rfl
  have hdin : ∀ j, sb.din s'.image j =
      if j = fs.length + 1 then y else sb.din s.image j := by
    intro j
    rw [himage, image_putInode hcount, Geometry.din_putDin]
  have ho : Others sb (fs.length + 1) s.image s'.image := by
    rw [himage]
    exact h.rep.others_putInode hcount y
  have hblocks : usedBlocks (fs ++ [⟨t, []⟩]) = usedBlocks fs := by
    rw [usedBlocks_append, List.map_singleton, List.sum_singleton]
    exact congrArg (usedBlocks fs + ·) blocks_zero
  have htidy := h.rep.tidy.putInode hcount y
  refine ⟨s', ?_, ⟨⟨?_, ?_, ?_, ?_, ⟨fun f hf => ?_, ?_⟩, ?_, fun k hk => ?_, fun i hi hi' => ?_⟩,
    fun k hk => ?_⟩, ho⟩
  · have hrun := winode_eq (s := { s with freeinode := s.freeinode + 1 }) hcount
      (by exact h.rep.tidy.len) y
    have hnext : nextInode s =
        some (fs.length + 1, { s with freeinode := s.freeinode + 1 }) := by
      rw [← h.rep.freeinode]
      rfl
    rw [ialloc, bind_apply, hnext, Option.bind_some, bind_apply, ← hy, hrun, hs']
    rfl
  · rw [hs']
    exact ⟨htidy.len, htidy.lo, htidy.zero⟩
  · rw [hs', List.length_append]
    exact congrArg (· + 1) h.rep.freeinode
  · rw [List.length_append]
    exact hcount
  · rw [hblocks, hs']
    exact h.rep.freeblock
  · rcases List.mem_append.1 hf with hf | hf
    · exact h.rep.fits.size_le f hf
    · rw [List.mem_singleton.1 hf]
      exact Nat.zero_le _
  · rw [hblocks]
    exact h.rep.fits.used_le
  · rw [himage]
    exact h.rep.owned_putInode hcount hfree (by rw [hy]; rfl)
  · by_cases hlt : k < fs.length
    · rw [List.getElem_append_left hlt]
      exact (h.rep.file k hlt).of_others ho (by omega) (by omega)
    · rw [List.length_append, List.length_singleton] at hk
      obtain rfl : k = fs.length := by omega
      rw [List.getElem_concat_length rfl, hdin, if_pos rfl, hy]
      exact FileOk.empty rfl ht
  · rw [List.length_append, List.length_singleton] at hi'
    rw [hdin, if_neg (by omega)]
    exact h.rep.unused i hi (by omega)
  · by_cases hlt : k < fs.length
    · rw [List.getElem_append_left hlt, hdin, if_neg (by omega)]
      exact h.size k hlt
    · rw [List.length_append, List.length_singleton] at hk
      obtain rfl : k = fs.length := by omega
      rw [List.getElem_concat_length rfl, hdin, if_pos rfl, hy]
      rfl

end Calls

end Xv6.Mkfs
