import Xv6.Fs.Dirs
import Xv6.Fs.Holes
import Xv6.Fs.LogSets

/-!
# The tree, and what an operation on one inode does to it

`FsOk` is what the calls rely on: blocks are owned once, there are no holes, a directory is made of
whole entries that name inodes, and a free inode is blank.  `tree` is what the users of the file
system can see of an inode: its type, link count, size and contents.

Each routine that changes a locked inode keeps `FsOk`, stores the inode (`Stored`), changes the tree
there and nowhere else (`Others.tree`), and logs a known set of blocks.
-/

namespace Xv6.Fs

open Concur Concur.Bytes

/-- A directory has whole entries, which name inodes; a free inode is blank. -/
structure NodeOk (G : Geometry) (d : Disk) (x : Dinode) : Prop where
  aligned : x.type = T_DIR → x.size.toNat % DESIZE = 0
  entries : x.type = T_DIR → ∀ k, k < nent x → entInum d x k < G.ninodes
  blank : x.type = 0 → x.nlink = 0 ∧ x.size = 0

/-- A well-formed file system. -/
structure FsOk (G : Geometry) (d : Disk) : Prop where
  solid : Solid G ∅ d
  node : ∀ i, i < G.ninodes → NodeOk G d (G.din d i)

/-- What can be seen of an inode. -/
structure Node where
  type : Int16
  nlink : Int16
  size : UInt32
  bytes : ℕ → UInt8

/-- The free inode. -/
def Node.blank : Node := ⟨0, 0, 0, fun _ => 0⟩

/-- What can be seen of the inode `x`. -/
def node (d : Disk) (x : Dinode) : Node :=
  ⟨x.type, x.nlink, x.size, if x.type = 0 then fun _ => 0 else content d x⟩

/-- What can be seen of all inodes. -/
def tree (G : Geometry) (d : Disk) : ℕ → Node :=
  fun i => if i < G.ninodes then node d (G.din d i) else .blank

lemma T_DIR_ne_zero : T_DIR ≠ 0 := by decide

section

variable {G : Geometry} {inum : ℕ} {d d' : Disk} {c c' : Ictx}

lemma tree_of_lt {i : ℕ} (hi : i < G.ninodes) : tree G d i = node d (G.din d i) := if_pos hi

lemma entInum_congr {x x' : Dinode} (h : ∀ o, content d' x' o = content d x o) (k : ℕ) :
    entInum d' x' k = entInum d x k := by
  simp only [entInum, deInum, dirent, h]

lemma findEntry_congr {x x' : Dinode} (hsize : x'.size = x.size)
    (h : ∀ o, content d' x' o = content d x o) (name : Name) :
    findEntry d' x' name = findEntry d x name := by
  have hent : dirent d' x' = dirent d x := by
    funext k
    exact funext fun o => h _
  have hmatch : ∀ k, decide (entInum d' x' k ≠ 0 ∧ nameMatches name (entName d' x' k) = true) =
      decide (entInum d x k ≠ 0 ∧ nameMatches name (entName d x k) = true) := by
    intro k
    rw [decide_eq_decide, entInum, entInum, entName, entName, hent]
  rw [findEntry, findEntry, nent, nent, hsize, funext hmatch]
  simp only [entInum, hent]

lemma Others.tree (h : Others G inum d d') (hlt : inum < G.ninodes) :
    tree G d' = setAt (tree G d) inum (node d' (G.din d' inum)) := by
  funext j
  by_cases hj : j = inum
  · subst hj
    rw [setAt_self, tree_of_lt hlt]
  · rw [setAt_of_ne _ _ hj, Fs.tree, Fs.tree]
    by_cases hjlt : j < G.ninodes
    · rw [if_pos hjlt, if_pos hjlt]
      by_cases htype : (G.din d j).type = 0
      · rw [node, node, h.din j hjlt hj, if_pos htype, if_pos htype]
      · have hcontent : content d' (G.din d' j) = content d (G.din d j) :=
          funext fun o => h.content_eq hjlt hj htype o
        rw [h.din j hjlt hj] at hcontent
        rw [node, node, h.din j hjlt hj, if_neg htype, if_neg htype, hcontent]
    · rw [if_neg hjlt, if_neg hjlt]

lemma FsOk.of_others (h : FsOk G d) (hsolid : Solid G ∅ d') (hothers : Others G inum d d')
    (hnode : NodeOk G d' (G.din d' inum)) : FsOk G d' := by
  refine ⟨hsolid, fun j hj => ?_⟩
  by_cases hne : j = inum
  · subst hne
    exact hnode
  · have hdin := hothers.din j hj hne
    have hj' := h.node j hj
    refine ⟨fun hdir => ?_, fun hdir k hk => ?_, fun h0 => ?_⟩
    · rw [hdin] at hdir ⊢
      exact hj'.aligned hdir
    · have hdir' : (G.din d j).type = T_DIR := by rwa [hdin] at hdir
      rw [entInum_congr (hothers.content_eq hj hne (by rw [hdir']; exact T_DIR_ne_zero))]
      exact hj'.entries hdir' k (by rwa [hdin] at hk)
    · rw [hdin] at h0 ⊢
      exact hj'.blank h0

/-- An allocated inode is locked, and the in-memory copy is as on the disk. -/
structure Held (G : Geometry) (inum : ℕ) (c : Ictx) : Prop where
  fs : FsOk G c.blk
  lt : inum < G.ninodes
  eq : c.ip = G.din c.blk inum
  type_ne : c.ip.type ≠ 0

namespace Held

lemma working (h : Held G inum c) : Working G inum ∅ c := h.fs.solid.working h.eq h.lt h.type_ne

lemma full (h : Held G inum c) : NoHoles c.blk c.ip := by
  have htype := h.type_ne
  rw [h.eq] at htype ⊢
  exact h.fs.solid.noHoles inum h.lt htype

lemma nodeOk (h : Held G inum c) : NodeOk G c.blk c.ip := by
  rw [h.eq]
  exact h.fs.node inum h.lt

lemma dir (h : Held G inum c) (hdir : c.ip.type = T_DIR) : Dir G inum c :=
  ⟨h.working, h.full, h.nodeOk.aligned hdir, hdir⟩

end Held

/-- The routine has stored the inode it has worked on. -/
structure Stored (G : Geometry) (inum : ℕ) (c c' : Ictx) : Prop where
  fs : FsOk G c'.blk
  others : Others G inum c.blk c'.blk
  eq : c'.ip = G.din c'.blk inum
  type_eq : c'.ip.type = c.ip.type

namespace Stored

lemma held (h : Stored G inum c c') (hc : Held G inum c) : Held G inum c' :=
  ⟨h.fs, hc.lt, h.eq, by rw [h.type_eq]; exact hc.type_ne⟩

lemma tree (h : Stored G inum c c') (hc : Held G inum c) :
    tree G c'.blk = setAt (tree G c.blk) inum (node c'.blk c'.ip) := by
  rw [h.others.tree hc.lt, h.eq]

lemma of_working (hc : Held G inum c) (hw : Working G inum ∅ c')
    (hothers : Others G inum c.blk c'.blk) (heq : c'.ip = G.din c'.blk inum)
    (hfull : NoHoles c'.blk c'.ip) (hnode : NodeOk G c'.blk c'.ip)
    (htype : c'.ip.type = c.ip.type) : Stored G inum c c' := by
  refine ⟨hc.fs.of_others ?_ hothers (by rwa [← heq]), hothers, heq, htype⟩
  exact hc.fs.solid.of_working hw heq hothers hfull

end Stored

/-! ## The routines -/

lemma Held.change (h : Held G inum c) {f : Dinode → Dinode}
    (hf : (f c.ip).type = c.ip.type ∧ (f c.ip).size = c.ip.size ∧ (f c.ip).addrs = c.ip.addrs) :
    Wp Unexpected (do
      modify fun c => { c with ip := f c.ip }
      Sec.iupdate G inum)
      (fun _ c' => Stored G inum c c' ∧
        node c'.blk c'.ip = { node c.blk c.ip with nlink := (f c.ip).nlink } ∧
        Log.Within {G.IBLOCK inum} c.log c'.log ∧
        ∀ b, b < G.size → G.bit c'.blk b = G.bit c.blk b) c := by
  obtain ⟨htype, hsize, haddrs⟩ := hf
  have hw : Working G inum ∅ { c with ip := f c.ip } :=
    h.working.set_ip haddrs (by rw [htype]; exact h.type_ne)
  refine Wp.bind (Wp.of_modify ?_)
  refine ((iupdate_spec hw).and ((iupdate_within (Finset.mem_singleton_self _)).and
    iupdate_blk)).mono ?_
  rintro _ c' ⟨⟨hip, heq, hw', hothers, hdata⟩, ⟨hlog, -⟩, hblk⟩
  simp only at hip hothers hdata hlog hblk
  have hsame := content_eq_of_data c' h.working (by rw [hip, haddrs]) hdata
  refine ⟨.of_working h hw' hothers heq ?_ ?_ (by rw [hip, htype]), ?_, hlog, fun b hb => ?_⟩
  · intro n hn
    rw [hip, hsize] at hn
    rw [hsame.1]
    exact h.full n hn
  · refine ⟨fun hdir => ?_, fun hdir k hk => ?_, fun h0 => ?_⟩
    · rw [hip, htype] at hdir
      rw [hip, hsize]
      exact h.nodeOk.aligned hdir
    · rw [hip, htype] at hdir
      rw [nent, hip, hsize] at hk
      rw [entInum_congr hsame.2]
      exact h.nodeOk.entries hdir k hk
    · rw [hip, htype] at h0
      exact absurd h0 h.type_ne
  · have hcontent : content c'.blk c'.ip = content c.blk c.ip := funext hsame.2
    rw [hip] at hcontent
    rw [node, node, hip, htype, hsize, hcontent]
  · rw [hblk, Geometry.bit_putDin h.lt _ hb]

lemma EntrySet.toStored (h : Held G inum c) {k i : ℕ} {name : ℕ → UInt8}
    (hset : EntrySet G inum c k i name c') (hk : k ≤ nent c.ip) (hi : i < G.ninodes)
    (hdir : c.ip.type = T_DIR) : Stored G inum c c' ∧ c'.ip.nlink = c.ip.nlink := by
  refine ⟨.of_working h hset.dir.working hset.others hset.stored hset.dir.full ?_ ?_, ?_⟩
  · refine ⟨fun _ => hset.dir.aligned, fun _ j hj => ?_, fun h0 => ?_⟩
    · rw [hset.inum_eq]
      by_cases hjk : j = k
      · rwa [if_pos hjk]
      · rw [if_neg hjk]
        rw [hset.nent_eq] at hj
        exact h.nodeOk.entries hdir j (by omega)
    · exact absurd h0 hset.dir.working.type_ne
  · rw [hset.fields]
  · rw [hset.fields]

lemma SameDir.toStored (h : Held G inum c) (hsame : SameDir G inum c c') :
    Stored G inum c c' ∧ node c'.blk c'.ip = node c.blk c.ip := by
  have htype : c'.ip.type = c.ip.type := by rw [hsame.fields]
  have hsize : c'.ip.size = c.ip.size := by rw [hsame.fields]
  have hnlink : c'.ip.nlink = c.ip.nlink := by rw [hsame.fields]
  refine ⟨.of_working h hsame.dir.working hsame.others hsame.stored hsame.dir.full ?_ htype, ?_⟩
  · refine ⟨fun _ => hsame.dir.aligned, fun hdir k hk => ?_, fun h0 => ?_⟩
    · rw [entInum_congr hsame.content_eq]
      rw [htype] at hdir
      rw [nent, hsize] at hk
      exact h.nodeOk.entries hdir k hk
    · exact absurd h0 hsame.dir.working.type_ne
  · have hcontent : content c'.blk c'.ip = content c.blk c.ip := funext hsame.content_eq
    rw [node, node, htype, hnlink, hsize, hcontent]

lemma entry_mod (k : ℕ) : DESIZE * k % BSIZE + DESIZE ≤ BSIZE := by
  rw [DESIZE_eq, BSIZE_eq]
  omega

lemma Held.dirlinkEntry (h : Held G inum c) (hdir : c.ip.type = T_DIR) (name : Name) {i : ℕ}
    (hi : i < G.ninodes) :
    Wp Unexpected (Sec.dirlinkEntry G inum name i)
      (fun r c' => Stored G inum c c' ∧ c'.ip.nlink = c.ip.nlink ∧
        (r = false → node c'.blk c'.ip = node c.blk c.ip) ∧
        ∃ Y : Finset ℕ, Y.card ≤ 2 ∧
          Log.Within (G.bitmap ∪ {G.IBLOCK inum} ∪ Y) c.log c'.log) c := by
  have hd := h.dir hdir
  have hlog : Wp (fun _ => False) (Sec.dirlinkEntry G inum name i)
      (fun _ c' => ∃ Y : Finset ℕ, Y.card ≤ 2 ∧
        Log.Within (G.bitmap ∪ {G.IBLOCK inum} ∪ Y) c.log c'.log) c := by
    rw [Sec.dirlinkEntry]
    refine Wp.get_bind (Wp.seq (Wp.of_ok hd.emptyScan (Q := fun off c' =>
      off = DESIZE * firstFree c.blk c.ip ∧ c' = c) ⟨rfl, rfl⟩) ?_)
    rintro _ c' ⟨rfl, rfl⟩
    exact Wp.seq (writei_within _ _ _ (entry_mod _)) fun r c'' hr => Wp.pure hr
  have hi16 : i < 2 ^ 16 := hi.trans_le G.ninodes_le
  refine ((hd.dirlinkEntry h.eq name hi16).and hlog).mono ?_
  rintro r c' ⟨⟨rfl, hset⟩ | ⟨rfl, -, hsame⟩, hY⟩
  · obtain ⟨hst, hnl⟩ := hset.toStored h (firstFree_le _ _) hi hdir
    exact ⟨hst, hnl, by rintro ⟨⟩, hY⟩
  · obtain ⟨hst, hnode⟩ := hsame.toStored h
    exact ⟨hst, congrArg Node.nlink hnode, fun _ => hnode, hY⟩

lemma Held.eraseEntry (h : Held G inum c) (hdir : c.ip.type = T_DIR) {k : ℕ} (hk : k < nent c.ip) :
    Wp Unexpected (Sec.eraseEntry G inum (DESIZE * k))
      (fun _ c' => Stored G inum c c' ∧ c'.ip.nlink = c.ip.nlink ∧
        ∃ Y : Finset ℕ, Y.card ≤ 2 ∧
          Log.Within (G.bitmap ∪ {G.IBLOCK inum} ∪ Y) c.log c'.log) c := by
  have hlog : Wp (fun _ => False) (Sec.eraseEntry G inum (DESIZE * k))
      (fun _ c' => ∃ Y : Finset ℕ, Y.card ≤ 2 ∧
        Log.Within (G.bitmap ∪ {G.IBLOCK inum} ∪ Y) c.log c'.log) c := by
    rw [Sec.eraseEntry]
    refine Wp.seq (writei_within _ _ _ (entry_mod _)) fun r c' hr => ?_
    split
    · exact Wp.pure hr
    · exact not_false
  have hroot := G.root_lt
  refine (((h.dir hdir).eraseEntry h.eq hk).and hlog).mono ?_
  rintro _ c' ⟨hset, hY⟩
  obtain ⟨hst, hnl⟩ := hset.toStored h hk.le (by omega) hdir
  exact ⟨hst, hnl, hY⟩

lemma NodeOk.of_size_zero {x : Dinode} (hsize : x.size = 0) (htype : x.type = 0 → x.nlink = 0) :
    NodeOk G d x := by
  refine ⟨fun _ => ?_, fun _ k hk => ?_, fun h0 => ⟨htype h0, hsize⟩⟩
  · rw [hsize]
    rfl
  · rw [nent, hsize] at hk
    exact absurd hk (Nat.not_lt_zero _)

lemma NoHoles.of_size_zero {x : Dinode} (hsize : x.size = 0) : NoHoles d x := by
  intro n hn
  rw [hsize] at hn
  exact absurd hn (Nat.not_lt_zero _)

lemma Held.itrunc (h : Held G inum c) :
    Wp Unexpected (Sec.itrunc G inum)
      (fun _ c' => Stored G inum c c' ∧ c'.ip = { c.ip with size := 0, addrs := fun _ => 0 } ∧
        Log.Within (G.bitmap ∪ {G.IBLOCK inum}) c.log c'.log) c := by
  refine ((itrunc_spec h.working).and (itrunc_within h.working)).mono ?_
  rintro _ c' ⟨⟨hip, heq, hw', hothers⟩, hlog⟩
  have hsize : c'.ip.size = 0 := by rw [hip]
  have htype : c'.ip.type = c.ip.type := by rw [hip]
  refine ⟨.of_working h hw' hothers heq (.of_size_zero hsize) (.of_size_zero hsize fun h0 => ?_)
    htype, hip, hlog⟩
  rw [htype] at h0
  exact absurd h0 h.type_ne

lemma content_of_addrs_zero {x : Dinode} (h : ∀ k, x.addrs k = 0) (o : ℕ) :
    content d x o = 0 := by
  have hzero : blockAt d x (o / BSIZE) = 0 := by
    rw [blockAt]
    cases dataPlace (o / BSIZE) with
    | none => rfl
    | some p => exact ref_of_addrs_zero h p
  rw [content, if_pos hzero]

lemma FsOk.putDin (h : FsOk G d) (hlt : inum < G.ninodes)
    (hnone : ∀ p, refs G d (G.din d) (inum, p) = 0) {x : Dinode} (haddrs : ∀ k, x.addrs k = 0)
    (hsize : x.size = 0) (htype : x.type = 0 → x.nlink = 0) :
    FsOk G (G.putDin d inum x) ∧ Others G inum d (G.putDin d inum x) ∧
      G.din (G.putDin d inum x) inum = x := by
  have hdin : G.din (G.putDin d inum x) inum = x :=
    (Geometry.din_putDin inum inum x).trans (if_pos rfl)
  have hothers : Others G inum d (G.putDin d inum x) := by
    refine ⟨fun j _ hne => ?_, fun j hj _ halive p hp => ?_⟩
    · rw [Geometry.din_putDin, if_neg hne]
    · refine Geometry.putDin_apply hlt x ?_
      have hrange := h.solid.owned.range (j, p)
      rw [refs_of_alive hj halive] at hrange
      exact (hrange hp).1
  refine ⟨h.of_others (h.solid.putDin_blank hlt hnone haddrs hsize) hothers ?_, hothers, hdin⟩
  rw [hdin]
  exact .of_size_zero hsize htype

lemma Held.free (h : Held G inum c) (hnlink : c.ip.nlink = 0) :
    Wp Unexpected (do
      Sec.itrunc G inum
      modify fun c => { c with ip := { c.ip with type := 0 } }
      Sec.iupdate G inum)
      (fun _ c' => FsOk G c'.blk ∧ Others G inum c.blk c'.blk ∧
        node c'.blk (G.din c'.blk inum) = .blank ∧
        Log.Within (G.bitmap ∪ {G.IBLOCK inum}) c.log c'.log) c := by
  refine Wp.seq h.itrunc fun _ c1 h1 => Wp.bind (Wp.of_modify ?_)
  obtain ⟨hst, hip, hlog1⟩ := h1
  have haddrs : ∀ k, c1.ip.addrs k = 0 := fun k => by rw [hip]
  have hheld := hst.held h
  have hmem : G.IBLOCK inum ∈ G.bitmap ∪ {G.IBLOCK inum} :=
    Finset.mem_union_right _ (Finset.mem_singleton_self _)
  have hput := hheld.fs.putDin h.lt (x := { c1.ip with type := 0 }) (fun p => ?_) haddrs
    (by rw [hip]) fun _ => by rw [hip]; exact hnlink
  · obtain ⟨hfs, hothers, hdin⟩ := hput
    refine (iupdate_blk.and (iupdate_within hmem)).mono ?_
    rintro _ c' ⟨hblk, hlog2, -⟩
    rw [hblk, hdin]
    refine ⟨hfs, hst.others.trans hothers, ?_, hlog1.trans hlog2⟩
    rw [node, if_pos rfl]
    show (⟨0, c1.ip.nlink, c1.ip.size, _⟩ : Node) = _
    rw [hip]
    show (⟨0, c.ip.nlink, 0, _⟩ : Node) = _
    rw [hnlink]
    rfl
  · rw [← Ictx.ino_eq_din hheld.eq, hheld.working.refs_self]
    exact ref_of_addrs_zero haddrs p

lemma FsOk.ialloc (h : FsOk G d) (hlt : inum < G.ninodes) (hfree : (G.din d inum).type = 0)
    (type : Int16) :
    FsOk G (G.putDin d inum { Dinode.zero with type := type }) ∧
      Others G inum d (G.putDin d inum { Dinode.zero with type := type }) ∧
      G.din (G.putDin d inum { Dinode.zero with type := type }) inum =
        { Dinode.zero with type := type } :=
  h.putDin hlt (fun _ => if_neg fun h => h.2 hfree) (fun _ => rfl) rfl fun _ => rfl

end

end Xv6.Fs
