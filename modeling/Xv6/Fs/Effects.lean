import Xv6.Fs.Changes
import Xv6.Fs.Walk

/-!
# What the calls do

The specifications of `link`, `unlink`, `create` and `open` between `begin_op` and `end_op`, run
alone.  Each says which references and locks the call returns with, that a call that fails leaves
the tree as it was, and that the log has room for what it logs: the bitmap, the blocks of two
inodes, and at most six blocks of directories.

An inode that a call has not unlinked is not freed by its `iput`s, since an allocated inode without
links is in use by the others (`Anchored`).  What a call changes before the step that can still fail
is either undone (`nlink` in `link`) or belongs to an inode that is freed again (in `create`).
-/

namespace Xv6.Fs

open Concur

/-- The blocks that a call may log: the bitmap and those of the inodes `i` and `j`. -/
def inodeBlocks (G : Geometry) (i j : ℕ) : Finset ℕ := G.bitmap ∪ {G.IBLOCK i} ∪ {G.IBLOCK j}

/-- The log has room for what a call logs. -/
structure Room (B : Finset ℕ → ℕ → Prop) (G : Geometry) : Prop where
  room : ∀ i j, B (inodeBlocks G i j) 6
  anti : ∀ K K' n n', K ⊆ K' → n ≤ n' → B K' n' → B K n

variable {N : ℕ} {B : Finset ℕ → ℕ → Prop} {G : Geometry} {t : Fin N}
  {base own : Fin NINODE → ℕ} {L : Finset (Fin NINODE)} {K : Finset ℕ} {n : ℕ} {s s' : St N}
  {stop : Option Panic → Prop} {k : Fin NINODE}

lemma Room.of_subset (h : Room B G) {i j : ℕ} (hK : K ⊆ inodeBlocks G i j) (hn : n ≤ 6) : B K n :=
  h.anti _ _ _ _ hK hn (h.room i j)

lemma bitmap_subset (G : Geometry) (i j : ℕ) : G.bitmap ⊆ inodeBlocks G i j :=
  Finset.subset_union_left.trans Finset.subset_union_left

lemma left_mem_inodeBlocks (G : Geometry) (i j : ℕ) : G.IBLOCK i ∈ inodeBlocks G i j :=
  Finset.mem_union_left _ (Finset.mem_union_right _ (Finset.mem_singleton_self _))

lemma right_mem_inodeBlocks (G : Geometry) (i j : ℕ) : G.IBLOCK j ∈ inodeBlocks G i j :=
  Finset.mem_union_right _ (Finset.mem_singleton_self _)

lemma LogStops.of_all (h : ∀ m, stop m) : LogStops stop := ⟨h none, fun _ _ => h _⟩

/-- The process `t` can run a call: no inode waits to be freed, and it has a working directory. -/
structure Ready (G : Geometry) (t : Fin N) (base : Fin NINODE → ℕ) (s : St N) : Prop where
  anchored : Anchored G base s
  cwd : ∃ k, (s.proc t).cwd = some k ∧ 0 < base k

/-! ## Rules for anchored inodes -/

lemma iunlockput_anchored (hc : Holding B G t base (own + one k) L K n s) (hk : k ∈ L)
    (hanchor : Anchored G base s) :
    Ends (Fits B) stop (iunlockput G t k) s fun _ s' =>
      Holding B G t base own (L.erase k) K n s' ∧ Frame (base + own) s s' ∧ s'.blk = s.blk ∧
      ∀ j, (s'.itable j).inum = (s.itable j).inum := by
  obtain ⟨hpos, hv⟩ := hc.locked k hk
  refine (iunlockput_kept hc hk fun hn => ?_).mono ?_
  · have := hanchor.keep hc hpos hv hn
    omega
  · rintro _ s' ⟨hc', hf', hb', hj'⟩
    exact ⟨hc', hf', hb', fun j => (hj' j).1⟩

lemma ilock_first (hc : Holding B G t base own ∅ K n s) (hpos : 0 < base k + own k)
    (hstop : ∀ m, stop m) :
    Ends (Fits B) stop (ilock G t k) s fun _ s' => Holding B G t base own {k} K n s' ∧
      Frame (base + own) s s' ∧ s'.blk = s.blk ∧
      (G.din s.blk (s.itable k).inum).type ≠ 0 := by
  refine (ilock_ends hc hpos (fun _ => hstop _) fun _ => hstop _).mono ?_
  rintro _ s' ⟨hc', hf', hb', -, htype⟩
  exact ⟨hc', hf', hb', htype⟩

lemma iunlockput_last (hc : Holding B G t base (one k) {k} K n s) (hanchor : Anchored G base s) :
    Ends (Fits B) stop (iunlockput G t k) s fun _ s' =>
      Holding B G t base 0 ∅ K n s' ∧ Frame base s s' ∧ s'.blk = s.blk := by
  rw [← zero_add (one k)] at hc
  refine (iunlockput_anchored hc (Finset.mem_singleton_self k) hanchor).mono ?_
  rintro _ s' ⟨hc', hf', hb', -⟩
  rw [Finset.erase_singleton] at hc'
  exact ⟨hc', hf'.left, hb'⟩

lemma one_pos (base : Fin NINODE → ℕ) (k : Fin NINODE) : 0 < base k + one k k := by
  rw [one_self]
  exact Nat.succ_pos _

lemma mem_pair (i j : Fin NINODE) : i ∈ ({i, j} : Finset (Fin NINODE)) ∧ j ∈ ({i, j} : Finset _) :=
  ⟨Finset.mem_insert_self _ _, Finset.mem_insert_of_mem (Finset.mem_singleton_self j)⟩

lemma two_pos (base : Fin NINODE → ℕ) (dp ip : Fin NINODE) :
    0 < base dp + (one dp + one ip) dp ∧ 0 < base ip + (one dp + one ip) ip := by
  simp only [Pi.add_apply, one_self]
  omega

lemma erase_pair {dp ip : Fin NINODE} (h : dp ≠ ip) :
    (insert ip {dp} : Finset (Fin NINODE)).erase dp = {ip} := by
  rw [Finset.erase_insert_of_ne h.symm, Finset.erase_singleton]
  rfl

/-- What a path means for the process `t`. -/
def pathOf (G : Geometry) (s : St N) (t : Fin N) (path : Path) : Option ℕ :=
  (s.proc t).cwd.bind fun k => walk G s.blk (startOf path (s.itable k).inum)
    ((segments path).map (List.take DIRSIZ))

/-- The directory that is to hold the last name of a path, and that name. -/
def parentOf (G : Geometry) (s : St N) (t : Fin N) (path : Path) : Option (ℕ × Name) :=
  (s.proc t).cwd.bind fun k => walkParent G s.blk (startOf path (s.itable k).inum)
    ((segments path).map (List.take DIRSIZ))

section

variable (hc : Holding B G t base 0 ∅ K n s) (hr : Ready G t base s) (hstop : ∀ m, stop m)

include hc hr hstop

lemma namei_ends {path : Path} (h0 : 0 ∉ path) :
    Ends (Fits B) stop (namei G t path) s fun r s' => Frame base s s' ∧ s'.blk = s.blk ∧
      match r with
      | none => Holding B G t base 0 ∅ K n s'
      | some k => Holding B G t base (one k) ∅ K n s' := by
  obtain ⟨k, hcwd, hpos⟩ := hr.cwd
  rw [namei]
  refine (namex_ends hc hr.anchored hcwd hpos (fun _ => hstop _) (fun _ => hstop _) false onStack
    h0).seq ?_
  rintro (_ | ⟨k', name'⟩) s' ⟨hf, hb, hc', -⟩
  · exact .ret ⟨hf, hb, hc'⟩
  · exact .ret ⟨hf, hb, hc'⟩

lemma nameiparent_ends {path : Path} (h0 : 0 ∉ path) (name : NameBuf) :
    Ends (Fits B) stop (nameiparent G t path name) s fun r s' => Frame base s s' ∧ s'.blk = s.blk ∧
      match r with
      | none => Holding B G t base 0 ∅ K n s' ∧ parentOf G s t path = none
      | some (k, name') => Holding B G t base (one k) ∅ K n s' ∧
        parentOf G s t path = some ((s'.itable k).inum, nameOf name') ∧
        (G.din s'.blk (s'.itable k).inum).type = T_DIR ∧
        pathOf G s t path =
          (findEntry s'.blk (G.din s'.blk (s'.itable k).inum) (nameOf name')).map Prod.fst := by
  obtain ⟨k, hcwd, hpos⟩ := hr.cwd
  rw [nameiparent]
  refine (namex_ends hc hr.anchored hcwd hpos (fun _ => hstop _) (fun _ => hstop _) true name
    h0).mono ?_
  rintro (_ | ⟨k', name'⟩) s' ⟨hf, hb, hc', hfound⟩
  · refine ⟨hf, hb, hc', ?_⟩
    rw [parentOf, hcwd, Option.bind_some]
    exact Option.map_eq_none_iff.1 hfound
  · obtain ⟨⟨j, x⟩, hj, heq⟩ := Option.map_eq_some_iff.1 hfound
    obtain ⟨hinum, hname⟩ := Prod.mk.inj heq
    obtain ⟨hdir, -, hwalk⟩ := walk_of_walkParent hj
    refine ⟨hf, hb, hc', ?_, ?_, ?_⟩
    · rw [parentOf, hcwd, Option.bind_some, hj, ← hinum, ← Option.some.inj hname]
    · rw [hb, ← hinum]
      exact hdir
    · rw [pathOf, hcwd, Option.bind_some, hwalk, hb, ← hinum, ← Option.some.inj hname]

end

/-- What a call is to return with: nothing is held, and a call that failed has not changed the
tree. -/
structure Settled (B : Finset ℕ → ℕ → Prop) (G : Geometry) (t : Fin N) (base : Fin NINODE → ℕ)
    (s : St N) (failed : Prop) (s' : St N) : Prop where
  holding : ∃ K n, Holding B G t base 0 ∅ K n s'
  frame : Frame base s s'
  tree_eq : failed → tree G s'.blk = tree G s.blk

/-! ## `link` -/

lemma inodeBlocks_subset (G : Geometry) (i j : ℕ) : inodeBlocks G i i ⊆ inodeBlocks G i j := by
  rw [inodeBlocks, Finset.union_assoc, Finset.union_self]
  exact Finset.subset_union_left

lemma linkAt_ends (hroom : Room B G) {i : ℕ} (hc : Holding B G t base 0 ∅ (inodeBlocks G i i) 0 s)
    (hr : Ready G t base s) (hstop : ∀ m, stop m) {ip : Fin NINODE} (hip : 0 < base ip)
    {new : Path} (h0 : 0 ∉ new) :
    Ends (Fits B) stop (linkAt G t ip new) s fun ok s' =>
      (∃ j, Holding B G t base 0 ∅ (inodeBlocks G i j) 2 s') ∧ Frame base s s' ∧
      (ok = false → tree G s'.blk = tree G s.blk) := by
  have hraise : ∀ {own L s' j n'}, Holding B G t base own L (inodeBlocks G i i) 0 s' → n' ≤ 2 →
      Holding B G t base own L (inodeBlocks G i j) n' s' := by
    intro own L s' j n' h hn
    exact h.mono (inodeBlocks_subset G i j) (by omega) (hroom.of_subset subset_rfl (by omega))
  rw [linkAt]
  refine (nameiparent_ends hc hr hstop h0 onStack).seq ?_
  rintro (_ | ⟨dp, name⟩) s1 ⟨hf1, hb1, h1⟩
  · exact .ret ⟨⟨i, hraise h1.1 le_rfl⟩, hf1, fun _ => by rw [hb1]⟩
  obtain ⟨hc1, -, hdir1, -⟩ := h1
  refine (ilock_first hc1 (one_pos base dp) hstop).seq ?_
  rintro _ s2 ⟨hc2, hf2, hb2, -⟩
  have hdir2 : (G.din s2.blk (s2.itable dp).inum).type = T_DIR := by
    rw [hb2, hf2.inum dp (one_pos base dp)]
    exact hdir1
  have hanchor2 := (hr.anchored.frame hf1 hb1).frame hf2.left hb2
  refine (inumOf_ends hc2).seq ?_
  rintro _ s2 ⟨rfl, rfl⟩
  have hlt : (s2.itable ip).inum < G.ninodes := hc2.lt ip (by omega)
  refine (dirlink_ends (hraise (j := (s2.itable dp).inum) hc2 (Nat.zero_le 2)) hanchor2
    (Finset.mem_singleton_self dp) hdir2 (nameOf name) hlt (bitmap_subset G _ _)
    (right_mem_inodeBlocks G _ _) (hroom.of_subset subset_rfl (by omega)) (.of_all hstop)
    (hstop _)).seq ?_
  rintro ok s3 ⟨hc3, hf3, hsame, -, x, htree3, htype3, hnlink3⟩
  refine (iunlockput_last hc3 (hanchor2.of_same hf3.left htree3 htype3 hnlink3)).seq ?_
  rintro _ s4 ⟨hc4, hf4, hb4⟩
  refine .ret ⟨⟨_, hc4⟩, hf1.trans (hf2.left.trans (hf3.left.trans hf4)), fun hok => ?_⟩
  rw [hb4, hsame hok, hb2, hb1]

lemma Ready.of_frame (hr : Ready G t base s) (hf : Frame base s s') (hanchor : Anchored G base s') :
    Ready G t base s' := by
  refine ⟨hanchor, ?_⟩
  rw [hf.proc]
  exact hr.cwd

lemma link_ends (hroom : Room B G) (hc : Holding B G t base 0 ∅ ∅ 0 s) (hr : Ready G t base s)
    (hstop : ∀ m, stop m) {old new : Path} (hold : 0 ∉ old) (hnew : 0 ∉ new) :
    Ends (Fits B) stop (link G t old new) s fun r s' => Settled B G t base s (r = -1) s' := by
  rw [link]
  refine (namei_ends hc hr hstop hold).seq ?_
  rintro (_ | ip) s1 ⟨hf1, hb1, hc1⟩
  · exact .ret ⟨⟨_, _, hc1⟩, hf1, fun _ => by rw [hb1]⟩
  have hpos := one_pos base ip
  have hin : ip ∈ ({ip} : Finset (Fin NINODE)) := Finset.mem_singleton_self ip
  refine (ilock_first hc1 hpos hstop).seq ?_
  rintro _ s2 ⟨hc2, hf2, hb2, htype2⟩
  have hf2' := hf1.trans hf2.left
  have hanchor2 := hr.anchored.frame hf2' (hb2.trans hb1)
  refine (inodeOf_ends hc2 hin).seq ?_
  rintro _ s2 ⟨rfl, rfl⟩
  by_cases hdir : (G.din s2.blk (s2.itable ip).inum).type = T_DIR
  · rw [if_pos hdir]
    refine (iunlockput_last hc2 hanchor2).seq ?_
    rintro _ s3 ⟨hc3, hf3, hb3⟩
    exact .ret ⟨⟨_, _, hc3⟩, hf2'.trans hf3, fun _ => by rw [hb3, hb2, hb1]⟩
  rw [if_neg hdir]
  set i := (s2.itable ip).inum with hi
  have hc2' : Holding B G t base (one ip) {ip} (inodeBlocks G i i) 0 s2 :=
    hc2.mono (Finset.empty_subset _) le_rfl (hroom.of_subset subset_rfl (by omega))
  -- one link more
  refine (change_ends hc2' hin (fun d => { d with nlink := d.nlink + 1 })
    (fun _ => ⟨rfl, rfl, rfl⟩) (left_mem_inodeBlocks G i i) (.of_all hstop)).seq ?_
  rintro _ s3 ⟨hc3, hf3, hi3, htree3, -⟩
  refine (iunlock_ends hc3 hin).seq ?_
  rintro _ s4 ⟨hc4, hf4, hb4, hi4⟩
  rw [Finset.erase_singleton, ← zero_add (one ip)] at hc4
  have hinum4 : (s4.itable ip).inum = i := (hi4 ip).1.trans (hi3 ip)
  have htype4 : (G.din s4.blk (s4.itable ip).inum).type ≠ 0 := by
    rw [hb4, (hi4 ip).1, ← hc3.d_eq hin]
    exact (hc3.held hin).type_ne
  -- the reference is kept while the new path is looked up
  have hc4' := hc4.lend htype4
  have hf4' : Frame (base + one ip) s2 s4 := hf3.trans hf4
  have hone : 0 < (base + one ip) ip := hpos
  have hanchor4 : Anchored G (base + one ip) s4 := by
    refine (hanchor2.mono fun k => Nat.le_add_right _ _).of_setAt hf4' (hb4 ▸ htree3) ?_
    exact fun _ _ => ⟨ip, hone, rfl⟩
  have hr4 : Ready G t (base + one ip) s4 := by
    refine ⟨hanchor4, ?_⟩
    obtain ⟨k, hk, hkpos⟩ := (hr.of_frame hf2' hanchor2).cwd
    rw [hf4'.proc]
    exact ⟨k, hk, Nat.lt_of_lt_of_le hkpos (Nat.le_add_right _ _)⟩
  refine (linkAt_ends hroom hc4' hr4 hstop hone hnew).seq ?_
  rintro ok s5 ⟨⟨j, hc5⟩, hf5, hsame⟩
  have hinum5 : (s5.itable ip).inum = i := (hf5.inum ip hone).trans hinum4
  have hf5' : Frame base s s5 := hf2'.trans (hf4'.left.trans hf5.left)
  have hc5' := hc5.unlend
  cases ok with
  | true =>
    refine (iput_ends hc5' (fun h => absurd h (Finset.notMem_empty ip)) (bitmap_subset G i j)
      (by rw [hinum5]; exact left_mem_inodeBlocks G i j) (.of_all hstop)).seq ?_
    rintro _ s6 ⟨hc6, hf6, -, -⟩
    exact .ret ⟨⟨_, _, hc6⟩, hf5'.trans hf6.left, fun h => absurd h (by decide)⟩
  | false =>
    rw [zero_add] at hc5'
    refine (ilock_first hc5' hpos hstop).seq ?_
    rintro _ s6 ⟨hc6, hf6, hb6, -⟩
    have hinum6 : (s6.itable ip).inum = i := (hf6.inum ip hpos).trans hinum5
    -- and one link less
    refine (change_ends hc6 hin (fun d => { d with nlink := d.nlink - 1 })
      (fun _ => ⟨rfl, rfl, rfl⟩) (by rw [hinum6]; exact left_mem_inodeBlocks G i j)
      (.of_all hstop)).seq ?_
    rintro _ s7 ⟨hc7, hf7, hi7, htree7, -⟩
    have htree6 : tree G s6.blk = setAt (tree G s2.blk) i { tree G s2.blk i with
        nlink := (tree G s2.blk i).nlink + 1 } := by
      rw [hb6, hsame rfl, hb4, htree3, hc2.tree_eq hpos]
      rfl
    have hnlink6 : (G.din s6.blk (s6.itable ip).inum).nlink = (tree G s2.blk i).nlink + 1 := by
      have h := congrArg Node.nlink (hc6.tree_eq hpos)
      rw [hinum6, htree6, setAt_self] at h
      rw [hinum6]
      exact h.symm
    have hback : tree G s7.blk = tree G s2.blk := by
      rw [htree7, hnlink6, hinum6, htree6, setAt_self]
      simp only [Int16.add_sub_cancel]
      rw [setAt_setAt, setAt_eq_self]
    have hf7' : Frame base s2 s7 :=
      hf4'.left.trans (hf5.left.trans (hf6.left.trans hf7.left))
    refine (iunlockput_last hc7 (hanchor2.of_tree_eq hf7' hback)).seq ?_
    rintro _ s8 ⟨hc8, hf8, hb8⟩
    refine .ret ⟨⟨_, _, hc8⟩, hf2'.trans (hf7'.trans hf8), fun _ => ?_⟩
    rw [hb8, hback, hb2, hb1]

/-! ## `unlink` -/

lemma isdirempty_ends (hc : Holding B G t base own L K n s) (hk : k ∈ L)
    (hdir : (G.din s.blk (s.itable k).inum).type = T_DIR) :
    Ends (Fits B) stop (.atomic (St.onInode k (Sec.isdirempty G))) s fun _ s' => s' = s := by
  have hempty := ((hc.held hk).dir (by rw [← hc.d_eq hk] at hdir; exact hdir)).isdirempty
  refine Ends.atomic ?_
  rw [onInode_of_eq hempty]
  exact ⟨hc.toFits, rfl⟩

lemma unlinkEntry_ends (hroom : Room B G) {dp ip : Fin NINODE}
    (hc : Holding B G t base (one dp + one ip) {dp} ∅ 0 s) (hanchor : Anchored G base s)
    (hstop : ∀ m, stop m) (hdir : (G.din s.blk (s.itable dp).inum).type = T_DIR) {off : ℕ}
    {name : Name}
    (hfind : findEntry s.blk (G.din s.blk (s.itable dp).inum) name =
      some ((s.itable ip).inum, off)) :
    Ends (Fits B) stop (unlinkEntry G t dp ip off) s fun ok s' =>
      Settled B G t base s (ok = false) s' := by
  obtain ⟨hposd, hposi⟩ := two_pos base dp ip
  rw [unlinkEntry]
  refine (ilock_ends hc hposi (fun _ => hstop _) fun _ => hstop _).seq ?_
  rintro _ s1 ⟨hc1, hf1, hb1, hne, -⟩
  obtain ⟨hin, hdin⟩ := mem_pair ip dp
  have hne' : dp ≠ ip := fun h => hne (Finset.mem_singleton.2 h.symm)
  have hanchor1 := hanchor.frame hf1.left hb1
  have hinumd := hf1.inum dp hposd
  have hinumi := hf1.inum ip hposi
  refine (inodeOf_ends hc1 hin).seq ?_
  rintro _ s1 ⟨rfl, rfl⟩
  refine Ends.seq (P := fun _ s' => s' = s1) (Ends.when (fun _ => Ends.update ?_) fun _ => rfl) ?_
  · exact hstop (some .unlinkNlink)
  rintro _ s1 rfl
  refine Ends.seq (P := fun _ s' => s' = s1) ?_ ?_
  · by_cases hd : (G.din s1.blk (s1.itable ip).inum).type = T_DIR
    · rw [if_pos hd]
      exact isdirempty_ends hc1 hin hd
    · rw [if_neg hd]
      exact .ret rfl
  rintro (_ | _) s1 rfl
  · -- the directory is not empty
    refine (iunlockput_anchored hc1 hin hanchor1).seq ?_
    rintro _ s2 ⟨hc2, hf2, hb2, -⟩
    rw [Finset.erase_insert hne] at hc2
    refine (iunlockput_last hc2 (hanchor1.frame hf2.left hb2)).seq ?_
    rintro _ s3 ⟨hc3, hf3, hb3⟩
    exact .ret ⟨⟨_, _, hc3⟩, hf1.left.trans (hf2.left.trans hf3), fun _ => by rw [hb3, hb2, hb1]⟩
  · set i := (s1.itable ip).inum with hi
    set j := (s1.itable dp).inum with hj
    have hc1' : Holding B G t base (one dp + one ip) (insert ip {dp}) (inodeBlocks G i j) 0 s1 :=
      hc1.mono (Finset.empty_subset _) le_rfl (hroom.of_subset subset_rfl (by omega))
    refine (inumOf_ends hc1').seq ?_
    rintro _ s1 ⟨rfl, rfl⟩
    obtain ⟨m, hm, rfl, -, -, -⟩ := findEntry_eq_some hfind
    rw [← hb1, ← hinumd] at hdir hm
    refine (eraseEntry_ends hc1' hdin hdir hm (bitmap_subset G i j) (right_mem_inodeBlocks G i j)
      (hroom.of_subset subset_rfl (by omega)) (.of_all hstop)).seq ?_
    rintro _ s2 ⟨hc2, hf2, hi2, -⟩
    refine Ends.seq (P := fun _ s' =>
      Holding B G t base (one dp + one ip) (insert ip {dp}) (inodeBlocks G i j) 2 s' ∧
      Frame base s2 s' ∧ ∀ k, (s'.itable k).inum = (s2.itable k).inum) ?_ ?_
    · refine Ends.when (fun _ => ?_) fun _ => ⟨hc2, .refl _ _, fun _ => rfl⟩
      refine (change_ends hc2 hdin (fun d => { d with nlink := d.nlink - 1 })
        (fun _ => ⟨rfl, rfl, rfl⟩) (by rw [hi2]; exact right_mem_inodeBlocks G i j)
        (.of_all hstop)).mono ?_
      rintro _ s3 ⟨hc3, hf3, hi3, -⟩
      exact ⟨hc3, hf3.left, hi3⟩
    rintro _ s3 ⟨hc3, hf3, hi3⟩
    rw [add_comm] at hc3
    refine (iunlockput_ends hc3 hdin (bitmap_subset G i j)
      (by rw [hi3, hi2]; exact right_mem_inodeBlocks G i j) (.of_all hstop)).seq ?_
    rintro _ s4 ⟨hc4, hf4, hi4, -⟩
    rw [erase_pair hne'] at hc4
    have hin4 : ip ∈ ({ip} : Finset (Fin NINODE)) := Finset.mem_singleton_self ip
    have hK4 : G.IBLOCK (s4.itable ip).inum ∈ inodeBlocks G i j := by
      rw [hi4, hi3, hi2]
      exact left_mem_inodeBlocks G i j
    refine (change_ends hc4 hin4 (fun d => { d with nlink := d.nlink - 1 })
      (fun _ => ⟨rfl, rfl, rfl⟩) hK4 (.of_all hstop)).seq ?_
    rintro _ s5 ⟨hc5, hf5, hi5, -⟩
    rw [← zero_add (one ip)] at hc5
    refine (iunlockput_ends hc5 hin4 (bitmap_subset G i j) (by rw [hi5]; exact hK4)
      (.of_all hstop)).seq ?_
    rintro _ s6 ⟨hc6, hf6, -, -⟩
    rw [Finset.erase_singleton] at hc6
    refine .ret ⟨⟨_, _, hc6⟩, ?_, by rintro ⟨⟩⟩
    exact hf1.left.trans (hf2.left.trans (hf3.trans (hf4.left.trans (hf5.left.trans hf6.left))))

lemma unlink_ends (hroom : Room B G) (hc : Holding B G t base 0 ∅ ∅ 0 s) (hr : Ready G t base s)
    (hstop : ∀ m, stop m) {path : Path} (h0 : 0 ∉ path) :
    Ends (Fits B) stop (unlink G t path) s fun r s' => Settled B G t base s (r = -1) s' := by
  rw [unlink]
  refine (nameiparent_ends hc hr hstop h0 onStack).seq ?_
  rintro (_ | ⟨dp, name⟩) s1 ⟨hf1, hb1, h1⟩
  · exact .ret ⟨⟨_, _, h1.1⟩, hf1, fun _ => by rw [hb1]⟩
  obtain ⟨hc1, -, hdir1, -⟩ := h1
  have hpos := one_pos base dp
  have hin : dp ∈ ({dp} : Finset (Fin NINODE)) := Finset.mem_singleton_self dp
  refine (ilock_first hc1 hpos hstop).seq ?_
  rintro _ s2 ⟨hc2, hf2, hb2, -⟩
  have hf2' := hf1.trans hf2.left
  have hanchor2 := hr.anchored.frame hf2' (hb2.trans hb1)
  have hdir2 : (G.din s2.blk (s2.itable dp).inum).type = T_DIR := by
    rw [hb2, hf2.inum dp hpos]
    exact hdir1
  have hfail : Ends (Fits B) stop (do iunlockput G t dp; pure (-1)) s2 fun r s' =>
      Settled B G t base s (r = -1) s' := by
    refine (iunlockput_last hc2 hanchor2).seq ?_
    rintro _ s3 ⟨hc3, hf3, hb3⟩
    exact .ret ⟨⟨_, _, hc3⟩, hf2'.trans hf3, fun _ => by rw [hb3, hb2, hb1]⟩
  split
  · exact hfail
  refine (dirlookup_ends hc2 hin hdir2 (fun _ => hstop _) (nameOf name)).seq ?_
  rintro (_ | ⟨ip, off⟩) s3 h3
  · obtain ⟨-, rfl⟩ := h3
    exact hfail
  obtain ⟨i, hfind, hc3, hf3, hb3, hi3, -⟩ := h3
  have hinum3 := hf3.inum dp hpos
  rw [← hb3, ← hinum3, ← hi3] at hfind
  rw [← hb3, ← hinum3] at hdir2
  refine (unlinkEntry_ends hroom hc3 (hanchor2.frame hf3.left hb3) hstop hdir2 hfind).seq ?_
  rintro ok s4 ⟨hc4, hf4, hsame⟩
  cases ok with
  | true => exact .ret ⟨hc4, hf2'.trans (hf3.left.trans hf4), fun h => absurd h (by decide)⟩
  | false =>
    refine .ret ⟨hc4, hf2'.trans (hf3.left.trans hf4), fun _ => ?_⟩
    rw [hsame rfl, hb3, hb2, hb1]

/-! ## `create` -/

lemma Holding.type_eq (hc : Holding B G t base own L K n s) (hpos : 0 < base k + own k) :
    (G.din s.blk (s.itable k).inum).type = (tree G s.blk (s.itable k).inum).type := by
  rw [hc.tree_eq hpos]
  rfl

lemma createEntries_ends (hroom : Room B G) {dp ip : Fin NINODE} (hne : dp ≠ ip) {i j : ℕ}
    (hc : Holding B G t base (one dp + one ip) (insert ip {dp}) (inodeBlocks G i j) 0 s)
    (hi : (s.itable ip).inum = i) (hj : (s.itable dp).inum = j) (hanchor : Anchored G base s)
    (hstop : ∀ m, stop m) (hdir : (tree G s.blk j).type = T_DIR) {type : Int16}
    (htype : (tree G s.blk i).type = type) (name : Name) :
    Ends (Fits B) stop (createEntries G t dp ip name type) s fun ok s' =>
      Holding B G t base (one dp + one ip) (insert ip {dp}) (inodeBlocks G i j) 6 s' ∧
      Frame (base + (one dp + one ip)) s s' ∧ (tree G s'.blk i).type = type ∧
      (ok = false → ∃ x, tree G s'.blk = setAt (tree G s.blk) i x) ∧ Anchored G base s' ∧
      (type ≠ T_DIR → findEntry s.blk (G.din s.blk j) name = none →
        (ok = true ↔ HasRoom G s.blk j)) := by
  obtain ⟨hposd, hposi⟩ := two_pos base dp ip
  have hij : j ≠ i := by
    intro h
    exact hne (hc.inj dp ip hposd hposi (by rw [hi, hj, h]))
  obtain ⟨hin, hdin⟩ := mem_pair ip dp
  have hilt : i < G.ninodes := hi ▸ hc.lt ip hposi
  have hjlt : j < G.ninodes := hj ▸ hc.lt dp hposd
  have hB : ∀ n, n ≤ 6 → B (inodeBlocks G i j) n := fun n => hroom.of_subset subset_rfl
  -- an entry in the new directory
  have hdot : ∀ (name : Name) (m n : ℕ) (s1 : St N), m < G.ninodes → n ≤ 4 → type = T_DIR →
      Holding B G t base (one dp + one ip) (insert ip {dp}) (inodeBlocks G i j) n s1 →
      Frame (base + (one dp + one ip)) s s1 → Anchored G base s1 →
      (∃ x, tree G s1.blk = setAt (tree G s.blk) i x ∧ x.type = type) →
      Ends (Fits B) stop (dirlink G t ip name m) s1 fun _ s' =>
        Holding B G t base (one dp + one ip) (insert ip {dp}) (inodeBlocks G i j) (n + 2) s' ∧
        Frame (base + (one dp + one ip)) s s' ∧ Anchored G base s' ∧
        ∃ x, tree G s'.blk = setAt (tree G s.blk) i x ∧ x.type = type := by
    rintro name m n s1 hm hn rfl hc1 hf1 hanchor1 ⟨x, htree1, hx⟩
    have hi1 : (s1.itable ip).inum = i := (hf1.inum ip hposi).trans hi
    have hdir1 : (G.din s1.blk (s1.itable ip).inum).type = T_DIR := by
      rw [hc1.type_eq hposi, hi1, htree1, setAt_self]
      exact hx
    refine (dirlink_ends hc1 hanchor1 hin hdir1 name hm (bitmap_subset G i j)
      (by rw [hi1]; exact left_mem_inodeBlocks G i j) (hB _ (by omega)) (.of_all hstop)
      (hstop _)).mono ?_
    rintro _ s2 ⟨hc2, hf2, -, -, y, htree2, hy, hnlink⟩
    refine ⟨hc2, hf1.trans hf2, hanchor1.of_same hf2.left htree2 hy hnlink, y, ?_, ?_⟩
    · rw [htree2, htree1, hi1, setAt_setAt]
    · rw [hy, htree1, hi1, setAt_self]
      exact hx
  have hself : ∃ x, tree G s.blk = setAt (tree G s.blk) i x ∧ x.type = type :=
    ⟨_, (setAt_eq_self _ i).symm, htype⟩
  rw [createEntries]
  refine (inumOf_ends hc).seq ?_
  rintro _ s ⟨rfl, rfl⟩
  refine (inumOf_ends hc).seq ?_
  rintro _ s ⟨rfl, rfl⟩
  rw [hi, hj]
  refine Ends.seq (P := fun (r : Bool) s' =>
    Holding B G t base (one dp + one ip) (insert ip {dp}) (inodeBlocks G i j) 4 s' ∧
    Frame (base + (one dp + one ip)) s s' ∧ Anchored G base s' ∧
    (∃ x, tree G s'.blk = setAt (tree G s.blk) i x ∧ x.type = type) ∧
    (type ≠ T_DIR → r = true ∧ s' = s)) ?_ ?_
  · by_cases hT : type = T_DIR
    · rw [if_pos hT]
      refine (hdot dot i 0 s hilt (by omega) hT hc (.refl _ _) hanchor hself).seq ?_
      rintro (_ | _) s1 ⟨hc1, hf1, hanchor1, hx1⟩
      · exact .ret ⟨hc1.mono subset_rfl (by omega) (hB _ (by omega)), hf1, hanchor1, hx1, absurd hT⟩
      · refine (hdot dotdot j 2 s1 hjlt (by omega) hT hc1 hf1 hanchor1 hx1).mono fun _ s' h => ?_
        exact ⟨h.1, h.2.1, h.2.2.1, h.2.2.2, absurd hT⟩
    · rw [if_neg hT]
      exact .ret ⟨hc.mono subset_rfl (by omega) (hB _ (by omega)), .refl _ _, hanchor, hself,
        fun _ => ⟨rfl, rfl⟩⟩
  rintro (_ | _) s2 ⟨hc2, hf2, hanchor2, ⟨x, htree2, hx⟩, hfile⟩
  · refine .ret ⟨hc2.mono subset_rfl (by omega) (hB _ le_rfl), hf2, ?_, fun _ => ⟨x, htree2⟩,
      hanchor2, fun hT => absurd (hfile hT).1 Bool.false_ne_true⟩
    rw [htree2, setAt_self]
    exact hx
  have hj2 : (s2.itable dp).inum = j := (hf2.inum dp hposd).trans hj
  have hdir2 : (G.din s2.blk (s2.itable dp).inum).type = T_DIR := by
    rw [hc2.type_eq hposd, hj2, htree2, setAt_of_ne _ _ hij]
    exact hdir
  refine (dirlink_ends hc2 hanchor2 hdin hdir2 name hilt (bitmap_subset G i j)
    (by rw [hj2]; exact right_mem_inodeBlocks G i j) (hB _ le_rfl) (.of_all hstop)
    (hstop _)).mono ?_
  rintro ok s3 ⟨hc3, hf3, hsame, hiff, y, htree3, hy, hnlink⟩
  refine ⟨hc3, hf2.trans hf3, ?_, fun hok => ⟨x, (hsame hok).trans htree2⟩,
    hanchor2.of_same hf3.left htree3 hy hnlink, fun hT => ?_⟩
  · rw [htree3, hj2, setAt_of_ne _ _ hij.symm, htree2, setAt_self]
    exact hx
  · rwa [hj2, (hfile hT).2] at hiff

/-- What `create` returns with: nothing, and the tree is as it was, or an inode that is locked, an
old one or a new one of the type `type`.  A file is made exactly if it can be. -/
def Created (B : Finset ℕ → ℕ → Prop) (G : Geometry) (t : Fin N) (base : Fin NINODE → ℕ)
    (s : St N) (type : Int16) (old can : Prop) (r : Option (Fin NINODE)) (s' : St N) : Prop :=
  Frame base s s' ∧
    match r with
    | none => (∃ K n, Holding B G t base 0 ∅ K n s') ∧ tree G s'.blk = tree G s.blk ∧
      (type ≠ T_DIR → ¬ can)
    | some ip => (∃ j, Holding B G t base (one ip) {ip}
        (inodeBlocks G (s'.itable ip).inum j) 6 s') ∧
      (s'.blk = s.blk ∧ old ∨
        ¬ old ∧ (G.din s'.blk (s'.itable ip).inum).type = type ∧
          (tree G s.blk (s'.itable ip).inum).type = 0 ∧
          (type ≠ T_DIR → can ∧ Anchored G base s'))

lemma createNew_ends (hroom : Room B G) {dp : Fin NINODE}
    (hc : Holding B G t base (one dp) {dp} ∅ 0 s) (hanchor : Anchored G base s)
    (hstop : ∀ m, stop m) (hdir : (G.din s.blk (s.itable dp).inum).type = T_DIR) {name : Name}
    (hnone : findEntry s.blk (G.din s.blk (s.itable dp).inum) name = none)
    {type : Int16} (major minor : Int16) {old : Prop} (hold : ¬ old) :
    Ends (Fits B) stop (createNew G t dp name type major minor) s
      (Created B G t base s type old
        (HasRoom G s.blk (s.itable dp).inum ∧ FreeInode G s.blk)) := by
  have hpos := one_pos base dp
  rw [createNew]
  refine (ialloc_ends hc (fun k hk => ?_) type (fun i => hroom.of_subset (i := i) (j := i) ?_ ?_)
    (.of_all hstop) (hstop _)).seq ?_
  · obtain rfl : k = dp := by
      by_contra hne
      rw [one_of_ne hne] at hk
      omega
    rw [hdir]
    exact T_DIR_ne_zero
  · rw [Finset.empty_union]
    exact Finset.subset_union_right
  · omega
  rintro (_ | ip) s1 h1
  · obtain ⟨rfl, hfull⟩ := h1
    refine (iunlockput_last hc hanchor).seq ?_
    rintro _ s2 ⟨hc2, hf2, hb2⟩
    exact .ret ⟨hf2, ⟨_, _, hc2⟩, by rw [hb2], fun _ h => hfull h.2⟩
  obtain ⟨hzero, hfree, hspace1, hc1, hf1, hblank, htree1⟩ := h1
  have hne : dp ≠ ip := by
    rintro rfl
    rw [one_self] at hzero
    omega
  obtain ⟨hposd, hposi⟩ := two_pos base dp ip
  set i := (s1.itable ip).inum with hi
  set j := (s1.itable dp).inum with hj
  have hij : j ≠ i := fun h => hne (hc1.inj dp ip hposd hposi h)
  have hdir1 : (tree G s1.blk j).type = T_DIR := by
    rw [htree1, setAt_of_ne _ _ hij, hj, hf1.inum dp hpos, ← hc.type_eq hpos]
    exact hdir
  have hc1' : Holding B G t base (one dp + one ip) {dp} (inodeBlocks G i j) 0 s1 := by
    refine hc1.mono ?_ le_rfl (hroom.of_subset subset_rfl (by omega))
    rw [Finset.empty_union, Finset.singleton_subset_iff]
    exact left_mem_inodeBlocks G i j
  refine (ilock_ends hc1' hposi (fun _ => hstop _) fun _ => hstop _).seq ?_
  rintro _ s2 ⟨hc2, hf2, hb2, hnot, -⟩
  obtain ⟨hin, hdin⟩ := mem_pair ip dp
  have hi2 : (s2.itable ip).inum = i := hf2.inum ip hposi
  have hj2 : (s2.itable dp).inum = j := hf2.inum dp hposd
  have hiK : G.IBLOCK (s2.itable ip).inum ∈ inodeBlocks G i j := by
    rw [hi2]
    exact left_mem_inodeBlocks G i j
  refine (change_ends hc2 hin (fun d => { d with major := major, minor := minor, nlink := 1 })
    (fun _ => ⟨rfl, rfl, rfl⟩) hiK (.of_all hstop)).seq ?_
  rintro _ s3 ⟨hc3, hf3, hi3, htree3, hspace3⟩
  have hf3' : Frame (base + (one dp + one ip)) s1 s3 := hf2.trans hf3
  have hfb3 : Frame base s s3 := hf1.left.trans hf3'.left
  rw [hi2, hb2, htree1, setAt_self, setAt_setAt] at htree3
  have hanchor3 : Anchored G base s3 := by
    refine hanchor.of_setAt hfb3 htree3 fun _ h => ?_
    exact absurd (show (1 : Int16) = 0 from h) (by decide)
  have hdir3 : (tree G s3.blk j).type = T_DIR := by
    rw [htree1, setAt_of_ne _ _ hij] at hdir1
    rw [htree3, setAt_of_ne _ _ hij]
    exact hdir1
  have htype3 : (tree G s3.blk i).type = type := by rw [htree3, setAt_self]
  refine (createEntries_ends hroom hne hc3 ((hi3 ip).trans hi2) ((hi3 dp).trans hj2) hanchor3 hstop
    hdir3 htype3 name).seq ?_
  -- the room in the parent is what it was at the start
  have hspace : SameSpace G i s.blk s3.blk := by
    rw [hi2, hb2] at hspace3
    exact hspace1.trans hspace3
  have hjs : j = (s.itable dp).inum := hf1.inum dp hpos
  have hjlt : j < G.ninodes := hjs ▸ hc.lt dp hpos
  have halive : (G.din s.blk j).type ≠ 0 := by
    rw [hjs, hdir]
    exact T_DIR_ne_zero
  have hroomiff := hspace.hasRoom_iff hjlt hij halive
  have hnone3 : findEntry s3.blk (G.din s3.blk j) name = none := by
    rw [findEntry_congr (by rw [hspace.others.din j hjlt hij])
      (hspace.others.content_eq hjlt hij halive), hjs]
    exact hnone
  rw [← hjs]
  rintro (_ | _) s4 ⟨hc4, hf4, htype4, hundo, hanchor4, hmade⟩
  · -- the new inode is freed again
    have hi4 : (s4.itable ip).inum = i := by
      rw [hf4.inum ip hposi, hi3, hi2]
    obtain ⟨x, htree4⟩ := hundo rfl
    refine (change_ends hc4 hin (fun d => { d with nlink := 0 }) (fun _ => ⟨rfl, rfl, rfl⟩)
      (by rw [hi4]; exact left_mem_inodeBlocks G i j) (.of_all hstop)).seq ?_
    rintro _ s5 ⟨hc5, hf5, hi5, htree5, -⟩
    rw [hi4] at htree5
    have hi5' : (s5.itable ip).inum = i := (hi5 ip).trans hi4
    have hnlink5 : (G.din s5.blk (s5.itable ip).inum).nlink = 0 := by
      have h := congrArg Node.nlink (hc5.tree_eq hposi)
      rw [hi5', htree5, setAt_self] at h
      rw [hi5']
      exact h.symm
    refine (iunlockput_ends hc5 hin (bitmap_subset G i j)
      (by rw [hi5']; exact left_mem_inodeBlocks G i j) (.of_all hstop)).seq ?_
    rintro _ s6 ⟨hc6, hf6, -, hcase⟩
    rw [Finset.erase_insert hnot] at hc6
    have htree6 : tree G s6.blk = tree G s.blk := by
      rcases hcase with ⟨-, hkeep⟩ | hfreed
      · exact absurd (hkeep hnlink5) (by omega)
      · rw [hfreed, hi5', htree5, htree4, htree3, setAt_setAt, setAt_setAt, setAt_setAt, ← hblank,
          setAt_eq_self]
    have hf6' : Frame base s s6 :=
      hfb3.trans (hf4.left.trans (hf5.left.trans hf6.left))
    refine (iunlockput_last hc6 (hanchor.of_tree_eq hf6' htree6)).seq ?_
    rintro _ s7 ⟨hc7, hf7, hb7⟩
    refine .ret ⟨hf6'.trans hf7, ⟨_, _, hc7⟩, by rw [hb7, htree6], fun hT h => ?_⟩
    exact Bool.false_ne_true ((hmade hT hnone3).2 (hroomiff.2 h.1))
  · refine Ends.seq (P := fun _ s' =>
      Holding B G t base (one dp + one ip) (insert ip {dp}) (inodeBlocks G i j) 6 s' ∧
      Frame (base + (one dp + one ip)) s4 s' ∧ (tree G s'.blk i).type = type ∧
      (type ≠ T_DIR → Anchored G base s')) ?_ ?_
    · refine Ends.when (fun hT => ?_) fun _ => ⟨hc4, .refl _ _, htype4, fun _ => hanchor4⟩
      have hj4 : (s4.itable dp).inum = j := by
        rw [hf4.inum dp hposd, hi3, hj2]
      refine (change_ends hc4 hdin (fun d => { d with nlink := d.nlink + 1 })
        (fun _ => ⟨rfl, rfl, rfl⟩) (by rw [hj4]; exact right_mem_inodeBlocks G i j)
        (.of_all hstop)).mono ?_
      rintro _ s5 ⟨hc5, hf5, -, htree5, -⟩
      refine ⟨hc5, hf5, ?_, absurd hT⟩
      rw [htree5, hj4, setAt_of_ne _ _ hij.symm]
      exact htype4
    rintro _ s5 ⟨hc5, hf5, htype5, hanchor5⟩
    have hf5' : Frame (base + (one dp + one ip)) s1 s5 := hf3'.trans (hf4.trans hf5)
    have hj5 : (s5.itable dp).inum = j := hf5'.inum dp hposd
    have hi5 : (s5.itable ip).inum = i := hf5'.inum ip hposi
    rw [add_comm] at hc5
    refine (iunlockput_ends hc5 hdin (bitmap_subset G i j)
      (by rw [hj5]; exact right_mem_inodeBlocks G i j) (.of_all hstop)).seq ?_
    rintro _ s6 ⟨hc6, hf6, hi6, hcase⟩
    rw [erase_pair hne] at hc6
    have hi6' : (s6.itable ip).inum = i := (hi6 ip).trans hi5
    have htype6 : (tree G s6.blk i).type = type := by
      rcases hcase with ⟨hb6, -⟩ | hfreed
      · rw [hb6]
        exact htype5
      · rw [hfreed, hj5, setAt_of_ne _ _ hij.symm]
        exact htype5
    refine .ret ⟨hf1.left.trans (hf5'.left.trans hf6.left), ⟨j, ?_⟩, Or.inr ⟨hold, ?_, ?_,
      fun hT => ⟨⟨hroomiff.1 ((hmade hT hnone3).1 rfl), hfree⟩, ?_⟩⟩⟩
    · rw [hi6']
      exact hc6
    · rw [hc6.type_eq (one_pos base ip), hi6']
      exact htype6
    · rw [hi6', hblank]
      rfl
    · rcases hcase with ⟨hb6, -⟩ | hfreed
      · exact (hanchor5 hT).frame hf6.left hb6
      · exact (hanchor5 hT).of_setAt hf6.left hfreed fun h => absurd rfl h

/-- `create` can make the file `path`: its parent is a directory with room for an entry, in which
there is none of its name, and an inode is free. -/
def CanCreate (G : Geometry) (s : St N) (t : Fin N) (path : Path) : Prop :=
  pathOf G s t path = none ∧
    (∃ p, parentOf G s t path = some p ∧ HasRoom G s.blk p.1) ∧ FreeInode G s.blk

section

variable (hroom : Room B G) (hc : Holding B G t base 0 ∅ ∅ 0 s) (hr : Ready G t base s)

include hroom hc hr

section

variable (hstop : ∀ m, stop m) {path : Path} (h0 : 0 ∉ path)

include hstop h0

lemma create_ends (type : Int16) (major minor : Int16) :
    Ends (Fits B) stop (create G t path type major minor) s
      (Created B G t base s type (pathOf G s t path ≠ none) (CanCreate G s t path)) := by
  rw [create]
  refine (nameiparent_ends hc hr hstop h0 onStack).seq ?_
  rintro (_ | ⟨dp, name⟩) s1 ⟨hf1, hb1, h1⟩
  · refine .ret ⟨hf1, ⟨_, _, h1.1⟩, by rw [hb1], fun _ h => ?_⟩
    obtain ⟨p, hp, -⟩ := h.2.1
    rw [h1.2] at hp
    cases hp
  obtain ⟨hc1, hparent, hdir1, hpath⟩ := h1
  have hpos := one_pos base dp
  have hin : dp ∈ ({dp} : Finset (Fin NINODE)) := Finset.mem_singleton_self dp
  refine (ilock_first hc1 hpos hstop).seq ?_
  rintro _ s2 ⟨hc2, hf2, hb2, -⟩
  have hf2' := hf1.trans hf2.left
  have hanchor2 := hr.anchored.frame hf2' (hb2.trans hb1)
  rw [← hb2, ← hf2.inum dp hpos] at hdir1 hpath
  rw [← hf2.inum dp hpos] at hparent
  refine (dirlookup_ends hc2 hin hdir1 (fun _ => hstop _) (nameOf name)).seq ?_
  rintro (_ | ⟨ip, off⟩) s3 h3
  · obtain ⟨hnone, rfl⟩ := h3
    rw [hnone] at hpath
    have hcan : CanCreate G s t path ↔
        HasRoom G s3.blk (s3.itable dp).inum ∧ FreeInode G s3.blk := by
      rw [CanCreate, hparent, hb2, hb1]
      simp only [Option.some.injEq, exists_eq_left']
      exact and_iff_right hpath
    rw [propext hcan]
    refine (createNew_ends hroom hc2 hanchor2 hstop hdir1 hnone major minor
      (not_not.2 hpath)).mono ?_
    rintro r s4 ⟨hf4, hr4⟩
    refine ⟨hf2'.trans hf4, ?_⟩
    rw [hb2, hb1] at hr4 ⊢
    exact hr4
  · obtain ⟨i, hfind, hc3, hf3, hb3, hi3, -⟩ := h3
    have hsome : pathOf G s t path ≠ none := by
      rw [hpath, hfind]
      exact Option.some_ne_none i
    have hanchor3 := hanchor2.frame hf3.left hb3
    rw [add_comm] at hc3
    refine (iunlockput_anchored hc3 hin hanchor3).seq ?_
    rintro _ s4 ⟨hc4, hf4, hb4, -⟩
    rw [Finset.erase_singleton] at hc4
    have hposi := one_pos base ip
    refine (ilock_first hc4 hposi hstop).seq ?_
    rintro _ s5 ⟨hc5, hf5, hb5, -⟩
    have hf5' : Frame base s s5 := hf2'.trans (hf3.left.trans (hf4.left.trans hf5.left))
    have hb5' : s5.blk = s.blk := hb5.trans (hb4.trans (hb3.trans (hb2.trans hb1)))
    refine (inodeOf_ends hc5 (Finset.mem_singleton_self ip)).seq ?_
    rintro _ s5 ⟨rfl, rfl⟩
    split
    · refine .ret ⟨hf5', ⟨(s5.itable ip).inum, ?_⟩, Or.inl ⟨hb5', hsome⟩⟩
      exact hc5.mono (Finset.empty_subset _) (by omega) (hroom.of_subset subset_rfl le_rfl)
    · refine (iunlockput_last hc5 (hr.anchored.frame hf5' hb5')).seq ?_
      rintro _ s6 ⟨hc6, hf6, hb6⟩
      exact .ret ⟨hf5'.trans hf6, ⟨_, _, hc6⟩, by rw [hb6, hb5'], fun _ h => hsome h.1⟩

lemma mknod_ends (type : Int16) (major minor : Int16) :
    Ends (Fits B) stop (mknod G t path type major minor) s fun r s' =>
      Settled B G t base s (r = -1) s' := by
  rw [mknod]
  refine (create_ends hroom hc hr hstop h0 type major minor).seq ?_
  rintro (_ | ip) s1 ⟨hf1, h1⟩
  · exact .ret ⟨h1.1, hf1, fun _ => h1.2.1⟩
  obtain ⟨⟨j, hc1⟩, -⟩ := h1
  rw [← zero_add (one ip)] at hc1
  refine (iunlockput_ends hc1 (Finset.mem_singleton_self ip) (bitmap_subset G _ _)
    (left_mem_inodeBlocks G _ _) (.of_all hstop)).seq ?_
  rintro _ s2 ⟨hc2, hf2, -, -⟩
  rw [Finset.erase_singleton] at hc2
  exact .ret ⟨⟨_, _, hc2⟩, hf1.trans hf2.left, fun h => absurd h (by decide)⟩

/-! ## `open` -/

lemma openInode_ends (omode : UInt32) :
    Ends (Fits B) stop (openInode G t path omode) s
      (Created B G t base s T_FILE (omode &&& O_CREATE = 0 ∨ pathOf G s t path ≠ none)
        (omode &&& O_CREATE ≠ 0 ∧ CanCreate G s t path)) := by
  rw [openInode]
  by_cases hcreate : omode &&& O_CREATE = 0
  · rw [if_neg (not_not.2 hcreate)]
    refine (namei_ends hc hr hstop h0).seq ?_
    rintro (_ | ip) s1 ⟨hf1, hb1, hc1⟩
    · exact .ret ⟨hf1, ⟨_, _, hc1⟩, by rw [hb1], fun _ h => h.1 hcreate⟩
    refine (ilock_first hc1 (one_pos base ip) hstop).seq ?_
    rintro _ s2 ⟨hc2, hf2, hb2, -⟩
    have hf2' := hf1.trans hf2.left
    refine (inodeOf_ends hc2 (Finset.mem_singleton_self ip)).seq ?_
    rintro _ s2 ⟨rfl, rfl⟩
    split
    · refine (iunlockput_last hc2 (hr.anchored.frame hf2' (hb2.trans hb1))).seq ?_
      rintro _ s3 ⟨hc3, hf3, hb3⟩
      exact .ret ⟨hf2'.trans hf3, ⟨_, _, hc3⟩, by rw [hb3, hb2, hb1], fun _ h => h.1 hcreate⟩
    · refine .ret ⟨hf2', ⟨(s2.itable ip).inum, ?_⟩, Or.inl ⟨hb2.trans hb1, Or.inl hcreate⟩⟩
      exact hc2.mono (Finset.empty_subset _) (by omega) (hroom.of_subset subset_rfl le_rfl)
  · rw [if_pos hcreate]
    refine (create_ends hroom hc hr hstop h0 T_FILE 0 0).mono ?_
    rintro (_ | ip) s1 ⟨hf1, h1⟩
    · exact ⟨hf1, h1.1, h1.2.1, fun hT h => h1.2.2 hT h.2⟩
    · obtain ⟨hc1, ⟨hb1, hold⟩ | ⟨hnew, htype, hblank, hcan⟩⟩ := h1
      · exact ⟨hf1, hc1, Or.inl ⟨hb1, Or.inr hold⟩⟩
      · exact ⟨hf1, hc1, Or.inr ⟨not_or.2 ⟨hcreate, hnew⟩, htype, hblank, fun hT =>
          ⟨⟨hcreate, (hcan hT).1⟩, (hcan hT).2⟩⟩⟩

end

end

/-- The file table and the process's descriptors have room. -/
def TablesFree (t : Fin N) (s : St N) : Prop :=
  (∃ f, (s.ftable f).ref = 0) ∧ ∃ fd, (s.proc t).ofile fd = none

lemma St.dropFile_alloc {f : Fin NFILE} (hf : (s.ftable f).ref = 0)
    (hnone : (s.ftable f).type = .none) :
    St.dropFile f (s.setFile f { s.ftable f with ref := 1 }) =
      .ok (some { s.ftable f with ref := 1 }, s) := by
  have hfile : (s.setFile f { s.ftable f with ref := 1 }).ftable f =
      { s.ftable f with ref := 1 } := setAt_self _ _ _
  have hback : ({ s.ftable f with ref := 0, type := .none } : File) = s.ftable f := by
    rw [← hf, ← hnone]
  have hset : (s.setFile f { s.ftable f with ref := 1 }).setFile f (s.ftable f) = s := by
    show { s with ftable := setAt (setAt s.ftable f _) f (s.ftable f) } = s
    rw [setAt_setAt, setAt_eq_self]
  rw [St.dropFile, hfile]
  simp only [Nat.lt_irrefl, if_false, Nat.sub_self, hback, hset]

lemma filealloc_ends (hfits : Fits B s) :
    Ends (Fits B) stop (.atomic St.filealloc) s fun r s' =>
      match r with
      | none => s' = s ∧ ∀ f, (s.ftable f).ref ≠ 0
      | some f => (s.ftable f).ref = 0 ∧ s' = s.setFile f { s.ftable f with ref := 1 } := by
  refine Ends.atomic ?_
  rw [St.filealloc]
  cases hfind : (List.finRange NFILE).find? fun f => (s.ftable f).ref = 0 with
  | none =>
    refine ⟨hfits, rfl, fun f hf => ?_⟩
    exact List.find?_eq_none.1 hfind f (List.mem_finRange f) (decide_eq_true hf)
  | some f => exact ⟨hfits, by simpa using List.find?_some hfind, rfl⟩

lemma fdalloc_ends (hfits : Fits B s) (f : Fin NFILE) :
    Ends (Fits B) stop (.atomic (St.fdalloc t f)) s fun r s' =>
      match r with
      | none => s' = s ∧ ∀ fd, (s.proc t).ofile fd ≠ none
      | some fd => (s.proc t).ofile fd = none ∧ s' = s.setFd t fd (some f) := by
  refine Ends.atomic ?_
  rw [St.fdalloc]
  cases hfind : (List.finRange NOFILE).find? fun fd => ((s.proc t).ofile fd).isNone with
  | none =>
    refine ⟨hfits, rfl, fun fd hfd => ?_⟩
    refine List.find?_eq_none.1 hfind fd (List.mem_finRange fd) ?_
    rw [hfd]
    rfl
  | some fd => exact ⟨hfits, by simpa using List.find?_some hfind, rfl⟩

lemma openFd_ends (hc : Holding B G t base own L K n s)
    (hunused : ∀ f, (s.ftable f).ref = 0 → (s.ftable f).type = .none) :
    Ends (Fits B) stop (openFd G t) s fun r s' =>
      match r with
      | none => s' = s ∧ ¬ TablesFree t s
      | some (f, fd) => (s.ftable f).ref = 0 ∧ (s.proc t).ofile fd = none ∧
        s' = (s.setFile f { s.ftable f with ref := 1 }).setFd t fd (some f) := by
  rw [openFd]
  refine (filealloc_ends hc.toFits).seq ?_
  rintro (_ | f) s1 h1
  · exact .ret ⟨h1.1, fun h => h.1.elim h1.2⟩
  obtain ⟨hf, hs1⟩ := h1
  have hproc : s1.proc = s.proc := by rw [hs1]; rfl
  refine (fdalloc_ends (by rw [hs1]; exact hc.toFits) f).seq ?_
  rw [hproc]
  rintro (_ | fd) s2 h2
  · -- the file has type `FD_NONE`, so `fileclose` only frees it
    obtain ⟨rfl, hfull⟩ := h2
    have hnone := hunused f hf
    have hdrop := St.dropFile_alloc hf hnone
    rw [← hs1] at hdrop
    refine Ends.seq (P := fun _ s' => s' = s) ?_ ?_
    · rw [fileclose]
      refine Ends.seq (P := fun r s' => r = some { s.ftable f with ref := 1 } ∧ s' = s)
        (Ends.atomic ?_) ?_
      · rw [hdrop]
        exact ⟨hc.toFits, rfl, rfl⟩
      · rintro _ s' ⟨rfl, rfl⟩
        have hno : ¬ File.HasInode { s'.ftable f with ref := 1 } := by
          rintro (h | h)
          · rw [show (s'.ftable f).type = _ from h] at hnone
            cases hnone
          · rw [show (s'.ftable f).type = _ from h] at hnone
            cases hnone
        show Ends _ _ (if File.HasInode { s'.ftable f with ref := 1 } then _ else _) _ _
        rw [if_neg hno]
        exact .ret rfl
    · rintro _ s' rfl
      exact .ret ⟨rfl, fun h => h.2.elim hfull⟩
  · refine .ret ⟨hf, h2.1, ?_⟩
    rw [h2.2, hs1]

/-- `sys_open` is going to make the file and then to find one of the tables full. -/
def MakesInVain (G : Geometry) (s : St N) (t : Fin N) (path : Path) (omode : UInt32) : Prop :=
  (omode &&& O_CREATE ≠ 0 ∧ CanCreate G s t path) ∧ ¬ TablesFree t s

/-- `sys_open` between `begin_op` and `end_op`.  If it fails nothing has changed, unless it has
made the file and then found one of the tables full: then an inode has got another type. -/
lemma open_ends (hroom : Room B G) (hc : Holding B G t base 0 ∅ ∅ 0 s) (hr : Ready G t base s)
    (hstop : ∀ m, stop m) (hunused : ∀ f, (s.ftable f).ref = 0 → (s.ftable f).type = .none)
    {path : Path} (h0 : 0 ∉ path) (omode : UInt32) :
    Ends (Fits B) stop («open» G t path omode) s fun r s' =>
      (∃ own K n, Holding B G t base own ∅ K n s') ∧ s'.log = { s.log with lh := s'.log.lh } ∧
      (r = -1 →
        ¬ MakesInVain G s t path omode ∧ Frame base s s' ∧ tree G s'.blk = tree G s.blk ∨
        MakesInVain G s t path omode ∧ ∃ i, (tree G s'.blk i).type ≠ (tree G s.blk i).type) := by
  rw [«open»]
  refine (openInode_ends hroom hc hr hstop h0 omode).seq ?_
  rintro (_ | ip) s1 ⟨hf1, h1⟩
  · obtain ⟨⟨K, n, hc1⟩, htree1, hcannot⟩ := h1
    exact .ret ⟨⟨0, K, n, hc1⟩, by rw [hf1.rest], fun _ =>
      Or.inl ⟨fun h => hcannot (by decide) h.1, hf1, htree1⟩⟩
  obtain ⟨⟨j, hc1⟩, hcase⟩ := h1
  have hpos := one_pos base ip
  have hin : ip ∈ ({ip} : Finset (Fin NINODE)) := Finset.mem_singleton_self ip
  have hanchor1 : Anchored G base s1 := by
    rcases hcase with ⟨hblk, -⟩ | ⟨-, -, -, hcan⟩
    · exact hr.anchored.frame hf1 hblk
    · exact (hcan (by decide)).2
  -- giving the inode back
  have hback : Ends (Fits B) stop (do iunlockput G t ip; pure (-1)) s1 fun r s' =>
      (∃ own K n, Holding B G t base own ∅ K n s') ∧ s'.log = { s.log with lh := s'.log.lh } ∧
      (r = -1 → Frame base s s' ∧ s'.blk = s1.blk) := by
    refine (iunlockput_last hc1 hanchor1).seq ?_
    rintro _ s2 ⟨hc2, hf2, hb2⟩
    exact .ret ⟨⟨0, _, _, hc2⟩, by rw [(hf1.trans hf2).rest], fun _ => ⟨hf1.trans hf2, hb2⟩⟩
  refine (inodeOf_ends hc1 hin).seq ?_
  rintro _ s1 ⟨rfl, rfl⟩
  have hold : ∀ {s' : St N}, s'.blk = s1.blk → s1.blk = s.blk → tree G s'.blk = tree G s.blk := by
    intro s' h h'
    rw [h, h']
  have hnot : omode &&& O_CREATE = 0 ∨ pathOf G s t path ≠ none →
      ¬ MakesInVain G s t path omode :=
    fun h hvain => h.elim hvain.1.1 fun h => h hvain.1.2.1
  split
  · -- a bad device is not a new file
    rename_i hdev
    refine hback.mono fun r s' h => ⟨h.1, h.2.1, fun hfail => ?_⟩
    obtain ⟨hf, hb⟩ := h.2.2 hfail
    rcases hcase with ⟨hblk, hwas⟩ | ⟨-, hfile, -, -⟩
    · exact Or.inl ⟨hnot hwas, hf, hold hb hblk⟩
    · rw [hfile] at hdev
      exact absurd hdev.1 (by decide)
  have hunused1 : ∀ f, (s1.ftable f).ref = 0 → (s1.ftable f).type = .none := by
    rw [hf1.ftable]
    exact hunused
  refine (openFd_ends hc1 hunused1).seq ?_
  rintro (_ | ⟨f, fd⟩) s2 h2
  · obtain ⟨rfl, hfull⟩ := h2
    refine hback.mono fun r s' h => ⟨h.1, h.2.1, fun hfail => ?_⟩
    obtain ⟨hf, hb⟩ := h.2.2 hfail
    rcases hcase with ⟨hblk, hwas⟩ | ⟨-, hfile, hblank, hcan⟩
    · exact Or.inl ⟨hnot hwas, hf, hold hb hblk⟩
    · rw [TablesFree, hf1.ftable, hf1.proc] at hfull
      refine Or.inr ⟨⟨(hcan (by decide)).1, hfull⟩, (s2.itable ip).inum, ?_⟩
      rw [hb, ← hc1.type_eq hpos, hfile, hblank]
      decide
  obtain ⟨-, -, hs2⟩ := h2
  have hkeep : ∀ s' : St N, s'.blk = s1.blk → s'.itable = s1.itable → s'.log = s1.log →
      Holding B G t base (one ip) {ip} (inodeBlocks G (s1.itable ip).inum j) 6 s' := by
    intro s' hblk htab hlog
    exact hc1.congr hblk htab (hlog ▸ hc1.log) hc1.fits
  have hc2 := hkeep s2 (by rw [hs2]; rfl) (by rw [hs2]; rfl) (by rw [hs2]; rfl)
  have hlog2 : s2.log = { s.log with lh := s2.log.lh } := by
    rw [hs2]
    show s1.log = { s.log with lh := s1.log.lh }
    rw [hf1.rest]
  refine Ends.seq (P := fun _ s' =>
    Holding B G t base (one ip) {ip} (inodeBlocks G (s'.itable ip).inum j) 6 s' ∧
    s'.log = { s.log with lh := s'.log.lh }) (Ends.modify hc2.toFits ?_) ?_
  · refine ⟨?_, hlog2⟩
    have htab : (s2.setFile f (openedFile (s2.ftable f) ip
        (G.din s1.blk (s1.itable ip).inum) omode)).itable = s1.itable := by
      rw [hs2]
      rfl
    rw [htab]
    exact hkeep _ (by rw [hs2]; rfl) htab (by rw [hs2]; rfl)
  rintro _ s3 ⟨hc3, hlog3⟩
  refine Ends.seq (P := fun _ s' => ∃ K n, Holding B G t base (one ip) {ip} K n s' ∧
    s'.log = { s.log with lh := s'.log.lh }) ?_ ?_
  · refine Ends.when (fun _ => ?_) fun _ => ⟨_, _, hc3, hlog3⟩
    refine (inumOf_ends hc3).seq ?_
    rintro _ s3 ⟨rfl, rfl⟩
    refine (itrunc_ends hc3 hin (bitmap_subset G _ _) (left_mem_inodeBlocks G _ _)
      (.of_all hstop)).mono ?_
    rintro _ s4 ⟨hc4, hf4, -⟩
    refine ⟨_, _, hc4, ?_⟩
    rw [hf4.rest]
    show ({ s3.log with lh := s4.log.lh } : Log) = { s.log with lh := s4.log.lh }
    rw [hlog3]
  rintro _ s4 ⟨K, n, hc4, hlog4⟩
  refine (iunlock_ends hc4 hin).seq ?_
  rintro _ s5 ⟨hc5, hf5, -, -⟩
  rw [Finset.erase_singleton] at hc5
  refine .ret ⟨⟨_, _, _, hc5⟩, ?_, fun h => absurd h ?_⟩
  · rw [hf5.rest]
    show ({ s4.log with lh := s5.log.lh } : Log) = { s.log with lh := s5.log.lh }
    rw [hlog4]
  · have : (0 : ℤ) ≤ (fd.val : ℤ) := Int.natCast_nonneg _
    omega

end Xv6.Fs
