import Xv6.Mkfs.Image

/-!
# The image that `mkfs` leaves

After the files are in place `main` rounds the size of the root directory up to whole blocks and
writes the bitmap.  The rounding adds a block even if the entries fill their last block, and then
the root is a block longer than it has blocks (`Finished.not_imageOk`; `mkfs_root_hole` is an
example).  Nor does anything check the number of files against the number of inodes, so that the
200th inode is handed out like the others.

These two are all that can go wrong: an image that `mkfs` leaves is as it should be (`ImageOk`)
exactly if there are at most 198 files and their entries, with `.` and `..`, do not fill whole
blocks (`mkfs_image_ok`).  Then it is also a consistent disk in the sense of `Fs/Contents.lean`,
from which the results about the kernel start.
-/

namespace Xv6.Mkfs

open Concur Concur.Bytes Fs

/-! ## The files that `main` is asked for -/

/-- The checks on one argument. -/
def Input.Ok (f : Input) : Prop :=
  47 ∉ f.shortname ∧ f.chunks.isSome = true ∧ f.name.length ≤ DIRSIZ

instance (f : Input) : Decidable f.Ok := inferInstanceAs (Decidable (_ ∧ _ ∧ _))

/-- The file for an argument. -/
def Input.file (f : Input) : FileData := ⟨T_FILE, (f.chunks.getD []).flatten⟩

/-- The directory entries for the arguments, when the first gets the inode `i`. -/
def entries : ℕ → List Input → List UInt8
  | _, [] => []
  | i, f :: fs => direntList i f.name ++ entries (i + 1) fs

/-- The first two entries of the root directory. -/
def rootStart : List UInt8 := direntList ROOTINO dot ++ direntList ROOTINO dotdot

/-- The files of the image, the root directory first. -/
def layout (files : List Input) : List FileData :=
  ⟨T_DIR, rootStart ++ entries 2 files⟩ :: files.map Input.file

@[simp] lemma length_direntList (i : ℕ) (name : Name) : (direntList i name).length = 16 := by
  simp [direntList]

lemma length_entries (i : ℕ) (files : List Input) :
    (entries i files).length = 16 * files.length := by
  induction files generalizing i with
  | nil => rfl
  | cons f files ih =>
    rw [entries, List.length_append, ih, length_direntList, List.length_cons]
    omega

lemma entries_concat (i : ℕ) (files : List Input) (f : Input) :
    entries i (files ++ [f]) = entries i files ++ direntList (i + files.length) f.name := by
  induction files generalizing i with
  | nil => simp [entries]
  | cons g files ih =>
    rw [List.cons_append, entries, ih, entries, List.append_assoc, List.length_cons]
    congr 3
    omega

lemma layout_pos (files : List Input) : 0 < (layout files).length := Nat.succ_pos _

lemma length_root (files : List Input) :
    (rootStart ++ entries 2 files).length = 16 * (files.length + 2) := by
  rw [List.length_append, length_entries, rootStart, List.length_append, length_direntList,
    length_direntList]
  omega

/-! ## The parts of `main` -/

section Parts

variable {s : Img} {fs : List FileData}

lemma copy_spec (h : Holds s fs) {k : ℕ} (hk : k < fs.length) (chunks : List (List UInt8)) :
    Runs (Fits (fs.set k (fs[k].append chunks.flatten))) (chunks.forM (iappend (k + 1)))
      (fun _ s' => Holds s' (fs.set k (fs[k].append chunks.flatten))) s := by
  refine Runs.forM (F := fun done => Fits (fs.set k (fs[k].append done.flatten)))
    (I := fun done s => Holds s (fs.set k (fs[k].append done.flatten)))
    (fun done p rest _ hf => ?_) (fun done p rest s _ _ hs => ?_) ?_ ?_
  · refine hf.set_mono hk ?_
    simp only [FileData.append, List.flatten_append, List.length_append]
    omega
  · have hk' : k < (fs.set k (fs[k].append done.flatten)).length := by simpa using hk
    have hspec := iappend_spec hs hk' p
    simp only [List.getElem_set_self, List.set_set, append_append] at hspec
    simp only [List.flatten_append, List.flatten_singleton]
    exact hspec.mono fun _ _ h => h.1
  · rw [List.flatten_nil, append_nil, List.set_getElem_self]
    exact h.rep.fits
  · rw [List.flatten_nil, append_nil, List.set_getElem_self]
    exact h

lemma makeRoot_spec (h : Holds s []) :
    ∃ s', makeRoot s = some (ROOTINO, s') ∧ Holds s' [⟨T_DIR, rootStart⟩] := by
  obtain ⟨s1, hrun1, h1, -⟩ := ialloc_spec h (by decide) (t := T_DIR) (by decide)
  obtain ⟨_, s2, hrun2, h2, -⟩ := (iappend_spec h1 (k := 0) (by decide)
    (direntList ROOTINO dot)).1 ⟨by decide, by decide⟩
  obtain ⟨_, s3, hrun3, h3, -⟩ := (iappend_spec h2 (k := 0) (by decide)
    (direntList ROOTINO dotdot)).1 ⟨by decide, by decide⟩
  refine ⟨s3, ?_, h3⟩
  have hassert : (assert (ROOTINO = ROOTINO) : Mk Unit) s1 = some ((), s1) := by
    rw [assert, if_pos rfl]
    rfl
  have hroot : ialloc T_DIR s = some (ROOTINO, s1) := hrun1
  rw [makeRoot, bind_apply, hroot, Option.bind_some, bind_apply, hassert, Option.bind_some,
    bind_apply]
  change (iappend (0 + 1) _ s1).bind _ = _
  rw [hrun2, Option.bind_some, bind_apply]
  change (iappend (0 + 1) _ s2).bind _ = _
  rw [hrun3]
  rfl

lemma addFile_spec {D : List UInt8} {L : List FileData} (h : Holds s (⟨T_DIR, D⟩ :: L))
    (hcount : L.length + 2 < NINODES) (f : Input) :
    Runs (f.Ok ∧ Fits (⟨T_DIR, D ++ direntList (L.length + 2) f.name⟩ :: (L ++ [f.file])))
      (addFile ROOTINO f)
      (fun _ s' => Holds s' (⟨T_DIR, D ++ direntList (L.length + 2) f.name⟩ :: (L ++ [f.file])))
      s := by
  rw [addFile]
  refine Runs.assert_bind (fun hF => hF.1.1) fun h1 => ?_
  refine Runs.assert_bind (fun hF => hF.1.2.1) fun h2 => ?_
  refine Runs.assert_bind (fun hF => hF.1.2.2) fun h3 => ?_
  obtain ⟨s1, hrun1, hs1, -⟩ := ialloc_spec h hcount (t := T_FILE) (by decide)
  refine Runs.seq hrun1 ?_
  -- the files after the entry is in the root directory
  obtain ⟨M, hM⟩ : ∃ M : List FileData,
      M = ⟨T_DIR, D ++ direntList (L.length + 2) f.name⟩ :: (L ++ [⟨T_FILE, []⟩]) := ⟨_, rfl⟩
  have hlt : L.length + 1 < M.length := by simp [hM]
  have hlast : M[L.length + 1] = ⟨T_FILE, []⟩ := by simp [hM]
  have hcopied : (⟨T_DIR, D ++ direntList (L.length + 2) f.name⟩ :: (L ++ [f.file])) =
      M.set (L.length + 1) (M[L.length + 1].append (f.chunks.getD []).flatten) := by
    rw [hlast, hM, List.set_cons_succ, List.set_append_right _ _ le_rfl, Nat.sub_self,
      List.set_cons_zero]
    rfl
  rw [hcopied]
  have hspec : Runs (Fits M) (iappend ROOTINO (direntList (L.length + 2) f.name))
      (fun _ s' => Holds s' M ∧ Others sb ROOTINO s1.image s'.image) s1 := by
    rw [hM]
    exact iappend_spec hs1 (k := 0) (Nat.succ_pos _) _
  refine hspec.bind (fun hF => ?_) fun _ s2 _ hs2 => ?_
  · have hshort := hF.2.set_mono hlt (f := M[L.length + 1]) (by simp [FileData.append])
    rwa [List.set_getElem_self] at hshort
  · exact (copy_spec hs2.1 hlt _).of_iff (and_iff_right ⟨h1, h2, h3⟩)

lemma addFiles_spec (h : Holds s [⟨T_DIR, rootStart⟩]) {files : List Input}
    (hcount : files.length + 1 < NINODES) :
    Runs ((∀ f ∈ files, f.Ok) ∧ Fits (layout files)) (files.forM (addFile ROOTINO))
      (fun _ s' => Holds s' (layout files)) s := by
  have hlayout : ∀ done f, layout (done ++ [f]) = ⟨T_DIR, (rootStart ++ entries 2 done) ++
      direntList ((done.map Input.file).length + 2) f.name⟩ ::
        (done.map Input.file ++ [f.file]) := by
    intro done f
    rw [layout, entries_concat, List.map_append, List.append_assoc, List.length_map,
      Nat.add_comm 2]
    rfl
  have hnil : layout [] = [⟨T_DIR, rootStart⟩] := by
    rw [layout, entries, List.append_nil]
    rfl
  refine Runs.forM (F := fun done => (∀ f ∈ done, f.Ok) ∧ Fits (layout done))
    (I := fun done s => Holds s (layout done)) (fun done f rest _ hF => ?_)
    (fun done f rest s hl hF hs => ?_) ?_ ?_
  · refine ⟨fun g hg => hF.1 g (List.mem_append_left _ hg), ?_⟩
    have hfit := hF.2
    rw [hlayout, ← List.cons_append] at hfit
    have hpos : 0 < (layout done).length := Nat.succ_pos _
    exact Fits.set_mono hpos hfit.of_append (by simp)
  · have hlen : (done.map Input.file).length + 2 < NINODES := by
      rw [hl, List.length_append, List.length_cons] at hcount
      rw [List.length_map]
      omega
    simp only [hlayout]
    refine (addFile_spec hs hlen f).of_iff (and_congr_left fun _ => ?_)
    exact ⟨fun hok => hok f (by simp), fun hok g hg => (List.mem_append.1 hg).elim (hF.1 g)
      fun hg => List.mem_singleton.1 hg ▸ hok⟩
  · rw [hnil]
    exact ⟨fun f hf => absurd hf List.not_mem_nil, h.rep.fits⟩
  · rw [hnil]
    exact h

/-- What `main` leaves, as far as it ends: the image holds the files, only the root directory
has another size. -/
structure Finished (s : Img) (fs : List FileData) : Prop where
  rep : Rep s (sb.din s.disk) fs
  image : s.image = s.disk
  root : ∀ h : 0 < fs.length, (sb.din s.disk ROOTINO).size.toNat =
    (fs[0].data.length / BSIZE + 1) * BSIZE
  size : ∀ k (hk : k < fs.length), k ≠ 0 →
    (sb.din s.disk (k + 1)).size.toNat = fs[k].data.length

lemma finish_spec (h : Holds s fs) (h0 : 0 < fs.length) :
    ∃ s', finish ROOTINO s = some ((), s') ∧ Finished s' fs := by
  have hopen : Rep s ((s.ctx (sb.din s.image (0 + 1))).ino sb (0 + 1)) fs := by
    rw [Ictx.ino_eq_din (by rfl)]
    exact h.rep
  have hroot : ROOTINO < NINODES := by decide
  have hlen := h.rep.tidy.len
  obtain ⟨x, hx⟩ : ∃ x, x = sb.din s.image ROOTINO := ⟨_, rfl⟩
  obtain ⟨y, hy⟩ : ∃ y : Dinode,
      y = { x with size := UInt32.ofNat ((fs[0].data.length / BSIZE + 1) * BSIZE) } := ⟨_, rfl⟩
  obtain ⟨hrep, -⟩ := hopen.store h0 (y := y) (by rw [hy, hx]; rfl) (by rw [hy, hx]; rfl)
  obtain ⟨s1, hs1⟩ : ∃ s1, s1 = s.putInode ROOTINO y := ⟨_, rfl⟩
  have hrep1 : Rep s1 (sb.din s1.image) fs := by
    rw [hs1]
    exact hrep
  obtain ⟨s2, hs2⟩ : ∃ s2, s2 = s1.put sb.bmapstart (marks s1.freeblock) := ⟨_, rfl⟩
  have hdisk : s2.disk = s1.image := by
    rw [hs2]
    rfl
  have himage : s2.image = s2.disk := by
    rw [Img.image, hdisk, Img.image, hs2, Img.put_freeblock]
    funext b
    by_cases hb : b = sb.bmapstart
    · rw [hb, setAt_self, setAt_self]
    · rw [setAt_of_ne _ _ hb]
  have hdin : ∀ j, sb.din s2.disk j = if j = ROOTINO then y else sb.din s.image j := by
    intro j
    rw [hdisk, hs1, image_putInode hroot, Geometry.din_putDin]
  have hused : s1.freeblock < BPB := by
    have hle := hrep1.fits.used_le
    rw [FSSIZE_eq] at hle
    rw [hrep1.freeblock, BPB_eq]
    omega
  refine ⟨s2, ?_, ⟨?_, himage, fun _ => ?_, fun k hk hk0 => ?_⟩⟩
  · have hread : rinode ROOTINO s = some (x, s) := by
      rw [rinode_eq hroot hlen, hx, din_image hroot]
    have hwrite : winode ROOTINO y s = some ((), s1) := by
      rw [winode_eq hroot hlen, hs1]
      rfl
    have hballoc : balloc s1.freeblock s1 = some ((), s2) := by
      have hassert : (assert (s1.freeblock < BPB) : Mk Unit) s1 = some ((), s1) := by
        rw [assert, if_pos hused]
        rfl
      rw [balloc, bind_apply, hassert, Option.bind_some, hs2]
      exact wsect_eq (by decide) hrep1.tidy.len _
    have hsize : x.size.toNat = fs[0].data.length := by
      rw [hx]
      exact h.size 0 h0
    rw [finish, bind_apply, hread, Option.bind_some, bind_apply]
    simp only [hsize, ← hy, hwrite, Option.bind_some]
    exact hballoc
  · have htidy : s2.Tidy := by
      refine ⟨by rw [hs2]; exact hrep1.tidy.len, by rw [hs2]; exact hrep1.tidy.lo,
        fun b hb => ?_⟩
      rw [hs2, Img.put_freeblock] at hb
      rw [hdisk, image_of_data (hrep1.tidy.lo.trans hb), hrep1.tidy.zero b hb]
    have hsame : s2.image = s1.image := himage.trans hdisk
    rw [hdisk]
    exact ⟨htidy, by rw [hs2]; exact hrep1.freeinode, hrep1.count,
      by rw [hs2]; exact hrep1.freeblock, hrep1.fits, by rw [hsame]; exact hrep1.owned,
      by rw [hsame]; exact hrep1.file, hrep1.unused⟩
  · rw [hdin, if_pos rfl, hy, UInt32.toNat_ofNat']
    have hle := h.rep.fits.size_le _ (List.getElem_mem h0)
    rw [MAXFILE_eq] at hle
    rw [BSIZE_eq] at *
    exact Nat.mod_eq_of_lt (by omega)
  · have hne : k + 1 ≠ ROOTINO := fun heq => hk0 (Nat.succ.inj heq)
    rw [hdin, if_neg hne]
    exact h.size k hk

/-- `main` ends exactly when the arguments pass the checks and the files fit. -/
lemma main_spec {files : List Input} (hcount : files.length + 1 < NINODES) :
    Runs ((∀ f ∈ files, f.Ok) ∧ Fits (layout files)) (main files)
      (fun _ s => Finished s (layout files)) start := by
  obtain ⟨s0, hrun0, h0⟩ := blank_spec
  obtain ⟨s1, hrun1, h1⟩ := makeRoot_spec h0
  rw [main]
  refine Runs.seq hrun0 (Runs.seq hrun1 ?_)
  refine (addFiles_spec h1 hcount).bind id fun _ s2 hF h2 => ?_
  obtain ⟨s3, hrun3, h3⟩ := finish_spec h2 (Nat.succ_pos _)
  exact (Runs.of_eq hrun3 h3).of_iff (iff_true_intro hF)

lemma mkfs_eq_some (files : List Input) (hcount : files.length + 1 < NINODES) :
    ((∀ f ∈ files, f.Ok) ∧ Fits (layout files) →
      ∃ s, mkfs files = some s ∧ Finished s (layout files)) ∧
    ∀ s, mkfs files = some s → Fits (layout files) ∧ Finished s (layout files) := by
  have hspec := main_spec hcount
  have hmkfs : mkfs files = (main files start).bind fun r => some r.2 := rfl
  refine ⟨fun hF => ?_, fun s hs => ?_⟩
  · obtain ⟨_, s, hrun, h⟩ := hspec.1 hF
    exact ⟨s, by rw [hmkfs, hrun, Option.bind_some], h⟩
  · by_cases hF : (∀ f ∈ files, f.Ok) ∧ Fits (layout files)
    · obtain ⟨_, t, hrun, h⟩ := hspec.1 hF
      rw [hmkfs, hrun, Option.bind_some] at hs
      obtain rfl := Option.some.inj hs
      exact ⟨hF.2, h⟩
    · rw [hmkfs, hspec.2 hF] at hs
      cases hs

end Parts

/-! ## The inode numbers in the root directory -/

lemma leByte_pair (i : ℕ) : (leByte i 0).toNat + 256 * (leByte i 1).toNat = i % 65536 := by
  rw [leByte, leByte, UInt8.toNat_ofNat', UInt8.toNat_ofNat']
  omega

lemma deInum_append (data : List UInt8) {m : ℕ} (hm : data.length = 16 * m) (i : ℕ) (name : Name)
    (k : ℕ) : deInum (fun r => (data ++ direntList i name).getD (16 * k + r) 0) =
      if k = m then i % 65536 else deInum fun r => data.getD (16 * k + r) 0 := by
  have hlen := length_direntList i name
  rcases lt_trichotomy k m with hlt | rfl | hgt
  · rw [if_neg hlt.ne, deInum, deInum, List.getD_append _ _ _ _ (by omega),
      List.getD_append _ _ _ _ (by omega)]
  · have hget : ∀ r, r < 2 → (data ++ direntList i name).getD (16 * k + r) 0 = leByte i r := by
      intro r hr
      rw [List.getD_append_right _ _ _ _ (by omega), hm, Nat.add_sub_cancel_left, direntList,
        List.getD_eq_getElem _ _ (by simp; omega), List.getElem_map, List.getElem_range,
        direntBytes, if_pos hr]
    rw [if_pos rfl, deInum, hget 0 (by decide), hget 1 (by decide), leByte_pair]
  · rw [if_neg hgt.ne', deInum, deInum, List.getD_eq_default _ _ (by simp; omega),
      List.getD_eq_default _ _ (by simp; omega), List.getD_eq_default _ _ (by omega),
      List.getD_eq_default _ _ (by omega)]

lemma deInum_root (files : List Input) (k : ℕ) :
    deInum (fun r => (rootStart ++ entries 2 files).getD (16 * k + r) 0) ≤ files.length + 1 := by
  induction files using List.reverseRecOn with
  | nil =>
    have h1 := deInum_append [] (m := 0) rfl ROOTINO dot k
    have h2 := deInum_append (direntList ROOTINO dot) (m := 1) (by simp) ROOTINO dotdot k
    rw [List.nil_append] at h1
    rw [entries, List.append_nil, rootStart, h2, h1]
    have h0 : deInum (fun r => ([] : List UInt8).getD (16 * k + r) 0) = 0 := rfl
    rw [h0]
    split_ifs <;> decide
  | append_singleton files f ih =>
    rw [entries_concat, ← List.append_assoc, deInum_append _ (length_root files),
      List.length_append, List.length_singleton]
    split
    · have := Nat.mod_le (2 + files.length) 65536
      omega
    · omega

/-! ## How many inodes are handed out

Whatever the files are, also if there are more of them than inodes. -/

section Count

lemma wsect_adds (sec : ℕ) (buf : Block) : Adds Img.freeinode 0 (wsect sec buf) :=
  .modify fun _ => rfl

lemma rsect_adds (sec : ℕ) : Adds Img.freeinode 0 (rsect sec) :=
  Adds.get.bind fun _ => (Adds.assert _).bind fun _ => .pure _

lemma winode_adds (inum : ℕ) (x : Dinode) : Adds Img.freeinode 0 (winode inum x) :=
  (rsect_adds _).bind fun _ => wsect_adds _ _

lemma rinode_adds (inum : ℕ) : Adds Img.freeinode 0 (rinode inum) :=
  (rsect_adds _).bind fun _ => .pure _

lemma nextInode_adds : Adds Img.freeinode 1 nextInode := by
  intro s a s' h
  cases h
  rfl

lemma nextBlock_adds : Adds Img.freeinode 0 nextBlock := by
  intro s a s' h
  cases h
  rfl

lemma ialloc_adds (type : Int16) : Adds Img.freeinode 1 (ialloc type) :=
  nextInode_adds.bind fun _ => (winode_adds _ _).bind fun _ => .pure _

lemma blockFor_adds (x : Dinode) (fbn : ℕ) : Adds Img.freeinode 0 (blockFor x fbn) := by
  have hfill : ∀ k, Adds Img.freeinode 0 (fillAddr x k) := by
    intro k
    unfold fillAddr
    split
    · exact nextBlock_adds.bind fun _ => .pure _
    · exact .pure _
  have hentry : ∀ b buf j, Adds Img.freeinode 0 (fillEntry b buf j) := by
    intro b buf j
    unfold fillEntry
    split
    · exact nextBlock_adds.bind fun _ => (wsect_adds _ _).bind fun _ => .pure _
    · exact .pure _
  unfold blockFor
  split
  · exact (hfill _).bind fun _ => .pure _
  · exact (hfill _).bind fun _ => (rsect_adds _).bind fun _ => (hentry _ _ _).bind fun _ => .pure _

lemma appendFrom_adds (fuel : ℕ) (x : Dinode) (off : ℕ) (p : List UInt8) :
    Adds Img.freeinode 0 (appendFrom fuel x off p) := by
  induction fuel generalizing x off p with
  | zero => exact .pure _
  | succ fuel ih =>
    rw [appendFrom]
    split
    · exact .pure _
    · refine Adds.bind (k := 0) ?_ fun x => ih x _ _
      exact (Adds.assert _).bind fun _ => (blockFor_adds _ _).bind fun r =>
        (rsect_adds r.1).bind fun _ => (wsect_adds _ _).bind fun _ => .pure _

lemma iappend_adds (inum : ℕ) (p : List UInt8) : Adds Img.freeinode 0 (iappend inum p) :=
  (rinode_adds _).bind fun _ => (appendFrom_adds _ _ _ _).bind fun _ => winode_adds _ _

lemma addFile_adds (rootino : ℕ) (f : Input) : Adds Img.freeinode 1 (addFile rootino f) :=
  (Adds.assert _).bind fun _ => (Adds.assert _).bind fun _ => (Adds.assert _).bind fun _ =>
    (ialloc_adds _).bind fun _ => (iappend_adds _ _).bind fun _ => .forM (iappend_adds _) _

lemma main_adds (files : List Input) : Adds Img.freeinode (files.length + 1) (main files) := by
  have hblank : Adds Img.freeinode 0 blank :=
    ((Adds.forM (fun _ => wsect_adds _ _) _).of_eq (Nat.mul_zero _)).bind fun _ => wsect_adds _ _
  have hroot : Adds Img.freeinode 1 makeRoot :=
    (ialloc_adds _).bind fun _ => (Adds.assert _).bind fun _ => (iappend_adds _ _).bind fun _ =>
      (iappend_adds _ _).bind fun _ => .pure _
  have hfinish : ∀ rootino, Adds Img.freeinode 0 (finish rootino) := fun _ =>
    (rinode_adds _).bind fun _ => (winode_adds _ _).bind fun _ => Adds.get.bind fun _ =>
      (Adds.assert _).bind fun _ => wsect_adds _ _
  refine Adds.of_eq (hblank.bind fun _ => hroot.bind fun rootino =>
    (Adds.forM (addFile_adds rootino) files).bind fun _ => hfinish rootino) ?_
  omega

lemma freeinode_of_mkfs {files : List Input} {s : Img} (h : mkfs files = some s) :
    s.freeinode = files.length + 2 := by
  have hmkfs : mkfs files = (main files start).bind fun r => some r.2 := rfl
  rw [hmkfs] at h
  obtain ⟨⟨_, s'⟩, hrun, hs⟩ := Option.bind_eq_some_iff.1 h
  obtain rfl : s' = s := Option.some.inj hs
  have hstart : start.freeinode = 1 := rfl
  rw [main_adds files start _ s' hrun, hstart]
  omega

end Count

/-! ## Results -/

/-- The inode is one that `mkfs` has handed out. -/
def Img.Used (s : Img) (i : ℕ) : Prop := 1 ≤ i ∧ i < s.freeinode

/-- What is asked of the image: the inodes that were handed out are in the inode area and have
all blocks below their sizes, no block is referred to twice, and the bitmap marks the blocks that
were handed out, those referred to among them. -/
structure ImageOk (s : Img) : Prop where
  inode : ∀ i, s.Used i → i < sb.ninodes ∧
    (sb.inodestart ≤ sb.IBLOCK i ∧ sb.IBLOCK i < sb.bmapstart) ∧ (sb.din s.disk i).type ≠ 0
  full : ∀ i, s.Used i → ∀ n, n < ((sb.din s.disk i).size.toNat + BSIZE - 1) / BSIZE →
    blockAt s.disk (sb.din s.disk i) n ≠ 0
  distinct : ∀ i p j q, s.Used i → s.Used j → ref s.disk (sb.din s.disk i) p ≠ 0 →
    ref s.disk (sb.din s.disk i) p = ref s.disk (sb.din s.disk j) q → i = j ∧ p = q
  marked : ∀ i p, s.Used i → ref s.disk (sb.din s.disk i) p ≠ 0 →
    nmeta ≤ ref s.disk (sb.din s.disk i) p ∧ ref s.disk (sb.din s.disk i) p < FSSIZE ∧
      sb.bit s.disk (ref s.disk (sb.din s.disk i) p) = true
  bitmap : ∀ b, b < FSSIZE → (sb.bit s.disk b = true ↔ b < s.freeblock)

section Results

variable {s : Img} {files : List Input}

section

variable (h : Finished s (layout files))

include h

lemma Finished.used {i : ℕ} (hi : s.Used i) :
    ∃ k, ∃ hk : k < (layout files).length, i = k + 1 ∧
      FileOk s.disk (sb.din s.disk i) (layout files)[k] := by
  obtain ⟨h1, h2⟩ := hi
  rw [h.rep.freeinode] at h2
  have hk : i - 1 < (layout files).length := by omega
  have hfile := h.rep.file (i - 1) hk
  rw [Nat.sub_add_cancel h1, h.image] at hfile
  exact ⟨i - 1, hk, (Nat.sub_add_cancel h1).symm, hfile⟩

/-- All blocks below the size are there, if the entries of the root directory do not end with a
block. -/
lemma Finished.full (hround : ¬ 64 ∣ files.length + 2) {i : ℕ}
    (hi : s.Used i) {n : ℕ} (hn : n * BSIZE < (sb.din s.disk i).size.toNat) :
    blockAt s.disk (sb.din s.disk i) n ≠ 0 := by
  obtain ⟨k, hk, rfl, hfile⟩ := h.used hi
  rw [hfile.block]
  by_cases hk0 : k = 0
  · subst hk0
    have hroot := h.root (layout_pos _)
    have hlen : (layout files)[0].data.length = 16 * (files.length + 2) := length_root files
    rw [show sb.din s.disk (0 + 1) = sb.din s.disk ROOTINO from rfl, hroot] at hn
    rw [hlen] at hn ⊢
    rw [BSIZE_eq] at *
    omega
  · rwa [h.size k hk hk0] at hn

lemma Finished.imageOk (hround : ¬ 64 ∣ files.length + 2) :
    ImageOk s := by
  have hcount := h.rep.count
  have halive : ∀ i, s.Used i → i < sb.ninodes ∧ (sb.din s.disk i).type ≠ 0 := by
    intro i hi
    obtain ⟨k, hk, rfl, hfile⟩ := h.used hi
    refine ⟨?_, ?_⟩
    · rw [sb_ninodes]
      omega
    · rw [hfile.type]
      exact hfile.alive
  have hrefs : ∀ i, s.Used i → ∀ p, refs sb s.image (sb.din s.disk) (i, p) =
      ref s.disk (sb.din s.disk i) p := by
    intro i hi p
    rw [refs_of_alive (halive i hi).1 (halive i hi).2, h.image]
  refine ⟨fun i hi => ⟨(halive i hi).1, ⟨Geometry.inodestart_le_IBLOCK i,
    Geometry.IBLOCK_lt (halive i hi).1⟩, (halive i hi).2⟩, fun i hi n hn => h.full hround hi ?_,
    fun i p j q hi hj hp heq => ?_, fun i p hi hp => ?_, fun b hb => ?_⟩
  · rw [BSIZE_eq] at *
    omega
  · have hinj := h.rep.owned.inj (i, p) (j, q)
    rw [hrefs i hi, hrefs j hj] at hinj
    exact Prod.ext_iff.1 (hinj hp heq)
  · have hrange := h.rep.owned.range (i, p)
    have hused := h.rep.owned.used_of_ref (p := (i, p))
    rw [hrefs i hi] at hrange hused
    rw [h.image] at hused
    exact ⟨(hrange hp).1, (hrange hp).2, hused hp⟩
  · rw [← h.image, bit_image hb, decide_eq_true_iff]

lemma Finished.diskOk (hround : ¬ 64 ∣ files.length + 2)
    (hcount : files.length ≤ 198) : DiskOk sb s.disk := by
  have howned := h.rep.owned
  rw [h.image] at howned
  refine ⟨howned, fun i hi htype => ?_⟩
  have hused : s.Used i := by
    by_contra hnot
    have hfree := h.rep.freeinode
    refine htype (h.rep.unused i hi ?_)
    rw [Img.Used, hfree] at hnot
    omega
  obtain ⟨k, hk, hik, hfile⟩ := h.used hused
  by_cases hk0 : k = 0
  · subst hk0
    have hroot := h.root (layout_pos _)
    have hlen : (layout files)[0].data.length = 16 * (files.length + 2) := length_root files
    have hi1 : i = ROOTINO := hik
    rw [hlen, ← hi1] at hroot
    refine ⟨?_, fun n hn => h.full hround hused hn, fun _ => ?_, fun _ k' _ => ?_⟩
    · rw [hroot, MAXFILE_eq, BSIZE_eq]
      omega
    · rw [hroot, BSIZE_eq, DESIZE_eq]
      omega
    · have hcontent : dirent s.disk (sb.din s.disk i) k' =
          fun r => (rootStart ++ entries 2 files).getD (16 * k' + r) 0 :=
        funext fun r => hfile.content _
      have hle := deInum_root files k'
      rw [hcontent, sb_ninodes, NINODES_eq]
      omega
  · have hsize := h.size k hk hk0
    rw [← hik] at hsize
    have hfile_type : (layout files)[k].type = T_FILE := by
      obtain ⟨j, rfl⟩ := Nat.exists_eq_succ_of_ne_zero hk0
      have hj : j < (files.map Input.file).length := Nat.lt_of_succ_lt_succ hk
      change (files.map Input.file)[j].type = T_FILE
      rw [List.getElem_map]
      rfl
    have hnot : (sb.din s.disk i).type ≠ T_DIR := by
      rw [hfile.type, hfile_type]
      decide
    refine ⟨?_, fun n hn => h.full hround hused hn, fun hd => absurd hd hnot,
      fun hd => absurd hd hnot⟩
    rw [hsize]
    exact h.rep.fits.size_le _ (List.getElem_mem hk)

/-- If the entries of the root directory fill whole blocks, its size is that of one block more, and
this block is not there. -/
lemma Finished.hole (hround : 64 ∣ files.length + 2) :
    s.Used ROOTINO ∧ (sb.din s.disk ROOTINO).size.toNat = ((files.length + 2) / 64 + 1) * BSIZE ∧
      blockAt s.disk (sb.din s.disk ROOTINO) ((files.length + 2) / 64) = 0 := by
  have hpos := layout_pos files
  have hlen : (layout files)[0].data.length = 16 * (files.length + 2) := length_root files
  refine ⟨⟨le_rfl, ?_⟩, ?_, ?_⟩
  · rw [h.rep.freeinode, ROOTINO]
    exact Nat.lt_add_of_pos_left hpos
  · rw [h.root hpos, hlen, BSIZE_eq]
    omega
  · by_contra hne
    have hlt := ((h.rep.file 0 hpos).block _).1 (by rw [h.image]; exact hne)
    rw [hlen, BSIZE_eq] at hlt
    omega

lemma Finished.not_imageOk (hround : 64 ∣ files.length + 2) :
    ¬ ImageOk s := by
  obtain ⟨hused, hsize, hhole⟩ := h.hole hround
  refine fun hok => hok.full ROOTINO hused _ ?_ hhole
  rw [hsize, BSIZE_eq]
  omega

end

/-- **`mkfs` builds a file system the kernel accepts** exactly if there are at most 198 files and
their directory entries do not fill whole blocks. -/
theorem mkfs_image_ok (files : List Input) (s : Img) (h : mkfs files = some s) :
    (ImageOk s ↔ files.length ≤ 198 ∧ ¬ 64 ∣ files.length + 2) ∧
      (ImageOk s → DiskOk sb s.disk) := by
  have hfinished : files.length ≤ 198 → Finished s (layout files) := by
    intro hcount
    have hlt : files.length + 1 < NINODES := by
      rw [NINODES_eq]
      omega
    exact ((mkfs_eq_some _ hlt).2 s h).2
  have hiff : ImageOk s ↔ files.length ≤ 198 ∧ ¬ 64 ∣ files.length + 2 := by
    constructor
    · intro hok
      have hcount : files.length ≤ 198 := by
        by_contra hmany
        -- the inode 200 has been handed out
        have hused : s.Used NINODES := by
          rw [Img.Used, freeinode_of_mkfs h, NINODES_eq]
          omega
        exact absurd (hok.inode NINODES hused).1 (lt_irrefl _)
      exact ⟨hcount, fun hround => (hfinished hcount).not_imageOk hround hok⟩
    · rintro ⟨hcount, hround⟩
      exact (hfinished hcount).imageOk hround
  refine ⟨hiff, fun hok => ?_⟩
  obtain ⟨hcount, hround⟩ := hiff.1 hok
  exact (hfinished hcount).diskOk hround hcount

end Results

/-- Files without contents, named `n00`, `n01`, … -/
def emptyFiles (n : ℕ) : List Input :=
  (List.range n).map fun k =>
    ⟨[110, UInt8.ofNat (48 + k / 10), UInt8.ofNat (48 + k % 10)], some []⟩

lemma emptyFiles_ok : ∀ f ∈ emptyFiles 62, f.Ok := by decide

lemma emptyFiles_fits {n : ℕ} (hn : n ≤ 62) : Fits (layout (emptyFiles n)) := by
  have hlen : (emptyFiles n).length = n := by simp [emptyFiles]
  have hdata : ∀ f ∈ (emptyFiles n).map Input.file, f.data = [] := by
    simp [emptyFiles, Input.file]
  have hroot := length_root (emptyFiles n)
  rw [hlen] at hroot
  have hzero : (((emptyFiles n).map Input.file).map fun f => blocks f.data.length).sum = 0 := by
    refine List.sum_eq_zero fun b hb => ?_
    obtain ⟨f, hf, rfl⟩ := List.mem_map.1 hb
    rw [hdata f hf]
    exact blocks_zero
  refine ⟨fun f hf => ?_, ?_⟩
  · rcases List.mem_cons.1 hf with rfl | hf
    · rw [hroot, MAXFILE_eq, BSIZE_eq]
      omega
    · rw [hdata f hf]
      exact Nat.zero_le _
  · have hblocks := blocks_mono (m := 16 * (n + 2)) (n := 1024) (by omega)
    have hone : blocks 1024 = 1 := by decide
    rw [usedBlocks, layout, List.map_cons, List.sum_cons, hzero, hroot, nmeta_eq, FSSIZE_eq]
    omega

theorem mkfs_image_ok_oneFile :
    ∃ s, mkfs (emptyFiles 1) = some s ∧ ImageOk s ∧ DiskOk sb s.disk := by
  obtain ⟨s, hs, -⟩ := (mkfs_eq_some (emptyFiles 1) (by decide)).1
    ⟨by decide, emptyFiles_fits (by decide)⟩
  obtain ⟨hiff, hdisk⟩ := mkfs_image_ok _ s hs
  have hok := hiff.2 ⟨by decide, by decide⟩
  exact ⟨s, hs, hok, hdisk hok⟩

/-- With 62 empty files the 64 entries of the root directory fill its only block.  `main` makes
the directory two blocks long, and the second block is not there. -/
theorem mkfs_root_hole : (emptyFiles 62).length = 62 ∧ ((emptyFiles 62).map Input.name).Nodup ∧
      (∀ f ∈ emptyFiles 62, f.name.length ≤ DIRSIZ) ∧
      ∃ s, mkfs (emptyFiles 62) = some s ∧ s.Used ROOTINO ∧
        (sb.din s.disk ROOTINO).size.toNat = 2 * BSIZE ∧
        blockAt s.disk (sb.din s.disk ROOTINO) 1 = 0 ∧ ¬ ImageOk s := by
  obtain ⟨s, hs, h⟩ := (mkfs_eq_some (emptyFiles 62) (by decide)).1
    ⟨emptyFiles_ok, emptyFiles_fits le_rfl⟩
  have hround : 64 ∣ (emptyFiles 62).length + 2 := by decide
  obtain ⟨hused, hsize, hhole⟩ := h.hole hround
  exact ⟨by decide, by decide, by decide, s, hs, hused, hsize, hhole, h.not_imageOk hround⟩

end Xv6.Mkfs
