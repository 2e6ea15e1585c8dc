import Xv6.Mkfs.Files

/-!
# Images built by sequences of calls

From the blank image on, every sequence of `ialloc` and `iappend` builds the files it says
(`run_spec`), as long as there are inodes and blocks; what the kernel's `readi` then returns from
an inode is the file (`readback`).  `main` makes such a sequence of calls; what it does in
addition is in `Mkfs/Main.lean`.
-/

namespace Xv6.Mkfs

open Concur Concur.Bytes Fs

/-! ## The blank image -/

lemma wsect_zero {i : ℕ} (hi : i < FSSIZE) :
    wsect i Bytes.zero { start with len := i } = some ((), { start with len := i + 1 }) := by
  have hzero : setAt (fun _ : ℕ => (Bytes.zero : Block)) i Bytes.zero = fun _ => Bytes.zero := by
    funext b
    by_cases hb : b = i
    · rw [hb, setAt_self]
    · rw [setAt_of_ne _ _ hb]
  have hmodify : wsect i Bytes.zero { start with len := i } = some ((), { start with
      disk := setAt start.disk (sector i) Bytes.zero, len := max i (sector i + 1) }) := rfl
  have hmax : max i (i + 1) = i + 1 := by omega
  rw [hmodify, sector_eq hi.le, hmax]
  simp only [start, hzero]

lemma zeroBlocks_eq {n : ℕ} (hn : n ≤ FSSIZE) :
    (List.range n).forM (fun i => wsect i Bytes.zero) start =
      some ((), { start with len := n }) := by
  induction n with
  | zero => rfl
  | succ n ih =>
    rw [List.forM_eq_forM] at ih ⊢
    rw [List.range_succ, List.forM_append, bind_apply, ih (by omega), Option.bind_some,
      List.forM_cons, bind_apply, wsect_zero (by omega), Option.bind_some]
    rfl

lemma blank_spec : ∃ s, blank start = some ((), s) ∧ Holds s [] := by
  obtain ⟨s, hs⟩ : ∃ s : Img, s = Img.put { start with len := FSSIZE } 1 sbBlock := ⟨_, rfl⟩
  have hrun : blank start = some ((), s) := by
    rw [blank, bind_apply, zeroBlocks_eq le_rfl, Option.bind_some, hs]
    exact wsect_eq (by decide) rfl sbBlock
  have hdisk : ∀ b, b ≠ 1 → s.disk b = Bytes.zero := by
    intro b hb
    rw [hs, Img.put_disk, setAt_of_ne _ _ hb]
    rfl
  have hfree : s.freeblock = nmeta := by
    rw [hs]
    rfl
  have hdin : ∀ i, i < NINODES → sb.din s.image i = Dinode.zero := by
    intro i hi
    have h1 := Geometry.inodestart_le_IBLOCK (G := sb) i
    have h2 := Geometry.IBLOCK_lt (G := sb) hi
    rw [sb_inodestart] at h1
    rw [Geometry.din, image_of_ne h2.ne, hdisk _ (by omega), getDinode_zero]
  have hrefs : ∀ q, refs sb s.image (sb.din s.image) q = 0 := by
    intro q
    rw [refs, if_neg]
    rintro ⟨hq, htype⟩
    rw [hdin _ hq] at htype
    exact htype rfl
  refine ⟨s, hrun, ⟨⟨⟨by rw [hs]; rfl, hfree.ge, fun b hb => hdisk b ?_⟩, by rw [hs]; rfl,
    by decide, by rw [hfree]; rfl, ⟨fun f hf => absurd hf List.not_mem_nil, by decide⟩, ?_,
    fun k hk => absurd hk (Nat.not_lt_zero k), fun i hi _ => ?_⟩,
    fun k hk => absurd hk (Nat.not_lt_zero k)⟩⟩
  · rw [hfree, nmeta_eq] at hb
    omega
  · refine ⟨by decide, fun p hp => absurd (hrefs p) hp, fun p q hp => absurd (hrefs p) hp,
      fun b hb => absurd hb (Set.notMem_empty b), fun b hb => absurd hb (Set.notMem_empty b),
      fun b hb => ?_⟩
    rw [bit_image hb, hfree, decide_eq_true_iff]
    refine ⟨Or.inl, ?_⟩
    rintro (h | h | ⟨p, rfl⟩)
    · exact h
    · exact absurd h (Set.notMem_empty b)
    · rw [hrefs]
      decide
  · rw [hdin i hi]
    rfl

/-! ## Sequences of calls -/

/-- A call of `ialloc` or `iappend`. -/
inductive Op where
  | ialloc (type : Int16)
  | iappend (inum : ℕ) (p : List UInt8)

namespace Op

/-- Run the call. -/
def run : Op → Mk Unit
  | ialloc type => do
    let _ ← Mkfs.ialloc type
    pure ()
  | iappend inum p => Mkfs.iappend inum p

/-- What the call is for: it adds an empty file, or appends to a file. -/
def apply (fs : List FileData) : Op → List FileData
  | ialloc type => fs ++ [⟨type, []⟩]
  | iappend inum p => fs.modify (inum - 1) fun f => f.append p

/-- The call can be made: there is an inode left, or the inode exists. -/
def Ok (fs : List FileData) : Op → Prop
  | ialloc type => type ≠ 0 ∧ fs.length + 1 < NINODES
  | iappend inum _ => 1 ≤ inum ∧ inum ≤ fs.length

end Op

/-- The files after a sequence of calls. -/
def filesAfter (ops : List Op) : List FileData := ops.foldl Op.apply []

/-- Every call of the sequence can be made when it is its turn. -/
def OpsOk (ops : List Op) : Prop :=
  ∀ done op rest, ops = done ++ op :: rest → op.Ok (filesAfter done)

lemma filesAfter_concat (ops : List Op) (op : Op) :
    filesAfter (ops ++ [op]) = op.apply (filesAfter ops) := by
  rw [filesAfter, List.foldl_append]
  rfl

lemma modify_eq_set {fs : List FileData} {k : ℕ} (hk : k < fs.length) (p : List UInt8) :
    fs.modify k (fun f => f.append p) = fs.set k (fs[k].append p) := by
  rw [List.modify_eq_set_getElem?]
  simp [hk]

lemma Fits.of_apply {fs : List FileData} {op : Op} (hok : op.Ok fs) (h : Fits (op.apply fs)) :
    Fits fs := by
  cases op with
  | ialloc type => exact h.of_append
  | iappend inum p =>
    obtain ⟨h1, h2⟩ := hok
    have hk : inum - 1 < fs.length := by omega
    rw [Op.apply, modify_eq_set hk] at h
    have hset := h.set_mono hk (f := fs[inum - 1])
      (by rw [FileData.append, List.length_append]; omega)
    rwa [List.set_getElem_self] at hset

lemma Op.run_spec {s : Img} {fs : List FileData} (h : Holds s fs) {op : Op} (hok : op.Ok fs) :
    Runs (Fits (op.apply fs)) op.run (fun _ s' => Holds s' (op.apply fs)) s := by
  cases op with
  | ialloc type =>
    obtain ⟨s', hrun, h', -⟩ := ialloc_spec h hok.2 hok.1
    rw [Op.run]
    exact Runs.seq hrun ((Runs.pure (a := ()) h').of_iff (iff_true_intro h'.rep.fits))
  | iappend inum p =>
    obtain ⟨h1, h2⟩ := hok
    have hk : inum - 1 < fs.length := by omega
    have hspec := iappend_spec h hk p
    rw [Nat.sub_add_cancel h1] at hspec
    rw [Op.run, Op.apply, modify_eq_set hk]
    exact hspec.mono fun _ _ hs => hs.1

/-- A sequence of calls ends exactly when the files fit, and then the image holds them. -/
lemma run_spec {s : Img} (h : Holds s []) {ops : List Op} (hok : OpsOk ops) :
    Runs (Fits (filesAfter ops)) (ops.forM Op.run) (fun _ s' => Holds s' (filesAfter ops)) s := by
  refine Runs.forM (F := fun done => Fits (filesAfter done))
    (I := fun done s => Holds s (filesAfter done)) (fun done op rest hl hf => ?_)
    (fun done op rest s hl _ hs => ?_) h.rep.fits h
  · rw [filesAfter_concat] at hf
    exact hf.of_apply (hok done op rest hl)
  · simp only [filesAfter_concat]
    exact Op.run_spec hs (hok done op rest hl)

/-! ## What the kernel reads -/

/-- The kernel's view of an inode of the image. -/
def Img.inode (s : Img) (l : Log) (inum : ℕ) : Ictx := ⟨s.image, l, sb.din s.image inum⟩

lemma Holds.full {s : Img} {fs : List FileData} (h : Holds s fs) {k : ℕ} (hk : k < fs.length)
    (n : ℕ) (hn : n * BSIZE < (sb.din s.image (k + 1)).size.toNat) :
    blockAt s.image (sb.din s.image (k + 1)) n ≠ 0 := by
  rw [h.size k hk] at hn
  exact ((h.rep.file k hk).block n).2 hn

lemma Holds.readi {s : Img} {fs : List FileData} (h : Holds s fs) {k : ℕ} (hk : k < fs.length)
    (l : Log) (off n : ℕ) :
    ∃ dst, Sec.readi sb (fun _ _ => true) off n (s.inode l (k + 1)) =
        .ok (((readCount fs[k].data.length off n : ℕ), dst), s.inode l (k + 1)) ∧
      ∀ i, i < readCount fs[k].data.length off n → dst i = fs[k].data.getD (off + i) 0 := by
  obtain ⟨⟨m, dst⟩, hrun, hr⟩ := readi_eq (G := sb) (c := s.inode l (k + 1)) (h.full hk)
    (fun _ _ => true) off n
  obtain ⟨hm, hdst⟩ := hr fun _ _ => rfl
  have hsize : (s.inode l (k + 1)).ip.size.toNat = fs[k].data.length := h.size k hk
  rw [hsize] at hm hdst
  refine ⟨dst, ?_, fun i hi => (hdst i hi).trans ((h.rep.file k hk).content _)⟩
  rw [hrun]
  exact congrArg (fun m => Outcome.ok ((m, dst), s.inode l (k + 1))) hm

/-- **What `mkfs` writes is what the kernel reads.**  Every sequence of `ialloc` and `iappend`
calls for which there are inodes and blocks runs to its end; the kernel's `readi` then returns
from every inode exactly the bytes appended to it, for every offset and length; and one more
`iappend` leaves the contents of the other inodes. -/
theorem readback (ops : List Op) (hok : OpsOk ops) (hfits : Fits (filesAfter ops)) :
    ∃ s, (do blank; ops.forM Op.run : Mk Unit) start = some ((), s) ∧
      (∀ k (hk : k < (filesAfter ops).length) (l : Log) (off n : ℕ),
        ∃ dst, Sec.readi sb (fun _ _ => true) off n (s.inode l (k + 1)) =
            .ok (((readCount (filesAfter ops)[k].data.length off n : ℕ), dst),
              s.inode l (k + 1)) ∧
          ∀ i, i < readCount (filesAfter ops)[k].data.length off n →
            dst i = (filesAfter ops)[k].data.getD (off + i) 0) ∧
      ∀ inum p s', 1 ≤ inum → inum ≤ (filesAfter ops).length →
        iappend inum p s = some ((), s') →
        ∀ j, 1 ≤ j → j ≤ (filesAfter ops).length → j ≠ inum →
          sb.din s'.image j = sb.din s.image j ∧
            ∀ o, content s'.image (sb.din s'.image j) o =
              content s.image (sb.din s.image j) o := by
  obtain ⟨s0, hblank, h0⟩ := blank_spec
  obtain ⟨u, s, hrun, h⟩ := (run_spec h0 hok).1 hfits
  refine ⟨s, ?_, fun k hk l off n => h.readi hk l off n, ?_⟩
  · rw [bind_apply, hblank, Option.bind_some, hrun]
  · intro inum p s' h1 h2 happ j hj1 hj2 hne
    have hcount := h.rep.count
    have hk : inum - 1 < (filesAfter ops).length := by omega
    have hspec := iappend_spec h hk p
    rw [Nat.sub_add_cancel h1] at hspec
    by_cases hfit : Fits ((filesAfter ops).set (inum - 1)
        ((filesAfter ops)[inum - 1].append p))
    · obtain ⟨u', t, ht, -, ho⟩ := hspec.1 hfit
      obtain rfl : t = s' := by
        rw [ht] at happ
        exact congrArg Prod.snd (Option.some.inj happ)
      have hj : j < sb.ninodes := by
        rw [sb_ninodes]
        omega
      have hfile := h.rep.file (j - 1) (by omega)
      rw [Nat.sub_add_cancel hj1] at hfile
      refine ⟨ho.din j hj hne, fun o => ho.content_eq hj hne ?_ o⟩
      rw [hfile.type]
      exact hfile.alive
    · rw [hspec.2 hfit] at happ
      cases happ

/-- One file that goes one byte past the direct blocks. -/
def longFile : List Op :=
  [.ialloc T_FILE, .iappend 1 (List.replicate (NDIRECT * BSIZE) 7), .iappend 1 [8]]

lemma longFile_ok : OpsOk longFile := by
  rintro (_ | ⟨a, _ | ⟨b, _ | ⟨c, done⟩⟩⟩) op rest h
  · obtain ⟨rfl, -⟩ := List.cons.inj h
    exact ⟨by decide, by decide⟩
  · obtain ⟨rfl, h1⟩ := List.cons.inj h
    obtain ⟨rfl, -⟩ := List.cons.inj h1
    exact ⟨le_rfl, le_rfl⟩
  · obtain ⟨rfl, h1⟩ := List.cons.inj h
    obtain ⟨rfl, h2⟩ := List.cons.inj h1
    obtain ⟨rfl, -⟩ := List.cons.inj h2
    exact ⟨le_rfl, le_rfl⟩
  · obtain ⟨-, h1⟩ := List.cons.inj h
    obtain ⟨-, h2⟩ := List.cons.inj h1
    obtain ⟨-, h3⟩ := List.cons.inj h2
    cases done <;> cases h3

lemma longFile_fits : Fits (filesAfter longFile) := by
  have hfiles : filesAfter longFile =
      [⟨T_FILE, [] ++ List.replicate (NDIRECT * BSIZE) 7 ++ [8]⟩] := rfl
  rw [hfiles]
  refine ⟨fun f hf => ?_, ?_⟩
  · rw [List.mem_singleton.1 hf]
    simp only [List.length_append, List.length_replicate, List.length_nil, List.length_singleton]
    decide
  · simp only [usedBlocks, List.map_cons, List.map_nil, List.length_append, List.length_replicate,
      List.length_nil, List.length_singleton]
    decide

theorem readback_longFile :
    OpsOk longFile ∧ Fits (filesAfter longFile) ∧
      ∃ s, (do blank; longFile.forM Op.run : Mk Unit) start = some ((), s) ∧
        ∃ dst, Sec.readi sb (fun _ _ => true) (NDIRECT * BSIZE) 4 (s.inode (Log.init 30) 1) =
            .ok ((1, dst), s.inode (Log.init 30) 1) ∧ dst 0 = 8 := by
  refine ⟨longFile_ok, longFile_fits, ?_⟩
  obtain ⟨s, hrun, hread, -⟩ := readback longFile longFile_ok longFile_fits
  refine ⟨s, hrun, ?_⟩
  have hdata : (filesAfter longFile)[0].data =
      [] ++ List.replicate (NDIRECT * BSIZE) 7 ++ [8] := rfl
  obtain ⟨dst, hdst, hbytes⟩ := hread 0 (by decide) (Log.init 30) (NDIRECT * BSIZE) 4
  have hcount : readCount (filesAfter longFile)[0].data.length (NDIRECT * BSIZE) 4 = 1 := by
    rw [hdata]
    simp only [List.length_append, List.length_replicate, List.length_nil, List.length_singleton]
    decide
  rw [hcount] at hdst hbytes
  refine ⟨dst, hdst, ?_⟩
  rw [hbytes 0 (by decide), hdata, List.getD_append_right _ _ _ _ (by simp)]
  simp

end Xv6.Mkfs
