import Xv6.Fs.Slots
import Mathlib.Data.Finset.Card
import Mathlib.Data.Fintype.Fin

/-!
# The kernel between calls

`AtRest` describes the memory when no file system call is in progress: the file system is
well-formed, no inode is locked, the references to inodes are those of open files and working
directories, and nothing is logged.  A call that starts there finds the accounts of `Fs/Slots.lean`
with `base` the references that are there, and the first and the last action of a transaction keep
them.
-/

namespace Xv6.Fs

open Concur

variable {N : ℕ}

/-- The number of open files and working directories that refer to the slot `k`. -/
def holders (s : St N) (k : Fin NINODE) : ℕ :=
  (Finset.univ.filter fun t => (s.proc t).cwd = some k).card +
    (Finset.univ.filter fun f => 0 < (s.ftable f).ref ∧ (s.ftable f).HasInode ∧
      (s.ftable f).ip = k).card

/-- No file system call is in progress. -/
structure AtRest (G : Geometry) (s : St N) : Prop where
  fs : FsOk G s.blk
  ref_eq : ∀ k, (s.itable k).ref = holders s k
  unlocked : ∀ k, (s.itable k).lock = none
  inj : ∀ j k, 0 < (s.itable j).ref → 0 < (s.itable k).ref →
    (s.itable j).inum = (s.itable k).inum → j = k
  lt : ∀ k, 0 < (s.itable k).ref → (s.itable k).inum < G.ninodes
  copy : ∀ k, 0 < (s.itable k).ref → (s.itable k).valid = true →
    (s.itable k).d = G.din s.blk (s.itable k).inum
  alloc : ∀ k, 0 < (s.itable k).ref → (G.din s.blk (s.itable k).inum).type ≠ 0
  unused : ∀ f, (s.ftable f).ref = 0 → (s.ftable f).type = .none
  log : s.log = .init s.log.size
  op : ∀ t, s.op t = false

/-- The references to the slots of the inode table. -/
def refsOf (s : St N) : Fin NINODE → ℕ := fun k => (s.itable k).ref

/-- A well-formed kernel at rest: an allocated inode without links is an open file or a working
directory. -/
structure WellFormed (G : Geometry) (s : St N) : Prop extends AtRest G s where
  anchored : Anchored G (refsOf s) s

section

variable {B : Finset ℕ → ℕ → Prop} {G : Geometry} {t : Fin N} {base own : Fin NINODE → ℕ}
  {L : Finset (Fin NINODE)} {K : Finset ℕ} {n : ℕ} {s s' : St N} {stop : Option Panic → Prop}
  {k : Fin NINODE}

lemma AtRest.holding (h : AtRest G s) (t : Fin N) (hB : B K n) :
    Holding B G t (refsOf s) 0 ∅ K n s := by
  refine ⟨h.fs, fun k => rfl, fun k => ?_, fun k hk => ?_, fun j k hj hk => h.inj j k hj hk,
    fun k hk => h.lt k hk, fun k hk hv => ?_, fun k hk => h.alloc k hk, .of_nil ?_ K n, hB⟩
  · rw [if_neg (Finset.notMem_empty k)]
    exact h.unlocked k
  · exact absurd hk (Finset.notMem_empty k)
  · have hd := h.copy k hk hv
    refine ⟨hd, ?_⟩
    rw [hd]
    exact h.alloc k hk
  · rw [h.log]
    rfl

lemma AtRest.cwd_pos (h : AtRest G s) (hcwd : (s.proc t).cwd = some k) : 0 < refsOf s k := by
  have hmem : t ∈ Finset.univ.filter fun t => (s.proc t).cwd = some k :=
    Finset.mem_filter.2 ⟨Finset.mem_univ t, hcwd⟩
  have hcard := Finset.card_pos.2 ⟨t, hmem⟩
  rw [refsOf, h.ref_eq, holders]
  omega

/-- What changes nothing but the log, the journal and the ghosts keeps the accounts. -/
lemma Holding.congr (h : Holding B G t base own L K n s) {K' : Finset ℕ} {n' : ℕ}
    (hblk : s'.blk = s.blk) (htab : s'.itable = s.itable) (hlog : LogIn K' n' s'.log)
    (hB : B K' n') : Holding B G t base own L K' n' s' := by
  refine ⟨?_, ?_, ?_, ?_, ?_, ?_, ?_, ?_, hlog, hB⟩
  · rw [hblk]
    exact h.fs
  · rw [htab]
    exact h.ref_eq
  · rw [htab]
    exact h.lock_eq
  · rw [htab]
    exact h.locked
  · rw [htab]
    exact h.inj
  · rw [htab]
    exact h.lt
  · rw [htab, hblk]
    exact h.copy
  · rw [htab, hblk]
    exact h.alloc

/-! ## Transactions -/

lemma beginOp_ends (hc : Holding B G t base own L K n s) (hwait : ¬ s.log.Admits → stop none) :
    Ends (Fits B) stop (beginOp t) s fun _ s' => Holding B G t base own L K n s' ∧
      s' = { s with log := s.log.beginOp, op := setAt s.op t true } := by
  have hc' : Holding B G t base own L K n
      { s with log := s.log.beginOp, op := setAt s.op t true } :=
    hc.congr rfl rfl ⟨hc.log.nodup, hc.log.mem⟩ hc.fits
  refine Ends.update ?_
  rw [St.beginOp]
  by_cases hadmit : s.log.Admits
  · rw [if_pos hadmit]
    exact ⟨hc'.toFits, hc', rfl⟩
  · rw [if_neg hadmit]
    exact hwait hadmit

section Commit

variable {J : Redo.Mem → Prop} {start : ℕ} {m : Redo.Mem}

lemma writeFrom_ends (hJ : ∀ m, J m) (tail : ℕ) (bs : List ℕ) :
    Ends J stop (Redo.writeFrom start tail bs) m fun _ _ => True := by
  induction bs generalizing tail m with
  | nil => exact .ret trivial
  | cons b bs ih =>
    refine Ends.seq (P := fun _ _ => True) (Ends.read (hJ _) trivial) fun _ _ _ => ?_
    refine Ends.seq (P := fun _ _ => True) (Ends.read (hJ _) trivial) fun _ _ _ => ?_
    exact Ends.seq (P := fun _ _ => True) (Ends.modify (hJ _) trivial) fun _ _ _ => ih (tail + 1)

lemma installFrom_ends (hJ : ∀ m, J m) (tail : ℕ) (bs : List ℕ) :
    Ends J stop (Redo.installFrom start tail bs) m fun _ _ => True := by
  induction bs generalizing tail m with
  | nil => exact .ret trivial
  | cons b bs ih =>
    refine Ends.seq (P := fun _ _ => True) (Ends.read (hJ _) trivial) fun _ _ _ => ?_
    refine Ends.seq (P := fun _ _ => True) (Ends.read (hJ _) trivial) fun _ _ _ => ?_
    exact Ends.seq (P := fun _ _ => True) (Ends.modify (hJ _) trivial) fun _ _ _ => ih (tail + 1)

lemma writeHead_ends (hJ : ∀ m, J m) :
    Ends J stop (Redo.writeHead start) m fun _ m' => m'.lh = m.lh := by
  refine Ends.seq (P := fun _ m' => m' = m) (Ends.read (hJ _) rfl) ?_
  rintro _ m rfl
  refine Ends.seq (P := fun _ m' => m' = m) (Ends.read (hJ _) rfl) ?_
  rintro _ m rfl
  exact Ends.modify (hJ _) rfl

lemma commit_ends (hJ : ∀ m, J m) :
    Ends J stop (Redo.commit start) m fun _ m' => m'.lh = [] := by
  refine Ends.seq (P := fun lh m' => lh = m.lh ∧ m' = m) (Ends.read (hJ _) ⟨rfl, rfl⟩) ?_
  rintro _ m ⟨rfl, rfl⟩
  split
  · have hlog : Ends J stop (Redo.writeLog start) m fun _ _ => True := by
      exact Ends.seq (P := fun _ _ => True) (Ends.read (hJ _) trivial) fun lh _ _ =>
        writeFrom_ends hJ 0 lh
    refine hlog.seq fun _ m1 _ => ?_
    refine (writeHead_ends hJ).seq fun _ m2 _ => ?_
    have hinstall : Ends J stop (Redo.installTrans start) m2 fun _ _ => True := by
      exact Ends.seq (P := fun _ _ => True) (Ends.read (hJ _) trivial) fun lh _ _ =>
        installFrom_ends hJ 0 lh
    refine hinstall.seq fun _ m3 _ => ?_
    refine Ends.seq (P := fun _ m' => m'.lh = []) (Ends.modify (hJ _) rfl) fun _ m4 h4 => ?_
    exact (writeHead_ends hJ).mono fun _ _ h => h.trans h4
  · rename_i hlen
    exact .ret (List.length_eq_zero_iff.1 (by omega))

end Commit

lemma endOp_ends (hc : Holding B G t base own L K n s) (hout : s.log.outstanding = 1)
    (hcom : s.log.committing = false) :
    Ends (Fits B) stop (endOp G t) s fun _ s' => Holding B G t base own L K n s' ∧
      ∃ journal commits, s' = { s with
        log := .init s.log.size
        journal := journal
        op := setAt s.op t false
        commits := commits } := by
  have hlog : s.log.endOp = .ok (true, { s.log with outstanding := 0, committing := true }) := by
    rw [Log.endOp, hcom, hout]
    rfl
  have hfits : ∀ s' : St N, s'.log.lh = s.log.lh → Fits B s' := by
    intro s' h
    refine ⟨K, n, ⟨?_, ?_⟩, hc.fits⟩
    · rw [h]
      exact hc.log.nodup
    · rw [h]
      exact hc.log.mem
  rw [endOp]
  refine Ends.seq (P := fun b s1 => b = true ∧ ∃ journal commits, s1 = { s with
    log := { s.log with outstanding := 0, committing := true }
    journal := journal
    op := setAt s.op t false
    commits := commits }) (Ends.atomic ?_) ?_
  · simp only [St.endOp, hlog, Outcome.ok_bind, Outcome.pure_eq, if_true]
    exact ⟨hfits _ rfl, rfl, _, _, rfl⟩
  · rintro _ s1 ⟨rfl, journal, commits, rfl⟩
    rw [if_pos rfl]
    set s1 : St N := { s with
      log := { s.log with outstanding := 0, committing := true }
      journal := journal
      op := setAt s.op t false
      commits := commits } with hs1
    have hcommit : Ends (Fits B) stop (commit G) s1 fun _ s' =>
        ∃ m, s' = { s1 with journal := m } ∧ m.lh = [] :=
      Ends.zoom (s := s1) (m := journal) St.journal (fun m s => { s with journal := m })
        (fun _ _ => rfl) (fun _ _ _ => rfl) (commit_ends fun m => hfits _ rfl)
    refine hcommit.seq ?_
    rintro _ _ ⟨m, rfl, hm⟩
    have hc' : Holding B G t base own L K n
        { s1 with journal := m, log := { s1.log with lh := m.lh, committing := false } } :=
      hc.congr rfl rfl (.of_nil hm K n) hc.fits
    refine Ends.modify hc'.toFits ⟨hc', m, commits, ?_⟩
    simp only [hm, hs1]
    rfl

lemma transaction_ends {α β : Type} {p : Routine N α} {q : α → Routine N β}
    {Q : α → St N → Prop} {R : β → St N → Prop}
    (hc : Holding B G t base own L K n s) (hlog : s.log = .init s.log.size)
    (hwait : ¬ s.log.Admits → stop none)
    (hp : ∀ s1, s1 = { s with log := s.log.beginOp, op := setAt s.op t true } →
      Holding B G t base own L K n s1 → Ends (Fits B) stop p s1 fun a s2 =>
        Q a s2 ∧ s2.log = { s1.log with lh := s2.log.lh } ∧
          ∃ base' own' L' K' n', Holding B G t base' own' L' K' n' s2)
    (hq : ∀ a s2 journal commits, Q a s2 → Ends (Fits B) stop (q a) { s2 with
      log := .init s.log.size
      journal := journal
      op := setAt s2.op t false
      commits := commits } R) :
    Ends (Fits B) stop (do beginOp t; let a ← p; endOp G t; q a) s R := by
  refine (beginOp_ends hc hwait).seq ?_
  rintro _ s1 ⟨hc1, hs1⟩
  have hone : s1.log.outstanding = 1 ∧ s1.log.committing = false ∧ s1.log.size = s.log.size := by
    rw [hs1, hlog]
    exact ⟨rfl, rfl, rfl⟩
  refine (hp s1 hs1 hc1).seq ?_
  rintro a s2 ⟨hQ, hlog2, base', own', L', K', n', hc2⟩
  have hout : s2.log.outstanding = 1 := by
    rw [hlog2]
    exact hone.1
  have hcom : s2.log.committing = false := by
    rw [hlog2]
    exact hone.2.1
  have hsize : s2.log.size = s.log.size := by
    rw [hlog2]
    exact hone.2.2
  refine (endOp_ends hc2 hout hcom).seq ?_
  rintro _ s3 ⟨-, journal, commits, hs3⟩
  rw [hsize] at hs3
  rw [hs3]
  exact hq a s2 journal commits hQ

end

/-! ## A small kernel -/

/-- One process in the root directory of the small disk. -/
def smallState : St 1 where
  blk := smallDisk
  log := .init 30
  itable k := ⟨1, if k = 0 then 1 else 0, none, k = 0, smallRoot, false⟩
  ftable _ := ⟨.none, 0, false, false, 0, 0, 0⟩
  proc _ := ⟨some 0, fun _ => none, 0⟩
  journal := ⟨smallDisk, smallDisk, [], []⟩
  op _ := false
  commits := []
  uses := []

lemma din_smallDisk_root : smallGeometry.din smallDisk 1 = smallRoot := din_smallDisk (by decide)

lemma entInum_smallRoot : ∀ k, k < 3 →
    entInum smallDisk smallRoot k ≠ 0 ∧ entInum smallDisk smallRoot k < 3 := by
  decide +kernel

lemma fsOk_smallDisk : FsOk smallGeometry smallDisk := by
  refine ⟨solid_smallDisk, fun i hi => ?_⟩
  rw [din_smallDisk hi]
  by_cases h2 : i = 2
  · rw [if_pos h2]
    exact .of_size_zero rfl fun h => absurd h (by decide)
  · rw [if_neg h2]
    by_cases h1 : i = 1
    · rw [if_pos h1]
      refine ⟨fun _ => rfl, fun _ k hk => ?_, fun h => absurd h (by decide)⟩
      exact ((entInum_smallRoot k hk).2).trans (by decide)
    · rw [if_neg h1]
      exact .of_size_zero rfl fun _ => rfl

lemma smallState_pos {k : Fin NINODE} (h : 0 < (smallState.itable k).ref) : k = 0 := by
  by_contra hk
  change 0 < (if k = 0 then 1 else 0) at h
  rw [if_neg hk] at h
  exact absurd h (lt_irrefl _)

lemma wellFormed_smallState : WellFormed smallGeometry smallState where
  fs := fsOk_smallDisk
  ref_eq := by decide +kernel
  unlocked _ := rfl
  inj j k hj hk _ := (smallState_pos hj).trans (smallState_pos hk).symm
  lt _ _ := (by decide : 1 < 4)
  copy _ _ _ := din_smallDisk_root.symm
  alloc k _ := by
    show (smallGeometry.din smallDisk 1).type ≠ 0
    rw [din_smallDisk_root]
    decide
  unused _ _ := rfl
  log := rfl
  op _ := rfl
  anchored := by
    intro i hi htype hnlink
    change (smallGeometry.din smallDisk i).type ≠ 0 at htype
    change (smallGeometry.din smallDisk i).nlink = 0 at hnlink
    rw [din_smallDisk hi] at htype hnlink
    by_cases h2 : i = 2
    · rw [if_pos h2] at hnlink
      exact absurd hnlink (by decide)
    · rw [if_neg h2] at htype hnlink
      by_cases h1 : i = 1
      · rw [if_pos h1] at hnlink
        exact absurd hnlink (by decide)
      · rw [if_neg h1] at htype
        exact absurd rfl htype

end Xv6.Fs
