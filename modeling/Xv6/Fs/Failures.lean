import Xv6.Fs.Effects

/-!
# Calls that fail

`sys_link`, `sys_unlink`, `sys_mkdir` and `sys_mknod` that return `-1` leave the tree as it was.  So
does `sys_open`, except that it does not take back a file that it has created when it finds the file
table or the process's descriptors full.
-/

namespace Xv6.Fs

open Concur

lemma room_true (G : Geometry) : Room (fun _ _ => True) G :=
  ⟨fun _ _ => trivial, fun _ _ _ _ _ _ _ => trivial⟩

section

variable {N : ℕ} {B : Finset ℕ → ℕ → Prop} {G : Geometry} {t : Fin N} {s s' : St N}
  {stop : Option Panic → Prop}

lemma WellFormed.ready (hs : WellFormed G s) (hcwd : (s.proc t).cwd ≠ none) :
    Ready G t (refsOf s) s := by
  obtain ⟨k, hk⟩ := Option.ne_none_iff_exists'.1 hcwd
  exact ⟨hs.anchored, k, hk, hs.cwd_pos hk⟩

lemma zero_notMem_of_argstr {arg : Option Path} {path : Path} (h : argstr arg = some path) :
    0 ∉ path := by
  cases arg with
  | none => cases h
  | some p =>
    simp only [argstr] at h
    split at h
    · rename_i hp
      cases h
      exact hp.2
    · cases h

/-- The calls that make, name and remove inodes. -/
def Call.Names : Call → Prop
  | .link _ _ | .unlink _ | .mkdir _ | .mknod _ _ _ => True
  | _ => False

section

/-! `Q` holds of every settled state after `end_op`. -/
variable (hs : WellFormed G s) (hcwd : (s.proc t).cwd ≠ none) (hroom : Room B G)
  (hstop : ∀ m, stop m) {Q : ℤ → St N → Prop}
  (hQ : ∀ r s2 journal commits, Settled B G t (refsOf s)
    { s with log := s.log.beginOp, op := setAt s.op t true } (r = -1) s2 → Q r { s2 with
      log := .init s.log.size
      journal := journal
      op := setAt s2.op t false
      commits := commits })

include hs hcwd hroom hstop hQ

lemma WellFormed.transaction {p : Routine N ℤ}
    (hp : ∀ s1, Holding B G t (refsOf s) 0 ∅ ∅ 0 s1 → Ready G t (refsOf s) s1 →
      Ends (Fits B) stop p s1 fun r s' => Settled B G t (refsOf s) s1 (r = -1) s') :
    Ends (Fits B) stop (do beginOp t; let r ← p; endOp G t; pure r) s Q := by
  have hc : Holding B G t (refsOf s) 0 ∅ ∅ 0 s :=
    hs.holding t (hroom.of_subset (i := 0) (j := 0) (Finset.empty_subset _) (Nat.zero_le _))
  have hr := hs.ready hcwd
  refine transaction_ends hc hs.log (fun _ => hstop _) (fun s1 hs1 hc1 => ?_)
    fun r s2 journal commits h => .ret (hQ r s2 journal commits h)
  subst hs1
  refine (hp _ hc1 ⟨hr.anchored, hr.cwd⟩).mono fun r s2 h => ⟨h, by rw [h.frame.rest], ?_⟩
  obtain ⟨K, n, hc2⟩ := h.holding
  exact ⟨_, _, _, _, _, hc2⟩

lemma syscall_names_settles (hnone : Q (-1) s) {c : Call} (hnames : c.Names) :
    Ends (Fits B) stop (syscall G t c) s Q := by
  have hmknod : ∀ path type major minor,
      Ends (Fits B) stop (sysMknod G t path type major minor) s Q := by
    intro path type major minor
    refine hs.transaction hcwd hroom hstop hQ fun s1 hc1 hr1 => ?_
    cases hpath : argstr path with
    | none => exact .ret ⟨⟨_, _, hc1⟩, .refl _ _, fun _ => rfl⟩
    | some p =>
      exact mknod_ends hroom hc1 hr1 hstop (zero_notMem_of_argstr hpath) type major minor
  cases c with
  | link old new =>
    rw [syscall, sysLink]
    cases hold : argstr old with
    | none => exact .ret hnone
    | some o =>
      show Ends _ _ (inOp G t new _) s _
      rw [inOp]
      cases hnew : argstr new with
      | none => exact .ret hnone
      | some n =>
        exact hs.transaction hcwd hroom hstop hQ fun s1 hc1 hr1 => link_ends hroom hc1 hr1 hstop
          (zero_notMem_of_argstr hold) (zero_notMem_of_argstr hnew)
  | unlink path =>
    rw [syscall, sysUnlink, inOp]
    cases hpath : argstr path with
    | none => exact .ret hnone
    | some p =>
      exact hs.transaction hcwd hroom hstop hQ fun s1 hc1 hr1 => unlink_ends hroom hc1 hr1 hstop
        (zero_notMem_of_argstr hpath)
  | mkdir path => exact hmknod path T_DIR 0 0
  | mknod path major minor => exact hmknod path T_DEVICE major minor
  | «open» | dup | read | write | fstat | close | chdir | exec | exit =>
    exact absurd hnames not_false

end

lemma syscall_names_ends (hs : WellFormed G s) (hcwd : (s.proc t).cwd ≠ none) (hroom : Room B G)
    (hstop : ∀ m, stop m) {c : Call} (hnames : c.Names) :
    Ends (Fits B) stop (syscall G t c) s fun r s' => r = -1 → tree G s'.blk = tree G s.blk :=
  syscall_names_settles hs hcwd hroom hstop (fun _ _ _ _ h => h.tree_eq) (fun _ => rfl) hnames

end

/-- The inodes have the same types, link counts, sizes and contents, and the directories the same
name maps. -/
def SameTree (G : Geometry) (d d' : Disk) : Prop :=
  ∀ i, i < G.ninodes →
    (G.din d' i).type = (G.din d i).type ∧ (G.din d' i).nlink = (G.din d i).nlink ∧
    (G.din d' i).size = (G.din d i).size ∧
    ((G.din d i).type ≠ 0 → content d' (G.din d' i) = content d (G.din d i)) ∧
    ((G.din d i).type = T_DIR → ∀ name,
      findEntry d' (G.din d' i) name = findEntry d (G.din d i) name)

lemma SameTree.of_tree {G : Geometry} {d d' : Disk} (h : tree G d' = tree G d) :
    SameTree G d d' := by
  intro i hi
  have hi' := congrFun h i
  rw [tree_of_lt hi, tree_of_lt hi] at hi'
  have htype : (G.din d' i).type = (G.din d i).type := congrArg Node.type hi'
  have hsize : (G.din d' i).size = (G.din d i).size := congrArg Node.size hi'
  have hbytes : (G.din d i).type ≠ 0 → content d' (G.din d' i) = content d (G.din d i) := by
    intro hne
    have heq := congrArg Node.bytes hi'
    rw [node, node] at heq
    simpa only [htype, if_neg hne] using heq
  refine ⟨htype, congrArg Node.nlink hi', hsize, hbytes, fun hdir => findEntry_congr hsize ?_⟩
  refine congrFun (hbytes ?_)
  rw [hdir]
  exact T_DIR_ne_zero

/-- Failed link, unlink, mkdir and mknod leave the tree as it was. -/
theorem failed_call_keeps_tree {N : ℕ} (G : Geometry) (s : St N) (hs : WellFormed G s) (t : Fin N)
    (hcwd : (s.proc t).cwd ≠ none) (c : Call) (hc : c.Names) (s' : St N)
    (hrun : (syscall G t c).Completes s (-1) s') :
    SameTree G s.blk s'.blk := by
  have hends : Ends (Fits fun _ _ => True) (fun _ => True) (syscall G t c) s fun r s' =>
      r = -1 → tree G s'.blk = tree G s.blk :=
    syscall_names_ends hs hcwd (room_true G) (fun _ => trivial) hc
  exact .of_tree (hends.of_completes (hs.holding (K := ∅) (n := 0) t trivial).toFits hrun rfl)

/-- `link("/a", "/a")` fails after it has changed the link count. -/
theorem failed_call_keeps_tree_link : ∃ s',
    (syscall smallGeometry 0 (.link (some [slash, 97]) (some [slash, 97]))).Completes
      smallState (-1) s' ∧
    (smallGeometry.din s'.blk 2).nlink = (smallGeometry.din smallState.blk 2).nlink := by
  have hgo : (Prog.go 200 (syscall smallGeometry 0 (.link (some [slash, 97]) (some [slash, 97])))
      smallState).any (fun r => r.1 == -1) = true := by
    decide +kernel
  obtain ⟨r, s', hrun, hr⟩ := Prog.exists_completes_of_go _ hgo
  obtain rfl : r = -1 := eq_of_beq hr
  exact ⟨s', hrun, (failed_call_keeps_tree smallGeometry smallState wellFormed_smallState 0
    (by decide) (.link (some [slash, 97]) (some [slash, 97])) trivial s' hrun 2 (by decide)).2.1⟩

/-! ## `open` -/

lemma sysOpen_ends {N : ℕ} {B : Finset ℕ → ℕ → Prop} {G : Geometry} {t : Fin N} {s : St N}
    {stop : Option Panic → Prop} (hs : WellFormed G s) (hcwd : (s.proc t).cwd ≠ none)
    (hroom : Room B G) (hstop : ∀ m, stop m) (arg : Option Path) (omode : UInt32) :
    Ends (Fits B) stop (sysOpen G t arg omode) s fun r s' => r = -1 →
      (¬ ∃ path, argstr arg = some path ∧ MakesInVain G s t path omode) ∧
        s'.proc = s.proc ∧ s'.ftable = s.ftable ∧ tree G s'.blk = tree G s.blk ∨
      (∃ path, argstr arg = some path ∧ MakesInVain G s t path omode) ∧
        ∃ i, (tree G s'.blk i).type ≠ (tree G s.blk i).type := by
  rw [sysOpen, inOp]
  cases hpath : argstr arg with
  | none => exact .ret fun _ => Or.inl ⟨by rintro ⟨_, ⟨⟩, _⟩, rfl, rfl, rfl⟩
  | some path =>
    simp only [Option.some.injEq, exists_eq_left']
    have hc : Holding B G t (refsOf s) 0 ∅ ∅ 0 s :=
      hs.holding t (hroom.of_subset (i := 0) (j := 0) (Finset.empty_subset _) (Nat.zero_le _))
    refine transaction_ends (Q := fun r s' => r = -1 →
      ¬ MakesInVain G s t path omode ∧
        s'.proc = s.proc ∧ s'.ftable = s.ftable ∧ tree G s'.blk = tree G s.blk ∨
      MakesInVain G s t path omode ∧ ∃ i, (tree G s'.blk i).type ≠ (tree G s.blk i).type) hc hs.log
      (fun _ => hstop _) (fun s1 hs1 hc1 => ?_) fun r s2 journal commits h => .ret h
    have hr := hs.ready hcwd
    have hr1 : Ready G t (refsOf s) s1 := by
      rw [hs1]
      exact ⟨hr.anchored, hr.cwd⟩
    have hunused1 : ∀ f, (s1.ftable f).ref = 0 → (s1.ftable f).type = .none := by
      rw [hs1]
      exact hs.unused
    refine (open_ends hroom hc1 hr1 hstop hunused1 (zero_notMem_of_argstr hpath) omode).mono ?_
    rintro r s2 ⟨⟨own, K, n, hc2⟩, hlog2, hsame⟩
    refine ⟨fun hfail => ?_, hlog2, _, _, _, _, _, hc2⟩
    have hvain : MakesInVain G s1 t path omode ↔ MakesInVain G s t path omode := by
      rw [hs1]
      exact Iff.rfl
    rcases hsame hfail with ⟨hnot, hf2, htree2⟩ | ⟨hyes, i, hi⟩
    · rw [hf2.proc, hf2.ftable, htree2, hs1]
      exact Or.inl ⟨mt hvain.2 hnot, rfl, rfl, rfl⟩
    · rw [hs1] at hi
      exact Or.inr ⟨hvain.1 hyes, i, hi⟩

/-- A failed open changes nothing, unless it was to make a new file, could make it, and then found
the file table or the descriptors full. -/
theorem failed_open_changes_nothing {N : ℕ} (G : Geometry) (s : St N) (hs : WellFormed G s)
    (t : Fin N) (hcwd : (s.proc t).cwd ≠ none) (arg : Option Path) (omode : UInt32)
    (s' : St N) (hrun : (sysOpen G t arg omode).Completes s (-1) s') :
    (SameTree G s.blk s'.blk ∧ (s'.proc t).ofile = (s.proc t).ofile ∧
      ∀ f, (s'.ftable f).ref = (s.ftable f).ref) ↔
    ¬ ∃ path, argstr arg = some path ∧ MakesInVain G s t path omode := by
  have hstop : ∀ m : Option Panic, (fun _ => True) m := fun _ => trivial
  rcases (sysOpen_ends hs hcwd (room_true G) hstop arg omode).of_completes
    (hs.holding (K := ∅) (n := 0) t trivial).toFits hrun rfl with
    ⟨hnot, hproc, hftable, htree⟩ | ⟨hyes, i, hi⟩
  · refine iff_of_true ⟨.of_tree htree, ?_, fun f => ?_⟩ hnot
    · rw [hproc]
    · rw [hftable]
  · refine iff_of_false (fun h => hi ?_) (not_not.2 hyes)
    rw [tree, tree]
    split
    · exact (h.1 i ‹_›).1
    · rfl

/-- One process, all of whose descriptors are the same end of a pipe. -/
def fullState : St 1 :=
  { smallState with
    ftable := fun f => if f = 0 then ⟨.pipe, NOFILE, true, false, 0, 0, 0⟩
      else ⟨.none, 0, false, false, 0, 0, 0⟩
    proc := fun _ => ⟨some 0, fun _ => some 0, 0⟩ }

lemma wellFormed_fullState : WellFormed smallGeometry fullState := by
  have hs := wellFormed_smallState
  refine ⟨⟨hs.fs, by decide +kernel, hs.unlocked, hs.inj, hs.lt, hs.copy, hs.alloc, fun f hf => ?_,
    hs.log, hs.op⟩, hs.anchored⟩
  by_cases h0 : f = 0
  · subst h0
    exact absurd hf (by decide)
  · show (if f = 0 then _ else _ : File).type = _
    rw [if_neg h0]

/-- `open("/x/b", O_CREATE)` with neither a directory `x` nor a free descriptor. -/
theorem failed_open_changes_nothing_full : ∃ s',
    (sysOpen smallGeometry 0 (some [slash, 120, slash, 98]) O_CREATE).Completes fullState (-1) s' ∧
    SameTree smallGeometry fullState.blk s'.blk := by
  have hnot : ¬ ∃ path, argstr (some [slash, 120, slash, 98]) = some path ∧
      MakesInVain smallGeometry fullState 0 path O_CREATE := by
    rintro ⟨path, hpath, h⟩
    obtain rfl : [slash, 120, slash, 98] = path := Option.some.inj hpath
    obtain ⟨p, hp, -⟩ := h.1.2.2.1
    have hnone : parentOf smallGeometry fullState 0 [slash, 120, slash, 98] = none := by
      decide +kernel
    rw [hnone] at hp
    cases hp
  have hgo : (Prog.go 200 (sysOpen smallGeometry 0 (some [slash, 120, slash, 98]) O_CREATE)
      fullState).any (fun r => r.1 == -1) = true := by
    decide +kernel
  obtain ⟨r, s', hrun, hr⟩ := Prog.exists_completes_of_go _ hgo
  obtain rfl : r = -1 := eq_of_beq hr
  exact ⟨s', hrun, ((failed_open_changes_nothing smallGeometry fullState wellFormed_fullState 0
    (by decide) (some [slash, 120, slash, 98]) O_CREATE s' hrun).2 hnot).1⟩

/-- `open("/b", O_CREATE)` without a free descriptor returns `-1`, and the file `b` is there: the
inode 3 is allocated, and the root has grown by an entry. -/
theorem failed_open_creates : WellFormed smallGeometry fullState ∧ ∃ s',
    (sysOpen smallGeometry 0 (some [slash, 98]) O_CREATE).Completes fullState (-1) s' ∧
    (smallGeometry.din fullState.blk 3).type = 0 ∧ (smallGeometry.din s'.blk 3).type = T_FILE ∧
    (findEntry fullState.blk (smallGeometry.din fullState.blk ROOTINO) [98]) = none ∧
    (findEntry s'.blk (smallGeometry.din s'.blk ROOTINO) [98]).map Prod.fst = some 3 ∧
    ¬ SameTree smallGeometry fullState.blk s'.blk := by
  have hgo : (Prog.go 200 (sysOpen smallGeometry 0 (some [slash, 98]) O_CREATE) fullState).any
      (fun r => r.1 == -1 && ((smallGeometry.din r.2.blk 3).type == T_FILE) &&
        ((findEntry r.2.blk (smallGeometry.din r.2.blk ROOTINO) [98]).map Prod.fst == some 3)) =
      true := by
    decide +kernel
  obtain ⟨r, s', hrun, hr⟩ := Prog.exists_completes_of_go _ hgo
  simp only [Bool.and_eq_true, beq_iff_eq] at hr
  obtain ⟨⟨rfl, htype⟩, hfind⟩ := hr
  have hfree : (smallGeometry.din fullState.blk 3).type = 0 := by decide +kernel
  have hnone : findEntry fullState.blk (smallGeometry.din fullState.blk ROOTINO) [98] = none := by
    decide +kernel
  refine ⟨wellFormed_fullState, s', hrun, hfree, htype, hnone, hfind, fun h => ?_⟩
  have h3 := (h 3 (by decide)).1
  rw [htype, hfree] at h3
  exact absurd h3 (by decide)

end Xv6.Fs
