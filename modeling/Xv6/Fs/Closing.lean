import Xv6.Framework.Logic
import Xv6.Fs.Effects

/-!
# Closing files, changing directory, loading a program

`fileclose`, `chdir`, `exec` and `exit`, run alone.  A closed file or a left working directory gives
back a reference that counts among the others' (`Holding.take`); its `iput` may free the inode, in a
transaction of its own.  `exec` reads the file and changes nothing.
-/

namespace Xv6.Fs

open Concur

variable {N : ℕ} {B : Finset ℕ → ℕ → Prop} {G : Geometry} {t : Fin N}
  {base own : Fin NINODE → ℕ} {L : Finset (Fin NINODE)} {K : Finset ℕ} {n : ℕ} {s s' : St N}
  {stop : Option Panic → Prop} {k : Fin NINODE}

/-! ## References of files and working directories -/

lemma card_filter_setAt {ι α : Type} [Fintype ι] [DecidableEq ι] (f : ι → α) (i : ι) (v : α)
    (p : α → Prop) [DecidablePred p] :
    (Finset.univ.filter fun j => p (setAt f i v j)).card + (if p (f i) then 1 else 0) =
      (Finset.univ.filter fun j => p (f j)).card + (if p v then 1 else 0) := by
  have h := sum_change (f := fun j => if p (f j) then 1 else 0)
    (g := fun j => if p (setAt f i v j) then 1 else 0) i fun j hj => by
      simp only [setAt_of_ne _ _ hj]
  rw [Finset.card_filter, Finset.card_filter]
  simpa only [setAt_self] using h

/-- The file counts among the holders of the slot `k`. -/
def File.Holds (x : File) (k : Fin NINODE) : Prop := 0 < x.ref ∧ x.HasInode ∧ x.ip = k

instance (x : File) (k : Fin NINODE) : Decidable (x.Holds k) := inferInstanceAs (Decidable (_ ∧ _))

lemma holders_setFile (s : St N) (f : Fin NFILE) (x : File) (k : Fin NINODE) :
    holders (s.setFile f x) k + (if (s.ftable f).Holds k then 1 else 0) =
      holders s k + (if x.Holds k then 1 else 0) := by
  have h := card_filter_setAt s.ftable f x (File.Holds · k)
  have hcwd : (Finset.univ.filter fun u => ((s.setFile f x).proc u).cwd = some k) =
      Finset.univ.filter fun u => (s.proc u).cwd = some k := rfl
  have hfile : (Finset.univ.filter fun j => 0 < ((s.setFile f x).ftable j).ref ∧
      ((s.setFile f x).ftable j).HasInode ∧ ((s.setFile f x).ftable j).ip = k) =
      Finset.univ.filter fun j => File.Holds (setAt s.ftable f x j) k := rfl
  have hfile' : (Finset.univ.filter fun j => 0 < (s.ftable j).ref ∧ (s.ftable j).HasInode ∧
      (s.ftable j).ip = k) = Finset.univ.filter fun j => File.Holds (s.ftable j) k := rfl
  rw [holders, holders, hcwd, hfile, hfile']
  omega

lemma holders_setCwd (s : St N) (t : Fin N) (c : Option (Fin NINODE)) (k : Fin NINODE) :
    holders (s.setCwd t c) k + (if (s.proc t).cwd = some k then 1 else 0) =
      holders s k + (if c = some k then 1 else 0) := by
  have h := card_filter_setAt s.proc t { s.proc t with cwd := c } fun x => x.cwd = some k
  have hcwd : (Finset.univ.filter fun u => ((s.setCwd t c).proc u).cwd = some k) =
      Finset.univ.filter fun u => (setAt s.proc t { s.proc t with cwd := c } u).cwd = some k := rfl
  have hfile : (Finset.univ.filter fun j => 0 < ((s.setCwd t c).ftable j).ref ∧
      ((s.setCwd t c).ftable j).HasInode ∧ ((s.setCwd t c).ftable j).ip = k) =
      Finset.univ.filter fun j => 0 < (s.ftable j).ref ∧ (s.ftable j).HasInode ∧
        (s.ftable j).ip = k := rfl
  rw [holders, holders, hcwd, hfile]
  change _ + _ = _ + (if c = some k then 1 else 0) at h
  omega

lemma Holding.take (hc : Holding B G t base own L K n s) (hk : 0 < base k) :
    Holding B G t (base - one k) (own + one k) L K n s := by
  refine hc.regroup (fun j => ?_) fun j hj => hc.alloc j (hj.trans_le (Nat.sub_le _ _))
  simp only [Pi.add_apply, Pi.sub_apply]
  by_cases hj : j = k
  · subst hj
    rw [one_self]
    omega
  · rw [one_of_ne hj, Nat.sub_zero, Nat.add_zero]

lemma AtRest.of_holding (hc : Holding B G t base 0 ∅ K n s) (hbase : ∀ k, base k = holders s k)
    (hunused : ∀ f, (s.ftable f).ref = 0 → (s.ftable f).type = .none)
    (hlog : s.log = .init s.log.size) (hop : ∀ t, s.op t = false) : AtRest G s := by
  have href : ∀ k, (s.itable k).ref = base k := fun k => hc.ref_eq k
  refine ⟨hc.fs, fun k => (href k).trans (hbase k), fun k => ?_, fun j k hj hk => ?_,
    fun k hk => ?_,
    fun k hk hv => ?_, fun k hk => ?_, hunused, hlog, hop⟩
  · rw [hc.lock_eq, if_neg (Finset.notMem_empty k)]
  · rw [href] at hj hk
    exact hc.inj j k hj hk
  · rw [href] at hk
    exact hc.lt k hk
  · rw [href] at hk
    exact (hc.copy k hk hv).1
  · rw [href] at hk
    exact hc.alloc k hk

lemma iput_last (hroom : Room B G) (hc : Holding B G t base (own + one k) ∅ ∅ 0 s)
    (hstop : ∀ m, stop m) :
    Ends (Fits B) stop (iput G t k) s fun _ s' =>
      (∃ K n, Holding B G t base own ∅ K n s') ∧ Frame (base + own) s s' := by
  have hc' := hc.mono (Finset.empty_subset (inodeBlocks G (s.itable k).inum (s.itable k).inum))
    le_rfl
    (hroom.of_subset subset_rfl (by omega))
  refine (iput_ends hc' (fun h => absurd h (Finset.notMem_empty k)) (bitmap_subset G _ _)
    (left_mem_inodeBlocks G _ _) (.of_all hstop)).mono ?_
  rintro _ s' ⟨hc1, hf1, -, -⟩
  exact ⟨⟨_, _, hc1⟩, hf1⟩

/-! ## `fileclose` -/

lemma unused_setFile (hs : ∀ f, (s.ftable f).ref = 0 → (s.ftable f).type = .none) {f : Fin NFILE}
    {x : File} (hx : x.ref = 0 → x.type = .none) (g : Fin NFILE) :
    ((s.setFile f x).ftable g).ref = 0 → ((s.setFile f x).ftable g).type = .none := by
  show (setAt s.ftable f x g).ref = 0 → (setAt s.ftable f x g).type = .none
  exact setAt_cases g hx fun g _ => hs g

lemma AtRest.setFile (hs : AtRest G s) {f : Fin NFILE} {x : File}
    (hholds : ∀ k, x.Holds k ↔ (s.ftable f).Holds k) (hx : x.ref = 0 → x.type = .none) :
    AtRest G (s.setFile f x) := by
  refine ⟨hs.fs, fun k => ?_, hs.unlocked, hs.inj, hs.lt, hs.copy, hs.alloc,
    unused_setFile hs.unused hx, hs.log, hs.op⟩
  have h := holders_setFile s f x k
  have hif : (if x.Holds k then 1 else 0) = if (s.ftable f).Holds k then 1 else 0 := by
    simp only [hholds k]
  rw [hif] at h
  have : holders (s.setFile f x) k = holders s k := by omega
  rw [this]
  exact hs.ref_eq k

lemma dropFile_ends (hs : AtRest G s) (hfits : Fits B s) (hstop : ∀ m, stop m) (f : Fin NFILE) :
    Ends (Fits B) stop (.atomic (St.dropFile f)) s fun r s' =>
      match r with
      | none => AtRest G s' ∧ s'.proc = s.proc
      | some ff => ff = s.ftable f ∧ 0 < ff.ref ∧
        s' = s.setFile f { s.ftable f with ref := 0, type := .none } := by
  refine Ends.atomic ?_
  rw [St.dropFile]
  split
  · exact hstop _
  · split
    · rename_i hpos hmore
      refine ⟨hfits, hs.setFile (fun k => ?_) fun h => ?_, rfl⟩
      · refine and_congr_left' (iff_of_true ?_ (by omega))
        exact hmore
      · have hzero : (s.ftable f).ref - 1 = 0 := h
        omega
    · rename_i hpos hlast
      exact ⟨hfits, rfl, by omega, rfl⟩

lemma fileclose_ends (hroom : Room B G) (hs : AtRest G s) (hstop : ∀ m, stop m) (f : Fin NFILE) :
    Ends (Fits B) stop (fileclose G t f) s fun _ s' => AtRest G s' ∧ s'.proc = s.proc := by
  have hB : B ∅ 0 := hroom.of_subset (i := 0) (j := 0) (Finset.empty_subset _) (Nat.zero_le _)
  have hc := hs.holding (K := ∅) (n := 0) t hB
  rw [fileclose]
  refine (dropFile_ends hs hc.toFits hstop f).seq ?_
  rintro (_ | ff) s1 h1
  · exact .ret h1
  obtain ⟨rfl, hpos, hs1⟩ := h1
  have hproc : s1.proc = s.proc := by rw [hs1]; rfl
  have hnot : ∀ k, ¬ File.Holds { s.ftable f with ref := 0, type := .none } k :=
    fun k h => absurd h.1 (lt_irrefl 0)
  show Ends _ _ (if (s.ftable f).HasInode then _ else _) _ _
  by_cases hinode : (s.ftable f).HasInode
  · rw [if_pos hinode]
    set k := (s.ftable f).ip with hk
    have hholds : ∀ j, holders s1 j + one k j = holders s j := by
      intro j
      have h := holders_setFile s f { s.ftable f with ref := 0, type := .none } j
      rw [← hs1, if_neg (hnot j), Nat.add_zero] at h
      rw [← h]
      by_cases hj : j = k
      · subst hj
        rw [one_self, if_pos ⟨hpos, hinode, rfl⟩]
      · rw [one_of_ne hj, if_neg fun h => hj h.2.2.symm]
    have hrefs : ∀ j, refsOf s j = holders s j := hs.ref_eq
    have hkpos : 0 < refsOf s k := by
      have := hholds k
      rw [one_self] at this
      rw [hrefs]
      omega
    have hc1 : Holding B G t (refsOf s - one k) (0 + one k) ∅ ∅ 0 s1 := by
      have h := (hc.take hkpos)
      rw [hs1]
      exact h.congr rfl rfl h.log hB
    have hlog1 : s1.log = .init s1.log.size := by
      rw [hs1]
      exact hs.log
    have hunused1 : ∀ g, (s1.ftable g).ref = 0 → (s1.ftable g).type = .none := by
      rw [hs1]
      exact unused_setFile hs.unused fun _ => rfl
    rw [← Prog.bind_pure (endOp G t)]
    refine transaction_ends (Q := fun _ s2 =>
      (∃ K n, Holding B G t (refsOf s - one k) 0 ∅ K n s2) ∧ s2.proc = s.proc ∧
        s2.ftable = s1.ftable ∧ s2.op = setAt s.op t true) hc1 hlog1 (fun _ => hstop _) ?_ ?_
    · rintro s2 hs2 hc2
      refine (iput_last hroom hc2 hstop).mono ?_
      rintro _ s3 ⟨⟨K, n, hc3⟩, hf3⟩
      refine ⟨⟨⟨K, n, hc3⟩, ?_, ?_, ?_⟩, ?_, _, _, _, _, _, hc3⟩
      · rw [hf3.proc, hs2]
        exact hproc
      · rw [hf3.ftable, hs2]
      · rw [hf3.rest, hs2, hs1]
        rfl
      · rw [hf3.rest]
    · rintro _ s2 journal commits ⟨⟨K, n, hc2⟩, hproc2, hftable2, hop2⟩
      refine .ret ⟨.of_holding (t := t) (hc2.congr rfl rfl (.of_nil rfl K n) hc2.fits) (fun j => ?_)
        ?_ rfl fun u => ?_, hproc2⟩
      · have hsame : holders { s2 with
            log := Log.init s1.log.size
            journal := journal
            op := setAt s2.op t false
            commits := commits } j = holders s1 j := by
          simp only [holders, hproc2, hftable2, hproc]
        rw [hsame, Pi.sub_apply, hrefs, ← hholds j]
        omega
      · rw [hftable2]
        exact hunused1
      · show setAt s2.op t false u = false
        rw [hop2, setAt_setAt]
        by_cases hu : u = t
        · rw [hu, setAt_self]
        · rw [setAt_of_ne _ _ hu]
          exact hs.op u
  · rw [if_neg hinode]
    refine .ret ⟨?_, hproc⟩
    rw [hs1]
    exact hs.setFile (fun k => iff_of_false (hnot k) fun h => hinode h.2.1) fun _ => rfl

/-! ## `exec` -/

section

variable (hc : Holding B G t base own L K n s) (hk : k ∈ L)

include hc hk

lemma readKernel_ends (off m : ℕ) :
    Ends (Fits B) stop (readKernel G k off m) s fun _ s' => s' = s := by
  obtain ⟨r, hrun, -⟩ := readi_eq (G := G) (hc.held hk).full (fun _ _ => true) off m
  refine Ends.atomic ?_
  rw [onInode_of_eq hrun]
  exact ⟨hc.toFits, rfl⟩

lemma loadseg_ends (offset sz : ℕ) :
    Ends (Fits B) stop (loadseg G k offset sz) s fun _ s' => s' = s := by
  refine Ends.iterateMeasure (fun _ s' => s' = s) (fun i => sz - i) ?_ rfl
  rintro i s rfl
  split
  · refine (readKernel_ends hc hk _ _).seq ?_
    rintro ⟨r, buf⟩ s rfl
    simp only
    split
    · exact .ret ⟨rfl, by rw [PGSIZE]; omega⟩
    · exact .ret rfl
  · exact .ret rfl

lemma load_ends (mem : ℕ → Bool) :
    Ends (Fits B) stop (load G k mem) s fun _ s' => s' = s := by
  rw [load]
  refine (readKernel_ends hc hk _ _).seq ?_
  rintro ⟨r, elf⟩ s rfl
  simp only
  split
  · refine Ends.iterateMeasure (fun _ s' => s' = s) (fun i => rdBuf elf 56 2 - i) ?_ rfl
    rintro i s rfl
    split
    · refine (readKernel_ends hc hk _ _).seq ?_
      rintro ⟨r, ph⟩ s rfl
      simp only
      split
      · exact .ret rfl
      · split
        · exact .ret ⟨rfl, by omega⟩
        · split
          · refine (loadseg_ends hc hk _ _).seq ?_
            rintro (_ | _) s rfl
            · exact .ret rfl
            · exact .ret ⟨rfl, by omega⟩
          · exact .ret rfl
    · exact .ret rfl
  · exact .ret rfl

end

lemma exec_eq (path : Path) (mem : ℕ → Bool) (rest : ℤ) :
    exec G t path mem rest = (do
      beginOp t
      let ok ← (do
        match ← namei G t path with
        | none => pure false
        | some ip => do
          ilock G t ip
          let ok ← load G ip mem
          iunlockput G t ip
          pure ok)
      endOp G t
      if ok then pure rest else pure (-1)) := by
  rw [exec]
  refine congrArg (beginOp t >>= ·) (funext fun _ => ?_)
  rw [Prog.bind_assoc]
  refine congrArg (namei G t path >>= ·) (funext fun r => ?_)
  cases r with
  | none => rfl
  | some ip => simp only [Prog.bind_assoc]; rfl

lemma exec_ends (hc : Holding B G t base 0 ∅ ∅ 0 s) (hr : Ready G t base s)
    (hlog : s.log = .init s.log.size) (hstop : ∀ m, stop m) {path : Path} (h0 : 0 ∉ path)
    (mem : ℕ → Bool) (rest : ℤ) :
    Ends (Fits B) stop (exec G t path mem rest) s fun _ _ => True := by
  rw [exec_eq]
  refine transaction_ends (Q := fun _ _ => True) hc hlog (fun _ => hstop _) (fun s1 hs1 hc1 => ?_)
    fun ok _ _ _ _ => ?_
  · have hr1 : Ready G t base s1 := by
      rw [hs1]
      exact ⟨hr.anchored, hr.cwd⟩
    refine (namei_ends hc1 hr1 hstop h0).seq ?_
    rintro (_ | ip) s2 ⟨hf2, hb2, hc2⟩
    · exact .ret ⟨trivial, by rw [hf2.rest], _, _, _, _, _, hc2⟩
    refine (ilock_first hc2 (one_pos base ip) hstop).seq ?_
    rintro _ s3 ⟨hc3, hf3, hb3, -⟩
    have hf3' := hf2.trans hf3.left
    refine (load_ends hc3 (Finset.mem_singleton_self ip) mem).seq ?_
    rintro ok s3 rfl
    refine (iunlockput_last hc3 (hr1.anchored.frame hf3' (hb3.trans hb2))).seq ?_
    rintro _ s4 ⟨hc4, hf4, -⟩
    exact .ret ⟨trivial, by rw [(hf3'.trans hf4).rest], _, _, _, _, _, hc4⟩
  · cases ok with
    | true => exact .ret trivial
    | false => exact .ret trivial

/-! ## `chdir` -/

lemma iputCwd_ends (hroom : Room B G) (hc : Holding B G t base own ∅ ∅ 0 s) (hstop : ∀ m, stop m)
    (hcwd : (s.proc t).cwd = some k) (hk : 0 < base k) :
    Ends (Fits B) stop (iputCwd G t) s fun _ s' =>
      (∃ K n, Holding B G t (base - one k) own ∅ K n s') ∧ Frame (base - one k + own) s s' := by
  rw [iputCwd]
  refine Ends.seq (P := fun c s' => c = some k ∧ s' = s) (Ends.read hc.toFits ⟨hcwd, rfl⟩) ?_
  rintro _ s ⟨rfl, rfl⟩
  exact iput_last hroom (hc.take hk) hstop

lemma chdir_ends (hroom : Room B G) (hc : Holding B G t base 0 ∅ ∅ 0 s) (hr : Ready G t base s)
    (hstop : ∀ m, stop m) {path : Path} (h0 : 0 ∉ path) :
    Ends (Fits B) stop (chdir G t path) s fun _ s' =>
      s'.log = { s.log with lh := s'.log.lh } ∧
        ∃ base' own' L' K' n', Holding B G t base' own' L' K' n' s' := by
  rw [chdir]
  refine (namei_ends hc hr hstop h0).seq ?_
  rintro (_ | ip) s1 ⟨hf1, hb1, hc1⟩
  · exact .ret ⟨by rw [hf1.rest], _, _, _, _, _, hc1⟩
  have hin : ip ∈ ({ip} : Finset (Fin NINODE)) := Finset.mem_singleton_self ip
  refine (ilock_first hc1 (one_pos base ip) hstop).seq ?_
  rintro _ s2 ⟨hc2, hf2, hb2, -⟩
  have hf2' := hf1.trans hf2.left
  refine (inodeOf_ends hc2 hin).seq ?_
  rintro _ s2 ⟨rfl, rfl⟩
  split
  · refine (iunlockput_last hc2 (hr.anchored.frame hf2' (hb2.trans hb1))).seq ?_
    rintro _ s3 ⟨hc3, hf3, -⟩
    exact .ret ⟨by rw [(hf2'.trans hf3).rest], _, _, _, _, _, hc3⟩
  · refine (iunlock_ends hc2 hin).seq ?_
    rintro _ s3 ⟨hc3, hf3, -, -⟩
    rw [Finset.erase_singleton] at hc3
    have hf3' := hf2'.trans hf3.left
    obtain ⟨cwd, hcwd, hpos⟩ := hr.cwd
    refine (iputCwd_ends hroom hc3 hstop (by rw [hf3'.proc]; exact hcwd) hpos).seq ?_
    rintro _ s4 ⟨⟨K, n, hc4⟩, hf4⟩
    refine .ret ⟨?_, _, _, _, _, _, hc4⟩
    rw [hf4.rest]
    show ({ s3.log with lh := s4.log.lh } : Log) = { s.log with lh := s4.log.lh }
    rw [hf3'.rest]

/-! ## `close` and `exit` -/

lemma holders_congr (hcwd : ∀ u, (s'.proc u).cwd = (s.proc u).cwd) (hftable : s'.ftable = s.ftable)
    (k : Fin NINODE) : holders s' k = holders s k := by
  simp only [holders, hcwd, hftable]

lemma AtRest.setFd (hs : AtRest G s) (t : Fin N) (fd : Fin NOFILE) (f : Option (Fin NFILE)) :
    AtRest G (s.setFd t fd f) := by
  have hcwd : ∀ u, ((s.setFd t fd f).proc u).cwd = (s.proc u).cwd := by
    intro u
    show (setAt s.proc t { s.proc t with ofile := setAt (s.proc t).ofile fd f } u).cwd = _
    by_cases hu : u = t
    · subst hu
      rw [setAt_self]
    · rw [setAt_of_ne _ _ hu]
  refine ⟨hs.fs, fun k => ?_, hs.unlocked, hs.inj, hs.lt, hs.copy, hs.alloc, hs.unused, hs.log,
    hs.op⟩
  rw [holders_congr hcwd rfl]
  exact hs.ref_eq k

lemma St.setFd_cwd (s : St N) (t : Fin N) (fd : Fin NOFILE) (f : Option (Fin NFILE)) :
    ((s.setFd t fd f).proc t).cwd = (s.proc t).cwd := by
  show (setAt s.proc t { s.proc t with ofile := setAt (s.proc t).ofile fd f } t).cwd = _
  rw [setAt_self]

lemma AtRest.toFits (hs : AtRest G s) (hroom : Room B G) : Fits B s :=
  ⟨∅, 0, .of_nil (by rw [hs.log]; rfl) ∅ 0,
    hroom.of_subset (i := 0) (j := 0) (Finset.empty_subset _) (Nat.zero_le _)⟩

lemma sysClose_ends (hroom : Room B G) (hs : AtRest G s) (hstop : ∀ m, stop m) (fd : ℤ) :
    Ends (Fits B) stop (sysClose G t fd) s fun _ s' => AtRest G s' := by
  rw [sysClose]
  refine Ends.seq (P := fun _ s' => s' = s) (Ends.read (hs.toFits hroom) rfl) ?_
  rintro (_ | ⟨fd, f⟩) s rfl
  · exact .ret hs
  have hs1 := hs.setFd t fd none
  refine Ends.seq (P := fun _ s' => AtRest G s') (Ends.modify (hs1.toFits hroom) hs1) ?_
  intro _ s1 hs1
  exact (fileclose_ends hroom hs1 hstop f).seq fun _ s2 h2 => .ret h2.1

lemma exit_ends (hroom : Room B G) (hs : AtRest G s) (hcwd : (s.proc t).cwd = some k)
    (hstop : ∀ m, stop m) :
    Ends (Fits B) stop (exit G t) s fun _ s' => AtRest G s' := by
  rw [exit]
  refine Ends.seq (P := fun _ s' => AtRest G s' ∧ (s'.proc t).cwd = some k)
    (Ends.forRange (fun _ s' => AtRest G s' ∧ (s'.proc t).cwd = some k) ⟨hs, hcwd⟩ ?_
      fun _ h => h) ?_
  · rintro fd s1 ⟨hs1, hcwd1⟩
    refine Ends.seq (P := fun _ s' => s' = s1) (Ends.read (hs1.toFits hroom) rfl) ?_
    rintro (_ | f) s1 rfl
    · exact .ret ⟨hs1, hcwd1⟩
    refine (fileclose_ends hroom hs1 hstop f).seq ?_
    rintro _ s2 ⟨hs2, hproc2⟩
    have hs3 := hs2.setFd t fd none
    refine Ends.modify (hs3.toFits hroom) ⟨hs3, ?_⟩
    rw [St.setFd_cwd, hproc2]
    exact hcwd1
  rintro _ s1 ⟨hs1, hcwd1⟩
  have hB : B ∅ 0 := hroom.of_subset (i := 0) (j := 0) (Finset.empty_subset _) (Nat.zero_le _)
  have hc1 := hs1.holding (K := ∅) (n := 0) t hB
  have hpos := hs1.cwd_pos hcwd1
  refine transaction_ends (Q := fun _ s2 =>
    (∃ K n, Holding B G t (refsOf s1 - one k) 0 ∅ K n s2) ∧ s2.proc = s1.proc ∧
      s2.ftable = s1.ftable ∧ s2.op = setAt s1.op t true) hc1 hs1.log (fun _ => hstop _) ?_ ?_
  · intro s2 hs2 hc2
    refine (iputCwd_ends hroom hc2 hstop (by rw [hs2]; exact hcwd1) hpos).mono ?_
    rintro _ s3 ⟨⟨K, n, hc3⟩, hf3⟩
    refine ⟨⟨⟨K, n, hc3⟩, ?_, ?_, ?_⟩, ?_, _, _, _, _, _, hc3⟩
    · rw [hf3.proc, hs2]
    · rw [hf3.ftable, hs2]
    · rw [hf3.rest, hs2]
    · rw [hf3.rest]
  · rintro _ s2 journal commits ⟨⟨K, n, hc2⟩, hproc2, hftable2, hop2⟩
    set s3 : St N := { s2 with
      log := .init s1.log.size
      journal := journal
      op := setAt s2.op t false
      commits := commits } with hs3
    have hc3 : Holding B G t (refsOf s1 - one k) 0 ∅ K n (s3.setCwd t none) :=
      hc2.congr rfl rfl (.of_nil rfl K n) hc2.fits
    have hrest : AtRest G (s3.setCwd t none) := by
      refine .of_holding (t := t) hc3 (fun j => ?_) ?_ rfl fun u => ?_
      · have h := holders_setCwd s3 t none j
        have h3 : holders s3 j = holders s1 j :=
          holders_congr (fun u => by rw [← hproc2]) hftable2 j
        have hcwd3 : (s3.proc t).cwd = some k := by
          show (s2.proc t).cwd = some k
          rw [hproc2]
          exact hcwd1
        rw [hcwd3, h3, if_neg (Option.some_ne_none j).symm, Nat.add_zero] at h
        have href : refsOf s1 j = holders s1 j := hs1.ref_eq j
        rw [Pi.sub_apply, href, ← h]
        by_cases hj : j = k
        · rw [hj, one_self, if_pos rfl]
          omega
        · rw [one_of_ne hj, if_neg fun h => hj (Option.some.inj h).symm]
          omega
      · show ∀ f, (s2.ftable f).ref = 0 → (s2.ftable f).type = .none
        rw [hftable2]
        exact hs1.unused
      · show setAt s2.op t false u = false
        rw [hop2, setAt_setAt]
        by_cases hu : u = t
        · rw [hu, setAt_self]
        · rw [setAt_of_ne _ _ hu]
          exact hs1.op u
    exact Ends.seq (P := fun _ s' => AtRest G s') (Ends.modify hc3.toFits hrest)
      fun _ s' h => .ret h

end Xv6.Fs
