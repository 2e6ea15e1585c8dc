import Xv6.Vm.Stack

/-!
# `exec` hands `main` its arguments

`exec` runs alone, from any memory in which the calling process has the pages that its page table
says.  It loads the segments of the file into a new page table, makes a stack with the arguments
there, and commits.  Each stage keeps an image: a page table with the mappings that its size says,
all of whose pages the call has (`Shape` and `Moves`).
-/

namespace Xv6.Vm

open Concur

variable {N : ℕ}

section

variable {K : Image} {stop : Option Panic → Prop} {m m' : St N} {R H H' : Multiset Page}
  {trapframe : Page} {p p' pt : PageTable} {n k sz : ℕ}

/-! ## Images -/

lemma Shape.lt_of_readable (hp : Shape K trapframe p n) {v : ℕ} (h : p.Readable v) : v < n := by
  obtain ⟨hmax, hvalid, huser⟩ := h
  have hv : v < 512 ^ 3 := by
    simp only [MAXVA_eq, PGSIZE_eq] at hmax
    omega
  rcases (hp.valid_iff hv).1 hvalid with hlt | rfl | rfl
  · exact hlt
  · rw [hp.trapframe] at huser
    cases huser
  · rw [hp.trampoline] at huser
    cases huser

lemma Shape.distinct (hp : Shape K trapframe p n) (hm : Accounts K m (H + p.mapped 0 n)) :
    p.Distinct := fun _ _ hv hw h =>
  hm.mapped_inj (hp.lt_of_readable hv) (hp.lt_of_readable hw) h

lemma Stored.moves {lo hi : ℕ} (h : Stored p lo hi m m') (hp : Shape K trapframe p n)
    (hm : Accounts K m (H + p.mapped 0 n)) (hR : R ≤ H) : Moves R H' H' m m' := by
  refine ⟨by rw [h.rest], fun q hq => h.others q fun v hv hpage => ?_, by rw [h.rest]⟩
  refine hm.not_mem_of_mapped (hp.lt_of_readable hv) ?_
  rw [hpage]
  exact Multiset.mem_of_le hR hq

/-! ## The stack -/

/-- The stack of the new program, with its arguments.  This fails only if there is no memory for the
stack, or no room on it for the arguments. -/
lemma makeStack_ends {argv : List (List UInt8)} (hargs : ∀ s ∈ argv, s.length < PGSIZE)
    (hargc : argv.length < MAXARG) (hp : Shape K trapframe p (npages sz))
    (hm : Accounts K m (H + p.nodes + p.mapped 0 (npages sz))) (hR : R ≤ H) :
    Ends (fun _ => True) stop (makeStack K p sz argv) m fun r m' =>
      Shape K trapframe r.2.2 (npages r.2.1) ∧
      Moves R (H + p.nodes + p.mapped 0 (npages sz))
        (H + r.2.2.nodes + r.2.2.mapped 0 (npages r.2.1)) m m' ∧
      match r.1 with
      | none => r.2.1 = pgRoundUp sz ∨ USERSTACK * PGSIZE < stackBytes argv
      | some sp => ∃ ustack, Arguments r.2.2 m' r.2.1 sp argv ustack := by
  have hlt : TRAPFRAME / PGSIZE < 512 ^ 3 := by decide
  refine (accounting K N stop).makeStack_does rfl hp hm hR (fun q m1 hq hmoves => ?_)
    fun q m1 hq hflags hguard hmoves => ?_
  · dsimp only
    rw [npages_mul, pgRoundUp_eq hp.le]
    exact ⟨hq, hmoves, .inl rfl⟩
  have hle' := hq.le
  have hm1 := hmoves.accounts hm
  generalize npages sz = n at hq hflags hguard hmoves hle' hm1 ⊢
  refine (pushStack_ends (hq.distinct hm1) (fun a h1 h2 => ?_) (fun a h1 h2 => ?_) ?_ ?_ ?_ ?_
    hargs hargc).mono ?_
  · -- the two pages of the stack
    have hv : n + 1 ≤ a / PGSIZE ∧ a / PGSIZE < n + 3 := by
      rw [Nat.le_div_iff_mul_le (by decide), Nat.div_lt_iff_lt_mul (by decide)]
      exact ⟨h1, h2⟩
    have hflags' := hflags _ hv.1 hv.2
    refine ⟨⟨?_, ?_, ?_⟩, ?_⟩
    · simp only [TRAPFRAME_eq, MAXVA_eq, PGSIZE_eq] at hle' hv ⊢
      omega
    all_goals rw [hflags']
  · -- the page that has been cleared
    have hv : a / PGSIZE = n := by
      simp only [PGSIZE_eq] at h1 h2 ⊢
      omega
    rw [hv]
    refine ⟨(hq.user n (by omega)).1, fun h => ?_⟩
    have hu := h.2.2
    rw [hguard] at hu
    cases hu
  · simp only [PGSIZE_eq]
    omega
  · simp only [PGSIZE_eq]
    omega
  · simp only [PGSIZE_eq, USERSTACK]
    omega
  · simp only [TRAPFRAME_eq, PGSIZE_eq] at hle' ⊢
    omega
  · rintro ⟨r, rsz, rpt⟩ m2 ⟨hr, hstored, hresult⟩
    obtain ⟨rfl, rfl⟩ := Prod.mk.inj hr
    dsimp only at hresult ⊢
    rw [npages_mul]
    refine ⟨hq, hmoves.trans (hstored.moves hq hm1 (hR.trans (Multiset.le_add_right _ _))), ?_⟩
    cases r with
    | none => exact .inr hresult
    | some sp => exact hresult

/-! ## `exec` -/

lemma Arguments.congr {sp : ℕ} {argv : List (List UInt8)} {ustack : List ℕ}
    (h : Arguments pt m sz sp argv ustack)
    (hdata : ∀ v, pt.Readable v → m'.data (pt.leaf v).page = m.data (pt.leaf v).page) :
    Arguments pt m' sz sp argv ustack := by
  have hbyte : ∀ r ∈ argRanges sp argv ustack, ∀ i, i < r.2 →
      pt.byte m' (r.1 + i) = pt.byte m (r.1 + i) := by
    intro r hr i hi
    have hin := h.inside r hr
    rw [PageTable.byte, hdata _ (h.stack _ (by omega) (by omega)).1, PageTable.byte]
  refine ⟨h.aligned, h.length, fun i hi => ?_, fun i hi => ?_, h.inside, h.disjoint, h.stack,
    h.guard⟩
  · rw [← h.words i hi]
    refine PageTable.word_congr fun r hr => ?_
    rw [Nat.add_assoc]
    exact hbyte _ List.mem_cons_self _ (by dsimp only; omega)
  · rw [← h.strings i hi]
    have hi' : i < ustack.length := by rw [h.length]; exact hi
    have hmem : (ustack.getD i 0, (argv.getD i []).length + 1) ∈ argRanges sp argv ustack := by
      refine List.mem_cons_of_mem _ (List.mem_iff_getElem.2 ⟨i, ?_, ?_⟩)
      · rw [List.length_zipWith]
        omega
      · rw [List.getElem_zipWith, List.getD_eq_getElem?_getD, List.getD_eq_getElem?_getD,
          List.getElem?_eq_getElem hi', List.getElem?_eq_getElem hi, Option.getD_some,
          Option.getD_some]
    exact PageTable.bytes_congr fun j hj => hbyte _ hmem j hj

variable {t : Fin N} {old : PageTable}

/-- The process `t` still has its old image, and the call has the pages `H`. -/
structure Ready (K : Image) (t : Fin N) (old : PageTable) (trapframe : Page) (sz : ℕ)
    (H : Multiset Page) (m : St N) : Prop where
  pagetable : (m.proc t).pagetable = some old
  trapframe : (m.proc t).trapframe = some trapframe
  size : (m.proc t).sz = sz
  accounts : Accounts K m H

section

variable (h : Ready K t old trapframe sz H m)

include h

lemma Ready.moves (hmoves : Moves R H H' m m') :
    Ready K t old trapframe sz H' m' :=
  ⟨by rw [hmoves.proc, h.pagetable], by rw [hmoves.proc, h.trapframe],
    by rw [hmoves.proc, h.size], hmoves.accounts h.accounts⟩

lemma Ready.update_ends {f : Proc → Proc}
    (hf : ∀ e, (f e).pagetable = e.pagetable ∧ (f e).trapframe = e.trapframe ∧ (f e).sz = e.sz) :
    Ends (fun _ => True) stop (.modify (St.update t f)) m fun _ m' =>
      Ready K t old trapframe sz H m' := by
  obtain ⟨h1, h2, h3⟩ := hf (m.proc t)
  have hproc : (m.update t f).proc t = f (m.proc t) := St.setProc_self _ _ _
  refine Ends.modify trivial ⟨?_, ?_, ?_, h.accounts⟩
  · rw [hproc, h1, h.pagetable]
  · rw [hproc, h2, h.trapframe]
  · rw [hproc, h3, h.size]

lemma Ready.closeImage_ends :
    Ends (fun _ => True) stop (closeImage t) m fun _ m' => Ready K t old trapframe sz H m' := by
  refine Ends.seq (h.update_ends ?_) fun _ m' h' => h'.update_ends ?_
  · exact fun _ => ⟨rfl, rfl, rfl⟩
  · exact fun _ => ⟨rfl, rfl, rfl⟩

lemma Ready.openImage_ends :
    Ends (fun _ => True) stop (openImage t) m fun _ m' => Ready K t old trapframe sz H m' := by
  refine Ends.seq (h.update_ends ?_) fun _ m' h' => h'.update_ends ?_
  · exact fun _ => ⟨rfl, rfl, rfl⟩
  · exact fun _ => ⟨rfl, rfl, rfl⟩

end

/-- The image that `exec` has built, with its arguments, becomes that of the process, and the old
one is freed. -/
lemma Ready.commit_ends {P : Multiset Page} {path : List UInt8} {entry sp sz' : ℕ}
    {argv : List (List UInt8)} {ustack : List ℕ} {stop : Option Panic → Prop}
    (h : Ready K t old trapframe sz
      (P + old.nodes + old.mapped 0 (npages sz) + p.nodes + p.mapped 0 (npages sz')) m)
    (hold : Shape K trapframe old (npages sz)) (hp : Shape K trapframe p (npages sz'))
    (hargs : Arguments p m sz' sp argv ustack) :
    Ends (fun _ => True) stop (do
      match ← .atomic (St.commitImage t path entry sp sz' p) with
      | none => panic .kerneltrap
      | some old => do
        procFreepagetable K old sz
        pure (argv.length : ℤ)) m fun _ m' =>
      ∃ ustack, (m'.proc t).pagetable = some p ∧ (m'.proc t).regs a1Word = sp ∧
        Arguments p m' (m'.proc t).sz sp argv ustack := by
  obtain ⟨m1, hm1⟩ : ∃ m1, m1 = m.update t fun e => { e with
      regs := setAt (setAt (setAt e.regs a1Word sp) epcWord entry) spWord sp
      name := (lastElement path).take 15
      pagetable := some p
      sz := sz' } := ⟨_, rfl⟩
  have hcommit : St.commitImage t path entry sp sz' p m = .ok (some old, m1) := by
    rw [St.commitImage, h.pagetable, hm1]
  have hproc : m1.proc t = { m.proc t with
      regs := setAt (setAt (setAt (m.proc t).regs a1Word sp) epcWord entry) spWord sp
      name := (lastElement path).take 15
      pagetable := some p
      sz := sz' } := by
    rw [hm1, St.update, St.setProc_self]
  have hdata : m1.data = m.data := by
    rw [hm1]
    rfl
  have hfree : m1.freelist = m.freelist := by
    rw [hm1]
    rfl
  refine .act hcommit trivial ?_
  have hsum : P + old.nodes + old.mapped 0 (npages sz) + p.nodes + p.mapped 0 (npages sz') =
      P + p.nodes + p.mapped 0 (npages sz') + old.nodes + old.mapped 0 (npages sz) := by
    abel
  have hacc := h.accounts
  rw [hsum, Accounts, ← hfree] at hacc
  refine Ends.seq ((accounting K N stop).procFreepagetable_does (R := p.mapped 0 (npages sz'))
    hold hacc
    (Multiset.le_add_left _ _)) fun _ m2 hmoves => .ret ⟨ustack, ?_, ?_, ?_⟩
  · rw [hmoves.proc, hproc]
  · have hsp : a1Word ≠ spWord := by decide
    have hepc : a1Word ≠ epcWord := by decide
    rw [hmoves.proc, hproc]
    show setAt (setAt (setAt (m.proc t).regs a1Word sp) epcWord entry) spWord sp a1Word = sp
    rw [setAt_of_ne _ _ hsp, setAt_of_ne _ _ hepc, setAt_self]
  · rw [hmoves.proc, hproc]
    refine hargs.congr fun v hv => ?_
    rw [hmoves.data _ (PageTable.mem_mapped (Nat.zero_le v) ?_), hdata]
    rw [Nat.zero_add]
    exact hp.lt_of_readable hv

lemma exec_ends {P : Multiset Page} {argv : List (List UInt8)} (path : List UInt8)
    (file : Option File) (hargs : ∀ s ∈ argv, s.length < PGSIZE) (hargc : argv.length < MAXARG)
    (h : Ready K t old trapframe sz (P + old.nodes + old.mapped 0 (npages sz)) m)
    (hold : Shape K trapframe old (npages sz)) :
    Ends (fun _ => True) stop (exec K t path file argv) m fun r m' => r = argv.length →
      ∃ pt sp ustack, (m'.proc t).pagetable = some pt ∧ (m'.proc t).regs a1Word = sp ∧
        Arguments pt m' (m'.proc t).sz sp argv ustack := by
  have hfail : ∀ {Q : Prop}, (-1 : ℤ) = argv.length → Q := fun h => by omega
  unfold exec
  refine Ends.seq (h.update_ends ?_) fun _ m1 h1 => ?_
  · exact fun _ => ⟨rfl, rfl, rfl⟩
  cases file with
  | none =>
    refine Ends.seq (h1.update_ends ?_) fun _ _ _ => .ret hfail
    exact fun _ => ⟨rfl, rfl, rfl⟩
  | some ip =>
    refine Ends.seq h1.openImage_ends fun _ m2 h2 => ?_
    split
    · exact Ends.seq h2.closeImage_ends fun _ _ _ => .ret hfail
    refine Ends.seq (P := fun e m' => e.trapframe = some trapframe ∧ m2 = m')
      (Ends.read trivial ⟨h2.trapframe, rfl⟩) ?_
    rintro e _ ⟨htf, rfl⟩
    rw [htf]
    refine Ends.seq ((accounting K N stop).procPagetable_does trapframe h2.accounts
      (Multiset.zero_le _)) ?_
    rintro (_ | pt) m3 hpt
    · exact Ends.seq (h2.moves hpt).closeImage_ends fun _ _ _ => .ret hfail
    obtain ⟨hshape, hmoves⟩ := hpt
    have h3 := h2.moves hmoves
    refine Ends.seq ((accounting K N stop).loadSegments_does ip ip.elfhdr hshape h3.accounts) ?_
    rintro ⟨ok, sz1, p⟩ m4 ⟨hp, hmoves4⟩
    have h4 := h3.moves hmoves4
    dsimp only at hp h4 ⊢
    split
    · refine Ends.seq ((accounting K N stop).procFreepagetable_does hp h4.accounts
        (Multiset.zero_le _)) fun _ m5 hmoves5 => ?_
      exact Ends.seq (h4.moves hmoves5).closeImage_ends fun _ _ _ => .ret hfail
    refine Ends.seq h4.closeImage_ends fun _ m5 h5 => ?_
    refine Ends.seq (P := fun oldsz m' => oldsz = sz ∧ m5 = m')
      (Ends.read trivial ⟨h5.size, rfl⟩) ?_
    rintro _ _ ⟨rfl, rfl⟩
    refine Ends.seq (makeStack_ends hargs hargc hp h5.accounts (Multiset.zero_le _)) ?_
    rintro ⟨sp, sz2, q⟩ m6 ⟨hq, hmoves6, hresult⟩
    have h6 := h5.moves hmoves6
    dsimp only at hq h6 hresult ⊢
    cases sp with
    | none =>
      exact Ends.seq ((accounting K N stop).procFreepagetable_does hq h6.accounts
        (Multiset.zero_le _)) fun _ _ _ => .ret hfail
    | some sp =>
      obtain ⟨ustack, hargs'⟩ := hresult
      exact (h6.commit_ends hold hq hargs').mono fun r m' hend _ =>
        let ⟨ustack, hfound⟩ := hend
        ⟨q, sp, ustack, hfound⟩

/-- `exec` with any program and any arguments, fewer than `MAXARG`, of less than a page each.  It
ends without a panic, and if it returns the number of arguments, the registers and the stack of the
new program are as they should be.  The stage of `exec` that makes the stack, from any image, fails
only if there is no memory for the pages of the stack or if the arguments do not fit in them. -/
theorem exec_arguments {argv : List (List UInt8)} (hargs : ∀ s ∈ argv, s.length < PGSIZE)
    (hargc : argv.length < MAXARG) :
    (∀ (t : Fin N) (path : List UInt8) (file : Option File) (old : PageTable) (trapframe : Page)
        (P : Multiset Page) (m : St N),
      (m.proc t).pagetable = some old → (m.proc t).trapframe = some trapframe →
      Shape K trapframe old (npages (m.proc t).sz) →
      Accounts K m (P + old.nodes + old.mapped 0 (npages (m.proc t).sz)) →
      Ends (fun _ => True) (fun _ => False) (exec K t path file argv) m fun r m' =>
        r = argv.length → ∃ pt sp ustack, (m'.proc t).pagetable = some pt ∧
          (m'.proc t).regs a1Word = sp ∧ Arguments pt m' (m'.proc t).sz sp argv ustack) ∧
    (∀ (pt : PageTable) (sz : ℕ) (trapframe : Page) (P : Multiset Page) (m : St N),
      Shape K trapframe pt (npages sz) → Accounts K m (P + pt.nodes + pt.mapped 0 (npages sz)) →
      Ends (fun _ => True) (fun _ => False) (makeStack K pt sz argv) m fun r _ =>
        r.1 = none → r.2.1 = pgRoundUp sz ∨ USERSTACK * PGSIZE < stackBytes argv) := by
  refine ⟨fun t path file old trapframe P m hpt htf hold hm => ?_,
    fun pt sz trapframe P m hp hm => ?_⟩
  · exact exec_ends path file hargs hargc ⟨hpt, htf, rfl, hm⟩ hold
  · refine (makeStack_ends hargs hargc hp hm (Multiset.zero_le _)).mono ?_
    rintro ⟨r, sz', p⟩ m' ⟨-, -, hresult⟩ hr
    dsimp only at hr
    subst hr
    exact hresult

end

/-- The empty program with one argument. -/
theorem exec_arguments_one : ∃ m', (exec smallImage 0 [] (some emptyProgram) [[97]]).Completes
    smallMemory 1 m' ∧ ∃ pt sp ustack, (m'.proc 0).pagetable = some pt ∧
      (m'.proc 0).regs a1Word = sp ∧ Arguments pt m' (m'.proc 0).sz sp [[97]] ustack := by
  have hgo : (Prog.go 3000 (exec smallImage 0 [] (some emptyProgram) [[97]]) smallMemory).any
      (fun r => r.1 = 1) = true := by decide +kernel
  obtain ⟨r, m', hrun, hok⟩ := Prog.exists_completes_of_go _ hgo
  rw [decide_eq_true_eq] at hok
  subst hok
  have hargs : ∀ s ∈ [[(97 : UInt8)]], s.length < PGSIZE := by decide
  refine ⟨m', hrun, ((exec_arguments hargs (by decide)).1 0 [] (some emptyProgram)
    smallBoot.pagetable 557049 {557049} smallMemory rfl rfl smallBoot.shape ?_).of_completes
      trivial hrun rfl⟩
  rw [Accounts, smallBoot.nodes_eq, ← smallBoot.all]
  decide +kernel

end Xv6.Vm
