import Xv6.Vm.Alone
import Xv6.Vm.AddressSpace

/-!
# `fork` copies memory exactly

`fork` gives the child a fresh page table and copies the parent's memory into it with `uvmcopy`; if
that fails, it frees the child.  Here `uvmcopy` runs alone, with any pattern of failing allocations.
The pages `P` are those that the rest of the machine has, among them all that the parent's page
table maps.
-/

namespace Xv6.Vm

open Concur

variable {N : ℕ}

/-- What a program with the page table `pt` sees in the virtual page `v`. -/
def PageTable.view (pt : PageTable) (v : ℕ) (m : St N) : PageData := m.data (pt.leaf v).page

/-- A program with the page table `pt` stores something in the virtual page `v`, which has then the
bytes `x`. -/
def PageTable.store (pt : PageTable) (v : ℕ) (x : PageData) (m : St N) : St N :=
  m.setData (pt.leaf v).page x

/-- The table `p` has copies of the first `n` virtual pages of `old`, in new pages. -/
structure Copy (old p : PageTable) (n : ℕ) (m m' : St N) : Prop where
  flags : ∀ v, v < n → (p.leaf v).flags = (old.leaf v).flags
  bytes : ∀ v, v < n → p.view v m' = old.view v m
  fresh : ∀ v, v < n → (p.leaf v).page ∈ m.freelist
  distinct : ∀ v w, v < n → w < n → (p.leaf v).page = (p.leaf w).page → v = w
  /-- No store through one of the tables is seen through the other, whatever else is stored. -/
  apart : ∀ (s : St N) v w x, v < n → w < n →
    old.view w (p.store v x s) = old.view w s ∧ p.view w (old.store v x s) = p.view w s

/-- What is left of a copy that has failed. -/
structure Undone (K : Image) (P : Multiset Page) (trapframe : Page) (np : Fin N)
    (new p : PageTable) (m m' : St N) : Prop where
  /-- No user memory is mapped. -/
  leaves : ∀ v, v < TRAPFRAME / PGSIZE → p.leaf v = 0
  /-- Of the pages that were free, only page-table pages of the child are not free again. -/
  freed : (m'.freelist : Multiset Page) + p.nodes = m.freelist + new.nodes
  /-- `freeproc` frees the rest. -/
  freeproc : Ends (fun _ => True) (fun _ => False) (freeproc K np)
    (m'.update np fun e => { e with pagetable := some p }) fun _ m'' =>
      (m''.freelist : Multiset Page) = m.freelist + new.nodes + {trapframe} ∧
      (∀ q ∈ P, m''.data q = m.data q) ∧ ∀ t, t ≠ np → m''.proc t = m.proc t

section

variable {K : Image} {stop : Option Panic → Prop} {m m' : St N} {P R H : Multiset Page}
  {old new p : PageTable} {n sz : ℕ} {trapframe : Page} {np : Fin N}

lemma PageTable.view_store_of_ne {v w : ℕ} {x : PageData} {s : St N}
    (h : (old.leaf w).page ≠ (p.leaf v).page) : old.view w (p.store v x s) = old.view w s :=
  setAt_of_ne _ _ h

lemma Copy.of_filled
    (hfill : (accounting K N stop).Filled new p 0 n (fun v => (old.leaf v).flags)
      (fun v => old.view v m) m')
    (hmoves : Moves R (H + new.nodes) (H + p.nodes + p.mapped 0 n) m m')
    (hm : Accounts K m (H + new.nodes)) (hpages : ∀ v, v < n → (old.leaf v).page ∈ H) :
    Copy old p n m m' := by
  have hm' := hmoves.accounts hm
  refine ⟨fun v hv => ?_, fun v hv => ?_, fun v hv => ?_, fun v w hv hw => ?_,
    fun s v w x hv hw => ?_⟩
  · exact (hfill.new v (Nat.zero_le v) hv).1
  · exact (hfill.new v (Nat.zero_le v) hv).2
  · -- the page was free or in use, and what was in use still is
    have hmem : (p.leaf v).page ∈ (m.freelist : Multiset Page) + (H + new.nodes) := by
      rw [← hmoves.balance]
      exact Multiset.mem_add.2 (.inr (Multiset.mem_add.2
        (.inr (PageTable.mem_mapped (Nat.zero_le v) (by omega)))))
    rcases Multiset.mem_add.1 hmem with hfree | hused
    · exact Multiset.mem_coe.1 hfree
    · refine absurd ?_ (hm'.not_mem_of_mapped hv)
      exact Multiset.mem_of_le (add_le_add le_rfl hfill.nodes) hused
  · exact hm'.mapped_inj hv hw
  · have hne : ∀ v w, v < n → w < n → (old.leaf w).page ≠ (p.leaf v).page := by
      intro v w hv hw heq
      refine hm'.not_mem_of_mapped hv ?_
      rw [← heq]
      exact Multiset.mem_add.2 (.inl (hpages w hw))
    exact ⟨PageTable.view_store_of_ne (hne v w hv hw),
      PageTable.view_store_of_ne (hne w v hw hv).symm⟩

lemma freeproc_ends {pt : PageTable} (htf : (m.proc np).trapframe = some trapframe)
    (hpt : (m.proc np).pagetable = some pt) (hsz : (m.proc np).sz = sz)
    (hshape : Shape K trapframe pt (npages sz))
    (hm : Accounts K m (trapframe ::ₘ (H + pt.nodes + pt.mapped 0 (npages sz)))) (hR : R ≤ H) :
    Ends (fun _ => True) stop (freeproc K np) m fun _ m' =>
      (m'.freelist : Multiset Page) + H =
        m.freelist + (trapframe ::ₘ (H + pt.nodes + pt.mapped 0 (npages sz))) ∧
      (∀ q ∈ R, m'.data q = m.data q) ∧ ∀ t, t ≠ np → m'.proc t = m.proc t := by
  have hR' : R ≤ H + pt.nodes + pt.mapped 0 (npages sz) := by
    rw [add_assoc]
    exact hR.trans (Multiset.le_add_right _ _)
  rw [freeproc]
  refine Ends.seq (P := fun e m1 => e = m.proc np ∧
    m1 = m.update np fun e => { e with trapframe := none, pagetable := none })
    (.act rfl trivial (.ret ⟨rfl, rfl⟩)) ?_
  rintro - - ⟨rfl, rfl⟩
  have hfree : Ends (fun _ => True) stop (freeTrapframe K (m.proc np))
      (m.update np fun e => { e with trapframe := none, pagetable := none }) fun _ m2 =>
        Moves R (trapframe ::ₘ (H + pt.nodes + pt.mapped 0 (npages sz)))
          (H + pt.nodes + pt.mapped 0 (npages sz))
          (m.update np fun e => { e with trapframe := none, pagetable := none }) m2 := by
    rw [freeTrapframe, htf]
    exact kfree_ends hm hR'
  refine hfree.seq fun _ m2 hmoves => ?_
  have htable : Ends (fun _ => True) stop (freeTable K (m.proc np)) m2 fun _ m3 =>
      Moves R (H + pt.nodes + pt.mapped 0 (npages sz)) H m2 m3 := by
    rw [freeTable, hpt, hsz]
    exact (accounting K N stop).procFreepagetable_does hshape (hmoves.accounts hm) hR
  refine htable.seq fun _ m3 hmoves' => Ends.modify trivial ?_
  have hall := hmoves.trans hmoves'
  refine ⟨hall.balance, hall.data, fun t ht => ?_⟩
  rw [St.update, St.setProc_of_ne ht, hall.proc, St.update, St.setProc_of_ne ht]

lemma Undone.of_moves (hnew : Shape K trapframe new 0)
    (hentry : (m.proc np).trapframe = some trapframe ∧ (m.proc np).sz = 0)
    (hm : Accounts K m (P + {trapframe} + new.nodes))
    (hleaf : ∀ v, v < 512 ^ 3 → p.leaf v = new.leaf v)
    (hmoves : Moves P (P + {trapframe} + new.nodes) (P + {trapframe} + p.nodes) m m') :
    Undone K P trapframe np new p m m' := by
  refine ⟨fun v hv => ?_, ?_, ?_⟩
  · rw [hleaf v (hv.trans (by decide)), hnew.free v (Nat.zero_le v) hv]
  · refine add_right_cancel (b := P + {trapframe}) ?_
    rw [add_assoc, add_comm p.nodes, hmoves.balance, add_comm _ new.nodes, ← add_assoc]
  · have hm' := hmoves.accounts hm
    have hcons : P + {trapframe} + p.nodes = trapframe ::ₘ (P + p.nodes + p.mapped 0 0) := by
      rw [PageTable.mapped_zero, add_zero, ← Multiset.singleton_add]
      abel
    have hbal := hmoves.balance
    rw [hcons] at hm' hbal
    have hproc : (m'.update np fun e => { e with pagetable := some p }).proc np =
        { m.proc np with pagetable := some p } := by
      rw [St.update, St.setProc_self, hmoves.proc]
    have hsz : ((m'.update np fun e => { e with pagetable := some p }).proc np).sz = 0 := by
      rw [hproc]
      exact hentry.2
    refine (freeproc_ends (m := m'.update np fun e => { e with pagetable := some p }) (H := P)
      (by rw [hproc]; exact hentry.1) (by rw [hproc]) hsz (hnew.congr hleaf) hm' le_rfl).mono ?_
    rintro - m'' ⟨hbal', hdata, hothers⟩
    refine ⟨?_, fun q hq => (hdata q hq).trans (hmoves.data q hq), fun t ht => ?_⟩
    · refine add_right_cancel (b := P) ?_
      refine (hbal'.trans hbal).trans ?_
      abel
    · rw [hothers t ht, St.update, St.setProc_of_ne ht, hmoves.proc]

/-- `uvmcopy` of any parent's memory into the fresh page table of the process `np`.  It never
panics.  If it answers 0, the child has an exact copy in pages of its own; if not, it has no user
memory, all data pages are free again, and `freeproc` frees what is left.  In both cases no page of
the rest of the machine has changed, and no process. -/
theorem uvmcopy_exact (hold : old.Leaves 0 (npages sz))
    (hpages : ∀ v, v < npages sz → (old.leaf v).page ∈ P) (hnew : Shape K trapframe new 0)
    (hentry : (m.proc np).trapframe = some trapframe ∧ (m.proc np).sz = 0)
    (hm : Accounts K m (P + {trapframe} + new.nodes)) :
    Ends (fun _ => True) (fun _ => False) (uvmcopy K old new sz) m fun r m' =>
      (∀ q ∈ P, m'.data q = m.data q) ∧ m'.proc = m.proc ∧
      (r.1 = true → Copy old r.2 (npages sz) m m') ∧
      (r.1 = false → Undone K P trapframe np new r.2 m m') := by
  have hP : P ≤ P + {trapframe} := Multiset.le_add_right _ _
  refine (accounting K N _).mono ((accounting K N _).uvmcopy_does (fun v => old.view v m)
    hold (fun v hv _ m' hmoves => hmoves.data _ (hpages v hv))
    (fun v => hnew.free v (Nat.zero_le v)) hm hP) fun r m' hcopied => ?_
  cases hcopied with
  | copied hle hfill hmoves =>
    refine ⟨hmoves.data, hmoves.proc, fun _ => ?_, by rintro ⟨⟩⟩
    exact .of_filled hfill hmoves hm fun v hv => Multiset.mem_of_le hP (hpages v hv)
  | failed hleaf hmoves =>
    exact ⟨hmoves.data, hmoves.proc, by rintro ⟨⟩,
      fun _ => .of_moves hnew hentry hm hleaf hmoves⟩

end

/-! ## A parent of one page -/

/-- A page table that maps one page of user memory. -/
def smallParent : PageTable :=
  PageTable.setPte ⟨557037, .node (setAt (fun _ => none) 0 (some 557038))
    (setAt (fun _ => Radix.empty 0 1) 0 (branch 0 557039))⟩ (0 * PGSIZE)
    ⟨557040, ⟨true, true, true, true, true⟩⟩

/-- The page table of the first process without its memory. -/
def smallChild : PageTable := smallBoot.pagetable.setPte (0 * PGSIZE) 0

local instance neZero_entries : NeZero 1 := ⟨one_ne_zero⟩

/-- A memory with eight free pages, of which the allocator refuses the fourth. -/
def smallFork : St 1 :=
  { (init smallBoot 0 (fun _ => 0) (fun q _ => UInt8.ofNat q) (· == 3) : St 1) with
    freelist := List.range' 557041 8
    proc := fun _ => { smallBoot.proc fun _ => 0 with pagetable := none, sz := 0 } }

theorem uvmcopy_exact_small :
    ∃ r m', (uvmcopy smallImage smallParent smallChild 1).Completes smallFork r m' ∧
      m'.data 557040 = smallFork.data 557040 ∧
      (r.1 = true → smallParent.view 0 m' = r.2.view 0 m') := by
  have hleaf : smallParent.leaf 0 = ⟨557040, ⟨true, true, true, true, true⟩⟩ := by decide +kernel
  have hnew : Shape smallImage 557049 smallChild 0 := by
    refine smallBoot.shape.shrink (Nat.zero_le _) fun v hv => ?_
    have hone : npages PGSIZE = 1 := rfl
    have hreach : smallBoot.pagetable.table.reaches 0 = true := by decide +kernel
    rw [smallChild, PageTable.leaf_setPte hreach (by decide) hv]
    exact if_congr (by omega) rfl rfl
  have hentry : (smallFork.proc 0).trapframe = some 557049 ∧ (smallFork.proc 0).sz = 0 := ⟨rfl, rfl⟩
  have hends : Ends _ _ (uvmcopy smallImage smallParent smallChild 1) smallFork _ :=
    uvmcopy_exact (P := {557037, 557038, 557039, 557040}) (fun w _ hw => ?_) (fun v hv => ?_) hnew
      hentry ?_
  · obtain ⟨r, m', hrun, hkeep, -, hcopy, -⟩ := hends.exists_completes
    refine ⟨r, m', hrun, hkeep _ (by decide), fun hr => ?_⟩
    have hbytes := (hcopy hr).bytes 0 (by decide)
    rw [hbytes, PageTable.view, PageTable.view, hleaf]
    exact hkeep _ (by decide)
  · rw [show w = 0 by have : npages 1 = 1 := rfl; omega, hleaf]
    exact ⟨rfl, by rintro ⟨⟩⟩
  · rw [show v = 0 by have : npages 1 = 1 := rfl; omega, hleaf]
    decide
  · rw [Accounts, smallChild, PageTable.nodes_setPte, smallBoot.nodes_eq, ← smallBoot.all]
    decide +kernel

end Xv6.Vm
