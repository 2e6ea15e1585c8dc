import Xv6.Vm.Exec

/-!
# What a page table maps

The leaf of each virtual page, the pages that a table is made of, and the shape that the page table
of a process has between system calls: `n` pages of user memory from address 0 on, the trapframe
and the trampoline at the top, and nothing in between (`Shape`).  The top two pages are not the
process's to change, so a routine that works below `TRAPFRAME` keeps them.
-/

namespace Xv6.Vm

open Concur

/-- The PTE of the virtual page `v`. -/
def PageTable.leaf (pt : PageTable) (v : ℕ) : Pte := pt.table.get 0 v

/-- The page-table pages. -/
def PageTable.nodes (pt : PageTable) : Multiset Page := pt.root ::ₘ pt.table.labels

/-- The physical pages of `n` virtual pages from `v` on. -/
def PageTable.mapped (pt : PageTable) (v n : ℕ) : Multiset Page :=
  ((List.range' v n).map fun v => (pt.leaf v).page : List Page)

/-- The number of pages of a process of size `sz`. -/
def npages (sz : ℕ) : ℕ := (sz + (PGSIZE - 1)) / PGSIZE

/-- The shape of a user page table: `n` pages of user memory, the trapframe and the trampoline. -/
structure Shape (K : Image) (trapframe : Page) (pt : PageTable) (n : ℕ) : Prop where
  le : n ≤ TRAPFRAME / PGSIZE
  user : ∀ v, v < n → (pt.leaf v).flags.v = true ∧ (pt.leaf v).flags.r = true
  trapframe : pt.leaf (TRAPFRAME / PGSIZE) = ⟨trapframe, ⟨true, true, true, false, false⟩⟩
  trampoline : pt.leaf (TRAMPOLINE / PGSIZE) = ⟨K.trampoline, ⟨true, true, false, true, false⟩⟩
  other : ∀ v, v < 512 ^ 3 → n ≤ v → v ≠ TRAPFRAME / PGSIZE → v ≠ TRAMPOLINE / PGSIZE →
    pt.leaf v = 0

/-! ## Sizes -/

lemma npages_mul (n : ℕ) : npages (n * PGSIZE) = n := by
  simp only [npages, PGSIZE_eq]
  omega

@[simp] lemma npages_zero : npages 0 = 0 := rfl

lemma npages_mono {a b : ℕ} (h : a ≤ b) : npages a ≤ npages b :=
  Nat.div_le_div_right (Nat.add_le_add_right h _)

lemma pgRoundUp_eq {sz : ℕ} (h : npages sz ≤ TRAPFRAME / PGSIZE) :
    pgRoundUp sz = npages sz * PGSIZE := by
  simp only [pgRoundUp, npages, u64, TRAPFRAME_eq, PGSIZE_eq] at h ⊢
  omega

lemma npages_eq {sz n : ℕ} (h : sz ≤ n * PGSIZE) (h' : n = 0 ∨ (n - 1) * PGSIZE < sz) :
    npages sz = n := by
  simp only [npages, PGSIZE_eq] at h h' ⊢
  omega

/-! ## Leaves -/

section

variable {pt pt' : PageTable} {v w n : ℕ}

lemma PageTable.pte_eq_leaf (pt : PageTable) (va : ℕ) : pt.pte va = pt.leaf (va / PGSIZE) := rfl

lemma PageTable.leaf_setPte_self {va : ℕ} (h : pt.table.reaches (va / PGSIZE) = true) (x : Pte) :
    (pt.setPte va x).leaf (va / PGSIZE) = x :=
  Radix.get_set_self h x

lemma PageTable.leaf_setPte_of_ne {va : ℕ} (hva : va < MAXVA) (hv : v < 512 ^ 3)
    (h : v ≠ va / PGSIZE) (x : Pte) : (pt.setPte va x).leaf v = pt.leaf v := by
  refine Radix.get_set_of_ne _ ?_ x
  have hlt : va / PGSIZE < 512 ^ 3 := by
    simp only [MAXVA_eq, PGSIZE_eq] at hva ⊢
    omega
  rwa [Nat.mod_eq_of_lt hv, Nat.mod_eq_of_lt hlt]

lemma mul_PGSIZE_div (v : ℕ) : v * PGSIZE / PGSIZE = v := Nat.mul_div_cancel v (by decide)

lemma PageTable.pte_mul (pt : PageTable) (v : ℕ) : pt.pte (v * PGSIZE) = pt.leaf v := by
  rw [PageTable.pte_eq_leaf, mul_PGSIZE_div]

lemma PageTable.leaf_setPte (h : pt.table.reaches v = true) (hv : v * PGSIZE < MAXVA)
    (hw : w < 512 ^ 3) (x : Pte) :
    (pt.setPte (v * PGSIZE) x).leaf w = if w = v then x else pt.leaf w := by
  have hdiv := mul_PGSIZE_div v
  by_cases hwv : w = v
  · subst hwv
    have hself : (pt.setPte (w * PGSIZE) x).leaf (w * PGSIZE / PGSIZE) = x :=
      PageTable.leaf_setPte_self (by rwa [hdiv]) x
    rw [hdiv] at hself
    rw [hself, if_pos rfl]
  · rw [PageTable.leaf_setPte_of_ne hv hw (by rwa [hdiv]), if_neg hwv]

@[simp] lemma PageTable.nodes_setPte (pt : PageTable) (va : ℕ) (x : Pte) :
    (pt.setPte va x).nodes = pt.nodes := by
  simp [PageTable.nodes, PageTable.setPte]

lemma PageTable.reaches_of_valid (h : (pt.leaf v).flags.v = true) :
    pt.table.reaches v = true := by
  refine Radix.reaches_of_get_ne (z := 0) fun h0 => ?_
  rw [PageTable.leaf, h0] at h
  cases h

@[simp] lemma PageTable.mapped_zero (pt : PageTable) (v : ℕ) : pt.mapped v 0 = 0 := rfl

lemma PageTable.mapped_succ (pt : PageTable) (v n : ℕ) :
    pt.mapped v (n + 1) = (pt.leaf v).page ::ₘ pt.mapped (v + 1) n := rfl

lemma PageTable.mapped_add (pt : PageTable) (v m n : ℕ) :
    pt.mapped v (m + n) = pt.mapped v m + pt.mapped (v + m) n := by
  simp only [PageTable.mapped, ← List.range'_append_1, List.map_append, Multiset.coe_add]

lemma PageTable.mapped_congr (h : ∀ w, v ≤ w → w < v + n → pt'.leaf w = pt.leaf w) :
    pt'.mapped v n = pt.mapped v n := by
  refine congrArg _ (List.map_congr_left fun w hw => ?_)
  rw [List.mem_range'_1] at hw
  rw [h w hw.1 hw.2]

lemma PageTable.mem_mapped (hv : v ≤ w) (hw : w < v + n) : (pt.leaf w).page ∈ pt.mapped v n :=
  Multiset.mem_coe.2 (List.mem_map_of_mem (List.mem_range'_1.2 ⟨hv, hw⟩))

@[simp] lemma PageTable.card_mapped (pt : PageTable) (v n : ℕ) : (pt.mapped v n).card = n := by
  simp [PageTable.mapped]

end

/-! ## Shapes -/

namespace Shape

variable {K : Image} {trapframe : Page} {pt pt' : PageTable} {n : ℕ}

lemma congr (h : Shape K trapframe pt n) (hleaf : ∀ v, v < 512 ^ 3 → pt'.leaf v = pt.leaf v) :
    Shape K trapframe pt' n := by
  have hn : n < 512 ^ 3 := lt_of_le_of_lt h.le (by decide)
  refine ⟨h.le, fun v hv => ?_, ?_, ?_, fun v hv => ?_⟩
  · rw [hleaf v (hv.trans hn)]
    exact h.user v hv
  · rw [hleaf _ (by decide)]
    exact h.trapframe
  · rw [hleaf _ (by decide)]
    exact h.trampoline
  · rw [hleaf v hv]
    exact h.other v hv

lemma valid_iff (h : Shape K trapframe pt n) {v : ℕ} (hv : v < 512 ^ 3) :
    (pt.leaf v).flags.v = true ↔
      v < n ∨ v = TRAPFRAME / PGSIZE ∨ v = TRAMPOLINE / PGSIZE := by
  constructor
  · intro hvalid
    by_contra hnot
    push Not at hnot
    obtain ⟨h1, h2, h3⟩ := hnot
    rw [h.other v hv h1 h2 h3] at hvalid
    cases hvalid
  · rintro (hlt | rfl | rfl)
    · exact (h.user v hlt).1
    · rw [h.trapframe]
    · rw [h.trampoline]

lemma shrink (h : Shape K trapframe pt n) {k : ℕ} (hk : k ≤ n)
    (hleaf : ∀ v, v < 512 ^ 3 → pt'.leaf v = if k ≤ v ∧ v < n then 0 else pt.leaf v) :
    Shape K trapframe pt' k := by
  have hle := h.le
  have htop : TRAPFRAME / PGSIZE < TRAMPOLINE / PGSIZE := by decide
  have hlt : TRAPFRAME / PGSIZE < 512 ^ 3 := by decide
  refine ⟨hk.trans hle, fun v hv => ?_, ?_, ?_, fun v hv hkv h1 h2 => ?_⟩
  · rw [hleaf v (by omega), if_neg (by omega)]
    exact h.user v (by omega)
  · rw [hleaf _ (by decide), if_neg (by omega)]
    exact h.trapframe
  · rw [hleaf _ (by decide), if_neg (by omega)]
    exact h.trampoline
  · rw [hleaf v hv]
    split
    · rfl
    · exact h.other v hv (by omega) h1 h2

end Shape

end Xv6.Vm
