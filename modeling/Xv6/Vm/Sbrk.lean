import Xv6.Vm.Alone
import Xv6.Vm.AddressSpace

/-!
# `sbrk` does what it reports

`sys_sbrk` runs alone in a process of any size, with any pattern of failing allocations.  If the
size and the argument add up to a number that is not negative, the call either reports the old size
and the size changes by just the argument, or it reports -1 and nothing is changed.

If the sum is negative, it wraps around as a `uint64` in `growproc`.  `uvmdealloc` takes it for a
size above the old one and does nothing, and `sys_sbrk` reports the old size as if the process had
shrunk (`sysSbrk_of_negative`).  So a sum that is not negative is just what the call needs
(`sbrk_reports`).
-/

namespace Xv6.Vm

open Concur

variable {N : ℕ}

/-- The PTE of a virtual page in the page table of a process. -/
def Proc.leaf (e : Proc) (v : ℕ) : Option Pte := e.pagetable.map fun pt => pt.leaf v

/-- The process sees the same in the virtual page `v` as before, and may do the same with it. -/
def SamePage (t : Fin N) (m m' : St N) (v : ℕ) : Prop :=
  (m'.proc t).leaf v = (m.proc t).leaf v ∧
    (m'.proc t).memory m'.data v = (m.proc t).memory m.data v

/-- What `sbrk(n)` reports, and what it does.  The pages from `PGROUNDUP(sz)` on are those with a
number of at least `npages sz`. -/
inductive Sbrk (t : Fin N) (n : ℤ) (m : St N) : ℤ → St N → Prop where
  | moved {m' : St N} : ((m'.proc t).sz : ℤ) = (m.proc t).sz + n →
      (∀ v, v < npages (m.proc t).sz → v < npages (m'.proc t).sz → SamePage t m m' v) →
      (∀ v, npages (m.proc t).sz ≤ v → v < npages (m'.proc t).sz →
        (m'.proc t).memory m'.data v = some Bytes.zero) →
      Sbrk t n m (m.proc t).sz m'
  | failed {m' : St N} : (m'.proc t).sz = (m.proc t).sz →
      (∀ v, v < 512 ^ 3 → SamePage t m m' v) → Sbrk t n m (-1) m'

section

variable {K : Image} {stop : Option Panic → Prop} {m m' : St N} {P H : Multiset Page} {t : Fin N}
  {trapframe : Page} {pt pt' : PageTable} {v : ℕ}

lemma Sbrk.size_eq {n r : ℤ} (h : Sbrk t n m r m') :
    r = (m.proc t).sz ∧ ((m'.proc t).sz : ℤ) = (m.proc t).sz + n ∨
      r = -1 ∧ (m'.proc t).sz = (m.proc t).sz := by
  cases h with
  | moved hsz _ _ => exact .inl ⟨rfl, hsz⟩
  | failed hsz _ => exact .inr ⟨rfl, hsz⟩

section

variable (hpt : (m.proc t).pagetable = some pt)

include hpt

lemma SamePage.of_leaf (hpt' : (m'.proc t).pagetable = some pt') (hleaf : pt'.leaf v = pt.leaf v)
    (hdata : (pt.leaf v).flags.v = true → v * PGSIZE < TRAPFRAME →
      m'.data (pt.leaf v).page = m.data (pt.leaf v).page) : SamePage t m m' v := by
  refine ⟨?_, ?_⟩
  · rw [Proc.leaf, Proc.leaf, hpt, hpt', Option.map_some, Option.map_some, hleaf]
  · simp only [Proc.memory, hpt, hpt', Option.bind_some, PageTable.pte_mul, hleaf]
    split
    · rename_i h
      rw [hdata h.1 h.2]
    · rfl

lemma memory_eq_zero (hvalid : (pt.leaf v).flags.v = true)
    (hv : v < TRAPFRAME / PGSIZE) (hdata : m.data (pt.leaf v).page = Bytes.zero) :
    (m.proc t).memory m.data v = some Bytes.zero := by
  have hlt : v * PGSIZE < TRAPFRAME := by
    simp only [TRAPFRAME_eq, PGSIZE_eq] at hv ⊢
    omega
  simp only [Proc.memory, hpt, Option.bind_some, PageTable.pte_mul]
  rw [if_pos ⟨hvalid, hlt⟩, hdata]

lemma takeTable_ends :
    Ends (fun _ => True) stop (.atomic (St.takeTable t)) m fun r m' =>
      pt = r ∧ m' = m.update t fun e => { e with pagetable := none } := by
  refine Ends.atomic ?_
  rw [St.takeTable, hpt]
  exact ⟨trivial, rfl, rfl⟩

end

lemma putTable_ends (hproc : m'.proc = (m.update t fun e => { e with pagetable := none }).proc)
    (f : Proc → Proc) : Ends (fun _ => True) stop (.modify (St.update t f)) m' fun _ m'' =>
      m''.proc t = f { m.proc t with pagetable := none } ∧ m''.data = m'.data := by
  refine Ends.modify trivial ⟨?_, rfl⟩
  rw [St.update, St.setProc_self, hproc, St.update, St.setProc_self]

lemma Shape.mem_mapped {n : ℕ} (hshape : Shape K trapframe pt n)
    (hvalid : (pt.leaf v).flags.v = true) (hv : v * PGSIZE < TRAPFRAME) :
    (pt.leaf v).page ∈ pt.mapped 0 n := by
  have hlt : v < TRAPFRAME / PGSIZE := by
    simp only [TRAPFRAME_eq, PGSIZE_eq] at hv ⊢
    omega
  have htop : TRAPFRAME / PGSIZE < TRAMPOLINE / PGSIZE := by decide
  refine PageTable.mem_mapped (Nat.zero_le v) ?_
  rcases (hshape.valid_iff (hlt.trans (by decide))).1 hvalid with h | h | h <;> omega

lemma growproc_grow_ends {n : Int32} (hn : 0 < n.toInt) (hpt : (m.proc t).pagetable = some pt)
    (hshape : Shape K trapframe pt (npages (m.proc t).sz))
    (hm : Accounts K m (P + pt.mapped 0 (npages (m.proc t).sz) + pt.nodes)) :
    Ends (fun _ => True) stop (growproc K t n) m fun r m' =>
      Sbrk t n.toInt m (if r = true then ((m.proc t).sz : ℤ) else -1) m' ∧
        (r = true → npages (m'.proc t).sz ≤ 32768) := by
  have hle := hshape.le
  have hbound := n.toInt_lt
  obtain ⟨newsz, hnewsz⟩ : ∃ newsz : ℕ, (newsz : ℤ) = (m.proc t).sz + n.toInt :=
    ⟨((m.proc t).sz + n.toInt).toNat, by omega⟩
  have hwrap : (((m.proc t).sz + n.toInt) % 2 ^ 64).toNat = newsz := by
    simp only [npages, TRAPFRAME_eq, PGSIZE_eq] at hle
    omega
  rw [growproc]
  refine Ends.seq (P := fun sz m' => sz = (m.proc t).sz ∧ m = m') (Ends.read trivial ⟨rfl, rfl⟩) ?_
  rintro _ _ ⟨rfl, rfl⟩
  rw [if_pos hn, hwrap]
  refine (takeTable_ends hpt).seq ?_
  rintro _ _ ⟨rfl, rfl⟩
  have htaken : Accounts K (m.update t fun e => { e with pagetable := none }) _ := hm
  refine (accounting K N stop).seq ((accounting K N stop).uvmalloc_does newsz _ hle hshape.free
    (by simp) htaken le_rfl)
    fun r m' hgrown => ?_
  cases hgrown with
  | none hlt => omega
  | @grown p m' hge hle' hfill hmoves =>
    dsimp only
    rw [if_neg (by omega)]
    refine (putTable_ends hmoves.proc _).seq ?_
    rintro - m'' ⟨hproc, hdata'⟩
    have hpt' : (m''.proc t).pagetable = some p := by rw [hproc]
    have hsz' : (m''.proc t).sz = newsz := by rw [hproc]
    -- each page is one of the memory
    have hcard := K.card_le (hmoves.accounts htaken)
    simp only [Multiset.card_add, PageTable.card_mapped] at hcard
    refine .ret ⟨?_, fun _ => by rw [hsz']; omega⟩
    rw [if_pos rfl]
    refine .moved (by rw [hsz', hnewsz]) (fun v hv hv' => ?_) fun v hv hv' => ?_
    · refine .of_leaf hpt hpt' (hfill.old v ?_ (.inl hv)) fun hvalid hlt => ?_
      · exact hv.trans (lt_of_le_of_lt hle (by decide))
      · rw [hdata']
        exact hmoves.data _ (Multiset.mem_add.2 (.inr (hshape.mem_mapped hvalid hlt)))
    · rw [hsz'] at hv'
      obtain ⟨hflags, hdata⟩ := hfill.new v hv hv'
      exact memory_eq_zero hpt' (by rw [hflags]; rfl) (hv'.trans_le hle') (by rw [hdata', hdata])
  | @failed p m' hge hleaf hmoves =>
    dsimp only
    rw [if_pos rfl]
    refine (putTable_ends hmoves.proc _).seq ?_
    rintro - m'' ⟨hproc, hdata'⟩
    have hpt' : (m''.proc t).pagetable = some p := by rw [hproc]
    refine .ret ⟨?_, by rintro ⟨⟩⟩
    rw [if_neg fun h => by cases h]
    refine .failed (by rw [hproc]) fun v hv => .of_leaf hpt hpt' (hleaf v hv) fun hvalid hlt => ?_
    rw [hdata']
    exact hmoves.data _ (Multiset.mem_add.2 (.inr (hshape.mem_mapped hvalid hlt)))

lemma growproc_shrink_ends {n : Int32} (hn : n.toInt < 0) (hpt : (m.proc t).pagetable = some pt)
    (hshape : Shape K trapframe pt (npages (m.proc t).sz))
    (hm : Accounts K m (P + pt.mapped 0 (npages (m.proc t).sz) + pt.nodes)) :
    Ends (fun _ => True) stop (growproc K t n) m fun r m' => r = true ∧
      (m'.proc t).sz = min (m.proc t).sz (((m.proc t).sz + n.toInt) % 2 ^ 64).toNat ∧
      ∀ v, v < npages (m'.proc t).sz → SamePage t m m' v := by
  have hle := hshape.le
  obtain ⟨newsz, hmin⟩ : ∃ newsz, min (m.proc t).sz (((m.proc t).sz + n.toInt) % 2 ^ 64).toNat =
    newsz := ⟨_, rfl⟩
  have hk : npages newsz ≤ npages (m.proc t).sz := npages_mono (by omega)
  -- the pages that stay and those that go
  have hsplit : P + pt.mapped 0 (npages (m.proc t).sz) + pt.nodes =
      P + pt.nodes + pt.mapped 0 (npages newsz) +
        pt.mapped (npages newsz) (npages (m.proc t).sz - npages newsz) := by
    have hadd := pt.mapped_add 0 (npages newsz) (npages (m.proc t).sz - npages newsz)
    rw [Nat.add_sub_cancel' hk, Nat.zero_add] at hadd
    rw [hadd]
    abel
  rw [hsplit] at hm
  rw [growproc]
  refine Ends.seq (P := fun sz m' => sz = (m.proc t).sz ∧ m = m') (Ends.read trivial ⟨rfl, rfl⟩) ?_
  rintro _ _ ⟨rfl, rfl⟩
  rw [if_neg (by omega), if_pos hn]
  refine (takeTable_ends hpt).seq ?_
  rintro _ _ ⟨rfl, rfl⟩
  have htaken : Accounts K (m.update t fun e => { e with pagetable := none }) _ := hm
  refine Ends.seq ((accounting K N stop).uvmdealloc_does (by rw [hmin]) hle ?_ htaken le_rfl) ?_
  · exact (hshape.maps (by omega)).leaves
  rintro ⟨sz', p⟩ m' ⟨hr, -, hleaf, hmoves⟩
  dsimp only at hr hleaf ⊢
  rw [hmin] at hr
  refine (putTable_ends hmoves.proc _).seq ?_
  rintro - m'' ⟨hproc, hdata'⟩
  have hpt' : (m''.proc t).pagetable = some p := by rw [hproc]
  have hsz' : (m''.proc t).sz = newsz := by rw [hproc, hr]
  refine .ret ⟨rfl, hsz'.trans hmin.symm, fun v hv => ?_⟩
  rw [hsz'] at hv
  have hv3 : v < 512 ^ 3 := hv.trans (lt_of_le_of_lt (hk.trans hle) (by decide))
  refine .of_leaf hpt hpt' (by rw [hleaf v hv3, if_neg (by omega)]) fun _ _ => ?_
  rw [hdata']
  refine hmoves.data _ (Multiset.mem_add.2 (.inr ?_))
  exact PageTable.mem_mapped (Nat.zero_le v) (by omega)

lemma sysSbrk_ends {n : Int32} {Q : ℤ → St N → Prop}
    (h : Ends (fun _ => True) stop (growproc K t n) m fun r m' =>
      Q (if r = true then ((m.proc t).sz : ℤ) else -1) m') :
    Ends (fun _ => True) stop (sysSbrk K t n) m Q := by
  rw [sysSbrk]
  refine Ends.seq (P := fun sz m' => sz = (m.proc t).sz ∧ m = m') (Ends.read trivial ⟨rfl, rfl⟩) ?_
  rintro _ _ ⟨rfl, rfl⟩
  refine h.seq fun r m' h => ?_
  cases r with
  | true => exact .ret h
  | false => exact .ret h

lemma sysSbrk_of_negative {n : Int32} (hpt : (m.proc t).pagetable = some pt)
    (hshape : Shape K trapframe pt (npages (m.proc t).sz))
    (hm : Accounts K m (P + pt.mapped 0 (npages (m.proc t).sz) + pt.nodes))
    (hsum : (m.proc t).sz + n.toInt < 0) :
    Ends (fun _ => True) stop (sysSbrk K t n) m fun r m' =>
      r = (m.proc t).sz ∧ (m'.proc t).sz = (m.proc t).sz := by
  apply sysSbrk_ends
  refine (growproc_shrink_ends (by omega) hpt hshape hm).mono ?_
  rintro r m' ⟨rfl, hsz, -⟩
  have hle := hshape.le
  have hlow := n.le_toInt
  simp only [npages, TRAPFRAME_eq, PGSIZE_eq] at hle
  exact ⟨if_pos rfl, by omega⟩

/-- `sys_sbrk` in a process of any size does what it reports exactly if the size and the argument
add up to a number that is not negative.  It reports the old size and the size has changed by `n`,
with the memory below both sizes unchanged and the new pages filled with zeros, or it reports -1 and
nothing has changed.  `P` are the pages that the rest of the machine has. -/
theorem sbrk_reports {n : Int32} (hpt : (m.proc t).pagetable = some pt)
    (hshape : Shape K trapframe pt (npages (m.proc t).sz))
    (hm : Accounts K m (P + pt.mapped 0 (npages (m.proc t).sz) + pt.nodes)) :
    Ends (fun _ => True) (fun _ => False) (sysSbrk K t n) m (Sbrk t n.toInt m) ↔
      0 ≤ (m.proc t).sz + n.toInt := by
  constructor
  · intro h
    by_contra hsum
    obtain ⟨r, m', hrun, hr, hsz⟩ :=
      (sysSbrk_of_negative hpt hshape hm (not_le.1 hsum)).exists_completes
    have := (h.of_completes trivial hrun).size_eq
    omega
  intro hsum
  apply sysSbrk_ends
  rcases lt_trichotomy n.toInt 0 with hneg | hzero | hpos
  · refine (growproc_shrink_ends hneg hpt hshape hm).mono ?_
    rintro r m' ⟨rfl, hsz, hsame⟩
    have hle := hshape.le
    simp only [npages, TRAPFRAME_eq, PGSIZE_eq] at hle
    have hsz' : ((m'.proc t).sz : ℤ) = (m.proc t).sz + n.toInt := by omega
    have hk : npages (m'.proc t).sz ≤ npages (m.proc t).sz := npages_mono (by omega)
    exact .moved hsz' (fun v _ hv => hsame v hv) fun v h h' => by omega
  · rw [growproc]
    refine Ends.seq (P := fun _ m' => m = m') (Ends.read trivial rfl) ?_
    rintro _ _ rfl
    rw [if_neg (by omega), if_neg (by omega)]
    exact .ret (.moved (by omega) (fun v _ _ => ⟨rfl, rfl⟩) fun v h h' => by omega)
  · exact (growproc_grow_ends hpos hpt hshape hm).mono fun r m' h => h.1

end

/-! ## The first process -/

/-- `sbrk(-1)` of a process with one page. -/
theorem sbrk_reports_minus_one : ∃ r m', (sysSbrk smallImage 0 (-1)).Completes smallMemory r m' ∧
    Sbrk 0 (-1) smallMemory r m' := by
  have hsum : (0 : ℤ) ≤ (smallMemory.proc 0).sz + (-1 : Int32).toInt := by decide
  have hpt : (smallMemory.proc 0).pagetable = some smallBoot.pagetable := rfl
  have hends : Ends _ _ (sysSbrk smallImage 0 (-1)) smallMemory _ :=
    (sbrk_reports (P := {557049}) hpt smallBoot.shape ?_).2 hsum
  · exact hends.exists_completes
  · rw [Accounts, smallBoot.nodes_eq, ← smallBoot.all]
    decide +kernel

/-- `sbrk(-4097)` of the same process: the call reports the old size, as if the process had shrunk,
and the size is what it was. -/
theorem sbrk_below_zero : ∃ m', (sysSbrk smallImage 0 (-4097)).Completes smallMemory 4096 m' ∧
    (m'.proc 0).sz = 4096 ∧ ¬ Sbrk 0 (-4097) smallMemory 4096 m' := by
  have hgo : (Prog.go 30 (sysSbrk smallImage 0 (-4097)) smallMemory).any
      (fun r => r.1 = 4096 && (r.2.proc 0).sz = 4096) = true := by decide +kernel
  obtain ⟨r, m', hrun, hok⟩ := Prog.exists_completes_of_go _ hgo
  simp only [Bool.and_eq_true, decide_eq_true_eq] at hok
  obtain ⟨rfl, hsz⟩ := hok
  refine ⟨m', hrun, hsz, fun h => ?_⟩
  have hold : (smallMemory.proc 0).sz = 4096 := rfl
  generalize hr : (4096 : ℤ) = r at h
  cases h with
  | moved hnew _ _ => omega
  | failed _ _ => omega

end Xv6.Vm
