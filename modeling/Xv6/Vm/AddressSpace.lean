import Xv6.Vm.Calls

/-!
# Address spaces, pages and `exec` in every run

The first process, as `userinit` leaves it, and what follows from the invariant for all runs that
start with it: the shape of every address space, the accounts of physical memory, and that `exec`
either fails without a trace or replaces the image.
-/

namespace Xv6.Vm

open Concur

variable {N : ℕ} {K : Image}

/-! ## The first process -/

/-- What `kinit` and `userinit` do with the pages: those of the first process, and the free list.
The tables `low1` and `low0` lead to address 0, the tables `high1` and `high0` to the trapframe and
the trampoline. -/
structure Boot (K : Image) where
  trapframe : Page
  root : Page
  low1 : Page
  low0 : Page
  high1 : Page
  high0 : Page
  /-- The page with `initcode`. -/
  code : Page
  freelist : List Page
  all : (↑(freelist ++ K.boot ++ [trapframe, root, low1, low0, high1, high0, code]) :
    Multiset Page) = K.pages.val

/-- A table of the middle level with one entry. -/
def branch (i : Fin 512) (q : Page) : Table 1 :=
  .node (setAt (fun _ => none) i (some q)) (setAt (fun _ => Radix.empty 0 0) i (Radix.empty 0 0))

namespace Boot

variable (B : Boot K)

/-- The tables without the mappings. -/
def table : Table 2 :=
  .node (setAt (setAt (fun _ => none) 255 (some B.high1)) 0 (some B.low1))
    (setAt (setAt (fun _ => Radix.empty 0 1) 255 (branch 511 B.high0)) 0 (branch 0 B.low0))

/-- The page table after `uvmfirst`. -/
def pagetable : PageTable :=
  ((PageTable.setPte ⟨B.root, B.table⟩ (TRAMPOLINE / PGSIZE * PGSIZE)
    ⟨K.trampoline, ⟨true, true, false, true, false⟩⟩).setPte (TRAPFRAME / PGSIZE * PGSIZE)
    ⟨B.trapframe, ⟨true, true, true, false, false⟩⟩).setPte (0 * PGSIZE)
    ⟨B.code, ⟨true, true, true, true, true⟩⟩

/-- The process that `userinit` makes. -/
def proc (regs : Trapframe) : Proc where
  state := .runnable
  locked := false
  xstate := 0
  sz := PGSIZE
  pagetable := some B.pagetable
  trapframe := some B.trapframe
  regs := setAt (setAt regs epcWord 0) spWord PGSIZE
  name := "initcode".toUTF8.toList
  ofile _ := none
  ops := 0
  refs := 0
  locks := 0

end Boot

/-- An entry of the process table that was never used. -/
def Proc.unused : Proc where
  state := .unused
  locked := false
  xstate := 0
  sz := 0
  pagetable := none
  trapframe := none
  regs _ := 0
  name := []
  ofile _ := none
  ops := 0
  refs := 0
  locks := 0

/-- The memory after `userinit`. -/
def init (B : Boot K) (ini : Fin N) (regs : Trapframe) (data : Page → PageData) (fail : ℕ → Bool) :
    St N where
  proc := setAt (fun _ => .unused) ini (B.proc regs)
  freelist := B.freelist
  data := data
  pipes := []
  fail := fail
  allocs := 0
  execs := []
  fails := []

lemma branch_get (i : Fin 512) (q : Page) (v : ℕ) : (branch i q).get 0 v = 0 := by
  have hempty : ∀ w, Radix.get 0 (Radix.empty 0 0 : Table 0) w = 0 := Radix.get_empty 0
  have hlabel : (fun _ : Fin 512 => (none : Option Page)) i = none := rfl
  rw [branch, Radix.get_setLabel hlabel q hempty, Radix.get_node_none]

lemma branch_labels (i : Fin 512) (q : Page) : (branch i q).labels = {q} := by
  have hlabel : (fun _ : Fin 512 => (none : Option Page)) i = none := rfl
  rw [branch, Radix.labels_setLabel hlabel, Radix.labels_node_none, Radix.labels_empty, zero_add]
  rfl

namespace Boot

variable (B : Boot K)

lemma high_label : setAt (fun _ => none) (255 : Fin 512) (some B.high1) 0 = none := rfl

lemma table_get (v : ℕ) : B.table.get 0 v = 0 := by
  have hlabel : (fun _ : Fin 512 => (none : Option Page)) 255 = none := rfl
  rw [table, Radix.get_setLabel B.high_label B.low1 (branch_get 0 B.low0),
    Radix.get_setLabel hlabel B.high1 (branch_get 511 B.high0), Radix.get_node_none]

lemma nodes_eq : B.pagetable.nodes = {B.root, B.high1, B.high0, B.low1, B.low0} := by
  have hlabel : (fun _ : Fin 512 => (none : Option Page)) 255 = none := rfl
  rw [pagetable, PageTable.nodes_setPte, PageTable.nodes_setPte, PageTable.nodes_setPte,
    PageTable.nodes, table, Radix.labels_setLabel B.high_label, Radix.labels_setLabel hlabel,
    Radix.labels_node_none, branch_labels, branch_labels]
  rfl

lemma reaches_zero : B.table.reaches 0 = true := rfl

lemma reaches_trapframe : B.table.reaches (TRAPFRAME / PGSIZE) = true := rfl

lemma reaches_trampoline : B.table.reaches (TRAMPOLINE / PGSIZE) = true := rfl

lemma leaf_eq {v : ℕ} (hv : v < 512 ^ 3) : B.pagetable.leaf v =
    if v = 0 then ⟨B.code, ⟨true, true, true, true, true⟩⟩
    else if v = TRAPFRAME / PGSIZE then ⟨B.trapframe, ⟨true, true, true, false, false⟩⟩
    else if v = TRAMPOLINE / PGSIZE then ⟨K.trampoline, ⟨true, true, false, true, false⟩⟩
    else 0 := by
  have h1 : (PageTable.setPte ⟨B.root, B.table⟩ (TRAMPOLINE / PGSIZE * PGSIZE)
      ⟨K.trampoline, ⟨true, true, false, true, false⟩⟩).table.reaches (TRAPFRAME / PGSIZE) = true :=
    (Radix.reaches_set _ _ _ _).trans B.reaches_trapframe
  have h2 : ((PageTable.setPte ⟨B.root, B.table⟩ (TRAMPOLINE / PGSIZE * PGSIZE)
      ⟨K.trampoline, ⟨true, true, false, true, false⟩⟩).setPte (TRAPFRAME / PGSIZE * PGSIZE)
      ⟨B.trapframe, ⟨true, true, true, false, false⟩⟩).table.reaches 0 = true :=
    (Radix.reaches_set _ _ _ _).trans ((Radix.reaches_set _ _ _ _).trans B.reaches_zero)
  rw [pagetable, PageTable.leaf_setPte h2 (by decide) hv, PageTable.leaf_setPte h1 (by decide) hv,
    PageTable.leaf_setPte B.reaches_trampoline (by decide) hv, PageTable.leaf, B.table_get]

lemma shape : Shape K B.trapframe B.pagetable (npages PGSIZE) := by
  have hn : npages PGSIZE = 1 := by decide
  have htop : TRAPFRAME / PGSIZE < TRAMPOLINE / PGSIZE := by decide
  have h0 : 0 < TRAPFRAME / PGSIZE := by decide
  rw [hn]
  refine ⟨by decide, fun v hv => ?_, ?_, ?_, fun v hv h1 h2 h3 => ?_⟩
  · rw [B.leaf_eq (by omega), if_pos (by omega)]
    exact ⟨rfl, rfl⟩
  · rw [B.leaf_eq (by decide), if_neg (by omega), if_pos rfl]
  · rw [B.leaf_eq (by decide), if_neg (by omega), if_neg (by omega), if_pos rfl]
  · rw [B.leaf_eq hv, if_neg (by omega), if_neg h2, if_neg h3]

lemma proc_pages (regs : Trapframe) : (B.proc regs).pages =
    ↑[B.trapframe, B.root, B.low1, B.low0, B.high1, B.high0, B.code] := by
  have hmapped : B.pagetable.mapped 0 (npages PGSIZE) = {B.code} := by
    show B.pagetable.mapped 0 1 = {B.code}
    rw [PageTable.mapped_succ, B.leaf_eq (by decide), if_pos rfl]
    rfl
  simp only [Proc.pages, Proc.framePages, Proc.tablePages, proc, hmapped, B.nodes_eq,
    ← Multiset.cons_coe, Multiset.coe_nil, Multiset.insert_eq_cons, ← Multiset.singleton_add]
  abel

end Boot

lemma start_sound (B : Boot K) (ini : Fin N) (regs : Trapframe) (data : Page → PageData)
    (fail : ℕ → Bool) :
    Kernel.Sound (rules K N) (fun _ => Rest K) (Sys.start (init B ini regs data fail)) := by
  refine Kernel.Sound.of_start (L := fun _ => ⟨0, none, none, none⟩) ?_
    fun t => ⟨rfl, rfl, rfl, by rintro _ ⟨⟩⟩
  have hproc : ∀ p, (init B ini regs data fail).proc p = if p = ini then B.proc regs else .unused :=
    fun p => rfl
  refine ⟨fun q => ?_, fun t e he => (by cases he), fun p hp => ?_, fun t p e he => (by cases he),
    fun t u p e e' he => (by cases he), fun p => ?_, fun t g e hg => (by cases hg),
    fun r hr => (by cases hr), fun r hr => (by cases hr)⟩
  · have hsum : ∑ p, ((init B ini regs data fail).proc p).pages.count q =
        (B.proc regs).pages.count q := by
      rw [Finset.sum_eq_single ini (fun p _ hp => ?_) fun h => absurd (Finset.mem_univ ini) h]
      · rw [hproc, if_pos rfl]
      · rw [hproc, if_neg hp]
        exact Multiset.count_zero q
    have hpages : Multiset.count q K.pages.val = if q ∈ K.pages then 1 else 0 :=
      Multiset.count_eq_of_nodup K.pages.nodup
    rw [← hpages, ← B.all, owners, hsum, B.proc_pages]
    simp only [Multiset.coe_count, List.count_append, Multiset.count_zero, Finset.sum_const_zero,
      Nat.add_zero]
    rfl
  · rw [hproc] at hp
    split at hp <;> cases hp
  · rw [hproc]
    split
    · exact ⟨_, _, rfl, rfl, B.shape⟩
    · exact ⟨rfl, rfl, rfl, rfl⟩

/-- A machine with 19 pages for the allocator, of which the first process has seven. -/
def smallImage : Image := ⟨557037, 524290, [], by decide⟩

@[inherit_doc smallImage]
def smallBoot : Boot smallImage where
  trapframe := 557049
  root := 557050
  low1 := 557051
  low0 := 557052
  high1 := 557053
  high0 := 557054
  code := 557055
  freelist := List.range' 557037 12
  all := rfl

local instance neZero_procs : NeZero 1 := ⟨one_ne_zero⟩

@[inherit_doc smallImage]
def smallMemory : St 1 := init smallBoot 0 (fun _ => 0) (fun _ _ => 0) fun _ => false

@[inherit_doc smallImage]
def smallStart : Sys Panic (St 1) (Fin 1) := Sys.start smallMemory

/-! ## Every run -/

section Runs

variable {B : Boot K} {ini : Fin N} {regs : Trapframe} {data : Page → PageData} {fail : ℕ → Bool}
  {S : Sys Panic (St N) (Fin N)}

/-- The leaf mappings of the page table, which has 512 ^ 3 leaves, are one for each page of the
size, and those of the trapframe and the trampoline. -/
def Proc.MapsExactly (e : Proc) : Prop :=
  ∃ pt, e.pagetable = some pt ∧ ∀ v, v < 512 ^ 3 →
    ((pt.pte (v * PGSIZE)).flags.v = true ↔ v < pgRoundUp e.sz / PGSIZE ∨
      v = TRAPFRAME / PGSIZE ∨ v = TRAMPOLINE / PGSIZE)

lemma Proc.Ok.mapsExactly {e : Proc} (h : e.Ok K) : e.MapsExactly := by
  obtain ⟨pt, q, hpt, -, hshape⟩ := h
  refine ⟨pt, hpt, fun v hv => ?_⟩
  rw [PageTable.pte_mul, pgRoundUp_eq hshape.le, mul_PGSIZE_div]
  exact hshape.valid_iff hv

lemma Inv.balance_of_rest {m : St N} {L : Fin N → Hold N} (h : Inv K m L)
    (hrest : ∀ t, Rest K (L t)) (q : Page) :
    m.freelist.count q + K.boot.count q + m.pipes.count q + ∑ p, (m.proc p).pages.count q =
      if q ∈ K.pages then 1 else 0 := by
  have hheld : ∑ t, (L t).held.count q = 0 := by
    refine Finset.sum_eq_zero fun t _ => ?_
    rw [(hrest t).held, Multiset.count_zero]
  rw [← h.balance q, owners, hheld, Nat.add_zero]

/-- The address spaces of every run.  A running process has, between system calls, the mappings that
its size says, and so has a process that waits to run for the first time or has exited; and nothing
stops the machine. -/
theorem address_space_shape
    (h : (kernel K N).Reachable (Sys.start (init B ini regs data fail)) S) :
    (∀ t, S.thr t = .ret () → (S.mem.proc t).state = .running → (S.mem.proc t).MapsExactly) ∧
    (∀ p, (S.mem.proc p).state = .runnable ∨
      (S.mem.proc p).state = .zombie ∧ (S.mem.proc p).locked = false →
      (S.mem.proc p).MapsExactly) ∧
    ∀ m, ¬ Kernel.Panics S m := by
  have hsound := Kernel.invariant calls_safe (start_sound B ini regs data fail) h
  have hpanic : ∀ m, ¬ Kernel.Panics S m := fun m => hsound.not_panics trivial
  obtain ⟨L, hinv, hthr⟩ := hsound
  refine ⟨fun t hidle hrun => ?_, fun p hp => ?_, hpanic⟩
  · have hrest := hthr t
    rw [hidle] at hrest
    obtain ⟨e, he⟩ := Option.ne_none_iff_exists'.1 (hinv.runs t hrun)
    rw [(hinv.me t e he).1]
    exact (Rest.me hrest e he).mapsExactly
  · have hset := hinv.settled p
    rcases hp with hp | ⟨hp, hlock⟩
    · simp only [Proc.Settled, hp] at hset
      exact hset.mapsExactly
    · simp only [Proc.Settled, hp] at hset
      exact (hset hlock).mapsExactly

/-- The first process grows by one byte, and then has two pages. -/
theorem address_space_shape_sbrk : ∃ S : Sys Panic (St 1) (Fin 1),
    (kernel smallImage 1).Reachable smallStart S ∧ S.thr 0 = .ret () ∧
    (S.mem.proc 0).sz = 4097 ∧ (S.mem.proc 0).MapsExactly ∧ ¬ Kernel.Panics S .mappagesRemap := by
  obtain ⟨S, hr, hok⟩ := Kernel.exec_reaches
    ([.call 0 .start, .run 0, .call 0 (.sbrk 1)] ++ List.replicate 10 (.run 0))
    (K := kernel smallImage 1) (S := smallStart)
    (fun S => decide ((S.thr 0).done = true ∧ (S.mem.proc 0).state = .running ∧
      (S.mem.proc 0).sz = 4097)) (by decide +kernel)
  obtain ⟨hdone, hrun, hsz⟩ := of_decide_eq_true hok
  obtain ⟨hmaps, -, hpanic⟩ := address_space_shape hr
  have hidle := Prog.eq_ret_of_done hdone
  exact ⟨S, hr, hidle, hsz, hmaps 0 hidle hrun, hpanic _⟩

/-- `exec` in every run.  If it has returned -1, the process is as it was before: page table, size,
trapframe, name, files, user memory, and what it has open of the file system.  If not, it has an
image with the mappings that its size says, has the same files and nothing more open, and none of
the pages of its old address space.  Nothing stops the machine, and between system calls every page
is accounted for. -/
theorem exec_atomic (h : (kernel K N).Reachable (Sys.start (init B ini regs data fail)) S) :
    (∀ r ∈ S.mem.execs,
      (r.result = -1 → r.after = r.before ∧ r.memoryAfter = r.memoryBefore) ∧
      (r.result ≠ -1 → r.after.MapsExactly ∧ r.after.ofile = r.before.ofile ∧
        r.after.trapframe = r.before.trapframe ∧ r.after.ops = r.before.ops ∧
        r.after.refs = r.before.refs ∧ r.after.locks = r.before.locks ∧
        ∀ q ∈ r.before.tablePages, q ∉ r.after.pages)) ∧
    (∀ m, ¬ Kernel.Panics S m) ∧
    (S.Quiet → ∀ q ∈ K.pages, S.mem.freelist.count q + K.boot.count q + S.mem.pipes.count q +
      ∑ p, (S.mem.proc p).pages.count q = 1) := by
  have hsound := Kernel.invariant calls_safe (start_sound B ini regs data fail) h
  refine ⟨fun r hr => ?_, fun m => hsound.not_panics trivial, fun hq q hmem => ?_⟩
  · obtain ⟨L, hinv, -⟩ := hsound
    obtain ⟨hfail, hdone⟩ := hinv.execs r hr
    refine ⟨hfail, fun hne => ?_⟩
    obtain ⟨hok, hrest⟩ := hdone hne
    exact ⟨hok.mapsExactly, hrest⟩
  · obtain ⟨L, hinv, hrest⟩ := hsound.rest_of_quiet hq
    rw [hinv.balance_of_rest hrest q, if_pos hmem]

/-- A program without segments: an ELF header and nothing else. -/
def emptyProgram : File := ⟨64, fun i => [0x7F, 0x45, 0x4C, 0x46].getD i 0⟩

/-- `exec` of the empty program gives the process an address space with a stack only. -/
theorem exec_atomic_emptyProgram : ∃ S : Sys Panic (St 1) (Fin 1),
    (kernel smallImage 1).Reachable smallStart S ∧ (S.mem.proc 0).sz = 12288 ∧
    ∃ r ∈ S.mem.execs, r.result = 0 ∧ r.after.MapsExactly ∧
      ∀ q ∈ r.before.tablePages, q ∉ r.after.pages := by
  obtain ⟨S, hr, hok⟩ := Kernel.exec_reaches
    ([.call 0 .start, .run 0, .call 0 (.exec (some []) (some emptyProgram) fun _ => .null)] ++
      List.replicate 2612 (.run 0))
    (K := kernel smallImage 1) (S := smallStart)
    (fun S => decide ((S.mem.proc 0).sz = 12288 ∧ S.mem.execs.map ExecRecord.result = [0]))
    (by decide +kernel)
  obtain ⟨hsz, hexecs⟩ := of_decide_eq_true hok
  obtain ⟨r, hr', hres⟩ := List.map_eq_singleton_iff.1 hexecs
  have hmem : r ∈ S.mem.execs := by
    rw [hr']
    exact List.mem_singleton_self r
  obtain ⟨hmaps, -, -, -, -, -, hfresh⟩ :=
    ((exec_atomic hr).1 r hmem).2 (by rw [hres]; decide)
  exact ⟨S, hr, hsz, r, hmem, hres, hmaps, hfresh⟩

end Runs

end Xv6.Vm
