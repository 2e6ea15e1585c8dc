import Xv6.Framework.Radix
import Xv6.Param
import Mathlib.Order.Interval.Finset.Nat

/-!
# Physical memory, page tables and processes

The state on which `kernel/kalloc.c`, `kernel/vm.c`, `kernel/exec.c` and the memory part of
`kernel/proc.c` work.

A physical page is named by its number.  What is in a page depends on what it is used for: user
memory is in `data`, a page-table page is a node of a tree (`PageTable`), a trapframe is with its
process.  A page table is passed around as a value: a routine that changes it in place gets the tree
and returns the changed one, and a process whose page table is being changed has none in its entry
meanwhile.  All this agrees with the memory of the machine as long as no page is used for two
purposes at once: `walk_refines` in `Physical.lean` says so for the page tables, and `Owners.lean`
shows that no page is.

The flags of a PTE are those that the kernel sets; the bits that only the hardware sets are left
out.
-/

namespace Xv6.Vm

open Concur

/-- A physical page, by number: its address is `page * PGSIZE`. -/
abbrev Page : Type := ℕ

/-- The bytes of a page. -/
abbrev PageData : Type := Bytes PGSIZE

/-- `PTE_FLAGS` -/
structure Flags where
  v : Bool
  r : Bool
  w : Bool
  x : Bool
  u : Bool
  deriving DecidableEq, Repr

/-- A PTE of the lowest level. -/
structure Pte where
  page : Page
  flags : Flags
  deriving DecidableEq, Repr

instance : Zero Pte := ⟨⟨0, ⟨false, false, false, false, false⟩⟩⟩

instance neZero_512 : NeZero 512 := ⟨by decide⟩

/-- The entries of a page-table page and all that is below it.  A PTE of a higher level is valid if
it has a label, the page of the table that it points to. -/
abbrev Table (level : ℕ) : Type := Radix 512 Page Pte level

/-- `pagetable_t`: the page of the root and the tree. -/
structure PageTable where
  root : Page
  table : Table 2

def PX (level va : ℕ) : Fin 512 := Fin.ofNat 512 ((va >>> (12 + 9 * level)) &&& 0x1FF)

lemma PX_eq_digit (level va : ℕ) : PX level va = Radix.digit 512 level (va / PGSIZE) := by
  have hpow : 2 ^ (12 + 9 * level) = PGSIZE * 512 ^ level := by
    rw [pow_add, pow_mul]
    rfl
  refine Fin.ext ?_
  rw [PX, Fin.val_ofNat, show 0x1FF = 2 ^ 9 - 1 from rfl, Nat.and_two_pow_sub_one_eq_mod,
    Nat.shiftRight_eq_div_pow, hpow, ← Nat.div_div_eq_div_mul]
  exact Nat.mod_mod _ _

/-- `*pte` for the PTE that `walk` finds. -/
def PageTable.pte (pt : PageTable) (va : ℕ) : Pte := pt.table.get 0 (va / PGSIZE)

/-- `*pte = x` -/
def PageTable.setPte (pt : PageTable) (va : ℕ) (x : Pte) : PageTable :=
  { pt with table := pt.table.set (va / PGSIZE) x }

/-- What the calls see of `p->state`. -/
inductive Status where
  | unused
  | used
  | runnable
  | running
  | zombie
  deriving DecidableEq, Repr

/-- `struct trapframe`, by words. -/
abbrev Trapframe : Type := Fin 36 → ℕ

/-- The words of `struct trapframe` that the kernel sets. -/
def epcWord : Fin 36 := 3
@[inherit_doc epcWord] def spWord : Fin 36 := 6
@[inherit_doc epcWord] def a0Word : Fin 36 := 14
@[inherit_doc epcWord] def a1Word : Fin 36 := 15

/-- `struct proc` -/
structure Proc where
  state : Status
  /-- `p->lock`, as far as it is held from one action to the next by `wait`. -/
  locked : Bool
  xstate : ℕ
  sz : ℕ
  pagetable : Option PageTable
  trapframe : Option Page
  /-- `*p->trapframe` -/
  regs : Trapframe
  name : List UInt8
  ofile : Fin NOFILE → Option ℕ
  /-- Not in the kernel: the log operations, references to inodes and inode locks that a call of
  this process has taken and not given back. -/
  ops : ℕ
  refs : ℕ
  locks : ℕ

/-- User memory: the bytes of each page. -/
def Proc.memory (e : Proc) (data : Page → PageData) (v : ℕ) : Option PageData :=
  e.pagetable.bind fun pt =>
    if (pt.pte (v * PGSIZE)).flags.v = true ∧ v * PGSIZE < TRAPFRAME then
      some (data (pt.pte (v * PGSIZE)).page)
    else none

/-- A call of `exec` that has returned: the process before and after it. -/
structure ExecRecord where
  before : Proc
  memoryBefore : ℕ → Option PageData
  result : ℤ
  after : Proc
  memoryAfter : ℕ → Option PageData

/-- What is fixed at boot: the first page after the kernel, at `PGROUNDUP(end)`, the page of
`trampoline`, and the pages that are allocated for good (the kernel's page table and stacks, the
rings of the disk). -/
structure Image where
  first : ℕ
  trampoline : Page
  boot : List Page
  /-- The kernel is in physical memory. -/
  low : KERNBASE / PGSIZE ≤ first

/-- The pages that `kinit` hands to the allocator. -/
def Image.pages (K : Image) : Finset Page := Finset.Ico K.first (PHYSTOP / PGSIZE)

/-- The memory.  The last four fields are not in the kernel: which calls of `kalloc` fail although
there are pages, the number of calls of `kalloc`, the calls of `exec` that have returned, and the
other calls that have failed, each with the process before and after it. -/
structure St (N : ℕ) where
  proc : Fin N → Proc
  /-- `kmem.freelist` -/
  freelist : List Page
  data : Page → PageData
  /-- The pages that are a `struct pipe`. -/
  pipes : List Page
  fail : ℕ → Bool
  allocs : ℕ
  execs : List ExecRecord
  fails : List (Proc × Proc)

variable {N : ℕ}

namespace St

def setProc (p : Fin N) (e : Proc) (m : St N) : St N := { m with proc := setAt m.proc p e }

@[simp] lemma setProc_self (p : Fin N) (e : Proc) (m : St N) : (m.setProc p e).proc p = e :=
  setAt_self _ _ _

lemma setProc_of_ne {p q : Fin N} (h : q ≠ p) (e : Proc) (m : St N) :
    (m.setProc p e).proc q = m.proc q :=
  setAt_of_ne _ _ h

/-- The bytes of a page change. -/
def setData (q : Page) (x : PageData) (m : St N) : St N := { m with data := setAt m.data q x }

@[simp] lemma setData_self (q : Page) (x : PageData) (m : St N) : (m.setData q x).data q = x :=
  setAt_self _ _ _

lemma setData_of_ne {q q' : Page} (h : q' ≠ q) (x : PageData) (m : St N) :
    (m.setData q x).data q' = m.data q' :=
  setAt_of_ne _ _ h

def kalloc (m : St N) : Outcome Panic (Option Page × St N) :=
  match m.freelist with
  | [] => .ok (none, { m with allocs := m.allocs + 1 })
  | q :: rest =>
    if m.fail m.allocs = true then .ok (none, { m with allocs := m.allocs + 1 })
    else .ok (some q, { m with
      freelist := rest
      data := setAt m.data q fun _ => 5
      allocs := m.allocs + 1 })

def kfree (K : Image) (q : Page) (m : St N) : Outcome Panic (St N) :=
  if q < K.first ∨ PHYSTOP / PGSIZE ≤ q then .panic .kfree
  else .ok { m with freelist := q :: m.freelist, data := setAt m.data q fun _ => 1 }

end St

/-- Addition of `uint64`. -/
def u64 (x : ℕ) : ℕ := x % 2 ^ 64

/-- An `int` as a `uint64`; the `int` is given by its 32 bits. -/
def sext (x : ℕ) : ℕ := if x % 2 ^ 32 < 2 ^ 31 then x % 2 ^ 32 else x % 2 ^ 32 + (2 ^ 64 - 2 ^ 32)

lemma sext_of_lt {x : ℕ} (h : x < 2 ^ 31) : sext x = x := by
  have hx : x % 2 ^ 32 = x := Nat.mod_eq_of_lt (h.trans (by decide))
  rw [sext, hx, if_pos h]

/-- `PGROUNDUP` -/
def pgRoundUp (a : ℕ) : ℕ := u64 (a + (PGSIZE - 1)) / PGSIZE * PGSIZE

/-- `PGROUNDDOWN` -/
def pgRoundDown (a : ℕ) : ℕ := a / PGSIZE * PGSIZE

end Xv6.Vm
