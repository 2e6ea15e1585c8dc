import Xv6.Framework.Section
import Xv6.Vm.Space

/-!
# Page tables in physical memory

`walk`, `mappages` and `uvmunmap` of `kernel/vm.c` on a memory of words.  A page-table page is 512
words of 64 bits, a PTE is a word, and the pointer that `walk` answers is a page and an index.  The
macros of `kernel/riscv.h` are shifts and masks.

`kalloc` answers what the environment has ready: a page that is not one of the page table, or
nothing.

Over all histories of calls from an empty page table on, no page-table page can be reached in two
ways, and what `walk` finds is what a partial map says that the calls change at their own pages only
(`pagetable_partial_map`).  The page table can itself be mapped, and `uvmunmap` with `do_free` would
then free it; the histories are those where that does not happen
(`pagetable_frees_itself`).

The page tables of `Uvm.lean` are trees.  `walk_refines` says that words which hold a tree keep
holding it while `walk` and the stores to the PTEs it finds go on in both.
-/

namespace Xv6.Vm.Phys

open Concur

/-! ## `kernel/riscv.h` -/

def PTE_V : ℕ := 1

def PA2PTE (pa : ℕ) : ℕ := (pa >>> 12) <<< 10

def PTE2PA (pte : ℕ) : ℕ := ((pte >>> 10) <<< 12) % 2 ^ 64

def PTE_FLAGS (pte : ℕ) : ℕ := pte &&& 0x3FF

/-! ## `kernel/vm.c` -/

/-- The words of each page.  Not in the kernel: the pages that were taken for the page table, and
what `kalloc` is going to answer. -/
structure Mem where
  word : Page → Fin 512 → ℕ
  tables : List Page
  answers : List (Option Page)

abbrev Run (α : Type) : Type := StateT Mem (Outcome Panic) α

/-- `panic` -/
def panic {α : Type} (e : Panic) : Run α := fun _ => .panic e

/-- `*pte = x` -/
def set (p : Page) (i : Fin 512) (x : ℕ) : Run Unit :=
  modify fun m => { m with word := setAt m.word p (setAt (m.word p) i x) }

/-- `memset` of a page to a byte, eight of which make the word `x`. -/
def memset (p : Page) (x : ℕ) : Run Unit :=
  modify fun m => { m with word := setAt m.word p fun _ => x }

/-- `kalloc`; a page that it answers is not part of the page table. -/
def kalloc : Run (Option Page) := fun m =>
  match m.answers.headD none with
  | none => .ok (none, { m with answers := m.answers.tail })
  | some q =>
    if 0 < q ∧ q < 2 ^ 44 ∧ q ∉ m.tables then
      .ok (some q, { m with answers := m.answers.tail, tables := q :: m.tables })
    else .ok (none, { m with answers := m.answers.tail })

def kfree (K : Image) (q : Page) : Run Unit :=
  if q < K.first ∨ PHYSTOP / PGSIZE ≤ q then panic .kfree else memset q 0x0101010101010101

/-- The loop of `walk`. -/
def walkFrom (alloc : Bool) (va : ℕ) : ℕ → Page → Run (Option (Page × Fin 512))
  | 0, pagetable => pure (some (pagetable, PX 0 va))
  | level + 1, pagetable => do
    let m ← get
    let pte := m.word pagetable (PX (level + 1) va)
    if pte &&& PTE_V ≠ 0 then walkFrom alloc va level (PTE2PA pte / PGSIZE)
    else if alloc = false then pure none
    else do
      match ← kalloc with
      | none => pure none
      | some q => do
        memset q 0
        set pagetable (PX (level + 1) va) (PA2PTE (q * PGSIZE) ||| PTE_V)
        walkFrom alloc va level q

def walk (pagetable : Page) (va : ℕ) (alloc : Bool) : Run (Option (Page × Fin 512)) :=
  if MAXVA ≤ va then panic .walk else walkFrom alloc va 2 pagetable

/-- One round of the loop of `mappages`. -/
def mapPage (pagetable : Page) (perm a pa : ℕ) : Run Bool := do
  match ← walk pagetable a true with
  | none => pure false
  | some (p, i) => do
    let m ← get
    if m.word p i &&& PTE_V ≠ 0 then panic .mappagesRemap
    else do
      set p i (PA2PTE pa ||| perm ||| PTE_V)
      pure true

/-- The loop of `mappages`; `left` rounds follow, so `a` is `last` if there are none. -/
def mapFrom (pagetable : Page) (perm : ℕ) : ℕ → ℕ → ℕ → Run Bool
  | 0, a, pa => mapPage pagetable perm a pa
  | left + 1, a, pa => do
    if ← mapPage pagetable perm a pa then
      mapFrom pagetable perm left (u64 (a + PGSIZE)) (u64 (pa + PGSIZE))
    else pure false

/-- `mappages`; 0 and -1 are `true` and `false`. -/
def mappages (pagetable : Page) (va size pa perm : ℕ) : Run Bool :=
  if va % PGSIZE ≠ 0 then panic .mappagesVa
  else if size % PGSIZE ≠ 0 then panic .mappagesSizeNotAligned
  else if size = 0 then panic .mappagesSize
  else mapFrom pagetable perm (size / PGSIZE - 1) va pa

/-- One round of the loop of `uvmunmap`. -/
def unmapPage (K : Image) (pagetable : Page) (doFree : Bool) (a : ℕ) : Run Unit := do
  match ← walk pagetable a false with
  | none => panic .uvmunmapWalk
  | some (p, i) => do
    let m ← get
    let pte := m.word p i
    if pte &&& PTE_V = 0 then panic .uvmunmapNotMapped
    else if PTE_FLAGS pte = PTE_V then panic .uvmunmapNotALeaf
    else do
      if doFree = true then kfree K (PTE2PA pte / PGSIZE)
      set p i 0

/-- The loop of `uvmunmap`, which makes at most `left` rounds. -/
def unmapFrom (K : Image) (pagetable : Page) (doFree : Bool) (stop : ℕ) : ℕ → ℕ → Run Unit
  | 0, _ => pure ()
  | left + 1, a =>
    if a < stop then do
      unmapPage K pagetable doFree a
      unmapFrom K pagetable doFree stop left (u64 (a + PGSIZE))
    else pure ()

def uvmunmap (K : Image) (pagetable : Page) (va npages : ℕ) (doFree : Bool) : Run Unit :=
  if va % PGSIZE ≠ 0 then panic .uvmunmapNotAligned
  else unmapFrom K pagetable doFree (u64 (va + npages * PGSIZE)) npages va

/-! ## Histories -/

inductive Op where
  | mappages (va size pa perm : ℕ)
  | uvmunmap (va npages : ℕ) (doFree : Bool)
  deriving DecidableEq

def Op.run (K : Image) (root : Page) : Op → Run Bool
  | .mappages va size pa perm => Phys.mappages root va size pa perm
  | .uvmunmap va npages doFree => do
    Phys.uvmunmap K root va npages doFree
    pure true

/-- Page-aligned ranges of virtual addresses below `MAXVA` and of physical addresses below `2 ^ 56`,
and ten bits of flags. -/
def Op.InRange : Op → Prop
  | .mappages va size pa perm => va % PGSIZE = 0 ∧ size % PGSIZE = 0 ∧ va + size ≤ MAXVA ∧
      pa % PGSIZE = 0 ∧ pa + size ≤ 2 ^ 56 ∧ perm < 2 ^ 10
  | .uvmunmap va npages _ => va % PGSIZE = 0 ∧ va + npages * PGSIZE ≤ MAXVA

/-- The page to which a path of indices leads. -/
def node (w : Page → Fin 512 → ℕ) : Page → List (Fin 512) → Option Page
  | p, [] => some p
  | p, i :: π => if w p i &&& PTE_V ≠ 0 then node w (PTE2PA (w p i) / PGSIZE) π else none

/-- The indices on the way to the PTE of a virtual address. -/
def path (va : ℕ) : ℕ → List (Fin 512)
  | 0 => []
  | level + 1 => PX (level + 1) va :: path va level

/-- The PTE of a virtual address, 0 if there is none. -/
def lookup (w : Page → Fin 512 → ℕ) (root : Page) (va : ℕ) : ℕ :=
  match node w root (path va 2) with
  | none => 0
  | some p => w p (PX 0 va)

/-- No page that is freed is one of the page table. -/
def Op.Apart (root : Page) (m : Mem) : Op → Prop
  | .uvmunmap va npages true => ∀ v, va / PGSIZE ≤ v → v < va / PGSIZE + npages →
      PTE2PA (lookup m.word root (v * PGSIZE)) / PGSIZE ∉ m.tables
  | _ => True

/-- The calls and their results, the last first, and the memory.  `apart` says whether the page
table is known not to be freed. -/
inductive Reaches (apart : Prop) (K : Image) (root : Page) : List (Op × Bool) → Mem → Prop where
  | empty {word : Page → Fin 512 → ℕ} (answers : List (Option Page)) : (∀ i, word root i = 0) →
      Reaches apart K root [] ⟨word, [root], answers⟩
  | step {hist : List (Op × Bool)} {op : Op} {m m' : Mem} {r : Bool} : Reaches apart K root hist m →
      op.InRange → (apart → op.Apart root m) → op.run K root m = .ok (r, m') →
      Reaches apart K root ((op, r) :: hist) m'

/-! ## The partial map -/

/-- For each virtual page, the physical address and the flags if it is mapped. -/
abbrev PMap : Type := ℕ → Option (ℕ × ℕ)

/-- `n` pages from `v` on are mapped to `pa` and what follows. -/
def install (σ : PMap) (v n pa perm : ℕ) : PMap := fun w =>
  if v ≤ w ∧ w < v + n then some (pa + (w - v) * PGSIZE, perm ||| PTE_V) else σ w

/-- `n` pages from `v` on are unmapped. -/
def remove (σ : PMap) (v n : ℕ) : PMap := fun w => if v ≤ w ∧ w < v + n then none else σ w

/-- What a call does to the map. -/
inductive Step (σ : PMap) : Op → Bool → PMap → Prop where
  | mapped {va size pa perm : ℕ} :
      (∀ w, va / PGSIZE ≤ w → w < va / PGSIZE + size / PGSIZE → σ w = none) →
      Step σ (.mappages va size pa perm) true (install σ (va / PGSIZE) (size / PGSIZE) pa perm)
  /-- The call fails: only the first `k` pages are mapped. -/
  | failed {va size pa perm : ℕ} (k : ℕ) : k < size / PGSIZE →
      (∀ w, va / PGSIZE ≤ w → w < va / PGSIZE + k → σ w = none) →
      Step σ (.mappages va size pa perm) false (install σ (va / PGSIZE) k pa perm)
  | unmapped {va npages : ℕ} {doFree : Bool} :
      (∀ w, va / PGSIZE ≤ w → w < va / PGSIZE + npages → σ w ≠ none) →
      Step σ (.uvmunmap va npages doFree) true (remove σ (va / PGSIZE) npages)

/-- The map after a history, the last call first. -/
inductive Gives : List (Op × Bool) → PMap → Prop where
  | nil : Gives [] fun _ => none
  | cons {hist : List (Op × Bool)} {op : Op} {r : Bool} {σ σ' : PMap} : Gives hist σ →
      Step σ op r σ' → Gives ((op, r) :: hist) σ'

/-- The page table of the memory is a tree, and its PTEs are the map. -/
structure IsMap (root : Page) (m : Mem) (σ : PMap) : Prop where
  /-- No page-table page is reached in two ways. -/
  tree : ∀ π π' p, π.length ≤ 2 → π'.length ≤ 2 → node m.word root π = some p →
    node m.word root π' = some p → π = π'
  found : ∀ va pa flags, va < MAXVA → σ (va / PGSIZE) = some (pa, flags) →
    ∃ p i, walk root va false m = .ok (some (p, i), m) ∧ m.word p i &&& PTE_V ≠ 0 ∧
      PTE2PA (m.word p i) = pa ∧ PTE_FLAGS (m.word p i) = flags
  missing : ∀ va, va < MAXVA → σ (va / PGSIZE) = none →
    walk root va false m = .ok (none, m) ∨
      ∃ p i, walk root va false m = .ok (some (p, i), m) ∧ m.word p i &&& PTE_V = 0
  /-- Two virtual pages do not have the same PTE. -/
  distinct : ∀ va va' pte, va < MAXVA → va' < MAXVA → walk root va false m = .ok (some pte, m) →
    walk root va' false m = .ok (some pte, m) → va / PGSIZE = va' / PGSIZE

/-! ## Words -/

section

variable {pa perm va va' : ℕ}

lemma PA2PTE_or (pa : ℕ) (hperm : perm < 2 ^ 10) :
    PA2PTE pa ||| perm = pa / PGSIZE * 2 ^ 10 + perm := by
  rw [PA2PTE, ← Nat.shiftLeft_add_eq_or_of_lt hperm, Nat.shiftLeft_eq, Nat.shiftRight_eq_div_pow]
  rfl

lemma PTE2PA_or (hpa : pa % PGSIZE = 0) (hlt : pa < 2 ^ 56) (hperm : perm < 2 ^ 10) :
    PTE2PA (PA2PTE pa ||| perm) = pa := by
  rw [PA2PTE_or pa hperm, PTE2PA, Nat.shiftRight_eq_div_pow, Nat.shiftLeft_eq]
  simp only [PGSIZE_eq] at hpa ⊢
  omega

lemma PTE_FLAGS_or (pa : ℕ) (hperm : perm < 2 ^ 10) : PTE_FLAGS (PA2PTE pa ||| perm) = perm := by
  rw [PA2PTE_or pa hperm, PTE_FLAGS, show 0x3FF = 2 ^ 10 - 1 from rfl,
    Nat.and_two_pow_sub_one_eq_mod]
  omega

lemma and_PTE_V (x : ℕ) : x &&& PTE_V = x % 2 := Nat.and_one_is_mod x

lemma or_PTE_V_lt (hperm : perm < 2 ^ 10) : perm ||| PTE_V < 2 ^ 10 :=
  Nat.or_lt_two_pow hperm (by decide)

lemma or_PTE_V_mod (x : ℕ) : (x ||| PTE_V) % 2 = 1 := by
  rw [Nat.or_mod_two_eq_one]
  exact .inr rfl

lemma PX_val (level va : ℕ) : (PX level va : ℕ) = va / PGSIZE / 512 ^ level % 512 :=
  congrArg Fin.val (PX_eq_digit level va)

lemma PX_congr (h : va / PGSIZE = va' / PGSIZE) (level : ℕ) : PX level va = PX level va' := by
  rw [PX_eq_digit, PX_eq_digit, h]

lemma page_eq_of_path (hva : va < MAXVA) (hva' : va' < MAXVA) (hpath : path va 2 = path va' 2)
    (h0 : PX 0 va = PX 0 va') : va / PGSIZE = va' / PGSIZE := by
  simp only [path, List.cons.injEq, and_true] at hpath
  have h2 := congrArg Fin.val hpath.1
  have h1 := congrArg Fin.val hpath.2
  have h0 := congrArg Fin.val h0
  simp only [PX_val, MAXVA_eq, PGSIZE_eq] at *
  omega

end

/-! ## Paths -/

section

variable {w w' : Page → Fin 512 → ℕ} {root p q : Page} {i : Fin 512} {π ρ : List (Fin 512)}

lemma node_append (w : Page → Fin 512 → ℕ) (p : Page) (π ρ : List (Fin 512)) :
    node w p (π ++ ρ) = (node w p π).bind fun q => node w q ρ := by
  induction π generalizing p with
  | nil => rfl
  | cons i π ih =>
    simp only [List.cons_append, node]
    split
    · exact ih _
    · rfl

lemma node_single (w : Page → Fin 512 → ℕ) (p : Page) (i : Fin 512) :
    node w p [i] = if w p i &&& PTE_V ≠ 0 then some (PTE2PA (w p i) / PGSIZE) else none := rfl

lemma node_congr {n : ℕ} (h : ∀ ρ p, ρ.length < n → node w root ρ = some p → w' p = w p)
    (hπ : π.length ≤ n) : node w' root π = node w root π := by
  induction π using List.reverseRecOn with
  | nil => rfl
  | append_singleton π i ih =>
    rw [List.length_append, List.length_singleton] at hπ
    rw [node_append, node_append, ih (by omega)]
    cases hp : node w root π with
    | none => rfl
    | some p =>
      simp only [Option.bind_some, node_single]
      rw [h π p (by omega) hp]

/-- No page is reached in two ways, and all are of `tables`. -/
structure Tree (w : Page → Fin 512 → ℕ) (root : Page) (tables : List Page) : Prop where
  inj : ∀ π π' p, π.length ≤ 2 → π'.length ≤ 2 → node w root π = some p →
    node w root π' = some p → π = π'
  mem : ∀ π p, π.length ≤ 2 → node w root π = some p → p ∈ tables

/-- A PTE of a higher level is set up, with a new page `q` that is empty. -/
structure Grown (w w' : Page → Fin 512 → ℕ) (p : Page) (i : Fin 512) (q : Page) : Prop where
  none : w p i &&& PTE_V = 0
  valid : w' p i &&& PTE_V ≠ 0
  leads : PTE2PA (w' p i) / PGSIZE = q
  empty : ∀ j, w' q j = 0
  other : ∀ p' j, p' ≠ q → (p' = p → j ≠ i) → w' p' j = w p' j

variable {tables : List Page}

section

variable (ht : Tree w root tables)

include ht

lemma Tree.congr (h : ∀ π : List (Fin 512), π.length ≤ 2 → node w' root π = node w root π) :
    Tree w' root tables := by
  refine ⟨fun π π' p hπ hπ' h₁ h₂ => ?_, fun π p hπ h₁ => ?_⟩
  · rw [h π hπ] at h₁
    rw [h π' hπ'] at h₂
    exact ht.inj π π' p hπ hπ' h₁ h₂
  · rw [h π hπ] at h₁
    exact ht.mem π p hπ h₁

lemma Tree.node_grown (hg : Grown w w' p i q) (hq : q ∉ tables)
    (hp : node w root π = some p) (hπ : π.length ≤ 1) (hρ : ρ.length ≤ 2) :
    node w' root ρ = if ρ = π ++ [i] then some q else node w root ρ := by
  induction ρ using List.reverseRecOn with
  | nil => rw [if_neg (by simp)]; rfl
  | append_singleton ρ j ih =>
    rw [List.length_append, List.length_singleton] at hρ
    rw [node_append, node_append, ih (by omega)]
    by_cases hnew : ρ = π ++ [i]
    · -- the new page is empty
      have hold : node w root ρ = none := by
        rw [hnew, node_append, hp, Option.bind_some, node_single, if_neg (by rw [hg.none]; simp)]
      have hne : ρ ++ [j] ≠ π ++ [i] := by
        intro h
        have := congrArg List.length h
        rw [hnew] at this
        simp at this
      rw [if_pos hnew, if_neg hne, hold, Option.bind_some, node_single, hg.empty]
      rfl
    rw [if_neg hnew]
    by_cases hlast : ρ = π ∧ j = i
    · obtain ⟨rfl, rfl⟩ := hlast
      rw [if_pos rfl, hp, Option.bind_some, node_single, if_pos hg.valid, hg.leads]
    · rw [if_neg fun h => hlast (by simpa using List.append_inj' h rfl)]
      cases hρp : node w root ρ with
      | none => rfl
      | some p' =>
        have hp'q : p' ≠ q := by
          rintro rfl
          exact hq (ht.mem ρ p' (by omega) hρp)
        rw [Option.bind_some, Option.bind_some, node_single, node_single,
          hg.other p' j hp'q]
        rintro rfl rfl
        exact hlast ⟨ht.inj ρ π p' (by omega) (by omega) hρp hp, rfl⟩

lemma Tree.grown (hg : Grown w w' p i q) (hq : q ∉ tables)
    (hp : node w root π = some p) (hπ : π.length ≤ 1) : Tree w' root (q :: tables) := by
  refine ⟨fun ρ ρ' r hρ hρ' h h' => ?_, fun ρ r hρ h => ?_⟩
  · rw [ht.node_grown hg hq hp hπ hρ] at h
    rw [ht.node_grown hg hq hp hπ hρ'] at h'
    split at h
    · rename_i hnew
      obtain rfl := Option.some.inj h
      split at h'
      · rename_i hnew'
        rw [hnew, hnew']
      · exact absurd (ht.mem ρ' q hρ' h') hq
    · split at h'
      · obtain rfl := Option.some.inj h'
        exact absurd (ht.mem ρ q hρ h) hq
      · exact ht.inj ρ ρ' r hρ hρ' h h'
  · rw [ht.node_grown hg hq hp hπ hρ] at h
    split at h
    · obtain rfl := Option.some.inj h
      exact List.mem_cons_self
    · exact List.mem_cons_of_mem q (ht.mem ρ r hρ h)

lemma Tree.lookup_grown (hg : Grown w w' p i q) (hq : q ∉ tables)
    (hp : node w root π = some p) (hπ : π.length ≤ 1) (va : ℕ) :
    lookup w' root va = lookup w root va := by
  have hlen : (path va 2).length = 2 := rfl
  rw [lookup, lookup, ht.node_grown hg hq hp hπ hlen.le]
  by_cases hnew : path va 2 = π ++ [i]
  · have hold : node w root (path va 2) = none := by
      rw [hnew, node_append, hp, Option.bind_some, node_single, if_neg (by rw [hg.none]; simp)]
    rw [if_pos hnew, hold]
    exact hg.empty _
  · rw [if_neg hnew]
    cases hv : node w root (path va 2) with
    | none => rfl
    | some p' =>
      refine hg.other p' _ ?_ ?_
      · rintro rfl
        exact hq (ht.mem _ p' hlen.le hv)
      · rintro rfl
        have := congrArg List.length (ht.inj _ _ p' hlen.le (by omega) hv hp)
        omega

end

end

/-! ## What the routines do to the map -/

/-- The PTE of a page that is mapped as the map says. -/
def Encodes (x : ℕ) : Option (ℕ × ℕ) → Prop
  | none => x = 0
  | some (pa, flags) => x = PA2PTE pa ||| flags ∧ pa % PGSIZE = 0 ∧ pa < 2 ^ 56 ∧ flags < 2 ^ 10 ∧
      flags % 2 = 1

/-- The page table is a tree with the PTEs of the map. -/
structure Inv (root : Page) (m : Mem) (σ : PMap) : Prop where
  tree : Tree m.word root m.tables
  look : ∀ va, va < MAXVA → Encodes (lookup m.word root va) (σ (va / PGSIZE))

section

variable {K : Image} {root p : Page} {m : Mem} {σ : PMap} {v n va pa perm : ℕ}

lemma Encodes.valid_iff {x : ℕ} {o : Option (ℕ × ℕ)} (h : Encodes x o) :
    x &&& PTE_V ≠ 0 ↔ o ≠ none := by
  rw [and_PTE_V]
  cases o with
  | none =>
    rw [show x = 0 from h]
    simp
  | some y =>
    obtain ⟨pa, flags⟩ := y
    obtain ⟨rfl, -, -, hlt, hodd⟩ := h
    rw [PA2PTE_or pa hlt]
    have hmod : (pa / PGSIZE * 2 ^ 10 + flags) % 2 = 1 := by omega
    rw [hmod]
    simp

lemma Encodes.mapped (hpa : pa % PGSIZE = 0) (hlt : pa < 2 ^ 56) (hperm : perm < 2 ^ 10) :
    Encodes (PA2PTE pa ||| perm ||| PTE_V) (some (pa, perm ||| PTE_V)) :=
  ⟨Nat.or_assoc _ _ _, hpa, hlt, or_PTE_V_lt hperm, or_PTE_V_mod perm⟩

lemma Inv.congr {m' : Mem} (h : Inv root m σ) (hword : m'.word = m.word)
    (htables : m'.tables = m.tables) : Inv root m' σ := by
  obtain ⟨ht, hl⟩ := h
  rw [← hword] at hl
  rw [← hword, ← htables] at ht
  exact ⟨ht, hl⟩

lemma kalloc_spec (m : Mem) : Wp (fun _ => False) kalloc (fun r m' => m'.word = m.word ∧
    match r with
    | none => m'.tables = m.tables
    | some q => q < 2 ^ 44 ∧ q ∉ m.tables ∧ m'.tables = q :: m.tables) m := by
  unfold Wp kalloc
  cases m.answers.headD none with
  | none => exact ⟨rfl, rfl⟩
  | some q =>
    dsimp only
    split
    · rename_i hfresh
      exact ⟨rfl, hfresh.2.1, hfresh.2.2, rfl⟩
    · exact ⟨rfl, rfl⟩

lemma Grown.of_set {w : Page → Fin 512 → ℕ} {i : Fin 512} {q : Page} (hnone : w p i &&& PTE_V = 0)
    (hpq : p ≠ q) (hq : q < 2 ^ 44) : Grown w (setAt (setAt w q fun _ => 0) p
      (setAt (setAt w q (fun _ => 0) p) i (PA2PTE (q * PGSIZE) ||| PTE_V))) p i q := by
  have hlt : q * PGSIZE < 2 ^ 44 * PGSIZE := Nat.mul_lt_mul_of_pos_right hq (by decide)
  refine ⟨hnone, ?_, ?_, fun j => ?_, fun p' j hp' hj => ?_⟩
  · rw [setAt_self, setAt_self, and_PTE_V, or_PTE_V_mod]
    decide
  · rw [setAt_self, setAt_self, PTE2PA_or (Nat.mul_mod_left _ _) hlt (by decide)]
    exact Nat.mul_div_cancel _ (by decide)
  · rw [setAt_of_ne _ _ hpq.symm, setAt_self]
  · by_cases hpp : p' = p
    · subst hpp
      rw [setAt_self, setAt_of_ne _ _ (hj rfl), setAt_of_ne _ _ hp']
    · rw [setAt_of_ne _ _ hpp, setAt_of_ne _ _ hp']

lemma walkFrom_spec (level : ℕ) {π : List (Fin 512)} (h : Inv root m σ)
    (hp : node m.word root π = some p) (hπ : π ++ path va level = path va 2) :
    Wp (fun _ => False) (walkFrom true va level p) (fun r m' => Inv root m' σ ∧
      ∀ pte, r = some pte → node m'.word root (path va 2) = some pte.1 ∧ pte.2 = PX 0 va) m := by
  induction level generalizing π p m with
  | zero =>
    refine Wp.pure ⟨h, ?_⟩
    rintro _ ⟨⟩
    rw [path, List.append_nil] at hπ
    exact ⟨hπ ▸ hp, rfl⟩
  | succ level ih =>
    have hπ' : (π ++ [PX (level + 1) va]) ++ path va level = path va 2 := by
      rw [List.append_assoc]
      exact hπ
    have hlen : π.length ≤ 1 := by
      have := congrArg List.length hπ'
      simp only [List.length_append, List.length_singleton, show (path va 2).length = 2 from rfl]
        at this
      omega
    rw [walkFrom]
    refine Wp.get_bind ?_
    dsimp only
    split
    · rename_i hvalid
      refine ih h ?_ hπ'
      rw [node_append, hp, Option.bind_some, node_single, if_pos hvalid]
    rename_i hvalid
    rw [if_neg (by simp)]
    refine (kalloc_spec m).seq ?_
    rintro (_ | q) m' ⟨hword, htables⟩
    · exact Wp.pure ⟨h.congr hword htables, by rintro _ ⟨⟩⟩
    obtain ⟨hq, hnew, htables⟩ := htables
    have hpq : p ≠ q := by
      rintro rfl
      exact hnew (h.tree.mem π p (by omega) hp)
    have hg := Grown.of_set (not_not.1 hvalid) hpq hq
    refine Wp.bind (Wp.of_modify (Wp.bind (Wp.of_modify ?_)))
    simp only [hword]
    refine ih ⟨?_, fun va' hva' => ?_⟩ ?_ hπ'
    · rw [htables]
      exact h.tree.grown hg hnew hp hlen
    · have hlook := h.look va' hva'
      rwa [← h.tree.lookup_grown hg hnew hp hlen va'] at hlook
    · rw [h.tree.node_grown hg hnew hp hlen (by simp; omega), if_pos rfl]

lemma walk_spec (h : Inv root m σ) (hva : va < MAXVA) :
    Wp (fun _ => False) (walk root va true) (fun r m' => Inv root m' σ ∧
      ∀ pte, r = some pte → node m'.word root (path va 2) = some pte.1 ∧ pte.2 = PX 0 va) m := by
  rw [walk, if_neg (not_le.2 hva)]
  exact walkFrom_spec 2 (π := []) h rfl rfl

lemma walkFrom_false (m : Mem) (va level : ℕ) (p : Page) : walkFrom false va level p m =
    .ok ((node m.word p (path va level)).map fun q => (q, PX 0 va), m) := by
  induction level generalizing p with
  | zero => rfl
  | succ level ih =>
    rw [walkFrom, run_get, path, node]
    split
    · exact ih _
    · rfl

lemma walk_false (m : Mem) (root : Page) (hva : va < MAXVA) : walk root va false m =
    .ok ((node m.word root (path va 2)).map fun q => (q, PX 0 va), m) := by
  rw [walk, if_neg (not_le.2 hva)]
  exact walkFrom_false m va 2 root

section

variable (h : Inv root m σ) (hva : va < MAXVA) (hp : node m.word root (path va 2) = some p)

include h hva hp

lemma Inv.set {x : ℕ} {o : Option (ℕ × ℕ)} (hx : Encodes x o) :
    Inv root { m with word := setAt m.word p (setAt (m.word p) (PX 0 va) x) }
      (setAt σ (va / PGSIZE) o) := by
  have hlen : ∀ va, (path va 2).length = 2 := fun _ => rfl
  have hnode : ∀ π : List (Fin 512), π.length ≤ 2 →
      node (setAt m.word p (setAt (m.word p) (PX 0 va) x)) root π = node m.word root π := by
    intro π hπ
    refine node_congr (n := 2) (fun ρ p' hρ hp' => setAt_of_ne _ _ ?_) hπ
    rintro rfl
    have := congrArg List.length (h.tree.inj _ _ p' hρ.le (hlen va).le hp' hp)
    rw [hlen] at this
    omega
  refine ⟨h.tree.congr hnode, fun va' hva' => ?_⟩
  have hlook := h.look va' hva'
  simp only [lookup, hnode (path va' 2) le_rfl] at hlook ⊢
  by_cases hpage : va' / PGSIZE = va / PGSIZE
  · have hpath : path va' 2 = path va 2 := by
      simp only [path, PX_congr hpage]
    rw [hpage, setAt_self, hpath, hp, PX_congr hpage]
    simp only [setAt_self]
    exact hx
  · rw [setAt_of_ne _ _ hpage]
    cases hp' : node m.word root (path va' 2) with
    | none =>
      rw [hp'] at hlook
      exact hlook
    | some p' =>
      rw [hp'] at hlook
      dsimp only at hlook ⊢
      by_cases hpp : p' = p
      · subst hpp
        have hpath := h.tree.inj _ _ p' (hlen va').le (hlen va).le hp' hp
        rw [setAt_self, setAt_of_ne]
        · exact hlook
        · exact fun h0 => hpage (page_eq_of_path hva' hva hpath h0)
      · rwa [setAt_of_ne _ _ hpp]

lemma Inv.encodes :
    Encodes (m.word p (PX 0 va)) (σ (va / PGSIZE)) := by
  have hlook := h.look va hva
  rwa [lookup, hp] at hlook

end

lemma mul_lt_MAXVA (hv : v < MAXVA / PGSIZE) : v * PGSIZE < MAXVA := by
  simp only [MAXVA_eq, PGSIZE_eq] at hv ⊢
  omega

lemma next_page (hv : v < MAXVA / PGSIZE) : u64 (v * PGSIZE + PGSIZE) = (v + 1) * PGSIZE := by
  simp only [u64, MAXVA_eq, PGSIZE_eq] at hv ⊢
  omega

lemma mapPage_spec (h : Inv root m σ) (hv : v < MAXVA / PGSIZE) (hpa : pa % PGSIZE = 0)
    (hlt : pa < 2 ^ 56) (hperm : perm < 2 ^ 10) :
    Wp (fun _ => False) (mapPage root perm (v * PGSIZE) pa) (fun r m' =>
      r = false ∧ Inv root m' σ ∨
      r = true ∧ σ v = none ∧ Inv root m' (setAt σ v (some (pa, perm ||| PTE_V)))) m := by
  have hva := mul_lt_MAXVA hv
  have hpage : v * PGSIZE / PGSIZE = v := Nat.mul_div_cancel _ (by decide)
  rw [mapPage]
  refine (walk_spec h hva).seq ?_
  rintro (_ | ⟨p, i⟩) m' ⟨h', hpte⟩
  · exact Wp.pure (.inl ⟨rfl, h'⟩)
  obtain ⟨hp, rfl⟩ := hpte _ rfl
  have henc := h'.encodes hva hp
  rw [hpage] at henc
  refine Wp.get_bind ?_
  split
  · exact id
  · rename_i hvalid
    have hnone : σ v = none := by
      by_contra hne
      exact hvalid (henc.valid_iff.2 hne)
    refine Wp.bind (Wp.of_modify (Wp.pure (.inr ⟨rfl, hnone, ?_⟩)))
    have hset := h'.set hva hp (.mapped hpa hlt hperm)
    rwa [hpage] at hset

lemma install_cons (σ : PMap) (v n pa perm : ℕ) :
    install (setAt σ v (some (pa, perm ||| PTE_V))) (v + 1) n (pa + PGSIZE) perm =
      install σ v (n + 1) pa perm := by
  funext w
  simp only [install]
  by_cases hw : w = v
  · subst hw
    rw [if_neg (by omega), setAt_self, if_pos (by omega), Nat.sub_self, Nat.zero_mul]
    rfl
  · rw [setAt_of_ne _ _ hw]
    by_cases hin : v + 1 ≤ w ∧ w < v + 1 + n
    · rw [if_pos hin, if_pos (by omega)]
      have : pa + PGSIZE + (w - (v + 1)) * PGSIZE = pa + (w - v) * PGSIZE := by
        simp only [PGSIZE_eq]
        omega
      rw [this]
    · rw [if_neg hin, if_neg (by omega)]

lemma install_zero (σ : PMap) (v pa perm : ℕ) : install σ v 0 pa perm = σ := by
  funext w
  rw [install, if_neg (by omega)]

lemma mapFrom_spec (h : Inv root m σ) (left : ℕ) (hv : v + left < MAXVA / PGSIZE)
    (hpa : pa % PGSIZE = 0) (hlt : pa + (left + 1) * PGSIZE ≤ 2 ^ 56) (hperm : perm < 2 ^ 10) :
    Wp (fun _ => False) (mapFrom root perm left (v * PGSIZE) pa) (fun r m' =>
      ∃ k, (r = true ∧ k = left + 1 ∨ r = false ∧ k < left + 1) ∧
        (∀ w, v ≤ w → w < v + k → σ w = none) ∧ Inv root m' (install σ v k pa perm)) m := by
  induction left generalizing v pa m σ with
  | zero =>
    refine (mapPage_spec h hv hpa (by simp only [PGSIZE_eq] at hlt; omega) hperm).mono ?_
    rintro r m' (⟨rfl, h'⟩ | ⟨rfl, hnone, h'⟩)
    · exact ⟨0, .inr ⟨rfl, by omega⟩, fun w h₁ h₂ => by omega, by rwa [install_zero]⟩
    · refine ⟨1, .inl ⟨rfl, rfl⟩, fun w h₁ h₂ => ?_, ?_⟩
      · obtain rfl : w = v := by omega
        exact hnone
      · rwa [← install_cons, install_zero]
  | succ left ih =>
    rw [mapFrom]
    refine (mapPage_spec h (by omega) hpa (by simp only [PGSIZE_eq] at hlt; omega) hperm).seq ?_
    rintro r m' (⟨rfl, h'⟩ | ⟨rfl, hnone, h'⟩)
    · exact Wp.pure ⟨0, .inr ⟨rfl, by omega⟩, fun w h₁ h₂ => by omega, by rwa [install_zero]⟩
    have hpa' : u64 (pa + PGSIZE) = pa + PGSIZE := by
      simp only [u64, PGSIZE_eq] at hlt ⊢
      omega
    rw [if_pos rfl, next_page (by omega), hpa']
    refine (ih h' (by omega) ?_ ?_).mono ?_
    · rw [Nat.add_mod_right]
      exact hpa
    · simp only [PGSIZE_eq] at hlt ⊢
      omega
    rintro r m'' ⟨k, hk, hfree, h''⟩
    refine ⟨k + 1, hk.imp (fun h => ⟨h.1, by omega⟩) fun h => ⟨h.1, by omega⟩, fun w h₁ h₂ => ?_,
      by rwa [← install_cons]⟩
    by_cases hw : w = v
    · rw [hw]
      exact hnone
    · have := hfree w (by omega) (by omega)
      rwa [setAt_of_ne _ _ hw] at this

lemma Inv.memset (h : Inv root m σ) {q : Page} (hq : q ∉ m.tables) (x : ℕ) :
    Inv root { m with word := setAt m.word q fun _ => x } σ := by
  have hsame : ∀ π p, π.length ≤ 2 → node m.word root π = some p →
      setAt m.word q (fun _ => x) p = m.word p := by
    intro π p hπ hp
    refine setAt_of_ne _ _ ?_
    rintro rfl
    exact hq (h.tree.mem π p hπ hp)
  have hnode : ∀ π : List (Fin 512), π.length ≤ 2 →
      node (setAt m.word q fun _ => x) root π = node m.word root π :=
    fun π hπ => node_congr (n := 2) (fun ρ p hρ => hsame ρ p hρ.le) hπ
  refine ⟨h.tree.congr hnode, fun va hva => ?_⟩
  have hlook := h.look va hva
  rw [lookup] at hlook ⊢
  rw [hnode (path va 2) le_rfl]
  cases hp : node m.word root (path va 2) with
  | none => rwa [hp] at hlook
  | some p =>
    rw [hp] at hlook
    dsimp only at hlook ⊢
    rwa [hsame (path va 2) p le_rfl hp]

lemma unmapPage_spec {doFree : Bool} (h : Inv root m σ) (hv : v < MAXVA / PGSIZE)
    (hfree : doFree = true → ∀ pa flags, σ v = some (pa, flags) → pa / PGSIZE ∉ m.tables) :
    Wp (fun _ => False) (unmapPage K root doFree (v * PGSIZE)) (fun _ m' =>
      σ v ≠ none ∧ m'.tables = m.tables ∧ Inv root m' (setAt σ v none)) m := by
  have hva := mul_lt_MAXVA hv
  have hpage : v * PGSIZE / PGSIZE = v := Nat.mul_div_cancel _ (by decide)
  rw [unmapPage]
  refine Wp.seq (Wp.of_ok (walk_false m root hva) (Q := fun r m' => m = m' ∧ r =
    (node m.word root (path (v * PGSIZE) 2)).map fun q => (q, PX 0 (v * PGSIZE))) ⟨rfl, rfl⟩) ?_
  rintro _ _ ⟨rfl, rfl⟩
  cases hp : node m.word root (path (v * PGSIZE) 2) with
  | none => exact id
  | some p =>
  have henc := h.encodes hva hp
  rw [hpage] at henc
  refine Wp.get_bind ?_
  dsimp only
  split
  · exact id
  rename_i hvalid
  have hne := henc.valid_iff.1 hvalid
  split
  · exact id
  -- the PTE is still the same when its page has been freed
  have hset : ∀ m', m'.tables = m.tables → Inv root m' σ →
      node m'.word root (path (v * PGSIZE) 2) = some p → Wp (fun _ => False)
        (set p (PX 0 (v * PGSIZE)) 0) (fun _ m' =>
          σ v ≠ none ∧ m'.tables = m.tables ∧ Inv root m' (setAt σ v none)) m' := by
    intro m' htables h' hp'
    have hset := h'.set hva hp' (show Encodes 0 none from rfl)
    rw [hpage] at hset
    exact ⟨hne, htables, hset⟩
  cases doFree with
  | false => exact hset m rfl h hp
  | true =>
    obtain ⟨⟨pa, flags⟩, hpa⟩ := Option.ne_none_iff_exists'.1 hne
    rw [hpa] at henc
    obtain ⟨hx, halign, hlt, hflags, -⟩ := henc
    have hnot := hfree rfl pa flags hpa
    rw [if_pos rfl, hx, PTE2PA_or halign hlt hflags, kfree]
    split
    · exact id
    · refine Wp.bind (Wp.of_modify (hset _ rfl (h.memset hnot _) ?_))
      rw [← hp]
      refine node_congr (n := 2) (fun ρ p' hρ hp' => setAt_of_ne _ _ ?_) le_rfl
      rintro rfl
      exact hnot (h.tree.mem ρ _ hρ.le hp')

lemma remove_cons (σ : PMap) (v n : ℕ) :
    remove (setAt σ v none) (v + 1) n = remove σ v (n + 1) := by
  funext w
  simp only [remove]
  by_cases hw : w = v
  · subst hw
    rw [if_neg (by omega), setAt_self, if_pos (by omega)]
  · rw [setAt_of_ne _ _ hw]
    by_cases hin : v + 1 ≤ w ∧ w < v + 1 + n
    · rw [if_pos hin, if_pos (by omega)]
    · rw [if_neg hin, if_neg (by omega)]

lemma unmapFrom_spec {doFree : Bool} (h : Inv root m σ) (left : ℕ) (hv : v + left ≤ MAXVA / PGSIZE)
    (hfree : doFree = true → ∀ w pa flags, v ≤ w → w < v + left → σ w = some (pa, flags) →
      pa / PGSIZE ∉ m.tables) :
    Wp (fun _ => False) (unmapFrom K root doFree ((v + left) * PGSIZE) left (v * PGSIZE))
      (fun _ m' => (∀ w, v ≤ w → w < v + left → σ w ≠ none) ∧ Inv root m' (remove σ v left)) m := by
  induction left generalizing v m σ with
  | zero =>
    refine Wp.pure ⟨fun w h₁ h₂ => by omega, ?_⟩
    have : remove σ v 0 = σ := funext fun w => if_neg (by omega)
    rwa [this]
  | succ left ih =>
    have hlt : v * PGSIZE < (v + (left + 1)) * PGSIZE :=
      Nat.mul_lt_mul_of_pos_right (by omega) (by decide)
    rw [unmapFrom, if_pos hlt]
    refine (unmapPage_spec h (by omega) fun hf pa flags => hfree hf v pa flags le_rfl
      (by omega)).seq ?_
    rintro - m' ⟨hne, htables, h'⟩
    rw [next_page (by omega), show v + (left + 1) = v + 1 + left by omega]
    refine (ih h' (by omega) fun hf w pa flags h₁ h₂ hw => ?_).mono ?_
    · rw [setAt_of_ne _ _ (by omega)] at hw
      rw [htables]
      exact hfree hf w pa flags (by omega) (by omega) hw
    · rintro - m'' ⟨hrest, h''⟩
      refine ⟨fun w h₁ h₂ => ?_, by rwa [← remove_cons]⟩
      by_cases hw : w = v
      · rw [hw]
        exact hne
      · have := hrest w (by omega) (by omega)
        rwa [setAt_of_ne _ _ hw] at this

/-! ## Whole histories -/

lemma Inv.step {op : Op} {m' : Mem} {r : Bool} (h : Inv root m σ) (hop : op.InRange)
    (hapart : op.Apart root m) (hrun : op.run K root m = .ok (r, m')) :
    ∃ σ', Step σ op r σ' ∧ Inv root m' σ' := by
  cases op with
  | mappages va size pa perm =>
    obtain ⟨hva, hsize, hmax, hpa, hlt, hperm⟩ := hop
    rw [Op.run, Phys.mappages, if_neg (not_not.2 hva), if_neg (not_not.2 hsize)] at hrun
    split at hrun
    · cases hrun
    have hva' : va / PGSIZE * PGSIZE = va := Nat.div_mul_cancel (Nat.dvd_of_mod_eq_zero hva)
    have hn : size / PGSIZE - 1 + 1 = size / PGSIZE := by
      simp only [PGSIZE_eq] at hsize ⊢
      omega
    rw [← hva'] at hrun
    have hspec := (mapFrom_spec h (size / PGSIZE - 1) ?_ hpa ?_ hperm).result hrun
    · obtain ⟨k, hk, hfree, h'⟩ := hspec
      rw [hn] at hk
      refine ⟨_, ?_, h'⟩
      rcases hk with ⟨rfl, rfl⟩ | ⟨rfl, hk⟩
      · exact .mapped hfree
      · exact .failed k hk hfree
    · simp only [MAXVA_eq, PGSIZE_eq] at hmax hn ⊢
      omega
    · rw [hn]
      simp only [PGSIZE_eq] at hlt hsize ⊢
      omega
  | uvmunmap va npages doFree =>
    obtain ⟨hva, hmax⟩ := hop
    have hva' : va / PGSIZE * PGSIZE = va := Nat.div_mul_cancel (Nat.dvd_of_mod_eq_zero hva)
    have hstop : u64 (va + npages * PGSIZE) = (va / PGSIZE + npages) * PGSIZE := by
      simp only [u64, MAXVA_eq, PGSIZE_eq] at hmax hva ⊢
      omega
    have hlt : va / PGSIZE + npages ≤ MAXVA / PGSIZE := by
      simp only [MAXVA_eq, PGSIZE_eq] at hmax hva ⊢
      omega
    have hspec : Wp (fun _ => False) ((Op.uvmunmap va npages doFree).run K root) (fun r m' =>
        r = true ∧ (∀ w, va / PGSIZE ≤ w → w < va / PGSIZE + npages → σ w ≠ none) ∧
          Inv root m' (remove σ (va / PGSIZE) npages)) m := by
      rw [Op.run, Phys.uvmunmap, if_neg (not_not.2 hva), hstop]
      nth_rewrite 2 [← hva']
      refine (unmapFrom_spec h npages hlt fun hf w pa flags h₁ h₂ hw => ?_).seq ?_
      · subst hf
        have hnot := hapart w h₁ h₂
        have hlook := h.look (w * PGSIZE) (mul_lt_MAXVA (by omega))
        rw [Nat.mul_div_cancel _ (by decide), hw] at hlook
        obtain ⟨hx, halign, hpa, hflags, -⟩ := hlook
        rwa [hx, PTE2PA_or halign hpa hflags] at hnot
      · exact fun _ m' h' => Wp.pure ⟨rfl, h'⟩
    obtain ⟨rfl, hne, h'⟩ := hspec.result hrun
    exact ⟨_, .unmapped hne, h'⟩

lemma Inv.init {word : Page → Fin 512 → ℕ} (answers : List (Option Page))
    (hzero : ∀ i, word root i = 0) : Inv root ⟨word, [root], answers⟩ fun _ => none := by
  have hnode : ∀ (π : List (Fin 512)) (p : Page),
      node word root π = some p → π = [] ∧ p = root := by
    rintro (_ | ⟨i, π⟩) p hp
    · exact ⟨rfl, (Option.some.inj hp).symm⟩
    · rw [node, hzero, if_neg (by decide)] at hp
      cases hp
  refine ⟨⟨fun π π' p _ _ h h' => ?_, fun π p _ h => ?_⟩, fun va _ => ?_⟩
  · rw [(hnode π p h).1, (hnode π' p h').1]
  · rw [(hnode π p h).2]
    exact List.mem_singleton_self _
  · show lookup word root va = 0
    rw [lookup, path, node, hzero, if_neg (by decide)]

lemma Reaches.inv {hist : List (Op × Bool)} (h : Reaches True K root hist m) :
    ∃ σ, Gives hist σ ∧ Inv root m σ := by
  induction h with
  | empty answers hzero => exact ⟨_, .nil, .init answers hzero⟩
  | step _ hop hapart hrun ih =>
    obtain ⟨σ, hσ, hinv⟩ := ih
    obtain ⟨σ', hstep, hinv'⟩ := hinv.step hop (hapart trivial) hrun
    exact ⟨σ', .cons hσ hstep, hinv'⟩

lemma Inv.isMap (h : Inv root m σ) : IsMap root m σ where
  tree := h.tree.inj
  found va pa flags hva hσ := by
    have hlook := h.look va hva
    rw [hσ, lookup] at hlook
    rw [walk_false m root hva]
    cases hp : node m.word root (path va 2) with
    | none =>
      rw [hp] at hlook
      have := hlook.valid_iff.2 (by simp)
      simp at this
    | some p =>
      rw [hp] at hlook
      have hvalid := hlook.valid_iff.2 (by simp)
      obtain ⟨hx, halign, hlt, hflags, -⟩ := hlook
      dsimp only at hx hvalid
      exact ⟨p, PX 0 va, rfl, hvalid, by rw [hx, PTE2PA_or halign hlt hflags],
        by rw [hx, PTE_FLAGS_or pa hflags]⟩
  missing va hva hσ := by
    have hlook := h.look va hva
    rw [hσ, lookup] at hlook
    rw [walk_false m root hva]
    cases hp : node m.word root (path va 2) with
    | none => exact .inl rfl
    | some p =>
      rw [hp] at hlook
      refine .inr ⟨p, PX 0 va, rfl, ?_⟩
      by_contra hvalid
      exact hlook.valid_iff.1 hvalid rfl
  distinct va va' pte hva hva' hw hw' := by
    rw [walk_false m root hva] at hw
    rw [walk_false m root hva'] at hw'
    simp only [Outcome.ok.injEq, Prod.mk.injEq, and_true, Option.map_eq_some_iff] at hw hw'
    obtain ⟨p, hp, rfl⟩ := hw
    obtain ⟨p', hp', heq⟩ := hw'
    obtain ⟨rfl, h0⟩ := Prod.mk.inj heq
    exact page_eq_of_path hva hva' (h.tree.inj _ _ p' le_rfl le_rfl hp hp') h0.symm

end

/-- After every history of calls of `mappages` and `uvmunmap` on an empty page table, none of which
frees a page of the page table itself: there is a partial map that the calls have brought about, a
call that failed as one of a prefix of its pages, and the page table in memory is a tree whose PTEs
are this map. -/
theorem pagetable_partial_map (K : Image) (root : Page) (hist : List (Op × Bool)) (m : Mem)
    (h : Reaches True K root hist m) : ∃ σ, Gives hist σ ∧ IsMap root m σ := by
  obtain ⟨σ, hσ, hinv⟩ := h.inv
  exact ⟨σ, hσ, hinv.isMap⟩

/-! ## The trees of `Uvm.lean` -/

/-- The word of a PTE of the lowest level. -/
def encode (x : Pte) : ℕ :=
  PA2PTE (x.page * PGSIZE) ||| (x.flags.v.toNat + 2 * x.flags.r.toNat + 4 * x.flags.w.toNat +
    8 * x.flags.x.toNat + 16 * x.flags.u.toNat)

/-- The words of the page `p` and of those below are the tree. -/
def Holds (w : Page → Fin 512 → ℕ) : {n : ℕ} → Page → Table n → Prop
  | _, p, .leaf value => ∀ i, w p i = encode (value i)
  | _, p, .node label child => ∀ i, match label i with
    | none => w p i &&& PTE_V = 0
    | some q => w p i &&& PTE_V ≠ 0 ∧ PTE2PA (w p i) / PGSIZE = q ∧ Holds w q (child i)

section

variable {w w' : Page → Fin 512 → ℕ} {n va : ℕ} {p q : Page} {T : Table n}

lemma Holds.congr (h : Holds w p T) (heq : ∀ q ∈ p ::ₘ T.labels, w' q = w q) : Holds w' p T := by
  induction T generalizing p with
  | leaf value => exact fun i => by rw [heq p (by simp), h i]
  | node label child ih =>
    intro i
    have hi := h i
    have hp := heq p (by simp)
    cases hl : label i with
    | none =>
      simp only [hl] at hi ⊢
      rwa [hp]
    | some q =>
      obtain ⟨R, hR, -⟩ := Radix.exists_labels_split hl child
      rw [hR] at heq
      simp only [hl] at hi ⊢
      rw [hp]
      exact ⟨hi.1, hi.2.1, ih i hi.2.2 fun r hr => heq r (Multiset.mem_cons_of_mem
        (Multiset.mem_add.2 (.inl hr)))⟩

/-- The way of `walk` in the tree is that in the words, and its PTE can be written there if no page
is in the tree twice. -/
lemma Holds.node_path (h : Holds w p T) (va : ℕ) :
    match node w p (path va n) with
    | none => T.reaches (va / PGSIZE) = false
    | some q => T.reaches (va / PGSIZE) = true ∧ q ∈ p ::ₘ T.labels ∧
        w q (PX 0 va) = encode (T.get 0 (va / PGSIZE)) ∧ ((p ::ₘ T.labels).Nodup →
          ∀ x, Holds (setAt w q (setAt (w q) (PX 0 va) (encode x))) p
            (T.set (va / PGSIZE) x)) := by
  induction T generalizing p with
  | leaf value =>
    refine ⟨rfl, Multiset.mem_cons_self _ _, ?_, fun _ x i => ?_⟩
    · rw [h, PX_eq_digit]
      rfl
    · rw [setAt_self, ← PX_eq_digit]
      by_cases hi : i = PX 0 va
      · rw [hi, setAt_self, setAt_self]
      · rw [setAt_of_ne _ _ hi, setAt_of_ne _ _ hi, h]
  | @node n label child ih =>
    have hi := h (PX (n + 1) va)
    simp only [path, node, Radix.reaches, Radix.get, Radix.set, ← PX_eq_digit]
    cases hl : label (PX (n + 1) va) with
    | none =>
      simp only [hl] at hi
      simp [hi]
    | some c =>
      simp only [hl] at hi
      obtain ⟨hv, hc, hh⟩ := hi
      have ih := ih _ hh
      simp only [if_pos hv, hc]
      cases hq : node w c (path va n) with
      | none => rwa [hq] at ih
      | some q =>
        rw [hq] at ih
        obtain ⟨hr, hmem, hword, hset⟩ := ih
        obtain ⟨R, hR, hrest⟩ := Radix.exists_labels_split hl child
        rw [hR]
        refine ⟨hr, Multiset.mem_cons_of_mem (Multiset.mem_add.2 (.inl hmem)), hword,
          fun hnodup x j => ?_⟩
        obtain ⟨hp, hnodup⟩ := Multiset.nodup_cons.1 hnodup
        obtain ⟨hchild, -, hdisj⟩ := Multiset.nodup_add.1 hnodup
        have hpq : p ≠ q := by
          rintro rfl
          exact hp (Multiset.mem_add.2 (.inl hmem))
        rw [setAt_of_ne _ _ hpq]
        by_cases hj : j = PX (n + 1) va
        · rw [hj, setAt_self, hl]
          exact ⟨hv, hc, hset hchild x⟩
        · have hj' := h j
          rw [setAt_of_ne _ _ hj]
          cases hlj : label j with
          | none => simpa only [hlj] using hj'
          | some d =>
            simp only [hlj] at hj' ⊢
            refine ⟨hj'.1, hj'.2.1, hj'.2.2.congr fun r hr => setAt_of_ne _ _ ?_⟩
            rintro rfl
            exact Multiset.disjoint_left.1 hdisj hmem (Multiset.mem_of_le (hrest j d hj hlj) hr)

end

/-- Where the words are the tree, `walk` finds a PTE in both or in none.  The PTE is that of the
tree, and if no page is in the tree twice, it can be written in both. -/
theorem walk_refines {N : ℕ} {m : Mem} {pt : PageTable} {va : ℕ}
    (h : Holds m.word pt.root pt.table) (hva : va < MAXVA) :
    ∃ o, walk pt.root va false m = .ok (o, m) ∧ Vm.walk (N := N) pt va false = pure (o.isSome, pt) ∧
      ∀ q i, o = some (q, i) → m.word q i = encode (pt.pte va) ∧ (pt.nodes.Nodup → ∀ x, ∃ m',
        set q i (encode x) m = .ok ((), m') ∧ Holds m'.word pt.root (pt.setPte va x).table) := by
  have hpath := h.node_path va
  rw [walk_false m pt.root hva, Vm.walk_false pt hva]
  refine ⟨_, rfl, ?_, ?_⟩
  · cases hq : node m.word pt.root (path va 2) with
    | none =>
      rw [hq] at hpath
      rw [hpath]
      rfl
    | some q =>
      rw [hq] at hpath
      rw [hpath.1]
      rfl
  · intro q i hqi
    obtain ⟨q, hq, hi⟩ := Option.map_eq_some_iff.1 hqi
    cases hi
    rw [hq] at hpath
    exact ⟨hpath.2.2.1, fun hn x => ⟨_, rfl, hpath.2.2.2 hn x⟩⟩

/-! ## Two histories -/

/-- Calls one after the other, none of which panics. -/
def runs (K : Image) (root : Page) :
    List Op → List (Op × Bool) → Mem → Option (List (Op × Bool) × Mem)
  | [], hist, m => some (hist, m)
  | op :: ops, hist, m =>
    match op.run K root m with
    | .ok (r, m') => runs K root ops ((op, r) :: hist) m'
    | _ => none

lemma Reaches.runs {apart : Prop} {K : Image} {root : Page} {ops : List Op}
    {hist hist' : List (Op × Bool)} {m m' : Mem} (h : Reaches apart K root hist m)
    (hops : ∀ op ∈ ops, op.InRange ∧ (apart → ∀ m, op.Apart root m))
    (hrun : Phys.runs K root ops hist m = some (hist', m')) : Reaches apart K root hist' m' := by
  induction ops generalizing hist m with
  | nil =>
    cases hrun
    exact h
  | cons op ops ih =>
    obtain ⟨hop, hrest⟩ := List.forall_mem_cons.1 hops
    rw [Phys.runs] at hrun
    split at hrun
    · rename_i heq
      exact ih (h.step hop.1 (fun ha => hop.2 ha m) heq) hrest hrun
    · cases hrun

/-- A kernel of one page. -/
def image : Image := ⟨524289, 524288, [], by decide⟩

/-- A memory of zeros with an empty page table, where `kalloc` answers two pages. -/
def twoPages : Mem := ⟨fun _ _ => 0, [524300], [some 524301, some 524302]⟩

/-- Two pages are mapped.  Of the next two, the second would need one more page-table page, and only
the first is mapped. -/
theorem pagetable_partial_map_fails : ∃ m hist, hist.map Prod.snd = [false, true] ∧
    Reaches True image 524300 hist m ∧ ∃ σ, Gives hist σ ∧ IsMap 524300 m σ := by
  have hany : (runs image 524300 [.mappages 0 8192 (2 ^ 31) 2, .mappages (511 * 4096) 8192 0 2] []
      twoPages).any (fun r => r.1.map Prod.snd = [false, true]) = true := by decide +kernel
  obtain ⟨⟨hist, m⟩, hrun, hok⟩ := (Option.any_eq_true _ _).1 hany
  have hr : Reaches True image 524300 hist m := by
    refine (Reaches.empty _ fun _ => rfl).runs ?_ hrun
    simp only [List.forall_mem_cons, Op.InRange, Op.Apart, MAXVA_eq, PGSIZE_eq]
    simp
  exact ⟨m, hist, of_decide_eq_true hok, hr, pagetable_partial_map image 524300 hist m hr⟩

/-- The page table itself is mapped at page 0, another page at page 1, and page 0 is unmapped with
`do_free`.  `kfree` fills the root with junk, and page 1 is not found any more. -/
theorem pagetable_frees_itself : ∃ hist m, Reaches False image 524300 hist m ∧
    ¬ ∃ σ, Gives hist σ ∧ IsMap 524300 m σ := by
  have hany : (runs image 524300 [.mappages 0 4096 (524300 * 4096) 2,
      .mappages 4096 4096 (2 ^ 31) 2,
      .uvmunmap 0 1 true] [] twoPages).any (fun r => r.1 = [(.uvmunmap 0 1 true, true),
        (.mappages 4096 4096 (2 ^ 31) 2, true), (.mappages 0 4096 (524300 * 4096) 2, true)] ∧
        node r.2.word 524300 (path 4096 2) = none) = true := by decide +kernel
  obtain ⟨⟨hist, m⟩, hrun, hok⟩ := (Option.any_eq_true _ _).1 hany
  obtain ⟨hhist, hnode⟩ := of_decide_eq_true hok
  dsimp only at hhist hnode
  refine ⟨hist, m, (Reaches.empty _ fun _ => rfl).runs ?_ hrun, ?_⟩
  · simp only [List.forall_mem_cons, Op.InRange, Op.Apart, MAXVA_eq, PGSIZE_eq]
    simp
  · rintro ⟨σ, hσ, hmap⟩
    have hva : 4096 < MAXVA := by decide
    have hpage : σ (4096 / PGSIZE) = some (2 ^ 31, 3) := by
      subst hhist
      cases hσ with
      | cons hσ hstep =>
      cases hσ with
      | cons hσ hstep1 =>
      cases hstep
      cases hstep1
      rfl
    obtain ⟨p, i, hwalk, -⟩ := hmap.found 4096 _ _ hva hpage
    rw [walk_false m 524300 hva, hnode] at hwalk
    cases hwalk

end Xv6.Vm.Phys
