import Xv6.Vm.Memory

/-!
# `kernel/vm.c`

User page tables.  A routine that changes a page table returns the changed one, after its result if
it has one.  `0` and `-1` as results of `mappages`, `uvmcopy` and `copyout` are `true` and `false`;
a result of `walk` other than 0 is `true`, and the PTE is then at `PageTable.pte`.

`Physical.lean` has `walk`, `mappages` and `uvmunmap` on the words of memory; what `walk` finds and
what is stored there is the same in both (`walk_refines`).
-/

namespace Xv6.Vm

open Concur

variable {N : ℕ}

/-- A routine on the memory. -/
abbrev Routine (N : ℕ) (α : Type) : Type 1 := Prog Panic (St N) α

/-- `panic` -/
def panic {α : Type} (p : Panic) : Routine N α := .atomic fun _ => .panic p

def kalloc : Routine N (Option Page) := .atomic St.kalloc

/-- The levels of `walk`. -/
def walkLevel (alloc : Bool) (va : ℕ) : {level : ℕ} → Table level → Routine N (Bool × Table level)
  | 0, T => pure (true, T)
  | level + 1, .node label child =>
    let i := PX (level + 1) va
    match label i with
    | some _ => do
      let (ok, C) ← walkLevel alloc va (child i)
      pure (ok, .node label (setAt child i C))
    | none =>
      if alloc then do
        match ← kalloc with
        | none => pure (false, .node label child)
        | some q => do
          let (ok, C) ← walkLevel alloc va (Radix.empty 0 level : Table level)
          pure (ok, .node (setAt label i (some q)) (setAt child i C))
      else pure (false, .node label child)

def walk (pt : PageTable) (va : ℕ) (alloc : Bool) : Routine N (Bool × PageTable) :=
  if MAXVA ≤ va then panic .walk
  else do
    let (ok, T) ← walkLevel alloc va pt.table
    pure (ok, { pt with table := T })

/-- `walkaddr`; the answer is the page, or 0. -/
def walkaddr (pt : PageTable) (va : ℕ) : Routine N Page :=
  if MAXVA ≤ va then pure 0
  else do
    let (ok, pt) ← walk pt va false
    if ok = false then pure 0
    else if (pt.pte va).flags.v = false then pure 0
    else if (pt.pte va).flags.u = false then pure 0
    else pure (pt.pte va).page

/-- `mappages`; the physical address is given by its page. -/
def mappages (pt : PageTable) (va size : ℕ) (page : Page) (perm : Flags) :
    Routine N (Bool × PageTable) :=
  if va % PGSIZE ≠ 0 then panic .mappagesVa
  else if size % PGSIZE ≠ 0 then panic .mappagesSizeNotAligned
  else if size = 0 then panic .mappagesSize
  else
    let last := u64 (va + size - PGSIZE)
    .iterate (fun (a, page, pt) => do
      let (ok, pt) ← walk pt a true
      if ok = false then pure (.inr (false, pt))
      else if (pt.pte a).flags.v = true then panic .mappagesRemap
      else
        let pt := pt.setPte a ⟨page, { perm with v := true }⟩
        if a = last then pure (.inr (true, pt))
        else pure (.inl (u64 (a + PGSIZE), page + 1, pt))) (va, page, pt)

section

variable (K : Image)

def kfree (q : Page) : Routine N Unit := .update (St.kfree K q)

def uvmunmap (pt : PageTable) (va npages : ℕ) (doFree : Bool) : Routine N PageTable :=
  if va % PGSIZE ≠ 0 then panic .uvmunmapNotAligned
  else
    .iterate (fun (a, pt) =>
      if a < u64 (va + npages * PGSIZE) then do
        let (ok, pt) ← walk pt a false
        if ok = false then panic .uvmunmapWalk
        else if (pt.pte a).flags.v = false then panic .uvmunmapNotMapped
        else if (pt.pte a).flags = ⟨true, false, false, false, false⟩ then panic .uvmunmapNotALeaf
        else do
          .when (doFree = true) (kfree K (pt.pte a).page)
          pure (.inl (u64 (a + PGSIZE), pt.setPte a 0))
      else pure (.inr pt)) (va, pt)

/-- `uvmcreate` -/
def uvmcreate : Routine N (Option PageTable) := do
  match ← kalloc with
  | none => pure none
  | some q => pure (some ⟨q, Radix.empty 0 2⟩)

def uvmdealloc (pt : PageTable) (oldsz newsz : ℕ) : Routine N (ℕ × PageTable) :=
  if oldsz ≤ newsz then pure (oldsz, pt)
  else if pgRoundUp newsz < pgRoundUp oldsz then do
    -- `npages` is an `int`
    let npages := sext ((pgRoundUp oldsz - pgRoundUp newsz) / PGSIZE)
    let pt ← uvmunmap K pt (pgRoundUp newsz) npages true
    pure (newsz, pt)
  else pure (newsz, pt)

def uvmalloc (pt : PageTable) (oldsz newsz : ℕ) (xperm : Flags) : Routine N (ℕ × PageTable) :=
  if newsz < oldsz then pure (oldsz, pt)
  else
    let oldsz := pgRoundUp oldsz
    .iterate (fun (a, pt) =>
      if a < newsz then do
        match ← kalloc with
        | none => do
          let (_, pt) ← uvmdealloc K pt a oldsz
          pure (.inr (0, pt))
        | some mem => do
          .modify (St.setData mem Bytes.zero)
          let (ok, pt) ← mappages pt a PGSIZE mem { xperm with r := true, u := true }
          if ok = true then pure (.inl (u64 (a + PGSIZE), pt))
          else do
            kfree K mem
            let (_, pt) ← uvmdealloc K pt a oldsz
            pure (.inr (0, pt))
      else pure (.inr (newsz, pt))) (oldsz, pt)

/-- `freewalk`.  At the lowest level the kernel would take a PTE without `PTE_R`, `PTE_W` and
`PTE_X` for one that points to a table. -/
def freewalk : {level : ℕ} → Page → Table level → Routine N Unit
  | 0, q, .leaf value => do
    .forRange 512 fun i => .when ((value i).flags.v = true)
      (if (value i).flags.r || (value i).flags.w || (value i).flags.x then panic .freewalkLeaf
      else panic .kerneltrap)
    kfree K q
  | _ + 1, q, .node label child => do
    .forRange 512 fun i =>
      match label i with
      | none => pure ()
      | some c => freewalk c (child i)
    kfree K q

def uvmfree (pt : PageTable) (sz : ℕ) : Routine N Unit := do
  if 0 < sz then
    let pt ← uvmunmap K pt 0 (pgRoundUp sz / PGSIZE) true
    freewalk K pt.root pt.table
  else freewalk K pt.root pt.table

/-- `uvmcopy` copies the memory of `old` to the page table `new`. -/
def uvmcopy (old new : PageTable) (sz : ℕ) : Routine N (Bool × PageTable) :=
  .iterate (fun (i, new) =>
    if i < sz then do
      let (ok, old) ← walk old i false
      if ok = false then panic .uvmcopyPte
      else if (old.pte i).flags.v = false then panic .uvmcopyNotPresent
      else do
        match ← kalloc with
        | none => do
          let new ← uvmunmap K new 0 (i / PGSIZE) true
          pure (.inr (false, new))
        | some mem => do
          .modify fun m => m.setData mem (m.data (old.pte i).page)
          let (ok, new) ← mappages new i PGSIZE mem (old.pte i).flags
          if ok = true then pure (.inl (u64 (i + PGSIZE), new))
          else do
            kfree K mem
            let new ← uvmunmap K new 0 (i / PGSIZE) true
            pure (.inr (false, new))
    else pure (.inr (true, new))) (0, new)

end

def uvmclear (pt : PageTable) (va : ℕ) : Routine N PageTable := do
  let (ok, pt) ← walk pt va false
  if ok = false then panic .uvmclear
  else pure (pt.setPte va { pt.pte va with flags := { (pt.pte va).flags with u := false } })

/-- `copyout` -/
def copyout (pt : PageTable) (dstva : ℕ) (src : List UInt8) : Routine N Bool :=
  .iterate (fun (dstva, src) =>
    if src = [] then pure (.inr true)
    else
      let va0 := pgRoundDown dstva
      if MAXVA ≤ va0 then pure (.inr false)
      else do
        let (ok, pt) ← walk pt va0 false
        if ok = false ∨ (pt.pte va0).flags.v = false ∨ (pt.pte va0).flags.u = false ∨
            (pt.pte va0).flags.w = false then pure (.inr false)
        else do
          let n := min (PGSIZE - (dstva - va0)) src.length
          .modify fun m => m.setData (pt.pte va0).page
            ((m.data (pt.pte va0).page).splice (dstva - va0) n fun i => src.getD i 0)
          pure (.inl (u64 (va0 + PGSIZE), src.drop n))) (dstva, src)

/-- `copyin`; the answer is whether it works, and the bytes that are stored from `dst` on. -/
def copyin (pt : PageTable) (srcva len : ℕ) : Routine N (Bool × List UInt8) :=
  .iterate (fun (srcva, len, dst) =>
    if 0 < len then do
      let va0 := pgRoundDown srcva
      let pa0 ← walkaddr pt va0
      if pa0 = 0 then pure (.inr (false, dst))
      else do
        let n := min (PGSIZE - (srcva - va0)) len
        let page ← .read fun m => m.data pa0
        pure (.inl (u64 (va0 + PGSIZE), len - n,
          dst ++ (List.range n).map fun i => page.get (srcva - va0 + i)))
    else pure (.inr (true, dst))) (srcva, len, [])

/-- The inner loop of `copyinstr`, with `i` for `p`.  The answer is `got_null`, `max`, and what has
been stored. -/
def copyChars (p : ℕ → UInt8) : ℕ → ℕ → ℕ → List UInt8 → Bool × ℕ × List UInt8
  | 0, _, max, dst => (false, max, dst)
  | n + 1, i, max, dst =>
    if p i = 0 then (true, max, dst ++ [0])
    else copyChars p n (i + 1) (max - 1) (dst ++ [p i])

/-- `copyinstr`; the answer is whether it works, and the bytes that are stored from `dst` on. -/
def copyinstr (pt : PageTable) (srcva max : ℕ) : Routine N (Bool × List UInt8) :=
  .iterate (fun (srcva, gotNull, max, dst) =>
    if gotNull = false ∧ 0 < max then do
      let va0 := pgRoundDown srcva
      let pa0 ← walkaddr pt va0
      if pa0 = 0 then pure (.inr (false, dst))
      else do
        let n := min (PGSIZE - (srcva - va0)) max
        let page ← .read fun m => m.data pa0
        let r := copyChars (fun i => page.get (srcva - va0 + i)) n 0 max dst
        pure (.inl (u64 (va0 + PGSIZE), r))
    else pure (.inr (gotNull, dst))) (srcva, false, max, [])

end Xv6.Vm
