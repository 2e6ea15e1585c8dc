import Xv6.Vm.Uvm

/-!
# `kernel/exec.c` and the memory of processes

`exec` with `sys_exec`, and what `allocproc`, `fork`, `sbrk`, `exit`, `wait` and pipes do with
pages.

What these calls need of the rest of the kernel is a parameter: which file the path of `exec` leads
to, what `fetchaddr` and `fetchstr` find at the user's `argv`, whether there are free `struct file`s
and descriptors for a pipe.  Whose child a process is does not matter here, so `wait` can take any
exited process.  A write to user memory by the program itself is a call, `store`.
-/

namespace Xv6.Vm

open Concur

variable {N : ℕ}

/-! ## Processes -/

/-- An access to an entry of the process table. -/
def St.update (p : Fin N) (f : Proc → Proc) (m : St N) : St N := m.setProc p (f (m.proc p))

/-- The page table of a process is taken out of its entry, to be changed. -/
def St.takeTable (p : Fin N) (m : St N) : Outcome Panic (PageTable × St N) :=
  match (m.proc p).pagetable with
  | none => .panic .kerneltrap
  | some pt => .ok (pt, m.update p fun e => { e with pagetable := none })

section

variable (K : Image)

/-- `proc_pagetable`; `trapframe` is `p->trapframe`. -/
def procPagetable (trapframe : Page) : Routine N (Option PageTable) := do
  match ← uvmcreate with
  | none => pure none
  | some pt => do
    let (ok, pt) ← mappages pt TRAMPOLINE PGSIZE K.trampoline ⟨false, true, false, true, false⟩
    if ok = false then do
      uvmfree K pt 0
      pure none
    else do
      let (ok, pt) ← mappages pt TRAPFRAME PGSIZE trapframe ⟨false, true, true, false, false⟩
      if ok = false then do
        let pt ← uvmunmap K pt TRAMPOLINE 1 false
        uvmfree K pt 0
        pure none
      else pure (some pt)

/-- `proc_freepagetable` -/
def procFreepagetable (pt : PageTable) (sz : ℕ) : Routine N Unit := do
  let pt ← uvmunmap K pt TRAMPOLINE 1 false
  let pt ← uvmunmap K pt TRAPFRAME 1 false
  uvmfree K pt sz

/-- An entry without a process. -/
def Proc.clear (e : Proc) : Proc :=
  { e with sz := 0, name := [], xstate := 0, locked := false, state := .unused }

/-- `if(p->trapframe) kfree((void*)p->trapframe);` -/
def freeTrapframe (e : Proc) : Routine N Unit :=
  match e.trapframe with
  | none => pure ()
  | some q => kfree K q

/-- `if(p->pagetable) proc_freepagetable(p->pagetable, p->sz);` -/
def freeTable (e : Proc) : Routine N Unit :=
  match e.pagetable with
  | none => pure ()
  | some pt => procFreepagetable K pt e.sz

/-- `freeproc`.  What is freed is first taken out of the entry. -/
def freeproc (p : Fin N) : Routine N Unit := do
  let e ← .atomic fun m => .ok (m.proc p,
    m.update p fun e => { e with trapframe := none, pagetable := none })
  freeTrapframe K e
  freeTable K e
  .modify (St.update p Proc.clear)

/-- The scan of `allocproc` at the entry `p`, under `p->lock`. -/
def St.allocAt (p : Fin N) (m : St N) : Outcome Panic (Bool × St N) :=
  if (m.proc p).state = .unused then .ok (true, m.update p fun e => { e with state := .used })
  else .ok (false, m)

def allocproc : Routine N (Option (Fin N)) := do
  match ← .firstOf N fun p => .atomic (St.allocAt p) with
  | none => pure none
  | some p => do
    match ← kalloc with
    | none => do
      freeproc K p
      pure none
    | some q => do
      .modify (St.update p fun e => { e with trapframe := some q })
      match ← procPagetable K q with
      | none => do
        freeproc K p
        pure none
      | some pt => do
        .modify (St.update p fun e => { e with pagetable := some pt })
        pure (some p)

section

variable (t : Fin N)

/-- `growproc`; the answer is whether it worked. -/
def growproc (n : Int32) : Routine N Bool := do
  let sz ← .read fun m => (m.proc t).sz
  let newsz := ((sz + n.toInt) % 2 ^ 64).toNat
  if 0 < n.toInt then do
    let pt ← .atomic (St.takeTable t)
    let (sz', pt) ← uvmalloc K pt sz newsz ⟨false, false, true, false, false⟩
    if sz' = 0 then do
      .modify (St.update t fun e => { e with pagetable := some pt })
      pure false
    else do
      .modify (St.update t fun e => { e with pagetable := some pt, sz := sz' })
      pure true
  else if n.toInt < 0 then do
    let pt ← .atomic (St.takeTable t)
    let (sz', pt) ← uvmdealloc K pt sz newsz
    .modify (St.update t fun e => { e with pagetable := some pt, sz := sz' })
    pure true
  else pure true

def sysSbrk (n : Int32) : Routine N ℤ := do
  let addr ← .read fun m => (m.proc t).sz
  if ← growproc K t n then pure addr else pure (-1)

/-- `fork`; the answer is the new process. -/
def fork : Routine N (Option (Fin N)) := do
  match ← allocproc K with
  | none => pure none
  | some np => do
    let p ← .read fun m => m.proc t
    match p.pagetable with
    | none => panic .kerneltrap
    | some old => do
      let new ← .atomic (St.takeTable np)
      let (ok, new) ← uvmcopy K old new p.sz
      if ok = false then do
        .modify (St.update np fun e => { e with pagetable := some new })
        freeproc K np
        pure none
      else do
        .modify (St.update np fun e => { e with
          pagetable := some new
          sz := p.sz
          regs := setAt p.regs a0Word 0
          ofile := p.ofile
          name := p.name.take 15 })
        .modify (St.update np fun e => { e with state := .runnable })
        pure (some np)

/-- The user's page table, for `copyout`. -/
def copyoutTo (addr : ℕ) (src : List UInt8) : Routine N Bool := do
  let p ← .read fun m => m.proc t
  match p.pagetable with
  | none => panic .kerneltrap
  | some pt => copyout pt addr src

/-- `wait` finds the exited process `p`, whose lock it then has. -/
def St.findZombie (p : Fin N) (m : St N) : Outcome Panic (Bool × St N) :=
  if (m.proc p).state = .zombie ∧ (m.proc p).locked = false then
    .ok (true, m.update p fun e => { e with locked := true })
  else .ok (false, m)

/-- The exit status is stored at `addr`, if that is not 0. -/
def copyStatus (addr xstate : ℕ) : Routine N Bool :=
  if addr ≠ 0 then copyoutTo t addr ((List.range 4).map (Bytes.leByte xstate)) else pure true

/-- `wait`; the answer is whether it has freed a process. -/
def wait (p : Fin N) (addr : ℕ) : Routine N Bool := do
  if ← .atomic (St.findZombie p) then do
    let xstate ← .read fun m => (m.proc p).xstate
    let ok ← copyStatus t addr xstate
    if ok = false then do
      .modify (St.update p fun e => { e with locked := false })
      pure false
    else do
      freeproc K p
      pure true
  else pure false

def exit (status : ℕ) : Routine N Unit :=
  .modify (St.update t fun e => { e with xstate := status, state := .zombie })

/-- `sys_pipe`, if it gets the files; `fds` says whether the rest works. -/
def sysPipe (fds : Bool) : Routine N Bool := do
  match ← kalloc with
  | none => pure false
  | some pi =>
    if fds then do
      .modify fun m => { m with pipes := pi :: m.pipes }
      pure true
    else do
      kfree K pi
      pure false

/-- The last `pipeclose` of a pipe. -/
def pipeclose (pi : Page) : Routine N Unit := do
  let found ← .atomic fun m =>
    if pi ∈ m.pipes then .ok (true, { m with pipes := m.pipes.erase pi }) else .ok (false, m)
  .when (found = true) (kfree K pi)

end

/-! ## `exec` -/

/-- The contents of a file. -/
structure File where
  size : ℕ
  byte : ℕ → UInt8

/-- The result of `readi(ip, 0, dst, off, n)`; the bytes are those from `off` on. -/
def File.readi (ip : File) (off n : ℕ) : ℕ :=
  if ip.size < off ∨ 2 ^ 32 ≤ off + n then 0 else min n (ip.size - off)

/-- `n` bytes of the file. -/
def File.bytes (ip : File) (off n : ℕ) : Bytes n := fun i => ip.byte (off + i)

/-- What `exec` uses of `struct elfhdr`. -/
structure ElfHdr where
  magic : ℕ
  entry : ℕ
  phoff : ℕ
  phnum : ℕ

/-- `struct elfhdr` in the first 64 bytes of a file. -/
def File.elfhdr (ip : File) : ElfHdr :=
  let b := ip.bytes 0 64
  ⟨Bytes.rdLE b 0 4, Bytes.rdLE b 24 8, Bytes.rdLE b 32 8, Bytes.rdLE b 56 2⟩

/-- What `exec` uses of `struct proghdr`. -/
structure ProgHdr where
  type : ℕ
  flags : ℕ
  off : ℕ
  vaddr : ℕ
  filesz : ℕ
  memsz : ℕ

/-- `struct proghdr` in the 56 bytes from `off` on. -/
def File.proghdr (ip : File) (off : ℕ) : ProgHdr :=
  let b := ip.bytes off 56
  ⟨Bytes.rdLE b 0 4, Bytes.rdLE b 4 4, Bytes.rdLE b 8 8, Bytes.rdLE b 16 8, Bytes.rdLE b 32 8,
    Bytes.rdLE b 40 8⟩

def ELF_MAGIC : ℕ := 0x464C457F

def ELF_PROG_LOAD : ℕ := 1

/-- `flags2perm` -/
def flags2perm (flags : ℕ) : Flags := ⟨false, false, flags.testBit 1, flags.testBit 0, false⟩

/-- `loadseg`; `offset` and `sz` are of type `uint`. -/
def loadseg (pt : PageTable) (va : ℕ) (ip : File) (offset sz : ℕ) : Routine N Bool :=
  .iterate (fun i =>
    if i < sz then do
      let pa ← walkaddr pt (u64 (va + i))
      if pa = 0 then panic .loadseg
      else
        let n := if sz - i < PGSIZE then sz - i else PGSIZE
        let off := (offset + i) % 2 ^ 32
        let got := ip.readi off n
        .modify fun m => m.setData pa ((m.data pa).splice 0 got fun j => ip.byte (off + j))
        if got = n then pure (.inl ((i + PGSIZE) % 2 ^ 32)) else pure (.inr false)
    else pure (.inr true)) 0

/-- The loop over the program headers.  `off` is an `int`, of which `readi` sees the 32 bits.  The
answer is whether all segments are loaded, with the new `sz`. -/
def loadSegments (ip : File) (elf : ElfHdr) (pt : PageTable) :
    Routine N (Bool × ℕ × PageTable) :=
  .iterate (fun (i, off, sz, pt) =>
    if i < elf.phnum then
      if ip.readi off 56 ≠ 56 then pure (.inr (false, sz, pt))
      else
        let ph := ip.proghdr off
        let next := (off + 56) % 2 ^ 32
        if ph.type ≠ ELF_PROG_LOAD then pure (.inl (i + 1, next, sz, pt))
        else if ph.memsz < ph.filesz then pure (.inr (false, sz, pt))
        else if u64 (ph.vaddr + ph.memsz) < ph.vaddr then pure (.inr (false, sz, pt))
        else if ph.vaddr % PGSIZE ≠ 0 then pure (.inr (false, sz, pt))
        else do
          let (sz1, pt) ← uvmalloc K pt sz (u64 (ph.vaddr + ph.memsz)) (flags2perm ph.flags)
          if sz1 = 0 then pure (.inr (false, sz, pt))
          else do
            let ok ← loadseg pt ph.vaddr ip (ph.off % 2 ^ 32) (ph.filesz % 2 ^ 32)
            if ok = true then pure (.inl (i + 1, next, sz1, pt))
            else pure (.inr (false, sz1, pt))
    else pure (.inr (true, sz, pt))) (0, elf.phoff % 2 ^ 32, 0, pt)

/-- Subtraction of `uint64`. -/
def sub64 (x y : ℕ) : ℕ := (x + (2 ^ 64 - y % 2 ^ 64)) % 2 ^ 64

/-- The loop over the arguments: the strings are pushed on the stack.  The answer is `sp` and the
addresses of the strings. -/
def pushArgs (pt : PageTable) (stackbase : ℕ) :
    List (List UInt8) → ℕ → List ℕ → Routine N (Option (ℕ × List ℕ))
  | [], sp, ustack => pure (some (sp, ustack))
  | arg :: argv, sp, ustack =>
    if MAXARG ≤ ustack.length then pure none
    else
      let sp := sub64 sp (arg.length + 1)
      let sp := sp - sp % 16
      if sp < stackbase then pure none
      else do
        if ← copyout pt sp (arg ++ [0]) then pushArgs pt stackbase argv sp (ustack ++ [sp])
        else pure none

/-- The words as bytes. -/
def wordBytes (ws : List ℕ) : List UInt8 := ws.flatMap fun w => (List.range 8).map (Bytes.leByte w)

/-- The stack of the new program: two guarded pages with the arguments.  The answer is `sp`, if all
works, and the new `sz`. -/
def makeStack (pt : PageTable) (sz : ℕ) (argv : List (List UInt8)) :
    Routine N (Option ℕ × ℕ × PageTable) := do
  let sz := pgRoundUp sz
  let (sz1, pt) ← uvmalloc K pt sz (u64 (sz + (USERSTACK + 1) * PGSIZE))
    ⟨false, false, true, false, false⟩
  if sz1 = 0 then pure (none, sz, pt)
  else do
    let pt ← uvmclear pt (sub64 sz1 ((USERSTACK + 1) * PGSIZE))
    let stackbase := sub64 sz1 (USERSTACK * PGSIZE)
    match ← pushArgs pt stackbase argv sz1 [] with
    | none => pure (none, sz1, pt)
    | some (sp, ustack) => do
      let sp := sub64 sp ((ustack.length + 1) * 8)
      let sp := sp - sp % 16
      if sp < stackbase then pure (none, sz1, pt)
      else do
        if ← copyout pt sp (wordBytes (ustack ++ [0])) then pure (some sp, sz1, pt)
        else pure (none, sz1, pt)

section

variable (t : Fin N)

/-- `namei(path)` and `ilock(ip)` -/
def openImage : Routine N Unit := do
  .modify (St.update t fun e => { e with refs := e.refs + 1 })
  .modify (St.update t fun e => { e with locks := e.locks + 1 })

/-- `iunlockput(ip)` and `end_op()` -/
def closeImage : Routine N Unit := do
  .modify (St.update t fun e => { e with locks := e.locks - 1, refs := e.refs - 1 })
  .modify (St.update t fun e => { e with ops := e.ops - 1 })

/-- The part of `path` after the last `/`. -/
def lastElement (path : List UInt8) : List UInt8 :=
  (path.reverse.takeWhile (· ≠ 47)).reverse

/-- `exec` commits to the user image; the answer is the old page table. -/
def St.commitImage (path : List UInt8) (entry sp sz : ℕ) (pt : PageTable) (m : St N) :
    Outcome Panic (Option PageTable × St N) :=
  .ok ((m.proc t).pagetable, m.update t fun e => { e with
    regs := setAt (setAt (setAt e.regs a1Word sp) epcWord entry) spWord sp
    name := (lastElement path).take 15
    pagetable := some pt
    sz := sz })

/-- `exec`; `file` is what `namei(path)` finds. -/
def exec (path : List UInt8) (file : Option File) (argv : List (List UInt8)) : Routine N ℤ := do
  .modify (St.update t fun e => { e with ops := e.ops + 1 })
  match file with
  | none => do
    .modify (St.update t fun e => { e with ops := e.ops - 1 })
    pure (-1)
  | some ip => do
    openImage t
    if ip.readi 0 64 ≠ 64 ∨ ip.elfhdr.magic ≠ ELF_MAGIC then do
      closeImage t
      pure (-1)
    else do
      let p ← .read fun m => m.proc t
      match p.trapframe with
      | none => panic .kerneltrap
      | some trapframe => do
        match ← procPagetable K trapframe with
        | none => do
          closeImage t
          pure (-1)
        | some pt => do
          let (ok, sz, pt) ← loadSegments K ip ip.elfhdr pt
          if ok = false then do
            procFreepagetable K pt sz
            closeImage t
            pure (-1)
          else do
            closeImage t
            let oldsz ← .read fun m => (m.proc t).sz
            let (sp, sz, pt) ← makeStack K pt sz argv
            match sp with
            | none => do
              procFreepagetable K pt sz
              pure (-1)
            | some sp => do
              match ← .atomic (St.commitImage t path ip.elfhdr.entry sp sz pt) with
              | none => panic .kerneltrap
              | some old => do
                procFreepagetable K old oldsz
                pure argv.length

/-- What `fetchaddr` and `fetchstr` find for an element of the user's `argv`. -/
inductive Uarg where
  /-- `fetchaddr` fails. -/
  | fault
  | null
  /-- `fetchstr` fails. -/
  | bad
  | string (s : List UInt8) (h : s.length < PGSIZE ∧ 0 ∉ s)

/-- The loop of `sys_exec`: it allocates a page for each argument.  The answer is whether all are
there, the pages and the strings. -/
def fetchArgs (uargv : ℕ → Uarg) : Routine N (Bool × List Page × List (List UInt8)) :=
  .iterate (fun (i, pages, strings) =>
    if MAXARG ≤ i then pure (.inr (false, pages, strings))
    else
      match uargv i with
      | .fault => pure (.inr (false, pages, strings))
      | .null => pure (.inr (true, pages, strings))
      | .bad => do
        match ← kalloc with
        | none => pure (.inr (false, pages, strings))
        | some q => pure (.inr (false, pages ++ [q], strings))
      | .string s _ => do
        match ← kalloc with
        | none => pure (.inr (false, pages, strings))
        | some q => do
          .modify fun m => m.setData q ((m.data q).splice 0 (s.length + 1) fun i => s.getD i 0)
          pure (.inl (i + 1, pages ++ [q], strings ++ [s]))) (0, [], [])

/-- `kfree(argv[i])` for all `i`. -/
def freeArgs : List Page → Routine N Unit
  | [] => pure ()
  | q :: pages => do
    kfree K q
    freeArgs pages

/-- The call of `exec` is recorded. -/
def St.note (before : Proc) (memoryBefore : ℕ → Option PageData) (result : ℤ) (m : St N) : St N :=
  { m with execs :=
      ⟨before, memoryBefore, result, m.proc t, (m.proc t).memory m.data⟩ :: m.execs }

/-- `sys_exec`; `path` is what `argstr` finds. -/
def sysExec (path : Option (List UInt8)) (file : Option File) (uargv : ℕ → Uarg) :
    Routine N ℤ := do
  match path with
  | none => pure (-1)
  | some path => do
    let (ok, pages, argv) ← fetchArgs uargv
    if ok = true then do
      let (before, memoryBefore) ← .read fun m => (m.proc t, (m.proc t).memory m.data)
      let ret ← exec K t path file argv
      .modify (St.note t before memoryBefore ret)
      freeArgs K pages
      pure ret
    else do
      freeArgs K pages
      pure (-1)

end

/-! ## The calls -/

inductive Call (N : ℕ) where
  /-- The process runs for the first time. -/
  | start
  | fork
  | sbrk (n : Int32)
  | exec (path : Option (List UInt8)) (file : Option File) (uargv : ℕ → Uarg)
  | exit (status : ℕ)
  | wait (p : Fin N) (addr : ℕ)
  | pipe (fds : Bool)
  | pipeclose (pi : Page)
  /-- The program stores something in its memory. -/
  | store (addr : ℕ) (src : List UInt8)

/-- The scheduler picks the process for the first time. -/
def St.start (t : Fin N) (m : St N) : Outcome Panic (St N) :=
  if (m.proc t).state = .runnable then .ok (m.update t fun e => { e with state := .running })
  else .blocked

/-- A call that has failed is recorded. -/
def St.noteFail (t : Fin N) (before : Proc) (m : St N) : St N :=
  { m with fails := (before, m.proc t) :: m.fails }

def kernel (N : ℕ) : Kernel Panic (St N) (Fin N) (Call N) where
  body t
    | .start => .update (St.start t)
    | .fork => do
      let before ← .read fun m => m.proc t
      let np ← fork K t
      .when (np = none) (.modify (St.noteFail t before))
    | .sbrk n => do
      let before ← .read fun m => m.proc t
      let r ← sysSbrk K t n
      .when (r = -1) (.modify (St.noteFail t before))
    | .exec path file uargv => do
      let _ ← sysExec K t path file uargv
    | .exit status => exit t status
    | .wait p addr => do
      let _ ← wait K t p addr
    | .pipe fds => do
      let before ← .read fun m => m.proc t
      let ok ← sysPipe K fds
      .when (ok = false) (.modify (St.noteFail t before))
    | .pipeclose pi => pipeclose K pi
    | .store addr src => do
      let _ ← copyoutTo t addr src
  guard t c m :=
    match c with
    | .start => (m.proc t).state = .runnable
    | _ => (m.proc t).state = .running

instance (t : Fin N) (c : Call N) (m : St N) : Decidable ((kernel K N).guard t c m) :=
  match c with
  | .start => inferInstanceAs (Decidable (_ = _))
  | .fork | .sbrk _ | .exec _ _ _ | .exit _ | .wait _ _ | .pipe _ | .pipeclose _ | .store _ _ =>
    inferInstanceAs (Decidable (_ = _))

end

end Xv6.Vm
