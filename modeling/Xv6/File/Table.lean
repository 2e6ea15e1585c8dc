import Xv6.Framework.Prog
import Xv6.Param
import Mathlib.Data.Fintype.Prod

/-!
# The file table

`struct file` and the descriptors of all processes, with `kernel/file.c` and the system calls that
make, share and drop descriptors: `open`, `dup`, `pipe`, `close`, `fork` and `exit`.

A section under `ftable.lock` or `pi->lock` is an action, and so is each change that a process
makes to its own descriptors or to a `struct file` that no other process has.  What the calls need
of the rest of the kernel is a parameter: which inode a path leads to, whether there is memory,
whether `copyout` works.  Pipes are numbered in the order in which they are allocated; `ip` is the
address of an inode.

`read`, `write` and `fstat` are left out, as they change none of this, and so are the fields that
only they use.  `exec` keeps the descriptors.
-/

namespace Xv6.Files

open Concur

/-- `f->type` -/
inductive FileType where
  | none
  | pipe
  | inode
  | device
  deriving DecidableEq, Repr

/-- `struct file` -/
structure File where
  type : FileType
  ref : ℕ
  readable : Bool
  writable : Bool
  pipe : ℕ
  ip : ℕ
  deriving DecidableEq

/-- The ends of `struct pipe`.  The last two fields are not in the kernel: how often each end was
closed (the write end is `true`), and how often the page was freed. -/
structure Pipe where
  readopen : Bool
  writeopen : Bool
  closes : Bool → ℕ
  frees : ℕ

/-- What the calls see of `p->state`. -/
inductive Status where
  | unused
  /-- `fork` is making it. -/
  | used
  /-- It has not run yet. -/
  | runnable
  | running
  | zombie
  deriving DecidableEq, Repr

/-- The memory.  `taken` and `put` are not in the kernel: how many references to each inode were
handed over to a `struct file`, and how many of those `fileclose` has given back. -/
structure St (N : ℕ) where
  file : Fin NFILE → File
  state : Fin N → Status
  /-- `proc[p].ofile[fd]` -/
  ofile : Fin N × Fin NOFILE → Option (Fin NFILE)
  pipe : ℕ → Pipe
  npipe : ℕ
  taken : ℕ → ℕ
  put : ℕ → ℕ

variable {N : ℕ}

/-- After `userinit`: the file table is empty and the process `ini` waits to run. -/
def init (ini : Fin N) : St N where
  file _ := ⟨.none, 0, false, false, 0, 0⟩
  state p := if p = ini then .runnable else .unused
  ofile _ := none
  pipe _ := ⟨false, false, fun _ => 0, 0⟩
  npipe := 0
  taken _ := 0
  put _ := 0

namespace St

def setFile (f : Fin NFILE) (x : File) (m : St N) : St N := { m with file := setAt m.file f x }

def setFd (p : Fin N) (fd : Fin NOFILE) (f : Option (Fin NFILE)) (m : St N) : St N :=
  { m with ofile := setAt m.ofile (p, fd) f }

def setState (p : Fin N) (x : Status) (m : St N) : St N := { m with state := setAt m.state p x }

/-! ## Sections under `ftable.lock` and `pi->lock` -/

def filealloc (m : St N) : Outcome Panic (Option (Fin NFILE) × St N) :=
  match (List.finRange NFILE).find? fun f => (m.file f).ref = 0 with
  | some f => .ok (some f, m.setFile f { m.file f with ref := 1 })
  | none => .ok (none, m)

def filedup (f : Fin NFILE) (m : St N) : Outcome Panic (St N) :=
  if (m.file f).ref < 1 then .panic .filedup
  else .ok (m.setFile f { m.file f with ref := (m.file f).ref + 1 })

/-- The section of `fileclose`; the answer is `ff` if that was the last reference. -/
def dropFile (f : Fin NFILE) (m : St N) : Outcome Panic (Option File × St N) :=
  if (m.file f).ref < 1 then .panic .fileclose
  else if 0 < (m.file f).ref - 1 then
    .ok (none, m.setFile f { m.file f with ref := (m.file f).ref - 1 })
  else .ok (some (m.file f), m.setFile f { m.file f with ref := 0, type := .none })

/-- The section of `pipeclose`; the answer is whether both ends are closed now. -/
def closeEnd (pi : ℕ) (writable : Bool) (m : St N) : Outcome Panic (Bool × St N) :=
  let x := m.pipe pi
  let x' : Pipe := { x with
    readopen := if writable then x.readopen else false
    writeopen := if writable then false else x.writeopen
    closes := setAt x.closes writable (x.closes writable + 1) }
  .ok (!x'.readopen && !x'.writeopen, { m with pipe := setAt m.pipe pi x' })

/-- `kfree((char*)pi)` -/
def freePipe (pi : ℕ) (m : St N) : St N :=
  { m with pipe := setAt m.pipe pi { m.pipe pi with frees := (m.pipe pi).frees + 1 } }

/-- `iput(ff.ip)` -/
def iput (ip : ℕ) (m : St N) : St N := { m with put := setAt m.put ip (m.put ip + 1) }

/-! ## What a process does to its own files and descriptors -/

/-- `fdalloc`: the first free descriptor gets the file. -/
def fdalloc (t : Fin N) (f : Fin NFILE) (m : St N) : Outcome Panic (Option (Fin NOFILE) × St N) :=
  match (List.finRange NOFILE).find? fun fd => (m.ofile (t, fd)).isNone with
  | some fd => .ok (some fd, m.setFd t fd (some f))
  | none => .ok (none, m)

/-- `sys_open` fills in the file, which takes over the reference to the inode. -/
def openFile (f : Fin NFILE) (ip : ℕ) (device readable writable : Bool) (m : St N) : St N :=
  { m.setFile f { m.file f with
      type := if device then .device else .inode
      ip := ip
      readable := readable
      writable := writable } with
    taken := setAt m.taken ip (m.taken ip + 1) }

/-- `pipealloc` with a page for the pipe. -/
def openPipe (f0 f1 : Fin NFILE) (m : St N) : St N :=
  let m' := m.setFile f0 { m.file f0 with
    type := .pipe
    readable := true
    writable := false
    pipe := m.npipe }
  { m'.setFile f1 { m'.file f1 with
      type := .pipe
      readable := false
      writable := true
      pipe := m.npipe } with
    pipe := setAt m.pipe m.npipe ⟨true, true, fun _ => 0, 0⟩
    npipe := m.npipe + 1 }

/-- `allocproc` at the entry `p`, under `p->lock`: whether it is not in use. -/
def allocAt (p : Fin N) (m : St N) : Outcome Panic (Bool × St N) :=
  if m.state p = .unused then .ok (true, m.setState p .used) else .ok (false, m)

/-- `np->ofile[fd] = filedup(p->ofile[fd])`, if the descriptor is open. -/
def dupInto (t np : Fin N) (fd : Fin NOFILE) (m : St N) : Outcome Panic (St N) :=
  match m.ofile (t, fd) with
  | none => .ok m
  | some f => do
    let m ← filedup f m
    pure (m.setFd np fd (some f))

end St

/-! ## `kernel/file.c` and `kernel/pipe.c` -/

/-- A routine on the file table. -/
abbrev Routine (N : ℕ) (α : Type) : Type 1 := Prog Panic (St N) α

def pipeclose (pi : ℕ) (writable : Bool) : Routine N Unit := do
  let last ← .atomic (St.closeEnd pi writable)
  .when (last = true) (.modify (St.freePipe pi))

def fileclose (f : Fin NFILE) : Routine N Unit := do
  match ← .atomic (St.dropFile f) with
  | none => pure ()
  | some ff =>
    match ff.type with
    | .pipe => pipeclose ff.pipe ff.writable
    | .inode | .device => .modify (St.iput ff.ip)
    | .none => pure ()

/-- `pipealloc`; `page` says whether `kalloc` has one. -/
def pipealloc (page : Bool) : Routine N (Option (Fin NFILE × Fin NFILE)) := do
  match ← .atomic St.filealloc with
  | none => pure none
  | some f0 => do
    match ← .atomic St.filealloc with
    | none => do
      fileclose f0
      pure none
    | some f1 =>
      if page then do
        .modify (St.openPipe f0 f1)
        pure (some (f0, f1))
      else do
        fileclose f0
        fileclose f1
        pure none

/-! ## System calls -/

section

variable (t : Fin N)

/-- `argfd`: the descriptor that an argument names, and its file. -/
def argfd (fd : ℤ) : Routine N (Option (Fin NOFILE × Fin NFILE)) := .read fun m =>
  if h : fd.toNat < NOFILE ∧ 0 ≤ fd then
    (m.ofile (t, ⟨fd.toNat, h.1⟩)).map fun f => (⟨fd.toNat, h.1⟩, f)
  else none

def sysDup (fd : ℤ) : Routine N ℤ := do
  match ← argfd t fd with
  | none => pure (-1)
  | some (_, f) => do
    match ← .atomic (St.fdalloc t f) with
    | none => pure (-1)
    | some fd => do
      .update (St.filedup f)
      pure fd.val

def sysClose (fd : ℤ) : Routine N ℤ := do
  match ← argfd t fd with
  | none => pure (-1)
  | some (fd, f) => do
    .modify (St.setFd t fd none)
    fileclose f
    pure 0

/-- `sys_open`.  With `ip = none` it fails before it needs a file: there is no such path, or it may
not be opened like that. -/
def sysOpen (ip : Option ℕ) (device readable writable : Bool) : Routine N ℤ := do
  match ip with
  | none => pure (-1)
  | some ip => do
    match ← .atomic St.filealloc with
    | none => pure (-1)
    | some f => do
      match ← .atomic (St.fdalloc t f) with
      | none => do
        fileclose f
        pure (-1)
      | some fd => do
        .modify (St.openFile f ip device readable writable)
        pure fd.val

/-- `sys_pipe`; `copyout` says whether the descriptors can be written to the user's array. -/
def sysPipe (page copyout : Bool) : Routine N ℤ := do
  match ← pipealloc page with
  | none => pure (-1)
  | some (rf, wf) => do
    match ← .atomic (St.fdalloc t rf) with
    | none => do
      fileclose rf
      fileclose wf
      pure (-1)
    | some fd0 => do
      match ← .atomic (St.fdalloc t wf) with
      | none => do
        .modify (St.setFd t fd0 none)
        fileclose rf
        fileclose wf
        pure (-1)
      | some fd1 =>
        if copyout then pure 0
        else do
          .modify (St.setFd t fd0 none)
          .modify (St.setFd t fd1 none)
          fileclose rf
          fileclose wf
          pure (-1)

/-- `fork`, as far as the files go; `memory` says whether there is enough for the new process.  The
answer is the new process. -/
def fork (memory : Bool) : Routine N (Option (Fin N)) := do
  match ← .firstOf N fun p => .atomic (St.allocAt p) with
  | none => pure none
  | some np =>
    if memory then do
      .forRange NOFILE fun fd => .update (St.dupInto t np fd)
      .modify (St.setState np .runnable)
      pure (some np)
    else do
      .modify (St.setState np .unused)
      pure none

def exit : Routine N Unit := do
  .forRange NOFILE fun fd => do
    match ← .read fun m => m.ofile (t, fd) with
    | none => pure ()
    | some f => do
      fileclose f
      .modify (St.setFd t fd none)
  .modify (St.setState t .zombie)

end

/-- The calls; `start` is the first time that the process runs, `wait` frees the entry of an exited
process. -/
inductive Call (N : ℕ) where
  | start
  | «open» (ip : Option ℕ) (device readable writable : Bool)
  | dup (fd : ℤ)
  | pipe (page copyout : Bool)
  | close (fd : ℤ)
  | fork (memory : Bool)
  | exec
  | exit
  | wait (p : Fin N)

/-- The scheduler picks the process for the first time. -/
def St.start (t : Fin N) (m : St N) : Outcome Panic (St N) :=
  if m.state t = .runnable then .ok (m.setState t .running) else .blocked

/-- `wait` at an exited process. -/
def St.reap (p : Fin N) (m : St N) : St N :=
  if m.state p = .zombie then m.setState p .unused else m

def kernel (N : ℕ) : Kernel Panic (St N) (Fin N) (Call N) where
  body t
    | .start => .update (St.start t)
    | .open ip device readable writable => do
      let _ ← sysOpen t ip device readable writable
    | .dup fd => do
      let _ ← sysDup t fd
    | .pipe page copyout => do
      let _ ← sysPipe t page copyout
    | .close fd => do
      let _ ← sysClose t fd
    | .fork memory => do
      let _ ← fork t memory
    | .exec => pure ()
    | .exit => exit t
    | .wait p => .modify (St.reap p)
  guard t c m :=
    match c with
    | .start => m.state t = .runnable
    | _ => m.state t = .running

instance (t : Fin N) (c : Call N) (m : St N) : Decidable ((kernel N).guard t c m) :=
  match c with
  | .start => inferInstanceAs (Decidable (_ = _))
  | .open _ _ _ _ | .dup _ | .pipe _ _ | .close _ | .fork _ | .exec | .exit | .wait _ =>
    inferInstanceAs (Decidable (_ = _))

/-! ## What is counted -/

/-- The number of descriptors, over all processes, that point to the file. -/
def descriptors (m : St N) (f : Fin NFILE) : ℕ :=
  (Finset.univ.filter fun x => m.ofile x = some f).card

/-- The number of files with a reference to the inode. -/
def inodeFiles (m : St N) (ip : ℕ) : ℕ :=
  (Finset.univ.filter fun f => ((m.file f).type = .inode ∨ (m.file f).type = .device) ∧
    (m.file f).ip = ip).card

/-- The number of files that are an end of the pipe. -/
def pipeFiles (m : St N) (pi : ℕ) (writable : Bool) : ℕ :=
  (Finset.univ.filter fun f => (m.file f).type = .pipe ∧ (m.file f).pipe = pi ∧
    (m.file f).writable = writable).card

end Xv6.Files
