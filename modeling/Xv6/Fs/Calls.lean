import Xv6.Fs.Path
import Xv6.Log.Recovery

/-!
# The file system calls

The inode table, the file table, the descriptors and working directories of `N` processes, and the
system calls of `kernel/sysfile.c`, `kernel/file.c` and `kernel/exec.c` on them, as programs whose
actions interleave.

An action is a section of the code that no other process can observe in the middle: a section
under `itable.lock`, `ftable.lock` or `log.lock`, or what a routine of `Fs/Inode.lean` does with
the inode locked.  In `iput` the decision to free the inode, the freeing and the dropping of the
reference are three actions, as `itable.lock` is released between them.

`blk` is what `bread` returns for each block, whichever buffer it is in
(`Bio/Flat.lean` justifies that view).  The blocks reach the disk when a commit writes them: it
is the `commit` of `Log/Recovery.lean`, run on `journal`, which holds the contents of the disk
and, during a commit, the group that is being committed.  There is one device, so `dev` is left
out.  What a pipe or a device answers to `read` and `write`, and what `exec` does after it has
closed the file, does not touch the file system and is a parameter of the call.
-/

namespace Xv6.Fs

open Concur

/-- `struct inode`.  `freeing` is not in the kernel: it says that `iput` has decided to free the
inode. -/
structure Inode (N : ℕ) where
  inum : ℕ
  ref : ℕ
  /-- The holder of `ip->lock`. -/
  lock : Option (Fin N)
  valid : Bool
  /-- The copy of the disk inode. -/
  d : Dinode
  freeing : Bool

/-- `f->type` -/
inductive FileType where
  | none
  | pipe
  | inode
  | device
  deriving DecidableEq, Repr

/-- `struct file`, without the pipe. -/
structure File where
  type : FileType
  ref : ℕ
  readable : Bool
  writable : Bool
  ip : Fin NINODE
  off : ℕ
  major : Int16

/-- The file has a reference to an inode. -/
def File.HasInode (f : File) : Prop := f.type = .inode ∨ f.type = .device

instance (f : File) : Decidable f.HasInode := inferInstanceAs (Decidable (_ ∨ _))

/-- What a section of `fileread` or `filewrite` with the inode locked has used: the bytes of the
file from `off` on, and in a write the bytes of the source from `pos` on. -/
structure Use (N : ℕ) where
  proc : Fin N
  file : Fin NFILE
  off : ℕ
  len : ℕ
  src : Option (ℕ → Option UInt8)
  pos : ℕ

/-- `struct proc`, as far as the file system uses it. -/
structure Proc where
  cwd : Option (Fin NINODE)
  ofile : Fin NOFILE → Option (Fin NFILE)
  /-- The result of the last system call, `p->trapframe->a0`. -/
  a0 : ℤ

/-- The memory.  The last three fields are not in the kernel: the processes that are between
`begin_op` and `end_op`; for each group that was closed for its commit, newest first, the contents
of the blocks and the inode table at that time; and the sections of `fileread` and `filewrite`,
newest first. -/
structure St (N : ℕ) where
  blk : Disk
  log : Log
  itable : Fin NINODE → Inode N
  ftable : Fin NFILE → File
  proc : Fin N → Proc
  journal : Redo.Mem
  op : Fin N → Bool
  commits : List (Disk × (Fin NINODE → Inode N))
  uses : List (Use N)

variable {N : ℕ}

namespace St

def setInode (s : St N) (k : Fin NINODE) (x : Inode N) : St N :=
  { s with itable := setAt s.itable k x }

def setFile (s : St N) (f : Fin NFILE) (x : File) : St N :=
  { s with ftable := setAt s.ftable f x }

def setProc (s : St N) (t : Fin N) (x : Proc) : St N :=
  { s with proc := setAt s.proc t x }

/-- Run a routine on the inode in the slot `k`. -/
def onInode {α : Type} (k : Fin NINODE) (m : Sec α) (s : St N) : Outcome Panic (α × St N) := do
  let (a, c) ← m ⟨s.blk, s.log, (s.itable k).d⟩
  pure (a, { s with
    blk := c.blk
    log := c.log
    itable := setAt s.itable k { s.itable k with d := c.ip } })

/-! ## Sections under `itable.lock` -/

/-- Find the slot of the inode `inum`, or recycle an empty one. -/
def iget (inum : ℕ) (s : St N) : Outcome Panic (Fin NINODE × St N) :=
  match (List.finRange NINODE).find? fun k => 0 < (s.itable k).ref ∧ (s.itable k).inum = inum with
  | some k => .ok (k, s.setInode k { s.itable k with ref := (s.itable k).ref + 1 })
  | none =>
    match (List.finRange NINODE).find? fun k => (s.itable k).ref = 0 with
    | some k => .ok (k, s.setInode k { s.itable k with inum := inum, ref := 1, valid := false })
    | none => .panic .igetNoInodes

/-- `idup(myproc()->cwd)` -/
def idupCwd (t : Fin N) (s : St N) : Outcome Panic (Fin NINODE × St N) :=
  match (s.proc t).cwd with
  | some k => .ok (k, s.setInode k { s.itable k with ref := (s.itable k).ref + 1 })
  | none => .panic .kerneltrap

/-- The first section of `iput`: the reference is dropped, unless the inode has to be freed
first (the answer).  `acquiresleep` would have to sleep on a lock that is taken, with
`itable.lock` held. -/
def iputFirst (t : Fin N) (k : Fin NINODE) (s : St N) : Outcome Panic (Bool × St N) :=
  let ip := s.itable k
  if ip.ref = 1 ∧ ip.valid ∧ ip.d.nlink = 0 then
    if ip.lock = none then
      .ok (true, s.setInode k { ip with lock := some t, freeing := true })
    else .panic .schedLocks
  else .ok (false, s.setInode k { ip with ref := ip.ref - 1 })

/-- `ip->ref--` after the inode was freed. -/
def iputLast (k : Fin NINODE) (s : St N) : St N :=
  s.setInode k { s.itable k with ref := (s.itable k).ref - 1 }

/-! ## Sections under the inode's lock -/

section

variable (G : Geometry)

/-- Lock the given inode.  Reads the inode from disk if necessary. -/
def ilock (t : Fin N) (k : Fin NINODE) (s : St N) : Outcome Panic (St N) :=
  let ip := s.itable k
  if ip.ref < 1 then .panic .ilock
  else if ip.lock ≠ none then .blocked
  else if ip.valid then .ok (s.setInode k { ip with lock := some t })
  else if (G.din s.blk ip.inum).type = 0 then .panic .ilockNoType
  else .ok (s.setInode k { ip with lock := some t, valid := true, d := G.din s.blk ip.inum })

/-- Unlock the given inode. -/
def iunlock (t : Fin N) (k : Fin NINODE) (s : St N) : Outcome Panic (St N) :=
  let ip := s.itable k
  if ip.lock ≠ some t ∨ ip.ref < 1 then .panic .iunlock
  else .ok (s.setInode k { ip with lock := none })

/-- In `iput`: truncate and free the inode, and unlock it. -/
def ifree (k : Fin NINODE) (s : St N) : Outcome Panic (St N) := do
  let (_, s) ← onInode k (do
    Sec.itrunc G (s.itable k).inum
    modify fun c => { c with ip := { c.ip with type := 0 } }
    Sec.iupdate G (s.itable k).inum) s
  pure (s.setInode k { s.itable k with valid := false, lock := none, freeing := false })

/-- Change fields of the in-memory inode and copy it to disk. -/
def change (k : Fin NINODE) (f : Dinode → Dinode) (s : St N) : Outcome Panic (St N) := do
  let (_, s) ← onInode k (do
    modify fun c => { c with ip := f c.ip }
    Sec.iupdate G (s.itable k).inum) s
  pure s

/-- A round of the loop of `ialloc`: the inode is marked as allocated if it is free. -/
def ialloc (inum : ℕ) (type : Int16) (s : St N) : Outcome Panic (Bool × St N) :=
  if (G.din s.blk inum).type = 0 then do
    let (_, l) ← s.log.write (G.IBLOCK inum)
    pure (true, { s with
      blk := G.putDin s.blk inum { Dinode.zero with type := type }
      log := l })
  else .ok (false, s)

end

/-! ## Sections under `log.lock` -/

/-- The loop of `begin_op`: the call waits until it is admitted. -/
def beginOp (t : Fin N) (s : St N) : Outcome Panic (St N) :=
  if s.log.Admits then
    .ok { s with log := s.log.beginOp, op := setAt s.op t true }
  else .blocked

/-- The first section of `end_op`; the answer is `do_commit`. -/
def endOp (t : Fin N) (s : St N) : Outcome Panic (Bool × St N) := do
  let (doCommit, l) ← s.log.endOp
  let s := { s with log := l, op := setAt s.op t false }
  if doCommit then
    pure (true, { s with
      journal := ⟨s.journal.disk, s.blk, l.lh, []⟩
      commits := (s.blk, s.itable) :: s.commits })
  else pure (false, s)

/-! ## Sections under `ftable.lock` -/

/-- Allocate a file structure. -/
def filealloc (s : St N) : Outcome Panic (Option (Fin NFILE) × St N) :=
  match (List.finRange NFILE).find? fun f => (s.ftable f).ref = 0 with
  | some f => .ok (some f, s.setFile f { s.ftable f with ref := 1 })
  | none => .ok (none, s)

/-- Increment ref count for file f. -/
def filedup (f : Fin NFILE) (s : St N) : Outcome Panic (St N) :=
  if (s.ftable f).ref < 1 then .panic .filedup
  else .ok (s.setFile f { s.ftable f with ref := (s.ftable f).ref + 1 })

/-- The section of `fileclose`; the answer is `ff` if that was the last reference. -/
def dropFile (f : Fin NFILE) (s : St N) : Outcome Panic (Option File × St N) :=
  if (s.ftable f).ref < 1 then .panic .fileclose
  else if 0 < (s.ftable f).ref - 1 then
    .ok (none, s.setFile f { s.ftable f with ref := (s.ftable f).ref - 1 })
  else .ok (some (s.ftable f), s.setFile f { s.ftable f with ref := 0, type := .none })

/-! ## Descriptors and files -/

def setFd (t : Fin N) (fd : Fin NOFILE) (f : Option (Fin NFILE)) (s : St N) : St N :=
  s.setProc t { s.proc t with ofile := setAt (s.proc t).ofile fd f }

/-- Allocate a file descriptor for the given file. -/
def fdalloc (t : Fin N) (f : Fin NFILE) (s : St N) :
    Outcome Panic (Option (Fin NOFILE) × St N) :=
  match (List.finRange NOFILE).find? fun fd => ((s.proc t).ofile fd).isNone with
  | some fd => .ok (some fd, s.setFd t fd (some f))
  | none => .ok (none, s)

/-- The descriptor and the file that an argument names. -/
def argfd (t : Fin N) (fd : ℤ) (s : St N) : Option (Fin NOFILE × Fin NFILE) :=
  if h : 0 ≤ fd ∧ fd.toNat < NOFILE then
    ((s.proc t).ofile ⟨fd.toNat, h.2⟩).map fun f => (⟨fd.toNat, h.2⟩, f)
  else none

/-- The file has been used from its offset on: `f->off += r`. -/
def advance (t : Fin N) (f : Fin NFILE) (r : ℕ) (src : Option (ℕ → Option UInt8)) (pos : ℕ)
    (s : St N) : St N :=
  { s.setFile f { s.ftable f with off := ((s.ftable f).off + r) % 2 ^ 32 } with
    uses := ⟨t, f, (s.ftable f).off, r, src, pos⟩ :: s.uses }

/-- `fileread` with the inode locked. -/
def readFile (G : Geometry) (t : Fin N) (f : Fin NFILE) (copyout : ℕ → ℕ → Bool) (n : ℕ)
    (s : St N) : Outcome Panic ((ℤ × (ℕ → UInt8)) × St N) := do
  let (r, s) ← onInode (s.ftable f).ip (Sec.readi G copyout (s.ftable f).off n) s
  pure (r, if 0 < r.1 then s.advance t f r.1.toNat none 0 else s)

/-- A round of `filewrite` with the inode locked: `n` bytes of the source, from `i` on. -/
def writeFile (G : Geometry) (t : Fin N) (f : Fin NFILE) (src : ℕ → Option UInt8) (i n : ℕ)
    (s : St N) : Outcome Panic (ℤ × St N) := do
  let ip := (s.ftable f).ip
  let (r, s) ← onInode ip
    (Sec.writei G (s.itable ip).inum (fun j => src (i + j)) (s.ftable f).off n) s
  pure (r, if 0 < r then s.advance t f r.toNat (some src) i else s)

def setCwd (t : Fin N) (k : Option (Fin NINODE)) (s : St N) : St N :=
  s.setProc t { s.proc t with cwd := k }

def setA0 (t : Fin N) (r : ℤ) (s : St N) : St N := s.setProc t { s.proc t with a0 := r }

end St

/-- `argstr`: the string, if it ends within `MAXPATH` bytes of mapped memory. -/
def argstr (arg : Option Path) : Option Path :=
  match arg with
  | some path => if path.length < MAXPATH ∧ 0 ∉ path then some path else none
  | none => none

/-! ## Inodes -/

/-- A routine of the file system. -/
abbrev Routine (N : ℕ) (α : Type) : Type 1 := Prog Panic (St N) α

section

variable (G : Geometry) (t : Fin N)

def beginOp : Routine N Unit := .update (St.beginOp t)

/-- `commit`, on the group that the first section of `end_op` has closed. -/
def commit : Routine N Unit :=
  .zoom St.journal (fun m s => { s with journal := m }) (Redo.commit G.logstart)

def endOp : Routine N Unit := do
  if ← .atomic (St.endOp t) then do
    commit G
    .modify fun s => { s with log := { s.log with lh := s.journal.lh, committing := false } }
  else pure ()

def iget (inum : ℕ) : Routine N (Fin NINODE) := .atomic (St.iget inum)

def ilock (k : Fin NINODE) : Routine N Unit := .update (St.ilock G t k)

def iunlock (k : Fin NINODE) : Routine N Unit := .update (St.iunlock t k)

def iput (k : Fin NINODE) : Routine N Unit := do
  if ← .atomic (St.iputFirst t k) then do
    .update (St.ifree G k)
    .modify (St.iputLast k)
  else pure ()

def iunlockput (k : Fin NINODE) : Routine N Unit := do
  iunlock t k
  iput G t k

/-- Look at the in-memory inode, which the process has locked. -/
def inodeOf (k : Fin NINODE) : Routine N Dinode := .read fun s => (s.itable k).d

/-- The number of the inode in a slot to which the process has a reference. -/
def inumOf (k : Fin NINODE) : Routine N ℕ := .read fun s => (s.itable k).inum

/-- Change fields of the locked in-memory inode and `iupdate` it. -/
def change (k : Fin NINODE) (f : Dinode → Dinode) : Routine N Unit := .update (St.change G k f)

/-- Allocate an inode, marked as allocated by giving it the type `type`. -/
def ialloc (type : Int16) : Routine N (Option (Fin NINODE)) :=
  .iterate (fun inum =>
    if inum < G.ninodes then do
      if ← .atomic (St.ialloc G inum type) then do
        let ip ← iget inum
        pure (.inr (some ip))
      else pure (.inl (inum + 1))
    else pure (.inr none)) 1

/-! ## Directories and paths -/

def dirlookup (dp : Fin NINODE) (name : Name) : Routine N (Option (Fin NINODE × ℕ)) := do
  match ← .atomic (St.onInode dp (Sec.dirlookup G name)) with
  | none => pure none
  | some (inum, off) => do
    let ip ← iget inum
    pure (some (ip, off))

/-- Write a new directory entry `(name, inum)` into the directory `dp`; whether it succeeds. -/
def dirlink (dp : Fin NINODE) (name : Name) (inum : ℕ) : Routine N Bool := do
  match ← dirlookup G dp name with
  | some (ip, _) => do
    iput G t ip
    pure false
  | none => do
    let dinum ← inumOf dp
    .atomic (St.onInode dp (Sec.dirlinkEntry G dinum name inum))

/-- The body of the loop of `namex`, when `skipelem` has put an element into `name` and left
`path`: the next inode, or the result. -/
def namexElem (parent : Bool) (ip : Fin NINODE) (path : Path) (name : NameBuf) :
    Routine N ((Fin NINODE × Path × NameBuf) ⊕ Option (Fin NINODE × NameBuf)) := do
  ilock G t ip
  if (← inodeOf ip).type ≠ T_DIR then do
    iunlockput G t ip
    pure (.inr none)
  else if parent ∧ path = [] then do
    -- stop one level early
    iunlock t ip
    pure (.inr (some (ip, name)))
  else do
    match ← dirlookup G ip (nameOf name) with
    | none => do
      iunlockput G t ip
      pure (.inr none)
    | some (next, _) => do
      iunlockput G t ip
      pure (.inl (next, path, name))

/-- The loop of `namex` and what follows it. -/
def namexFrom (parent : Bool) (st : Fin NINODE × Path × NameBuf) :
    Routine N ((Fin NINODE × Path × NameBuf) ⊕ Option (Fin NINODE × NameBuf)) :=
  match skipelem st.2.1 st.2.2 with
  | some (path, name) => namexElem G t parent st.1 path name
  | none =>
    if parent then do
      iput G t st.1
      pure (.inr none)
    else pure (.inr (some (st.1, st.2.2)))

/-- Look up the inode for a path name, or with `parent` the inode of its parent directory and
the final path element, in the buffer `name`. -/
def namex (path : Path) (parent : Bool) (name : NameBuf) :
    Routine N (Option (Fin NINODE × NameBuf)) := do
  let ip ← (if path.head? = some slash then iget ROOTINO else .atomic (St.idupCwd t))
  .iterate (namexFrom G t parent) (ip, path, name)

/-- What the kernel's stack holds in a new `char name[DIRSIZ]`; `namex` does not read it. -/
def onStack : NameBuf := fun _ => 0

def namei (path : Path) : Routine N (Option (Fin NINODE)) := do
  return (← namex G t path false onStack).map Prod.fst

def nameiparent (path : Path) (name : NameBuf) : Routine N (Option (Fin NINODE × NameBuf)) :=
  namex G t path true name

/-! ## System calls -/

/-- The part of `sys_link` from the lookup of the new path on: whether the entry was added. -/
def linkAt (ip : Fin NINODE) (new : Path) : Routine N Bool := do
  match ← nameiparent G t new onStack with
  | none => pure false
  | some (dp, name) => do
    ilock G t dp
    let inum ← inumOf ip
    let ok ← dirlink G t dp (nameOf name) inum
    iunlockput G t dp
    pure ok

/-- `sys_link` between `begin_op` and `end_op`. -/
def link (old new : Path) : Routine N ℤ := do
  match ← namei G t old with
  | none => pure (-1)
  | some ip => do
    ilock G t ip
    if (← inodeOf ip).type = T_DIR then do
      iunlockput G t ip
      pure (-1)
    else do
      change G ip fun d => { d with nlink := d.nlink + 1 }
      iunlock t ip
      if ← linkAt G t ip new then do
        iput G t ip
        pure 0
      else do
        ilock G t ip
        change G ip fun d => { d with nlink := d.nlink - 1 }
        iunlockput G t ip
        pure (-1)

/-- `sys_unlink` from the point where the entry was found at `off`: whether it is removed. -/
def unlinkEntry (dp ip : Fin NINODE) (off : ℕ) : Routine N Bool := do
  ilock G t ip
  let d ← inodeOf ip
  .when (d.nlink < 1) (.update fun _ => .panic .unlinkNlink)
  let empty ← (if d.type = T_DIR then .atomic (St.onInode ip (Sec.isdirempty G)) else pure true)
  if empty then do
    let dinum ← inumOf dp
    .atomic (St.onInode dp (Sec.eraseEntry G dinum off))
    .when (d.type = T_DIR) (change G dp fun d => { d with nlink := d.nlink - 1 })
    iunlockput G t dp
    change G ip fun d => { d with nlink := d.nlink - 1 }
    iunlockput G t ip
    pure true
  else do
    iunlockput G t ip
    iunlockput G t dp
    pure false

/-- `sys_unlink` between `begin_op` and `end_op`. -/
def unlink (path : Path) : Routine N ℤ := do
  match ← nameiparent G t path onStack with
  | none => pure (-1)
  | some (dp, name) => do
    ilock G t dp
    if nameMatches (nameOf name) (cstr dot) ∨ nameMatches (nameOf name) (cstr dotdot) then do
      iunlockput G t dp
      pure (-1)
    else do
      match ← dirlookup G dp (nameOf name) with
      | none => do
        iunlockput G t dp
        pure (-1)
      | some (ip, off) => do
        if ← unlinkEntry G t dp ip off then pure 0 else pure (-1)

/-- The part of `create` that makes the new inode's entries, in the order of the source: `.` and
`..` for a directory, then the name. -/
def createEntries (dp ip : Fin NINODE) (name : Name) (type : Int16) : Routine N Bool := do
  let inum ← inumOf ip
  let dinum ← inumOf dp
  let dots ← (if type = T_DIR then do
      if ← dirlink G t ip dot inum then dirlink G t ip dotdot dinum else pure false
    else pure true)
  if dots then dirlink G t dp name inum else pure false

/-- `create` from the point where the name was not found in `dp`. -/
def createNew (dp : Fin NINODE) (name : Name) (type major minor : Int16) :
    Routine N (Option (Fin NINODE)) := do
  match ← ialloc G type with
  | none => do
    iunlockput G t dp
    pure none
  | some ip => do
    ilock G t ip
    change G ip fun d => { d with major := major, minor := minor, nlink := 1 }
    if ← createEntries G t dp ip name type then do
      .when (type = T_DIR) (change G dp fun d => { d with nlink := d.nlink + 1 })
      iunlockput G t dp
      pure (some ip)
    else do
      change G ip fun d => { d with nlink := 0 }
      iunlockput G t ip
      iunlockput G t dp
      pure none

/-- The inode is returned locked. -/
def create (path : Path) (type major minor : Int16) : Routine N (Option (Fin NINODE)) := do
  match ← nameiparent G t path onStack with
  | none => pure none
  | some (dp, name) => do
    ilock G t dp
    match ← dirlookup G dp (nameOf name) with
    | some (ip, _) => do
      iunlockput G t dp
      ilock G t ip
      let d ← inodeOf ip
      if type = T_FILE ∧ (d.type = T_FILE ∨ d.type = T_DEVICE) then pure (some ip)
      else do
        iunlockput G t ip
        pure none
    | none => createNew G t dp (nameOf name) type major minor

/-- `O_WRONLY` -/
def O_WRONLY : UInt32 := 0x001

/-- `O_RDWR` -/
def O_RDWR : UInt32 := 0x002

/-- `O_CREATE` -/
def O_CREATE : UInt32 := 0x200

/-- `O_TRUNC` -/
def O_TRUNC : UInt32 := 0x400

/-- What `sys_open` stores in the file `f` for an inode with the copy `d`.  It leaves the offset
of a device's file and the device number of another's as they were. -/
def openedFile (f : File) (ip : Fin NINODE) (d : Dinode) (omode : UInt32) : File where
  type := if d.type = T_DEVICE then .device else .inode
  ref := f.ref
  readable := omode &&& O_WRONLY = 0
  writable := omode &&& O_WRONLY ≠ 0 ∨ omode &&& O_RDWR ≠ 0
  ip := ip
  off := if d.type = T_DEVICE then f.off else 0
  major := if d.type = T_DEVICE then d.major else f.major

/-- Close file f.  (Decrement ref count, close when reaches 0.)  `pipeclose` does not touch the
file system. -/
def fileclose (f : Fin NFILE) : Routine N Unit := do
  match ← .atomic (St.dropFile f) with
  | none => pure ()
  | some ff =>
    if ff.HasInode then do
      beginOp t
      iput G t ff.ip
      endOp G t
    else pure ()

/-- The part of `sys_open` that finds or creates the inode, which is returned locked. -/
def openInode (path : Path) (omode : UInt32) : Routine N (Option (Fin NINODE)) := do
  if omode &&& O_CREATE ≠ 0 then create G t path T_FILE 0 0
  else do
    match ← namei G t path with
    | none => pure none
    | some ip => do
      ilock G t ip
      if (← inodeOf ip).type = T_DIR ∧ omode ≠ 0 then do
        iunlockput G t ip
        pure none
      else pure (some ip)

/-- `filealloc` and `fdalloc` in `sys_open`. -/
def openFd : Routine N (Option (Fin NFILE × Fin NOFILE)) := do
  match ← .atomic St.filealloc with
  | none => pure none
  | some f => do
    match ← .atomic (St.fdalloc t f) with
    | some fd => pure (some (f, fd))
    | none => do
      fileclose G t f
      pure none

/-- `sys_open` between `begin_op` and `end_op`. -/
def «open» (path : Path) (omode : UInt32) : Routine N ℤ := do
  match ← openInode G t path omode with
  | none => pure (-1)
  | some ip => do
    let d ← inodeOf ip
    if d.type = T_DEVICE ∧ (d.major < 0 ∨ (NDEV : ℤ) ≤ d.major.toInt) then do
      iunlockput G t ip
      pure (-1)
    else do
      match ← openFd G t with
      | none => do
        iunlockput G t ip
        pure (-1)
      | some (f, fd) => do
        .modify fun s => s.setFile f (openedFile (s.ftable f) ip d omode)
        .when (omode &&& O_TRUNC ≠ 0 ∧ d.type = T_FILE) do
          let inum ← inumOf ip
          .atomic (St.onInode ip (Sec.itrunc G inum))
        iunlock t ip
        pure fd.val

/-- `sys_mkdir` and `sys_mknod` between `begin_op` and `end_op`. -/
def mknod (path : Path) (type major minor : Int16) : Routine N ℤ := do
  match ← create G t path type major minor with
  | none => pure (-1)
  | some ip => do
    iunlockput G t ip
    pure 0

/-- `iput(p->cwd)` -/
def iputCwd : Routine N Unit := do
  match ← .read fun s => (s.proc t).cwd with
  | none => .update fun _ => .panic .kerneltrap
  | some cwd => iput G t cwd

/-- The part of `sys_chdir` before `end_op`: the new working directory. -/
def chdir (path : Path) : Routine N (Option (Fin NINODE)) := do
  match ← namei G t path with
  | none => pure none
  | some ip => do
    ilock G t ip
    if (← inodeOf ip).type ≠ T_DIR then do
      iunlockput G t ip
      pure none
    else do
      iunlock t ip
      iputCwd G t
      pure (some ip)

/-- What `stati` copies out of an inode. -/
structure Stat where
  ino : ℕ
  type : Int16
  nlink : Int16
  size : UInt32

/-- Get metadata about file f. -/
def filestat (f : Fin NFILE) : Routine N (Option Stat) := do
  let x ← .read fun s => s.ftable f
  if x.HasInode then do
    ilock G t x.ip
    let d ← inodeOf x.ip
    let inum ← inumOf x.ip
    iunlock t x.ip
    pure (some ⟨inum, d.type, d.nlink, d.size⟩)
  else pure none

/-- The check of a device number in `fileread` and `filewrite`; the device answers `other`. -/
def askDevice (major : Int16) (other : ℤ) : ℤ :=
  if major < 0 ∨ (NDEV : ℤ) ≤ major.toInt then -1 else other

/-- Read from file f: the answer, and the bytes for the destination buffer. -/
def fileread (f : Fin NFILE) (copyout : ℕ → ℕ → Bool) (n other : ℤ) :
    Routine N (ℤ × (ℕ → UInt8)) := do
  let x ← .read fun s => s.ftable f
  if x.readable then
    match x.type with
    | .pipe => pure (other, fun _ => 0)
    | .device => pure (askDevice x.major other, fun _ => 0)
    | .inode => do
      ilock G t x.ip
      let r ← .atomic (St.readFile G t f copyout (n % 2 ^ 32).toNat)
      iunlock t x.ip
      pure r
    | .none => do
      .update fun _ => .panic .fileread
      pure (0, fun _ => 0)
  else pure (-1, fun _ => 0)

/-- The largest number of bytes that `filewrite` writes in one transaction. -/
def maxChunk : ℕ := (MAXOPBLOCKS - 1 - 1 - 2) / 2 * BSIZE

/-- The loop of `filewrite` on a file with an inode: the number of bytes it has written when it
ends. -/
def writeLoop (f : Fin NFILE) (ip : Fin NINODE) (src : ℕ → Option UInt8) (n : ℤ) :
    Routine N ℕ :=
  .iterate (fun (i : ℕ) =>
    if (i : ℤ) < n then do
      let n1 := min (n - i).toNat maxChunk
      beginOp t
      ilock G t ip
      let r ← .atomic (St.writeFile G t f src i n1)
      iunlock t ip
      endOp G t
      if r = n1 then pure (.inl (i + n1)) else pure (.inr i)
    else pure (.inr i)) 0

/-- Write to file f. -/
def filewrite (f : Fin NFILE) (src : ℕ → Option UInt8) (n other : ℤ) : Routine N ℤ := do
  let x ← .read fun s => s.ftable f
  if x.writable then
    match x.type with
    | .pipe => pure other
    | .device => pure (askDevice x.major other)
    | .inode => do
      let i ← writeLoop G t f x.ip src n
      if (i : ℤ) = n then pure n else pure (-1)
    | .none => do
      .update fun _ => .panic .filewrite
      pure 0
  else pure (-1)

/-! ## `exec` -/

/-- The number stored in `w` bytes of a buffer from `o` on. -/
def rdBuf (buf : ℕ → UInt8) : ℕ → ℕ → ℕ
  | _, 0 => 0
  | o, w + 1 => (buf o).toNat + 256 * rdBuf buf (o + 1) w

/-- `ELF_MAGIC` -/
def ELF_MAGIC : ℕ := 0x464C457F

/-- `ELF_PROG_LOAD` -/
def ELF_PROG_LOAD : ℕ := 1

/-- `sizeof(struct elfhdr)` -/
def ELFSIZE : ℕ := 64

/-- `sizeof(struct proghdr)` -/
def PHSIZE : ℕ := 56

/-- `readi` into the kernel's memory. -/
def readKernel (ip : Fin NINODE) (off n : ℕ) : Routine N (ℤ × (ℕ → UInt8)) :=
  .atomic (St.onInode ip (Sec.readi G (fun _ _ => true) off n))

/-- Load a program segment; whether the file is long enough. -/
def loadseg (ip : Fin NINODE) (offset sz : ℕ) : Routine N Bool :=
  .iterate (fun i =>
    if i < sz then do
      let n := min (sz - i) PGSIZE
      let (r, _) ← readKernel G ip ((offset + i) % 2 ^ 32) n
      if r = n then pure (.inl (i + PGSIZE)) else pure (.inr false)
    else pure (.inr true)) 0

/-- The checks of a program header that is to be loaded. -/
def phOk (ph : ℕ → UInt8) : Bool :=
  rdBuf ph 32 8 ≤ rdBuf ph 40 8 ∧ rdBuf ph 16 8 ≤ (rdBuf ph 16 8 + rdBuf ph 40 8) % 2 ^ 64 ∧
    rdBuf ph 16 8 % PGSIZE = 0

/-- The part of `exec` that reads the locked file; whether the program is loaded.  `mem i` says
whether `proc_pagetable` (for `0`) and the `i`th round's `uvmalloc` (for `i + 1`) succeed. -/
def load (ip : Fin NINODE) (mem : ℕ → Bool) : Routine N Bool := do
  let (r, elf) ← readKernel G ip 0 ELFSIZE
  if r = ELFSIZE ∧ rdBuf elf 0 4 = ELF_MAGIC ∧ mem 0 then
    .iterate (fun i =>
      if i < rdBuf elf 56 2 then do
        let (r, ph) ← readKernel G ip ((rdBuf elf 32 8 + i * PHSIZE) % 2 ^ 32) PHSIZE
        if r ≠ PHSIZE then pure (.inr false)
        else if rdBuf ph 0 4 ≠ ELF_PROG_LOAD then pure (.inl (i + 1))
        else if phOk ph ∧ mem (i + 1) then do
          if ← loadseg G ip (rdBuf ph 8 4) (rdBuf ph 32 4) then pure (.inl (i + 1))
          else pure (.inr false)
        else pure (.inr false)
      else pure (.inr true)) 0
  else pure false

/-- `exec`; `rest` is what it returns when the program was loaded. -/
def exec (path : Path) (mem : ℕ → Bool) (rest : ℤ) : Routine N ℤ := do
  beginOp t
  match ← namei G t path with
  | none => do
    endOp G t
    pure (-1)
  | some ip => do
    ilock G t ip
    let ok ← load G ip mem
    iunlockput G t ip
    endOp G t
    if ok then pure rest else pure (-1)

end

/-- The modelled system calls, with their arguments: a path is what `argstr` finds at the user's
pointer, a source buffer gives the bytes that are mapped, a destination buffer says which ranges
are, and `other` is what a pipe or a device answers. -/
inductive Call where
  | «open» (path : Option Path) (omode : UInt32)
  | dup (fd : ℤ)
  | read (fd : ℤ) (dst : ℕ → ℕ → Bool) (n other : ℤ)
  | write (fd : ℤ) (src : ℕ → Option UInt8) (n other : ℤ)
  | fstat (fd : ℤ) (dst : Bool)
  | close (fd : ℤ)
  | link (old new : Option Path)
  | unlink (path : Option Path)
  | mkdir (path : Option Path)
  | mknod (path : Option Path) (major minor : Int16)
  | chdir (path : Option Path)
  | exec (path : Option Path) (mem : ℕ → Bool) (rest : ℤ)
  | exit

section

variable (G : Geometry) (t : Fin N)

/-- A call that is one transaction and fails without one if its path cannot be fetched. -/
def inOp (path : Option Path) (body : Path → Routine N ℤ) : Routine N ℤ :=
  match argstr path with
  | none => pure (-1)
  | some path => do
    beginOp t
    let r ← body path
    endOp G t
    pure r

def sysOpen (path : Option Path) (omode : UInt32) : Routine N ℤ :=
  inOp G t path fun path => «open» G t path omode

def sysDup (fd : ℤ) : Routine N ℤ := do
  match ← .read (St.argfd t fd) with
  | none => pure (-1)
  | some (_, f) => do
    match ← .atomic (St.fdalloc t f) with
    | none => pure (-1)
    | some fd => do
      .update (St.filedup f)
      pure fd.val

def sysRead (fd : ℤ) (dst : ℕ → ℕ → Bool) (n other : ℤ) : Routine N ℤ := do
  match ← .read (St.argfd t fd) with
  | none => pure (-1)
  | some (_, f) => do
    let (r, _) ← fileread G t f dst n other
    pure r

def sysWrite (fd : ℤ) (src : ℕ → Option UInt8) (n other : ℤ) : Routine N ℤ := do
  match ← .read (St.argfd t fd) with
  | none => pure (-1)
  | some (_, f) => filewrite G t f src n other

/-- `dst` says whether the user's `struct stat` can be written. -/
def sysFstat (fd : ℤ) (dst : Bool) : Routine N ℤ := do
  match ← .read (St.argfd t fd) with
  | none => pure (-1)
  | some (_, f) => do
    match ← filestat G t f with
    | some _ => if dst then pure 0 else pure (-1)
    | none => pure (-1)

def sysClose (fd : ℤ) : Routine N ℤ := do
  match ← .read (St.argfd t fd) with
  | none => pure (-1)
  | some (fd, f) => do
    .modify (St.setFd t fd none)
    fileclose G t f
    pure 0

def sysLink (old new : Option Path) : Routine N ℤ :=
  match argstr old with
  | none => pure (-1)
  | some old => inOp G t new fun new => link G t old new

def sysUnlink (path : Option Path) : Routine N ℤ := inOp G t path (unlink G t)

/-- The path is fetched inside the transaction. -/
def sysMknod (path : Option Path) (type major minor : Int16) : Routine N ℤ := do
  beginOp t
  let r ← (match argstr path with
    | none => pure (-1)
    | some path => mknod G t path type major minor)
  endOp G t
  pure r

def sysMkdir (path : Option Path) : Routine N ℤ := sysMknod G t path T_DIR 0 0

def sysChdir (path : Option Path) : Routine N ℤ := do
  beginOp t
  let r ← (match argstr path with
    | none => pure none
    | some path => chdir G t path)
  endOp G t
  match r with
  | none => pure (-1)
  | some ip => do
    .modify (St.setCwd t (some ip))
    pure 0

/-- The user's arguments for `exec` do not concern the file system. -/
def sysExec (path : Option Path) (mem : ℕ → Bool) (rest : ℤ) : Routine N ℤ :=
  match argstr path with
  | none => pure (-1)
  | some path => exec G t path mem rest

/-- `exit`, up to the point where the process has let go of its files. -/
def exit : Routine N ℤ := do
  .forRange NOFILE fun fd => do
    match ← .read fun s => (s.proc t).ofile fd with
    | none => pure ()
    | some f => do
      fileclose G t f
      .modify (St.setFd t fd none)
  beginOp t
  iputCwd G t
  endOp G t
  .modify (St.setCwd t none)
  pure 0

def syscall : Call → Routine N ℤ
  | .open path omode => sysOpen G t path omode
  | .dup fd => sysDup t fd
  | .read fd dst n other => sysRead G t fd dst n other
  | .write fd src n other => sysWrite G t fd src n other
  | .fstat fd dst => sysFstat G t fd dst
  | .close fd => sysClose G t fd
  | .link old new => sysLink G t old new
  | .unlink path => sysUnlink G t path
  | .mkdir path => sysMkdir G t path
  | .mknod path major minor => sysMknod G t path T_DEVICE major minor
  | .chdir path => sysChdir G t path
  | .exec path mem rest => sysExec G t path mem rest
  | .exit => exit G t

end

/-- The file system with `N` processes; a process that has exited makes no more calls. -/
def kernel (N : ℕ) (G : Geometry) : Kernel Panic (St N) (Fin N) Call where
  body t c := do
    let r ← syscall G t c
    .modify (St.setA0 t r)
  guard t _ s := ((s.proc t).cwd).isSome = true

instance (N : ℕ) (G : Geometry) (t : Fin N) (c : Call) (s : St N) :
    Decidable ((kernel N G).guard t c s) :=
  inferInstanceAs (Decidable (((s.proc t).cwd).isSome = true))

end Xv6.Fs
