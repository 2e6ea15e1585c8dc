import Xv6.Framework.Bytes

/-!
# The kernel's parameters

The constants of `kernel/param.h` and `kernel/fs.h` that the models use, the block type they
determine, and the messages with which the kernel stops the machine.
-/

namespace Xv6

open Concur

/-- Block size. -/
def BSIZE : ℕ := 1024

/-- Maximum number of blocks any file system operation writes. -/
def MAXOPBLOCKS : ℕ := 10

/-- Maximum number of data blocks in the on-disk log. -/
def LOGSIZE : ℕ := MAXOPBLOCKS * 3

/-- Size of the disk block cache. -/
def NBUF : ℕ := MAXOPBLOCKS * 3

/-- Device number of the file system root disk. -/
def ROOTDEV : ℕ := 1

/-- Maximum number of active inodes. -/
def NINODE : ℕ := 50

/-- Open files per process. -/
def NOFILE : ℕ := 16

/-- Open files per system. -/
def NFILE : ℕ := 100

/-- Maximum major device number. -/
def NDEV : ℕ := 10

/-- Maximum length of a path name, with the terminating zero. -/
def MAXPATH : ℕ := 128

/-- Maximum number of arguments of `exec`. -/
def MAXARG : ℕ := 32

/-- User stack pages. -/
def USERSTACK : ℕ := 2

/-- Bytes per page. -/
def PGSIZE : ℕ := 4096

/-- One beyond the highest possible virtual address. -/
def MAXVA : ℕ := 2 ^ 38

/-- The page of the trampoline code. -/
def TRAMPOLINE : ℕ := MAXVA - PGSIZE

/-- The page of `p->trapframe`. -/
def TRAPFRAME : ℕ := TRAMPOLINE - PGSIZE

/-- The start of the physical memory. -/
def KERNBASE : ℕ := 0x80000000

/-- The end of the physical memory that the kernel uses. -/
def PHYSTOP : ℕ := KERNBASE + 128 * 1024 * 1024

/-- The contents of one disk block. -/
abbrev Block : Type := Bytes BSIZE

/-- Contents for every block number. -/
abbrev Disk : Type := ℕ → Block

/-- The messages of `panic`. -/
inductive Panic where
  /-- "too big a transaction" -/
  | tooBigATransaction
  /-- "log_write outside of trans" -/
  | logWriteOutsideOfTrans
  /-- "log.committing" -/
  | logCommitting
  /-- "acquire" -/
  | acquire
  /-- "release" -/
  | release
  /-- "pop_off" -/
  | popOff
  /-- "sched p->lock" -/
  | schedProcLock
  /-- "sched locks" -/
  | schedLocks
  /-- "sched running" -/
  | schedRunning
  /-- "init exiting" -/
  | initExiting
  /-- "bget: no buffers" -/
  | bgetNoBuffers
  /-- "bwrite" -/
  | bwrite
  /-- "brelse" -/
  | brelse
  /-- "kerneltrap", here after following a null pointer -/
  | kerneltrap
  /-- "freeing free block" -/
  | freeingFreeBlock
  /-- "iget: no inodes" -/
  | igetNoInodes
  /-- "ilock" -/
  | ilock
  /-- "ilock: no type" -/
  | ilockNoType
  /-- "iunlock" -/
  | iunlock
  /-- "bmap: out of range" -/
  | bmapOutOfRange
  /-- "dirlookup not DIR" -/
  | dirlookupNotDir
  /-- "dirlookup read" -/
  | dirlookupRead
  /-- "dirlink read" -/
  | dirlinkRead
  /-- "isdirempty: readi" -/
  | isdiremptyReadi
  /-- "unlink: nlink < 1" -/
  | unlinkNlink
  /-- "unlink: writei" -/
  | unlinkWritei
  /-- "filedup" -/
  | filedup
  /-- "fileclose" -/
  | fileclose
  /-- "fileread" -/
  | fileread
  /-- "filewrite" -/
  | filewrite
  /-- "kfree" -/
  | kfree
  /-- "walk" -/
  | walk
  /-- "mappages: va not aligned" -/
  | mappagesVa
  /-- "mappages: size not aligned" -/
  | mappagesSizeNotAligned
  /-- "mappages: size" -/
  | mappagesSize
  /-- "mappages: remap" -/
  | mappagesRemap
  /-- "uvmunmap: not aligned" -/
  | uvmunmapNotAligned
  /-- "uvmunmap: walk" -/
  | uvmunmapWalk
  /-- "uvmunmap: not mapped" -/
  | uvmunmapNotMapped
  /-- "uvmunmap: not a leaf" -/
  | uvmunmapNotALeaf
  /-- "freewalk: leaf" -/
  | freewalkLeaf
  /-- "uvmcopy: pte should exist" -/
  | uvmcopyPte
  /-- "uvmcopy: page not present" -/
  | uvmcopyNotPresent
  /-- "uvmclear" -/
  | uvmclear
  /-- "loadseg: address should exist" -/
  | loadseg
  /-- "zombie exit" -/
  | zombieExit
  deriving DecidableEq, Repr

@[simp] lemma BSIZE_eq : BSIZE = 1024 := rfl

@[simp] lemma MAXOPBLOCKS_eq : MAXOPBLOCKS = 10 := rfl

@[simp] lemma LOGSIZE_eq : LOGSIZE = 30 := rfl

instance : NeZero NBUF := ⟨by decide⟩

instance : NeZero NINODE := ⟨by decide⟩

instance : NeZero NOFILE := ⟨by decide⟩

instance : NeZero NFILE := ⟨by decide⟩

@[simp] lemma PGSIZE_eq : PGSIZE = 4096 := rfl

@[simp] lemma MAXVA_eq : MAXVA = 274877906944 := rfl

@[simp] lemma TRAMPOLINE_eq : TRAMPOLINE = 274877902848 := rfl

@[simp] lemma TRAPFRAME_eq : TRAPFRAME = 274877898752 := rfl

@[simp] lemma MAXPATH_eq : MAXPATH = 128 := rfl

end Xv6
