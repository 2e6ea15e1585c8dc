import Xv6.Framework.Prog
import Xv6.Fs.Layout
import Xv6.Log.Basic

/-!
# Blocks, inode contents and directories

The routines of `kernel/fs.c` that run with one inode locked: the block allocator, `bmap`,
`itrunc`, `readi` and `writei`, and the scans of a directory.  They work on what `bread`
returns for each block, on the log they record their writes in, and on the in-memory copy of
the locked inode (`Ictx`).  No other process can look at that inode or at its blocks
meanwhile, so each routine is one atomic section for the callers in `Fs/Calls.lean`.

What is proved about them is in `Fs/Blocks.lean` and `Fs/Contents.lean`.
-/

namespace Xv6.Fs

open Concur Concur.Bytes

/-- What a routine works on: the contents of the blocks, the log, and the in-memory copy of the
locked inode. -/
structure Ictx where
  blk : Disk
  log : Log
  ip : Dinode

/-- A routine that runs with an inode locked. -/
abbrev Sec (α : Type) : Type := StateT Ictx (Outcome Panic) α

namespace Sec

/-- `panic(m)` -/
def stop {α : Type} (m : Panic) : Sec α := fun _ => .panic m

/-- `if (c) m;` -/
def when (c : Prop) [Decidable c] (m : Sec Unit) : Sec Unit := if c then m else pure ()

/-- Change the buffer of the block `b` to `v` and `log_write` it. -/
def logWrite (b : ℕ) (v : Block) : Sec Unit := fun s => do
  let (_, l) ← s.log.write b
  pure ((), { s with blk := setAt s.blk b v, log := l })

/-- `ip->addrs[k] = a` -/
def setAddr (k : Fin (NDIRECT + 1)) (a : UInt32) : Sec Unit :=
  modify fun s => { s with ip := { s.ip with addrs := setAt s.ip.addrs k a } }

/-- Zero a block. -/
def bzero (b : ℕ) : Sec Unit := logWrite b Bytes.zero

end Sec

/-- The inner loop of `balloc`: the first free bit from `bi` on, among `left` of them. -/
def freeBit (bp : Block) : ℕ → ℕ → Option ℕ
  | 0, _ => none
  | left + 1, bi => if getBit bp bi then freeBit bp left (bi + 1) else some bi

/-- The number of leading bytes of a user buffer that are mapped, among `m` of them from `i` on.
`copyin` copies page by page up to the first page that is not. -/
def mapped (src : ℕ → Option UInt8) : ℕ → ℕ → ℕ
  | _, 0 => 0
  | i, m + 1 => if (src i).isSome then mapped src (i + 1) m + 1 else 0

namespace Sec

variable (G : Geometry)

/-- The outer loop of `balloc`, with `k` bitmap blocks to go. -/
def ballocFrom : ℕ → ℕ → Sec ℕ
  | 0, _ => pure 0
  | k + 1, b => do
    let bp := (← get).blk (G.BBLOCK b)
    match freeBit bp (min BPB (G.size - b)) 0 with
    | some bi => do
      logWrite (G.BBLOCK b) (putBit bp bi true)
      bzero (b + bi)
      pure (b + bi)
    | none => ballocFrom k (b + BPB)

/-- Allocate a zeroed disk block; `0` if out of disk space. -/
def balloc : Sec ℕ := ballocFrom G (G.size / BPB + 1) 0

/-- Free a disk block. -/
def bfree (b : ℕ) : Sec Unit := do
  let bp := (← get).blk (G.BBLOCK b)
  if getBit bp (b % BPB) then logWrite (G.BBLOCK b) (putBit bp (b % BPB) false)
  else stop .freeingFreeBlock

/-- Copy a modified in-memory inode to disk. -/
def iupdate (inum : ℕ) : Sec Unit := do
  let s ← get
  logWrite (G.IBLOCK inum) (putDinode (s.blk (G.IBLOCK inum)) (inum % IPB) s.ip)

/-- In `bmap`: the block number in `ip->addrs[k]`, allocating if necessary. -/
def ensureAddr (k : Fin (NDIRECT + 1)) : Sec ℕ := do
  let addr := (← get).ip.addrs k
  if addr = 0 then do
    let addr ← balloc G
    if addr = 0 then pure 0
    else do
      setAddr k (UInt32.ofNat addr)
      pure addr
  else pure addr.toNat

/-- Return the disk block address of the `bn`th block of the inode; `0` if out of disk space. -/
def bmap (bn : ℕ) : Sec ℕ :=
  if h : bn < NDIRECT then ensureAddr G ⟨bn, Nat.lt_succ_of_lt h⟩
  else if bn - NDIRECT < NINDIRECT then do
    let ind ← ensureAddr G (Fin.last NDIRECT)
    if ind = 0 then pure 0
    else do
      let addr := getEntry ((← get).blk ind) (bn - NDIRECT)
      if addr = 0 then do
        let addr ← balloc G
        if addr = 0 then pure 0
        else do
          logWrite ind (putEntry ((← get).blk ind) (bn - NDIRECT) (UInt32.ofNat addr))
          pure addr
      else pure addr.toNat
  else stop .bmapOutOfRange

/-- The first loop of `itrunc`. -/
def freeDirect : List (Fin NDIRECT) → Sec Unit
  | [] => pure ()
  | i :: is => do
    let a := (← get).ip.addrs i.castSucc
    when (a ≠ 0) do
      bfree G a.toNat
      setAddr i.castSucc 0
    freeDirect is

/-- The second loop of `itrunc`, over the entries of the indirect block `bp`. -/
def freeEntries (bp : Block) : List (Fin NINDIRECT) → Sec Unit
  | [] => pure ()
  | j :: js => do
    when (getEntry bp j ≠ 0) (bfree G (getEntry bp j).toNat)
    freeEntries bp js

/-- Truncate inode (discard contents). -/
def itrunc (inum : ℕ) : Sec Unit := do
  freeDirect G (List.finRange NDIRECT)
  let ind := (← get).ip.addrs (Fin.last NDIRECT)
  when (ind ≠ 0) do
    freeEntries G ((← get).blk ind.toNat) (List.finRange NINDIRECT)
    bfree G ind.toNat
    setAddr (Fin.last NDIRECT) 0
  modify fun s => { s with ip := { s.ip with size := 0 } }
  iupdate G inum

/-- The loop of `readi`, with `left` bytes to go.  The answer is `tot` and the destination
buffer. -/
def readFrom (copyout : ℕ → ℕ → Bool) :
    ℕ → ℕ → ℕ → ℕ → (ℕ → UInt8) → Sec (ℤ × (ℕ → UInt8))
  | 0, _, _, tot, dst => pure (tot, dst)
  | fuel + 1, off, left, tot, dst =>
    if left = 0 then pure (tot, dst)
    else do
      let addr ← bmap G (off / BSIZE)
      if addr = 0 then pure (tot, dst)
      else do
        let bp := (← get).blk addr
        let m := min left (BSIZE - off % BSIZE)
        if copyout tot m then
          readFrom copyout fuel (off + m) (left - m) (tot + m) fun i =>
            if tot ≤ i ∧ i < tot + m then bp.get (off % BSIZE + (i - tot)) else dst i
        else pure (-1, dst)

/-- Read data from inode.  `copyout tot m` says whether the `m` bytes from `dst + tot` on can be
written; `off` and `n` are `uint`s. -/
def readi (copyout : ℕ → ℕ → Bool) (off n : ℕ) : Sec (ℤ × (ℕ → UInt8)) := do
  let size := (← get).ip.size.toNat
  if size < off ∨ (off + n) % 2 ^ 32 < off then pure (0, fun _ => 0)
  else do
    let n := if size < off + n then size - off else n
    readFrom G copyout n off n 0 fun _ => 0

/-- The loop of `writei`, with `left` bytes to go.  The answer is `tot` and `off`.  When the
source is not mapped throughout, the buffer is changed up to there and not logged. -/
def writeFrom (src : ℕ → Option UInt8) : ℕ → ℕ → ℕ → ℕ → Sec (ℕ × ℕ)
  | 0, off, _, tot => pure (tot, off)
  | fuel + 1, off, left, tot =>
    if left = 0 then pure (tot, off)
    else do
      let addr ← bmap G (off / BSIZE)
      if addr = 0 then pure (tot, off)
      else do
        let m := min left (BSIZE - off % BSIZE)
        let got := mapped src tot m
        let v := ((← get).blk addr).splice (off % BSIZE) got fun i => (src (tot + i)).getD 0
        if got = m then do
          logWrite addr v
          writeFrom src fuel (off + m) (left - m) (tot + m)
        else do
          modify fun s => { s with blk := setAt s.blk addr v }
          pure (tot, off)

/-- Write data to inode; the bytes of the source are `src 0`, `src 1`, …, where `none` is a byte
that is not mapped. -/
def writei (inum : ℕ) (src : ℕ → Option UInt8) (off n : ℕ) : Sec ℤ := do
  let size := (← get).ip.size.toNat
  if size < off ∨ (off + n) % 2 ^ 32 < off then pure (-1)
  else if MAXFILE * BSIZE < off + n then pure (-1)
  else do
    let (tot, off) ← writeFrom G src n off n 0
    when (size < off) (modify fun s => { s with ip := { s.ip with size := UInt32.ofNat off } })
    iupdate G inum
    pure tot

end Sec

/-! ## Directories -/

/-- Maximum length of a name in a directory. -/
def DIRSIZ : ℕ := 14

/-- `sizeof(struct dirent)` -/
def DESIZE : ℕ := 16

@[simp] lemma DIRSIZ_eq : DIRSIZ = 14 := rfl

@[simp] lemma DESIZE_eq : DESIZE = 16 := rfl

/-- A path element: its bytes up to the terminating zero, at most `DIRSIZ` of them. -/
abbrev Name : Type := List UInt8

/-- `"."` -/
def dot : Name := [46]

/-- `".."` -/
def dotdot : Name := [46, 46]

/-- `de.inum` of a `struct dirent` with the bytes `de 0`, `de 1`, … -/
def deInum (de : ℕ → UInt8) : ℕ := (de 0).toNat + 256 * (de 1).toNat

/-- The bytes of a `struct dirent`, its name filled in by `strncpy`. -/
def direntBytes (inum : ℕ) (name : Name) (i : ℕ) : UInt8 :=
  if i < 2 then leByte inum i else name.getD (i - 2) 0

/-- `strncmp(s + i, t + i, n) == 0` -/
def strncmpEq (s t : ℕ → UInt8) : ℕ → ℕ → Bool
  | _, 0 => true
  | i, n + 1 => if s i ≠ 0 ∧ s i = t i then strncmpEq s t (i + 1) n else s i = t i

/-- `namecmp(name, s) == 0`, where `s` is a buffer of `DIRSIZ` bytes. -/
def nameMatches (name : Name) (s : ℕ → UInt8) : Bool :=
  strncmpEq (fun i => name.getD i 0) s 0 DIRSIZ

/-- `de.name` -/
def deName (de : ℕ → UInt8) : ℕ → UInt8 := fun i => de (2 + i)

/-- The buffer that holds a string. -/
def cstr (name : Name) : ℕ → UInt8 := fun i => name.getD i 0

namespace Sec

variable (G : Geometry)

/-- Read the directory entry at `off` into `de`; a short read stops the machine. -/
def readDirent (err : Panic) (off : ℕ) : Sec (ℕ → UInt8) := do
  let (r, de) ← readi G (fun _ _ => true) off DESIZE
  if r = DESIZE then pure de else stop err

/-- The loop of `dirlookup`, with `fuel` entries to go: the inode number and the offset of the
entry. -/
def lookupFrom (name : Name) : ℕ → ℕ → Sec (Option (ℕ × ℕ))
  | 0, _ => pure none
  | fuel + 1, off => do
    if (← get).ip.size.toNat ≤ off then pure none
    else do
      let de ← readDirent G .dirlookupRead off
      if deInum de ≠ 0 ∧ nameMatches name (deName de) then pure (some (deInum de, off))
      else lookupFrom name fuel (off + DESIZE)

/-- Look for a directory entry in the locked directory. -/
def dirlookup (name : Name) : Sec (Option (ℕ × ℕ)) := do
  let dp := (← get).ip
  if dp.type = T_DIR then lookupFrom G name (dp.size.toNat / DESIZE + 1) 0
  else stop .dirlookupNotDir

/-- The loop of `dirlink` that looks for an empty entry. -/
def emptyFrom : ℕ → ℕ → Sec ℕ
  | 0, off => pure off
  | fuel + 1, off => do
    if (← get).ip.size.toNat ≤ off then pure off
    else do
      let de ← readDirent G .dirlinkRead off
      if deInum de = 0 then pure off else emptyFrom fuel (off + DESIZE)

/-- The part of `dirlink` after the check that the name is not present; whether it succeeds. -/
def dirlinkEntry (dinum : ℕ) (name : Name) (inum : ℕ) : Sec Bool := do
  let off ← emptyFrom G ((← get).ip.size.toNat / DESIZE + 1) 0
  let r ← writei G dinum (fun i => some (direntBytes inum name i)) off DESIZE
  pure (r = DESIZE)

/-- `dirlink`; whether it succeeds.  The reference to an inode that `dirlookup` has found is dropped
again. -/
def dirlink (dinum : ℕ) (name : Name) (inum : ℕ) : Sec Bool := do
  match ← dirlookup G name with
  | some _ => pure false
  | none => dirlinkEntry G dinum name inum

/-- The loop of `isdirempty`. -/
def emptyDirFrom : ℕ → ℕ → Sec Bool
  | 0, _ => pure true
  | fuel + 1, off => do
    if (← get).ip.size.toNat ≤ off then pure true
    else do
      let de ← readDirent G .isdiremptyReadi off
      if deInum de = 0 then emptyDirFrom fuel (off + DESIZE) else pure false

/-- Is the locked directory empty except for "." and ".."? -/
def isdirempty : Sec Bool := do
  emptyDirFrom G ((← get).ip.size.toNat / DESIZE + 1) (2 * DESIZE)

/-- In `sys_unlink`: overwrite the entry at `off` with zeros. -/
def eraseEntry (dinum off : ℕ) : Sec Unit := do
  let r ← writei G dinum (fun _ => some 0) off DESIZE
  if r = DESIZE then pure () else stop .unlinkWritei

end Sec

end Xv6.Fs
