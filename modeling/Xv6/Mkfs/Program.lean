import Xv6.Framework.Fallible
import Xv6.Fs.Inode

/-!
# `mkfs`

The program `mkfs/mkfs.c`, which builds the first file system image from a list of files.  The
image file is an array of sectors that grows at its end; a failed `assert` and a call of `die`
end the program with a status other than zero, which is `failure` here.

The sizes are those of the build without a `LAB` that changes them, `FSSIZE` 2000.
-/

namespace Xv6.Mkfs

open Concur Concur.Bytes Fs

/-- Size of the file system in blocks. -/
def FSSIZE : ℕ := 2000

/-- Number of inodes. -/
def NINODES : ℕ := 200

/-- Number of bitmap blocks. -/
def nbitmap : ℕ := FSSIZE / BPB + 1

/-- Number of inode blocks. -/
def ninodeblocks : ℕ := NINODES / IPB + 1

/-- Number of log blocks. -/
def nlog : ℕ := LOGSIZE

/-- Number of meta blocks (boot, sb, nlog, inode, bitmap). -/
def nmeta : ℕ := 2 + nlog + ninodeblocks + nbitmap

/-- Number of data blocks. -/
def nblocks : ℕ := FSSIZE - nmeta

/-- The superblock that `main` fills in. -/
def sb : Geometry where
  size := FSSIZE
  ninodes := NINODES
  nlog := nlog
  logstart := 2
  inodestart := 2 + nlog
  bmapstart := 2 + nlog + ninodeblocks
  log_le := by decide
  inodes_le := by decide
  bitmap_le := by decide
  root_lt := by decide
  ninodes_le := by decide
  size_lt := by decide

/-- The numbers of a `struct superblock`, in order. -/
def sbWords : List ℕ :=
  [0x10203040, sb.size, nblocks, sb.ninodes, sb.nlog, sb.logstart, sb.inodestart, sb.bmapstart]

/-- The block with the superblock at its start. -/
def sbBlock : Block :=
  Bytes.zero.splice 0 32 fun i => leByte (sbWords.getD (i / 4) 0) (i % 4)

/-- The image file and the variables of the program. -/
structure Img where
  /-- The sectors of the image; those from `len` on are not in the file yet. -/
  disk : Disk
  len : ℕ
  freeinode : ℕ
  freeblock : ℕ

/-- A part of the program; it ends with `none` where the program exits with an error. -/
abbrev Mk (α : Type) : Type := StateT Img Option α

/-- The sector at the file offset `sec * BSIZE`, a `uint`. -/
def sector (sec : ℕ) : ℕ := sec * BSIZE % 2 ^ 32 / BSIZE

/-- Write a sector; a write past the end of the file extends it. -/
def wsect (sec : ℕ) (buf : Block) : Mk Unit :=
  modify fun s =>
    { s with disk := setAt s.disk (sector sec) buf, len := max s.len (sector sec + 1) }

/-- Read a sector; a read past the end of the file is short. -/
def rsect (sec : ℕ) : Mk Block := do
  let s ← get
  assert (sector sec < s.len)
  pure (s.disk (sector sec))

def winode (inum : ℕ) (x : Dinode) : Mk Unit := do
  let bn := sb.IBLOCK inum
  let buf ← rsect bn
  wsect bn (putDinode buf (inum % IPB) x)

def rinode (inum : ℕ) : Mk Dinode := do
  let bn := sb.IBLOCK inum
  let buf ← rsect bn
  pure (getDinode buf (inum % IPB))

/-- `freeinode++` -/
def nextInode : Mk ℕ := fun s => some (s.freeinode, { s with freeinode := s.freeinode + 1 })

/-- `freeblock++` -/
def nextBlock : Mk ℕ := fun s => some (s.freeblock, { s with freeblock := s.freeblock + 1 })

/-- A new inode of the given type. -/
def ialloc (type : Int16) : Mk ℕ := do
  let inum ← nextInode
  winode inum { Dinode.zero with type := type, nlink := 1, size := 0 }
  pure inum

/-- The bitmap block with the first `used` bits set. -/
def marks (used : ℕ) : Block := (List.range used).foldl (fun b i => putBit b i true) Bytes.zero

/-- Mark the first `used` blocks. -/
def balloc (used : ℕ) : Mk Unit := do
  assert (used < BPB)
  wsect sb.bmapstart (marks used)

/-- In `iappend`: fill `din.addrs[k]` if it is empty. -/
def fillAddr (x : Dinode) (k : Fin (NDIRECT + 1)) : Mk Dinode :=
  if x.addrs k = 0 then do
    let b ← nextBlock
    pure { x with addrs := setAt x.addrs k (UInt32.ofNat b) }
  else pure x

/-- In `iappend`: fill `indirect[j]` if it is empty, and write the indirect block `b` back. -/
def fillEntry (b : ℕ) (indirect : Block) (j : ℕ) : Mk Block :=
  if getEntry indirect j = 0 then do
    let c ← nextBlock
    wsect b (putEntry indirect j (UInt32.ofNat c))
    pure (putEntry indirect j (UInt32.ofNat c))
  else pure indirect

/-- In `iappend`: the sector of the block `fbn` of the file, and the inode with it. -/
def blockFor (x : Dinode) (fbn : ℕ) : Mk (ℕ × Dinode) :=
  if h : fbn < NDIRECT then do
    let x ← fillAddr x ⟨fbn, Nat.lt_succ_of_lt h⟩
    pure ((x.addrs ⟨fbn, Nat.lt_succ_of_lt h⟩).toNat, x)
  else do
    let x ← fillAddr x (Fin.last NDIRECT)
    let indirect ← rsect (x.addrs (Fin.last NDIRECT)).toNat
    let indirect ← fillEntry (x.addrs (Fin.last NDIRECT)).toNat indirect (fbn - NDIRECT)
    pure ((getEntry indirect (fbn - NDIRECT)).toNat, x)

/-- One round of the loop of `iappend`: the bytes `p`, which do not cross the end of the block,
go to the offset `off`. -/
def appendBlock (x : Dinode) (off : ℕ) (p : List UInt8) : Mk Dinode := do
  let fbn := off / BSIZE
  assert (fbn < MAXFILE)
  let (sec, x) ← blockFor x fbn
  let buf ← rsect sec
  wsect sec (buf.splice (off - fbn * BSIZE) p.length fun i => p.getD i 0)
  pure x

/-- The loop of `iappend`, with the bytes `p` to go; each round writes at least one. -/
def appendFrom : ℕ → Dinode → ℕ → List UInt8 → Mk (Dinode × ℕ)
  | 0, x, off, _ => pure (x, off)
  | fuel + 1, x, off, p =>
    if p = [] then pure (x, off)
    else do
      let n1 := min p.length ((off / BSIZE + 1) * BSIZE - off)
      let x ← appendBlock x off (p.take n1)
      appendFrom fuel x (off + n1) (p.drop n1)

/-- Append bytes to an inode. -/
def iappend (inum : ℕ) (p : List UInt8) : Mk Unit := do
  let x ← rinode inum
  let (x, off) ← appendFrom p.length x x.size.toNat p
  winode inum { x with size := UInt32.ofNat off }

/-- The bytes of a `struct dirent`. -/
def direntList (inum : ℕ) (name : Name) : List UInt8 :=
  (List.range DESIZE).map (direntBytes inum name)

/-- A file named on the command line: the argument, and what the calls of `read` return, or
`none` if it cannot be opened. -/
structure Input where
  arg : List UInt8
  chunks : Option (List (List UInt8))

/-- `"user/"` -/
def userDir : List UInt8 := [117, 115, 101, 114, 47]

/-- `argv[i]` without `"user/"`. -/
def Input.shortname (f : Input) : List UInt8 :=
  if userDir.isPrefixOf f.arg then f.arg.drop 5 else f.arg

/-- The name in the root directory: a leading `_` is skipped. -/
def Input.name (f : Input) : Name :=
  if f.shortname.head? = some 95 then f.shortname.tail else f.shortname

/-- The body of the loop of `main` over the files. -/
def addFile (rootino : ℕ) (f : Input) : Mk Unit := do
  assert (47 ∉ f.shortname)
  assert (f.chunks.isSome = true)
  assert (f.name.length ≤ DIRSIZ)
  let inum ← ialloc T_FILE
  iappend rootino (direntList inum f.name)
  (f.chunks.getD []).forM (iappend inum)

/-- The start of `main`: zeroed blocks, and the superblock. -/
def blank : Mk Unit := do
  (List.range FSSIZE).forM fun i => wsect i Bytes.zero
  wsect 1 sbBlock

/-- The root directory with its first two entries. -/
def makeRoot : Mk ℕ := do
  let rootino ← ialloc T_DIR
  assert (rootino = ROOTINO)
  iappend rootino (direntList rootino dot)
  iappend rootino (direntList rootino dotdot)
  pure rootino

/-- The end of `main`: fix the size of the root directory, and write the bitmap. -/
def finish (rootino : ℕ) : Mk Unit := do
  let x ← rinode rootino
  winode rootino { x with size := UInt32.ofNat ((x.size.toNat / BSIZE + 1) * BSIZE) }
  let s ← get
  balloc s.freeblock

def main (files : List Input) : Mk Unit := do
  blank
  let rootino ← makeRoot
  files.forM (addFile rootino)
  finish rootino

/-- The state in which `main` opens the image file. -/
def start : Img := ⟨fun _ => Bytes.zero, 0, 1, nmeta⟩

/-- The image that `mkfs` leaves; `none` if it exits with an error. -/
def mkfs (files : List Input) : Option Img := do
  let r ← main files start
  pure r.2

end Xv6.Mkfs
