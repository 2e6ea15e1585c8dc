import Xv6.Framework.Prog
import Xv6.Log.Basic
import Xv6.Log.Recovery
import Mathlib.Data.Finset.Card

/-!
# The buffer cache

`kernel/bio.c` with its `NBUF` buffers, their reference counts and sleep locks, the list in
order of use from which buffers are recycled, and the log on top of it: `log_write` pins a
buffer, and `commit` reads and writes through the cache like everybody else.

Any number of processes read, modify, log, write and release buffers.  A section under
`bcache.lock` or `log.lock` is one action, and so is what a process does to a buffer while it
has the buffer's sleep lock.  Waiting for a sleep lock or in `begin_op` is a refused action;
`Log/Sync.lean` has the sleeping and waking itself.

There is one disk.  The driver does not look at `b->dev`, nor does the log, and the kernel
uses the cache for `ROOTDEV` only.

What a holder stores into a buffer and what `bread` returns are recorded in a history.  The
cache is correct if the history is one of a flat array of blocks (`Faithful`).
-/

namespace Xv6.Bio

open Concur

/-- `struct buf`, with the holder of the sleep lock for `lock`.  The links of the list are in
`St.lru`. -/
structure Buf (N : ℕ) where
  valid : Bool
  dev : ℕ
  blockno : ℕ
  lock : Option (Fin N)
  refcnt : ℕ
  data : Block

/-- What happens to the contents of blocks. -/
inductive Event where
  /-- A holder stores into `b->data`. -/
  | store (b : ℕ) (v : Block)
  /-- `bread` returns. -/
  | read (b : ℕ) (v : Block)
  /-- `write_log` copies the block from the cache. -/
  | copied (b : ℕ) (v : Block)

/-- The contents last stored in each block; the history has the newest event first. -/
def lastStored (d : Disk) : List Event → Disk
  | [] => d
  | .store b v :: h => Function.update (lastStored d h) b v
  | .read _ _ :: h => lastStored d h
  | .copied _ _ :: h => lastStored d h

/-- Every event that observes the contents of a block sees what was last stored there: the
history is one of a flat array of blocks. -/
def Faithful (d : Disk) : List Event → Prop
  | [] => True
  | .store _ _ :: h => Faithful d h
  | .read b v :: h => v = lastStored d h b ∧ Faithful d h
  | .copied b v :: h => v = lastStored d h b ∧ Faithful d h

/-- The cache, the disk and the log.  The fields from `op` on are not in the kernel: they record
what has been done. -/
structure St (N : ℕ) where
  buf : Fin NBUF → Buf N
  /-- `bcache.head.next`, …: most recently used first. -/
  lru : List (Fin NBUF)
  disk : Disk
  log : Log
  /-- For a process between `begin_op` and `end_op`, the block numbers it has logged. -/
  op : Fin N → Option (Finset ℕ)
  /-- The buffers that have been modified and neither logged nor written since. -/
  dirty : Fin NBUF → Bool
  /-- For a logged block the buffer of its first `log_write`, until `bunpin`. -/
  pins : ℕ → Option (Fin NBUF)
  /-- The blocks of `log.lh` that `install_trans` has unpinned. -/
  installed : List ℕ
  history : List Event

variable {N : ℕ}

namespace St

/-- After `binit` and `initlog`. -/
def init (N : ℕ) (d : Disk) (size : ℕ) : St N where
  buf _ := ⟨false, 0, 0, none, 0, Bytes.zero⟩
  lru := (List.finRange NBUF).reverse
  disk := d
  log := Log.init size
  op _ := none
  dirty _ := false
  pins _ := none
  installed := []
  history := []

def setBuf (s : St N) (i : Fin NBUF) (x : Buf N) : St N :=
  { s with buf := Function.update s.buf i x }

def setRefcnt (s : St N) (i : Fin NBUF) (n : ℕ) : St N := s.setBuf i { s.buf i with refcnt := n }

def setLock (s : St N) (i : Fin NBUF) (x : Option (Fin N)) : St N :=
  s.setBuf i { s.buf i with lock := x }

/-- The section of `bget` under `bcache.lock`: the buffer of the block if it is cached, else the
least recently used buffer that is not in use. -/
def lookup (dev b : ℕ) (s : St N) : Outcome Panic (Fin NBUF × St N) :=
  match s.lru.find? fun i => (s.buf i).dev = dev ∧ (s.buf i).blockno = b with
  | some i => .ok (i, s.setRefcnt i ((s.buf i).refcnt + 1))
  | none =>
    match s.lru.reverse.find? fun i => (s.buf i).refcnt = 0 with
    | some i =>
      .ok (i, s.setBuf i { s.buf i with dev := dev, blockno := b, valid := false, refcnt := 1 })
    | none => .panic .bgetNoBuffers

def acquiresleep (t : Fin N) (i : Fin NBUF) (s : St N) : Outcome Panic (St N) :=
  if (s.buf i).lock = none then .ok (s.setLock i (some t)) else .blocked

/-- `bread` after `bget`: read the block unless the buffer is valid. -/
def load (i : Fin NBUF) (s : St N) : St N :=
  let v := if (s.buf i).valid then (s.buf i).data else s.disk (s.buf i).blockno
  { s.setBuf i { s.buf i with data := v, valid := true } with
    history := .read (s.buf i).blockno v :: s.history }

/-- The holder stores into `b->data`. -/
def store (i : Fin NBUF) (v : Block) (s : St N) : St N :=
  { s.setBuf i { s.buf i with data := v } with
    dirty := Function.update s.dirty i true
    history := .store (s.buf i).blockno v :: s.history }

def bwrite (t : Fin N) (i : Fin NBUF) (s : St N) : Outcome Panic (St N) :=
  if (s.buf i).lock ≠ some t then .panic .bwrite
  else .ok { s with
    disk := Function.update s.disk (s.buf i).blockno (s.buf i).data
    dirty := Function.update s.dirty i false }

/-- The first part of `brelse`. -/
def releasesleep (t : Fin N) (i : Fin NBUF) (s : St N) : Outcome Panic (St N) :=
  if (s.buf i).lock ≠ some t then .panic .brelse
  else .ok (s.setLock i none)

/-- The section of `brelse` under `bcache.lock`. -/
def unref (i : Fin NBUF) (s : St N) : St N :=
  let s' := s.setRefcnt i ((s.buf i).refcnt - 1)
  if (s'.buf i).refcnt = 0 then { s' with lru := i :: s'.lru.erase i } else s'

def bpin (i : Fin NBUF) (s : St N) : St N :=
  { s.setRefcnt i ((s.buf i).refcnt + 1) with
    pins := Function.update s.pins (s.buf i).blockno
      ((s.pins (s.buf i).blockno).or (some i)) }

def bunpin (i : Fin NBUF) (s : St N) : St N :=
  { s.setRefcnt i ((s.buf i).refcnt - 1) with
    pins := fun b => if s.pins b = some i then none else s.pins b
    installed := s.installed ++ [(s.buf i).blockno] }

/-- `log_write`, with `bpin` for a block that is new in the log. -/
def logWrite (t : Fin N) (i : Fin NBUF) (s : St N) : Outcome Panic (St N) := do
  let (new, l) ← s.log.write (s.buf i).blockno
  let s' := { s with
    log := l
    op := Function.update s.op t ((s.op t).map (insert (s.buf i).blockno))
    dirty := Function.update s.dirty i false }
  pure (if new then s'.bpin i else s')

def beginOp (t : Fin N) (s : St N) : Outcome Panic (St N) :=
  if s.log.Admits then
    .ok { s with log := s.log.beginOp, op := Function.update s.op t (some ∅) }
  else .blocked

/-- The first section of `end_op`. -/
def endOp (t : Fin N) (s : St N) : Outcome Panic (Bool × St N) := do
  let (doCommit, l) ← s.log.endOp
  pure (doCommit, { s with log := l, op := Function.update s.op t none })

end St

/-! ## The routines -/

def bget (t : Fin N) (dev b : ℕ) : Prog Panic (St N) (Fin NBUF) := do
  let i ← .atomic (St.lookup dev b)
  .update (St.acquiresleep t i)
  pure i

def bread (t : Fin N) (dev b : ℕ) : Prog Panic (St N) (Fin NBUF) := do
  let i ← bget t dev b
  .modify (St.load i)
  pure i

def bwrite (t : Fin N) (i : Fin NBUF) : Prog Panic (St N) Unit := .update (St.bwrite t i)

def brelse (t : Fin N) (i : Fin NBUF) : Prog Panic (St N) Unit := do
  .update (St.releasesleep t i)
  .modify (St.unref i)

section

variable (start : ℕ)

/-- Copy modified blocks from the cache to the log. -/
def writeLog (t : Fin N) : Prog Panic (St N) Unit :=
  .iterate (fun tail => do
    match ← .read fun s : St N => s.log.lh[tail]? with
    | none => pure (.inr ())
    | some b => do
      let dst ← bread t ROOTDEV (start + tail + 1)
      let src ← bread t ROOTDEV b
      -- memmove(to->data, from->data, BSIZE)
      .modify fun s =>
        St.store dst (s.buf src).data { s with history := .copied b (s.buf src).data :: s.history }
      bwrite t dst
      brelse t src
      brelse t dst
      pure (.inl (tail + 1))) 0

/-- Copy committed blocks from the log to their home location, `install_trans(0)`. -/
def installTrans (t : Fin N) : Prog Panic (St N) Unit :=
  .iterate (fun tail => do
    match ← .read fun s : St N => s.log.lh[tail]? with
    | none => pure (.inr ())
    | some b => do
      let lbuf ← bread t ROOTDEV (start + tail + 1)
      let dbuf ← bread t ROOTDEV b
      .modify fun s => St.store dbuf (s.buf lbuf).data s
      bwrite t dbuf
      .modify (St.bunpin dbuf)
      brelse t lbuf
      brelse t dbuf
      pure (.inl (tail + 1))) 0

/-- Write the in-memory log header to disk. -/
def writeHead (t : Fin N) : Prog Panic (St N) Unit := do
  let buf ← bread t ROOTDEV start
  .modify fun s => St.store buf (Redo.putHead (s.buf buf).data s.log.lh) s
  bwrite t buf
  brelse t buf

def commit (t : Fin N) : Prog Panic (St N) Unit := do
  if 0 < (← .read fun s : St N => s.log.lh.length) then do
    writeLog start t
    writeHead start t
    installTrans start t
    .modify fun s => { s with log := { s.log with lh := [] }, installed := [] }
    writeHead start t
  else pure ()

def endOp (t : Fin N) : Prog Panic (St N) Unit := do
  if ← .atomic (St.endOp t) then do
    commit start t
    .modify fun s => { s with log := { s.log with committing := false } }
  else pure ()

/-- What a process can do. -/
inductive Call where
  | bread (b : ℕ)
  /-- Store into the data of a buffer. -/
  | store (i : Fin NBUF) (v : Block)
  | logWrite (i : Fin NBUF)
  | bwrite (i : Fin NBUF)
  | brelse (i : Fin NBUF)
  | beginOp
  | endOp

/-- A process uses the buffers that `bread` has given it and brackets `log_write` with `begin_op`
and `end_op`.  It does not release a buffer that it has modified and neither logged nor
written. -/
def kernel (N : ℕ) : Kernel Panic (St N) (Fin N) Call where
  body t
    | .bread b => do
      let _ ← bread t ROOTDEV b
      pure ()
    | .store i v => .modify (St.store i v)
    | .logWrite i => .update (St.logWrite t i)
    | .bwrite i => bwrite t i
    | .brelse i => brelse t i
    | .beginOp => .update (St.beginOp t)
    | .endOp => endOp start t
  guard t c s :=
    match c with
    | .bread _ => True
    | .store i _ => (s.buf i).lock = some t
    | .logWrite i => (s.buf i).lock = some t ∧ (s.op t).isSome = true
    | .bwrite i => (s.buf i).lock = some t
    | .brelse i => (s.buf i).lock = some t ∧ s.dirty i = false
    | .beginOp => s.op t = none
    | .endOp => (s.op t).isSome = true

instance (t : Fin N) (c : Call) (s : St N) : Decidable ((kernel start N).guard t c s) :=
  match c with
  | .bread _ => inferInstanceAs (Decidable True)
  | .store i _ => inferInstanceAs (Decidable ((s.buf i).lock = some t))
  | .logWrite i =>
    inferInstanceAs (Decidable ((s.buf i).lock = some t ∧ (s.op t).isSome = true))
  | .bwrite i => inferInstanceAs (Decidable ((s.buf i).lock = some t))
  | .brelse i => inferInstanceAs (Decidable ((s.buf i).lock = some t ∧ s.dirty i = false))
  | .beginOp => inferInstanceAs (Decidable (s.op t = none))
  | .endOp => inferInstanceAs (Decidable ((s.op t).isSome = true))

end

end Xv6.Bio
