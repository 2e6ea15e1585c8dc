import Xv6.Framework.Ring
import Xv6.Framework.Prog
import Xv6.Param
import Mathlib.Data.Fintype.Card

/-!
# The list of the buffer cache

`binit`, `bget`, `brelse`, `bpin` and `bunpin` of `kernel/bio.c` with the pointers of the list:
every buffer has `next` and `prev`, `bcache.head` closes the list to a ring, and the loops of `bget`
follow the pointers.  `Bio/Cache.lean` has the same routines with the list as a list, together with
the contents of the buffers and the log; `ring_refines_list` says that the two agree.

Any number of clients call the routines.  A section under `bcache.lock` is one action; waiting for
the sleep lock of a buffer is a refused action.
-/

namespace Xv6.BufRing

open Concur

/-- A node of the list: `&bcache.head` or a buffer. -/
inductive Node where
  | head
  | buf (i : Fin NBUF)
  deriving DecidableEq

/-- `struct buf`, without the links and the data. -/
structure Buf (N : ℕ) where
  valid : Bool
  dev : ℕ
  blockno : ℕ
  /-- The holder of the sleep lock. -/
  lock : Option (Fin N)
  /-- A `uint`.  It counts the clients at the buffer and its pins; `log_write` makes one pin for
  each transaction, so it is far from wrapping around. -/
  refcnt : ℕ

/-- `bcache`.  The fields after `links` are not in the kernel: the clients that wait for the lock of
a buffer in `bget`, those that are between the two sections of `brelse`, how often a buffer was
pinned and not unpinned, and for each buffer the time of its last release to a reference count of 0,
where time counts these releases. -/
structure St (N : ℕ) where
  buf : Fin NBUF → Buf N
  links : Links Node
  waiting : Fin N → Option (Fin NBUF)
  leaving : Fin N → Option (Fin NBUF)
  pins : Fin NBUF → ℤ
  released : Fin NBUF → ℕ
  clock : ℕ

/-- The loop of `binit`, for the first `n` buffers. -/
def linkAll : List (Fin NBUF) → Links Node → Links Node
  | [], k => k
  | i :: is, k => linkAll is (k.pushFront .head (.buf i))

variable {N : ℕ}

/-- After `binit`; the buffers were released, so to speak, in the order of the array. -/
def init (N : ℕ) : St N where
  buf _ := ⟨false, 0, 0, none, 0⟩
  links := linkAll (List.finRange NBUF) ⟨fun _ => .head, fun _ => .head⟩
  waiting _ := none
  leaving _ := none
  pins _ := 0
  released i := i
  clock := NBUF

namespace St

def setBuf (s : St N) (i : Fin NBUF) (x : Buf N) : St N := { s with buf := setAt s.buf i x }

/-- A test on the buffers, as a test on nodes. -/
def test (s : St N) (p : Buf N → Bool) : Node → Bool
  | .head => false
  | .buf i => p (s.buf i)

/-- The loop `for(b = bcache.head.next; b != &bcache.head; b = b->next)` of `bget`. -/
def findCached (dev b : ℕ) (s : St N) : Option (Option Node) :=
  Links.scan s.links.next .head (s.test fun x => x.dev = dev ∧ x.blockno = b) (NBUF + 1)
    (s.links.next .head)

/-- The loop `for(b = bcache.head.prev; b != &bcache.head; b = b->prev)` of `bget`. -/
def findUnused (s : St N) : Option (Option Node) :=
  Links.scan s.links.prev .head (s.test fun x => x.refcnt = 0) (NBUF + 1) (s.links.prev .head)

/-- The section of `bget` under `bcache.lock`.  A loop that does not come back to `bcache.head` goes
on for ever, with the lock held. -/
def lookup (t : Fin N) (dev b : ℕ) (s : St N) : Outcome Panic (Fin NBUF × St N) :=
  match s.findCached dev b with
  | some (some (.buf i)) =>
    .ok (i, { s.setBuf i { s.buf i with refcnt := (s.buf i).refcnt + 1 } with
      waiting := setAt s.waiting t (some i) })
  | some none =>
    match s.findUnused with
    | some (some (.buf i)) =>
      .ok (i, {
        s.setBuf i { s.buf i with dev := dev, blockno := b, valid := false, refcnt := 1 } with
        waiting := setAt s.waiting t (some i) })
    | some none => .panic .bgetNoBuffers
    | _ => .blocked
  | _ => .blocked

def acquiresleep (t : Fin N) (i : Fin NBUF) (s : St N) : Outcome Panic (St N) :=
  if (s.buf i).lock = none then
    .ok { s.setBuf i { s.buf i with lock := some t } with waiting := setAt s.waiting t none }
  else .blocked

/-- The first part of `brelse`. -/
def releasesleep (t : Fin N) (i : Fin NBUF) (s : St N) : Outcome Panic (St N) :=
  if (s.buf i).lock ≠ some t then .panic .brelse
  else .ok { s.setBuf i { s.buf i with lock := none } with leaving := setAt s.leaving t (some i) }

/-- `b->refcnt--` in `brelse`. -/
def decref (t : Fin N) (i : Fin NBUF) (s : St N) : St N :=
  { s.setBuf i { s.buf i with refcnt := (s.buf i).refcnt - 1 } with
    leaving := setAt s.leaving t none }

/-- The buffer is unlinked and put behind `bcache.head`. -/
def moveToFront (i : Fin NBUF) (s : St N) : St N :=
  { s with
    links := (s.links.unlink (.buf i)).pushFront .head (.buf i)
    released := setAt s.released i s.clock
    clock := s.clock + 1 }

/-- The section of `brelse` under `bcache.lock`. -/
def unref (t : Fin N) (i : Fin NBUF) (s : St N) : St N :=
  -- no one is waiting for it
  if ((s.decref t i).buf i).refcnt = 0 then (s.decref t i).moveToFront i else s.decref t i

def bpin (i : Fin NBUF) (s : St N) : St N :=
  { s.setBuf i { s.buf i with refcnt := (s.buf i).refcnt + 1 } with
    pins := setAt s.pins i (s.pins i + 1) }

def bunpin (i : Fin NBUF) (s : St N) : St N :=
  { s.setBuf i { s.buf i with refcnt := (s.buf i).refcnt - 1 } with
    pins := setAt s.pins i (s.pins i - 1) }

end St

def bget (t : Fin N) (dev b : ℕ) : Prog Panic (St N) (Fin NBUF) := do
  let i ← .atomic (St.lookup t dev b)
  .update (St.acquiresleep t i)
  pure i

def brelse (t : Fin N) (i : Fin NBUF) : Prog Panic (St N) Unit := do
  .update (St.releasesleep t i)
  .modify (St.unref t i)

inductive Call where
  | bget (dev b : ℕ)
  | brelse (i : Fin NBUF)
  | bpin (i : Fin NBUF)
  | bunpin (i : Fin NBUF)

/-- The clients ask for blocks of devices other than 0 and release the buffers that they hold. -/
def kernel (N : ℕ) : Kernel Panic (St N) (Fin N) Call where
  body t
    | .bget dev b => do
      let _ ← bget t dev b
    | .brelse i => brelse t i
    | .bpin i => .modify (St.bpin i)
    | .bunpin i => .modify (St.bunpin i)
  guard t c s :=
    match c with
    | .bget dev _ => dev ≠ 0
    | .brelse i => (s.buf i).lock = some t
    | .bpin _ => True
    | .bunpin _ => True

/-- No buffer is unpinned more often than it was pinned. -/
def Matched (_ s : St N) : Prop := ∀ i, 0 ≤ s.pins i

instance (s s' : St N) : Decidable (Matched s s') :=
  inferInstanceAs (Decidable (∀ i, 0 ≤ s'.pins i))

instance (t : Fin N) (c : Call) (s : St N) : Decidable ((kernel N).guard t c s) :=
  match c with
  | .bget dev _ => inferInstanceAs (Decidable (dev ≠ 0))
  | .brelse i => inferInstanceAs (Decidable ((s.buf i).lock = some t))
  | .bpin _ => inferInstanceAs (Decidable True)
  | .bunpin _ => inferInstanceAs (Decidable True)

end Xv6.BufRing
