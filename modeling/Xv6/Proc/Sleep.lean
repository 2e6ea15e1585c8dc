import Xv6.Framework.Prog
import Xv6.Param

/-!
# Sleeping and waking up

`sleep` and `wakeup` of `kernel/proc.c`, with the spinlock that the sleeper lets go of, for a
part of the kernel whose data that lock protects.  The lock is `pi->lock` for a pipe and
`wait_lock` for the process table.

As the source explains, a sleeper takes its `p->lock` before it lets go of the other lock, and
a waker goes through the process table and takes each `p->lock` while it holds that lock.  Each
of these is an action of its own.  A process that is `RUNNABLE` waits for the scheduler, which
takes its `p->lock` to make it `RUNNING`.

The rules for routines that use them are in `Proc/Monitor.lean`.
-/

namespace Xv6.Sched

open Concur

/-- `enum procstate` -/
inductive ProcState where
  | unused
  | used
  | sleeping
  | runnable
  | running
  | zombie
  deriving DecidableEq, Repr

/-- `struct proc`: the holder of `p->lock`, the fields for scheduling, and other fields that the
lock protects.  `χ` are the addresses that processes sleep on. -/
structure Proc (N : ℕ) (χ δ : Type) where
  lock : Option (Fin N)
  state : ProcState
  chan : Option χ
  priv : δ

/-- The memory: the holder of the lock, the process table, and what the lock protects. -/
structure Mem (N : ℕ) (χ δ σ : Type) where
  lock : Option (Fin N)
  proc : Fin N → Proc N χ δ
  data : σ

variable {N : ℕ} {χ δ σ : Type}

namespace Mem

def setProc (m : Mem N χ δ σ) (p : Fin N) (x : Proc N χ δ) : Mem N χ δ σ :=
  { m with proc := setAt m.proc p x }

@[simp] lemma setProc_proc (m : Mem N χ δ σ) (p : Fin N) (x : Proc N χ δ) :
    (m.setProc p x).proc = setAt m.proc p x := rfl

/-- `acquire(lk)` by the process `t`. -/
def acquire (t : Fin N) (m : Mem N χ δ σ) : Outcome Panic (Mem N χ δ σ) :=
  match m.lock with
  | none => .ok { m with lock := some t }
  | some u => if u = t then .panic .acquire else .blocked

/-- `release(lk)` by the process `t`. -/
def release (t : Fin N) (m : Mem N χ δ σ) : Outcome Panic (Mem N χ δ σ) :=
  if m.lock = some t then .ok { m with lock := none } else .panic .release

/-- `acquire(&p->lock)` by the process `t`. -/
def acquireProc (t p : Fin N) (m : Mem N χ δ σ) : Outcome Panic (Mem N χ δ σ) :=
  match (m.proc p).lock with
  | none => .ok (m.setProc p { m.proc p with lock := some t })
  | some u => if u = t then .panic .acquire else .blocked

/-- A section of the process `t` under `p->lock`: acquire it, change what it protects, and
release it. -/
def onProc (t p : Fin N) (f : Proc N χ δ → Proc N χ δ) (m : Mem N χ δ σ) :
    Outcome Panic (Mem N χ δ σ) :=
  match (m.proc p).lock with
  | none => .ok (m.setProc p { f (m.proc p) with lock := none })
  | some u => if u = t then .panic .acquire else .blocked

/-- In `sleep`: `p->chan = chan; p->state = SLEEPING; sched()`, up to the scheduler's release of
`p->lock`. -/
def doze (t : Fin N) (c : χ) (m : Mem N χ δ σ) : Outcome Panic (Mem N χ δ σ) :=
  if (m.proc t).lock ≠ some t then .panic .schedProcLock
  else if m.lock = some t then .panic .schedLocks
  else .ok (m.setProc t { m.proc t with lock := none, state := .sleeping, chan := some c })

/-- The scheduler has picked the process, `sched()` returns, `p->chan = 0` and `p->lock` is
released. -/
def resume (t : Fin N) (m : Mem N χ δ σ) : Outcome Panic (Mem N χ δ σ) :=
  if (m.proc t).state = .runnable ∧ (m.proc t).lock = none then
    .ok (m.setProc t { m.proc t with state := .running, chan := none })
  else .blocked

end Mem

variable [DecidableEq χ]

/-- What `wakeup(c)` does to a process. -/
def Proc.wake (c : χ) (x : Proc N χ δ) : Proc N χ δ :=
  if x.state = .sleeping ∧ x.chan = some c then { x with state := .runnable } else x

/-- `sleep(c, lk)` -/
def sleep (t : Fin N) (c : χ) : Prog Panic (Mem N χ δ σ) Unit := do
  .update (Mem.acquireProc t t)
  .update (Mem.release t)
  .update (Mem.doze t c)
  .update (Mem.resume t)
  .update (Mem.acquire t)

/-- `wakeup(c)` -/
def wakeup (t : Fin N) (c : χ) : Prog Panic (Mem N χ δ σ) Unit :=
  .forRange N fun p => if p = t then .update .ok else .update (Mem.onProc t p (Proc.wake c))

end Xv6.Sched
