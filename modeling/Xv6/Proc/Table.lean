import Xv6.Proc.Sleep

/-!
# The process table

`fork`, `exit`, `wait`, `kill` and what they call of `kernel/proc.c`, and the part of `usertrap`
that kills a process.  The lock of `Proc/Sleep.lean` is `wait_lock`, which protects the parents;
processes sleep in `wait` on their own entry.

A section under a process's lock is an action.  From `allocproc` on, `fork` holds the lock of the
new process until it has copied the parent's memory, so all of that is one action, which can fail.
Preemption is left out: it turns `RUNNING` into `RUNNABLE` and back between two actions, and
nothing here tells these two apart except the scheduler.  `exit` closes the files of the process
before it does anything to the table; that is not modelled.
-/

namespace Xv6.Procs

open Concur Sched

/-- The fields of `struct proc` that its lock protects, next to those for scheduling. -/
structure Priv where
  pid : Int32
  killed : Bool
  xstate : Int32
  /-- `context.ra` is `forkret`: the process has not run yet. -/
  forkret : Bool
  deriving DecidableEq

/-- What happened.  None of this is in the kernel. -/
inductive Event (N : ℕ) where
  /-- `allocproc` has made the entry `p` a process, with this pid and this value of `killed`. -/
  | created (p : Fin N) (pid : Int32) (killed : Bool)
  | exited (p : Fin N) (pid status : Int32)
  /-- A call of `wait` by `t` that returns this pid and status of `p`; the parent of `p` then. -/
  | waited (t p : Fin N) (pid status : Int32) (parent : Option (Fin N))
  | killCall (t : Fin N) (pid : Int32)
  /-- `kill` returns to `t`; whether there is a process with that pid which is not `UNUSED`. -/
  | killReturn (t : Fin N) (pid result : Int32) (found : Bool)
  /-- `usertrap` meets an unexpected trap of `p`. -/
  | trapped (p : Fin N)
  deriving DecidableEq

/-- The fields that `wait_lock` and `pid_lock` protect, and what has happened, newest first. -/
structure Table (N : ℕ) where
  parent : Fin N → Option (Fin N)
  nextpid : Int32
  log : List (Event N)

abbrev St (N : ℕ) : Type := Mem N (Fin N) Priv (Table N)

variable {N : ℕ}

namespace St

def note (e : Event N) (m : St N) : St N :=
  { m with data := { m.data with log := e :: m.data.log } }

def setParent (p : Fin N) (q : Option (Fin N)) (m : St N) : St N :=
  { m with data := { m.data with parent := setAt m.data.parent p q } }

/-- There is a process with this pid that is not `UNUSED`. -/
def Has (m : St N) (pid : Int32) : Prop :=
  ∃ p, (m.proc p).state ≠ .unused ∧ (m.proc p).priv.pid = pid

instance (m : St N) (pid : Int32) : Decidable (m.Has pid) :=
  inferInstanceAs (Decidable (∃ _, _ ∧ _))

end St

/-- What `userinit` leaves: the process `ini`, which waits for the scheduler. -/
def init (ini : Fin N) : St N where
  lock := none
  proc p :=
    if p = ini then ⟨none, .runnable, none, ⟨1, false, 0, true⟩⟩
    else ⟨none, .unused, none, ⟨0, false, 0, false⟩⟩
  data := ⟨fun _ => none, 2, [.created ini 1 false]⟩

/-- A section of the process `t` under `p->lock`, which may change other things too. -/
def underLock {α : Type} (t p : Fin N) (f : St N → α × St N) (m : St N) :
    Outcome Panic (α × St N) :=
  match (m.proc p).lock with
  | none => .ok (f m)
  | some u => if u = t then .panic .acquire else .blocked

/-- `freeproc(p)` -/
def freeproc (p : Fin N) (m : St N) : St N :=
  St.setParent p none (m.setProc p { m.proc p with
    state := .unused
    chan := none
    priv := { (m.proc p).priv with pid := 0, killed := false, xstate := 0 } })

/-! ## `fork` -/

/-- How `allocproc` leaves an entry. -/
inductive Alloc where
  /-- It is in use. -/
  | busy
  /-- There is no memory for the process. -/
  | failed
  | found (pid : Int32)

/-- `allocproc` at the entry `p`, and `fork` up to the release of the new process's lock; `ok` says
whether there is memory for the process. -/
def allocAt (ok : Bool) (p : Fin N) (m : St N) : Alloc × St N :=
  if (m.proc p).state = .unused then
    let m' : St N := { m with data := { m.data with nextpid := m.data.nextpid + 1 } }
    if ok then
      (.found m.data.nextpid, St.note (.created p m.data.nextpid (m.proc p).priv.killed)
        (m'.setProc p { m.proc p with
          state := .used
          priv := { (m.proc p).priv with pid := m.data.nextpid, forkret := true } }))
    else (.failed, freeproc p m')
  else (.busy, m)

section

variable (t : Fin N)

def allocproc (ok : Bool) : Prog Panic (St N) (Option (Fin N × Int32)) :=
  .iterate (fun i =>
    if h : i < N then do
      match ← .atomic (underLock t ⟨i, h⟩ (allocAt ok ⟨i, h⟩)) with
      | .busy => pure (.inl (i + 1))
      | .failed => pure (.inr none)
      | .found pid => pure (.inr (some (⟨i, h⟩, pid)))
    else pure (.inr none)) 0

def fork (ok : Bool) : Prog Panic (St N) Int32 := do
  match ← allocproc t ok with
  | none => pure (-1)
  | some (np, pid) => do
    .update (Mem.acquire t)
    .modify (St.setParent np (some t))
    .update (Mem.release t)
    .update (Mem.onProc t np fun x => { x with state := .runnable })
    pure pid

/-! ## `exit` -/

/-- `reparent` at the entry `p`; the answer is whether `p` was a child. -/
def reparentAt (ini p : Fin N) (m : St N) : Bool × St N :=
  if m.data.parent p = some t then (true, m.setParent p (some ini)) else (false, m)

def reparent (ini : Fin N) : Prog Panic (St N) Unit :=
  .forRange N fun p => do
    let child ← .atomic fun m => .ok (reparentAt t ini p m)
    .when (child = true) (wakeup t ini)

/-- `p->xstate = status; p->state = ZOMBIE` -/
def becomeZombie (status : Int32) (m : St N) : St N :=
  St.note (.exited t (m.proc t).priv.pid status) (m.setProc t { m.proc t with
    state := .zombie
    priv := { (m.proc t).priv with xstate := status } })

/-- `sched()` in `exit`, up to the scheduler's release of `p->lock`. -/
def sched (m : St N) : Outcome Panic (St N) :=
  if (m.proc t).lock ≠ some t then .panic .schedProcLock
  else if m.lock = some t then .panic .schedLocks
  else if (m.proc t).state = .running then .panic .schedRunning
  else .ok (m.setProc t { m.proc t with lock := none })

/-- `exit(status)`.  Nobody sleeps on the address 0, so there is nothing to wake up without a
parent. -/
def exit (ini : Fin N) (status : Int32) : Prog Panic (St N) Unit := do
  .update fun m => if t = ini then .panic .initExiting else .ok m
  .update (Mem.acquire t)
  reparent t ini
  let parent ← .read fun m => m.data.parent t
  parent.elim (pure ()) (wakeup t)
  .update (Mem.acquireProc t t)
  .modify (becomeZombie t status)
  .update (Mem.release t)
  .update (sched t)

/-! ## `wait` -/

def killed : Prog Panic (St N) Bool :=
  .atomic (underLock t t fun m => ((m.proc t).priv.killed, m))

/-- What `wait` finds at an entry of the table. -/
inductive Found where
  /-- Not a child. -/
  | other
  /-- A child that has not exited. -/
  | child
  /-- An exited child, but `copyout` fails. -/
  | fault
  | reaped (pid : Int32)

/-- `wait` at a child `p`, under `p->lock`. -/
def reap (copyout : Bool) (p : Fin N) (m : St N) : Found × St N :=
  if (m.proc p).state = .zombie then
    if copyout then
      (.reaped (m.proc p).priv.pid, St.note
        (.waited t p (m.proc p).priv.pid (m.proc p).priv.xstate (m.data.parent p)) (freeproc p m))
    else (.fault, m)
  else (.child, m)

def waitAt (copyout : Bool) (p : Fin N) (m : St N) : Outcome Panic (Found × St N) :=
  if m.data.parent p = some t then underLock t p (reap t copyout p) m else .ok (.other, m)

/-- The scan of `wait` through the table: whether there are children, or the result. -/
def scan (copyout : Bool) : Prog Panic (St N) (Bool ⊕ Int32) :=
  .iterate (fun (s : ℕ × Bool) =>
    if h : s.1 < N then do
      match ← .atomic (waitAt t copyout ⟨s.1, h⟩) with
      | .other => pure (.inl (s.1 + 1, s.2))
      | .child => pure (.inl (s.1 + 1, true))
      | .fault => pure (.inr (.inr (-1)))
      | .reaped pid => pure (.inr (.inr pid))
    else pure (.inr (.inl s.2))) (0, false)

/-- `wait(addr)`; `copyout` says whether the status can be written there. -/
def wait (addr : UInt64) (copyout : Bool) : Prog Panic (St N) Int32 := do
  .update (Mem.acquire t)
  .iterate (fun _ => do
    match ← scan t (addr = 0 || copyout) with
    | .inr pid => do
      .update (Mem.release t)
      pure (.inr pid)
    | .inl false => do
      .update (Mem.release t)
      pure (.inr (-1))
    | .inl true => do
      if ← killed t then do
        .update (Mem.release t)
        pure (.inr (-1))
      else do
        sleep t t
        pure (.inl ())) ()

/-! ## `kill` and traps -/

/-- `kill` at the entry `p`, under `p->lock`; the answer is whether the pid matches. -/
def killAt (pid : Int32) (p : Fin N) (m : St N) : Bool × St N :=
  if (m.proc p).priv.pid = pid then
    (true, St.note (.killReturn t pid 0 (m.Has pid)) (m.setProc p { m.proc p with
      state := if (m.proc p).state = .sleeping then .runnable else (m.proc p).state
      priv := { (m.proc p).priv with killed := true } }))
  else (false, m)

def kill (pid : Int32) : Prog Panic (St N) Int32 := do
  .modify (St.note (.killCall t pid))
  .iterate (fun i =>
    if h : i < N then do
      if ← .atomic (underLock t ⟨i, h⟩ (killAt t pid ⟨i, h⟩)) then pure (.inr 0)
      else pure (.inl (i + 1))
    else do
      .modify fun m => m.note (.killReturn t pid (-1) (m.Has pid))
      pure (.inr (-1))) 0

/-- `setkilled(p)` for the running process. -/
def setkilled : Prog Panic (St N) Unit :=
  .atomic (underLock t t fun m => ((), St.note (.trapped t) (m.setProc t { m.proc t with
    priv := { (m.proc t).priv with killed := true } })))

/-- `usertrap` for a trap that is neither a system call nor a device interrupt. -/
def trap (ini : Fin N) : Prog Panic (St N) Unit := do
  setkilled t
  if ← killed t then exit t ini (-1) else pure ()

/-! ## Scheduling -/

/-- The scheduler picks the process, which releases `p->lock`. -/
def dispatch (m : St N) : Outcome Panic (St N) :=
  if (m.proc t).state = .runnable ∧ (m.proc t).lock = none then
    .ok (m.setProc t { m.proc t with
      state := .running
      priv := { (m.proc t).priv with forkret := false } })
  else .blocked

def yield : Prog Panic (St N) Unit := do
  .update (Mem.onProc t t fun x => { x with state := .runnable })
  .update (dispatch t)

end

/-- The calls; `start` is the first time that the scheduler picks the process. -/
inductive Call where
  | start
  | fork (ok : Bool)
  | exit (status : Int32)
  | wait (addr : UInt64) (copyout : Bool)
  | kill (pid : Int32)
  | trap
  | yield
  deriving DecidableEq

/-- When the process `t` can make a call. -/
def Call.Enabled (t : Fin N) (m : St N) : Call → Prop
  | .start => (m.proc t).state = .runnable ∧ (m.proc t).priv.forkret = true
  | _ => (m.proc t).state = .running ∧ (m.proc t).priv.forkret = false

/-- The processes make any calls that satisfy `P`. -/
def kernel (ini : Fin N) (P : Call → Prop) : Kernel Panic (St N) (Fin N) Call where
  body t
    | .start => .update (dispatch t)
    | .fork ok => do
      let _ ← fork t ok
    | .exit status => exit t ini status
    | .wait addr copyout => do
      let _ ← wait t addr copyout
    | .kill pid => do
      let _ ← kill t pid
    | .trap => trap t ini
    | .yield => yield t
  guard t c m := P c ∧ c.Enabled t m

instance (ini : Fin N) (P : Call → Prop) [DecidablePred P] (t : Fin N) (c : Call) (m : St N) :
    Decidable ((kernel ini P).guard t c m) :=
  match c with
  | .start => inferInstanceAs (Decidable (_ ∧ _ ∧ _))
  | .fork _ => inferInstanceAs (Decidable (_ ∧ _ ∧ _))
  | .exit _ => inferInstanceAs (Decidable (_ ∧ _ ∧ _))
  | .wait _ _ => inferInstanceAs (Decidable (_ ∧ _ ∧ _))
  | .kill _ => inferInstanceAs (Decidable (_ ∧ _ ∧ _))
  | .trap => inferInstanceAs (Decidable (_ ∧ _ ∧ _))
  | .yield => inferInstanceAs (Decidable (_ ∧ _ ∧ _))

end Xv6.Procs
