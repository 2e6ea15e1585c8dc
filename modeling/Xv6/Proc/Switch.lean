import Xv6.Proc.Sleep

/-!
# Switching between processes

The control flow of the kernel across `swtch`: `scheduler`, `sched`, `yield`, `sleep`, `wakeup`,
`exit` and `kill` of `kernel/proc.c`, on any number of CPUs.

A CPU executes its own scheduler or the kernel thread of a process (`Ctl`).  `swtch` stores
registers to the old context and loads them from the new one; `ra` and `sp` stand for them, and both
say where the thread was, so that a context of which only a part was stored is seen.  Each statement
of the source that touches shared data is a step of one CPU.

A process can be interrupted wherever its CPU holds no lock: by the timer, after which it yields and
goes on later, maybe on another CPU, or by a device, whose handler calls `wakeup`.  `Λ` are the
other spinlocks and `χ` the addresses that processes sleep on.
-/

namespace Xv6.Switch

open Concur Sched

/-- The points of a process's code at which it holds no process's lock. -/
inductive Point (N : ℕ) (χ Λ : Type) where
  /-- Any other code, in user space or in the kernel. -/
  | run
  /-- In `wakeup`, before `acquire` for an entry of the table; `k` is where it returns to. -/
  | wakeup (c : χ) (q : Fin N) (k : Point N χ Λ)
  /-- In `kill`, before `acquire`. -/
  | kill (pid : ℕ) (q : Fin N)
  /-- In `sleep`, before `acquire(&p->lock)`. -/
  | sleep (c : χ) (lk : Λ)
  /-- In `sleep`, before `acquire(lk)`. -/
  | slept (lk : Λ)
  /-- In `exit`, before `acquire(&p->lock)`; `lk` is `wait_lock`. -/
  | exit (lk : Λ)
  deriving DecidableEq

/-- Where a process is that has called `sched`: in `yield` after an interrupt, in `sleep`, in
`exit`, or, before it has run, at the start of `forkret`. -/
inductive After (N : ℕ) (χ Λ : Type) where
  | yield (a : Point N χ Λ)
  | sleep (lk : Λ)
  | exit
  | forkret
  deriving DecidableEq

/-- The code of a process. -/
inductive ProcPc (N : ℕ) (χ Λ : Type) where
  | at (a : Point N χ Λ)
  /-- `if(p->state == SLEEPING && p->chan == chan) p->state = RUNNABLE;` -/
  | wakeup1 (c : χ) (q : Fin N) (k : Point N χ Λ)
  /-- `release` -/
  | wakeup2 (c : χ) (q : Fin N) (k : Point N χ Λ)
  /-- `if(p->pid == pid) …` -/
  | kill1 (pid : ℕ) (q : Fin N)
  /-- `release`, and return if the process was found. -/
  | kill2 (pid : ℕ) (q : Fin N) (found : Bool)
  /-- In `yield`: `acquire(&p->lock)`. -/
  | yield0 (a : Point N χ Λ)
  /-- `p->state = RUNNABLE` -/
  | yield1 (a : Point N χ Λ)
  /-- In `sleep`: `release(lk)`. -/
  | sleep1 (c : χ) (lk : Λ)
  /-- `p->chan = chan; p->state = SLEEPING` -/
  | sleep2 (c : χ) (lk : Λ)
  /-- In `exit`: `p->state = ZOMBIE`. -/
  | exit1 (lk : Λ)
  /-- `release(&wait_lock)` -/
  | exit2 (lk : Λ)
  /-- The checks of `sched`. -/
  | sched (k : After N χ Λ)
  /-- In `swtch`: store `ra`. -/
  | swtch1 (k : After N χ Λ)
  /-- Store the other registers. -/
  | swtch2 (k : After N χ Λ)
  /-- Load the registers of the scheduler. -/
  | swtch3
  /-- `swtch` has returned, with the registers loaded. -/
  | back (ra sp : After N χ Λ)
  /-- In `sleep`: `release(&p->lock)`. -/
  | sleep3 (lk : Λ)

/-- The code of the scheduler; `p` is its variable. -/
inductive SchedPc (N : ℕ) (χ Λ : Type) where
  /-- `acquire(&p->lock)` -/
  | pick (p : Fin N)
  /-- `if(p->state == RUNNABLE) p->state = RUNNING;` -/
  | look (p : Fin N)
  /-- `c->proc = p` -/
  | choose (p : Fin N)
  /-- In `swtch`: store the registers. -/
  | save (p : Fin N)
  /-- Load `ra`. -/
  | load1 (p : Fin N)
  /-- Load the other registers. -/
  | load2 (p : Fin N) (ra : After N χ Λ)
  /-- `swtch` has returned: `c->proc = 0`. -/
  | done (p : Fin N)
  /-- `release(&p->lock)` -/
  | drop (p : Fin N)
  /-- An interrupt between two rounds calls `wakeup`: before `acquire`, … -/
  | wakeup (c : χ) (q p : Fin N)
  /-- … the test, … -/
  | wakeup1 (c : χ) (q p : Fin N)
  /-- … and `release`. -/
  | wakeup2 (c : χ) (q p : Fin N)

/-- What a CPU executes. -/
inductive Ctl (N : ℕ) (χ Λ : Type) where
  | sched (pc : SchedPc N χ Λ)
  | proc (p : Fin N) (pc : ProcPc N χ Λ)

/-- `struct context` -/
structure Context (N : ℕ) (χ Λ : Type) where
  ra : After N χ Λ
  sp : After N χ Λ

/-- `struct proc`.  `saved` is not in the kernel: the context holds the registers of the process,
because its last `swtch` has stored them all and nobody has loaded them since. -/
structure Proc (N C : ℕ) (χ Λ : Type) where
  lock : Option (Fin C)
  state : ProcState
  chan : Option χ
  killed : Bool
  pid : ℕ
  context : Context N χ Λ
  saved : Bool

/-- `struct cpu`, where the context is that of the scheduler, with its variable `p`, and what the
CPU executes. -/
structure Cpu (N : ℕ) (χ Λ : Type) where
  proc : Option (Fin N)
  context : Fin N
  noff : ℕ
  cur : Ctl N χ Λ

/-- The memory, and the CPUs. -/
structure St (N C : ℕ) (χ Λ : Type) where
  proc : Fin N → Proc N C χ Λ
  cpu : Fin C → Cpu N χ Λ
  lk : Λ → Option (Fin C)

/-- What a CPU does where it has a choice. -/
inductive Cmd (χ Λ : Type) where
  /-- Go on. -/
  | next
  /-- The timer interrupts. -/
  | timer
  | wakeup (c : χ)
  | kill (pid : ℕ)
  | sleep (c : χ) (lk : Λ)
  | exit (lk : Λ)
  | acquire (lk : Λ)
  | release (lk : Λ)

section

variable {N C : ℕ} {χ Λ : Type}

namespace St

def setProc (s : St N C χ Λ) (p : Fin N) (x : Proc N C χ Λ) : St N C χ Λ :=
  { s with proc := setAt s.proc p x }

def setCpu (s : St N C χ Λ) (c : Fin C) (x : Cpu N χ Λ) : St N C χ Λ :=
  { s with cpu := setAt s.cpu c x }

/-- The CPU goes on at `ctl`. -/
def goto (s : St N C χ Λ) (c : Fin C) (ctl : Ctl N χ Λ) : St N C χ Λ :=
  s.setCpu c { s.cpu c with cur := ctl }

/-- `acquire(&p->lock)` -/
def acquire (s : St N C χ Λ) (c : Fin C) (p : Fin N) (ctl : Ctl N χ Λ) :
    Outcome Panic (St N C χ Λ) :=
  match (s.proc p).lock with
  | none => .ok ((s.setProc p { s.proc p with lock := some c }).setCpu c
      { s.cpu c with noff := (s.cpu c).noff + 1, cur := ctl })
  | some c' => if c' = c then .panic .acquire else .blocked

/-- `release(&p->lock)` -/
def release (s : St N C χ Λ) (c : Fin C) (p : Fin N) (ctl : Ctl N χ Λ) :
    Outcome Panic (St N C χ Λ) :=
  if (s.proc p).lock ≠ some c then .panic .release
  else if (s.cpu c).noff < 1 then .panic .popOff
  else .ok ((s.setProc p { s.proc p with lock := none }).setCpu c
    { s.cpu c with noff := (s.cpu c).noff - 1, cur := ctl })

/-- `acquire(lk)` -/
def acquireLk [DecidableEq Λ] (s : St N C χ Λ) (c : Fin C) (lk : Λ) (ctl : Ctl N χ Λ) :
    Outcome Panic (St N C χ Λ) :=
  match s.lk lk with
  | none => .ok ({ s with lk := setAt s.lk lk (some c) }.setCpu c
      { s.cpu c with noff := (s.cpu c).noff + 1, cur := ctl })
  | some c' => if c' = c then .panic .acquire else .blocked

/-- `release(lk)` -/
def releaseLk [DecidableEq Λ] (s : St N C χ Λ) (c : Fin C) (lk : Λ) (ctl : Ctl N χ Λ) :
    Outcome Panic (St N C χ Λ) :=
  if s.lk lk ≠ some c then .panic .release
  else if (s.cpu c).noff < 1 then .panic .popOff
  else .ok ({ s with lk := setAt s.lk lk none }.setCpu c
    { s.cpu c with noff := (s.cpu c).noff - 1, cur := ctl })

end St

/-- The next entry of the table. -/
def nextEntry (q : Fin N) : Option (Fin N) :=
  if h : q.val + 1 < N then some ⟨q.val + 1, h⟩ else none

/-- The first entry of the table. -/
def firstEntry (p : Fin N) : Fin N := ⟨0, lt_of_le_of_lt (Nat.zero_le _) p.isLt⟩

/-- The loop of `wakeup` goes on after the entry `q`. -/
def afterWakeup (c : χ) (q : Fin N) (k : Point N χ Λ) : Point N χ Λ :=
  match nextEntry q with
  | some q' => .wakeup c q' k
  | none => k

/-- The loop of `kill` goes on after the entry `q`. -/
def afterKill (pid : ℕ) (q : Fin N) : Point N χ Λ :=
  match nextEntry q with
  | some q' => .kill pid q'
  | none => .run

/-- What `wakeup` does to a process. -/
def Proc.wake [DecidableEq χ] (c : χ) (x : Proc N C χ Λ) : Proc N C χ Λ :=
  if x.state = .sleeping ∧ x.chan = some c then { x with state := .runnable } else x

/-- What `kill` does to the process that it has found. -/
def Proc.kill (x : Proc N C χ Λ) : Proc N C χ Λ :=
  { x with killed := true, state := if x.state = .sleeping then .runnable else x.state }

variable [DecidableEq χ] [DecidableEq Λ]

/-- A step of the CPU `c` at a point of the code of the process `p`. -/
def stepAt (c : Fin C) (p : Fin N) (cmd : Cmd χ Λ) (a : Point N χ Λ) (s : St N C χ Λ) :
    Outcome Panic (St N C χ Λ) :=
  match cmd, a with
  | .timer, a =>
    if (s.cpu c).noff = 0 then .ok (s.goto c (.proc p (.yield0 a))) else .blocked
  | .wakeup ch, a =>
    -- a call of the process, or the handler of an interrupt
    if a = .run ∨ (s.cpu c).noff = 0 then
      .ok (s.goto c (.proc p (.at (.wakeup ch (firstEntry p) a))))
    else .blocked
  | .kill pid, .run => .ok (s.goto c (.proc p (.at (.kill pid (firstEntry p)))))
  | .sleep ch lk, .run => .ok (s.goto c (.proc p (.at (.sleep ch lk))))
  | .exit lk, .run => .ok (s.goto c (.proc p (.at (.exit lk))))
  | .acquire lk, .run => s.acquireLk c lk (.proc p (.at .run))
  | .release lk, .run => s.releaseLk c lk (.proc p (.at .run))
  | .next, .run => .ok s
  | _, .wakeup ch q k =>
    -- `if(p != myproc())`
    if (s.cpu c).proc = some q then .ok (s.goto c (.proc p (.at (afterWakeup ch q k))))
    else s.acquire c q (.proc p (.wakeup1 ch q k))
  | _, .kill pid q => s.acquire c q (.proc p (.kill1 pid q))
  | _, .sleep ch lk => s.acquire c p (.proc p (.sleep1 ch lk))
  | _, .slept lk => s.acquireLk c lk (.proc p (.at .run))
  | _, .exit lk => s.acquire c p (.proc p (.exit1 lk))

/-- A step of the CPU `c` in the code of the process `p`. -/
def stepProc (c : Fin C) (p : Fin N) (cmd : Cmd χ Λ) (pc : ProcPc N χ Λ) (s : St N C χ Λ) :
    Outcome Panic (St N C χ Λ) :=
  match pc with
  | .at a => stepAt c p cmd a s
  | .wakeup1 ch q k =>
    .ok ((s.setProc q ((s.proc q).wake ch)).goto c (.proc p (.wakeup2 ch q k)))
  | .wakeup2 ch q k => s.release c q (.proc p (.at (afterWakeup ch q k)))
  | .kill1 pid q =>
    if (s.proc q).pid = pid then
      .ok ((s.setProc q (s.proc q).kill).goto c (.proc p (.kill2 pid q true)))
    else .ok (s.goto c (.proc p (.kill2 pid q false)))
  | .kill2 pid q found =>
    s.release c q (.proc p (.at (if found then .run else afterKill pid q)))
  | .yield0 a => s.acquire c p (.proc p (.yield1 a))
  | .yield1 a =>
    .ok ((s.setProc p { s.proc p with state := .runnable }).goto c (.proc p (.sched (.yield a))))
  | .sleep1 ch lk => s.releaseLk c lk (.proc p (.sleep2 ch lk))
  | .sleep2 ch lk =>
    .ok ((s.setProc p { s.proc p with chan := some ch, state := .sleeping }).goto c
      (.proc p (.sched (.sleep lk))))
  | .exit1 lk =>
    .ok ((s.setProc p { s.proc p with state := .zombie }).goto c (.proc p (.exit2 lk)))
  | .exit2 lk => s.releaseLk c lk (.proc p (.sched .exit))
  | .sched k =>
    if (s.proc p).lock ≠ some c then .panic .schedProcLock
    else if (s.cpu c).noff ≠ 1 then .panic .schedLocks
    else if (s.proc p).state = .running then .panic .schedRunning
    else .ok (s.goto c (.proc p (.swtch1 k)))
  | .swtch1 k =>
    .ok ((s.setProc p { s.proc p with context := { (s.proc p).context with ra := k } }).goto c
      (.proc p (.swtch2 k)))
  | .swtch2 k =>
    .ok ((s.setProc p
      { s.proc p with context := { (s.proc p).context with sp := k }, saved := true }).goto c
      (.proc p .swtch3))
  | .swtch3 => .ok (s.goto c (.sched (.done (s.cpu c).context)))
  | .back ra sp =>
    -- with registers of different threads, anything can happen
    if ra ≠ sp then .panic .kerneltrap
    else
      match ra with
      | .yield a => s.release c p (.proc p (.at a))
      | .sleep lk =>
        .ok ((s.setProc p { s.proc p with chan := none }).goto c (.proc p (.sleep3 lk)))
      | .exit => .panic .zombieExit
      | .forkret => s.release c p (.proc p (.at .run))
  | .sleep3 lk => s.release c p (.proc p (.at (.slept lk)))

/-- A step of the CPU `c` in its scheduler. -/
def stepSched (c : Fin C) (cmd : Cmd χ Λ) (pc : SchedPc N χ Λ) (s : St N C χ Λ) :
    Outcome Panic (St N C χ Λ) :=
  match pc with
  | .pick p =>
    match cmd with
    | .wakeup ch => .ok (s.goto c (.sched (.wakeup ch (firstEntry p) p)))
    | _ => s.acquire c p (.sched (.look p))
  | .look p =>
    if (s.proc p).state = .runnable then
      .ok ((s.setProc p { s.proc p with state := .running }).goto c (.sched (.choose p)))
    else .ok (s.goto c (.sched (.drop p)))
  | .choose p => .ok (s.setCpu c { s.cpu c with proc := some p, cur := .sched (.save p) })
  | .save p => .ok (s.setCpu c { s.cpu c with context := p, cur := .sched (.load1 p) })
  | .load1 p => .ok (s.goto c (.sched (.load2 p (s.proc p).context.ra)))
  | .load2 p ra =>
    .ok ((s.setProc p { s.proc p with saved := false }).goto c
      (.proc p (.back ra (s.proc p).context.sp)))
  | .done p => .ok (s.setCpu c { s.cpu c with proc := none, cur := .sched (.drop p) })
  | .drop p => s.release c p (.sched (.pick ((nextEntry p).getD (firstEntry p))))
  | .wakeup ch q p => s.acquire c q (.sched (.wakeup1 ch q p))
  | .wakeup1 ch q p =>
    .ok ((s.setProc q ((s.proc q).wake ch)).goto c (.sched (.wakeup2 ch q p)))
  | .wakeup2 ch q p =>
    s.release c q (match nextEntry q with
      | some q' => .sched (.wakeup ch q' p)
      | none => .sched (.pick p))

/-- A step of the CPU `c`. -/
def step (c : Fin C) (cmd : Cmd χ Λ) (s : St N C χ Λ) : Outcome Panic (St N C χ Λ) :=
  match (s.cpu c).cur with
  | .sched pc => stepSched c cmd pc s
  | .proc p pc => stepProc c p cmd pc s

/-- The states that steps of the CPUs lead to. -/
inductive Reaches : St N C χ Λ → St N C χ Λ → Prop where
  | refl (s : St N C χ Λ) : Reaches s s
  | tail {s s' s'' : St N C χ Λ} (c : Fin C) (cmd : Cmd χ Λ) :
      Reaches s s' → step c cmd s' = .ok s'' → Reaches s s''

/-- The steps of a schedule. -/
def exec (s : St N C χ Λ) : List (Fin C × Cmd χ Λ) → Outcome Panic (St N C χ Λ)
  | [] => .ok s
  | (c, cmd) :: es => (step c cmd s).bind fun s' => exec s' es

/-- All CPUs enter their scheduler; some entries of the table are processes that have not run, the
others are not in use. -/
def init (used : Fin N → Bool) (pid : Fin N → ℕ) (p : Fin N) : St N C χ Λ where
  proc q := ⟨none, if used q then .runnable else .unused, none, false, pid q,
    ⟨.forkret, .forkret⟩, true⟩
  cpu _ := ⟨none, p, 0, .sched (.pick p)⟩
  lk _ := none

end

end Xv6.Switch
