import Xv6.Log.Basic
import Xv6.Proc.Sleep
import Mathlib.Data.Finset.Card

/-!
# Concurrent calls on the log

Any number of processes call `begin_op`, `log_write` and `end_op`.  A call that is not
admitted goes to sleep on `&log`, and `end_op` wakes the sleepers, with the `sleep` and `wakeup`
of `Proc/Sleep.lean`; the lock that they work with is `log.lock`.

A section that holds a lock throughout and does not call `sleep` or `wakeup` is one action.
The commit is carried out block by block without `log.lock`; what it writes to the disk is
modelled in `Log/Recovery.lean`, here only which block it is and which calls are in progress.
That no call is in progress then is a result, not an assumption of the model.

The invariant is in `Log/SyncInvariant.lean`, the results in `Log/GroupCommit.lean`.
-/

namespace Xv6.LogSync

open Concur Sched

/-- The addresses that processes of this model sleep on. -/
inductive Chan where
  /-- `&log` -/
  | log
  deriving DecidableEq, Repr

/-- What `log.lock` protects.  The last three fields are not in the kernel: they record what the
calls have done. -/
structure Data (N : ℕ) where
  log : Log
  /-- For a process between `begin_op` and `end_op`, the block numbers it has logged. -/
  op : Fin N → Option (Finset ℕ)
  /-- The block numbers logged since the last group was closed for its commit. -/
  logged : Finset ℕ
  /-- The blocks that commits have copied, each with the calls in progress at that time. -/
  writes : List (ℕ × (Fin N → Option (Finset ℕ)))

/-- The memory; of a process only the fields for scheduling are used. -/
abbrev St (N : ℕ) : Type := Mem N Chan Unit (Data N)

variable {N : ℕ}

/-- After `initlog`, no call in progress. -/
def init (N size : ℕ) : St N where
  lock := none
  proc _ := ⟨none, .running, none, ()⟩
  data := ⟨Log.init size, fun _ => none, ∅, []⟩

namespace Data

/-- The process is let in by `begin_op`. -/
def beginOp (t : Fin N) (d : Data N) : Data N :=
  { d with log := d.log.beginOp, op := Function.update d.op t (some ∅) }

/-- What `log_write` does under the lock. -/
def logWrite (t : Fin N) (b : ℕ) (d : Data N) : Outcome Panic (Data N) := do
  let (_, l) ← d.log.write b
  pure { d with
    log := l
    op := Function.update d.op t ((d.op t).map (insert b))
    logged := insert b d.logged }

/-- What the first section of `end_op` does, and whether a commit follows. -/
def endOp (t : Fin N) (d : Data N) : Outcome Panic (Bool × Data N) := do
  let (doCommit, l) ← d.log.endOp
  pure (doCommit, { d with
    log := l
    op := Function.update d.op t none
    logged := if doCommit then ∅ else d.logged })

end Data

/-! ## The routines -/

section

variable (t : Fin N)

/-- The loop of `begin_op` after `log.lock` is taken: the process is let in and releases the
lock, or it keeps the lock and has to sleep. -/
def admission (m : St N) : Outcome Panic (Bool × St N) :=
  if m.data.log.Admits then do
    let m ← Mem.release t { m with data := m.data.beginOp t }
    pure (true, m)
  else .ok (false, m)

def beginOp : Prog Panic (St N) Unit := do
  .update (Mem.acquire t)
  .iterate (fun _ => do
    if ← .atomic (admission t) then pure (.inr ())
    else do
      sleep t .log
      pure (.inl ())) ()

def logWrite (b : ℕ) : Prog Panic (St N) Unit := .update fun m => do
  let m ← m.acquire t
  let d ← m.data.logWrite t b
  Mem.release t { m with data := d }

/-- A round of the loops of `write_log` and `install_trans`. -/
def copyBlock (tail : ℕ) (m : St N) : Outcome Panic ((ℕ ⊕ Unit) × St N) :=
  match m.data.log.lh[tail]? with
  | some b =>
    .ok (.inl (tail + 1), { m with data.writes := (b, m.data.op) :: m.data.writes })
  | none => .ok (.inr (), m)

/-- The loop of `write_log`. -/
def writeLog : Prog Panic (St N) Unit := .iterate (fun tail => .atomic (copyBlock tail)) 0

/-- The loop of `install_trans`; the blocks it installs are those that `write_log` copied. -/
def installTrans : Prog Panic (St N) Unit := .iterate (fun tail => .atomic (copyBlock tail)) 0

def commit : Prog Panic (St N) Unit := do
  if 0 < (← .read fun m : St N => m.data.log.lh.length) then do
    writeLog
    installTrans
    .modify fun m => { m with data.log.lh := [] }
  else pure ()

/-- The first section of `end_op` after `log.lock` is taken; it is released if a commit
follows. -/
def leaveOp (m : St N) : Outcome Panic (Bool × St N) := do
  let (doCommit, d) ← m.data.endOp t
  if doCommit then do
    let m ← Mem.release t { m with data := d }
    pure (true, m)
  else pure (false, { m with data := d })

def endOp : Prog Panic (St N) Unit := do
  .update (Mem.acquire t)
  if ← .atomic (leaveOp t) then do
    commit
    .update (Mem.acquire t)
    .modify fun m => { m with data.log.committing := false }
    wakeup t .log
    .update (Mem.release t)
  else do
    wakeup t .log
    .update (Mem.release t)

end

inductive Call where
  | beginOp
  | logWrite (b : ℕ)
  | endOp
  deriving DecidableEq, Repr

/-- The processes bracket their calls with `begin_op` and `end_op`; when they may call
`log_write` is a parameter. -/
def kernel (N : ℕ) (mayWrite : Fin N → ℕ → St N → Prop) : Kernel Panic (St N) (Fin N) Call where
  body t
    | .beginOp => beginOp t
    | .logWrite b => logWrite t b
    | .endOp => endOp t
  guard t c m :=
    match c with
    | .beginOp => m.data.op t = none
    | .logWrite b => mayWrite t b m
    | .endOp => (m.data.op t).isSome = true

instance (mayWrite : Fin N → ℕ → St N → Prop) [∀ t b m, Decidable (mayWrite t b m)]
    (t : Fin N) (c : Call) (m : St N) : Decidable ((kernel N mayWrite).guard t c m) :=
  match c with
  | .beginOp => inferInstanceAs (Decidable (m.data.op t = none))
  | .logWrite b => inferInstanceAs (Decidable (mayWrite t b m))
  | .endOp => inferInstanceAs (Decidable ((m.data.op t).isSome = true))

/-- `log_write` only between `begin_op` and `end_op`, and on at most `MAXOPBLOCKS` distinct block
numbers. -/
def WithinBudget (t : Fin N) (b : ℕ) (m : St N) : Prop :=
  ∃ bs ∈ m.data.op t, (insert b bs).card ≤ MAXOPBLOCKS

instance (t : Fin N) (b : ℕ) (m : St N) : Decidable (WithinBudget t b m) :=
  match h : m.data.op t with
  | none => isFalse (by simp [WithinBudget, h])
  | some bs => decidable_of_iff ((insert b bs).card ≤ MAXOPBLOCKS) (by simp [WithinBudget, h])

/-- The process sleeps in `begin_op`. -/
def Asleep (m : St N) (p : Fin N) : Prop :=
  (m.proc p).state = .sleeping ∧ (m.proc p).chan = some .log

end Xv6.LogSync
