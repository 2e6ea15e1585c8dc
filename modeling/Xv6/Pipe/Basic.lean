import Xv6.Proc.Sleep

/-!
# Pipes

`pipewrite`, `piperead` and `pipeclose` of `kernel/pipe.c` on one pipe, called by any number of
processes, any of which can be killed at any time.

Each round of a loop that runs under `pi->lock` is an action.  The kernel closes an end of a
pipe when the last descriptor for it goes; here any process can close an end at any time, so the
kernel's runs are among those considered.  What `copyin` and `copyout` do is a parameter of the
calls.
-/

namespace Xv6.Pipes

open Concur Sched

/-- The size of the buffer. -/
def PIPESIZE : ℕ := 512

lemma PIPESIZE_eq : PIPESIZE = 512 := rfl

instance : NeZero PIPESIZE := ⟨by decide⟩

/-- What processes sleep on: `&pi->nread` and `&pi->nwrite`. -/
inductive Chan where
  | nread
  | nwrite
  deriving DecidableEq, Repr

/-- A call of `piperead`: the number of bytes asked for, the result, and what the pipe was like
when it returned. -/
structure Reading where
  n : ℤ
  result : ℤ
  empty : Bool
  writeopen : Bool
  deriving DecidableEq, Repr

/-- `struct pipe`, without its lock.  The fields after `writeopen` are not in the kernel: the bytes
that were stored and the bytes that were handed to readers, whether the page was freed, the calls
of `piperead`, and the number of bytes that the call of `pipewrite` that has the lock has stored
and not announced yet by `wakeup(&pi->nread)`. -/
structure Pipe where
  data : Fin PIPESIZE → UInt8
  nread : UInt32
  nwrite : UInt32
  readopen : Bool
  writeopen : Bool
  stored : List UInt8
  returned : List UInt8
  freed : Bool
  readings : List Reading
  unannounced : ℕ

namespace Pipe

/-- What `pipealloc` sets up; the buffer is not initialised. -/
def init (data : Fin PIPESIZE → UInt8) : Pipe :=
  ⟨data, 0, 0, true, true, [], [], false, [], 0⟩

def Empty (pi : Pipe) : Prop := pi.nread = pi.nwrite

def Full (pi : Pipe) : Prop := pi.nwrite = pi.nread + UInt32.ofNat PIPESIZE

instance (pi : Pipe) : Decidable pi.Empty := inferInstanceAs (Decidable (_ = _))

instance (pi : Pipe) : Decidable pi.Full := inferInstanceAs (Decidable (_ = _))

/-- `pi->data[pi->nwrite++ % PIPESIZE] = ch` -/
def store (pi : Pipe) (ch : UInt8) : Pipe :=
  { pi with
    data := setAt pi.data (Fin.ofNat PIPESIZE pi.nwrite.toNat) ch
    nwrite := pi.nwrite + 1
    stored := pi.stored ++ [ch]
    unannounced := pi.unannounced + 1 }

/-- The call of `pipewrite` goes on to `wakeup(&pi->nread)`, or returns. -/
def settle (pi : Pipe) : Pipe := { pi with unannounced := 0 }

/-- `ch = pi->data[pi->nread++ % PIPESIZE]`, and whether it could be copied to the reader. -/
def take (pi : Pipe) (copyout : Bool) : Pipe :=
  { pi with
    nread := pi.nread + 1
    returned :=
      if copyout then pi.returned ++ [pi.data (Fin.ofNat PIPESIZE pi.nread.toNat)]
      else pi.returned }

/-- Close an end. -/
def close (pi : Pipe) (writable : Bool) : Pipe :=
  if writable then { pi with writeopen := false } else { pi with readopen := false }

end Pipe

/-- The memory; of the fields of a process, `killed` is used. -/
abbrev St (N : ℕ) : Type := Mem N Chan Bool Pipe

variable {N : ℕ}

/-- The processes run in the kernel, and there is a new pipe. -/
def init (killed : Fin N → Bool) (data : Fin PIPESIZE → UInt8) : St N where
  lock := none
  proc t := ⟨none, .running, none, killed t⟩
  data := .init data

/-- How a round of the loop of `pipewrite` ends. -/
inductive WriteRound where
  /-- No reader is left, or the process is killed: the lock is released. -/
  | dead
  | full
  /-- `copyin` has failed. -/
  | fault
  | stored

/-- How a round of the first loop of `piperead` ends. -/
inductive ReadRound where
  /-- The process is killed: the lock is released. -/
  | dead
  | empty
  | ready

section

variable (t : Fin N)

/-- A round of the loop of `pipewrite`, in which the byte `i` is to be stored. -/
def writeRound (src : ℕ → Option UInt8) (i : ℕ) (m : St N) : Outcome Panic (WriteRound × St N) :=
  if m.data.readopen = false ∨ (m.proc t).priv = true then do
    let m ← Mem.release t { m with data := m.data.settle }
    pure (.dead, m)
  else if m.data.Full then .ok (.full, { m with data := m.data.settle })
  else
    match src i with
    | none => .ok (.fault, m)
    | some ch => .ok (.stored, { m with data := m.data.store ch })

/-- The end of `pipewrite`. -/
def writeDone (m : St N) : Outcome Panic (St N) :=
  Mem.release t { m with data := m.data.settle }

def pipewrite (src : ℕ → Option UInt8) (n : ℤ) : Prog Panic (St N) ℤ := do
  .update (Mem.acquire t)
  let r ← .iterate (fun (i : ℕ) =>
    if i < n then do
      match ← .atomic (writeRound t src i) with
      | .dead => pure (.inr none)
      | .full => do
        wakeup t .nread
        sleep t .nwrite
        pure (.inl i)
      | .fault => pure (.inr (some i))
      | .stored => pure (.inl (i + 1))
    else pure (.inr (some i))) 0
  match r with
  | none => pure (-1)
  | some i => do
    wakeup t .nread
    .update (writeDone t)
    pure i

/-- A round of the loop of `piperead` that waits for bytes. -/
def readWait (n : ℤ) (m : St N) : Outcome Panic (ReadRound × St N) :=
  if m.data.Empty ∧ m.data.writeopen = true then
    if (m.proc t).priv = true then do
      let m ← Mem.release t { m with data := { m.data with
        readings := ⟨n, -1, m.data.Empty, m.data.writeopen⟩ :: m.data.readings } }
      pure (.dead, m)
    else .ok (.empty, m)
  else .ok (.ready, m)

/-- A round of the loop of `piperead` that copies; the answer is whether it goes on. -/
def readRound (dst : ℕ → Bool) (i : ℕ) (m : St N) : Outcome Panic (Bool × St N) :=
  if m.data.Empty then .ok (false, m)
  else .ok (dst i, { m with data := m.data.take (dst i) })

/-- The end of `piperead`. -/
def readDone (n : ℤ) (i : ℕ) (m : St N) : Outcome Panic (St N) :=
  Mem.release t { m with data := { m.data with
    readings := ⟨n, i, m.data.Empty, m.data.writeopen⟩ :: m.data.readings } }

/-- The loop of `piperead` that waits for bytes; whether it goes on to copy. -/
def readReady (n : ℤ) : Prog Panic (St N) Bool :=
  .iterate (fun _ => do
    match ← .atomic (readWait t n) with
    | .dead => pure (.inr false)
    | .empty => do
      sleep t .nread
      pure (.inl ())
    | .ready => pure (.inr true)) ()

/-- `piperead` once it has the lock, where `round` is a round of the loop that copies.  The state
may have more in it than the pipe; `onPipe` runs a routine of the pipe. -/
def pipereadLocked {σ : Type} (onPipe : ∀ {α : Type}, Prog Panic (St N) α → Prog Panic σ α)
    (round : ℕ → Prog Panic σ Bool) (n : ℤ) : Prog Panic σ ℤ := do
  if ← onPipe (readReady t n) then do
    let i ← .iterate (fun (i : ℕ) =>
      if (i : ℤ) < n then do
        if ← round i then pure (.inl (i + 1)) else pure (.inr i)
      else pure (.inr i)) 0
    onPipe (wakeup t .nwrite)
    onPipe (.update (readDone t n i))
    pure i
  else pure (-1)

/-- `piperead`, where the answers of `copyout` are given. -/
def piperead (dst : ℕ → Bool) (n : ℤ) : Prog Panic (St N) ℤ := do
  .update (Mem.acquire t)
  pipereadLocked t (fun p => p) (fun i => .atomic (readRound dst i)) n

/-- The end of `pipeclose`: with both ends closed the page is freed. -/
def closeDone (m : St N) : Outcome Panic (St N) :=
  Mem.release t { m with data := { m.data with
    freed := m.data.freed || (!m.data.readopen && !m.data.writeopen) } }

def pipeclose (writable : Bool) : Prog Panic (St N) Unit := do
  .update (Mem.acquire t)
  .modify fun m => { m with data := m.data.close writable }
  wakeup t (if writable then .nread else .nwrite)
  .update (closeDone t)

/-- `kill`, at the process `p`. -/
def kill (p : Fin N) : Prog Panic (St N) Unit :=
  .update (Mem.onProc t p fun x =>
    { x with priv := true, state := if x.state = .sleeping then .runnable else x.state })

end

/-- The calls, with what `copyin` finds at the source and where `copyout` can write. -/
inductive Call (N : ℕ) where
  | write (src : ℕ → Option UInt8) (n : ℤ)
  | read (dst : ℕ → Bool) (n : ℤ)
  | close (writable : Bool)
  | kill (p : Fin N)

/-- The processes make any calls that satisfy `P`. -/
def kernel (N : ℕ) (P : Call N → Prop) : Kernel Panic (St N) (Fin N) (Call N) where
  body t
    | .write src n => do
      let _ ← pipewrite t src n
    | .read dst n => do
      let _ ← piperead t dst n
    | .close writable => pipeclose t writable
    | .kill p => kill t p
  guard _ c _ := P c

/-- The user copies of the call succeed. -/
def Call.Mapped : Call N → Prop
  | .write src n => ∀ i : ℕ, i < n → (src i).isSome = true
  | .read dst n => ∀ i : ℕ, i < n → dst i = true
  | _ => True

lemma Call.mapped_iff (n : ℤ) (p : ℕ → Prop) : (∀ i : ℕ, i < n → p i) ↔ ∀ i < n.toNat, p i :=
  forall_congr' fun i => by rw [Int.lt_toNat]

instance : DecidablePred (Call.Mapped (N := N)) := fun c =>
  match c with
  | .write src n => decidable_of_iff _ (Call.mapped_iff n fun i => (src i).isSome = true).symm
  | .read dst n => decidable_of_iff _ (Call.mapped_iff n fun i => dst i = true).symm
  | .close _ => isTrue trivial
  | .kill _ => isTrue trivial

instance (P : Call N → Prop) [DecidablePred P] (t : Fin N) (c : Call N) (m : St N) :
    Decidable ((kernel N P).guard t c m) :=
  inferInstanceAs (Decidable (P c))

/-- The process is asleep on the channel. -/
def St.Asleep (m : St N) (p : Fin N) (c : Chan) : Prop :=
  (m.proc p).state = .sleeping ∧ (m.proc p).chan = some c

instance (m : St N) (p : Fin N) (c : Chan) : Decidable (m.Asleep p c) :=
  inferInstanceAs (Decidable (_ ∧ _))

end Xv6.Pipes
