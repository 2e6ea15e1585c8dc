import Xv6.Framework.Prog
import Xv6.Param
import Mathlib.Data.UInt

/-!
# The console

`consoleintr` and `consoleread` of `kernel/console.c`: characters that arrive from the UART are
edited in a ring buffer with three indices, and read by any number of processes, any of which can
be killed at any time.  The echo of the characters is left out.

`consoleintr` runs under `cons.lock` and is an action.  Of `consoleread`, each round of its loop is
an action, although the lock is only given up in `sleep`, so the kernel's runs are among those
considered.  A process that sleeps is one whose next action is refused.  User copies succeed.
-/

namespace Xv6.Console

open Concur

def INPUT_BUF_SIZE : ℕ := 128

lemma INPUT_BUF_SIZE_eq : INPUT_BUF_SIZE = 128 := rfl

instance : NeZero INPUT_BUF_SIZE := ⟨by decide⟩

/-- `C(x)`, for an upper-case letter. -/
def C (x : Char) : UInt8 := x.toUInt8 - '@'.toUInt8

/-- The characters `'\n'`, `'\r'` and `'\x7f'`. -/
def nl : UInt8 := 0x0a
@[inherit_doc nl] def cr : UInt8 := 0x0d
@[inherit_doc nl] def del : UInt8 := 0x7f

/-- `cons`, without its lock. -/
structure Cons where
  buf : Fin INPUT_BUF_SIZE → UInt8
  r : UInt32
  w : UInt32
  e : UInt32

/-- The place in the buffer that an index stands for. -/
def slot (i : UInt32) : Fin INPUT_BUF_SIZE := Fin.ofNat INPUT_BUF_SIZE i.toNat

namespace Cons

/-- The loop for `C('U')`; it ends when `e` is `w`, after `e - w` rounds. -/
def killLine : ℕ → Cons → Cons
  | 0, k => k
  | n + 1, k =>
    if k.e ≠ k.w ∧ k.buf (slot (k.e - 1)) ≠ nl then killLine n { k with e := k.e - 1 } else k

/-- `cons.buf[cons.e++ % INPUT_BUF_SIZE] = c` -/
def store (k : Cons) (c : UInt8) : Cons := { k with buf := setAt k.buf (slot k.e) c, e := k.e + 1 }

end Cons

def consoleintr (c : UInt8) (k : Cons) : Cons :=
  if c = C 'P' then k
  else if c = C 'U' then k.killLine (k.e - k.w).toNat
  else if c = C 'H' ∨ c = del then
    if k.e ≠ k.w then { k with e := k.e - 1 } else k
  else if c ≠ 0 ∧ k.e - k.r < UInt32.ofNat INPUT_BUF_SIZE then
    let c := if c = cr then nl else c
    let k := k.store c
    if c = nl ∨ c = C 'D' ∨ k.e - k.r = UInt32.ofNat INPUT_BUF_SIZE then { k with w := k.e } else k
  else k

/-- What happens at the console: a character arrives, a process is killed; a process calls
`consoleread`, gets the byte number `i` of its call, finds the end of the file, finds that it is
killed, or returns. -/
inductive Event (N : ℕ) where
  | typed (c : UInt8)
  | killed (t : Fin N)
  | call (t : Fin N) (n : ℤ)
  | byte (t : Fin N) (i : ℤ) (b : UInt8)
  | eof (t : Fin N)
  | dead (t : Fin N)
  | ret (t : Fin N) (result : ℤ)
  deriving DecidableEq, Repr

/-- The memory; `log`, what has happened so far, is not in the kernel. -/
structure St (N : ℕ) where
  cons : Cons
  killed : Fin N → Bool
  log : List (Event N)

variable {N : ℕ}

/-- Nothing has happened yet. -/
def init (N : ℕ) (buf : Fin INPUT_BUF_SIZE → UInt8) : St N := ⟨⟨buf, 0, 0, 0⟩, fun _ => false, []⟩

/-- One more event. -/
def St.add (s : St N) (ev : Event N) : St N := { s with log := s.log ++ [ev] }

/-- How a round of the loop of `consoleread` ends. -/
inductive Round where
  | dead
  | eof
  | byte (c : UInt8)

section

variable (t : Fin N)

/-- A round of the loop of `consoleread`, with `n` bytes of `target` to go. -/
def readRound (target n : ℤ) (s : St N) : Outcome Panic (Round × St N) :=
  if s.cons.r = s.cons.w then
    if s.killed t then .ok (.dead, s.add (.dead t)) else .blocked
  else
    let c := s.cons.buf (slot s.cons.r)
    let k := { s.cons with r := s.cons.r + 1 }
    if c = C 'D' then
      let k := if n < target then { k with r := k.r - 1 } else k
      .ok (.eof, { s with cons := k }.add (.eof t))
    else .ok (.byte c, { s with cons := k }.add (.byte t (target - n) c))

def consoleread (target : ℤ) : Prog Panic (St N) Unit := do
  .modify fun s => s.add (.call t target)
  let n ← .iterate (fun n =>
    if 0 < n then do
      match ← .atomic (readRound t target n) with
      | .dead => pure (.inr none)
      | .eof => pure (.inr (some n))
      | .byte c => if c = nl then pure (.inr (some (n - 1))) else pure (.inl (n - 1))
    else pure (.inr (some n))) target
  match n with
  | none => .modify fun s => s.add (.ret t (-1))
  | some n => .modify fun s => s.add (.ret t (target - n))

/-- What sets `p->killed`. -/
def kill : Prog Panic (St N) Unit :=
  .modify fun s => { s with killed := setAt s.killed t true }.add (.killed t)

/-- The interrupt for a character. -/
def interrupt (c : UInt8) : Prog Panic (St N) Unit :=
  .modify fun s => { s with cons := consoleintr c s.cons }.add (.typed c)

end

inductive Call (N : ℕ) where
  | typed (c : UInt8)
  | read (n : ℤ)
  | kill (t : Fin N)

/-- The processes read, and the UART, which is the thread `none`, delivers characters. -/
def Call.allowed : Option (Fin N) → Call N → Bool
  | some _, .typed _ => false
  | none, .read _ => false
  | _, _ => true

def kernel (N : ℕ) : Kernel Panic (St N) (Option (Fin N)) (Call N) where
  body
    | some t, .read n => consoleread t n
    | none, .read _ => .ret ()
    | _, .kill t => kill t
    | _, .typed c => interrupt c
  guard t c _ := Call.allowed t c = true

instance (t : Option (Fin N)) (c : Call N) (s : St N) : Decidable ((kernel N).guard t c s) :=
  inferInstanceAs (Decidable (_ = true))

end Xv6.Console
