import Xv6.Pipe.Calls

/-!
# A pipe is a stream of bytes

Readers get the bytes in the order in which writers have stored them (`pipe_fifo`).

Wakeups can be lost: a writer that is killed between two bytes returns without
`wakeup(&pi->nread)`, so a reader stays asleep although there are bytes to read
(`killed_writer_loses_wakeup`).  That is the only way.  In a run in which no process is killed
while it has such bytes (`Spares`), nobody sleeps on a channel that is ready when `pi->lock` is
free (`pipe_no_lost_wakeup`); the ends may be closed at any time.
-/

namespace Xv6.Pipes

open Concur Sched

variable {N : ℕ}

/-- In every state of every run whose user copies succeed: what readers got is an initial part of
what writers have stored, at most `PIPESIZE` bytes are buffered, those that are not yet read are
still in the buffer, and `piperead` returns 0 for a positive request only at the end of the
stream. -/
theorem pipe_fifo {killed : Fin N → Bool} {data : Fin PIPESIZE → UInt8}
    {S : Sys Panic (St N) (Fin N)}
    (h : (kernel N Call.Mapped).Reachable (Sys.start (init killed data)) S) :
    S.mem.data.returned <+: S.mem.data.stored ∧
    (S.mem.data.nwrite - S.mem.data.nread).toNat =
      S.mem.data.stored.length - S.mem.data.returned.length ∧
    (S.mem.data.nwrite - S.mem.data.nread).toNat ≤ PIPESIZE ∧
    (∀ j (hj : j < S.mem.data.stored.length), S.mem.data.returned.length ≤ j →
      S.mem.data.data (Fin.ofNat PIPESIZE j) = S.mem.data.stored[j]) ∧
    ∀ r ∈ S.mem.data.readings, 0 < r.n → r.result = 0 →
      r.empty = true ∧ r.writeopen = false := by
  have hsound := Kernel.invariant (calls_safe True False fun _ _ hc => hc)
    (start_sound True False killed data) (h.mono fun _ _ _ => False.elim)
  obtain ⟨L, hinv, -⟩ := hsound
  have hring : Ring S.mem.data := hinv.user.ring trivial
  have hsize := hring.le_size
  refine ⟨?_, hring.toNat_sub, ?_, hring.data, hring.readings⟩
  · rw [hring.returned]
    exact List.take_prefix _ _
  · rw [hring.toNat_sub]
    omega

/-- A process writes two bytes and another one reads both of them. -/
theorem pipe_fifo_twoBytes : ∃ S : Sys Panic (St 2) (Fin 2),
    (kernel 2 Call.Mapped).Reachable (Sys.start (init (fun _ => false) fun _ => 0)) S ∧
    S.mem.data.returned = [7, 8] ∧ S.mem.data.returned <+: S.mem.data.stored := by
  obtain ⟨S, hr, hret⟩ := Kernel.exec_reaches
    ([.call 0 (.write (fun i => some (UInt8.ofNat (7 + i))) 2)] ++ List.replicate 12 (.run 0) ++
      [.call 1 (.read (fun _ => true) 2)] ++ List.replicate 14 (.run 1))
    (K := kernel 2 Call.Mapped) (S := Sys.start (init (fun _ => false) fun _ => 0))
    (fun S => decide (S.mem.data.returned = [7, 8])) (by decide +kernel)
  exact ⟨S, hr, of_decide_eq_true hret, (pipe_fifo hr).1⟩

/-! ## Wakeups -/

/-- A reader sleeps on the empty pipe.  A writer stores the first of two bytes and is killed; it
returns `-1` at once, and the reader sleeps on although there is a byte to read. -/
theorem killed_writer_loses_wakeup : ∃ S : Sys Panic (St 3) (Fin 3),
    (kernel 3 fun _ => True).Reachable (Sys.start (init (fun _ => false) fun _ => 0)) S ∧
    S.mem.lock = none ∧ S.mem.Asleep 0 .nread ∧ ¬ S.mem.data.Empty := by
  obtain ⟨S, hr, hok⟩ := Kernel.exec_reaches
    ([.call 0 (.read (fun _ => true) 1)] ++ List.replicate 6 (.run 0) ++
      [.call 1 (.write (fun i => some (UInt8.ofNat i)) 2)] ++ List.replicate 3 (.run 1) ++
      [.call 2 (.kill 1), .run 2] ++ List.replicate 2 (.run 1))
    (K := kernel 3 fun _ => True) (S := Sys.start (init (fun _ => false) fun _ => 0))
    (fun S => decide (S.mem.lock = none ∧ S.mem.Asleep 0 .nread ∧ ¬ S.mem.data.Empty))
    (by decide +kernel)
  exact ⟨S, hr, of_decide_eq_true hok⟩

/-- In every run in which no process is killed while its `pipewrite` has bytes to announce, whenever
`pi->lock` is free: a process sleeps on `&pi->nread` only while the pipe is empty and its write end
open, and on `&pi->nwrite` only while the pipe is full and its read end open. -/
theorem pipe_no_lost_wakeup {killed : Fin N → Bool} {data : Fin PIPESIZE → UInt8}
    {S : Sys Panic (St N) (Fin N)}
    (h : (kernel N fun _ => True).Reaches Spares (Sys.start (init killed data)) S)
    (hfree : S.mem.lock = none) (p : Fin N) :
    (S.mem.Asleep p .nread → S.mem.data.Empty ∧ S.mem.data.writeopen = true) ∧
    (S.mem.Asleep p .nwrite → S.mem.data.Full ∧ S.mem.data.readopen = true) := by
  have hsound := Kernel.invariant
    (calls_safe False True fun hf => hf.elim)
    (start_sound False True killed data) (h.mono fun _ _ hG _ => hG)
  obtain ⟨L, hinv, -⟩ := hsound
  have hnot : ∀ c, S.mem.Asleep p c → ¬ Ready S.mem.data c :=
    fun c hs hr => hinv.not_ready hfree (Or.inr hs) ⟨trivial, hr⟩
  refine ⟨fun hs => ?_, fun hs => ?_⟩
  · have := hnot .nread hs
    simpa [Ready] using this
  · have := hnot .nwrite hs
    simpa [Ready] using this

/-- A reader that sleeps on an empty pipe. -/
theorem pipe_no_lost_wakeup_reader : ∃ S : Sys Panic (St 1) (Fin 1),
    (kernel 1 fun _ => True).Reaches Spares (Sys.start (init (fun _ => false) fun _ => 0)) S ∧
    S.mem.lock = none ∧ S.mem.Asleep 0 .nread ∧ S.mem.data.Empty ∧
    S.mem.data.writeopen = true := by
  obtain ⟨S, hr, hok⟩ := Kernel.execIf_reaches (G := Spares)
    ([.call 0 (.read (fun _ => true) 1)] ++ List.replicate 6 (.run 0))
    (K := kernel 1 fun _ => True) (S := Sys.start (init (fun _ => false) fun _ => 0))
    (fun S => decide (S.mem.lock = none ∧ S.mem.Asleep 0 .nread)) (by decide +kernel)
  obtain ⟨hfree, hs⟩ := of_decide_eq_true hok
  exact ⟨S, hr, hfree, hs, (pipe_no_lost_wakeup hr hfree 0).1 hs⟩

end Xv6.Pipes
