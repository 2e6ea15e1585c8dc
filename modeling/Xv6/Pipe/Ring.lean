import Xv6.Pipe.Basic
import Xv6.Proc.Monitor
import Mathlib.Data.List.TakeDrop

/-!
# The ring buffer of a pipe

With the bytes that were stored and those that were handed to readers written down, the counters
are the numbers of these bytes modulo `2 ^ 32`, and the buffer holds those between the two
(`Ring`).  The invariant says that, and that a process that holds `pi->lock` can rely on what it
has seen of the pipe.
-/

namespace Xv6.Pipes

open Concur Sched

/-- The counters and the buffer agree with what was stored and returned. -/
structure Ring (pi : Pipe) : Prop where
  nread : pi.nread = UInt32.ofNat pi.returned.length
  nwrite : pi.nwrite = UInt32.ofNat pi.stored.length
  returned : pi.returned = pi.stored.take pi.returned.length
  le : pi.returned.length ≤ pi.stored.length
  le_size : pi.stored.length ≤ pi.returned.length + PIPESIZE
  data : ∀ j (hj : j < pi.stored.length), pi.returned.length ≤ j →
    pi.data (Fin.ofNat PIPESIZE j) = pi.stored[j]
  readings : ∀ r ∈ pi.readings, 0 < r.n → r.result = 0 → r.empty = true ∧ r.writeopen = false

lemma ofNat_eq_iff {a b : ℕ} (h1 : b ≤ a) (h2 : a ≤ b + PIPESIZE) :
    UInt32.ofNat b = UInt32.ofNat a ↔ b = a := by
  rw [PIPESIZE_eq] at h2
  rw [← UInt32.toNat_inj, UInt32.toNat_ofNat', UInt32.toNat_ofNat']
  omega

lemma ofNat_toNat (n : ℕ) :
    Fin.ofNat PIPESIZE (UInt32.ofNat n).toNat = Fin.ofNat PIPESIZE n := by
  apply Fin.ext
  rw [UInt32.toNat_ofNat']
  show n % 2 ^ 32 % 512 = n % 512
  omega

namespace Ring

variable {pi : Pipe}

lemma init (data : Fin PIPESIZE → UInt8) : Ring (.init data) := by
  refine ⟨rfl, rfl, rfl, le_rfl, Nat.zero_le _, fun j hj => ?_, fun r hr => ?_⟩
  · exact absurd hj (Nat.not_lt_zero j)
  · cases hr

lemma empty_iff (h : Ring pi) : pi.Empty ↔ pi.returned.length = pi.stored.length := by
  rw [Pipe.Empty, h.nread, h.nwrite]
  exact ofNat_eq_iff h.le h.le_size

lemma full_iff (h : Ring pi) : pi.Full ↔ pi.stored.length = pi.returned.length + PIPESIZE := by
  have hle := h.le
  have hsize := h.le_size
  rw [Pipe.Full, h.nread, h.nwrite, ← UInt32.toNat_inj, UInt32.toNat_add]
  simp only [UInt32.toNat_ofNat', PIPESIZE_eq] at *
  omega

lemma toNat_sub (h : Ring pi) :
    (pi.nwrite - pi.nread).toNat = pi.stored.length - pi.returned.length := by
  have hle := h.le
  have hsize := h.le_size
  rw [h.nread, h.nwrite, UInt32.toNat_sub]
  simp only [UInt32.toNat_ofNat', PIPESIZE_eq] at *
  omega

lemma store (h : Ring pi) (hfull : ¬ pi.Full) (ch : UInt8) : Ring (pi.store ch) := by
  have hle := h.le
  have hsize := h.le_size
  have hlt : pi.stored.length < pi.returned.length + PIPESIZE :=
    lt_of_le_of_ne hsize fun he => hfull (h.full_iff.2 he)
  refine ⟨h.nread, ?_, ?_, ?_, ?_, fun j hj hjr => ?_, h.readings⟩
  · simp only [Pipe.store, h.nwrite, List.length_append, List.length_singleton]
    exact (UInt32.ofNat_add _ 1).symm
  · simp only [Pipe.store]
    rw [List.take_append_of_le_length hle]
    exact h.returned
  · simp only [Pipe.store, List.length_append, List.length_singleton]
    omega
  · simp only [Pipe.store, List.length_append, List.length_singleton]
    omega
  · simp only [Pipe.store, List.length_append, List.length_singleton] at hj hjr ⊢
    rw [h.nwrite, ofNat_toNat]
    by_cases hjl : j = pi.stored.length
    · subst hjl
      simp
    · have hlast : j < pi.stored.length := by omega
      rw [setAt_of_ne, List.getElem_append_left hlast]
      · exact h.data j hlast hjr
      · -- bytes less than `PIPESIZE` apart have different places
        intro he
        have he' : j % 512 = pi.stored.length % 512 := congrArg Fin.val he
        rw [PIPESIZE_eq] at *
        omega

lemma take (h : Ring pi) (hempty : ¬ pi.Empty) : Ring (pi.take true) := by
  have hle := h.le
  have hsize := h.le_size
  have hlt : pi.returned.length < pi.stored.length :=
    lt_of_le_of_ne hle fun he => hempty (h.empty_iff.2 he)
  have hch : pi.data (Fin.ofNat PIPESIZE pi.nread.toNat) = pi.stored[pi.returned.length] := by
    rw [h.nread, ofNat_toNat]
    exact h.data _ hlt le_rfl
  refine ⟨?_, h.nwrite, ?_, ?_, ?_, fun j hj hjr => ?_, h.readings⟩
  · simp only [Pipe.take, ↓reduceIte, h.nread, List.length_append, List.length_singleton]
    exact (UInt32.ofNat_add _ 1).symm
  · simp only [Pipe.take, ↓reduceIte, hch, List.length_append, List.length_singleton]
    rw [List.take_add_one, List.getElem?_eq_getElem hlt, ← h.returned]
    rfl
  · simp only [Pipe.take, ↓reduceIte, List.length_append, List.length_singleton]
    omega
  · simp only [Pipe.take, ↓reduceIte, List.length_append, List.length_singleton]
    omega
  · simp only [Pipe.take, ↓reduceIte, List.length_append, List.length_singleton] at hj hjr
    exact h.data j hj (by omega)

lemma congr {pi' : Pipe} (h : Ring pi) (hdata : pi'.data = pi.data) (hnr : pi'.nread = pi.nread)
    (hnw : pi'.nwrite = pi.nwrite) (hs : pi'.stored = pi.stored)
    (hr : pi'.returned = pi.returned)
    (hreadings : ∀ r ∈ pi'.readings, 0 < r.n → r.result = 0 →
      r.empty = true ∧ r.writeopen = false) : Ring pi' := by
  obtain ⟨d, nr, nw, ro, wo, st, re, fr, rd, gu⟩ := pi'
  simp only at hdata hnr hnw hs hr
  subst hdata hnr hnw hs hr
  exact ⟨h.nread, h.nwrite, h.returned, h.le, h.le_size, h.data, hreadings⟩

end Ring

end Xv6.Pipes
