import Xv6.Framework.Prog
import Xv6.Param
import Mathlib.Data.List.Nodup
import Mathlib.Tactic.Common

/-!
# The in-memory log

The part of `struct log` that the file system calls share, and the three critical sections
that change it: the admission test of `begin_op`, the accounting of `end_op`, and the
recording of a block number by `log_write`.  Each is a function on the record, so that the
models that differ in what they put around it use the same code.
-/

namespace Xv6

open Concur

/-- `struct log` without its lock and its place on the disk.  `lh` is `lh.block[0..lh.n)`. -/
structure Log where
  /-- The number of log blocks in the superblock, `nlog`. -/
  size : ℕ
  /-- How many file system calls are executing. -/
  outstanding : ℤ
  /-- In `commit()`, please wait. -/
  committing : Bool
  lh : List ℕ
  deriving DecidableEq, Repr

namespace Log

/-- The log after `initlog`. -/
def init (size : ℕ) : Log := ⟨size, 0, false, []⟩

/-- The test in the loop of `begin_op`: whether one more call is let in. -/
def Admits (l : Log) : Prop :=
  l.committing = false ∧ (l.lh.length : ℤ) + (l.outstanding + 1) * MAXOPBLOCKS ≤ LOGSIZE

instance (l : Log) : Decidable l.Admits := inferInstanceAs (Decidable (_ ∧ _))

/-- A call is let in. -/
def beginOp (l : Log) : Log := { l with outstanding := l.outstanding + 1 }

/-- The first critical section of `end_op`; the answer is `do_commit`. -/
def endOp (l : Log) : Outcome Panic (Bool × Log) :=
  if l.committing then .panic .logCommitting
  else if l.outstanding - 1 = 0 then
    .ok (true, { l with outstanding := l.outstanding - 1, committing := true })
  else .ok (false, { l with outstanding := l.outstanding - 1 })

/-- The scan of `log_write`: the block number is stored where it is found, or at the end; the
answer says whether it is new. -/
def record (b : ℕ) : List ℕ → Bool × List ℕ
  | [] => (true, [b])
  | c :: lh => if c = b then (false, b :: lh) else ((record b lh).1, c :: (record b lh).2)

/-- The critical section of `log_write`; the answer says whether the buffer is pinned. -/
def write (l : Log) (b : ℕ) : Outcome Panic (Bool × Log) :=
  if LOGSIZE ≤ l.lh.length ∨ (l.size : ℤ) - 1 ≤ l.lh.length then .panic .tooBigATransaction
  else if l.outstanding < 1 then .panic .logWriteOutsideOfTrans
  else .ok ((record b l.lh).1, { l with lh := (record b l.lh).2 })

/-! ## What the sections do -/

lemma record_of_mem {b : ℕ} {lh : List ℕ} (h : b ∈ lh) : record b lh = (false, lh) := by
  induction lh with
  | nil => cases h
  | cons c lh ih =>
    by_cases hc : c = b
    · simp [record, hc]
    · have hmem : b ∈ lh := by
        rcases List.mem_cons.1 h with h | h
        · exact absurd h.symm hc
        · exact h
      simp [record, hc, ih hmem]

lemma record_of_not_mem {b : ℕ} {lh : List ℕ} (h : b ∉ lh) :
    record b lh = (true, lh ++ [b]) := by
  induction lh with
  | nil => rfl
  | cons c lh ih =>
    simp only [List.mem_cons, not_or] at h
    simp [record, Ne.symm h.1, ih h.2]

@[simp] lemma mem_record {b c : ℕ} {lh : List ℕ} :
    c ∈ (record b lh).2 ↔ c = b ∨ c ∈ lh := by
  by_cases h : b ∈ lh
  · rw [record_of_mem h]
    constructor
    · exact Or.inr
    · rintro (rfl | hc)
      · exact h
      · exact hc
  · simp [record_of_not_mem h, or_comm]

lemma record_nodup {b : ℕ} {lh : List ℕ} (h : lh.Nodup) : (record b lh).2.Nodup := by
  by_cases hb : b ∈ lh
  · rwa [record_of_mem hb]
  · rw [record_of_not_mem hb]
    exact List.Nodup.append h (List.nodup_singleton b) (by simpa using hb)

lemma length_le_record (b : ℕ) (lh : List ℕ) : lh.length ≤ (record b lh).2.length := by
  by_cases hb : b ∈ lh
  · rw [record_of_mem hb]
  · simp [record_of_not_mem hb]

lemma write_eq_ok {l l' : Log} {b : ℕ} {new : Bool} (h : l.write b = .ok (new, l')) :
    1 ≤ l.outstanding ∧ l.lh.length < LOGSIZE ∧ (l.lh.length : ℤ) < l.size - 1 ∧
      new = (record b l.lh).1 ∧ l' = { l with lh := (record b l.lh).2 } := by
  simp only [write] at h
  split at h
  · cases h
  · split at h
    · cases h
    · cases h
      refine ⟨by omega, by omega, by omega, rfl, rfl⟩

lemma write_eq_panic {l : Log} {b : ℕ} {m : Panic} (h : l.write b = .panic m) :
    (m = .tooBigATransaction ∧ (LOGSIZE ≤ l.lh.length ∨ (l.size : ℤ) - 1 ≤ l.lh.length)) ∨
      (m = .logWriteOutsideOfTrans ∧ l.outstanding < 1) := by
  simp only [write] at h
  split at h
  · rename_i hbig
    cases h
    exact .inl ⟨rfl, hbig⟩
  · split at h
    · rename_i hout
      cases h
      exact .inr ⟨rfl, hout⟩
    · cases h

lemma endOp_eq_ok {l l' : Log} {last : Bool} (h : l.endOp = .ok (last, l')) :
    l.committing = false ∧
      ((last = true ∧ l.outstanding = 1 ∧
          l' = { l with outstanding := l.outstanding - 1, committing := true }) ∨
        (last = false ∧ l.outstanding ≠ 1 ∧ l' = { l with outstanding := l.outstanding - 1 })) := by
  simp only [endOp] at h
  split at h
  · cases h
  · rename_i hcom
    refine ⟨by simpa using hcom, ?_⟩
    split at h
    · cases h
      exact .inl ⟨rfl, by omega, rfl⟩
    · cases h
      exact .inr ⟨rfl, by omega, rfl⟩

lemma endOp_eq_panic {l : Log} {m : Panic} (h : l.endOp = .panic m) : l.committing = true := by
  simp only [endOp] at h
  split at h
  · assumption
  · split at h <;> cases h

end Log

end Xv6
