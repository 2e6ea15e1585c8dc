import Xv6.Framework.Alone
import Xv6.Pipe.Basic

/-!
# What `piperead` takes from the pipe and what it delivers

`piperead` with the memory of its process, byte by byte: `copyout` of one byte fails if its page
is not mapped or not writable.  The routine is that of `Pipe/Basic.lean`, on a state that has the
memory in it too; a round of its loop asks `copyout` and is otherwise the round there.

The loop advances `nread` before it knows whether the byte can be copied.  So if a copy fails, one
byte more is gone from the pipe than the call reports (`Lost`, and `piperead_loses_byte` for a
run).  If all bytes that the call gets to can be written, it takes exactly what it delivers
(`Delivered`).  These are the two ways in which a call can end, and they exclude each other, so the
condition is exact (`piperead_delivers`).

The run is that of one process, from any state of the pipe.  A call that has to wait for bytes goes
on, after `sleep` has the lock again, with `pipereadToLocked` from the state that it finds then.
-/

namespace Xv6.Pipes

open Concur Sched

/-- The memory of a process: which bytes `copyout` can write, and the bytes. -/
structure UserMem where
  writable : UInt64 → Bool
  byte : UInt64 → UInt8

/-- `copyout` of one byte. -/
def UserMem.copyout (va : UInt64) (ch : UInt8) (u : UserMem) : Option UserMem :=
  if u.writable va then some { u with byte := setAt u.byte va ch } else none

/-- The byte that `piperead` takes next. -/
def Pipe.front (pi : Pipe) : UInt8 := pi.data (Fin.ofNat PIPESIZE pi.nread.toNat)

/-- The bytes in the pipe, in the order in which they are read. -/
def Pipe.buffered (pi : Pipe) : List UInt8 :=
  (List.range (pi.nwrite - pi.nread).toNat).map fun i =>
    pi.data (Fin.ofNat PIPESIZE (pi.nread + UInt32.ofNat i).toNat)

section

variable {N : ℕ} (t : Fin N)

/-- A routine of the pipe that does not touch the memory of the process. -/
def onPipe {α : Type} (p : Prog Panic (St N) α) : Prog Panic (St N × UserMem) α :=
  p.zoom Prod.fst fun m s => (m, s.2)

/-- A round of the loop of `piperead` that copies, to the byte at `addr + i`. -/
def readRoundTo (addr : UInt64) (i : ℕ) (m : St N × UserMem) :
    Outcome Panic (Bool × St N × UserMem) := do
  let u := m.2.copyout (addr + UInt64.ofNat i) m.1.data.front
  let (more, pi) ← readRound (fun _ => u.isSome) i m.1
  pure (more, pi, if more then u.getD m.2 else m.2)

/-- `piperead` once it has the lock. -/
def pipereadToLocked (addr : UInt64) (n : ℤ) : Prog Panic (St N × UserMem) ℤ :=
  pipereadLocked t onPipe (fun i => .atomic (readRoundTo addr i)) n

/-- `piperead(pi, addr, n)` -/
def pipereadTo (addr : UInt64) (n : ℤ) : Prog Panic (St N × UserMem) ℤ := do
  onPipe (.update (Mem.acquire t))
  pipereadToLocked t addr n

end

/-! ## The bytes in the pipe -/

section

variable {pi pi' : Pipe}

lemma Pipe.empty_iff_sub (pi : Pipe) : pi.Empty ↔ (pi.nwrite - pi.nread).toNat = 0 := by
  unfold Pipe.Empty
  constructor
  · intro h
    rw [h, UInt32.sub_self]
    rfl
  · intro h
    have h0 : pi.nwrite - pi.nread = 0 := UInt32.toNat_inj.1 h
    rw [← UInt32.sub_add_cancel pi.nwrite pi.nread, h0, UInt32.zero_add]

lemma Pipe.buffered_eq_cons (copyout : Bool) (h : ¬ pi.Empty) :
    pi.buffered = pi.front :: (pi.take copyout).buffered := by
  rw [Pipe.empty_iff_sub] at h
  have hcount : (pi.nwrite - pi.nread).toNat = (pi.nwrite - (pi.nread + 1)).toNat + 1 := by
    have hsub : pi.nwrite - pi.nread = pi.nwrite - (pi.nread + 1) + 1 := by grind
    have hlt := (pi.nwrite - (pi.nread + 1)).toNat_lt
    rw [hsub] at h ⊢
    rw [UInt32.toNat_add] at h ⊢
    simp only [UInt32.toNat_one] at h ⊢
    omega
  have hshift : ∀ i : ℕ,
      pi.nread + UInt32.ofNat (i + 1) = pi.nread + 1 + UInt32.ofNat i := by
    intro i
    rw [UInt32.ofNat_add, UInt32.add_comm (UInt32.ofNat i), ← UInt32.add_assoc]
    rfl
  unfold Pipe.buffered
  rw [hcount, List.range_succ_eq_map, List.map_cons, List.map_map]
  refine congrArg₂ _ ?_ (List.map_congr_left fun i _ => ?_)
  · simp [Pipe.front]
  · simp only [Function.comp, Pipe.take, Nat.succ_eq_add_one, hshift]

lemma Pipe.length_buffered_lt (pi : Pipe) : pi.buffered.length < 2 ^ 32 := by
  rw [Pipe.buffered, List.length_map, List.length_range]
  exact (pi.nwrite - pi.nread).toNat_lt

lemma addr_ne (addr : UInt64) {i j : ℕ} (hi : i < 2 ^ 32) (hj : j < 2 ^ 32) (h : i ≠ j) :
    addr + UInt64.ofNat i ≠ addr + UInt64.ofNat j := by
  intro he
  have hij := congrArg UInt64.toNat (UInt64.add_right_inj _ |>.1 he)
  rw [UInt64.toNat_ofNat', UInt64.toNat_ofNat'] at hij
  omega

end

/-! ## A call -/

/-- `bs` is at `addr`, and the rest of the memory is as in `u`. -/
structure Holds (u : UserMem) (addr : UInt64) (bs : List UInt8) (u' : UserMem) : Prop where
  writable : u'.writable = u.writable
  byte : ∀ i (h : i < bs.length), u'.byte (addr + UInt64.ofNat i) = bs[i]
  rest : ∀ va, (∀ i < bs.length, va ≠ addr + UInt64.ofNat i) → u'.byte va = u.byte va

lemma Holds.nil (u : UserMem) (addr : UInt64) : Holds u addr [] u :=
  ⟨rfl, fun _ h => absurd h (Nat.not_lt_zero _), fun _ _ => rfl⟩

lemma Holds.concat {u u' : UserMem} {addr : UInt64} {bs : List UInt8} (h : Holds u addr bs u')
    (hlen : bs.length < 2 ^ 32 - 1) (ch : UInt8) :
    Holds u addr (bs ++ [ch])
      { u' with byte := setAt u'.byte (addr + UInt64.ofNat bs.length) ch } where
  writable := h.writable
  byte i hi := by
    rw [List.length_append, List.length_singleton] at hi
    by_cases he : i = bs.length
    · subst he
      simp
    · have hlt : i < bs.length := by omega
      simp only
      rw [setAt_of_ne _ _ (addr_ne addr (by omega) (by omega) he), h.byte i hlt,
        List.getElem_append_left hlt]
  rest va hva := by
    rw [List.length_append, List.length_singleton] at hva
    simp only
    rw [setAt_of_ne _ _ (hva bs.length (by omega))]
    exact h.rest va fun i hi => hva i (by omega)

section

variable {N : ℕ} {t : Fin N} {addr : UInt64} {n : ℤ} {m : St N} {u : UserMem}

/-- A routine of the pipe that leaves the bytes in it. -/
def Leaves (bs : List UInt8) (m : St N) : Prop := m.data.buffered = bs

lemma Alone.onPipe {α : Type} {p : Prog Panic (St N) α} {Q : α → St N × UserMem → Prop}
    (h : Alone (fun _ => True) p m fun a m' => Q a (m', u)) :
    Alone (fun _ => True) (onPipe p) (m, u) Q := by
  unfold Pipes.onPipe
  apply Alone.zoom
  · exact fun _ _ => rfl
  · exact fun _ _ _ => rfl
  · exact fun _ => rfl
  · exact h

lemma alone_data {f : St N → Outcome Panic (St N)} {bs : List UInt8}
    (hf : ∀ m m', f m = .ok m' → m'.data = m.data) (hm : Leaves bs m) :
    Alone (fun _ => True) (.update f) m fun _ m' => Leaves bs m' :=
  Alone.update fun m' h => ⟨trivial, by rw [Leaves, hf m m' h]; exact hm⟩

lemma acquire_data {m m' : St N} (h : Mem.acquire t m = .ok m') : m'.data = m.data := by
  unfold Mem.acquire at h
  split at h
  · cases h
    rfl
  · split at h <;> cases h

lemma release_data {m m' : St N} (h : Mem.release t m = .ok m') : m'.data = m.data := by
  unfold Mem.release at h
  split at h <;> cases h
  rfl

lemma onProc_data {p : Fin N} {f : Sched.Proc N Chan Bool → Sched.Proc N Chan Bool} {m m' : St N}
    (h : Mem.onProc t p f m = .ok m') : m'.data = m.data := by
  unfold Mem.onProc at h
  split at h
  · cases h
    rfl
  · split at h <;> cases h

lemma sleep_leaves {c : Chan} {bs : List UInt8} (hm : Leaves bs m) :
    Alone (fun _ => True) (sleep t c) m fun _ m' => Leaves bs m' := by
  refine Alone.seq (alone_data ?_ hm) fun _ m1 h1 => ?_
  · intro m m' h
    unfold Mem.acquireProc at h
    split at h
    · cases h
      rfl
    · split at h <;> cases h
  refine Alone.seq (alone_data (fun _ _ => release_data) h1) fun _ m2 h2 => ?_
  refine Alone.seq (alone_data ?_ h2) fun _ m3 h3 => ?_
  · intro m m' h
    unfold Mem.doze at h
    split at h
    · cases h
    · split at h <;> cases h
      rfl
  refine Alone.seq (alone_data ?_ h3) fun _ m4 h4 => ?_
  · intro m m' h
    unfold Mem.resume at h
    split at h <;> cases h
    rfl
  exact alone_data (fun _ _ => acquire_data) h4

lemma wakeup_leaves {c : Chan} {bs : List UInt8} (hm : Leaves bs m) :
    Alone (fun _ => True) (wakeup t c) m fun _ m' => Leaves bs m' := by
  refine .forRange (fun _ m' => Leaves bs m') hm (fun p m' hm' => ?_) fun _ h => h
  split
  · exact alone_data (fun _ _ h => by cases h; rfl) hm'
  · exact alone_data (fun _ _ => onProc_data) hm'

lemma Pipe.buffered_eq_nil {pi : Pipe} (h : pi.Empty) : pi.buffered = [] := by
  rw [Pipe.buffered, (Pipe.empty_iff_sub pi).1 h]
  rfl

lemma readWait_leaves {bs : List UInt8} (hm : Leaves bs m) :
    Alone (fun _ => True) (.atomic (readWait t n)) m fun r m' =>
      Leaves bs m' ∧ (r = .dead → bs = []) := by
  refine Alone.atomic fun r m' h => ⟨trivial, ?_⟩
  unfold readWait at h
  split at h
  · rename_i hempty
    split at h
    · obtain ⟨m1, h1, h2⟩ := Outcome.bind_eq_ok.1 h
      cases h2
      have hdata := release_data h1
      refine ⟨?_, fun _ => ?_⟩
      · rw [Leaves, hdata]
        exact hm
      · exact hm.symm.trans (Pipe.buffered_eq_nil hempty.1)
    · cases h
      exact ⟨hm, by rintro ⟨⟩⟩
  · cases h
    exact ⟨hm, by rintro ⟨⟩⟩

lemma readReady_leaves {bs : List UInt8} (hm : Leaves bs m) :
    Alone (fun _ => True) (readReady t n) m fun r m' =>
      Leaves bs m' ∧ (r = false → bs = []) := by
  refine Alone.iterate (fun _ m' => Leaves bs m') hm fun _ m' hm' => ?_
  refine Alone.seq (readWait_leaves hm') fun r m1 h1 => ?_
  cases r with
  | dead => exact Alone.ret ⟨h1.1, fun _ => h1.2 rfl⟩
  | empty => exact Alone.seq (sleep_leaves h1.1) fun _ _ h2 => Alone.ret h2
  | ready => exact Alone.ret ⟨h1.1, by rintro ⟨⟩⟩

/-- The loop has taken the first `i` of the bytes `bs` and delivered them. -/
structure Progress (u : UserMem) (addr : UInt64) (bs : List UInt8) (i : ℕ) (s : St N × UserMem) :
    Prop where
  le : i ≤ bs.length
  left : s.1.data.buffered = bs.drop i
  holds : Holds u addr (bs.take i) s.2
  writable : ∀ j < i, u.writable (addr + UInt64.ofNat j) = true

/-- The byte `i` cannot be written, and it is gone from the pipe with those before it. -/
structure Dropped (u : UserMem) (addr : UInt64) (bs : List UInt8) (i : ℕ) (s : St N × UserMem) :
    Prop where
  lt : i < bs.length
  left : s.1.data.buffered = bs.drop (i + 1)
  fault : u.writable (addr + UInt64.ofNat i) = false

/-- How the loop ends: after `n` bytes or all of them, or with a byte that cannot be written. -/
def Stopped (n : ℤ) (u : UserMem) (addr : UInt64) (bs : List UInt8) (i : ℕ)
    (s : St N × UserMem) : Prop :=
  (Progress u addr bs i s ∧ (n ≤ i ∨ bs.length ≤ i)) ∨ (i < n ∧ Dropped u addr bs i s)

lemma Stopped.congr {bs : List UInt8} {i : ℕ} {s : St N × UserMem} {m' : St N}
    (h : Stopped n u addr bs i s) (hdata : m'.data.buffered = s.1.data.buffered) :
    Stopped n u addr bs i (m', s.2) := by
  obtain ⟨h, hend⟩ | ⟨hi, h⟩ := h
  · exact .inl ⟨⟨h.le, hdata.trans h.left, h.holds, h.writable⟩, hend⟩
  · exact .inr ⟨hi, h.lt, hdata.trans h.left, h.fault⟩

lemma Progress.round {bs : List UInt8} {i : ℕ} {s s' : St N × UserMem} {b : Bool}
    (h : Progress u addr bs i s) (hlen : bs.length < 2 ^ 32) (hi : (i : ℤ) < n)
    (hr : readRoundTo addr i s = .ok (b, s')) :
    if b then Progress u addr bs (i + 1) s' else Stopped n u addr bs i s' := by
  simp only [readRoundTo, readRound] at hr
  by_cases he : s.1.data.Empty
  · rw [if_pos he] at hr
    cases hr
    refine .inl ⟨h, .inr ?_⟩
    rw [← List.drop_eq_nil_iff, ← h.left]
    exact Pipe.buffered_eq_nil he
  · rw [if_neg he] at hr
    have hbs := Pipe.buffered_eq_cons true he
    have hlt : i < bs.length := by
      by_contra hge
      rw [h.left, List.drop_eq_nil_of_le (by omega)] at hbs
      cases hbs
    rw [h.left, List.drop_eq_getElem_cons hlt] at hbs
    obtain ⟨hfront, hrest⟩ := List.cons.inj hbs
    by_cases hwi : u.writable (addr + UInt64.ofNat i) = true
    · have hok : s.2.copyout (addr + UInt64.ofNat i) s.1.data.front =
          some { s.2 with byte := setAt s.2.byte (addr + UInt64.ofNat i) s.1.data.front } := by
        rw [UserMem.copyout, if_pos (by rwa [h.holds.writable])]
      rw [hok] at hr
      cases hr
      refine ⟨hlt, hrest.symm, ?_, fun j hj => ?_⟩
      · have hcat := h.holds.concat (by rw [List.length_take]; omega) s.1.data.front
        rw [List.length_take, Nat.min_eq_left h.le, ← hfront, List.take_append_getElem hlt] at hcat
        rw [← hfront]
        exact hcat
      · obtain rfl | hj := Nat.eq_or_lt_of_le (Nat.lt_succ_iff.1 hj)
        · exact hwi
        · exact h.writable j hj
    · have hfail : s.2.copyout (addr + UInt64.ofNat i) s.1.data.front = none := by
        rw [UserMem.copyout, if_neg (by rwa [h.holds.writable])]
      rw [hfail] at hr
      cases hr
      exact .inr ⟨hi, hlt, hrest.symm, Bool.eq_false_iff.2 hwi⟩

/-- What a call has done: it has failed and nothing has changed, or it returns `k`, and the first
`k` of the bytes that were in the pipe are at `addr` now and the others are still in the pipe. -/
def Delivered (addr : UInt64) (s : St N × UserMem) (r : ℤ) (s' : St N × UserMem) : Prop :=
  (r = -1 ∧ s'.1.data.buffered = s.1.data.buffered ∧ s'.2 = s.2) ∨
    ∃ k : ℕ, r = k ∧ k ≤ s.1.data.buffered.length ∧
      s'.1.data.buffered = s.1.data.buffered.drop k ∧
      Holds s.2 addr (s.1.data.buffered.take k) s'.2

/-- Every byte of the destination that a call gets to can be written. -/
def Writable (addr : UInt64) (n : ℤ) (s : St N × UserMem) : Prop :=
  ∀ i : ℕ, (i : ℤ) < n → i < s.1.data.buffered.length →
    s.2.writable (addr + UInt64.ofNat i) = true

/-- A call returns `i`, but `i + 1` bytes are gone: the last one cannot be written. -/
def Lost (addr : UInt64) (n : ℤ) (s : St N × UserMem) (r : ℤ) (s' : St N × UserMem) : Prop :=
  ∃ i : ℕ, r = i ∧ i < n ∧ Dropped s.2 addr s.1.data.buffered i s'

/-- How a call ends. -/
def Returned (addr : UInt64) (n : ℤ) (s : St N × UserMem) (r : ℤ) (s' : St N × UserMem) : Prop :=
  (Delivered addr s r s' ∧ Writable addr n s) ∨ Lost addr n s r s'

lemma Stopped.returned {i : ℕ} {s' : St N × UserMem}
    (h : Stopped n u addr m.data.buffered i s') : Returned addr n (m, u) i s' := by
  obtain ⟨h, hend⟩ | ⟨hi, h⟩ := h
  · refine .inl ⟨.inr ⟨i, rfl, h.le, h.left, h.holds⟩, fun j hj hlt => h.writable j ?_⟩
    simp only at hlt
    omega
  · exact .inr ⟨i, rfl, hi, h⟩

lemma Returned.delivered_iff {s s' : St N × UserMem} {r : ℤ} (h : Returned addr n s r s') :
    Delivered addr s r s' ↔ Writable addr n s := by
  obtain ⟨hdel, hw⟩ | ⟨i, rfl, hi, hdrop⟩ := h
  · exact ⟨fun _ => hw, fun _ => hdel⟩
  · constructor
    · rintro (⟨hneg, -⟩ | ⟨k, hk, -, hleft, -⟩)
      · omega
      · obtain rfl : i = k := by omega
        have hcount := congrArg List.length (hleft.symm.trans hdrop.left)
        have := hdrop.lt
        simp only [List.length_drop] at hcount
        omega
    · intro hw
      have := hw i hi hdrop.lt
      rw [hdrop.fault] at this
      cases this

lemma pipereadToLocked_returns :
    Alone (fun _ => True) (pipereadToLocked t addr n) (m, u) (Returned addr n (m, u)) := by
  have hlen := m.data.length_buffered_lt
  refine Alone.seq (P := fun r (s : St N × UserMem) => s.1.data.buffered = m.data.buffered ∧
      s.2 = u ∧ (r = false → m.data.buffered = []))
    (Alone.onPipe ((readReady_leaves rfl).mono fun _ m' h => ⟨h.1, rfl, h.2⟩)) ?_
  rintro ready ⟨m1, u1⟩ ⟨h1, hu, hnil⟩
  obtain rfl : u = u1 := hu.symm
  cases ready with
  | false =>
    refine Alone.ret (.inl ⟨.inl ⟨rfl, h1, rfl⟩, fun i _ hlt => ?_⟩)
    simp only [hnil rfl, List.length_nil] at hlt
    omega
  | true =>
    refine Alone.seq (P := fun i s => Stopped n u addr m.data.buffered i s)
      (Alone.iterate (fun i s => Progress u addr m.data.buffered i s)
        ⟨Nat.zero_le _, h1, Holds.nil u addr, fun _ hj => absurd hj (Nat.not_lt_zero _)⟩
        fun i s hs => ?_) ?_
    · by_cases hi : (i : ℤ) < n
      · rw [if_pos hi]
        refine Alone.seq (Alone.atomic fun b s' hr => ⟨trivial, hs.round hlen hi hr⟩)
          fun b s' hs' => ?_
        cases b with
        | true => exact Alone.ret hs'
        | false => exact Alone.ret hs'
      · rw [if_neg hi]
        exact Alone.ret (.inl ⟨hs, .inl (by omega)⟩)
    · rintro k ⟨m2, u2⟩ hk
      refine Alone.seq (P := fun _ s => Stopped n u addr m.data.buffered k s)
        (Alone.onPipe ((wakeup_leaves rfl).mono fun _ m' h => hk.congr h)) ?_
      rintro - ⟨m3, u3⟩ hk3
      refine Alone.seq (P := fun _ s => Stopped n u addr m.data.buffered k s)
        (Alone.onPipe (Alone.update fun m' h => ⟨trivial, hk3.congr ?_⟩)) ?_
      · simp only [readDone] at h
        rw [release_data h]
        rfl
      · exact fun _ s hs => Alone.ret hs.returned

lemma pipereadTo_returns :
    Alone (fun _ => True) (pipereadTo t addr n) (m, u) (Returned addr n (m, u)) := by
  refine Alone.seq (P := fun _ (s : St N × UserMem) => s.1.data = m.data ∧ s.2 = u)
    (Alone.onPipe (Alone.update fun m' h => ⟨trivial, acquire_data h, rfl⟩)) ?_
  rintro - ⟨m0, u0⟩ ⟨h₀, hu⟩
  obtain rfl : u = u0 := hu.symm
  have hlocked : Alone (fun _ => True) (pipereadToLocked t addr n) (m0, u)
      (Returned addr n (m0, u)) := pipereadToLocked_returns
  refine hlocked.mono fun r s hs => ?_
  unfold Returned Delivered Writable Lost at hs ⊢
  rwa [h₀] at hs

end

/-- From every state of the pipe, `piperead` takes exactly what it delivers if and only if the bytes
that the call gets to can be written.  This means that a result `r ≥ 0` says that the first `r`
bytes are gone from the pipe and are in the memory of the process, in order, and the result `-1`
that nothing has changed.  A later call that can deliver, and is given a byte, gets the next one. -/
theorem piperead_delivers {N : ℕ} (t : Fin N) (addr : UInt64) (n : ℤ) (m m' : St N) (u u' : UserMem)
    (r : ℤ) (p : Prog Panic (St N × UserMem) ℤ)
    (hp : p = pipereadTo t addr n ∨ p = pipereadToLocked t addr n)
    (hr : p.Completes (m, u) r (m', u')) :
    (Delivered addr (m, u) r (m', u') ↔ Writable addr n (m, u)) ∧
      (Delivered addr (m, u) r (m', u') → 0 ≤ r →
        ∀ (t1 : Fin N) (addr1 : UInt64) (n1 r1 : ℤ) (m1 : St N) (u1 : UserMem),
          (pipereadTo t1 addr1 n1).Completes (m', u') r1 (m1, u1) → 0 < r1 →
          Writable addr1 n1 (m', u') → some (u1.byte addr1) = m.data.buffered[r.toNat]?) := by
  have hret : Returned addr n (m, u) r (m', u') := by
    rcases hp with rfl | rfl
    · exact pipereadTo_returns.of_completes trivial hr
    · exact pipereadToLocked_returns.of_completes trivial hr
  refine ⟨hret.delivered_iff, fun hdel hpos t1 addr1 n1 r1 m1 u1 hr1 hpos1 hw1 => ?_⟩
  have hret1 : Returned addr1 n1 (m', u') r1 (m1, u1) :=
    pipereadTo_returns.of_completes trivial hr1
  obtain ⟨hneg, -⟩ | ⟨k, rfl, -, hleft, -⟩ := hdel
  · omega
  obtain ⟨hneg, -⟩ | ⟨k1, rfl, hle, -, hholds⟩ := hret1.delivered_iff.2 hw1
  · omega
  have hbyte := hholds.byte 0 (by rw [List.length_take]; omega)
  have haddr : addr1 + UInt64.ofNat 0 = addr1 := UInt64.add_zero addr1
  rw [haddr, List.getElem_take] at hbyte
  rw [hbyte, ← List.getElem?_eq_getElem, Int.toNat_natCast]
  simp only at hleft
  simp [hleft]

/-- One process, which is not killed, and a pipe with the bytes 1 and 2. -/
def twoBytes : St 1 where
  lock := none
  proc _ := ⟨none, .running, none, false⟩
  data := (((Pipe.init fun _ => 0).store 1).store 2).settle

/-- Only the byte at the address 8 can be written. -/
def onlyEight : UserMem := ⟨fun va => va = 8, fun _ => 0⟩

theorem piperead_delivers_one :
    ∃ m' u', (pipereadTo 0 8 1).Completes (twoBytes, onlyEight) 1 (m', u') ∧
      Delivered 8 (twoBytes, onlyEight) 1 (m', u') := by
  have hgo :
      (Prog.go 30 (pipereadTo 0 8 1) (twoBytes, onlyEight)).any (fun r => r.1 = 1) = true := by
    decide +kernel
  obtain ⟨r, ⟨m', u'⟩, hr, hone⟩ := Prog.exists_completes_of_go _ hgo
  obtain rfl : r = 1 := of_decide_eq_true hone
  refine ⟨m', u', hr, (piperead_delivers 0 8 1 twoBytes m' onlyEight u' 1 _ (.inl rfl) hr).1.2 ?_⟩
  intro i hi _
  obtain rfl : i = 0 := by omega
  decide

/-- A call that cannot write its byte returns 0, and the next call gets the second byte: the first
one is lost. -/
theorem piperead_loses_byte :
    twoBytes.data.buffered = [1, 2] ∧
      ∃ m' u' m'' u'', (pipereadTo 0 0 1).Completes (twoBytes, onlyEight) 0 (m', u') ∧
        m'.data.buffered = [2] ∧
        (pipereadTo 0 8 1).Completes (m', u') 1 (m'', u'') ∧ u''.byte 8 = 2 := by
  refine ⟨by decide +kernel, ?_⟩
  have hgo : (Prog.go 30 (pipereadTo 0 0 1) (twoBytes, onlyEight)).any (fun r =>
      r.1 = 0 && r.2.1.data.buffered = [2] && (Prog.go 30 (pipereadTo 0 8 1) r.2).any fun r' =>
        r'.1 = 1 && r'.2.2.byte 8 = 2) = true := by
    decide +kernel
  obtain ⟨r, ⟨m', u'⟩, hr, htest⟩ := Prog.exists_completes_of_go _ hgo
  simp only [Bool.and_eq_true, decide_eq_true_eq] at htest
  obtain ⟨⟨rfl, hleft⟩, hgo'⟩ := htest
  obtain ⟨r', ⟨m'', u''⟩, hr', htest'⟩ := Prog.exists_completes_of_go _ hgo'
  simp only [Bool.and_eq_true, decide_eq_true_eq] at htest'
  obtain ⟨rfl, hbyte⟩ := htest'
  exact ⟨m', u', m'', u'', hr, hleft, hr', hbyte⟩

end Xv6.Pipes
