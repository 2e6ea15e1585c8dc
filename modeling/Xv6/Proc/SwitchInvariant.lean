import Xv6.Proc.Switch

/-!
# The invariant of switching between processes

The lock of a process is taken on one side of `swtch` and released on the other.  Where a CPU is in
its code says whose lock it holds (`Ctl.holds`), which process it is about to run or runs
(`Ctl.about`), and what `c->proc` is (`Ctl.current`).  With these,

* `Fits x y` says what the entry `y` of the table is like while the CPU `x` is about it,
* `Parked y` what it is like while no CPU is: it is not `RUNNING`, and its context is whole,
* `Inv` is the invariant.

The lemmas about `Inv` are the kinds of steps that there are: a CPU goes on (`Inv.go`), it changes
an entry whose lock it holds (`Inv.held`, `Inv.own`, `Inv.outside`), it takes or releases a lock
(`Inv.acquire`, `Inv.release`, …).  `Proc/HandOff.lean` goes through the code with them.

The one case in which a CPU changes an entry that another CPU runs is a `wakeup` or a `kill` of a
process that runs without its lock; it is then `RUNNING`, so that its state does not change
(`Fits.of_running`).
-/

namespace Xv6.Switch

open Concur Sched

variable {N C : ℕ} {χ Λ : Type}

/-! ## What the place in the code says -/

/-- The process whose lock the scheduler holds. -/
def SchedPc.holds : SchedPc N χ Λ → Option (Fin N)
  | .pick _ | .wakeup _ _ _ => none
  | .look p | .choose p | .save p | .load1 p | .load2 p _ | .done p | .drop p => some p
  | .wakeup1 _ q _ | .wakeup2 _ q _ => some q

/-- The process whose lock the process `p` holds. -/
def ProcPc.holds (p : Fin N) : ProcPc N χ Λ → Option (Fin N)
  | .at _ | .yield0 _ => none
  | .wakeup1 _ q _ | .wakeup2 _ q _ | .kill1 _ q | .kill2 _ q _ => some q
  | .yield1 _ | .sleep1 _ _ | .sleep2 _ _ | .exit1 _ | .exit2 _ | .sched _ | .swtch1 _ | .swtch2 _
  | .swtch3 | .back _ _ | .sleep3 _ => some p

/-- The process whose lock a CPU holds, by the protocol. -/
def Ctl.holds : Ctl N χ Λ → Option (Fin N)
  | .sched pc => pc.holds
  | .proc p pc => pc.holds p

/-- The process that a CPU runs, or has chosen to run. -/
def Ctl.about : Ctl N χ Λ → Option (Fin N)
  | .sched (.choose p) | .sched (.save p) | .sched (.load1 p) | .sched (.load2 p _) => some p
  | .sched _ => none
  | .proc p _ => some p

/-- The process that `c->proc` has to be: the one that the CPU runs, from the assignment before
`swtch` to the one after it. -/
def Ctl.current : Ctl N χ Λ → Option (Fin N)
  | .sched (.save p) | .sched (.load1 p) | .sched (.load2 p _) | .sched (.done p) => some p
  | .sched _ => none
  | .proc p _ => some p

/-- The context of the process is whole, and is not that of a process that has exited. -/
structure Ready (y : Proc N C χ Λ) : Prop where
  state : y.state = .running
  whole : y.context.ra = y.context.sp
  saved : y.saved = true
  alive : y.context.ra ≠ .exit

/-- The process is on no CPU: it is not `RUNNING`, and its context is whole. -/
structure Parked (y : Proc N C χ Λ) : Prop where
  state : y.state ≠ .running
  whole : y.context.ra = y.context.sp
  saved : y.saved = true
  zombie : y.context.ra = .exit → y.state = .zombie

/-- What a process has done to its entry of the table. -/
def ProcPc.Fits (y : Proc N C χ Λ) : ProcPc N χ Λ → Prop
  | .exit2 _ => y.state = .zombie
  | .sched k | .swtch1 k => y.state ≠ .running ∧ (k = .exit → y.state = .zombie)
  | .swtch2 k =>
    y.state ≠ .running ∧ (k = .exit → y.state = .zombie) ∧ y.context.ra = k
  | .swtch3 => Parked y
  | .back ra sp => y.state = .running ∧ ra = sp ∧ ra ≠ .exit
  | _ => y.state = .running

/-- What the entry of a process is like while a CPU is about it. -/
def Fits (x : Cpu N χ Λ) (y : Proc N C χ Λ) : Prop :=
  match x.cur with
  | .sched (.choose _) | .sched (.save _) => Ready y
  | .sched (.load1 p) => Ready y ∧ x.context = p
  | .sched (.load2 p ra) => Ready y ∧ x.context = p ∧ ra = y.context.ra
  | .sched _ => True
  | .proc p pc => pc.Fits y ∧ x.context = p

/-- The invariant. -/
structure Inv (s : St N C χ Λ) : Prop where
  /-- The lock of a process is held by the CPU that holds it by the protocol. -/
  lock : ∀ p c, (s.proc p).lock = some c ↔ (s.cpu c).cur.holds = some p
  /-- `c->proc` is the process that the CPU runs. -/
  proc : ∀ c, (s.cpu c).proc = (s.cpu c).cur.current
  /-- No two CPUs are about one process. -/
  one : ∀ c c' p, (s.cpu c).cur.about = some p → (s.cpu c').cur.about = some p → c = c'
  fits : ∀ c p, (s.cpu c).cur.about = some p → Fits (s.cpu c) (s.proc p)
  parked : ∀ p, (∀ c, (s.cpu c).cur.about ≠ some p) → Parked (s.proc p)
  /-- `noff` counts the locks that the CPU holds. -/
  noff : ∀ c, ∃ ls : Finset Λ, (∀ lk, lk ∈ ls ↔ s.lk lk = some c) ∧
    (s.cpu c).noff = (s.cpu c).cur.holds.toList.length + ls.card

/-- `noff` of the CPU `c` counts the locks that it holds. -/
def Counts (lk : Λ → Option (Fin C)) (c : Fin C) (x : Cpu N χ Λ) : Prop :=
  ∃ ls : Finset Λ, (∀ l, l ∈ ls ↔ lk l = some c) ∧ x.noff = x.cur.holds.toList.length + ls.card

/-! ## Facts about one entry -/

lemma Fits.running {x : Cpu N χ Λ} {y : Proc N C χ Λ} {q : Fin N} (h : Fits x y)
    (ha : x.cur.about = some q) (hh : x.cur.holds ≠ some q) : y.state = .running := by
  unfold Fits at h
  rcases hx : x.cur with pc | ⟨p, pc⟩
  · rw [hx] at h ha hh
    cases pc <;> simp_all [Ctl.about, Ctl.holds, SchedPc.holds]
  · rw [hx] at h ha hh
    cases pc <;> simp_all [Ctl.about, Ctl.holds, ProcPc.holds, ProcPc.Fits]

lemma Fits.of_running {x : Cpu N χ Λ} {y y' : Proc N C χ Λ} {q : Fin N} (h : Fits x y)
    (ha : x.cur.about = some q) (hh : x.cur.holds ≠ some q) (hy : y'.state = .running) :
    Fits x y' := by
  unfold Fits at h ⊢
  rcases hx : x.cur with pc | ⟨p, pc⟩
  · rw [hx] at h ha hh
    cases pc <;> simp_all [Ctl.about, Ctl.holds, SchedPc.holds]
  · rw [hx] at h ha hh
    cases pc <;> simp_all [Ctl.about, Ctl.holds, ProcPc.holds, ProcPc.Fits]

/-- `y'` has the fields of `y` that the invariant is about, apart from the lock. -/
structure Similar (y y' : Proc N C χ Λ) : Prop where
  state : y'.state = y.state
  context : y'.context = y.context
  saved : y'.saved = y.saved

lemma Ready.similar {y y' : Proc N C χ Λ} (h : Ready y) (hs : Similar y y') : Ready y' :=
  ⟨hs.state.trans h.state, hs.context ▸ h.whole, hs.saved.trans h.saved, hs.context ▸ h.alive⟩

lemma Parked.similar {y y' : Proc N C χ Λ} (h : Parked y) (hs : Similar y y') : Parked y' := by
  refine ⟨hs.state ▸ h.state, hs.context ▸ h.whole, hs.saved.trans h.saved, fun he => ?_⟩
  rw [hs.state]
  exact h.zombie (hs.context ▸ he)

lemma ProcPc.Fits.similar {pc : ProcPc N χ Λ} {y y' : Proc N C χ Λ} (h : pc.Fits y)
    (hs : Similar y y') : pc.Fits y' := by
  cases pc with
  | swtch3 => exact Parked.similar h hs
  | _ => simpa only [ProcPc.Fits, hs.state, hs.context] using h

lemma Fits.similar {x : Cpu N χ Λ} {y y' : Proc N C χ Λ} (h : Fits x y) (hs : Similar y y') :
    Fits x y' := by
  unfold Fits at h ⊢
  split at h
  · exact h.similar hs
  · exact h.similar hs
  · exact ⟨h.1.similar hs, h.2⟩
  · exact ⟨h.1.similar hs, h.2.1, hs.context ▸ h.2.2⟩
  · trivial
  · exact ⟨h.1.similar hs, h.2⟩

/-- A change that another CPU makes to the entry of a process under its lock. -/
structure Outside (y y' : Proc N C χ Λ) : Prop where
  lock : y'.lock = y.lock
  running : y.state = .running → y'.state = .running
  parked : Parked y → Parked y'

lemma Proc.wake_outside [DecidableEq χ] (ch : χ) (y : Proc N C χ Λ) : Outside y (y.wake ch) := by
  unfold Proc.wake
  split
  case isFalse => exact ⟨rfl, id, id⟩
  case isTrue hs =>
    refine ⟨rfl, fun hr => ?_, fun h => ⟨by simp, h.whole, h.saved, fun he => ?_⟩⟩
    · exact absurd (hs.1.symm.trans hr) (by decide)
    · exact absurd (hs.1.symm.trans (h.zombie he)) (by decide)

lemma Proc.kill_outside (y : Proc N C χ Λ) : Outside y y.kill := by
  unfold Proc.kill
  by_cases hs : y.state = .sleeping
  · refine ⟨rfl, fun hr => ?_, fun h => ⟨by simp [hs], h.whole, h.saved, fun he => ?_⟩⟩
    · exact absurd (hs.symm.trans hr) (by decide)
    · exact absurd (hs.symm.trans (h.zombie he)) (by decide)
  · refine ⟨rfl, fun hr => by simpa [hs] using hr, fun h => ⟨?_, h.whole, h.saved, fun he => ?_⟩⟩
    · simpa [hs] using h.state
    · simpa [hs] using h.zombie he

/-! ## The kinds of steps -/

section

variable {s : St N C χ Λ} {c : Fin C} {q : Fin N} {x : Cpu N χ Λ} {y : Proc N C χ Λ}

section

variable (h : Inv s)

include h

lemma Inv.noff_same (hn : x.noff = (s.cpu c).noff)
    (hh : x.cur.holds.toList.length = (s.cpu c).cur.holds.toList.length) : Counts s.lk c x := by
  rw [Counts, hn, hh]
  exact h.noff c

section

variable (hproc : x.proc = x.cur.current)
  (hone : ∀ p, x.cur.about = some p → ∀ c', c' ≠ c → (s.cpu c').cur.about ≠ some p)
  (hfits : ∀ p, x.cur.about = some p → Fits x (setAt s.proc q y p))
  (hother : ∀ c', c' ≠ c → (s.cpu c').cur.about = some q → Fits (s.cpu c') y)
  (hparked : ∀ p, x.cur.about ≠ some p → (∀ c', c' ≠ c → (s.cpu c').cur.about ≠ some p) →
    Parked (setAt s.proc q y p))

include hproc hone hfits hother hparked

/-- The general form: the CPU `c` and the entry `q` change.  Each hypothesis is a clause of the
invariant at the places that change. -/
lemma Inv.update
    (hlock : ∀ p c', (setAt s.proc q y p).lock = some c' ↔ (setAt s.cpu c x c').cur.holds = some p)
    (hnoff : Counts s.lk c x) : Inv ((s.setProc q y).setCpu c x) where
  lock := hlock
  proc c' := setAt_cases (motive := fun _ (x : Cpu N χ Λ) => x.proc = x.cur.current) c' hproc
    fun c' _ => h.proc c'
  one c1 c2 p := by
    simp only [St.setCpu]
    refine setAt_cases c1 (fun h1 => ?_) fun c1 hc1 h1 => ?_
    · exact setAt_cases c2 (fun _ => rfl) fun c2 hc2 h2 => absurd h2 (hone p h1 c2 hc2)
    · exact setAt_cases c2 (fun h2 => absurd h1 (hone p h2 c1 hc1)) fun c2 _ => h.one c1 c2 p h1
  fits c' p := by
    simp only [St.setCpu, St.setProc]
    refine setAt_cases c' (hfits p) fun c' hc => ?_
    exact setAt_cases p (hother c' hc) fun p _ => h.fits c' p
  parked p hp := by
    refine hparked p (by simpa [St.setCpu] using hp c) fun c' hc => ?_
    simpa [St.setCpu, St.setProc, setAt_of_ne _ _ hc] using hp c'
  noff c' := setAt_cases (motive := Counts s.lk) c' hnoff fun c' _ => h.noff c'

lemma Inv.held (hh : (s.cpu c).cur.holds = some q) (hx : x.cur.holds = some q)
    (hy : y.lock = (s.proc q).lock) (hn : x.noff = (s.cpu c).noff) :
    Inv ((s.setProc q y).setCpu c x) := by
  refine h.update hproc hone hfits hother hparked (fun p c' => ?_)
    (h.noff_same hn (by rw [hh, hx]))
  have hl : (setAt s.proc q y p).lock = (s.proc p).lock := map_setAt Proc.lock hy p
  have hc : (setAt s.cpu c x c').cur.holds = (s.cpu c').cur.holds :=
    map_setAt (fun x : Cpu N χ Λ => x.cur.holds) (hx.trans hh.symm) c'
  rw [hl, hc]
  exact h.lock p c'

end

lemma Inv.alone {p : Fin N} (ha : (s.cpu c).cur.about = some p) {c' : Fin C}
    (hc : c' ≠ c) : (s.cpu c').cur.about ≠ some p :=
  fun ha' => hc (h.one c' c p ha' ha)

lemma Inv.holder {p : Fin N} (hh : (s.cpu c).cur.holds = some p) {c' : Fin C}
    (hc : c' ≠ c) : (s.cpu c').cur.holds ≠ some p := by
  intro hh'
  have h1 := (h.lock p c).2 hh
  have h2 := (h.lock p c').2 hh'
  exact hc (Option.some.inj (h2.symm.trans h1))

lemma Inv.parked_of_ne {p : Fin N} (hc : (s.cpu c).cur.about ≠ some p)
    (ho : ∀ c', c' ≠ c → (s.cpu c').cur.about ≠ some p) : Parked (s.proc p) := by
  refine h.parked p fun c' => ?_
  by_cases he : c' = c
  · exact he ▸ hc
  · exact ho c' he

lemma Inv.own (ha : (s.cpu c).cur.about = some q) (hh : (s.cpu c).cur.holds = some q)
    (hx : x.cur.holds = some q) (hy : y.lock = (s.proc q).lock) (hproc : x.proc = x.cur.current)
    (hn : x.noff = (s.cpu c).noff) (hxa : x.cur.about = some q) (hfits : Fits x y) :
    Inv ((s.setProc q y).setCpu c x) := by
  refine h.held hproc ?_ ?_ ?_ ?_ hh hx hy hn
  · rintro p hp c' hc
    rw [hxa, Option.some.injEq] at hp
    exact hp ▸ h.alone ha hc
  · rintro p hp
    rw [hxa, Option.some.injEq] at hp
    subst hp
    simpa using hfits
  · exact fun c' hc ha' => absurd ha' (h.alone ha hc)
  · intro p hp ho
    have hpq : p ≠ q := fun e => hp (e ▸ hxa)
    rw [setAt_of_ne _ _ hpq]
    refine h.parked_of_ne (fun he => hpq ?_) ho
    exact Option.some.inj (he.symm.trans ha)

/-- The CPU goes on and is about the same process as before, if any; no entry changes. -/
lemma Inv.move {lk : Λ → Option (Fin C)} (hh : x.cur.holds = (s.cpu c).cur.holds)
    (hproc : x.proc = x.cur.current) (hxa : x.cur.about = (s.cpu c).cur.about)
    (hfits : ∀ p, x.cur.about = some p → Fits (s.cpu c) (s.proc p) → Fits x (s.proc p))
    (hnoff : Counts lk c x) (hlk : ∀ c', c' ≠ c → ∀ l, lk l = some c' ↔ s.lk l = some c') :
    Inv ⟨s.proc, setAt s.cpu c x, lk⟩ := by
  have hholds : ∀ c', (setAt s.cpu c x c').cur.holds = (s.cpu c').cur.holds :=
    map_setAt (fun x : Cpu N χ Λ => x.cur.holds) hh
  have habout : ∀ c', (setAt s.cpu c x c').cur.about = (s.cpu c').cur.about :=
    map_setAt (fun x : Cpu N χ Λ => x.cur.about) hxa
  refine ⟨fun p c' => ?_, fun c' => ?_, fun c1 c2 p h1 h2 => ?_, fun c' p => ?_, fun p hp => ?_,
    fun c' => ?_⟩
  · rw [hholds]
    exact h.lock p c'
  · exact setAt_cases (motive := fun _ (x : Cpu N χ Λ) => x.proc = x.cur.current) c' hproc
      fun c' _ => h.proc c'
  · exact h.one c1 c2 p ((habout c1).symm.trans h1) ((habout c2).symm.trans h2)
  · exact setAt_cases (motive := fun _ (x : Cpu N χ Λ) => x.cur.about = some p →
      Fits x (s.proc p)) c' (fun ha => hfits p ha (h.fits c p (hxa.symm.trans ha)))
      fun c' _ => h.fits c' p
  · exact h.parked p fun c' ha => hp c' ((habout c').trans ha)
  · refine setAt_cases (motive := Counts lk) c' hnoff fun c' hc => ?_
    obtain ⟨ls, hls, hn⟩ := h.noff c'
    exact ⟨ls, fun l => (hls l).trans (hlk c' hc l).symm, hn⟩

/-- The CPU goes on, about the same process as before; nothing else changes. -/
lemma Inv.go (hh : x.cur.holds = (s.cpu c).cur.holds)
    (hproc : x.proc = x.cur.current) (hn : x.noff = (s.cpu c).noff)
    (hxa : x.cur.about = (s.cpu c).cur.about)
    (hfits : ∀ p, x.cur.about = some p → Fits (s.cpu c) (s.proc p) → Fits x (s.proc p)) :
    Inv (s.setCpu c x) :=
  h.move hh hproc hxa hfits (h.noff_same hn (by rw [hh])) fun _ _ _ => Iff.rfl

lemma Inv.outside (hh : (s.cpu c).cur.holds = some q) (hx : x.cur.holds = some q)
    (hy : Outside (s.proc q) y) (hproc : x.proc = x.cur.current) (hn : x.noff = (s.cpu c).noff)
    (hxa : x.cur.about = (s.cpu c).cur.about)
    (hfits : ∀ p (y' : Proc N C χ Λ), x.cur.about = some p → Fits (s.cpu c) (s.proc p) →
      ((s.proc p).state = .running → y'.state = .running) → Fits x y') :
    Inv ((s.setProc q y).setCpu c x) := by
  refine h.held hproc ?_ ?_ ?_ ?_ hh hx hy.lock hn
  · exact fun p hp c' hc => h.alone (hxa.symm.trans hp) hc
  · intro p hp
    refine hfits p _ hp (h.fits c p (hxa.symm.trans hp)) ?_
    exact setAt_cases p hy.running fun _ _ => id
  · intro c' hc ha
    have hn' := h.holder hh hc
    have hf := h.fits c' q ha
    exact hf.of_running ha hn' (hy.running (hf.running ha hn'))
  · intro p hp ho
    have hpark := h.parked_of_ne (hxa ▸ hp) ho
    exact setAt_cases (motive := fun p y => Parked (s.proc p) → Parked y) p hy.parked
      (fun _ _ => id) hpark

lemma Inv.relock (hy : Similar (s.proc q) y) (hself : y.lock = some c ↔ x.cur.holds = some q)
    (hfree : ∀ c', c' ≠ c → y.lock ≠ some c' ∧ (s.cpu c').cur.holds ≠ some q)
    (hnone : ∀ p, p ≠ q → x.cur.holds ≠ some p ∧ (s.cpu c).cur.holds ≠ some p)
    (hproc : x.proc = x.cur.current) (hxa : x.cur.about = (s.cpu c).cur.about)
    (hfits : ∀ y' : Proc N C χ Λ, Fits (s.cpu c) y' → Fits x y') (hnoff : Counts s.lk c x) :
    Inv ((s.setProc q y).setCpu c x) := by
  have hsim : ∀ p, Similar (s.proc p) (setAt s.proc q y p) :=
    fun p => setAt_cases p hy fun _ _ => ⟨rfl, rfl, rfl⟩
  refine h.update hproc ?_ ?_ ?_ ?_ (fun p c' => ?_) hnoff
  · exact fun p hp c' hc => h.alone (hxa.symm.trans hp) hc
  · exact fun p hp => hfits _ ((h.fits c p (hxa.symm.trans hp)).similar (hsim p))
  · exact fun c' _ ha => (h.fits c' q ha).similar hy
  · exact fun p hp ho => (h.parked_of_ne (hxa ▸ hp) ho).similar (hsim p)
  · refine setAt_cases p ?_ fun p hp => ?_
    · exact setAt_cases c' hself fun c' hc => iff_of_false (hfree c' hc).1 (hfree c' hc).2
    · refine setAt_cases c' ?_ fun c' _ => h.lock p c'
      exact iff_of_false (fun hl => (hnone p hp).2 ((h.lock p c).1 hl)) (hnone p hp).1

end

/-! ## Locks -/

/-- Where a CPU uses a spinlock that is not a `p->lock`, or checks that it holds none. -/
def Ctl.other : Ctl N χ Λ → Bool
  | .proc _ (.at .run) | .proc _ (.at (.slept _)) | .proc _ (.sleep1 _ _) | .proc _ (.exit2 _)
  | .proc _ (.sched _) => true
  | _ => false

/-- What a step of the CPU `c` may lead to: the invariant holds again, or the step was a wrong use
of another spinlock by the process. -/
def Keeps (s : St N C χ Λ) (c : Fin C) : Outcome Panic (St N C χ Λ) → Prop
  | .ok s' => Inv s'
  | .blocked => True
  | .panic m => (s.cpu c).cur.other = true ∧ (m = .acquire ∨ m = .release ∨ m = .schedLocks)

lemma Inv.acquire (h : Inv s) {ctl : Ctl N χ Λ} (hh : (s.cpu c).cur.holds = none)
    (hx : ctl.holds = some q) (hcur : ctl.current = (s.cpu c).cur.current)
    (ha : ctl.about = (s.cpu c).cur.about)
    (hfits : ∀ n (y' : Proc N C χ Λ), Fits (s.cpu c) y' →
      Fits { s.cpu c with noff := n, cur := ctl } y') :
    Keeps s c (s.acquire c q ctl) := by
  unfold St.acquire
  cases hl : (s.proc q).lock with
  | some c' =>
    have hne : c' ≠ c := by
      rintro rfl
      rw [(h.lock q c').1 hl] at hh
      cases hh
    simp [hne, Keeps]
  | none =>
    refine h.relock ⟨rfl, rfl, rfl⟩ (iff_of_true rfl hx) (fun c' hc => ?_) (fun p hp => ?_)
      ((h.proc c).trans hcur.symm) ha (hfits _) ?_
    · have hne := mt (h.lock q c').2 (by rw [hl]; rintro ⟨⟩)
      exact ⟨fun he => hc (Option.some.inj he).symm, hne⟩
    · rw [hx, hh]
      exact ⟨fun he => hp (Option.some.inj he).symm, by rintro ⟨⟩⟩
    · obtain ⟨ls, hls, hn⟩ := h.noff c
      refine ⟨ls, hls, ?_⟩
      rw [hh] at hn
      simp only [hx, hn, Option.toList_none, Option.toList_some, List.length_nil,
        List.length_singleton]
      omega

lemma Inv.release (h : Inv s) {ctl : Ctl N χ Λ} (hh : (s.cpu c).cur.holds = some q)
    (hx : ctl.holds = none) (hcur : ctl.current = (s.cpu c).cur.current)
    (ha : ctl.about = (s.cpu c).cur.about)
    (hfits : ∀ n (y' : Proc N C χ Λ), Fits (s.cpu c) y' →
      Fits { s.cpu c with noff := n, cur := ctl } y') :
    Keeps s c (s.release c q ctl) := by
  have hl : (s.proc q).lock = some c := (h.lock q c).2 hh
  obtain ⟨ls, hls, hn⟩ := h.noff c
  rw [hh, Option.toList_some, List.length_singleton] at hn
  unfold St.release
  rw [if_neg (not_not.2 hl), if_neg (by omega)]
  refine h.relock ⟨rfl, rfl, rfl⟩ (iff_of_false (by rintro ⟨⟩) (by rw [hx]; rintro ⟨⟩))
    (fun c' hc => ⟨by rintro ⟨⟩, h.holder hh hc⟩) (fun p hp => ?_) ((h.proc c).trans hcur.symm) ha
    (hfits _) ⟨ls, hls, ?_⟩
  · rw [hx, hh]
    exact ⟨by rintro ⟨⟩, fun he => hp (Option.some.inj he).symm⟩
  · simp only [hx, hn, Option.toList_none, List.length_nil]
    omega

section

variable [DecidableEq Λ] (h : Inv s) (lk : Λ) {ctl : Ctl N χ Λ} (ho : (s.cpu c).cur.other = true)
  (hh : ctl.holds = (s.cpu c).cur.holds) (hcur : ctl.current = (s.cpu c).cur.current)
  (ha : ctl.about = (s.cpu c).cur.about)
  (hfits : ∀ n (y' : Proc N C χ Λ), Fits (s.cpu c) y' →
    Fits { s.cpu c with noff := n, cur := ctl } y')

include h ho hh hcur ha hfits

lemma Inv.acquireLk : Keeps s c (s.acquireLk c lk ctl) := by
  unfold St.acquireLk
  cases hl : s.lk lk with
  | some c' =>
    by_cases hc : c' = c
    · simp [hc, Keeps, ho]
    · simp [hc, Keeps]
  | none =>
    obtain ⟨ls, hls, hn⟩ := h.noff c
    have hlk : lk ∉ ls := by
      rw [hls, hl]
      simp
    refine h.move hh ((h.proc c).trans hcur.symm) ha (fun p _ hf => hfits _ _ hf)
      ⟨insert lk ls, fun l => ?_, ?_⟩ fun c' hc l => ?_
    · by_cases he : l = lk
      · simp [he]
      · simpa [he, setAt_of_ne _ _ he] using hls l
    · rw [Finset.card_insert_of_notMem hlk]
      simp only [hh, hn]
      omega
    · exact setAt_cases (motive := fun l o => o = some c' ↔ s.lk l = some c') l
        (by simp [hl, Ne.symm hc]) fun _ _ => Iff.rfl

lemma Inv.releaseLk : Keeps s c (s.releaseLk c lk ctl) := by
  unfold St.releaseLk
  by_cases hl : s.lk lk = some c
  swap
  · simp [hl, Keeps, ho]
  obtain ⟨ls, hls, hn⟩ := h.noff c
  have hlk : lk ∈ ls := (hls lk).2 hl
  have hpos : 0 < ls.card := Finset.card_pos.2 ⟨lk, hlk⟩
  rw [if_neg (not_not.2 hl), if_neg (by omega)]
  refine h.move hh ((h.proc c).trans hcur.symm) ha (fun p _ hf => hfits _ _ hf)
    ⟨ls.erase lk, fun l => ?_, ?_⟩ fun c' hc l => ?_
  · by_cases he : l = lk
    · simp [he]
    · simpa [he, setAt_of_ne _ _ he] using hls l
  · rw [Finset.card_erase_of_mem hlk]
    simp only [hh, hn]
    omega
  · exact setAt_cases (motive := fun l o => o = some c' ↔ s.lk l = some c') l
      (by simp [hl, Ne.symm hc]) fun _ _ => Iff.rfl

end

end

end Xv6.Switch
