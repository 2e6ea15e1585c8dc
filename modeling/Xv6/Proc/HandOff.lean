import Xv6.Proc.SwitchInvariant
import Mathlib.Algebra.GroupWithZero.Nat

/-!
# The hand-off of a process between CPUs

Every step of the kernel's switching keeps the invariant of `Proc/SwitchInvariant.lean`: first the
code of a process, then the scheduler.  From it, what holds in every reachable state (`HandOff`),
for any number of CPUs and processes and any interleaving.
-/

namespace Xv6.Switch

open Concur Sched

variable {N C : ℕ} {χ Λ : Type}

/-! ## The code of a process -/

section

variable {s : St N C χ Λ} {c : Fin C} {p q : Fin N} {pc pc' : ProcPc N χ Λ}

lemma fits_proc {x : Cpu N χ Λ} {y : Proc N C χ Λ} (hx : x.cur = .proc p pc) :
    Fits x y ↔ pc.Fits y ∧ x.context = p := by
  unfold Fits
  rw [hx]

section

variable (h : Inv s) (hcur : (s.cpu c).cur = .proc p pc)

include h hcur

lemma Inv.fits_self : pc.Fits (s.proc p) :=
  ((fits_proc hcur).1 (h.fits c p (by rw [hcur]; rfl))).1

lemma Inv.context_self : (s.cpu c).context = p :=
  ((fits_proc hcur).1 (h.fits c p (by rw [hcur]; rfl))).2

lemma Inv.proc_self : (s.cpu c).proc = some p := by
  rw [h.proc c, hcur]
  rfl

lemma Inv.go_proc (hh : pc'.holds p = pc.holds p)
    (hf : pc.Fits (s.proc p) → pc'.Fits (s.proc p)) : Inv (s.goto c (.proc p pc')) := by
  refine h.go (by rw [hcur]; exact hh) (h.proc_self hcur) rfl (by rw [hcur]; rfl) ?_
  rintro p' hp' -
  obtain rfl : p = p' := Option.some.inj hp'
  exact ⟨hf (h.fits_self hcur), h.context_self hcur⟩

lemma Inv.fits_goto (hf : ∀ y : Proc N C χ Λ, pc.Fits y → pc'.Fits y) (n : ℕ) (y : Proc N C χ Λ)
    (hy : Fits (s.cpu c) y) : Fits { s.cpu c with noff := n, cur := .proc p pc' } y :=
  ⟨hf y ((fits_proc hcur).1 hy).1, h.context_self hcur⟩

lemma Inv.acquire_proc (hh : pc.holds p = none)
    (hx : pc'.holds p = some q) (hf : ∀ y : Proc N C χ Λ, pc.Fits y → pc'.Fits y) :
    Keeps s c (s.acquire c q (.proc p pc')) :=
  h.acquire (by rw [hcur]; exact hh) hx (by rw [hcur]; rfl) (by rw [hcur]; rfl)
    (h.fits_goto hcur hf)

lemma Inv.release_proc (hh : pc.holds p = some q) (hx : pc'.holds p = none)
    (hf : ∀ y : Proc N C χ Λ, pc.Fits y → pc'.Fits y) :
    Keeps s c (s.release c q (.proc p pc')) :=
  h.release (by rw [hcur]; exact hh) hx (by rw [hcur]; rfl) (by rw [hcur]; rfl)
    (h.fits_goto hcur hf)

lemma Inv.own_proc {y : Proc N C χ Λ}
    (hh : pc.holds p = some p) (hx : pc'.holds p = some p) (hy : y.lock = (s.proc p).lock)
    (hf : pc'.Fits y) : Inv ((s.setProc p y).goto c (.proc p pc')) :=
  h.own (by rw [hcur]; rfl) (by rw [hcur]; exact hh) hx hy (h.proc_self hcur) rfl rfl
    ⟨hf, h.context_self hcur⟩

lemma Inv.outside_proc {y : Proc N C χ Λ}
    (hh : pc.holds p = some q) (hx : pc'.holds p = some q) (hy : Outside (s.proc q) y)
    (hf : ∀ y y' : Proc N C χ Λ, pc.Fits y → (y.state = .running → y'.state = .running) →
      pc'.Fits y') :
    Inv ((s.setProc q y).goto c (.proc p pc')) := by
  refine h.outside (by rw [hcur]; exact hh) hx hy (h.proc_self hcur) rfl (by rw [hcur]; rfl) ?_
  rintro p' y' hp' - hr
  obtain rfl : p = p' := Option.some.inj hp'
  exact ⟨hf _ _ (h.fits_self hcur) hr, h.context_self hcur⟩

end

section

variable [DecidableEq Λ]

lemma Inv.acquireLk_proc (h : Inv s) (lk : Λ) (hcur : (s.cpu c).cur = .proc p pc)
    (ho : (Ctl.proc p pc).other = true) (hh : pc'.holds p = pc.holds p)
    (hf : ∀ y : Proc N C χ Λ, pc.Fits y → pc'.Fits y) :
    Keeps s c (s.acquireLk c lk (.proc p pc')) :=
  h.acquireLk lk (by rw [hcur]; exact ho) (by rw [hcur]; exact hh) (by rw [hcur]; rfl)
    (by rw [hcur]; rfl) (h.fits_goto hcur hf)

lemma Inv.releaseLk_proc (h : Inv s) (lk : Λ) (hcur : (s.cpu c).cur = .proc p pc)
    (ho : (Ctl.proc p pc).other = true) (hh : pc'.holds p = pc.holds p)
    (hf : ∀ y : Proc N C χ Λ, pc.Fits y → pc'.Fits y) :
    Keeps s c (s.releaseLk c lk (.proc p pc')) :=
  h.releaseLk lk (by rw [hcur]; exact ho) (by rw [hcur]; exact hh) (by rw [hcur]; rfl)
    (by rw [hcur]; rfl) (h.fits_goto hcur hf)

end

lemma Inv.swtch3 (h : Inv s) (hcur : (s.cpu c).cur = .proc p .swtch3) :
    Inv (s.goto c (.sched (.done (s.cpu c).context))) := by
  have hpark : Parked (s.proc p) := h.fits_self hcur
  have hh : (s.cpu c).cur.holds = some p := by rw [hcur]; rfl
  have ha : (s.cpu c).cur.about = some p := by rw [hcur]; rfl
  rw [h.context_self hcur]
  have hset : s.setProc p (s.proc p) = s := by
    unfold St.setProc
    rw [setAt_eq_self]
  have hinv : Inv ((s.setProc p (s.proc p)).setCpu c
      { s.cpu c with cur := .sched (.done p) }) := by
    refine h.held (h.proc_self hcur) ?_ ?_ ?_ ?_ hh rfl rfl rfl
    · rintro _ ⟨⟩
    · rintro _ ⟨⟩
    · exact fun c' hc ha' => absurd ha' (h.alone ha hc)
    · intro p' _ ho
      rw [setAt_eq_self]
      by_cases hpp : p' = p
      · exact hpp ▸ hpark
      · refine h.parked_of_ne (fun he => hpp ?_) ho
        exact Option.some.inj (he.symm.trans ha)
  rwa [hset] at hinv

variable [DecidableEq χ] [DecidableEq Λ]

lemma Inv.stepAt (h : Inv s) {a : Point N χ Λ} (hcur : (s.cpu c).cur = .proc p (.at a))
    (cmd : Cmd χ Λ) : Keeps s c (stepAt c p cmd a s) := by
  unfold Switch.stepAt
  split
  · split
    · exact h.go_proc hcur rfl id
    · trivial
  · split
    · exact h.go_proc hcur rfl id
    · trivial
  · exact h.go_proc hcur rfl id
  · exact h.go_proc hcur rfl id
  · exact h.go_proc hcur rfl id
  · exact h.acquireLk_proc _ hcur rfl rfl fun _ => id
  · exact h.releaseLk_proc _ hcur rfl rfl fun _ => id
  · exact h
  · split
    · exact h.go_proc hcur rfl id
    · exact h.acquire_proc hcur rfl rfl fun _ => id
  · exact h.acquire_proc hcur rfl rfl fun _ => id
  · exact h.acquire_proc hcur rfl rfl fun _ => id
  · exact h.acquireLk_proc _ hcur rfl rfl fun _ => id
  · exact h.acquire_proc hcur rfl rfl fun _ => id

lemma Inv.stepProc (h : Inv s) (hcur : (s.cpu c).cur = .proc p pc) (cmd : Cmd χ Λ) :
    Keeps s c (stepProc c p cmd pc s) := by
  have hf := h.fits_self hcur
  cases pc with
  | «at» a => exact h.stepAt hcur cmd
  | wakeup1 ch q k =>
    exact h.outside_proc hcur rfl rfl (Proc.wake_outside ch _) fun _ _ hy hr => hr hy
  | wakeup2 ch q k => exact h.release_proc hcur rfl rfl fun _ => id
  | kill1 pid q =>
    simp only [Switch.stepProc]
    split
    · exact h.outside_proc hcur rfl rfl (Proc.kill_outside _) fun _ _ hy hr => hr hy
    · exact h.go_proc hcur rfl id
  | kill2 pid q found => exact h.release_proc hcur rfl rfl fun _ => id
  | yield0 a => exact h.acquire_proc hcur rfl rfl fun _ => id
  | yield1 a => exact h.own_proc hcur rfl rfl rfl ⟨by rintro ⟨⟩, by rintro ⟨⟩⟩
  | sleep1 ch lk => exact h.releaseLk_proc lk hcur rfl rfl fun _ => id
  | sleep2 ch lk => exact h.own_proc hcur rfl rfl rfl ⟨by rintro ⟨⟩, by rintro ⟨⟩⟩
  | exit1 lk => exact h.own_proc hcur rfl rfl rfl rfl
  | exit2 lk =>
    refine h.releaseLk_proc lk hcur rfl rfl fun y hy => ?_
    have hz : y.state = .zombie := hy
    exact ⟨by rw [hz]; decide, fun _ => hz⟩
  | sched k =>
    have hl : (s.proc p).lock = some c := (h.lock p c).2 (by rw [hcur]; rfl)
    simp only [Switch.stepProc]
    rw [if_neg (not_not.2 hl)]
    split
    · exact ⟨by rw [hcur]; rfl, .inr (.inr rfl)⟩
    · rw [if_neg hf.1]
      exact h.go_proc hcur rfl id
  | swtch1 k => exact h.own_proc hcur rfl rfl rfl ⟨hf.1, hf.2, rfl⟩
  | swtch2 k =>
    obtain ⟨hrun, hz, hra⟩ := hf
    exact h.own_proc hcur rfl rfl rfl ⟨hrun, hra, rfl, fun he => hz (hra.symm.trans he)⟩
  | swtch3 => exact h.swtch3 hcur
  | back ra sp =>
    obtain ⟨hrun, rfl, hne⟩ := hf
    simp only [Switch.stepProc, ne_eq, not_true_eq_false, if_false]
    cases ra with
    | yield a => exact h.release_proc hcur rfl rfl fun _ hy => hy.1
    | sleep lk => exact h.own_proc hcur rfl rfl rfl hrun
    | exit => exact absurd rfl hne
    | forkret => exact h.release_proc hcur rfl rfl fun _ hy => hy.1
  | sleep3 lk => exact h.release_proc hcur rfl rfl fun _ => id

end

/-! ## The scheduler -/

section

variable {s : St N C χ Λ} {c : Fin C} {p q : Fin N} {pc pc' : SchedPc N χ Λ}

lemma Inv.go_idle (h : Inv s) (hcur : (s.cpu c).cur = .sched pc)
    (hh : pc'.holds = pc.holds) (hc : (Ctl.sched pc').current = (Ctl.sched pc).current)
    (ha : (Ctl.sched pc).about = none) (ha' : (Ctl.sched pc').about = none) :
    Inv (s.goto c (.sched pc')) := by
  refine h.go (by rw [hcur]; exact hh) ?_ rfl (by rw [hcur]; exact ha'.trans ha.symm) ?_
  · rw [hc, ← hcur]
    exact h.proc c
  · intro p hp
    exact absurd (ha'.symm.trans hp) (by rintro ⟨⟩)

lemma Inv.choose (h : Inv s) (hcur : (s.cpu c).cur = .sched (.look p))
    (hr : (s.proc p).state = .runnable) :
    Inv ((s.setProc p { s.proc p with state := .running }).goto c (.sched (.choose p))) := by
  have hh : (s.cpu c).cur.holds = some p := by rw [hcur]; rfl
  have ha : (s.cpu c).cur.about = none := by rw [hcur]; rfl
  -- a CPU about `p` would run it without its lock, and `p` would be `RUNNING`
  have hfree : ∀ c', (s.cpu c').cur.about ≠ some p := by
    intro c' ha'
    by_cases hc : c' = c
    · rw [hc, ha] at ha'
      cases ha'
    · have := (h.fits c' p ha').running ha' (h.holder hh hc)
      rw [hr] at this
      cases this
  have hpark := h.parked p hfree
  refine h.held ?_ ?_ ?_ ?_ ?_ hh rfl rfl rfl
  · have := h.proc c
    rw [hcur] at this
    exact this
  · intro p' hp' c' _
    obtain rfl : p = p' := Option.some.inj hp'
    exact hfree c'
  · intro p' hp'
    obtain rfl : p = p' := Option.some.inj hp'
    rw [setAt_self]
    refine ⟨rfl, hpark.whole, hpark.saved, fun he => ?_⟩
    have := hpark.zombie he
    rw [hr] at this
    cases this
  · exact fun c' _ ha' => absurd ha' (hfree c')
  · intro p' hp' ho
    have hpp : p' ≠ p := fun e => hp' (by rw [e]; rfl)
    rw [setAt_of_ne _ _ hpp]
    exact h.parked_of_ne (by rw [ha]; rintro ⟨⟩) ho

section

variable (h : Inv s) (hcur : (s.cpu c).cur = .sched pc)

include h hcur

lemma Inv.fits_sched (ha : (Ctl.sched pc).about = some p) : Fits (s.cpu c) (s.proc p) :=
  h.fits c p (by rw [hcur]; exact ha)

lemma Inv.acquire_sched (hh : pc.holds = none)
    (hx : pc'.holds = some q) (hc : (Ctl.sched pc').current = (Ctl.sched pc).current)
    (ha : (Ctl.sched pc').about = (Ctl.sched pc).about)
    (hf : ∀ n (y : Proc N C χ Λ), Fits { s.cpu c with noff := n, cur := .sched pc' } y) :
    Keeps s c (s.acquire c q (.sched pc')) :=
  h.acquire (by rw [hcur]; exact hh) hx (by rw [hcur]; exact hc) (by rw [hcur]; exact ha)
    fun n y _ => hf n y

lemma Inv.release_sched (hh : pc.holds = some q)
    (hx : pc'.holds = none) (hc : (Ctl.sched pc').current = (Ctl.sched pc).current)
    (ha : (Ctl.sched pc').about = (Ctl.sched pc).about)
    (hf : ∀ n (y : Proc N C χ Λ), Fits { s.cpu c with noff := n, cur := .sched pc' } y) :
    Keeps s c (s.release c q (.sched pc')) :=
  h.release (by rw [hcur]; exact hh) hx (by rw [hcur]; exact hc) (by rw [hcur]; exact ha)
    fun n y _ => hf n y

end

variable [DecidableEq χ]

lemma Inv.stepSched (h : Inv s) (hcur : (s.cpu c).cur = .sched pc) (cmd : Cmd χ Λ) :
    Keeps s c (stepSched c cmd pc s) := by
  cases pc with
  | pick p =>
    simp only [Switch.stepSched]
    split
    · exact h.go_idle hcur rfl rfl rfl rfl
    · exact h.acquire_sched hcur rfl rfl rfl rfl fun _ _ => trivial
  | look p =>
    simp only [Switch.stepSched]
    split
    case isTrue hr => exact h.choose hcur hr
    case isFalse => exact h.go_idle hcur rfl rfl rfl rfl
  | choose p =>
    have hf : Fits (s.cpu c) (s.proc p) := h.fits_sched hcur rfl
    refine h.go (by rw [hcur]; rfl) rfl rfl (by rw [hcur]; rfl) fun p' hp' _ => ?_
    obtain rfl : p = p' := Option.some.inj hp'
    unfold Fits at hf
    rw [hcur] at hf
    exact hf
  | save p =>
    have hf : Fits (s.cpu c) (s.proc p) := h.fits_sched hcur rfl
    have hproc : (s.cpu c).proc = some p := by rw [h.proc c, hcur]; rfl
    refine h.go (by rw [hcur]; rfl) hproc rfl (by rw [hcur]; rfl) fun p' hp' _ => ?_
    obtain rfl : p = p' := Option.some.inj hp'
    unfold Fits at hf
    rw [hcur] at hf
    exact ⟨hf, rfl⟩
  | load1 p =>
    have hf : Fits (s.cpu c) (s.proc p) := h.fits_sched hcur rfl
    have hproc : (s.cpu c).proc = some p := by rw [h.proc c, hcur]; rfl
    refine h.go (by rw [hcur]; rfl) hproc rfl (by rw [hcur]; rfl) fun p' hp' _ => ?_
    obtain rfl : p = p' := Option.some.inj hp'
    unfold Fits at hf
    rw [hcur] at hf
    exact ⟨hf.1, hf.2, rfl⟩
  | load2 p ra =>
    have hf : Fits (s.cpu c) (s.proc p) := h.fits_sched hcur rfl
    have hproc : (s.cpu c).proc = some p := by rw [h.proc c, hcur]; rfl
    unfold Fits at hf
    rw [hcur] at hf
    obtain ⟨hready, hctx, rfl⟩ := hf
    exact h.own (by rw [hcur]; rfl) (by rw [hcur]; rfl) rfl rfl hproc rfl rfl
      ⟨⟨hready.state, hready.whole, hready.alive⟩, hctx⟩
  | done p =>
    refine h.go (by rw [hcur]; rfl) rfl rfl (by rw [hcur]; rfl) fun p' hp' => ?_
    cases hp'
  | drop p => exact h.release_sched hcur rfl rfl rfl rfl fun _ _ => trivial
  | wakeup ch q p => exact h.acquire_sched hcur rfl rfl rfl rfl fun _ _ => trivial
  | wakeup1 ch q p =>
    have hproc : (s.cpu c).proc = none := by rw [h.proc c, hcur]; rfl
    exact h.outside (by rw [hcur]; rfl) rfl (Proc.wake_outside ch _) hproc rfl (by rw [hcur]; rfl)
      (by rintro _ _ ⟨⟩)
  | wakeup2 ch q p =>
    simp only [Switch.stepSched]
    split <;> exact h.release_sched hcur rfl rfl rfl rfl fun _ _ => trivial

end

/-! ## All runs -/

section

variable [DecidableEq χ] [DecidableEq Λ] {s s' : St N C χ Λ}

lemma Inv.step (h : Inv s) (c : Fin C) (cmd : Cmd χ Λ) : Keeps s c (step c cmd s) := by
  unfold Switch.step
  cases hcur : (s.cpu c).cur with
  | sched pc => exact h.stepSched hcur cmd
  | proc p pc => exact h.stepProc hcur cmd

omit [DecidableEq χ] [DecidableEq Λ] in
lemma inv_init (used : Fin N → Bool) (pid : Fin N → ℕ) (p : Fin N) :
    Inv (init used pid p : St N C χ Λ) where
  lock _ _ := ⟨by rintro ⟨⟩, by rintro ⟨⟩⟩
  proc _ := rfl
  one _ _ _ := by rintro ⟨⟩
  fits _ _ := by rintro ⟨⟩
  parked q _ := by
    refine ⟨?_, rfl, rfl, by rintro ⟨⟩⟩
    simp only [init]
    split <;> decide
  noff _ := ⟨∅, by simp [init], rfl⟩

lemma Inv.reaches (h : Inv s) (hr : Reaches s s') : Inv s' := by
  induction hr with
  | refl => exact h
  | tail c cmd _ hstep ih =>
    have hk := ih.step c cmd
    rwa [hstep] at hk

lemma exec_reaches {es : List (Fin C × Cmd χ Λ)} (h : exec s es = .ok s') : Reaches s s' := by
  -- the runs grow at their end, the schedule at its front
  suffices ∀ s0 s1, Reaches s0 s1 → exec s1 es = .ok s' → Reaches s0 s' from
    this s s (.refl s) h
  clear h
  induction es with
  | nil =>
    rintro s0 s1 hr h
    cases h
    exact hr
  | cons e es ih =>
    rintro s0 s1 hr h
    obtain ⟨c, cmd⟩ := e
    obtain ⟨s2, h2, h3⟩ := Outcome.bind_eq_ok.1 h
    exact ih s0 s2 (.tail c cmd hr h2) h3

end

/-- Where a CPU releases the lock of a process. -/
def Ctl.releases : Ctl N χ Λ → Option (Fin N)
  | .sched (.drop p) => some p
  | .sched (.wakeup2 _ q _) => some q
  | .proc _ (.wakeup2 _ q _) => some q
  | .proc _ (.kill2 _ q _) => some q
  | .proc p (.back (.yield _) _) | .proc p (.back .forkret _) | .proc p (.sleep3 _) => some p
  | _ => none

/-- What the scheduler, `sched`, `swtch` and the routines that call `sched` guarantee together. -/
structure HandOff [DecidableEq χ] [DecidableEq Λ] (s : St N C χ Λ) : Prop where
  /-- A process is on one CPU at most. -/
  one : ∀ p c c' pc pc', (s.cpu c).cur = .proc p pc → (s.cpu c').cur = .proc p pc' → c = c'
  /-- A process that is `RUNNING` is on exactly one CPU, or has been chosen by it. -/
  running : ∀ p, (s.proc p).state = .running → ∃! c, (s.cpu c).cur.about = some p
  /-- `c->proc` is the process that the CPU runs … -/
  runs : ∀ c p pc, (s.cpu c).cur = .proc p pc → (s.cpu c).proc = some p
  /-- … and otherwise is set only around `swtch`, while the scheduler holds the lock. -/
  proc : ∀ c p, (s.cpu c).proc = some p →
    (∃ pc, (s.cpu c).cur = .proc p pc) ∨
      ∃ pc, (s.cpu c).cur = .sched pc ∧ pc.holds = some p ∧ (s.proc p).lock = some c
  /-- A scheduler loads a context only after the `swtch` of its process has stored all of it, and
  while that process executes nowhere. -/
  load : ∀ c p, ((s.cpu c).cur = .sched (.load1 p) ∨ ∃ ra, (s.cpu c).cur = .sched (.load2 p ra)) →
    (s.proc p).saved = true ∧ (s.proc p).context.ra = (s.proc p).context.sp ∧
      ∀ c' pc, (s.cpu c').cur ≠ .proc p pc
  /-- The lock of a process is held by the party that holds it by the protocol, … -/
  lock : ∀ p c, (s.proc p).lock = some c ↔ (s.cpu c).cur.holds = some p
  /-- … which is the one that releases it: the release succeeds. -/
  release : ∀ c p cmd, (s.cpu c).cur.releases = some p →
    (s.proc p).lock = some c ∧ ∃ s', step c cmd s = .ok s' ∧ (s'.proc p).lock = none
  /-- The machine stops only if a process uses another spinlock wrongly, or sleeps with one. -/
  panic : ∀ c cmd m, step c cmd s = .panic m →
    (s.cpu c).cur.other = true ∧ (m = .acquire ∨ m = .release ∨ m = .schedLocks)

section

variable {s : St N C χ Λ} {c : Fin C} {p : Fin N}

lemma Ctl.holds_of_releases {ctl : Ctl N χ Λ} (h : ctl.releases = some p) :
    ctl.holds = some p := by
  unfold Ctl.releases at h
  split at h <;> first | exact h | cases h

lemma Inv.release_ok (h : Inv s) (hh : (s.cpu c).cur.holds = some p) (ctl : Ctl N χ Λ) :
    ∃ s', s.release c p ctl = .ok s' ∧ (s'.proc p).lock = none := by
  have hl : (s.proc p).lock = some c := (h.lock p c).2 hh
  obtain ⟨ls, -, hn⟩ := h.noff c
  rw [hh, Option.toList_some, List.length_singleton] at hn
  unfold St.release
  rw [if_neg (not_not.2 hl), if_neg (by omega)]
  exact ⟨_, rfl, by simp [St.setCpu, St.setProc]⟩

lemma Inv.load (h : Inv s)
    (hcur : (s.cpu c).cur = .sched (.load1 p) ∨ ∃ ra, (s.cpu c).cur = .sched (.load2 p ra)) :
    Ready (s.proc p) ∧ ∀ c' pc, (s.cpu c').cur ≠ .proc p pc := by
  have ha : (s.cpu c).cur.about = some p := by
    rcases hcur with hcur | ⟨ra, hcur⟩ <;> rw [hcur] <;> rfl
  refine ⟨?_, fun c' pc hc' => ?_⟩
  · have hf := h.fits c p ha
    unfold Fits at hf
    rcases hcur with hcur | ⟨ra, hcur⟩ <;> rw [hcur] at hf
    · exact hf.1
    · exact hf.1
  · obtain rfl : c' = c := h.one c' c p (by rw [hc']; rfl) ha
    rcases hcur with hcur | ⟨ra, hcur⟩ <;> rw [hcur] at hc' <;> cases hc'

variable [DecidableEq χ] [DecidableEq Λ]

lemma Inv.step_releases (h : Inv s) (hr : (s.cpu c).cur.releases = some p) (cmd : Cmd χ Λ) :
    ∃ ctl, Switch.step c cmd s = s.release c p ctl := by
  unfold Switch.step
  cases hcur : (s.cpu c).cur with
  | sched pc =>
    rw [hcur] at hr
    cases pc <;> cases hr <;> exact ⟨_, rfl⟩
  | proc q pc =>
    rw [hcur] at hr
    cases pc with
    | back ra sp =>
      obtain ⟨-, rfl, -⟩ := h.fits_self hcur
      simp only [Switch.stepProc, ne_eq, not_true_eq_false, if_false]
      cases ra <;> cases hr <;> exact ⟨_, rfl⟩
    | _ => cases hr <;> exact ⟨_, rfl⟩

lemma Inv.handOff (h : Inv s) : HandOff s where
  one p c c' pc pc' hc hc' := h.one c c' p (by rw [hc]; rfl) (by rw [hc']; rfl)
  running p hr := by
    by_contra hno
    refine (h.parked p fun c ha => hno ⟨c, ha, fun c' ha' => ?_⟩).state hr
    exact h.one c' c p ha' ha
  runs c p pc hcur := h.proc_self hcur
  proc c p hp := by
    rw [h.proc c] at hp
    cases hcur : (s.cpu c).cur with
    | proc q pc =>
      rw [hcur] at hp
      obtain rfl : q = p := Option.some.inj hp
      exact .inl ⟨pc, rfl⟩
    | sched pc =>
      rw [hcur] at hp
      have hh : pc.holds = some p := by cases pc <;> first | exact hp | cases hp
      exact .inr ⟨pc, rfl, hh, (h.lock p c).2 (by rw [hcur]; exact hh)⟩
  load c p hcur := by
    obtain ⟨hready, hno⟩ := h.load hcur
    exact ⟨hready.saved, hready.whole, hno⟩
  lock := h.lock
  release c p cmd hr := by
    have hh := Ctl.holds_of_releases hr
    obtain ⟨ctl, hstep⟩ := h.step_releases hr cmd
    refine ⟨(h.lock p c).2 hh, ?_⟩
    rw [hstep]
    exact h.release_ok hh ctl
  panic c cmd m hm := by
    have hk := h.step c cmd
    rwa [hm] at hk

end

/-- In every reachable state, for any number of CPUs and processes: a process is on one CPU at
most, `c->proc` is the process that the CPU runs, a context is loaded only when it is whole and its
process executes nowhere, and the lock of a process is released by the party that holds it. -/
theorem reachable_handOff {N C : ℕ} {χ Λ : Type} [DecidableEq χ] [DecidableEq Λ]
    (used : Fin N → Bool) (pid : Fin N → ℕ) (p : Fin N) {s : St N C χ Λ}
    (h : Reaches (init used pid p) s) : HandOff s :=
  ((inv_init used pid p).reaches h).handOff

local instance neZero_cpus : NeZero 2 := ⟨two_ne_zero⟩

/-- One process on the first of two CPUs goes to sleep, an interrupt on the second CPU wakes it up,
and the second CPU is about to load its context. -/
def sleepAndWake : List (Fin 2 × Cmd Unit Unit) :=
  List.replicate 7 (0, .next) ++ [(0, .acquire ()), (0, .sleep () ()), (0, .next), (0, .next),
    (0, .next)] ++ [(1, .wakeup ())] ++ List.replicate 6 (0, .next) ++
    List.replicate 3 (1, .next) ++ List.replicate 4 (1, .next)

theorem reachable_handOff_sleepAndWake :
    ∃ s : St 1 2 Unit Unit, Reaches (init (fun _ => true) (fun _ => 1) 0) s ∧
      ((s.cpu 1).cur matches .sched (.load1 _)) = true ∧ HandOff s := by
  have hrun : (exec (init (fun _ => true) (fun _ => 1) 0 : St 1 2 Unit Unit) sleepAndWake).any
      (fun s => (s.cpu 1).cur matches .sched (.load1 _)) = true := by decide +kernel
  obtain ⟨s, hs, hload⟩ := Outcome.eq_ok_of_any hrun
  have hr := exec_reaches hs
  exact ⟨s, hr, hload, reachable_handOff _ _ _ hr⟩

end Xv6.Switch
