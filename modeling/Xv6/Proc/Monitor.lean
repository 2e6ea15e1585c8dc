import Xv6.Framework.Logic
import Xv6.Proc.Sleep

/-!
# Rules for routines that sleep and wake up

Processes share data under one lock and sleep on channels while a condition does not hold.
What the rules need to know is when a channel is *ready*, that is when its sleepers should not
sleep.  The invariant `Inv` says that a process that sleeps on a ready channel, or is on its way
to, has its wakeup coming: a process that holds the lock is in `wakeup` for the channel, or owes
it one (`Wake.owes`).  So nobody sleeps on a ready channel when the lock is free.

A process that has called `wakeup` and kept the lock knows that nobody sleeps on the channel
(`Wake.clear`) and may make it ready.  Which wakeups are due is part of the process's ghost,
next to where it is in `sleep` and `wakeup` (`Phase`) and to what the client remembers.
-/

namespace Xv6.Sched

open Concur

/-- Where a process is with respect to the locks. -/
inductive Phase (χ : Type) where
  /-- It holds no lock. -/
  | out
  /-- It holds the lock. -/
  | locked
  /-- In `sleep`, with the lock and its `p->lock`. -/
  | drowsy (c : χ)
  /-- In `sleep`, with its `p->lock` only. -/
  | dozing (c : χ)
  /-- In `sleep`, after `sched()`. -/
  | asleep (c : χ)
  /-- In `wakeup`, with the lock, before the process with this index. -/
  | waking (c : χ) (j : ℕ)
  /-- In `exit`, with the lock and its `p->lock`. -/
  | leavingLocked
  /-- In `exit`, with its `p->lock` only. -/
  | leaving

namespace Phase

variable {χ : Type}

def holds : Phase χ → Bool
  | locked | drowsy _ | waking _ _ | leavingLocked => true
  | _ => false

def holdsProc : Phase χ → Bool
  | drowsy _ | dozing _ | leavingLocked | leaving => true
  | _ => false

/-- The channel that the process is going to sleep on. -/
def sleepy : Phase χ → Option χ
  | drowsy c | dozing c => some c
  | _ => none

lemma holdsProc_of_sleepy {ph : Phase χ} {c : χ} (h : ph.sleepy = some c) :
    ph.holdsProc = true := by
  cases ph <;> first | rfl | cases h

/-- The process holds the lock and is neither in `sleep` nor in `wakeup`. -/
def Steady (ph : Phase χ) : Prop := ph = locked ∨ ph = leavingLocked

/-- Where a process is after it has released the lock. -/
def unlocked : Phase χ → Phase χ
  | leavingLocked => leaving
  | _ => out

namespace Steady

variable {ph : Phase χ}

lemma holds (h : ph.Steady) : ph.holds = true := by
  rcases h with rfl | rfl <;> rfl

lemma sleepy_eq (h : ph.Steady) : ph.sleepy = none := by
  rcases h with rfl | rfl <;> rfl

lemma ne_waking (h : ph.Steady) (c : χ) (j : ℕ) : ph ≠ waking c j := by
  rcases h with rfl | rfl <;> rintro ⟨⟩

lemma ne_asleep (h : ph.Steady) (c : χ) : ph ≠ asleep c := by
  rcases h with rfl | rfl <;> rintro ⟨⟩

lemma unlocked_holds (h : ph.Steady) : ph.unlocked.holds = false := by
  rcases h with rfl | rfl <;> rfl

lemma unlocked_holdsProc (h : ph.Steady) : ph.unlocked.holdsProc = ph.holdsProc := by
  rcases h with rfl | rfl <;> rfl

lemma unlocked_sleepy (h : ph.Steady) : ph.unlocked.sleepy = none := by
  rcases h with rfl | rfl <;> rfl

end Steady

end Phase

/-- What a process that holds the lock has to do, or has done, for the sleepers of a channel. -/
inductive Wake where
  | idle
  | owes
  | clear
  deriving DecidableEq

structure Ghost (χ Γ : Type) where
  phase : Phase χ
  wake : χ → Wake
  user : Γ

variable {N : ℕ} {χ δ σ Γ : Type}

/-- What the memory says about one process. -/
structure At (m : Mem N χ δ σ) (u : Fin N) (ph : Phase χ) : Prop where
  lock : m.lock = some u ↔ ph.holds = true
  proc : (m.proc u).lock = if ph.holdsProc then some u else none
  asleep : (m.proc u).state = .sleeping → ∃ c, ph = .asleep c ∧ (m.proc u).chan = some c

/-- The process sleeps on the channel, or is on its way to. -/
def Drowsing (m : Mem N χ δ σ) (L : Fin N → Ghost χ Γ) (u : Fin N) (c : χ) : Prop :=
  (L u).phase.sleepy = some c ∨ ((m.proc u).state = .sleeping ∧ (m.proc u).chan = some c)

/-- The states of a process that is in use and has not exited. -/
def ProcState.Active (s : ProcState) : Prop := s = .sleeping ∨ s = .runnable ∨ s = .running

/-- The two memories differ in the locks and in what sleeping and scheduling change. -/
structure Quiet (m m' : Mem N χ δ σ) : Prop where
  data : m'.data = m.data
  priv : ∀ u, (m'.proc u).priv = (m.proc u).priv
  state : ∀ u, (m'.proc u).state = (m.proc u).state ∨
    ((m.proc u).state.Active ∧ (m'.proc u).state.Active)

/-- A process that sleeps afterwards slept before, on the same channel. -/
def Proc.Rests (x x' : Proc N χ δ) : Prop :=
  x'.state = .sleeping → x.state = .sleeping ∧ x'.chan = x.chan

/-! ## What the memory says about each process, after a change -/

section At

variable {m m' : Mem N χ δ σ} {L : Fin N → Ghost χ Γ} {t u p : Fin N} {l : Ghost χ Γ}
  {ph : Phase χ} {x : Proc N χ δ}

lemma rests_setAt {f : Fin N → Proc N χ δ} (h : (f p).Rests x) (u : Fin N) :
    (f u).Rests (setAt f p x u) :=
  setAt_cases u h fun _ _ hs => ⟨hs, rfl⟩

lemma rests_setProc (hu : u ≠ p) : (m.proc u).Rests ((m.setProc p x).proc u) := by
  rw [Mem.setProc_proc, setAt_of_ne _ _ hu]
  exact fun hs => ⟨hs, rfl⟩

lemma At.congr (h : At m u ph) (hlock : m'.lock = some u ↔ m.lock = some u)
    (hp : (m'.proc u).lock = (m.proc u).lock) (hs : (m.proc u).Rests (m'.proc u)) :
    At m' u ph := by
  refine ⟨hlock.trans h.lock, hp.trans h.proc, fun hsl => ?_⟩
  rw [(hs hsl).2]
  exact h.asleep (hs hsl).1

lemma At.setProc (h : At m u ph) (hu : u ≠ p) : At (m.setProc p x) u ph :=
  h.congr Iff.rfl (by rw [Mem.setProc_proc, setAt_of_ne _ _ hu]) (rests_setProc hu)

lemma At.not_sleeping (h : At m t ph) (hph : ∀ c, ph ≠ .asleep c) :
    (m.proc t).state ≠ .sleeping := by
  intro hs
  obtain ⟨c, hc, -⟩ := h.asleep hs
  exact hph c hc

lemma at_update (hself : At m' t l.phase) (hother : ∀ u, u ≠ t → At m' u (L u).phase)
    (u : Fin N) : At m' u (Function.update L t l u).phase :=
  update_cases u hself hother

lemma drowsing_update_of_ne {c : χ} (hu : u ≠ t) (h : Drowsing m' (Function.update L t l) u c)
    (hs : (m.proc u).Rests (m'.proc u)) : Drowsing m L u c := by
  rw [Drowsing, Function.update_of_ne hu] at h
  rcases h with h | ⟨h1, h2⟩
  · exact Or.inl h
  · exact Or.inr ⟨(hs h1).1, by rw [← (hs h1).2]; exact h2⟩

lemma not_drowsing_self {c : χ} (hl : l.phase.sleepy = none)
    (hs : (m'.proc t).state ≠ .sleeping) : ¬ Drowsing m' (Function.update L t l) t c := by
  rw [Drowsing, Function.update_self, hl]
  rintro (h | h)
  · cases h
  · exact hs h.1

lemma drowsing_of_update (hl : l.phase.sleepy = none) (hst : (m'.proc t).state ≠ .sleeping)
    (hs : ∀ u, u ≠ t → (m.proc u).Rests (m'.proc u)) (u : Fin N) (c : χ)
    (h : Drowsing m' (Function.update L t l) u c) : u ≠ t ∧ Drowsing m L u c := by
  have hu : u ≠ t := by
    rintro rfl
    exact not_drowsing_self hl hst h
  exact ⟨hu, drowsing_update_of_ne hu h (hs u hu)⟩

lemma quiet_setProc (hpriv : x.priv = (m.proc p).priv)
    (hstate : x.state = (m.proc p).state ∨ ((m.proc p).state.Active ∧ x.state.Active)) :
    Quiet m (m.setProc p x) :=
  ⟨rfl, map_setAt Proc.priv hpriv, fun u => setAt_cases (motive := fun u (x : Proc N χ δ) =>
    x.state = (m.proc u).state ∨ ((m.proc u).state.Active ∧ x.state.Active)) u hstate
      fun _ _ => Or.inl rfl⟩

lemma Quiet.of_lock (m : Mem N χ δ σ) (lk : Option (Fin N)) : Quiet m { m with lock := lk } :=
  ⟨rfl, fun _ => rfl, fun _ => Or.inl rfl⟩

end At

/-! ## The invariant -/

/-- What a client of the rules fixes: when channels are ready, and an invariant of its own.
Neither depends on what sleeping and scheduling change. -/
structure Client (N : ℕ) (χ δ σ Γ : Type) where
  ready : χ → Mem N χ δ σ → Prop
  user : Mem N χ δ σ → (Fin N → Γ) → Prop
  ready_congr : ∀ {m m' : Mem N χ δ σ} (c : χ), Quiet m m' → ready c m' → ready c m
  user_congr : ∀ {m m' : Mem N χ δ σ} {U : Fin N → Γ}, m'.lock = m.lock → Quiet m m' →
    user m U → user m' U

structure Inv (C : Client N χ δ σ Γ) (m : Mem N χ δ σ) (L : Fin N → Ghost χ Γ) : Prop where
  at_ : ∀ u, At m u (L u).phase
  /-- No wakeup is lost. -/
  due : ∀ u c, Drowsing m L u c → C.ready c m →
    ∃ v, (∃ j, (L v).phase = .waking c j) ∨ ((L v).phase.holds = true ∧ (L v).wake c = .owes)
  swept : ∀ v c j, (L v).phase = .waking c j → ∀ u, u.val < j → ¬ Drowsing m L u c
  clear : ∀ v c, (L v).phase.holds = true → (L v).wake c = .clear → ∀ u, ¬ Drowsing m L u c
  user : C.user m fun u => (L u).user

namespace Inv

variable {C : Client N χ δ σ Γ} {m m' : Mem N χ δ σ} {L : Fin N → Ghost χ Γ} {t : Fin N}

lemma self (h : Inv C m L) {l : Ghost χ Γ} (hl : L t = l) : Inv C m (Function.update L t l) := by
  rwa [← hl, Function.update_eq_self]

lemma at_of (h : Inv C m L) {l : Ghost χ Γ} (hl : L t = l) : At m t l.phase := hl ▸ h.at_ t

lemma holder_unique (h : Inv C m L) {u v : Fin N} (hu : (L u).phase.holds = true)
    (hv : (L v).phase.holds = true) : u = v := by
  have h1 := (h.at_ u).lock.2 hu
  rw [(h.at_ v).lock.2 hv] at h1
  exact (Option.some.inj h1).symm

lemma holds_of_waking {ph : Phase χ} {c : χ} {j : ℕ} (h : ph = .waking c j) :
    ph.holds = true := by
  rw [h]
  rfl

lemma not_ready (h : Inv C m L) (hfree : m.lock = none) {u : Fin N} {c : χ}
    (hd : Drowsing m L u c) : ¬ C.ready c m := by
  intro hr
  obtain ⟨v, hv⟩ := h.due u c hd hr
  have hholds : (L v).phase.holds = true := by
    rcases hv with ⟨j, hj⟩ | ⟨hv, -⟩
    · exact holds_of_waking hj
    · exact hv
  have := (h.at_ v).lock.2 hholds
  rw [hfree] at this
  cases this

lemma owes_of_ready (h : Inv C m L) {l : Ghost χ Γ} (hl : L t = l) (ht : l.phase.holds = true)
    (hnot : ∀ c j, l.phase ≠ .waking c j) {u : Fin N} {c : χ} (hd : Drowsing m L u c)
    (hr : C.ready c m) : l.wake c = .owes := by
  subst hl
  obtain ⟨v, hv⟩ := h.due u c hd hr
  rcases hv with ⟨j, hj⟩ | ⟨hv, howes⟩
  · obtain rfl := h.holder_unique ht (holds_of_waking hj)
    exact absurd hj (hnot c j)
  · obtain rfl := h.holder_unique ht hv
    exact howes

lemma of_not_holding (h : Inv C m L) {l : Ghost χ Γ} (ht : (L t).phase.holds = false)
    (hl : l.phase.holds = false) (hat : ∀ u, At m' u (Function.update L t l u).phase)
    (hd : ∀ u c, Drowsing m' (Function.update L t l) u c → Drowsing m L u c)
    (hready : ∀ c, C.ready c m' → C.ready c m)
    (huser : C.user m' (Function.update (fun u => (L u).user) t l.user)) :
    Inv C m' (Function.update L t l) := by
  -- a process that holds the lock, or is in `wakeup`, is another one
  have hne : ∀ v, (Function.update L t l v).phase.holds = true → v ≠ t := by
    rintro v hv rfl
    rw [Function.update_self, hl] at hv
    cases hv
  have hsame : ∀ v, (L v).phase.holds = true → Function.update L t l v = L v := by
    intro v hv
    refine Function.update_of_ne ?_ _ _
    rintro rfl
    rw [ht] at hv
    cases hv
  refine ⟨hat, fun u c hdu hr => ?_, fun v c j hv u hu hdu => ?_, fun v c hv hc u hdu => ?_, ?_⟩
  · obtain ⟨v, hv⟩ := h.due u c (hd u c hdu) (hready c hr)
    refine ⟨v, ?_⟩
    rw [hsame v (by rcases hv with ⟨j, hj⟩ | hv; exacts [holds_of_waking hj, hv.1])]
    exact hv
  · rw [Function.update_of_ne (hne v (holds_of_waking hv))] at hv
    exact h.swept v c j hv u hu (hd u c hdu)
  · have hvt := hne v hv
    rw [Function.update_of_ne hvt] at hv hc
    exact h.clear v c hv hc u (hd u c hdu)
  · rwa [comp_update Ghost.user]

lemma of_holding {l : Ghost χ Γ} (hl : l.phase.holds = true)
    (hat : ∀ u, At m' u (Function.update L t l u).phase)
    (hdue : ∀ u c, Drowsing m' (Function.update L t l) u c → C.ready c m' →
      (∃ j, l.phase = .waking c j) ∨ l.wake c = .owes)
    (hswept : ∀ c j, l.phase = .waking c j → ∀ u, u.val < j →
      ¬ Drowsing m' (Function.update L t l) u c)
    (hclear : ∀ c, l.wake c = .clear → ∀ u, ¬ Drowsing m' (Function.update L t l) u c)
    (huser : C.user m' (Function.update (fun u => (L u).user) t l.user)) :
    Inv C m' (Function.update L t l) := by
  have hself : Function.update L t l t = l := Function.update_self _ _ _
  have hlock : m'.lock = some t := (hat t).lock.2 (by rw [hself]; exact hl)
  have honly : ∀ v, (Function.update L t l v).phase.holds = true → v = t := by
    intro v hv
    have := (hat v).lock.2 hv
    rw [hlock] at this
    exact (Option.some.inj this).symm
  refine ⟨hat, fun u c hdu hr => ⟨t, ?_⟩, fun v c j hv => ?_, fun v c hv => ?_, ?_⟩
  · rw [hself]
    rcases hdue u c hdu hr with hw | hw
    · exact Or.inl hw
    · exact Or.inr ⟨hl, hw⟩
  · obtain rfl := honly v (holds_of_waking hv)
    rw [hself] at hv
    exact hswept c j hv
  · obtain rfl := honly v hv
    rw [hself]
    exact hclear c
  · rwa [comp_update Ghost.user]

lemma of_free {l : Ghost χ Γ} (hfree : m'.lock = none)
    (hat : ∀ u, At m' u (Function.update L t l u).phase)
    (hd : ∀ u c, Drowsing m' (Function.update L t l) u c → ¬ C.ready c m')
    (huser : C.user m' (Function.update (fun u => (L u).user) t l.user)) :
    Inv C m' (Function.update L t l) := by
  have hnone : ∀ v, ¬ (Function.update L t l v).phase.holds = true := by
    intro v hv
    have := (hat v).lock.2 hv
    rw [hfree] at this
    cases this
  refine ⟨hat, fun u c hdu hr => absurd hr (hd u c hdu), fun v c j hv => ?_,
    fun v c hv => absurd hv (hnone v), ?_⟩
  · exact absurd (holds_of_waking hv) (hnone v)
  · rwa [comp_update Ghost.user]

/-- A step that changes no lock and puts nobody to sleep, and after which no more channels are
ready. -/
lemma table (h : Inv C m L) (m' : Mem N χ δ σ) {γ : Γ} (hlock : m'.lock = m.lock)
    (hproc : ∀ u, (m'.proc u).lock = (m.proc u).lock)
    (hs : ∀ u, (m.proc u).Rests (m'.proc u))
    (hready : ∀ c, C.ready c m' → C.ready c m)
    (huser : C.user m' (Function.update (fun u => (L u).user) t γ)) :
    Inv C m' (Function.update L t ⟨(L t).phase, (L t).wake, γ⟩) := by
  have hphase : ∀ u, (Function.update L t ⟨(L t).phase, (L t).wake, γ⟩ u).phase = (L u).phase :=
    congrFun (comp_update_of_eq Ghost.phase rfl)
  have hwake : ∀ u, (Function.update L t ⟨(L t).phase, (L t).wake, γ⟩ u).wake = (L u).wake :=
    congrFun (comp_update_of_eq Ghost.wake rfl)
  have hd : ∀ u c, Drowsing m' (Function.update L t ⟨(L t).phase, (L t).wake, γ⟩) u c →
      Drowsing m L u c := by
    rintro u c (hd | ⟨h1, h2⟩)
    · exact Or.inl (by rwa [hphase] at hd)
    · exact Or.inr ⟨(hs u h1).1, by rw [← (hs u h1).2]; exact h2⟩
  refine ⟨fun u => ?_, fun u c hdu hr => ?_, fun v c j hv u hu hdu => ?_,
    fun v c hv hc u hdu => ?_, ?_⟩
  · rw [hphase]
    exact (h.at_ u).congr (by rw [hlock]) (hproc u) (hs u)
  · obtain ⟨v, hv⟩ := h.due u c (hd u c hdu) (hready c hr)
    exact ⟨v, by rwa [hphase, hwake]⟩
  · rw [hphase] at hv
    exact h.swept v c j hv u hu (hd u c hdu)
  · rw [hphase] at hv
    rw [hwake] at hc
    exact h.clear v c hv hc u (hd u c hdu)
  · rwa [comp_update Ghost.user]

lemma entry (h : Inv C m L) {ph : Phase χ} {w : χ → Wake} {γ γ' : Γ} (hl : L t = ⟨ph, w, γ⟩)
    {p : Fin N} {x : Proc N χ δ} (hlock : m'.lock = m.lock) (hproc : m'.proc = setAt m.proc p x)
    (hx : x.lock = (m.proc p).lock) (hs : (m.proc p).Rests x)
    (hready : ∀ c, C.ready c m' → C.ready c m)
    (huser : C.user m' (Function.update (fun u => (L u).user) t γ')) :
    Inv C m' (Function.update L t ⟨ph, w, γ'⟩) := by
  have := h.table m' (t := t) (γ := γ') hlock ?_ ?_ hready huser
  · rwa [hl] at this
  · rw [hproc]
    exact map_setAt Proc.lock hx
  · rw [hproc]
    exact rests_setAt hs

end Inv

/-! ## The rules -/

section Rules

variable {C : Client N χ δ σ Γ} {G : Mem N χ δ σ → Mem N χ δ σ → Prop}
  {X : Mem N χ δ σ → Panic → Prop} {t : Fin N} {w : χ → Wake} {γ : Γ}

/-- The proof obligations of a client. -/
def rules (C : Client N χ δ σ Γ) (G : Mem N χ δ σ → Mem N χ δ σ → Prop)
    (X : Mem N χ δ σ → Panic → Prop) : Rules Panic (Mem N χ δ σ) (Fin N) (Ghost χ Γ) :=
  ⟨Inv C, G, X⟩

lemma Inv.user_quiet {m m' : Mem N χ δ σ} {L : Fin N → Ghost χ Γ} (h : Inv C m L)
    (hl : (L t).user = γ) (hlock : m'.lock = m.lock) (hq : Quiet m m') :
    C.user m' (Function.update (fun u => (L u).user) t γ) := by
  rw [← hl, Function.update_eq_self t fun u => (L u).user]
  exact C.user_congr hlock hq h.user

lemma safe_acquire {Q : Γ → Prop}
    (hacq : ∀ m U, C.user m U → U t = γ → m.lock = none →
      ∃ γ', C.user { m with lock := some t } (Function.update U t γ') ∧ Q γ') :
    (rules C G X).Safe t (.update (Mem.acquire t)) ⟨.out, w, γ⟩
      fun _ l => ∃ γ', l = ⟨.locked, fun _ => .idle, γ'⟩ ∧ Q γ' := by
  refine .update fun m L h hl => ?_
  have hat := h.at_of hl
  have hnot : m.lock ≠ some t := fun he => by cases hat.lock.1 he
  unfold Mem.acquire
  cases hlock : m.lock with
  | some u =>
    have hu : u ≠ t := fun he => hnot (he ▸ hlock)
    simp only [hu, ↓reduceIte]
    exact trivial
  | none =>
    refine fun _ => ?_
    obtain ⟨γ', huser, hq⟩ := hacq m _ h.user (by rw [hl]) hlock
    refine ⟨⟨.locked, fun _ => .idle, γ'⟩, Inv.of_holding rfl ?_ ?_ ?_ ?_ huser, γ', rfl, hq⟩
    · refine at_update ⟨by simp [Phase.holds], hat.proc, fun hs => ?_⟩ fun u hu => ?_
      · exact absurd hs (hat.not_sleeping (by rintro _ ⟨⟩))
      · refine (h.at_ u).congr ?_ rfl fun hs => ⟨hs, rfl⟩
        simp [hlock, hu.symm]
    · intro u c hd hr
      obtain ⟨-, hd⟩ := drowsing_of_update (m := m) rfl
        (hat.not_sleeping (by rintro _ ⟨⟩)) (fun u _ hs => ⟨hs, rfl⟩) u c hd
      exact absurd (C.ready_congr c (Quiet.of_lock m (some t)) hr) (h.not_ready hlock hd)
    · intro c j hj
      cases hj
    · intro c hc
      cases hc

lemma Inv.release {m : Mem N χ δ σ} {L : Fin N → Ghost χ Γ} (h : Inv C m L) {ph : Phase χ}
    (hl : L t = ⟨ph, w, γ⟩) (hph : ph.Steady) (hw : ∀ c, w c ≠ .owes) (γ' : Γ)
    (huser : C.user { m with lock := none } (Function.update (fun u => (L u).user) t γ')) :
    Inv C { m with lock := none } (Function.update L t ⟨ph.unlocked, w, γ'⟩) := by
  have hat := h.at_of hl
  have hlock : m.lock = some t := hat.lock.2 hph.holds
  have hst := hat.not_sleeping hph.ne_asleep
  refine Inv.of_free rfl ?_ ?_ huser
  · refine at_update ⟨by simp [hph.unlocked_holds], ?_, fun hs => absurd hs hst⟩ fun u hu => ?_
    · rw [hph.unlocked_holdsProc]
      exact hat.proc
    · refine (h.at_ u).congr ?_ rfl fun hs => ⟨hs, rfl⟩
      simp [hlock, hu.symm]
  · intro u c hd hr
    obtain ⟨-, hd⟩ := drowsing_of_update (m := m) hph.unlocked_sleepy hst
      (fun u _ hs => ⟨hs, rfl⟩) u c hd
    exact hw c (h.owes_of_ready hl hph.holds hph.ne_waking hd
      (C.ready_congr c (Quiet.of_lock m none) hr))

lemma release_eq {m : Mem N χ δ σ} {L : Fin N → Ghost χ Γ} (h : Inv C m L)
    (hl : (L t).phase.holds = true) : m.release t = .ok { m with lock := none } :=
  if_pos ((h.at_ t).lock.2 hl)

lemma safe_release {Q : Γ → Prop}
    (hrel : ∀ m U, C.user m U → U t = γ → m.lock = some t → G m { m with lock := none } →
      (∀ c, w c ≠ .owes) ∧
      ∃ γ', C.user { m with lock := none } (Function.update U t γ') ∧ Q γ') :
    (rules C G X).Safe t (.update (Mem.release t)) ⟨.locked, w, γ⟩
      fun _ l => ∃ γ', l = ⟨.out, w, γ'⟩ ∧ Q γ' := by
  refine .update fun m L h hl => ?_
  rw [release_eq h (by rw [hl]; rfl)]
  refine fun hG => ?_
  obtain ⟨hw, γ', huser, hq⟩ := hrel m _ h.user (by rw [hl]) ((h.at_ t).lock.2 (by rw [hl]; rfl)) hG
  exact ⟨⟨.out, w, γ'⟩, h.release hl (Or.inl rfl) hw γ' huser, γ', rfl, hq⟩

/-- A change by the holder of the lock.  A channel that becomes ready is owed a wakeup, unless
nobody can be asleep on it. -/
lemma Inv.section_ {m m' : Mem N χ δ σ} {L : Fin N → Ghost χ Γ} (h : Inv C m L) {ph : Phase χ}
    (hl : L t = ⟨ph, w, γ⟩) (hph : ph.Steady) {w' : χ → Wake} {γ' : Γ} (hlock : m'.lock = m.lock)
    (hproc : ∀ u, (m'.proc u).lock = (m.proc u).lock)
    (hs : ∀ u, (m.proc u).Rests (m'.proc u))
    (hw : ∀ c, w' c = .owes ∨ (w' c = w c ∧ (w c = .clear ∨ (C.ready c m' → C.ready c m))))
    (huser : C.user m' (Function.update (fun u => (L u).user) t γ')) :
    Inv C m' (Function.update L t ⟨ph, w', γ'⟩) := by
  have hat := h.at_of hl
  have hst : (m'.proc t).state ≠ .sleeping :=
    fun he => hat.not_sleeping hph.ne_asleep (hs t he).1
  have hclear : ∀ c, w c = .clear → ∀ u, ¬ Drowsing m L u c :=
    fun c hc => h.clear t c (by rw [hl]; exact hph.holds) (by rw [hl]; exact hc)
  have hold := drowsing_of_update (m := m) (L := L) (l := ⟨ph, w', γ'⟩) hph.sleepy_eq hst
    fun u _ => hs u
  refine Inv.of_holding hph.holds ?_ ?_ (fun c j hj => absurd hj (hph.ne_waking c j)) ?_ huser
  · refine at_update (hat.congr (by rw [hlock]) (hproc t) (hs t)) fun u _ => ?_
    exact (h.at_ u).congr (by rw [hlock]) (hproc u) (hs u)
  · intro u c hd hr
    obtain ⟨-, hd⟩ := hold u c hd
    rcases hw c with howes | ⟨heq, hcl | hready⟩
    · exact Or.inr howes
    · exact absurd hd (hclear c hcl u)
    · exact Or.inr (heq.trans (h.owes_of_ready hl hph.holds hph.ne_waking hd (hready hr)))
  · intro c hc u hd
    rcases hw c with howes | ⟨heq, -⟩
    · rw [show w' c = .clear from hc] at howes
      cases howes
    · exact hclear c (heq ▸ hc) u (hold u c hd).2

lemma Inv.procLock_ne {m : Mem N χ δ σ} {L : Fin N → Ghost χ Γ} (h : Inv C m L) {p : Fin N}
    (hp : p = t → (L t).phase.holdsProc = false) : (m.proc p).lock ≠ some t := by
  rw [(h.at_ p).proc]
  split
  · rename_i hholds
    rintro ⟨⟩
    rw [hp rfl] at hholds
    cases hholds
  · rintro ⟨⟩

lemma onProc_cases {m : Mem N χ δ σ} {L : Fin N → Ghost χ Γ} (h : Inv C m L) {p : Fin N}
    (hp : p = t → (L t).phase.holdsProc = false) (f : Proc N χ δ → Proc N χ δ) :
    m.onProc t p f = .blocked ∨ ((m.proc p).lock = none ∧
      m.onProc t p f = .ok (m.setProc p { f (m.proc p) with lock := none })) := by
  unfold Mem.onProc
  cases hlock : (m.proc p).lock with
  | none => exact Or.inr ⟨rfl, rfl⟩
  | some u => exact Or.inl (if_neg fun hu : u = t => h.procLock_ne hp (hu ▸ hlock))

/-! ### `sleep` -/

section Sleep

variable {c : χ} {m : Mem N χ δ σ} {L : Fin N → Ghost χ Γ}

lemma Inv.acquireSelf (h : Inv C m L) (hl : L t = ⟨.locked, w, γ⟩) (hw : ∀ c, w c ≠ .owes)
    (hready : ¬ C.ready c m) :
    Inv C (m.setProc t { m.proc t with lock := some t })
      (Function.update L t ⟨.drowsy c, fun _ => .idle, γ⟩) := by
  have hat := h.at_of hl
  have hq : Quiet m (m.setProc t { m.proc t with lock := some t }) :=
    quiet_setProc rfl (Or.inl rfl)
  have hst : (m.proc t).state ≠ .sleeping := hat.not_sleeping (by rintro _ ⟨⟩)
  refine Inv.of_holding rfl (at_update ⟨?_, ?_, fun hs => ?_⟩ fun u hu => (h.at_ u).setProc hu) ?_
    (by rintro _ _ ⟨⟩) (by rintro _ ⟨⟩) ?_
  · exact hat.lock.trans (by simp [Phase.holds])
  · simp [Mem.setProc, Phase.holdsProc]
  · simp only [Mem.setProc, setAt_self] at hs
    exact absurd hs hst
  · intro u c' hd hr
    have hr' := C.ready_congr c' hq hr
    by_cases hu : u = t
    · subst hu
      rw [Drowsing, Function.update_self] at hd
      rcases hd with hd | ⟨hs, -⟩
      · cases hd
        exact absurd hr' hready
      · simp only [Mem.setProc, setAt_self] at hs
        exact absurd hs hst
    · have hd' : Drowsing m L u c' := drowsing_update_of_ne hu hd (rests_setProc hu)
      exact absurd (h.owes_of_ready hl rfl (by rintro _ _ ⟨⟩) hd' hr') (hw c')
  · exact h.user_quiet (by rw [hl]) rfl hq

lemma Inv.releaseDrowsy (h : Inv C m L) (hl : L t = ⟨.drowsy c, fun _ => .idle, γ⟩) {γ' : Γ}
    (huser : C.user { m with lock := none } (Function.update (fun u => (L u).user) t γ')) :
    Inv C { m with lock := none } (Function.update L t ⟨.dozing c, fun _ => .idle, γ'⟩) := by
  have hat := h.at_of hl
  have hlock : m.lock = some t := hat.lock.2 rfl
  have hst : (m.proc t).state ≠ .sleeping := hat.not_sleeping (by rintro _ ⟨⟩)
  refine Inv.of_free rfl (at_update ⟨by simp [Phase.holds], ?_, ?_⟩ fun u hu => ?_) ?_ huser
  · exact hat.proc
  · exact fun hs => absurd hs hst
  · refine (h.at_ u).congr ?_ rfl fun hs => ⟨hs, rfl⟩
    simp [hlock, hu.symm]
  · intro u c' hd hr
    have hd' : Drowsing m L u c' := by
      by_cases hu : u = t
      · subst hu
        rw [Drowsing, Function.update_self] at hd
        rw [Drowsing, hl]
        exact hd
      · exact drowsing_update_of_ne hu hd fun hs => ⟨hs, rfl⟩
    cases h.owes_of_ready hl rfl (by rintro _ _ ⟨⟩) hd'
      (C.ready_congr c' (Quiet.of_lock m none) hr)

lemma Inv.doze (h : Inv C m L) (hl : L t = ⟨.dozing c, w, γ⟩)
    (hactive : (m.proc t).state.Active) :
    Inv C (m.setProc t { m.proc t with lock := none, state := .sleeping, chan := some c })
      (Function.update L t ⟨.asleep c, w, γ⟩) := by
  have hat := h.at_of hl
  have hq : Quiet m
      (m.setProc t { m.proc t with lock := none, state := .sleeping, chan := some c }) :=
    quiet_setProc rfl (Or.inr ⟨hactive, Or.inl rfl⟩)
  refine h.of_not_holding (by rw [hl]; rfl) rfl
    (at_update ⟨?_, ?_, fun _ => ?_⟩ fun u hu => (h.at_ u).setProc hu)
    (fun u c' hd => ?_) (fun c' => C.ready_congr c' hq) ?_
  · exact hat.lock.trans (by simp [Phase.holds])
  · simp [Mem.setProc, Phase.holdsProc]
  · exact ⟨c, rfl, by simp [Mem.setProc]⟩
  · by_cases hu : u = t
    · subst hu
      rw [Drowsing, Function.update_self] at hd
      rw [Drowsing, hl]
      rcases hd with hd | ⟨-, hc⟩
      · cases hd
      · simp only [Mem.setProc, setAt_self, Option.some.injEq] at hc
        exact Or.inl (congrArg some hc)
    · exact drowsing_update_of_ne hu hd (rests_setProc hu)
  · exact h.user_quiet (by rw [hl]) rfl hq

lemma Inv.resume (h : Inv C m L) (hl : L t = ⟨.asleep c, w, γ⟩)
    (hrun : (m.proc t).state = .runnable) :
    Inv C (m.setProc t { m.proc t with state := .running, chan := none })
      (Function.update L t ⟨.out, w, γ⟩) := by
  have hat := h.at_of hl
  have hq : Quiet m (m.setProc t { m.proc t with state := .running, chan := none }) :=
    quiet_setProc rfl (Or.inr ⟨Or.inr (Or.inl hrun), Or.inr (Or.inr rfl)⟩)
  have hst : ((m.setProc t { m.proc t with state := .running, chan := none }).proc t).state ≠
      .sleeping := by
    simp [Mem.setProc]
  refine h.of_not_holding (by rw [hl]; rfl) rfl
    (at_update ⟨?_, ?_, fun hs => absurd hs hst⟩ fun u hu => (h.at_ u).setProc hu)
    (fun u c' hd => (drowsing_of_update rfl hst (fun _ => rests_setProc) u c' hd).2)
      (fun c' => C.ready_congr c' hq) ?_
  · exact hat.lock.trans (by simp [Phase.holds])
  · simpa [Mem.setProc, Phase.holdsProc] using hat.proc
  · exact h.user_quiet (by rw [hl]) rfl hq

lemma safe_sleep (γ1 : Γ) {Q : Γ → Prop} (hw : ∀ c, w c ≠ .owes)
    (hready : ∀ m U, C.user m U → U t = γ → m.lock = some t → ¬ C.ready c m)
    (hrel : ∀ m U, C.user m U → U t = γ → m.lock = some t →
      C.user { m with lock := none } (Function.update U t γ1))
    (hactive : ∀ m U, C.user m U → U t = γ1 → (m.proc t).state.Active)
    (hacq : ∀ m U, C.user m U → U t = γ1 → m.lock = none →
      ∃ γ2, C.user { m with lock := some t } (Function.update U t γ2) ∧ Q γ2) :
    (rules C G X).Safe t (sleep t c) ⟨.locked, w, γ⟩
      fun _ l => ∃ γ2, l = ⟨.locked, fun _ => .idle, γ2⟩ ∧ Q γ2 := by
  rw [sleep]
  refine .seq (P := fun _ l => l = ⟨.drowsy c, fun _ => .idle, γ⟩)
    (.update fun m L h hl => ?_) ?_
  · have hat := h.at_of hl
    have hfree : (m.proc t).lock = none := hat.proc
    rw [Mem.acquireProc, hfree]
    exact fun _ => ⟨_, h.acquireSelf hl hw (hready m _ h.user (by rw [hl]) (hat.lock.2 rfl)), rfl⟩
  rintro - l rfl
  refine .seq (P := fun _ l => l = ⟨.dozing c, fun _ => .idle, γ1⟩)
    (.update fun m L h hl => ?_) ?_
  · rw [release_eq h (by rw [hl]; rfl)]
    refine fun _ => ?_
    have hlock : m.lock = some t := (h.at_ t).lock.2 (by rw [hl]; rfl)
    exact ⟨_, h.releaseDrowsy hl (hrel m _ h.user (by rw [hl]) hlock), rfl⟩
  rintro - l rfl
  refine .seq (P := fun _ l => l = ⟨.asleep c, fun _ => .idle, γ1⟩)
    (.update fun m L h hl => ?_) ?_
  · have hat := h.at_of hl
    have hheld : (m.proc t).lock = some t := hat.proc
    have hlock : m.lock ≠ some t := fun he => by cases hat.lock.1 he
    rw [Mem.doze, if_neg (not_not.2 hheld), if_neg hlock]
    exact fun _ => ⟨_, h.doze hl (hactive m _ h.user (by rw [hl])), rfl⟩
  rintro - l rfl
  refine .seq (P := fun _ l => l = ⟨.out, fun _ => .idle, γ1⟩)
    (.update fun m L h hl => ?_) ?_
  · rw [Mem.resume]
    split
    · rename_i hrun
      exact fun _ => ⟨_, h.resume hl hrun.1, rfl⟩
    · exact trivial
  rintro - l rfl
  exact safe_acquire hacq

end Sleep

/-! ### `wakeup` -/

section Wakeup

variable {c : χ} {m m' : Mem N χ δ σ} {L : Fin N → Ghost χ Γ}

variable [DecidableEq χ]

/-- The ghost of a process in `wakeup(c)` before the process with the index `j`. -/
def sweep (N : ℕ) (c : χ) (w : χ → Wake) (γ : Γ) (j : ℕ) : Ghost χ Γ :=
  if j = 0 then ⟨.locked, w, γ⟩
  else if j = N then ⟨.locked, setAt w c .clear, γ⟩
  else ⟨.waking c j, w, γ⟩

@[elab_as_elim]
lemma sweep_cases {motive : Ghost χ Γ → Prop} (j : ℕ) (start : motive ⟨.locked, w, γ⟩)
    (done : motive ⟨.locked, setAt w c .clear, γ⟩) (waking : motive ⟨.waking c j, w, γ⟩) :
    motive (sweep N c w γ j) := by
  unfold sweep
  split
  · exact start
  · split
    · exact done
    · exact waking

lemma sweep_of_lt {j : ℕ} (hj : j < N) (c : χ) (w : χ → Wake) (γ : Γ) :
    sweep N c w γ j = ⟨if j = 0 then .locked else .waking c j, w, γ⟩ := by
  unfold sweep
  split
  · rfl
  · rw [if_neg hj.ne]

lemma sweep_holds (c : χ) (w : χ → Wake) (γ : Γ) (j : ℕ) : (sweep N c w γ j).phase.holds = true :=
  sweep_cases j rfl rfl rfl

lemma sweep_user (c : χ) (w : χ → Wake) (γ : Γ) (j : ℕ) : (sweep N c w γ j).user = γ :=
  sweep_cases j rfl rfl rfl

lemma Inv.due_sweep (h : Inv C m L) {j : ℕ} (hj : j < N) (hl : L t = sweep N c w γ j)
    {u : Fin N} {c' : χ} (hd : Drowsing m L u c') (hr : C.ready c' m) :
    c' = c ∨ w c' = .owes := by
  have ht : (L t).phase.holds = true := by
    rw [hl]
    exact sweep_holds c w γ j
  obtain ⟨v, hv⟩ := h.due u c' hd hr
  rcases hv with ⟨i, hi⟩ | ⟨hv, howes⟩
  · obtain rfl := h.holder_unique ht (holds_of_waking hi)
    rw [hl, sweep_of_lt hj] at hi
    split at hi
    · cases hi
    · cases hi
      exact Or.inl rfl
  · obtain rfl := h.holder_unique ht hv
    rw [hl, sweep_of_lt hj] at howes
    exact Or.inr howes

lemma Inv.swept_sweep (h : Inv C m L) {j : ℕ} (hj : j < N) (hl : L t = sweep N c w γ j)
    {u : Fin N} (hu : u.val < j) : ¬ Drowsing m L u c := by
  rw [sweep, if_neg (by omega), if_neg (by omega)] at hl
  exact h.swept t c j (by rw [hl]) u hu

/-- A round of the loop of `wakeup(c)`, after which the process with the index `j` does not
sleep on `c`. -/
lemma Inv.sweep_succ (h : Inv C m L) {j : ℕ} (hj : j < N) (hl : L t = sweep N c w γ j)
    (hlock : m'.lock = m.lock) (hq : Quiet m m')
    (hproc : ∀ u, (m'.proc u).lock = (m.proc u).lock)
    (hs : ∀ u, (m.proc u).Rests (m'.proc u))
    (hwoken : ∀ u, u.val = j → u ≠ t →
      ¬ Drowsing m' (Function.update L t (sweep N c w γ (j + 1))) u c) :
    Inv C m' (Function.update L t (sweep N c w γ (j + 1))) := by
  have hphase : (L t).phase = .locked ∨ (L t).phase = .waking c j := by
    rw [hl, sweep_of_lt hj]
    exact ite_eq_or_eq _ _ _
  have hwake : (L t).wake = w := by
    rw [hl, sweep_of_lt hj]
  have ht : (L t).phase.holds = true := by
    rw [hl]
    exact sweep_holds c w γ j
  have hst : (m'.proc t).state ≠ .sleeping := by
    intro he
    refine (h.at_ t).not_sleeping (fun c' hc' => ?_) (hs t he).1
    rcases hphase with hp | hp <;> rw [hp] at hc' <;> cases hc'
  have hsleepy : (sweep N c w γ (j + 1)).phase.sleepy = none := sweep_cases _ rfl rfl rfl
  have hprocs : (sweep N c w γ (j + 1)).phase.holdsProc = (L t).phase.holdsProc := by
    have hnew : (sweep N c w γ (j + 1)).phase.holdsProc = false := sweep_cases _ rfl rfl rfl
    rcases hphase with hp | hp <;> rw [hp, hnew] <;> rfl
  have hold := drowsing_of_update (m := m) (L := L) hsleepy hst fun u _ => hs u
  -- those before `j` were passed, and `j` has just been
  have hpassed : ∀ u : Fin N, u.val < j + 1 →
      ¬ Drowsing m' (Function.update L t (sweep N c w γ (j + 1))) u c := by
    intro u hu hd
    by_cases huj : u.val = j
    · exact hwoken u huj (hold u c hd).1 hd
    · exact h.swept_sweep hj hl (by omega) (hold u c hd).2
  have hclear : ∀ c', w c' = .clear →
      ∀ u, ¬ Drowsing m' (Function.update L t (sweep N c w γ (j + 1))) u c' := by
    intro c' hc' u hd
    exact h.clear t c' ht (by rw [hwake]; exact hc') u (hold u c' hd).2
  refine Inv.of_holding (sweep_holds c w γ _) (at_update ⟨?_, ?_, fun hsl => absurd hsl hst⟩ ?_)
    ?_ ?_ ?_ ?_
  · rw [hlock, (h.at_ t).lock, ht, sweep_holds]
  · rw [hproc, (h.at_ t).proc, hprocs]
  · exact fun u _ => (h.at_ u).congr (by rw [hlock]) (hproc u) (hs u)
  · intro u c' hd hr
    rcases h.due_sweep hj hl (hold u c' hd).2 (C.ready_congr c' hq hr) with rfl | howes
    · by_cases hN : j + 1 = N
      · exact absurd hd (hpassed u (by omega))
      · refine Or.inl ⟨j + 1, ?_⟩
        rw [sweep, if_neg (by omega), if_neg hN]
    · by_cases hcc : c' = c
      · subst hcc
        by_cases hN : j + 1 = N
        · exact absurd hd (hpassed u (by omega))
        · refine Or.inr ?_
          rw [sweep, if_neg (by omega), if_neg hN]
          exact howes
      · exact Or.inr (sweep_cases _ howes ((setAt_of_ne _ _ hcc).trans howes) howes)
  · intro c' i hi u hu
    rw [sweep, if_neg (by omega)] at hi
    split at hi
    · cases hi
    · cases hi
      exact hpassed u hu
  · intro c' hc' u hd
    by_cases hN : j + 1 = N
    · by_cases hcc : c' = c
      · subst hcc
        exact hpassed u (by omega) hd
      · rw [sweep, if_neg (by omega), if_pos hN] at hc'
        exact hclear c' ((setAt_of_ne _ _ hcc).symm.trans hc') u hd
    · rw [sweep, if_neg (by omega), if_neg hN] at hc'
      exact hclear c' hc' u hd
  · rw [sweep_user]
    exact h.user_quiet (by rw [hl, sweep_user]) hlock hq

lemma wake_priv (x : Proc N χ δ) : (x.wake c).priv = x.priv := by
  unfold Proc.wake
  split <;> rfl

lemma wake_quiet (x : Proc N χ δ) : (x.wake c).state = x.state ∨
    (x.state.Active ∧ (x.wake c).state.Active) := by
  unfold Proc.wake
  split
  · rename_i hs
    exact Or.inr ⟨Or.inl hs.1, Or.inr (Or.inl rfl)⟩
  · exact Or.inl rfl

lemma wake_not_asleep (x : Proc N χ δ) :
    ¬ ((x.wake c).state = .sleeping ∧ (x.wake c).chan = some c) := by
  unfold Proc.wake
  split
  · rintro ⟨hs, -⟩
    cases hs
  · rename_i hs
    exact hs

lemma wake_rests (x : Proc N χ δ) : x.Rests (x.wake c) := by
  unfold Proc.wake
  split
  · intro hs
    cases hs
  · exact fun hs => ⟨hs, rfl⟩

lemma safe_wakeup :
    (rules C G X).Safe t (wakeup t c) ⟨.locked, w, γ⟩
      fun _ l => l = ⟨.locked, setAt w c .clear, γ⟩ := by
  have hpos : 0 < N := lt_of_le_of_lt (Nat.zero_le _) t.isLt
  rw [wakeup]
  refine .forRange (fun j l => l = sweep N c w γ j) rfl (fun p l hp => ?_)
    fun l hl => ?_
  · subst hp
    split
    · -- the process itself does not sleep
      rename_i hpt
      refine .update fun m L h hl _ => ?_
      refine ⟨_, h.sweep_succ p.isLt hl rfl ⟨rfl, fun _ => rfl, fun _ => Or.inl rfl⟩
        (fun _ => rfl) (fun u hs => ⟨hs, rfl⟩) fun u hu hut => ?_, rfl⟩
      exact absurd (Fin.ext hu ▸ hpt) hut
    · rename_i hpt
      refine .update fun m L h hl => ?_
      rcases onProc_cases h (fun he => absurd he hpt) (Proc.wake c) with hblocked | ⟨hfree, hok⟩
      · rw [hblocked]
        exact trivial
      rw [hok]
      refine fun _ => ?_
      refine ⟨_, h.sweep_succ p.isLt hl rfl (quiet_setProc (wake_priv _) (wake_quiet _))
        (map_setAt Proc.lock hfree.symm) (rests_setAt (wake_rests _)) fun u hu hut => ?_, rfl⟩
      -- with its lock free, the process is not on its way to sleep
      obtain rfl : u = p := Fin.ext hu
      rw [Drowsing, Function.update_of_ne hut, Mem.setProc_proc, setAt_self]
      rintro (hd | hd)
      · have hp := (h.at_ u).proc
        rw [hfree, Phase.holdsProc_of_sleepy hd] at hp
        cases hp
      · exact wake_not_asleep _ hd
  · rw [hl, sweep, if_neg hpos.ne', if_pos rfl]

end Wakeup

/-! ### `exit` -/

section Exit

variable {m : Mem N χ δ σ} {L : Fin N → Ghost χ Γ}

lemma Inv.takeSelf (h : Inv C m L) (hl : L t = ⟨.locked, w, γ⟩) :
    Inv C (m.setProc t { m.proc t with lock := some t })
      (Function.update L t ⟨.leavingLocked, w, γ⟩) := by
  have hat := h.at_of hl
  have hst : (m.proc t).state ≠ .sleeping := hat.not_sleeping (by rintro _ ⟨⟩)
  have hst' : ((m.setProc t { m.proc t with lock := some t }).proc t).state ≠ .sleeping := by
    simpa [Mem.setProc] using hst
  have hq : Quiet m (m.setProc t { m.proc t with lock := some t }) :=
    quiet_setProc rfl (Or.inl rfl)
  have hold := drowsing_of_update (m := m) (L := L)
    (l := (⟨.leavingLocked, w, γ⟩ : Ghost χ Γ)) rfl hst' fun _ => rests_setProc
  refine Inv.of_holding rfl (at_update ⟨?_, ?_, fun hs => absurd hs hst'⟩
    fun u hu => (h.at_ u).setProc hu) ?_ (by rintro _ _ ⟨⟩) ?_ (h.user_quiet (by rw [hl]) rfl hq)
  · exact hat.lock.trans (by simp [Phase.holds])
  · simp [Mem.setProc, Phase.holdsProc]
  · intro u c hd hr
    exact Or.inr (h.owes_of_ready hl rfl (by rintro _ _ ⟨⟩) (hold u c hd).2
      (C.ready_congr c hq hr))
  · intro c hc u hd
    exact h.clear t c (by rw [hl]; rfl) (by rw [hl]; exact hc) u (hold u c hd).2

lemma Inv.leave (h : Inv C m L) (hl : L t = ⟨.leaving, w, γ⟩) :
    Inv C (m.setProc t { m.proc t with lock := none })
      (Function.update L t ⟨.out, w, γ⟩) := by
  have hat := h.at_of hl
  have hst : (m.proc t).state ≠ .sleeping := hat.not_sleeping (by rintro _ ⟨⟩)
  have hst' : ((m.setProc t { m.proc t with lock := none }).proc t).state ≠ .sleeping := by
    simpa [Mem.setProc] using hst
  have hq : Quiet m (m.setProc t { m.proc t with lock := none }) :=
    quiet_setProc rfl (Or.inl rfl)
  refine h.of_not_holding (by rw [hl]; rfl) rfl
    (at_update ⟨?_, ?_, fun hs => absurd hs hst'⟩ fun u hu => (h.at_ u).setProc hu)
    (fun u c hd => (drowsing_of_update rfl hst' (fun _ => rests_setProc) u c hd).2)
    (fun c => C.ready_congr c hq) (h.user_quiet (by rw [hl]) rfl hq)
  · exact hat.lock.trans (by simp [Phase.holds])
  · simp [Mem.setProc, Phase.holdsProc]

end Exit

end Rules

end Xv6.Sched
