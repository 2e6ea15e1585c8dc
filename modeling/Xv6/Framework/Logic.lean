import Xv6.Framework.Prog
import Mathlib.Algebra.BigOperators.Group.Finset.Piecewise
import Mathlib.Data.Fintype.Basic
import Mathlib.Algebra.BigOperators.Group.Finset.Basic

/-!
# Proving invariants of interleaved programs

A property of every reachable state is proved with an invariant of the memory and of one
piece of *ghost* knowledge per thread: what the thread has acquired, owes or remembers in the
middle of its call.  Only a thread's own actions change its ghost, so what the invariant says
about it stays true while others run.

`Safe` is the resulting judgement on a program: every action keeps the invariant for a
suitable new ghost of the thread that runs it, no action stops the machine with a message
that is excluded, and at the end the postcondition holds of the result and the ghost.  It is
defined by recursion on the program, so a routine is proved one action at a time
(`Safe.act`), a sequence by its parts (`Safe.bind`), and a loop with a loop invariant
(`Safe.iterate`).  `Kernel.invariant` turns the proofs of all calls into an invariant of all
runs.

Steps can be assumed to satisfy a relation `guarantee` on the memories before and after;
`Kernel.invariant` then speaks of the runs whose steps all do.
-/

namespace Concur

/-- What the proof of a system fixes: the invariant, the steps that are considered, and the
messages that must not be printed from a memory. -/
structure Rules (π σ T Λ : Type) where
  inv : σ → (T → Λ) → Prop
  guarantee : σ → σ → Prop
  excluded : σ → π → Prop

variable {π σ T Λ α β γ : Type} [DecidableEq T]

namespace Rules

variable (R : Rules π σ T Λ)

/-- What is asked of the outcome of an action of the thread `t`, from the memory `s` with the ghosts
`L`. -/
def Good (t : T) (s : σ) (L : T → Λ) (Q : β → Λ → Prop) : Outcome π (β × σ) → Prop
  | .ok (b, s') => R.guarantee s s' → ∃ l', R.inv s' (Function.update L t l') ∧ Q b l'
  | .blocked => True
  | .panic m => ¬ R.excluded s m

/-- What is asked of one action of the thread `t` with ghost `l`. -/
def ActSafe (t : T) (f : σ → Outcome π (β × σ)) (l : Λ) (Q : β → Λ → Prop) : Prop :=
  ∀ s L, R.inv s L → L t = l → R.Good t s L Q (f s)

/-- What is asked of the outcome of an action that has no result. -/
def GoodUpdate (t : T) (s : σ) (L : T → Λ) (Q : Λ → Prop) : Outcome π σ → Prop
  | .ok s' => R.guarantee s s' → ∃ l', R.inv s' (Function.update L t l') ∧ Q l'
  | .blocked => True
  | .panic m => ¬ R.excluded s m

/-- The program keeps the invariant at every action and ends in `Q`. -/
def Safe (t : T) {α : Type} : Prog π σ α → Λ → (α → Λ → Prop) → Prop
  | .ret a, l, Q => Q a l
  | .act f k, l, Q => R.ActSafe t f l fun b l' => Safe t (k b) l' Q
  | .loop (β := β) (γ := γ) body b k, l, Q =>
    ∃ I : β → Λ → Prop, I b l ∧ ∀ b l, I b l →
      Safe t (body b) l fun (r : β ⊕ γ) l' =>
        match r with
        | .inl b' => I b' l'
        | .inr c => Safe t (k c) l' Q

variable {R} {t : T}

@[simp] lemma good_blocked {s : σ} {L : T → Λ} {Q : β → Λ → Prop} :
    R.Good t s L Q .blocked := trivial

@[simp] lemma goodUpdate_blocked {s : σ} {L : T → Λ} {Q : Λ → Prop} :
    R.GoodUpdate t s L Q .blocked := trivial

lemma Good.intro {s : σ} {L : T → Λ} {Q : β → Λ → Prop} {o : Outcome π (β × σ)}
    (hp : ∀ m, o = .panic m → ¬ R.excluded s m)
    (hs : ∀ b s', o = .ok (b, s') → R.guarantee s s' →
      ∃ l', R.inv s' (Function.update L t l') ∧ Q b l') : R.Good t s L Q o := by
  cases o with
  | ok r => exact hs r.1 r.2 rfl
  | blocked => exact trivial
  | panic m => exact hp m rfl

lemma GoodUpdate.intro {s : σ} {L : T → Λ} {Q : Λ → Prop} {o : Outcome π σ}
    (hp : ∀ m, o = .panic m → ¬ R.excluded s m)
    (hs : ∀ s', o = .ok s' → R.guarantee s s' → ∃ l', R.inv s' (Function.update L t l') ∧ Q l') :
    R.GoodUpdate t s L Q o := by
  cases o with
  | ok s' => exact hs s' rfl
  | blocked => exact trivial
  | panic m => exact hp m rfl

lemma ActSafe.mono {f : σ → Outcome π (β × σ)} {l : Λ} {Q Q' : β → Λ → Prop}
    (h : R.ActSafe t f l Q) (hQ : ∀ b l', Q b l' → Q' b l') : R.ActSafe t f l Q' := by
  intro s L hinv hl
  have hgood := h s L hinv hl
  cases hf : f s with
  | ok r =>
    rw [hf] at hgood
    intro hG
    obtain ⟨l', hinv', hq⟩ := hgood hG
    exact ⟨l', hinv', hQ r.1 l' hq⟩
  | blocked => exact trivial
  | panic m => rwa [hf] at hgood

lemma Safe.ret {a : α} {l : Λ} {Q : α → Λ → Prop} (h : Q a l) : R.Safe t (.ret a) l Q := h

lemma Safe.mono {p : Prog π σ α} {l : Λ} {Q Q' : α → Λ → Prop} (h : R.Safe t p l Q)
    (hQ : ∀ a l', Q a l' → Q' a l') : R.Safe t p l Q' := by
  induction p generalizing l with
  | ret a => exact hQ a l h
  | act f k ih => exact ActSafe.mono h fun b l' hk => ih b hk hQ
  | loop body b k ihb ihk =>
    obtain ⟨I, hI, hbody⟩ := h
    refine ⟨I, hI, fun b' l' hb' => ihb b' (hbody b' l' hb') ?_⟩
    rintro (b'' | c) l'' hr
    · exact hr
    · exact ihk c hr hQ

lemma Safe.bind {p : Prog π σ α} {g : α → Prog π σ β} {l : Λ} {Q : β → Λ → Prop}
    (h : R.Safe t p l fun a l' => R.Safe t (g a) l' Q) : R.Safe t (p >>= g) l Q := by
  induction p generalizing l with
  | ret a => exact h
  | act f k ih => exact ActSafe.mono h fun b l' hk => ih b hk
  | loop body b k ihb ihk =>
    obtain ⟨I, hI, hbody⟩ := h
    refine ⟨I, hI, fun b' l' hb' => (hbody b' l' hb').mono ?_⟩
    rintro (b'' | c) l'' hr
    · exact hr
    · exact ihk c hr

lemma Safe.seq {p : Prog π σ α} {g : α → Prog π σ β} {l : Λ} {P : α → Λ → Prop}
    {Q : β → Λ → Prop} (h : R.Safe t p l P) (hg : ∀ a l', P a l' → R.Safe t (g a) l' Q) :
    R.Safe t (p >>= g) l Q :=
  (h.mono hg).bind

lemma Safe.ite {c : Prop} [Decidable c] {p q : Prog π σ α} {l : Λ} {Q : α → Λ → Prop}
    (hp : c → R.Safe t p l Q) (hq : ¬ c → R.Safe t q l Q) :
    R.Safe t (if c then p else q) l Q := by
  split
  · exact hp ‹_›
  · exact hq ‹_›

lemma Safe.atomic {f : σ → Outcome π (β × σ)} {l : Λ} {Q : β → Λ → Prop}
    (h : R.ActSafe t f l Q) : R.Safe t (Prog.atomic f) l Q := h

lemma Safe.update {f : σ → Outcome π σ} {l : Λ} {Q : Λ → Prop}
    (h : ∀ s L, R.inv s L → L t = l → R.GoodUpdate t s L Q (f s)) :
    R.Safe t (Prog.update f) l fun _ => Q := by
  refine Safe.atomic fun s L hinv hl => ?_
  have hgood := h s L hinv hl
  cases hf : f s with
  | ok s' => rwa [hf] at hgood
  | blocked => exact trivial
  | panic m => rwa [hf] at hgood

lemma Safe.modify {f : σ → σ} {l : Λ} {Q : Λ → Prop}
    (h : ∀ s L, R.inv s L → L t = l → R.guarantee s (f s) →
      ∃ l', R.inv (f s) (Function.update L t l') ∧ Q l') :
    R.Safe t (Prog.modify f) l fun _ => Q :=
  Safe.atomic h

lemma Safe.iterate {body : β → Prog π σ (β ⊕ γ)} {b : β} {l : Λ} {Q : γ → Λ → Prop}
    (I : β → Λ → Prop) (hI : I b l)
    (hbody : ∀ b l, I b l → R.Safe t (body b) l fun r l' =>
      match r with
      | .inl b' => I b' l'
      | .inr c => Q c l') :
    R.Safe t (Prog.iterate body b) l Q :=
  ⟨I, hI, hbody⟩

lemma Safe.forRange {n : ℕ} {body : Fin n → Prog π σ Unit} {l : Λ} {Q : Unit → Λ → Prop}
    (I : ℕ → Λ → Prop) (hI : I 0 l)
    (hbody : ∀ (i : Fin n) l, I i l → R.Safe t (body i) l fun _ l' => I (i + 1) l')
    (hend : ∀ l', I n l' → Q () l') : R.Safe t (Prog.forRange n body) l Q := by
  refine Safe.iterate (fun i l' => I i l' ∧ i ≤ n) ⟨hI, Nat.zero_le n⟩ ?_
  rintro i l' ⟨hi, hle⟩
  by_cases hlt : i < n
  · simp only [hlt, ↓reduceDIte]
    exact Safe.seq (hbody ⟨i, hlt⟩ l' hi) fun _ l'' h => ⟨h, hlt⟩
  · simp only [hlt, ↓reduceDIte]
    have : i = n := by omega
    exact hend l' (this ▸ hi)

lemma Safe.firstOf {n : ℕ} {body : Fin n → Prog π σ Bool} {l : Λ} {Q : Option (Fin n) → Λ → Prop}
    (hnone : Q none l)
    (hbody : ∀ i, R.Safe t (body i) l fun r l' => if r then Q (some i) l' else l' = l) :
    R.Safe t (Prog.firstOf n body) l Q := by
  refine Safe.iterate (fun _ l' => l' = l) rfl ?_
  rintro i _ rfl
  split
  · refine Safe.seq (hbody _) fun r l' h => ?_
    cases r with
    | true => exact h
    | false => exact h
  · exact hnone

lemma ActSafe.of_read {f : σ → β} {l : Λ} {Q : β → Λ → Prop}
    (h : ∀ s L, R.inv s L → L t = l → Q (f s) l) :
    R.ActSafe t (fun s => .ok (f s, s)) l Q := by
  intro s L hinv hl _
  refine ⟨l, ?_, h s L hinv hl⟩
  rwa [← hl, Function.update_eq_self]

lemma Safe.step {p q : Prog π σ α} {l : Λ} {Q : α → Λ → Prop} (h : R.Safe t p l Q)
    {s s' : σ} {L : T → Λ} (hinv : R.inv s L) (hl : L t = l) (hstep : p.step s = .ok (q, s'))
    (hG : R.guarantee s s') :
    ∃ l', R.inv s' (Function.update L t l') ∧ R.Safe t q l' Q := by
  cases p with
  | ret a => cases hstep
  | act f k =>
    simp only [Prog.step] at hstep
    split at hstep
    · rename_i b s1 hf
      cases hstep
      have hgood := h s L hinv hl
      rw [hf] at hgood
      exact hgood hG
    · cases hstep
    · cases hstep
  | loop body b k =>
    simp only [Prog.step] at hstep
    cases hstep
    obtain ⟨I, hI, hbody⟩ := h
    refine ⟨l, by rwa [← hl, Function.update_eq_self], Safe.bind ((hbody b l hI).mono ?_)⟩
    rintro (b' | c) l' hr
    · exact ⟨I, hr, hbody⟩
    · exact hr

lemma Safe.not_panic {p : Prog π σ α} {l : Λ} {Q : α → Λ → Prop} (h : R.Safe t p l Q)
    {s : σ} {L : T → Λ} (hinv : R.inv s L) (hl : L t = l) {m : π}
    (hstep : p.step s = .panic m) : ¬ R.excluded s m := by
  cases p with
  | ret a => cases hstep
  | act f k =>
    simp only [Prog.step] at hstep
    split at hstep
    · cases hstep
    · cases hstep
    · rename_i m' hf
      cases hstep
      have hgood := h s L hinv hl
      rwa [hf] at hgood
  | loop body b k => cases hstep

end Rules

/-! ## Ghosts of which one is changed -/

lemma comp_update_of_eq (F : Λ → γ) {L : T → Λ} {t : T} {l : Λ} (h : F l = F (L t)) :
    (fun u => F (Function.update L t l u)) = fun u => F (L u) := by
  funext u
  by_cases hu : u = t
  · subst hu
    simpa using h
  · simp [Function.update_of_ne hu]

lemma comp_update (F : Λ → γ) (L : T → Λ) (t : T) (l : Λ) :
    (fun u => F (Function.update L t l u)) = Function.update (fun u => F (L u)) t (F l) := by
  funext u
  by_cases hu : u = t
  · subst hu
    simp
  · simp [Function.update_of_ne hu]

lemma sum_change {ι M : Type} [Fintype ι] [DecidableEq ι] [AddCommMonoid M] {f g : ι → M} (i : ι)
    (h : ∀ j, j ≠ i → g j = f j) : ∑ j, g j + f i = ∑ j, f j + g i := by
  have hrest : ∑ j ∈ Finset.univ.erase i, g j = ∑ j ∈ Finset.univ.erase i, f j :=
    Finset.sum_congr rfl fun j hj => h j (Finset.ne_of_mem_erase hj)
  rw [← Finset.add_sum_erase _ g (Finset.mem_univ i),
    ← Finset.add_sum_erase _ f (Finset.mem_univ i),
    hrest, add_right_comm, add_comm (g i), add_right_comm]

lemma sum_from_eq {n : ℕ} {M : Type} [AddCommMonoid M] (f : Fin n → M) (i : Fin n) :
    ∑ j ∈ Finset.univ.filter fun j : Fin n => (i : ℕ) ≤ j, f j =
      f i + ∑ j ∈ Finset.univ.filter fun j : Fin n => (i : ℕ) + 1 ≤ j, f j := by
  have hset : (Finset.univ.filter fun j : Fin n => (i : ℕ) ≤ j) =
      insert i (Finset.univ.filter fun j : Fin n => (i : ℕ) + 1 ≤ j) := by
    ext j
    simp only [Finset.mem_filter, Finset.mem_univ, true_and, Finset.mem_insert, Fin.ext_iff]
    omega
  rw [hset, Finset.sum_insert (by simp)]

lemma sum_comp_update [Fintype T] (F : Λ → ℕ) (L : T → Λ) (t : T) (l : Λ) :
    ∑ u, F (Function.update L t l u) + F (L t) = ∑ u, F (L u) + F l := by
  have := sum_change (f := fun u => F (L u)) (g := fun u => F (Function.update L t l u)) t
    fun u hu => by rw [Function.update_of_ne hu]
  rwa [Function.update_self] at this

/-! ## From calls to runs -/

namespace Kernel

variable {Call : Type} {K : Kernel π σ T Call} {R : Rules π σ T Λ}

/-- The state of a proof about a run: the invariant holds for some ghosts, and what each
thread has left to do is safe and ends with the thread's ghost at rest. -/
def Sound (R : Rules π σ T Λ) (rest : T → Λ → Prop) (S : Sys π σ T) : Prop :=
  ∃ L, R.inv S.mem L ∧ ∀ t, R.Safe t (S.thr t) (L t) fun _ l => rest t l

/-- Every call a thread at rest can make is safe. -/
def CallsSafe (K : Kernel π σ T Call) (R : Rules π σ T Λ) (rest : T → Λ → Prop) : Prop :=
  ∀ t c s L, R.inv s L → rest t (L t) → K.guard t c s →
    R.Safe t (K.body t c) (L t) fun _ l => rest t l

lemma Sound.step {rest : T → Λ → Prop} (hcalls : CallsSafe K R rest) {S S' : Sys π σ T}
    (hS : Sound R rest S) (hstep : K.Step S S') (hG : R.guarantee S.mem S'.mem) :
    Sound R rest S' := by
  obtain ⟨L, hinv, hthr⟩ := hS
  cases hstep with
  | call t c hidle hguard =>
    refine ⟨L, hinv, fun t' => ?_⟩
    by_cases ht : t' = t
    · subst ht
      have hrest := hthr t'
      rw [hidle] at hrest
      simpa using hcalls t' c S.mem L hinv hrest hguard
    · simpa [Function.update_of_ne ht] using hthr t'
  | @run t p s hp =>
    obtain ⟨l', hinv', hsafe⟩ := (hthr t).step hinv rfl hp hG
    refine ⟨Function.update L t l', hinv', fun t' => ?_⟩
    by_cases ht : t' = t
    · subst ht
      simpa using hsafe
    · simpa [Function.update_of_ne ht] using hthr t'

/-- The invariant holds in every state of every run whose steps satisfy the guarantee. -/
theorem invariant {rest : T → Λ → Prop} (hcalls : CallsSafe K R rest) {S S' : Sys π σ T}
    (hS : Sound R rest S) (hr : K.Reaches R.guarantee S S') : Sound R rest S' := by
  induction hr with
  | refl => exact hS
  | tail _ hstep hG ih => exact ih.step hcalls hstep hG

lemma Sound.of_start {rest : T → Λ → Prop} {s : σ} {L : T → Λ} (hinv : R.inv s L)
    (hrest : ∀ t, rest t (L t)) : Sound R rest (Sys.start s) :=
  ⟨L, hinv, hrest⟩

lemma Sound.not_panics {rest : T → Λ → Prop} {S : Sys π σ T} (hS : Sound R rest S) {m : π}
    (hm : R.excluded S.mem m) : ¬ Panics S m := by
  rintro ⟨t, ht⟩
  obtain ⟨L, hinv, hthr⟩ := hS
  exact (hthr t).not_panic hinv rfl ht hm

lemma Sound.rest_of_quiet {rest : T → Λ → Prop} {S : Sys π σ T} (hS : Sound R rest S)
    (hq : S.Quiet) : ∃ L, R.inv S.mem L ∧ ∀ t, rest t (L t) := by
  obtain ⟨L, hinv, hthr⟩ := hS
  refine ⟨L, hinv, fun t => ?_⟩
  have h := hthr t
  rw [hq t] at h
  exact h

end Kernel

end Concur
