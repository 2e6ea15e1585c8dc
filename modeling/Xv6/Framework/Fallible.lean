import Mathlib.Data.List.Basic
import Mathlib.Tactic.Common

/-!
# Programs that can give up

A program in `StateT σ Option` changes a state and can give up, as one does that exits on the
first error.  `Runs F m Q s` says both when it does and what it leaves otherwise: from the state
`s`, the program `m` ends if and only if `F`, and then in `Q`.  The rules follow the monad's
operations; in a sequence the condition of the whole implies the condition of the first part.

`Adds f k m` is about what a program does to a number `f` in the state if it ends, whatever else it
does and when: it adds `k`.  In a sequence the amounts add up.
-/

namespace Concur

variable {σ α β : Type}

/-- From the state `s`, the program ends exactly when `F` holds, and then in `Q`. -/
def Runs (F : Prop) (m : StateT σ Option α) (Q : α → σ → Prop) (s : σ) : Prop :=
  (F → ∃ a s', m s = some (a, s') ∧ Q a s') ∧ (¬ F → m s = none)

/-- Give up unless `c` holds. -/
def assert (c : Prop) [Decidable c] : StateT σ Option Unit :=
  if c then pure () else failure

lemma bind_apply (m : StateT σ Option α) (f : α → StateT σ Option β) (s : σ) :
    (m >>= f) s = (m s).bind fun r => f r.1 r.2 := rfl

lemma pure_apply (a : α) (s : σ) : (pure a : StateT σ Option α) s = some (a, s) := rfl

namespace Runs

variable {F F' : Prop} {Q : β → σ → Prop} {s : σ}

lemma pure {a : β} (h : Q a s) : Runs True (Pure.pure a : StateT σ Option β) Q s :=
  ⟨fun _ => ⟨a, s, rfl, h⟩, fun h => absurd trivial h⟩

lemma of_iff {m : StateT σ Option β} (h : Runs F m Q s) (hF : F' ↔ F) : Runs F' m Q s :=
  ⟨fun h' => h.1 (hF.1 h'), fun h' => h.2 fun h'' => h' (hF.2 h'')⟩

lemma of_eq {m : StateT σ Option β} {a : β} {s' : σ} (h : m s = some (a, s')) (hQ : Q a s') :
    Runs True m Q s :=
  ⟨fun _ => ⟨a, s', h, hQ⟩, fun h => absurd trivial h⟩

lemma mono {m : StateT σ Option β} {P : β → σ → Prop} (h : Runs F m P s)
    (hPQ : ∀ a s', P a s' → Q a s') : Runs F m Q s := by
  refine ⟨fun hF => ?_, h.2⟩
  obtain ⟨a, s', hm, hP⟩ := h.1 hF
  exact ⟨a, s', hm, hPQ a s' hP⟩

lemma bind {F1 : Prop} {m : StateT σ Option α} {f : α → StateT σ Option β} {P : α → σ → Prop}
    (h : Runs F1 m P s) (hF : F → F1) (hf : ∀ a s', F1 → P a s' → Runs F (f a) Q s') :
    Runs F (m >>= f) Q s := by
  have hbind := bind_apply m f s
  by_cases h1 : F1
  · obtain ⟨a, s', hm, hP⟩ := h.1 h1
    rw [hm, Option.bind_some] at hbind
    rw [Runs, hbind]
    exact hf a s' h1 hP
  · rw [h.2 h1, Option.bind_none] at hbind
    exact ⟨fun h' => absurd (hF h') h1, fun _ => hbind⟩

lemma seq {m : StateT σ Option α} {f : α → StateT σ Option β} {a : α} {s' : σ}
    (h : m s = some (a, s')) (hf : Runs F (f a) Q s') : Runs F (m >>= f) Q s :=
  (of_eq (Q := fun a' s'' => a' = a ∧ s'' = s') h ⟨rfl, rfl⟩).bind (fun _ => trivial) (by
    rintro _ _ - ⟨rfl, rfl⟩
    exact hf)

lemma bind_none {m : StateT σ Option α} {f : α → StateT σ Option β} (h : m s = none) :
    (m >>= f) s = none := by
  rw [bind_apply, h, Option.bind_none]

lemma assert_bind {c : Prop} [Decidable c] {f : Unit → StateT σ Option β} (hc : F → c)
    (hf : c → Runs F (f ()) Q s) : Runs F (assert c >>= f) Q s := by
  by_cases h : c
  · have hok : (assert c : StateT σ Option Unit) s = some ((), s) := by
      rw [assert, if_pos h]
      rfl
    exact seq hok (hf h)
  · refine ⟨fun h' => absurd (hc h') h, fun _ => bind_none ?_⟩
    rw [assert, if_neg h]
    rfl

/-- A loop over the list `l`: `I done` holds when the elements of `done` have been handled, and
the loop gets there exactly when `F done`. -/
lemma forM {f : α → StateT σ Option Unit} {F : List α → Prop} {I : List α → σ → Prop}
    {l : List α} (hF : ∀ done a rest, l = done ++ a :: rest → F (done ++ [a]) → F done)
    (hstep : ∀ done a rest s, l = done ++ a :: rest → F done → I done s →
      Runs (F (done ++ [a])) (f a) (fun _ => I (done ++ [a])) s)
    {s : σ} (h0 : F []) (h : I [] s) : Runs (F l) (l.forM f) (fun _ => I l) s := by
  -- by induction on what is left of the list
  have hrest : ∀ rest done, l = done ++ rest → (F l → F done) ∧ ∀ s, F done → I done s →
      Runs (F l) (rest.forM f) (fun _ => I l) s := by
    intro rest
    induction rest with
    | nil =>
      intro done hl
      rw [List.append_nil] at hl
      subst hl
      exact ⟨id, fun s hdone h => (pure (a := ()) h).of_iff (iff_true_intro hdone)⟩
    | cons a rest ih =>
      intro done hl
      obtain ⟨hback, hrun⟩ := ih (done ++ [a]) (by rw [hl, List.append_cons])
      refine ⟨fun h => hF done a rest hl (hback h), fun s hdone h => ?_⟩
      exact (hstep done a rest s hl hdone h).bind hback fun _ s' h1 h2 => hrun s' h1 h2
  exact (hrest l [] rfl).2 s h0 h

end Runs

/-- If the program ends, it has added `k` to the number `f`. -/
def Adds (f : σ → ℕ) (k : ℕ) (m : StateT σ Option α) : Prop :=
  ∀ s a s', m s = some (a, s') → f s' = f s + k

namespace Adds

variable {f : σ → ℕ} {k l : ℕ}

lemma of_eq {m : StateT σ Option α} (h : Adds f k m) (hk : k = l) : Adds f l m := hk ▸ h

lemma pure (a : α) : Adds f 0 (Pure.pure a : StateT σ Option α) := by
  intro s b s' h
  cases h
  rfl

lemma get : Adds f 0 (MonadState.get : StateT σ Option σ) := by
  intro s b s' h
  cases h
  rfl

lemma modify {g : σ → σ} (h : ∀ s, f (g s) = f s + k) :
    Adds f k (modify g : StateT σ Option PUnit) := by
  intro s b s' hs
  cases hs
  exact h s

lemma assert (c : Prop) [Decidable c] : Adds f 0 (assert c : StateT σ Option Unit) := by
  intro s b s' h
  unfold Concur.assert at h
  split at h <;> cases h
  rfl

lemma bind {m : StateT σ Option α} {g : α → StateT σ Option β} (hm : Adds f k m)
    (hg : ∀ a, Adds f l (g a)) : Adds f (k + l) (m >>= g) := by
  intro s b s'' h
  obtain ⟨⟨a, s'⟩, h1, h2⟩ := Option.bind_eq_some_iff.1 h
  rw [hg a s' b s'' h2, hm s a s' h1, Nat.add_assoc]

lemma forM {g : α → StateT σ Option Unit} (hg : ∀ a, Adds f k (g a)) (as : List α) :
    Adds f (as.length * k) (as.forM g) := by
  induction as with
  | nil =>
    rw [List.length_nil, Nat.zero_mul]
    exact pure ()
  | cons a as ih =>
    rw [List.length_cons, Nat.succ_mul, Nat.add_comm]
    exact (hg a).bind fun _ => ih

end Adds

end Concur
