import Xv6.Framework.Prog

/-!
# Specifications of atomic sections

What runs inside one action is a state function that can also be refused or stop the machine,
written in the monad `StateT σ (Outcome π)`.  `Wp bad m Q s` says that from the state `s` it
ends in `Q`, if it ends, and does not stop the machine with a message in `bad`.  The rules
follow the monad's operations, so a specification is proved along the text of the section.
-/

namespace Concur

variable {π σ α β : Type}

lemma run_get {f : σ → StateT σ (Outcome π) β} {s : σ} :
    ((get : StateT σ (Outcome π) σ) >>= f) s = f s s := rfl

lemma run_bind {m : StateT σ (Outcome π) α} {f : α → StateT σ (Outcome π) β} {s s' : σ} {a : α}
    (h : m s = .ok (a, s')) : (m >>= f) s = f a s' := by
  change (m s).bind (fun r => f r.1 r.2) = f a s'
  rw [h]
  rfl

/-- The value satisfies `Q`, and the message is not `bad`. -/
def Outcome.Sat (bad : π → Prop) (Q : α → Prop) : Outcome π α → Prop
  | .ok a => Q a
  | .blocked => True
  | .panic m => ¬ bad m

/-- From the state `s`, the section ends in `Q` and not in a message that is `bad`. -/
def Wp (bad : π → Prop) (m : StateT σ (Outcome π) α) (Q : α → σ → Prop) (s : σ) : Prop :=
  (m s).Sat bad fun r => Q r.1 r.2

namespace Wp

variable {bad : π → Prop} {Q : β → σ → Prop} {s : σ}

lemma pure {a : β} (h : Q a s) : Wp bad (Pure.pure a : StateT σ (Outcome π) β) Q s := h

lemma bind {m : StateT σ (Outcome π) α} {f : α → StateT σ (Outcome π) β}
    (h : Wp bad m (fun a => Wp bad (f a) Q) s) : Wp bad (m >>= f) Q s := by
  change ((m s).bind fun r => f r.1 r.2).Sat bad fun r => Q r.1 r.2
  unfold Wp at h
  cases hm : m s with
  | ok r =>
    rw [hm] at h
    exact h
  | blocked => exact trivial
  | panic e =>
    rw [hm] at h
    exact h

lemma mono {m : StateT σ (Outcome π) β} {P : β → σ → Prop} (h : Wp bad m P s)
    (hPQ : ∀ a s', P a s' → Q a s') : Wp bad m Q s := by
  unfold Wp at h ⊢
  cases hm : m s with
  | ok r =>
    rw [hm] at h
    exact hPQ r.1 r.2 h
  | blocked => exact trivial
  | panic e =>
    rw [hm] at h
    exact h

lemma weaken {bad' : π → Prop} {m : StateT σ (Outcome π) β} (h : Wp bad m Q s)
    (hbad : ∀ e, bad' e → bad e) : Wp bad' m Q s := by
  unfold Wp at h ⊢
  cases hm : m s with
  | ok r =>
    rw [hm] at h
    exact h
  | blocked => exact trivial
  | panic e =>
    rw [hm] at h
    exact fun he => h (hbad e he)

lemma seq {m : StateT σ (Outcome π) α} {f : α → StateT σ (Outcome π) β} {P : α → σ → Prop}
    (h : Wp bad m P s) (hf : ∀ a s', P a s' → Wp bad (f a) Q s') : Wp bad (m >>= f) Q s :=
  (h.mono hf).bind

lemma of_ok {m : StateT σ (Outcome π) β} {a : β} {s' : σ} (h : m s = .ok (a, s'))
    (hQ : Q a s') : Wp bad m Q s := by
  unfold Wp
  rw [h]
  exact hQ

lemma get_bind {f : σ → StateT σ (Outcome π) β} (h : Wp bad (f s) Q s) :
    Wp bad (get >>= f) Q s := h

lemma of_modify {f : σ → σ} {Q : Unit → σ → Prop} (h : Q () (f s)) :
    Wp bad (modify f : StateT σ (Outcome π) Unit) Q s := h

lemma and {m : StateT σ (Outcome π) β} {P : β → σ → Prop} (h : Wp bad m P s)
    {bad' : π → Prop} (h' : Wp bad' m Q s) : Wp bad m (fun a s' => P a s' ∧ Q a s') s := by
  unfold Wp at h h' ⊢
  cases hm : m s with
  | ok r =>
    rw [hm] at h h'
    exact ⟨h, h'⟩
  | blocked => exact trivial
  | panic e =>
    rw [hm] at h
    exact h

lemma result {m : StateT σ (Outcome π) β} (h : Wp bad m Q s) {a : β} {s' : σ}
    (hm : m s = .ok (a, s')) : Q a s' := by
  unfold Wp at h
  rw [hm] at h
  exact h

end Wp

end Concur
