import Xv6.Framework.Logic
import Xv6.Framework.Ends

/-!
# Judgements on programs

What the two ways to reason about programs have in common: the program of a thread among others,
from a ghost to a ghost (`Rules.Safe`), and a program that runs alone, from a memory to a memory
(`Ends`).  A routine that behaves the same way in both is proved once, for every `Judgement`.
-/

namespace Concur

variable {π σ T Λ α β γ : Type}

/-- A judgement on programs, with what it says the situation is before and after. -/
structure Judgement (π σ : Type) where
  Sit : Type
  /-- Loops have to end. -/
  total : Prop
  does : {α : Type} → Prog π σ α → Sit → (α → Sit → Prop) → Prop
  ret {α : Type} {a : α} {s : Sit} {Q : α → Sit → Prop} : Q a s → does (.ret a) s Q
  mono {α : Type} {p : Prog π σ α} {s : Sit} {Q Q' : α → Sit → Prop} :
    does p s Q → (∀ a s', Q a s' → Q' a s') → does p s Q'
  seq {α β : Type} {p : Prog π σ α} {g : α → Prog π σ β} {s : Sit} {P : α → Sit → Prop}
    {Q : β → Sit → Prop} : does p s P → (∀ a s', P a s' → does (g a) s' Q) → does (p >>= g) s Q
  iterate {β γ : Type} {body : β → Prog π σ (β ⊕ γ)} {Q : γ → Sit → Prop} (I : β → Sit → Prop)
    (μ : β → ℕ) : (∀ b s, I b s → does (body b) s fun r s' =>
      match r with
      | .inl b' => I b' s' ∧ (total → μ b' < μ b)
      | .inr c => Q c s') → ∀ {b s}, I b s → does (.iterate body b) s Q

namespace Judgement

lemma forRange (V : Judgement π σ) {n : ℕ} {body : Fin n → Prog π σ Unit} {s : V.Sit}
    {Q : Unit → V.Sit → Prop} (I : ℕ → V.Sit → Prop) (hI : I 0 s)
    (hbody : ∀ (i : Fin n) s, I i s → V.does (body i) s fun _ => I (i + 1))
    (hend : ∀ s, I n s → Q () s) : V.does (.forRange n body) s Q := by
  refine V.iterate (fun i s => I i s ∧ i ≤ n) (fun i => n - i) ?_ ⟨hI, Nat.zero_le n⟩
  rintro i s ⟨hi, hle⟩
  by_cases hlt : i < n
  · rw [dif_pos hlt]
    exact V.seq (hbody ⟨i, hlt⟩ s hi) fun _ s' h => V.ret ⟨⟨h, hlt⟩, fun _ => by omega⟩
  · rw [dif_neg hlt]
    have hin : i = n := by omega
    exact V.ret (hend s (hin ▸ hi))

/-- The program of a thread among others. -/
def among [DecidableEq T] (R : Rules π σ T Λ) (t : T) : Judgement π σ where
  Sit := Λ
  total := False
  does := R.Safe t
  ret h := h
  mono h hQ := h.mono hQ
  seq h hg := h.seq hg
  iterate I μ hbody _ _ hI := .iterate I hI fun b l hb => (hbody b l hb).mono fun r _ hr => by
    cases r with
    | inl b' => exact hr.1
    | inr c => exact hr

/-- A program that runs alone, and may stop as `stop` allows. -/
def alone (stop : Option π → Prop) : Judgement π σ where
  Sit := σ
  total := True
  does := Ends (fun _ => True) stop
  ret h := .ret h
  mono h hQ := h.mono hQ
  seq h hg := h.seq hg
  iterate I μ hbody _ _ hI := .iterateMeasure I μ
    (fun b s hb => (hbody b s hb).mono fun r _ hr => by
    cases r with
    | inl b' => exact ⟨hr.1, hr.2 trivial⟩
    | inr c => exact hr) hI

end Judgement

end Concur
