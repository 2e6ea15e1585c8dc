import Mathlib.Data.Set.Insert

/-!
# A ledger of allocated units

Units `lo, lo + 1, …, hi - 1` are handed out by an allocator that keeps one bit for each, and
are then recorded in *places*; `R p` is the unit recorded in the place `p`, or `0`.  The ledger
is balanced if a unit's bit is set exactly when the unit is recorded somewhere, and no unit is
recorded in two places.  Between the allocator's answer and the recording a unit is in `limbo`.
Units that were lost, whose bits are set although nothing records them, stay in `limbo` for ever;
the rules leave them alone.

The units below `lo` are never handed out: their bits are set, and no place records them.
-/

namespace Concur

/-- The bits `used` agree with the places `R`. -/
structure Ledger {ι : Type} (lo hi : ℕ) (R : ι → ℕ) (limbo : Set ℕ) (used : ℕ → Bool) : Prop where
  pos : 0 < lo
  range : ∀ p, R p ≠ 0 → lo ≤ R p ∧ R p < hi
  inj : ∀ p q, R p ≠ 0 → R p = R q → p = q
  limbo_range : ∀ b ∈ limbo, lo ≤ b ∧ b < hi
  limbo_free : ∀ b ∈ limbo, ∀ p, R p ≠ b
  used_iff : ∀ b, b < hi → (used b = true ↔ b < lo ∨ b ∈ limbo ∨ ∃ p, R p = b)

namespace Ledger

variable {ι : Type} {lo hi : ℕ} {R R' : ι → ℕ} {limbo : Set ℕ} {used used' : ℕ → Bool} {b : ℕ}

section

variable (h : Ledger lo hi R limbo used)

include h

lemma congr (hR : ∀ p, R' p = R p)
    (hu : ∀ b, b < hi → used' b = used b) : Ledger lo hi R' limbo used' := by
  have hRR : R' = R := funext hR
  subst hRR
  refine { h with used_iff := fun b hb => ?_ }
  rw [hu b hb]
  exact h.used_iff b hb

lemma used_of_ref {p : ι} (hp : R p ≠ 0) :
    used (R p) = true :=
  (h.used_iff _ (h.range p hp).2).2 (Or.inr (Or.inr ⟨p, rfl⟩))

lemma fresh (hb : b < hi) (hfree : used b = false) :
    lo ≤ b ∧ b ∉ limbo ∧ ∀ p, R p ≠ b := by
  have hnot : ¬ (b < lo ∨ b ∈ limbo ∨ ∃ p, R p = b) := by
    rw [← h.used_iff b hb, hfree]
    exact Bool.false_ne_true
  refine ⟨?_, fun hl => hnot (Or.inr (Or.inl hl)), fun p hp => hnot (Or.inr (Or.inr ⟨p, hp⟩))⟩
  by_contra hlt
  exact hnot (Or.inl (not_le.1 hlt))

lemma take (hb : b < hi) (hfree : used b = false)
    (hu : ∀ c, c < hi → used' c = if c = b then true else used c) :
    Ledger lo hi R (insert b limbo) used' := by
  obtain ⟨hlo, -, hR⟩ := h.fresh hb hfree
  refine ⟨h.pos, h.range, h.inj, ?_, ?_, fun c hc => ?_⟩
  · rintro c (rfl | hc)
    · exact ⟨hlo, hb⟩
    · exact h.limbo_range c hc
  · rintro c (rfl | hc)
    · exact hR
    · exact h.limbo_free c hc
  · rw [hu c hc]
    by_cases hcb : c = b
    · subst hcb
      simp
    · rw [if_neg hcb, h.used_iff c hc]
      simp [hcb]

end

lemma store [DecidableEq ι] (h : Ledger lo hi R (insert b limbo) used) (hnew : b ∉ limbo) {p : ι}
    (hp : R p = 0) (hR : ∀ q, R' q = if q = p then b else R q) : Ledger lo hi R' limbo used := by
  have hb := h.limbo_range b (Set.mem_insert _ _)
  have hfree := h.limbo_free b (Set.mem_insert _ _)
  refine ⟨h.pos, fun q hq => ?_, fun q r hq hqr => ?_,
    fun c hc => h.limbo_range c (Set.mem_insert_of_mem _ hc), fun c hc q hq => ?_,
    fun c hc => ?_⟩
  · rw [hR q] at hq ⊢
    by_cases hqp : q = p
    · rw [if_pos hqp]
      exact hb
    · rw [if_neg hqp] at hq ⊢
      exact h.range q hq
  · rw [hR q] at hq hqr
    rw [hR r] at hqr
    by_cases hqp : q = p <;> by_cases hrp : r = p
    · rw [hqp, hrp]
    · rw [if_pos hqp, if_neg hrp] at hqr
      exact absurd hqr.symm (hfree r)
    · rw [if_neg hqp, if_pos hrp] at hqr
      exact absurd hqr (hfree q)
    · rw [if_neg hqp] at hq hqr
      rw [if_neg hrp] at hqr
      exact h.inj q r hq hqr
  · rw [hR q] at hq
    by_cases hqp : q = p
    · rw [if_pos hqp] at hq
      exact hnew (hq ▸ hc)
    · rw [if_neg hqp] at hq
      exact h.limbo_free c (Set.mem_insert_of_mem _ hc) q hq
  · rw [h.used_iff c hc]
    constructor
    · rintro (hlo | (rfl | hl) | ⟨q, rfl⟩)
      · exact Or.inl hlo
      · exact Or.inr (Or.inr ⟨p, by rw [hR p, if_pos rfl]⟩)
      · exact Or.inr (Or.inl hl)
      · by_cases hq : R q < lo
        · exact Or.inl hq
        · have hqp : q ≠ p := by
            rintro rfl
            rw [hp] at hq
            exact hq h.pos
          exact Or.inr (Or.inr ⟨q, by rw [hR q, if_neg hqp]⟩)
    · rintro (hlo | hl | ⟨q, rfl⟩)
      · exact Or.inl hlo
      · exact Or.inr (Or.inl (Set.mem_insert_of_mem _ hl))
      · rw [hR q]
        by_cases hqp : q = p
        · rw [if_pos hqp]
          exact Or.inr (Or.inl (Set.mem_insert _ _))
        · rw [if_neg hqp]
          exact Or.inr (Or.inr ⟨q, rfl⟩)

lemma release [DecidableEq ι] (h : Ledger lo hi R limbo used) {p : ι} (hp : R p ≠ 0)
    (hR : ∀ q, R' q = if q = p then 0 else R q)
    (hu : ∀ c, c < hi → used' c = if c = R p then false else used c) :
    Ledger lo hi R' limbo used' := by
  have hnz : ∀ q, R' q ≠ 0 → R' q = R q ∧ R q ≠ 0 := by
    intro q hq
    rw [hR q] at hq ⊢
    by_cases hqp : q = p
    · rw [if_pos hqp] at hq
      exact absurd rfl hq
    · rw [if_neg hqp] at hq ⊢
      exact ⟨rfl, hq⟩
  refine ⟨h.pos, fun q hq => ?_, fun q r hq hqr => ?_, h.limbo_range, fun c hc q hq => ?_,
    fun c hc => ?_⟩
  · rw [(hnz q hq).1]
    exact h.range q (hnz q hq).2
  · have hr : R' r ≠ 0 := hqr ▸ hq
    rw [(hnz q hq).1, (hnz r hr).1] at hqr
    exact h.inj q r (hnz q hq).2 hqr
  · have hpos := h.pos.trans_le (h.limbo_range c hc).1
    have hq0 : R' q ≠ 0 := by omega
    exact h.limbo_free c hc q ((hnz q hq0).1 ▸ hq)
  · rw [hu c hc]
    by_cases hcp : c = R p
    · subst hcp
      rw [if_pos rfl]
      simp only [Bool.false_eq_true, false_iff, not_or, not_exists]
      refine ⟨not_lt.2 (h.range p hp).1, fun hl => h.limbo_free _ hl p rfl, fun q hq => ?_⟩
      have hq0 : R' q ≠ 0 := by
        rw [hq]
        exact hp
      have hqp : q = p := h.inj q p (hnz q hq0).2 ((hnz q hq0).1 ▸ hq)
      rw [hR q, if_pos hqp] at hq0
      exact hq0 rfl
    · rw [if_neg hcp, h.used_iff c hc]
      constructor
      · rintro (hc' | hc' | ⟨q, rfl⟩)
        · exact Or.inl hc'
        · exact Or.inr (Or.inl hc')
        · have hqp : q ≠ p := fun hqp => hcp (hqp ▸ rfl)
          exact Or.inr (Or.inr ⟨q, by rw [hR q, if_neg hqp]⟩)
      · rintro (hc' | hc' | ⟨q, rfl⟩)
        · exact Or.inl hc'
        · exact Or.inr (Or.inl hc')
        · by_cases hq0 : R' q = 0
          · rw [hq0]
            exact Or.inl h.pos
          · exact Or.inr (Or.inr ⟨q, ((hnz q hq0).1).symm⟩)

end Ledger

end Concur
