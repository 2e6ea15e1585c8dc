import Xv6.Framework.Prog

/-!
# Programs that can be cut off at any action

`CrashSafe C Q p s` says that the program `p`, run alone from the memory `s`, comes to its
end in `Q`, and that `C` holds of the memory before every action and at the end: whatever
the point at which a crash cuts the run off, it finds a memory in `C`.  The judgement is an
inductive predicate, so it includes that the run ends, loops included.
-/

namespace Concur

variable {π σ α β γ : Type}

namespace Prog

lemma bind_assoc (p : Prog π σ α) (f : α → Prog π σ β) (g : β → Prog π σ γ) :
    (p >>= f) >>= g = p >>= fun a => f a >>= g := by
  induction p with
  | ret a => rfl
  | act f k ih => simp [ih]
  | loop body b k _ ih => simp [ih]

lemma bind_pure (p : Prog π σ α) : (p >>= fun a => pure a) = p := by
  induction p with
  | ret a => rfl
  | act f k ih => exact congrArg (act f) (funext ih)
  | loop body b k _ ih => exact congrArg (loop body b) (funext ih)

end Prog

/-- The run of `p` from `s` ends in `Q`, and `C` holds all along. -/
inductive CrashSafe (C : σ → Prop) (Q : α → σ → Prop) : Prog π σ α → σ → Prop where
  | ret {a : α} {s : σ} : C s → Q a s → CrashSafe C Q (.ret a) s
  | act {δ : Type} {f : σ → Outcome π (δ × σ)} {k : δ → Prog π σ α} {s s' : σ} {b : δ} :
      C s → f s = .ok (b, s') → CrashSafe C Q (k b) s' → CrashSafe C Q (.act f k) s
  | loop {δ ε : Type} {body : δ → Prog π σ (δ ⊕ ε)} {b : δ} {k : ε → Prog π σ α} {s : σ} :
      C s → CrashSafe C Q (body b >>= Prog.loopNext body k) s →
      CrashSafe C Q (.loop body b k) s

namespace CrashSafe

variable {C : σ → Prop} {Q : α → σ → Prop}

lemma crash {p : Prog π σ α} {s : σ} (h : CrashSafe C Q p s) : C s := by
  cases h with
  | ret hC _ => exact hC
  | act hC _ _ => exact hC
  | loop hC _ => exact hC

lemma mono {C' : σ → Prop} {Q' : α → σ → Prop} {p : Prog π σ α} {s : σ}
    (h : CrashSafe C Q p s) (hC : ∀ s, C s → C' s) (hQ : ∀ a s, Q a s → Q' a s) :
    CrashSafe C' Q' p s := by
  induction h with
  | ret h1 h2 => exact .ret (hC _ h1) (hQ _ _ h2)
  | act h1 h2 _ ih => exact .act (hC _ h1) h2 ih
  | loop h1 _ ih => exact .loop (hC _ h1) ih

lemma bind {Q' : β → σ → Prop} {p : Prog π σ α} {g : α → Prog π σ β} {s : σ}
    (h : CrashSafe C (fun a s' => CrashSafe C Q' (g a) s') p s) :
    CrashSafe C Q' (p >>= g) s := by
  induction h with
  | ret _ h2 => exact h2
  | act h1 h2 _ ih => exact .act h1 h2 ih
  | @loop _ _ body b k s h1 _ ih =>
    have hnext : (fun r => Prog.loopNext body k r >>= g) =
        Prog.loopNext body fun c => k c >>= g := by
      funext r
      cases r <;> rfl
    rw [Prog.bind_assoc, hnext] at ih
    exact .loop h1 ih

lemma seq {P : α → σ → Prop} {Q' : β → σ → Prop} {p : Prog π σ α} {g : α → Prog π σ β}
    {s : σ} (h : CrashSafe C P p s) (hg : ∀ a s', P a s' → CrashSafe C Q' (g a) s') :
    CrashSafe C Q' (p >>= g) s :=
  (h.mono (fun _ hC => hC) hg).bind

lemma read_bind {f : σ → β} {g : β → Prog π σ α} {s : σ} (hC : C s)
    (h : CrashSafe C Q (g (f s)) s) : CrashSafe C Q (Prog.read f >>= g) s :=
  .act hC rfl h

lemma modify_bind {f : σ → σ} {g : Unit → Prog π σ α} {s : σ} (hC : C s)
    (h : CrashSafe C Q (g ()) (f s)) : CrashSafe C Q (Prog.modify f >>= g) s :=
  .act hC rfl h

lemma modify {f : σ → σ} {Q : Unit → σ → Prop} {s : σ} (hC : C s) (hC' : C (f s))
    (hQ : Q () (f s)) : CrashSafe C Q (Prog.modify f : Prog π σ Unit) s :=
  .act hC rfl (.ret hC' hQ)

lemma step {p q : Prog π σ α} {s s' : σ} (h : CrashSafe C Q p s)
    (hstep : p.step s = .ok (q, s')) : CrashSafe C Q q s' := by
  cases h with
  | ret _ _ => cases hstep
  | act _ hf hk =>
    simp only [Prog.step, hf] at hstep
    cases hstep
    exact hk
  | loop _ hb =>
    cases hstep
    exact hb

lemma runs {p q : Prog π σ α} {s s' : σ} (h : CrashSafe C Q p s) (hr : p.Runs s q s') :
    CrashSafe C Q q s' := by
  induction hr with
  | refl => exact h
  | tail _ hstep ih => exact (ih h).step hstep

lemma crash_of_runs {p q : Prog π σ α} {s s' : σ} (h : CrashSafe C Q p s)
    (hr : p.Runs s q s') : C s' :=
  (h.runs hr).crash

lemma post_of_completes {p : Prog π σ α} {s s' : σ} {a : α} (h : CrashSafe C Q p s)
    (hr : p.Completes s a s') : Q a s' := by
  cases h.runs hr with
  | ret _ hQ => exact hQ

lemma completes {p : Prog π σ α} {s : σ} (h : CrashSafe C Q p s) :
    ∃ a s', p.Completes s a s' := by
  have key : ∀ {p0 : Prog π σ α} {s0 : σ}, p0.Runs s0 p s → ∃ a s', p0.Completes s0 a s' := by
    induction h with
    | ret _ _ => exact fun hr => ⟨_, _, hr⟩
    | act _ hf _ ih => exact fun hr => ih (hr.tail (by simp [Prog.step, hf]))
    | loop _ _ ih => exact fun hr => ih (hr.tail rfl)
  exact key (.refl p s)

end CrashSafe

end Concur
