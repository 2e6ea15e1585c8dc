import Xv6.Framework.Alone
import Xv6.Framework.Crash

/-!
# Programs that run alone, to their end

`Ends J stop p s Q` is total correctness for a single thread: from the memory `s` the program `p`
takes finitely many steps, all into memories with `J`, and then it has ended with `Q`, or its next
action is refused or stops the machine in a way that `stop` allows.  A panic `m` is allowed if
`stop (some m)`, having to wait if `stop none`.

With `stop` always false the program completes (`Ends.exists_completes`).  With `stop` always true
this is the partial correctness of `Framework/Alone.lean`, and it says in addition that the
program's loops come to an end.
-/

namespace Concur

variable {π σ α β γ : Type}

lemma Prog.zoom_bind {τ : Type} (get : σ → τ) (set : τ → σ → σ) (p : Prog π τ α)
    (g : α → Prog π τ β) :
    (p >>= g).zoom get set = p.zoom get set >>= fun a => (g a).zoom get set := by
  induction p with
  | ret a => rfl
  | act f k ih => simp [Prog.zoom, ih]
  | loop body b k _ ih => simp [Prog.zoom, ih]

/-- From the memory `s`, the program keeps `J` and ends in `Q` or stops in a way that is
allowed. -/
inductive Ends (J : σ → Prop) (stop : Option π → Prop) {α : Type} :
    Prog π σ α → σ → (α → σ → Prop) → Prop where
  | ret {a : α} {s : σ} {Q : α → σ → Prop} : Q a s → Ends J stop (.ret a) s Q
  | act {β : Type} {f : σ → Outcome π (β × σ)} {k : β → Prog π σ α} {b : β} {s s' : σ}
      {Q : α → σ → Prop} : f s = .ok (b, s') → J s' → Ends J stop (k b) s' Q →
      Ends J stop (.act f k) s Q
  | blocked {β : Type} {f : σ → Outcome π (β × σ)} {k : β → Prog π σ α} {s : σ}
      {Q : α → σ → Prop} : f s = .blocked → stop none → Ends J stop (.act f k) s Q
  | panic {β : Type} {f : σ → Outcome π (β × σ)} {k : β → Prog π σ α} {s : σ} {m : π}
      {Q : α → σ → Prop} : f s = .panic m → stop (some m) → Ends J stop (.act f k) s Q
  | loop {β γ : Type} {body : β → Prog π σ (β ⊕ γ)} {b : β} {k : γ → Prog π σ α} {s : σ}
      {Q : α → σ → Prop} : Ends J stop (body b >>= Prog.loopNext body k) s Q →
      Ends J stop (.loop body b k) s Q

/-- What an action may do: happen, with `P`, or stop in a way that is allowed. -/
def Outcome.Meets (stop : Option π → Prop) (P : β → Prop) : Outcome π β → Prop
  | .ok b => P b
  | .blocked => stop none
  | .panic m => stop (some m)

lemma Outcome.Meets.mono {stop : Option π → Prop} {P Q : β → Prop} {x : Outcome π β}
    (hx : x.Meets stop P) (h : ∀ b, P b → Q b) : x.Meets stop Q := by
  cases x with
  | ok b => exact h b hx
  | blocked => exact hx
  | panic m => exact hx

lemma Outcome.Meets.bind {stop : Option π → Prop} {P : β → Prop} {Q : γ → Prop}
    {x : Outcome π β} {f : β → Outcome π γ} (hx : x.Meets stop P)
    (hf : ∀ b, P b → (f b).Meets stop Q) : (x >>= f).Meets stop Q := by
  cases x with
  | ok b => exact hf b hx
  | blocked => exact hx
  | panic m => exact hx

namespace Ends

variable {J : σ → Prop} {stop : Option π → Prop} {s s' : σ} {p q : Prog π σ α}
  {Q : α → σ → Prop}

lemma mono (h : Ends J stop p s Q) {Q' : α → σ → Prop} (hQ : ∀ a s', Q a s' → Q' a s') :
    Ends J stop p s Q' := by
  induction h with
  | ret h => exact .ret (hQ _ _ h)
  | act hf hJ _ ih => exact .act hf hJ (ih hQ)
  | blocked hf hs => exact .blocked hf hs
  | panic hf hs => exact .panic hf hs
  | loop _ ih => exact .loop (ih hQ)

lemma weaken (h : Ends J stop p s Q) {stop' : Option π → Prop} (hs : ∀ m, stop m → stop' m) :
    Ends J stop' p s Q := by
  induction h with
  | ret h => exact .ret h
  | act hf hJ _ ih => exact .act hf hJ ih
  | blocked hf h => exact .blocked hf (hs _ h)
  | panic hf h => exact .panic hf (hs _ h)
  | loop _ ih => exact .loop ih

lemma seq {P : α → σ → Prop} (h : Ends J stop p s P) {g : α → Prog π σ β} {Q : β → σ → Prop}
    (hg : ∀ a s', P a s' → Ends J stop (g a) s' Q) : Ends J stop (p >>= g) s Q := by
  induction h with
  | ret h => exact hg _ _ h
  | act hf hJ _ ih => exact .act hf hJ (ih hg)
  | blocked hf hs => exact .blocked hf hs
  | panic hf hs => exact .panic hf hs
  | loop _ ih =>
    have hnext := ih hg
    rw [Prog.bind_assoc] at hnext
    refine .loop ?_
    convert hnext using 3 with r
    cases r with
    | inl b => rfl
    | inr c => rfl

lemma atomic {f : σ → Outcome π (β × σ)} {Q : β → σ → Prop}
    (h : (f s).Meets stop fun r => J r.2 ∧ Q r.1 r.2) : Ends J stop (.atomic f) s Q := by
  cases hf : f s with
  | ok r =>
    rw [hf] at h
    exact .act hf h.1 (.ret h.2)
  | blocked =>
    rw [hf] at h
    exact .blocked hf h
  | panic m =>
    rw [hf] at h
    exact .panic hf h

lemma update {f : σ → Outcome π σ} {Q : Unit → σ → Prop}
    (h : (f s).Meets stop fun s' => J s' ∧ Q () s') : Ends J stop (.update f) s Q := by
  refine atomic ?_
  cases hf : f s <;> rw [hf] at h <;> exact h

lemma modify {f : σ → σ} {Q : Unit → σ → Prop} (hJ : J (f s)) (h : Q () (f s)) :
    Ends J stop (.modify f) s Q :=
  atomic (f := fun s => .ok ((), f s)) ⟨hJ, h⟩

lemma read {f : σ → β} {Q : β → σ → Prop} (hJ : J s) (h : Q (f s) s) :
    Ends J stop (.read f) s Q :=
  atomic (f := fun s => .ok (f s, s)) ⟨hJ, h⟩

lemma when {c : Prop} [Decidable c] {p : Prog π σ Unit} {Q : Unit → σ → Prop}
    (h : c → Ends J stop p s Q) (h' : ¬ c → Q () s) : Ends J stop (.when c p) s Q := by
  by_cases hc : c
  · rw [Prog.when, if_pos hc]
    exact h hc
  · rw [Prog.when, if_neg hc]
    exact .ret (h' hc)

lemma iterate {body : β → Prog π σ (β ⊕ γ)} {b : β} {Q : γ → σ → Prop}
    (h : Ends J stop (body b) s fun r s' =>
      match r with
      | .inl b' => Ends J stop (.iterate body b') s' Q
      | .inr c => Q c s') : Ends J stop (.iterate body b) s Q := by
  refine .loop (h.seq fun r s' hr => ?_)
  cases r with
  | inl b' => exact hr
  | inr c => exact .ret hr

/-- A loop keeps its invariant, and ends because a measure of its variable decreases. -/
lemma iterateMeasure {body : β → Prog π σ (β ⊕ γ)} {Q : γ → σ → Prop} (I : β → σ → Prop) (μ : β → ℕ)
    (hbody : ∀ b s, I b s → Ends J stop (body b) s fun r s' =>
      match r with
      | .inl b' => I b' s' ∧ μ b' < μ b
      | .inr c => Q c s') {b : β} (hI : I b s) : Ends J stop (.iterate body b) s Q := by
  induction hk : μ b using Nat.strong_induction_on generalizing b s with
  | _ k ih =>
    refine iterate ((hbody b s hI).mono fun r s' hr => ?_)
    cases r with
    | inl b' => exact ih (μ b') (hk ▸ hr.2) hr.1 rfl
    | inr c => exact hr

lemma forRange {n : ℕ} {body : Fin n → Prog π σ Unit} {Q : Unit → σ → Prop} (I : ℕ → σ → Prop)
    (hI : I 0 s) (hbody : ∀ (i : Fin n) s, I i s → Ends J stop (body i) s fun _ => I (i + 1))
    (hQ : ∀ s, I n s → Q () s) : Ends J stop (.forRange n body) s Q := by
  refine iterateMeasure (fun i s => i ≤ n ∧ I i s) (fun i => n - i) ?_ ⟨Nat.zero_le n, hI⟩
  rintro i s ⟨hi, hIi⟩
  split
  · rename_i hlt
    exact (hbody ⟨i, hlt⟩ s hIi).seq fun _ s' hI' => .ret ⟨⟨hlt, hI'⟩, by omega⟩
  · obtain rfl : i = n := by omega
    exact .ret (hQ s hIi)

lemma zoom {τ : Type} (get : σ → τ) (set : τ → σ → σ) (hget : ∀ m s, get (set m s) = m)
    (hset : ∀ m m' s, set m' (set m s) = set m' s) {p : Prog π τ α} {m : τ}
    {Q : α → τ → Prop} (h : Ends (fun m => J (set m s)) stop p m Q) :
    Ends J stop (p.zoom get set) (set m s) fun a s' => ∃ m', s' = set m' s ∧ Q a m' := by
  induction h with
  | ret h => exact .ret ⟨_, rfl, h⟩
  | act hf hJ _ ih =>
    refine .act (b := _) ?_ hJ ih
    rw [hget, hf]
    show Outcome.ok (_, _) = _
    rw [hset]
  | blocked hf hs =>
    refine .blocked ?_ hs
    rw [hget, hf]
    rfl
  | panic hf hs =>
    refine .panic ?_ hs
    rw [hget, hf]
    rfl
  | loop _ ih =>
    refine .loop ?_
    rw [Prog.zoom_bind] at ih
    convert ih using 3 with r
    cases r with
    | inl b => rfl
    | inr c => rfl

/-! ## Runs -/

lemma step (h : Ends J stop p s Q) (hJ : J s) (hstep : p.step s = .ok (q, s')) :
    J s' ∧ Ends J stop q s' Q := by
  cases h with
  | ret h => cases hstep
  | act hf hJ' hk =>
    simp only [Prog.step, hf] at hstep
    cases hstep
    exact ⟨hJ', hk⟩
  | blocked hf hs | panic hf hs =>
    simp only [Prog.step, hf] at hstep
    cases hstep
  | loop h =>
    cases hstep
    exact ⟨hJ, h⟩

lemma of_runs (h : Ends J stop p s Q) (hJ : J s) (hr : p.Runs s q s') :
    J s' ∧ Ends J stop q s' Q := by
  induction hr with
  | refl => exact ⟨hJ, h⟩
  | tail _ hstep ih =>
    obtain ⟨hJ', h'⟩ := ih h hJ
    exact h'.step hJ' hstep

lemma of_completes (h : Ends J stop p s Q) (hJ : J s) {a : α} (hr : p.Completes s a s') :
    Q a s' := by
  obtain ⟨-, h'⟩ := h.of_runs hJ hr
  cases h' with
  | ret h => exact h

lemma exists_completes (h : Ends J (fun _ => False) p s Q) :
    ∃ a s', p.Completes s a s' ∧ Q a s' := by
  induction h with
  | ret h => exact ⟨_, _, .refl _ _, h⟩
  | act hf _ _ ih =>
    obtain ⟨a, s', hr, hQ⟩ := ih
    refine ⟨a, s', Prog.runs_of_step ?_ hr, hQ⟩
    simp only [Prog.step, hf]
  | blocked _ hs => cases hs
  | panic _ hs => cases hs
  | loop _ ih =>
    obtain ⟨a, s', hr, hQ⟩ := ih
    exact ⟨a, s', Prog.runs_of_step rfl hr, hQ⟩

end Ends

end Concur
