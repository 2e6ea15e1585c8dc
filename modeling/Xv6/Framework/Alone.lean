import Xv6.Framework.Logic

/-!
# Programs that run alone

What a program does when no other thread runs: `Prog.Runs` and `Prog.Completes` of
`Framework/Prog.lean`, without interleaving.

`Alone J p s Q` says that from the memory `s` every action of `p` leads to a memory with `J`, and
that `Q` holds of the result and the memory if the program ends.  It is the judgement `Safe` of
`Framework/Logic.lean` for a single thread whose ghost is the memory itself, so the rules for
sequences and loops are those.
-/

namespace Concur

variable {π σ α β γ : Type} {J : σ → Prop}

/-- One thread, which knows the memory. -/
def alone (J : σ → Prop) : Rules π σ Unit σ where
  inv s L := L () = s ∧ J s
  guarantee _ _ := True
  excluded _ _ := False

/-- From `s`, the program keeps `J` and ends in `Q`. -/
def Alone (J : σ → Prop) (p : Prog π σ α) (s : σ) (Q : α → σ → Prop) : Prop :=
  (alone J).Safe () p s Q

namespace Alone

variable {s : σ} {p : Prog π σ α}

lemma ret {a : α} {Q : α → σ → Prop} (h : Q a s) : Alone J (.ret a : Prog π σ α) s Q := h

lemma mono {Q Q' : α → σ → Prop} (h : Alone J p s Q) (hQ : ∀ a s', Q a s' → Q' a s') :
    Alone J p s Q' :=
  Rules.Safe.mono h hQ

lemma seq {g : α → Prog π σ β} {P : α → σ → Prop} {Q : β → σ → Prop} (h : Alone J p s P)
    (hg : ∀ a s', P a s' → Alone J (g a) s' Q) : Alone J (p >>= g) s Q :=
  Rules.Safe.seq h hg

lemma atomic {f : σ → Outcome π (β × σ)} {Q : β → σ → Prop}
    (h : ∀ b s', f s = .ok (b, s') → J s' ∧ Q b s') : Alone J (.atomic f) s Q := by
  refine Rules.Safe.atomic fun s0 L hinv hl => .intro (fun _ _ hf => hf) fun b s' hf _ => ?_
  obtain rfl : s0 = s := hinv.1.symm.trans hl
  obtain ⟨hJ, hQ⟩ := h b s' hf
  exact ⟨s', ⟨Function.update_self .., hJ⟩, hQ⟩

lemma update {f : σ → Outcome π σ} {Q : σ → Prop} (h : ∀ s', f s = .ok s' → J s' ∧ Q s') :
    Alone J (.update f) s fun _ => Q := by
  refine atomic fun _ s' hf => ?_
  cases hok : f s with
  | ok s1 =>
    rw [hok] at hf
    cases hf
    exact h s' hok
  | blocked =>
    rw [hok] at hf
    cases hf
  | panic m =>
    rw [hok] at hf
    cases hf

lemma iterate {body : β → Prog π σ (β ⊕ γ)} {b : β} {Q : γ → σ → Prop} (I : β → σ → Prop)
    (hI : I b s)
    (hbody : ∀ b s, I b s → Alone J (body b) s fun r s' =>
      match r with
      | .inl b' => I b' s'
      | .inr c => Q c s') :
    Alone J (.iterate body b) s Q :=
  Rules.Safe.iterate I hI hbody

lemma zoom {τ : Type} {get : σ → τ} {set : τ → σ → σ} (hget : ∀ m s, get (set m s) = m)
    (hset : ∀ m m' s, set m' (set m s) = set m' s) (hid : ∀ s, set (get s) s = s)
    {p : Prog π τ α} {Q : α → σ → Prop}
    (h : Alone (fun _ => True) p (get s) fun a m => Q a (set m s)) :
    Alone (fun _ => True) (p.zoom get set) s Q := by
  -- the memory is always `set m s` for some `m`; the induction is on the program
  suffices ∀ m, Alone (fun _ => True) p m (fun a m' => Q a (set m' s)) →
      Alone (fun _ => True) (p.zoom get set) (set m s) Q by
    have := this (get s) h
    rwa [hid] at this
  clear h
  induction p with
  | ret a => exact fun m h => h
  | act f k ih =>
    intro m h s0 L hinv hl
    obtain rfl : s0 = set m s := hinv.1.symm.trans hl
    refine .intro (fun _ _ hf => hf) fun b s' hf _ => ?_
    simp only [hget] at hf
    cases hok : f m with
    | ok r =>
      rw [hok] at hf
      cases hf
      have hgood := h m (fun _ => m) ⟨rfl, trivial⟩ rfl
      rw [hok] at hgood
      obtain ⟨m', ⟨hm', -⟩, hk⟩ := hgood trivial
      rw [Function.update_self] at hm'
      subst hm'
      rw [hset]
      exact ⟨_, ⟨Function.update_self .., trivial⟩, ih r.1 r.2 hk⟩
    | blocked =>
      rw [hok] at hf
      cases hf
    | panic x =>
      rw [hok] at hf
      cases hf
  | loop body b k ihb ihk =>
    rintro m ⟨I, hI, hbody⟩
    refine ⟨fun b' s' => ∃ m', s' = set m' s ∧ I b' m', ⟨m, rfl, hI⟩, ?_⟩
    rintro b' _ ⟨m', rfl, hI'⟩
    refine ihb b' m' ((hbody b' m' hI').mono ?_)
    rintro (b'' | c) m'' hr
    · exact ⟨m'', rfl, hr⟩
    · exact ihk c m'' hr

lemma of_runs {Q : α → σ → Prop} (h : Alone J p s Q) (hJ : J s) {q : Prog π σ α} {s' : σ}
    (hr : p.Runs s q s') : J s' ∧ Alone J q s' Q := by
  induction hr with
  | refl => exact ⟨hJ, h⟩
  | tail _ hstep ih =>
    obtain ⟨hJ', h'⟩ := ih h hJ
    obtain ⟨l, ⟨hl, hJ''⟩, hsafe⟩ :=
      h'.step (L := fun _ => _) ⟨rfl, hJ'⟩ rfl hstep trivial
    rw [Function.update_self] at hl
    subst hl
    exact ⟨hJ'', hsafe⟩

lemma of_completes {Q : α → σ → Prop} (h : Alone J p s Q) (hJ : J s) {a : α} {s' : σ}
    (hr : p.Completes s a s') : Q a s' :=
  (h.of_runs hJ hr).2

end Alone

/-! ## Evaluation -/

namespace Prog

/-- Run the program alone, for at most so many steps. -/
def advance : ℕ → Prog π σ α → σ → Prog π σ α × σ
  | 0, p, s => (p, s)
  | fuel + 1, p, s =>
    match p.step s with
    | .ok (q, s') => advance fuel q s'
    | _ => (p, s)

/-- Run the program alone to its end, if this takes at most so many steps. -/
def go (fuel : ℕ) (p : Prog π σ α) (s : σ) : Option (α × σ) :=
  match advance fuel p s with
  | (ret a, s') => some (a, s')
  | _ => none

lemma runs_of_step {p q r : Prog π σ α} {s s' u : σ} (h : p.step s = .ok (q, s'))
    (hr : q.Runs s' r u) : p.Runs s r u := by
  -- the run grows at its end
  induction hr with
  | refl => exact .tail (.refl p s) h
  | tail _ hstep ih => exact (ih h).tail hstep

lemma runs_advance (fuel : ℕ) (p : Prog π σ α) (s : σ) :
    p.Runs s (advance fuel p s).1 (advance fuel p s).2 := by
  induction fuel generalizing p s with
  | zero => exact .refl p s
  | succ fuel ih =>
    rw [advance]
    split
    · rename_i hp
      exact runs_of_step hp (ih _ _)
    · exact .refl p s

lemma completes_of_go {fuel : ℕ} {p : Prog π σ α} {s s' : σ} {a : α}
    (h : go fuel p s = some (a, s')) : p.Completes s a s' := by
  have hrun := runs_advance fuel p s
  rw [go] at h
  split at h
  · rename_i heq
    cases h
    rwa [heq] at hrun
  · cases h

lemma exists_completes_of_go {fuel : ℕ} {p : Prog π σ α} {s : σ} (ok : α × σ → Bool)
    (h : (go fuel p s).any ok = true) : ∃ a s', p.Completes s a s' ∧ ok (a, s') = true := by
  rw [Option.any_eq_true] at h
  obtain ⟨⟨a, s'⟩, hgo, hok⟩ := h
  exact ⟨a, s', completes_of_go hgo, hok⟩

end Prog

end Concur
