import Mathlib.Logic.Function.Basic
import Mathlib.Logic.Relation
import Mathlib.Data.Nat.Notation

/-!
# Programs made of atomic actions, and their interleavings

A routine that runs on shared memory is a *program*: a tree whose nodes are atomic actions
on the memory.  An action is what the routine does while it cannot be interrupted in a way
that another thread could notice, typically one critical section.  An action can also be
refused — the thread has to wait, as for a lock that is taken — and it can stop the machine.

Threads start programs and run them action by action, in any order.  `Kernel.Step` is that
interleaving, `Kernel.Reaches` its runs, and `Kernel.exec` runs a given schedule so that a
concrete run can be evaluated.  A run can be restricted to the steps that satisfy a relation
on the memories before and after (`Kernel.Reaches` takes it as a parameter), which is how a
result that holds only of well-behaved runs is stated.

Nothing here knows what the memory is.  The proof rules are in `Framework/Logic.lean`.
-/

namespace Concur

universe u

/-- The function with its value at `i` replaced.  It is `Function.update` without the transport
that makes that work for dependent functions, so a chain of replacements evaluates by comparing
indices only. -/
def setAt {ι α : Type} [DecidableEq ι] (f : ι → α) (i : ι) (v : α) : ι → α :=
  fun j => if j = i then v else f j

section

variable {ι α : Type} [DecidableEq ι] (f : ι → α) (i : ι) (v : α)

@[simp] lemma setAt_self : setAt f i v i = v := if_pos rfl

lemma setAt_of_ne {i j : ι} (h : j ≠ i) : setAt f i v j = f j := if_neg h

@[elab_as_elim]
lemma setAt_cases {motive : ι → α → Prop} {f : ι → α} {i : ι} {v : α} (j : ι) (here : motive i v)
    (there : ∀ j, j ≠ i → motive j (f j)) : motive j (setAt f i v j) := by
  by_cases hj : j = i
  · subst hj
    rwa [setAt_self]
  · rw [setAt_of_ne _ _ hj]
    exact there j hj

@[elab_as_elim]
lemma update_cases {motive : ι → α → Prop} {f : ι → α} {i : ι} {v : α} (j : ι) (here : motive i v)
    (there : ∀ j, j ≠ i → motive j (f j)) : motive j (Function.update f i v j) := by
  by_cases hj : j = i
  · subst hj
    rwa [Function.update_self]
  · rw [Function.update_of_ne hj]
    exact there j hj

lemma map_setAt {γ : Type} (g : α → γ) {f : ι → α} {i : ι} {v : α} (h : g v = g (f i)) (j : ι) :
    g (setAt f i v j) = g (f j) :=
  setAt_cases j h fun _ _ => rfl

lemma setAt_eq_self : setAt f i (f i) = f := funext fun j => map_setAt id rfl j

lemma setAt_setAt (v' : α) : setAt (setAt f i v) i v' = setAt f i v' := by
  funext j
  by_cases h : j = i <;> simp [setAt, h]

end

/-- What an action does: it happens and yields a value, it has to wait, or it stops the
machine with a message. -/
inductive Outcome (π : Type) (α : Type u) where
  | ok (a : α)
  | blocked
  | panic (m : π)
  deriving DecidableEq, Repr

namespace Outcome

variable {π : Type} {α β : Type u}

/-- Sequencing inside one action. -/
def bind (x : Outcome π α) (f : α → Outcome π β) : Outcome π β :=
  match x with
  | ok a => f a
  | blocked => blocked
  | panic m => panic m

instance : Monad (Outcome π) where
  pure := ok
  bind := bind

@[simp] lemma pure_eq (a : α) : (pure a : Outcome π α) = ok a := rfl

@[simp] lemma ok_bind (a : α) (f : α → Outcome π β) : (ok a >>= f) = f a := rfl

@[simp] lemma blocked_bind (f : α → Outcome π β) :
    ((blocked : Outcome π α) >>= f) = blocked := rfl

@[simp] lemma panic_bind (m : π) (f : α → Outcome π β) :
    ((panic m : Outcome π α) >>= f) = panic m := rfl

/-- A sequence of computations yields a value only if its parts do. -/
lemma bind_eq_ok {x : Outcome π α} {f : α → Outcome π β} {b : β} :
    (x >>= f) = ok b ↔ ∃ a, x = ok a ∧ f a = ok b := by
  cases x with
  | ok a => simp
  | blocked => simp
  | panic m => simp

lemma bind_eq_panic {x : Outcome π α} {f : α → Outcome π β} {m : π} :
    (x >>= f) = panic m ↔ x = panic m ∨ ∃ a, x = ok a ∧ f a = panic m := by
  cases x with
  | ok a => simp
  | blocked => simp
  | panic m => simp

/-- Whether the machine is stopped with the message `m`. -/
def isPanic [DecidableEq π] (x : Outcome π α) (m : π) : Bool :=
  match x with
  | panic m' => m' = m
  | _ => false

lemma eq_panic_of_isPanic [DecidableEq π] {x : Outcome π α} {m : π}
    (h : x.isPanic m = true) : x = panic m := by
  cases x with
  | ok a => cases h
  | blocked => cases h
  | panic m' => rw [of_decide_eq_true h]

/-- Whether there is a value, and it satisfies `p`. -/
def any (x : Outcome π α) (p : α → Bool) : Bool :=
  match x with
  | ok a => p a
  | _ => false

lemma eq_ok_of_any {x : Outcome π α} {p : α → Bool} (h : x.any p = true) :
    ∃ a, x = ok a ∧ p a = true := by
  cases x with
  | ok a => exact ⟨a, rfl, h⟩
  | blocked => cases h
  | panic m => cases h

end Outcome

/-- A program over the memory `σ` with result in `α`: it is finished, or does an action and
goes on with the action's value, or runs the body of a loop until that leaves it. -/
inductive Prog (π σ : Type) : Type → Type 1 where
  | ret {α : Type} (a : α) : Prog π σ α
  | act {α β : Type} (f : σ → Outcome π (β × σ)) (k : β → Prog π σ α) : Prog π σ α
  | loop {α β γ : Type} (body : β → Prog π σ (β ⊕ γ)) (b : β) (k : γ → Prog π σ α) :
      Prog π σ α

namespace Prog

variable {π σ α β γ : Type}

/-- First `p`, then `g` on its result. -/
def bind {α β : Type} : Prog π σ α → (α → Prog π σ β) → Prog π σ β
  | ret a, g => g a
  | act f k, g => act f (fun b => bind (k b) g)
  | loop body b k, g => loop body b (fun c => bind (k c) g)

instance : Monad (Prog π σ) where
  pure := ret
  bind := bind

@[simp] lemma pure_eq (a : α) : (pure a : Prog π σ α) = ret a := rfl

@[simp] lemma ret_bind (a : α) (g : α → Prog π σ β) : (ret a >>= g) = g a := rfl

@[simp] lemma act_bind {δ : Type} (f : σ → Outcome π (δ × σ)) (k : δ → Prog π σ α)
    (g : α → Prog π σ β) : (act f k >>= g) = act f (fun b => k b >>= g) := rfl

@[simp] lemma loop_bind {δ ε : Type} (body : δ → Prog π σ (δ ⊕ ε)) (b : δ)
    (k : ε → Prog π σ α) (g : α → Prog π σ β) :
    (loop body b k >>= g) = loop body b (fun c => k c >>= g) := rfl

/-- One atomic action, as a program. -/
def atomic (f : σ → Outcome π (β × σ)) : Prog π σ β := act f ret

/-- An action that only looks at the memory. -/
def read (f : σ → β) : Prog π σ β := atomic fun s => .ok (f s, s)

/-- An action that only changes the memory. -/
def modify (f : σ → σ) : Prog π σ Unit := atomic fun s => .ok ((), f s)

/-- An action without an answer, which can be refused or stop the machine. -/
def update (f : σ → Outcome π σ) : Prog π σ Unit :=
  atomic fun s => (f s).bind fun s' => .ok ((), s')

/-- `if (c) p;` -/
def when (c : Prop) [Decidable c] (p : Prog π σ Unit) : Prog π σ Unit := if c then p else ret ()

/-- Repeat `body` until it answers `Sum.inr`. -/
def iterate (body : β → Prog π σ (β ⊕ γ)) (b : β) : Prog π σ γ := loop body b ret

/-- The loop `for (i = 0; i < n; i++) body i`. -/
def forRange (n : ℕ) (body : Fin n → Prog π σ Unit) : Prog π σ Unit :=
  iterate (fun i => if h : i < n then do body ⟨i, h⟩; pure (.inl (i + 1)) else pure (.inr ()))
    0

/-- The loop `for (i = 0; i < n; i++) if (body i) return i;`. -/
def firstOf (n : ℕ) (body : Fin n → Prog π σ Bool) : Prog π σ (Option (Fin n)) :=
  iterate (fun i =>
    if h : i < n then do
      if ← body ⟨i, h⟩ then pure (.inr (some ⟨i, h⟩)) else pure (.inl (i + 1))
    else pure (.inr none)) 0

/-- The program on a part of a larger memory, which `get` reads and `set` replaces. -/
def zoom {τ : Type} (get : σ → τ) (set : τ → σ → σ) {α : Type} : Prog π τ α → Prog π σ α
  | ret a => ret a
  | act f k =>
    act (fun s => (f (get s)).bind fun r => .ok (r.1, set r.2 s)) fun b => zoom get set (k b)
  | loop body b k => loop (fun b => zoom get set (body b)) b fun c => zoom get set (k c)

/-- How a loop continues after one round of its body. -/
def loopNext (body : β → Prog π σ (β ⊕ γ)) (k : γ → Prog π σ α) : β ⊕ γ → Prog π σ α
  | .inl b => loop body b k
  | .inr c => k c

/-- One step of a program.  A finished program has none. -/
def step : Prog π σ α → σ → Outcome π (Prog π σ α × σ)
  | ret _, _ => .blocked
  | act f k, s =>
    match f s with
    | .ok (b, s') => .ok (k b, s')
    | .blocked => .blocked
    | .panic m => .panic m
  | loop body b k, s => .ok (body b >>= loopNext body k, s)

lemma step_update_of_panic {f : σ → Outcome π σ} {s : σ} {m : π} (h : f s = .panic m) :
    (update f).step s = .panic m := by
  simp [update, atomic, step, h, Outcome.bind]

/-- Whether a program is finished. -/
def done : Prog π σ α → Bool
  | ret _ => true
  | _ => false

lemma eq_ret_of_done {p : Prog π σ Unit} (h : p.done = true) : p = ret () := by
  cases p with
  | ret a => rfl
  | act f k => cases h
  | loop body b k => cases h

/-- `p.Runs s q s'`: from the memory `s`, the first actions of `p` lead to `s'` and leave
`q` to be done. -/
inductive Runs : Prog π σ α → σ → Prog π σ α → σ → Prop where
  | refl (p : Prog π σ α) (s : σ) : Runs p s p s
  | tail {p q r : Prog π σ α} {s t u : σ} :
      Runs p s q t → q.step t = .ok (r, u) → Runs p s r u

/-- The program runs to its end from `s`, with result `a` and memory `s'`. -/
def Completes (p : Prog π σ α) (s : σ) (a : α) (s' : σ) : Prop := Runs p s (ret a) s'

end Prog

/-! ## Threads -/

/-- The calls that threads can make: `body t c` is the program of the call `c` made by the
thread `t`, and `guard t c` says in which memories `t` may make it. -/
structure Kernel (π σ T Call : Type) where
  body : T → Call → Prog π σ Unit
  guard : T → Call → σ → Prop

/-- The memory, and what each thread still has to do; `ret ()` is a thread between calls. -/
structure Sys (π σ T : Type) where
  mem : σ
  thr : T → Prog π σ Unit

variable {π σ T Call : Type}

/-- No call is in progress. -/
def Sys.Quiet (S : Sys π σ T) : Prop := ∀ t, S.thr t = .ret ()

/-- All threads between calls. -/
def Sys.start (s : σ) : Sys π σ T := ⟨s, fun _ => .ret ()⟩

@[simp] lemma Sys.start_mem (s : σ) : (Sys.start s : Sys π σ T).mem = s := rfl

@[simp] lemma Sys.start_thr (s : σ) (t : T) : (Sys.start s : Sys π σ T).thr t = .ret () := rfl

namespace Kernel

variable [DecidableEq T] (K : Kernel π σ T Call)

/-- One step of the system: a thread makes a call, or does the next action of the one it is
in. -/
inductive Step : Sys π σ T → Sys π σ T → Prop where
  | call {S : Sys π σ T} (t : T) (c : Call) : S.thr t = .ret () → K.guard t c S.mem →
      Step S ⟨S.mem, Function.update S.thr t (K.body t c)⟩
  | run {S : Sys π σ T} (t : T) {p : Prog π σ Unit} {s : σ} :
      (S.thr t).step S.mem = .ok (p, s) → Step S ⟨s, Function.update S.thr t p⟩

/-- The runs of the system all of whose steps satisfy `G`. -/
inductive Reaches (G : σ → σ → Prop) : Sys π σ T → Sys π σ T → Prop where
  | refl (S : Sys π σ T) : Reaches G S S
  | tail {S S' S'' : Sys π σ T} :
      Reaches G S S' → K.Step S' S'' → G S'.mem S''.mem → Reaches G S S''

/-- All runs. -/
def Reachable : Sys π σ T → Sys π σ T → Prop := K.Reaches fun _ _ => True

/-- The next action of some thread stops the machine with the message `m`. -/
def Panics (S : Sys π σ T) (m : π) : Prop := ∃ t, (S.thr t).step S.mem = .panic m

variable {K} in
lemma Reaches.mono {G H : σ → σ → Prop} (h : ∀ s s', G s s' → H s s') {S S' : Sys π σ T}
    (hr : K.Reaches G S S') : K.Reaches H S S' := by
  induction hr with
  | refl => exact .refl _
  | tail _ hstep hG ih => exact ih.tail hstep (h _ _ hG)

variable {K} in
lemma Reaches.trans {G : σ → σ → Prop} {S S' S'' : Sys π σ T}
    (h : K.Reaches G S S') (h' : K.Reaches G S' S'') : K.Reaches G S S'' := by
  induction h' with
  | refl => exact h
  | tail _ hstep hG ih => exact ih.tail hstep hG

/-! ## Running a schedule -/

/-- What a schedule prescribes: a thread makes a call, or takes its next step. -/
inductive Event (T Call : Type) where
  | call (t : T) (c : Call)
  | run (t : T)

variable [∀ t c s, Decidable (K.guard t c s)]

/-- One prescribed step; `none` if the thread cannot take it. -/
def exec1 (S : Sys π σ T) : Event T Call → Option (Sys π σ T)
  | .call t c =>
    if (S.thr t).done && decide (K.guard t c S.mem) then
      some ⟨S.mem, Function.update S.thr t (K.body t c)⟩
    else none
  | .run t =>
    match (S.thr t).step S.mem with
    | .ok (p, s) => some ⟨s, Function.update S.thr t p⟩
    | _ => none

/-- A whole schedule. -/
def exec (S : Sys π σ T) : List (Event T Call) → Option (Sys π σ T)
  | [] => some S
  | e :: es => (exec1 K S e).bind fun S' => exec S' es

variable {K}

lemma exec1_step {S S' : Sys π σ T} {e : Event T Call} (h : K.exec1 S e = some S') :
    K.Step S S' := by
  cases e with
  | call t c =>
    simp only [exec1, Bool.and_eq_true, decide_eq_true_eq, Option.ite_none_right_eq_some,
      Option.some.injEq] at h
    obtain ⟨⟨hdone, hg⟩, rfl⟩ := h
    exact .call t c (Prog.eq_ret_of_done hdone) hg
  | run t =>
    simp only [exec1] at h
    split at h
    · rename_i p s heq
      cases h
      exact .run t heq
    · cases h

lemma exec_reachable {S S' : Sys π σ T} (es : List (Event T Call))
    (h : K.exec S es = some S') : K.Reachable S S' := by
  induction es generalizing S with
  | nil =>
    cases h
    exact .refl _
  | cons e es ih =>
    simp only [exec, Option.bind_eq_some_iff] at h
    obtain ⟨S1, h1, h2⟩ := h
    exact Reaches.trans (.tail (.refl S) (exec1_step h1) trivial) (ih h2)

lemma exec_reaches {S : Sys π σ T} (es : List (Event T Call)) (ok : Sys π σ T → Bool)
    (h : (K.exec S es).any ok = true) : ∃ S', K.Reachable S S' ∧ ok S' = true := by
  rw [Option.any_eq_true] at h
  obtain ⟨S', hS', hok⟩ := h
  exact ⟨S', exec_reachable es hS', hok⟩

lemma exec_panics [DecidableEq π] {S : Sys π σ T} (es : List (Event T Call)) (t : T) {m : π}
    (h : (K.exec S es).any (fun S' => ((S'.thr t).step S'.mem).isPanic m) = true) :
    ∃ S', K.Reachable S S' ∧ Panics S' m := by
  obtain ⟨S', hS', hp⟩ := exec_reaches es _ h
  exact ⟨S', hS', t, Outcome.eq_panic_of_isPanic hp⟩

/-- A whole schedule, all of whose steps have to satisfy `G`. -/
def execIf (G : σ → σ → Prop) [∀ s s', Decidable (G s s')] (S : Sys π σ T) :
    List (Event T Call) → Option (Sys π σ T)
  | [] => some S
  | e :: es => (exec1 K S e).bind fun S' => if G S.mem S'.mem then execIf G S' es else none

lemma execIf_reaches {G : σ → σ → Prop} [∀ s s', Decidable (G s s')] {S : Sys π σ T}
    (es : List (Event T Call)) (ok : Sys π σ T → Bool)
    (h : (execIf (K := K) G S es).any ok = true) : ∃ S', K.Reaches G S S' ∧ ok S' = true := by
  induction es generalizing S with
  | nil => exact ⟨S, .refl S, h⟩
  | cons e es ih =>
    simp only [execIf] at h
    cases he : exec1 K S e with
    | none =>
      rw [he] at h
      cases h
    | some S1 =>
      rw [he, Option.bind_some] at h
      split at h
      · rename_i hG
        obtain ⟨S', hr, hok⟩ := ih h
        exact ⟨S', Reaches.trans (.tail (.refl S) (exec1_step he) hG) hr, hok⟩
      · cases h
end Kernel

end Concur
