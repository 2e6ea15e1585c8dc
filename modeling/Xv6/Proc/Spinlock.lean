import Xv6.Framework.Logic
import Mathlib.Data.Finset.Card

/-!
# Spinlocks

`spinlock.c` one access to the memory at a time, on any number of CPUs that call `acquire` and
`release` as they like.  `acquire` turns the interrupts off, tests `lk->locked` and `lk->cpu` one
after the other without having the lock, spins on the atomic swap, and only then records its CPU;
`release` clears the record before the word.

The other models take a lock in one action.  Here is why they may: the swap that finds `0` takes the
lock, the store of `0` frees it, and no other CPU takes it in between.  An interrupt comes in
between two calls, where its handler makes more of them.  The memory is sequentially consistent, and
`noff` does not overflow.
-/

namespace Xv6.Spin

open Concur

/-- `struct spinlock`, without its name. -/
structure Spinlock (N : ℕ) where
  locked : Bool
  cpu : Option (Fin N)

/-- `struct cpu`, with the interrupt enable bit.  `held` is not in the source: the locks that the
CPU has swapped in and not stored back. -/
structure Cpu (ι : Type) where
  noff : ℕ
  intena : Bool
  sie : Bool
  held : Finset ι

/-- The locks and the CPUs. -/
structure St (N : ℕ) (ι : Type) where
  lock : ι → Spinlock N
  cpu : Fin N → Cpu ι

/-- The messages of `panic`, with the lock and the CPU they are about. -/
inductive Stop (N : ℕ) (ι : Type) where
  /-- "acquire" -/
  | acquire (l : ι) (c : Fin N)
  /-- "release" -/
  | release (l : ι) (c : Fin N)
  /-- "pop_off - interruptible" -/
  | interruptible
  /-- "pop_off" -/
  | popOff

/-- After `initlock`, with the interrupts of some CPUs on. -/
def St.init {N : ℕ} {ι : Type} (on : Fin N → Bool) : St N ι :=
  ⟨fun _ => ⟨false, none⟩, fun c => ⟨0, false, on c, ∅⟩⟩

section

variable {N : ℕ} {ι : Type} [DecidableEq ι]

/-- `push_off`.  An interrupt can come in only before it has done anything. -/
def Cpu.pushOff (x : Cpu ι) : Cpu ι :=
  { x with sie := false, intena := if x.noff = 0 then x.sie else x.intena, noff := x.noff + 1 }

/-- `pop_off` -/
def Cpu.popOff (x : Cpu ι) : Outcome (Stop N ι) (Cpu ι) :=
  if x.sie then .panic .interruptible
  else if x.noff < 1 then .panic .popOff
  else .ok { x with
    noff := x.noff - 1
    sie := if x.noff - 1 = 0 ∧ x.intena then true else x.sie }

/-- The CPU with the lock `l`, or without it. -/
def Cpu.has (x : Cpu ι) (l : ι) (b : Bool) : Cpu ι :=
  { x with held := if b then insert l x.held else x.held.erase l }

def St.setCpu (s : St N ι) (c : Fin N) (x : Cpu ι) : St N ι := { s with cpu := setAt s.cpu c x }

def St.setLock (s : St N ι) (l : ι) (x : Spinlock N) : St N ι := { s with lock := setAt s.lock l x }

variable (c : Fin N) (l : ι)

/-- `holding`: `lk->cpu` is read after `lk->locked`, and only if that is set. -/
def holding : Prog (Stop N ι) (St N ι) Bool := do
  let locked ← .read fun s => (s.lock l).locked
  if locked then .read fun s => decide ((s.lock l).cpu = some c) else pure false

/-- `__sync_lock_test_and_set(&lk->locked, 1)` -/
def testAndSet (s : St N ι) : Bool × St N ι :=
  if (s.lock l).locked then (true, s)
  else (false, (s.setLock l { s.lock l with locked := true }).setCpu c ((s.cpu c).has l true))

/-- `lk->cpu = x` -/
def St.setOwner (s : St N ι) (x : Option (Fin N)) : St N ι := s.setLock l { s.lock l with cpu := x }

/-- `__sync_lock_release(&lk->locked)` -/
def syncRelease (s : St N ι) : St N ι :=
  (s.setLock l { s.lock l with locked := false }).setCpu c ((s.cpu c).has l false)

def acquire : Prog (Stop N ι) (St N ι) Unit := do
  .modify fun s => s.setCpu c (s.cpu c).pushOff
  let r ← holding c l
  if r then .update fun _ => .panic (.acquire l c)
  else do
    .iterate (fun _ => do
      let old ← .atomic fun s => .ok (testAndSet c l s)
      pure (if old then .inl () else .inr ())) ()
    .modify fun s => s.setOwner l (some c)

def release : Prog (Stop N ι) (St N ι) Unit := do
  let r ← holding c l
  if r then do
    .modify fun s => s.setOwner l none
    .modify (syncRelease c l)
    .update fun s => (s.cpu c).popOff.bind fun x => .ok (s.setCpu c x)
  else .update fun _ => .panic (.release l c)

inductive Call (ι : Type) where
  | acquire (l : ι)
  | release (l : ι)

/-- A CPU may make any call at any time. -/
def kernel (N : ℕ) (ι : Type) [DecidableEq ι] : Kernel (Stop N ι) (St N ι) (Fin N) (Call ι) where
  body c
    | .acquire l => acquire c l
    | .release l => release c l
  guard _ _ _ := True

instance decidableGuard (k : Call ι) (s : St N ι) : Decidable ((kernel N ι).guard c k s) :=
  inferInstanceAs (Decidable True)

/-! ## The invariant -/

/-- Where a CPU is: it has called `push_off` for a lock that it has not taken yet or no longer has,
or it has a lock in which its name does not stand. -/
inductive Task (ι : Type) where
  | idle
  | pushed
  | unnamed (l : ι)
  deriving DecidableEq

/-- With `n` calls of `push_off` not undone: the interrupts are off, and the first call has kept how
they were. -/
structure Cpu.Ok (x : Cpu ι) (on : Bool) (n : ℕ) : Prop where
  noff : x.noff = n
  sie : x.sie = if n = 0 then on else false
  intena : 0 < n → x.intena = on

/-- How often `push_off` has been called on the CPU. -/
def depth (x : Cpu ι) (g : Task ι) : ℕ := x.held.card + if g = .pushed then 1 else 0

/-- Each CPU knows its own data and where it is.  A lock has the name of the CPU that has it, but
for the moments after the swap and before the store of `0`. -/
structure Inv (on : Fin N → Bool) (s : St N ι) (L : Fin N → Cpu ι × Task ι) : Prop where
  excl : ∀ l c c', l ∈ (L c).1.held → l ∈ (L c').1.held → c = c'
  locked : ∀ l, (s.lock l).locked = true ↔ ∃ c, l ∈ (L c).1.held
  owner : ∀ l c, (s.lock l).cpu = some c ↔ l ∈ (L c).1.held ∧ (L c).2 ≠ .unnamed l
  unnamed : ∀ l c, (L c).2 = .unnamed l → l ∈ (L c).1.held
  mine : ∀ c, s.cpu c = (L c).1
  ok : ∀ c, (L c).1.Ok (on c) (depth (L c).1 (L c).2)

/-- What a `panic` would be a mistake about. -/
def Wrong (s : St N ι) : Stop N ι → Prop
  | .acquire l c => l ∉ (s.cpu c).held
  | .release l c => l ∈ (s.cpu c).held
  | .interruptible | .popOff => True

def rules (ι : Type) [DecidableEq ι] (on : Fin N → Bool) :
    Rules (Stop N ι) (St N ι) (Fin N) (Cpu ι × Task ι) :=
  ⟨Inv on, fun _ _ => True, Wrong⟩

variable {c l} {on : Fin N → Bool} {s : St N ι} {L : Fin N → Cpu ι × Task ι} {x y : Cpu ι}
  {g : Task ι} {b : Bool} {n : ℕ}

omit [DecidableEq ι] in
lemma Cpu.Ok.pushOff (h : x.Ok b n) : x.pushOff.Ok b (n + 1) := by
  refine ⟨congrArg (· + 1) h.noff, rfl, fun _ => ?_⟩
  show (if x.noff = 0 then x.sie else x.intena) = b
  rw [h.noff, h.sie]
  split
  · rfl
  · exact h.intena (by omega)

omit [DecidableEq ι] in
lemma Cpu.Ok.popOff (h : x.Ok b (n + 1)) :
    ∃ y, x.popOff = (.ok y : Outcome (Stop N ι) _) ∧ y.Ok b n ∧ y.held = x.held := by
  have hsie : x.sie = false := h.sie
  refine ⟨{ x with noff := n, sie := if n = 0 then b else false }, ?_, ⟨rfl, rfl, fun _ => ?_⟩, rfl⟩
  · simp [Cpu.popOff, h.noff, hsie, h.intena n.succ_pos]
  · exact h.intena n.succ_pos

lemma Cpu.Ok.has (h : x.Ok b n) (l : ι) (a : Bool) : (x.has l a).Ok b n :=
  ⟨h.noff, h.sie, h.intena⟩

omit [DecidableEq ι] in
lemma exists_held (m : Cpu ι × Task ι) (l : ι) :
    (∃ u, l ∈ (Function.update L c m u).1.held) ↔ l ∈ m.1.held ∨ ∃ u ≠ c, l ∈ (L u).1.held :=
  Function.exists_update_iff L fun _ v => l ∈ v.1.held

lemma Inv.self (h : Inv on s L) (hc : L c = (x, g)) : s.cpu c = x ∧ x.Ok (on c) (depth x g) := by
  have hok := h.ok c
  rw [hc] at hok
  exact ⟨by rw [h.mine, hc], hok⟩

/-! Each action keeps the invariant.  Only the CPU's own locks change, and what the others know is
about theirs. -/

lemma Inv.setCpu (h : Inv on s L) (hc : L c = (x, g)) (hheld : y.held = x.held) (g' : Task ι)
    (hg : ∀ l, g ≠ .unnamed l) (hg' : ∀ l, g' ≠ .unnamed l) (hy : y.Ok (on c) (depth y g')) :
    Inv on (s.setCpu c y) (Function.update L c (y, g')) := by
  obtain ⟨excl, locked, owner, unnamed, mine, ok⟩ := h
  constructor
  case ok => exact fun u => update_cases u hy fun u _ => ok u
  -- here `grind` would have to guess the CPU that has the lock
  case locked => simp only [exists_held, St.setCpu]; grind
  all_goals simp only [Function.update_apply, St.setCpu, setAt]; grind

lemma Inv.take (h : Inv on s L) (hc : L c = (x, .pushed)) (hl : (s.lock l).locked = false) :
    Inv on ((s.setLock l { s.lock l with locked := true }).setCpu c (x.has l true))
      (Function.update L c (x.has l true, .unnamed l)) := by
  have hx := (h.self hc).2
  obtain ⟨excl, locked, owner, unnamed, mine, ok⟩ := h
  constructor
  case ok =>
    have hfree : l ∉ x.held := by grind
    refine fun u => update_cases u ?_ fun u _ => ok u
    have hdepth : depth (x.has l true) (.unnamed l) = depth x .pushed := by
      simp [depth, Cpu.has, hfree]
    exact hdepth ▸ hx.has l true
  case locked => simp only [exists_held, St.setCpu, St.setLock, Cpu.has, setAt]; grind
  all_goals simp only [Function.update_apply, St.setCpu, St.setLock, Cpu.has, setAt]; grind

lemma Inv.setOwner (h : Inv on s L) (hl : l ∈ x.held)
    (hc : L c = (x, if b then .unnamed l else .idle)) :
    Inv on (s.setOwner l (if b then some c else none))
      (Function.update L c (x, if b then .idle else .unnamed l)) := by
  have hx := (h.self hc).2
  obtain ⟨excl, locked, owner, unnamed, mine, ok⟩ := h
  constructor
  case ok =>
    refine fun u => update_cases u ?_ fun u _ => ok u
    cases b <;> exact hx
  case locked => simp only [exists_held, St.setOwner, St.setLock, setAt]; grind
  all_goals simp only [Function.update_apply, St.setOwner, St.setLock, setAt]; grind

lemma Inv.free (h : Inv on s L) (hc : L c = (x, .unnamed l)) :
    Inv on (syncRelease c l s) (Function.update L c (x.has l false, .pushed)) := by
  have hx := (h.self hc).2
  obtain ⟨excl, locked, owner, unnamed, mine, ok⟩ := h
  constructor
  case ok =>
    have hl : l ∈ x.held := by grind
    refine fun u => update_cases u ?_ fun u _ => ok u
    have hdepth : depth (x.has l false) .pushed = depth x (.unnamed l) := by
      simp [depth, Cpu.has, Finset.card_erase_add_one hl]
    exact hdepth ▸ hx.has l false
  case locked => simp only [exists_held, syncRelease, St.setCpu, St.setLock, Cpu.has, setAt]; grind
  all_goals
    simp only [Function.update_apply, syncRelease, St.setCpu, St.setLock, Cpu.has, setAt]; grind

/-! ## The calls -/

lemma holding_safe (hg : ∀ k, g ≠ .unnamed k) : (rules ι on).Safe c (holding c l) (x, g)
    fun r m => m = (x, g) ∧ (r = true ↔ l ∈ x.held) := by
  refine Rules.Safe.seq (P := fun r m => m = (x, g) ∧ (l ∈ x.held → r = true))
    (Rules.ActSafe.of_read fun s L h hc => ⟨rfl, fun hl => ?_⟩) ?_
  · exact (Inv.locked h l).2 ⟨c, by rwa [hc]⟩
  · rintro r m ⟨rfl, hr⟩
    cases r with
    | false => exact ⟨rfl, iff_of_false Bool.false_ne_true fun hl => Bool.false_ne_true (hr hl)⟩
    | true =>
      refine Rules.ActSafe.of_read fun s L h hc => ⟨rfl, ?_⟩
      rw [decide_eq_true_iff, Inv.owner h, hc]
      exact and_iff_left (hg l)

lemma acquire_safe : (rules ι on).Safe c (acquire c l) (x, .idle) fun _ m => m.2 = .idle := by
  refine Rules.Safe.seq (P := fun _ m => m.2 = .pushed) (Rules.Safe.modify ?_) ?_
  · intro s L h hc _
    obtain ⟨hm, hx⟩ := Inv.self h hc
    rw [hm]
    exact ⟨_, Inv.setCpu (y := x.pushOff) h hc rfl .pushed (by simp) (by simp) hx.pushOff, rfl⟩
  rintro _ ⟨x, _⟩ rfl
  refine (holding_safe (by simp)).seq ?_
  rintro r _ ⟨rfl, hr⟩
  cases r with
  | true =>
    refine Rules.Safe.update fun s L h hc => ?_
    show ¬ l ∉ (s.cpu c).held
    rw [(Inv.self h hc).1, not_not]
    exact hr.1 rfl
  | false =>
    refine Rules.Safe.seq (P := fun _ m => m.2 = .unnamed l)
      (Rules.Safe.iterate (fun _ m => m = (x, .pushed)) rfl ?_) ?_
    · rintro _ _ rfl
      refine Rules.Safe.seq (P := fun old m => if old then m = (x, .pushed) else m.2 = .unnamed l)
        (Rules.Safe.atomic fun s L h hc => ?_) fun old m hm => by cases old <;> exact hm
      simp only [testAndSet]
      split
      · exact fun _ => ⟨_, by rwa [← hc, Function.update_eq_self], rfl⟩
      · rename_i hfree
        rw [(Inv.self h hc).1]
        exact fun _ => ⟨_, Inv.take h hc (Bool.eq_false_iff.2 hfree), rfl⟩
    · rintro _ ⟨x, _⟩ rfl
      refine Rules.Safe.modify fun s L h hc _ => ?_
      have hl := Inv.unnamed h l c (by rw [hc])
      rw [hc] at hl
      exact ⟨_, Inv.setOwner (b := true) h hl hc, rfl⟩

lemma release_safe : (rules ι on).Safe c (release c l) (x, .idle) fun _ m => m.2 = .idle := by
  refine (holding_safe (by simp)).seq ?_
  rintro r _ ⟨rfl, hr⟩
  cases r with
  | false =>
    refine Rules.Safe.update fun s L h hc => ?_
    show ¬ l ∈ (s.cpu c).held
    rw [(Inv.self h hc).1, ← hr]
    exact Bool.false_ne_true
  | true =>
    refine Rules.Safe.seq (P := fun _ m => m = (x, .unnamed l)) (Rules.Safe.modify ?_) ?_
    · exact fun s L h hc _ => ⟨_, Inv.setOwner (b := false) h (hr.1 rfl) hc, rfl⟩
    rintro _ _ rfl
    refine Rules.Safe.seq (P := fun _ m => m.2 = .pushed) (Rules.Safe.modify ?_) ?_
    · exact fun s L h hc _ => ⟨_, Inv.free h hc, rfl⟩
    rintro _ ⟨x, _⟩ rfl
    refine Rules.Safe.update fun s L h hc => ?_
    obtain ⟨hm, hx⟩ := Inv.self h hc
    obtain ⟨y, hy, hok, hheld⟩ := Cpu.Ok.popOff (N := N) hx
    rw [hm, hy]
    have hd : y.Ok (on c) (depth y .idle) := by
      rw [depth, hheld]
      exact hok
    exact fun _ => ⟨_, Inv.setCpu h hc hheld .idle (by simp) (by simp) hd, rfl⟩

end

/-- `acquire` and `release` give mutual exclusion whatever the CPUs do.  The word of a lock is set
while a CPU has it, and that CPU has its interrupts off; between calls, `holding` and `noff` are
right, and without a lock the interrupts are as they were.  `acquire` panics only on a lock that the
CPU has, `release` only on one that it does not have, and `pop_off` never does. -/
theorem spinlocks_exclude {N : ℕ} {ι : Type} [DecidableEq ι] (on : Fin N → Bool)
    (S : Sys (Stop N ι) (St N ι) (Fin N)) (h : (kernel N ι).Reachable (.start (.init on)) S) :
    (∀ l c c', l ∈ (S.mem.cpu c).held → l ∈ (S.mem.cpu c').held → c = c') ∧
    (∀ l, (S.mem.lock l).locked = true ↔ ∃ c, l ∈ (S.mem.cpu c).held) ∧
    (∀ l c, l ∈ (S.mem.cpu c).held → (S.mem.cpu c).sie = false) ∧
    (∀ c, S.thr c = .ret () →
      (∀ l, (S.mem.lock l).locked = true ∧ (S.mem.lock l).cpu = some c ↔
        l ∈ (S.mem.cpu c).held) ∧
      (S.mem.cpu c).noff = (S.mem.cpu c).held.card ∧
      ((S.mem.cpu c).held = ∅ → (S.mem.cpu c).sie = on c)) ∧
    (∀ l c, Kernel.Panics S (.acquire l c) → l ∈ (S.mem.cpu c).held) ∧
    (∀ l c, Kernel.Panics S (.release l c) → l ∉ (S.mem.cpu c).held) ∧
    ¬ Kernel.Panics S .interruptible ∧ ¬ Kernel.Panics S .popOff := by
  have hcalls : Kernel.CallsSafe (kernel N ι) (rules ι on) fun _ m => m.2 = .idle := by
    intro c k s L _ hl _
    rw [← Prod.mk.eta (p := L c), hl]
    cases k with
    | acquire l => exact acquire_safe
    | release l => exact release_safe
  have hstart : Inv (ι := ι) on (.init on) fun c => (⟨0, false, on c, ∅⟩, .idle) := by
    constructor <;> simp [St.init, depth]
    exact fun c => ⟨rfl, rfl, fun h => absurd h (lt_irrefl 0)⟩
  have hS := Kernel.invariant hcalls (.of_start hstart fun _ => rfl) h
  obtain ⟨L, hI, hthr⟩ := id hS
  obtain ⟨excl, locked, owner, unnamed, mine, ok⟩ := hI
  simp only [← mine] at excl locked owner ok
  refine ⟨excl, locked, fun l c hl => (ok c).sie.trans (if_neg ?_), fun c hc => ?_,
    fun l c hp => ?_, fun l c hp hl => hS.not_panics (m := .release l c) hl hp,
    hS.not_panics trivial, hS.not_panics trivial⟩
  · have := Finset.card_pos.2 ⟨l, hl⟩
    rw [depth]
    omega
  · have hrest := hthr c
    rw [hc] at hrest
    have hidle : (L c).2 = .idle := hrest
    have hok := ok c
    rw [hidle] at hok
    refine ⟨fun l => ?_, hok.noff, fun hno => ?_⟩
    · rw [owner, hidle, locked]
      exact ⟨fun h => h.2.1, fun hl => ⟨⟨c, hl⟩, hl, by simp⟩⟩
    · rw [hok.sie, depth, hno]
      rfl
  · by_contra hl
    exact hS.not_panics (m := .acquire l c) hl hp

/-- One CPU has the lock, and another spins on it. -/
theorem spinlocks_exclude_spinning : ∃ S : Sys (Stop 2 Unit) (St 2 Unit) (Fin 2),
    (kernel 2 Unit).Reachable (.start (.init fun _ => true)) S ∧ () ∈ (S.mem.cpu 0).held ∧
    () ∉ (S.mem.cpu 1).held ∧ (S.mem.cpu 0).sie = false := by
  obtain ⟨S, hS, hheld⟩ := (kernel 2 Unit).exec_reaches (S := .start (.init fun _ => true))
    (.call 0 (.acquire ()) :: List.replicate 5 (.run 0) ++
      .call 1 (.acquire ()) :: List.replicate 5 (.run 1))
    (fun S => decide (() ∈ (S.mem.cpu 0).held)) (by decide +kernel)
  have h := spinlocks_exclude _ S hS
  have h0 := of_decide_eq_true hheld
  exact ⟨S, hS, h0, fun h1 => absurd (h.1 () 0 1 h0 h1) (by decide), h.2.2.1 () 0 h0⟩

end Xv6.Spin
