import Xv6.Framework.Logic
import Xv6.File.Table
import Mathlib.Algebra.Order.BigOperators.Group.Finset

/-!
# Who has a reference to a file

The invariant of the file table.  A running process is responsible for a number of references to
each file (`Hold.own`): between calls one for each of its descriptors, in the middle of a call
perhaps one more or less.  The references of a process that does not run are its descriptors.

Behind a file is an object: a reference to an inode, or an end of a pipe.  Each object that was
taken is behind a file, or was given back, or a process is about to give it back (`Hold.due`).
-/

namespace Xv6.Files

open Concur

variable {N : ℕ}

/-- What is given back once: a reference to an inode, an end of a pipe, the page of a pipe. -/
inductive Obj where
  | inode (ip : ℕ)
  | pipeEnd (pi : ℕ) (writable : Bool)
  | page (pi : ℕ)
  deriving DecidableEq

/-- The object behind a file. -/
def File.object (x : File) : Option Obj :=
  match x.type with
  | .none => none
  | .pipe => some (.pipeEnd x.pipe x.writable)
  | .inode | .device => some (.inode x.ip)

/-- How many descriptors point to the file. -/
def tally (fds : Fin NOFILE → Option (Fin NFILE)) (f : Fin NFILE) : ℕ :=
  ∑ fd, if fds fd = some f then 1 else 0

/-- What a process has in the middle of a call. -/
structure Hold (N : ℕ) where
  /-- The references that it is responsible for, if it runs. -/
  own : Option (Fin NFILE → ℕ)
  /-- Its descriptors, if it runs. -/
  fds : Fin NOFILE → Option (Fin NFILE)
  /-- The files that it has allocated and not yet filled in. -/
  fresh : Finset (Fin NFILE)
  /-- What it is about to give back. -/
  due : Option Obj
  /-- In `fork`, the new process, whose descriptors from this one on are not set. -/
  child : Option (Fin N × ℕ)

/-- The references of a process. -/
def share (m : St N) (L : Fin N → Hold N) (p : Fin N) (f : Fin NFILE) : ℕ :=
  match (L p).own with
  | some own => own f
  | none => tally (fun fd => m.ofile (p, fd)) f

/-- The objects that were taken. -/
def gained (m : St N) : Obj → ℕ
  | .inode ip => m.taken ip
  | .pipeEnd pi _ => if pi < m.npipe then 1 else 0
  | .page pi =>
    if pi < m.npipe ∧ (m.pipe pi).readopen = false ∧ (m.pipe pi).writeopen = false then 1
    else 0

/-- The objects that were given back. -/
def spent (m : St N) : Obj → ℕ
  | .inode ip => m.put ip
  | .pipeEnd pi w => (m.pipe pi).closes w
  | .page pi => (m.pipe pi).frees

/-- The number of files with this object. -/
def behind (m : St N) (o : Obj) : ℕ := ∑ f, if (m.file f).object = some o then 1 else 0

/-- What the process is about to give back, as a count. -/
def owed (l : Hold N) (o : Obj) : ℕ := if l.due = some o then 1 else 0

/-- The references of the processes add up to `f->ref`. -/
def Refs (m : St N) (L : Fin N → Hold N) : Prop := ∀ f, (m.file f).ref = ∑ p, share m L p f

/-- The files without a type are those that are not in use, and those that are being made. -/
structure Kinds (m : St N) (L : Fin N → Hold N) : Prop where
  zero : ∀ f, (m.file f).ref = 0 → (m.file f).type = .none
  untyped : ∀ f, (m.file f).type = .none → (m.file f).ref = 0 ∨ ∃ t, f ∈ (L t).fresh
  fresh : ∀ t f, f ∈ (L t).fresh → (m.file f).type = .none ∧ (m.file f).ref = 1 ∧
    ∃ own, (L t).own = some own ∧ own f = 1

/-- Nothing is given back twice, and nothing is lost. -/
structure Objects (m : St N) (L : Fin N → Hold N) : Prop where
  balance : ∀ o, gained m o = spent m o + behind m o + ∑ t, owed (L t) o
  flags : ∀ pi, pi < m.npipe → ((m.pipe pi).readopen = false ↔ (m.pipe pi).closes false ≠ 0) ∧
    ((m.pipe pi).writeopen = false ↔ (m.pipe pi).closes true ≠ 0)

/-- The flags of the first `n` pipes say which ends were closed. -/
def Flags (pipe : ℕ → Pipe) (n : ℕ) : Prop :=
  ∀ pi, pi < n → ((pipe pi).readopen = false ↔ (pipe pi).closes false ≠ 0) ∧
    ((pipe pi).writeopen = false ↔ (pipe pi).closes true ≠ 0)

/-- The descriptors. -/
structure Slots (m : St N) (L : Fin N → Hold N) : Prop where
  runs : ∀ t, m.state t = .running → (L t).own ≠ none
  mine : ∀ t own, (L t).own = some own → m.state t = .running ∧
    ∀ fd, m.ofile (t, fd) = (L t).fds fd
  closed : ∀ p, m.state p = .unused ∨ m.state p = .zombie → ∀ fd, m.ofile (p, fd) = none
  child : ∀ t np j, (L t).child = some (np, j) → m.state np = .used ∧
    ∀ fd : Fin NOFILE, j ≤ fd → m.ofile (np, fd) = none
  owner : ∀ t u np j k, (L t).child = some (np, j) → (L u).child = some (np, k) → t = u

structure Inv (m : St N) (L : Fin N → Hold N) : Prop where
  refs : Refs m L
  kinds : Kinds m L
  objects : Objects m L
  slots : Slots m L

/-! ## Counting -/

lemma tally_setAt (fds : Fin NOFILE → Option (Fin NFILE)) (fd : Fin NOFILE)
    (x : Option (Fin NFILE)) (f : Fin NFILE) :
    tally (setAt fds fd x) f + (if fds fd = some f then 1 else 0) =
      tally fds f + if x = some f then 1 else 0 := by
  have := sum_change (f := fun d => if fds d = some f then 1 else 0)
    (g := fun d => if setAt fds fd x d = some f then 1 else 0) fd
    fun d hd => by rw [setAt_of_ne _ _ hd]
  rwa [setAt_self] at this

lemma le_tally {fds : Fin NOFILE → Option (Fin NFILE)} {fd : Fin NOFILE} {f : Fin NFILE}
    (h : fds fd = some f) : 1 ≤ tally fds f := by
  have := Finset.single_le_sum (f := fun d => if fds d = some f then 1 else 0)
    (fun d _ => Nat.zero_le _) (Finset.mem_univ fd)
  rwa [if_pos h] at this

lemma tally_eq_zero {fds : Fin NOFILE → Option (Fin NFILE)} (h : ∀ fd, fds fd = none)
    (f : Fin NFILE) : tally fds f = 0 := by
  simp [tally, h]

lemma behind_change (m m' : St N) (f : Fin NFILE) (hoff : ∀ g, g ≠ f → m'.file g = m.file g)
    (o : Obj) :
    behind m' o + (if (m.file f).object = some o then 1 else 0) =
      behind m o + if (m'.file f).object = some o then 1 else 0 :=
  sum_change (f := fun g => if (m.file g).object = some o then 1 else 0)
    (g := fun g => if (m'.file g).object = some o then 1 else 0) f
    fun g hg => by rw [hoff g hg]

section Steps

variable {m m' : St N} {L : Fin N → Hold N} {t : Fin N} {l : Hold N} {own own' : Fin NFILE → ℕ}
  {f : Fin NFILE}

lemma share_of_own {p : Fin N} (h : (L p).own = some own) (f : Fin NFILE) :
    share m L p f = own f := by
  simp only [share, h]

lemma share_of_none {p : Fin N} (h : (L p).own = none) (f : Fin NFILE) :
    share m L p f = tally (fun fd => m.ofile (p, fd)) f := by
  simp only [share, h]

lemma share_update {p : Fin N} (hp : p ≠ t) (h : ∀ fd, m'.ofile (p, fd) = m.ofile (p, fd))
    (f : Fin NFILE) : share m' (Function.update L t l) p f = share m L p f := by
  simp only [share, Function.update_of_ne hp, h]

lemma Refs.le (h : Refs m L) (hown : (L t).own = some own) (f : Fin NFILE) :
    own f ≤ (m.file f).ref := by
  rw [h f, ← share_of_own (m := m) hown f]
  exact Finset.single_le_sum (f := fun p => share m L p f) (fun _ _ => Nat.zero_le _)
    (Finset.mem_univ t)

lemma Refs.add_le (h : Refs m L) {u : Fin N} {own1 : Fin NFILE → ℕ} (hut : u ≠ t)
    (hown : (L t).own = some own) (hu : (L u).own = some own1) (f : Fin NFILE) :
    own f + own1 f ≤ (m.file f).ref := by
  rw [h f, ← share_of_own (m := m) hown f, ← share_of_own (m := m) hu f,
    ← Finset.add_sum_erase _ _ (Finset.mem_univ t)]
  have : share m L u f ≤ ∑ p ∈ Finset.univ.erase t, share m L p f :=
    Finset.single_le_sum (f := fun p => share m L p f) (fun _ _ => Nat.zero_le _)
      (Finset.mem_erase.2 ⟨hut, Finset.mem_univ u⟩)
  omega

lemma Refs.change (h : Refs m L) {L' : Fin N → Hold N} (p : Fin N)
    (hoff : ∀ q, q ≠ p → ∀ f, share m' L' q f = share m L q f)
    (hp : ∀ f, (m'.file f).ref + share m L p f = (m.file f).ref + share m' L' p f) :
    Refs m' L' := by
  intro f
  have hsum := sum_change (f := fun q => share m L q f) (g := fun q => share m' L' q f) p
    fun q hq => hoff q hq f
  have h₁ := hp f
  have h2 := h f
  omega

lemma Refs.step (h : Refs m L) (hown : (L t).own = some own) (hl : l.own = some own')
    (hofile : ∀ p fd, p ≠ t → m'.ofile (p, fd) = m.ofile (p, fd))
    (href : ∀ f, (m'.file f).ref + own f = (m.file f).ref + own' f) :
    Refs m' (Function.update L t l) := by
  refine h.change t (fun q hq => share_update hq fun fd => hofile q fd hq) fun f => ?_
  rw [share_of_own hown f, share_of_own (by rw [Function.update_self, hl]) f]
  exact href f

lemma Kinds.step (h : Kinds m L) (f : Fin NFILE) (hl : l.own = some own')
    (hoff : ∀ g, g ≠ f → (m'.file g).type = (m.file g).type ∧ (m'.file g).ref = (m.file g).ref ∧
      (g ∈ l.fresh ↔ g ∈ (L t).fresh) ∧ (g ∈ l.fresh → ∀ own, (L t).own = some own →
        own' g = own g))
    (hzero : (m'.file f).ref = 0 → (m'.file f).type = .none)
    (huntyped : (m'.file f).type = .none → (m'.file f).ref = 0 ∨ f ∈ l.fresh)
    (hfresh : f ∈ l.fresh → (m'.file f).type = .none ∧ (m'.file f).ref = 1 ∧ own' f = 1)
    (hother : ∀ u, u ≠ t → f ∉ (L u).fresh) : Kinds m' (Function.update L t l) := by
  refine ⟨fun g hg => ?_, fun g hg => ?_,
    fun u g => update_cases u (fun hg => ?_) fun u hut hg => ?_⟩
  · by_cases hgf : g = f
    · subst hgf
      exact hzero hg
    · rw [(hoff g hgf).1]
      rw [(hoff g hgf).2.1] at hg
      exact h.zero g hg
  · by_cases hgf : g = f
    · subst hgf
      exact (huntyped hg).imp_right fun hl => ⟨t, by rwa [Function.update_self]⟩
    · obtain ⟨htype, href, hiff, -⟩ := hoff g hgf
      rw [htype] at hg
      rw [href]
      refine (h.untyped g hg).imp_right fun ⟨u, hu⟩ => ⟨u, ?_⟩
      exact update_cases (motive := fun u (x : Hold N) => g ∈ (L u).fresh → g ∈ x.fresh) u hiff.2
        (fun _ _ hu => hu) hu
  · by_cases hgf : g = f
    · subst hgf
      obtain ⟨h₁, h2, h3⟩ := hfresh hg
      exact ⟨h₁, h2, own', hl, h3⟩
    · obtain ⟨htype, href, hiff, hown⟩ := hoff g hgf
      obtain ⟨h₁, h2, own, h3, h4⟩ := h.fresh t g (hiff.1 hg)
      exact ⟨htype.trans h₁, href.trans h2, own', hl, (hown hg own h3).trans h4⟩
  · have hgf : g ≠ f := by
      rintro rfl
      exact hother u hut hg
    obtain ⟨htype, href, -, -⟩ := hoff g hgf
    rw [htype, href]
    exact h.fresh u g hg

lemma Kinds.keep (h : Kinds m L) (hfile : ∀ f, (m'.file f).type = (m.file f).type ∧
      (m'.file f).ref = (m.file f).ref) (hfresh : l.fresh = (L t).fresh)
    (hown : ∀ own, (L t).own = some own → l.fresh = ∅ ∨ l.own = some own) :
    Kinds m' (Function.update L t l) := by
  have hfr : ∀ u, (Function.update L t l u).fresh = (L u).fresh :=
    congrFun (comp_update_of_eq Hold.fresh hfresh)
  refine ⟨fun g hg => ?_, fun g hg => ?_, fun u g hg => ?_⟩
  · rw [(hfile g).1]
    rw [(hfile g).2] at hg
    exact h.zero g hg
  · rw [(hfile g).1] at hg
    rw [(hfile g).2]
    simpa only [hfr] using h.untyped g hg
  · rw [hfr] at hg
    obtain ⟨h₁, h2, own, h3, h4⟩ := h.fresh u g hg
    refine ⟨(hfile g).1.trans h₁, (hfile g).2.trans h2, own, ?_, h4⟩
    by_cases hut : u = t
    · subst hut
      rw [Function.update_self]
      rcases hown own h3 with he | he
      · rw [← hfresh, he] at hg
        exact absurd hg (Finset.notMem_empty g)
      · exact he
    · rwa [Function.update_of_ne hut]

lemma Objects.step (h : Objects m L)
    (hbal : ∀ o, gained m' o + spent m o + behind m o + owed (L t) o =
      gained m o + spent m' o + behind m' o + owed l o)
    (hflags : Flags m'.pipe m'.npipe) :
    Objects m' (Function.update L t l) := by
  refine ⟨fun o => ?_, hflags⟩
  have h₁ := sum_comp_update (fun l => owed l o) L t l
  have h2 := h.balance o
  have h3 := hbal o
  omega

lemma Objects.keep (h : Objects m L) (hfile : ∀ f, (m'.file f).object = (m.file f).object)
    (hpipe : m'.pipe = m.pipe) (hnpipe : m'.npipe = m.npipe) (htaken : m'.taken = m.taken)
    (hput : m'.put = m.put) (hdue : l.due = (L t).due) : Objects m' (Function.update L t l) := by
  refine h.step (fun o => ?_) fun pi hpi => ?_
  · have hb : behind m' o = behind m o := by
      simp only [behind, hfile]
    have ho : owed l o = owed (L t) o := by
      simp only [owed, hdue]
    have hg : gained m' o = gained m o := by
      cases o <;> simp only [gained, hpipe, hnpipe, htaken]
    have hs : spent m' o = spent m o := by
      cases o <;> simp only [spent, hpipe, hput]
    omega
  · rw [hpipe]
    exact h.flags pi (hnpipe ▸ hpi)

section

variable (h : Slots m L)

include h

lemma Slots.step (hstate : m'.state = m.state) (hl : l.own ≠ none) (hrun : m.state t = .running)
    (hmine : ∀ fd, m'.ofile (t, fd) = l.fds fd)
    (hother : ∀ p fd, p ≠ t → m.state p ≠ .used → m'.ofile (p, fd) = m.ofile (p, fd))
    (hchild : ∀ np j, l.child = some (np, j) → ∃ k, (L t).child = some (np, k) ∧
      ∀ fd : Fin NOFILE, j ≤ fd → m'.ofile (np, fd) = none)
    (hforeign : ∀ u np j, u ≠ t → (L u).child = some (np, j) →
      ∀ fd, m'.ofile (np, fd) = m.ofile (np, fd)) : Slots m' (Function.update L t l) := by
  refine ⟨fun u => update_cases u (fun _ => hl) fun u _ hu => h.runs u (hstate ▸ hu),
    fun u own => update_cases u (fun _ => ?_) fun u hut hu => ?_, fun p hp fd => ?_,
    fun u np j => update_cases u (fun hu => ?_) fun u hut hu => ?_, fun u v np j k hu hv => ?_⟩
  · rw [hstate] at hp
    have hpt : p ≠ t := by
      rintro rfl
      rw [hrun] at hp
      rcases hp with hp | hp <;> cases hp
    rw [hother p fd hpt ?_]
    · exact h.closed p hp fd
    · rcases hp with hp | hp <;> rw [hp] <;> rintro ⟨⟩
  · have hback : ∀ u j, (Function.update L t l u).child = some (np, j) →
        ∃ k, (L u).child = some (np, k) := by
      refine fun u j => update_cases u (fun hu => ?_) fun u _ hu => ⟨j, hu⟩
      obtain ⟨k, hk, -⟩ := hchild np j hu
      exact ⟨k, hk⟩
    obtain ⟨j', hj'⟩ := hback u j hu
    obtain ⟨k', hk'⟩ := hback v k hv
    exact h.owner u v np j' k' hj' hk'
  · rw [hstate]
    exact ⟨hrun, hmine⟩
  · rw [hstate]
    obtain ⟨hs, hfds⟩ := h.mine u own hu
    refine ⟨hs, fun fd => (hother u fd hut ?_).trans (hfds fd)⟩
    rw [hs]
    rintro ⟨⟩
  · rw [hstate]
    obtain ⟨k, hk, hnone⟩ := hchild np j hu
    exact ⟨(h.child t np k hk).1, hnone⟩
  · rw [hstate]
    obtain ⟨hs, hnone⟩ := h.child u np j hu
    exact ⟨hs, fun fd hfd => (hforeign u np j hut hu fd).trans (hnone fd hfd)⟩

lemma Slots.keep (hstate : m'.state = m.state) (hofile : m'.ofile = m.ofile)
    (hown : (L t).own = some own) (hl : l.own = some own') (hfds : l.fds = (L t).fds)
    (hchild : l.child = (L t).child) : Slots m' (Function.update L t l) := by
  obtain ⟨hrun, hmine⟩ := h.mine t own hown
  refine h.step hstate (by rw [hl]; exact Option.some_ne_none _) hrun (fun fd => ?_)
    (fun p fd _ _ => by rw [hofile]) (fun np j hc => ?_) fun u np j _ _ fd => by rw [hofile]
  · rw [hofile, hfds]
    exact hmine fd
  · rw [hchild] at hc
    refine ⟨j, hc, fun fd hfd => ?_⟩
    rw [hofile]
    exact (h.child t np j hc).2 fd hfd

lemma Slots.own_eq_none {p : Fin N} (hp : m.state p ≠ .running) : (L p).own = none := by
  cases hown : (L p).own with
  | none => rfl
  | some own => exact absurd (h.mine p own hown).1 hp

lemma Slots.not_child {p : Fin N} (hp : m.state p ≠ .used) (u : Fin N) (j : ℕ) :
    (L u).child ≠ some (p, j) :=
  fun hu => hp (h.child u p j hu).1

lemma Slots.ne_of_state (hown : (L t).own = some own) {p : Fin N} {x : Status}
    (hp : m.state p = x) (hx : x ≠ .running) : t ≠ p := by
  rintro rfl
  exact hx (hp.symm.trans (h.mine t own hown).1)

/-- A step that changes the state of the process `p`, in which `p` does not run or is the process
that takes the step. -/
lemma Slots.setState (p : Fin N) (x : Status)
    (hself : l.own ≠ none ↔ (m.setState p x).state t = .running)
    (hmine : l.own ≠ none → ∀ fd, m.ofile (t, fd) = l.fds fd)
    (hp : p ≠ t → m.state p ≠ .running ∧ x ≠ .running)
    (hclosed : x = .unused ∨ x = .zombie → ∀ fd, m.ofile (p, fd) = none)
    (hchild : ∀ np j, l.child = some (np, j) → (m.setState p x).state np = .used ∧
      (∀ fd : Fin NOFILE, j ≤ fd → m.ofile (np, fd) = none) ∧
      ∀ u k, u ≠ t → (L u).child ≠ some (np, k))
    (hother : ∀ u j, u ≠ t → (L u).child ≠ some (p, j)) :
    Slots (m.setState p x) (Function.update L t l) := by
  have hoff : ∀ q, q ≠ p → (m.setState p x).state q = m.state q := fun q hq => setAt_of_ne _ _ hq
  have hat : (m.setState p x).state p = x := setAt_self _ _ _
  -- a process that does not take the step runs before it if and only if it runs after it
  have hruns : ∀ u, u ≠ t → ((m.setState p x).state u = .running ↔ m.state u = .running) := by
    intro u hut
    by_cases hup : u = p
    · subst hup
      rw [hat]
      exact ⟨fun hx => absurd hx (hp hut).2, fun hx => absurd hx (hp hut).1⟩
    · rw [hoff u hup]
  refine ⟨fun u => update_cases u hself.2 fun u hut hu => h.runs u ((hruns u hut).1 hu),
    fun u own => update_cases u (fun hu => ?_) fun u hut hu => ?_,
    fun q hq fd => ?_, fun u np j => update_cases u (fun hu => ?_) fun u hut hu => ?_,
    fun u v np j k => update_cases u (update_cases v (fun _ _ => rfl) fun v hvt hu hv => ?_)
      fun u hut => update_cases v (fun hu hv => ?_) fun v _ => h.owner u v np j k⟩
  · by_cases hqp : q = p
    · subst hqp
      rw [hat] at hq
      exact hclosed hq fd
    · rw [hoff q hqp] at hq
      exact h.closed q hq fd
  · have hne : l.own ≠ none := by
      rw [hu]
      exact Option.some_ne_none _
    exact ⟨hself.1 hne, hmine hne⟩
  · obtain ⟨hs, hfds⟩ := h.mine u own hu
    exact ⟨(hruns u hut).2 hs, hfds⟩
  · obtain ⟨hs, hnone, -⟩ := hchild np j hu
    exact ⟨hs, hnone⟩
  · have hnp : np ≠ p := by
      rintro rfl
      exact hother u j hut hu
    rw [hoff np hnp]
    exact h.child u np j hu
  · exact absurd hv ((hchild np j hu).2.2 v k hvt)
  · exact absurd hu ((hchild np k hv).2.2 u j hut)

end

end Steps

/-! ## The actions -/

/-- One reference more. -/
def bump (own : Fin NFILE → ℕ) (f : Fin NFILE) : Fin NFILE → ℕ := setAt own f (own f + 1)

/-- One reference less. -/
def drop (own : Fin NFILE → ℕ) (f : Fin NFILE) : Fin NFILE → ℕ := setAt own f (own f - 1)

section

variable (own : Fin NFILE → ℕ)

include own

@[simp] lemma bump_self (f : Fin NFILE) : bump own f f = own f + 1 :=
  setAt_self _ _ _

@[simp] lemma drop_self (f : Fin NFILE) : drop own f f = own f - 1 :=
  setAt_self _ _ _

lemma bump_of_ne {f g : Fin NFILE} (h : g ≠ f) : bump own f g = own g :=
  setAt_of_ne _ _ h

lemma drop_of_ne {f g : Fin NFILE} (h : g ≠ f) : drop own f g = own g :=
  setAt_of_ne _ _ h

end

section Actions

variable {m : St N} {L : Fin N → Hold N} {t : Fin N} {l : Hold N} {own : Fin NFILE → ℕ}
  {f : Fin NFILE}

lemma mem_erase_iff {s : Finset (Fin NFILE)} {g : Fin NFILE} (hg : g ≠ f) :
    g ∈ s.erase f ↔ g ∈ s := by
  rw [Finset.mem_erase, and_iff_right hg]

lemma setAt_succ (n : ℕ → ℕ) (ip ip' : ℕ) :
    setAt n ip (n ip + 1) ip' =
      n ip' + if some (Obj.inode ip) = some (.inode ip') then 1 else 0 := by
  by_cases hip : ip' = ip
  · subst hip
    rw [setAt_self, if_pos rfl]
  · rw [setAt_of_ne _ _ hip, if_neg, Nat.add_zero]
    rintro ⟨⟩
    exact hip rfl

lemma Objects.newPipe (h : Objects m L) (m' : St N)
    (hpipe : m'.pipe = setAt m.pipe m.npipe ⟨true, true, fun _ => 0, 0⟩)
    (hnpipe : m'.npipe = m.npipe + 1) (htaken : m'.taken = m.taken) (hput : m'.put = m.put)
    (o : Obj) :
    gained m' o + spent m o = gained m o + spent m' o +
      (if some (Obj.pipeEnd m.npipe false) = some o then 1 else 0) +
      if some (Obj.pipeEnd m.npipe true) = some o then 1 else 0 := by
  have hb := h.balance o
  cases o with
  | inode ip =>
    simp only [gained, spent, htaken, hput, Option.some.injEq, reduceCtorEq, if_false,
      Nat.add_zero]
  | pipeEnd pi w =>
    by_cases hpi : pi = m.npipe
    · -- no end of it was closed, as it did not exist
      subst hpi
      simp only [gained, spent, hpipe, hnpipe, setAt_self, Nat.lt_irrefl, if_false,
        Nat.lt_succ_self, if_true] at hb ⊢
      cases w <;> simp <;> omega
    · have hlt : pi < m.npipe + 1 ↔ pi < m.npipe := by omega
      simp only [gained, spent, hpipe, hnpipe, setAt_of_ne _ _ hpi, hlt, Option.some.injEq,
        Obj.pipeEnd.injEq, Ne.symm hpi, false_and, if_false, Nat.add_zero]
  | page pi =>
    by_cases hpi : pi = m.npipe
    · subst hpi
      simp only [gained, spent, hpipe, hnpipe, setAt_self, Nat.lt_irrefl, false_and, if_false,
        reduceCtorEq, and_false, Option.some.injEq] at hb ⊢
      omega
    · have hlt : pi < m.npipe + 1 ↔ pi < m.npipe := by omega
      simp only [gained, spent, hpipe, hnpipe, setAt_of_ne _ _ hpi, hlt, Option.some.injEq,
        reduceCtorEq, if_false, Nat.add_zero]

lemma Inv.due_open (h : Inv m L) {pi : ℕ} {w : Bool} (hdue : (L t).due = some (.pipeEnd pi w)) :
    pi < m.npipe ∧ (m.pipe pi).closes w = 0 := by
  have hb := h.objects.balance (.pipeEnd pi w)
  have ht : owed (L t) (.pipeEnd pi w) ≤ ∑ u, owed (L u) (.pipeEnd pi w) :=
    Finset.single_le_sum (f := fun u => owed (L u) (.pipeEnd pi w)) (fun _ _ => Nat.zero_le _)
      (Finset.mem_univ t)
  have hone : owed (L t) (.pipeEnd pi w) = 1 := if_pos hdue
  rw [hone] at ht
  simp only [gained, spent] at hb
  split at hb
  · rename_i hlt
    exact ⟨hlt, by omega⟩
  · omega

section

variable (h : Inv m L) (hl : L t = l) (hown : l.own = some own)
include h hl hown

lemma Inv.not_fresh (hf : 1 ≤ own f) {u : Fin N} (hu : u ≠ t) : f ∉ (L u).fresh := by
  intro hfr
  obtain ⟨-, href, own1, hown₁, hone⟩ := h.kinds.fresh u f hfr
  have := h.refs.add_le hu (hl ▸ hown) hown₁ f
  omega

lemma Inv.typed (hf : 1 ≤ own f) (hfresh : f ∉ l.fresh) : (m.file f).type ≠ .none := by
  intro hnone
  rcases h.kinds.untyped f hnone with h0 | ⟨u, hu⟩
  · have := h.refs.le (hl ▸ hown) f
    omega
  · by_cases hut : u = t
    · subst hut
      exact hfresh (hl ▸ hu)
    · exact h.not_fresh hl hown hf hut hu

lemma Inv.setFile (m' : St N) (x : File) (own' : Fin NFILE → ℕ) (fresh : Finset (Fin NFILE))
    (due : Option Obj)
    (hfile : m'.file = setAt m.file f x) (hstate : m'.state = m.state)
    (hofile : m'.ofile = m.ofile)
    (hoff : ∀ g, g ≠ f → own' g = own g ∧ (g ∈ fresh ↔ g ∈ l.fresh))
    (hbal : x.ref + own f = (m.file f).ref + own' f)
    (hzero : x.ref = 0 → x.type = .none)
    (huntyped : x.type = .none → x.ref = 0 ∨ f ∈ fresh)
    (hfresh : f ∈ fresh → x.type = .none ∧ x.ref = 1 ∧ own' f = 1)
    (hother : ∀ u, u ≠ t → f ∉ (L u).fresh)
    (hobj : ∀ o, gained m' o + spent m o + (if (m.file f).object = some o then 1 else 0) +
      (if l.due = some o then 1 else 0) = gained m o + spent m' o +
      (if x.object = some o then 1 else 0) + if due = some o then 1 else 0)
    (hflags : Flags m'.pipe m'.npipe) :
    Inv m' (Function.update L t { l with own := some own', fresh := fresh, due := due }) := by
  subst hl
  have hself : m'.file f = x := by
    rw [hfile, setAt_self]
  have hne : ∀ g, g ≠ f → m'.file g = m.file g := by
    intro g hg
    rw [hfile, setAt_of_ne _ _ hg]
  refine ⟨h.refs.step hown rfl (fun _ _ _ => by rw [hofile]) fun g => ?_,
    h.kinds.step f rfl (fun g hg => ?_) (by rwa [hself]) (by rwa [hself]) (by rwa [hself])
      hother,
    h.objects.step (fun o => ?_) hflags, h.slots.keep hstate hofile hown rfl rfl rfl⟩
  · by_cases hg : g = f
    · subst hg
      rw [hself]
      exact hbal
    · rw [hne g hg, (hoff g hg).1]
  · rw [hne g hg, (hoff g hg).1]
    refine ⟨rfl, rfl, (hoff g hg).2, fun _ own1 h₁ => ?_⟩
    rw [hown] at h₁
    exact congrFun (Option.some.inj h₁) g
  · have hb := behind_change m m' f hne o
    have ho := hobj o
    rw [hself] at hb
    simp only [owed]
    omega

lemma Inv.filealloc (hf : (m.file f).ref = 0) :
    Inv (m.setFile f { m.file f with ref := 1 })
      (Function.update L t { l with own := some (bump own f), fresh := insert f l.fresh }) := by
  have hzero : own f = 0 := by
    have := h.refs.le (hl ▸ hown) f
    omega
  refine h.setFile hl hown _ { m.file f with ref := 1 } (bump own f) (insert f l.fresh) l.due
    rfl rfl rfl (fun g hg => ⟨bump_of_ne own hg, ?_⟩) ?_ (fun h0 => absurd h0 one_ne_zero)
    (fun _ => Or.inr (Finset.mem_insert_self f _))
    (fun _ => ⟨h.kinds.zero f hf, rfl, ?_⟩) (fun u _ hfr => ?_) (fun o => rfl) h.objects.flags
  · rw [Finset.mem_insert]
    exact or_iff_right hg
  · rw [bump_self, hf, hzero]
  · rw [bump_self, hzero]
  · have := (h.kinds.fresh u f hfr).2.1
    omega

lemma Inv.setRef (hf : 1 ≤ own f) (hfresh : f ∉ l.fresh) {r : ℕ} (hr : r ≠ 0) {own' : Fin NFILE → ℕ}
    (hoff : ∀ g, g ≠ f → own' g = own g) (hbal : r + own f = (m.file f).ref + own' f) :
    Inv (m.setFile f { m.file f with ref := r })
      (Function.update L t { l with own := some own' }) := by
  exact h.setFile hl hown _ { m.file f with ref := r } own' l.fresh l.due rfl rfl rfl
    (fun g hg => ⟨hoff g hg, Iff.rfl⟩) hbal (fun h0 => absurd h0 hr)
    (fun hnone => absurd hnone (h.typed hl hown hf hfresh)) (fun hfr => absurd hfr hfresh)
    (fun u hu => h.not_fresh hl hown hf hu) (fun o => rfl) h.objects.flags

lemma Inv.dropLast (hf : 1 ≤ own f) (hone : (m.file f).ref = 1) (hdue : l.due = none) :
    Inv (m.setFile f { m.file f with ref := 0, type := .none })
      (Function.update L t { l with
        own := some (drop own f)
        fresh := l.fresh.erase f
        due := (m.file f).object }) := by
  have hle := h.refs.le (hl ▸ hown) f
  refine h.setFile hl hown _ { m.file f with ref := 0, type := .none } (drop own f)
    (l.fresh.erase f) (m.file f).object rfl rfl rfl
    (fun g hg => ⟨drop_of_ne own hg, mem_erase_iff hg⟩) ?_ (fun _ => rfl) (fun _ => Or.inl rfl)
      (fun hfr => absurd hfr (Finset.notMem_erase f _))
    (fun u hu => h.not_fresh hl hown hf hu) (fun o => ?_) h.objects.flags
  · rw [drop_self]
    dsimp only
    omega
  · rw [hdue]
    exact Nat.add_right_comm _ _ _

lemma Inv.openFile (hf : f ∈ l.fresh) (ip : ℕ) (device readable writable : Bool) :
    Inv (m.openFile f ip device readable writable)
      (Function.update L t { l with fresh := l.fresh.erase f }) := by
  obtain ⟨hnone, hone, own1, hown₁, hf1⟩ := h.kinds.fresh t f (hl ▸ hf)
  have howf : own f = 1 := by
    rw [hl, hown] at hown₁
    rw [← hf1, Option.some.inj hown₁]
  have htype : (if device = true then FileType.device else FileType.inode) ≠ .none := by
    cases device <;> rintro ⟨⟩
  rw [hown]
  refine h.setFile hl hown _ _ own (l.fresh.erase f) l.due rfl rfl rfl
    (fun g hg => ⟨rfl, mem_erase_iff hg⟩) rfl (fun h0 => absurd (h0.symm.trans hone) zero_ne_one)
    (fun h0 => absurd h0 htype)
    (fun hfr => absurd hfr (Finset.notMem_erase f _))
    (fun u hu => h.not_fresh hl hown howf.ge hu) (fun o => ?_) h.objects.flags
  · have hobj : File.object { m.file f with
        type := if device = true then .device else .inode
        ip := ip
        readable := readable
        writable := writable } = some (.inode ip) := by
      cases device <;> rfl
    have hbefore : (m.file f).object = none := by
      simp only [File.object, hnone]
    rw [hobj, hbefore]
    cases o with
    | inode ip' =>
      simp only [St.openFile, gained, spent, St.setFile, setAt_succ, reduceCtorEq, if_false]
      omega
    | pipeEnd pi w => rfl
    | page pi => rfl

lemma Inv.setFd (fd : Fin NOFILE) (x : Option (Fin NFILE)) :
    Inv (m.setFd t fd x) (Function.update L t { l with fds := setAt l.fds fd x }) := by
  subst hl
  obtain ⟨hrun, hmine⟩ := h.slots.mine t own hown
  have hoff : ∀ p d, p ≠ t → (m.setFd t fd x).ofile (p, d) = m.ofile (p, d) :=
    fun p d hp => setAt_of_ne _ _ fun he => hp (congrArg Prod.fst he)
  refine ⟨h.refs.step hown hown hoff fun _ => rfl,
    h.kinds.keep (fun _ => ⟨rfl, rfl⟩) rfl fun own1 h₁ => Or.inr h₁,
    h.objects.keep (fun _ => rfl) rfl rfl rfl rfl rfl,
    h.slots.step rfl (by rw [hown]; exact Option.some_ne_none _) hrun (fun d => ?_)
      (fun p d hp _ => hoff p d hp) (fun np j hc => ⟨j, hc, fun d hd => ?_⟩)
      fun u np j _ hu d => hoff np d ?_⟩
  · by_cases hd : d = fd
    · subst hd
      simp only [St.setFd, setAt_self]
    · simp only [setAt_of_ne _ _ hd]
      rw [← hmine d]
      exact setAt_of_ne _ _ fun he => hd (congrArg Prod.snd he)
  · obtain ⟨hs, hnone⟩ := h.slots.child t np j hc
    rw [hoff np d ?_]
    · exact hnone d hd
    · rintro rfl
      rw [hrun] at hs
      cases hs
  · rintro rfl
    have hs := (h.slots.child u np j hu).1
    rw [hrun] at hs
    cases hs

lemma Inv.openPipe {f0 f1 : Fin NFILE} (hne : f1 ≠ f0) (h0 : f0 ∈ l.fresh) (h1 : f1 ∈ l.fresh)
    (hdue : l.due = none) :
    Inv (m.openPipe f0 f1)
      (Function.update L t { l with fresh := (l.fresh.erase f0).erase f1 }) := by
  have hfile : ∀ f ∈ l.fresh, (m.file f).object = none ∧ (m.file f).ref = 1 ∧ own f = 1 := by
    intro f hf
    obtain ⟨hnone, hone, own1, hown₁, hf1⟩ := h.kinds.fresh t f (hl ▸ hf)
    rw [hl, hown] at hown₁
    refine ⟨by simp only [File.object, hnone], hone, ?_⟩
    rw [← hf1, Option.some.inj hown₁]
  obtain ⟨hobj0, href0, hown0⟩ := hfile f0 h0
  obtain ⟨hobj1, href1, hown1⟩ := hfile f1 h1
  obtain ⟨x0, hx0⟩ : ∃ x0 : File, x0 = { m.file f0 with
      type := .pipe
      readable := true
      writable := false
      pipe := m.npipe } := ⟨_, rfl⟩
  obtain ⟨m1, hm1⟩ : ∃ m1 : St N, m1 = { m with
      file := setAt m.file f0 x0
      pipe := setAt m.pipe m.npipe ⟨true, true, fun _ => 0, 0⟩
      npipe := m.npipe + 1 } := ⟨_, rfl⟩
  have hflags : Flags m1.pipe m1.npipe := by
    intro pi hpi
    subst hm1
    by_cases hp : pi = m.npipe
    · subst hp
      simp
    · simp only [setAt_of_ne _ _ hp]
      exact h.objects.flags pi (by dsimp only at hpi; omega)
  have hinv : Inv m1 (Function.update L t { l with
      own := some own
      fresh := l.fresh.erase f0
      due := some (.pipeEnd m.npipe true) }) := by
    refine h.setFile hl hown m1 x0 own (l.fresh.erase f0) (some (.pipeEnd m.npipe true))
      (by rw [hm1]) (by rw [hm1]) (by rw [hm1]) (fun g hg => ⟨rfl, mem_erase_iff hg⟩)
      (by rw [hx0]) ?_ ?_
      (fun hfr => absurd hfr (Finset.notMem_erase f0 _))
      (fun u hu => h.not_fresh hl hown hown0.ge hu) (fun o => ?_) hflags
    · rw [hx0]
      exact fun he => absurd (he.symm.trans href0) zero_ne_one
    · rw [hx0]
      rintro ⟨⟩
    · have hb := h.objects.newPipe m1 (by rw [hm1]) (by rw [hm1]) (by rw [hm1])
        (by rw [hm1]) o
      have hx : x0.object = some (.pipeEnd m.npipe false) := by rw [hx0]; rfl
      rw [hobj0, hdue, hx]
      simp only [reduceCtorEq, if_false]
      omega
  have hfile1 : m1.file f1 = m.file f1 := by
    rw [hm1]
    exact setAt_of_ne _ _ hne
  have hfinal := hinv.setFile (f := f1) (Function.update_self t _ L) rfl (m.openPipe f0 f1)
    { m.file f1 with type := .pipe, readable := false, writable := true, pipe := m.npipe }
    own ((l.fresh.erase f0).erase f1) none ?_ ?_ ?_
    (fun g hg => ⟨rfl, mem_erase_iff hg⟩) ?_ ?_ ?_
    (fun hfr => absurd hfr (Finset.notMem_erase f1 _)) (fun u hu => ?_) (fun o => ?_) ?_
  · rw [Function.update_idem] at hfinal
    rw [hown, hdue]
    exact hfinal
  · rw [hm1, hx0]
    simp only [St.openPipe, St.setFile, setAt_of_ne _ _ hne]
  · rw [hm1]
    rfl
  · rw [hm1]
    rfl
  · rw [hfile1]
  · exact fun he => absurd (he.symm.trans href1) zero_ne_one
  · rintro ⟨⟩
  · rw [Function.update_of_ne hu]
    exact h.not_fresh hl hown hown1.ge hu
  · have hg : gained (m.openPipe f0 f1) o = gained m1 o := by
      rw [hm1]
      cases o <;> rfl
    have hs : spent (m.openPipe f0 f1) o = spent m1 o := by
      rw [hm1]
      cases o <;> rfl
    rw [hg, hs, hfile1, hobj1]
    rfl
  · rw [hm1] at hflags
    exact hflags

lemma Inv.giveBack (pipe : ℕ → Pipe) (put : ℕ → ℕ) (due : Option Obj)
    (hbal : ∀ o, gained { m with pipe := pipe } o + spent m o +
      (if l.due = some o then 1 else 0) = gained m o + spent { m with pipe := pipe, put := put } o +
      if due = some o then 1 else 0)
    (hflags : Flags pipe m.npipe) :
    Inv { m with pipe := pipe, put := put } (Function.update L t { l with due := due }) := by
  subst hl
  refine ⟨h.refs.step hown hown (fun _ _ _ => rfl) fun _ => rfl,
    h.kinds.keep (fun _ => ⟨rfl, rfl⟩) rfl fun own1 h₁ => Or.inr h₁,
    h.objects.step (fun o => ?_) hflags, h.slots.keep rfl rfl hown hown rfl rfl⟩
  have hb : behind { m with pipe := pipe, put := put } o = behind m o := rfl
  have hg : gained { m with pipe := pipe, put := put } o = gained { m with pipe := pipe } o := by
    cases o <;> rfl
  have ho := hbal o
  rw [hb, hg]
  simp only [owed]
  omega

lemma Inv.closeEnd {pi : ℕ} {w : Bool} (hdue : l.due = some (.pipeEnd pi w)) {r : Bool} {m' : St N}
    (hc : m.closeEnd pi w = .ok (r, m')) :
    Inv m' (Function.update L t { l with due := if r = true then some (.page pi) else none }) := by
  obtain ⟨hpi, hopen⟩ := h.due_open (hl ▸ hdue)
  have hflags := h.objects.flags pi hpi
  have hc' := Outcome.ok.inj hc
  simp only [Prod.mk.injEq] at hc'
  obtain ⟨rfl, rfl⟩ := hc'
  have hnext : ∀ (b : Bool) (o : Obj), (∀ q, o ≠ .page q) →
      (if b = true then some (Obj.page pi) else none) ≠ some o := by
    intro b o ho
    cases b
    · rintro ⟨⟩
    · exact fun he => ho pi (Option.some.inj he).symm
  refine h.giveBack hl hown _ m.put _ (fun o => ?_) fun q hq => ?_
  · rw [hdue]
    cases o with
    | inode ip =>
      rw [if_neg (hnext _ (.inode ip) (by rintro _ ⟨⟩))]
      rfl
    | pipeEnd q w' =>
      rw [if_neg (hnext _ (.pipeEnd q w') (by rintro _ ⟨⟩))]
      by_cases hq : q = pi
      · subst hq
        by_cases hw : w' = w
        · subst hw
          simp only [gained, spent, setAt_self, if_true]
          omega
        · have hne : some (Obj.pipeEnd q w) ≠ some (.pipeEnd q w') :=
            fun he => hw (by cases he; rfl)
          simp only [gained, spent, setAt_self, setAt_of_ne _ _ hw, if_neg hne]
      · have hne : some (Obj.pipeEnd pi w) ≠ some (.pipeEnd q w') :=
          fun he => hq (by cases he; rfl)
        simp only [gained, spent, setAt_of_ne _ _ hq, if_neg hne]
    | page q =>
      have hne : some (Obj.pipeEnd pi w) ≠ some (.page q) := by rintro ⟨⟩
      rw [if_neg hne]
      by_cases hq : q = pi
      · -- the page is to be freed if the other end was closed before
        subst hq
        have hbefore : gained m (.page q) = 0 := by
          refine if_neg fun hboth => ?_
          cases w
          · exact hflags.1.1 hboth.2.1 hopen
          · exact hflags.2.1 hboth.2.2 hopen
        rw [hbefore]
        cases w <;> simp [gained, spent, hpi] <;> omega
      · have hpage : (some (Obj.page pi) = some (.page q)) ↔ False :=
          iff_false_intro fun he => hq (by cases he; rfl)
        simp only [gained, spent, setAt_of_ne _ _ hq]
        split_ifs <;> simp_all
  · by_cases hqp : q = pi
    · subst hqp
      cases w <;> simp [setAt_of_ne, hflags]
    · simp only [setAt_of_ne _ _ hqp]
      exact h.objects.flags q hq

lemma Inv.freePipe {pi : ℕ} (hdue : l.due = some (.page pi)) :
    Inv (m.freePipe pi) (Function.update L t { l with due := none }) := by
  have hread := map_setAt Pipe.readopen (f := m.pipe) (i := pi)
    (v := { m.pipe pi with frees := (m.pipe pi).frees + 1 }) (by rfl)
  have hwrite := map_setAt Pipe.writeopen (f := m.pipe) (i := pi)
    (v := { m.pipe pi with frees := (m.pipe pi).frees + 1 }) (by rfl)
  have hcloses := map_setAt Pipe.closes (f := m.pipe) (i := pi)
    (v := { m.pipe pi with frees := (m.pipe pi).frees + 1 }) (by rfl)
  refine h.giveBack hl hown _ m.put none (fun o => ?_) fun q hq => ?_
  · rw [hdue]
    cases o with
    | inode ip => rfl
    | pipeEnd q w =>
      simp only [gained, spent, hcloses]
      rfl
    | page q =>
      simp only [gained, spent, hread, hwrite]
      by_cases hq : q = pi
      · subst hq
        simp only [setAt_self, if_true, reduceCtorEq, if_false]
        omega
      · have hne : some (Obj.page pi) ≠ some (.page q) := fun he => hq (by cases he; rfl)
        simp only [setAt_of_ne _ _ hq, if_neg hne, reduceCtorEq, if_false]
  · simp only [hread, hwrite, hcloses]
    exact h.objects.flags q hq

lemma Inv.iput {ip : ℕ} (hdue : l.due = some (.inode ip)) :
    Inv (m.iput ip) (Function.update L t { l with due := none }) := by
  refine h.giveBack hl hown m.pipe _ none (fun o => ?_) h.objects.flags
  rw [hdue]
  cases o with
  | inode ip' =>
    simp only [gained, spent, setAt_succ, reduceCtorEq, if_false]
    omega
  | pipeEnd pi w => rfl
  | page pi => rfl

end

/-! ### Processes -/

/-- The state of a process changes.  `p` is the process that takes the step, or does not run before
or after it. -/
lemma Inv.setState (h : Inv m L) (hl : L t = l) (p : Fin N) (x : Status) {l' : Hold N}
    (hshare : ∀ f, share m (Function.update L t l') t f = share m L t f)
    (hfresh : l'.fresh = l.fresh)
    (hown : ∀ own, l.own = some own → l'.fresh = ∅ ∨ l'.own = some own)
    (hdue : l'.due = l.due)
    (hslots : Slots (m.setState p x) (Function.update L t l')) :
    Inv (m.setState p x) (Function.update L t l') := by
  subst hl
  refine ⟨h.refs.change t (fun q hq => share_update hq fun _ => rfl) fun f => ?_,
    h.kinds.keep (fun _ => ⟨rfl, rfl⟩) hfresh hown,
    h.objects.keep (fun _ => rfl) rfl rfl rfl rfl hdue, hslots⟩
  rw [← hshare f]
  rfl

lemma Inv.start (h : Inv m L) (hl : L t = l) (hs : m.state t = .runnable) (hdue : l.due = none)
    (hfresh : l.fresh = ∅) :
    Inv (m.setState t .running) (Function.update L t
      ⟨some (tally fun fd => m.ofile (t, fd)), fun fd => m.ofile (t, fd), ∅, none, none⟩) := by
  have hrun : m.state t ≠ .running := by simp [hs]
  refine h.setState hl t .running (fun f => ?_) hfresh.symm (fun own hown => Or.inl rfl) hdue.symm
    (h.slots.setState t .running ?_ (fun _ fd => rfl) (fun ht => absurd rfl ht)
      (fun hx => by rcases hx with hx | hx <;> cases hx) (by rintro _ _ ⟨⟩)
      fun u j _ => h.slots.not_child (by simp [hs]) u j)
  · rw [share_of_none (h.slots.own_eq_none hrun) f]
    exact share_of_own (by rw [Function.update_self]) f
  · simp [St.setState]

lemma Inv.reap (h : Inv m L) (p : Fin N) : Inv (m.reap p) L := by
  unfold St.reap
  split
  · rename_i hs
    have hown := h.slots.own_eq_none (p := p) (by simp [hs])
    have hnot := h.slots.not_child (p := p) (by simp [hs])
    have hupd : Inv (m.setState p .unused) (Function.update L p (L p)) := by
      refine h.setState rfl p .unused (fun f => by rw [Function.update_eq_self]) rfl
        (fun own h₁ => Or.inr h₁) rfl
        (h.slots.setState p .unused ?_ (fun hn => absurd hown hn) (fun ht => absurd rfl ht)
          (fun _ => h.slots.closed p (Or.inr hs)) (fun np j hc => ?_) fun u j _ => hnot u j)
      · simp [St.setState, hown]
      · obtain ⟨hused, hnone⟩ := h.slots.child p np j hc
        have hne : np ≠ p := by
          rintro rfl
          exact hnot np j hc
        exact ⟨(setAt_of_ne _ _ hne).trans hused, hnone,
          fun u k hu hk => hu (h.slots.owner u p np k j hk hc)⟩
    rwa [Function.update_eq_self] at hupd
  · exact h

section

variable (h : Inv m L) (hl : L t = l) (hown : l.own = some own)
include h hl hown

lemma Inv.allocproc {np : Fin N} (hs : m.state np = .unused) :
    Inv (m.setState np .used) (Function.update L t { l with child := some (np, 0) }) := by
  subst hl
  obtain ⟨hrun, hmine⟩ := h.slots.mine t own hown
  have hne : t ≠ np := h.slots.ne_of_state hown hs (by rintro ⟨⟩)
  have hnot := h.slots.not_child (p := np) (by simp [hs])
  refine h.setState rfl np .used (fun f => ?_) rfl (fun own1 h₁ => Or.inr h₁) rfl
    (h.slots.setState np .used ?_ (fun _ fd => hmine fd) (fun _ => ⟨by simp [hs], by simp⟩)
      (fun hx => by rcases hx with hx | hx <;> cases hx) (fun np' j hc => ?_)
      fun u j _ => hnot u j)
  · rw [share_of_own hown f, share_of_own (by rw [Function.update_self]; exact hown) f]
  · simp [St.setState, setAt_of_ne _ _ hne, hrun, hown]
  · cases hc
    exact ⟨setAt_self _ _ _, fun fd _ => h.slots.closed np (Or.inl hs) fd, fun u k _ => hnot u k⟩

lemma Inv.release {np : Fin N} {j : ℕ} (hc : l.child = some (np, j)) {x : Status}
    (hx : x = .runnable ∨ x = .unused ∧ j = 0) :
    Inv (m.setState np x) (Function.update L t { l with child := none }) := by
  subst hl
  obtain ⟨hrun, hmine⟩ := h.slots.mine t own hown
  obtain ⟨hs, hnone⟩ := h.slots.child t np j hc
  have hne : t ≠ np := h.slots.ne_of_state hown hs (by rintro ⟨⟩)
  refine h.setState rfl np x (fun f => ?_) rfl (fun own1 h₁ => Or.inr h₁) rfl
    (h.slots.setState np x ?_ (fun _ fd => hmine fd) (fun _ => ⟨by simp [hs], ?_⟩)
      (fun hx' fd => ?_) (by rintro _ _ ⟨⟩)
      fun u k hut hu => hut (h.slots.owner u t np k j hu hc))
  · rw [share_of_own hown f, share_of_own (by rw [Function.update_self]; exact hown) f]
  · simp [St.setState, setAt_of_ne _ _ hne, hrun, hown]
  · rcases hx with rfl | ⟨rfl, -⟩ <;> simp
  · rcases hx with rfl | ⟨rfl, rfl⟩
    · rcases hx' with hx' | hx' <;> cases hx'
    · exact hnone fd (Nat.zero_le _)

lemma Inv.zombie (hzero : ∀ f, own f = 0)
    (hfds : ∀ fd, l.fds fd = none) (hfresh : l.fresh = ∅) (hchild : l.child = none) :
    Inv (m.setState t .zombie) (Function.update L t { l with own := none }) := by
  subst hl
  obtain ⟨hrun, hmine⟩ := h.slots.mine t own hown
  refine h.setState rfl t .zombie (fun f => ?_) rfl (fun own1 h₁ => Or.inl hfresh) rfl
    (h.slots.setState t .zombie ?_ (fun hn => absurd rfl hn) (fun ht => absurd rfl ht)
      (fun _ fd => (hmine fd).trans (hfds fd)) (fun np j hc => ?_)
      fun u j _ => h.slots.not_child (by simp [hrun]) u j)
  · rw [share_of_own hown f, hzero f, share_of_none (by rw [Function.update_self]) f]
    exact tally_eq_zero (fun fd => (hmine fd).trans (hfds fd)) f
  · simp [St.setState]
  · rw [hchild] at hc
    cases hc

lemma Inv.advance {np : Fin N} {fd : Fin NOFILE} (hc : l.child = some (np, fd.val)) :
    Inv m (Function.update L t { l with child := some (np, fd + 1) }) := by
  subst hl
  obtain ⟨hrun, hmine⟩ := h.slots.mine t own hown
  refine ⟨h.refs.step hown hown (fun _ _ _ => rfl) fun _ => rfl,
    h.kinds.keep (fun _ => ⟨rfl, rfl⟩) rfl fun own1 h₁ => Or.inr h₁,
    h.objects.keep (fun _ => rfl) rfl rfl rfl rfl rfl,
    h.slots.step rfl (by simp [hown]) hrun hmine (fun _ _ _ _ => rfl) (fun np' j hc' => ?_)
      fun _ _ _ _ _ _ => rfl⟩
  cases hc'
  exact ⟨fd, hc, fun d hd => (h.slots.child t np fd hc).2 d (by omega)⟩

lemma Inv.dupInto {np : Fin N} {fd : Fin NOFILE} (hc : l.child = some (np, fd.val))
    (hf : 1 ≤ own f) (hfresh : f ∉ l.fresh) :
    Inv ((m.setFile f { m.file f with ref := (m.file f).ref + 1 }).setFd np fd (some f))
      (Function.update L t { l with child := some (np, fd + 1) }) := by
  have htyped := h.typed hl hown hf hfresh
  have hother := fun u (hu : u ≠ t) => h.not_fresh hl hown hf hu
  subst hl
  obtain ⟨hrun, hmine⟩ := h.slots.mine t own hown
  obtain ⟨hs, hnone⟩ := h.slots.child t np fd hc
  have hne : t ≠ np := h.slots.ne_of_state hown hs (by rintro ⟨⟩)
  have hnp := h.slots.own_eq_none (p := np) (by simp [hs])
  obtain ⟨m', hm'⟩ : ∃ m' : St N, m' =
      (m.setFile f { m.file f with ref := (m.file f).ref + 1 }).setFd np fd (some f) := ⟨_, rfl⟩
  rw [← hm']
  have hself : m'.file f = { m.file f with ref := (m.file f).ref + 1 } := by
    rw [hm']
    exact setAt_self _ _ _
  have hfile : ∀ g, g ≠ f → m'.file g = m.file g := by
    intro g hg
    rw [hm']
    exact setAt_of_ne _ _ hg
  have hoff : ∀ p d, p ≠ np → m'.ofile (p, d) = m.ofile (p, d) := by
    intro p d hp
    rw [hm']
    exact setAt_of_ne _ _ fun he => hp (congrArg Prod.fst he)
  have hat : (fun d => m'.ofile (np, d)) = setAt (fun d => m.ofile (np, d)) fd (some f) := by
    funext d
    rw [hm']
    by_cases hd : d = fd
    · subst hd
      simp only [St.setFd, setAt_self]
    · rw [setAt_of_ne _ _ hd]
      exact setAt_of_ne _ _ fun he => hd (congrArg Prod.snd he)
  refine ⟨h.refs.change np (fun q hq g => ?_) fun g => ?_,
    h.kinds.step f hown (fun g hg => ?_) (fun h0 => ?_) (fun h0 => ?_)
      (fun hfr => absurd hfr hfresh) hother,
    h.objects.keep (fun g => ?_) (by rw [hm']; rfl) (by rw [hm']; rfl) (by rw [hm']; rfl)
      (by rw [hm']; rfl) rfl,
    h.slots.step (by rw [hm']; rfl) (by simp [hown]) hrun (fun d => ?_)
      (fun p d _ hp => hoff p d ?_) (fun np' j hc' => ?_) fun u np' j hu hc' d => hoff np' d ?_⟩
  · by_cases hqt : q = t
    · subst hqt
      rw [share_of_own hown g, share_of_own (by rw [Function.update_self]; exact hown) g]
    · exact share_update hqt (fun d => hoff q d hq) g
  · -- the new process has one reference to `f` more
    have htally := tally_setAt (fun d => m.ofile (np, d)) fd (some f) g
    rw [hnone fd le_rfl, if_neg (Option.some_ne_none g).symm] at htally
    rw [share_of_none hnp g, share_of_none (by rw [Function.update_of_ne hne.symm]; exact hnp) g,
      hat, ← Nat.add_zero (tally (setAt _ _ _) g), htally]
    by_cases hg : g = f
    · subst hg
      rw [hself, if_pos rfl]
      dsimp only
      omega
    · rw [hfile g hg, if_neg fun he => hg (Option.some.inj he).symm]
      omega
  · rw [hfile g hg]
    refine ⟨rfl, rfl, Iff.rfl, fun _ own1 h₁ => ?_⟩
    rw [hown] at h₁
    exact congrFun (Option.some.inj h₁) g
  · rw [hself] at h0
    cases h0
  · rw [hself] at h0
    exact absurd h0 htyped
  · by_cases hg : g = f
    · subst hg
      rw [hself]
      rfl
    · rw [hfile g hg]
  · rw [hoff t d hne]
    exact hmine d
  · rintro rfl
    exact hp hs
  · cases hc'
    refine ⟨fd, hc, fun d hd => ?_⟩
    have hdne : d ≠ fd := by
      rintro rfl
      omega
    rw [congrFun hat d, setAt_of_ne _ _ hdne]
    exact hnone d (by omega)
  · rintro rfl
    exact hu (h.slots.owner u t np' j fd hc' hc)

end

end Actions

end Xv6.Files
