import Xv6.Proc.Table
import Xv6.Proc.Monitor

/-!
# Parents, children and the lives of processes

What `fork`, `exit` and `wait` keep about the process table, in two parts.  The first is about
parents: a parent lives (`Kin.Ok`), and each process in the middle of one of these calls knows
something about the others (`Task`).  It sees the state of a process only up to `Status`, which
sleeping and scheduling do not change.

The second part relates the table to what has happened (`History`).  The events of an entry are a
sequence of lives: a process is created, exits, and is waited for by its parent, which ends the
life and gives back the entry (`life`).
-/

namespace Xv6.Procs

open Concur Sched

variable {N : ℕ}

/-- The state of a process as `exit` and `wait` see it. -/
inductive Status where
  | free
  | embryo
  | live
  | zombie
  deriving DecidableEq

def status : ProcState → Status
  | .unused => .free
  | .used => .embryo
  | .sleeping | .runnable | .running => .live
  | .zombie => .zombie

lemma status_eq_live {s : ProcState} : status s = .live ↔ s.Active := by
  cases s <;> simp [status, ProcState.Active]

lemma status_eq_free {s : ProcState} : status s = .free ↔ s = .unused := by
  cases s <;> simp [status]

lemma status_eq_zombie {s : ProcState} : status s = .zombie ↔ s = .zombie := by
  cases s <;> simp [status]

lemma status_eq_of_active {s s' : ProcState} (h : s' = s ∨ (s.Active ∧ s'.Active)) :
    status s' = status s := by
  rcases h with rfl | ⟨h, h'⟩
  · rfl
  · rw [status_eq_live.2 h, status_eq_live.2 h']

/-! ## Parents -/

structure Kin (N : ℕ) where
  status : Fin N → Status
  parent : Fin N → Option (Fin N)

namespace Kin

variable {k k' : Kin N} {ini p q : Fin N}

def setStatus (k : Kin N) (p : Fin N) (s : Status) : Kin N :=
  { k with status := setAt k.status p s }

def setParent (k : Kin N) (p : Fin N) (q : Option (Fin N)) : Kin N :=
  { k with parent := setAt k.parent p q }

/-- Parents live, and a process that is on its own has one. -/
structure Ok (ini : Fin N) (k : Kin N) : Prop where
  root : k.status ini = .live
  parent : ∀ p q, k.parent p = some q → k.status q = .live
  orphan : ∀ p, p ≠ ini → k.status p = .live ∨ k.status p = .zombie → k.parent p ≠ none
  free : ∀ p, k.status p = .free → k.parent p = none

lemma Ok.setStatus (h : k.Ok ini) {s : Status} (hini : p = ini → s = .live)
    (hparent : s = .live ∨ ∀ q, k.parent q ≠ some p)
    (horphan : s = .live ∨ s = .zombie → p ≠ ini → k.parent p ≠ none)
    (hfree : s = .free → k.parent p = none) : (k.setStatus p s).Ok ini := by
  refine ⟨?_, fun r q hq => ?_, fun r => ?_, fun r => ?_⟩
  · exact setAt_cases (motive := fun u x => u = ini → x = Status.live) ini hini
      (fun u _ hu => hu ▸ h.root) rfl
  · refine setAt_cases (motive := fun u x => k.parent r = some u → x = Status.live) q ?_
      (fun u _ => h.parent r u) hq
    exact fun hp => hparent.elim id fun hnone => absurd hp (hnone r)
  · exact setAt_cases (motive := fun u x => u ≠ ini → x = Status.live ∨ x = .zombie →
      k.parent u ≠ none) r (fun hne hs => horphan hs hne) fun u _ => h.orphan u
  · exact setAt_cases (motive := fun u x => x = Status.free → k.parent u = none) r hfree
      fun u _ => h.free u

lemma Ok.adopt (h : k.Ok ini) (hp : k.status p ≠ .free) (hq : k.status q = .live) :
    (k.setParent p (some q)).Ok ini := by
  refine ⟨h.root, fun r s => ?_, fun r => ?_, fun r => ?_⟩
  · refine setAt_cases (motive := fun _ x => x = some s → k.status s = .live) r ?_
      fun u _ => h.parent u s
    rintro ⟨⟩
    exact hq
  · exact setAt_cases (motive := fun u x => u ≠ ini → k.status u = .live ∨ k.status u = .zombie →
      x ≠ none) r (fun _ _ => Option.some_ne_none q) fun u _ => h.orphan u
  · exact setAt_cases (motive := fun u x => k.status u = .free → x = none) r
      (fun hf => absurd hf hp) fun u _ => h.free u

lemma Ok.parent_ne (h : k.Ok ini) (hp : k.status p ≠ .live) (q : Fin N) : k.parent q ≠ some p :=
  fun hq => hp (h.parent q p hq)

lemma Ok.release (h : k.Ok ini) (hp : k.status p ≠ .live) :
    ((k.setParent p none).setStatus p .free).Ok ini := by
  have hne : p ≠ ini := by
    rintro rfl
    exact hp h.root
  refine ⟨?_, fun r s hs => ?_, fun r hr hs => ?_, fun r hr => ?_⟩
  · simpa [Kin.setStatus, Kin.setParent, setAt_of_ne _ _ hne.symm] using h.root
  · have hs' : k.parent r = some s := by
      by_cases he : r = p
      · subst he
        simp [Kin.setStatus, Kin.setParent] at hs
      · simpa [Kin.setStatus, Kin.setParent, setAt_of_ne _ _ he] using hs
    have he : s ≠ p := by
      rintro rfl
      exact h.parent_ne hp r hs'
    simpa [Kin.setStatus, Kin.setParent, setAt_of_ne _ _ he] using h.parent r s hs'
  · by_cases he : r = p
    · subst he
      simp [Kin.setStatus] at hs
    · simp only [Kin.setStatus, Kin.setParent, setAt_of_ne _ _ he] at hs ⊢
      exact h.orphan r hr hs
  · by_cases he : r = p
    · subst he
      simp [Kin.setStatus, Kin.setParent]
    · simp only [Kin.setStatus, Kin.setParent, setAt_of_ne _ _ he] at hr ⊢
      exact h.free r hr

end Kin

/-- The parents and the status of all processes. -/
def kin (m : St N) : Kin N := ⟨fun p => status (m.proc p).state, m.data.parent⟩

lemma kin_setProc (m : St N) (p : Fin N) (x : Proc N (Fin N) Priv) :
    kin (m.setProc p x) = (kin m).setStatus p (status x.state) := by
  simp only [kin, Kin.setStatus, Mem.setProc, Kin.mk.injEq, and_true]
  exact funext fun q => setAt_cases q (setAt_self _ _ _).symm
    fun q hq => (setAt_of_ne (fun p => status (m.proc p).state) _ hq).symm

lemma kin_setProc_of_eq (m : St N) (p : Fin N) {x : Proc N (Fin N) Priv}
    (h : status x.state = status (m.proc p).state) : kin (m.setProc p x) = kin m := by
  rw [kin_setProc, h, Kin.setStatus, show status (m.proc p).state = (kin m).status p from rfl,
    setAt_eq_self]

lemma kin_quiet {m m' : St N} (h : Quiet m m') : kin m' = kin m := by
  simp only [kin, Kin.mk.injEq]
  exact ⟨funext fun p => status_eq_of_active (h.state p), by rw [h.data]⟩

/-! ## What processes remember in the middle of a call -/

/-- What a process is doing. -/
inductive Task (N : ℕ) where
  /-- There is no process, or it has not run yet, or it has exited. -/
  | away
  | idle
  /-- In `fork`, with a new process that has no parent yet. -/
  | forking (np : Fin N)
  /-- In `fork`, with a new process of which it is the parent. -/
  | adopted (np : Fin N)
  /-- In `exit`, after `reparent` for the entries before this index. -/
  | leaving (j : ℕ)
  /-- In `exit`, without children, and with this parent. -/
  | parting (q : Fin N)
  /-- In `wait`, after it has looked at the entries before this index. -/
  | scanning (j : ℕ)
  /-- In `kill`. -/
  | killing (pid : Int32)

namespace Task

variable {k k' : Kin N} {lock lock' : Option (Fin N)} {u : Fin N}

/-- The process that is being made. -/
def child : Task N → Option (Fin N)
  | forking np | adopted np => some np
  | _ => none

/-- What the process `u` knows. -/
def Knows (k : Kin N) (lock : Option (Fin N)) (u : Fin N) : Task N → Prop
  | away => True
  | idle | killing _ => k.status u = .live
  | forking np => k.status u = .live ∧ k.status np = .embryo ∧ k.parent np = none
  | adopted np => k.status u = .live ∧ k.status np = .embryo ∧ k.parent np = some u
  | leaving j => k.status u = .live ∧ lock = some u ∧ ∀ q : Fin N, q.val < j → k.parent q ≠ some u
  | parting q => k.status u = .live ∧ lock = some u ∧ (∀ r, k.parent r ≠ some u) ∧
      k.parent u = some q
  | scanning j => k.status u = .live ∧ lock = some u ∧
      ∀ q : Fin N, q.val < j → k.parent q = some u → k.status q ≠ .zombie

lemma Knows.live {a : Task N} (h : a.Knows k lock u) (ha : a ≠ away) : k.status u = .live := by
  cases a with
  | away => exact absurd rfl ha
  | idle => exact h
  | killing pid => exact h
  | forking np => exact h.1
  | adopted np => exact h.1
  | leaving j => exact h.1
  | parting q => exact h.1
  | scanning j => exact h.1

lemma Knows.embryo {a : Task N} (h : a.Knows k lock u) {np : Fin N} (ha : a.child = some np) :
    k.status np = .embryo := by
  cases a <;> cases ha
  · exact h.2.1
  · exact h.2.1

/-- What a process knows stays true when others do not touch it, what it makes, and, while it
holds the lock, its children. -/
lemma Knows.frame {a : Task N} (h : a.Knows k lock u)
    (hself : k.status u = .live → k'.status u = .live)
    (hchild : ∀ np, a.child = some np →
      k'.status np = k.status np ∧ k'.parent np = k.parent np)
    (hlock : lock = some u → lock' = some u ∧ k'.parent u = k.parent u ∧
      ∀ q, k'.parent q = some u →
        k.parent q = some u ∧ (k'.status q = .zombie → k.status q = .zombie)) :
    a.Knows k' lock' u := by
  cases a with
  | away => trivial
  | idle => exact hself h
  | killing pid => exact hself h
  | forking np | adopted np =>
    obtain ⟨h1, h2, h3⟩ := h
    obtain ⟨hs, hp⟩ := hchild np rfl
    exact ⟨hself h1, hs.trans h2, hp.trans h3⟩
  | leaving j =>
    obtain ⟨h1, h2, h3⟩ := h
    obtain ⟨hl, -, hq⟩ := hlock h2
    exact ⟨hself h1, hl, fun q hj hp => h3 q hj (hq q hp).1⟩
  | parting q =>
    obtain ⟨h1, h2, h3, h4⟩ := h
    obtain ⟨hl, hp, hq⟩ := hlock h2
    exact ⟨hself h1, hl, fun r hr => h3 r (hq r hr).1, hp.trans h4⟩
  | scanning j =>
    obtain ⟨h1, h2, h3⟩ := h
    obtain ⟨hl, -, hq⟩ := hlock h2
    exact ⟨hself h1, hl, fun q hj hp hz => h3 q hj (hq q hp).1 ((hq q hp).2 hz)⟩

end Task

/-- The part of the invariant about parents. -/
structure Kinship (ini : Fin N) (m : St N) (U : Fin N → Task N) : Prop where
  ok : (kin m).Ok ini
  /-- A process that has run is accounted for. -/
  started : ∀ u, (kin m).status u = .live → (m.proc u).priv.forkret = false → U u ≠ .away
  fresh : ∀ p, (kin m).status p = .embryo → (m.proc p).priv.forkret = true
  knows : ∀ u, (U u).Knows (kin m) m.lock u
  owner : ∀ u v np, (U u).child = some np → (U v).child = some np → u = v

/-! ## Lives -/

/-- The life of the process in an entry of the table. -/
inductive Life where
  | free
  | alive (pid : Int32)
  | dead (pid status : Int32)
  deriving DecidableEq

/-- The entry that an event of a life is about. -/
def Event.slot : Event N → Option (Fin N)
  | created p _ _ | exited p _ _ | waited _ p _ _ _ => some p
  | _ => none

/-- How a life goes on: a free entry is given to a process, which exits, and whose parent then
gets its pid and status from `wait`.  Nothing else can happen. -/
def Life.next (p : Fin N) (e : Event N) (l : Life) : Option Life :=
  if e.slot = some p then
    match e, l with
    | .created _ pid _, free => some (alive pid)
    | .exited _ pid status, alive pid' => if pid = pid' then some (dead pid status) else none
    | .waited t _ pid status parent, dead pid' status' =>
      if pid = pid' ∧ status = status' ∧ parent = some t then some free else none
    | _, _ => none
  else some l

/-- The life in the entry `p` after these events, newest first. -/
def life (p : Fin N) : List (Event N) → Option Life
  | [] => some .free
  | e :: es => (life p es).bind (Life.next p e)

lemma life_note {p : Fin N} {e : Event N} (he : e.slot ≠ some p) (es : List (Event N)) :
    life p (e :: es) = life p es := by
  have : Life.next p e = some := by
    funext l
    exact if_neg he
  simp [life, this]

lemma life_cons {p : Fin N} {e : Event N} {es : List (Event N)} {l : Life}
    (h : life p (e :: es) = some l) (he : e.slot = some p) :
    (∃ pid k, e = .created p pid k ∧ life p es = some .free ∧ l = .alive pid) ∨
    (∃ pid status, e = .exited p pid status ∧ life p es = some (.alive pid) ∧
      l = .dead pid status) ∨
    ∃ t pid status, e = .waited t p pid status (some t) ∧ life p es = some (.dead pid status) ∧
      l = .free := by
  rw [life, Option.bind_eq_some_iff] at h
  obtain ⟨l0, hl0, hnext⟩ := h
  unfold Life.next at hnext
  rw [if_pos he] at hnext
  split at hnext
  · cases he
    cases hnext
    exact Or.inl ⟨_, _, rfl, hl0, rfl⟩
  · cases he
    rw [Option.ite_none_right_eq_some] at hnext
    obtain ⟨rfl, hnext⟩ := hnext
    cases hnext
    exact Or.inr (Or.inl ⟨_, _, rfl, hl0, rfl⟩)
  · cases he
    rw [Option.ite_none_right_eq_some] at hnext
    obtain ⟨⟨rfl, rfl, rfl⟩, hnext⟩ := hnext
    cases hnext
    exact Or.inr (Or.inr ⟨_, _, _, rfl, hl0, rfl⟩)
  · cases hnext

/-- What the entry of a process holds. -/
def Life.Matches (x : Proc N (Fin N) Priv) : Life → Prop
  | free => status x.state = .free ∧ x.priv.pid = 0
  | alive pid => (status x.state = .embryo ∨ status x.state = .live) ∧ x.priv.pid = pid
  | dead pid xstate => status x.state = .zombie ∧ x.priv.pid = pid ∧ x.priv.xstate = xstate

lemma Life.Matches.congr {x x' : Proc N (Fin N) Priv} {l : Life} (h : l.Matches x)
    (hs : status x'.state = status x.state) (hpid : x'.priv.pid = x.priv.pid)
    (hx : x'.priv.xstate = x.priv.xstate) : l.Matches x' := by
  cases l with
  | free => exact ⟨hs.trans h.1, hpid.trans h.2⟩
  | alive pid => exact ⟨by rw [hs]; exact h.1, hpid.trans h.2⟩
  | dead pid xstate => exact ⟨hs.trans h.1, hpid.trans h.2.1, hx.trans h.2.2⟩

/-! ## Who was killed -/

/-- The pid with which `t` is in `kill`, after these events. -/
def calling (t : Fin N) : List (Event N) → Option Int32
  | [] => none
  | .killCall u pid :: es => if u = t then some pid else calling t es
  | .killReturn u _ _ _ :: es => if u = t then none else calling t es
  | _ :: es => calling t es

/-- The process in the entry `p` was created with this pid between `older` and `recent`. -/
def Born (p : Fin N) (pid : Int32) (recent older log : List (Event N)) : Prop :=
  (∃ k, log = recent ++ .created p pid k :: older) ∧ ∀ pid' k, .created p pid' k ∉ recent

/-- Since the process in the entry `p` was created, `kill` was called with its pid or it took an
unexpected trap. -/
def Deserved (log : List (Event N)) (p : Fin N) (pid : Int32) : Prop :=
  ∃ recent older, Born p pid recent older log ∧
    ((∃ t, .killCall t pid ∈ recent) ∨ .trapped p ∈ recent)

/-- When the process in the entry `p` was created, a call of `kill` with its pid was in progress:
it had been called before there was such a process, and had not reached the entry yet. -/
def Awaited (log : List (Event N)) (p : Fin N) (pid : Int32) : Prop :=
  ∃ recent older, Born p pid recent older log ∧ ∃ t, calling t older = some pid

lemma Born.cons {p : Fin N} {pid : Int32} {recent older log : List (Event N)} {e : Event N}
    (h : Born p pid recent older log) (he : ∀ pid k, e ≠ .created p pid k) :
    Born p pid (e :: recent) older (e :: log) := by
  obtain ⟨⟨k, rfl⟩, hnone⟩ := h
  refine ⟨⟨k, rfl⟩, fun pid' k' hmem => ?_⟩
  rcases List.mem_cons.1 hmem with heq | hmem
  · exact he pid' k' heq.symm
  · exact hnone pid' k' hmem

lemma ne_created {p : Fin N} {e : Event N} (he : e.slot ≠ some p) (pid : Int32) (k : Bool) :
    e ≠ .created p pid k := by
  rintro rfl
  exact he rfl

lemma Deserved.cons {log : List (Event N)} {p : Fin N} {pid : Int32} {e : Event N}
    (h : Deserved log p pid) (he : ∀ pid k, e ≠ .created p pid k) :
    Deserved (e :: log) p pid := by
  obtain ⟨recent, older, hborn, hkill⟩ := h
  refine ⟨e :: recent, older, hborn.cons he, ?_⟩
  exact hkill.imp (Exists.imp fun _ => List.mem_cons_of_mem _) (List.mem_cons_of_mem _)

lemma Awaited.cons {log : List (Event N)} {p : Fin N} {pid : Int32} {e : Event N}
    (h : Awaited log p pid) (he : ∀ pid k, e ≠ .created p pid k) : Awaited (e :: log) p pid := by
  obtain ⟨recent, older, hborn, ht⟩ := h
  exact ⟨e :: recent, older, hborn.cons he, ht⟩

lemma born_of_life {p : Fin N} {pid : Int32} {log : List (Event N)}
    (h : life p log = some (.alive pid) ∨ ∃ xstate, life p log = some (.dead pid xstate)) :
    ∃ recent older, Born p pid recent older log := by
  induction log with
  | nil => rcases h with h | ⟨_, h⟩ <;> cases h
  | cons e es ih =>
    by_cases he : e.slot = some p
    · rcases h with h | ⟨xstate, h⟩
      · rcases life_cons h he with
          ⟨pid', k, rfl, -, hl⟩ | ⟨_, _, _, _, hl⟩ | ⟨_, _, _, _, _, hl⟩ <;> cases hl
        exact ⟨[], es, ⟨k, rfl⟩, by rintro _ _ ⟨⟩⟩
      · rcases life_cons h he with
          ⟨_, _, _, _, hl⟩ | ⟨pid', st, rfl, halive, hl⟩ | ⟨_, _, _, _, _, hl⟩ <;> cases hl
        obtain ⟨recent, older, hborn⟩ := ih (Or.inl halive)
        exact ⟨_, older, hborn.cons (by rintro _ _ ⟨⟩)⟩
    · simp only [life_note he] at h
      obtain ⟨recent, older, hborn⟩ := ih h
      exact ⟨e :: recent, older, hborn.cons (ne_created he)⟩

/-- A process that is in `kill` was called since the creation of another one, or is in a call that
was in progress then. -/
lemma calling_split {t p : Fin N} {pid pid' : Int32} {recent older : List (Event N)} {k : Bool}
    (h : calling t (recent ++ .created p pid' k :: older) = some pid) :
    .killCall t pid ∈ recent ∨ calling t older = some pid := by
  induction recent with
  | nil => exact Or.inr h
  | cons e es ih =>
    have hrec : calling t (es ++ .created p pid' k :: older) = some pid →
        .killCall t pid ∈ e :: es ∨ calling t older = some pid := by
      intro h'
      rcases ih h' with hmem | hold
      · exact Or.inl (List.mem_cons_of_mem _ hmem)
      · exact Or.inr hold
    cases e with
    | killCall u pid1 =>
      simp only [List.cons_append, calling] at h
      split at h
      · rename_i hu
        subst hu
        cases h
        exact Or.inl List.mem_cons_self
      · exact hrec h
    | killReturn u pid1 r f =>
      simp only [List.cons_append, calling] at h
      split at h
      · cases h
      · exact hrec h
    | created q pid1 k1 => exact hrec h
    | exited q pid1 st => exact hrec h
    | waited v q pid1 st par => exact hrec h
    | trapped q => exact hrec h

/-- What the log says about one entry of the table; `clean` is that nobody calls `kill(0)`. -/
structure Recorded (clean : Prop) (log : List (Event N)) (p : Fin N)
    (x : Proc N (Fin N) Priv) : Prop where
  life : ∃ l, life p log = some l ∧ l.Matches x
  killed : clean → x.priv.killed = true →
    x.state ≠ .unused ∧ (Deserved log p x.priv.pid ∨ Awaited log p x.priv.pid)

namespace Recorded

variable {clean : Prop} {log : List (Event N)} {p : Fin N} {x x' : Proc N (Fin N) Priv}

section

variable (h : Recorded clean log p x)

include h

lemma note {e : Event N} (he : e.slot ≠ some p) :
    Recorded clean (e :: log) p x := by
  refine ⟨?_, fun hc hk => ?_⟩
  · rw [life_note he]
    exact h.life
  · exact ⟨(h.killed hc hk).1, (h.killed hc hk).2.imp (·.cons (ne_created he))
      (·.cons (ne_created he))⟩

lemma congr (hs : status x'.state = status x.state)
    (hpid : x'.priv.pid = x.priv.pid) (hx : x'.priv.xstate = x.priv.xstate)
    (hk : x'.priv.killed = true → x.priv.killed = true) : Recorded clean log p x' := by
  refine ⟨?_, fun hc hk' => ?_⟩
  · obtain ⟨l, hl, hm⟩ := h.life
    exact ⟨l, hl, hm.congr hs hpid hx⟩
  · obtain ⟨hne, hd⟩ := h.killed hc (hk hk')
    rw [hpid]
    refine ⟨fun he => hne ?_, hd⟩
    rw [← status_eq_free, ← hs, status_eq_free]
    exact he

lemma born (hx : x.state ≠ .unused) :
    ∃ recent older, Born p x.priv.pid recent older log := by
  obtain ⟨l, hl, hm⟩ := h.life
  cases l with
  | free => exact absurd (status_eq_free.1 hm.1) hx
  | alive pid =>
    rw [hm.2]
    exact born_of_life (Or.inl hl)
  | dead pid xstate =>
    rw [hm.2.1]
    exact born_of_life (Or.inr ⟨xstate, hl⟩)

lemma of_free (hx : status x.state = .free) :
    Procs.life p log = some .free ∧ x.priv.pid = 0 := by
  obtain ⟨l, hl, hm⟩ := h.life
  cases l <;> simp_all [Life.Matches]

lemma of_alive (hx : status x.state = .embryo ∨ status x.state = .live) :
    Procs.life p log = some (.alive x.priv.pid) := by
  obtain ⟨l, hl, hm⟩ := h.life
  cases l <;> rcases hx with hx | hx <;> simp_all [Life.Matches]

lemma of_zombie (hx : status x.state = .zombie) :
    Procs.life p log = some (.dead x.priv.pid x.priv.xstate) := by
  obtain ⟨l, hl, hm⟩ := h.life
  cases l <;> simp_all [Life.Matches]

lemma not_killed (hc : clean) (hx : x.state = .unused) :
    x.priv.killed = false := by
  rw [← Bool.not_eq_true]
  exact fun hk => (h.killed hc hk).1 hx

end

end Recorded

/-- The part of the invariant about what has happened. -/
structure History (clean : Prop) (m : St N) (U : Fin N → Task N) : Prop where
  recorded : ∀ p, Recorded clean m.data.log p (m.proc p)
  calls : ∀ u pid, U u = .killing pid → calling u m.data.log = some pid
  starts : clean → ∀ p pid k, .created p pid k ∈ m.data.log → k = false
  returns : clean → ∀ t pid f, .killReturn t pid 0 f ∈ m.data.log → f = true
  asked : clean → ∀ u pid, U u = .killing pid → pid ≠ 0

end Xv6.Procs
