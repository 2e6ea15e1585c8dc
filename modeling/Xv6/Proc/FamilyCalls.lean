import Xv6.Proc.Family

/-!
# The calls on the process table keep its invariant

`fork`, `exit`, `wait`, `kill` and traps by the rules of `Proc/Monitor.lean`.  A process in `wait`
should not sleep when it has a `ZOMBIE` child; `exit` calls `wakeup` for its parent before it
becomes one, which is good enough because it holds `wait_lock` from there on.
-/

namespace Xv6.Procs

open Concur Sched

variable {N : ℕ} {ini t p : Fin N} {clean : Prop} {m m' : St N} {U : Fin N → Task N} {γ : Task N}

/-! ## The invariant after a step of `t` -/

lemma Kinship.step (h : Kinship ini m U) (hok : (kin m').Ok ini)
    (hstarted : ∀ u, u ≠ t → (kin m').status u = .live → (m'.proc u).priv.forkret = false →
      (kin m).status u = .live ∧ (m.proc u).priv.forkret = false)
    (haway : γ = .away → (kin m').status t ≠ .live)
    (hfresh : ∀ p, (kin m').status p = .embryo → (m'.proc p).priv.forkret = true)
    (hself : γ.Knows (kin m') m'.lock t)
    (hother : ∀ u, u ≠ t → (U u).Knows (kin m') m'.lock u)
    (howner : ∀ np, γ.child = some np → ∀ v, v ≠ t → (U v).child ≠ some np) :
    Kinship ini m' (Function.update U t γ) := by
  refine ⟨hok, ?_, hfresh, ?_, fun u v np hu hv => ?_⟩
  · refine (Function.forall_update_iff U (p := fun u γ => (kin m').status u = .live →
      (m'.proc u).priv.forkret = false → γ ≠ .away)).2 ⟨fun hl _ he => haway he hl, ?_⟩
    intro u hut hlive hrun
    obtain ⟨hl, hf⟩ := hstarted u hut hlive hrun
    exact h.started u hl hf
  · exact (Function.forall_update_iff U (p := fun u γ => γ.Knows (kin m') m'.lock u)).2
      ⟨hself, hother⟩
  · by_contra hne
    by_cases hut : u = t
    · subst hut
      rw [Function.update_self] at hu
      rw [Function.update_of_ne (Ne.symm hne)] at hv
      exact howner np hu v (Ne.symm hne) hv
    · rw [Function.update_of_ne hut] at hu
      by_cases hvt : v = t
      · subst hvt
        rw [Function.update_self] at hv
        exact howner np hv u hut hu
      · rw [Function.update_of_ne hvt] at hv
        exact hne (h.owner u v np hu hv)

lemma Kinship.keep (h : Kinship ini m U) (hkin : kin m' = kin m)
    (hfork : ∀ u, u ≠ t → (m'.proc u).priv.forkret = (m.proc u).priv.forkret)
    (hlock : ∀ u, u ≠ t → m.lock = some u → m'.lock = some u)
    (hself : γ.Knows (kin m) m'.lock t) (hne : γ ≠ .away)
    (hchild : ∀ np, γ.child = some np → (U t).child = some np) :
    Kinship ini m' (Function.update U t γ) := by
  refine h.step (by rw [hkin]; exact h.ok) (fun u hut hlive hrun => ?_) (fun he => absurd he hne)
    (fun q hq => ?_) (by rw [hkin]; exact hself) (fun u hut => ?_) (fun np hnp v hvt hv => ?_)
  · rw [hkin] at hlive
    rw [hfork u hut] at hrun
    exact ⟨hlive, hrun⟩
  · rw [hkin] at hq
    rw [hfork q]
    · exact h.fresh q hq
    · rintro rfl
      rw [hself.live hne] at hq
      cases hq
  · refine (h.knows u).frame (by rw [hkin]; exact id) (fun np _ => by rw [hkin]; exact ⟨rfl, rfl⟩)
      fun hl => ⟨hlock u hut hl, by rw [hkin], fun q hq => ?_⟩
    rw [hkin] at hq ⊢
    exact ⟨hq, id⟩
  · exact hvt (h.owner v t np hv (hchild np hnp))

/-- A step that changes parent and status of one entry only, which is not being made by another
process, and is not a living process other than `t` unless it lives on.  A process that has the lock
knows the parents. -/
lemma Kinship.at (h : Kinship ini m U) (p : Fin N) {k : Kin N} (hkin : kin m' = k) (hok : k.Ok ini)
    (hlock : m'.lock = m.lock) (hproc : ∀ q, q ≠ p → m'.proc q = m.proc q)
    (hparent : ∀ q, q ≠ p → m'.data.parent q = m.data.parent q)
    (hfork : k.status p = .embryo ∨ k.status p = .live →
      (m'.proc p).priv.forkret = (m.proc p).priv.forkret ∧ k.status p = (kin m).status p ∨
        (m'.proc p).priv.forkret = true)
    (hlive : p ≠ t → (kin m).status p = .live → k.status p = .live)
    (haway : γ = .away → k.status t ≠ .live) (hself : γ.Knows k m.lock t)
    (hchild : ∀ u, u ≠ t → (U u).child ≠ some p)
    (hhold : m.lock = some t ∨ k.parent p = (kin m).parent p ∧
      (k.status p = .zombie → (kin m).status p = .zombie))
    (howner : ∀ np, γ.child = some np → np = p ∨ (U t).child = some np) :
    Kinship ini m' (Function.update U t γ) := by
  subst hkin
  have hs : ∀ q, q ≠ p → (kin m').status q = (kin m).status q := fun q hq => by
    simp only [kin, hproc q hq]
  refine h.step hok (fun u _ hu hrun => ?_) haway (fun q hq => ?_) (hlock ▸ hself)
    (fun u hut => ?_) (fun np hnp v hvt hv => ?_)
  · by_cases hup : u = p
    · subst hup
      rcases hfork (Or.inr hu) with ⟨hf, hs⟩ | hf
      · exact ⟨hs ▸ hu, hf ▸ hrun⟩
      · rw [hf] at hrun
        cases hrun
    · exact ⟨hs u hup ▸ hu, hproc u hup ▸ hrun⟩
  · by_cases hqp : q = p
    · subst hqp
      rcases hfork (Or.inl hq) with ⟨hf, hs⟩ | hf
      · rw [hf]
        exact h.fresh q (hs ▸ hq)
      · exact hf
    · rw [hproc q hqp]
      exact h.fresh q (hs q hqp ▸ hq)
  · rw [hlock]
    refine (h.knows u).frame (fun hu => ?_) (fun np hnp => ?_) fun hl => ?_
    · by_cases hup : u = p
      · subst hup
        exact hlive hut hu
      · rwa [hs u hup]
    · have hne : np ≠ p := by
        rintro rfl
        exact hchild u hut hnp
      exact ⟨hs np hne, hparent np hne⟩
    · obtain ⟨hpar, hz⟩ := hhold.resolve_left
        fun hlt => hut (Option.some.inj (hl.symm.trans hlt))
      have hall : ∀ q, (kin m').parent q = (kin m).parent q := by
        intro q
        by_cases hqp : q = p
        · rwa [hqp]
        · exact hparent q hqp
      refine ⟨hl, hall u, fun q hq => ⟨hall q ▸ hq, ?_⟩⟩
      by_cases hqp : q = p
      · rwa [hqp]
      · rw [hs q hqp]
        exact id
  · rcases howner np hnp with rfl | hnp
    · exact hchild v hvt hv
    · exact hvt (h.owner v t np hv hnp)

lemma Kinship.child_ne (h : Kinship ini m U) (hp : (kin m).status p ≠ .embryo) (u : Fin N) :
    (U u).child ≠ some p :=
  fun hu => hp ((h.knows u).embryo hu)

lemma History.step (h : History clean m U) (hrec : ∀ p, Recorded clean m'.data.log p (m'.proc p))
    (hcalls : ∀ u, u ≠ t → calling u m'.data.log = calling u m.data.log)
    (hself : ∀ pid, γ = .killing pid → calling t m'.data.log = some pid ∧ (clean → pid ≠ 0))
    (hstarts : clean → ∀ p pid k, .created p pid k ∈ m'.data.log →
      .created p pid k ∈ m.data.log ∨ k = false)
    (hreturns : clean → ∀ u pid f, .killReturn u pid 0 f ∈ m'.data.log →
      .killReturn u pid 0 f ∈ m.data.log ∨ f = true) :
    History clean m' (Function.update U t γ) := by
  refine ⟨hrec, ?_, fun hc p pid k hmem => ?_, fun hc u pid f hmem => ?_, fun hc => ?_⟩
  · refine (Function.forall_update_iff U (p := fun u γ => ∀ pid, γ = .killing pid →
      calling u m'.data.log = some pid)).2 ⟨fun pid he => (hself pid he).1, ?_⟩
    intro u hut pid hu
    rw [hcalls u hut]
    exact h.calls u pid hu
  · exact (hstarts hc p pid k hmem).elim (h.starts hc p pid k) id
  · exact (hreturns hc u pid f hmem).elim (h.returns hc u pid f) id
  · exact (Function.forall_update_iff U (p := fun _ γ => ∀ pid, γ = .killing pid → pid ≠ 0)).2
      ⟨fun pid he => (hself pid he).2 hc, fun u _ => h.asked hc u⟩

lemma History.keep (h : History clean m U) (hlog : m'.data.log = m.data.log)
    (hrec : ∀ p, Recorded clean m.data.log p (m.proc p) → Recorded clean m.data.log p (m'.proc p))
    (hself : ∀ pid, γ = .killing pid → U t = .killing pid) :
    History clean m' (Function.update U t γ) := by
  refine h.step (fun p => ?_) (fun u _ => by rw [hlog]) (fun pid hγ => ?_)
    (fun _ p pid k hmem => Or.inl (by rwa [hlog] at hmem))
    fun _ u pid f hmem => Or.inl (by rwa [hlog] at hmem)
  · rw [hlog]
    exact hrec p (h.recorded p)
  · rw [hlog]
    exact ⟨h.calls t pid (hself pid hγ), fun hc => h.asked hc t pid (hself pid hγ)⟩

lemma History.note (h : History clean m U) {e : Event N} (hlog : m'.data.log = e :: m.data.log)
    (hrec : ∀ p, Recorded clean (e :: m.data.log) p (m'.proc p))
    (hcalls : ∀ u, u ≠ t → calling u (e :: m.data.log) = calling u m.data.log)
    (hself : ∀ pid, γ = .killing pid →
      calling t (e :: m.data.log) = some pid ∧ (clean → pid ≠ 0))
    (hstart : clean → ∀ p pid k, e = .created p pid k → k = false)
    (hreturn : clean → ∀ u pid f, e = .killReturn u pid 0 f → f = true) :
    History clean m' (Function.update U t γ) := by
  refine h.step (by rw [hlog]; exact hrec) (by rw [hlog]; exact hcalls) (by rw [hlog]; exact hself)
    (fun hc p pid k hmem => ?_) fun hc u pid f hmem => ?_
  · rw [hlog] at hmem
    rcases List.mem_cons.1 hmem with heq | hmem
    · exact Or.inr (hstart hc p pid k heq.symm)
    · exact Or.inl hmem
  · rw [hlog] at hmem
    rcases List.mem_cons.1 hmem with heq | hmem
    · exact Or.inr (hreturn hc u pid f heq.symm)
    · exact Or.inl hmem

lemma recorded_setProc (h : History clean m U) {e : Event N} {x : Proc N (Fin N) Priv}
    (he : ∀ q, e.slot = some q → q = p) (hx : Recorded clean (e :: m.data.log) p x) (q : Fin N) :
    Recorded clean (e :: m.data.log) q (setAt m.proc p x q) :=
  setAt_cases q hx fun q hq => (h.recorded q).note fun hs => hq (he q hs)

/-- The invariant of the process table. -/
structure User (ini : Fin N) (clean : Prop) (m : St N) (U : Fin N → Task N) : Prop where
  kinship : Kinship ini m U
  history : History clean m U

lemma User.knows (h : User ini clean m U) (ht : U t = γ) : γ.Knows (kin m) m.lock t :=
  ht ▸ h.kinship.knows t

lemma User.live (h : User ini clean m U) (ht : U t ≠ .away) : (kin m).status t = .live :=
  (h.kinship.knows t).live ht

/-- The process table as a client of the rules. -/
def client (ini : Fin N) (clean : Prop) : Client N (Fin N) Priv (Table N) (Task N) where
  ready c m := ∃ p, (kin m).parent p = some c ∧ (kin m).status p = .zombie
  user := User ini clean
  ready_congr c hq h := by rwa [kin_quiet hq] at h
  user_congr hlock hq h := by
    refine ⟨⟨?_, ?_, ?_, ?_, h.kinship.owner⟩, ?_, ?_, ?_, ?_, h.history.asked⟩ <;>
      simp only [kin_quiet hq, hq.priv, hq.data, hlock]
    · exact h.kinship.ok
    · exact h.kinship.started
    · exact h.kinship.fresh
    · exact h.kinship.knows
    · exact fun p => (h.history.recorded p).congr (status_eq_of_active (hq.state p))
        (by rw [hq.priv]) (by rw [hq.priv]) (by rw [hq.priv]; exact id)
    · exact h.history.calls
    · exact h.history.starts
    · exact h.history.returns

/-- The proof obligations.  They include that the locks are used properly; the kernel may stop
because init exits. -/
def obligations (ini : Fin N) (clean : Prop) :
    Rules Panic (St N) (Fin N) (Ghost (Fin N) (Task N)) :=
  rules (client ini clean) (fun _ _ => True) fun _ msg => msg ≠ .initExiting ∧ msg ≠ .schedRunning

variable {L : Fin N → Ghost (Fin N) (Task N)} {w : Fin N → Wake} {l : Ghost (Fin N) (Task N)}

lemma User.setLock (h : User ini clean m U) {lk : Option (Fin N)}
    (hother : ∀ u, u ≠ t → m.lock = some u → lk = some u) (hself : γ.Knows (kin m) lk t)
    (hne : γ ≠ .away) (hchild : ∀ np, γ.child = some np → (U t).child = some np)
    (hkill : ∀ pid, γ = .killing pid → U t = .killing pid) :
    User ini clean { m with lock := lk } (Function.update U t γ) :=
  ⟨h.kinship.keep rfl (fun _ _ => rfl) hother hself hne hchild,
    h.history.keep rfl (fun _ hr => hr) hkill⟩

/-! ## Steps of `fork` -/

lemma recorded_setAt {x : Proc N (Fin N) Priv}
    (hx : Recorded clean m.data.log p (m.proc p) → Recorded clean m.data.log p x) (q : Fin N) :
    Recorded clean m.data.log q (m.proc q) → Recorded clean m.data.log q (setAt m.proc p x q) :=
  setAt_cases q hx fun _ _ h => h

lemma User.alloc (h : User ini clean m U) (ht : U t = .idle) (hp : (m.proc p).state = .unused) :
    User ini clean (allocAt true p m).2 (Function.update U t (.forking p)) := by
  have hfree : (kin m).status p = .free := status_eq_free.2 hp
  have hlive : (kin m).status t = .live := h.live (by rw [ht]; rintro ⟨⟩)
  have hpt : t ≠ p := by
    rintro rfl
    rw [hfree] at hlive
    cases hlive
  have hrec := h.history.recorded p
  rw [allocAt, if_pos hp]
  constructor
  · refine h.kinship.at p (kin_setProc _ _ _) ?_ rfl (fun q hq => setAt_of_ne _ _ hq)
      (fun _ _ => rfl) (fun _ => Or.inr (by simp [St.note, Mem.setProc])) (fun _ hl => ?_)
      (by rintro ⟨⟩)
      ⟨?_, setAt_self _ _ _, h.kinship.ok.free p hfree⟩
      (fun u _ => h.kinship.child_ne (by rw [hfree]; rintro ⟨⟩) u) (Or.inr ⟨rfl, ?_⟩) ?_
    · refine h.kinship.ok.setStatus ?_ (Or.inr ?_) ?_ (by rintro ⟨⟩)
      · rintro rfl
        rw [h.kinship.ok.root] at hfree
        cases hfree
      · exact h.kinship.ok.parent_ne (by rw [hfree]; rintro ⟨⟩)
      · rintro (he | he) <;> cases he
    · rw [hfree] at hl
      cases hl
    · simpa [Kin.setStatus, setAt_of_ne _ _ hpt, kin] using hlive
    · simp [Kin.setStatus, status]
    · rintro _ ⟨⟩
      exact Or.inl rfl
  · refine h.history.note rfl (recorded_setProc h.history ?_
      ⟨⟨.alive m.data.nextpid, ?_, Or.inl rfl, rfl⟩, fun hc hk => ?_⟩) (fun _ _ => rfl)
      (by rintro _ ⟨⟩) ?_ (by rintro _ _ _ _ ⟨⟩)
    · rintro q ⟨⟩
      rfl
    · simp [life, (hrec.of_free hfree).1, Life.next, Event.slot]
    · have := hrec.not_killed hc hp
      rw [this] at hk
      cases hk
    · rintro hc q pid k ⟨⟩
      exact hrec.not_killed hc hp

lemma kin_freeproc (p : Fin N) (m : St N) :
    kin (freeproc p m) = ((kin m).setParent p none).setStatus p .free :=
  kin_setProc (m.setParent p none) p { m.proc p with
    state := .unused
    chan := none
    priv := { (m.proc p).priv with pid := 0, killed := false, xstate := 0 } }

lemma User.allocFail (h : User ini clean m U) (ht : U t = .idle) (hp : (m.proc p).state = .unused) :
    User ini clean (allocAt false p m).2 (Function.update U t .idle) := by
  have hfree : (kin m).status p = .free := status_eq_free.2 hp
  have hlive : (kin m).status t = .live := h.live (by rw [ht]; rintro ⟨⟩)
  have hkin : kin (freeproc p m) = kin m := by
    rw [kin_freeproc, Kin.setStatus, Kin.setParent, ← hfree, ← h.kinship.ok.free p hfree,
      setAt_eq_self, setAt_eq_self]
  rw [allocAt, if_pos hp]
  refine ⟨h.kinship.keep hkin (fun u _ => map_setAt (f := m.proc) (·.priv.forkret) (by rfl) u)
    (fun u _ hl => hl) hlive (by rintro ⟨⟩) (by rintro _ ⟨⟩),
    h.history.keep rfl (recorded_setAt fun hr => ?_) (by rintro _ ⟨⟩)⟩
  exact ⟨⟨.free, (hr.of_free hfree).1, rfl, rfl⟩, by rintro _ ⟨⟩⟩

lemma User.adopt {np : Fin N} (h : User ini clean m U) (ht : U t = .forking np)
    (hlock : m.lock = some t) :
    User ini clean (m.setParent np (some t)) (Function.update U t (.adopted np)) := by
  obtain ⟨hlive, hembryo, -⟩ := h.knows ht
  refine ⟨h.kinship.at np (k := (kin m).setParent np (some t)) rfl
    (h.kinship.ok.adopt (by rw [hembryo]; rintro ⟨⟩) hlive) rfl (fun _ _ => rfl)
    (fun q hq => setAt_of_ne _ _ hq) (fun _ => Or.inl ⟨rfl, rfl⟩) (fun _ hl => hl) (by rintro ⟨⟩)
    ⟨hlive, hembryo, setAt_self _ _ _⟩ (fun u hut hu => ?_) (Or.inl hlock) ?_,
    h.history.keep rfl (fun _ hr => hr) (by rintro _ ⟨⟩)⟩
  · exact hut (h.kinship.owner u t np hu (by rw [ht]; rfl))
  · rintro _ ⟨⟩
    exact Or.inl rfl

lemma User.birth {np : Fin N} (h : User ini clean m U) (ht : U t = .adopted np) :
    User ini clean (m.setProc np { m.proc np with state := .runnable, lock := none })
      (Function.update U t .idle) := by
  obtain ⟨hlive, hembryo, hparent⟩ := h.knows ht
  refine ⟨h.kinship.at np (kin_setProc _ _ _) ?_ rfl (fun q hq => setAt_of_ne _ _ hq)
    (fun _ _ => rfl) (fun _ => Or.inr ?_) (fun _ _ => setAt_self _ _ _) (by rintro ⟨⟩) ?_
    (fun u hut hu => ?_) (Or.inr ⟨rfl, fun he => ?_⟩) (by rintro _ ⟨⟩),
    h.history.keep rfl (recorded_setAt fun hr => ?_) (by rintro _ ⟨⟩)⟩
  · refine h.kinship.ok.setStatus (fun _ => rfl) (Or.inl rfl) (fun _ _ he => ?_) (by rintro ⟨⟩)
    rw [hparent] at he
    cases he
  · simpa [Mem.setProc] using h.kinship.fresh np hembryo
  · exact setAt_cases (motive := fun u s => u = t → s = Status.live) t (fun _ => rfl)
      (fun u _ hu => hu ▸ hlive) rfl
  · exact hut (h.kinship.owner u t np hu (by rw [ht]; rfl))
  · simp [Kin.setStatus, status] at he
  · exact ⟨⟨_, hr.of_alive (Or.inl hembryo), Or.inr rfl, rfl⟩, fun hc hk =>
      ⟨by rintro ⟨⟩, (hr.killed hc hk).2⟩⟩

/-! ## Steps of `exit` -/

lemma Task.Knows.parent {k : Kin N} {lock : Option (Fin N)} {u : Fin N} (h : γ.Knows k lock u)
    (hp : γ.child = some p) {q : Fin N} (hq : k.parent p = some q) : q = u := by
  cases γ <;> cases hp
  · rw [h.2.2] at hq
    cases hq
  · rw [h.2.2] at hq
    exact (Option.some.inj hq).symm

section

variable (h : User ini clean m U)

include h

lemma User.reparentAt (hne : ini ≠ t) (hlock : m.lock = some t) (ht : U t = .leaving p) :
    User ini clean (reparentAt t ini p m).2 (Function.update U t (.leaving (p + 1))) := by
  obtain ⟨hlive, -, hdone⟩ := h.knows ht
  have hbefore : ∀ q : Fin N, q ≠ p → q.val < p.val + 1 → (kin m).parent q ≠ some t :=
    fun q hqp hq => hdone q (by have := Fin.val_ne_of_ne hqp; omega)
  unfold Procs.reparentAt
  split
  · rename_i hp
    have hpar : (kin m).parent p = some t := hp
    refine ⟨h.kinship.at p (k := (kin m).setParent p (some ini)) rfl ?_ rfl (fun _ _ => rfl)
      (fun q hq => setAt_of_ne _ _ hq) (fun _ => Or.inl ⟨rfl, rfl⟩) (fun _ hl => hl) (by rintro ⟨⟩)
      ⟨hlive, hlock, fun q =>
        setAt_cases (motive := fun (q : Fin N) o => q.val < p.val + 1 → o ≠ some t) q
          (fun _ he => hne (Option.some.inj he)) hbefore⟩
      (fun u hut hu => hut ((h.kinship.knows u).parent hu hpar).symm) (Or.inl hlock)
        (by rintro _ ⟨⟩),
      h.history.keep rfl (fun _ hr => hr) (by rintro _ ⟨⟩)⟩
    refine h.kinship.ok.adopt (fun hf => ?_) h.kinship.ok.root
    rw [h.kinship.ok.free p hf] at hpar
    cases hpar
  · rename_i hp
    refine h.setLock (fun _ _ hl => hl) ⟨hlive, hlock, fun q hq => ?_⟩ (by rintro ⟨⟩)
      (by rintro _ ⟨⟩) (by rintro _ ⟨⟩)
    by_cases hqp : q = p
    · rwa [hqp]
    · exact hbefore q hqp hq

lemma User.part (hne : t ≠ ini) (ht : U t = .leaving N) :
    ∃ q, m.data.parent t = some q ∧ User ini clean m (Function.update U t (.parting q)) := by
  obtain ⟨hlive, hlock, hdone⟩ := h.knows ht
  obtain ⟨q, hq⟩ := Option.ne_none_iff_exists'.1 (h.kinship.ok.orphan t hne (Or.inl hlive))
  exact ⟨q, hq, h.setLock (fun _ _ hl => hl) ⟨hlive, hlock, fun r => hdone r r.isLt, hq⟩
    (by rintro ⟨⟩) (by rintro _ ⟨⟩) (by rintro _ ⟨⟩)⟩

lemma User.zombie {q : Fin N} (hne : t ≠ ini) (ht : U t = .parting q) (status : Int32) :
    User ini clean (becomeZombie t status m) (Function.update U t .away) := by
  obtain ⟨hlive, hlock, hnone, hparent⟩ := h.knows ht
  have hzombie : ∀ s, ((kin m).setStatus t s).status t = s := fun s => setAt_self _ _ _
  constructor
  · refine h.kinship.at t (kin_setProc _ _ _) ?_ rfl (fun r hr => setAt_of_ne _ _ hr)
      (fun _ _ => rfl) (fun he => ?_) (fun he => absurd rfl he) (fun _ => ?_) trivial
      (fun u _ => h.kinship.child_ne (by rw [hlive]; rintro ⟨⟩) u) (Or.inl hlock) (by rintro _ ⟨⟩)
    · refine h.kinship.ok.setStatus (fun he => absurd he hne) (Or.inr hnone) (fun _ _ he => ?_)
        (by rintro ⟨⟩)
      rw [hparent] at he
      cases he
    · rw [hzombie] at he
      rcases he with he | he <;> cases he
    · rw [hzombie]
      rintro ⟨⟩
  · have hrec := h.history.recorded t
    refine h.history.note rfl (recorded_setProc h.history ?_
      ⟨⟨.dead (m.proc t).priv.pid status, ?_, rfl, rfl, rfl⟩, fun hc hk => ⟨by rintro ⟨⟩, ?_⟩⟩)
      (fun _ _ => rfl) (by rintro _ ⟨⟩) (by rintro _ _ _ _ ⟨⟩) (by rintro _ _ _ _ ⟨⟩)
    · rintro q ⟨⟩
      rfl
    · simp [life, hrec.of_alive (Or.inr hlive), Life.next, Event.slot]
    · exact (hrec.killed hc hk).2.imp (·.cons (by rintro _ _ ⟨⟩)) (·.cons (by rintro _ _ ⟨⟩))

/-! ## Steps of `wait` -/

lemma User.scanned (ht : U t = .scanning p)
    (hp : m.data.parent p = some t → (m.proc p).state ≠ .zombie) :
    User ini clean m (Function.update U t (.scanning (p + 1))) := by
  obtain ⟨hlive, hlock, hdone⟩ := h.knows ht
  refine h.setLock (fun _ _ hl => hl) ⟨hlive, hlock, fun q hq hqt => ?_⟩ (by rintro ⟨⟩)
    (by rintro _ ⟨⟩) (by rintro _ ⟨⟩)
  by_cases hqp : q = p
  · subst hqp
    exact fun hz => hp hqt (status_eq_zombie.1 hz)
  · exact hdone q (by have := Fin.val_ne_of_ne hqp; omega) hqt

lemma User.reap (hlock : m.lock = some t) (ht : U t ≠ .away)
    (hp : m.data.parent p = some t) (hz : (m.proc p).state = .zombie) :
    User ini clean (reap t true p m).2 (Function.update U t .idle) := by
  have hzombie : (kin m).status p = .zombie := status_eq_zombie.2 hz
  have hnot : (kin m).status p ≠ .live := by
    rw [hzombie]
    rintro ⟨⟩
  have hlive := h.live ht
  have hpt : t ≠ p := by
    rintro rfl
    exact hnot hlive
  rw [Procs.reap, if_pos hz, hp]
  constructor
  · refine h.kinship.at p (kin_freeproc p m) (h.kinship.ok.release hnot) rfl
      (fun q hq => setAt_of_ne _ _ hq) (fun q hq => setAt_of_ne _ _ hq) (fun he => ?_)
      (fun _ hlv => absurd hlv hnot) (by rintro ⟨⟩) ?_
      (fun u _ => h.kinship.child_ne (by rw [hzombie]; rintro ⟨⟩) u) (Or.inl hlock) (by rintro _ ⟨⟩)
    · simp [Kin.setStatus] at he
    · simpa [Task.Knows, Kin.setStatus, Kin.setParent, setAt_of_ne _ _ hpt] using hlive
  · refine h.history.note rfl (recorded_setProc h.history ?_
      ⟨⟨.free, ?_, rfl, rfl⟩, by rintro _ ⟨⟩⟩)
      (fun _ _ => rfl) (by rintro _ ⟨⟩) (by rintro _ _ _ _ ⟨⟩) (by rintro _ _ _ _ ⟨⟩)
    · rintro q ⟨⟩
      rfl
    · simp [life, (h.history.recorded p).of_zombie hzombie, Life.next, Event.slot]

/-! ## Steps of `kill`, of traps and of the scheduler -/

lemma User.setProc {x : Proc N (Fin N) Priv}
    (hs : status x.state = status (m.proc p).state) (hpid : x.priv.pid = (m.proc p).priv.pid)
    (hx : x.priv.xstate = (m.proc p).priv.xstate)
    (hk : x.priv.killed = true → (m.proc p).priv.killed = true)
    (hfork : p ≠ t → x.priv.forkret = (m.proc p).priv.forkret)
    (hlive : (kin m).status t = .live) :
    User ini clean (m.setProc p x) (Function.update U t .idle) :=
  ⟨h.kinship.keep (kin_setProc_of_eq m p hs) (fun u => setAt_cases
      (motive := fun u y => u ≠ t → (y : Proc N (Fin N) Priv).priv.forkret =
      (m.proc u).priv.forkret)
      u hfork fun _ _ _ => rfl) (fun _ _ hl => hl) hlive (by rintro ⟨⟩) (by rintro _ ⟨⟩),
    h.history.keep rfl (recorded_setAt fun hr => hr.congr hs hpid hx hk) (by rintro _ ⟨⟩)⟩

lemma User.noted (ht : U t ≠ .away) {e : Event N} (hslot : e.slot = none)
    (hγ : γ = .idle ∨ ∃ pid, γ = .killing pid)
    (hcalls : ∀ u, u ≠ t → calling u (e :: m.data.log) = calling u m.data.log)
    (hself : ∀ pid, γ = .killing pid → calling t (e :: m.data.log) = some pid ∧ (clean → pid ≠ 0))
    (hreturn : ∀ u pid f, e ≠ .killReturn u pid 0 f) :
    User ini clean (m.note e) (Function.update U t γ) := by
  refine ⟨h.kinship.keep rfl (fun _ _ => rfl) (fun _ _ hl => hl) ?_ ?_ ?_, h.history.note rfl
    (fun p => (h.history.recorded p).note (by rw [hslot]; rintro ⟨⟩)) hcalls hself ?_
    fun _ u pid f he => absurd he (hreturn u pid f)⟩
  · rcases hγ with rfl | ⟨pid, rfl⟩ <;> exact h.live ht
  · rcases hγ with rfl | ⟨pid, rfl⟩ <;> rintro ⟨⟩
  · rcases hγ with rfl | ⟨pid, rfl⟩ <;> rintro _ ⟨⟩
  · rintro _ p pid k rfl
    cases hslot

end

lemma Recorded.kill {log : List (Event N)} {x : Proc N (Fin N) Priv} {s : ProcState}
    {e : Event N} (h : Recorded clean log p x) (he : e.slot = none)
    (hs : status s = status x.state)
    (hd : clean → x.state ≠ .unused ∧
      (Deserved (e :: log) p x.priv.pid ∨ Awaited (e :: log) p x.priv.pid)) :
    Recorded clean (e :: log) p { x with state := s, priv := { x.priv with killed := true } } := by
  obtain ⟨l, hl, hm⟩ := h.life
  refine ⟨⟨l, ?_, hm.congr hs rfl rfl⟩, fun hc _ => ⟨fun hu => (hd hc).1 ?_, (hd hc).2⟩⟩
  · rw [life_note (by rw [he]; rintro ⟨⟩)]
    exact hl
  · rw [← status_eq_free, ← hs, status_eq_free]
    exact hu

lemma status_wake (s : ProcState) :
    status (if s = .sleeping then .runnable else s) = status s := by
  split
  · rename_i hs
    rw [hs]
    rfl
  · rfl

lemma User.setKilled (h : User ini clean m U) {e : Event N} {s : ProcState}
    (hlive : (kin m).status t = .live) (hslot : e.slot = none)
    (hs : status s = status (m.proc p).state)
    (hcalls : ∀ u, u ≠ t → calling u (e :: m.data.log) = calling u m.data.log)
    (hd : clean → (m.proc p).state ≠ .unused ∧ ∀ recent older,
      Born p (m.proc p).priv.pid recent older m.data.log →
        ((∃ t, .killCall t (m.proc p).priv.pid ∈ e :: recent) ∨ .trapped p ∈ e :: recent) ∨
          ∃ t, calling t older = some (m.proc p).priv.pid)
    (hreturn : clean → ∀ u pid f, e = .killReturn u pid 0 f → f = true) :
    User ini clean (St.note e (m.setProc p { m.proc p with
      state := s
      priv := { (m.proc p).priv with killed := true } })) (Function.update U t .idle) := by
  have hrec := h.history.recorded p
  have hnot : ∀ q pid k, e ≠ .created q pid k := by
    rintro q pid k rfl
    cases hslot
  refine ⟨h.kinship.keep (kin_setProc_of_eq m p hs) (fun u _ => map_setAt (f := m.proc)
    (·.priv.forkret) (by rfl) u) (fun _ _ hl => hl) hlive (by rintro ⟨⟩) (by rintro _ ⟨⟩),
    h.history.note rfl (recorded_setProc h.history (by rw [hslot]; rintro _ ⟨⟩) ?_) hcalls
      (by rintro _ ⟨⟩)
    (fun _ p pid k he => absurd he (hnot p pid k)) hreturn⟩
  refine hrec.kill hslot hs fun hc => ⟨(hd hc).1, ?_⟩
  obtain ⟨recent, older, hborn⟩ := hrec.born (hd hc).1
  exact ((hd hc).2 recent older hborn).imp (fun h => ⟨_, older, hborn.cons (hnot p), h⟩)
    fun h => ⟨_, older, hborn.cons (hnot p), h⟩

lemma User.killAt {pid : Int32} (h : User ini clean m U) (ht : U t = .killing pid)
    (hp : (m.proc p).priv.pid = pid) :
    User ini clean (killAt t pid p m).2 (Function.update U t .idle) := by
  -- only an entry that is not in use has the pid 0
  have hused : clean → (m.proc p).state ≠ .unused := by
    intro hc hu
    have := ((h.history.recorded p).of_free (status_eq_free.2 hu)).2
    exact h.history.asked hc t pid ht (hp ▸ this)
  rw [Procs.killAt, if_pos hp]
  refine h.setKilled (h.live (by rw [ht]; rintro ⟨⟩)) rfl (status_wake _)
    (fun u hut => if_neg (Ne.symm hut)) (fun hc => ⟨hused hc, fun recent older hborn => ?_⟩)
    fun hc u pid f heq => ?_
  · have hcall := h.history.calls t pid ht
    obtain ⟨⟨k, hlog⟩, -⟩ := hborn
    rw [hlog] at hcall
    rw [hp]
    exact (calling_split hcall).imp (fun h => Or.inl ⟨t, List.mem_cons_of_mem _ h⟩)
      fun h => ⟨t, h⟩
  · simp only [Event.killReturn.injEq, true_and] at heq
    rw [← heq.2.2]
    exact decide_eq_true ⟨p, hused hc, hp⟩

lemma User.trapped (h : User ini clean m U) (ht : U t ≠ .away) :
    User ini clean (St.note (.trapped t) (m.setProc t { m.proc t with
      priv := { (m.proc t).priv with killed := true } })) (Function.update U t .idle) := by
  have hlive := h.live ht
  refine h.setKilled (p := t) (e := .trapped t) (s := (m.proc t).state) hlive rfl rfl
    (fun u _ => rfl)
    (fun _ => ⟨fun hu => ?_, fun _ _ _ => Or.inl (Or.inr List.mem_cons_self)⟩)
    (by rintro _ _ _ _ ⟨⟩)
  rw [← status_eq_free] at hu
  rw [show (kin m).status t = .free from hu] at hlive
  cases hlive

/-! ## Taking and giving up the locks -/

lemma Knows.lock {k : Kin N} (h : γ.Knows k none t) (lk : Option (Fin N)) : γ.Knows k lk t :=
  h.frame id (fun _ _ => ⟨rfl, rfl⟩) (by rintro ⟨⟩)

lemma safe_lock (hne : γ ≠ .away) :
    (obligations ini clean).Safe t (.update (Mem.acquire t)) ⟨.out, w, γ⟩
      fun _ l => l = ⟨.locked, fun _ => .idle, γ⟩ := by
  refine (safe_acquire (Q := fun γ' => γ' = γ) fun m U hu ht hfree => ⟨γ, ?_, rfl⟩).mono ?_
  · refine User.setLock hu (fun u _ hl => ?_) ?_ hne (fun np hnp => by rwa [ht])
      fun pid hp => by rwa [ht]
    · rw [hfree] at hl
      cases hl
    · have := hu.knows ht
      rw [hfree] at this
      exact Knows.lock this _
  · rintro - l ⟨γ', rfl, rfl⟩
    rfl

lemma User.scan (hγ : γ = .leaving 0 ∨ γ = .scanning 0) (m : St N) (U : Fin N → Task N)
    (hu : User ini clean m U) (ht : U t = .idle) (hfree : m.lock = none) :
    ∃ γ', User ini clean { m with lock := some t } (Function.update U t γ') ∧ γ' = γ := by
  have hlive := hu.live (t := t) (by rw [ht]; rintro ⟨⟩)
  have hother : ∀ u, u ≠ t → m.lock = some u → some t = some u := by
    rw [hfree]
    rintro _ _ ⟨⟩
  refine ⟨γ, ?_, rfl⟩
  rcases hγ with rfl | rfl <;>
    exact User.setLock hu hother ⟨hlive, rfl, fun q hq => absurd hq (Nat.not_lt_zero _)⟩
      (by rintro ⟨⟩) (by rintro _ ⟨⟩) (by rintro _ ⟨⟩)

lemma safe_unlock (γ' : Task N) (hw : ∀ c, w c ≠ .owes) (hne : γ' ≠ .away)
    (hknows : ∀ m U, User ini clean m U → U t = γ → γ'.Knows (kin m) none t)
    (hchild : ∀ np, γ'.child = some np → γ.child = some np)
    (hkill : ∀ pid, γ' = .killing pid → γ = .killing pid) :
    (obligations ini clean).Safe t (.update (Mem.release t)) ⟨.locked, w, γ⟩
      fun _ l => l = ⟨.out, w, γ'⟩ := by
  refine (safe_release (Q := fun γ => γ = γ') fun m U hu ht hlock _ => ⟨hw, γ', ?_, rfl⟩).mono ?_
  · exact User.setLock hu (fun u hut hl => absurd (Option.some.inj (hl.symm.trans hlock)) hut)
      (hknows m U hu ht) hne (fun np hnp => by rw [ht]; exact hchild np hnp)
      fun pid hp => by rw [ht]; exact hkill pid hp
  · rintro - l ⟨γ, rfl, rfl⟩
    rfl

lemma underLock_cases {α : Type} (h : Inv (client ini clean) m L)
    (hproc : p = t → (L t).phase.holdsProc = false) (f : St N → α × St N) :
    underLock t p f m = .blocked ∨ underLock t p f m = .ok (f m) := by
  unfold underLock
  cases hlock : (m.proc p).lock with
  | none => exact Or.inr rfl
  | some u => exact Or.inl (if_neg fun hu : u = t => h.procLock_ne hproc (hu ▸ hlock))

lemma safe_under {α : Type} {f : St N → α × St N} {Q : α → Ghost (Fin N) (Task N) → Prop}
    (hproc : p = t → l.phase.holdsProc = false)
    (h : ∀ m L, Inv (client ini clean) m L → L t = l →
      ∃ l', Inv (client ini clean) (f m).2 (Function.update L t l') ∧ Q (f m).1 l') :
    (obligations ini clean).ActSafe t (underLock t p f) l Q := by
  intro m L hinv hl
  rcases underLock_cases hinv (fun he => by rw [hl]; exact hproc he) f with hb | hok
  · rw [hb]
    exact trivial
  · rw [hok]
    exact fun _ => h m L hinv hl

lemma inv_retask (h : Inv (client ini clean) m L) (hl : L t = ⟨.locked, w, γ⟩) {γ' : Task N}
    (hu : User ini clean m (Function.update (fun u => (L u).user) t γ')) :
    Inv (client ini clean) m (Function.update L t ⟨.locked, w, γ'⟩) :=
  h.section_ hl (Or.inl rfl) rfl (fun _ => rfl) (fun _ hs => ⟨hs, rfl⟩)
    (fun _ => Or.inr ⟨rfl, Or.inr id⟩) hu

lemma user_eq {ph : Phase (Fin N)} (hl : L t = ⟨ph, w, γ⟩) : (fun u => (L u).user) t = γ := by
  simp only [hl]

lemma ready_kin {c : Fin N} (hkin : kin m' = kin m) (h : (client ini clean).ready c m') :
    (client ini clean).ready c m := by
  obtain ⟨q, hq, hz⟩ := h
  rw [hkin] at hq hz
  exact ⟨q, hq, hz⟩

lemma ready_off {c : Fin N} (hoff : ∀ q, q ≠ p → (kin m').status q = (kin m).status q ∧
      (kin m').parent q = (kin m).parent q) (hp : (kin m').status p ≠ .zombie)
    (h : (client ini clean).ready c m') : (client ini clean).ready c m := by
  obtain ⟨q, hq, hz⟩ := h
  have hqp : q ≠ p := by
    rintro rfl
    exact hp hz
  obtain ⟨hs, hpar⟩ := hoff q hqp
  exact ⟨q, hpar ▸ hq, hs ▸ hz⟩

lemma ready_setProc {c : Fin N} {x : Proc N (Fin N) Priv} (hx : status x.state ≠ .zombie)
    (hproc : m'.proc = setAt m.proc p x) (hparent : ∀ q, q ≠ p → m'.data.parent q = m.data.parent q)
    (h : (client ini clean).ready c m') : (client ini clean).ready c m := by
  refine ready_off (p := p) (fun q hq => ⟨?_, hparent q hq⟩) ?_ h
  · simp only [kin, hproc, setAt_of_ne _ _ hq]
  · simpa only [kin, hproc, setAt_self] using hx

/-! ## `fork` -/

lemma allocAt_safe (ok : Bool) (p : Fin N) :
    (obligations ini clean).ActSafe t (underLock t p (allocAt ok p)) ⟨.out, w, .idle⟩ fun r l =>
      match r with
      | .found _ => l = ⟨.out, w, .forking p⟩
      | _ => l = ⟨.out, w, .idle⟩ := by
  refine safe_under (fun _ => rfl) fun m L h hl => ?_
  by_cases hp : (m.proc p).state = .unused
  · cases ok with
    | true =>
      have huser := h.user.alloc (user_eq hl) hp
      rw [allocAt, if_pos hp] at huser ⊢
      refine ⟨⟨.out, w, .forking p⟩, h.entry hl rfl rfl rfl (by rintro ⟨⟩) (fun c => ?_)
        huser, rfl⟩
      exact ready_setProc (by rintro ⟨⟩) rfl fun _ _ => rfl
    | false =>
      have huser := h.user.allocFail (user_eq hl) hp
      rw [allocAt, if_pos hp] at huser ⊢
      refine ⟨⟨.out, w, .idle⟩, h.entry hl rfl rfl rfl (by rintro ⟨⟩) (fun c => ?_)
        huser, rfl⟩
      exact ready_setProc (by rintro ⟨⟩) rfl fun q hq => setAt_of_ne _ _ hq
  · rw [allocAt, if_neg hp]
    exact ⟨_, h.self hl, rfl⟩

lemma allocproc_safe (ok : Bool) :
    (obligations ini clean).Safe t (allocproc t ok) ⟨.out, w, .idle⟩ fun r l =>
      l = ⟨.out, w, r.elim .idle fun np => .forking np.1⟩ := by
  refine .iterate (fun _ l => l = ⟨.out, w, .idle⟩) rfl ?_
  rintro i l rfl
  split
  · refine .seq (.atomic (allocAt_safe ok _)) fun r l hr => ?_
    cases r with
    | busy => exact .ret hr
    | failed => exact .ret hr
    | found pid => exact .ret hr
  · exact .ret rfl

lemma fork_safe (ok : Bool) : (obligations ini clean).Safe t (fork t ok) ⟨.out, w, .idle⟩
      fun _ l => ∃ w, l = ⟨.out, w, .idle⟩ := by
  rw [fork]
  refine .seq (allocproc_safe ok) ?_
  rintro (_ | ⟨np, pid⟩) l rfl
  · exact .ret ⟨w, rfl⟩
  simp only [Option.elim]
  refine .seq (safe_lock (by rintro ⟨⟩)) ?_
  rintro - l rfl
  refine .seq (P := fun _ l => l = ⟨.locked, fun _ => .idle, .adopted np⟩)
    (.modify fun m L h hl _ => ?_) ?_
  · have hembryo : (kin m).status np = .embryo :=
      (h.user.kinship.knows t).embryo (by rw [hl]; rfl)
    refine ⟨_, h.section_ hl (Or.inl rfl) rfl (fun _ => rfl) (fun _ hs => ⟨hs, rfl⟩)
      (fun c => Or.inr ⟨rfl, Or.inr ?_⟩)
      (h.user.adopt (user_eq hl) ((h.at_of hl).lock.2 rfl)), rfl⟩
    refine ready_off (p := np) (fun q hq => ⟨rfl, setAt_of_ne _ _ hq⟩) ?_
    rw [show (kin (m.setParent np (some t))).status np = .embryo from hembryo]
    rintro ⟨⟩
  rintro - l rfl
  refine .seq (safe_unlock (.adopted np) (by rintro _ ⟨⟩)
    (by rintro ⟨⟩) (fun m U hu ht => hu.knows (γ := .adopted np) ht) (fun _ he => he)
    (by rintro _ ⟨⟩)) ?_
  rintro - l rfl
  refine .seq (P := fun _ l => l = ⟨.out, fun _ => .idle, .idle⟩)
    (.update fun m L h hl => ?_) ?_
  · rcases onProc_cases h (p := np) (fun _ => by rw [hl]; rfl)
      (fun x => { x with state := .runnable }) with hblocked | ⟨hfree, hok⟩
    · rw [hblocked]
      exact trivial
    rw [hok]
    refine fun _ => ⟨_, h.entry hl rfl rfl hfree.symm (by rintro ⟨⟩) (fun c => ?_)
      (h.user.birth (user_eq hl)), rfl⟩
    exact ready_setProc (by rintro ⟨⟩) rfl fun _ _ => rfl
  rintro - l rfl
  exact .ret ⟨_, rfl⟩

/-! ## `exit` -/

/-- `reparent` wakes up init for each child that it gives to init, so it owes no wakeup. -/
lemma reparent_safe (hne : ini ≠ t) :
    (obligations ini clean).Safe t (reparent t ini) ⟨.locked, fun _ => .idle, .leaving 0⟩
      fun _ l => ∃ w, l = ⟨.locked, w, .leaving N⟩ ∧ ∀ c, w c ≠ .owes := by
  rw [reparent]
  refine .forRange (fun j l => ∃ w, l = ⟨.locked, w, .leaving j⟩ ∧ ∀ c, w c ≠ .owes)
    ⟨_, rfl, by rintro _ ⟨⟩⟩ ?_ fun l hl => hl
  rintro p l ⟨w, rfl, hw⟩
  refine .seq (P := fun child l =>
    l = ⟨.locked, if child then setAt w ini .owes else w, .leaving (p + 1)⟩)
    (.atomic fun m L h hl => ?_) ?_
  · have huser := h.user.reparentAt hne ((h.at_of hl).lock.2 rfl) (user_eq hl)
    unfold reparentAt at huser ⊢
    split at huser
    · rename_i hp
      rw [if_pos hp]
      refine fun _ => ⟨_, h.section_ hl (Or.inl rfl) rfl (fun _ => rfl) (fun _ hs => ⟨hs, rfl⟩)
        (fun c => ?_) huser, rfl⟩
      by_cases hc : c = ini
      · subst hc
        exact Or.inl (setAt_self _ _ _)
      · refine Or.inr ⟨setAt_of_ne _ _ hc, Or.inr fun hready => ?_⟩
        obtain ⟨q, hq, hz⟩ := hready
        have hqp : q ≠ p := by
          rintro rfl
          have : (setAt m.data.parent q (some ini)) q = some c := hq
          rw [setAt_self] at this
          exact hc (Option.some.inj this).symm
        exact ⟨q, (setAt_of_ne _ _ hqp).symm.trans hq, hz⟩
    · rename_i hp
      rw [if_neg hp]
      exact fun _ => ⟨_, inv_retask h hl huser, rfl⟩
  · rintro (_ | _) l rfl
    · exact .ret ⟨w, rfl, hw⟩
    · refine (safe_wakeup (c := ini)).mono ?_
      rintro - l rfl
      refine ⟨_, rfl, fun c => ?_⟩
      by_cases hc : c = ini
      · subst hc
        rw [setAt_self]
        rintro ⟨⟩
      · rw [setAt_of_ne _ _ hc, if_pos rfl, setAt_of_ne _ _ hc]
        exact hw c

/-- `exit`, with `wait_lock`, after the wakeup for the parent: nobody sleeps there, so the process
can become a `ZOMBIE`. -/
lemma leave_safe {q : Fin N} (hne : t ≠ ini) (hw : ∀ c, w c ≠ .owes) (hq : w q = .clear)
    (status : Int32) :
    (obligations ini clean).Safe t (do
      .update (Mem.acquireProc t t)
      .modify (becomeZombie t status)
      .update (Mem.release t)
      .update (sched t)) ⟨.locked, w, .parting q⟩ fun _ l => l = ⟨.out, w, .away⟩ := by
  refine .seq (P := fun _ l => l = ⟨.leavingLocked, w, .parting q⟩)
    (.update fun m L h hl => ?_) ?_
  · have hfree : (m.proc t).lock = none := (h.at_of hl).proc
    rw [Mem.acquireProc, hfree]
    exact fun _ => ⟨_, h.takeSelf hl, rfl⟩
  rintro - l rfl
  refine .seq (P := fun _ l => l = ⟨.leavingLocked, w, .away⟩)
    (.modify fun m L h hl _ => ?_) ?_
  · have hproc : (becomeZombie t status m).proc = setAt m.proc t { m.proc t with
        state := .zombie
        priv := { (m.proc t).priv with xstate := status } } := rfl
    have hparent : m.data.parent t = some q := (h.user.knows (user_eq hl)).2.2.2
    refine ⟨_, h.section_ hl (Or.inr rfl) rfl (fun u => map_setAt (f := m.proc) (·.lock) (by rfl) u)
      (rests_setAt (by rintro ⟨⟩)) (fun c => ?_) (h.user.zombie hne (user_eq hl) status), rfl⟩
    -- the parent is the only one whose channel becomes ready
    by_cases hc : c = q
    · subst hc
      exact Or.inr ⟨rfl, Or.inl hq⟩
    · refine Or.inr ⟨rfl, Or.inr ?_⟩
      rintro ⟨r, hr, hz⟩
      have hrt : r ≠ t := by
        rintro rfl
        rw [show (kin (becomeZombie r status m)).parent r = some q from hparent] at hr
        exact hc (Option.some.inj hr).symm
      refine ⟨r, hr, ?_⟩
      simpa only [kin, hproc, setAt_of_ne _ _ hrt] using hz
  rintro - l rfl
  refine .seq (P := fun _ l => l = ⟨.leaving, w, .away⟩)
    (.update fun m L h hl => ?_) ?_
  · rw [release_eq h (by rw [hl]; rfl)]
    refine fun _ => ⟨_, h.release hl (Or.inr rfl) hw .away ?_, rfl⟩
    have hlock : m.lock = some t := (h.at_of hl).lock.2 rfl
    rw [← user_eq hl, Function.update_eq_self]
    refine ⟨{ h.user.kinship with knows := fun u => ?_ }, { h.user.history with }⟩
    by_cases hu : u = t
    · subst hu
      rw [hl]
      trivial
    · exact (h.user.kinship.knows u).frame id (fun _ _ => ⟨rfl, rfl⟩) fun hlu =>
        absurd (Option.some.inj (hlu.symm.trans hlock)) hu
  rintro - l rfl
  refine .update fun m L h hl => ?_
  have hat := h.at_of hl
  have hheld : (m.proc t).lock = some t := hat.proc
  have hlock : m.lock ≠ some t := fun he => by cases hat.lock.1 he
  rw [sched, if_neg (not_not.2 hheld), if_neg hlock]
  split
  · exact fun hx => hx.2 rfl
  · exact fun _ => ⟨_, h.leave hl, rfl⟩

lemma exit_safe (status : Int32) :
    (obligations ini clean).Safe t (exit t ini status) ⟨.out, w, .idle⟩
      fun _ l => ∃ w, l = ⟨.out, w, .away⟩ := by
  rw [exit]
  by_cases hne : t = ini
  · -- the kernel stops
    refine .seq (P := fun _ _ => False) (.update fun m L h hl => ?_)
      fun _ _ he => he.elim
    rw [if_pos hne]
    exact fun hx => hx.1 rfl
  refine .seq (P := fun _ l => l = ⟨.out, w, .idle⟩)
    (.update fun m L h hl => ?_) ?_
  · rw [if_neg hne]
    exact fun _ => ⟨_, h.self hl, rfl⟩
  rintro - l rfl
  refine .seq (P := fun _ l => l = ⟨.locked, fun _ => .idle, .leaving 0⟩) ?_ ?_
  · refine (safe_acquire (User.scan (Or.inl rfl))).mono ?_
    rintro - l ⟨γ, rfl, rfl⟩
    rfl
  rintro - l rfl
  refine .seq (reparent_safe (Ne.symm hne)) ?_
  rintro - l ⟨w, rfl, hw⟩
  refine .seq (P := fun parent l => ∃ q, parent = some q ∧ l = ⟨.locked, w, .parting q⟩)
    (.atomic fun m L h hl _ => ?_) ?_
  · obtain ⟨q, hq, huser⟩ := h.user.part hne (user_eq hl)
    exact ⟨_, inv_retask h hl huser, q, hq, rfl⟩
  rintro parent l ⟨q, rfl, rfl⟩
  refine .seq (safe_wakeup (c := q)) ?_
  rintro - l rfl
  refine (leave_safe hne (fun c => ?_) (setAt_self _ _ _) status).mono fun _ l hl => ⟨_, hl⟩
  exact setAt_cases c (by rintro ⟨⟩) fun c _ => hw c

/-! ## `wait` -/

lemma killed_safe {ph : Phase (Fin N)} (hph : ph.holdsProc = false) :
    (obligations ini clean).Safe t (killed t) ⟨ph, w, γ⟩ fun _ l => l = ⟨ph, w, γ⟩ :=
  Rules.Safe.atomic (safe_under (fun _ => hph) fun _ _ h hl => ⟨_, h.self hl, rfl⟩)

lemma waitAt_safe (copyout : Bool) (p : Fin N) :
    (obligations ini clean).ActSafe t (waitAt t copyout p)
      ⟨.locked, fun _ => .idle, .scanning p⟩ fun r l =>
        match r with
        | .other | .child => l = ⟨.locked, fun _ => .idle, .scanning (p + 1)⟩
        | .fault | .reaped _ => ∃ γ, l = ⟨.locked, fun _ => .idle, γ⟩ ∧ γ ≠ .away := by
  intro m L h hl
  have hlock : m.lock = some t := (h.at_of hl).lock.2 rfl
  have hscan : (m.data.parent p = some t → (m.proc p).state ≠ .zombie) →
      Inv (client ini clean) m (Function.update L t ⟨.locked, fun _ => .idle, .scanning (p + 1)⟩) :=
    fun hp => inv_retask h hl (h.user.scanned (user_eq hl) hp)
  unfold waitAt
  split
  · rename_i hp
    rcases underLock_cases h (p := p) (fun _ => by rw [hl]; rfl) (reap t copyout p) with hb | hok
    · rw [hb]
      exact trivial
    rw [hok]
    by_cases hz : (m.proc p).state = .zombie
    · cases copyout with
      | true =>
        have huser := h.user.reap hlock (by rw [hl]; rintro ⟨⟩) hp hz
        rw [reap, if_pos hz] at huser ⊢
        refine fun _ => ⟨_, h.section_ hl (Or.inl rfl) rfl
          (fun u => map_setAt (f := m.proc) (·.lock) (by rfl) u) (rests_setAt (by rintro ⟨⟩))
          (fun c => Or.inr ⟨rfl, Or.inr ?_⟩) huser, _, rfl, by rintro ⟨⟩⟩
        exact ready_setProc (p := p) (by rintro ⟨⟩) rfl fun q hq => setAt_of_ne _ _ hq
      | false =>
        rw [reap, if_pos hz]
        exact fun _ => ⟨_, h.self hl, _, rfl, by rintro ⟨⟩⟩
    · rw [reap, if_neg hz]
      exact fun _ => ⟨_, hscan fun _ => hz, rfl⟩
  · rename_i hp
    exact fun _ => ⟨_, hscan fun he => absurd he hp, rfl⟩

lemma scan_safe (copyout : Bool) :
    (obligations ini clean).Safe t (scan t copyout) ⟨.locked, fun _ => .idle, .scanning 0⟩
      fun r l => match r with
        | .inl _ => l = ⟨.locked, fun _ => .idle, .scanning N⟩
        | .inr _ => ∃ γ, l = ⟨.locked, fun _ => .idle, γ⟩ ∧ γ ≠ .away := by
  refine .iterate
    (fun s l => s.1 ≤ N ∧ l = ⟨.locked, fun _ => .idle, .scanning s.1⟩) ⟨Nat.zero_le N, rfl⟩ ?_
  rintro ⟨i, kids⟩ l ⟨hi, rfl⟩
  simp only
  split
  · rename_i hlt
    refine .seq (.atomic (waitAt_safe copyout ⟨i, hlt⟩)) fun r l hr => ?_
    cases r with
    | other => exact .ret ⟨hlt, hr⟩
    | child => exact .ret ⟨hlt, hr⟩
    | fault => exact .ret hr
    | reaped pid => exact .ret hr
  · rename_i hlt
    obtain rfl : i = N := by omega
    exact .ret rfl

lemma safe_return (hne : γ ≠ .away) :
    (obligations ini clean).Safe t (.update (Mem.release t)) ⟨.locked, fun _ => .idle, γ⟩
      fun _ l => ∃ w, l = ⟨.out, w, .idle⟩ := by
  exact (safe_unlock .idle (by rintro _ ⟨⟩) (by rintro ⟨⟩) (fun m U hu ht => hu.live (by rwa [ht]))
    (by rintro _ ⟨⟩)
    (by rintro _ ⟨⟩)).mono fun _ l hl => ⟨_, hl⟩

lemma wait_safe (addr : UInt64) (copyout : Bool) :
    (obligations ini clean).Safe t (wait t addr copyout) ⟨.out, w, .idle⟩
      fun _ l => ∃ w, l = ⟨.out, w, .idle⟩ := by
  rw [wait]
  refine .seq (safe_acquire (User.scan (Or.inr rfl))) ?_
  rintro - l ⟨γ, rfl, rfl⟩
  refine .iterate (fun _ l => l = ⟨.locked, fun _ => .idle, .scanning 0⟩) rfl ?_
  rintro - l rfl
  refine .seq (scan_safe _) fun r l hr => ?_
  match r, hr with
  | .inr pid, ⟨γ, hl, hne⟩ =>
    subst hl
    exact .seq (safe_return hne) fun _ l hl => .ret hl
  | .inl false, hl =>
    subst hl
    exact .seq (safe_return (by rintro ⟨⟩)) fun _ l hl => .ret hl
  | .inl true, hl =>
    subst hl
    refine .seq (killed_safe rfl) ?_
    rintro (_ | _) l rfl
    · refine .seq (safe_sleep (.idle : Task N) (Q := fun γ => γ = .scanning 0)
        (by rintro _ ⟨⟩) (fun m U hu ht _ hready => ?_) (fun m U hu ht hlock => ?_)
        (fun m U hu ht => ?_) (User.scan (Or.inr rfl))) ?_
      · obtain ⟨q, hq, hz⟩ := hready
        exact (hu.knows ht).2.2 q q.isLt hq hz
      · exact User.setLock hu
          (fun u hut hl => absurd (Option.some.inj (hl.symm.trans hlock)) hut)
          (hu.live (by rw [ht]; rintro ⟨⟩)) (by rintro ⟨⟩) (by rintro _ ⟨⟩) (by rintro _ ⟨⟩)
      · exact status_eq_live.1 (hu.live (by rw [ht]; rintro ⟨⟩))
      · rintro - l ⟨γ, rfl, rfl⟩
        exact .ret rfl
    · exact .seq (safe_return (by rintro ⟨⟩)) fun _ l hl => .ret hl

/-! ## `kill`, traps and scheduling -/

lemma kill_safe {pid : Int32} (hpid : clean → pid ≠ 0) :
    (obligations ini clean).Safe t (kill t pid) ⟨.out, w, .idle⟩
      fun _ l => ∃ w, l = ⟨.out, w, .idle⟩ := by
  rw [kill]
  refine .seq (P := fun _ l => l = ⟨.out, w, .killing pid⟩)
    (.modify fun m L h hl _ => ?_) ?_
  · refine ⟨_, h.entry hl rfl (setAt_eq_self _ t).symm rfl (fun hs => ⟨hs, rfl⟩) (fun c hr => hr)
      (h.user.noted (by rw [hl]; rintro ⟨⟩) rfl (Or.inr ⟨pid, rfl⟩)
      (fun u hut => if_neg (Ne.symm hut))
        ?_ (by rintro _ _ _ ⟨⟩)), rfl⟩
    rintro _ ⟨⟩
    exact ⟨if_pos rfl, hpid⟩
  rintro - l rfl
  refine .iterate (fun _ l => l = ⟨.out, w, .killing pid⟩) rfl ?_
  rintro i l rfl
  split
  · rename_i hi
    refine .seq (P := fun r l =>
      l = ⟨.out, w, if r then .idle else .killing pid⟩) (.atomic
        (safe_under (fun _ => rfl) fun m L h hl => ?_)) ?_
    · by_cases hp : (m.proc ⟨i, hi⟩).priv.pid = pid
      · have huser := h.user.killAt (user_eq hl) hp
        rw [killAt, if_pos hp] at huser ⊢
        refine ⟨_, h.entry hl rfl rfl rfl (fun hs => ?_) (fun c hr => ?_) huser, rfl⟩
        · split at hs
          · cases hs
          · exact ⟨hs, rfl⟩
        · exact ready_kin (kin_setProc_of_eq m _ (status_wake _)) hr
      · rw [killAt, if_neg hp]
        exact ⟨_, h.self hl, rfl⟩
    · rintro (_ | _) l rfl
      · exact .ret rfl
      · exact .ret ⟨w, rfl⟩
  · refine .seq (P := fun _ l => l = ⟨.out, w, .idle⟩)
      (.modify fun m L h hl _ => ?_) fun _ l hl => .ret ⟨w, hl⟩
    exact ⟨_, h.entry hl rfl (setAt_eq_self _ t).symm rfl (fun hs => ⟨hs, rfl⟩) (fun c hr => hr)
      (h.user.noted (by rw [hl]; rintro ⟨⟩) rfl (Or.inl rfl) (fun u hut => if_neg (Ne.symm hut))
      (by rintro _ ⟨⟩)
        (by simp)), rfl⟩

lemma setkilled_safe : (obligations ini clean).Safe t (setkilled t) ⟨.out, w, .idle⟩
      fun _ l => l = ⟨.out, w, .idle⟩ := by
  refine .atomic (safe_under (fun _ => rfl) fun m L h hl => ?_)
  refine ⟨_, h.entry hl rfl rfl rfl (fun hs => ⟨hs, rfl⟩) (fun c => ready_kin ?_)
    (h.user.trapped (by rw [hl]; rintro ⟨⟩)), rfl⟩
  exact kin_setProc_of_eq m t rfl

lemma trap_safe : (obligations ini clean).Safe t (trap t ini) ⟨.out, w, .idle⟩
      fun _ l => ∃ w, l = ⟨.out, w, .idle⟩ ∨ l = ⟨.out, w, .away⟩ := by
  rw [trap]
  refine .seq setkilled_safe ?_
  rintro - l rfl
  refine .seq (killed_safe rfl) ?_
  rintro (_ | _) l rfl
  · exact .ret ⟨w, Or.inl rfl⟩
  · exact (exit_safe (-1)).mono fun _ l ⟨w, hl⟩ => ⟨w, Or.inr hl⟩

lemma dispatch_safe : (obligations ini clean).Safe t (.update (dispatch t)) ⟨.out, w, γ⟩
      fun _ l => l = ⟨.out, w, .idle⟩ := by
  refine .update fun m L h hl => ?_
  unfold dispatch
  split
  · rename_i hrun
    refine fun _ => ⟨_, h.entry hl rfl rfl rfl (by rintro ⟨⟩) (fun c => ?_)
      (h.user.setProc ?_ rfl rfl id (fun he => absurd rfl he) ?_), rfl⟩
    · exact ready_setProc (by rintro ⟨⟩) rfl fun _ _ => rfl
    · rw [hrun.1]
      rfl
    · exact status_eq_live.2 (Or.inr (Or.inl hrun.1))
  · exact trivial

lemma yield_safe : (obligations ini clean).Safe t (yield t) ⟨.out, w, .idle⟩
      fun _ l => l = ⟨.out, w, .idle⟩ := by
  rw [yield]
  refine .seq (P := fun _ l => l = ⟨.out, w, .idle⟩)
    (.update fun m L h hl => ?_) ?_
  · rcases onProc_cases h (p := t) (fun _ => by rw [hl]; rfl)
      (fun x => { x with state := .runnable }) with hblocked | ⟨hfree, hok⟩
    · rw [hblocked]
      exact trivial
    rw [hok]
    refine fun _ => ?_
    have hlive : (kin m).status t = .live :=
      h.user.live (by rw [hl]; rintro ⟨⟩)
    refine ⟨_, h.entry hl rfl rfl hfree.symm (by rintro ⟨⟩) (fun c => ?_)
      (h.user.setProc ?_ rfl rfl id (fun he => absurd rfl he) hlive), rfl⟩
    · exact ready_setProc (by rintro ⟨⟩) rfl fun _ _ => rfl
    · exact hlive.symm
  · rintro - l rfl
    exact dispatch_safe

/-! ## All calls -/

/-- Between calls a process holds no lock and has nothing to remember. -/
def AtRest (_ : Fin N) (l : Ghost (Fin N) (Task N)) : Prop :=
  ∃ w, l = ⟨.out, w, .idle⟩ ∨ l = ⟨.out, w, .away⟩

lemma calls_safe (clean : Prop) {P : Call → Prop} (hP : clean → ∀ pid, P (.kill pid) → pid ≠ 0) :
    Kernel.CallsSafe (kernel ini P) (obligations ini clean) AtRest := by
  rintro t c m L h ⟨w, hw⟩ ⟨hc, henabled⟩
  -- a process that is running has something to remember
  have hidle : (m.proc t).state = .running ∧ (m.proc t).priv.forkret = false →
      L t = ⟨.out, w, .idle⟩ := by
    rintro ⟨hrun, hfork⟩
    rcases hw with hw | hw
    · exact hw
    · have hlive : (kin m).status t = .live := status_eq_live.2 (Or.inr (Or.inr hrun))
      exact absurd (by rw [hw]) (h.user.kinship.started t hlive hfork)
  cases c with
  | start =>
    rcases hw with hw | hw <;> rw [hw] <;>
      exact dispatch_safe.mono fun _ l hl => ⟨w, Or.inl hl⟩
  | fork ok =>
    rw [hidle henabled]
    exact .seq (fork_safe ok) fun _ l ⟨w, hl⟩ => .ret ⟨w, Or.inl hl⟩
  | exit status =>
    rw [hidle henabled]
    exact (exit_safe status).mono fun _ l ⟨w, hl⟩ => ⟨w, Or.inr hl⟩
  | wait addr copyout =>
    rw [hidle henabled]
    exact .seq (wait_safe addr copyout) fun _ l ⟨w, hl⟩ => .ret ⟨w, Or.inl hl⟩
  | kill pid =>
    rw [hidle henabled]
    exact .seq (kill_safe fun hcl => hP hcl pid hc)
      fun _ l ⟨w, hl⟩ => .ret ⟨w, Or.inl hl⟩
  | trap =>
    rw [hidle henabled]
    exact trap_safe
  | yield =>
    rw [hidle henabled]
    exact yield_safe.mono fun _ l hl => ⟨w, Or.inl hl⟩

lemma start_sound (ini : Fin N) (clean : Prop) :
    Kernel.Sound (obligations ini clean) AtRest (Sys.start (init ini)) := by
  refine Kernel.Sound.of_start (L := fun _ => ⟨.out, fun _ => .idle, .away⟩) ?_
    fun t => ⟨_, Or.inr rfl⟩
  have hne : ∀ u, ((init ini).proc u).state ≠ .sleeping := by
    intro u
    by_cases hu : u = ini <;> simp [init, hu]
  have hd : ∀ u c, ¬ Drowsing (init ini) (fun _ : Fin N =>
      (⟨.out, fun _ => .idle, .away⟩ : Ghost (Fin N) (Task N))) u c := by
    rintro u c (h | ⟨h, -⟩)
    · cases h
    · exact hne u h
  refine ⟨fun u => ⟨by simp [init, Phase.holds], ?_, fun h => absurd h (hne u)⟩,
    fun u c h => absurd h (hd u c), by rintro _ _ _ ⟨⟩, by rintro _ _ ⟨⟩, ?_⟩
  · by_cases hu : u = ini <;> simp [init, hu, Phase.holdsProc]
  have hstatus : ∀ p, (kin (init ini)).status p = if p = ini then .live else .free := by
    intro p
    by_cases hp : p = ini <;> simp [kin, init, hp, status]
  refine ⟨⟨⟨?_, by rintro _ _ ⟨⟩, fun p hp hs => ?_, fun p _ => rfl⟩, fun u hu hf => ?_,
    fun p hp => ?_, fun u => trivial, by rintro _ _ _ ⟨⟩⟩, fun p => ?_,
    by rintro _ _ ⟨⟩, fun _ p pid k hmem => ?_, fun _ t pid f hmem => ?_,
    by rintro _ _ _ ⟨⟩⟩
  · rw [hstatus, if_pos rfl]
  · rw [hstatus, if_neg hp] at hs
    rcases hs with hs | hs <;> cases hs
  · rw [hstatus] at hu
    split at hu
    · rename_i hui
      subst hui
      simp [init] at hf
    · cases hu
  · rw [hstatus] at hp
    split at hp <;> cases hp
  · by_cases hp : p = ini
    · subst hp
      refine ⟨⟨.alive 1, ?_, ?_⟩, fun _ hk => ?_⟩
      · simp [init, life, Life.next, Event.slot]
      · simp [init, Life.Matches, status]
      · simp [init] at hk
    · refine ⟨⟨.free, ?_, ?_⟩, fun _ hk => ?_⟩
      · simp [init, life, Life.next, Event.slot, Ne.symm hp]
      · simp [init, Life.Matches, status, hp]
      · simp [init, hp] at hk
  · simp only [init, List.mem_singleton, Event.created.injEq] at hmem
    exact hmem.2.2
  · simp [init] at hmem

end Xv6.Procs
