import Xv6.Proc.FamilyCalls

/-!
# The protocol of `exit` and `wait`, and who `kill` reaches

Parents live, no process sleeps in `wait` while it has an exited child, and each exited process is
handed to one `wait` of its parent at most (`exit_wait_protocol`).

`kill(0)` matches a free entry of the table, whose pid is 0, and marks it killed; the next process
that is created there starts its life killed (`kill_zero_marks_free_entry`).  A process that is
killed deserves it if nobody calls `kill(0)` (`kill_reaches_target`).
-/

namespace Xv6.Procs

open Concur Sched

variable {N : ℕ} {ini : Fin N}

/-- The events of the lives in the entry `p`. -/
def events (p : Fin N) (es : List (Event N)) : List (Event N) :=
  es.filter fun e => e.slot = some p

lemma events_cons_of_slot {p : Fin N} {e : Event N} (he : e.slot = some p) (es : List (Event N)) :
    events p (e :: es) = e :: events p es := by
  simp [events, he]

lemma events_cons_of_ne {p : Fin N} {e : Event N} (he : e.slot ≠ some p) (es : List (Event N)) :
    events p (e :: es) = events p es := by
  simp [events, he]

lemma life_of_append {p : Fin N} {es es' : List (Event N)} {l : Life}
    (h : life p (es ++ es') = some l) : ∃ l', life p es' = some l' := by
  induction es generalizing l with
  | nil => exact ⟨l, h⟩
  | cons e es ih =>
    rw [List.cons_append, life, Option.bind_eq_some_iff] at h
    obtain ⟨l', hl', -⟩ := h
    exact ih hl'

lemma life_after_exit {p : Fin N} {pid status : Int32} {later earlier : List (Event N)} {l : Life}
    (h : life p (later ++ .exited p pid status :: earlier) = some l)
    (hnew : ∀ pid' k, .created p pid' k ∉ later) :
    (events p later = [] ∧ l = .dead pid status) ∨
    ∃ t, events p later = [.waited t p pid status (some t)] ∧ l = .free := by
  induction later generalizing l with
  | nil =>
    rcases life_cons h rfl with ⟨_, _, he, -⟩ | ⟨_, _, he, -, hl⟩ | ⟨_, _, _, he, -⟩ <;> cases he
    exact Or.inl ⟨rfl, hl⟩
  | cons e es ih =>
    have hnew' : ∀ pid' k, .created p pid' k ∉ es :=
      fun pid' k hmem => hnew pid' k (List.mem_cons_of_mem _ hmem)
    by_cases he : e.slot = some p
    · rw [events_cons_of_slot he]
      rcases life_cons h he with ⟨pid', k, rfl, -⟩ | ⟨_, _, rfl, hl, -⟩ | ⟨t, _, _, rfl, hl, rfl⟩
      · exact absurd List.mem_cons_self (hnew pid' k)
      · rcases ih hl hnew' with ⟨-, hd⟩ | ⟨_, -, hd⟩ <;> cases hd
      · rcases ih hl hnew' with ⟨hnil, hd⟩ | ⟨_, -, hd⟩ <;> cases hd
        rw [hnil]
        exact Or.inr ⟨t, rfl, rfl⟩
    · rw [List.cons_append, life_note he] at h
      rw [events_cons_of_ne he]
      exact ih h hnew'

lemma life_before_wait {p : Fin N} {pid status : Int32} {es : List (Event N)}
    (h : life p es = some (.dead pid status)) :
    (events p es).head? = some (.exited p pid status) := by
  induction es with
  | nil => cases h
  | cons e es ih =>
    by_cases he : e.slot = some p
    · rw [events_cons_of_slot he]
      rcases life_cons h he with ⟨_, _, -, -, hl⟩ | ⟨_, _, rfl, -, hl⟩ | ⟨_, _, _, -, -, hl⟩ <;>
        cases hl
      rfl
    · rw [life_note he] at h
      rw [events_cons_of_ne he]
      exact ih h

/-- In every state with `wait_lock` free: a process other than init that has started or exited has
a parent that has not; a process that sleeps in `wait` has no `ZOMBIE` child; after a process has
exited, and until its entry is used again, there is at most one `wait` for it, which returns its
pid and status to its parent, and the entry is `UNUSED` then; and a `wait` returns pid and status
of a process that has exited. -/
theorem exit_wait_protocol {S : Sys Panic (St N) (Fin N)}
    (h : (kernel ini fun _ => True).Reachable (Sys.start (init ini)) S)
    (hfree : S.mem.lock = none) :
    (∀ p, p ≠ ini → (S.mem.proc p).state ∈ [.runnable, .running, .sleeping, .zombie] →
      ∃ q, S.mem.data.parent p = some q ∧ (S.mem.proc q).state ≠ .unused ∧
        (S.mem.proc q).state ≠ .zombie) ∧
    (∀ p, (S.mem.proc p).state = .sleeping → (S.mem.proc p).chan = some p →
      ∀ q, S.mem.data.parent q = some p → (S.mem.proc q).state ≠ .zombie) ∧
    (∀ newer later earlier p pid status,
      S.mem.data.log = newer ++ (later ++ .exited p pid status :: earlier) →
      (∀ pid' k, .created p pid' k ∉ later) →
      (events p later = [] ∧ (newer = [] → (S.mem.proc p).state = .zombie)) ∨
      ∃ t, events p later = [.waited t p pid status (some t)] ∧
        (newer = [] → (S.mem.proc p).state = .unused)) ∧
    ∀ later earlier t p pid status parent,
      S.mem.data.log = later ++ .waited t p pid status parent :: earlier →
      parent = some t ∧ (events p earlier).head? = some (.exited p pid status) := by
  have hsound := Kernel.invariant (calls_safe False fun hf => hf.elim) (start_sound ini False) h
  obtain ⟨L, hinv, -⟩ := hsound
  have hok := hinv.user.kinship.ok
  have hlife := fun p => (hinv.user.history.recorded p).life
  refine ⟨fun p hp hs => ?_, fun p hs hc q hq hz => ?_,
    fun newer later earlier p pid st hlog hnew => ?_,
    fun later earlier t p pid st parent hlog => ?_⟩
  · have hstatus : (kin S.mem).status p = .live ∨ (kin S.mem).status p = .zombie := by
      simp only [List.mem_cons, List.not_mem_nil, or_false] at hs
      rcases hs with hs | hs | hs | hs <;> simp [kin, hs, status]
    obtain ⟨q, hq⟩ := Option.ne_none_iff_exists'.1 (hok.orphan p hp hstatus)
    have hlive := status_eq_live.1 (hok.parent p q hq)
    refine ⟨q, hq, ?_, ?_⟩ <;> rcases hlive with hl | hl | hl <;> rw [hl] <;> decide
  · exact hinv.not_ready hfree (Or.inr ⟨hs, hc⟩) ⟨q, hq, status_eq_zombie.2 hz⟩
  · obtain ⟨l, hl, hm⟩ := hlife p
    rw [hlog] at hl
    obtain ⟨l', hl'⟩ := life_of_append hl
    have hlast : newer = [] → l' = l := by
      rintro rfl
      rw [List.nil_append, hl'] at hl
      exact Option.some.inj hl
    rcases life_after_exit hl' hnew with ⟨hnil, hd⟩ | ⟨t, ht, hd⟩
    · refine Or.inl ⟨hnil, fun hn => ?_⟩
      rw [← hlast hn, hd] at hm
      exact status_eq_zombie.1 hm.1
    · refine Or.inr ⟨t, ht, fun hn => ?_⟩
      rw [← hlast hn, hd] at hm
      exact status_eq_free.1 hm.1
  · obtain ⟨l, hl, -⟩ := hlife p
    rw [hlog] at hl
    obtain ⟨l', hl'⟩ := life_of_append hl
    rcases life_cons hl' rfl with ⟨_, _, he, -⟩ | ⟨_, _, he, -⟩ | ⟨_, _, _, he, hd, -⟩ <;> cases he
    exact ⟨rfl, life_before_wait hd⟩

/-- Init makes a process, which exits with the status 7, and waits for it. -/
theorem exit_wait_protocol_child : ∃ S : Sys Panic (St 2) (Fin 2),
    (kernel (0 : Fin 2) fun _ => True).Reachable (Sys.start (init 0)) S ∧
    .waited 0 1 2 7 (some 0) ∈ S.mem.data.log ∧ (S.mem.proc 1).state = .unused := by
  obtain ⟨S, hr, hok⟩ := Kernel.exec_reaches
    ([.call 0 .start, .run 0, .call 0 (.fork true)] ++ List.replicate 8 (.run 0) ++
      [.call 1 .start, .run 1, .call 1 (.exit 7)] ++ List.replicate 17 (.run 1) ++
      [.call 0 (.wait 0 true)] ++ List.replicate 7 (.run 0))
    (K := kernel (0 : Fin 2) fun _ => True) (S := Sys.start (init 0))
    (fun S => decide (S.mem.lock = none ∧ S.mem.data.log = [] ++ ([.waited 0 1 2 7 (some 0)] ++
      .exited 1 2 7 :: [.created 1 2 false, .created 0 1 false]))) (by decide +kernel)
  obtain ⟨hfree, hlog⟩ := of_decide_eq_true hok
  refine ⟨S, hr, by rw [hlog]; decide, ?_⟩
  obtain ⟨-, -, hlives, -⟩ := exit_wait_protocol hr hfree
  rcases hlives _ _ _ _ _ _ hlog (by simp) with ⟨hnil, -⟩ | ⟨t, -, hstate⟩
  · exact absurd hnil (by decide)
  · exact hstate rfl

/-! ## `kill` -/

lemma Deserved.named {log : List (Event N)} {p : Fin N} {pid : Int32} (h : Deserved log p pid) :
    (∃ t, .killCall t pid ∈ log) ∨ .trapped p ∈ log := by
  obtain ⟨recent, older, ⟨⟨k, rfl⟩, -⟩, hd⟩ := h
  exact hd.imp (Exists.imp fun _ => List.mem_append_left _) (List.mem_append_left _)

/-- Init calls `kill(0)`, which returns 0 although there is no such process, and then makes a
process.  It is killed from the start: nobody called `kill` with its pid, which is 2, and it has
not trapped. -/
theorem kill_zero_marks_free_entry : ∃ S : Sys Panic (St 2) (Fin 2),
    (kernel (0 : Fin 2) fun _ => True).Reachable (Sys.start (init 0)) S ∧
    S.mem.data.log =
      [.created 1 2 true, .killReturn 0 0 0 false, .killCall 0 0, .created 0 1 false] ∧
    (S.mem.proc 1).state = .runnable ∧ (S.mem.proc 1).priv.pid = 2 ∧
    (S.mem.proc 1).priv.killed = true ∧ ¬ Deserved S.mem.data.log 1 2 := by
  obtain ⟨S, hr, hok⟩ := Kernel.exec_reaches
    ([.call 0 .start, .run 0, .call 0 (.kill 0)] ++ List.replicate 5 (.run 0) ++
      [.call 0 (.fork true)] ++ List.replicate 8 (.run 0))
    (K := kernel (0 : Fin 2) fun _ => True) (S := Sys.start (init 0))
    (fun S => decide (S.mem.data.log =
        [.created 1 2 true, .killReturn 0 0 0 false, .killCall 0 0, .created 0 1 false] ∧
      (S.mem.proc 1).state = .runnable ∧ (S.mem.proc 1).priv.pid = 2 ∧
      (S.mem.proc 1).priv.killed = true)) (by decide +kernel)
  obtain ⟨hlog, hstate, hpid, hkilled⟩ := of_decide_eq_true hok
  refine ⟨S, hr, hlog, hstate, hpid, hkilled, fun hd => ?_⟩
  rw [hlog] at hd
  rcases hd.named with ⟨t, ht⟩ | ht
  · simp at ht
  · simp at ht

/-- In every run in which nobody calls `kill(0)`: a process that is killed was the target of a
`kill` with its pid, or has trapped, since it was created, unless such a `kill` was in progress when
it was created; a process is not killed when it is created; and `kill` returns 0 only if there is a
process with that pid that is not `UNUSED`. -/
theorem kill_reaches_target {S : Sys Panic (St N) (Fin N)}
    (h : (kernel ini fun c => c ≠ .kill 0).Reachable (Sys.start (init ini)) S) :
    (∀ p, (S.mem.proc p).priv.killed = true → (S.mem.proc p).state ≠ .unused ∧
      (¬ Awaited S.mem.data.log p (S.mem.proc p).priv.pid →
        Deserved S.mem.data.log p (S.mem.proc p).priv.pid)) ∧
    (∀ p pid killed, .created p pid killed ∈ S.mem.data.log → killed = false) ∧
    ∀ t pid found, .killReturn t pid 0 found ∈ S.mem.data.log → found = true := by
  have hsound := Kernel.invariant (calls_safe True fun _ pid hc he => hc (by rw [he]))
    (start_sound ini True) h
  obtain ⟨L, hinv, -⟩ := hsound
  refine ⟨fun p hk => ?_, hinv.user.history.starts trivial, hinv.user.history.returns trivial⟩
  obtain ⟨hused, hd⟩ := (hinv.user.history.recorded p).killed trivial hk
  exact ⟨hused, hd.resolve_right⟩

/-- Init makes a process and kills it. -/
theorem kill_reaches_target_child : ∃ S : Sys Panic (St 2) (Fin 2),
    (kernel (0 : Fin 2) fun c => c ≠ .kill 0).Reachable (Sys.start (init 0)) S ∧
    (S.mem.proc 1).priv.killed = true ∧ Deserved S.mem.data.log 1 2 := by
  obtain ⟨S, hr, hok⟩ := Kernel.exec_reaches
    ([.call 0 .start, .run 0, .call 0 (.fork true)] ++ List.replicate 8 (.run 0) ++
      [.call 0 (.kill 2)] ++ List.replicate 5 (.run 0))
    (K := kernel (0 : Fin 2) fun c => c ≠ .kill 0) (S := Sys.start (init 0))
    (fun S => decide ((S.mem.proc 1).priv.killed = true ∧ (S.mem.proc 1).priv.pid = 2 ∧
      S.mem.data.log = [.killReturn 0 2 0 true, .killCall 0 2, .created 1 2 false,
        .created 0 1 false])) (by decide +kernel)
  obtain ⟨hkilled, hpid, hlog⟩ := of_decide_eq_true hok
  have hd := ((kill_reaches_target hr).1 1 hkilled).2
  rw [hpid] at hd
  refine ⟨S, hr, hkilled, hd ?_⟩
  -- nothing was called before the process was created
  rintro ⟨recent, older, ⟨⟨k, hsplit⟩, hnew⟩, t, ht⟩
  rw [hlog] at hsplit
  rcases recent with _ | ⟨_, _ | ⟨_, _ | ⟨_, _ | ⟨_, _⟩⟩⟩⟩ <;> simp at hsplit
  obtain ⟨-, -, -, rfl⟩ := hsplit
  cases ht

end Xv6.Procs
