import Xv6.Log.SyncInvariant

/-!
# Group commit: isolation, wakeups, reserved space

Every routine of `Log/Sync.lean` keeps the invariant of `Log/SyncInvariant.lean`, so it holds
in every state of every run.  The main results are `groupCommit_isolated`, on the isolation of
the commit and lost wakeups, and `tooBig_iff`, on the space that `begin_op` reserves.
-/

namespace Xv6.LogSync

open Concur Sched

variable {N : ℕ}

/-! ## The routines keep the invariant -/

section Routines

variable {disc : Prop} {size : ℕ} {t : Fin N} {w : Chan → Wake} {o : Option (Finset ℕ)}
  {c : Option Bool}

lemma acquire_safe {γ : Mine} (hγ : γ.refused = false) :
    (obligations N disc size).Safe t (.update (Mem.acquire t)) ⟨.out, w, γ⟩
      fun _ l => l = ⟨.locked, fun _ => .idle, γ⟩ := by
  refine (safe_acquire (Q := fun γ' => γ' = γ) fun m U hu ht hfree => ?_).mono ?_
  · refine ⟨γ, User.relock hu ht hγ fun u hlock => ?_, rfl⟩
    rw [hfree] at hlock
    cases hlock
  · rintro - l ⟨γ', rfl, rfl⟩
    rfl

lemma sleep_safe (hw : w .log ≠ .owes) :
    (obligations N disc size).Safe t (sleep t .log) ⟨.locked, w, ⟨o, c, true⟩⟩
      fun _ l => l = ⟨.locked, fun _ => .idle, ⟨o, c, false⟩⟩ := by
  refine (safe_sleep ⟨o, c, false⟩ (Q := fun γ => γ = ⟨o, c, false⟩) ?_ ?_ ?_ ?_ ?_).mono ?_
  · intro ch
    cases ch
    exact hw
  · exact fun m U hu ht _ => (hu.refused t (by rw [ht])).2
  · intro m U hu ht hlock
    refine User.change (d := m.data) hu ?_ ?_ (by rintro ⟨⟩)
      (Or.inl fun u hu' => Option.some.inj (hu'.symm.trans hlock))
    · rw [← show (U t).op = o by rw [ht], ← hu.op t, Function.update_eq_self]
    · rw [← show (U t).com = c by rw [ht], Function.update_eq_self t fun u => (U u).com]
      exact hu.accounts
  · exact fun m U hu _ => hu.active t
  · intro m U hu ht hfree
    refine ⟨_, User.relock hu ht rfl fun u hlock => ?_, rfl⟩
    rw [hfree] at hlock
    cases hlock
  · rintro - l ⟨γ, rfl, rfl⟩
    rfl

lemma admission_safe :
    (obligations N disc size).ActSafe t (admission t)
      ⟨.locked, fun _ => .idle, ⟨none, none, false⟩⟩ fun go l => ∃ w, w .log ≠ .owes ∧
        l = if go then ⟨.out, w, ⟨some ∅, none, false⟩⟩
          else ⟨.locked, w, ⟨none, none, true⟩⟩ := by
  intro m L h hl
  have hcom : (L t).user.com = none := by rw [hl]
  have hop : m.data.op t = none := (h.user.op t).trans (by rw [hl])
  have hself : Function.update (fun u => (L u).user.com) t none = fun u => (L u).user.com := by
    rw [← hcom, Function.update_eq_self t fun u => (L u).user.com]
  unfold admission
  split
  · rename_i hadm
    have hin := change (d := m.data.beginOp t) (v := fun _ => .idle) (δ := ⟨some ∅, none, false⟩)
      h hl (Or.inr ⟨rfl, fun _ => hadm⟩) rfl
      (by rw [hself]; exact h.user.accounts.enter hop hadm) (by rintro ⟨⟩)
    have hout := unlock hin (Function.update_self ..) (by rintro ⟨⟩) rfl
    rw [Function.update_idem] at hout
    rw [Mem.release, if_pos (holder_eq h hl)]
    exact fun _ => ⟨_, hout, _, by rintro ⟨⟩, rfl⟩
  · rename_i hadm
    refine fun _ => ⟨_, change (d := m.data) (v := fun _ => .idle) (δ := ⟨none, none, true⟩)
      h hl (Or.inr ⟨rfl, id⟩) ?_ ?_ fun _ => hadm, _, by rintro ⟨⟩, rfl⟩
    · rw [← hop, Function.update_eq_self]
    · rw [hself]
      exact h.user.accounts

lemma beginOp_safe :
    (obligations N disc size).Safe t (beginOp t) ⟨.out, w, ⟨none, none, false⟩⟩
      fun _ l => ∃ w, l = ⟨.out, w, ⟨some ∅, none, false⟩⟩ := by
  rw [beginOp]
  refine .seq (acquire_safe rfl) ?_
  rintro - l rfl
  refine .iterate (fun _ l => l = ⟨.locked, fun _ => .idle, ⟨none, none, false⟩⟩) rfl ?_
  rintro - l rfl
  refine .seq (.atomic admission_safe) ?_
  rintro go l ⟨w', hw', rfl⟩
  cases go with
  | true => exact .ret ⟨w', rfl⟩
  | false => exact .seq (sleep_safe hw') fun _ _ hl => hl

lemma logWrite_safe {b : ℕ} (hbudget : disc → ∃ bs ∈ o, (insert b bs).card ≤ MAXOPBLOCKS) :
    (obligations N disc size).Safe t (logWrite t b) ⟨.out, w, ⟨o, none, false⟩⟩
      fun _ l => ∃ w o, l = ⟨.out, w, ⟨o, none, false⟩⟩ := by
  refine .update fun m L h hl => ?_
  have hop : m.data.op t = o := (h.user.op t).trans (by rw [hl])
  have hcom : (L t).user.com = none := by rw [hl]
  have hacc := h.user.accounts
  unfold Mem.acquire
  cases hlock : m.lock with
  | some u =>
    have hut : u ≠ t := by
      rintro rfl
      cases (h.at_of hl).lock.1 hlock
    simp [hut]
  | none =>
    cases hw : m.data.log.write b with
    | ok r =>
      obtain ⟨new, l'⟩ := r
      have hadmits : l'.Admits → m.data.log.Admits := by
        obtain ⟨-, -, -, -, rfl⟩ := Log.write_eq_ok hw
        rintro ⟨hcom, hspace⟩
        have hle := Log.length_le_record b m.data.log.lh
        refine ⟨hcom, ?_⟩
        simp only at hspace
        omega
      have hinv := changeOut (d := { m.data with
          log := l'
          op := Function.update m.data.op t ((m.data.op t).map (insert b))
          logged := insert b m.data.logged }) (δ := ⟨o.map (insert b), none, false⟩)
        h hl hadmits (by rw [hop]) (by
          rw [← hcom, Function.update_eq_self t fun u => (L u).user.com]
          exact hacc.write (t := t) hw (by rwa [hop])) rfl
      simp only [Outcome.ok_bind, Data.logWrite, hw, Outcome.pure_eq, Mem.release, ↓reduceIte]
      refine fun _ => ⟨_, ?_, w, o.map (insert b), rfl⟩
      rwa [hlock] at hinv
    | blocked => simp [Data.logWrite, hw]
    | panic msg =>
      simp only [Outcome.ok_bind, Data.logWrite, hw, Outcome.panic_bind]
      rcases Log.write_eq_panic hw with ⟨rfl, hbig⟩ | ⟨rfl, hout⟩
      · -- the number of distinct blocks is the length of the header
        rintro ⟨hdisc, hlt, hlt'⟩
        obtain ⟨bs, hbs, -⟩ := hbudget hdisc
        have hidle : m.data.log.committing = false :=
          hacc.not_committing (u := t) (by rw [hop, hbs]; rfl)
        rw [hacc.card_logged hidle] at hlt hlt'
        have hsize := hacc.size_eq
        omega
      · intro hdisc
        obtain ⟨bs, hbs, -⟩ := hbudget hdisc
        have hpos : 0 < (inProgress m.data.op).card :=
          Finset.card_pos.2 ⟨t, by rw [mem_inProgress, hop, hbs]; rfl⟩
        have hcount : m.data.log.outstanding = (inProgress m.data.op).card := hacc.count
        omega

/-! ### The commit, without `log.lock` -/

lemma copy_safe {b : Bool} :
    (obligations N disc size).Safe t (.iterate (fun tail => .atomic (copyBlock tail)) 0)
      ⟨.out, w, ⟨o, some b, false⟩⟩ fun _ l => l = ⟨.out, w, ⟨o, some b, false⟩⟩ := by
  refine .iterate (fun _ l => l = ⟨.out, w, ⟨o, some b, false⟩⟩) rfl ?_
  rintro tail _ rfl
  refine .atomic fun m L h hl => ?_
  have hcom : (L t).user.com = some b := by rw [hl]
  have hop : m.data.op t = o := (h.user.op t).trans (by rw [hl])
  unfold copyBlock
  split
  · rename_i e _
    refine fun _ => ⟨_, changeOut (d := { m.data with writes := (e, m.data.op) :: m.data.writes })
      (δ := ⟨o, some b, false⟩) h hl id ?_ ?_ rfl, rfl⟩
    · rw [← hop, Function.update_eq_self]
    · rw [← hcom, Function.update_eq_self t fun u => (L u).user.com]
      exact h.user.accounts.copy hcom e
  · exact fun _ => ⟨_, h.self hl, rfl⟩

lemma clear_inv {m : St N} {L : Fin N → Ghost Chan Mine} (h : Inv (client N disc size) m L)
    (hl : L t = ⟨.out, w, ⟨o, some false, false⟩⟩) :
    Inv (client N disc size) { m with data.log.lh := [] }
      (Function.update L t ⟨.out, w, ⟨o, some true, false⟩⟩) := by
  have hcom : (L t).user.com = some false := by rw [hl]
  have hop : m.data.op t = o := (h.user.op t).trans (by rw [hl])
  have hbusy := h.user.accounts.committing t false hcom
  refine changeOut (d := { m.data with log.lh := [] }) h hl (fun hadm => ?_) ?_
    (h.user.accounts.clear hcom) rfl
  · exact absurd hadm.1 (by rw [hbusy]; exact Bool.noConfusion)
  · rw [← hop, Function.update_eq_self]

lemma commit_safe :
    (obligations N disc size).Safe t commit ⟨.out, w, ⟨o, some false, false⟩⟩
      fun _ l => l = ⟨.out, w, ⟨o, some true, false⟩⟩ := by
  rw [commit]
  refine .seq (P := fun n l => l = ⟨.out, w, ⟨o, some (n == 0), false⟩⟩) ?_ ?_
  · refine .atomic fun m L h hl _ => ⟨_, ?_, rfl⟩
    by_cases hlh : m.data.log.lh = []
    · have hzero : (m.data.log.lh.length == 0) = true := by simp [hlh]
      have hsame : { m with data.log.lh := [] } = m := by rw [← hlh]
      have hinv := clear_inv h hl
      rw [hsame] at hinv
      rwa [hzero]
    · have hne : (m.data.log.lh.length == 0) = false := by simpa using hlh
      rw [hne]
      exact h.self hl
  · rintro n _ rfl
    by_cases hn : 0 < n
    · have hne : (n == 0) = false := by
        rw [beq_eq_false_iff_ne]
        omega
      simp only [hn, ↓reduceIte, hne]
      refine .seq copy_safe ?_
      rintro _ _ rfl
      refine .seq copy_safe ?_
      rintro _ _ rfl
      exact .atomic fun m L h hl _ => ⟨_, clear_inv h hl, rfl⟩
    · have hzero : n = 0 := by omega
      subst hzero
      exact .ret rfl

/-! ### `end_op` -/

lemma leaveOp_safe {bs : Finset ℕ} :
    (obligations N disc size).ActSafe t (leaveOp t)
      ⟨.locked, fun _ => .idle, ⟨some bs, none, false⟩⟩ fun last l => ∃ w,
        l = if last then ⟨.out, w, ⟨none, some false, false⟩⟩
          else ⟨.locked, w, ⟨none, none, false⟩⟩ := by
  intro m L h hl
  have hcom : (L t).user.com = none := by rw [hl]
  have hop : m.data.op t = some bs := (h.user.op t).trans (by rw [hl])
  have hacc := h.user.accounts
  have hidle := hacc.not_committing (u := t) (by rw [hop]; rfl)
  unfold leaveOp Data.endOp
  cases he : m.data.log.endOp with
  | blocked => simp
  | panic msg => exact absurd (Log.endOp_eq_panic he) (by simp [hidle])
  | ok r =>
    obtain ⟨last, l'⟩ := r
    obtain ⟨-, ⟨rfl, hone, rfl⟩ | ⟨rfl, hone, rfl⟩⟩ := Log.endOp_eq_ok he
    · have hin := change (v := fun _ => .idle) (δ := ⟨none, some false, false⟩)
        (d := { m.data with
          log := { m.data.log with
            outstanding := m.data.log.outstanding - 1
            committing := true }
          op := Function.update m.data.op t none
          logged := ∅ })
        h hl (Or.inr ⟨rfl, fun hadm => by cases hadm.1⟩) rfl (hacc.close hop hone) (by rintro ⟨⟩)
      have hout := unlock hin (Function.update_self ..) (by rintro ⟨⟩) rfl
      rw [Function.update_idem] at hout
      simp only [Outcome.ok_bind, Outcome.pure_eq, ↓reduceIte, Mem.release, holder_eq h hl]
      exact fun _ => ⟨_, hout, _, rfl⟩
    · simp only [Outcome.ok_bind, Outcome.pure_eq, Bool.false_eq_true, ↓reduceIte]
      refine fun _ => ⟨_, change (v := fun _ => .owes) (δ := ⟨none, none, false⟩) h hl
        (Or.inl rfl) rfl ?_ (by rintro ⟨⟩), _, rfl⟩
      rw [← hcom, Function.update_eq_self t fun u => (L u).user.com]
      exact hacc.leave hop

/-- Both branches of `end_op` end with `wakeup(&log); release(&log.lock)`. -/
lemma wakeRelease_safe {γ : Mine} (hγ : γ.refused = false) :
    (obligations N disc size).Safe t (do wakeup t .log; .update (Mem.release t)) ⟨.locked, w, γ⟩
      fun _ l => ∃ w, l = ⟨.out, w, γ⟩ := by
  refine .seq safe_wakeup ?_
  rintro - l rfl
  refine .update fun m L h hl => ?_
  rw [Mem.release, if_pos (holder_eq h hl)]
  exact fun _ => ⟨_, unlock h hl (by rw [setAt_self]; rintro ⟨⟩) hγ, _, rfl⟩

lemma endOp_safe {bs : Finset ℕ} :
    (obligations N disc size).Safe t (endOp t) ⟨.out, w, ⟨some bs, none, false⟩⟩
      fun _ l => ∃ w, l = ⟨.out, w, ⟨none, none, false⟩⟩ := by
  rw [endOp]
  refine .seq (acquire_safe rfl) ?_
  rintro - l rfl
  refine .seq (.atomic leaveOp_safe) ?_
  rintro last l ⟨w', rfl⟩
  cases last with
  | false => exact wakeRelease_safe rfl
  | true =>
    refine .seq commit_safe ?_
    rintro - l rfl
    refine .seq (acquire_safe rfl) ?_
    rintro - l rfl
    refine .seq (P := fun _ l => l = ⟨.locked, fun _ => .owes, ⟨none, none, false⟩⟩) ?_ ?_
    · refine .atomic fun m L h hl _ => ?_
      have hcom : (L t).user.com = some true := by rw [hl]
      have hop : m.data.op t = none := (h.user.op t).trans (by rw [hl])
      refine ⟨_, change (d := { m.data with log.committing := false }) h hl (Or.inl rfl) ?_
        (h.user.accounts.finish hcom) (by rintro ⟨⟩), rfl⟩
      rw [← hop, Function.update_eq_self]
    · rintro - l rfl
      exact wakeRelease_safe rfl

end Routines

/-! ## Every run -/

section Runs

variable {disc : Prop} {size : ℕ} {mayWrite : Fin N → ℕ → St N → Prop}

/-- Between two calls a process has no lock and nothing to do for the commit. -/
def Rests (_ : Fin N) (l : Ghost Chan Mine) : Prop := ∃ w o, l = ⟨.out, w, ⟨o, none, false⟩⟩

lemma calls_safe (hdisc : disc → ∀ t b m, mayWrite t b m → WithinBudget t b m) :
    Kernel.CallsSafe (kernel N mayWrite) (obligations N disc size) Rests := by
  intro t c m L h hrest hguard
  obtain ⟨w, o, hl⟩ := hrest
  have hop : m.data.op t = o := (h.user.op t).trans (by rw [hl])
  rw [hl]
  cases c with
  | beginOp =>
    obtain rfl : o = none := hop.symm.trans hguard
    refine beginOp_safe.mono ?_
    rintro - l ⟨w', rfl⟩
    exact ⟨w', _, rfl⟩
  | logWrite b =>
    refine logWrite_safe fun hd => ?_
    obtain ⟨bs, hbs, hcard⟩ := hdisc hd t b m hguard
    exact ⟨bs, by rwa [hop] at hbs, hcard⟩
  | endOp =>
    have hsome : (m.data.op t).isSome = true := hguard
    rw [hop] at hsome
    obtain ⟨bs, rfl⟩ := Option.isSome_iff_exists.1 hsome
    refine endOp_safe.mono ?_
    rintro - l ⟨w', rfl⟩
    exact ⟨w', _, rfl⟩

lemma init_inv :
    Inv (client N disc size) (init N size)
      fun _ => ⟨.out, fun _ => .idle, ⟨none, none, false⟩⟩ where
  at_ u := by
    refine ⟨?_, rfl, by rintro ⟨⟩⟩
    simp [init, Phase.holds]
  due := by
    rintro u c (h | ⟨h, -⟩)
    · cases h
    · cases h
  swept := by
    rintro v c j ⟨⟩
  clear := by
    rintro v c ⟨⟩
  user := by
    refine ⟨fun u => Or.inr (Or.inr rfl), fun u => rfl, ?_, by rintro u ⟨⟩⟩
    constructor <;> simp [init, Log.init, reserve]

lemma reachable_sound (disc : Prop) (hdisc : disc → ∀ t b m, mayWrite t b m → WithinBudget t b m)
    {S : Sys Panic (St N) (Fin N)}
    (hr : (kernel N mayWrite).Reachable (Sys.start (init N size)) S) :
    Kernel.Sound (obligations N disc size) Rests S :=
  Kernel.invariant (calls_safe hdisc)
    (Kernel.Sound.of_start init_inv fun _ => ⟨_, _, rfl⟩) hr

end Runs

/-- Group commit is isolated and no wakeup is lost.  In every state of every run, with any
number of processes and without any assumption on when `log_write` is called: during a commit
no call is in progress, so a commit has only copied blocks while none was; `end_op` does not
find a commit in progress; the header has no block twice; and when `log.lock` is free, a
process that sleeps in `begin_op` would not be admitted. -/
theorem groupCommit_isolated (size : ℕ) (mayWrite : Fin N → ℕ → St N → Prop)
    {S : Sys Panic (St N) (Fin N)}
    (hr : (kernel N mayWrite).Reachable (Sys.start (init N size)) S) :
    (S.mem.data.log.committing = true → S.mem.data.log.outstanding = 0) ∧
      (∀ e ∈ S.mem.data.writes, ∀ p, e.2 p = none) ∧
      ¬ Kernel.Panics S .logCommitting ∧
      S.mem.data.log.lh.Nodup ∧
      (S.mem.lock = none → ∀ p, Asleep S.mem p → ¬ S.mem.data.log.Admits) := by
  have hsound := reachable_sound False (fun h => h.elim) hr
  have hpanic : ¬ Kernel.Panics S .logCommitting := hsound.not_panics trivial
  obtain ⟨L, hinv, -⟩ := hsound
  refine ⟨fun hcom => ?_, hinv.user.accounts.writes, hpanic, hinv.user.accounts.nodup,
    fun hfree p hp hadm => ?_⟩
  · rw [hinv.user.accounts.count]
    simp [hinv.user.accounts.isolated hcom]
  · exact hinv.not_ready hfree (Or.inr hp) hadm

/-- Process 0 logs a block and ends its call; while it commits, process 1 goes to sleep. -/
def sleeperSchedule : List (Kernel.Event (Fin 2) Call) :=
  [.call 0 .beginOp, .run 0, .run 0, .run 0, .call 0 (.logWrite 7), .run 0,
    .call 0 .endOp, .run 0, .run 0, .run 0, .run 0, .run 0,
    .call 1 .beginOp, .run 1, .run 1, .run 1, .run 1, .run 1, .run 1]

theorem groupCommit_isolated_sleeper :
    ∃ S, (kernel 2 WithinBudget).Reachable (Sys.start (init 2 LOGSIZE)) S ∧
      Asleep S.mem 1 ∧ S.mem.lock = none ∧ S.mem.data.writes.length = 1 ∧
      S.mem.data.log.outstanding = 0 ∧ (∀ e ∈ S.mem.data.writes, ∀ p, e.2 p = none) ∧
      ¬ Kernel.Panics S .logCommitting ∧ S.mem.data.log.lh.Nodup ∧ ¬ S.mem.data.log.Admits := by
  have hr := Kernel.exec_reachable (K := kernel 2 WithinBudget) (S := Sys.start (init 2 LOGSIZE))
    sleeperSchedule rfl
  obtain ⟨hout, hwrites, hpanic, hnodup, hsleep⟩ := groupCommit_isolated LOGSIZE WithinBudget hr
  exact ⟨_, hr, ⟨rfl, rfl⟩, rfl, rfl, hout rfl, hwrites, hpanic, hnodup, hsleep rfl 1 ⟨rfl, rfl⟩⟩

/-! ## The reserved space

`begin_op` reserves `MAXOPBLOCKS` blocks for every call, up to `LOGSIZE` in all.  The log area
that `mkfs` makes has `LOGSIZE` blocks including the header, so the last reserved block is not
there: `log_write` stops the machine when it is called with `LOGSIZE - 1` blocks in the
header. -/

/-- The reservation never exceeds `LOGSIZE` distinct blocks, and `log_write` reports a too big
transaction exactly when it is called with `LOGSIZE - 1` or more distinct blocks logged since
the last commit. -/
theorem tooBig_iff {S : Sys Panic (St N) (Fin N)}
    (hr : (kernel N WithinBudget).Reachable (Sys.start (init N LOGSIZE)) S) :
    S.mem.data.logged.card ≤ LOGSIZE ∧
      (Kernel.Panics S .tooBigATransaction → LOGSIZE - 1 ≤ S.mem.data.logged.card) ∧
      ∀ t b, S.thr t = logWrite t b → S.mem.lock = none →
        ((S.thr t).step S.mem = .panic .tooBigATransaction ↔
          LOGSIZE - 1 ≤ S.mem.data.logged.card) := by
  have hsound := reachable_sound True (fun _ _ _ _ h => h) hr
  have hpanic : Kernel.Panics S .tooBigATransaction → LOGSIZE - 1 ≤ S.mem.data.logged.card := by
    intro hp
    by_contra hlt
    refine hsound.not_panics (m := .tooBigATransaction) ⟨trivial, ?_, ?_⟩ hp
    · omega
    · simp only [LOGSIZE_eq] at hlt ⊢
      omega
  obtain ⟨L, hinv, -⟩ := hsound
  refine ⟨?_, hpanic, ?_⟩
  · have := hinv.user.accounts.reserved trivial
    omega
  · intro t b hthr hfree
    refine ⟨fun h => hpanic ⟨t, h⟩, fun hfull => ?_⟩
    have hcom : S.mem.data.log.committing = false := by
      by_contra hcom
      rw [hinv.user.accounts.logged_empty (by simpa using hcom)] at hfull
      simp at hfull
    rw [hinv.user.accounts.card_logged hcom] at hfull
    have hsize := hinv.user.accounts.size_eq
    have hw : S.mem.data.log.write b = .panic .tooBigATransaction := by
      unfold Log.write
      rw [if_pos]
      simp only [LOGSIZE_eq] at hsize hfull ⊢
      omega
    rw [hthr]
    exact Prog.step_update_of_panic (by simp [Mem.acquire, Data.logWrite, hfree, hw])

/-- With an empty log, the first `log_write` of a call goes through. -/
theorem tooBig_iff_first :
    ∃ S, (kernel 3 WithinBudget).Reachable (Sys.start (init 3 LOGSIZE)) S ∧
      S.thr 0 = logWrite 0 100 ∧ S.mem.lock = none ∧ ¬ LOGSIZE - 1 ≤ S.mem.data.logged.card ∧
      (S.thr 0).step S.mem ≠ .panic .tooBigATransaction := by
  have hr := Kernel.exec_reachable (K := kernel 3 WithinBudget) (S := Sys.start (init 3 LOGSIZE))
    [.call 0 .beginOp, .run 0, .run 0, .run 0, .call 0 (.logWrite 100)] rfl
  obtain ⟨-, -, hiff⟩ := tooBig_iff hr
  exact ⟨_, hr, rfl, rfl, by decide, mt (hiff 0 100 rfl rfl).1 (by decide)⟩

/-- Three calls are let in and each logs `MAXOPBLOCKS` blocks of its own. -/
def fullLoad : List (Kernel.Event (Fin 3) Call) :=
  let enter (t : Fin 3) : List (Kernel.Event (Fin 3) Call) :=
    [.call t .beginOp, .run t, .run t, .run t]
  let fill (t : Fin 3) (n : ℕ) : List (Kernel.Event (Fin 3) Call) :=
    (List.range n).flatMap fun i => [.call t (.logWrite (100 * t.val + i)), .run t]
  enter 0 ++ enter 1 ++ enter 2 ++ fill 0 10 ++ fill 1 10 ++ fill 2 9 ++ [.call 2 (.logWrite 209)]

/-- The thirtieth block of three admitted calls stops the machine. -/
theorem fullLoad_panics :
    ∃ S, (kernel 3 WithinBudget).Reachable (Sys.start (init 3 LOGSIZE)) S ∧
      Kernel.Panics S .tooBigATransaction := by
  refine Kernel.exec_panics fullLoad 2 ?_
  decide +kernel

end Xv6.LogSync
