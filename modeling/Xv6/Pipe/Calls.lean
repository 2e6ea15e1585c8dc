import Xv6.Pipe.Ring

/-!
# The calls on a pipe keep its invariant

`pipewrite`, `piperead`, `pipeclose` and `kill` by the rules of `Proc/Monitor.lean`.  A process
that holds `pi->lock` remembers the contents of the pipe.  Two results need different runs, so
they are two switches of one invariant: `fifo` for the contents of the buffer, which needs user
copies that succeed, and `awake` for the wakeups, which needs that no process is killed while its
`pipewrite` has bytes to announce.

A process has such bytes only while it holds `pi->lock`.  So its read end stays open meanwhile, and
the one thing that can make it give up before the announcement is a `kill`.
-/

namespace Xv6.Pipes

open Concur Sched

variable {N : ℕ} {fifo awake : Prop}

/-- When the sleepers of a channel should not sleep. -/
def Ready (pi : Pipe) : Chan → Prop
  | .nread => ¬ pi.Empty ∨ pi.writeopen = false
  | .nwrite => ¬ pi.Full ∨ pi.readopen = false

/-- The part of the invariant that is about the pipe. -/
structure User (fifo awake : Prop) (m : St N) (U : Fin N → Option Pipe) : Prop where
  active : ∀ u, (m.proc u).state.Active
  seen : ∀ u pi, U u = some pi → m.lock = some u ∧ m.data = pi
  ring : fifo → Ring m.data
  settled : m.lock = none → m.data.unannounced = 0
  /-- Who has bytes to announce is not killed. -/
  alive : awake → ∀ u, m.lock = some u → 0 < m.data.unannounced → (m.proc u).priv = false

/-- A pipe as a client of the rules. -/
def client (N : ℕ) (fifo awake : Prop) : Client N Chan Bool Pipe (Option Pipe) where
  ready c m := awake ∧ Ready m.data c
  user := User fifo awake
  ready_congr c hq h := by rwa [hq.data] at h
  user_congr hlock hq h := by
    refine ⟨fun u => ?_, fun u pi hu => ?_, fun hf => ?_, ?_, fun ha u => ?_⟩
    · rcases hq.state u with hs | hs
      · rw [hs]
        exact h.active u
      · exact hs.2
    · rw [hlock, hq.data]
      exact h.seen u pi hu
    · rw [hq.data]
      exact h.ring hf
    · rw [hlock, hq.data]
      exact h.settled
    · rw [hlock, hq.data, hq.priv]
      exact h.alive ha u

/-- The step does not kill a process that has stored bytes and not announced them yet. -/
def Spares (m m' : St N) : Prop :=
  ∀ p, m.lock = some p → 0 < m.data.unannounced → (m'.proc p).priv = true →
    (m.proc p).priv = true

instance (m m' : St N) : Decidable (Spares m m') :=
  inferInstanceAs (Decidable (∀ _, _ → _ → _ → _))

/-- The proof obligations. -/
def obligations (N : ℕ) (fifo awake : Prop) :
    Rules Panic (St N) (Fin N) (Ghost Chan (Option Pipe)) :=
  rules (client N fifo awake) (fun m m' => awake → Spares m m') fun _ _ => True

variable {t : Fin N} {m : St N} {L : Fin N → Ghost Chan (Option Pipe)} {w : Chan → Wake}
  {pi pi' : Pipe}

lemma User.seen_update {U : Fin N → Option Pipe} {o : Option Pipe} {m' : St N}
    (h : User fifo awake m U)
    (hlock : ∀ u, m.lock = some u → u = t)
    (ho : ∀ pi, o = some pi → m'.lock = some t ∧ m'.data = pi) (u : Fin N) (pi : Pipe) :
    Function.update U t o u = some pi → m'.lock = some u ∧ m'.data = pi :=
  update_cases u (ho pi) fun u hu he => absurd (hlock u (h.seen u pi he).1) hu

lemma User.acquire {U : Fin N → Option Pipe} (h : User fifo awake m U) (hfree : m.lock = none) :
    User fifo awake { m with lock := some t } (Function.update U t (some m.data)) where
  active := h.active
  seen := h.seen_update (by rw [hfree]; rintro _ ⟨⟩) fun _ ho => ⟨rfl, Option.some.inj ho⟩
  ring := h.ring
  settled := by rintro ⟨⟩
  alive _ _ _ hpos := by
    simp only [h.settled hfree] at hpos
    omega

lemma User.release {U : Fin N → Option Pipe} (h : User fifo awake m U) (hlock : m.lock = some t)
    (hsettled : m.data.unannounced = 0) :
    User fifo awake { m with lock := none } (Function.update U t none) where
  active := h.active
  seen := h.seen_update (fun _ hu => Option.some.inj (hu.symm.trans hlock)) (by rintro _ ⟨⟩)
  ring := h.ring
  settled _ := hsettled
  alive _ _ := by rintro ⟨⟩

lemma seen_eq (h : Inv (client N fifo awake) m L) (hl : L t = ⟨.locked, w, some pi⟩) :
    m.data = pi :=
  (h.user.seen t pi (by rw [hl])).2

lemma change (w' : Chan → Wake) (h : Inv (client N fifo awake) m L)
    (hl : L t = ⟨.locked, w, some pi⟩)
    (hw : ∀ c, w' c = .owes ∨ (w' c = w c ∧ (w c = .clear ∨ (awake → Ready pi' c → Ready pi c))))
    (hring : fifo → Ring pi → Ring pi')
    (halive : 0 < pi'.unannounced → (m.proc t).priv = false) :
    Inv (client N fifo awake) { m with data := pi' }
      (Function.update L t ⟨.locked, w', some pi'⟩) := by
  have hseen := seen_eq h hl
  have hlock := (h.user.seen t pi (by rw [hl])).1
  refine h.section_ hl (Or.inl rfl) rfl (fun _ => rfl) (fun _ hs => ⟨hs, rfl⟩) (fun c => ?_) ?_
  · rcases hw c with howes | ⟨heq, hcl | hr⟩
    · exact Or.inl howes
    · exact Or.inr ⟨heq, Or.inl hcl⟩
    · refine Or.inr ⟨heq, Or.inr fun hr' => ⟨hr'.1, ?_⟩⟩
      rw [hseen]
      exact hr hr'.1 hr'.2
  · have hself : ∀ u, m.lock = some u → u = t := fun _ hu => Option.some.inj (hu.symm.trans hlock)
    refine ⟨h.user.active, h.user.seen_update hself fun _ ho => ⟨hlock, Option.some.inj ho⟩,
      fun hf => hring hf (hseen ▸ h.user.ring hf), fun hnone => ?_, fun _ u hu => ?_⟩
    · rw [hlock] at hnone
      cases hnone
    · rw [hself u hu]
      exact halive

lemma changeRelease (h : Inv (client N fifo awake) m L) (hl : L t = ⟨.locked, w, some pi⟩)
    (hw : ∀ c, w c ≠ .owes) (hready : ∀ c, Ready pi' c → Ready pi c)
    (hring : fifo → Ring pi → Ring pi') (hsettled : pi'.unannounced = 0) :
    Inv (client N fifo awake) { m with data := pi', lock := none }
      (Function.update L t ⟨.out, w, none⟩) := by
  have h' := change w h hl (fun c => Or.inr ⟨rfl, Or.inr fun _ => hready c⟩) hring fun hpos => by
    omega
  have hlock := (h.user.seen t pi (by rw [hl])).1
  have := h'.release (t := t)  (w := w) (γ := some pi')
    (by rw [Function.update_self]) (Or.inl rfl) hw none (User.release h'.user hlock hsettled)
  rwa [Function.update_idem] at this

lemma release_change_eq (h : Inv (client N fifo awake) m L) (hl : L t = ⟨.locked, w, some pi⟩)
    (pi' : Pipe) : Mem.release t { m with data := pi' } =
      .ok { m with data := pi', lock := none } :=
  if_pos (h.user.seen t pi (by rw [hl])).1

/-! ## Taking and giving up the lock -/

lemma safe_lock : (obligations N fifo awake).Safe t (.update (Mem.acquire t)) ⟨.out, w, none⟩
    fun _ l => ∃ pi, l = ⟨.locked, fun _ => .idle, some pi⟩ ∧ pi.unannounced = 0 := by
  refine (safe_acquire (Q := fun γ => ∃ pi : Pipe, γ = some pi ∧ pi.unannounced = 0)
    fun m U hu _ hfree => ?_).mono ?_
  · exact ⟨some m.data, User.acquire hu hfree, m.data, rfl, hu.settled hfree⟩
  · rintro - l ⟨γ, rfl, pi, rfl, hpi⟩
    exact ⟨pi, rfl, hpi⟩

lemma safe_wait {c : Chan} (hw : ∀ c, w c ≠ .owes) (hready : ¬ Ready pi c)
    (hpi : pi.unannounced = 0) :
    (obligations N fifo awake).Safe t (sleep t c) ⟨.locked, w, some pi⟩
      fun _ l => ∃ pi, l = ⟨.locked, fun _ => .idle, some pi⟩ ∧ pi.unannounced = 0 := by
  refine (safe_sleep none (Q := fun γ => ∃ pi : Pipe, γ = some pi ∧ pi.unannounced = 0)
    hw ?_ ?_ ?_ ?_).mono ?_
  · intro m U hu ht _ hr
    have hseen := (hu.seen t pi ht).2
    exact hready (hseen ▸ hr.2)
  · intro m U hu ht hlock
    exact User.release hu hlock (by rw [(hu.seen t pi ht).2, hpi])
  · exact fun m U hu _ => hu.active t
  · exact fun m U hu _ hfree => ⟨some m.data, User.acquire hu hfree, m.data, rfl, hu.settled hfree⟩
  · rintro - l ⟨γ, rfl, pi, rfl, hpi⟩
    exact ⟨pi, rfl, hpi⟩

/-! ## `pipewrite` -/

open Classical in
/-- The wakeups owed once a channel has become ready. -/
noncomputable def owe (awake : Prop) (w : Chan → Wake) (c : Chan) : Chan → Wake :=
  if awake then setAt w c .owes else w

lemma owe_of_ne {c c' : Chan} (hc : c' ≠ c) : owe awake w c c' = w c' := by
  unfold owe
  split
  · exact setAt_of_ne _ _ hc
  · rfl

lemma owe_ready {c : Chan} (hother : ∀ c', c' ≠ c → Ready pi' c' → Ready pi c') (c' : Chan) :
    owe awake w c c' = .owes ∨ (owe awake w c c' = w c' ∧
      (w c' = .clear ∨ (awake → Ready pi' c' → Ready pi c'))) := by
  by_cases hc : c' = c
  · subst hc
    unfold owe
    split
    · exact Or.inl (setAt_self _ _ _)
    · rename_i ha
      exact Or.inr ⟨rfl, Or.inr fun h => absurd h ha⟩
  · exact Or.inr ⟨owe_of_ne hc, Or.inr fun _ => hother c' hc⟩

/-- What a process in the loop of `pipewrite` knows: it owes a wakeup only for bytes that it has to
announce, and while it has the lock nobody closes the read end. -/
def Writing (awake : Prop) (l : Ghost Chan (Option Pipe)) (pi : Pipe) : Prop :=
  ∃ w, l = ⟨.locked, w, some pi⟩ ∧
    (w .nread = .owes → awake ∧ 0 < pi.unannounced ∧ pi.readopen = true) ∧ w .nwrite ≠ .owes

lemma writeRound_safe (src : ℕ → Option UInt8) (i : ℕ) {l : Ghost Chan (Option Pipe)}
    (hl0 : Writing awake l pi) :
    (obligations N fifo awake).ActSafe t (writeRound t src i) l fun r l' =>
      match r with
      | .dead => ∃ w, l' = ⟨.out, w, none⟩
      | .full => ¬ Ready pi .nwrite ∧ ∃ w, l' = ⟨.locked, w, some pi.settle⟩ ∧ w .nwrite ≠ .owes
      | .fault => Writing awake l' pi
      | .stored => ∃ pi', Writing awake l' pi' := by
  obtain ⟨w, rfl, hnread, hnwrite⟩ := hl0
  intro m L h hl
  have hseen := seen_eq h hl
  have hlock := (h.user.seen t pi (by rw [hl])).1
  unfold writeRound
  rw [hseen]
  split
  · rename_i hdead
    rw [release_change_eq h hl]
    refine fun _ => ⟨_, changeRelease h hl (fun c => ?_) (fun c hr => ?_) (fun _ hr => ?_) rfl,
      w, rfl⟩
    · cases c with
      | nread =>
        -- who has bytes to announce is neither killed nor without readers
        intro howes
        obtain ⟨ha, hpos, hopen⟩ := hnread howes
        have halive := h.user.alive ha t hlock (by rwa [hseen])
        rcases hdead with hclosed | hkilled
        · rw [hopen] at hclosed
          cases hclosed
        · rw [halive] at hkilled
          cases hkilled
      | nwrite => exact hnwrite
    · cases c <;> exact hr
    · exact hr.congr rfl rfl rfl rfl rfl hr.readings
  · rename_i halive
    rw [not_or, Bool.not_eq_false, Bool.not_eq_true] at halive
    split
    · rename_i hfull
      refine fun _ => ⟨_, change w h hl (fun c => Or.inr ⟨rfl, Or.inr fun _ hr => ?_⟩)
        (fun _ hr => ?_) fun _ => halive.2, ?_, w, rfl, hnwrite⟩
      · cases c <;> exact hr
      · exact hr.congr rfl rfl rfl rfl rfl hr.readings
      · simp [Ready, hfull, halive.1]
    · rename_i hfull
      split
      · exact fun _ => ⟨_, h.self hl, w, rfl, hnread, hnwrite⟩
      · rename_i ch _
        refine fun _ => ⟨_, change (owe awake w .nread) h hl (owe_ready fun c hc _ => ?_)
          (fun _ hr => hr.store hfull ch) fun _ => halive.2, pi.store ch, _, rfl,
          fun howes => ⟨?_, Nat.succ_pos _, halive.1⟩, ?_⟩
        · cases c with
          | nread => exact absurd rfl hc
          | nwrite => exact Or.inl hfull
        · by_contra ha
          rw [owe, if_neg ha] at howes
          exact ha (hnread howes).1
        · rw [owe_of_ne (by decide)]
          exact hnwrite

/-- Where the loop of `pipewrite` leaves the writer. -/
def Written (awake : Prop) : Option ℕ → Ghost Chan (Option Pipe) → Prop
  | none, l => ∃ w, l = ⟨.out, w, none⟩
  | some _, l => ∃ pi, Writing awake l pi

lemma writeDone_safe (hw : ∀ c, w c ≠ .owes) :
    (obligations N fifo awake).Safe t (.update (writeDone t)) ⟨.locked, w, some pi⟩
      fun _ l => ∃ w, l = ⟨.out, w, none⟩ := by
  refine .update fun m L h hl => ?_
  rw [writeDone, release_change_eq h hl, seen_eq h hl]
  refine fun _ => ⟨_, changeRelease h hl hw (fun c hr => ?_) (fun _ hr => ?_) rfl, w, rfl⟩
  · cases c <;> exact hr
  · exact hr.congr rfl rfl rfl rfl rfl hr.readings

lemma pipewrite_safe (src : ℕ → Option UInt8) (n : ℤ) :
    (obligations N fifo awake).Safe t (pipewrite t src n) ⟨.out, w, none⟩
      fun _ l => ∃ w, l = ⟨.out, w, none⟩ := by
  rw [pipewrite]
  refine .seq safe_lock ?_
  rintro - l ⟨pi, rfl, -⟩
  refine .seq (P := Written awake) (.iterate (fun _ l => ∃ pi, Writing awake l pi) ?_ ?_) ?_
  · exact ⟨pi, _, rfl, by rintro ⟨⟩, by rintro ⟨⟩⟩
  · rintro i l ⟨pi, hl⟩
    split
    · refine .seq (.atomic (writeRound_safe src i hl)) fun r l' hr => ?_
      cases r with
      | dead => exact .ret hr
      | full =>
        obtain ⟨hready, w', rfl, hnwrite⟩ := hr
        refine .seq safe_wakeup ?_
        rintro - l rfl
        refine .seq (safe_wait (fun c => ?_) hready rfl) ?_
        · cases c with
          | nread => simp
          | nwrite => rwa [setAt_of_ne _ _ (by decide)]
        · rintro - l ⟨pi', rfl, -⟩
          exact .ret ⟨pi', _, rfl, by rintro ⟨⟩, by rintro ⟨⟩⟩
      | fault => exact .ret ⟨pi, hr⟩
      | stored => exact .ret hr
    · exact .ret ⟨pi, hl⟩
  · intro r l hr
    cases r with
    | none => exact .ret hr
    | some i =>
      obtain ⟨pi, w', rfl, -, hnwrite⟩ := hr
      refine .seq safe_wakeup ?_
      rintro - l rfl
      refine .seq (writeDone_safe fun c => ?_) fun _ l hl => .ret hl
      cases c with
      | nread => simp
      | nwrite => rwa [setAt_of_ne _ _ (by decide)]

/-! ## `piperead` -/

lemma readWait_safe (n : ℤ) (hw : ∀ c, w c ≠ .owes) (hpi : pi.unannounced = 0) :
    (obligations N fifo awake).ActSafe t (readWait t n) ⟨.locked, w, some pi⟩ fun r l' =>
      match r with
      | .dead => ∃ w, l' = ⟨.out, w, none⟩
      | .empty => ¬ Ready pi .nread ∧ l' = ⟨.locked, w, some pi⟩
      | .ready => ¬ (pi.Empty ∧ pi.writeopen = true) ∧ l' = ⟨.locked, w, some pi⟩ := by
  intro m L h hl
  have hseen := seen_eq h hl
  have hself := h.self hl
  unfold readWait
  rw [hseen]
  split
  · rename_i hempty
    split
    · rw [release_change_eq h hl]
      refine fun _ => ⟨_, changeRelease h hl hw (fun c hr => ?_) (fun _ hr => ?_) hpi, w, rfl⟩
      · cases c <;> exact hr
      · refine hr.congr rfl rfl rfl rfl rfl fun r hmem hn hres => ?_
        rcases List.mem_cons.1 hmem with rfl | hmem
        · cases hres
        · exact hr.readings r hmem hn hres
    · exact fun _ => ⟨_, hself, by simp [Ready, hempty], rfl⟩
  · rename_i hready
    exact fun _ => ⟨_, hself, hready, rfl⟩

/-- What a process in the copying loop of `piperead` knows after `i` bytes. -/
def Reading.Knows (i : ℕ) (l : Ghost Chan (Option Pipe)) (pi : Pipe) : Prop :=
  ∃ w, l = ⟨.locked, w, some pi⟩ ∧ w .nread ≠ .owes ∧ pi.unannounced = 0 ∧
    (i = 0 → ¬ (pi.Empty ∧ pi.writeopen = true))

lemma readRound_safe {dst : ℕ → Bool} {i : ℕ} (hdst : fifo → dst i = true)
    {l : Ghost Chan (Option Pipe)} (hl0 : Reading.Knows i l pi) :
    (obligations N fifo awake).ActSafe t (readRound dst i) l fun r l' =>
      if r then ∃ pi', Reading.Knows (i + 1) l' pi'
      else ∃ w pi', l' = ⟨.locked, w, some pi'⟩ ∧ w .nread ≠ .owes ∧ pi'.unannounced = 0 ∧
        (fifo → i = 0 → pi'.Empty ∧ pi'.writeopen = false) := by
  obtain ⟨w, rfl, hnread, hpi, hfirst⟩ := hl0
  intro m L h hl
  have hseen := seen_eq h hl
  unfold readRound
  rw [hseen]
  split
  · rename_i hempty
    refine fun _ => ⟨⟨.locked, w, some pi⟩, h.self hl, w, pi, rfl, hnread, hpi,
      fun _ h0 => ⟨hempty, ?_⟩⟩
    rw [← Bool.not_eq_true]
    exact fun hopen => hfirst h0 ⟨hempty, hopen⟩
  · rename_i hempty
    refine fun _ => ?_
    have hinv : Inv (client N fifo awake) { m with data := pi.take (dst i) }
        (Function.update L t ⟨.locked, owe awake w .nwrite, some (pi.take (dst i))⟩) := by
      refine change _ h hl (owe_ready fun c hc _ => ?_) (fun hf hr => ?_) fun hpos => ?_
      · cases c with
        | nread => exact Or.inl hempty
        | nwrite => exact absurd rfl hc
      · rw [hdst hf]
        exact hr.take hempty
      · exact absurd hpos (by simp [Pipe.take, hpi])
    have hother : owe awake w .nwrite .nread ≠ .owes := by
      rw [owe_of_ne (by decide)]
      exact hnread
    cases hd : dst i with
    | true =>
      rw [hd] at hinv
      exact ⟨_, hinv, pi.take true, _, rfl, hother, hpi, fun h0 => absurd h0 (Nat.succ_ne_zero i)⟩
    | false =>
      rw [hd] at hinv
      refine ⟨_, hinv, _, pi.take false, rfl, hother, hpi, fun hf => ?_⟩
      rw [hdst hf] at hd
      cases hd

lemma readDone_safe (n : ℤ) (i : ℕ) (hw : ∀ c, w c ≠ .owes) (hpi : pi.unannounced = 0)
    (hzero : fifo → 0 < n → i = 0 → pi.Empty ∧ pi.writeopen = false) :
    (obligations N fifo awake).Safe t (.update (readDone t n i)) ⟨.locked, w, some pi⟩
      fun _ l => ∃ w, l = ⟨.out, w, none⟩ := by
  refine .update fun m L h hl => ?_
  rw [readDone, release_change_eq h hl, seen_eq h hl]
  refine fun _ => ⟨_, changeRelease h hl hw (fun c hr => ?_) (fun hf hr => ?_) hpi, w, rfl⟩
  · cases c <;> exact hr
  · refine hr.congr rfl rfl rfl rfl rfl fun r hmem hn hres => ?_
    rcases List.mem_cons.1 hmem with rfl | hmem
    · obtain ⟨hempty, hclosed⟩ := hzero hf hn (Int.ofNat_eq_zero.1 hres)
      exact ⟨decide_eq_true hempty, hclosed⟩
    · exact hr.readings r hmem hn hres

lemma piperead_safe {dst : ℕ → Bool} {n : ℤ} (hdst : fifo → ∀ i : ℕ, i < n → dst i = true) :
    (obligations N fifo awake).Safe t (piperead t dst n) ⟨.out, w, none⟩
      fun _ l => ∃ w, l = ⟨.out, w, none⟩ := by
  rw [piperead, pipereadLocked, readReady]
  refine .seq safe_lock ?_
  rintro - l ⟨pi, rfl, hpi⟩
  refine .seq (P := fun r l => if r then ∃ pi, Reading.Knows 0 l pi
    else ∃ w, l = ⟨.out, w, none⟩) (.iterate
      (fun _ l => ∃ pi, l = ⟨.locked, fun _ => .idle, some pi⟩ ∧ pi.unannounced = 0)
      ⟨pi, rfl, hpi⟩ ?_) ?_
  · rintro - l ⟨pi, rfl, hpi⟩
    refine .seq (.atomic (readWait_safe n (by rintro _ ⟨⟩) hpi))
      fun r l' hr => ?_
    cases r with
    | dead => exact .ret hr
    | empty =>
      obtain ⟨hready, rfl⟩ := hr
      exact .seq (safe_wait (by rintro _ ⟨⟩) hready hpi)
        fun _ l hl => .ret hl
    | ready =>
      obtain ⟨hready, rfl⟩ := hr
      exact .ret ⟨pi, _, rfl, by rintro ⟨⟩, hpi, fun _ => hready⟩
  · intro r l hr
    cases r with
    | false => exact .ret hr
    | true =>
      simp only [↓reduceIte] at hr ⊢
      -- at the end of the copying loop, a first round that found nothing met a closed pipe
      refine .seq (P := fun i l => ∃ w pi', l = ⟨.locked, w, some pi'⟩ ∧
        w .nread ≠ .owes ∧ pi'.unannounced = 0 ∧
        (fifo → 0 < n → i = 0 → pi'.Empty ∧ pi'.writeopen = false))
        (.iterate (fun i l => ∃ pi, Reading.Knows i l pi) hr ?_) ?_
      · rintro i l ⟨pi, hl⟩
        split
        · rename_i hi
          refine .seq (.atomic (readRound_safe (fun hf => hdst hf i hi) hl))
            fun r l' hr => ?_
          cases r with
          | true => exact .ret hr
          | false =>
            obtain ⟨w, pi', rfl, hnread, hpi', hzero⟩ := hr
            exact .ret ⟨w, pi', rfl, hnread, hpi', fun hf _ => hzero hf⟩
        · rename_i hi
          obtain ⟨w, rfl, hnread, hpi, -⟩ := hl
          exact .ret ⟨w, pi, rfl, hnread, hpi, fun _ hn h0 => (by omega)⟩
      · rintro i l ⟨w, pi', rfl, hnread, hpi', hzero⟩
        refine .seq safe_wakeup ?_
        rintro - l rfl
        refine .seq (readDone_safe n i (fun c => ?_) hpi' hzero) ?_
        · cases c with
          | nread => rwa [setAt_of_ne _ _ (by decide)]
          | nwrite => simp
        · exact fun _ l hl => .ret hl

/-! ## `pipeclose` and `kill` -/

lemma pipeclose_safe (writable : Bool) :
    (obligations N fifo awake).Safe t (pipeclose t writable) ⟨.out, w, none⟩
      fun _ l => ∃ w, l = ⟨.out, w, none⟩ := by
  rw [pipeclose]
  refine .seq safe_lock ?_
  rintro - l ⟨pi, rfl, hpi⟩
  have hclose : (pi.close writable).unannounced = 0 := by cases writable <;> exact hpi
  refine .seq (P := fun _ l => l = ⟨.locked,
    owe awake (fun _ => .idle) (if writable then .nread else .nwrite), some (pi.close writable)⟩)
    (.modify fun m L h hl _ => ?_) ?_
  · rw [seen_eq h hl]
    refine ⟨_, change _ h hl (owe_ready fun c hc hr => ?_) (fun _ hr => ?_)
      fun hpos => by omega, rfl⟩
    · cases writable <;> cases c <;> first | exact absurd rfl hc | exact hr
    · cases writable <;> exact hr.congr rfl rfl rfl rfl rfl hr.readings
  rintro - l rfl
  refine .seq safe_wakeup ?_
  rintro - l rfl
  refine .update fun m L h hl => ?_
  rw [closeDone, release_change_eq h hl, seen_eq h hl]
  refine fun _ => ⟨_, changeRelease h hl (fun c => ?_) (fun c hr => ?_) (fun _ hr => ?_) hclose,
    _, rfl⟩
  · by_cases hc : c = if writable then .nread else .nwrite
    · rw [hc, setAt_self]
      decide
    · rw [setAt_of_ne _ _ hc, owe_of_ne hc]
      decide
  · cases c <;> exact hr
  · exact hr.congr rfl rfl rfl rfl rfl hr.readings

lemma kill_safe (p : Fin N) :
    (obligations N fifo awake).Safe t (kill t p) ⟨.out, w, none⟩
      fun _ l => ∃ w, l = ⟨.out, w, none⟩ := by
  refine .update fun m L h hl => ?_
  rcases onProc_cases h (p := p) (fun _ => by rw [hl]; rfl) (fun x =>
      { x with priv := true, state := if x.state = .sleeping then .runnable else x.state })
    with hblocked | ⟨hfree, hok⟩
  · rw [hblocked]
    exact trivial
  rw [hok]
  refine fun hspares => ⟨⟨.out, w, none⟩, ?_, w, rfl⟩
  refine h.entry hl rfl rfl hfree.symm (fun hs => ?_) (fun c hr => hr) ?_
  · split at hs
    · cases hs
    · exact ⟨hs, rfl⟩
  · have huser : (fun u => (L u).user) t = none := by
      show (L t).user = none
      rw [hl]
    rw [← huser, Function.update_eq_self]
    refine ⟨fun u => ?_, h.user.seen, h.user.ring, h.user.settled, fun ha u hu hpos => ?_⟩
    on_goal 2 =>
      have halive := h.user.alive ha u hu hpos
      exact Bool.eq_false_iff.2 fun hk => by simp [hspares ha u hu hpos hk] at halive
    refine setAt_cases (motive := fun _ (x : Sched.Proc N Chan Bool) => x.state.Active) u ?_
      fun u _ => h.user.active u
    simp only
    split
    · exact Or.inr (Or.inl rfl)
    · exact h.user.active p

/-! ## All calls -/

/-- Between calls a process holds no lock. -/
def AtRest (_ : Fin N) (l : Ghost Chan (Option Pipe)) : Prop := ∃ w, l = ⟨.out, w, none⟩

lemma calls_safe (fifo awake : Prop) {P : Call N → Prop} (hP : fifo → ∀ c, P c → c.Mapped) :
    Kernel.CallsSafe (kernel N P) (obligations N fifo awake) AtRest := by
  rintro t c m L - ⟨w, hw⟩ hc
  rw [hw]
  cases c with
  | write src n => exact .seq (pipewrite_safe src n) fun _ l hl => .ret hl
  | read dst n =>
    exact .seq (piperead_safe fun hf => hP hf _ hc) fun _ l hl => .ret hl
  | close writable => exact pipeclose_safe writable
  | kill p => exact kill_safe p

lemma start_sound (fifo awake : Prop) (killed : Fin N → Bool) (data : Fin PIPESIZE → UInt8) :
    Kernel.Sound (obligations N fifo awake) AtRest (Sys.start (init killed data)) := by
  refine Kernel.Sound.of_start (L := fun _ => ⟨.out, fun _ => .idle, none⟩) ?_ fun t => ⟨_, rfl⟩
  have hd : ∀ u c, ¬ Drowsing (init killed data) (fun _ : Fin N =>
      (⟨.out, fun _ => .idle, none⟩ : Ghost Chan (Option Pipe))) u c := by
    rintro u c (h | ⟨h, -⟩) <;> cases h
  refine ⟨fun u => ⟨by simp [init, Phase.holds], rfl, by rintro ⟨⟩⟩,
    fun u c h => absurd h (hd u c), by rintro _ _ _ ⟨⟩, by rintro _ _ ⟨⟩, ?_⟩
  exact ⟨fun u => Or.inr (Or.inr rfl), by rintro _ _ ⟨⟩, fun _ => Ring.init data,
    fun _ => rfl, by rintro _ _ ⟨⟩⟩

end Xv6.Pipes
