import Xv6.Log.Sync
import Xv6.Proc.Monitor
import Mathlib.Data.Fintype.BigOperators
import Mathlib.Algebra.Order.BigOperators.Group.Finset

/-!
# The invariant of concurrent calls on the log

The log is a client of the rules in `Proc/Monitor.lean`: the channel `&log` is ready when the
admission test of `begin_op` would succeed, and what a process remembers (`Mine`) repeats its
bookkeeping entry, so that a routine's proof can use what the process itself has done.

What the log adds to the invariant of the rules are the log and the calls in progress
(`Accounts`); the lemmas on `Accounts` are about one critical section each.  The committer
changes the log without `log.lock`, so a process that has been refused does not know the log by
heart.  It knows that it is refused: what the committer changes does not let anybody in.
-/

namespace Xv6.LogSync

open Concur Sched

variable {N : ℕ}

/-! ## The accounts -/

/-- The log blocks that a call can still ask for. -/
def reserve : Option (Finset ℕ) → ℕ
  | none => 0
  | some bs => MAXOPBLOCKS - bs.card

lemma reserve_some (bs : Finset ℕ) : reserve (some bs) = MAXOPBLOCKS - bs.card := rfl

/-- The log and the calls in progress; `com` says who the committer is.  The last two fields
are about calls that keep to their budget. -/
structure Accounts (disc : Prop) (size : ℕ) (l : Log) (op : Fin N → Option (Finset ℕ))
    (logged : Finset ℕ) (writes : List (ℕ × (Fin N → Option (Finset ℕ))))
    (com : Fin N → Option Bool) : Prop where
  size_eq : l.size = size
  count : l.outstanding = (Finset.univ.filter fun u => (op u).isSome).card
  isolated : l.committing = true → ∀ u, op u = none
  committing : ∀ u c, com u = some c → l.committing = true
  cleared : ∀ u, com u = some true → l.lh = []
  unique : ∀ u v, (com u).isSome → (com v).isSome → u = v
  nodup : l.lh.Nodup
  logged_eq : l.committing = false → l.lh.toFinset = logged
  logged_empty : l.committing = true → logged = ∅
  mine : ∀ u, ∀ bs ∈ op u, bs ⊆ logged
  writes : ∀ e ∈ writes, ∀ u, e.2 u = none
  bounded : disc → ∀ u, ∀ bs ∈ op u, bs.card ≤ MAXOPBLOCKS
  reserved : disc → logged.card + ∑ u, reserve (op u) ≤ LOGSIZE

section Accounts

variable {disc : Prop} {size : ℕ} {l l' : Log} {op : Fin N → Option (Finset ℕ)}
  {logged : Finset ℕ} {writes : List (ℕ × (Fin N → Option (Finset ℕ)))}
  {com : Fin N → Option Bool} {t : Fin N}

/-- The processes between `begin_op` and `end_op`. -/
def inProgress (op : Fin N → Option (Finset ℕ)) : Finset (Fin N) :=
  Finset.univ.filter fun u => (op u).isSome

@[simp] lemma mem_inProgress {u : Fin N} : u ∈ inProgress op ↔ (op u).isSome = true := by
  simp [inProgress]

lemma inProgress_update_some (bs : Finset ℕ) :
    inProgress (Function.update op t (some bs)) = insert t (inProgress op) := by
  ext u
  by_cases hu : u = t
  · simp [hu]
  · simp [hu]

lemma inProgress_update_none :
    inProgress (Function.update op t none) = (inProgress op).erase t := by
  ext u
  by_cases hu : u = t
  · simp [hu]
  · simp [hu]

lemma sum_reserve_le (op : Fin N → Option (Finset ℕ)) :
    ∑ u, reserve (op u) ≤ (inProgress op).card * MAXOPBLOCKS := by
  have hzero : ∀ u, u ∉ inProgress op → reserve (op u) = 0 := by
    intro u hu
    cases hop : op u with
    | none => rfl
    | some bs => simp [hop] at hu
  have hle : ∀ u ∈ inProgress op, reserve (op u) ≤ MAXOPBLOCKS := by
    intro u _
    cases op u with
    | none => exact Nat.zero_le _
    | some bs => exact Nat.sub_le _ _
  calc ∑ u, reserve (op u) = ∑ u ∈ inProgress op, reserve (op u) :=
        (Finset.sum_subset (Finset.subset_univ _) fun u _ hu => hzero u hu).symm
    _ ≤ (inProgress op).card * MAXOPBLOCKS := Finset.sum_le_card_nsmul _ _ _ hle

namespace Accounts

variable (h : Accounts disc size l op logged writes com)

include h

lemma not_committing {u : Fin N} (hu : (op u).isSome = true) : l.committing = false := by
  cases hcom : l.committing with
  | false => rfl
  | true => simp [h.isolated hcom u] at hu

lemma card_logged (hcom : l.committing = false) : logged.card = l.lh.length := by
  rw [← h.logged_eq hcom, List.toFinset_card_of_nodup h.nodup]

lemma enter (hop : op t = none) (hadm : l.Admits) :
    Accounts disc size l.beginOp (Function.update op t (some ∅)) logged writes com := by
  obtain ⟨hcom, hspace⟩ := hadm
  have hnew : t ∉ inProgress op := by simp [hop]
  have hcount : l.outstanding + 1 = (inProgress (Function.update op t (some ∅))).card := by
    rw [inProgress_update_some, Finset.card_insert_of_notMem hnew, h.count]
    rfl
  refine ⟨h.size_eq, hcount, ?_, h.committing, h.cleared, h.unique, h.nodup, h.logged_eq,
    h.logged_empty, ?_, h.writes, ?_, ?_⟩
  · intro hcom'
    simp [Log.beginOp, hcom] at hcom'
  · intro u bs hbs
    by_cases hu : u = t
    · subst hu
      simp only [Function.update_self, Option.mem_def, Option.some.injEq] at hbs
      simp [← hbs]
    · rw [Function.update_of_ne hu] at hbs
      exact h.mine u bs hbs
  · intro hdisc u bs hbs
    by_cases hu : u = t
    · subst hu
      simp only [Function.update_self, Option.mem_def, Option.some.injEq] at hbs
      simp [← hbs]
    · rw [Function.update_of_ne hu] at hbs
      exact h.bounded hdisc u bs hbs
  · -- the admission test counts every call in progress with its full reservation
    intro _
    have hsum := sum_reserve_le (Function.update op t (some ∅))
    rw [h.card_logged hcom]
    simp only [MAXOPBLOCKS_eq, LOGSIZE_eq] at hspace hsum ⊢
    omega

lemma write {b : ℕ} {new : Bool} (hw : l.write b = .ok (new, l'))
    (hbudget : disc → ∃ bs ∈ op t, (insert b bs).card ≤ MAXOPBLOCKS) :
    Accounts disc size l' (Function.update op t ((op t).map (insert b))) (insert b logged)
      writes com := by
  obtain ⟨hout, -, -, -, rfl⟩ := Log.write_eq_ok hw
  have hsome : ∃ u, (op u).isSome = true := by
    have hpos : 0 < (inProgress op).card := by
      have := h.count
      unfold inProgress
      omega
    obtain ⟨u, hu⟩ := Finset.card_pos.1 hpos
    exact ⟨u, by simpa using hu⟩
  obtain ⟨u0, hu0⟩ := hsome
  have hcom : l.committing = false := h.not_committing hu0
  have hmine : ∀ u, ∀ bs ∈ op u, bs ⊆ insert b logged :=
    fun u bs hbs => (h.mine u bs hbs).trans (Finset.subset_insert _ _)
  have hsame : ∀ u, (Function.update op t ((op t).map (insert b)) u).isSome = (op u).isSome := by
    intro u
    by_cases hu : u = t
    · subst hu
      simp
    · rw [Function.update_of_ne hu]
  refine ⟨h.size_eq, ?_, ?_, h.committing, ?_, h.unique, Log.record_nodup h.nodup, ?_, ?_, ?_,
    h.writes, ?_, ?_⟩
  · simp only [hsame]
    exact h.count
  · intro hcom'
    simp [hcom] at hcom'
  · intro u hu
    have := h.committing u true hu
    simp [hcom] at this
  · intro _
    ext c
    simp [← h.logged_eq hcom]
  · intro hcom'
    simp [hcom] at hcom'
  · intro u bs hbs
    by_cases hu : u = t
    · subst hu
      simp only [Function.update_self, Option.mem_def, Option.map_eq_some_iff] at hbs
      obtain ⟨bs', hbs', rfl⟩ := hbs
      exact Finset.insert_subset_insert _ (h.mine u bs' hbs')
    · rw [Function.update_of_ne hu] at hbs
      exact hmine u bs hbs
  · intro hdisc u bs hbs
    by_cases hu : u = t
    · subst hu
      simp only [Function.update_self, Option.mem_def, Option.map_eq_some_iff] at hbs
      obtain ⟨bs', hbs', rfl⟩ := hbs
      obtain ⟨bs'', hbs'', hcard⟩ := hbudget hdisc
      rw [Option.mem_def] at hbs''
      rw [hbs'] at hbs''
      cases hbs''
      exact hcard
    · rw [Function.update_of_ne hu] at hbs
      exact h.bounded hdisc u bs hbs
  · -- a block that is new to the group is new to its call, which has one block less to ask for
    intro hdisc
    obtain ⟨bs, hbs, hcard⟩ := hbudget hdisc
    rw [Option.mem_def] at hbs
    have hsum := sum_comp_update reserve op t ((op t).map (insert b))
    simp only [hbs, Option.map_some, reserve_some] at hsum ⊢
    have hres := h.reserved hdisc
    by_cases hb : b ∈ bs
    · have hb' : b ∈ logged := h.mine t bs hbs hb
      rw [Finset.insert_eq_of_mem hb] at hsum ⊢
      rw [Finset.insert_eq_of_mem hb']
      omega
    · have hle := Finset.card_insert_le b logged
      rw [Finset.card_insert_of_notMem hb] at hcard hsum
      omega

lemma of_ends {bs : Finset ℕ} (hop : op t = some bs) :
    (∀ u, ∀ bs' ∈ Function.update op t none u, bs' ∈ op u) ∧
      l.outstanding - 1 = (inProgress (Function.update op t none)).card ∧
      ∑ u, reserve (Function.update op t none u) ≤ ∑ u, reserve (op u) := by
  have hmem : t ∈ inProgress op := by simp [hop]
  refine ⟨?_, ?_, ?_⟩
  · intro u bs' hbs'
    by_cases hu : u = t
    · subst hu
      simp at hbs'
    · rwa [Function.update_of_ne hu] at hbs'
  · have hpos := Finset.card_pos.2 ⟨t, hmem⟩
    have hcount : l.outstanding = (inProgress op).card := h.count
    rw [inProgress_update_none, Finset.card_erase_of_mem hmem]
    omega
  · have hsum := sum_comp_update reserve op t none
    have hnone : reserve none = 0 := rfl
    omega

lemma close {bs : Finset ℕ} (hop : op t = some bs) (hlast : l.outstanding = 1) :
    Accounts disc size { l with outstanding := l.outstanding - 1, committing := true }
      (Function.update op t none) ∅ writes (Function.update com t (some false)) := by
  have hcom : l.committing = false := h.not_committing (u := t) (by simp [hop])
  obtain ⟨hsub, hcount, -⟩ := h.of_ends hop
  have hnone : ∀ u, Function.update op t none u = none := by
    intro u
    have hzero : (inProgress (Function.update op t none)).card = 0 := by omega
    have hu : u ∉ inProgress (Function.update op t none) := by
      rw [Finset.card_eq_zero.1 hzero]
      exact Finset.notMem_empty u
    simpa using hu
  -- nobody else is committing, since the flag was not set
  have hothers : ∀ u, u ≠ t → Function.update com t (some false) u = none := by
    intro u hu
    rw [Function.update_of_ne hu]
    cases hc : com u with
    | none => rfl
    | some c =>
      have := h.committing u c hc
      simp [hcom] at this
  have honly : ∀ u, (Function.update com t (some false) u).isSome = true → u = t := by
    intro u hu
    by_contra hne
    simp [hothers u hne] at hu
  refine ⟨h.size_eq, hcount, fun _ => hnone, fun _ _ _ => rfl, ?_, ?_, h.nodup, ?_, fun _ => rfl,
    ?_, h.writes, ?_, ?_⟩
  · intro u hu
    have hut := honly u (by simp [hu])
    subst hut
    simp at hu
  · intro u v hu hv
    rw [honly u hu, honly v hv]
  · intro hfalse
    cases hfalse
  · intro u bs' hbs'
    simp [hnone u] at hbs'
  · intro _ u bs' hbs'
    simp [hnone u] at hbs'
  · intro _
    simp [hnone, reserve]

lemma leave {bs : Finset ℕ} (hop : op t = some bs) :
    Accounts disc size { l with outstanding := l.outstanding - 1 }
      (Function.update op t none) logged writes com := by
  have hcom : l.committing = false := h.not_committing (u := t) (by simp [hop])
  obtain ⟨hsub, hcount, hsum⟩ := h.of_ends hop
  refine ⟨h.size_eq, hcount, ?_, h.committing, h.cleared, h.unique, h.nodup, h.logged_eq,
    h.logged_empty, fun u bs' hbs' => h.mine u bs' (hsub u bs' hbs'), h.writes,
    fun hdisc u bs' hbs' => h.bounded hdisc u bs' (hsub u bs' hbs'), ?_⟩
  · intro hcom'
    simp [hcom] at hcom'
  · intro hdisc
    have := h.reserved hdisc
    omega

lemma copy {c : Bool} (hc : com t = some c) (b : ℕ) :
    Accounts disc size l op logged ((b, op) :: writes) com := by
  refine { h with writes := ?_ }
  intro e he
  rcases List.mem_cons.1 he with rfl | he
  · exact h.isolated (h.committing t c hc)
  · exact h.writes e he

lemma clear {c : Bool} (hc : com t = some c) :
    Accounts disc size { l with lh := [] } op logged writes
      (Function.update com t (some true)) := by
  have hcom := h.committing t c hc
  have honly : ∀ u,
      (Function.update com t (some true) u).isSome = true → (com u).isSome = true := by
    intro u hu
    by_cases hut : u = t
    · simp [hut, hc]
    · rwa [Function.update_of_ne hut] at hu
  refine ⟨h.size_eq, h.count, h.isolated, fun _ _ _ => hcom, fun _ _ => rfl,
    fun u v hu hv => h.unique u v (honly u hu) (honly v hv), List.nodup_nil, ?_, h.logged_empty,
    h.mine, h.writes, h.bounded, h.reserved⟩
  intro hfalse
  simp [hcom] at hfalse

lemma finish (hc : com t = some true) :
    Accounts disc size { l with committing := false } op logged writes
      (Function.update com t none) := by
  have hcom := h.committing t true hc
  have hothers : ∀ u, Function.update com t none u = none := by
    intro u
    by_cases hut : u = t
    · simp [hut]
    · rw [Function.update_of_ne hut]
      by_contra hne
      exact hut (h.unique u t (Option.isSome_iff_ne_none.2 hne) (by simp [hc]))
  refine ⟨h.size_eq, h.count, ?_, ?_, ?_, ?_, h.nodup, ?_, ?_, h.mine, h.writes, h.bounded,
    h.reserved⟩
  · intro hfalse
    cases hfalse
  · intro u c hu
    simp [hothers u] at hu
  · intro u hu
    simp [hothers u] at hu
  · intro u v hu
    simp [hothers u] at hu
  · intro _
    simp [h.cleared t hc, h.logged_empty hcom]
  · intro hfalse
    cases hfalse

end Accounts

end Accounts

/-! ## The client -/

/-- What a process remembers about its call. -/
structure Mine where
  op : Option (Finset ℕ)
  /-- It is the committer; the flag says that `log.lh.n` is 0. -/
  com : Option Bool
  /-- It holds `log.lock`, and the admission test has failed. -/
  refused : Bool

/-- The part of the invariant that is about the log. -/
structure User (disc : Prop) (size : ℕ) (m : St N) (U : Fin N → Mine) : Prop where
  active : ∀ u, (m.proc u).state.Active
  op : ∀ u, m.data.op u = (U u).op
  accounts : Accounts disc size m.data.log m.data.op m.data.logged m.data.writes
    fun u => (U u).com
  refused : ∀ u, (U u).refused = true → m.lock = some u ∧ ¬ m.data.log.Admits

/-- The log as a client of the rules. -/
def client (N : ℕ) (disc : Prop) (size : ℕ) : Client N Chan Unit (Data N) Mine where
  ready _ m := m.data.log.Admits
  user := User disc size
  ready_congr c hq h := by rwa [hq.data] at h
  user_congr hlock hq h := by
    refine ⟨fun u => ?_, fun u => ?_, ?_, fun u => ?_⟩
    · rcases hq.state u with hs | hs
      · rw [hs]
        exact h.active u
      · exact hs.2
    · rw [hq.data]
      exact h.op u
    · rw [hq.data]
      exact h.accounts
    · rw [hlock, hq.data]
      exact h.refused u

/-- The proof obligations: no step is excluded, and of the messages only the two of `log_write`
are possible. -/
def obligations (N : ℕ) (disc : Prop) (size : ℕ) :
    Rules Panic (St N) (Fin N) (Ghost Chan Mine) :=
  rules (client N disc size) (fun _ _ => True) fun m msg =>
    match msg with
    | .tooBigATransaction =>
      disc ∧ m.data.logged.card < LOGSIZE ∧ (m.data.logged.card : ℤ) < size - 1
    | .logWriteOutsideOfTrans => disc
    | _ => True

section Client

variable {disc : Prop} {size : ℕ} {m : St N} {t : Fin N} {U : Fin N → Mine} {γ δ : Mine}
  {L : Fin N → Ghost Chan Mine} {w v : Chan → Wake} {d : Data N}

/-- A process changes the log, and its own entry with it.  It has the lock, or nobody has and it
takes it meanwhile, or nobody is let in by the change. -/
lemma User.change (h : User disc size m U) {lk : Option (Fin N)}
    (hop : d.op = Function.update m.data.op t γ.op)
    (hacc : Accounts disc size d.log d.op d.logged d.writes
      (Function.update (fun u => (U u).com) t γ.com))
    (href : γ.refused = true → lk = some t ∧ ¬ d.log.Admits)
    (hmine : (∀ u, m.lock = some u → u = t) ∨
      (lk = m.lock ∧ (d.log.Admits → m.data.log.Admits))) :
    User disc size { m with data := d, lock := lk } (Function.update U t γ) where
  active := h.active
  op u := by
    rw [hop]
    by_cases hu : u = t
    · rw [hu, Function.update_self, Function.update_self]
    · rw [Function.update_of_ne hu, Function.update_of_ne hu]
      exact h.op u
  accounts := by
    rw [comp_update Mine.com]
    exact hacc
  refused := by
    refine fun u => update_cases u href fun u hu hr => ?_
    obtain ⟨hlock, hadm⟩ := h.refused u hr
    rcases hmine with hmine | ⟨hlk, himp⟩
    · exact absurd (hmine u hlock) hu
    · exact ⟨hlk.trans hlock, mt himp hadm⟩

lemma User.relock (h : User disc size m U) (ht : U t = γ) (hγ : γ.refused = false)
    {lk : Option (Fin N)} (hmine : ∀ u, m.lock = some u → u = t) :
    User disc size { m with lock := lk } (Function.update U t γ) := by
  subst ht
  refine h.change (d := m.data) ?_ ?_ (by rw [hγ]; rintro ⟨⟩) (Or.inl hmine)
  · rw [← h.op t, Function.update_eq_self]
  · rw [Function.update_eq_self t fun u => (U u).com]
    exact h.accounts

section

variable (h : Inv (client N disc size) m L) (hl : L t = ⟨.locked, w, γ⟩)

include h hl

lemma holder_eq :
    m.lock = some t :=
  (h.at_of hl).lock.2 rfl

lemma change (hw : v .log = .owes ∨ (v .log = w .log ∧ (d.log.Admits → m.data.log.Admits)))
    (hop : d.op = Function.update m.data.op t δ.op)
    (hacc : Accounts disc size d.log d.op d.logged d.writes
      (Function.update (fun u => (L u).user.com) t δ.com))
    (href : δ.refused = true → ¬ d.log.Admits) :
    Inv (client N disc size) { m with data := d } (Function.update L t ⟨.locked, v, δ⟩) := by
  have hlock := holder_eq h hl
  refine h.section_ hl (Or.inl rfl) rfl (fun _ => rfl) (fun _ hs => ⟨hs, rfl⟩) (fun c => ?_) ?_
  · cases c
    exact hw.imp_right fun hw => ⟨hw.1, Or.inr hw.2⟩
  · exact h.user.change hop hacc (fun hr => ⟨hlock, href hr⟩)
      (Or.inl fun u hu => Option.some.inj (hu.symm.trans hlock))

lemma unlock (hw : w .log ≠ .owes) (hγ : γ.refused = false) :
    Inv (client N disc size) { m with lock := none } (Function.update L t ⟨.out, w, γ⟩) := by
  have hlock := holder_eq h hl
  refine h.release hl (Or.inl rfl) (fun c => ?_) γ (h.user.relock (by rw [hl]) hγ fun u hu => ?_)
  · cases c
    exact hw
  · exact Option.some.inj (hu.symm.trans hlock)

end

lemma changeOut (h : Inv (client N disc size) m L) (hl : L t = ⟨.out, w, γ⟩)
    (hready : d.log.Admits → m.data.log.Admits)
    (hop : d.op = Function.update m.data.op t δ.op)
    (hacc : Accounts disc size d.log d.op d.logged d.writes
      (Function.update (fun u => (L u).user.com) t δ.com)) (href : δ.refused = false) :
    Inv (client N disc size) { m with data := d } (Function.update L t ⟨.out, w, δ⟩) := by
  have := h.table (t := t) (γ := δ) { m with data := d } rfl (fun _ => rfl)
    (fun _ hs => ⟨hs, rfl⟩) (fun _ => hready)
    (h.user.change hop hacc (by rw [href]; rintro ⟨⟩) (Or.inr ⟨rfl, hready⟩))
  rwa [hl] at this

end Client

end Xv6.LogSync
