import Xv6.File.Refs
import Mathlib.Data.Fintype.BigOperators

/-!
# The calls keep the reference counts

What each routine on the file table does to the references of the process that runs it, and from
that the counts between system calls.

A reference belongs to a descriptor or to a call on its way: `filealloc` makes one for its caller,
and `fileclose` takes its caller's.  A call that fails gives back what it has.
-/

namespace Xv6.Files

open Concur

variable {N : ℕ}

/-- The proof: all steps are considered, and `filedup` and `fileclose` must not stop the machine. -/
def rules (N : ℕ) : Rules Panic (St N) (Fin N) (Hold N) where
  inv := Inv
  guarantee _ _ := True
  excluded _ p := p = .filedup ∨ p = .fileclose

/-- Between calls a running process is responsible for its descriptors. -/
structure Rest (l : Hold N) : Prop where
  fresh : l.fresh = ∅
  due : l.due = none
  child : l.child = none
  own : ∀ own, l.own = some own → own = tally l.fds

/-! ## Counting references -/

section Count

variable {own : Fin NFILE → ℕ} {f g : Fin NFILE}

lemma drop_bump (own : Fin NFILE → ℕ) (f : Fin NFILE) : drop (bump own f) f = own := by
  funext g
  by_cases hg : g = f
  · subst hg
    simp
  · rw [drop_of_ne _ hg, bump_of_ne _ hg]

lemma drop_bump_of_ne (own : Fin NFILE → ℕ) (h : f ≠ g) :
    drop (bump own f) g = bump (drop own g) f := by
  funext k
  by_cases hk : k = f
  · subst hk
    rw [drop_of_ne _ h, bump_self, bump_self, drop_of_ne _ h]
  · rw [bump_of_ne _ hk]
    by_cases hkg : k = g
    · subst hkg
      rw [drop_self, drop_self, bump_of_ne _ hk]
    · rw [drop_of_ne _ hkg, drop_of_ne _ hkg, bump_of_ne _ hk]

variable {fds : Fin NOFILE → Option (Fin NFILE)} {fd : Fin NOFILE}

lemma tally_open (h : fds fd = none) (f : Fin NFILE) :
    tally (setAt fds fd (some f)) = bump (tally fds) f := by
  funext g
  have := tally_setAt fds fd (some f) g
  rw [h, if_neg (Option.some_ne_none g).symm] at this
  by_cases hg : g = f
  · subst hg
    rw [if_pos rfl] at this
    rw [bump_self]
    omega
  · rw [if_neg fun he => hg (Option.some.inj he).symm] at this
    rw [bump_of_ne _ hg]
    omega

lemma tally_close (h : fds fd = some f) : tally (setAt fds fd none) = drop (tally fds) f := by
  funext g
  have := tally_setAt fds fd none g
  rw [h, if_neg (Option.some_ne_none g).symm] at this
  by_cases hg : g = f
  · subst hg
    rw [if_pos rfl] at this
    rw [drop_self]
    omega
  · rw [if_neg fun he => hg (Option.some.inj he).symm] at this
    rw [drop_of_ne _ hg]
    omega

lemma setAt_undo (h : fds fd = none) (f : Fin NFILE) :
    setAt (setAt fds fd (some f)) fd none = fds := by
  funext d
  by_cases hd : d = fd
  · subst hd
    rw [setAt_self, h]
  · rw [setAt_of_ne _ _ hd, setAt_of_ne _ _ hd]

lemma setAt_undo_two {fd0 fd1 : Fin NOFILE} (h0 : fds fd0 = none) {f0 f1 : Fin NFILE}
    (h1 : setAt fds fd0 (some f0) fd1 = none) :
    setAt (setAt (setAt (setAt fds fd0 (some f0)) fd1 (some f1)) fd0 none) fd1 none = fds := by
  have hne : fd1 ≠ fd0 := by
    rintro rfl
    rw [setAt_self] at h1
    cases h1
  rw [setAt_of_ne _ _ hne] at h1
  funext d
  by_cases hd1 : d = fd1
  · subst hd1
    rw [setAt_self, h1]
  · rw [setAt_of_ne _ _ hd1]
    by_cases hd0 : d = fd0
    · subst hd0
      rw [setAt_self, h0]
    · rw [setAt_of_ne _ _ hd0, setAt_of_ne _ _ hd1, setAt_of_ne _ _ hd0]

end Count

/-! ## Routines -/

section Routines

variable {t : Fin N} {l : Hold N} {own : Fin NFILE → ℕ} {f : Fin NFILE}

section

variable (hown : l.own = some own)

include hown

lemma filealloc_safe : (rules N).Safe t (.atomic St.filealloc) l fun r l' =>
      match r with
      | none => l' = l
      | some f => own f = 0 ∧
          l' = { l with own := some (bump own f), fresh := insert f l.fresh } := by
  refine .atomic fun m L h hl => ?_
  unfold St.filealloc
  cases hfind : (List.finRange NFILE).find? fun f => (m.file f).ref = 0 with
  | none =>
    exact fun _ => ⟨l, by rwa [← hl, Function.update_eq_self], rfl⟩
  | some f =>
    refine fun _ => ?_
    have hf := List.find?_some hfind
    rw [decide_eq_true_eq] at hf
    have hle := h.refs.le (hl ▸ hown) f
    exact ⟨_, h.filealloc hl hown hf, by omega, rfl⟩

lemma filedup_safe (hf : 1 ≤ own f) (hfresh : f ∉ l.fresh) :
    (rules N).Safe t (.update (St.filedup f)) l fun _ l' =>
      l' = { l with own := some (bump own f) } := by
  refine .update fun m L h hl => ?_
  have hle := h.refs.le (hl ▸ hown) f
  unfold St.filedup
  rw [if_neg (by omega)]
  refine fun _ => ⟨_, h.setRef hl hown hf hfresh (Nat.succ_ne_zero _)
    (fun g hg => bump_of_ne own hg) ?_,
    rfl⟩
  rw [bump_self]
  omega

/-- The section of `fileclose`: after the last reference the process has to give back what was
behind the file. -/
lemma dropFile_safe (hf : 1 ≤ own f) (hdue : l.due = none) :
    (rules N).Safe t (.atomic (St.dropFile f)) l fun r l' =>
      l' = { l with
        own := some (drop own f)
        fresh := l.fresh.erase f
        due := r.bind File.object } := by
  refine .atomic fun m L h hl => ?_
  have hle := h.refs.le (hl ▸ hown) f
  unfold St.dropFile
  rw [if_neg (by omega)]
  split
  · rename_i hlast
    refine fun _ => ?_
    -- a file with two references is not one that is being made
    have hfresh : f ∉ l.fresh := by
      intro hfr
      have := (h.kinds.fresh t f (hl ▸ hfr)).2.1
      omega
    refine ⟨_, h.setRef hl hown hf hfresh (by omega) (fun g hg => drop_of_ne own hg) ?_, ?_⟩
    · rw [drop_self]
      omega
    · dsimp only
      rw [Finset.erase_eq_of_notMem hfresh, Option.bind_none, ← hdue]
  · exact fun _ => ⟨_, h.dropLast hl hown hf (by omega) hdue, rfl⟩

lemma pipeclose_safe {pi : ℕ} {w : Bool} (hdue : l.due = some (.pipeEnd pi w)) :
    (rules N).Safe t (pipeclose pi w) l fun _ l' => l' = { l with due := none } := by
  refine .seq (P := fun r l' =>
    l' = { l with due := if r = true then some (.page pi) else none })
    (.atomic fun m L h hl _ => ⟨_, h.closeEnd hl hown hdue rfl, rfl⟩) ?_
  rintro r l' rfl
  cases r
  · exact .ret rfl
  · exact .modify fun m L h hl _ => ⟨_, h.freePipe hl hown rfl, rfl⟩

lemma giveBack_safe (ff : File) (hdue : l.due = ff.object) : (rules N).Safe t (match ff.type with
      | .pipe => pipeclose ff.pipe ff.writable
      | .inode | .device => .modify (St.iput ff.ip)
      | .none => pure ()) l fun _ l' => l' = { l with due := none } := by
  cases htype : ff.type with
  | none =>
    simp only [File.object, htype] at hdue
    refine .ret ?_
    rw [← hdue]
  | pipe =>
    simp only [File.object, htype] at hdue
    exact pipeclose_safe hown hdue
  | inode | device =>
    simp only [File.object, htype] at hdue
    exact .modify fun m L h hl _ => ⟨_, Inv.iput h hl hown hdue, rfl⟩

lemma fileclose_safe (hf : 1 ≤ own f) (hdue : l.due = none) :
    (rules N).Safe t (fileclose f) l fun _ l' =>
      l' = { l with own := some (drop own f), fresh := l.fresh.erase f } := by
  refine .seq (dropFile_safe hown hf hdue) ?_
  rintro r l' rfl
  cases r with
  | none => exact .ret (by rw [hdue]; rfl)
  | some ff =>
    refine Rules.Safe.mono (giveBack_safe rfl ff rfl) ?_
    rintro - l' rfl
    rw [hdue]

lemma setFd_safe (fd : Fin NOFILE) (x : Option (Fin NFILE)) :
    (rules N).Safe t (.modify (St.setFd t fd x)) l fun _ l' =>
      l' = { l with fds := setAt l.fds fd x } :=
  Rules.Safe.modify fun _ _ h hl _ => ⟨_, h.setFd hl hown fd x, rfl⟩

lemma fdalloc_safe (f : Fin NFILE) : (rules N).Safe t (.atomic (St.fdalloc t f)) l fun r l' =>
      match r with
      | none => l' = l
      | some fd => l.fds fd = none ∧ l' = { l with fds := setAt l.fds fd (some f) } := by
  refine .atomic fun m L h hl => ?_
  unfold St.fdalloc
  cases hfind : (List.finRange NOFILE).find? fun fd => (m.ofile (t, fd)).isNone with
  | none =>
    exact fun _ => ⟨l, by rwa [← hl, Function.update_eq_self], rfl⟩
  | some fd =>
    refine fun _ => ?_
    have hfd := List.find?_some hfind
    refine ⟨_, h.setFd hl hown fd (some f), ?_, rfl⟩
    rw [← hl, ← (h.slots.mine t own (hl ▸ hown)).2 fd]
    exact Option.isNone_iff_eq_none.1 hfd

lemma ofile_safe (fd : Fin NOFILE) :
    (rules N).Safe t (.read fun m => m.ofile (t, fd)) l fun r l' => r = l.fds fd ∧ l' = l :=
  Rules.ActSafe.of_read fun m L h hl =>
    ⟨by rw [← hl]; exact (h.slots.mine t own (hl ▸ hown)).2 fd, rfl⟩

lemma argfd_safe (fd : ℤ) :
    (rules N).Safe t (argfd t fd) l fun r l' => (∀ x ∈ r, l.fds x.1 = some x.2) ∧ l' = l := by
  refine Rules.ActSafe.of_read fun m L h hl => ⟨fun x hx => ?_, rfl⟩
  rw [← hl, ← (h.slots.mine t own (hl ▸ hown)).2 x.1]
  split at hx
  · obtain ⟨f, hf, rfl⟩ := Option.map_eq_some_iff.1 hx
    exact hf
  · cases hx

lemma openPipe_safe {f0 f1 : Fin NFILE} (hne : f1 ≠ f0)
    (h0 : f0 ∈ l.fresh) (h1 : f1 ∈ l.fresh) (hdue : l.due = none) :
    (rules N).Safe t (.modify (St.openPipe f0 f1)) l fun _ l' =>
      l' = { l with fresh := (l.fresh.erase f0).erase f1 } :=
  Rules.Safe.modify fun _ _ h hl _ => ⟨_, h.openPipe hl hown hne h0 h1 hdue, rfl⟩

lemma openFile_safe (hf : f ∈ l.fresh) (ip : ℕ) (device readable writable : Bool) :
    (rules N).Safe t (.modify (St.openFile f ip device readable writable)) l fun _ l' =>
      l' = { l with fresh := l.fresh.erase f } :=
  Rules.Safe.modify fun _ _ h hl _ => ⟨_, h.openFile hl hown hf ip device readable writable, rfl⟩

lemma pipealloc_safe (hfresh : l.fresh = ∅) (hdue : l.due = none) (page : Bool) :
    (rules N).Safe t (pipealloc page) l fun r l' =>
      match r with
      | none => l' = l
      | some (f0, f1) => f0 ≠ f1 ∧ l' = { l with own := some (bump (bump own f0) f1) } := by
  refine .seq (filealloc_safe hown) ?_
  rintro (_ | f0) l' hl'
  · exact .ret hl'
  obtain ⟨hf0, rfl⟩ := hl'
  refine .seq (filealloc_safe rfl) ?_
  rintro (_ | f1) l' hl'
  · -- there is no second file: the first one is dropped again
    subst hl'
    refine .seq (fileclose_safe rfl (by rw [bump_self]; omega) hdue) ?_
    rintro - l' rfl
    refine .ret ?_
    simp only [drop_bump, ← hown, hfresh, Finset.erase_insert_eq_erase, Finset.erase_empty]
    rw [← hfresh]
  obtain ⟨hf1, rfl⟩ := hl'
  have hne : f1 ≠ f0 := by
    rintro rfl
    rw [bump_self] at hf1
    omega
  have hset : ((insert f1 (insert f0 l.fresh)).erase f0).erase f1 = l.fresh := by
    rw [hfresh]
    ext g
    simp only [Finset.mem_erase, Finset.mem_insert, Finset.notMem_empty]
    tauto
  cases page
  · refine .seq (fileclose_safe rfl ?_ hdue) ?_
    · rw [bump_of_ne _ hne.symm, bump_self]
      omega
    rintro - l' rfl
    refine .seq (fileclose_safe rfl ?_ hdue) ?_
    · rw [drop_of_ne _ hne, bump_self]
      omega
    rintro - l' rfl
    refine .ret ?_
    rw [drop_bump_of_ne _ hne, drop_bump, drop_bump, hset, ← hown]
  · refine .seq (openPipe_safe rfl hne ?_ ?_ hdue) ?_
    · exact Finset.mem_insert_of_mem (Finset.mem_insert_self f0 _)
    · exact Finset.mem_insert_self f1 _
    · rintro - l' rfl
      refine .ret ⟨hne.symm, ?_⟩
      rw [hset]

end

end Routines

/-! ## System calls -/

section Calls

variable {t : Fin N} {l : Hold N} {own : Fin NFILE → ℕ}

section

variable (hown : l.own = some own) (hl : Rest l)

include hown hl

lemma sysDup_safe (fd : ℤ) : (rules N).Safe t (sysDup t fd) l fun _ l' => Rest l' := by
  have htally := hl.own own hown
  refine .seq (argfd_safe hown fd) ?_
  rintro (_ | ⟨fd, f⟩) l' ⟨hfd, rfl⟩
  · exact .ret hl
  · have hfd := hfd _ rfl
    refine .seq (fdalloc_safe hown f) ?_
    rintro (_ | fd') l'' hl''
    · subst hl''
      exact .ret hl
    obtain ⟨hfree, rfl⟩ := hl''
    refine .seq (filedup_safe hown ?_ ?_) ?_
    · rw [htally]
      exact le_tally hfd
    · simp [hl.fresh]
    rintro - l'' rfl
    refine .ret ⟨hl.fresh, hl.due, hl.child, fun own1 h₁ => ?_⟩
    cases h₁
    rw [tally_open hfree, htally]

lemma sysClose_safe (fd : ℤ) : (rules N).Safe t (sysClose t fd) l fun _ l' => Rest l' := by
  have htally := hl.own own hown
  refine .seq (argfd_safe hown fd) ?_
  rintro (_ | ⟨fd, f⟩) l' ⟨hfd, rfl⟩
  · exact .ret hl
  · have hfd := hfd _ rfl
    refine .seq (setFd_safe hown fd none) ?_
    rintro - l'' rfl
    refine .seq (fileclose_safe hown ?_ hl.due) ?_
    · rw [htally]
      exact le_tally hfd
    rintro - l'' rfl
    refine .ret ⟨?_, hl.due, hl.child, fun own1 h₁ => ?_⟩
    · simp [hl.fresh]
    · cases h₁
      rw [tally_close hfd, htally]

lemma sysOpen_safe (ip : Option ℕ) (device readable writable : Bool) :
    (rules N).Safe t (sysOpen t ip device readable writable) l fun _ l' => Rest l' := by
  have htally := hl.own own hown
  cases ip with
  | none => exact .ret hl
  | some ip =>
    refine .seq (filealloc_safe hown) ?_
    rintro (_ | f) l' hl'
    · subst hl'
      exact .ret hl
    obtain ⟨-, rfl⟩ := hl'
    have hset : (insert f l.fresh).erase f = ∅ := by
      rw [hl.fresh, Finset.erase_insert_eq_erase, Finset.erase_empty]
    refine .seq (fdalloc_safe rfl f) ?_
    rintro (_ | fd) l' hl'
    · subst hl'
      refine .seq (fileclose_safe rfl (by rw [bump_self]; omega) hl.due) ?_
      rintro - l' rfl
      refine .ret ⟨hset, hl.due, hl.child, fun own1 h₁ => ?_⟩
      cases h₁
      rw [drop_bump, htally]
    · obtain ⟨hfree, rfl⟩ := hl'
      refine .seq (openFile_safe rfl (Finset.mem_insert_self f _) ip device readable
        writable) ?_
      rintro - l' rfl
      refine .ret ⟨hset, hl.due, hl.child, fun own1 h₁ => ?_⟩
      cases h₁
      rw [tally_open hfree, htally]

end

lemma closeBoth_safe {f0 f1 : Fin NFILE} (hne : f0 ≠ f1) (hl : Rest l) {l' : Hold N}
    (hl' : l' = { l with own := some (bump (bump (tally l.fds) f0) f1) }) (r : ℤ) :
    (rules N).Safe t (do fileclose f0; fileclose f1; pure r) l' fun _ l' => Rest l' := by
  subst hl'
  refine .seq (fileclose_safe rfl ?_ hl.due) ?_
  · rw [bump_of_ne _ hne, bump_self]
    omega
  rintro - l' rfl
  refine .seq (fileclose_safe rfl ?_ hl.due) ?_
  · rw [drop_of_ne _ hne.symm, bump_self]
    omega
  rintro - l' rfl
  refine .ret ⟨?_, hl.due, hl.child, fun own1 h₁ => ?_⟩
  · simp [hl.fresh]
  · cases h₁
    rw [drop_bump_of_ne _ hne.symm, drop_bump, drop_bump]

lemma sysPipe_safe (hown : l.own = some own) (hl : Rest l) (page copyout : Bool) :
    (rules N).Safe t (sysPipe t page copyout) l fun _ l' => Rest l' := by
  have htally := hl.own own hown
  refine .seq (pipealloc_safe hown hl.fresh hl.due page) ?_
  rintro (_ | ⟨rf, wf⟩) l' hl'
  · subst hl'
    exact .ret hl
  obtain ⟨hne, rfl⟩ := hl'
  rw [htally]
  refine .seq (fdalloc_safe rfl rf) ?_
  rintro (_ | fd0) l' hl'
  · exact closeBoth_safe hne hl hl' (-1)
  obtain ⟨hfree0, rfl⟩ := hl'
  refine .seq (fdalloc_safe rfl wf) ?_
  rintro (_ | fd1) l' hl'
  · subst hl'
    refine .seq (setFd_safe rfl fd0 none) ?_
    rintro - l' rfl
    refine closeBoth_safe hne hl ?_ (-1)
    simp only [setAt_undo hfree0]
  obtain ⟨hfree1, rfl⟩ := hl'
  cases copyout
  · refine .seq (setFd_safe rfl fd0 none) ?_
    rintro - l' rfl
    refine .seq (setFd_safe rfl fd1 none) ?_
    rintro - l' rfl
    refine closeBoth_safe hne hl ?_ (-1)
    simp only [setAt_undo_two hfree0 hfree1]
  · refine .ret ⟨hl.fresh, hl.due, hl.child, fun own1 h₁ => ?_⟩
    cases h₁
    rw [tally_open hfree1, tally_open hfree0]

lemma allocproc_safe (hown : l.own = some own) :
    (rules N).Safe t (.firstOf N fun p => .atomic (St.allocAt p)) l fun r l' =>
      match r with
      | none => l' = l
      | some np => l' = { l with child := some (np, 0) } := by
  refine .firstOf rfl fun p => .atomic fun m L h hl => ?_
  unfold St.allocAt
  by_cases hs : m.state p = .unused
  · rw [if_pos hs]
    exact fun _ => ⟨_, h.allocproc hl hown hs, rfl⟩
  · rw [if_neg hs]
    exact fun _ => ⟨l, by rwa [← hl, Function.update_eq_self], rfl⟩

lemma dupInto_safe (hown : l.own = some (tally l.fds)) (hfresh : l.fresh = ∅) {np : Fin N}
    {fd : Fin NOFILE} (hchild : l.child = some (np, fd.val)) :
    (rules N).Safe t (.update (St.dupInto t np fd)) l fun _ l' =>
      l' = { l with child := some (np, fd + 1) } := by
  refine .update fun m L h hl => ?_
  have hmine := (h.slots.mine t _ (hl ▸ hown)).2 fd
  rw [hl] at hmine
  unfold St.dupInto
  rw [hmine]
  cases hfd : l.fds fd with
  | none =>
    exact fun _ => ⟨_, h.advance hl hown hchild, rfl⟩
  | some f =>
    have hf := le_tally hfd
    have hle := h.refs.le (t := t) (by rw [hl]; exact hown) f
    simp only [St.filedup]
    rw [if_neg (by omega)]
    exact fun _ => ⟨_, h.dupInto hl hown hchild hf (by simp [hfresh]), rfl⟩

section

variable (hown : l.own = some own)

include hown

lemma release_safe {np : Fin N} {j : ℕ}
    (hchild : l.child = some (np, j)) {x : Status} (hx : x = .runnable ∨ x = .unused ∧ j = 0) :
    (rules N).Safe t (.modify (St.setState np x)) l fun _ l' => l' = { l with child := none } :=
  Rules.Safe.modify fun _ _ h hl _ => ⟨_, h.release hl hown hchild hx, rfl⟩

lemma fork_safe (hl : Rest l) (memory : Bool) :
    (rules N).Safe t (fork t memory) l fun _ l' => Rest l' := by
  rw [hl.own own hown] at hown
  refine .seq (allocproc_safe hown) ?_
  rintro (_ | np) l' rfl
  · exact .ret hl
  have hback : Rest ({ l with child := none } : Hold N) := ⟨hl.fresh, hl.due, rfl, hl.own⟩
  cases memory
  · refine .seq (release_safe (l := { l with child := some (np, 0) }) hown rfl
      (Or.inr ⟨rfl, rfl⟩)) ?_
    rintro - l' rfl
    exact .ret hback
  · refine .seq (P := fun _ l' => l' = { l with child := some (np, NOFILE) })
      (.forRange (fun i l' => l' = { l with child := some (np, i) }) rfl ?_
        fun l' hl' => hl') ?_
    · rintro fd l' rfl
      exact dupInto_safe (l := { l with child := some (np, fd) }) hown hl.fresh rfl
    · rintro - l' rfl
      refine .seq (release_safe (l := { l with child := some (np, NOFILE) }) hown rfl
        (Or.inl rfl)) ?_
      rintro - l' rfl
      exact .ret hback

lemma exitClose_safe (hl : Rest l) (fd : Fin NOFILE) : (rules N).Safe t (do
      match ← .read fun m => m.ofile (t, fd) with
      | none => pure ()
      | some f => do
        fileclose f
        .modify (St.setFd t fd none)) l fun _ l' => Rest l' ∧ l'.own ≠ none ∧
          l'.fds = setAt l.fds fd none := by
  have htally := hl.own own hown
  refine .seq (ofile_safe hown fd) ?_
  rintro r l' ⟨rfl, rfl⟩
  cases hfd : l'.fds fd with
  | none =>
    refine .ret ⟨hl, by simp [hown], ?_⟩
    rw [← hfd, setAt_eq_self]
  | some f =>
    refine .seq (fileclose_safe hown ?_ hl.due) ?_
    · rw [htally]
      exact le_tally hfd
    rintro - l'' rfl
    refine (setFd_safe rfl fd none).mono ?_
    rintro - l'' rfl
    refine ⟨⟨?_, hl.due, hl.child, fun own1 h₁ => ?_⟩, by simp, rfl⟩
    · simp [hl.fresh]
    · cases h₁
      rw [tally_close hfd, htally]

lemma exit_safe (hl : Rest l) : (rules N).Safe t (exit t) l fun _ l' => Rest l' := by
  refine .seq (P := fun _ l' => Rest l' ∧ l'.own ≠ none ∧ ∀ fd, l'.fds fd = none)
    (.forRange (fun i l' => Rest l' ∧ l'.own ≠ none ∧
      ∀ fd : Fin NOFILE, fd < i → l'.fds fd = none) ?_ ?_ ?_) ?_
  · exact ⟨hl, by simp [hown], fun fd hfd => absurd hfd (Nat.not_lt_zero _)⟩
  · rintro i l' ⟨hrest, hne, hclosed⟩
    obtain ⟨own', hown'⟩ := Option.ne_none_iff_exists'.1 hne
    refine (exitClose_safe hown' hrest i).mono ?_
    rintro - l'' ⟨hrest', hne', hfds⟩
    refine ⟨hrest', hne', fun fd hfd => ?_⟩
    rw [hfds]
    by_cases hi : fd = i
    · rw [hi, setAt_self]
    · rw [setAt_of_ne _ _ hi]
      refine hclosed fd ?_
      have := Fin.val_ne_of_ne hi
      omega
  · rintro l' ⟨hrest, hne, hclosed⟩
    exact ⟨hrest, hne, fun fd => hclosed fd fd.isLt⟩
  · rintro - l' ⟨hrest, hne, hclosed⟩
    obtain ⟨own', hown'⟩ := Option.ne_none_iff_exists'.1 hne
    refine .modify fun m L h hl _ => ⟨_, Inv.zombie h hl hown' (fun f => ?_) hclosed
      hrest.fresh hrest.child, hrest.fresh, hrest.due, hrest.child, by rintro _ ⟨⟩⟩
    rw [hrest.own own' hown', tally_eq_zero hclosed]

end

lemma start_safe (hl : Rest l) : (rules N).Safe t (.update (St.start t)) l fun _ l' => Rest l' := by
  refine .update fun m L h hl' => ?_
  unfold St.start
  split
  · rename_i hs
    refine fun _ => ⟨_, h.start hl' hs hl.due hl.fresh, ?_⟩
    exact ⟨rfl, rfl, rfl, fun own h₁ => (Option.some.inj h₁).symm⟩
  · exact trivial

lemma reap_safe (hl : Rest l) (p : Fin N) :
    (rules N).Safe t (.modify (St.reap p)) l fun _ l' => Rest l' := by
  refine .modify fun m L h hl' _ => ⟨l, ?_, hl⟩
  rw [← hl', Function.update_eq_self]
  exact h.reap p

end Calls

/-! ## Runs -/

lemma calls_safe : (kernel N).CallsSafe (rules N) fun _ l => Rest l := by
  intro t c m L h hrest hguard
  have hrunning : m.state t = .running → ∃ own, (L t).own = some own :=
    fun hs => Option.ne_none_iff_exists'.1 (h.slots.runs t hs)
  cases c with
  | start => exact start_safe hrest
  | «open» ip device readable writable =>
    obtain ⟨own, hown⟩ := hrunning hguard
    exact (sysOpen_safe hown hrest ip device readable writable).seq fun _ _ h => h
  | dup fd =>
    obtain ⟨own, hown⟩ := hrunning hguard
    exact (sysDup_safe hown hrest fd).seq fun _ _ h => h
  | pipe page copyout =>
    obtain ⟨own, hown⟩ := hrunning hguard
    exact (sysPipe_safe hown hrest page copyout).seq fun _ _ h => h
  | close fd =>
    obtain ⟨own, hown⟩ := hrunning hguard
    exact (sysClose_safe hown hrest fd).seq fun _ _ h => h
  | fork memory =>
    obtain ⟨own, hown⟩ := hrunning hguard
    exact (fork_safe hown hrest memory).seq fun _ _ h => h
  | exec => exact hrest
  | exit =>
    obtain ⟨own, hown⟩ := hrunning hguard
    exact exit_safe hown hrest
  | wait p => exact reap_safe hrest p

lemma start_sound (ini : Fin N) :
    Kernel.Sound (rules N) (fun _ l => Rest l) (Sys.start (init ini)) := by
  refine Kernel.Sound.of_start (L := fun _ => ⟨none, fun _ => none, ∅, none, none⟩)
    ⟨fun f => ?_, ⟨fun f _ => rfl, fun f _ => Or.inl rfl, fun t f hf => ?_⟩,
      ⟨fun o => ?_, fun pi hpi => ?_⟩, ⟨fun t ht => ?_, fun t own ht => ?_, fun _ _ _ => rfl,
        fun t np j ht => ?_, fun t u np j k ht => ?_⟩⟩
    fun t => ⟨rfl, rfl, rfl, by rintro _ ⟨⟩⟩
  · have hshare : ∀ p, share (init ini) (fun _ => ⟨none, fun _ => none, ∅, none, none⟩) p f = 0 :=
      fun p => tally_eq_zero (fun _ => rfl) f
    simp only [hshare, Finset.sum_const_zero]
    rfl
  · exact absurd hf (Finset.notMem_empty f)
  · cases o <;> simp [gained, spent, behind, owed, init, File.object]
  · exact absurd hpi (Nat.not_lt_zero pi)
  · simp only [init] at ht
    split at ht <;> cases ht
  · cases ht
  · cases ht
  · cases ht

lemma Inv.ref_eq_descriptors {m : St N} {L : Fin N → Hold N} (h : Inv m L)
    (hrest : ∀ t, Rest (L t)) (f : Fin NFILE) : (m.file f).ref = descriptors m f := by
  have hshare : ∀ p, share m L p f = tally (fun fd => m.ofile (p, fd)) f := by
    intro p
    cases hown : (L p).own with
    | none => exact share_of_none hown f
    | some own =>
      rw [share_of_own hown f, (hrest p).own own hown]
      congr 1
      funext fd
      exact ((h.slots.mine p own hown).2 fd).symm
  rw [h.refs f, descriptors, Finset.card_filter, Fintype.sum_prod_type]
  exact Finset.sum_congr rfl fun p _ => hshare p

lemma Inv.balance_of_rest {m : St N} {L : Fin N → Hold N} (h : Inv m L)
    (hrest : ∀ t, Rest (L t)) (o : Obj) : gained m o = spent m o + behind m o := by
  have howed : ∀ t, owed (L t) o = 0 := fun t => by simp [owed, (hrest t).due]
  rw [h.objects.balance o]
  simp only [howed, Finset.sum_const_zero, Nat.add_zero]

lemma behind_inode (m : St N) (ip : ℕ) : behind m (.inode ip) = inodeFiles m ip := by
  rw [behind, inodeFiles, Finset.card_filter]
  refine Finset.sum_congr rfl fun f _ => if_congr ?_ rfl rfl
  cases htype : (m.file f).type <;> simp [File.object, htype]

lemma behind_pipeEnd (m : St N) (pi : ℕ) (w : Bool) :
    behind m (.pipeEnd pi w) = pipeFiles m pi w := by
  rw [behind, pipeFiles, Finset.card_filter]
  refine Finset.sum_congr rfl fun f _ => if_congr ?_ rfl rfl
  cases htype : (m.file f).type <;> simp [File.object, htype]

lemma behind_page (m : St N) (pi : ℕ) : behind m (.page pi) = 0 := by
  refine Finset.sum_eq_zero fun f _ => if_neg ?_
  cases htype : (m.file f).type <;> simp [File.object, htype]

/-- The counts of every run.  Between system calls `f->ref` is the number of descriptors of the
file, and the files in use are those with a type.  Each reference to an inode that an open file
took over is behind a file or was given back once, each end of a pipe is behind one file or was
closed once, and the page of a pipe was freed, once, if both ends are closed.  At no time
does `filedup` or `fileclose` stop the machine. -/
theorem file_references {ini : Fin N} {S : Sys Panic (St N) (Fin N)}
    (h : (kernel N).Reachable (Sys.start (init ini)) S) :
    (S.Quiet →
      (∀ f, (S.mem.file f).ref = descriptors S.mem f ∧
        ((S.mem.file f).ref = 0 ↔ (S.mem.file f).type = .none)) ∧
      (∀ ip, S.mem.taken ip = S.mem.put ip + inodeFiles S.mem ip) ∧
      ∀ pi, pi < S.mem.npipe →
        (∀ w, (S.mem.pipe pi).closes w + pipeFiles S.mem pi w = 1) ∧
        (S.mem.pipe pi).frees =
          if (S.mem.pipe pi).closes false = 1 ∧ (S.mem.pipe pi).closes true = 1 then 1 else 0) ∧
    ¬ Kernel.Panics S .filedup ∧ ¬ Kernel.Panics S .fileclose := by
  have hsound := Kernel.invariant calls_safe (start_sound ini) h
  refine ⟨fun hq => ?_, hsound.not_panics (Or.inl rfl), hsound.not_panics (Or.inr rfl)⟩
  obtain ⟨L, hinv, hrest⟩ := hsound.rest_of_quiet hq
  have hbal := hinv.balance_of_rest hrest
  refine ⟨fun f => ⟨hinv.ref_eq_descriptors hrest f, hinv.kinds.zero f, fun hnone => ?_⟩,
    fun ip => ?_, fun pi hpi => ?_⟩
  · rcases hinv.kinds.untyped f hnone with h0 | ⟨t, ht⟩
    · exact h0
    · rw [(hrest t).fresh] at ht
      exact absurd ht (Finset.notMem_empty f)
  · rw [← behind_inode]
    exact hbal (.inode ip)
  · have hend : ∀ w, (S.mem.pipe pi).closes w + pipeFiles S.mem pi w = 1 := by
      intro w
      have := hbal (.pipeEnd pi w)
      rw [behind_pipeEnd] at this
      simpa only [gained, spent, if_pos hpi] using this.symm
    refine ⟨hend, ?_⟩
    have hpage := hbal (.page pi)
    rw [behind_page, Nat.add_zero] at hpage
    obtain ⟨hread, hwrite⟩ := hinv.objects.flags pi hpi
    simp only [gained, spent, hpi, hread, hwrite, true_and] at hpage
    rw [← hpage]
    have h0 := hend false
    have h1 := hend true
    refine if_congr ?_ rfl rfl
    omega

/-- A process makes a pipe, closes the read end and copies the write end: the file at the write end
has two descriptors, and the page is still there. -/
theorem file_references_halfClosed : ∃ S : Sys Panic (St 1) (Fin 1),
    (kernel 1).Reachable (Sys.start (init 0)) S ∧ S.Quiet ∧
    (S.mem.pipe 0).closes false = 1 ∧ descriptors S.mem 1 = 2 ∧ (S.mem.pipe 0).frees = 0 := by
  obtain ⟨S, hr, hok⟩ := Kernel.exec_reaches
    ([.call 0 .start, .run 0, .call 0 (.pipe true true)] ++ List.replicate 5 (.run 0) ++
      [.call 0 (.close 0)] ++ List.replicate 4 (.run 0) ++
      [.call 0 (.dup 1)] ++ List.replicate 3 (.run 0))
    (K := kernel 1) (S := Sys.start (init 0))
    (fun S => decide ((S.thr 0).done = true ∧ (S.mem.pipe 0).closes false = 1 ∧
      (S.mem.pipe 0).closes true = 0 ∧ S.mem.npipe = 1 ∧ (S.mem.file 1).ref = 2))
    (by decide +kernel)
  obtain ⟨hdone, hread, hwrite, hnpipe, href⟩ := of_decide_eq_true hok
  have hq : S.Quiet := fun t => by
    rw [Subsingleton.elim t 0]
    exact Prog.eq_ret_of_done hdone
  obtain ⟨hfiles, -, hpipes⟩ := (file_references hr).1 hq
  refine ⟨S, hr, hq, hread, by rw [← (hfiles 1).1, href], ?_⟩
  rw [(hpipes 0 (by omega)).2, if_neg (by omega)]

end Xv6.Files
