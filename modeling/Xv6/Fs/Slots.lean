import Xv6.Framework.Ends
import Xv6.Fs.Calls
import Xv6.Fs.Tree

/-!
# The inode table while one process runs

A process that runs a call alone finds the inode table as the others left it: they hold references
(`base`) and no locks.  It adds references of its own (`own`) and takes locks.  `Holding` says how
the table looks then, and keeps two more accounts: the file system on the blocks is well-formed, and
the log holds blocks of the set `K` and at most `n` others.  Every routine of the table is specified
by how it changes the accounts; what a call returns with is then read off the accounts at its end.

A slot that is in use keeps its inode (`Frame`).  The references that a caller holds on to while it
calls a routine are part of the routine's `base`.
-/

namespace Xv6.Fs

open Concur

/-- The log holds, each once, blocks of `K` and at most `n` others. -/
structure LogIn (K : Finset ℕ) (n : ℕ) (l : Log) : Prop where
  nodup : l.lh.Nodup
  mem : ∃ Y : Finset ℕ, Y.card ≤ n ∧ ∀ b ∈ l.lh, b ∈ K ∪ Y

lemma LogIn.length_le {K : Finset ℕ} {n : ℕ} {l : Log} (h : LogIn K n l) :
    l.lh.length ≤ K.card + n := by
  obtain ⟨Y, hY, hmem⟩ := h.mem
  have hsub : l.lh.toFinset ⊆ K ∪ Y := fun b hb => hmem b (List.mem_toFinset.1 hb)
  have h₁ := Finset.card_le_card hsub
  have h2 := Finset.card_union_le K Y
  rw [List.toFinset_card_of_nodup h.nodup] at h₁
  omega

lemma LogIn.within {K X Y : Finset ℕ} {n m : ℕ} {l l' : Log} (h : LogIn K n l)
    (hl : Log.Within (X ∪ Y) l l') (hY : Y.card ≤ m) : LogIn (K ∪ X) (n + m) l' := by
  obtain ⟨Z, hZ, hmem⟩ := h.mem
  refine ⟨hl.nodup h.nodup, Z ∪ Y, ?_, fun b hb => ?_⟩
  · exact (Finset.card_union_le Z Y).trans (by omega)
  · simp only [Finset.mem_union]
    rcases hl.mem b hb with hb | hb
    · have := hmem b hb
      rw [Finset.mem_union] at this
      tauto
    · rw [Finset.mem_union] at hb
      tauto

lemma LogIn.mono {K K' : Finset ℕ} {n n' : ℕ} {l : Log} (h : LogIn K n l) (hK : K ⊆ K')
    (hn : n ≤ n') : LogIn K' n' l := by
  obtain ⟨Y, hY, hmem⟩ := h.mem
  exact ⟨h.nodup, Y, hY.trans hn, fun b hb => Finset.union_subset_union_left hK (hmem b hb)⟩

lemma LogIn.of_nil {l : Log} (h : l.lh = []) (K : Finset ℕ) (n : ℕ) : LogIn K n l := by
  refine ⟨by rw [h]; exact List.nodup_nil, ∅, Nat.zero_le _, fun b hb => ?_⟩
  rw [h] at hb
  cases hb

variable {N : ℕ}

lemma St.setInode_self (s : St N) (k : Fin NINODE) (x : Inode N) : (s.setInode k x).itable k = x :=
  setAt_self _ _ _

lemma St.setInode_same {s : St N} {k : Fin NINODE} {x : Inode N}
    (hinum : x.inum = (s.itable k).inum) (hvalid : x.valid = (s.itable k).valid)
    (j : Fin NINODE) : ((s.setInode k x).itable j).inum = (s.itable j).inum ∧
      ((s.setInode k x).itable j).valid = (s.itable j).valid :=
  ⟨map_setAt _ hinum j, map_setAt _ hvalid j⟩

/-- The log is within a bound that `B` allows. -/
def Fits (B : Finset ℕ → ℕ → Prop) (s : St N) : Prop := ∃ K n, LogIn K n s.log ∧ B K n

/-- One reference to the slot `k`. -/
def one (k : Fin NINODE) : Fin NINODE → ℕ := fun j => if j = k then 1 else 0

@[simp] lemma one_self (k : Fin NINODE) : one k k = 1 := if_pos rfl

lemma one_of_ne {j k : Fin NINODE} (h : j ≠ k) : one k j = 0 := if_neg h

lemma add_one_self (own : Fin NINODE → ℕ) (k : Fin NINODE) : (own + one k) k = own k + 1 := by
  rw [Pi.add_apply, one_self]

lemma add_one_of_ne (own : Fin NINODE → ℕ) {j k : Fin NINODE} (h : j ≠ k) :
    (own + one k) j = own j := by
  rw [Pi.add_apply, one_of_ne h, Nat.add_zero]

/-- The process `t` runs alone.  The others hold the references `base` and no locks; `t` holds the
references `own` besides, and the locks `L`. -/
structure Holding (B : Finset ℕ → ℕ → Prop) (G : Geometry) (t : Fin N)
    (base own : Fin NINODE → ℕ) (L : Finset (Fin NINODE)) (K : Finset ℕ) (n : ℕ) (s : St N) :
    Prop where
  fs : FsOk G s.blk
  ref_eq : ∀ k, (s.itable k).ref = base k + own k
  lock_eq : ∀ k, (s.itable k).lock = if k ∈ L then some t else none
  locked : ∀ k, k ∈ L → 0 < base k + own k ∧ (s.itable k).valid = true
  inj : ∀ j k, 0 < base j + own j → 0 < base k + own k →
    (s.itable j).inum = (s.itable k).inum → j = k
  lt : ∀ k, 0 < base k + own k → (s.itable k).inum < G.ninodes
  copy : ∀ k, 0 < base k + own k → (s.itable k).valid = true →
    (s.itable k).d = G.din s.blk (s.itable k).inum ∧ (s.itable k).d.type ≠ 0
  alloc : ∀ k, 0 < base k → (G.din s.blk (s.itable k).inum).type ≠ 0
  log : LogIn K n s.log
  fits : B K n

/-- Only blocks, the list of logged blocks and the inode table have changed, and the slots with
references keep their inodes. -/
structure Frame (base : Fin NINODE → ℕ) (s s' : St N) : Prop where
  rest : s' = { s with
    blk := s'.blk
    log := { s.log with lh := s'.log.lh }
    itable := s'.itable }
  inum : ∀ k, 0 < base k → (s'.itable k).inum = (s.itable k).inum

namespace Frame

variable {base base' : Fin NINODE → ℕ} {s s' s'' : St N}

lemma refl (base : Fin NINODE → ℕ) (s : St N) : Frame base s s := ⟨rfl, fun _ _ => rfl⟩

lemma trans (h : Frame base s s') (h' : Frame base s' s'') : Frame base s s'' := by
  refine ⟨?_, fun k hk => (h'.inum k hk).trans (h.inum k hk)⟩
  rw [h'.rest, h.rest]

lemma mono (h : Frame base s s') (hle : ∀ k, base' k ≤ base k) : Frame base' s s' :=
  ⟨h.rest, fun k hk => h.inum k (hk.trans_le (hle k))⟩

lemma left {own : Fin NINODE → ℕ} (h : Frame (base + own) s s') : Frame base s s' :=
  h.mono fun _ => Nat.le_add_right _ _

lemma proc (h : Frame base s s') : s'.proc = s.proc := by rw [h.rest]

lemma ftable (h : Frame base s s') : s'.ftable = s.ftable := by rw [h.rest]

end Frame

section

variable {B : Finset ℕ → ℕ → Prop} {G : Geometry} {t : Fin N} {base own : Fin NINODE → ℕ}
  {L : Finset (Fin NINODE)} {K : Finset ℕ} {n : ℕ} {s s' : St N} {stop : Option Panic → Prop}
  {k : Fin NINODE}

namespace Holding

section

variable (h : Holding B G t base own L K n s)

include h

lemma toFits : Fits B s := ⟨K, n, h.log, h.fits⟩

lemma held (hk : k ∈ L) :
    Held G (s.itable k).inum ⟨s.blk, s.log, (s.itable k).d⟩ := by
  obtain ⟨hpos, hvalid⟩ := h.locked k hk
  obtain ⟨heq, htype⟩ := h.copy k hpos hvalid
  exact ⟨h.fs, h.lt k hpos, heq, htype⟩

lemma d_eq (hk : k ∈ L) : (s.itable k).d = G.din s.blk (s.itable k).inum :=
  (h.held hk).eq

lemma regroup {base' own' : Fin NINODE → ℕ} (heq : ∀ j, base' j + own' j = base j + own j)
    (halloc : ∀ j, 0 < base' j → (G.din s.blk (s.itable j).inum).type ≠ 0) :
    Holding B G t base' own' L K n s := by
  refine ⟨h.fs, ?_, h.lock_eq, ?_, ?_, ?_, ?_, halloc, h.log, h.fits⟩
  · simpa only [heq] using h.ref_eq
  · simpa only [heq] using h.locked
  · simpa only [heq] using h.inj
  · simpa only [heq] using h.lt
  · simpa only [heq] using h.copy

end

lemma lend (h : Holding B G t base (own + one k) L K n s)
    (htype : (G.din s.blk (s.itable k).inum).type ≠ 0) :
    Holding B G t (base + one k) own L K n s := by
  refine h.regroup (fun j => ?_) fun j hj => ?_
  · simp only [Pi.add_apply]
    omega
  · by_cases hjk : j = k
    · rwa [hjk]
    · rw [add_one_of_ne _ hjk] at hj
      exact h.alloc j hj

lemma unlend (h : Holding B G t (base + one k) own L K n s) :
    Holding B G t base (own + one k) L K n s := by
  refine h.regroup (fun j => ?_) fun j hj => h.alloc j (hj.trans_le (Nat.le_add_right _ _))
  simp only [Pi.add_apply]
  omega

section

variable (h : Holding B G t base own L K n s)

include h

section

variable {own' : Fin NINODE → ℕ} {L' : Finset (Fin NINODE)} {x : Inode N}
  (href : x.ref = base k + own' k) (hown : ∀ j, j ≠ k → own' j = own j)
  (hlock : x.lock = if k ∈ L' then some t else none) (hL : ∀ j, j ≠ k → (j ∈ L' ↔ j ∈ L))
  (hlocked : k ∈ L' → 0 < base k + own' k ∧ x.valid = true)

include href hown hlock hL hlocked

section

variable
  (hinj : 0 < base k + own' k → ∀ j, j ≠ k → 0 < base j + own j → (s.itable j).inum ≠ x.inum)
  (hlt : 0 < base k + own' k → x.inum < G.ninodes)

include hinj hlt

lemma replace {K' : Finset ℕ} {n' i : ℕ} (hfs : FsOk G s'.blk) (hothers : Others G i s.blk s'.blk)
    (hne : ∀ j, j ≠ k → 0 < base j + own j → (s.itable j).valid = true ∨ 0 < base j →
      (s.itable j).inum ≠ i)
    (hlog : LogIn K' n' s'.log) (hB : B K' n') (htab : s'.itable = setAt s.itable k x)
    (hcopy : 0 < base k + own' k → x.valid = true →
      x.d = G.din s'.blk x.inum ∧ x.d.type ≠ 0)
    (halloc : 0 < base k → (G.din s'.blk x.inum).type ≠ 0) :
    Holding B G t base own' L' K' n' s' := by
  have hdin : ∀ j, j ≠ k → 0 < base j + own j → (s.itable j).valid = true ∨ 0 < base j →
      G.din s'.blk (s.itable j).inum = G.din s.blk (s.itable j).inum :=
    fun j hjk hj hv => hothers.din _ (h.lt j hj) (hne j hjk hj hv)
  refine ⟨hfs, ?_, ?_, ?_, ?_, ?_, ?_, ?_, hlog, hB⟩ <;> rw [htab]
  · refine fun j => setAt_cases j href fun j hj => ?_
    rw [hown j hj]
    exact h.ref_eq j
  · refine fun j => setAt_cases j hlock fun j hj => ?_
    rw [h.lock_eq j]
    simp only [hL j hj]
  · refine fun j => setAt_cases j hlocked fun j hj hjL => ?_
    rw [hown j hj]
    exact h.locked j ((hL j hj).1 hjL)
  · refine fun i j => setAt_cases i (setAt_cases j (fun _ _ _ => rfl) fun j hj hk hj' heq => ?_)
      fun i hi => setAt_cases j (fun hi' hk heq => ?_) fun j hj hi' hj' heq => ?_
    · rw [hown j hj] at hj'
      exact absurd heq.symm (hinj hk j hj hj')
    · rw [hown i hi] at hi'
      exact absurd heq (hinj hk i hi hi')
    · rw [hown i hi] at hi'
      rw [hown j hj] at hj'
      exact h.inj i j hi' hj' heq
  · refine fun j => setAt_cases j hlt fun j hj hpos => ?_
    rw [hown j hj] at hpos
    exact h.lt j hpos
  · refine fun j => setAt_cases j hcopy fun j hj hpos hv => ?_
    rw [hown j hj] at hpos
    rw [hdin j hj hpos (Or.inl hv)]
    exact h.copy j hpos hv
  · refine fun j => setAt_cases j halloc fun j hj hpos => ?_
    rw [hdin j hj (by omega) (Or.inr hpos)]
    exact h.alloc j hpos

lemma setInode
    (hcopy : 0 < base k + own' k → x.valid = true →
      x.d = G.din s.blk x.inum ∧ x.d.type ≠ 0)
    (halloc : 0 < base k → (G.din s.blk x.inum).type ≠ 0) :
    Holding B G t base own' L' K n (s.setInode k x) :=
  -- no inode is changed; `G.ninodes` is not one
  h.replace href hown hlock hL hlocked hinj hlt h.fs (.refl G G.ninodes s.blk)
    (fun j _ hj _ => (h.lt j hj).ne) h.log h.fits rfl hcopy halloc

end

lemma touch (hpos : 0 < base k + own k) (hinum : x.inum = (s.itable k).inum)
    (hcopy : 0 < base k + own' k → x.valid = true →
      x.d = G.din s.blk (s.itable k).inum ∧ x.d.type ≠ 0) :
    Holding B G t base own' L' K n (s.setInode k x) := by
  refine h.setInode href hown hlock hL hlocked (fun _ j hjk hj heq => ?_) ?_ ?_ ?_
  · rw [hinum] at heq
    exact hjk (h.inj j k hj hpos heq)
  · rw [hinum]
    exact fun _ => h.lt k hpos
  · rwa [hinum]
  · rw [hinum]
    exact h.alloc k

end

lemma incr (hpos : 0 < base k + own k) :
    Holding B G t base (own + one k) L K n
      (s.setInode k { s.itable k with ref := (s.itable k).ref + 1 }) := by
  refine h.touch ?_ (fun j hj => add_one_of_ne own hj) (h.lock_eq k) (fun _ _ => Iff.rfl)
    (fun hL => ⟨?_, (h.locked k hL).2⟩) hpos rfl fun _ hv => h.copy k hpos hv
  · rw [add_one_self, ← Nat.add_assoc, ← h.ref_eq]
  · rw [add_one_self]
    omega

end

lemma decr (h : Holding B G t base (own + one k) L K n s) (hL : k ∈ L → 0 < base k + own k) :
    Holding B G t base own L K n
      (s.setInode k { s.itable k with ref := (s.itable k).ref - 1 }) := by
  have href := h.ref_eq k
  rw [add_one_self] at href
  have hpos : 0 < base k + (own + one k) k := by
    rw [add_one_self]
    omega
  refine h.touch ?_ (fun j hj => (add_one_of_ne own hj).symm) (h.lock_eq k)
    (fun _ _ => Iff.rfl) (fun hk => ⟨hL hk, (h.locked k hk).2⟩) hpos rfl
    fun _ hv => h.copy k hpos hv
  show (s.itable k).ref - 1 = _
  omega

end Holding

lemma Frame.setInode {x : Inode N} (hinum : 0 < base k + own k → x.inum = (s.itable k).inum) :
    Frame (base + own) s (s.setInode k x) := by
  refine ⟨rfl, fun j => ?_⟩
  show 0 < (base + own) j → (setAt s.itable k x j).inum = _
  exact setAt_cases j hinum fun _ _ _ => rfl

/-! ## References -/

section

variable (hc : Holding B G t base own L K n s)

include hc

lemma iget_ends {i : ℕ} (hi : i < G.ninodes)
    (hfull : (∀ j, 0 < base j + own j) → stop (some .igetNoInodes)) :
    Ends (Fits B) stop (iget i) s fun k s' => Holding B G t base (own + one k) L K n s' ∧
      Frame (base + own) s s' ∧ s'.blk = s.blk ∧ (s'.itable k).inum = i ∧
      (0 < base k + own k → (s.itable k).inum = i) := by
  refine Ends.atomic ?_
  rw [St.iget]
  cases hfind : (List.finRange NINODE).find?
      fun k => 0 < (s.itable k).ref ∧ (s.itable k).inum = i with
  | some k =>
    have hk := List.find?_some hfind
    rw [decide_eq_true_iff, hc.ref_eq] at hk
    obtain ⟨hpos, hinum⟩ := hk
    have hc' := hc.incr hpos
    refine ⟨hc'.toFits, hc', Frame.setInode fun _ => rfl, rfl, ?_, fun _ => hinum⟩
    rw [St.setInode_self]
    exact hinum
  | none =>
    cases hfree : (List.finRange NINODE).find? fun k => (s.itable k).ref = 0 with
    | none =>
      refine hfull fun j => ?_
      have hj := List.find?_eq_none.1 hfree j (List.mem_finRange j)
      rw [decide_eq_true_iff, hc.ref_eq] at hj
      exact Nat.pos_of_ne_zero hj
    | some k =>
      have hk := List.find?_some hfree
      rw [decide_eq_true_iff, hc.ref_eq] at hk
      have hnone : ∀ j, 0 < base j + own j → (s.itable j).inum ≠ i := by
        intro j hj heq
        refine List.find?_eq_none.1 hfind j (List.mem_finRange j) ?_
        rw [decide_eq_true_iff, hc.ref_eq]
        exact ⟨hj, heq⟩
      have hc' : Holding B G t base (own + one k) L K n
          (s.setInode k { s.itable k with inum := i, ref := 1, valid := false }) := by
        refine hc.setInode ?_ (fun j hj => add_one_of_ne own hj) (hc.lock_eq k)
          (fun _ _ => Iff.rfl) (fun hL => ?_) (fun _ j _ hj => hnone j hj) (fun _ => hi)
          (by rintro _ ⟨⟩) fun hb => ?_
        · rw [add_one_self]
          show 1 = _
          omega
        · have := (hc.locked k hL).1
          omega
        · omega
      refine ⟨hc'.toFits, hc', Frame.setInode fun h => ?_, rfl, ?_, fun h => ?_⟩
      · omega
      · rw [St.setInode_self]
      · have hpos : 0 < base k + own k := h
        omega

lemma idupCwd_ends (hcwd : (s.proc t).cwd = some k) (hpos : 0 < base k) :
    Ends (Fits B) stop (.atomic (St.idupCwd t)) s fun k' s' => k' = k ∧
      Holding B G t base (own + one k) L K n s' ∧ Frame (base + own) s s' ∧ s'.blk = s.blk := by
  refine Ends.atomic ?_
  rw [St.idupCwd, hcwd]
  have hc' := hc.incr (k := k) (by omega)
  exact ⟨hc'.toFits, rfl, hc', Frame.setInode fun _ => rfl, rfl⟩

/-! ## Locks -/

lemma ilock_ends (hpos : 0 < base k + own k) (hwait : k ∈ L → stop none)
    (htype : (G.din s.blk (s.itable k).inum).type = 0 → stop (some .ilockNoType)) :
    Ends (Fits B) stop (ilock G t k) s fun _ s' => Holding B G t base own (insert k L) K n s' ∧
      Frame (base + own) s s' ∧ s'.blk = s.blk ∧ k ∉ L ∧
      (G.din s.blk (s.itable k).inum).type ≠ 0 := by
  refine Ends.update ?_
  have href := hc.ref_eq k
  have hlock := hc.lock_eq k
  rw [St.ilock]
  rw [if_neg (by omega)]
  by_cases hk : k ∈ L
  · rw [if_pos hk] at hlock
    rw [hlock, if_pos (Option.some_ne_none t)]
    exact hwait hk
  · rw [if_neg hk] at hlock
    rw [hlock, if_neg (not_not.2 rfl)]
    have hL : ∀ j, j ≠ k → (j ∈ insert k L ↔ j ∈ L) := by
      intro j hj
      rw [Finset.mem_insert]
      exact or_iff_right hj
    have hin : k ∈ insert k L := Finset.mem_insert_self k L
    by_cases hv : (s.itable k).valid = true
    · rw [if_pos hv]
      obtain ⟨hd, ht⟩ := hc.copy k hpos hv
      have hc' : Holding B G t base own (insert k L) K n
          (s.setInode k { s.itable k with lock := some t }) :=
        hc.touch href (fun _ _ => rfl) (if_pos hin).symm hL (fun _ => ⟨hpos, hv⟩) hpos rfl
          fun _ _ => ⟨hd, ht⟩
      exact ⟨hc'.toFits, hc', Frame.setInode fun _ => rfl, rfl, hk, hd ▸ ht⟩
    · rw [if_neg hv]
      by_cases h0 : (G.din s.blk (s.itable k).inum).type = 0
      · rw [if_pos h0]
        exact htype h0
      · rw [if_neg h0]
        have hc' : Holding B G t base own (insert k L) K n
            (s.setInode k { s.itable k with
              lock := some t, valid := true, d := G.din s.blk (s.itable k).inum }) :=
          hc.touch href (fun _ _ => rfl) (if_pos hin).symm hL (fun _ => ⟨hpos, rfl⟩) hpos rfl
            fun _ _ => ⟨rfl, h0⟩
        exact ⟨hc'.toFits, hc', Frame.setInode fun _ => rfl, rfl, hk, h0⟩

lemma iunlock_ends (hk : k ∈ L) :
    Ends (Fits B) stop (iunlock t k) s fun _ s' => Holding B G t base own (L.erase k) K n s' ∧
      Frame (base + own) s s' ∧ s'.blk = s.blk ∧
      ∀ j, (s'.itable j).inum = (s.itable j).inum ∧ (s'.itable j).valid = (s.itable j).valid := by
  refine Ends.update ?_
  obtain ⟨hpos, hv⟩ := hc.locked k hk
  have href := hc.ref_eq k
  have hlock := hc.lock_eq k
  rw [if_pos hk] at hlock
  rw [St.iunlock]
  rw [if_neg (by rw [hlock]; simp only [ne_eq, not_true_eq_false, false_or]; omega)]
  have hc' : Holding B G t base own (L.erase k) K n
      (s.setInode k { s.itable k with lock := none }) := by
    refine hc.touch href (fun _ _ => rfl) ?_ (fun j hj => ?_) (fun h => ?_) hpos rfl
      fun _ hv => hc.copy k hpos hv
    · rw [if_neg (Finset.notMem_erase k L)]
    · rw [Finset.mem_erase]
      exact and_iff_right hj
    · exact absurd h (Finset.notMem_erase k L)
  exact ⟨hc'.toFits, hc', Frame.setInode fun _ => rfl, rfl, St.setInode_same rfl rfl⟩

end

/-! ## Giving references back -/

/-- Every allocated inode without links is in use by the others. -/
def Anchored (G : Geometry) (base : Fin NINODE → ℕ) (s : St N) : Prop :=
  ∀ i, i < G.ninodes → (G.din s.blk i).type ≠ 0 → (G.din s.blk i).nlink = 0 →
    ∃ k, 0 < base k ∧ (s.itable k).inum = i

namespace Anchored

lemma frame (h : Anchored G base s) (hf : Frame base s s') (hblk : s'.blk = s.blk) :
    Anchored G base s' := by
  intro i hi htype hnlink
  rw [hblk] at htype hnlink
  obtain ⟨k, hk, hinum⟩ := h i hi htype hnlink
  exact ⟨k, hk, (hf.inum k hk).trans hinum⟩

lemma mono {base' : Fin NINODE → ℕ} (h : Anchored G base s) (hle : ∀ k, base k ≤ base' k) :
    Anchored G base' s := by
  intro i hi htype hnlink
  obtain ⟨k, hk, hinum⟩ := h i hi htype hnlink
  exact ⟨k, hk.trans_le (hle k), hinum⟩

lemma keep (h : Anchored G base s) (hc : Holding B G t base own L K n s)
    (hpos : 0 < base k + own k) (hv : (s.itable k).valid = true)
    (hnlink : (G.din s.blk (s.itable k).inum).nlink = 0) : 0 < base k := by
  obtain ⟨hd, htype⟩ := hc.copy k hpos hv
  rw [hd] at htype
  obtain ⟨j, hj, hinum⟩ := h _ (hc.lt k hpos) htype hnlink
  obtain rfl : j = k := hc.inj j k (by omega) hpos hinum
  exact hj

end Anchored

lemma iput_kept (hc : Holding B G t base (own + one k) L K n s) (hL : k ∈ L → 0 < base k + own k)
    (hkeep : (s.itable k).valid = true → (G.din s.blk (s.itable k).inum).nlink = 0 →
      0 < base k + own k) :
    Ends (Fits B) stop (iput G t k) s fun _ s' => Holding B G t base own L K n s' ∧
      Frame (base + own) s s' ∧ s'.blk = s.blk ∧
      ∀ j, (s'.itable j).inum = (s.itable j).inum ∧ (s'.itable j).valid = (s.itable j).valid := by
  have href := hc.ref_eq k
  rw [add_one_self] at href
  have hcond : ¬ ((s.itable k).ref = 1 ∧ (s.itable k).valid = true ∧
      (s.itable k).d.nlink = 0) := by
    rintro ⟨h1, hv, hnlink⟩
    rw [(hc.copy k (by rw [add_one_self]; omega) hv).1] at hnlink
    have := hkeep hv hnlink
    omega
  have hfirst : St.iputFirst t k s =
      .ok (false, s.setInode k { s.itable k with ref := (s.itable k).ref - 1 }) := if_neg hcond
  have hc' := hc.decr hL
  rw [iput]
  refine Ends.seq (P := fun b s' => b = false ∧
    s' = s.setInode k { s.itable k with ref := (s.itable k).ref - 1 }) (Ends.atomic ?_) ?_
  · rw [hfirst]
    exact ⟨hc'.toFits, rfl, rfl⟩
  · rintro _ _ ⟨rfl, rfl⟩
    exact .ret ⟨hc', Frame.setInode fun _ => rfl, rfl, St.setInode_same rfl rfl⟩

lemma iunlockput_kept (hc : Holding B G t base (own + one k) L K n s) (hk : k ∈ L)
    (hkeep : (G.din s.blk (s.itable k).inum).nlink = 0 → 0 < base k + own k) :
    Ends (Fits B) stop (iunlockput G t k) s fun _ s' =>
      Holding B G t base own (L.erase k) K n s' ∧ Frame (base + own) s s' ∧ s'.blk = s.blk ∧
      ∀ j, (s'.itable j).inum = (s.itable j).inum ∧ (s'.itable j).valid = (s.itable j).valid := by
  rw [iunlockput]
  refine (iunlock_ends hc hk).seq ?_
  rintro _ s1 ⟨hc1, hf1, hb1, hj1⟩
  have hkeep1 : (s1.itable k).valid = true →
      (G.din s1.blk (s1.itable k).inum).nlink = 0 → 0 < base k + own k := by
    intro _ hnlink
    rw [hb1, (hj1 k).1] at hnlink
    exact hkeep hnlink
  refine (iput_kept hc1 (fun h => absurd h (Finset.notMem_erase k L)) hkeep1).mono ?_
  rintro _ s2 ⟨hc2, hf2, hb2, hj2⟩
  refine ⟨hc2, (hf1.mono fun j => ?_).trans hf2, hb2.trans hb1, fun j => ?_⟩
  · simp only [Pi.add_apply]
    omega
  · exact ⟨(hj2 j).1.trans (hj1 j).1, (hj2 j).2.trans (hj1 j).2⟩

/-! ## Reading a locked inode -/

lemma inodeOf_ends (hc : Holding B G t base own L K n s) (hk : k ∈ L) :
    Ends (Fits B) stop (inodeOf k) s fun d s' => s' = s ∧ d = G.din s.blk (s.itable k).inum :=
  Ends.read hc.toFits ⟨rfl, hc.d_eq hk⟩

lemma inumOf_ends (hc : Holding B G t base own L K n s) :
    Ends (Fits B) stop (inumOf k) s fun i s' => s' = s ∧ i = (s.itable k).inum :=
  Ends.read hc.toFits ⟨rfl, rfl⟩

lemma onInode_of_eq {α : Type} {m : Sec α} {a : α}
    (h : m ⟨s.blk, s.log, (s.itable k).d⟩ = .ok (a, ⟨s.blk, s.log, (s.itable k).d⟩)) :
    St.onInode k m s = .ok (a, s) := by
  have hself : setAt s.itable k { s.itable k with d := (s.itable k).d } = s.itable :=
    setAt_eq_self s.itable k
  simp only [St.onInode, h, Outcome.ok_bind, Outcome.pure_eq, hself]

lemma dirlookup_ends (hc : Holding B G t base own L K n s) (hk : k ∈ L)
    (hdir : (G.din s.blk (s.itable k).inum).type = T_DIR)
    (hfull : (∀ j, 0 < base j + own j) → stop (some .igetNoInodes)) (name : Name) :
    Ends (Fits B) stop (dirlookup G k name) s fun r s' =>
      match r with
      | none => findEntry s.blk (G.din s.blk (s.itable k).inum) name = none ∧ s' = s
      | some (k', off) => ∃ i,
        findEntry s.blk (G.din s.blk (s.itable k).inum) name = some (i, off) ∧
        Holding B G t base (own + one k') L K n s' ∧ Frame (base + own) s s' ∧
        s'.blk = s.blk ∧ (s'.itable k').inum = i ∧
        (0 < base k' + own k' → (s.itable k').inum = i) := by
  have hheld := hc.held hk
  have hd := hc.d_eq hk
  have hlook := (hheld.dir (by rwa [hd])).dirlookup name
  rw [dirlookup]
  refine Ends.seq (P := fun r s' => s' = s ∧
    r = findEntry s.blk (G.din s.blk (s.itable k).inum) name) (Ends.atomic ?_) ?_
  · rw [onInode_of_eq hlook]
    exact ⟨hc.toFits, rfl, by rw [← hd]⟩
  · rintro r _ ⟨rfl, hr⟩
    cases r with
    | none => exact .ret ⟨hr.symm, rfl⟩
    | some e =>
      obtain ⟨i, off⟩ := e
      obtain ⟨m, hm, -, hinum, -, -⟩ := findEntry_eq_some hr.symm
      have hi : i < G.ninodes := by
        rw [← hinum]
        exact (hc.fs.node _ (hc.lt k (hc.locked k hk).1)).entries hdir m hm
      refine (iget_ends hc hi hfull).seq ?_
      rintro k' s' ⟨hc', hf', hb', hi', hold⟩
      exact .ret ⟨i, hr.symm, hc', hf', hb', hi', hold⟩

end

end Xv6.Fs
