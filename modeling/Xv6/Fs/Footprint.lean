import Xv6.Fs.Calls
import Xv6.Fs.FileBytes
import Mathlib.Data.Finset.Card

/-!
# Which blocks a write logs

`Sees m d x S …` says that the routine `m`, from the blocks `d` and the in-memory inode `x`, passes
exactly the block numbers of `S` to `log_write`: whatever the log holds, if it has room for `S` then
the routine returns, and the log has gained `S`.  `Foot` is the judgement with the set as part of
the result, and its rules follow the text of a routine.

The count for a chunk of `filewrite` goes block by block.  A block of the file costs itself and, if
it is new, a bitmap block; the indirect block costs itself and, if it is new, a bitmap block, once
for the whole chunk (`inds`).  A chunk that does not start at a block boundary touches one block
more, but the block that it starts in exists.
-/

namespace Xv6

open Concur Concur.Bytes

namespace Log

/-- `log_write` can be called for each block number of `S`, also when all of them are recorded. -/
structure Room (l : Log) (S : Finset ℕ) : Prop where
  outstanding : 1 ≤ l.outstanding
  nodup : l.lh.Nodup
  lt_logsize : (l.lh.toFinset ∪ S).card < LOGSIZE
  lt_size : ((l.lh.toFinset ∪ S).card : ℤ) < l.size - 1

/-- The log has gained the block numbers of `S`. -/
structure Gained (l : Log) (S : Finset ℕ) (l' : Log) : Prop where
  fields : l' = { l with lh := l'.lh }
  nodup : l'.lh.Nodup
  blocks : l'.lh.toFinset = l.lh.toFinset ∪ S

/-- The log in a transaction, as `begin_op` leaves it: there is room for `MAXOPBLOCKS` more block
numbers. -/
structure Begun (l : Log) : Prop where
  outstanding : 1 ≤ l.outstanding
  nodup : l.lh.Nodup
  logsize : l.lh.length + MAXOPBLOCKS ≤ LOGSIZE
  size : l.lh.length + MAXOPBLOCKS ≤ l.size

variable {l l' l'' : Log} {S T : Finset ℕ}

lemma Begun.room (h : l.Begun) (hS : S.card + 1 < MAXOPBLOCKS) : l.Room S := by
  have hle := Finset.card_union_le l.lh.toFinset S
  have h1 := h.logsize
  have h2 := h.size
  rw [List.toFinset_card_of_nodup h.nodup] at hle
  exact ⟨h.outstanding, h.nodup, by omega, by omega⟩

lemma Room.length_le (h : l.Room S) : l.lh.length ≤ (l.lh.toFinset ∪ S).card := by
  rw [← List.toFinset_card_of_nodup h.nodup]
  exact Finset.card_le_card Finset.subset_union_left

lemma Room.left (h : l.Room (S ∪ T)) : l.Room S := by
  have hle : (l.lh.toFinset ∪ S).card ≤ (l.lh.toFinset ∪ (S ∪ T)).card :=
    Finset.card_le_card (Finset.union_subset_union_right Finset.subset_union_left)
  have h1 := h.lt_logsize
  have h2 := h.lt_size
  exact ⟨h.outstanding, h.nodup, by omega, by omega⟩

lemma Room.right (h : l.Room (S ∪ T)) (hg : l.Gained S l') : l'.Room T := by
  have heq : l'.lh.toFinset ∪ T = l.lh.toFinset ∪ (S ∪ T) := by
    rw [hg.blocks, Finset.union_assoc]
  have h1 := h.outstanding
  have h2 := h.lt_size
  rw [hg.fields]
  refine ⟨h1, hg.nodup, ?_, ?_⟩
  · rw [heq]
    exact h.lt_logsize
  · rw [heq]
    exact h2

lemma Gained.trans (h : l.Gained S l') (h' : l'.Gained T l'') : l.Gained (S ∪ T) l'' where
  fields := by
    rw [h'.fields, h.fields]
  nodup := h'.nodup
  blocks := by rw [h'.blocks, h.blocks, Finset.union_assoc]

lemma Gained.refl (h : l.lh.Nodup) : l.Gained ∅ l := ⟨rfl, h, (Finset.union_empty _).symm⟩

lemma Room.write {b : ℕ} (h : l.Room {b}) :
    ∃ new l', l.Gained {b} l' ∧ l.write b = .ok (new, l') := by
  have h1 := h.length_le
  have h2 := h.lt_logsize
  have h3 := h.lt_size
  have h4 := h.outstanding
  refine ⟨(record b l.lh).1, { l with lh := (record b l.lh).2 },
    ⟨rfl, record_nodup h.nodup, ?_⟩, ?_⟩
  · ext c
    simp
  · rw [Log.write, if_neg (by omega), if_neg (by omega)]

end Log

namespace Fs

variable {α β : Type}

/-- From the blocks `d` and the inode `x`, the routine passes the block numbers of `S` to
`log_write` and returns `a`, with the blocks `d'` and the inode `x'`. -/
def Sees (m : Sec α) (d : Disk) (x : Dinode) (S : Finset ℕ) (a : α) (d' : Disk) (x' : Dinode) :
    Prop :=
  ∀ l : Log, l.Room S → ∃ l', l.Gained S l' ∧ m ⟨d, l, x⟩ = .ok (a, ⟨d', l', x'⟩)

/-- The routine returns, and `Q` holds of the block numbers that `log_write` sees and of the
result. -/
def Foot (m : Sec α) (d : Disk) (x : Dinode) (Q : Finset ℕ → α → Disk → Dinode → Prop) : Prop :=
  ∃ S a d' x', Q S a d' x' ∧ Sees m d x S a d' x'

namespace Foot

variable {d : Disk} {x : Dinode} {Q : Finset ℕ → β → Disk → Dinode → Prop}

lemma mono {m : Sec β} {P : Finset ℕ → β → Disk → Dinode → Prop} (h : Foot m d x P)
    (hPQ : ∀ S a d' x', P S a d' x' → Q S a d' x') : Foot m d x Q := by
  obtain ⟨S, a, d', x', hP, hs⟩ := h
  exact ⟨S, a, d', x', hPQ S a d' x' hP, hs⟩

lemma pure {b : β} (h : Q ∅ b d x) : Foot (Pure.pure b) d x Q :=
  ⟨∅, b, d, x, h, fun l hl => ⟨l, .refl hl.nodup, rfl⟩⟩

lemma seq {m : Sec α} {f : α → Sec β} {P : Finset ℕ → α → Disk → Dinode → Prop}
    (h : Foot m d x P)
    (hf : ∀ S a d' x', P S a d' x' → Foot (f a) d' x' fun T => Q (S ∪ T)) :
    Foot (m >>= f) d x Q := by
  obtain ⟨S, a, d', x', hP, hs⟩ := h
  obtain ⟨T, b, d'', x'', hQ, ht⟩ := hf S a d' x' hP
  refine ⟨S ∪ T, b, d'', x'', hQ, fun l hl => ?_⟩
  obtain ⟨l', hl', hm⟩ := hs l hl.left
  obtain ⟨l'', hl'', hf'⟩ := ht l' (hl.right hl')
  refine ⟨l'', hl'.trans hl'', ?_⟩
  rw [run_bind hm, hf']

lemma and_wp {m : Sec β} {R : β → Disk → Dinode → Prop} {bad : Panic → Prop} (h : Foot m d x Q)
    (hcard : ∀ S a d' x', Q S a d' x' → S.card < LOGSIZE)
    (hR : ∀ l, Wp bad m (fun b c => R b c.blk c.ip) ⟨d, l, x⟩) :
    Foot m d x fun S b d' x' => Q S b d' x' ∧ R b d' x' := by
  obtain ⟨S, b, d', x', hQ, hs⟩ := h
  refine ⟨S, b, d', x', ⟨hQ, ?_⟩, hs⟩
  -- what the specification says of a run from an empty log
  have hroom : (⟨S.card + 2, 1, false, []⟩ : Log).Room S := by
    refine ⟨le_rfl, List.nodup_nil, ?_, ?_⟩
    · simpa using hcard S b d' x' hQ
    · simp only [List.toFinset_nil, Finset.empty_union]
      push_cast
      omega
  obtain ⟨l', -, hrun⟩ := hs _ hroom
  exact (hR _).result hrun

lemma of_eq {m : Sec β} {b : β} (hm : ∀ l, m ⟨d, l, x⟩ = .ok (b, ⟨d, l, x⟩)) (h : Q ∅ b d x) :
    Foot m d x Q :=
  ⟨∅, b, d, x, h, fun l hl => ⟨l, .refl hl.nodup, hm l⟩⟩

lemma get {f : Ictx → Sec β} (hf : ∀ l, f ⟨d, l, x⟩ = f ⟨d, .init 0, x⟩)
    (h : Foot (f ⟨d, .init 0, x⟩) d x Q) : Foot (MonadState.get >>= f) d x Q := by
  obtain ⟨S, b, d', x', hQ, hs⟩ := h
  refine ⟨S, b, d', x', hQ, fun l hl => ?_⟩
  obtain ⟨l', hl', hg⟩ := hs l hl
  refine ⟨l', hl', ?_⟩
  rw [run_get, hf, hg]

lemma modify {f : Ictx → Ictx} {Q : Finset ℕ → Unit → Disk → Dinode → Prop}
    (hf : ∀ l, f ⟨d, l, x⟩ = ⟨(f ⟨d, .init 0, x⟩).blk, l, (f ⟨d, .init 0, x⟩).ip⟩)
    (h : Q ∅ () (f ⟨d, .init 0, x⟩).blk (f ⟨d, .init 0, x⟩).ip) :
    Foot (modifyThe Ictx f) d x Q := by
  refine ⟨∅, (), _, _, h, fun l hl => ⟨l, .refl hl.nodup, ?_⟩⟩
  rw [← hf l]
  rfl

lemma logWrite {b : ℕ} {v : Block} {Q : Finset ℕ → Unit → Disk → Dinode → Prop}
    (h : Q {b} () (setAt d b v) x) : Foot (Sec.logWrite b v) d x Q := by
  refine ⟨{b}, (), setAt d b v, x, h, fun l hl => ?_⟩
  obtain ⟨new, l', hl', hw⟩ := hl.write
  refine ⟨l', hl', ?_⟩
  show (l.write b).bind _ = _
  rw [hw]
  rfl

end Foot

/-! ## The allocator and `bmap` -/

section

variable {G : Geometry} {d : Disk} {x : Dinode}

lemma balloc_foot :
    Foot (Sec.balloc G) d x fun S a _ x' => x' = x ∧ a < 2 ^ 32 ∧ ∃ p, S ⊆ {p, a} := by
  rcases balloc_eq G d with ⟨-, hrun⟩ | ⟨f, hf, -, -, hrun⟩
  · exact Foot.of_eq (fun l => hrun l x) ⟨rfl, by decide, 0, Finset.empty_subset _⟩
  · have hsize := G.size_lt
    have htake : Foot (Sec.take G d f) d x
        fun S a _ x' => x' = x ∧ a < 2 ^ 32 ∧ ∃ p, S ⊆ {p, a} := by
      refine Foot.seq (Foot.logWrite (Q := fun S _ _ x' => S = {G.BBLOCK f} ∧ x' = x) ⟨rfl, rfl⟩) ?_
      rintro _ _ d1 x1 ⟨rfl, rfl⟩
      refine Foot.seq (Foot.logWrite (Q := fun S _ _ x' => S = {f} ∧ x' = x1) ⟨rfl, rfl⟩) ?_
      rintro _ _ d2 x2 ⟨rfl, rfl⟩
      refine Foot.pure ⟨rfl, by omega, G.BBLOCK f, ?_⟩
      rw [Finset.union_empty]
      exact Finset.Subset.refl _
    obtain ⟨S, a, d', x', hQ, hs⟩ := htake
    exact ⟨S, a, d', x', hQ, fun l hl => hrun l x ▸ hs l hl⟩

lemma ensureAddr_foot (k : Fin (NDIRECT + 1)) :
    Foot (Sec.ensureAddr G k) d x fun S a d' x' =>
      (x'.addrs k).toNat = a ∧ (∀ j, j ≠ k → x'.addrs j = x.addrs j) ∧ (∃ p, S ⊆ {p, a}) ∧
        (x.addrs k ≠ 0 → S = ∅ ∧ d' = d ∧ x' = x) := by
  rw [Sec.ensureAddr]
  refine Foot.get (fun _ => rfl) ?_
  by_cases hk : x.addrs k = 0
  · simp only [hk, ↓reduceIte]
    refine Foot.seq balloc_foot ?_
    intro S a d1 x1 hb
    obtain ⟨hx, ha, p, hS⟩ := hb
    subst x1
    by_cases h0 : a = 0
    · rw [if_pos h0]
      refine Foot.pure ⟨?_, fun _ _ => rfl, ⟨p, ?_⟩, fun h => absurd rfl h⟩
      · rw [hk]
        rfl
      · rwa [Finset.union_empty, ← h0]
    · rw [if_neg h0]
      refine Foot.seq (Foot.modify (Q := fun S' _ _ x' => S' = ∅ ∧
        x' = { x with addrs := setAt x.addrs k (UInt32.ofNat a) }) (fun _ => rfl) ⟨rfl, rfl⟩) ?_
      rintro _ _ d2 _ ⟨rfl, rfl⟩
      refine Foot.pure ⟨?_, fun j hj => setAt_of_ne _ _ hj, ⟨p, ?_⟩, fun h => absurd rfl h⟩
      · simp only [setAt_self]
        exact UInt32.toNat_ofNat_of_lt' ha
      · rwa [Finset.union_empty, Finset.union_empty]
  · simp only [hk, ↓reduceIte]
    exact Foot.pure ⟨rfl, fun _ _ => rfl, ⟨0, Finset.empty_subset _⟩, fun _ => ⟨rfl, rfl, rfl⟩⟩

/-- The indirect block of the inode, if it has one. -/
def inds (x : Dinode) : Finset ℕ :=
  if x.addrs (Fin.last NDIRECT) = 0 then ∅ else {(x.addrs (Fin.last NDIRECT)).toNat}

/-- 1 if the inode has no indirect block yet, else 0. -/
def fresh (x : Dinode) : ℕ := 1 - (inds x).card

lemma card_inds (x : Dinode) : (inds x).card + fresh x = 1 := by
  have hle : (inds x).card ≤ 1 := by
    unfold inds
    split
    · exact Nat.zero_le _
    · exact (Finset.card_singleton _).le
  unfold fresh
  omega

lemma inds_congr {x' : Dinode} (h : x'.addrs (Fin.last NDIRECT) = x.addrs (Fin.last NDIRECT)) :
    inds x' = inds x := by
  unfold inds
  rw [h]

lemma inds_of_eq_zero (h : x.addrs (Fin.last NDIRECT) = 0) : inds x = ∅ := if_pos h

lemma inds_of_ne_zero (h : x.addrs (Fin.last NDIRECT) ≠ 0) :
    inds x = {(x.addrs (Fin.last NDIRECT)).toNat} := if_neg h

/-- What finding the block of one round of `writei` may cost: `T` has the block `a`, and beside it a
bitmap block if it is new; the indirect block is apart, and if it is new, its bitmap block is
in `T`. -/
structure Round (d : Disk) (x : Dinode) (n : ℕ) (S : Finset ℕ) (a : ℕ) (x' : Dinode)
    (T : Finset ℕ) : Prop where
  mem : a ∈ T
  sub : S ⊆ T ∪ inds x'
  inds_sub : inds x ⊆ inds x'
  card : T.card + fresh x' ≤ 2 + fresh x
  card_of_ne : blockAt d x n ≠ 0 → T.card + fresh x' ≤ 1 + fresh x

lemma ensureInd_foot :
    Foot (Sec.ensureAddr G (Fin.last NDIRECT)) d x fun S a d' x' =>
      (x'.addrs (Fin.last NDIRECT)).toNat = a ∧
        (x.addrs (Fin.last NDIRECT) ≠ 0 → d' = d ∧ x' = x) ∧
        ∃ T, S ⊆ insert a T ∧ T.card ≤ fresh x := by
  refine (ensureAddr_foot _).mono ?_
  rintro S a d' x' ⟨ha, -, ⟨p, hS⟩, hsame⟩
  refine ⟨ha, fun h => (hsame h).2, ?_⟩
  by_cases h0 : x.addrs (Fin.last NDIRECT) = 0
  · refine ⟨{p}, ?_, ?_⟩
    · rwa [Finset.pair_comm] at hS
    · rw [fresh, inds_of_eq_zero h0, Finset.card_singleton, Finset.card_empty]
  · rw [(hsame h0).1]
    exact ⟨∅, Finset.empty_subset _, Nat.zero_le _⟩

lemma blockAt_entry {n : ℕ} (hdir : ¬ n < NDIRECT) (hind : n - NDIRECT < NINDIRECT)
    (h : x.addrs (Fin.last NDIRECT) ≠ 0) : blockAt d x n =
      (getEntry (d (x.addrs (Fin.last NDIRECT)).toNat) (n - NDIRECT)).toNat := by
  have hplace : dataPlace n = some (.entry ⟨n - NDIRECT, hind⟩) := by
    rw [dataPlace, dif_neg hdir, dif_pos hind]
  rw [blockAt_of_dataPlace hplace, ref, if_neg h]

lemma bmap_direct_foot {n : ℕ} (hdir : n < NDIRECT) :
    Foot (Sec.ensureAddr G ⟨n, Nat.lt_succ_of_lt hdir⟩) d x
      fun S a _ x' => ∃ T, Round d x n S a x' T := by
  refine (ensureAddr_foot _).mono ?_
  rintro S a d' x' ⟨ha, hother, ⟨p, hS⟩, hsame⟩
  have hlast : Fin.last NDIRECT ≠ ⟨n, Nat.lt_succ_of_lt hdir⟩ := by
    intro h
    have hval := congrArg Fin.val h
    rw [Fin.val_last] at hval
    exact absurd hval hdir.ne'
  have hinds : inds x' = inds x := inds_congr (hother _ hlast)
  have hfresh : fresh x' = fresh x := by rw [fresh, fresh, hinds]
  by_cases h0 : x.addrs ⟨n, Nat.lt_succ_of_lt hdir⟩ = 0
  · refine ⟨{p, a}, ⟨by simp, hS.trans Finset.subset_union_left, hinds.ge, ?_, fun hb => ?_⟩⟩
    · rw [hfresh]
      exact Nat.add_le_add_right Finset.card_le_two _
    · refine absurd ?_ hb
      have hplace : dataPlace n = some (.direct ⟨n, hdir⟩) := dif_pos hdir
      rw [blockAt_of_dataPlace hplace]
      show (x.addrs ⟨n, _⟩).toNat = 0
      rw [h0]
      rfl
  · obtain ⟨rfl, -, -⟩ := hsame h0
    refine ⟨{a}, ⟨by simp, Finset.empty_subset _, hinds.ge, ?_, fun _ => ?_⟩⟩
    · rw [hfresh, Finset.card_singleton]
      omega
    · rw [hfresh, Finset.card_singleton]

lemma bmap_foot {n : ℕ} (hn : n < MAXFILE) :
    Foot (Sec.bmap G n) d x fun S a _ x' => ∃ T, Round d x n S a x' T := by
  rw [Sec.bmap]
  by_cases hdir : n < NDIRECT
  · rw [dif_pos hdir]
    exact bmap_direct_foot hdir
  · have hind : n - NDIRECT < NINDIRECT := by
      rw [MAXFILE] at hn
      omega
    rw [dif_neg hdir, if_pos hind]
    refine Foot.seq ensureInd_foot ?_
    rintro S1 ind d1 x1 ⟨hx1, hsame, T1, hS1, hT1⟩
    by_cases h0 : ind = 0
    · -- there is no indirect block and none can be allocated
      have hz1 : x1.addrs (Fin.last NDIRECT) = 0 := by
        rw [← UInt32.toNat_inj, hx1, h0]
        rfl
      have hz : x.addrs (Fin.last NDIRECT) = 0 := by
        by_contra hne
        rw [(hsame hne).2] at hz1
        exact hne hz1
      have hfresh : fresh x1 = fresh x := by
        rw [fresh, fresh, inds_of_eq_zero hz, inds_of_eq_zero hz1]
      have hle := card_inds x
      rw [if_pos h0]
      refine Foot.pure ⟨insert 0 T1, ⟨Finset.mem_insert_self _ _, ?_, ?_, ?_, fun hb => ?_⟩⟩
      · rw [Finset.union_empty]
        exact (h0 ▸ hS1).trans Finset.subset_union_left
      · rw [inds_of_eq_zero hz]
        exact Finset.empty_subset _
      · have := Finset.card_insert_le 0 T1
        omega
      · exact absurd (blockAt_of_no_indirect hdir hz) hb
    · have hne1 : x1.addrs (Fin.last NDIRECT) ≠ 0 := by
        intro h
        rw [h] at hx1
        exact h0 hx1.symm
      have hinds1 : inds x1 = {ind} := by rw [inds_of_ne_zero hne1, hx1]
      have hfresh1 : fresh x1 = 0 := by rw [fresh, hinds1, Finset.card_singleton]
      have hsub : inds x ⊆ inds x1 := by
        by_cases hz : x.addrs (Fin.last NDIRECT) = 0
        · rw [inds_of_eq_zero hz]
          exact Finset.empty_subset _
        · rw [(hsame hz).2]
      have hS1' : S1 ⊆ T1 ∪ inds x1 := by
        rw [hinds1]
        exact hS1.trans (by rw [Finset.insert_eq, Finset.union_comm])
      rw [if_neg h0]
      refine Foot.get (fun _ => rfl) ?_
      simp only
      by_cases he : getEntry (d1 ind) (n - NDIRECT) = 0
      · rw [if_pos he]
        have hnone : blockAt d x n = 0 := by
          by_cases hz : x.addrs (Fin.last NDIRECT) = 0
          · exact blockAt_of_no_indirect hdir hz
          · obtain ⟨rfl, rfl⟩ := hsame hz
            rw [blockAt_entry hdir hind hz, hx1, he]
            rfl
        refine Foot.seq balloc_foot ?_
        rintro S2 a d2 x2 ⟨rfl, -, p2, hS2⟩
        have hcard : (T1 ∪ {p2, a}).card + fresh x2 ≤ 2 + fresh x := by
          have h1 := Finset.card_union_le T1 {p2, a}
          have h2 : ({p2, a} : Finset ℕ).card ≤ 2 := Finset.card_le_two
          omega
        by_cases ha : a = 0
        · rw [if_pos ha]
          refine Foot.pure ⟨T1 ∪ {p2, a}, ⟨by simp [ha], ?_, hsub, hcard,
            fun hb => absurd hnone hb⟩⟩
          rw [Finset.union_empty]
          refine Finset.union_subset (hS1'.trans ?_) (hS2.trans ?_)
          · exact Finset.union_subset_union_left Finset.subset_union_left
          · exact Finset.subset_union_right.trans Finset.subset_union_left
        · rw [if_neg ha]
          refine Foot.get (fun _ => rfl) ?_
          refine Foot.seq (Foot.logWrite (Q := fun S _ _ x' => S = {ind} ∧ x' = x2) ⟨rfl, rfl⟩) ?_
          rintro _ _ d3 x3 ⟨rfl, rfl⟩
          refine Foot.pure ⟨T1 ∪ {p2, a}, ⟨by simp, ?_, hsub, hcard, fun hb => absurd hnone hb⟩⟩
          rw [Finset.union_empty]
          refine Finset.union_subset (hS1'.trans ?_) (Finset.union_subset (hS2.trans ?_) ?_)
          · exact Finset.union_subset_union_left Finset.subset_union_left
          · exact Finset.subset_union_right.trans Finset.subset_union_left
          · rw [hinds1]
            exact Finset.subset_union_right
      · rw [if_neg he]
        refine Foot.pure ⟨insert (getEntry (d1 ind) (n - NDIRECT)).toNat T1,
          ⟨Finset.mem_insert_self _ _, ?_, hsub, ?_, fun hb => ?_⟩⟩
        · rw [Finset.union_empty]
          exact hS1'.trans (Finset.union_subset_union_left (Finset.subset_insert _ _))
        · have := Finset.card_insert_le (getEntry (d1 ind) (n - NDIRECT)).toNat T1
          omega
        · have := Finset.card_insert_le (getEntry (d1 ind) (n - NDIRECT)).toNat T1
          omega

/-! ## Writing a chunk -/

/-- The number of blocks that `left` bytes from the offset `off` on touch. -/
def nblocks (off left : ℕ) : ℕ := if left = 0 then 0 else (off % BSIZE + left - 1) / BSIZE + 1

lemma nblocks_step (off : ℕ) {left : ℕ} (h : left ≠ 0) :
    nblocks off left = 1 + nblocks (off + min left (BSIZE - off % BSIZE))
      (left - min left (BSIZE - off % BSIZE)) := by
  unfold nblocks
  rw [BSIZE_eq] at *
  rw [if_neg h]
  by_cases hle : left ≤ 1024 - off % 1024
  · rw [min_eq_left hle, Nat.sub_self, if_pos rfl]
    omega
  · rw [min_eq_right (by omega), if_neg (by omega)]
    omega

/-- What the loop of `writei` may cost. -/
structure Rounds (d : Disk) (x : Dinode) (off left : ℕ) (S : Finset ℕ) (x' : Dinode)
    (T : Finset ℕ) : Prop where
  sub : S ⊆ T ∪ inds x'
  inds_sub : inds x ⊆ inds x'
  card : T.card + fresh x' ≤ 2 * nblocks off left + fresh x
  card_of_ne : left ≠ 0 → blockAt d x (off / BSIZE) ≠ 0 →
    T.card + fresh x' + 1 ≤ 2 * nblocks off left + fresh x

lemma Rounds.nothing (d : Disk) (x : Dinode) (off : ℕ) : Rounds d x off 0 ∅ x ∅ :=
  ⟨Finset.empty_subset _, Finset.Subset.refl _, by simp [nblocks], fun h => absurd rfl h⟩

lemma Round.stop {off left a : ℕ} {S T : Finset ℕ} {x' : Dinode} (hleft : left ≠ 0)
    (h : Round d x (off / BSIZE) S a x' T) : Rounds d x off left S x' T := by
  have hn := nblocks_step off hleft
  have h1 := h.card
  refine ⟨h.sub, h.inds_sub, by omega, fun _ hb => ?_⟩
  have h2 := h.card_of_ne hb
  omega

lemma Round.cons {off left a : ℕ} {S T S' T' : Finset ℕ} {d1 : Disk} {x1 x' : Dinode}
    (hleft : left ≠ 0) (h : Round d x (off / BSIZE) S a x1 T)
    (h' : Rounds d1 x1 (off + min left (BSIZE - off % BSIZE))
      (left - min left (BSIZE - off % BSIZE)) S' x' T') :
    Rounds d x off left (S ∪ ({a} ∪ S')) x' (T ∪ T') := by
  have hn := nblocks_step off hleft
  have hu := Finset.card_union_le T T'
  have h1 := h.card
  have h2 := h'.card
  refine ⟨Finset.union_subset ?_ (Finset.union_subset ?_ ?_), h.inds_sub.trans h'.inds_sub,
    by omega,
    fun _ hb => ?_⟩
  · refine h.sub.trans (Finset.union_subset_union Finset.subset_union_left h'.inds_sub)
  · rw [Finset.singleton_subset_iff]
    exact Finset.mem_union_left _ (Finset.mem_union_left _ h.mem)
  · exact h'.sub.trans (Finset.union_subset_union_left Finset.subset_union_right)
  · have h3 := h.card_of_ne hb
    omega

lemma writeFrom_foot (src : ℕ → Option UInt8) (fuel off left tot : ℕ) (hfuel : left ≤ fuel)
    (hmax : off + left ≤ MAXFILE * BSIZE) :
    Foot (Sec.writeFrom G src fuel off left tot) d x
      fun S _ _ x' => ∃ T, Rounds d x off left S x' T := by
  induction fuel generalizing d x off left tot with
  | zero =>
    obtain rfl : left = 0 := Nat.le_zero.1 hfuel
    exact Foot.pure ⟨∅, .nothing d x off⟩
  | succ fuel ih =>
    rw [Sec.writeFrom]
    by_cases hleft : left = 0
    · subst hleft
      exact Foot.pure ⟨∅, .nothing d x off⟩
    · rw [if_neg hleft]
      have hlt : off / BSIZE < MAXFILE := by
        rw [BSIZE_eq, MAXFILE_eq] at *
        omega
      refine Foot.seq (bmap_foot hlt) ?_
      rintro S addr d1 x1 ⟨T, hround⟩
      by_cases h0 : addr = 0
      · rw [if_pos h0]
        refine Foot.pure ⟨T, ?_⟩
        rw [Finset.union_empty]
        exact hround.stop hleft
      · rw [if_neg h0]
        refine Foot.get (fun _ => rfl) ?_
        simp only
        have hmod : off % BSIZE < BSIZE := Nat.mod_lt _ (by decide)
        split
        · refine Foot.seq (Foot.logWrite (Q := fun S _ _ x' => S = {addr} ∧ x' = x1) ⟨rfl, rfl⟩) ?_
          rintro _ _ d2 x2 ⟨rfl, rfl⟩
          refine (ih _ _ _ (by omega) (by omega)).mono ?_
          rintro S' _ _ x' ⟨T', hrest⟩
          exact ⟨T ∪ T', hround.cons hleft hrest⟩
        · refine Foot.seq (Foot.modify (Q := fun S _ _ x' => S = ∅ ∧ x' = x1) (fun _ => rfl)
            ⟨rfl, rfl⟩) ?_
          rintro _ _ d2 x2 ⟨rfl, rfl⟩
          refine Foot.pure ⟨T, ?_⟩
          rw [Finset.union_empty, Finset.union_empty]
          exact hround.stop hleft

lemma writei_foot (inum : ℕ) (src : ℕ → Option UInt8) (off n : ℕ) :
    Foot (Sec.writei G inum src off n) d x fun S _ _ _ => S = ∅ ∨
      off ≤ x.size.toNat ∧ ∃ S' T x', S = S' ∪ {G.IBLOCK inum} ∧ Rounds d x off n S' x' T := by
  rw [Sec.writei]
  refine Foot.get (fun _ => rfl) ?_
  simp only
  split
  · exact Foot.pure (Or.inl rfl)
  · rename_i hoff
    split
    · exact Foot.pure (Or.inl rfl)
    · rename_i hmax
      refine Foot.seq (writeFrom_foot src n off n 0 le_rfl (not_lt.1 hmax)) ?_
      rintro S' ⟨tot, off'⟩ d1 x1 ⟨T, hrounds⟩
      refine Foot.seq (P := fun S _ d' x' => S = ∅) ?_ ?_
      · rw [Sec.when]
        split
        · exact Foot.modify (fun _ => rfl) rfl
        · exact Foot.pure rfl
      · rintro _ _ d2 x2 rfl
        refine Foot.seq (P := fun S _ _ _ => S = {G.IBLOCK inum}) ?_ ?_
        · exact Foot.get (fun _ => rfl) (Foot.logWrite rfl)
        · rintro _ _ d3 x3 rfl
          refine Foot.pure (Or.inr ⟨by omega, S', T, x1, ?_, hrounds⟩)
          rw [Finset.empty_union, Finset.union_empty]

lemma Rounds.card_chunk {off n : ℕ} {S T : Finset ℕ} {x' : Dinode} (h : Rounds d x off n S x' T)
    (hfull : NoHoles d x) (hoff : off ≤ x.size.toNat) (hn : n ≤ maxChunk) :
    S.card + 1 ≤ MAXOPBLOCKS := by
  have hchunk : maxChunk = 3072 := by decide
  have h1 := (Finset.card_le_card h.sub).trans (Finset.card_union_le T (inds x'))
  have h2 := card_inds x'
  have h3 := card_inds x
  have h4 := h.card
  rw [hchunk] at hn
  rw [MAXOPBLOCKS_eq]
  by_cases h0 : n = 0
  · have hzero : nblocks off n = 0 := if_pos h0
    omega
  · have hblocks : nblocks off n = (off % BSIZE + n - 1) / BSIZE + 1 := if_neg h0
    by_cases haligned : off % BSIZE = 0
    · rw [BSIZE_eq] at *
      omega
    · -- the first block has bytes of the file before `off`
      have hexists : blockAt d x (off / BSIZE) ≠ 0 := by
        refine hfull _ ?_
        have := Nat.div_add_mod' off BSIZE
        omega
      have h5 := h.card_of_ne h0 hexists
      rw [BSIZE_eq] at *
      omega

end

/-- A chunk of `filewrite` passes at most `MAXOPBLOCKS` block numbers to `log_write`, whatever the
disk, the file and the source are.  Past the end of the file nothing is logged. -/
theorem filewrite_chunk_fits (G : Geometry) (d : Disk) (x : Dinode) (hfull : NoHoles d x) (inum : ℕ)
    (src : ℕ → Option UInt8) (off n : ℕ) (hn : n ≤ maxChunk) :
    ∃ S : Finset ℕ, S.card ≤ MAXOPBLOCKS ∧
      ∃ r d' x', Sees (Sec.writei G inum src off n) d x S r d' x' := by
  obtain ⟨S, r, d', x', hS, hsees⟩ := writei_foot (G := G) (d := d) (x := x) inum src off n
  refine ⟨S, ?_, r, d', x', hsees⟩
  rcases hS with rfl | ⟨hoff, S', T, x1, rfl, hrounds⟩
  · exact Nat.zero_le _
  · have h1 := hrounds.card_chunk hfull hoff hn
    have h2 := Finset.card_union_le S' {G.IBLOCK inum}
    rw [Finset.card_singleton] at h2
    omega

/-- A chunk appended to a directory of 48 bytes. -/
theorem filewrite_chunk_fits_append : NoHoles smallDisk smallRoot ∧
    ∃ S : Finset ℕ, S.card ≤ MAXOPBLOCKS ∧ ∃ r d' x',
      Sees (Sec.writei smallGeometry 1 (fun _ => some 7) 48 3072) smallDisk smallRoot S r d' x' :=
  ⟨noHoles_smallRoot smallDisk, filewrite_chunk_fits smallGeometry smallDisk smallRoot
    (noHoles_smallRoot smallDisk) 1 (fun _ => some 7) 48 3072 (by decide)⟩

end Fs

end Xv6
