import Xv6.Fs.Dirs
import Xv6.Fs.Footprint
import Mathlib.Algebra.Order.Group.Nat

/-!
# A directory is a finite map

The keys are the names cut to `DIRSIZ` bytes, the values inode numbers.  A history of a directory is
any sequence of `dirlink`s and removals, with other activity of the file system in between
(`History`), and it has a meaning, a function from keys to inode numbers (`Map`).  In every state of
every history the entries stand for that function, `dirlookup` evaluates it, and `dirlink` fails
exactly when the key is bound or there is no empty entry and the directory cannot grow
(`history_map`).

Whether a directory can grow is a matter of its size and of the free blocks of the disk: the last
block may exist, need one free block, or, when the indirect block is missing too, two (`need`).
-/

namespace Xv6.Fs

open Concur Concur.Bytes

/-! ## Free blocks -/

/-- The blocks that the bitmap does not mark as in use. -/
def freeBlocks (G : Geometry) (d : Disk) : Finset ℕ :=
  (Finset.range G.size).filter fun b => G.bit d b = false

section

variable {G : Geometry} {inum : ℕ} {c c' : Ictx}

lemma Fresh.freeBlocks_eq {b : ℕ} (h : Fresh G inum ∅ c b c') (hw : Working G inum ∅ c) :
    b ∈ freeBlocks G c.blk ∧ freeBlocks G c'.blk = (freeBlocks G c.blk).erase b := by
  have hb := h.nmeta_le
  have hbit : ∀ a, a < G.size → (G.bit c'.blk a = true ↔ a = b ∨ G.bit c.blk a = true) := by
    intro a ha
    rw [h.working.owned.used_iff a ha, hw.owned.used_iff a ha]
    simp only [h.refs_eq, Set.mem_insert_iff, Set.mem_empty_iff_false, or_false, false_or]
    tauto
  have hnot : G.bit c.blk b = false := by
    rw [← Bool.not_eq_true, hw.owned.used_iff b hb.2]
    rintro (hlt | hm | ⟨q, hq⟩)
    · omega
    · exact hm
    · exact h.refs_ne q ((h.refs_eq q).trans hq)
  refine ⟨Finset.mem_filter.2 ⟨Finset.mem_range.2 hb.2, hnot⟩, ?_⟩
  ext a
  simp only [freeBlocks, Finset.mem_erase, Finset.mem_filter, Finset.mem_range]
  constructor
  · rintro ⟨ha, hfree⟩
    have := (not_congr (hbit a ha)).1 (by rw [hfree]; exact Bool.false_ne_true)
    rw [not_or, Bool.not_eq_true] at this
    exact ⟨this.1, ha, this.2⟩
  · rintro ⟨hne, ha, hfree⟩
    refine ⟨ha, ?_⟩
    rw [← Bool.not_eq_true, hbit a ha]
    rintro (h | h)
    · exact hne h
    · rw [hfree] at h
      cases h

/-- `balloc` fails only if there is no free block, and otherwise takes one. -/
lemma balloc_free (h : Working G inum ∅ c) :
    Wp Unexpected (Sec.balloc G)
      (fun r c' => (r = 0 ∧ c' = c ∧ (freeBlocks G c.blk).card = 0) ∨
        (r ≠ 0 ∧ Fresh G inum ∅ c r c' ∧
          (freeBlocks G c'.blk).card + 1 = (freeBlocks G c.blk).card)) c := by
  refine (balloc_spec h).mono fun r c' hr => ?_
  obtain ⟨rfl, rfl, hfull⟩ | ⟨hr0, hfresh⟩ := hr
  · refine Or.inl ⟨rfl, rfl, ?_⟩
    rw [Finset.card_eq_zero, Finset.eq_empty_iff_forall_notMem]
    intro a ha
    obtain ⟨hlt, hbit⟩ := Finset.mem_filter.1 ha
    rw [hfull a (Finset.mem_range.1 hlt)] at hbit
    cases hbit
  · refine Or.inr ⟨hr0, hfresh, ?_⟩
    obtain ⟨hmem, heq⟩ := hfresh.freeBlocks_eq h
    rw [heq]
    exact Finset.card_erase_add_one hmem

lemma ensureAddr_free (hw : Working G inum ∅ c) (k : Fin (NDIRECT + 1)) :
    Wp Unexpected (Sec.ensureAddr G k)
      (fun r c' => (r ≠ 0 ↔ c.ip.addrs k ≠ 0 ∨ 0 < (freeBlocks G c.blk).card) ∧
        (r ≠ 0 → c.ip.addrs k = 0 → c'.blk r = Bytes.zero ∧
          (freeBlocks G c'.blk).card + 1 = (freeBlocks G c.blk).card)) c := by
  rw [Sec.ensureAddr]
  refine Wp.get_bind ?_
  by_cases hk : c.ip.addrs k = 0
  · simp only [hk, ↓reduceIte]
    refine Wp.seq (balloc_free hw) ?_
    rintro r c' (⟨rfl, rfl, hz⟩ | ⟨hr, hfresh, hcard⟩)
    · refine Wp.pure ⟨?_, fun h => absurd rfl h⟩
      simp [hz]
    · rw [if_neg hr]
      refine Wp.bind (Wp.of_modify (Wp.pure ⟨?_, fun _ _ => ⟨hfresh.zero, hcard⟩⟩))
      simp only [ne_eq, hr, not_false_eq_true, true_iff]
      exact Or.inr (by omega)
  · have hne : (c.ip.addrs k).toNat ≠ 0 := fun h => hk (UInt32.toNat_inj.1 h)
    rw [if_neg hk]
    exact Wp.pure ⟨iff_of_true hne (Or.inl hk), fun _ h => absurd h hk⟩

lemma need_of_ne {n : ℕ} (h : blockAt c.blk c.ip n ≠ 0) : need c.blk c.ip n = 0 := if_pos h

lemma bmap_free (hw : Working G inum ∅ c) {n : ℕ} (hn : n < MAXFILE) :
    Wp Unexpected (Sec.bmap G n)
      (fun r _ => r ≠ 0 ↔ need c.blk c.ip n ≤ (freeBlocks G c.blk).card) c := by
  rw [Sec.bmap]
  by_cases hdir : n < NDIRECT
  · rw [dif_pos hdir]
    refine (ensureAddr_free hw _).mono fun r _ hr => hr.1.trans ?_
    have hplace : dataPlace n = some (.direct ⟨n, hdir⟩) := dif_pos hdir
    have hblock : blockAt c.blk c.ip n ≠ 0 ↔ c.ip.addrs ⟨n, Nat.lt_succ_of_lt hdir⟩ ≠ 0 := by
      rw [blockAt_of_dataPlace hplace]
      exact not_congr (UInt32.toNat_inj (b := 0))
    rw [need, ← hblock]
    by_cases hb : blockAt c.blk c.ip n = 0
    · rw [if_neg (not_not.2 hb), if_pos (Or.inl hdir)]
      simp [hb, Nat.one_le_iff_ne_zero, Nat.pos_iff_ne_zero]
    · rw [if_pos hb]
      exact iff_of_true (Or.inl hb) (Nat.zero_le _)
  · have hind : n - NDIRECT < NINDIRECT := by
      rw [MAXFILE] at hn
      omega
    rw [dif_neg hdir, if_pos hind]
    refine Wp.seq ((ensureAddr_spec hw _).and (ensureAddr_free hw _)) fun ind c1 h => ?_
    obtain ⟨⟨hkept, hr, hsame, -⟩, hiff, hcard⟩ := h
    rw [slotOf_last] at hr hsame
    by_cases h0 : ind = 0
    · -- no indirect block and no free block for one
      rw [if_pos h0]
      have hnot := not_congr hiff |>.1 (not_not.2 h0)
      rw [not_or, not_not] at hnot
      have hneed : need c.blk c.ip n = 2 := by
        rw [need, if_neg (not_not.2 (blockAt_of_no_indirect hdir hnot.1)), if_neg]
        rw [not_or, not_not]
        exact ⟨hdir, hnot.1⟩
      refine Wp.pure (iff_of_false (fun h => h rfl) ?_)
      omega
    · have hne1 : c1.ip.addrs (Fin.last NDIRECT) ≠ 0 := by
        intro h
        rw [ref_indirect_eq_zero.2 h] at hr
        exact h0 hr.symm
      have hval : (getEntry (c1.blk ind) (n - NDIRECT)).toNat = blockAt c1.blk c1.ip n := by
        rw [blockAt_entry hdir hind hne1, ← hr]
        rfl
      rw [if_neg h0]
      refine Wp.get_bind ?_
      simp only
      by_cases hz : c.ip.addrs (Fin.last NDIRECT) = 0
      · -- the indirect block is new, and so the entry is empty
        have hnone : blockAt c.blk c.ip n = 0 := blockAt_of_no_indirect hdir hz
        have hneed : need c.blk c.ip n = 2 := by
          rw [need, if_neg (not_not.2 hnone), if_neg]
          rw [not_or, not_not]
          exact ⟨hdir, hz⟩
        obtain ⟨hzero, hleft⟩ := hcard h0 hz
        have he : getEntry (c1.blk ind) (n - NDIRECT) = 0 := by rw [hzero, getEntry_zero]
        rw [if_pos he, hneed]
        refine Wp.seq (balloc_free hkept.working) ?_
        rintro r c2 (⟨rfl, rfl, hfull⟩ | ⟨hr0, -, hleft2⟩)
        · exact Wp.pure (iff_of_false (fun h => h rfl) (by omega))
        · rw [if_neg hr0]
          exact Wp.get_bind (Wp.bind (logWrite_wp fun _ => Wp.pure (iff_of_true hr0 (by omega))))
      · have href : ref c.blk c.ip .indirect ≠ 0 := fun h => hz (ref_indirect_eq_zero.1 h)
        obtain rfl := hsame href
        by_cases he : getEntry (c1.blk ind) (n - NDIRECT) = 0
        · have hnone : blockAt c1.blk c1.ip n = 0 := by
            rw [← hval, he]
            rfl
          have hneed : need c1.blk c1.ip n = 1 := by
            rw [need, if_neg (not_not.2 hnone), if_pos (Or.inr hz)]
          rw [if_pos he, hneed]
          refine Wp.seq (balloc_free hw) ?_
          rintro r c2 (⟨rfl, rfl, hfull⟩ | ⟨hr0, -, hleft⟩)
          · exact Wp.pure (iff_of_false (fun h => h rfl) (by omega))
          · rw [if_neg hr0]
            exact Wp.get_bind (Wp.bind (logWrite_wp fun _ =>
              Wp.pure (iff_of_true hr0 (by omega))))
        · have hb : blockAt c1.blk c1.ip n ≠ 0 := by
            rw [← hval]
            exact fun h => he (UInt32.toNat_inj.1 h)
          rw [if_neg he, need_of_ne hb]
          exact Wp.pure (iff_of_true (hval ▸ hb) (Nat.zero_le _))

lemma mapped_some (f : ℕ → UInt8) (i m : ℕ) : mapped (fun j => some (f j)) i m = m :=
  (mapped_eq_iff i m).2 fun _ _ _ => rfl

lemma writeFrom_entry (hw : Working G inum ∅ c) (f : ℕ → UInt8) {k : ℕ}
    (hk : DESIZE * k + DESIZE ≤ MAXFILE * BSIZE) :
    Wp Unexpected (Sec.writeFrom G (fun i => some (f i)) DESIZE (DESIZE * k) DESIZE 0)
      (fun r _ => r.1 = DESIZE ↔
        need c.blk c.ip (DESIZE * k / BSIZE) ≤ (freeBlocks G c.blk).card) c := by
  have hlt : DESIZE * k / BSIZE < MAXFILE := by
    rw [DESIZE_eq, BSIZE_eq, MAXFILE_eq] at *
    omega
  have hmin : min DESIZE (BSIZE - DESIZE * k % BSIZE) = DESIZE := by
    rw [DESIZE_eq, BSIZE_eq]
    omega
  rw [DESIZE_eq] at hmin ⊢
  rw [Sec.writeFrom, if_neg (by decide)]
  refine Wp.seq (bmap_free hw (by rwa [DESIZE_eq] at hlt)) fun r c1 hr => ?_
  by_cases h0 : r = 0
  · rw [if_pos h0]
    refine Wp.pure ?_
    rw [← hr]
    exact iff_of_false (Nat.succ_ne_zero 15).symm (not_not.2 h0)
  · rw [if_neg h0]
    refine Wp.get_bind ?_
    simp only [mapped_some, hmin, ↓reduceIte]
    refine Wp.bind (logWrite_wp fun l => ?_)
    rw [Sec.writeFrom, if_pos (by decide)]
    exact Wp.pure (iff_of_true rfl (hr.1 h0))

lemma Dir.writeEntry_iff (h : Dir G inum c) (f : ℕ → UInt8) {k : ℕ} (hk : k ≤ nent c.ip) :
    Wp Unexpected (Sec.writei G inum (fun i => some (f i)) (DESIZE * k) DESIZE)
      (fun r _ => r = DESIZE ↔ DESIZE * k + DESIZE ≤ MAXFILE * BSIZE ∧
        need c.blk c.ip (DESIZE * k / BSIZE) ≤ (freeBlocks G c.blk).card) c := by
  have hsize := h.size_eq
  have hmax := h.full.size_le
  have hle : DESIZE * k ≤ c.ip.size.toNat := hsize ▸ Nat.mul_le_mul_left _ hk
  rw [Sec.writei]
  refine Wp.get_bind ?_
  simp only
  rw [if_neg (by rw [DESIZE_eq, BSIZE_eq, MAXFILE_eq] at *; omega)]
  by_cases hbig : MAXFILE * BSIZE < DESIZE * k + DESIZE
  · rw [if_pos hbig]
    exact Wp.pure (iff_of_false (by decide) fun h => absurd h.1 (not_le.2 hbig))
  · rw [if_neg hbig]
    refine Wp.seq (writeFrom_entry h.working f (not_lt.1 hbig)) fun r c1 hr => ?_
    refine Wp.seq (P := fun _ _ => True)
      (when_wp (fun _ => Wp.of_modify trivial) fun _ => trivial) ?_
    intro _ c2 _
    refine Wp.seq (P := fun _ _ => True) (Wp.get_bind (logWrite_wp fun _ => trivial)) ?_
    intro _ c3 _
    refine Wp.pure ?_
    rw [Nat.cast_inj, hr]
    exact (and_iff_right (not_lt.1 hbig)).symm

/-- There is room for one more entry at the end of the directory. -/
def CanGrow (G : Geometry) (d : Disk) (x : Dinode) : Prop :=
  DESIZE * nent x + DESIZE ≤ MAXFILE * BSIZE ∧
    need d x (DESIZE * nent x / BSIZE) ≤ (freeBlocks G d).card

/-- The directory `j` has room for an entry: one of its entries is empty, or it can grow. -/
def HasRoom (G : Geometry) (d : Disk) (j : ℕ) : Prop :=
  (∃ k, k < nent (G.din d j) ∧ entInum d (G.din d j) k = 0) ∨ CanGrow G d (G.din d j)

/-- `dirlink` fails at last only if no entry is empty and the directory cannot grow. -/
lemma Dir.dirlinkEntry_iff (h : Dir G inum c) (name : Name) (i : ℕ) :
    Wp Unexpected (Sec.dirlinkEntry G inum name i)
      (fun r _ => r = false ↔ (∀ k, k < nent c.ip → entInum c.blk c.ip k ≠ 0) ∧
        ¬ CanGrow G c.blk c.ip) c := by
  rw [Sec.dirlinkEntry]
  refine Wp.get_bind (Wp.seq (Wp.of_ok h.emptyScan (Q := fun off c' =>
    off = DESIZE * firstFree c.blk c.ip ∧ c' = c) ⟨rfl, rfl⟩) ?_)
  rintro _ c' ⟨rfl, rfl⟩
  refine Wp.seq (h.writeEntry_iff _ (firstFree_le _ _)) fun r c'' hr => Wp.pure ?_
  rw [decide_eq_false_iff_not, hr, ← firstFree_eq_nent]
  rcases (firstFree_le c'.blk c'.ip).eq_or_lt with heq | hlt
  · rw [heq]
    exact (and_iff_right rfl).symm
  · -- an empty entry lies in a block that exists
    have hsize := h.size_eq
    have hmax := h.full.size_le
    have hoff : DESIZE * firstFree c'.blk c'.ip + DESIZE ≤ c'.ip.size.toNat := by
      rw [DESIZE_eq] at *
      omega
    have hblock : blockAt c'.blk c'.ip (DESIZE * firstFree c'.blk c'.ip / BSIZE) ≠ 0 := by
      refine h.full _ ?_
      have := Nat.div_mul_le_self (DESIZE * firstFree c'.blk c'.ip) BSIZE
      rw [DESIZE_eq] at *
      omega
    refine iff_of_false (not_not.2 ⟨hoff.trans hmax, ?_⟩) fun h => hlt.ne h.1
    rw [need_of_ne hblock]
    exact Nat.zero_le _

end

/-! ## Names -/

/-- The first `DIRSIZ` bytes of a name. -/
def key (name : Name) : Name := name.take DIRSIZ

lemma strncmpEq_iff {s t : ℕ → UInt8} {i n : ℕ} (hs : ∀ j k, s j = 0 → j ≤ k → s k = 0)
    (ht : ∀ j k, t j = 0 → j ≤ k → t k = 0) :
    strncmpEq s t i n = true ↔ ∀ j, i ≤ j → j < i + n → s j = t j := by
  induction n generalizing i with
  | zero => exact iff_of_true rfl fun j h1 h2 => by omega
  | succ n ih =>
    rw [strncmpEq]
    by_cases hi : s i ≠ 0 ∧ s i = t i
    · rw [if_pos hi, ih]
      refine ⟨fun h j h1 h2 => ?_, fun h j h1 h2 => h j (by omega) (by omega)⟩
      rcases h1.eq_or_lt with rfl | hlt
      · exact hi.2
      · exact h j hlt (by omega)
    · rw [if_neg hi, decide_eq_true_iff]
      refine ⟨fun heq j h1 h2 => ?_, fun h => h i le_rfl (by omega)⟩
      -- both strings end here
      have h0 : s i = 0 := by
        by_contra hne
        exact hi ⟨hne, heq⟩
      rw [hs i j h0 h1, ht i j (heq ▸ h0) h1]

lemma getD_eq_zero {name : Name} (h : 0 ∉ name) {j : ℕ} (hj : name.getD j 0 = 0) :
    name.length ≤ j := by
  by_contra hlt
  rw [List.getD_eq_getElem _ _ (not_le.1 hlt)] at hj
  exact h (hj ▸ List.getElem_mem _)

lemma cstr_ended {name : Name} (h : 0 ∉ name) {j k : ℕ} (hj : cstr name j = 0) (hjk : j ≤ k) :
    cstr name k = 0 :=
  List.getD_eq_default _ _ ((getD_eq_zero h hj).trans hjk)

lemma cut_ended {s : ℕ → UInt8} (h : ∀ j k, s j = 0 → j ≤ k → s k = 0) {j k : ℕ}
    (hj : cut s j = 0) (hjk : j ≤ k) : cut s k = 0 := by
  unfold cut at hj ⊢
  by_cases hk : k < DIRSIZ
  · rw [if_pos (by omega)] at hj
    rw [if_pos hk, h j k hj hjk]
  · rw [if_neg hk]

lemma getD_eq_iff_take {a b : Name} (ha : 0 ∉ a) (hb : 0 ∉ b) (n : ℕ) :
    (∀ j, j < n → a.getD j 0 = b.getD j 0) ↔ a.take n = b.take n := by
  refine ⟨fun h => List.ext_getElem? fun j => ?_, fun h j hj => ?_⟩
  · rw [List.getElem?_take, List.getElem?_take]
    by_cases hj : j < n
    · rw [if_pos hj, if_pos hj]
      have heq := h j hj
      rw [List.getD_eq_getElem?_getD, List.getD_eq_getElem?_getD] at heq
      cases hx : a[j]? with
      | none =>
        cases hy : b[j]? with
        | none => rfl
        | some y =>
          rw [hx, hy] at heq
          obtain rfl : (0 : UInt8) = y := heq
          exact absurd (List.mem_of_getElem? hy) hb
      | some x =>
        cases hy : b[j]? with
        | none =>
          rw [hx, hy] at heq
          obtain rfl : x = 0 := heq
          exact absurd (List.mem_of_getElem? hx) ha
        | some y =>
          rw [hx, hy] at heq
          exact congrArg some heq
    · rw [if_neg hj, if_neg hj]
  · have hget := congrArg (fun l : Name => l[j]?) h
    simp only [List.getElem?_take, if_pos hj] at hget
    rw [List.getD_eq_getElem?_getD, List.getD_eq_getElem?_getD, hget]

lemma cut_cstr_inj {a b : Name} (ha : 0 ∉ a) (hb : 0 ∉ b) :
    cut (cstr a) = cut (cstr b) ↔ key a = key b := by
  rw [key, key, ← getD_eq_iff_take ha hb]
  refine ⟨fun h j hj => ?_, fun h => cut_congr h⟩
  have := congrFun h j
  rwa [cut, cut, if_pos hj, if_pos hj] at this

lemma nameMatches_iff {a b : Name} (ha : 0 ∉ a) (hb : 0 ∉ b) :
    nameMatches a (cut (cstr b)) = true ↔ key a = key b := by
  have hcmp := strncmpEq_iff (s := cstr a) (t := cut (cstr b)) (i := 0) (n := DIRSIZ)
    (fun _ _ => cstr_ended ha) fun _ _ => cut_ended fun _ _ => cstr_ended hb
  rw [key, key, ← getD_eq_iff_take ha hb]
  refine hcmp.trans ?_
  refine ⟨fun h j hj => ?_, fun h j _ hj => ?_⟩
  · have := h j (Nat.zero_le _) (by omega)
    rwa [cut, if_pos hj] at this
  · rw [Nat.zero_add] at hj
    rw [cut, if_pos hj]
    exact h j hj

/-! ## Histories -/

namespace Sec

/-- The removal of an entry as `sys_unlink` does it; whether there is one. -/
def removeEntry (G : Geometry) (dinum : ℕ) (name : Name) : Sec Bool := do
  match ← dirlookup G name with
  | none => pure false
  | some (_, off) => do
    eraseEntry G dinum off
    pure true

end Sec

/-- The meaning of a directory. -/
abbrev Map : Type := Name → Option ℕ

/-- The states of a directory that was empty, with the meaning that the operations give it.  A name
is a C string.  In between anything may happen that leaves the bytes of the directory. -/
inductive History (G : Geometry) (dinum : ℕ) : Ictx → Map → Prop
  | start {c : Ictx} (hdir : Dir G dinum c) (hip : c.ip = G.din c.blk dinum)
    (hempty : ∀ k, k < nent c.ip → entInum c.blk c.ip k = 0) : History G dinum c fun _ => none
  | dirlink {c c' : Ictx} {m : Map} {name : Name} {i : ℕ} {r : Bool} (h : History G dinum c m)
    (hname : 0 ∉ name) (hpos : 0 < i) (hi : i < 2 ^ 16)
    (hrun : Sec.dirlink G dinum name i c = .ok (r, c')) :
    History G dinum c' (if r then Function.update m (key name) (some i) else m)
  | remove {c c' : Ictx} {m : Map} {name : Name} {r : Bool} (h : History G dinum c m)
    (hname : 0 ∉ name) (hrun : Sec.removeEntry G dinum name c = .ok (r, c')) :
    History G dinum c' (if r then Function.update m (key name) none else m)
  | other {c c' : Ictx} {m : Map} (h : History G dinum c m) (hdir : Dir G dinum c')
    (hip : c'.ip = G.din c'.blk dinum) (hsize : c'.ip.size = c.ip.size)
    (hcontent : ∀ o, o < c.ip.size.toNat → content c'.blk c'.ip o = content c.blk c.ip o) :
    History G dinum c' m

/-- The entries stand for the map. -/
structure Stands (G : Geometry) (dinum : ℕ) (c : Ictx) (m : Map) : Prop where
  dir : Dir G dinum c
  stored : c.ip = G.din c.blk dinum
  /-- A live entry has a name, and is what the map says of it. -/
  sound : ∀ k, k < nent c.ip → entInum c.blk c.ip k ≠ 0 → ∃ name : Name, 0 ∉ name ∧
    entName c.blk c.ip k = cut (cstr name) ∧ m (key name) = some (entInum c.blk c.ip k)
  /-- What the map says is in some entry. -/
  complete : ∀ name i, 0 ∉ name → m (key name) = some i → ∃ k, k < nent c.ip ∧
    entInum c.blk c.ip k = i ∧ i ≠ 0 ∧ entName c.blk c.ip k = cut (cstr name)
  distinct : ∀ j k, j < nent c.ip → k < nent c.ip → entInum c.blk c.ip j ≠ 0 →
    entInum c.blk c.ip k ≠ 0 → entName c.blk c.ip j = entName c.blk c.ip k → j = k

namespace Stands

variable {G : Geometry} {dinum : ℕ} {c c' : Ictx} {m : Map}

section

variable (h : Stands G dinum c m)

include h

lemma findEntry {name : Name} (hname : 0 ∉ name) :
    (Fs.findEntry c.blk c.ip name).map Prod.fst = m (key name) := by
  cases hf : Fs.findEntry c.blk c.ip name with
  | none =>
    cases hm : m (key name) with
    | none => rfl
    | some i =>
      obtain ⟨k, hk, hinum, h0, hent⟩ := h.complete name i hname hm
      have hno := findEntry_eq_none.1 hf k hk (hinum ▸ h0)
      rw [hent, (nameMatches_iff hname hname).2 rfl] at hno
      cases hno
  | some r =>
    obtain ⟨i, off⟩ := r
    obtain ⟨k, hk, -, hinum, h0, hmatch⟩ := findEntry_eq_some hf
    obtain ⟨name', hname', hent, hm⟩ := h.sound k hk (hinum ▸ h0)
    rw [hent, nameMatches_iff hname hname'] at hmatch
    rw [hmatch, hm, hinum]
    rfl

lemma congr (hdir : Dir G dinum c') (hip : c'.ip = G.din c'.blk dinum)
    (hsize : c'.ip.size = c.ip.size)
    (hcontent : ∀ o, o < c.ip.size.toNat → content c'.blk c'.ip o = content c.blk c.ip o) :
    Stands G dinum c' m := by
  have hnent : nent c'.ip = nent c.ip := by rw [nent, nent, hsize]
  have hn := h.dir.size_eq
  have hbytes : ∀ k, k < nent c.ip → ∀ i, i < DESIZE →
      dirent c'.blk c'.ip k i = dirent c.blk c.ip k i := by
    intro k hk i hi
    refine hcontent _ ?_
    rw [DESIZE_eq] at *
    omega
  have hinum : ∀ k, k < nent c.ip → entInum c'.blk c'.ip k = entInum c.blk c.ip k := by
    intro k hk
    rw [entInum, entInum, deInum, deInum, hbytes k hk 0 (by decide), hbytes k hk 1 (by decide)]
  have hent : ∀ k, k < nent c.ip → entName c'.blk c'.ip k = entName c.blk c.ip k := by
    intro k hk
    refine cut_congr fun i hi => hbytes k hk (2 + i) ?_
    rw [DIRSIZ_eq] at hi
    rw [DESIZE_eq]
    omega
  refine ⟨hdir, hip, fun k hk h0 => ?_, fun name i hname hm => ?_, fun j k hj hk h1 h2 heq => ?_⟩
  · rw [hnent] at hk
    rw [hinum k hk] at h0 ⊢
    rw [hent k hk]
    exact h.sound k hk h0
  · obtain ⟨k, hk, hi, h0, hn⟩ := h.complete name i hname hm
    refine ⟨k, hnent ▸ hk, ?_, h0, ?_⟩
    · rw [hinum k hk, hi]
    · rw [hent k hk, hn]
  · rw [hnent] at hj hk
    rw [hinum j hj] at h1
    rw [hinum k hk] at h2
    rw [hent j hj, hent k hk] at heq
    exact h.distinct j k hj hk h1 h2 heq

lemma bind {name : Name} (hname : 0 ∉ name) {i k : ℕ} (hi : i ≠ 0)
    (hk : k ≤ nent c.ip) (hfree : k < nent c.ip → entInum c.blk c.ip k = 0)
    (hnone : m (key name) = none) (hset : EntrySet G dinum c k i (cut (cstr name)) c') :
    Stands G dinum c' (Function.update m (key name) (some i)) := by
  have hlt : ∀ j, j < nent c'.ip → j ≠ k → j < nent c.ip := by
    intro j hj hne
    rw [hset.nent_eq] at hj
    omega
  have hnew : ∀ j, j < nent c'.ip → entInum c'.blk c'.ip j ≠ 0 → j ≠ k →
      j < nent c.ip ∧ entInum c.blk c.ip j ≠ 0 := by
    intro j hj h0 hne
    rw [hset.inum_eq, if_neg hne] at h0
    exact ⟨hlt j hj hne, h0⟩
  -- the new name is not that of another live entry
  have hother : ∀ j, j < nent c'.ip → entInum c'.blk c'.ip j ≠ 0 → j ≠ k →
      entName c.blk c.ip j ≠ cut (cstr name) := by
    intro j hj h0 hne heq
    obtain ⟨hj', h0'⟩ := hnew j hj h0 hne
    obtain ⟨name', hname', hent, hm⟩ := h.sound j hj' h0'
    rw [hent, cut_cstr_inj hname' hname] at heq
    rw [heq, hnone] at hm
    cases hm
  refine ⟨hset.dir, hset.stored, fun j hj h0 => ?_, fun name' i' hname' hm => ?_,
    fun j l hj hl h1 h2 heq => ?_⟩
  · by_cases hjk : j = k
    · refine ⟨name, hname, ?_, ?_⟩
      · rw [hset.name_eq, if_pos hjk]
      · rw [Function.update_self, hset.inum_eq, if_pos hjk]
    · obtain ⟨hj', h0'⟩ := hnew j hj h0 hjk
      obtain ⟨name', hname', hent, hm⟩ := h.sound j hj' h0'
      have hne : key name' ≠ key name := by
        intro heq
        rw [heq, hnone] at hm
        cases hm
      refine ⟨name', hname', ?_, ?_⟩
      · rw [hset.name_eq, if_neg hjk, hent]
      · rw [Function.update_of_ne hne, hset.inum_eq, if_neg hjk, hm]
  · by_cases hkey : key name' = key name
    · rw [hkey, Function.update_self] at hm
      cases hm
      refine ⟨k, ?_, ?_, hi, ?_⟩
      · rw [hset.nent_eq]
        omega
      · rw [hset.inum_eq, if_pos rfl]
      · rw [hset.name_eq, if_pos rfl, cut_cstr_inj hname hname', hkey]
    · rw [Function.update_of_ne hkey] at hm
      obtain ⟨j, hj, hinum, h0, hent⟩ := h.complete name' i' hname' hm
      have hjk : j ≠ k := by
        rintro rfl
        exact h0 (hinum.symm.trans (hfree hj))
      refine ⟨j, ?_, ?_, h0, ?_⟩
      · rw [hset.nent_eq]
        omega
      · rw [hset.inum_eq, if_neg hjk, hinum]
      · rw [hset.name_eq, if_neg hjk, hent]
  · by_cases hjk : j = k <;> by_cases hlk : l = k
    · rw [hjk, hlk]
    · rw [hset.name_eq, if_pos hjk, hset.name_eq, if_neg hlk] at heq
      exact absurd heq.symm (hother l hl h2 hlk)
    · rw [hset.name_eq, if_neg hjk, hset.name_eq, if_pos hlk] at heq
      exact absurd heq (hother j hj h1 hjk)
    · rw [hset.name_eq, if_neg hjk, hset.name_eq, if_neg hlk] at heq
      obtain ⟨hj', h1'⟩ := hnew j hj h1 hjk
      obtain ⟨hl', h2'⟩ := hnew l hl h2 hlk
      exact h.distinct j l hj' hl' h1' h2' heq

lemma unbind {name : Name} (hname : 0 ∉ name) {k : ℕ}
    (hk : k < nent c.ip) (h0 : entInum c.blk c.ip k ≠ 0)
    (hmatch : nameMatches name (entName c.blk c.ip k) = true) {s : ℕ → UInt8}
    (hset : EntrySet G dinum c k 0 s c') :
    Stands G dinum c' (Function.update m (key name) none) := by
  have hnent : nent c'.ip = nent c.ip := by
    rw [hset.nent_eq]
    omega
  have hkeep : ∀ j, entInum c'.blk c'.ip j ≠ 0 → j ≠ k ∧ entInum c.blk c.ip j ≠ 0 := by
    intro j hj
    rw [hset.inum_eq] at hj
    by_cases hjk : j = k
    · rw [if_pos hjk] at hj
      exact absurd rfl hj
    · rw [if_neg hjk] at hj
      exact ⟨hjk, hj⟩
  obtain ⟨nameₖ, hnameₖ, hentₖ, -⟩ := h.sound k hk h0
  rw [hentₖ, nameMatches_iff hname hnameₖ] at hmatch
  refine ⟨hset.dir, hset.stored, fun j hj hj0 => ?_, fun name' i' hname' hm => ?_,
    fun j l hj hl h1 h2 heq => ?_⟩
  · obtain ⟨hjk, hj0'⟩ := hkeep j hj0
    obtain ⟨name', hname', hent, hm⟩ := h.sound j (hnent ▸ hj) hj0'
    have hne : key name' ≠ key name := by
      intro heq
      have hsame : entName c.blk c.ip j = entName c.blk c.ip k := by
        rw [hent, hentₖ, cut_cstr_inj hname' hnameₖ, heq, hmatch]
      exact hjk (h.distinct j k (hnent ▸ hj) hk hj0' h0 hsame)
    refine ⟨name', hname', ?_, ?_⟩
    · rw [hset.name_eq, if_neg hjk, hent]
    · rw [Function.update_of_ne hne, hset.inum_eq, if_neg hjk, hm]
  · by_cases hkey : key name' = key name
    · rw [hkey, Function.update_self] at hm
      cases hm
    · rw [Function.update_of_ne hkey] at hm
      obtain ⟨j, hj, hinum, hi0, hent⟩ := h.complete name' i' hname' hm
      have hjk : j ≠ k := by
        rintro rfl
        rw [hentₖ, cut_cstr_inj hnameₖ hname'] at hent
        exact hkey (hent.symm.trans hmatch.symm)
      refine ⟨j, hnent ▸ hj, ?_, hi0, ?_⟩
      · rw [hset.inum_eq, if_neg hjk, hinum]
      · rw [hset.name_eq, if_neg hjk, hent]
  · obtain ⟨hjk, hj0⟩ := hkeep j h1
    obtain ⟨hlk, hl0⟩ := hkeep l h2
    rw [hset.name_eq, if_neg hjk, hset.name_eq, if_neg hlk] at heq
    exact h.distinct j l (hnent ▸ hj) (hnent ▸ hl) hj0 hl0 heq

lemma dirlink {name : Name} (hname : 0 ∉ name) {i : ℕ} (hpos : 0 < i) (hi : i < 2 ^ 16) :
    Wp Unexpected (Sec.dirlink G dinum name i)
      (fun r c' => Stands G dinum c' (if r then Function.update m (key name) (some i) else m) ∧
        (r = false ↔ m (key name) ≠ none ∨
          (∀ k, k < nent c.ip → entInum c.blk c.ip k ≠ 0) ∧ ¬ CanGrow G c.blk c.ip)) c := by
  have hfind := h.findEntry hname
  rw [Sec.dirlink]
  refine Wp.seq (Wp.of_ok (h.dir.dirlookup name) (Q := fun r c' =>
    r = Fs.findEntry c.blk c.ip name ∧ c' = c) ⟨rfl, rfl⟩) ?_
  rintro _ c1 ⟨rfl, rfl⟩
  cases hf : Fs.findEntry c1.blk c1.ip name with
  | some e =>
    rw [hf] at hfind
    refine Wp.pure ⟨h, iff_of_true rfl (Or.inl ?_)⟩
    rw [← hfind]
    exact Option.some_ne_none _
  | none =>
    rw [hf] at hfind
    refine ((h.dir.dirlinkEntry h.stored name hi).and (h.dir.dirlinkEntry_iff name i)).mono ?_
    rintro r c' ⟨hr, hiff⟩
    refine ⟨?_, hiff.trans ?_⟩
    · rcases hr with ⟨rfl, hset⟩ | ⟨rfl, -, hsame⟩
      · exact h.bind hname hpos.ne' (firstFree_le _ _) entInum_firstFree hfind.symm hset
      · refine h.congr hsame.dir hsame.stored ?_ fun o _ => hsame.content_eq o
        rw [hsame.fields]
    · rw [← hfind]
      simp

lemma removeEntry {name : Name} (hname : 0 ∉ name) :
    Wp Unexpected (Sec.removeEntry G dinum name)
      (fun r c' => Stands G dinum c' (if r then Function.update m (key name) none else m) ∧
        (r = true ↔ m (key name) ≠ none)) c := by
  have hfind := h.findEntry hname
  rw [Sec.removeEntry]
  refine Wp.seq (Wp.of_ok (h.dir.dirlookup name) (Q := fun r c' =>
    r = Fs.findEntry c.blk c.ip name ∧ c' = c) ⟨rfl, rfl⟩) ?_
  rintro _ c1 ⟨rfl, rfl⟩
  cases hf : Fs.findEntry c1.blk c1.ip name with
  | none =>
    rw [hf] at hfind
    refine Wp.pure ⟨h, iff_of_false Bool.false_ne_true ?_⟩
    rw [← hfind]
    exact fun hne => hne rfl
  | some e =>
    obtain ⟨i, off⟩ := e
    rw [hf] at hfind
    obtain ⟨k, hk, rfl, hinum, h0, hmatch⟩ := findEntry_eq_some hf
    refine Wp.seq (h.dir.eraseEntry h.stored hk) fun _ c' hset => Wp.pure ⟨?_, iff_of_true rfl ?_⟩
    · exact h.unbind hname hk (hinum ▸ h0) hmatch hset
    · rw [← hfind]
      exact Option.some_ne_none _

end

end Stands

lemma History.stands {G : Geometry} {dinum : ℕ} {c : Ictx} {m : Map} (h : History G dinum c m) :
    Stands G dinum c m := by
  induction h with
  | start hdir hip hempty =>
    refine ⟨hdir, hip, fun k hk h0 => absurd (hempty k hk) h0, fun _ _ _ hm => ?_,
      fun j k hj _ h1 => absurd (hempty j hj) h1⟩
    cases hm
  | dirlink _ hname hpos hi hrun ih => exact ((ih.dirlink hname hpos hi).result hrun).1
  | remove _ hname hrun ih => exact ((ih.removeEntry hname).result hrun).1
  | other _ hdir hip hsize hcontent ih => exact ih.congr hdir hip hsize hcontent

/-! ## The operations return -/

section

variable {G : Geometry} {dinum : ℕ} {c : Ictx}

lemma Dir.setLog (h : Dir G dinum c) (l : Log) : Dir G dinum { c with log := l } :=
  ⟨⟨h.working.lt, h.working.type_ne, h.working.owned⟩, h.full, h.aligned, h.isDir⟩

lemma Dir.lookup_foot (h : Dir G dinum c) (name : Name) :
    Foot (Sec.dirlookup G name) c.blk c.ip
      fun S r d x => S = ∅ ∧ r = findEntry c.blk c.ip name ∧ d = c.blk ∧ x = c.ip :=
  Foot.of_eq (fun l => (h.setLog l).dirlookup name) ⟨rfl, rfl, rfl, rfl⟩

lemma entry_foot (src : ℕ → Option UInt8) (k : ℕ) :
    Foot (Sec.writei G dinum src (DESIZE * k) DESIZE) c.blk c.ip fun S _ _ _ => S.card ≤ 5 := by
  refine (writei_foot dinum src (DESIZE * k) DESIZE).mono ?_
  rintro S _ _ _ (rfl | ⟨-, S', T, x', rfl, h⟩)
  · exact Nat.zero_le _
  · have h1 := (Finset.card_le_card h.sub).trans (Finset.card_union_le T (inds x'))
    have h2 := card_inds x'
    have h3 := card_inds c.ip
    have h4 := h.card
    have h5 := Finset.card_union_le S' {G.IBLOCK dinum}
    have hblocks : nblocks (DESIZE * k) DESIZE = 1 := by
      rw [nblocks, if_neg (by decide), DESIZE_eq, BSIZE_eq]
      omega
    rw [Finset.card_singleton] at h5
    omega

lemma Dir.dirlink_foot (h : Dir G dinum c) (name : Name) (i : ℕ) :
    Foot (Sec.dirlink G dinum name i) c.blk c.ip fun S _ _ _ => S.card ≤ 5 := by
  rw [Sec.dirlink]
  refine Foot.seq (h.lookup_foot name) ?_
  rintro _ _ _ _ ⟨rfl, rfl, rfl, rfl⟩
  cases findEntry c.blk c.ip name with
  | some e => exact Foot.pure (by simp)
  | none =>
    refine Foot.get (fun _ => rfl) ?_
    refine Foot.seq (Foot.of_eq (Q := fun S off d x => S = ∅ ∧
      off = DESIZE * firstFree c.blk c.ip ∧ d = c.blk ∧ x = c.ip)
      (fun l => (h.setLog l).emptyScan) ⟨rfl, rfl, rfl, rfl⟩) ?_
    rintro _ _ _ _ ⟨rfl, rfl, rfl, rfl⟩
    refine Foot.seq (entry_foot _ _) fun S r d x hS => Foot.pure ?_
    simpa using hS

lemma Dir.removeEntry_foot (h : Dir G dinum c) (hip : c.ip = G.din c.blk dinum) (name : Name) :
    Foot (Sec.removeEntry G dinum name) c.blk c.ip fun S _ _ _ => S.card ≤ 5 := by
  rw [Sec.removeEntry]
  refine Foot.seq (h.lookup_foot name) ?_
  rintro _ _ _ _ ⟨rfl, rfl, rfl, rfl⟩
  cases hf : findEntry c.blk c.ip name with
  | none => exact Foot.pure (by simp)
  | some e =>
    obtain ⟨i, off⟩ := e
    obtain ⟨k, hk, rfl, -⟩ := findEntry_eq_some hf
    -- the entry exists, so that writing it cannot fail
    have hwrite : Foot (Sec.writei G dinum (fun _ => some 0) (DESIZE * k) DESIZE) c.blk c.ip
        fun S r _ _ => S.card ≤ 5 ∧ r = DESIZE := by
      have hfoot : Foot (Sec.writei G dinum (fun _ => some 0) (DESIZE * k) DESIZE) c.blk c.ip
          fun S _ _ _ => S.card ≤ 5 := entry_foot _ k
      have hsucc : ∀ l, Wp Unexpected (Sec.writei G dinum (fun _ => some 0) (DESIZE * k) DESIZE)
          (fun r _ => r = DESIZE) ⟨c.blk, l, c.ip⟩ := by
        intro l
        refine ((h.setLog l).writeEntry hip hk.le (f := fun _ => 0)).mono ?_
        rintro r c' (⟨hr, -⟩ | ⟨-, heq, -⟩)
        · exact hr
        · exact absurd heq hk.ne
      exact hfoot.and_wp (fun S _ _ _ hS => lt_of_le_of_lt hS (by decide)) hsucc
    refine Foot.seq (P := fun S _ _ _ => S.card ≤ 5) ?_ fun S _ d x hS => Foot.pure ?_
    · refine Foot.seq hwrite ?_
      rintro S r d x ⟨hS, rfl⟩
      rw [if_pos rfl]
      exact Foot.pure (by simpa using hS)
    · simpa using hS

end

/-! ## The map -/

/-- The directory is the finite map `m`. -/
structure IsMap (G : Geometry) (dinum : ℕ) (c : Ictx) (m : Map) : Prop where
  /-- No two live entries have the same name. -/
  distinct : ∀ j k, j < nent c.ip → k < nent c.ip → entInum c.blk c.ip j ≠ 0 →
    entInum c.blk c.ip k ≠ 0 → entName c.blk c.ip j = entName c.blk c.ip k → j = k
  /-- `dirlookup` evaluates the map, and finds the offset of the entry. -/
  dirlookup : ∀ (name : Name) l, 0 ∉ name → ∃ r,
    Sec.dirlookup G name { c with log := l } = .ok (r, { c with log := l }) ∧
      r.map Prod.fst = m (key name) ∧
      ∀ i off, r = some (i, off) → ∃ k, k < nent c.ip ∧ off = DESIZE * k ∧
        entInum c.blk c.ip k = i ∧ entName c.blk c.ip k = cut (cstr name)
  /-- `dirlink` returns, and fails exactly in two cases. -/
  dirlink : ∀ (name : Name) i (l : Log), 0 ∉ name → 0 < i → i < 2 ^ 16 → l.Begun → ∃ r c',
    Sec.dirlink G dinum name i { c with log := l } = .ok (r, c') ∧
      (r = false ↔ m (key name) ≠ none ∨
        (∀ k, k < nent c.ip → entInum c.blk c.ip k ≠ 0) ∧ ¬ CanGrow G c.blk c.ip)
  /-- A removal returns, and fails exactly if there is nothing to remove. -/
  removeEntry : ∀ (name : Name) (l : Log), 0 ∉ name → l.Begun → ∃ r c',
    Sec.removeEntry G dinum name { c with log := l } = .ok (r, c') ∧
      (r = true ↔ m (key name) ≠ none)

/-- A directory that started empty is, in every state of every history, the finite map that its
operations make: a successful `dirlink` binds the key, a removal unbinds it, and a `dirlink` that
fails leaves the map as it is. -/
theorem history_map {G : Geometry} {dinum : ℕ} {c : Ictx} {m : Map} (h : History G dinum c m) :
    IsMap G dinum c m := by
  have hst := h.stands
  have hlog : ∀ l : Log, Stands G dinum { c with log := l } m := fun l =>
    hst.congr (hst.dir.setLog l) hst.stored rfl fun _ _ => rfl
  refine ⟨hst.distinct, fun name l hname => ?_, fun name i l hname hpos hi hl => ?_,
    fun name l hname hl => ?_⟩
  · refine ⟨_, (hst.dir.setLog l).dirlookup name, hst.findEntry hname, fun i off hr => ?_⟩
    obtain ⟨k, hk, hoff, hinum, h0, hmatch⟩ := findEntry_eq_some hr
    obtain ⟨name', hname', hent, -⟩ := hst.sound k hk (hinum ▸ h0)
    refine ⟨k, hk, hoff, hinum, ?_⟩
    rw [hent, nameMatches_iff hname hname'] at hmatch
    rw [hent, cut_cstr_inj hname' hname, hmatch]
  · obtain ⟨S, r, d', x', hS, hsees⟩ := hst.dir.dirlink_foot name i
    obtain ⟨l', -, hrun⟩ := hsees l (hl.room (lt_of_le_of_lt (Nat.succ_le_succ hS) (by decide)))
    exact ⟨r, _, hrun, (((hlog l).dirlink hname hpos hi).result hrun).2⟩
  · obtain ⟨S, r, d', x', hS, hsees⟩ := hst.dir.removeEntry_foot hst.stored name
    obtain ⟨l', -, hrun⟩ := hsees l (hl.room (lt_of_le_of_lt (Nat.succ_le_succ hS) (by decide)))
    exact ⟨r, _, hrun, (((hlog l).removeEntry hname).result hrun).2⟩

/-! ## A directory on a small disk -/

/-- The file of the small disk, as a directory. -/
def smallDir : Ictx :=
  ⟨smallGeometry.putDin smallDisk 2 { emptyFile with type := T_DIR }, (Log.init 30).beginOp,
    { emptyFile with type := T_DIR }⟩

lemma smallDir_stored : smallDir.ip = smallGeometry.din smallDir.blk 2 :=
  ((Geometry.din_putDin 2 2 _).trans (if_pos rfl)).symm

lemma dir_smallDir : Dir smallGeometry 2 smallDir := by
  have hfile : Working smallGeometry 2 ∅ ⟨smallDisk, (Log.init 30).beginOp, emptyFile⟩ :=
    solid_smallDisk.working (by rw [din_smallDisk (by decide)]; rfl) (by decide) (by decide)
  have hdir := hfile.set_ip (x := { emptyFile with type := T_DIR }) rfl (by decide)
  exact ⟨(hdir.store (Log.init 30).beginOp).1, fun n hn => absurd hn (Nat.not_lt_zero _), rfl, rfl⟩

lemma canGrow_smallDir : CanGrow smallGeometry smallDir.blk smallDir.ip := by
  refine ⟨by decide, ?_⟩
  have hneed : need smallDir.blk smallDir.ip (DESIZE * nent smallDir.ip / BSIZE) ≤ 1 := by
    rw [need, if_pos (Or.inl (by decide : DESIZE * nent smallDir.ip / BSIZE < NDIRECT))]
    split <;> decide
  have hfree : 6 ∈ freeBlocks smallGeometry smallDir.blk := by
    refine Finset.mem_filter.2 ⟨by decide, ?_⟩
    rw [smallDir, Geometry.bit_putDin (by decide) _ (by decide), bit_smallDisk (by decide)]
    rfl
  exact hneed.trans (Finset.card_pos.2 ⟨6, hfree⟩)

/-- A name of fifteen bytes. -/
def fifteen : Name := List.replicate 15 97

/-- The name of fifteen bytes is entered in an empty directory; it is found again under its first
fourteen bytes. -/
theorem history_map_fifteen : ∃ c, History smallGeometry 2 c
      (Function.update (fun _ => none) (key fifteen) (some 3)) ∧
    ∃ off, Sec.dirlookup smallGeometry (List.replicate 14 97) c = .ok (some (3, off), c) := by
  have hstart : History smallGeometry 2 smallDir fun _ => none :=
    .start dir_smallDir smallDir_stored fun k hk => absurd hk (Nat.not_lt_zero _)
  have hbegun : smallDir.log.Begun := ⟨by decide, by decide, by decide, by decide⟩
  obtain ⟨r, c', hrun, hr⟩ :=
    (history_map hstart).dirlink fifteen 3 smallDir.log (by decide) (by decide) (by decide) hbegun
  have hok : r = true := by
    cases r with
    | true => rfl
    | false =>
      rcases hr.1 rfl with hne | hno
      · exact absurd rfl hne
      · exact absurd canGrow_smallDir hno.2
  subst hok
  have hlinked := History.dirlink hstart (by decide) (by decide) (by decide) hrun
  refine ⟨c', hlinked, ?_⟩
  obtain ⟨e, hlook, hval, -⟩ :=
    (history_map hlinked).dirlookup (List.replicate 14 97) c'.log (by decide)
  have hkey : key (List.replicate 14 97) = key fifteen := by decide
  rw [hkey] at hval
  simp only [↓reduceIte, Function.update_self] at hval
  obtain ⟨⟨i, off⟩, rfl, hi⟩ := Option.map_eq_some_iff.1 hval
  cases hi
  exact ⟨off, hlook⟩

end Xv6.Fs
