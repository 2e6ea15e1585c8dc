import Xv6.Vm.Alone
import Xv6.Vm.Loading
import Xv6.Vm.AddressSpace

/-!
# Copies between the kernel and user memory

`copyout`, `copyin` and `copyinstr` go through a range of user memory page by page.  For any page
table whose user pages are distinct, and for any address and length: when they succeed, which bytes
they change or get, and that they never panic.

The pages that a range of `len` bytes from `a` on meets are those of its bytes, `(a + i) / PGSIZE`
for `i < len`.  Sums are not reduced modulo `2 ^ 64` here, so a range that wraps around meets pages
above `MAXVA`.
-/

namespace Xv6.Vm

open Concur

variable {N : ℕ}

/-- The user may read the virtual page `v`. -/
def PageTable.Readable (pt : PageTable) (v : ℕ) : Prop :=
  v * PGSIZE < MAXVA ∧ (pt.leaf v).flags.v = true ∧ (pt.leaf v).flags.u = true

/-- The user may write to the virtual page `v`. -/
def PageTable.Writable (pt : PageTable) (v : ℕ) : Prop := pt.Readable v ∧ (pt.leaf v).flags.w = true

instance (pt : PageTable) (v : ℕ) : Decidable (pt.Readable v) := inferInstanceAs (Decidable (_ ∧ _))

instance (pt : PageTable) (v : ℕ) : Decidable (pt.Writable v) := inferInstanceAs (Decidable (_ ∧ _))

/-- No physical page is two pages of user memory. -/
def PageTable.Distinct (pt : PageTable) : Prop :=
  ∀ v w, pt.Readable v → pt.Readable w → (pt.leaf v).page = (pt.leaf w).page → v = w

/-- The byte of user memory at `a`. -/
def PageTable.byte (pt : PageTable) (m : St N) (a : ℕ) : UInt8 :=
  (m.data (pt.leaf (a / PGSIZE)).page).get (a % PGSIZE)

/-- The `len` bytes of user memory from `a` on. -/
def PageTable.bytes (pt : PageTable) (m : St N) (a len : ℕ) : List UInt8 :=
  (List.range len).map fun i => pt.byte m (a + i)

/-- The first `k` bytes of `src` have been stored at `dstva`, and nothing else has changed. -/
structure Written (pt : PageTable) (dstva : ℕ) (src : List UInt8) (k : ℕ) (m m' : St N) : Prop where
  bytes : ∀ i, i < k → pt.byte m' (dstva + i) = src.getD i 0
  others : ∀ q off, off < PGSIZE →
    (∀ i, i < k → q = (pt.leaf ((dstva + i) / PGSIZE)).page → off ≠ (dstva + i) % PGSIZE) →
    (m'.data q).get off = (m.data q).get off
  rest : m' = { m with data := m'.data }

/-! ## One page -/

lemma sub_pgRoundDown (a : ℕ) : a - pgRoundDown a = a % PGSIZE := by
  simp only [pgRoundDown, PGSIZE_eq]
  omega

lemma chunk_page {a n i : ℕ} (hn : n ≤ PGSIZE - a % PGSIZE) (hi : i < n) :
    (a + i) / PGSIZE = a / PGSIZE ∧ (a + i) % PGSIZE = a % PGSIZE + i := by
  simp only [PGSIZE_eq] at hn ⊢
  omega

/-- What one round copies of `left` bytes from `a` on. -/
lemma exists_chunk (a left : ℕ) : ∃ n, min (PGSIZE - a % PGSIZE) left = n ∧
    n ≤ PGSIZE - a % PGSIZE ∧ 0 < PGSIZE - a % PGSIZE :=
  ⟨_, rfl, Nat.min_le_left _ _, Nat.sub_pos_of_lt (Nat.mod_lt _ (by decide))⟩

lemma u64_next_page {a : ℕ} (h : a / PGSIZE * PGSIZE < MAXVA) :
    u64 (pgRoundDown a + PGSIZE) = a + (PGSIZE - a % PGSIZE) := by
  simp only [u64, pgRoundDown, MAXVA_eq, PGSIZE_eq] at h ⊢
  omega

section

variable {stop : Option Panic → Prop} {m m' : St N} {pt : PageTable} {a k len : ℕ}

lemma walkaddr_page (pt : PageTable) (a : ℕ) : walkaddr (N := N) pt (pgRoundDown a) =
    pure (if pt.Readable (a / PGSIZE) then (pt.leaf (a / PGSIZE)).page else 0) := by
  have hdiv : pgRoundDown a / PGSIZE = a / PGSIZE := mul_PGSIZE_div _
  by_cases hmax : MAXVA ≤ pgRoundDown a
  · rw [walkaddr, if_pos hmax, if_neg fun h => absurd h.1 (not_lt.2 hmax)]
  · rw [walkaddr, if_neg hmax, walk_false pt (not_le.1 hmax), hdiv]
    simp only [Prog.pure_eq, Prog.ret_bind, PageTable.pte_eq_leaf, hdiv]
    by_cases hv : (pt.leaf (a / PGSIZE)).flags.v = true
    · rw [PageTable.reaches_of_valid hv]
      by_cases hu : (pt.leaf (a / PGSIZE)).flags.u = true
      · rw [if_pos (c := pt.Readable _) ⟨not_le.1 hmax, hv, hu⟩]
        simp only [hv, hu, Bool.true_eq_false, if_false]
      · rw [if_neg (c := pt.Readable _) fun h => hu h.2.2]
        simp only [hv, Bool.eq_false_of_not_eq_true hu, Bool.true_eq_false, if_false, if_true]
    · rw [if_neg (c := pt.Readable _) fun h => hv h.2.1]
      simp only [Bool.eq_false_of_not_eq_true hv, if_true, ite_self]

/-! ## `copyin` -/

@[simp] lemma PageTable.length_bytes (pt : PageTable) (m : St N) (a len : ℕ) :
    (pt.bytes m a len).length = len := by
  simp [PageTable.bytes]

lemma PageTable.bytes_chunk {n : ℕ} (hn : n ≤ PGSIZE - (a + k) % PGSIZE) :
    pt.bytes m a (k + n) = pt.bytes m a k ++ (List.range n).map fun i =>
      (m.data (pt.leaf ((a + k) / PGSIZE)).page).get ((a + k) % PGSIZE + i) := by
  rw [PageTable.bytes, List.range_add, List.map_append, List.map_map]
  refine congrArg _ (List.map_congr_left fun i hi => ?_)
  obtain ⟨hdiv, hmod⟩ := chunk_page hn (List.mem_range.1 hi)
  rw [Function.comp_apply, PageTable.byte, ← Nat.add_assoc, hdiv, hmod]

lemma forall_chunk {P : ℕ → Prop} {n : ℕ} (hn : n ≤ PGSIZE - (a + k) % PGSIZE)
    (hk : ∀ i, i < k → P ((a + i) / PGSIZE)) (hpage : P ((a + k) / PGSIZE)) :
    ∀ i, i < k + n → P ((a + i) / PGSIZE) := by
  intro i hi
  by_cases hik : i < k
  · exact hk i hik
  · have hdiv := (chunk_page hn (i := i - k) (by omega)).1
    rw [show a + k + (i - k) = a + i by omega] at hdiv
    rwa [hdiv]

lemma copyin_ends (pt : PageTable) (hzero : ∀ v, pt.Readable v → (pt.leaf v).page ≠ 0)
    (srcva len : ℕ) :
    Ends (fun _ => True) stop (copyin pt srcva len) m fun r m' => m' = m ∧
      (r.1 = true ↔ ∀ i, i < len → pt.Readable ((srcva + i) / PGSIZE)) ∧
      (r.1 = true → r.2 = pt.bytes m srcva len) := by
  rw [copyin]
  -- `k` bytes have been read
  refine Ends.iterateMeasure (fun b m' => m = m' ∧ ∃ k, k + b.2.1 = len ∧
    (0 < b.2.1 → b.1 = srcva + k) ∧ (∀ i, i < k → pt.Readable ((srcva + i) / PGSIZE)) ∧
    b.2.2 = pt.bytes m srcva k) (fun b => b.2.1) ?_
    ⟨rfl, 0, Nat.zero_add len, fun _ => rfl, fun i hi => absurd hi (Nat.not_lt_zero i), rfl⟩
  rintro ⟨va, left, dst⟩ m' ⟨rfl, k, hk, hva, hread, hdst⟩
  dsimp only at hk hva hdst ⊢
  subst hdst
  split
  · rename_i hleft
    rw [hva hleft, walkaddr_page]
    simp only [Prog.pure_eq, Prog.ret_bind]
    by_cases hpage : pt.Readable ((srcva + k) / PGSIZE)
    · rw [if_pos hpage, if_neg (hzero _ hpage), sub_pgRoundDown, u64_next_page hpage.1]
      obtain ⟨n, hn, hchunk, hpos⟩ := exists_chunk (srcva + k) left
      rw [hn]
      refine Ends.seq (P := fun page m' => page = m.data (pt.leaf ((srcva + k) / PGSIZE)).page ∧
        m = m') (Ends.read trivial ⟨rfl, rfl⟩) ?_
      rintro _ _ ⟨rfl, rfl⟩
      refine .ret ⟨⟨rfl, k + n, show k + n + (left - n) = len by omega, fun h => ?_,
        forall_chunk hchunk hread hpage, ?_⟩, show left - n < left by omega⟩
      · dsimp only at h ⊢
        omega
      · exact (PageTable.bytes_chunk hchunk).symm
    · rw [if_neg hpage, if_pos rfl]
      refine .ret ⟨rfl, ⟨by rintro ⟨⟩, fun h => absurd (h k (by omega)) hpage⟩,
        by rintro ⟨⟩⟩
  · have hlen : k = len := by omega
    subst hlen
    exact .ret ⟨rfl, ⟨fun _ => hread, fun _ => rfl⟩, fun _ => rfl⟩

/-! ## `copyinstr` -/

lemma copyChars_cases (p : ℕ → UInt8) (n i max : ℕ) (dst : List UInt8) :
    (∃ j, j < n ∧ p (i + j) = 0 ∧ (∀ l, l < j → p (i + l) ≠ 0) ∧
      copyChars p n i max dst =
        (true, max - j, dst ++ (List.range j).map (fun l => p (i + l)) ++ [0])) ∨
    ((∀ l, l < n → p (i + l) ≠ 0) ∧ copyChars p n i max dst =
      (false, max - n, dst ++ (List.range n).map fun l => p (i + l))) := by
  induction n generalizing i max dst with
  | zero => exact .inr ⟨fun l hl => absurd hl (Nat.not_lt_zero l), by simp [copyChars]⟩
  | succ n ih =>
    by_cases hp : p i = 0
    · exact .inl ⟨0, Nat.succ_pos n, hp, fun l hl => absurd hl (Nat.not_lt_zero l),
        by simp [copyChars, hp]⟩
    · have hhead : ∀ {j}, (∀ l, l < j → p (i + 1 + l) ≠ 0) → ∀ l, l < j + 1 → p (i + l) ≠ 0 := by
        intro j h l hl
        cases l with
        | zero => exact hp
        | succ l =>
          rw [Nat.add_comm l 1, ← Nat.add_assoc]
          exact h l (by omega)
      have hlist : ∀ j, dst ++ [p i] ++ (List.range j).map (fun l => p (i + 1 + l)) =
          dst ++ (List.range (j + 1)).map fun l => p (i + l) := by
        intro j
        rw [List.range_succ_eq_map, List.map_cons, List.map_map, List.append_assoc]
        simp only [List.singleton_append, Function.comp_def, Nat.add_right_comm i 1]
        rfl
      rw [copyChars, if_neg hp]
      rcases ih (i + 1) (max - 1) (dst ++ [p i]) with ⟨j, hj, hnul, hbefore, heq⟩ | ⟨hall, heq⟩
      · refine .inl ⟨j + 1, by omega, ?_, hhead hbefore, ?_⟩
        · rw [← hnul, Nat.add_right_comm]
          rfl
        · rw [heq, hlist, Nat.sub_sub, Nat.add_comm 1 j]
      · refine .inr ⟨hhead hall, ?_⟩
        rw [heq, hlist, Nat.sub_sub, Nat.add_comm 1 n]

/-- The first NUL of user memory from `a` on is `k` bytes further, and all up to it is readable. -/
structure PageTable.StringAt (pt : PageTable) (m : St N) (a k : ℕ) : Prop where
  nul : pt.byte m (a + k) = 0
  nonzero : ∀ i, i < k → pt.byte m (a + i) ≠ 0
  readable : ∀ i, i ≤ k → pt.Readable ((a + i) / PGSIZE)

lemma PageTable.StringAt.not_of_nonzero {srcva max : ℕ}
    (h : ∀ i, i < max → pt.byte m (srcva + i) ≠ 0) : ¬ ∃ k, k < max ∧ pt.StringAt m srcva k := by
  rintro ⟨k, hk, hstr⟩
  exact h k hk hstr.nul

lemma copyinstr_ends (pt : PageTable) (hzero : ∀ v, pt.Readable v → (pt.leaf v).page ≠ 0)
    (srcva max : ℕ) :
    Ends (fun _ => True) stop (copyinstr pt srcva max) m fun r m' => m' = m ∧
      (r.1 = true ↔ ∃ k, k < max ∧ pt.StringAt m srcva k) ∧
      (r.1 = true → ∃ k, k < max ∧ pt.StringAt m srcva k ∧ r.2 = pt.bytes m srcva k ++ [0]) := by
  rw [copyinstr]
  -- `k` bytes have been read, none of them a NUL, or the string has been found
  refine Ends.iterateMeasure (fun b m' => m = m' ∧
    (b.2.1 = true ∧ (∃ k, k < max ∧ pt.StringAt m srcva k ∧ b.2.2.2 = pt.bytes m srcva k ++ [0]) ∨
      b.2.1 = false ∧ ∃ k, k + b.2.2.1 = max ∧ (0 < b.2.2.1 → b.1 = srcva + k) ∧
        (∀ i, i < k → pt.Readable ((srcva + i) / PGSIZE)) ∧
        (∀ i, i < k → pt.byte m (srcva + i) ≠ 0) ∧ b.2.2.2 = pt.bytes m srcva k))
    (fun b => if b.2.1 = true then 0 else b.2.2.1 + 1) ?_ ⟨rfl, .inr ⟨rfl, 0, Nat.zero_add max,
      fun _ => rfl, fun i hi => absurd hi (Nat.not_lt_zero i),
      fun i hi => absurd hi (Nat.not_lt_zero i), rfl⟩⟩
  rintro ⟨va, gotNull, left, dst⟩ m' ⟨rfl, hstate⟩
  dsimp only at hstate ⊢
  rcases hstate with ⟨rfl, hfound⟩ | ⟨rfl, k, hk, hva, hread, hnonzero, hdst⟩
  · rw [if_neg fun h => by cases h.1]
    obtain ⟨k, hk, hstr, hbytes⟩ := hfound
    exact .ret ⟨rfl, ⟨fun _ => ⟨k, hk, hstr⟩, fun _ => rfl⟩, fun _ => ⟨k, hk, hstr, hbytes⟩⟩
  subst hdst
  by_cases hleft : 0 < left
  · rw [if_pos ⟨rfl, hleft⟩, hva hleft, walkaddr_page]
    simp only [Prog.pure_eq, Prog.ret_bind]
    by_cases hpage : pt.Readable ((srcva + k) / PGSIZE)
    · rw [if_pos hpage, if_neg (hzero _ hpage), sub_pgRoundDown, u64_next_page hpage.1]
      obtain ⟨n, hn, hchunk, hpos⟩ := exists_chunk (srcva + k) left
      rw [hn]
      refine Ends.seq (P := fun page m' => page = m.data (pt.leaf ((srcva + k) / PGSIZE)).page ∧
        m = m') (Ends.read trivial ⟨rfl, rfl⟩) ?_
      rintro _ _ ⟨rfl, rfl⟩
      have hbyte : ∀ l, l < n → (m.data (pt.leaf ((srcva + k) / PGSIZE)).page).get
          ((srcva + k) % PGSIZE + (0 + l)) = pt.byte m (srcva + (k + l)) := by
        intro l hl
        obtain ⟨hdiv, hmod⟩ := chunk_page hchunk hl
        rw [PageTable.byte, ← Nat.add_assoc srcva, hdiv, hmod, Nat.zero_add]
      have hnonzero' : ∀ j, j ≤ n → (∀ l, l < j →
          (m.data (pt.leaf ((srcva + k) / PGSIZE)).page).get ((srcva + k) % PGSIZE + (0 + l)) ≠ 0) →
          ∀ i, i < k + j → pt.byte m (srcva + i) ≠ 0 := by
        intro j hj h i hi
        by_cases hik : i < k
        · exact hnonzero i hik
        · have hi' := h (i - k) (by omega)
          rwa [hbyte (i - k) (by omega), show k + (i - k) = i by omega] at hi'
      rcases copyChars_cases (fun i => (m.data (pt.leaf ((srcva + k) / PGSIZE)).page).get
          ((srcva + k) % PGSIZE + i)) n 0 left (pt.bytes m srcva k) with
        ⟨j, hj, hnul, hbefore, heq⟩ | ⟨hall, heq⟩
      · rw [heq]
        have hj' : j ≤ PGSIZE - (srcva + k) % PGSIZE := by omega
        refine .ret ⟨⟨rfl, .inl ⟨rfl, k + j, by omega,
          ⟨?_, hnonzero' j hj.le hbefore, fun i hi => ?_⟩, ?_⟩⟩, Nat.succ_pos _⟩
        · rw [← hbyte j hj]
          exact hnul
        · exact forall_chunk (n := j + 1) (by omega) hread hpage i (by omega)
        · rw [PageTable.bytes_chunk hj']
          simp only [Nat.zero_add]
      · rw [heq]
        refine .ret ⟨⟨rfl, .inr ⟨rfl, k + n, show k + n + (left - n) = max by omega, fun h => ?_,
          forall_chunk hchunk hread hpage, hnonzero' n le_rfl hall, ?_⟩⟩,
          show left - n + 1 < left + 1 by omega⟩
        · dsimp only at h ⊢
          omega
        · rw [PageTable.bytes_chunk hchunk]
          simp only [Nat.zero_add]
    · rw [if_neg hpage, if_pos rfl]
      refine .ret ⟨rfl, ⟨by rintro ⟨⟩, ?_⟩, by rintro ⟨⟩⟩
      rintro ⟨k', -, hstr⟩
      have hkk : k ≤ k' := not_lt.1 fun h => hnonzero k' h hstr.nul
      exact absurd (hstr.readable k hkk) hpage
  · rw [if_neg fun h => hleft h.2]
    have hmax : k = max := by omega
    subst hmax
    exact .ret ⟨rfl, ⟨by rintro ⟨⟩, fun h => absurd h (PageTable.StringAt.not_of_nonzero hnonzero)⟩,
      by rintro ⟨⟩⟩

/-! ## `copyout` -/

lemma Written.refl (pt : PageTable) (dstva : ℕ) (src : List UInt8) (m : St N) :
    Written pt dstva src 0 m m :=
  ⟨fun i hi => absurd hi (Nat.not_lt_zero i), fun _ _ _ _ => rfl, rfl⟩

lemma Written.chunk {dstva n : ℕ} {src : List UInt8} (h : Written pt dstva src k m m')
    (hdist : pt.Distinct) (hn : n ≤ PGSIZE - (dstva + k) % PGSIZE)
    (hk : ∀ i, i < k → pt.Readable ((dstva + i) / PGSIZE))
    (hpage : pt.Readable ((dstva + k) / PGSIZE)) :
    Written pt dstva src (k + n) m (m'.setData (pt.leaf ((dstva + k) / PGSIZE)).page
      ((m'.data (pt.leaf ((dstva + k) / PGSIZE)).page).splice ((dstva + k) % PGSIZE) n fun i =>
        (src.drop k).getD i 0)) := by
  have hmod : ∀ i, (dstva + i) % PGSIZE < PGSIZE := fun i => Nat.mod_lt _ (by decide)
  refine ⟨fun i hi => ?_, fun q off hoff hne => ?_, ?_⟩
  · rw [PageTable.byte]
    by_cases hik : i < k
    · -- an earlier byte is in another page, or further down in this one
      by_cases hsame : (pt.leaf ((dstva + i) / PGSIZE)).page = (pt.leaf ((dstva + k) / PGSIZE)).page
      · have hdiv := hdist _ _ (hk i hik) hpage hsame
        have hlt : (dstva + i) % PGSIZE < (dstva + k) % PGSIZE := by
          simp only [PGSIZE_eq] at hdiv ⊢
          omega
        rw [hsame, St.setData_self, Bytes.get_splice_of_not_mem _ _ (.inl hlt), ← hsame]
        exact h.bytes i hik
      · rw [St.setData_of_ne hsame]
        exact h.bytes i hik
    · obtain ⟨hdiv, hmod'⟩ := chunk_page hn (i := i - k) (by omega)
      rw [show dstva + k + (i - k) = dstva + i by omega] at hdiv hmod'
      rw [hdiv, St.setData_self, Bytes.get_splice_of_mem _ _ (hmod i) (by omega) (by omega), hmod',
        Nat.add_sub_cancel_left, List.getD_eq_getElem?_getD, List.getElem?_drop,
        show k + (i - k) = i by omega, ← List.getD_eq_getElem?_getD]
  · have hold : (m'.data q).get off = (m.data q).get off :=
      h.others q off hoff fun i hi => hne i (by omega)
    rw [← hold]
    by_cases hq : q = (pt.leaf ((dstva + k) / PGSIZE)).page
    · rw [hq, St.setData_self]
      refine Bytes.get_splice_of_not_mem _ _ (not_not.1 fun hin => ?_)
      obtain ⟨hlo, hhi⟩ := not_or.1 hin
      obtain ⟨hdiv, hmod'⟩ := chunk_page hn (i := off - (dstva + k) % PGSIZE) (by omega)
      refine hne (k + (off - (dstva + k) % PGSIZE)) (by omega) ?_ ?_
      · rw [← Nat.add_assoc, hdiv, hq]
      · rw [← Nat.add_assoc, hmod']
        omega
    · rw [St.setData_of_ne hq]
  · rw [h.rest]
    rfl

lemma copyout_test (pt : PageTable) {va : ℕ} (hva : va < MAXVA) :
    ¬ (pt.table.reaches (va / PGSIZE) = false ∨ (pt.pte va).flags.v = false ∨
      (pt.pte va).flags.u = false ∨ (pt.pte va).flags.w = false) ↔ pt.Writable (va / PGSIZE) := by
  have hmax : va / PGSIZE * PGSIZE < MAXVA := lt_of_le_of_lt (Nat.div_mul_le_self va PGSIZE) hva
  simp only [not_or, Bool.not_eq_false, PageTable.pte_eq_leaf]
  constructor
  · rintro ⟨-, hv, hu, hw⟩
    exact ⟨⟨hmax, hv, hu⟩, hw⟩
  · rintro ⟨⟨-, hv, hu⟩, hw⟩
    exact ⟨PageTable.reaches_of_valid hv, hv, hu, hw⟩

lemma copyout_ends (hdist : pt.Distinct) (dstva : ℕ) (src : List UInt8) :
    Ends (fun _ => True) stop (copyout pt dstva src) m fun r m' =>
      (r = true ↔ ∀ i, i < src.length → pt.Writable ((dstva + i) / PGSIZE)) ∧
      ∃ k, Written pt dstva src k m m' ∧ (r = true → k = src.length) := by
  rw [copyout]
  -- `k` bytes have been written
  refine Ends.iterateMeasure (fun b m' => ∃ k, k + b.2.length = src.length ∧ b.2 = src.drop k ∧
    (b.2 ≠ [] → b.1 = dstva + k) ∧ (∀ i, i < k → pt.Writable ((dstva + i) / PGSIZE)) ∧
    Written pt dstva src k m m') (fun b => b.2.length) ?_
    ⟨0, Nat.zero_add _, rfl, fun _ => rfl, fun i hi => absurd hi (Nat.not_lt_zero i), .refl _ _ _ _⟩
  rintro ⟨va, rest⟩ m' ⟨k, hk, hrest, hva, hwrite, hwritten⟩
  dsimp only at hk hrest hva ⊢
  split
  · rename_i hnil
    have hlen : k = src.length := by
      rw [hnil] at hk
      exact hk
    rw [hlen] at hwrite hwritten
    exact .ret ⟨⟨fun _ => hwrite, fun _ => rfl⟩, _, hwritten, fun _ => rfl⟩
  · rename_i hcons
    have hpos : 0 < rest.length := List.length_pos_iff.2 hcons
    rw [hva hcons]
    -- the page is refused
    have hrefuse : ¬ pt.Writable ((dstva + k) / PGSIZE) →
        ((false = true ↔ ∀ i, i < src.length → pt.Writable ((dstva + i) / PGSIZE)) ∧
          ∃ k, Written pt dstva src k m m' ∧ (false = true → k = src.length)) := fun hpage =>
      ⟨⟨by rintro ⟨⟩, fun h => absurd (h k (by omega)) hpage⟩, k, hwritten,
        by rintro ⟨⟩⟩
    split
    · rename_i hmax
      exact .ret (hrefuse fun h => absurd h.1.1 (not_lt.2 hmax))
    rename_i hmax
    have hdiv : pgRoundDown (dstva + k) / PGSIZE = (dstva + k) / PGSIZE := mul_PGSIZE_div _
    have htest := copyout_test pt (not_le.1 hmax)
    rw [hdiv] at htest
    rw [walk_false pt (not_le.1 hmax), hdiv]
    simp only [Prog.pure_eq, Prog.ret_bind]
    by_cases hpage : pt.Writable ((dstva + k) / PGSIZE)
    · rw [if_neg (htest.2 hpage), sub_pgRoundDown, u64_next_page hpage.1.1,
        PageTable.pte_eq_leaf, hdiv]
      obtain ⟨n, hn, hchunk, hpos'⟩ := exists_chunk (dstva + k) rest.length
      rw [hn]
      have hstep := hwritten.chunk hdist hchunk (fun i hi => (hwrite i hi).1) hpage.1
      rw [← hrest] at hstep
      have hdrop : (rest.drop n).length = rest.length - n := List.length_drop
      have hmodify : Ends (fun _ => True) stop (.modify fun m' : St N =>
          m'.setData (pt.leaf ((dstva + k) / PGSIZE)).page
            ((m'.data (pt.leaf ((dstva + k) / PGSIZE)).page).splice ((dstva + k) % PGSIZE) n
              fun i => rest.getD i 0)) m' fun _ m'' => Written pt dstva src (k + n) m m'' :=
        Ends.modify trivial hstep
      refine hmodify.seq fun _ m'' hwritten' => ?_
      refine .ret ⟨⟨k + n, ?_, ?_, fun h => ?_, forall_chunk hchunk hwrite hpage, hwritten'⟩, ?_⟩
      · dsimp only
        omega
      · dsimp only
        rw [hrest, List.drop_drop]
      · dsimp only at h ⊢
        have := List.length_pos_iff.2 h
        omega
      · dsimp only
        omega
    · rw [if_pos (not_not.1 fun h => hpage (htest.1 h))]
      exact .ret (hrefuse hpage)

/-! ## The three routines -/

lemma not_readable_of_wrap {len : ℕ} (ha : a < 2 ^ 64) (hwrap : 2 ^ 64 < a + len) :
    ¬ ∀ i, i < len → pt.Readable ((a + i) / PGSIZE) := by
  intro h
  have hlast := (h (len - 1) (by omega)).1
  simp only [MAXVA_eq, PGSIZE_eq] at hlast
  omega

lemma Written.bytes_eq {dstva : ℕ} {src : List UInt8}
    (h : Written pt dstva src src.length m m') : pt.bytes m' dstva src.length = src := by
  refine List.ext_getElem (by simp) fun i h1 h2 => ?_
  simp only [PageTable.bytes, List.getElem_map, List.getElem_range]
  rw [h.bytes i h2, List.getD_eq_getElem?_getD, List.getElem?_eq_getElem h2, Option.getD_some]

/-- The copies between the kernel and user memory.  For every page table whose user pages are
distinct physical pages other than the page at address 0, and every address and length:

* `copyout` answers 0 just if every page of the range is mapped with V, U and W below `MAXVA`; then
  the bytes of the range, and no others, have become `src`, and `copyin` of the range gets `src`;
* `copyin` answers 0 just if every page of the range is mapped with V and U below `MAXVA`, and then
  has stored just these bytes;
* `copyinstr` answers 0 just if there is a NUL in the first `max` bytes and all pages up to it are
  mapped with V and U below `MAXVA`, and then has stored the string and its NUL and nothing more.

Ranges that wrap around are refused, and there is no panic. -/
theorem user_copies (hdist : pt.Distinct) (hzero : ∀ v, pt.Readable v → (pt.leaf v).page ≠ 0)
    (m : St N) :
    (∀ dstva src, Ends (fun _ => True) (fun _ => False) (copyout pt dstva src) m fun r m' =>
      (r = true ↔ ∀ i, i < src.length → pt.Writable ((dstva + i) / PGSIZE)) ∧
      (dstva < 2 ^ 64 → 2 ^ 64 < dstva + src.length → r = false) ∧
      (r = true → Written pt dstva src src.length m m' ∧
        Ends (fun _ => True) (fun _ => False) (copyin pt dstva src.length) m' fun r' m'' =>
          r' = (true, src) ∧ m'' = m')) ∧
    (∀ srcva len, Ends (fun _ => True) (fun _ => False) (copyin pt srcva len) m fun r m' =>
      m' = m ∧ (r.1 = true ↔ ∀ i, i < len → pt.Readable ((srcva + i) / PGSIZE)) ∧
      (srcva < 2 ^ 64 → 2 ^ 64 < srcva + len → r.1 = false) ∧
      (r.1 = true → r.2 = pt.bytes m srcva len)) ∧
    (∀ srcva max, Ends (fun _ => True) (fun _ => False) (copyinstr pt srcva max) m fun r m' =>
      m' = m ∧ (r.1 = true ↔ ∃ k, k < max ∧ pt.StringAt m srcva k) ∧
      (r.1 = true → ∃ k, k < max ∧ pt.StringAt m srcva k ∧ r.2 = pt.bytes m srcva k ++ [0]) ∧
      (r.1 = true → srcva + r.2.length ≤ 2 ^ 64)) := by
  refine ⟨fun dstva src => ?_, fun srcva len => ?_, fun srcva max => ?_⟩
  · refine (copyout_ends hdist dstva src).mono ?_
    rintro r m' ⟨hiff, k, hwritten, hk⟩
    refine ⟨hiff, fun hva hwrap => Bool.eq_false_of_not_eq_true fun hr => ?_, fun hr => ?_⟩
    · exact not_readable_of_wrap hva hwrap fun i hi => (hiff.1 hr i hi).1
    · rw [hk hr] at hwritten
      refine ⟨hwritten, (copyin_ends pt hzero dstva src.length).mono ?_⟩
      rintro ⟨ok, dst⟩ m'' ⟨hm, hok, hdst⟩
      have htrue : ok = true := hok.2 fun i hi => (hiff.1 hr i hi).1
      refine ⟨Prod.ext htrue ?_, hm⟩
      rw [hdst htrue, hwritten.bytes_eq]
  · refine (copyin_ends pt hzero srcva len).mono ?_
    rintro r m' ⟨hm, hiff, hdst⟩
    refine ⟨hm, hiff, fun hva hwrap => Bool.eq_false_of_not_eq_true fun hr => ?_, hdst⟩
    exact not_readable_of_wrap hva hwrap (hiff.1 hr)
  · refine (copyinstr_ends pt hzero srcva max).mono ?_
    rintro r m' ⟨hm, hiff, hdst⟩
    refine ⟨hm, hiff, hdst, fun hr => ?_⟩
    obtain ⟨k, -, hstr, hlen⟩ := hdst hr
    have hlast := (hstr.readable k le_rfl).1
    rw [hlen, List.length_append, PageTable.length_bytes, List.length_singleton]
    simp only [MAXVA_eq, PGSIZE_eq] at hlast
    omega

end

/-! ## The first process -/

lemma smallBoot_readable {v : ℕ} (h : smallBoot.pagetable.Readable v) : v = 0 := by
  obtain ⟨hmax, -, hu⟩ := h
  have hv : v < 512 ^ 3 := by
    simp only [MAXVA_eq, PGSIZE_eq] at hmax
    omega
  rw [smallBoot.leaf_eq hv] at hu
  by_contra hne
  rw [if_neg hne] at hu
  split at hu
  · cases hu
  · split at hu <;> cases hu

/-- The page table of the first process with a second page. -/
def twoPages : PageTable :=
  smallBoot.pagetable.setPte (1 * PGSIZE) ⟨557054, ⟨true, true, true, false, true⟩⟩

lemma twoPages_readable {v : ℕ} (h : twoPages.Readable v) : v = 0 ∨ v = 1 := by
  obtain ⟨hmax, hvalid, hu⟩ := h
  have hv : v < 512 ^ 3 := by
    simp only [MAXVA_eq, PGSIZE_eq] at hmax
    omega
  by_cases hone : v = 1
  · exact Or.inr hone
  · rw [twoPages, PageTable.leaf_setPte (by decide +kernel) (by decide) hv,
      if_neg hone] at hvalid hu
    exact Or.inl (smallBoot_readable ⟨hmax, hvalid, hu⟩)

/-- Two bytes, the second of which is in the second page. -/
theorem user_copies_two : ∃ m', (copyout twoPages 4095 [7, 8]).Completes smallMemory true m' ∧
    twoPages.byte m' 4095 = 7 ∧ twoPages.byte m' 4096 = 8 := by
  have hzero : (twoPages.leaf 0).page = 557055 := by decide +kernel
  have hone : (twoPages.leaf 1).page = 557054 := by decide +kernel
  have hdist : twoPages.Distinct := by
    intro v w hv hw heq
    obtain rfl | rfl := twoPages_readable hv <;> obtain rfl | rfl := twoPages_readable hw <;>
      simp_all
  have hcopies := user_copies hdist
    (fun v hv => by obtain rfl | rfl := twoPages_readable hv <;> simp_all) smallMemory
  obtain ⟨r, m', hrun, hiff, -, hok⟩ := (hcopies.1 4095 [7, 8]).exists_completes
  have hr : r = true := by
    refine hiff.2 fun i hi => ?_
    obtain rfl | rfl : i = 0 ∨ i = 1 := by
      have hi' : i < 2 := hi
      omega
    all_goals decide +kernel
  subst hr
  exact ⟨m', hrun, (hok rfl).1.bytes 0 (by decide), (hok rfl).1.bytes 1 (by decide)⟩

/-- A page table that maps the page at physical address 0. -/
def zeroPage : PageTable :=
  PageTable.setPte ⟨557037, .node (setAt (fun _ => none) 0 (some 557038))
    (setAt (fun _ => Radix.empty 0 1) 0 (branch 0 557039))⟩ (0 * PGSIZE)
    ⟨0, ⟨true, true, true, false, true⟩⟩

/-- `walkaddr` answers 0 for a page that is mapped, but at physical address 0, and `copyin` takes
that for a failure. -/
theorem copyin_page_zero : zeroPage.Distinct ∧ zeroPage.Readable 0 ∧
    ∃ m', (copyin zeroPage 0 1).Completes smallMemory (false, []) m' := by
  have honly : ∀ v, zeroPage.Readable v → v = 0 := by
    rintro v ⟨hmax, hv, -⟩
    have hlt : v < 512 ^ 3 := by
      simp only [MAXVA_eq, PGSIZE_eq] at hmax
      omega
    have hlabel : (fun _ : Fin 512 => (none : Option Page)) 0 = none := rfl
    rw [zeroPage, PageTable.leaf_setPte (by decide +kernel) (by decide) hlt, PageTable.leaf,
      Radix.get_setLabel hlabel _ (branch_get 0 557039), Radix.get_node_none] at hv
    by_contra hne
    rw [if_neg hne] at hv
    cases hv
  refine ⟨fun v w hv hw _ => (honly v hv).trans (honly w hw).symm, by decide +kernel, ?_⟩
  have hgo : (Prog.go 30 (copyin zeroPage 0 1) smallMemory).any
      (fun r => r.1 = (false, [])) = true :=
    by decide +kernel
  obtain ⟨r, m', hrun, hok⟩ := Prog.exists_completes_of_go _ hgo
  rw [decide_eq_true_eq] at hok
  subst hok
  exact ⟨m', hrun⟩

end Xv6.Vm
