import Xv6.Umalloc.Heap
import Mathlib.Algebra.BigOperators.Group.List.Basic
import Mathlib.Data.List.Induction
import Mathlib.Data.Nat.Basic

/-!
# The free list as a list of blocks

`FreeList base h S` says that the links of the heap, from `base` on, visit the blocks `S` and come
back: `base` first, then the others in the order of their addresses, no two of them adjacent.  In
these terms `free` inserts a block and joins it to its neighbours (`free_spec`), and a round of the
loop of `malloc` cuts a block or removes one (`carve_spec`).

How often a unit is covered is counted (`hits`), so that a block that is cut or two that are
joined change nothing, and a count of one says both that the unit is covered and that it is covered
once.
-/

namespace Xv6.Umalloc

open Concur Heap

/-! ## Blocks -/

/-- How many of the blocks, given as start and length, cover the unit `u`. -/
def hits (u : ℕ) (S : List (ℕ × ℕ)) : ℕ := S.countP fun b => b.1 ≤ u ∧ u < b.1 + b.2

/-- The number of units of the blocks. -/
def total (S : List (ℕ × ℕ)) : ℕ := (S.map Prod.snd).sum

section Blocks

variable (u : ℕ) (b : ℕ × ℕ) (S T : List (ℕ × ℕ))

@[simp] lemma hits_nil : hits u [] = 0 := rfl

lemma hits_cons : hits u (b :: S) = hits u S + if b.1 ≤ u ∧ u < b.1 + b.2 then 1 else 0 := by
  simp [hits, List.countP_cons]

lemma hits_cons_mk (a n : ℕ) :
    hits u ((a, n) :: S) = hits u S + if a ≤ u ∧ u < a + n then 1 else 0 :=
  hits_cons u (a, n) S

@[simp] lemma hits_append : hits u (S ++ T) = hits u S + hits u T := List.countP_append

@[simp] lemma total_nil : total [] = 0 := rfl

@[simp] lemma total_cons : total (b :: S) = b.2 + total S := List.sum_cons

@[simp] lemma total_append : total (S ++ T) = total S + total T := by
  simp [total]

lemma hits_join (a n m : ℕ) : hits u ((a, n + m) :: S) = hits u ((a, n) :: (a + n, m) :: S) := by
  simp only [hits_cons]
  split_ifs <;> omega

variable {u b S T}

lemma hits_pos (hb : b ∈ S) (h1 : b.1 ≤ u) (h2 : u < b.1 + b.2) : 0 < hits u S :=
  List.countP_pos_iff.2 ⟨b, hb, decide_eq_true ⟨h1, h2⟩⟩

lemma hits_eq_zero (h : ∀ b ∈ S, u < b.1 ∨ b.1 + b.2 ≤ u) : hits u S = 0 := by
  refine List.countP_eq_zero.2 fun b hb => ?_
  have := h b hb
  simp only [decide_eq_true_eq]
  omega

end Blocks

/-! ## The list in the heap -/

/-- The free list of the heap is `S`. -/
structure FreeList (base : ℕ) (h : Heap) (S : List (ℕ × ℕ)) : Prop where
  head : ∃ T, S = (base, 0) :: T
  path : Path h.ptr base (S.map Prod.fst) base
  size_eq : ∀ b ∈ S, h.size b.1 = b.2
  spaced : S.Pairwise fun x y => x.1 + x.2 < y.1
  pos : ∀ b ∈ S, b.1 ≠ base → 0 < b.2

namespace FreeList

variable {base bp n p k f : ℕ} {h : Heap} {S L1 L2 : List (ℕ × ℕ)}

section

variable (hS : FreeList base h S)

include hS

lemma base_le {b : ℕ × ℕ} (hb : b ∈ S) : base ≤ b.1 := by
  obtain ⟨T, rfl⟩ := hS.head
  rcases List.mem_cons.1 hb with rfl | hb
  · exact le_rfl
  · have := List.rel_of_pairwise_cons hS.spaced hb
    omega

lemma base_mem : (base, 0) ∈ S := by
  obtain ⟨T, rfl⟩ := hS.head
  exact List.mem_cons_self

lemma nodup : (S.map Prod.fst).Nodup :=
  List.pairwise_map.2 (hS.spaced.imp fun hxy => by omega)

lemma hits_pos_of_mem {b : ℕ × ℕ} (hb : b ∈ S) (hne : b.1 ≠ base) :
    0 < hits b.1 S :=
  hits_pos hb le_rfl (Nat.lt_add_of_pos_right (hS.pos b hb hne))

end

lemma path_after (hS : FreeList base h (L1 ++ (p, k) :: L2)) :
    Path h.ptr (h.ptr p) (L2.map Prod.fst) base := by
  have hpath := hS.path
  rw [List.map_append, List.map_cons, Path.append_iff] at hpath
  obtain ⟨m, -, -, h2⟩ := hpath
  exact h2

lemma path_before (hS : FreeList base h (L1 ++ (p, k) :: L2)) :
    Path h.ptr base (L1.map Prod.fst) p := by
  have hpath := hS.path
  rw [List.map_append, List.map_cons, Path.append_iff] at hpath
  obtain ⟨m, h1, hm, -⟩ := hpath
  rwa [show m = p from hm] at h1

lemma ptr_of_nil (hS : FreeList base h (L1 ++ [(p, k)])) : h.ptr p = base := hS.path_after

lemma ptr_of_cons {y : ℕ × ℕ} (hS : FreeList base h (L1 ++ (p, k) :: y :: L2)) :
    h.ptr p = y.1 := hS.path_after.1

section

variable (hS : FreeList base h (L1 ++ (p, k) :: L2))

include hS

lemma lt_after {y : ℕ × ℕ} (hy : y ∈ L2) :
    p + k < y.1 :=
  List.rel_of_pairwise_cons (List.pairwise_append.1 hS.spaced).2.1 hy

lemma lt_before {y : ℕ × ℕ} (hy : y ∈ L1) :
    y.1 + y.2 < p :=
  (List.pairwise_append.1 hS.spaced).2.2 y hy (p, k) List.mem_cons_self

/-! ### The place for a block -/

lemma stops_iff (hbp : base < bp) :
    h.stops bp p = true ↔ p < bp ∧ ∀ x ∈ L2, bp < x.1 := by
  have hp : base ≤ p := hS.base_le (b := (p, k)) (by simp)
  rw [stops, decide_eq_true_iff]
  cases L2 with
  | nil =>
    rw [hS.ptr_of_nil]
    simp only [List.not_mem_nil, false_imp_iff, implies_true, and_true]
    omega
  | cons y L =>
    have hpy := hS.lt_after (y := y) List.mem_cons_self
    rw [hS.ptr_of_cons]
    have hfirst : (∀ x ∈ y :: L, bp < x.1) ↔ bp < y.1 := by
      refine ⟨fun hall => hall y List.mem_cons_self, fun hlt x hx => ?_⟩
      rcases List.mem_cons.1 hx with rfl | hx
      · exact hlt
      · have hsp := (List.pairwise_append.1 hS.spaced).2.1
        have := List.rel_of_pairwise_cons (List.Pairwise.of_cons hsp) hx
        omega
    rw [hfirst]
    omega

end

lemma exists_place {T : List (ℕ × ℕ)} (hbefore : ∃ b ∈ T, b.1 < bp) (hne : ∀ b ∈ T, b.1 ≠ bp) :
    ∃ L1 b L2, T = L1 ++ b :: L2 ∧ b.1 < bp ∧ ∀ x ∈ L2, bp < x.1 := by
  induction T with
  | nil =>
    obtain ⟨b, hb, -⟩ := hbefore
    cases hb
  | cons c T ih =>
    by_cases hlater : ∃ b ∈ T, b.1 < bp
    · obtain ⟨L1, b, L2, rfl, hb, hL⟩ := ih hlater fun b hb => hne b (List.mem_cons_of_mem c hb)
      exact ⟨c :: L1, b, L2, rfl, hb, hL⟩
    · refine ⟨[], c, T, rfl, ?_, fun x hx => ?_⟩
      · obtain ⟨b, hb, hlt⟩ := hbefore
        rcases List.mem_cons.1 hb with rfl | hb
        · exact hlt
        · exact absurd ⟨b, hb, hlt⟩ hlater
      · have hx' := hne x (List.mem_cons_of_mem c hx)
        have : ¬ x.1 < bp := fun hlt => hlater ⟨x, hx, hlt⟩
        omega

lemma search_place (hS : FreeList base h S) (hf : f ∈ S.map Prod.fst) (hbp : base < bp)
    (hne : ∀ b ∈ S, b.1 ≠ bp) :
    ∃ L1 p k L2, S = L1 ++ (p, k) :: L2 ∧ p < bp ∧ (∀ x ∈ L2, bp < x.1) ∧
      ∀ fuel, S.length ≤ fuel → search h.ptr (h.stops bp) fuel f = some p := by
  obtain ⟨L1, ⟨p, k⟩, L2, rfl, hp, hL⟩ := exists_place ⟨_, hS.base_mem, hbp⟩ hne
  have hstop : h.stops bp p = true := (hS.stops_iff hbp).2 ⟨hp, hL⟩
  -- another block at which the loop stops would be the last one before `bp`, too
  have huniq : ∀ r ∈ (L1 ++ (p, k) :: L2).map Prod.fst, h.stops bp r = true → r = p := by
    intro r hr hsr
    obtain ⟨⟨r, j⟩, hmem, rfl⟩ := List.mem_map.1 hr
    obtain ⟨M1, M2, hM⟩ := List.append_of_mem hmem
    have hS' := hS
    rw [hM] at hS'
    obtain ⟨hrlt, hM2⟩ := (hS'.stops_iff hbp).1 hsr
    have hpmem : (p, k) ∈ M1 ++ (r, j) :: M2 := hM ▸ (by simp)
    rcases List.mem_append.1 hmem with hr1 | hr2
    · have h1 := hS.lt_before hr1
      rcases List.mem_append.1 hpmem with hp1 | hp2
      · have h2 := hS'.lt_before hp1
        simp only at h1 h2 ⊢
        omega
      · rcases List.mem_cons.1 hp2 with heq | hp2
        · exact (congrArg Prod.fst heq).symm
        · have := hM2 _ hp2
          simp only at this
          omega
    · rcases List.mem_cons.1 hr2 with heq | hr2
      · exact congrArg Prod.fst heq
      · have := hL _ hr2
        simp only at this hrlt
        omega
  refine ⟨L1, p, k, L2, rfl, hp, hL, fun fuel hfuel => ?_⟩
  have hlen : ((L1 ++ (p, k) :: L2).map Prod.fst).length ≤ fuel := by rwa [List.length_map]
  obtain ⟨r, hr, hsr, hsearch⟩ := search_ring hS.path hf ⟨p, by simp, hstop⟩ hlen
  rw [hsearch, huniq r hr hsr]

/-! ### Joining a block to its neighbours -/

section

variable (hS : FreeList base h (L1 ++ (p, k) :: L2))

include hS

lemma joinNext_spec (hn : h.size bp = n)
    (hL : ∀ x ∈ L2, bp < x.1) (hapart : ∀ x ∈ L2, bp + n ≤ x.1) (hpbp : p < bp)
    (htot : n + total L2 < 2 ^ 32) :
    ∃ n' T, n ≤ n' ∧ T.Sublist L2 ∧ (∀ x ∈ T, bp + n' < x.1) ∧
      (h.joinNext bp p).size = setAt h.size bp n' ∧
      (∀ a, a ≠ bp → (h.joinNext bp p).ptr a = h.ptr a) ∧
      Path (h.joinNext bp p).ptr ((h.joinNext bp p).ptr bp) (T.map Prod.fst) base ∧
      (∀ u, hits u ((bp, n') :: T) = hits u ((bp, n) :: L2)) ∧
      n' + total T = n + total L2 := by
  have hbase : base ≤ p := hS.base_le (b := (p, k)) (by simp)
  have hafter := hS.path_after
  have hframe : ∀ (T : List (ℕ × ℕ)) (a v : ℕ), (∀ x ∈ T, x ∈ L2) →
      Path h.ptr a (T.map Prod.fst) base →
      Path (setAt h.ptr bp v) a (T.map Prod.fst) base := by
    intro T a v hT hpath
    refine hpath.congr fun x hx => setAt_of_ne _ _ ?_
    obtain ⟨y, hy, rfl⟩ := List.mem_map.1 hx
    have := hL y (hT y hy)
    omega
  unfold joinNext
  by_cases hadj : bp + h.size bp = h.ptr p
  · rw [if_pos hadj]
    cases L2 with
    | nil =>
      rw [hS.ptr_of_nil] at hadj
      omega
    | cons y L =>
      obtain ⟨y, m⟩ := y
      have hptr : h.ptr p = y := hS.ptr_of_cons
      have hsize : h.size y = m := hS.size_eq (y, m) (by simp)
      rw [hptr, hn] at hadj
      rw [hptr, hn, hsize, Nat.mod_eq_of_lt (by simp only [total_cons] at htot; omega)]
      refine ⟨n + m, L, by omega, List.sublist_cons_self _ _,
        fun x hx => ?_, rfl, fun a ha => ?_, ?_, fun u => ?_, ?_⟩
      · have hsp := (List.pairwise_append.1 hS.spaced).2.1
        have := List.rel_of_pairwise_cons (List.Pairwise.of_cons hsp) hx
        simp only at this
        omega
      · simp only [setPtr_ptr, setSize_ptr]
        exact setAt_of_ne _ _ ha
      · simp only [setPtr_ptr, setSize_ptr, setAt_self]
        rw [hptr] at hafter
        exact hframe L _ _ (fun x hx => List.mem_cons_of_mem _ hx) hafter.2
      · rw [hits_join, hadj]
      · simp only [total_cons]
        omega
  · rw [if_neg hadj]
    refine ⟨n, L2, le_rfl, List.Sublist.refl _, fun x hx => ?_, ?_,
      fun a ha => ?_, ?_, fun _ => rfl, rfl⟩
    · -- the first block behind is where `p` links to, and the others are further on
      have hle := hapart x hx
      cases L2 with
      | nil => cases hx
      | cons y L =>
        rw [hn, hS.ptr_of_cons] at hadj
        have hy := hapart y List.mem_cons_self
        rcases List.mem_cons.1 hx with rfl | hx
        · omega
        · have hsp := (List.pairwise_append.1 hS.spaced).2.1
          have := List.rel_of_pairwise_cons (List.Pairwise.of_cons hsp) hx
          omega
    · rw [setPtr_size, ← hn, setAt_eq_self]
    · exact setAt_of_ne _ _ ha
    · simp only [setPtr_ptr, setAt_self]
      exact hframe L2 _ _ (fun x hx => hx) hafter

lemma splice {h' : Heap} {R : List (ℕ × ℕ)}
    (hsame : ∀ a, a < p → h'.ptr a = h.ptr a ∧ h'.size a = h.size a)
    (hpath : Path h'.ptr p (R.map Prod.fst) base) (hsize : ∀ b ∈ R, h'.size b.1 = b.2)
    (hspaced : R.Pairwise fun x y => x.1 + x.2 < y.1) (hle : ∀ b ∈ R, p ≤ b.1)
    (hpos : ∀ b ∈ R, b.1 ≠ base → 0 < b.2) (hhead : p = base → ∃ T, R = (base, 0) :: T) :
    FreeList base h' (L1 ++ R) := by
  have hlt : ∀ b ∈ L1, b.1 < p := fun b hb => by
    have := hS.lt_before hb
    omega
  refine ⟨?_, ?_, fun b hb => ?_, ?_, fun b hb hne => ?_⟩
  · obtain ⟨T, hT⟩ := hS.head
    cases L1 with
    | nil => exact hhead (congrArg Prod.fst (List.cons.inj hT).1)
    | cons b L =>
      obtain rfl := (List.cons.inj hT).1
      exact ⟨L ++ R, rfl⟩
  · rw [List.map_append, Path.append_iff]
    refine ⟨p, hS.path_before.congr fun x hx => ?_, hpath⟩
    obtain ⟨b, hb, rfl⟩ := List.mem_map.1 hx
    exact (hsame b.1 (hlt b hb)).1
  · rcases List.mem_append.1 hb with hb | hb
    · rw [(hsame b.1 (hlt b hb)).2]
      exact hS.size_eq b (List.mem_append_left _ hb)
    · exact hsize b hb
  · refine List.pairwise_append.2 ⟨(List.pairwise_append.1 hS.spaced).1, hspaced,
      fun x hx y hy => ?_⟩
    have := hS.lt_before hx
    have := hle y hy
    omega
  · rcases List.mem_append.1 hb with hb | hb
    · exact hS.pos b (List.mem_append_left _ hb) hne
    · exact hpos b hb hne

lemma joinPrev_spec {h1 : Heap} {T : List (ℕ × ℕ)}
    (hT : T.Sublist L2) (hsize : h1.size = setAt h.size bp n)
    (hptr : ∀ a, a ≠ bp → h1.ptr a = h.ptr a)
    (hpath : Path h1.ptr (h1.ptr bp) (T.map Prod.fst) base) (hbase : base < bp) (hpos : 0 < n)
    (hpbp : p < bp) (hle : p + k ≤ bp) (hspaced : ∀ x ∈ T, bp + n < x.1)
    (htot : k + n < 2 ^ 32) :
    ∃ S', FreeList base (h1.joinPrev bp p) S' ∧ p ∈ S'.map Prod.fst ∧ (∃ b ∈ S', n ≤ b.2) ∧
      (∀ u, hits u S' = hits u (L1 ++ (p, k) :: (bp, n) :: T)) ∧
      total S' = total (L1 ++ (p, k) :: (bp, n) :: T) ∧
      (∀ a, a ≠ p → a ≠ bp → (h1.joinPrev bp p).size a = h.size a) := by
  have hbp : h1.size bp = n := by rw [hsize, setAt_self]
  have hother : ∀ a, a ≠ bp → h1.size a = h.size a := fun a ha => by rw [hsize, setAt_of_ne _ _ ha]
  have hk : h1.size p = k := by
    rw [hother p (by omega)]
    exact hS.size_eq (p, k) (by simp)
  have hmem : ∀ x ∈ T, x ∈ L1 ++ (p, k) :: L2 := fun x hx =>
    List.mem_append_right _ (List.mem_cons_of_mem _ (hT.subset hx))
  have hTsp : T.Pairwise fun x y => x.1 + x.2 < y.1 :=
    ((List.pairwise_append.1 hS.spaced).2.1).of_cons.sublist hT
  have hTpos : ∀ x ∈ T, 0 < x.2 := fun x hx => hS.pos x (hmem x hx) (by
    have := hspaced x hx
    omega)
  have hTsize : ∀ x ∈ T, h.size x.1 = x.2 := fun x hx => hS.size_eq x (hmem x hx)
  have hTframe : ∀ (g : ℕ → ℕ) a, (∀ a, a ≠ p → g a = h1.ptr a) →
      Path h1.ptr a (T.map Prod.fst) base → Path g a (T.map Prod.fst) base := by
    intro g a hg hpa
    refine hpa.congr fun x hx => hg x ?_
    obtain ⟨y, hy, rfl⟩ := List.mem_map.1 hx
    have := hspaced y hy
    omega
  unfold joinPrev
  by_cases hadj : p + h1.size p = bp
  · rw [if_pos hadj, hbp, hk, Nat.mod_eq_of_lt htot]
    rw [hk] at hadj
    have hpbase : p ≠ base := by
      rintro rfl
      obtain ⟨T', hT'⟩ := hS.head
      have := hS.size_eq (p, 0) hS.base_mem
      have hpk := hS.size_eq (p, k) (by simp)
      simp only at this hpk
      omega
    refine ⟨L1 ++ (p, k + n) :: T, hS.splice (fun a ha => ?_) ⟨rfl, ?_⟩ ?_ ?_ ?_ ?_
      (fun h => absurd h hpbase), by simp, ⟨(p, k + n), by simp, by simp⟩, fun u => ?_, ?_,
      fun a ha hb => ?_⟩
    · simp only [setPtr_ptr, setSize_ptr, setPtr_size, setSize_size]
      rw [setAt_of_ne _ _ (by omega), setAt_of_ne _ _ (by omega)]
      exact ⟨hptr a (by omega), hother a (by omega)⟩
    · simp only [setPtr_ptr, setSize_ptr, setAt_self]
      exact hTframe _ _ (fun a ha => setAt_of_ne _ _ ha) hpath
    · intro b hb
      simp only [setPtr_size, setSize_size]
      rcases List.mem_cons.1 hb with rfl | hb
      · exact setAt_self _ _ _
      · have := hspaced b hb
        rw [setAt_of_ne _ _ (by omega), hother _ (by omega), hTsize b hb]
    · refine List.pairwise_cons.2 ⟨fun x hx => ?_, hTsp⟩
      have := hspaced x hx
      simp only
      omega
    · intro b hb
      rcases List.mem_cons.1 hb with rfl | hb
      · exact le_rfl
      · have := hspaced b hb
        omega
    · intro b hb _
      rcases List.mem_cons.1 hb with rfl | hb
      · simp only
        omega
      · exact hTpos b hb
    · rw [hits_append, hits_append, hits_join, hadj]
    · simp only [total_append, total_cons]
      omega
    · simp only [setPtr_size, setSize_size]
      rw [setAt_of_ne _ _ ha, hother a hb]
  · rw [if_neg hadj]
    rw [hk] at hadj
    refine ⟨L1 ++ (p, k) :: (bp, n) :: T, hS.splice (fun a ha => ?_) ⟨rfl, ?_, ?_⟩ ?_ ?_ ?_ ?_ ?_,
      by simp, ⟨(bp, n), by simp, le_rfl⟩, fun _ => rfl, rfl, fun a _ hb => hother a hb⟩
    · simp only [setPtr_ptr, setPtr_size]
      rw [setAt_of_ne _ _ (by omega)]
      exact ⟨hptr a (by omega), hother a (by omega)⟩
    · exact setAt_self _ _ _
    · simp only [setPtr_ptr]
      rw [setAt_of_ne _ _ (by omega)]
      exact hTframe _ _ (fun a ha => setAt_of_ne _ _ ha) hpath
    · intro b hb
      simp only [setPtr_size]
      rcases List.mem_cons.1 hb with rfl | hb
      · exact hk
      rcases List.mem_cons.1 hb with rfl | hb
      · exact hbp
      · have := hspaced b hb
        rw [hother _ (by omega), hTsize b hb]
    · refine List.pairwise_cons.2 ⟨fun x hx => ?_, List.pairwise_cons.2 ⟨hspaced, hTsp⟩⟩
      rcases List.mem_cons.1 hx with rfl | hx
      · simp only
        omega
      · have := hspaced x hx
        simp only
        omega
    · intro b hb
      rcases List.mem_cons.1 hb with rfl | hb
      · exact le_rfl
      rcases List.mem_cons.1 hb with rfl | hb
      · exact hpbp.le
      · have := hspaced b hb
        omega
    · intro b hb hne
      rcases List.mem_cons.1 hb with rfl | hb
      · exact hS.pos _ (by simp) hne
      rcases List.mem_cons.1 hb with rfl | hb
      · exact hpos
      · exact hTpos b hb
    · rintro rfl
      have h0 := hS.size_eq (p, 0) hS.base_mem
      have hpk := hS.size_eq (p, k) (by simp)
      simp only at h0 hpk
      obtain rfl : k = 0 := by omega
      exact ⟨_, rfl⟩

end

lemma free_spec (hS : FreeList base h S) (hf : h.freep = some f) (hmem : f ∈ S.map Prod.fst)
    (hn : h.size bp = n) (hpos : 0 < n) (hbase : base < bp)
    (hapart : ∀ b ∈ S, b.1 + b.2 ≤ bp ∨ bp + n ≤ b.1) (htot : total S + n < 2 ^ 32) :
    ∃ h' S', FreeList base h' S' ∧ (∃ f', h'.freep = some f' ∧ f' ∈ S'.map Prod.fst) ∧
      (∃ b ∈ S', n ≤ b.2) ∧ (∀ u, hits u S' = hits u ((bp, n) :: S)) ∧
      total S' = total ((bp, n) :: S) ∧
      (∀ a, a ≠ base → hits a ((bp, n) :: S) = 0 → h'.size a = h.size a) ∧
      h'.brk = h.brk ∧ h'.got = h.got ∧
      ∀ fuel, S.length ≤ fuel → h.free fuel bp = some h' := by
  have hne : ∀ b ∈ S, b.1 ≠ bp := by
    intro b hb heq
    have h1 := hapart b hb
    have h2 := hS.pos b hb (by omega)
    omega
  obtain ⟨L1, p, k, L2, rfl, hp, hL, hsome⟩ := hS.search_place hmem hbase hne
  have hfree : ∀ fuel, h.free fuel bp = (search h.ptr (h.stops bp) fuel f).map fun p =>
      ((h.joinNext bp p).joinPrev bp p).setFreep p := by
    intro fuel
    simp only [free, hf, Option.bind_eq_bind, Option.bind_some, Option.map_eq_bind]
    rfl
  have hk : p + k ≤ bp := by
    have := hapart (p, k) (by simp)
    simp only at this
    omega
  have hL' : ∀ x ∈ L2, bp + n ≤ x.1 := fun x hx => by
    have h1 := hapart x (by simp [hx])
    have h2 := hL x hx
    omega
  simp only [total_append, total_cons] at htot
  obtain ⟨n', T, hnn', hTs, hsp, hsize, hptr, hpath, hhits, hsum⟩ :=
    hS.joinNext_spec hn hL hL' hp (by omega)
  obtain ⟨S', hS', hpS', ⟨b, hb, hbn⟩, hhits', htot', hframe⟩ :=
    hS.joinPrev_spec hTs hsize hptr hpath hbase (by omega) hp hk hsp (by omega)
  have hfields : ((h.joinNext bp p).joinPrev bp p).brk = h.brk ∧
      ((h.joinNext bp p).joinPrev bp p).got = h.got := by
    unfold joinPrev joinNext
    split_ifs <;> exact ⟨rfl, rfl⟩
  refine ⟨((h.joinNext bp p).joinPrev bp p).setFreep p, S', ?_, ⟨p, rfl, hpS'⟩,
    ⟨b, hb, by omega⟩, fun u => ?_, ?_, fun a ha hab => ?_, hfields.1, hfields.2,
    fun fuel hfuel => ?_⟩
  · exact ⟨hS'.head, hS'.path, hS'.size_eq, hS'.spaced, hS'.pos⟩
  · have := hhits u
    rw [hhits' u]
    simp only [hits_append, hits_cons] at this ⊢
    omega
  · rw [htot']
    simp only [total_append, total_cons]
    omega
  · rw [hits_cons] at hab
    refine hframe a (fun hap => ?_) fun habp => ?_
    · subst hap
      have := hS.hits_pos_of_mem (b := (a, k)) (by simp) ha
      simp only at this
      omega
    · rw [if_pos (by simp only; omega)] at hab
      omega
  · rw [hfree, hsome fuel hfuel]
    rfl

/-! ### Taking a block -/

lemma exists_before (hS : FreeList base h S) {x : ℕ × ℕ} (hx : x ∈ S) (hne : x.1 ≠ base) :
    ∃ L1 q k L2, S = L1 ++ (q, k) :: x :: L2 := by
  obtain ⟨M, L2, rfl⟩ := List.append_of_mem hx
  cases M using List.reverseRecOn with
  | nil =>
    obtain ⟨T, hT⟩ := hS.head
    exact absurd (congrArg Prod.fst (List.cons.inj hT).1) hne
  | append_singleton L1 q =>
    exact ⟨L1, q.1, q.2, L2, by simp⟩

lemma before_unique {x : ℕ × ℕ} {q r : ℕ} (hS : FreeList base h (L1 ++ (q, k) :: x :: L2))
    (hr : r ∈ (L1 ++ (q, k) :: x :: L2).map Prod.fst) (hrx : h.ptr r = x.1) : r = q :=
  hS.path.next_inj hS.nodup hr (by simp) (hrx.trans hS.ptr_of_cons.symm)

lemma carve_spec {q x m : ℕ} (hS : FreeList base h (L1 ++ (q, k) :: (x, n) :: L2)) (hm : 0 < m)
    (hmn : m ≤ n) :
    ∃ S', FreeList base (h.carve m q x).2 S' ∧ (h.carve m q x).2.freep = some q ∧
      q ∈ S'.map Prod.fst ∧ (h.carve m q x).2.size (h.carve m q x).1 = m ∧
      (∀ u, hits u (((h.carve m q x).1, m) :: S') = hits u (L1 ++ (q, k) :: (x, n) :: L2)) ∧
      total (((h.carve m q x).1, m) :: S') = total (L1 ++ (q, k) :: (x, n) :: L2) ∧
      (∀ a, a ≠ base → hits a (L1 ++ (q, k) :: (x, n) :: L2) = 0 →
        (h.carve m q x).2.size a = h.size a) ∧
      (h.carve m q x).2.brk = h.brk ∧ (h.carve m q x).2.got = h.got := by
  have hx : h.size x = n := hS.size_eq (x, n) (by simp)
  have hqx : q + k < x := hS.lt_after (y := (x, n)) (by simp)
  have hqL : ∀ y ∈ L2, q < y.1 := fun y hy => by
    have := hS.lt_after (y := y) (by simp [hy])
    omega
  have hS' : FreeList base h ((L1 ++ [(q, k)]) ++ (x, n) :: L2) := by simpa using hS
  have hxL : ∀ y ∈ L2, x + n < y.1 := fun y hy => hS'.lt_after hy
  have hpath : Path h.ptr (h.ptr x) (L2.map Prod.fst) base := hS'.path_after
  have hLsp : L2.Pairwise fun x y => x.1 + x.2 < y.1 :=
    ((List.pairwise_append.1 hS.spaced).2.1).of_cons.of_cons
  have hhead : ∀ T, q = base → ∃ T', (q, k) :: T = (base, 0) :: T' := by
    rintro T rfl
    have h0 := hS.size_eq (q, 0) hS.base_mem
    have hqk := hS.size_eq (q, k) (by simp)
    simp only at h0 hqk
    exact ⟨T, by rw [← hqk, h0]⟩
  unfold carve
  by_cases heq : h.size x = m
  · rw [if_pos heq]
    obtain rfl : n = m := by omega
    refine ⟨L1 ++ (q, k) :: L2, hS.splice (fun a ha => ⟨?_, rfl⟩) ⟨rfl, ?_⟩ (fun b hb => ?_) ?_
      (fun b hb => ?_) (fun b hb => ?_) (hhead L2), rfl, by simp, hx, fun u => ?_, ?_,
      fun a _ _ => rfl, rfl, rfl⟩
    · exact setAt_of_ne _ _ (by omega)
    · simp only [setFreep_ptr, setPtr_ptr, setAt_self]
      refine hpath.congr fun y hy => setAt_of_ne _ _ ?_
      obtain ⟨z, hz, rfl⟩ := List.mem_map.1 hy
      have := hqL z hz
      omega
    · refine hS.size_eq b ?_
      rcases List.mem_cons.1 hb with rfl | hb
      · simp
      · simp [hb]
    · refine List.pairwise_cons.2 ⟨fun y hy => ?_, hLsp⟩
      have := hxL y hy
      simp only
      omega
    · rcases List.mem_cons.1 hb with rfl | hb
      · exact le_rfl
      · exact (hqL b hb).le
    · refine hS.pos b ?_
      rcases List.mem_cons.1 hb with rfl | hb
      · simp
      · simp [hb]
    · simp only [hits_append, hits_cons]
      omega
    · simp only [total_append, total_cons]
      omega
  · rw [if_neg heq]
    simp only [hx, setSize_size, setAt_self]
    rw [hx] at heq
    -- the header of the new block is inside the block `x`
    have hsize : ∀ a, a ≠ x → a ≠ x + (n - m) →
        ((((h.setSize x (n - m)).setSize (x + (n - m)) m).setFreep q).size a = h.size a) := by
      intro a h1 h2
      simp only [setFreep_size, setSize_size]
      rw [setAt_of_ne _ _ h2, setAt_of_ne _ _ h1]
    refine ⟨L1 ++ (q, k) :: (x, n - m) :: L2, hS.splice (fun a ha => ⟨rfl, ?_⟩) ?_
      (fun b hb => ?_) ?_ (fun b hb => ?_) (fun b hb hne => ?_) (hhead _), rfl, by simp,
      setAt_self _ _ _, fun u => ?_, ?_, fun a ha hab => ?_, rfl, rfl⟩
    · exact hsize a (by omega) (by omega)
    · exact ⟨rfl, hS.ptr_of_cons, hpath⟩
    · rcases List.mem_cons.1 hb with rfl | hb
      · rw [hsize _ (by simp only; omega) (by simp only; omega)]
        exact hS.size_eq (q, k) (by simp)
      rcases List.mem_cons.1 hb with rfl | hb
      · simp only [setFreep_size, setSize_size]
        rw [setAt_of_ne _ _ (by omega), setAt_self]
      · have := hxL b hb
        rw [hsize _ (by omega) (by omega)]
        exact hS.size_eq b (by simp [hb])
    · refine List.pairwise_cons.2 ⟨fun y hy => ?_, List.pairwise_cons.2 ⟨fun y hy => ?_, hLsp⟩⟩
      · rcases List.mem_cons.1 hy with rfl | hy
        · exact hqx
        · have := hxL y hy
          simp only
          omega
      · have := hxL y hy
        simp only
        omega
    · rcases List.mem_cons.1 hb with rfl | hb
      · exact le_rfl
      rcases List.mem_cons.1 hb with rfl | hb
      · simp only
        omega
      · exact (hqL b hb).le
    · rcases List.mem_cons.1 hb with rfl | hb
      · exact hS.pos _ (by simp) hne
      rcases List.mem_cons.1 hb with rfl | hb
      · simp only
        omega
      · exact hS.pos b (by simp [hb]) hne
    · simp only [hits_append, hits_cons]
      split_ifs <;> omega
    · simp only [total_append, total_cons]
      omega
    · have hout : ¬ (x ≤ a ∧ a < x + n) := by
        intro hin
        have := hits_pos (S := L1 ++ (q, k) :: (x, n) :: L2) (b := (x, n)) (by simp) hin.1 hin.2
        omega
      exact hsize a (by omega) (by omega)

end FreeList

end Xv6.Umalloc
