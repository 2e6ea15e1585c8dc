import Xv6.Umalloc.FreeList

/-!
# Programs that allocate and free

The invariant of the heap over all sequences of calls (`HeapOk`): the free list is in order and
has no two adjacent blocks, every unit that `sbrk` ever gave is in exactly one block, free or
live, and every live block has room for what was asked for.  It holds as long as every call asks
`sbrk` for less than `2 ^ 31` bytes and fewer than `2 ^ 32` units were given in total
(`malloc_invariant`).  `sbrk` takes an `int`: of the `2 ^ 28 + 1` units for `malloc(0xffffffff)` it
is asked for one, and the next block lies inside that one (`huge_block_overlaps`).  The sizes of
blocks are `uint`s, so joining blocks of too many units would make a size wrap around.
-/

namespace Xv6.Umalloc

open Concur

namespace Heap

variable {base nunits f k p prevp : ℕ} {h : Heap} {S l : List (ℕ × ℕ)} {env : ℕ → Option ℕ}

/-! ## The loop of `malloc` -/

lemma free_mono {fuel fuel' bp : ℕ} (hle : fuel ≤ fuel') {h' : Heap}
    (hfree : h.free fuel bp = some h') : h.free fuel' bp = some h' := by
  simp only [free, Option.bind_eq_bind, Option.bind_eq_some_iff] at hfree ⊢
  obtain ⟨f, hf, p, hp, hr⟩ := hfree
  exact ⟨f, hf, p, search_mono hle hp, hr⟩

lemma morecore_mono {fuel fuel' nu : ℕ} (hle : fuel ≤ fuel') {answer : Option ℕ}
    {r : Option ℕ × Heap} (hmore : h.morecore fuel answer nu = some r) :
    h.morecore fuel' answer nu = some r := by
  cases answer with
  | none => exact hmore
  | some gap =>
    simp only [morecore, Option.bind_eq_bind, Option.bind_eq_some_iff] at hmore ⊢
    obtain ⟨h', hfree, hr⟩ := hmore
    exact ⟨h', free_mono hle hfree, hr⟩

/-- What the loop does when it has come around to `freep`. -/
def more (env : ℕ → Option ℕ) (nunits fuel k : ℕ) (h : Heap) : Option (Option ℕ × Heap) := do
  match ← morecore fuel (env k) nunits h with
  | (none, h) => some (none, h)
  | (some p, h) => mallocFrom env nunits fuel (k + 1) p (h.ptr p) h

lemma mallocFrom_succ (fuel : ℕ) : mallocFrom env nunits (fuel + 1) k prevp p h =
    if nunits ≤ h.size p then some (some (h.carve nunits prevp p).1, (h.carve nunits prevp p).2)
    else if h.freep = some p then more env nunits fuel k h
    else mallocFrom env nunits fuel k p (h.ptr p) h := rfl

lemma mallocFrom_mono {fuel fuel' : ℕ} (hle : fuel ≤ fuel') {r : Option ℕ × Heap}
    (hm : mallocFrom env nunits fuel k prevp p h = some r) :
    mallocFrom env nunits fuel' k prevp p h = some r := by
  induction fuel generalizing fuel' k prevp p h with
  | zero => cases hm
  | succ fuel ih =>
    obtain ⟨fuel', rfl⟩ : ∃ g, fuel' = g + 1 := ⟨fuel' - 1, by omega⟩
    rw [mallocFrom_succ] at hm ⊢
    split at hm
    · rwa [if_pos ‹_›]
    · rw [if_neg ‹_›]
      split at hm
      · rw [if_pos ‹_›]
        simp only [more, Option.bind_eq_bind, Option.bind_eq_some_iff] at hm ⊢
        obtain ⟨⟨q, h'⟩, hmore, hm⟩ := hm
        refine ⟨(q, h'), morecore_mono (by omega) hmore, ?_⟩
        cases q with
        | none => exact hm
        | some q => exact ih (by omega) hm
      · rw [if_neg ‹_›]
        exact ih (by omega) hm

lemma mallocFrom_round (env : ℕ → Option ℕ) (nunits k : ℕ) (hf : h.freep = some f)
    (hmem : prevp ∈ S.map Prod.fst) (hptr : h.ptr prevp = p)
    (hpath : Path h.ptr p (l.map Prod.fst) f)
    (hsub : ∀ b ∈ l, b ∈ S ∧ b.1 ≠ f) (hfm : f ∈ S.map Prod.fst)
    (fuel : ℕ) (hfuel : l.length < fuel) :
    (∃ x q, x ∈ S.map Prod.fst ∧ nunits ≤ h.size x ∧ q ∈ S.map Prod.fst ∧ h.ptr q = x ∧
      mallocFrom env nunits fuel k prevp p h =
        some (some (h.carve nunits q x).1, (h.carve nunits q x).2)) ∨
    ((∀ x ∈ f :: l.map Prod.fst, h.size x < nunits) ∧
      mallocFrom env nunits fuel k prevp p h = more env nunits (fuel - l.length - 1) k h) := by
  induction l generalizing prevp p fuel with
  | nil =>
    obtain ⟨fuel, rfl⟩ : ∃ g, fuel = g + 1 := ⟨fuel - 1, by simp at hfuel; omega⟩
    obtain rfl : p = f := hpath
    rw [mallocFrom_succ]
    by_cases hbig : nunits ≤ h.size p
    · exact Or.inl ⟨p, prevp, hfm, hbig, hmem, hptr, if_pos hbig⟩
    · rw [if_neg hbig, if_pos hf]
      exact Or.inr ⟨by simpa using hbig, rfl⟩
  | cons b l ih =>
    obtain ⟨fuel, rfl⟩ : ∃ g, fuel = g + 1 := ⟨fuel - 1, by simp at hfuel; omega⟩
    obtain ⟨hpb, hrest⟩ := hpath
    obtain ⟨hbS, hbf⟩ := hsub b List.mem_cons_self
    have hpm : p ∈ S.map Prod.fst := hpb ▸ List.mem_map_of_mem hbS
    rw [mallocFrom_succ]
    by_cases hbig : nunits ≤ h.size p
    · exact Or.inl ⟨p, prevp, hpm, hbig, hmem, hptr, if_pos hbig⟩
    · have hpf : h.freep ≠ some p := by
        rw [hf, hpb]
        exact fun h => hbf (Option.some.inj h).symm
      rw [if_neg hbig, if_neg hpf]
      rw [← hpb] at hrest
      rcases ih hpm rfl hrest (fun c hc => hsub c (List.mem_cons_of_mem b hc)) fuel
          (by simpa using hfuel) with htake | ⟨hsmall, hmore⟩
      · exact Or.inl htake
      · refine Or.inr ⟨fun x hx => ?_, ?_⟩
        · simp only [List.map_cons, List.mem_cons] at hx hsmall
          rcases hx with rfl | rfl | hx
          · exact hsmall x (Or.inl rfl)
          · rw [hpb] at hbig
            omega
          · exact hsmall x (Or.inr hx)
        · rw [hmore, List.length_cons]
          congr 1
          omega

end Heap

/-! ## What one call does -/

/-- From a heap with the free list `S`, the block `a` of `m` units was allocated; `S'` is the free
list then, and `G` what `sbrk` gave. -/
structure Allocated (base m : ℕ) (h : Heap) (S : List (ℕ × ℕ)) (a : ℕ) (h' : Heap)
    (S' G : List (ℕ × ℕ)) : Prop where
  list : FreeList base h' S'
  freep : ∃ f, h'.freep = some f ∧ f ∈ S'.map Prod.fst
  size : h'.size a = m
  got : h'.got = G ++ h.got
  hits_eq : ∀ u, hits u ((a, m) :: S') = hits u (G ++ S)
  total_eq : total ((a, m) :: S') = total (G ++ S)
  frame : ∀ c, c ≠ base → hits c (G ++ S) = 0 → h'.size c = h.size c
  fresh : (G = [] ∧ h'.brk = h.brk) ∨
    ∃ hp nu, G = [(hp, nu)] ∧ h.brk ≤ hp ∧ nu = max m 4096 ∧ h'.brk = hp + nu

section Calls

variable {base m f : ℕ} {h : Heap} {S : List (ℕ × ℕ)} {env : ℕ → Option ℕ}

lemma FreeList.round (hS : FreeList base h S) (hf : f ∈ S.map Prod.fst) :
    ∃ l : List (ℕ × ℕ), Path h.ptr (h.ptr f) (l.map Prod.fst) f ∧ (∀ b ∈ l, b ∈ S ∧ b.1 ≠ f) ∧
      l.length < S.length ∧ ∀ b ∈ S, b.1 ∈ f :: l.map Prod.fst := by
  obtain ⟨⟨f, k⟩, hmem, rfl⟩ := List.mem_map.1 hf
  obtain ⟨L1, L2, rfl⟩ := List.append_of_mem hmem
  refine ⟨L2 ++ L1, ?_, fun b hb => ⟨?_, ?_⟩, ?_, fun b hb => ?_⟩
  · have hpath := hS.path
    rw [List.map_append, List.map_cons] at hpath
    rw [List.map_append]
    exact hpath.rotate
  · simp only [List.mem_append, List.mem_cons] at hb ⊢
    tauto
  · rcases List.mem_append.1 hb with hb | hb
    · have := hS.lt_after hb
      simp only
      omega
    · have := hS.lt_before hb
      simp only
      omega
  · simp only [List.length_append, List.length_cons]
    omega
  · simp only [List.mem_append, List.mem_cons] at hb
    simp only [List.map_append, List.mem_cons, List.mem_append]
    rcases hb with hb | rfl | hb
    · exact Or.inr (Or.inr (List.mem_map_of_mem hb))
    · exact Or.inl rfl
    · exact Or.inr (Or.inl (List.mem_map_of_mem hb))

lemma FreeList.take (hS : FreeList base h S) (hm : 0 < m) {x q : ℕ} (hx : x ∈ S.map Prod.fst)
    (hbig : m ≤ h.size x) (hq : q ∈ S.map Prod.fst) (hqx : h.ptr q = x) :
    ∃ S', Allocated base m h S (h.carve m q x).1 (h.carve m q x).2 S' [] := by
  obtain ⟨⟨x, n⟩, hmem, rfl⟩ := List.mem_map.1 hx
  have hn : h.size x = n := hS.size_eq _ hmem
  have hbase : x ≠ base := by
    rintro rfl
    have := hS.size_eq (x, 0) hS.base_mem
    simp only at this hbig
    omega
  obtain ⟨L1, q', k, L2, rfl⟩ := hS.exists_before hmem hbase
  obtain rfl : q = q' := hS.before_unique hq hqx
  obtain ⟨S', hS', hfreep, hqS', hsize, hhits, htot, hframe, hbrk, hgot⟩ :=
    hS.carve_spec hm (by simp only at hbig; omega)
  exact ⟨S', hS', ⟨q, hfreep, hqS'⟩, hsize, hgot, hhits, htot, hframe, Or.inl ⟨rfl, hbrk⟩⟩

lemma FreeList.grow (hS : FreeList base h S) (hf : h.freep = some f) (hfm : f ∈ S.map Prod.fst)
    (hbrk : ∀ b ∈ S, b.1 + b.2 ≤ h.brk) (hbase : base < h.brk) {nu : ℕ} (hnu : 0 < nu)
    (htot : total S + nu < 2 ^ 32) (gap : ℕ) :
    ∃ h' S', FreeList base h' S' ∧ (∃ f', h'.freep = some f' ∧ f' ∈ S'.map Prod.fst) ∧
      (∃ b ∈ S', nu ≤ b.2) ∧ (∀ u, hits u S' = hits u ((h.brk + gap, nu) :: S)) ∧
      total S' = total ((h.brk + gap, nu) :: S) ∧
      (∀ a, a ≠ base → hits a ((h.brk + gap, nu) :: S) = 0 → h'.size a = h.size a) ∧
      h'.brk = h.brk + gap + nu ∧ h'.got = (h.brk + gap, nu) :: h.got ∧
      ∀ fuel, S.length ≤ fuel → Heap.free fuel (h.brk + gap)
        ({ h with brk := h.brk + gap + nu, got := (h.brk + gap, nu) :: h.got }.setSize
          (h.brk + gap) nu) = some h' := by
  obtain ⟨hp, hhp⟩ : ∃ hp, hp = h.brk + gap := ⟨_, rfl⟩
  rw [← hhp]
  have hlt : ∀ b ∈ S, b.1 < hp := by
    intro b hb
    have h1 := hbrk b hb
    by_cases hbb : b.1 = base
    · omega
    · have := hS.pos b hb hbb
      omega
  have hS1 : FreeList base ({ h with brk := hp + nu, got := (hp, nu) :: h.got }.setSize hp nu)
      S := by
    refine ⟨hS.head, hS.path, fun b hb => ?_, hS.spaced, hS.pos⟩
    have := hlt b hb
    simp only [Heap.setSize_size]
    rw [setAt_of_ne _ _ (by omega)]
    exact hS.size_eq b hb
  obtain ⟨h', S', hS', hf', hb', hhits, htot', hframe, hbrk', hgot', hfree⟩ :=
    hS1.free_spec hf hfm (setAt_self _ hp nu) hnu (by omega)
      (fun b hb => Or.inl (by have := hbrk b hb; omega)) htot
  refine ⟨h', S', hS', hf', hb', hhits, htot', fun a ha h0 => ?_, hbrk', hgot', hfree⟩
  rw [hframe a ha h0]
  refine setAt_of_ne _ _ ?_
  rintro rfl
  rw [hits_cons, if_pos (by simp only; omega)] at h0
  omega

lemma FreeList.mallocFrom_take (env : ℕ → Option ℕ) (hS : FreeList base h S)
    (hf : h.freep = some f) (hfm : f ∈ S.map Prod.fst) (hm : 0 < m) (hbig : ∃ b ∈ S, m ≤ b.2)
    (k : ℕ) :
    ∃ N a h' S', (∀ fuel, N ≤ fuel →
      Heap.mallocFrom env m fuel k f (h.ptr f) h = some (some a, h')) ∧
      Allocated base m h S a h' S' [] := by
  obtain ⟨l, hpath, hsub, hlen, hall⟩ := hS.round hfm
  rcases Heap.mallocFrom_round env m k hf hfm rfl hpath hsub hfm (l.length + 1) (by omega) with
    ⟨x, q, hx, hxm, hq, hqx, hrun⟩ | ⟨hsmall, -⟩
  · obtain ⟨S', hS'⟩ := hS.take hm hx hxm hq hqx
    exact ⟨l.length + 1, _, _, S', fun fuel hfuel => Heap.mallocFrom_mono hfuel hrun, hS'⟩
  · obtain ⟨b, hb, hbm⟩ := hbig
    have h1 := hsmall b.1 (hall b hb)
    have h2 := hS.size_eq b hb
    omega

lemma FreeList.mallocFrom_more (env : ℕ → Option ℕ) (hS : FreeList base h S)
    (hf : h.freep = some f) (hfm : f ∈ S.map Prod.fst) (hsmall : ∀ b ∈ S, b.2 < m) :
    ∃ n, ∀ fuel, n < fuel →
      Heap.mallocFrom env m fuel 0 f (h.ptr f) h = h.more env m (fuel - n - 1) 0 := by
  obtain ⟨l, hpath, hsub, hlen, hall⟩ := hS.round hfm
  refine ⟨l.length, fun fuel hfuel => ?_⟩
  rcases Heap.mallocFrom_round env m 0 hf hfm rfl hpath hsub hfm fuel hfuel with
    ⟨x, q, hx, hxm, -, -, -⟩ | ⟨-, hrun⟩
  · obtain ⟨b, hb, rfl⟩ := List.mem_map.1 hx
    have h1 := hsmall b hb
    have h2 := hS.size_eq b hb
    omega
  · exact hrun

lemma asked_max (hm : m * headerSize < 2 ^ 31) :
    Heap.asked (max m 4096) = (max m 4096 : ℕ) := by
  refine Heap.asked_eq ?_
  simp only [headerSize] at hm ⊢
  omega

/-- `malloc` ends; it fails and leaves the heap as it is, or allocates a block. -/
lemma FreeList.mallocFrom_spec (env : ℕ → Option ℕ) (hS : FreeList base h S)
    (hf : h.freep = some f) (hfm : f ∈ S.map Prod.fst) (hbrk : ∀ b ∈ S, b.1 + b.2 ≤ h.brk)
    (hbase : base < h.brk) (hm : 0 < m) (hfit : m * headerSize < 2 ^ 31)
    (htot : (∃ b ∈ S, m ≤ b.2) ∨ env 0 = none ∨ total S + max m 4096 < 2 ^ 32) :
    ∃ N r, (∀ fuel, N ≤ fuel → Heap.mallocFrom env m fuel 0 f (h.ptr f) h = some r) ∧
      (r = (none, h) ∨ ∃ a h' S' G, r = (some a, h') ∧ Allocated base m h S a h' S' G) := by
  by_cases hbig : ∃ b ∈ S, m ≤ b.2
  · obtain ⟨N, a, h', S', hrun, hA⟩ := hS.mallocFrom_take env hf hfm hm hbig 0
    exact ⟨N, _, hrun, Or.inr ⟨a, h', S', [], rfl, hA⟩⟩
  obtain ⟨n, hmore⟩ := hS.mallocFrom_more env hf hfm
    fun b hb => not_le.1 fun hle => hbig ⟨b, hb, hle⟩
  cases henv : env 0 with
  | none =>
    refine ⟨n + 1, (none, h), fun fuel hfuel => ?_, Or.inl rfl⟩
    rw [hmore fuel (by omega), Heap.more, henv]
    rfl
  | some gap =>
    have hnu : (if m < 4096 then 4096 else m) = max m 4096 := by
      split <;> omega
    have hsmall : total S + max m 4096 < 2 ^ 32 := by
      rcases htot with h1 | h1 | h1
      · exact absurd h1 hbig
      · rw [henv] at h1
        cases h1
      · exact h1
    obtain ⟨h1, S1, hS1, ⟨f1, hf1, hfm1⟩, ⟨b, hb, hbn⟩, hhits, htot1, hframe, hbrk1, hgot1,
      hfree⟩ :=
      hS.grow hf hfm hbrk hbase (lt_of_lt_of_le (by decide) (le_max_right m 4096)) hsmall gap
    obtain ⟨N, a, h', S', hrun, hA⟩ :=
      hS1.mallocFrom_take env hf1 hfm1 hm ⟨b, hb, le_trans (le_max_left _ _) hbn⟩ 1
    refine ⟨n + 1 + (S.length + N), (some a, h'), fun fuel hfuel => ?_,
      Or.inr ⟨a, h', S', [(h.brk + gap, max m 4096)], rfl, ?_⟩⟩
    · rw [hmore fuel (by omega), Heap.more, henv, Heap.morecore]
      simp only [hnu, asked_max hfit, ← Int.natCast_add, Int.toNat_natCast,
        hfree (fuel - n - 1) (by omega), Option.bind_eq_bind, Option.bind_some, hf1]
      exact hrun _ (by omega)
    · refine ⟨hA.list, hA.freep, hA.size, by rw [hA.got, hgot1]; rfl, fun u => ?_, ?_,
        fun c hc h0 => ?_, Or.inr ⟨_, _, rfl, by omega, rfl, ?_⟩⟩
      · rw [hA.hits_eq, List.nil_append, hhits]
        rfl
      · rw [hA.total_eq, List.nil_append, htot1]
        rfl
      · rw [hA.frame c hc (by rw [List.nil_append, hhits]; exact h0), hframe c hc h0]
      · rcases hA.fresh with ⟨-, hb⟩ | ⟨hp, nu, hG, -⟩
        · rw [hb, hbrk1]
        · cases hG

/-! ### What `sbrk` gave stays recorded -/

lemma free_keeps {fuel bp : ℕ} {h' : Heap} (hfree : h.free fuel bp = some h') :
    h'.got = h.got ∧ h'.brk = h.brk := by
  simp only [Heap.free, Option.bind_eq_bind, Option.bind_eq_some_iff] at hfree
  obtain ⟨f, -, p, -, hr⟩ := hfree
  obtain rfl := Option.some.inj hr
  unfold Heap.joinPrev Heap.joinNext
  split_ifs <;> exact ⟨rfl, rfl⟩

lemma more_got {fuel k : ℕ} {r : Option ℕ × Heap} {gap : ℕ} (henv : env k = some gap)
    (hfit : m * headerSize < 2 ^ 31)
    (hrec : ∀ {k p : ℕ} {h : Heap} {r : Option ℕ × Heap},
      Heap.mallocFrom env m fuel k p (h.ptr p) h = some r → total h.got ≤ total r.2.got)
    (hmore : h.more env m fuel k = some r) : total h.got + max m 4096 ≤ total r.2.got := by
  have hnu : (if m < 4096 then 4096 else m) = max m 4096 := by
    split <;> omega
  rw [Heap.more, henv, Heap.morecore] at hmore
  simp only [asked_max hfit, Int.toNat_natCast, hnu, Option.bind_eq_bind,
    Option.bind_eq_some_iff] at hmore
  obtain ⟨⟨q, h1⟩, ⟨h2, hfree, hr1⟩, hr⟩ := hmore
  obtain ⟨rfl, rfl⟩ := Prod.mk.inj (Option.some.inj hr1)
  have hgot : total h2.got = max m 4096 + total h.got := by
    rw [(free_keeps hfree).1]
    rfl
  cases hq : h2.freep with
  | none =>
    rw [hq] at hr
    obtain rfl := Option.some.inj hr
    simp only
    omega
  | some p =>
    rw [hq] at hr
    have := hrec hr
    omega

lemma mallocFrom_got {fuel k prevp p : ℕ} {r : Option ℕ × Heap} (hfit : m * headerSize < 2 ^ 31)
    (hrun : Heap.mallocFrom env m fuel k prevp p h = some r) : total h.got ≤ total r.2.got := by
  induction fuel generalizing k prevp p h r with
  | zero => cases hrun
  | succ fuel ih =>
    rw [Heap.mallocFrom_succ] at hrun
    split at hrun
    · obtain rfl := Option.some.inj hrun
      unfold Heap.carve
      split <;> exact le_rfl
    · split at hrun
      · cases henv : env k with
        | none =>
          rw [Heap.more, henv] at hrun
          obtain rfl := Option.some.inj hrun
          exact le_rfl
        | some gap => exact le_trans (Nat.le_add_right _ _) (more_got henv hfit ih hrun)
      · exact ih hrun

end Calls

/-! ## The invariant over all calls -/

/-- What holds of the heap of a program between calls; `S` is the free list.  A unit is covered as
often by free and live blocks as by what `sbrk` gave, which is at most once. -/
structure HeapOk (base : ℕ) (s : Sys) (S : List (ℕ × ℕ)) : Prop where
  list : FreeList base s.heap S
  freep : ∃ f, s.heap.freep = some f ∧ f ∈ S.map Prod.fst
  covered : ∀ u, hits u S + hits u (s.live.map s.block) = hits u s.heap.got
  once : ∀ u, hits u s.heap.got ≤ 1
  room : ∀ b ∈ s.live, b.2 ≤ (s.heap.size b.1 - 1) * headerSize

/-- The invariant that the calls keep: in addition, how much there is and where. -/
structure Inv (base : ℕ) (s : Sys) (S : List (ℕ × ℕ)) : Prop extends HeapOk base s S where
  total_eq : total S + total (s.live.map s.block) = total s.heap.got
  live_pos : ∀ b ∈ s.live, base < b.1 ∧ 0 < s.heap.size b.1
  below : ∀ r ∈ s.heap.got, base < r.1 ∧ r.1 + r.2 ≤ s.heap.brk
  base_lt : base < s.heap.brk

namespace Inv

variable {base : ℕ} {s : Sys} {S : List (ℕ × ℕ)}

section

variable (h : Inv base s S)

include h

lemma hits_above {u : ℕ} (hu : s.heap.brk ≤ u) : hits u s.heap.got = 0 :=
  hits_eq_zero fun r hr => Or.inr (le_trans (h.below r hr).2 hu)

lemma list_below {b : ℕ × ℕ} (hb : b ∈ S) : b.1 + b.2 ≤ s.heap.brk := by
  by_contra hlt
  have hbase := h.list.base_le hb
  have hlt' := h.base_lt
  by_cases hb2 : b.2 = 0
  · have hbb : b.1 = base := by
      by_contra hne
      exact absurd hb2 (h.list.pos b hb hne).ne'
    omega
  · have h1 := hits_pos (u := max b.1 s.heap.brk) hb (le_max_left _ _) (by omega)
    have h2 := h.covered (max b.1 s.heap.brk)
    rw [h.hits_above (le_max_right _ _)] at h2
    omega

lemma apart {c b : ℕ × ℕ} (hc : c ∈ s.live) (hb : b ∈ S) :
    b.1 + b.2 ≤ c.1 ∨ c.1 + s.heap.size c.1 ≤ b.1 := by
  by_contra hcon
  obtain ⟨hcb, hcp⟩ := h.live_pos c hc
  have hb2 : 0 < b.2 := by
    by_contra h0
    have hbb : b.1 = base := by
      by_contra hne
      exact h0 (h.list.pos b hb hne)
    omega
  have h1 := hits_pos (u := max b.1 c.1) hb (le_max_left _ _) (by omega)
  have h2 := hits_pos (u := max b.1 c.1) (List.mem_map_of_mem (f := s.block) hc)
    (le_max_right _ _) (by simp only [Sys.block]; omega)
  have h3 := h.covered (max b.1 c.1)
  have h4 := h.once (max b.1 c.1)
  omega

lemma hits_header {l1 l2 : List (ℕ × ℕ)} {c : ℕ × ℕ}
    (hl : s.live = l1 ++ c :: l2) : hits c.1 S = 0 ∧ hits c.1 ((l1 ++ l2).map s.block) = 0 := by
  have hc : c ∈ s.live := by simp [hl]
  have h1 := h.covered c.1
  have h2 := h.once c.1
  have h3 := (h.live_pos c hc).2
  rw [hl, List.map_append, List.map_cons, hits_append, Sys.block, hits_cons_mk,
    if_pos ⟨le_rfl, by omega⟩] at h1
  rw [List.map_append, hits_append]
  omega

lemma header_lt_brk {c : ℕ × ℕ} (hc : c ∈ s.live) : c.1 < s.heap.brk := by
  by_contra hge
  have h1 := hits_pos (List.mem_map_of_mem (f := s.block) hc) (le_refl c.1)
    (Nat.lt_add_of_pos_right (h.live_pos c hc).2)
  have h2 := h.covered c.1
  rw [h.hits_above (not_lt.1 hge)] at h2
  omega

lemma header_of_frame {h' : Heap} {G : List (ℕ × ℕ)} (hG : ∀ r ∈ G, s.heap.brk ≤ r.1)
    (hframe : ∀ c, c ≠ base → hits c (G ++ S) = 0 → h'.size c = s.heap.size c) {c : ℕ × ℕ}
    (hc : c ∈ s.live) : h'.size c.1 = s.heap.size c.1 := by
  obtain ⟨l1, l2, hl⟩ := List.append_of_mem hc
  refine hframe c.1 (h.live_pos c hc).1.ne' ?_
  have hlt := h.header_lt_brk hc
  rw [hits_append, (h.hits_header hl).1,
    hits_eq_zero fun r hr => Or.inl (lt_of_lt_of_le hlt (hG r hr))]

lemma malloc {nbytes a : ℕ} {h' : Heap} {S' G : List (ℕ × ℕ)}
    (hA : Allocated base (Heap.nunits nbytes) s.heap S a h' S' G) :
    Inv base ⟨h', (a, nbytes) :: s.live⟩ S' := by
  obtain ⟨m, hm⟩ : ∃ m, m = Heap.nunits nbytes := ⟨_, rfl⟩
  have hmpos : 0 < m := hm ▸ Nat.succ_pos _
  rw [← hm] at hA
  have hG : ∀ r ∈ G, s.heap.brk ≤ r.1 := by
    rcases hA.fresh with ⟨rfl, -⟩ | ⟨hp, nu, rfl, hle, -⟩
    · rintro _ ⟨⟩
    · exact fun r hr => by rwa [List.mem_singleton.1 hr]
  have hheader : ∀ c ∈ s.live, h'.size c.1 = s.heap.size c.1 :=
    fun c hc => h.header_of_frame hG hA.frame hc
  have hblocks : ((a, nbytes) :: s.live).map (Sys.block ⟨h', (a, nbytes) :: s.live⟩) =
      (a, m) :: s.live.map s.block := by
    rw [List.map_cons]
    refine congrArg₂ _ ?_ (List.map_congr_left fun c hc => ?_)
    · rw [Sys.block, hA.size]
    · rw [Sys.block, Sys.block, hheader c hc]
  have hbelow : ∀ r ∈ h'.got, base < r.1 ∧ r.1 + r.2 ≤ h'.brk := by
    intro r hr
    rw [hA.got] at hr
    have hb := h.base_lt
    rcases List.mem_append.1 hr with hr | hr
    · rcases hA.fresh with ⟨rfl, -⟩ | ⟨hp, nu, rfl, hle, -, hbrk⟩
      · cases hr
      · rw [List.mem_singleton.1 hr, hbrk]
        exact ⟨by simp only; omega, le_rfl⟩
    · have := h.below r hr
      rcases hA.fresh with ⟨-, hbrk⟩ | ⟨hp, nu, -, hle, -, hbrk⟩ <;> omega
  have hcov : ∀ u,
      hits u S' + hits u ((a, m) :: s.live.map s.block) = hits u (G ++ s.heap.got) := by
    intro u
    have h1 := h.covered u
    have h2 := hA.hits_eq u
    simp only [hits_cons, hits_append] at h2 ⊢
    omega
  refine ⟨⟨hA.list, hA.freep, fun u => ?_, fun u => ?_, fun b hb => ?_⟩, ?_, fun b hb => ?_,
    hbelow, ?_⟩
  · rw [hblocks, hA.got, hcov]
  · rw [hA.got, hits_append]
    rcases hA.fresh with ⟨rfl, -⟩ | ⟨hp, nu, rfl, hle, -⟩
    · simpa using h.once u
    · rw [hits_cons, hits_nil]
      have h1 := h.once u
      split_ifs with hin
      · rw [h.hits_above (by simp only at hin; omega)]
      · omega
  · rcases List.mem_cons.1 hb with rfl | hb
    · have := Nat.div_add_mod (nbytes + headerSize - 1) headerSize
      simp only [hA.size, hm, Heap.nunits, headerSize] at *
      omega
    · rw [hheader b hb]
      exact h.room b hb
  · have h1 := h.total_eq
    have h2 := hA.total_eq
    simp only [hblocks, hA.got, total_cons, total_append] at h2 ⊢
    omega
  · rcases List.mem_cons.1 hb with rfl | hb
    · refine ⟨?_, by simp only [hA.size]; omega⟩
      -- the block is part of a region
      have h1 := hcov a
      rw [hits_cons, if_pos (by simp only; omega)] at h1
      by_contra hle
      rw [← hA.got,
        hits_eq_zero fun r hr => Or.inl (lt_of_le_of_lt (not_lt.1 hle) (hbelow r hr).1)] at h1
      omega
    · rw [hheader b hb]
      exact h.live_pos b hb
  · have := h.base_lt
    rcases hA.fresh with ⟨-, hbrk⟩ | ⟨hp, nu, -, hle, -, hbrk⟩ <;> simp only <;> omega

lemma free (htot : total s.heap.got < 2 ^ 32) {bp : ℕ} (hbp : bp ∈ s.live.map Prod.fst) :
    ∃ N h' S', (∀ fuel, N ≤ fuel → s.heap.free fuel bp = some h') ∧
      Inv base ⟨h', s.live.eraseP fun b => b.1 = bp⟩ S' := by
  obtain ⟨c0, hc0, rfl⟩ := List.mem_map.1 hbp
  obtain ⟨c, l1, l2, -, hcb, hl, herase⟩ :=
    List.exists_of_eraseP hc0 (p := fun b => b.1 = c0.1) (by simp)
  replace hcb : c.1 = c0.1 := of_decide_eq_true hcb
  rw [herase, ← hcb]
  have hc : c ∈ s.live := by simp [hl]
  obtain ⟨hbase, hpos⟩ := h.live_pos c hc
  obtain ⟨f, hf, hfm⟩ := h.freep
  have hsum := h.total_eq
  have hblocks : s.live.map s.block = l1.map s.block ++ s.block c :: l2.map s.block := by
    rw [hl, List.map_append, List.map_cons]
  rw [hblocks, total_append, total_cons] at hsum
  have hn : total S + s.heap.size c.1 < 2 ^ 32 := by
    simp only [Sys.block] at hsum
    omega
  obtain ⟨h', S', hS', hf', -, hhits, htot', hframe, hbrk, hgot, hfree⟩ :=
    h.list.free_spec hf hfm rfl hpos hbase (fun b hb => h.apart hc hb) hn
  have hheader : ∀ b ∈ l1 ++ l2, h'.size b.1 = s.heap.size b.1 := by
    intro b hb
    have hb' : b ∈ s.live := by
      rw [hl]
      simp only [List.mem_append, List.mem_cons] at hb ⊢
      tauto
    refine hframe b.1 (h.live_pos b hb').1.ne' ?_
    -- `b` is another block, so `c` does not cover its header
    obtain ⟨m1, m2, hm⟩ := List.append_of_mem hb
    have hperm : (s.live).Perm (b :: c :: (m1 ++ m2)) := by
      have h1 : (l1 ++ c :: l2).Perm (c :: (l1 ++ l2)) := List.perm_middle
      rw [hm] at h1
      rw [hl]
      exact (h1.trans (List.Perm.cons c List.perm_middle)).trans (List.Perm.swap b c _)
    have hcount : hits b.1 (s.live.map s.block) = hits b.1 ((b :: c :: (m1 ++ m2)).map s.block) :=
      (hperm.map s.block).countP_eq _
    have h1 := h.covered b.1
    have h2 := h.once b.1
    have h3 := (h.live_pos b hb').2
    rw [hcount, List.map_cons, List.map_cons, Sys.block, hits_cons_mk,
      if_pos ⟨le_rfl, by omega⟩, Sys.block, hits_cons_mk] at h1
    rw [hits_cons_mk]
    omega
  have hblocks' : (l1 ++ l2).map (Sys.block ⟨h', l1 ++ l2⟩) = (l1 ++ l2).map s.block :=
    List.map_congr_left fun b hb => by rw [Sys.block, Sys.block, hheader b hb]
  have hmem : ∀ b ∈ l1 ++ l2, b ∈ s.live := by
    intro b hb
    rw [hl]
    simp only [List.mem_append, List.mem_cons] at hb ⊢
    tauto
  refine ⟨S.length, h', S', hfree, ⟨hS', hf', fun u => ?_, fun u => ?_, fun b hb => ?_⟩, ?_,
    fun b hb => ?_, ?_, ?_⟩
  · have h1 := h.covered u
    rw [hblocks] at h1
    rw [hblocks', hgot, hhits]
    simp only [List.map_append, hits_append, hits_cons, Sys.block] at h1 ⊢
    omega
  · rw [hgot]
    exact h.once u
  · rw [hheader b hb]
    exact h.room b (hmem b hb)
  · rw [hblocks', hgot, htot']
    simp only [List.map_append, total_append, total_cons, Sys.block] at hsum ⊢
    omega
  · rw [hheader b hb]
    exact h.live_pos b (hmem b hb)
  · rw [hgot, hbrk]
    exact h.below
  · rw [hbrk]
    exact h.base_lt

lemma store {u ptr size : ℕ} {c : ℕ × ℕ} (hc : c ∈ s.live) (hlt : c.1 < u)
    (hlt' : u < c.1 + s.heap.size c.1) :
    Inv base { s with heap := (s.heap.setPtr u ptr).setSize u size } S := by
  obtain ⟨l1, l2, hl⟩ := List.append_of_mem hc
  have hsplit : ∀ v, hits v S + (hits v (l1.map s.block) + hits v (l2.map s.block) +
      if c.1 ≤ v ∧ v < c.1 + s.heap.size c.1 then 1 else 0) ≤ 1 := by
    intro v
    have h1 := h.covered v
    have h2 := h.once v
    rw [hl, List.map_append, List.map_cons, hits_append, Sys.block, hits_cons_mk] at h1
    omega
  have hu := hsplit u
  rw [if_pos ⟨hlt.le, hlt'⟩] at hu
  have hubase : base < u := lt_trans (h.live_pos c hc).1 hlt
  have hfree : ∀ b ∈ S, b.1 ≠ u := by
    rintro b hb rfl
    have := h.list.hits_pos_of_mem hb hubase.ne'
    omega
  have hheader : ∀ b ∈ s.live, b.1 ≠ u := by
    rintro b hb rfl
    have hb' := (h.live_pos b hb).2
    rw [hl] at hb
    rcases List.mem_append.1 hb with hb | hb
    · have := hits_pos (List.mem_map_of_mem (f := s.block) hb) (le_refl b.1)
        (Nat.lt_add_of_pos_right hb')
      omega
    · rcases List.mem_cons.1 hb with rfl | hb
      · exact absurd hlt (lt_irrefl _)
      · have := hits_pos (List.mem_map_of_mem (f := s.block) hb) (le_refl b.1)
          (Nat.lt_add_of_pos_right hb')
        omega
  have hsize : ∀ a, a ≠ u → ((s.heap.setPtr u ptr).setSize u size).size a = s.heap.size a :=
    fun a ha => setAt_of_ne _ _ ha
  have hblocks : s.live.map (Sys.block { s with heap := (s.heap.setPtr u ptr).setSize u size }) =
      s.live.map s.block :=
    List.map_congr_left fun b hb => by rw [Sys.block, Sys.block, hsize b.1 (hheader b hb)]
  refine ⟨⟨⟨h.list.head, ?_, fun b hb => ?_, h.list.spaced, h.list.pos⟩, h.freep, fun v => ?_,
    h.once, fun b hb => ?_⟩, ?_, fun b hb => ?_, h.below, h.base_lt⟩
  · refine h.list.path.congr fun x hx => setAt_of_ne _ _ ?_
    obtain ⟨b, hb, rfl⟩ := List.mem_map.1 hx
    exact hfree b hb
  · rw [hsize b.1 (hfree b hb)]
    exact h.list.size_eq b hb
  · rw [hblocks]
    exact h.covered v
  · rw [hsize b.1 (hheader b hb)]
    exact h.room b hb
  · rw [hblocks]
    exact h.total_eq
  · rw [hsize b.1 (hheader b hb)]
    exact h.live_pos b hb

end

end Inv

/-- Before the first call nothing was allocated; afterwards the invariant holds. -/
def Ready (base : ℕ) (s : Sys) : Prop :=
  (s.heap.freep = none ∧ s.live = [] ∧ s.heap.got = [] ∧ base < s.heap.brk) ∨ ∃ S, Inv base s S

namespace Ready

variable {base : ℕ} {s : Sys}

lemma setup (h : Ready base s) : ∃ S, Inv base ⟨s.heap.setup base, s.live⟩ S := by
  rcases h with ⟨hf, hl, hg, hb⟩ | ⟨S, hS⟩
  · refine ⟨[(base, 0)], ?_⟩
    rw [Heap.setup, hf, hl]
    refine ⟨⟨⟨⟨[], rfl⟩, ⟨rfl, setAt_self _ _ _⟩, fun b hb => ?_, List.pairwise_singleton _ _,
      fun b hb hne => ?_⟩, ⟨base, rfl, by simp⟩, fun u => ?_, fun u => ?_, fun b hb => ?_⟩, ?_,
      fun b hb => ?_, fun r hr => ?_, hb⟩
    · rw [List.mem_singleton.1 hb]
      exact setAt_self _ _ _
    · rw [List.mem_singleton.1 hb] at hne
      exact absurd rfl hne
    · simp [hg, hits_cons_mk]
    · simp [hg]
    · cases hb
    · simp [hg]
    · cases hb
    · simp [hg] at hr
  · refine ⟨S, ?_⟩
    obtain ⟨f, hf, -⟩ := hS.freep
    rw [Heap.setup, hf]
    exact hS

lemma malloc_eq (base fuel : ℕ) (env : ℕ → Option ℕ) (nbytes : ℕ) (h : Heap) {f : ℕ}
    (hf : (h.setup base).freep = some f) : h.malloc base fuel env nbytes =
      Heap.mallocFrom env (Heap.nunits nbytes) fuel 0 f ((h.setup base).ptr f) (h.setup base) := by
  simp only [Heap.malloc, hf, Option.bind_eq_bind, Option.bind_some]

lemma malloc_ends (h : Ready base s) {nbytes : ℕ} (env : ℕ → Option ℕ)
    (hfit : Heap.nunits nbytes * headerSize < 2 ^ 31)
    (htot : total s.heap.got + max (Heap.nunits nbytes) 4096 < 2 ^ 32) :
    ∃ N, ∀ fuel, N ≤ fuel → (s.heap.malloc base fuel env nbytes).isSome = true := by
  obtain ⟨S, hS⟩ := h.setup
  obtain ⟨f, hf, hfm⟩ := hS.freep
  have hsum := hS.total_eq
  simp only [Heap.setup_got] at hsum
  obtain ⟨N, r, hrun, -⟩ := hS.list.mallocFrom_spec env hf hfm (fun b hb => hS.list_below hb)
    hS.base_lt (Heap.nunits_pos nbytes) hfit (Or.inr (Or.inr (by omega)))
  refine ⟨N, fun fuel hfuel => ?_⟩
  rw [malloc_eq base fuel env nbytes s.heap hf, hrun fuel hfuel]
  rfl

/-- When `malloc` ends and fewer than `2 ^ 32` units were given in total, it has failed and left
the heap, or the invariant holds with the new block. -/
lemma malloc (h : Ready base s) {fuel nbytes : ℕ} {env : ℕ → Option ℕ} {r : Option ℕ × Heap}
    (hfit : Heap.nunits nbytes * headerSize < 2 ^ 31)
    (hrun : s.heap.malloc base fuel env nbytes = some r) (htot : total r.2.got < 2 ^ 32) :
    r = (none, s.heap.setup base) ∨
      ∃ a h' S', r = (some a, h') ∧ Inv base ⟨h', (a, nbytes) :: s.live⟩ S' := by
  obtain ⟨S, hS⟩ := h.setup
  obtain ⟨f, hf, hfm⟩ := hS.freep
  rw [malloc_eq base fuel env nbytes s.heap hf] at hrun
  have hroom : (∃ b ∈ S, Heap.nunits nbytes ≤ b.2) ∨ env 0 = none ∨
      total S + max (Heap.nunits nbytes) 4096 < 2 ^ 32 := by
    by_cases hbig : ∃ b ∈ S, Heap.nunits nbytes ≤ b.2
    · exact Or.inl hbig
    refine Or.inr ?_
    cases henv : env 0 with
    | none => exact Or.inl rfl
    | some gap =>
      obtain ⟨n, hmore⟩ := hS.list.mallocFrom_more env hf hfm
        fun b hb => not_le.1 fun hle => hbig ⟨b, hb, hle⟩
      have hrun' := Heap.mallocFrom_mono (Nat.le_add_right fuel (n + 1)) hrun
      rw [hmore _ (by omega)] at hrun'
      have hle := more_got henv hfit (fun hr => mallocFrom_got hfit hr) hrun'
      have hsum := hS.total_eq
      simp only at hsum hle
      exact Or.inr (by omega)
  obtain ⟨N, r', hrun', hr'⟩ := hS.list.mallocFrom_spec env hf hfm (fun b hb => hS.list_below hb)
    hS.base_lt (Heap.nunits_pos nbytes) hfit hroom
  have h1 := Heap.mallocFrom_mono (le_max_left fuel N) hrun
  rw [hrun' _ (le_max_right fuel N)] at h1
  obtain rfl := Option.some.inj h1
  rcases hr' with rfl | ⟨a, h', S', G, rfl, hA⟩
  · exact Or.inl rfl
  · exact Or.inr ⟨a, h', S', rfl, hS.malloc hA⟩

lemma step (h : Ready base s) {fuel : ℕ} {e : Event} {s' : Sys} (hfits : e.Fits)
    (hlegal : s.Legal e)
    (hrun : s.run base fuel e = some s') (htot : total s'.heap.got < 2 ^ 32)
    (htot0 : total s.heap.got < 2 ^ 32) : Ready base s' := by
  cases e with
  | malloc nbytes env =>
    simp only [Sys.run, Option.bind_eq_bind, Option.bind_eq_some_iff] at hrun
    obtain ⟨⟨q, h'⟩, hm, hrun⟩ := hrun
    have hh : s'.heap = h' := by
      cases q <;> exact congrArg Sys.heap (Option.some.inj hrun).symm
    rcases h.malloc hfits hm (by rwa [← hh]) with hr | ⟨a, h'', S', hr, hinv⟩
    · obtain ⟨rfl, rfl⟩ := Prod.mk.inj hr
      obtain rfl := Option.some.inj hrun
      exact Or.inr h.setup
    · obtain ⟨rfl, rfl⟩ := Prod.mk.inj hr
      obtain rfl := Option.some.inj hrun
      exact Or.inr ⟨S', hinv⟩
  | free bp =>
    simp only [Sys.run, Option.bind_eq_bind, Option.bind_eq_some_iff] at hrun
    obtain ⟨h', hfree, hrun⟩ := hrun
    obtain rfl := Option.some.inj hrun
    rcases h with ⟨-, hl, -⟩ | ⟨S, hS⟩
    · rw [Sys.Legal, hl] at hlegal
      cases hlegal
    · obtain ⟨N, h'', S', hrun', hinv⟩ := hS.free htot0 hlegal
      have h1 := Heap.free_mono (le_max_left fuel N) hfree
      rw [hrun' _ (le_max_right fuel N)] at h1
      obtain rfl := Option.some.inj h1
      exact Or.inr ⟨S', hinv⟩
  | store u ptr size =>
    obtain rfl := Option.some.inj hrun
    obtain ⟨c, hc, h1, h2⟩ := hlegal
    rcases h with ⟨-, hl, -⟩ | ⟨S, hS⟩
    · rw [hl] at hc
      cases hc
    · exact Or.inr ⟨S, hS.store hc h1 h2⟩

end Ready

lemma Sys.run_got {base fuel : ℕ} {s s' : Sys} {e : Event} (hfits : e.Fits)
    (hrun : s.run base fuel e = some s') :
    total s.heap.got ≤ total s'.heap.got := by
  cases e with
  | malloc nbytes env =>
    simp only [Sys.run, Option.bind_eq_bind, Option.bind_eq_some_iff] at hrun
    obtain ⟨⟨q, h'⟩, hm, hrun⟩ := hrun
    have hh : s'.heap = h' := by
      cases q <;> exact congrArg Sys.heap (Option.some.inj hrun).symm
    simp only [Heap.malloc, Option.bind_eq_bind, Option.bind_eq_some_iff] at hm
    obtain ⟨f, -, hm⟩ := hm
    rw [hh, ← Heap.setup_got base]
    exact mallocFrom_got hfits hm
  | free bp =>
    simp only [Sys.run, Option.bind_eq_bind, Option.bind_eq_some_iff] at hrun
    obtain ⟨h', hfree, hrun⟩ := hrun
    obtain rfl := Option.some.inj hrun
    rw [(free_keeps hfree).1]
  | store u ptr size =>
    obtain rfl := Option.some.inj hrun
    exact le_rfl

lemma Sys.Reaches.ready {base brk : ℕ} (hbase : base < brk) {s : Sys}
    (h : Sys.Reaches Event.Fits base brk s) (htot : total s.heap.got < 2 ^ 32) :
    Ready base s := by
  induction h with
  | start => exact Or.inl ⟨rfl, rfl, rfl, hbase⟩
  | step fuel _ hfits hlegal hrun ih =>
    have hle := Sys.run_got hfits hrun
    exact (ih (by omega)).step hfits hlegal hrun htot (by omega)

/-- In every state of every program whose requests fit in an `int`, as long as `sbrk` has given
fewer than `2 ^ 32` units: the heap is as it should be, or nothing was asked for yet; the next call
ends, where a `malloc` may have to be given one more region; and a `malloc` that fails leaves the
heap as it is, apart from setting up the empty list on the first call. -/
theorem malloc_invariant (base brk : ℕ) (hbase : base < brk) (s : Sys)
    (h : Sys.Reaches Event.Fits base brk s) (htot : total s.heap.got < 2 ^ 32) :
    ((s.heap.freep = none ∧ s.live = [] ∧ s.heap.got = []) ∨ ∃ S, HeapOk base s S) ∧
    (∀ bp ∈ s.live.map Prod.fst, ∃ N, ∀ fuel, N ≤ fuel →
      (s.run base fuel (.free bp)).isSome = true) ∧
    (∀ nbytes env, (Event.malloc nbytes env).Fits →
      total s.heap.got + max (Heap.nunits nbytes) 4096 < 2 ^ 32 →
      ∃ N, ∀ fuel, N ≤ fuel → (s.run base fuel (.malloc nbytes env)).isSome = true) ∧
    ∀ nbytes env fuel h', (Event.malloc nbytes env).Fits →
      s.heap.malloc base fuel env nbytes = some (none, h') →
      total h'.got < 2 ^ 32 → (s.heap.freep ≠ none → h' = s.heap) ∧
        (s.heap.freep = none → FreeList base h' [(base, 0)]) := by
  have hready := h.ready hbase htot
  refine ⟨?_, fun bp hbp => ?_, fun nbytes env hfits hroom => ?_,
    fun nbytes env fuel h' hfits hrun hsmall => ?_⟩
  · rcases hready with ⟨hf, hl, hg, -⟩ | ⟨S, hS⟩
    · exact Or.inl ⟨hf, hl, hg⟩
    · exact Or.inr ⟨S, hS.toHeapOk⟩
  · rcases hready with ⟨-, hl, -⟩ | ⟨S, hS⟩
    · rw [hl] at hbp
      cases hbp
    · obtain ⟨N, h', -, hrun, -⟩ := hS.free htot hbp
      refine ⟨N, fun fuel hfuel => ?_⟩
      rw [Sys.run, hrun fuel hfuel]
      rfl
  · obtain ⟨N, hends⟩ := hready.malloc_ends env hfits hroom
    refine ⟨N, fun fuel hfuel => ?_⟩
    obtain ⟨⟨q, h'⟩, hr⟩ := Option.isSome_iff_exists.1 (hends fuel hfuel)
    rw [Sys.run, hr]
    cases q <;> rfl
  · rcases hready.malloc hfits hrun hsmall with hr | ⟨a, h'', S', hr, -⟩
    · obtain ⟨-, rfl⟩ := Prod.mk.inj hr
      refine ⟨fun hne => ?_, fun hnone => ?_⟩
      · obtain ⟨f, hf⟩ := Option.ne_none_iff_exists'.1 hne
        rw [Heap.setup, hf]
      · rw [Heap.setup, hnone]
        refine ⟨⟨[], rfl⟩, ⟨rfl, setAt_self _ _ _⟩, fun b hb => ?_, List.pairwise_singleton _ _,
          fun b hb hne => ?_⟩
        · rw [List.mem_singleton.1 hb]
          exact setAt_self _ _ _
        · rw [List.mem_singleton.1 hb] at hne
          exact absurd rfl hne
    · cases hr

/-- Two blocks are allocated and the first is freed again. -/
theorem malloc_invariant_threeCalls :
    ∃ s, Sys.Reaches Event.Fits 100 200 s ∧ total s.heap.got < 2 ^ 32 ∧ s.live.length = 1 ∧
      ∃ S, HeapOk 100 s S := by
  have hany : ((Sys.start 200).exec 100 10 [.malloc 10 fun _ => some 0, .malloc 20 fun _ => none,
      .free 4294]).any (fun s => total s.heap.got < 2 ^ 32 ∧ s.live.length = 1) = true := by
    decide +kernel
  obtain ⟨s, hs, hok⟩ := (Option.any_eq_true _ _).1 hany
  obtain ⟨htot, hlen⟩ := of_decide_eq_true hok
  have hr : Sys.Reaches Event.Fits 100 200 s := by
    refine Sys.Reaches.start.exec ?_ hs
    simp [Event.Fits, Heap.nunits, headerSize]
  refine ⟨s, hr, htot, hlen, ?_⟩
  rcases (malloc_invariant 100 200 (by decide) s hr htot).1 with ⟨-, hl, -⟩ | hS
  · rw [hl] at hlen
    cases hlen
  · exact hS

/-- `malloc(0xffffffff)` and `malloc(1)`: for the first block of `2 ^ 28 + 1` units `sbrk` is asked
for one unit, and the second block, for which it then gives the 4096 units after that one, lies
inside the first. -/
theorem huge_block_overlaps :
    ∃ s, Sys.Reaches (fun _ => True) 100 200 s ∧ s.heap.got = [(201, 4096), (200, 1)] ∧
      s.live = [(4295, 1), (200, 4294967295)] ∧ s.block (4295, 1) = (4295, 2) ∧
      s.block (200, 4294967295) = (200, 2 ^ 28 + 1) ∧ hits 4295 (s.live.map s.block) = 2 := by
  have hany : ((Sys.start 200).exec 100 10 [.malloc 4294967295 fun _ => some 0,
      .malloc 1 fun _ => some 0]).any (fun s => s.heap.got = [(201, 4096), (200, 1)] ∧
        s.live = [(4295, 1), (200, 4294967295)] ∧ s.block (4295, 1) = (4295, 2) ∧
        s.block (200, 4294967295) = (200, 2 ^ 28 + 1) ∧ hits 4295 (s.live.map s.block) = 2) =
      true := by
    decide +kernel
  obtain ⟨s, hs, hok⟩ := (Option.any_eq_true _ _).1 hany
  exact ⟨s, Sys.Reaches.start.exec (fun _ _ => trivial) hs, of_decide_eq_true hok⟩

end Xv6.Umalloc
