import Xv6.Vm.Tree
import Xv6.Framework.Judgement
import Mathlib.Tactic.Abel

/-!
# What the routines of `kernel/vm.c` do with pages

For each routine: which pages a call has before and after it, what the page table maps then, and
what is in the pages that the call has taken.  A page table that a call works on is among the pages
that it has.

The routines are used among other calls, where pages can be counted but nothing is known about their
contents, and alone, where the contents are known as well.  A `PageLogic` is a judgement on routines
with the facts about `kalloc`, `kfree` and stores to pages that both have in common.
-/

namespace Xv6.Vm

open Concur

variable {N : ℕ}

/-- A way to reason about routines that take pages and give them back. -/
structure PageLogic (K : Image) (N : ℕ) extends Judgement Panic (St N) where
  /-- The call has these pages. -/
  has : Sit → Multiset Page → Prop
  /-- The call had the pages `H` and now has `H'`; what is in the pages `R` is unchanged. -/
  moves (R H H' : Multiset Page) : Sit → Sit → Prop
  /-- The page has this content, as far as contents are known. -/
  holds : Sit → Page → PageData → Prop
  /-- The memory may be this one. -/
  reads : Sit → St N → Prop
  refl {R H : Multiset Page} {s : Sit} : has s H → moves R H H s s
  trans {R H H' H'' : Multiset Page} {s s' s'' : Sit} :
    moves R H H' s s' → moves R H' H'' s' s'' → moves R H H'' s s''
  weaken {R R' H H' : Multiset Page} {s s' : Sit} :
    moves R H H' s s' → R' ≤ R → moves R' H H' s s'
  after {R H H' : Multiset Page} {s s' : Sit} : moves R H H' s s' → has s H → has s' H'
  le_pages {H : Multiset Page} {s : Sit} : total → has s H → H ≤ K.pages.val
  keeps {R H H' : Multiset Page} {s s' : Sit} {q : Page} {x : PageData} :
    moves R H H' s s' → q ∈ R → holds s q x → holds s' q x
  sees {s : Sit} {m : St N} {q : Page} {x : PageData} : reads s m → holds s q x → m.data q = x
  kalloc_does {R H : Multiset Page} {s : Sit} : has s H → R ≤ H → does kalloc s fun r s' =>
    match r with
    | none => moves R H H s s'
    | some q => moves R H (q ::ₘ H) s s' ∧ q ::ₘ H ≤ K.pages.val
  kfree_does {R H : Multiset Page} {s : Sit} {q : Page} : has s (q ::ₘ H) → R ≤ H →
    does (kfree K q) s fun _ s' => moves R (q ::ₘ H) H s s'
  setData_does {R H : Multiset Page} {s : Sit} {q : Page} (f : St N → PageData) : has s H → q ∈ H →
    q ∉ R → does (.modify fun m => m.setData q (f m)) s fun _ s' =>
      moves R H H s s' ∧ ∀ x, (∀ m, reads s m → f m = x) → holds s' q x
  /-- A `panic` that would need a page that does not exist. -/
  panic_does {α : Type} {H : Multiset Page} {s : Sit} {q : Page} {p : Panic} {Q : α → Sit → Prop} :
    has s H → q ∈ H → q ∉ K.pages → does (panic p) s Q

/-! ## Without changes -/

lemma walkLevel_false (va : ℕ) {level : ℕ} (T : Table level) :
    walkLevel (N := N) false va T = pure (T.reaches (va / PGSIZE), T) := by
  induction T with
  | leaf value => rfl
  | @node n label child ih =>
    simp only [walkLevel, Radix.reaches, ← PX_eq_digit]
    cases hc : label (PX (n + 1) va) with
    | none => rfl
    | some c => simp only [ih, Prog.pure_eq, Prog.ret_bind, setAt_eq_self]

lemma walk_false (pt : PageTable) {va : ℕ} (hva : va < MAXVA) :
    walk (N := N) pt va false = pure (pt.table.reaches (va / PGSIZE), pt) := by
  rw [walk, if_neg (by omega), walkLevel_false]
  rfl

lemma Image.card_le (K : Image) {H : Multiset Page} (h : H ≤ K.pages.val) : H.card ≤ 32768 := by
  have hlow : 524288 ≤ K.first := K.low
  have hcard : K.pages.card = 557056 - K.first := Nat.card_Ico _ _
  have hle := Multiset.card_le_card h
  rw [Finset.card_val, hcard] at hle
  omega

lemma Image.not_mem_of_cons_le (K : Image) {q : Page} {H : Multiset Page}
    (h : q ::ₘ H ≤ K.pages.val) : q ∉ H :=
  (Multiset.nodup_cons.1 (Multiset.nodup_of_le h K.pages.nodup)).1

lemma Image.zero_not_mem_pages (K : Image) : 0 ∉ K.pages := by
  have hlow : 524288 ≤ K.first := K.low
  rw [Image.pages, Finset.mem_Ico]
  rintro ⟨hfirst, -⟩
  exact absurd (hlow.trans hfirst) (by decide)

/-- A mapping that `uvmunmap` accepts. -/
def PageTable.Maps (pt : PageTable) (v n : ℕ) : Prop :=
  ∀ w, v ≤ w → w < v + n → (pt.leaf w).flags.v = true ∧ (pt.leaf w).flags.r = true

/-- The virtual pages are mapped, and not by PTEs that point to tables. -/
def PageTable.Leaves (pt : PageTable) (v n : ℕ) : Prop :=
  ∀ w, v ≤ w → w < v + n → (pt.leaf w).flags.v = true ∧
    (pt.leaf w).flags ≠ ⟨true, false, false, false, false⟩

lemma PageTable.Maps.leaves {pt : PageTable} {v n : ℕ} (h : pt.Maps v n) : pt.Leaves v n := by
  intro w hvw hw
  obtain ⟨hv, hr⟩ := h w hvw hw
  refine ⟨hv, fun he => ?_⟩
  rw [he] at hr
  cases hr

lemma Shape.maps {K : Image} {trapframe : Page} {pt : PageTable} {n : ℕ}
    (h : Shape K trapframe pt n) {v k : ℕ} (hk : v + k ≤ n) : pt.Maps v k :=
  fun w _ hw => h.user w (by omega)

lemma Shape.free {K : Image} {trapframe : Page} {pt : PageTable} {n : ℕ}
    (h : Shape K trapframe pt n) (v : ℕ) (hv : n ≤ v) (hlt : v < TRAPFRAME / PGSIZE) :
    pt.leaf v = 0 := by
  have htop : TRAPFRAME / PGSIZE < TRAMPOLINE / PGSIZE := by decide
  exact h.other v (hlt.trans (by decide)) hv (by omega) (by omega)

/-- The flags that `uvmalloc` sets. -/
def Flags.user (xperm : Flags) : Flags := { xperm with v := true, r := true, u := true }

namespace PageLogic

variable {K : Image} (V : PageLogic K N) {s s' s0 : V.Sit} {R H H0 : Multiset Page} {q : Page}
  {α : Type} {Q : α → V.Sit → Prop}

/-! ## `walk` and `mappages` -/

/-- The levels of `walk` with `alloc`: new tables are empty, so no leaf changes. -/
lemma walkLevel_does (va : ℕ) {level : ℕ} (T : Table level) {s : V.Sit} {H : Multiset Page}
    (hs : V.has s (H + T.labels)) (hR : R ≤ H) :
    V.does (walkLevel true va T) s fun r s' =>
      V.moves R (H + T.labels) (H + r.2.labels) s s' ∧ (∃ B, r.2.labels = T.labels + B) ∧
      (∀ v, r.2.get 0 v = T.get 0 v) ∧ (r.1 = true → r.2.reaches (va / PGSIZE) = true) := by
  induction level generalizing s H with
  | zero =>
    cases T
    exact V.ret ⟨V.refl hs, ⟨0, (add_zero _).symm⟩, fun _ => rfl, fun _ => rfl⟩
  | succ n ih =>
    cases T with
    | node label child =>
    simp only [walkLevel]
    cases hc : label (PX (n + 1) va) with
    | some c =>
      obtain ⟨B, hB⟩ := Radix.exists_labels_child hc child
      have hT := hB (child (PX (n + 1) va))
      rw [setAt_eq_self] at hT
      rw [hT, ← add_assoc] at hs ⊢
      refine V.seq (ih (child (PX (n + 1) va)) hs (hR.trans (Multiset.le_add_right _ _))) ?_
      rintro ⟨ok, C⟩ s' ⟨hmoves, ⟨B', hlabels⟩, hget, hreach⟩
      refine V.ret ⟨?_, ⟨B', ?_⟩, Radix.get_setChild hget, fun hok => ?_⟩
      · rwa [hB C, ← add_assoc]
      · rw [hB C, hlabels, add_assoc]
      · simp only [Radix.reaches, ← PX_eq_digit, hc, setAt_self]
        exact hreach hok
    | none =>
      simp only [if_true]
      refine V.seq (V.kalloc_does hs (hR.trans (Multiset.le_add_right _ _))) ?_
      rintro (_ | q) s' htaken
      · exact V.ret ⟨htaken, ⟨0, (add_zero _).symm⟩, fun _ => rfl, by rintro ⟨⟩⟩
      obtain ⟨hmoves, -⟩ := htaken
      have hempty : H + (Radix.node label child).labels + {q} + (Radix.empty 0 n : Table n).labels =
          q ::ₘ (H + (Radix.node label child).labels) := by
        rw [Radix.labels_empty, add_zero, ← Multiset.singleton_add, add_comm]
      have hs' := V.after hmoves hs
      rw [← hempty] at hs'
      refine V.seq (ih (Radix.empty 0 n : Table n) hs' (hR.trans ?_)) ?_
      · rw [add_assoc]
        exact Multiset.le_add_right _ _
      rintro ⟨ok, C⟩ s'' ⟨hmoves', -, hget, hreach⟩
      rw [hempty] at hmoves'
      refine V.ret ⟨?_, ⟨_, Radix.labels_setLabel hc q child C⟩,
        Radix.get_setLabel hc q fun v => ?_, fun hok => ?_⟩
      · rw [Radix.labels_setLabel hc, ← Multiset.singleton_add, ← add_assoc, ← add_assoc]
        exact V.trans hmoves hmoves'
      · rw [hget v, Radix.get_empty]
      · simp only [Radix.reaches, ← PX_eq_digit, setAt_self]
        exact hreach hok

lemma walk_does (pt : PageTable) {va : ℕ} (hva : va < MAXVA) (hs : V.has s (H + pt.nodes))
    (hR : R ≤ H) :
    V.does (walk pt va true) s fun r s' =>
      V.moves R (H + pt.nodes) (H + r.2.nodes) s s' ∧ pt.nodes ≤ r.2.nodes ∧
      (∀ v, r.2.leaf v = pt.leaf v) ∧
      (r.1 = true → r.2.table.reaches (va / PGSIZE) = true) := by
  have hnodes : ∀ T : Table 2, H + (⟨pt.root, T⟩ : PageTable).nodes = H + {pt.root} + T.labels := by
    intro T
    rw [PageTable.nodes, ← Multiset.singleton_add, add_assoc]
  rw [walk, if_neg (not_le.2 hva)]
  rw [hnodes] at hs ⊢
  refine V.seq (V.walkLevel_does va pt.table hs (hR.trans (Multiset.le_add_right _ _))) ?_
  rintro ⟨ok, T⟩ s' ⟨hmoves, ⟨B, hlabels⟩, hget, hreach⟩
  refine V.ret ⟨?_, Multiset.cons_le_cons _ (hlabels ▸ Multiset.le_add_right _ _), hget, hreach⟩
  rwa [hnodes]

lemma mappages_does (pt : PageTable) {va : ℕ} (halign : va % PGSIZE = 0) (hva : va < MAXVA)
    (hfree : (pt.leaf (va / PGSIZE)).flags.v = false) (page : Page) (perm : Flags)
    (hs : V.has s (H + pt.nodes)) (hR : R ≤ H) :
    V.does (mappages pt va PGSIZE page perm) s fun r s' =>
      V.moves R (H + pt.nodes) (H + r.2.nodes) s s' ∧ pt.nodes ≤ r.2.nodes ∧
      ∀ v, v < 512 ^ 3 → r.2.leaf v =
        if r.1 = true ∧ v = va / PGSIZE then ⟨page, { perm with v := true }⟩ else pt.leaf v := by
  have hlast : u64 (va + PGSIZE - PGSIZE) = va := by
    simp only [u64, MAXVA_eq, PGSIZE_eq] at hva ⊢
    omega
  rw [mappages, if_neg (not_not.2 halign), if_neg (by decide), if_neg (by decide), hlast]
  -- there is only one round
  refine V.iterate (fun b s' => (va, page, pt) = b ∧ s = s') (fun _ => 0) ?_ ⟨rfl, rfl⟩
  rintro _ _ ⟨rfl, rfl⟩
  refine V.seq (V.walk_does pt hva hs hR) ?_
  rintro ⟨ok, pt'⟩ s' ⟨hmoves, hnodes, hleaf, hreach⟩
  cases ok with
  | false =>
    refine V.ret ⟨hmoves, hnodes, fun v hv => ?_⟩
    rw [if_neg fun h => by cases h.1]
    exact hleaf v
  | true =>
    have hfree' : (pt'.pte va).flags.v = false := by
      rw [PageTable.pte_eq_leaf, hleaf]
      exact hfree
    simp only [Bool.true_eq_false, if_false, hfree', Bool.false_eq_true, if_true]
    refine V.ret ⟨by rwa [PageTable.nodes_setPte], by rwa [PageTable.nodes_setPte],
      fun v hv => ?_⟩
    by_cases hv' : v = va / PGSIZE
    · subst hv'
      rw [if_pos ⟨rfl, rfl⟩]
      exact PageTable.leaf_setPte_self (hreach rfl) _
    · rw [if_neg fun h => hv' h.2, PageTable.leaf_setPte_of_ne hva hv hv']
      exact hleaf v

/-! ## Unmapping -/

lemma uvmunmap_does (pt : PageTable) {va v n : ℕ} (hva : va = v * PGSIZE)
    (hle : v + n ≤ MAXVA / PGSIZE) (hmaps : pt.Leaves v n) (doFree : Bool)
    (hs : V.has s (H + if doFree = true then pt.mapped v n else 0)) (hR : R ≤ H) :
    V.does (uvmunmap K pt va n doFree) s fun pt' s' =>
      V.moves R (H + if doFree = true then pt.mapped v n else 0) H s s' ∧ pt'.nodes = pt.nodes ∧
      ∀ w, w < 512 ^ 3 → pt'.leaf w = if v ≤ w ∧ w < v + n then 0 else pt.leaf w := by
  subst hva
  have hend : u64 (v * PGSIZE + n * PGSIZE) = (v + n) * PGSIZE := by
    simp only [u64, MAXVA_eq, PGSIZE_eq] at hle ⊢
    omega
  rw [uvmunmap, if_neg (by rw [Nat.mul_mod_left]; exact fun h => h rfl), hend]
  -- `j` pages are unmapped
  refine V.iterate (fun b s' => ∃ j, j ≤ n ∧ b.1 = (v + j) * PGSIZE ∧
    b.2.nodes = pt.nodes ∧
    (∀ w, w < 512 ^ 3 → b.2.leaf w = if v ≤ w ∧ w < v + j then 0 else pt.leaf w) ∧
    V.moves R (H + if doFree = true then pt.mapped v n else 0)
      (H + if doFree = true then pt.mapped (v + j) (n - j) else 0) s s')
    (fun b => (v + n) * PGSIZE - b.1) ?_
    ⟨0, Nat.zero_le n, rfl, rfl, fun w _ => by rw [if_neg (by omega)], V.refl hs⟩
  rintro ⟨a, p⟩ s' ⟨j, hj, ha, hnodes, hleaf, hmoves⟩
  dsimp only at ha hnodes hleaf ⊢
  subst ha
  by_cases hlt : j < n
  · have hcond : (v + j) * PGSIZE < (v + n) * PGSIZE :=
      Nat.mul_lt_mul_of_pos_right (by omega) (by decide)
    have hmax : (v + j) * PGSIZE < MAXVA := by
      simp only [MAXVA_eq, PGSIZE_eq] at hle ⊢
      omega
    have hw : v + j < 512 ^ 3 := by
      simp only [MAXVA_eq, PGSIZE_eq] at hle
      omega
    have hleafj : p.leaf (v + j) = pt.leaf (v + j) := by
      rw [hleaf _ hw, if_neg (by omega)]
    obtain ⟨hv, hflags⟩ := hmaps (v + j) (by omega) (by omega)
    have hreach : p.table.reaches (v + j) = true := by
      refine PageTable.reaches_of_valid ?_
      rw [hleafj, hv]
    have hnext : u64 ((v + j) * PGSIZE + PGSIZE) = (v + (j + 1)) * PGSIZE := by
      simp only [u64, MAXVA_eq, PGSIZE_eq] at hmax ⊢
      omega
    rw [if_pos hcond]
    simp only [walk_false p hmax, Prog.pure_eq, Prog.ret_bind, mul_PGSIZE_div, hreach,
      PageTable.pte_mul, hleafj, hv, Bool.true_eq_false, if_false, hflags, hnext]
    have hdone : ∀ w, w < 512 ^ 3 → (p.setPte ((v + j) * PGSIZE) 0).leaf w =
        if v ≤ w ∧ w < v + (j + 1) then 0 else pt.leaf w := by
      intro w hw'
      rw [PageTable.leaf_setPte hreach hmax hw', hleaf w hw']
      by_cases hwj : w = v + j
      · rw [if_pos hwj, if_pos (by omega)]
      · rw [if_neg hwj]
        exact if_congr (by omega) rfl rfl
    have hmeasure : (v + n) * PGSIZE - (v + (j + 1)) * PGSIZE <
        (v + n) * PGSIZE - (v + j) * PGSIZE := by
      simp only [PGSIZE_eq] at hcond ⊢
      omega
    have hstep : V.does (.when (doFree = true) (kfree K (pt.leaf (v + j)).page)) s' fun _ s'' =>
        V.moves R (H + if doFree = true then pt.mapped v n else 0)
          (H + if doFree = true then pt.mapped (v + (j + 1)) (n - (j + 1)) else 0) s s'' := by
      cases doFree with
      | false => exact V.ret hmoves
      | true =>
        simp only [if_true] at hs hmoves ⊢
        have hsub : n - j = (n - (j + 1)) + 1 := by omega
        rw [hsub, PageTable.mapped_succ, Multiset.add_cons] at hmoves
        exact V.mono (V.kfree_does (V.after hmoves hs) (hR.trans (Multiset.le_add_right _ _)))
          fun _ s'' hfreed => V.trans hmoves hfreed
    refine V.seq hstep fun _ s'' hmoves' => V.ret ⟨⟨j + 1, hlt, rfl, ?_, hdone, hmoves'⟩,
      fun _ => hmeasure⟩
    rw [PageTable.nodes_setPte, hnodes]
  · have hjn : j = n := by omega
    subst hjn
    rw [if_neg (Nat.lt_irrefl ((v + j) * PGSIZE))]
    rw [Nat.sub_self, PageTable.mapped_zero, ite_self, add_zero] at hmoves
    exact V.ret ⟨hmoves, hnodes, hleaf⟩

/-! ## Shrinking and growing -/

lemma uvmdealloc_does {pt : PageTable} {oldsz newsz k : ℕ} (hk : npages (min oldsz newsz) = k)
    (hle : npages oldsz ≤ TRAPFRAME / PGSIZE) (hmaps : pt.Leaves k (npages oldsz - k))
    (hs : V.has s (H + pt.mapped k (npages oldsz - k))) (hR : R ≤ H) :
    V.does (uvmdealloc K pt oldsz newsz) s fun r s' =>
      r.1 = min oldsz newsz ∧ r.2.nodes = pt.nodes ∧
      (∀ w, w < 512 ^ 3 → r.2.leaf w = if k ≤ w ∧ w < npages oldsz then 0 else pt.leaf w) ∧
      V.moves R (H + pt.mapped k (npages oldsz - k)) H s s' := by
  -- where nothing is unmapped
  have hsame : k = npages oldsz → (∀ w, w < 512 ^ 3 → pt.leaf w =
      if k ≤ w ∧ w < npages oldsz then 0 else pt.leaf w) ∧
      V.moves R (H + pt.mapped k (npages oldsz - k)) H s s := by
    rintro rfl
    refine ⟨fun w _ => by rw [if_neg (by omega)], ?_⟩
    rw [Nat.sub_self, PageTable.mapped_zero, add_zero] at hs ⊢
    exact V.refl hs
  rw [uvmdealloc]
  split
  · rename_i hge
    rw [min_eq_left hge] at hk ⊢
    obtain ⟨hleaf, hmoves⟩ := hsame hk.symm
    exact V.ret ⟨rfl, rfl, hleaf, hmoves⟩
  rename_i hlt
  rw [min_eq_right (by omega)] at hk ⊢
  have hmono : npages newsz ≤ npages oldsz := npages_mono (by omega)
  rw [pgRoundUp_eq hle, pgRoundUp_eq (hmono.trans hle), hk]
  rw [hk] at hmono
  split
  · have hsub : sext ((npages oldsz * PGSIZE - k * PGSIZE) / PGSIZE) = npages oldsz - k := by
      rw [← Nat.sub_mul, mul_PGSIZE_div, sext_of_lt]
      simp only [TRAPFRAME_eq, PGSIZE_eq] at hle
      omega
    rw [hsub]
    refine V.seq (V.uvmunmap_does pt rfl ?_ hmaps true (by rwa [if_pos rfl]) hR) ?_
    · simp only [MAXVA_eq, TRAPFRAME_eq, PGSIZE_eq] at hle ⊢
      omega
    · rintro pt' s' ⟨hmoves, hnodes, hleaf⟩
      rw [if_pos rfl] at hmoves
      rw [Nat.add_sub_cancel' hmono] at hleaf
      exact V.ret ⟨rfl, hnodes, hleaf, hmoves⟩
  · rename_i hpages
    have heq : k = npages oldsz := by
      refine le_antisymm hmono (not_lt.1 fun h => hpages ?_)
      exact Nat.mul_lt_mul_of_pos_right h (by decide)
    obtain ⟨hleaf, hmoves⟩ := hsame heq
    exact V.ret ⟨rfl, rfl, hleaf, hmoves⟩

/-! ## Filling a range of pages

`uvmalloc` and `uvmcopy` map new pages one by one, and both fill a page before they map it. -/

/-- The table `p` is `p0` with the virtual pages from `n` to `k` mapped, with the flags `perm`, to
pages with the contents `content`.  Page-table pages may have been added. -/
structure Filled (p0 p : PageTable) (n k : ℕ) (perm : ℕ → Flags) (content : ℕ → PageData)
    (s : V.Sit) : Prop where
  new : ∀ v, n ≤ v → v < k → (p.leaf v).flags = perm v ∧ V.holds s (p.leaf v).page (content v)
  old : ∀ v, v < 512 ^ 3 → v < n ∨ k ≤ v → p.leaf v = p0.leaf v
  nodes : p0.nodes ≤ p.nodes

variable {V} {p0 p : PageTable} {n k : ℕ} {perm : ℕ → Flags} {content : ℕ → PageData}

lemma Filled.refl (p0 : PageTable) (n : ℕ) (perm : ℕ → Flags) (content : ℕ → PageData)
    (s : V.Sit) : V.Filled p0 p0 n n perm content s :=
  ⟨fun _ h1 h2 => absurd h1 (not_le.2 h2), fun _ _ _ => rfl, le_rfl⟩

section

variable (h : V.Filled p0 p n k perm content s)

include h

lemma Filled.congr {p' : PageTable} (hk : k ≤ 512 ^ 3)
    (hnodes : p.nodes ≤ p'.nodes) (hleaf : ∀ v, v < 512 ^ 3 → p'.leaf v = p.leaf v)
    (hdata : ∀ q ∈ p.mapped n (k - n), ∀ x, V.holds s q x → V.holds s' q x) :
    V.Filled p0 p' n k perm content s' := by
  refine ⟨fun v h1 h2 => ?_, fun v hv hout => (hleaf v hv).trans (h.old v hv hout),
    h.nodes.trans hnodes⟩
  obtain ⟨hflags, hcontent⟩ := h.new v h1 h2
  rw [hleaf v (by omega)]
  exact ⟨hflags, hdata _ (PageTable.mem_mapped h1 (by omega)) _ hcontent⟩

lemma Filled.succ {p' : PageTable} {mem : Page}
    (hnk : n ≤ k) (hk : k < 512 ^ 3) (hnodes : p.nodes ≤ p'.nodes)
    (hleaf : ∀ v, v < 512 ^ 3 → p'.leaf v = if v = k then ⟨mem, perm k⟩ else p.leaf v)
    (hdata : ∀ q ∈ p.mapped n (k - n), ∀ x, V.holds s q x → V.holds s' q x)
    (hmem : V.holds s' mem (content k)) : V.Filled p0 p' n (k + 1) perm content s' := by
  refine ⟨fun v h1 h2 => ?_, fun v hv hout => ?_, h.nodes.trans hnodes⟩
  · by_cases hvk : v = k
    · subst hvk
      rw [hleaf v hk, if_pos rfl]
      exact ⟨rfl, hmem⟩
    · obtain ⟨hflags, hcontent⟩ := h.new v h1 (by omega)
      rw [hleaf v (by omega), if_neg hvk]
      exact ⟨hflags, hdata _ (PageTable.mem_mapped h1 (by omega)) _ hcontent⟩
  · rw [hleaf v hv, if_neg (by omega)]
    exact h.old v hv (by omega)

lemma Filled.undo {p' : PageTable} (hfree : ∀ v, n ≤ v → v < k → p0.leaf v = 0)
    (hleaf : ∀ w, w < 512 ^ 3 → p'.leaf w = if n ≤ w ∧ w < k then 0 else p.leaf w) {v : ℕ}
    (hv : v < 512 ^ 3) : p'.leaf v = p0.leaf v := by
  rw [hleaf v hv]
  split
  · rename_i hmem
    exact (hfree v hmem.1 hmem.2).symm
  · exact h.old v hv (by omega)

lemma Filled.leaves (hperm : ∀ v, n ≤ v → v < k →
    (perm v).v = true ∧ perm v ≠ ⟨true, false, false, false, false⟩) : p.Leaves n (k - n) := by
  intro w h1 h2
  rw [(h.new w h1 (by omega)).1]
  exact hperm w h1 (by omega)

lemma Filled.shape {trapframe : Page}
    (hp : Shape K trapframe p0 n) (hnk : n ≤ k) (hk : k ≤ TRAPFRAME / PGSIZE)
    (hperm : ∀ v, n ≤ v → v < k → (perm v).v = true ∧ (perm v).r = true) :
    Shape K trapframe p k := by
  have htop : TRAPFRAME / PGSIZE < TRAMPOLINE / PGSIZE := by decide
  have hlt : TRAPFRAME / PGSIZE < 512 ^ 3 := by decide
  refine ⟨hk, fun v hv => ?_, ?_, ?_, fun v hv hkv h1 h2 => ?_⟩
  · by_cases hvn : v < n
    · rw [h.old v (by omega) (.inl hvn)]
      exact hp.user v hvn
    · rw [(h.new v (by omega) hv).1]
      exact hperm v (by omega) hv
  · rw [h.old _ (by decide) (.inr hk)]
    exact hp.trapframe
  · rw [h.old _ (by decide) (.inr (by omega))]
    exact hp.trampoline
  · rw [h.old v hv (.inr hkv)]
    exact hp.other v hv (by omega) h1 h2

end

variable (V)

/-- One round: a page is allocated, filled and mapped.  If this fails, at either place, nothing has
changed apart from new page-table pages.  As many pages as are below `n` are among those that the
call has, so that with physical memory virtual memory is used up. -/
lemma fill_does (f : St N → PageData) (flags : Flags) (good bad : PageTable → Routine N α)
    (hfill : V.Filled p0 p n k perm content s) (hnk : n ≤ k) (hk : k ≤ TRAPFRAME / PGSIZE)
    (hfree : ∀ v, n ≤ v → v < TRAPFRAME / PGSIZE → p0.leaf v = 0)
    (hmoves : V.moves R H0 (H + p.nodes + p.mapped n (k - n)) s0 s) (hs : V.has s0 H0)
    (hR : R ≤ H) (hcard : n ≤ H.card)
    (hf : ∀ H' s1 m, V.moves R H0 H' s0 s1 → V.reads s1 m → f m = content k)
    (hflags : { flags with v := true } = perm k)
    (hgood : ∀ p' s', k < TRAPFRAME / PGSIZE → V.Filled p0 p' n (k + 1) perm content s' →
      V.moves R H0 (H + p'.nodes + p'.mapped n (k + 1 - n)) s0 s' → V.does (good p') s' Q)
    (hbad : ∀ p' s', V.Filled p0 p' n k perm content s' →
      V.moves R H0 (H + p'.nodes + p'.mapped n (k - n)) s0 s' → V.does (bad p') s' Q) :
    V.does (do
      match ← kalloc with
      | none => bad p
      | some mem => do
        .modify fun m => m.setData mem (f m)
        let (ok, p) ← mappages p (k * PGSIZE) PGSIZE mem flags
        if ok = true then good p
        else do
          kfree K mem
          bad p) s Q := by
  have hmax : k * PGSIZE < MAXVA := by
    simp only [TRAPFRAME_eq, MAXVA_eq, PGSIZE_eq] at hk ⊢
    omega
  have hk' : k < 512 ^ 3 := lt_of_le_of_lt hk (by decide)
  have hacc := V.after hmoves hs
  -- all that has been mapped so far is kept
  have hle : R + p.mapped n (k - n) ≤ H + p.nodes + p.mapped n (k - n) :=
    add_le_add (hR.trans (Multiset.le_add_right _ _)) le_rfl
  refine V.seq (V.kalloc_does hacc hle) ?_
  rintro (_ | mem) s1 htaken
  · refine hbad p s1 (hfill.congr hk'.le le_rfl (fun _ _ => rfl) fun q hq x => ?_)
      (V.trans hmoves (V.weaken htaken (Multiset.le_add_right _ _)))
    exact V.keeps htaken (Multiset.mem_add.2 (.inr hq))
  obtain ⟨hmoves1, hpages⟩ := htaken
  have hphys : k < TRAPFRAME / PGSIZE := by
    have hc := K.card_le hpages
    have hlow : 32768 < TRAPFRAME / PGSIZE := by decide
    simp only [Multiset.card_cons, Multiset.card_add, PageTable.card_mapped] at hc
    omega
  have hmem : mem ∉ R + p.mapped n (k - n) := fun hmem =>
    K.not_mem_of_cons_le hpages (Multiset.mem_of_le hle hmem)
  have hacc1 := V.after hmoves1 hacc
  refine V.seq (V.setData_does f hacc1 (Multiset.mem_cons_self mem _) hmem) ?_
  rintro - s2 ⟨hmoves2, hdata2⟩
  have hcontent : V.holds s2 mem (content k) := hdata2 _ fun m hm =>
    hf _ s1 m (V.trans hmoves (V.weaken hmoves1 (Multiset.le_add_right _ _))) hm
  have hmoves12 := V.trans hmoves1 hmoves2
  have hacc2 := V.after hmoves2 hacc1
  have hcons : mem ::ₘ (H + p.nodes + p.mapped n (k - n)) =
      H + p.mapped n (k - n) + {mem} + p.nodes := by
    rw [← Multiset.singleton_add]
    abel
  rw [hcons] at hmoves12 hacc2
  have hp : p.leaf k = 0 := (hfill.old k hk' (.inr le_rfl)).trans (hfree k hnk hphys)
  refine V.seq (V.mappages_does p (Nat.mul_mod_left k PGSIZE) hmax
    (by rw [mul_PGSIZE_div, hp]; rfl) mem flags hacc2 (R := R + p.mapped n (k - n) + {mem})
    (add_le_add (add_le_add hR le_rfl) le_rfl)) ?_
  rintro ⟨ok, p'⟩ s3 ⟨hmoves3, hnodes, hleaf⟩
  rw [mul_PGSIZE_div, hflags] at hleaf
  dsimp only at hmoves3 hnodes hleaf ⊢
  have hkeep : ∀ q ∈ p.mapped n (k - n), ∀ x, V.holds s q x → V.holds s3 q x := fun q hq x hx =>
    V.keeps hmoves3 (by simp [hq]) (V.keeps hmoves12 (by simp [hq]) hx)
  have hmoves03 : V.moves R H0 (H + p.mapped n (k - n) + {mem} + p'.nodes) s0 s3 :=
    V.trans (V.trans hmoves (V.weaken hmoves12 (Multiset.le_add_right _ _)))
      (V.weaken hmoves3 (by rw [add_assoc]; exact Multiset.le_add_right _ _))
  have hmapped : p'.mapped n (k - n) = p.mapped n (k - n) :=
    PageTable.mapped_congr fun w h1 h2 => by
      rw [hleaf w (by omega), if_neg (by omega)]
  cases ok with
  | true =>
    rw [if_pos rfl]
    have hleaf' : ∀ v, v < 512 ^ 3 → p'.leaf v = if v = k then ⟨mem, perm k⟩ else p.leaf v :=
      fun v hv => (hleaf v hv).trans (if_congr (and_iff_right rfl) rfl rfl)
    refine hgood p' s3 hphys (hfill.succ hnk hk' hnodes hleaf' hkeep ?_) ?_
    · exact V.keeps hmoves3 (by simp) hcontent
    · have hlast : p'.mapped n (k + 1 - n) = p.mapped n (k - n) + {mem} := by
        rw [show k + 1 - n = (k - n) + 1 by omega, PageTable.mapped_add, hmapped,
          PageTable.mapped_succ, show n + (k - n) = k by omega, hleaf' k hk', if_pos rfl]
        rfl
      rw [hlast]
      convert hmoves03 using 1
      abel
  | false =>
    rw [if_neg fun h => by cases h]
    have hcons' : H + p.mapped n (k - n) + {mem} + p'.nodes =
        mem ::ₘ (H + p'.nodes + p.mapped n (k - n)) := by
      rw [← Multiset.singleton_add]
      abel
    rw [hcons'] at hmoves03
    refine V.seq (V.kfree_does (R := R + p.mapped n (k - n)) (V.after hmoves03 hs)
      (add_le_add (hR.trans (Multiset.le_add_right _ _)) le_rfl)) ?_
    rintro - s4 hmoves4
    refine hbad p' s4 (hfill.congr hk'.le hnodes (fun v hv => ?_) fun q hq x hx => ?_) ?_
    · rw [hleaf v hv, if_neg fun h => by cases h.1]
    · exact V.keeps hmoves4 (Multiset.mem_add.2 (.inr hq)) (hkeep q hq x hx)
    · rw [hmapped]
      exact V.trans hmoves03 (V.weaken hmoves4 (Multiset.le_add_right _ _))

/-- What `uvmalloc` does: nothing, if the new size is not larger; else it maps pages of zeros up to
the new size, or answers 0 and leaves no page mapped that was not. -/
inductive Grown (R H : Multiset Page) (pt : PageTable) (oldsz newsz : ℕ) (xperm : Flags)
    (s : V.Sit) : ℕ × PageTable → V.Sit → Prop where
  | none : newsz < oldsz → Grown R H pt oldsz newsz xperm s (oldsz, pt) s
  | grown {p : PageTable} {s' : V.Sit} : oldsz ≤ newsz → npages newsz ≤ TRAPFRAME / PGSIZE →
      V.Filled pt p (npages oldsz) (npages newsz) (fun _ => xperm.user) (fun _ => Bytes.zero) s' →
      V.moves R (H + pt.nodes)
        (H + p.nodes + p.mapped (npages oldsz) (npages newsz - npages oldsz)) s s' →
      Grown R H pt oldsz newsz xperm s (newsz, p) s'
  | failed {p : PageTable} {s' : V.Sit} : oldsz ≤ newsz →
      (∀ v, v < 512 ^ 3 → p.leaf v = pt.leaf v) → V.moves R (H + pt.nodes) (H + p.nodes) s s' →
      Grown R H pt oldsz newsz xperm s (0, p) s'

lemma uvmalloc_does {pt : PageTable} {oldsz : ℕ} (newsz : ℕ) (xperm : Flags)
    (hle : npages oldsz ≤ TRAPFRAME / PGSIZE)
    (hfree : ∀ v, npages oldsz ≤ v → v < TRAPFRAME / PGSIZE → pt.leaf v = 0)
    (hcard : npages oldsz ≤ H.card) (hs : V.has s (H + pt.nodes)) (hR : R ≤ H) :
    V.does (uvmalloc K pt oldsz newsz xperm) s (V.Grown R H pt oldsz newsz xperm s) := by
  rw [uvmalloc]
  split
  · rename_i hlt
    exact V.ret (.none hlt)
  rename_i hge
  rw [pgRoundUp_eq hle]
  obtain ⟨n, hn⟩ : ∃ n, n = npages oldsz := ⟨_, rfl⟩
  rw [← hn] at hle hfree hcard ⊢
  refine V.iterate (fun b s' => ∃ k, n ≤ k ∧ k ≤ TRAPFRAME / PGSIZE ∧ b.1 = k * PGSIZE ∧
    V.Filled pt b.2 n k (fun _ => xperm.user) (fun _ => Bytes.zero) s' ∧
    (k = n ∨ (k - 1) * PGSIZE < newsz) ∧
    V.moves R (H + pt.nodes) (H + b.2.nodes + b.2.mapped n (k - n)) s s') (fun b => newsz - b.1) ?_
    ⟨n, le_rfl, hle, rfl, .refl _ _ _ _ _, .inl rfl, ?_⟩
  · rintro ⟨a, p⟩ s' ⟨k, hnk, hk, ha, hfill, hlast, hmoves⟩
    dsimp only at ha hfill hmoves ⊢
    subst ha
    split
    · rename_i hlt
      refine V.fill_does (α := (ℕ × PageTable) ⊕ (ℕ × PageTable)) (fun _ => Bytes.zero)
        { xperm with r := true, u := true } (fun p => pure (.inl (u64 (k * PGSIZE + PGSIZE), p)))
        (fun p => uvmdealloc K p (k * PGSIZE) (n * PGSIZE) >>= fun r => pure (.inr (0, r.2)))
        hfill hnk hk hfree hmoves hs hR hcard (fun _ _ _ _ _ => rfl) rfl ?_ ?_
      · intro p' s'' hk' hfill' hmoves'
        have hnext : u64 (k * PGSIZE + PGSIZE) = (k + 1) * PGSIZE := by
          simp only [u64, TRAPFRAME_eq, PGSIZE_eq] at hk' ⊢
          omega
        rw [hnext]
        refine V.ret ⟨⟨k + 1, by omega, hk', rfl, hfill', .inr hlt, hmoves'⟩, fun _ => ?_⟩
        simp only [PGSIZE_eq] at hlt ⊢
        omega
      · intro p' s'' hfill' hmoves'
        have hmin : npages (min (k * PGSIZE) (n * PGSIZE)) = n := by
          rw [min_eq_right (Nat.mul_le_mul_right PGSIZE hnk), npages_mul]
        have hacc := V.after hmoves' hs
        refine V.seq (V.uvmdealloc_does (H := H + p'.nodes) hmin ?_ ?_ ?_
          (hR.trans (Multiset.le_add_right _ _))) ?_
        · rwa [npages_mul]
        · rw [npages_mul]
          exact hfill'.leaves fun _ _ _ => ⟨rfl, by rintro ⟨⟩⟩
        · rwa [npages_mul]
        · rintro ⟨r, p''⟩ s3 ⟨-, hnodes, hleaf, hmoves3⟩
          rw [npages_mul] at hleaf hmoves3
          dsimp only at hnodes
          refine V.ret (.failed (by omega) (fun v hv => ?_) ?_)
          · exact hfill'.undo (fun w h1 h2 => hfree w h1 (by omega)) hleaf hv
          · rw [hnodes]
            exact V.trans hmoves' hmoves3
    · rename_i hge'
      have hk' : npages newsz = k := by
        refine npages_eq (not_lt.1 hge') ?_
        rcases hlast with rfl | h
        · simp only [npages, PGSIZE_eq] at hn ⊢
          omega
        · exact Or.inr h
      refine V.ret (.grown (by omega) ?_ ?_ ?_)
      · rwa [hk']
      · rwa [hk', ← hn]
      · rwa [hk', ← hn]
  · rw [Nat.sub_self, PageTable.mapped_zero, add_zero]
    exact V.refl hs

/-- `uvmalloc` on an image of size `sz`: the image grows to the new size, if that is larger and
there is memory. -/
lemma uvmalloc_image {trapframe : Page} (sz newsz : ℕ) (xperm : Flags)
    (hp : Shape K trapframe p (npages sz))
    (hs : V.has s (H + p.nodes + p.mapped 0 (npages sz))) (hR : R ≤ H) :
    V.does (uvmalloc K p sz newsz xperm) s fun r s' =>
      ∃ sz', (r.1 = sz' ∧ sz' = max sz newsz ∨ r.1 = 0 ∧ sz' = sz) ∧
      Shape K trapframe r.2 (npages sz') ∧ (∀ v, v < npages sz → r.2.leaf v = p.leaf v) ∧
      (∀ v, npages sz ≤ v → v < npages sz' → (r.2.leaf v).flags = xperm.user) ∧
      V.moves R (H + p.nodes + p.mapped 0 (npages sz)) (H + r.2.nodes + r.2.mapped 0 (npages sz'))
        s s' := by
  have hle := hp.le
  have hlt : TRAPFRAME / PGSIZE < 512 ^ 3 := by decide
  have hcomm : ∀ q : PageTable, H + q.nodes + p.mapped 0 (npages sz) =
      H + p.mapped 0 (npages sz) + q.nodes := fun q => add_right_comm _ _ _
  have hs' := hs
  rw [hcomm] at hs'
  refine V.mono (V.uvmalloc_does newsz xperm hle hp.free (by simp) hs'
    (hR.trans (Multiset.le_add_right _ _) : R ≤ H + p.mapped 0 (npages sz))) fun r s' hgrown => ?_
  cases hgrown with
  | none hlt' =>
    refine ⟨sz, .inl ⟨rfl, (max_eq_left hlt'.le).symm⟩, hp, fun _ _ => rfl, fun v h1 h2 => ?_,
      V.refl hs⟩
    omega
  | @grown p' s' hge hle' hfill hmoves =>
    have hnk : npages sz ≤ npages newsz := npages_mono hge
    refine ⟨newsz, .inl ⟨rfl, (max_eq_right hge).symm⟩,
      hfill.shape hp hnk hle' fun _ _ _ => ⟨rfl, rfl⟩,
      fun v hv => hfill.old v (by omega) (.inl hv), fun v h1 h2 => (hfill.new v h1 h2).1, ?_⟩
    have hold : p'.mapped 0 (npages sz) = p.mapped 0 (npages sz) :=
      PageTable.mapped_congr fun w _ hw => hfill.old w (by omega) (.inl (by omega))
    have hadd := p'.mapped_add 0 (npages sz) (npages newsz - npages sz)
    rw [Nat.add_sub_cancel' hnk, Nat.zero_add, hold] at hadd
    rw [hadd, hcomm p, ← add_assoc, hcomm p']
    exact hmoves
  | @failed p' s' hge hleaf hmoves =>
    refine ⟨sz, .inr ⟨rfl, rfl⟩, hp.congr hleaf, fun v hv => hleaf v (by omega),
      fun v h1 h2 => ?_, ?_⟩
    · omega
    · have hold : p'.mapped 0 (npages sz) = p.mapped 0 (npages sz) :=
        PageTable.mapped_congr fun w _ hw => hleaf w (by omega)
      rw [hold, hcomm p, hcomm p']
      exact hmoves

lemma uvmdealloc_image {trapframe : Page} {sz : ℕ} (newsz : ℕ)
    (hp : Shape K trapframe p (npages sz))
    (hs : V.has s (H + p.nodes + p.mapped 0 (npages sz))) (hR : R ≤ H) :
    V.does (uvmdealloc K p sz newsz) s fun r s' =>
      Shape K trapframe r.2 (npages r.1) ∧ V.moves R (H + p.nodes + p.mapped 0 (npages sz))
        (H + r.2.nodes + r.2.mapped 0 (npages r.1)) s s' := by
  have hle : npages (min sz newsz) ≤ npages sz := npages_mono (min_le_left _ _)
  have hlt : TRAPFRAME / PGSIZE < 512 ^ 3 := by decide
  have htop := hp.le
  have hadd := p.mapped_add 0 (npages (min sz newsz)) (npages sz - npages (min sz newsz))
  rw [Nat.add_sub_cancel' hle, Nat.zero_add] at hadd
  rw [hadd, ← add_assoc] at hs ⊢
  refine V.mono (V.uvmdealloc_does rfl hp.le (hp.maps (by omega)).leaves hs
    (hR.trans (by rw [add_assoc]; exact Multiset.le_add_right _ _))) ?_
  rintro ⟨r, p'⟩ s' ⟨hr, hnodes, hleaf, hmoves⟩
  dsimp only at hr hnodes hleaf ⊢
  have hsame : p'.mapped 0 (npages (min sz newsz)) = p.mapped 0 (npages (min sz newsz)) :=
    PageTable.mapped_congr fun w _ hw => by rw [hleaf w (by omega), if_neg (by omega)]
  rw [hr, hnodes, hsame]
  exact ⟨hp.shrink hle hleaf, hmoves⟩

/-- What `uvmcopy` does: it maps a copy of every page, or answers `false` and leaves no page mapped
that was not. -/
inductive Copied (R H : Multiset Page) (old new : PageTable) (sz : ℕ) (content : ℕ → PageData)
    (s : V.Sit) : Bool × PageTable → V.Sit → Prop where
  | copied {p : PageTable} {s' : V.Sit} : npages sz ≤ TRAPFRAME / PGSIZE →
      V.Filled new p 0 (npages sz) (fun v => (old.leaf v).flags) content s' →
      V.moves R (H + new.nodes) (H + p.nodes + p.mapped 0 (npages sz)) s s' →
      Copied R H old new sz content s (true, p) s'
  | failed {p : PageTable} {s' : V.Sit} : (∀ v, v < 512 ^ 3 → p.leaf v = new.leaf v) →
      V.moves R (H + new.nodes) (H + p.nodes) s s' →
      Copied R H old new sz content s (false, p) s'

/-- `uvmcopy` into a table without user memory, of pages that keep their contents.  No bound on the
size is needed: there are fewer physical pages than virtual pages below the trapframe. -/
lemma uvmcopy_does {old new : PageTable} {sz : ℕ} (content : ℕ → PageData)
    (hold : old.Leaves 0 (npages sz))
    (hcontent : ∀ v, v < npages sz → ∀ H' s', V.moves R (H + new.nodes) H' s s' →
      V.holds s' (old.leaf v).page (content v))
    (hfree : ∀ v, v < TRAPFRAME / PGSIZE → new.leaf v = 0) (hs : V.has s (H + new.nodes))
    (hR : R ≤ H) : V.does (uvmcopy K old new sz) s (V.Copied R H old new sz content s) := by
  rw [uvmcopy]
  refine V.iterate (fun b s' => ∃ k, k ≤ npages sz ∧ k ≤ TRAPFRAME / PGSIZE ∧ b.1 = k * PGSIZE ∧
    V.Filled new b.2 0 k (fun v => (old.leaf v).flags) content s' ∧
    V.moves R (H + new.nodes) (H + b.2.nodes + b.2.mapped 0 k) s s') (fun b => sz - b.1) ?_
    ⟨0, Nat.zero_le _, Nat.zero_le _, (Nat.zero_mul _).symm, .refl _ _ _ _ _, ?_⟩
  · rintro ⟨a, p⟩ s' ⟨k, hk, hphys, ha, hfill, hmoves⟩
    dsimp only at ha hfill hmoves ⊢
    subst ha
    split
    · rename_i hlt
      have hk' : k < npages sz := by
        simp only [npages, PGSIZE_eq] at hlt ⊢
        omega
      have hmax : k * PGSIZE < MAXVA := by
        simp only [TRAPFRAME_eq, PGSIZE_eq, MAXVA_eq] at hphys ⊢
        omega
      obtain ⟨hv, -⟩ := hold k (Nat.zero_le k) (by omega)
      rw [walk_false old hmax, mul_PGSIZE_div, PageTable.reaches_of_valid hv]
      simp only [Prog.pure_eq, Prog.ret_bind, Bool.true_eq_false, if_false, PageTable.pte_mul, hv]
      have hflags : { (old.leaf k).flags with v := true } = (old.leaf k).flags := by
        rw [← hv]
      refine V.fill_does (α := (ℕ × PageTable) ⊕ (Bool × PageTable))
        (fun m => m.data (old.leaf k).page) (old.leaf k).flags
        (fun p => pure (.inl (u64 (k * PGSIZE + PGSIZE), p)))
        (fun p => do
          let p ← uvmunmap K p 0 k true
          pure (.inr (false, p)))
        hfill (Nat.zero_le k) hphys (fun v _ => hfree v) hmoves hs hR (Nat.zero_le _)
        (fun H' s1 m hmoves1 hm => V.sees hm (hcontent k hk' H' s1 hmoves1)) hflags ?_ ?_
      · intro p' s'' hk'' hfill' hmoves'
        have hnext : u64 (k * PGSIZE + PGSIZE) = (k + 1) * PGSIZE := by
          simp only [u64, PGSIZE_eq, MAXVA_eq] at hmax ⊢
          omega
        rw [hnext]
        refine V.ret ⟨⟨k + 1, hk', hk'', rfl, hfill', hmoves'⟩, fun _ => ?_⟩
        simp only [PGSIZE_eq] at hlt ⊢
        omega
      · intro p' s'' hfill' hmoves'
        have hacc := V.after hmoves' hs
        refine V.seq (V.uvmunmap_does (H := H + p'.nodes) p' (Nat.zero_mul PGSIZE).symm ?_ ?_ true
          (by rwa [if_pos rfl]) (hR.trans (Multiset.le_add_right _ _))) ?_
        · rw [Nat.zero_add]
          exact hphys.trans (by decide)
        · exact hfill'.leaves fun v _ h2 => hold v (Nat.zero_le v) (by omega)
        · rintro p'' s3 ⟨hmoves3, hnodes, hleaf⟩
          rw [if_pos rfl] at hmoves3
          rw [Nat.zero_add] at hleaf
          refine V.ret (.failed (fun v hv => ?_) ?_)
          · exact hfill'.undo (fun w _ h2 => hfree w (by omega)) hleaf hv
          · rw [hnodes]
            exact V.trans hmoves' hmoves3
    · rename_i hge
      have hk' : npages sz = k := by
        simp only [npages, PGSIZE_eq] at hk hge ⊢
        omega
      refine V.ret (.copied ?_ ?_ ?_)
      · rwa [hk']
      · rwa [hk']
      · rwa [hk']
  · rw [PageTable.mapped_zero, add_zero]
    exact V.refl hs

/-- `uvmcopy` from an image to one without user memory: the new table maps as many pages as the old
one, or none. -/
lemma uvmcopy_image {old new : PageTable} {trapframe trapframe' : Page} {sz : ℕ}
    (content : ℕ → PageData)
    (hold : Shape K trapframe old (npages sz)) (hnew : Shape K trapframe' new 0)
    (hcontent : ∀ v, v < npages sz → ∀ H' s', V.moves R (H + new.nodes) H' s s' →
      V.holds s' (old.leaf v).page (content v)) (hs : V.has s (H + new.nodes)) (hR : R ≤ H) :
    V.does (uvmcopy K old new sz) s fun r s' => ∃ n, n = (if r.1 = true then npages sz else 0) ∧
      Shape K trapframe' r.2 n ∧
      V.moves R (H + new.nodes) (H + r.2.nodes + r.2.mapped 0 n) s s' := by
  refine V.mono (V.uvmcopy_does content (hold.maps (by omega)).leaves hcontent
    (fun v => hnew.free v (Nat.zero_le v)) hs hR) fun r s' hcopied => ?_
  cases hcopied with
  | copied hle hfill hmoves =>
    exact ⟨_, (if_pos rfl).symm, hfill.shape hnew (Nat.zero_le _) hle fun v _ => hold.user v,
      hmoves⟩
  | @failed p s' hleaf hmoves =>
    refine ⟨0, (if_neg Bool.false_ne_true).symm, hnew.congr hleaf, ?_⟩
    rwa [PageTable.mapped_zero, add_zero]

/-! ## Page tables are freed -/

lemma forRange_give {n : ℕ} {body : Fin n → Routine N Unit} (f : Fin n → Multiset Page)
    (hs : V.has s (H + ∑ i, f i)) (hR : R ≤ H)
    (hbody : ∀ i H s, R ≤ H → V.has s (H + f i) →
      V.does (body i) s fun _ s' => V.moves R (H + f i) H s s') :
    V.does (.forRange n body) s fun _ s' => V.moves R (H + ∑ i, f i) H s s' := by
  refine V.forRange (fun j s' => V.moves R (H + ∑ i, f i)
    (H + ∑ i ∈ Finset.univ.filter fun i : Fin n => j ≤ i, f i) s s') ?_ ?_ ?_
  · simp only [Nat.zero_le, Finset.filter_true]
    exact V.refl hs
  · intro i s' hmoves
    have hacc := V.after hmoves hs
    rw [sum_from_eq, add_comm (f i), ← add_assoc] at hmoves hacc
    exact V.mono (hbody i _ s' (hR.trans (Multiset.le_add_right _ _)) hacc)
      fun _ s'' hmoves' => V.trans hmoves hmoves'
  · intro s' hmoves
    rwa [Finset.filter_false_of_mem fun i _ => by omega, Finset.sum_empty, add_zero] at hmoves

lemma freewalk_does {level : ℕ} (T : Table level) (hT : ∀ v, (T.get 0 v).flags.v = false)
    {q : Page} {s : V.Sit} {H : Multiset Page} (hs : V.has s (H + (q ::ₘ T.labels)))
    (hR : R ≤ H) :
    V.does (freewalk K q T) s fun _ s' => V.moves R (H + (q ::ₘ T.labels)) H s s' := by
  induction T generalizing q s H with
  | leaf value =>
    rw [Radix.labels, Multiset.add_cons, add_zero] at hs ⊢
    refine V.seq (P := fun _ s' => s' = s)
      (V.forRange (fun _ s' => s' = s) rfl (fun i s' hs' => ?_) fun s' hs' => hs') ?_
    · have hi : (value i).flags.v = false := by
        have := hT i
        rwa [Radix.get, Radix.digit_zero_val] at this
      rw [Prog.when, if_neg (by rw [hi]; exact Bool.false_ne_true)]
      exact V.ret hs'
    · rintro - s' rfl
      exact V.kfree_does hs hR
  | @node n label child ih =>
    obtain ⟨f, hsum, hnone, hsome⟩ := Radix.exists_labels_eq_sum label child
    have hcons : H + (q ::ₘ (Radix.node label child).labels) = q ::ₘ H + ∑ i, f i := by
      rw [hsum, Multiset.add_cons, Multiset.cons_add]
    rw [hcons] at hs ⊢
    refine V.seq (V.forRange_give f hs (hR.trans (Multiset.le_cons_self H q)) ?_) ?_
    · intro i H' s' hR' hs'
      cases hi : label i with
      | none =>
        rw [hnone i hi, add_zero] at hs' ⊢
        exact V.ret (V.refl hs')
      | some c =>
        rw [hsome i c hi] at hs' ⊢
        refine ih i (fun v => ?_) hs' hR'
        rw [Radix.get_child hi]
        exact hT _
    · intro _ s' hmoves
      exact V.mono (V.kfree_does (V.after hmoves hs) hR) fun _ s'' hfreed => V.trans hmoves hfreed

lemma uvmfree_does (pt : PageTable) {sz : ℕ} (hle : npages sz ≤ TRAPFRAME / PGSIZE)
    (hmaps : pt.Leaves 0 (npages sz))
    (hother : ∀ v, v < 512 ^ 3 → npages sz ≤ v → pt.leaf v = 0)
    (hs : V.has s (H + pt.nodes + pt.mapped 0 (npages sz))) (hR : R ≤ H) :
    V.does (uvmfree K pt sz) s fun _ s' =>
      V.moves R (H + pt.nodes + pt.mapped 0 (npages sz)) H s s' := by
  have hfree : ∀ (p : PageTable) (s' : V.Sit), (∀ v, v < 512 ^ 3 → p.leaf v = 0) →
      V.has s' (H + p.nodes) →
      V.does (freewalk K p.root p.table) s' fun _ s'' => V.moves R (H + p.nodes) H s' s'' := by
    intro p s' hp hs'
    refine V.freewalk_does p.table (fun v => ?_) hs' hR
    rw [← Radix.get_mod]
    exact congrArg (fun x : Pte => x.flags.v) (hp (v % 512 ^ 3) (Nat.mod_lt v (by decide)))
  rw [uvmfree]
  split
  · rw [pgRoundUp_eq hle, mul_PGSIZE_div]
    refine V.seq (V.uvmunmap_does (H := H + pt.nodes) pt (Nat.zero_mul PGSIZE).symm
      (by rw [Nat.zero_add]; exact hle.trans (by decide)) hmaps true (by rwa [if_pos rfl])
      (hR.trans (Multiset.le_add_right _ _))) ?_
    rintro p s' ⟨hmoves, hnodes, hleaf⟩
    rw [if_pos rfl, ← hnodes] at hmoves
    have hacc : V.has s' (H + p.nodes) := V.after hmoves (by rwa [hnodes])
    refine V.mono (hfree p s' (fun v hv => ?_) hacc) fun _ s'' hfreed => ?_
    · rw [hleaf v hv]
      split
      · rfl
      · exact hother v hv (by omega)
    · rw [← hnodes]
      exact V.trans hmoves hfreed
  · rename_i hsz
    have hsz : npages sz = 0 := by
      have h0 : sz = 0 := by omega
      rw [h0]
      rfl
    rw [hsz, PageTable.mapped_zero, add_zero] at hs ⊢
    exact hfree pt s (fun v hv => hother v hv (by omega)) hs

lemma procFreepagetable_does {trapframe : Page} {pt : PageTable} {sz : ℕ}
    (hshape : Shape K trapframe pt (npages sz))
    (hs : V.has s (H + pt.nodes + pt.mapped 0 (npages sz))) (hR : R ≤ H) :
    V.does (procFreepagetable K pt sz) s fun _ s' =>
      V.moves R (H + pt.nodes + pt.mapped 0 (npages sz)) H s s' := by
  have hle := hshape.le
  have htop : TRAPFRAME / PGSIZE < TRAMPOLINE / PGSIZE := by decide
  have hlt : TRAMPOLINE / PGSIZE < 512 ^ 3 := by decide
  have hR' : R ≤ H + pt.nodes + pt.mapped 0 (npages sz) :=
    hR.trans (by rw [add_assoc]; exact Multiset.le_add_right _ _)
  refine V.seq (V.uvmunmap_does pt (v := TRAMPOLINE / PGSIZE) (n := 1) rfl (by decide)
    (fun w h1 h2 => ?_) false (by simpa using hs) hR') ?_
  · rw [show w = TRAMPOLINE / PGSIZE by omega, hshape.trampoline]
    exact ⟨rfl, by rintro ⟨⟩⟩
  rintro p s1 ⟨hmoves1, hnodes, hleaf⟩
  rw [if_neg Bool.false_ne_true, add_zero] at hmoves1
  have hacc1 := V.after hmoves1 hs
  refine V.seq (V.uvmunmap_does p (v := TRAPFRAME / PGSIZE) (n := 1) rfl (by decide)
    (fun w h1 h2 => ?_) false (by simpa using hacc1) hR') ?_
  · rw [show w = TRAPFRAME / PGSIZE by omega, hleaf _ (by decide), if_neg (by omega),
      hshape.trapframe]
    exact ⟨rfl, by rintro ⟨⟩⟩
  rintro p' s2 ⟨hmoves2, hnodes', hleaf'⟩
  rw [if_neg Bool.false_ne_true, add_zero] at hmoves2
  have hsame : ∀ v, v < npages sz → p'.leaf v = pt.leaf v := by
    intro v hv
    rw [hleaf' v (by omega), if_neg (by omega), hleaf v (by omega), if_neg (by omega)]
  have heq : H + p'.nodes + p'.mapped 0 (npages sz) = H + pt.nodes + pt.mapped 0 (npages sz) := by
    rw [hnodes', hnodes, PageTable.mapped_congr fun w _ hw => hsame w (by omega)]
  have hacc2 := V.after hmoves2 hacc1
  rw [← heq] at hacc2
  refine V.mono (V.uvmfree_does p' hle (fun w _ hw => ?_) (fun v hv hv' => ?_) hacc2 hR)
    fun _ s3 hmoves3 => ?_
  · rw [hsame w (by omega)]
    exact (hshape.maps (v := 0) (k := npages sz) (by omega)).leaves w (Nat.zero_le w) hw
  · rw [hleaf' v hv, hleaf v hv]
    split
    · rfl
    split
    · rfl
    · exact hshape.other v hv hv' (by omega) (by omega)
  · rw [heq] at hmoves3
    exact V.trans (V.trans hmoves1 hmoves2) hmoves3

/-! ## Page tables are made -/

lemma procPagetable_does (trapframe : Page) (hs : V.has s H) (hR : R ≤ H) :
    V.does (procPagetable K trapframe) s fun r s' =>
      match r with
      | none => V.moves R H H s s'
      | some pt => Shape K trapframe pt 0 ∧ V.moves R H (H + pt.nodes) s s' := by
  have htop : TRAPFRAME / PGSIZE < TRAMPOLINE / PGSIZE := by decide
  have hfree : ∀ (p : PageTable) (s' : V.Sit), (∀ v, v < 512 ^ 3 → p.leaf v = 0) →
      V.moves R H (H + p.nodes) s s' →
      V.does (uvmfree K p 0) s' fun _ s'' => V.moves R H H s s'' := by
    intro p s' hp hmoves
    have hnone : H + p.nodes + p.mapped 0 (npages 0) = H + p.nodes := by
      rw [npages_zero, PageTable.mapped_zero, add_zero]
    have hacc := V.after hmoves hs
    rw [← hnone] at hacc hmoves
    refine V.mono (V.uvmfree_does p (Nat.zero_le _) ?_ (fun v hv _ => hp v hv) hacc hR)
      fun _ s'' hmoves' => V.trans hmoves hmoves'
    exact fun w _ hw => absurd hw (Nat.not_lt_zero w)
  rw [procPagetable]
  refine V.seq (P := fun r s' => match r with
    | none => V.moves R H H s s'
    | some pt => (∀ v, pt.leaf v = 0) ∧ V.moves R H (H + pt.nodes) s s') ?_ ?_
  · refine V.seq (V.kalloc_does hs hR) ?_
    rintro (_ | q) s' htaken
    · exact V.ret htaken
    · refine V.ret ⟨fun v => Radix.get_empty 2 v, ?_⟩
      rw [PageTable.nodes, Radix.labels_empty, Multiset.add_cons, add_zero]
      exact htaken.1
  rintro (_ | pt) s' hcreated
  · exact V.ret hcreated
  obtain ⟨hzero, hmoves⟩ := hcreated
  refine V.seq (V.mappages_does pt (by decide) (by decide) (by rw [hzero]; rfl) K.trampoline _
    (V.after hmoves hs) hR) ?_
  rintro ⟨ok, p⟩ s1 ⟨hmoves1, -, hleaf⟩
  dsimp only at hmoves1 hleaf ⊢
  have hall1 := V.trans hmoves hmoves1
  cases ok with
  | false =>
    rw [if_pos rfl]
    refine V.seq (hfree p s1 (fun v hv => ?_) hall1) fun _ s2 hmoves2 => V.ret hmoves2
    rw [hleaf v hv, if_neg (fun h => by cases h.1), hzero]
  | true =>
    rw [if_neg fun h => by cases h]
    have hleaf : ∀ v, v < 512 ^ 3 → p.leaf v = if v = TRAMPOLINE / PGSIZE then
        ⟨K.trampoline, ⟨true, true, false, true, false⟩⟩ else 0 := by
      intro v hv
      rw [hleaf v hv, hzero]
      exact if_congr (and_iff_right rfl) rfl rfl
    refine V.seq (V.mappages_does p (by decide) (by decide) ?_ trapframe _ (V.after hall1 hs) hR) ?_
    · rw [hleaf _ (by decide), if_neg (by omega)]
      rfl
    rintro ⟨ok, p'⟩ s2 ⟨hmoves2, -, hleaf'⟩
    dsimp only at hmoves2 hleaf' ⊢
    have hall2 := V.trans hall1 hmoves2
    cases ok with
    | false =>
      have hleaf'' : ∀ v, v < 512 ^ 3 → p'.leaf v = p.leaf v := by
        intro v hv
        rw [hleaf' v hv, if_neg fun h => by cases h.1]
      rw [if_pos rfl]
      refine V.seq (V.uvmunmap_does (H := H + p'.nodes) p' (v := TRAMPOLINE / PGSIZE) (n := 1) rfl
        (by decide) (fun w h1 h2 => ?_) false (by simpa using V.after hall2 hs)
        (hR.trans (Multiset.le_add_right _ _))) ?_
      · have hw : w = TRAMPOLINE / PGSIZE := by omega
        rw [hw, hleaf'' _ (by decide), hleaf _ (by decide), if_pos rfl]
        exact ⟨rfl, by rintro ⟨⟩⟩
      rintro p'' s3 ⟨hmoves3, hnodes, hleaf3⟩
      rw [if_neg Bool.false_ne_true, add_zero] at hmoves3
      refine V.seq (hfree p'' s3 (fun v hv => ?_) ?_) fun _ s4 hmoves4 => V.ret hmoves4
      · rw [hleaf3 v hv]
        split
        · rfl
        · rw [hleaf'' v hv, hleaf v hv, if_neg (by omega)]
      · rw [hnodes]
        exact V.trans hall2 hmoves3
    | true =>
      rw [if_neg fun h => by cases h]
      refine V.ret ⟨⟨Nat.zero_le _, fun v hv => absurd hv (Nat.not_lt_zero v), ?_, ?_,
        fun v hv _ h1 h2 => ?_⟩, hall2⟩
      · rw [hleaf' _ (by decide), if_pos ⟨rfl, rfl⟩]
      · rw [hleaf' _ (by decide), if_neg fun h => by omega, hleaf _ (by decide), if_pos rfl]
      · rw [hleaf' v hv, if_neg fun h => h1 h.2, hleaf v hv, if_neg h2]

end PageLogic

end Xv6.Vm
