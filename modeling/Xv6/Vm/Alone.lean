import Xv6.Vm.Loading

/-!
# What the routines of `kernel/vm.c` do to memory

The routines run alone, from a memory in which the pages `H` that the call has and those of the free
list are distinct pages (`Accounts`).  For each of them: that it ends without a panic, what the page
table maps then, what is in the pages it has taken, and which pages the call has (`Moves`).  Of the
pages `R`, a part of those that the call has, no byte changes.
-/

namespace Xv6.Vm

open Concur

variable {N : ℕ}

/-- The pages of the free list and those that the call has are distinct pages of the memory. -/
def Accounts (K : Image) (m : St N) (H : Multiset Page) : Prop :=
  (m.freelist : Multiset Page) + H ≤ K.pages.val

/-- The call had the pages `H` and now has `H'`; what is in the pages `R` is unchanged. -/
structure Moves (R H H' : Multiset Page) (m m' : St N) : Prop where
  balance : (m'.freelist : Multiset Page) + H' = m.freelist + H
  data : ∀ q ∈ R, m'.data q = m.data q
  proc : m'.proc = m.proc

section

variable {K : Image} {stop : Option Panic → Prop} {m m' m'' : St N} {R R' H H' H'' : Multiset Page}
  {q : Page}

lemma Moves.refl (R H : Multiset Page) (m : St N) : Moves R H H m m := ⟨rfl, fun _ _ => rfl, rfl⟩

lemma Moves.trans (h : Moves R H H' m m') (h' : Moves R H' H'' m' m'') : Moves R H H'' m m'' :=
  ⟨h'.balance.trans h.balance, fun q hq => (h'.data q hq).trans (h.data q hq),
    h'.proc.trans h.proc⟩

lemma Moves.mono (h : Moves R H H' m m') (hR : R' ≤ R) : Moves R' H H' m m' :=
  ⟨h.balance, fun q hq => h.data q (Multiset.mem_of_le hR hq), h.proc⟩

lemma Moves.accounts (h : Moves R H H' m m') (hm : Accounts K m H) : Accounts K m' H' := by
  rw [Accounts, h.balance]
  exact hm

lemma Accounts.nodup (hm : Accounts K m H) : ((m.freelist : Multiset Page) + H).Nodup :=
  Multiset.nodup_of_le hm K.pages.nodup

lemma Accounts.ne_of_mem (hm : Accounts K m H) {rest : List Page} (hfree : m.freelist = q :: rest)
    {q' : Page} (hq' : q' ∈ H) : q' ≠ q := by
  rintro rfl
  have hdisj := (Multiset.nodup_add.1 hm.nodup).2.2
  rw [hfree] at hdisj
  exact Multiset.disjoint_left.1 hdisj (by simp) hq'

lemma Accounts.mem_pages (hm : Accounts K m H) (hq : q ∈ H) : q ∈ K.pages :=
  Multiset.mem_of_le hm (Multiset.mem_add.2 (.inr hq))

/-! ## Pages -/

lemma kalloc_ends (hm : Accounts K m H) (hR : R ≤ H) :
    Ends (fun _ => True) stop kalloc m fun r m' =>
      match r with
      | none => Moves R H H m m'
      | some q => Moves R H (q ::ₘ H) m m' := by
  refine Ends.atomic ?_
  unfold St.kalloc
  split
  · exact ⟨trivial, rfl, fun _ _ => rfl, rfl⟩
  · rename_i q rest hfree
    split
    · exact ⟨trivial, rfl, fun _ _ => rfl, rfl⟩
    · refine ⟨trivial, ?_, fun q' hq' => ?_, rfl⟩
      · rw [hfree, ← Multiset.cons_coe, Multiset.add_cons, Multiset.cons_add]
      · exact setAt_of_ne _ _ (hm.ne_of_mem hfree (Multiset.mem_of_le hR hq'))

lemma kfree_ends (hm : Accounts K m (q ::ₘ H)) (hR : R ≤ H) :
    Ends (fun _ => True) stop (kfree K q) m fun _ m' => Moves R (q ::ₘ H) H m m' := by
  refine Ends.update ?_
  have hmem := hm.mem_pages (Multiset.mem_cons_self q H)
  rw [Image.pages, Finset.mem_Ico] at hmem
  unfold St.kfree
  rw [if_neg (not_or.2 ⟨not_lt.2 hmem.1, not_le.2 hmem.2⟩)]
  refine ⟨trivial, ?_, fun q' hq' => setAt_of_ne _ _ ?_, rfl⟩
  · rw [← Multiset.cons_coe, Multiset.add_cons, Multiset.cons_add]
  · rintro rfl
    have hnodup := (Multiset.nodup_add.1 hm.nodup).2.1
    exact (Multiset.nodup_cons.1 hnodup).1 (Multiset.mem_of_le hR hq')

lemma setData_ends (hq : q ∉ R) (f : St N → PageData) :
    Ends (fun _ => True) stop (.modify fun m => m.setData q (f m)) m fun _ m' =>
      Moves R H H m m' ∧ m'.data q = f m := by
  refine Ends.modify trivial ⟨⟨rfl, fun q' hq' => setAt_of_ne _ _ ?_, rfl⟩, setAt_self _ _ _⟩
  rintro rfl
  exact hq hq'

lemma Accounts.mapped_inj {p : PageTable} {n v w : ℕ}
    (hm : Accounts K m (H + p.mapped 0 n)) (hv : v < n) (hw : w < n)
    (h : (p.leaf v).page = (p.leaf w).page) : v = w := by
  have hnodup := (Multiset.nodup_add.1 (Multiset.nodup_add.1 hm.nodup).2.1).2.1
  rw [PageTable.mapped, Multiset.coe_nodup] at hnodup
  exact List.inj_on_of_nodup_map hnodup (List.mem_range'_1.2 ⟨Nat.zero_le v, by omega⟩)
    (List.mem_range'_1.2 ⟨Nat.zero_le w, by omega⟩) h

lemma Accounts.not_mem_of_mapped {p : PageTable} {n v : ℕ}
    (hm : Accounts K m (H + p.mapped 0 n)) (hv : v < n) :
    (p.leaf v).page ∉ H := fun hmem =>
  Multiset.disjoint_left.1 (Multiset.nodup_add.1 (Multiset.nodup_add.1 hm.nodup).2.1).2.2 hmem
    (PageTable.mem_mapped (Nat.zero_le v) (by omega))

end

/-- The pages that a call has when it runs alone, and what is in them. -/
def accounting (K : Image) (N : ℕ) (stop : Option Panic → Prop) : PageLogic K N where
  toJudgement := .alone stop
  has := Accounts K
  moves := Moves
  holds m q x := m.data q = x
  reads m m' := m' = m
  refl _ := .refl _ _ _
  trans h h' := h.trans h'
  weaken h hR := h.mono hR
  after h hm := h.accounts hm
  le_pages _ hm := (Multiset.le_add_left _ _).trans hm
  keeps h hq hx := (h.data _ hq).trans hx
  sees := by
    rintro m _ q x rfl hx
    exact hx
  kalloc_does := by
    intro R H m hm hR
    refine (kalloc_ends hm hR).mono ?_
    rintro (_ | q) m' hmoves
    · exact hmoves
    · exact ⟨hmoves, (Multiset.le_add_left _ _).trans (hmoves.accounts hm)⟩
  kfree_does hm hR := kfree_ends hm hR
  setData_does := by
    intro R H m q f _ _ hq
    refine (setData_ends (H := H) hq f).mono ?_
    rintro _ m' ⟨hmoves, hdata⟩
    exact ⟨hmoves, fun x hx => hdata.trans (hx m rfl)⟩
  panic_does hm hq hpages := absurd (hm.mem_pages hq) hpages

end Xv6.Vm
