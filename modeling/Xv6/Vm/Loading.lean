import Xv6.Vm.Space

/-!
# The image of `exec`

What the parts of `exec` that build the new image do with pages.  The segments of the file are
loaded into a new page table, and a stack is added to it.  Each stage keeps an image: a page table
with the mappings that its size says, all of whose pages the call has.
-/

namespace Xv6.Vm

open Concur

variable {N : ℕ}

section

variable {K : Image}

/-! ## Single pages of user memory -/

lemma walkaddr_eq (pt : PageTable) {va : ℕ} (hva : va < MAXVA)
    (hv : (pt.leaf (va / PGSIZE)).flags.v = true) (hu : (pt.leaf (va / PGSIZE)).flags.u = true) :
    walkaddr (N := N) pt va = pure (pt.leaf (va / PGSIZE)).page := by
  rw [walkaddr, if_neg (not_le.2 hva), walk_false pt hva, PageTable.reaches_of_valid hv]
  simp only [Prog.pure_eq, Prog.ret_bind, Bool.true_eq_false, if_false, PageTable.pte_eq_leaf, hv,
    hu]

lemma uvmclear_eq (pt : PageTable) {v : ℕ} (hv : v * PGSIZE < MAXVA)
    (hvalid : (pt.leaf v).flags.v = true) :
    uvmclear (N := N) pt (v * PGSIZE) = pure (pt.setPte (v * PGSIZE)
      { pt.leaf v with flags := { (pt.leaf v).flags with u := false } }) := by
  rw [uvmclear, walk_false pt hv, mul_PGSIZE_div, PageTable.reaches_of_valid hvalid]
  simp only [Prog.pure_eq, Prog.ret_bind, Bool.true_eq_false, if_false, PageTable.pte_mul]

lemma Shape.mem_mapped_of_user {trapframe : Page} {pt : PageTable} {n v : ℕ}
    (h : Shape K trapframe pt n) (hv : v < 512 ^ 3) (hvalid : (pt.leaf v).flags.v = true)
    (huser : (pt.leaf v).flags.u = true) : (pt.leaf v).page ∈ pt.mapped 0 n := by
  rcases (h.valid_iff hv).1 hvalid with hlt | rfl | rfl
  · exact PageTable.mem_mapped (Nat.zero_le v) (by omega)
  · rw [h.trapframe] at huser
    cases huser
  · rw [h.trampoline] at huser
    cases huser

lemma Shape.clear {trapframe : Page} {pt : PageTable} {n v : ℕ} (h : Shape K trapframe pt n)
    (hv : v < n) : Shape K trapframe (pt.setPte (v * PGSIZE)
      { pt.leaf v with flags := { (pt.leaf v).flags with u := false } }) n ∧
    (pt.setPte (v * PGSIZE)
      { pt.leaf v with flags := { (pt.leaf v).flags with u := false } }).mapped 0 n =
      pt.mapped 0 n := by
  have hle := h.le
  have htop : TRAPFRAME / PGSIZE < TRAMPOLINE / PGSIZE := by decide
  have hlt : TRAPFRAME / PGSIZE < 512 ^ 3 := by decide
  have hmax : v * PGSIZE < MAXVA := by
    simp only [TRAPFRAME_eq, MAXVA_eq, PGSIZE_eq] at hle ⊢
    omega
  have hleaf := fun w (hw : w < 512 ^ 3) => PageTable.leaf_setPte
    (PageTable.reaches_of_valid (h.user v hv).1) hmax hw
    { pt.leaf v with flags := { (pt.leaf v).flags with u := false } }
  refine ⟨⟨hle, fun w hw => ?_, ?_, ?_, fun w hw hnw h1 h2 => ?_⟩, ?_⟩
  · rw [hleaf w (by omega)]
    split
    · exact h.user v hv
    · exact h.user w hw
  · rw [hleaf _ hlt, if_neg (by omega)]
    exact h.trapframe
  · rw [hleaf _ (by decide), if_neg (by omega)]
    exact h.trampoline
  · rw [hleaf w hw, if_neg (by omega)]
    exact h.other w hw hnw h1 h2
  · refine congrArg _ (List.map_congr_left fun w hw => ?_)
    rw [List.mem_range'_1] at hw
    rw [hleaf w (by omega)]
    split
    · rename_i hwv
      rw [hwv]
    · rfl

lemma File.proghdr_lt (ip : File) (off : ℕ) :
    (ip.proghdr off).vaddr < 2 ^ 64 ∧ (ip.proghdr off).memsz < 2 ^ 64 :=
  ⟨(Bytes.rdLE_lt _ 16 8).trans_eq (by decide), (Bytes.rdLE_lt _ 40 8).trans_eq (by decide)⟩

/-- The part of `exec` from the loop over the arguments to the copy of the array of pointers. -/
def pushStack (pt : PageTable) (base sz : ℕ) (argv : List (List UInt8)) :
    Routine N (Option ℕ × ℕ × PageTable) := do
  match ← pushArgs pt base argv sz [] with
  | none => pure (none, sz, pt)
  | some (sp, ustack) => do
    let sp := sub64 sp ((ustack.length + 1) * 8)
    let sp := sp - sp % 16
    if sp < base then pure (none, sz, pt)
    else do
      if ← copyout pt sp (wordBytes (ustack ++ [0])) then pure (some sp, sz, pt)
      else pure (none, sz, pt)

end

namespace PageLogic

variable {K : Image} (V : PageLogic K N) {s : V.Sit} {R H : Multiset Page} {trapframe : Page}
  {p : PageTable} {n sz : ℕ}

/-! ## The segments -/

lemma loadseg_does {va : ℕ} (ip : File) (offset : ℕ) (hp : Shape K trapframe p n)
    (huser : ∀ v, v < n → (p.leaf v).flags.u = true)
    (hnotR : ∀ v, v < n → (p.leaf v).page ∉ R) (hs : V.has s (H + p.mapped 0 n))
    (hle : va + sz ≤ n * PGSIZE) :
    V.does (loadseg p va ip offset sz) s fun _ s' =>
      V.moves R (H + p.mapped 0 n) (H + p.mapped 0 n) s s' := by
  have hphys : V.total → n ≤ 32768 := by
    intro ht
    have hc := K.card_le (V.le_pages ht hs)
    simp only [Multiset.card_add, PageTable.card_mapped] at hc
    omega
  have htop := hp.le
  rw [loadseg]
  refine V.iterate (fun _ s' => V.moves R (H + p.mapped 0 n) (H + p.mapped 0 n) s s')
    (fun i => sz - i) ?_ (V.refl hs)
  intro i s' hmoves
  split
  · rename_i hi
    have hva : va + i < MAXVA := by
      simp only [TRAPFRAME_eq, MAXVA_eq, PGSIZE_eq] at htop hle ⊢
      omega
    have hu64 : u64 (va + i) = va + i := by
      simp only [u64, MAXVA_eq] at hva ⊢
      omega
    have hpage : (va + i) / PGSIZE < n := by
      rw [Nat.div_lt_iff_lt_mul (by decide)]
      omega
    have hmem : (p.leaf ((va + i) / PGSIZE)).page ∈ H + p.mapped 0 n :=
      Multiset.mem_add.2 (.inr (PageTable.mem_mapped (Nat.zero_le _) (by omega)))
    have hacc := V.after hmoves hs
    rw [hu64, walkaddr_eq p hva (hp.user _ hpage).1 (huser _ hpage)]
    simp only [Prog.pure_eq, Prog.ret_bind]
    split
    · rename_i h0
      refine V.panic_does hacc hmem ?_
      rw [h0]
      exact K.zero_not_mem_pages
    refine V.seq (V.setData_does _ hacc hmem (hnotR _ hpage)) ?_
    rintro - s'' ⟨hmoves', -⟩
    have hall := V.trans hmoves hmoves'
    have hmeasure : V.total → sz - (i + PGSIZE) % 2 ^ 32 < sz - i := by
      intro ht
      have hn := hphys ht
      simp only [PGSIZE_eq] at hle ⊢
      omega
    by_cases hgot : ip.readi ((offset + i) % 2 ^ 32) (if sz - i < PGSIZE then sz - i else PGSIZE) =
        if sz - i < PGSIZE then sz - i else PGSIZE
    · rw [if_pos hgot]
      exact V.ret ⟨hall, hmeasure⟩
    · rw [if_neg hgot]
      exact V.ret hall
  · exact V.ret hmoves

lemma loadSegments_does (ip : File) (elf : ElfHdr) (hp : Shape K trapframe p 0)
    (hs : V.has s (H + p.nodes)) :
    V.does (loadSegments K ip elf p) s fun r s' =>
      Shape K trapframe r.2.2 (npages r.2.1) ∧
      V.moves 0 (H + p.nodes) (H + r.2.2.nodes + r.2.2.mapped 0 (npages r.2.1)) s s' := by
  rw [loadSegments]
  refine V.iterate (fun b s' => Shape K trapframe b.2.2.2 (npages b.2.2.1) ∧
    (∀ v, v < npages b.2.2.1 → (b.2.2.2.leaf v).flags.u = true) ∧
    V.moves 0 (H + p.nodes) (H + b.2.2.2.nodes + b.2.2.2.mapped 0 (npages b.2.2.1)) s s')
    (fun b => elf.phnum - b.1) ?_ ⟨?_, fun v hv => ?_, ?_⟩
  · rintro ⟨i, off, sz, q⟩ s' ⟨hq, huser, hmoves⟩
    dsimp only at hq huser hmoves ⊢
    obtain ⟨h1, h2⟩ := ip.proghdr_lt off
    generalize ip.proghdr off = ph at h1 h2 ⊢
    split
    swap
    · exact V.ret ⟨hq, hmoves⟩
    rename_i hi
    have hmeasure : V.total → elf.phnum - (i + 1) < elf.phnum - i := fun _ => by omega
    split
    · exact V.ret ⟨hq, hmoves⟩
    split
    · exact V.ret ⟨⟨hq, huser, hmoves⟩, hmeasure⟩
    split
    · exact V.ret ⟨hq, hmoves⟩
    rename_i hmemsz
    split
    · exact V.ret ⟨hq, hmoves⟩
    rename_i hwrap
    split
    · exact V.ret ⟨hq, hmoves⟩
    refine V.seq (V.uvmalloc_image _ _ _ hq (V.after hmoves hs) (Multiset.zero_le _)) ?_
    rintro ⟨sz1, q'⟩ s1 ⟨sz', hsz, hq', hsame, hflags, hmoves1⟩
    dsimp only at hsz hq' hsame hflags hmoves1 ⊢
    have hall := V.trans hmoves hmoves1
    have huser' : ∀ v, v < npages sz' → (q'.leaf v).flags.u = true := by
      intro v hv
      by_cases hv' : v < npages sz
      · rw [hsame v hv']
        exact huser v hv'
      · rw [hflags v (not_lt.1 hv') hv]
        rfl
    split
    · -- nothing has been added, be it that there was no memory or that the size is 0
      rename_i h0
      have heq : sz' = sz := by
        rcases hsz with ⟨h1, h2⟩ | ⟨-, h2⟩
        · have := le_max_left sz (u64 (ph.vaddr + ph.memsz))
          omega
        · exact h2
      subst heq
      exact V.ret ⟨hq', hall⟩
    · rename_i h0
      have heq : sz1 = sz' ∧ sz' = max sz (u64 (ph.vaddr + ph.memsz)) := by
        rcases hsz with h | ⟨h, -⟩
        · exact h
        · exact absurd h h0
      obtain ⟨rfl, hmax⟩ := heq
      refine V.seq (V.loadseg_does ip _ hq' huser' (fun v _ => Multiset.notMem_zero _)
        (V.after hall hs) ?_) ?_
      · have hle := le_max_right sz (u64 (ph.vaddr + ph.memsz))
        have hmod := Nat.mod_le ph.filesz (2 ^ 32)
        rw [← hmax] at hle
        simp only [u64, npages, PGSIZE_eq] at hwrap hle ⊢
        omega
      · rintro ok s2 hmoves2
        have hall' := V.trans hall hmoves2
        cases ok with
        | false => exact V.ret ⟨hq', hall'⟩
        | true => exact V.ret ⟨⟨hq', huser', hall'⟩, hmeasure⟩
  · rwa [npages_zero]
  · rw [npages_zero] at hv
    exact absurd hv (Nat.not_lt_zero v)
  · rw [npages_zero, PageTable.mapped_zero, add_zero]
    exact V.refl hs

/-! ## The stack -/

/-- The stack of the new program: three pages are added, of which the lowest is not for the user,
and then the arguments are pushed.  If there is no memory for the pages, nothing is added. -/
lemma makeStack_does {argv : List (List UInt8)} {Q : Option ℕ × ℕ × PageTable → V.Sit → Prop}
    (hn : n = npages sz) (hp : Shape K trapframe p n) (hs : V.has s (H + p.nodes + p.mapped 0 n))
    (hR : R ≤ H)
    (hfail : ∀ q s', Shape K trapframe q n →
      V.moves R (H + p.nodes + p.mapped 0 n) (H + q.nodes + q.mapped 0 n) s s' →
      Q (none, n * PGSIZE, q) s')
    (hpush : ∀ q s', Shape K trapframe q (n + 3) →
      (∀ v, n + 1 ≤ v → v < n + 3 → (q.leaf v).flags = ⟨true, true, true, false, true⟩) →
      (q.leaf n).flags.u = false →
      V.moves R (H + p.nodes + p.mapped 0 n) (H + q.nodes + q.mapped 0 (n + 3)) s s' →
      V.does (pushStack q ((n + 1) * PGSIZE) ((n + 3) * PGSIZE) argv) s' Q) :
    V.does (makeStack K p sz argv) s Q := by
  have hle := hp.le
  rw [makeStack, pgRoundUp_eq (by rwa [← hn]), ← hn]
  have hnew : u64 (n * PGSIZE + (USERSTACK + 1) * PGSIZE) = (n + 3) * PGSIZE := by
    simp only [TRAPFRAME_eq, PGSIZE_eq, u64, USERSTACK] at hle ⊢
    omega
  dsimp only
  have hmul := npages_mul n
  rw [hnew]
  refine V.seq (V.uvmalloc_image (n * PGSIZE) ((n + 3) * PGSIZE) _ (by rwa [hmul])
    (by rwa [hmul]) hR) ?_
  rintro ⟨sz1, q⟩ s1 ⟨sz', hsz, hq, -, hflags, hmoves⟩
  rw [max_eq_right (Nat.mul_le_mul_right PGSIZE (by omega))] at hsz
  rw [hmul] at hmoves hflags
  dsimp only at hsz hq hflags hmoves ⊢
  split
  · rename_i h0
    have heq : sz' = n * PGSIZE := by
      rcases hsz with ⟨h1, h2⟩ | ⟨-, h2⟩
      · rw [← h1, h0] at h2
        simp only [PGSIZE_eq] at h2
        omega
      · exact h2
    rw [heq, hmul] at hq hmoves
    exact V.ret (hfail q s1 hq hmoves)
  rename_i h0
  obtain ⟨rfl, rfl⟩ := hsz.resolve_right fun h => h0 h.1
  rw [npages_mul] at hq hflags hmoves
  have hle' := hq.le
  have hguard : sub64 ((n + 3) * PGSIZE) ((USERSTACK + 1) * PGSIZE) = n * PGSIZE := by
    simp only [sub64, USERSTACK, TRAPFRAME_eq, PGSIZE_eq] at hle' ⊢
    omega
  have hbase : sub64 ((n + 3) * PGSIZE) (USERSTACK * PGSIZE) = (n + 1) * PGSIZE := by
    simp only [sub64, USERSTACK, TRAPFRAME_eq, PGSIZE_eq] at hle' ⊢
    omega
  have hmax : n * PGSIZE < MAXVA := by
    simp only [TRAPFRAME_eq, MAXVA_eq, PGSIZE_eq] at hle' ⊢
    omega
  have hn3 : n < n + 3 := by omega
  have hlt : TRAPFRAME / PGSIZE < 512 ^ 3 := by decide
  rw [hguard, hbase, uvmclear_eq q hmax (hq.user n hn3).1]
  simp only [Prog.pure_eq, Prog.ret_bind]
  obtain ⟨hclear, hmapped⟩ := hq.clear hn3
  have hleaf := fun w (hw : w < 512 ^ 3) => PageTable.leaf_setPte
    (PageTable.reaches_of_valid (hq.user n hn3).1) hmax hw
    { q.leaf n with flags := { (q.leaf n).flags with u := false } }
  refine hpush _ s1 hclear (fun v h1 h2 => ?_) ?_ ?_
  · rw [hleaf v (by omega), if_neg (by omega), hflags v (by omega) h2]
    rfl
  · rw [hleaf n (by omega), if_pos rfl]
  · rwa [PageTable.nodes_setPte, hmapped]

end PageLogic

end Xv6.Vm
