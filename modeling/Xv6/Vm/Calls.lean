import Xv6.Vm.Owners
import Xv6.Vm.Loading

/-!
# The calls keep every page owned

What `fork`, `sbrk`, `exec`, `exit`, `wait` and pipes do with the pages of processes: when a call
returns, its process is complete and the call holds nothing.

A call takes the page table out of its process, works on it with the pages that it holds itself, and
puts it back.  In between the process has no page table in its entry, so that at no moment do two
parties have the same page.  `exec` builds a second image beside the first and frees one of them.
-/

namespace Xv6.Vm

open Concur

variable {N : ℕ}

/-- The proof: all steps are considered, and nothing must stop the machine. -/
def rules (K : Image) (N : ℕ) : Rules Panic (St N) (Fin N) (Hold N) where
  inv := Inv K
  guarantee _ _ := True
  excluded _ _ := True

/-- The call holds other pages. -/
def Hold.hold (l : Hold N) (held : Multiset Page) : Hold N := { l with held := held }

section

variable {K : Image} {t : Fin N} {l : Hold N} {H : Multiset Page} {q : Page}

@[simp] lemma Hold.hold_held (l : Hold N) (H : Multiset Page) : (l.hold H).held = H := rfl

@[simp] lemma Hold.hold_hold (l : Hold N) (H H' : Multiset Page) :
    (l.hold H).hold H' = l.hold H' := rfl

lemma Hold.hold_self {H : Multiset Page} (h : l.held = H) : l.hold H = l := by
  subst h
  rfl

/-! ## Pages -/

lemma kalloc_safe : (rules K N).Safe t kalloc l fun r l' =>
    match r with
    | none => l' = l
    | some q => l' = l.hold (q ::ₘ l.held) ∧ q ::ₘ l.held ≤ K.pages.val := by
  refine .atomic fun m L h hl => ?_
  unfold St.kalloc
  split
  · exact fun _ => ⟨l, h.kallocFail hl, rfl⟩
  · rename_i q rest hfree
    split
    · exact fun _ => ⟨l, h.kallocFail hl, rfl⟩
    · refine fun _ => ?_
      have h' := h.kalloc hl hfree fun _ => 5
      refine ⟨_, h', rfl, ?_⟩
      have hle := h'.held_le t
      rwa [Function.update_self] at hle

lemma kfree_safe (hq : l.held = q ::ₘ H) :
    (rules K N).Safe t (kfree K q) l fun _ l' => l' = l.hold H := by
  refine .update fun m L h hl => ?_
  have hmem := h.mem_pages hl (q := q) (by rw [hq]; exact Multiset.mem_cons_self q H)
  rw [Image.pages, Finset.mem_Ico] at hmem
  unfold St.kfree
  rw [if_neg (not_or.2 ⟨not_lt.2 hmem.1, not_le.2 hmem.2⟩)]
  exact fun _ => ⟨_, h.kfree hl hq _, rfl⟩

lemma setData_safe (hq : l.Owns q) (f : St N → PageData) :
    (rules K N).Safe t (.modify fun m => m.setData q (f m)) l fun _ l' => l' = l := by
  refine .modify fun m L h hl _ => ⟨l, ?_, rfl⟩
  rw [← hl, Function.update_eq_self]
  exact h.setData hl hq (f m)

/-- The pages that a call holds, among other calls.  Nothing is known about what is in them. -/
def holding (K : Image) (t : Fin N) : PageLogic K N where
  toJudgement := .among (rules K N) t
  has l H := l.held = H
  moves _ _ H' l l' := l' = l.hold H'
  holds _ _ _ := True
  reads _ _ := False
  refl h := (Hold.hold_self h).symm
  trans := by
    rintro _ _ _ _ l _ _ rfl rfl
    rfl
  weaken h _ := h
  after := by
    rintro _ _ _ l _ rfl _
    rfl
  le_pages h := h.elim
  keeps _ _ _ := trivial
  sees h := h.elim
  kalloc_does := by
    rintro R H l rfl -
    refine Rules.Safe.mono kalloc_safe ?_
    rintro (_ | q) l' h
    · exact h.trans (Hold.hold_self rfl).symm
    · exact h
  kfree_does h _ := kfree_safe h
  setData_does := by
    rintro R H l q f rfl hq -
    refine Rules.Safe.mono (setData_safe (Or.inl hq) f) fun _ l' h => ⟨?_, fun _ _ => trivial⟩
    exact h.trans (Hold.hold_self rfl).symm
  panic_does := by
    rintro α H l q p Q rfl hq hpages
    exact .atomic fun m L h hl => absurd (h.mem_pages hl hq) hpages

/-! ## Stores to user memory -/

lemma copyout_safe (pt : PageTable) (dstva : ℕ) (src : List UInt8)
    (howns : ∀ v, v < 512 ^ 3 → (pt.leaf v).flags.v = true → (pt.leaf v).flags.u = true →
      l.Owns (pt.leaf v).page) :
    (rules K N).Safe t (copyout pt dstva src) l fun _ l' => l' = l := by
  refine .iterate (fun _ l' => l = l') rfl ?_
  rintro ⟨dst, src⟩ _ rfl
  dsimp only
  split
  · exact .ret rfl
  split
  · exact .ret rfl
  rename_i hmax
  rw [walk_false pt (not_le.1 hmax)]
  simp only [Prog.pure_eq, Prog.ret_bind]
  split
  · exact .ret rfl
  rename_i hflags
  push Not at hflags
  obtain ⟨-, hv, hu, -⟩ := hflags
  rw [PageTable.pte_eq_leaf] at hv hu
  refine .seq (setData_safe (howns _ ?_ (by simpa using hv) (by simpa using hu)) _) ?_
  · simp only [MAXVA_eq, PGSIZE_eq] at hmax ⊢
    omega
  rintro - l' rfl
  exact .ret rfl

lemma pushArgs_safe (pt : PageTable) (stackbase : ℕ)
    (howns : ∀ v, v < 512 ^ 3 → (pt.leaf v).flags.v = true → (pt.leaf v).flags.u = true →
      l.Owns (pt.leaf v).page) (argv : List (List UInt8)) (sp : ℕ) (ustack : List ℕ) :
    (rules K N).Safe t (pushArgs pt stackbase argv sp ustack) l fun _ l' => l' = l := by
  induction argv generalizing sp ustack with
  | nil => exact .ret rfl
  | cons arg argv ih =>
    simp only [pushArgs]
    split
    · exact .ret rfl
    split
    · exact .ret rfl
    refine .seq (copyout_safe pt _ _ howns) ?_
    rintro (_ | _) l' rfl
    · exact .ret rfl
    · exact ih _ _

lemma pushStack_safe (pt : PageTable) (base sz : ℕ) (argv : List (List UInt8))
    (howns : ∀ v, v < 512 ^ 3 → (pt.leaf v).flags.v = true → (pt.leaf v).flags.u = true →
      l.Owns (pt.leaf v).page) :
    (rules K N).Safe t (pushStack pt base sz argv) l fun r l' => r.2 = (sz, pt) ∧ l' = l := by
  refine .seq (pushArgs_safe pt base howns argv _ _) ?_
  rintro (_ | ⟨sp, ustack⟩) l' rfl
  · exact .ret ⟨rfl, rfl⟩
  dsimp only
  split
  · exact .ret ⟨rfl, rfl⟩
  refine .seq (copyout_safe pt _ _ howns) ?_
  rintro (_ | _) l' rfl
  · exact .ret ⟨rfl, rfl⟩
  · exact .ret ⟨rfl, rfl⟩

lemma makeStack_safe {trapframe : Page} {pt : PageTable} {sz : ℕ} (argv : List (List UInt8))
    (hshape : Shape K trapframe pt (npages sz))
    (hheld : l.held = H + pt.nodes + pt.mapped 0 (npages sz)) :
    (rules K N).Safe t (makeStack K pt sz argv) l fun r l' =>
      Shape K trapframe r.2.2 (npages r.2.1) ∧
      l' = l.hold (H + r.2.2.nodes + r.2.2.mapped 0 (npages r.2.1)) := by
  refine (holding K t).makeStack_does (H := H) rfl hshape hheld (Multiset.zero_le _) ?_ ?_
  · rintro q _ hq rfl
    dsimp only
    rw [npages_mul]
    exact ⟨hq, rfl⟩
  · rintro q _ hq - - rfl
    refine (pushStack_safe q _ _ argv fun v hv h₁ h2 => Or.inl ?_).mono ?_
    · exact Multiset.mem_add.2 (Or.inr (hq.mem_mapped_of_user hv h₁ h2))
    · rintro ⟨r, rsz, rpt⟩ _ ⟨hr, rfl⟩
      obtain ⟨rfl, rfl⟩ := Prod.mk.inj hr
      dsimp only
      rw [npages_mul]
      exact ⟨hq, rfl⟩

end

/-- Between calls a thread holds nothing, and its process is complete. -/
structure Rest (K : Image) (l : Hold N) : Prop where
  held : l.held = 0
  child : l.child = none
  image : l.image = none
  me : ∀ e, l.me = some e → e.Ok K

section

variable {K : Image} {t p : Fin N} {l : Hold N} {e : Proc} {q : Page}

/-! ## Accesses to the process table -/

lemma readMe_safe (hme : l.me = some e) {α : Type} (f : Proc → α) :
    (rules K N).Safe t (.read fun m => f (m.proc t)) l fun r l' => r = f e ∧ l' = l := by
  refine .atomic (Rules.ActSafe.of_read fun m L h hl => ⟨?_, rfl⟩)
  rw [(h.me t e (hl ▸ hme)).1]

lemma readChild_safe (hc : l.child = some (p, e)) {α : Type} (f : Proc → α) :
    (rules K N).Safe t (.read fun m => f (m.proc p)) l fun r l' => r = f e ∧ l' = l := by
  refine .atomic (Rules.ActSafe.of_read fun m L h hl => ⟨?_, rfl⟩)
  rw [(h.child t p e (hl ▸ hc)).1]

/-- The entry of the running process changes; pages go from it to the call, or back. -/
lemma updateMe_safe (f : Proc → Proc) (held : Multiset Page) (image : Option (Page → PageData))
    (hme : l.me = some e) (hrun : (f e).state = .running)
    (hbal : (f e).pages + held = e.pages + l.held)
    (himage : ∀ g, image = some g → l.image = some g ∧ ∀ q ∈ (f e).pages, q ∈ e.pages) :
    (rules K N).Safe t (.modify (St.update t f)) l fun _ l' =>
      l' = { l with held := held, me := some (f e), image := image } := by
  refine .modify fun m L h hl _ => ⟨_, ?_, rfl⟩
  rw [St.update, (h.me t e (hl ▸ hme)).1]
  refine h.setMe hl hme hrun held (fun q => ?_) image himage
  rw [← Multiset.count_add, hbal, Multiset.count_add]

lemma updateMe_keep (f : Proc → Proc) (hme : l.me = some e) (hrun : (f e).state = .running)
    (hpages : (f e).pages = e.pages) :
    (rules K N).Safe t (.modify (St.update t f)) l fun _ l' =>
      l' = { l with me := some (f e) } := by
  refine (updateMe_safe f l.held l.image hme hrun (by rw [hpages])
    fun g hg => ⟨hg, ?_⟩).mono fun _ l' hl' => hl'
  rw [hpages]
  exact fun _ hq => hq

lemma Proc.Taken.settled (h : e.Taken) (K : Image) : e.Settled K := by
  rcases h with h | ⟨h, hlocked⟩
  · simp only [Proc.Settled, h]
  · simp only [Proc.Settled, h, hlocked]
    rintro ⟨⟩

lemma updateChild_safe (f : Proc → Proc) (held : Multiset Page) (hc : l.child = some (p, e))
    (htaken : (f e).Taken) (hbal : (f e).pages + held = e.pages + l.held) :
    (rules K N).Safe t (.modify (St.update p f)) l fun _ l' =>
      l' = { l with held := held, child := some (p, f e) } := by
  refine .modify fun m L h hl _ => ⟨_, ?_, rfl⟩
  rw [St.update, (h.child t p e (hl ▸ hc)).1]
  refine h.setChild hl hc htaken held (fun q => ?_) (htaken.settled K)
  rw [← Multiset.count_add, hbal, Multiset.count_add]

lemma releaseChild_safe (f : Proc → Proc) (hc : l.child = some (p, e))
    (hrun : (f e).state ≠ .running) (hpages : (f e).pages = e.pages)
    (hsettled : (f e).Settled K) :
    (rules K N).Safe t (.modify (St.update p f)) l fun _ l' => l' = { l with child := none } := by
  refine .modify fun m L h hl _ => ⟨_, ?_, rfl⟩
  rw [St.update, (h.child t p e (hl ▸ hc)).1]
  exact h.releaseChild hl hc hrun hpages hsettled

/-! ## Processes are made and freed -/

lemma freeTrapframe_safe (e : Proc) {H : Multiset Page} (hheld : l.held = H + e.framePages) :
    (rules K N).Safe t (freeTrapframe K e) l fun _ l' => l' = l.hold H := by
  rw [Proc.framePages] at hheld
  rw [freeTrapframe]
  cases htf : e.trapframe with
  | none =>
    rw [htf, add_zero] at hheld
    exact .ret (Hold.hold_self hheld).symm
  | some q =>
    rw [htf, add_comm, Multiset.singleton_add] at hheld
    exact kfree_safe hheld

lemma freeTable_safe (e : Proc) {H : Multiset Page} (hheld : l.held = H + e.tablePages)
    (hpt : ∀ pt, e.pagetable = some pt → ∃ q, Shape K q pt (npages e.sz)) :
    (rules K N).Safe t (freeTable K e) l fun _ l' => l' = l.hold H := by
  rw [Proc.tablePages] at hheld
  rw [freeTable]
  cases hpt' : e.pagetable with
  | none =>
    rw [hpt', add_zero] at hheld
    exact .ret (Hold.hold_self hheld).symm
  | some pt =>
    obtain ⟨q, hshape⟩ := hpt pt hpt'
    rw [hpt', ← add_assoc] at hheld
    exact (holding K t).procFreepagetable_does hshape hheld (Multiset.zero_le _)

lemma freeproc_safe (hc : l.child = some (p, e)) (htaken : e.Taken)
    (hpt : ∀ pt, e.pagetable = some pt → ∃ q, Shape K q pt (npages e.sz)) :
    (rules K N).Safe t (freeproc K p) l fun _ l' => l' = { l with child := none } := by
  obtain ⟨e1, he1⟩ : ∃ e1 : Proc, e1 = { e with trapframe := none, pagetable := none } := ⟨_, rfl⟩
  have htaken1 : e1.Taken := by
    rw [he1]
    exact htaken
  have h0 : e1.pages = 0 := by
    rw [he1]
    rfl
  refine .seq (P := fun r l' => e = r ∧
    l' = { l with held := l.held + e.pages, child := some (p, e1) }) ?_ ?_
  · refine .atomic fun m L h hl _ => ?_
    obtain ⟨hproc, -⟩ := h.child t p e (hl ▸ hc)
    refine ⟨_, ?_, hproc.symm, rfl⟩
    rw [St.update, hproc, ← he1]
    refine h.setChild hl hc htaken1 _ (fun q => ?_) (htaken1.settled K)
    rw [h0, Multiset.count_zero, Multiset.count_add]
    omega
  rintro _ _ ⟨rfl, rfl⟩
  refine .seq (freeTrapframe_safe e (H := l.held + e.tablePages) ?_) ?_
  · rw [Proc.pages, add_comm e.framePages, add_assoc]
  rintro - l' rfl
  refine .seq (freeTable_safe e (H := l.held) rfl hpt) ?_
  rintro - l' rfl
  refine (releaseChild_safe Proc.clear rfl (by rintro ⟨⟩) ?_ ?_).mono fun _ l' hl' => hl'
  · rw [he1]
    rfl
  · rw [he1]
    exact ⟨rfl, rfl, rfl, rfl⟩

lemma allocAt_safe :
    (rules K N).Safe t (.firstOf N fun p => .atomic (St.allocAt p)) l fun r l' =>
      match r with
      | none => l' = l
      | some p => ∃ e : Proc, e.state = .used ∧ e.pagetable = none ∧ e.trapframe = none ∧
          e.sz = 0 ∧ l' = { l with child := some (p, e) } := by
  refine .firstOf rfl fun p => .atomic fun m L h hl => ?_
  unfold St.allocAt
  by_cases hp : (m.proc p).state = .unused
  · rw [if_pos hp]
    refine fun _ => ?_
    have hset := h.settled p
    simp only [Proc.Settled, hp] at hset
    obtain ⟨h₁, h2, h3, -⟩ := hset
    have htaken : ({ m.proc p with state := .used } : Proc).Taken := Or.inl rfl
    refine ⟨_, h.takeChild hl ?_ ?_ htaken rfl (htaken.settled K),
      { m.proc p with state := .used }, rfl, h₁, h2, h3, rfl⟩
    · rintro (h' | ⟨h', -⟩) <;> rw [hp] at h' <;> cases h'
    · rw [hp]
      rintro ⟨⟩
  · rw [if_neg hp]
    exact fun _ => ⟨l, by rwa [← hl, Function.update_eq_self], rfl⟩

/-- A process that `allocproc` has made. -/
def Proc.Fresh (K : Image) (e : Proc) : Prop := e.state = .used ∧ e.sz = 0 ∧ e.Ok K

lemma allocproc_safe (hc : l.child = none) :
    (rules K N).Safe t (allocproc K) l fun r l' =>
      match r with
      | none => l' = l
      | some p => ∃ e : Proc, e.Fresh K ∧ l' = { l with child := some (p, e) } := by
  have hrest : { l with child := none } = l := by rw [← hc]
  refine .seq allocAt_safe ?_
  rintro (_ | p) l' hl'
  · exact .ret hl'
  obtain ⟨e, hused, hpt, htf, hsz, rfl⟩ := hl'
  have htaken : e.Taken := Or.inl hused
  refine .seq kalloc_safe ?_
  rintro (_ | q) l' hl'
  · subst hl'
    refine .seq (freeproc_safe rfl htaken fun pt h => ?_) ?_
    · rw [hpt] at h
      cases h
    · rintro - l' rfl
      exact .ret hrest
  obtain ⟨rfl, -⟩ := hl'
  have htaken' : ({ e with trapframe := some q } : Proc).Taken := Or.inl hused
  refine .seq (updateChild_safe (fun e => { e with trapframe := some q }) l.held rfl
    htaken' ?_) ?_
  · simp only [Proc.pages, Proc.framePages, Proc.tablePages, hpt, htf, Hold.hold_held, add_zero,
      zero_add, Multiset.singleton_add]
  rintro - l' rfl
  refine .seq ((holding K t).procPagetable_does q rfl (Multiset.zero_le _)) ?_
  rintro (_ | pt) l' hl'
  · subst hl'
    refine .seq (freeproc_safe rfl htaken' fun pt h => ?_) ?_
    · rw [hpt] at h
      cases h
    · rintro - l' rfl
      exact .ret hrest
  obtain ⟨hshape, rfl⟩ := hl'
  have htaken'' : ({ e with trapframe := some q, pagetable := some pt } : Proc).Taken :=
    Or.inl hused
  refine .seq (updateChild_safe (e := { e with trapframe := some q })
    (fun e => { e with pagetable := some pt }) l.held rfl htaken'' ?_) ?_
  · simp only [Proc.pages, Proc.framePages, Proc.tablePages, hpt, hsz, Hold.hold_held, add_zero,
      npages_zero, PageTable.mapped_zero]
    abel
  rintro - l' rfl
  refine .ret ⟨{ e with trapframe := some q, pagetable := some pt },
    ⟨hused, hsz, pt, q, rfl, rfl, ?_⟩, rfl⟩
  dsimp only
  rwa [hsz, npages_zero]

/-! ## `sbrk` -/

lemma takeTable_safe {pt : PageTable} (hme : l.me = some e) (hpt : e.pagetable = some pt)
    (himage : l.image = none) (hrun : e.state = .running) :
    (rules K N).Safe t (.atomic (St.takeTable t)) l fun r l' =>
      r = pt ∧ l' = { l with
        held := l.held + pt.nodes + pt.mapped 0 (npages e.sz)
        me := some { e with pagetable := none } } := by
  refine .atomic fun m L h hl => ?_
  obtain ⟨hproc, -⟩ := h.me t e (hl ▸ hme)
  unfold St.takeTable
  rw [hproc, hpt]
  refine fun _ => ⟨_, ?_, rfl, rfl⟩
  rw [St.update, hproc]
  have := h.setMe hl hme (e := { e with pagetable := none }) hrun
    (l.held + pt.nodes + pt.mapped 0 (npages e.sz)) (fun q => ?_) l.image
    fun g hg => by rw [himage] at hg; cases hg
  · exact this
  · rw [← Multiset.count_add, ← Multiset.count_add]
    congr 1
    simp only [Proc.pages, Proc.framePages, Proc.tablePages, hpt, add_zero]
    abel

lemma putTable_safe {pt : PageTable} {q : Page} {sz : ℕ} (f : Proc → Proc)
    (hme : l.me = some { e with pagetable := none }) (himage : l.image = none)
    (hrun : e.state = .running) (htf : e.trapframe = some q) (hshape : Shape K q pt (npages sz))
    (hf : f { e with pagetable := none } = { e with pagetable := some pt, sz := sz })
    {H : Multiset Page} (hheld : l.held = H + pt.nodes + pt.mapped 0 (npages sz)) :
    (rules K N).Safe t (.modify (St.update t f)) l fun _ l' =>
      l' = { l with held := H, me := some { e with pagetable := some pt, sz := sz } } ∧
      Proc.Ok K { e with pagetable := some pt, sz := sz } := by
  refine (updateMe_safe f H l.image hme (by rw [hf]; exact hrun) ?_ fun g hg => ?_).mono ?_
  · rw [hf, hheld]
    simp only [Proc.pages, Proc.framePages, Proc.tablePages, htf, add_zero]
    abel
  · rw [himage] at hg
    cases hg
  · rintro - l' rfl
    rw [hf]
    exact ⟨rfl, pt, q, rfl, htf, hshape⟩

/-- `growproc`: the process is complete afterwards; if it fails, it has the same user memory. -/
lemma growproc_safe (n : Int32) (hme : l.me = some e) (himage : l.image = none)
    (hrun : e.state = .running) (hok : e.Ok K) :
    (rules K N).Safe t (growproc K t n) l fun r l' =>
      ∃ e' : Proc, l' = { l with me := some e' } ∧ e'.state = .running ∧ e'.Ok K ∧
        (r = false → e'.dataPages = e.dataPages) := by
  obtain ⟨pt, q, hpt, htf, hshape⟩ := hok
  refine .seq (readMe_safe hme Proc.sz) ?_
  rintro _ l ⟨rfl, rfl⟩
  dsimp only
  split
  · refine .seq (takeTable_safe hme hpt himage hrun) ?_
    rintro _ _ ⟨rfl, rfl⟩
    refine .seq ((holding K t).uvmalloc_image (H := l.held) _ _ _ hshape rfl
      (Multiset.zero_le _)) ?_
    rintro ⟨sz1, pt'⟩ l' ⟨sz', hsz, hshape', hsame, -, rfl⟩
    dsimp only at hsz hshape' hsame ⊢
    refine .ite (fun h0 => ?_) fun h0 => ?_
    · -- nothing has been added
      have heq : sz' = e.sz := by
        rcases hsz with ⟨h₁, h2⟩ | ⟨-, h2⟩
        · have hle := le_max_left e.sz ((e.sz + n.toInt) % 2 ^ 64).toNat
          omega
        · exact h2
      subst heq
      refine .seq (putTable_safe (e := e) _ rfl (by exact himage) hrun htf hshape' rfl
        rfl) ?_
      rintro - l' ⟨rfl, hok⟩
      refine .ret ⟨_, rfl, hrun, hok, fun _ => ?_⟩
      simp only [Proc.dataPages, hpt]
      exact PageTable.mapped_congr fun w _ hw => hsame w (by omega)
    · have heq : sz1 = sz' := (hsz.resolve_right fun h => h0 h.1).1
      subst heq
      refine .seq (putTable_safe (e := e) _ rfl (by exact himage) hrun htf hshape' rfl
        rfl) ?_
      rintro - l' ⟨rfl, hok⟩
      exact .ret ⟨_, rfl, hrun, hok, by rintro ⟨⟩⟩
  · split
    · refine .seq (takeTable_safe hme hpt himage hrun) ?_
      rintro _ _ ⟨rfl, rfl⟩
      refine .seq ((holding K t).uvmdealloc_image (H := l.held) _ hshape rfl
        (Multiset.zero_le _)) ?_
      rintro ⟨sz1, pt'⟩ l' ⟨hshape', rfl⟩
      dsimp only at hshape' ⊢
      refine .seq (putTable_safe (e := e) _ rfl (by exact himage) hrun htf hshape' rfl
        rfl) ?_
      rintro - l' ⟨rfl, hok⟩
      exact .ret ⟨_, rfl, hrun, hok, by rintro ⟨⟩⟩
    · exact .ret ⟨e, by rw [← hme], hrun, ⟨pt, q, hpt, htf, hshape⟩, by rintro ⟨⟩⟩

lemma sysSbrk_safe (n : Int32) (hme : l.me = some e) (himage : l.image = none)
    (hrun : e.state = .running) (hok : e.Ok K) :
    (rules K N).Safe t (sysSbrk K t n) l fun r l' =>
      ∃ e' : Proc, l' = { l with me := some e' } ∧ e'.state = .running ∧ e'.Ok K ∧
        (r = -1 → e'.dataPages = e.dataPages) := by
  refine .seq (readMe_safe hme Proc.sz) ?_
  rintro _ l ⟨rfl, rfl⟩
  refine .seq (growproc_safe n hme himage hrun hok) ?_
  rintro r l' ⟨e', rfl, hrun', hok', hfail⟩
  cases r with
  | false => exact .ret ⟨e', rfl, hrun', hok', fun _ => hfail rfl⟩
  | true =>
    refine .ret ⟨e', rfl, hrun', hok', fun h => ?_⟩
    have : (0 : ℤ) ≤ (e.sz : ℤ) := Int.natCast_nonneg _
    omega

/-! ## `fork` -/

lemma takeChildTable_safe {pt : PageTable} (hc : l.child = some (p, e)) (htaken : e.Taken)
    (hpt : e.pagetable = some pt) :
    (rules K N).Safe t (.atomic (St.takeTable p)) l fun r l' =>
      r = pt ∧ l' = { l with
        held := l.held + pt.nodes + pt.mapped 0 (npages e.sz)
        child := some (p, { e with pagetable := none }) } := by
  refine .atomic fun m L h hl => ?_
  obtain ⟨hproc, -⟩ := h.child t p e (hl ▸ hc)
  unfold St.takeTable
  rw [hproc, hpt]
  refine fun _ => ⟨_, ?_, rfl, rfl⟩
  rw [St.update, hproc]
  have htaken' : ({ e with pagetable := none } : Proc).Taken := htaken
  refine h.setChild hl hc htaken' _ (fun q => ?_) (htaken'.settled K)
  rw [← Multiset.count_add, ← Multiset.count_add]
  congr 1
  simp only [Proc.pages, Proc.framePages, Proc.tablePages, hpt, add_zero]
  abel

lemma fork_safe (hme : l.me = some e) (hc : l.child = none) (hok : e.Ok K) :
    (rules K N).Safe t (fork K t) l fun _ l' => l' = l := by
  obtain ⟨old, tf, hold, -, hshape⟩ := hok
  have hrest : { l with child := none } = l := by rw [← hc]
  refine .seq (allocproc_safe hc) ?_
  rintro (_ | np) l' hl'
  · exact .ret hl'
  obtain ⟨c, ⟨hused, hsz, new, q, hpt, htf, hnew⟩, rfl⟩ := hl'
  refine .seq (readMe_safe (e := e) (by exact hme) fun e => e) ?_
  rintro e _ ⟨rfl, rfl⟩
  rw [hold]
  dsimp only
  refine .seq (takeChildTable_safe rfl (Or.inl hused) hpt) ?_
  rintro _ _ ⟨rfl, rfl⟩
  rw [hsz, npages_zero] at hnew
  refine .seq ((holding K t).uvmcopy_image (H := l.held) (fun _ => Bytes.zero)
    hshape hnew (fun _ _ _ _ _ => trivial) ?_ (Multiset.zero_le _)) ?_
  · rw [hsz, npages_zero, PageTable.mapped_zero, add_zero]
    rfl
  rintro ⟨ok, new'⟩ l' ⟨n, hn, hnew', rfl⟩
  dsimp only at hn hnew' ⊢
  cases ok with
  | false =>
    rw [if_neg Bool.false_ne_true] at hn
    subst hn
    rw [if_pos rfl]
    have htaken : ({ c with pagetable := some new' } : Proc).Taken := Or.inl hused
    refine .seq (updateChild_safe (e := { c with pagetable := none })
      (fun e => { e with pagetable := some new' }) l.held rfl htaken ?_) ?_
    · simp only [Proc.pages, Proc.framePages, Proc.tablePages, htf, hsz, Hold.hold_held, add_zero,
        npages_zero, PageTable.mapped_zero]
      abel
    rintro - l' rfl
    refine .seq (freeproc_safe rfl htaken fun pt h => ?_) ?_
    · cases h
      exact ⟨q, by rwa [hsz, npages_zero]⟩
    · rintro - l' rfl
      exact .ret hrest
  | true =>
    rw [if_pos rfl] at hn
    subst hn
    rw [if_neg fun h => by cases h]
    refine .seq (updateChild_safe (e := { c with pagetable := none }) _ l.held rfl
      (Or.inl hused) ?_) ?_
    · simp only [Proc.pages, Proc.framePages, Proc.tablePages, htf, Hold.hold_held, add_zero]
      abel
    rintro - l' rfl
    refine .seq (releaseChild_safe _ rfl (by rintro ⟨⟩) rfl ?_) ?_
    · exact ⟨new', q, rfl, htf, hnew'⟩
    · rintro - l' rfl
      exact .ret hrest

/-! ## `wait`, `exit` and pipes -/

lemma Proc.Ok.owns {pt : PageTable} (hok : e.Ok K) (hpt : e.pagetable = some pt)
    (hme : l.me = some e) (himage : l.image = none) {v : ℕ} (hv : v < 512 ^ 3)
    (hvalid : (pt.leaf v).flags.v = true) (huser : (pt.leaf v).flags.u = true) :
    l.Owns (pt.leaf v).page := by
  obtain ⟨pt', q, hpt', -, hshape⟩ := hok
  obtain rfl : pt = pt' := Option.some.inj (hpt.symm.trans hpt')
  refine Or.inr ⟨himage, e, hme, Multiset.mem_add.2 (Or.inr ?_)⟩
  rw [Proc.tablePages, hpt]
  exact Multiset.mem_add.2 (Or.inr (hshape.mem_mapped_of_user hv hvalid huser))

lemma copyoutTo_safe (addr : ℕ) (src : List UInt8) (hme : l.me = some e) (himage : l.image = none)
    (hok : e.Ok K) : (rules K N).Safe t (copyoutTo t addr src) l fun _ l' => l' = l := by
  refine .seq (readMe_safe hme fun e => e) ?_
  rintro e l ⟨rfl, rfl⟩
  cases hpt : e.pagetable with
  | none =>
    obtain ⟨pt, q, hpt', -, -⟩ := hok
    rw [hpt] at hpt'
    cases hpt'
  | some pt => exact copyout_safe pt addr src fun v => hok.owns hpt hme himage

lemma findZombie_safe (p : Fin N) :
    (rules K N).Safe t (.atomic (St.findZombie p)) l fun r l' =>
      if r = true then ∃ e : Proc, e.state = .zombie ∧ e.locked = true ∧ e.Ok K ∧
        l' = { l with child := some (p, e) }
      else l' = l := by
  refine .atomic fun m L h hl => ?_
  unfold St.findZombie
  split
  · rename_i hcond
    obtain ⟨hz, hlock⟩ := hcond
    refine fun _ => ?_
    have hset := h.settled p
    simp only [Proc.Settled, hz] at hset
    have htaken : ({ m.proc p with locked := true } : Proc).Taken := Or.inr ⟨hz, rfl⟩
    refine ⟨_, h.takeChild hl ?_ ?_ htaken rfl (htaken.settled K), ?_⟩
    · rintro (h' | ⟨-, h'⟩)
      · rw [hz] at h'
        cases h'
      · rw [hlock] at h'
        cases h'
    · rw [hz]
      rintro ⟨⟩
    · exact (if_pos rfl).mpr ⟨{ m.proc p with locked := true }, hz, rfl, hset hlock, rfl⟩
  · exact fun _ => ⟨l, by rwa [← hl, Function.update_eq_self], (if_neg Bool.false_ne_true).mpr rfl⟩

lemma wait_safe (p : Fin N) (addr : ℕ) (hme : l.me = some e) (hc : l.child = none)
    (himage : l.image = none) (hok : e.Ok K) :
    (rules K N).Safe t (wait K t p addr) l fun _ l' => l' = l := by
  have hrest : { l with child := none } = l := by rw [← hc]
  refine .seq (findZombie_safe p) ?_
  rintro (_ | _) l' hl'
  · rw [if_neg Bool.false_ne_true] at hl'
    exact .ret hl'
  rw [if_pos rfl] at hl'
  obtain ⟨z, hz, hlock, hzok, rfl⟩ := hl'
  refine .seq (readChild_safe rfl Proc.xstate) ?_
  rintro _ _ ⟨rfl, rfl⟩
  refine .seq (P := fun _ l' => l' = { l with child := some (p, z) }) ?_ ?_
  · refine .ite (fun _ => ?_) fun _ => .ret rfl
    exact copyoutTo_safe addr _ (by exact hme) (by exact himage) hok
  rintro (_ | _) _ rfl
  · refine .seq (releaseChild_safe _ rfl ?_ rfl ?_) ?_
    · rw [hz]
      rintro ⟨⟩
    · simp only [Proc.Settled, hz]
      exact fun _ => hzok
    · rintro - l' rfl
      exact .ret hrest
  · refine .seq (freeproc_safe rfl (Or.inr ⟨hz, hlock⟩) fun pt h => ?_) ?_
    · obtain ⟨pt', q, hpt', -, hshape⟩ := hzok
      obtain rfl : pt = pt' := Option.some.inj (h.symm.trans hpt')
      exact ⟨q, hshape⟩
    · rintro - l' rfl
      exact .ret hrest

lemma exit_safe (status : ℕ) (hme : l.me = some e) (hc : l.child = none) (hok : e.Ok K) :
    (rules K N).Safe t (exit t status) l fun _ l' => l' = { l with me := none } := by
  refine .modify fun m L h hl _ => ⟨_, ?_, rfl⟩
  rw [St.update, (h.me t e (hl ▸ hme)).1]
  exact h.exit hl hme hc rfl rfl hok

lemma sysPipe_safe (fds : Bool) :
    (rules K N).Safe t (sysPipe K fds) l fun _ l' => l' = l := by
  refine .seq kalloc_safe ?_
  rintro (_ | pi) l' hl'
  · exact .ret hl'
  obtain ⟨rfl, -⟩ := hl'
  cases fds with
  | true =>
    refine .seq (P := fun _ l' => l' = l) (.modify fun m L h hl _ => ?_) ?_
    · exact ⟨_, h.openPipe hl rfl, rfl⟩
    · rintro - l' rfl
      exact .ret rfl
  | false =>
    refine .seq (kfree_safe (H := l.held) rfl) ?_
    rintro - l' rfl
    exact .ret (Hold.hold_self rfl)

lemma pipeclose_safe (pi : Page) :
    (rules K N).Safe t (pipeclose K pi) l fun _ l' => l' = l := by
  refine .seq (P := fun r l' => l' = if r = true then l.hold (pi ::ₘ l.held) else l) ?_ ?_
  · refine .atomic fun m L h hl => ?_
    split
    · rename_i hmem
      exact fun _ => ⟨_, h.closePipe hl hmem, (if_pos rfl).symm⟩
    · exact fun _ => ⟨l, by rwa [← hl, Function.update_eq_self], (if_neg Bool.false_ne_true).symm⟩
  · rintro (_ | _) l' hl'
    · rw [if_neg Bool.false_ne_true] at hl'
      exact .ret hl'
    · rw [if_pos rfl] at hl'
      subst hl'
      exact (kfree_safe (H := l.held) rfl).mono fun _ l' hl' => hl'

/-! ## `exec` -/

/-- What `exec` leaves as it is, and that nothing of the old page table is left. -/
structure Replaces (K : Image) (e e' : Proc) : Prop where
  state : e'.state = e.state
  ofile : e'.ofile = e.ofile
  trapframe : e'.trapframe = e.trapframe
  ops : e'.ops = e.ops
  refs : e'.refs = e.refs
  locks : e'.locks = e.locks
  ok : e'.Ok K
  fresh : ∀ q ∈ e.tablePages, q ∉ e'.pages

/-- While `exec` reads the file, it has an operation, a reference and a lock. -/
def Proc.reading (e : Proc) : Proc :=
  { e with ops := e.ops + 1, refs := e.refs + 1, locks := e.locks + 1 }

lemma closeImage_safe (hme : l.me = some e.reading) (hrun : e.state = .running) :
    (rules K N).Safe t (closeImage t) l fun _ l' => l' = { l with me := some e } := by
  refine .seq (updateMe_keep _ hme hrun rfl) ?_
  rintro - l' rfl
  refine (updateMe_keep _ rfl hrun rfl).mono ?_
  rintro - l' rfl
  simp only [Proc.reading, Nat.add_sub_cancel]

lemma Inv.count_me_le {m : St N} {L : Fin N → Hold N} (h : Inv K m L) (hl : L t = l)
    (hme : l.me = some e) (q : Page) : e.pages.count q + l.held.count q ≤ 1 := by
  subst hl
  have h₁ := h.owners_le_one q
  have h2 := count_pages_le m t q
  have h3 := count_held_le (L := L) t q
  rw [(h.me t e hme).1] at h2
  simp only [owners] at h₁
  omega

lemma commitImage_safe {old pt : PageTable} {q : Page} {sz : ℕ} {H : Multiset Page}
    (path : List UInt8) (entry sp : ℕ) (hme : l.me = some e) (hrun : e.state = .running)
    (hpt : e.pagetable = some old) (htf : e.trapframe = some q)
    (hshape : Shape K q pt (npages sz))
    (hheld : l.held = H + pt.nodes + pt.mapped 0 (npages sz)) :
    (rules K N).Safe t (.atomic (St.commitImage t path entry sp sz pt)) l fun r l' =>
      r = some old ∧ ∃ e', Replaces K e e' ∧ l' = { l with
        held := H + old.nodes + old.mapped 0 (npages e.sz)
        me := some e'
        image := none } := by
  refine .atomic fun m L h hl _ => ?_
  obtain ⟨hproc, -⟩ := h.me t e (hl ▸ hme)
  rw [hproc, hpt]
  obtain ⟨e', he'⟩ : ∃ e' : Proc, e' = { e with
    regs := setAt (setAt (setAt e.regs a1Word sp) epcWord entry) spWord sp
    name := (lastElement path).take 15
    pagetable := some pt
    sz := sz } := ⟨_, rfl⟩
  have hpages : e'.pages = e.framePages + (pt.nodes + pt.mapped 0 (npages sz)) := by
    rw [he']
    rfl
  have hold : e.tablePages = old.nodes + old.mapped 0 (npages e.sz) := by
    rw [Proc.tablePages, hpt]
  refine ⟨{ l with
    held := H + old.nodes + old.mapped 0 (npages e.sz), me := some e', image := none },
    ?_, rfl, e', ⟨by rw [he'], by rw [he'], by rw [he'], by rw [he'], by rw [he'], by rw [he'], ?_,
    fun q' hq' hmem => ?_⟩, rfl⟩
  · rw [St.update, hproc, ← he']
    refine h.setMe hl hme (by rw [he']; exact hrun) _ (fun q' => ?_) none (by rintro _ ⟨⟩)
    rw [← Multiset.count_add, ← Multiset.count_add, hpages, Proc.pages, hold, hheld]
    congr 1
    abel
  · rw [he']
    exact ⟨pt, q, rfl, htf, hshape⟩
  · have hle := h.count_me_le hl hme q'
    have h₁ := Multiset.one_le_count_iff_mem.2 hq'
    have h2 := Multiset.one_le_count_iff_mem.2 hmem
    rw [hpages] at h2
    simp only [Proc.pages, hheld, Multiset.count_add] at h2 hle
    omega

lemma exec_safe (path : List UInt8) (file : Option File) (argv : List (List UInt8))
    (hme : l.me = some e) (hrun : e.state = .running) (hok : e.Ok K) :
    (rules K N).Safe t (exec K t path file argv) l fun r l' =>
      r = -1 ∧ l' = l ∨ r ≠ -1 ∧ ∃ e', Replaces K e e' ∧
        l' = { l with me := some e', image := none } := by
  obtain ⟨old, q, hpt, htf, hshape⟩ := hok
  have hself : { l with me := some e } = l := by rw [← hme]
  refine .seq (updateMe_keep _ hme hrun rfl) ?_
  rintro - l' rfl
  cases file with
  | none =>
    refine .seq (updateMe_keep _ rfl hrun rfl) ?_
    rintro - l' rfl
    exact .ret (Or.inl ⟨rfl, hself⟩)
  | some ip =>
  dsimp only
  refine .seq (P := fun _ l' => l' = { l with me := some e.reading }) ?_ ?_
  · refine .seq (updateMe_keep _ rfl hrun rfl) ?_
    rintro - l' rfl
    exact (updateMe_keep _ rfl hrun rfl).mono fun _ l' hl' => hl'
  rintro - l' rfl
  have hclose : ∀ l' : Hold N, l' = { l with me := some e.reading } →
      (rules K N).Safe t (do
        closeImage t
        pure (-1 : ℤ)) l' fun r l' =>
        r = -1 ∧ l' = l ∨ r ≠ -1 ∧ ∃ e', Replaces K e e' ∧
          l' = { l with me := some e', image := none } := by
    rintro _ rfl
    refine .seq (closeImage_safe rfl hrun) ?_
    rintro - l' rfl
    exact .ret (Or.inl ⟨rfl, hself⟩)
  refine .ite (fun _ => hclose _ rfl) fun _ => ?_
  refine .seq (readMe_safe rfl fun e => e) ?_
  rintro _ _ ⟨rfl, rfl⟩
  have htf' : e.reading.trapframe = some q := htf
  rw [htf']
  dsimp only
  refine .seq ((holding K t).procPagetable_does q rfl (Multiset.zero_le _)) ?_
  rintro (_ | pt) l' hl'
  · exact hclose _ hl'
  obtain ⟨hpt0, rfl⟩ := hl'
  refine .seq ((holding K t).loadSegments_does (H := l.held) ip ip.elfhdr hpt0 rfl) ?_
  rintro ⟨ok, sz, pt⟩ l' ⟨hshape1, rfl⟩
  dsimp only at hshape1 ⊢
  refine .ite (fun _ => ?_) fun _ => ?_
  · refine .seq ((holding K t).procFreepagetable_does (H := l.held) hshape1 rfl
      (Multiset.zero_le _)) ?_
    rintro - l' rfl
    exact hclose _ rfl
  refine .seq (closeImage_safe (e := e) rfl hrun) ?_
  rintro - l' rfl
  refine .seq (readMe_safe (e := e) rfl Proc.sz) ?_
  rintro _ _ ⟨rfl, rfl⟩
  refine .seq (makeStack_safe (H := l.held) argv hshape1 rfl) ?_
  rintro ⟨sp, sz', pt'⟩ l' ⟨hshape2, rfl⟩
  dsimp only at hshape2 ⊢
  cases sp with
  | none =>
    refine .seq ((holding K t).procFreepagetable_does (H := l.held) hshape2 rfl
      (Multiset.zero_le _)) ?_
    rintro - l' rfl
    exact .ret (Or.inl ⟨rfl, hself⟩)
  | some sp =>
    refine .seq (commitImage_safe (e := e) (H := l.held) path ip.elfhdr.entry sp rfl hrun
      hpt htf hshape2 rfl) ?_
    rintro _ _ ⟨rfl, e', hrep, rfl⟩
    refine .seq ((holding K t).procFreepagetable_does (H := l.held) hshape rfl
      (Multiset.zero_le _)) ?_
    rintro - l' rfl
    exact .ret (Or.inr ⟨by omega, e', hrep, rfl⟩)

/-! ## `sys_exec` -/

lemma fetchArgs_safe (uargv : ℕ → Uarg) :
    (rules K N).Safe t (fetchArgs uargv) l fun r l' =>
      l' = l.hold (l.held + (r.2.1 : List Page)) := by
  refine .iterate (fun b l' => l' = l.hold (l.held + (b.2.1 : List Page))) ?_ ?_
  · exact (Hold.hold_self (add_zero _).symm).symm
  rintro ⟨i, pages, strings⟩ _ rfl
  dsimp only
  refine .ite (fun _ => .ret rfl) fun _ => ?_
  have hcons : ∀ q : Page, q ::ₘ (l.held + (pages : Multiset Page)) =
      l.held + ((pages ++ [q] : List Page) : Multiset Page) := by
    intro q
    rw [← Multiset.coe_add, Multiset.coe_singleton, ← Multiset.singleton_add, add_comm, add_assoc]
  cases uargv i with
  | fault => exact .ret rfl
  | null => exact .ret rfl
  | bad =>
    refine .seq kalloc_safe ?_
    rintro (_ | q) l' hl'
    · exact .ret hl'
    · obtain ⟨rfl, -⟩ := hl'
      exact .ret (congrArg l.hold (hcons q))
  | string s hs =>
    refine .seq kalloc_safe ?_
    rintro (_ | q) l' hl'
    · exact .ret hl'
    · obtain ⟨rfl, -⟩ := hl'
      refine .seq (setData_safe (Or.inl (Multiset.mem_cons_self q _)) _) ?_
      rintro - l' rfl
      exact .ret (congrArg l.hold (hcons q))

lemma freeArgs_safe (pages : List Page) {H : Multiset Page}
    (hheld : l.held = H + (pages : List Page)) :
    (rules K N).Safe t (freeArgs K pages) l fun _ l' => l' = l.hold H := by
  induction pages generalizing l with
  | nil => exact .ret (Hold.hold_self (hheld.trans (add_zero H))).symm
  | cons q pages ih =>
    refine .seq (kfree_safe (H := H + (pages : List Page)) ?_) ?_
    · rw [hheld, ← Multiset.cons_coe, Multiset.add_cons]
    · rintro - l' rfl
      exact ih rfl

lemma Proc.Ok.memory_congr (hok : e.Ok K) {data data' : Page → PageData}
    (h : ∀ q ∈ e.pages, data q = data' q) : e.memory data = e.memory data' := by
  obtain ⟨pt, q, hpt, htf, hshape⟩ := hok
  funext v
  simp only [Proc.memory, hpt, Option.bind_some, PageTable.pte_mul]
  split
  · rename_i hv
    have hlt : v < npages e.sz := by
      have hle := hshape.le
      have htop : TRAPFRAME / PGSIZE < TRAMPOLINE / PGSIZE := by decide
      have hlt : v < TRAPFRAME / PGSIZE := by
        simp only [TRAPFRAME_eq, PGSIZE_eq] at hv ⊢
        omega
      rcases (hshape.valid_iff (hlt.trans (by decide))).1 hv.1 with h' | h' | h' <;> omega
    refine congrArg some (h _ (Multiset.mem_add.2 (Or.inr ?_)))
    rw [Proc.tablePages, hpt]
    exact Multiset.mem_add.2 (Or.inr (PageTable.mem_mapped (Nat.zero_le v) (by omega)))
  · rfl

lemma readImage_safe (hme : l.me = some e) :
    (rules K N).Safe t (.read fun m => (m.proc t, (m.proc t).memory m.data)) l fun r l' =>
      ∃ g, r = (e, e.memory g) ∧ l' = { l with image := some g } := by
  refine .atomic fun m L h hl _ => ?_
  dsimp only
  rw [(h.me t e (hl ▸ hme)).1]
  refine ⟨_, h.setImage hl (some m.data) fun g hg => (Option.some.inj hg).symm, m.data, rfl, rfl⟩

lemma noteFailure_safe {g : Page → PageData} (hme : l.me = some e) (hok : e.Ok K)
    (himage : l.image = some g) :
    (rules K N).Safe t (.modify (St.note t e (e.memory g) (-1))) l fun _ l' =>
      l' = { l with image := none } := by
  refine .modify fun m L h hl _ => ⟨_, ?_, rfl⟩
  have hproc := (h.me t e (hl ▸ hme)).1
  refine Inv.setImage (h.note ⟨fun _ => ⟨hproc, ?_⟩, fun hne => absurd rfl hne⟩) hl none
    (by rintro _ ⟨⟩)
  dsimp only
  rw [hproc]
  exact hok.memory_congr fun q hq => h.image t g e (hl ▸ himage) (hl ▸ hme) q hq

lemma noteSuccess_safe {e0 : Proc} {g : Page → PageData} {r : ℤ} (hr : r ≠ -1)
    (hme : l.me = some e) (hrep : Replaces K e0 e) :
    (rules K N).Safe t (.modify (St.note t e0 (e0.memory g) r)) l fun _ l' => l' = l := by
  refine .modify fun m L h hl _ => ⟨l, ?_, rfl⟩
  have hproc := (h.me t e (hl ▸ hme)).1
  rw [← hl, Function.update_eq_self]
  refine h.note ⟨fun h1 => absurd h1 hr, fun _ => ?_⟩
  dsimp only
  rw [hproc]
  exact ⟨hrep.ok, hrep.ofile, hrep.trapframe, hrep.ops, hrep.refs, hrep.locks, hrep.fresh⟩

/-- A running process that is complete, in a call that holds nothing. -/
def Returned (K : Image) (l l' : Hold N) : Prop :=
  ∃ e : Proc, l' = { l with me := some e } ∧ e.state = .running ∧ e.Ok K

lemma sysExec_safe (path : Option (List UInt8)) (file : Option File) (uargv : ℕ → Uarg)
    (hme : l.me = some e) (himage : l.image = none) (hrun : e.state = .running) (hok : e.Ok K) :
    (rules K N).Safe t (sysExec K t path file uargv) l fun _ l' => Returned K l l' := by
  have hself : Returned K l l := ⟨e, by rw [← hme], hrun, hok⟩
  cases path with
  | none => exact .ret hself
  | some path =>
  refine .seq (fetchArgs_safe uargv) ?_
  rintro ⟨ok, pages, argv⟩ _ rfl
  dsimp only
  refine .ite (fun _ => ?_) fun _ => ?_
  · refine .seq (readImage_safe (e := e) (by exact hme)) ?_
    rintro _ _ ⟨g, rfl, rfl⟩
    refine .seq (exec_safe path file argv (e := e) (by exact hme) hrun hok) ?_
    rintro r l' (⟨rfl, rfl⟩ | ⟨hr, e', hrep, rfl⟩)
    · refine .seq (noteFailure_safe (e := e) (by exact hme) hok rfl) ?_
      rintro - l' rfl
      refine .seq (freeArgs_safe pages (H := l.held) rfl) ?_
      rintro - l' rfl
      refine .ret ⟨e, ?_, hrun, hok⟩
      rw [← hme, ← himage]
      rfl
    · refine .seq (noteSuccess_safe hr rfl hrep) ?_
      rintro - l' rfl
      refine .seq (freeArgs_safe pages (H := l.held) rfl) ?_
      rintro - l' rfl
      refine .ret ⟨e', ?_, hrep.state.trans hrun, hrep.ok⟩
      rw [← himage]
      rfl
  · refine .seq (freeArgs_safe pages (H := l.held) rfl) ?_
    rintro - l' rfl
    exact .ret hself

/-! ## All calls -/

lemma noteFail_safe {before : Proc} (hme : l.me = some e) (hdata : e.dataPages = before.dataPages) :
    (rules K N).Safe t (.modify (St.noteFail t before)) l fun _ l' => l' = l := by
  refine .modify fun m L h hl _ => ⟨l, ?_, rfl⟩
  have hproc := (h.me t e (hl ▸ hme)).1
  rw [← hl, Function.update_eq_self]
  refine h.noteFail ?_
  rw [hproc, hdata]

lemma whenFail_safe {c : Prop} [Decidable c] (hme : l.me = some e) :
    (rules K N).Safe t (.when c (.modify (St.noteFail t e))) l fun _ l' => l' = l :=
  Rules.Safe.ite (fun _ => noteFail_safe hme rfl) fun _ => .ret rfl

lemma Rest.of_returned {l' : Hold N} (hrest : Rest K l) (h : Returned K l l') : Rest K l' := by
  obtain ⟨e, rfl, -, hok⟩ := h
  refine ⟨hrest.held, hrest.child, hrest.image, fun e' he' => ?_⟩
  cases he'
  exact hok

lemma start_safe (hrest : Rest K l) :
    (rules K N).Safe t (.update (St.start t)) l fun _ l' => Rest K l' := by
  refine .update fun m L h hl => ?_
  unfold St.start
  split
  · rename_i hs
    refine fun _ => ⟨_, h.start hl hs hrest.image, hrest.held, hrest.child, hrest.image,
      fun e he => ?_⟩
    cases he
    have hset := h.settled t
    simp only [Proc.Settled, hs] at hset
    exact hset
  · exact trivial

lemma call_safe (c : Call N) (hc : c ≠ .start) (hrest : Rest K l) (hme : l.me = some e)
    (hrun : e.state = .running) :
    (rules K N).Safe t ((kernel K N).body t c) l fun _ l' => Rest K l' := by
  have hok := hrest.me e hme
  cases c with
  | start => exact absurd rfl hc
  | fork =>
    refine .seq (readMe_safe hme fun e => e) ?_
    rintro e l ⟨rfl, rfl⟩
    refine .seq (fork_safe hme hrest.child hok) ?_
    rintro r l rfl
    refine (whenFail_safe hme).mono ?_
    rintro - l rfl
    exact hrest
  | sbrk n =>
    refine .seq (readMe_safe hme fun e => e) ?_
    rintro e l ⟨rfl, rfl⟩
    refine .seq (sysSbrk_safe n hme hrest.image hrun hok) ?_
    rintro r l' ⟨e', rfl, hrun', hok', hfail⟩
    have hrest' := hrest.of_returned ⟨e', rfl, hrun', hok'⟩
    refine .ite (fun hr => ?_) fun _ => .ret hrest'
    refine (noteFail_safe (e := e') rfl (hfail hr)).mono ?_
    rintro - l' rfl
    exact hrest'
  | exec path file uargv =>
    refine .seq (sysExec_safe path file uargv hme hrest.image hrun hok) ?_
    exact fun r l' h => .ret (hrest.of_returned h)
  | exit status =>
    refine (exit_safe status hme hrest.child hok).mono ?_
    rintro - l' rfl
    exact ⟨hrest.held, hrest.child, hrest.image, by rintro _ ⟨⟩⟩
  | wait p addr =>
    refine .seq (wait_safe p addr hme hrest.child hrest.image hok) ?_
    rintro r l' rfl
    exact .ret hrest
  | pipe fds =>
    refine .seq (readMe_safe hme fun e => e) ?_
    rintro e l ⟨rfl, rfl⟩
    refine .seq (sysPipe_safe fds) ?_
    rintro r l rfl
    refine (whenFail_safe hme).mono ?_
    rintro - l rfl
    exact hrest
  | pipeclose pi =>
    refine (pipeclose_safe pi).mono ?_
    rintro - l' rfl
    exact hrest
  | store addr src =>
    refine .seq (copyoutTo_safe addr src hme hrest.image hok) ?_
    rintro r l' rfl
    exact .ret hrest

lemma calls_safe : (kernel K N).CallsSafe (rules K N) fun _ => Rest K := by
  intro t c s L hinv hrest hguard
  by_cases hc : c = .start
  · subst hc
    exact start_safe hrest
  · have hrun : (s.proc t).state = .running := by
      cases c with
      | start => exact absurd rfl hc
      | _ => exact hguard
    obtain ⟨e, he⟩ := Option.ne_none_iff_exists'.1 (hinv.runs t hrun)
    exact call_safe c hc hrest he (hinv.me t e he).2

end

end Xv6.Vm
