import Xv6.Vm.Tree
import Mathlib.Algebra.Order.BigOperators.Group.Finset

/-!
# Every page has one owner

The invariant of physical memory.  The pages that `kinit` handed to the allocator are those of the
free list, of processes, of pipes, those allocated for good, and those that a system call in
progress holds: no page is there twice and none is missing.

A process that does not run is complete, or its entry is free; one that is being made or freed
belongs to the call that does it.
-/

namespace Xv6.Vm

open Concur

variable {N : ℕ}

/-- The page of the trapframe. -/
def Proc.framePages (e : Proc) : Multiset Page :=
  match e.trapframe with
  | none => 0
  | some q => {q}

/-- The pages of the page table and of user memory. -/
def Proc.tablePages (e : Proc) : Multiset Page :=
  match e.pagetable with
  | none => 0
  | some pt => pt.nodes + pt.mapped 0 (npages e.sz)

/-- The pages that belong to a process. -/
def Proc.pages (e : Proc) : Multiset Page := e.framePages + e.tablePages

/-- The pages of its user memory. -/
def Proc.dataPages (e : Proc) : Multiset Page :=
  match e.pagetable with
  | none => 0
  | some pt => pt.mapped 0 (npages e.sz)

/-- A complete process. -/
def Proc.Ok (K : Image) (e : Proc) : Prop :=
  ∃ pt q, e.pagetable = some pt ∧ e.trapframe = some q ∧ Shape K q pt (npages e.sz)

/-- A process that does not run and that no call is about to change. -/
def Proc.Settled (K : Image) (e : Proc) : Prop :=
  match e.state with
  | .unused => e.pagetable = none ∧ e.trapframe = none ∧ e.sz = 0 ∧ e.locked = false
  | .runnable => e.Ok K
  | .zombie => e.locked = false → e.Ok K
  | .used | .running => True

/-- A process that `allocproc` has reserved, or that `wait` has locked. -/
def Proc.Taken (e : Proc) : Prop := e.state = .used ∨ e.state = .zombie ∧ e.locked = true

/-- What a call knows and holds. -/
structure Hold (N : ℕ) where
  /-- The pages in its local variables. -/
  held : Multiset Page
  /-- The entry of its own process, if that runs. -/
  me : Option Proc
  /-- Another process that it makes or frees. -/
  child : Option (Fin N × Proc)
  /-- In `exec`, the contents of the pages of its process. -/
  image : Option (Page → PageData)

/-- What is recorded of `exec`: if it has failed, nothing has changed; if not, the process is
complete, has the same files and trapframe page, has nothing open, and none of the pages of its old
page table. -/
def ExecRecord.Good (K : Image) (r : ExecRecord) : Prop :=
  (r.result = -1 → r.after = r.before ∧ r.memoryAfter = r.memoryBefore) ∧
  (r.result ≠ -1 → r.after.Ok K ∧ r.after.ofile = r.before.ofile ∧
    r.after.trapframe = r.before.trapframe ∧ r.after.ops = r.before.ops ∧
    r.after.refs = r.before.refs ∧ r.after.locks = r.before.locks ∧
    ∀ q ∈ r.before.tablePages, q ∉ r.after.pages)

/-- The number of owners of a page. -/
def owners (K : Image) (m : St N) (L : Fin N → Hold N) (q : Page) : ℕ :=
  m.freelist.count q + K.boot.count q + m.pipes.count q + ∑ p, (m.proc p).pages.count q +
    ∑ t, (L t).held.count q

structure Inv (K : Image) (m : St N) (L : Fin N → Hold N) : Prop where
  balance : ∀ q, owners K m L q = if q ∈ K.pages then 1 else 0
  me : ∀ t e, (L t).me = some e → m.proc t = e ∧ e.state = .running
  runs : ∀ t, (m.proc t).state = .running → (L t).me ≠ none
  child : ∀ t p e, (L t).child = some (p, e) → m.proc p = e ∧ e.Taken
  owner : ∀ t u p e e', (L t).child = some (p, e) → (L u).child = some (p, e') → t = u
  settled : ∀ p, (m.proc p).Settled K
  image : ∀ t g e, (L t).image = some g → (L t).me = some e → ∀ q ∈ e.pages, m.data q = g q
  execs : ∀ r ∈ m.execs, r.Good K
  fails : ∀ r ∈ m.fails, r.2.dataPages = r.1.dataPages

/-! ## Owners -/

section

variable {K : Image} {m m' : St N} {L : Fin N → Hold N} {t : Fin N} {l l' : Hold N} {q : Page}

lemma Inv.owners_le_one (h : Inv K m L) (q : Page) : owners K m L q ≤ 1 := by
  rw [h.balance q]
  split <;> decide

lemma count_held_le (t : Fin N) (q : Page) : (L t).held.count q ≤ ∑ u, (L u).held.count q :=
  Finset.single_le_sum (f := fun u => (L u).held.count q) (fun _ _ => Nat.zero_le _)
    (Finset.mem_univ t)

lemma count_pages_le (m : St N) (p : Fin N) (q : Page) :
    (m.proc p).pages.count q ≤ ∑ u, (m.proc u).pages.count q :=
  Finset.single_le_sum (f := fun u => (m.proc u).pages.count q) (fun _ _ => Nat.zero_le _)
    (Finset.mem_univ p)

lemma Inv.held_le (h : Inv K m L) (t : Fin N) : (L t).held ≤ K.pages.val := by
  rw [Multiset.le_iff_count]
  intro q
  have h1 := h.balance q
  have h2 := count_held_le (L := L) t q
  have h3 : Multiset.count q K.pages.val = if q ∈ K.pages then 1 else 0 :=
    Multiset.count_eq_of_nodup K.pages.nodup
  simp only [owners] at h1
  omega

lemma Inv.not_mem_pages (h : Inv K m L) (hq : q ∈ (L t).held) (p : Fin N) :
    q ∉ (m.proc p).pages := by
  intro hp
  have h1 := h.owners_le_one q
  have h2 := count_held_le (L := L) t q
  have h3 := count_pages_le m p q
  have h4 := Multiset.one_le_count_iff_mem.2 hq
  have h5 := Multiset.one_le_count_iff_mem.2 hp
  simp only [owners] at h1
  omega

lemma Inv.free_not_mem_pages (h : Inv K m L) (hq : q ∈ m.freelist) (p : Fin N) :
    q ∉ (m.proc p).pages := by
  intro hp
  have h1 := h.owners_le_one q
  have h3 := count_pages_le m p q
  have h4 := List.one_le_count_iff.2 hq
  have h5 := Multiset.one_le_count_iff_mem.2 hp
  simp only [owners] at h1
  omega

lemma Inv.pages_disjoint (h : Inv K m L) {p p' : Fin N} (hne : p' ≠ p)
    (hq : q ∈ (m.proc p).pages) : q ∉ (m.proc p').pages := by
  intro hp
  have h1 := h.owners_le_one q
  have h3 : (m.proc p).pages.count q + (m.proc p').pages.count q ≤
      ∑ u, (m.proc u).pages.count q := by
    rw [← Finset.add_sum_erase _ _ (Finset.mem_univ p)]
    exact Nat.add_le_add_left (Finset.single_le_sum (f := fun u => (m.proc u).pages.count q)
      (fun _ _ => Nat.zero_le _) (Finset.mem_erase.2 ⟨hne, Finset.mem_univ p'⟩)) _
  have h4 := Multiset.one_le_count_iff_mem.2 hq
  have h5 := Multiset.one_le_count_iff_mem.2 hp
  simp only [owners] at h1
  omega

lemma owners_update (hl : L t = l)
    (hproc : ∑ p, (m'.proc p).pages.count q = ∑ p, (m.proc p).pages.count q)
    (h : m'.freelist.count q + m'.pipes.count q + l'.held.count q =
      m.freelist.count q + m.pipes.count q + l.held.count q) :
    owners K m' (Function.update L t l') q = owners K m L q := by
  have hsum := sum_comp_update (fun l => l.held.count q) L t l'
  rw [hl] at hsum
  simp only [owners]
  omega

section

variable (h : Inv K m L) (hl : L t = l)

include h hl

/-- Pages go from one place to another, but not to or from a process, and the contents of some pages
change that do not belong to a process. -/
lemma Inv.move (freelist pipes : List Page) (data : Page → PageData)
    (allocs : ℕ) (held : Multiset Page)
    (hbal : ∀ q, freelist.count q + pipes.count q + held.count q =
      m.freelist.count q + m.pipes.count q + l.held.count q)
    (hdata : ∀ q, (∃ p, q ∈ (m.proc p).pages) → data q = m.data q) :
    Inv K { m with freelist := freelist, pipes := pipes, data := data, allocs := allocs }
      (Function.update L t { l with held := held }) := by
  have hme : ∀ u, (Function.update L t { l with held := held } u).me = (L u).me :=
    congrFun (comp_update_of_eq Hold.me (by rw [hl]))
  have hchild : ∀ u, (Function.update L t { l with held := held } u).child = (L u).child :=
    congrFun (comp_update_of_eq Hold.child (by rw [hl]))
  have himage : ∀ u, (Function.update L t { l with held := held } u).image = (L u).image :=
    congrFun (comp_update_of_eq Hold.image (by rw [hl]))
  refine ⟨fun q => ?_, ?_, ?_, ?_, ?_, h.settled, fun u g e hg he q hq => ?_, h.execs,
    h.fails⟩
  · rw [← h.balance q]
    exact owners_update hl rfl (hbal q)
  · simpa only [hme] using h.me
  · simpa only [hme] using h.runs
  · simpa only [hchild] using h.child
  · simpa only [hchild] using h.owner
  · rw [himage] at hg
    rw [hme] at he
    rw [← h.image u g e hg he q hq]
    exact hdata q ⟨u, by rwa [(h.me u e he).1]⟩

lemma Inv.kalloc {rest : List Page} (hfree : m.freelist = q :: rest) (x : PageData) :
    Inv K { m with freelist := rest, data := setAt m.data q x, allocs := m.allocs + 1 }
      (Function.update L t { l with held := q ::ₘ l.held }) := by
  refine h.move hl rest m.pipes _ _ _ (fun q' => ?_) fun q' hq' => setAt_of_ne _ _ ?_
  · rw [hfree, List.count_cons, Multiset.count_cons]
    by_cases hq : q' = q
    · subst hq
      simp
      omega
    · simp [hq, Ne.symm hq]
  · rintro rfl
    obtain ⟨p, hp⟩ := hq'
    exact h.free_not_mem_pages (by rw [hfree]; exact List.mem_cons_self) p hp

lemma Inv.kallocFail :
    Inv K { m with allocs := m.allocs + 1 } (Function.update L t l) := by
  subst hl
  exact h.move rfl m.freelist m.pipes m.data _ _ (fun _ => rfl) fun _ _ => rfl

lemma Inv.kfree {held : Multiset Page} (hq : l.held = q ::ₘ held) (x : PageData) :
    Inv K { m with freelist := q :: m.freelist, data := setAt m.data q x }
      (Function.update L t { l with held := held }) := by
  refine h.move hl (q :: m.freelist) m.pipes _ m.allocs _ (fun q' => ?_)
    fun q' hq' => setAt_of_ne _ _ ?_
  · rw [hq, List.count_cons, Multiset.count_cons]
    by_cases hq : q' = q
    · subst hq
      simp
      omega
    · simp [hq, Ne.symm hq]
  · rintro rfl
    obtain ⟨p, hp⟩ := hq'
    exact h.not_mem_pages (t := t) (by rw [hl, hq]; exact Multiset.mem_cons_self _ _) p hp

lemma Inv.mem_pages (hq : q ∈ l.held) : q ∈ K.pages := by
  subst hl
  exact Finset.mem_def.2 (Multiset.mem_of_le (h.held_le t) hq)

end

/-- A call may write to the pages that it holds, and to those of its process outside of `exec`. -/
def Hold.Owns (l : Hold N) (q : Page) : Prop :=
  q ∈ l.held ∨ l.image = none ∧ ∃ e, l.me = some e ∧ q ∈ e.pages

section

variable (h : Inv K m L) (hl : L t = l)

include h hl

lemma Inv.setData (hq : l.Owns q) (x : PageData) :
    Inv K (m.setData q x) L := by
  subst hl
  refine ⟨h.balance, h.me, h.runs, h.child, h.owner, h.settled, fun u g e hg he q' hq' => ?_,
    h.execs, h.fails⟩
  have hproc := (h.me u e he).1
  rw [← h.image u g e hg he q' hq']
  refine setAt_of_ne _ _ ?_
  rintro rfl
  rw [← hproc] at hq'
  rcases hq with hheld | ⟨hnone, e', he', hmem⟩
  · exact h.not_mem_pages hheld u hq'
  · by_cases hut : u = t
    · subst hut
      rw [hnone] at hg
      cases hg
    · rw [← (h.me t e' he').1] at hmem
      exact h.pages_disjoint hut hmem hq'

lemma Inv.openPipe {held : Multiset Page} (hq : l.held = q ::ₘ held) :
    Inv K { m with pipes := q :: m.pipes } (Function.update L t { l with held := held }) := by
  refine h.move hl m.freelist (q :: m.pipes) m.data m.allocs _ (fun q' => ?_) fun _ _ => rfl
  rw [hq, List.count_cons, Multiset.count_cons]
  by_cases hq : q' = q
  · subst hq
    simp
    omega
  · simp [hq, Ne.symm hq]

lemma Inv.closePipe (hq : q ∈ m.pipes) :
    Inv K { m with pipes := m.pipes.erase q }
      (Function.update L t { l with held := q ::ₘ l.held }) := by
  refine h.move hl m.freelist _ m.data m.allocs _ (fun q' => ?_) fun _ _ => rfl
  have hpos := List.one_le_count_iff.2 hq
  rw [List.count_erase, Multiset.count_cons]
  by_cases hq : q' = q
  · subst hq
    simp
    omega
  · simp [hq, Ne.symm hq]

/-! ## Entries of the process table -/

/-- An entry changes.  It is that of the process that takes the step, or of one that does not run
before or after it and with which no other call has to do. -/
lemma Inv.entry (p : Fin N) (e : Proc) (l' : Hold N)
    (hbal : ∀ q, e.pages.count q + l'.held.count q =
      (m.proc p).pages.count q + l.held.count q)
    (hp : p = t ∨ (m.proc p).state ≠ .running ∧ e.state ≠ .running)
    (hother : ∀ u e', u ≠ t → (L u).child ≠ some (p, e'))
    (hme : ∀ e', l'.me = some e' → (m.setProc p e).proc t = e' ∧ e'.state = .running)
    (hruns : ((m.setProc p e).proc t).state = .running → l'.me ≠ none)
    (hchild : ∀ p' e', l'.child = some (p', e') → (m.setProc p e).proc p' = e' ∧ e'.Taken ∧
      ∀ u e'', u ≠ t → (L u).child ≠ some (p', e''))
    (hsettled : e.Settled K)
    (himage : ∀ g e', l'.image = some g → l'.me = some e' → ∀ q ∈ e'.pages, m.data q = g q) :
    Inv K (m.setProc p e) (Function.update L t l') := by
  have hoff : ∀ u, u ≠ t → (m.setProc p e).proc u = m.proc u ∨
      u = p ∧ (m.proc u).state ≠ .running ∧ ((m.setProc p e).proc u).state ≠ .running := by
    intro u hut
    by_cases hup : u = p
    · subst hup
      rcases hp with hp | ⟨h1, h2⟩
      · exact absurd hp hut
      · refine Or.inr ⟨rfl, h1, ?_⟩
        rwa [St.setProc_self]
    · exact Or.inl (St.setProc_of_ne hup e m)
  refine ⟨fun q => ?_, fun u e' he' => ?_, fun u hu => ?_, fun u p' e' hu => ?_,
    fun u v p' e' e'' hu hv => ?_, fun p' => ?_, fun u g e' hg he' => ?_, h.execs, h.fails⟩
  · have h1 := sum_change (f := fun p' => (m.proc p').pages.count q)
      (g := fun p' => ((m.setProc p e).proc p').pages.count q) p
      fun p' hp' => by rw [St.setProc_of_ne hp']
    have h2 := sum_comp_update (fun l => l.held.count q) L t l'
    have h3 := hbal q
    rw [← h.balance q]
    simp only [owners, St.setProc_self, hl] at h1 h2 ⊢
    have hfree : (m.setProc p e).freelist = m.freelist := rfl
    have hpipes : (m.setProc p e).pipes = m.pipes := rfl
    rw [hfree, hpipes]
    omega
  · by_cases hut : u = t
    · subst hut
      rw [Function.update_self] at he'
      exact hme e' he'
    · rw [Function.update_of_ne hut] at he'
      obtain ⟨hproc, hrun⟩ := h.me u e' he'
      rcases hoff u hut with heq | ⟨-, hnot, -⟩
      · rw [heq]
        exact ⟨hproc, hrun⟩
      · rw [hproc] at hnot
        exact absurd hrun hnot
  · by_cases hut : u = t
    · subst hut
      rw [Function.update_self]
      exact hruns hu
    · rw [Function.update_of_ne hut]
      rcases hoff u hut with heq | ⟨-, -, hnot⟩
      · rw [heq] at hu
        exact h.runs u hu
      · exact absurd hu hnot
  · by_cases hut : u = t
    · subst hut
      rw [Function.update_self] at hu
      obtain ⟨h1, h2, -⟩ := hchild p' e' hu
      exact ⟨h1, h2⟩
    · rw [Function.update_of_ne hut] at hu
      have hne : p' ≠ p := by
        rintro rfl
        exact hother u e' hut hu
      rw [St.setProc_of_ne hne]
      exact h.child u p' e' hu
  · by_cases hut : u = t
    · by_cases hvt : v = t
      · rw [hut, hvt]
      · subst hut
        rw [Function.update_self] at hu
        rw [Function.update_of_ne hvt] at hv
        exact absurd hv ((hchild p' e' hu).2.2 v e'' hvt)
    · rw [Function.update_of_ne hut] at hu
      by_cases hvt : v = t
      · subst hvt
        rw [Function.update_self] at hv
        exact absurd hu ((hchild p' e'' hv).2.2 u e' hut)
      · rw [Function.update_of_ne hvt] at hv
        exact h.owner u v p' e' e'' hu hv
  · by_cases hpp : p' = p
    · subst hpp
      rw [St.setProc_self]
      exact hsettled
    · rw [St.setProc_of_ne hpp]
      exact h.settled p'
  · by_cases hut : u = t
    · subst hut
      rw [Function.update_self] at hg he'
      exact himage g e' hg he'
    · rw [Function.update_of_ne hut] at hg he'
      exact h.image u g e' hg he'

end

lemma Inv.not_child (h : Inv K m L) {p : Fin N} (hp : ¬ (m.proc p).Taken) (u : Fin N) (e : Proc) :
    (L u).child ≠ some (p, e) := by
  intro hu
  obtain ⟨hproc, htaken⟩ := h.child u p e hu
  rw [hproc] at hp
  exact hp htaken

lemma Proc.not_taken_of_running {e : Proc} (h : e.state = .running) : ¬ e.Taken := by
  rintro (h' | ⟨h', -⟩) <;> rw [h] at h' <;> cases h'

lemma Proc.not_running_of_taken {e : Proc} (h : e.Taken) : e.state ≠ .running :=
  fun h' => Proc.not_taken_of_running h' h

variable {p : Fin N} {e e0 : Proc}

section

variable (h : Inv K m L)

include h

lemma Inv.me_setProc (hp : (m.proc p).state ≠ .running) {e' : Proc} (he' : (L t).me = some e') :
    (m.setProc p e).proc t = e' ∧ e'.state = .running := by
  obtain ⟨h1, h2⟩ := h.me t e' he'
  have hne : t ≠ p := by
    rintro rfl
    exact hp (h1 ▸ h2)
  rw [St.setProc_of_ne hne]
  exact ⟨h1, h2⟩

lemma Inv.runs_setProc (he : e.state ≠ .running)
    (hrun : ((m.setProc p e).proc t).state = .running) : (L t).me ≠ none := by
  by_cases htp : t = p
  · rw [htp, St.setProc_self] at hrun
    exact absurd hrun he
  · rw [St.setProc_of_ne htp] at hrun
    exact h.runs t hrun

lemma Inv.child_setProc {p' : Fin N} {e' : Proc} (hnot : (L t).child ≠ some (p, e'))
    (hc : (L t).child = some (p', e')) : (m.setProc p e).proc p' = e' ∧ e'.Taken ∧
      ∀ u e'', u ≠ t → (L u).child ≠ some (p', e'') := by
  obtain ⟨h1, h2⟩ := h.child t p' e' hc
  have hne : p' ≠ p := by
    rintro rfl
    exact hnot hc
  rw [St.setProc_of_ne hne]
  exact ⟨h1, h2, fun u e'' hu hc' => hu (h.owner u t p' e'' e' hc' hc)⟩

variable (hl : L t = l)

include hl

lemma Inv.setMe (hme : l.me = some e0) (hrun : e.state = .running) (held : Multiset Page)
    (hbal : ∀ q, e.pages.count q + held.count q = e0.pages.count q + l.held.count q)
    (image : Option (Page → PageData))
    (himage : ∀ g, image = some g → l.image = some g ∧ ∀ q ∈ e.pages, q ∈ e0.pages) :
    Inv K (m.setProc t e)
      (Function.update L t { l with held := held, me := some e, image := image }) := by
  subst hl
  obtain ⟨hproc, hrun0⟩ := h.me t e0 hme
  have hnot := h.not_child (p := t) (by rw [hproc]; exact Proc.not_taken_of_running hrun0)
  refine h.entry rfl t e _ (fun q => by rw [hproc]; exact hbal q) (Or.inl rfl)
    (fun u e' _ => hnot u e') (fun e' he' => ?_) (fun _ => Option.some_ne_none _)
    (fun p' e' hp' => h.child_setProc (hnot t e') hp') ?_ fun g e' hg he' q hq => ?_
  · cases he'
    exact ⟨St.setProc_self t e m, hrun⟩
  · simp only [Proc.Settled, hrun]
  · cases he'
    obtain ⟨h1, h2⟩ := himage g hg
    exact h.image t g e0 h1 hme q (h2 q hq)

lemma Inv.setChild (hc : l.child = some (p, e0)) (htaken : e.Taken) (held : Multiset Page)
    (hbal : ∀ q, e.pages.count q + held.count q = e0.pages.count q + l.held.count q)
    (hsettled : e.Settled K) :
    Inv K (m.setProc p e) (Function.update L t { l with held := held, child := some (p, e) }) := by
  subst hl
  obtain ⟨hproc, htaken0⟩ := h.child t p e0 hc
  have hother : ∀ u e', u ≠ t → (L u).child ≠ some (p, e') :=
    fun u e' hu hc' => hu (h.owner u t p e' e0 hc' hc)
  have hrun : (m.proc p).state ≠ .running := by
    rw [hproc]
    exact Proc.not_running_of_taken htaken0
  refine h.entry rfl p e _ (fun q => by rw [hproc]; exact hbal q)
    (Or.inr ⟨hrun, Proc.not_running_of_taken htaken⟩) hother (fun e' he' => h.me_setProc hrun he')
    (h.runs_setProc (Proc.not_running_of_taken htaken)) (fun p' e' hp' => ?_) hsettled
    fun g e' hg he' => h.image t g e' hg he'
  cases hp'
  exact ⟨St.setProc_self p e m, htaken, hother⟩

lemma Inv.releaseChild (hc : l.child = some (p, e0))
    (hrun : e.state ≠ .running) (hpages : e.pages = e0.pages) (hsettled : e.Settled K) :
    Inv K (m.setProc p e) (Function.update L t { l with child := none }) := by
  subst hl
  obtain ⟨hproc, htaken0⟩ := h.child t p e0 hc
  have hrun0 : (m.proc p).state ≠ .running := by
    rw [hproc]
    exact Proc.not_running_of_taken htaken0
  exact h.entry rfl p e _ (fun q => by rw [hproc, hpages]) (Or.inr ⟨hrun0, hrun⟩)
    (fun u e' hu hc' => hu (h.owner u t p e' e0 hc' hc)) (fun e' he' => h.me_setProc hrun0 he')
    (h.runs_setProc hrun) (by rintro _ _ ⟨⟩) hsettled fun g e' hg he' => h.image t g e' hg he'

lemma Inv.takeChild (hfree : ¬ (m.proc p).Taken)
    (hrun : (m.proc p).state ≠ .running) (htaken : e.Taken) (hpages : e.pages = (m.proc p).pages)
    (hsettled : e.Settled K) :
    Inv K (m.setProc p e) (Function.update L t { l with child := some (p, e) }) := by
  subst hl
  have hnot := h.not_child hfree
  refine h.entry rfl p e _ (fun q => by rw [hpages])
    (Or.inr ⟨hrun, Proc.not_running_of_taken htaken⟩) (fun u e' _ => hnot u e')
    (fun e' he' => h.me_setProc hrun he') (h.runs_setProc (Proc.not_running_of_taken htaken))
    (fun p' e' hp' => ?_) hsettled fun g e' hg he' => h.image t g e' hg he'
  cases hp'
  exact ⟨St.setProc_self p e m, htaken, fun u e' _ => hnot u e'⟩

lemma Inv.start (hs : (m.proc t).state = .runnable) (himage : l.image = none) :
    Inv K (m.setProc t { m.proc t with state := .running })
      (Function.update L t { l with me := some { m.proc t with state := .running } }) := by
  subst hl
  have hnot := h.not_child (p := t) (by rintro (h' | ⟨h', -⟩) <;> rw [hs] at h' <;> cases h')
  refine h.entry rfl t _ _ (fun q => rfl) (Or.inl rfl) (fun u e' _ => hnot u e') (fun e' he' => ?_)
    (fun _ => Option.some_ne_none _) (fun p' e' hp' => h.child_setProc (hnot t e') hp') trivial
    fun g e' hg => ?_
  · cases he'
    exact ⟨St.setProc_self t _ m, rfl⟩
  · rw [himage] at hg
    cases hg

lemma Inv.exit (hme : l.me = some e0) (hchild : l.child = none)
    (hzombie : e.state = .zombie) (hpages : e.pages = e0.pages) (hok : e.Ok K) :
    Inv K (m.setProc t e) (Function.update L t { l with me := none }) := by
  subst hl
  obtain ⟨hproc, hrun0⟩ := h.me t e0 hme
  have hnot := h.not_child (p := t) (by rw [hproc]; exact Proc.not_taken_of_running hrun0)
  refine h.entry rfl t e _ (fun q => by rw [hproc, hpages]) (Or.inl rfl) (fun u e' _ => hnot u e')
    (by rintro _ ⟨⟩) (fun hrun => ?_) (fun p' e' hp' => ?_) ?_
    (by rintro _ _ _ ⟨⟩)
  · rw [St.setProc_self, hzombie] at hrun
    cases hrun
  · rw [hchild] at hp'
    cases hp'
  · simp only [Proc.Settled, hzombie]
    exact fun _ => hok

lemma Inv.setImage (image : Option (Page → PageData)) (himage : ∀ g, image = some g → g = m.data) :
    Inv K m (Function.update L t { l with image := image }) := by
  subst hl
  have hheld : ∀ u, (Function.update L t { L t with image := image } u).held = (L u).held :=
    congrFun (comp_update_of_eq Hold.held rfl)
  have hme : ∀ u, (Function.update L t { L t with image := image } u).me = (L u).me :=
    congrFun (comp_update_of_eq Hold.me rfl)
  have hchild : ∀ u, (Function.update L t { L t with image := image } u).child = (L u).child :=
    congrFun (comp_update_of_eq Hold.child rfl)
  refine ⟨?_, ?_, ?_, ?_, ?_, h.settled, fun u g e hg he q hq => ?_, h.execs,
    h.fails⟩
  · simpa only [owners, hheld] using h.balance
  · simpa only [hme] using h.me
  · simpa only [hme] using h.runs
  · simpa only [hchild] using h.child
  · simpa only [hchild] using h.owner
  · rw [hme] at he
    by_cases hut : u = t
    · subst hut
      rw [Function.update_self] at hg
      rw [himage g hg]
    · rw [Function.update_of_ne hut] at hg
      exact h.image u g e hg he q hq

end

lemma Inv.note (h : Inv K m L) {r : ExecRecord} (hr : r.Good K) :
    Inv K { m with execs := r :: m.execs } L := by
  refine ⟨h.balance, h.me, h.runs, h.child, h.owner, h.settled, h.image, fun r' hr' => ?_, h.fails⟩
  rcases List.mem_cons.1 hr' with rfl | hmem
  · exact hr
  · exact h.execs r' hmem

lemma Inv.noteFail (h : Inv K m L) {before : Proc} (hr : (m.proc t).dataPages = before.dataPages) :
    Inv K (m.noteFail t before) L := by
  refine ⟨h.balance, h.me, h.runs, h.child, h.owner, h.settled, h.image, h.execs, fun r' hr' => ?_⟩
  rcases List.mem_cons.1 hr' with rfl | hmem
  · exact hr
  · exact h.fails r' hmem

end

end Xv6.Vm
