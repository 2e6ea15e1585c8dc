import Xv6.Framework.Prog
import Mathlib.Data.List.Basic
import Mathlib.Data.List.Nodup

/-!
# Linked rings

Cells are linked by a function `next`.  `Path next a l e` says that following the links from `a`
visits the cells of the list `l` and arrives at `e`; a ring is a path that arrives where it
starts.  A path is described by a list, so it is cut and joined as lists are, and it only depends
on the links of its own cells.

`search` follows the links until a cell satisfies a condition.  In a ring that has such a cell it
ends within one round, wherever it starts.

In a doubly linked ring the links `prev` visit the same cells backwards.  So each of its facts is
one about paths, used once in each direction: a cell is taken out by redirecting the links of its
two neighbours (`Ring.unlink`), and put in after a fixed cell by four assignments
(`Ring.pushFront`), whatever the links alias.  A loop that follows the links until it is back at
the fixed cell finds the first cell of the list with a given property (`Ring.scan`).
-/

namespace Concur

variable {α : Type}

/-- Following `next` from `a` visits the cells `l` and arrives at `e`. -/
def Path (next : α → α) : α → List α → α → Prop
  | a, [], e => a = e
  | a, x :: l, e => a = x ∧ Path next (next x) l e

namespace Path

variable {next : α → α} {a e : α} {l l1 l2 : List α}

lemma append_iff : Path next a (l1 ++ l2) e ↔ ∃ m, Path next a l1 m ∧ Path next m l2 e := by
  induction l1 generalizing a with
  | nil =>
    refine ⟨fun h => ⟨a, rfl, h⟩, ?_⟩
    rintro ⟨m, hm, h⟩
    rwa [show a = m from hm]
  | cons x l ih =>
    rw [List.cons_append, Path, ih]
    constructor
    · rintro ⟨h, m, h1, h2⟩
      exact ⟨m, ⟨h, h1⟩, h2⟩
    · rintro ⟨m, ⟨h, h1⟩, h2⟩
      exact ⟨h, m, h1, h2⟩

lemma append_cons_iff {x : α} :
    Path next a (l1 ++ x :: l2) e ↔ Path next a l1 x ∧ Path next x (x :: l2) e := by
  rw [append_iff]
  constructor
  · rintro ⟨m, h1, rfl, h2⟩
    exact ⟨h1, rfl, h2⟩
  · rintro ⟨h1, h2⟩
    exact ⟨x, h1, h2⟩

lemma congr {next' : α → α} (h : Path next a l e) (hn : ∀ x ∈ l, next' x = next x) :
    Path next' a l e := by
  induction l generalizing a with
  | nil => exact h
  | cons x l ih =>
    refine ⟨h.1, ?_⟩
    rw [hn x List.mem_cons_self]
    exact ih h.2 fun y hy => hn y (List.mem_cons_of_mem x hy)

lemma map_next {x : α} (h : Path next a (x :: l) e) : (x :: l).map next = l ++ [e] := by
  induction l generalizing a x with
  | nil =>
    have he : next x = e := h.2
    simp [he]
  | cons y l ih =>
    have hy : next x = y := h.2.1
    rw [List.map_cons, ih h.2, hy, List.cons_append]

lemma rotate {x : α} (h : Path next a (l1 ++ x :: l2) a) :
    Path next (next x) (l2 ++ l1) x := by
  obtain ⟨m, h1, hx, h2⟩ := append_iff.1 h
  rw [hx] at h1
  exact append_iff.2 ⟨a, h2, h1⟩

lemma next_mem {x : α} (h : Path next a l a) (hx : x ∈ l) : next x ∈ l := by
  cases l with
  | nil => cases hx
  | cons y l =>
    have hmem : next x ∈ (y :: l).map next := List.mem_map_of_mem hx
    rw [h.map_next, h.1] at hmem
    simpa [or_comm] using hmem

lemma next_inj {x y : α} (h : Path next a l a) (hl : l.Nodup) (hx : x ∈ l) (hy : y ∈ l)
    (heq : next x = next y) : x = y := by
  cases l with
  | nil => cases hx
  | cons z l =>
    refine List.inj_on_of_nodup_map ?_ hx hy heq
    rw [h.map_next, h.1]
    exact (List.perm_append_singleton z l).nodup_iff.2 hl

section Redirect

variable [DecidableEq α] {x z : α}

lemma redirect (h : Path next a (l ++ [z]) e) (hz : z ∉ l) (e' : α) :
    Path (setAt next z e') a (l ++ [z]) e' := by
  obtain ⟨h1, -⟩ := append_cons_iff.1 h
  refine append_cons_iff.2 ⟨h1.congr fun y hy => ?_, rfl, setAt_self _ _ _⟩
  exact setAt_of_ne _ _ fun he => hz (he ▸ hy)

/-- The cell `x` is left out when the link of the cell before it is redirected to the one after
it. -/
lemma bypass (h1 : Path next a (l1 ++ [z]) x) (h2 : Path next x (x :: l2) e) (hz1 : z ∉ l1)
    (hz2 : z ∉ l2) : Path (setAt next z (next x)) a (l1 ++ [z] ++ l2) e := by
  refine append_iff.2 ⟨next x, h1.redirect hz1 _, h2.2.congr fun y hy => ?_⟩
  exact setAt_of_ne _ _ fun he => hz2 (he ▸ hy)

end Redirect

end Path

/-! ## Searching -/

/-- Follow the links from `a` until a cell satisfies `stop`, for `fuel` cells at most. -/
def search (next : α → α) (stop : α → Bool) : ℕ → α → Option α
  | 0, _ => none
  | fuel + 1, a => if stop a then some a else search next stop fuel (next a)

variable {next : α → α} {stop : α → Bool}

lemma search_eq_some {P : α → Prop} (hP : ∀ x, P x → P (next x)) {fuel : ℕ} {a r : α}
    (ha : P a) (h : search next stop fuel a = some r) : P r ∧ stop r = true := by
  induction fuel generalizing a with
  | zero => cases h
  | succ fuel ih =>
    rw [search] at h
    split at h
    · cases h
      exact ⟨ha, ‹_›⟩
    · exact ih (hP a ha) h

lemma search_mono {fuel fuel' : ℕ} (hle : fuel ≤ fuel') {a r : α}
    (h : search next stop fuel a = some r) : search next stop fuel' a = some r := by
  induction fuel generalizing a fuel' with
  | zero => cases h
  | succ fuel ih =>
    obtain ⟨fuel', rfl⟩ : ∃ f, fuel' = f + 1 := ⟨fuel' - 1, by omega⟩
    rw [search] at h ⊢
    split at h
    · rwa [if_pos ‹_›]
    · rw [if_neg ‹_›]
      exact ih (by omega) h

lemma search_isSome {l : List α} {a e : α} (h : Path next a l e) (hx : ∃ x ∈ l, stop x = true)
    {fuel : ℕ} (hfuel : l.length ≤ fuel) : (search next stop fuel a).isSome = true := by
  induction l generalizing a fuel with
  | nil =>
    obtain ⟨x, hx, -⟩ := hx
    cases hx
  | cons y l ih =>
    obtain ⟨fuel, rfl⟩ : ∃ f, fuel = f + 1 := ⟨fuel - 1, by simp at hfuel; omega⟩
    obtain ⟨rfl, hpath⟩ := h
    rw [search]
    by_cases hstop : stop a = true
    · rw [if_pos hstop]
      rfl
    · rw [if_neg hstop]
      obtain ⟨x, hmem, hsx⟩ := hx
      refine ih hpath ⟨x, ?_, hsx⟩ (by simpa using hfuel)
      rcases List.mem_cons.1 hmem with rfl | hmem
      · exact absurd hsx hstop
      · exact hmem

lemma search_ring {l : List α} {a x : α} (h : Path next a l a) (hx : x ∈ l)
    (hstop : ∃ y ∈ l, stop y = true) {fuel : ℕ} (hfuel : l.length ≤ fuel) :
    ∃ r ∈ l, stop r = true ∧ search next stop fuel x = some r := by
  obtain ⟨l1, l2, rfl⟩ := List.append_of_mem hx
  obtain ⟨y, hy, hsy⟩ := hstop
  have hround : Path next x (x :: (l2 ++ l1)) x := ⟨rfl, h.rotate⟩
  have hsome : (search next stop fuel x).isSome = true := by
    refine search_isSome hround ⟨y, ?_, hsy⟩ ?_
    · simp only [List.mem_cons, List.mem_append] at hy ⊢
      tauto
    · simp only [List.length_cons, List.length_append] at hfuel ⊢
      omega
  obtain ⟨r, hr⟩ := Option.isSome_iff_exists.1 hsome
  obtain ⟨hmem, hsr⟩ := search_eq_some (P := (· ∈ l1 ++ x :: l2)) (fun _ => h.next_mem) hx hr
  exact ⟨r, hmem, hsr, hr⟩

/-! ## Doubly linked rings -/

/-- The two links of each cell. -/
structure Links (α : Type) where
  next : α → α
  prev : α → α

namespace Links

/-- The links with the directions exchanged. -/
def flip (k : Links α) : Links α := ⟨k.prev, k.next⟩

/-- The cells from `a` to `b`, both left out, are those of the list, and backwards the same. -/
structure Path (k : Links α) (a : α) (l : List α) (b : α) : Prop where
  next : Concur.Path k.next a (a :: l) b
  prev : Concur.Path k.prev b (b :: l.reverse) a

/-- The cells of the ring through `h` are `h` and those of the list. -/
structure Ring (k : Links α) (h : α) (l : List α) : Prop where
  path : k.Path h l h
  nodup : (h :: l).Nodup

variable {k : Links α} {a b h x : α} {l r : List α}

lemma Path.flip (hp : k.Path a l b) : k.flip.Path b l.reverse a where
  next := hp.prev
  prev := by
    rw [List.reverse_reverse]
    exact hp.next

lemma path_append : k.Path a (l ++ x :: r) b ↔ k.Path a l x ∧ k.Path x r b := by
  have hrev : b :: (l ++ x :: r).reverse = b :: r.reverse ++ x :: l.reverse := by simp
  constructor
  · rintro ⟨hnext, hprev⟩
    rw [← List.cons_append, Concur.Path.append_cons_iff] at hnext
    rw [hrev, Concur.Path.append_cons_iff] at hprev
    exact ⟨⟨hnext.1, hprev.2⟩, hnext.2, hprev.1⟩
  · rintro ⟨h1, h2⟩
    refine ⟨?_, ?_⟩
    · rw [← List.cons_append, Concur.Path.append_cons_iff]
      exact ⟨h1.next, h2.next⟩
    · rw [hrev]
      exact Concur.Path.append_cons_iff.2 ⟨h2.prev, h1.prev⟩

lemma Path.exists_last (hp : k.Path a l b) : ∃ r, b :: l.reverse = r ++ [k.next a] := by
  have hmap := hp.next.map_next
  rw [List.map_cons] at hmap
  refine ⟨(l.map k.next).reverse, ?_⟩
  rw [← List.reverse_cons, hmap]
  simp

lemma Ring.flip (hr : k.Ring h l) : k.flip.Ring h l.reverse where
  path := hr.path.flip
  nodup := by
    have := hr.nodup
    rw [List.nodup_cons] at this ⊢
    simpa using this

variable [DecidableEq α]

/-- `for(b = …; b != h; b = f(b)) if(p(b)) return b;`, for at most so many rounds: the cell that is
found, if any; `none` if the loop has not ended by then. -/
def scan (f : α → α) (h : α) (p : α → Bool) : ℕ → α → Option (Option α)
  | 0, _ => none
  | fuel + 1, b =>
    if b = h then some none else if p b then some (some b) else scan f h p fuel (f b)

lemma scan_path {f : α → α} (hp : Concur.Path f a l h) (hh : h ∉ l) (p : α → Bool) {fuel : ℕ}
    (hfuel : l.length < fuel) : scan f h p fuel a = some (l.find? p) := by
  obtain ⟨n, rfl⟩ : ∃ n, fuel = n + 1 := ⟨fuel - 1, by omega⟩
  induction l generalizing a n with
  | nil =>
    have ha : a = h := hp
    rw [scan, if_pos ha]
    rfl
  | cons y l ih =>
    obtain ⟨rfl, hp⟩ := hp
    rw [List.mem_cons, not_or] at hh
    rw [List.length_cons] at hfuel
    rw [scan, if_neg (Ne.symm hh.1)]
    by_cases hpy : p a = true
    · rw [if_pos hpy, List.find?_cons_of_pos hpy]
    · rw [if_neg hpy, List.find?_cons_of_neg hpy]
      obtain ⟨m, rfl⟩ : ∃ m, n = m + 1 := ⟨n - 1, by omega⟩
      exact ih hp hh.2 m (by omega)

lemma Ring.scan (hr : k.Ring h l) (p : α → Bool) {fuel : ℕ} (hfuel : l.length < fuel) :
    Links.scan k.next h p fuel (k.next h) = some (l.find? p) :=
  scan_path hr.path.next.2 (List.nodup_cons.1 hr.nodup).1 p hfuel

lemma Ring.scanBack (hr : k.Ring h l) (p : α → Bool) {fuel : ℕ} (hfuel : l.length < fuel) :
    Links.scan k.prev h p fuel (k.prev h) = some (l.reverse.find? p) :=
  hr.flip.scan p (by rwa [List.length_reverse])

/-! ### Taking a cell out and putting it in front -/

/-- `a->next = b` -/
def setNext (k : Links α) (a b : α) : Links α := { k with next := setAt k.next a b }

/-- `a->prev = b` -/
def setPrev (k : Links α) (a b : α) : Links α := { k with prev := setAt k.prev a b }

/-- `x->next->prev = x->prev; x->prev->next = x->next;` -/
def unlink (k : Links α) (x : α) : Links α :=
  let k := k.setPrev (k.next x) (k.prev x)
  k.setNext (k.prev x) (k.next x)

/-- `x->next = h->next; x->prev = h; h->next->prev = x; h->next = x;` -/
def pushFront (k : Links α) (h x : α) : Links α :=
  let k := k.setNext x (k.next h)
  let k := k.setPrev x h
  let k := k.setPrev (k.next h) x
  k.setNext h x

lemma bypass {f : α → α} {pre : List α} {z : α} (hpre : Concur.Path f h (h :: l) x)
    (hpost : Concur.Path f x (x :: r) h) (hlast : h :: l = pre ++ [z])
    (hnd : (h :: (l ++ r)).Nodup) :
    Concur.Path (setAt f z (f x)) h (h :: (l ++ r)) h := by
  rw [← List.cons_append, hlast] at hnd ⊢
  rw [hlast] at hpre
  obtain ⟨h1, -, hdisj⟩ := List.nodup_append.1 hnd
  have h2 := (List.nodup_append.1 h1).2.2
  refine hpre.bypass hpost (fun hz => h2 z hz z (by simp) rfl) fun hz => ?_
  exact hdisj z (by simp) z hz rfl

lemma Ring.unlink (hr : k.Ring h (l ++ x :: r)) : (k.unlink x).Ring h (l ++ r) := by
  obtain ⟨hpath, hnd⟩ := hr
  obtain ⟨hpre, hpost⟩ := path_append.1 hpath
  have hsub : (h :: (l ++ r)).Sublist (h :: (l ++ x :: r)) :=
    ((List.Sublist.refl l).append (List.sublist_cons_self x r)).cons_cons h
  have hnd' := hnd.sublist hsub
  have hrev : (h :: (r.reverse ++ l.reverse)).Nodup := by
    rw [← List.reverse_append, List.nodup_cons, List.mem_reverse, List.nodup_reverse]
    exact List.nodup_cons.1 hnd'
  obtain ⟨post, hfirst⟩ := hpost.exists_last
  obtain ⟨pre, hlast⟩ := hpre.flip.exists_last
  rw [List.reverse_reverse] at hlast
  -- `x` is not its own neighbour
  have hxn : x ≠ k.next x := by
    intro he
    have hx : k.next x ∈ h :: r.reverse := by simp [hfirst]
    rw [← he, List.mem_cons, List.mem_reverse] at hx
    rw [List.nodup_cons, List.nodup_append, List.nodup_cons] at hnd
    rcases hx with rfl | hx
    · exact hnd.1 (by simp)
    · exact hnd.2.2.1.1 hx
  refine ⟨⟨?_, ?_⟩, hnd'⟩
  · simp only [Links.unlink, setNext, setPrev]
    rw [setAt_of_ne _ _ hxn]
    exact bypass hpre.next hpost.next hlast hnd'
  · rw [List.reverse_append]
    exact bypass hpost.prev hpre.prev hfirst hrev

lemma Ring.pushFront (hr : k.Ring h l) (hx : x ∉ h :: l) : (k.pushFront h x).Ring h (x :: l) := by
  obtain ⟨hpath, hnd⟩ := hr
  obtain ⟨post, hfirst⟩ := hpath.exists_last
  have hx' : x ∉ h :: l.reverse := by simpa using hx
  rw [List.mem_cons, not_or] at hx
  have hnx : x ≠ k.next h := by
    intro he
    rw [hfirst, ← he] at hx'
    exact hx' (by simp)
  refine ⟨⟨⟨rfl, ?_⟩, ?_⟩, ?_⟩
  · simp only [Links.pushFront, setNext, setPrev, setAt_self]
    refine ⟨rfl, ?_⟩
    rw [setAt_of_ne _ _ hx.1, setAt_self]
    refine hpath.next.2.congr fun y hy => ?_
    rw [setAt_of_ne, setAt_of_ne]
    · rintro rfl
      exact hx.2 hy
    · rintro rfl
      exact (List.nodup_cons.1 hnd).1 hy
  · have hprev : (k.pushFront h x).prev = setAt (setAt k.prev x h) (k.next h) x := by
      simp only [Links.pushFront, setNext, setPrev]
      rw [setAt_of_ne _ _ (Ne.symm hx.1)]
    have hpost : k.next h ∉ post := by
      have hnd' : (h :: l.reverse).Nodup := by simpa [List.nodup_cons] using hnd
      rw [hfirst, List.nodup_append] at hnd'
      exact fun hm => hnd'.2.2 _ hm _ (by simp) rfl
    rw [hprev, List.reverse_cons, ← List.cons_append, Concur.Path.append_cons_iff, hfirst]
    refine ⟨Concur.Path.redirect (e := h) ?_ hpost x, rfl, ?_⟩
    · rw [← hfirst]
      exact hpath.prev.congr fun y hy => setAt_of_ne _ _ fun he => hx' (he ▸ hy)
    · rw [setAt_of_ne _ _ hnx, setAt_self]
      rfl
  · rw [List.nodup_cons, List.nodup_cons, List.mem_cons, not_or]
    rw [List.nodup_cons] at hnd
    exact ⟨⟨Ne.symm hx.1, hnd.1⟩, hx.2, hnd.2⟩

end Links

end Concur
