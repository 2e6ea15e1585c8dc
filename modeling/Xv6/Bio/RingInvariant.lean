import Xv6.Framework.Logic
import Xv6.Bio.Cache
import Xv6.Bio.Ring
import Mathlib.Algebra.BigOperators.Fin
import Mathlib.Algebra.Order.BigOperators.Group.Finset
import Mathlib.Data.List.Sort

/-!
# The structure of the buffer cache

In every state that disciplined clients of `Bio/Ring.lean` reach, the pointers form a ring through
`bcache.head` with all buffers on it, ordered by the time of their last release (`Ordered`), no
block is in two buffers, and every reference count is accounted for (`users`).  So `bget` finds the
buffer of a block if there is one, and otherwise takes the unused buffer whose last release is
oldest.

A release is a `brelse` that leaves a reference count of 0.  A `bunpin` that does so is none: it
does not move the buffer.

The sections do to the ring what those of `Bio/Cache.lean` do to its list (`ring_refines_list`).
-/

namespace Xv6.BufRing

open Concur

variable {N : ℕ} {s s' : St N} {t : Fin N} {i : Fin NBUF}

/-! ## The ring -/

/-- The ring has the buffers of the list, each once, the ones released last first. -/
structure Ordered (s : St N) (l : List (Fin NBUF)) : Prop where
  ring : s.links.Ring .head (l.map .buf)
  nodup : l.Nodup
  all : ∀ i, i ∈ l
  sorted : l.Pairwise fun i j => s.released j < s.released i
  past : ∀ i, s.released i < s.clock

lemma buf_injective : Function.Injective Node.buf := fun _ _ h => Node.buf.inj h

lemma Ordered.congr {l : List (Fin NBUF)} (h : Ordered s l) (hlinks : s'.links = s.links)
    (hreleased : s'.released = s.released) (hclock : s'.clock = s.clock) : Ordered s' l where
  ring := hlinks ▸ h.ring
  nodup := h.nodup
  all := h.all
  sorted := hreleased ▸ h.sorted
  past i := by
    rw [hreleased, hclock]
    exact h.past i

lemma Ordered.length {l : List (Fin NBUF)} (h : Ordered s l) : l.length = NBUF := by
  have hperm : l.toFinset = Finset.univ :=
    Finset.eq_univ_iff_forall.2 fun i => by simpa using h.all i
  rw [← List.toFinset_card_of_nodup h.nodup, hperm, Finset.card_univ, Fintype.card_fin]

lemma Ordered.release {l : List (Fin NBUF)} (h : Ordered s l) (i : Fin NBUF)
    (hlinks : s'.links = (s.links.unlink (.buf i)).pushFront .head (.buf i))
    (hreleased : s'.released = setAt s.released i s.clock) (hclock : s'.clock = s.clock + 1) :
    Ordered s' (i :: l.erase i) := by
  obtain ⟨l1, l2, hnot, rfl, herase⟩ := List.exists_erase_eq (h.all i)
  have hring := h.ring
  rw [List.map_append, List.map_cons] at hring
  have hne : ∀ j ∈ l1 ++ l2, j ≠ i := by
    rintro j hj rfl
    have := h.nodup
    rw [List.nodup_append, List.nodup_cons] at this
    rcases List.mem_append.1 hj with hj | hj
    · exact hnot hj
    · exact this.2.1.1 hj
  have hsub : (l1 ++ l2).Sublist (l1 ++ i :: l2) :=
    (List.Sublist.refl l1).append (List.sublist_cons_self i l2)
  rw [herase]
  refine ⟨?_, ?_, fun j => ?_, ?_, fun j => ?_⟩
  · rw [hlinks, List.map_cons, List.map_append]
    refine hring.unlink.pushFront ?_
    rw [← List.map_append, List.mem_cons, not_or]
    refine ⟨by rintro ⟨⟩, fun hm => ?_⟩
    obtain ⟨j, hj, hji⟩ := List.mem_map.1 hm
    exact hne j hj (Node.buf.inj hji)
  · exact List.nodup_cons.2 ⟨fun hm => hne i hm rfl, h.nodup.sublist hsub⟩
  · have := h.all j
    simp only [List.mem_append, List.mem_cons] at this ⊢
    tauto
  · refine List.pairwise_cons.2 ⟨fun j hj => ?_, ?_⟩
    · rw [hreleased, setAt_self, setAt_of_ne _ _ (hne j hj)]
      exact h.past j
    · refine (h.sorted.sublist hsub).imp_of_mem fun ha hb hab => ?_
      rwa [hreleased, setAt_of_ne _ _ (hne _ ha), setAt_of_ne _ _ (hne _ hb)]
  · rw [hreleased, hclock]
    by_cases hj : j = i
    · rw [hj, setAt_self]
      omega
    · rw [setAt_of_ne _ _ hj]
      have := h.past j
      omega

lemma find?_test (l : List (Fin NBUF)) (p : Buf N → Bool) :
    (l.map Node.buf).find? (s.test p) = (l.find? fun i => p (s.buf i)).map .buf := by
  rw [List.find?_map]
  rfl

lemma Ordered.findCached {l : List (Fin NBUF)} (h : Ordered s l) (dev b : ℕ) :
    s.findCached dev b =
      some ((l.find? fun i => (s.buf i).dev = dev ∧ (s.buf i).blockno = b).map .buf) := by
  rw [St.findCached, h.ring.scan _ (by rw [List.length_map, h.length]; omega), find?_test]

lemma Ordered.findUnused {l : List (Fin NBUF)} (h : Ordered s l) :
    s.findUnused = some ((l.reverse.find? fun i => (s.buf i).refcnt = 0).map .buf) := by
  rw [St.findUnused, h.ring.scanBack _ (by rw [List.length_map, h.length]; omega),
    ← List.map_reverse, find?_test]

lemma Ordered.oldest {l : List (Fin NBUF)} (h : Ordered s l) {p : Fin NBUF → Bool}
    (hi : l.reverse.find? p = some i) {j : Fin NBUF} (hj : p j = true) (hne : j ≠ i) :
    s.released i < s.released j := by
  obtain ⟨-, l1, l2, hl, hbefore⟩ := List.find?_eq_some_iff_append.1 hi
  have hmem : j ∈ l.reverse := List.mem_reverse.2 (h.all j)
  have hsorted : l.reverse.Pairwise fun i j => s.released i < s.released j :=
    List.pairwise_reverse.2 h.sorted
  rw [hl] at hmem hsorted
  rcases List.mem_append.1 hmem with hm | hm
  · have := hbefore j hm
    rw [hj] at this
    cases this
  · rcases List.mem_cons.1 hm with rfl | hm
    · exact absurd rfl hne
    · exact (List.pairwise_cons.1 (List.pairwise_append.1 hsorted).2.1).1 j hm

/-! ## Reference counts -/

/-- 1 if a client is at the buffer `i`, else 0. -/
def at1 (w : Option (Fin NBUF)) (i : Fin NBUF) : ℕ := if w = some i then 1 else 0

@[simp]
lemma at1_none : at1 none i = 0 := rfl

@[simp]
lemma at1_self : at1 (some i) i = 1 := if_pos rfl

lemma at1_of_ne {j : Fin NBUF} (h : j ≠ i) : at1 (some i) j = 0 :=
  if_neg fun e => h (Option.some.inj e).symm

/-- How many clients are at the buffer `i`. -/
def count (w : Fin N → Option (Fin NBUF)) (i : Fin NBUF) : ℕ := ∑ t, at1 (w t) i

lemma count_setAt (w : Fin N → Option (Fin NBUF)) (t : Fin N) (x : Option (Fin NBUF))
    (i : Fin NBUF) : count (setAt w t x) i + at1 (w t) i = count w i + at1 x i := by
  have h := sum_change (f := fun u => at1 (w u) i) (g := fun u => at1 (setAt w t x u) i) t
    fun u hu => by rw [setAt_of_ne _ _ hu]
  rwa [setAt_self] at h

lemma count_pos {w : Fin N → Option (Fin NBUF)} (h : w t = some i) : 0 < count w i := by
  have hle := Finset.single_le_sum (f := fun u => at1 (w u) i) (fun _ _ => Nat.zero_le _)
    (Finset.mem_univ t)
  simp only [h, at1_self] at hle
  exact hle

/-- The number of holders of the sleep lock. -/
def Buf.holders (x : Buf N) : ℕ := if x.lock.isSome then 1 else 0

/-- The number of clients that hold the buffer or wait for it; one that is in `brelse` counts until
the reference count is decreased. -/
def users (s : St N) (i : Fin NBUF) : ℕ :=
  (s.buf i).holders + count s.waiting i + count s.leaving i

/-- The invariant; the ghost of a client is the buffer that it waits for and the one that it
leaves. -/
structure Inv (s : St N) (L : Fin N → Option (Fin NBUF) × Option (Fin NBUF)) : Prop where
  ordered : ∃ l, Ordered s l
  unique : ∀ i j, (s.buf i).dev ≠ 0 → (s.buf i).dev = (s.buf j).dev →
    (s.buf i).blockno = (s.buf j).blockno → i = j
  refcnt : ∀ i, ((s.buf i).refcnt : ℤ) = users s i + s.pins i
  waiting : ∀ t, s.waiting t = (L t).1
  leaving : ∀ t, s.leaving t = (L t).2

def rules (N : ℕ) : Rules Panic (St N) (Fin N) (Option (Fin NBUF) × Option (Fin NBUF)) where
  inv s L := Inv s L ∧ ∀ i, 0 ≤ s.pins i
  guarantee := Matched
  excluded _ _ := False

/-! ## Steps -/

section

variable {L : Fin N → Option (Fin NBUF) × Option (Fin NBUF)} {w v w' v' : Option (Fin NBUF)}

lemma Inv.waiting_eq (h : Inv s L) (hl : L t = (w, v)) : s.waiting = setAt s.waiting t w := by
  have hw : s.waiting t = w := by rw [h.waiting t, hl]
  rw [← hw, setAt_eq_self]

lemma Inv.leaving_eq (h : Inv s L) (hl : L t = (w, v)) : s.leaving = setAt s.leaving t v := by
  have hv : s.leaving t = v := by rw [h.leaving t, hl]
  rw [← hv, setAt_eq_self]

lemma Inv.of_step (h : Inv s L) (hl : L t = (w, v)) (hw : s'.waiting = setAt s.waiting t w')
    (hv : s'.leaving = setAt s.leaving t v') (hordered : ∃ l, Ordered s' l)
    (hunique : ∀ i j, (s'.buf i).dev ≠ 0 → (s'.buf i).dev = (s'.buf j).dev →
      (s'.buf i).blockno = (s'.buf j).blockno → i = j)
    (hcount : ∀ j, ((s'.buf j).refcnt : ℤ) + (s.buf j).holders + at1 w j + at1 v j + s.pins j =
      (s.buf j).refcnt + (s'.buf j).holders + at1 w' j + at1 v' j + s'.pins j) :
    Inv s' (Function.update L t (w', v')) where
  ordered := hordered
  unique := hunique
  refcnt j := by
    have h1 := count_setAt s.waiting t w' j
    have h2 := count_setAt s.leaving t v' j
    have h3 := hcount j
    have h4 := h.refcnt j
    have hwt : s.waiting t = w := by rw [h.waiting t, hl]
    have hvt : s.leaving t = v := by rw [h.leaving t, hl]
    rw [hwt] at h1
    rw [hvt] at h2
    unfold users at h4 ⊢
    rw [hw, hv]
    push_cast at h4 ⊢
    omega
  waiting u := by
    rw [hw]
    by_cases hu : u = t
    · rw [hu, setAt_self, Function.update_self]
    · rw [setAt_of_ne _ _ hu, Function.update_of_ne hu]
      exact h.waiting u
  leaving u := by
    rw [hv]
    by_cases hu : u = t
    · rw [hu, setAt_self, Function.update_self]
    · rw [setAt_of_ne _ _ hu, Function.update_of_ne hu]
      exact h.leaving u

lemma Inv.of_setBuf (h : Inv s L) (hl : L t = (w, v)) {x : Buf N} (hbuf : s'.buf = setAt s.buf i x)
    (hdev : x.dev = (s.buf i).dev) (hblockno : x.blockno = (s.buf i).blockno)
    (hw : s'.waiting = setAt s.waiting t w') (hv : s'.leaving = setAt s.leaving t v')
    (hordered : ∃ l, Ordered s' l) (hpins : ∀ j, j ≠ i → s'.pins j = s.pins j)
    (hother : ∀ j, j ≠ i → at1 w j = at1 w' j ∧ at1 v j = at1 v' j)
    (hcount : (x.refcnt : ℤ) + (s.buf i).holders + at1 w i + at1 v i + s.pins i =
      (s.buf i).refcnt + x.holders + at1 w' i + at1 v' i + s'.pins i) :
    Inv s' (Function.update L t (w', v')) := by
  have hdevs : ∀ j, (s'.buf j).dev = (s.buf j).dev ∧ (s'.buf j).blockno = (s.buf j).blockno := by
    intro j
    rw [hbuf]
    by_cases hj : j = i
    · subst hj
      rw [setAt_self]
      exact ⟨hdev, hblockno⟩
    · rw [setAt_of_ne _ _ hj]
      exact ⟨rfl, rfl⟩
  refine h.of_step hl hw hv hordered (fun j k hne hd hb => ?_) fun j => ?_
  · rw [(hdevs j).1] at hne hd
    rw [(hdevs k).1] at hd
    rw [(hdevs j).2, (hdevs k).2] at hb
    exact h.unique j k hne hd hb
  · by_cases hj : j = i
    · subst hj
      rw [hbuf, setAt_self]
      exact hcount
    · obtain ⟨hwj, hvj⟩ := hother j hj
      rw [hbuf, setAt_of_ne _ _ hj, hpins j hj, hwj, hvj]

lemma Inv.hit (h : Inv s L) (hl : L t = (none, none)) (i : Fin NBUF) :
    Inv { s.setBuf i { s.buf i with refcnt := (s.buf i).refcnt + 1 } with
      waiting := setAt s.waiting t (some i) } (Function.update L t (some i, none)) := by
  obtain ⟨l, hord⟩ := h.ordered
  refine h.of_setBuf hl rfl rfl rfl rfl (h.leaving_eq hl) ⟨l, hord.congr rfl rfl rfl⟩
    (fun _ _ => rfl) (fun j hj => ⟨(at1_of_ne hj).symm, rfl⟩) ?_
  simp only [at1_none, at1_self, Buf.holders, St.setBuf]
  push_cast
  omega

lemma Inv.recycle (h : Inv s L) (hl : L t = (none, none)) {dev b : ℕ} (h0 : (s.buf i).refcnt = 0)
    (hnone : ∀ j, ¬ ((s.buf j).dev = dev ∧ (s.buf j).blockno = b)) :
    Inv { s.setBuf i { s.buf i with dev := dev, blockno := b, valid := false, refcnt := 1 } with
      waiting := setAt s.waiting t (some i) } (Function.update L t (some i, none)) := by
  obtain ⟨l, hord⟩ := h.ordered
  refine h.of_step hl rfl (h.leaving_eq hl) ⟨l, hord.congr rfl rfl rfl⟩
    (fun j k hne hd hb => ?_) fun j => ?_
  · simp only [St.setBuf] at hne hd hb
    by_cases hj : j = i <;> by_cases hk : k = i
    · rw [hj, hk]
    · subst hj
      rw [setAt_self, setAt_of_ne _ _ hk] at hd hb
      exact absurd ⟨hd.symm, hb.symm⟩ (hnone k)
    · subst hk
      rw [setAt_self, setAt_of_ne _ _ hj] at hd hb
      exact absurd ⟨hd, hb⟩ (hnone j)
    · rw [setAt_of_ne _ _ hj] at hne hd hb
      rw [setAt_of_ne _ _ hk] at hd hb
      exact h.unique j k hne hd hb
  · simp only [St.setBuf]
    by_cases hj : j = i
    · subst hj
      simp only [setAt_self, h0, at1_none, at1_self, Buf.holders]
      push_cast
      omega
    · rw [setAt_of_ne _ _ hj, at1_of_ne hj]
      simp only [at1_none]

lemma Inv.acquire (h : Inv s L) (hl : L t = (some i, none)) (hlock : (s.buf i).lock = none) :
    Inv { s.setBuf i { s.buf i with lock := some t } with waiting := setAt s.waiting t none }
      (Function.update L t (none, none)) := by
  obtain ⟨l, hord⟩ := h.ordered
  refine h.of_setBuf hl rfl rfl rfl rfl (h.leaving_eq hl) ⟨l, hord.congr rfl rfl rfl⟩
    (fun _ _ => rfl) (fun j hj => ⟨at1_of_ne hj, rfl⟩) ?_
  simp only [hlock, at1_none, at1_self, Buf.holders, St.setBuf, Option.isSome_none,
    Option.isSome_some, Bool.false_eq_true, if_false, if_true]
  push_cast
  omega

lemma Inv.release (h : Inv s L) (hl : L t = (none, none)) (hlock : (s.buf i).lock = some t) :
    Inv { s.setBuf i { s.buf i with lock := none } with leaving := setAt s.leaving t (some i) }
      (Function.update L t (none, some i)) := by
  obtain ⟨l, hord⟩ := h.ordered
  refine h.of_setBuf hl rfl rfl rfl (h.waiting_eq hl) rfl ⟨l, hord.congr rfl rfl rfl⟩
    (fun _ _ => rfl) (fun j hj => ⟨rfl, (at1_of_ne hj).symm⟩) ?_
  simp only [hlock, at1_none, at1_self, Buf.holders, St.setBuf, Option.isSome_none,
    Option.isSome_some, Bool.false_eq_true, if_false, if_true]
  push_cast
  omega

lemma unref_fields (t : Fin N) (i : Fin NBUF) (s : St N) :
    (St.unref t i s).buf = setAt s.buf i { s.buf i with refcnt := (s.buf i).refcnt - 1 } ∧
    (St.unref t i s).waiting = s.waiting ∧ (St.unref t i s).leaving = setAt s.leaving t none ∧
    (St.unref t i s).pins = s.pins := by
  unfold St.unref
  split <;> exact ⟨rfl, rfl, rfl, rfl⟩

lemma unref_ordered {l : List (Fin NBUF)} (h : Ordered s l) : ∃ l, Ordered (St.unref t i s) l := by
  unfold St.unref
  split
  · exact ⟨_, h.release i rfl rfl rfl⟩
  · exact ⟨l, h.congr rfl rfl rfl⟩

lemma Inv.unref (h : Inv s L) (hp : ∀ i, 0 ≤ s.pins i) (hl : L t = (none, some i)) :
    Inv (St.unref t i s) (Function.update L t (none, none)) := by
  obtain ⟨l, hord⟩ := h.ordered
  have hpos : 0 < (s.buf i).refcnt := by
    have h1 := h.refcnt i
    have h2 := hp i
    have h3 : 0 < count s.leaving i := count_pos (t := t) (by rw [h.leaving t, hl])
    unfold users at h1
    push_cast at h1
    omega
  obtain ⟨hbuf, hwaiting, hleaving, hpins⟩ := unref_fields t i s
  refine h.of_setBuf hl hbuf rfl rfl ?_ hleaving (unref_ordered hord)
    (fun j _ => by rw [hpins]) (fun j hj => ⟨rfl, at1_of_ne hj⟩) ?_
  · rw [hwaiting]
    exact h.waiting_eq hl
  · simp only [hpins, at1_none, at1_self, Buf.holders]
    push_cast
    omega

lemma Inv.pin (h : Inv s L) (hl : L t = (none, none)) {n : ℕ} {z : ℤ}
    (hn : (n : ℤ) - (s.buf i).refcnt = z - s.pins i) :
    Inv { s.setBuf i { s.buf i with refcnt := n } with pins := setAt s.pins i z }
      (Function.update L t (none, none)) := by
  obtain ⟨l, hord⟩ := h.ordered
  refine h.of_setBuf hl rfl rfl rfl (h.waiting_eq hl) (h.leaving_eq hl)
    ⟨l, hord.congr rfl rfl rfl⟩ (fun j hj => setAt_of_ne _ _ hj) (fun j _ => ⟨rfl, rfl⟩) ?_
  simp only [setAt_self, at1_none, Buf.holders]
  omega

end

/-! ## What `bget` finds -/

/-- What `bget` does to the cache: it takes the buffer with the block, or else the one among the
unused buffers that was released first, or else it stops the machine. -/
inductive Looks (t : Fin N) (dev b : ℕ) (s : St N) : Outcome Panic (Fin NBUF × St N) → Prop
  | hit (i : Fin NBUF) (hdev : (s.buf i).dev = dev) (hblockno : (s.buf i).blockno = b) :
    Looks t dev b s (.ok (i, { s.setBuf i { s.buf i with refcnt := (s.buf i).refcnt + 1 } with
      waiting := setAt s.waiting t (some i) }))
  | recycle (i : Fin NBUF) (hnone : ∀ j, ¬ ((s.buf j).dev = dev ∧ (s.buf j).blockno = b))
    (h0 : (s.buf i).refcnt = 0)
    (holdest : ∀ j, (s.buf j).refcnt = 0 → j ≠ i → s.released i < s.released j) :
    Looks t dev b s (.ok (i,
      { s.setBuf i { s.buf i with dev := dev, blockno := b, valid := false, refcnt := 1 } with
        waiting := setAt s.waiting t (some i) }))
  | full (hnone : ∀ j, ¬ ((s.buf j).dev = dev ∧ (s.buf j).blockno = b))
    (hpos : ∀ j, 0 < (s.buf j).refcnt) : Looks t dev b s (.panic .bgetNoBuffers)

lemma Ordered.lookup {l : List (Fin NBUF)} (h : Ordered s l) (t : Fin N) (dev b : ℕ) :
    Looks t dev b s (St.lookup t dev b s) := by
  unfold St.lookup
  rw [h.findCached]
  cases hc : l.find? fun i => (s.buf i).dev = dev ∧ (s.buf i).blockno = b with
  | some i =>
    have hi := List.find?_some hc
    rw [decide_eq_true_iff] at hi
    exact .hit i hi.1 hi.2
  | none =>
    have hnone : ∀ j, ¬ ((s.buf j).dev = dev ∧ (s.buf j).blockno = b) := fun j hj =>
      List.find?_eq_none.1 hc j (h.all j) (decide_eq_true hj)
    simp only [Option.map_none]
    rw [h.findUnused]
    cases hu : l.reverse.find? fun i => (s.buf i).refcnt = 0 with
    | some i =>
      have hi := List.find?_some hu
      rw [decide_eq_true_iff] at hi
      exact .recycle i hnone hi fun j hj hne => h.oldest hu (decide_eq_true hj) hne
    | none =>
      refine .full hnone fun j => Nat.pos_of_ne_zero fun hj => ?_
      exact List.find?_eq_none.1 hu j (List.mem_reverse.2 (h.all j)) (decide_eq_true hj)

/-! ## Runs -/

lemma lookup_safe (t : Fin N) (dev b : ℕ) :
    (rules N).ActSafe t (St.lookup t dev b) (none, none) fun i l => l = (some i, none) := by
  rintro s L ⟨hinv, hp⟩ hl
  obtain ⟨l, hord⟩ := hinv.ordered
  have hlook := hord.lookup t dev b
  refine .intro (fun m _ => not_false) fun i s' hs hG => ?_
  rw [hs] at hlook
  refine ⟨(some i, none), ⟨?_, hG⟩, rfl⟩
  cases hlook with
  | hit _ hdev hblockno => exact hinv.hit hl i
  | recycle _ hnone h0 holdest => exact hinv.recycle hl h0 hnone

lemma bget_safe (t : Fin N) (dev b : ℕ) :
    (rules N).Safe t (bget t dev b) (none, none) fun _ l => l = (none, none) := by
  refine .seq (.atomic (lookup_safe t dev b)) ?_
  rintro i _ rfl
  refine .seq (P := fun _ l => l = (none, none)) ?_ fun _ _ hl => hl
  refine .update fun s L hinv hl => ?_
  unfold St.acquiresleep
  split
  · exact fun hG => ⟨_, ⟨hinv.1.acquire hl ‹_›, hG⟩, rfl⟩
  · exact trivial

lemma brelse_safe (t : Fin N) (i : Fin NBUF) :
    (rules N).Safe t (brelse t i) (none, none) fun _ l => l = (none, none) := by
  refine .seq (P := fun _ l => l = (none, some i)) ?_ ?_
  · refine .update fun s L hinv hl => ?_
    unfold St.releasesleep
    split
    · exact not_false
    · exact fun hG => ⟨_, ⟨hinv.1.release hl (not_ne_iff.1 ‹_›), hG⟩, rfl⟩
  · rintro _ _ rfl
    exact .modify fun s L hinv hl hG => ⟨_, ⟨hinv.1.unref hinv.2 hl, hG⟩, rfl⟩

lemma bpin_safe (t : Fin N) (i : Fin NBUF) :
    (rules N).Safe t (.modify (St.bpin i)) (none, none) fun _ l => l = (none, none) := by
  refine .modify fun s L hinv hl hG => ⟨_, ⟨hinv.1.pin hl ?_, hG⟩, rfl⟩
  push_cast
  omega

lemma bunpin_safe (t : Fin N) (i : Fin NBUF) :
    (rules N).Safe t (.modify (St.bunpin i)) (none, none) fun _ l => l = (none, none) := by
  refine .modify fun s L hinv hl hG => ⟨_, ⟨hinv.1.pin hl ?_, hG⟩, rfl⟩
  have h1 := hinv.1.refcnt i
  have h2 := hG i
  simp only [St.bunpin, setAt_self] at h2
  omega

lemma calls_safe (N : ℕ) : (kernel N).CallsSafe (rules N) fun _ l => l = (none, none) := by
  intro t c s L hinv hrest hguard
  rw [hrest]
  cases c with
  | bget dev b => exact .seq (bget_safe t dev b) fun _ _ hl => hl
  | brelse i => exact brelse_safe t i
  | bpin i => exact bpin_safe t i
  | bunpin i => exact bunpin_safe t i

lemma linkAll_ring {is l : List (Fin NBUF)} {k : Links Node} (h : k.Ring .head (l.map .buf))
    (hnodup : (is.reverse ++ l).Nodup) :
    (linkAll is k).Ring .head ((is.reverse ++ l).map .buf) := by
  induction is generalizing l k with
  | nil => exact h
  | cons i is ih =>
    rw [List.reverse_cons, List.append_assoc] at hnodup ⊢
    refine ih (l := i :: l) (h.pushFront ?_) hnodup
    have hi : i ∉ l := (List.nodup_cons.1 (List.nodup_append.1 hnodup).2.1).1
    rw [List.mem_cons, not_or]
    exact ⟨by rintro ⟨⟩, fun hm => hi ((List.mem_map_of_injective buf_injective).1 hm)⟩

lemma init_ordered (N : ℕ) : Ordered (init N) (List.finRange NBUF).reverse where
  ring := by
    have hnodup : ((List.finRange NBUF).reverse ++ []).Nodup := by
      rw [List.append_nil]
      exact List.nodup_reverse.2 (List.nodup_finRange NBUF)
    have h := linkAll_ring (l := []) (k := ⟨fun _ => .head, fun _ => .head⟩)
      ⟨⟨⟨rfl, rfl⟩, rfl, rfl⟩, List.nodup_singleton _⟩ hnodup
    rwa [List.append_nil] at h
  nodup := List.nodup_reverse.2 (List.nodup_finRange NBUF)
  all i := List.mem_reverse.2 (List.mem_finRange i)
  sorted := List.pairwise_reverse.2 ((List.pairwise_lt_finRange NBUF).imp fun h => h)
  past i := i.isLt

lemma init_inv (N : ℕ) : Inv (init N) fun _ => (none, none) where
  ordered := ⟨_, init_ordered N⟩
  unique _ _ h := absurd rfl h
  refcnt i := by simp [users, init, Buf.holders, count]
  waiting _ := rfl
  leaving _ := rfl

/-- What holds of the buffer cache between any two steps. -/
structure Cache (s : St N) : Prop where
  /-- The list is a doubly linked ring through `bcache.head`, with every buffer once. -/
  ring : ∃ l : List (Fin NBUF), s.links.Ring .head (l.map .buf) ∧ l.Nodup ∧ ∀ i, i ∈ l
  /-- No block is in two buffers. -/
  unique : ∀ i j, (s.buf i).dev ≠ 0 → (s.buf i).dev = (s.buf j).dev →
    (s.buf i).blockno = (s.buf j).blockno → i = j
  refcnt : ∀ i, ((s.buf i).refcnt : ℤ) = users s i + s.pins i
  /-- What `bget` would do next. -/
  lookup : ∀ t dev b, Looks t dev b s (St.lookup t dev b s)

/-- A buffer of `Bio/Cache.lean` without its data. -/
def ofCache (x : Bio.Buf N) : Buf N := ⟨x.valid, x.dev, x.blockno, x.lock, x.refcnt⟩

/-- The ring has the list of the cache, and the buffers are the same but for the data. -/
structure Agrees (s : St N) (c : Bio.St N) : Prop where
  ordered : Ordered s c.lru
  buf : ∀ i, s.buf i = ofCache (c.buf i)

/-- Both sections panic, both are refused, or both go on, with related results. -/
def Alike {α β : Type} (R : α → β → Prop) : Outcome Panic α → Outcome Panic β → Prop
  | .ok a, .ok b => R a b
  | .panic p, .panic q => p = q
  | .blocked, .blocked => True
  | _, _ => False

lemma Agrees.setBuf {c c' : Bio.St N} (h : Agrees s c) {x : Bio.Buf N}
    (hs : s'.buf = setAt s.buf i (ofCache x)) (hc : c'.buf = Function.update c.buf i x)
    (hord : Ordered s' c'.lru) : Agrees s' c' := by
  refine ⟨hord, fun j => ?_⟩
  rw [hs, hc]
  by_cases hj : j = i
  · rw [hj, setAt_self, Function.update_self]
  · rw [setAt_of_ne _ _ hj, Function.update_of_ne hj, h.buf]

lemma agrees_init (N : ℕ) (d : Disk) (size : ℕ) : Agrees (init N) (Bio.St.init N d size) :=
  ⟨init_ordered N, fun _ => rfl⟩

/-- The sections under `bcache.lock` and the sleep locks do the same in both models. -/
theorem ring_refines_list {c : Bio.St N} (h : Agrees s c) (t : Fin N) (i : Fin NBUF) (dev b : ℕ) :
    Alike (fun x y => x.1 = y.1 ∧ Agrees x.2 y.2) (s.lookup t dev b) (c.lookup dev b) ∧
    Alike Agrees (s.acquiresleep t i) (c.acquiresleep t i) ∧
    Alike Agrees (s.releasesleep t i) (c.releasesleep t i) ∧ Agrees (s.unref t i) (c.unref i) ∧
    Agrees (s.bpin i) (c.bpin i) ∧ Agrees (s.bunpin i) (c.bunpin i) := by
  have hi := h.buf i
  have hlock : (s.buf i).lock = (c.buf i).lock := by rw [hi]; rfl
  refine ⟨?_, ?_, ?_, ?_, ?_, ?_⟩
  · rw [St.lookup, h.ordered.findCached, h.ordered.findUnused, Bio.St.lookup]
    simp only [h.buf, ofCache]
    cases c.lru.find? fun i => (c.buf i).dev = dev ∧ (c.buf i).blockno = b with
    | some j =>
      exact ⟨rfl, h.setBuf rfl rfl (h.ordered.congr rfl rfl rfl)⟩
    | none =>
      cases c.lru.reverse.find? fun i => (c.buf i).refcnt = 0 with
      | some j => exact ⟨rfl, h.setBuf rfl rfl (h.ordered.congr rfl rfl rfl)⟩
      | none => rfl
  · rw [St.acquiresleep, Bio.St.acquiresleep, hlock]
    split
    · exact h.setBuf (by rw [hi]; rfl) rfl (h.ordered.congr rfl rfl rfl)
    · exact trivial
  · rw [St.releasesleep, Bio.St.releasesleep, hlock]
    split
    · rfl
    · exact h.setBuf (by rw [hi]; rfl) rfl (h.ordered.congr rfl rfl rfl)
  · have hcount : ((s.decref t i).buf i).refcnt = (c.buf i).refcnt - 1 := by
      simp only [St.decref, St.setBuf, setAt_self, hi, ofCache]
    refine h.setBuf (i := i) (x := { c.buf i with refcnt := (c.buf i).refcnt - 1 })
      (by rw [(unref_fields t i s).1, hi]; rfl) ?_ ?_
    · rw [Bio.St.unref]
      split <;> rfl
    · simp only [St.unref, Bio.St.unref, Bio.St.setRefcnt, Bio.St.setBuf, Function.update_self,
        hcount]
      split
      · exact h.ordered.release i rfl rfl rfl
      · exact h.ordered.congr rfl rfl rfl
  · exact h.setBuf (by rw [St.bpin, hi]; rfl) rfl (h.ordered.congr rfl rfl rfl)
  · exact h.setBuf (by rw [St.bunpin, hi]; rfl) rfl (h.ordered.congr rfl rfl rfl)

end Xv6.BufRing
