import Xv6.Fs.Rest

/-!
# Path resolution

`walk` looks names up one after another, and `walkParent` stops before the last one.  They are
functions of the blocks, stated without the code.  `namex`, run alone, returns what they find,
releases every reference but the one it returns, and changes no block (`namex_ends`).

It can only stop at `iget: no inodes`, when fewer than two slots of the inode table are free, and at
`ilock: no type`, when a directory entry names a free inode.  `namei_fold` collects what follows for
`namei` and `nameiparent` in a well-formed kernel.
-/

namespace Xv6.Fs

open Concur

/-! ## The meaning of a path -/

/-- The inode that is reached from the inode `i` by looking the names up one after another. -/
def walk (G : Geometry) (d : Disk) : ℕ → List Name → Option ℕ
  | i, [] => some i
  | i, x :: xs =>
    if (G.din d i).type = T_DIR then
      (findEntry d (G.din d i) x).bind fun e => walk G d e.1 xs
    else none

/-- The directory that is reached by all names but the last, and the last one. -/
def walkParent (G : Geometry) (d : Disk) : ℕ → List Name → Option (ℕ × Name)
  | _, [] => none
  | i, x :: xs =>
    if (G.din d i).type = T_DIR then
      if xs = [] then some (i, x)
      else (findEntry d (G.din d i) x).bind fun e => walkParent G d e.1 xs
    else none

section

variable {G : Geometry} {d : Disk}

lemma walk_of_walkParent {i j : ℕ} {x : Name} {names : List Name}
    (h : walkParent G d i names = some (j, x)) :
    (G.din d j).type = T_DIR ∧ names.getLast? = some x ∧
      walk G d i names = (findEntry d (G.din d j) x).map Prod.fst := by
  induction names generalizing i with
  | nil => cases h
  | cons y ys ih =>
    rw [walkParent] at h
    by_cases hdir : (G.din d i).type = T_DIR
    · rw [if_pos hdir] at h
      by_cases hys : ys = []
      · rw [if_pos hys] at h
        cases h
        refine ⟨hdir, by rw [hys]; rfl, ?_⟩
        rw [walk, if_pos hdir, hys]
        cases hfind : findEntry d (G.din d j) x with
        | none => rfl
        | some e => rfl
      · rw [if_neg hys] at h
        obtain ⟨e, he, hw⟩ := Option.bind_eq_some_iff.1 h
        obtain ⟨hj, hlast, hwalk⟩ := ih hw
        refine ⟨hj, ?_, ?_⟩
        · rw [List.getLast?_cons, hlast]
          rfl
        · rw [walk, if_pos hdir, he, Option.bind_some, hwalk]
    · rw [if_neg hdir] at h
      cases h

/-- A lookup fails at the first name that is looked up in an inode that is not a directory or that
does not have it. -/
lemma walk_eq_none_iff {i : ℕ} {names : List Name} :
    walk G d i names = none ↔ ∃ l x l' j, names = l ++ x :: l' ∧ walk G d i l = some j ∧
      ((G.din d j).type ≠ T_DIR ∨ findEntry d (G.din d j) x = none) := by
  induction names generalizing i with
  | nil =>
    refine iff_of_false (Option.some_ne_none i) ?_
    rintro ⟨l, x, l', j, h, -⟩
    exact List.append_ne_nil_of_right_ne_nil l (List.cons_ne_nil x l') h.symm
  | cons y ys ih =>
    constructor
    · intro h
      by_cases hdir : (G.din d i).type = T_DIR
      · rw [walk, if_pos hdir] at h
        cases hfind : findEntry d (G.din d i) y with
        | none => exact ⟨[], y, ys, i, rfl, rfl, Or.inr hfind⟩
        | some e =>
          rw [hfind, Option.bind_some, ih] at h
          obtain ⟨l, x, l', j, rfl, hwalk, hj⟩ := h
          refine ⟨y :: l, x, l', j, rfl, ?_, hj⟩
          rw [walk, if_pos hdir, hfind, Option.bind_some, hwalk]
      · exact ⟨[], y, ys, i, rfl, rfl, Or.inl hdir⟩
    · rintro ⟨l, x, l', j, heq, hwalk, hj⟩
      cases l with
      | nil =>
        obtain ⟨rfl, rfl⟩ := List.cons.inj heq
        obtain rfl : i = j := Option.some.inj hwalk
        rw [walk]
        rcases hj with hj | hj
        · rw [if_neg hj]
        · rw [hj, Option.bind_none, ite_self]
      | cons z l =>
        obtain ⟨rfl, rfl⟩ := List.cons.inj heq
        rw [walk] at hwalk ⊢
        by_cases hdir : (G.din d i).type = T_DIR
        · rw [if_pos hdir] at hwalk ⊢
          obtain ⟨e, he, hwalk'⟩ := Option.bind_eq_some_iff.1 hwalk
          rw [he, Option.bind_some, ih]
          exact ⟨l, x, l', j, rfl, hwalk', hj⟩
        · rw [if_neg hdir]

/-- What `namex` is to find: the inode, and for a parent the name. -/
def found (G : Geometry) (d : Disk) (parent : Bool) (i : ℕ) (names : List Name) :
    Option (ℕ × Option Name) :=
  if parent then (walkParent G d i names).map fun r => (r.1, some r.2)
  else (walk G d i names).map fun j => (j, none)

lemma found_cons (parent : Bool) (i : ℕ) (x : Name) (xs : List Name) :
    found G d parent i (x :: xs) =
      if (G.din d i).type = T_DIR then
        if parent = true ∧ xs = [] then some (i, some x)
        else (findEntry d (G.din d i) x).bind fun e => found G d parent e.1 xs
      else none := by
  by_cases hdir : (G.din d i).type = T_DIR
  · cases parent with
    | true =>
      by_cases hxs : xs = []
      · simp [found, walkParent, hdir, hxs]
      · simp only [found, walkParent, hdir, hxs, if_true, if_false, and_false]
        cases findEntry d (G.din d i) x with
        | none => rfl
        | some e => rfl
    | false =>
      simp only [found, walk, hdir, if_true, Bool.false_eq_true, if_false, false_and]
      cases findEntry d (G.din d i) x with
      | none => rfl
      | some e => rfl
  · cases parent with
    | true => simp [found, walkParent, hdir]
    | false => simp [found, walk, hdir]

/-- The root is allocated, and so is every inode that a directory entry names. -/
structure Linked (G : Geometry) (d : Disk) : Prop where
  root : (G.din d ROOTINO).type ≠ 0
  entry : ∀ i, i < G.ninodes → (G.din d i).type = T_DIR → ∀ k, k < nent (G.din d i) →
    entInum d (G.din d i) k ≠ 0 → (G.din d (entInum d (G.din d i) k)).type ≠ 0

end

/-! ## `namex` -/

section

variable {N : ℕ} {B : Finset ℕ → ℕ → Prop} {G : Geometry} {t : Fin N} {base : Fin NINODE → ℕ}
  {K : Finset ℕ} {n : ℕ} {s s' : St N} {stop : Option Panic → Prop} {k : Fin NINODE}

/-- Two slots are not used by the others. -/
def TwoFree (base : Fin NINODE → ℕ) : Prop := ∃ j k, j ≠ k ∧ base j = 0 ∧ base k = 0

lemma TwoFree.exists_free (h : TwoFree base) (k : Fin NINODE) :
    ¬ ∀ j, 0 < base j + one k j := by
  obtain ⟨i, j, hne, hi, hj⟩ := h
  intro hall
  by_cases hik : i = k
  · have hjk : j ≠ k := fun h => hne (hik.trans h.symm)
    have := hall j
    rw [one_of_ne hjk] at this
    omega
  · have := hall i
    rw [one_of_ne hik] at this
    omega

/-- What `namex` returns with: the references of the others and the one it returns. -/
def Namex (B : Finset ℕ → ℕ → Prop) (G : Geometry) (t : Fin N) (base : Fin NINODE → ℕ)
    (K : Finset ℕ) (n : ℕ) (s : St N) (parent : Bool) (i : ℕ) (names : List Name)
    (r : Option (Fin NINODE × NameBuf)) (s' : St N) : Prop :=
  Frame base s s' ∧ s'.blk = s.blk ∧
    match r with
    | none => Holding B G t base 0 ∅ K n s' ∧ found G s.blk parent i names = none
    | some (k, name) => Holding B G t base (one k) ∅ K n s' ∧
        found G s.blk parent i names =
          some ((s'.itable k).inum, if parent then some (nameOf name) else none)

lemma Namex.of_frame {parent : Bool} {i : ℕ} {names : List Name}
    {r : Option (Fin NINODE × NameBuf)} {s1 : St N} (hf : Frame base s s1) (hb : s1.blk = s.blk)
    (h : Namex B G t base K n s1 parent i names r s') :
    Namex B G t base K n s parent i names r s' := by
  obtain ⟨hf', hb', hr⟩ := h
  rw [hb] at hr
  exact ⟨hf.trans hf', hb'.trans hb, hr⟩

lemma namexElem_ends (hc : Holding B G t base (one k) ∅ K n s) (hanchor : Anchored G base s)
    (hfull : ¬ TwoFree base → stop (some .igetNoInodes))
    (hlinked : ¬ Linked G s.blk → stop (some .ilockNoType))
    (htype : Linked G s.blk → (G.din s.blk (s.itable k).inum).type ≠ 0)
    (parent : Bool) (path : Path) (name : NameBuf) (xs : List Name) (hxs : path = [] ↔ xs = []) :
    Ends (Fits B) stop (namexElem G t parent k path name) s fun r s' =>
      match r with
      | .inl (k', path', name') => path' = path ∧ name' = name ∧
          Holding B G t base (one k') ∅ K n s' ∧ Frame base s s' ∧ s'.blk = s.blk ∧
          (Linked G s.blk → (G.din s.blk (s'.itable k').inum).type ≠ 0) ∧
          found G s.blk parent (s.itable k).inum (nameOf name :: xs) =
            found G s.blk parent (s'.itable k').inum xs
      | .inr r => Namex B G t base K n s parent (s.itable k).inum (nameOf name :: xs) r s' := by
  have hpos : 0 < base k + one k k := by
    rw [one_self]
    omega
  have hzero : (0 : Fin NINODE → ℕ) + one k = one k := zero_add _
  rw [namexElem]
  refine (ilock_ends hc hpos (fun h => (Finset.notMem_empty k h).elim) fun h0 =>
    hlinked fun hl => htype hl h0).seq ?_
  rintro _ s1 ⟨hc1, hf1, hb1, -, -⟩
  have hinum1 : (s1.itable k).inum = (s.itable k).inum := hf1.inum k hpos
  have hin : k ∈ insert k (∅ : Finset (Fin NINODE)) := Finset.mem_insert_self k ∅
  have hkeep1 : (G.din s1.blk (s1.itable k).inum).nlink = 0 → 0 < base k + (0 : Fin NINODE → ℕ) k :=
    fun h => Nat.lt_of_lt_of_le ((hanchor.frame hf1.left hb1).keep hc1 hpos
      (hc1.locked k hin).2 h) (Nat.le_add_right _ _)
  have herase : (insert k (∅ : Finset (Fin NINODE))).erase k = ∅ :=
    Finset.erase_insert (Finset.notMem_empty k)
  have hd1 : G.din s1.blk (s1.itable k).inum = G.din s.blk (s.itable k).inum := by
    rw [hb1, hinum1]
  refine (inodeOf_ends hc1 hin).seq ?_
  rintro _ s1 ⟨rfl, rfl⟩
  rw [hd1]
  by_cases hdir : (G.din s.blk (s.itable k).inum).type = T_DIR
  · rw [if_neg (not_not.2 hdir)]
    by_cases hlast : parent = true ∧ path = []
    · rw [if_pos hlast]
      refine (iunlock_ends hc1 hin).seq ?_
      rintro _ s2 ⟨hc2, hf2, hb2, hj2⟩
      rw [herase] at hc2
      refine .ret ⟨hf1.left.trans hf2.left, hb2.trans hb1, hc2, ?_⟩
      rw [found_cons, if_pos hdir, if_pos ⟨hlast.1, hxs.1 hlast.2⟩, (hj2 k).1, hinum1,
        if_pos hlast.1]
    · rw [if_neg hlast]
      have hmore : ¬ (parent = true ∧ xs = []) := fun h => hlast ⟨h.1, hxs.2 h.2⟩
      refine (dirlookup_ends hc1 hin (by rw [hd1]; exact hdir)
        (fun hall => hfull fun h2 => h2.exists_free k hall) (nameOf name)).seq ?_
      rintro (_ | ⟨k', off⟩) s2 hr
      · obtain ⟨hnone, rfl⟩ := hr
        rw [← hzero] at hc1
        refine (iunlockput_kept hc1 hin hkeep1).seq ?_
        rintro _ s3 ⟨hc3, hf3, hb3, -⟩
        rw [herase] at hc3
        refine .ret ⟨hf1.left.trans hf3.left, hb3.trans hb1, hc3, ?_⟩
        rw [hd1, hb1] at hnone
        rw [found_cons, if_pos hdir, if_neg hmore, hnone]
        rfl
      · obtain ⟨i, hfind, hc2, hf2, hb2, hi, -⟩ := hr
        rw [add_comm] at hc2
        have hkeep2 : (G.din s2.blk (s2.itable k).inum).nlink = 0 → 0 < base k + one k' k := by
          rw [hb2, hf2.inum k hpos]
          exact fun h => Nat.lt_of_lt_of_le (hkeep1 h) (Nat.add_le_add_left (Nat.zero_le _) _)
        refine (iunlockput_kept hc2 hin hkeep2).seq ?_
        rintro _ s3 ⟨hc3, hf3, hb3, hj3⟩
        rw [herase] at hc3
        rw [hd1, hb1] at hfind
        refine .ret ⟨rfl, rfl, hc3, (hf1.left.trans hf2.left).trans hf3.left,
          (hb3.trans hb2).trans hb1, fun hl => ?_, ?_⟩
        · obtain ⟨m, hm, -, hent, h0, -⟩ := findEntry_eq_some hfind
          rw [(hj3 k').1, hi, ← hent]
          exact hl.entry _ (hc.lt k hpos) hdir m hm (by rwa [hent])
        · rw [found_cons, if_pos hdir, if_neg hmore, hfind, (hj3 k').1, hi]
          rfl
  · rw [if_pos hdir]
    rw [← hzero] at hc1
    refine (iunlockput_kept hc1 hin hkeep1).seq ?_
    rintro _ s3 ⟨hc3, hf3, hb3, -⟩
    rw [herase] at hc3
    refine .ret ⟨hf1.left.trans hf3.left, hb3.trans hb1, hc3, ?_⟩
    rw [found_cons, if_neg hdir]

lemma namexLoop_ends (hfull : ¬ TwoFree base → stop (some .igetNoInodes)) (parent : Bool)
    (l : List (List UInt8)) {path : Path} (name : NameBuf) (h0 : 0 ∉ path)
    (hl : segments path = l) (hc : Holding B G t base (one k) ∅ K n s)
    (hanchor : Anchored G base s) (hlinked : ¬ Linked G s.blk → stop (some .ilockNoType))
    (htype : Linked G s.blk → (G.din s.blk (s.itable k).inum).type ≠ 0) :
    Ends (Fits B) stop (.iterate (namexFrom G t parent) (k, path, name)) s
      (Namex B G t base K n s parent (s.itable k).inum (l.map (List.take DIRSIZ))) := by
  -- the induction is on the elements of the path that are left
  induction l generalizing path name k s with
  | nil =>
    have hpos : 0 < base k + one k k := by
      rw [one_self]
      omega
    refine Ends.iterate ?_
    rw [namexFrom, skipelem_eq_none name hl]
    cases parent with
    | true =>
      rw [← zero_add (one k)] at hc
      refine (iput_kept hc (fun h => (Finset.notMem_empty k h).elim) fun hv hn =>
        Nat.lt_of_lt_of_le (hanchor.keep hc (by rwa [zero_add]) hv hn)
          (Nat.le_add_right _ _)).seq ?_
      rintro _ s1 ⟨hc1, hf1, hb1, -⟩
      exact .ret ⟨hf1.left, hb1, hc1, rfl⟩
    | false => exact .ret ⟨.refl _ _, rfl, hc, rfl⟩
  | cons x xs ih =>
    obtain ⟨rest, name', hskip, hname, hrest, hnil, h0'⟩ := skipelem_eq_some name h0 hl
    refine Ends.iterate ?_
    rw [namexFrom, hskip]
    refine (namexElem_ends hc hanchor hfull hlinked htype parent rest name'
      (xs.map (List.take DIRSIZ)) (by rw [hnil, List.map_eq_nil_iff])).mono ?_
    rintro (⟨k', path', name''⟩ | r) s' hr
    · obtain ⟨rfl, rfl, hc', hf', hb', htype', hfound⟩ := hr
      have hnext := ih name'' h0' hrest hc' (hanchor.frame hf' hb') (by rwa [hb']) (by rwa [hb'])
      refine hnext.mono fun r s'' hr' => ?_
      obtain ⟨hf'', hb'', hr''⟩ := hr'
      rw [hb', ← hfound, hname] at hr''
      exact ⟨hf'.trans hf'', hb''.trans hb', hr''⟩
    · rw [hname] at hr
      exact hr

/-- The inode from which a path is looked up, if the process has the working directory `cwd`. -/
def startOf (path : Path) (cwd : ℕ) : ℕ := if path.head? = some slash then ROOTINO else cwd

lemma namex_ends (hc : Holding B G t base 0 ∅ K n s) (hanchor : Anchored G base s)
    (hcwd : (s.proc t).cwd = some k) (hpos : 0 < base k)
    (hfull : ¬ TwoFree base → stop (some .igetNoInodes))
    (hlinked : ¬ Linked G s.blk → stop (some .ilockNoType)) (parent : Bool) {path : Path}
    (name : NameBuf) (h0 : 0 ∉ path) :
    Ends (Fits B) stop (namex G t path parent name) s
      (Namex B G t base K n s parent (startOf path (s.itable k).inum)
        ((segments path).map (List.take DIRSIZ))) := by
  rw [namex]
  refine Ends.seq (P := fun k' s' => Holding B G t base (one k') ∅ K n s' ∧ Frame base s s' ∧
    s'.blk = s.blk ∧ (s'.itable k').inum = startOf path (s.itable k).inum ∧
    (Linked G s.blk → (G.din s.blk (s'.itable k').inum).type ≠ 0)) ?_ ?_
  · by_cases hroot : path.head? = some slash
    · rw [if_pos hroot, startOf, if_pos hroot]
      have hfree : (∀ j, 0 < base j + (0 : Fin NINODE → ℕ) j) → stop (some .igetNoInodes) := by
        refine fun hall => hfull fun h2 => ?_
        obtain ⟨j, -, -, hj, -⟩ := h2
        have := hall j
        simp only [Pi.zero_apply] at this
        omega
      refine (iget_ends hc G.root_lt hfree).mono ?_
      rintro k' s' ⟨hc', hf', hb', hi', -⟩
      rw [zero_add] at hc'
      exact ⟨hc', hf'.left, hb', hi', fun hl => by rw [hi']; exact hl.root⟩
    · rw [if_neg hroot, startOf, if_neg hroot]
      refine (idupCwd_ends hc hcwd hpos).mono ?_
      rintro k' s' ⟨rfl, hc', hf', hb'⟩
      rw [zero_add] at hc'
      have hinum := hf'.left.inum k' hpos
      exact ⟨hc', hf'.left, hb', hinum, fun _ => by rw [hinum]; exact hc.alloc k' hpos⟩
  · rintro k' s' ⟨hc', hf', hb', hi', htype'⟩
    have hloop := namexLoop_ends hfull parent (segments path) name h0 rfl hc'
      (hanchor.frame hf' hb') (by rwa [hb']) (by rwa [hb'])
    rw [hi'] at hloop
    exact hloop.mono fun _ _ hr => hr.of_frame hf' hb'

lemma namex_of_wellFormed (hs : WellFormed G s) (hcwd : (s.proc t).cwd = some k) (parent : Bool)
    {path : Path} (name : NameBuf) (h0 : 0 ∉ path) :
    Ends (Fits fun _ _ => True) (fun _ => ¬ (Linked G s.blk ∧ TwoFree (refsOf s)))
      (namex G t path parent name) s
      (Namex (fun _ _ => True) G t (refsOf s) ∅ 0 s parent (startOf path (s.itable k).inum)
        ((segments path).map (List.take DIRSIZ))) :=
  namex_ends (hs.holding t trivial) hs.anchored hcwd (hs.cwd_pos hcwd) (fun h h' => h h'.2)
    (fun h h' => h h'.1) parent name h0

lemma namei_of_wellFormed (hs : WellFormed G s) (hcwd : (s.proc t).cwd = some k) {path : Path}
    (h0 : 0 ∉ path) :
    Ends (Fits fun _ _ => True) (fun _ => ¬ (Linked G s.blk ∧ TwoFree (refsOf s)))
      (namei G t path) s fun r s' => s'.blk = s.blk ∧
        r.map (fun k => (s'.itable k).inum) =
          walk G s.blk (startOf path (s.itable k).inum)
            ((segments path).map (List.take DIRSIZ)) := by
  rw [namei]
  refine (namex_of_wellFormed hs hcwd false onStack h0).seq ?_
  rintro (_ | ⟨k', name'⟩) s' ⟨-, hb, -, hfound⟩
  · refine .ret ⟨hb, ?_⟩
    exact (Option.map_eq_none_iff.1 hfound).symm
  · refine .ret ⟨hb, ?_⟩
    obtain ⟨j, hj, heq⟩ := Option.map_eq_some_iff.1 hfound
    rw [hj]
    exact congrArg some (congrArg Prod.fst heq).symm

end

/-- Path resolution is the fold of its components. -/
theorem namei_fold {N : ℕ} (G : Geometry) (s : St N) (hs : WellFormed G s) (t : Fin N)
    (k : Fin NINODE) (hcwd : (s.proc t).cwd = some k) (path : Path) (h0 : 0 ∉ path)
    (name : NameBuf) (names : List Name) (hnames : names = (segments path).map (List.take DIRSIZ))
    (i : ℕ) (hi : i = startOf path (s.itable k).inum) :
    Yields path name names ∧
      (∀ r s', (namei G t path).Completes s r s' → s'.blk = s.blk ∧
        r.map (fun k => (s'.itable k).inum) = walk G s.blk i names ∧
        (r = none ↔ ∃ l x l' j, names = l ++ x :: l' ∧ walk G s.blk i l = some j ∧
          ((G.din s.blk j).type ≠ T_DIR ∨ findEntry s.blk (G.din s.blk j) x = none))) ∧
      (∀ r s', (nameiparent G t path name).Completes s r s' → s'.blk = s.blk ∧
        (names = [] → r = none) ∧
        ∀ dp name', r = some (dp, name') → names.getLast? = some (nameOf name') ∧
          walk G s.blk i names =
            (findEntry s.blk (G.din s.blk (s'.itable dp).inum) (nameOf name')).map Prod.fst) ∧
      (Linked G s.blk → TwoFree (refsOf s) →
        (∃ r s', (namei G t path).Completes s r s') ∧
          ∃ r s', (nameiparent G t path name).Completes s r s') := by
  subst hnames hi
  have hnamei := namei_of_wellFormed hs hcwd h0
  have hparent := namex_of_wellFormed hs hcwd true name h0
  have hfits : Fits (fun _ _ => True) s := (hs.holding (K := ∅) (n := 0) t trivial).toFits
  refine ⟨yields_segments name h0, fun r s' hrun => ?_, fun r s' hrun => ?_,
    fun hlinked hfree => ?_⟩
  · obtain ⟨hb, hr⟩ := hnamei.of_completes hfits hrun
    refine ⟨hb, hr, ?_⟩
    rw [← walk_eq_none_iff, ← hr, Option.map_eq_none_iff]
  · obtain ⟨-, hb, hr⟩ := hparent.of_completes hfits hrun
    refine ⟨hb, fun hnil => ?_, fun dp name' heq => ?_⟩
    · cases r with
      | none => rfl
      | some e =>
        rw [hnil] at hr
        cases hr.2
    · rw [heq] at hr
      obtain ⟨⟨j, x⟩, hj, heq'⟩ := Option.map_eq_some_iff.1 hr.2
      obtain ⟨hinum, hname⟩ := Prod.mk.inj heq'
      obtain ⟨-, hlast, hwalk⟩ := walk_of_walkParent hj
      rw [← hinum, ← Option.some.inj hname]
      exact ⟨hlast, hwalk⟩
  · have hno : ∀ m : Option Panic, ¬ (Linked G s.blk ∧ TwoFree (refsOf s)) → False :=
      fun _ h => h ⟨hlinked, hfree⟩
    obtain ⟨r, s', hrun, -⟩ := (hnamei.weaken hno).exists_completes
    obtain ⟨r', s'', hrun', -⟩ := (hparent.weaken hno).exists_completes
    exact ⟨⟨r, s', hrun⟩, r', s'', hrun'⟩

lemma linked_smallDisk : Linked smallGeometry smallDisk := by
  refine ⟨?_, fun i hi hdir k hk _ => ?_⟩
  · rw [ROOTINO, din_smallDisk_root]
    decide
  · have hroot : i = 1 := by
      by_contra h1
      rw [din_smallDisk hi, if_neg h1] at hdir
      by_cases h₂ : i = 2
      · rw [if_pos h₂] at hdir
        exact absurd hdir (by decide)
      · rw [if_neg h₂] at hdir
        exact absurd hdir (by decide)
    subst hroot
    rw [din_smallDisk_root] at hk ⊢
    have htype : ∀ k, k < 3 →
        (smallGeometry.din smallDisk (entInum smallDisk smallRoot k)).type ≠ 0 := by
      decide +kernel
    exact htype k hk

/-- The path `//a/` leads to the file. -/
theorem namei_fold_slashes : WellFormed smallGeometry smallState ∧
    (smallState.proc 0).cwd = some 0 ∧
    Yields [slash, slash, 97, slash] onStack [[97]] ∧
    ∃ r s', (namei smallGeometry 0 [slash, slash, 97, slash]).Completes smallState r s' ∧
      r.map (fun k => (s'.itable k).inum) = some 2 := by
  have hpath : (0 : UInt8) ∉ [slash, slash, 97, slash] := by decide
  obtain ⟨hyields, hnamei, -, htotal⟩ :=
    namei_fold smallGeometry smallState wellFormed_smallState 0 0
    rfl [slash, slash, 97, slash] hpath onStack [[97]] (by decide) 1 rfl
  obtain ⟨⟨r, s', hrun⟩, -⟩ := htotal linked_smallDisk ⟨1, 2, by decide, rfl, rfl⟩
  have hwalk : walk smallGeometry smallDisk 1 [[97]] = some 2 := by decide +kernel
  refine ⟨wellFormed_smallState, rfl, hyields, r, s', hrun, ?_⟩
  rw [(hnamei r s' hrun).2.1]
  exact hwalk

end Xv6.Fs
