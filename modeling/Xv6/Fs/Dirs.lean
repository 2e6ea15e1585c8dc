import Xv6.Fs.Contents

/-!
# Directories

A directory is a sequence of entries: an inode number, `0` for an empty entry, and a name of
`DIRSIZ` bytes.  The scans of `dirlookup`, `dirlink` and `isdirempty` find what is there, and
`dirlink` and `sys_unlink` change one entry (`EntrySet`).
-/

namespace Xv6.Fs

open Concur Concur.Bytes

/-- The first `DIRSIZ` bytes of a buffer. -/
def cut (s : ℕ → UInt8) : ℕ → UInt8 := fun i => if i < DIRSIZ then s i else 0

/-- The inode number in the entry `k`. -/
def entInum (d : Disk) (x : Dinode) (k : ℕ) : ℕ := deInum (dirent d x k)

/-- The name in the entry `k`. -/
def entName (d : Disk) (x : Dinode) (k : ℕ) : ℕ → UInt8 := cut (deName (dirent d x k))

lemma strncmpEq_congr {s t t' : ℕ → UInt8} {i n : ℕ} (h : ∀ j, i ≤ j → j < i + n → t j = t' j) :
    strncmpEq s t i n = strncmpEq s t' i n := by
  induction n generalizing i with
  | zero => rfl
  | succ n ih =>
    rw [strncmpEq, strncmpEq, h i le_rfl (by omega), ih fun j h₁ h2 => h j (by omega) (by omega)]

lemma nameMatches_congr (name : Name) {t t' : ℕ → UInt8} (h : ∀ i, i < DIRSIZ → t i = t' i) :
    nameMatches name t = nameMatches name t' :=
  strncmpEq_congr fun j _ hj => h j (by omega)

@[simp] lemma nameMatches_cut (name : Name) (t : ℕ → UInt8) :
    nameMatches name (cut t) = nameMatches name t :=
  nameMatches_congr name fun _ hi => if_pos hi

lemma cut_congr {s t : ℕ → UInt8} (h : ∀ i, i < DIRSIZ → s i = t i) : cut s = cut t := by
  funext i
  unfold cut
  split
  · rename_i hi
    exact h i hi
  · rfl

/-! ## Reading -/

/-- The number of entries of a directory. -/
def nent (x : Dinode) : ℕ := x.size.toNat / DESIZE

/-- What `dirlookup` finds: the inode number and the offset of the first entry with the name. -/
def findEntry (d : Disk) (x : Dinode) (name : Name) : Option (ℕ × ℕ) :=
  ((List.range (nent x)).find? fun k =>
    entInum d x k ≠ 0 ∧ nameMatches name (entName d x k)).map fun k => (entInum d x k, DESIZE * k)

/-- The first empty entry, or the number of entries if there is none. -/
def firstFree (d : Disk) (x : Dinode) : ℕ :=
  ((List.range (nent x)).find? fun k => entInum d x k = 0).getD (nent x)

section

variable {G : Geometry} {inum : ℕ} {c c' : Ictx}

/-- The locked inode is a directory of a consistent disk. -/
structure Dir (G : Geometry) (inum : ℕ) (c : Ictx) : Prop where
  working : Working G inum ∅ c
  full : NoHoles c.blk c.ip
  aligned : c.ip.size.toNat % DESIZE = 0
  isDir : c.ip.type = T_DIR

namespace Dir

section

variable (h : Dir G inum c)

include h

lemma size_eq : c.ip.size.toNat = DESIZE * nent c.ip := by
  have := h.aligned
  rw [nent, DESIZE_eq] at *
  omega

lemma readDirent (err : Panic) {k : ℕ} (hk : k < nent c.ip) :
    ∃ de, Sec.readDirent G err (DESIZE * k) c = .ok (de, c) ∧ deInum de = entInum c.blk c.ip k ∧
      ∀ name, nameMatches name (deName de) = nameMatches name (entName c.blk c.ip k) := by
  have hsize := h.size_eq
  have hmax := h.full.size_le
  obtain ⟨⟨r, de⟩, hrun, hr⟩ := readi_eq (G := G) h.full (fun _ _ => true) (DESIZE * k) DESIZE
  have hcount : readCount c.ip.size.toNat (DESIZE * k) DESIZE = DESIZE := by
    rw [readCount, DESIZE_eq] at *
    rw [BSIZE_eq, MAXFILE_eq] at hmax
    rw [if_neg (by omega)]
    omega
  rw [hcount] at hr
  obtain ⟨hr, hde⟩ := hr fun _ _ => rfl
  simp only at hr hde
  refine ⟨de, ?_, ?_, fun name => ?_⟩
  · rw [Sec.readDirent, run_bind hrun]
    simp only
    rw [if_pos hr]
    rfl
  · rw [entInum, deInum, deInum, hde 0 (by decide), hde 1 (by decide)]
    rfl
  · rw [entName, nameMatches_cut]
    refine nameMatches_congr name fun i hi => hde (2 + i) ?_
    rw [DIRSIZ_eq] at hi
    rw [DESIZE_eq]
    omega

lemma lookupFrom (name : Name) {fuel k m : ℕ} (hm : k + m = nent c.ip)
    (hfuel : m < fuel) : Sec.lookupFrom G name fuel (DESIZE * k) c =
      .ok (((List.range' k m).find? fun k => entInum c.blk c.ip k ≠ 0 ∧
        nameMatches name (entName c.blk c.ip k)).map
          fun k => (entInum c.blk c.ip k, DESIZE * k), c) := by
  have hsize := h.size_eq
  induction m generalizing fuel k with
  | zero =>
    obtain ⟨fuel, rfl⟩ := Nat.exists_eq_succ_of_ne_zero (Nat.ne_of_gt hfuel)
    rw [Sec.lookupFrom, run_get, if_pos (by rw [hsize, ← hm, Nat.add_zero])]
    rfl
  | succ m ih =>
    obtain ⟨fuel, rfl⟩ := Nat.exists_eq_succ_of_ne_zero (Nat.ne_of_gt (Nat.zero_lt_of_lt hfuel))
    obtain ⟨de, hrun, hinum, hname⟩ := h.readDirent .dirlookupRead (k := k) (by omega)
    rw [Sec.lookupFrom, run_get, if_neg (by rw [hsize, DESIZE_eq]; omega), run_bind hrun, hinum,
      hname, List.range'_succ, List.find?_cons]
    by_cases hmatch : entInum c.blk c.ip k ≠ 0 ∧ nameMatches name (entName c.blk c.ip k) = true
    · rw [if_pos hmatch, decide_eq_true hmatch]
      rfl
    · rw [if_neg hmatch, decide_eq_false hmatch]
      exact ih (k := k + 1) (by omega) (by omega)

lemma dirlookup (name : Name) :
    Sec.dirlookup G name c = .ok (findEntry c.blk c.ip name, c) := by
  rw [Sec.dirlookup, run_get, if_pos h.isDir, findEntry, List.range_eq_range']
  exact h.lookupFrom name (k := 0) (Nat.zero_add _) (Nat.lt_succ_self _)

lemma emptyFrom (fuel : ℕ) {k m : ℕ} (hm : k + m = nent c.ip) (hfuel : m < fuel) :
    Sec.emptyFrom G fuel (DESIZE * k) c =
      .ok (DESIZE * ((List.range' k m).find? fun k => entInum c.blk c.ip k = 0).getD (k + m),
        c) := by
  have hsize := h.size_eq
  induction m generalizing fuel k with
  | zero =>
    obtain ⟨fuel, rfl⟩ := Nat.exists_eq_succ_of_ne_zero (Nat.ne_of_gt hfuel)
    rw [Sec.emptyFrom, run_get, if_pos (by rw [hsize, ← hm, Nat.add_zero])]
    rfl
  | succ m ih =>
    obtain ⟨fuel, rfl⟩ := Nat.exists_eq_succ_of_ne_zero (Nat.ne_of_gt (Nat.zero_lt_of_lt hfuel))
    obtain ⟨de, hrun, hinum, -⟩ := h.readDirent .dirlinkRead (k := k) (by omega)
    rw [Sec.emptyFrom, run_get, if_neg (by rw [hsize, DESIZE_eq]; omega), run_bind hrun, hinum,
      List.range'_succ, List.find?_cons]
    by_cases hempty : entInum c.blk c.ip k = 0
    · rw [if_pos hempty, decide_eq_true hempty]
      rfl
    · rw [if_neg hempty, decide_eq_false hempty]
      have hnext := ih fuel (k := k + 1) (by omega) (by omega)
      rw [Nat.add_right_comm k 1 m, Nat.add_assoc] at hnext
      exact hnext

lemma emptyScan :
    Sec.emptyFrom G (c.ip.size.toNat / DESIZE + 1) 0 c =
      .ok (DESIZE * firstFree c.blk c.ip, c) := by
  have := h.emptyFrom (nent c.ip + 1) (k := 0) (Nat.zero_add _) (Nat.lt_succ_self _)
  rwa [← List.range_eq_range', Nat.zero_add] at this

lemma emptyDirFrom {fuel k m : ℕ} (hm : k + m = max k (nent c.ip))
    (hfuel : m < fuel) : Sec.emptyDirFrom G fuel (DESIZE * k) c =
      .ok (decide (∀ j, j < nent c.ip → k ≤ j → entInum c.blk c.ip j = 0), c) := by
  have hsize := h.size_eq
  induction m generalizing fuel k with
  | zero =>
    obtain ⟨fuel, rfl⟩ := Nat.exists_eq_succ_of_ne_zero (Nat.ne_of_gt hfuel)
    have hle : nent c.ip ≤ k := by omega
    rw [Sec.emptyDirFrom, run_get, if_pos (by rw [hsize]; exact Nat.mul_le_mul_left _ hle),
      decide_eq_true fun j h₁ h2 => absurd (hle.trans h2) (not_le.2 h₁)]
    rfl
  | succ m ih =>
    obtain ⟨fuel, rfl⟩ := Nat.exists_eq_succ_of_ne_zero (Nat.ne_of_gt (Nat.zero_lt_of_lt hfuel))
    have hlt : k < nent c.ip := by omega
    obtain ⟨de, hrun, hinum, -⟩ := h.readDirent .isdiremptyReadi hlt
    rw [Sec.emptyDirFrom, run_get, if_neg (by rw [hsize, DESIZE_eq]; omega), run_bind hrun, hinum]
    by_cases hempty : entInum c.blk c.ip k = 0
    · have hiff : (∀ j, j < nent c.ip → k ≤ j → entInum c.blk c.ip j = 0) ↔
          ∀ j, j < nent c.ip → k + 1 ≤ j → entInum c.blk c.ip j = 0 := by
        refine ⟨fun hall j h₁ h2 => hall j h₁ (by omega), fun hall j h₁ h2 => ?_⟩
        rcases h2.eq_or_lt with rfl | hlt
        · exact hempty
        · exact hall j h₁ hlt
      rw [if_pos hempty, decide_eq_decide.2 hiff]
      exact ih (k := k + 1) (by omega) (by omega)
    · rw [if_neg hempty, decide_eq_false fun hall => hempty (hall k hlt le_rfl)]
      rfl

lemma isdirempty : Sec.isdirempty G c =
    .ok (decide (∀ k, k < nent c.ip → 2 ≤ k → entInum c.blk c.ip k = 0), c) := by
  rw [Sec.isdirempty, run_get, Nat.mul_comm 2 DESIZE]
  have hfuel : nent c.ip - 2 < c.ip.size.toNat / DESIZE + 1 := by
    exact Nat.lt_succ_of_le (Nat.sub_le _ _)
  exact h.emptyDirFrom (k := 2) (m := nent c.ip - 2) (by omega) hfuel

end

end Dir

lemma findEntry_eq_some {d : Disk} {x : Dinode} {name : Name} {i off : ℕ}
    (h : findEntry d x name = some (i, off)) :
    ∃ k, k < nent x ∧ off = DESIZE * k ∧ entInum d x k = i ∧ i ≠ 0 ∧
      nameMatches name (entName d x k) = true := by
  obtain ⟨k, hk, heq⟩ := Option.map_eq_some_iff.1 h
  have hmatch := List.find?_some hk
  rw [decide_eq_true_iff] at hmatch
  cases heq
  exact ⟨k, List.mem_range.1 (List.mem_of_find?_eq_some hk), rfl, rfl, hmatch.1, hmatch.2⟩

lemma findEntry_eq_none {d : Disk} {x : Dinode} {name : Name} :
    findEntry d x name = none ↔
      ∀ k, k < nent x → entInum d x k ≠ 0 → nameMatches name (entName d x k) = false := by
  rw [findEntry, Option.map_eq_none_iff, List.find?_eq_none]
  refine ⟨fun h k hk h0 => ?_, fun h k hk hmatch => ?_⟩
  · have := h k (List.mem_range.2 hk)
    simpa [h0] using this
  · obtain ⟨h0, hm⟩ := of_decide_eq_true hmatch
    rw [h k (List.mem_range.1 hk) h0] at hm
    cases hm

lemma firstFree_le (d : Disk) (x : Dinode) : firstFree d x ≤ nent x := by
  rw [firstFree]
  cases h : (List.range (nent x)).find? fun k => entInum d x k = 0 with
  | none => exact le_rfl
  | some k => exact (List.mem_range.1 (List.mem_of_find?_eq_some h)).le

lemma entInum_firstFree {d : Disk} {x : Dinode} (h : firstFree d x < nent x) :
    entInum d x (firstFree d x) = 0 := by
  rw [firstFree] at h ⊢
  cases hf : (List.range (nent x)).find? fun k => entInum d x k = 0 with
  | none =>
    rw [hf] at h
    exact absurd h (lt_irrefl _)
  | some k =>
    have hk := List.find?_some hf
    rwa [decide_eq_true_iff] at hk

lemma firstFree_eq_nent {d : Disk} {x : Dinode} :
    firstFree d x = nent x ↔ ∀ k, k < nent x → entInum d x k ≠ 0 := by
  refine ⟨fun h k hk h0 => ?_, fun h => ?_⟩
  · rw [firstFree] at h
    cases hf : (List.range (nent x)).find? fun k => entInum d x k = 0 with
    | none => exact List.find?_eq_none.1 hf k (List.mem_range.2 hk) (decide_eq_true h0)
    | some j =>
      rw [hf] at h
      have hj : j < nent x := List.mem_range.1 (List.mem_of_find?_eq_some hf)
      rw [Option.getD_some] at h
      omega
  · rcases (firstFree_le d x).eq_or_lt with heq | hlt
    · exact heq
    · exact absurd (entInum_firstFree hlt) (h _ hlt)

/-! ## Changing an entry -/

/-- The routine has stored the directory again with the same entries. -/
structure SameDir (G : Geometry) (inum : ℕ) (c c' : Ictx) : Prop where
  dir : Dir G inum c'
  others : Others G inum c.blk c'.blk
  stored : c'.ip = G.din c'.blk inum
  fields : c'.ip = { c.ip with addrs := c'.ip.addrs }
  content_eq : ∀ o, content c'.blk c'.ip o = content c.blk c.ip o

/-- The entry `k` of the directory has become `(i, name)`; it may be new. -/
structure EntrySet (G : Geometry) (inum : ℕ) (c : Ictx) (k i : ℕ) (name : ℕ → UInt8)
    (c' : Ictx) : Prop where
  dir : Dir G inum c'
  others : Others G inum c.blk c'.blk
  stored : c'.ip = G.din c'.blk inum
  fields : c'.ip = { c.ip with size := c'.ip.size, addrs := c'.ip.addrs }
  nent_eq : nent c'.ip = max (nent c.ip) (k + 1)
  inum_eq : ∀ j, entInum c'.blk c'.ip j = if j = k then i else entInum c.blk c.ip j
  name_eq : ∀ j, entName c'.blk c'.ip j = if j = k then name else entName c.blk c.ip j

lemma dirent_of_content {f : ℕ → UInt8} {k : ℕ} (h : ∀ o, content c'.blk c'.ip o =
      if DESIZE * k ≤ o ∧ o < DESIZE * k + DESIZE then f (o - DESIZE * k)
      else content c.blk c.ip o) {j i : ℕ} (hi : i < DESIZE) :
    dirent c'.blk c'.ip j i = if j = k then f i else dirent c.blk c.ip j i := by
  rw [dirent, h]
  by_cases hjk : j = k
  · subst hjk
    rw [if_pos ⟨by omega, by omega⟩, if_pos rfl, Nat.add_sub_cancel_left]
  · rw [if_neg hjk, if_neg]
    · rfl
    · rw [DESIZE_eq] at *
      omega

lemma Dir.writeEntry (h : Dir G inum c) (hip : c.ip = G.din c.blk inum) {f : ℕ → UInt8} {k : ℕ}
    (hk : k ≤ nent c.ip) :
    Wp Unexpected (Sec.writei G inum (fun i => some (f i)) (DESIZE * k) DESIZE)
      (fun r c' => (r = DESIZE ∧ EntrySet G inum c k (deInum f) (cut (deName f)) c') ∨
        (r ≠ DESIZE ∧ k = nent c.ip ∧ SameDir G inum c c')) c := by
  have halign := h.aligned
  have hmax := h.full.size_le
  have hn := h.size_eq
  refine (writei_spec h.working h.full _ _ _).mono fun r c' hr => ?_
  rcases hr with ⟨rfl, rfl, hbig⟩ | ⟨tot, rfl, hw⟩
  · refine Or.inr ⟨by decide, ?_, h, .refl _ _ _, hip, rfl, fun _ => rfl⟩
    rw [DESIZE_eq, BSIZE_eq, MAXFILE_eq] at *
    by_contra hlt
    have := hbig (by omega) (by omega)
    omega
  · have htype : c'.ip.type = T_DIR := by
      rw [hw.fields]
      exact h.isDir
    have hcontent := hw.content_eq (MappedOn.whole fun _ _ _ => rfl)
    have hle := hw.tot_le
    have hstop : tot = 0 ∨ tot = DESIZE := by
      rcases hw.stop with hs | hs | hs
      · exact Or.inl hs
      · exact Or.inr hs
      · rw [DESIZE_eq, BSIZE_eq] at *
        omega
    have hsize := hw.size_eq
    rcases hstop with rfl | rfl
    · have hsame : c'.ip.size = c.ip.size := by
        rw [← UInt32.toNat_inj, hsize]
        rw [DESIZE_eq] at *
        omega
      refine Or.inr ⟨by decide, ?_, ⟨hw.working, hw.full, by rwa [hsame], htype⟩, hw.others,
        hw.stored, ?_, fun o => ?_⟩
      · by_contra hlt
        have := hw.all (fun _ _ _ => rfl) (by rw [DESIZE_eq] at *; omega)
        cases this
      · rw [hw.fields, hsame]
      · rw [hcontent, if_neg (by omega)]
    · have hdirent : ∀ j i, i < DESIZE → dirent c'.blk c'.ip j i =
          if j = k then f i else dirent c.blk c.ip j i :=
        fun j i hi => dirent_of_content (f := f) (by simpa using hcontent) hi
      refine Or.inl ⟨rfl, ⟨hw.working, hw.full, ?_, htype⟩, hw.others, hw.stored, hw.fields, ?_,
        fun j => ?_, fun j => ?_⟩
      · rw [hsize]
        rw [DESIZE_eq] at *
        omega
      · rw [nent, hsize, hn]
        rw [DESIZE_eq] at *
        omega
      · rw [entInum, entInum, deInum, hdirent j 0 (by decide), hdirent j 1 (by decide)]
        by_cases hjk : j = k
        · simp only [hjk, ↓reduceIte]
          rfl
        · simp only [hjk, ↓reduceIte]
          rfl
      · have hbytes : ∀ i, i < DIRSIZ → deName (dirent c'.blk c'.ip j) i =
            if j = k then deName f i else deName (dirent c.blk c.ip j) i := by
          intro i hi
          rw [DIRSIZ_eq] at hi
          exact hdirent j (2 + i) (by rw [DESIZE_eq]; omega)
        by_cases hjk : j = k
        · rw [if_pos hjk]
          exact cut_congr fun i hi => (hbytes i hi).trans (if_pos hjk)
        · rw [if_neg hjk]
          exact cut_congr fun i hi => (hbytes i hi).trans (if_neg hjk)

lemma deInum_direntBytes {i : ℕ} (name : Name) (hi : i < 2 ^ 16) :
    deInum (direntBytes i name) = i := by
  have h0 : (leByte i 0).toNat = i % 256 := toNat_leByte_zero i
  have h1 : (leByte i 1).toNat = i / 256 % 256 := by
    rw [leByte_succ, toNat_leByte_zero]
  show (leByte i 0).toNat + 256 * (leByte i 1).toNat = i
  omega

lemma deName_direntBytes (i : ℕ) (name : Name) : deName (direntBytes i name) = cstr name := by
  funext j
  show (if 2 + j < 2 then leByte i (2 + j) else name.getD (2 + j - 2) 0) = name.getD j 0
  rw [if_neg (by omega), Nat.add_sub_cancel_left]

/-- `dirlink`, once the name is known not to be present: an empty or a new entry is set, or there
is no empty entry, the disk is full, and the directory is as it was. -/
lemma Dir.dirlinkEntry (h : Dir G inum c) (hip : c.ip = G.din c.blk inum) (name : Name) {i : ℕ}
    (hi : i < 2 ^ 16) :
    Wp Unexpected (Sec.dirlinkEntry G inum name i)
      (fun r c' => (r = true ∧ EntrySet G inum c (firstFree c.blk c.ip) i (cut (cstr name)) c') ∨
        (r = false ∧ firstFree c.blk c.ip = nent c.ip ∧ SameDir G inum c c')) c := by
  have hinum : deInum (direntBytes i name) = i := deInum_direntBytes name hi
  rw [Sec.dirlinkEntry]
  refine Wp.get_bind (Wp.seq (Wp.of_ok h.emptyScan (Q := fun off c' =>
    off = DESIZE * firstFree c.blk c.ip ∧ c' = c) ⟨rfl, rfl⟩) ?_)
  rintro _ c' ⟨rfl, rfl⟩
  refine Wp.seq (h.writeEntry hip (firstFree_le _ _)) fun r c'' hr => Wp.pure ?_
  rw [hinum, deName_direntBytes] at hr
  rcases hr with ⟨hr, hset⟩ | ⟨hr, hk, hsame⟩
  · exact Or.inl ⟨decide_eq_true hr, hset⟩
  · exact Or.inr ⟨decide_eq_false hr, hk, hsame⟩

/-- `sys_unlink` clears the entry it has found; this cannot fail. -/
lemma Dir.eraseEntry (h : Dir G inum c) (hip : c.ip = G.din c.blk inum) {k : ℕ}
    (hk : k < nent c.ip) :
    Wp Unexpected (Sec.eraseEntry G inum (DESIZE * k))
      (fun _ c' => EntrySet G inum c k 0 (cut fun _ => 0) c') c := by
  rw [Sec.eraseEntry]
  refine Wp.seq (h.writeEntry hip hk.le (f := fun _ => 0)) fun r c' hr => ?_
  rcases hr with ⟨hr, hset⟩ | ⟨-, heq, -⟩
  · rw [if_pos hr]
    exact Wp.pure hset
  · exact absurd heq hk.ne

end

end Xv6.Fs
