import Xv6.Vm.Copies

/-!
# The arguments on the stack of a new program

`exec` pushes the strings of `argv` on the stack of the new image, from the top down, and below them
the array of their addresses.  Each of them begins at a multiple of 16.  `Arguments` is what the
program then finds: this module shows that `pushArgs` and the part of `exec` after it leave memory
like this, and that they fail only if the rounded sizes of all strings and the array exceed the
stack.
-/

namespace Xv6.Vm

open Concur

variable {N : ℕ}

/-- The next multiple of 16. -/
def align16 (n : ℕ) : ℕ := (n + 15) / 16 * 16

/-- The space that the strings take. -/
def stringBytes (argv : List (List UInt8)) : ℕ := (argv.map fun s => align16 (s.length + 1)).sum

/-- The space that the strings and the array of their addresses take. -/
def stackBytes (argv : List (List UInt8)) : ℕ :=
  stringBytes argv + align16 ((argv.length + 1) * 8)

/-- The word of user memory at `a`. -/
def PageTable.word (pt : PageTable) (m : St N) (a : ℕ) : ℕ :=
  Bytes.rdLE (n := 8) (fun i => pt.byte m (a + i)) 0 8

/-- The ranges of memory of the array at `sp` and of the strings at the addresses `ustack`, each
with its length. -/
def argRanges (sp : ℕ) (argv : List (List UInt8)) (ustack : List ℕ) : List (ℕ × ℕ) :=
  (sp, (argv.length + 1) * 8) :: List.zipWith (fun p s => (p, s.length + 1)) ustack argv

/-- What a program of size `sz` finds on its stack: at `sp` an array of pointers `ustack` to the
strings `argv`, with a null pointer at its end. -/
structure Arguments (pt : PageTable) (m : St N) (sz sp : ℕ) (argv : List (List UInt8))
    (ustack : List ℕ) : Prop where
  aligned : sp % 16 = 0
  length : ustack.length = argv.length
  words : ∀ i, i ≤ argv.length → pt.word m (sp + 8 * i) = (ustack ++ [0]).getD i 0
  strings : ∀ i, i < argv.length → pt.bytes m (ustack.getD i 0) ((argv.getD i []).length + 1) =
    argv.getD i [] ++ [0]
  /-- All is in the pages of the stack. -/
  inside : ∀ r ∈ argRanges sp argv ustack, sz - USERSTACK * PGSIZE ≤ r.1 ∧ r.1 + r.2 ≤ sz
  disjoint : (argRanges sp argv ustack).Pairwise fun r r' => r.1 + r.2 ≤ r'.1 ∨ r'.1 + r'.2 ≤ r.1
  /-- The user may write to the stack. -/
  stack : ∀ a, sz - USERSTACK * PGSIZE ≤ a → a < sz → pt.Writable (a / PGSIZE)
  /-- The page below the stack is mapped, but not for the user. -/
  guard : ∀ a, sz - (USERSTACK + 1) * PGSIZE ≤ a → a < sz - USERSTACK * PGSIZE →
    (pt.leaf (a / PGSIZE)).flags.v = true ∧ ¬ pt.Readable (a / PGSIZE)

section

variable {stop : Option Panic → Prop} {m m' m'' : St N} {pt : PageTable} {lo mid hi sp base : ℕ}
  {argv : List (List UInt8)} {ustack : List ℕ}

/-! ## A part of memory is overwritten -/

/-- Only user memory from `lo` up to `hi` has changed. -/
structure Stored (pt : PageTable) (lo hi : ℕ) (m m' : St N) : Prop where
  user : ∀ a, pt.Readable (a / PGSIZE) → a < lo ∨ hi ≤ a → pt.byte m' a = pt.byte m a
  others : ∀ q, (∀ v, pt.Readable v → (pt.leaf v).page ≠ q) → m'.data q = m.data q
  rest : m' = { m with data := m'.data }

lemma Stored.refl (pt : PageTable) (lo hi : ℕ) (m : St N) : Stored pt lo hi m m :=
  ⟨fun _ _ _ => rfl, fun _ _ => rfl, rfl⟩

lemma Stored.trans (h : Stored pt mid hi m m') (h' : Stored pt lo mid m' m'') (hlo : lo ≤ mid)
    (hhi : mid ≤ hi) : Stored pt lo hi m m'' := by
  refine ⟨fun a ha hout => ?_, fun q hq => (h'.others q hq).trans (h.others q hq), ?_⟩
  · rw [h'.user a ha (by omega), h.user a ha (by omega)]
  · rw [h'.rest, h.rest]

lemma Written.stored {dstva : ℕ} {src : List UInt8} (h : Written pt dstva src src.length m m')
    (hdist : pt.Distinct) (hread : ∀ i, i < src.length → pt.Readable ((dstva + i) / PGSIZE)) :
    Stored pt dstva (dstva + src.length) m m' := by
  refine ⟨fun a ha hout => ?_, fun q hq => Bytes.ext_get fun off hoff => ?_, h.rest⟩
  · refine h.others _ _ (Nat.mod_lt a (by decide)) fun i hi hpage hoff => ?_
    have hdiv := hdist _ _ ha (hread i hi) hpage
    simp only [PGSIZE_eq] at hdiv hoff
    omega
  · exact h.others q off hoff fun i hi hpage => absurd hpage.symm (hq _ (hread i hi))

lemma copyout_stored_ends (hdist : pt.Distinct) {dstva : ℕ} {src : List UInt8}
    (hwrite : ∀ i, i < src.length → pt.Writable ((dstva + i) / PGSIZE)) :
    Ends (fun _ => True) stop (copyout pt dstva src) m fun r m' =>
      r = true ∧ (∀ i, i < src.length → pt.byte m' (dstva + i) = src.getD i 0) ∧
      Stored pt dstva (dstva + src.length) m m' := by
  refine (copyout_ends hdist dstva src).mono ?_
  rintro r m' ⟨hiff, k, hwritten, hk⟩
  have hr := hiff.2 hwrite
  rw [hk hr] at hwritten
  exact ⟨hr, hwritten.bytes, hwritten.stored hdist fun i hi => (hwrite i hi).1⟩

lemma PageTable.bytes_congr {a len : ℕ}
    (h : ∀ i, i < len → pt.byte m' (a + i) = pt.byte m (a + i)) :
    pt.bytes m' a len = pt.bytes m a len :=
  List.map_congr_left fun i hi => h i (List.mem_range.1 hi)

lemma PageTable.bytes_eq {a : ℕ} {src : List UInt8}
    (h : ∀ i, i < src.length → pt.byte m (a + i) = src.getD i 0) :
    pt.bytes m a src.length = src := by
  refine List.ext_getElem (by simp) fun i h1 h2 => ?_
  simp only [PageTable.bytes, List.getElem_map, List.getElem_range]
  rw [h i h2, List.getD_eq_getElem?_getD, List.getElem?_eq_getElem h2, Option.getD_some]

lemma PageTable.word_congr {a : ℕ} (h : ∀ i, i < 8 → pt.byte m' (a + i) = pt.byte m (a + i)) :
    pt.word m' a = pt.word m a := by
  have hbytes : (fun i : Fin 8 => pt.byte m' (a + i)) = fun i : Fin 8 => pt.byte m (a + i) :=
    funext fun i => h i i.isLt
  rw [PageTable.word, hbytes, PageTable.word]

/-! ## The strings -/

/-- The strings `argv` are at the addresses `ptrs`, each below the one before, from `hi` down to
`lo`. -/
inductive Pushed (pt : PageTable) (m : St N) (lo : ℕ) : ℕ → List (List UInt8) → List ℕ → Prop where
  | nil {hi : ℕ} : lo ≤ hi → Pushed pt m lo hi [] []
  | cons {hi ptr : ℕ} {s : List UInt8} {argv : List (List UInt8)} {ptrs : List ℕ} :
      ptr + (s.length + 1) ≤ hi → pt.bytes m ptr (s.length + 1) = s ++ [0] →
      Pushed pt m lo ptr argv ptrs → Pushed pt m lo hi (s :: argv) (ptr :: ptrs)

namespace Pushed

section

variable (h : Pushed pt m lo hi argv ustack)

include h

lemma le : lo ≤ hi := by
  induction h with
  | nil hle => exact hle
  | cons hend _ _ ih => omega

lemma length_eq : ustack.length = argv.length := by
  induction h with
  | nil _ => rfl
  | cons _ _ _ ih => simp only [List.length_cons, ih]

lemma congr (hkeep : ∀ a, lo ≤ a → a < hi → pt.byte m' a = pt.byte m a) :
    Pushed pt m' lo hi argv ustack := by
  induction h with
  | nil hle => exact .nil hle
  | cons hend hbytes htail ih =>
    have hle := htail.le
    refine .cons hend ?_ (ih fun a h1 h2 => hkeep a h1 (by omega))
    rw [← hbytes]
    exact PageTable.bytes_congr fun i hi => hkeep _ (by omega) (by omega)

lemma bytes_getD {i : ℕ} (hi' : i < argv.length) :
    pt.bytes m (ustack.getD i 0) ((argv.getD i []).length + 1) = argv.getD i [] ++ [0] := by
  induction h generalizing i with
  | nil _ => exact absurd hi' (Nat.not_lt_zero i)
  | cons _ hbytes _ ih =>
    cases i with
    | zero => exact hbytes
    | succ i => exact ih (Nat.lt_of_succ_lt_succ hi')

lemma ranges :
    ∀ r ∈ List.zipWith (fun p (s : List UInt8) => (p, s.length + 1)) ustack argv,
      lo ≤ r.1 ∧ r.1 + r.2 ≤ hi := by
  induction h with
  | nil _ => exact fun r hr => absurd hr List.not_mem_nil
  | cons hend _ htail ih =>
    have hle := htail.le
    intro r hr
    rw [List.zipWith_cons_cons, List.mem_cons] at hr
    rcases hr with rfl | hr
    · exact ⟨hle, hend⟩
    · have hr' := ih r hr
      omega

lemma pairwise : (List.zipWith (fun p (s : List UInt8) => (p, s.length + 1)) ustack argv).Pairwise
      fun r r' => r.1 + r.2 ≤ r'.1 ∨ r'.1 + r'.2 ≤ r.1 := by
  induction h with
  | nil _ => exact .nil
  | cons hend _ htail ih =>
    rw [List.zipWith_cons_cons]
    exact .cons (fun r hr => .inr (htail.ranges r hr).2) ih

lemma mem_le : ∀ p ∈ ustack, p ≤ hi := by
  induction h with
  | nil _ => exact fun p hp => absurd hp List.not_mem_nil
  | cons hend _ htail ih =>
    intro p hp
    rcases List.mem_cons.1 hp with rfl | hp
    · omega
    · have := ih p hp
      omega

end

end Pushed

lemma sub64_of_le {x y : ℕ} (hx : x < 2 ^ 64) (h : y ≤ x) : sub64 x y = x - y := by
  simp only [sub64]
  omega

lemma stringBytes_cons (s : List UInt8) (argv : List (List UInt8)) :
    stringBytes (s :: argv) = align16 (s.length + 1) + stringBytes argv := rfl

lemma pushArgs_ends (hdist : pt.Distinct)
    (hstack : ∀ a, base ≤ a → a < hi → pt.Writable (a / PGSIZE)) (hbase : base % 16 = 0)
    (hpage : PGSIZE ≤ base) (hhi : hi < 2 ^ 64) (hargs : ∀ s ∈ argv, s.length < PGSIZE)
    (hsp : base ≤ sp) (hsp' : sp ≤ hi) (haligned : sp % 16 = 0)
    (hargc : ustack.length + argv.length ≤ MAXARG) :
    Ends (fun _ => True) stop (pushArgs pt base argv sp ustack) m fun r m' =>
      Stored pt base sp m m' ∧
      match r with
      | none => sp < base + stringBytes argv
      | some (sp', ustack') => sp' + stringBytes argv = sp ∧ base ≤ sp' ∧ sp' % 16 = 0 ∧
        ∃ ptrs, ustack' = ustack ++ ptrs ∧ Pushed pt m' sp' sp argv ptrs := by
  -- the induction is on the arguments that are still to be pushed
  induction argv generalizing sp ustack m with
  | nil => exact .ret ⟨.refl _ _ _ _, rfl, hsp, haligned, [], by simp, .nil le_rfl⟩
  | cons s argv ih =>
    have hs : s.length < PGSIZE := hargs s List.mem_cons_self
    have hroom : ¬ MAXARG ≤ ustack.length := by
      rw [List.length_cons] at hargc
      omega
    rw [pushArgs, if_neg hroom, sub64_of_le (by omega) (by omega)]
    obtain ⟨sp1, hsp1⟩ : ∃ sp1, sp1 = sp - (s.length + 1) - (sp - (s.length + 1)) % 16 := ⟨_, rfl⟩
    have hsub : sp1 % 16 = 0 ∧ sp1 + (s.length + 1) ≤ sp ∧ sp1 + align16 (s.length + 1) = sp := by
      simp only [PGSIZE_eq] at hs hpage
      simp only [align16]
      omega
    obtain ⟨haligned1, hend, hsum⟩ := hsub
    rw [stringBytes_cons]
    dsimp only
    rw [← hsp1]
    split
    · exact .ret ⟨.refl _ _ _ _, by omega⟩
    rename_i hfits
    have hlen : (s ++ [0]).length = s.length + 1 := by simp
    refine (copyout_stored_ends hdist fun i hi' => hstack _ (by omega) (by omega)).seq ?_
    rintro _ m1 ⟨rfl, hbytes, hstored⟩
    rw [hlen] at hstored
    have hstored1 : Stored pt sp1 sp m m1 :=
      (Stored.refl pt (sp1 + (s.length + 1)) sp m).trans hstored (by omega) hend
    simp only [if_true]
    refine (ih (fun s' hs' => hargs s' (List.mem_cons_of_mem s hs')) (by omega) (by omega)
      haligned1 ?_).mono ?_
    · rw [List.length_append, List.length_singleton]
      rw [List.length_cons] at hargc
      omega
    rintro r m2 ⟨hstored2, hr⟩
    refine ⟨hstored1.trans hstored2 (by omega) (by omega), ?_⟩
    cases r with
    | none =>
      dsimp only at hr ⊢
      omega
    | some r =>
      obtain ⟨sp', ustack'⟩ := r
      obtain ⟨hsum', hbase', haligned', ptrs, hptrs, hpushed⟩ := hr
      refine ⟨by omega, hbase', haligned', sp1 :: ptrs, ?_, .cons hend ?_ hpushed⟩
      · rw [hptrs, List.append_assoc, List.singleton_append]
      · -- the rest of the strings is below this one
        have hkeep : pt.bytes m2 sp1 (s ++ [0]).length = pt.bytes m1 sp1 (s ++ [0]).length := by
          refine PageTable.bytes_congr fun i hi' => hstored2.user _ ?_ (.inr (by omega))
          exact (hstack _ (by omega) (by omega)).1
        rw [PageTable.bytes_eq hbytes] at hkeep
        rwa [hlen] at hkeep

/-! ## The array of pointers -/

@[simp] lemma length_wordBytes (ws : List ℕ) : (wordBytes ws).length = ws.length * 8 := by
  induction ws with
  | nil => rfl
  | cons w ws ih =>
    rw [wordBytes, List.flatMap_cons, List.length_append, ← wordBytes, ih]
    simp only [List.length_map, List.length_range, List.length_cons]
    omega

lemma wordBytes_getD (ws : List ℕ) {i r : ℕ} (hi : i < ws.length) (hr : r < 8) :
    (wordBytes ws).getD (8 * i + r) 0 = Bytes.leByte (ws.getD i 0) r := by
  induction ws generalizing i with
  | nil => exact absurd hi (Nat.not_lt_zero i)
  | cons w ws ih =>
    have hlen : ((List.range 8).map (Bytes.leByte w)).length = 8 := rfl
    rw [wordBytes, List.flatMap_cons, ← wordBytes, List.getD_eq_getElem?_getD]
    cases i with
    | zero =>
      rw [List.getElem?_append_left (by rw [hlen]; omega), List.getElem?_map,
        List.getElem?_range (by omega), Nat.mul_zero, Nat.zero_add]
      rfl
    | succ i =>
      rw [List.getElem?_append_right (by rw [hlen]; omega), hlen,
        show 8 * (i + 1) + r - 8 = 8 * i + r by omega, ← List.getD_eq_getElem?_getD,
        ih (Nat.lt_of_succ_lt_succ hi)]
      rfl

lemma word_eq {ws : List ℕ} (h : ∀ j, j < (wordBytes ws).length →
    pt.byte m (sp + j) = (wordBytes ws).getD j 0) {i : ℕ} (hi : i < ws.length)
    (hlt : ws.getD i 0 < 2 ^ 64) : pt.word m (sp + 8 * i) = ws.getD i 0 := by
  rw [length_wordBytes] at h
  have hmod : pt.word m (sp + 8 * i) = ws.getD i 0 % 256 ^ 8 := by
    refine Bytes.rdLE_eq_mod fun r hr => ?_
    rw [← wordBytes_getD ws hi hr, ← h (8 * i + r) (by omega), ← Nat.add_assoc, Nat.zero_add]
    exact dif_pos hr
  rw [hmod, Nat.mod_eq_of_lt (hlt.trans_eq (by decide))]

lemma pushStack_ends {sz : ℕ} (hdist : pt.Distinct)
    (hstack : ∀ a, base ≤ a → a < sz → pt.Writable (a / PGSIZE))
    (hguard : ∀ a, base - PGSIZE ≤ a → a < base →
      (pt.leaf (a / PGSIZE)).flags.v = true ∧ ¬ pt.Readable (a / PGSIZE))
    (hbase : base % 16 = 0) (hpage : PGSIZE ≤ base) (hsz : sz = base + USERSTACK * PGSIZE)
    (hlt : sz < 2 ^ 64) (hargs : ∀ s ∈ argv, s.length < PGSIZE) (hargc : argv.length < MAXARG) :
    Ends (fun _ => True) stop (pushStack pt base sz argv) m fun r m' =>
      r.2 = (sz, pt) ∧ Stored pt base sz m m' ∧
      match r.1 with
      | none => USERSTACK * PGSIZE < stackBytes argv
      | some sp => ∃ ustack, Arguments pt m' sz sp argv ustack := by
  have hsz16 : sz % 16 = 0 := by
    simp only [hsz, USERSTACK, PGSIZE_eq]
    omega
  have hpos : 0 < align16 ((argv.length + 1) * 8) := by
    simp only [align16]
    omega
  refine (pushArgs_ends hdist hstack hbase hpage hlt hargs (by omega) le_rfl hsz16
    (by simp only [List.length_nil]; omega)).seq ?_
  rintro r m1 ⟨hstored, hr⟩
  cases r with
  | none =>
    refine .ret ⟨rfl, hstored, ?_⟩
    dsimp only at hr ⊢
    rw [stackBytes]
    omega
  | some r =>
    obtain ⟨sp1, ptrs⟩ := r
    obtain ⟨hsum, hbase1, haligned1, ptrs', hptrs, hpushed⟩ := hr
    rw [List.nil_append] at hptrs
    subst hptrs
    have hargc' : ptrs.length = argv.length := hpushed.length_eq
    dsimp only
    rw [hargc']
    have hsmall : (argv.length + 1) * 8 ≤ sp1 := by
      simp only [MAXARG] at hargc
      simp only [PGSIZE_eq] at hpage
      omega
    rw [sub64_of_le (by omega) hsmall]
    obtain ⟨sp, hsp⟩ :
        ∃ sp, sp = sp1 - (argv.length + 1) * 8 - (sp1 - (argv.length + 1) * 8) % 16 :=
      ⟨_, rfl⟩
    have hsub : sp % 16 = 0 ∧ sp + (argv.length + 1) * 8 ≤ sp1 ∧
        sp + align16 ((argv.length + 1) * 8) = sp1 := by
      simp only [align16]
      omega
    obtain ⟨haligned, hend, hsum'⟩ := hsub
    rw [← hsp]
    split
    · refine .ret ⟨rfl, hstored, ?_⟩
      dsimp only
      rw [stackBytes]
      omega
    rename_i hfits
    have hlen : (wordBytes (ptrs ++ [0])).length = (argv.length + 1) * 8 := by
      rw [length_wordBytes, List.length_append, hargc', List.length_singleton]
    refine (copyout_stored_ends hdist fun i hi => hstack _ (by omega) (by omega)).seq ?_
    rintro _ m2 ⟨rfl, hbytes, hstored2⟩
    rw [hlen] at hstored2
    have hpushed2 : Pushed pt m2 sp1 sz argv ptrs := by
      refine hpushed.congr fun a h1 h2 => hstored2.user a ?_ (.inr (by omega))
      exact (hstack a (by omega) h2).1
    have hbase' : sz - USERSTACK * PGSIZE = base := by omega
    have hguard' : sz - (USERSTACK + 1) * PGSIZE = base - PGSIZE := by
      simp only [hsz, USERSTACK]
      omega
    refine .ret ⟨rfl, ?_, ptrs, haligned, hargc', fun i hi => ?_, fun i hi => ?_, ?_, ?_, ?_, ?_⟩
    · -- the array is below what has been pushed before
      refine ⟨fun a ha hout => ?_, fun q hq => ?_, ?_⟩
      · rw [hstored2.user a ha (by omega), hstored.user a ha hout]
      · rw [hstored2.others q hq, hstored.others q hq]
      · rw [hstored2.rest, hstored.rest]
    · have hi' : i < (ptrs ++ [0]).length := by
        rw [List.length_append, List.length_singleton]
        omega
      refine word_eq hbytes hi' ?_
      rw [List.getD_eq_getElem?_getD, List.getElem?_eq_getElem hi', Option.getD_some]
      rcases List.mem_append.1 (List.getElem_mem hi') with hmem | hmem
      · exact lt_of_le_of_lt (hpushed.mem_le _ hmem) hlt
      · rw [List.mem_singleton.1 hmem]
        decide
    · exact hpushed2.bytes_getD hi
    · intro r hr
      rw [hbase']
      rcases List.mem_cons.1 hr with rfl | hr
      · dsimp only
        omega
      · have := hpushed.ranges r hr
        omega
    · refine .cons (fun r hr => .inl ?_) hpushed.pairwise
      have := hpushed.ranges r hr
      dsimp only
      omega
    · rw [hbase']
      exact hstack
    · rw [hbase', hguard']
      exact hguard

end

end Xv6.Vm
