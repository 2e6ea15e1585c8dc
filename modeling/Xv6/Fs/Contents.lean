import Xv6.Fs.Blocks

/-!
# The contents of inodes

`readi`, `writei` and `itrunc` on a consistent disk: the bitmap and the references balance
(`Fs/Blocks.lean`), and every allocated inode has all blocks below its size (`InodeOk`).  Each
routine keeps that, changes the contents of its own inode as it should and leaves the other
inodes (`Others`).  So `readi` and `writei` see an inode as a sequence of bytes, `content`.
-/

namespace Xv6.Fs

open Concur Concur.Bytes

/-- The bytes of the entry `k` of a directory. -/
def dirent (d : Disk) (x : Dinode) (k : ℕ) : ℕ → UInt8 := fun i => content d x (DESIZE * k + i)

/-- The inode has all blocks below its size. -/
def NoHoles (d : Disk) (x : Dinode) : Prop :=
  ∀ n, n * BSIZE < x.size.toNat → blockAt d x n ≠ 0

lemma NoHoles.size_le {d : Disk} {x : Dinode} (h : NoHoles d x) :
    x.size.toNat ≤ MAXFILE * BSIZE := by
  by_contra hlt
  obtain ⟨p, -, hp, -⟩ := blockAt_eq_ref (h MAXFILE (not_le.1 hlt))
  have hnone : dataPlace MAXFILE = none := by decide
  rw [hnone] at hp
  cases hp

/-- What holds of an allocated inode: it has the blocks below its size, and a directory consists
of whole entries with inode numbers that exist. -/
structure InodeOk (G : Geometry) (d : Disk) (x : Dinode) : Prop where
  size_le : x.size.toNat ≤ MAXFILE * BSIZE
  full : ∀ n, n * BSIZE < x.size.toNat → blockAt d x n ≠ 0
  aligned : x.type = T_DIR → x.size.toNat % DESIZE = 0
  inum_lt : x.type = T_DIR → ∀ k, DESIZE * k < x.size.toNat → deInum (dirent d x k) < G.ninodes

/-- A consistent disk. -/
structure DiskOk (G : Geometry) (d : Disk) : Prop where
  owned : Ledger G.nmeta G.size (refs G d (G.din d)) ∅ (G.bit d)
  inode : ∀ i, i < G.ninodes → (G.din d i).type ≠ 0 → InodeOk G d (G.din d i)

lemma Ictx.ino_eq_din {G : Geometry} {inum : ℕ} {c : Ictx} (h : c.ip = G.din c.blk inum) :
    c.ino G inum = G.din c.blk := by
  rw [Ictx.ino, h, setAt_eq_self]

section

variable {G : Geometry} {inum : ℕ} {L : Set ℕ} {c c' : Ictx}

/-! ## `iupdate` and `itrunc` -/

lemma Working.store (hw : Working G inum L c) (l : Log) :
    Working G inum L { c with blk := G.putDin c.blk inum c.ip, log := l } ∧
      Others G inum c.blk (G.putDin c.blk inum c.ip) ∧
      ∀ a, G.nmeta ≤ a → G.putDin c.blk inum c.ip a = c.blk a := by
  have hdata : ∀ a, G.nmeta ≤ a → G.putDin c.blk inum c.ip a = c.blk a :=
    fun a ha => Geometry.putDin_apply hw.lt c.ip ha
  have hne : ∀ j, j < G.ninodes → j ≠ inum →
      G.din (G.putDin c.blk inum c.ip) j = G.din c.blk j :=
    fun j _ hj => by rw [Geometry.din_putDin, if_neg hj]
  refine ⟨?_, ⟨hne, fun j hj hji htype p hp => ?_⟩, hdata⟩
  · refine hw.of_eq rfl hne (fun i hi => hdata _ (hw.owned.range _ hi).1) fun b hb => ?_
    exact Geometry.bit_putDin hw.lt c.ip hb
  · refine hdata _ ?_
    have hrange := hw.owned.range (j, p)
    rw [Working.refs_other hj hji htype] at hrange
    exact (hrange hp).1

lemma iupdate_spec (hw : Working G inum L c) :
    Wp Unexpected (Sec.iupdate G inum)
      (fun _ c' => c'.ip = c.ip ∧ c'.ip = G.din c'.blk inum ∧ Working G inum L c' ∧
        Others G inum c.blk c'.blk ∧ ∀ a, G.nmeta ≤ a → c'.blk a = c.blk a) c := by
  rw [Sec.iupdate]
  refine Wp.get_bind (logWrite_wp fun l => ?_)
  have hdin : G.din (G.putDin c.blk inum c.ip) inum = c.ip :=
    (Geometry.din_putDin inum inum c.ip).trans (if_pos rfl)
  exact ⟨rfl, hdin.symm, hw.store l⟩

lemma iupdate_blk : Wp Unexpected (Sec.iupdate G inum)
    (fun _ c' => c'.blk = G.putDin c.blk inum c.ip) c := by
  rw [Sec.iupdate]
  exact Wp.get_bind (logWrite_wp fun _ => rfl)

lemma content_congr {d d' : Disk} {x x' : Dinode}
    (href : ∀ p, p ≠ .indirect → ref d' x' p = ref d x p)
    (hblk : ∀ p, p ≠ .indirect → ref d x p ≠ 0 → d' (ref d x p) = d (ref d x p)) (o : ℕ) :
    content d' x' o = content d x o := by
  unfold content
  rw [blockAt_congr href]
  by_cases h0 : blockAt d x (o / BSIZE) = 0
  · rw [if_pos h0, if_pos h0]
  · obtain ⟨p, hp, -, hpn⟩ := blockAt_eq_ref h0
    rw [if_neg h0, if_neg h0, ← hpn, hblk p hp (by rwa [hpn])]

lemma itrunc_spec (hw : Working G inum L c) :
    Wp Unexpected (Sec.itrunc G inum)
      (fun _ c' => c'.ip = { c.ip with size := 0, addrs := fun _ => 0 } ∧
        c'.ip = G.din c'.blk inum ∧ Working G inum L c' ∧ Others G inum c.blk c'.blk) c := by
  rw [Sec.itrunc]
  refine Wp.seq (freeDirect_spec _ hw) fun _ c1 h1 => Wp.get_bind ?_
  obtain ⟨hw1, hs1, hf1, hl1, hz1⟩ := h1
  simp only
  -- after both loops no address is left
  have hfreed : Wp Unexpected (Sec.when (c1.ip.addrs (Fin.last NDIRECT) ≠ 0) (do
      Sec.freeEntries G ((← get).blk (c1.ip.addrs (Fin.last NDIRECT)).toNat)
        (List.finRange NINDIRECT)
      Sec.bfree G (c1.ip.addrs (Fin.last NDIRECT)).toNat
      Sec.setAddr (Fin.last NDIRECT) 0))
      (fun _ c2 => Working G inum L c2 ∧ Others G inum c1.blk c2.blk ∧
        c2.ip = { c.ip with addrs := fun _ => 0 }) c1 := by
    have haddrs : ∀ a : Fin (NDIRECT + 1) → UInt32, a (Fin.last NDIRECT) = 0 →
        (∀ i : Fin NDIRECT, a i.castSucc = 0) → a = fun _ => 0 := by
      intro a hlast hcast
      funext k
      induction k using Fin.lastCases with
      | last => exact hlast
      | cast i => exact hcast i
    have hcast : ∀ i : Fin NDIRECT, c1.ip.addrs i.castSucc = 0 :=
      fun i => hz1 i (Or.inl (List.mem_finRange i))
    refine when_wp (fun hind => ?_) fun hind => ⟨hw1, .refl _ _ _, ?_⟩
    · refine (freeIndirect_spec hw1 hind).mono fun _ c2 h2 => ?_
      obtain ⟨hw2, hs2, hip2⟩ := h2
      refine ⟨hw2, hs2.others hw1, ?_⟩
      rw [hip2, haddrs _ (setAt_self _ _ _) fun i => ?_, hf1]
      rw [setAt_of_ne _ _ (Fin.castSucc_ne_last i), hcast i]
    · rw [hf1, haddrs _ (not_not.1 hind) hcast]
  refine Wp.seq hfreed fun _ c2 h2 => Wp.bind (Wp.of_modify ?_)
  obtain ⟨hw2, ho2, hip2⟩ := h2
  refine (iupdate_spec (hw2.set_ip (x := { c2.ip with size := 0 }) rfl hw2.type_ne)).mono
    fun _ c3 h3 => ?_
  obtain ⟨hip3, hdin3, hw3, ho3, -⟩ := h3
  exact ⟨by rw [hip3, hip2], hdin3, hw3, ((hs1.others hw).trans ho2).trans ho3⟩

/-! ## Reading -/

lemma content_add (d : Disk) (x : Dinode) {off j : ℕ} (hj : off % BSIZE + j < BSIZE)
    (h0 : blockAt d x (off / BSIZE) ≠ 0) :
    content d x (off + j) = (d (blockAt d x (off / BSIZE))).get (off % BSIZE + j) := by
  have hdiv : (off + j) / BSIZE = off / BSIZE := by
    rw [BSIZE_eq] at *
    omega
  have hmod : (off + j) % BSIZE = off % BSIZE + j := by
    rw [BSIZE_eq] at *
    omega
  rw [content, hdiv, hmod, if_neg h0]

lemma ensureAddr_eq {k : Fin (NDIRECT + 1)} (hk : ref c.blk c.ip (slotOf k) ≠ 0) :
    Sec.ensureAddr G k c = .ok (ref c.blk c.ip (slotOf k), c) := by
  rw [ref_slotOf] at hk ⊢
  have hne : c.ip.addrs k ≠ 0 := by
    intro h0
    rw [h0] at hk
    exact hk rfl
  rw [Sec.ensureAddr, run_get, if_neg hne]
  rfl

lemma bmap_eq {n : ℕ} (h : blockAt c.blk c.ip n ≠ 0) :
    Sec.bmap G n c = .ok (blockAt c.blk c.ip n, c) := by
  obtain ⟨p, -, hplace, hp⟩ := blockAt_eq_ref h
  rw [← hp] at h ⊢
  rw [Sec.bmap]
  unfold dataPlace at hplace
  split at hplace
  · rename_i hdir
    have hslot : slotOf ⟨n, Nat.lt_succ_of_lt hdir⟩ = p := by
      rw [slotOf, dif_pos hdir]
      exact Option.some.inj hplace
    rw [dif_pos hdir, ensureAddr_eq (by rwa [hslot]), hslot]
  · rename_i hdir
    split at hplace
    · rename_i hind
      obtain rfl := Option.some.inj hplace
      have hne : c.ip.addrs (Fin.last NDIRECT) ≠ 0 := by
        intro h0
        rw [ref, if_pos h0] at h
        exact h rfl
      have hslot : ref c.blk c.ip (slotOf (Fin.last NDIRECT)) ≠ 0 := by
        rw [slotOf_last]
        exact fun h0 => hne (ref_indirect_eq_zero.1 h0)
      rw [ref, if_neg hne] at h ⊢
      have hentry : getEntry (c.blk (c.ip.addrs (Fin.last NDIRECT)).toNat) (n - NDIRECT) ≠ 0 := by
        intro h0
        simp only [h0] at h
        exact h rfl
      rw [dif_neg hdir, if_pos hind, run_bind (ensureAddr_eq hslot), if_neg hslot,
        run_get, ref_slotOf, if_neg hentry]
      rfl
    · cases hplace

lemma readFrom_eq (hfull : NoHoles c.blk c.ip)
    (copyout : ℕ → ℕ → Bool) (fuel off left tot : ℕ) (dst : ℕ → UInt8) (hfuel : left ≤ fuel)
    (hoff : off + left ≤ c.ip.size.toNat) :
    ∃ r, Sec.readFrom G copyout fuel off left tot dst c = .ok (r, c) ∧
      ((∀ i m, copyout i m = true) → r.1 = (tot + left : ℕ) ∧
        ∀ i, r.2 i = if tot ≤ i ∧ i < tot + left then content c.blk c.ip (off + (i - tot))
          else dst i) := by
  induction fuel generalizing off left tot dst with
  | zero =>
    obtain rfl : left = 0 := by omega
    refine ⟨_, rfl, fun _ => ⟨rfl, fun i => ?_⟩⟩
    rw [if_neg (by omega)]
  | succ fuel ih =>
    rw [Sec.readFrom]
    by_cases hleft : left = 0
    · rw [if_pos hleft]
      refine ⟨_, rfl, fun _ => ⟨by rw [hleft]; rfl, fun i => ?_⟩⟩
      rw [if_neg (by omega)]
    · rw [if_neg hleft]
      have hblock : blockAt c.blk c.ip (off / BSIZE) ≠ 0 := by
        apply hfull
        have := Nat.div_mul_le_self off BSIZE
        omega
      rw [run_bind (bmap_eq hblock), if_neg hblock, run_get]
      split
      · obtain ⟨r, hrun, hr⟩ := ih (off + min left (BSIZE - off % BSIZE))
          (left - min left (BSIZE - off % BSIZE)) (tot + min left (BSIZE - off % BSIZE))
          (fun i => if tot ≤ i ∧ i < tot + min left (BSIZE - off % BSIZE) then
            (c.blk (blockAt c.blk c.ip (off / BSIZE))).get (off % BSIZE + (i - tot)) else dst i)
          (by rw [BSIZE_eq] at *; omega) (by rw [BSIZE_eq] at *; omega)
        refine ⟨r, hrun, fun hco => ?_⟩
        obtain ⟨hcount, hdst⟩ := hr hco
        refine ⟨by rw [hcount]; congr 1; omega, fun i => ?_⟩
        rw [hdst]
        by_cases h1 : tot + min left (BSIZE - off % BSIZE) ≤ i ∧
            i < tot + min left (BSIZE - off % BSIZE) + (left - min left (BSIZE - off % BSIZE))
        · rw [if_pos h1, if_pos (by omega)]
          congr 1
          omega
        · rw [if_neg h1]
          by_cases h2 : tot ≤ i ∧ i < tot + min left (BSIZE - off % BSIZE)
          · rw [if_pos h2, if_pos (by omega), content_add _ _ (by omega) hblock]
          · rw [if_neg h2, if_neg (by omega)]
      · rename_i hco
        exact ⟨_, rfl, fun h => absurd (h _ _) hco⟩

/-- The number of bytes that `readi` returns for an inode of the given size. -/
def readCount (size off n : ℕ) : ℕ :=
  if size < off ∨ (off + n) % 2 ^ 32 < off then 0 else min n (size - off)

/-- On an inode without holes `readi` ends, changes nothing, and answers the bytes up to the
size. -/
lemma readi_eq (hfull : NoHoles c.blk c.ip)
    (copyout : ℕ → ℕ → Bool) (off n : ℕ) :
    ∃ r, Sec.readi G copyout off n c = .ok (r, c) ∧
      ((∀ i m, copyout i m = true) → r.1 = (readCount c.ip.size.toNat off n : ℕ) ∧
        ∀ i, i < readCount c.ip.size.toNat off n → r.2 i = content c.blk c.ip (off + i)) := by
  rw [Sec.readi, run_get]
  simp only
  by_cases hbad : c.ip.size.toNat < off ∨ (off + n) % 2 ^ 32 < off
  · rw [if_pos hbad]
    refine ⟨_, rfl, fun _ => ?_⟩
    rw [readCount, if_pos hbad]
    exact ⟨rfl, fun i hi => absurd hi (Nat.not_lt_zero i)⟩
  · have hcount : (if c.ip.size.toNat < off + n then c.ip.size.toNat - off else n) =
        readCount c.ip.size.toNat off n := by
      rw [readCount, if_neg hbad]
      split <;> omega
    rw [if_neg hbad, hcount]
    have hle : off + readCount c.ip.size.toNat off n ≤ c.ip.size.toNat := by
      rw [readCount, if_neg hbad]
      omega
    obtain ⟨r, hrun, hr⟩ := readFrom_eq (G := G) hfull copyout _ off _ 0 (fun _ => 0) le_rfl hle
    refine ⟨r, hrun, fun hco => ?_⟩
    obtain ⟨h1, h2⟩ := hr hco
    refine ⟨by rw [h1, Nat.zero_add], fun i hi => ?_⟩
    rw [h2, if_pos (by omega)]
    rfl

/-! ## Writing -/

/-- What `writei` may do to the inode it works on: it can add blocks and change the contents
from `off0` on. -/
structure Wrote (G : Geometry) (inum : ℕ) (L : Set ℕ) (c c' : Ictx) : Prop where
  working : Working G inum L c'
  others : Others G inum c.blk c'.blk
  fields : c'.ip = { c.ip with addrs := c'.ip.addrs }
  grow : ∀ n, blockAt c.blk c.ip n ≠ 0 → blockAt c'.blk c'.ip n ≠ 0

lemma Wrote.refl (hw : Working G inum L c) : Wrote G inum L c c :=
  ⟨hw, .refl _ _ _, rfl, fun _ h => h⟩

lemma Wrote.trans {c'' : Ictx} (h : Wrote G inum L c c') (h' : Wrote G inum L c' c'') :
    Wrote G inum L c c'' :=
  ⟨h'.working, h.others.trans h'.others, by rw [h'.fields, h.fields],
    fun n hn => h'.grow n (h.grow n hn)⟩

lemma Kept.wrote (h : Kept G inum L c c') : Wrote G inum L c c' :=
  ⟨h.working, h.others, h.fields, fun n hn => by rwa [h.grow n hn]⟩

lemma write_block (hw : Working G inum L c) {n : ℕ} (h0 : blockAt c.blk c.ip n ≠ 0) (v : Block)
    (l : Log) :
    Wrote G inum L c { c with blk := setAt c.blk (blockAt c.blk c.ip n) v, log := l } ∧
      (∀ m, blockAt (setAt c.blk (blockAt c.blk c.ip n) v) c.ip m = blockAt c.blk c.ip m) ∧
      ∀ o, content (setAt c.blk (blockAt c.blk c.ip n) v) c.ip o =
        if o / BSIZE = n then v.get (o % BSIZE) else content c.blk c.ip o := by
  obtain ⟨p, hp, hpn, href⟩ := blockAt_eq_ref h0
  rw [← href] at h0 ⊢
  have hmeta := (hw.nmeta_le h0).1
  have hind : ∀ i, refs G c.blk (c.ino G inum) (i, .indirect) ≠ ref c.blk c.ip p := by
    intro i
    by_cases hi : i = inum
    · subst hi
      rw [hw.refs_self]
      exact fun heq => hp (hw.ref_inj h0 heq.symm)
    · exact hw.ref_ne_other h0 hi
  have hself : ∀ q, ref (setAt c.blk (ref c.blk c.ip p) v) c.ip q = ref c.blk c.ip q :=
    ref_congr fun _ => setAt_of_ne _ _ (by rw [← hw.refs_self .indirect]; exact hind inum)
  have hblock : ∀ m, blockAt (setAt c.blk (ref c.blk c.ip p) v) c.ip m =
      blockAt c.blk c.ip m := fun m => blockAt_congr (fun q _ => hself q) m
  refine ⟨⟨hw.write_data v l hmeta hind,
    Others.write_data v hmeta fun q hq => hw.ref_ne_other h0 hq, rfl,
    fun m hm => by rwa [hblock]⟩, hblock, fun o => ?_⟩
  unfold content
  rw [hblock]
  by_cases ho : o / BSIZE = n
  · rw [ho, ← href, if_pos rfl, if_neg h0, setAt_self]
  · rw [if_neg ho]
    by_cases hb : blockAt c.blk c.ip (o / BSIZE) = 0
    · rw [if_pos hb, if_pos hb]
    · obtain ⟨q, -, hqn, hq⟩ := blockAt_eq_ref hb
      rw [if_neg hb, if_neg hb, setAt_of_ne]
      rw [← hq]
      intro heq
      have hqp := hw.ref_inj h0 heq.symm
      exact ho (dataPlace_inj hqn (hqp ▸ hpn))

/-- The bytes of the source from `a` up to `b` are mapped. -/
def MappedOn (src : ℕ → Option UInt8) (a b : ℕ) : Prop :=
  ∀ i, a ≤ i → i < b → (src i).isSome = true

lemma mapped_le (src : ℕ → Option UInt8) (i m : ℕ) : mapped src i m ≤ m := by
  induction m generalizing i with
  | zero => exact le_rfl
  | succ m ih =>
    rw [mapped]
    split
    · exact Nat.succ_le_succ (ih _)
    · exact Nat.zero_le _

lemma mapped_eq_iff {src : ℕ → Option UInt8} (i m : ℕ) :
    mapped src i m = m ↔ MappedOn src i (i + m) := by
  induction m generalizing i with
  | zero => exact iff_of_true rfl fun j h1 h2 => by omega
  | succ m ih =>
    rw [mapped]
    by_cases hi : (src i).isSome = true
    · rw [if_pos hi, Nat.add_right_cancel_iff, ih]
      refine ⟨fun h j h1 h2 => ?_, fun h j h1 h2 => h j (by omega) (by omega)⟩
      rcases h1.eq_or_lt with rfl | hlt
      · exact hi
      · exact h j hlt (by omega)
    · rw [if_neg hi]
      exact iff_of_false (Nat.succ_ne_zero m).symm fun h => hi (h i le_rfl (by omega))

/-- The copy of the source into each block, from the byte `tot` of the source on, succeeds or fails
at its first byte. -/
def Whole (src : ℕ → Option UInt8) (off left tot : ℕ) : Prop :=
  ∀ j, j < left → j = 0 ∨ (off + j) % BSIZE = 0 →
    mapped src (tot + j) (min (left - j) (BSIZE - (off + j) % BSIZE)) =
        min (left - j) (BSIZE - (off + j) % BSIZE) ∨
      mapped src (tot + j) (min (left - j) (BSIZE - (off + j) % BSIZE)) = 0

lemma MappedOn.whole {src : ℕ → Option UInt8} {off left tot : ℕ}
    (h : MappedOn src tot (tot + left)) : Whole src off left tot := by
  intro j hj _
  refine Or.inl ((mapped_eq_iff _ _).2 fun i h1 h2 => h i (by omega) (by omega))

/-- How many bytes of the source are copied into the block at `off`, if `left` bytes are to go and
`tot` are done. -/
def copied (src : ℕ → Option UInt8) (off left tot : ℕ) : ℕ :=
  mapped src tot (min left (BSIZE - off % BSIZE))

/-- The loop of `writei` has stopped at `off`, with `k` bytes in the block there that it does not
count: there is no block, or the copy into it has failed after them. -/
structure Torn (src : ℕ → Option UInt8) (c : Ictx) (off left tot k : ℕ) : Prop where
  le : k = 0 ∨ (k = copied src off left tot ∧ k < min left (BSIZE - off % BSIZE))
  eq_of_block : blockAt c.blk c.ip (off / BSIZE) ≠ 0 → k = copied src off left tot

/-- What the loop of `writei` leaves behind when it started at `off` with `left` bytes to go and
ends at the offset `off'`. -/
structure WroteTo (G : Geometry) (inum : ℕ) (L : Set ℕ) (src : ℕ → Option UInt8)
    (c : Ictx) (off left tot : ℕ) (r : ℕ × ℕ) (c' : Ictx) : Prop where
  wrote : Wrote G inum L c c'
  tot_le : tot ≤ r.1 ∧ r.1 ≤ tot + left
  off_eq : r.2 = off + (r.1 - tot)
  stop : r.1 = tot ∨ r.1 = tot + left ∨ r.2 % BSIZE = 0
  covered : ∀ o, off ≤ o → o < r.2 → blockAt c'.blk c'.ip (o / BSIZE) ≠ 0
  mapped : MappedOn src tot r.1
  content_eq : ∃ k, Torn src c r.2 (tot + left - r.1) r.1 k ∧ ∀ o, content c'.blk c'.ip o =
    if off ≤ o ∧ o < r.2 + k then (src (tot + (o - off))).getD 0 else content c.blk c.ip o
  all : MappedOn src tot (tot + left) →
    (∀ o, off ≤ o → o < off + left → blockAt c.blk c.ip (o / BSIZE) ≠ 0) → r.1 = tot + left

lemma content_splice (hw : Working G inum L c) {m : ℕ} (off : ℕ) (hm : off % BSIZE + m ≤ BSIZE)
    (h0 : blockAt c.blk c.ip (off / BSIZE) ≠ 0) (f : ℕ → UInt8) (o : ℕ) :
    content (setAt c.blk (blockAt c.blk c.ip (off / BSIZE))
        ((c.blk (blockAt c.blk c.ip (off / BSIZE))).splice (off % BSIZE) m f)) c.ip o =
      if off ≤ o ∧ o < off + m then f (o - off) else content c.blk c.ip o := by
  rw [(write_block hw h0 _ c.log).2.2]
  have hdm := Nat.div_add_mod off BSIZE
  have hdm' := Nat.div_add_mod o BSIZE
  have hlt : o % BSIZE < BSIZE := Nat.mod_lt _ (by decide)
  by_cases ho : o / BSIZE = off / BSIZE
  · rw [if_pos ho, get_splice _ _ _ _ hlt]
    rw [ho] at hdm'
    by_cases hin : off ≤ o ∧ o < off + m
    · rw [if_pos hin, if_pos (by omega)]
      congr 1
      omega
    · rw [if_neg hin, if_neg (by omega), content, ho, if_neg h0]
  · rw [if_neg ho, if_neg]
    rintro ⟨h1, h2⟩
    rw [BSIZE_eq] at *
    omega

lemma WroteTo.nothing {src : ℕ → Option UInt8} {off left tot k : ℕ} (h : Wrote G inum L c c')
    (hk : Torn src c off left tot k) (hcontent : ∀ o, content c'.blk c'.ip o =
      if off ≤ o ∧ o < off + k then (src (tot + (o - off))).getD 0 else content c.blk c.ip o)
    (hall : MappedOn src tot (tot + left) →
      (∀ o, off ≤ o → o < off + left → blockAt c.blk c.ip (o / BSIZE) ≠ 0) → left = 0) :
    WroteTo G inum L src c off left tot (tot, off) c' where
  wrote := h
  tot_le := ⟨le_rfl, Nat.le_add_right _ _⟩
  off_eq := by simp
  stop := Or.inl rfl
  covered o h1 h2 := absurd h1 (not_le.2 h2)
  mapped i h1 h2 := absurd h1 (not_le.2 h2)
  content_eq := ⟨k, by rwa [Nat.add_sub_cancel_left], hcontent⟩
  all hsrc hb := by rw [hall hsrc hb, Nat.add_zero]

lemma WroteTo.done {src : ℕ → Option UInt8} {off tot : ℕ} (h : Wrote G inum L c c) :
    WroteTo G inum L src c off 0 tot (tot, off) c := by
  refine .nothing (k := 0) h ⟨Or.inl rfl, fun _ => ?_⟩ (fun o => ?_) fun _ _ => rfl
  · rw [copied, Nat.zero_min]
    rfl
  · rw [if_neg (by omega)]

lemma WroteTo.cons {src : ℕ → Option UInt8} {c1 c2 : Ictx} {off left tot m : ℕ} {r : ℕ × ℕ}
    (hm : m ≤ left) (hend : m = left ∨ (off + m) % BSIZE = 0) (h1 : Wrote G inum L c c1)
    (hcovered : ∀ o, off ≤ o → o < off + m → blockAt c1.blk c1.ip (o / BSIZE) ≠ 0)
    (hmapped : MappedOn src tot (tot + m)) (hcontent : ∀ o, content c1.blk c1.ip o =
      if off ≤ o ∧ o < off + m then (src (tot + (o - off))).getD 0 else content c.blk c.ip o)
    (h : WroteTo G inum L src c1 (off + m) (left - m) (tot + m) r c2) :
    WroteTo G inum L src c off left tot r c2 := by
  have htot := h.tot_le
  have hoff := h.off_eq
  have hrest : MappedOn src tot (tot + left) → MappedOn src (tot + m) (tot + m + (left - m)) :=
    fun hsrc i h1 h2 => hsrc i (by omega) (by omega)
  refine ⟨h1.trans h.wrote, by omega, by omega, ?_, fun o ho1 ho2 => ?_, fun i h1 h2 => ?_,
    ?_, fun hsrc hb => ?_⟩
  · rcases h.stop with hs | hs | hs
    · rcases hend with hend | hend
      · exact Or.inr (Or.inl (by omega))
      · refine Or.inr (Or.inr ?_)
        rw [hoff, hs, Nat.sub_self, Nat.add_zero, hend]
    · exact Or.inr (Or.inl (by omega))
    · exact Or.inr (Or.inr hs)
  · by_cases hlt : o < off + m
    · exact h.wrote.grow _ (hcovered o ho1 hlt)
    · exact h.covered o (by omega) ho2
  · by_cases hlt : i < tot + m
    · exact hmapped i h1 hlt
    · exact h.mapped i (by omega) h2
  · obtain ⟨k, hk, hc⟩ := h.content_eq
    rw [show tot + m + (left - m) - r.1 = tot + left - r.1 by omega] at hk
    refine ⟨k, ⟨hk.le, fun hb => hk.eq_of_block (h1.grow _ hb)⟩, fun o => ?_⟩
    rw [hc, hcontent]
    by_cases h2 : off + m ≤ o ∧ o < r.2 + k
    · rw [if_pos h2, if_pos (by omega)]
      congr 2
      omega
    · rw [if_neg h2]
      by_cases h3 : off ≤ o ∧ o < off + m
      · rw [if_pos h3, if_pos (by omega)]
      · rw [if_neg h3, if_neg (by omega)]
  · have := h.all (hrest hsrc) fun o ho1 ho2 => h1.grow _ (hb o (by omega) (by omega))
    omega

lemma writeFrom_spec (hw : Working G inum L c) (src : ℕ → Option UInt8) (fuel off left tot : ℕ)
    (hfuel : left ≤ fuel) (hmax : off + left ≤ MAXFILE * BSIZE) :
    Wp Unexpected (Sec.writeFrom G src fuel off left tot)
      (fun r c' => WroteTo G inum L src c off left tot r c') c := by
  induction fuel generalizing c off left tot with
  | zero =>
    obtain rfl := Nat.le_zero.1 hfuel
    exact Wp.pure (.done (.refl hw))
  | succ fuel ih =>
    rw [Sec.writeFrom]
    by_cases hleft : left = 0
    · subst hleft
      rw [if_pos rfl]
      exact Wp.pure (.done (.refl hw))
    · rw [if_neg hleft]
      have hlt : off / BSIZE < MAXFILE := by
        rw [BSIZE_eq, MAXFILE_eq] at *
        omega
      refine Wp.seq (bmap_spec hw hlt) fun addr c1 h => ?_
      obtain ⟨hkept, hblock, hexists, -⟩ := h
      by_cases h0 : addr = 0
      · have hno : blockAt c.blk c.ip (off / BSIZE) = 0 := by
          by_contra hb
          exact hb ((hexists hb).2 ▸ h0)
        rw [if_pos h0]
        refine Wp.pure (.nothing (k := 0) hkept.wrote ⟨Or.inl rfl, fun hb => absurd hno hb⟩
          (fun o => ?_) fun _ hb => absurd hno (hb off le_rfl (by omega)))
        rw [if_neg (by omega), hkept.content_eq]
      · rw [if_neg h0]
        refine Wp.get_bind ?_
        simp only
        have hmod : off % BSIZE < BSIZE := Nat.mod_lt _ (by decide)
        have hne : blockAt c1.blk c1.ip (off / BSIZE) ≠ 0 := by rwa [hblock]
        rw [← hblock]
        split
        · rename_i hgot
          refine Wp.bind (logWrite_wp fun l => ?_)
          have hstep := write_block hkept.working hne
            ((c1.blk (blockAt c1.blk c1.ip (off / BSIZE))).splice (off % BSIZE)
              (mapped src tot (min left (BSIZE - off % BSIZE)))
              fun i => (src (tot + i)).getD 0) l
          have hcontent := content_splice hkept.working off
            (m := mapped src tot (min left (BSIZE - off % BSIZE))) (by omega) hne
            fun i => (src (tot + i)).getD 0
          rw [hgot] at hstep hcontent ⊢
          refine (ih hstep.1.working (off + min left (BSIZE - off % BSIZE)) _ _ (by omega)
            (by omega)).mono fun r c2 h2 => ?_
          refine WroteTo.cons (by omega) ?_ (hkept.wrote.trans hstep.1) (fun o ho1 ho2 => ?_)
            ((mapped_eq_iff _ _).1 hgot) (fun o => ?_) h2
          · rw [BSIZE_eq] at *
            omega
          · have hdiv : o / BSIZE = off / BSIZE := by
              rw [BSIZE_eq] at *
              omega
            rw [hdiv]
            exact hstep.1.grow _ hne
          · rw [hcontent, hkept.content_eq]
        · rename_i hgot
          refine Wp.bind (Wp.of_modify (Wp.pure ?_))
          have hfull : MappedOn src tot (tot + left) → False := fun hsrc =>
            hgot ((mapped_eq_iff _ _).2 fun i h1 h2 => hsrc i h1 (by omega))
          -- what was copied stays in the buffer
          have hlt : copied src off left tot < min left (BSIZE - off % BSIZE) :=
            lt_of_le_of_ne (mapped_le _ _ _) hgot
          refine .nothing (k := copied src off left tot)
            (hkept.wrote.trans (write_block hkept.working hne _ c1.log).1)
            ⟨Or.inr ⟨rfl, hlt⟩, fun _ => rfl⟩ (fun o => ?_) fun hsrc => (hfull hsrc).elim
          have hcontent := content_splice hkept.working off
            (m := copied src off left tot) (by omega) hne (fun i => (src (tot + i)).getD 0) o
          rw [hkept.content_eq] at hcontent
          exact hcontent

lemma content_eq_of_data (c' : Ictx) (hw : Working G inum L c) (hip : c'.ip.addrs = c.ip.addrs)
    (hdata : ∀ a, G.nmeta ≤ a → c'.blk a = c.blk a) :
    (∀ n, blockAt c'.blk c'.ip n = blockAt c.blk c.ip n) ∧
      ∀ o, content c'.blk c'.ip o = content c.blk c.ip o := by
  have href : ∀ p, ref c'.blk c'.ip p = ref c.blk c.ip p := by
    intro p
    rw [ref_eq_of_addrs hip]
    exact ref_congr (fun h0 => hdata _ (hw.nmeta_le h0).1) p
  exact ⟨blockAt_congr fun p _ => href p,
    content_congr (fun p _ => href p) fun p _ h0 => hdata _ (hw.nmeta_le h0).1⟩

/-- What `writei` has done when `tot` bytes were written. -/
structure Written (G : Geometry) (inum : ℕ) (L : Set ℕ) (src : ℕ → Option UInt8)
    (c : Ictx) (off n tot : ℕ) (c' : Ictx) : Prop where
  working : Working G inum L c'
  others : Others G inum c.blk c'.blk
  stored : c'.ip = G.din c'.blk inum
  fields : c'.ip = { c.ip with size := c'.ip.size, addrs := c'.ip.addrs }
  size_eq : c'.ip.size.toNat = max c.ip.size.toNat (off + tot)
  size_le : c'.ip.size.toNat ≤ MAXFILE * BSIZE
  full : ∀ n, n * BSIZE < c'.ip.size.toNat → blockAt c'.blk c'.ip n ≠ 0
  tot_le : tot ≤ n
  stop : tot = 0 ∨ tot = n ∨ (off + tot) % BSIZE = 0
  mapped : MappedOn src 0 tot
  content_torn : ∃ k, Torn src c (off + tot) (n - tot) tot k ∧ ∀ o, content c'.blk c'.ip o =
    if off ≤ o ∧ o < off + tot + k then (src (o - off)).getD 0 else content c.blk c.ip o
  all : MappedOn src 0 n → off + n ≤ c.ip.size.toNat → tot = n
  accepted : off ≤ c.ip.size.toNat ∧ off + n ≤ MAXFILE * BSIZE

lemma Written.content_eq {src : ℕ → Option UInt8} {off n tot : ℕ}
    (h : Written G inum L src c off n tot c') (hsrc : Whole src off n 0) (o : ℕ) :
    content c'.blk c'.ip o =
      if off ≤ o ∧ o < off + tot then (src (o - off)).getD 0 else content c.blk c.ip o := by
  obtain ⟨k, hk, hc⟩ := h.content_torn
  obtain rfl : k = 0 := by
    rcases hk.le with h0 | ⟨hk, hlt⟩
    · exact h0
    · have hpos : tot < n := by omega
      have hstop : tot = 0 ∨ (off + tot) % BSIZE = 0 :=
        h.stop.imp_right fun hs => hs.resolve_left hpos.ne
      have hcopy := hsrc tot hpos hstop
      rw [Nat.zero_add, ← copied, ← hk] at hcopy
      exact hcopy.resolve_left hlt.ne
  exact hc o

lemma writei_spec (hw : Working G inum L c) (hfull : NoHoles c.blk c.ip)
    (src : ℕ → Option UInt8) (off n : ℕ) :
    Wp Unexpected (Sec.writei G inum src off n)
      (fun r c' => (r = -1 ∧ c' = c ∧ (off ≤ c.ip.size.toNat → off + n < 2 ^ 32 →
          MAXFILE * BSIZE < off + n)) ∨
        ∃ tot : ℕ, r = tot ∧ Written G inum L src c off n tot c') c := by
  have hmax := hfull.size_le
  rw [Sec.writei]
  refine Wp.get_bind ?_
  simp only
  split
  · rename_i hbad
    exact Wp.pure (Or.inl ⟨rfl, rfl, fun h1 h2 => by omega⟩)
  · split
    · rename_i hbig
      exact Wp.pure (Or.inl ⟨rfl, rfl, fun _ _ => hbig⟩)
    · rename_i hoff hbig
      refine Wp.seq (writeFrom_spec hw src n off n 0 le_rfl (by omega)) fun r c1 h1 => ?_
      have htot := h1.tot_le
      have hoff1 := h1.off_eq
      have hr : r.2 = off + r.1 := by omega
      have hfields : c1.ip.size = c.ip.size := by rw [h1.wrote.fields]
      have h32 : r.2 < 2 ^ 32 := by
        rw [BSIZE_eq, MAXFILE_eq] at *
        omega
      -- the in-memory size after the test
      have hgrow : Wp Unexpected (Sec.when (c.ip.size.toNat < r.2)
          (modify fun s => { s with ip := { s.ip with size := UInt32.ofNat r.2 } }))
          (fun _ c2 => c2.blk = c1.blk ∧ Working G inum L c2 ∧
            c2.ip = { c1.ip with size := c2.ip.size } ∧
            c2.ip.size.toNat = max c.ip.size.toNat r.2) c1 := by
        refine when_wp (fun hlt => Wp.of_modify ⟨rfl, ?_, rfl, ?_⟩)
          fun hlt => ⟨rfl, h1.wrote.working, rfl, ?_⟩
        · exact h1.wrote.working.set_ip rfl h1.wrote.working.type_ne
        · show (UInt32.ofNat r.2).toNat = _
          rw [UInt32.toNat_ofNat', Nat.mod_eq_of_lt h32]
          omega
        · rw [hfields]
          omega
      refine Wp.seq hgrow fun _ c2 h2 => ?_
      obtain ⟨hblk2, hw2, hip2, hsize2⟩ := h2
      refine Wp.seq (iupdate_spec hw2) fun _ c3 h3 => Wp.pure (Or.inr ⟨r.1, rfl, ?_⟩)
      obtain ⟨hip3, hdin3, hw3, ho3, hdata3⟩ := h3
      have hsame := content_eq_of_data c3 h1.wrote.working
        (by rw [hip3, hip2]) (by rw [← hblk2]; exact hdata3)
      have hsize : c3.ip.size.toNat = max c.ip.size.toNat (off + r.1) := by
        rw [hip3, hsize2, hr]
      refine ⟨hw3, h1.wrote.others.trans (hblk2 ▸ ho3), hdin3, ?_, hsize, ?_, fun k hk => ?_,
        by omega, ?_, h1.mapped, ?_, fun hsrc hle => ?_, by omega, by omega⟩
      · rw [hip3, hip2, h1.wrote.fields]
      · rw [BSIZE_eq, MAXFILE_eq] at *
        omega
      · rw [hsame.1]
        by_cases hlt : k * BSIZE < c.ip.size.toNat
        · exact h1.wrote.grow k (hfull k hlt)
        · have hcov := h1.covered (k * BSIZE) (by omega) (by omega)
          rwa [Nat.mul_div_cancel _ (by decide)] at hcov
      · rcases h1.stop with hs | hs | hs
        · exact Or.inl hs
        · exact Or.inr (Or.inl (by omega))
        · exact Or.inr (Or.inr (by rwa [← hr]))
      · obtain ⟨k, hk, hc⟩ := h1.content_eq
        rw [Nat.zero_add, hr] at hk
        refine ⟨k, hk, fun o => ?_⟩
        rw [hsame.2, hc, hr]
        simp only [Nat.zero_add]
      · have := h1.all (by rwa [Nat.zero_add]) fun o ho1 ho2 => hfull _ (by
          have := Nat.div_mul_le_self o BSIZE
          omega)
        omega

end

end Xv6.Fs
