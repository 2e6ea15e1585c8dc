import Xv6.Fs.FileBytes

/-!
# No holes

`bmap` allocates on demand, for readers too; what keeps a reader from allocating is that no inode
has a hole below its size.  Here the operations that change inodes run one after the other on the
blocks and the log (`Op.run`): `writei` with any source, `itrunc`, `dirlink` and `create`.  On a
disk whose blocks are owned once each of them keeps every inode free of holes, whether it succeeds
or stops half-way (`noHoles_reads`), so `readi` finds all its blocks and changes nothing, with any
log, also outside a transaction.

`Fs/Calls.lean` has `dirlink` and `create` with the inode table and interleaved with other calls.
The routines here take the same steps on the blocks, in the same order and with the same sections of
`Fs/Inode.lean`.

That a block is referenced once is needed: where an indirect block is also a data block, a write to
the data makes a hole (`shared_block_makes_hole`).  That marked blocks are referenced is not: a
block may be lost to the file system.
-/

namespace Xv6.Fs

open Concur Concur.Bytes

/-- The contents of the blocks, and the log, between two operations. -/
structure Store where
  blk : Disk
  log : Log

/-- A routine that locks the inodes it works on itself. -/
abbrev Seq (α : Type) : Type := StateT Store (Outcome Panic) α

namespace Seq

variable (G : Geometry)

/-- `ilock` the inode `i`, run a routine on it and unlock it.  The routines used here end with
`iupdate`, or leave the inode as it is. -/
def withInode {α : Type} (i : ℕ) (m : Sec α) : Seq α := fun s =>
  if (G.din s.blk i).type = 0 then .panic .ilockNoType
  else do
    let (a, c) ← m ⟨s.blk, s.log, G.din s.blk i⟩
    pure (a, ⟨c.blk, c.log⟩)

/-- Change fields of the inode `i` and `iupdate` it. -/
def change (i : ℕ) (f : Dinode → Dinode) : Seq Unit := withInode G i do
  modify fun c => { c with ip := f c.ip }
  Sec.iupdate G i

/-- The part of `iput` that frees the inode. -/
def free (i : ℕ) : Seq Unit := withInode G i do
  Sec.itrunc G i
  modify fun c => { c with ip := { c.ip with type := 0 } }
  Sec.iupdate G i

/-- The loop of `ialloc` from the inode `inum` on, with `left` inodes to go. -/
def iallocFrom (type : Int16) : ℕ → ℕ → Seq (Option ℕ)
  | 0, _ => pure none
  | left + 1, inum => fun s =>
    if (G.din s.blk inum).type = 0 then do
      let (_, l) ← s.log.write (G.IBLOCK inum)
      pure (some inum, ⟨G.putDin s.blk inum { Dinode.zero with type := type }, l⟩)
    else iallocFrom type left (inum + 1) s

/-- Allocate an inode and give it the type `type`. -/
def ialloc (type : Int16) : Seq (Option ℕ) := iallocFrom G type (G.ninodes - 1) 1

/-- Write a new directory entry `(name, inum)` into the directory `dp`; whether it succeeds. -/
def dirlink (dp : ℕ) (name : Name) (inum : ℕ) : Seq Bool :=
  withInode G dp (Sec.dirlink G dp name inum)

/-- In `create`: the entries `.` and `..` of a new directory. -/
def dots (dp inum : ℕ) : Seq Bool := do
  if ← dirlink G inum dot inum then dirlink G inum dotdot dp else pure false

/-- `create` in the directory `dp`; the answer is the new inode.  If it fails after `ialloc`, the
last `iput` of the inode frees it when there is no other reference to it (`last`).  An `iput` of
an inode that was there before is an operation of its own, `Op.free`. -/
def create (dp : ℕ) (name : Name) (type major minor : Int16) (last : Bool) :
    Seq (Option ℕ) := do
  match ← withInode G dp (Sec.dirlookup G name) with
  | some _ => pure none
  | none =>
    match ← ialloc G type with
    | none => pure none
    | some inum => do
      change G inum fun d => { d with major := major, minor := minor, nlink := 1 }
      let ok ← (if type = T_DIR then dots G dp inum else pure true)
      let ok ← (if ok then dirlink G dp name inum else pure false)
      if ok then do
        if type = T_DIR then change G dp fun d => { d with nlink := d.nlink + 1 } else pure ()
        pure (some inum)
      else do
        change G inum fun d => { d with nlink := 0 }
        if last then free G inum else pure ()
        pure none

end Seq

/-- The operations that change inodes, on given inodes. -/
inductive Op where
  | writei (inum : ℕ) (src : ℕ → Option UInt8) (off n : ℕ)
  | itrunc (inum : ℕ)
  | free (inum : ℕ)
  | dirlink (dp : ℕ) (name : Name) (inum : ℕ)
  | create (dp : ℕ) (name : Name) (type major minor : Int16) (last : Bool)

/-- The inode that is worked on. -/
def Op.target : Op → ℕ
  | .writei inum _ _ _ => inum
  | .itrunc inum => inum
  | .free inum => inum
  | .dirlink dp _ _ => dp
  | .create dp _ _ _ _ _ => dp

def Op.run (G : Geometry) : Op → Seq Unit
  | .writei inum src off n => do
    let _ ← Seq.withInode G inum (Sec.writei G inum src off n)
  | .itrunc inum => Seq.withInode G inum (Sec.itrunc G inum)
  | .free inum => Seq.free G inum
  | .dirlink dp name inum => do
    let _ ← Seq.dirlink G dp name inum
  | .create dp name type major minor last => do
    let _ ← Seq.create G dp name type major minor last

/-- The disks that sequences of operations lead to.  The log may be any at the start of an
operation: other calls and commits change it in between. -/
inductive After (G : Geometry) (d : Disk) : Disk → Prop where
  | refl : After G d d
  | step {d1 : Disk} {s : Store} (op : Op) (l : Log) : After G d d1 → op.target < G.ninodes →
      op.run G ⟨d1, l⟩ = .ok ((), s) → After G d s.blk

/-! ## Every operation keeps the disk solid -/

section Keeps

variable {G : Geometry} {L : Set ℕ} {α β : Type}

/-- From a solid disk the routine ends, if it ends, on a solid disk and with a result in `Q`. -/
def Keeps (G : Geometry) (L : Set ℕ) (m : Seq α) (Q : α → Prop) : Prop :=
  ∀ s : Store, Solid G L s.blk → Wp (fun _ => False) m (fun a s' => Q a ∧ Solid G L s'.blk) s

lemma Keeps.pure {a : α} {Q : α → Prop} (h : Q a) : Keeps G L (Pure.pure a) Q :=
  fun _ hs => Wp.pure ⟨h, hs⟩

lemma Keeps.bind {m : Seq α} {f : α → Seq β} {P : α → Prop} {Q : β → Prop} (hm : Keeps G L m P)
    (hf : ∀ a, P a → Keeps G L (f a) Q) : Keeps G L (m >>= f) Q :=
  fun s hs => (hm s hs).seq fun a s' h => hf a h.1 s' h.2

lemma Keeps.ite {c : Prop} [Decidable c] {m m' : Seq α} {Q : α → Prop} (hm : Keeps G L m Q)
    (hm' : Keeps G L m' Q) : Keeps G L (if c then m else m') Q := by
  split
  · exact hm
  · exact hm'

/-- The routine keeps the inode that it works on stored and free of holes. -/
def Tame (G : Geometry) (L : Set ℕ) (inum : ℕ) (m : Sec α) : Prop :=
  ∀ c : Ictx, Working G inum L c → NoHoles c.blk c.ip → c.ip = G.din c.blk inum →
    Wp (fun _ => False) m (fun _ c' => Working G inum L c' ∧ NoHoles c'.blk c'.ip ∧
      c'.ip = G.din c'.blk inum ∧ Others G inum c.blk c'.blk) c

lemma Keeps.withInode {inum : ℕ} (hlt : inum < G.ninodes) {m : Sec α}
    {P : Ictx → Ictx → Prop} (hm : ∀ c : Ictx, Working G inum L c → NoHoles c.blk c.ip →
      c.ip = G.din c.blk inum → Wp (fun _ => False) m (fun _ => P c) c)
    (hP : ∀ c c', Solid G L c.blk → P c c' → Solid G L c'.blk) :
    Keeps G L (Seq.withInode G inum m) fun _ => True := by
  intro s hs
  unfold Wp Seq.withInode
  by_cases htype : (G.din s.blk inum).type = 0
  · rw [if_pos htype]
    exact fun h => h
  · rw [if_neg htype]
    have hw := hm ⟨s.blk, s.log, G.din s.blk inum⟩ (hs.working rfl hlt htype)
      (hs.noHoles inum hlt htype) rfl
    cases hrun : m ⟨s.blk, s.log, G.din s.blk inum⟩ with
    | ok r => exact ⟨trivial, hP _ _ hs (hw.result hrun)⟩
    | blocked => exact trivial
    | panic e => exact fun h => h

lemma Tame.withInode {inum : ℕ} (hlt : inum < G.ninodes) {m : Sec α} (hm : Tame G L inum m) :
    Keeps G L (Seq.withInode G inum m) fun _ => True :=
  Keeps.withInode hlt hm fun _ _ hs h => hs.of_working h.1 h.2.2.1 h.2.2.2 h.2.1

/-! ### The routines on one inode -/

lemma Tame.of_eq {inum : ℕ} {m : Sec α}
    (h : ∀ c : Ictx, NoHoles c.blk c.ip → Wp (fun _ => False) m (fun _ c' => c' = c) c) :
    Tame G L inum m := by
  intro c hw hfull hip
  refine (h c hfull).mono fun _ c' hc => ?_
  subst hc
  exact ⟨hw, hfull, hip, .refl _ _ _⟩

lemma tame_writei (inum : ℕ) (src : ℕ → Option UInt8) (off n : ℕ) :
    Tame G L inum (Sec.writei G inum src off n) := by
  intro c hw hfull hip
  refine ((writei_spec hw hfull src off n).weaken fun _ h => h.elim).mono fun r c' h => ?_
  rcases h with ⟨-, rfl, -⟩ | ⟨tot, -, h⟩
  · exact ⟨hw, hfull, hip, .refl _ _ _⟩
  · exact ⟨h.working, h.full, h.stored, h.others⟩

lemma tame_itrunc (inum : ℕ) : Tame G L inum (Sec.itrunc G inum) := by
  intro c hw _ _
  refine ((itrunc_spec hw).weaken fun _ h => h.elim).mono fun _ c' h => ?_
  obtain ⟨hip, hdin, hw', ho⟩ := h
  refine ⟨hw', fun n hn => ?_, hdin, ho⟩
  rw [hip] at hn
  exact absurd hn (Nat.not_lt_zero _)

lemma tame_change (inum : ℕ) {f : Dinode → Dinode} (hf : ∀ x, (f x).addrs = x.addrs ∧
    (f x).size = x.size ∧ (f x).type = x.type) :
    Tame G L inum (do modify fun c => { c with ip := f c.ip }; Sec.iupdate G inum) := by
  intro c hw hfull _
  obtain ⟨haddrs, hsize, htype⟩ := hf c.ip
  refine Wp.bind (Wp.of_modify ?_)
  have hw' : Working G inum L { c with ip := f c.ip } :=
    hw.set_ip haddrs (by rw [htype]; exact hw.type_ne)
  refine ((iupdate_spec hw').weaken fun _ h => h.elim).mono fun _ c' h => ?_
  obtain ⟨hip, hdin, hw'', ho, hdata⟩ := h
  refine ⟨hw'', fun n hn => ?_, hdin, ho⟩
  have hsame := (content_eq_of_data _ hw (by rw [hip, haddrs]) hdata).1 n
  rw [hsame]
  exact hfull n (by rwa [hip, hsize] at hn)

lemma readDirent_same (err : Panic) (off : ℕ) {c : Ictx} (hfull : NoHoles c.blk c.ip) :
    Wp (fun _ => False) (Sec.readDirent G err off) (fun _ c' => c' = c) c := by
  rw [Sec.readDirent]
  obtain ⟨r, hrun, -⟩ := readi_eq (G := G) hfull (fun _ _ => true) off DESIZE
  refine Wp.seq (P := fun _ c' => c' = c) (Wp.of_ok hrun rfl) fun r' c' h => ?_
  subst h
  simp only
  split
  · exact Wp.pure rfl
  · exact fun h => h

lemma dirlookup_same (name : Name) {c : Ictx} (hfull : NoHoles c.blk c.ip) :
    Wp (fun _ => False) (Sec.dirlookup G name) (fun _ c' => c' = c) c := by
  have hscan : ∀ fuel off, Wp (fun _ => False) (Sec.lookupFrom G name fuel off)
      (fun _ c' => c' = c) c := by
    intro fuel
    induction fuel with
    | zero => exact fun _ => Wp.pure rfl
    | succ fuel ih =>
      intro off
      rw [Sec.lookupFrom]
      refine Wp.get_bind ?_
      split
      · exact Wp.pure rfl
      · refine Wp.seq (readDirent_same _ off hfull) fun de c' h => ?_
        subst h
        split
        · exact Wp.pure rfl
        · exact ih _
  rw [Sec.dirlookup]
  refine Wp.get_bind ?_
  simp only
  split
  · exact hscan _ _
  · exact fun h => h

lemma emptyFrom_same (fuel off : ℕ) {c : Ictx} (hfull : NoHoles c.blk c.ip) :
    Wp (fun _ => False) (Sec.emptyFrom G fuel off) (fun _ c' => c' = c) c := by
  induction fuel generalizing off with
  | zero => exact Wp.pure rfl
  | succ fuel ih =>
    rw [Sec.emptyFrom]
    refine Wp.get_bind ?_
    split
    · exact Wp.pure rfl
    · refine Wp.seq (readDirent_same _ off hfull) fun de c' h => ?_
      subst h
      split
      · exact Wp.pure rfl
      · exact ih _

lemma tame_dirlink (dp : ℕ) (name : Name) (inum : ℕ) :
    Tame G L dp (Sec.dirlink G dp name inum) := by
  intro c hw hfull hip
  rw [Sec.dirlink]
  refine Wp.seq (dirlookup_same name hfull) fun r c' h => ?_
  subst h
  cases r with
  | some _ => exact Wp.pure ⟨hw, hfull, hip, .refl _ _ _⟩
  | none =>
  rw [Sec.dirlinkEntry]
  refine Wp.get_bind (Wp.seq (emptyFrom_same _ _ hfull) fun off c' h => ?_)
  subst h
  refine Wp.seq (tame_writei dp _ off DESIZE c' hw hfull hip) fun r c'' h => ?_
  exact Wp.pure h

/-! ### Inodes that have no blocks -/

lemma Solid.putDin_blank {d : Disk} (h : Solid G L d) {inum : ℕ} (hlt : inum < G.ninodes)
    (hnone : ∀ p, refs G d (G.din d) (inum, p) = 0) {x : Dinode} (haddrs : ∀ k, x.addrs k = 0)
    (hsize : x.size = 0) : Solid G L (G.putDin d inum x) := by
  have hdata : ∀ a, G.nmeta ≤ a → G.putDin d inum x a = d a :=
    fun a ha => Geometry.putDin_apply hlt x ha
  have hrefs : ∀ q, refs G (G.putDin d inum x) (G.din (G.putDin d inum x)) q =
      refs G d (G.din d) q := by
    rintro ⟨i, p⟩
    by_cases hi : i = inum
    · subst hi
      rw [hnone p, refs, Geometry.din_putDin, if_pos rfl]
      rw [ref_of_addrs_zero haddrs, ite_self]
    · refine refs_din_congr (fun _ => ?_) fun h0 => hdata _ (h.owned.range _ h0).1
      rw [Geometry.din_putDin, if_neg hi]
  refine ⟨h.owned.congr hrefs fun b hb => Geometry.bit_putDin hlt x hb, fun i hi htype n hn => ?_⟩
  rw [Geometry.din_putDin] at htype hn ⊢
  by_cases hne : i = inum
  · rw [if_pos hne, hsize] at hn
    exact absurd hn (Nat.not_lt_zero _)
  · rw [if_neg hne] at htype hn ⊢
    have hfull := h.noHoles i hi htype n hn
    have hb : blockAt (G.putDin d inum x) (G.din d i) n = blockAt d (G.din d i) n := by
      refine blockAt_congr (fun p _ => ref_congr (fun h0 => hdata _ ?_) p) n
      have hrange := h.owned.range (i, .indirect)
      rw [refs_of_alive hi htype] at hrange
      exact (hrange h0).1
    rwa [hb]

lemma keeps_free {inum : ℕ} (hlt : inum < G.ninodes) :
    Keeps G L (Seq.free G inum) fun _ => True := by
  refine Keeps.withInode (P := fun c c' => Solid G L c.blk → Solid G L c'.blk) hlt ?_
    fun _ _ hs h => h hs
  intro c hw hfull hip
  refine Wp.seq (P := fun _ c1 => (∀ k, c1.ip.addrs k = 0) ∧ c1.ip.size = 0 ∧
    (Solid G L c.blk → Solid G L c1.blk) ∧ Working G inum L c1 ∧ c1.ip = G.din c1.blk inum) ?_
    fun _ c1 h => ?_
  · refine ((itrunc_spec hw).weaken fun _ h => h.elim).mono fun _ c1 h => ?_
    obtain ⟨hip1, hdin1, hw1, ho1⟩ := h
    refine ⟨fun k => by rw [hip1], by rw [hip1], fun hs => ?_, hw1, hdin1⟩
    refine hs.of_working hw1 hdin1 ho1 fun n hn => ?_
    rw [hip1] at hn
    exact absurd hn (Nat.not_lt_zero _)
  · obtain ⟨haddrs, hsize, hsolid, hw1, hdin1⟩ := h
    refine Wp.bind (Wp.of_modify ?_)
    rw [Sec.iupdate]
    refine Wp.get_bind ((logWrite_wp fun l hs => ?_).weaken fun _ h => h.elim)
    refine (hsolid hs).putDin_blank hlt (fun p => ?_) (fun k => haddrs k) hsize
    rw [← Ictx.ino_eq_din hdin1, hw1.refs_self]
    exact ref_of_addrs_zero haddrs p

lemma keeps_iallocFrom (type : Int16) (left inum : ℕ) (hlt : inum + left ≤ G.ninodes) :
    Keeps G L (Seq.iallocFrom G type left inum) fun r => ∀ i, r = some i → i < G.ninodes := by
  induction left generalizing inum with
  | zero => exact Keeps.pure (by rintro _ ⟨⟩)
  | succ left ih =>
    intro s hs
    unfold Wp
    rw [Seq.iallocFrom]
    beta_reduce
    by_cases htype : (G.din s.blk inum).type = 0
    · rw [if_pos htype]
      cases hw : s.log.write (G.IBLOCK inum) with
      | ok r =>
        refine ⟨fun i h => ?_, hs.putDin_blank (by omega) (fun p => ?_) (fun _ => rfl) rfl⟩
        · obtain rfl := Option.some.inj h
          omega
        · exact if_neg fun h => h.2 htype
      | blocked => exact trivial
      | panic e => exact fun h => h
    · rw [if_neg htype]
      exact ih (inum + 1) (by omega) s hs

lemma keeps_ialloc (type : Int16) :
    Keeps G L (Seq.ialloc G type) fun r => ∀ i, r = some i → i < G.ninodes := by
  have := G.root_lt
  exact keeps_iallocFrom type _ _ (by omega)

lemma keeps_dirlookup {dp : ℕ} (hdp : dp < G.ninodes) (name : Name) :
    Keeps G L (Seq.withInode G dp (Sec.dirlookup G name)) fun _ => True :=
  (Tame.of_eq fun _ hfull => dirlookup_same name hfull).withInode hdp

lemma keeps_dirlink {dp : ℕ} (hdp : dp < G.ninodes) (name : Name) (inum : ℕ) :
    Keeps G L (Seq.dirlink G dp name inum) fun _ => True :=
  (tame_dirlink dp name inum).withInode hdp

lemma keeps_change {inum : ℕ} (hlt : inum < G.ninodes) {f : Dinode → Dinode}
    (hf : ∀ x, (f x).addrs = x.addrs ∧ (f x).size = x.size ∧ (f x).type = x.type) :
    Keeps G L (Seq.change G inum f) fun _ => True :=
  (tame_change inum hf).withInode hlt

lemma keeps_dots {dp inum : ℕ} (hlt : inum < G.ninodes) :
    Keeps G L (Seq.dots G dp inum) fun _ => True :=
  (keeps_dirlink hlt _ _).bind fun _ _ => Keeps.ite (keeps_dirlink hlt _ _) (Keeps.pure trivial)

lemma keeps_create {dp : ℕ} (hdp : dp < G.ninodes) (name : Name) (type major minor : Int16)
    (last : Bool) : Keeps G L (Seq.create G dp name type major minor last) fun _ => True := by
  rw [Seq.create]
  refine (keeps_dirlookup hdp name).bind fun r _ => ?_
  cases r with
  | some _ => exact Keeps.pure trivial
  | none =>
    refine (keeps_ialloc type).bind fun r hr => ?_
    cases r with
    | none => exact Keeps.pure trivial
    | some inum =>
      have hlt := hr inum rfl
      have hnew : Keeps G L (Seq.change G inum fun d =>
          { d with major := major, minor := minor, nlink := 1 }) fun _ => True :=
        keeps_change hlt fun _ => ⟨rfl, rfl, rfl⟩
      have hup : Keeps G L (Seq.change G dp fun d => { d with nlink := d.nlink + 1 })
          fun _ => True :=
        keeps_change hdp fun _ => ⟨rfl, rfl, rfl⟩
      have hundo : Keeps G L (Seq.change G inum fun d => { d with nlink := 0 }) fun _ => True :=
        keeps_change hlt fun _ => ⟨rfl, rfl, rfl⟩
      refine hnew.bind fun _ _ => ?_
      refine Keeps.bind (Keeps.ite (keeps_dots hlt) (Keeps.pure trivial)) fun ok _ => ?_
      refine Keeps.bind (Keeps.ite (keeps_dirlink hdp _ _) (Keeps.pure trivial)) fun ok' _ => ?_
      refine Keeps.ite ?_ (hundo.bind fun _ _ => ?_)
      · exact Keeps.ite (hup.bind fun _ _ => Keeps.pure trivial) (Keeps.pure trivial)
      · exact Keeps.ite ((keeps_free hlt).bind fun _ _ => Keeps.pure trivial) (Keeps.pure trivial)

lemma keeps_run (op : Op) (hlt : op.target < G.ninodes) : Keeps G L (op.run G) fun _ => True := by
  cases op with
  | writei inum src off n =>
    exact ((tame_writei inum src off n).withInode hlt).bind fun _ _ => Keeps.pure trivial
  | itrunc inum => exact (tame_itrunc inum).withInode hlt
  | free inum => exact keeps_free hlt
  | dirlink dp name inum => exact (keeps_dirlink hlt name inum).bind fun _ _ => Keeps.pure trivial
  | create dp name type major minor last =>
    exact (keeps_create hlt name type major minor last).bind fun _ _ => Keeps.pure trivial

lemma After.solid {d d' : Disk} (h : After G d d') (hd : Solid G L d) : Solid G L d' := by
  induction h with
  | refl => exact hd
  | step op l _ hlt hrun ih => exact ((keeps_run op hlt _ ih).result hrun).2

end Keeps

/-! ## Reads never allocate -/

/-- From a disk whose blocks are owned once and whose inodes have no holes, after every sequence
of operations no inode has a hole; so every `bmap` below the size looks up an address that is
there, and every `readi`, with any destination and with any log, ends, reads all the bytes it is
asked for up to the size if the destination is mapped, and changes neither a block nor the log. -/
theorem noHoles_reads (G : Geometry) (leaked : Set ℕ) (d d' : Disk) (hd : Solid G leaked d)
    (h : After G d d') (i : ℕ) (hi : i < G.ninodes) (htype : (G.din d' i).type ≠ 0) :
    NoHoles d' (G.din d' i) ∧ ∀ l : Log,
      (∀ n, n * BSIZE < (G.din d' i).size.toNat → blockAt d' (G.din d' i) n ≠ 0 ∧
        Sec.bmap G n ⟨d', l, G.din d' i⟩ =
          .ok (blockAt d' (G.din d' i) n, ⟨d', l, G.din d' i⟩)) ∧
      ∀ copyout off n, ∃ r, Sec.readi G copyout off n ⟨d', l, G.din d' i⟩ =
          .ok (r, ⟨d', l, G.din d' i⟩) ∧
        ((∀ j m, copyout j m = true) →
          r.1 = (readCount (G.din d' i).size.toNat off n : ℕ)) := by
  have hfull := (h.solid hd).noHoles i hi htype
  refine ⟨hfull, fun l => ⟨fun n hn => ⟨hfull n hn, bmap_eq (hfull n hn)⟩,
    fun copyout off n => ?_⟩⟩
  obtain ⟨r, hrun, hr⟩ := readi_eq (G := G) (c := ⟨d', l, G.din d' i⟩) hfull copyout off n
  exact ⟨r, hrun, fun hco => (hr hco).1⟩

/-- The small disk with the block 11 marked, to which nothing refers. -/
def leakyDisk : Disk := smallGeometry.putBit smallDisk 11 true

lemma solid_leakyDisk : Solid smallGeometry {11} leakyDisk := by
  have hdin : ∀ i, i < smallGeometry.ninodes →
      smallGeometry.din leakyDisk i = smallGeometry.din smallDisk i :=
    fun i hi => Geometry.din_putBit 11 true hi
  have hdata : ∀ a, smallGeometry.nmeta ≤ a → leakyDisk a = smallDisk a :=
    fun a ha => Geometry.putBit_apply (by decide) true ha
  have hsolid := solid_smallDisk
  have hfree : smallGeometry.bit smallDisk 11 = false := bit_smallDisk (by decide)
  refine ⟨?_, fun i hi htype n hn => ?_⟩
  · have htake := hsolid.owned.take (by decide) hfree fun b _ => Geometry.bit_putBit 11 b true
    rw [insert_empty_eq] at htake
    refine htake.congr (fun q => ?_) fun _ _ => rfl
    exact refs_din_congr (hdin q.1) fun h0 => hdata _ (hsolid.owned.range _ h0).1
  · rw [hdin i hi] at htype hn ⊢
    have hsame : blockAt leakyDisk (smallGeometry.din smallDisk i) n =
        blockAt smallDisk (smallGeometry.din smallDisk i) n := by
      refine blockAt_congr (fun p _ => ref_congr (fun h0 => hdata _ ?_) p) n
      have hrange := hsolid.owned.range (i, .indirect)
      rw [refs_of_alive hi htype] at hrange
      exact (hrange h0).1
    rw [hsame]
    exact hsolid.noHoles i hi htype n hn

/-- The empty file grows by one block. -/
theorem noHoles_reads_oneBlock :
    Solid smallGeometry {11} leakyDisk ∧ ∃ d', After smallGeometry leakyDisk d' ∧
      (smallGeometry.din d' 2).size = 1024 ∧ NoHoles d' (smallGeometry.din d' 2) := by
  have hany : ((Op.writei 2 (fun _ => some 7) 0 1024).run smallGeometry
      ⟨leakyDisk, (Log.init 30).beginOp⟩).any
      (fun r => (smallGeometry.din r.2.blk 2).size = 1024 ∧
        (smallGeometry.din r.2.blk 2).type ≠ 0) = true := by
    decide +kernel
  obtain ⟨⟨⟨⟩, s⟩, hrun, hs⟩ := Outcome.eq_ok_of_any hany
  obtain ⟨hsize, htype⟩ := of_decide_eq_true hs
  have hafter : After smallGeometry leakyDisk s.blk :=
    After.step _ _ .refl (by decide) hrun
  exact ⟨solid_leakyDisk, s.blk, hafter, hsize,
    (noHoles_reads smallGeometry {11} leakyDisk s.blk solid_leakyDisk hafter 2 (by decide)
      htype).1⟩

/-- An inode whose thirteen addresses are all the block 6. -/
def sharedFile : Dinode := ⟨T_FILE, 0, 0, 1, 13312, fun _ => 6⟩

/-- The small disk with `sharedFile` in the inode 2.  The block 6 is marked in the bitmap.  It is
the indirect block of the inode, and its first entry is the block 6 again. -/
def sharedDisk : Disk :=
  setAt (smallGeometry.putDin (smallGeometry.putBit smallDisk 6 true) 2 sharedFile) 6
    (putEntry Bytes.zero 0 6)

lemma din_sharedDisk {i : ℕ} (hi : i < 4) : smallGeometry.din sharedDisk i =
    if i = 2 then sharedFile else smallGeometry.din smallDisk i := by
  rw [sharedDisk, Geometry.din_update _ (Or.inr (by decide)) hi, Geometry.din_putDin,
    Geometry.din_putBit 6 true hi]

/-- Without the condition that blocks are owned once: every inode of the disk has a block for each
index below its size, marked in the bitmap, but after four zero bytes are written to the inode 2
its indirect block has lost its entry, and a `readi` outside a transaction reaches `log_write`. -/
theorem shared_block_makes_hole :
    (∀ i, i < smallGeometry.ninodes → (smallGeometry.din sharedDisk i).type ≠ 0 →
      ∀ n, n * BSIZE < (smallGeometry.din sharedDisk i).size.toNat →
        blockAt sharedDisk (smallGeometry.din sharedDisk i) n ≠ 0 ∧
        smallGeometry.bit sharedDisk (blockAt sharedDisk (smallGeometry.din sharedDisk i) n)) ∧
    ∃ d', After smallGeometry sharedDisk d' ∧ (smallGeometry.din d' 2).type ≠ 0 ∧
      ¬ NoHoles d' (smallGeometry.din d' 2) ∧
      Sec.readi smallGeometry (fun _ _ => true) 12288 1
        ⟨d', Log.init 30, smallGeometry.din d' 2⟩ = .panic .logWriteOutsideOfTrans := by
  refine ⟨fun i hi htype => ?_, ?_⟩
  · rw [din_sharedDisk hi] at htype ⊢
    by_cases h2 : i = 2
    · rw [if_pos h2]
      have hall : ∀ n, n < 13 → blockAt sharedDisk sharedFile n ≠ 0 ∧
          smallGeometry.bit sharedDisk (blockAt sharedDisk sharedFile n) = true := by
        decide +kernel
      intro n hn
      refine hall n ?_
      change n * 1024 < 13312 at hn
      omega
    · rw [if_neg h2] at htype ⊢
      rw [din_smallDisk hi, if_neg h2] at htype ⊢
      by_cases h1 : i = 1
      · rw [if_pos h1]
        have hroot : blockAt sharedDisk smallRoot 0 ≠ 0 ∧
            smallGeometry.bit sharedDisk (blockAt sharedDisk smallRoot 0) = true := by
          decide +kernel
        intro n hn
        obtain rfl : n = 0 := by
          change n * 1024 < 48 at hn
          omega
        exact hroot
      · rw [if_neg h1] at htype
        exact absurd rfl htype
  · have hany : ((Op.writei 2 (fun _ => some 0) 0 4).run smallGeometry
        ⟨sharedDisk, (Log.init 30).beginOp⟩).any
        (fun r => (smallGeometry.din r.2.blk 2).type ≠ 0 ∧
          (smallGeometry.din r.2.blk 2).size = 13312 ∧
          blockAt r.2.blk (smallGeometry.din r.2.blk 2) 12 = 0 ∧
          (Sec.readi smallGeometry (fun _ _ => true) 12288 1
            ⟨r.2.blk, Log.init 30, smallGeometry.din r.2.blk 2⟩).isPanic
              .logWriteOutsideOfTrans) = true := by
      decide +kernel
    obtain ⟨⟨⟨⟩, s⟩, hrun, hs⟩ := Outcome.eq_ok_of_any hany
    obtain ⟨htype, hsize, hhole, hpanic⟩ := of_decide_eq_true hs
    refine ⟨s.blk, .step _ _ .refl (by decide) hrun, htype, fun hfull => ?_,
      Outcome.eq_panic_of_isPanic hpanic⟩
    refine hfull 12 ?_ hhole
    rw [hsize]
    decide

end Xv6.Fs
