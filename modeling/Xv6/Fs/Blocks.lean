import Xv6.Framework.Ledger
import Xv6.Framework.Section
import Xv6.Fs.Inode

/-!
# Which blocks an inode owns

An inode refers to blocks from its direct slots, from its indirect slot, and from the entries
of the indirect block (`Place`, `ref`).  On a consistent disk the bitmap and these references
balance in the sense of `Framework/Ledger.lean`: a data block is in use exactly when one place
of one allocated inode refers to it.

While a routine works on an inode, the in-memory copy is ahead of the disk; `Working` is the
balance with the copy in place of the inode on the disk.  The specifications here say that the
allocator and `bmap` keep it, that a block they add to the inode reads as zeros (`Kept`), and
that nothing of the other inodes changes (`Others`).
-/

namespace Xv6.Fs

open Concur Concur.Bytes

/-- Where an inode can refer to a block from. -/
inductive Place where
  | direct (k : Fin NDIRECT)
  | indirect
  | entry (j : Fin NINDIRECT)
  deriving DecidableEq

/-- The block that the inode `x` refers to from a place; `0` if none. -/
def ref (d : Disk) (x : Dinode) : Place → ℕ
  | .direct k => (x.addrs k.castSucc).toNat
  | .indirect => (x.addrs (Fin.last NDIRECT)).toNat
  | .entry j =>
    if x.addrs (Fin.last NDIRECT) = 0 then 0
    else (getEntry (d (x.addrs (Fin.last NDIRECT)).toNat) j).toNat

/-- The place of the `n`th block of an inode's contents. -/
def dataPlace (n : ℕ) : Option Place :=
  if h : n < NDIRECT then some (.direct ⟨n, h⟩)
  else if h : n - NDIRECT < NINDIRECT then some (.entry ⟨n - NDIRECT, h⟩)
  else none

/-- The block number of the `n`th block of the inode's contents; `0` if none. -/
def blockAt (d : Disk) (x : Dinode) (n : ℕ) : ℕ := (dataPlace n).elim 0 (ref d x)

/-- The byte at the offset `o` of the inode's contents. -/
def content (d : Disk) (x : Dinode) (o : ℕ) : UInt8 :=
  if blockAt d x (o / BSIZE) = 0 then 0 else (d (blockAt d x (o / BSIZE))).get (o % BSIZE)

/-- The number of free blocks that `bmap` needs for the `n`th block of an inode. -/
def need (d : Disk) (x : Dinode) (n : ℕ) : ℕ :=
  if blockAt d x n ≠ 0 then 0
  else if n < NDIRECT ∨ x.addrs (Fin.last NDIRECT) ≠ 0 then 1
  else 2

/-- The references of all allocated inodes. -/
def refs (G : Geometry) (d : Disk) (ino : ℕ → Dinode) (q : ℕ × Place) : ℕ :=
  if q.1 < G.ninodes ∧ (ino q.1).type ≠ 0 then ref d (ino q.1) q.2 else 0

section Refs

variable {d d' : Disk} {x : Dinode}

lemma ref_indirect_eq_zero : ref d x .indirect = 0 ↔ x.addrs (Fin.last NDIRECT) = 0 := by
  rw [ref, ← UInt32.toNat_inj]
  rfl

lemma ref_congr (h : ref d x .indirect ≠ 0 → d' (ref d x .indirect) = d (ref d x .indirect))
    (p : Place) : ref d' x p = ref d x p := by
  cases p with
  | direct k => rfl
  | indirect => rfl
  | entry j =>
    simp only [ref]
    split
    · rfl
    · rename_i hne
      have hne' : ref d x .indirect ≠ 0 := fun h0 => hne (ref_indirect_eq_zero.1 h0)
      rw [show d' (x.addrs (Fin.last NDIRECT)).toNat = d (x.addrs (Fin.last NDIRECT)).toNat
        from h hne']

lemma ref_eq_of_addrs {y : Dinode} (h : y.addrs = x.addrs) (p : Place) :
    ref d y p = ref d x p := by
  cases p <;> simp only [ref, h]

lemma ref_of_addrs_zero (h : ∀ k, x.addrs k = 0) (p : Place) : ref d x p = 0 := by
  cases p <;> simp [ref, h]

lemma dataPlace_ne_indirect (n : ℕ) : dataPlace n ≠ some .indirect := by
  unfold dataPlace
  split
  · simp
  · split <;> simp

lemma dataPlace_inj {n m : ℕ} {p : Place} (hn : dataPlace n = some p)
    (hm : dataPlace m = some p) : n = m := by
  unfold dataPlace at hn hm
  split at hn
  · cases hn
    split at hm
    · cases hm
      rfl
    · split at hm <;> cases hm
  · split at hn
    · cases hn
      split at hm
      · cases hm
      · split at hm
        · simp only [Option.some.injEq, Place.entry.injEq, Fin.mk.injEq] at hm
          omega
        · cases hm
    · cases hn

lemma blockAt_of_dataPlace {n : ℕ} {p : Place} (h : dataPlace n = some p) :
    blockAt d x n = ref d x p := by
  rw [blockAt, h]
  rfl

lemma blockAt_of_no_indirect {n : ℕ} (hdir : ¬ n < NDIRECT) (h : x.addrs (Fin.last NDIRECT) = 0) :
    blockAt d x n = 0 := by
  rw [blockAt, dataPlace, dif_neg hdir]
  split
  · exact if_pos h
  · rfl

lemma need_eq (d : Disk) (x : Dinode) (n : ℕ) :
    need d x n = (if blockAt d x n = 0 then 1 else 0) +
      if NDIRECT ≤ n ∧ ref d x .indirect = 0 then 1 else 0 := by
  have hblock := blockAt_of_no_indirect (d := d) (x := x) (n := n)
  simp only [need, ref_indirect_eq_zero]
  grind

lemma blockAt_congr {x' : Dinode} (h : ∀ p, p ≠ .indirect → ref d' x' p = ref d x p) (n : ℕ) :
    blockAt d' x' n = blockAt d x n := by
  cases hp : dataPlace n with
  | none => rw [blockAt, blockAt, hp]; rfl
  | some p =>
    rw [blockAt_of_dataPlace hp, blockAt_of_dataPlace hp]
    exact h p fun hi => dataPlace_ne_indirect n (hi ▸ hp)

lemma blockAt_eq_ref {n : ℕ} (h : blockAt d x n ≠ 0) :
    ∃ p, p ≠ .indirect ∧ dataPlace n = some p ∧ ref d x p = blockAt d x n := by
  cases hp : dataPlace n with
  | none =>
    rw [blockAt, hp] at h
    exact absurd rfl h
  | some p =>
    exact ⟨p, fun hi => dataPlace_ne_indirect n (hi ▸ hp), rfl, (blockAt_of_dataPlace hp).symm⟩

end Refs

lemma refs_of_alive {G : Geometry} {d : Disk} {ino : ℕ → Dinode} {i : ℕ} (hi : i < G.ninodes)
    (htype : (ino i).type ≠ 0) (p : Place) : refs G d ino (i, p) = ref d (ino i) p :=
  if_pos ⟨hi, htype⟩

lemma refs_congr {G : Geometry} {d d' : Disk} {ino ino' : ℕ → Dinode}
    (hino : ∀ i, i < G.ninodes → (ino' i).type = (ino i).type)
    (href : ∀ i, i < G.ninodes → (ino i).type ≠ 0 → ∀ p, ref d' (ino' i) p = ref d (ino i) p)
    (q : ℕ × Place) : refs G d' ino' q = refs G d ino q := by
  unfold refs
  by_cases h : q.1 < G.ninodes ∧ (ino q.1).type ≠ 0
  · rw [if_pos h, if_pos ⟨h.1, (hino _ h.1).symm ▸ h.2⟩]
    exact href q.1 h.1 h.2 q.2
  · rw [if_neg h, if_neg]
    rintro ⟨hi, htype⟩
    exact h ⟨hi, hino _ hi ▸ htype⟩

/-! ## Working on one inode -/

/-- The inodes, with the in-memory copy of `inum` in place of the one on the disk. -/
def Ictx.ino (G : Geometry) (inum : ℕ) (c : Ictx) : ℕ → Dinode :=
  setAt (G.din c.blk) inum c.ip

/-- The allocated inode `inum` is locked, and the bitmap agrees with the references, its
in-memory ones included. -/
structure Working (G : Geometry) (inum : ℕ) (limbo : Set ℕ) (c : Ictx) : Prop where
  lt : inum < G.ninodes
  type_ne : c.ip.type ≠ 0
  owned : Ledger G.nmeta G.size (refs G c.blk (c.ino G inum)) limbo (G.bit c.blk)

/-- The other allocated inodes and their blocks are as before. -/
structure Others (G : Geometry) (inum : ℕ) (d d' : Disk) : Prop where
  din : ∀ j, j < G.ninodes → j ≠ inum → G.din d' j = G.din d j
  blocks : ∀ j, j < G.ninodes → j ≠ inum → (G.din d j).type ≠ 0 → ∀ p,
    ref d (G.din d j) p ≠ 0 → d' (ref d (G.din d j) p) = d (ref d (G.din d j) p)

namespace Others

variable {G : Geometry} {inum : ℕ} {d d' d'' : Disk}

lemma refl (G : Geometry) (inum : ℕ) (d : Disk) : Others G inum d d :=
  ⟨fun _ _ _ => rfl, fun _ _ _ _ _ _ => rfl⟩

section

variable (h : Others G inum d d')

include h

lemma ref_eq {j : ℕ} (hj : j < G.ninodes) (hne : j ≠ inum)
    (htype : (G.din d j).type ≠ 0) (p : Place) :
    ref d' (G.din d' j) p = ref d (G.din d j) p := by
  rw [h.din j hj hne]
  exact ref_congr (h.blocks j hj hne htype .indirect) p

lemma trans (h' : Others G inum d' d'') : Others G inum d d'' := by
  refine ⟨fun j hj hne => (h'.din j hj hne).trans (h.din j hj hne), ?_⟩
  intro j hj hne htype p hp
  have htype' : (G.din d' j).type ≠ 0 := by rwa [h.din j hj hne]
  have hb := h'.blocks j hj hne htype' p (by rwa [h.ref_eq hj hne htype])
  rw [h.ref_eq hj hne htype] at hb
  exact hb.trans (h.blocks j hj hne htype p hp)

lemma blockAt_eq {j : ℕ} (hj : j < G.ninodes) (hne : j ≠ inum)
    (htype : (G.din d j).type ≠ 0) (n : ℕ) :
    blockAt d' (G.din d' j) n = blockAt d (G.din d j) n :=
  blockAt_congr (fun p _ => h.ref_eq hj hne htype p) n

lemma content_eq {j : ℕ} (hj : j < G.ninodes) (hne : j ≠ inum)
    (htype : (G.din d j).type ≠ 0) (o : ℕ) :
    content d' (G.din d' j) o = content d (G.din d j) o := by
  unfold content
  rw [h.blockAt_eq hj hne htype]
  by_cases h0 : blockAt d (G.din d j) (o / BSIZE) = 0
  · rw [if_pos h0, if_pos h0]
  · obtain ⟨p, -, -, hp⟩ := blockAt_eq_ref h0
    rw [if_neg h0, if_neg h0, ← hp, h.blocks j hj hne htype p (by rwa [hp])]

end

end Others

lemma Ictx.refs_self {G : Geometry} {inum : ℕ} {c : Ictx} (hlt : inum < G.ninodes)
    (htype : c.ip.type ≠ 0) (p : Place) :
    refs G c.blk (c.ino G inum) (inum, p) = ref c.blk c.ip p := by
  have hino : c.ino G inum inum = c.ip := setAt_self _ _ _
  rw [refs_of_alive hlt (by rwa [hino]), hino]

lemma Ictx.refs_split {G : Geometry} {inum : ℕ} {c : Ictx} (hlt : inum < G.ninodes)
    (htype : c.ip.type ≠ 0) (q : ℕ × Place) :
    refs G c.blk (c.ino G inum) q =
      if q.1 = inum then ref c.blk c.ip q.2 else refs G c.blk (G.din c.blk) q := by
  obtain ⟨i, p⟩ := q
  by_cases hi : i = inum
  · subst hi
    rw [if_pos rfl, Ictx.refs_self hlt htype]
  · rw [if_neg hi]
    simp only [refs, Ictx.ino, setAt_of_ne _ _ hi]

lemma refs_din_congr {G : Geometry} {d d' : Disk} {q : ℕ × Place}
    (hdin : q.1 < G.ninodes → G.din d' q.1 = G.din d q.1)
    (hind : refs G d (G.din d) (q.1, .indirect) ≠ 0 →
      d' (refs G d (G.din d) (q.1, .indirect)) = d (refs G d (G.din d) (q.1, .indirect))) :
    refs G d' (G.din d') q = refs G d (G.din d) q := by
  unfold refs at hind ⊢
  by_cases hq : q.1 < G.ninodes
  · rw [hdin hq]
    by_cases htype : (G.din d q.1).type ≠ 0
    · rw [if_pos ⟨hq, htype⟩] at hind
      rw [if_pos ⟨hq, htype⟩, if_pos ⟨hq, htype⟩]
      exact ref_congr hind q.2
    · rw [if_neg fun h => htype h.2, if_neg fun h => htype h.2]
  · rw [if_neg fun h => hq h.1, if_neg fun h => hq h.1]

namespace Working

variable {G : Geometry} {inum : ℕ} {limbo : Set ℕ} {c c' : Ictx}

lemma refs_self (h : Working G inum limbo c) (p : Place) :
    refs G c.blk (c.ino G inum) (inum, p) = ref c.blk c.ip p :=
  Ictx.refs_self h.lt h.type_ne p

lemma refs_other {j : ℕ} (hj : j < G.ninodes) (hne : j ≠ inum)
    (htype : (G.din c.blk j).type ≠ 0) (p : Place) :
    refs G c.blk (c.ino G inum) (j, p) = ref c.blk (G.din c.blk j) p := by
  have hino : c.ino G inum j = G.din c.blk j := setAt_of_ne _ _ hne
  rw [refs_of_alive hj (by rwa [hino]), hino]

lemma refs_eq (hip : c'.ip = c.ip)
    (hdin : ∀ j, j < G.ninodes → j ≠ inum → G.din c'.blk j = G.din c.blk j)
    (hind : ∀ i, refs G c.blk (c.ino G inum) (i, .indirect) ≠ 0 →
      c'.blk (refs G c.blk (c.ino G inum) (i, .indirect)) =
        c.blk (refs G c.blk (c.ino G inum) (i, .indirect))) (q : ℕ × Place) :
    refs G c'.blk (c'.ino G inum) q = refs G c.blk (c.ino G inum) q := by
  have hino : ∀ i, i < G.ninodes → c'.ino G inum i = c.ino G inum i := by
    intro i hi
    by_cases hne : i = inum
    · subst hne
      simp [Ictx.ino, hip]
    · simp only [Ictx.ino, setAt_of_ne _ _ hne]
      exact hdin i hi hne
  refine refs_congr (fun i hi => by rw [hino i hi]) (fun i hi htype p => ?_) q
  rw [hino i hi]
  refine ref_congr (fun h0 => ?_) p
  have hrefs := refs_of_alive (d := c.blk) hi htype .indirect
  rw [← hrefs]
  exact hind i (by rwa [hrefs])

section

variable (h : Working G inum limbo c)

include h

lemma of_eq (hip : c'.ip = c.ip)
    (hdin : ∀ j, j < G.ninodes → j ≠ inum → G.din c'.blk j = G.din c.blk j)
    (hind : ∀ i, refs G c.blk (c.ino G inum) (i, .indirect) ≠ 0 →
      c'.blk (refs G c.blk (c.ino G inum) (i, .indirect)) =
        c.blk (refs G c.blk (c.ino G inum) (i, .indirect)))
    (hbit : ∀ b, b < G.size → G.bit c'.blk b = G.bit c.blk b) : Working G inum limbo c' :=
  ⟨h.lt, by rw [hip]; exact h.type_ne, h.owned.congr (refs_eq hip hdin hind) hbit⟩

lemma set_ip {x : Dinode} (haddrs : x.addrs = c.ip.addrs)
    (htype : x.type ≠ 0) : Working G inum limbo { c with ip := x } := by
  refine ⟨h.lt, htype, h.owned.congr (fun q => ?_) fun _ _ => rfl⟩
  rw [Ictx.refs_split h.lt (by exact htype), Ictx.refs_split h.lt h.type_ne,
    ref_eq_of_addrs haddrs]

lemma nmeta_le {p : Place} (hp : ref c.blk c.ip p ≠ 0) :
    G.nmeta ≤ ref c.blk c.ip p ∧ ref c.blk c.ip p < G.size := by
  have hr := h.owned.range (inum, p)
  rw [h.refs_self] at hr
  exact hr hp

lemma ref_inj {p q : Place} (hp : ref c.blk c.ip p ≠ 0)
    (heq : ref c.blk c.ip p = ref c.blk c.ip q) : p = q := by
  have hi := h.owned.inj (inum, p) (inum, q)
  rw [h.refs_self, h.refs_self] at hi
  exact congrArg Prod.snd (hi hp heq)

lemma ref_ne_other {p : Place} (hp : ref c.blk c.ip p ≠ 0) {q : ℕ × Place} (hq : q.1 ≠ inum) :
    refs G c.blk (c.ino G inum) q ≠ ref c.blk c.ip p := by
  intro heq
  have hi := h.owned.inj (inum, p) q
  rw [h.refs_self] at hi
  exact hq (congrArg Prod.fst (hi hp heq.symm)).symm

lemma write_data {b : ℕ} (v : Block) (l : Log)
    (hb : G.nmeta ≤ b) (hne : ∀ i, refs G c.blk (c.ino G inum) (i, .indirect) ≠ b) :
    Working G inum limbo { c with blk := setAt c.blk b v, log := l } := by
  have hbmap : G.bmapstart ≤ G.nmeta := Nat.le_add_right _ _
  refine h.of_eq rfl (fun j hj _ => ?_) (fun i _ => ?_) (fun a ha => ?_)
  · exact Geometry.din_update v (Or.inr (hbmap.trans hb)) hj
  · exact setAt_of_ne _ _ (hne i)
  · exact Geometry.bit_update v (Or.inr hb) ha

end

end Working

lemma Others.write_data {G : Geometry} {inum : ℕ} {c : Ictx} {b : ℕ} (v : Block) (hb : G.nmeta ≤ b)
    (hne : ∀ q : ℕ × Place, q.1 ≠ inum → refs G c.blk (c.ino G inum) q ≠ b) :
    Others G inum c.blk (setAt c.blk b v) := by
  have hbmap : G.bmapstart ≤ G.nmeta := Nat.le_add_right _ _
  refine ⟨fun j hj _ => Geometry.din_update v (Or.inr (hbmap.trans hb)) hj, ?_⟩
  intro j hj hji htype p hp
  refine setAt_of_ne _ _ fun heq => hne (j, p) hji ?_
  rw [Working.refs_other hj hji htype, heq]

/-! ## The log -/

/-- The messages with which a routine on a locked inode must not stop the machine: all but those
of `log_write`. -/
def Unexpected (m : Panic) : Prop := m ≠ .tooBigATransaction ∧ m ≠ .logWriteOutsideOfTrans

lemma logWrite_wp {c : Ictx} {b : ℕ} {v : Block} {Q : Unit → Ictx → Prop}
    (h : ∀ l, Q () { c with blk := setAt c.blk b v, log := l }) :
    Wp Unexpected (Sec.logWrite b v) Q c := by
  unfold Wp Sec.logWrite
  cases hw : c.log.write b with
  | ok r => exact h r.2
  | blocked => exact trivial
  | panic m =>
    rintro ⟨h1, h2⟩
    rcases Log.write_eq_panic hw with ⟨rfl, -⟩ | ⟨rfl, -⟩
    · exact h1 rfl
    · exact h2 rfl

lemma when_wp {C : Prop} [Decidable C] {m : Sec Unit} {c : Ictx} {Q : Unit → Ictx → Prop}
    (h : C → Wp Unexpected m Q c) (h' : ¬ C → Q () c) :
    Wp Unexpected (Sec.when C m) Q c := by
  unfold Sec.when
  by_cases hC : C
  · rw [if_pos hC]
    exact h hC
  · rw [if_neg hC]
    exact Wp.pure (h' hC)

/-! ## The allocator -/

lemma freeBit_spec (bp : Block) (left bi : ℕ) :
    match freeBit bp left bi with
    | none => ∀ j, bi ≤ j → j < bi + left → getBit bp j = true
    | some r => r < bi + left ∧ getBit bp r = false ∧ ∀ j, bi ≤ j → j < r → getBit bp j = true := by
  induction left generalizing bi with
  | zero => exact fun j hj hlt => absurd hlt (not_lt.2 hj)
  | succ left ih =>
    have hih := ih (bi + 1)
    rw [freeBit]
    cases hbit : getBit bp bi with
    | false => exact ⟨by omega, hbit, fun j hj hlt => absurd hlt (not_lt.2 hj)⟩
    | true =>
      have hhere : ∀ j, bi ≤ j → (bi + 1 ≤ j → getBit bp j = true) → getBit bp j = true := by
        intro j hj hlater
        rcases hj.eq_or_lt with rfl | hlt
        · exact hbit
        · exact hlater hlt
      rw [if_pos rfl]
      cases hf : freeBit bp left (bi + 1) with
      | none =>
        rw [hf] at hih
        exact fun j hj hlt => hhere j hj fun h => hih j h (by omega)
      | some r =>
        rw [hf] at hih
        exact ⟨by omega, hih.2.1, fun j hj hlt => hhere j hj fun h => hih.2.2 j h hlt⟩

/-- What `balloc` does with the free block `b` of the disk `d`. -/
def Sec.take (G : Geometry) (d : Disk) (b : ℕ) : Sec ℕ := do
  logWrite (G.BBLOCK b) (putBit (d (G.BBLOCK b)) (b % BPB) true)
  bzero b
  pure b

lemma ballocFrom_eq {G : Geometry} {d : Disk} (k b : ℕ) (hb : b % BPB = 0)
    (hsize : G.size ≤ b + k * BPB) (hbefore : ∀ a < b, a < G.size → G.bit d a = true) :
    ((∀ a < G.size, G.bit d a = true) ∧
      ∀ l x, Sec.ballocFrom G k b ⟨d, l, x⟩ = .ok (0, ⟨d, l, x⟩)) ∨
    ∃ f < G.size, G.bit d f = false ∧ (∀ a < f, G.bit d a = true) ∧
      ∀ l x, Sec.ballocFrom G k b ⟨d, l, x⟩ = Sec.take G d f ⟨d, l, x⟩ := by
  induction k generalizing b with
  | zero => exact Or.inl ⟨fun a ha => hbefore a (by omega) ha, fun _ _ => rfl⟩
  | succ k ih =>
    -- the bits of this block of the bitmap
    have hplace : ∀ j < BPB, G.BBLOCK (b + j) = G.BBLOCK b ∧ (b + j) % BPB = j := by
      intro j hj
      simp only [Geometry.BBLOCK, BPB_eq] at hb hj ⊢
      omega
    have hbit : ∀ j < BPB, G.bit d (b + j) = getBit (d (G.BBLOCK b)) j := by
      intro j hj
      rw [Geometry.bit, (hplace j hj).1, (hplace j hj).2]
    have hscan := freeBit_spec (d (G.BBLOCK b)) (min BPB (G.size - b)) 0
    have hmarked : ∀ n, (∀ j < n, getBit (d (G.BBLOCK b)) j = true) → n ≤ BPB →
        ∀ a < b + n, a < G.size → G.bit d a = true := by
      intro n hn hle a ha hlt
      by_cases hab : a < b
      · exact hbefore a hab hlt
      · rw [← Nat.add_sub_cancel' (not_lt.1 hab), hbit _ (by omega)]
        exact hn _ (by omega)
    cases hf : freeBit (d (G.BBLOCK b)) (min BPB (G.size - b)) 0 with
    | none =>
      rw [hf] at hscan
      have hrun : ∀ l x, Sec.ballocFrom G (k + 1) b ⟨d, l, x⟩ =
          Sec.ballocFrom G k (b + BPB) ⟨d, l, x⟩ := by
        intro l x
        rw [Sec.ballocFrom, run_get]
        simp only [hf]
      simp only [hrun]
      refine ih _ (by rwa [Nat.add_mod_right]) (by rw [Nat.succ_mul] at hsize; omega) ?_
      intro a ha hlt
      refine hmarked (min BPB (G.size - b)) (fun j hj => hscan j (Nat.zero_le _) ?_) ?_ a ?_ hlt
      all_goals omega
    | some r =>
      rw [hf] at hscan
      obtain ⟨hr, hfree, hleast⟩ := hscan
      have hlt : r < BPB := by omega
      refine Or.inr ⟨b + r, by omega, by rw [hbit r hlt, hfree], fun a ha => ?_, fun l x => ?_⟩
      · exact hmarked r (fun j hj => hleast j (Nat.zero_le _) hj) hlt.le a ha (by omega)
      · rw [Sec.ballocFrom, run_get, Sec.take, (hplace r hlt).1, (hplace r hlt).2]
        simp only [hf]

/-- `balloc` answers 0 if all blocks are marked, and takes the first free one otherwise. -/
lemma balloc_eq (G : Geometry) (d : Disk) :
    ((∀ a < G.size, G.bit d a = true) ∧ ∀ l x, Sec.balloc G ⟨d, l, x⟩ = .ok (0, ⟨d, l, x⟩)) ∨
    ∃ f < G.size, G.bit d f = false ∧ (∀ a < f, G.bit d a = true) ∧
      ∀ l x, Sec.balloc G ⟨d, l, x⟩ = Sec.take G d f ⟨d, l, x⟩ :=
  ballocFrom_eq _ 0 rfl (by rw [BPB_eq]; omega) fun _ h => absurd h (Nat.not_lt_zero _)

lemma balloc_wp {G : Geometry} {c : Ictx} {bad : Panic → Prop} {Q : ℕ → Ictx → Prop}
    (hfull : (∀ a < G.size, G.bit c.blk a = true) → Q 0 c)
    (htake : ∀ f < G.size, G.bit c.blk f = false → Wp bad (Sec.take G c.blk f) Q c) :
    Wp bad (Sec.balloc G) Q c := by
  unfold Wp
  rcases balloc_eq G c.blk with ⟨hall, hrun⟩ | ⟨f, hf, hfree, -, hrun⟩
  · rw [hrun c.log c.ip]
    exact hfull hall
  · rw [hrun c.log c.ip]
    exact htake f hf hfree

/-- What `balloc` has done when it answers `b`: the block is zeroed and in use, and nothing
refers to it yet. -/
structure Fresh (G : Geometry) (inum : ℕ) (L : Set ℕ) (c : Ictx) (b : ℕ) (c' : Ictx) : Prop where
  ip_eq : c'.ip = c.ip
  working : Working G inum (insert b L) c'
  notMem : b ∉ L
  zero : c'.blk b = Bytes.zero
  other : ∀ a, G.nmeta ≤ a → a ≠ b → c'.blk a = c.blk a
  din : ∀ j, j < G.ninodes → G.din c'.blk j = G.din c.blk j
  refs_eq : ∀ q, refs G c'.blk (c'.ino G inum) q = refs G c.blk (c.ino G inum) q

namespace Fresh

variable {G : Geometry} {inum : ℕ} {L : Set ℕ} {c c' : Ictx} {b : ℕ}

section

variable (h : Fresh G inum L c b c')

include h

lemma nmeta_le : G.nmeta ≤ b ∧ b < G.size :=
  h.working.owned.limbo_range b (Set.mem_insert _ _)

lemma refs_ne (q : ℕ × Place) :
    refs G c'.blk (c'.ino G inum) q ≠ b :=
  h.working.owned.limbo_free b (Set.mem_insert _ _) q

lemma ref_eq (hw : Working G inum L c) (p : Place) :
    ref c'.blk c'.ip p = ref c.blk c.ip p := by
  rw [← h.working.refs_self, ← hw.refs_self]
  exact h.refs_eq (inum, p)

lemma others (hw : Working G inum L c) :
    Others G inum c.blk c'.blk := by
  refine ⟨fun j hj _ => h.din j hj, fun j hj hne htype p hp => ?_⟩
  have hrefs := Working.refs_other hj hne htype p
  refine h.other _ ?_ ?_
  · rw [← hrefs] at hp ⊢
    exact (hw.owned.range _ hp).1
  · rw [← hrefs, ← h.refs_eq]
    exact h.refs_ne _

lemma toNat_ofNat : (UInt32.ofNat b).toNat = b := by
  have hb := h.nmeta_le.2
  have hsize := G.size_lt
  rw [UInt32.toNat_ofNat']
  exact Nat.mod_eq_of_lt (by omega)

lemma ofNat_ne_zero : UInt32.ofNat b ≠ 0 := by
  have hpos : 0 < b := lt_of_lt_of_le Geometry.nmeta_pos h.nmeta_le.1
  intro h0
  have := h.toNat_ofNat
  rw [h0] at this
  exact hpos.ne this

end

end Fresh

lemma Working.fresh {G : Geometry} {inum : ℕ} {L : Set ℕ} {c : Ictx} (h : Working G inum L c)
    {b : ℕ}
    (hb : b < G.size) (hfree : G.bit c.blk b = false) (l : Log) :
    Fresh G inum L c b { c with blk := setAt (G.putBit c.blk b true) b Bytes.zero, log := l } := by
  obtain ⟨hlo, hnotMem, hnew⟩ := h.owned.fresh hb hfree
  have hbmap : G.bmapstart ≤ G.nmeta := Nat.le_add_right _ _
  have hdin : ∀ j, j < G.ninodes →
      G.din (setAt (G.putBit c.blk b true) b Bytes.zero) j = G.din c.blk j := by
    intro j hj
    rw [Geometry.din_update _ (Or.inr (hbmap.trans hlo)) hj, Geometry.din_putBit b true hj]
  have hother : ∀ a, G.nmeta ≤ a → a ≠ b →
      setAt (G.putBit c.blk b true) b Bytes.zero a = c.blk a := by
    intro a ha hne
    rw [setAt_of_ne _ _ hne, Geometry.putBit_apply hb true ha]
  have hrefs : ∀ q, refs G _ (Ictx.ino G inum
      { c with blk := setAt (G.putBit c.blk b true) b Bytes.zero, log := l }) q =
        refs G c.blk (c.ino G inum) q :=
    Working.refs_eq rfl (fun j hj _ => hdin j hj)
      fun i hi => hother _ (h.owned.range _ hi).1 (hnew _)
  refine ⟨rfl, ⟨h.lt, h.type_ne, ?_⟩, hnotMem, setAt_self _ _ _, hother, hdin, hrefs⟩
  refine (h.owned.take hb hfree fun a ha => ?_).congr hrefs fun _ _ => rfl
  rw [Geometry.bit_update _ (Or.inr hlo) ha, Geometry.bit_putBit]

lemma balloc_spec {G : Geometry} {inum : ℕ} {L : Set ℕ} {c : Ictx} (h : Working G inum L c) :
    Wp Unexpected (Sec.balloc G)
      (fun r c' => (r = 0 ∧ c' = c ∧ ∀ a < G.size, G.bit c.blk a = true) ∨
        (r ≠ 0 ∧ Fresh G inum L c r c')) c := by
  refine balloc_wp (fun hall => Or.inl ⟨rfl, rfl, hall⟩) fun f hf hfree => ?_
  refine Wp.bind (logWrite_wp fun l => Wp.bind (logWrite_wp fun l' => Wp.pure (Or.inr ?_)))
  have hfresh := h.fresh hf hfree l'
  exact ⟨(lt_of_lt_of_le Geometry.nmeta_pos hfresh.nmeta_le.1).ne', hfresh⟩

/-! ## Recording a fresh block -/

/-- The place of `ip->addrs[k]`. -/
def slotOf (k : Fin (NDIRECT + 1)) : Place :=
  if h : k.val < NDIRECT then .direct ⟨k.val, h⟩ else .indirect

lemma ref_slotOf (d : Disk) (x : Dinode) (k : Fin (NDIRECT + 1)) :
    ref d x (slotOf k) = (x.addrs k).toNat := by
  unfold slotOf
  split
  · rfl
  · have hk : k = Fin.last NDIRECT := Fin.ext (by have := k.isLt; simp only [Fin.val_last]; omega)
    rw [hk]
    rfl

lemma slotOf_castSucc (k : Fin NDIRECT) : slotOf k.castSucc = .direct k := by
  rw [slotOf, dif_pos (by exact k.isLt)]
  rfl

lemma slotOf_last : slotOf (Fin.last NDIRECT) = .indirect := by
  simp [slotOf]

lemma ref_setAddr_direct (d : Disk) (x : Dinode) (i : Fin NDIRECT) (a : UInt32) (p : Place) :
    ref d { x with addrs := setAt x.addrs i.castSucc a } p =
      if p = .direct i then a.toNat else ref d x p := by
  have hlast : Fin.last NDIRECT ≠ i.castSucc := (Fin.castSucc_ne_last i).symm
  cases p with
  | direct j =>
    by_cases hij : j = i
    · subst hij
      simp [ref]
    · have hne : j.castSucc ≠ i.castSucc := fun h => hij (Fin.castSucc_injective _ h)
      simp [ref, setAt_of_ne _ _ hne, hij]
  | indirect => simp [ref, setAt_of_ne _ _ hlast]
  | entry j => simp [ref, setAt_of_ne _ _ hlast]

lemma ref_setAddr {d : Disk} {x : Dinode} {k : Fin (NDIRECT + 1)} {a : UInt32}
    (hk : x.addrs k = 0) (hz : d a.toNat = Bytes.zero) (p : Place) :
    ref d { x with addrs := setAt x.addrs k a } p =
      if p = slotOf k then a.toNat else ref d x p := by
  induction k using Fin.lastCases with
  | last =>
    rw [slotOf_last]
    cases p with
    | direct i => simp [ref, setAt_of_ne, Fin.castSucc_ne_last]
    | indirect => simp [ref]
    | entry j =>
      have hentry : getEntry (d a.toNat) j = 0 := by rw [hz, getEntry_zero]
      simp [ref, hk, hentry]
  | cast i =>
    rw [slotOf_castSucc]
    exact ref_setAddr_direct d x i a p

lemma ref_clear_last (d : Disk) (x : Dinode) (p : Place) :
    ref d { x with addrs := setAt x.addrs (Fin.last NDIRECT) 0 } p =
      match p with
      | .direct _ => ref d x p
      | _ => 0 := by
  cases p with
  | direct i => simp [ref, setAt_of_ne, Fin.castSucc_ne_last]
  | indirect => simp [ref]
  | entry j => simp [ref]

lemma ref_putEntry {d : Disk} {x : Dinode} {j : Fin NINDIRECT} {a : UInt32}
    (hind : ref d x .indirect ≠ 0) (p : Place) :
    ref (setAt d (ref d x .indirect) (putEntry (d (ref d x .indirect)) j a)) x p =
      if p = .entry j then a.toNat else ref d x p := by
  have hne : x.addrs (Fin.last NDIRECT) ≠ 0 := fun h => hind (ref_indirect_eq_zero.2 h)
  cases p with
  | direct k => simp [ref]
  | indirect => simp [ref]
  | entry j' =>
    simp only [ref, hne, ↓reduceIte, setAt_self, getEntry_putEntry _ j.isLt, Place.entry.injEq,
      Fin.ext_iff]
    split <;> rfl

/-- What a routine may do to the inode it works on without changing its contents: it can add
zeroed blocks. -/
structure Kept (G : Geometry) (inum : ℕ) (L : Set ℕ) (c c' : Ictx) : Prop where
  working : Working G inum L c'
  others : Others G inum c.blk c'.blk
  fields : c'.ip = { c.ip with addrs := c'.ip.addrs }
  grow : ∀ n, blockAt c.blk c.ip n ≠ 0 → blockAt c'.blk c'.ip n = blockAt c.blk c.ip n
  content_eq : ∀ o, content c'.blk c'.ip o = content c.blk c.ip o

namespace Kept

variable {G : Geometry} {inum : ℕ} {L : Set ℕ} {c c' c'' : Ictx}

lemma refl (h : Working G inum L c) : Kept G inum L c c :=
  ⟨h, .refl _ _ _, rfl, fun _ _ => rfl, fun _ => rfl⟩

lemma trans (h : Kept G inum L c c') (h' : Kept G inum L c' c'') : Kept G inum L c c'' := by
  refine ⟨h'.working, h.others.trans h'.others, ?_, fun n hn => ?_, fun o => ?_⟩
  · rw [h'.fields, h.fields]
  · rw [h'.grow n (by rwa [h.grow n hn]), h.grow n hn]
  · rw [h'.content_eq, h.content_eq]

lemma of_record (b : ℕ) (p0 : Place) (hworking : Working G inum L c')
    (hothers : Others G inum c.blk c'.blk)
    (hfields : c'.ip = { c.ip with addrs := c'.ip.addrs }) (hp₀ : ref c.blk c.ip p0 = 0)
    (hb : b ≠ 0) (hzero : c'.blk b = Bytes.zero)
    (href : ∀ p, ref c'.blk c'.ip p = if p = p0 then b else ref c.blk c.ip p)
    (hblk : ∀ p, p ≠ .indirect → ref c.blk c.ip p ≠ 0 →
      c'.blk (ref c.blk c.ip p) = c.blk (ref c.blk c.ip p)) : Kept G inum L c c' := by
  have hblock : ∀ n, blockAt c'.blk c'.ip n =
      if dataPlace n = some p0 then b else blockAt c.blk c.ip n := by
    intro n
    cases hp : dataPlace n with
    | none => simp [blockAt, hp]
    | some p => simp [blockAt_of_dataPlace hp, href]
  refine ⟨hworking, hothers, hfields, fun n hn => ?_, fun o => ?_⟩
  · rw [hblock, if_neg]
    intro hp
    rw [blockAt_of_dataPlace hp] at hn
    exact hn hp₀
  · unfold content
    rw [hblock]
    by_cases hp : dataPlace (o / BSIZE) = some p0
    · rw [if_pos hp, if_neg hb, hzero, get_zero, if_pos]
      rw [blockAt_of_dataPlace hp, hp₀]
    · rw [if_neg hp]
      by_cases h0 : blockAt c.blk c.ip (o / BSIZE) = 0
      · rw [if_pos h0, if_pos h0]
      · obtain ⟨p, hi, -, hpn⟩ := blockAt_eq_ref h0
        rw [if_neg h0, if_neg h0, ← hpn, hblk p hi (by rwa [hpn])]

end Kept

/-! ## `bmap` -/

section Bmap

variable {G : Geometry} {inum : ℕ} {L : Set ℕ} {c c' : Ictx} {b : ℕ}

section

variable (h : Fresh G inum L c b c') (hw : Working G inum L c)

include h hw

lemma Fresh.ref_setAddr {k : Fin (NDIRECT + 1)} (hk : c.ip.addrs k = 0) (p : Place) :
    ref c'.blk { c'.ip with addrs := setAt c'.ip.addrs k (UInt32.ofNat b) } p =
      if p = slotOf k then b else ref c.blk c.ip p := by
  have hb := h.toNat_ofNat
  rw [Xv6.Fs.ref_setAddr (by rw [h.ip_eq, hk]) (by rw [hb]; exact h.zero) p, hb, h.ref_eq hw]

lemma Fresh.setAddr {k : Fin (NDIRECT + 1)} (hk : c.ip.addrs k = 0) :
    Kept G inum L c
      { c' with ip := { c'.ip with addrs := setAt c'.ip.addrs k (UInt32.ofNat b) } } := by
  have href : ∀ p, ref c'.blk
      { c'.ip with addrs := setAt c'.ip.addrs k (UInt32.ofNat b) } p =
        if p = slotOf k then b else ref c'.blk c'.ip p := by
    intro p
    rw [h.ref_setAddr hw hk, h.ref_eq hw]
  have hempty : ref c'.blk c'.ip (slotOf k) = 0 := by
    rw [ref_slotOf, h.ip_eq, hk]
    rfl
  refine Kept.of_record b (slotOf k) ⟨hw.lt, h.working.type_ne, ?_⟩
    (h.others hw) (by simp [h.ip_eq]) (by rw [← h.ref_eq hw]; exact hempty)
    (fun h0 => h.ofNat_ne_zero (by rw [h0]; rfl)) h.zero
    (fun p => by rw [href, h.ref_eq hw]) (fun p _ hp => ?_)
  · refine h.working.owned.store h.notMem (p := (inum, slotOf k)) ?_ fun q => ?_
    · rw [h.working.refs_self, hempty]
    · rw [Ictx.refs_split hw.lt (by exact h.working.type_ne),
        Ictx.refs_split hw.lt h.working.type_ne]
      by_cases hq : q.1 = inum
      · simp only [hq, ↓reduceIte, href, Prod.ext_iff, true_and]
      · simp only [hq, ↓reduceIte, Prod.ext_iff, false_and]
  · refine h.other _ (hw.nmeta_le hp).1 fun heq => ?_
    rw [← h.ref_eq hw, ← h.working.refs_self] at heq
    exact h.refs_ne _ heq

lemma Fresh.putEntry {j : Fin NINDIRECT}
    (hind : ref c.blk c.ip .indirect ≠ 0) (hj : ref c.blk c.ip (.entry j) = 0) (l : Log) :
    Kept G inum L c { c' with
      blk := setAt c'.blk (ref c.blk c.ip .indirect)
        (putEntry (c'.blk (ref c.blk c.ip .indirect)) j (UInt32.ofNat b))
      log := l } := by
  have hb := h.toNat_ofNat
  have hi : ref c'.blk c'.ip .indirect ≠ 0 := by rwa [h.ref_eq hw]
  rw [← h.ref_eq hw .indirect] at hind ⊢
  have hmeta := h.working.nmeta_le hi
  have hother : ∀ q : ℕ × Place, q.1 ≠ inum →
      refs G c'.blk (c'.ino G inum) q ≠ ref c'.blk c'.ip .indirect :=
    fun q hq => h.working.ref_ne_other hi hq
  have hne : b ≠ ref c'.blk c'.ip .indirect := by
    rw [← h.working.refs_self]
    exact (h.refs_ne _).symm
  have hbmap : G.bmapstart ≤ G.nmeta := Nat.le_add_right _ _
  have href : ∀ p, ref (setAt c'.blk (ref c'.blk c'.ip .indirect)
      (Xv6.putEntry (c'.blk (ref c'.blk c'.ip .indirect)) j (UInt32.ofNat b))) c'.ip p =
        if p = .entry j then b else ref c'.blk c'.ip p := by
    intro p
    rw [ref_putEntry hi, hb]
  refine Kept.of_record b (.entry j) ⟨hw.lt, h.working.type_ne, ?_⟩
    ((h.others hw).trans (Others.write_data _ hmeta.1 hother)) (by simp [h.ip_eq]) hj
    (fun h0 => h.ofNat_ne_zero (by rw [h0]; rfl)) ?_ (fun p => ?_) (fun p hp hp0 => ?_)
  · refine (h.working.owned.store h.notMem (p := (inum, .entry j)) ?_ fun q => ?_).congr
      (fun _ => rfl) fun a ha => Geometry.bit_update _ (Or.inr hmeta.1) ha
    · rw [h.working.refs_self, h.ref_eq hw, hj]
    · rw [Ictx.refs_split hw.lt (by exact h.working.type_ne),
        Ictx.refs_split hw.lt h.working.type_ne]
      by_cases hq : q.1 = inum
      · simp only [hq, ↓reduceIte, href, Prod.ext_iff, true_and]
      · simp only [hq, ↓reduceIte, Prod.ext_iff, false_and]
        refine refs_din_congr (fun hlt => Geometry.din_update _ ?_ hlt) fun _ => ?_
        · exact Or.inr (hbmap.trans hmeta.1)
        · refine setAt_of_ne _ _ ?_
          have hne' := hother (q.1, .indirect) hq
          rwa [Ictx.refs_split hw.lt h.working.type_ne, if_neg hq] at hne'
  · simp only [setAt_of_ne _ _ hne, h.zero]
  · rw [href, h.ref_eq hw]
  · have hp' : ref c'.blk c'.ip p ≠ 0 := by rwa [h.ref_eq hw]
    rw [← h.ref_eq hw p]
    refine (setAt_of_ne _ _ fun heq => hp (h.working.ref_inj hp' heq)).trans ?_
    refine h.other _ (h.working.nmeta_le hp').1 ?_
    rw [← h.working.refs_self]
    exact h.refs_ne _

end

lemma ensureAddr_spec (hw : Working G inum L c) (k : Fin (NDIRECT + 1)) :
    Wp Unexpected (Sec.ensureAddr G k)
      (fun r c' => Kept G inum L c c' ∧ ref c'.blk c'.ip (slotOf k) = r ∧
        (ref c.blk c.ip (slotOf k) ≠ 0 → c' = c) ∧
        ∀ p, p ≠ slotOf k → ref c'.blk c'.ip p = ref c.blk c.ip p) c := by
  rw [Sec.ensureAddr]
  refine Wp.get_bind ?_
  by_cases hk : c.ip.addrs k = 0
  · have hempty : ref c.blk c.ip (slotOf k) = 0 := by
      rw [ref_slotOf, hk]
      rfl
    simp only [hk, ↓reduceIte]
    refine Wp.seq (balloc_spec hw) ?_
    rintro r c' (⟨rfl, rfl, -⟩ | ⟨hr, hfresh⟩)
    · exact Wp.pure ⟨.refl hw, hempty, fun _ => rfl, fun _ _ => rfl⟩
    · rw [if_neg hr]
      refine Wp.bind (Wp.of_modify (Wp.pure ?_))
      refine ⟨hfresh.setAddr hw hk, ?_, fun h => absurd hempty h, fun p hp => ?_⟩
      · rw [hfresh.ref_setAddr hw hk, if_pos rfl]
      · rw [hfresh.ref_setAddr hw hk, if_neg hp]
  · simp only [hk, ↓reduceIte]
    exact Wp.pure ⟨.refl hw, ref_slotOf _ _ _, fun _ => rfl, fun _ _ => rfl⟩

lemma blockAt_eq_of_ne {d d' : Disk} {x x' : Dinode} {n m : ℕ} {p0 : Place}
    (hn : dataPlace n = some p0)
    (h : ∀ p, p ≠ .indirect → p ≠ p0 → ref d' x' p = ref d x p) (hm : m ≠ n) :
    blockAt d' x' m = blockAt d x m := by
  cases hp : dataPlace m with
  | none => rw [blockAt, blockAt, hp]; rfl
  | some p =>
    rw [blockAt_of_dataPlace hp, blockAt_of_dataPlace hp]
    refine h p (fun hi => dataPlace_ne_indirect m (hi ▸ hp)) ?_
    rintro rfl
    exact hm (dataPlace_inj hp hn)

/-- `bmap` answers the block of the contents, or `0` if it could not be allocated; it leaves a
block that exists, and all the others. -/
lemma bmap_spec (hw : Working G inum L c) {n : ℕ} (hn : n < MAXFILE) :
    Wp Unexpected (Sec.bmap G n)
      (fun r c' => Kept G inum L c c' ∧ blockAt c'.blk c'.ip n = r ∧
        (blockAt c.blk c.ip n ≠ 0 → c' = c ∧ r = blockAt c.blk c.ip n) ∧
        ∀ m, m ≠ n → blockAt c'.blk c'.ip m = blockAt c.blk c.ip m) c := by
  rw [Sec.bmap]
  by_cases hdir : n < NDIRECT
  · have hplace : dataPlace n = some (slotOf ⟨n, Nat.lt_succ_of_lt hdir⟩) := by
      rw [dataPlace, dif_pos hdir, slotOf, dif_pos hdir]
    rw [dif_pos hdir]
    refine (ensureAddr_spec hw _).mono fun r c' h => ?_
    obtain ⟨hkept, hr, hsame, hother⟩ := h
    refine ⟨hkept, by rw [blockAt_of_dataPlace hplace, hr], fun h0 => ?_,
      fun m => blockAt_eq_of_ne hplace fun p _ => hother p⟩
    rw [blockAt_of_dataPlace hplace] at h0 ⊢
    obtain rfl := hsame h0
    exact ⟨rfl, hr.symm⟩
  · have hind : n - NDIRECT < NINDIRECT := by
      rw [MAXFILE] at hn
      omega
    have hplace : dataPlace n = some (.entry ⟨n - NDIRECT, hind⟩) := by
      rw [dataPlace, dif_neg hdir, dif_pos hind]
    rw [dif_neg hdir, if_pos hind]
    refine Wp.seq (ensureAddr_spec hw _) fun ind c' h => ?_
    obtain ⟨hkept, hr, hsame, hother⟩ := h
    rw [slotOf_last] at hr hsame hother
    have hleave : ∀ m, blockAt c'.blk c'.ip m = blockAt c.blk c.ip m := blockAt_congr hother
    have hentry : ∀ d x, ref d x .indirect = 0 → blockAt d x n = 0 := by
      intro d x h0
      rw [blockAt_of_dataPlace hplace, ref, if_pos (ref_indirect_eq_zero.1 h0)]
    by_cases h0 : ind = 0
    · rw [if_pos h0]
      refine Wp.pure ⟨hkept, hentry _ _ (hr.trans h0), fun hb => ?_, fun m _ => hleave m⟩
      have hi0 : ref c.blk c.ip .indirect ≠ 0 := fun h => hb (hentry _ _ h)
      obtain rfl := hsame hi0
      exact absurd (hr.trans h0) hi0
    · rw [if_neg h0]
      refine Wp.get_bind ?_
      have hi0 : ref c'.blk c'.ip .indirect ≠ 0 := hr.symm ▸ h0
      have hval : (getEntry (c'.blk ind) (n - NDIRECT)).toNat = blockAt c'.blk c'.ip n := by
        rw [blockAt_of_dataPlace hplace, ← hr, ref, ref,
          if_neg fun h => hi0 (ref_indirect_eq_zero.2 h)]
      have hback : blockAt c.blk c.ip n ≠ 0 → c' = c :=
        fun hb => hsame fun h => hb (hentry _ _ h)
      by_cases he : getEntry (c'.blk ind) (n - NDIRECT) = 0
      · have hnone : blockAt c'.blk c'.ip n = 0 := by
          rw [← hval, he]
          rfl
        have hno : blockAt c.blk c.ip n = 0 := by
          by_contra hb
          rw [hback hb] at hnone
          exact hb hnone
        simp only [he, ↓reduceIte]
        refine Wp.seq (balloc_spec hkept.working) ?_
        rintro r c'' (⟨rfl, rfl, -⟩ | ⟨hr0, hfresh⟩)
        · exact Wp.pure ⟨hkept, hnone, fun hb => absurd hno hb, fun m _ => hleave m⟩
        · rw [if_neg hr0]
          refine Wp.get_bind (Wp.bind (logWrite_wp fun l => Wp.pure ?_))
          rw [blockAt_of_dataPlace hplace] at hnone
          have hput := hfresh.putEntry hkept.working hi0 hnone l
          rw [hr] at hput
          have hr' : ref c''.blk c''.ip .indirect = ind := by
            rw [hfresh.ref_eq hkept.working, hr]
          have href := fun p => ref_putEntry (d := c''.blk) (x := c''.ip)
            (j := ⟨n - NDIRECT, hind⟩) (a := UInt32.ofNat r) (hr'.symm ▸ h0) p
          simp only [hr', hfresh.toNat_ofNat, hfresh.ref_eq hkept.working] at href
          refine ⟨hkept.trans hput, ?_, fun hb => absurd hno hb, fun m hm => ?_⟩
          · rw [blockAt_of_dataPlace hplace]
            exact (href _).trans (if_pos rfl)
          · rw [← hleave m]
            exact blockAt_eq_of_ne hplace (fun p _ hp => (href p).trans (if_neg hp)) hm
      · simp only [he, ↓reduceIte]
        refine Wp.pure ⟨hkept, hval.symm, fun hb => ?_, fun m _ => hleave m⟩
        obtain rfl := hback hb
        exact ⟨rfl, hval⟩

end Bmap

/-! ## `itrunc` -/

/-- Only the bitmap and the log differ. -/
structure SameData (G : Geometry) (c c' : Ictx) : Prop where
  ip_eq : c'.ip = c.ip
  data : ∀ a, G.nmeta ≤ a → c'.blk a = c.blk a
  din : ∀ j, j < G.ninodes → G.din c'.blk j = G.din c.blk j

lemma SameData.trans {G : Geometry} {c c' c'' : Ictx} (h : SameData G c c')
    (h' : SameData G c' c'') : SameData G c c'' :=
  ⟨h'.ip_eq.trans h.ip_eq, fun a ha => (h'.data a ha).trans (h.data a ha),
    fun j hj => (h'.din j hj).trans (h.din j hj)⟩

lemma SameData.others {G : Geometry} {inum : ℕ} {L : Set ℕ} {c c' : Ictx} (h : SameData G c c')
    (hw : Working G inum L c) : Others G inum c.blk c'.blk := by
  refine ⟨fun j hj _ => h.din j hj, fun j hj hne htype p hp => h.data _ ?_⟩
  have hrange := hw.owned.range (j, p)
  rw [Working.refs_other hj hne htype] at hrange
  exact (hrange hp).1

section Itrunc

variable {G : Geometry} {inum : ℕ} {L : Set ℕ} {c c' : Ictx}

lemma bfree_spec {R : ℕ × Place → ℕ} (h : Ledger G.nmeta G.size R L (G.bit c.blk))
    {q : ℕ × Place} (hq : R q ≠ 0) :
    Wp Unexpected (Sec.bfree G (R q))
      (fun _ c' => SameData G c c' ∧
        Ledger G.nmeta G.size (fun r => if r = q then 0 else R r) L (G.bit c'.blk)) c := by
  have hlt := (h.range q hq).2
  have hbit : getBit (c.blk (G.BBLOCK (R q))) (R q % BPB) = true := h.used_of_ref hq
  rw [Sec.bfree]
  refine Wp.get_bind ?_
  simp only [hbit, ↓reduceIte]
  refine logWrite_wp fun l => ⟨⟨rfl, fun a ha => ?_, fun j hj => ?_⟩, ?_⟩
  · exact Geometry.putBit_apply hlt false ha
  · exact Geometry.din_putBit (R q) false hj
  · exact h.release hq (fun _ => rfl) fun a _ => Geometry.bit_putBit (R q) a false

lemma Working.of_ledger (hw : Working G inum L c) (hs : SameData G c { c' with ip := c.ip })
    (htype : c'.ip.type = c.ip.type) {R : ℕ × Place → ℕ}
    (hR : ∀ q, q.1 ≠ inum → R q = refs G c.blk (c.ino G inum) q)
    (hself : ∀ p, R (inum, p) = ref c'.blk c'.ip p)
    (h : Ledger G.nmeta G.size R L (G.bit c'.blk)) : Working G inum L c' := by
  have htype' : c'.ip.type ≠ 0 := htype ▸ hw.type_ne
  refine ⟨hw.lt, htype', h.congr (fun q => ?_) fun _ _ => rfl⟩
  rw [Ictx.refs_split hw.lt htype']
  by_cases hq : q.1 = inum
  · obtain ⟨i, p⟩ := q
    obtain rfl : i = inum := hq
    rw [if_pos rfl, hself]
  · rw [if_neg hq, hR q hq, Ictx.refs_split hw.lt hw.type_ne, if_neg hq]
    refine refs_din_congr (hs.din q.1) fun h0 => hs.data _ ?_
    have hrange := hw.owned.range (q.1, .indirect)
    rw [Ictx.refs_split hw.lt hw.type_ne, if_neg hq] at hrange
    exact (hrange h0).1

lemma Working.clearDirect (hw : Working G inum L c) {i : Fin NDIRECT} {c' : Ictx}
    (hs : SameData G c c')
    (h : Ledger G.nmeta G.size
      (fun r => if r = (inum, Place.direct i) then 0 else refs G c.blk (c.ino G inum) r) L
      (G.bit c'.blk)) :
    Working G inum L
      { c' with ip := { c'.ip with addrs := setAt c'.ip.addrs i.castSucc 0 } } := by
  refine hw.of_ledger ⟨rfl, hs.data, hs.din⟩ (by simp [hs.ip_eq]) (fun q hq => ?_)
    (fun p => ?_) h
  · exact if_neg fun heq => hq (congrArg Prod.fst heq)
  · have href : ref c'.blk c'.ip p = ref c.blk c.ip p := by
      rw [hs.ip_eq]
      exact ref_congr (fun h0 => hs.data _ (hw.nmeta_le h0).1) p
    simp only [ref_setAddr_direct, Prod.mk.injEq, true_and, hw.refs_self, href]
    rfl

lemma freeDirect_spec (is : List (Fin NDIRECT)) (hw : Working G inum L c) :
    Wp Unexpected (Sec.freeDirect G is)
      (fun _ c' => Working G inum L c' ∧ SameData G c { c' with ip := c.ip } ∧
        c'.ip = { c.ip with addrs := c'.ip.addrs } ∧
        c'.ip.addrs (Fin.last NDIRECT) = c.ip.addrs (Fin.last NDIRECT) ∧
        ∀ i : Fin NDIRECT, (i ∈ is ∨ c.ip.addrs i.castSucc = 0) →
          c'.ip.addrs i.castSucc = 0) c := by
  induction is generalizing c with
  | nil =>
    refine Wp.pure ⟨hw, ⟨rfl, fun _ _ => rfl, fun _ _ => rfl⟩, rfl, rfl, fun i hi => ?_⟩
    simpa using hi
  | cons i is ih =>
    rw [Sec.freeDirect]
    refine Wp.get_bind ?_
    simp only
    refine Wp.bind (when_wp (fun ha => ?_) fun ha => ?_)
    · have href : refs G c.blk (c.ino G inum) (inum, .direct i) =
          (c.ip.addrs i.castSucc).toNat := hw.refs_self _
      have h0 : refs G c.blk (c.ino G inum) (inum, .direct i) ≠ 0 := by
        rw [href]
        exact fun h0 => ha (UInt32.toNat_inj.1 h0)
      rw [← href]
      refine Wp.seq (bfree_spec hw.owned h0) fun _ c1 h1 => Wp.of_modify ?_
      refine (ih (hw.clearDirect h1.1 h1.2)).mono fun _ c2 h2 => ?_
      obtain ⟨hw2, hs2, hf2, hl2, hz2⟩ := h2
      refine ⟨hw2, ?_, ?_, ?_, ?_⟩
      · exact ⟨rfl, fun a ha => (hs2.data a ha).trans (h1.1.data a ha),
          fun j hj => (hs2.din j hj).trans (h1.1.din j hj)⟩
      · rw [hf2]
        simp [h1.1.ip_eq]
      · rw [hl2]
        simp only
        rw [setAt_of_ne _ _ (Fin.castSucc_ne_last i).symm, h1.1.ip_eq]
      · intro k hk
        refine hz2 k ?_
        by_cases hki : k = i
        · subst hki
          exact Or.inr (setAt_self _ _ _)
        · have hne : k.castSucc ≠ i.castSucc := fun h => hki (Fin.castSucc_injective _ h)
          rcases hk with hk | hk
          · exact Or.inl ((List.mem_cons.1 hk).resolve_left hki)
          · refine Or.inr ?_
            simp only
            rw [setAt_of_ne _ _ hne, h1.1.ip_eq, hk]
    · refine (ih hw).mono fun _ c2 h2 => ?_
      obtain ⟨hw2, hs2, hf2, hl2, hz2⟩ := h2
      refine ⟨hw2, hs2, hf2, hl2, fun k hk => hz2 k ?_⟩
      rcases hk with hk | hk
      · rcases List.mem_cons.1 hk with rfl | hk
        · exact Or.inr (not_not.1 ha)
        · exact Or.inl hk
      · exact Or.inr hk

lemma without_cons (inum : ℕ) (R : ℕ × Place → ℕ) (j : Fin NINDIRECT)
    (js : List (Fin NINDIRECT)) (q : ℕ × Place) :
    (if ∃ j' ∈ j :: js, q = (inum, Place.entry j') then 0 else R q) =
      if ∃ j' ∈ js, q = (inum, Place.entry j') then 0
      else if q = (inum, .entry j) then 0 else R q := by
  by_cases hq : ∃ j' ∈ js, q = (inum, Place.entry j')
  · obtain ⟨j', hj', rfl⟩ := hq
    rw [if_pos ⟨j', List.mem_cons_of_mem _ hj', rfl⟩, if_pos ⟨j', hj', rfl⟩]
  · rw [if_neg hq]
    by_cases hqj : q = (inum, .entry j)
    · rw [if_pos hqj, if_pos ⟨j, List.mem_cons_self, hqj⟩]
    · rw [if_neg hqj, if_neg]
      rintro ⟨j', hj', rfl⟩
      rcases List.mem_cons.1 hj' with rfl | hj'
      · exact hqj rfl
      · exact hq ⟨j', hj', rfl⟩

/-- The entries of an indirect block are freed one by one; the block itself still lists them. -/
lemma freeEntries_spec (inum : ℕ) (bp : Block) (js : List (Fin NINDIRECT)) (hjs : js.Nodup)
    {R : ℕ × Place → ℕ} (h : Ledger G.nmeta G.size R L (G.bit c.blk))
    (hbp : ∀ j ∈ js, R (inum, .entry j) = (getEntry bp j).toNat) :
    Wp Unexpected (Sec.freeEntries G bp js)
      (fun _ c' => SameData G c c' ∧
        Ledger G.nmeta G.size
          (fun q => if ∃ j ∈ js, q = (inum, Place.entry j) then 0 else R q) L
          (G.bit c'.blk)) c := by
  induction js generalizing c R with
  | nil =>
    refine Wp.pure ⟨⟨rfl, fun _ _ => rfl, fun _ _ => rfl⟩, ?_⟩
    simpa using h
  | cons j js ih =>
    obtain ⟨hj, hjs⟩ := List.nodup_cons.1 hjs
    have hval := hbp j List.mem_cons_self
    have hrest := fun j' hj' => hbp j' (List.mem_cons_of_mem _ hj')
    simp only [without_cons]
    rw [Sec.freeEntries]
    refine Wp.bind (when_wp (fun ha => ?_) fun ha => ?_)
    · have h0 : R (inum, .entry j) ≠ 0 := by
        rw [hval]
        exact fun h0 => ha (UInt32.toNat_inj.1 h0)
      rw [← hval]
      refine (bfree_spec h h0).mono fun _ c1 h1 => ?_
      refine (ih hjs h1.2 fun j' hj' => ?_).mono fun _ c2 h2 => ⟨h1.1.trans h2.1, h2.2⟩
      have hne : j' ≠ j := fun heq => hj (heq ▸ hj')
      rw [if_neg (by simp [hne]), hrest j' hj']
    · have h0 : R (inum, .entry j) = 0 := by
        rw [hval, not_not.1 ha]
        rfl
      have hR : ∀ q, (if q = (inum, .entry j) then 0 else R q) = R q := by
        intro q
        by_cases hq : q = (inum, .entry j)
        · rw [if_pos hq, hq, h0]
        · rw [if_neg hq]
      simp only [hR]
      exact ih hjs h hrest

lemma freeIndirect_spec (hw : Working G inum L c) (hind : c.ip.addrs (Fin.last NDIRECT) ≠ 0) :
    Wp Unexpected (do
      Sec.freeEntries G ((← get).blk (c.ip.addrs (Fin.last NDIRECT)).toNat)
        (List.finRange NINDIRECT)
      Sec.bfree G (c.ip.addrs (Fin.last NDIRECT)).toNat
      Sec.setAddr (Fin.last NDIRECT) 0)
      (fun _ c' => Working G inum L c' ∧ SameData G c { c' with ip := c.ip } ∧
        c'.ip = { c.ip with addrs := setAt c.ip.addrs (Fin.last NDIRECT) 0 }) c := by
  have hi : ref c.blk c.ip .indirect = (c.ip.addrs (Fin.last NDIRECT)).toNat := rfl
  have hi0 : ref c.blk c.ip .indirect ≠ 0 := fun h => hind (ref_indirect_eq_zero.1 h)
  refine Wp.get_bind (Wp.seq (freeEntries_spec inum _ _ (List.nodup_finRange _) hw.owned
    fun j _ => ?_) fun _ c1 h1 => ?_)
  · rw [hw.refs_self, ref, if_neg hind]
  obtain ⟨hs1, hl1⟩ := h1
  have hR : (if ∃ j ∈ List.finRange NINDIRECT, ((inum, Place.indirect) : ℕ × Place) =
      (inum, Place.entry j) then 0 else refs G c.blk (c.ino G inum) (inum, .indirect)) =
        (c.ip.addrs (Fin.last NDIRECT)).toNat := by
    rw [if_neg (by simp), hw.refs_self]
    rfl
  have hbf := bfree_spec hl1 (q := (inum, .indirect)) (by rw [hR, ← hi]; exact hi0)
  rw [hR] at hbf
  refine Wp.seq hbf fun _ c2 h2 => Wp.of_modify ?_
  obtain ⟨hs2, hl2⟩ := h2
  have hs := hs1.trans hs2
  have hsame : SameData G c { c2 with ip := c.ip } := ⟨rfl, hs.data, hs.din⟩
  refine ⟨hw.of_ledger hsame (by simp [hs.ip_eq]) (fun q hq => ?_) (fun p => ?_) hl2, hsame,
    by simp [hs.ip_eq]⟩
  · rw [if_neg fun heq => hq (congrArg Prod.fst heq), if_neg]
    rintro ⟨j, -, heq⟩
    exact hq (congrArg Prod.fst heq)
  · simp only [ref_clear_last]
    cases p with
    | direct i =>
      rw [if_neg (by simp), if_neg (by simp), hw.refs_self, hs.ip_eq]
      rfl
    | indirect => rw [if_pos rfl]
    | entry j =>
      rw [if_neg (by simp), if_pos ⟨j, List.mem_finRange j, rfl⟩]

end Itrunc

end Xv6.Fs
