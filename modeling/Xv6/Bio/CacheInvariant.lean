import Xv6.Framework.Logic
import Xv6.Log.SyncInvariant
import Xv6.Bio.Cache

/-!
# The invariant of the buffer cache

The ghost of a process lists the references that it has: buffers that it waits for or is
giving back (`refs`) and buffers whose sleep lock it holds (`held`), each with what it knows
about the buffer.  A process in `commit` also knows the header and how many of its blocks it
has unpinned.

The heart of the invariant is `Cache.synced`: a block of the disk differs from the flat array
only while a valid buffer of the block is modified or pinned.  Such a buffer has a reference,
so it is not recycled, and a block that is read from the disk has its last contents there.
-/

namespace Xv6.Bio

open Concur

variable {N : ℕ}

/-- What the holder of a buffer's sleep lock knows about it. -/
inductive Hold where
  /-- The contents are still to be read. -/
  | loading
  /-- Modified, and neither logged nor written since. -/
  | dirty
  /-- Not modified since it was read or logged. -/
  | kept
  /-- The same on the disk. -/
  | synced
  deriving DecidableEq

structure Held where
  buf : Fin NBUF
  block : ℕ
  hold : Hold

/-- What the committer knows about the log. -/
structure Commit where
  cleared : Bool
  lh : List ℕ
  tail : ℕ

structure Ghost where
  refs : Multiset (Fin NBUF × ℕ)
  held : Multiset Held
  com : Option Commit
  op : Option (Finset ℕ)

/-- The references to a buffer. -/
def Ghost.uses (i : Fin NBUF) (g : Ghost) : ℕ :=
  (g.refs.map Prod.fst).count i + (g.held.map Held.buf).count i

/-- The flat array of blocks. -/
def St.flat (d : Disk) (s : St N) : Disk := lastStored d s.history

structure HeldOk (d : Disk) (s : St N) (t : Fin N) (h : Held) : Prop where
  lock : (s.buf h.buf).lock = some t
  dev : (s.buf h.buf).dev = ROOTDEV
  block : (s.buf h.buf).blockno = h.block
  valid : h.hold ≠ .loading → (s.buf h.buf).valid = true
  dirty : s.dirty h.buf = true ↔ h.hold = .dirty
  synced : h.hold = .synced → s.disk h.block = s.flat d h.block

/-- What the memory says about one process. -/
structure At (d : Disk) (s : St N) (t : Fin N) (g : Ghost) : Prop where
  refs : ∀ r ∈ g.refs, (s.buf r.1).dev = ROOTDEV ∧ (s.buf r.1).blockno = r.2
  held : ∀ h ∈ g.held, HeldOk d s t h
  lock : ∀ i, (s.buf i).lock = some t → ∃ h ∈ g.held, h.buf = i
  nodup : (g.held.map Held.buf).Nodup
  op : s.op t = g.op
  com : ∀ c ∈ g.com, s.log.lh = c.lh ∧ s.installed = c.lh.take c.tail

/-- The cache, the disk and the log against the flat array. -/
structure Cache (d : Disk) (s : St N) : Prop where
  lru : ∀ i, i ∈ s.lru
  unique : ∀ i j, (s.buf i).dev = ROOTDEV → (s.buf j).dev = ROOTDEV →
    (s.buf i).blockno = (s.buf j).blockno → i = j
  dev : ∀ i, (s.buf i).valid = true → (s.buf i).dev = ROOTDEV
  data : ∀ i, (s.buf i).valid = true → (s.buf i).data = s.flat d (s.buf i).blockno
  synced : ∀ b, s.disk b = s.flat d b ∨
    ∃ i, (s.buf i).valid = true ∧ (s.buf i).blockno = b ∧ (s.dirty i = true ∨ s.pins b = some i)
  dirty : ∀ i, s.dirty i = true → (s.buf i).lock ≠ none
  pinned : ∀ b i, s.pins b = some i →
    (s.buf i).dev = ROOTDEV ∧ (s.buf i).blockno = b ∧ (s.buf i).valid = true
  pins : ∀ b, (s.pins b).isSome = true ↔ b ∈ s.log.lh ∧ b ∉ s.installed
  idle : s.log.committing = false → s.installed = []
  faithful : Faithful d s.history

structure Inv (d : Disk) (size : ℕ) (s : St N) (L : Fin N → Ghost) : Prop where
  at_ : ∀ u, At d s u (L u)
  cache : Cache d s
  refcnt : ∀ i, (s.buf i).refcnt =
    ∑ u, (L u).uses i + if s.pins (s.buf i).blockno = some i then 1 else 0
  accounts : ∃ logged, LogSync.Accounts False size s.log s.op logged []
    fun u => (L u).com.map Commit.cleared

/-- The proof obligations: a process that keeps to the rules is not stopped by `bwrite`, `brelse`
or `end_op`. -/
def rules (N : ℕ) (d : Disk) (size : ℕ) : Rules Panic (St N) (Fin N) Ghost where
  inv := Inv d size
  guarantee _ _ := True
  excluded _ m := m = .bwrite ∨ m = .brelse ∨ m = .logCommitting

/-! ## Changes of one field of a buffer -/

section Fields

variable (s : St N) (i j : Fin NBUF)

@[simp] lemma setBuf_buf_self (x : Buf N) : (s.setBuf i x).buf i = x := Function.update_self ..

lemma setBuf_buf_of_ne {i j : Fin NBUF} (h : j ≠ i) (x : Buf N) :
    (s.setBuf i x).buf j = s.buf j := Function.update_of_ne h ..

lemma setRefcnt_field {γ : Type} (F : Buf N → γ) (hF : ∀ x n, F { x with refcnt := n } = F x)
    (n : ℕ) : F ((s.setRefcnt i n).buf j) = F (s.buf j) := by
  by_cases h : j = i
  · subst h
    simp [St.setRefcnt, hF]
  · simp [St.setRefcnt, setBuf_buf_of_ne s h]

@[simp] lemma setRefcnt_valid (n : ℕ) : ((s.setRefcnt i n).buf j).valid = (s.buf j).valid :=
  setRefcnt_field s i j Buf.valid (fun _ _ => rfl) n

@[simp] lemma setRefcnt_dev (n : ℕ) : ((s.setRefcnt i n).buf j).dev = (s.buf j).dev :=
  setRefcnt_field s i j Buf.dev (fun _ _ => rfl) n

@[simp] lemma setRefcnt_blockno (n : ℕ) : ((s.setRefcnt i n).buf j).blockno = (s.buf j).blockno :=
  setRefcnt_field s i j Buf.blockno (fun _ _ => rfl) n

@[simp] lemma setRefcnt_lock (n : ℕ) : ((s.setRefcnt i n).buf j).lock = (s.buf j).lock :=
  setRefcnt_field s i j Buf.lock (fun _ _ => rfl) n

@[simp] lemma setRefcnt_data (n : ℕ) : ((s.setRefcnt i n).buf j).data = (s.buf j).data :=
  setRefcnt_field s i j Buf.data (fun _ _ => rfl) n

@[simp] lemma setRefcnt_refcnt (n : ℕ) :
    ((s.setRefcnt i n).buf j).refcnt = if j = i then n else (s.buf j).refcnt := by
  by_cases h : j = i
  · subst h
    simp [St.setRefcnt]
  · simp [St.setRefcnt, setBuf_buf_of_ne s h, h]

lemma setLock_field {γ : Type} (F : Buf N → γ) (hF : ∀ x o, F { x with lock := o } = F x)
    (o : Option (Fin N)) : F ((s.setLock i o).buf j) = F (s.buf j) := by
  by_cases h : j = i
  · subst h
    simp [St.setLock, hF]
  · simp [St.setLock, setBuf_buf_of_ne s h]

section

variable (o : Option (Fin N))

include o

@[simp] lemma setLock_valid : ((s.setLock i o).buf j).valid = (s.buf j).valid :=
  setLock_field s i j Buf.valid (fun _ _ => rfl) o

@[simp] lemma setLock_dev : ((s.setLock i o).buf j).dev = (s.buf j).dev :=
  setLock_field s i j Buf.dev (fun _ _ => rfl) o

@[simp] lemma setLock_blockno : ((s.setLock i o).buf j).blockno = (s.buf j).blockno :=
  setLock_field s i j Buf.blockno (fun _ _ => rfl) o

@[simp] lemma setLock_refcnt : ((s.setLock i o).buf j).refcnt = (s.buf j).refcnt :=
  setLock_field s i j Buf.refcnt (fun _ _ => rfl) o

@[simp] lemma setLock_data : ((s.setLock i o).buf j).data = (s.buf j).data :=
  setLock_field s i j Buf.data (fun _ _ => rfl) o

@[simp] lemma setLock_lock :
    ((s.setLock i o).buf j).lock = if j = i then o else (s.buf j).lock := by
  by_cases h : j = i
  · subst h
    simp [St.setLock]
  · simp [St.setLock, setBuf_buf_of_ne s h, h]

end

end Fields

/-! ## References -/

section References

variable {d : Disk} {size : ℕ} {s s' : St N} {L : Fin N → Ghost} {t u : Fin N} {g : Ghost}

lemma At.frame (h : At d s u g) (hrefs : ∀ r ∈ g.refs, (s'.buf r.1).dev = (s.buf r.1).dev ∧
      (s'.buf r.1).blockno = (s.buf r.1).blockno)
    (hheld : ∀ x ∈ g.held, HeldOk d s u x → HeldOk d s' u x)
    (hlock : ∀ i, (s'.buf i).lock = some u → (s.buf i).lock = some u)
    (hop : s'.op u = s.op u)
    (hcom : g.com ≠ none → s'.log.lh = s.log.lh ∧ s'.installed = s.installed) :
    At d s' u g := by
  refine ⟨?_, fun x hx => hheld x hx (h.held x hx), fun i hi => h.lock i (hlock i hi), h.nodup,
    hop.trans h.op, ?_⟩
  · intro r hr
    obtain ⟨hdev, hblock⟩ := hrefs r hr
    rw [hdev, hblock]
    exact h.refs r hr
  · intro c hc
    obtain ⟨hlh, hinst⟩ := hcom (by rw [Option.mem_def.1 hc]; simp)
    rw [hlh, hinst]
    exact h.com c hc

lemma Inv.self (h : Inv d size s L) (hl : L t = g) : At d s t g := hl ▸ h.at_ t

lemma Inv.holds (h : Inv d size s L) {R : Multiset (Fin NBUF × ℕ)} {x : Held} {H : Multiset Held}
    {c : Option Commit} {o : Option (Finset ℕ)} (hl : L t = ⟨R, x ::ₘ H, c, o⟩) : HeldOk d s t x :=
  (h.self hl).held x (Multiset.mem_cons_self _ _)

lemma Ghost.uses_pos_of_ref {r : Fin NBUF × ℕ} (hr : r ∈ g.refs) : 0 < g.uses r.1 := by
  have : 0 < (g.refs.map Prod.fst).count r.1 :=
    Multiset.count_pos.2 (Multiset.mem_map_of_mem _ hr)
  unfold Ghost.uses
  omega

lemma Ghost.uses_pos_of_held {x : Held} (hx : x ∈ g.held) : 0 < g.uses x.buf := by
  have : 0 < (g.held.map Held.buf).count x.buf :=
    Multiset.count_pos.2 (Multiset.mem_map_of_mem _ hx)
  unfold Ghost.uses
  omega

section

variable (h : Inv d size s L)

include h

lemma Inv.refcnt_pos {i : Fin NBUF} (hu : 0 < (L u).uses i) :
    0 < (s.buf i).refcnt := by
  have hle : (L u).uses i ≤ ∑ v, (L v).uses i :=
    Finset.single_le_sum (f := fun v => (L v).uses i) (fun _ _ => Nat.zero_le _)
      (Finset.mem_univ u)
  have := h.refcnt i
  omega

lemma Inv.refcnt_pos_of_pin {i : Fin NBUF} {b : ℕ}
    (hb : s.pins b = some i) : 0 < (s.buf i).refcnt := by
  have hcnt := h.refcnt i
  rw [(h.cache.pinned b i hb).2.1, if_pos hb] at hcnt
  omega

lemma Inv.refcnt_pos_of_lock {i : Fin NBUF}
    (hlock : (s.buf i).lock ≠ none) : 0 < (s.buf i).refcnt := by
  obtain ⟨u, hu⟩ := Option.ne_none_iff_exists'.1 hlock
  obtain ⟨x, hx, rfl⟩ := (h.at_ u).lock i hu
  exact h.refcnt_pos (Ghost.uses_pos_of_held hx)

/-- Two processes do not hold the same buffer, and hence not the same block. -/
lemma Inv.held_ne {x : Held} {i : Fin NBUF} (hx : x ∈ (L u).held)
    (hlock : (s.buf i).lock = some t) (hut : u ≠ t) : x.buf ≠ i := by
  rintro rfl
  have := ((h.at_ u).held x hx).lock
  rw [hlock] at this
  exact hut (Option.some.inj this).symm

lemma Inv.block_ne {x : Held} {i : Fin NBUF} (hx : x ∈ (L u).held)
    (hdev : (s.buf i).dev = ROOTDEV) (hne : x.buf ≠ i) : x.block ≠ (s.buf i).blockno := by
  have hok := (h.at_ u).held x hx
  intro hb
  exact hne (h.cache.unique _ _ hok.dev hdev (hok.block.trans hb))

end

end References

end Xv6.Bio
