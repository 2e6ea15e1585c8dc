import Xv6.Framework.Crash
import Xv6.Param

/-!
# Crash atomicity of the redo log

`kernel/log.c` commits a transaction by copying its blocks to the log area, writing the log
header (the commit point), copying the blocks to their home locations and clearing the
header.  After a crash `recover_from_log` repeats the copying for the blocks that the header
on the disk names.

The model keeps what is on the disk and what `bread` returns apart: a block of a transaction
that is not committed has its new contents only in the buffer cache.  A reboot forgets the
cache.  Each `bwrite` is one action, so a crash can fall between any two block writes; the
writes are also recorded in order (`trace`), which is how the statement says that a
particular one has reached the disk.

The proof follows the disk through three phases: the header is empty and the home locations
are old (`Clean` at the old contents); the header names the transaction and the log holds its
blocks, with the home locations in any mixture (`Logged`); the header is empty and the home
locations are new (`Clean` at the new contents).  A recovery keeps the first and the last and
leads from the second to the last, so no number of crashes inside recoveries matters.
-/

namespace Xv6.Redo

open Concur Concur.Bytes

/-! ## The log header block -/

/-- `lh->n` of a header block, as an unsigned number. -/
def headN (b : Block) : ℕ := rdLE b 0 4

/-- `lh->block[0..n)` of a header block.  `n` is a signed `int`: a negative one makes the
loop of `read_head` empty. -/
def headBlocks (b : Block) : List ℕ :=
  if headN b < 2 ^ 31 then (List.range (headN b)).map fun i => rdLE b (4 + 4 * i) 4 else []

/-- Store `xs` into `hb->block[i]`, `hb->block[i+1]`, … -/
def putBlocks (b : Block) : ℕ → List ℕ → Block
  | _, [] => b
  | i, x :: xs => putBlocks (b.splice (4 + 4 * i) 4 (leByte x)) (i + 1) xs

/-- Store a header into a block: `n` and the first `n` entries of `block`. -/
def putHead (b : Block) (lh : List ℕ) : Block :=
  putBlocks (b.splice 0 4 (leByte lh.length)) 0 lh

lemma rdLE_putBlocks_before (b : Block) (i : ℕ) (xs : List ℕ) {off : ℕ}
    (h : off + 4 ≤ 4 + 4 * i) : rdLE (putBlocks b i xs) off 4 = rdLE b off 4 := by
  induction xs generalizing b i with
  | nil => rfl
  | cons x xs ih =>
    rw [putBlocks, ih _ _ (by omega), rdLE_splice_of_disjoint _ _ (by omega)]

lemma rdLE_putBlocks_get (b : Block) (i : ℕ) (xs : List ℕ) {j : ℕ} (hj : j < xs.length)
    (h : 4 + 4 * (i + xs.length) ≤ BSIZE) :
    rdLE (putBlocks b i xs) (4 + 4 * (i + j)) 4 = xs[j] % 2 ^ 32 := by
  induction xs generalizing b i j with
  | nil => simp at hj
  | cons x xs ih =>
    rw [List.length_cons] at h
    cases j with
    | zero =>
      rw [putBlocks, rdLE_putBlocks_before _ _ _ (by omega)]
      exact rdLE_splice_leByte b x (by omega)
    | succ j =>
      have hidx : i + (j + 1) = i + 1 + j := by omega
      rw [putBlocks, hidx]
      exact ih _ _ (by simpa using hj) (by omega)

lemma headN_putHead (b : Block) {lh : List ℕ} (h : lh.length ≤ LOGSIZE) :
    headN (putHead b lh) = lh.length := by
  rw [LOGSIZE_eq] at h
  rw [headN, putHead, rdLE_putBlocks_before _ _ _ (by omega),
    rdLE_splice_leByte _ _ (by simp)]
  exact Nat.mod_eq_of_lt (by omega)

lemma headBlocks_putHead (b : Block) {lh : List ℕ} (h : lh.length ≤ LOGSIZE)
    (h32 : ∀ x ∈ lh, x < 2 ^ 32) : headBlocks (putHead b lh) = lh := by
  have hn := headN_putHead b h
  rw [LOGSIZE_eq] at h
  rw [headBlocks, hn, if_pos (by omega)]
  apply List.ext_getElem
  · simp
  · intro j hj hj'
    have hget := rdLE_putBlocks_get (b.splice 0 4 (leByte lh.length)) 0 lh hj'
      (by rw [BSIZE_eq]; omega)
    rw [Nat.zero_add] at hget
    rw [List.getElem_map, List.getElem_range, putHead, hget]
    exact Nat.mod_eq_of_lt (h32 _ (List.getElem_mem hj'))

/-! ## The routines of `log.c` that touch the disk -/

/-- The memory that matters to them. -/
structure Mem where
  /-- What is on the disk. -/
  disk : Disk
  /-- What `bread` returns. -/
  cache : Disk
  /-- `log.lh.block[0..log.lh.n)`. -/
  lh : List ℕ
  /-- The block writes issued so far, oldest first. -/
  trace : List (ℕ × Block)

/-- One block write. -/
def Mem.write (m : Mem) (b : ℕ) (v : Block) : Mem :=
  { m with
    disk := Function.update m.disk b v
    cache := Function.update m.cache b v
    trace := m.trace ++ [(b, v)] }

section

variable (m : Mem) (b : ℕ) (v : Block)

include m b v

@[simp] lemma Mem.write_disk : (m.write b v).disk = Function.update m.disk b v := rfl

@[simp] lemma Mem.write_cache : (m.write b v).cache = Function.update m.cache b v := rfl

@[simp] lemma Mem.write_lh : (m.write b v).lh = m.lh := rfl

@[simp] lemma Mem.write_trace : (m.write b v).trace = m.trace ++ [(b, v)] := rfl

end

def bread (b : ℕ) : Prog Panic Mem Block := Prog.read fun m => m.cache b

def bwrite (b : ℕ) (v : Block) : Prog Panic Mem Unit := Prog.modify fun m => m.write b v

section

variable (start : ℕ)

/-- The loop of `install_trans`, from `tail` on. -/
def installFrom : ℕ → List ℕ → Prog Panic Mem Unit
  | _, [] => pure ()
  | tail, b :: bs => do
    let lbuf ← bread (start + tail + 1)
    let _dbuf ← bread b
    -- the whole of `dbuf->data` is overwritten
    bwrite b lbuf
    installFrom (tail + 1) bs

/-- Copy committed blocks from the log to their home location.  Pinning does not concern the
disk, so the `recovering` argument has no effect here. -/
def installTrans : Prog Panic Mem Unit := do
  let lh ← Prog.read Mem.lh
  installFrom start 0 lh

/-- Read the log header from disk into the in-memory log header. -/
def readHead : Prog Panic Mem Unit := do
  let buf ← bread start
  Prog.modify fun m => { m with lh := headBlocks buf }

/-- Write the in-memory log header to disk. -/
def writeHead : Prog Panic Mem Unit := do
  let buf ← bread start
  let lh ← Prog.read Mem.lh
  bwrite start (putHead buf lh)

/-- `log.lh.n = 0` -/
def clearHead : Prog Panic Mem Unit := Prog.modify fun m => { m with lh := [] }

def recoverFromLog : Prog Panic Mem Unit := do
  readHead start
  installTrans start
  clearHead
  writeHead start

/-- The loop of `write_log`, from `tail` on. -/
def writeFrom : ℕ → List ℕ → Prog Panic Mem Unit
  | _, [] => pure ()
  | tail, b :: bs => do
    let _to ← bread (start + tail + 1)
    let src ← bread b
    bwrite (start + tail + 1) src
    writeFrom (tail + 1) bs

/-- Copy modified blocks from the cache to the log. -/
def writeLog : Prog Panic Mem Unit := do
  let lh ← Prog.read Mem.lh
  writeFrom start 0 lh

def commit : Prog Panic Mem Unit := do
  let lh ← Prog.read Mem.lh
  if lh.length > 0 then
    writeLog start
    writeHead start
    installTrans start
    clearHead
    writeHead start
  else
    pure ()

end

/-- The memory after a reboot from the disk `d`: nothing is cached or logged. -/
def boot (d : Disk) : Mem := ⟨d, d, [], []⟩

/-- A crash inside a recovery from `d` leaves `d'` on the disk. -/
def RecoveryCrash (start : ℕ) (d d' : Disk) : Prop :=
  ∃ q m, (recoverFromLog start).Runs (boot d) q m ∧ m.disk = d'

/-! ## Transactions -/

/-- A transaction held in memory: at most `size - 1` pairwise distinct home blocks, none of
them in the log area `[start, start + size)`, with their new contents. -/
structure Transaction (start size : ℕ) where
  blocks : List ℕ
  new : ℕ → Block
  size_pos : 0 < size
  nodup : blocks.Nodup
  length_le : blocks.length ≤ size - 1
  /-- `log.lh.block` has `LOGSIZE` entries. -/
  length_le_LOGSIZE : blocks.length ≤ LOGSIZE
  /-- Block numbers are of type `uint`. -/
  lt_uint : ∀ b ∈ blocks, b < 2 ^ 32
  home : ∀ b ∈ blocks, b < start ∨ start + size ≤ b

namespace Transaction

variable {start size : ℕ} (T : Transaction start size)

/-- The contents of the home blocks after the transaction. -/
def after (d : Disk) : Disk := fun b => if b ∈ T.blocks then T.new b else d b

/-- The memory when the transaction is about to be committed. -/
def pending (d : Disk) : Mem := ⟨d, T.after d, T.blocks, []⟩

end Transaction

/-- A block of the log area. -/
def InLog (start size b : ℕ) : Prop := start ≤ b ∧ b < start + size

section Phases

variable {start size : ℕ}

/-- The header is empty, and the blocks outside the log hold `v`. -/
structure Clean (start size : ℕ) (v d : Disk) : Prop where
  head : headN (d start) = 0
  home : ∀ b, ¬ InLog start size b → d b = v b

/-- The header names the transaction and the log holds its new contents.  The home blocks may
hold anything, the other blocks are as in `v`. -/
structure Logged (T : Transaction start size) (v d : Disk) : Prop where
  head : headBlocks (d start) = T.blocks
  log : ∀ i (h : i < T.blocks.length), d (start + i + 1) = T.new T.blocks[i]
  home : ∀ b, ¬ InLog start size b → b ∉ T.blocks → d b = v b

lemma headBlocks_of_headN {b : Block} (h : headN b = 0) : headBlocks b = [] := by
  simp [headBlocks, h]

lemma Clean.write {v d : Disk} (h : Clean start size v d) {b : ℕ} (x : Block)
    (hb : InLog start size b) (hne : b ≠ start) :
    Clean start size v (Function.update d b x) := by
  constructor
  · rw [Function.update_of_ne hne.symm]
    exact h.head
  · intro b' hb'
    rw [Function.update_of_ne (by rintro rfl; exact hb' hb)]
    exact h.home b' hb'

lemma Clean.writeHead {v d : Disk} (hsize : 0 < size) (h : Clean start size v d) (x : Block) :
    Clean start size v (Function.update d start (putHead x [])) := by
  constructor
  · rw [Function.update_self]
    exact headN_putHead x (by simp)
  · intro b hb
    rw [Function.update_of_ne (by rintro rfl; exact hb ⟨le_rfl, by omega⟩)]
    exact h.home b hb

lemma Logged.write {T : Transaction start size} {v d : Disk} (h : Logged T v d) {b : ℕ}
    (x : Block) (hb : b ∈ T.blocks) : Logged T v (Function.update d b x) := by
  have hout := T.home b hb
  have hlen := T.length_le
  have hsize := T.size_pos
  constructor
  · rw [Function.update_of_ne (by omega)]
    exact h.head
  · intro i hi
    rw [Function.update_of_ne (by omega)]
    exact h.log i hi
  · intro b' hlog hb'
    rw [Function.update_of_ne (by rintro rfl; exact hb' hb)]
    exact h.home b' hlog hb'

lemma Logged.clear {T : Transaction start size} {v d : Disk} (h : Logged T v d)
    (hnew : ∀ b ∈ T.blocks, d b = T.new b) (x : Block) :
    Clean start size (T.after v) (Function.update d start (putHead x [])) := by
  have hsize := T.size_pos
  constructor
  · rw [Function.update_self]
    exact headN_putHead x (by simp)
  · intro b hb
    rw [Function.update_of_ne (by rintro rfl; exact hb ⟨le_rfl, by omega⟩),
      Transaction.after]
    by_cases hmem : b ∈ T.blocks
    · rw [if_pos hmem, hnew b hmem]
    · rw [if_neg hmem, h.home b hb hmem]

end Phases

/-! ## What the routines do -/

section Specs

variable {start size : ℕ} {C : Mem → Prop}

lemma writeHead_safe {Q : Unit → Mem → Prop} {m : Mem} (hC : C m)
    (hC' : C (m.write start (putHead (m.cache start) m.lh)))
    (hQ : Q () (m.write start (putHead (m.cache start) m.lh))) :
    CrashSafe C Q (writeHead start) m := by
  refine CrashSafe.read_bind hC ?_
  refine CrashSafe.read_bind hC ?_
  exact CrashSafe.modify hC hC' hQ

/-- The loop of `write_log`: the log block of each entry receives what the cache holds for
it, and only blocks of the log other than the header are written. -/
lemma writeFrom_safe (T : Transaction start size) {v : Disk} (bs : List ℕ) :
    ∀ (pre : List ℕ) (m : Mem), T.blocks = pre ++ bs → Clean start size v m.disk →
      (∀ x, (start, x) ∉ m.trace) → (∀ b ∈ T.blocks, m.cache b = T.new b) →
      (∀ i (h : i < pre.length), m.disk (start + i + 1) = T.new pre[i] ∧
        m.cache (start + i + 1) = T.new pre[i]) →
      CrashSafe (fun m' => Clean start size v m'.disk ∧ ∀ x, (start, x) ∉ m'.trace)
        (fun _ m' => m'.lh = m.lh ∧
          (Clean start size v m'.disk ∧ ∀ x, (start, x) ∉ m'.trace) ∧
          ∀ i (h : i < T.blocks.length), m'.disk (start + i + 1) = T.new T.blocks[i] ∧
            m'.cache (start + i + 1) = T.new T.blocks[i])
        (writeFrom start pre.length bs) m := by
  induction bs with
  | nil =>
    intro pre m hsplit hclean htrace hcache hlog
    rw [List.append_nil] at hsplit
    exact .ret ⟨hclean, htrace⟩ ⟨rfl, ⟨hclean, htrace⟩, by simpa only [hsplit] using hlog⟩
  | cons b bs ih =>
    intro pre m hsplit hclean htrace hcache hlog
    have hb : b ∈ T.blocks := by simp [hsplit]
    have hlen : T.blocks.length = pre.length + (bs.length + 1) := by simp [hsplit]
    have hroom := T.length_le
    have hwrite : Clean start size v (m.write (start + pre.length + 1) (m.cache b)).disk :=
      hclean.write _ ⟨by omega, by omega⟩ (by omega)
    have htrace' : ∀ x, (start, x) ∉ (m.write (start + pre.length + 1) (m.cache b)).trace := by
      intro x hx
      rcases List.mem_append.mp hx with hx | hx
      · exact htrace x hx
      · simp only [List.mem_singleton, Prod.mk.injEq] at hx
        omega
    refine CrashSafe.read_bind ⟨hclean, htrace⟩ ?_
    refine CrashSafe.read_bind ⟨hclean, htrace⟩ ?_
    refine CrashSafe.modify_bind ⟨hclean, htrace⟩ ?_
    have hnext := ih (pre ++ [b]) (m.write (start + pre.length + 1) (m.cache b))
      (by simp [hsplit]) hwrite htrace' ?_ ?_
    · simpa using hnext
    · -- the home blocks of the transaction are not log blocks
      intro b' hb'
      have hout := T.home b' hb'
      rw [Mem.write_cache, Function.update_of_ne (by omega)]
      exact hcache b' hb'
    · intro i hi
      rw [List.length_append, List.length_singleton] at hi
      by_cases hlast : i = pre.length
      · subst hlast
        simp [hcache b hb]
      · have hi' : i < pre.length := by omega
        rw [Mem.write_disk, Mem.write_cache, Function.update_of_ne (by omega),
          Function.update_of_ne (by omega), List.getElem_append_left hi']
        exact hlog i hi'

/-- The loop of `install_trans` once the transaction is logged: the home blocks receive the
new contents one by one, and the disk stays logged. -/
lemma installFrom_safe (T : Transaction start size) {v : Disk} (bs : List ℕ) :
    ∀ (pre : List ℕ) (m : Mem), T.blocks = pre ++ bs → Logged T v m.disk →
      (∀ i (h : i < T.blocks.length), m.cache (start + i + 1) = T.new T.blocks[i]) →
      (∀ b ∈ pre, m.disk b = T.new b) →
      CrashSafe (fun m' => Logged T v m'.disk)
        (fun _ m' => Logged T v m'.disk ∧ ∀ b ∈ T.blocks, m'.disk b = T.new b)
        (installFrom start pre.length bs) m := by
  induction bs with
  | nil =>
    intro pre m hsplit hlogged hcache hnew
    rw [List.append_nil] at hsplit
    exact .ret hlogged ⟨hlogged, by simpa only [hsplit] using hnew⟩
  | cons b bs ih =>
    intro pre m hsplit hlogged hcache hnew
    have hb : b ∈ T.blocks := by simp [hsplit]
    have hlen : pre.length < T.blocks.length := by simp [hsplit]
    have hroom := T.length_le
    have hout := T.home b hb
    have hread : m.cache (start + pre.length + 1) = T.new b := by
      rw [hcache pre.length hlen]
      simp [hsplit]
    have hwrite : Logged T v (m.write b (T.new b)).disk := hlogged.write _ hb
    refine CrashSafe.read_bind hlogged ?_
    refine CrashSafe.read_bind hlogged ?_
    refine CrashSafe.modify_bind hlogged ?_
    rw [hread]
    have hnext := ih (pre ++ [b]) (m.write b (T.new b)) (by simp [hsplit]) hwrite ?_ ?_
    · simpa using hnext
    · intro i hi
      rw [Mem.write_cache, Function.update_of_ne (by omega)]
      exact hcache i hi
    · intro b' hb'
      by_cases hbb : b' = b
      · simp [hbb]
      · rw [Mem.write_disk, Function.update_of_ne hbb]
        apply hnew
        simpa [hbb] using hb'

lemma install_clear_safe (T : Transaction start size) {v : Disk} {m : Mem}
    (hlh : m.lh = T.blocks) (hlogged : Logged T v m.disk)
    (hcache : ∀ i (h : i < T.blocks.length), m.cache (start + i + 1) = T.new T.blocks[i]) :
    CrashSafe (fun m' => Logged T v m'.disk ∨ Clean start size (T.after v) m'.disk)
      (fun _ m' => Clean start size (T.after v) m'.disk)
      (do installTrans start; clearHead; writeHead start) m := by
  apply CrashSafe.seq (P := fun _ m' =>
    Logged T v m'.disk ∧ ∀ b ∈ T.blocks, m'.disk b = T.new b)
  · refine CrashSafe.read_bind (Or.inl hlogged) ?_
    rw [hlh]
    exact (installFrom_safe T T.blocks [] m rfl hlogged hcache (by simp)).mono
      (fun _ h => Or.inl h) fun _ _ h => h
  · rintro _ m' ⟨hlogged', hnew⟩
    have hdone := hlogged'.clear hnew (m'.cache start)
    refine CrashSafe.modify_bind (Or.inl hlogged') ?_
    exact writeHead_safe (Or.inl hlogged') (Or.inr hdone) hdone

lemma recover_clean {v d : Disk} (hsize : 0 < size) (h : Clean start size v d) :
    CrashSafe (fun m => Clean start size v m.disk) (fun _ m => Clean start size v m.disk)
      (recoverFromLog start) (boot d) := by
  have hempty : headBlocks (d start) = [] := headBlocks_of_headN h.head
  have hdone := h.writeHead hsize (d start)
  apply CrashSafe.seq (P := fun _ m => m = boot d)
  · refine CrashSafe.read_bind h ?_
    refine CrashSafe.modify h h ?_
    simp [boot, hempty]
  · rintro _ m rfl
    refine CrashSafe.seq (P := fun _ m => m = boot d) ?_ ?_
    · exact CrashSafe.read_bind h (.ret h rfl)
    · rintro _ m rfl
      refine CrashSafe.modify_bind h ?_
      exact writeHead_safe h hdone hdone

lemma recover_logged (T : Transaction start size) {v d : Disk} (h : Logged T v d) :
    CrashSafe (fun m => Logged T v m.disk ∨ Clean start size (T.after v) m.disk)
      (fun _ m => Clean start size (T.after v) m.disk) (recoverFromLog start) (boot d) := by
  apply CrashSafe.seq (P := fun _ m => m = { boot d with lh := T.blocks })
  · refine CrashSafe.read_bind (Or.inl h) ?_
    refine CrashSafe.modify (Or.inl h) (Or.inl h) ?_
    simp [boot, h.head]
  · rintro _ m rfl
    exact install_clear_safe T rfl h h.log

/-- The phases that the disk goes through while the transaction is being committed. -/
def Phase (T : Transaction start size) (v : Disk) (m : Mem) : Prop :=
  (Clean start size v m.disk ∧ ∀ x, (start, x) ∉ m.trace) ∨ Logged T v m.disk ∨
    Clean start size (T.after v) m.disk

lemma Clean.logged (T : Transaction start size) {v d : Disk} (h : Clean start size v d)
    (hlog : ∀ i (h : i < T.blocks.length), d (start + i + 1) = T.new T.blocks[i])
    (x : Block) : Logged T v (Function.update d start (putHead x T.blocks)) := by
  have hsize := T.size_pos
  constructor
  · rw [Function.update_self]
    exact headBlocks_putHead x T.length_le_LOGSIZE T.lt_uint
  · intro i hi
    rw [Function.update_of_ne (by omega)]
    exact hlog i hi
  · intro b hb _
    rw [Function.update_of_ne (by rintro rfl; exact hb ⟨le_rfl, by omega⟩)]
    exact h.home b hb

lemma commit_safe (T : Transaction start size) {v : Disk} (hempty : headN (v start) = 0) :
    CrashSafe (Phase T v) (fun _ _ => True) (commit start) (T.pending v) := by
  have hclean : Clean start size v v := ⟨hempty, fun _ _ => rfl⟩
  have hinit : Phase T v (T.pending v) := Or.inl ⟨hclean, by simp [Transaction.pending]⟩
  refine CrashSafe.read_bind hinit ?_
  split
  · refine CrashSafe.seq (P := fun _ m' => m'.lh = T.blocks ∧
      (Clean start size v m'.disk ∧ ∀ x, (start, x) ∉ m'.trace) ∧
      ∀ i (h : i < T.blocks.length), m'.disk (start + i + 1) = T.new T.blocks[i] ∧
        m'.cache (start + i + 1) = T.new T.blocks[i]) ?_ ?_
    · refine CrashSafe.read_bind hinit ?_
      refine (writeFrom_safe T T.blocks [] (T.pending v) rfl hclean
        (by simp [Transaction.pending]) (fun b hb => ?_) (by simp)).mono
        (fun _ h => Or.inl h) fun _ _ h => h
      simp [Transaction.pending, Transaction.after, hb]
    · rintro _ m' ⟨hlh, hclean', hlog⟩
      have hlogged := hclean'.1.logged T (fun i hi => (hlog i hi).1) (m'.cache start)
      rw [← hlh] at hlogged
      refine CrashSafe.seq (P := fun _ m'' =>
        m'' = m'.write start (putHead (m'.cache start) m'.lh)) ?_ ?_
      · exact writeHead_safe (Or.inl hclean') (Or.inr (Or.inl hlogged)) rfl
      · rintro _ m'' rfl
        refine (install_clear_safe T (m := m'.write start (putHead (m'.cache start) m'.lh)) hlh
          hlogged fun i hi => ?_).mono
          (fun _ h => Or.inr h) fun _ _ _ => trivial
        rw [Mem.write_cache, Function.update_of_ne (by omega)]
        exact (hlog i hi).2
  · exact .ret hinit trivial

/-- Crashes inside recoveries lead from each phase to a phase from which recovery completes:
with the old contents if the header had not been written, else with the new ones. -/
lemma recovery_of_crashes (T : Transaction start size) {v : Disk} {m : Mem} (h : Phase T v m)
    {d : Disk} (hcrash : Relation.ReflTransGen (RecoveryCrash start) m.disk d) :
    (Clean start size v d ∧ ∀ x, (start, x) ∉ m.trace) ∨ Logged T v d ∨
      Clean start size (T.after v) d := by
  induction hcrash with
  | refl => exact h
  | tail _ hstep ih =>
    obtain ⟨q, m', hrun, rfl⟩ := hstep
    rcases ih with ⟨hclean, htrace⟩ | hlogged | hclean
    · exact Or.inl ⟨(recover_clean T.size_pos hclean).crash_of_runs hrun, htrace⟩
    · exact Or.inr ((recover_logged T hlogged).crash_of_runs hrun)
    · exact Or.inr (Or.inr ((recover_clean T.size_pos hclean).crash_of_runs hrun))

end Specs

/-- What a completed recovery leaves on the disk, for a transaction on the disk `d`:
`committed` says that the header block had been written by `commit` before the crash. -/
structure Recovered {start size : ℕ} (T : Transaction start size) (d : Disk)
    (committed : Prop) (d' : Disk) : Prop where
  head : headN (d' start) = 0
  other : ∀ b, ¬ InLog start size b → b ∉ T.blocks → d' b = d b
  atomic : (∀ b ∈ T.blocks, d' b = d b) ∨ ∀ b ∈ T.blocks, d' b = T.new b
  durable : committed → ∀ b ∈ T.blocks, d' b = T.new b

section Recovered

variable {start size : ℕ} {T : Transaction start size} {d d' : Disk} {committed : Prop}

lemma Transaction.not_inLog (T : Transaction start size) {b : ℕ} (hb : b ∈ T.blocks) :
    ¬ InLog start size b := by
  rintro ⟨h1, h2⟩
  have hout := T.home b hb
  omega

lemma Recovered.of_old (h : Clean start size d d') (hc : ¬ committed) :
    Recovered T d committed d' where
  head := h.head
  other b hb _ := h.home b hb
  atomic := Or.inl fun b hb => h.home b (T.not_inLog hb)
  durable hcommitted := absurd hcommitted hc

lemma Recovered.of_new (h : Clean start size (T.after d) d') :
    Recovered T d committed d' := by
  have hall : ∀ b ∈ T.blocks, d' b = T.new b := by
    intro b hb
    rw [h.home b (T.not_inLog hb), Transaction.after, if_pos hb]
  refine ⟨h.head, fun b hb hmem => ?_, Or.inr hall, fun _ => hall⟩
  rw [h.home b hb, Transaction.after, if_neg hmem]

end Recovered

/-- **Crash atomicity of the redo log.**  Let a transaction be committed on a disk with an
empty log header, let a crash cut `commit` off after any of its block writes, and let any
number of further crashes cut recoveries off.  The next recovery completes, and a completed
recovery leaves an empty header, the blocks outside the transaction and the log unchanged,
and the home blocks of the transaction all old or all new — all new if the header block had
been written by `commit` before the crash. -/
theorem commit_crash_atomic {start size : ℕ} (T : Transaction start size) (d : Disk)
    (hempty : headN (d start) = 0) {q : Prog Panic Mem Unit} {m : Mem}
    (hrun : (commit start).Runs (T.pending d) q m) {d' : Disk}
    (hcrash : Relation.ReflTransGen (RecoveryCrash start) m.disk d') :
    (∃ m', (recoverFromLog start).Completes (boot d') () m') ∧
    ∀ m', (recoverFromLog start).Completes (boot d') () m' →
      Recovered T d (∃ x, (start, x) ∈ m.trace) m'.disk := by
  have hphase := recovery_of_crashes T ((commit_safe T hempty).crash_of_runs hrun) hcrash
  rcases hphase with ⟨hclean, htrace⟩ | hlogged | hclean
  · have hsafe := recover_clean T.size_pos hclean
    obtain ⟨⟨⟩, hdone⟩ := hsafe.completes
    refine ⟨hdone, fun m' hm' => .of_old (hsafe.post_of_completes hm') ?_⟩
    rintro ⟨x, hx⟩
    exact htrace x hx
  · have hsafe := recover_logged T hlogged
    obtain ⟨⟨⟩, hdone⟩ := hsafe.completes
    exact ⟨hdone, fun m' hm' => .of_new (hsafe.post_of_completes hm')⟩
  · have hsafe := recover_clean T.size_pos hclean
    obtain ⟨⟨⟩, hdone⟩ := hsafe.completes
    exact ⟨hdone, fun m' hm' => .of_new (hsafe.post_of_completes hm')⟩

/-- A transaction that changes block 50, with the log in `[2, 32)`. -/
def oneBlock : Transaction 2 30 where
  blocks := [50]
  new := fun _ _ => 255
  size_pos := by decide
  nodup := by decide
  length_le := by decide
  length_le_LOGSIZE := by decide
  lt_uint := by decide
  home := by decide

/-- A crash just after the header of `oneBlock` was written, then a crash at the start of the
first recovery. -/
theorem commit_crash_atomic_oneBlock :
    ∃ m : Mem, (∃ x, (2, x) ∈ m.trace) ∧
      (∃ m', (recoverFromLog 2).Completes (boot m.disk) () m') ∧
      ∀ m', (recoverFromLog 2).Completes (boot m.disk) () m' → m'.disk 50 = fun _ => 255 := by
  have hrun := (Prog.Runs.refl (commit 2) (oneBlock.pending fun _ => zero)).tail rfl
    |>.tail rfl |>.tail rfl |>.tail rfl |>.tail rfl |>.tail rfl |>.tail rfl |>.tail rfl
  have hcrash : ∀ d, Relation.ReflTransGen (RecoveryCrash 2) d d :=
    fun d => .single ⟨_, _, .refl _ _, rfl⟩
  have h := commit_crash_atomic oneBlock (fun _ => zero) (by simp [headN]) hrun (hcrash _)
  refine ⟨_, ?_, h.1, fun m' hm' => ?_⟩
  · exact ⟨_, List.mem_append_right _ (List.mem_singleton_self _)⟩
  · exact (h.2 m' hm').durable ⟨_, List.mem_append_right _ (List.mem_singleton_self _)⟩ 50
      (by decide)

end Xv6.Redo
