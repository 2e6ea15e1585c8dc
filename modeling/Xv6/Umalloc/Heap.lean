import Xv6.Framework.Prog
import Xv6.Framework.Ring
import Mathlib.Algebra.GroupWithZero.Nat

/-!
# The user-level memory allocator

`malloc` and `free` of `user/umalloc.c`.  Memory is counted in units of a `Header`, and an address
is the number of a unit, so `p + 1` is the next header.  A `Header` is its two fields, `ptr` and
`size`; `size` is a `uint`, so sums are stored modulo `2 ^ 32`.

`sbrk` is the environment's: it fails, or answers the start of a region above all earlier ones, of
the length that it was asked for, which the heap records in `got`.  It takes an `int`, and what
`morecore` asks for is narrowed to one (`asked`).  The loops take `fuel`, the number of rounds they
may make; `none` is a loop that has not ended by then.
-/

namespace Xv6.Umalloc

open Concur

/-- `sizeof(Header)` -/
def headerSize : ℕ := 16

/-- The headers, `freep` (`none` is the null pointer), and what `sbrk` has answered: the end of
the last region and all regions, as their start and their number of units. -/
structure Heap where
  ptr : ℕ → ℕ
  size : ℕ → ℕ
  freep : Option ℕ
  brk : ℕ
  got : List (ℕ × ℕ)

namespace Heap

/-- `p->s.ptr = v` -/
def setPtr (h : Heap) (p v : ℕ) : Heap := { h with ptr := setAt h.ptr p v }

/-- `p->s.size = n` -/
def setSize (h : Heap) (p n : ℕ) : Heap := { h with size := setAt h.size p n }

/-- `freep = p` -/
def setFreep (h : Heap) (p : ℕ) : Heap := { h with freep := some p }

/-- The two conditions on which the loop of `free` ends. -/
def stops (h : Heap) (bp p : ℕ) : Bool :=
  (p < bp ∧ bp < h.ptr p) ∨ (h.ptr p ≤ p ∧ (p < bp ∨ bp < h.ptr p))

/-- In `free`: join the block `bp` to the block after `p`, or link it to that. -/
def joinNext (h : Heap) (bp p : ℕ) : Heap :=
  if bp + h.size bp = h.ptr p then
    (h.setSize bp ((h.size bp + h.size (h.ptr p)) % 2 ^ 32)).setPtr bp (h.ptr (h.ptr p))
  else h.setPtr bp (h.ptr p)

/-- In `free`: join the block `bp` to the block `p`, or link `p` to it. -/
def joinPrev (h : Heap) (bp p : ℕ) : Heap :=
  if p + h.size p = bp then
    (h.setSize p ((h.size p + h.size bp) % 2 ^ 32)).setPtr p (h.ptr bp)
  else h.setPtr p bp

/-- Free the block with the header `bp`, which is one unit before `ap`. -/
def free (fuel bp : ℕ) (h : Heap) : Option Heap := do
  let f ← h.freep
  let p ← search h.ptr (h.stops bp) fuel f
  some (((h.joinNext bp p).joinPrev bp p).setFreep p)

/-- How many units `sbrk` is asked for when `nu` are wanted: the argument `nu * sizeof(Header)` is
narrowed to an `int`.  A negative number gives memory back. -/
def asked (nu : ℕ) : ℤ := Int.bmod (nu * headerSize) (2 ^ 32) / headerSize

lemma asked_eq {nu : ℕ} (h : nu * headerSize < 2 ^ 31) : asked nu = nu := by
  have hmod : Int.bmod ((nu * headerSize : ℕ) : ℤ) (2 ^ 32) = (nu * headerSize : ℕ) := by
    apply Int.bmod_eq_of_le_mul_two
    · omega
    · omega
  unfold asked
  rw [← Int.natCast_mul, hmod, Int.natCast_mul]
  exact Int.mul_ediv_cancel _ (by decide)

/-- Get at least `nu` units; `answer` is what `sbrk` answers, as the distance from the end of the
last region.  The result is a null pointer or `freep`. -/
def morecore (fuel : ℕ) (answer : Option ℕ) (nu : ℕ) (h : Heap) : Option (Option ℕ × Heap) :=
  let nu := if nu < 4096 then 4096 else nu
  match answer with
  | none => some (none, h)
  | some gap => do
    let hp := h.brk + gap
    let h ← free fuel hp ({ h with
      brk := (hp + asked nu).toNat
      got := (hp, (asked nu).toNat) :: h.got }.setSize hp nu)
    some (h.freep, h)

/-- In `malloc`: cut `nunits` off the block `p`, or take all of it off the list. -/
def carve (nunits prevp p : ℕ) (h : Heap) : ℕ × Heap :=
  if h.size p = nunits then (p, (h.setPtr prevp (h.ptr p)).setFreep prevp)
  else
    let h := h.setSize p (h.size p - nunits)
    let q := p + h.size p
    (q, (h.setSize q nunits).setFreep prevp)

/-- The loop of `malloc`; `env k` is the answer of `sbrk` when it is called for the `k`th time. -/
def mallocFrom (env : ℕ → Option ℕ) (nunits : ℕ) :
    ℕ → ℕ → ℕ → ℕ → Heap → Option (Option ℕ × Heap)
  | 0, _, _, _, _ => none
  | fuel + 1, k, prevp, p, h =>
    if nunits ≤ h.size p then
      let r := h.carve nunits prevp p
      some (some r.1, r.2)
    else if h.freep = some p then do
      match ← morecore fuel (env k) nunits h with
      | (none, h) => some (none, h)
      | (some p, h) => mallocFrom env nunits fuel (k + 1) p (h.ptr p) h
    else mallocFrom env nunits fuel k p (h.ptr p) h

/-- `nunits`.  The sum is computed in 64 bits, `sizeof` being a `uint64`. -/
def nunits (nbytes : ℕ) : ℕ := (nbytes + headerSize - 1) / headerSize + 1

lemma nunits_pos (nbytes : ℕ) : 0 < nunits nbytes := Nat.succ_pos _

/-- In `malloc`: the list is set up on the first call. -/
def setup (base : ℕ) (h : Heap) : Heap :=
  match h.freep with
  | some _ => h
  | none => ((h.setPtr base base).setFreep base).setSize base 0

/-- Allocate `nbytes` bytes.  The result is the header of the block, one unit before what the
caller gets, or a null pointer. -/
def malloc (base fuel : ℕ) (env : ℕ → Option ℕ) (nbytes : ℕ) (h : Heap) :
    Option (Option ℕ × Heap) := do
  let h := h.setup base
  let prevp ← h.freep
  mallocFrom env (nunits nbytes) fuel 0 prevp (h.ptr prevp) h

@[simp] lemma setup_got (base : ℕ) (h : Heap) : (h.setup base).got = h.got := by
  unfold setup
  split <;> rfl

section Fields

variable (h : Heap) (p v : ℕ)

@[simp] lemma setPtr_ptr : (h.setPtr p v).ptr = setAt h.ptr p v := rfl

@[simp] lemma setPtr_size : (h.setPtr p v).size = h.size := rfl

@[simp] lemma setPtr_freep : (h.setPtr p v).freep = h.freep := rfl

@[simp] lemma setPtr_brk : (h.setPtr p v).brk = h.brk := rfl

@[simp] lemma setPtr_got : (h.setPtr p v).got = h.got := rfl

@[simp] lemma setSize_ptr : (h.setSize p v).ptr = h.ptr := rfl

@[simp] lemma setSize_size : (h.setSize p v).size = setAt h.size p v := rfl

@[simp] lemma setSize_freep : (h.setSize p v).freep = h.freep := rfl

@[simp] lemma setSize_brk : (h.setSize p v).brk = h.brk := rfl

@[simp] lemma setSize_got : (h.setSize p v).got = h.got := rfl

@[simp] lemma setFreep_ptr : (h.setFreep p).ptr = h.ptr := rfl

@[simp] lemma setFreep_size : (h.setFreep p).size = h.size := rfl

@[simp] lemma setFreep_freep : (h.setFreep p).freep = some p := rfl

@[simp] lemma setFreep_brk : (h.setFreep p).brk = h.brk := rfl

@[simp] lemma setFreep_got : (h.setFreep p).got = h.got := rfl

end Fields

end Heap

/-! ## A program that uses the allocator -/

/-- The heap, and the blocks that were allocated and not freed: their headers and the number of
bytes that was asked for. -/
structure Sys where
  heap : Heap
  live : List (ℕ × ℕ)

/-- What a program does: it allocates, frees, or stores to a unit of memory. -/
inductive Event where
  | malloc (nbytes : ℕ) (env : ℕ → Option ℕ)
  | free (bp : ℕ)
  | store (u ptr size : ℕ)

/-- `sbrk` can be asked for the memory: it is less than `2 ^ 31` bytes. -/
def Event.Fits : Event → Prop
  | .malloc nbytes _ => Heap.nunits nbytes * headerSize < 2 ^ 31
  | _ => True

namespace Sys

/-- The block of a live header, as its start and its number of units. -/
def block (s : Sys) (b : ℕ × ℕ) : ℕ × ℕ := (b.1, s.heap.size b.1)

/-- The program passes a `uint`, frees only what is allocated, and stores only into its blocks,
behind their headers. -/
def Legal (s : Sys) : Event → Prop
  | .malloc nbytes _ => nbytes < 2 ^ 32
  | .free bp => bp ∈ s.live.map Prod.fst
  | .store u _ _ => ∃ b ∈ s.live, b.1 < u ∧ u < b.1 + s.heap.size b.1

/-- One event; `none` if a loop has not ended with the given fuel. -/
def run (base fuel : ℕ) (s : Sys) : Event → Option Sys
  | .malloc nbytes env => do
    match ← s.heap.malloc base fuel env nbytes with
    | (none, h) => some { s with heap := h }
    | (some p, h) => some ⟨h, (p, nbytes) :: s.live⟩
  | .free bp => do
    let h ← s.heap.free fuel bp
    some ⟨h, s.live.eraseP fun b => b.1 = bp⟩
  | .store u ptr size => some { s with heap := (s.heap.setPtr u ptr).setSize u size }

/-- Before the first call; `brk` is the end of the program. -/
def start (brk : ℕ) : Sys := ⟨⟨fun _ => 0, fun _ => 0, none, brk, []⟩, []⟩

/-- The states that a program can bring about with events for which `ok` holds. -/
inductive Reaches (ok : Event → Prop) (base brk : ℕ) : Sys → Prop where
  | start : Reaches ok base brk (start brk)
  | step {s s' : Sys} {e : Event} (fuel : ℕ) : Reaches ok base brk s → ok e → s.Legal e →
      s.run base fuel e = some s' → Reaches ok base brk s'

instance (s : Sys) (e : Event) : Decidable (s.Legal e) :=
  match e with
  | .malloc nbytes _ => inferInstanceAs (Decidable (nbytes < 2 ^ 32))
  | .free bp => inferInstanceAs (Decidable (bp ∈ s.live.map Prod.fst))
  | .store u _ _ =>
    inferInstanceAs (Decidable (∃ b ∈ s.live, b.1 < u ∧ u < b.1 + s.heap.size b.1))

/-- A given sequence of events; `none` if one is not legal or does not end. -/
def exec (base fuel : ℕ) (s : Sys) : List Event → Option Sys
  | [] => some s
  | e :: es => if s.Legal e then (s.run base fuel e).bind fun s' => exec base fuel s' es else none

lemma Reaches.exec {ok : Event → Prop} {base brk fuel : ℕ} {s s' : Sys} {es : List Event}
    (h : Reaches ok base brk s) (hok : ∀ e ∈ es, ok e) (hes : s.exec base fuel es = some s') :
    Reaches ok base brk s' := by
  induction es generalizing s with
  | nil =>
    obtain rfl := Option.some.inj hes
    exact h
  | cons e es ih =>
    rw [Sys.exec] at hes
    split at hes
    · obtain ⟨s1, hrun, hes⟩ := Option.bind_eq_some_iff.1 hes
      exact ih (h.step fuel (hok e List.mem_cons_self) ‹_› hrun)
        (fun e' he' => hok e' (List.mem_cons_of_mem e he')) hes
    · cases hes

end Sys

end Xv6.Umalloc
