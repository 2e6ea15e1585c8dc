import Xv6.Framework.Logic
import Mathlib.Data.Fintype.Basic
import Mathlib.Algebra.Order.Group.Multiset
import Mathlib.Algebra.GroupWithZero.Nat

/-!
# Radix trees with labelled nodes

A `Radix b ι α n` is the root of a tree of height `n`: an array of `b` values if `n = 0`, and else
an array of `b` entries each of which is empty or leads to a smaller tree whose node has a label in
`ι`.  A key is a number, and its digits in base `b` are the path to its value; a key whose path
ends early has the value `z`.

The labels are what the nodes are made of.  `labels` counts them, so that a program that takes its
nodes from an allocator can be shown to give them back.
-/

namespace Concur

/-- A tree of height `n`, without the label of its root. -/
inductive Radix (b : ℕ) (ι α : Type) : ℕ → Type where
  | leaf (value : Fin b → α) : Radix b ι α 0
  /-- The entry `i` leads to the tree `child i` if it has a label. -/
  | node {n : ℕ} (label : Fin b → Option ι) (child : Fin b → Radix b ι α n) : Radix b ι α (n + 1)

namespace Radix

variable {b : ℕ} [NeZero b] {ι α : Type} (z : α)

/-- The digit of the key that belongs to height `n`. -/
def digit (b : ℕ) [NeZero b] (n v : ℕ) : Fin b := Fin.ofNat b (v / b ^ n)

/-- The tree without values or nodes. -/
def empty : (n : ℕ) → Radix b ι α n
  | 0 => .leaf fun _ => z
  | n + 1 => .node (fun _ => none) fun _ => empty n

/-- The value of a key. -/
def get : {n : ℕ} → Radix b ι α n → ℕ → α
  | _, .leaf value, v => value (digit b 0 v)
  | n + 1, .node label child, v =>
    match label (digit b (n + 1) v) with
    | none => z
    | some _ => (child (digit b (n + 1) v)).get v

/-- The path of the key leads to a value. -/
def reaches : {n : ℕ} → Radix b ι α n → ℕ → Bool
  | _, .leaf _, _ => true
  | n + 1, .node label child, v =>
    match label (digit b (n + 1) v) with
    | none => false
    | some _ => (child (digit b (n + 1) v)).reaches v

/-- The value of a key is replaced, if its path leads to one. -/
def set : {n : ℕ} → Radix b ι α n → ℕ → α → Radix b ι α n
  | _, .leaf value, v, x => .leaf (setAt value (digit b 0 v) x)
  | n + 1, .node label child, v, x =>
    match label (digit b (n + 1) v) with
    | none => .node label child
    | some _ => .node label (setAt child (digit b (n + 1) v) ((child (digit b (n + 1) v)).set v x))

/-- The labels of the nodes below the root. -/
def labels : {n : ℕ} → Radix b ι α n → Multiset ι
  | _, .leaf _ => 0
  | _, .node label child => ∑ i, match label i with
    | none => 0
    | some q => q ::ₘ (child i).labels

variable {n : ℕ} {z}

/-- The keys of a tree of height `n` are the numbers below `b ^ (n + 1)`: two keys with the same
first digit differ in the rest. -/
lemma mod_ne_of_digit_eq {v w : ℕ} (h : v % b ^ (n + 2) ≠ w % b ^ (n + 2))
    (hd : digit b (n + 1) v = digit b (n + 1) w) : v % b ^ (n + 1) ≠ w % b ^ (n + 1) := by
  intro hmod
  apply h
  have hval : v / b ^ (n + 1) % b = w / b ^ (n + 1) % b := congrArg Fin.val hd
  rw [Nat.pow_succ b (n + 1), Nat.mod_mul, Nat.mod_mul, hmod, hval]

lemma digit_zero_ne {v w : ℕ} (h : v % b ^ 1 ≠ w % b ^ 1) : digit b 0 v ≠ digit b 0 w := by
  intro hd
  have hval : v / b ^ 0 % b = w / b ^ 0 % b := congrArg Fin.val hd
  rw [Nat.pow_zero, Nat.div_one, Nat.div_one] at hval
  rw [Nat.pow_one] at h
  exact h hval

@[simp] lemma get_empty (n v : ℕ) : get z (empty z n : Radix b ι α n) v = z := by
  cases n <;> rfl

lemma get_node_none (child : Fin b → Radix b ι α n) (v : ℕ) :
    get z (.node (fun _ => (none : Option ι)) child) v = z := rfl

omit [NeZero b] in
lemma labels_node_none (child : Fin b → Radix b ι α n) :
    labels (.node (fun _ => (none : Option ι)) child) = 0 :=
  Finset.sum_eq_zero fun _ _ => rfl

omit [NeZero b] in
@[simp] lemma labels_empty (n : ℕ) : labels (empty z n : Radix b ι α n) = 0 := by
  cases n with
  | zero => rfl
  | succ n => exact labels_node_none _

lemma reaches_of_get_ne {T : Radix b ι α n} {v : ℕ} (h : get z T v ≠ z) :
    reaches T v = true := by
  induction T with
  | leaf value => rfl
  | node label child ih =>
    simp only [get, reaches] at h ⊢
    split
    · rename_i hlabel
      rw [hlabel] at h
      exact absurd rfl h
    · rename_i hlabel
      rw [hlabel] at h
      exact ih _ h

lemma get_set_self {T : Radix b ι α n} {v : ℕ} (h : reaches T v = true) (x : α) :
    get z (set T v x) v = x := by
  induction T with
  | leaf value => exact setAt_self _ _ _
  | @node n label child ih =>
    simp only [reaches] at h
    cases hlabel : label (digit b (n + 1) v) with
    | none =>
      rw [hlabel] at h
      cases h
    | some q =>
      rw [hlabel] at h
      simp only [set, hlabel, get, setAt_self]
      exact ih _ h

lemma get_set_of_ne (T : Radix b ι α n) {v w : ℕ} (h : w % b ^ (n + 1) ≠ v % b ^ (n + 1)) (x : α) :
    get z (set T v x) w = get z T w := by
  induction T with
  | leaf value => exact setAt_of_ne _ _ (digit_zero_ne h)
  | @node n label child ih =>
    cases hlabel : label (digit b (n + 1) v) with
    | none => simp only [set, hlabel]
    | some q =>
      simp only [set, hlabel, get]
      by_cases hd : digit b (n + 1) w = digit b (n + 1) v
      · rw [hd, setAt_self, hlabel]
        exact ih _ (mod_ne_of_digit_eq h hd)
      · rw [setAt_of_ne _ _ hd]

lemma reaches_set (T : Radix b ι α n) (v : ℕ) (x : α) (w : ℕ) :
    reaches (set T v x) w = reaches T w := by
  induction T with
  | leaf value => rfl
  | @node n label child ih =>
    cases hlabel : label (digit b (n + 1) v) with
    | none => simp only [set, hlabel]
    | some q =>
      simp only [set, hlabel, reaches]
      by_cases hd : digit b (n + 1) w = digit b (n + 1) v
      · rw [hd, setAt_self, hlabel]
        exact ih _
      · rw [setAt_of_ne _ _ hd]

@[simp] lemma labels_set (T : Radix b ι α n) (v : ℕ) (x : α) : labels (set T v x) = labels T := by
  induction T with
  | leaf value => rfl
  | @node n label child ih =>
    cases hlabel : label (digit b (n + 1) v) with
    | none => simp only [set, hlabel]
    | some q =>
      simp only [set, hlabel, labels]
      refine Finset.sum_congr rfl fun i _ => ?_
      by_cases hi : i = digit b (n + 1) v
      · subst hi
        rw [setAt_self, ih]
      · rw [setAt_of_ne _ _ hi]

/-! ## Changing one subtree -/

lemma get_setChild {label : Fin b → Option ι} {child : Fin b → Radix b ι α n} {i : Fin b}
    {C : Radix b ι α n} (h : ∀ v, get z C v = get z (child i) v) (v : ℕ) :
    get z (.node label (setAt child i C)) v = get z (.node label child) v := by
  simp only [get]
  by_cases hi : digit b (n + 1) v = i
  · rw [hi, setAt_self, h v]
  · rw [setAt_of_ne _ _ hi]

lemma get_setLabel {label : Fin b → Option ι} {child : Fin b → Radix b ι α n} {i : Fin b}
    (hi : label i = none) (q : ι) {C : Radix b ι α n} (h : ∀ v, get z C v = z) (v : ℕ) :
    get z (.node (setAt label i (some q)) (setAt child i C)) v = get z (.node label child) v := by
  simp only [get]
  by_cases hv : digit b (n + 1) v = i
  · rw [hv, setAt_self, setAt_self, hi]
    exact h v
  · rw [setAt_of_ne _ _ hv, setAt_of_ne _ _ hv]

omit [NeZero b] in
lemma exists_labels_eq_sum (label : Fin b → Option ι) (child : Fin b → Radix b ι α n) :
    ∃ f : Fin b → Multiset ι, labels (.node label child) = ∑ i, f i ∧
      (∀ i, label i = none → f i = 0) ∧ ∀ i q, label i = some q → f i = q ::ₘ labels (child i) :=
  ⟨_, rfl, fun i hi => by simp only [hi], fun i q hi => by simp only [hi]⟩

omit [NeZero b] in
lemma labels_setAt (label : Fin b → Option ι) (child : Fin b → Radix b ι α n) (i : Fin b)
    (q : Option ι) (C : Radix b ι α n) :
    labels (.node (setAt label i q) (setAt child i C)) + (match label i with
      | none => 0
      | some q => q ::ₘ labels (child i)) = labels (.node label child) + match q with
      | none => 0
      | some q => q ::ₘ labels C := by
  have := sum_change
    (f := fun j => match label j with
      | none => (0 : Multiset ι)
      | some q => q ::ₘ labels (child j))
    (g := fun j => match setAt label i q j with
      | none => (0 : Multiset ι)
      | some q => q ::ₘ labels (setAt child i C j)) i
    fun j hj => by rw [setAt_of_ne _ _ hj, setAt_of_ne _ _ hj]
  rwa [setAt_self, setAt_self] at this

omit [NeZero b] in
lemma exists_labels_child {label : Fin b → Option ι} {q : ι} {i : Fin b} (hi : label i = some q)
    (child : Fin b → Radix b ι α n) :
    ∃ R, ∀ C, labels (.node label (setAt child i C)) = R + labels C := by
  refine ⟨q ::ₘ ∑ j ∈ Finset.univ.erase i, match label j with
    | none => 0
    | some q => q ::ₘ labels (child j), fun C => ?_⟩
  rw [labels, ← Finset.add_sum_erase _ _ (Finset.mem_univ i), hi, setAt_self, Multiset.cons_add,
    Multiset.cons_add, add_comm]
  congr 2
  refine Finset.sum_congr rfl fun j hj => ?_
  rw [setAt_of_ne _ _ (Finset.ne_of_mem_erase hj)]

omit [NeZero b] in
lemma exists_labels_split {label : Fin b → Option ι} {q : ι} {i : Fin b} (hi : label i = some q)
    (child : Fin b → Radix b ι α n) :
    ∃ R, labels (.node label child) = (q ::ₘ (child i).labels) + R ∧
      ∀ j c, j ≠ i → label j = some c → c ::ₘ (child j).labels ≤ R := by
  obtain ⟨f, hf, -, hsome⟩ := exists_labels_eq_sum label child
  refine ⟨∑ j ∈ Finset.univ.erase i, f j, ?_, fun j c hj hc => ?_⟩
  · rw [hf, ← Finset.add_sum_erase _ _ (Finset.mem_univ i), hsome i q hi]
  · rw [← hsome j c hc, ← Finset.add_sum_erase _ f (Finset.mem_erase.2 ⟨hj, Finset.mem_univ j⟩)]
    exact Multiset.le_add_right _ _

omit [NeZero b] in
lemma labels_setLabel {label : Fin b → Option ι} {i : Fin b} (hi : label i = none) (q : ι)
    (child : Fin b → Radix b ι α n) (C : Radix b ι α n) :
    labels (.node (setAt label i (some q)) (setAt child i C)) =
      labels (.node label child) + (q ::ₘ labels C) := by
  have := labels_setAt label child i (some q) C
  rwa [hi, add_zero] at this

/-! ## All keys of a subtree -/

lemma get_mod (T : Radix b ι α n) (v : ℕ) : get z T (v % b ^ (n + 1)) = get z T v := by
  induction T generalizing v with
  | leaf value =>
    simp only [get, digit, Nat.pow_zero, Nat.div_one, Nat.zero_add, Nat.pow_one]
    congr 1
    exact Fin.ext (Nat.mod_mod v b)
  | @node n label child ih =>
    have hd : digit b (n + 1) (v % b ^ (n + 1 + 1)) = digit b (n + 1) v := by
      refine Fin.ext ?_
      show v % b ^ (n + 2) / b ^ (n + 1) % b = v / b ^ (n + 1) % b
      rw [Nat.pow_succ b (n + 1), Nat.mod_mul_right_div_self, Nat.mod_mod]
    have hv : v % b ^ (n + 1 + 1) % b ^ (n + 1) = v % b ^ (n + 1) :=
      Nat.mod_mod_of_dvd v (Nat.pow_dvd_pow b (Nat.le_succ (n + 1)))
    simp only [get, hd]
    split
    · rfl
    · rw [← ih _ (v % b ^ (n + 1 + 1)), hv, ih]

lemma digit_zero_val (i : Fin b) : digit b 0 i = i := by
  refine Fin.ext ?_
  show (i : ℕ) / b ^ 0 % b = i
  rw [Nat.pow_zero, Nat.div_one, Nat.mod_eq_of_lt i.isLt]

lemma get_child {label : Fin b → Option ι} {q : ι} {i : Fin b} (hi : label i = some q)
    (child : Fin b → Radix b ι α n) (v : ℕ) :
    get z (child i) v = get z (.node label child) (i * b ^ (n + 1) + v % b ^ (n + 1)) := by
  have hpos : 0 < b ^ (n + 1) := Nat.pow_pos (Nat.pos_of_ne_zero (NeZero.ne b))
  have hd : digit b (n + 1) (i * b ^ (n + 1) + v % b ^ (n + 1)) = i := by
    refine Fin.ext ?_
    show (i * b ^ (n + 1) + v % b ^ (n + 1)) / b ^ (n + 1) % b = i
    rw [Nat.mul_comm, Nat.mul_add_div hpos, Nat.div_eq_of_lt (Nat.mod_lt v hpos), Nat.add_zero,
      Nat.mod_eq_of_lt i.isLt]
  simp only [get, hd, hi]
  rw [← get_mod (child i) (i * b ^ (n + 1) + v % b ^ (n + 1)), Nat.mul_comm, Nat.mul_add_mod,
    Nat.mod_mod, get_mod]

end Radix

end Concur
