import Xv6.Grep.Match
import Xv6.Lib.Memmove
import Mathlib.Data.List.TakeDrop
import Mathlib.Data.Vector.Basic

/-!
# The loop of `grep`

`grep` of `user/grep.c`, with `strchr` of `user/ulib.c` and, on the memory in which `buf` begins at
the address 0, `memmove` of `Lib/Memmove.lean`.  A pointer into `buf` is an index.  Every access is
checked: `none` is an access outside `buf`, a difference below zero, or a loop that has not ended
after the given number of rounds.

The file is a list of bytes that `read` hands out in pieces.  The pieces are as long as `cut` says,
as far as this is possible: at least one byte, at most what was asked for, and at most what is left.
So every function `cut` is a way in which the bytes can be delivered, and all ways are of this form.

`grep_output` says what is written.  It does not mention `cut`.
-/

namespace Xv6.Grep

/-- `sizeof(buf)` -/
def SIZE : ℕ := 1024

/-- The newline character. -/
def nl : UInt8 := 10

/-! ## The code -/

/-- A difference of unsigned numbers that does not wrap. -/
def sub (a b : ℕ) : Option ℕ := if b ≤ a then some (a - b) else none

/-- `buf[i] = x` -/
def put (buf : List UInt8) (i : ℕ) (x : UInt8) : Option (List UInt8) :=
  if i < buf.length then some (buf.set i x) else none

/-- The `n` bytes from `p` on. -/
def slice (buf : List UInt8) (p n : ℕ) : Option (List UInt8) :=
  if p + n ≤ buf.length then some ((buf.drop p).take n) else none

/-- The bytes `x` are stored from `p` on, as `read` does. -/
def store (buf : List UInt8) (p : ℕ) (x : List UInt8) : Option (List UInt8) :=
  if p + x.length ≤ buf.length then some (buf.take p ++ x ++ buf.drop (p + x.length)) else none

/-- The string at the beginning of the bytes, up to its NUL. -/
def cstring : List UInt8 → Option (List UInt8)
  | [] => none
  | x :: s => if x = 0 then some [] else (cstring s).map (x :: ·)

/-- `strchr` on the bytes of `buf` from the index `i` on. -/
def strchrFrom (c : UInt8) : ℕ → List UInt8 → Option (Option ℕ)
  | _, [] => none
  | i, x :: s =>
    if x = 0 then some none
    else if x = c then some (some i)
    else strchrFrom c (i + 1) s

/-- `strchr(buf + p, c)`; the answer is `none` for a null pointer. -/
def strchr (buf : List UInt8) (p : ℕ) (c : UInt8) : Option (Option ℕ) :=
  strchrFrom c p (buf.drop p)

/-- `memmove(buf + dst, buf + src, n)` -/
def memmove (buf : List UInt8) (dst src n : ℕ) : Option (List UInt8) :=
  if dst + n ≤ buf.length ∧ src + n ≤ buf.length then
    some (List.ofFn fun i : Fin buf.length =>
      Memmove.User.memmove (fun a => buf.getD a.toNat 0) (BitVec.ofNat 64 dst) (BitVec.ofNat 64 src)
        (BitVec.ofNat 32 n) (BitVec.ofNat 64 i))
  else none

/-- The inner loop of `grep`: handle the lines from `p` on.  `out` is what has been written, by
calls of `write`. -/
def grepLines (pattern : List UInt8) :
    ℕ → ℕ → List UInt8 → List (List UInt8) → Option (ℕ × List UInt8 × List (List UInt8))
  | 0, _, _, _ => none
  | fuel + 1, p, buf, out => do
    match ← strchr buf p nl with
    | none => some (p, buf, out)
    | some q => do
      let buf ← put buf q 0
      let line ← cstring (buf.drop p)
      if matchRe pattern line then do
        let buf ← put buf q nl
        let n ← sub (q + 1) p
        let written ← slice buf p n
        grepLines pattern fuel (q + 1) buf (out ++ [written])
      else grepLines pattern fuel (q + 1) buf out

/-- The number of bytes that `read` delivers when it is called for the `k`th time, with room for
`room` bytes. -/
def pieceLength (cut : ℕ → ℕ) (k room : ℕ) (input : List UInt8) : ℕ :=
  min (max 1 (cut k)) (min room input.length)

/-- The outer loop of `grep`, before its `k`th call of `read`; `input` is what is left of the
file. -/
def grepFrom (pattern : List UInt8) (cut : ℕ → ℕ) :
    ℕ → ℕ → ℕ → List UInt8 → List UInt8 → List (List UInt8) → Option (List (List UInt8))
  | 0, _, _, _, _, _ => none
  | fuel + 1, k, m, buf, input, out => do
    let room ← sub SIZE (m + 1)
    let n := pieceLength cut k room input
    if n = 0 then some out
    else do
      let buf ← store buf m (input.take n)
      let m := m + n
      let buf ← put buf m 0
      let (p, buf, out) ← grepLines pattern SIZE 0 buf out
      if 0 < m then do
        let m ← sub m p
        let buf ← memmove buf 0 p m
        grepFrom pattern cut fuel (k + 1) m buf (input.drop n) out
      else grepFrom pattern cut fuel (k + 1) m buf (input.drop n) out

/-- `grep(pattern, fd)`; the answer is what it writes, by calls of `write`. -/
def grep (fuel : ℕ) (pattern : List UInt8) (cut : ℕ → ℕ) (buf : List UInt8) (file : List UInt8) :
    Option (List (List UInt8)) :=
  grepFrom pattern cut fuel 0 0 buf file []

/-! ## Lines -/

/-- The lines of a file that end with a newline, without it; `line` is what has been read of the
first. -/
def linesFrom : List UInt8 → List UInt8 → List (List UInt8)
  | _, [] => []
  | line, c :: s => if c = nl then line :: linesFrom [] s else linesFrom (line ++ [c]) s

/-- The lines of a file that end with a newline, without it. -/
def lines (s : List UInt8) : List (List UInt8) := linesFrom [] s

/-- A line that `grep` can handle: it has no NUL, and fits into the buffer. -/
def Fits (line : List UInt8) : Prop := 0 ∉ line ∧ line.length < 1023

instance : DecidablePred Fits := fun line => inferInstanceAs (Decidable (0 ∉ line ∧ _))

/-- The lines before the first one that `grep` cannot handle. -/
def goodLines (s : List UInt8) : List (List UInt8) := (lines s).takeWhile (Fits ·)

/-- What `grep` is to write for these lines. -/
def selected (pattern : List UInt8) (ls : List (List UInt8)) : List (List UInt8) :=
  (ls.filter (matchRe pattern)).map (· ++ [nl])

section

variable {l s text : List UInt8}

lemma linesFrom_append (h : nl ∉ l) (line s : List UInt8) :
    linesFrom line (l ++ nl :: s) = (line ++ l) :: lines s := by
  induction l generalizing line with
  | nil => simp [linesFrom, lines]
  | cons c l ih =>
    rw [List.mem_cons, not_or] at h
    rw [List.cons_append, linesFrom, if_neg (Ne.symm h.1), ih h.2, ← List.append_cons]

lemma lines_append (h : nl ∉ l) (s : List UInt8) : lines (l ++ nl :: s) = l :: lines s :=
  linesFrom_append h [] s

lemma linesFrom_of_notMem (h : nl ∉ s) (line : List UInt8) : linesFrom line s = [] := by
  induction s generalizing line with
  | nil => rfl
  | cons c s ih =>
    rw [List.mem_cons, not_or] at h
    rw [linesFrom, if_neg (Ne.symm h.1), ih h.2]

lemma goodLines_append (h : nl ∉ l) (hfits : Fits l) (s : List UInt8) :
    goodLines (l ++ nl :: s) = l :: goodLines s := by
  rw [goodLines, lines_append h, List.takeWhile_cons_of_pos (by simpa using hfits)]
  rfl

/-- The first newline of the text, if it has one, comes after a NUL: `strchr` does not find it. -/
def Stuck (text : List UInt8) : Prop := ∀ l s, text = l ++ nl :: s → 0 ∈ l

lemma line_or_stuck (text : List UInt8) :
    (∃ l s, text = l ++ nl :: s ∧ nl ∉ l ∧ 0 ∉ l) ∨ Stuck text := by
  by_cases h : ∃ l s, text = l ++ nl :: s ∧ 0 ∉ l
  · obtain ⟨l, s, rfl, h0⟩ := h
    by_cases hl : nl ∈ l
    · obtain ⟨l1, l2, rfl, hl1⟩ := List.eq_append_cons_of_mem hl
      refine .inl ⟨l1, l2 ++ nl :: s, by simp, hl1, fun h => h0 ?_⟩
      exact List.mem_append_left _ h
    · exact .inl ⟨l, s, rfl, hl, h0⟩
  · exact .inr fun l s htext => by_contra fun h0 => h ⟨l, s, htext, h0⟩

/-- A text on which `strchr` is stuck has no good line, also when more bytes come, if these cannot
be part of a line that fits. -/
lemma Stuck.goodLines_append (h : Stuck text) (hs : s = [] ∨ 1023 ≤ text.length) :
    goodLines (text ++ s) = [] := by
  by_cases hmem : nl ∈ text ++ s
  · obtain ⟨l, s', heq, hl⟩ := List.eq_append_cons_of_mem hmem
    rw [goodLines, heq, lines_append hl, List.takeWhile_cons_of_neg]
    simp only [decide_eq_true_eq]
    rintro ⟨h0, hlen⟩
    -- the newline is in `text`
    have hlt : l.length < text.length := by
      rcases hs with rfl | hs
      · have hsum := congrArg List.length heq
        simp only [List.append_nil, List.length_append, List.length_cons] at hsum
        omega
      · omega
    have htake := congrArg (List.take text.length) heq
    obtain ⟨k, hk⟩ : ∃ k, text.length - l.length = k + 1 := ⟨text.length - l.length - 1, by omega⟩
    rw [List.take_left, List.take_append, List.take_of_length_le hlt.le, hk,
      List.take_succ_cons] at htake
    exact h0 (h l _ htake)
  · rw [goodLines, lines, linesFrom_of_notMem hmem]
    rfl

end

/-! ## Accesses to the buffer -/

section

variable {buf l s : List UInt8} {p n : ℕ}

lemma put_eq (h : p < buf.length) (x : UInt8) : put buf p x = some (buf.set p x) := if_pos h

lemma drop_set_append {x : UInt8} (h : buf.drop p = l ++ x :: s) (y : UInt8) :
    (buf.set (p + l.length) y).drop p = l ++ y :: s := by
  rw [List.drop_set, if_neg (by omega), h, Nat.add_sub_cancel_left,
    List.set_append_right _ _ le_rfl, Nat.sub_self, List.set_cons_zero]

lemma drop_succ_append {x : UInt8} (h : buf.drop p = l ++ x :: s) :
    buf.drop (p + l.length + 1) = s := by
  rw [Nat.add_assoc, ← List.drop_drop, h, List.append_cons, List.drop_left' (by simp)]

lemma lt_length_of_drop {x : UInt8} (h : buf.drop p = l ++ x :: s) :
    p + l.length < buf.length := by
  have hlen := congrArg List.length h
  simp only [List.length_drop, List.length_append, List.length_cons] at hlen
  omega

lemma cstring_append (h : 0 ∉ l) (s : List UInt8) : cstring (l ++ 0 :: s) = some l := by
  induction l with
  | nil => rfl
  | cons x l ih =>
    rw [List.mem_cons, not_or] at h
    rw [List.cons_append, cstring, if_neg (Ne.symm h.1), ih h.2]
    rfl

lemma strchrFrom_append (h0 : 0 ∉ l) (hnl : nl ∉ l) (i : ℕ) (s : List UInt8) :
    strchrFrom nl i (l ++ nl :: s) = some (some (i + l.length)) := by
  induction l generalizing i with
  | nil => rfl
  | cons x l ih =>
    rw [List.mem_cons, not_or] at h0 hnl
    rw [List.cons_append, strchrFrom, if_neg (Ne.symm h0.1), if_neg (Ne.symm hnl.1),
      ih h0.2 hnl.2, List.length_cons, Nat.add_right_comm, Nat.add_assoc]

lemma strchrFrom_stuck {text : List UInt8} (h : Stuck text) (i : ℕ) (s : List UInt8) :
    strchrFrom nl i (text ++ 0 :: s) = some none := by
  induction text generalizing i with
  | nil => rfl
  | cons x text ih =>
    rw [List.cons_append, strchrFrom]
    by_cases hx : x = 0
    · rw [if_pos hx]
    · have hne : x ≠ nl := by
        rintro rfl
        exact absurd (h [] text rfl) List.not_mem_nil
      rw [if_neg hx, if_neg hne]
      refine ih (fun l s hl => ?_) (i + 1)
      have hmem := h (x :: l) s (by rw [hl, List.cons_append])
      exact (List.mem_cons.1 hmem).resolve_left (Ne.symm hx)

lemma memmove_zero (hsize : buf.length = SIZE) (hlen : p + n ≤ buf.length) :
    ∃ buf', memmove buf 0 p n = some buf' ∧ buf'.length = buf.length ∧
      buf'.take n = (buf.drop p).take n := by
  rw [SIZE] at hsize
  have hn : (BitVec.ofNat 32 n).toNat = n := Nat.mod_eq_of_lt (by omega)
  have hp : (BitVec.ofNat 64 p).toNat = p := Nat.mod_eq_of_lt (by omega)
  have hpos : 0 ≤ (BitVec.ofNat 32 n).toInt := BitVec.toInt_pos_iff.2 (by omega)
  rw [memmove, if_pos ⟨by omega, hlen⟩]
  refine ⟨_, rfl, List.length_ofFn, List.ext_getElem? fun i => ?_⟩
  rw [List.getElem?_take, List.getElem?_take, List.getElem?_drop, List.getElem?_ofFn]
  by_cases hi : i < n
  · have hi' : (BitVec.ofNat 64 i).toNat = i := Nat.mod_eq_of_lt (by omega)
    have hsrc : (BitVec.ofNat 64 p + (BitVec.ofNat 64 i - 0#64)).toNat = p + i := by
      rw [BitVec.sub_zero, BitVec.toNat_add, hp, hi', Nat.mod_eq_of_lt (by omega)]
    rw [if_pos hi, if_pos hi, dif_pos (by omega),
      Memmove.user_memmove_eq hpos (by omega) (by rw [hn]; simp; omega), Memmove.moved, hn, if_pos]
    · rw [hsrc, List.getD_eq_getElem?_getD, List.getElem?_eq_getElem (by omega), Option.getD_some]
    · simp [hi']
      exact hi
  · rw [if_neg hi, if_neg hi]

end

lemma store_put {text x : List UInt8} (hbuf : buf.length = SIZE)
    (htake : buf.take text.length = text) (hlt : text.length + x.length < SIZE) :
    ∃ buf1 buf2 tail, store buf text.length x = some buf1 ∧
      put buf1 (text.length + x.length) 0 = some buf2 ∧ buf2.length = SIZE ∧
      buf2.drop 0 = text ++ x ++ 0 :: tail := by
  obtain ⟨y, tail, hy⟩ := List.exists_cons_of_ne_nil (l := buf.drop (text.length + x.length))
    (by rw [Ne, List.drop_eq_nil_iff]; omega)
  have hstore : store buf text.length x = some (text ++ x ++ y :: tail) := by
    rw [store, if_pos (by omega), htake, hy]
  have hlen : (text ++ x).length = text.length + x.length := List.length_append
  have hdrop : (text ++ x ++ y :: tail).drop 0 = text ++ x ++ y :: tail := rfl
  have hlt' := lt_length_of_drop hdrop
  have hset := drop_set_append hdrop 0
  rw [Nat.zero_add, hlen] at hlt' hset
  refine ⟨_, _, tail, hstore, put_eq hlt' 0, ?_, hset⟩
  have htail := congrArg List.length hy
  rw [List.length_drop, List.length_cons] at htail
  rw [List.length_set, List.length_append, List.length_cons, hlen]
  omega

/-! ## One buffer full -/

section

variable {pattern : List UInt8}

lemma selected_append (ls ls' : List (List UInt8)) :
    selected pattern (ls ++ ls') = selected pattern ls ++ selected pattern ls' := by
  rw [selected, List.filter_append, List.map_append]
  rfl

lemma selected_cons_pos {l : List UInt8} (h : matchRe pattern l = true) (ls : List (List UInt8)) :
    selected pattern (l :: ls) = (l ++ [nl]) :: selected pattern ls := by
  rw [selected, List.filter_cons_of_pos h]
  rfl

lemma selected_cons_neg {l : List UInt8} (h : ¬ matchRe pattern l = true)
    (ls : List (List UInt8)) : selected pattern (l :: ls) = selected pattern ls := by
  rw [selected, List.filter_cons_of_neg h]
  rfl

/-- The inner loop on the text from `p` on, which a NUL ends.  It writes what is selected of the
lines `ls`, and leaves a text on which `strchr` is stuck. -/
lemma grepLines_eq (pattern : List UInt8) {fuel p : ℕ} {buf text tail : List UInt8}
    (out : List (List UInt8))
    (hfuel : text.length < fuel) (htext : text.length ≤ 1023)
    (hbuf : buf.drop p = text ++ 0 :: tail) :
    ∃ p' buf' ls rest,
      grepLines pattern fuel p buf out = some (p', buf', out ++ selected pattern ls) ∧
      buf'.length = buf.length ∧ buf'.drop p' = rest ++ 0 :: tail ∧
      p' + rest.length = p + text.length ∧ Stuck rest ∧
      ∀ y, goodLines (text ++ y) = ls ++ goodLines (rest ++ y) := by
  induction fuel generalizing p buf text out with
  | zero => omega
  | succ fuel ih =>
    have hstr : strchr buf p nl = strchrFrom nl p (text ++ 0 :: tail) := by rw [strchr, hbuf]
    obtain ⟨l, s, rfl, hnl, h0⟩ | hstuck := line_or_stuck text
    · have hfind : strchr buf p nl = some (some (p + l.length)) := by
        rw [hstr, List.append_assoc]
        exact strchrFrom_append h0 hnl p _
      have hfits : Fits l := by
        rw [List.length_append, List.length_cons] at htext
        exact ⟨h0, by omega⟩
      rw [List.append_assoc, List.cons_append] at hbuf
      rw [List.length_append, List.length_cons] at hfuel htext
      have hlt := lt_length_of_drop hbuf
      -- the line with its newline replaced by NUL, and with its newline back
      have hbuf0 := drop_set_append hbuf 0
      have hbuf1 := drop_set_append hbuf0 nl
      have hput0 := put_eq hlt 0
      have hline : cstring ((buf.set (p + l.length) 0).drop p) = some l := by
        rw [hbuf0, cstring_append h0]
      have hlt0 := lt_length_of_drop hbuf0
      have hgood : ∀ y, goodLines (l ++ nl :: s ++ y) = l :: goodLines (s ++ y) := fun y => by
        rw [List.append_assoc, List.cons_append, goodLines_append hnl hfits]
      by_cases hmatch : matchRe pattern l = true
      · have hput1 := put_eq hlt0 nl
        have hsub : sub (p + l.length + 1) p = some (l.length + 1) := by
          rw [sub, if_pos (by omega)]
          congr 1
          omega
        have hslice : slice ((buf.set (p + l.length) 0).set (p + l.length) nl) p (l.length + 1) =
            some (l ++ [nl]) := by
          rw [slice, if_pos (by simp only [List.length_set]; omega), hbuf1, List.append_cons,
            List.take_left' (by simp)]
        obtain ⟨p', buf', ls, rest, hrun, hlen, hdrop, hsum, hstuck, hsplit⟩ :=
          ih (out ++ [l ++ [nl]]) (by omega : s.length < fuel) (by omega) (drop_succ_append hbuf1)
        refine ⟨p', buf', l :: ls, rest, ?_, ?_, hdrop, ?_, hstuck, fun y => ?_⟩
        · simp only [grepLines, hfind, hput0, hline, hmatch, hput1, hsub, hslice, if_true,
            Option.bind_eq_bind, Option.bind_some, hrun]
          rw [selected_cons_pos hmatch, List.append_assoc, List.singleton_append]
        · rw [hlen, List.length_set, List.length_set]
        · rw [hsum, List.length_append, List.length_cons]
          omega
        · rw [hgood y, hsplit y, List.cons_append]
      · obtain ⟨p', buf', ls, rest, hrun, hlen, hdrop, hsum, hstuck, hsplit⟩ :=
          ih out (by omega : s.length < fuel) (by omega) (drop_succ_append hbuf0)
        refine ⟨p', buf', l :: ls, rest, ?_, ?_, hdrop, ?_, hstuck, fun y => ?_⟩
        · simp only [grepLines, hfind, hput0, hline, if_neg hmatch, Option.bind_eq_bind,
            Option.bind_some, hrun]
          rw [selected_cons_neg hmatch]
        · rw [hlen, List.length_set]
        · rw [hsum, List.length_append, List.length_cons]
          omega
        · rw [hgood y, hsplit y, List.cons_append]
    · refine ⟨p, buf, [], text, ?_, rfl, hbuf, rfl, hstuck, fun y => rfl⟩
      simp only [grepLines, hstr, strchrFrom_stuck hstuck, Option.bind_eq_bind, Option.bind_some]
      rw [selected, List.filter_nil, List.map_nil, List.append_nil]

/-! ## The whole file -/

lemma grepFrom_eq {cut : ℕ → ℕ} {fuel k : ℕ} {buf text input : List UInt8}
    (out : List (List UInt8)) (hfuel : input.length < fuel) (hbuf : buf.length = SIZE)
    (htext : text.length < SIZE) (htake : buf.take text.length = text) (hstuck : Stuck text) :
    grepFrom pattern cut fuel k text.length buf input out =
      some (out ++ selected pattern (goodLines (text ++ input))) := by
  induction fuel generalizing k buf text input out with
  | zero => omega
  | succ fuel ih =>
    have hsub : sub SIZE (text.length + 1) = some (SIZE - (text.length + 1)) := if_pos htext
    by_cases hn : pieceLength cut k (SIZE - (text.length + 1)) input = 0
    · -- nothing is left, or the buffer is full
      have hgood : goodLines (text ++ input) = [] := by
        refine hstuck.goodLines_append ?_
        rw [pieceLength] at hn
        rw [← List.length_eq_zero_iff]
        simp only [SIZE] at hn htext ⊢
        omega
      simp only [grepFrom, hsub, hn, if_true, Option.bind_eq_bind, Option.bind_some]
      rw [hgood, selected, List.filter_nil, List.map_nil, List.append_nil]
    · generalize hn' : pieceLength cut k (SIZE - (text.length + 1)) input = n at hn
      have hroom : n ≤ SIZE - (text.length + 1) := by
        rw [← hn', pieceLength]
        omega
      have hinput : n ≤ input.length := by
        rw [← hn', pieceLength]
        omega
      -- the piece comes after the text, and a NUL after the piece
      obtain ⟨buf0, buf1, tail, hstore, hput, hlen1, hdrop1⟩ :=
        store_put hbuf htake (show text.length + (input.take n).length < SIZE by
          rw [List.length_take]
          omega)
      rw [List.length_take, Nat.min_eq_left hinput] at hput
      have hlen : (text ++ input.take n).length = text.length + n := by
        rw [List.length_append, List.length_take, Nat.min_eq_left hinput]
      obtain ⟨p, buf2, ls, rest, hlines, hlen2, hdrop2, hsum, hrest, hsplit⟩ :=
        grepLines_eq pattern out (by omega : (text ++ input.take n).length < SIZE)
          (by simp only [SIZE] at hroom htext; omega) hdrop1
      have hsum' : p + rest.length = text.length + n := by rw [hsum, hlen, Nat.zero_add]
      have hsub' : sub (text.length + n) p = some rest.length := by
        rw [sub, if_pos (by omega), ← hsum', Nat.add_sub_cancel_left]
      -- what is left of the text comes to the beginning
      obtain ⟨buf3, hmove, hlen3, htake3⟩ :=
        memmove_zero (by omega) (by omega : p + rest.length ≤ buf2.length)
      rw [hdrop2, List.take_left] at htake3
      have hnext := ih (k := k + 1) (out ++ selected pattern ls)
        (by rw [List.length_drop]; omega : (input.drop n).length < fuel) (by omega) (by omega)
        htake3 hrest
      have hpos : 0 < text.length + n := by omega
      simp only [grepFrom, hsub, hn', if_neg hn, hstore, hput, hlines, if_pos hpos, hsub', hmove,
        Option.bind_eq_bind, Option.bind_some, hnext]
      have hall : text ++ input = (text ++ input.take n) ++ input.drop n := by
        rw [List.append_assoc, List.take_append_drop]
      rw [hall, hsplit, selected_append, List.append_assoc]

/-- What `grep` writes: the lines that match, with their newlines, among those before the first line
that has a NUL or does not fit into the buffer.  It does not depend on how the file is cut into
pieces, nor on what is in the buffer before, and no access is outside the buffer. -/
theorem grep_output (pattern file : List UInt8) (cut : ℕ → ℕ) (buf : Vector UInt8 SIZE) {fuel : ℕ}
    (hfuel : file.length < fuel) :
    grep fuel pattern cut buf.toList file = some (selected pattern (goodLines file)) ∧
      ∀ (cut' : ℕ → ℕ) (buf' : Vector UInt8 SIZE),
        grep fuel pattern cut' buf'.toList file = grep fuel pattern cut buf.toList file := by
  have hstuck : Stuck [] := fun l s h => by cases l <;> cases h
  have hrun : ∀ (cut : ℕ → ℕ) (buf : Vector UInt8 SIZE),
      grep fuel pattern cut buf.toList file = some (selected pattern (goodLines file)) :=
    fun cut buf => grepFrom_eq [] hfuel Vector.length_toList (by decide) rfl hstuck
  refine ⟨hrun cut buf, fun cut' buf' => ?_⟩
  rw [hrun cut' buf', hrun cut buf]

/-- The lines of `ab`, `c` and a line with a NUL, and the pattern `b`. -/
theorem grep_output_small :
    grep 9 [chr 'b'] (fun _ => 2) (Vector.replicate SIZE 0).toList
        [chr 'a', chr 'b', nl, chr 'c', nl, 0, nl] = some [[chr 'a', chr 'b', nl]] :=
  (grep_output [chr 'b'] [chr 'a', chr 'b', nl, chr 'c', nl, 0, nl] (fun _ => 2)
    (Vector.replicate SIZE 0) (by decide)).1

end

end Xv6.Grep
