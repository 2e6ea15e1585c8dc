import Xv6.Console.Basic
import Xv6.Framework.Logic

/-!
# The line discipline of the console

The reference is a line editor (`Editor`) without indices: the characters that readers can have, the
line that is being edited, and the calls of `consoleread` that are in progress.  Its steps are
labelled with the events of the console, and say which events are possible and what they change.

`console_discipline` says that the console refines it: what happens at the console is a run of the
editor, in which the ring buffer holds at any time what the editor has.
-/

namespace Xv6.Console

open Concur

variable {N : ℕ}

/-! ## The reference -/

/-- How far a call of `consoleread` is: it goes on, it is to return what it got, or it is to return
`-1`. -/
inductive Phase where
  | reading
  | ended
  | dead
  deriving DecidableEq, Repr

/-- A call of `consoleread` in progress: the number of bytes asked for, and those it got. -/
structure Reading where
  n : ℤ
  got : List UInt8
  phase : Phase
  deriving DecidableEq, Repr

/-- The line editor. -/
structure Editor (N : ℕ) where
  /-- The characters that readers can have. -/
  ready : List UInt8
  /-- The line that is being edited. -/
  line : List UInt8
  reads : Fin N → Option Reading
  killed : Fin N → Bool

namespace Editor

def init (N : ℕ) : Editor N := ⟨[], [], fun _ => none, fun _ => false⟩

/-- The line is made available to readers. -/
def commit (ed : Editor N) : Editor N := { ed with ready := ed.ready ++ ed.line, line := [] }

/-- A character is put at the end of the line, which is committed if it is complete or if there is
no more room. -/
def append (ed : Editor N) (c : UInt8) : Editor N :=
  let ed := { ed with line := ed.line ++ [c] }
  if c = nl ∨ c = C 'D' ∨ ed.ready.length + ed.line.length = INPUT_BUF_SIZE then ed.commit else ed

/-- A character is typed. -/
def type (ed : Editor N) (c : UInt8) : Editor N :=
  if c = C 'P' ∨ c = 0 then ed
  else if c = C 'U' then { ed with line := [] }
  else if c = C 'H' ∨ c = del then { ed with line := ed.line.dropLast }
  else if ed.ready.length + ed.line.length < INPUT_BUF_SIZE then
    ed.append (if c = cr then nl else c)
  else ed

def setRead (ed : Editor N) (t : Fin N) (x : Option Reading) : Editor N :=
  { ed with reads := setAt ed.reads t x }

/-- The steps of the editor. -/
inductive Step : Editor N → Event N → Editor N → Prop where
  | typed (ed : Editor N) (c : UInt8) : Step ed (.typed c) (ed.type c)
  | killed (ed : Editor N) (t : Fin N) :
      Step ed (.killed t) { ed with killed := setAt ed.killed t true }
  | call {ed : Editor N} (t : Fin N) (n : ℤ) : ed.reads t = none →
      Step ed (.call t n) (ed.setRead t (some ⟨n, [], .reading⟩))
  /-- A read gets the next character, and ends after a newline. -/
  | byte {ed : Editor N} {t : Fin N} {n : ℤ} {got rest : List UInt8} {b : UInt8} :
      ed.reads t = some ⟨n, got, .reading⟩ → got.length < n → ed.ready = b :: rest → b ≠ C 'D' →
      Step ed (.byte t got.length b) ({ ed with ready := rest }.setRead t
        (some ⟨n, got ++ [b], if b = nl then .ended else .reading⟩))
  /-- A control-D at the beginning of a read is used up. -/
  | eof {ed : Editor N} {t : Fin N} {n : ℤ} {rest : List UInt8} :
      ed.reads t = some ⟨n, [], .reading⟩ → 0 < n → ed.ready = C 'D' :: rest →
      Step ed (.eof t) ({ ed with ready := rest }.setRead t (some ⟨n, [], .ended⟩))
  /-- A control-D later in a read stays for the next one. -/
  | keep {ed : Editor N} {t : Fin N} {n : ℤ} {got rest : List UInt8} :
      ed.reads t = some ⟨n, got, .reading⟩ → got ≠ [] → got.length < n →
      ed.ready = C 'D' :: rest → Step ed (.eof t) (ed.setRead t (some ⟨n, got, .ended⟩))
  /-- A process that would have to wait finds that it is killed. -/
  | dead {ed : Editor N} {t : Fin N} {n : ℤ} {got : List UInt8} :
      ed.reads t = some ⟨n, got, .reading⟩ → got.length < n → ed.ready = [] →
      ed.killed t = true → Step ed (.dead t) (ed.setRead t (some ⟨n, got, .dead⟩))
  /-- A read has all bytes that it asked for, or has ended before. -/
  | ret {ed : Editor N} {t : Fin N} {n : ℤ} {got : List UInt8} {phase : Phase} :
      ed.reads t = some ⟨n, got, phase⟩ → phase = .ended ∨ phase = .reading ∧ n ≤ got.length →
      Step ed (.ret t got.length) (ed.setRead t none)
  | retDead {ed : Editor N} {t : Fin N} {n : ℤ} {got : List UInt8} :
      ed.reads t = some ⟨n, got, .dead⟩ → Step ed (.ret t (-1)) (ed.setRead t none)

/-- The editor can go through the events, in this order. -/
inductive Runs : Editor N → List (Event N) → Editor N → Prop where
  | nil (ed : Editor N) : Runs ed [] ed
  | snoc {ed ed' ed'' : Editor N} {evs : List (Event N)} {ev : Event N} :
      Runs ed evs ed' → Step ed' ev ed'' → Runs ed (evs ++ [ev]) ed''

end Editor

/-! ## What is in the ring -/

namespace Cons

/-- The characters between two indices. -/
def between (k : Cons) (i j : UInt32) : List UInt8 :=
  (List.range (j - i).toNat).map fun d => k.buf (slot (i + UInt32.ofNat d))

/-- The characters that readers can have. -/
def ready (k : Cons) : List UInt8 := k.between k.r k.w

/-- The line that is being edited. -/
def line (k : Cons) : List UInt8 := k.between k.w k.e

end Cons

lemma add_sub_self (a b : UInt32) : a + b - a = b := by
  rw [UInt32.add_comm, UInt32.add_sub_cancel]

lemma eq_iff_toNat_sub (a b : UInt32) : a = b ↔ (a - b).toNat = 0 := by
  constructor
  · rintro rfl
    rw [UInt32.sub_self]
    rfl
  · intro h
    have hzero : a - b = 0 := UInt32.toNat_inj.1 h
    rw [← UInt32.sub_add_cancel a b, hzero, UInt32.zero_add]

lemma slot_add (i : UInt32) (d : ℕ) :
    slot (i + UInt32.ofNat d) = Fin.ofNat INPUT_BUF_SIZE (i.toNat + d) := by
  apply Fin.ext
  show (i + UInt32.ofNat d).toNat % 128 = (i.toNat + d) % 128
  rw [UInt32.toNat_add, UInt32.toNat_ofNat']
  omega

lemma slot_add_ne {i : UInt32} {d d' : ℕ} (hd : d < d') (hd' : d' < d + INPUT_BUF_SIZE) :
    slot (i + UInt32.ofNat d) ≠ slot (i + UInt32.ofNat d') := by
  rw [slot_add, slot_add]
  intro h
  have h : (i.toNat + d) % 128 = (i.toNat + d') % 128 := congrArg Fin.val h
  rw [INPUT_BUF_SIZE_eq] at hd'
  omega

lemma toNat_ofNat_of_le {d : ℕ} (h : d ≤ INPUT_BUF_SIZE) : (UInt32.ofNat d).toNat = d := by
  rw [INPUT_BUF_SIZE_eq] at h
  rw [UInt32.toNat_ofNat', Nat.mod_eq_of_lt (by omega)]

lemma add_ofNat_succ (i : UInt32) (d : ℕ) :
    i + UInt32.ofNat (d + 1) = i + UInt32.ofNat d + 1 := by
  rw [UInt32.add_assoc, UInt32.ofNat_add]
  rfl

lemma succ_add_ofNat (i : UInt32) (d : ℕ) :
    i + 1 + UInt32.ofNat d = i + UInt32.ofNat (d + 1) := by
  rw [add_ofNat_succ, UInt32.add_assoc, UInt32.add_comm 1, ← UInt32.add_assoc]

/-- The ring holds the characters `l`, from `r` to `e`. -/
structure Holds (k : Cons) (l : List UInt8) : Prop where
  e : k.e = k.r + UInt32.ofNat l.length
  le : l.length ≤ INPUT_BUF_SIZE
  data : ∀ d, d < l.length → l[d]? = some (k.buf (slot (k.r + UInt32.ofNat d)))

namespace Holds

variable {k : Cons} {l : List UInt8}

lemma take {b : UInt8} (h : Holds k (b :: l)) :
    k.buf (slot k.r) = b ∧ Holds { k with r := k.r + 1 } l := by
  have hle := h.le
  rw [List.length_cons] at hle
  refine ⟨?_, ?_, by omega, fun d hd => ?_⟩
  · have hdata := h.data 0 (Nat.succ_pos _)
    rw [List.getElem?_cons_zero, show UInt32.ofNat 0 = 0 from rfl, UInt32.add_zero] at hdata
    exact (Option.some.inj hdata).symm
  · show k.e = k.r + 1 + UInt32.ofNat l.length
    rw [h.e, List.length_cons, succ_add_ofNat]
  · have hdata := h.data (d + 1) (Nat.succ_lt_succ hd)
    rw [List.getElem?_cons_succ] at hdata
    rw [hdata, succ_add_ofNat]

lemma erase {x : UInt8} (h : Holds k (l ++ [x])) :
    k.buf (slot (k.e - 1)) = x ∧ Holds { k with e := k.e - 1 } l := by
  have hlen : (l ++ [x]).length = l.length + 1 := by rw [List.length_append]; rfl
  have hle := h.le
  rw [hlen] at hle
  have he : k.e - 1 = k.r + UInt32.ofNat l.length := by
    rw [h.e, hlen, add_ofNat_succ, UInt32.add_sub_cancel]
  refine ⟨?_, he, by omega, fun d hd => ?_⟩
  · have hdata := h.data l.length (by omega)
    rw [List.getElem?_concat_length] at hdata
    rw [he]
    exact (Option.some.inj hdata).symm
  · have hdata := h.data d (by omega)
    rwa [List.getElem?_append_left hd] at hdata

lemma store (h : Holds k l) (hlt : l.length < INPUT_BUF_SIZE) (c : UInt8) :
    Holds (k.store c) (l ++ [c]) := by
  have hlen : (l ++ [c]).length = l.length + 1 := by rw [List.length_append]; rfl
  refine ⟨?_, by omega, fun d hd => ?_⟩
  · show k.e + 1 = k.r + UInt32.ofNat (l ++ [c]).length
    rw [hlen, add_ofNat_succ, h.e]
  · show _ = some (setAt k.buf (slot k.e) c (slot (k.r + UInt32.ofNat d)))
    rw [h.e]
    by_cases hdl : d = l.length
    · subst hdl
      rw [List.getElem?_concat_length, setAt_self]
    · rw [List.getElem?_append_left (by omega), h.data d (by omega),
        setAt_of_ne _ _ (slot_add_ne (by omega) (by omega))]

end Holds

/-- The ring holds the characters `ready`, from `r` to `w`, and after them the line `line`, up to
`e`. -/
structure View (k : Cons) (ready line : List UInt8) : Prop where
  holds : Holds k (ready ++ line)
  w : k.w = k.r + UInt32.ofNat ready.length
  notMem : nl ∉ line

namespace View

variable {k : Cons} {ready line : List UInt8}

section

variable (h : View k ready line)

include h

lemma le : ready.length + line.length ≤ INPUT_BUF_SIZE := by
  have hle := h.holds.le
  rwa [List.length_append] at hle

lemma w_sub_r : (k.w - k.r).toNat = ready.length := by
  have hle := h.le
  rw [h.w, add_sub_self]
  exact toNat_ofNat_of_le (by omega)

lemma e_sub_r : k.e - k.r = UInt32.ofNat (ready.length + line.length) := by
  rw [h.holds.e, add_sub_self, List.length_append]

lemma e_eq : k.e = k.w + UInt32.ofNat line.length := by
  rw [h.holds.e, h.w, List.length_append, UInt32.ofNat_add, UInt32.add_assoc]

lemma e_sub_w : (k.e - k.w).toNat = line.length := by
  have hle := h.le
  rw [h.e_eq, add_sub_self]
  exact toNat_ofNat_of_le (by omega)

lemma e_eq_w_iff : k.e = k.w ↔ line = [] := by
  rw [← List.length_eq_zero_iff, ← h.e_sub_w, eq_iff_toNat_sub]

lemma r_eq_w_iff : k.r = k.w ↔ ready = [] := by
  rw [← List.length_eq_zero_iff, ← h.w_sub_r, ← eq_iff_toNat_sub, eq_comm]

lemma lt_iff :
    k.e - k.r < UInt32.ofNat INPUT_BUF_SIZE ↔ ready.length + line.length < INPUT_BUF_SIZE := by
  rw [h.e_sub_r, UInt32.lt_iff_toNat_lt, toNat_ofNat_of_le h.le, toNat_ofNat_of_le le_rfl]

lemma ready_eq : k.ready = ready := by
  refine List.ext_getElem? fun d => ?_
  rw [Cons.ready, Cons.between, h.w_sub_r, List.getElem?_map]
  by_cases hd : d < ready.length
  · have hdata := h.holds.data d (by rw [List.length_append]; omega)
    rw [List.getElem?_append_left hd] at hdata
    rw [List.getElem?_range hd, hdata]
    rfl
  · rw [List.getElem?_eq_none (by simpa using hd), List.getElem?_eq_none (by omega)]
    rfl

lemma line_eq : k.line = line := by
  refine List.ext_getElem? fun d => ?_
  rw [Cons.line, Cons.between, h.e_sub_w, List.getElem?_map]
  by_cases hd : d < line.length
  · have hdata := h.holds.data (ready.length + d) (by rw [List.length_append]; omega)
    rw [List.getElem?_append_right (by omega), Nat.add_sub_cancel_left, UInt32.ofNat_add,
      ← UInt32.add_assoc, ← h.w] at hdata
    rw [List.getElem?_range hd, hdata]
    rfl
  · rw [List.getElem?_eq_none (by simpa using hd), List.getElem?_eq_none (by omega)]
    rfl

end

lemma init (buf : Fin INPUT_BUF_SIZE → UInt8) : View ⟨buf, 0, 0, 0⟩ [] [] :=
  ⟨⟨rfl, Nat.zero_le _, fun _ h => absurd h (Nat.not_lt_zero _)⟩, rfl, List.not_mem_nil⟩

/-! ### What the routines do to it -/

lemma take {b : UInt8} (h : View k (b :: ready) line) :
    k.buf (slot k.r) = b ∧ View { k with r := k.r + 1 } ready line := by
  obtain ⟨hb, hholds⟩ := Holds.take (l := ready ++ line) h.holds
  refine ⟨hb, hholds, ?_, h.notMem⟩
  show k.w = k.r + 1 + UInt32.ofNat ready.length
  rw [h.w, List.length_cons, succ_add_ofNat]

lemma erase {x : UInt8} (h : View k ready (line ++ [x])) :
    k.buf (slot (k.e - 1)) = x ∧ View { k with e := k.e - 1 } ready line := by
  have hholds := h.holds
  rw [← List.append_assoc] at hholds
  obtain ⟨hx, hholds⟩ := hholds.erase
  exact ⟨hx, hholds, h.w, fun hmem => h.notMem (List.mem_append_left _ hmem)⟩

lemma killLine (h : View k ready line) : View (k.killLine line.length) ready [] := by
  induction line using List.reverseRecOn generalizing k with
  | nil => exact h
  | append_singleton line x ih =>
    obtain ⟨hx, herase⟩ := h.erase
    have hne : k.e ≠ k.w := by
      rw [Ne, h.e_eq_w_iff]
      simp
    have hnl : k.buf (slot (k.e - 1)) ≠ nl := by
      rw [hx]
      rintro rfl
      exact h.notMem (List.mem_append_right _ (List.mem_singleton_self _))
    rw [List.length_append, List.length_singleton, Cons.killLine, if_pos ⟨hne, hnl⟩]
    exact ih herase

lemma commit {c : UInt8} (h : View k ready line)
    (hlt : ready.length + line.length < INPUT_BUF_SIZE) :
    View { k.store c with w := (k.store c).e } (ready ++ (line ++ [c])) [] := by
  have hstore := h.holds.store (by rwa [List.length_append]) c
  rw [List.append_assoc] at hstore
  refine ⟨?_, hstore.e, List.not_mem_nil⟩
  rw [List.append_nil]
  exact ⟨hstore.e, hstore.le, hstore.data⟩

lemma store {c : UInt8} (h : View k ready line)
    (hlt : ready.length + line.length < INPUT_BUF_SIZE) (hc : c ≠ nl) :
    View (k.store c) ready (line ++ [c]) := by
  have hstore := h.holds.store (by rwa [List.length_append]) c
  rw [List.append_assoc] at hstore
  refine ⟨hstore, h.w, fun hmem => ?_⟩
  rcases List.mem_append.1 hmem with hmem | hmem
  · exact h.notMem hmem
  · exact hc (List.mem_singleton.1 hmem).symm

lemma append {ed : Editor N} (h : View k ed.ready ed.line)
    (hlt : ed.ready.length + ed.line.length < INPUT_BUF_SIZE) (c : UInt8) :
    View (if c = nl ∨ c = C 'D' ∨ (k.store c).e - (k.store c).r = UInt32.ofNat INPUT_BUF_SIZE then
        { k.store c with w := (k.store c).e } else k.store c)
      (ed.append c).ready (ed.append c).line := by
  have hfull : (k.store c).e - (k.store c).r = UInt32.ofNat INPUT_BUF_SIZE ↔
      ed.ready.length + (ed.line ++ [c]).length = INPUT_BUF_SIZE := by
    have hstore := h.holds.store (by rwa [List.length_append]) c
    rw [hstore.e, add_sub_self, ← UInt32.toNat_inj, toNat_ofNat_of_le hstore.le,
      toNat_ofNat_of_le le_rfl, List.append_assoc, List.length_append]
  unfold Editor.append
  by_cases hc : c = nl ∨ c = C 'D' ∨ ed.ready.length + (ed.line ++ [c]).length = INPUT_BUF_SIZE
  · rw [if_pos (by rwa [hfull])]
    dsimp only
    rw [if_pos hc]
    exact h.commit hlt
  · rw [if_neg (by rwa [hfull])]
    dsimp only
    rw [if_neg hc]
    exact h.store hlt fun hnl => hc (.inl hnl)

end View

lemma View.consoleintr {k : Cons} {ed : Editor N} (h : View k ed.ready ed.line) (c : UInt8) :
    View (consoleintr c k) (ed.type c).ready (ed.type c).line := by
  unfold Console.consoleintr Editor.type
  by_cases hP : c = C 'P'
  · rw [if_pos hP, if_pos (Or.inl hP)]
    exact h
  rw [if_neg hP]
  by_cases h0 : c = 0
  · subst h0
    rw [if_neg (by decide), if_neg (by decide), if_neg (by simp), if_pos (Or.inr rfl)]
    exact h
  rw [if_neg (by simp [hP, h0] : ¬ (c = C 'P' ∨ c = 0))]
  by_cases hU : c = C 'U'
  · rw [if_pos hU, if_pos hU, h.e_sub_w]
    exact h.killLine
  rw [if_neg hU, if_neg hU]
  by_cases hH : c = C 'H' ∨ c = del
  · rw [if_pos hH, if_pos hH]
    obtain hl | ⟨line, x, hl⟩ := List.eq_nil_or_concat ed.line
    · rw [if_neg (by rw [not_not, h.e_eq_w_iff]; exact hl), hl]
      rwa [hl] at h
    · rw [List.concat_eq_append] at hl
      rw [if_pos (by rw [Ne, h.e_eq_w_iff, hl]; simp), hl, List.dropLast_concat]
      rw [hl] at h
      exact h.erase.2
  rw [if_neg hH, if_neg hH]
  by_cases hlt : ed.ready.length + ed.line.length < INPUT_BUF_SIZE
  · rw [if_pos ⟨h0, h.lt_iff.2 hlt⟩, if_pos hlt]
    exact h.append hlt _
  · rw [if_neg fun hc => hlt (h.lt_iff.1 hc.2), if_neg hlt]
    exact h

/-! ## The console refines the editor -/

/-- The editor `ed` has gone through the events of the console, and has what the console has.  The
ghost of a process is the call of `consoleread` it is in. -/
structure Tracks (ed : Editor N) (s : St N) (L : Option (Fin N) → Option Reading) : Prop where
  runs : Editor.Runs (.init N) s.log ed
  view : View s.cons ed.ready ed.line
  killed : ed.killed = s.killed
  reads : ∀ t, ed.reads t = L (some t)

/-- The proof obligations: there is such an editor at any time. -/
def obligations (N : ℕ) : Rules Panic (St N) (Option (Fin N)) (Option Reading) where
  inv s L := ∃ ed, Tracks ed s L
  guarantee _ _ := True
  excluded _ _ := True

variable {t : Fin N} {s s' : St N} {L : Option (Fin N) → Option Reading} {ed ed' : Editor N}

lemma Tracks.setRead (h : Tracks ed s L) {x : Option Reading} {ev : Event N}
    (hlog : s'.log = s.log ++ [ev]) (hstep : Editor.Step ed ev (ed'.setRead t x))
    (hview : View s'.cons ed'.ready ed'.line)
    (hreads : ed'.reads = ed.reads) (hed : ed'.killed = ed.killed)
    (hkilled : s'.killed = s.killed) :
    Tracks (ed'.setRead t x) s' (Function.update L (some t) x) := by
  refine ⟨?_, hview, ?_, fun u => ?_⟩
  · rw [hlog]
    exact h.runs.snoc hstep
  · exact hed.trans (h.killed.trans hkilled.symm)
  · show setAt ed'.reads t x u = _
    by_cases hu : u = t
    · subst hu
      rw [setAt_self, Function.update_self]
    · rw [setAt_of_ne _ _ hu, Function.update_of_ne (by simpa using hu), hreads, h.reads u]

lemma Editor.append_frame (ed : Editor N) (c : UInt8) :
    (ed.append c).reads = ed.reads ∧ (ed.append c).killed = ed.killed ∧
      ed.ready <+: (ed.append c).ready := by
  unfold Editor.append
  dsimp only
  split
  · exact ⟨rfl, rfl, List.prefix_append _ _⟩
  · exact ⟨rfl, rfl, List.prefix_rfl⟩

lemma Editor.type_frame (ed : Editor N) (c : UInt8) :
    (ed.type c).reads = ed.reads ∧ (ed.type c).killed = ed.killed ∧
      ed.ready <+: (ed.type c).ready := by
  have hsame : ed.reads = ed.reads ∧ ed.killed = ed.killed ∧ ed.ready <+: ed.ready :=
    ⟨rfl, rfl, List.prefix_rfl⟩
  unfold Editor.type
  split
  · exact hsame
  split
  · exact hsame
  split
  · exact hsame
  split
  · exact ed.append_frame _
  · exact hsame

lemma safe_interrupt (t : Option (Fin N)) (c : UInt8) :
    (obligations N).Safe t (interrupt c) none fun _ l => l = none := by
  refine .modify fun s L hinv hl _ => ⟨none, ?_, rfl⟩
  obtain ⟨ed, h⟩ := hinv
  rw [← hl, Function.update_eq_self]
  refine ⟨ed.type c, h.runs.snoc (.typed ed c), h.view.consoleintr c, ?_, fun u => ?_⟩
  · exact (ed.type_frame c).2.1.trans h.killed
  · rw [(ed.type_frame c).1, h.reads u]

lemma safe_kill (t : Option (Fin N)) (u : Fin N) :
    (obligations N).Safe t (kill u) none fun _ l => l = none := by
  refine .modify fun s L hinv hl _ => ⟨none, ?_, rfl⟩
  obtain ⟨ed, h⟩ := hinv
  rw [← hl, Function.update_eq_self]
  refine ⟨_, h.runs.snoc (.killed ed u), h.view, ?_, h.reads⟩
  show setAt ed.killed u true = setAt s.killed u true
  rw [h.killed]

/-- A round of the loop of `consoleread`, in a call that got `got` so far. -/
lemma safe_readRound {target n : ℤ} {got : List UInt8} (hn : n = target - got.length)
    (hpos : 0 < n) :
    (obligations N).Safe (some t) (.atomic (readRound t target n))
      (some ⟨target, got, .reading⟩) fun r l =>
        match r with
        | .dead => l = some ⟨target, got, .dead⟩
        | .eof => l = some ⟨target, got, .ended⟩
        | .byte c => l = some ⟨target, got ++ [c], if c = nl then .ended else .reading⟩ := by
  refine .atomic fun s L hinv hl => ?_
  obtain ⟨ed, h⟩ := hinv
  have hread : ed.reads t = some ⟨target, got, .reading⟩ := (h.reads t).trans hl
  have hlt : got.length < target := by omega
  cases hready : ed.ready with
  | nil =>
    rw [readRound, if_pos (h.view.r_eq_w_iff.2 hready)]
    split
    · rename_i hkilled
      refine fun _ => ⟨_, ⟨_, h.setRead rfl (.dead hread hlt hready ?_) h.view rfl rfl rfl⟩, rfl⟩
      rw [h.killed]
      exact hkilled
    · exact trivial
  | cons b rest =>
    have hview := h.view
    rw [hready] at hview
    obtain ⟨hb, htake⟩ := hview.take
    have hne : ¬ s.cons.r = s.cons.w := by
      rw [hview.r_eq_w_iff]
      exact List.cons_ne_nil b rest
    rw [readRound, if_neg hne]
    dsimp only
    rw [hb]
    split
    · rename_i hD
      subst hD
      refine fun _ => ?_
      by_cases hgot : got = []
      · subst hgot
        have hnt : ¬ n < target := by
          rw [List.length_nil] at hn
          omega
        rw [if_neg hnt]
        exact ⟨_, ⟨_, h.setRead rfl (.eof hread (by omega) hready) htake rfl rfl rfl⟩, rfl⟩
      · have hlen := List.length_pos_iff.2 hgot
        rw [if_pos (by omega), UInt32.add_sub_cancel]
        exact ⟨_, ⟨_, h.setRead rfl (.keep hread hgot hlt hready) h.view rfl rfl rfl⟩, rfl⟩
    · rename_i hD
      refine fun _ => ?_
      have hi : target - n = got.length := by omega
      rw [hi]
      exact ⟨_, ⟨_, h.setRead rfl (.byte hread hlt hready hD) htake rfl rfl rfl⟩, rfl⟩

/-- The loop of `consoleread` ends when the call can return. -/
def Finished (target : ℤ) (r : Option ℤ) (l : Option Reading) : Prop :=
  match r with
  | none => ∃ got, l = some ⟨target, got, .dead⟩
  | some n => ∃ got phase, l = some ⟨target, got, phase⟩ ∧ n = target - got.length ∧
      (phase = .ended ∨ phase = .reading ∧ target ≤ got.length)

lemma safe_consoleread (t : Fin N) (target : ℤ) :
    (obligations N).Safe (some t) (consoleread t target) none fun _ l => l = none := by
  refine .seq (P := fun _ l => l = some ⟨target, [], .reading⟩) ?_ ?_
  · refine .modify fun s L hinv hl _ => ?_
    obtain ⟨ed, h⟩ := hinv
    have hread : ed.reads t = none := (h.reads t).trans hl
    exact ⟨_, ⟨_, h.setRead rfl (.call t target hread) h.view rfl rfl rfl⟩, rfl⟩
  rintro - l rfl
  refine .seq (P := Finished target) ?_ ?_
  · refine .iterate (fun n l => ∃ got, l = some ⟨target, got, .reading⟩ ∧
      n = target - got.length) ⟨[], rfl, by simp⟩ ?_
    rintro n l ⟨got, rfl, hn⟩
    refine .ite (fun hpos => ?_) fun hpos => ?_
    · refine .seq (safe_readRound hn hpos) ?_
      rintro (_ | _ | c) l' hl'
      · exact ⟨got, hl'⟩
      · exact ⟨got, .ended, hl', hn, .inl rfl⟩
      · subst hl'
        have hn' : n - 1 = target - ((got ++ [c]).length : ℤ) := by
          rw [List.length_append, List.length_singleton, hn]
          omega
        refine .ite (fun hc => ?_) fun hc => ?_
        · refine ⟨got ++ [c], .ended, ?_, hn', .inl rfl⟩
          rw [if_pos hc]
        · refine ⟨got ++ [c], ?_, hn'⟩
          rw [if_neg hc]
    · exact ⟨got, .reading, rfl, hn, .inr ⟨rfl, by omega⟩⟩
  · rintro (_ | n) l hl
    · obtain ⟨got, rfl⟩ := hl
      refine .modify fun s L hinv hl _ => ?_
      obtain ⟨ed, h⟩ := hinv
      have hread := (h.reads t).trans hl
      exact ⟨_, ⟨_, h.setRead rfl (.retDead hread) h.view rfl rfl rfl⟩, rfl⟩
    · obtain ⟨got, phase, rfl, rfl, hphase⟩ := hl
      refine .modify fun s L hinv hl _ => ?_
      obtain ⟨ed, h⟩ := hinv
      have hread := (h.reads t).trans hl
      have hresult : target - (target - (got.length : ℤ)) = got.length := by omega
      rw [hresult]
      exact ⟨_, ⟨_, h.setRead rfl (.ret hread hphase) h.view rfl rfl rfl⟩, rfl⟩

lemma calls_safe : Kernel.CallsSafe (kernel N) (obligations N) fun _ l => l = none := by
  intro t c s L _ hrest hguard
  rw [hrest]
  match t, c with
  | some t, .read n => exact safe_consoleread t n
  | none, .read n => cases hguard
  | some t, .typed c => cases hguard
  | none, .typed c => exact safe_interrupt none c
  | some t, .kill u => exact safe_kill (some t) u
  | none, .kill u => exact safe_kill none u

lemma start_sound (buf : Fin INPUT_BUF_SIZE → UInt8) :
    Kernel.Sound (obligations N) (fun _ l => l = none) (Sys.start (init N buf)) :=
  Kernel.Sound.of_start (L := fun _ => none)
    ⟨.init N, .nil _, View.init buf, rfl, fun _ => rfl⟩ fun _ => rfl

/-- In every state of every run: the indices are in order and at most `INPUT_BUF_SIZE` apart, the
events are a run of the reference editor, which has the characters that are in the buffer, and no
character that is typed takes one away that readers can have. -/
theorem console_discipline {buf : Fin INPUT_BUF_SIZE → UInt8}
    {S : Sys Panic (St N) (Option (Fin N))}
    (h : (kernel N).Reachable (Sys.start (init N buf)) S) :
    (S.mem.cons.w - S.mem.cons.r).toNat ≤ (S.mem.cons.e - S.mem.cons.r).toNat ∧
    (S.mem.cons.e - S.mem.cons.r).toNat ≤ INPUT_BUF_SIZE ∧
    (∃ ed : Editor N, Editor.Runs (.init N) S.mem.log ed ∧
      S.mem.cons.ready = ed.ready ∧ S.mem.cons.line = ed.line) ∧
    ∀ c, S.mem.cons.ready <+: (consoleintr c S.mem.cons).ready := by
  obtain ⟨L, ⟨ed, htracks⟩, -⟩ := Kernel.invariant calls_safe (start_sound buf) h
  have hview := htracks.view
  have hle := hview.le
  have hsub : (S.mem.cons.e - S.mem.cons.r).toNat = ed.ready.length + ed.line.length := by
    rw [hview.e_sub_r, toNat_ofNat_of_le hle]
  refine ⟨?_, ?_, ⟨ed, htracks.runs, hview.ready_eq, hview.line_eq⟩, fun c => ?_⟩
  · rw [hsub, hview.w_sub_r]
    omega
  · rw [hsub]
    exact hle
  · rw [hview.ready_eq, (hview.consoleintr c).ready_eq]
    exact (ed.type_frame c).2.2

/-- A process reads a line, of which a character was erased, and the end of the file. -/
theorem console_discipline_line : ∃ S : Sys Panic (St 1) (Option (Fin 1)),
    (kernel 1).Reachable (Sys.start (init 1 fun _ => 0)) S ∧
    S.mem.log = [.typed 120, .typed (C 'H'), .typed 97, .typed cr, .typed (C 'D'),
      .call 0 9, .byte 0 0 97, .byte 0 1 nl, .ret 0 2, .call 0 9, .eof 0, .ret 0 0] ∧
    ∃ ed : Editor 1, Editor.Runs (.init 1) S.mem.log ed ∧ S.mem.cons.ready = ed.ready := by
  obtain ⟨S, hr, hlog⟩ := Kernel.exec_reaches
    ([.call none (.typed 120), .run none, .call none (.typed (C 'H')), .run none,
      .call none (.typed 97), .run none, .call none (.typed cr), .run none,
      .call none (.typed (C 'D')), .run none, .call (some 0) (.read 9)] ++
      List.replicate 6 (.run (some 0)) ++ [.call (some 0) (.read 9)] ++
      List.replicate 4 (.run (some 0)))
    (K := kernel 1) (S := Sys.start (init 1 fun _ => 0))
    (fun S => decide (S.mem.log = [.typed 120, .typed (C 'H'), .typed 97, .typed cr,
      .typed (C 'D'), .call 0 9, .byte 0 0 97, .byte 0 1 nl, .ret 0 2, .call 0 9, .eof 0,
      .ret 0 0])) (by decide +kernel)
  obtain ⟨-, -, ⟨ed, hruns, hready, -⟩, -⟩ := console_discipline hr
  exact ⟨S, hr, of_decide_eq_true hlog, ed, hruns, hready⟩

end Xv6.Console
