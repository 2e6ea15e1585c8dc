import Xv6.Fs.Inode

/-!
# Path names

`skipelem` copies the next element of a path into a buffer of `DIRSIZ` bytes that it does not
terminate when the element fills it.  A pointer into a path is the rest of the string, so the loops
over `*path` drop the bytes they pass.

What the elements of a path are is stated without the code: the non-empty pieces between slashes
(`segments`).  Iterating `skipelem` yields them, each cut to `DIRSIZ` bytes, whatever the buffer
held before (`yields_segments`).
-/

namespace Xv6.Fs

/-- A path name: the bytes before the terminating zero. -/
abbrev Path : Type := List UInt8

/-- `'/'` -/
def slash : UInt8 := 47

/-- `char name[DIRSIZ]` -/
abbrev NameBuf : Type := Fin DIRSIZ → UInt8

/-- The name in a buffer, which ends at the first zero or with the buffer.  `namecmp` and
`strncpy` read no further. -/
def nameOf (name : NameBuf) : Name := (List.ofFn name).takeWhile (· ≠ 0)

/-- In `skipelem`: copy an element into the buffer. -/
def copyElem (name : NameBuf) (s : List UInt8) : NameBuf :=
  if DIRSIZ ≤ s.length then fun j => s.getD j 0
  else fun j => if j.val < s.length then s.getD j 0 else if j.val = s.length then 0 else name j

/-- The path after the next element and the slashes that follow it, and the buffer with the
element; `none` if there is no element. -/
def skipelem (path : Path) (name : NameBuf) : Option (Path × NameBuf) :=
  match path.dropWhile (· = slash) with
  | [] => none
  | c :: cs =>
    let s := (c :: cs).takeWhile (· ≠ slash)
    some (((c :: cs).dropWhile (· ≠ slash)).dropWhile (· = slash), copyElem name s)

/-! ## The elements of a path -/

/-- The non-empty maximal pieces of a path without a slash. -/
def segments (path : Path) : List (List UInt8) := (path.splitOn slash).filter (· ≠ [])

@[simp] lemma segments_nil : segments [] = [] := rfl

lemma segments_cons_slash (path : Path) : segments (slash :: path) = segments path := by
  have hsep : (slash == slash) = true := rfl
  have h := List.splitOnP_append_cons (p := (· == slash)) [] path hsep
  rw [List.nil_append] at h
  rw [segments, segments, List.splitOn, h, List.filter_append]
  rfl

lemma segments_dropWhile (path : Path) :
    segments (path.dropWhile (· = slash)) = segments path := by
  induction path with
  | nil => rfl
  | cons c cs ih =>
    by_cases hc : c = slash
    · subst hc
      rw [segments_cons_slash, ← ih]
      rfl
    · rw [List.dropWhile_cons_of_neg (by simpa using hc)]

lemma segments_append_slash {s : List UInt8} (hs : s ≠ []) (hfree : ∀ c ∈ s, c ≠ slash)
    (path : Path) : segments (s ++ slash :: path) = s :: segments path := by
  rw [segments, segments, List.splitOn,
    List.splitOnP_append_cons_of_forall_mem (fun c hc => by simpa using hfree c hc) slash rfl,
    List.filter_cons_of_pos (by simpa using hs)]
  rfl

lemma segments_of_free {s : List UInt8} (hs : s ≠ []) (hfree : ∀ c ∈ s, c ≠ slash) :
    segments s = [s] := by
  rw [segments, List.splitOn, List.splitOnP_eq_singleton fun c hc => by simpa using hfree c hc,
    List.filter_cons_of_pos (by simpa using hs)]
  rfl

lemma segments_cons {c : UInt8} {cs : Path} (hc : c ≠ slash) :
    segments (c :: cs) = (c :: cs).takeWhile (· ≠ slash) ::
      segments ((c :: cs).dropWhile (· ≠ slash)) := by
  have hsplit := List.takeWhile_append_dropWhile (p := (· ≠ slash)) (l := c :: cs)
  have hne : (c :: cs).takeWhile (· ≠ slash) ≠ [] := by
    rw [List.takeWhile_cons_of_pos (by simpa using hc)]
    exact List.cons_ne_nil _ _
  have hfree : ∀ b ∈ (c :: cs).takeWhile (· ≠ slash), b ≠ slash := by
    intro b hb
    simpa using List.all_eq_true.1 (List.all_takeWhile (p := (· ≠ slash)) (l := c :: cs)) b hb
  cases hrest : (c :: cs).dropWhile (· ≠ slash) with
  | nil =>
    rw [hrest, List.append_nil] at hsplit
    rw [hsplit] at hne hfree
    rw [hsplit, segments_of_free hne hfree, segments_nil]
  | cons b bs =>
    have hb : b = slash := by
      have hhead := List.head?_dropWhile_not (fun b : UInt8 => decide (b ≠ slash)) (c :: cs)
      rw [hrest] at hhead
      simpa using hhead
    subst hb
    rw [hrest] at hsplit
    conv_lhs => rw [← hsplit]
    rw [segments_append_slash hne hfree, segments_cons_slash]

lemma segments_eq_nil_of_head {path : Path} (h : path.head? ≠ some slash) :
    segments path = [] ↔ path = [] := by
  cases path with
  | nil => exact iff_of_true rfl rfl
  | cons c cs =>
    have hc : c ≠ slash := fun hc => h (by rw [hc]; rfl)
    rw [segments_cons hc]
    exact iff_of_false (List.cons_ne_nil _ _) (List.cons_ne_nil _ _)

lemma head?_dropWhile_slash (path : Path) :
    (path.dropWhile (· = slash)).head? ≠ some slash := by
  have hhead := List.head?_dropWhile_not (fun b : UInt8 => decide (b = slash)) path
  intro h
  rw [h] at hhead
  simp at hhead

/-! ## `skipelem` -/

lemma takeWhile_ofFn {n : ℕ} {f : Fin n → UInt8} {s : List UInt8} (hlen : s.length ≤ n)
    (hs : ∀ (j : Fin n) (hj : j.val < s.length), f j = s[j.val])
    (hz : ∀ j : Fin n, j.val = s.length → f j = 0) (h0 : 0 ∉ s) :
    (List.ofFn f).takeWhile (· ≠ 0) = s := by
  have htake : (List.ofFn f).take s.length = s := by
    refine List.ext_getElem (by simpa using hlen) fun j hj hj' => ?_
    rw [List.getElem_take, List.getElem_ofFn]
    exact hs ⟨j, by omega⟩ hj'
  have hpos : ∀ c ∈ s, decide (c ≠ 0) = true := by
    intro c hc
    exact decide_eq_true (ne_of_mem_of_not_mem hc h0)
  rw [← List.take_append_drop s.length (List.ofFn f), htake, List.takeWhile_append_of_pos hpos]
  cases hdrop : (List.ofFn f).drop s.length with
  | nil => exact List.append_nil s
  | cons c cs =>
    have hlt : s.length < n := by
      by_contra hge
      rw [List.drop_of_length_le (by simpa using hge)] at hdrop
      cases hdrop
    rw [List.drop_eq_getElem_cons (by simpa using hlt), List.getElem_ofFn] at hdrop
    rw [← (List.cons.inj hdrop).1, hz ⟨s.length, hlt⟩ rfl]
    exact List.append_nil s

lemma nameOf_copyElem (name : NameBuf) {s : List UInt8} (h0 : 0 ∉ s) :
    nameOf (copyElem name s) = s.take DIRSIZ := by
  have hlen : (s.take DIRSIZ).length = min DIRSIZ s.length := List.length_take
  refine takeWhile_ofFn (by omega) (fun j hj => ?_) (fun j hj => ?_)
    fun hmem => h0 (List.mem_of_mem_take hmem)
  · have hjs : j.val < s.length := by omega
    rw [List.getElem_take, copyElem]
    split
    · exact List.getD_eq_getElem _ _ hjs
    · exact (if_pos hjs).trans (List.getD_eq_getElem _ _ hjs)
  · have hjlt := j.isLt
    rw [copyElem, if_neg (by omega)]
    exact (if_neg (by omega)).trans (if_pos (by omega))

lemma skipelem_eq_none {path : Path} (name : NameBuf) (h : segments path = []) :
    skipelem path name = none := by
  rw [← segments_dropWhile, segments_eq_nil_of_head (head?_dropWhile_slash path)] at h
  rw [skipelem, h]

lemma skipelem_eq_some {path : Path} (name : NameBuf) (h0 : 0 ∉ path) {x : List UInt8}
    {xs : List (List UInt8)} (h : segments path = x :: xs) :
    ∃ rest name', skipelem path name = some (rest, name') ∧ nameOf name' = x.take DIRSIZ ∧
      segments rest = xs ∧ (rest = [] ↔ xs = []) ∧ 0 ∉ rest := by
  rw [← segments_dropWhile] at h
  have hhead := head?_dropWhile_slash path
  have h0' : 0 ∉ path.dropWhile (· = slash) :=
    fun hmem => h0 ((List.dropWhile_sublist _).subset hmem)
  rw [skipelem]
  cases hpath : path.dropWhile (· = slash) with
  | nil =>
    rw [hpath] at h
    cases h
  | cons c cs =>
    rw [hpath] at h h0' hhead
    have hc : c ≠ slash := fun hc => hhead (by rw [hc]; rfl)
    rw [segments_cons hc] at h
    obtain ⟨hx, hxs⟩ := List.cons.inj h
    have hrest : segments (((c :: cs).dropWhile (· ≠ slash)).dropWhile (· = slash)) = xs := by
      rw [segments_dropWhile, hxs]
    refine ⟨_, _, rfl, ?_, hrest, ?_, fun hmem => h0' ?_⟩
    · rw [nameOf_copyElem, hx]
      exact fun hmem => h0' ((List.takeWhile_sublist _).subset hmem)
    · rw [← hrest, segments_eq_nil_of_head (head?_dropWhile_slash _)]
    · exact (List.dropWhile_sublist _).subset ((List.dropWhile_sublist _).subset hmem)

/-- Calling `skipelem` again and again on the path it returned, with one buffer, yields the names
`l`, and then `0`. -/
inductive Yields : Path → NameBuf → List Name → Prop where
  | done {path : Path} {name : NameBuf} : skipelem path name = none → Yields path name []
  | next {path rest : Path} {name name' : NameBuf} {l : List Name} :
      skipelem path name = some (rest, name') → Yields rest name' l →
      Yields path name (nameOf name' :: l)

lemma yields_segments {path : Path} (name : NameBuf) (h0 : 0 ∉ path) :
    Yields path name ((segments path).map (List.take DIRSIZ)) := by
  generalize hl : segments path = l
  induction l generalizing path name with
  | nil => exact .done (skipelem_eq_none name hl)
  | cons x xs ih =>
    obtain ⟨rest, name', hskip, hname, hrest, -, h0'⟩ := skipelem_eq_some name h0 hl
    rw [List.map_cons, ← hname]
    exact .next hskip (ih name' h0' hrest)

end Xv6.Fs
