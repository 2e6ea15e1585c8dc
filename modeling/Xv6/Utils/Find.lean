import Xv6.Param
import Xv6.Fs.Path

/-!
# `find`

`find` of `user/find.c`, run over files that nobody changes.  A call keeps the descriptor of its
directory open while it calls itself for the directories in it, and `stat` needs one more.  So the
recursion ends when the descriptors do, and it is modelled as a recursion on their number.  The
stack is taken to be large enough for that many calls.

`find` skips the entries it cannot open, and compares names that fill `de.name`, and so do not end
there, together with what stands behind them.  It prints the paths it should (`matching`) exactly
if no entry is affected (`find_eq_matching`): the entries with the name are those that are not too
deep, can be opened and seem to have it.  Both lists are selections from the entries of the tree
(`Files.below`), and one selection is always part of the other.
-/

namespace Xv6.Find

open Xv6.Fs

/-- `'.'` -/
def dot : UInt8 := 46

/-- `struct dirent` -/
structure Dirent where
  inum : ℕ
  name : NameBuf
  deriving DecidableEq

/-- `T_DIR`, `T_FILE`, and `T_DEVICE` with a major number. -/
inductive Kind where
  | dir
  | file
  | device (major : ℤ)
  deriving DecidableEq

/-- The files as `find` sees them. -/
structure Files where
  /-- The type of the file with an inode number. -/
  kind : ℕ → Kind
  /-- The entries of a directory in the order `read` returns them. -/
  entries : ℕ → List Dirent
  root : ℕ
  cwd : ℕ
  /-- What stands on the stack after `de` up to a NUL, while `buf` holds a path. -/
  behind : Path → List UInt8

inductive Event where
  /-- `printf("%s\n", buf)` -/
  | found (path : Path)
  /-- `printf("find: path too long\n")` -/
  | tooLong
  /-- `fprintf(2, "find: cannot open %s\n", path)` -/
  | cannotOpen (path : Path)
  deriving DecidableEq

variable (w : Files) (file : Path)

/-- `st.type == T_DIR` -/
def Files.isDir (i : ℕ) : Bool := w.kind i = .dir

/-- `sys_open` opens the file: it is no device without a number in `devsw`. -/
def Files.opens (i : ℕ) : Bool :=
  match w.kind i with
  | .device major => 0 ≤ major ∧ major < NDEV
  | _ => true

/-- The entry of a directory that `dirlookup` finds for a name. -/
def Files.lookup (i : ℕ) (name : List UInt8) : Option ℕ :=
  ((w.entries i).find? fun e => e.inum ≠ 0 ∧ nameOf e.name = name).map (·.inum)

/-- A step of `namex`: the element is looked up in what has to be a directory. -/
def Files.descend (i : ℕ) (elem : List UInt8) : Option ℕ :=
  if w.isDir i then w.lookup i (elem.take DIRSIZ) else none

/-- `namei(path)` -/
def Files.namei (path : Path) : Option ℕ :=
  (segments path).foldlM w.descend (if path.head? = some slash then w.root else w.cwd)

/-- `open(path, O_RDONLY)` by a process with `free` unused descriptors: the file that is opened. -/
def Files.open (free : ℕ) (path : Path) : Option ℕ :=
  if path.length < MAXPATH ∧ 0 < free then (w.namei path).filter w.opens else none

/-- The path in `buf` after `memmove(p, de.name, DIRSIZ); p[DIRSIZ] = 0;`. -/
def join (path : Path) (e : Dirent) : Path := path ++ slash :: nameOf e.name

/-- The string that starts at `de.name`, which goes on behind `de` if the name fills its buffer. -/
def Files.cstring (path : Path) (e : Dirent) : List UInt8 :=
  if (nameOf e.name).length < DIRSIZ then nameOf e.name
  else nameOf e.name ++ w.behind (join path e)

/-- The loop over the entries, where `free` descriptors are unused and `call` is the recursive
call. -/
def scan (free : ℕ) (path : Path) (call : Path → List Event) : List Dirent → List Event
  | [] => []
  | e :: es =>
    if e.inum = 0 then scan free path call es
    else if w.cstring path e = [dot] ∨ w.cstring path e = [dot, dot] then scan free path call es
    else
      -- `stat` opens the file and closes it again
      match w.open free (join path e) with
      | none => scan free path call es
      | some i =>
        (if w.cstring path e = file then [Event.found (join path e)] else []) ++
          (if w.isDir i then call (join path e) else []) ++ scan free path call es

/-- `find(path, file)` by a process with so many unused descriptors. -/
def find : ℕ → Path → List Event
  | 0, path => [.cannotOpen path]
  | free + 1, path =>
    match w.open (free + 1) path with
    | none => [.cannotOpen path]
    | some i =>
      if w.isDir i then
        if 512 < path.length + 1 + DIRSIZ + 1 then [.tooLong]
        else scan w file free path (find free) (w.entries i)
      else []

/-! ## What it should print -/

/-- An entry below a directory: neither a free slot nor the directory itself or its parent. -/
def IsChild (e : Dirent) : Prop :=
  e.inum ≠ 0 ∧ nameOf e.name ≠ [dot] ∧ nameOf e.name ≠ [dot, dot]

instance (e : Dirent) : Decidable (IsChild e) := inferInstanceAs (Decidable (_ ∧ _))

/-- The entries below a directory, in directory order. -/
def Files.children (i : ℕ) : List Dirent :=
  if w.isDir i then (w.entries i).filter (IsChild ·) else []

/-- The files below `i` form a tree of at most so many levels. -/
def Files.Height : ℕ → ℕ → Prop
  | 0, i => w.children i = []
  | n + 1, i => ∀ e ∈ w.children i, Files.Height n e.inum

instance decidableHeight : ∀ n i, Decidable (w.Height n i)
  | 0, i => inferInstanceAs (Decidable (w.children i = []))
  | n + 1, i =>
    have := decidableHeight n
    inferInstanceAs (Decidable (∀ e ∈ w.children i, w.Height n e.inum))

/-- Every path of the tree below `path` is shorter than `MAXPATH`. -/
def Files.Short : ℕ → Path → ℕ → Prop
  | 0, path, _ => path.length < MAXPATH
  | n + 1, path, i =>
    path.length < MAXPATH ∧ ∀ e ∈ w.children i, Files.Short n (join path e) e.inum

instance decidableShort : ∀ n path i, Decidable (w.Short n path i)
  | 0, path, _ => inferInstanceAs (Decidable (path.length < MAXPATH))
  | n + 1, path, i =>
    have := decidableShort n
    inferInstanceAs (Decidable
      (path.length < MAXPATH ∧ ∀ e ∈ w.children i, w.Short n (join path e) e.inum))

/-- The entries below `path` in a tree of `n` levels, in directory order, parents before children:
how far down an entry is, the path of its directory, and the entry. -/
def Files.below : ℕ → ℕ → Path → ℕ → List (ℕ × Path × Dirent)
  | 0, _, _, _ => []
  | n + 1, d, path, i =>
    (w.children i).flatMap fun e => (d, path, e) :: Files.below n (d + 1) (join path e) e.inum

/-- The paths of the entries below `path` with the name `file`. -/
def matching (n : ℕ) (path : Path) (i : ℕ) : List Path :=
  ((w.below n 1 path i).filter fun x => nameOf x.2.2.name = file).map fun x => join x.2.1 x.2.2

/-- Names have at least one and at most `DIRSIZ` bytes, none of them a slash, and no directory has
two entries of one name. -/
structure Files.Named : Prop where
  ne : ∀ i, ∀ e ∈ w.children i, nameOf e.name ≠ []
  length : ∀ i, ∀ e ∈ w.children i, (nameOf e.name).length ≤ DIRSIZ
  free : ∀ i, ∀ e ∈ w.children i, slash ∉ nameOf e.name
  distinct : ∀ i, ((w.entries i).filter (·.inum ≠ 0)).Pairwise
    fun d e => nameOf d.name ≠ nameOf e.name

/-! ## Paths and descriptors -/

variable {w file} {n free i : ℕ} {path : Path} {e : Dirent}

lemma mem_children : e ∈ w.children i ↔ w.isDir i = true ∧ e ∈ w.entries i ∧ IsChild e := by
  by_cases hdir : w.isDir i <;> simp [Files.children, hdir]

lemma Files.Named.lookup_eq (h : w.Named) (he : e ∈ w.entries i) (hinum : e.inum ≠ 0) :
    w.lookup i (nameOf e.name) = some e.inum := by
  have hfind : (((w.entries i).filter (·.inum ≠ 0)).find? fun d => nameOf d.name = nameOf e.name) =
      some e := by
    have hmem : e ∈ (w.entries i).filter (·.inum ≠ 0) :=
      List.mem_filter.2 ⟨he, by simpa using hinum⟩
    obtain ⟨before, after, hsplit⟩ := List.append_of_mem hmem
    have hdist := h.distinct i
    rw [hsplit, List.pairwise_append] at hdist
    rw [hsplit, List.find?_append, List.find?_eq_none.2, List.find?_cons_of_pos (by simp)]
    · rfl
    · intro d hd
      simpa using hdist.2.2 d hd e List.mem_cons_self
  rw [List.find?_filter] at hfind
  simp only [ne_eq, decide_eq_true_eq] at hfind
  rw [Files.lookup, hfind, Option.map_some]

lemma Files.Named.namei_join (h : w.Named) (hpath : path ≠ [])
    (hi : w.namei path = some i) (he : e ∈ w.children i) :
    w.namei (join path e) = some e.inum := by
  obtain ⟨hdir, hmem, hinum, -⟩ := mem_children.1 he
  have hname : segments (nameOf e.name) = [nameOf e.name] :=
    segments_of_free (h.ne i e he) fun c hc hs => h.free i e he (hs ▸ hc)
  have hsegs : segments (join path e) = segments path ++ [nameOf e.name] := by
    rw [join, segments, List.splitOn, List.splitOnP_append_cons _ _ (by rfl), List.filter_append,
      ← hname]
    rfl
  have hhead : (join path e).head? = path.head? := List.head?_append_of_ne_nil _ hpath
  have hcut : (nameOf e.name).take DIRSIZ = nameOf e.name :=
    List.take_of_length_le (h.length i e he)
  rw [Files.namei] at hi
  rw [Files.namei, hsegs, hhead, List.foldlM_append, hi, Option.bind_eq_bind, Option.bind_some,
    List.foldlM_cons, Files.descend, if_pos hdir, hcut, h.lookup_eq hmem hinum]
  rfl

lemma Files.Short.length_lt (h : w.Short n path i) : path.length < MAXPATH := by
  cases n with
  | zero => exact h
  | succ n => exact h.1

lemma Files.opens_of_isDir (h : w.isDir i = true) : w.opens i = true := by
  have hkind : w.kind i = .dir := of_decide_eq_true h
  rw [Files.opens, hkind]

/-! ## The search -/

/-- `find` prints the entry: the descriptors last so far down, it can be opened, and its string is
`file`. -/
def shown (w : Files) (file : Path) (limit : ℕ) (x : ℕ × Path × Dirent) : Bool :=
  x.1 < limit ∧ w.opens x.2.2.inum ∧ w.cstring x.2.1 x.2.2 = file

/-- The events for entries of the tree. -/
def events (w : Files) (file : Path) (limit : ℕ) (l : List (ℕ × Path × Dirent)) : List Event :=
  (l.filter (shown w file limit)).map fun x => .found (join x.2.1 x.2.2)

lemma of_mem_below {x : ℕ × Path × Dirent} {d : ℕ} (h : x ∈ w.below n d path i) :
    d ≤ x.1 ∧ ∃ j, x.2.2 ∈ w.children j := by
  induction n generalizing d path i with
  | zero => cases h
  | succ n ih =>
    rw [Files.below, List.mem_flatMap] at h
    obtain ⟨e, he, h⟩ := h
    rcases List.mem_cons.1 h with rfl | h
    · exact ⟨le_rfl, i, he⟩
    · exact ⟨(Nat.le_succ d).trans (ih h).1, (ih h).2⟩

lemma filter_length_eq {α : Type} {p q : α → Bool} {l : List α}
    (h : ∀ x, p x = true → q x = true) (hlen : (l.filter p).length = (l.filter q).length) :
    ∀ x ∈ l, q x = true → p x = true := by
  intro x hx hq
  have hpq : (l.filter q).filter p = l.filter p := by
    rw [List.filter_filter]
    refine List.filter_congr fun y _ => ?_
    cases hp : p y
    · rfl
    · rw [h y hp]
      rfl
  rw [← hpq, List.length_filter_eq_length_iff] at hlen
  exact hlen x (List.mem_filter.2 ⟨hx, hq⟩)

/-- The loop visits the children in order, if their paths lead to them and the recursive calls find
what is below them. -/
lemma scan_eq {call : Path → List Event} {d limit : ℕ}
    (sub : Dirent → List (ℕ × Path × Dirent)) (es : List Dirent) (hlimit : free + d = limit)
    (hnamei : ∀ e ∈ es, IsChild e → (join path e).length < MAXPATH ∧
      w.namei (join path e) = some e.inum)
    (hlen : ∀ e ∈ es, IsChild e → (nameOf e.name).length ≤ DIRSIZ)
    (hcall : ∀ e ∈ es, IsChild e → (if 0 < free ∧ w.isDir e.inum then call (join path e) else []) =
      events w file limit (sub e)) :
    scan w file free path call es = events w file limit
      ((es.filter (IsChild ·)).flatMap fun e => (d, path, e) :: sub e) := by
  induction es with
  | nil => rfl
  | cons e es ih =>
    obtain ⟨hnamei, hnameis⟩ := List.forall_mem_cons.1 hnamei
    obtain ⟨hlen, hlens⟩ := List.forall_mem_cons.1 hlen
    obtain ⟨hcall, hcalls⟩ := List.forall_mem_cons.1 hcall
    have ih := ih hnameis hlens hcalls
    have hshort : (nameOf e.name).length < DIRSIZ → w.cstring path e = nameOf e.name :=
      fun h => if_pos h
    by_cases hchild : IsChild e
    · obtain ⟨hmax, hi⟩ := hnamei hchild
      have hcall := hcall hchild
      -- a name that fills its buffer is neither `.` nor `..`
      have hdots : ¬ (w.cstring path e = [dot] ∨ w.cstring path e = [dot, dot]) := by
        by_cases hfull : (nameOf e.name).length < DIRSIZ
        · rw [hshort hfull]
          exact not_or.2 hchild.2
        · rw [Files.cstring, if_neg hfull]
          have := hlen hchild
          rintro (h | h) <;>
          · have := congrArg List.length h
            simp only [List.length_append, List.length_cons, List.length_nil, DIRSIZ] at this hfull
            omega
      have happend : ∀ l, events w file limit ((d, path, e) :: sub e ++ l) =
          (if shown w file limit (d, path, e) then [Event.found (join path e)] else []) ++
            events w file limit (sub e) ++ events w file limit l := by
        intro l
        unfold events
        rw [List.filter_append, List.map_append, List.filter_cons]
        split <;> rfl
      rw [scan, if_neg hchild.1, if_neg hdots, Files.open, hi, ih,
        List.filter_cons_of_pos (by simpa using hchild), List.flatMap_cons, happend, ← hcall]
      by_cases hopen : 0 < free ∧ w.opens e.inum = true
      · have hd : d < limit := by omega
        rw [if_pos ⟨hmax, hopen.1⟩, Option.filter_some, if_pos hopen.2]
        simp only [shown, hd, hopen.1, hopen.2, true_and, decide_eq_true_eq]
      · have hnone : (if (join path e).length < MAXPATH ∧ 0 < free then
            (some e.inum).filter w.opens else none) = none := by
          by_cases h0 : 0 < free
          · rw [if_pos ⟨hmax, h0⟩, Option.filter_some, if_neg fun h => hopen ⟨h0, h⟩]
          · rw [if_neg fun h => h0 h.2]
        have hhit : shown w file limit (d, path, e) = false :=
          decide_eq_false fun h => hopen ⟨by have := h.1; simp only at this; omega, h.2.1⟩
        have hdir : ¬ (0 < free ∧ w.isDir e.inum = true) :=
          fun h => hopen ⟨h.1, Files.opens_of_isDir h.2⟩
        rw [hnone, hhit, if_neg hdir]
        rfl
    · rw [List.filter_cons_of_neg (by simpa using hchild), ← ih, scan]
      split
      · rfl
      · rename_i hinum
        -- the entry is `.` or `..`, which ends within its buffer
        have hdots : nameOf e.name = [dot] ∨ nameOf e.name = [dot, dot] := by
          by_contra h
          exact hchild ⟨hinum, not_or.1 h⟩
        rw [hshort (by rcases hdots with h | h <;> rw [h] <;> decide), if_pos hdots]

lemma find_dir (hi : w.namei path = some i) (hdir : w.isDir i = true)
    (hlen : path.length < MAXPATH) :
    find w file (free + 1) path = scan w file free path (find w file free) (w.entries i) := by
  have hopen : w.open (free + 1) path = some i := by
    rw [Files.open, if_pos ⟨hlen, Nat.succ_pos _⟩, hi, Option.filter_some,
      if_pos (Files.opens_of_isDir hdir)]
  rw [find, hopen]
  dsimp only
  rw [if_pos hdir, if_neg (by simp only [MAXPATH, DIRSIZ] at hlen ⊢; omega)]

lemma find_spec {d limit : ℕ} (hnames : w.Named) (hpath : path ≠ []) (hi : w.namei path = some i)
    (hdir : w.isDir i = true) (hheight : w.Height n i) (hshort : w.Short n path i)
    (hlimit : free + d = limit) :
    find w file (free + 1) path = events w file limit (w.below n d path i) := by
  have hchild : ∀ e ∈ w.entries i, IsChild e → e ∈ w.children i :=
    fun e he h => mem_children.2 ⟨hdir, he, h⟩
  rw [find_dir hi hdir hshort.length_lt]
  induction n generalizing path i free d with
  | zero =>
    have hno : ∀ e ∈ w.entries i, ¬IsChild e := by
      intro e he h
      have hempty : w.children i = [] := hheight
      have hmem := hchild e he h
      rw [hempty] at hmem
      cases hmem
    rw [scan_eq (fun _ => []) _ hlimit (fun e he h => absurd h (hno e he))
      (fun e he h => absurd h (hno e he)) (fun e he h => absurd h (hno e he)),
      List.filter_eq_nil_iff.2 (by simpa using hno)]
    rfl
  | succ n ih =>
    rw [scan_eq (fun e => w.below n (d + 1) (join path e) e.inum) _ hlimit, Files.below,
      Files.children, if_pos hdir]
    · intro e he h
      have hmem := hchild e he h
      exact ⟨(hshort.2 e hmem).length_lt, hnames.namei_join hpath hi hmem⟩
    · exact fun e he h => hnames.length i e (hchild e he h)
    · intro e he h
      have hmem := hchild e he h
      split
      · rename_i hcall
        obtain ⟨free, rfl⟩ := Nat.exists_eq_succ_of_ne_zero hcall.1.ne'
        have hnamei := hnames.namei_join hpath hi hmem
        rw [find_dir hnamei hcall.2 (hshort.2 e hmem).length_lt]
        exact ih (List.append_ne_nil_of_left_ne_nil hpath _) hnamei hcall.2 (hheight e hmem)
          (hshort.2 e hmem) (by omega) fun e' he' h' => mem_children.2 ⟨hcall.2, he', h'⟩
      · -- there is nothing below, or it is too far down
        rename_i hcall
        have hnone : ∀ x ∈ w.below n (d + 1) (join path e) e.inum,
            ¬ shown w file limit x = true := by
          intro x hx hs
          have hd := (of_decide_eq_true hs).1
          have hle := (of_mem_below hx).1
          cases n with
          | zero => cases hx
          | succ n =>
            have hfile : ¬ w.isDir e.inum = true := fun hsub => hcall ⟨by omega, hsub⟩
            rw [Files.below, Files.children, if_neg hfile] at hx
            cases hx
        rw [events, List.filter_eq_nil_iff.2 hnone]
        rfl

/-- `find` prints exactly the paths of the entries with the name, if and only if these are the
entries that are at most twelve levels below the start, that `sys_open` opens, and whose string at
`de.name` is the name. -/
theorem find_eq_matching (hnames : w.Named) (hpath : path ≠ []) (hi : w.namei path = some i)
    (hdir : w.isDir i = true) (hheight : w.Height n i) (hshort : w.Short n path i) :
    find w file (NOFILE - 3) path = (matching w file n path i).map .found ↔
      ∀ d p e, (d, p, e) ∈ w.below n 1 path i → (nameOf e.name = file ↔
        d < NOFILE - 3 ∧ w.opens e.inum = true ∧ w.cstring p e = file) := by
  have hfind : find w file (NOFILE - 3) path =
      events w file (NOFILE - 3) (w.below n 1 path i) :=
    find_spec hnames hpath hi hdir hheight hshort rfl
  rw [hfind, events, matching, List.map_map]
  refine ⟨fun heq => ?_, fun h => ?_⟩
  · have hlen := congrArg List.length heq
    rw [List.length_map, List.length_map] at hlen
    by_cases hlong : file.length ≤ DIRSIZ
    · -- what seems to have the name has it
      have hsub : ∀ x, shown w file (NOFILE - 3) x = true → nameOf x.2.2.name = file := by
        intro x hs
        have hstr := (of_decide_eq_true hs).2.2
        rw [Files.cstring] at hstr
        split at hstr
        · exact hstr
        · have hsum := congrArg List.length hstr
          rw [List.length_append] at hsum
          have hnil : w.behind (join x.2.1 x.2.2) = [] := List.length_eq_zero_iff.1 (by omega)
          rwa [hnil, List.append_nil] at hstr
      have hall := filter_length_eq (fun x => decide_eq_true ∘ hsub x) hlen
      intro d p e he
      refine ⟨fun hname => ?_, fun hs => hsub (d, p, e) (decide_eq_true hs)⟩
      exact of_decide_eq_true (hall _ he (decide_eq_true hname))
    · -- no entry has so long a name
      have hno : ∀ x ∈ w.below n 1 path i, nameOf x.2.2.name ≠ file := by
        rintro x hx rfl
        obtain ⟨j, hj⟩ := (of_mem_below hx).2
        exact hlong (hnames.length j _ hj)
      have hempty : (w.below n 1 path i).filter (fun x => nameOf x.2.2.name = file) = [] :=
        List.filter_eq_nil_iff.2 fun x hx => by simpa using hno x hx
      rw [hempty, List.length_nil, List.length_eq_zero_iff, List.filter_eq_nil_iff] at hlen
      intro d p e he
      exact ⟨fun hname => absurd hname (hno _ he), fun hs => absurd (decide_eq_true hs) (hlen _ he)⟩
  · rw [List.filter_congr fun x hx => ?_]
    · rfl
    · exact decide_eq_decide.2 (h x.1 x.2.1 x.2.2 hx).symm

/-- An entry with a name. -/
def entry (inum : ℕ) (name : List UInt8) : Dirent := ⟨inum, fun j => name.getD j 0⟩

/-- A chain of directories `a`, the last of which has a file `b` in it: `./a/…/a/b`. -/
def chain (last : ℕ) : Files where
  kind i := if 1 ≤ i ∧ i ≤ last then .dir else .file
  entries i :=
    if 1 ≤ i ∧ i ≤ last then
      [entry i [dot], entry (max 1 (i - 1)) [dot, dot],
        entry (i + 1) (if i = last then [98] else [97])]
    else []
  root := 1
  cwd := 1
  behind _ := []

lemma nameOf_last (i last inum : ℕ) :
    nameOf (entry inum (if i = last then [98] else [97])).name = [97] ∨
      nameOf (entry inum (if i = last then [98] else [97])).name = [98] := by
  split
  · exact .inr (by decide : nameOf (entry 0 [98]).name = [98])
  · exact .inl (by decide : nameOf (entry 0 [97]).name = [97])

lemma nameOf_of_mem_chain {last : ℕ} (he : e ∈ (chain last).children i) :
    nameOf e.name = [97] ∨ nameOf e.name = [98] := by
  obtain ⟨-, hmem, -, hdot, hdots⟩ := mem_children.1 he
  simp only [chain] at hmem
  split at hmem
  · rcases List.mem_cons.1 hmem with rfl | hmem
    · exact absurd (by decide : nameOf (entry 0 [dot]).name = [dot]) hdot
    rcases List.mem_cons.1 hmem with rfl | hmem
    · exact absurd (by decide : nameOf (entry 0 [dot, dot]).name = [dot, dot]) hdots
    rw [List.mem_singleton.1 hmem]
    exact nameOf_last _ _ _
  · cases hmem

lemma chain_named (last : ℕ) : (chain last).Named where
  ne i e he := by rcases nameOf_of_mem_chain he with h | h <;> rw [h] <;> decide
  length i e he := by rcases nameOf_of_mem_chain he with h | h <;> rw [h] <;> decide
  free i e he := by rcases nameOf_of_mem_chain he with h | h <;> rw [h] <;> decide
  distinct i := by
    refine List.Pairwise.filter _ ?_
    simp only [chain]
    split
    · have hdot : nameOf (entry i [dot]).name = [dot] :=
        (by decide : nameOf (entry 0 [dot]).name = [dot])
      have hdots : nameOf (entry (max 1 (i - 1)) [dot, dot]).name = [dot, dot] :=
        (by decide : nameOf (entry 0 [dot, dot]).name = [dot, dot])
      have hlast := nameOf_last i last (i + 1)
      simp only [List.pairwise_cons, List.forall_mem_cons, hdot, hdots]
      rcases hlast with h | h <;> simp [h, dot]
    · exact List.Pairwise.nil

/-- The search for `b` in `./a/b`. -/
theorem find_eq_matching_chain :
    find (chain 2) [98] (NOFILE - 3) [dot] = [.found [dot, slash, 97, slash, 98]] ∧
    ∀ d p e, (d, p, e) ∈ (chain 2).below 2 1 [dot] 1 → (nameOf e.name = [98] ↔
      d < NOFILE - 3 ∧ (chain 2).opens e.inum = true ∧ (chain 2).cstring p e = [98]) :=
  ⟨by decide, (find_eq_matching (n := 2) (chain_named 2) (by decide) (by decide) (by decide)
    (by decide) (by decide)).1 (by decide)⟩

/-- Below thirteen directories, one of them the start, no descriptor is left for `stat`. -/
theorem find_misses : (chain 13).Named ∧ (chain 13).namei [dot] = some 1 ∧
    (chain 13).Height 13 1 ∧ (chain 13).Short 13 [dot] 1 ∧
    find (chain 13) [98] (NOFILE - 3) [dot] = [] ∧
    (matching (chain 13) [98] 13 [dot] 1).length = 1 :=
  ⟨chain_named 13, by decide +kernel, by decide +kernel, by decide +kernel, by decide +kernel,
    by decide +kernel⟩

end Xv6.Find
