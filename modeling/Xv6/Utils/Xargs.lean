import Mathlib.Data.List.Basic

/-!
# `xargs`

`main` of `user/xargs.c`.  Its standard input is a list of characters, and what it does is the list
of the system calls that others can notice.  The result `none` stands for a store outside the array
`line`.

The program reads one line only, and passes on one fixed argument.  What it should do is `expected`:
one run of the command for each line, with all fixed arguments and the line.  It does this exactly
when there is one of each, and the line is a string that fits in the array (`xargs_single`).
-/

namespace Xv6.Xargs

/-- A C string without its NUL. -/
abbrev Str : Type := List Char

inductive Event where
  /-- The child's `exec(path, argv)`. -/
  | exec (path : Str) (argv : List Str)
  | print (s : Str)
  /-- The child exits. -/
  | childExit (status : ℕ)
  | wait
  | exit (status : ℕ)
  deriving DecidableEq

/-- How the system calls go that can fail. -/
structure World where
  fork : Bool
  exec : Bool

/-- `char line[200];` -/
def SIZE : ℕ := 200

/-- `line[cnt_line++] = c`, where `line` is what is stored so far. -/
def store (line : Str) (c : Char) : Option Str :=
  if line.length < SIZE then some (line ++ [c]) else none

/-- The loop that reads standard input, up to a newline. -/
def readLine : Str → Str → Option Str
  | [], line => some line
  | c :: input, line => if c ≠ '\n' then (store line c).bind (readLine input) else some line

/-- The string at the beginning of an array. -/
def cstring (s : Str) : Str := s.takeWhile (· ≠ Char.ofNat 0)

/-- `main(argc, argv)` -/
def main (w : World) (argv : List Str) (input : Str) : Option (List Event) :=
  if argv.length < 3 then some [.exit 1]
  else
    (readLine input []).bind fun line => (store line (Char.ofNat 0)).bind fun line =>
      if w.fork = false then some [.print "Fork failed\n".toList, .exit 1]
      else
        let cmd := argv.getD 1 []
        some (.exec cmd [cmd, argv.getD 2 [], cstring line] ::
          (if w.exec then [] else [.print "exec failed\n".toList, .childExit 1]) ++
          [.wait, .exit 0])

/-- The lines of a text; the last one need not end in a newline. -/
def lines : Str → List Str
  | [] => []
  | c :: s =>
    if c = '\n' then [] :: lines s
    else match lines s with
      | [] => [[c]]
      | l :: ls => (c :: l) :: ls

/-- One run of the command for each line, if the command can be run. -/
def expected (cmd : Str) (args : List Str) (input : Str) : List Event :=
  (lines input).flatMap (fun line => [.exec cmd (cmd :: args ++ [line]), .wait]) ++ [.exit 0]

lemma lines_eq_nil {s : Str} (h : lines s = []) : s = [] := by
  cases s with
  | nil => rfl
  | cons c s =>
    rw [lines] at h
    split at h
    · cases h
    · split at h <;> cases h

lemma readLine_eq {input line : Str} {ls : List Str} (h : lines input = line :: ls) (stored : Str)
    (hstored : stored.length ≤ SIZE) : readLine input stored =
      if stored.length + line.length ≤ SIZE then some (stored ++ line) else none := by
  induction input generalizing stored line ls with
  | nil => cases h
  | cons c s ih =>
    rw [lines] at h
    rw [readLine]
    split at h
    · rename_i hc
      obtain ⟨rfl, -⟩ := List.cons.inj h
      rw [if_neg (not_not.2 hc), if_pos (by simpa using hstored), List.append_nil]
    · rename_i hc
      rw [if_pos hc, store]
      by_cases hroom : stored.length < SIZE
      · rw [if_pos hroom, Option.bind_some]
        split at h
        · rename_i hs
          cases h
          rw [lines_eq_nil hs, if_pos (by simpa using Nat.succ_le_of_lt hroom)]
          rfl
        · rename_i l ls hs
          cases h
          rw [ih hs _ (by simpa using Nat.succ_le_of_lt hroom)]
          simp [Nat.add_assoc, Nat.add_comm 1]
      · have hfull : ¬ stored.length + line.length ≤ SIZE := by
          split at h <;> cases h <;> simp only [List.length_cons] <;> omega
        rw [if_neg hroom, if_neg hfull, Option.bind_none]

/-- What is stored is passed on as it is exactly if it is a string. -/
lemma cstring_eq_iff (line : Str) : cstring (line ++ [Char.ofNat 0]) = line ↔
    Char.ofNat 0 ∉ line := by
  constructor
  · intro h hmem
    have hall := List.all_takeWhile (p := (· ≠ Char.ofNat 0)) (l := line ++ [Char.ofNat 0])
    rw [← cstring, h] at hall
    simpa using List.all_eq_true.1 hall _ hmem
  · intro h
    rw [cstring, List.takeWhile_append_of_pos]
    · simp
    · intro c hc
      exact decide_eq_true fun he => h (he ▸ hc)

/-- The command is run as it should be exactly if there is one fixed argument and one line, the line
fits in the array and is a string, and the system calls succeed. -/
theorem xargs_single (w : World) (prog cmd : Str) (args : List Str) (input : Str) :
    main w (prog :: cmd :: args) input = some (expected cmd args input) ↔
      w.fork = true ∧ w.exec = true ∧ args.length = 1 ∧
        ∃ line, lines input = [line] ∧ line.length < SIZE ∧ Char.ofNat 0 ∉ line := by
  cases args with
  | nil =>
    -- nothing is run, and the status is 1
    have hlast : [Event.exit 1] ≠ expected cmd [] input := fun h => by
      simpa [expected] using congrArg List.getLast? h
    simp [main, hlast]
  | cons arg rest =>
    have hargc : ¬ (prog :: cmd :: arg :: rest).length < 3 := by simp
    cases hlines : lines input with
    | nil =>
      -- the command is run once, with an empty argument
      have hne : main w (prog :: cmd :: arg :: rest) [] ≠ some [.exit 0] := fun h => by
        obtain ⟨_ | _, _⟩ := w <;> cases h
      have hexpected : expected cmd (arg :: rest) [] = [.exit 0] := rfl
      rw [lines_eq_nil hlines, hexpected]
      simp [hne]
    | cons line ls =>
      have hread := readLine_eq hlines [] (Nat.zero_le _)
      rw [List.length_nil, Nat.zero_add, List.nil_append] at hread
      by_cases hlen : line.length < SIZE
      · rw [if_pos (Nat.le_of_lt hlen)] at hread
        -- the two lists of events are compared one by one
        rw [main, if_neg hargc]
        obtain ⟨_ | _, _ | _⟩ := w <;> cases ls <;> cases rest <;>
          simp [hread, store, hlen, expected, hlines, cstring_eq_iff]
      · have hnone : main w (prog :: cmd :: arg :: rest) input = none := by
          rw [main, hread, if_neg hargc]
          split
          · rw [Option.bind_some, store, if_neg hlen, Option.bind_none]
          · rfl
        rw [hnone]
        simp [hlen]

theorem xargs_single_hello :
    main ⟨true, true⟩ ["xargs".toList, "echo".toList, "bye".toList] "hello too".toList =
      some (expected "echo".toList ["bye".toList] "hello too".toList) :=
  (xargs_single ⟨true, true⟩ _ _ _ _).2
    ⟨rfl, rfl, rfl, "hello too".toList, by decide, by decide, by decide⟩

/-- Of two lines only the first is used; of two arguments only the first is passed on; without an
argument, nothing is run; and a line of 200 characters does not fit. -/
theorem xargs_differs :
    main ⟨true, true⟩ ["xargs".toList, "echo".toList, "bye".toList] "a\nb\n".toList =
        some [.exec "echo".toList ["echo".toList, "bye".toList, "a".toList], .wait, .exit 0] ∧
      main ⟨true, true⟩ ["xargs".toList, "echo".toList, "b".toList, "c".toList] "a\n".toList =
        some [.exec "echo".toList ["echo".toList, "b".toList, "a".toList], .wait, .exit 0] ∧
      main ⟨true, true⟩ ["xargs".toList, "echo".toList] "a\n".toList = some [.exit 1] ∧
      main ⟨true, true⟩ ["xargs".toList, "echo".toList, "bye".toList] (List.replicate 200 'a') =
        none ∧
      expected "echo".toList ["bye".toList] "a\nb\n".toList =
        [.exec "echo".toList ["echo".toList, "bye".toList, "a".toList], .wait,
          .exec "echo".toList ["echo".toList, "bye".toList, "b".toList], .wait, .exit 0] := by
  decide +kernel

end Xv6.Xargs
