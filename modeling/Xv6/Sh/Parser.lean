import Mathlib.Data.List.Basic
import Mathlib.Data.UInt

/-!
# The shell's parser

The tokenizer and the recursive-descent parser of `user/sh.c`.  The command line is the memory
`mem`: its characters and the terminating NUL.  The cursor `*ps` is passed in and returned; a
pointer into the line is an index.  Every read and store is checked: `overrun` is an access outside
the line or outside `argv`.  The functions that call each other take `fuel`, the depth of their
calls; `timeout` is a parse that is not finished by then.

`malloc` is assumed to succeed, so a command is a tree (`Cmd`).  While `parseexec` runs,
redirections are wrapped around a command whose arguments are still being added; here both are
collected and put together at its end.
-/

namespace Xv6.Sh

/-- A character of the command line. -/
abbrev chr (c : Char) : UInt8 := c.toUInt8

/-- The size of `argv`. -/
def MAXARGS : ℕ := 10

/-- `" \t\r\n\v"` -/
def whitespace : List UInt8 := [32, 9, 13, 10, 11]

/-- `"<|>&;()"` -/
def symbols : List UInt8 :=
  [chr '<', chr '|', chr '>', chr '&', chr ';', chr '(', chr ')']

/-- The messages of `panic`. -/
inductive Msg where
  /-- "syntax" -/
  | syntaxError
  /-- "missing file for redirection" -/
  | missingFile
  /-- "parseblock" -/
  | parseblock
  /-- "syntax - missing )" -/
  | missingParen
  /-- "too many args" -/
  | tooManyArgs
  deriving DecidableEq, Repr

/-- How a parse can fail to return. -/
inductive Err where
  | panic (m : Msg)
  | overrun
  | timeout
  deriving DecidableEq, Repr

/-- A word: the index of its first character and that of the character after it. -/
abbrev Span : Type := ℕ × ℕ

/-- The fields of a `struct redircmd` other than the command. -/
structure Redir where
  file : Span
  mode : UInt32
  fd : ℕ
  deriving DecidableEq, Repr

/-- A parsed command; `exec` has the pairs `argv[i]`, `eargv[i]`. -/
inductive Cmd where
  | exec (argv : List Span)
  | redir (cmd : Cmd) (r : Redir)
  | pipe (left right : Cmd)
  | list (left right : Cmd)
  | back (cmd : Cmd)
  deriving DecidableEq, Repr

section

variable (mem : List UInt8) (es : ℕ)

/-- `mem[i]` -/
def rd (i : ℕ) : Except Err UInt8 :=
  match mem[i]? with
  | some c => .ok c
  | none => .error .overrun

/-- `while(s < es && p(*s)) s++;`, with `n` characters before `es`. -/
def scan (p : UInt8 → Bool) : ℕ → ℕ → Except Err ℕ
  | 0, s => .ok s
  | n + 1, s => do
    if p (← rd mem s) then scan p n (s + 1) else .ok s

/-- `strchr(whitespace, c)` -/
def isSpace (c : UInt8) : Bool := c ∈ whitespace

/-- `!strchr(whitespace, c) && !strchr(symbols, c)` -/
def isWordChar (c : UInt8) : Bool := c ∉ whitespace ∧ c ∉ symbols

/-- What `gettoken` answers: its result, and `*q`, `*eq` and `*ps`. -/
structure Token where
  ret : UInt8
  q : ℕ
  eq : ℕ
  s : ℕ

/-- The switch of `gettoken`: the kind of the token at `s`, and the position after it. -/
def tokenAt (s : ℕ) : Except Err (UInt8 × ℕ) := do
  let c ← rd mem s
  if c = 0 then .ok (0, s)
  else if c ∈ [chr '|', chr '(', chr ')', chr ';', chr '&', chr '<'] then .ok (c, s + 1)
  else if c = chr '>' then do
    if (← rd mem (s + 1)) = chr '>' then .ok (chr '+', s + 2) else .ok (chr '>', s + 1)
  else do
    let e ← scan mem isWordChar (es - s) s
    .ok (chr 'a', e)

def gettoken (s : ℕ) : Except Err Token := do
  let q ← scan mem isSpace (es - s) s
  let (ret, eq) ← tokenAt mem es q
  let s ← scan mem isSpace (es - eq) eq
  .ok ⟨ret, q, eq, s⟩

/-- The answer of `peek` and the cursor. -/
def peek (toks : List UInt8) (s : ℕ) : Except Err (Bool × ℕ) := do
  let s ← scan mem isSpace (es - s) s
  let c ← rd mem s
  .ok (c ≠ 0 ∧ c ∈ toks, s)

/-- The redirection to a file that a token begins: `O_RDONLY`, `O_WRONLY|O_CREATE|O_TRUNC` or
`O_WRONLY|O_CREATE`. -/
def redirOf (tok : UInt8) (file : Span) : List Redir :=
  if tok = chr '<' then [⟨file, 0x000, 0⟩]
  else if tok = chr '>' then [⟨file, 0x601, 1⟩]
  else if tok = chr '+' then [⟨file, 0x201, 1⟩]
  else []

/-- The redirections that `parseredirs` wraps around a command that has `rs` already. -/
def parseredirs : ℕ → List Redir → ℕ → Except Err (List Redir × ℕ)
  | 0, _, _ => .error .timeout
  | fuel + 1, rs, s => do
    let (more, s) ← peek mem es [chr '<', chr '>'] s
    if more then do
      let tok ← gettoken mem es s
      let file ← gettoken mem es tok.s
      if file.ret ≠ chr 'a' then .error (.panic .missingFile)
      else parseredirs fuel (rs ++ redirOf tok.ret (file.q, file.eq)) file.s
    else .ok (rs, s)

/-- `cmd->argv[argc] = q; cmd->eargv[argc] = eq; argc++;` -/
def putArg (args : List Span) (w : Span) : Except Err (List Span) :=
  if args.length < MAXARGS then .ok (args ++ [w]) else .error .overrun

/-- The loop of `parseexec`, with the arguments and redirections so far. -/
def execArgs : ℕ → List Span → List Redir → ℕ →
    Except Err ((List Span × List Redir) × ℕ)
  | 0, _, _, _ => .error .timeout
  | fuel + 1, args, rs, s => do
    let (stop, s) ← peek mem es [chr '|', chr ')', chr '&', chr ';'] s
    if stop then .ok ((args, rs), s)
    else do
      let tok ← gettoken mem es s
      if tok.ret = 0 then .ok ((args, rs), tok.s)
      else if tok.ret ≠ chr 'a' then .error (.panic .syntaxError)
      else do
        let args ← putArg args (tok.q, tok.eq)
        if MAXARGS ≤ args.length then .error (.panic .tooManyArgs)
        else do
          let (rs, s) ← parseredirs mem es fuel rs tok.s
          execArgs fuel args rs s

/-- Every redirection is wrapped around the command with the earlier ones. -/
def wrap (cmd : Cmd) (rs : List Redir) : Cmd := rs.foldl Cmd.redir cmd

/-- `parseexec` on a command that is not a block. -/
def parsesimple (fuel s : ℕ) : Except Err (Cmd × ℕ) := do
  let (rs, s) ← parseredirs mem es fuel [] s
  let ((args, rs), s) ← execArgs mem es fuel [] rs s
  -- `cmd->argv[argc] = 0`
  if args.length < MAXARGS then .ok (wrap (.exec args) rs, s) else .error .overrun

/-- The loop of `parseline`. -/
def backs : ℕ → Cmd → ℕ → Except Err (Cmd × ℕ)
  | 0, _, _ => .error .timeout
  | fuel + 1, cmd, s => do
    let (more, s) ← peek mem es [chr '&'] s
    if more then do
      let tok ← gettoken mem es s
      backs fuel (.back cmd) tok.s
    else .ok (cmd, s)

mutual

def parseline : ℕ → ℕ → Except Err (Cmd × ℕ)
  | 0, _ => .error .timeout
  | fuel + 1, s => do
    let (cmd, s) ← parsepipe fuel s
    let (cmd, s) ← backs mem es fuel cmd s
    let (more, s) ← peek mem es [chr ';'] s
    if more then do
      let tok ← gettoken mem es s
      let (right, s) ← parseline fuel tok.s
      .ok (.list cmd right, s)
    else .ok (cmd, s)

def parsepipe : ℕ → ℕ → Except Err (Cmd × ℕ)
  | 0, _ => .error .timeout
  | fuel + 1, s => do
    let (cmd, s) ← parseexec fuel s
    let (more, s) ← peek mem es [chr '|'] s
    if more then do
      let tok ← gettoken mem es s
      let (right, s) ← parsepipe fuel tok.s
      .ok (.pipe cmd right, s)
    else .ok (cmd, s)

def parseblock : ℕ → ℕ → Except Err (Cmd × ℕ)
  | 0, _ => .error .timeout
  | fuel + 1, s => do
    let (isOpen, s) ← peek mem es [chr '('] s
    if isOpen then do
      let tok ← gettoken mem es s
      let (cmd, s) ← parseline fuel tok.s
      let (isClosed, s) ← peek mem es [chr ')'] s
      if isClosed then do
        let tok ← gettoken mem es s
        let (rs, s) ← parseredirs mem es fuel [] tok.s
        .ok (wrap cmd rs, s)
      else .error (.panic .missingParen)
    else .error (.panic .parseblock)

def parseexec : ℕ → ℕ → Except Err (Cmd × ℕ)
  | 0, _ => .error .timeout
  | fuel + 1, s => do
    let (isOpen, s) ← peek mem es [chr '('] s
    if isOpen then parseblock fuel s else parsesimple mem es fuel s

end

end

/-- `mem[i] = 0` -/
def putNul (mem : List UInt8) (i : ℕ) : Except Err (List UInt8) :=
  if i < mem.length then .ok (mem.set i 0) else .error .overrun

/-- NUL-terminate all the counted strings. -/
def nulterminate : Cmd → List UInt8 → Except Err (List UInt8)
  | .exec argv, mem => argv.foldlM (fun mem w => putNul mem w.2) mem
  | .redir cmd r, mem => do
    let mem ← nulterminate cmd mem
    putNul mem r.file.2
  | .pipe left right, mem => do
    let mem ← nulterminate left mem
    nulterminate right mem
  | .list left right, mem => do
    let mem ← nulterminate left mem
    nulterminate right mem
  | .back cmd, mem => nulterminate cmd mem

/-- Parse the line `s`: the command, and the line with its words terminated. -/
def parsecmd (fuel : ℕ) (s : List UInt8) : Except Err (Cmd × List UInt8) := do
  let mem := s ++ [0]
  let es := s.length
  let (cmd, i) ← parseline mem es fuel 0
  let (_, i) ← peek mem es [] i
  if i ≠ es then .error (.panic .syntaxError)
  else do
    let mem ← nulterminate cmd mem
    .ok (cmd, mem)

end Xv6.Sh
