import Mathlib.Tactic.Common

/-!
# The parser of the shell (`sh.c`)

A line is given by its characters before the terminating NUL, and pointers into it are offsets. The
state of the parser is `*ps`. The loops and the recursion are given rounds to go; running out of them
is an outcome of its own.
-/

namespace Xv6.Shell

def MAXARGS : Nat := 10

def O_RDONLY : Nat := 0x000
def O_WRONLY : Nat := 0x001
def O_CREATE : Nat := 0x200

def chars (s : String) : List UInt8 := s.toList.map Char.toUInt8

def chr (c : Char) : UInt8 := c.toUInt8

def whitespace : List UInt8 := chars " \t\r\n\x0b"

def symbols : List UInt8 := chars "<|>&;()"

/-- A command, with `σ` for its strings: a pair of pointers `q` and `eq` while it is built, and the string
itself in the end. -/
inductive Cmd (σ : Type) where
  | exec (argv : List σ)
  | redir (cmd : Cmd σ) (file : σ) (mode fd : Nat)
  | pipe (left right : Cmd σ)
  | list (left right : Cmd σ)
  | back (cmd : Cmd σ)
deriving DecidableEq, Repr

/-- How the parser can fail to return. -/
inductive Stop where
  | panic (msg : String)
  | spin
deriving DecidableEq, Repr

abbrev Parser (α : Type) := EStateM Stop Nat α

/-- The pointers `q` and `eq` of a token. -/
structure Span where
  q : Nat
  eq : Nat
deriving DecidableEq, Repr

structure Tok where
  ret : UInt8
  span : Span

section

variable (line : List UInt8)

/-- `*s`. -/
def deref (s : Nat) : UInt8 := line.getD s 0

/-- `while(s < es && p(*s)) s++`, for at most `k` rounds. -/
def scan (p : UInt8 → Bool) : Nat → Nat → Nat
  | 0, s => s
  | k + 1, s => if s < line.length ∧ p (deref line s) then scan p k (s + 1) else s

def isSpace (c : UInt8) : Bool := whitespace.contains c

def isWord (c : UInt8) : Bool := !whitespace.contains c && !symbols.contains c

/-- The loop over white space; more rounds than there are characters are not made. -/
def skip (s : Nat) : Nat := scan line isSpace (line.length - s) s

/-- The `switch` of `gettoken`: the token at `s`, which is no white space, and where it ends. -/
def switchToken (s : Nat) : UInt8 × Nat :=
  let c := deref line s
  if c = 0 then (0, s)
  else if c ∈ chars "|();&<" then (c, s + 1)
  else if c = chr '>' then
    if deref line (s + 1) = chr '>' then (chr '+', s + 2) else (c, s + 1)
  else (chr 'a', scan line isWord (line.length - s) s)

def gettoken : Parser Tok := fun s =>
  let q := skip line s
  let (ret, eq) := switchToken line q
  .ok ⟨ret, ⟨q, eq⟩⟩ (skip line eq)

def peek (toks : String) : Parser Bool := fun s =>
  let s := skip line s
  .ok (deref line s ≠ 0 ∧ deref line s ∈ chars toks) s

def panic (msg : String) : Parser α := throw (.panic msg)

def parseredirs : Nat → Cmd Span → Parser (Cmd Span)
  | 0, _ => throw .spin
  | k + 1, cmd => do
    let more ← peek line "<>"
    if more then
      let tok ← gettoken line
      let file ← gettoken line
      if file.ret ≠ chr 'a' then panic "missing file for redirection"
      else if tok.ret = chr '<' then parseredirs k (.redir cmd file.span O_RDONLY 0)
      else if tok.ret = chr '>' then parseredirs k (.redir cmd file.span (O_WRONLY ||| O_CREATE) 1)
      else if tok.ret = chr '+' then parseredirs k (.redir cmd file.span (O_WRONLY ||| O_CREATE) 1)
      else parseredirs k cmd
    else return cmd

end

/-- `cmd->argv[argc++] = q`, where `cmd` is the `execcmd` inside of the redirections. -/
def Cmd.addArg {σ : Type} (w : σ) : Cmd σ → Cmd σ
  | .exec argv => .exec (argv ++ [w])
  | .redir cmd file mode fd => .redir (cmd.addArg w) file mode fd
  | cmd => cmd

section

variable (line : List UInt8)

/-- The loop of `parseexec`. -/
def parseargs : Nat → Nat → Cmd Span → Parser (Cmd Span)
  | 0, _, _ => throw .spin
  | k + 1, argc, ret => do
    let stop ← peek line "|)&;"
    if stop then return ret
    else
      let tok ← gettoken line
      if tok.ret = 0 then return ret
      else if tok.ret ≠ chr 'a' then panic "syntax"
      else if argc + 1 ≥ MAXARGS then panic "too many args"
      else
        let ret ← parseredirs line (line.length + 1) (ret.addArg tok.span)
        parseargs k (argc + 1) ret

/-- `while(peek(ps, es, "&"))` in `parseline`. -/
def parseamps : Nat → Cmd Span → Parser (Cmd Span)
  | 0, _ => throw .spin
  | k + 1, cmd => do
    let more ← peek line "&"
    if more then
      let _ ← gettoken line
      parseamps k (.back cmd)
    else return cmd

mutual

def parseline : Nat → Parser (Cmd Span)
  | 0 => throw .spin
  | k + 1 => do
    let cmd ← parsepipe k
    let cmd ← parseamps line (line.length + 1) cmd
    let more ← peek line ";"
    if more then
      let _ ← gettoken line
      let rest ← parseline k
      return .list cmd rest
    else return cmd

def parsepipe : Nat → Parser (Cmd Span)
  | 0 => throw .spin
  | k + 1 => do
    let cmd ← parseexec k
    let more ← peek line "|"
    if more then
      let _ ← gettoken line
      let rest ← parsepipe k
      return .pipe cmd rest
    else return cmd

def parseblock : Nat → Parser (Cmd Span)
  | 0 => throw .spin
  | k + 1 => do
    let opens ← peek line "("
    if !opens then panic "parseblock"
    else
      let _ ← gettoken line
      let cmd ← parseline k
      let closes ← peek line ")"
      if !closes then panic "syntax - missing )"
      else
        let _ ← gettoken line
        parseredirs line (line.length + 1) cmd

def parseexec : Nat → Parser (Cmd Span)
  | 0 => throw .spin
  | k + 1 => do
    let block ← peek line "("
    if block then parseblock k
    else
      let ret ← parseredirs line (line.length + 1) (.exec [])
      parseargs line (line.length + 1) 0 ret

end

end

/-- `nulterminate` on the memory of the line. -/
def nulterminate : Cmd Span → List UInt8 → List UInt8
  | .exec argv, mem => argv.foldl (fun mem w => mem.set w.eq 0) mem
  | .redir cmd file _ _, mem => (nulterminate cmd mem).set file.eq 0
  | .pipe left right, mem => nulterminate right (nulterminate left mem)
  | .list left right, mem => nulterminate right (nulterminate left mem)
  | .back cmd, mem => nulterminate cmd mem

def Cmd.map {σ τ : Type} (f : σ → τ) : Cmd σ → Cmd τ
  | .exec argv => .exec (argv.map f)
  | .redir cmd file mode fd => .redir (cmd.map f) (f file) mode fd
  | .pipe left right => .pipe (left.map f) (right.map f)
  | .list left right => .list (left.map f) (right.map f)
  | .back cmd => .back (cmd.map f)

def cstring (mem : List UInt8) (w : Span) : List UInt8 := (mem.drop w.q).takeWhile (· ≠ 0)

def parse (line : List UInt8) : Parser (Cmd Span) := do
  let cmd ← parseline line (4 * line.length + 4)
  let _ ← peek line ""
  let s ← get
  if s ≠ line.length then panic "syntax"
  else return cmd

/-- `parsecmd`: the command with its strings as they are in memory in the end. -/
def parsecmd (line : List UInt8) : Except Stop (Cmd (List UInt8)) :=
  match (parse line).run 0 with
  | .ok cmd _ => .ok (cmd.map (cstring (nulterminate cmd (line ++ [0]))))
  | .error e _ => .error e

end Xv6.Shell
