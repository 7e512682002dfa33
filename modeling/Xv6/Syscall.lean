import Mathlib.Data.Int.Notation
import Mathlib.Tactic.NormNum

/-!
# System call arguments (`syscall.c`)

The record of every user address that the kernel reads or writes is for the proofs only.
-/

namespace Xv6

/-- A machine word: `uint`, `int`, or a pointer. -/
abbrev Word := BitVec 32

def KERNBASE : Nat := 0x80000000

def NOFILE : Nat := 16

def MAXARG : Nat := 32

/-- The calling process: its size, which `allocuvm` keeps below `KERNBASE`, the saved user
stack pointer, its memory, and the user addresses touched so far, latest first. -/
structure User where
  sz : Word
  esp : Word
  mem : Word → UInt8
  touched : List Word
  sz_lt : sz.toNat < KERNBASE

lemma User.page_lt : (4096 : Word).toNat < KERNBASE := by decide

def User.load (u : User) (a : Word) : UInt8 × User :=
  (u.mem a, { u with touched := a :: u.touched })

def User.store (u : User) (a : Word) (v : UInt8) : User :=
  { u with mem := fun b => if b = a then v else u.mem b, touched := a :: u.touched }

/-- `*(int*)(addr)`. -/
def User.loadWord (u : User) (addr : Word) : Word × User :=
  let (b0, u) := u.load addr
  let (b1, u) := u.load (addr + 1)
  let (b2, u) := u.load (addr + 2)
  let (b3, u) := u.load (addr + 3)
  (b3.toBitVec ++ b2.toBitVec ++ b1.toBitVec ++ b0.toBitVec, u)

def fetchint (u : User) (addr : Word) : Option Word × User :=
  if addr ≥ u.sz ∨ addr + 4 > u.sz then (none, u)
  else
    let (w, u) := u.loadWord addr
    (some w, u)

/-- The loop of `fetchstr` from `s`, with `left` bytes before the end of the process; the
length counted from `s`. -/
def scanNul (u : User) (s : Word) : Nat → Option Nat × User
  | 0 => (none, u)
  | left + 1 =>
    let (c, u) := u.load s
    if c = 0 then (some 0, u)
    else
      let (len, u) := scanNul u (s + 1) left
      (len.map (· + 1), u)

/-- Check that a nul-terminated string starts at `addr`; returns its length. -/
def fetchstr (u : User) (addr : Word) : Option Nat × User :=
  if addr ≥ u.sz then (none, u) else scanNul u addr (u.sz - addr).toNat

def argint (u : User) (n : Word) : Option Word × User := fetchint u (u.esp + 4 + 4 * n)

/-- Fetch the nth argument as a pointer to a block of `size` bytes. The size is an `int`
that the addition converts to `uint`. -/
def argptr (u : User) (n size : Word) : Option Word × User :=
  match argint u n with
  | (none, u) => (none, u)
  | (some i, u) => if i ≥ u.sz ∨ i + size > u.sz then (none, u) else (some i, u)

/-- Fetch the nth argument as a string pointer; returns the pointer. -/
def argstr (u : User) (n : Word) : Option Word × User :=
  match argint u n with
  | (none, u) => (none, u)
  | (some addr, u) =>
    match fetchstr u addr with
    | (none, u) => (none, u)
    | (some _, u) => (some addr, u)

/-- The argument loop of `sys_exec` from slot `i`, with `left` slots of `argv` to go. -/
def fetchArgv (u : User) (uargv : Word) (i : Nat) : Nat → Option (List Word) × User
  | 0 => (none, u)
  | left + 1 =>
    match fetchint u (uargv + 4 * BitVec.ofNat 32 i) with
    | (none, u) => (none, u)
    | (some uarg, u) =>
      if uarg = 0 then (some [], u)
      else
        match fetchstr u uarg with
        | (none, u) => (none, u)
        | (some _, u) =>
          let (rest, u) := fetchArgv u uargv (i + 1) left
          (rest.map (uarg :: ·), u)

/-- The argument checks of `sys_exec`: the path pointer and the `argv` pointers it passes
to `exec`. -/
def sysExecArgs (u : User) : Option (Word × List Word) × User :=
  match argstr u 0 with
  | (none, u) => (none, u)
  | (some path, u) =>
    match argint u 1 with
    | (none, u) => (none, u)
    | (some uargv, u) =>
      match fetchArgv u uargv 0 MAXARG with
      | (none, u) => (none, u)
      | (some argv, u) => (some (path, argv), u)

end Xv6
