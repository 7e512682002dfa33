import Xv6.Lib.Table

/-!
# Console input (`console.c`)

What is done in one hold of `input.lock` is one event: the characters of one `consoleintr`, and the
part of a `consoleread` up to where it sleeps or returns. A sleeping reader may wake at any time.
-/

namespace Xv6.Console

def INPUT_BUF : Nat := 128

/-- `C(x)`, the control character of a letter. -/
def C (x : Char) : UInt8 := x.toUInt8 - '@'.toUInt8

def newline : UInt8 := '\n'.toUInt8

def carriageReturn : UInt8 := '\r'.toUInt8

def delete : UInt8 := 0x7f

/-- `input` without its lock. -/
structure Input where
  buf : Table UInt8
  r : UInt32
  w : UInt32
  e : UInt32

namespace Input

/-- The loop for `C('U')`, with as many rounds as `e` is ahead of `w`. -/
def killLine : Nat → Input → Input
  | 0, x => x
  | k + 1, x =>
    if x.e ≠ x.w ∧ x.buf ((x.e - 1).toNat % INPUT_BUF) ≠ newline then
      killLine k { x with e := x.e - 1 }
    else x

/-- `input.buf[input.e++ % INPUT_BUF] = c`. -/
def put (c : UInt8) (x : Input) : Input :=
  { x with buf := x.buf.set (x.e.toNat % INPUT_BUF) c, e := x.e + 1 }

/-- The default case for a character that is stored. -/
def type (c : UInt8) (x : Input) : Input :=
  let c := if c = carriageReturn then newline else c
  let x := x.put c
  if c = newline ∨ c = C 'D' ∨ x.e = x.r + UInt32.ofNat INPUT_BUF then { x with w := x.e } else x

/-- The `switch` of `consoleintr`. `procdump` and the echo do not touch the ring. -/
def key (c : UInt8) (x : Input) : Input :=
  if c = C 'P' then x
  else if c = C 'U' then x.killLine (x.e - x.w).toNat
  else if c = C 'H' ∨ c = delete then
    if x.e ≠ x.w then { x with e := x.e - 1 } else x
  else if c ≠ 0 ∧ x.e - x.r < UInt32.ofNat INPUT_BUF then x.type c
  else x

end Input

inductive Outcome where
  | sleeps
  | killed
  | returns
deriving DecidableEq

/-- A part of a `consoleread` in one hold of the lock: how it ended, the bytes that were copied, what is left
of `n`, and the ring. -/
structure Pass where
  outcome : Outcome
  bytes : List UInt8
  left : Nat
  input : Input

/-- The loop of `consoleread` with `n` bytes to go, up to where it sleeps or ends. -/
def readLoop (killed : Bool) (target : Nat) : Nat → Input → Pass
  | 0, x => ⟨.returns, [], 0, x⟩
  | n + 1, x =>
    if x.r = x.w then ⟨if killed then .killed else .sleeps, [], n + 1, x⟩
    else
      let c := x.buf (x.r.toNat % INPUT_BUF)
      let x' := { x with r := x.r + 1 }
      if c = C 'D' then
        -- a `^D` behind some bytes is kept for the next call
        ⟨.returns, [], n + 1, if n + 1 < target then { x' with r := x'.r - 1 } else x'⟩
      else if c = newline then ⟨.returns, [c], n, x'⟩
      else
        let rest := readLoop killed target n x'
        { rest with bytes := c :: rest.bytes }

/-- A `consoleread` that has not returned: its number, what it was asked for, what is left of that, and the
bytes it has copied to `dst`. -/
structure Call where
  id : Nat
  target : Nat
  left : Nat
  dst : List UInt8

/-- A `consoleread` that has returned, when `r` had moved over `stop` characters. -/
structure Read where
  id : Nat
  n : Int
  ret : Int
  bytes : List UInt8
  stop : Nat

/-- The ring, the `killed` flags, and the calls of `consoleread` that are asleep. The other fields are for
the proofs only: the characters typed so far, each with the free places of the ring when it came, the
bytes copied out of the ring so far, each with the call that copied it, how far `r` has moved, and the
finished calls. -/
structure State where
  input : Input
  killed : Nat → Bool
  calls : Nat → Option Call
  typed : List (UInt8 × Nat)
  taken : List (Nat × UInt8)
  moved : Nat
  reads : List Read
  next : Nat

namespace State

def key (s : State) (c : UInt8) : State :=
  { s with
    input := s.input.key c
    typed := s.typed ++ [(c, INPUT_BUF - (s.input.e - s.input.r).toNat)] }

def consoleintr (cs : List UInt8) (s : State) : State := cs.foldl key s

/-- A hold of `input.lock` in which the call `k` took some bytes. -/
def pass (k : Call) (res : Pass) (s : State) : State :=
  { s with
    input := res.input
    taken := s.taken ++ res.bytes.map (k.id, ·)
    moved := s.moved + (res.input.r - s.input.r).toNat }

def finish (p : Nat) (k : Call) (dst : List UInt8) (ret : Int) (s : State) : State :=
  { s with
    calls := Function.update s.calls p none
    reads := s.reads ++ [⟨k.id, k.target, ret, dst, s.moved⟩] }

/-- One hold of `input.lock` by the call `k` of process `p`. -/
def consoleread (p : Nat) (k : Call) (s : State) : State :=
  let res := readLoop (s.killed p) k.target k.left s.input
  let dst := k.dst ++ res.bytes
  let s := s.pass k res
  match res.outcome with
  | .sleeps => { s with calls := Function.update s.calls p (some { k with left := res.left, dst := dst }) }
  | .killed => s.finish p k dst (-1)
  | .returns => s.finish p k dst (k.target - res.left)

end State

inductive Event where
  /-- A keyboard interrupt for which `getc` gives these characters. -/
  | keys (cs : List UInt8)
  /-- Process `p` calls `consoleread` for `n` bytes. -/
  | read (p : Nat) (n : Int)
  /-- The sleeping reader of process `p` runs again. -/
  | wake (p : Nat)
  | kill (p : Nat)

def State.step (s : State) : Event → State
  | .keys cs => s.consoleintr cs
  | .read p n =>
    match s.calls p with
    | some _ => s
    | none =>
      let s' := { s with next := s.next + 1 }
      if n ≤ 0 then { s' with reads := s'.reads ++ [⟨s.next, n, 0, [], s.moved⟩] }
      else s'.consoleread p ⟨s.next, n.toNat, n.toNat, []⟩
  | .wake p =>
    match s.calls p with
    | some k => s.consoleread p k
    | none => s
  | .kill p => { s with killed := Function.update s.killed p true }

def State.run (s : State) (evs : List Event) : State := evs.foldl step s

/-- An empty ring, with the counters at any common value. -/
def start (buf : Table UInt8) (at0 : UInt32) : State where
  input := ⟨buf, at0, at0, at0⟩
  killed := fun _ => false
  calls := fun _ => none
  typed := []
  taken := []
  moved := 0
  reads := []
  next := 0

end Xv6.Console
