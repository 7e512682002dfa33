import Xv6.Lib.Bytes
import Xv6.Shell
import Xv6.Strings

/-!
# `grep.c`

A C string is the list of its bytes before the NUL: the code reads a NUL where the list ends.
-/

namespace Xv6.Grep

open Shell (chr)
open Bytes (slice)
open Strings (Mem umemmove)

/-- Search for `c*re` at the beginning of the text, where `here` is `matchhere(re, _)`. -/
def matchstar (c : UInt8) (here : List UInt8 → Bool) : List UInt8 → Bool
  | [] => here []
  | t :: text => here (t :: text) || ((t = c || c = chr '.') && matchstar c here text)

/-- One character, and the rest of the pattern by `here`. -/
def matchchar (c : UInt8) (here : List UInt8 → Bool) : List UInt8 → Bool
  | [] => false
  | t :: text => (c = chr '.' || c = t) && here text

/-- Search for the pattern at the beginning of the text. -/
def matchhere : List UInt8 → List UInt8 → Bool
  | [] => fun _ => true
  | [c] => fun text => if c = chr '$' then text = [] else matchchar c (matchhere []) text
  | c :: d :: re => fun text =>
    if d = chr '*' then matchstar c (matchhere re) text else matchchar c (matchhere (d :: re)) text

/-- The loop of `match`, which looks at the empty string too. -/
def matchFrom (re : List UInt8) : List UInt8 → Bool
  | [] => matchhere re []
  | t :: text => matchhere re (t :: text) || matchFrom re text

/-- The function `match`. -/
def matchText (re text : List UInt8) : Bool :=
  if re.head? = some (chr '^') then matchhere re.tail text else matchFrom re text

/-! ## The loop over the input -/

/-- `sizeof(buf)`. -/
def BUF : Nat := 1024

def newline : UInt8 := chr '\n'

/-- How the loops can fail to end: with an access outside of `buf`, or out of rounds. -/
inductive Fault where
  | outside
  | spin
deriving DecidableEq

/-- `strchr(s, c)` with `k` bytes of the buffer from `s` on. -/
def strchr (buf : Mem) (c : UInt8) : Nat → Nat → Except Fault (Option Nat)
  | 0, _ => .error .outside
  | k + 1, s => if buf s = 0 then .ok none else if buf s = c then .ok (some s) else strchr buf c k (s + 1)

/-- The state of `grep`: `p`, the buffer and the lines that were written. -/
structure Scan where
  p : Nat
  buf : Mem
  out : List (List UInt8)

/-- The inner loop. Where `match` is called, the string at `p` ends at `q`: `strchr` met no NUL before. -/
def scanLines (pattern : List UInt8) : Nat → Scan → Except Fault Scan
  | 0, _ => .error .spin
  | k + 1, ⟨p, buf, out⟩ => do
    match ← strchr buf newline (BUF - p) p with
    | none => return ⟨p, buf, out⟩
    | some q =>
      if matchText pattern (slice buf p (q - p)) then
        scanLines pattern k ⟨q + 1, buf, out ++ [slice buf p (q + 1 - p)]⟩
      else scanLines pattern k ⟨q + 1, Function.update buf q 0, out⟩

/-- `read` of the bytes `c` to `buf + m`. -/
def fill (buf : Mem) (m : Nat) (c : List UInt8) : Mem := fun i => if i < m then buf i else c.getD (i - m) (buf i)

/-- The body of the outer loop, after a call of `read` that returned `got`. -/
def refill (pattern got : List UInt8) (m : Nat) (buf : Mem) (out : List (List UInt8)) :
    Except Fault (Int × Mem × List (List UInt8)) := do
  let s ← scanLines pattern (BUF + 1) ⟨0, fill buf m got, out⟩
  if s.p = 0 then return (0, s.buf, s.out)
  else return ((m + got.length : Nat) - (s.p : Int), umemmove 0 s.p (m + got.length - s.p) s.buf, s.out)

/-- The outer loop. The chunks are what there is for the calls of `read`, each of which takes what it has room for
from one chunk. -/
def grepFrom (pattern : List UInt8) : Nat → List (List UInt8) → Int → Mem → List (List UInt8) →
    Except Fault (List (List UInt8))
  | 0, _, _, _, _ => .error .spin
  | _ + 1, [], _, _, out => .ok out
  | k + 1, c :: cs, m, buf, out =>
    let got := c.take (BUF - m.toNat)
    if m < 0 then .error .outside
    else if got = [] then .ok out
    else do
      let (m, buf, out) ← refill pattern got m.toNat buf out
      grepFrom pattern k (if got.length < c.length then c.drop got.length :: cs else cs) m buf out

/-- `grep`, for an input that comes in the given chunks. The buffer is a global that keeps what an earlier call has
left in it. -/
def grep (pattern : List UInt8) (buf : Mem) (chunks : List (List UInt8)) : Except Fault (List (List UInt8)) :=
  grepFrom pattern (chunks.flatten.length + chunks.length + 1) chunks 0 buf []

end Xv6.Grep
