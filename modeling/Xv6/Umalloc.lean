import Mathlib.Algebra.Group.Nat.Defs
import Xv6.Lib.Chain
import Xv6.Lib.Table

/-!
# The user memory allocator (`umalloc.c`)

`ptr` and `size` give the two fields of the header at an address. A program can change every header
that overlaps the data of a block it was given. `sbrk` is an oracle: its `i`-th call fails, or
returns an address by some amount above every earlier break value.
-/

namespace Xv6.Umalloc

/-- `sizeof(Header)`. -/
def HEADER : Nat := 8

structure Blk where
  a : Nat
  n : Nat
deriving DecidableEq

def Blk.fin (b : Blk) : Nat := b.a + HEADER * b.n

/-- The allocator. The last three fields are for the proofs only: the highest break value so far, the blocks in
use, and the units obtained by `morecore`; `calls` counts the calls of `sbrk`. -/
structure Heap where
  ptr : Table Nat
  size : Table Nat
  freep : Nat
  calls : Nat
  brk : Nat
  live : List Blk
  units : Nat

namespace Heap

def setPtr (p q : Nat) (s : Heap) : Heap := { s with ptr := s.ptr.set p q }

def setSize (p n : Nat) (s : Heap) : Heap := { s with size := s.size.set p n }

/-- Where the loop of `free` stops. -/
def isPlace (s : Heap) (bp p : Nat) : Bool :=
  (bp > p ∧ bp < s.ptr p) ∨ (p ≥ s.ptr p ∧ (bp > p ∨ bp < s.ptr p))

/-- The first `if` of `free`, with its search stopped at `p`. -/
def linkNext (bp p : Nat) (s : Heap) : Heap :=
  let q := s.ptr p
  if bp + HEADER * s.size bp = q then (s.setSize bp (s.size bp + s.size q)).setPtr bp (s.ptr q)
  else s.setPtr bp q

/-- The second `if` of `free`. -/
def linkPrev (bp p : Nat) (s : Heap) : Heap :=
  if p + HEADER * s.size p = bp then (s.setSize p (s.size p + s.size bp)).setPtr p (s.ptr bp)
  else s.setPtr p bp

def link (bp p : Nat) (s : Heap) : Heap := { (s.linkNext bp p).linkPrev bp p with freep := p }

/-- `free` of the block with its header at `bp`. There are at most as many free blocks as units; `none` says that
the search went on for longer. -/
def free (bp : Nat) (s : Heap) : Option Heap :=
  (Chain.seek s.ptr (s.isPlace bp) (s.units + 1) s.freep).map fun p => s.link bp p

/-- The units that `morecore` asks for. -/
def coreUnits (nu : Nat) : Nat := if nu < 4096 then 4096 else nu

/-- `nu * sizeof(Header)`, as the `int` that `sbrk` takes. -/
def coreBytes (nu : Nat) : Int := (BitVec.ofNat 32 (HEADER * coreUnits nu)).toInt

section

variable (sbrk : Nat → Option Nat)

/-- `morecore`, for unit counts whose `coreBytes` are positive; the Boolean is false if it returns 0. -/
def morecore (nu : Nat) (s : Heap) : Option (Bool × Heap) :=
  let nu := if nu < 4096 then 4096 else nu
  let s' := { s with calls := s.calls + 1 }
  match sbrk s.calls with
  | none => some (false, s')
  | some gap =>
    let hp := s.brk + gap
    let s' := { s'.setSize hp nu with brk := hp + HEADER * nu }
    (s'.free hp).map fun s => (true, { s with units := s.units + nu })

/-- `malloc` has found the block at `p`, behind `prevp`. -/
def take (nunits prevp p : Nat) (s : Heap) : Nat × Heap :=
  if s.size p = nunits then
    (p, { s.setPtr prevp (s.ptr p) with freep := prevp, live := ⟨p, nunits⟩ :: s.live })
  else
    let rest := s.size p - nunits
    let q := p + HEADER * rest
    (q, { (s.setSize p rest).setSize q nunits with freep := prevp, live := ⟨q, nunits⟩ :: s.live })

/-- The loop of `malloc`. The result is the header of the block, or `none` for 0. -/
def search (nunits : Nat) : Nat → Nat → Nat → Heap → Option (Option Nat × Heap)
  | 0, _, _, _ => none
  | k + 1, prevp, p, s =>
    if s.size p ≥ nunits then
      let (q, s) := s.take nunits prevp p
      some (some q, s)
    else if p = s.freep then
      match s.morecore sbrk nunits with
      | none => none
      | some (false, s) => some (none, s)
      | some (true, s) => search nunits k s.freep (s.ptr s.freep) s
    else search nunits k p (s.ptr p) s

/-- `uint` arithmetic wraps. -/
def nunits (nbytes : Nat) : Nat := (nbytes + HEADER - 1) % 2 ^ 32 / HEADER + 1

/-- `malloc`, with at most two rounds through the free blocks. -/
def malloc (base nbytes : Nat) (s : Heap) : Option (Option Nat × Heap) :=
  let s := if s.freep = 0 then { (s.setPtr base base).setSize base 0 with freep := base } else s
  s.search sbrk (nunits nbytes) (2 * s.units + 4) s.freep (s.ptr s.freep)

end

end Heap

/-- The place of `base` in a program, and its first break value. -/
structure Image where
  base : Nat
  brk : Nat
  base_pos : 0 < base
  base_le : base + HEADER ≤ brk

inductive Op where
  | malloc (nbytes : Nat)
  /-- `free` of what `malloc` returned, given by the header. -/
  | free (bp : Nat)
  /-- The program stores data that overlaps a header at `x`. -/
  | store (x ptr size : Nat)

/-- The unit count times 8 stays below `2^31`. -/
def Small (nbytes : Nat) : Prop := ((nbytes + HEADER - 1) / HEADER + 1) * HEADER < 2 ^ 31

instance (nbytes : Nat) : Decidable (Small nbytes) := inferInstanceAs (Decidable (_ < _))

/-- One operation of the program, which frees only blocks in use and stores only into their data. -/
def Heap.step (x : Image) (sbrk : Nat → Option Nat) (s : Heap) : Op → Option Heap
  | .malloc nbytes => if Small nbytes then (s.malloc sbrk x.base nbytes).map (·.2) else some s
  | .free bp =>
    match s.live.find? (·.a = bp) with
    | some b => ({ s with live := s.live.erase b } : Heap).free bp
    | none => some s
  | .store y p n =>
    if s.live.any fun b => b.a < y ∧ y < b.fin then some ((s.setPtr y p).setSize y n) else some s

def Heap.run (x : Image) (sbrk : Nat → Option Nat) : List Op → Heap → Option Heap
  | [], s => some s
  | op :: ops, s => (s.step x sbrk op).bind (run x sbrk ops)

/-- At the start `freep` is 0; the memory holds anything. -/
def start (x : Image) (ptr size : Table Nat) : Heap := ⟨ptr, size, 0, 0, x.brk, [], 0⟩

end Xv6.Umalloc
