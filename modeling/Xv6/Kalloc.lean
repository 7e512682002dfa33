import Xv6.Lib.Table
import Xv6.Vm

/-!
# The list of free pages (`kalloc.c`)

The memory is the first word of each page, by its physical address; `kmem.freelist` is the word at the null
pointer. What happens under `kmem.lock` is one step.
-/

namespace Xv6.Kmem

open Vm

def kfree (L : Layout) (v : Nat) (m : Table Nat) : Option (Table Nat) :=
  if v % PGSIZE ≠ 0 ∨ v < L.kend ∨ PHYSTOP ≤ v then none else some ((m.set v (m 0)).set 0 v)

def kalloc (m : Table Nat) : Nat × Table Nat := (m 0, if m 0 = 0 then m else m.set 0 (m (m 0)))

/-- The loop of `freerange` at page `p`. -/
def freerangeFrom (L : Layout) (vend p : Nat) (m : Table Nat) : Option (Table Nat) :=
  if p + PGSIZE ≤ vend then (kfree L p m).bind (freerangeFrom L vend (p + PGSIZE)) else some m
termination_by vend - p
decreasing_by unfold PGSIZE at *; omega

def freerange (L : Layout) (vstart vend : Nat) (m : Table Nat) : Option (Table Nat) :=
  freerangeFrom L vend (pgroundup vstart) m

end Xv6.Kmem
