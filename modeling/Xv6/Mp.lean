import Xv6.Lib.Bytes

/-!
# The multiprocessor table (`mp.c`)

`mpinit` after `mpsearch` has found a pointer to the table at `conf`. The loop over the entries is given
rounds to go.
-/

namespace Xv6.Mp

open Bytes (loadLE slice)

def NCPU : Nat := 8

/-- `sizeof(struct mpconf)`. -/
def CONF : Nat := 44

def MPBOOT : UInt8 := 0x02

/-- An entry of a known type, with the fields that are read. -/
inductive Entry where
  | proc (apicid flags : UInt8)
  | ioapic (apicno : UInt8)
  /-- `MPBUS`, `MPIOINTR` or `MPLINTR`. -/
  | other

def Entry.size : Entry → Nat
  | .proc _ _ => 20
  | _ => 8

/-- The variables of `mp.c`; `bcpu` is an index into `cpus`, and `stores` are the elements of `cpus` that
were assigned to. -/
structure State where
  ismp : Bool
  ncpu : Nat
  bcpu : Nat
  lapic : Nat
  ioapicid : UInt8
  stores : List Nat

def State.entry (s : State) : Entry → State
  | .proc apicid flags =>
    { s with
      ismp := s.ismp && s.ncpu == apicid.toNat
      bcpu := if flags &&& MPBOOT ≠ 0 then s.ncpu else s.bcpu
      stores := s.ncpu :: s.stores
      ncpu := s.ncpu + 1 }
  | .ioapic apicno => { s with ioapicid := apicno }
  | .other => s

/-- Before the loop; `ncpu` and `ioapicid` are 0 when the kernel starts. -/
def start (lapicaddr : Nat) : State := ⟨true, 0, 0, lapicaddr, 0, []⟩

/-- The `if` after the loop. -/
def State.fallBack (s : State) : State :=
  if s.ismp then s else { s with ncpu := 1, lapic := 0, ioapicid := 0 }

section

variable (mem : Nat → UInt8)

def sum (addr : Nat) : Nat → UInt8
  | 0 => 0
  | len + 1 => sum addr len + mem (addr + len)

/-- What `mpconfig` asks of the table at `conf`: the signature `PCMP`, a version and the checksum. -/
def mpconfig (conf : Nat) : Bool :=
  slice mem conf 4 = [80, 67, 77, 80] && (mem (conf + 6) = 1 || mem (conf + 6) = 4) &&
    sum mem conf (loadLE mem (conf + 4) 2) = 0

/-- The entry at `p`, if its type is known. -/
def entryAt (p : Nat) : Option Entry :=
  match (mem p).toNat with
  | 0 => some (.proc (mem (p + 1)) (mem (p + 3)))
  | 2 => some (.ioapic (mem (p + 1)))
  | 1 | 3 | 4 => some .other
  | _ => none

/-- One round of the loop, at `p`. -/
def round (p : Nat) (s : State) : Nat × State :=
  match entryAt mem p with
  | some x => (p + x.size, s.entry x)
  | none => (p, { s with ismp := false })

/-- The loop over the entries before `e`. -/
def loop (e : Nat) : Nat → Nat → State → Option State
  | 0, _, _ => none
  | k + 1, p, s => if p < e then loop e k (round mem p s).1 (round mem p s).2 else some s

def tableEnd (conf : Nat) : Nat := conf + loadLE mem (conf + 4) 2

/-- `mpinit`, for a table that passes `mpconfig`. -/
def mpinit (conf rounds : Nat) : Option State :=
  (loop mem (tableEnd mem conf) rounds (conf + CONF) (start (loadLE mem (conf + 36) 4))).map State.fallBack

end

end Xv6.Mp
