import Xv6.Syscall
import Mathlib.Data.Rat.Defs

/-!
# Random number streams (`random.c`)

`long` has 32 bits on this machine and the arithmetic wraps. The stream number of `change_seed` and
`actual_seed` indexes the table as it comes: outside of the 101 elements nothing can be said about
what follows.
-/

namespace Xv6.Random

def MODLUS : Word := 2147483647
def MULTONE : Word := 24112
def MULTTWO : Word := 26143

/-- The initial table; stream 0 is not used. -/
def zrngInit : Vector Word 101 := #v[
  0,
  1973272912, 281629770, 20006270, 1280689831, 2096730329, 1933576050,
  913566091, 246780520, 1363774876, 604901985, 1511192140, 1259851944,
  824064364, 150493284, 242708531, 75253171, 1964472944, 1202299975,
  233217322, 1911216000, 726370533, 403498145, 993232223, 1103205531,
  762430696, 1922803170, 1385516923, 76271663, 413682397, 726466604,
  336157058, 1432650381, 1120463904, 595778810, 877722890, 1046574445,
  68911991, 2088367019, 748545416, 622401386, 2122378830, 640690903,
  1774806513, 2132545692, 2079249579, 78130110, 852776735, 1187867272,
  1351423507, 1645973084, 1997049139, 922510944, 2045512870, 898585771,
  243649545, 1004818771, 773686062, 403188473, 372279877, 1901633463,
  498067494, 2087759558, 493157915, 597104727, 1530940798, 1814496276,
  536444882, 1663153658, 855503735, 67784357, 1432404475, 619691088,
  119025595, 880802310, 176192644, 1116780070, 277854671, 1366580350,
  1142483975, 2026948561, 1053920743, 786262391, 1792203830, 1494667770,
  1923011392, 1433700034, 1244184613, 1147297105, 539712780, 1545929719,
  190641742, 1645390429, 264907697, 620389253, 1502074852, 927711160,
  364849192, 2049576050, 638580085, 547070247].map (BitVec.ofNat 32)

/-- `zrng`, `seed` and `randomValue`, the last as the exact quotient that is rounded to a
`float`. -/
structure Gen where
  zrng : Vector Word 101
  seed : Word
  randomValue : ℚ

def genInit : Gen := { zrng := zrngInit, seed := 0, randomValue := 0 }

/-- Half of the stream update: one multiplication modulo `2^31 - 1`, by halves. -/
def mulStep (zi mult : Word) : Word :=
  let lowprd := (zi &&& 65535) * mult
  let hi3l := zi.sshiftRight 16 * mult + lowprd.sshiftRight 16
  let zi := ((lowprd &&& 65535) - MODLUS) + ((hi3l &&& 32767) <<< 16) + hi3l.sshiftRight 15
  if zi.toInt < 0 then zi + MODLUS else zi

/-- The stream update of `sys_random` and `sys_random_set`. -/
def nextState (zi : Word) : Word := mulStep (mulStep zi MULTONE) MULTTWO

def scaled (zi : Word) : ℚ := (((zi.sshiftRight 7 ||| 1) + 1).toInt : ℚ) / 1667772116

/-- The table entry `zrng[i]` for an index inside of the array. -/
def Gen.entry (g : Gen) (i : Int) : Word := (g.zrng[i.toNat]?).getD 0

/-- `zrng[i] = zi` for an index inside of the array. -/
def Gen.setEntry (g : Gen) (i : Int) (zi : Word) : Gen :=
  { g with zrng := g.zrng.setIfInBounds i.toNat zi }

/-- One update of the stream `seed`, which is in `1..100`. -/
def Gen.advance (g : Gen) : Gen :=
  let zi := nextState (g.entry g.seed.toInt)
  { g.setEntry g.seed.toInt zi with randomValue := scaled zi }

inductive Value where
  | int (n : Int)
  | float (q : ℚ)
  deriving DecidableEq

/-- What a call comes to: a return value and a state with the indices of `zrng` it used, or
an access outside of the array. -/
inductive Outcome where
  | ret (v : Value) (g : Gen) (used : List Int)
  | wild (index : Int)

def selected (seed : Word) : Prop := 0 < seed.toInt ∧ seed.toInt < 101

instance (seed : Word) : Decidable (selected seed) := inferInstanceAs (Decidable (_ ∧ _))

def sysRandom (g : Gen) : Outcome :=
  let g := if g.seed.toInt ≤ 0 then { g with seed := 0 } else g
  if selected g.seed then .ret (.float g.advance.randomValue) g.advance [g.seed.toInt]
  else .ret (.float g.randomValue) g []

/-- `argint` stores the argument in `seed` before its range is checked. -/
def sysRandomSet (u : User) (g : Gen) : Outcome :=
  match (argint u 0).1 with
  | none => .ret (.int (-1)) g []
  | some seed =>
    let g := { g with seed := seed }
    if selected g.seed then .ret (.int 0) g.advance [g.seed.toInt] else .ret (.int (-1)) g []

def inTable (i : Int) : Prop := 0 ≤ i ∧ i < 101

instance (i : Int) : Decidable (inTable i) := inferInstanceAs (Decidable (_ ∧ _))

def sysChangeSeed (u : User) (g : Gen) : Outcome :=
  match (argint u 0).1 with
  | none => .ret (.int (-1)) g []
  | some stream =>
    match (argint u 1).1 with
    | none => .ret (.int (-1)) g []
    | some set =>
      if inTable stream.toInt then .ret (.int 0) (g.setEntry stream.toInt set) [stream.toInt]
      else .wild stream.toInt

def sysActualSeed (u : User) (g : Gen) : Outcome :=
  match (argint u 0).1 with
  | none => .ret (.int (-1)) g []
  | some stream =>
    if inTable stream.toInt then .ret (.int (g.entry stream.toInt).toInt) g [stream.toInt]
    else .wild stream.toInt

inductive Call where
  | random
  | randomSet (u : User)
  | changeSeed (u : User)
  | actualSeed (u : User)

def Call.exec (g : Gen) : Call → Outcome
  | .random => sysRandom g
  | .randomSet u => sysRandomSet u g
  | .changeSeed u => sysChangeSeed u g
  | .actualSeed u => sysActualSeed u g

end Xv6.Random
