import Xv6.Lib.Bytes

/-! # Disk sectors, and the 32-bit words in them -/

namespace Xv6

def BSIZE : Nat := 512

/-- Contents of one sector, `uchar data[512]`. -/
abbrev Block := Packed BSIZE

abbrev Disk := Nat → Block

/-- `((uint*)data)[i]`. -/
def wordAt (b : Block) (i : Nat) : UInt32 := UInt32.ofNat (Bytes.loadLE b.byteAt (4 * i) 4)

/-- `((uint*)data)[i] = w`. -/
def setWord (b : Block) (i : Nat) (w : UInt32) : Block := b.storeLE (4 * i) 4 w.toNat

lemma wordAt_setWord_same (b : Block) (i : Nat) (w : UInt32) (hi : i < 128) :
    wordAt (setWord b i w) i = w := by
  unfold wordAt setWord
  rw [Packed.loadLE_storeLE_same b (4 * i) 4 w.toNat (by unfold BSIZE; omega)]
  have hw : w.toNat < 256 ^ 4 := w.toNat_lt
  rw [Nat.mod_eq_of_lt hw, UInt32.ofNat_toNat]

lemma wordAt_setWord_other (b : Block) (i j : Nat) (w : UInt32) (hi : i < 128) (hij : i ≠ j) :
    wordAt (setWord b i w) j = wordAt b j := by
  unfold wordAt setWord
  rw [Packed.loadLE_storeLE_disjoint b (4 * i) 4 w.toNat (4 * j) 4 (by unfold BSIZE; omega) (by omega)]

end Xv6
