import Mathlib.Data.Nat.Bitwise
import Mathlib.Tactic.Positivity
import Mathlib.Tactic.Ring

/-!
# Little-endian fields and bit sets in byte arrays

Loads are defined on readers `Nat → UInt8`. `Fin n → UInt8` suits arrays that are only reasoned
about, and `Packed n`, the number whose base-256 digits are the bytes, those that are also computed
with. Each store is described by what later loads see.
-/

open List

namespace Bytes

/-! ## Loads -/

def loadLE (g : Nat → UInt8) : Nat → Nat → Nat
  | _, 0 => 0
  | off, k + 1 => (g off).toNat + 256 * loadLE g (off + 1) k

/-- The mask `1 << (k % 8)`. -/
def mask (k : Nat) : UInt8 := 1 <<< UInt8.ofNat (k % 8)

def bitAt (g : Nat → UInt8) (k : Nat) : Bool := g (k / 8) &&& mask k != 0

/-- The `m` bytes at offset `off`, as `memmove` copies them out. -/
def slice (g : Nat → UInt8) (off m : Nat) : List UInt8 := (List.range m).map fun j => g (off + j)

variable (g h : Nat → UInt8)

lemma loadLE_congr (off k : Nat) (hg : ∀ i, off ≤ i → i < off + k → g i = h i) :
    loadLE g off k = loadLE h off k := by
  induction k generalizing off with
  | zero => rfl
  | succ k ih =>
    rw [loadLE, loadLE, hg off (by omega) (by omega),
      ih (off + 1) (fun i hl hu => hg i (by omega) (by omega))]

lemma loadLE_shift (v off k : Nat) (hg : ∀ j, j < k → g (off + j) = UInt8.ofNat (v / 256 ^ j)) :
    loadLE g off k = v % 256 ^ k := by
  induction k generalizing off v with
  | zero => simp [loadLE, Nat.mod_one]
  | succ k ih =>
    have h0 := hg 0 (by omega)
    have hi := ih (v / 256) (off + 1) (fun j hj => by
      have hs := hg (j + 1) (by omega)
      rw [show off + 1 + j = off + (j + 1) by omega, hs, pow_succ', Nat.div_div_eq_div_mul])
    rw [loadLE, hi]
    simp only [Nat.add_zero, pow_zero, Nat.div_one] at h0
    rw [h0, pow_succ', Nat.mod_mul]
    simp

lemma toNat_mask (k : Nat) : (mask k).toNat = 2 ^ (k % 8) := by
  have hk : k % 8 < 8 := Nat.mod_lt k (by norm_num)
  have hp : 2 ^ (k % 8) < 2 ^ 8 := Nat.pow_lt_pow_right (by norm_num) hk
  unfold mask
  rw [UInt8.toNat_shiftLeft, UInt8.toNat_ofNat_of_lt' (by show k % 8 < 256; omega),
    Nat.mod_eq_of_lt hk]
  simp only [UInt8.toNat_one, Nat.one_shiftLeft]
  exact Nat.mod_eq_of_lt hp

lemma bitAt_eq_testBit (k : Nat) : bitAt g k = (g (k / 8)).toNat.testBit (k % 8) := by
  have ht : (g (k / 8) &&& mask k).toNat =
      ((g (k / 8)).toNat.testBit (k % 8)).toNat * 2 ^ (k % 8) := by
    rw [UInt8.toNat_and, toNat_mask, Nat.and_two_pow]
  have hp := Nat.two_pow_pos (k % 8)
  unfold bitAt
  cases hb : (g (k / 8)).toNat.testBit (k % 8) with
  | false =>
    have h0 : g (k / 8) &&& mask k = 0 := by
      apply UInt8.toNat_inj.mp
      simpa [hb] using ht
    simp [h0]
  | true =>
    have h0 : g (k / 8) &&& mask k ≠ 0 := by
      intro hz
      simp [hb, hz] at ht
      omega
    simp [h0]

@[simp] lemma length_slice (off m : Nat) : (slice g off m).length = m := by
  simp [slice]

lemma slice_congr (off m : Nat) (hg : ∀ i, off ≤ i → i < off + m → g i = h i) :
    slice g off m = slice h off m := by
  apply map_congr_left
  intro j hj
  exact hg (off + j) (by omega) (by have := mem_range.mp hj; omega)

lemma slice_append (off a b : Nat) : slice g off (a + b) = slice g off a ++ slice g (off + a) b := by
  simp [slice, range_add, Nat.add_assoc]

/-- The bytes `l` with `q` written over them from position `off` on. -/
def overwrite (l : List UInt8) (off : Nat) (q : List UInt8) : List UInt8 := l.take off ++ q ++ l.drop (off + q.length)

lemma length_overwrite (l : List UInt8) (off : Nat) (q : List UInt8) (h : off ≤ l.length) :
    (overwrite l off q).length = max l.length (off + q.length) := by
  simp only [overwrite, length_append, length_take, length_drop]
  omega

lemma overwrite_end (l q : List UInt8) : overwrite l l.length q = l ++ q := by
  simp [overwrite]

lemma overwrite_append (l a b : List UInt8) (off : Nat) (h : off ≤ l.length) :
    overwrite (overwrite l off a) (off + a.length) b = overwrite l off (a ++ b) := by
  have hlen : (l.take off ++ a).length = off + a.length := by simp [h]
  have htake : (overwrite l off a).take (off + a.length) = l.take off ++ a := by
    rw [overwrite, ← hlen, take_left]
  have hdrop : (overwrite l off a).drop (off + a.length + b.length) = l.drop (off + (a ++ b).length) := by
    rw [overwrite, ← hlen, ← drop_drop, drop_left, drop_drop, hlen, length_append, Nat.add_assoc]
  rw [overwrite, htake, hdrop, overwrite, append_assoc (l.take off)]

lemma take_overwrite (l q : List UInt8) {off n : Nat} (hoff : off ≤ n) (hn : n ≤ l.length) :
    (overwrite l off q).take (max n (off + q.length)) = overwrite (l.take n) off q := by
  have hlen : (l.take off ++ q).length = off + q.length := by
    simp [hoff.trans hn]
  rw [overwrite, overwrite, take_append, take_of_length_le (by omega), take_take, drop_take, hlen,
    Nat.min_eq_left hoff]
  congr 2
  omega

lemma getD_overwrite (l : List UInt8) (off : Nat) (q : List UInt8) (h : off ≤ l.length) (x : Nat) :
    (overwrite l off q).getD x 0 = if off ≤ x ∧ x < off + q.length then q.getD (x - off) 0 else l.getD x 0 := by
  have hl : (l.take off).length = off := by simp [h]
  simp only [overwrite, List.getD_eq_getElem?_getD, append_assoc]
  by_cases h1 : x < off
  · rw [if_neg (by omega), List.getElem?_append_left (by omega), List.getElem?_take_of_lt h1]
  rw [List.getElem?_append_right (by omega), hl]
  by_cases h2 : x < off + q.length
  · rw [if_pos (by omega), List.getElem?_append_left (by omega)]
  · rw [if_neg (by omega), List.getElem?_append_right (by omega), List.getElem?_drop,
      show off + q.length + (x - off - q.length) = x by omega]

/-! ## Arrays as functions -/

section Arrays

variable {n : Nat}

def byteAt (b : Fin n → UInt8) (i : Nat) : UInt8 :=
  if h : i < n then b ⟨i, h⟩ else 0

def storeLE (b : Fin n → UInt8) (off k v : Nat) : Fin n → UInt8 :=
  fun i => if off ≤ i.val ∧ i.val < off + k then UInt8.ofNat (v / 256 ^ (i.val - off)) else b i

lemma byteAt_storeLE_inside (b : Fin n → UInt8) (off k v i : Nat) (hi : i < n)
    (h : off ≤ i ∧ i < off + k) :
    byteAt (storeLE b off k v) i = UInt8.ofNat (v / 256 ^ (i - off)) := by
  simp [byteAt, storeLE, hi, h]

lemma byteAt_storeLE_outside (b : Fin n → UInt8) (off k v i : Nat)
    (h : ¬(off ≤ i ∧ i < off + k)) : byteAt (storeLE b off k v) i = byteAt b i := by
  by_cases hi : i < n
  · simp [byteAt, storeLE, hi, h]
  · simp [byteAt, hi]

lemma loadLE_storeLE_disjoint (b : Fin n → UInt8) (off k v off' k' : Nat)
    (h : off' + k' ≤ off ∨ off + k ≤ off') :
    loadLE (byteAt (storeLE b off k v)) off' k' = loadLE (byteAt b) off' k' := by
  apply loadLE_congr
  intro i hl hu
  exact byteAt_storeLE_outside b off k v i (by omega)

lemma loadLE_storeLE_same (b : Fin n → UInt8) (off k v : Nat) (h : off + k ≤ n) :
    loadLE (byteAt (storeLE b off k v)) off k = v % 256 ^ k := by
  apply loadLE_shift
  intro j hj
  rw [byteAt_storeLE_inside b off k v (off + j) (by omega) (by omega)]
  congr 3
  omega

end Arrays

end Bytes

/-! ## Arrays as numbers -/

abbrev Packed (n : Nat) := BitVec (8 * n)

namespace Packed

open Bytes

variable {n : Nat}

def byteAt (b : Packed n) (i : Nat) : UInt8 := UInt8.ofNat (b.toNat / 256 ^ i)

def storeLE (b : Packed n) (off k v : Nat) : Packed n :=
  BitVec.ofNat (8 * n)
    (b.toNat % 256 ^ off + 256 ^ off * (v % 256 ^ k + 256 ^ k * (b.toNat / 256 ^ (off + k))))

/-- The number that the bytes `l` are the digits of. -/
def ofDigits : List UInt8 → Nat
  | [] => 0
  | x :: l => x.toNat + 256 * ofDigits l

def splice (b : Packed n) (off : Nat) (l : List UInt8) : Packed n :=
  b.storeLE off l.length (ofDigits l)

def setBit (b : Packed n) (k : Nat) : Packed n :=
  b.storeLE (k / 8) 1 (b.byteAt (k / 8) ||| mask k).toNat

def clearBit (b : Packed n) (k : Nat) : Packed n :=
  b.storeLE (k / 8) 1 (b.byteAt (k / 8) &&& ~~~mask k).toNat

lemma digit_low (a x m i : Nat) (hi : i < m) :
    (a + 256 ^ m * x) / 256 ^ i % 256 = a / 256 ^ i % 256 := by
  obtain ⟨d, rfl⟩ : ∃ d, m = i + (d + 1) := ⟨m - i - 1, by omega⟩
  rw [pow_add, Nat.mul_assoc, Nat.add_mul_div_left _ _ (by positivity), pow_succ', Nat.mul_assoc,
    Nat.add_mul_mod_self_left]

lemma div_high (a x m i : Nat) (ha : a < 256 ^ m) (hi : m ≤ i) :
    (a + 256 ^ m * x) / 256 ^ i = x / 256 ^ (i - m) := by
  obtain ⟨d, rfl⟩ : ∃ d, i = m + d := ⟨i - m, by omega⟩
  rw [pow_add, ← Nat.div_div_eq_div_mul, Nat.add_mul_div_left _ _ (by positivity),
    Nat.div_eq_of_lt ha, Nat.zero_add, Nat.add_sub_cancel_left]

lemma add_mul_lt (a x p q : Nat) (ha : a < p) (hx : x < q) : a + p * x < p * q := by
  calc a + p * x < p + p * x := by omega
    _ = p * (x + 1) := by ring
    _ ≤ p * q := Nat.mul_le_mul_left p hx

lemma toNat_lt (b : Packed n) : b.toNat < 256 ^ n := by
  have h := b.isLt
  rwa [pow_mul] at h

lemma toNat_storeLE (b : Packed n) (off k v : Nat) (h : off + k ≤ n) :
    (b.storeLE off k v).toNat =
      b.toNat % 256 ^ off + 256 ^ off * (v % 256 ^ k + 256 ^ k * (b.toNat / 256 ^ (off + k))) := by
  have hc : b.toNat / 256 ^ (off + k) < 256 ^ (n - (off + k)) := by
    rw [Nat.div_lt_iff_lt_mul (by positivity), ← pow_add, Nat.sub_add_cancel h]
    exact b.toNat_lt
  have hy := add_mul_lt (v % 256 ^ k) _ _ _ (Nat.mod_lt v (by positivity)) hc
  have hx := add_mul_lt (b.toNat % 256 ^ off) _ _ _ (Nat.mod_lt _ (by positivity)) hy
  rw [← pow_add, ← pow_add, show off + (k + (n - (off + k))) = n by omega] at hx
  rw [storeLE, BitVec.toNat_ofNat, pow_mul]
  exact Nat.mod_eq_of_lt hx

lemma byteAt_eq (b : Packed n) (i x : Nat) (h : b.toNat / 256 ^ i % 256 = x % 256) :
    b.byteAt i = UInt8.ofNat x := by
  apply UInt8.toNat_inj.mp
  simpa [byteAt] using h

lemma byteAt_storeLE (b : Packed n) (off k v i : Nat) (h : off + k ≤ n) :
    (b.storeLE off k v).byteAt i =
      if off ≤ i ∧ i < off + k then UInt8.ofNat (v / 256 ^ (i - off)) else b.byteAt i := by
  have hlt : b.toNat % 256 ^ off < 256 ^ off := Nat.mod_lt _ (by positivity)
  have hb : b.toNat = b.toNat % 256 ^ off + 256 ^ off * (b.toNat / 256 ^ off) :=
    (Nat.mod_add_div _ _).symm
  by_cases hlow : i < off
  · rw [if_neg (by omega)]
    apply byteAt_eq
    rw [toNat_storeLE b off k v h, digit_low _ _ _ _ hlow]
    conv_rhs => rw [hb, digit_low _ _ _ _ hlow]
  have hdiv := div_high _ (v % 256 ^ k + 256 ^ k * (b.toNat / 256 ^ (off + k))) off i hlt
    (by omega)
  by_cases hin : i < off + k
  · rw [if_pos (by omega)]
    apply byteAt_eq
    have hv := Nat.mod_add_div v (256 ^ k)
    rw [toNat_storeLE b off k v h, hdiv, digit_low _ _ _ _ (by omega)]
    conv_rhs => rw [← hv, digit_low _ _ _ _ (by omega)]
  · rw [if_neg (by omega)]
    apply byteAt_eq
    rw [toNat_storeLE b off k v h, hdiv, div_high _ _ _ _ (Nat.mod_lt _ (by positivity)) (by omega),
      Nat.div_div_eq_div_mul, ← pow_add, show off + k + (i - off - k) = i by omega]

lemma loadLE_storeLE_disjoint (b : Packed n) (off k v off' k' : Nat) (h : off + k ≤ n)
    (hd : off' + k' ≤ off ∨ off + k ≤ off') :
    loadLE (b.storeLE off k v).byteAt off' k' = loadLE b.byteAt off' k' := by
  apply loadLE_congr
  intro i hl hu
  rw [byteAt_storeLE b off k v i h, if_neg (by omega)]

lemma loadLE_storeLE_same (b : Packed n) (off k v : Nat) (h : off + k ≤ n) :
    loadLE (b.storeLE off k v).byteAt off k = v % 256 ^ k := by
  apply loadLE_shift
  intro j hj
  rw [byteAt_storeLE b off k v (off + j) h, if_pos (by omega), Nat.add_sub_cancel_left]

lemma loadLE_zero (off k : Nat) : loadLE (0 : Packed n).byteAt off k = 0 := by
  induction k generalizing off with
  | zero => rfl
  | succ k ih =>
    rw [loadLE, ih, byteAt]
    simp

lemma byteAt_storeLE_one (b : Packed n) (off i : Nat) (x : UInt8) (h : off < n) :
    (b.storeLE off 1 x.toNat).byteAt i = if i = off then x else b.byteAt i := by
  rw [byteAt_storeLE b off 1 x.toNat i h]
  by_cases hi : i = off
  · simp [hi]
  · rw [if_neg (by omega), if_neg hi]

lemma bitAt_setBit (b : Packed n) (k j : Nat) (hk : k / 8 < n) :
    bitAt (b.setBit k).byteAt j = (decide (j = k) || bitAt b.byteAt j) := by
  rw [bitAt_eq_testBit, bitAt_eq_testBit, setBit, byteAt_storeLE_one b (k / 8) (j / 8) _ hk]
  by_cases hd : j / 8 = k / 8
  · have he : k % 8 = j % 8 ↔ j = k := by omega
    rw [if_pos hd, UInt8.toNat_or, toNat_mask, Nat.testBit_or, Nat.testBit_two_pow, hd]
    simp only [he]
    exact Bool.or_comm _ _
  · have hne : j ≠ k := fun h => hd (by rw [h])
    simp [hd, hne]

lemma ofDigits_digit (l : List UInt8) (i : Nat) (h : i < l.length) :
    UInt8.ofNat (ofDigits l / 256 ^ i) = l.getD i 0 := by
  induction l generalizing i with
  | nil => simp at h
  | cons x l ih =>
    have hx : x.toNat < 256 := x.toNat_lt
    cases i with
    | zero =>
      apply UInt8.toNat_inj.mp
      simp [ofDigits]
    | succ i =>
      have hd : (x.toNat + 256 * ofDigits l) / 256 ^ (i + 1) = ofDigits l / 256 ^ i := by
        rw [pow_succ', ← Nat.div_div_eq_div_mul]
        congr 1
        omega
      rw [ofDigits, hd, ih i (by simpa using h)]
      simp

lemma byteAt_splice (b : Packed n) (off i : Nat) (l : List UInt8) (h : off + l.length ≤ n) :
    (b.splice off l).byteAt i =
      if off ≤ i ∧ i < off + l.length then l.getD (i - off) 0 else b.byteAt i := by
  rw [splice, byteAt_storeLE b off _ _ i h]
  by_cases hi : off ≤ i ∧ i < off + l.length
  · rw [if_pos hi, if_pos hi, ofDigits_digit l (i - off) (by omega)]
  · rw [if_neg hi, if_neg hi]

end Packed
