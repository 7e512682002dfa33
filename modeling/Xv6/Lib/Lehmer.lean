import Mathlib.GroupTheory.OrderOfElement
import Mathlib.NumberTheory.LucasPrimality
import Mathlib.FieldTheory.Finite.Basic

/-!
# Multiplicative generators

The orbits of `x ↦ a * x % m` for a prime `m` and a primitive root `a`.
-/

namespace Lehmer

variable {m a i j s t : ℕ}

/-- The modulus is prime and the multiplier a primitive root of it. -/
structure Full (m a : ℕ) : Prop where
  prime : m.Prime
  order : orderOf (a : ZMod m) = m - 1

lemma cast_pow_eq_one_iff (hm : 1 < m) (n : ℕ) : (a : ZMod m) ^ n = 1 ↔ a ^ n % m = 1 := by
  rw [← Nat.cast_pow, ← Nat.cast_one, ZMod.natCast_eq_natCast_iff', Nat.mod_eq_of_lt hm]

lemma full_of_pow (hm : 1 < m) (h1 : a ^ (m - 1) % m = 1)
    (hq : ∀ q, q.Prime → q ∣ m - 1 → a ^ ((m - 1) / q) % m ≠ 1) : Full m a := by
  have hone : (a : ZMod m) ^ (m - 1) = 1 := (cast_pow_eq_one_iff hm _).mpr h1
  have hne : ∀ q, q.Prime → q ∣ m - 1 → (a : ZMod m) ^ ((m - 1) / q) ≠ 1 := fun q hp hd h =>
    hq q hp hd ((cast_pow_eq_one_iff hm _).mp h)
  exact ⟨lucas_primality m a hone hne, orderOf_eq_of_pow_and_pow_div_prime (by omega) hone hne⟩

/-- `a ^ n % m` for a number `n` of `k` bits, by repeated squaring. -/
def powMod (m : ℕ) : ℕ → ℕ → ℕ → ℕ
  | 0, _, _ => 1 % m
  | k + 1, a, n => (if n % 2 = 0 then 1 else a) * powMod m k (a * a % m) (n / 2) % m

lemma powMod_eq (k : ℕ) {n : ℕ} (h : n < 2 ^ k) : powMod m k a n = a ^ n % m := by
  induction k generalizing a n with
  | zero =>
    obtain rfl : n = 0 := by simpa using h
    rfl
  | succ k ih =>
    rw [powMod, ih (by rw [pow_succ] at h; omega), ← Nat.pow_mod, Nat.mul_mod_mod, ← sq, ← pow_mul]
    congr 1
    split
    · rw [one_mul, show 2 * (n / 2) = n by omega]
    · rw [← pow_succ', show 2 * (n / 2) + 1 = n by omega]

lemma cast_ne_zero (h0 : 0 < s) (h : s < m) : (s : ZMod m) ≠ 0 := by
  rw [Ne, ZMod.natCast_eq_zero_iff]
  exact Nat.not_dvd_of_pos_of_lt h0 h

lemma Full.cast_ne_zero (h : Full m a) : (a : ZMod m) ≠ 0 := by
  have := Fact.mk h.prime
  intro ha
  have hord := h.order
  rw [ha, orderOf_zero] at hord
  have := h.prime.two_le
  have : m = 1 := by omega
  omega

lemma Full.pow_mul_eq_iff (h : Full m a) (h0 : 0 < s) (hs : s < m) :
    a ^ i * s % m = a ^ j * s % m ↔ i ≡ j [MOD m - 1] := by
  have := Fact.mk h.prime
  let u : (ZMod m)ˣ := Units.mk0 a h.cast_ne_zero
  have horder : orderOf u = m - 1 := by
    rw [← orderOf_units, ← h.order]
    rfl
  have hpow : (a : ZMod m) ^ i = (a : ZMod m) ^ j ↔ u ^ i = u ^ j := by
    rw [Units.ext_iff, Units.val_pow_eq_pow_val, Units.val_pow_eq_pow_val]
    rfl
  rw [← ZMod.natCast_eq_natCast_iff', Nat.cast_mul, Nat.cast_mul, mul_left_inj' (Lehmer.cast_ne_zero h0 hs),
    Nat.cast_pow, Nat.cast_pow, hpow, pow_eq_pow_iff_modEq, horder]

lemma Full.pos_of_pow (h : Full m a) (h0 : 0 < s) (hs : s < m) (i : ℕ) : 0 < a ^ i * s % m := by
  have := Fact.mk h.prime
  rw [Nat.pos_iff_ne_zero, Ne, ← Nat.dvd_iff_mod_eq_zero, ← ZMod.natCast_eq_zero_iff, Nat.cast_mul, Nat.cast_pow]
  exact mul_ne_zero (pow_ne_zero i h.cast_ne_zero) (Lehmer.cast_ne_zero h0 hs)

lemma Full.exists_pow (h : Full m a) (h0 : 0 < s) (hs : s < m) (ht0 : 0 < t) (ht : t < m) :
    ∃ i < m - 1, a ^ i * s % m = t := by
  have hmaps : Set.MapsTo (fun i => a ^ i * s % m) (Finset.range (m - 1)) (Finset.Ioo 0 m) := fun i _ =>
    Finset.mem_coe.mpr (Finset.mem_Ioo.mpr ⟨h.pos_of_pow h0 hs i, Nat.mod_lt _ (by omega)⟩)
  have hinj : Set.InjOn (fun i => a ^ i * s % m) (Finset.range (m - 1)) := by
    intro i hi j hj he
    have hmod := (h.pow_mul_eq_iff h0 hs).mp he
    rwa [Nat.ModEq, Nat.mod_eq_of_lt (Finset.mem_range.mp hi), Nat.mod_eq_of_lt (Finset.mem_range.mp hj)] at hmod
  have hsurj := Finset.surjOn_of_injOn_of_card_le _ hmaps hinj (by simp)
  obtain ⟨i, hi, he⟩ := hsurj (Finset.mem_coe.mpr (Finset.mem_Ioo.mpr ⟨ht0, ht⟩))
  exact ⟨i, Finset.mem_range.mp hi, he⟩

end Lehmer
