import Mathlib.Tactic.NormNum.Prime
import Xv6.Lib.Lehmer
import Xv6.Proofs.RandomStreams

/-!
# The period of the streams

The modulus `2^31 - 1` is prime and the multiplier a primitive root of it, so that the one orbit of
the stream update has all values from 1 to `2^31 - 2`. The initial seeds stand 100000 updates apart
on it.
-/

namespace Xv6.Random

lemma M_sub_one : M - 1 = 2 * 3 ^ 2 * 7 * 11 * 31 * 151 * 331 := by decide

lemma prime_dvd_M_sub_one {q : ℕ} (hq : q.Prime) (h : q ∣ M - 1) :
    q = 2 ∨ q = 3 ∨ q = 7 ∨ q = 11 ∨ q = 31 ∨ q = 151 ∨ q = 331 := by
  rw [M_sub_one] at h
  simp only [hq.dvd_mul] at h
  have hprime : ∀ r : ℕ, r.Prime → q ∣ r → q = r := fun r hr hd => (Nat.prime_dvd_prime_iff_eq hq hr).mp hd
  rcases h with ((((((h | h) | h) | h) | h) | h) | h)
  · exact .inl (hprime 2 (by norm_num) h)
  · exact .inr (.inl (hprime 3 (by norm_num) (hq.dvd_of_dvd_pow h)))
  · exact .inr (.inr (.inl (hprime 7 (by norm_num) h)))
  · exact .inr (.inr (.inr (.inl (hprime 11 (by norm_num) h))))
  · exact .inr (.inr (.inr (.inr (.inl (hprime 31 (by norm_num) h)))))
  · exact .inr (.inr (.inr (.inr (.inr (.inl (hprime 151 (by norm_num) h))))))
  · exact .inr (.inr (.inr (.inr (.inr (.inr (hprime 331 (by norm_num) h))))))

lemma full : Lehmer.Full M A := by
  have hpow : ∀ n, n < 2 ^ 31 → A ^ n % M = Lehmer.powMod M 31 A n := fun n hn => (Lehmer.powMod_eq 31 hn).symm
  apply Lehmer.full_of_pow
  · decide
  · rw [hpow _ (by decide)]
    decide +kernel
  · intro q hq hd
    rw [hpow _ ((Nat.div_le_self _ _).trans_lt (by decide))]
    rcases prime_dvd_M_sub_one hq hd with rfl | rfl | rfl | rfl | rfl | rfl | rfl <;> decide +kernel

lemma toNat_iterate {s : Word} (hs : InGroup s) (n : ℕ) : (nextState^[n] s).toNat = A ^ n * s.toNat % M := by
  have hlt : ∀ n, (nextState^[n] s).toNat < M := by
    intro n
    induction n with
    | zero => exact (inGroup_iff.mp hs).2
    | succ n ih =>
      rw [Function.iterate_succ_apply', toNat_nextState ih]
      exact Nat.mod_lt _ M_pos
  induction n with
  | zero => simp [Nat.mod_eq_of_lt (inGroup_iff.mp hs).2]
  | succ n ih =>
    rw [Function.iterate_succ_apply', toNat_nextState (hlt n), ih, Nat.mul_mod_mod, ← mul_assoc, ← pow_succ']

/-- The stream update of `sys_random` and of `sys_random_set` visits every state once before it is
back where it started. -/
theorem full_period {s : Word} (hs : InGroup s) :
    nextState^[2 ^ 31 - 2] s = s ∧ (∀ t, InGroup t → ∃! n, n < 2 ^ 31 - 2 ∧ nextState^[n] s = t) ∧
      (∀ g : Gen, selected g.seed → g.entry g.seed.toInt = s → ∃ v g' used, sysRandom g = .ret v g' used ∧
        g'.entry g.seed.toInt = nextState s) ∧
      (∀ (u : User) (g : Gen) (k : Word), (argint u 0).1 = some k → selected k → g.entry k.toInt = s →
        ∃ v g' used, sysRandomSet u g = .ret v g' used ∧ g'.entry k.toInt = nextState s) := by
  obtain ⟨hpos, hlt⟩ := inGroup_iff.mp hs
  have heq : ∀ i j, nextState^[i] s = nextState^[j] s ↔ i ≡ j [MOD M - 1] := by
    intro i j
    rw [← BitVec.toNat_inj, toNat_iterate hs, toNat_iterate hs]
    exact full.pow_mul_eq_iff hpos hlt
  refine ⟨?_, fun t ht => ?_, calls_store s⟩
  · have hround := (heq (2 ^ 31 - 2) 0).mpr (by decide)
    exact hround
  · obtain ⟨htpos, htlt⟩ := inGroup_iff.mp ht
    obtain ⟨n, hn, he⟩ := full.exists_pow hpos hlt htpos htlt
    refine ⟨n, ⟨hn, BitVec.toNat_inj.mp ((toNat_iterate hs n).trans he)⟩, ?_⟩
    rintro j ⟨hj, hjt⟩
    change j < M - 1 at hj
    have hmod : j ≡ n [MOD M - 1] :=
      (heq j n).mp (hjt.trans (BitVec.toNat_inj.mp ((toNat_iterate hs n).trans he)).symm)
    rwa [Nat.ModEq, Nat.mod_eq_of_lt hj, Nat.mod_eq_of_lt hn] at hmod

theorem full_period_of_one : InGroup 1 ∧ nextState^[2 ^ 31 - 2] 1 = 1 := by
  have hone : InGroup 1 := by decide
  exact ⟨hone, (full_period hone).1⟩

/-! ## The spacing of the seeds -/

/-- Each initial seed is 100000 updates after the one before it. -/
lemma zrngInit_succ : ∀ k : Fin 99, (zrngInit.get ⟨k + 2, by omega⟩).toNat =
    Lehmer.powMod M 17 A 100000 * (zrngInit.get ⟨k + 1, by omega⟩).toNat % M := by
  decide +kernel

lemma zrngInit_pow {k : ℕ} (h1 : 1 ≤ k) (h2 : k ≤ 100) :
    (zrngInit.get ⟨k, by omega⟩).toNat = A ^ (100000 * (k - 1)) * (zrngInit.get 1).toNat % M := by
  induction k, h1 using Nat.le_induction with
  | base =>
    have hone : (zrngInit.get 1).toNat = 1 * (zrngInit.get 1).toNat % M := by decide +kernel
    exact hone
  | succ k h1 ih =>
    obtain ⟨j, rfl⟩ := Nat.exists_eq_add_of_le' h1
    have hstep := zrngInit_succ ⟨j, by omega⟩
    rw [Lehmer.powMod_eq 17 (by decide)] at hstep
    rw [hstep, ih (by omega), Nat.mul_mod_mod, Nat.mod_mul_mod, ← mul_assoc, ← pow_add]
    congr 3
    omega

/-- The first 100000 states of each stream are no other stream's. -/
theorem streams_disjoint {i j : Int} (hi1 : 1 ≤ i) (hi2 : i ≤ 100) (hj1 : 1 ≤ j) (hj2 : j ≤ 100) (hij : i ≠ j)
    {a b : ℕ} (ha : a < 100000) (hb : b < 100000) :
    nextState^[a] (genInit.entry i) ≠ nextState^[b] (genInit.entry j) := by
  have hstate : ∀ (k : Int) (n : ℕ), 1 ≤ k → k ≤ 100 → (nextState^[n] (genInit.entry k)).toNat =
      A ^ (n + 100000 * (k.toNat - 1)) * (zrngInit.get 1).toNat % M := by
    intro k n h1 h2
    have hentry : genInit.entry k = zrngInit.get ⟨k.toNat, by omega⟩ := by
      unfold Gen.entry genInit
      rw [Vector.getElem?_eq_getElem (by omega)]
      rfl
    rw [toNat_iterate (entry_genInit h1 h2), hentry, zrngInit_pow (by omega) (by omega), Nat.mul_mod_mod, ← mul_assoc,
      ← pow_add]
  intro he
  have hmod := congrArg BitVec.toNat he
  rw [hstate i a hi1 hi2, hstate j b hj1 hj2, full.pow_mul_eq_iff (by decide +kernel) (by decide +kernel), Nat.ModEq,
    Nat.mod_eq_of_lt (by unfold M; omega), Nat.mod_eq_of_lt (by unfold M; omega)] at hmod
  omega

theorem streams_disjoint_first :
    nextState^[99999] (genInit.entry 1) ≠ nextState^[0] (genInit.entry 2) :=
  streams_disjoint (by decide) (by decide) (by decide) (by decide) (by decide) (by decide) (by decide)

end Xv6.Random
