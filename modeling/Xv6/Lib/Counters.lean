import Mathlib.Data.Nat.ModEq
import Mathlib.Tactic.Common

/-!
# Rings with wrapping counters

As `2^32` is a multiple of the capacity, consecutive counter values are consecutive in the ring.
-/

namespace Counters

open List

variable {α : Type} {store store' : Nat → α} {cap n : Nat} {r w e : UInt32}

/-- How far `e` is ahead of `r`, whatever the counters have wrapped. -/
def dist (r e : UInt32) : Nat := (e - r).toNat

lemma dist_eq (r e : UInt32) : dist r e = (2 ^ 32 - r.toNat + e.toNat) % 2 ^ 32 := UInt32.toNat_sub _ _

lemma dist_self (r : UInt32) : dist r r = 0 := by simp [dist]

lemma dist_eq_zero : dist r e = 0 ↔ r = e := by
  have hr := r.toNat_lt
  have he := e.toNat_lt
  rw [dist_eq, ← UInt32.toNat_inj]
  omega

lemma dist_succ (h : dist r e + 1 < 2 ^ 32) : dist r (e + 1) = dist r e + 1 := by
  have hone : (1 : UInt32).toNat = 1 := rfl
  simp only [dist_eq, UInt32.toNat_add, hone] at h ⊢
  omega

lemma dist_pred (h : 0 < dist r e) : dist r (e - 1) + 1 = dist r e := by
  have hone : (1 : UInt32).toNat = 1 := rfl
  simp only [dist_eq, UInt32.toNat_sub, hone] at h ⊢
  omega

lemma dist_behind (h : 0 < dist r e) : dist (r + 1) e + 1 = dist r e := by
  have hr := r.toNat_lt
  have hone : (1 : UInt32).toNat = 1 := rfl
  simp only [dist_eq, UInt32.toNat_add, hone] at h ⊢
  omega

lemma dist_add (h : dist r w ≤ dist r e) : dist r w + dist w e = dist r e := by
  have hw := w.toNat_lt
  simp only [dist_eq] at h ⊢
  omega

lemma place_eq (hcap : cap ∣ 2 ^ 32) : e.toNat % cap = (r.toNat + dist r e) % cap := by
  obtain ⟨m, hm⟩ := hcap
  have hr := r.toNat_lt
  have he := e.toNat_lt
  have hsum : r.toNat + dist r e = e.toNat ∨ r.toNat + dist r e = e.toNat + cap * m := by
    rw [← hm, dist_eq]
    omega
  rcases hsum with h | h
  · rw [h]
  · rw [h, Nat.add_mul_mod_self_left]

/-- `n` elements from counter `r` on, as they lie in the ring. -/
def span (store : Nat → α) (cap : Nat) (r : UInt32) (n : Nat) : List α :=
  (List.range n).map fun k => store ((r.toNat + k) % cap)

@[simp] lemma length_span : (span store cap r n).length = n := by simp [span]

lemma span_zero : span store cap r 0 = [] := rfl

lemma span_succ : span store cap r (n + 1) = span store cap r n ++ [store ((r.toNat + n) % cap)] := by
  simp [span, range_succ]

lemma span_cons (hcap : cap ∣ 2 ^ 32) :
    span store cap r (n + 1) = store (r.toNat % cap) :: span store cap (r + 1) n := by
  have hplace : ∀ k, ((r + 1).toNat + k) % cap = (r.toNat + (k + 1)) % cap := by
    intro k
    have hdist : dist r (r + 1) = 1 := by
      rw [dist_succ (by rw [dist_self]; decide), dist_self]
    have h1 : (r + 1).toNat % cap = (r.toNat + 1) % cap := by rw [place_eq hcap (r := r), hdist]
    calc ((r + 1).toNat + k) % cap = ((r + 1).toNat % cap + k) % cap := (Nat.mod_add_mod _ _ _).symm
      _ = ((r.toNat + 1) % cap + k) % cap := by rw [h1]
      _ = (r.toNat + 1 + k) % cap := Nat.mod_add_mod _ _ _
      _ = (r.toNat + (k + 1)) % cap := by rw [Nat.add_assoc, Nat.add_comm 1 k]
  simp only [span, range_succ_eq_map, map_cons, map_map, Function.comp_def, hplace]
  simp

lemma take_span {k : Nat} (h : k ≤ n) : (span store cap r n).take k = span store cap r k := by
  rw [span, span, ← map_take, take_range, Nat.min_eq_left h]

lemma drop_span (hcap : cap ∣ 2 ^ 32) :
    (span store cap r n).drop (dist r w) = span store cap w (n - dist r w) := by
  apply ext_getElem
  · simp
  intro i h1 h2
  simp only [span, getElem_drop, getElem_map, getElem_range]
  congr 1
  calc (r.toNat + (dist r w + i)) % cap = ((r.toNat + dist r w) % cap + i) % cap := by
        rw [Nat.mod_add_mod, Nat.add_assoc]
    _ = (w.toNat % cap + i) % cap := by rw [← place_eq hcap]
    _ = (w.toNat + i) % cap := Nat.mod_add_mod _ _ _

lemma span_put (h : n < cap) (hsame : ∀ i, i ≠ (r.toNat + n) % cap → store' i = store i) :
    span store' cap r (n + 1) = span store cap r n ++ [store' ((r.toNat + n) % cap)] := by
  rw [span_succ]
  congr 1
  refine map_congr_left fun k hk => hsame _ ?_
  rw [mem_range] at hk
  intro hc
  have hmod : (r.toNat + k) % cap = (r.toNat + n) % cap := hc
  have hdvd : cap ∣ n - k := by
    have hle : r.toNat + k ≤ r.toNat + n := by omega
    have := (Nat.modEq_iff_dvd' hle).mp hmod
    rwa [Nat.add_sub_add_left] at this
  exact absurd (Nat.le_of_dvd (by omega) hdvd) (by omega)

end Counters
