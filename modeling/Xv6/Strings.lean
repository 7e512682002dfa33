import Mathlib.Algebra.Group.Nat.Defs
import Mathlib.Logic.Function.Basic
import Mathlib.Tactic.Common

/-!
# `memmove` of the kernel and of the user library (`string.c`, `ulib.c`)

Addresses are below `2^32`, and a pointer behind the last address is 0.
-/

namespace Xv6.Strings

/-- Memory by addresses. -/
abbrev Mem := Nat → UInt8

/-- `while(n-- > 0) *d++ = *s++`. -/
def copyUp : Nat → Nat → Nat → Mem → Mem
  | 0, _, _, m => m
  | n + 1, d, s, m => copyUp n (d + 1) (s + 1) (Function.update m d (m s))

/-- `while(n-- > 0) *--d = *--s`. -/
def copyDown : Nat → Nat → Nat → Mem → Mem
  | 0, _, _, m => m
  | n + 1, d, s, m => copyDown n (d - 1) (s - 1) (Function.update m (d - 1) (m (s - 1)))

/-- `memmove` of `string.c`. -/
def kmemmove (dst src n : Nat) (m : Mem) : Mem :=
  if src < dst ∧ (src + n) % 2 ^ 32 > dst then copyDown n (dst + n) (src + n) m else copyUp n dst src m

/-- `memmove` of `ulib.c`, for `n` that is not negative. -/
def umemmove (dst src n : Nat) (m : Mem) : Mem := copyUp n dst src m

/-- The bytes at `dst` are the old ones at `src`, and no other byte has changed. -/
structure Moved (dst src n : Nat) (m m' : Mem) : Prop where
  moved : ∀ i, i < n → m' (dst + i) = m (src + i)
  others : ∀ a, a < dst ∨ dst + n ≤ a → m' a = m a

variable {dst src n : Nat} {m : Mem}

lemma copyUp_others {a : Nat} (ha : a < dst ∨ dst + n ≤ a) : copyUp n dst src m a = m a := by
  induction n generalizing dst src m with
  | zero => rfl
  | succ n ih => rw [copyUp, ih (by omega), Function.update_of_ne (by omega)]

/-- Upwards, the bytes between `src` and `dst` are copied over and over if `dst` is above `src`. -/
lemma copyUp_at {i : Nat} (hi : i < n) : copyUp n dst src m (dst + i) = m (src + i % (dst - src)) := by
  induction n generalizing dst src m i with
  | zero => omega
  | succ n ih =>
    rw [copyUp]
    cases i with
    | zero => rw [copyUp_others (by omega), Nat.add_zero, Function.update_self, Nat.zero_mod, Nat.add_zero]
    | succ i =>
      rw [← Nat.add_assoc, Nat.add_right_comm, ih (by omega), Nat.add_sub_add_right]
      have hnext : (i + 1) % (dst - src) = (i % (dst - src) + 1) % (dst - src) := (Nat.mod_add_mod _ _ _).symm
      by_cases hwrap : src + 1 + i % (dst - src) = dst
      · -- the byte was overwritten with the first one
        have hfull : i % (dst - src) + 1 = dst - src := by omega
        rw [hwrap, Function.update_self, hnext, hfull, Nat.mod_self, Nat.add_zero]
      · have hsmall : (i % (dst - src) + 1) % (dst - src) = i % (dst - src) + 1 := by
          rcases Nat.eq_zero_or_pos (dst - src) with h0 | hpos
          · rw [h0, Nat.mod_zero]
          · have := Nat.mod_lt i hpos
            exact Nat.mod_eq_of_lt (by omega)
        rw [Function.update_of_ne hwrap, hnext, hsmall, Nat.add_assoc, Nat.add_comm 1]

lemma copyUp_moved_iff :
    Moved dst src n m (copyUp n dst src m) ↔ ∀ i, i < n → m (src + i % (dst - src)) = m (src + i) := by
  refine ⟨fun h i hi => (copyUp_at hi).symm.trans (h.moved i hi), fun h => ⟨fun i hi => ?_, fun a => copyUp_others⟩⟩
  exact (copyUp_at hi).trans (h i hi)

lemma copyUp_moved (h : ¬(src < dst ∧ dst < src + n)) : Moved dst src n m (copyUp n dst src m) := by
  refine copyUp_moved_iff.mpr fun i hi => ?_
  rcases Nat.eq_zero_or_pos (dst - src) with h0 | hpos
  · rw [h0, Nat.mod_zero]
  · rw [Nat.mod_eq_of_lt (by omega)]

lemma copyDown_moved (h : src ≤ dst) : Moved dst src n m (copyDown n (dst + n) (src + n) m) := by
  induction n generalizing m with
  | zero => exact ⟨nofun, fun _ _ => rfl⟩
  | succ n ih =>
    obtain ⟨hmoved, hothers⟩ := ih (m := Function.update m (dst + n) (m (src + n)))
    rw [copyDown]
    refine ⟨fun i hi => ?_, fun a ha => ?_⟩
    · rcases Nat.lt_succ_iff_lt_or_eq.mp hi with hi | rfl
      · exact (hmoved i hi).trans (Function.update_of_ne (by omega) _ _)
      · exact (hothers _ (.inr (Nat.le_refl _))).trans (Function.update_self _ _ _)
    · exact (hothers a (by omega)).trans (Function.update_of_ne (by omega) _ _)

/-- The kernel's `memmove` is right for all ranges. The one of the user library is right for all memories unless `dst`
is inside the source and above its beginning, and there for those that repeat themselves. -/
theorem memmove_moves (dst src n : Nat) (hdst : dst + n ≤ 2 ^ 32) (hsrc : src + n ≤ 2 ^ 32) :
    (∀ m, Moved dst src n m (kmemmove dst src n m)) ∧
    (∀ m, Moved dst src n m (umemmove dst src n m) ↔ ∀ i, i < n → m (src + i % (dst - src)) = m (src + i)) ∧
    ((∀ m, Moved dst src n m (umemmove dst src n m)) ↔ ¬(src < dst ∧ dst < src + n)) := by
  refine ⟨fun m => ?_, fun m => copyUp_moved_iff, ?_, fun h m => copyUp_moved h⟩
  · rw [kmemmove]
    split
    · exact copyDown_moved (by omega)
    · exact copyUp_moved (by omega)
  · rintro h ⟨hlt, hin⟩
    -- the byte at `dst` is overwritten before it is read
    have hdiff := copyUp_moved_iff.mp (h fun a => if a = dst then 1 else 0) (dst - src) (by omega)
    rw [Nat.mod_self, Nat.add_zero, if_neg (by omega), if_pos (by omega)] at hdiff
    cases hdiff

theorem memmove_moves_up : Moved 0 1 2 (fun a => .ofNat a) (umemmove 0 1 2 fun a => .ofNat a) :=
  (memmove_moves 0 1 2 (by decide) (by decide)).2.2.mpr (by decide) _

/-- Two bytes are moved up by one: the first is copied twice. -/
theorem umemmove_overlap :
    1 + 2 ≤ 2 ^ 32 ∧ 0 + 2 ≤ 2 ^ 32 ∧ ¬Moved 1 0 2 (fun a => .ofNat a) (umemmove 1 0 2 fun a => .ofNat a) :=
  ⟨by decide, by decide, fun h => absurd (h.moved 1 (by decide)) (by decide)⟩

end Xv6.Strings
