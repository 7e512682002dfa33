import Mathlib.Algebra.Order.Field.Basic
import Mathlib.Tactic.FieldSimp
import Mathlib.Tactic.Positivity
import Xv6.Proofs.RandomStreams

/-!
# Exact updates, random values and rejected selections

The value that `random` returns divides by the literal 1667772116, about a hundred times `2^24`.
`random_set` stores its argument before it checks it.
-/

namespace Xv6.Random

/-! ## The update in exact arithmetic -/

/-- The result of an operation on signed `long`s, if it does not overflow. -/
def fits (n : Int) : Option Int := if -2 ^ 31 ≤ n ∧ n < 2 ^ 31 then some n else none

/-- `mulStep` over exact integers. Masks and shifts to the right are remainders and quotients, which
cannot overflow. -/
def exactStep (zi mult : Int) : Option Int := do
  let lowprd ← fits (zi % 65536 * mult)
  let high ← fits (zi / 65536 * mult)
  let hi3l ← fits (high + lowprd / 65536)
  let low ← fits (lowprd % 65536 - 2147483647)
  let fold ← fits (hi3l % 32768 * 65536)
  let sum ← fits (low + fold)
  let zi ← fits (sum + hi3l / 32768)
  if zi < 0 then fits (zi + 2147483647) else some zi

def exactUpdate (zi : Int) : Option Int := do exactStep (← exactStep zi 24112) 26143

lemma fits_of {n : Int} (h : -2 ^ 31 ≤ n ∧ n < 2 ^ 31) : fits n = some n := if_pos h

lemma fits_bind {n : Int} {f : Int → Option Int} (h : -2 ^ 31 ≤ n ∧ n < 2 ^ 31) : (fits n).bind f = f n := by
  rw [fits_of h, Option.bind_some]

lemma exactStep_eq {z m : Nat} (hz : z < 2 ^ 31) (hm : m < 2 ^ 15) :
    exactStep z m = some ((z * m % M : Nat) : Int) := by
  obtain ⟨hlow, hhi, hsum, hmod⟩ := fold_product hz hm rfl rfl
  have e1 : (z : Int) % 65536 * m = ((z % 65536 * m : Nat) : Int) := by push_cast; rfl
  have e2 : (z : Int) / 65536 * m = ((z / 65536 * m : Nat) : Int) := by push_cast; rfl
  unfold exactStep
  rw [e1, e2, ← hmod]
  generalize z % 65536 * m = low at *
  generalize z / 65536 * m = high at *
  unfold M at *
  rw [Option.bind_eq_bind, fits_bind (by omega), fits_bind (by omega), fits_bind (by omega), fits_bind (by omega),
    fits_bind (by omega), fits_bind (by omega), fits_bind (by omega)]
  split
  · rw [fits_of (by omega), Option.some.injEq]
    omega
  · rw [Option.some.injEq]
    omega

lemma toInt_of_lt {x : Word} (h : x.toNat < M) : x.toInt = x.toNat := by
  rw [BitVec.toInt_eq_toNat_cond, if_pos (by unfold M at h; omega)]

/-- No operation of the update overflows, and what both calls store is the product modulo `2^31 - 1`. -/
theorem update_exact {zi : Word} (h : InGroup zi) :
    exactUpdate zi.toInt = some (24112 * 26143 * zi.toInt % (2 ^ 31 - 1)) ∧
      (nextState zi).toInt = 24112 * 26143 * zi.toInt % (2 ^ 31 - 1) ∧ InGroup (nextState zi) ∧
      (∀ g : Gen, selected g.seed → g.entry g.seed.toInt = zi →
        ∃ v g' used, sysRandom g = .ret v g' used ∧ g'.entry g.seed.toInt = nextState zi) ∧
      ∀ (u : User) (g : Gen) (k : Word), (argint u 0).1 = some k → selected k → g.entry k.toInt = zi →
        ∃ v g' used, sysRandomSet u g = .ret v g' used ∧ g'.entry k.toInt = nextState zi := by
  obtain ⟨-, hlt⟩ := inGroup_iff.mp h
  have hnext := toNat_nextState hlt
  have hM : (M : Int) = 2 ^ 31 - 1 := by decide
  refine ⟨?_, ?_, h.nextState, calls_store zi⟩
  · have hone : zi.toNat * 24112 % M < 2 ^ 31 := (Nat.mod_lt _ M_pos).trans (by decide)
    have hfirst := exactStep_eq (m := 24112) (hlt.trans (by decide)) (by decide)
    have hsecond := exactStep_eq (m := 26143) hone (by decide)
    rw [Nat.mod_mul_mod, show zi.toNat * 24112 * 26143 = 24112 * 26143 * zi.toNat by ring] at hsecond
    simp only [Nat.cast_ofNat] at hfirst hsecond
    unfold exactUpdate
    rw [toInt_of_lt hlt, hfirst, Option.bind_eq_bind, Option.bind_some, hsecond, ← hM]
    push_cast
    rfl
  · rw [toInt_of_lt (by rw [hnext]; exact Nat.mod_lt _ M_pos), hnext, toInt_of_lt hlt, ← hM]
    rfl

theorem update_exact_one : InGroup 1 ∧ (nextState 1).toInt = 24112 * 26143 * 1 % (2 ^ 31 - 1) :=
  ⟨by decide, (update_exact (show InGroup 1 by decide)).2.1⟩

/-! ## Values -/

lemma or_one (n : Nat) : n ||| 1 = n / 2 * 2 + 1 := by
  have hsplit : n = 2 ^ 1 * (n / 2) ||| n % 2 := by
    rw [← Nat.two_pow_add_eq_or_of_lt (by omega)]
    omega
  have hlast : n % 2 ||| 1 = 1 := by
    rcases Nat.mod_two_eq_zero_or_one n with h | h <;> rw [h] <;> rfl
  rw [hsplit, Nat.or_assoc, hlast, ← Nat.two_pow_add_eq_or_of_lt (by omega), ← hsplit]
  omega

lemma scaled_eq {zi : Word} (h : zi.toNat < M) : scaled zi = ((2 * (zi.toNat / 256) + 2 : Nat) : ℚ) / 1667772116 := by
  have hlt : zi.toNat < 2 ^ 31 := h.trans (by decide)
  have hnat : ((zi.sshiftRight 7 ||| 1) + 1).toNat = 2 * (zi.toNat / 256) + 2 := by
    have hone : (1 : Word).toNat = 1 := rfl
    rw [BitVec.toNat_add, BitVec.toNat_or, toNat_sshiftRight_of_lt hlt, hone, or_one]
    omega
  unfold scaled
  rw [toInt_of_lt (by rw [hnat]; unfold M; omega), hnat, Int.cast_natCast]

/-- The value lies in the unit interval, but it approximates the ratio for the first 519 states only. -/
theorem value_near_ratio_iff {zi : Word} (h : InGroup zi) :
    (0 < scaled zi ∧ scaled zi ≤ 1) ∧
      (|scaled zi - (zi.toInt : ℚ) / (2 ^ 31 - 1)| ≤ 1 / 2 ^ 22 ↔ zi.toInt ≤ 519) := by
  obtain ⟨-, hlt⟩ := inGroup_iff.mp h
  rw [scaled_eq hlt, toInt_of_lt hlt]
  unfold M at hlt
  generalize zi.toNat = n at hlt ⊢
  obtain ⟨k, hk⟩ : ∃ k, k = n / 256 := ⟨_, rfl⟩
  have hbound : 2 * k + 2 ≤ 1667772116 := by omega
  rw [← hk]
  refine ⟨⟨by positivity, ?_⟩, ?_⟩
  · rw [div_le_one (by norm_num)]
    exact_mod_cast hbound
  · obtain ⟨D, hD⟩ : ∃ D : Int, D = (2 * k + 2) * 2147483647 - n * 1667772116 := ⟨_, rfl⟩
    have hdiff : ((2 * k + 2 : Nat) : ℚ) / 1667772116 - ((n : Int) : ℚ) / (2 ^ 31 - 1) =
        (D : ℚ) / (1667772116 * 2147483647) := by
      rw [hD]
      push_cast
      field_simp
      norm_num
      ring
    rw [hdiff, abs_div, abs_of_pos (show (0 : ℚ) < 1667772116 * 2147483647 by norm_num),
      div_le_div_iff₀ (by norm_num) (by norm_num), ← Int.cast_abs]
    norm_cast
    rcases abs_cases D with ⟨habs, hsign⟩ | ⟨habs, hsign⟩ <;> rw [habs] <;> omega

theorem value_near_ratio_first : InGroup 1 ∧ |scaled 1 - ((1 : Word).toInt : ℚ) / (2 ^ 31 - 1)| ≤ 1 / 2 ^ 22 :=
  ⟨by decide, (value_near_ratio_iff (show InGroup 1 by decide)).2.mpr (by decide)⟩

/-- The largest state gives a value of about 0.01. -/
theorem value_of_largest : InGroup 2147483646 ∧
    ¬|scaled 2147483646 - ((2147483646 : Word).toInt : ℚ) / (2 ^ 31 - 1)| ≤ 1 / 2 ^ 22 := by
  have hint : (2147483646 : Word).toInt = 2147483646 := by decide
  refine ⟨by decide, ?_⟩
  rw [scaled_eq (by decide), hint, show (2147483646 : Word).toNat = 2147483646 by decide]
  norm_num [abs_of_neg, abs_of_pos]

/-! ## A rejected selection -/

/-- The streams and the last value are the same, and so is the stream that is selected, if any is. -/
structure Agree (g g' : Gen) : Prop where
  zrng : g'.zrng = g.zrng
  value : g'.randomValue = g.randomValue
  seed : g'.seed = g.seed ∨ (¬selected g.seed ∧ ¬selected g'.seed)

/-- What calls return one after the other, and the state they leave. -/
def play (g : Gen) : List Call → List Value × Gen
  | [] => ([], g)
  | c :: cs =>
    match c.exec g with
    | .ret v g' _ => (v :: (play g' cs).1, (play g' cs).2)
    | .wild _ => ([], g)

lemma Agree.eq {g g' : Gen} (h : Agree g g') (hs : g'.seed = g.seed) : g' = g := by
  obtain ⟨zrng, seed, value⟩ := g
  obtain ⟨rfl, rfl, -⟩ := h
  cases hs
  rfl

lemma sysRandom_unselected {g : Gen} (h : ¬selected g.seed) :
    sysRandom g = .ret (.float g.randomValue) (if g.seed.toInt ≤ 0 then { g with seed := 0 } else g) [] := by
  unfold sysRandom
  by_cases hneg : g.seed.toInt ≤ 0
  · rw [if_pos hneg, if_neg (show ¬selected (0 : Word) by decide)]
  · rw [if_neg hneg, if_neg h]

lemma Agree.exec {g g' : Gen} (h : Agree g g') (c : Call) :
    (∃ v k k' used, c.exec g = .ret v k used ∧ c.exec g' = .ret v k' used ∧ Agree k k') ∨
      ∃ i, c.exec g = .wild i ∧ c.exec g' = .wild i := by
  rcases h.seed with hs | ⟨hn, hn'⟩
  · rw [h.eq hs]
    cases c.exec g with
    | ret v k used => exact .inl ⟨v, k, k, used, rfl, rfl, rfl, rfl, .inl rfl⟩
    | wild i => exact .inr ⟨i, rfl, rfl⟩
  have hentry : ∀ i, g'.entry i = g.entry i := fun i => by unfold Gen.entry; rw [h.zrng]
  cases c with
  | random =>
    refine .inl ⟨_, _, if g'.seed.toInt ≤ 0 then { g' with seed := 0 } else g', _, sysRandom_unselected hn, ?_, ?_⟩
    · rw [Call.exec, sysRandom_unselected hn', h.value]
    · have hzero : ¬selected (0 : Word) := by decide
      split <;> split <;> exact ⟨h.zrng, h.value, .inr ⟨by assumption, by assumption⟩⟩
  | randomSet u =>
    simp only [Call.exec, sysRandomSet]
    cases (argint u 0).1 with
    | none => exact .inl ⟨_, _, _, _, rfl, rfl, h⟩
    | some k =>
      have hk : { g' with seed := k } = { g with seed := k } := Agree.eq ⟨h.zrng, h.value, .inl rfl⟩ rfl
      dsimp only
      rw [hk]
      split
      · exact .inl ⟨_, _, _, _, rfl, rfl, rfl, rfl, .inl rfl⟩
      · exact .inl ⟨_, _, _, _, rfl, rfl, rfl, rfl, .inl rfl⟩
  | changeSeed u =>
    simp only [Call.exec, sysChangeSeed]
    cases (argint u 0).1 with
    | none => exact .inl ⟨_, _, _, _, rfl, rfl, h⟩
    | some stream =>
      cases (argint u 1).1 with
      | none => exact .inl ⟨_, _, _, _, rfl, rfl, h⟩
      | some set =>
        dsimp only
        split
        · refine .inl ⟨_, _, _, _, rfl, rfl, ?_, h.value, h.seed⟩
          simp only [Gen.setEntry, h.zrng]
        · exact .inr ⟨_, rfl, rfl⟩
  | actualSeed u =>
    simp only [Call.exec, sysActualSeed, hentry]
    cases (argint u 0).1 with
    | none => exact .inl ⟨_, _, _, _, rfl, rfl, h⟩
    | some stream =>
      dsimp only
      split
      · exact .inl ⟨_, _, _, _, rfl, rfl, h⟩
      · exact .inr ⟨_, rfl, rfl⟩

lemma Agree.play {g g' : Gen} (h : Agree g g') (calls : List Call) :
    (play g' calls).1 = (play g calls).1 ∧ Agree (play g calls).2 (play g' calls).2 := by
  induction calls generalizing g g' with
  | nil => exact ⟨rfl, h⟩
  | cons c cs ih =>
    rcases h.exec c with ⟨v, k, k', used, hk, hk', hag⟩ | ⟨i, hi, hi'⟩
    · simp only [Random.play, hk, hk']
      exact ⟨congrArg (v :: ·) (ih hag).1, (ih hag).2⟩
    · simp only [Random.play, hi, hi']
      exact ⟨trivial, h⟩

/-- A rejected `random_set` has stored its argument, if there was one, in `seed`. -/
lemma sysRandomSet_rejected {u : User} {g g' : Gen} {used : List Int}
    (h : sysRandomSet u g = .ret (.int (-1)) g' used) :
    ((argint u 0).1 = none ∧ g' = g) ∨
      ∃ k, (argint u 0).1 = some k ∧ ¬selected k ∧ g' = { g with seed := k } := by
  unfold sysRandomSet at h
  cases harg : (argint u 0).1 with
  | none =>
    rw [harg] at h
    cases h
    exact .inl ⟨rfl, rfl⟩
  | some k =>
    rw [harg] at h
    dsimp only at h
    split at h
    · cases h
    · rename_i hk
      cases h
      exact .inr ⟨k, rfl, hk, rfl⟩

/-- A rejected `random_set` has no effect, on the state and on later calls, exactly if its
argument is not there or is the selected number, or if no stream was selected. -/
theorem rejected_set_keeps {u : User} {g g' : Gen} {used : List Int}
    (h : sysRandomSet u g = .ret (.int (-1)) g' used) :
    (Agree g g' ∧ ∀ calls, (play g' calls).1 = (play g calls).1 ∧ Agree (play g calls).2 (play g' calls).2) ↔
      ∀ k, (argint u 0).1 = some k → k = g.seed ∨ ¬selected g.seed := by
  rcases sysRandomSet_rejected h with ⟨harg, rfl⟩ | ⟨k, harg, hk, rfl⟩
  · have hag : Agree g' g' := ⟨rfl, rfl, .inl rfl⟩
    refine iff_of_true ⟨hag, hag.play⟩ fun k hk => ?_
    rw [harg] at hk
    cases hk
  refine ⟨fun hkeep j hj => ?_, fun hkeep => ?_⟩
  · obtain rfl := Option.some.inj (harg.symm.trans hj)
    exact hkeep.1.seed.imp_right And.left
  · have hag : Agree g { g with seed := k } := ⟨rfl, rfl, (hkeep k harg).imp_right fun hn => ⟨hn, hk⟩⟩
    exact ⟨hag, hag.play⟩

/-- A caller with stack pointer 0 and zeros on the stack. -/
def zeroUser : User := { stream1User with mem := fun _ => 0 }

theorem rejected_set_keeps_boot : ∃ g', sysRandomSet zeroUser genInit = .ret (.int (-1)) g' [] ∧ Agree genInit g' := by
  have hrun : sysRandomSet zeroUser genInit = .ret (.int (-1)) { genInit with seed := 0 } [] := rfl
  exact ⟨_, hrun, ((rejected_set_keeps hrun).mpr fun _ _ => .inr (by decide)).1⟩

/-- After `random_set(1)` the call `random_set(0)` fails, and stream 1 is not selected any more: `random`
returns the last value again. -/
theorem rejected_set_unselects : ∃ g g', sysRandomSet stream1User genInit = .ret (.int 0) g [1] ∧
    sysRandomSet zeroUser g = .ret (.int (-1)) g' [] ∧ g'.seed ≠ g.seed ∧
    (play g' [.random]).1 ≠ (play g [.random]).1 :=
  ⟨_, _, rfl, rfl, by decide, by decide +kernel⟩

end Xv6.Random
