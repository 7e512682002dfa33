import Xv6.Random

/-! # Which system calls stay inside of the stream table -/

namespace Xv6.Random

def asksStream (u : User) (stream : Word) : Prop :=
  (argint u 0).1 = some stream ∧ 1 ≤ stream.toInt ∧ stream.toInt ≤ 100

/-- What `change_seed` may do: with a stream in `1..100` and a value to set, change that
entry at most; otherwise return -1 and change nothing. -/
def ChangeConfined (u : User) (g : Gen) (v : Value) (g' : Gen) : Prop :=
  (∃ stream, asksStream u stream ∧ (argint u 1).1.isSome ∧ g'.seed = g.seed ∧
    g'.randomValue = g.randomValue ∧ ∀ j, inTable j → j ≠ stream.toInt → g'.entry j = g.entry j) ∨
  ((∀ stream, asksStream u stream → (argint u 1).1 = none) ∧ v = .int (-1) ∧ g' = g)

/-- What `actual_seed` may do: read the entry of a stream in `1..100`, or return -1. -/
def ReadConfined (u : User) (g : Gen) (v : Value) (g' : Gen) (used : List Int) : Prop :=
  g' = g ∧ ((∃ stream, asksStream u stream ∧ used = [stream.toInt]) ∨
    ((∀ stream, ¬asksStream u stream) ∧ v = .int (-1) ∧ used = []))

/-- One call uses no index outside of the table, and the calls that name a stream respect
its range. -/
def Confined (g : Gen) (c : Call) : Prop :=
  match c.exec g with
  | .wild _ => False
  | .ret v g' used => (∀ i ∈ used, inTable i) ∧
    match c with
    | .changeSeed u => ChangeConfined u g v g'
    | .actualSeed u => ReadConfined u g v g' used
    | _ => True

/-- Every call of a sequence is confined in the state it is made in. -/
def RunConfined (g : Gen) : List Call → Prop
  | [] => True
  | c :: cs => Confined g c ∧ ∀ v g' used, c.exec g = .ret v g' used → RunConfined g' cs

/-- The stream numbers a caller passes where they are not checked lie in `1..100`. -/
def StreamInRange : Call → Prop
  | .random => True
  | .randomSet _ => True
  | .changeSeed u => ∀ stream, (argint u 0).1 = some stream → (argint u 1).1.isSome →
      1 ≤ stream.toInt ∧ stream.toInt ≤ 100
  | .actualSeed u => ∀ stream, (argint u 0).1 = some stream → 1 ≤ stream.toInt ∧ stream.toInt ≤ 100

lemma selected_inTable {seed : Word} (h : selected seed) : inTable seed.toInt := by
  unfold selected at h
  unfold inTable
  omega

lemma setEntry_other (g : Gen) (i j : Int) (zi : Word) (hi : inTable i) (hj : inTable j) (hij : j ≠ i) :
    (g.setEntry i zi).entry j = g.entry j := by
  unfold inTable at hi hj
  unfold Gen.setEntry Gen.entry
  rw [Vector.getElem?_setIfInBounds_ne (by omega)]

lemma random_confined (g : Gen) : Confined g .random := by
  have hex : ∃ v g' used, Call.random.exec g = .ret v g' used ∧ ∀ i ∈ used, inTable i := by
    simp only [Call.exec, sysRandom]
    by_cases hsel : selected (if g.seed.toInt ≤ 0 then { g with seed := 0 } else g).seed
    · rw [if_pos hsel]
      exact ⟨_, _, _, rfl, by simpa using selected_inTable hsel⟩
    · rw [if_neg hsel]
      exact ⟨_, _, _, rfl, by simp⟩
  obtain ⟨v, g', used, hex, hused⟩ := hex
  unfold Confined
  rw [hex]
  exact ⟨hused, trivial⟩

lemma randomSet_confined (g : Gen) (u : User) : Confined g (.randomSet u) := by
  have hex : ∃ v g' used, (Call.randomSet u).exec g = .ret v g' used ∧ ∀ i ∈ used, inTable i := by
    simp only [Call.exec, sysRandomSet]
    cases (argint u 0).1 with
    | none => exact ⟨_, _, _, rfl, by simp⟩
    | some seed =>
      dsimp only
      by_cases hsel : selected seed
      · rw [if_pos hsel]
        exact ⟨_, _, _, rfl, by simpa using selected_inTable hsel⟩
      · rw [if_neg hsel]
        exact ⟨_, _, _, rfl, by simp⟩
  obtain ⟨v, g', used, hex, hused⟩ := hex
  unfold Confined
  rw [hex]
  exact ⟨hused, trivial⟩

lemma inTable_of_range {k : Int} (h : 1 ≤ k ∧ k ≤ 100) : inTable k := by
  unfold inTable
  omega

lemma changeSeed_confined_iff (g : Gen) (u : User) :
    Confined g (.changeSeed u) ↔ StreamInRange (.changeSeed u) := by
  simp only [Confined, Call.exec, sysChangeSeed, StreamInRange, ChangeConfined, asksStream]
  cases (argint u 0).1 with
  | none => simp
  | some stream =>
    cases (argint u 1).1 with
    | none => simp
    | some set =>
      simp only [Option.some.injEq, Option.isSome_some, forall_const, reduceCtorEq]
      by_cases ht : inTable stream.toInt
      · rw [if_pos ht]
        simp only [List.mem_singleton, forall_eq, ht, true_and]
        constructor
        · rintro (⟨stream', ⟨rfl, hl, hu⟩, -⟩ | ⟨-, hv, -⟩) s rfl
          · exact ⟨hl, hu⟩
          · simp at hv
        intro hr
        obtain ⟨hl, hu⟩ := hr stream rfl
        refine .inl ⟨stream, ⟨rfl, hl, hu⟩, rfl, rfl, ?_⟩
        intro j hj hne
        exact setEntry_other g _ j set ht hj hne
      · rw [if_neg ht]
        constructor
        · exact False.elim
        exact fun hr => ht (inTable_of_range (hr stream rfl))

lemma actualSeed_confined_iff (g : Gen) (u : User) :
    Confined g (.actualSeed u) ↔ StreamInRange (.actualSeed u) := by
  simp only [Confined, Call.exec, sysActualSeed, StreamInRange, ReadConfined, asksStream]
  cases (argint u 0).1 with
  | none => simp
  | some stream =>
    simp only [Option.some.injEq]
    by_cases ht : inTable stream.toInt
    · rw [if_pos ht]
      simp only [List.mem_singleton, forall_eq, ht, true_and]
      constructor
      · rintro (⟨stream', ⟨rfl, hl, hu⟩, -⟩ | ⟨-, -, hused⟩) s rfl
        · exact ⟨hl, hu⟩
        · simp at hused
      · intro hr
        obtain ⟨hl, hu⟩ := hr stream rfl
        exact .inl ⟨stream, ⟨rfl, hl, hu⟩, rfl⟩
    · rw [if_neg ht]
      constructor
      · exact False.elim
      exact fun hr => ht (inTable_of_range (hr stream rfl))

lemma confined_iff (g : Gen) (c : Call) : Confined g c ↔ StreamInRange c := by
  cases c with
  | random => exact iff_of_true (random_confined g) trivial
  | randomSet u => exact iff_of_true (randomSet_confined g u) trivial
  | changeSeed u => exact changeSeed_confined_iff g u
  | actualSeed u => exact actualSeed_confined_iff g u

/-- A sequence of calls stays inside of the table exactly when every stream number passed
to `change_seed` and `actual_seed` is in `1..100`. -/
theorem run_confined_iff (g : Gen) (calls : List Call) :
    RunConfined g calls ↔ ∀ c ∈ calls, StreamInRange c := by
  induction calls generalizing g with
  | nil => simp [RunConfined]
  | cons c cs ih =>
    rw [RunConfined, confined_iff, List.forall_mem_cons]
    constructor
    · rintro ⟨hc, hrest⟩
      refine ⟨hc, ?_⟩
      -- a confined call returns, so the rest of the sequence is run
      cases hex : c.exec g with
      | ret v g' used => exact (ih g').mp (hrest v g' used hex)
      | wild i =>
        have := (confined_iff g c).mpr hc
        unfold Confined at this
        rw [hex] at this
        exact this.elim
    · rintro ⟨hc, hrest⟩
      exact ⟨hc, fun v g' used _ => (ih g').mpr hrest⟩

def changeSeed101User : User where
  sz := 4096
  esp := 0
  mem a := if a = 4 then 101 else 0
  touched := []
  sz_lt := User.page_lt

theorem change_seed_leaves_table : ¬RunConfined genInit [.changeSeed changeSeed101User] := by
  have h : (Call.changeSeed changeSeed101User).exec genInit = .wild 101 := by
    have h0 : (argint changeSeed101User 0).1 = some 101 := by decide
    have h1 : (argint changeSeed101User 1).1 = some 0 := by decide
    simp only [Call.exec, sysChangeSeed, h0, h1]
    rfl
  rintro ⟨hc, -⟩
  unfold Confined at hc
  rw [h] at hc
  exact hc

end Xv6.Random
