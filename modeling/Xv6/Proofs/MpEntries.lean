import Mathlib.Data.UInt
import Xv6.Mp

/-!
# The entries of the multiprocessor table

An entry of an unknown type stops the loop where it is. Nothing stops the processor entries at `NCPU`.
-/

namespace Xv6.Mp

variable {mem : Nat → UInt8} {conf e p k : Nat} {x : Entry} {xs : List Entry}

/-- The table from `p` to `e` has the entries `xs`. -/
inductive Holds (mem : Nat → UInt8) (e : Nat) : Nat → List Entry → Prop where
  | nil {p : Nat} (he : e ≤ p) : Holds mem e p []
  | cons {p : Nat} {x : Entry} {xs : List Entry} (he : p < e) (hx : entryAt mem p = some x)
      (hxs : Holds mem e (p + x.size) xs) : Holds mem e p (x :: xs)

/-- Where an entry of the table at `conf` begins, as far as the types are known. -/
inductive Begins (mem : Nat → UInt8) (conf : Nat) : Nat → Prop where
  | first : Begins mem conf (conf + CONF)
  | next {p : Nat} {x : Entry} (h : Begins mem conf p) (hx : entryAt mem p = some x) :
      Begins mem conf (p + x.size)

lemma Entry.size_pos (x : Entry) : 0 < x.size := by
  cases x <;> simp [Entry.size]

lemma Holds.length_le (h : Holds mem e p xs) : xs.length ≤ e - p := by
  induction h with
  | nil => exact Nat.zero_le _
  | @cons p x xs he hx hxs ih =>
    have := x.size_pos
    rw [List.length_cons]
    omega

lemma Holds.loop_eq (h : Holds mem e p xs) (hk : xs.length < k) (s : State) :
    loop mem e k p s = some (xs.foldl State.entry s) := by
  induction h generalizing k s with
  | nil he =>
    obtain ⟨k, rfl⟩ := Nat.exists_eq_add_one_of_ne_zero (Nat.ne_zero_of_lt hk)
    rw [loop, if_neg (Nat.not_lt.mpr he)]
    rfl
  | cons he hx hxs ih =>
    obtain ⟨k, rfl⟩ := Nat.exists_eq_add_one_of_ne_zero (Nat.ne_zero_of_lt hk)
    rw [loop, if_pos he, round, hx]
    exact ih (Nat.lt_of_succ_lt_succ hk) _

lemma exists_holds (h : ∀ p, Begins mem conf p → p < e → (entryAt mem p).isSome) (hp : Begins mem conf p) :
    ∃ xs, Holds mem e p xs := by
  induction hn : e - p using Nat.strong_induction_on generalizing p with
  | _ n ih =>
    by_cases he : p < e
    · obtain ⟨x, hx⟩ := Option.isSome_iff_exists.mp (h p hp he)
      have := x.size_pos
      obtain ⟨xs, hxs⟩ := ih _ (by omega) (hp.next hx) rfl
      exact ⟨x :: xs, .cons he hx hxs⟩
    · exact ⟨[], .nil (Nat.le_of_not_lt he)⟩

/-- A loop that ends has passed entries of known types only. -/
lemma holds_of_loop {s t : State} (h : loop mem e k p s = some t) : ∃ xs, Holds mem e p xs := by
  induction k generalizing p s with
  | zero => cases h
  | succ k ih =>
    rw [loop] at h
    split at h
    · rename_i he
      obtain ⟨xs, hxs⟩ := ih h
      cases hx : entryAt mem p with
      | none => exact ⟨xs, by rwa [round, hx] at hxs⟩
      | some x => exact ⟨x :: xs, .cons he hx (by rwa [round, hx] at hxs)⟩
    · rename_i he
      exact ⟨[], .nil (Nat.le_of_not_lt he)⟩

lemma Holds.known (h : Holds mem e (conf + CONF) xs) (hp : Begins mem conf p) (he : p < e) :
    (entryAt mem p).isSome := by
  have hrest : ∃ ys, Holds mem e p ys := by
    induction hp with
    | first => exact ⟨xs, h⟩
    | next _ hx ih =>
      obtain ⟨ys, hys⟩ := ih (by omega)
      cases hys with
      | nil hge => omega
      | cons _ hx' hys =>
        obtain rfl := Option.some.inj (hx.symm.trans hx')
        exact ⟨_, hys⟩
  obtain ⟨ys, hys⟩ := hrest
  cases hys with
  | nil hge => omega
  | cons _ hx _ => rw [hx, Option.isSome_some]

lemma lt_round_iff (s : State) : p < (round mem p s).1 ↔ (entryAt mem p).isSome := by
  rw [round]
  cases entryAt mem p with
  | none => simp
  | some x => simpa using x.size_pos

/-- Every round uses bytes of the table, and the loop ends, exactly if all types are known: it ends then within a round
for each byte, and otherwise never. -/
theorem mpinit_terminates (mem : Nat → UInt8) (conf : Nat) :
    ((∀ p s, Begins mem conf p → p < tableEnd mem conf → p < (round mem p s).1) ∧
      (∃ s, mpinit mem conf (tableEnd mem conf - (conf + CONF) + 1) = some s) ↔
        ∀ p, Begins mem conf p → p < tableEnd mem conf → (entryAt mem p).isSome) ∧
    ((∃ rounds s, mpinit mem conf rounds = some s) ↔
      ∀ p, Begins mem conf p → p < tableEnd mem conf → (entryAt mem p).isSome) := by
  have hends : (∀ p, Begins mem conf p → p < tableEnd mem conf → (entryAt mem p).isSome) →
      ∃ s, mpinit mem conf (tableEnd mem conf - (conf + CONF) + 1) = some s := by
    intro h
    obtain ⟨xs, hxs⟩ := exists_holds h .first
    rw [mpinit, hxs.loop_eq (Nat.lt_succ_of_le hxs.length_le)]
    exact ⟨_, rfl⟩
  refine ⟨⟨fun h p hp he => ?_, fun h => ⟨fun p s hp he => ?_, hends h⟩⟩, ?_, fun h => ⟨_, hends h⟩⟩
  · exact (lt_round_iff (start 0)).mp (h.1 p _ hp he)
  · exact (lt_round_iff s).mpr (h p hp he)
  · rintro ⟨rounds, s, hs⟩ p hp he
    obtain ⟨t, ht, -⟩ := Option.map_eq_some_iff.mp hs
    obtain ⟨xs, hxs⟩ := holds_of_loop ht
    exact hxs.known hp he

/-- A table at 0 with these bytes behind its header. -/
def table (bytes : List UInt8) (a : Nat) : UInt8 :=
  let head := [80, 67, 77, 80, .ofNat (CONF + bytes.length), 0, 1]
  (head ++ [-(head ++ bytes).sum] ++ List.replicate 36 0 ++ bytes).getD a 0

/-- At an entry of type 5 the loop goes round and round. -/
theorem mpinit_spins : mpconfig (table [5]) 0 = true ∧
    (∀ rounds, mpinit (table [5]) 0 rounds = none) ∧ ∀ s, (round (table [5]) 44 s).1 = 44 := by
  have hround : ∀ s, round (table [5]) 44 s = (44, { s with ismp := false }) := fun _ => rfl
  refine ⟨by decide +kernel, fun rounds => ?_, fun s => congrArg Prod.fst (hround s)⟩
  have hloop : ∀ s, loop (table [5]) 45 rounds 44 s = none := by
    induction rounds with
    | zero => exact fun _ => rfl
    | succ k ih =>
      intro s
      rw [loop, if_pos (by decide), hround]
      exact ih _
  exact congrArg (Option.map _) (hloop _)

/-- The `apicid` and the `flags` of the processors. -/
def processors : List Entry → List (UInt8 × UInt8)
  | [] => []
  | .proc apicid flags :: xs => (apicid, flags) :: processors xs
  | _ :: xs => processors xs

/-- What the entries `xs` make of `s`. -/
structure Ran (xs : List Entry) (s t : State) : Prop where
  ncpu : t.ncpu = s.ncpu + (processors xs).length
  stores : ∀ i, i ∈ t.stores ↔ i ∈ s.stores ∨ s.ncpu ≤ i ∧ i < t.ncpu
  bcpu : t.bcpu = s.bcpu ∨ ∃ i a f, (processors xs)[i]? = some (a, f) ∧ f &&& MPBOOT ≠ 0 ∧ t.bcpu = s.ncpu + i
  last : ∀ (i : Nat) (a f : UInt8), (processors xs)[i]? = some (a, f) → f &&& MPBOOT ≠ 0 → s.ncpu + i ≤ t.bcpu
  ismp : t.ismp = false ↔ s.ismp = false ∨
    ∃ (i : Nat) (a f : UInt8), (processors xs)[i]? = some (a, f) ∧ a.toNat ≠ s.ncpu + i

lemma Ran.proc {apicid flags : UInt8} {s t : State} (h : Ran xs (s.entry (.proc apicid flags)) t) :
    Ran (.proc apicid flags :: xs) s t := by
  have hncpu : t.ncpu = s.ncpu + 1 + (processors xs).length := h.ncpu
  refine ⟨?_, fun i => ?_, ?_, ?_, ?_⟩
  · rw [processors, List.length_cons, hncpu]
    omega
  · have hstored : i ∈ (s.entry (.proc apicid flags)).stores ↔ i = s.ncpu ∨ i ∈ s.stores := List.mem_cons
    have hnext : (s.entry (.proc apicid flags)).ncpu = s.ncpu + 1 := rfl
    rw [h.stores, hstored, hnext]
    by_cases hm : i ∈ s.stores
    · simp only [hm, or_true, true_or]
    · simp only [hm, or_false, false_or]
      omega
  · rcases h.bcpu with hb | ⟨i, a, f, hi, hf, hb⟩
    · by_cases hf : flags &&& MPBOOT ≠ 0
      · exact .inr ⟨0, apicid, flags, rfl, hf, hb.trans (if_pos hf)⟩
      · exact .inl (hb.trans (if_neg hf))
    · exact .inr ⟨i + 1, a, f, hi, hf, hb.trans (Nat.add_right_comm s.ncpu 1 i)⟩
  · rintro (_ | i) a f hi hf
    · obtain ⟨rfl, rfl⟩ := Prod.mk.inj (Option.some.inj hi)
      rcases h.bcpu with hb | ⟨j, -, -, -, -, hb⟩
      · exact (hb.trans (if_pos hf)).ge
      · exact hb.ge.trans' (Nat.le_add_right_of_le (Nat.le_succ _))
    · exact (Nat.add_right_comm s.ncpu 1 i).ge.trans (h.last i a f hi hf)
  · have hhead : (s.entry (.proc apicid flags)).ismp = false ↔ s.ismp = false ∨ apicid.toNat ≠ s.ncpu := by
      simp only [State.entry, Bool.and_eq_false_iff, beq_eq_false_iff_ne, ne_comm]
    rw [h.ismp, hhead, or_assoc]
    refine or_congr_right ⟨?_, ?_⟩
    · rintro (ha | ⟨i, a, f, hi, ha⟩)
      · exact ⟨0, apicid, flags, rfl, ha⟩
      · exact ⟨i + 1, a, f, hi, fun he => ha (he.trans (Nat.add_right_comm s.ncpu i 1))⟩
    · rintro ⟨_ | i, a, f, hi, ha⟩
      · obtain ⟨rfl, rfl⟩ := Prod.mk.inj (Option.some.inj hi)
        exact .inl ha
      · exact .inr ⟨i, a, f, hi, fun he => ha (he.trans (Nat.add_right_comm s.ncpu 1 i))⟩

lemma ran (xs : List Entry) (s : State) : Ran xs s (xs.foldl State.entry s) := by
  induction xs generalizing s with
  | nil =>
    refine ⟨rfl, fun i => ?_, .inl rfl, nofun, ?_⟩
    · exact (or_iff_left fun h => Nat.not_lt.mpr h.1 h.2).symm
    · exact (or_iff_left (by simp [processors])).symm
  | cons x xs ih =>
    cases x with
    | proc apicid flags => exact (ih (s.entry (.proc apicid flags))).proc
    | ioapic apicno =>
      have h := ih (s.entry (.ioapic apicno))
      exact ⟨h.ncpu, h.stores, h.bcpu, h.last, h.ismp⟩
    | other =>
      have h := ih (s.entry .other)
      exact ⟨h.ncpu, h.stores, h.bcpu, h.last, h.ismp⟩

/-- A table with `n` processors, whose APIC ids are in order. -/
def ordered (n : Nat) : Nat → UInt8 :=
  table ((List.range n).flatMap fun i => [0, .ofNat i] ++ List.replicate 18 0)

end Xv6.Mp
