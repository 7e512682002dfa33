import Mathlib.Algebra.BigOperators.Group.Finset.Piecewise
import Mathlib.Algebra.Order.BigOperators.Group.Finset

/-!
# Slots of a pool

The first `n` numbers are the slots of a pool, of which clients hold some.
-/

namespace Pool

variable {P : Type} {n m : Nat} {q : P} {owns owns' : Nat → P → Prop} [∀ i q, Decidable (owns i q)]
  [∀ i q, Decidable (owns' i q)]

def share (n : Nat) (owns : Nat → P → Prop) [∀ i q, Decidable (owns i q)] (q : P) : Nat :=
  ((Finset.range n).filter fun i => owns i q).card

lemma share_le_length {l : List Nat} (h : ∀ i, owns i q → i ∈ l) : share n owns q ≤ l.length := by
  have hsub : ((Finset.range n).filter fun i => owns i q) ⊆ l.toFinset := fun i hi =>
    List.mem_toFinset.mpr (h i (Finset.mem_filter.mp hi).2)
  exact (Finset.card_le_card hsub).trans l.toFinset_card_le

lemma share_mono (h : ∀ i, owns' i q → owns i q) : share n owns' q ≤ share n owns q :=
  Finset.card_le_card (Finset.monotone_filter_right _ fun i _ hi => h i hi)

/-- There are no more slots than clients hold and marks exist, if every slot is held or has a mark
of its own. -/
lemma le_of_cover (clients : Finset P) {mark : Nat → Nat → Prop}
    (h : ∀ i < n, (∃ q ∈ clients, owns i q) ∨ ∃ j < m, mark i j)
    (hmark : ∀ i i' j, mark i j → mark i' j → i = i') : n ≤ ∑ q ∈ clients, share n owns q + m := by
  classical
  let held := (Finset.range n).filter fun i => ∃ q ∈ clients, owns i q
  let marked := (Finset.range n).filter fun i => ∃ j < m, mark i j
  have hheld : held.card ≤ ∑ q ∈ clients, share n owns q := by
    have hsub : held ⊆ clients.biUnion fun q => (Finset.range n).filter fun i => owns i q := by
      intro i hi
      obtain ⟨hin, q, hq, hown⟩ := Finset.mem_filter.mp hi
      exact Finset.mem_biUnion.mpr ⟨q, hq, Finset.mem_filter.mpr ⟨hin, hown⟩⟩
    exact (Finset.card_le_card hsub).trans Finset.card_biUnion_le
  have hmarked : marked.card ≤ m := by
    have hex : ∀ i, ∃ j, i ∈ marked → j < m ∧ mark i j := by
      intro i
      by_cases hi : i ∈ marked
      · obtain ⟨-, j, hj⟩ := Finset.mem_filter.mp hi
        exact ⟨j, fun _ => hj⟩
      · exact ⟨0, fun h => absurd h hi⟩
    choose f hf using hex
    have hcard := Finset.card_le_card_of_injOn (s := marked) (t := Finset.range m) f
      (fun i hi => Finset.mem_coe.mpr (Finset.mem_range.mpr (hf i hi).1)) fun i hi i' hi' he =>
        hmark i i' (f i) (hf i hi).2 (he ▸ (hf i' hi').2)
    rwa [Finset.card_range] at hcard
  have hcover : Finset.range n ⊆ held ∪ marked := by
    intro i hi
    rcases h i (Finset.mem_range.mp hi) with hh | hm
    · exact Finset.mem_union_left _ (Finset.mem_filter.mpr ⟨hi, hh⟩)
    · exact Finset.mem_union_right _ (Finset.mem_filter.mpr ⟨hi, hm⟩)
  calc n = (Finset.range n).card := (Finset.card_range n).symm
    _ ≤ (held ∪ marked).card := Finset.card_le_card hcover
    _ ≤ held.card + marked.card := Finset.card_union_le _ _
    _ ≤ _ := Nat.add_le_add hheld hmarked

end Pool
