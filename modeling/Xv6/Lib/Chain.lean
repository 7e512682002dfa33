import Mathlib.Data.List.Basic
import Mathlib.Tactic.Common

/-!
# Singly linked chains

A circular list with the node `a` is a path from `a` to `a`; it can be walked from any of its nodes.
-/

namespace Chain

open List

variable {α : Type} {next next' : α → α} {a b c p z : α} {l l' u v : List α}

def Path (next : α → α) (a : α) : List α → α → Prop
  | [], z => next a = z
  | b :: l, z => next a = b ∧ Path next b l z

lemma path_append : Path next a (l ++ c :: l') z ↔ Path next a l c ∧ Path next c l' z := by
  induction l generalizing a with
  | nil => rfl
  | cons b l ih => simp only [cons_append, Path, ih, and_assoc]

lemma Path.congr (h : Path next a l z) (hnext : ∀ x ∈ a :: l, next' x = next x) : Path next' a l z := by
  induction l generalizing a with
  | nil => exact (hnext a mem_cons_self).trans h
  | cons b l ih =>
    exact ⟨(hnext a mem_cons_self).trans h.1, ih h.2 fun x hx => hnext x (mem_cons_of_mem _ hx)⟩

lemma Path.enter (h : Path next a l z) (hb : next' b = next a) (hnext : ∀ x ∈ l, next' x = next x) :
    Path next' b l z := by
  cases l with
  | nil => exact hb.trans h
  | cons c l => exact ⟨hb.trans h.1, h.2.congr hnext⟩

lemma Path.concat (h : Path next a l z) (hnodup : (a :: l).Nodup)
    (hlast : next' ((a :: l).getLast (cons_ne_nil a l)) = b) (hb : next' b = c)
    (hnext : ∀ x ∈ a :: l, x ≠ (a :: l).getLast (cons_ne_nil a l) → next' x = next x) :
    Path next' a (l ++ [b]) c := by
  induction l generalizing a with
  | nil => exact ⟨hlast, hb⟩
  | cons d l ih =>
    rw [getLast_cons_cons] at hlast hnext
    have hmem : (d :: l).getLast (cons_ne_nil d l) ∈ d :: l := getLast_mem _
    have ha : next' a = next a := by
      refine hnext a mem_cons_self fun hc => ?_
      exact (nodup_cons.mp hnodup).1 (hc ▸ hmem)
    exact ⟨ha.trans h.1, ih h.2 (nodup_cons.mp hnodup).2 hlast
      fun x hx => hnext x (mem_cons_of_mem _ hx)⟩

lemma Path.split (h : Path next a l z) (hb : b ∈ a :: l) :
    ∃ u v, a :: l = u ++ b :: v ∧ Path next b v z := by
  induction l generalizing a with
  | nil =>
    obtain rfl := mem_singleton.mp hb
    exact ⟨[], [], rfl, h⟩
  | cons c l ih =>
    rcases mem_cons.mp hb with rfl | hb
    · exact ⟨[], c :: l, rfl, h⟩
    · obtain ⟨u, v, heq, hp⟩ := ih h.2 hb
      exact ⟨a :: u, v, by rw [heq, cons_append], hp⟩

lemma Path.rotate (h : Path next a l a) (hb : b ∈ a :: l) :
    ∃ l', Path next b l' b ∧ (b :: l').Perm (a :: l) := by
  obtain ⟨u, v, heq, hp⟩ := h.split hb
  cases u with
  | nil =>
    obtain ⟨rfl, rfl⟩ := List.cons.inj heq
    exact ⟨l, h, List.Perm.refl _⟩
  | cons c u =>
    obtain ⟨rfl, rfl⟩ := List.cons.inj heq
    refine ⟨v ++ a :: u, path_append.mpr ⟨hp, (path_append.mp h).1⟩, ?_⟩
    have hperm : (b :: v ++ a :: u).Perm (a :: u ++ b :: v) := perm_append_comm
    exact hperm

lemma Path.next_eq (h : Path next a l z) (hb : b ∈ a :: l) :
    (∃ u, a :: l = u ++ [b] ∧ next b = z) ∨ ∃ u v, a :: l = u ++ b :: next b :: v := by
  obtain ⟨u, v, heq, hp⟩ := h.split hb
  cases v with
  | nil => exact .inl ⟨u, heq, hp⟩
  | cons c v =>
    right
    exact ⟨u, v, by rw [heq, hp.1]⟩

/-- Following the pointers up to a node where `stop` holds, for at most `k` nodes. -/
def seek (next : α → α) (stop : α → Bool) : Nat → α → Option α
  | 0, _ => none
  | k + 1, p => if stop p then some p else seek next stop k (next p)

lemma seek_path {stop : α → Bool} {k : Nat} (h : Path next a l z) (hp : p ∈ a :: l)
    (hstop : ∀ x ∈ a :: l, stop x = true ↔ x = p) (hk : l.length < k) : seek next stop k a = some p := by
  induction l generalizing a k with
  | nil =>
    obtain ⟨k, rfl⟩ : ∃ k', k = k' + 1 := ⟨k - 1, by omega⟩
    have ha : p = a := mem_singleton.mp hp
    rw [seek, if_pos ((hstop a mem_cons_self).mpr ha.symm), ha]
  | cons b l ih =>
    obtain ⟨k, rfl⟩ : ∃ k', k = k' + 1 := ⟨k - 1, by omega⟩
    rw [seek]
    by_cases ha : a = p
    · rw [if_pos ((hstop a mem_cons_self).mpr ha), ha]
    rw [if_neg (fun hs => ha ((hstop a mem_cons_self).mp hs)), h.1]
    rw [length_cons] at hk
    have hmem : p ∈ b :: l := (mem_cons.mp hp).resolve_left fun he => ha he.symm
    exact ih h.2 hmem (fun x hx => hstop x (mem_cons_of_mem _ hx)) (by omega)

lemma seek_last [DecidableEq α] {k : Nat} (h : Path next a l z) (hz : z ∉ a :: l) (hk : l.length < k) :
    seek next (fun x => next x = z) k a = some ((a :: l).getLast (cons_ne_nil a l)) := by
  induction l generalizing a k with
  | nil =>
    obtain ⟨k, rfl⟩ : ∃ k', k = k' + 1 := ⟨k - 1, by omega⟩
    have hnext : next a = z := h
    rw [seek, if_pos (decide_eq_true hnext)]
    rfl
  | cons b l ih =>
    obtain ⟨k, rfl⟩ : ∃ k', k = k' + 1 := ⟨k - 1, by omega⟩
    obtain ⟨hnext, hrest⟩ := h
    have hb : ¬decide (next a = z) = true := by
      rw [decide_eq_true_iff, hnext]
      rintro rfl
      exact hz (mem_cons_of_mem _ mem_cons_self)
    rw [length_cons] at hk
    rw [seek, if_neg hb, hnext, ih hrest (fun hc => hz (mem_cons_of_mem _ hc)) (by omega),
      getLast_cons_cons]

end Chain
