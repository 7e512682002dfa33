import Xv6.Lib.Table
import Mathlib.Data.List.Nodup

/-!
# Cyclic doubly linked lists

`Ring L h l` says that `next` leads from `h` through the nodes of `l` back to `h`, and `prev` the
other way.
-/

structure Links where
  next : Table Nat
  prev : Table Nat

namespace Links

open List Table

variable {L L' : Links} {h b x y : Nat} {l l₁ l₂ : List Nat}

/-- Neighbours in the list are linked both ways. -/
def Path (L : Links) : List Nat → Prop
  | x :: y :: l => L.next x = y ∧ L.prev y = x ∧ Path L (y :: l)
  | _ => True

def Ring (L : Links) (h : Nat) (l : List Nat) : Prop := L.Path (h :: l ++ [h])

lemma path_append (L : Links) (l₁ : List Nat) (x : Nat) (l₂ : List Nat) :
    L.Path (l₁ ++ x :: l₂) ↔ L.Path (l₁ ++ [x]) ∧ L.Path (x :: l₂) := by
  induction l₁ with
  | nil => simp [Path]
  | cons a l₁ ih =>
    cases l₁ with
    | nil => simp [Path, and_assoc]
    | cons c l₁ =>
      simp only [cons_append, Path] at ih ⊢
      rw [ih]
      simp only [and_assoc]

/-- A path depends on `next` of all its nodes but the last, and on `prev` of all but the first. -/
lemma Path.transport (hp : L.Path l) (hn : ∀ x ∈ l.dropLast, L'.next x = L.next x)
    (hv : ∀ x ∈ l.tail, L'.prev x = L.prev x) : L'.Path l := by
  induction l with
  | nil => trivial
  | cons a l ih =>
    cases l with
    | nil => trivial
    | cons c l =>
      obtain ⟨h1, h2, h3⟩ := hp
      refine ⟨(hn a (by simp)).trans h1, (hv c (by simp)).trans h2, ih h3 (fun x hx => hn x ?_) fun x hx => hv x ?_⟩
      · rw [dropLast_cons_of_ne_nil (by simp)]
        exact mem_cons_of_mem a hx
      · exact mem_cons_of_mem c hx

/-! ## Changes -/

/-- `b->next->prev = b->prev; b->prev->next = b->next`. -/
def unlink (b : Nat) (L : Links) : Links where
  next := L.next.set (L.prev b) (L.next b)
  prev := L.prev.set (L.next b) (L.prev b)

/-- `b->next = h->next; b->prev = h; h->next->prev = b; h->next = b`. -/
def pushFront (h b : Nat) (L : Links) : Links where
  next := (L.next.set b (L.next h)).set h b
  prev := (L.prev.set b h).set (L.next h) b

lemma Ring.unlink (hr : L.Ring h (l₁ ++ b :: l₂)) (hd : (h :: (l₁ ++ b :: l₂)).Nodup) :
    (L.unlink b).Ring h (l₁ ++ l₂) := by
  -- `a` is the node before `b` and `c` the one behind it
  obtain ⟨pre, a, hpre⟩ : ∃ pre a, h :: l₁ = pre ++ [a] :=
    ⟨_, _, (dropLast_append_getLast (cons_ne_nil h l₁)).symm⟩
  obtain ⟨c, post, hpost⟩ : ∃ c post, l₂ ++ [h] = c :: post := exists_cons_of_ne_nil (by simp)
  have hl₁ : h ∉ l₁ ∧ h ∉ l₂ := by
    have := (nodup_cons.mp hd).1
    simp only [mem_append, mem_cons, not_or] at this
    exact ⟨this.1, this.2.2⟩
  have hdis : ∀ x ∈ l₁, x ∉ l₂ := by
    intro x hx hx'
    exact (nodup_append.mp (nodup_cons.mp hd).2).2.2 x hx x (mem_cons_of_mem b hx') rfl
  have hl₂ : l₂.Nodup := (nodup_cons.mp (nodup_append.mp (nodup_cons.mp hd).2).2.1).2
  have ha : a ∈ h :: l₁ := by simp [hpre]
  have hc : c ∈ l₂ ++ [h] := by simp [hpost]
  have hnodup₁ : (pre ++ [a]).Nodup := by
    rw [← hpre]
    exact nodup_cons.mpr ⟨hl₁.1, (nodup_append.mp (nodup_cons.mp hd).2).1⟩
  have hnodup₂ : (c :: post).Nodup := by
    rw [← hpost]
    exact nodup_append.mpr ⟨hl₂, by simp, fun x hx y hy => by
      rintro rfl
      exact hl₁.2 (mem_singleton.mp hy ▸ hx)⟩
  have hold : h :: (l₁ ++ b :: l₂) ++ [h] = pre ++ a :: b :: c :: post := by
    rw [← hpost, append_cons pre a, ← hpre]
    simp
  have hnew : h :: (l₁ ++ l₂) ++ [h] = pre ++ a :: c :: post := by
    rw [← hpost, append_cons pre a, ← hpre]
    simp
  unfold Ring at hr ⊢
  rw [hold, path_append] at hr
  obtain ⟨hp, h1, h2, h3, h4, hq⟩ := hr
  have hnext : ∀ x, x ≠ a → (L.unlink b).next x = L.next x := by
    intro x hx
    rw [Links.unlink, h2]
    exact get_set_ne _ _ hx
  have hprev : ∀ x, x ≠ c → (L.unlink b).prev x = L.prev x := by
    intro x hx
    rw [Links.unlink, h3]
    exact get_set_ne _ _ hx
  rw [hnew, path_append]
  refine ⟨hp.transport (fun x hx => hnext x ?_) fun x hx => hprev x ?_, ?_, ?_,
    hq.transport (fun x hx => hnext x ?_) fun x hx => hprev x ?_⟩
  · rintro rfl
    rw [dropLast_concat] at hx
    exact (nodup_append.mp hnodup₁).2.2 x hx x (by simp) rfl
  · rintro rfl
    rw [← hpre, tail_cons] at hx
    rcases mem_append.mp hc with hx' | hx'
    · exact hdis x hx hx'
    · exact hl₁.1 (mem_singleton.mp hx' ▸ hx)
  · rw [Links.unlink, h2, h3]
    exact get_set_self _ _ _
  · rw [Links.unlink, h2, h3]
    exact get_set_self _ _ _
  · rintro rfl
    rw [← hpost, dropLast_concat] at hx
    rcases mem_cons.mp ha with hx' | hx'
    · exact hl₁.2 (hx' ▸ hx)
    · exact hdis x hx' hx
  · rintro rfl
    exact (nodup_cons.mp hnodup₂).1 hx

lemma Ring.pushFront (hr : L.Ring h l) (hd : (h :: l).Nodup) (hb : b ∉ h :: l) :
    (L.pushFront h b).Ring h (b :: l) := by
  obtain ⟨c, post, hpost⟩ : ∃ c post, l ++ [h] = c :: post := exists_cons_of_ne_nil (by simp)
  have hbh : b ≠ h := fun h' => hb (by simp [h'])
  have hbl : b ∉ c :: post := by
    rw [← hpost]
    simpa [and_comm] using hb
  have hnodup : (c :: post).Nodup := by
    rw [← hpost]
    have := nodup_cons.mp hd
    exact nodup_append.mpr ⟨this.2, by simp, fun x hx y hy => by
      rintro rfl
      exact this.1 (mem_singleton.mp hy ▸ hx)⟩
  unfold Ring at hr ⊢
  rw [cons_append, hpost] at hr
  obtain ⟨h1, h2, hp⟩ := hr
  have hbc : b ≠ c := fun h' => hbl (by simp [h'])
  show (L.pushFront h b).Path (h :: b :: (l ++ [h]))
  rw [hpost]
  refine ⟨?_, ?_, ?_, ?_, hp.transport (fun x hx => ?_) fun x hx => ?_⟩
  · exact get_set_self _ _ _
  · simp only [Links.pushFront, h1]
    rw [get_set_ne _ _ hbc, get_set_self]
  · simp only [Links.pushFront, h1]
    rw [get_set_ne _ _ hbh, get_set_self]
  · simp only [Links.pushFront, h1]
    exact get_set_self _ _ _
  · have hxh : x ≠ h := by
      rintro rfl
      rw [← hpost, dropLast_concat] at hx
      exact (nodup_cons.mp hd).1 hx
    have hxb : x ≠ b := by
      rintro rfl
      exact hbl (dropLast_subset _ hx)
    simp only [Links.pushFront]
    rw [get_set_ne _ _ hxh, get_set_ne _ _ hxb]
  · have hxc : x ≠ c := by
      rintro rfl
      exact (nodup_cons.mp hnodup).1 hx
    have hxb : x ≠ b := by
      rintro rfl
      exact hbl (mem_cons_of_mem c hx)
    simp only [Links.pushFront, h1]
    rw [get_set_ne _ _ hxc, get_set_ne _ _ hxb]

/-! ## Searches -/

/-- Follow `step` from node `b` to the first node with `P` or back to `h`, for at most `n` nodes;
`none` if that is not enough. -/
def seek (step : Table Nat) (h : Nat) (P : Nat → Bool) : Nat → Nat → Option Nat
  | 0, _ => none
  | n + 1, b => if b = h then some h else if P b then some b else seek step h P n (step b)

lemma seek_path {P : Nat → Bool} {n a : Nat} (hp : L.Path (a :: l ++ [h])) (hh : h ∉ l) (hn : l.length < n) :
    seek L.next h P n (L.next a) = some ((l.find? P).getD h) := by
  induction l generalizing a n with
  | nil =>
    cases n with
    | zero => cases hn
    | succ n =>
      rw [hp.1, seek, if_pos rfl]
      rfl
  | cons c l ih =>
    cases n with
    | zero => cases hn
    | succ n =>
      obtain ⟨h1, -, h3⟩ := hp
      have hne : c ≠ h := fun h' => hh (by simp [h'])
      rw [h1, seek, if_neg hne, List.find?_cons]
      cases hP : P c with
      | true => rfl
      | false => exact ih h3 (fun h' => hh (mem_cons_of_mem c h')) (Nat.lt_of_succ_lt_succ hn)

lemma Ring.seek_next {P : Nat → Bool} {n : Nat} (hr : L.Ring h l) (hh : h ∉ l) (hn : l.length < n) :
    seek L.next h P n (L.next h) = some ((l.find? P).getD h) :=
  seek_path hr hh hn

/-- The list the other way round. -/
def swap (L : Links) : Links := ⟨L.prev, L.next⟩

lemma Path.swap (hp : L.Path l) : L.swap.Path l.reverse := by
  induction l with
  | nil => trivial
  | cons a l ih =>
    cases l with
    | nil => trivial
    | cons c l =>
      obtain ⟨h1, h2, h3⟩ := hp
      rw [reverse_cons, reverse_cons, append_assoc]
      refine (path_append _ _ _ _).mpr ⟨?_, h2, h1, trivial⟩
      rw [← reverse_cons]
      exact ih h3

lemma Ring.seek_prev {P : Nat → Bool} {n : Nat} (hr : L.Ring h l) (hh : h ∉ l) (hn : l.length < n) :
    seek L.prev h P n (L.prev h) = some ((l.reverse.find? P).getD h) := by
  have hs : L.swap.Ring h l.reverse := by
    have := Path.swap hr
    simpa [Ring] using this
  exact hs.seek_next (by simpa using hh) (by simpa using hn)

end Links
