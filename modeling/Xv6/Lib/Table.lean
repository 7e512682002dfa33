import Mathlib.Tactic.Common

/-!
# Total maps with finitely many exceptions

Unlike a function, a table stays small data when it is updated over and over.
-/

structure Table (α : Type) where
  entries : List (Nat × α)
  rest : α

namespace Table

variable {α : Type}

def find (d : α) : List (Nat × α) → Nat → α
  | [], _ => d
  | e :: l, i => if e.1 = i then e.2 else find d l i

def get (t : Table α) (i : Nat) : α := find t.rest t.entries i

instance : CoeFun (Table α) fun _ => Nat → α := ⟨get⟩

def const (a : α) : Table α := ⟨[], a⟩

def set (t : Table α) (i : Nat) (a : α) : Table α :=
  ⟨(i, a) :: t.entries.filter fun e => e.1 ≠ i, t.rest⟩

@[simp] lemma get_const (a : α) (i : Nat) : const a i = a := rfl

lemma find_filter (d : α) (l : List (Nat × α)) (i j : Nat) (h : j ≠ i) :
    find d (l.filter fun e => e.1 ≠ i) j = find d l j := by
  induction l with
  | nil => rfl
  | cons e l ih =>
    by_cases he : e.1 = i
    · have hj : e.1 ≠ j := fun hj => h (hj ▸ he)
      rw [List.filter_cons_of_neg (by simpa using he), ih, find, if_neg hj]
    · rw [List.filter_cons_of_pos (by simpa using he), find, find, ih]

lemma get_set (t : Table α) (i : Nat) (a : α) (j : Nat) :
    t.set i a j = if j = i then a else t j := by
  by_cases h : j = i
  · subst h
    simp [get, set, find]
  · have h' : i ≠ j := fun e => h e.symm
    simp only [get, set, find, if_neg h, if_neg h']
    exact find_filter t.rest t.entries i j h

@[simp] lemma get_set_self (t : Table α) (i : Nat) (a : α) : t.set i a i = a := by
  simp [get_set]

@[simp] lemma get_set_ne (t : Table α) {i j : Nat} (a : α) (h : j ≠ i) : t.set i a j = t j := by
  simp [get_set, h]

end Table
