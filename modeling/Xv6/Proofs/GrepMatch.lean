import Mathlib.Computability.Language
import Xv6.Grep

/-!
# What `grep` matches

A pattern stands for the product of the languages of its items. `matchhere` takes a language apart at
its first factor, and a starred one by `l∗ = 1 + l * l∗`.
-/

namespace Xv6.Grep

open Shell (chr)
open Computability

variable {l m : Language UInt8} {e : Prop} {text : List UInt8}

/-- A character of the pattern, or `.` for any, with or without a star. -/
structure Item where
  char : UInt8
  starred : Bool

/-- The strings of one byte that the character `c` of a pattern stands for. -/
def single (c : UInt8) : Language UInt8 := { s | ∃ b, s = [b] ∧ (c = chr '.' ∨ c = b) }

def Item.language (i : Item) : Language UInt8 := if i.starred then (single i.char)∗ else single i.char

/-- The items of a pattern without its `^`, and whether it ends with a `$` for the end of the text. -/
def items : List UInt8 → List Item × Bool
  | [] => ([], false)
  | [c] => if c = chr '$' then ([], true) else ([⟨c, false⟩], false)
  | c :: d :: re =>
    if d = chr '*' then (⟨c, true⟩ :: (items re).1, (items re).2)
    else (⟨c, false⟩ :: (items (d :: re)).1, (items (d :: re)).2)

/-- The concatenations of strings that the items match, in order. -/
def Denotes (is : List Item) : Language UInt8 := (is.map Item.language).prod

/-- The text matches: a substring is one of the pattern, at the beginning of the text if the pattern begins
with `^` and at its end if it ends with `$`. -/
def Matches (re text : List UInt8) : Prop :=
  let start := re.head? = some (chr '^')
  let is := items (if start then re.tail else re)
  ∃ before found after, text = before ++ found ++ after ∧ (start → before = []) ∧ (is.2 = true → after = []) ∧
    found ∈ Denotes is.1

/-- A string of `l` is at the beginning of the text, and is all of it if `e` holds. -/
def Begins (l : Language UInt8) (e : Prop) (text : List UInt8) : Prop :=
  ∃ found after, text = found ++ after ∧ (e → after = []) ∧ found ∈ l

lemma begins_one : Begins 1 e text ↔ (e → text = []) := by
  constructor
  · rintro ⟨found, after, rfl, he, hl⟩
    rw [(Language.mem_one found).mp hl]
    exact he
  · intro h
    exact ⟨[], text, rfl, h, rfl⟩

lemma begins_add : Begins (l + m) e text ↔ Begins l e text ∨ Begins m e text := by
  constructor
  · rintro ⟨found, after, ht, he, hl | hm⟩
    · exact .inl ⟨found, after, ht, he, hl⟩
    · exact .inr ⟨found, after, ht, he, hm⟩
  · rintro (⟨found, after, ht, he, hl⟩ | ⟨found, after, ht, he, hm⟩)
    · exact ⟨found, after, ht, he, .inl hl⟩
    · exact ⟨found, after, ht, he, .inr hm⟩

lemma begins_single {c : UInt8} : Begins (single c * l) e text ↔
    ∃ t rest, text = t :: rest ∧ (c = chr '.' ∨ c = t) ∧ Begins l e rest := by
  constructor
  · rintro ⟨_, after, rfl, he, _, ⟨t, rfl, hc⟩, found, hl, rfl⟩
    exact ⟨t, found ++ after, rfl, hc, found, after, rfl, he, hl⟩
  · rintro ⟨t, _, rfl, hc, found, after, rfl, he, hl⟩
    exact ⟨t :: found, after, rfl, he, [t], ⟨t, rfl, hc⟩, found, hl, rfl⟩

lemma begins_kstar : Begins (l∗ * m) e text ↔ Begins m e text ∨ Begins (l * (l∗ * m)) e text := by
  rw [← begins_add, ← mul_assoc, ← one_add_mul, Language.one_add_self_mul_kstar_eq_kstar]

section here

variable {c : UInt8} {here : List UInt8 → Bool} (h : ∀ text, here text = true ↔ Begins l e text)
include h

lemma matchchar_iff : matchchar c here text = true ↔ Begins (single c * l) e text := by
  rw [begins_single]
  cases text with
  | nil => simp [matchchar]
  | cons t text => simp [matchchar, h]

/-- The induction is on the text, of which the star takes one character after the other. -/
lemma matchstar_iff : matchstar c here text = true ↔ Begins ((single c)∗ * l) e text := by
  induction text with
  | nil =>
    rw [begins_kstar, begins_single]
    simp [matchstar, h]
  | cons t text ih =>
    rw [begins_kstar, begins_single]
    simp [matchstar, h, ih, or_comm (a := c = t), eq_comm (a := t)]

end here

lemma matchhere_iff (re text : List UInt8) :
    matchhere re text = true ↔ Begins (Denotes (items re).1) ((items re).2 = true) text := by
  induction re using items.induct generalizing text with
  | case1 => simp [matchhere, items, Denotes, begins_one]
  | case2 => simp [matchhere, items, Denotes, begins_one]
  | case3 c hc =>
    have hrest : ∀ text, matchhere [] text = true ↔ Begins 1 (false = true) text := by
      simp [matchhere, begins_one]
    simp only [matchhere, items, if_neg hc]
    exact matchchar_iff hrest
  | case4 c re ih =>
    simp [matchhere, items, Denotes, Item.language, matchstar_iff ih]
  | case5 c d re hd ih =>
    simp [matchhere, items, Denotes, Item.language, hd, matchchar_iff ih]

lemma matchFrom_iff (re text : List UInt8) :
    matchFrom re text = true ↔ ∃ before rest, text = before ++ rest ∧ matchhere re rest = true := by
  induction text with
  | nil => simp [matchFrom]
  | cons t text ih =>
    rw [matchFrom, Bool.or_eq_true, ih]
    constructor
    · rintro (h | ⟨before, rest, rfl, h⟩)
      · exact ⟨[], _, rfl, h⟩
      · exact ⟨t :: before, rest, rfl, h⟩
    · rintro ⟨before, rest, ht, h⟩
      cases before with
      | nil => exact .inl (ht ▸ h)
      | cons b before =>
        obtain ⟨-, rfl⟩ := List.cons.inj ht
        exact .inr ⟨before, rest, rfl, h⟩

/-- `match` finds a match exactly where there is one. -/
theorem match_correct (re text : List UInt8) : matchText re text = true ↔ Matches re text := by
  unfold matchText Matches
  by_cases hre : re.head? = some (chr '^')
  · simp only [hre, if_true, matchhere_iff, forall_const]
    constructor
    · rintro ⟨found, after, ht, he, hl⟩
      exact ⟨[], found, after, ht, rfl, he, hl⟩
    · rintro ⟨_, found, after, ht, rfl, he, hl⟩
      exact ⟨found, after, ht, he, hl⟩
  · simp only [hre, if_false, matchFrom_iff, matchhere_iff, false_imp_iff, true_and]
    constructor
    · rintro ⟨before, _, rfl, found, after, rfl, he, hl⟩
      exact ⟨before, found, after, (List.append_assoc ..).symm, he, hl⟩
    · rintro ⟨before, found, after, rfl, he, hl⟩
      exact ⟨before, found ++ after, List.append_assoc .., found, after, rfl, he, hl⟩

end Xv6.Grep
