import Xv6.Kalloc
import Xv6.Lib.Chain
import Mathlib.Data.Set.Insert

/-! # What is on the free list -/

namespace Xv6.Kmem

open Vm Chain List

/-- The memories of all runs in which no free page is freed or written, with the set of the free pages. -/
inductive Run (L : Layout) : Table Nat → Set Nat → Prop
  | boot {m} : m 0 = 0 → Run L m ∅
  | kalloc {m F} : Run L m F → Run L (kalloc m).2 (F \ {(kalloc m).1})
  | kfree {m m' F v} : Run L m F → v ∉ F → kfree L v m = some m' → Run L m' (insert v F)
  | store {m F v} (w : Nat) : Run L m F → v ≠ 0 → v ∉ F → Run L (m.set v w) F

variable {L : Layout} {m : Table Nat} {F : Set Nat}

lemma Run.pos (h : Run L m F) : 0 ∉ F := by
  induction h with
  | boot => exact id
  | kalloc _ ih => exact fun h0 => ih h0.1
  | store _ _ _ _ ih => exact ih
  | kfree _ _ hk ih =>
    rintro (rfl | h0)
    · simp [Kmem.kfree, L.kend_pos] at hk
    · exact ih h0

lemma Run.list (h : Run L m F) : ∃ l, Path m 0 l 0 ∧ l.Nodup ∧ ∀ v, v ∈ l ↔ v ∈ F := by
  induction h with
  | boot h => exact ⟨[], h, nodup_nil, by simp⟩
  | @kalloc m F h ih =>
    obtain ⟨l, hp, hn, hF⟩ := ih
    have h0 : ∀ v ∈ l, v ≠ 0 := fun v hv he => h.pos ((hF 0).mp (he ▸ hv))
    cases l with
    | nil => exact ⟨[], by simpa [Kmem.kalloc, show m 0 = 0 from hp], hn, by simp [← hF]⟩
    | cons a l =>
      obtain ⟨rfl, hp⟩ := hp
      have ha : m 0 ≠ 0 := h0 _ mem_cons_self
      have hne := (nodup_cons.mp hn).1
      refine ⟨l, ?_, (nodup_cons.mp hn).2, fun v => ?_⟩
      · rw [Kmem.kalloc, if_neg ha]
        exact hp.enter (by simp) fun x hx => by simp [h0 x (mem_cons_of_mem _ hx)]
      · rw [Set.mem_sdiff, ← hF, mem_cons]
        grind [Kmem.kalloc]
  | @kfree m m' F v h hv hk ih =>
    obtain ⟨l, hp, hn, hF⟩ := ih
    have hv0 : v ≠ 0 := fun h0 => (h.kfree hv hk).pos (h0 ▸ Set.mem_insert v F)
    have hl : v ∉ l := fun hm => hv ((hF v).mp hm)
    obtain ⟨-, ⟨⟩⟩ := Option.ite_none_left_eq_some.mp hk
    refine ⟨v :: l, ⟨by simp, hp.enter (by simp [hv0]) fun x hx => ?_⟩, hn.cons hl, fun x => by simp [hF]⟩
    have hx0 : x ≠ 0 := fun h0 => h.pos ((hF 0).mp (h0 ▸ hx))
    have hxv : x ≠ v := fun he => hl (he ▸ hx)
    rw [Table.get_set_ne _ _ hx0, Table.get_set_ne _ _ hxv]
  | @store m F v w h h0 hv ih =>
    obtain ⟨l, hp, hn, hF⟩ := ih
    refine ⟨l, hp.congr fun x hx => Table.get_set_ne _ _ ?_, hn, hF⟩
    rintro rfl
    rcases mem_cons.mp hx with rfl | hx
    · exact h0 rfl
    · exact hv ((hF x).mp hx)

/-- The free pages are linked in some order, each once, and `kalloc` returns one of them unless there is none. -/
theorem free_pages_listed (h : Run L m F) :
    (∃ l, Path m 0 l 0 ∧ l.Nodup ∧ ∀ v, v ∈ l ↔ v ∈ F) ∧ ((kalloc m).1 = 0 ∧ F = ∅ ∨ (kalloc m).1 ∈ F) := by
  obtain ⟨l, hp, hn, hF⟩ := h.list
  refine ⟨⟨l, hp, hn, hF⟩, ?_⟩
  cases l with
  | nil => exact .inl ⟨hp, Set.eq_empty_of_forall_notMem fun v hv => by simp [← hF] at hv⟩
  | cons a l => exact .inr ((hF _).mp (hp.1 ▸ mem_cons_self))

/-- Three pages are freed, two of them taken and written to, and one of these freed again. -/
theorem free_pages_listed_reused : ∃ (L : Layout) (m m' : Table Nat),
    (kfree L 0x112000 (.const 0) >>= kfree L 0x113000 >>= kfree L 0x114000) = some m ∧
    kfree L 0x114000 (((kalloc (kalloc m).2).2.set 0x114000 7).set 0x113000 9) = some m' ∧
    (∃ l, Path m' 0 l 0 ∧ l.Nodup ∧ ∀ v, v ∈ l ↔ v = 0x112000 ∨ v = 0x114000) ∧
    ((kalloc m').1 = 0x112000 ∨ (kalloc m').1 = 0x114000) := by
  let L : Layout := ⟨0x80108000, 0x112000, by decide, by decide, by decide, by decide⟩
  refine ⟨L, _, _, rfl, rfl, ?_⟩
  have hF : ∀ v, v ∈ insert 0x114000 (((insert 0x114000 (insert 0x113000 (insert 0x112000 ∅)) : Set Nat) \
      {0x114000}) \ {0x113000}) ↔ v = 0x112000 ∨ v = 0x114000 := by grind
  have hfreed := (((Run.boot (m := .const 0) rfl).kfree (L := L) (v := 0x112000) id rfl).kfree (v := 0x113000)
    (by simp) rfl).kfree (v := 0x114000) (by simp) rfl
  have htake : ∀ {m F a}, Run L m F → (kalloc m).1 = a → Run L (kalloc m).2 (F \ {a}) := fun h ha => ha ▸ h.kalloc
  have hused := ((htake (htake hfreed (a := 0x114000) rfl) (a := 0x113000) rfl).store (v := 0x114000) 7 (by decide)
    (by simp)).store (v := 0x113000) 9 (by decide) (by simp)
  obtain ⟨⟨l, hp, hn, hl⟩, hk⟩ := free_pages_listed (hused.kfree (v := 0x114000) (by simp) rfl)
  exact ⟨⟨l, hp, hn, fun v => (hl v).trans (hF v)⟩, (hF _).mp (hk.resolve_left fun h => absurd h.1 (by decide))⟩

lemma freerangeFrom_frees {vend p : Nat} (h : Run L m F) (hp : p % PGSIZE = 0) (hlo : L.kend ≤ p) (hhi : vend ≤ PHYSTOP)
    (hF : ∀ v ∈ F, p ≤ v → vend ≤ v) : ∃ m', freerangeFrom L vend p m = some m' ∧
      Run L m' (F ∪ {v | v % PGSIZE = 0 ∧ p ≤ v ∧ v + PGSIZE ≤ vend}) := by
  have hpos : 0 < PGSIZE := by decide
  fun_induction freerangeFrom L vend p m generalizing F with
  | case1 p m hle ih =>
    have hk : Kmem.kfree L p m = some ((m.set p (m 0)).set 0 p) := if_neg (by omega)
    have hnot : p ∉ F := fun hv => by
      have := hF p hv le_rfl
      omega
    have hF' : ∀ v ∈ insert p F, p + PGSIZE ≤ v → vend ≤ v := by
      rintro v (rfl | hv) hge
      · omega
      · exact hF v hv (by omega)
    obtain ⟨m', hm', hr⟩ := ih _ (h.kfree hnot hk) (by simpa) (by omega) hF'
    refine ⟨m', by rw [hk, Option.bind_some, hm'], ?_⟩
    convert hr using 1
    ext v
    have : v % PGSIZE = 0 → p ≤ v → v = p ∨ p + PGSIZE ≤ v := by
      unfold PGSIZE at *
      omega
    grind
  | case2 p m hlt =>
    refine ⟨m, rfl, ?_⟩
    convert h
    grind

lemma pgroundup_le_iff {a v : Nat} (ha : a ≤ 2 ^ 32 - PGSIZE) (hv : v % PGSIZE = 0) : pgroundup a ≤ v ↔ a ≤ v := by
  unfold pgroundup PGSIZE at *
  omega

/-- `freerange` makes the whole pages of a range free and no others, and does not panic. -/
theorem freerange_frees {vstart vend : Nat} (h : Run L m F) (hstart : vstart ≤ 2 ^ 32 - PGSIZE) (hlo : L.kend ≤ vstart)
    (hhi : vend ≤ PHYSTOP) (hF : ∀ v ∈ F, vstart ≤ v → vend ≤ v) : ∃ m', freerange L vstart vend m = some m' ∧
      Run L m' (F ∪ {v | v % PGSIZE = 0 ∧ vstart ≤ v ∧ v + PGSIZE ≤ vend}) := by
  have hround : pgroundup vstart % PGSIZE = 0 := Nat.mul_mod_left ..
  have hle : vstart ≤ pgroundup vstart := (pgroundup_le_iff hstart hround).mp le_rfl
  obtain ⟨m', hm, hr⟩ := freerangeFrom_frees h hround (hlo.trans hle) hhi fun v hv hge => hF v hv (hle.trans hge)
  refine ⟨m', hm, ?_⟩
  convert hr using 4
  rename_i v
  exact and_congr_right fun hv => and_congr_left fun _ => (pgroundup_le_iff hstart hv).symm

/-- `kinit1`, for a kernel that ends within a page. -/
theorem freerange_frees_first : ∃ (L : Layout) (m : Table Nat), freerange L 0x112345 0x400000 (.const 0) = some m ∧
    Run L m (∅ ∪ {v | v % PGSIZE = 0 ∧ 0x112345 ≤ v ∧ v + PGSIZE ≤ 0x400000}) := by
  refine ⟨⟨0x80108000, 0x112345, by decide, by decide, by decide, by decide⟩, ?_⟩
  exact freerange_frees (.boot rfl) (by decide) le_rfl (by decide) nofun

end Xv6.Kmem
