import Mathlib.Algebra.BigOperators.Group.List.Basic
import Mathlib.Algebra.GroupWithZero.Nat
import Mathlib.Data.List.Induction
import Xv6.Umalloc

/-!
# The list of free blocks

What `free` does to the blocks is `insert`: the block goes to its place and is joined with a
neighbour that it touches.
-/

namespace Xv6.Umalloc

open Chain List Table

/-! ## Blocks -/

namespace Blk

def Apart (b c : Blk) : Prop := b.fin ≤ c.a ∨ c.fin ≤ b.a

lemma Apart.symm {b c : Blk} (h : b.Apart c) : c.Apart b := Or.symm h

end Blk

/-- By increasing address, with gaps in between, and all above `base`. -/
structure Gaps (base : Nat) (bs : List Blk) : Prop where
  sorted : bs.Pairwise fun b c => b.fin < c.a
  pos : ∀ b ∈ bs, 0 < b.n
  low : ∀ b ∈ bs, base + HEADER ≤ b.a

def units (bs : List Blk) : Nat := (bs.map Blk.n).sum

lemma units_append (bs bs' : List Blk) : units (bs ++ bs') = units bs + units bs' := by
  simp [units]

lemma units_cons (b : Blk) (bs : List Blk) : units (b :: bs) = b.n + units bs := by
  simp [units]

lemma length_le_units {bs : List Blk} (h : ∀ b ∈ bs, 0 < b.n) : bs.length ≤ units bs := by
  induction bs with
  | nil => exact Nat.zero_le _
  | cons b bs ih =>
    have hb := h b mem_cons_self
    have hrest := ih fun c hc => h c (mem_cons_of_mem _ hc)
    rw [length_cons, units_cons]
    omega

lemma Gaps.place {base : Nat} {bs : List Blk} {x : Blk} (h : Gaps base bs) (hx : ∀ b ∈ bs, b.Apart x) :
    ∃ lo hi, bs = lo ++ hi ∧ (∀ b ∈ lo, b.fin ≤ x.a) ∧ ∀ b ∈ hi, x.fin ≤ b.a := by
  induction bs with
  | nil => exact ⟨[], [], rfl, nofun, nofun⟩
  | cons b bs ih =>
    have htail : Gaps base bs :=
      ⟨(pairwise_cons.mp h.sorted).2, fun c hc => h.pos c (mem_cons_of_mem _ hc),
        fun c hc => h.low c (mem_cons_of_mem _ hc)⟩
    rcases hx b mem_cons_self with hb | hb
    · obtain ⟨lo, hi, rfl, hlo, hhi⟩ := ih htail fun c hc => hx c (mem_cons_of_mem _ hc)
      refine ⟨b :: lo, hi, rfl, ?_, hhi⟩
      intro c hc
      rcases mem_cons.mp hc with rfl | hc
      · exact hb
      · exact hlo c hc
    refine ⟨[], b :: bs, rfl, nofun, ?_⟩
    intro c hc
    rcases mem_cons.mp hc with rfl | hc
    · exact hb
    · have hlt := (pairwise_cons.mp h.sorted).1 c hc
      have hfin : b.a ≤ b.fin := Nat.le_add_right _ _
      omega

/-! ## Insertion -/

/-- The block, joined with the first of the blocks above it if they touch. -/
def joinRight (x : Blk) : List Blk → Blk × List Blk
  | [] => (x, [])
  | q :: hi => if x.fin = q.a then (⟨x.a, x.n + q.n⟩, hi) else (x, q :: hi)

/-- The block, joined with the last of the blocks below it if they touch. -/
def joinLeft (lo : List Blk) (x : Blk) : List Blk :=
  match lo.getLast? with
  | some p => if p.fin = x.a then lo.dropLast ++ [⟨p.a, p.n + x.n⟩] else lo ++ [x]
  | none => [x]

def insert (lo : List Blk) (x : Blk) (hi : List Blk) : List Blk :=
  joinLeft lo (joinRight x hi).1 ++ (joinRight x hi).2

lemma joinLeft_nil (x : Blk) : joinLeft [] x = [x] := rfl

lemma joinLeft_concat (lo : List Blk) (p x : Blk) :
    joinLeft (lo ++ [p]) x = if p.fin = x.a then lo ++ [⟨p.a, p.n + x.n⟩] else lo ++ [p] ++ [x] := by
  rw [joinLeft, List.getLast?_concat]
  simp only [dropLast_concat]

structure Inserts (base : Nat) (x : Blk) (bs bs' : List Blk) : Prop where
  gaps : Gaps base bs'
  units : units bs' = units bs + x.n
  length : bs'.length ≤ bs.length + 1
  covers : ∃ y ∈ bs', x.n ≤ y.n
  apart : ∀ c : Blk, 0 < c.n → c.Apart x → (∀ b ∈ bs, c.Apart b) → ∀ b ∈ bs', c.Apart b
  high : ∀ top, x.fin ≤ top → (∀ b ∈ bs, b.fin ≤ top) → ∀ b ∈ bs', b.fin ≤ top

section

variable {base : Nat} {x p q : Blk} {lo hi : List Blk}

lemma fin_join (h : x.fin = q.a) : Blk.fin ⟨x.a, x.n + q.n⟩ = q.fin := by
  simp only [Blk.fin, HEADER] at h ⊢
  omega

lemma apart_join {c : Blk} (hc : 0 < c.n) (h : x.fin = q.a) (hx : c.Apart x) (hq : c.Apart q) :
    c.Apart ⟨x.a, x.n + q.n⟩ := by
  have hfin := fin_join h
  simp only [Blk.Apart] at hx hq ⊢
  rw [hfin]
  have hlt : c.a < c.fin := by
    simp only [Blk.fin, HEADER]
    omega
  omega

lemma inserts_between (h : Gaps base (lo ++ hi)) (hpos : 0 < x.n) (hlow : base + HEADER ≤ x.a)
    (hlo : ∀ b ∈ lo, b.fin < x.a) (hhi : ∀ b ∈ hi, x.fin < b.a) :
    Inserts base x (lo ++ hi) (lo ++ x :: hi) := by
  have hmem : ∀ b, b ∈ lo ++ x :: hi ↔ b = x ∨ b ∈ lo ++ hi := by
    intro b
    simp only [mem_append, mem_cons]
    tauto
  obtain ⟨hl, hh, hlh⟩ := pairwise_append.mp h.sorted
  refine ⟨⟨?_, ?_, ?_⟩, ?_, ?_, ⟨x, ?_, Nat.le_refl _⟩, ?_, ?_⟩
  · refine pairwise_append.mpr ⟨hl, pairwise_cons.mpr ⟨hhi, hh⟩, ?_⟩
    intro b hb c hc
    rcases mem_cons.mp hc with rfl | hc
    · exact hlo b hb
    · exact hlh b hb c hc
  · intro b hb
    rcases (hmem b).mp hb with rfl | hb
    · exact hpos
    · exact h.pos b hb
  · intro b hb
    rcases (hmem b).mp hb with rfl | hb
    · exact hlow
    · exact h.low b hb
  · rw [units_append, units_append, units_cons]
    omega
  · simp only [length_append, length_cons]
    omega
  · exact (hmem x).mpr (.inl rfl)
  · intro c _ hx hc b hb
    rcases (hmem b).mp hb with rfl | hb
    · exact hx
    · exact hc b hb
  · intro top hx hc b hb
    rcases (hmem b).mp hb with rfl | hb
    · exact hx
    · exact hc b hb

/-- A block that touches the block `q` of the list goes in as the two in one. -/
lemma Inserts.join {y : Blk} {bs' : List Blk} (hn : y.n = x.n + q.n)
    (hapart : ∀ c : Blk, 0 < c.n → c.Apart x → c.Apart q → c.Apart y)
    (hfin : ∀ top, x.fin ≤ top → q.fin ≤ top → y.fin ≤ top) (h : Inserts base y (lo ++ hi) bs') :
    Inserts base x (lo ++ q :: hi) bs' := by
  have hq : q ∈ lo ++ q :: hi := by simp
  have hmem : ∀ b ∈ lo ++ hi, b ∈ lo ++ q :: hi := by
    intro b hb
    simp only [mem_append, mem_cons] at hb ⊢
    tauto
  refine ⟨h.gaps, ?_, ?_, ?_, ?_, ?_⟩
  · rw [h.units, units_append, units_append, units_cons]
    omega
  · have hlen := h.length
    simp only [length_append, length_cons] at hlen ⊢
    omega
  · obtain ⟨z, hz, hle⟩ := h.covers
    exact ⟨z, hz, by omega⟩
  · intro c hpos hx hc
    exact h.apart c hpos (hapart c hpos hx (hc q hq)) fun b hb => hc b (hmem b hb)
  · intro top hx hc
    exact h.high top (hfin top hx (hc q hq)) fun b hb => hc b (hmem b hb)

lemma Gaps.sublist {bs bs' : List Blk} (h : Gaps base bs) (hsub : bs'.Sublist bs) : Gaps base bs' :=
  ⟨h.sorted.sublist hsub, fun b hb => h.pos b (hsub.subset hb), fun b hb => h.low b (hsub.subset hb)⟩

lemma inserts_left (h : Gaps base (lo ++ hi)) (hpos : 0 < x.n) (hlow : base + HEADER ≤ x.a)
    (hlo : ∀ b ∈ lo, b.fin ≤ x.a) (hhi : ∀ b ∈ hi, x.fin < b.a) :
    Inserts base x (lo ++ hi) (joinLeft lo x ++ hi) := by
  rcases eq_nil_or_concat' lo with rfl | ⟨lo, p, rfl⟩
  · exact inserts_between h hpos hlow nofun hhi
  have hp : p ∈ lo ++ [p] ++ hi := by simp
  rw [joinLeft_concat]
  have hsorted := pairwise_append.mp (pairwise_append.mp h.sorted).1
  have hbelow : ∀ b ∈ lo, b.fin < p.a := fun b hb => hsorted.2.2 b hb p (mem_singleton_self p)
  have hpfin : p.fin ≤ x.a := hlo p (by simp)
  have hpa : p.a ≤ p.fin := Nat.le_add_right _ _
  by_cases htouch : p.fin = x.a
  · simp only [if_pos htouch, append_assoc, singleton_append]
    refine Inserts.join (Nat.add_comm _ _) (fun c hc hx hp => apart_join hc htouch hp hx)
      (fun top hx _ => (fin_join htouch).trans_le hx) ?_
    have hgaps : Gaps base (lo ++ hi) := h.sublist (by simp)
    apply inserts_between hgaps
    · change 0 < p.n + x.n
      omega
    · exact h.low p hp
    · exact hbelow
    · intro b hb
      rw [fin_join htouch]
      exact hhi b hb
  · rw [if_neg htouch, append_assoc (lo ++ [p]) [x] hi, singleton_append]
    apply inserts_between h hpos hlow _ hhi
    intro b hb
    rcases mem_append.mp hb with hb | hb
    · have := hbelow b hb
      omega
    · rw [mem_singleton.mp hb]
      omega

theorem inserts_insert (h : Gaps base (lo ++ hi)) (hpos : 0 < x.n) (hlow : base + HEADER ≤ x.a)
    (hlo : ∀ b ∈ lo, b.fin ≤ x.a) (hhi : ∀ b ∈ hi, x.fin ≤ b.a) :
    Inserts base x (lo ++ hi) (insert lo x hi) := by
  cases hi with
  | nil => exact inserts_left h hpos hlow hlo nofun
  | cons q hi =>
    have habove : ∀ b ∈ hi, q.fin < b.a := (pairwise_cons.mp (pairwise_append.mp h.sorted).2.1).1
    have hqa : q.a ≤ q.fin := Nat.le_add_right _ _
    rw [insert, Umalloc.joinRight]
    by_cases htouch : x.fin = q.a
    · rw [if_pos htouch]
      refine Inserts.join rfl (fun c hc => apart_join hc htouch) (fun top _ hq => (fin_join htouch).trans_le hq) ?_
      have hgaps : Gaps base (lo ++ hi) := h.sublist (by simp)
      apply inserts_left hgaps
      · change 0 < x.n + q.n
        omega
      · exact hlow
      · exact hlo
      · intro b hb
        rw [fin_join htouch]
        exact habove b hb
    · rw [if_neg htouch]
      apply inserts_left h hpos hlow hlo
      intro b hb
      have hxq := hhi q mem_cons_self
      rcases mem_cons.mp hb with rfl | hb
      · omega
      · have := habove b hb
        omega

end

/-! ## The list in memory -/

/-- The headers of the free blocks, in a circle from `base`. -/
structure FreeList (base : Nat) (s : Heap) (bs : List Blk) : Prop where
  path : Path s.ptr base (bs.map Blk.a) base
  size : ∀ b ∈ bs, s.size b.a = b.n
  head : s.size base = 0
  freep : s.freep ∈ base :: bs.map Blk.a

section

variable {base : Nat} {s : Heap} {x : Blk} {lo hi bs : List Blk}

def place (base : Nat) (lo : List Blk) : Nat := (base :: lo.map Blk.a).getLast (cons_ne_nil _ _)

lemma place_nil : place base [] = base := rfl

lemma place_concat (lo : List Blk) (p : Blk) : place base (lo ++ [p]) = p.a := by
  simp [place]

lemma place_mem : place base lo ∈ base :: lo.map Blk.a := getLast_mem _

lemma FreeList.path_place (h : FreeList base s (lo ++ hi)) : Path s.ptr (place base lo) (hi.map Blk.a) base := by
  rcases eq_nil_or_concat' lo with rfl | ⟨lo, p, rfl⟩
  · exact h.path
  have hpath := h.path
  rw [append_assoc, map_append] at hpath
  rw [place_concat]
  exact (path_append.mp hpath).2

lemma Gaps.addresses (h : Gaps base bs) : (base :: bs.map Blk.a).Pairwise (· < ·) := by
  refine pairwise_cons.mpr ⟨?_, ?_⟩
  · intro y hy
    obtain ⟨b, hb, rfl⟩ := mem_map.mp hy
    have hlow := h.low b hb
    simp only [HEADER] at hlow
    omega
  · refine pairwise_map.mpr (h.sorted.imp fun {b c} hbc => ?_)
    have hfin : b.a ≤ b.fin := Nat.le_add_right _ _
    omega

lemma FreeList.next_cases {y : Nat} (h : FreeList base s bs) (hg : Gaps base bs) (hy : y ∈ base :: bs.map Blk.a) :
    (s.ptr y = base ∧ ∀ z ∈ base :: bs.map Blk.a, z ≤ y) ∨
    (y < s.ptr y ∧ s.ptr y ∈ base :: bs.map Blk.a ∧ ∀ z ∈ base :: bs.map Blk.a, z ≤ y ∨ s.ptr y ≤ z) := by
  have hsorted := hg.addresses
  rcases h.path.next_eq hy with ⟨u, heq, hnext⟩ | ⟨u, v, heq⟩
  · left
    rw [heq] at hsorted ⊢
    refine ⟨hnext, fun z hz => ?_⟩
    rcases mem_append.mp hz with hz | hz
    · exact Nat.le_of_lt ((pairwise_append.mp hsorted).2.2 z hz y (mem_singleton_self y))
    · exact Nat.le_of_eq (mem_singleton.mp hz)
  right
  rw [heq] at hsorted ⊢
  obtain ⟨-, htail, hu⟩ := pairwise_append.mp hsorted
  obtain ⟨hy', hrest⟩ := pairwise_cons.mp htail
  refine ⟨hy' _ mem_cons_self, by simp, fun z hz => ?_⟩
  rcases mem_append.mp hz with hz | hz
  · exact .inl (Nat.le_of_lt (hu z hz y mem_cons_self))
  rcases mem_cons.mp hz with rfl | hz
  · exact .inl (Nat.le_refl _)
  · rcases mem_cons.mp hz with rfl | hz
    · exact .inr (Nat.le_refl _)
    · exact .inr (Nat.le_of_lt ((pairwise_cons.mp hrest).1 z hz))

lemma place_greatest (hg : Gaps base (lo ++ hi)) (hlow : base + HEADER ≤ x.a) (hpos : 0 < x.n)
    (hlo : ∀ b ∈ lo, b.fin ≤ x.a) (hhi : ∀ b ∈ hi, x.fin ≤ b.a) :
    place base lo < x.a ∧ ∀ z ∈ base :: (lo ++ hi).map Blk.a, z ≤ place base lo ∨ x.a < z := by
  have hbelow : ∀ z ∈ base :: lo.map Blk.a, z < x.a := by
    intro z hz
    rcases mem_cons.mp hz with rfl | hz
    · simp only [HEADER] at hlow
      omega
    obtain ⟨b, hb, rfl⟩ := mem_map.mp hz
    have hfin := hlo b hb
    have hb := hg.pos b (mem_append_left _ hb)
    simp only [Blk.fin, HEADER] at hfin
    omega
  refine ⟨hbelow _ place_mem, fun z hz => ?_⟩
  rw [map_append, ← cons_append] at hz
  rcases mem_append.mp hz with hz | hz
  · left
    have hsorted := hg.addresses
    rw [map_append, ← cons_append] at hsorted
    have hlosorted := (pairwise_append.mp hsorted).1
    have hsplit := dropLast_append_getLast (cons_ne_nil base (lo.map Blk.a))
    rw [← hsplit] at hz hlosorted
    rcases mem_append.mp hz with hz | hz
    · exact Nat.le_of_lt ((pairwise_append.mp hlosorted).2.2 z hz _ (mem_singleton_self _))
    · exact Nat.le_of_eq (mem_singleton.mp hz)
  · right
    obtain ⟨b, hb, rfl⟩ := mem_map.mp hz
    have hfin := hhi b hb
    simp only [Blk.fin, HEADER] at hfin
    omega

/-- The search of `free` stops at the place of the block and nowhere else. -/
lemma FreeList.isPlace_iff (h : FreeList base s (lo ++ hi)) (hg : Gaps base (lo ++ hi))
    (hlow : base + HEADER ≤ x.a) (hpos : 0 < x.n) (hlo : ∀ b ∈ lo, b.fin ≤ x.a) (hhi : ∀ b ∈ hi, x.fin ≤ b.a) :
    ∀ y ∈ base :: (lo ++ hi).map Blk.a, s.isPlace x.a y = true ↔ y = place base lo := by
  intro y hy
  obtain ⟨hplace, hgreatest⟩ := place_greatest hg hlow hpos hlo hhi
  have hmem : place base lo ∈ base :: (lo ++ hi).map Blk.a := by
    rw [map_append, ← cons_append]
    exact mem_append_left _ place_mem
  have hycases := hgreatest y hy
  rw [Heap.isPlace, decide_eq_true_iff]
  rcases h.next_cases hg hy with ⟨hnext, hlast⟩ | ⟨hlt, hnext, hnone⟩
  · have hm := hlast _ hmem
    rw [hnext]
    have hb := hlast base mem_cons_self
    omega
  · have hm := hnone _ hmem
    have hn := hgreatest _ hnext
    omega

lemma FreeList.seek_eq (h : FreeList base s (lo ++ hi)) (hg : Gaps base (lo ++ hi)) (hlow : base + HEADER ≤ x.a)
    (hpos : 0 < x.n) (hlo : ∀ b ∈ lo, b.fin ≤ x.a) (hhi : ∀ b ∈ hi, x.fin ≤ b.a)
    (hunits : Umalloc.units (lo ++ hi) ≤ s.units) :
    seek s.ptr (s.isPlace x.a) (s.units + 1) s.freep = some (place base lo) := by
  obtain ⟨l, hpath, hperm⟩ := h.path.rotate h.freep
  have hmem : place base lo ∈ base :: (lo ++ hi).map Blk.a := by
    rw [map_append, ← cons_append]
    exact mem_append_left _ place_mem
  apply seek_path hpath (hperm.mem_iff.mpr hmem)
  · intro y hy
    exact h.isPlace_iff hg hlow hpos hlo hhi y (hperm.mem_iff.mp hy)
  have hlen := hperm.length_eq
  have hle := length_le_units hg.pos
  simp only [length_cons, length_map] at hlen
  omega

structure Linked (base : Nat) (x : Blk) (hi : List Blk) (s s' : Heap) : Prop where
  ptr : ∀ y, y ≠ x.a → s'.ptr y = s.ptr y
  sizes : ∀ y, y ≠ x.a → s'.size y = s.size y
  size : s'.size x.a = (joinRight x hi).1.n
  path : Path s'.ptr x.a ((joinRight x hi).2.map Blk.a) base

lemma FreeList.linkNext (h : FreeList base s (lo ++ hi)) (hlow : base + HEADER ≤ x.a)
    (hx : ∀ y ∈ base :: (lo ++ hi).map Blk.a, y ≠ x.a) (hsize : s.size x.a = x.n) :
    Linked base x hi s (s.linkNext x.a (place base lo)) := by
  have hpath := h.path_place
  rw [Heap.linkNext, hsize]
  cases hi with
  | nil =>
    have hnext : s.ptr (place base lo) = base := hpath
    have hne : ¬x.a + HEADER * x.n = base := by
      simp only [HEADER] at hlow ⊢
      omega
    simp only [hnext, if_neg hne]
    exact ⟨fun y hy => get_set_ne _ _ hy, fun _ _ => rfl, hsize, get_set_self _ _ _⟩
  | cons q hi =>
    obtain ⟨hnext, hrest⟩ := hpath
    have hq : q ∈ lo ++ q :: hi := by simp
    have hxhi : ∀ y ∈ q.a :: hi.map Blk.a, y ≠ x.a := by
      intro y hy
      apply hx y
      rw [map_append, map_cons]
      exact mem_cons_of_mem _ (mem_append_right _ hy)
    by_cases htouch : x.fin = q.a
    · have htouch' : x.a + HEADER * x.n = q.a := htouch
      have hjoin : joinRight x (q :: hi) = (⟨x.a, x.n + q.n⟩, hi) := if_pos htouch
      simp only [hnext, if_pos htouch', h.size q hq]
      refine ⟨fun y hy => get_set_ne _ _ hy, fun y hy => get_set_ne _ _ hy, ?_, ?_⟩
      · rw [hjoin]
        exact get_set_self _ _ _
      rw [hjoin]
      exact hrest.enter (get_set_self _ _ _) fun y hy => get_set_ne _ _ (hxhi y (mem_cons_of_mem _ hy))
    have htouch' : ¬x.a + HEADER * x.n = q.a := htouch
    have hjoin : joinRight x (q :: hi) = (x, q :: hi) := if_neg htouch
    simp only [hnext, if_neg htouch']
    refine ⟨fun y hy => get_set_ne _ _ hy, fun _ _ => rfl, ?_, ?_⟩
    · rw [hjoin]
      exact hsize
    rw [hjoin]
    refine ⟨get_set_self _ _ _, ?_⟩
    exact hrest.congr fun y hy => get_set_ne _ _ (hxhi y hy)

lemma joinRight_fst_a (x : Blk) (hi : List Blk) : (joinRight x hi).1.a = x.a := by
  cases hi with
  | nil => rfl
  | cons q hi =>
    rw [joinRight]
    split <;> rfl

lemma joinRight_snd_sublist (x : Blk) (hi : List Blk) : (joinRight x hi).2.Sublist hi := by
  cases hi with
  | nil => exact List.Sublist.refl _
  | cons q hi =>
    rw [joinRight]
    split
    · exact sublist_cons_self q hi
    · exact List.Sublist.refl _

lemma Linked.linkPrev {s' : Heap} {p : Nat} (hlink : Linked base x hi s s') (hp : p ≠ x.a)
    (hhi : ∀ y ∈ ((joinRight x hi).2).map Blk.a, y ≠ p) :
    let s2 := s'.linkPrev x.a p
    (∀ y, y ≠ x.a → y ≠ p → s2.ptr y = s.ptr y) ∧ (∀ y, y ≠ x.a → y ≠ p → s2.size y = s.size y) ∧
    if p + HEADER * s.size p = x.a then
      s2.size p = s.size p + (joinRight x hi).1.n ∧ Path s2.ptr p ((joinRight x hi).2.map Blk.a) base
    else
      s2.size p = s.size p ∧ s2.size x.a = (joinRight x hi).1.n ∧
      Path s2.ptr p (x.a :: (joinRight x hi).2.map Blk.a) base := by
  intro s2
  simp only [s2, Heap.linkPrev, hlink.sizes p hp, hlink.size]
  by_cases htouch : p + HEADER * s.size p = x.a
  · simp only [if_pos htouch]
    refine ⟨fun y hy hyp => ?_, fun y hy hyp => ?_, get_set_self _ _ _, ?_⟩
    · exact (get_set_ne _ _ hyp).trans (hlink.ptr y hy)
    · exact (get_set_ne _ _ hyp).trans (hlink.sizes y hy)
    · exact hlink.path.enter (get_set_self _ _ _) fun y hy => get_set_ne _ _ (hhi y hy)
  simp only [if_neg htouch]
  refine ⟨fun y hy hyp => ?_, fun y hy _ => hlink.sizes y hy, hlink.sizes p hp, hlink.size,
    get_set_self _ _ _, ?_⟩
  · exact (get_set_ne _ _ hyp).trans (hlink.ptr y hy)
  refine hlink.path.congr fun y hy => get_set_ne _ _ ?_
  rcases mem_cons.mp hy with rfl | hy
  · exact hp.symm
  · exact hhi y hy

lemma FreeList.link (h : FreeList base s (lo ++ hi)) (hg : Gaps base (lo ++ hi)) (hlow : base + HEADER ≤ x.a)
    (hx : ∀ y ∈ base :: (lo ++ hi).map Blk.a, y ≠ x.a) (hsize : s.size x.a = x.n) :
    FreeList base (s.link x.a (place base lo)) (insert lo x hi) := by
  have hlink := h.linkNext hlow hx hsize
  have hsub := joinRight_snd_sublist x hi
  have hxa := joinRight_fst_a x hi
  have hsorted := hg.addresses
  have hnodup : (base :: (lo ++ hi).map Blk.a).Nodup := hsorted.imp Nat.ne_of_lt
  have hplace : place base lo ∈ base :: (lo ++ hi).map Blk.a := by
    rw [map_append, ← cons_append]
    exact mem_append_left _ place_mem
  have hhi : ∀ y ∈ ((joinRight x hi).2).map Blk.a, y ≠ place base lo := by
    intro y hy
    rw [map_append, ← cons_append] at hnodup
    have hdis := (nodup_append.mp hnodup).2.2
    exact (hdis _ place_mem y ((hsub.map Blk.a).subset hy)).symm
  obtain ⟨hptr, hsizes, hjoin⟩ := hlink.linkPrev (hx _ hplace) hhi
  have hhisize : ∀ b ∈ (joinRight x hi).2, (s.link x.a (place base lo)).size b.a = b.n := by
    intro b hb
    have hbmem : b ∈ lo ++ hi := mem_append_right _ (hsub.subset hb)
    have hbx := hx b.a (mem_cons_of_mem _ (mem_map_of_mem hbmem))
    exact (hsizes b.a hbx (hhi b.a (mem_map_of_mem hb))).trans (h.size b hbmem)
  rcases eq_nil_or_concat' lo with rfl | ⟨lo, p, rfl⟩
  · -- behind `base`
    have hne : ¬base + HEADER * s.size base = x.a := by
      rw [h.head]
      simp only [HEADER] at hlow ⊢
      omega
    rw [place_nil, if_neg hne] at hjoin
    obtain ⟨hb, hxsize, hpath⟩ := hjoin
    refine ⟨?_, ?_, hb.trans h.head, mem_cons_self⟩
    · rw [insert, joinLeft_nil, singleton_append, map_cons, hxa]
      exact hpath
    intro b hb
    rw [insert, joinLeft_nil, singleton_append] at hb
    rcases mem_cons.mp hb with rfl | hb
    · rw [hxa]
      exact hxsize
    · exact hhisize b hb
  · -- behind the block `p`
    have hpmem : p ∈ lo ++ [p] ++ hi := by simp
    have hpsize := h.size p hpmem
    rw [place_concat] at hjoin hptr hsizes hhisize ⊢
    rw [hpsize] at hjoin
    have hlo : ∀ y ∈ base :: lo.map Blk.a, y ≠ x.a ∧ y ≠ p.a := by
      intro y hy
      have hlist : base :: (lo ++ [p] ++ hi).map Blk.a = (base :: lo.map Blk.a) ++ (p.a :: hi.map Blk.a) := by simp
      rw [hlist] at hnodup hx
      exact ⟨hx y (mem_append_left _ hy), (nodup_append.mp hnodup).2.2 y hy p.a mem_cons_self⟩
    have hpath : Path ((s.link x.a p.a).ptr) base (lo.map Blk.a) p.a := by
      have hold := h.path
      rw [append_assoc, map_append] at hold
      exact (path_append.mp hold).1.congr fun y hy => hptr y (hlo y hy).1 (hlo y hy).2
    have hlosize : ∀ b ∈ lo, (s.link x.a p.a).size b.a = b.n := by
      intro b hb
      obtain ⟨hbx, hbp⟩ := hlo b.a (mem_cons_of_mem _ (mem_map_of_mem hb))
      exact (hsizes b.a hbx hbp).trans (h.size b (by simp [hb]))
    have hhead : (s.link x.a p.a).size base = 0 := by
      obtain ⟨hbx, hbp⟩ := hlo base mem_cons_self
      exact (hsizes base hbx hbp).trans h.head
    have htouch_iff : p.fin = (joinRight x hi).1.a ↔ p.a + HEADER * p.n = x.a := by rw [hxa, Blk.fin]
    rw [insert, joinLeft_concat]
    by_cases htouch : p.a + HEADER * p.n = x.a
    · rw [if_pos (htouch_iff.mpr htouch)]
      rw [if_pos htouch] at hjoin
      refine ⟨?_, ?_, hhead, ?_⟩
      · rw [append_assoc, map_append, singleton_append, map_cons]
        exact path_append.mpr ⟨hpath, hjoin.2⟩
      · intro b hb
        simp only [mem_append, mem_singleton] at hb
        rcases hb with (hb | rfl) | hb
        · exact hlosize b hb
        · exact hjoin.1
        · exact hhisize b hb
      · change p.a ∈ _
        simp
    · rw [if_neg (mt htouch_iff.mp htouch)]
      rw [if_neg htouch] at hjoin
      obtain ⟨hp, hxsize, hrest⟩ := hjoin
      refine ⟨?_, ?_, hhead, ?_⟩
      · rw [append_assoc, append_assoc, map_append, singleton_append, map_cons,
          singleton_append, map_cons, hxa]
        exact path_append.mpr ⟨hpath, hrest⟩
      · intro b hb
        simp only [mem_append, mem_singleton] at hb
        rcases hb with ((hb | rfl) | rfl) | hb
        · exact hlosize b hb
        · exact hp
        · rw [hxa]
          exact hxsize
        · exact hhisize b hb
      · change p.a ∈ _
        simp

end

end Xv6.Umalloc
