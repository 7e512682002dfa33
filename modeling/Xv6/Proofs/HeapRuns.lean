import Mathlib.Data.List.Pairwise
import Xv6.Proofs.FreeBlocks

/-! # Runs of the allocator -/

namespace Xv6.Umalloc

open Chain List Table

variable {base : Nat} {s s' : Heap} {x : Blk} {bs bs' lo hi : List Blk}

structure Shape (base : Nat) (s : Heap) (bs : List Blk) : Prop where
  list : FreeList base s bs
  gaps : Gaps base bs
  live : s.live.Pairwise Blk.Apart
  apart : ∀ c ∈ s.live, ∀ b ∈ bs, c.Apart b
  livePos : ∀ c ∈ s.live, 0 < c.n
  liveSize : ∀ c ∈ s.live, s.size c.a = c.n
  liveLow : ∀ c ∈ s.live, base + HEADER ≤ c.a
  freeHigh : ∀ b ∈ bs, b.fin ≤ s.brk
  liveHigh : ∀ c ∈ s.live, c.fin ≤ s.brk
  brk : base + HEADER ≤ s.brk

structure Loose (base : Nat) (s : Heap) (bs : List Blk) (x : Blk) : Prop where
  pos : 0 < x.n
  low : base + HEADER ≤ x.a
  high : x.fin ≤ s.brk
  size : s.size x.a = x.n
  free : ∀ b ∈ bs, b.Apart x
  live : ∀ c ∈ s.live, c.Apart x

lemma ne_of_apart {b c : Blk} (hb : 0 < b.n) (hc : 0 < c.n) (h : b.Apart c) : b.a ≠ c.a := by
  intro heq
  simp only [Blk.Apart, Blk.fin, HEADER] at h
  omega

lemma link_rest (s : Heap) (bp p : Nat) :
    (s.link bp p).live = s.live ∧ (s.link bp p).units = s.units ∧ (s.link bp p).brk = s.brk ∧
    (s.link bp p).calls = s.calls := by
  simp only [Heap.link, Heap.linkPrev, Heap.linkNext]
  split <;> split <;> exact ⟨rfl, rfl, rfl, rfl⟩

lemma link_size {bp p y : Nat} (hbp : y ≠ bp) (hp : y ≠ p) : (s.link bp p).size y = s.size y := by
  simp only [Heap.link, Heap.linkPrev, Heap.linkNext]
  split <;> split <;>
    simp only [Heap.setPtr, Heap.setSize, get_set_ne _ _ hp, get_set_ne _ _ hbp]

theorem Shape.free (h : Shape base s bs) (hx : Loose base s bs x) (hunits : units bs ≤ s.units) :
    ∃ s' bs', s.free x.a = some s' ∧ Shape base s' bs' ∧ Inserts base x bs bs' ∧ s'.live = s.live ∧
      s'.units = s.units ∧ s'.brk = s.brk ∧ s'.calls = s.calls := by
  obtain ⟨lo, hi, rfl, hlo, hhi⟩ := h.gaps.place hx.free
  obtain ⟨hlive, hu, hbrk, hcalls⟩ := link_rest s x.a (place base lo)
  have hins := inserts_insert h.gaps hx.pos hx.low hlo hhi
  have hne : ∀ y ∈ base :: (lo ++ hi).map Blk.a, y ≠ x.a := by
    intro y hy
    rcases mem_cons.mp hy with rfl | hy
    · have := hx.low
      simp only [HEADER] at this
      omega
    · obtain ⟨b, hb, rfl⟩ := mem_map.mp hy
      exact ne_of_apart (h.gaps.pos b hb) hx.pos (hx.free b hb)
  refine ⟨s.link x.a (place base lo), insert lo x hi, ?_, ?_, hins, hlive, hu, hbrk, hcalls⟩
  · rw [Heap.free, h.list.seek_eq h.gaps hx.low hx.pos hlo hhi hunits]
    rfl
  refine ⟨h.list.link h.gaps hx.low hne hx.size, hins.gaps, hlive ▸ h.live, ?_, hlive ▸ h.livePos, ?_,
    hlive ▸ h.liveLow, ?_, ?_, hbrk ▸ h.brk⟩
  · rw [hlive]
    intro c hc
    exact hins.apart c (h.livePos c hc) (hx.live c hc) (h.apart c hc)
  · rw [hlive]
    intro c hc
    have hcx := ne_of_apart (h.livePos c hc) hx.pos (hx.live c hc)
    have hcp : c.a ≠ place base lo := by
      intro heq
      have hmem : place base lo ∈ base :: lo.map Blk.a := place_mem
      rw [← heq] at hmem
      rcases mem_cons.mp hmem with hbase | hmem
      · have := h.liveLow c hc
        simp only [HEADER] at this
        omega
      · obtain ⟨b, hb, hba⟩ := mem_map.mp hmem
        have hb' : b ∈ lo ++ hi := mem_append_left _ hb
        exact ne_of_apart (h.livePos c hc) (h.gaps.pos b hb') (h.apart c hc b hb') hba.symm
    rw [link_size hcx hcp]
    exact h.liveSize c hc
  · rw [hbrk]
    exact hins.high s.brk hx.high h.freeHigh
  · rw [hlive, hbrk]
    exact h.liveHigh

/-- The units of all blocks are those that were obtained. -/
structure Inv (base : Nat) (s : Heap) (bs : List Blk) : Prop where
  shape : Shape base s bs
  units : units bs + units s.live = s.units

lemma Inv.free (h : Inv base s bs) (hx : x ∈ s.live) :
    ∃ s' bs', ({ s with live := s.live.erase x } : Heap).free x.a = some s' ∧ Inv base s' bs' ∧
      s'.live = s.live.erase x := by
  have hsub : (s.live.erase x).Sublist s.live := erase_sublist
  have hshape : Shape base { s with live := s.live.erase x } bs :=
    ⟨⟨h.shape.list.path, h.shape.list.size, h.shape.list.head, h.shape.list.freep⟩, h.shape.gaps,
      h.shape.live.sublist hsub, fun c hc => h.shape.apart c (hsub.subset hc),
      fun c hc => h.shape.livePos c (hsub.subset hc), fun c hc => h.shape.liveSize c (hsub.subset hc),
      fun c hc => h.shape.liveLow c (hsub.subset hc), h.shape.freeHigh,
      fun c hc => h.shape.liveHigh c (hsub.subset hc), h.shape.brk⟩
  have hperm : (x :: s.live.erase x).Perm s.live := (perm_cons_erase hx).symm
  have hapart : ∀ c ∈ s.live.erase x, c.Apart x := by
    have hpair : (x :: s.live.erase x).Pairwise Blk.Apart :=
      (hperm.pairwise_iff fun hbc => hbc.symm).mpr h.shape.live
    intro c hc
    exact ((pairwise_cons.mp hpair).1 c hc).symm
  have hloose : Loose base { s with live := s.live.erase x } bs x :=
    ⟨h.shape.livePos x hx, h.shape.liveLow x hx, h.shape.liveHigh x hx, h.shape.liveSize x hx,
      fun b hb => (h.shape.apart x hx b hb).symm, hapart⟩
  have hu := h.units
  have hlive : Umalloc.units s.live = x.n + Umalloc.units (s.live.erase x) := by
    rw [← units_cons]
    exact (hperm.map Blk.n).sum_eq.symm
  obtain ⟨s', bs', hfree, hs', hins, hl, hu', -, -⟩ := hshape.free hloose (by change _ ≤ s.units; omega)
  refine ⟨s', bs', hfree, ⟨hs', ?_⟩, hl⟩
  have hl' : s'.live = s.live.erase x := hl
  have hu'' : s'.units = s.units := hu'
  rw [hl', hu'', hins.units]
  omega

lemma Inv.morecore (h : Inv base s bs) (sbrk : Nat → Option Nat) (nu : Nat) (hnu : 0 < nu) :
    (sbrk s.calls = none ∧ s.morecore sbrk nu = some (false, { s with calls := s.calls + 1 })) ∨
    ∃ s' bs', s.morecore sbrk nu = some (true, s') ∧ Inv base s' bs' ∧ s'.live = s.live ∧
      s'.calls = s.calls + 1 ∧ bs'.length ≤ bs.length + 1 ∧ ∃ y ∈ bs', nu ≤ y.n := by
  rw [Heap.morecore]
  cases hsbrk : sbrk s.calls with
  | none => exact .inl ⟨rfl, rfl⟩
  | some gap =>
    right
    generalize hn : (if nu < 4096 then 4096 else nu) = n
    have hle : nu ≤ n := by
      rw [← hn]
      split <;> omega
    -- the new memory is a block above all others
    let x : Blk := ⟨s.brk + gap, n⟩
    let s1 : Heap :=
      { ({ s with calls := s.calls + 1 } : Heap).setSize x.a n with brk := s.brk + gap + HEADER * n }
    have hbrk := h.shape.brk
    have hx : s.brk ≤ x.a := Nat.le_add_right _ _
    have hold : ∀ b : Blk, 0 < b.n → b.fin ≤ s.brk → b.a ≠ x.a ∧ b.Apart x := by
      intro b hb hfin
      have hapart : b.Apart x := .inl (Nat.le_trans hfin hx)
      exact ⟨ne_of_apart hb (by change 0 < n; omega) hapart, hapart⟩
    have hsize : ∀ y, y ≠ x.a → s1.size y = s.size y := fun y hy => get_set_ne _ _ hy
    have hbase : base ≠ x.a := by
      simp only [HEADER] at hbrk
      omega
    have htop : s.brk ≤ s1.brk := by
      change s.brk ≤ s.brk + gap + HEADER * n
      omega
    have hshape : Shape base s1 bs := by
      refine ⟨⟨h.shape.list.path, ?_, ?_, h.shape.list.freep⟩, h.shape.gaps, h.shape.live, h.shape.apart,
        h.shape.livePos, ?_, h.shape.liveLow, ?_, ?_, Nat.le_trans hbrk htop⟩
      · intro b hb
        rw [hsize _ (hold b (h.shape.gaps.pos b hb) (h.shape.freeHigh b hb)).1]
        exact h.shape.list.size b hb
      · rw [hsize _ hbase]
        exact h.shape.list.head
      · intro c hc
        rw [hsize _ (hold c (h.shape.livePos c hc) (h.shape.liveHigh c hc)).1]
        exact h.shape.liveSize c hc
      · exact fun b hb => Nat.le_trans (h.shape.freeHigh b hb) htop
      · exact fun c hc => Nat.le_trans (h.shape.liveHigh c hc) htop
    have hloose : Loose base s1 bs x := by
      refine ⟨by change 0 < n; omega, Nat.le_trans hbrk hx, Nat.le_refl _, get_set_self _ _ _, ?_, ?_⟩
      · exact fun b hb => (hold b (h.shape.gaps.pos b hb) (h.shape.freeHigh b hb)).2
      · exact fun c hc => (hold c (h.shape.livePos c hc) (h.shape.liveHigh c hc)).2
    have hu := h.units
    obtain ⟨s2, bs', hfree, hs2, hins, hlive, hunits, hbrk2, hcalls⟩ :=
      hshape.free hloose (by change _ ≤ s.units; omega)
    refine ⟨{ s2 with units := s2.units + n }, bs', ?_, ⟨?_, ?_⟩, hlive, hcalls, hins.length, ?_⟩
    · change (s1.free x.a).map _ = _
      rw [hfree]
      rfl
    · exact ⟨⟨hs2.list.path, hs2.list.size, hs2.list.head, hs2.list.freep⟩, hs2.gaps, hs2.live, hs2.apart,
        hs2.livePos, hs2.liveSize, hs2.liveLow, hs2.freeHigh, hs2.liveHigh, hs2.brk⟩
    · have hlive' : s2.live = s.live := hlive
      have hunits' : s2.units = s.units := hunits
      change Umalloc.units bs' + Umalloc.units s2.live = s2.units + n
      rw [hlive', hunits', hins.units]
      change Umalloc.units bs + n + _ = _
      omega
    · obtain ⟨y, hy, hxy⟩ := hins.covers
      exact ⟨y, hy, Nat.le_trans hle hxy⟩

/-! ## `malloc` -/

lemma FreeList.path_replace {ptr' : Nat → Nat} {l : List Nat} (h : FreeList base s (lo ++ hi))
    (hg : Gaps base (lo ++ hi)) (hsame : ∀ y ∈ base :: lo.map Blk.a, y ≠ place base lo → ptr' y = s.ptr y)
    (hnew : Path ptr' (place base lo) l base) : Path ptr' base (lo.map Blk.a ++ l) base := by
  rcases eq_nil_or_concat' lo with rfl | ⟨lo, p, rfl⟩
  · exact hnew
  rw [place_concat] at hsame hnew
  have hpath := h.path
  have hnodup : (base :: (lo ++ [p] ++ hi).map Blk.a).Nodup := hg.addresses.imp Nat.ne_of_lt
  rw [append_assoc, map_append] at hpath hnodup
  rw [map_append, append_assoc]
  refine path_append.mpr ⟨(path_append.mp hpath).1.congr fun y hy => ?_, hnew⟩
  rw [← cons_append] at hnodup
  have hne : y ≠ p.a := (nodup_append.mp hnodup).2.2 y hy p.a mem_cons_self
  refine hsame y ?_ hne
  rw [map_append, ← cons_append]
  exact mem_append_left _ hy

lemma FreeList.block {prevp : Nat} (h : FreeList base s bs) (hg : Gaps base bs)
    (hprev : prevp ∈ base :: bs.map Blk.a) (hsize : 0 < s.size (s.ptr prevp)) :
    ∃ lo b hi, bs = lo ++ b :: hi ∧ s.ptr prevp = b.a ∧ prevp = place base lo := by
  have hbase : s.ptr prevp ≠ base := by
    intro hc
    rw [hc, h.head] at hsize
    exact Nat.lt_irrefl 0 hsize
  rcases h.next_cases hg hprev with ⟨hc, -⟩ | ⟨hlt, hmem, hnone⟩
  · exact absurd hc hbase
  obtain ⟨b, hb, hba⟩ := mem_map.mp ((mem_cons.mp hmem).resolve_left hbase)
  obtain ⟨lo, hi, rfl⟩ := append_of_mem hb
  have hplace : place base lo ∈ base :: (lo ++ b :: hi).map Blk.a := by
    rw [map_append, ← cons_append]
    exact mem_append_left _ place_mem
  have hnext : s.ptr (place base lo) = b.a := h.path_place.1
  refine ⟨lo, b, hi, rfl, hba.symm, ?_⟩
  -- both are the highest node below the block
  rcases h.next_cases hg hplace with ⟨hc, -⟩ | ⟨hlt', -, hnone'⟩
  · rw [hnext, hba] at hc
    exact absurd hc hbase
  · have h1 := hnone _ hplace
    have h2 := hnone' _ hprev
    omega

lemma apart_part {b c q : Blk} (h : c.Apart b) (hlo : b.a ≤ q.a) (hhi : q.fin ≤ b.fin) : c.Apart q := by
  rcases h with h | h
  · exact .inl (Nat.le_trans h hlo)
  · exact .inr (Nat.le_trans hhi h)

lemma Inv.takeWhole {b : Blk} (h : Inv base s (lo ++ b :: hi)) :
    Inv base { s.setPtr (place base lo) (s.ptr b.a) with
      freep := place base lo, live := ⟨b.a, b.n⟩ :: s.live } (lo ++ hi) := by
  have hb : b ∈ lo ++ b :: hi := by simp
  have hsub : (lo ++ hi).Sublist (lo ++ b :: hi) := by simp
  have hg := h.shape.gaps
  have hlist := h.shape.list
  have hnodup : (base :: (lo ++ b :: hi).map Blk.a).Nodup := hg.addresses.imp Nat.ne_of_lt
  rw [map_append, ← cons_append] at hnodup
  have hdis := (nodup_append.mp hnodup).2.2
  refine ⟨⟨⟨?_, ?_, hlist.head, ?_⟩, hg.sublist hsub, ?_, ?_, ?_, ?_, ?_, ?_, ?_, h.shape.brk⟩, ?_⟩
  · rw [map_append]
    refine hlist.path_replace hg (fun y _ hy => get_set_ne _ _ hy) ?_
    refine hlist.path_place.2.enter (get_set_self _ _ _) fun y hy => get_set_ne _ _ ?_
    exact (hdis _ place_mem y (mem_cons_of_mem _ hy)).symm
  · exact fun c hc => hlist.size c (hsub.subset hc)
  · rw [map_append, ← cons_append]
    exact mem_append_left _ place_mem
  · exact pairwise_cons.mpr ⟨fun c hc => (h.shape.apart c hc b hb).symm, h.shape.live⟩
  · intro c hc d hd
    rcases mem_cons.mp hc with rfl | hc
    · have hpair := hg.sorted
      rcases mem_append.mp hd with hd | hd
      · exact .inr (Nat.le_of_lt ((pairwise_append.mp hpair).2.2 d hd b mem_cons_self))
      · exact .inl (Nat.le_of_lt ((pairwise_cons.mp (pairwise_append.mp hpair).2.1).1 d hd))
    · exact h.shape.apart c hc d (hsub.subset hd)
  · intro c hc
    rcases mem_cons.mp hc with rfl | hc
    · exact hg.pos b hb
    · exact h.shape.livePos c hc
  · intro c hc
    rcases mem_cons.mp hc with rfl | hc
    · exact hlist.size b hb
    · exact h.shape.liveSize c hc
  · intro c hc
    rcases mem_cons.mp hc with rfl | hc
    · exact hg.low b hb
    · exact h.shape.liveLow c hc
  · exact fun c hc => h.shape.freeHigh c (hsub.subset hc)
  · intro c hc
    rcases mem_cons.mp hc with rfl | hc
    · exact h.shape.freeHigh b hb
    · exact h.shape.liveHigh c hc
  · have hu := h.units
    rw [units_append, units_cons] at hu
    change Umalloc.units (lo ++ hi) + Umalloc.units (b :: s.live) = s.units
    rw [units_append, units_cons]
    omega

lemma Inv.takePart {b : Blk} {n : Nat} (h : Inv base s (lo ++ b :: hi)) (hn : 0 < n) (hlt : n < b.n) :
    Inv base { (s.setSize b.a (b.n - n)).setSize (b.a + HEADER * (b.n - n)) n with
      freep := place base lo, live := ⟨b.a + HEADER * (b.n - n), n⟩ :: s.live } (lo ++ ⟨b.a, b.n - n⟩ :: hi) := by
  have hb : b ∈ lo ++ b :: hi := by simp
  have hg := h.shape.gaps
  have hlist := h.shape.list
  obtain ⟨hlo, hbhi, hlob⟩ := pairwise_append.mp hg.sorted
  obtain ⟨hhi, hhis⟩ := pairwise_cons.mp hbhi
  -- the two parts of the block
  generalize hq : (⟨b.a + HEADER * (b.n - n), n⟩ : Blk) = q
  generalize hb' : (⟨b.a, b.n - n⟩ : Blk) = b'
  have hparts : b'.a = b.a ∧ b'.n = b.n - n ∧ q.n = n ∧ b'.fin = q.a ∧ q.fin = b.fin ∧ b.a < q.a := by
    subst hq hb'
    refine ⟨rfl, rfl, rfl, rfl, ?_, ?_⟩
    · simp only [Blk.fin, HEADER]
      omega
    · simp only [HEADER]
      omega
  obtain ⟨hba, hbn, hqn, hbq, hqfin, hqa⟩ := hparts
  have hqa' : b.a + HEADER * (b.n - n) = q.a := by rw [← hq]
  rw [hqa']
  have hin : q.a < b.fin := by
    rw [← hqfin]
    simp only [Blk.fin, HEADER]
    omega
  have hmem : ∀ d, d ∈ lo ++ b' :: hi ↔ d = b' ∨ d ∈ lo ∨ d ∈ hi := by
    intro d
    simp only [mem_append, mem_cons]
    tauto
  have hold : ∀ d, d ∈ lo ∨ d ∈ hi → d ∈ lo ++ b :: hi := by
    intro d hd
    simp only [mem_append, mem_cons]
    tauto
  have hsides : ∀ d, d ∈ lo ∨ d ∈ hi → d.fin < b.a ∨ b.fin < d.a := by
    rintro d (hd | hd)
    · exact .inl (hlob d hd b mem_cons_self)
    · exact .inr (hhi d hd)
  -- the headers of the other blocks keep their sizes
  have hsize : ∀ y, y ≠ b.a → y ≠ q.a → ((s.setSize b.a (b.n - n)).setSize q.a n).size y = s.size y := by
    intro y hyb hyq
    exact (get_set_ne _ _ hyq).trans (get_set_ne _ _ hyb)
  have hlive : ∀ c ∈ s.live, c.a ≠ b.a ∧ c.a ≠ q.a := by
    intro c hc
    have hcb := h.shape.apart c hc b hb
    have hpos := h.shape.livePos c hc
    simp only [Blk.Apart, Blk.fin, HEADER] at hcb hin
    omega
  have hside : ∀ d, d ∈ lo ∨ d ∈ hi → d.a ≠ b.a ∧ d.a ≠ q.a := by
    intro d hd
    have hd' := hsides d hd
    simp only [Blk.fin, HEADER] at hd' hin
    omega
  have hlow := hg.low b hb
  refine ⟨⟨⟨?_, ?_, ?_, ?_⟩, ⟨?_, ?_, ?_⟩, ?_, ?_, ?_, ?_, ?_, ?_, ?_, h.shape.brk⟩, ?_⟩
  · have hmap : (lo ++ b' :: hi).map Blk.a = (lo ++ b :: hi).map Blk.a := by simp [hba]
    rw [hmap]
    exact hlist.path
  · intro d hd
    rcases (hmem d).mp hd with rfl | hd
    · rw [hba, hbn]
      exact (get_set_ne _ _ (Nat.ne_of_lt hqa)).trans (get_set_self _ _ _)
    · obtain ⟨hdb, hdq⟩ := hside d hd
      exact (hsize d.a hdb hdq).trans (hlist.size d (hold d hd))
  · simp only [HEADER] at hlow
    exact (hsize base (by omega) (by omega)).trans hlist.head
  · rw [map_append, ← cons_append]
    exact mem_append_left _ place_mem
  · refine pairwise_append.mpr ⟨hlo, pairwise_cons.mpr ⟨?_, hhis⟩, ?_⟩
    · intro d hd
      have := hhi d hd
      omega
    intro d hd c hc
    rcases mem_cons.mp hc with rfl | hc
    · rw [hba]
      exact hlob d hd b mem_cons_self
    · exact hlob d hd c (mem_cons_of_mem _ hc)
  · intro d hd
    rcases (hmem d).mp hd with rfl | hd
    · omega
    · exact hg.pos d (hold d hd)
  · intro d hd
    rcases (hmem d).mp hd with rfl | hd
    · rw [hba]
      exact hlow
    · exact hg.low d (hold d hd)
  · refine pairwise_cons.mpr ⟨fun c hc => ?_, h.shape.live⟩
    exact (apart_part (h.shape.apart c hc b hb) (Nat.le_of_lt hqa) (Nat.le_of_eq hqfin)).symm
  · intro c hc d hd
    rcases mem_cons.mp hc with rfl | hc
    · rcases (hmem d).mp hd with rfl | hd
      · exact .inr (Nat.le_of_eq hbq)
      · have := hsides d hd
        simp only [Blk.Apart]
        omega
    · rcases (hmem d).mp hd with rfl | hd
      · exact apart_part (h.shape.apart c hc b hb) (Nat.le_of_eq hba.symm) (by omega)
      · exact h.shape.apart c hc d (hold d hd)
  · intro c hc
    rcases mem_cons.mp hc with rfl | hc
    · omega
    · exact h.shape.livePos c hc
  · intro c hc
    rcases mem_cons.mp hc with rfl | hc
    · rw [hqn]
      exact get_set_self _ _ _
    · obtain ⟨hcb, hcq⟩ := hlive c hc
      exact (hsize c.a hcb hcq).trans (h.shape.liveSize c hc)
  · intro c hc
    rcases mem_cons.mp hc with rfl | hc
    · omega
    · exact h.shape.liveLow c hc
  · intro d hd
    have hfree := h.shape.freeHigh b hb
    rcases (hmem d).mp hd with rfl | hd
    · change d.fin ≤ s.brk
      omega
    · exact h.shape.freeHigh d (hold d hd)
  · intro c hc
    have hfree := h.shape.freeHigh b hb
    rcases mem_cons.mp hc with rfl | hc
    · change c.fin ≤ s.brk
      omega
    · exact h.shape.liveHigh c hc
  · have hu := h.units
    rw [units_append, units_cons] at hu
    change Umalloc.units (lo ++ b' :: hi) + Umalloc.units (q :: s.live) = s.units
    rw [units_append, units_cons, units_cons]
    omega

lemma Inv.take {prevp n : Nat} (h : Inv base s bs) (hprev : prevp ∈ base :: bs.map Blk.a) (hn : 0 < n)
    (hfit : n ≤ s.size (s.ptr prevp)) :
    ∃ q s' bs', s.take n prevp (s.ptr prevp) = (q, s') ∧ Inv base s' bs' ∧ s'.live = ⟨q, n⟩ :: s.live ∧
      s'.calls = s.calls := by
  obtain ⟨lo, b, hi, rfl, hnext, rfl⟩ :=
    h.shape.list.block h.shape.gaps hprev (Nat.lt_of_lt_of_le hn hfit)
  have hsize : s.size b.a = b.n := h.shape.list.size b (by simp)
  rw [hnext, hsize] at hfit
  rw [Heap.take, hnext, hsize]
  by_cases heq : b.n = n
  · rw [if_pos heq]
    subst heq
    exact ⟨_, _, _, rfl, h.takeWhole, rfl, rfl⟩
  · rw [if_neg heq]
    exact ⟨_, _, _, rfl, h.takePart hn (by omega), rfl, rfl⟩

section

variable {n : Nat}

def retry (sbrk : Nat → Option Nat) (n k : Nat) (s : Heap) : Option (Option Nat × Heap) :=
  match s.morecore sbrk n with
  | none => none
  | some (false, s) => some (none, s)
  | some (true, s) => s.search sbrk n k s.freep (s.ptr s.freep)

lemma search_round (sbrk : Nat → Option Nat) (n : Nat) {prev k : Nat} {l : List Nat}
    (h : Path s.ptr prev l s.freep) (hfreep : s.freep ∉ l)
    (hk : l.length < k) :
    (∃ prevp ∈ prev :: l, n ≤ s.size (s.ptr prevp) ∧
      s.search sbrk n k prev (s.ptr prev) =
        some (some (s.take n prevp (s.ptr prevp)).1, (s.take n prevp (s.ptr prevp)).2)) ∨
    ((∀ y ∈ s.freep :: l, s.size y < n) ∧
      s.search sbrk n k prev (s.ptr prev) = retry sbrk n (k - l.length - 1) s) := by
  induction l generalizing prev k with
  | nil =>
    obtain ⟨k, rfl⟩ : ∃ k', k = k' + 1 := ⟨k - 1, by omega⟩
    have hnext : s.ptr prev = s.freep := h
    rw [Heap.search]
    by_cases hfit : s.size (s.ptr prev) ≥ n
    · rw [if_pos hfit]
      exact .inl ⟨prev, mem_cons_self, hfit, rfl⟩
    rw [if_neg hfit, if_pos hnext]
    refine .inr ⟨?_, rfl⟩
    intro y hy
    rw [mem_singleton.mp hy, ← hnext]
    omega
  | cons c l ih =>
    obtain ⟨k, rfl⟩ : ∃ k', k = k' + 1 := ⟨k - 1, by omega⟩
    obtain ⟨hnext, hrest⟩ := h
    rw [Heap.search]
    by_cases hfit : s.size (s.ptr prev) ≥ n
    · rw [if_pos hfit]
      exact .inl ⟨prev, mem_cons_self, hfit, rfl⟩
    have hne : ¬s.ptr prev = s.freep := by
      intro hc
      rw [hnext] at hc
      exact hfreep (hc ▸ mem_cons_self)
    rw [if_neg hfit, if_neg hne, hnext]
    rw [length_cons] at hk
    rcases ih hrest (fun hc => hfreep (mem_cons_of_mem _ hc)) (k := k) (by omega) with
      ⟨prevp, hmem, hsize, heq⟩ | ⟨hsmall, heq⟩
    · exact .inl ⟨prevp, mem_cons_of_mem _ hmem, hsize, heq⟩
    refine .inr ⟨?_, ?_⟩
    · intro y hy
      rcases mem_cons.mp hy with rfl | hy
      · exact hsmall _ mem_cons_self
      rcases mem_cons.mp hy with rfl | hy
      · rw [hnext] at hfit
        omega
      · exact hsmall y (mem_cons_of_mem _ hy)
    · rw [heq, length_cons]
      congr 1
      omega

def Answers (sbrk : Nat → Option Nat) (base n : Nat) (s : Heap) (res : Option (Option Nat × Heap)) : Prop :=
  ∃ ret s' bs', res = some (ret, s') ∧ Inv base s' bs' ∧
    match ret with
    | none => s'.live = s.live ∧ ∃ i, s.calls ≤ i ∧ i < s'.calls ∧ sbrk i = none
    | some q => s'.live = ⟨q, n⟩ :: s.live

/-- The search of `malloc` from `freep` ends; with at most `k` free blocks it takes one round, or two if it calls
`morecore`. -/
lemma Inv.search {k : Nat} (h : Inv base s bs) (sbrk : Nat → Option Nat) (hn : 0 < n) (hk : 2 * bs.length + 4 ≤ k) :
    Answers sbrk base n s (s.search sbrk n k s.freep (s.ptr s.freep)) ∧
    ∀ s', s.search sbrk n k s.freep (s.ptr s.freep) = some (none, s') → s' = { s with calls := s.calls + 1 } := by
  have hround : ∀ {t : Heap} {cs : List Blk} {k : Nat}, Inv base t cs → cs.length + 1 ≤ k →
      (∃ q t' cs', t.search sbrk n k t.freep (t.ptr t.freep) = some (some q, t') ∧ Inv base t' cs' ∧
        t'.live = ⟨q, n⟩ :: t.live ∧ t'.calls = t.calls) ∨
      ((∀ c ∈ cs, c.n < n) ∧
        t.search sbrk n k t.freep (t.ptr t.freep) = retry sbrk n (k - cs.length - 1) t) := by
    intro t cs k ht hk
    have hlist := ht.shape.list
    obtain ⟨l, hpath, hperm⟩ := hlist.path.rotate hlist.freep
    have hnodup : (base :: cs.map Blk.a).Nodup := ht.shape.gaps.addresses.imp Nat.ne_of_lt
    have hfreep : t.freep ∉ l := (nodup_cons.mp (hperm.nodup_iff.mpr hnodup)).1
    have hlen := hperm.length_eq
    simp only [length_cons, length_map] at hlen
    rcases search_round sbrk n hpath hfreep (k := k) (by omega) with
      ⟨prevp, hmem, hfit, heq⟩ | ⟨hsmall, heq⟩
    · obtain ⟨q, t', cs', htake, hinv, hlive, hcalls⟩ := ht.take (hperm.mem_iff.mp hmem) hn hfit
      rw [htake] at heq
      exact .inl ⟨q, t', cs', heq, hinv, hlive, hcalls⟩
    refine .inr ⟨?_, ?_⟩
    · intro c hc
      rw [← hlist.size c hc]
      exact hsmall _ (hperm.mem_iff.mpr (mem_cons_of_mem _ (mem_map_of_mem hc)))
    · rw [heq]
      congr 1
      omega
  rcases hround h (k := k) (by omega) with ⟨q, t', cs', heq, hinv, hlive, -⟩ | ⟨-, heq⟩
  · rw [heq]
    exact ⟨⟨some q, t', cs', rfl, hinv, hlive⟩, nofun⟩
  rw [heq, retry]
  rcases h.morecore sbrk n hn with ⟨hfail, hmore⟩ | ⟨s1, bs1, hmore, hinv, hlive, hcalls, hlen, y, hy, hyn⟩
  · rw [hmore]
    refine ⟨⟨none, _, bs, rfl, ?_, rfl, s.calls, Nat.le_refl _, Nat.lt_succ_self _, hfail⟩, fun s' hs => ?_⟩
    swap
    · cases hs
      rfl
    have hs := h.shape
    exact ⟨⟨⟨hs.list.path, hs.list.size, hs.list.head, hs.list.freep⟩, hs.gaps, hs.live, hs.apart, hs.livePos,
      hs.liveSize, hs.liveLow, hs.freeHigh, hs.liveHigh, hs.brk⟩, h.units⟩
  rw [hmore]
  -- the second round finds the new block at the latest
  rcases hround hinv (k := k - bs.length - 1) (by omega) with ⟨q, t', cs', heq', hinv', hlive', -⟩ | ⟨hsmall, -⟩
  · dsimp only
    rw [heq']
    refine ⟨⟨some q, t', cs', rfl, hinv', ?_⟩, nofun⟩
    rw [hlive] at hlive'
    exact hlive'
  · have := hsmall y hy
    omega

structure Unused (base : Nat) (s : Heap) : Prop where
  freep : s.freep = 0
  live : s.live = []
  units : s.units = 0
  brk : base + HEADER ≤ s.brk

/-- In every state: the allocator was not used, or it has a list of free blocks. -/
def Ok (x : Image) (s : Heap) : Prop := Unused x.base s ∨ ∃ bs, Inv x.base s bs

lemma Unused.init {x : Image} (h : Unused x.base s) :
    Inv x.base { (s.setPtr x.base x.base).setSize x.base 0 with freep := x.base } [] := by
  refine ⟨⟨⟨get_set_self _ _ _, nofun, get_set_self _ _ _, mem_cons_self⟩,
    ⟨List.Pairwise.nil, nofun, nofun⟩, ?_, ?_, ?_, ?_, ?_, nofun, ?_, h.brk⟩, ?_⟩
  all_goals simp [Heap.setPtr, Heap.setSize, Umalloc.units, h.live, h.units]

lemma Inv.freep_ne_zero {x : Image} (h : Inv x.base s bs) : s.freep ≠ 0 := by
  have hpos := x.base_pos
  rcases mem_cons.mp h.shape.list.freep with hc | hc
  · omega
  · obtain ⟨b, hb, hba⟩ := mem_map.mp hc
    have := h.shape.gaps.low b hb
    omega

/-- The first call of `malloc` sets up a list without blocks. -/
def Heap.setUp (base : Nat) (s : Heap) : Heap :=
  if s.freep = 0 then { (s.setPtr base base).setSize base 0 with freep := base } else s

lemma Ok.malloc {x : Image} (h : Ok x s) (sbrk : Nat → Option Nat) (nbytes : Nat) :
    Answers sbrk x.base (Heap.nunits nbytes) s (s.malloc sbrk x.base nbytes) ∧
    ∀ s', s.malloc sbrk x.base nbytes = some (none, s') → s' = { s.setUp x.base with calls := s.calls + 1 } := by
  have hn : 0 < Heap.nunits nbytes := Nat.succ_pos _
  rcases h with hunused | ⟨bs, hinv⟩
  · have hinit := hunused.init
    have hres := hinit.search sbrk hn (k := 2 * s.units + 4) (Nat.le_add_left 4 _)
    rw [Heap.malloc, Heap.setUp, if_pos hunused.freep]
    exact hres
  · have hle := length_le_units hinv.shape.gaps.pos
    have hu := hinv.units
    rw [Heap.malloc, Heap.setUp, if_neg hinv.freep_ne_zero]
    exact hinv.search sbrk hn (by omega)

instance : Std.Symm Blk.Apart := ⟨fun _ _ h => h.symm⟩

lemma Inv.store {y p m : Nat} {c : Blk} (h : Inv base s bs) (hc : c ∈ s.live) (hlo : c.a < y) (hhi : y < c.fin) :
    Inv base ((s.setPtr y p).setSize y m) bs := by
  have hfree : ∀ z ∈ base :: bs.map Blk.a, z ≠ y := by
    intro z hz
    rcases mem_cons.mp hz with rfl | hz
    · have := h.shape.liveLow c hc
      omega
    obtain ⟨b, hb, rfl⟩ := mem_map.mp hz
    have hcb := h.shape.apart c hc b hb
    have hpos := h.shape.gaps.pos b hb
    simp only [Blk.Apart, Blk.fin, HEADER] at hcb hhi
    omega
  have hlive : ∀ d ∈ s.live, d.a ≠ y := by
    intro d hd
    by_cases hdc : d = c
    · rw [hdc]
      omega
    have hapart : d.Apart c := h.shape.live.forall hd hc hdc
    simp only [Blk.Apart, Blk.fin, HEADER] at hapart hhi
    omega
  have hs := h.shape
  refine ⟨⟨⟨?_, ?_, ?_, hs.list.freep⟩, hs.gaps, hs.live, hs.apart, hs.livePos, ?_, hs.liveLow, hs.freeHigh,
    hs.liveHigh, hs.brk⟩, h.units⟩
  · exact hs.list.path.congr fun z hz => get_set_ne _ _ (hfree z hz)
  · intro b hb
    have hne := hfree b.a (mem_cons_of_mem _ (mem_map_of_mem hb))
    exact (get_set_ne _ _ hne).trans (hs.list.size b hb)
  · exact (get_set_ne _ _ (hfree base mem_cons_self)).trans hs.list.head
  · intro d hd
    exact (get_set_ne _ _ (hlive d hd)).trans (hs.liveSize d hd)

lemma Ok.step {x : Image} (h : Ok x s) (sbrk : Nat → Option Nat) (op : Op) :
    ∃ s', s.step x sbrk op = some s' ∧ Ok x s' := by
  cases op with
  | malloc nbytes =>
    rw [Heap.step]
    by_cases hsmall : Small nbytes
    · obtain ⟨⟨ret, s', bs', hres, hinv, -⟩, -⟩ := h.malloc sbrk nbytes
      rw [if_pos hsmall, hres]
      exact ⟨s', rfl, .inr ⟨bs', hinv⟩⟩
    · rw [if_neg hsmall]
      exact ⟨s, rfl, h⟩
  | free bp =>
    rw [Heap.step]
    cases hfind : s.live.find? (·.a = bp) with
    | none => exact ⟨s, rfl, h⟩
    | some b =>
      have hmem := List.mem_of_find?_eq_some hfind
      have hba : b.a = bp := by simpa using List.find?_some hfind
      rcases h with hunused | ⟨bs, hinv⟩
      · rw [hunused.live] at hmem
        cases hmem
      · obtain ⟨s', bs', hfree, hinv', -⟩ := hinv.free hmem
        rw [hba] at hfree
        exact ⟨s', hfree, .inr ⟨bs', hinv'⟩⟩
  | store y p m =>
    rw [Heap.step]
    by_cases hin : (s.live.any fun b => decide (b.a < y ∧ y < b.fin)) = true
    · rw [if_pos hin]
      obtain ⟨c, hc, hy⟩ := any_eq_true.mp hin
      obtain ⟨hlo, hhi⟩ := of_decide_eq_true hy
      refine ⟨_, rfl, ?_⟩
      rcases h with hunused | ⟨bs, hinv⟩
      · rw [hunused.live] at hc
        cases hc
      · exact .inr ⟨bs, hinv.store hc hlo hhi⟩
    · rw [if_neg hin]
      exact ⟨s, rfl, h⟩

lemma Ok.run {x : Image} (h : Ok x s) (sbrk : Nat → Option Nat) (ops : List Op) :
    ∃ s', Heap.run x sbrk ops s = some s' ∧ Ok x s' := by
  induction ops generalizing s with
  | nil => exact ⟨s, rfl, h⟩
  | cons op ops ih =>
    obtain ⟨s1, hstep, hok⟩ := h.step sbrk op
    obtain ⟨s2, hrun, hok'⟩ := ih hok
    refine ⟨s2, ?_, hok'⟩
    rw [Heap.run, hstep]
    exact hrun

end

lemma Small.nunits {nbytes : Nat} (h : Small nbytes) : nbytes ≤ HEADER * Heap.nunits nbytes - HEADER := by
  rw [Small] at h
  simp only [Heap.nunits, HEADER] at h ⊢
  omega

/-- The searches of `malloc` and `free` end, the free blocks are a circular list by increasing address,
apart from the blocks in use, and together they have the units that were obtained; `malloc` returns 0
only after `sbrk` failed. -/
theorem heap_invariant (x : Image) (sbrk : Nat → Option Nat) (ptr size : Table Nat) (ops : List Op) :
    ∃ s, Heap.run x sbrk ops (start x ptr size) = some s ∧
      (Unused x.base s ∨ ∃ bs, Inv x.base s bs) ∧
      ∀ nbytes, Small nbytes → ∃ ret s', s.malloc sbrk x.base nbytes = some (ret, s') ∧
        match ret with
        | none => ∃ i, s.calls ≤ i ∧ i < s'.calls ∧ sbrk i = none
        | some q => ∃ n, s'.live = ⟨q, n⟩ :: s.live ∧ nbytes ≤ HEADER * n - HEADER := by
  have hstart : Ok x (start x ptr size) := .inl ⟨rfl, rfl, rfl, x.base_le⟩
  obtain ⟨s, hrun, hok⟩ := hstart.run sbrk ops
  refine ⟨s, hrun, hok, fun nbytes hsmall => ?_⟩
  obtain ⟨⟨ret, s', bs', hres, -, hret⟩, -⟩ := hok.malloc sbrk nbytes
  refine ⟨ret, s', hres, ?_⟩
  cases ret with
  | none => exact hret.2
  | some q => exact ⟨_, hret, hsmall.nunits⟩

/-! ## Sizes -/

lemma Small.units {nbytes : Nat} (h : Small nbytes) : Heap.nunits nbytes = (nbytes + HEADER - 1) / HEADER + 1 := by
  rw [Small] at h
  simp only [Heap.nunits, HEADER] at h ⊢
  omega

lemma Small.coreBytes {nbytes : Nat} (h : Small nbytes) : 0 < Heap.coreBytes (Heap.nunits nbytes) ∧
    Heap.coreBytes (Heap.nunits nbytes) = HEADER * Heap.coreUnits (Heap.nunits nbytes) := by
  have hcore : HEADER * Heap.coreUnits (Heap.nunits nbytes) < 2 ^ 31 ∧
      0 < HEADER * Heap.coreUnits (Heap.nunits nbytes) := by
    have hunits := h.units
    rw [Small, ← hunits] at h
    rw [Heap.coreUnits]
    unfold HEADER at h ⊢
    split <;> omega
  have hint : Heap.coreBytes (Heap.nunits nbytes) = HEADER * Heap.coreUnits (Heap.nunits nbytes) := by
    rw [Heap.coreBytes, BitVec.toInt_eq_toNat_cond, BitVec.toNat_ofNat, Nat.mod_eq_of_lt (by omega), if_pos (by omega)]
    exact Int.natCast_mul _ _
  exact ⟨by omega, hint⟩

/-- Where the unit count does not wrap, the amount for `sbrk` is positive only if it is below `2^31`. -/
lemma small_of_coreBytes {nbytes : Nat}
    (hunits : Heap.nunits nbytes = (nbytes + HEADER - 1) / HEADER + 1)
    (hpos : 0 < Heap.coreBytes (Heap.nunits nbytes)) : Small nbytes := by
  by_contra hbig
  rw [Small, ← hunits, Nat.not_lt, Nat.mul_comm] at hbig
  have hle : HEADER * Heap.nunits nbytes ≤ 2 ^ 32 := by
    rw [Heap.nunits]
    unfold HEADER
    omega
  have hcore : Heap.coreUnits (Heap.nunits nbytes) = Heap.nunits nbytes := by
    rw [Heap.coreUnits, if_neg]
    unfold HEADER at hbig
    omega
  rw [Heap.coreBytes, hcore, BitVec.toInt_eq_toNat_cond, BitVec.toNat_ofNat] at hpos
  split at hpos <;> omega

/-- The sizes of a request are right, and it gets a block of its size or 0, exactly if its unit count is below `2^28`.
When it gets 0, all that `malloc` may have done is to set up a list without blocks. -/
theorem malloc_sizes (x : Image) (sbrk : Nat → Option Nat) (s : Heap) (h : Ok x s) (nbytes : Nat) :
    (Heap.nunits nbytes = (nbytes + HEADER - 1) / HEADER + 1 ∧
      0 < Heap.coreBytes (Heap.nunits nbytes) ∧
      Heap.coreBytes (Heap.nunits nbytes) = HEADER * Heap.coreUnits (Heap.nunits nbytes) ∧
      ∃ ret s', s.malloc sbrk x.base nbytes = some (ret, s') ∧
        match ret with
        | none => s' = { s.setUp x.base with calls := s.calls + 1 } ∧ s'.brk = s.brk
        | some q => ∃ n, s'.live = ⟨q, n⟩ :: s.live ∧ nbytes ≤ HEADER * n - HEADER) ↔ Small nbytes := by
  refine ⟨fun hsizes => small_of_coreBytes hsizes.1 hsizes.2.1, fun hsmall => ?_⟩
  obtain ⟨⟨ret, s', bs', hres, -, hret⟩, hnone⟩ := h.malloc sbrk nbytes
  refine ⟨hsmall.units, hsmall.coreBytes.1, hsmall.coreBytes.2, ret, s', hres, ?_⟩
  cases ret with
  | none =>
    obtain rfl := hnone s' hres
    refine ⟨rfl, ?_⟩
    rw [Heap.setUp]
    split <;> rfl
  | some q => exact ⟨_, hret, hsmall.nunits⟩

/-- A program without free blocks, whose calls of `sbrk` succeed. -/
def fresh : Image := ⟨8, 16, by decide, by decide⟩

theorem malloc_sizes_fresh : Heap.coreBytes (Heap.nunits 100) = 32768 :=
  ((malloc_sizes fresh (fun _ => some 0) (start fresh (.const 0) (.const 0)) (.inl ⟨rfl, rfl, rfl, by decide⟩) 100).mpr
    (by decide)).2.2.1

/-- The unit count of a request for `2^32 - 1` bytes wraps to 1: the block has no room behind its header. -/
theorem malloc_wraps : Ok fresh (start fresh (.const 0) (.const 0)) ∧
    ∃ q s', (start fresh (.const 0) (.const 0)).malloc (fun _ => some 0) 8 (2 ^ 32 - 1) = some (some q, s') ∧
      s'.live = [⟨q, 1⟩] ∧ ¬(2 ^ 32 - 1 ≤ HEADER * 1 - HEADER) :=
  ⟨.inl ⟨rfl, rfl, rfl, by decide⟩, _, _, rfl, rfl, by decide⟩

end Xv6.Umalloc
