import Xv6.Ide

/-! # The queue of the disk driver -/

namespace Xv6.Ide

open Chain List Table

variable {D : Type} {s : Driver D} {b : Nat} {q : List Nat}

/-- `idequeue` and `qnext` are a list of different buffers. -/
structure Queue (s : Driver D) (q : List Nat) : Prop where
  head : s.idequeue = q.headD 0
  path : ∀ b l, q = b :: l → Path s.qnext b l 0
  nodup : q.Nodup
  pos : 0 ∉ q

lemma Queue.cons_path {l : List Nat} (h : Queue s (b :: l)) : Path s.qnext b l 0 := h.path b l rfl

lemma Queue.idequeue_ne_zero (h : Queue s q) (hq : q ≠ []) : s.idequeue ≠ 0 := by
  obtain ⟨a, l, rfl⟩ := exists_cons_of_ne_nil hq
  rw [h.head]
  intro hc
  exact h.pos (mem_cons.mpr (.inl hc.symm))

lemma Queue.append {k : Nat} (h : Queue s q) (hb : b ∉ q) (hpos : b ≠ 0) (hk : q.length < k) :
    ∃ s', s.append k b = some s' ∧ Queue s' (q ++ [b]) ∧ s'.buf = s.buf ∧ s'.contents = s.contents ∧
      (q = [] → s'.command = some (s.buf b).request ∧ s'.done = none) ∧
      (q ≠ [] → s'.command = s.command ∧ s'.done = s.done) := by
  cases q with
  | nil =>
    have hempty : s.idequeue = 0 := h.head
    refine ⟨Driver.idestart b { s with qnext := s.qnext.set b 0, idequeue := b }, ?_,
      ⟨rfl, ?_, nodup_singleton b, ?_⟩, rfl, rfl, fun _ => ⟨rfl, rfl⟩, fun hc => absurd rfl hc⟩
    · simp only [Driver.append, if_pos hempty, Option.map_some, ↓reduceIte]
    · rintro c l ⟨⟩
      exact get_set_self _ _ _
    · rw [nil_append, mem_singleton]
      exact hpos.symm
  | cons a l =>
    have hne := h.idequeue_ne_zero (cons_ne_nil a l)
    have hhead : s.idequeue = a := h.head
    -- `b->qnext` is not on the path
    have hpath : Path (s.qnext.set b 0) a l 0 := by
      refine h.cons_path.congr fun x hx => get_set_ne _ _ ?_
      rintro rfl
      exact hb hx
    have hlast := seek_last hpath h.pos (k := k) (by rw [length_cons] at hk; omega)
    generalize hp : (a :: l).getLast (cons_ne_nil a l) = p at hlast
    have hpmem : p ∈ a :: l := by
      rw [← hp]
      exact getLast_mem _
    have hpb : b ≠ p := by
      rintro rfl
      exact hb hpmem
    have hab : ¬s.idequeue = b := by
      rw [hhead]
      rintro rfl
      exact hb mem_cons_self
    have happend : s.append k b = some { s with qnext := (s.qnext.set b 0).set p b } := by
      rw [← hhead] at hlast
      simp only [Driver.append, if_neg hne, Driver.last, hlast, Option.map_some, if_neg hab]
    refine ⟨_, happend, ⟨hhead, ?_, ?_, ?_⟩, rfl, rfl, fun hc => absurd hc (cons_ne_nil a l),
      fun _ => ⟨rfl, rfl⟩⟩
    · intro c l' hc
      obtain ⟨rfl, rfl⟩ := List.cons.inj hc
      refine hpath.concat h.nodup ?_ ?_ ?_
      · rw [hp]
        exact get_set_self _ _ _
      · exact (get_set_ne _ _ hpb).trans (get_set_self _ _ _)
      · rw [hp]
        exact fun x _ hx => get_set_ne _ _ hx
    · refine nodup_append.mpr ⟨h.nodup, nodup_singleton b, ?_⟩
      intro x hx y hy hxy
      rw [mem_singleton.mp hy] at hxy
      exact hb (hxy ▸ hx)
    · intro hmem
      rcases mem_append.mp hmem with hmem | hmem
      · exact h.pos hmem
      · exact hpos (mem_singleton.mp hmem).symm

lemma Queue.ideintr (h : Queue s (b :: q)) :
    Queue s.ideintr q ∧ s.ideintr.buf = s.buf.set b (s.finished (s.buf b)) ∧ s.ideintr.contents = s.contents ∧
      s.ideintr.done = none ∧ s.ideintr.command = q.head?.map fun c => (s.buf c).request := by
  have hhead : s.idequeue = b := h.head
  have hne : ¬s.idequeue = 0 := h.idequeue_ne_zero (cons_ne_nil b q)
  have hpath := h.cons_path
  have hnodup := nodup_cons.mp h.nodup
  have hpos : 0 ∉ q := fun hc => h.pos (mem_cons_of_mem _ hc)
  cases q with
  | nil =>
    have hnext : s.qnext b = 0 := hpath
    have heq : s.ideintr = { s.setBuf b (s.finished (s.buf b)) with
        idequeue := 0, command := none, done := none } := by
      rw [Driver.ideintr, if_neg hne]
      simp only [hhead, hnext]
      exact if_neg fun hc => hc rfl
    rw [heq]
    exact ⟨⟨rfl, fun c l hc => (by cases hc), nodup_nil, not_mem_nil⟩, rfl, rfl, rfl, rfl⟩
  | cons c q =>
    obtain ⟨hnext, hrest⟩ := hpath
    have hc : c ≠ 0 := by
      rintro rfl
      exact hpos mem_cons_self
    have hcb : c ≠ b := by
      rintro rfl
      exact hnodup.1 mem_cons_self
    have heq : s.ideintr = Driver.idestart c { s.setBuf b (s.finished (s.buf b)) with
        idequeue := c, command := none, done := none } := by
      rw [Driver.ideintr, if_neg hne]
      simp only [hhead, hnext]
      exact if_pos hc
    rw [heq]
    refine ⟨⟨rfl, ?_, hnodup.2, hpos⟩, rfl, rfl, rfl, ?_⟩
    · intro d l hd
      obtain ⟨rfl, rfl⟩ := List.cons.inj hd
      exact hrest
    · change some (Buf.request (s.buf.set b _ c)) = some (s.buf c).request
      rw [get_set_ne _ _ hcb]

end Xv6.Ide
