import Xv6.Proofs.PageTable

/-!
# Freeing pages of an address space

The loop of `deallocuvm` by induction on its rounds, over directories with missing pages and tables.
-/

namespace Xv6.Vm

open List

/-- The loop of `deallocuvm` at page `p` will jump over page `q`: there is no table on the way,
and `q` has a smaller place in its table than `p`. -/
def Skipped (m : Mem) (d p q : Nat) : Prop :=
  q % 1024 < p % 1024 ∧ ∀ t, p / 1024 ≤ t → t < q / 1024 → ¬present (m.entry d t)

/-- The loop of `deallocuvm` at page `p` will find page `q` mapped. -/
structure Reached (m : Mem) (d oldsz p q : Nat) : Prop where
  start : p ≤ q
  below : q * PGSIZE < oldsz
  mapped : present (m.slot d q)
  seen : ¬Skipped m d p q

/-- The pages of `S` are taken out of the directory, and each of their frames is freed once. -/
structure Cleared (d : Nat) (S : Nat → Prop) (m m' : Mem) : Prop where
  entry : ∀ i, m'.entry d i = m.entry d i
  gone : ∀ q, q < 2 ^ 20 → S q → m'.slot d q = 0
  kept : ∀ q, q < 2 ^ 20 → ¬S q → m'.slot d q = m.slot d q
  freed : ∃ l : List Nat, l.Nodup ∧ (∀ q, q ∈ l ↔ S q) ∧
    m'.freed = l.map (fun q => frameOf (m.slot d q)) ++ m.freed

def pages (sz : Nat) : Nat := (sz + (PGSIZE - 1)) / PGSIZE

lemma pgroundup_pages {sz : Nat} (h : sz ≤ KERNBASE) : pgroundup sz = pages sz * PGSIZE := by
  unfold KERNBASE at h
  unfold pgroundup pages PGSIZE
  omega

lemma pages_le {sz : Nat} (h : sz ≤ KERNBASE) : pages sz ≤ kernPage := by
  unfold KERNBASE at h
  unfold pages PGSIZE kernPage
  omega

section Free

variable {L : Layout} {m m₁ m' : Mem} {d oldsz p q : Nat} {S S' : Nat → Prop}

lemma kfree_ok {f : Nat} (h : Usable L f) : kfree L m f = .ok (m.free f) := by
  unfold kfree
  rw [if_neg]
  have h1 := h.1
  have h2 := h.2
  omega

lemma not_skipped (hpr : present (m.entry d (p / 1024))) (hpq : p ≤ q) : ¬Skipped m d p q := by
  rintro ⟨hlt, hno⟩
  exact hno (p / 1024) le_rfl (by omega) hpr

lemma reached_next (hpr : present (m.entry d (p / 1024))) :
    Reached m d oldsz p q ↔ (q = p ∧ p * PGSIZE < oldsz ∧ present (m.slot d p)) ∨ Reached m d oldsz (p + 1) q := by
  constructor
  · intro h
    by_cases hqp : q = p
    · subst hqp
      exact .inl ⟨rfl, h.below, h.mapped⟩
    have hpq := h.start
    refine .inr ⟨by omega, h.below, h.mapped, ?_⟩
    rintro ⟨hlt, hno⟩
    exact hno (p / 1024) (by omega) (by omega) hpr
  · rintro (⟨rfl, hlt, hp⟩ | h)
    · exact ⟨le_rfl, hlt, hp, not_skipped hpr le_rfl⟩
    · have hpq := h.start
      exact ⟨by omega, h.below, h.mapped, not_skipped hpr (by omega)⟩

/-- From a missing table the loop goes on 1024 pages later, not at the start of the next table. -/
lemma reached_jump (hpr : ¬present (m.entry d (p / 1024))) :
    Reached m d oldsz p q ↔ Reached m d oldsz (p + 1024) q := by
  have hskip : Skipped m d p q ↔ Skipped m d (p + 1024) q := by
    refine and_congr (by omega) ⟨fun h t ht => h t (by omega), fun h t ht htq => ?_⟩
    by_cases heq : t = p / 1024
    · rwa [heq]
    · exact h t (by omega) htq
  constructor
  · intro h
    refine ⟨?_, h.below, h.mapped, fun hs => h.seen (hskip.mpr hs)⟩
    by_contra hc
    have hpq := h.start
    have hne : q / 1024 ≠ p / 1024 := fun heq => hpr (heq ▸ table_of_slot h.mapped)
    refine h.seen ⟨by omega, fun t ht htq => ?_⟩
    rwa [show t = p / 1024 by omega]
  · intro h
    have hpq := h.start
    exact ⟨by omega, h.below, h.mapped, fun hs => h.seen (hskip.mp hs)⟩

lemma Cleared.refl (h : ∀ q, ¬S q) : Cleared d S m m :=
  ⟨fun _ => rfl, fun q _ hq => absurd hq (h q), fun _ _ _ => rfl, [], nodup_nil, by simpa using h, rfl⟩

lemma Cleared.congr (h : Cleared d S m m') (hS : ∀ q, S' q ↔ S q) : Cleared d S' m m' := by
  rwa [show S' = S from funext fun q => propext (hS q)]

lemma Cleared.cons (h : Cleared d S m₁ m') (hp : ¬S p) (hS : ∀ q, S q → q < 2 ^ 20)
    (he : ∀ i, m₁.entry d i = m.entry d i) (hs : ∀ q, q < 2 ^ 20 → m₁.slot d q = if q = p then 0 else m.slot d q)
    (hf : m₁.freed = frameOf (m.slot d p) :: m.freed) : Cleared d (fun q => q = p ∨ S q) m m' := by
  obtain ⟨l, hnodup, hmem, hfreed⟩ := h.freed
  refine ⟨fun i => (h.entry i).trans (he i), ?_, ?_, l ++ [p], ?_, ?_, ?_⟩
  · rintro q hq (rfl | hSq)
    · rw [h.kept q hq hp, hs q hq, if_pos rfl]
    · exact h.gone q hq hSq
  · intro q hq hno
    rw [not_or] at hno
    rw [h.kept q hq hno.2, hs q hq, if_neg hno.1]
  · refine nodup_append.mpr ⟨hnodup, nodup_singleton p, ?_⟩
    rintro q hq _ hp' rfl
    rw [mem_singleton] at hp'
    exact hp (hp' ▸ (hmem q).mp hq)
  · intro q
    rw [mem_append, hmem, mem_singleton, or_comm]
  · have hmap : ∀ q ∈ l, frameOf (m₁.slot d q) = frameOf (m.slot d q) := by
      intro q hq
      have hSq := (hmem q).mp hq
      rw [hs q (hS q hSq), if_neg]
      rintro rfl
      exact hp hSq
    rw [hfreed, hf, map_congr_left hmap, map_append, append_assoc]
    rfl

lemma entry_free {f g i : Nat} (h : g ≠ f) : (m.free f).entry g i = m.entry g i := by
  show (m.setPage f _).entry g i = _
  exact entry_setPage_other _ h

lemma clear_page (ht : Tables m d) (hp : p < 2 ^ 20) (hpr : present (m.entry d (p / 1024))) {f : Nat}
    (hf : Apart m d f) :
    (∀ i, ((m.free f).setEntry (frameOf (m.entry d (p / 1024))) (p % 1024) 0).entry d i = m.entry d i) ∧
    ∀ q, q < 2 ^ 20 → ((m.free f).setEntry (frameOf (m.entry d (p / 1024))) (p % 1024) 0).slot d q =
      if q = p then 0 else m.slot d q := by
  have he : ∀ i, (m.free f).entry d i = m.entry d i := fun i => entry_free hf.dir.symm
  have ht₁ : Tables (m.free f) d := ht.congr he
  have hpr₁ : present ((m.free f).entry d (p / 1024)) := by rwa [he]
  have hset := fun q hq => slot_setSlot ht₁ (q := q) (e := 0) hq (by decide) hp hpr₁
  have hent := (Maps.setSlot ht₁ hp hpr₁ 0).2
  rw [he] at hset hent
  refine ⟨fun i => (hent i).trans (he i), fun q hq => (hset q hq).trans ?_⟩
  have hslot : (m.free f).slot d q = m.slot d q := by
    show (m.setPage f _).slot d q = _
    exact slot_setPage hf _ hq
  rw [hslot]

lemma not_reached (h : oldsz ≤ p * PGSIZE) (q : Nat) : ¬Reached m d oldsz p q := by
  intro hr
  have := Nat.mul_le_mul_right PGSIZE hr.start
  have := hr.below
  omega

lemma reached_congr (he : ∀ i, m₁.entry d i = m.entry d i)
    (hs : ∀ q, p ≤ q → q * PGSIZE < oldsz → m₁.slot d q = m.slot d q) :
    Reached m₁ d oldsz p q ↔ Reached m d oldsz p q := by
  have hskip : Skipped m₁ d p q ↔ Skipped m d p q := by simp only [Skipped, he]
  constructor
  · intro h
    have hsl := hs q h.start h.below
    exact ⟨h.start, h.below, hsl ▸ h.mapped, fun hc => h.seen (hskip.mpr hc)⟩
  · intro h
    have hsl := hs q h.start h.below
    exact ⟨h.start, h.below, hsl ▸ h.mapped, fun hc => h.seen (hskip.mp hc)⟩

lemma deallocLoop_clears (ht : Tables m d) (hold : oldsz ≤ KERNBASE) {fuel : Nat}
    (hfuel : oldsz < (p + fuel) * PGSIZE)
    (hin : ∀ q, p ≤ q → q * PGSIZE < oldsz → present (m.slot d q) →
      Usable L (frameOf (m.slot d q)) ∧ Apart m d (frameOf (m.slot d q))) :
    ∃ m', deallocLoop L d oldsz fuel (p * PGSIZE) m = .ok m' ∧ Cleared d (Reached m d oldsz p) m m' := by
  have hsmall : ∀ q, q * PGSIZE < oldsz → q < 2 ^ 20 := by
    intro q hq
    unfold KERNBASE at hold
    unfold PGSIZE at hq
    omega
  induction fuel generalizing m p with
  | zero => exact ⟨m, rfl, .refl (not_reached (by rw [Nat.add_zero] at hfuel; exact hfuel.le))⟩
  | succ fuel ih =>
    unfold deallocLoop
    by_cases hlt : p * PGSIZE < oldsz
    · have h20 := hsmall p hlt
      rw [if_pos hlt]
      by_cases hpr : present (m.entry d (p / 1024))
      · rw [walk_page false h20 hpr]
        simp only [slot_entry hpr]
        rw [show p * PGSIZE + PGSIZE = (p + 1) * PGSIZE by ring]
        rw [show p + (fuel + 1) = p + 1 + fuel by omega] at hfuel
        by_cases hsl : present (m.slot d p)
        · obtain ⟨hu, hap⟩ := hin p le_rfl hlt hsl
          obtain ⟨he, hs⟩ := clear_page ht h20 hpr hap
          rw [if_pos hsl, if_neg hu.ne_zero, kfree_ok hu]
          have hafter : ∀ q, p + 1 ≤ q → q * PGSIZE < oldsz → ((m.free (frameOf (m.slot d p))).setEntry
              (frameOf (m.entry d (p / 1024))) (p % 1024) 0).slot d q = m.slot d q := by
            intro q hq hqo
            rw [hs q (hsmall q hqo), if_neg (by omega)]
          obtain ⟨m', hrun, hc⟩ := ih (ht.congr he) hfuel (by
            intro q hq hqo hp
            rw [hafter q hq hqo] at hp ⊢
            obtain ⟨hu', hap'⟩ := hin q (by omega) hqo hp
            exact ⟨hu', hap'.congr he⟩)
          refine ⟨m', hrun, (hc.cons (p := p) (m := m) ?_ (fun q h => hsmall q h.below) he hs rfl).congr ?_⟩
          · intro h
            have := h.start
            omega
          · intro q
            rw [reached_next hpr, reached_congr he hafter]
            exact or_congr ⟨fun h => h.1, fun h => ⟨h, hlt, hsl⟩⟩ Iff.rfl
        · rw [if_neg hsl]
          obtain ⟨m', hrun, hc⟩ := ih ht hfuel (fun q hq => hin q (by omega))
          refine ⟨m', hrun, hc.congr fun q => ?_⟩
          rw [reached_next hpr]
          exact or_iff_right fun h => hsl h.2.2
      · rw [walk_missing h20 hpr]
        simp only
        rw [show p * PGSIZE + (NPTENTRIES - 1) * PGSIZE + PGSIZE = (p + 1024) * PGSIZE by
          unfold NPTENTRIES PGSIZE; omega]
        have hfuel' : oldsz < (p + 1024 + fuel) * PGSIZE :=
          hfuel.trans_le (Nat.mul_le_mul_right PGSIZE (by omega))
        obtain ⟨m', hrun, hc⟩ := ih ht hfuel' (fun q hq => hin q (by omega))
        exact ⟨m', hrun, hc.congr fun q => reached_jump hpr⟩
    · rw [if_neg hlt]
      exact ⟨m, rfl, .refl (not_reached (Nat.le_of_not_lt hlt))⟩

lemma deallocuvm_clears (ht : Tables m d) (hold : oldsz ≤ KERNBASE) {newsz : Nat} (hnew : newsz < oldsz)
    (hin : ∀ q, pages newsz ≤ q → q * PGSIZE < oldsz → present (m.slot d q) →
      Usable L (frameOf (m.slot d q)) ∧ Apart m d (frameOf (m.slot d q))) :
    ∃ m', deallocuvm L m d oldsz newsz = .ok (newsz, m') ∧ Cleared d (Reached m d oldsz (pages newsz)) m m' := by
  have hfuel : oldsz < (pages newsz + (oldsz / PGSIZE + 1)) * PGSIZE := by
    unfold pages PGSIZE
    omega
  obtain ⟨m', hrun, hc⟩ := deallocLoop_clears ht hold hfuel hin
  refine ⟨m', ?_, hc⟩
  unfold deallocuvm
  rw [if_neg (by omega), pgroundup_pages (by omega), hrun]
  rfl

end Free

lemma user_entry (f : Nat) : f * PGSIZE ||| (PTE_W ||| PTE_U) ||| PTE_P = f * PGSIZE + 7 := by
  rw [Nat.or_assoc, show (PTE_W ||| PTE_U) ||| PTE_P = 7 by decide]
  exact entry_flags f (by decide)

end Xv6.Vm
