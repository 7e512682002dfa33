import Xv6.Lib.Outcome
import Xv6.Vm
import Mathlib.Data.Finset.Card
import Mathlib.Tactic.Linarith

/-!
# Page tables

The tables of a directory are frames apart from each other, so a store to an entry of one leaves the others as
they were.
-/

namespace Xv6.Vm

open Function

def Usable (L : Layout) (f : Nat) : Prop := L.kend ≤ f * PGSIZE ∧ f * PGSIZE < PHYSTOP

/-- The entry for page number `p`, zero where there is no table. -/
def Mem.slot (m : Mem) (d p : Nat) : Nat :=
  if present (m.entry d (p / 1024)) then m.entry (frameOf (m.entry d (p / 1024))) (p % 1024) else 0

def kernPage : Nat := 0x80000

/-- The tables of a directory are different frames, and none of them is the directory. -/
structure Tables (m : Mem) (d : Nat) : Prop where
  dir : ∀ i, i < 1024 → present (m.entry d i) → frameOf (m.entry d i) ≠ d
  inj : ∀ i j, i < 1024 → j < 1024 → present (m.entry d i) → present (m.entry d j) →
    frameOf (m.entry d i) = frameOf (m.entry d j) → i = j

structure Apart (m : Mem) (d f : Nat) : Prop where
  dir : f ≠ d
  table : ∀ i, i < 1024 → present (m.entry d i) → frameOf (m.entry d i) ≠ f

section Entries

variable {m : Mem} {f g i j e : Nat}

lemma entry_setPage_other (p : Page) (h : g ≠ f) : (m.setPage f p).entry g i = m.entry g i := by
  simp [Mem.entry, Mem.setPage, update_of_ne h]

lemma entry_setEntry_same (hi : i < 1024) (he : e < 2 ^ 32) : (m.setEntry f i e).entry f i = e := by
  have hb : 4 * i + 4 ≤ PGSIZE := by unfold PGSIZE; omega
  have h := Bytes.loadLE_storeLE_same (m.page f) (4 * i) 4 e hb
  simp only [Mem.entry, Mem.setEntry, Mem.setPage, update_self, h]
  exact Nat.mod_eq_of_lt he

lemma entry_setEntry_other (h : g ≠ f ∨ j ≠ i) : (m.setEntry f i e).entry g j = m.entry g j := by
  by_cases hg : g = f
  · subst hg
    simp only [Mem.entry, Mem.setEntry, Mem.setPage, update_self]
    exact Bytes.loadLE_storeLE_disjoint _ _ _ _ _ _ (by omega)
  · exact entry_setPage_other _ hg

lemma entry_zero_same : (m.zero f).entry f i = 0 := by
  have h : ∀ off k, Bytes.loadLE (Bytes.byteAt (fun _ : Fin PGSIZE => (0 : UInt8))) off k = 0 := by
    intro off k
    induction k generalizing off with
    | zero => rfl
    | succ k ih => simp [Bytes.loadLE, Bytes.byteAt, ih]
  simp [Mem.entry, Mem.zero, Mem.setPage, h]

lemma not_present_zero : ¬present 0 := by simp [present]

lemma entry_flags (f : Nat) {p : Nat} (hp : p < PGSIZE) : f * PGSIZE ||| p = f * PGSIZE + p := by
  have h := Nat.two_pow_add_eq_or_of_lt (i := 12) hp f
  rw [Nat.mul_comm] at h
  exact h.symm

lemma frameOf_flags (f : Nat) {p : Nat} (hp : p < PGSIZE) : frameOf (f * PGSIZE + p) = f := by
  unfold frameOf PGSIZE at *
  omega

lemma user_entry_present (f : Nat) : present (f * PGSIZE + 7) := by
  unfold present PGSIZE
  omega

lemma Usable.lt {L : Layout} (h : Usable L f) {p : Nat} (hp : p < PGSIZE) :
    f * PGSIZE + p < 2 ^ 32 := by
  have h2 := h.2
  simp only [PGSIZE, PHYSTOP] at h2 hp ⊢
  linarith

lemma Usable.ne_zero {L : Layout} (h : Usable L f) : f ≠ 0 := by
  rintro rfl
  have h1 := h.1
  have hk := L.kend_pos
  omega

end Entries

section Spaces

variable {L : Layout} {m m' : Mem} {d : Nat}

lemma Tables.congr (h : Tables m d) (he : ∀ i, m'.entry d i = m.entry d i) : Tables m' d := by
  constructor
  · simp only [he]
    exact h.dir
  · simp only [he]
    exact h.inj

lemma Apart.congr {f : Nat} (h : Apart m d f) (he : ∀ i, m'.entry d i = m.entry d i) : Apart m' d f := by
  refine ⟨h.dir, ?_⟩
  simp only [he]
  exact h.table

lemma slot_congr (h : m'.page d = m.page d)
    (ht : ∀ i, i < 1024 → present (m.entry d i) →
      m'.page (frameOf (m.entry d i)) = m.page (frameOf (m.entry d i)))
    {p : Nat} (hp : p < 2 ^ 20) : m'.slot d p = m.slot d p := by
  have he : m'.entry d (p / 1024) = m.entry d (p / 1024) := by simp only [Mem.entry, h]
  unfold Mem.slot
  rw [he]
  by_cases hpr : present (m.entry d (p / 1024))
  · rw [if_pos hpr, if_pos hpr, Mem.entry, ht _ (by omega) hpr]
    rfl
  · rw [if_neg hpr, if_neg hpr]

lemma slot_setPage {f : Nat} (hf : Apart m d f) (pg : Page) {q : Nat} (hq : q < 2 ^ 20) :
    (m.setPage f pg).slot d q = m.slot d q := by
  apply slot_congr _ _ hq
  · exact update_of_ne hf.dir.symm _ _
  · intro i hi hp
    exact update_of_ne (hf.table i hi hp) _ _

end Spaces

section Primitives

variable {L : Layout} {m : Mem} {d : Nat}

lemma slot_setSlot (h : Tables m d) {p q e : Nat} (hq : q < 2 ^ 20) (he : e < 2 ^ 32)
    (hp : p < 2 ^ 20) (ht : present (m.entry d (p / 1024))) :
    (m.setEntry (frameOf (m.entry d (p / 1024))) (p % 1024) e).slot d q =
      if q = p then e else m.slot d q := by
  have hd := h.dir _ (by omega) ht
  have hdir : ∀ i, (m.setEntry (frameOf (m.entry d (p / 1024))) (p % 1024) e).entry d i = m.entry d i :=
    fun i => entry_setEntry_other (.inl hd.symm)
  unfold Mem.slot
  rw [hdir]
  by_cases hqp : q = p
  · subst hqp
    rw [if_pos ht, if_pos rfl, entry_setEntry_same (by omega) he]
  rw [if_neg hqp]
  by_cases hpr : present (m.entry d (q / 1024))
  · rw [if_pos hpr, if_pos hpr]
    apply entry_setEntry_other
    by_cases hdiv : q / 1024 = p / 1024
    · right
      omega
    · left
      intro hc
      exact hdiv (h.inj _ _ (by omega) (by omega) hpr ht hc)
  · rw [if_neg hpr, if_neg hpr]

def Mem.addTable (m : Mem) (d i f : Nat) : Mem :=
  ((kalloc m).2.zero f).setEntry d i (f * PGSIZE ||| PTE_P ||| PTE_W ||| PTE_U)

lemma table_entry (f : Nat) : f * PGSIZE ||| PTE_P ||| PTE_W ||| PTE_U = f * PGSIZE + 7 := by
  rw [Nat.or_assoc, Nat.or_assoc, show PTE_P ||| (PTE_W ||| PTE_U) = 7 by decide]
  exact entry_flags f (by decide)

lemma addTable_entry {f i j : Nat} (hf : Usable L f) (hd : d ≠ f) (hi : i < 1024) :
    (m.addTable d i f).entry d j = if j = i then f * PGSIZE + 7 else m.entry d j := by
  unfold Mem.addTable
  rw [table_entry]
  by_cases hj : j = i
  · subst hj
    rw [if_pos rfl, entry_setEntry_same hi (hf.lt (by decide))]
  · rw [if_neg hj, entry_setEntry_other (.inr hj)]
    exact entry_setPage_other _ hd

lemma addTable_page {f i g : Nat} (hf : g ≠ f) (hd : g ≠ d) : (m.addTable d i f).page g = m.page g := by
  simp [Mem.addTable, Mem.setEntry, Mem.zero, Mem.setPage, kalloc, update_of_ne hf,
    update_of_ne hd]

lemma addTable_slot {f i p : Nat} (hf : Apart m d f) (hu : Usable L f) (hi : i < 1024)
    (ha : ¬present (m.entry d i)) (ht : Tables m d) (hp : p < 2 ^ 20) :
    (m.addTable d i f).slot d p = m.slot d p := by
  unfold Mem.slot
  rw [addTable_entry hu hf.dir.symm hi]
  by_cases hpi : p / 1024 = i
  · rw [if_pos hpi, if_pos (user_entry_present f), frameOf_flags f (by decide), hpi, if_neg ha]
    unfold Mem.addTable
    rw [entry_setEntry_other (.inl hf.dir), entry_zero_same]
  rw [if_neg hpi]
  by_cases hpr : present (m.entry d (p / 1024))
  · rw [if_pos hpr, if_pos hpr, Mem.entry,
      addTable_page (hf.table _ (by omega) hpr) (ht.dir _ (by omega) hpr)]
    rfl
  · rw [if_neg hpr, if_neg hpr]

end Primitives

section Walk

variable {m : Mem} {d va p : Nat}

lemma walkpgdir_present (alloc : Bool) (h : present (m.entry d (pdx va))) :
    walkpgdir m d va alloc = (some (frameOf (m.entry d (pdx va)), ptx va), m) := by
  simp [walkpgdir, h]

lemma walkpgdir_absent (h : ¬present (m.entry d (pdx va))) : walkpgdir m d va false = (none, m) := by
  simp [walkpgdir, h]

lemma pdx_page (hp : p < 2 ^ 20) : pdx (p * PGSIZE) = p / 1024 := by
  unfold pdx PGSIZE
  omega

lemma ptx_page (p : Nat) : ptx (p * PGSIZE) = p % 1024 := by
  unfold ptx PGSIZE
  omega

lemma walk_page (alloc : Bool) (hp : p < 2 ^ 20) (h : present (m.entry d (p / 1024))) :
    walkpgdir m d (p * PGSIZE) alloc = (some (frameOf (m.entry d (p / 1024)), p % 1024), m) := by
  rw [walkpgdir_present alloc (by rwa [pdx_page hp]), pdx_page hp, ptx_page]

lemma walk_missing (hp : p < 2 ^ 20) (h : ¬present (m.entry d (p / 1024))) :
    walkpgdir m d (p * PGSIZE) false = (none, m) := walkpgdir_absent (by rwa [pdx_page hp])

lemma walk_full (hp : p < 2 ^ 20) (h : ¬present (m.entry d (p / 1024))) (hs : m.supply m.calls = none) :
    walkpgdir m d (p * PGSIZE) true = (none, (kalloc m).2) := by
  simp [walkpgdir, pdx_page hp, h, kalloc, hs]

lemma walk_alloc {f : Nat} (hp : p < 2 ^ 20) (h : ¬present (m.entry d (p / 1024)))
    (hs : m.supply m.calls = some f) :
    walkpgdir m d (p * PGSIZE) true = (some (f, p % 1024), m.addTable d (p / 1024) f) := by
  simp [walkpgdir, pdx_page hp, ptx_page, h, kalloc, hs, Mem.addTable]

lemma slot_entry (h : present (m.entry d (p / 1024))) :
    m.entry (frameOf (m.entry d (p / 1024))) (p % 1024) = m.slot d p := by
  unfold Mem.slot
  rw [if_pos h]

lemma table_of_slot (h : present (m.slot d p)) : present (m.entry d (p / 1024)) := by
  unfold Mem.slot at h
  split at h
  · assumption
  · exact absurd h not_present_zero

end Walk

def Mem.absent (m : Mem) (d : Nat) : Nat := ((Finset.range 1024).filter (fun i => ¬present (m.entry d i))).card

/-- The frames `kalloc` will hand out are different, usable and no part of the directory. -/
structure Ready (L : Layout) (m : Mem) (d : Nat) : Prop where
  tables : Tables m d
  usable : ∀ k f, m.calls ≤ k → m.supply k = some f → Usable L f
  distinct : ∀ j k f, m.calls ≤ j → m.calls ≤ k → m.supply j = some f → m.supply k = some f → j = k
  apart : ∀ k f, m.calls ≤ k → m.supply k = some f → Apart m d f

/-- What growing an address space may change besides the entries that are mapped: tables are
added and pages written, in frames that `kalloc` has handed out. -/
structure Extends (d : Nat) (m m' : Mem) : Prop where
  supply : m'.supply = m.supply
  calls : m.calls ≤ m'.calls
  tables : Tables m' d
  entry : ∀ i, i < 1024 → present (m.entry d i) → m'.entry d i = m.entry d i
  source : ∀ i, i < 1024 → present (m'.entry d i) → present (m.entry d i) ∨
    ∃ k, m.calls ≤ k ∧ k < m'.calls ∧ m.supply k = some (frameOf (m'.entry d i))
  page : ∀ f, Apart m' d f → m'.page f = m.page f ∨ ∃ k, m.calls ≤ k ∧ k < m'.calls ∧ m.supply k = some f

/-- All frames that were handed out have become tables. -/
structure Maps (d : Nat) (m m' : Mem) : Prop extends Extends d m m' where
  spent : m'.calls + m'.absent d ≤ m.calls + m.absent d

/-- Page `p` has its table now, and no other table was added. -/
structure Hangs (d p : Nat) (m m' : Mem) : Prop extends Maps d m m' where
  here : present (m'.entry d (p / 1024))
  others : ∀ i, i ≠ p / 1024 → m'.entry d i = m.entry d i
  count : m'.calls = m.calls + if present (m.entry d (p / 1024)) then 0 else 1

section Extend

variable {L : Layout} {m m' m'' : Mem} {d f p : Nat}

lemma Extends.table (h : Extends d m m') {i : Nat} (hi : i < 1024) (hp : present (m.entry d i)) :
    present (m'.entry d i) := by
  rwa [h.entry i hi hp]

lemma Extends.apart (h : Extends d m m') (ha : Apart m' d f) : Apart m d f := by
  refine ⟨ha.dir, fun i hi hp => ?_⟩
  rw [← h.entry i hi hp]
  exact ha.table i hi (h.table hi hp)

lemma Extends.refl (h : Tables m d) : Extends d m m :=
  ⟨rfl, le_rfl, h, fun _ _ _ => rfl, fun _ _ hp => .inl hp, fun _ _ => .inl rfl⟩

lemma Extends.trans (h : Extends d m m') (h' : Extends d m' m'') : Extends d m m'' := by
  have hc := h.calls
  have hc' := h'.calls
  refine ⟨h'.supply.trans h.supply, hc.trans hc', h'.tables, ?_, ?_, ?_⟩
  · intro i hi hp
    rw [h'.entry i hi (h.table hi hp), h.entry i hi hp]
  · intro i hi hp
    rcases h'.source i hi hp with hp' | ⟨k, hk, hk', hs⟩
    · rw [h'.entry i hi hp']
      rcases h.source i hi hp' with hp | ⟨k, hk, hk', hs⟩
      · exact .inl hp
      · exact .inr ⟨k, hk, hk'.trans_le hc', hs⟩
    · exact .inr ⟨k, hc.trans hk, hk', h.supply ▸ hs⟩
  · intro f ha
    rcases h'.page f ha with hp | ⟨k, hk, hk', hs⟩
    · rcases h.page f (h'.apart ha) with hp' | ⟨k, hk, hk', hs⟩
      · exact .inl (hp.trans hp')
      · exact .inr ⟨k, hk, hk'.trans_le hc', hs⟩
    · exact .inr ⟨k, hc.trans hk, hk', h.supply ▸ hs⟩

lemma Maps.refl (h : Tables m d) : Maps d m m := ⟨.refl h, le_rfl⟩

lemma Maps.trans (h : Maps d m m') (h' : Maps d m' m'') : Maps d m m'' :=
  ⟨h.toExtends.trans h'.toExtends, h'.spent.trans h.spent⟩

/-- A frame that is neither part of the directory nor on the free list stays as it is. -/
lemma Extends.untouched (h : Extends d m m') (ha : Apart m d f) (hf : ∀ k, m.calls ≤ k → m.supply k ≠ some f) :
    Apart m' d f ∧ m'.page f = m.page f := by
  have hap : Apart m' d f := by
    refine ⟨ha.dir, fun i hi hp hc => ?_⟩
    rcases h.source i hi hp with hp' | ⟨k, hk, -, hs⟩
    · rw [h.entry i hi hp'] at hc
      exact ha.table i hi hp' hc
    · exact hf k hk (hc ▸ hs)
  rcases h.page f hap with hp | ⟨k, hk, -, hs⟩
  · exact ⟨hap, hp⟩
  · exact absurd hs (hf k hk)

lemma Ready.keeps (h : Ready L m d) (hx : Extends d m m') (hx' : Extends d m' m'') {k : Nat} (hk : m.calls ≤ k)
    (hk' : k < m'.calls) (hf : m.supply k = some f) (ha : Apart m' d f) :
    Apart m'' d f ∧ m''.page f = m'.page f := by
  refine hx'.untouched ha fun j hj hs => ?_
  rw [hx.supply] at hs
  have := h.distinct j k f (hx.calls.trans hj) hk hs hf
  omega

lemma Ready.extend (h : Ready L m d) (hx : Extends d m m') : Ready L m' d := by
  have hc := hx.calls
  refine ⟨hx.tables, ?_, ?_, ?_⟩
  · intro k f hk hf
    exact h.usable k f (hc.trans hk) (hx.supply ▸ hf)
  · intro j k f hj hk hf hf'
    exact h.distinct j k f (hc.trans hj) (hc.trans hk) (hx.supply ▸ hf) (hx.supply ▸ hf')
  · intro k f hk hf
    rw [hx.supply] at hf
    have ha := h.apart k f (hc.trans hk) hf
    refine ⟨ha.dir, fun i hi hp heq => ?_⟩
    rcases hx.source i hi hp with hp' | ⟨j, hj, hj', hs⟩
    · rw [hx.entry i hi hp'] at heq
      exact ha.table i hi hp' heq
    · have := h.distinct j k f hj (hc.trans hk) (heq ▸ hs) hf
      omega

lemma Ready.take (h : Ready L m d) (hf : m.supply m.calls = some f) (pg : Page) :
    Extends d m ((kalloc m).2.setPage f pg) := by
  have ha := h.apart _ _ le_rfl hf
  have he : ∀ i, ((kalloc m).2.setPage f pg).entry d i = m.entry d i := fun i => entry_setPage_other _ ha.dir.symm
  refine ⟨rfl, Nat.le_succ _, h.tables.congr he, fun i _ _ => he i, ?_, ?_⟩
  · intro i _ hp
    rw [he] at hp
    exact .inl hp
  intro g _
  by_cases hg : g = f
  · subst hg
    exact .inr ⟨m.calls, le_rfl, Nat.lt_succ_self _, hf⟩
  · exact .inl (update_of_ne hg _ _)

lemma absent_congr (h : ∀ i, i < 1024 → m'.entry d i = m.entry d i) : m'.absent d = m.absent d := by
  have hset : ∀ i ∈ Finset.range 1024, ¬present (m'.entry d i) ↔ ¬present (m.entry d i) := by
    intro i hi
    rw [h i (Finset.mem_range.mp hi)]
  unfold Mem.absent
  rw [Finset.filter_congr hset]

lemma absent_pos {i : Nat} (hi : i < 1024) (ha : ¬present (m.entry d i)) : 0 < m.absent d :=
  Finset.card_pos.mpr ⟨i, Finset.mem_filter.mpr ⟨Finset.mem_range.mpr hi, ha⟩⟩

lemma absent_addTable {i : Nat} (hf : Usable L f) (hd : d ≠ f) (hi : i < 1024)
    (ha : ¬present (m.entry d i)) : (m.addTable d i f).absent d + 1 = m.absent d := by
  have hmem : i ∈ (Finset.range 1024).filter (fun i => ¬present (m.entry d i)) :=
    Finset.mem_filter.mpr ⟨Finset.mem_range.mpr hi, ha⟩
  have hset : (Finset.range 1024).filter (fun j => ¬present ((m.addTable d i f).entry d j)) =
      ((Finset.range 1024).filter (fun j => ¬present (m.entry d j))).erase i := by
    ext j
    simp only [Finset.mem_filter, Finset.mem_erase, addTable_entry hf hd hi]
    by_cases hj : j = i
    · simp [hj, user_entry_present f]
    · simp [hj]
  unfold Mem.absent
  rw [hset, Finset.card_erase_add_one hmem]

lemma Ready.addTable (h : Ready L m d) (hf : m.supply m.calls = some f) (hp : p < 2 ^ 20)
    (ha : ¬present (m.entry d (p / 1024))) : Hangs d p m (m.addTable d (p / 1024) f) := by
  have hi : p / 1024 < 1024 := by omega
  have hu := h.usable _ _ le_rfl hf
  have hap := h.apart _ _ le_rfl hf
  have he : ∀ j, (m.addTable d (p / 1024) f).entry d j = if j = p / 1024 then f * PGSIZE + 7 else m.entry d j :=
    fun j => addTable_entry hu hap.dir.symm hi
  have hfr : frameOf (f * PGSIZE + 7) = f := frameOf_flags f (by decide)
  refine ⟨⟨⟨rfl, Nat.le_succ _, ⟨?_, ?_⟩, ?_, ?_, ?_⟩, ?_⟩, ?_, ?_, ?_⟩
  · intro i hi' hpr
    rw [he] at hpr ⊢
    split_ifs at hpr ⊢ with heq
    · rw [hfr]
      exact hap.dir
    · exact h.tables.dir i hi' hpr
  · intro i j hi' hj' hpi hpj hc
    rw [he] at hpi hc
    rw [he] at hpj hc
    split_ifs at hpi hpj hc with h₁ h₂ h₂
    · exact h₁.trans h₂.symm
    · rw [hfr] at hc
      exact absurd hc.symm (hap.table j hj' hpj)
    · rw [hfr] at hc
      exact absurd hc (hap.table i hi' hpi)
    · exact h.tables.inj i j hi' hj' hpi hpj hc
  · intro i _ hpr
    rw [he, if_neg]
    rintro rfl
    exact ha hpr
  · intro i _ hpr
    rw [he] at hpr ⊢
    split_ifs at hpr ⊢
    · rw [hfr]
      exact .inr ⟨m.calls, le_rfl, Nat.lt_succ_self _, hf⟩
    · exact .inl hpr
  · intro g hg
    have hgf := hg.table _ hi (by rw [he, if_pos rfl]; exact user_entry_present f)
    rw [he, if_pos rfl, hfr] at hgf
    exact .inl (addTable_page hgf.symm hg.dir)
  · have := absent_addTable hu hap.dir.symm hi ha
    show m.calls + 1 + _ ≤ _
    omega
  · rw [he, if_pos rfl]
    exact user_entry_present f
  · intro i hne
    rw [he, if_neg hne]
  · rw [if_neg ha]
    rfl

lemma Maps.setSlot (h : Tables m d) (hp : p < 2 ^ 20) (ht : present (m.entry d (p / 1024))) (e : Nat) :
    Maps d m (m.setEntry (frameOf (m.entry d (p / 1024))) (p % 1024) e) ∧
      ∀ i, (m.setEntry (frameOf (m.entry d (p / 1024))) (p % 1024) e).entry d i = m.entry d i := by
  have he : ∀ i, (m.setEntry (frameOf (m.entry d (p / 1024))) (p % 1024) e).entry d i = m.entry d i :=
    fun i => entry_setEntry_other (.inl (h.dir _ (by omega) ht).symm)
  refine ⟨⟨⟨rfl, le_rfl, h.congr he, fun i _ _ => he i, ?_, ?_⟩, ?_⟩, he⟩
  · intro i _ hpi
    rw [he] at hpi
    exact .inl hpi
  · intro f hf
    have hne := hf.table (p / 1024) (by omega) (by rwa [he])
    rw [he] at hne
    exact .inl (update_of_ne hne.symm _ _)
  · rw [absent_congr (fun i _ => he i)]
    exact le_rfl

lemma Ready.walk (h : Ready L m d) (hp : p < 2 ^ 20) :
    (walkpgdir m d (p * PGSIZE) true = (none, (kalloc m).2) ∧ m.supply m.calls = none ∧
      ¬present (m.entry d (p / 1024))) ∨
    ∃ m', walkpgdir m d (p * PGSIZE) true = (some (frameOf (m'.entry d (p / 1024)), p % 1024), m') ∧
      Hangs d p m m' ∧ ∀ q, q < 2 ^ 20 → m'.slot d q = m.slot d q := by
  by_cases hpr : present (m.entry d (p / 1024))
  · refine .inr ⟨m, walk_page true hp hpr, ⟨.refl h.tables, hpr, fun _ _ => rfl, ?_⟩, fun _ _ => rfl⟩
    rw [if_pos hpr, Nat.add_zero]
  cases hs : m.supply m.calls with
  | none => exact .inl ⟨walk_full hp hpr hs, rfl, hpr⟩
  | some f =>
    have hu := h.usable _ _ le_rfl hs
    have hap := h.apart _ _ le_rfl hs
    refine .inr ⟨m.addTable d (p / 1024) f, ?_, h.addTable hs hp hpr,
      fun q hq => addTable_slot hap hu (by omega) hpr h.tables hq⟩
    rw [walk_alloc hp hpr hs, addTable_entry hu hap.dir.symm (by omega), if_pos rfl, frameOf_flags f (by decide)]

end Extend

section Map

variable {L : Layout} {m m' : Mem} {d p : Nat}

lemma Ready.mapStep (h : Ready L m d) (pa perm n : Nat) (hp : p < 2 ^ 20)
    (hfree : ¬present (m.slot d p)) (he : (pa ||| perm ||| PTE_P) < 2 ^ 32) :
    (mapLoop d perm (n + 1) (p * PGSIZE) pa m = .ok (false, (kalloc m).2) ∧ m.supply m.calls = none ∧
      ¬present (m.entry d (p / 1024))) ∨
    ∃ m', mapLoop d perm (n + 1) (p * PGSIZE) pa m =
        mapLoop d perm n ((p * PGSIZE + PGSIZE) % 2 ^ 32) ((pa + PGSIZE) % 2 ^ 32) m' ∧ Hangs d p m m' ∧
      ∀ q, q < 2 ^ 20 → m'.slot d q = if q = p then pa ||| perm ||| PTE_P else m.slot d q := by
  rcases h.walk hp with ⟨hw, hs, ha⟩ | ⟨m', hw, hx, hslot⟩
  · exact .inl ⟨by simp [mapLoop, hw], hs, ha⟩
  right
  obtain ⟨hset, hdir⟩ := Maps.setSlot hx.tables hp hx.here (pa ||| perm ||| PTE_P)
  refine ⟨m'.setEntry (frameOf (m'.entry d (p / 1024))) (p % 1024) (pa ||| perm ||| PTE_P), ?_,
    ⟨hx.toMaps.trans hset, by rw [hdir]; exact hx.here, fun i hi => (hdir i).trans (hx.others i hi), hx.count⟩, ?_⟩
  · rw [mapLoop, hw]
    simp only
    rw [if_neg]
    rw [slot_entry hx.here, hslot p hp]
    exact hfree
  · intro q hq
    rw [slot_setSlot hx.tables hq he hp hx.here, hslot q hq]

def entryAt (pa perm k : Nat) : Nat := (pa + k * PGSIZE) % 2 ^ 32 ||| perm ||| PTE_P

lemma entryAt_present (pa perm k : Nat) : present (entryAt pa perm k) := by
  simp [entryAt, present, PTE_P, Nat.or_mod_two_eq_one]

lemma Ready.mapPages (h : Ready L m d) {a pa perm lo n : Nat} (ha : 0 < n → a = lo * PGSIZE)
    (hn : lo + n ≤ 2 ^ 20) (hpa : pa < 2 ^ 32) (hperm : perm < 2 ^ 32)
    (hfree : ∀ q, lo ≤ q → q < lo + n → ¬present (m.slot d q)) :
    ∃ ok m', mapLoop d perm n a pa m = .ok (ok, m') ∧
      (∀ q, q < 2 ^ 20 → ¬(lo ≤ q ∧ q < lo + n) → m'.slot d q = m.slot d q) ∧
      (ok = true → Maps d m m' ∧ ∀ q, lo ≤ q → q < lo + n → m'.slot d q = entryAt pa perm (q - lo)) ∧
      (ok = false → ∃ k, m.calls ≤ k ∧ k < m.calls + m.absent d ∧ m.supply k = none) := by
  induction n generalizing m a pa lo with
  | zero =>
    exact ⟨true, m, rfl, fun _ _ _ => rfl, fun _ => ⟨.refl h.tables, fun q _ _ => by omega⟩, nofun⟩
  | succ n ih =>
    have he : (pa ||| perm ||| PTE_P) < 2 ^ 32 :=
      Nat.or_lt_two_pow (Nat.or_lt_two_pow hpa hperm) (by decide)
    rw [ha (Nat.succ_pos n)]
    rcases h.mapStep pa perm n (by omega) (hfree lo le_rfl (by omega)) he with
      ⟨hw, hs, habs⟩ | ⟨m₁, hw, hx, hslot⟩
    · refine ⟨false, _, hw, fun _ _ _ => rfl, nofun, fun _ => ⟨m.calls, le_rfl, ?_, hs⟩⟩
      have := absent_pos (by omega) habs
      omega
    have hnext : 0 < n → (lo * PGSIZE + PGSIZE) % 2 ^ 32 = (lo + 1) * PGSIZE := by
      intro hpos
      unfold PGSIZE
      omega
    obtain ⟨ok, m', hrun, hout, htrue, hfalse⟩ := ih (h.extend hx.toExtends) hnext (by omega)
      (Nat.mod_lt (pa + PGSIZE) (by decide)) (by
        intro q hq hq'
        rw [hslot q (by omega), if_neg (by omega)]
        exact hfree q (by omega) (by omega))
    refine ⟨ok, m', hw.trans hrun, ?_, ?_, ?_⟩
    · intro q hq hno
      rw [hout q hq (by omega), hslot q hq, if_neg (by omega)]
    · intro hok
      obtain ⟨hmaps, hin⟩ := htrue hok
      refine ⟨hx.toMaps.trans hmaps, fun q hq hq' => ?_⟩
      by_cases hql : q = lo
      · subst hql
        rw [hout q (by omega) (by omega), hslot q (by omega), if_pos rfl, entryAt, Nat.sub_self, Nat.zero_mul,
          Nat.add_zero, Nat.mod_eq_of_lt hpa]
      have hsum : ((pa + PGSIZE) % 2 ^ 32 + (q - (lo + 1)) * PGSIZE) % 2 ^ 32 =
          (pa + (q - lo) * PGSIZE) % 2 ^ 32 := by
        unfold PGSIZE
        omega
      rw [hin q (by omega) (by omega), entryAt, entryAt, hsum]
    · intro hok
      obtain ⟨k, hle, hk, hs⟩ := hfalse hok
      exact ⟨k, hx.calls.trans hle, lt_of_lt_of_le hk hx.spent, hx.supply ▸ hs⟩

end Map

/-- A run of whole pages above page `lo`, followed by such runs in increasing order. -/
def Ordered : Nat → List Kmap → Prop
  | _, [] => True
  | lo, k :: ks => ∃ first n, k.virt = first * PGSIZE ∧
      (k.physEnd + 2 ^ 32 - k.physStart) % 2 ^ 32 = n * PGSIZE ∧ 0 < n ∧ lo ≤ first ∧
      first + n ≤ 2 ^ 20 ∧ k.physStart % PGSIZE = 0 ∧ k.physStart < 2 ^ 32 ∧ k.perm ∈ [0, PTE_W] ∧
      Ordered (first + n) ks

def Kmap.Holds (k : Kmap) (q : Nat) : Prop :=
  k.virt / PGSIZE ≤ q ∧ q < k.virt / PGSIZE + (k.physEnd + 2 ^ 32 - k.physStart) % 2 ^ 32 / PGSIZE

def Kmap.entry (k : Kmap) (q : Nat) : Nat := entryAt k.physStart k.perm (q - k.virt / PGSIZE)

def Covers (ks : List Kmap) (q : Nat) : Prop := ∃ k ∈ ks, k.Holds q

section Kernel

variable {L : Layout} {m : Mem} {d : Nat}

lemma mappages_pages (m : Mem) (d : Nat) {lo n : Nat} (hn : 0 < n) (h : lo + n ≤ 2 ^ 20) (pa perm : Nat) :
    mappages m d (lo * PGSIZE) (n * PGSIZE) pa perm = mapLoop d perm n (lo * PGSIZE) pa m := by
  have ha : pgrounddown (lo * PGSIZE) = lo * PGSIZE := by
    unfold pgrounddown PGSIZE
    omega
  have hlast : pgrounddown ((lo * PGSIZE + n * PGSIZE + 2 ^ 32 - 1) % 2 ^ 32) = (lo + n - 1) * PGSIZE := by
    unfold pgrounddown PGSIZE
    omega
  have hcount : ((lo + n - 1) * PGSIZE + 2 ^ 32 - lo * PGSIZE) % 2 ^ 32 / PGSIZE + 1 = n := by
    unfold PGSIZE
    omega
  unfold mappages
  simp only
  rw [ha, hlast, hcount]

lemma Layout.dataPage (L : Layout) : ∃ D, L.data = D * PGSIZE ∧ 0x80100 < D ∧ D < 0x8E000 := by
  have hdiv : L.data = L.data / PGSIZE * PGSIZE := (Nat.div_mul_cancel (Nat.dvd_of_mod_eq_zero L.data_aligned)).symm
  have hlo := L.data_lower
  have hhi := L.data_upper
  refine ⟨L.data / PGSIZE, hdiv, ?_, ?_⟩
  · unfold KERNLINK KERNBASE EXTMEM PGSIZE at *
    omega
  · unfold KERNBASE PHYSTOP PGSIZE at *
    omega

lemma kmap_ordered (L : Layout) : Ordered kernPage (kmap L) := by
  obtain ⟨D, hD, h1, h2⟩ := L.dataPage
  have hlink : KERNLINK - KERNBASE = 0x100 * PGSIZE := rfl
  have hsize : (L.data - KERNBASE + 2 ^ 32 - (KERNLINK - KERNBASE)) % 2 ^ 32 = (D - 0x80100) * PGSIZE := by
    simp only [hD, KERNLINK, KERNBASE, EXTMEM, PGSIZE]
    omega
  have hrest : (PHYSTOP + 2 ^ 32 - (L.data - KERNBASE)) % 2 ^ 32 = (0x8E000 - D) * PGSIZE := by
    simp only [hD, KERNBASE, PHYSTOP, PGSIZE]
    omega
  have hphys : L.data - KERNBASE = (D - 0x80000) * PGSIZE := by
    simp only [hD, KERNBASE, PGSIZE]
    omega
  refine ⟨0x80000, 0x100, rfl, rfl, by decide, le_rfl, by decide, rfl, by decide, by decide,
    0x80100, D - 0x80100, rfl, hsize, by omega, le_rfl, by omega, ?_, ?_, .head _,
    D, 0x8E000 - D, hD, hrest, by omega, by omega, by omega, ?_, ?_, .tail _ (.head _),
    0xFE000, 0x2000, rfl, rfl, by decide, by omega, by decide, rfl, by decide, by decide, trivial⟩
  · show (KERNLINK - KERNBASE) % PGSIZE = 0
    rw [hlink, Nat.mul_mod_left]
  · show KERNLINK - KERNBASE < 2 ^ 32
    decide
  · show (L.data - KERNBASE) % PGSIZE = 0
    rw [hphys, Nat.mul_mod_left]
  · show L.data - KERNBASE < 2 ^ 32
    rw [hphys]
    have hlt : D - 0x80000 < 2 ^ 20 := by omega
    unfold PGSIZE
    linarith

lemma Ordered.covers {lo q : Nat} {ks : List Kmap} (h : Ordered lo ks) (hq : Covers ks q) :
    lo ≤ q ∧ q < 2 ^ 20 := by
  induction ks generalizing lo with
  | nil =>
    obtain ⟨k, hk, -⟩ := hq
    cases hk
  | cons k ks ih =>
    obtain ⟨first, n, hvirt, hsize, hn, hle, hend, -, -, -, hrest⟩ := h
    obtain ⟨k', hk', hin, hin'⟩ := hq
    rcases List.mem_cons.mp hk' with rfl | hk'
    · rw [hvirt, Nat.mul_div_cancel first (by decide)] at hin hin'
      rw [hsize, Nat.mul_div_cancel n (by decide)] at hin'
      omega
    · have := ih hrest ⟨k', hk', hin, hin'⟩
      omega

lemma Ready.mapKernel (h : Ready L m d) {lo : Nat} {ks : List Kmap} (hks : Ordered lo ks)
    (hfree : ∀ q, Covers ks q → ¬present (m.slot d q)) :
    ∃ ok m', mapKernel d ks m = .ok (ok, m') ∧
      (ok = true → Maps d m m' ∧ (∀ k ∈ ks, ∀ q, k.Holds q → m'.slot d q = k.entry q) ∧
        ∀ q, q < 2 ^ 20 → ¬Covers ks q → m'.slot d q = m.slot d q) ∧
      (ok = false → ∃ k, m.calls ≤ k ∧ k < m.calls + m.absent d ∧ m.supply k = none) := by
  induction ks generalizing m lo with
  | nil => exact ⟨true, m, rfl, fun _ => ⟨.refl h.tables, nofun, fun _ _ _ => rfl⟩, nofun⟩
  | cons k ks ih =>
    obtain ⟨first, n, hvirt, hsize, hn, hle, hend, hpa, hlt, hperm, hrest⟩ := hks
    have hvirt' : k.virt / PGSIZE = first := by rw [hvirt, Nat.mul_div_cancel first (by decide)]
    have hsize' : (k.physEnd + 2 ^ 32 - k.physStart) % 2 ^ 32 / PGSIZE = n := by
      rw [hsize, Nat.mul_div_cancel n (by decide)]
    have hperm : k.perm < 2 ^ 32 := by
      simp only [List.mem_cons, List.not_mem_nil, or_false] at hperm
      rcases hperm with hc | hc <;> rw [hc] <;> decide
    have hin : ∀ q, k.Holds q ↔ first ≤ q ∧ q < first + n := by
      intro q
      rw [Kmap.Holds, hvirt', hsize']
    have hcov : ∀ q, Covers (k :: ks) q ↔ (first ≤ q ∧ q < first + n) ∨ Covers ks q := by
      intro q
      rw [← hin]
      simp [Covers]
    obtain ⟨ok, m₁, hrun, hout, htrue, hfalse⟩ := h.mapPages (fun _ => rfl) hend hlt hperm
      (fun q hq hq' => hfree q ((hcov q).mpr (.inl ⟨hq, hq'⟩)))
    unfold Vm.mapKernel
    rw [hvirt, hsize, mappages_pages m d hn hend, hrun]
    cases ok with
    | false => exact ⟨false, m₁, rfl, nofun, fun _ => hfalse rfl⟩
    | true =>
      obtain ⟨hm, hmap⟩ := htrue rfl
      obtain ⟨ok, m', hrun', htrue', hfalse'⟩ := ih (h.extend hm.toExtends) hrest (by
        intro q hq
        have hge := hrest.covers hq
        rw [hout q hge.2 (by omega)]
        exact hfree q ((hcov q).mpr (.inr hq)))
      refine ⟨ok, m', hrun', ?_, ?_⟩
      · intro hok
        obtain ⟨hm', hmap', hout'⟩ := htrue' hok
        refine ⟨hm.trans hm', ?_, ?_⟩
        · intro k' hk' q hq
          rcases List.mem_cons.mp hk' with rfl | hk'
          · obtain ⟨h₁, h₂⟩ := (hin q).mp hq
            rw [hout' q (by omega) (fun hc => by have := hrest.covers hc; omega), hmap q h₁ h₂, Kmap.entry, hvirt']
          · exact hmap' k' hk' q hq
        · intro q hq hno
          rw [hcov, not_or] at hno
          rw [hout' q hq hno.2, hout q hq hno.1]
      · intro hok
        obtain ⟨c, hle', hc, hs⟩ := hfalse' hok
        exact ⟨c, hm.calls.trans hle', lt_of_lt_of_le hc hm.spent, hm.supply ▸ hs⟩

end Kernel

section Setup

variable {L : Layout} {m : Mem} {d : Nat}

lemma absent_zero : (m.zero d).absent d = 1024 := by
  unfold Mem.absent
  rw [Finset.filter_true_of_mem, Finset.card_range]
  intro i _
  rw [entry_zero_same]
  exact not_present_zero

lemma slot_zero (q : Nat) : (m.zero d).slot d q = 0 := by
  unfold Mem.slot
  rw [entry_zero_same, if_neg not_present_zero]

/-- The frames `kalloc` will hand out are different and usable. -/
structure Supplied (L : Layout) (m : Mem) : Prop where
  usable : ∀ k f, m.calls ≤ k → m.supply k = some f → Usable L f
  distinct : ∀ j k f, m.calls ≤ j → m.calls ≤ k → m.supply j = some f → m.supply k = some f → j = k

lemma Supplied.create (h : Supplied L m) (hd : m.supply m.calls = some d) : Ready L ((kalloc m).2.zero d) d := by
  have hno : ∀ i, ¬present (((kalloc m).2.zero d).entry d i) := by
    intro i
    rw [entry_zero_same]
    exact not_present_zero
  refine ⟨⟨fun i _ hp => absurd hp (hno i), fun i _ _ _ hp => absurd hp (hno i)⟩,
    fun k f hk => h.usable k f (Nat.le_of_succ_le hk),
    fun j k f hj hk => h.distinct j k f (Nat.le_of_succ_le hj) (Nat.le_of_succ_le hk), ?_⟩
  intro k f hk hf
  refine ⟨?_, fun i _ hp => absurd hp (hno i)⟩
  rintro rfl
  have := h.distinct k m.calls f (Nat.le_of_succ_le hk) le_rfl hf hd
  have hk' : m.calls + 1 ≤ k := hk
  omega

/-- `setupkvm` maps the regions of `kmap` and nothing else, or runs out of memory within its
first 1025 pages. -/
lemma setupkvm_maps (h : Supplied L m) :
    ∃ r m', setupkvm L m = .ok (r, m') ∧
      (∀ d, r = some d → m.supply m.calls = some d ∧ Maps d ((kalloc m).2.zero d) m' ∧
        (∀ k ∈ kmap L, ∀ q, k.Holds q → m'.slot d q = k.entry q) ∧
        (∀ q, q < 2 ^ 20 → ¬Covers (kmap L) q → m'.slot d q = 0) ∧ m'.calls ≤ m.calls + 1025) ∧
      (r = none → ∃ k, m.calls ≤ k ∧ k < m.calls + 1025 ∧ m.supply k = none) := by
  unfold setupkvm
  cases hs : m.supply m.calls with
  | none =>
    simp only [kalloc, hs]
    exact ⟨none, _, rfl, nofun, fun _ => ⟨m.calls, le_rfl, by omega, hs⟩⟩
  | some d =>
    have hcalls : ((kalloc m).2.zero d).calls + ((kalloc m).2.zero d).absent d = m.calls + 1025 := by
      rw [absent_zero]
      show m.calls + 1 + 1024 = _
      omega
    obtain ⟨ok, m', hrun, htrue, hfalse⟩ := (h.create hs).mapKernel (kmap_ordered L)
      (fun q _ => by rw [slot_zero]; exact not_present_zero)
    rw [show kalloc m = (some d, (kalloc m).2) by rw [← hs]; rfl]
    simp only [hrun, bind, Except.bind]
    cases ok with
    | false =>
      refine ⟨none, m', rfl, nofun, fun _ => ?_⟩
      obtain ⟨k, hle, hk, hn⟩ := hfalse rfl
      exact ⟨k, (Nat.le_succ _).trans hle, hk.trans_eq hcalls, hn⟩
    | true =>
      obtain ⟨hm, hin, hout⟩ := htrue rfl
      refine ⟨some d, m', rfl, ?_, nofun⟩
      rintro _ ⟨⟩
      exact ⟨rfl, hm, hin, fun q hq hno => (hout q hq hno).trans (slot_zero q),
        (Nat.le_add_right _ _).trans (hm.spent.trans_eq hcalls)⟩

end Setup

end Xv6.Vm
