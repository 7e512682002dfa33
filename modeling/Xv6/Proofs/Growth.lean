import Xv6.Proofs.AddressSpace

/-!
# What `allocuvm` delivers

A page and the page table it may need come from the same free list, at two calls of `kalloc`.
`allocuvm` sees only the first call fail.
-/

namespace Xv6.Vm

/-- The free frames are different, usable, and not part of the directory or mapped by it. -/
structure Directory (L : Layout) (m : Mem) (d : Nat) : Prop where
  tables : Tables m d
  usable : ∀ k f, m.calls ≤ k → m.supply k = some f → Usable L f
  distinct : ∀ j k f, m.calls ≤ j → m.calls ≤ k → m.supply j = some f → m.supply k = some f → j = k
  apart : ∀ k f, m.calls ≤ k → m.supply k = some f → Apart m d f
  unmapped : ∀ k f, m.calls ≤ k → m.supply k = some f →
    ∀ q, q < kernPage → present (m.slot d q) → frameOf (m.slot d q) ≠ f

/-- What `kalloc` will answer while `allocuvm` goes through `n` pages from page `lo` on, as long as it
refuses no page for the data: the number of calls, and the page tables handed out. -/
def tally (m : Mem) (d lo : Nat) : Nat → Nat × List Nat
  | 0 => (m.calls, [])
  | n + 1 =>
    let (k, ts) := tally m d lo n
    if present (m.entry d ((lo + n) / 1024)) ∨ (lo + n) / 1024 ∈ ts then (k + 1, ts)
    else if m.supply (k + 1) = none then (k + 2, ts)
    else (k + 2, (lo + n) / 1024 :: ts)

/-- The call of `kalloc` for the data of page `p`. -/
def callFor (m : Mem) (d lo p : Nat) : Nat := (tally m d lo (p - lo)).1

/-- The page tables that were handed out for the pages below `p`. -/
def granted (m : Mem) (d lo p : Nat) : List Nat := (tally m d lo (p - lo)).2

/-- There is no table for page `p` when its turn comes. -/
def NeedsTable (m : Mem) (d lo p : Nat) : Prop :=
  ¬present (m.entry d (p / 1024)) ∧ p / 1024 ∉ granted m d lo p

instance (m : Mem) (d lo p : Nat) : Decidable (NeedsTable m d lo p) := inferInstanceAs (Decidable (_ ∧ _))

/-- The page table for page `p` is refused, right after the call for its data. -/
def Lost (m : Mem) (d lo p : Nat) : Prop :=
  NeedsTable m d lo p ∧ m.supply (callFor m d lo p + 1) = none

instance (m : Mem) (d lo p : Nat) : Decidable (Lost m d lo p) := inferInstanceAs (Decidable (_ ∧ _))

def Served (m : Mem) (d lo n : Nat) : Prop :=
  ∀ q, lo ≤ q → q < n → m.supply (callFor m d lo q) ≠ none

def InRange (oldsz newsz p : Nat) : Prop := pgroundup oldsz ≤ p * PGSIZE ∧ p * PGSIZE < newsz

instance (oldsz newsz p : Nat) : Decidable (InRange oldsz newsz p) := inferInstanceAs (Decidable (_ ∧ _))

/-- No page table is refused, or a page for the data is refused later on. What is mapped by then can
be found by `deallocuvm`: it is in the table of the first page, or not before the first page's place in
its own table, or in a table after another one with mapped pages. -/
structure TablesGranted (m : Mem) (d oldsz newsz : Nat) : Prop where
  all : Served m d (pages oldsz) (pages newsz) →
    ∀ p, pages oldsz ≤ p → p < pages newsz → ¬Lost m d (pages oldsz) p
  found : ∀ n, pages oldsz ≤ n → n < pages newsz → Served m d (pages oldsz) n →
    m.supply (callFor m d (pages oldsz) n) = none →
    ∀ q, pages oldsz ≤ q → q < n → ¬Lost m d (pages oldsz) q → q % 1024 < pages oldsz % 1024 →
      ∃ p, pages oldsz ≤ p ∧ p / 1024 < q / 1024 ∧ ¬Lost m d (pages oldsz) p

/-- The address space after `allocuvm` has returned `r`. -/
structure Delivered (m m' : Mem) (d oldsz newsz r : Nat) : Prop where
  result : r = newsz ∨ r = 0
  mapped : r = newsz → ∀ p, InRange oldsz newsz p → ∃ k f, m.calls ≤ k ∧ m.supply k = some f ∧
    m'.slot d p = f * PGSIZE ||| PTE_P ||| PTE_W ||| PTE_U ∧ m'.page f = (fun _ => 0) ∧
    ∀ q, q < kernPage → present (m'.slot d q) → frameOf (m'.slot d q) = f → q = p
  none_mapped : r = 0 → ∀ p, InRange oldsz newsz p → ¬present (m'.slot d p)
  outside : ∀ q, q < 2 ^ 20 → ¬InRange oldsz newsz q → m'.slot d q = m.slot d q

section Calls

variable {m : Mem} {d lo p q : Nat}

lemma callFor_self : callFor m d lo lo = m.calls := by simp [callFor, tally]

lemma granted_self : granted m d lo lo = [] := by simp [granted, tally]

lemma tally_succ (h : lo ≤ p) : tally m d lo (p + 1 - lo) =
    (callFor m d lo p + 1 + (if NeedsTable m d lo p then 1 else 0),
      if NeedsTable m d lo p ∧ ¬Lost m d lo p then p / 1024 :: granted m d lo p else granted m d lo p) := by
  have hunfold : tally m d lo (p + 1 - lo) =
      if present (m.entry d (p / 1024)) ∨ p / 1024 ∈ granted m d lo p then (callFor m d lo p + 1, granted m d lo p)
      else if m.supply (callFor m d lo p + 1) = none then (callFor m d lo p + 2, granted m d lo p)
      else (callFor m d lo p + 2, p / 1024 :: granted m d lo p) := by
    rw [show p + 1 - lo = p - lo + 1 by omega, tally, show lo + (p - lo) = p by omega]
    rfl
  rw [hunfold]
  by_cases hneed : NeedsTable m d lo p
  · rw [if_neg (not_or.mpr hneed), if_pos hneed]
    by_cases hs : m.supply (callFor m d lo p + 1) = none
    · rw [if_pos hs, if_neg fun hc => hc.2 ⟨hneed, hs⟩]
    · rw [if_neg hs, if_pos ⟨hneed, fun hc => hs hc.2⟩]
  · rw [if_pos (by rwa [NeedsTable, not_and_or, not_not, not_not] at hneed), if_neg hneed,
      if_neg fun hc => hneed hc.1]

lemma callFor_succ (h : lo ≤ p) :
    callFor m d lo (p + 1) = callFor m d lo p + 1 + if NeedsTable m d lo p then 1 else 0 := by
  rw [callFor, tally_succ h]

lemma mem_granted_succ (h : lo ≤ p) {i : Nat} : i ∈ granted m d lo (p + 1) ↔
    i ∈ granted m d lo p ∨ i = p / 1024 ∧ NeedsTable m d lo p ∧ ¬Lost m d lo p := by
  rw [granted, tally_succ h]
  dsimp only
  by_cases hc : NeedsTable m d lo p ∧ ¬Lost m d lo p
  · rw [if_pos hc, List.mem_cons, or_comm]
    exact or_congr_right (iff_self_and.mpr fun _ => hc)
  · rw [if_neg hc]
    exact (or_iff_left fun hi => hc hi.2).symm

lemma granted_mono (h : lo ≤ p) (hpq : p ≤ q) {i : Nat} (hi : i ∈ granted m d lo p) : i ∈ granted m d lo q := by
  induction q, hpq using Nat.le_induction with
  | base => exact hi
  | succ q hq ih => exact (mem_granted_succ (h.trans hq)).mpr (.inl ih)

lemma exists_of_mem_granted (h : lo ≤ q) {i : Nat} (hi : i ∈ granted m d lo q) :
    ∃ p, lo ≤ p ∧ p < q ∧ p / 1024 = i ∧ ¬Lost m d lo p := by
  induction q, h using Nat.le_induction with
  | base =>
    rw [granted_self] at hi
    cases hi
  | succ q hq ih =>
    rcases (mem_granted_succ hq).mp hi with hi | ⟨rfl, -, hl⟩
    · obtain ⟨p, h₁, h₂, h₃⟩ := ih hi
      exact ⟨p, h₁, by omega, h₃⟩
    · exact ⟨q, hq, Nat.lt_succ_self q, rfl, hl⟩

/-- A page that is not lost has its table from then on. -/
lemma table_of_not_lost (h : lo ≤ p) (hpq : p < q) (hl : ¬Lost m d lo p) :
    present (m.entry d (p / 1024)) ∨ p / 1024 ∈ granted m d lo q := by
  by_cases hneed : NeedsTable m d lo p
  · exact .inr (granted_mono (by omega) hpq ((mem_granted_succ h).mpr (.inr ⟨rfl, hneed, hl⟩)))
  · rw [NeedsTable, not_and_or, not_not, not_not] at hneed
    exact hneed.imp_right (granted_mono h hpq.le)

lemma callFor_lt (h : lo ≤ p) (hpq : p < q) : callFor m d lo p < callFor m d lo q := by
  induction q, hpq using Nat.le_induction with
  | base =>
    rw [callFor_succ h]
    omega
  | succ q hq ih =>
    rw [callFor_succ (by omega : lo ≤ q)]
    omega

lemma le_callFor (h : lo ≤ p) : m.calls ≤ callFor m d lo p := by
  rcases h.eq_or_lt with rfl | hlt
  · exact callFor_self.ge
  · exact callFor_self.ge.trans (callFor_lt le_rfl hlt).le

lemma callFor_inj (hp : lo ≤ p) (hq : lo ≤ q) (h : callFor m d lo p = callFor m d lo q) : p = q := by
  rcases Nat.lt_trichotomy p q with hlt | heq | hgt
  · exact absurd h (callFor_lt hp hlt).ne
  · exact heq
  · exact absurd h (callFor_lt hq hgt).ne'

end Calls

/-- Page `p` is mapped to the frame `f` with the contents `pg`, which was taken off the free list. -/
structure Places (d p f : Nat) (pg : Page) (perm : Nat) (m m' : Mem) : Prop extends Extends d m m' where
  here : present (m'.entry d (p / 1024))
  others : ∀ i, i ≠ p / 1024 → m'.entry d i = m.entry d i
  count : m'.calls = m.calls + 1 + if present (m.entry d (p / 1024)) then 0 else 1
  apart : Apart m' d f
  filled : m'.page f = pg
  slot : ∀ q, q < 2 ^ 20 → m'.slot d q = if q = p then f * PGSIZE ||| perm ||| PTE_P else m.slot d q

/-- The frame taken off the free list is lost: there is no table for page `p`, and none is handed out. -/
structure Wastes (d p : Nat) (m m' : Mem) : Prop extends Extends d m m' where
  entries : ∀ i, m'.entry d i = m.entry d i
  count : m'.calls = m.calls + 2
  slots : ∀ q, q < 2 ^ 20 → m'.slot d q = m.slot d q
  refused : m.supply (m.calls + 1) = none
  missing : ¬present (m.entry d (p / 1024))

lemma Ready.place {L : Layout} {m : Mem} {d f p perm : Nat} (h : Ready L m d) (hf : m.supply m.calls = some f)
    (pg : Page) (hp : p < 2 ^ 20) (hperm : perm < PGSIZE) (hfree : ¬present (m.slot d p)) :
    ∃ ok m', mappages ((kalloc m).2.setPage f pg) d (p * PGSIZE) PGSIZE (f * PGSIZE) perm = .ok (ok, m') ∧
      (ok = true → Places d p f pg perm m m') ∧
      (ok = false → Wastes d p m m') := by
  have ha := h.apart _ _ le_rfl hf
  have htake := h.take hf pg
  have hent : ∀ i, ((kalloc m).2.setPage f pg).entry d i = m.entry d i := fun i => entry_setPage_other _ ha.dir.symm
  have hslot₁ : ∀ q, q < 2 ^ 20 → ((kalloc m).2.setPage f pg).slot d q = m.slot d q :=
    fun q hq => slot_setPage (m := (kalloc m).2) (ha.congr fun _ => rfl) pg hq
  have hpage : ((kalloc m).2.setPage f pg).page f = pg := Function.update_self ..
  have hone := mappages_pages ((kalloc m).2.setPage f pg) d Nat.one_pos (show p + 1 ≤ 2 ^ 20 by omega) (f * PGSIZE) perm
  have hlt : (f * PGSIZE ||| perm ||| PTE_P) < 2 ^ 32 := by
    have hfr : f * PGSIZE < 2 ^ 32 := (h.usable _ _ le_rfl hf).2.trans (by decide)
    exact Nat.or_lt_two_pow (Nat.or_lt_two_pow hfr (hperm.trans (show PGSIZE < 2 ^ 32 by decide))) (by decide)
  rw [Nat.one_mul] at hone
  rw [hone]
  rcases (h.extend htake).mapStep (f * PGSIZE) perm 0 hp (by rwa [hslot₁ p hp]) hlt with
    ⟨hw, hnone, habs⟩ | ⟨m', hw, hx, hslot⟩
  · have hskip : Extends d ((kalloc m).2.setPage f pg) (kalloc ((kalloc m).2.setPage f pg)).2 :=
      ⟨rfl, Nat.le_succ _, htake.tables.congr fun _ => rfl, fun _ _ _ => rfl, fun _ _ hp => .inl hp,
        fun _ _ => .inl rfl⟩
    exact ⟨_, _, hw, nofun, fun _ => ⟨htake.trans hskip, hent, rfl, hslot₁, hnone, by rwa [hent] at habs⟩⟩
  obtain ⟨hap, hpg⟩ := h.keeps htake hx.toExtends le_rfl (Nat.lt_succ_self _) hf (ha.congr hent)
  refine ⟨_, m', hw, fun _ => ⟨htake.trans hx.toExtends, hx.here, ?_, ?_, hap, hpg.trans hpage, ?_⟩, nofun⟩
  · intro i hi
    rw [hx.others i hi, hent]
  · rw [hx.count, hent]
    rfl
  · intro q hq
    rw [hslot q hq, hslot₁ q hq]

lemma Places.granted {d p f perm : Nat} {pg : Page} {m m' : Mem} (h : Places d p f pg perm m m') (hp : p < 2 ^ 20)
    (hf : m.supply m.calls = some f) (habs : ¬present (m.entry d (p / 1024))) : m.supply (m.calls + 1) ≠ none := by
  have hi : p / 1024 < 1024 := by omega
  obtain ⟨k, hk, hk', hs⟩ := (h.source _ hi h.here).resolve_left habs
  rw [h.count, if_neg habs] at hk'
  -- The frame `f` itself did not become the table.
  have hne : k ≠ m.calls := by
    rintro rfl
    exact h.apart.table _ hi h.here (Option.some.inj (hs.symm.trans hf))
  rw [show m.calls + 1 = k by omega, hs]
  exact Option.some_ne_none _

/-- The run of `allocuvm` from memory `m₀`: the pages from `lo` below `n` are mapped, except the lost
ones. -/
structure Grown (m₀ : Mem) (d lo n : Nat) (m : Mem) : Prop extends Extends d m₀ m where
  count : m.calls = callFor m₀ d lo n
  dirs : ∀ i, i < 1024 → (present (m.entry d i) ↔ present (m₀.entry d i) ∨ i ∈ granted m₀ d lo n)
  mapped : ∀ q, lo ≤ q → q < n → ¬Lost m₀ d lo q → ∃ f, m₀.supply (callFor m₀ d lo q) = some f ∧
    m.slot d q = f * PGSIZE + 7 ∧ m.page f = (fun _ => 0) ∧ Apart m d f
  outside : ∀ q, q < 2 ^ 20 → q < lo ∨ n ≤ q ∨ Lost m₀ d lo q → m.slot d q = m₀.slot d q

section Grow

variable {L : Layout} {m₀ m : Mem} {d lo n f : Nat}

lemma Directory.ready (h : Directory L m d) : Ready L m d := ⟨h.tables, h.usable, h.distinct, h.apart⟩

lemma Directory.grown (h : Directory L m₀ d) : Grown m₀ d lo lo m₀ := by
  refine ⟨.refl h.tables, callFor_self.symm, fun i _ => ?_, fun q _ _ => by omega, fun q _ _ => rfl⟩
  rw [granted_self]
  simp only [List.not_mem_nil, or_false]

lemma Grown.absent_iff (h : Grown m₀ d lo n m) (hn : n < kernPage) :
    ¬present (m.entry d (n / 1024)) ↔ NeedsTable m₀ d lo n := by
  have hk : n < 0x80000 := hn
  rw [h.dirs _ (by omega), NeedsTable, not_or]

/-- A page that got its frame and its table. -/
lemma Grown.add (hd : Directory L m₀ d) (h : Grown m₀ d lo n m) (hlo : lo ≤ n) (hn : n < kernPage)
    (hf : m₀.supply (callFor m₀ d lo n) = some f) (hl : ¬Lost m₀ d lo n) {m' : Mem}
    (hx : Places d n f (fun _ => 0) (PTE_W ||| PTE_U) m m') : Grown m₀ d lo (n + 1) m' := by
  have hk : n < 0x80000 := hn
  have hiff := h.absent_iff hn
  have hkeep : ∀ q, q ≠ n → q < 2 ^ 20 → m'.slot d q = m.slot d q := by
    intro q hne hq
    rw [hx.slot q hq, if_neg hne]
  refine ⟨h.toExtends.trans hx.toExtends, ?_, ?_, ?_, ?_⟩
  · simp only [hx.count, h.count, callFor_succ hlo, ← hiff, ite_not]
  · intro i hi
    rw [mem_granted_succ hlo, ← or_assoc, ← h.dirs i hi]
    by_cases heq : i = n / 1024
    · subst heq
      refine iff_of_true hx.here ?_
      by_cases hp : present (m.entry d (n / 1024))
      · exact .inl hp
      · exact .inr ⟨rfl, hiff.mp hp, hl⟩
    · rw [hx.others i heq]
      exact (or_iff_left fun hc => heq hc.1).symm
  · intro q hq hqn hlq
    by_cases heq : q = n
    · subst heq
      exact ⟨f, hf, by rw [hx.slot q (by omega), if_pos rfl, user_entry], hx.filled, hx.apart⟩
    obtain ⟨g, hs', hsl, hz, hg⟩ := h.mapped q hq (by omega) hlq
    have hlt : callFor m₀ d lo q < m.calls := by
      rw [h.count]
      exact callFor_lt hq (by omega)
    obtain ⟨hap, hpg⟩ := hd.ready.keeps h.toExtends hx.toExtends (le_callFor hq) hlt hs' hg
    exact ⟨g, hs', (hkeep q heq (by omega)).trans hsl, hpg.trans hz, hap⟩
  · intro q hq ho
    have hne : q ≠ n := by
      rintro rfl
      rcases ho with ho | ho | ho
      · omega
      · omega
      · exact hl ho
    rw [hkeep q hne hq]
    exact h.outside q hq (ho.imp_right (Or.imp_left Nat.le_of_succ_le))

/-- A page whose table was refused: nothing is mapped, and two calls are gone. -/
lemma Grown.lose (hd : Directory L m₀ d) (h : Grown m₀ d lo n m) (hlo : lo ≤ n) (hn : n < kernPage) {m' : Mem}
    (hx : Wastes d n m m') : Lost m₀ d lo n ∧ Grown m₀ d lo (n + 1) m' := by
  have hneed : NeedsTable m₀ d lo n := (h.absent_iff hn).mp hx.missing
  have hl : Lost m₀ d lo n := by
    refine ⟨hneed, ?_⟩
    rw [← h.count, ← h.supply]
    exact hx.refused
  refine ⟨hl, h.toExtends.trans hx.toExtends, ?_, ?_, ?_, ?_⟩
  · rw [hx.count, h.count, callFor_succ hlo, if_pos hneed]
  · intro i hi
    rw [hx.entries, h.dirs i hi, mem_granted_succ hlo]
    exact or_congr_right (or_iff_left fun hc => hc.2.2 hl).symm
  · intro q hq hqn hlq
    have hne : q ≠ n := by
      rintro rfl
      exact hlq hl
    have hk : n < 0x80000 := hn
    obtain ⟨g, hs', hsl, hz, hg⟩ := h.mapped q hq (by omega) hlq
    have hlt : callFor m₀ d lo q < m.calls := by
      rw [h.count]
      exact callFor_lt hq (by omega)
    obtain ⟨hap, hpg⟩ := hd.ready.keeps h.toExtends hx.toExtends (le_callFor hq) hlt hs' hg
    exact ⟨g, hs', (hx.slots q (by omega)).trans hsl, hpg.trans hz, hap⟩
  · intro q hq ho
    rw [hx.slots q hq]
    exact h.outside q hq (ho.imp_right (Or.imp_left Nat.le_of_succ_le))

lemma Grown.step (hd : Directory L m₀ d) (h : Grown m₀ d lo n m) (hlo : lo ≤ n)
    (hn : n < kernPage) (hfree : ¬present (m₀.slot d n)) (hf : m₀.supply (callFor m₀ d lo n) = some f) :
    ∃ ok m', mappages ((kalloc m).2.zero f) d (n * PGSIZE) PGSIZE (f * PGSIZE) (PTE_W ||| PTE_U) = .ok (ok, m') ∧
      Grown m₀ d lo (n + 1) m' := by
  have hk : n < 0x80000 := hn
  have hs : m.supply m.calls = some f := by rw [h.supply, h.count, hf]
  obtain ⟨ok, m', hw, htrue, hfalse⟩ := (hd.ready.extend h.toExtends).place hs (fun _ => 0) (p := n)
    (by omega) (show PTE_W ||| PTE_U < PGSIZE by decide)
    (by rw [h.outside n (by omega) (.inr (.inl le_rfl))]; exact hfree)
  refine ⟨ok, m', hw, ?_⟩
  cases ok with
  | false => exact (h.lose hd hlo hn (hfalse rfl)).2
  | true =>
    refine h.add hd hlo hn hf ?_ (htrue rfl)
    rintro ⟨hneed, hnone⟩
    rw [← h.count, ← h.supply] at hnone
    exact (htrue rfl).granted (by omega) hs ((h.absent_iff hn).mpr hneed) hnone

end Grow

section Deliver

variable {L : Layout} {m₀ m : Mem} {d lo oldsz newsz n : Nat}

lemma inRange_iff (hle : oldsz ≤ newsz) (hlt : newsz < KERNBASE) {p : Nat} :
    InRange oldsz newsz p ↔ pages oldsz ≤ p ∧ p < pages newsz := by
  rw [InRange, pgroundup_pages (by omega)]
  unfold pages PGSIZE
  omega

/-- What is left after `allocuvm` gave up at page `n`: the pages that `deallocuvm` jumps over. -/
structure Undone (m m' : Mem) (d oldsz newsz n : Nat) : Prop where
  left : ∀ q, InRange oldsz newsz q → (present (m'.slot d q) ↔ q < n ∧ ¬Lost m d (pages oldsz) q ∧
    q % 1024 < pages oldsz % 1024 ∧ ∀ p, pages oldsz ≤ p → p / 1024 < q / 1024 → Lost m d (pages oldsz) p)
  outside : ∀ q, q < 2 ^ 20 → ¬InRange oldsz newsz q → m'.slot d q = m.slot d q

lemma Grown.present_iff (h : Grown m₀ d (pages oldsz) n m) (hle : oldsz ≤ newsz) (hlt : newsz < KERNBASE)
    (hfree : ∀ p, InRange oldsz newsz p → ¬present (m₀.slot d p)) {q : Nat} (hq : InRange oldsz newsz q) :
    present (m.slot d q) ↔ q < n ∧ ¬Lost m₀ d (pages oldsz) q := by
  have hpages : pages newsz ≤ 0x80000 := pages_le hlt.le
  have hq' := (inRange_iff hle hlt).mp hq
  constructor
  · intro hp
    by_contra hc
    rw [h.outside q (by omega) (.inr (by rwa [not_and_or, not_not, Nat.not_lt] at hc))] at hp
    exact hfree q hq hp
  · rintro ⟨hqn, hl⟩
    obtain ⟨f, -, hsl, -⟩ := h.mapped q hq'.1 hqn hl
    rw [hsl]
    exact user_entry_present f

lemma Grown.skipped_iff (h : Grown m₀ d lo n m) (hn : n < kernPage) {q : Nat} (hlo : lo ≤ q) (hq : q < n) :
    Skipped m d lo q ↔ q % 1024 < lo % 1024 ∧ ∀ p, lo ≤ p → p / 1024 < q / 1024 → Lost m₀ d lo p := by
  have hk : n < 0x80000 := hn
  refine and_congr_right fun _ => ⟨fun hno p hp hpq => ?_, fun hall t ht htq hp => ?_⟩
  · by_contra hl
    exact hno (p / 1024) (by omega) hpq ((h.dirs _ (by omega)).mpr (table_of_not_lost hp (by omega) hl))
  · rcases (h.dirs t (by omega)).mp hp with hp | hg
    · -- The table was there before; its first page in the range needs none.
      refine (hall (max lo (t * 1024)) (by omega) (by omega)).1.1 ?_
      rwa [show max lo (t * 1024) / 1024 = t by omega]
    · obtain ⟨p, h₁, -, rfl, hl⟩ := exists_of_mem_granted (by omega) hg
      exact hl (hall p h₁ htq)

lemma Grown.rollback (hd : Directory L m₀ d) (h : Grown m₀ d (pages oldsz) n m)
    (hle : oldsz ≤ newsz) (hlt : newsz < KERNBASE) (hn : n < pages newsz)
    (hfree : ∀ p, InRange oldsz newsz p → ¬present (m₀.slot d p)) (hlo : pages oldsz ≤ n) :
    Yields (deallocuvm L (kalloc m).2 d newsz oldsz) (fun r => Undone m₀ r.2 d oldsz newsz n) (fun _ => False) := by
  have hpages : pages newsz ≤ 0x80000 := pages_le hlt.le
  have hgt : oldsz < newsz := by
    by_contra hc
    have heq : oldsz = newsz := by omega
    subst heq
    omega
  have hrange : ∀ q, pages oldsz ≤ q → q * PGSIZE < newsz → InRange oldsz newsz q := by
    intro q hq hqn
    rw [inRange_iff hle hlt]
    refine ⟨hq, ?_⟩
    unfold pages PGSIZE at *
    omega
  obtain ⟨m', hrun, hc⟩ := deallocuvm_clears (L := L) (m := (kalloc m).2) (d := d) (h.tables.congr fun _ => rfl) hlt.le
    hgt (by
      intro q hq hqn hp
      obtain ⟨hqn', hl⟩ := (h.present_iff hle hlt hfree (hrange q hq hqn)).mp hp
      obtain ⟨f, hs, hsl, -, hap⟩ := h.mapped q hq hqn' hl
      have hsl' : (kalloc m).2.slot d q = f * PGSIZE + 7 := hsl
      rw [hsl', frameOf_flags f (by decide)]
      exact ⟨hd.usable _ f (le_callFor hq) hs, hap.congr fun _ => rfl⟩)
  rw [hrun]
  refine .ok ⟨fun q hq => ?_, fun q hq hno => ?_⟩
  · have hq' := (inRange_iff hle hlt).mp hq
    have hpr := h.present_iff hle hlt hfree hq
    have hskip : q < n → (Skipped (kalloc m).2 d (pages oldsz) q ↔ _) := h.skipped_iff (show n < 0x80000 by omega) hq'.1
    by_cases hS : Reached (kalloc m).2 d newsz (pages oldsz) q
    · rw [hc.gone q (by omega) hS]
      refine iff_of_false not_present_zero ?_
      rintro ⟨hqn, -, hs⟩
      exact hS.seen ((hskip hqn).mpr hs)
    · rw [hc.kept q (by omega) hS]
      refine hpr.trans ⟨?_, fun hx => ⟨hx.1, hx.2.1⟩⟩
      rintro ⟨hqn, hl⟩
      refine ⟨hqn, hl, (hskip hqn).mp ?_⟩
      by_contra hs
      exact hS ⟨hq'.1, hq.2, hpr.mpr ⟨hqn, hl⟩, hs⟩
  · rw [hc.kept q hq fun hS => hno (hrange q hS.start hS.below)]
    rw [inRange_iff hle hlt] at hno
    exact h.outside q hq (by omega)

lemma Grown.delivered (hd : Directory L m₀ d)
    (h : Grown m₀ d (pages oldsz) (pages newsz) m)
    (hle : oldsz ≤ newsz) (hlt : newsz < KERNBASE)
    (hall : ∀ p, pages oldsz ≤ p → p < pages newsz → ¬Lost m₀ d (pages oldsz) p) :
    Delivered m₀ m d oldsz newsz newsz := by
  refine ⟨.inl rfl, ?_, ?_, ?_⟩
  · intro _ p hp
    rw [inRange_iff hle hlt] at hp
    obtain ⟨f, hs, hsl, hz, -⟩ := h.mapped p hp.1 hp.2 (hall p hp.1 hp.2)
    refine ⟨_, f, le_callFor hp.1, hs, hsl.trans (table_entry f).symm, hz, ?_⟩
    intro q hq hpq hfq
    have hq' : q < 0x80000 := hq
    by_cases hin : pages oldsz ≤ q ∧ q < pages newsz
    · obtain ⟨g, hs', hsl', -, -⟩ := h.mapped q hin.1 hin.2 (hall q hin.1 hin.2)
      rw [hsl', frameOf_flags g (by decide)] at hfq
      subst hfq
      exact callFor_inj hin.1 hp.1 (hd.distinct _ _ g (le_callFor hin.1) (le_callFor hp.1) hs' hs)
    · rw [h.outside q (by omega) (by omega)] at hpq hfq
      exact absurd hfq (hd.unmapped _ f (le_callFor hp.1) hs q hq hpq)
  · rintro rfl p hp
    exact absurd hp.2 (Nat.not_lt_zero _)
  · intro q hq hno
    rw [inRange_iff hle hlt] at hno
    exact h.outside q hq (by omega)

/-- How `allocuvm` can end: it went through all pages, or it gave up at page `n`. -/
inductive Ended (m : Mem) (d oldsz newsz : Nat) : Nat × Mem → Prop
  | all {m' : Mem} (served : Served m d (pages oldsz) (pages newsz))
      (grown : Grown m d (pages oldsz) (pages newsz) m') : Ended m d oldsz newsz (newsz, m')
  | gaveUp {m' : Mem} {n : Nat} (lower : pages oldsz ≤ n) (upper : n < pages newsz)
      (served : Served m d (pages oldsz) n) (refused : m.supply (callFor m d (pages oldsz) n) = none)
      (undone : Undone m m' d oldsz newsz n) : Ended m d oldsz newsz (0, m')

lemma allocLoop_ends (hd : Directory L m₀ d) (hle : oldsz ≤ newsz) (hlt : newsz < KERNBASE)
    (hfree : ∀ p, InRange oldsz newsz p → ¬present (m₀.slot d p))
    (k : Nat) (hlo : pages oldsz ≤ n) (hk : n + k = pages newsz) (hserved : Served m₀ d (pages oldsz) n)
    (h : Grown m₀ d (pages oldsz) n m) :
    Yields (allocLoop L d oldsz newsz k (n * PGSIZE) m) (Ended m₀ d oldsz newsz) (fun _ => False) := by
  have hpages : pages newsz ≤ 0x80000 := pages_le hlt.le
  induction k generalizing n m with
  | zero =>
    have heq : n = pages newsz := hk
    subst heq
    exact .ok (.all hserved h)
  | succ k ih =>
    have hin : InRange oldsz newsz n := (inRange_iff hle hlt).mpr ⟨hlo, by omega⟩
    have hs : (kalloc m).1 = m₀.supply (callFor m₀ d (pages oldsz) n) := by
      show m.supply m.calls = _
      rw [h.supply, h.count]
    unfold allocLoop
    rw [show kalloc m = ((kalloc m).1, (kalloc m).2) from rfl, hs]
    cases hf : m₀.supply (callFor m₀ d (pages oldsz) n) with
    | none =>
      apply (h.rollback hd hle hlt (by omega) hfree hlo).bind
      rintro ⟨sz, m'⟩ hundone
      exact .ok (.gaveUp hlo (by omega) hserved hf hundone)
    | some f =>
      have hserved' : Served m₀ d (pages oldsz) (n + 1) := by
        intro q hq hqn
        rcases Nat.lt_succ_iff_lt_or_eq.mp hqn with hlt' | rfl
        · exact hserved q hq hlt'
        · rw [hf]
          exact Option.some_ne_none f
      obtain ⟨ok, m', hmap, hgrown⟩ := h.step hd hlo (show n < 0x80000 by omega) (hfree n hin) hf
      simp only
      rw [hmap, show n * PGSIZE + PGSIZE = (n + 1) * PGSIZE by ring]
      exact ih (by omega) (by omega) hserved' hgrown

/-- All pages of the range are mapped, or none, as `allocuvm` has returned. -/
structure Whole (m' : Mem) (d oldsz newsz r : Nat) : Prop where
  mapped : r = newsz → ∀ p, InRange oldsz newsz p → present (m'.slot d p)
  none_mapped : r = 0 → ∀ p, InRange oldsz newsz p → ¬present (m'.slot d p)

lemma Delivered.whole {r : Nat} (h : Delivered m₀ m d oldsz newsz r) : Whole m d oldsz newsz r := by
  refine ⟨fun hr p hp => ?_, h.none_mapped⟩
  obtain ⟨k, f, -, -, hslot, -⟩ := h.mapped hr p hp
  rw [hslot, table_entry]
  exact user_entry_present f

lemma Ended.delivered {r : Nat} (h : Ended m₀ d oldsz newsz (r, m)) (hd : Directory L m₀ d) (hle : oldsz ≤ newsz)
    (hlt : newsz < KERNBASE) (ht : TablesGranted m₀ d oldsz newsz) : Delivered m₀ m d oldsz newsz r := by
  cases h with
  | all hserved hgrown => exact hgrown.delivered hd hle hlt (ht.all hserved)
  | @gaveUp _ n hlo hn hserved hnone hundone =>
    refine ⟨.inr rfl, ?_, ?_, hundone.outside⟩
    · intro hzero p hp
      rw [← hzero] at hp
      exact absurd hp.2 (Nat.not_lt_zero _)
    · intro _ q hq hp
      obtain ⟨hqn, hl, hplace, hlost⟩ := (hundone.left q hq).mp hp
      obtain ⟨p, h₁, h₂, h₃⟩ := ht.found n hlo hn hserved hnone q ((inRange_iff hle hlt).mp hq).1 hqn hl hplace
      exact h₃ (hlost p h₁ h₂)

lemma Ended.granted {r : Nat} (h : Ended m₀ d oldsz newsz (r, m)) (hle : oldsz ≤ newsz) (hlt : newsz < KERNBASE)
    (hfree : ∀ p, InRange oldsz newsz p → ¬present (m₀.slot d p)) (hw : Whole m d oldsz newsz r) :
    TablesGranted m₀ d oldsz newsz := by
  cases h with
  | all hserved hgrown =>
    refine ⟨fun _ p hp hp' => ?_, fun n hlo hn _ hnone => absurd hnone (hserved n hlo hn)⟩
    have hin := (inRange_iff hle hlt).mpr ⟨hp, hp'⟩
    exact ((hgrown.present_iff hle hlt hfree hin).mp (hw.mapped rfl p hin)).2
  | @gaveUp _ n hlo hn hserved hnone hundone =>
    refine ⟨fun hall => absurd hnone (hall n hlo hn), fun n' hlo' hn' hserved' hnone' q hq hqn hl hplace => ?_⟩
    obtain rfl : n' = n := by
      rcases Nat.lt_trichotomy n' n with hlt' | heq | hgt
      · exact absurd hnone' (hserved n' hlo' hlt')
      · exact heq
      · exact absurd hnone (hserved' n hlo hgt)
    have hin := (inRange_iff hle hlt).mpr ⟨hq, by omega⟩
    by_contra hno
    refine hw.none_mapped rfl q hin ((hundone.left q hin).mpr ⟨hqn, hl, hplace, fun p hp hpq => ?_⟩)
    by_contra hlp
    exact hno ⟨p, hp, hpq, hlp⟩

lemma allocuvm_ends (hd : Directory L m d) (hle : oldsz ≤ newsz) (hlt : newsz < KERNBASE)
    (hfree : ∀ p, InRange oldsz newsz p → ¬present (m.slot d p)) :
    ∃ r m', allocuvm L m d oldsz newsz = .ok (r, m') ∧ Ended m d oldsz newsz (r, m') := by
  have hcount : (newsz - pages oldsz * PGSIZE + (PGSIZE - 1)) / PGSIZE = pages newsz - pages oldsz := by
    unfold pages PGSIZE
    omega
  have hmono : pages oldsz ≤ pages newsz := by
    unfold pages PGSIZE
    omega
  have hloop := allocLoop_ends hd hle hlt hfree (pages newsz - pages oldsz) le_rfl (by omega)
    (fun q hq hqn => by omega) hd.grown
  obtain ⟨⟨r, m'⟩, hrun, hend⟩ := hloop.returns
  refine ⟨r, m', ?_, hend⟩
  unfold allocuvm
  rw [if_neg (by omega), if_neg (by omega), pgroundup_pages (by omega), hcount]
  exact hrun

/-- `allocuvm` delivers what it reports exactly if no page table is refused, or a page after it is and
`deallocuvm` then finds all that was mapped. -/
theorem allocuvm_delivers (hd : Directory L m d) (hle : oldsz ≤ newsz) (hlt : newsz < KERNBASE)
    (hfree : ∀ p, InRange oldsz newsz p → ¬present (m.slot d p)) :
    ∃ r m', allocuvm L m d oldsz newsz = .ok (r, m') ∧
      (Delivered m m' d oldsz newsz r ↔ TablesGranted m d oldsz newsz) := by
  obtain ⟨r, m', hrun, hend⟩ := allocuvm_ends hd hle hlt hfree
  exact ⟨r, m', hrun, fun h => hend.granted hle hlt hfree h.whole, hend.delivered hd hle hlt⟩

def exampleLayout : Layout where
  data := 0x80108000
  kend := 0x112000
  data_aligned := by decide
  data_lower := by decide
  data_upper := by decide
  kend_pos := by decide

/-- An empty directory in frame 300 and `free` free pages. -/
def emptySpace (free : Nat) : Mem where
  page := fun _ _ => 0
  supply := fun k => if k < free then some (301 + k) else none
  calls := 0
  freed := []

lemma emptySpace_entry (free f i : Nat) : (emptySpace free).entry f i = 0 := by
  have h := entry_zero_same (m := emptySpace free) (f := f) (i := i)
  simpa [Mem.entry, Mem.zero, Mem.setPage, emptySpace] using h

lemma emptySpace_slot (free d q : Nat) : (emptySpace free).slot d q = 0 := by
  simp [Mem.slot, emptySpace_entry]

lemma emptySpace_supply {free k f : Nat} (h : (emptySpace free).supply k = some f) : k < free ∧ f = 301 + k := by
  simp only [emptySpace] at h
  split at h
  · exact ⟨by assumption, (Option.some.inj h).symm⟩
  · cases h

lemma emptySpace_directory {free : Nat} (hfree : free ≤ 10000) :
    Directory exampleLayout (emptySpace free) 300 := by
  have hentry : ∀ i, ¬present ((emptySpace free).entry 300 i) := by
    intro i
    rw [emptySpace_entry]
    exact not_present_zero
  refine ⟨⟨fun i _ hp => absurd hp (hentry i), fun i _ _ _ hp => absurd hp (hentry i)⟩, ?_, ?_, ?_, ?_⟩
  · intro k f _ hf
    obtain ⟨hk, rfl⟩ := emptySpace_supply hf
    simp only [Usable, exampleLayout, PGSIZE, PHYSTOP]
    omega
  · intro j k f _ _ hj hk
    have h₁ := (emptySpace_supply hj).2
    have h₂ := (emptySpace_supply hk).2
    omega
  · intro k f _ hf
    have h := (emptySpace_supply hf).2
    exact ⟨by omega, fun i _ hp => absurd hp (hentry i)⟩
  · intro k f _ _ q _ hp
    rw [emptySpace_slot] at hp
    exact absurd hp not_present_zero

/-- With two free pages `allocuvm` finds one for the data and one for the table; with one, and two pages
to map, it finds no table for the first and gives up at the second. -/
theorem allocuvm_delivers_page :
    (∃ r m', allocuvm exampleLayout (emptySpace 2) 300 0 4096 = .ok (r, m') ∧
      Delivered (emptySpace 2) m' 300 0 4096 r) ∧
    ∃ r m', allocuvm exampleLayout (emptySpace 1) 300 0 8192 = .ok (r, m') ∧
      Delivered (emptySpace 1) m' 300 0 8192 r := by
  have hfree : ∀ free p, ¬present ((emptySpace free).slot 300 p) := by
    intro free p
    rw [emptySpace_slot]
    exact not_present_zero
  obtain ⟨r, m', hrun, hiff⟩ := allocuvm_delivers (emptySpace_directory (show 2 ≤ 10000 by decide))
    (show 0 ≤ 4096 by decide) (by decide) (fun p _ => hfree 2 p)
  obtain ⟨r₁, m₁, hrun₁, hiff₁⟩ := allocuvm_delivers (emptySpace_directory (show 1 ≤ 10000 by decide))
    (show 0 ≤ 8192 by decide) (by decide) (fun p _ => hfree 1 p)
  refine ⟨⟨r, m', hrun, hiff.mpr ⟨fun _ p _ hp => ?_, fun n _ _ _ _ q _ _ _ hq => absurd hq (Nat.not_lt_zero _)⟩⟩,
    r₁, m₁, hrun₁, hiff₁.mpr ⟨fun hserved => ?_, fun n _ _ _ _ q _ _ _ hq => absurd hq (Nat.not_lt_zero _)⟩⟩
  · obtain rfl : p = 0 := by
      simp only [pages, PGSIZE] at hp
      omega
    decide
  · exact absurd (show (emptySpace 1).supply (callFor (emptySpace 1) 300 (pages 0) 1) = none by decide)
      (hserved 1 (by decide) (by decide))

/-- One free page: it goes to the data, and the page table finds none. -/
theorem allocuvm_leaves_hole : Directory exampleLayout (emptySpace 1) 300 ∧
    (∀ p, InRange 0 4096 p → ¬present ((emptySpace 1).slot 300 p)) ∧
    ∃ m', allocuvm exampleLayout (emptySpace 1) 300 0 4096 = .ok (4096, m') ∧
      InRange 0 4096 0 ∧ ¬present (m'.slot 300 0) := by
  refine ⟨emptySpace_directory (by decide), ?_, _, rfl, by decide, ?_⟩
  · intro p _
    rw [emptySpace_slot]
    exact not_present_zero
  · decide +kernel

end Deliver

end Xv6.Vm
