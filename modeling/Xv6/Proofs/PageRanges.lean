import Xv6.Proofs.Growth

/-!
# Ranges of pages

A missing page table makes `deallocuvm` go on 1024 pages later, also when it started in the middle of
a table.
-/

namespace Xv6.Vm

/-- What `walkpgdir` without `alloc` finds mapped at `va`. -/
def lookup (m : Mem) (d va : Nat) : Option Nat :=
  match walkpgdir m d va false with
  | (none, _) => none
  | (some (t, i), m) => if present (m.entry t i) then some (m.entry t i) else none

/-- The loop of `mappages` with its own exit test; `none` if it has not ended after `fuel` pages. -/
def mapUntil (pgdir perm last : Nat) : Nat → Nat → Nat → Mem → Option (Except Halt (Bool × Mem))
  | 0, _, _, _ => none
  | fuel + 1, a, pa, m =>
    match walkpgdir m pgdir a true with
    | (none, m) => some (.ok (false, m))
    | (some (t, i), m) =>
      if present (m.entry t i) then some (.error ⟨.remap, m⟩)
      else if a = last then some (.ok (true, m.setEntry t i (pa ||| perm ||| PTE_P)))
      else mapUntil pgdir perm last fuel ((a + PGSIZE) % 2 ^ 32) ((pa + PGSIZE) % 2 ^ 32)
        (m.setEntry t i (pa ||| perm ||| PTE_P))

/-- The loop of `deallocuvm` with a 32-bit address; `none` if it has not ended by then. -/
def deallocUntil (L : Layout) (pgdir oldsz : Nat) : Nat → Nat → Mem → Option (Except Halt Mem)
  | 0, _, _ => none
  | fuel + 1, a, m =>
    if a < oldsz then
      match walkpgdir m pgdir a false with
      | (none, m) =>
        deallocUntil L pgdir oldsz fuel (((a + (NPTENTRIES - 1) * PGSIZE) % 2 ^ 32 + PGSIZE) % 2 ^ 32) m
      | (some (t, i), m) =>
        if present (m.entry t i) then
          if frameOf (m.entry t i) = 0 then some (.error ⟨.kfree, m⟩)
          else match kfree L m (frameOf (m.entry t i)) with
            | .error e => some (.error e)
            | .ok m => deallocUntil L pgdir oldsz fuel ((a + PGSIZE) % 2 ^ 32) (m.setEntry t i 0)
        else deallocUntil L pgdir oldsz fuel ((a + PGSIZE) % 2 ^ 32) m
    else some (.ok m)

section Map

variable {L : Layout} {m m' : Mem} {d : Nat}

lemma lookup_page {q : Nat} (hq : q < 2 ^ 20) :
    lookup m d (q * PGSIZE) = if present (m.slot d q) then some (m.slot d q) else none := by
  unfold lookup
  by_cases ht : present (m.entry d (q / 1024))
  · rw [walk_page false hq ht]
    simp only [slot_entry ht]
  · rw [walk_missing hq ht, if_neg fun hp => ht (table_of_slot hp)]

lemma lookup_congr {q : Nat} (hq : q < 2 ^ 20) (h : m'.slot d q = m.slot d q) :
    lookup m' d (q * PGSIZE) = lookup m d (q * PGSIZE) := by
  rw [lookup_page hq, lookup_page hq, h]

lemma mapUntil_eq (d perm fuel : Nat) {lo n : Nat} (hn : lo + n < 2 ^ 20) (hfuel : n < fuel) (pa : Nat) (m : Mem) :
    mapUntil d perm ((lo + n) * PGSIZE) fuel (lo * PGSIZE) pa m = some (mapLoop d perm (n + 1) (lo * PGSIZE) pa m) := by
  induction n generalizing lo fuel pa m with
  | zero =>
    obtain ⟨fuel, rfl⟩ := Nat.exists_eq_succ_of_ne_zero hfuel.ne'
    simp only [mapUntil, mapLoop, Nat.add_zero, if_true]
    rcases walkpgdir m d (lo * PGSIZE) true with ⟨_ | ⟨t, i⟩, m'⟩
    · rfl
    · simp only
      split <;> rfl
  | succ n ih =>
    obtain ⟨fuel, rfl⟩ := Nat.exists_eq_succ_of_ne_zero (Nat.ne_of_gt (Nat.zero_lt_of_lt hfuel))
    have hnext : (lo * PGSIZE + PGSIZE) % 2 ^ 32 = (lo + 1) * PGSIZE := by
      unfold PGSIZE
      omega
    have hne : lo * PGSIZE ≠ (lo + (n + 1)) * PGSIZE := by
      unfold PGSIZE
      omega
    rw [mapUntil, mapLoop, hnext]
    rcases walkpgdir m d (lo * PGSIZE) true with ⟨_ | ⟨t, i⟩, m'⟩
    · rfl
    dsimp only
    by_cases hp : present (m'.entry t i)
    · rw [if_pos hp, if_pos hp]
    · rw [if_neg hp, if_neg hp, if_neg hne, show lo + (n + 1) = lo + 1 + n by omega]
      exact ih fuel (by omega) (by omega) _ _

lemma mappages_range (m : Mem) (d : Nat) {va size : Nat} (hsize : 1 ≤ size) (hend : va + size ≤ 2 ^ 32)
    (pa perm : Nat) :
    ∃ n, va / PGSIZE + n < 2 ^ 20 ∧ pgrounddown (va + size - 1) = (va / PGSIZE + n) * PGSIZE ∧
      (∀ q, va / PGSIZE ≤ q ∧ q < va / PGSIZE + (n + 1) ↔ va / PGSIZE ≤ q ∧ q * PGSIZE < va + size) ∧
      mappages m d va size pa perm = mapLoop d perm (n + 1) (va / PGSIZE * PGSIZE) pa m := by
  have hlast : pgrounddown ((va + size + 2 ^ 32 - 1) % 2 ^ 32) = pgrounddown (va + size - 1) := by
    rw [show va + size + 2 ^ 32 - 1 = va + size - 1 + 2 ^ 32 by omega, Nat.add_mod_right, Nat.mod_eq_of_lt (by omega)]
  refine ⟨(va + size - 1) / PGSIZE - va / PGSIZE, ?_, ?_, ?_, ?_⟩
  · unfold PGSIZE
    omega
  · unfold pgrounddown PGSIZE
    omega
  · intro q
    unfold PGSIZE
    omega
  · unfold mappages
    simp only [hlast]
    congr 2
    unfold pgrounddown PGSIZE
    omega

/-- `mappages` maps the pages of its range one after the other and touches no other page; it fails only
if it is refused a page table. `setupkvm` maps exactly the four kernel regions if `kalloc` grants what it asks for,
at most a directory and 1024 tables. -/
theorem mappages_exact (L : Layout) :
    (∀ (m : Mem) (d va size pa perm : Nat), Ready L m d → pa % PGSIZE = 0 → pa < 2 ^ 32 → perm < 2 ^ 32 → 1 ≤ size →
      va + size ≤ 2 ^ 32 →
      (∀ q, va / PGSIZE ≤ q → q * PGSIZE < va + size → lookup m d (q * PGSIZE) = none) →
      ∃ ok m', mappages m d va size pa perm = .ok (ok, m') ∧
        mapUntil d perm (pgrounddown (va + size - 1)) (2 ^ 20) (pgrounddown va) pa m = some (.ok (ok, m')) ∧
        (ok = true → ∀ q, va / PGSIZE ≤ q → q * PGSIZE < va + size →
          lookup m' d (q * PGSIZE) = some ((pa + (q - va / PGSIZE) * PGSIZE) % 2 ^ 32 ||| perm ||| PTE_P)) ∧
        (ok = false → ∃ k, m.calls ≤ k ∧ k < m.calls + m.absent d ∧ m.supply k = none) ∧
        ∀ q, q < 2 ^ 20 → ¬(va / PGSIZE ≤ q ∧ q * PGSIZE < va + size) →
          lookup m' d (q * PGSIZE) = lookup m d (q * PGSIZE)) ∧
    ∀ m : Mem, Supplied L m → ∃ r m', setupkvm L m = .ok (r, m') ∧
      (r = none → ∃ k, m.calls ≤ k ∧ k < m.calls + 1025 ∧ m.supply k = none) ∧ ∀ d, r = some d →
      (∀ k ∈ kmap L, ∀ q, k.Holds q → lookup m' d (q * PGSIZE) = some (k.entry q)) ∧
      (∀ q, q < 2 ^ 20 → ¬Covers (kmap L) q → lookup m' d (q * PGSIZE) = none) ∧
      ∀ q, DEVSPACE / PGSIZE ≤ q → q < 2 ^ 20 → lookup m' d (q * PGSIZE) = some (q * PGSIZE ||| PTE_W ||| PTE_P) := by
  constructor
  · intro m d va size pa perm h _ hpa hperm hsize hend hfree
    obtain ⟨n, hn, hlast, hrange, heq⟩ := mappages_range m d hsize hend pa perm
    obtain ⟨ok, m', hrun, hout, htrue, hfalse⟩ := h.mapPages (fun _ => rfl)
      (show va / PGSIZE + (n + 1) ≤ 2 ^ 20 by omega)
      hpa hperm (by
        intro q hq hq' hp
        have hno := hfree q hq ((hrange q).mp ⟨hq, hq'⟩).2
        rw [lookup_page (by omega), if_pos hp] at hno
        cases hno)
    refine ⟨ok, m', heq.trans hrun, ?_, ?_, hfalse, ?_⟩
    · rw [hlast, show pgrounddown va = va / PGSIZE * PGSIZE from rfl, mapUntil_eq d perm (2 ^ 20) hn
        (lt_of_le_of_lt (Nat.le_add_left _ _) hn), hrun]
    · intro hok q hq hq'
      obtain ⟨-, hlt⟩ := (hrange q).mpr ⟨hq, hq'⟩
      rw [lookup_page (by omega), (htrue hok).2 q hq hlt, if_pos (entryAt_present ..)]
      rfl
    · intro q hq hno
      exact lookup_congr hq (hout q hq fun hc => hno ((hrange q).mp hc))
  · intro m h
    obtain ⟨r, m', hrun, hsome, hnone⟩ := setupkvm_maps h
    refine ⟨r, m', hrun, hnone, fun d hd => ?_⟩
    obtain ⟨-, -, hin, hout, -⟩ := hsome d hd
    have hmap : ∀ k ∈ kmap L, ∀ q, k.Holds q → lookup m' d (q * PGSIZE) = some (k.entry q) := by
      intro k hk q hq
      rw [lookup_page ((kmap_ordered L).covers ⟨k, hk, hq⟩).2, hin k hk q hq,
        if_pos (show present (k.entry q) from entryAt_present ..)]
    refine ⟨hmap, ?_, ?_⟩
    · intro q hq hno
      rw [lookup_page hq, hout q hq hno, if_neg not_present_zero]
    intro q hq hq'
    rw [hmap _ (.tail _ (.tail _ (.tail _ (.head _)))) q ⟨hq, by simp only [DEVSPACE, PGSIZE] at *; omega⟩]
    have hpa : (DEVSPACE + (q - DEVSPACE / PGSIZE) * PGSIZE) % 2 ^ 32 = q * PGSIZE := by
      unfold DEVSPACE PGSIZE at *
      omega
    exact congrArg (fun x => some (x ||| PTE_W ||| PTE_P)) hpa

theorem mappages_exact_page :
    (∃ m', mappages (emptySpace 2000) 300 0 PGSIZE (302 * PGSIZE) PTE_W = .ok (true, m') ∧
      lookup m' 300 0 = some (302 * PGSIZE ||| PTE_W ||| PTE_P)) ∧
    ∃ d m', setupkvm exampleLayout (emptySpace 2000) = .ok (some d, m') ∧
      lookup m' d KERNBASE = some (PTE_W ||| PTE_P) ∧
      lookup m' d DEVSPACE = some (DEVSPACE ||| PTE_W ||| PTE_P) ∧ lookup m' d 0 = none := by
  have hd := emptySpace_directory (show 2000 ≤ 10000 by decide)
  have hgrant : ∀ k, k < 2000 → (emptySpace 2000).supply k ≠ none := by
    intro k hk
    simp only [emptySpace, if_pos hk, ne_eq, reduceCtorEq, not_false_iff]
  obtain ⟨hmap, hset⟩ := mappages_exact exampleLayout
  obtain ⟨ok, m', hrun, -, hin, hfail, -⟩ := hmap (emptySpace 2000) 300 0 PGSIZE (302 * PGSIZE) PTE_W hd.ready
    (by decide) (by decide) (by decide) (by decide) (by decide) (by
      intro q _ hq
      have hq0 : q = 0 := by
        simp only [PGSIZE] at hq
        omega
      rw [hq0, lookup_page (by decide), emptySpace_slot, if_neg not_present_zero])
  have hcalls : (emptySpace 2000).calls = 0 := rfl
  have hok : ok = true := by
    by_contra hno
    obtain ⟨k, -, hk, hnone⟩ := hfail (eq_false_of_ne_true hno)
    have habs : (emptySpace 2000).absent 300 ≤ 1024 := (Finset.card_filter_le _ _).trans_eq (Finset.card_range 1024)
    exact hgrant k (by omega) hnone
  obtain ⟨r, m₂, hrun₂, hnone, hsome⟩ := hset (emptySpace 2000) ⟨hd.usable, hd.distinct⟩
  cases r with
  | none =>
    obtain ⟨k, -, hk, hs⟩ := hnone rfl
    exact absurd hs (hgrant k (by omega))
  | some d =>
    obtain ⟨hmapped, hout, hdev⟩ := hsome d rfl
    subst hok
    refine ⟨⟨m', hrun, hin rfl 0 le_rfl (by decide)⟩, d, m₂, hrun₂, ?_, ?_, ?_⟩
    · exact hmapped _ (.head _) 0x80000 ⟨by decide, by decide⟩
    · exact hdev 0xFE000 (by decide) (by decide)
    · refine hout 0 (by decide) fun hc => ?_
      exact absurd ((kmap_ordered exampleLayout).covers hc).1 (by decide)

end Map

/-- The user pages of a directory are different frames, apart from the directory itself. -/
structure UserPages (L : Layout) (m : Mem) (d : Nat) : Prop where
  tables : Tables m d
  usable : ∀ q, q < kernPage → present (m.slot d q) → Usable L (frameOf (m.slot d q))
  apart : ∀ q, q < kernPage → present (m.slot d q) → Apart m d (frameOf (m.slot d q))
  inj : ∀ p q, p < kernPage → q < kernPage → present (m.slot d p) → present (m.slot d q) →
    frameOf (m.slot d p) = frameOf (m.slot d q) → p = q

section Unmap

variable {L : Layout} {m m' : Mem} {d oldsz newsz p q : Nat} {S : Nat → Prop}

lemma deallocUntil_eq (hold : oldsz ≤ KERNBASE) {fuel : Nat} (hfuel : oldsz < (p + fuel) * PGSIZE) (m : Mem) :
    deallocUntil L d oldsz (fuel + 1) (p * PGSIZE) m = some (deallocLoop L d oldsz fuel (p * PGSIZE) m) := by
  have hk : oldsz ≤ 0x80000000 := hold
  induction fuel generalizing p m with
  | zero =>
    rw [Nat.add_zero] at hfuel
    rw [deallocUntil, deallocLoop, if_neg (Nat.not_lt.mpr hfuel.le)]
  | succ fuel ih =>
    by_cases hlt : p * PGSIZE < oldsz
    · have hnext : (p * PGSIZE + PGSIZE) % 2 ^ 32 = (p + 1) * PGSIZE := by
        unfold PGSIZE at *
        omega
      have hjump : ((p * PGSIZE + (NPTENTRIES - 1) * PGSIZE) % 2 ^ 32 + PGSIZE) % 2 ^ 32 = (p + 1024) * PGSIZE := by
        unfold NPTENTRIES PGSIZE at *
        omega
      have hfar : oldsz < (p + 1024 + fuel) * PGSIZE := hfuel.trans_le (Nat.mul_le_mul_right PGSIZE (by omega))
      have hnear : oldsz < (p + 1 + fuel) * PGSIZE := hfuel.trans_le (Nat.mul_le_mul_right PGSIZE (by omega))
      rw [deallocUntil, deallocLoop, if_pos hlt, if_pos hlt, hnext, hjump,
        show p * PGSIZE + PGSIZE = (p + 1) * PGSIZE by ring,
        show p * PGSIZE + (NPTENTRIES - 1) * PGSIZE + PGSIZE = (p + 1024) * PGSIZE by unfold NPTENTRIES PGSIZE; omega]
      rcases walkpgdir m d (p * PGSIZE) false with ⟨_ | ⟨t, i⟩, m'⟩
      · exact ih hfar m'
      dsimp only
      by_cases hp : present (m'.entry t i)
      · rw [if_pos hp, if_pos hp]
        by_cases hz : frameOf (m'.entry t i) = 0
        · rw [if_pos hz, if_pos hz]
        rw [if_neg hz, if_neg hz]
        cases kfree L m' (frameOf (m'.entry t i)) with
        | error e => rfl
        | ok m'' => exact ih hnear _
      · rw [if_neg hp, if_neg hp]
        exact ih hnear m'
    · rw [deallocUntil, deallocLoop, if_neg hlt, if_neg hlt]

lemma Cleared.count (h : Cleared d S m m')
    (hinj : ∀ p q, S p → S q → frameOf (m.slot d p) = frameOf (m.slot d q) → p = q) (f : Nat) :
    ((∃ q, S q ∧ frameOf (m.slot d q) = f) → m'.freed.count f = m.freed.count f + 1) ∧
    ((∀ q, S q → frameOf (m.slot d q) ≠ f) → m'.freed.count f = m.freed.count f) := by
  obtain ⟨l, hnodup, hmem, hfreed⟩ := h.freed
  have hmap : (l.map (fun q => frameOf (m.slot d q))).Nodup :=
    hnodup.map_on fun p hp q hq heq => hinj p q ((hmem p).mp hp) ((hmem q).mp hq) heq
  rw [hfreed, List.count_append]
  constructor
  · rintro ⟨q, hq, rfl⟩
    rw [List.count_eq_one_of_mem hmap (List.mem_map.mpr ⟨q, (hmem q).mpr hq, rfl⟩), Nat.add_comm]
  intro hno
  rw [List.count_eq_zero_of_not_mem, Nat.zero_add]
  intro hc
  obtain ⟨q, hq, heq⟩ := List.mem_map.mp hc
  exact hno q ((hmem q).mp hq) heq

lemma inRange_page (hold : oldsz ≤ KERNBASE) (hnew : newsz < oldsz) :
    InRange newsz oldsz q ↔ pages newsz ≤ q ∧ q * PGSIZE < oldsz := by
  rw [InRange, pgroundup_pages (by omega), Nat.mul_le_mul_right_iff (by decide)]

lemma page_lt (hold : oldsz ≤ KERNBASE) (hq : q * PGSIZE < oldsz) : q < kernPage ∧ q < 2 ^ 20 := by
  unfold KERNBASE at hold
  unfold PGSIZE at hq
  unfold kernPage
  omega

/-- The pages of the range are gone, each of their frames was freed once, and nothing else has
happened. `ends` is the loop with its own exit test and the wrap of `uint`. -/
structure Freed (L : Layout) (m m' : Mem) (d oldsz newsz : Nat) : Prop where
  ends : deallocUntil L d oldsz (oldsz / PGSIZE + 2) (pgroundup newsz) m = some (.ok m')
  gone : ∀ q, InRange newsz oldsz q → ¬present (m'.slot d q)
  once : ∀ q, InRange newsz oldsz q → present (m.slot d q) →
    m'.freed.count (frameOf (m.slot d q)) = m.freed.count (frameOf (m.slot d q)) + 1
  others : ∀ f, (∀ q, InRange newsz oldsz q → present (m.slot d q) → frameOf (m.slot d q) ≠ f) →
    m'.freed.count f = m.freed.count f
  outside : ∀ q, q < 2 ^ 20 → ¬InRange newsz oldsz q → m'.slot d q = m.slot d q

/-- `deallocuvm` frees the pages of its range exactly if it does not jump over a mapped one. -/
theorem deallocuvm_frees (h : UserPages L m d) (hnew : newsz < oldsz) (hold : oldsz ≤ KERNBASE) :
    ∃ m', deallocuvm L m d oldsz newsz = .ok (newsz, m') ∧ (Freed L m m' d oldsz newsz ↔
      ∀ q, InRange newsz oldsz q → present (m.slot d q) → ¬Skipped m d (pages newsz) q) := by
  have hfuel : oldsz < (pages newsz + (oldsz / PGSIZE + 1)) * PGSIZE := by
    unfold pages PGSIZE
    omega
  obtain ⟨m', hrun, hc⟩ := deallocLoop_clears (L := L) h.tables hold hfuel (fun q _ hq hp =>
    ⟨h.usable q (page_lt hold hq).1 hp, h.apart q (page_lt hold hq).1 hp⟩)
  refine ⟨m', ?_, fun hfreed q hq hp hskip => ?_, fun hskip => ?_⟩
  · unfold deallocuvm
    rw [if_neg (by omega), pgroundup_pages (by omega), hrun]
    rfl
  · refine hfreed.gone q hq ?_
    rwa [hc.kept q (page_lt hold hq.2).2 fun hr => hr.seen hskip]
  have hiff : ∀ q, Reached m d oldsz (pages newsz) q ↔ InRange newsz oldsz q ∧ present (m.slot d q) := by
    intro q
    rw [inRange_page hold hnew]
    constructor
    · exact fun hr => ⟨⟨hr.start, hr.below⟩, hr.mapped⟩
    · rintro ⟨hr, hp⟩
      exact ⟨hr.1, hr.2, hp, hskip q ((inRange_page hold hnew).mpr hr) hp⟩
  have hcount := hc.count (fun p q hp hq heq =>
    h.inj p q (page_lt hold hp.below).1 (page_lt hold hq.below).1 hp.mapped hq.mapped heq)
  constructor
  · rw [pgroundup_pages (by omega), deallocUntil_eq hold hfuel, hrun]
  · intro q hq hp
    have hlt := page_lt hold hq.2
    by_cases hS : Reached m d oldsz (pages newsz) q
    · rw [hc.gone q hlt.2 hS] at hp
      exact not_present_zero hp
    · rw [hc.kept q hlt.2 hS] at hp
      exact hS ((hiff q).mpr ⟨hq, hp⟩)
  · intro q hq hp
    exact (hcount _).1 ⟨q, (hiff q).mpr ⟨hq, hp⟩, rfl⟩
  · intro f hno
    exact (hcount f).2 fun q hr => hno q ((hiff q).mp hr).1 hr.mapped
  · intro q hq hno
    exact hc.kept q hq fun hr => hno ((hiff q).mp hr).1

end Unmap

/-- A directory in frame 300 with one table, for its entry `i`, and one page in it. -/
def onePage (i : Nat) : Mem :=
  ((emptySpace 0).setEntry 300 i (301 * PGSIZE + 7)).setEntry 301 0 (302 * PGSIZE + 7)

section Example

variable {i : Nat}

lemma onePage_entry (hi : i < 1024) (j : Nat) :
    (onePage i).entry 300 j = if j = i then 301 * PGSIZE + 7 else 0 := by
  unfold onePage
  rw [entry_setEntry_other (.inl (by decide))]
  by_cases hj : j = i
  · rw [hj, entry_setEntry_same hi (by decide), if_pos rfl]
  · rw [entry_setEntry_other (.inr hj), emptySpace_entry, if_neg hj]

lemma onePage_slot (hi : i < 1024) (q : Nat) :
    (onePage i).slot 300 q = if q = 1024 * i then 302 * PGSIZE + 7 else 0 := by
  unfold Mem.slot
  rw [onePage_entry hi]
  by_cases hq : q / 1024 = i
  · rw [if_pos hq, if_pos (user_entry_present 301), frameOf_flags 301 (by decide)]
    unfold onePage
    by_cases hz : q % 1024 = 0
    · rw [hz, entry_setEntry_same (by decide) (by decide), if_pos (by omega)]
    · rw [entry_setEntry_other (.inr hz), entry_setEntry_other (.inl (by decide)), emptySpace_entry, if_neg (by omega)]
  · rw [if_neg hq, if_neg not_present_zero, if_neg (by omega)]

lemma onePage_pages (hi : i < 1024) : UserPages exampleLayout (onePage i) 300 := by
  have htab : ∀ j, present ((onePage i).entry 300 j) → j = i ∧ frameOf ((onePage i).entry 300 j) = 301 := by
    intro j hp
    rw [onePage_entry hi] at hp ⊢
    split_ifs at hp ⊢ with hj
    · exact ⟨hj, frameOf_flags 301 (by decide)⟩
    · exact absurd hp not_present_zero
  have hpage : ∀ q, present ((onePage i).slot 300 q) → q = 1024 * i ∧ frameOf ((onePage i).slot 300 q) = 302 := by
    intro q hp
    rw [onePage_slot hi] at hp ⊢
    split_ifs at hp ⊢ with hq
    · exact ⟨hq, frameOf_flags 302 (by decide)⟩
    · exact absurd hp not_present_zero
  refine ⟨⟨?_, ?_⟩, ?_, ?_, ?_⟩
  · intro j _ hp
    rw [(htab j hp).2]
    decide
  · intro j k _ _ hj hk _
    rw [(htab j hj).1, (htab k hk).1]
  · intro q _ hp
    rw [(hpage q hp).2]
    exact ⟨by decide, by decide⟩
  · intro q _ hp
    rw [(hpage q hp).2]
    refine ⟨by decide, fun j _ hj => ?_⟩
    rw [(htab j hj).2]
    decide
  · intro p q _ _ hp hq _
    rw [(hpage p hp).1, (hpage q hq).1]

theorem deallocuvm_frees_page : ∃ m', deallocuvm exampleLayout (onePage 1) 300 0x401000 0 = .ok (0, m') ∧
    ¬present (m'.slot 300 1024) ∧ m'.freed.count 302 = 1 := by
  obtain ⟨m', hrun, hiff⟩ := deallocuvm_frees (onePage_pages (i := 1) (by decide))
    (show 0 < 0x401000 by decide) (by decide)
  have hfreed := hiff.mpr fun q _ _ hs => absurd hs.1 (Nat.not_lt_zero _)
  have hslot : (onePage 1).slot 300 1024 = 302 * PGSIZE + 7 := onePage_slot (by decide) 1024
  have hc := hfreed.once 1024 (by decide) (by rw [hslot]; exact user_entry_present 302)
  rw [hslot, frameOf_flags 302 (by decide)] at hc
  exact ⟨m', hrun, hfreed.gone 1024 (by decide), hc⟩

/-- No table for the first 4 MB: from its second page `deallocuvm` goes on at page 1025. -/
theorem deallocuvm_skips : UserPages exampleLayout (onePage 1) 300 ∧ InRange 0x1000 0x401000 1024 ∧
    ∃ m', deallocuvm exampleLayout (onePage 1) 300 0x401000 0x1000 = .ok (0x1000, m') ∧
      present (m'.slot 300 1024) := by
  refine ⟨onePage_pages (by decide), by decide, onePage 1, rfl, ?_⟩
  rw [onePage_slot (by decide)]
  decide

end Example

/-- A process of size `sz`: its pages below `sz` are mapped and no others. -/
structure Process (L : Layout) (m : Mem) (d sz : Nat) : Prop where
  bound : sz < KERNBASE
  dir : Directory L m d
  user : UserPages L m d
  below : ∀ q, q * PGSIZE < sz → present (m.slot d q)
  above : ∀ q, q < kernPage → sz ≤ q * PGSIZE → ¬present (m.slot d q)

/-- The process after `growproc(n)`, which returned 0 or not. -/
structure Resized (m m' : Mem) (d sz : Nat) (n : Int) (ok : Bool) (sz' : Nat) : Prop where
  size : ok = true → (sz' : Int) = sz + n ∧ sz' < KERNBASE
  mapped : ok = true → ∀ q, q * PGSIZE < sz' → present (m'.slot d q)
  released : ok = true → ∀ q, q < kernPage → sz' ≤ q * PGSIZE → ¬present (m'.slot d q)
  refused : ok = false → sz' = sz ∧ ∀ q, q < 2 ^ 20 → lookup m' d (q * PGSIZE) = lookup m d (q * PGSIZE)

section Size

variable {L : Layout} {m m' : Mem} {d sz : Nat}

lemma Process.free (h : Process L m d sz) {newsz q : Nat} (hle : sz ≤ newsz) (hlt : newsz < KERNBASE)
    (hq : InRange sz newsz q) : ¬present (m.slot d q) := by
  have hq' := (inRange_iff hle hlt).mp hq
  refine h.above q (page_lt hlt.le hq.2).1 ?_
  unfold pages PGSIZE at *
  omega

lemma Delivered.resized {r newsz : Nat} (hd : Delivered m m' d sz newsz r) (h : Process L m d sz)
    (hlt : newsz < KERNBASE)
    (hle : sz < newsz) : Resized m m' d sz (newsz - sz : Int) (r ≠ 0) (if r = 0 then sz else r) := by
  have hr : r ≠ 0 → r = newsz := fun hne => hd.result.resolve_right hne
  constructor
  · intro hok
    rw [decide_eq_true_eq] at hok
    rw [if_neg hok, hr hok]
    exact ⟨by omega, hlt⟩
  · intro hok q hq
    rw [decide_eq_true_eq] at hok
    rw [if_neg hok, hr hok] at hq
    by_cases hin : InRange sz newsz q
    · obtain ⟨k, f, -, -, hslot, -⟩ := hd.mapped (hr hok) q hin
      rw [hslot, table_entry]
      exact user_entry_present f
    rw [hd.outside q (page_lt hlt.le hq).2 hin]
    rw [inRange_iff hle.le hlt] at hin
    refine h.below q ?_
    unfold pages PGSIZE at *
    omega
  · intro hok q hq hge
    rw [decide_eq_true_eq] at hok
    rw [if_neg hok, hr hok] at hge
    have hk : q < 0x80000 := hq
    rw [hd.outside q (by omega) fun hin => absurd hin.2 (by omega)]
    exact h.above q hq (by omega)
  · intro hok
    have hzero : r = 0 := by simpa using hok
    refine ⟨if_pos hzero, fun q hq => ?_⟩
    by_cases hin : InRange sz newsz q
    · rw [lookup_page hq, lookup_page hq, if_neg (hd.none_mapped hzero q hin), if_neg (h.free hle.le hlt hin)]
    · exact lookup_congr hq (hd.outside q hq hin)

/-- Shrinking to a positive size: all tables of the range exist, so no page is jumped over. -/
lemma Process.shrink (h : Process L m d sz) {newsz : Nat} (hnew : newsz < sz) :
    ∃ m', deallocuvm L m d sz newsz = .ok (newsz, m') ∧ Resized m m' d sz (newsz - sz : Int) true newsz := by
  have hold := h.bound.le
  obtain ⟨m', hrun, hc⟩ := deallocuvm_clears (L := L) h.user.tables hold hnew (fun q _ hq hp =>
    ⟨h.user.usable q (page_lt hold hq).1 hp, h.user.apart q (page_lt hold hq).1 hp⟩)
  refine ⟨m', hrun, fun _ => ⟨by omega, hnew.trans h.bound⟩, ?_, ?_, nofun⟩
  · intro _ q hq
    rw [hc.kept q (page_lt hold (by omega)).2]
    · exact h.below q (by omega)
    intro hr
    have := hr.start
    unfold pages PGSIZE at *
    omega
  intro _ q hq hge hp
  have hk : q < 0x80000 := hq
  by_cases hS : Reached m d sz (pages newsz) q
  · rw [hc.gone q (by omega) hS] at hp
    exact not_present_zero hp
  rw [hc.kept q (by omega) hS] at hp
  have hlt : q * PGSIZE < sz := by
    by_contra hno
    exact h.above q hq (by omega) hp
  have hstart : pages newsz ≤ q := by
    unfold pages PGSIZE at *
    omega
  refine hS ⟨hstart, hlt, hp, not_skipped (table_of_slot (h.below _ ?_)) hstart⟩
  exact lt_of_le_of_lt (Nat.mul_le_mul_right PGSIZE hstart) hlt

/-- What `growproc` left tells what `allocuvm` did. -/
lemma Resized.whole {r newsz : Nat} (h : Process L m d sz) (hlt : newsz < KERNBASE) (hle : sz < newsz)
    (hres : Resized m m' d sz (newsz - sz : Int) (r ≠ 0) (if r = 0 then sz else r)) :
    Whole m' d sz newsz r := by
  refine ⟨?_, ?_⟩
  · rintro rfl p hp
    have hne : r ≠ 0 := by omega
    exact hres.mapped (decide_eq_true hne) p (by rw [if_neg hne]; exact hp.2)
  · intro hzero p hp hpr
    have hp' := page_lt hlt.le hp.2
    have hsame := (hres.refused (decide_eq_false (not_not.mpr hzero))).2 p hp'.2
    rw [lookup_page hp'.2, lookup_page hp'.2, if_pos hpr, if_neg (h.free hle.le hlt hp)] at hsame
    cases hsame

/-- Growing within the user part of the address space. -/
lemma Process.grow (h : Process L m d sz) {newsz : Nat} (hlt : newsz < KERNBASE) (hle : sz < newsz) :
    ∃ r m', allocuvm L m d sz newsz = .ok (r, m') ∧
      (Resized m m' d sz (newsz - sz : Int) (r ≠ 0) (if r = 0 then sz else r) ↔ TablesGranted m d sz newsz) := by
  obtain ⟨r, m', hrun, hend⟩ := allocuvm_ends h.dir hle.le hlt fun _ => h.free hle.le hlt
  refine ⟨r, m', hrun, fun hres => ?_, fun ht => ?_⟩
  · exact hend.granted hle.le hlt (fun _ => h.free hle.le hlt) (hres.whole h hlt hle)
  · exact (hend.delivered h.dir hle.le hlt ht).resized h hlt hle

/-- Shrinking to or below zero: the pages go but the size stays, or the other way round. -/
lemma Resized.unchanged {n : Int} : Resized m m d sz n false sz := ⟨nofun, nofun, nofun, fun _ => ⟨rfl, fun _ _ => rfl⟩⟩

lemma Process.shrink_below (h : Process L m d sz) {n : Int} (hn : -2 ^ 31 ≤ n) (hneg : n < 0) (hle : sz + n ≤ 0) :
    ∃ ok m', growproc L m d sz n = .ok (ok, sz, m') ∧ (Resized m m' d sz n ok sz ↔ sz = 0) := by
  have hk : sz < 0x80000000 := h.bound
  have hgrow : growproc L m d sz n = deallocuvm L m d sz ((sz + n) % 2 ^ 32).toNat >>= fun x =>
      .ok (if x.1 = 0 then (false, sz, x.2) else (true, x.1, x.2)) := by
    rw [growproc, if_neg (by omega), if_pos hneg]
  by_cases hz : (sz : Int) + n = 0
  · -- `deallocuvm` returns the new size 0, which `growproc` takes for a failure.
    obtain ⟨m', hrun, hres⟩ := h.shrink (show 0 < sz by omega)
    refine ⟨false, m', ?_, fun hno => ?_, fun hsz => by omega⟩
    · rw [hgrow, hz]
      exact congrArg (· >>= _) hrun
    · have hsame := (hno.refused rfl).2 0 (by decide)
      rw [lookup_page (by decide), lookup_page (by decide), if_pos (h.below 0 (by omega)),
        if_neg (hres.released rfl 0 (by decide) (Nat.zero_le _))] at hsame
      cases hsame
  · -- The new size wraps around, and `deallocuvm` returns the old one.
    have hrun : deallocuvm L m d sz ((sz + n) % 2 ^ 32).toNat = .ok (sz, m) := by
      rw [deallocuvm, if_pos (by omega)]
    rw [hgrow, hrun]
    by_cases hsz : sz = 0
    · refine ⟨false, m, ?_, iff_of_true .unchanged hsz⟩
      simp only [bind, Except.bind, if_pos hsz]
    · refine ⟨true, m, ?_, iff_of_false (fun hres => ?_) hsz⟩
      · simp only [bind, Except.bind, if_neg hsz]
      · have := (hres.size rfl).1
        omega

/-- `growproc` is exact and atomic exactly if it is not asked to go to or below size 0, except from size 0,
and, when it grows, `allocuvm` delivers what it reports. -/
theorem growproc_exact (h : Process L m d sz) {n : Int} (hn : -2 ^ 31 ≤ n ∧ n < 2 ^ 31) :
    ∃ ok sz' m', growproc L m d sz n = .ok (ok, sz', m') ∧ (Resized m m' d sz n ok sz' ↔
      (0 < n → sz + n.toNat < KERNBASE → TablesGranted m d sz (sz + n.toNat)) ∧ (n < 0 → 0 < sz + n ∨ sz = 0)) := by
  have hk : sz < 0x80000000 := h.bound
  rcases lt_trichotomy n 0 with hneg | rfl | hpos
  · by_cases hle : (sz : Int) + n ≤ 0
    · obtain ⟨ok, m', hrun, hiff⟩ := h.shrink_below hn.1 hneg hle
      refine ⟨ok, sz, m', hrun, hiff.trans ⟨fun hsz => ⟨fun hc => by omega, fun _ => .inr hsz⟩, fun hc => ?_⟩⟩
      exact (hc.2 hneg).resolve_left (by omega)
    · have hnew : (((sz + n) % 2 ^ 32).toNat : Int) = sz + n := by omega
      obtain ⟨m', hrun, hres⟩ := h.shrink (show ((sz + n) % 2 ^ 32).toNat < sz by omega)
      rw [hnew, show (sz : Int) + n - sz = n by omega] at hres
      refine ⟨true, _, m', ?_, iff_of_true hres ⟨fun hc => by omega, fun _ => .inl (by omega)⟩⟩
      rw [growproc, if_neg (by omega), if_pos hneg, hrun]
      simp only [bind, Except.bind]
      rw [if_neg (by omega)]
  · refine ⟨true, sz, m, rfl, iff_of_true ?_ ⟨fun hc => by omega, fun hc => by omega⟩⟩
    exact ⟨fun _ => ⟨by omega, h.bound⟩, fun _ => h.below, fun _ => h.above, nofun⟩
  · have hnew : ((sz + n) % 2 ^ 32).toNat = sz + n.toNat := by omega
    have hcond : (n < 0 → 0 < sz + n ∨ sz = 0) := fun hc => by omega
    rw [growproc, if_pos hpos, hnew]
    by_cases hlt : sz + n.toNat < KERNBASE
    · obtain ⟨r, m', hrun, hiff⟩ := h.grow hlt (by omega)
      rw [show ((sz + n.toNat : Nat) : Int) - sz = n by omega] at hiff
      refine ⟨r ≠ 0, if r = 0 then sz else r, m', ?_, hiff.trans ⟨fun ht => ⟨fun _ _ => ht, hcond⟩, fun hc => ?_⟩⟩
      · rw [hrun]
        simp only [bind, Except.bind]
        by_cases hr : r = 0
        · simp only [hr, if_true, ne_eq, not_true_eq_false, decide_false]
        · simp only [hr, if_false, ne_eq, not_false_eq_true, decide_true]
      · exact hc.1 hpos hlt
    · refine ⟨false, sz, m, ?_, iff_of_true .unchanged ⟨fun _ hc => absurd hc hlt, hcond⟩⟩
      rw [allocuvm, if_pos (Nat.le_of_not_lt hlt)]
      rfl

lemma onePage_process : Process exampleLayout (onePage 0) 300 PGSIZE := by
  have hu := onePage_pages (i := 0) (by decide)
  refine ⟨by decide, ⟨hu.tables, nofun, nofun, nofun, nofun⟩, hu, ?_, ?_⟩
  · intro q hq
    have hq0 : q = 0 := by
      unfold PGSIZE at hq
      omega
    rw [onePage_slot (by decide), hq0]
    decide
  · intro q _ hq
    rw [onePage_slot (by decide), if_neg]
    · exact not_present_zero
    · unfold PGSIZE at hq
      omega

lemma emptySpace_process : Process exampleLayout (emptySpace 0) 300 0 := by
  have hno : ∀ q, ¬present ((emptySpace 0).slot 300 q) := by
    intro q
    rw [emptySpace_slot]
    exact not_present_zero
  have hd := emptySpace_directory (show 0 ≤ 10000 by decide)
  exact ⟨by decide, hd, ⟨hd.tables, fun q _ hp => absurd hp (hno q), fun q _ hp => absurd hp (hno q),
    fun p _ _ _ hp => absurd hp (hno p)⟩, fun q hq => absurd hq (Nat.not_lt_zero _), fun q _ _ => hno q⟩

theorem growproc_exact_page :
    (∃ ok sz' m', growproc exampleLayout (onePage 0) 300 PGSIZE (-1) = .ok (ok, sz', m') ∧
      Resized (onePage 0) m' 300 PGSIZE (-1) ok sz') ∧
    ∃ ok sz' m', growproc exampleLayout (emptySpace 0) 300 0 (-1) = .ok (ok, sz', m') ∧
      Resized (emptySpace 0) m' 300 0 (-1) ok sz' := by
  obtain ⟨ok, sz', m', hrun, hiff⟩ := growproc_exact onePage_process (n := -1) (by decide)
  obtain ⟨ok₂, sz₂, m₂, hrun₂, hiff₂⟩ := growproc_exact emptySpace_process (n := -1) (by decide)
  refine ⟨⟨ok, sz', m', hrun, hiff.mpr ⟨fun hc => absurd hc (by decide), fun _ => .inl (by decide)⟩⟩,
    ok₂, sz₂, m₂, hrun₂, hiff₂.mpr ⟨fun hc => absurd hc (by decide), fun _ => .inr rfl⟩⟩

/-- Shrinking by the whole size unmaps all pages and returns -1; shrinking by more returns 0. -/
theorem growproc_below_zero : Process exampleLayout (onePage 0) 300 PGSIZE ∧
    (∃ m', growproc exampleLayout (onePage 0) 300 PGSIZE (-4096) = .ok (false, PGSIZE, m') ∧
      lookup (onePage 0) 300 0 ≠ none ∧ lookup m' 300 0 = none) ∧
    growproc exampleLayout (onePage 0) 300 PGSIZE (-5000) = .ok (true, PGSIZE, onePage 0) := by
  refine ⟨onePage_process, ⟨_, rfl, ?_, ?_⟩, rfl⟩
  · decide +kernel
  · decide +kernel

end Size

end Xv6.Vm
