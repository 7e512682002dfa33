import Xv6.Proofs.PageRanges

/-!
# Copies of an address space

The pages of a copy come off the free list, as do its directory and its tables.
-/

namespace Xv6.Vm

/-- The frames of a directory: itself, its tables and its user pages. -/
inductive Uses (m : Mem) (pgdir : Nat) : Nat → Prop where
  | dir : Uses m pgdir pgdir
  | table {i : Nat} (hi : i < 1024) (hp : present (m.entry pgdir i)) : Uses m pgdir (frameOf (m.entry pgdir i))
  | page {q : Nat} (hq : q < kernPage) (hp : present (m.slot pgdir q)) : Uses m pgdir (frameOf (m.slot pgdir q))

/-- The free frames are different and usable, and `pgdir` does not use them. -/
structure Source (L : Layout) (m : Mem) (pgdir : Nat) : Prop extends Supplied L m where
  unused : ∀ k f, m.calls ≤ k → m.supply k = some f → ¬Uses m pgdir f

/-- `d` has copies of the pages of `pgdir` below `sz`, and `pgdir` is as it was. -/
structure Copied (L : Layout) (m m' : Mem) (pgdir d sz : Nat) : Prop where
  page : ∀ q, q * PGSIZE < sz → ∃ k f, m.calls ≤ k ∧ m.supply k = some f ∧ ¬Uses m pgdir f ∧
    m'.slot d q = f * PGSIZE + m.slot pgdir q % PGSIZE ∧ m'.page f = m.page (frameOf (m.slot pgdir q))
  inj : ∀ p q, p * PGSIZE < sz → q * PGSIZE < sz → frameOf (m'.slot d p) = frameOf (m'.slot d q) → p = q
  above : ∀ q, q < kernPage → sz ≤ q * PGSIZE → m'.slot d q = 0
  kernel : ∃ m₁, setupkvm L m = .ok (some d, m₁) ∧ ∀ q, kernPage ≤ q → q < 2 ^ 20 → m'.slot d q = m₁.slot d q
  kept : ∀ f, Uses m pgdir f → m'.page f = m.page f

/-- `n` pages of the memory `m₀` have been copied since `setupkvm` left `b`. -/
structure Copying (m₀ b : Mem) (pgdir d n : Nat) (m : Mem) : Prop extends Extends d ((kalloc m₀).2.zero d) m where
  bound : m.calls ≤ m₀.calls + 1025 + 2 * n
  copied : ∀ q, q < n → ∃ k f, m₀.calls < k ∧ k < m.calls ∧ m₀.supply k = some f ∧ Apart m d f ∧
    m.slot d q = f * PGSIZE + m₀.slot pgdir q % PGSIZE ∧ m.page f = m₀.page (frameOf (m₀.slot pgdir q))
  inj : ∀ p q, p < q → q < n → frameOf (m.slot d p) ≠ frameOf (m.slot d q)
  rest : ∀ q, q < 2 ^ 20 → n ≤ q → m.slot d q = b.slot d q

section Copy

variable {L : Layout} {m₀ b m m' : Mem} {pgdir d n f sz : Nat}

lemma flags_present {e : Nat} (h : present e) (f : Nat) :
    f * PGSIZE ||| e % PGSIZE ||| PTE_P = f * PGSIZE + e % PGSIZE := by
  have hodd : e % PGSIZE % 2 = 1 := by
    unfold present at h
    unfold PGSIZE
    omega
  have hone : e % PGSIZE ||| 1 = e % PGSIZE := by
    rw [← Nat.div_add_mod (e % PGSIZE ||| 1) 2, Nat.or_div_two, Nat.or_mod_two_eq_one.mpr (.inr rfl)]
    simp only [Nat.reduceDiv, Nat.or_zero]
    omega
  rw [Nat.or_assoc, PTE_P, hone, entry_flags f (Nat.mod_lt _ (by decide))]

lemma Source.kept (h : Source L m₀ pgdir) (hd : m₀.supply m₀.calls = some d)
    (hx : Extends d ((kalloc m₀).2.zero d) m) (hf : Uses m₀ pgdir f) : m.page f = m₀.page f := by
  have hfree : ∀ k, m₀.calls ≤ k → m₀.supply k ≠ some f := fun k hk hs => h.unused k f hk hs hf
  have hne : f ≠ d := by
    rintro rfl
    exact hfree _ le_rfl hd
  have hap : Apart ((kalloc m₀).2.zero d) d f := by
    refine ⟨hne, fun i _ hp => ?_⟩
    rw [entry_zero_same] at hp
    exact absurd hp not_present_zero
  rw [(hx.untouched hap fun k hk => hfree k (Nat.le_of_succ_le hk)).2]
  exact Function.update_of_ne hne _ _

lemma Copying.step (hs : Source L m₀ pgdir) (hd : m₀.supply m₀.calls = some d) (h : Copying m₀ b pgdir d n m)
    (hn : n < kernPage) (hb : b.slot d n = 0) (hp : present (m₀.slot pgdir n)) (hf : m.supply m.calls = some f) :
    ∃ ok m', mappages ((kalloc m).2.setPage f (m₀.page (frameOf (m₀.slot pgdir n)))) d (n * PGSIZE) PGSIZE
        (f * PGSIZE) (m₀.slot pgdir n % PGSIZE) = .ok (ok, m') ∧
      (ok = true → Copying m₀ b pgdir d (n + 1) m') ∧ (ok = false → m₀.supply (m.calls + 1) = none) := by
  have hk : n < 0x80000 := hn
  have hr := hs.create hd
  obtain ⟨ok, m', hw, htrue, hfalse⟩ := (hr.extend h.toExtends).place hf (m₀.page (frameOf (m₀.slot pgdir n)))
    (p := n) (by omega) (Nat.mod_lt _ (by decide)) (by rw [h.rest n (by omega) le_rfl, hb]; exact not_present_zero)
  refine ⟨ok, m', hw, fun hok => ?_, fun hok => ?_⟩
  swap
  · rw [← (hfalse hok).refused, h.supply]
    rfl
  have hx := htrue hok
  have hcalls : m.calls < m'.calls := by
    rw [hx.count]
    omega
  have hnew : m'.slot d n = f * PGSIZE + m₀.slot pgdir n % PGSIZE := by
    rw [hx.slot n (by omega), if_pos rfl, flags_present hp]
  have hold : ∀ q, q < 2 ^ 20 → q ≠ n → m'.slot d q = m.slot d q := by
    intro q hq hne
    rw [hx.slot q hq, if_neg hne]
  have hfs : m₀.supply m.calls = some f := by
    rw [← hf, h.supply]
    rfl
  have hlow : m₀.calls < m.calls := h.calls
  refine ⟨h.toExtends.trans hx.toExtends, ?_, ?_, ?_, ?_⟩
  · have hbound := h.bound
    rw [hx.count]
    split <;> omega
  · intro q hq
    by_cases heq : q = n
    · subst heq
      exact ⟨m.calls, f, hlow, hcalls, hfs, hx.apart, hnew, hx.filled⟩
    obtain ⟨k, g, hk₁, hk₂, hg, hap, hsl, hpg⟩ := h.copied q (by omega)
    obtain ⟨hap', hpg'⟩ := hr.keeps h.toExtends hx.toExtends hk₁ hk₂ hg hap
    exact ⟨k, g, hk₁, hk₂.trans hcalls, hg, hap', (hold q (by omega) heq).trans hsl, hpg'.trans hpg⟩
  · intro p q hpq hq
    rw [hold p (by omega) (by omega)]
    by_cases heq : q = n
    · subst heq
      obtain ⟨k, g, hk₁, hk₂, hg, -, hsl, -⟩ := h.copied p hpq
      rw [hsl, hnew, frameOf_flags _ (Nat.mod_lt _ (by decide)), frameOf_flags _ (Nat.mod_lt _ (by decide))]
      rintro rfl
      exact hk₂.ne (hs.distinct k _ g hk₁.le hlow.le hg hfs)
    · rw [hold q (by omega) heq]
      exact h.inj p q hpq (by omega)
  · intro q hq hqn
    rw [hold q hq (by omega)]
    exact h.rest q hq (by omega)

lemma copyBad_ne (d' : Nat) : copyBad L d m ≠ .ok (some d', m') := by
  unfold copyBad
  cases freevm L m (some d) <;> exact nofun

lemma copyLoop_copies (hs : Source L m₀ pgdir) (hd : m₀.supply m₀.calls = some d) (hsz : sz < KERNBASE)
    (hp : ∀ q, q * PGSIZE < sz → present (m₀.slot pgdir q)) (hb : ∀ q, q < kernPage → b.slot d q = 0) (k : Nat)
    (hk : n + k = pages sz) (h : Copying m₀ b pgdir d n m) :
    (∃ m', copyLoop L pgdir d k (n * PGSIZE) m = .ok (some d, m') ∧ Copying m₀ b pgdir d (pages sz) m') ∨
    (∀ d' m', copyLoop L pgdir d k (n * PGSIZE) m ≠ .ok (some d', m')) ∧
      ∃ j, j < m₀.calls + 1025 + 2 * pages sz ∧ m₀.supply j = none := by
  have hpages : pages sz ≤ 0x80000 := pages_le hsz.le
  induction k generalizing n m with
  | zero =>
    obtain rfl : n = pages sz := hk
    exact .inl ⟨m, rfl, h⟩
  | succ k ih =>
    have hbound := h.bound
    have hn : n < kernPage := show n < 0x80000 by omega
    have hpn := hp n (by unfold pages PGSIZE at *; omega)
    have hkept : ∀ {f}, Uses m₀ pgdir f → m.page f = m₀.page f := fun hf => hs.kept hd h.toExtends hf
    have hslot := slot_congr (p := n) (hkept .dir) (fun i hi hpi => hkept (.table hi hpi)) (by omega)
    have htab := table_of_slot (hslot ▸ hpn)
    rw [copyLoop, walk_page false (by omega) htab]
    simp only [slot_entry htab, hslot, if_pos hpn]
    cases hf : m.supply m.calls with
    | none =>
      rw [show kalloc m = (none, (kalloc m).2) by rw [← hf]; rfl]
      exact .inr ⟨fun d' m' => copyBad_ne d', m.calls, by omega, by rw [← hf, h.supply]; rfl⟩
    | some f =>
      rw [show kalloc m = (some f, (kalloc m).2) by rw [← hf]; rfl]
      obtain ⟨ok, m', hw, htrue, hfalse⟩ := h.step hs hd hn (hb n hn) hpn hf
      rw [← hkept (.page hn hpn)] at hw
      dsimp only
      rw [show (kalloc m).2.page = m.page from rfl, hw]
      cases ok with
      | false => exact .inr ⟨fun d' m' => copyBad_ne d', m.calls + 1, by omega, hfalse rfl⟩
      | true =>
        rw [show n * PGSIZE + PGSIZE = (n + 1) * PGSIZE by ring]
        exact ih (by omega) (htrue rfl)

/-- `copyuvm` copies the pages below `sz`, with their flags, into pages of their own; it does so if
there are enough of them. -/
theorem copyuvm_copies (h : Source L m pgdir) (hsz : sz < KERNBASE)
    (hp : ∀ q, q * PGSIZE < sz → present (m.slot pgdir q)) :
    (∀ d m', copyuvm L m pgdir sz = .ok (some d, m') → Copied L m m' pgdir d sz) ∧
    ((∀ k, k < m.calls + 1025 + 2 * pages sz → m.supply k ≠ none) →
      ∃ d m', copyuvm L m pgdir sz = .ok (some d, m')) := by
  obtain ⟨r, b, hset, hsome, hnone⟩ := setupkvm_maps h.toSupplied
  unfold copyuvm
  rw [hset]
  simp only [bind, Except.bind]
  cases r with
  | none =>
    obtain ⟨k, -, hk, hs⟩ := hnone rfl
    exact ⟨nofun, fun hall => absurd hs (hall k (by omega))⟩
  | some d =>
    obtain ⟨hd, hm, -, hout, hcalls⟩ := hsome d rfl
    have hzero : ∀ q, q < kernPage → b.slot d q = 0 := by
      intro q hq
      have hk : q < 0x80000 := hq
      exact hout q (by omega) fun hc => Nat.not_lt.mpr ((kmap_ordered L).covers hc).1 hq
    have hloop := copyLoop_copies (b := b) (n := 0) h hd hsz hp hzero (pages sz) (Nat.zero_add _)
      ⟨hm.toExtends, by omega, nofun, nofun, fun _ _ _ => rfl⟩
    rw [Nat.zero_mul] at hloop
    rcases hloop with ⟨m', hrun, hc⟩ | ⟨hno, k, hk, hs⟩
    · refine ⟨?_, fun _ => ⟨d, m', hrun⟩⟩
      intro d' m'' hrun'
      obtain ⟨⟨⟩, rfl⟩ := Prod.mk.inj (Except.ok.inj (hrun.symm.trans hrun'))
      have hlt : ∀ q, q * PGSIZE < sz → q < pages sz := by
        intro q hq
        unfold pages PGSIZE at *
        omega
      refine ⟨?_, ?_, ?_, ⟨b, hset, ?_⟩, fun f hf => h.kept hd hc.toExtends hf⟩
      · intro q hq
        obtain ⟨k, f, hk, -, hf, -, hsl, hpg⟩ := hc.copied q (hlt q hq)
        exact ⟨k, f, hk.le, hf, h.unused k f hk.le hf, hsl, hpg⟩
      · intro p q hp hq heq
        rcases Nat.lt_trichotomy p q with hpq | rfl | hqp
        · exact absurd heq (hc.inj p q hpq (hlt q hq))
        · rfl
        · exact absurd heq.symm (hc.inj q p hqp (hlt p hp))
      · intro q hq hge
        have hk : q < 0x80000 := hq
        rw [hc.rest q (by omega) (by unfold pages PGSIZE at *; omega), hzero q hq]
      · intro q hq hq'
        exact hc.rest q hq' ((pages_le hsz.le).trans hq)
    · exact ⟨fun d' m' hrun => absurd hrun (hno d' m'), fun hall => absurd hs (hall k hk)⟩

/-- A process with one page, and many free pages. -/
def roomyPage : Mem := { onePage 0 with supply := (emptySpace 2000).supply, calls := 2 }

theorem copyuvm_copies_page : ∃ d m', copyuvm exampleLayout roomyPage 300 PGSIZE = .ok (some d, m') ∧
    Copied exampleLayout roomyPage m' 300 d PGSIZE := by
  have hdir := emptySpace_directory (show 2000 ≤ 10000 by decide)
  have hentry : ∀ i, roomyPage.entry 300 i = if i = 0 then 301 * PGSIZE + 7 else 0 := onePage_entry (by decide)
  have hslot : ∀ q, roomyPage.slot 300 q = if q = 0 then 302 * PGSIZE + 7 else 0 := onePage_slot (by decide)
  have hsrc : Source exampleLayout roomyPage 300 := by
    refine ⟨⟨fun k f _ => hdir.usable k f (Nat.zero_le k),
      fun j k f _ _ => hdir.distinct j k f (Nat.zero_le j) (Nat.zero_le k)⟩, ?_⟩
    intro k f hk hf hc
    have hk' : 2 ≤ k := hk
    have hsup := (emptySpace_supply hf).2
    cases hc with
    | dir => omega
    | @table i =>
      rw [hentry, frameOf, PGSIZE] at hsup
      split at hsup <;> omega
    | @page q =>
      rw [hslot, frameOf, PGSIZE] at hsup
      split at hsup <;> omega
  obtain ⟨hcopy, hrun⟩ := copyuvm_copies hsrc (show PGSIZE < KERNBASE by decide) (by
    intro q hq
    have hq0 : q = 0 := by
      unfold PGSIZE at hq
      omega
    rw [hslot, hq0]
    decide)
  obtain ⟨d, m', hrun⟩ := hrun (by
    intro k hk
    have hk' : k < 2000 := hk.trans (by decide)
    exact ne_of_eq_of_ne (if_pos hk') (Option.some_ne_none _))
  exact ⟨d, m', hrun, hcopy d m' hrun⟩

end Copy

end Xv6.Vm
