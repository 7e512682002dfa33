import Xv6.Log
import Mathlib.Logic.Relation

/-!
# Crash atomicity of the redo log

A disk is `Clean` when its header counts no block, and `Committed` when its header and log blocks
determine what the home sectors are about to get. Every sector write leads from one description to
the next, and recovery turns either into a clean disk.
-/

namespace Xv6.Log

open List Function

/-- Sectors outside of the log area, which is the header sector and the blocks after it. -/
def Home (start size s : Nat) : Prop := s ≠ start ∧ (s < start ∨ start + size ≤ s)

def headCount (start : Nat) (d : Disk) : Int := (wordAt (d start) 0).toInt32.toInt

def written (d : Disk) : List (UInt32 × Block) → Disk
  | [] => d
  | (sector, data) :: ws => written (Function.update d sector.toNat data) ws

/-- No transaction in the log, and `N` at the home sectors. -/
structure Clean (start size : Nat) (N d : Disk) : Prop where
  count : headCount start d = 0
  home : ∀ s, Home start size s → d s = N s

/-- A log with blocks `k` and sectors `sec`, whose installation brings the home sectors
to `N` from whatever the sectors named in it hold. -/
structure Logged (start size : Nat) (N d : Disk) (k : Nat) (sec : Nat → UInt32) : Prop where
  bound : k ≤ LOGSIZE ∧ k < size
  target : ∀ i, i < k → Home start size (sec i).toNat
  block : ∀ i, i < k → d (start + i + 1) = N (sec i).toNat
  home : ∀ s, Home start size s → (∀ i, i < k → (sec i).toNat ≠ s) → d s = N s

/-- A committed transaction: the header on the disk names the logged blocks. -/
structure Committed (start size : Nat) (N d : Disk) (k : Nat) (sec : Nat → UInt32) : Prop
    extends Logged start size N d k sec where
  count : headCount start d = k
  heads : ∀ i, i < k → wordAt (d start) (i + 1) = sec i

structure Idle (m : Machine) : Prop where
  count : m.log.lh.n = 0
  free : m.log.busy = false
  head : headCount m.log.start m.disk = 0

/-! ### Header sectors -/

lemma count_roundtrip (k : Nat) (hk : k ≤ LOGSIZE) :
    (Int32.ofInt (k : Int)).toUInt32.toInt32.toInt = k := by
  unfold LOGSIZE at hk
  rw [Int32.toInt32_toUInt32, Int32.toInt_ofInt, Int.bmod_def]
  unfold Int32.size
  split <;> omega

lemma wordAt_fillSectors_zero (lh : Header) (hb : Block) (k : Nat) (hk : k ≤ LOGSIZE) :
    wordAt (fillSectors lh hb k) 0 = wordAt hb 0 := by
  unfold LOGSIZE at hk
  induction k with
  | zero => rfl
  | succ k ih => rw [fillSectors, wordAt_setWord_other _ _ _ _ (by omega) (by omega), ih (by omega)]

lemma wordAt_fillSectors (lh : Header) (hb : Block) (k i : Nat) (hk : k ≤ LOGSIZE) (hi : i < k) :
    wordAt (fillSectors lh hb k) (i + 1) = lh.sector i := by
  unfold LOGSIZE at hk
  induction k with
  | zero => omega
  | succ k ih =>
    rw [fillSectors]
    by_cases hik : i = k
    · subst hik
      exact wordAt_setWord_same _ _ _ (by omega)
    · rw [wordAt_setWord_other _ _ _ _ (by omega) (by omega)]
      exact ih (by omega) (by omega)

lemma writeHead_header (m : Machine) (k : Nat) (hn : m.log.lh.n = k) (hk : k ≤ LOGSIZE) :
    headCount m.log.start (writeHead m).disk = k ∧
      ∀ i, i < k → wordAt ((writeHead m).disk m.log.start) (i + 1) = m.log.lh.sector i := by
  have hd : (writeHead m).disk m.log.start = fillSectors m.log.lh
      (setWord (bread m m.log.start) 0 (Int32.ofInt m.log.lh.n).toUInt32) k := by
    simp [writeHead, bwrite, hn]
  constructor
  · unfold headCount
    rw [hd, wordAt_fillSectors_zero _ _ _ hk, wordAt_setWord_same _ _ _ (by omega), hn, count_roundtrip k hk]
  · intro i hi
    rw [hd, wordAt_fillSectors _ _ _ _ hk hi]

lemma writeHead_other (m : Machine) (s : Nat) (hs : s ≠ m.log.start) :
    (writeHead m).disk s = m.disk s := by
  simp [writeHead, bwrite, hs]

@[simp] lemma writeHead_trail (m : Machine) :
    (writeHead m).trail = (writeHead m).disk :: m.trail := rfl

@[simp] lemma installBlock_log (m : Machine) (tail : Nat) : (installBlock m tail).log = m.log := rfl

@[simp] lemma installUpto_log (m : Machine) (k : Nat) : (installUpto m k).log = m.log := by
  induction k with
  | zero => rfl
  | succ k ih => rw [installUpto, installBlock_log, ih]

/-! ### Installing -/

section Install

variable {start size : Nat} {N : Disk} {k : Nat} {sec : Nat → UInt32}

lemma home_ne_log {s i : Nat} (hs : Home start size s) (hi : i < size) : s ≠ start + i := by
  unfold Home at hs
  omega

lemma home_ne_head {s : Nat} (hs : Home start size s) : s ≠ start := hs.1

lemma committed_install {d : Disk} (h : Committed start size N d k sec) (i : Nat) (hi : i < k) :
    Committed start size N (Function.update d (sec i).toNat (d (start + i + 1))) k sec := by
  have ht := h.target i hi
  have hks := h.bound.2
  have hlog : ∀ j, j ≤ k → (Function.update d (sec i).toNat (d (start + i + 1))) (start + j) =
      d (start + j) := by
    intro j hj
    exact update_of_ne (home_ne_log ht (by omega)).symm _ _
  have hhead : (Function.update d (sec i).toNat (d (start + i + 1))) start = d start :=
    hlog 0 (by omega)
  refine ⟨⟨h.bound, h.target, ?_, ?_⟩, ?_, ?_⟩
  · intro j hj
    have hb := hlog (j + 1) (by omega)
    rw [← Nat.add_assoc] at hb
    rw [hb, h.block j hj]
  · intro s hs hne
    rw [update_of_ne (hne i hi).symm, h.home s hs hne]
  · rw [headCount, hhead]
    exact h.count
  · intro j hj
    rw [hhead, h.heads j hj]

lemma installUpto_run (m : Machine) (h : Committed start size N m.disk k sec)
    (hstart : m.log.start = start) (hsec : ∀ i, i < k → m.log.lh.sector i = sec i)
    (j : Nat) (hj : j ≤ k) :
    Committed start size N (installUpto m j).disk k sec ∧
      (∀ i, i < j → (installUpto m j).disk (sec i).toNat = N (sec i).toNat) ∧
      ∀ d ∈ (installUpto m j).trail, d ∈ m.trail ∨ Committed start size N d k sec := by
  induction j with
  | zero => exact ⟨h, fun i hi => absurd hi (by omega), fun d hd => .inl hd⟩
  | succ j ih =>
    obtain ⟨hc, hdone, htrail⟩ := ih (by omega)
    have hdisk : (installUpto m (j + 1)).disk = Function.update (installUpto m j).disk (sec j).toNat
        ((installUpto m j).disk (start + j + 1)) := by
      simp [installUpto, installBlock, bwrite, bread, hstart, hsec j (by omega)]
    have hnew : Committed start size N (installUpto m (j + 1)).disk k sec := by
      rw [hdisk]
      exact committed_install hc j (by omega)
    refine ⟨hnew, ?_, ?_⟩
    · intro i hi
      rw [hdisk]
      by_cases he : (sec i).toNat = (sec j).toNat
      · rw [he, update_self, hc.block j (by omega)]
      · rw [update_of_ne he]
        have hij : i ≠ j := fun hij => he (by rw [hij])
        exact hdone i (by omega)
    · intro d hd
      have htr : (installUpto m (j + 1)).trail =
          (installUpto m (j + 1)).disk :: (installUpto m j).trail := rfl
      rw [htr, mem_cons] at hd
      rcases hd with rfl | hd
      · exact .inr hnew
      · exact htrail d hd

lemma install_erase (m : Machine) (h : Committed start size N m.disk k sec)
    (hstart : m.log.start = start) (hn : m.log.lh.n = k)
    (hsec : ∀ i, i < k → m.log.lh.sector i = sec i) :
    Clean start size N (writeHead (clearCount (installTrans m))).disk ∧
      ∀ d ∈ (writeHead (clearCount (installTrans m))).trail,
        d ∈ m.trail ∨ Committed start size N d k sec ∨ Clean start size N d := by
  have hit : installTrans m = installUpto m k := by simp [installTrans, hn]
  obtain ⟨hc, hdone, htrail⟩ := installUpto_run m h hstart hsec k le_rfl
  rw [← hit] at hc hdone htrail
  have hst : (clearCount (installTrans m)).log.start = start := by
    simp [clearCount, installTrans, hstart]
  have hhead := writeHead_header (clearCount (installTrans m)) 0 rfl (by unfold LOGSIZE; omega)
  have hclean : Clean start size N (writeHead (clearCount (installTrans m))).disk := by
    refine ⟨?_, ?_⟩
    · rw [← hst]
      exact hhead.1
    intro s hs
    rw [writeHead_other _ _ (by
      rw [hst]
      exact home_ne_head hs)]
    change (installTrans m).disk s = N s
    by_cases hex : ∃ i, i < k ∧ (sec i).toNat = s
    · obtain ⟨i, hi, rfl⟩ := hex
      exact hdone i hi
    · exact hc.home s hs (fun i hi he => hex ⟨i, hi, he⟩)
  refine ⟨hclean, ?_⟩
  intro d hd
  rw [writeHead_trail, mem_cons] at hd
  rcases hd with rfl | hd
  · exact .inr (.inr hclean)
  · exact (htrail d hd).imp_right .inl

end Install

/-! ### Recovery -/

section Recovery

variable {start size : Nat} {N : Disk}

lemma readHead_boot (size : Nat) (d : Disk) (k : Nat) (hk : k ≤ LOGSIZE) (hc : headCount start d = k) :
    ∃ m, readHead (boot start size d) = some m ∧ m.disk = d ∧ m.trail = [d] ∧
      m.log.start = start ∧ m.log.lh.n = k ∧
      ∀ i, i < k → m.log.lh.sector i = wordAt (d start) (i + 1) := by
  have hn : (wordAt (bread (boot start size d) (boot start size d).log.start) 0).toInt32.toInt = k := hc
  refine ⟨_, by simp only [readHead, hn]; rw [if_pos (by exact_mod_cast hk)], rfl, rfl, rfl, rfl, ?_⟩
  intro i hi
  simp [boot, bread, hi]

lemma recover_clean (d : Disk) (h : Clean start size N d) :
    ∃ m, recover start size d = some m ∧ Clean start size N m.disk ∧
      ∀ d' ∈ m.trail, Clean start size N d' := by
  obtain ⟨m, hr, hd, ht, hst, hn, -⟩ := readHead_boot size d 0
    (by unfold LOGSIZE; omega) h.count
  have hi : installTrans m = m := by simp [installTrans, hn, installUpto]
  have hhead := writeHead_header (clearCount m) 0 rfl (by unfold LOGSIZE; omega)
  have hstart : (clearCount m).log.start = start := hst
  have hclean : Clean start size N (writeHead (clearCount m)).disk := by
    refine ⟨by rw [← hstart]; exact hhead.1, ?_⟩
    intro s hs
    rw [writeHead_other _ _ (by rw [hstart]; exact home_ne_head hs)]
    change m.disk s = N s
    rw [hd, h.home s hs]
  refine ⟨writeHead (clearCount m), by simp [recover, recoverFromLog, hr, hi], hclean, ?_⟩
  intro d' hd'
  rw [writeHead_trail, mem_cons] at hd'
  rcases hd' with rfl | hd'
  · exact hclean
  change d' ∈ m.trail at hd'
  rw [ht, mem_singleton] at hd'
  rw [hd']
  exact h

/-- A committed disk recovers to the new contents, also when the recovery is itself cut
short and run again. -/
lemma recover_committed (d : Disk) {k : Nat} {sec : Nat → UInt32}
    (h : Committed start size N d k sec) :
    ∃ m, recover start size d = some m ∧ Clean start size N m.disk ∧
      ∀ d' ∈ m.trail, Committed start size N d' k sec ∨ Clean start size N d' := by
  obtain ⟨m, hr, hd, ht, hst, hn, hsec⟩ := readHead_boot size d k h.bound.1 h.count
  have hm : Committed start size N m.disk k sec := by rw [hd]; exact h
  obtain ⟨hclean, htrail⟩ := install_erase m hm hst hn (fun i hi => by rw [hsec i hi, h.heads i hi])
  refine ⟨_, by simp only [recover, recoverFromLog, hr]; rfl, hclean, ?_⟩
  intro d' hd'
  rcases htrail d' hd' with hd' | hd'
  · rw [ht, mem_singleton] at hd'
    rw [hd']
    exact .inl h
  · exact hd'

/-- A disk whose recovery, however often it is interrupted, yields `N` at the home
sectors. -/
def Recoverable (start size : Nat) (N d : Disk) : Prop :=
  Clean start size N d ∨ ∃ k sec, Committed start size N d k sec

/-- The machine stops on disk `d'` during a recovery that started on disk `d`. -/
def StopsInRecovery (start size : Nat) (d d' : Disk) : Prop :=
  ∃ m, recover start size d = some m ∧ d' ∈ m.trail

lemma recoverable_recover {d : Disk} (h : Recoverable start size N d) :
    ∃ m, recover start size d = some m ∧ Clean start size N m.disk ∧
      ∀ d' ∈ m.trail, Recoverable start size N d' := by
  rcases h with h | ⟨k, sec, h⟩
  · obtain ⟨m, hr, hclean, htrail⟩ := recover_clean d h
    exact ⟨m, hr, hclean, fun d' hd' => .inl (htrail d' hd')⟩
  · obtain ⟨m, hr, hclean, htrail⟩ := recover_committed d h
    exact ⟨m, hr, hclean, fun d' hd' => (htrail d' hd').symm.imp_right (fun hc => ⟨k, sec, hc⟩)⟩

lemma recoverable_stops {d d' : Disk} (h : Recoverable start size N d)
    (hstop : Relation.ReflTransGen (StopsInRecovery start size) d d') :
    Recoverable start size N d' := by
  induction hstop with
  | refl => exact h
  | tail _ hlast ih =>
    obtain ⟨m, hr, hmem⟩ := hlast
    obtain ⟨m', hr', -, htrail⟩ := recoverable_recover ih
    rw [hr] at hr'
    cases hr'
    exact htrail _ hmem

end Recovery

/-! ### The transaction -/

structure Open (start size : Nat) (d₀ : Disk) (ws : List (UInt32 × Block)) (m : Machine) (k : Nat) :
    Prop where
  place : m.log.start = start ∧ m.log.size = size
  busy : m.log.busy = true
  count : m.log.lh.n = k
  old : Clean start size d₀ m.disk
  distinct : ∀ i j, i < k → j < k → m.log.lh.sector i = m.log.lh.sector j → i = j
  bound : k ≤ LOGSIZE ∧ (0 < k → k < size)
  target : ∀ i, i < k → Home start size (m.log.lh.sector i).toNat
  block : ∀ i, i < k → m.disk (start + i + 1) = written d₀ ws (m.log.lh.sector i).toNat
  rest : ∀ s, (∀ i, i < k → (m.log.lh.sector i).toNat ≠ s) → written d₀ ws s = d₀ s

lemma written_append (d : Disk) (ws : List (UInt32 × Block)) (sector : UInt32) (data : Block) :
    written d (ws ++ [(sector, data)]) = Function.update (written d ws) sector.toNat data := by
  induction ws generalizing d with
  | nil => rfl
  | cons w ws ih => rw [cons_append, written, written, ih]

lemma absorbIndex_cases (lh : Header) (k : Nat) (hn : lh.n = k) (sector : UInt32) :
    (absorbIndex lh sector < k ∧ lh.sector (absorbIndex lh sector) = sector) ∨
      (absorbIndex lh sector = k ∧ ∀ i, i < k → lh.sector i ≠ sector) := by
  unfold absorbIndex
  rw [hn, Int.toNat_natCast]
  cases h : (List.range k).find? (fun i => lh.sector i == sector) with
  | none =>
    refine .inr ⟨rfl, ?_⟩
    intro i hi he
    have := List.find?_eq_none.mp h i (mem_range.mpr hi)
    simp [he] at this
  | some i =>
    have hm := List.mem_of_find?_eq_some h
    have hp := List.find?_some h
    exact .inl ⟨mem_range.mp hm, by simpa using hp⟩

section Transaction

variable {start size : Nat} {d₀ : Disk} {ws : List (UInt32 × Block)} {m m' : Machine} {k : Nat}

lemma logWrite_eq {sector : UInt32} {data : Block} (hn : m.log.lh.n = k)
    (hr : logWrite m sector data = some m') :
    k < LOGSIZE ∧ k + 1 < m.log.size ∧
      m'.log = { m.log with lh :=
        { n := if absorbIndex m.log.lh sector = k then k + 1 else k,
          sector := Function.update m.log.lh.sector (absorbIndex m.log.lh sector) sector } } ∧
      m'.disk = Function.update m.disk (m.log.start + absorbIndex m.log.lh sector + 1) data ∧
      m'.trail = m'.disk :: m.trail := by
  unfold logWrite at hr
  split at hr
  · cases hr
  rename_i hfull
  split at hr
  · cases hr
  rw [hn] at hfull
  refine ⟨by omega, by omega, ?_⟩
  cases hr
  by_cases hi : absorbIndex m.log.lh sector = k
  · simp [bwrite, hn, hi]
  · have hi' : ¬((absorbIndex m.log.lh sector : Nat) : Int) = k := by exact_mod_cast hi
    simp [bwrite, hn, hi]

lemma clean_log_block {N d : Disk} {i : Nat} {data : Block} (h : Clean start size N d)
    (hi : i + 1 < size) : Clean start size N (Function.update d (start + i + 1) data) := by
  refine ⟨?_, ?_⟩
  · unfold headCount
    rw [update_of_ne (by omega)]
    exact h.count
  intro s hs
  have hne : s ≠ start + (i + 1) := home_ne_log hs hi
  rw [← Nat.add_assoc] at hne
  rw [update_of_ne hne, h.home s hs]

lemma logWrite_open {sector : UInt32} {data : Block} (h : Open start size d₀ ws m k)
    (hhome : Home start size sector.toNat) (hr : logWrite m sector data = some m') :
    ∃ k', Open start size d₀ (ws ++ [(sector, data)]) m' k' := by
  obtain ⟨hk, hks, hlog, hdisk, -⟩ := logWrite_eq h.count hr
  obtain ⟨hst, hsz⟩ := h.place
  rw [hsz] at hks
  rw [hst] at hdisk
  rcases absorbIndex_cases m.log.lh k h.count sector with ⟨hi, hsame⟩ | ⟨hi, hnew⟩
  · -- absorbed: the slot keeps its sector and gets the new block
    generalize absorbIndex m.log.lh sector = i at *
    have hsec : m'.log.lh.sector = m.log.lh.sector := by
      rw [hlog, ← hsame]
      exact update_eq_self _ _
    have hold : Clean start size d₀ m'.disk := by
      rw [hdisk]
      exact clean_log_block h.old (by omega)
    refine ⟨k, ⟨by rw [hlog]; exact h.place, by rw [hlog]; exact h.busy, ?_, hold, ?_, h.bound, ?_, ?_, ?_⟩⟩
    · rw [hlog]
      simp [show i ≠ k by omega]
    · rw [hsec]
      exact h.distinct
    · rw [hsec]
      exact h.target
    · intro j hj
      rw [hsec, written_append, hdisk]
      by_cases hji : j = i
      · subst hji
        rw [hsame, update_self, update_self]
      have hne : (m.log.lh.sector j).toNat ≠ sector.toNat := by
        intro he
        exact hji (h.distinct j i hj hi ((UInt32.toNat_inj.mp he).trans hsame.symm))
      rw [update_of_ne (by omega), update_of_ne hne, h.block j hj]
    · intro s hs
      rw [hsec] at hs
      have hne : s ≠ sector.toNat := by
        rw [← hsame]
        exact (hs i hi).symm
      rw [written_append, update_of_ne hne, h.rest s hs]
  · -- appended: a fresh slot at the end
    rw [hi] at hlog hdisk
    have hsec : ∀ j, j < k → m'.log.lh.sector j = m.log.lh.sector j := by
      intro j hj
      rw [hlog]
      exact update_of_ne (by omega) _ _
    have hlast : m'.log.lh.sector k = sector := by
      rw [hlog]
      exact update_self _ _ _
    have hold : Clean start size d₀ m'.disk := by
      rw [hdisk]
      exact clean_log_block h.old (by omega)
    refine ⟨k + 1, ⟨by rw [hlog]; exact h.place, by rw [hlog]; exact h.busy, ?_, hold, ?_,
      ⟨by omega, fun _ => by omega⟩, ?_, ?_, ?_⟩⟩
    · rw [hlog]
      simp
    · intro a b ha hb hab
      rcases Nat.lt_succ_iff_lt_or_eq.mp ha with ha | rfl <;>
        rcases Nat.lt_succ_iff_lt_or_eq.mp hb with hb | rfl
      · rw [hsec a ha, hsec b hb] at hab
        exact h.distinct a b ha hb hab
      · rw [hsec a ha, hlast] at hab
        exact absurd hab (hnew a ha)
      · rw [hsec b hb, hlast] at hab
        exact absurd hab.symm (hnew b hb)
      · rfl
    · intro j hj
      rcases Nat.lt_succ_iff_lt_or_eq.mp hj with hj | rfl
      · rw [hsec j hj]
        exact h.target j hj
      · rw [hlast]
        exact hhome
    · intro j hj
      rw [written_append, hdisk]
      rcases Nat.lt_succ_iff_lt_or_eq.mp hj with hj | rfl
      · have hne : (m.log.lh.sector j).toNat ≠ sector.toNat :=
          fun he => hnew j hj (UInt32.toNat_inj.mp he)
        rw [hsec j hj, update_of_ne (by omega), update_of_ne hne, h.block j hj]
      · rw [hlast, update_self, update_self]
    · intro s hs
      have hne : s ≠ sector.toNat := by
        rw [← hlast]
        exact (hs k (by omega)).symm
      rw [written_append, update_of_ne hne]
      apply h.rest s
      intro j hj
      rw [← hsec j hj]
      exact hs j (by omega)

lemma logWrites_open (ws' : List (UInt32 × Block)) (h : Open start size d₀ ws m k)
    (hhome : ∀ w ∈ ws', Home start size w.1.toNat) (hr : logWrites m ws' = some m') :
    (∃ k', Open start size d₀ (ws ++ ws') m' k') ∧
      ∀ d ∈ m'.trail, d ∈ m.trail ∨ Clean start size d₀ d := by
  induction ws' generalizing ws m k with
  | nil =>
    cases hr
    exact ⟨⟨k, by rw [append_nil]; exact h⟩, fun d hd => .inl hd⟩
  | cons w ws' ih =>
    obtain ⟨sector, data⟩ := w
    obtain ⟨m₁, hw, hrest⟩ := Option.bind_eq_some_iff.mp hr
    obtain ⟨k₁, h₁⟩ := logWrite_open h (hhome _ mem_cons_self) hw
    obtain ⟨-, -, -, -, htr⟩ := logWrite_eq h.count hw
    obtain ⟨hopen, htrail⟩ := ih h₁ (fun w hw => hhome w (mem_cons_of_mem _ hw)) hrest
    refine ⟨by simpa using hopen, ?_⟩
    intro d hd
    rcases htrail d hd with hd | hd
    · rw [htr, mem_cons] at hd
      rcases hd with rfl | hd
      · exact .inr h₁.old
      · exact .inl hd
    · exact .inr hd

lemma writeHead_commits (h : Open start size d₀ ws m k) (hk : 0 < k) :
    Committed start size (written d₀ ws) (writeHead m).disk k m.log.lh.sector := by
  obtain ⟨hst, -⟩ := h.place
  have hsize := h.bound.2 hk
  obtain ⟨hcount, hheads⟩ := writeHead_header m k h.count h.bound.1
  rw [hst] at hcount hheads
  refine ⟨⟨⟨h.bound.1, hsize⟩, h.target, ?_, ?_⟩, hcount, hheads⟩
  · intro i hi
    rw [writeHead_other m _ (by rw [hst]; omega), h.block i hi]
  intro s hs hne
  have hss : s ≠ m.log.start := by
    rw [hst]
    exact home_ne_head hs
  rw [writeHead_other m s hss, h.old.home s hs, h.rest s hne]

lemma commitTrans_run (h : Open start size d₀ ws m k) :
    Clean start size (written d₀ ws) (commitTrans m).disk ∧
      ∀ d ∈ (commitTrans m).trail, d ∈ m.trail ∨ Recoverable start size (written d₀ ws) d := by
  by_cases hk : 0 < k
  · have hc := writeHead_commits h hk
    obtain ⟨hclean, htrail⟩ := install_erase (writeHead m) hc h.place.1 h.count (fun i _ => rfl)
    have hcm : commitTrans m = { writeHead (clearCount (installTrans (writeHead m))) with
        log := { (writeHead (clearCount (installTrans (writeHead m)))).log with busy := false } } := by
      simp [commitTrans, h.count, hk]
    rw [hcm]
    refine ⟨hclean, ?_⟩
    intro d hd
    rcases htrail d hd with hd | hd | hd
    · rw [writeHead_trail, mem_cons] at hd
      rcases hd with rfl | hd
      · exact .inr (.inr ⟨k, _, hc⟩)
      · exact .inl hd
    · exact .inr (.inr ⟨k, _, hd⟩)
    · exact .inr (.inl hd)
  · have hk0 : k = 0 := by omega
    subst hk0
    have hcm : commitTrans m = { m with log := { m.log with busy := false } } := by
      simp [commitTrans, h.count]
    rw [hcm]
    refine ⟨⟨h.old.count, ?_⟩, fun d hd => .inl hd⟩
    intro s hs
    rw [h.rest s (fun i hi => absurd hi (by omega))]
    exact h.old.home s hs

end Transaction

/-- Every stop of a transaction on an idle log leaves a disk that recovers either to the
old contents or to the new ones, and a transaction that returned is durable. -/
lemma transaction_recoverable (m₀ m : Machine) (ws : List (UInt32 × Block)) (hidle : Idle m₀)
    (htrail : m₀.trail = [m₀.disk])
    (hhome : ∀ w ∈ ws, Home m₀.log.start m₀.log.size w.1.toNat)
    (hrun : transaction m₀ ws = some m) :
    Clean m₀.log.start m₀.log.size (written m₀.disk ws) m.disk ∧
      ∀ d ∈ m.trail, Recoverable m₀.log.start m₀.log.size m₀.disk d ∨
        Recoverable m₀.log.start m₀.log.size (written m₀.disk ws) d := by
  obtain ⟨m₁, hbegin, hrest⟩ := Option.bind_eq_some_iff.mp hrun
  obtain ⟨m₂, hwrites, hcommit⟩ := Option.bind_eq_some_iff.mp hrest
  simp only [beginTrans, hidle.free] at hbegin
  cases hbegin
  cases hcommit
  have hclean : Clean m₀.log.start m₀.log.size m₀.disk m₀.disk := ⟨hidle.head, fun s _ => rfl⟩
  have hopen : Open m₀.log.start m₀.log.size m₀.disk []
      { m₀ with log := { m₀.log with busy := true } } 0 :=
    ⟨⟨rfl, rfl⟩, rfl, hidle.count, hclean, fun i j hi => absurd hi (by omega),
      ⟨by omega, fun h => absurd h (by omega)⟩, fun i hi => absurd hi (by omega),
      fun i hi => absurd hi (by omega), fun s _ => rfl⟩
  obtain ⟨⟨k, h₂⟩, htrail₂⟩ := logWrites_open ws hopen hhome hwrites
  obtain ⟨hnew, htrail₃⟩ := commitTrans_run h₂
  refine ⟨hnew, ?_⟩
  intro d hd
  rcases htrail₃ d hd with hd | hd
  · rcases htrail₂ d hd with hd | hd
    · change d ∈ m₀.trail at hd
      rw [htrail, mem_singleton] at hd
      rw [hd]
      exact .inl (.inl hclean)
    · exact .inl (.inl hd)
  · exact .inr hd

/-- The machine stops at any sector write of a transaction and then during any number of recoveries; the
recovery that completes leaves the home sectors all old or all new and an empty log. -/
theorem crash_atomicity (m₀ m : Machine) (ws : List (UInt32 × Block)) (hidle : Idle m₀)
    (htrail : m₀.trail = [m₀.disk])
    (hhome : ∀ w ∈ ws, Home m₀.log.start m₀.log.size w.1.toNat)
    (hrun : transaction m₀ ws = some m) (d d' : Disk) (hd : d = m.disk ∨ d ∈ m.trail)
    (hstop : Relation.ReflTransGen (StopsInRecovery m₀.log.start m₀.log.size) d d') :
    ∃ r, recover m₀.log.start m₀.log.size d' = some r ∧
      headCount m₀.log.start r.disk = 0 ∧
      ((∀ s, Home m₀.log.start m₀.log.size s → r.disk s = m₀.disk s) ∨
        ∀ s, Home m₀.log.start m₀.log.size s → r.disk s = written m₀.disk ws s) ∧
      (d = m.disk → ∀ s, Home m₀.log.start m₀.log.size s → r.disk s = written m₀.disk ws s) := by
  obtain ⟨hnew, hpoints⟩ := transaction_recoverable m₀ m ws hidle htrail hhome hrun
  have hfinal : ∀ N, Recoverable m₀.log.start m₀.log.size N d →
      ∃ r, recover m₀.log.start m₀.log.size d' = some r ∧ Clean m₀.log.start m₀.log.size N r.disk := by
    intro N h
    obtain ⟨r, hr, hclean, -⟩ := recoverable_recover (recoverable_stops h hstop)
    exact ⟨r, hr, hclean⟩
  by_cases hdone : d = m.disk
  · obtain ⟨r, hr, hclean⟩ := hfinal _ (.inl (hdone ▸ hnew))
    exact ⟨r, hr, hclean.count, .inr hclean.home, fun _ => hclean.home⟩
  rcases hpoints d (hd.resolve_left hdone) with h | h
  · obtain ⟨r, hr, hclean⟩ := hfinal _ h
    exact ⟨r, hr, hclean.count, .inl hclean.home, fun he => absurd he hdone⟩
  · obtain ⟨r, hr, hclean⟩ := hfinal _ h
    exact ⟨r, hr, hclean.count, .inr hclean.home, fun he => absurd he hdone⟩

theorem crash_atomicity_absorbed_sector :
    ∃ m r, transaction (boot 100 4 (fun _ => 0)) [(5, 1), (7, 2), (5, 3)] =
      some m ∧ recover 100 4 m.disk = some r ∧ r.disk 5 = 3 ∧ r.disk 7 = 2 := by
  have hrun : (transaction (boot 100 4 (fun _ => 0))
      [(5, 1), (7, 2), (5, 3)]).isSome := by decide
  obtain ⟨m, hm⟩ := Option.isSome_iff_exists.mp hrun
  have hhome : ∀ w ∈ ([(5, 1), (7, 2), (5, 3)] : List (UInt32 × Block)),
      Home 100 4 w.1.toNat := by
    intro w hw
    simp only [mem_cons, not_mem_nil, or_false] at hw
    rcases hw with rfl | rfl | rfl <;> exact ⟨by decide, .inl (by decide)⟩
  obtain ⟨r, hr, -, -, hnew⟩ := crash_atomicity (boot 100 4 (fun _ => 0)) m _ ⟨rfl, rfl, by decide +kernel⟩ rfl
    hhome hm m.disk m.disk (.inl rfl) .refl
  refine ⟨m, r, hm, hr, ?_, ?_⟩
  · exact hnew rfl 5 (by unfold Home; decide)
  · exact hnew rfl 7 (by unfold Home; decide)

end Xv6.Log
