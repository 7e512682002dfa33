import Xv6.Proofs.Blocks
import Xv6.Directory

/-! # Blocks and the inode table -/

namespace Xv6.Fs

open Bytes

/-- The block that `balloc` returns on disk `d`: the first one whose bit is clear, which is
not one of the blocks before the data blocks. -/
structure FirstFree (L : Superblock) (d : Disk) (b : Nat) : Prop where
  start : dataStart L ≤ b
  lt : b < L.size
  free : inUse d L.ninodes b = false
  least : ∀ c, c < b → inUse d L.ninodes c = true

variable {L : Superblock} {own own' : Owners} {R : Records} {s s' s'' : Store} {d : Disk} {t : Table Block} {b : Nat}

/-! ## Single blocks -/

variable {α : Type} {Q : α → Store → Prop} {E : Panic → Prop}

lemma bread_run (b : Nat) : bread b s = .ok (s.disk b) s := rfl

lemma bread_bind {b : Nat} {f : Block → FsM α} (h : Ensures (f (s.disk b)) s Q E) :
    Ensures (bread b >>= f) s Q E :=
  ⟨h.of_ok, h.of_error⟩

lemma readsb_bind {f : Superblock → FsM α} (h : Ensures (f (superblock s.disk)) s Q E) :
    Ensures (readsb >>= f) s Q E :=
  ⟨h.of_ok, h.of_error⟩

lemma logWrite_spec (b : Nat) (data : Block) :
    Ensures (logWrite b data) s (fun _ s' => s'.disk = s.disk.set b data) fun _ => True :=
  .get_bind (.ite (fun _ => .throw trivial) fun _ => .ite (fun _ => .throw trivial) fun _ => .set rfl)

/-! ## The allocator -/

lemma freeBit_some {data : Block} {b size : Nat} (n bi k : Nat)
    (h : freeBit data b size n bi = some k) :
    bi ≤ k ∧ k < BPB ∧ b + k < size ∧ bitAt data.byteAt k = false ∧
      ∀ j, bi ≤ j → j < k → bitAt data.byteAt j = true := by
  induction n generalizing bi with
  | zero => cases h
  | succ n ih =>
    rw [freeBit] at h
    by_cases hlt : bi < BPB ∧ b + bi < size
    · rw [if_pos hlt] at h
      cases hbit : bitAt data.byteAt bi with
      | false =>
        rw [hbit] at h
        cases h
        exact ⟨le_rfl, hlt.1, hlt.2, hbit, fun j h1 h2 => by omega⟩
      | true =>
        rw [hbit] at h
        obtain ⟨h1, h2, h3, h4, h5⟩ := ih (bi + 1) h
        refine ⟨by omega, h2, h3, h4, fun j hj hjk => ?_⟩
        by_cases hj' : j = bi
        · rw [hj', hbit]
        · exact h5 j (by omega) hjk
    · rw [if_neg hlt] at h
      cases h

lemma freeBit_none {data : Block} {b size : Nat} (n bi : Nat) (hn : BPB ≤ bi + n)
    (h : freeBit data b size n bi = none) (j : Nat) (hj : bi ≤ j) (hjB : j < BPB)
    (hjs : b + j < size) : bitAt data.byteAt j = true := by
  induction n generalizing bi with
  | zero => omega
  | succ n ih =>
    rw [freeBit, if_pos ⟨by omega, by omega⟩] at h
    cases hbit : bitAt data.byteAt bi with
    | false =>
      rw [hbit] at h
      cases h
    | true =>
      rw [hbit] at h
      by_cases hj' : j = bi
      · rw [hj', hbit]
      · exact ih (bi + 1) (by omega) h (by omega)

lemma bblock_add {b bi : Nat} (hb : b % BPB = 0) (hbi : bi < BPB) (n : Nat) :
    bblock (b + bi) n = bblock b n ∧ (b + bi) % BPB = bi := by
  unfold bblock BPB BSIZE at *
  constructor <;> omega

lemma ballocFrom_spec (hres : ∀ c, c < dataStart L → inUse s.disk L.ninodes c = true)
    (n b : Nat) (hb : b % BPB = 0)
    (hpre : ∀ c, c < b → c < L.size → inUse s.disk L.ninodes c = true) :
    Ensures (ballocFrom L n b) s
      (fun r s' => FirstFree L s.disk r ∧ s'.disk = Core.allocated s.disk L.ninodes r) fun _ => True := by
  induction n generalizing b with
  | zero => exact .throw trivial
  | succ n ih =>
    rw [ballocFrom]
    refine .ite (fun hlt => ?_) fun _ => .throw trivial
    apply bread_bind
    cases hfree : freeBit (s.disk (bblock b L.ninodes)) b L.size BPB 0 with
    | none =>
      refine ih (b + BPB) (by simp [hb]) fun c hc hcs => ?_
      by_cases hcb : c < b
      · exact hpre c hcb hcs
      obtain ⟨hblk, hmod⟩ := bblock_add hb (show c - b < BPB by omega) L.ninodes
      rw [show b + (c - b) = c by omega] at hblk hmod
      rw [inUse, hblk, hmod]
      exact freeBit_none BPB 0 (by omega) hfree (c - b) (by omega) (by omega) (by omega)
    | some bi =>
      obtain ⟨-, hbi, hbs, hclear, hset⟩ := freeBit_some _ _ _ hfree
      obtain ⟨hblk, hmod⟩ := bblock_add hb hbi L.ninodes
      have hff : FirstFree L s.disk (b + bi) := by
        have hfr : inUse s.disk L.ninodes (b + bi) = false := by rw [inUse, hblk, hmod, hclear]
        refine ⟨?_, hbs, hfr, fun c hc => ?_⟩
        · by_contra hlt'
          simp [hres (b + bi) (by omega)] at hfr
        by_cases hcb : c < b
        · exact hpre c hcb (by omega)
        obtain ⟨hblk', hmod'⟩ := bblock_add hb (show c - b < BPB by omega) L.ninodes
        rw [show b + (c - b) = c by omega] at hblk' hmod'
        rw [inUse, hblk', hmod']
        exact hset (c - b) (by omega) (by omega)
      refine (logWrite_spec _ _).bind fun _ s₁ hd₁ => ?_
      refine Ensures.bind (logWrite_spec (b + bi) 0) fun _ s₂ hd₂ => ?_
      refine .pure ⟨hff, ?_⟩
      rw [hd₂, hd₁, Core.allocated, hblk, hmod]

lemma balloc_spec (h : Core L own R s.disk) :
    Ensures balloc s
      (fun b s' => FirstFree L s.disk b ∧ s'.disk = Core.allocated s.disk L.ninodes b) fun _ => True := by
  unfold balloc
  apply Ensures.get_bind
  apply readsb_bind
  rw [h.super]
  refine (ballocFrom_spec h.reserved _ 0 (by decide) (fun c hc => by omega)).bind ?_
  rintro b s₁ ⟨hff, hd⟩
  refine Ensures.bind (.update (Q := fun _ s' => s' = { s₁ with allocs := (s.disk, b) :: s₁.allocs }) rfl) ?_
  rintro _ _ rfl
  exact .pure ⟨hff, hd⟩

lemma FirstFree.lt_two_pow (h : FirstFree L d b) (hL : L.size < 2 ^ 31) : b < 2 ^ 32 := by
  have := h.lt
  omega

lemma FirstFree.ne_zero (h : FirstFree L d b) : b ≠ 0 := by
  have h1 := h.start
  have h2 := one_lt_dataStart (L := L)
  omega

lemma Core.allocated_owned {x : Nat × Nat} {c : Nat} (h : Core L own R t) (hff : FirstFree L t b)
    (hc : own c = some x) : Core.allocated t L.ninodes b c = t c := by
  have hbb := bblock_lt_dataStart (lt_bitCount hff.lt)
  apply Core.allocated_other
  · rintro rfl
    simp [h.free_unowned hff.free] at hc
  · have := (h.area c x hc).1
    omega

end Xv6.Fs
