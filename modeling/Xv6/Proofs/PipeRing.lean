import Mathlib.Algebra.Group.Nat.Defs
import Xv6.Pipe

/-! # The ring of a pipe -/

namespace Xv6.Process

open List

namespace Pipe

variable {x : Pipe}

def unread (x : Pipe) : Nat := (x.nwrite - x.nread).toNat

def ring (x : Pipe) : List UInt8 :=
  (List.range x.unread).map fun k => x.data ((x.nread.toNat + k) % PIPESIZE)

lemma ring_length (x : Pipe) : x.ring.length = x.unread := by simp [ring]

lemma unread_eq (x : Pipe) : x.unread = (2 ^ 32 - x.nread.toNat + x.nwrite.toNat) % 2 ^ 32 :=
  UInt32.toNat_sub _ _

lemma empty_iff : x.empty = true ↔ x.unread = 0 := by
  have hr := x.nread.toNat_lt
  have hw := x.nwrite.toNat_lt
  rw [empty, decide_eq_true_iff, ← UInt32.toNat_inj, unread_eq]
  omega

lemma full_iff : x.full = true ↔ x.unread = PIPESIZE := by
  have hr := x.nread.toNat_lt
  have hw := x.nwrite.toNat_lt
  have hs : (UInt32.ofNat PIPESIZE).toNat = 512 := by decide
  rw [full, decide_eq_true_iff, ← UInt32.toNat_inj, unread_eq, UInt32.toNat_add, hs, PIPESIZE]
  omega

lemma unread_store (b : UInt8) (h : x.unread < PIPESIZE) : (x.store b).unread = x.unread + 1 := by
  have hone : (1 : UInt32).toNat = 1 := rfl
  simp only [unread_eq, PIPESIZE] at h ⊢
  simp only [store, UInt32.toNat_add, hone]
  omega

lemma nwrite_mod (x : Pipe) : x.nwrite.toNat % PIPESIZE = (x.nread.toNat + x.unread) % PIPESIZE := by
  have hr := x.nread.toNat_lt
  rw [unread_eq, PIPESIZE]
  omega

lemma ring_store (b : UInt8) (h : x.unread < PIPESIZE) : (x.store b).ring = x.ring ++ [b] := by
  rw [ring, unread_store b h, range_succ, map_append, ring]
  congr 1
  · refine map_congr_left fun k hk => ?_
    rw [mem_range] at hk
    refine Table.get_set_ne _ _ ?_
    rw [nwrite_mod]
    simp only [store, PIPESIZE] at h ⊢
    omega
  · simp [store, nwrite_mod]

def taken (x : Pipe) : Pipe := { x with nread := x.nread + 1 }

lemma unread_taken (h : x.empty = false) : x.unread = x.taken.unread + 1 := by
  have hr := x.nread.toNat_lt
  have hne : x.unread ≠ 0 := fun h0 => by simp [empty_iff.mpr h0] at h
  have hone : (1 : UInt32).toNat = 1 := rfl
  rw [unread_eq] at hne
  simp only [unread_eq, taken, UInt32.toNat_add, hone]
  omega

lemma ring_taken (h : x.empty = false) :
    x.ring = x.data (x.nread.toNat % PIPESIZE) :: x.taken.ring := by
  have hmod : ∀ k, ((x.nread + 1).toNat + k) % PIPESIZE = (x.nread.toNat + (k + 1)) % PIPESIZE := by
    intro k
    have hone : (1 : UInt32).toNat = 1 := rfl
    rw [UInt32.toNat_add, hone, PIPESIZE]
    omega
  rw [ring, unread_taken h, range_succ_eq_map, map_cons, map_map]
  simp only [ring, taken, hmod]
  rfl

lemma ring_copyOut (k : Nat) (x : Pipe) : x.ring = (x.copyOut k).2 ++ (x.copyOut k).1.ring := by
  induction k generalizing x with
  | zero => rfl
  | succ k ih =>
    rw [copyOut]
    split
    · rfl
    · rename_i he
      rw [ring_taken (by simpa using he), ih x.taken]
      rfl

lemma copyOut_fst (k : Nat) (x : Pipe) : ∃ r, (x.copyOut k).1 = { x with nread := r } := by
  induction k generalizing x with
  | zero => exact ⟨x.nread, rfl⟩
  | succ k ih =>
    rw [copyOut]
    split
    · exact ⟨x.nread, rfl⟩
    · obtain ⟨r, hr⟩ := ih x.taken
      exact ⟨r, hr⟩

lemma copyOut_nil {k : Nat} (hk : 0 < k) (h : (x.copyOut k).2 = []) :
    x.empty = true ∧ (x.copyOut k).1 = x := by
  cases k with
  | zero => omega
  | succ k =>
    rw [copyOut] at h ⊢
    split at h
    · rename_i he
      rw [if_pos he]
      exact ⟨he, rfl⟩
    · cases h

/-- What is stored has been read or is in the ring, and reads got nothing only at the end. -/
structure Lossless (x : Pipe) : Prop where
  bound : x.unread ≤ PIPESIZE
  bytes : x.stored = (x.reads.map Read.bytes).flatten ++ x.ring
  eof : ∀ r ∈ x.reads, r.ret = 0 → 0 < r.n → r.empty = true ∧ r.closed = true

lemma Lossless.store (h : x.Lossless) (b : UInt8) (hf : x.full = false) : (x.store b).Lossless := by
  have hlt : x.unread < PIPESIZE := by
    refine Nat.lt_of_le_of_ne h.bound fun he => ?_
    simp [full_iff.mpr he] at hf
  refine ⟨?_, ?_, h.eof⟩
  · rw [unread_store b hlt]
    omega
  · rw [ring_store b hlt, ← append_assoc]
    exact congrArg (· ++ [b]) h.bytes

lemma read_eq (n : Int32) (x : Pipe) : ∃ r rs, x.read n = { x with nread := r, reads := rs } := by
  obtain ⟨r, hr⟩ := copyOut_fst n.toNatClampNeg x
  refine ⟨r, (x.read n).reads, ?_⟩
  rw [Pipe.read, hr]

lemma read_reads (n : Int32) (x : Pipe) : (x.read n).reads = x.reads ++
    [⟨n, Int32.ofNat (x.out n).length, x.out n, (x.copyOut n.toNatClampNeg).1.empty,
      !(x.copyOut n.toNatClampNeg).1.writeopen⟩] := rfl

lemma ring_read (n : Int32) (x : Pipe) : x.ring = x.out n ++ (x.read n).ring := ring_copyOut _ x

lemma unread_read (n : Int32) (x : Pipe) : x.unread = (x.out n).length + (x.read n).unread := by
  rw [← ring_length, ring_read n x, length_append, ring_length]

lemma Lossless.read (h : x.Lossless) (n : Int32) (hw : x.empty = true → x.writeopen = false) :
    (x.read n).Lossless := by
  obtain ⟨r, rs, hr⟩ := read_eq n x
  have hlen := unread_read n x
  have hb := h.bound
  refine ⟨by omega, ?_, fun e he hret hn => ?_⟩
  · have hst : (x.read n).stored = x.stored := by rw [hr]
    rw [hst, h.bytes, ring_read n x, read_reads]
    simp
  rw [read_reads, mem_append] at he
  rcases he with he | he
  · exact h.eof e he hret hn
  rw [mem_singleton] at he
  subst he
  dsimp only at hret hn
  have hout : x.out n = [] := by
    refine length_eq_zero_iff.mp ?_
    have h0 : (Int32.ofNat (x.out n).length).toInt = 0 := by
      rw [hret]
      rfl
    rw [Int32.toInt_ofNat_of_lt (by rw [PIPESIZE] at hb; omega)] at h0
    exact_mod_cast h0
  have hpos : 0 < n.toNatClampNeg := by
    have h1 : (0 : Int) < n.toInt := Int32.lt_iff_toInt_lt.mp hn
    rw [← Int32.toNat_toInt]
    omega
  obtain ⟨hemp, hsame⟩ := copyOut_nil hpos hout
  rw [hsame]
  exact ⟨hemp, by simp [hw hemp]⟩

end Pipe

end Xv6.Process
