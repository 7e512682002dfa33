import Xv6.Proofs.SharedDescriptors

/-! # A file is a byte array -/

namespace Xv6.Fs

open Bytes Threads

variable {L : Superblock} {lim : Nat} {own : Owners} {d d' : Disk} {s : Store} {i : Nat} {ip r : Dinode} {ind : Bool}

/-- Inode `i` with the record `r` is a file or directory without holes, in blocks of its own. -/
def Solid (own : Owners) (d : Disk) (i : Nat) (r : Dinode) : Prop :=
  (r.type = T_FILE ∨ r.type = T_DIR) ∧ ∃ l nb ind, FileAt own d i r l nb ind ∧ r.size.toNat ≤ l.length

def Outside (ip : Dinode) (off n : Nat) : Prop := ip.size.toNat < off ∨ 2 ^ 32 ≤ off + n

/-- The number of blocks that a write of `n` bytes at `off` allocates: those blocks of the range that the file
lacks, and the indirect block if it is needed and not there. -/
def lacking (d : Disk) (r : Dinode) (off n : Nat) : Nat :=
  (List.range' (off / BSIZE) (blocksOf off n)).countP (fun bn => blockOf d r bn = 0) +
    if r.addr NDIRECT = 0 ∧ NDIRECT < off / BSIZE + blocksOf off n then 1 else 0

lemma Solid.congr {own' : Owners} {j : Nat} (h : Solid own d j r) (hd : ∀ b k, own b = some (j, k) → d' b = d b)
    (ho : ∀ b k, own b = some (j, k) → own' b = some (j, k)) : Solid own' d' j r ∧ contentOf d' r = contentOf d r := by
  obtain ⟨ht, l, nb, ind, hf, hn⟩ := h
  have hf' := hf.congr hd ho
  exact ⟨⟨ht, l, nb, ind, hf', hn⟩, (hf'.contentOf_eq hn).trans (hf.contentOf_eq hn).symm⟩

lemma FileAt.countP_lacking {l : List UInt8} {nb bn k : Nat} (h : FileAt own d i r l nb ind) (hbn : bn ≤ nb)
    (hk : bn + k ≤ MAXFILE) : (List.range' bn k).countP (fun bn => blockOf d r bn = 0) = bn + k - nb := by
  induction k with
  | zero =>
    change 0 = _
    omega
  | succ k ih =>
    have hlast : blockOf d r (bn + k) = 0 ↔ nb ≤ bn + k := by
      rw [← not_lt, ← h.blocks (bn + k) (by omega), not_not]
    rw [List.range'_concat, List.countP_append, ih (by omega), List.countP_singleton, Nat.one_mul]
    simp only [hlast, decide_eq_true_eq]
    split <;> omega

lemma FileAt.lacking_eq {l : List UInt8} {nb off n : Nat} (h : FileAt own d i r l nb ind) (hoff : off ≤ l.length)
    (hmax : off + n ≤ MAXFILE * BSIZE) : lacking d r off n = newBlocks nb ind (off / BSIZE + blocksOf off n) := by
  have hbn := h.div_le hoff
  have hend : off / BSIZE + blocksOf off n ≤ MAXFILE := by
    by_cases hn : n = 0
    · have := h.le
      rw [blocksOf, if_pos hn]
      omega
    · exact endBlock_le hmax hn
  have hind : r.addr NDIRECT = 0 ↔ ind = false := by
    rw [← Bool.not_eq_true, ← h.indirect, not_not]
  rw [lacking, newBlocks, h.countP_lacking hbn hend]
  congr 1
  -- Without an indirect block the file is not longer than its direct blocks.
  have hfar : ind = false → nb ≤ NDIRECT := by
    intro hno
    by_contra hlt
    rw [h.far (by omega)] at hno
    cases hno
  refine if_congr ⟨fun hc => ⟨hind.mp hc.1, hc.2, ?_⟩, fun hc => ⟨hind.mpr hc.1, hc.2.1⟩⟩ rfl rfl
  have := hfar (hind.mp hc.1)
  omega

lemma writei_refused {off : Nat} {src : List UInt8} (hoff : off < 2 ^ 32) (hn : src.length < 2 ^ 32)
    (h : Outside ip off src.length ∨ MAXFILE * BSIZE < off + src.length) :
    writei i ip off src s = .ok (none, ip) s := by
  unfold writei
  by_cases hout : ip.size.toNat < off ∨ (off + src.length) % 2 ^ 32 < off
  · rw [if_pos hout]
    rfl
  have hlt : off + src.length < 2 ^ 32 := by omega
  rw [if_neg hout, Nat.mod_eq_of_lt hlt, if_pos]
  · rfl
  · rcases h with (h | h) | h <;> omega

lemma readi_refused {off n : Nat} (hoff : off < 2 ^ 32) (hn : n < 2 ^ 32) (h : Outside ip off n) :
    readi ip off n s = .ok (none, ip) s := by
  unfold readi
  rw [if_pos]
  · rfl
  · rcases h with h | h <;> omega

lemma Solid.readi {off n : Nat} (h : Solid own s.disk i ip) (hin : ¬Outside ip off n) :
    readi ip off n s = .ok (some (((contentOf s.disk ip).drop off).take n), ip) s := by
  obtain ⟨-, l, nb, ind, hf, hsize⟩ := h
  have hfits := hf.fits
  have hmax : nb * BSIZE ≤ MAXFILE * BSIZE := Nat.mul_le_mul_right _ hf.le
  unfold Outside at hin
  have hcount : off + readCount ip off n ≤ ip.size.toNat := by
    unfold readCount
    omega
  rw [readi_backed (by omega) (by omega) (by omega) (hf.backed (by omega))]
  congr 3
  rw [contentOf, show ip.size.toNat = off + (ip.size.toNat - off) by omega, slice_append, Nat.zero_add,
    List.drop_left' (length_slice _ _ _)]
  unfold readCount
  rcases Nat.le_total n (ip.size.toNat - off) with hle | hle
  · rw [Nat.min_eq_left hle, show ip.size.toNat - off = n + (ip.size.toNat - off - n) by omega, slice_append,
      List.take_left' (length_slice _ _ _)]
  · rw [Nat.min_eq_right hle, List.take_of_length_le (by rw [length_slice]; exact hle)]

/-- For a file without holes in a consistent file system, `writei` and `readi` overwrite and return the bytes of an
array, and leave all other files as they are. A write needs room in the log for the blocks that it logs. -/
theorem file_is_byte_array {off n : Nat} {src : List UInt8} (h : Placed L lim own s.disk) (hi : i < L.ninodes)
    (hf : Solid own s.disk i ip) (hoff : off < 2 ^ 32) (hn : n < 2 ^ 32) (hsrc : src.length < 2 ^ 32) :
    (Outside ip off src.length ∨ MAXFILE * BSIZE < off + src.length → writei i ip off src s = .ok (none, ip) s) ∧
    (¬(Outside ip off src.length ∨ MAXFILE * BSIZE < off + src.length) →
      lacking s.disk ip off src.length ≤ freeBelow L lim s.disk →
      (s.log.Fits (writeiWrites L s.disk i ip off src.length) →
        ∃ ip' s' own', writei i ip off src s = .ok (some src.length, ip') s' ∧
          Placed L lim own' s'.disk ∧ Solid own' s'.disk i ip' ∧
          contentOf s'.disk ip' =
            (contentOf s.disk ip).take off ++ src ++ (contentOf s.disk ip).drop (off + src.length) ∧
          (∀ j, j < L.ninodes → j ≠ i → dinode s'.disk j = dinode s.disk j) ∧
          ∀ j r, j ≠ i → Solid own s.disk j r → Solid own' s'.disk j r ∧ contentOf s'.disk r = contentOf s.disk r) ∧
      (¬s.log.Fits (writeiWrites L s.disk i ip off src.length) → s.log.busy ≠ none →
        ∃ s', writei i ip off src s = .error .tooBigTransaction s')) ∧
    (Outside ip off n → readi ip off n s = .ok (none, ip) s) ∧
    (¬Outside ip off n → readi ip off n s = .ok (some (((contentOf s.disk ip).drop off).take n), ip) s ∧
      (((contentOf s.disk ip).drop off).take n).length = min n (ip.size.toNat - off)) := by
  refine ⟨writei_refused hoff hsrc, fun hin hfree => ?_, readi_refused hoff hn, fun hin => ⟨hf.readi hin, ?_⟩⟩
  · obtain ⟨ht, l, nb, ind, hfile, hsize⟩ := hf
    unfold Outside at hin
    rw [hfile.lacking_eq (by omega) (by omega)] at hfree
    have hspec := writei_spec hi h hfile hsize (by omega) (by omega) hfree
    refine ⟨fun hfits => ?_, fun hfits hbusy => ?_⟩
    · obtain ⟨⟨_, ip'⟩, s', hw, ⟨rfl, hsz, htype, -, -, own', hp, hfile', hkeeps, hothers, htable⟩, -⟩ :=
        Ensures.returns hspec fun e he => he.2 hfits
      have hsize' : ip'.size.toNat ≤ (overwrite l off src).length := by
        rw [hsz, length_overwrite _ _ _ (by omega)]
        omega
      refine ⟨ip', s', own', hw, hp, ⟨by rw [htype]; exact ht, _, _, _, hfile', hsize'⟩, ?_, htable, ?_⟩
      · rw [hfile'.contentOf_eq hsize', hsz, take_overwrite l src (by omega) hsize, hfile.contentOf_eq hsize]
        rfl
      · intro j r hj hr
        exact hr.congr (fun b k hb => hothers b j k hj hb) fun b k hb => hkeeps b _ hb
    · cases hw : writei i ip off src s with
      | ok r s' => exact absurd (hspec.of_ok r s' hw).2.fits hfits
      | error e s' => exact ⟨s', by rw [(hspec.of_error e s' hw).1 hbusy]⟩
  · rw [List.length_take, List.length_drop, contentOf, length_slice]

def smallStore (size : Nat) : Store :=
  { (Writers.smallState size).kernel.store with
    log := { (Writers.smallState size).kernel.store.log with busy := some 1 } }

def emptyFile : Dinode := { Dinode.zero with type := T_FILE, nlink := 1 }

lemma smallStore_solid (size : Nat) : Solid Writers.smallOwners (smallStore size).disk 2 emptyFile :=
  ⟨.inl rfl, [], 0, false, .empty _ _ _ fun k => by simp [emptyFile, Dinode.addr, Dinode.zero], Nat.zero_le _⟩

/-- The most that one transaction takes: seven blocks, the bitmap block and that of the inode. -/
theorem file_is_byte_array_of_empty :
    ∃ ip' s', writei 2 emptyFile 0 (List.replicate 3584 7) (smallStore 32) = .ok (some 3584, ip') s' ∧
      contentOf s'.disk ip' = List.replicate 3584 7 := by
  have hplaced : Placed (superblock (Writers.smallDisk 32)) _ _ (smallStore 32).disk :=
    (Writers.smallState_ready (.inr (.inl rfl))).placed
  have hlen : (List.replicate 3584 (7 : UInt8)).length = 3584 := List.length_replicate
  obtain ⟨-, hwrite, -, -⟩ := file_is_byte_array hplaced (by decide +kernel) (smallStore_solid 32)
    (show 0 < 2 ^ 32 by decide) (show 0 < 2 ^ 32 by decide)
    (show (List.replicate 3584 (7 : UInt8)).length < 2 ^ 32 by rw [hlen]; decide)
  rw [hlen] at hwrite
  obtain ⟨hreturns, -⟩ := hwrite (by unfold Outside; decide) (by decide +kernel)
  obtain ⟨ip', s', -, hw, -, -, hc, -, -⟩ := hreturns (by decide +kernel)
  refine ⟨ip', s', hw, hc.trans ?_⟩
  have hempty : contentOf (smallStore 32).disk emptyFile = [] := rfl
  rw [hempty, List.take_nil, List.drop_nil, List.nil_append, List.append_nil]

/-- Nine blocks in one transaction: there are enough free blocks, but the data and the bitmap block do
not fit the log. -/
theorem long_write_too_big : Placed (superblock (Writers.smallDisk 32)) 22 Writers.smallOwners (smallStore 32).disk ∧
    Solid Writers.smallOwners (smallStore 32).disk 2 emptyFile ∧
    lacking (smallStore 32).disk emptyFile 0 4608 ≤
      freeBelow (superblock (Writers.smallDisk 32)) 22 (smallStore 32).disk ∧
    (match writei 2 emptyFile 0 (List.replicate 4608 7) (smallStore 32) with
      | .ok _ _ => none
      | .error e _ => some e) = some .tooBigTransaction := by
  refine ⟨(Writers.smallState_ready (.inr (.inl rfl))).placed, smallStore_solid 32, by decide +kernel, ?_⟩
  decide +kernel

end Xv6.Fs
