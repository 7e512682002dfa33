import Xv6.Inode
import Mathlib.Tactic.FinCases

/-! # Reading back the on-disk structures -/

namespace Xv6.Fs

open Bytes

/-! ## Inodes -/

namespace Dinode

@[simp] lemma addr_setAddr_self (d : Dinode) (k : Nat) (a : UInt32) (hk : k ≤ NDIRECT) :
    (d.setAddr k a).addr k = a := by
  simp [addr, setAddr, Nat.lt_succ_of_le hk]

lemma addr_setAddr_ne (d : Dinode) (k j : Nat) (a : UInt32) (h : j ≠ k) :
    (d.setAddr k a).addr j = d.addr j := by
  simp [addr, setAddr, h]

lemma u16_roundtrip (x : UInt16) : UInt16.ofNat (x.toNat % 256 ^ 2) = x := by
  have h : x.toNat < 256 ^ 2 := x.toNat_lt
  rw [Nat.mod_eq_of_lt h, UInt16.ofNat_toNat]

lemma u32_roundtrip (x : UInt32) : UInt32.ofNat (x.toNat % 256 ^ 4) = x := by
  have h : x.toNat < 256 ^ 4 := x.toNat_lt
  rw [Nat.mod_eq_of_lt h, UInt32.ofNat_toNat]

lemma loadLE_storeAddrs_out (d : Dinode) (b : Block) (k n off w : Nat) (hk : k < IPB)
    (hn : n ≤ NDIRECT + 1) (h : off + w ≤ 64 * k + 12 ∨ 64 * k + 12 + 4 * n ≤ off) :
    loadLE (storeAddrs d b k n).byteAt off w = loadLE b.byteAt off w := by
  unfold IPB at hk
  unfold NDIRECT at hn
  induction n with
  | zero => rfl
  | succ n ih =>
    rw [storeAddrs, Packed.loadLE_storeLE_disjoint _ _ _ _ _ _ (by unfold BSIZE; omega) (by omega)]
    exact ih (by omega) (by omega)

lemma loadLE_storeAddrs_in (d : Dinode) (b : Block) (k n j : Nat) (hk : k < IPB)
    (hn : n ≤ NDIRECT + 1) (hj : j < n) :
    loadLE (storeAddrs d b k n).byteAt (64 * k + 12 + 4 * j) 4 = (d.addr j).toNat % 256 ^ 4 := by
  unfold IPB at hk
  unfold NDIRECT at hn
  induction n with
  | zero => omega
  | succ n ih =>
    rw [storeAddrs]
    by_cases hjn : j = n
    · subst hjn
      exact Packed.loadLE_storeLE_same _ _ _ _ (by unfold BSIZE; omega)
    · rw [Packed.loadLE_storeLE_disjoint _ _ _ _ _ _ (by unfold BSIZE; omega) (by omega)]
      exact ih (by omega) (by omega)

lemma loadLE_store_out (d : Dinode) (b : Block) (k off w : Nat) (hk : k < IPB)
    (h : off + w ≤ 64 * k ∨ 64 * k + 64 ≤ off) :
    loadLE (d.store b k).byteAt off w = loadLE b.byteAt off w := by
  have hk' := hk
  unfold IPB at hk'
  unfold store
  rw [loadLE_storeAddrs_out _ _ _ _ _ _ hk le_rfl (by unfold NDIRECT; omega)]
  repeat rw [Packed.loadLE_storeLE_disjoint _ _ _ _ _ _ (by unfold BSIZE; omega) (by omega)]

lemma load_store_other (d : Dinode) (b : Block) (k j : Nat) (hk : k < IPB) (h : j ≠ k) :
    load (d.store b k) j = load b j := by
  have hout : ∀ o w, o + w ≤ 64 → loadLE (d.store b k).byteAt (64 * j + o) w =
      loadLE b.byteAt (64 * j + o) w :=
    fun o w ho => loadLE_store_out d b k (64 * j + o) w hk (by omega)
  have h0 := hout 0 2 (by omega)
  ext1
  · exact congrArg UInt16.ofNat h0
  · exact congrArg UInt16.ofNat (hout 2 2 (by omega))
  · exact congrArg UInt16.ofNat (hout 4 2 (by omega))
  · exact congrArg UInt16.ofNat (hout 6 2 (by omega))
  · exact congrArg UInt32.ofNat (hout 8 4 (by omega))
  · funext x
    have hx : x.val < 13 := x.isLt
    have ha := hout (12 + 4 * x.val) 4 (by omega)
    rw [← Nat.add_assoc] at ha
    exact congrArg UInt32.ofNat ha

lemma load_store_same (d : Dinode) (b : Block) (k : Nat) (hk : k < IPB) :
    load (d.store b k) k = d := by
  have hk' := hk
  unfold IPB at hk'
  have hscalar : ∀ o w, o + w ≤ 12 → loadLE (d.store b k).byteAt (64 * k + o) w = loadLE
      (((((b.storeLE (64 * k) 2 d.type.toNat).storeLE (64 * k + 2) 2 d.major.toNat).storeLE
        (64 * k + 4) 2 d.minor.toNat).storeLE (64 * k + 6) 2 d.nlink.toNat).storeLE
        (64 * k + 8) 4 d.size.toNat).byteAt (64 * k + o) w :=
    fun o w ho => loadLE_storeAddrs_out d _ k _ _ _ hk le_rfl (by omega)
  ext1
  · have h0 := hscalar 0 2 (by omega)
    repeat rw [Packed.loadLE_storeLE_disjoint _ _ _ _ _ _ (by unfold BSIZE; omega) (by omega)] at h0
    rw [Nat.add_zero, Packed.loadLE_storeLE_same _ _ _ _ (by unfold BSIZE; omega)] at h0
    exact (congrArg UInt16.ofNat h0).trans (u16_roundtrip _)
  · have h2 := hscalar 2 2 (by omega)
    repeat rw [Packed.loadLE_storeLE_disjoint _ _ _ _ _ _ (by unfold BSIZE; omega) (by omega)] at h2
    rw [Packed.loadLE_storeLE_same _ _ _ _ (by unfold BSIZE; omega)] at h2
    exact (congrArg UInt16.ofNat h2).trans (u16_roundtrip _)
  · have h4 := hscalar 4 2 (by omega)
    repeat rw [Packed.loadLE_storeLE_disjoint _ _ _ _ _ _ (by unfold BSIZE; omega) (by omega)] at h4
    rw [Packed.loadLE_storeLE_same _ _ _ _ (by unfold BSIZE; omega)] at h4
    exact (congrArg UInt16.ofNat h4).trans (u16_roundtrip _)
  · have h6 := hscalar 6 2 (by omega)
    repeat rw [Packed.loadLE_storeLE_disjoint _ _ _ _ _ _ (by unfold BSIZE; omega) (by omega)] at h6
    rw [Packed.loadLE_storeLE_same _ _ _ _ (by unfold BSIZE; omega)] at h6
    exact (congrArg UInt16.ofNat h6).trans (u16_roundtrip _)
  · have h8 := hscalar 8 4 (by omega)
    rw [Packed.loadLE_storeLE_same _ _ _ _ (by unfold BSIZE; omega)] at h8
    exact (congrArg UInt32.ofNat h8).trans (u32_roundtrip _)
  · funext x
    have ha := loadLE_storeAddrs_in d (((((b.storeLE (64 * k) 2 d.type.toNat).storeLE
      (64 * k + 2) 2 d.major.toNat).storeLE (64 * k + 4) 2 d.minor.toNat).storeLE
      (64 * k + 6) 2 d.nlink.toNat).storeLE (64 * k + 8) 4 d.size.toNat) k _ x.val hk le_rfl x.isLt
    have hx : d.addr x.val = d.addrs x := by rw [addr, dif_pos x.isLt]
    rw [hx] at ha
    exact (congrArg UInt32.ofNat ha).trans (u32_roundtrip _)

end Dinode

lemma dinode_set_iblock (t : Table Block) (i j : Nat) (ip : Dinode) :
    dinode (t.set (iblock i) (ip.store (t (iblock i)) (i % IPB))) j =
      if j = i then ip else dinode t j := by
  have hm : i % IPB < IPB := Nat.mod_lt i (by decide)
  by_cases hij : j = i
  · subst hij
    simp [dinode, Dinode.load_store_same ip _ _ hm]
  rw [if_neg hij]
  by_cases hb : iblock j = iblock i
  · have hne : j % IPB ≠ i % IPB := by
      unfold iblock IPB at *
      omega
    simp [dinode, hb, Dinode.load_store_other ip _ _ _ hm hne]
  · simp [dinode, hb]

lemma dinode_set_ne (t : Table Block) (b j : Nat) (v : Block) (h : iblock j ≠ b) :
    dinode (t.set b v) j = dinode t j := by
  simp [dinode, h]

/-! ## Bits -/

lemma inUse_set_ne (t : Table Block) (nin b c : Nat) (v : Block) (h : bblock c nin ≠ b) :
    inUse (t.set b v) nin c = inUse t nin c := by
  simp [inUse, h]

lemma bit_lt (b : Nat) : b % BPB / 8 < BSIZE := by
  unfold BPB BSIZE at *
  omega

lemma inUse_setBit (t : Table Block) (nin b c : Nat) :
    inUse (t.set (bblock b nin) ((t (bblock b nin)).setBit (b % BPB))) nin c =
      (decide (c = b) || inUse t nin c) := by
  by_cases hb : bblock c nin = bblock b nin
  · have hc : c % BPB = b % BPB ↔ c = b := by
      unfold bblock BPB BSIZE at *
      omega
    simp [inUse, hb, Packed.bitAt_setBit _ _ _ (bit_lt b), hc]
  · have hne : c ≠ b := fun h => hb (by rw [h])
    simp [inUse, hb, hne]

/-! ## Directory entries -/

namespace Dirent

lemma ofBytes_bytes (de : Dirent) : ofBytes de.bytes = de := by
  have hi : de.inum.toNat < 65536 := de.inum.toNat_lt
  have hn : de.inum.toNat % 256 + 256 * (de.inum.toNat / 256 % 256) = de.inum.toNat := by omega
  simp [ofBytes, bytes, hn]

end Dirent

def direntAt (b : Block) (k : Nat) : Dirent := Dirent.ofBytes (slice b.byteAt (16 * k) 16)

end Xv6.Fs
