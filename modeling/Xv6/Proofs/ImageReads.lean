import Xv6.Proofs.ImageFiles
import Mathlib.Data.List.TakeWhile

/-! # Reading an image -/

namespace Xv6.Mkfs

open Fs Bytes List

variable {own : Owners} {m : Image} {k : Nat} {c : Contents} {files : List Input}

lemma fits_contents (hn : 2 + files.length ≤ lowInodes) (hlen : ∀ f ∈ files, f.contents.length ≤ MAXFILE * BSIZE)
    (hblocks : firstData + blocksNeeded files ≤ size) : Fits (contents files) := by
  refine ⟨fun i hi => ?_, by rw [total_contents files hn]; exact hblocks⟩
  by_cases hroot : i = ROOTINO
  · rw [hroot, length_contents_root]
    unfold lowInodes slots ninodes IPB at hn
    unfold direntSize MAXFILE NINDIRECT NDIRECT BSIZE
    omega
  by_cases hfile : 2 ≤ i ∧ i - 2 < files.length
  · have hf := contents_file (List.getElem?_eq_getElem hfile.2)
    rw [show 2 + (i - 2) = i by omega] at hf
    rw [hf]
    exact hlen _ (getElem_mem hfile.2)
  · rw [contents, addAll_other files (by decide) hroot (by omega), rootOnly, Function.update_of_ne hroot]
    exact Nat.zero_le _

/-! ## Layout -/

lemma bitAt_usedBits (n b : Nat) (hn : n ≤ BPB) : bitAt (usedBits n).byteAt b = decide (b < n) := by
  induction n with
  | zero =>
    have hzero : (usedBits 0).byteAt (b / 8) = 0 := by
      show (0 : Block).byteAt (b / 8) = 0
      simp [Packed.byteAt]
    rw [bitAt, hzero]
    simp
  | succ n ih =>
    have hbyte : n / 8 < BSIZE := by
      unfold BPB at hn
      omega
    rw [usedBits, Packed.bitAt_setBit _ _ _ hbyte, ih (by omega), ← Bool.decide_or, decide_eq_decide]
    omega

/-- The image keeps to its layout: blocks of files lie in the data area, inode numbers in the inode
table, and the bitmap marks the blocks in use. -/
structure WithinLayout (m : Image) : Prop where
  blocks : ∀ i p, 0 < i → i < m.freeinode → p < places → addrAt m.disk (dinode m.disk i) p ≠ 0 →
    ninodes / IPB + 3 + bitblocks ≤ addrAt m.disk (dinode m.disk i) p ∧
      addrAt m.disk (dinode m.disk i) p < size - nlog
  inodes : ∀ i, i < m.freeinode → i < ninodes
  bitmap : ∀ b, b < BPB → (inUse m.disk ninodes b = true ↔ b < m.freeblock)

lemma Built.inUse_iff (h : Built own c k m) {b : Nat} (hb : b < BPB) :
    inUse m.disk ninodes b = true ↔ b < m.freeblock := by
  have hblock : bblock b ninodes = ninodes / IPB + 3 := by
    rw [bblock, Nat.div_eq_of_lt hb, Nat.zero_add]
  have hle : m.freeblock ≤ BPB := h.space.within.trans (by decide)
  rw [inUse, hblock, h.bitmap, Nat.mod_eq_of_lt hb, bitAt_usedBits _ _ hle, decide_eq_true_iff]

/-- The places of an inode that hold an address. -/
def usedPlaces (d : Disk) (r : Dinode) : Finset Nat := (Finset.range places).filter fun p => addrAt d r p ≠ 0

lemma FileAt_usedPlaces {d : Disk} {i nb : Nat} {r : Dinode} {l : List UInt8} {ind : Bool}
    (h : FileAt own d i r l nb ind) : nb + ind.toNat ≤ (usedPlaces d r).card := by
  have hdata : (Finset.range nb).image place ⊆ usedPlaces d r := by
    intro p hp
    obtain ⟨bn, hbn, rfl⟩ := Finset.mem_image.mp hp
    have hlt := Finset.mem_range.mp hbn
    have hmax := Nat.lt_of_lt_of_le hlt h.le
    exact Finset.mem_filter.mpr ⟨Finset.mem_range.mpr (place_lt hmax), (h.blocks bn hmax).mpr hlt⟩
  have hcard : ((Finset.range nb).image place).card = nb := by
    rw [Finset.card_image_of_injective _ fun _ _ => place_inj, Finset.card_range]
  cases ind with
  | false => exact hcard.ge.trans (Finset.card_le_card hdata)
  | true =>
    have hnot : NDIRECT ∉ (Finset.range nb).image place := by
      intro hp
      obtain ⟨bn, -, heq⟩ := Finset.mem_image.mp hp
      exact place_ne_indirect bn heq
    have hind : NDIRECT ∈ usedPlaces d r := by
      refine Finset.mem_filter.mpr ⟨Finset.mem_range.mpr (by decide), ?_⟩
      rw [addrAt, if_pos le_rfl]
      exact (toNat_ne_zero _).mpr (h.indirect.mpr rfl)
    have hboth := Finset.card_le_card (Finset.insert_subset hind hdata)
    rwa [Finset.card_insert_of_notMem hnot, hcard] at hboth

lemma contents_zero (files : List Input) : contents files 0 = [] := by
  rw [contents, addAll_other files (by decide) (by decide) (.inl (by decide)), rootOnly,
    Function.update_of_ne (by decide)]

/-- Different places hold different blocks, so that there are no more blocks than addresses can be. -/
lemma Built.total_le (h : Built own c k m) (hk : k ≤ slots) (h0 : c 0 = []) (bound : Nat)
    (hblocks : ∀ i p, 0 < i → i < k → p < places → addrAt m.disk (dinode m.disk i) p ≠ 0 →
      firstData ≤ addrAt m.disk (dinode m.disk i) p ∧ addrAt m.disk (dinode m.disk i) p < bound) :
    total c ≤ bound - firstData := by
  have hle : slots ≤ lowInodes := by decide
  have hsum : total c = ∑ i ∈ Finset.Ico 1 k, need (c i).length := by
    refine (Finset.sum_subset (fun i hi => ?_) fun i _ hi => ?_).symm
    · have := Finset.mem_Ico.mp hi
      exact Finset.mem_range.mpr (by omega)
    · have hnil : c i = [] := by
        rw [Finset.mem_Ico] at hi
        rcases Nat.eq_zero_or_pos i with rfl | hpos
        · exact h0
        · exact h.spare i (by omega)
      rw [hnil]
      decide
  have hplaces : ∀ i ∈ Finset.Ico 1 k, need (c i).length ≤ (usedPlaces m.disk (dinode m.disk i)).card := by
    intro i hi
    have := Finset.mem_Ico.mp hi
    exact FileAt_usedPlaces (h.files i (by omega))
  rw [hsum]
  refine (Finset.sum_le_sum hplaces).trans ?_
  rw [← Finset.card_sigma, ← Nat.card_Ico]
  have hof : ∀ x ∈ (Finset.Ico 1 k).sigma fun i => usedPlaces m.disk (dinode m.disk i),
      (0 < x.1 ∧ x.1 < k) ∧ x.2 < places ∧ addrAt m.disk (dinode m.disk x.1) x.2 ≠ 0 := by
    intro x hx
    obtain ⟨h₁, h₂⟩ := Finset.mem_sigma.mp hx
    obtain ⟨h₃, h₄⟩ := Finset.mem_filter.mp h₂
    exact ⟨Finset.mem_Ico.mp h₁, Finset.mem_range.mp h₃, h₄⟩
  refine Finset.card_le_card_of_injOn (fun x => addrAt m.disk (dinode m.disk x.1) x.2) ?_ ?_
  · intro x hx
    obtain ⟨hi, hp, hne⟩ := hof x hx
    exact Finset.mem_coe.mpr (Finset.mem_Ico.mpr (hblocks x.1 x.2 hi.1 hi.2 hp hne))
  · rintro ⟨i, p⟩ hx ⟨j, q⟩ hy heq
    obtain ⟨hi, hp, hne⟩ := hof _ hx
    obtain ⟨hj, hq, hne'⟩ := hof _ hy
    have h₁ := (h.files i (hi.2.trans_le hk)).owns p hp hne
    have h₂ := (h.files j (hj.2.trans_le hk)).owns q hq hne'
    rw [show addrAt m.disk (dinode m.disk i) p = addrAt m.disk (dinode m.disk j) q from heq, h₂] at h₁
    cases h₁
    rfl

/-- Exactly the lists that leave the log and the last inodes alone are laid out as the super block says. -/
theorem mkfs_within_layout (files : List Input) (m : Image) (h : mkfs files = some m) :
    WithinLayout m ↔ files.length + 1 < ninodes ∧ firstData + blocksNeeded files ≤ size - nlog := by
  have hfree := mkfs_freeinode files h
  have hslots : ninodes ≤ slots := by decide
  have hlow : slots ≤ lowInodes := by decide
  constructor
  · intro hlayout
    have hinodes := hlayout.inodes (files.length + 1) (by omega)
    obtain ⟨own, hbuilt⟩ := mkfs_built files (by omega) h
    have hle := hbuilt.total_le (by omega) (contents_zero files) (size - nlog) fun i p hpos hi =>
      hlayout.blocks i p hpos (by omega)
    rw [total_contents files (by omega)] at hle
    have hdata : firstData ≤ size - nlog := by decide
    exact ⟨hinodes, by omega⟩
  · rintro ⟨hinodes, hblocks⟩
    obtain ⟨own, hbuilt⟩ := mkfs_built files (by omega) h
    have htaken := hbuilt.taken
    rw [total_contents files (by omega)] at htaken
    refine ⟨fun i p _ hi hp h0 => ?_, fun i hi => by omega, fun b hb => hbuilt.inUse_iff hb⟩
    have harea := hbuilt.space.area _ _ ((hbuilt.files i (by omega)).owns p hp h0)
    exact ⟨harea.1, by omega⟩

def emptyFile : Input := ⟨[97], [], by decide, by simp⟩

def shortFile : Input := ⟨[98], [[1, 2, 3]], by decide, by simp⟩

theorem mkfs_within_layout_shortFile : ∃ m, mkfs [emptyFile, shortFile] = some m ∧ WithinLayout m := by
  obtain ⟨own, m, hm, _⟩ := mkfs_fits [emptyFile, shortFile] (by decide) (by decide)
    (fits_contents (by decide) (by decide) (by decide))
  exact ⟨m, hm, (mkfs_within_layout _ m hm).mpr (by decide)⟩

lemma blocksNeeded_replicate (n : Nat) : blocksNeeded (replicate n emptyFile) = need (direntSize * (n + 2)) := by
  rw [blocksNeeded, length_replicate, map_replicate, sum_replicate, show need emptyFile.contents.length = 0 by decide]
  exact congrArg (_ + ·) (Nat.mul_zero n)

lemma replicate_fits (n : Nat) (hn : 2 + n ≤ lowInodes) :
    ∃ own m, mkfs (replicate n emptyFile) = some m ∧
      Built own (contents (replicate n emptyFile)) (2 + n) m := by
  have hlen : (replicate n emptyFile).length = n := length_replicate
  have hmem : ∀ f ∈ replicate n emptyFile, f = emptyFile := fun f hf => eq_of_mem_replicate hf
  have hneed : firstData + blocksNeeded (replicate n emptyFile) ≤ size := by
    have hroot : need (direntSize * (n + 2)) ≤ need (direntSize * lowInodes) :=
      need_mono (Nat.mul_le_mul_left _ (by omega))
    have hmost : firstData + need (direntSize * lowInodes) ≤ size := by decide
    rw [blocksNeeded_replicate]
    omega
  have hresult := mkfs_fits (replicate n emptyFile) (fun f hf => by rw [hmem f hf]; decide) (by rw [hlen]; exact hn)
    (fits_contents (by rw [hlen]; exact hn) (fun f hf => by rw [hmem f hf]; decide) hneed)
  rw [hlen] at hresult
  exact hresult

/-- With 199 files, inode number 200 is used. -/
theorem mkfs_oversteps_inodes :
    ∃ m, mkfs (replicate 199 emptyFile) = some m ∧ m.freeinode = ninodes + 1 ∧ ¬WithinLayout m := by
  obtain ⟨own, m, hm, hbuilt⟩ := replicate_fits 199 (by decide)
  have hnext : m.freeinode = ninodes + 1 := hbuilt.next
  refine ⟨m, hm, hnext, fun hlayout => ?_⟩
  have := hlayout.inodes ninodes (by omega)
  exact absurd this (lt_irrefl _)

/-! ## Holes -/

/-- Every block of the file by its size has an address. -/
def HoleFree (d : Disk) (r : Dinode) : Prop := Backed d r r.size.toNat

/-- Reading the file allocates no block. -/
def ReadsOnly (m : Image) (i : Nat) : Prop :=
  ∀ s : Store, s.disk = m.disk → ∀ off n, off < 2 ^ 32 → n < 2 ^ 32 →
    ∃ r, readi (dinode m.disk i) off n s = .ok (r, dinode m.disk i) s

lemma HoleFree.readsOnly {i : Nat} (h : HoleFree m.disk (dinode m.disk i))
    (hmax : (dinode m.disk i).size.toNat ≤ MAXFILE * BSIZE) : ReadsOnly m i := by
  intro s hs off n hoff hn
  by_cases hover : (dinode m.disk i).size.toNat < off ∨ (off + n) % 2 ^ 32 < off
  · exact ⟨none, by rw [readi, if_pos hover]; rfl⟩
  have hsum : off + n < 2 ^ 32 := by omega
  have hback : Backed s.disk (dinode m.disk i) (off + readCount (dinode m.disk i) off n) := by
    rw [hs]
    refine h.mono ?_
    unfold readCount
    omega
  exact ⟨_, readi_backed (by omega) hsum hmax hback⟩

lemma Built.holeFree_file (h : Built own c k m) {i : Nat} (hi : i < slots) (hroot : i ≠ ROOTINO) :
    HoleFree m.disk (dinode m.disk i) := by
  rw [HoleFree, h.sizes i hi hroot]
  exact (h.files i hi).backed (h.files i hi).fits

lemma blocksFor_rounded (n : Nat) (h : n % BSIZE ≠ 0) : blocksFor n = n / BSIZE + 1 := by
  unfold blocksFor BSIZE at *
  omega

lemma Built.holeFree_root (h : Built own c k m) (hmod : (c ROOTINO).length % BSIZE ≠ 0) :
    HoleFree m.disk (dinode m.disk ROOTINO) := by
  rw [HoleFree, h.rootSize, ← blocksFor_rounded _ hmod]
  exact (h.files ROOTINO (by decide)).backed le_rfl

lemma root_mod (files : List Input) :
    (contents files ROOTINO).length % BSIZE = 0 ↔ (files.length + 2) % 32 = 0 := by
  rw [length_contents_root]
  unfold direntSize BSIZE
  omega

lemma Built.size_le (h : Built own (contents files) (2 + files.length) m) (hn : 2 + files.length ≤ lowInodes) {i : Nat}
    (hi : i < slots) : (dinode m.disk i).size.toNat ≤ MAXFILE * BSIZE := by
  by_cases hroot : i = ROOTINO
  · rw [hroot, h.rootSize, length_contents_root]
    unfold lowInodes slots ninodes IPB at hn
    unfold direntSize MAXFILE NINDIRECT NDIRECT BSIZE
    omega
  · rw [h.sizes i hi hroot]
    exact h.length_le hi

lemma Built.hole_root (h : Built own c k m) (hmod : (c ROOTINO).length % BSIZE = 0)
    (hmax : (c ROOTINO).length < MAXFILE * BSIZE) :
    blockOf m.disk (dinode m.disk ROOTINO) ((c ROOTINO).length / BSIZE) = 0 ∧
      ¬HoleFree m.disk (dinode m.disk ROOTINO) := by
  have hnb : blocksFor (c ROOTINO).length = (c ROOTINO).length / BSIZE := by
    unfold blocksFor BSIZE at *
    omega
  have hnone := (h.files ROOTINO (by decide)).no_block hnb.le ((Nat.div_lt_iff_lt_mul (by decide)).mpr hmax)
  refine ⟨hnone, fun hfree => hfree _ ?_ hnone⟩
  rw [h.rootSize]
  unfold BSIZE
  omega

/-! The bitmap block, read as inodes. -/

lemma toNat_usedBits {n : Nat} (hn : n ≤ BPB) : (usedBits n).toNat = 2 ^ n - 1 := by
  apply Nat.eq_of_testBit_eq
  intro j
  have hbit := bitAt_usedBits n j hn
  rw [bitAt_eq_testBit, Packed.byteAt, UInt8.toNat_ofNat', Nat.testBit_mod_two_pow,
    show (256 : Nat) ^ (j / 8) = 2 ^ (8 * (j / 8)) by rw [pow_mul]; norm_num, Nat.testBit_div_two_pow,
    Nat.mod_add_div j 8, decide_eq_true (Nat.mod_lt j (by decide)), Bool.true_and] at hbit
  rw [hbit, Nat.testBit_two_pow_sub_one]

lemma loadLE_usedBits {n : Nat} (hn : n ≤ BPB) (off k : Nat) :
    loadLE (usedBits n).byteAt off k = (2 ^ n - 1) / 256 ^ off % 256 ^ k := by
  apply loadLE_shift
  intro j _
  rw [Packed.byteAt, toNat_usedBits hn, Nat.div_div_eq_div_mul, ← pow_add]

lemma size_usedBits {n : Nat} (hn : n ≤ BPB) (j : Nat) :
    (Dinode.load (usedBits n) j).size.toNat = (2 ^ n - 1) / 256 ^ (64 * j + 8) % 256 ^ 4 := by
  show (UInt32.ofNat (loadLE (usedBits n).byteAt (64 * j + 8) 4)).toNat = _
  rw [loadLE_usedBits hn]
  exact UInt32.toNat_ofNat_of_lt' (Nat.mod_lt _ (by decide))

lemma size_usedBits_zero {n : Nat} (hn : n ≤ 64) (j : Nat) : (Dinode.load (usedBits n) j).size.toNat = 0 := by
  have hlt : 2 ^ n - 1 < 256 ^ (64 * j + 8) := by
    calc 2 ^ n - 1 < 2 ^ n := Nat.sub_lt (Nat.two_pow_pos n) Nat.one_pos
      _ ≤ 2 ^ 64 := Nat.pow_le_pow_right (by decide) hn
      _ = 256 ^ 8 := by norm_num
      _ ≤ 256 ^ (64 * j + 8) := Nat.pow_le_pow_right (by decide) (by omega)
  rw [size_usedBits (hn.trans (by decide)), Nat.div_eq_of_lt hlt, Nat.zero_mod]

/-- With more than 64 bits set the first inode has a size: its first address is 0, or its size is the greatest
number, which no inode has the addresses for. -/
lemma usedBits_hole {n : Nat} (hn : n ≤ BPB) (h64 : 64 < n) (d : Disk) : ¬HoleFree d (Dinode.load (usedBits n) 0) := by
  have hsize := size_usedBits hn 0
  intro hfree
  have hlow : 2 ^ 64 ≤ 2 ^ n - 1 := by
    have := Nat.pow_le_pow_right (show 0 < 2 by decide) h64
    rw [pow_succ] at this
    omega
  by_cases h96 : n ≤ 96
  · have hhigh : 2 ^ n - 1 < 2 ^ 96 := by
      have := Nat.pow_le_pow_right (show 0 < 2 by decide) h96
      have := Nat.two_pow_pos n
      omega
    have haddr : (Dinode.load (usedBits n) 0).addr 0 = 0 := by
      show UInt32.ofNat (loadLE (usedBits n).byteAt 12 4) = 0
      rw [loadLE_usedBits hn, Nat.div_eq_of_lt (hhigh.trans_eq (by norm_num)), Nat.zero_mod]
      rfl
    refine hfree 0 ?_ ?_
    · rw [hsize]
      norm_num
      omega
    · rw [blockOf_direct _ _ (by decide), haddr]
      rfl
  · refine hfree MAXFILE ?_ ?_
    · have hones : (2 ^ n - 1) / 256 ^ 8 % 256 ^ 4 = 2 ^ 32 - 1 := by
        apply Nat.eq_of_testBit_eq
        intro j
        rw [show (256 : Nat) ^ 8 = 2 ^ 64 by norm_num, show (256 : Nat) ^ 4 = 2 ^ 32 by norm_num,
          Nat.testBit_mod_two_pow, Nat.testBit_div_two_pow, Nat.testBit_two_pow_sub_one, Nat.testBit_two_pow_sub_one,
          ← Bool.decide_and, decide_eq_decide]
        omega
      rw [hsize, hones]
      decide
    · rw [blockOf, addrAt, if_neg (by decide), if_pos (.inr (by decide))]

lemma mkfs_inode_bitmap (files : List Input) (h : mkfs files = some m) {i : Nat} (hi : slots ≤ i)
    (hi' : i < lowInodes) :
    dinode m.disk i = Dinode.load (usedBits m.usedblocks) (i % IPB) := by
  have hblock : iblock i = ninodes / IPB + 3 := by
    unfold lowInodes slots at *
    unfold iblock ninodes IPB at *
    omega
  rw [dinode, hblock, (mkfs_bitmap files h).2]

/-- No inode has a hole, of those in the inode table and those that are used. -/
def NoHoles (m : Image) : Prop :=
  ∀ i, i < slots ∨ i < m.freeinode → HoleFree m.disk (dinode m.disk i) ∧ ReadsOnly m i

lemma NoHoles.usedblocks_le (files : List Input) (h : mkfs files = some m) (hn : slots < 2 + files.length)
    (hfree : NoHoles m) : m.usedblocks ≤ 64 := by
  by_contra hc
  have hinode := mkfs_inode_bitmap files h le_rfl (show slots < lowInodes by decide)
  have hhole := (hfree slots (.inr (by rw [mkfs_freeinode files h]; exact hn))).1
  rw [hinode] at hhole
  exact usedBits_hole (mkfs_bitmap files h).1.le (by omega) _ hhole

/-- An image of no more files than inodes fit before the data has no hole exactly if the root directory does not fill
its last block, and the inodes in the bitmap block, if there are any, are those of an almost empty disk. With more
files, too, almost all of the disk has to be empty. -/
theorem mkfs_hole_free (files : List Input) (m : Image) (h : mkfs files = some m) :
    (2 + files.length ≤ lowInodes → (NoHoles m ↔ (files.length + 2) % 32 ≠ 0 ∧
      (2 + files.length ≤ slots ∨ firstData + blocksNeeded files ≤ 64))) ∧
    (lowInodes < 2 + files.length → NoHoles m → m.usedblocks ≤ 64) := by
  have hle : slots ≤ lowInodes := by decide
  refine ⟨fun hn => ?_, fun hn hfree => hfree.usedblocks_le files h (by omega)⟩
  obtain ⟨own, hbuilt⟩ := mkfs_built files hn h
  have hused : m.usedblocks = firstData + blocksNeeded files := by
    rw [hbuilt.space.counted, hbuilt.taken, total_contents files hn]
  constructor
  · intro hfree
    refine ⟨fun hmod => ?_, ?_⟩
    · refine (hbuilt.hole_root ((root_mod files).mpr hmod) ?_).2 (hfree ROOTINO (.inl (by decide))).1
      rw [length_contents_root]
      unfold lowInodes slots ninodes IPB at hn
      unfold direntSize MAXFILE NINDIRECT NDIRECT BSIZE
      omega
    · by_cases hs : 2 + files.length ≤ slots
      · exact .inl hs
      · exact .inr (hused ▸ hfree.usedblocks_le files h (by omega))
  · rintro ⟨hmod, hfew⟩ i hi
    by_cases his : i < slots
    · have hfree : HoleFree m.disk (dinode m.disk i) := by
        by_cases hroot : i = ROOTINO
        · subst hroot
          exact hbuilt.holeFree_root (mt (root_mod files).mp hmod)
        · exact hbuilt.holeFree_file his hroot
      exact ⟨hfree, hfree.readsOnly (hbuilt.size_le hn his)⟩
    · have hlast : i < 2 + files.length := by
        rw [← mkfs_freeinode files h]
        exact hi.resolve_left his
      have hzero : (dinode m.disk i).size.toNat = 0 := by
        rw [mkfs_inode_bitmap files h (by omega) (by omega)]
        exact size_usedBits_zero (by omega) _
      have hfree : HoleFree m.disk (dinode m.disk i) := by
        rw [HoleFree, hzero]
        exact fun bn hbn => absurd hbn (Nat.not_lt_zero _)
      exact ⟨hfree, hfree.readsOnly (by rw [hzero]; exact Nat.zero_le _)⟩

/-- One file; and 207 empty files, of which the last has its inode in the bitmap block. -/
theorem mkfs_hole_free_shortFile :
    (∃ m, mkfs [shortFile] = some m ∧ NoHoles m) ∧ ∃ m, mkfs (replicate 207 emptyFile) = some m ∧ NoHoles m := by
  obtain ⟨own, m, hm, _⟩ := mkfs_fits [shortFile] (by decide) (by decide)
    (fits_contents (by decide) (by decide) (by decide))
  obtain ⟨own', m', hm', _⟩ := replicate_fits 207 (by decide)
  exact ⟨⟨m, hm, ((mkfs_hole_free [shortFile] m hm).1 (by decide)).mpr (by decide)⟩,
    m', hm', ((mkfs_hole_free _ m' hm').1 (by rw [length_replicate]; decide)).mpr
      (by rw [length_replicate, blocksNeeded_replicate]; decide)⟩

/-- With 30 files the root directory has two blocks by its size, but only one by its addresses. -/
theorem mkfs_leaves_hole :
    ∃ m, mkfs (replicate 30 emptyFile) = some m ∧ (dinode m.disk ROOTINO).size = 1024 ∧
      blockOf m.disk (dinode m.disk ROOTINO) 1 = 0 ∧ ¬HoleFree m.disk (dinode m.disk ROOTINO) := by
  obtain ⟨own, m, hm, hbuilt⟩ := replicate_fits 30 (by decide)
  have hlen : (contents (replicate 30 emptyFile) ROOTINO).length = 512 := by
    rw [length_contents_root, length_replicate]
    rfl
  have hsize := hbuilt.rootSize
  have hhole := hbuilt.hole_root (by rw [hlen]; rfl) (by rw [hlen]; decide)
  rw [hlen] at hsize hhole
  exact ⟨m, hm, UInt32.toNat_inj.mp hsize, hhole⟩

/-! ## Names -/

def cut (n : Nat) (name : List UInt8) : List UInt8 := (name.take n).takeWhile (· ≠ 0)

lemma cut_cons (n : Nat) (a : UInt8) (name : List UInt8) (ha : a ≠ 0) : cut (n + 1) (a :: name) = a :: cut n name := by
  rw [cut, take_succ_cons, takeWhile_cons_of_pos (by simpa using ha)]
  rfl

lemma cut_zero (n : Nat) (name : List UInt8) (h : name.headD 0 = 0) : cut n name = [] := by
  cases name with
  | nil => simp [cut]
  | cons a name =>
    obtain rfl : a = 0 := h
    cases n with
    | zero => rfl
    | succ n => simp [cut]

lemma strncmp_eq_zero (n : Nat) (p q : List UInt8) : strncmp n p q = 0 ↔ cut n p = cut n q := by
  induction n generalizing p q with
  | zero => simp [strncmp, cut]
  | succ n ih =>
    rw [strncmp]
    by_cases hp : p.headD 0 = 0
    · rw [if_neg fun h => h.1 hp, cut_zero _ p hp, hp]
      cases q with
      | nil => simp [cut]
      | cons b q =>
        by_cases hb : b = 0
        · subst hb
          simp [cut]
        · have hb' : b.toNat ≠ 0 := fun h => hb (UInt8.toNat_inj.mp h)
          rw [cut_cons n b q hb]
          simpa using hb'
    · cases p with
      | nil => exact absurd rfl hp
      | cons a p =>
        have ha : a ≠ 0 := hp
        rw [cut_cons n a p ha]
        by_cases hab : a = q.headD 0
        · cases q with
          | nil => exact absurd hab ha
          | cons b q =>
            obtain rfl : a = b := hab
            rw [if_pos ⟨hp, rfl⟩, cut_cons n a q ha, List.cons.injEq, ih]
            simp
        rw [if_neg fun h => hab h.2]
        have hne : a.toNat ≠ (q.headD 0).toNat := fun h => hab (UInt8.toNat_inj.mp h)
        have hint : ((a.toNat : Int) - ((q.headD 0).toNat : Int)) ≠ 0 := by omega
        refine iff_of_false hint fun he => ?_
        cases q with
        | nil => simp [cut] at he
        | cons b q =>
          by_cases hb : b = 0
          · subst hb
            simp [cut] at he
          · rw [cut_cons n b q hb] at he
            exact hab (List.cons.inj he).1

lemma cut_strncpy (name : List UInt8) : cut DIRSIZ (strncpy name) = cut DIRSIZ name := by
  have htake : (strncpy name).take DIRSIZ = strncpy name := take_of_length_le (length_strncpy name).le
  have hall : ∀ a ∈ cut DIRSIZ name, a ≠ 0 := fun a ha => by simpa using mem_takeWhile_imp ha
  have hcut : strncpy name = cut DIRSIZ name ++ replicate (DIRSIZ - (cut DIRSIZ name).length) 0 := rfl
  rw [cut, htake, hcut, takeWhile_append_of_pos (by simpa using hall)]
  generalize DIRSIZ - (cut DIRSIZ name).length = j
  cases j with
  | zero => simp
  | succ j => simp [replicate_succ]

lemma cut_string (name : List UInt8) (h : 0 ∉ name) : cut DIRSIZ name = name.take DIRSIZ := by
  rw [cut, takeWhile_eq_self_iff]
  intro a ha
  have : a ≠ 0 := fun h0 => h (h0 ▸ mem_of_mem_take ha)
  simpa using this

lemma Input.entryName_string (f : Input) : 0 ∉ f.entryName := by
  unfold entryName
  split
  · exact fun h => f.name_string (mem_of_mem_tail h)
  · exact f.name_string

lemma namecmp_strncpy (name name' : List UInt8) (h : 0 ∉ name) (h' : 0 ∉ name') :
    namecmp name (strncpy name') = 0 ↔ name.take DIRSIZ = name'.take DIRSIZ := by
  rw [namecmp, strncmp_eq_zero, cut_strncpy, cut_string name h, cut_string name' h']

/-! ## The root directory's entries -/

lemma slice_getD (l : List UInt8) (off n : Nat) (h : off + n ≤ l.length) :
    slice (fun x => l.getD x 0) off n = (l.drop off).take n := by
  apply ext_getElem
  · rw [length_slice, length_take, length_drop]
    omega
  intro j hj _
  rw [length_slice] at hj
  simp only [slice, getElem_map, getElem_range, getElem_take, getElem_drop,
    List.getD_eq_getElem?_getD]
  rw [List.getElem?_eq_getElem (by omega)]
  rfl

lemma Body.slice_eq {w : Nat} (h : Body w own c k m) {i : Nat} (hi : i < w) {off n : Nat}
    (hoff : off + n ≤ (c i).length) :
    slice (byteOf m.disk (dinode m.disk i)) off n = ((c i).drop off).take n := by
  have hf := h.files i hi
  rw [← slice_getD _ _ _ hoff]
  exact slice_congr _ _ off n fun x _ hx => hf.bytes x (by have := hf.fits; omega)

lemma entries_drop (k j : Nat) (files : List Input) {f : Input} (hf : files[j]? = some f) :
    ((entries k files).drop (direntSize * j)).take direntSize = entry (k + j) f.entryName := by
  induction files generalizing k j with
  | nil => cases hf
  | cons g files ih =>
    have hlen := length_entry k g.entryName
    cases j with
    | zero =>
      cases hf
      rw [Nat.mul_zero, drop_zero, entries, take_append_of_le_length hlen.ge, ← hlen, take_length]
      rfl
    | succ j =>
      rw [entries, drop_append, hlen, Nat.mul_succ, Nat.add_sub_cancel, drop_eq_nil_of_le (by omega),
        nil_append, ih (k + 1) j hf, show k + 1 + j = k + (j + 1) by omega]

lemma Built.entryAt_file (h : Built own (contents files) k m) {j : Nat} {f : Input} (hf : files[j]? = some f) :
    entryAt m.disk (dinode m.disk ROOTINO) (j + 2) = ⟨UInt16.ofNat (2 + j), strncpy f.entryName⟩ := by
  have hj := (List.getElem?_eq_some_iff.mp hf).1
  have hlen := length_contents_root files
  have hdots : dots.length = direntSize * 2 := by
    rw [dots, length_append, length_entry, length_entry]
    rfl
  rw [entryAt, h.slice_eq (by decide) (by rw [hlen]; unfold direntSize; omega), contents_root, drop_append,
    drop_eq_nil_of_le (by rw [hdots]; unfold direntSize; omega), nil_append, hdots, ← Nat.mul_sub,
    Nat.add_sub_cancel, entries_drop 2 j files hf]
  exact Dirent.ofBytes_bytes _

lemma Built.entryAt_dots (h : Built own (contents files) k m) {j : Nat} (hj : j < 2) :
    entryAt m.disk (dinode m.disk ROOTINO) j =
      ⟨UInt16.ofNat ROOTINO, strncpy (if j = 0 then dot else dotdot)⟩ := by
  have hlen := length_contents_root files
  have hdot := length_entry ROOTINO dot
  have hdotdot := length_entry ROOTINO dotdot
  rw [entryAt, h.slice_eq (by decide) (by rw [hlen]; unfold direntSize; omega), contents_root, dots]
  obtain rfl | rfl : j = 0 ∨ j = 1 := by omega
  · rw [Nat.mul_zero, drop_zero, append_assoc, take_append_of_le_length hdot.ge, ← hdot, take_length]
    exact Dirent.ofBytes_bytes _
  · rw [Nat.mul_one, append_assoc, drop_append, drop_eq_nil_of_le hdot.le, nil_append, hdot,
      Nat.sub_self, drop_zero, take_append_of_le_length hdotdot.ge, ← hdotdot, take_length]
    exact Dirent.ofBytes_bytes _

/-! ## Reading back -/

/-- The kernel finds each input file under its name, and reads its bytes. -/
def ReadsBack (files : List Input) (m : Image) : Prop :=
  ∀ f ∈ files, ∀ s : Store, s.disk = m.disk → ∃ inum off,
    dirlookup (dinode m.disk ROOTINO) f.entryName s = .ok (some (inum, off), dinode m.disk ROOTINO) s ∧
    ∀ n, n < 2 ^ 32 → readi (dinode m.disk inum) 0 n s = .ok (some (f.contents.take n), dinode m.disk inum) s

lemma Built.lookup (h : Built own (contents files) (2 + files.length) m) (hn : 2 + files.length ≤ lowInodes) {s : Store}
    (hs : s.disk = m.disk) {name : List UInt8} {j : Nat} (hj : j < files.length + 2)
    (hname : (entryAt m.disk (dinode m.disk ROOTINO) j).hasName name)
    (hbefore : ∀ i, i < j → ¬(entryAt m.disk (dinode m.disk ROOTINO) i).hasName name) :
    dirlookup (dinode m.disk ROOTINO) name s =
      .ok (some ((entryAt m.disk (dinode m.disk ROOTINO) j).inum.toNat, direntSize * j), dinode m.disk ROOTINO) s := by
  have htype : (dinode m.disk ROOTINO).type = T_DIR := by
    rw [h.types ROOTINO (by decide), typeOf, if_neg (by unfold ROOTINO; omega), if_pos rfl]
  have hlen := length_contents_root files
  have hle : direntSize * (j + 1) ≤ (contents files ROOTINO).length := by
    rw [hlen]
    exact Nat.mul_le_mul_left _ (by omega)
  have hsize : direntSize * (j + 1) ≤ (dinode m.disk ROOTINO).size.toNat := by
    rw [h.rootSize]
    unfold BSIZE
    omega
  have hfile := h.files ROOTINO (by decide)
  rw [← hs] at hname hbefore hfile htype hsize ⊢
  exact dirlookup_found htype hsize (hs ▸ h.size_le hn (by decide)) (hfile.backed (hle.trans hfile.fits)) hname hbefore

lemma Built.readi_file (h : Built own c k m) {i : Nat} (hi : i < slots) (hroot : i ≠ ROOTINO) {s : Store}
    (hs : s.disk = m.disk) (n : Nat) (hn : n < 2 ^ 32) :
    readi (dinode m.disk i) 0 n s = .ok (some ((c i).take n), dinode m.disk i) s := by
  have hsize := h.sizes i hi hroot
  have hcount : readCount (dinode m.disk i) 0 n = min n (c i).length := by
    rw [readCount, hsize, Nat.sub_zero]
  have hback : Backed s.disk (dinode m.disk i) (0 + readCount (dinode m.disk i) 0 n) := by
    rw [hs]
    exact (h.files i hi).backed (by rw [hcount]; have := (h.files i hi).fits; omega)
  have hread := readi_backed (Nat.zero_le _) (by omega) (by rw [hsize]; exact h.length_le hi) hback
  rw [hread, hcount, hs, h.slice_eq hi (by omega), drop_zero, ← take_eq_take_min]

lemma take_ne_dots {name : List UInt8} (h : name ≠ dot ∧ name ≠ dotdot) (j : Nat) :
    name.take DIRSIZ ≠ (if j = 0 then dot else dotdot).take DIRSIZ := by
  intro he
  have hshort : (if j = 0 then dot else dotdot).take DIRSIZ = if j = 0 then dot else dotdot := by
    split <;> rfl
  rw [hshort] at he
  have hlen : (name.take DIRSIZ).length < DIRSIZ := by
    rw [he]
    split <;> decide
  rw [length_take] at hlen
  rw [take_of_length_le (by omega)] at he
  split at he
  · exact h.1 he
  · exact h.2 he

/-- The kernel reads back what was written, if no name is that of a directory itself. -/
theorem kernel_reads_back (files : List Input) (hinodes : files.length + 1 < ninodes)
    (hblocks : firstData + blocksNeeded files ≤ size - nlog)
    (hlen : ∀ f ∈ files, f.contents.length ≤ MAXFILE * BSIZE)
    (hdistinct : files.Pairwise fun f g => f.entryName.take DIRSIZ ≠ g.entryName.take DIRSIZ)
    (hdots : ∀ f ∈ files, f.entryName ≠ dot ∧ f.entryName ≠ dotdot) :
    ((∀ f ∈ files, slash ∉ f.name) → ∃ m, mkfs files = some m) ∧ ∀ m, mkfs files = some m → ReadsBack files m := by
  have hn : 2 + files.length ≤ lowInodes := by
    have : ninodes ≤ lowInodes := by decide
    omega
  constructor
  · intro hnames
    obtain ⟨own, m, hm, _⟩ := mkfs_fits files hnames hn (fits_contents hn hlen (by omega))
    exact ⟨m, hm⟩
  intro m hm f hf s hs
  obtain ⟨own, hbuilt⟩ := mkfs_built files hn hm
  obtain ⟨j, hj⟩ := List.getElem?_of_mem hf
  have hjlt := (List.getElem?_eq_some_iff.mp hj).1
  have hslot : 2 + j < slots := by
    have : ninodes ≤ slots := by decide
    omega
  have hinum : (UInt16.ofNat (2 + j)).toNat = 2 + j :=
    UInt16.toNat_ofNat_of_lt' (Nat.lt_of_lt_of_le hslot (by decide))
  have hname : (entryAt m.disk (dinode m.disk ROOTINO) (j + 2)).hasName f.entryName := by
    rw [hbuilt.entryAt_file hj]
    refine ⟨fun h0 => ?_, (namecmp_strncpy _ _ f.entryName_string f.entryName_string).mpr rfl⟩
    have h0' : UInt16.ofNat (2 + j) = 0 := h0
    rw [h0', UInt16.toNat_zero] at hinum
    omega
  have hbefore : ∀ i, i < j + 2 → ¬(entryAt m.disk (dinode m.disk ROOTINO) i).hasName f.entryName := by
    intro i hi hcontra
    by_cases hi2 : i < 2
    · rw [hbuilt.entryAt_dots hi2] at hcontra
      have hcmp := (namecmp_strncpy _ _ f.entryName_string (by split <;> decide)).mp hcontra.2
      exact take_ne_dots (hdots f hf) i hcmp
    obtain ⟨g, hg⟩ : ∃ g, files[i - 2]? = some g := ⟨_, List.getElem?_eq_getElem (by omega)⟩
    have hentry := hbuilt.entryAt_file hg
    rw [show i - 2 + 2 = i by omega] at hentry
    rw [hentry] at hcontra
    have hcmp := (namecmp_strncpy _ _ f.entryName_string g.entryName_string).mp hcontra.2
    have hpair := pairwise_iff_getElem.mp hdistinct (i - 2) j (by omega) hjlt (by omega)
    rw [(List.getElem?_eq_some_iff.mp hg).2, (List.getElem?_eq_some_iff.mp hj).2] at hpair
    exact hpair hcmp.symm
  have hlookup := hbuilt.lookup hn hs (by omega) hname hbefore
  rw [hbuilt.entryAt_file hj] at hlookup
  refine ⟨2 + j, direntSize * (j + 2), ?_, fun n hn' => ?_⟩
  · rw [hlookup, hinum]
  · have hread := hbuilt.readi_file (i := 2 + j) hslot (by unfold ROOTINO; omega) hs n hn'
    rw [contents_file hj] at hread
    exact hread

theorem kernel_reads_back_shortFile : ∃ m, mkfs [emptyFile, shortFile] = some m ∧
    ReadsBack [emptyFile, shortFile] m := by
  have h := kernel_reads_back [emptyFile, shortFile] (by decide) (by decide) (by decide) (by decide) (by decide)
  obtain ⟨m, hm⟩ := h.1 (by decide)
  exact ⟨m, hm, h.2 m hm⟩

def dotFile : Input := ⟨[95, 46], [[2]], by decide, by simp⟩

def storeOn (m : Image) : Store := ⟨m.disk, ⟨none, 0, []⟩, 0, [], []⟩

/-- Under the name "." the kernel finds the root directory. -/
theorem kernel_finds_root_for_dot :
    dotFile.entryName ≠ [] ∧ firstData + blocksNeeded [dotFile] ≤ size - nlog ∧
      ∃ m, mkfs [dotFile] = some m ∧ ¬ReadsBack [dotFile] m := by
  obtain ⟨own, m, hm, hbuilt⟩ := mkfs_fits [dotFile] (by decide) (by decide)
    (fits_contents (by decide) (by decide) (by decide))
  refine ⟨by decide, by decide, m, hm, fun hback => ?_⟩
  obtain ⟨inum, off, hlookup, hread⟩ := hback dotFile (by simp) (storeOn m) rfl
  have hentry := hbuilt.entryAt_dots (j := 0) (by decide)
  have hfound : dirlookup (dinode m.disk ROOTINO) dotFile.entryName (storeOn m) = _ :=
    hbuilt.lookup (j := 0) (by decide) rfl (by decide) (by rw [hentry]; decide)
      fun i hi => absurd hi (Nat.not_lt_zero i)
  rw [hlookup, hentry] at hfound
  have hroot : inum = ROOTINO := by
    cases hfound
    rfl
  subst hroot
  have hcount : readCount (dinode m.disk ROOTINO) 0 1 = 1 := by
    rw [readCount, hbuilt.rootSize, length_contents_root]
    decide
  have hfile := hbuilt.files ROOTINO (by decide)
  have hback : Backed m.disk (dinode m.disk ROOTINO) (0 + readCount (dinode m.disk ROOTINO) 0 1) := by
    refine hfile.backed ?_
    rw [hcount, length_contents_root]
    decide
  have hbytes : readi (dinode m.disk ROOTINO) 0 1 (storeOn m) = _ :=
    readi_backed (Nat.zero_le _) (by decide) (hbuilt.size_le (by decide) (by decide)) hback
  rw [hread 1 (by decide), hcount] at hbytes
  have hfirst : dotFile.contents.take 1 = slice (byteOf m.disk (dinode m.disk ROOTINO)) 0 1 :=
    Option.some.inj (Prod.mk.inj (EStateM.Result.ok.inj hbytes).1).1
  rw [hbuilt.slice_eq (by decide) (by rw [length_contents_root]; decide)] at hfirst
  exact absurd hfirst (by decide)

end Xv6.Mkfs
