import Xv6.Proofs.Format
import Xv6.Lib.Outcome

/-!
# Block ownership

A map `own` assigns every block that an inode refers to to one place of that inode, which keeps files
apart. `Core` relates it to a set of inode records, on disk, in the cache or in the hands of a
function.
-/

namespace Xv6.Fs

open Bytes

def dataStart (L : Superblock) : Nat := L.ninodes / IPB + 3 + (L.size / BPB + 1)

def bitCount (L : Superblock) : Nat := (L.size / BPB + 1) * BPB

def places : Nat := NDIRECT + 1 + NINDIRECT

/-- Every entry of a directory block names an inode of the table. -/
def DirBlock (ninodes : Nat) (b : Block) : Prop := ∀ k, k < 32 → (direntAt b k).inum.toNat < ninodes

abbrev Owners := Nat → Option (Nat × Nat)

abbrev Records := Nat → Dinode → Prop

/-- What a record of inode `i` may rely on: the blocks it refers to are its own, place by
place, and those of a directory hold entries. -/
structure Holds (L : Superblock) (own : Owners) (d : Disk) (i : Nat) (r : Dinode) : Prop where
  owns : ∀ k, k < places → addrAt d r k ≠ 0 → own (addrAt d r k) = some (i, k)
  dirs : r.type = T_DIR → ∀ k, k < places → k ≠ NDIRECT → addrAt d r k ≠ 0 →
    DirBlock L.ninodes (d (addrAt d r k))

structure Core (L : Superblock) (own : Owners) (R : Records) (d : Disk) : Prop where
  super : superblock d = L
  size_lt : L.size < 2 ^ 31
  reserved : ∀ b, b < dataStart L → inUse d L.ninodes b = true
  area : ∀ b x, own b = some x → dataStart L ≤ b ∧ b < bitCount L ∧ inUse d L.ninodes b = true
  recs : ∀ i r, R i r → i < L.ninodes ∧ Holds L own d i r

variable {L : Superblock} {own own' : Owners} {R R' : Records} {d d' : Disk} {t : Table Block}
  {i b : Nat} {r : Dinode}

lemma iblock_lt_dataStart (hi : i < L.ninodes) : iblock i < dataStart L := by
  unfold iblock dataStart IPB BPB BSIZE
  omega

lemma bblock_lt_dataStart (hb : b < bitCount L) : bblock b L.ninodes < dataStart L := by
  unfold bitCount BPB BSIZE at hb
  unfold bblock dataStart BPB BSIZE
  omega

lemma lt_bitCount (hb : b < L.size) : b < bitCount L := by
  unfold bitCount BPB BSIZE
  omega

lemma one_lt_dataStart : 1 < dataStart L := by
  unfold dataStart IPB BPB BSIZE
  omega

lemma bblock_ne_one (b n : Nat) : bblock b n ≠ 1 := by
  unfold bblock BPB BSIZE IPB
  omega

lemma iblock_ne_one (i : Nat) : iblock i ≠ 1 := by
  unfold iblock IPB
  omega

lemma iblock_ne_bblock (hi : i < L.ninodes) (b : Nat) : iblock i ≠ bblock b L.ninodes := by
  unfold iblock bblock IPB BPB BSIZE
  omega

/-! ## Addresses -/

lemma addrAt_congr (h : r.addr NDIRECT ≠ 0 → d' (r.addr NDIRECT).toNat = d (r.addr NDIRECT).toNat)
    (k : Nat) : addrAt d' r k = addrAt d r k := by
  unfold addrAt
  by_cases hk : k ≤ NDIRECT
  · simp [hk]
  · by_cases h0 : r.addr NDIRECT = 0
    · simp [hk, h0]
    · simp [hk, h0, h h0]

lemma addrAt_direct (d : Disk) (r : Dinode) (k : Nat) (hk : k ≤ NDIRECT) :
    addrAt d r k = (r.addr k).toNat := by
  simp [addrAt, hk]

lemma addrAt_entry (d : Disk) (r : Dinode) (j : Nat) (h0 : r.addr NDIRECT ≠ 0) (hj : j < NINDIRECT) :
    addrAt d r (NDIRECT + 1 + j) = (wordAt (d (r.addr NDIRECT).toNat) j).toNat := by
  have hk : ¬NDIRECT + 1 + j ≤ NDIRECT := by omega
  have hj' : ¬NINDIRECT ≤ j := by omega
  simp [addrAt, hk, h0, hj']

lemma addrAt_entry_none (d : Disk) (r : Dinode) (k : Nat) (hk : NDIRECT < k)
    (h0 : r.addr NDIRECT = 0) : addrAt d r k = 0 := by
  simp [addrAt, Nat.not_le.mpr hk, h0]

lemma toNat_ne_zero (a : UInt32) : a.toNat ≠ 0 ↔ a ≠ 0 := by
  rw [Ne, Ne, ← UInt32.toNat_inj]
  rfl

lemma ofNat_ne_zero {b : Nat} (h0 : b ≠ 0) (hb : b < 2 ^ 32) : UInt32.ofNat b ≠ 0 := by
  rw [← toNat_ne_zero, UInt32.toNat_ofNat_of_lt' hb]
  exact h0

lemma Holds.congr (h : Holds L own d i r)
    (hd : ∀ k, k < places → addrAt d r k ≠ 0 → d' (addrAt d r k) = d (addrAt d r k))
    (ho : ∀ k, k < places → addrAt d r k ≠ 0 → own' (addrAt d r k) = own (addrAt d r k)) :
    Holds L own' d' i r := by
  have hind := hd NDIRECT (by decide)
  rw [addrAt_direct d r NDIRECT le_rfl, toNat_ne_zero] at hind
  have ha : ∀ k, addrAt d' r k = addrAt d r k := addrAt_congr hind
  constructor
  · intro k hk hne
    rw [ha] at hne ⊢
    rw [ho k hk hne, h.owns k hk hne]
  intro ht k hk hk' hne
  rw [ha] at hne ⊢
  rw [hd k hk hne]
  exact h.dirs ht k hk hk' hne

lemma Holds.congr_owned (h : Holds L own d i r) (hd : ∀ b, own b ≠ none → d' b = d b)
    (ho : ∀ b, own b ≠ none → own' b = own b) : Holds L own' d' i r :=
  h.congr (fun k hk hne => hd _ (by simp [h.owns k hk hne]))
    (fun k hk hne => ho _ (by simp [h.owns k hk hne]))

namespace Core

lemma free_ge (h : Core L own R d) (hb : inUse d L.ninodes b = false) : dataStart L ≤ b := by
  by_contra hlt
  have := h.reserved b (by omega)
  simp [this] at hb

lemma free_unowned (h : Core L own R d) (hb : inUse d L.ninodes b = false) : own b = none := by
  cases ho : own b with
  | none => rfl
  | some x => simp [(h.area b x ho).2.2] at hb

def allocated (t : Table Block) (nin b : Nat) : Table Block :=
  (t.set (bblock b nin) ((t (bblock b nin)).setBit (b % BPB))).set b 0

lemma inUse_allocated (hs : dataStart L ≤ b) (c : Nat) (hc : c < bitCount L) :
    inUse (allocated t L.ninodes b) L.ninodes c = (decide (c = b) || inUse t L.ninodes c) := by
  have hne : bblock c L.ninodes ≠ b := by
    have := bblock_lt_dataStart hc
    omega
  rw [allocated, inUse_set_ne _ _ _ _ _ hne, inUse_setBit]

lemma allocated_other (c : Nat) (hc : c ≠ b) (hc' : c ≠ bblock b L.ninodes) :
    allocated t L.ninodes b c = t c := by
  simp [allocated, hc, hc']

lemma superblock_congr (h : d' 1 = d 1) : superblock d' = superblock d := by
  simp [superblock, h]

lemma alloc (h : Core L own R t) (hfree : inUse t L.ninodes b = false) (hb : b < bitCount L)
    (x : Nat × Nat) :
    Core L (Function.update own b (some x)) R (allocated t L.ninodes b) := by
  have hs := h.free_ge hfree
  have hbb := bblock_lt_dataStart hb
  have hone := one_lt_dataStart (L := L)
  have hun := h.free_unowned hfree
  have hkeep : ∀ c, own c ≠ none → allocated t L.ninodes b c = t c := by
    intro c hc
    obtain ⟨y, hy⟩ := Option.ne_none_iff_exists'.mp hc
    have ha := (h.area c y hy).1
    apply allocated_other
    · rintro rfl
      exact hc hun
    · omega
  have hown : ∀ c, own c ≠ none → Function.update own b (some x) c = own c := by
    intro c hc
    have hcb : c ≠ b := by
      rintro rfl
      exact hc hun
    simp [hcb]
  constructor
  · rw [superblock_congr, h.super]
    exact allocated_other 1 (by omega) (bblock_ne_one b L.ninodes).symm
  · exact h.size_lt
  · intro c hc
    rw [inUse_allocated hs c (by
      unfold dataStart BPB BSIZE IPB at *
      unfold bitCount BPB BSIZE at *
      omega), h.reserved c hc, Bool.or_true]
  · intro c y hy
    by_cases hcb : c = b
    · subst hcb
      exact ⟨hs, hb, by simp [inUse_allocated hs c hb]⟩
    · have hy' : own c = some y := by simpa [hcb] using hy
      obtain ⟨h1, h2, h3⟩ := h.area c y hy'
      exact ⟨h1, h2, by simp [inUse_allocated hs c h2, h3]⟩
  · intro j y hj
    exact ⟨(h.recs j y hj).1, (h.recs j y hj).2.congr_owned hkeep hown⟩

lemma setTable (h : Core L own R t) (hi : i < L.ninodes) (v : Block) :
    Core L own R (t.set (iblock i) v) := by
  have hlt := iblock_lt_dataStart hi
  have hkeep : ∀ c, dataStart L ≤ c → t.set (iblock i) v c = t c := by
    intro c hc
    exact Table.get_set_ne _ _ (by omega)
  have hbits : ∀ c, inUse (t.set (iblock i) v) L.ninodes c = inUse t L.ninodes c :=
    fun c => inUse_set_ne _ _ _ _ _ (iblock_ne_bblock hi c).symm
  constructor
  · rw [superblock_congr, h.super]
    exact Table.get_set_ne _ _ (iblock_ne_one i).symm
  · exact h.size_lt
  · intro c hc
    rw [hbits, h.reserved c hc]
  · intro c y hy
    rw [hbits]
    exact h.area c y hy
  · intro j r hj
    obtain ⟨hlt, hold⟩ := h.recs j r hj
    exact ⟨hlt, hold.congr (fun k hk h0 => hkeep _ (h.area _ _ (hold.owns k hk h0)).1)
      (fun _ _ _ => rfl)⟩

lemma setOwned {k : Nat} (h : Core L own R t) (hb : own b = some (i, k)) (v : Block)
    (hR : ∀ r, R i r → addrAt t r k = b → Holds L own (t.set b v) i r) :
    Core L own R (t.set b v) := by
  obtain ⟨hs, hlt, -⟩ := h.area b _ hb
  have hone := one_lt_dataStart (L := L)
  have hbits : ∀ c, c < bitCount L → inUse (t.set b v) L.ninodes c = inUse t L.ninodes c := by
    intro c hc
    have := bblock_lt_dataStart hc
    exact inUse_set_ne _ _ _ _ _ (by omega)
  constructor
  · rw [superblock_congr, h.super]
    exact Table.get_set_ne _ _ (by omega)
  · exact h.size_lt
  · intro c hc
    rw [hbits c (by omega), h.reserved c hc]
  · intro c y hy
    rw [hbits c (h.area c y hy).2.1]
    exact h.area c y hy
  · intro j r hj
    obtain ⟨hjlt, hold⟩ := h.recs j r hj
    refine ⟨hjlt, ?_⟩
    by_cases href : j = i ∧ addrAt t r k = b
    · obtain ⟨rfl, href⟩ := href
      exact hR r hj href
    -- the block belongs to one place of one inode, so this record does not refer to it
    refine hold.congr (fun k' hk' h0 => Table.get_set_ne _ _ ?_) (fun _ _ _ => rfl)
    intro he
    have ho := hold.owns k' hk' h0
    rw [he, hb] at ho
    cases ho
    exact href ⟨rfl, he⟩

lemma addrAt_setWord (hr : (r.addr NDIRECT).toNat = b) (h0 : r.addr NDIRECT ≠ 0) {j : Nat}
    (hj : j < NINDIRECT) (w : UInt32) (k : Nat) :
    addrAt (t.set b (setWord (t b) j w)) r k =
      if k = NDIRECT + 1 + j then w.toNat else addrAt t r k := by
  by_cases hk : k = NDIRECT + 1 + j
  · subst hk
    rw [if_pos rfl, addrAt_entry _ _ _ h0 hj, hr, Table.get_set_self, wordAt_setWord_same _ _ _ hj]
  rw [if_neg hk]
  unfold addrAt
  by_cases hle : k ≤ NDIRECT
  · simp [hle]
  · have hne : j ≠ k - (NDIRECT + 1) := by omega
    simp [hle, h0, hr, wordAt_setWord_other _ _ _ _ hj hne]

end Core

end Xv6.Fs
