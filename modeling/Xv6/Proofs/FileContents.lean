import Xv6.Proofs.Allocator

/-!
# Contents of files

Reading changes nothing as long as there is a block at every place that is read.
-/

namespace Xv6.Fs

open Bytes

variable {d d' : Disk} {r ip : Dinode} {s : Store} {bn off n : Nat}

/-- The disk block that holds file block `bn`, 0 for none. -/
def blockOf (d : Disk) (r : Dinode) (bn : Nat) : Nat := addrAt d r (place bn)

def byteOf (d : Disk) (r : Dinode) (x : Nat) : UInt8 := (d (blockOf d r (x / BSIZE))).byteAt (x % BSIZE)

def contentOf (d : Disk) (r : Dinode) : List UInt8 := slice (byteOf d r) 0 r.size.toNat

def Backed (d : Disk) (r : Dinode) (n : Nat) : Prop := ∀ bn, bn * BSIZE < n → blockOf d r bn ≠ 0

def entryAt (d : Disk) (r : Dinode) (k : Nat) : Dirent :=
  Dirent.ofBytes (slice (byteOf d r) (direntSize * k) direntSize)

lemma Backed.mono {m : Nat} (h : Backed d r n) (hm : m ≤ n) : Backed d r m := fun bn hb => h bn (by omega)

lemma place_lt (h : bn < MAXFILE) : place bn < places := by
  unfold place places MAXFILE NINDIRECT NDIRECT at *
  split <;> omega

lemma place_ne_indirect (bn : Nat) : place bn ≠ NDIRECT := by
  unfold place NDIRECT
  split <;> omega

lemma place_inj {m : Nat} (h : place bn = place m) : bn = m := by
  unfold place NDIRECT at h
  split at h <;> split at h <;> omega

lemma blockOf_direct (d : Disk) (r : Dinode) (h : bn < NDIRECT) : blockOf d r bn = (r.addr bn).toNat := by
  rw [blockOf, place, if_pos h, addrAt_direct d r bn (by omega)]

lemma blockOf_indirect (d : Disk) (r : Dinode) (h0 : r.addr NDIRECT ≠ 0) (h : NDIRECT ≤ bn) (hlt : bn < MAXFILE) :
    blockOf d r bn = (wordAt (d (r.addr NDIRECT).toNat) (bn - NDIRECT)).toNat := by
  have hentry := addrAt_entry d r (bn - NDIRECT) h0 (by unfold MAXFILE at hlt; omega)
  rw [show NDIRECT + 1 + (bn - NDIRECT) = bn + 1 by omega] at hentry
  rw [blockOf, place, if_neg (by omega), hentry]

lemma blockOf_none (d : Disk) (r : Dinode) (h0 : r.addr NDIRECT = 0) (h : NDIRECT ≤ bn) : blockOf d r bn = 0 := by
  rw [blockOf, place, if_neg (by omega)]
  exact addrAt_entry_none d r _ (by omega) h0

/-! ## Reading -/

lemma bmap_backed (h : bn < MAXFILE) (hb : blockOf s.disk ip bn ≠ 0) :
    bmap ip bn s = .ok (blockOf s.disk ip bn, ip) s := by
  unfold bmap
  by_cases hd : bn < NDIRECT
  · rw [blockOf_direct _ _ hd] at hb ⊢
    rw [if_pos hd, if_neg ((toNat_ne_zero _).mp hb)]
    rfl
  have h0 : ip.addr NDIRECT ≠ 0 := fun h0 => hb (blockOf_none _ _ h0 (by omega))
  have hi := blockOf_indirect s.disk ip h0 (by omega) h
  rw [hi] at hb ⊢
  have hlt : bn - NDIRECT < NINDIRECT := by
    unfold MAXFILE at h
    omega
  rw [if_neg hd, if_pos hlt, if_neg h0]
  show (if wordAt (s.disk (ip.addr NDIRECT).toNat) (bn - NDIRECT) = 0 then _ else _ : FsM _) s = _
  rw [if_neg ((toNat_ne_zero _).mp hb)]
  rfl

lemma slice_block (d : Disk) (r : Dinode) (h : off % BSIZE + n ≤ BSIZE) :
    slice (d (blockOf d r (off / BSIZE))).byteAt (off % BSIZE) n = slice (byteOf d r) off n := by
  apply List.map_congr_left
  intro j hj
  have hj := List.mem_range.mp hj
  have hdiv : (off + j) / BSIZE = off / BSIZE := by
    unfold BSIZE at *
    omega
  have hmod : (off + j) % BSIZE = off % BSIZE + j := by
    unfold BSIZE at *
    omega
  rw [byteOf, hdiv, hmod]

lemma readLoop_backed (fuel off n : Nat) (hfuel : n ≤ fuel) (hmax : off + n ≤ MAXFILE * BSIZE)
    (hb : ∀ bn, off / BSIZE ≤ bn → bn * BSIZE < off + n → blockOf s.disk ip bn ≠ 0) :
    readLoop fuel ip off n s = .ok (slice (byteOf s.disk ip) off n, ip) s := by
  induction fuel generalizing off n with
  | zero =>
    obtain rfl : n = 0 := by omega
    rfl
  | succ fuel ih =>
    rw [readLoop]
    by_cases hn : n = 0
    · subst hn
      rfl
    have hlt : off / BSIZE < MAXFILE := by
      unfold BSIZE at *
      omega
    have hblk := bmap_backed (s := s) hlt (hb (off / BSIZE) le_rfl (by unfold BSIZE; omega))
    have hm : min n (BSIZE - off % BSIZE) ≤ n := Nat.min_le_left _ _
    have hpos : 0 < min n (BSIZE - off % BSIZE) := by
      unfold BSIZE
      omega
    have hrest := ih (off + min n (BSIZE - off % BSIZE)) (n - min n (BSIZE - off % BSIZE)) (by omega) (by omega)
      fun bn hle hlt => hb bn ((Nat.div_le_div_right (Nat.le_add_right _ _)).trans hle) (by omega)
    have hsplit := slice_append (byteOf s.disk ip) off (min n (BSIZE - off % BSIZE)) (n - min n (BSIZE - off % BSIZE))
    rw [Nat.add_sub_cancel' hm] at hsplit
    rw [hsplit, ← slice_block s.disk ip (by omega)]
    simp [hn, Bind.bind, EStateM.bind, hblk, hrest, bread_run, Pure.pure, EStateM.pure]

def readCount (ip : Dinode) (off n : Nat) : Nat := min n (ip.size.toNat - off)

lemma readi_backed (hoff : off ≤ ip.size.toNat) (hn : off + n < 2 ^ 32) (hmax : ip.size.toNat ≤ MAXFILE * BSIZE)
    (hb : Backed s.disk ip (off + readCount ip off n)) :
    readi ip off n s = .ok (some (slice (byteOf s.disk ip) off (readCount ip off n)), ip) s := by
  have hcount : (if ip.size.toNat < (off + n) % 2 ^ 32 then ip.size.toNat - off else n) = readCount ip off n := by
    rw [Nat.mod_eq_of_lt hn, readCount]
    split <;> omega
  have hle : off + readCount ip off n ≤ MAXFILE * BSIZE := by
    unfold readCount
    omega
  have hloop := readLoop_backed (s := s) (readCount ip off n) off (readCount ip off n) le_rfl hle fun bn _ => hb bn
  rw [readi, if_neg (by rw [Nat.mod_eq_of_lt hn]; omega)]
  rw [hcount]
  simp [Bind.bind, EStateM.bind, hloop, Pure.pure, EStateM.pure]

/-! ## Directories -/

/-- Entry `k` of a directory is there: within its size, and in a block. -/
def HasEntry (d : Disk) (r : Dinode) (k : Nat) : Prop :=
  direntSize * (k + 1) ≤ r.size.toNat ∧ direntSize * (k + 1) ≤ MAXFILE * BSIZE ∧
    blockOf d r (direntSize * k / BSIZE) ≠ 0

instance (d : Disk) (r : Dinode) (k : Nat) : Decidable (HasEntry d r k) := inferInstanceAs (Decidable (_ ∧ _))

lemma HasEntry.readDirent {k : Nat} (h : HasEntry s.disk ip k) (e : Panic) :
    readDirent e ip (direntSize * k) s = .ok (entryAt s.disk ip k, ip) s := by
  obtain ⟨hsize, hmax, hblock⟩ := h
  have hloop : readLoop direntSize ip (direntSize * k) direntSize s = _ :=
    readLoop_backed _ _ _ le_rfl hmax fun bn hle hlt => by
      rwa [show bn = direntSize * k / BSIZE by unfold direntSize BSIZE at *; omega]
  have hread : readi ip (direntSize * k) direntSize s =
      .ok (some (slice (byteOf s.disk ip) (direntSize * k) direntSize), ip) s := by
    have hlt : direntSize * k + direntSize < 2 ^ 32 := by
      unfold direntSize MAXFILE NINDIRECT NDIRECT BSIZE at *
      omega
    rw [readi, Nat.mod_eq_of_lt hlt, if_neg (by unfold direntSize at *; omega)]
    dsimp only
    rw [if_neg (by unfold direntSize at *; omega)]
    simp [Bind.bind, EStateM.bind, hloop, Pure.pure, EStateM.pure]
  simp [Fs.readDirent, Bind.bind, EStateM.bind, hread, Pure.pure, EStateM.pure, entryAt]

def Dirent.hasName (name : List UInt8) (de : Dirent) : Prop := de.inum ≠ 0 ∧ namecmp name de.name = 0

instance (name : List UInt8) (de : Dirent) : Decidable (de.hasName name) := inferInstanceAs (Decidable (_ ∧ _))

/-- What `dirlookup` finds: the inode and the offset of the first entry with the name. -/
def entryOf (d : Disk) (r : Dinode) (name : List UInt8) : Option (Nat × Nat) :=
  ((List.range (r.size.toNat / direntSize)).find? fun k => (entryAt d r k).hasName name).map fun k =>
    ((entryAt d r k).inum.toNat, direntSize * k)

lemma entryOf_eq {name : List UInt8} {k : Nat} (hk : k < r.size.toNat / direntSize)
    (hname : (entryAt d r k).hasName name)
    (hbefore : ∀ i, i < k → ¬(entryAt d r i).hasName name) :
    entryOf d r name = some ((entryAt d r k).inum.toNat, direntSize * k) := by
  rw [entryOf, List.find?_range_eq_some.mpr ⟨by simpa using hname, List.mem_range.mpr hk, by simpa using hbefore⟩]
  rfl

lemma entryOf_none {name : List UInt8} {k : Nat} (hk : r.size.toNat ≤ direntSize * k)
    (hbefore : ∀ i, i < k → ¬(entryAt d r i).hasName name) : entryOf d r name = none := by
  rw [entryOf, List.find?_eq_none.mpr]
  · rfl
  · intro i hi
    have := List.mem_range.mp hi
    simpa using hbefore i (by unfold direntSize at *; omega)

/-- `dirlookup` of the name reads no entry that is not there: one that has the name is the last. -/
def Searchable (d : Disk) (r : Dinode) (name : List UInt8) : Prop :=
  ∀ k, direntSize * k < r.size.toNat → (∀ i, i < k → ¬(entryAt d r i).hasName name) → HasEntry d r k

instance (d : Disk) (r : Dinode) (name : List UInt8) : Decidable (Searchable d r name) :=
  decidable_of_iff (∀ k, k < r.size.toNat / direntSize + 1 → direntSize * k < r.size.toNat →
      (∀ i, i < k → ¬(entryAt d r i).hasName name) → HasEntry d r k)
    ⟨fun h k hk => h k (by unfold direntSize at *; omega) hk, fun h k _ => h k⟩

lemma Searchable.lookupFrom {name : List UInt8} (h : Searchable s.disk ip name) (fuel j : Nat)
    (hfuel : ip.size.toNat ≤ direntSize * (j + fuel)) (hbefore : ∀ i, i < j → ¬(entryAt s.disk ip i).hasName name) :
    lookupFrom name fuel ip (direntSize * j) s = .ok (entryOf s.disk ip name, ip) s := by
  induction fuel generalizing j with
  | zero =>
    rw [entryOf_none hfuel hbefore]
    rfl
  | succ fuel ih =>
    rw [Fs.lookupFrom]
    by_cases hlt : direntSize * j < ip.size.toNat
    · have hentry := h j hlt hbefore
      simp only [if_pos hlt, Bind.bind, EStateM.bind, hentry.readDirent]
      by_cases hname : (entryAt s.disk ip j).hasName name
      · rw [entryOf_eq (by have := hentry.1; unfold direntSize at *; omega) hname hbefore]
        exact congrFun (if_pos hname) s
      · refine (congrFun (if_neg hname) s).trans (ih (j + 1) (by rwa [Nat.add_right_comm]) fun i hi => ?_)
        rcases Nat.lt_succ_iff_lt_or_eq.mp hi with hi | rfl
        · exact hbefore i hi
        · exact hname
    · rw [if_neg hlt, entryOf_none (Nat.not_lt.mp hlt) hbefore]
      rfl

lemma Searchable.dirlookup {name : List UInt8} (h : Searchable s.disk ip name) (htype : ip.type = T_DIR) :
    dirlookup ip name s = .ok (entryOf s.disk ip name, ip) s := by
  rw [Fs.dirlookup, if_neg (not_not.mpr htype)]
  exact h.lookupFrom _ 0 (by unfold direntSize; omega) nofun

lemma dirlookup_found {name : List UInt8} {k : Nat} (htype : ip.type = T_DIR)
    (hsize : direntSize * (k + 1) ≤ ip.size.toNat) (hmax : ip.size.toNat ≤ MAXFILE * BSIZE)
    (hb : Backed s.disk ip (direntSize * (k + 1))) (hk : (entryAt s.disk ip k).hasName name)
    (hbefore : ∀ i, i < k → ¬(entryAt s.disk ip i).hasName name) :
    dirlookup ip name s = .ok (some ((entryAt s.disk ip k).inum.toNat, direntSize * k), ip) s := by
  have hsearch : Searchable s.disk ip name := by
    intro j _ hj
    have hle : j ≤ k := Nat.not_lt.mp fun hlt => hj k hlt hk
    refine ⟨?_, ?_, hb _ ?_⟩ <;>
    · unfold direntSize BSIZE at *
      omega
  rw [hsearch.dirlookup htype, entryOf_eq (by unfold direntSize at *; omega) hk hbefore]

/-! ## Files with their blocks -/

/-- Inode `i` with the record `r` is a file that begins with the bytes `l`, and with zeroes after
them: it has blocks for its first `nb` file blocks, an indirect block if `ind`, and owns them. -/
structure FileAt (own : Owners) (d : Disk) (i : Nat) (r : Dinode) (l : List UInt8) (nb : Nat) (ind : Bool) : Prop where
  fits : l.length ≤ nb * BSIZE
  le : nb ≤ MAXFILE
  blocks : ∀ bn, bn < MAXFILE → (blockOf d r bn ≠ 0 ↔ bn < nb)
  indirect : r.addr NDIRECT ≠ 0 ↔ ind = true
  far : NDIRECT < nb → ind = true
  owns : ∀ k, k < places → addrAt d r k ≠ 0 → own (addrAt d r k) = some (i, k)
  bytes : ∀ x, x < nb * BSIZE → byteOf d r x = l.getD x 0

lemma div_lt_blocks {x nb : Nat} : x / BSIZE < nb ↔ x < nb * BSIZE := Nat.div_lt_iff_lt_mul (by decide)

namespace FileAt

variable {own own' : Owners} {i nb b : Nat} {l q : List UInt8} {ind : Bool} {t : Table Block}

lemma empty (own : Owners) (d : Disk) (i : Nat) (hr : ∀ k, r.addr k = 0) : FileAt own d i r [] 0 false := by
  have haddr : ∀ k, addrAt d r k = 0 := by
    intro k
    unfold addrAt
    rw [hr, hr, if_pos (Or.inl rfl)]
    split <;> rfl
  refine ⟨Nat.zero_le _, Nat.zero_le _, fun bn _ => ?_, ?_, fun h => absurd h (Nat.not_lt_zero _), fun k _ h0 => ?_,
    fun x hx => ?_⟩
  · rw [blockOf, haddr]
    simp
  · rw [hr]
    simp
  · exact absurd (haddr k) h0
  · rw [Nat.zero_mul] at hx
    exact absurd hx (Nat.not_lt_zero x)

lemma owns_block (h : FileAt own d i r l nb ind) (hbn : bn < nb) : own (blockOf d r bn) = some (i, place bn) :=
  have hlt := Nat.lt_of_lt_of_le hbn h.le
  h.owns _ (place_lt hlt) ((h.blocks bn hlt).mpr hbn)

lemma owns_indirect (h : FileAt own d i r l nb ind) (h0 : r.addr NDIRECT ≠ 0) :
    own (r.addr NDIRECT).toNat = some (i, NDIRECT) := by
  have ho := h.owns NDIRECT (by decide)
  rw [addrAt_direct d r NDIRECT le_rfl] at ho
  exact ho ((toNat_ne_zero _).mpr h0)

lemma block_inj {m : Nat} (h : FileAt own d i r l nb ind) (hbn : bn < nb) (hm : m < nb)
    (he : blockOf d r bn = blockOf d r m) : bn = m := by
  have h1 := h.owns_block hbn
  rw [he, h.owns_block hm] at h1
  exact (place_inj (Prod.mk.inj (Option.some.inj h1)).2).symm

lemma backed (h : FileAt own d i r l nb ind) (hn : n ≤ nb * BSIZE) : Backed d r n := by
  intro bn hb
  have hlt : bn < nb := Nat.lt_of_mul_lt_mul_right (Nat.lt_of_lt_of_le hb hn)
  exact (h.blocks bn (Nat.lt_of_lt_of_le hlt h.le)).mpr hlt

lemma div_le (h : FileAt own d i r l nb ind) (hoff : off ≤ l.length) : off / BSIZE ≤ nb :=
  Nat.div_le_of_le_mul (Nat.mul_comm _ _ ▸ hoff.trans h.fits)

lemma no_block (h : FileAt own d i r l nb ind) (hbn : nb ≤ bn) (hlt : bn < MAXFILE) : blockOf d r bn = 0 := by
  by_contra hne
  exact absurd ((h.blocks bn hlt).mp hne) (Nat.not_lt.mpr hbn)

lemma no_indirect (h : FileAt own d i r l nb false) : r.addr NDIRECT = 0 := by
  by_contra hne
  exact Bool.false_ne_true (h.indirect.mp hne)

lemma addr_zero (h : FileAt own d i r l nb ind) (hnb : nb < NDIRECT) : r.addr nb = 0 := by
  have hb := h.no_block le_rfl (Nat.lt_of_lt_of_le hnb (by decide))
  rw [blockOf_direct _ _ hnb] at hb
  exact UInt32.toNat_inj.mp hb

lemma entry_zero (h : FileAt own d i r l nb true) (hnb : NDIRECT ≤ nb) (hmax : nb < MAXFILE) :
    wordAt (d (r.addr NDIRECT).toNat) (nb - NDIRECT) = 0 := by
  have hb := h.no_block le_rfl hmax
  rw [blockOf_indirect _ _ (h.indirect.mpr rfl) hnb hmax] at hb
  exact UInt32.toNat_inj.mp hb

lemma past {x : Nat} (h : FileAt own d i r l nb ind) (hx : nb ≤ x / BSIZE) : l.getD x 0 = 0 := by
  have hlen : l.length ≤ x := h.fits.trans ((Nat.le_div_iff_mul_le (by decide)).mp hx)
  rw [List.getD_eq_getElem?_getD, List.getElem?_eq_none hlen]
  rfl

lemma take_bytes (h : FileAt own d i r l nb ind) (hn : n ≤ l.length) : l.take n = slice (byteOf d r) 0 n := by
  apply List.ext_getElem
  · rw [List.length_take, length_slice, Nat.min_eq_left hn]
  intro x h1 h2
  rw [length_slice] at h2
  have hx : x < l.length := by omega
  have hbyte := h.bytes x (hx.trans_le h.fits)
  rw [List.getD_eq_getElem?_getD, List.getElem?_eq_getElem hx, Option.getD_some] at hbyte
  simp [slice, hbyte]

lemma contentOf_eq (h : FileAt own d i r l nb ind) (hn : r.size.toNat ≤ l.length) :
    contentOf d r = l.take r.size.toNat :=
  (h.take_bytes hn).symm

lemma congr (h : FileAt own d i r l nb ind) (hd : ∀ b k, own b = some (i, k) → d' b = d b)
    (ho : ∀ b k, own b = some (i, k) → own' b = some (i, k)) : FileAt own' d' i r l nb ind := by
  have ha : ∀ k, addrAt d' r k = addrAt d r k := addrAt_congr fun h0 => hd _ _ (h.owns_indirect h0)
  have hblock : ∀ bn, blockOf d' r bn = blockOf d r bn := fun bn => ha _
  refine ⟨h.fits, h.le, fun bn hbn => ?_, h.indirect, h.far, fun k hk h0 => ?_, fun x hx => ?_⟩
  · rw [hblock]
    exact h.blocks bn hbn
  · rw [ha] at h0 ⊢
    exact ho _ _ (h.owns k hk h0)
  · have hlt : x / BSIZE < nb := div_lt_blocks.mpr hx
    rw [byteOf, hblock, hd _ _ (h.owns_block hlt)]
    exact h.bytes x hx

/-- A write to a block of the file leaves its addresses. -/
lemma addrAt_write (h : FileAt own t i r l nb ind) (hbn : bn < nb) (v : Block) (k : Nat) :
    addrAt (t.set (blockOf t r bn) v) r k = addrAt t r k := by
  refine addrAt_congr (fun h0 => Table.get_set_ne _ _ fun he => ?_) k
  have ho := h.owns_indirect h0
  rw [he, h.owns_block hbn] at ho
  exact place_ne_indirect _ (Prod.mk.inj (Option.some.inj ho)).2

lemma write (h : FileAt own t i r l nb ind) (hoff : off ≤ l.length) (hbn : off / BSIZE < nb)
    (hq : off % BSIZE + q.length ≤ BSIZE) :
    FileAt own (t.set (blockOf t r (off / BSIZE)) ((t (blockOf t r (off / BSIZE))).splice (off % BSIZE) q)) i r
      (overwrite l off q) nb ind := by
  have ha := h.addrAt_write hbn ((t (blockOf t r (off / BSIZE))).splice (off % BSIZE) q)
  refine ⟨?_, h.le, fun bn hlt => ?_, h.indirect, h.far, fun k hk h0 => ?_, fun x hx => ?_⟩
  · have := h.fits
    rw [length_overwrite l off q hoff]
    unfold BSIZE at *
    omega
  · rw [blockOf, ha]
    exact h.blocks bn hlt
  · rw [ha] at h0 ⊢
    exact h.owns k hk h0
  · have hx' : x / BSIZE < nb := div_lt_blocks.mpr hx
    rw [byteOf, show blockOf _ r (x / BSIZE) = blockOf t r (x / BSIZE) from ha _, getD_overwrite l off q hoff]
    by_cases hsame : x / BSIZE = off / BSIZE
    · rw [hsame, Table.get_set_self, Packed.byteAt_splice _ _ _ _ hq]
      by_cases hin : off ≤ x ∧ x < off + q.length
      · rw [if_pos hin, if_pos (by unfold BSIZE at *; omega)]
        congr 1
        unfold BSIZE at *
        omega
      · rw [if_neg hin, if_neg (by unfold BSIZE at *; omega), ← h.bytes x hx, byteOf, hsame]
    · have hne : blockOf t r (x / BSIZE) ≠ blockOf t r (off / BSIZE) := fun he => hsame (h.block_inj hx' hbn he)
      rw [Table.get_set_ne _ _ hne, if_neg, ← h.bytes x hx, byteOf]
      unfold BSIZE at *
      omega

lemma owns_update {a a' : Nat → Nat} {j : Nat} (ha : ∀ k, a' k = if k = j then b else a k) (hfree : own b = none)
    (ho : ∀ k, k < places → a k ≠ 0 → own (a k) = some (i, k)) (k : Nat) (hk : k < places) (h0 : a' k ≠ 0) :
    Function.update own b (some (i, j)) (a' k) = some (i, k) := by
  rw [ha] at h0 ⊢
  split
  · rename_i hkj
    rw [hkj, Function.update_self]
  rename_i hkj
  rw [if_neg hkj] at h0
  have hown := ho k hk h0
  have hkb : a k ≠ b := by
    intro he
    rw [he, hfree] at hown
    cases hown
  rw [Function.update_of_ne hkb]
  exact hown

/-- The file gets the zeroed block `b` behind its last one. -/
lemma grow {r' : Dinode} (h : FileAt own d i r l nb ind) (hlt : nb < MAXFILE) (hfar : NDIRECT ≤ nb → ind = true)
    (ha : ∀ k, addrAt d' r' k = if k = place nb then b else addrAt d r k) (hind : r'.addr NDIRECT = r.addr NDIRECT)
    (hkeep : ∀ bn, bn < nb → d' (blockOf d r bn) = d (blockOf d r bn)) (hzero : d' b = 0) (hfree : own b = none)
    (h0 : b ≠ 0) : FileAt (Function.update own b (some (i, place nb))) d' i r' l (nb + 1) ind := by
  have hblock : ∀ bn, blockOf d' r' bn = if bn = nb then b else blockOf d r bn := by
    intro bn
    rw [blockOf, ha, blockOf]
    by_cases hbn : bn = nb
    · rw [if_pos hbn, if_pos (by rw [hbn])]
    · rw [if_neg hbn, if_neg fun he => hbn (place_inj he)]
  refine ⟨?_, hlt, fun bn hbn => ?_, ?_, fun hlast => hfar (by omega), owns_update ha hfree h.owns, fun x hx => ?_⟩
  · exact h.fits.trans (Nat.mul_le_mul_right _ (Nat.le_succ _))
  · rw [hblock]
    have := h.blocks bn hbn
    split
    · omega
    · rw [this]
      omega
  · rw [hind]
    exact h.indirect
  · have hx' : x / BSIZE < nb + 1 := div_lt_blocks.mpr hx
    rw [byteOf, hblock]
    split
    · rename_i hxn
      rw [hzero, h.past hxn.ge, Packed.byteAt]
      simp
    · rename_i hxn
      rw [hkeep _ (by omega)]
      exact h.bytes x (div_lt_blocks.mp (by omega))

lemma growDirect (h : FileAt own d i r l nb ind) (hnb : nb < NDIRECT) (hzero : d b = 0) (hfree : own b = none)
    (h0 : b ≠ 0) (hb : b < 2 ^ 32) :
    FileAt (Function.update own b (some (i, nb))) d i (r.setAddr nb (UInt32.ofNat b)) l (nb + 1) ind := by
  have hplace : place nb = nb := if_pos hnb
  have hadd : ∀ k, k ≠ nb → (r.setAddr nb (UInt32.ofNat b)).addr k = r.addr k :=
    fun k hk => Dinode.addr_setAddr_ne r nb k _ hk
  have hne : NDIRECT ≠ nb := by omega
  have ha : ∀ k, addrAt d (r.setAddr nb (UInt32.ofNat b)) k = if k = place nb then b else addrAt d r k := by
    intro k
    rw [hplace]
    by_cases hk : k = nb
    · subst hk
      rw [if_pos rfl, addrAt_direct _ _ _ (by omega), Dinode.addr_setAddr_self r k _ (by omega),
        UInt32.toNat_ofNat_of_lt' hb]
    · unfold addrAt
      rw [if_neg hk, hadd k hk, hadd NDIRECT hne]
  have hgrow := h.grow (Nat.lt_of_lt_of_le hnb (by decide)) (fun hfar => by omega) ha (hadd NDIRECT hne)
    (fun _ _ => rfl) hzero hfree h0
  rwa [hplace] at hgrow

lemma wordAt_zero_block (j : Nat) : wordAt (0 : Block) j = 0 := by
  rw [wordAt, Packed.loadLE_zero]
  rfl

lemma growIndirect (h : FileAt own d i r l nb false) (hzero : d b = 0) (hfree : own b = none) (h0 : b ≠ 0)
    (hb : b < 2 ^ 32) :
    FileAt (Function.update own b (some (i, NDIRECT))) d i (r.setAddr NDIRECT (UInt32.ofNat b)) l nb true := by
  have hto : (UInt32.ofNat b).toNat = b := UInt32.toNat_ofNat_of_lt' hb
  have hnone := h.no_indirect
  have hself : (r.setAddr NDIRECT (UInt32.ofNat b)).addr NDIRECT = UInt32.ofNat b :=
    Dinode.addr_setAddr_self r NDIRECT _ le_rfl
  have hnew : (r.setAddr NDIRECT (UInt32.ofNat b)).addr NDIRECT ≠ 0 := by
    rw [hself]
    exact ofNat_ne_zero h0 hb
  have ha : ∀ k, addrAt d (r.setAddr NDIRECT (UInt32.ofNat b)) k = if k = NDIRECT then b else addrAt d r k := by
    intro k
    by_cases hk : k = NDIRECT
    · subst hk
      rw [if_pos rfl, addrAt_direct _ _ _ le_rfl, hself, hto]
    rw [if_neg hk]
    by_cases hlt : k < NDIRECT
    · rw [addrAt_direct _ _ _ (by omega), addrAt_direct _ _ _ (by omega), Dinode.addr_setAddr_ne r _ _ _ hk]
    rw [addrAt_entry_none d r k (by omega) hnone]
    unfold addrAt
    rw [if_neg (by omega), hself, hto, hzero, wordAt_zero_block]
    split <;> rfl
  have hblock : ∀ bn, blockOf d (r.setAddr NDIRECT (UInt32.ofNat b)) bn = blockOf d r bn := by
    intro bn
    rw [blockOf, ha, if_neg (place_ne_indirect bn), blockOf]
  refine ⟨h.fits, h.le, fun bn hlt => ?_, iff_of_true hnew rfl, fun _ => rfl, fun k hk hk0 => ?_, fun x hx => ?_⟩
  · rw [hblock]
    exact h.blocks bn hlt
  · exact owns_update ha hfree h.owns k hk hk0
  · rw [byteOf, hblock]
    exact h.bytes x hx

lemma growEntry (h : FileAt own t i r l nb true) (hnb : NDIRECT ≤ nb) (hlt : nb < MAXFILE) (hzero : t b = 0)
    (hfree : own b = none) (h0 : b ≠ 0) (hb : b < 2 ^ 32) :
    FileAt (Function.update own b (some (i, place nb)))
      (t.set (r.addr NDIRECT).toNat (setWord (t (r.addr NDIRECT).toNat) (nb - NDIRECT) (UInt32.ofNat b))) i r l (nb + 1)
      true := by
  have hind : r.addr NDIRECT ≠ 0 := h.indirect.mpr rfl
  have hj : nb - NDIRECT < NINDIRECT := by
    unfold MAXFILE at hlt
    omega
  have hplace : NDIRECT + 1 + (nb - NDIRECT) = place nb := by
    unfold place
    rw [if_neg (by omega)]
    omega
  have ha := Core.addrAt_setWord (t := t) (r := r) rfl hind hj (UInt32.ofNat b)
  rw [hplace, UInt32.toNat_ofNat_of_lt' hb] at ha
  have hown := h.owns_indirect hind
  have hbi : b ≠ (r.addr NDIRECT).toNat := by
    rintro rfl
    rw [hfree] at hown
    cases hown
  refine h.grow hlt (fun _ => rfl) ha rfl (fun bn hbn => Table.get_set_ne _ _ fun he => ?_) ?_ hfree h0
  · have ho := h.owns_block hbn
    rw [he, hown] at ho
    exact place_ne_indirect _ (Prod.mk.inj (Option.some.inj ho)).2.symm
  · rw [Table.get_set_ne _ _ hbi, hzero]

end FileAt

end Xv6.Fs
