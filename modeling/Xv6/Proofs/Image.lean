import Xv6.Proofs.FileContents
import Xv6.Mkfs
import Mathlib.Algebra.BigOperators.Intervals

/-!
# Images

Each inode is a file with its bytes and exactly the blocks these need, taken one after the other from
the first data block on. The inode table has room for `slots` inodes; the next ones lie in the bitmap
block, which is written last.
-/

namespace Xv6.Mkfs

open Fs Bytes List

def slots : Nat := (ninodes / IPB + 1) * IPB

/-- The inodes in the blocks before the first data block. -/
def lowInodes : Nat := slots + IPB

def firstData : Nat := ninodes / IPB + 3 + bitblocks

def blocksFor (n : Nat) : Nat := (n + (BSIZE - 1)) / BSIZE

def isLong (n : Nat) : Bool := decide (NDIRECT < blocksFor n)

def need (n : Nat) : Nat := blocksFor n + (isLong n).toNat

/-- Inode `i` with the record `r` holds the bytes `l`, in no more blocks than needed. -/
abbrev FileIn (own : Owners) (d : Disk) (i : Nat) (r : Dinode) (l : List UInt8) : Prop :=
  FileAt own d i r l (blocksFor l.length) (isLong l.length)

/-- The blocks from `freeblock` on are new and those before it counted. -/
structure Space (own : Owners) (m : Image) : Prop where
  counted : m.usedblocks = m.freeblock
  first : firstData ≤ m.freeblock
  within : m.freeblock ≤ size
  fresh : ∀ b, m.freeblock ≤ b → m.disk b = 0
  area : ∀ b x, own b = some x → firstData ≤ b ∧ b < m.freeblock

/-- From `m` to `m'` at most blocks of inode `i` have changed. -/
structure Kept (i : Nat) (own : Owners) (m : Image) (own' : Owners) (m' : Image) : Prop where
  owners : ∀ b x, own b = some x → own' b = some x
  others : ∀ b j k, own b = some (j, k) → j ≠ i → m'.disk b = m.disk b
  low : ∀ b, b < firstData → m'.disk b = m.disk b
  inodes : m'.freeinode = m.freeinode

variable {own own' : Owners} {m m' : Image} {i nb n : Nat} {din din' : Dinode} {l q p : List UInt8} {ind : Bool}

lemma Kept.refl : Kept i own m own m := ⟨fun _ _ h => h, fun _ _ _ _ _ => rfl, fun _ _ => rfl, rfl⟩

lemma Kept.trans {own'' : Owners} {m'' : Image} (h : Kept i own m own' m') (h' : Kept i own' m' own'' m'') :
    Kept i own m own'' m'' where
  owners b x hb := h'.owners b x (h.owners b x hb)
  others b j k hb hj := (h'.others b j k (h.owners b _ hb) hj).trans (h.others b j k hb hj)
  low b hb := (h'.low b hb).trans (h.low b hb)
  inodes := h'.inodes.trans h.inodes

lemma Kept.file {j : Nat} (h : Kept i own m own' m') (hj : j ≠ i) (hf : FileAt own m.disk j din l nb ind) :
    FileAt own' m'.disk j din l nb ind :=
  hf.congr (fun b k hb => h.others b j k hb hj) fun b _ hb => h.owners b _ hb

lemma Kept.dinode_eq (h : Kept i own m own' m') {j : Nat} (hj : j < lowInodes) :
    dinode m'.disk j = dinode m.disk j := by
  have hlow : iblock j < firstData := by
    unfold lowInodes slots at hj
    unfold iblock firstData bitblocks ninodes IPB size at *
    omega
  unfold dinode
  rw [h.low _ hlow]

/-! ## Taking blocks -/

namespace Space

lemma unowned (h : Space own m) : own m.freeblock = none := by
  cases ho : own m.freeblock with
  | none => rfl
  | some x =>
    have := h.area _ x ho
    omega

lemma freeblock_lt (h : Space own m) : m.freeblock < 2 ^ 32 := Nat.lt_of_le_of_lt h.within (by decide)

lemma freeblock_ne (h : Space own m) : m.freeblock ≠ 0 := Nat.ne_of_gt (Nat.lt_of_lt_of_le (by decide) h.first)

lemma read (h : Space own m) {b : Nat} {x : Nat × Nat} (hb : own b = some x) : rsect m b = some (m.disk b) := by
  have ha := h.area b x hb
  have hw := h.within
  rw [rsect, if_pos (by omega)]

lemma newBlock (h : Space own m) (hroom : m.freeblock < size) (x : Nat × Nat) :
    Space (Function.update own m.freeblock (some x)) (newBlock m).2 where
  counted := congrArg (· + 1) h.counted
  first := h.first.trans (Nat.le_succ _)
  within := hroom
  fresh b hb := h.fresh b (Nat.le_of_succ_le hb)
  area b y hb := by
    show firstData ≤ b ∧ b < m.freeblock + 1
    by_cases he : b = m.freeblock
    · exact ⟨he ▸ h.first, by omega⟩
    · rw [Function.update_of_ne he] at hb
      have ha := h.area b y hb
      exact ⟨ha.1, by omega⟩

lemma kept_newBlock (h : Space own m) (x : Nat × Nat) :
    Kept i own m (Function.update own m.freeblock (some x)) (Mkfs.newBlock m).2 where
  owners b y hb := by
    have hne : b ≠ m.freeblock := by
      rintro rfl
      rw [h.unowned] at hb
      cases hb
    rw [Function.update_of_ne hne]
    exact hb
  others _ _ _ _ _ := rfl
  low _ _ := rfl
  inodes := rfl

lemma write (h : Space own m) {b : Nat} {x : Nat × Nat} (hb : own b = some x) (v : Block) :
    Space own (wsect m b v) where
  counted := h.counted
  first := h.first
  within := h.within
  fresh c hc := by
    have ha := h.area b x hb
    have hne : c ≠ b := by
      rintro rfl
      exact absurd hc (Nat.not_le.mpr ha.2)
    exact (Table.get_set_ne _ _ hne).trans (h.fresh c hc)
  area := h.area

lemma kept_write (h : Space own m) {b k : Nat} (hb : own b = some (i, k)) (v : Block) :
    Kept i own m own (wsect m b v) where
  owners _ _ hc := hc
  others c j k' hc hj := by
    have hne : c ≠ b := by
      rintro rfl
      rw [hb] at hc
      exact hj (Prod.mk.inj (Option.some.inj hc)).1.symm
    exact Table.get_set_ne _ _ hne
  low c hc := by
    have ha := h.area b _ hb
    have hne : c ≠ b := by omega
    exact Table.get_set_ne _ _ hne
  inodes := rfl

end Space

lemma blockFor_old (h : Space own m) (hf : FileAt own m.disk i din l nb ind) {bn : Nat} (hbn : bn < nb) :
    blockFor m din bn = some (blockOf m.disk din bn, din, m) := by
  have hmax := Nat.lt_of_lt_of_le hbn hf.le
  have hne := (hf.blocks bn hmax).mpr hbn
  unfold blockFor
  by_cases hd : bn < NDIRECT
  · rw [blockOf_direct _ _ hd] at hne ⊢
    rw [if_pos hd, if_neg ((toNat_ne_zero _).mp hne)]
  have h0 : din.addr NDIRECT ≠ 0 := fun h0 => hne (blockOf_none _ _ h0 (by omega))
  rw [blockOf_indirect _ _ h0 (by omega) hmax] at hne ⊢
  rw [if_neg hd, indirectFor, if_neg h0]
  dsimp only
  rw [h.read (hf.owns_indirect h0)]
  show (if _ then _ else _) = _
  rw [if_neg ((toNat_ne_zero _).mp hne)]

/-- What `blockFor` does for the first file block that has none. -/
structure Grown (own : Owners) (m : Image) (i : Nat) (din : Dinode) (l : List UInt8) (nb : Nat) (own' : Owners)
    (m' : Image)
    (din' : Dinode) : Prop where
  space : Space own' m'
  kept : Kept i own m own' m'
  file : FileAt own' m'.disk i din' l (nb + 1) (decide (NDIRECT < nb + 1))
  type : din'.type = din.type

lemma blockFor_direct (h : Space own m) (hroom : m.freeblock < size)
    (hf : FileAt own m.disk i din l nb (decide (NDIRECT < nb))) (hnb : nb < NDIRECT) :
    ∃ own' m' din', blockFor m din nb = some (blockOf m'.disk din' nb, din', m') ∧ Grown own m i din l nb own' m' din' ∧
      m'.freeblock = m.freeblock + 1 := by
  have hgrow := hf.growDirect hnb (h.fresh _ le_rfl) h.unowned h.freeblock_ne h.freeblock_lt
  have hz := hf.addr_zero hnb
  have hshort : decide (NDIRECT < nb) = decide (NDIRECT < nb + 1) := by
    rw [decide_eq_false (by omega), decide_eq_false (by omega)]
  rw [hshort] at hgrow
  refine ⟨_, (newBlock m).2, din.setAddr nb (UInt32.ofNat m.freeblock), ?_,
    ⟨h.newBlock hroom (i, nb), h.kept_newBlock _, hgrow, rfl⟩, rfl⟩
  rw [blockFor, if_pos hnb, if_pos hz, blockOf_direct _ _ hnb, Dinode.addr_setAddr_self _ _ _ (by omega),
    UInt32.toNat_ofNat_of_lt' h.freeblock_lt]
  rfl

lemma blockFor_entry (h : Space own m) (hroom : m.freeblock < size) (hf : FileAt own m.disk i din l nb true)
    (hnb : NDIRECT ≤ nb) (hmax : nb < MAXFILE) :
    ∃ own' m', blockFor m din nb = some (blockOf m'.disk din nb, din, m') ∧ Grown own m i din l nb own' m' din ∧
      m'.freeblock = m.freeblock + 1 := by
  have h0 : din.addr NDIRECT ≠ 0 := hf.indirect.mpr rfl
  have hown := hf.owns_indirect h0
  have hgrow := hf.growEntry hnb hmax (h.fresh _ le_rfl) h.unowned h.freeblock_ne h.freeblock_lt
  have hz := hf.entry_zero hnb hmax
  have hj : nb - NDIRECT < 128 := by
    unfold MAXFILE NINDIRECT at hmax
    omega
  have hnew := h.newBlock hroom (i, place nb)
  have hown' : Function.update own m.freeblock (some (i, place nb)) (din.addr NDIRECT).toNat = some (i, NDIRECT) :=
    (h.kept_newBlock (i := i) (i, place nb)).owners _ _ hown
  have hlong : (true : Bool) = decide (NDIRECT < nb + 1) := (decide_eq_true (by omega)).symm
  rw [hlong] at hgrow
  refine ⟨_, wsect (newBlock m).2 (din.addr NDIRECT).toNat
      (setWord (m.disk (din.addr NDIRECT).toNat) (nb - NDIRECT) (UInt32.ofNat m.freeblock)), ?_,
    ⟨hnew.write hown' _, (h.kept_newBlock _).trans (hnew.kept_write hown' _), hgrow, rfl⟩, rfl⟩
  rw [blockFor, if_neg (by omega), indirectFor, if_neg h0]
  dsimp only
  rw [h.read hown]
  show (if _ then _ else _) = _
  rw [if_pos hz, blockOf_indirect _ _ h0 hnb hmax]
  simp only [wsect, Table.get_set_self, wordAt_setWord_same _ _ _ hj]
  rw [UInt32.toNat_ofNat_of_lt' h.freeblock_lt]
  rfl

def extra (nb : Nat) : Nat := if nb = NDIRECT then 2 else 1

/-- With no indirect block yet, `blockFor` takes one and goes on as if it had always been there. -/
lemma blockFor_indirect (h : Space own m) (hf : FileAt own m.disk i din l NDIRECT false) :
    FileAt (Function.update own m.freeblock (some (i, NDIRECT))) (newBlock m).2.disk i
      (din.setAddr NDIRECT (UInt32.ofNat m.freeblock)) l NDIRECT true ∧ din.addr NDIRECT = 0 ∧
    blockFor m din NDIRECT = blockFor (newBlock m).2 (din.setAddr NDIRECT (UInt32.ofNat m.freeblock)) NDIRECT := by
  have hgrow := hf.growIndirect (h.fresh _ le_rfl) h.unowned h.freeblock_ne h.freeblock_lt
  have h0 := hf.no_indirect
  have h1 : (din.setAddr NDIRECT (UInt32.ofNat m.freeblock)).addr NDIRECT ≠ 0 := hgrow.indirect.mpr rfl
  refine ⟨hgrow, h0, ?_⟩
  rw [blockFor, blockFor, if_neg (lt_irrefl _), if_neg (lt_irrefl _), indirectFor, indirectFor, if_pos h0, if_neg h1]
  rfl

lemma blockFor_new (h : Space own m) (hroom : m.freeblock + extra nb ≤ size)
    (hf : FileAt own m.disk i din l nb (decide (NDIRECT < nb))) (hmax : nb < MAXFILE) :
    ∃ own' m' din', blockFor m din nb = some (blockOf m'.disk din' nb, din', m') ∧ Grown own m i din l nb own' m' din' ∧
      m'.freeblock = m.freeblock + extra nb := by
  unfold extra at hroom ⊢
  by_cases hnb : nb = NDIRECT
  · subst hnb
    rw [if_pos rfl] at hroom ⊢
    obtain ⟨hgrow, -, hsame⟩ := blockFor_indirect h hf
    have hnew := h.newBlock (by omega) (i, NDIRECT)
    obtain ⟨own', m', hblock, hgrown, hfree⟩ := blockFor_entry hnew (by show m.freeblock + 1 < size; omega) hgrow
      le_rfl hmax
    exact ⟨own', m', _, hsame.trans hblock, ⟨hgrown.space, (h.kept_newBlock _).trans hgrown.kept, hgrown.file, rfl⟩,
      hfree⟩
  · rw [if_neg hnb] at hroom ⊢
    by_cases hd : nb < NDIRECT
    · exact blockFor_direct h (by omega) hf hd
    · rw [decide_eq_true (by omega)] at hf
      obtain ⟨own', m', hblock, hgrown, hfree⟩ := blockFor_entry h (by omega) hf (by omega) hmax
      exact ⟨own', m', din, hblock, hgrown, hfree⟩

lemma blockFor_entry_full (h : Space own m) (hfull : size ≤ m.freeblock) (hf : FileAt own m.disk i din l nb true)
    (hnb : NDIRECT ≤ nb) (hmax : nb < MAXFILE) : ∀ x, blockFor m din nb = some x → size ≤ x.1 := by
  intro x hx
  have h0 : din.addr NDIRECT ≠ 0 := hf.indirect.mpr rfl
  rw [blockFor, if_neg (by omega), indirectFor, if_neg h0] at hx
  dsimp only at hx
  rw [h.read (hf.owns_indirect h0), Option.bind_eq_bind, Option.bind_some, if_pos (hf.entry_zero hnb hmax)] at hx
  cases hx
  exact hfull

lemma blockFor_full (h : Space own m) (hfull : size < m.freeblock + extra nb)
    (hf : FileAt own m.disk i din l nb (decide (NDIRECT < nb))) (hmax : nb < MAXFILE) :
    ∀ x, blockFor m din nb = some x → size ≤ x.1 := by
  unfold extra at hfull
  by_cases hnb : nb = NDIRECT
  · subst hnb
    rw [if_pos rfl] at hfull
    obtain ⟨hgrow, h0, hsame⟩ := blockFor_indirect h hf
    intro x hx
    by_cases hroom : m.freeblock < size
    · exact blockFor_entry_full (h.newBlock hroom (i, NDIRECT))
        (by show size ≤ m.freeblock + 1; omega) hgrow le_rfl hmax
        x (hsame.symm.trans hx)
    rw [blockFor, if_neg (lt_irrefl _), indirectFor, if_pos h0] at hx
    dsimp only [newBlock] at hx
    rw [Dinode.addr_setAddr_self _ _ _ le_rfl, UInt32.toNat_ofNat_of_lt' h.freeblock_lt, rsect, if_neg hroom] at hx
    cases hx
  · rw [if_neg hnb] at hfull
    by_cases hd : nb < NDIRECT
    · intro x hx
      rw [blockFor, if_pos hd, if_pos (hf.addr_zero hd)] at hx
      cases hx
      exact Nat.le_of_lt_succ hfull
    · rw [decide_eq_true (by omega)] at hf
      exact blockFor_entry_full h (by omega) hf (by omega) hmax

/-! ## The loop of iappend -/

/-- One round of the loop, for bytes that stay within a block. -/
def appendChunk (m : Image) (din : Dinode) (off : Nat) (q : List UInt8) : Option (Image × Dinode) := do
  let (x, din, m) ← blockFor m din (off / BSIZE)
  let buf ← rsect m x
  some (wsect m x (buf.splice (off % BSIZE) q), din)

lemma appendChunk_eq {off x : Nat} {buf : Block} (hb : blockFor m din (off / BSIZE) = some (x, din', m'))
    (hr : rsect m' x = some buf) : appendChunk m din off q = some (wsect m' x (buf.splice (off % BSIZE) q), din') := by
  simp [appendChunk, hb, hr]

def chunk (off p : Nat) : Nat := min p (BSIZE - off % BSIZE)

lemma appendLoop_round (fuel off : Nat) (hp : p.length ≠ 0) (hmax : off / BSIZE < MAXFILE) :
    appendLoop (fuel + 1) m din off p =
      (appendChunk m din off (p.take (chunk off p.length))).bind fun (m, din) =>
        appendLoop fuel m din (off + chunk off p.length) (p.drop (chunk off p.length)) := by
  have hn : min p.length ((off / 512 + 1) * 512 - off) = chunk off p.length := by
    unfold chunk BSIZE
    omega
  have hoff : off - off / 512 * 512 = off % BSIZE := by
    unfold BSIZE
    omega
  rw [appendLoop, if_neg hp]
  rw [if_neg (by unfold BSIZE at hmax; omega), hn, hoff, appendChunk]
  simp only [BSIZE, Option.bind_eq_bind, Option.bind_assoc, Option.bind_some]

lemma chunk_blocks (off n : Nat) (hn : 0 < n) (hfit : off % BSIZE + n ≤ BSIZE) :
    off % BSIZE = 0 ∧ blocksFor off = off / BSIZE ∧ blocksFor (off + n) = off / BSIZE + 1 ∨
    off % BSIZE ≠ 0 ∧ blocksFor off = off / BSIZE + 1 ∧ blocksFor (off + n) = blocksFor off := by
  unfold blocksFor BSIZE at *
  omega

lemma need_succ {n n' : Nat} (h : blocksFor n' = blocksFor n + 1) : need n' = need n + extra (blocksFor n) := by
  unfold need isLong extra
  rw [h]
  by_cases h1 : blocksFor n = NDIRECT
  · rw [if_pos h1, decide_eq_true (by omega), decide_eq_false (by omega)]
    rfl
  rw [if_neg h1]
  by_cases h2 : NDIRECT < blocksFor n
  · rw [decide_eq_true h2, decide_eq_true (by omega)]
    omega
  · rw [decide_eq_false h2, decide_eq_false (by omega)]
    omega

lemma need_congr {n n' : Nat} (h : blocksFor n' = blocksFor n) : need n' = need n := by
  unfold need isLong
  rw [h]

/-- The state of the loop: the file so far, in the working copy `din` of its inode. -/
structure Work (i : Nat) (own : Owners) (m : Image) (din : Dinode) (l : List UInt8) : Prop where
  space : Space own m
  file : FileIn own m.disk i din l

lemma writeChunk (h : Space own m) (hf : FileAt own m.disk i din l nb ind) (hbn : l.length / BSIZE < nb)
    (hfit : l.length % BSIZE + q.length ≤ BSIZE) :
    ∃ m', m' = wsect m (blockOf m.disk din (l.length / BSIZE))
        ((m.disk (blockOf m.disk din (l.length / BSIZE))).splice (l.length % BSIZE) q) ∧
      rsect m (blockOf m.disk din (l.length / BSIZE)) = some (m.disk (blockOf m.disk din (l.length / BSIZE))) ∧
      Space own m' ∧ FileAt own m'.disk i din (l ++ q) nb ind ∧ Kept i own m own m' ∧ m'.freeblock = m.freeblock := by
  have hown := hf.owns_block hbn
  have hw := hf.write le_rfl hbn hfit
  rw [overwrite_end] at hw
  exact ⟨_, rfl, h.read hown, h.write hown _, hw, h.kept_write hown _, rfl⟩

lemma appendChunk_room (h : Work i own m din l) (hq : 0 < q.length) (hfit : l.length % BSIZE + q.length ≤ BSIZE)
    (hmax : l.length / BSIZE < MAXFILE)
    (hroom : m.freeblock + need (l.length + q.length) ≤ size + need l.length) :
    ∃ own' m' din', appendChunk m din l.length q = some (m', din') ∧ Work i own' m' din' (l ++ q) ∧
      Kept i own m own' m' ∧ din'.type = din.type ∧
      m'.freeblock + need l.length = m.freeblock + need (l.length + q.length) := by
  have hf : FileAt own m.disk i din l (blocksFor l.length) (decide (NDIRECT < blocksFor l.length)) := h.file
  rcases chunk_blocks l.length q.length hq hfit with ⟨_, hnb, hnb'⟩ | ⟨_, hnb, hnb'⟩
  · have hneed := need_succ (hnb'.trans (congrArg (· + 1) hnb.symm))
    rw [hnb] at hf
    rw [hneed, hnb] at hroom ⊢
    obtain ⟨own₁, m₁, din₁, hblock, hgrown, hfree⟩ := blockFor_new h.space (by omega) hf hmax
    obtain ⟨m₂, hm₂, hread, hspace, hfile, hkept, hsame⟩ :=
      writeChunk (q := q) hgrown.space hgrown.file (Nat.lt_succ_self _) hfit
    refine ⟨own₁, m₂, din₁, ?_, ⟨hspace, ?_⟩, hgrown.kept.trans hkept, hgrown.type, by omega⟩
    · rw [hm₂]
      exact appendChunk_eq hblock hread
    · unfold FileIn isLong
      rw [length_append, hnb']
      exact hfile
  · have hneed := need_congr hnb'
    have hbn : l.length / BSIZE < blocksFor l.length := by omega
    obtain ⟨m₂, hm₂, hread, hspace, hfile, hkept, hsame⟩ := writeChunk (q := q) h.space hf hbn hfit
    refine ⟨own, m₂, din, ?_, ⟨hspace, ?_⟩, hkept, rfl, by omega⟩
    · rw [hm₂]
      exact appendChunk_eq (blockFor_old h.space hf hbn) hread
    · unfold FileIn isLong
      rw [length_append, hnb']
      exact hfile

lemma appendChunk_full (h : Work i own m din l) (hq : 0 < q.length) (hfit : l.length % BSIZE + q.length ≤ BSIZE)
    (hmax : l.length / BSIZE < MAXFILE)
    (hfull : size + need l.length < m.freeblock + need (l.length + q.length)) :
    appendChunk m din l.length q = none := by
  have hf : FileAt own m.disk i din l (blocksFor l.length) (decide (NDIRECT < blocksFor l.length)) := h.file
  have hw := h.space.within
  rcases chunk_blocks l.length q.length hq hfit with ⟨_, hnb, hnb'⟩ | ⟨_, hnb, hnb'⟩
  · have hneed := need_succ (hnb'.trans (congrArg (· + 1) hnb.symm))
    rw [hnb] at hf
    rw [hneed, hnb] at hfull
    cases hblock : blockFor m din (l.length / BSIZE) with
    | none =>
      rw [appendChunk, hblock]
      rfl
    | some x =>
      have hx := blockFor_full h.space (by omega) hf hmax x hblock
      have hread : rsect x.2.2 x.1 = none := if_neg (Nat.not_lt.mpr hx)
      simp [appendChunk, hblock, hread]
  · rw [need_congr hnb'] at hfull
    omega

def Room (m : Image) (len n : Nat) : Prop := len + n ≤ MAXFILE * BSIZE ∧ m.freeblock + need (len + n) ≤ size + need len

lemma Work.room_nil (h : Work i own m din l) : Room m l.length 0 :=
  ⟨h.file.fits.trans (Nat.mul_le_mul_right _ h.file.le), Nat.add_le_add_right h.space.within _⟩

lemma need_mono {a b : Nat} (h : a ≤ b) : need a ≤ need b := by
  have hle : blocksFor a ≤ blocksFor b := by
    unfold blocksFor BSIZE
    omega
  unfold need isLong
  by_cases hlong : NDIRECT < blocksFor a
  · rw [decide_eq_true hlong, decide_eq_true (by omega)]
    omega
  · rw [decide_eq_false hlong, Bool.toNat_false]
    omega

lemma appendLoop_spec (fuel : Nat) (h : Work i own m din l) (hp : p.length ≤ fuel) :
    (Room m l.length p.length → ∃ own' m' din',
      appendLoop fuel m din l.length p = some (m', din', l.length + p.length) ∧ Work i own' m' din' (l ++ p) ∧
      Kept i own m own' m' ∧ din'.type = din.type ∧
      m'.freeblock + need l.length = m.freeblock + need (l.length + p.length)) ∧
    (¬Room m l.length p.length → appendLoop fuel m din l.length p = none) := by
  induction fuel generalizing own m din l p with
  | zero =>
    obtain rfl : p = [] := length_eq_zero_iff.mp (by omega)
    rw [append_nil]
    exact ⟨fun _ => ⟨own, m, din, rfl, h, .refl, rfl, rfl⟩, fun hfull => absurd h.room_nil hfull⟩
  | succ fuel ih =>
    by_cases hzero : p.length = 0
    · obtain rfl : p = [] := length_eq_zero_iff.mp hzero
      rw [append_nil]
      exact ⟨fun _ => ⟨own, m, din, rfl, h, .refl, rfl, rfl⟩, fun hfull => absurd h.room_nil hfull⟩
    by_cases hmax : l.length / BSIZE < MAXFILE
    · rw [appendLoop_round fuel l.length hzero hmax]
      have hc : chunk l.length p.length ≤ p.length := Nat.min_le_left _ _
      have hc0 : 0 < chunk l.length p.length := by
        unfold chunk BSIZE
        omega
      have htake : (p.take (chunk l.length p.length)).length = chunk l.length p.length := by
        rw [length_take, Nat.min_eq_left hc]
      have hdrop : (p.drop (chunk l.length p.length)).length = p.length - chunk l.length p.length := length_drop
      have hfit : l.length % BSIZE + (p.take (chunk l.length p.length)).length ≤ BSIZE := by
        rw [htake]
        unfold chunk BSIZE
        omega
      have hmono := need_mono (Nat.add_le_add_left hc l.length)
      by_cases hroom : m.freeblock + need (l.length + chunk l.length p.length) ≤ size + need l.length
      · obtain ⟨own₁, m₁, din₁, hchunk, hwork, hkept, htype, hfree⟩ :=
          appendChunk_room h (by omega) hfit hmax (by rw [htake]; exact hroom)
        rw [htake] at hfree
        have hlen : (l ++ p.take (chunk l.length p.length)).length = l.length + chunk l.length p.length := by
          rw [length_append, htake]
        have hnext := ih (p := p.drop (chunk l.length p.length)) hwork (by omega)
        have hsum : l.length + chunk l.length p.length + (p.length - chunk l.length p.length) =
          l.length + p.length := by
          omega
        rw [hlen, hdrop, append_assoc, take_append_drop, hsum] at hnext
        have hsame : Room m₁ (l.length + chunk l.length p.length) (p.length - chunk l.length p.length) ↔
            Room m l.length p.length := by
          unfold Room
          rw [hsum]
          constructor
          · rintro ⟨h1, h2⟩
            exact ⟨h1, by omega⟩
          · rintro ⟨h1, h2⟩
            exact ⟨h1, by omega⟩
        rw [hchunk, Option.bind_some]
        constructor
        · intro hr
          obtain ⟨own₂, m₂, din₂, hloop, hwork₂, hkept₂, htype₂, hfree₂⟩ := hnext.1 (hsame.mpr hr)
          exact ⟨own₂, m₂, din₂, hloop, hwork₂, hkept.trans hkept₂, htype₂.trans htype, by omega⟩
        · intro hr
          exact hnext.2 fun hr' => hr (hsame.mp hr')
      · have hfull := appendChunk_full h (by omega) hfit hmax (by rw [htake]; omega)
        refine ⟨fun hr => absurd hr.2 (by omega), fun _ => ?_⟩
        rw [hfull]
        rfl
    · refine ⟨fun hr => absurd hr.1 ?_, fun _ => ?_⟩
      · have hle : MAXFILE * BSIZE ≤ l.length := (Nat.le_div_iff_mul_le (by decide)).mp (Nat.not_lt.mp hmax)
        omega
      · rw [appendLoop, if_neg hzero]
        exact if_pos (Nat.not_lt.mp hmax)

end Xv6.Mkfs
