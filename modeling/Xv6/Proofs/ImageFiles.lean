import Xv6.Proofs.Image

/-!
# The files of an image

A list of files that fits gives an image, and one that does not fit gives none.
-/

namespace Xv6.Mkfs

open Fs Bytes List Function

abbrev Contents := Nat → List UInt8

def total (c : Contents) : Nat := ∑ i ∈ Finset.range lowInodes, need (c i).length

def Fits (c : Contents) : Prop := (∀ i, i < lowInodes → (c i).length ≤ MAXFILE * BSIZE) ∧ firstData + total c ≤ size

instance (c : Contents) : Decidable (Fits c) := inferInstanceAs (Decidable (_ ∧ _))

/-- The type of inode `i` when `k` is the next one to be allocated. -/
def typeOf (k i : Nat) : UInt16 := if i = 0 ∨ k ≤ i then 0 else if i = ROOTINO then T_DIR else T_FILE

/-- The image holds the files `c`, in the inodes below `k`; inodes from `n` on may be lost. -/
structure Body (n : Nat) (own : Owners) (c : Contents) (k : Nat) (m : Image) : Prop where
  space : Space own m
  next : m.freeinode = k
  super : m.disk 1 = format.disk 1
  files : ∀ i, i < n → FileIn own m.disk i (dinode m.disk i) (c i)
  types : ∀ i, i < n → (dinode m.disk i).type = typeOf k i
  taken : m.freeblock = firstData + total c
  spare : ∀ i, k ≤ i → c i = []

structure Laid (own : Owners) (c : Contents) (k : Nat) (m : Image) : Prop extends Body lowInodes own c k m where
  sizes : ∀ i, i < lowInodes → (dinode m.disk i).size.toNat = (c i).length

variable {own own' : Owners} {m m' : Image} {i k n : Nat} {din din' r r' : Dinode} {l q p : List UInt8}
    {c c' : Contents}

lemma iblock_lt (hi : i < slots) : iblock i < ninodes / IPB + 3 := by
  unfold slots at hi
  unfold iblock ninodes IPB at *
  omega

lemma iblock_lt_firstData (hi : i < lowInodes) : iblock i < firstData := by
  unfold lowInodes slots at hi
  unfold iblock firstData bitblocks size ninodes IPB at *
  omega

lemma iblock_lt_size (hi : i < lowInodes) : iblock i < size := Nat.lt_trans (iblock_lt_firstData hi) (by decide)

lemma rinode_eq (m : Image) (hi : i < lowInodes) : rinode m i = some (dinode m.disk i) := by
  rw [rinode, rsect, if_pos (iblock_lt_size hi)]
  rfl

def putInode (m : Image) (i : Nat) (ip : Dinode) : Image :=
  wsect m (iblock i) (ip.store (m.disk (iblock i)) (i % IPB))

lemma winode_eq (m : Image) (hi : i < lowInodes) (ip : Dinode) : winode m i ip = some (putInode m i ip) := by
  rw [winode, rsect, if_pos (iblock_lt_size hi)]
  rfl

lemma dinode_putInode (m : Image) (i j : Nat) (ip : Dinode) :
    dinode (putInode m i ip).disk j = if j = i then ip else dinode m.disk j := dinode_set_iblock m.disk i j ip

/-! ## Blocks before the data -/

lemma Space.writeLow (h : Space own m) {b : Nat} (hb : b < firstData) (v : Block) : Space own (wsect m b v) where
  counted := h.counted
  first := h.first
  within := h.within
  fresh c hc := by
    have hf := h.first
    have hc' : m.freeblock ≤ c := hc
    have hne : c ≠ b := by omega
    exact (Table.get_set_ne _ _ hne).trans (h.fresh c hc)
  area := h.area

lemma Space.fileLow {nb : Nat} {ind : Bool} (h : Space own m) {b : Nat} (hb : b < firstData) (v : Block)
    (hf : FileAt own m.disk i r l nb ind) : FileAt own (wsect m b v).disk i r l nb ind := by
  apply hf.congr
  · intro b' k hown
    have ha := h.area b' _ hown
    have hne : b' ≠ b := by omega
    exact Table.get_set_ne _ _ hne
  · intro b' k hown
    exact hown

lemma FileAt_of_addr {d : Disk} {nb : Nat} {ind : Bool} (h : FileAt own d i r l nb ind)
    (ha : ∀ k, r'.addr k = r.addr k) :
    FileAt own d i r' l nb ind := by
  have haddr : ∀ k, addrAt d r' k = addrAt d r k := by
    intro k
    unfold addrAt
    rw [ha, ha]
  have hblock : ∀ bn, blockOf d r' bn = blockOf d r bn := fun bn => haddr _
  refine ⟨h.fits, h.le, fun bn hbn => ?_, ?_, h.far, fun k hk h0 => ?_, fun x hx => ?_⟩
  · rw [hblock]
    exact h.blocks bn hbn
  · rw [ha]
    exact h.indirect
  · rw [haddr] at h0 ⊢
    exact h.owns k hk h0
  · rw [byteOf, hblock]
    exact h.bytes x hx

/-! ## Appending -/

lemma total_update (c : Contents) (hi : i < lowInodes) (l : List UInt8) :
    total (Function.update c i l) + need (c i).length = total c + need l.length := by
  have hmem : i ∈ Finset.range lowInodes := Finset.mem_range.mpr hi
  have hrest : ∑ j ∈ (Finset.range lowInodes).erase i, need (Function.update c i l j).length =
      ∑ j ∈ (Finset.range lowInodes).erase i, need (c j).length := by
    apply Finset.sum_congr rfl
    intro j hj
    rw [update_of_ne (Finset.ne_of_mem_erase hj)]
  have h1 := Finset.add_sum_erase _ (fun j => need (Function.update c i l j).length) hmem
  have h2 := Finset.add_sum_erase _ (fun j => need (c j).length) hmem
  simp only [update_self] at h1
  unfold total
  rw [← h1, ← h2, hrest]
  omega

lemma Body.length_le (h : Body n own c k m) (hi : i < n) : (c i).length ≤ MAXFILE * BSIZE :=
  (h.files i hi).fits.trans (Nat.mul_le_mul_right _ (h.files i hi).le)

lemma Body.room_iff (h : Body lowInodes own c k m) (hi : i < lowInodes) (p : List UInt8) :
    Room m (c i).length p.length ↔ Fits (Function.update c i (c i ++ p)) := by
  have ht := total_update c hi (c i ++ p)
  have hk := h.taken
  rw [length_append] at ht
  constructor
  · rintro ⟨hlen, hroom⟩
    refine ⟨fun j hj => ?_, by omega⟩
    by_cases hji : j = i
    · subst hji
      rw [update_self, length_append]
      exact hlen
    · rw [update_of_ne hji]
      exact h.length_le hj
  · rintro ⟨hlen, hroom⟩
    refine ⟨?_, by omega⟩
    have := hlen i hi
    rw [update_self, length_append] at this
    exact this

/-- A result of a part of `mkfs`: the image with the files `c`, if they fit. -/
def Builds (x : Option Image) (c : Contents) (k : Nat) : Prop :=
  (Fits c → ∃ own m, x = some m ∧ Laid own c k m) ∧ (¬Fits c → x = none)

lemma iappend_builds (h : Laid own c k m) (hi : i < lowInodes) (hik : i < k) (p : List UInt8) :
    Builds (iappend m i p) (Function.update c i (c i ++ p)) k := by
  have hstart : iappend m i p = (appendLoop p.length m (dinode m.disk i) (c i).length p).bind fun x =>
      winode x.1 i { x.2.1 with size := UInt32.ofNat x.2.2 } := by
    rw [iappend, rinode_eq m hi, Option.bind_eq_bind, Option.bind_some, h.sizes i hi]
    rfl
  obtain ⟨hroom, hfull⟩ := appendLoop_spec (p := p) p.length ⟨h.space, h.files i hi⟩ le_rfl
  rw [Builds, ← h.room_iff hi, hstart]
  refine ⟨fun hr => ?_, fun hr => by rw [hfull hr]; rfl⟩
  obtain ⟨own', m', din', hloop, hwork, hkept, htype, hfree⟩ := hroom hr
  have hlow := iblock_lt_firstData hi
  have ht := total_update c hi (c i ++ p)
  have hk := h.taken
  rw [length_append] at ht
  have hsize : (UInt32.ofNat ((c i).length + p.length)).toNat = (c i).length + p.length :=
    UInt32.toNat_ofNat_of_lt' (Nat.lt_of_le_of_lt hr.1 (by decide))
  rw [hloop, Option.bind_some]
  rw [winode_eq _ hi]
  refine ⟨own', _, rfl, ⟨hwork.space.writeLow hlow _, hkept.inodes.trans h.next, ?_, fun j hj => ?_, fun j hj => ?_, ?_,
    fun j hj => ?_⟩, fun j hj => ?_⟩
  · have hne : 1 ≠ iblock i := (iblock_ne_one i).symm
    exact (Table.get_set_ne _ _ hne).trans ((hkept.low 1 (by decide)).trans h.super)
  · apply hwork.space.fileLow hlow
    rw [dinode_putInode]
    by_cases hji : j = i
    · subst hji
      rw [if_pos rfl, update_self]
      exact FileAt_of_addr hwork.file fun _ => rfl
    · rw [if_neg hji, update_of_ne hji, hkept.dinode_eq hj]
      exact hkept.file hji (h.files j hj)
  · rw [dinode_putInode]
    split
    · rename_i hji
      subst hji
      exact htype.trans (h.types j hj)
    · rw [hkept.dinode_eq hj]
      exact h.types j hj
  · show m'.freeblock = _
    omega
  · rw [update_of_ne (by omega)]
    exact h.spare j hj
  · rw [dinode_putInode]
    by_cases hji : j = i
    · subst hji
      rw [if_pos rfl, update_self, length_append]
      exact hsize
    · rw [if_neg hji, update_of_ne hji, hkept.dinode_eq hj]
      exact h.sizes j hj

lemma ialloc_laid (h : Laid own c k m) (hk : k < lowInodes) (h0 : k ≠ 0) :
    ∃ m', ialloc m (if k = ROOTINO then T_DIR else T_FILE) = some (k, m') ∧ Laid own c (k + 1) m' := by
  have hlow := iblock_lt_firstData hk
  have hspare := h.spare k le_rfl
  obtain rfl := h.next
  refine ⟨putInode { m with freeinode := m.freeinode + 1 } m.freeinode
    { Dinode.zero with type := if m.freeinode = ROOTINO then T_DIR else T_FILE, nlink := 1 }, ?_, ?_⟩
  · rw [ialloc, winode_eq _ hk]
    rfl
  have hspace : Space own { m with freeinode := m.freeinode + 1 } :=
    ⟨h.space.counted, h.space.first, h.space.within, h.space.fresh, h.space.area⟩
  refine ⟨⟨hspace.writeLow hlow _, rfl, ?_, fun j hj => ?_, fun j hj => ?_, h.taken, fun j hj => h.spare j (by omega)⟩,
    fun j hj => ?_⟩
  · have hne : 1 ≠ iblock m.freeinode := (iblock_ne_one _).symm
    exact (Table.get_set_ne _ _ hne).trans h.super
  · apply hspace.fileLow hlow
    rw [dinode_putInode]
    split
    · rename_i hji
      rw [hji, hspare]
      exact FileAt.empty own m.disk _ fun k => by simp [Dinode.addr, Dinode.zero]
    · exact h.files j hj
  · rw [dinode_putInode]
    by_cases hji : j = m.freeinode
    · have hused : ¬(m.freeinode = 0 ∨ m.freeinode + 1 ≤ m.freeinode) := by omega
      rw [if_pos hji, typeOf, hji, if_neg hused]
    · have hiff : (j = 0 ∨ m.freeinode + 1 ≤ j) ↔ (j = 0 ∨ m.freeinode ≤ j) := by omega
      rw [if_neg hji, h.types j hj, typeOf, typeOf, if_congr hiff rfl rfl]
  · rw [dinode_putInode]
    split
    · rename_i hji
      rw [hji, hspare]
      rfl
    · exact h.sizes j hj

/-! ## The run of mkfs -/

lemma total_mono (h : ∀ i, (c i).length ≤ (c' i).length) : total c ≤ total c' :=
  Finset.sum_le_sum fun i _ => need_mono (h i)

lemma Fits.mono (hf : Fits c') (h : ∀ i, (c i).length ≤ (c' i).length) : Fits c :=
  ⟨fun i hi => (h i).trans (hf.1 i hi), (Nat.add_le_add_left (total_mono h) _).trans hf.2⟩

lemma Builds.laid (h : Laid own c k m) : Builds (some m) c k := by
  have hfits : Fits c := ⟨fun i hi => h.length_le hi, h.taken ▸ h.space.within⟩
  exact ⟨fun _ => ⟨own, m, rfl, h⟩, fun hn => absurd hfits hn⟩

/-- Files only grow, so that what comes later fits only if all before it did. -/
lemma Builds.bind {x : Option Image} {f : Image → Option Image} {k' : Nat} (hx : Builds x c k)
    (hle : ∀ i, (c i).length ≤ (c' i).length) (hf : ∀ own m, Laid own c k m → Builds (f m) c' k') :
    Builds (x.bind f) c' k' := by
  by_cases hfits : Fits c
  · obtain ⟨own, m, rfl, hm⟩ := hx.1 hfits
    exact hf own m hm
  · rw [hx.2 hfits]
    exact ⟨fun hc => absurd (hc.mono hle) hfits, fun _ => rfl⟩

lemma length_update_le (c : Contents) (i : Nat) (p : List UInt8) (j : Nat) :
    (c j).length ≤ (Function.update c i (c i ++ p) j).length := by
  by_cases hji : j = i
  · subst hji
    rw [update_self, length_append]
    omega
  · rw [update_of_ne hji]

lemma copyFile_builds (reads : List (List UInt8)) (h : Laid own c k m) (hi : i < lowInodes) (hik : i < k) :
    Builds (copyFile i m reads) (Function.update c i (c i ++ reads.flatten)) k := by
  induction reads generalizing own m c with
  | nil =>
    rw [flatten_nil, append_nil, update_eq_self]
    exact .laid h
  | cons buf reads ih =>
    rw [copyFile]
    have hsplit : Function.update c i (c i ++ (buf :: reads).flatten) =
        Function.update (Function.update c i (c i ++ buf)) i
          (Function.update c i (c i ++ buf) i ++ reads.flatten) := by
      rw [update_self, update_idem, flatten_cons, append_assoc]
    rw [hsplit]
    exact (iappend_builds h hi hik buf).bind (length_update_le _ i _) fun own m hm => ih hm

def entry (inum : Nat) (name : List UInt8) : List UInt8 := Dirent.bytes ⟨UInt16.ofNat inum, strncpy name⟩

def addTo (c : Contents) (k : Nat) (f : Input) : Contents :=
  Function.update (Function.update c ROOTINO (c ROOTINO ++ entry k f.entryName)) k f.contents

def addAll (c : Contents) (k : Nat) : List Input → Contents
  | [] => c
  | f :: files => addAll (addTo c k f) (k + 1) files

lemma length_addTo_le (c : Contents) (f : Input) (hc : c k = []) (j : Nat) :
    (c j).length ≤ (addTo c k f j).length := by
  unfold addTo
  by_cases hjk : j = k
  · rw [hjk, hc]
    exact Nat.zero_le _
  · rw [update_of_ne hjk]
    exact length_update_le c ROOTINO _ j

lemma addFile_builds (f : Input) (hname : slash ∉ f.name) (h : Laid own c k m) (hk : k < lowInodes)
    (hroot : ROOTINO < k) :
    Builds (addFile m f) (addTo c k f) (k + 1) := by
  obtain ⟨m₁, halloc, hm₁⟩ := ialloc_laid h hk (by omega)
  rw [if_neg (by omega)] at halloc
  rw [addFile, if_neg hname, halloc]
  have hroot' : ROOTINO < lowInodes := by decide
  have hspare : Function.update c ROOTINO (c ROOTINO ++ entry k f.entryName) k = [] := by
    rw [update_of_ne (by omega)]
    exact h.spare k le_rfl
  have hfile : addTo c k f = Function.update (Function.update c ROOTINO (c ROOTINO ++ entry k f.entryName)) k
      (Function.update c ROOTINO (c ROOTINO ++ entry k f.entryName) k ++ f.reads.flatten) := by
    rw [hspare, nil_append]
    rfl
  rw [hfile]
  exact (iappend_builds hm₁ hroot' (by omega) _).bind (length_update_le _ k _)
    fun own m hm => copyFile_builds f.reads hm hk (by omega)

lemma addTo_spare (f : Input) (hk : ROOTINO < k) (h : ∀ i, k ≤ i → c i = []) : ∀ i, k + 1 ≤ i → addTo c k f i = [] := by
  intro i hi
  unfold addTo
  rw [update_of_ne (by omega), update_of_ne (by omega)]
  exact h i (by omega)

lemma length_addAll_le (files : List Input) (hk : ROOTINO < k) (h : ∀ i, k ≤ i → c i = []) (j : Nat) :
    (c j).length ≤ (addAll c k files j).length := by
  induction files generalizing c k with
  | nil => exact le_rfl
  | cons f files ih =>
    exact (length_addTo_le c f (h k le_rfl) j).trans (ih (by omega) (addTo_spare f hk h))

lemma addFiles_builds (files : List Input) (hnames : ∀ f ∈ files, slash ∉ f.name) (h : Laid own c k m)
    (hroot : ROOTINO < k) (hk : k + files.length ≤ lowInodes) :
    Builds (addFiles m files) (addAll c k files) (k + files.length) := by
  induction files generalizing own m c k with
  | nil => exact .laid h
  | cons f files ih =>
    rw [length_cons] at hk ⊢
    have hfile := addFile_builds f (hnames f mem_cons_self) h (by omega) hroot
    have hspare := addTo_spare f hroot h.spare
    rw [addFiles, addAll, show k + (files.length + 1) = k + 1 + files.length by omega]
    exact hfile.bind (length_addAll_le files (by omega) hspare)
      fun own m hm => ih (fun g hg => hnames g (mem_cons_of_mem f hg)) hm (by omega) (by omega)

lemma addFiles_names (files : List Input) (h : addFiles m files = some m') : ∀ f ∈ files, slash ∉ f.name := by
  induction files generalizing m with
  | nil => nofun
  | cons f files ih =>
    rw [addFiles] at h
    obtain ⟨m₁, hfile, hrest⟩ := Option.bind_eq_some_iff.mp h
    intro g hg
    rcases mem_cons.mp hg with rfl | hg
    · intro hslash
      rw [addFile, if_pos hslash] at hfile
      cases hfile
    · exact ih hrest g hg

/-! ## The root directory -/

lemma format_laid : Laid (fun _ => none) (fun _ => []) 1 format := by
  have hlow : ∀ b, b ≠ 1 → format.disk b = 0 := fun b hb => Table.get_set_ne _ _ hb
  have hinode : ∀ i, dinode format.disk i = Dinode.load 0 (i % IPB) := by
    intro i
    rw [dinode, hlow _ (iblock_ne_one i)]
  have hload : ∀ k, Dinode.load 0 k = Dinode.zero := by
    intro k
    simp only [Dinode.load, Packed.loadLE_zero]
    rfl
  have htotal : total (fun _ => []) = 0 := Finset.sum_eq_zero fun _ _ => (by decide : need 0 = 0)
  refine ⟨⟨⟨rfl, le_rfl, by decide, fun b hb => hlow b ?_, by simp⟩, rfl, rfl, fun i _ => ?_, fun i _ => ?_, ?_,
    fun _ _ => rfl⟩,
    fun i _ => ?_⟩
  · rintro rfl
    exact absurd hb (by decide)
  · rw [hinode, hload]
    exact FileAt.empty _ _ _ fun k => by simp [Dinode.addr, Dinode.zero]
  · rw [hinode, hload, typeOf, if_pos (by omega)]
    rfl
  · rw [htotal]
    rfl
  · rw [hinode, hload]
    rfl

def dots : List UInt8 := entry ROOTINO dot ++ entry ROOTINO dotdot

def rootOnly : Contents := Function.update (fun _ => []) ROOTINO dots

lemma makeRoot_builds : Builds makeRoot rootOnly 2 := by
  obtain ⟨m, halloc, hm⟩ := ialloc_laid format_laid (by decide) (by decide)
  rw [if_pos (by decide)] at halloc
  rw [makeRoot, halloc]
  have hdots : rootOnly = Function.update (Function.update (fun _ => []) ROOTINO (entry ROOTINO dot)) ROOTINO
      (Function.update (fun _ => []) ROOTINO (entry ROOTINO dot) ROOTINO ++ entry ROOTINO dotdot) := by
    rw [update_self, update_idem]
    rfl
  rw [hdots]
  exact (iappend_builds hm (by decide) (by decide) _).bind (length_update_le _ ROOTINO _)
    fun own m hm => iappend_builds hm (by decide) (by decide) _

/-! ## The finished image -/

def contents (files : List Input) : Contents := addAll rootOnly 2 files

/-- The root directory's size has been rounded up and the bitmap written. -/
structure Built (own : Owners) (c : Contents) (k : Nat) (m : Image) : Prop extends Body slots own c k m where
  sizes : ∀ i, i < slots → i ≠ ROOTINO → (dinode m.disk i).size.toNat = (c i).length
  rootSize : (dinode m.disk ROOTINO).size.toNat = ((c ROOTINO).length / BSIZE + 1) * BSIZE
  bitmap : m.disk (ninodes / IPB + 3) = usedBits m.freeblock

def rounded (m : Image) : Image :=
  putInode m ROOTINO { dinode m.disk ROOTINO with
    size := UInt32.ofNat (((dinode m.disk ROOTINO).size.toNat / BSIZE + 1) * BSIZE) }

lemma fixRoot_eq (m : Image) : fixRoot m = some (rounded m) := by
  rw [fixRoot, rinode_eq m (by decide), Option.bind_eq_bind, Option.bind_some]
  exact winode_eq m (by decide) _

lemma Laid.finish (h : Laid own c k m) :
    ∃ m', ((fixRoot m).bind fun m => balloc m m.usedblocks) = some m' ∧ Built own c k m' := by
  have hroot : ROOTINO < slots := by decide
  have hle : ∀ {j}, j < slots → j < lowInodes := fun hj => Nat.lt_of_lt_of_le hj (by decide)
  have hlow : iblock ROOTINO < firstData := iblock_lt_firstData (hle hroot)
  have hbit : ninodes / IPB + 3 < firstData := by decide
  have hspace : Space own (rounded m) := h.space.writeLow hlow _
  have hused : (rounded m).usedblocks < 512 * 8 :=
    Nat.lt_of_le_of_lt (h.space.counted.le.trans h.space.within) (by decide)
  have hinode : ∀ j, j < slots → dinode (wsect (rounded m) (ninodes / IPB + 3)
    (usedBits (rounded m).usedblocks)).disk j =
      dinode (rounded m).disk j := fun j hj => dinode_set_ne _ _ _ _ (Nat.ne_of_lt (iblock_lt hj))
  refine ⟨wsect (rounded m) (ninodes / IPB + 3) (usedBits (rounded m).usedblocks), ?_,
    ⟨hspace.writeLow hbit _, h.next, ?_, fun j hj => ?_, fun j hj => ?_, h.taken, h.spare⟩, fun j hj hne => ?_, ?_, ?_⟩
  · rw [fixRoot_eq, Option.bind_some, balloc, if_pos hused]
  · have hne : 1 ≠ ninodes / IPB + 3 := by decide
    have hne' : 1 ≠ iblock ROOTINO := (iblock_ne_one _).symm
    exact (Table.get_set_ne _ _ hne).trans ((Table.get_set_ne _ _ hne').trans h.super)
  · rw [hinode j hj]
    apply hspace.fileLow hbit
    apply h.space.fileLow hlow
    rw [rounded, dinode_putInode]
    split
    · rename_i hjr
      subst hjr
      exact FileAt_of_addr (h.files _ (hle hj)) fun _ => rfl
    · exact h.files j (hle hj)
  · rw [hinode j hj, rounded, dinode_putInode]
    split
    · rename_i hjr
      subst hjr
      exact h.types _ (hle hj)
    · exact h.types j (hle hj)
  · rw [hinode j hj, rounded, dinode_putInode, if_neg hne]
    exact h.sizes j (hle hj)
  · have hlen := h.length_le (hle hroot)
    rw [hinode _ hroot, rounded, dinode_putInode, if_pos rfl, h.sizes _ (hle hroot)]
    apply UInt32.toNat_ofNat_of_lt'
    unfold MAXFILE NINDIRECT NDIRECT BSIZE at hlen
    unfold BSIZE UInt32.size
    omega
  · rw [wsect, Table.get_set_self]
    exact congrArg usedBits h.space.counted

lemma mkfs_eq (files : List Input) :
    mkfs files = (makeRoot.bind fun m => addFiles m files).bind fun m =>
      (fixRoot m).bind fun m => balloc m m.usedblocks := by
  simp only [mkfs, copyIn, Option.bind_eq_bind, Option.bind_assoc]

lemma rootOnly_spare : ∀ i, 2 ≤ i → rootOnly i = [] := by
  intro i hi
  rw [rootOnly, update_of_ne]
  unfold ROOTINO
  omega

lemma copied_builds (files : List Input) (hnames : ∀ f ∈ files, slash ∉ f.name) (hn : 2 + files.length ≤ lowInodes) :
    Builds (makeRoot.bind fun m => addFiles m files) (contents files) (2 + files.length) :=
  makeRoot_builds.bind (length_addAll_le files (by decide) rootOnly_spare)
    fun _ _ hm => addFiles_builds files hnames hm (by decide) hn

lemma mkfs_fits (files : List Input) (hnames : ∀ f ∈ files, slash ∉ f.name) (hn : 2 + files.length ≤ lowInodes)
    (hfits : Fits (contents files)) :
    ∃ own m, mkfs files = some m ∧ Built own (contents files) (2 + files.length) m := by
  obtain ⟨own, m, hm, hlaid⟩ := (copied_builds files hnames hn).1 hfits
  obtain ⟨m', hfinish, hbuilt⟩ := hlaid.finish
  exact ⟨own, m', by rw [mkfs_eq, hm, Option.bind_some, hfinish], hbuilt⟩

lemma mkfs_built (files : List Input) (hn : 2 + files.length ≤ lowInodes) (h : mkfs files = some m) :
    ∃ own, Built own (contents files) (2 + files.length) m := by
  rw [mkfs_eq] at h
  obtain ⟨m₁, hcopied, hfinish⟩ := Option.bind_eq_some_iff.mp h
  obtain ⟨m₀, _, hadd⟩ := Option.bind_eq_some_iff.mp hcopied
  have hbuilds := copied_builds files (addFiles_names files hadd) hn
  by_cases hfits : Fits (contents files)
  · obtain ⟨own, m₂, hm₂, hlaid⟩ := hbuilds.1 hfits
    obtain ⟨m₃, hm₃, hbuilt⟩ := hlaid.finish
    obtain rfl : m₁ = m₂ := Option.some.inj (hcopied.symm.trans hm₂)
    obtain rfl : m = m₃ := Option.some.inj (hfinish.symm.trans hm₃)
    exact ⟨own, hbuilt⟩
  · rw [hbuilds.2 hfits] at hcopied
    cases hcopied

/-! ## What goes where -/

def entries (k : Nat) : List Input → List UInt8
  | [] => []
  | f :: files => entry k f.entryName ++ entries (k + 1) files

lemma length_strncpy (name : List UInt8) : (strncpy name).length = DIRSIZ := by
  have h1 : ((name.take DIRSIZ).takeWhile (· ≠ 0)).length ≤ (name.take DIRSIZ).length :=
    (takeWhile_sublist _).length_le
  have h2 := length_take_le DIRSIZ name
  rw [strncpy, length_append, length_replicate]
  omega

lemma length_entry (k : Nat) (name : List UInt8) : (entry k name).length = direntSize := by
  rw [entry, Dirent.bytes, length_cons, length_cons, length_strncpy]
  rfl

lemma length_entries (k : Nat) (files : List Input) : (entries k files).length = direntSize * files.length := by
  induction files generalizing k with
  | nil => rfl
  | cons f files ih =>
    rw [entries, length_append, length_entry, ih, length_cons, Nat.mul_succ]
    omega

lemma addAll_root (files : List Input) (hk : ROOTINO < k) :
    addAll c k files ROOTINO = c ROOTINO ++ entries k files := by
  induction files generalizing c k with
  | nil => exact (append_nil _).symm
  | cons f files ih =>
    rw [addAll, ih (by omega), addTo, update_of_ne (by omega), update_self, append_assoc]
    rfl

lemma addAll_other (files : List Input) (hk : ROOTINO < k) (hi : i ≠ ROOTINO) (hik : i < k ∨ k + files.length ≤ i) :
    addAll c k files i = c i := by
  induction files generalizing c k with
  | nil => rfl
  | cons f files ih =>
    rw [length_cons] at hik
    rw [addAll, ih (by omega) (by omega), addTo, update_of_ne (by omega), update_of_ne hi]

lemma addAll_file (files : List Input) (hk : ROOTINO < k) {j : Nat} {f : Input} (hf : files[j]? = some f) :
    addAll c k files (k + j) = f.contents := by
  induction files generalizing c k j with
  | nil => cases hf
  | cons g files ih =>
    rw [addAll]
    cases j with
    | zero =>
      cases hf
      rw [addAll_other files (by omega) (by omega) (by omega), addTo, Nat.add_zero, update_self]
    | succ j =>
      rw [show k + (j + 1) = k + 1 + j by omega]
      exact ih (by omega) hf

lemma contents_root (files : List Input) : contents files ROOTINO = dots ++ entries 2 files := by
  rw [contents, addAll_root files (by decide), rootOnly, update_self]

lemma length_contents_root (files : List Input) :
    (contents files ROOTINO).length = direntSize * (files.length + 2) := by
  rw [contents_root, length_append, length_entries, dots, length_append, length_entry, length_entry, Nat.mul_add]
  omega

lemma contents_file {files : List Input} {j : Nat} {f : Input} (hf : files[j]? = some f) :
    contents files (2 + j) = f.contents := addAll_file files (by decide) hf

def blocksNeeded (files : List Input) : Nat :=
  need (direntSize * (files.length + 2)) + (files.map fun f => need f.contents.length).sum

lemma total_addTo (f : Input) (hroot : ROOTINO < k) (hk : k < lowInodes) (hc : c k = []) :
    total (addTo c k f) + need (c ROOTINO).length =
      total c + need ((c ROOTINO).length + direntSize) + need f.contents.length := by
  have h1 := total_update c (by decide : ROOTINO < lowInodes) (c ROOTINO ++ entry k f.entryName)
  have h2 := total_update (Function.update c ROOTINO (c ROOTINO ++ entry k f.entryName)) hk f.contents
  rw [length_append, length_entry] at h1
  rw [update_of_ne (by omega), hc, length_nil, show need 0 = 0 by decide] at h2
  unfold addTo
  omega

lemma total_addAll (files : List Input) (hroot : ROOTINO < k) (hk : k + files.length ≤ lowInodes)
    (hc : ∀ i, k ≤ i → c i = []) :
    total (addAll c k files) + need (c ROOTINO).length =
      total c + need ((c ROOTINO).length + direntSize * files.length) +
        (files.map fun f => need f.contents.length).sum := by
  induction files generalizing c k with
  | nil => simp only [addAll, length_nil, Nat.mul_zero, Nat.add_zero, map_nil, sum_nil]
  | cons f files ih =>
    rw [length_cons] at hk ⊢
    have hstep := total_addTo f hroot (by omega) (hc k le_rfl)
    have hrest := ih (by omega) (by omega) (addTo_spare f hroot hc)
    have hlen : (addTo c k f ROOTINO).length = (c ROOTINO).length + direntSize := by
      rw [addTo, update_of_ne (by omega), update_self, length_append, length_entry]
    rw [hlen, show (c ROOTINO).length + direntSize + direntSize * files.length =
      (c ROOTINO).length + direntSize * (files.length + 1) by rw [Nat.mul_succ]; omega] at hrest
    rw [addAll, map_cons, sum_cons]
    omega

lemma total_contents (files : List Input) (hn : 2 + files.length ≤ lowInodes) :
    total (contents files) = blocksNeeded files := by
  have hadd := total_addAll files (by decide) hn rootOnly_spare
  have hroot := total_update (fun _ => []) (by decide : ROOTINO < lowInodes) dots
  have hnone : total (fun _ => []) = 0 := Finset.sum_eq_zero fun _ _ => (by decide : need 0 = 0)
  have hdots : dots.length = direntSize * 2 := by
    rw [dots, length_append, length_entry, length_entry]
    rfl
  rw [rootOnly, update_self, hdots, show direntSize * 2 + direntSize * files.length =
    direntSize * (files.length + 2) by rw [Nat.mul_add]; omega] at hadd
  rw [hnone, hdots, length_nil, show need 0 = 0 by decide] at hroot
  unfold contents blocksNeeded rootOnly
  omega

/-! ## Inode numbers

Only `ialloc` takes one, whatever the files are and wherever the inodes lie. -/

lemma winode_freeinode {ip : Dinode} (h : winode m i ip = some m') : m'.freeinode = m.freeinode := by
  obtain ⟨buf, -, heq⟩ := Option.bind_eq_some_iff.mp h
  cases heq
  rfl

lemma blockFor_freeinode {fbn x : Nat} (h : blockFor m din fbn = some (x, din', m')) : m'.freeinode = m.freeinode := by
  have hind : (indirectFor m din).2.freeinode = m.freeinode := by
    unfold indirectFor
    split <;> rfl
  unfold blockFor at h
  split at h
  · split at h <;> cases h <;> rfl
  · obtain ⟨buf, -, hrest⟩ := Option.bind_eq_some_iff.mp h
    split at hrest <;> cases hrest <;> exact hind

lemma appendLoop_freeinode (fuel : Nat) {off off' : Nat} (h : appendLoop fuel m din off p = some (m', din', off')) :
    m'.freeinode = m.freeinode := by
  induction fuel generalizing m din off p with
  | zero =>
    cases h
    rfl
  | succ fuel ih =>
    rw [appendLoop] at h
    split at h
    · cases h
      rfl
    dsimp only at h
    split at h
    · cases h
    obtain ⟨⟨x, din₁, m₁⟩, hblock, h⟩ := Option.bind_eq_some_iff.mp h
    obtain ⟨buf, -, hrest⟩ := Option.bind_eq_some_iff.mp h
    have hsame : m₁.freeinode = m.freeinode := blockFor_freeinode hblock
    exact (ih hrest).trans hsame

lemma iappend_freeinode (h : iappend m i p = some m') : m'.freeinode = m.freeinode := by
  obtain ⟨din, -, h⟩ := Option.bind_eq_some_iff.mp h
  obtain ⟨⟨m₁, din₁, off⟩, hloop, hw⟩ := Option.bind_eq_some_iff.mp h
  exact (winode_freeinode hw).trans (appendLoop_freeinode _ hloop)

lemma ialloc_freeinode {type : UInt16} (h : ialloc m type = some (i, m')) :
    i = m.freeinode ∧ m'.freeinode = m.freeinode + 1 := by
  obtain ⟨m₁, hw, heq⟩ := Option.bind_eq_some_iff.mp h
  cases heq
  exact ⟨rfl, winode_freeinode hw⟩

lemma copyFile_freeinode (reads : List (List UInt8)) (h : copyFile i m reads = some m') :
    m'.freeinode = m.freeinode := by
  induction reads generalizing m with
  | nil =>
    cases h
    rfl
  | cons buf reads ih =>
    obtain ⟨m₁, happ, hrest⟩ := Option.bind_eq_some_iff.mp h
    exact (ih hrest).trans (iappend_freeinode happ)

lemma addFiles_freeinode (files : List Input) (h : addFiles m files = some m') :
    m'.freeinode = m.freeinode + files.length := by
  induction files generalizing m with
  | nil =>
    cases h
    rfl
  | cons f files ih =>
    obtain ⟨m₁, hfile, hrest⟩ := Option.bind_eq_some_iff.mp h
    rw [addFile] at hfile
    split at hfile
    · cases hfile
    obtain ⟨⟨inum, m₂⟩, halloc, hfile⟩ := Option.bind_eq_some_iff.mp hfile
    obtain ⟨m₃, hentry, hcopy⟩ := Option.bind_eq_some_iff.mp hfile
    rw [ih hrest, copyFile_freeinode _ hcopy, iappend_freeinode hentry, (ialloc_freeinode halloc).2, length_cons]
    omega

lemma balloc_eq {used : Nat} (h : balloc m used = some m') :
    used < 512 * 8 ∧ m' = wsect m (ninodes / IPB + 3) (usedBits used) := by
  rw [balloc] at h
  split at h
  · rename_i hlt
    exact ⟨hlt, (Option.some.inj h).symm⟩
  · cases h

lemma mkfs_freeinode (files : List Input) (h : mkfs files = some m) : m.freeinode = 2 + files.length := by
  rw [mkfs_eq] at h
  obtain ⟨m₂, hcopy, h⟩ := Option.bind_eq_some_iff.mp h
  obtain ⟨m₁, hroot, hadd⟩ := Option.bind_eq_some_iff.mp hcopy
  obtain ⟨m₃, hfix, hballoc⟩ := Option.bind_eq_some_iff.mp h
  rw [makeRoot] at hroot
  obtain ⟨⟨rootino, a⟩, halloc, hdots⟩ := Option.bind_eq_some_iff.mp hroot
  obtain ⟨b, hdot, hdotdot⟩ := Option.bind_eq_some_iff.mp hdots
  rw [fixRoot] at hfix
  obtain ⟨din, -, hw⟩ := Option.bind_eq_some_iff.mp hfix
  obtain ⟨-, rfl⟩ := balloc_eq hballoc
  show m₃.freeinode = _
  rw [winode_freeinode hw, addFiles_freeinode files hadd, iappend_freeinode hdotdot, iappend_freeinode hdot,
    (ialloc_freeinode halloc).2]
  rfl

lemma mkfs_bitmap (files : List Input) (h : mkfs files = some m) :
    m.usedblocks < 512 * 8 ∧ m.disk (ninodes / IPB + 3) = usedBits m.usedblocks := by
  rw [mkfs_eq] at h
  obtain ⟨m₂, -, h⟩ := Option.bind_eq_some_iff.mp h
  obtain ⟨m₁, -, hballoc⟩ := Option.bind_eq_some_iff.mp h
  obtain ⟨hlt, rfl⟩ := balloc_eq hballoc
  exact ⟨hlt, Table.get_set_self _ _ _⟩

end Xv6.Mkfs
