import Xv6.Proofs.BufferRoom
import Xv6.Proofs.KernelRuns

/-!
# Buffers in the file system calls

Every function gives back the buffers that it takes, and takes at most two beside the one that its
caller may hold. A transaction that a call begins it commits.
-/

namespace Xv6.Buffered

open Threads Fs List

variable {s : State} {p : Pid} {b i nbuf : Nat} {t t' : Bool} {l l' : List Nat} {v : View} {α β : Type}

/-! ## Commit -/

lemma Knows.of_empty {v' : View} (h : Knows p v s) (hheld : v.held = []) (hheld' : v'.held = [])
    (ht : v'.trans = v.trans) (hw : v'.writing = v.writing) (hd : v'.done = v.done) (hl : v'.log = v.log) :
    Knows p v' s := by
  refine ⟨h.active, ht ▸ h.owner, fun b => ?_, fun b hb => ?_, fun h' => ?_, fun h' b hb hb' => ?_⟩
  · rw [hheld', ← hheld]
    exact h.own b
  · simp [hheld'] at hb
  · exact (h.log (ht ▸ h')).trans hl.symm
  · rw [hl, hd]
    exact h.clean (ht ▸ h') b (hw ▸ hb) hb'

lemma wp_installFrom (n tail : Nat) (hn : tail + n = v.log.n) (ht : v.trans = true) (hheld : v.held = [])
    (hv : v.writing = none) (hs : Knows p { v with done := tail } s) :
    Spec nbuf p (installFrom n tail) (fun _ => Knows p { v with done := v.log.n }) s := by
  induction n generalizing tail s with
  | zero =>
    obtain rfl : tail = v.log.n := by omega
    exact wp_ret hs
  | succ n ih =>
    refine wp_seq (wp_log hs) fun l s h => ?_
    obtain ⟨h, hl⟩ := h
    obtain rfl := hl ht
    dsimp only
    rw [if_pos (by omega)]
    refine wp_seq (wp_breadAt h (fun _ => by simp [hheld]) hv) fun lbuf s h => ?_
    obtain ⟨-, h⟩ := h
    refine wp_seq (wp_breadAt h (fun _ => by simp [hheld]) hv) fun dbuf s h => ?_
    obtain ⟨hne, h⟩ := h
    simp only [hheld, mem_singleton] at hne
    refine wp_seq (wp_data h) fun d s h => ?_
    refine wp_seq (wp_modify _ h) fun _ s h => ?_
    refine wp_seq (wp_bwrite (d := tail + 1) h ht mem_cons_self hv fun j hj hj' => ?_) fun _ s h => ?_
    · obtain rfl : j = tail := Nat.le_antisymm (Nat.le_of_lt_succ hj') hj
      dsimp only
      rw [Function.update_self, UInt32.ofNat_toNat]
    refine wp_seq (wp_brelseAt h (by simp) (by simp [hheld, hne]) hv) fun _ s h => ?_
    have hlast : [dbuf, lbuf].erase lbuf = [dbuf] := by simp [hne]
    refine wp_seq (wp_brelseAt h (by simp [hheld, hlast]) (by simp [hheld, hlast]) hv) fun _ s h => ?_
    exact ih (tail + 1) (by omega) (h.of_empty (by simp [hheld, hlast]) hheld rfl rfl rfl rfl)

lemma wp_commitAt (hs : Knows p v s) (ht : v.trans = true) (hheld : v.held = []) (hv : v.writing = none)
    (hdone : v.done = 0) :
    Spec nbuf p commitTrans (fun _ s => ∃ l, Knows p { v with trans := false, log := l } s) s := by
  refine wp_seq (wp_log hs) fun l s h => ?_
  obtain ⟨h, hl⟩ := h
  obtain rfl := hl ht
  split
  · refine wp_seq (wp_writeHead h ht hheld hv) fun _ s h => ?_
    have hinstall : Spec nbuf p installTrans (fun _ => Knows p { v with done := v.log.n }) s := by
      refine wp_seq (wp_log h) fun l s h => ?_
      obtain ⟨h, hl⟩ := h
      obtain rfl := hl ht
      refine wp_installFrom v.log.n 0 (Nat.zero_add _) ht hheld hv ?_
      rw [← hdone]
      exact h
    refine wp_seq hinstall fun _ s h => ?_
    -- every buffer is clean now
    refine wp_seq (wp_logN (n := 0) (d := 0) h ht hv ?_) fun _ s h => ?_
    · rintro k ⟨j, hj, hn, -⟩
      exact absurd hn (Nat.not_lt.mpr hj)
    · refine wp_seq (wp_writeHead h ht hheld hv) fun _ s h => ?_
      exact wp_mono (wp_endTrans h ht hheld hv rfl) fun _ s h => ⟨_, h.of_empty hheld hheld rfl rfl hdone rfl⟩
  · rename_i hn
    exact wp_mono (wp_endTrans h ht hheld hv (by omega)) fun _ s h => ⟨_, h⟩

/-! ## Programs and the buffers they hold -/

/-- Process `p` is in a call, in its own transaction if `t`, and holds the buffers `l`. -/
def At (p : Pid) (t : Bool) (l : List Nat) (s : State) : Prop :=
  ∃ v : View, Knows p v s ∧ v.trans = t ∧ v.held = l ∧ l.Nodup ∧ v.writing = none ∧ v.done = 0

def Moves (nbuf : Nat) (p : Pid) (t : Bool) (l : List Nat) (t' : Bool) (l' : List Nat) (x : Bprog α) : Prop :=
  ∀ s, At p t l s → Spec nbuf p x (fun _ => At p t' l') s

namespace Moves

lemma pure (a : α) : Moves nbuf p t l t l (Pure.pure a : Bprog α) := fun _ hs => wp_ret hs

lemma bind {t'' : Bool} {l'' : List Nat} {x : Bprog α} {f : α → Bprog β} (hx : Moves nbuf p t l t' l' x)
    (hf : ∀ a, Moves nbuf p t' l' t'' l'' (f a)) : Moves nbuf p t l t'' l'' (x >>= f) :=
  fun s hs => wp_seq (hx s hs) fun a s h => hf a s h

lemma of_knows {x : Bprog α}
    (h : ∀ v s, Knows p v s → Spec nbuf p x (fun _ => Knows p v) s) : Moves nbuf p t l t l x := by
  rintro s ⟨v, hk, hv⟩
  exact wp_mono (h v s hk) fun _ s hk => ⟨v, hk, hv⟩

lemma bread (n : Nat) (hl : l.length ≤ 2) {f : Nat → Bprog α} (hf : ∀ b, Moves nbuf p t (b :: l) t' l' (f b)) :
    Moves nbuf p t l t' l' (Buffered.bread n >>= f) := by
  rintro s ⟨v, hk, rfl, rfl, hnd, hw, hd⟩
  refine wp_seq (wp_breadAt hk (fun _ => hl) hw) fun b s h => hf b s ?_
  exact ⟨_, h.2, rfl, rfl, nodup_cons.mpr ⟨h.1, hnd⟩, hw, hd⟩

lemma brelse : Moves nbuf p t (b :: l) t l (brelse b) := by
  rintro s ⟨v, hk, rfl, hheld, hnd, hw, hd⟩
  refine wp_mono (wp_brelseAt hk (by simp [hheld]) (hheld ▸ hnd) hw) fun _ s h => ?_
  refine ⟨_, h, rfl, ?_, (nodup_cons.mp hnd).2, hw, hd⟩
  change v.held.erase b = l
  rw [hheld, erase_cons_head]

lemma logWrite (hb : b ∈ l) (hl : l.length ≤ 2) : Moves nbuf p t l t l (logWrite b) := by
  rintro s ⟨v, hk, rfl, rfl, hnd, hw, hd⟩
  refine wp_mono (wp_logWriteAt hk hb hnd hl hw hd) fun _ s h => ?_
  obtain ⟨L, h⟩ := h
  exact ⟨_, h, rfl, rfl, hnd, hw, hd⟩

lemma data : Moves nbuf p t l t l (data b) := of_knows fun _ _ h => wp_data h

lemma modify (f : Block → Block) : Moves nbuf p t l t l (modify b f) := of_knows fun _ _ h => wp_modify f h

lemma quiet {a : Act} (ha : a.mayRunOut = false) (hq : ∀ s r s', exec nbuf p a s = .next r s' → Quiet s s') :
    Moves nbuf p t l t l (act a) :=
  of_knows fun _ _ h => wp_quiet ha hq h

lemma inode : Moves nbuf p t l t l (inode i) :=
  quiet rfl fun s r s' he => by
    cases he
    exact .refl s

lemma entry : Moves nbuf p t l t l (act (.entry i)) :=
  quiet rfl fun s r s' he => by
    cases he
    exact .refl s

lemma setIno (ip : Dinode) : Moves nbuf p t l t l (setIno i ip) :=
  quiet rfl fun s r s' he => by
    cases he
    exact .of_fs rfl

lemma setValid : Moves nbuf p t l t l (act (.setValid i)) :=
  quiet rfl fun s r s' he => by
    cases he
    exact .of_fs rfl

lemma fsPanic (e : Fs.Panic) : Moves nbuf p t l t' l' (act (.fs (.panic e))) :=
  fun _ _ _ _ _ _ => ⟨trivial, nofun⟩

lemma panic [Inhabited α] (e : Fs.Panic) : Moves nbuf p t l t' l' (panic e : Bprog α) :=
  bind (fsPanic e) fun _ => pure default

lemma beginTrans : Moves nbuf p t l true l (act .beginTrans) := by
  rintro s ⟨v, hk, -, hheld, hnd, hw, hd⟩
  refine wp_mono (wp_begin hk) fun _ s h => ?_
  obtain ⟨L, h⟩ := h
  exact ⟨_, h, rfl, hheld, hnd, hw, rfl⟩

lemma commitTrans (h : t = true) : Moves nbuf p t [] false [] commitTrans := by
  rintro s ⟨v, hk, ht, hheld, hnd, hw, hd⟩
  refine wp_mono (wp_commitAt hk (ht.trans h) hheld hw hd) fun _ s h => ?_
  obtain ⟨L, h⟩ := h
  exact ⟨_, h, rfl, hheld, hnd, hw, hd⟩

end Moves

/-! ## Blocks and inodes -/

lemma moves_readsb (hl : l.length ≤ 2) : Moves nbuf p t l t l readsb :=
  .bread 1 hl fun _ => .bind .data fun _ => .bind .brelse fun _ => .pure _

lemma moves_bzero (n : Nat) (hl : l.length ≤ 1) : Moves nbuf p t l t l (bzero n) :=
  .bread n (by omega) fun _ => .bind (.modify _) fun _ =>
    .bind (.logWrite mem_cons_self (by simpa using hl)) fun _ => .brelse

lemma moves_ballocFrom (sb : Superblock) (n c : Nat) (hl : l.length ≤ 1) :
    Moves nbuf p t l t l (ballocFrom sb n c) := by
  induction n generalizing c with
  | zero => exact .panic _
  | succ n ih =>
    rw [ballocFrom]
    split
    · refine .bread _ (by omega) fun bp => .bind .data fun d => ?_
      split
      · refine .bind (.modify _) fun _ => .bind (.logWrite mem_cons_self (by simpa using hl)) fun _ => ?_
        exact .bind .brelse fun _ => .bind (moves_bzero _ hl) fun _ => .pure _
      · exact .bind .brelse fun _ => ih (c + BPB)
    · exact .panic _

lemma moves_balloc (hl : l.length ≤ 1) : Moves nbuf p t l t l balloc :=
  .bind (moves_readsb (by omega)) fun sb => moves_ballocFrom sb _ 0 hl

lemma moves_bfree (n : Nat) (hl : l.length ≤ 1) : Moves nbuf p t l t l (bfree n) := by
  refine .bind (moves_readsb (by omega)) fun sb => .bread _ (by omega) fun bp => .bind .data fun d => ?_
  split
  · refine .bind (.modify _) fun _ => .bind (.logWrite mem_cons_self (by simpa using hl)) fun _ => ?_
    exact .brelse
  · exact .panic _

lemma moves_iallocTry (type : UInt16) : Moves nbuf p t [] t [] (iallocTry i type) := by
  refine .bread _ (by simp) fun bp => .bind .data fun d => ?_
  split
  · refine .bind (.modify _) fun _ => .bind (.logWrite mem_cons_self (by simp)) fun _ => ?_
    exact .bind .brelse fun _ => .pure _
  · exact .bind .brelse fun _ => .pure _

lemma moves_iupdate : Moves nbuf p t [] t [] (iupdate i) :=
  .bread _ (by simp) fun _ => .bind .inode fun _ => .bind (.modify _) fun _ =>
    .bind (.logWrite mem_cons_self (by simp)) fun _ => .brelse

lemma moves_ilockLoad : Moves nbuf p t [] t [] (ilockLoad i) := by
  refine .bind .entry fun c => ?_
  split
  · exact .pure _
  refine .bread _ (by simp) fun bp => .bind .data fun d => .bind (.setIno _) fun _ => .bind .brelse fun _ => ?_
  refine .bind .setValid fun _ => ?_
  split
  · exact .panic _
  · exact .pure _

lemma moves_bmapEntry (addr bn : Nat) : Moves nbuf p t [] t [] (bmapEntry addr bn) := by
  refine .bread _ (by simp) fun bp => .bind .data fun d => ?_
  split
  · refine .bind (moves_balloc (by simp)) fun addr => .bind (.modify _) fun _ => ?_
    exact .bind (.logWrite mem_cons_self (by simp)) fun _ => .bind .brelse fun _ => .pure _
  · exact .bind .brelse fun _ => .pure _

lemma moves_bmap (bn : Nat) : Moves nbuf p t [] t [] (bmap i bn) := by
  refine .bind .inode fun ip => ?_
  split
  · split
    · exact .bind (moves_balloc (by simp)) fun _ => .bind (.setIno _) fun _ => .pure _
    · exact .pure _
  split
  · split
    · exact .bind (moves_balloc (by simp)) fun _ => .bind (.setIno _) fun _ => moves_bmapEntry _ _
    · exact moves_bmapEntry _ _
  · exact .panic _

lemma moves_truncDirect (n : Nat) : Moves nbuf p t [] t [] (truncDirect i n) := by
  induction n with
  | zero => exact .pure _
  | succ n ih =>
    refine .bind ih fun _ => .bind .inode fun ip => ?_
    split
    · exact .pure _
    · exact .bind (moves_bfree _ (by simp)) fun _ => .setIno _

lemma moves_truncEntries (a : Block) (n : Nat) (hl : l.length ≤ 1) : Moves nbuf p t l t l (truncEntries a n) := by
  induction n with
  | zero => exact .pure _
  | succ n ih =>
    refine .bind ih fun _ => ?_
    split
    · exact .pure _
    · exact moves_bfree _ hl

lemma moves_truncIndirect : Moves nbuf p t [] t [] (truncIndirect i) := by
  refine .bind .inode fun ip => ?_
  split
  · exact .pure _
  refine .bread _ (by simp) fun bp => .bind .data fun a => ?_
  generalize NINDIRECT = n
  refine .bind (moves_truncEntries a n (by simp)) fun _ => ?_
  exact .bind .brelse fun _ => .bind (moves_bfree _ (by simp)) fun _ => .setIno _

lemma moves_itrunc : Moves nbuf p t [] t [] (itrunc i) :=
  .bind (moves_truncDirect NDIRECT) fun _ => .bind moves_truncIndirect fun _ => .bind .inode fun _ =>
    .bind (.setIno _) fun _ => moves_iupdate

lemma moves_edit (e : Edit) : Moves nbuf p t [] t [] (edit i e) :=
  .bind .inode fun _ => .bind (.setIno _) fun _ => moves_iupdate

lemma moves_readLoop (fuel off n : Nat) : Moves nbuf p t [] t [] (readLoop i fuel off n) := by
  induction fuel generalizing off n with
  | zero => exact .pure _
  | succ fuel ih =>
    rw [readLoop]
    split
    · exact .pure _
    · refine .bind (moves_bmap _) fun addr => .bread _ (by simp) fun bp => .bind .data fun d => ?_
      exact .bind .brelse fun _ => .bind (ih _ _) fun _ => .pure _

lemma moves_readi (off n : Nat) : Moves nbuf p t [] t [] (readi i off n) := by
  refine .bind .inode fun ip => ?_
  split
  · exact .pure _
  · exact .bind (moves_readLoop _ _ _) fun _ => .pure _

lemma moves_writeLoop (fuel off : Nat) (src : List UInt8) : Moves nbuf p t [] t [] (writeLoop i fuel off src) := by
  induction fuel generalizing off src with
  | zero => exact .pure _
  | succ fuel ih =>
    rw [writeLoop]
    split
    · exact .pure _
    · refine .bind (moves_bmap _) fun addr => .bread _ (by simp) fun bp => .bind (.modify _) fun _ => ?_
      exact .bind (.logWrite mem_cons_self (by simp)) fun _ => .bind .brelse fun _ => ih _ _

lemma moves_writei (off : Nat) (src : List UInt8) : Moves nbuf p t [] t [] (writei i off src) := by
  refine .bind .inode fun ip => ?_
  split
  · exact .pure _
  split
  · exact .pure _
  refine .bind (moves_writeLoop _ _ _) fun _ => .bind .inode fun ip => ?_
  split
  · exact .bind (.setIno _) fun _ => .bind moves_iupdate fun _ => .pure _
  · exact .pure _

/-! ## Directories -/

lemma moves_readDirent (e : Fs.Panic) (off : Nat) : Moves nbuf p t [] t [] (readDirent e i off) := by
  refine .bind (moves_readi _ _) fun r => ?_
  split
  · split
    · exact .pure _
    · exact .bind (.fsPanic e) fun _ => .pure _
  · exact .bind (.fsPanic e) fun _ => .pure _

lemma moves_iget : Moves nbuf p t l t l (act (.fs (.iget i))) :=
  .quiet rfl fun s r s' he => by
    obtain ⟨k, hk, rfl⟩ := Outcome.lift_next he
    rw [Fs.exec] at hk
    split at hk
    · cases hk
    · cases hk
      exact .of_fs rfl

lemma moves_lookupFrom (name : List UInt8) (n off : Nat) : Moves nbuf p t [] t [] (lookupFrom name i n off) := by
  induction n generalizing off with
  | zero => exact .pure _
  | succ n ih =>
    refine .bind .inode fun d => ?_
    split
    · refine .bind (moves_readDirent _ _) fun de => ?_
      split
      · exact .bind moves_iget fun _ => .pure _
      · exact ih _
    · exact .pure _

lemma moves_dirlookup (name : List UInt8) : Moves nbuf p t [] t [] (dirlookup i name) := by
  refine .bind .inode fun d => ?_
  split
  · exact .panic _
  · exact moves_lookupFrom name _ _

lemma moves_emptyFrom (n off : Nat) : Moves nbuf p t [] t [] (emptyFrom i n off) := by
  induction n generalizing off with
  | zero => exact .pure _
  | succ n ih =>
    refine .bind .inode fun d => ?_
    split
    · refine .bind (moves_readDirent _ _) fun de => ?_
      split
      · exact .pure _
      · exact ih _
    · exact .pure _

lemma moves_isdiremptyFrom (n off : Nat) : Moves nbuf p t [] t [] (isdiremptyFrom i n off) := by
  induction n generalizing off with
  | zero => exact .pure _
  | succ n ih =>
    refine .bind .inode fun d => ?_
    split
    · refine .bind (moves_readDirent _ _) fun de => ?_
      split
      · exact .pure _
      · exact ih _
    · exact .pure _

/-! ## Actions of the kernel -/

lemma moves_plain {a : Fs.Act} (ha : plain a = true) : Moves nbuf p t l t l (act (.fs a)) :=
  .quiet rfl fun s r s' he => by
    obtain ⟨k, he', rfl⟩ := Outcome.lift_next he
    exact .of_fs (exec_store ha he')

/-- The transaction after an action, if the action may come next. -/
def nextTrans : Fs.Act → Bool → Option Bool
  | .beginTrans, false => some true
  | .beginTrans, true => none
  | .commitTrans, true => some false
  | .commitTrans, false => none
  | _, t => some t

lemma expand_plain {a : Fs.Act} (ha : plain a = true) : expand a = act (.fs a) := by
  cases a <;> first | exact absurd ha Bool.false_ne_true | rfl

lemma nextTrans_plain {a : Fs.Act} (ha : plain a = true) : nextTrans a t = some t := by
  cases a <;> first | exact absurd ha Bool.false_ne_true | rfl

lemma moves_expand {a : Fs.Act} (h : nextTrans a t = some t') : Moves nbuf p t [] t' [] (expand a) := by
  by_cases hp : plain a = true
  · rw [nextTrans_plain hp] at h
    cases h
    rw [expand_plain hp]
    exact moves_plain hp
  cases a
  case beginTrans =>
    cases t <;> cases h
    exact .beginTrans
  case commitTrans =>
    cases t <;> cases h
    exact .commitTrans rfl
  all_goals
    first
    | exact absurd rfl hp
    | obtain rfl : t = t' := Option.some.inj h
  case readsb => exact moves_readsb (by simp)
  case iallocTry i type => exact moves_iallocTry type
  case ilockLoad i => exact moves_ilockLoad
  case itrunc i => exact moves_itrunc
  case edit i e => exact moves_edit e
  case readi i off n => exact moves_readi off n
  case writei i off src => exact moves_writei off src
  case dirlookup i name => exact moves_dirlookup name
  case emptyDirent i => exact .bind .inode fun _ => moves_emptyFrom _ _
  case isdirempty i => exact .bind .inode fun _ => moves_isdiremptyFrom _ _

/-! ## Transactions -/

/-- A program begins and commits transactions in turn. -/
def Brackets (t : Bool) (t' : Bool) : Kprog α → Prop
  | .ret _ => t = t'
  | .act a k => ∃ u, nextTrans a t = some u ∧ ∀ r, Brackets u t' (k r)

namespace Brackets

lemma pure (a : α) : Brackets t t (Pure.pure a : Kprog α) := rfl

lemma bind {t'' : Bool} {x : Kprog α} {f : α → Kprog β} (hx : Brackets t t' x) (hf : ∀ a, Brackets t' t'' (f a)) :
    Brackets t t'' (x >>= f) := by
  induction x generalizing t with
  | ret a =>
    cases hx
    exact hf a
  | act a k ih =>
    obtain ⟨u, hu, hk⟩ := hx
    exact ⟨u, hu, fun r => ih r (hk r)⟩

lemma act {a : Fs.Act} (h : nextTrans a t = some t') : Brackets t t' (Fs.act a) := ⟨t', h, fun _ => rfl⟩

lemma panic [Inhabited α] (e : Fs.Panic) : Brackets t t (Fs.panic e : Kprog α) :=
  bind (act rfl) fun _ => pure default

end Brackets

lemma brackets_ilock : Brackets t t (ilock i) := .bind (.act rfl) fun _ => .act rfl

lemma brackets_iput (r : Ref) : Brackets t t (iput r i) := by
  refine .bind (.act rfl) fun last => ?_
  split
  · exact .bind (.act rfl) fun _ => .bind (.act rfl) fun _ => .act rfl
  · exact .pure _

lemma brackets_iunlockput : Brackets t t (iunlockput i) := .bind (.act rfl) fun _ => brackets_iput _

lemma brackets_iallocFrom (ninodes : Nat) (type : UInt16) (n i : Nat) : Brackets t t (iallocFrom ninodes type n i) := by
  induction n generalizing i with
  | zero => exact .panic _
  | succ n ih =>
    rw [iallocFrom]
    split
    · refine .bind (.act rfl) fun r => ?_
      split
      · exact .bind (.act rfl) fun _ => .pure _
      · exact ih _
    · exact .panic _

lemma brackets_ialloc (type : UInt16) : Brackets t t (ialloc type) :=
  .bind (.act rfl) fun _ => brackets_iallocFrom _ _ _ _

lemma brackets_dirlink (name : List UInt8) (inum : Nat) : Brackets t t (dirlink i name inum) := by
  refine .bind (.act rfl) fun r => ?_
  split
  · exact .bind (brackets_iput _) fun _ => .pure _
  refine .bind (.act rfl) fun off => .bind (.act rfl) fun r => ?_
  split
  · exact .pure _
  · exact .panic _

lemma brackets_namexFrom (parent : Bool) (path : List (List UInt8)) : Brackets t t (namexFrom parent i path) := by
  induction path generalizing i with
  | nil =>
    rw [namexFrom]
    split
    · exact .bind (brackets_iput _) fun _ => .pure _
    · exact .pure _
  | cons name rest ih =>
    refine .bind brackets_ilock fun _ => .bind (.act rfl) fun d => ?_
    split
    · exact .bind brackets_iunlockput fun _ => .pure _
    split
    · exact .bind (.act rfl) fun _ => .pure _
    refine .bind (.act rfl) fun r => ?_
    split
    · exact .bind brackets_iunlockput fun _ => .pure _
    · exact .bind brackets_iunlockput fun _ => ih

lemma brackets_namex (parent : Bool) (path : List UInt8) : Brackets t t (namex parent path) := by
  rw [namex]
  split
  · exact .bind (.act rfl) fun _ => .bind (.pure _) fun _ => brackets_namexFrom _ _
  · exact .bind (.act rfl) fun _ => .bind (.act rfl) fun _ => .bind (.pure _) fun _ => brackets_namexFrom _ _

lemma brackets_namei (path : List UInt8) : Brackets t t (namei path) :=
  .bind (brackets_namex _ _) fun _ => .pure _

lemma brackets_createDots (dp : Nat) : Brackets t t (createDots i dp) := by
  refine .bind (brackets_dirlink _ _) fun r => ?_
  split
  · refine .bind (brackets_dirlink _ _) fun r => ?_
    split
    · exact .act rfl
    · exact .panic _
  · exact .panic _

lemma brackets_createIn (dp : Nat) (name : List UInt8) (type major minor : UInt16) :
    Brackets t t (createIn dp name type major minor) := by
  have hlink : ∀ ip, Brackets t t (do
      if ← dirlink dp name ip then
        iunlockput dp
        return ip
      else Fs.panic .createDirlink : Kprog Nat) := by
    intro ip
    refine .bind (brackets_dirlink _ _) fun r => ?_
    split
    · exact .bind brackets_iunlockput fun _ => .pure _
    · exact .panic _
  refine .bind (brackets_ialloc type) fun ip => .bind brackets_ilock fun _ => .bind (.act rfl) fun _ => ?_
  split
  · exact .bind (.act rfl) fun _ => .bind (brackets_createDots _) fun _ => hlink ip
  · exact hlink ip

lemma brackets_create (path : List UInt8) (type major minor : UInt16) :
    Brackets t t (create path type major minor) := by
  refine .bind (brackets_namex _ _) fun r => ?_
  split
  · exact .pure _
  refine .bind brackets_ilock fun _ => .bind (.act rfl) fun r => ?_
  split
  · refine .bind brackets_iunlockput fun _ => .bind brackets_ilock fun _ => .bind (.act rfl) fun d => ?_
    split
    · exact .pure _
    · exact .bind brackets_iunlockput fun _ => .pure _
  · exact .bind (brackets_createIn _ _ _ _ _) fun _ => .pure _

lemma brackets_readInode (off n : Nat) (got : Option Nat) : Brackets t t (readInode i off n got) := by
  refine .bind (.act rfl) fun d => ?_
  split
  · split
    · exact .bind (.act rfl) fun _ => .bind brackets_ilock fun _ => .pure _
    · exact .pure _
  · exact .bind (.act rfl) fun _ => .pure _

lemma brackets_writeInode (off : Nat) (src : List UInt8) : Brackets t t (writeInode i off src) := by
  refine .bind (.act rfl) fun d => ?_
  split
  · split
    · exact .bind (.act rfl) fun _ => .bind brackets_ilock fun _ => .pure _
    · exact .pure _
  · exact .act rfl

lemma brackets_fileclose (f : Nat) (fd : Option Nat) : Brackets false false (fileclose f fd) := by
  refine .bind (.act rfl) fun r => ?_
  split
  · exact .pure _
  · split
    · exact .bind (.act rfl) fun _ => .bind (brackets_iput _) fun _ => .act rfl
    · exact .pure _

lemma brackets_advance (f : Nat) (r : Option Nat) : Brackets t t (advance f r) := by
  cases r with
  | none => exact .pure _
  | some r => exact .act rfl

lemma brackets_fileread (f n : Nat) (got : Option Nat) : Brackets t t (fileread f n got) := by
  refine .bind (.act rfl) fun ff => ?_
  split
  · split
    · refine .bind brackets_ilock fun _ => .bind (.act rfl) fun _ => .bind (brackets_readInode _ _ _) fun _ => ?_
      exact .bind (brackets_advance _ _) fun _ => .bind (.act rfl) fun _ => .pure _
    · exact .panic _
  · exact .pure _

lemma brackets_writeChunk (f : Nat) (src : List UInt8) : Brackets false false (writeChunk f i src) := by
  refine .bind (.act rfl) fun _ => .bind brackets_ilock fun _ => .bind (.act rfl) fun _ => ?_
  refine .bind (brackets_writeInode _ _) fun r => .bind (brackets_advance _ _) fun _ => .bind (.act rfl) fun _ => ?_
  exact .bind (.act rfl) fun _ => .pure _

lemma brackets_filewriteFrom (f n : Nat) (src : List UInt8) : Brackets false false (filewriteFrom f i n src) := by
  induction n generalizing src with
  | zero => exact .pure _
  | succ n ih =>
    rw [filewriteFrom]
    split
    · exact .pure _
    refine .bind (brackets_writeChunk _ _) fun r => ?_
    split
    · exact .pure _
    · split
      · exact .bind (ih _) fun _ => .pure _
      · exact .panic _

lemma brackets_filewrite (f : Nat) (addr : List UInt8) (n : Int) : Brackets false false (filewrite f addr n) := by
  refine .bind (.act rfl) fun ff => ?_
  split
  · split
    · exact .bind (brackets_filewriteFrom _ _ _) fun _ => .pure _
    · exact .panic _
  · exact .pure _

lemma brackets_openInode (path : List UInt8) (omode : UInt32) : Brackets false false (openInode path omode) := by
  rw [openInode]
  split
  · refine .bind (.act rfl) fun _ => .bind (brackets_create _ _ _ _) fun _ => .bind (.act rfl) fun _ => ?_
    exact .pure _
  refine .bind (brackets_namei path) fun r => ?_
  split
  · exact .pure _
  refine .bind brackets_ilock fun _ => .bind (.act rfl) fun d => ?_
  split
  · exact .bind brackets_iunlockput fun _ => .pure _
  · exact .pure _

lemma brackets_openFile (omode : UInt32) : Brackets false false (openFile i omode) := by
  refine .bind (.act rfl) fun r => ?_
  split
  · exact .bind brackets_iunlockput fun _ => .pure _
  refine .bind (.act rfl) fun r => ?_
  split
  · exact .bind (brackets_fileclose _ _) fun _ => .bind brackets_iunlockput fun _ => .pure _
  · exact .bind (.act rfl) fun _ => .bind (.act rfl) fun _ => .pure _

lemma brackets_sysOpen (path : Option (List UInt8)) (omode : UInt32) : Brackets false false (sysOpen path omode) := by
  cases path with
  | none => exact .pure _
  | some path =>
    refine .bind (brackets_openInode path omode) fun r => ?_
    split
    · exact .pure _
    · exact brackets_openFile omode

lemma brackets_linkBad : Brackets t t (linkBad i) :=
  .bind brackets_ilock fun _ => .bind (.act rfl) fun _ => brackets_iunlockput

lemma brackets_linkInto (new : List UInt8) : Brackets t t (linkInto i new) := by
  refine .bind (brackets_namex _ _) fun r => ?_
  split
  · exact .bind brackets_linkBad fun _ => .pure _
  refine .bind brackets_ilock fun _ => .bind (brackets_dirlink _ _) fun r => ?_
  split
  · exact .bind brackets_iunlockput fun _ => .bind (brackets_iput _) fun _ => .pure _
  · exact .bind brackets_iunlockput fun _ => .bind brackets_linkBad fun _ => .pure _

lemma brackets_sysLink (old new : List UInt8) : Brackets false false (sysLink old new) := by
  refine .bind (brackets_namei old) fun r => ?_
  split
  · exact .pure _
  refine .bind (.act rfl) fun _ => .bind brackets_ilock fun _ => .bind (.act rfl) fun d => ?_
  split
  · exact .bind brackets_iunlockput fun _ => .bind (.act rfl) fun _ => .pure _
  · refine .bind (.act rfl) fun _ => .bind (.act rfl) fun _ => .bind (brackets_linkInto new) fun _ => ?_
    exact .bind (.act rfl) fun _ => .pure _

lemma brackets_isFullDir (d : Dinode) : Brackets t t (isFullDir i d) := by
  rw [isFullDir]
  split
  · exact .bind (.act rfl) fun _ => .pure _
  · exact .pure _

lemma brackets_unlinkEntry (dp off : Nat) : Brackets t t (unlinkEntry dp i off) := by
  refine .bind brackets_ilock fun _ => .bind (.act rfl) fun d => ?_
  split
  · exact .panic _
  refine .bind (brackets_isFullDir d) fun r => ?_
  split
  · exact .bind brackets_iunlockput fun _ => .bind brackets_iunlockput fun _ => .pure _
  refine .bind (.act rfl) fun r => ?_
  split
  · have hend : Brackets t t (do
        iunlockput dp
        Fs.act (.edit i .unlink)
        iunlockput i
        return 0 : Kprog Int) :=
      .bind brackets_iunlockput fun _ => .bind (.act rfl) fun _ => .bind brackets_iunlockput fun _ => .pure _
    split
    · exact .bind (.act rfl) fun _ => hend
    · exact hend
  · exact .panic _

lemma brackets_unlinkIn (name : List UInt8) : Brackets t t (unlinkIn i name) := by
  unfold unlinkIn
  split
  · exact .bind brackets_iunlockput fun _ => .pure _
  refine .bind (.act rfl) fun r => ?_
  split
  · exact .bind brackets_iunlockput fun _ => .pure _
  · exact brackets_unlinkEntry _ _

lemma brackets_sysUnlink (path : List UInt8) : Brackets false false (sysUnlink path) := by
  refine .bind (brackets_namex _ _) fun r => ?_
  split
  · exact .pure _
  refine .bind (.act rfl) fun _ => .bind brackets_ilock fun _ => .bind (brackets_unlinkIn _) fun _ => ?_
  exact .bind (.act rfl) fun _ => .pure _

lemma brackets_sysMknod (path : Option (List UInt8)) (type major minor : UInt16) :
    Brackets false false (sysMknod path type major minor) := by
  refine .bind (.act rfl) fun _ => ?_
  split
  · exact .bind (.act rfl) fun _ => .pure _
  refine .bind (brackets_create _ _ _ _) fun r => ?_
  split
  · exact .bind (.act rfl) fun _ => .pure _
  · exact .bind brackets_iunlockput fun _ => .bind (.act rfl) fun _ => .pure _

lemma brackets_sysChdir (path : List UInt8) : Brackets t t (sysChdir path) := by
  refine .bind (brackets_namei path) fun r => ?_
  split
  · exact .pure _
  refine .bind brackets_ilock fun _ => .bind (.act rfl) fun d => ?_
  split
  · exact .bind brackets_iunlockput fun _ => .pure _
  · refine .bind (.act rfl) fun _ => .bind (.act rfl) fun _ => .bind (brackets_iput _) fun _ => ?_
    exact .bind (.act rfl) fun _ => .pure _

lemma brackets_execReads (reads : List (Nat × Nat × Option Nat)) : Brackets t t (execReads i reads) := by
  induction reads with
  | nil => exact .pure _
  | cons r reads ih => exact .bind (brackets_readInode _ _ _) fun _ => ih

lemma brackets_sysExec (path : List UInt8) (reads : List (Nat × Nat × Option Nat)) :
    Brackets t t (sysExec path reads) := by
  refine .bind (brackets_namei path) fun r => ?_
  split
  · exact .pure _
  · exact .bind brackets_ilock fun _ => .bind (brackets_execReads reads) fun _ => brackets_iunlockput

lemma brackets_closeFiles (n : Nat) : Brackets false false (closeFiles n) := by
  induction n with
  | zero => exact .pure _
  | succ n ih =>
    refine .bind ih fun _ => .bind (.act rfl) fun r => ?_
    split
    · exact .pure _
    · exact .bind (brackets_fileclose _ _) fun _ => .act rfl

lemma brackets_sysExit : Brackets false false sysExit := by
  refine .bind (.act rfl) fun p => ?_
  split
  · exact .panic _
  · refine .bind (brackets_closeFiles NOFILE) fun _ => .bind (.act rfl) fun _ => ?_
    exact .bind (brackets_iput _) fun _ => .act rfl

lemma brackets_sysRead (fd : Int) (n : Nat) (got : Option Nat) : Brackets t t (sysRead fd n got) := by
  refine .bind (.act rfl) fun r => ?_
  split
  · exact .pure _
  · exact brackets_fileread _ _ _

lemma brackets_sysWrite (fd : Int) (src : List UInt8) : Brackets false false (sysWrite fd src) := by
  refine .bind (.act rfl) fun r => ?_
  split
  · exact .pure _
  · exact brackets_filewrite _ _ _

lemma brackets_sysDup (fd : Int) : Brackets t t (sysDup fd) := by
  refine .bind (.act rfl) fun r => ?_
  split
  · exact .pure _
  refine .bind (.act rfl) fun r => ?_
  split
  · exact .pure _
  · exact .bind (.act rfl) fun _ => .pure _

lemma brackets_sysClose (fd : Int) : Brackets false false (sysClose fd) := by
  refine .bind (.act rfl) fun r => ?_
  split
  · exact .pure _
  · exact .bind (.act rfl) fun _ => .bind (brackets_fileclose _ _) fun _ => .pure _

lemma brackets_body (x : Syscall) : Brackets false false x.body := by
  have hvalue : ∀ {g : Kprog Int}, Brackets false false g → Brackets false false (do let _ ← g) :=
    fun h => .bind h fun _ => .pure _
  unfold Syscall.body
  split
  · exact hvalue (brackets_sysOpen _ _)
  · exact hvalue (brackets_sysRead _ _ _)
  · exact hvalue (brackets_sysWrite _ _)
  · exact hvalue (brackets_sysClose _)
  · exact hvalue (brackets_sysLink _ _)
  · exact hvalue (brackets_sysUnlink _)
  · exact hvalue (brackets_sysMknod _ _ _ _)
  · exact hvalue (brackets_sysMknod _ _ _ _)
  · exact hvalue (brackets_sysChdir _)
  · exact brackets_sysExec _ _
  · exact hvalue (brackets_sysDup _)
  · exact .act rfl
  · exact brackets_sysExit
  · exact .act rfl
  · exact .pure _

/-! ## Runs -/

lemma Brackets.moves {x : Kprog α} (h : Brackets t t' x) : Moves nbuf p t [] t' [] (x.subst expand) := by
  induction x generalizing t with
  | ret a =>
    cases h
    exact .pure a
  | act a k ih =>
    obtain ⟨u, hu, hk⟩ := h
    exact (moves_expand hu).bind fun r => ih r (hk r)

lemma wp_enter (hs : Out p s) :
    Spec nbuf p (act .enter)
      (fun r s => if r = true then At p false [] s else Out p s) s := by
  refine wp_step rfl (fun _ _ he h => h.env he) (fun s r s' hi _ ho he => ?_) hs
  change exec nbuf p .enter s = _ at he
  rw [exec] at he
  split at he
  · cases he
    have hkey : ∀ q, q ≠ p → (q ∈ p :: s.active ↔ q ∈ s.active) := fun q hq => by simp [hq]
    refine ⟨⟨⟨hi.sane, nodup_cons.mpr ⟨ho.active, hi.nodup⟩, fun b q hb => ?_, hi.few, hi.dirty, hi.rest⟩,
      fun q hq => ?_⟩, ?_⟩
    · exact mem_cons_of_mem p (hi.inCall b q hb)
    · exact ⟨fun _ => .rfl, fun _ _ => rfl, hkey q hq, .rfl, fun _ => rfl, fun _ _ hd => ⟨hd, rfl⟩⟩
    · rw [if_pos rfl]
      refine ⟨⟨false, none, 0, [], fun _ => 0, s.cache.log⟩,
        ⟨mem_cons_self, ?_, fun b => ?_, by simp, by simp, by simp⟩,
        rfl, rfl, nodup_nil, rfl, rfl⟩
      · exact ⟨fun h => absurd h ho.owner, by simp⟩
      · exact ⟨fun h => absurd h (ho.own b), by simp⟩
  · cases he
    rw [if_neg Bool.false_ne_true]
    exact ⟨Quiet.good (.refl s) hi, ho⟩

lemma wp_leave (hs : At p false [] s) :
    Spec nbuf p (act .leave) (fun _ => Out p) s := by
  obtain ⟨v, hk, ht, hheld, -⟩ := hs
  refine wp_step rfl (fun _ _ he h => h.env he) (fun s r s' hi _ hk he => ?_) hk
  cases he
  have hnone : ∀ b, ¬s.holds b p := fun b hb => by simpa [hheld] using (hk.own b).mp hb
  refine ⟨⟨⟨hi.sane, hi.nodup.erase p, fun b q hb => ?_, hi.few, hi.dirty, hi.rest⟩, fun q hq => ?_⟩, ?_⟩
  · refine (mem_erase_of_ne ?_).mpr (hi.inCall b q hb)
    rintro rfl
    exact hnone b hb
  · exact ⟨fun _ => .rfl, fun _ _ => rfl, mem_erase_of_ne hq, .rfl, fun _ => rfl, fun _ _ hd => ⟨hd, rfl⟩⟩
  · refine ⟨fun h => ((hi.nodup.mem_erase_iff).mp h).1 rfl, fun h => ?_, hnone⟩
    have := hk.owner.mp h
    rw [ht] at this
    cases this

lemma ideintr_quiet (s : State) : Quiet s { s with cache := Bcache.ideintr s.cache } := by
  unfold Bcache.ideintr
  split
  · exact .refl s
  rename_i b queue hq
  change Quiet s { s with cache := Bcache.idestart { s.cache.setBuf b ((s.cache.buf b).done s.cache) with
    queue, disk := Bcache.written s.cache } }
  generalize hc : ({ s.cache.setBuf b ((s.cache.buf b).done s.cache) with
    queue, disk := Bcache.written s.cache } : Bcache.State Block) = c
  obtain ⟨hbuf, hl, -⟩ := Bcache.idestart_other c
  have hb : (Bcache.idestart c).buf b = (s.cache.buf b).done s.cache := by
    rw [hbuf, ← hc]
    exact Table.get_set_self _ _ _
  refine .of_buf (fun i hib => ?_) hb rfl rfl rfl rfl nofun ?_ ?_
  · rw [hbuf, ← hc]
    exact Table.get_set_ne _ _ hib
  · rw [hl, ← hc]
    rfl
  · rw [idestart_log, ← hc]
    rfl

lemma wp_fsCall (x : Call) (hs : Out p s) : Spec nbuf p x.body (fun _ => Out p) s := by
  cases x with
  | sys x =>
    refine wp_seq (wp_enter hs) fun r s h => ?_
    split
    · rename_i hr
      rw [if_pos hr] at h
      exact wp_seq ((brackets_body x).moves s h) fun _ s h => wp_leave h
    · rename_i hr
      rw [if_neg hr] at h
      exact wp_ret h
  | interrupt =>
    refine wp_step rfl (fun _ _ he h => h.env he) (fun s r s' hi _ ho he => ?_) hs
    cases he
    exact ⟨(ideintr_quiet s).good hi, ho.env ((ideintr_quiet s).env p)⟩

lemma boot_inv (nbuf : Nat) (d : Table Block) : Inv nbuf (boot nbuf d) where
  sane := by
    have hdev : Bcache.noDev ≠ ROOTDEV := by decide
    refine ⟨(Bcache.boot_inv nbuf (fun _ _ => True) 0 _ _).shape.listed, fun b => Nat.zero_le _, fun b => ?_,
      fun i j hi => ?_, fun b hb => ?_, fun b hb => ?_⟩
    · exact ⟨nofun, fun h => absurd rfl h⟩
    · exact absurd hi hdev
    · exact absurd hb hdev
    · rcases hb with h | h
      · exact absurd rfl h
      · cases h
  nodup := nodup_nil
  inCall := nofun
  few := fun q => by
    have hshare : Pool.share nbuf (boot nbuf d).holds q ≤ ([] : List Nat).length :=
      Pool.share_le_length fun b hb => nomatch hb
    exact hshare.trans (Nat.zero_le _)
  dirty := nofun
  rest := fun _ => rfl

lemma sound_of_reaches {d : Table Block} {c : Config Pid Act Act.Res State Panic}
    (hr : Reaches (fileSystem nbuf) (Room nbuf) (.initial (boot nbuf d)) c) :
    Logic.Sound (fileSystem nbuf) (logic nbuf) c :=
  Logic.sound (L := logic nbuf) Env.refl (fun _ _ _ _ => Env.trans) (fun _ _ _ he h => h.env he)
    (fun _ x _ _ h _ => wp_fsCall x h) (boot_inv nbuf d) (fun _ => ⟨nofun, nofun, nofun⟩) hr

/-- In a run with room, `bget` always finds its sector in the cache or a buffer that is neither
`B_BUSY` nor `B_DIRTY`, and never panics. -/
theorem bget_finds_buffer (d : Table Block) {c : Config Pid Act Act.Res State Panic}
    (hr : Reaches (fileSystem Bcache.NBUF) (Room Bcache.NBUF) (.initial (boot Bcache.NBUF d)) c) :
    c.stopped ≠ some (.cache .noBuffers) ∧
      ∀ p dev sector k, c.thread p = some (.act (.cache (.bget dev sector)) k) →
        Room Bcache.NBUF p (.cache (.bget dev sector)) c.st →
          ∃ b < Bcache.NBUF, (c.st.cache.buf b).holds dev sector = true ∨
            (c.st.cache.buf b).busy = false ∧ (c.st.cache.buf b).dirty = false := by
  have hsound := sound_of_reaches hr
  exact ⟨fun h => hsound.stopped _ h rfl, fun p dev sector k ht hg => hsound.pre Env.refl ht hg⟩

/-! ## Eleven readers -/

instance (p : Pid) (a : Act) (s : State) : Decidable (Room nbuf p a s) := by
  unfold Room
  split <;> infer_instance

instance (s : State) (p : Pid) : Decidable ((fileSystem nbuf).canCall s p) := inferInstanceAs (Decidable True)

/-- A disk with files of one byte in the root directory: inode `i` has block `i + 5` and the one
letter name after that of inode `i - 1`. -/
def filesDisk (n : Nat) : Table Block :=
  let sb := setWord (setWord (setWord (setWord 0 0 64) 1 47) 2 16) 3 10
  let root : Dinode := ⟨T_DIR, 0, 0, 1, UInt32.ofNat (32 + 16 * n), fun k => if k = 0 then 6 else 0⟩
  let file (i : Nat) : Dinode := ⟨T_FILE, 0, 0, 1, 1, fun k => if k = 0 then UInt32.ofNat (i + 5) else 0⟩
  let files := (List.range n).map (· + 2)
  let inodes (b : Block) (l : List Nat) := l.foldl (fun b i => Dinode.store (file i) b (i % IPB)) b
  let entries := Dirent.bytes ⟨1, strncpy dot⟩ ++ Dirent.bytes ⟨1, strncpy dotdot⟩ ++
    files.flatMap fun i => Dirent.bytes ⟨UInt16.ofNat i, strncpy [UInt8.ofNat (95 + i)]⟩
  (((((Table.const 0).set 1 sb).set 2 (inodes (Dinode.store root 0 1) (files.filter (· < 8)))).set 3
    (inodes 0 (files.filter (8 ≤ ·)))).set 5 (Packed.splice 0 0 [0xff, 0xff, 0x03])).set 6 (Packed.splice 0 0 entries)

/-- Process `p` makes a call, and the disk interrupts up to `n` times when the process waits. -/
def served (p : Pid) (x : Syscall) (n : Nat) : List (Turn Pid Call) :=
  .call p (.sys x) 1000 :: (replicate n [.call 0 .interrupt 1, .go p 1000]).flatten

def oneMkdir : Config Pid Act Act.Res State Panic :=
  Config.play (fileSystem Bcache.NBUF) (Room Bcache.NBUF) (.initial (boot Bcache.NBUF (filesDisk 1)))
    (served 1 (.mkdir (some [slash, 100])) 50)

theorem mkdir_finds_buffers :
    (oneMkdir.thread 1).isNone = true ∧ oneMkdir.st.active = [] ∧ oneMkdir.stopped ≠ some (.cache .noBuffers) :=
  ⟨by decide +kernel, by decide +kernel, (bget_finds_buffer (filesDisk 1) (c := oneMkdir) (Config.play_reaches _ _)).1⟩

/-- Outside of transactions no buffer waits to be written, and a process between its calls holds none. -/
theorem buffers_given_back (d : Table Block) {c : Config Pid Act Act.Res State Panic}
    (hr : Reaches (fileSystem nbuf) (Room nbuf) (.initial (boot nbuf d)) c) :
    (c.st.owner = none → ∀ b, (c.st.cache.buf b).dirty = false) ∧
      ∀ p, c.thread p = none → c.st.owner ≠ some p ∧ ∀ b, ¬c.st.holds b p := by
  have hsound := sound_of_reaches hr
  have hi : Inv nbuf c.st := hsound.inv
  refine ⟨fun hnone b => ?_, fun p hp => ?_⟩
  · by_contra hd
    rcases hi.dirty b (by simpa using hd) with ⟨i, hi0, hin, -⟩ | ⟨q, -, hq⟩
    · have := hi.rest hnone
      omega
    · rw [hnone] at hq
      cases hq
  · have hout : Out p c.st := hsound.idle p hp
    exact ⟨hout.owner, hout.own⟩

theorem buffers_given_back_mkdir : oneMkdir.st.owner = none ∧ (oneMkdir.st.cache.buf 0).dirty = false := by
  have hnone : oneMkdir.st.owner = none := by decide +kernel
  exact ⟨hnone, (buffers_given_back (filesDisk 1) (c := oneMkdir) (Config.play_reaches _ _)).1 hnone 0⟩

/-- Process 1 opens eleven files and has ten children. Each of the eleven reads another file and
waits for the disk: the eleventh finds every buffer busy. -/
theorem eleven_readers_panic :
    ∃ c, Reaches (fileSystem Bcache.NBUF) (fun _ _ _ => True) (.initial (boot Bcache.NBUF (filesDisk 11))) c ∧
      c.stopped = some (.cache .noBuffers) := by
  refine ⟨_, Config.play_reaches _
    ((List.range 11).flatMap (fun k => served 1 (.open (some [slash, UInt8.ofNat (97 + k)]) O_RDONLY) 3) ++
      (List.range 10).map (fun k => .call 1 (.sys (.fork (k + 2))) 10) ++
      (List.range 11).map fun k => .call (k + 1) (.sys (.read k 1 none)) 1000), ?_⟩
  decide +kernel

end Xv6.Buffered
