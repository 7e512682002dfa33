import Xv6.Proofs.FileWrites
import Xv6.Proofs.KernelRuns
import Xv6.Proofs.LogCrash
import Xv6.SharedWrites

/-!
# Writes through a shared descriptor

A writer has the log to itself from `begin_trans` to `commit_trans`, so that nobody else touches the
file or its offset in between.
-/

namespace Xv6.Fs.Writers

open Bytes Threads List

variable {L : Superblock} {own : Owners} {f i nb off₀ : Nat} {l c₀ rest : List UInt8} {ind : Bool} {s s' s'' : State}
  {p q : Pid}

/-! ## The end of a transaction -/

lemma foldl_set {α : Type} (g : Nat → α) (bs : List Nat) (t : Table α) (c : Nat) :
    (bs.foldl (fun t b => t.set b (g b)) t) c = if c ∈ bs then g c else t c := by
  induction bs generalizing t with
  | nil => simp
  | cons b bs ih =>
    rw [foldl_cons, ih]
    by_cases hc : c ∈ bs
    · simp [hc]
    · by_cases hb : c = b
      · simp [hb]
      · simp [hc, hb]

lemma written_self (d : Disk) (bs : List Nat) (hbs : ∀ b ∈ bs, b < 2 ^ 32) :
    Log.written d (bs.map fun b => (UInt32.ofNat b, d b)) = d := by
  induction bs with
  | nil => rfl
  | cons b bs ih =>
    rw [map_cons, Log.written, UInt32.toNat_ofNat_of_lt' (hbs b mem_cons_self), Function.update_eq_self]
    exact ih fun c hc => hbs c (mem_cons_of_mem b hc)

lemma logOf_open {start : Nat} {st : Store} (hstart : start < 2 ^ 32) (hok : st.log.Ok)
    (hsec : ∀ b ∈ st.log.sectors, b < start) (hhead : Log.headCount start st.disk = 0) :
    Log.Open start st.log.size st.disk (st.log.sectors.map fun b => (UInt32.ofNat b, st.disk b)) (logOf start st)
      st.log.sectors.length := by
  have hget : ∀ j, j < st.log.sectors.length → st.log.sectors.getD j 0 ∈ st.log.sectors := by
    intro j hj
    rw [getD_eq_getElem _ _ hj]
    exact getElem_mem hj
  have hto : ∀ j, j < st.log.sectors.length →
      ((logOf start st).log.lh.sector j).toNat = st.log.sectors.getD j 0 := by
    intro j hj
    exact UInt32.toNat_ofNat_of_lt' (Nat.lt_trans (hsec _ (hget j hj)) hstart)
  have hwritten := written_self st.disk st.log.sectors fun b hb => Nat.lt_trans (hsec b hb) hstart
  have hslot : ∀ b, b ≤ start → (logOf start st).disk b = st.disk b := fun b hb => if_neg (by omega)
  constructor
  · exact ⟨rfl, rfl⟩
  · rfl
  · rfl
  · refine ⟨?_, fun b hb => ?_⟩
    · rw [Log.headCount, hslot start le_rfl]
      exact hhead
    refine if_neg fun hin => ?_
    have hlt := hok.lt (by omega)
    have hne := hb.2
    omega
  · intro j k hj hk he
    have hjk := congrArg UInt32.toNat he
    rw [hto j hj, hto k hk, getD_eq_getElem _ _ hj, getD_eq_getElem _ _ hk] at hjk
    exact (hok.nodup.getElem_inj_iff).mp hjk
  · exact ⟨hok.le, hok.lt⟩
  · intro j hj
    rw [hto j hj]
    have := hsec _ (hget j hj)
    exact ⟨by omega, .inl this⟩
  · intro j hj
    rw [hwritten, hto j hj]
    change (if _ then _ else _) = _
    rw [if_pos (by omega), show start + j + 1 - start - 1 = j by omega]
  · intro b _
    rw [hwritten]

lemma commitTrans_disk {start : Nat} {st : Store} (hstart : start < 2 ^ 32) (hok : st.log.Ok)
    (hsec : ∀ b ∈ st.log.sectors, b < start) (hhead : Log.headCount start st.disk = 0) :
    (∀ b, b < start → (commitTrans start st).disk b = st.disk b) ∧
      Log.headCount start (commitTrans start st).disk = 0 := by
  obtain ⟨hclean, -⟩ := Log.commitTrans_run (logOf_open hstart hok hsec hhead)
  rw [written_self st.disk st.log.sectors fun b hb => Nat.lt_trans (hsec b hb) hstart] at hclean
  have hdisk : ∀ b, (commitTrans start st).disk b = _ := foldl_set _ _ _
  constructor
  · intro b hb
    rw [hdisk]
    split
    · exact hclean.home b ⟨by omega, .inl hb⟩
    · rfl
  · rw [Log.headCount, hdisk, if_pos]
    · exact hclean.count
    · exact mem_append_left _ (mem_range'.mpr ⟨0, by omega, by omega⟩)

/-! ## The file -/

def contents (s : State) (i : Nat) : List UInt8 :=
  slice (byteOf s.kernel.store.disk (s.kernel.icache i).ino) 0 (s.kernel.icache i).ino.size.toNat

structure Opened (L : Superblock) (f i : Nat) (own : Owners) (l : List UInt8) (nb : Nat) (ind : Bool) (s : State) :
    Prop where
  file : (s.kernel.ftable f).type = .inode ∧ (s.kernel.ftable f).writable = true ∧ (s.kernel.ftable f).ip = i
  entry : 1 ≤ (s.kernel.icache i).ref ∧ (s.kernel.icache i).valid = true
  regular : (s.kernel.icache i).ino.type ≠ T_DEV
  inum : i < L.ninodes
  placed : Placed L s.start own s.kernel.store.disk
  bytes : FileAt own s.kernel.store.disk i (s.kernel.icache i).ino l nb ind
  size : (s.kernel.icache i).ino.size.toNat ≤ l.length
  log : s.kernel.store.log.Ok
  sectors : ∀ b ∈ s.kernel.store.log.sectors, b < s.start
  head : Log.headCount s.start s.kernel.store.disk = 0

structure Ready (L : Superblock) (f i : Nat) (own : Owners) (l : List UInt8) (nb : Nat) (ind : Bool) (s : State) :
    Prop extends Opened L f i own l nb ind s where
  idle : s.kernel.store.log.busy = none ∧ s.kernel.store.log.sectors = []
  unlocked : (s.kernel.icache i).busy = none
  off : (s.kernel.ftable f).off ≤ (s.kernel.icache i).ino.size.toNat
  fresh : s.chunks = [] ∧ s.given = .const []

def written (s : State) : List UInt8 := s.chunks.flatMap Prod.snd

def sent (s : State) (p : Pid) : List UInt8 := (s.chunks.filter fun c => c.1 = p).flatMap Prod.snd

lemma Opened.contents_eq (h : Opened L f i own l nb ind s) :
    contents s i = l.take (s.kernel.icache i).ino.size.toNat := h.bytes.contentOf_eq h.size

lemma Opened.congr (h : Opened L f i own l nb ind s) (hstart : s'.start = s.start)
    (hfile : (s'.kernel.ftable f).type = (s.kernel.ftable f).type ∧
      (s'.kernel.ftable f).writable = (s.kernel.ftable f).writable ∧ (s'.kernel.ftable f).ip = (s.kernel.ftable f).ip)
    (hentry : (s'.kernel.icache i).ref = (s.kernel.icache i).ref ∧
      (s'.kernel.icache i).valid = (s.kernel.icache i).valid ∧ (s'.kernel.icache i).ino = (s.kernel.icache i).ino)
    (hdisk : s'.kernel.store.disk = s.kernel.store.disk) (hsize : s'.kernel.store.log.size = s.kernel.store.log.size)
    (hsec : s'.kernel.store.log.sectors = s.kernel.store.log.sectors) : Opened L f i own l nb ind s' := by
  obtain ⟨htype, hwritable, hip⟩ := hfile
  obtain ⟨href, hvalid, hino⟩ := hentry
  refine ⟨?_, ?_, ?_, h.inum, ?_, ?_, ?_, ?_, ?_, ?_⟩
  · rw [htype, hwritable, hip]
    exact h.file
  · rw [href, hvalid]
    exact h.entry
  · rw [hino]
    exact h.regular
  · rw [hstart, hdisk]
    exact h.placed
  · rw [hdisk, hino]
    exact h.bytes
  · rw [hino]
    exact h.size
  · obtain ⟨hnodup, hle, hlt⟩ := h.log
    refine ⟨?_, ?_, ?_⟩
    · rw [hsec]
      exact hnodup
    · rw [hsec]
      exact hle
    · rw [hsec, hsize]
      exact hlt
  · rw [hsec, hstart]
    exact h.sectors
  · rw [hstart, hdisk]
    exact h.head

/-- The invariant: what the chunks so far have made of the file that had the contents `c₀`, and of
the offset that was `off₀`. -/
structure Inv (L : Superblock) (f i : Nat) (c₀ : List UInt8) (off₀ : Nat) (s : State) : Prop where
  opened : ∃ own l nb ind, Opened L f i own l nb ind s
  idle : s.kernel.store.log.busy = none → s.kernel.store.log.sectors = [] ∧ (s.kernel.icache i).busy = none
  off : (s.kernel.icache i).busy = none → (s.kernel.ftable f).off = off₀ + (written s).length
  contents : contents s i = overwrite c₀ off₀ (written s)
  small : ∀ c ∈ s.chunks, 0 < c.2.length ∧ c.2.length ≤ maxWrite
  sent : ∀ p, sent s p <+: s.given p

/-- What the others leave to `p`: its own bytes, and everything while it has the log. -/
structure Env (p : Pid) (s s' : State) : Prop where
  given : s'.given p = s.given p
  sent : sent s' p = sent s p
  held : s.kernel.store.log.busy = some p → s'.kernel = s.kernel ∧ s'.chunks = s.chunks

lemma Env.refl (p : Pid) (s : State) : Env p s s := ⟨rfl, rfl, fun _ => ⟨rfl, rfl⟩⟩

lemma Env.trans (h : Env p s s') (h' : Env p s' s'') : Env p s s'' := by
  refine ⟨h'.given.trans h.given, h'.sent.trans h.sent, fun hp => ?_⟩
  obtain ⟨hk, hc⟩ := h.held hp
  obtain ⟨hk', hc'⟩ := h'.held (by rw [hk]; exact hp)
  exact ⟨hk'.trans hk, hc'.trans hc⟩

def Fits (_ : Pid) (a : Act) (_ : State) : Prop :=
  match a with
  | .fs (.writei _ off src) => off + src.length ≤ MAXFILE * BSIZE
  | _ => True

def Room (p : Pid) (a : Act) (s : State) : Prop :=
  Fits p a s ∧ match a with
  | .fs (.writei _ _ _) => 8 ≤ freeBelow (superblock s.kernel.store.disk) s.start s.kernel.store.disk
  | _ => True

def Done (p : Pid) (s : State) : Prop := s.given p = sent s p

def logic (L : Superblock) (f i : Nat) (c₀ : List UInt8) (off₀ : Nat) : Logic Pid Act State Panic where
  Inv := Inv L f i c₀ off₀
  Rely := Env
  Given := Room
  Pre := fun _ _ _ => True
  Allowed := fun _ => True
  Idle := Done

abbrev Spec (L : Superblock) (f i : Nat) (c₀ : List UInt8) (off₀ : Nat) (p : Pid) {α : Type} :=
  wp (α := α) (writers f) (logic L f i c₀ off₀) p

/-! ## One chunk -/

/-- `p` has the log and has still to write `rest`. -/
structure Holding (p : Pid) (rest : List UInt8) (K : Fs.State → List UInt8 → Prop) (s : State) : Prop where
  busy : s.kernel.store.log.busy = some p
  left : s.given p = sent s p ++ rest
  kernel : K s.kernel (written s)

variable {K K' : Fs.State → List UInt8 → Prop}

lemma Holding.env (h : Holding p rest K s) (he : Env p s s') : Holding p rest K s' := by
  obtain ⟨hk, hc⟩ := he.held h.busy
  refine ⟨?_, ?_, ?_⟩
  · rw [hk]
    exact h.busy
  · rw [he.given, he.sent]
    exact h.left
  · rw [hk, written, hc]
    exact h.kernel

/-- The lock of the inode, and an offset that is `n` bytes behind. -/
def Stage (f i off₀ : Nat) (b : Option Pid) (n : Nat) (k : Fs.State) (w : List UInt8) : Prop :=
  (k.icache i).busy = b ∧ (k.ftable f).off + n = off₀ + w.length

lemma State.after_next {α : Type} {g : α → List (Pid × List UInt8)} {o : Outcome Fs.State Panic α} {r : α}
    (h : s.after g o = .next r s') :
    ∃ k, o = .next r k ∧ s' = { s with kernel := k, chunks := s.chunks ++ g r } := by
  cases o with
  | blocked => cases h
  | stop e => cases h
  | next r' k =>
    cases h
    exact ⟨k, rfl, rfl⟩

lemma onInode_next {α : Type} {m : Dinode → FsM (α × Dinode)} {r : α} {k k' : Fs.State}
    (h : onInode p i m k = .next r k') :
    ∃ ip st, m (k.icache i).ino { k.store with caller := p } = .ok (r, ip) st ∧
      k' = setIno { k with store := st } i ip := by
  unfold onInode at h
  split at h
  · rename_i a ip st hst
    cases h
    exact ⟨ip, st, hst, rfl⟩
  · cases h

lemma wp_held {a : Act} {U : a.Res → State → Prop} (hs : Holding p rest K s)
    (h : ∀ s, Inv L f i c₀ off₀ s → Room p a s → Holding p rest K s → ∀ r s', exec p a s = .next r s' →
      Inv L f i c₀ off₀ s' ∧ s'.given = s.given ∧ (∀ q, q ≠ p → sent s' q = sent s q) ∧ U r s') :
    Spec L f i c₀ off₀ p (act a) U s := by
  refine wp_call hs (fun _ _ he hS => hS.env he) fun s hi hg hS => ⟨trivial, .of_next (fun _ _ => trivial) ?_⟩
  intro r s' he
  obtain ⟨hinv, hgiven, hsent, hU⟩ := h s hi hg hS r s' he
  refine ⟨hinv, fun q hq => ⟨by rw [hgiven], hsent q hq, fun hbusy => ?_⟩, hU⟩
  rw [hS.busy] at hbusy
  exact absurd (Option.some.inj hbusy).symm hq

lemma wp_kernel {a : Fs.Act} {K' : a.Res → Fs.State → List UInt8 → Prop}
    (ha : ∀ s, exec p (.fs a) s = s.after (fun _ => []) (Fs.exec p a s.kernel)) (hs : Holding p rest K s)
    (h : ∀ s, Inv L f i c₀ off₀ s → Holding p rest K s → ∀ r k, Fs.exec p a s.kernel = .next r k →
      Inv L f i c₀ off₀ { s with kernel := k } ∧ k.store.log.busy = some p ∧ K' r k (written s)) :
    Spec L f i c₀ off₀ p (act (.fs a)) (fun r => Holding p rest (K' r)) s := by
  refine wp_held hs fun s hi _ hS r s' he => ?_
  rw [ha] at he
  obtain ⟨k, hk, rfl⟩ := State.after_next he
  rw [append_nil]
  obtain ⟨hinv, hbusy, hK⟩ := h s hi hS r k hk
  exact ⟨hinv, rfl, fun _ _ => rfl, hbusy, hS.left, hK⟩

lemma Inv.congr {k : Fs.State} (h : Inv L f i c₀ off₀ s)
    (hfile : (k.ftable f).type = (s.kernel.ftable f).type ∧ (k.ftable f).writable = (s.kernel.ftable f).writable ∧
      (k.ftable f).ip = (s.kernel.ftable f).ip)
    (hentry : (k.icache i).ref = (s.kernel.icache i).ref ∧ (k.icache i).valid = (s.kernel.icache i).valid ∧
      (k.icache i).ino = (s.kernel.icache i).ino)
    (hdisk : k.store.disk = s.kernel.store.disk) (hsize : k.store.log.size = s.kernel.store.log.size)
    (hsec : k.store.log.sectors = s.kernel.store.log.sectors) (hbusy : k.store.log.busy = some p)
    (hoff : (k.icache i).busy = none → (k.ftable f).off = off₀ + (written s).length) :
    Inv L f i c₀ off₀ { s with kernel := k } := by
  obtain ⟨own, l, nb, ind, ho⟩ := h.opened
  refine ⟨⟨own, l, nb, ind, ho.congr rfl hfile hentry hdisk hsize hsec⟩, fun hnone => ?_, hoff, ?_, h.small, h.sent⟩
  · change k.store.log.busy = none at hnone
    rw [hbusy] at hnone
    cases hnone
  have hcontents := h.contents
  rw [Writers.contents] at hcontents ⊢
  change slice (byteOf k.store.disk (k.icache i).ino) 0 (k.icache i).ino.size.toNat = _
  rw [hdisk, hentry.2.2]
  exact hcontents

lemma wp_begin (hs : s.given p = sent s p ++ rest) :
    Spec L f i c₀ off₀ p (act (.fs .beginTrans))
      (fun _ => Holding p rest (Stage f i off₀ none 0)) s := by
  refine wp_call (S := fun s => s.given p = sent s p ++ rest) hs ?_ ?_
  · intro s s' he hS
    rw [he.given, he.sent]
    exact hS
  intro s hi _ hS
  refine ⟨trivial, .of_next (fun _ _ => trivial) fun r s' he => ?_⟩
  change s.after (fun _ => []) (Fs.exec p .beginTrans s.kernel) = .next r s' at he
  by_cases hfree : s.kernel.store.log.busy = none
  · rw [Fs.exec, if_pos hfree] at he
    simp only [State.after, append_nil, Outcome.next.injEq] at he
    obtain ⟨-, rfl⟩ := he
    obtain ⟨-, hunlocked⟩ := hi.idle hfree
    refine ⟨hi.congr ⟨rfl, rfl, rfl⟩ ⟨rfl, rfl, rfl⟩ rfl rfl rfl rfl hi.off, fun q hq => ?_, rfl, hS, ?_⟩
    · refine ⟨rfl, rfl, fun hbusy => ?_⟩
      rw [hfree] at hbusy
      cases hbusy
    · exact ⟨hunlocked, hi.off hunlocked⟩
  · rw [Fs.exec, if_neg hfree] at he
    cases he

lemma wp_ilock {n : Nat} (hs : Holding p rest (Stage f i off₀ none n) s) :
    Spec L f i c₀ off₀ p (act (.fs (.ilockBusy i)))
      (fun _ => Holding p rest (Stage f i off₀ (some p) n)) s := by
  refine wp_kernel (fun _ => rfl) hs fun s hi hS r k he => ?_
  obtain ⟨own, l, nb, ind, ho⟩ := hi.opened
  rw [Fs.exec, if_neg (by have := ho.entry.1; omega), if_pos hS.kernel.1] at he
  cases he
  refine ⟨hi.congr ⟨rfl, rfl, rfl⟩ ?_ rfl rfl rfl hS.busy ?_, hS.busy, ?_, hS.kernel.2⟩
  · simp
  · simp
  · simp

lemma wp_load (hs : Holding p rest K s) :
    Spec L f i c₀ off₀ p (act (.fs (.ilockLoad i))) (fun _ => Holding p rest K) s := by
  refine wp_kernel (fun _ => rfl) hs fun s hi hS r k he => ?_
  obtain ⟨own, l, nb, ind, ho⟩ := hi.opened
  rw [Fs.exec, if_pos ho.entry.2] at he
  cases he
  exact ⟨hi, hS.busy, hS.kernel⟩

lemma wp_file (hs : Holding p rest K s) :
    Spec L f i c₀ off₀ p (act (.fs (.file f)))
      (fun ff => Holding p rest fun k w => K k w ∧ (k.ftable f) = ff) s := by
  refine wp_kernel (fun _ => rfl) hs fun s hi hS r k he => ?_
  rw [Fs.exec] at he
  cases he
  exact ⟨hi, hS.busy, hS.kernel, rfl⟩

lemma wp_inode (hs : Holding p rest K s) :
    Spec L f i c₀ off₀ p (act (.fs (.inode i)))
      (fun d => Holding p rest fun k w => K k w ∧ d.type ≠ T_DEV) s := by
  refine wp_kernel (fun _ => rfl) hs fun s hi hS r k he => ?_
  obtain ⟨own, l, nb, ind, ho⟩ := hi.opened
  rw [Fs.exec] at he
  cases he
  exact ⟨hi, hS.busy, hS.kernel, ho.regular⟩

lemma wp_advance {n : Nat} (hs : Holding p rest (Stage f i off₀ (some p) n) s) :
    Spec L f i c₀ off₀ p (act (.fs (.advance f n)))
      (fun _ => Holding p rest (Stage f i off₀ (some p) 0)) s := by
  refine wp_kernel (fun _ => rfl) hs fun s hi hS r k he => ?_
  rw [Fs.exec] at he
  cases he
  obtain ⟨hbusy, hoff⟩ := hS.kernel
  refine ⟨hi.congr ?_ ⟨rfl, rfl, rfl⟩ rfl rfl rfl hS.busy fun hnone => ?_, hS.busy, hbusy, ?_⟩
  · simp
  · rw [hbusy] at hnone
    cases hnone
  · simpa using hoff

lemma wp_iunlock (hs : Holding p rest (Stage f i off₀ (some p) 0) s) :
    Spec L f i c₀ off₀ p (act (.fs (.iunlock i)))
      (fun _ => Holding p rest (Stage f i off₀ none 0)) s := by
  refine wp_kernel (fun _ => rfl) hs fun s hi hS r k he => ?_
  obtain ⟨own, l, nb, ind, ho⟩ := hi.opened
  obtain ⟨hbusy, hoff⟩ := hS.kernel
  have href := ho.entry.1
  rw [Fs.exec, if_neg (by rw [hbusy]; rintro (h | h) <;> [cases h; omega])] at he
  cases he
  refine ⟨hi.congr ⟨rfl, rfl, rfl⟩ ?_ rfl rfl rfl hS.busy fun _ => hoff, hS.busy, ?_, hoff⟩
  · simp
  · simp

/-- A chunk of at most `maxWrite` bytes lies in four blocks. -/
lemma blocksOf_le {n : Nat} (off : Nat) (hn : n ≤ maxWrite) : blocksOf off n ≤ 4 := by
  unfold maxWrite Log.LOGSIZE at hn
  unfold blocksOf BSIZE
  split <;> omega

lemma sent_append (s : State) (p q : Pid) (data : List UInt8) :
    sent { s with chunks := s.chunks ++ [(p, data)] } q = sent s q ++ if p = q then data else [] := by
  rw [sent, filter_append, flatMap_append, ← sent]
  split
  · rename_i h
    simp [h]
  · rename_i h
    simp [h]

lemma written_append (s : State) (p : Pid) (data : List UInt8) :
    written { s with chunks := s.chunks ++ [(p, data)] } = written s ++ data := by
  simp [written]

lemma Opened.write {off : Nat} {src : List UInt8} {ip : Dinode} {st : Store} {own' : Owners} {nb' : Nat} {ind' : Bool}
    (h : Opened L f i own l nb ind s) (ch : List (Pid × List UInt8)) (hoff : off ≤ (s.kernel.icache i).ino.size.toNat)
    (hsize : ip.size.toNat = max (s.kernel.icache i).ino.size.toNat (off + src.length))
    (htype : ip.type = (s.kernel.icache i).ino.type)
    (htouch : Touches (· < s.start) { s.kernel.store with caller := p } st) (hplaced : Placed L s.start own' st.disk)
    (hfile : FileAt own' st.disk i ip (overwrite l off src) nb' ind') :
    Opened L f i own' (overwrite l off src) nb' ind'
      { s with kernel := setIno { s.kernel with store := st } i ip, chunks := ch } := by
  have hino : ((setIno { s.kernel with store := st } i ip).icache i).ino = ip := by simp [setIno]
  refine ⟨h.file, ?_, ?_, h.inum, hplaced, ?_, ?_, htouch.ok h.log, fun b hb => ?_, ?_⟩
  · simpa [setIno] using h.entry
  · dsimp only
    rw [hino, htype]
    exact h.regular
  · dsimp only
    rw [hino]
    exact hfile
  · dsimp only
    rw [hino, hsize, length_overwrite _ _ _ (hoff.trans h.size)]
    have := h.size
    omega
  · rcases htouch.sectors b hb with hb | hb
    · exact h.sectors b hb
    · exact hb
  · change Log.headCount s.start st.disk = 0
    rw [Log.headCount, htouch.disk s.start (Nat.lt_irrefl _)]
    exact h.head

lemma wp_writei {src : List UInt8} {off : Nat} (hpos : src ≠ []) (hlen : src.length ≤ maxWrite)
    (hoff₀ : off₀ ≤ c₀.length)
    (hs : Holding p (src ++ rest) (fun k w => Stage f i off₀ (some p) 0 k w ∧ (k.ftable f).off = off) s) :
    Spec L f i c₀ off₀ p (act (.fs (.writei i off src)))
      (fun r s => r = some src.length ∧ Holding p rest (Stage f i off₀ (some p) src.length) s) s := by
  refine wp_held hs fun s hi hg hS r s' he => ?_
  obtain ⟨own, l, nb, ind, ho⟩ := hi.opened
  obtain ⟨⟨hbusy, hoff⟩, hcur⟩ := hS.kernel
  obtain ⟨hfits, hroom⟩ := hg
  have hcontents := hi.contents
  rw [ho.contents_eq] at hcontents
  have hsize : (s.kernel.icache i).ino.size.toNat = (overwrite c₀ off₀ (written s)).length := by
    rw [← hcontents, length_take, Nat.min_eq_left ho.size]
  have hle : off ≤ (s.kernel.icache i).ino.size.toNat := by
    rw [hsize, length_overwrite _ _ _ hoff₀]
    omega
  have hspec := writei_spec (s := { s.kernel.store with caller := p }) ho.inum ho.placed ho.bytes ho.size hle hfits (by
    have hnew := newBlocks_le (ho.bytes.div_le (hle.trans ho.size)) ind (blocksOf off src.length)
    have hblocks := blocksOf_le off hlen
    have hroom' : 8 ≤ freeBelow (superblock s.kernel.store.disk) s.start s.kernel.store.disk := hroom
    rw [ho.placed.core.super] at hroom'
    exact Nat.le_trans (by omega) hroom')
  obtain ⟨k, hk, rfl⟩ := State.after_next he
  obtain ⟨ip, st, hw, rfl⟩ := onInode_next (m := fun ip => writei i ip off src) hk
  obtain ⟨⟨hr, hsz, htype, htouch, -, own', hplaced, hfile, -⟩, -⟩ := hspec.of_ok _ _ hw
  subst hr
  simp only [Option.toList_some, map_cons, map_nil, take_length]
  have hopened := ho.write (s.chunks ++ [(p, src)]) hle hsz htype htouch hplaced hfile
  have hleft := hS.left
  have hp : sent { s with chunks := s.chunks ++ [(p, src)] } p = sent s p ++ src := by
    rw [sent_append, if_pos rfl]
  have hq : ∀ q, q ≠ p → sent { s with chunks := s.chunks ++ [(p, src)] } q = sent s q := by
    intro q hq
    rw [sent_append, if_neg hq.symm, append_nil]
  have hw' : written { s with chunks := s.chunks ++ [(p, src)] } = written s ++ src := written_append s p src
  have hbusy' : st.log.busy = some p := htouch.busy.trans hS.busy
  refine ⟨⟨⟨_, _, _, _, hopened⟩, fun hnone => ?_, fun hnone => ?_, ?_, ?_, fun q => ?_⟩, trivial, hq, trivial,
    hbusy', ?_, ?_, ?_⟩
  · change st.log.busy = none at hnone
    rw [hbusy'] at hnone
    cases hnone
  · have : (s.kernel.icache i).busy = none := by simpa [setIno] using hnone
    rw [hbusy] at this
    cases this
  · rw [hopened.contents_eq]
    change (overwrite l off src).take ((setIno { s.kernel with store := st } i ip).icache i).ino.size.toNat =
      overwrite c₀ off₀
      (written { s with chunks := s.chunks ++ [(p, src)] })
    rw [hw', show ((setIno { s.kernel with store := st } i ip).icache i).ino = ip by simp [setIno], hsz,
      take_overwrite l src hle ho.size, hcontents, ← overwrite_append c₀ _ _ _ hoff₀, ← hoff, Nat.add_zero, hcur]
  · intro c hc
    rcases mem_append.mp hc with hc | hc
    · exact hi.small c hc
    · rw [mem_singleton.mp hc]
      exact ⟨length_pos_iff.mpr hpos, hlen⟩
  · by_cases hqp : q = p
    · subst hqp
      change sent { s with chunks := s.chunks ++ [(q, src)] } q <+: s.given q
      rw [hp, hleft, ← append_assoc]
      exact prefix_append _ _
    · change sent { s with chunks := s.chunks ++ [(p, src)] } q <+: s.given q
      rw [hq q hqp]
      exact hi.sent q
  · change s.given p = sent { s with chunks := s.chunks ++ [(p, src)] } p ++ rest
    rw [hp, hleft, append_assoc]
  · simpa [setIno] using hbusy
  · change (s.kernel.ftable f).off + src.length = off₀ + (written { s with chunks := s.chunks ++ [(p, src)] }).length
    rw [hw', length_append]
    omega

lemma Opened.commit (h : Opened L f i own l nb ind s) :
    (∀ b, b < s.start → (commitTrans s.start s.kernel.store).disk b = s.kernel.store.disk b) ∧
      Opened L f i own l nb ind { s with kernel := { s.kernel with store := commitTrans s.start s.kernel.store } } := by
  have hstart : s.start < 2 ^ 32 := by
    have := h.placed.le
    have := h.placed.core.size_lt
    omega
  obtain ⟨hdisk, hhead⟩ := commitTrans_disk hstart h.log h.sectors h.head
  refine ⟨hdisk, h.file, h.entry, h.regular, h.inum, h.placed.congr hdisk, ?_, h.size, ?_, ?_, hhead⟩
  · exact h.bytes.congr (fun b k hb => hdisk b (h.placed.below b _ hb)) fun _ _ hb => hb
  · exact ⟨nodup_nil, Nat.zero_le _, fun h => absurd h (Nat.lt_irrefl 0)⟩
  · exact fun b hb => absurd hb not_mem_nil

lemma wp_commit (hs : Holding p rest (Stage f i off₀ none 0) s) :
    Spec L f i c₀ off₀ p (act (.fs .commitTrans)) (fun _ s => s.given p = sent s p ++ rest) s := by
  refine wp_held hs fun s hi _ hS r s' he => ?_
  cases he
  obtain ⟨own, l, nb, ind, ho⟩ := hi.opened
  obtain ⟨hunlocked, hoff⟩ := hS.kernel
  obtain ⟨-, hopened⟩ := ho.commit
  refine ⟨⟨⟨own, l, nb, ind, hopened⟩, fun _ => ⟨rfl, hunlocked⟩, hi.off, ?_, hi.small, hi.sent⟩, rfl,
    fun _ _ => rfl, hS.left⟩
  rw [hopened.contents_eq]
  exact ho.contents_eq.symm.trans hi.contents

/-! ## Whole calls -/

@[simp] lemma lift_bind {α β : Type} (x : Kprog α) (g : α → Kprog β) :
    lift (x >>= g) = lift x >>= fun a => lift (g a) :=
  Prog.subst_bind _ x g

@[simp] lemma lift_act (a : Fs.Act) : lift (Fs.act a) = act (.fs a) := Prog.subst_call _ a

@[simp] lemma lift_ite {α : Type} {c : Prop} [Decidable c] (x y : Kprog α) :
    lift (if c then x else y) = if c then lift x else lift y := by
  split <;> rfl

lemma wp_writeInode {src : List UInt8} {off : Nat} (hpos : src ≠ []) (hlen : src.length ≤ maxWrite)
    (hoff₀ : off₀ ≤ c₀.length)
    (hs : Holding p (src ++ rest) (fun k w => Stage f i off₀ (some p) 0 k w ∧ (k.ftable f).off = off) s) :
    Spec L f i c₀ off₀ p (lift (writeInode i off src))
      (fun r s => r = some src.length ∧ Holding p rest (Stage f i off₀ (some p) src.length) s) s := by
  rw [writeInode, lift_bind, lift_act]
  refine wp_seq (wp_inode hs) fun d s hs => ?_
  rw [lift_ite, if_neg hs.kernel.2, lift_act]
  exact wp_writei hpos hlen hoff₀ ⟨hs.busy, hs.left, hs.kernel.1⟩

lemma wp_chunk {src : List UInt8} (hpos : src ≠ []) (hlen : src.length ≤ maxWrite) (hoff₀ : off₀ ≤ c₀.length)
    (hs : s.given p = sent s p ++ (src ++ rest)) :
    Spec L f i c₀ off₀ p (lift (writeChunk f i src))
      (fun r s => r = some src.length ∧ s.given p = sent s p ++ rest) s := by
  simp only [writeChunk, lift_bind]
  refine wp_seq (wp_begin hs) fun _ s hs => ?_
  rw [ilock, lift_bind, lift_act, lift_act]
  refine wp_seq (wp_seq (wp_ilock hs) fun _ s hs => wp_load hs) fun _ s hs => ?_
  refine wp_seq (wp_file hs) fun ff s hs => ?_
  refine wp_seq (wp_writeInode hpos hlen hoff₀ ⟨hs.busy, hs.left, hs.kernel.1, congrArg File.off hs.kernel.2⟩) ?_
  rintro r s ⟨rfl, hs⟩
  refine wp_seq (wp_advance hs) fun _ s hs => ?_
  refine wp_seq (wp_iunlock hs) fun _ s hs => ?_
  exact wp_seq (wp_commit hs) fun _ s hs => wp_ret ⟨rfl, hs⟩

lemma wp_filewriteFrom (hoff₀ : off₀ ≤ c₀.length) (n : Nat) (src : List UInt8) (hn : src.length ≤ n)
    (hs : s.given p = sent s p ++ src) :
    Spec L f i c₀ off₀ p (lift (filewriteFrom f i n src)) (fun _ => Done p) s := by
  induction n generalizing src s with
  | zero =>
    obtain rfl : src = [] := eq_nil_of_length_eq_zero (by omega)
    exact wp_ret (hs.trans (append_nil _))
  | succ n ih =>
    rw [filewriteFrom, lift_ite]
    by_cases hnil : src = []
    · rw [if_pos hnil]
      rw [hnil] at hs
      exact wp_ret (hs.trans (append_nil _))
    have hpos : 0 < src.length := length_pos_iff.mpr hnil
    have hmax : 0 < maxWrite := by decide
    have hlen : (src.take (min src.length maxWrite)).length = min src.length maxWrite := by
      rw [length_take]
      omega
    have hsplit : s.given p =
        sent s p ++ (src.take (min src.length maxWrite) ++ src.drop (min src.length maxWrite)) := by
      rw [take_append_drop]
      exact hs
    rw [if_neg hnil, lift_bind]
    refine wp_seq (wp_chunk (ne_nil_of_length_pos (by omega)) (by omega) hoff₀ hsplit) ?_
    rintro _ s ⟨rfl, hs⟩
    rw [lift_ite, if_pos hlen, hlen, lift_bind]
    exact wp_seq (ih _ (by rw [length_drop]; omega) hs) fun _ s hs => wp_ret hs

lemma wp_open (hs : s.given p = sent s p ++ rest) :
    Spec L f i c₀ off₀ p (act (.fs (.file f)))
      (fun ff s => s.given p = sent s p ++ rest ∧ ff.type = .inode ∧ ff.writable = true ∧ ff.ip = i) s := by
  refine wp_call (S := fun s => s.given p = sent s p ++ rest) hs ?_ ?_
  · intro s s' he hS
    rw [he.given, he.sent]
    exact hS
  intro s hi _ hS
  refine ⟨trivial, .of_next (fun _ _ => trivial) fun r s' he => ?_⟩
  change s.after (fun _ => []) (Fs.exec p (.file f) s.kernel) = .next r s' at he
  obtain ⟨k, hk, rfl⟩ := State.after_next he
  cases hk
  obtain ⟨own, l, nb, ind, ho⟩ := hi.opened
  rw [append_nil]
  exact ⟨hi, fun q _ => Env.refl q s, hS, ho.file⟩

lemma wp_write (hoff₀ : off₀ ≤ c₀.length) (src : List UInt8) (hs : Done p s) :
    Spec L f i c₀ off₀ p (write f src) (fun _ => Done p) s := by
  have hgiven : Spec L f i c₀ off₀ p (act (.given src)) (fun _ s => s.given p = sent s p ++ src) s := by
    refine wp_call (S := Done p) hs (fun s s' he hS => he.given.trans (hS.trans he.sent.symm)) fun s hi _ hS =>
      ⟨trivial, ?_⟩
    have hset : ∀ q, (s.given.set p (s.given p ++ src)) q = if q = p then s.given p ++ src else s.given q :=
      Table.get_set _ _ _
    refine ⟨⟨?_, hi.idle, hi.off, hi.contents, hi.small, fun q => ?_⟩, fun q hq => ?_, ?_⟩
    · obtain ⟨own, l, nb, ind, ho⟩ := hi.opened
      exact ⟨own, l, nb, ind, ho.congr rfl ⟨rfl, rfl, rfl⟩ ⟨rfl, rfl, rfl⟩ rfl rfl rfl⟩
    · change sent s q <+: (s.given.set p (s.given p ++ src)) q
      rw [hset]
      split
      · rename_i hq
        rw [hq]
        exact (hi.sent p).trans (prefix_append _ _)
      · exact hi.sent q
    · exact ⟨by rw [hset, if_neg hq], rfl, fun _ => ⟨rfl, rfl⟩⟩
    · change (s.given.set p (s.given p ++ src)) p = sent s p ++ src
      rw [hset, if_pos rfl, hS]
  rw [write]
  refine wp_seq hgiven fun _ s hs => ?_
  refine wp_seq ?_ fun _ s hs => wp_ret hs
  rw [filewrite, lift_bind, lift_act]
  refine wp_seq (wp_open hs) ?_
  rintro ff s ⟨hs, htype, hwritable, rfl⟩
  rw [lift_ite, if_pos hwritable, lift_ite, if_pos htype, lift_bind, Int.toNat_natCast, take_length]
  exact wp_seq (wp_filewriteFrom hoff₀ _ src le_rfl hs) fun _ s hs => wp_ret hs

lemma Ready.inv (h : Ready L f i own l nb ind s) : Inv L f i (contents s i) (s.kernel.ftable f).off s := by
  have hempty : written s = [] := by
    rw [written, h.fresh.1]
    rfl
  refine ⟨⟨own, l, nb, ind, h.toOpened⟩, fun _ => ⟨h.idle.2, h.unlocked⟩, fun _ => ?_, ?_, ?_, fun p => ?_⟩
  · rw [hempty]
    rfl
  · rw [hempty]
    simp [overwrite]
  · simp [h.fresh.1]
  · rw [sent, h.fresh.1]
    exact nil_prefix

lemma Ready.done (h : Ready L f i own l nb ind s) (p : Pid) : Done p s := by
  rw [Done, sent, h.fresh.1, h.fresh.2]
  rfl

/-- The chunks of all writers lie in the file one behind the other from the initial offset on. -/
theorem shared_writes {s₀ : State} {c : Config Pid Act Act.Res State Panic} (h : Ready L f i own l nb ind s₀)
    (hr : Reaches (writers f) Room (.initial s₀) c) :
    contents c.st i = overwrite (contents s₀ i) (s₀.kernel.ftable f).off (written c.st) ∧
      ((c.st.kernel.icache i).busy = none →
        (c.st.kernel.ftable f).off = (s₀.kernel.ftable f).off + (written c.st).length) ∧
      (∀ ch ∈ c.st.chunks, 0 < ch.2.length ∧ ch.2.length ≤ 1536) ∧
      ∀ p, sent c.st p <+: c.st.given p ∧ (c.thread p = none → sent c.st p = c.st.given p) := by
  have hlen : (s₀.kernel.ftable f).off ≤ (contents s₀ i).length := by
    rw [contents, slice, length_map, length_range]
    exact h.off
  have hsound := Logic.sound (M := writers f) (L := logic L f i (contents s₀ i) (s₀.kernel.ftable f).off) Env.refl
    (fun _ _ _ _ => Env.trans) (fun p s s' he hd => he.given.trans (hd.trans he.sent.symm))
    (fun p x s _ hd _ => wp_write hlen x hd) h.inv h.done hr
  refine ⟨hsound.inv.contents, hsound.inv.off, hsound.inv.small, fun p => ⟨hsound.inv.sent p, fun hp => ?_⟩⟩
  exact (hsound.idle p hp).symm

/-! ## A small disk -/

instance (p : Pid) (a : Act) (s : State) : Decidable (Fits p a s) := by
  unfold Fits
  split <;> infer_instance

instance (p : Pid) (a : Act) (s : State) : Decidable (Room p a s) := by
  unfold Room
  refine @instDecidableAnd _ _ _ ?_
  split <;> infer_instance

instance (s : State) (p : Pid) : Decidable ((writers f).canCall s p) := inferInstanceAs (Decidable True)

/-- A disk of `size` blocks with eight inodes and ten log blocks at its end: the root directory in
block 5, with an empty file as inode 2. The blocks from 6 on are not in use. -/
def smallDisk (size : Nat) : Table Block :=
  let sb := setWord (setWord (setWord (setWord 0 0 (UInt32.ofNat size)) 1 (UInt32.ofNat (size - 15))) 2 8) 3 10
  let root : Dinode := ⟨T_DIR, 0, 0, 1, 48, fun k => if k = 0 then 5 else 0⟩
  let entries := Dirent.bytes ⟨1, strncpy dot⟩ ++ Dirent.bytes ⟨1, strncpy dotdot⟩ ++ Dirent.bytes ⟨2, strncpy [102]⟩
  ((((Table.const 0).set 1 sb).set 2 (Dinode.store { Dinode.zero with type := T_FILE, nlink := 1 }
    (Dinode.store root 0 1) 2)).set 4 (Packed.splice 0 0 [63])).set 5 (Packed.splice 0 0 entries)

/-- File 0 is open for writing to inode 2. -/
def smallState (size : Nat) : State where
  kernel := { boot (smallDisk size) with
    icache := (boot (smallDisk size)).icache.set 2 ⟨1, none, true, { Dinode.zero with type := T_FILE, nlink := 1 }⟩
    ftable := (boot (smallDisk size)).ftable.set 0 ⟨1, .inode, 2, 0, false, true⟩ }
  start := size - 10
  chunks := []
  given := .const []

/-- Block 5 belongs to the root directory. -/
def smallOwners : Owners := fun b => if b = 5 then some (1, 0) else none

lemma smallState_ready {size : Nat} (h : size = 16 ∨ size = 32 ∨ size = 400) :
    Ready (superblock (smallDisk size)) 0 2 smallOwners [] 0 false (smallState size) := by
  have hcore : Core (superblock (smallDisk size)) smallOwners (fun _ _ => False) (smallDisk size) := by
    refine ⟨rfl, ?_, ?_, ?_, fun _ _ h => h.elim⟩
    · rcases h with rfl | rfl | rfl <;> decide +kernel
    · rcases h with rfl | rfl | rfl <;> decide +kernel
    · intro b x hb
      obtain rfl : b = 5 := by
        by_contra hne
        rw [smallOwners, if_neg hne] at hb
        cases hb
      rcases h with rfl | rfl | rfl <;> decide +kernel
  constructor
  · constructor
    · exact ⟨rfl, rfl, rfl⟩
    · exact ⟨Nat.le_refl 1, rfl⟩
    · change T_FILE ≠ T_DEV
      decide
    · rcases h with rfl | rfl | rfl <;> decide +kernel
    · refine ⟨hcore, ?_, ?_, ?_⟩
      · intro b x hb
        by_cases hne : b = 5
        · subst hne
          rcases h with rfl | rfl | rfl <;> decide
        · rw [smallOwners, if_neg hne] at hb
          cases hb
      · rcases h with rfl | rfl | rfl <;> decide +kernel
      · rcases h with rfl | rfl | rfl <;> decide +kernel
    · exact FileAt.empty _ _ _ fun k => by simp [smallState, Dinode.addr, Dinode.zero]
    · exact Nat.zero_le _
    · exact ⟨nodup_nil, Nat.zero_le _, fun h => absurd h (Nat.lt_irrefl 0)⟩
    · simp [smallState, boot]
    · rcases h with rfl | rfl | rfl <;> decide +kernel
  · exact ⟨rfl, rfl⟩
  · rfl
  · exact Nat.zero_le _
  · exact ⟨rfl, rfl⟩

theorem shared_writes_two_writers :
    ∃ c, Reaches (writers 0) Room (.initial (smallState 32)) c ∧ c.st.chunks = [(1, [65, 66]), (2, [67, 68])] ∧
      contents c.st 2 = [65, 66, 67, 68] := by
  have hr := Config.play_reaches (M := writers 0) (G := Room) (.initial (smallState 32))
    [.call 1 [65, 66] 3, .call 2 [67, 68] 4, .go 1 20, .go 2 20]
  have hchunks : (((Config.initial (smallState 32)).play (writers 0) Room
      [.call 1 [65, 66] 3, .call 2 [67, 68] 4, .go 1 20, .go 2 20]).st.chunks : List (Pid × List UInt8)) =
        [(1, [65, 66]), (2, [67, 68])] := by
    decide +kernel
  obtain ⟨hcontents, -⟩ := shared_writes (smallState_ready (.inr (.inl rfl))) hr
  refine ⟨_, hr, hchunks, ?_⟩
  rw [hcontents, written, hchunks]
  decide

/-- With no free block below the log, the block of the file is the header of the log, which the
commit writes to. -/
theorem full_disk_write_lost :
    Ready (superblock (smallDisk 16)) 0 2 smallOwners [] 0 false (smallState 16) ∧
      ∃ c, Reaches (writers 0) Fits (.initial (smallState 16)) c ∧ c.stopped = none ∧ (∀ p, c.thread p = none) ∧
        c.st.chunks = [(1, [65, 66, 67, 68, 69, 70, 71, 72])] ∧ contents (smallState 16) 2 = [] ∧
        contents c.st 2 = [0, 0, 0, 0, 69, 70, 71, 72] := by
  refine ⟨smallState_ready (.inl rfl), _, Config.play_reaches _
    [.call 1 [65, 66, 67, 68, 69, 70, 71, 72] 20], ?_, fun p => ?_, ?_, ?_, ?_⟩
  · decide +kernel
  · by_cases hp : p = 1
    · subst hp
      rw [← Option.isNone_iff_eq_none]
      decide +kernel
    rw [Config.play_thread]
    · rfl
    · intro t ht
      rw [mem_singleton.mp ht]
      exact hp
  · decide +kernel
  · decide +kernel
  · decide +kernel

end Xv6.Fs.Writers
