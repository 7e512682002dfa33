import Xv6.Lib.Solo
import Xv6.Proofs.FileLaws

/-!
# What `write` reports

The chunks before one that does not fit the file are stored although the call fails.
-/

namespace Xv6.Fs

open Threads List

namespace Writers

open Bytes

variable {L : Superblock} {own : Owners} {f i nb : Nat} {l src : List UInt8} {ind : Bool} {s s' : State} {p : Pid}

/-- The open file of `Opened` between two transactions, with the inode unlocked. -/
structure Quiet (L : Superblock) (f i : Nat) (own : Owners) (l : List UInt8) (nb : Nat) (ind : Bool) (s : State) :
    Prop extends Opened L f i own l nb ind s where
  idle : s.kernel.store.log.busy = none ∧ s.kernel.store.log.sectors = []
  unlocked : (s.kernel.icache i).busy = none

def State.off (s : State) (f : Nat) : Nat := (s.kernel.ftable f).off

def State.locked (s : State) (p : Pid) (i : Nat) : State :=
  { s with kernel := { s.kernel with
    store := { s.kernel.store with log := { s.kernel.store.log with busy := some p } }
    icache := s.kernel.icache.set i { s.kernel.icache i with busy := some p } } }

def State.writei (s : State) (p : Pid) (f i : Nat) (src : List UInt8) :
    EStateM.Result Panic Store (Option Nat × Dinode) :=
  Fs.writei i (s.kernel.icache i).ino (s.off f) src { (s.locked p i).kernel.store with caller := p }

/-- The state after a chunk for which `writei` returned `r`. -/
structure Stored (f i : Nat) (r : Option Nat) (ip : Dinode) (st : Store) (s s' : State) : Prop where
  start : s'.start = s.start
  store : s'.kernel.store = commitTrans s.start st
  entry : s'.kernel.icache i = { s.kernel.icache i with ino := ip }
  file : s'.kernel.ftable f = { s.kernel.ftable f with off := s.off f + r.getD 0 }

lemma exec_locked_writei (r : Option Nat) (ip : Dinode) (st : Store) (hw : s.writei p f i src = .ok (r, ip) st) :
    exec p (.fs (.writei i (s.off f) src)) (s.locked p i) = .next r { s.locked p i with
      kernel := setIno { (s.locked p i).kernel with store := st } i ip
      chunks := s.chunks ++ r.toList.map fun n => (p, src.take n) } := by
  have hino : ((s.locked p i).kernel.icache i).ino = (s.kernel.icache i).ino := by simp [State.locked]
  rw [State.writei] at hw
  simp only [exec, Fs.exec, onInode, hino, hw]
  rfl

lemma exec_locked_writei_error (e : Panic) (st : Store) (hw : s.writei p f i src = .error e st) :
    exec p (.fs (.writei i (s.off f) src)) (s.locked p i) = .stop e := by
  have hino : ((s.locked p i).kernel.icache i).ino = (s.kernel.icache i).ino := by simp [State.locked]
  rw [State.writei] at hw
  simp only [exec, Fs.exec, onInode, hino, hw]
  rfl

lemma Quiet.run_writeChunk (h : Quiet L f i own l nb ind s) :
    Solo (exec p) (lift (writeChunk f i src)) s
      (fun r s' => ∃ ip st, s.writei p f i src = .ok (r, ip) st ∧ Stored f i r ip st s s')
      (∃ e st, s.writei p f i src = .error e st) := by
  have href := h.entry.1
  simp only [writeChunk, beginTrans, ilock, writeInode, iunlock, Fs.commitTrans, lift_bind, bind_assoc]
  refine .step (r := ()) (t := { s with kernel := { s.kernel with store := (s.locked p i).kernel.store } }) ?_ ?_
  · simp [exec, State.after, Fs.exec, h.idle.1, State.locked]
  refine .step (r := ()) (t := s.locked p i) ?_ (.step (r := ()) (t := s.locked p i) ?_ ?_)
  · simp [exec, State.after, Fs.exec, h.unlocked, Nat.not_lt.mpr href, State.locked]
  · simp [exec, State.after, Fs.exec, h.entry.2, State.locked]
  refine .step (r := s.kernel.ftable f) (t := s.locked p i) ?_
    (.step (r := (s.kernel.icache i).ino) (t := s.locked p i) ?_ ?_)
  · simp [exec, State.after, Fs.exec, State.locked]
  · simp [exec, State.after, Fs.exec, State.locked]
  rw [lift_ite, if_neg h.regular]
  cases hw : s.writei p f i src with
  | error e st =>
    exact (Solo.stop (exec_locked_writei_error e st hw) ⟨e, st, rfl⟩).bind (Q := fun _ _ => False) fun _ _ => False.elim
  | ok x st =>
    obtain ⟨r, ip⟩ := x
    refine .step (exec_locked_writei r ip st hw) ?_
    refine Solo.bind (Q := fun _ t => t.start = s.start ∧ t.kernel.store = st ∧
      t.kernel.icache i = { s.kernel.icache i with ino := ip, busy := some p } ∧
      t.kernel.ftable f = { s.kernel.ftable f with off := s.off f + r.getD 0 }) ?_ ?_
    · cases r with
      | none => exact .pure ⟨rfl, rfl, by simp [setIno, State.locked], rfl⟩
      | some n => exact .call rfl ⟨rfl, rfl, by simp [setIno, State.locked], by simp [setIno, State.locked, State.off]⟩
    rintro _ t ⟨hstart, hstore, hentry, hfile⟩
    refine .step (r := ()) (t := { t with kernel := { t.kernel with
      icache := t.kernel.icache.set i { s.kernel.icache i with ino := ip } } }) ?_ (.step rfl (.pure ⟨ip, st, rfl, ?_⟩))
    · simp [exec, State.after, Fs.exec, hentry, Nat.not_lt.mpr href, h.unlocked]
    · exact ⟨hstart, by dsimp only; rw [hstart, hstore], by simp, hfile⟩

lemma Stored.quiet {r : Option Nat} {ip : Dinode} {st : Store} (h : Stored f i r ip st s s')
    (hunlocked : (s.kernel.icache i).busy = none)
    (ho : Opened L f i own l nb ind { s with kernel := setIno { s.kernel with store := st } i ip }) :
    Quiet L f i own l nb ind s' ∧ ∀ b, b < s.start → s'.kernel.store.disk b = st.disk b := by
  obtain ⟨hdisk, hcommit⟩ := ho.commit
  refine ⟨⟨hcommit.congr h.start ?_ ?_ ?_ ?_ ?_, ?_, ?_⟩, ?_⟩
  · rw [h.file]
    exact ⟨rfl, rfl, rfl⟩
  · rw [h.entry]
    simp [setIno]
  · rw [h.store]
    rfl
  · rw [h.store]
    rfl
  · rw [h.store]
    rfl
  · rw [h.store]
    exact ⟨rfl, rfl⟩
  · rw [h.entry]
    exact hunlocked
  · rw [h.store]
    exact hdisk

def LogHolds (L : Superblock) (s : State) : Prop := L.size / BPB + 7 < min Log.LOGSIZE (s.kernel.store.log.size - 1)

def Refuses (f i n : Nat) (s : State) : Prop :=
  (s.kernel.icache i).ino.size.toNat < s.off f ∨ MAXFILE * BSIZE < s.off f + n

lemma frees_pos {lim : Nat} {d : Disk} (h : Placed L lim own d) :
    ∀ b ∈ frees L d, b ≠ 0 ∧ b < L.size := by
  intro b hb
  obtain ⟨hlt, hfree⟩ := mem_filter.mp hb
  refine ⟨?_, mem_range.mp hlt⟩
  rintro rfl
  rw [h.core.reserved 0 (Nat.succ_pos _)] at hfree
  cases hfree

/-- A chunk logs its blocks, the bitmap, the indirect block and that of the inode. -/
lemma Quiet.fits (h : Quiet L f i own l nb ind s) (hl : LogHolds L s) {n : Nat} (hn : n ≤ maxWrite) :
    (s.locked p i).kernel.store.log.Fits
      (writeiWrites L s.kernel.store.disk i (s.kernel.icache i).ino (s.off f) n) := by
  obtain ⟨G, hcard, -, hG⟩ := exists_blockWrites_subset (blockOf s.kernel.store.disk (s.kernel.icache i).ino)
    (blocksOf (s.off f) n) (s.off f / BSIZE) ((s.kernel.icache i).ino.addr NDIRECT).toNat _ (frees_pos h.placed)
  have hblocks := blocksOf_le (s.off f) hn
  have hbitmap : (bitmapBlocks L).card ≤ L.size / BPB + 1 := Finset.card_image_le.trans_eq (Finset.card_range _)
  have hunion := Finset.card_union_le (bitmapBlocks L) G
  have hinsert := Finset.card_insert_le (iblock i) (bitmapBlocks L ∪ G)
  refine Trans.fits_of_card (F := insert (iblock i) (bitmapBlocks L ∪ G)) (Option.some_ne_none p) h.log.nodup ?_ ?_
  · intro b hb
    rcases mem_append.mp hb with hb | hb
    · exact Finset.mem_insert_of_mem (hG b hb)
    · split at hb
      · exact mem_singleton.mp hb ▸ Finset.mem_insert_self _ _
      · cases hb
  · change (s.kernel.store.log.sectors.toFinset ∪ _).card < min _ (s.kernel.store.log.size - 1)
    rw [h.idle.2, toFinset_nil, Finset.empty_union]
    unfold LogHolds at hl
    omega

/-- The number of blocks of a file up to the last one that `n` bytes at `off` reach. -/
def endBlock (off n : Nat) : Nat := off / BSIZE + blocksOf off n

lemma Quiet.writeChunk (h : Quiet L f i own l nb ind s) (hlen : src.length ≤ maxWrite) (hoff : s.off f < 2 ^ 32)
    (hroom : ¬Refuses f i src.length s →
      newBlocks nb ind (endBlock (s.off f) src.length) ≤ freeBelow L s.start s.kernel.store.disk) :
    Solo (exec p) (lift (writeChunk f i src)) s (fun r s' =>
      (Refuses f i src.length s ∧ r = none ∧ Quiet L f i own l nb ind s' ∧ s'.off f = s.off f ∧
        s'.kernel.icache i = s.kernel.icache i) ∨
      (¬Refuses f i src.length s ∧ r = some src.length ∧ s'.off f = s.off f + src.length ∧
        contents s' i = overwrite (contents s i) (s.off f) src ∧
        freeBelow L s.start s.kernel.store.disk ≤ freeBelow L s'.start s'.kernel.store.disk +
          newBlocks nb ind (endBlock (s.off f) src.length) ∧
        (LogHolds L s → LogHolds L s') ∧
        ∃ own' l', Quiet L f i own' l' (max nb (endBlock (s.off f) src.length))
          (ind || decide (NDIRECT < endBlock (s.off f) src.length)) s'))
      (¬LogHolds L s) := by
  by_cases hr : Refuses f i src.length s
  · have hw : s.writei p f i src = .ok (none, (s.kernel.icache i).ino) _ :=
      writei_refused hoff (by unfold maxWrite Log.LOGSIZE at hlen; omega) (hr.imp_left .inl)
    refine h.run_writeChunk.mono ?_ ?_
    · rintro r s' ⟨ip, st, hw', hst⟩
      rw [hw] at hw'
      cases hw'
      obtain ⟨hq, -⟩ := hst.quiet h.unlocked (h.toOpened.congr rfl ⟨rfl, rfl, rfl⟩ (by simp [setIno]) rfl rfl rfl)
      refine .inl ⟨hr, rfl, hq, ?_, hst.entry⟩
      rw [State.off, hst.file]
      rfl
    · rintro ⟨e, st, hw'⟩
      rw [hw] at hw'
      cases hw'
  · have hroom := hroom hr
    unfold Refuses at hr
    have hspec := writei_spec (s := { (s.locked p i).kernel.store with caller := p }) h.inum h.placed
      h.bytes h.size (by omega) (by omega) hroom
    have herror : (∃ e st, s.writei p f i src = .error e st) → ¬LogHolds L s := by
      rintro ⟨e, st, hw⟩ hl
      exact (hspec.of_error _ _ hw).2 (h.fits hl hlen)
    refine h.run_writeChunk.mono ?_ herror
    rintro r s' ⟨ip, st, hw, hst⟩
    obtain ⟨⟨hr', hsz, htype, htouch, hfree', own', hplaced, hfile, -⟩, -⟩ := hspec.of_ok _ _ hw
    subst hr'
    have ho : Opened L f i own' (overwrite l (s.off f) src) (max nb (endBlock (s.off f) src.length))
        (ind || decide (NDIRECT < endBlock (s.off f) src.length))
        { s with kernel := setIno { s.kernel with store := st } i ip } := by
      have hlocked : Opened L f i own l nb ind
          { s with kernel := { s.kernel with store := (s.locked p i).kernel.store } } :=
        h.toOpened.congr rfl ⟨rfl, rfl, rfl⟩ ⟨rfl, rfl, rfl⟩ rfl rfl rfl
      exact hlocked.write s.chunks (by dsimp only; omega) hsz htype htouch hplaced hfile
    obtain ⟨hq, hd⟩ := hst.quiet h.unlocked ho
    have hoff' : s'.off f = s.off f + src.length := by
      rw [State.off, hst.file]
      rfl
    refine .inr ⟨hr, rfl, hoff', ?_, ?_, ?_, _, _, hq⟩
    · rw [hq.contents_eq, h.contents_eq, hst.entry]
      rw [hsz, take_overwrite l src (by omega) h.size]
    · rw [hst.start, hplaced.freeBelow_congr hd]
      exact hfree'
    · unfold LogHolds
      rw [hst.store]
      change _ → _ < min _ (st.log.size - 1)
      rw [htouch.size]
      exact id

/-- How many of `n` bytes at `off` the chunks store that end within the maximum file size. -/
def accepted (off n : Nat) : Nat :=
  if off + n ≤ MAXFILE * BSIZE then n else (MAXFILE * BSIZE - off) / maxWrite * maxWrite

lemma accepted_chunk {off n : Nat} (hfits : off + min n maxWrite ≤ MAXFILE * BSIZE) :
    accepted off n = min n maxWrite + accepted (off + min n maxWrite) (n - min n maxWrite) := by
  have hmax : MAXFILE * BSIZE = 71680 := rfl
  have hchunk : maxWrite = 1536 := rfl
  unfold accepted
  rw [hmax, hchunk] at hfits ⊢
  split <;> split <;> omega

lemma accepted_le {off n : Nat} (h : off ≤ MAXFILE * BSIZE) : off + accepted off n ≤ MAXFILE * BSIZE := by
  unfold accepted
  split
  · assumption
  · have := Nat.div_mul_le_self (MAXFILE * BSIZE - off) maxWrite
    omega

lemma endBlock_add (off m n : Nat) : endBlock off (m + n) = max (endBlock off m) (endBlock (off + m) n) := by
  unfold endBlock blocksOf BSIZE
  split <;> split <;> split <;> omega

/-- What the loop of `filewrite` does with `n` bytes of which it writes `c`. -/
structure Wrote (L : Superblock) (f i : Nat) (src : List UInt8) (c : Nat) (s s' : State) : Prop where
  quiet : ∃ own l nb ind, Quiet L f i own l nb ind s'
  le : c ≤ src.length
  off : s'.off f = s.off f + c
  contents : contents s' i = overwrite (contents s i) (s.off f) (src.take c)
  all : ¬Refuses f i src.length s → c = src.length
  none : Refuses f i (min src.length maxWrite) s → c = 0
  some : src ≠ [] → ¬Refuses f i (min src.length maxWrite) s → 0 < c
  max : 0 < c → s.off f + c ≤ MAXFILE * BSIZE

lemma contents_length (s : State) (i : Nat) : (Writers.contents s i).length = (s.kernel.icache i).ino.size.toNat :=
  length_slice _ _ _

lemma Refuses.mono {m n : Nat} (h : Refuses f i m s) (hn : m ≤ n) : Refuses f i n s :=
  h.imp_right fun h => Nat.lt_of_lt_of_le h (Nat.add_le_add_left hn _)

lemma Wrote.zero (hq : Quiet L f i own l nb ind s') (hoff : s'.off f = s.off f)
    (hc : Writers.contents s' i = Writers.contents s i) (h : src = [] ∨ Refuses f i (min src.length maxWrite) s) :
    Wrote L f i src 0 s s' := by
  refine ⟨⟨_, _, _, _, hq⟩, Nat.zero_le _, hoff, ?_, fun hn => ?_, fun _ => rfl, fun hne hn => ?_, nofun⟩
  · rw [hc]
    simp [overwrite]
  · rcases h with rfl | h
    · rfl
    · exact absurd (h.mono (Nat.min_le_left _ _)) hn
  · rcases h with h | h
    · exact absurd h hne
    · exact absurd h hn

lemma Wrote.append {n c : Nat} {s'' : State} (hn : n = min src.length maxWrite) (hpos : 0 < n) (hr : ¬Refuses f i n s)
    (hoff : s'.off f = s.off f + n)
    (hc : Writers.contents s' i = overwrite (Writers.contents s i) (s.off f) (src.take n))
    (h : Wrote L f i (src.drop n) c s' s'') : Wrote L f i src (n + c) s s'' := by
  unfold Refuses at hr
  have hle : s.off f ≤ (Writers.contents s i).length := by
    rw [contents_length]
    omega
  have hlen : (src.take n).length = n := by
    rw [length_take]
    omega
  have hsize : s'.off f ≤ (s'.kernel.icache i).ino.size.toNat := by
    rw [← contents_length, hc, length_overwrite _ _ _ hle, hlen]
    omega
  have hcle := h.le
  rw [length_drop] at hcle
  refine ⟨h.quiet, by omega, ?_, ?_, fun hall => ?_, fun hnone => ?_, fun _ _ => by omega, fun _ => ?_⟩
  · rw [h.off, hoff, Nat.add_assoc]
  · rw [h.contents, hc, hoff, take_add, ← overwrite_append _ _ _ _ hle, hlen]
  · unfold Refuses at hall
    have hrest : ¬Refuses f i (src.drop n).length s' := by
      unfold Refuses
      rw [length_drop]
      omega
    rw [h.all hrest, length_drop]
    omega
  · rw [← hn] at hnone
    exact absurd hnone hr
  · rcases Nat.eq_zero_or_pos c with rfl | hc
    · omega
    · have := h.max hc
      omega

lemma Quiet.filewriteFrom (n : Nat) (h : Quiet L f i own l nb ind s) (hn : src.length ≤ n) (hoff : s.off f < 2 ^ 32)
    (hroom : ¬Refuses f i (min src.length maxWrite) s →
      newBlocks nb ind (endBlock (s.off f) (accepted (s.off f) src.length)) ≤
        freeBelow L s.start s.kernel.store.disk) :
    Solo (exec p) (lift (filewriteFrom f i n src)) s (fun c s' => Wrote L f i src c s s') (¬LogHolds L s) := by
  induction n generalizing src s own l nb ind with
  | zero =>
    obtain rfl : src = [] := eq_nil_of_length_eq_zero (by omega)
    exact .pure (.zero h rfl rfl (.inl rfl))
  | succ n ih =>
    rw [Fs.filewriteFrom, lift_ite]
    by_cases hnil : src = []
    · rw [if_pos hnil]
      exact .pure (.zero h rfl rfl (.inl hnil))
    rw [if_neg hnil, lift_bind]
    have hpos : 0 < src.length := length_pos_iff.mpr hnil
    have hmax : maxWrite = 1536 := rfl
    have hlen : (src.take (min src.length maxWrite)).length = min src.length maxWrite := by
      rw [length_take]
      omega
    -- The blocks that all chunks need are those of the first one and those of the rest.
    have hsplit : ¬Refuses f i (min src.length maxWrite) s →
        newBlocks nb ind (endBlock (s.off f) (min src.length maxWrite)) +
          newBlocks (max nb (endBlock (s.off f) (min src.length maxWrite)))
            (ind || decide (NDIRECT < endBlock (s.off f) (min src.length maxWrite)))
            (endBlock (s.off f + min src.length maxWrite)
              (accepted (s.off f + min src.length maxWrite) (src.length - min src.length maxWrite))) ≤
        freeBelow L s.start s.kernel.store.disk := by
      intro hr
      have hroom := hroom hr
      unfold Refuses at hr
      rw [accepted_chunk (by omega), endBlock_add] at hroom
      rwa [← newBlocks_max (le_max_right _ _), newBlocks_add _ _ h.bytes.far (le_max_left _ _)]
    have hchunk := h.writeChunk (p := p) (show (src.take (min src.length maxWrite)).length ≤ maxWrite by omega) hoff
    rw [hlen] at hchunk
    refine (hchunk fun hr => (Nat.le_add_right _ _).trans (hsplit hr)).bind ?_
    rintro r s' (⟨hr, rfl, hq, hoff', hentry⟩ | ⟨hr, rfl, hoff', hc, hfree', hl, own', l', hq⟩)
    · refine .pure (.zero hq hoff' ?_ (.inr hr))
      rw [hq.contents_eq, h.contents_eq, hentry]
    have hfits := hr
    unfold Refuses at hfits
    have hbig : MAXFILE * BSIZE < 2 ^ 32 := by decide
    rw [lift_ite, if_pos rfl, lift_bind]
    have hle : (src.drop (min src.length maxWrite)).length ≤ n := by
      rw [length_drop]
      omega
    refine ((ih hq hle (by omega) fun _ => ?_).mono (fun c s'' hw => hw) (mt hl)).bind
      fun c s'' hw => .pure (.append rfl (by omega) hr hoff' hc hw)
    have := hsplit hr
    rw [hoff', length_drop]
    omega

lemma Quiet.filewrite {addr : List UInt8} {n : Int} (h : Quiet L f i own l nb ind s) (hoff : s.off f < 2 ^ 32)
    (haddr : n.toNat ≤ addr.length) (hfree : ¬Refuses f i (min n.toNat maxWrite) s →
      lacking s.kernel.store.disk (s.kernel.icache i).ino (s.off f) (accepted (s.off f) n.toNat) ≤
        freeBelow L s.start s.kernel.store.disk) :
    Solo (exec p) (lift (filewrite f addr n)) s
      (fun r s' => ∃ c : Nat, r = (if (c : Int) = n then n else -1) ∧ Wrote L f i (addr.take n.toNat) c s s')
      (¬LogHolds L s) := by
  have hlen : (addr.take n.toNat).length = n.toNat := by
    rw [length_take]
    omega
  obtain ⟨htype, hwritable, hip⟩ := h.file
  rw [Fs.filewrite, lift_bind]
  refine .step (r := s.kernel.ftable f) (t := s) (by simp [exec, State.after, Fs.exec]) ?_
  rw [lift_ite, if_pos hwritable, lift_ite, if_pos htype, lift_bind, hip]
  refine (h.filewriteFrom n.toNat hlen.le hoff fun hr => ?_).bind fun c s' hw => .pure ⟨c, rfl, hw⟩
  rw [hlen] at hr ⊢
  have hfree := hfree hr
  unfold Refuses at hr
  have hsize := h.size
  rwa [h.bytes.lacking_eq (by omega) (accepted_le (by omega))] at hfree

/-- The value `r` of `filewrite` for `n` bytes says what has happened to the file and the offset. -/
structure Truthful (f i : Nat) (addr : List UInt8) (n r : Int) (s s' : State) : Prop where
  all : 0 ≤ n → (r = n ↔ contents s' i = overwrite (contents s i) (s.off f) (addr.take n.toNat) ∧
    s'.off f = s.off f + n.toNat)
  nothing : r = -1 → contents s' i = contents s i ∧
    (s'.kernel.icache i).ino.size = (s.kernel.icache i).ino.size ∧ s'.off f = s.off f

lemma Wrote.truthful_iff {addr : List UInt8} {n : Int} {c : Nat} (hw : Wrote L f i (addr.take n.toNat) c s s')
    (haddr : n.toNat ≤ addr.length) :
    Truthful f i addr n (if (c : Int) = n then n else -1) s s' ↔ c = 0 ∨ (c : Int) = n := by
  have hlen : (addr.take n.toNat).length = n.toNat := by
    rw [length_take]
    omega
  have hle := hw.le
  have hoff := hw.off
  constructor
  · intro ht
    by_contra hc
    rw [not_or] at hc
    rw [if_neg hc.2] at ht
    have := (ht.nothing rfl).2.2
    omega
  · intro hc
    refine ⟨fun hn => ?_, fun hr => ?_⟩
    · by_cases hcn : (c : Int) = n
      · have hcontents := hw.contents
        rw [show c = n.toNat by omega, take_of_length_le hlen.le] at hcontents
        simp only [if_pos hcn, true_iff]
        exact ⟨hcontents, by omega⟩
      · rw [if_neg hcn]
        constructor
        · omega
        · rintro ⟨-, hadv⟩
          omega
    · obtain rfl : c = 0 := by
        rcases hc with hc | hc
        · exact hc
        · rw [if_pos hc] at hr
          omega
      have hcontents : Writers.contents s' i = Writers.contents s i := by
        rw [hw.contents]
        simp [overwrite]
      refine ⟨hcontents, ?_, hoff⟩
      rw [← UInt32.toNat_inj, ← contents_length, ← contents_length, hcontents]

lemma smallState_quiet (size : Nat) (h : size = 16 ∨ size = 32 ∨ size = 400) :
    Quiet (superblock (smallDisk size)) 0 2 smallOwners [] 0 false (smallState size) :=
  have hr := smallState_ready h
  ⟨hr.toOpened, hr.idle, hr.unlocked⟩

lemma long_write {addr : List UInt8} (haddr : addr.length = 71681) :
    ∃ s', (lift (filewrite 0 addr 71681)).run (exec 1) (smallState 400) = .next (-1) s' ∧
      contents s' 2 ≠ contents (smallState 400) 2 ∧ s'.off 0 ≠ (smallState 400).off 0 := by
  have hlen : (addr.take (71681 : Int).toNat).length = 71681 := by
    rw [length_take, haddr]
    rfl
  have hrun := (smallState_quiet 400 (.inr (.inr rfl))).filewrite (p := 1) (n := 71681) (by decide) haddr.ge
    fun _ => by decide +kernel
  obtain ⟨r, s', hnext, c, hr, hw⟩ := hrun.returns (not_not.mpr (by unfold LogHolds; decide +kernel))
  have hpos := hw.some (ne_nil_of_length_pos (by omega)) (by rw [hlen]; unfold Refuses; decide +kernel)
  have hoff := hw.off
  have hmax := hw.max hpos
  have hzero : (smallState 400).off 0 = 0 := rfl
  have hbig : MAXFILE * BSIZE = 71680 := rfl
  rw [if_neg (by omega)] at hr
  subst hr
  refine ⟨s', hnext, fun he => ?_, by omega⟩
  have hcontents := congrArg List.length (he.symm.trans hw.contents)
  rw [hzero, length_overwrite _ _ _ (Nat.zero_le _), length_take, hlen, contents_length] at hcontents
  have hempty : ((smallState 400).kernel.icache 2).ino.size.toNat = 0 := rfl
  omega

end Writers

end Xv6.Fs
