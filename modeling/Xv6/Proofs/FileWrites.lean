import Xv6.Proofs.FileContents

/-!
# Writing to a file

The bytes are written over the old ones as long as the allocator finds enough blocks below a limit,
which is where the log begins, and nothing from the limit on is touched.
-/

namespace Xv6.Fs

open Bytes List

variable {L : Superblock} {lim : Nat} {own own' : Owners} {d : Disk} {t : Table Block} {s s' s'' : Store}
  {i b nb : Nat} {ip : Dinode} {l : List UInt8} {ind : Bool}

/-! ## Free blocks -/

def freeBelow (L : Superblock) (lim : Nat) (d : Disk) : Nat :=
  (List.range lim).countP fun b => !inUse d L.ninodes b

lemma freeBelow_succ (L : Superblock) (lim : Nat) (d : Disk) :
    freeBelow L (lim + 1) d = freeBelow L lim d + if inUse d L.ninodes lim then 0 else 1 := by
  rw [freeBelow, range_succ, countP_append, countP_singleton]
  cases inUse d L.ninodes lim <;> rfl

lemma size_le_bitCount : L.size ≤ bitCount L := by
  unfold bitCount BPB BSIZE
  omega

lemma FirstFree.lt_of_room (h : FirstFree L d b) (hroom : 0 < freeBelow L lim d) : b < lim := by
  obtain ⟨c, hc, hfree⟩ := countP_pos_iff.mp hroom
  have hclear : inUse d L.ninodes c = false := by simpa using hfree
  have hlt := mem_range.mp hc
  by_contra hle
  have hset := h.least c (by omega)
  rw [hclear] at hset
  cases hset

lemma freeBelow_allocated (hs : dataStart L ≤ b) (hlim : lim ≤ bitCount L) :
    freeBelow L lim t ≤ freeBelow L lim (Core.allocated t L.ninodes b) + if b < lim then 1 else 0 := by
  induction lim with
  | zero => exact Nat.zero_le _
  | succ n ih =>
    have hn := ih (by omega)
    rw [freeBelow_succ, freeBelow_succ, Core.inUse_allocated hs n (by omega)]
    by_cases hb : n = b
    · subst hb
      rw [if_neg (Nat.lt_irrefl n)] at hn
      rw [if_pos (Nat.lt_succ_self n), decide_eq_true rfl, Bool.true_or, if_pos rfl]
      split <;> omega
    · rw [decide_eq_false hb, Bool.false_or]
      split at hn <;> split <;> split <;> omega

lemma freeBelow_set (hs : dataStart L ≤ b) (hlim : lim ≤ bitCount L) (v : Block) :
    freeBelow L lim (t.set b v) = freeBelow L lim t := by
  refine countP_congr fun c hc => ?_
  have hlt := bblock_lt_dataStart (Nat.lt_of_lt_of_le (mem_range.mp hc) hlim)
  rw [inUse_set_ne _ _ _ _ _ (by omega)]

lemma freeBelow_table (hi : i < L.ninodes) (v : Block) :
    freeBelow L lim (t.set (iblock i) v) = freeBelow L lim t := by
  refine countP_congr fun c _ => ?_
  rw [inUse_set_ne _ _ _ _ _ (iblock_ne_bblock hi c).symm]

/-- The free blocks in the order in which `balloc` finds them. -/
def frees (L : Superblock) (d : Disk) : List Nat := (List.range L.size).filter fun b => !inUse d L.ninodes b

lemma filter_range_cons {p q : Nat → Bool} {n : Nat} (hb : b < n) (hp : p b = true) (hbefore : ∀ c, c < b → p c = false)
    (hq : ∀ c, c < n → q c = (!decide (c = b) && p c)) : (range n).filter p = b :: (range n).filter q := by
  induction n with
  | zero => omega
  | succ n ih =>
    rw [range_succ, filter_append, filter_append]
    have hlast := hq n (Nat.lt_succ_self n)
    by_cases hn : b = n
    · subst hn
      have hnone : ∀ f : Nat → Bool, (∀ c, c < b → f c = false) → (range b).filter f = [] := by
        intro f hf
        exact filter_eq_nil_iff.mpr fun c hc => by simp [hf c (mem_range.mp hc)]
      rw [hnone p hbefore, hnone q fun c hc => by rw [hq c (by omega), hbefore c hc, Bool.and_false]]
      simp [hp, hlast]
    · rw [ih (by omega) fun c hc => hq c (by omega), cons_append]
      congr 2
      simp [filter_singleton, hlast, Ne.symm hn]

lemma frees_set (hs : dataStart L ≤ b) (v : Block) : frees L (t.set b v) = frees L t := by
  refine filter_congr fun c hc => ?_
  have hlt := bblock_lt_dataStart (lt_bitCount (mem_range.mp hc))
  rw [inUse_set_ne _ _ _ _ _ (by omega)]

lemma FirstFree.frees (h : FirstFree L t b) : frees L t = b :: frees L (Core.allocated t L.ninodes b) := by
  refine filter_range_cons h.lt (by rw [h.free]; rfl) (fun c hc => by rw [h.least c hc]; rfl) fun c hc => ?_
  rw [Core.inUse_allocated h.start c (lt_bitCount hc), Bool.not_or]

/-! ## Blocks that an operation touches -/

/-- The list of logged blocks as `log_write` keeps it. -/
structure Trans.Ok (t : Trans) : Prop where
  nodup : t.sectors.Nodup
  le : t.sectors.length ≤ Log.LOGSIZE
  lt : 0 < t.sectors.length → t.sectors.length < t.size

/-- Only blocks of `T` are written and logged. -/
structure Touches (T : Nat → Prop) (s s' : Store) : Prop where
  busy : s'.log.busy = s.log.busy
  size : s'.log.size = s.log.size
  ok : s.log.Ok → s'.log.Ok
  sectors : ∀ b ∈ s'.log.sectors, b ∈ s.log.sectors ∨ T b
  disk : ∀ b, ¬T b → s'.disk b = s.disk b

namespace Touches

variable {T T' : Nat → Prop}

lemma refl (T : Nat → Prop) (s : Store) : Touches T s s := ⟨rfl, rfl, id, fun _ h => .inl h, fun _ _ => rfl⟩

lemma trans (h : Touches T s s') (h' : Touches T s' s'') : Touches T s s'' := by
  refine ⟨h'.busy.trans h.busy, h'.size.trans h.size, fun hs => h'.ok (h.ok hs), fun b hb => ?_,
    fun b hb => (h'.disk b hb).trans (h.disk b hb)⟩
  rcases h'.sectors b hb with hb | hb
  · exact h.sectors b hb
  · exact .inr hb

lemma mono (h : Touches T s s') (hT : ∀ b, T b → T' b) : Touches T' s s' :=
  ⟨h.busy, h.size, h.ok, fun b hb => (h.sectors b hb).imp_right (hT b), fun b hb => h.disk b fun hb' => hb (hT b hb')⟩

end Touches

/-! ## Room in the log -/

/-- What `log_write` does to the list of logged blocks. -/
def Trans.add (t : Trans) (b : Nat) : Trans :=
  { t with sectors := if b ∈ t.sectors then t.sectors else t.sectors ++ [b] }

/-- The log has room for `log_write` of the blocks `ws`, one after the other. The test is made for blocks that
are in it already, too. -/
def Trans.Fits (t : Trans) : List Nat → Prop
  | [] => True
  | b :: ws => t.sectors.length < min Log.LOGSIZE (t.size - 1) ∧ t.busy ≠ none ∧ (t.add b).Fits ws

instance Trans.decidableFits (t : Trans) : (ws : List Nat) → Decidable (t.Fits ws)
  | [] => inferInstanceAs (Decidable True)
  | b :: ws => have := (t.add b).decidableFits ws; inferInstanceAs (Decidable (_ ∧ _))

lemma Trans.fits_append {t : Trans} {ws ws' : List Nat} :
    t.Fits (ws ++ ws') ↔ t.Fits ws ∧ (ws.foldl Trans.add t).Fits ws' := by
  induction ws generalizing t with
  | nil => exact (iff_of_eq (true_and _)).symm
  | cons b ws ih => rw [cons_append, Trans.Fits, Trans.Fits, ih, foldl_cons, and_assoc, and_assoc]

/-- Blocks of a set that is small enough fit. -/
lemma Trans.fits_of_card {t : Trans} {ws : List Nat} {F : Finset Nat} (hbusy : t.busy ≠ none) (hnodup : t.sectors.Nodup)
    (hF : ∀ b ∈ ws, b ∈ F) (hcard : (t.sectors.toFinset ∪ F).card < min Log.LOGSIZE (t.size - 1)) : t.Fits ws := by
  induction ws generalizing t with
  | nil => trivial
  | cons b ws ih =>
    obtain ⟨hb, hF⟩ := forall_mem_cons.mp hF
    have hle := Finset.card_le_card (Finset.subset_union_left : t.sectors.toFinset ⊆ t.sectors.toFinset ∪ F)
    rw [toFinset_card_of_nodup hnodup] at hle
    have hsame : (t.add b).sectors.toFinset ∪ F = t.sectors.toFinset ∪ F := by
      ext c
      have hbc : c = b → c ∈ F := fun he => he ▸ hb
      simp only [Trans.add]
      split
      · rfl
      · simp only [toFinset_append, Finset.mem_union, mem_toFinset, mem_singleton]
        tauto
    refine ⟨by omega, hbusy, ih hbusy ?_ hF (by rw [hsame]; exact hcard)⟩
    simp only [Trans.add]
    split
    · exact hnodup
    · exact concat_eq_append ▸ hnodup.concat ‹_›

structure Entered (ws : List Nat) (s s' : Store) : Prop where
  fits : s.log.Fits ws
  log : s'.log = ws.foldl Trans.add s.log

lemma Trans.foldl_add_busy (t : Trans) (ws : List Nat) : (ws.foldl Trans.add t).busy = t.busy := by
  induction ws generalizing t with
  | nil => rfl
  | cons b ws ih => exact ih (t.add b)

/-- `x` logs the blocks `ws` if there is room for them, and panics in `log_write` if there is not. -/
def Writing {α : Type} (ws : List Nat) (x : FsM α) (s : Store) (Q : α → Store → Prop) : Prop :=
  Ensures x s (fun a s' => Q a s' ∧ Entered ws s s') fun e =>
    (s.log.busy ≠ none → e = .tooBigTransaction) ∧ ¬s.log.Fits ws

namespace Writing

variable {α β : Type} {x : FsM α} {f : α → FsM β} {Q Q' : α → Store → Prop} {R : β → Store → Prop} {w v : List Nat}

lemma mono (h : Writing w x s Q) (hQ : ∀ a s', Q a s' → Q' a s') : Writing w x s Q' :=
  Ensures.mono h (fun a s' ha => ⟨hQ a s' ha.1, ha.2⟩) fun _ he => he

lemma pure {a : α} (h : Q a s) : Writing [] (Pure.pure a) s Q := Ensures.pure ⟨h, trivial, rfl⟩

lemma bind (h : Writing w x s Q) (hf : ∀ a s', Q a s' → Writing v (f a) s' R) :
    Writing (w ++ v) (x >>= f) s R := by
  refine (Ensures.mono h (fun _ _ ha => ha) fun e he =>
    ⟨he.1, fun hfits => he.2 (Trans.fits_append.mp hfits).1⟩).bind ?_
  rintro a s₁ ⟨ha, hfits, hlog⟩
  refine Ensures.mono (hf a s₁ ha) ?_ ?_
  · rintro b s' ⟨hb, hfits', hlog'⟩
    rw [hlog] at hfits' hlog'
    exact ⟨hb, Trans.fits_append.mpr ⟨hfits, hfits'⟩, by rw [hlog', foldl_append]⟩
  · rintro e ⟨he, hno⟩
    rw [hlog] at he hno
    rw [Trans.foldl_add_busy] at he
    exact ⟨he, fun hall => hno (Trans.fits_append.mp hall).2⟩

/-- A last step that does not write. -/
lemma bind_pure {g : α → β} (h : Writing w x s Q) (hg : ∀ a s', Q a s' → R (g a) s') :
    Writing w (x >>= fun a => Pure.pure (g a)) s R := by
  have := h.bind (v := []) fun a s' ha => pure (hg a s' ha)
  rwa [append_nil] at this

lemma of_eq {a : α} (hx : x s = .ok a s) (h : Q a s) : Writing [] x s Q := Ensures.of_eq hx ⟨h, trivial, rfl⟩

end Writing

lemma logWrite_writes (b : Nat) (data : Block) :
    Writing [b] (logWrite b data) s fun _ s' => s'.disk = s.disk.set b data ∧ Touches (· = b) s s' := by
  unfold logWrite
  apply Ensures.get_bind
  refine .ite (fun hfull => .throw ⟨fun _ => rfl, fun hfits => ?_⟩) fun hroom =>
    .ite (fun hidle => .throw ⟨fun hbusy => absurd hidle hbusy, fun hfits => hfits.2.1 hidle⟩) fun hbusy =>
      .set ⟨⟨rfl, rfl, rfl, fun hok => ?_, fun c hc => ?_, fun c hc => Table.get_set_ne _ _ hc⟩,
        ⟨?_, hbusy, trivial⟩, rfl⟩
  · have := hfits.1
    omega
  · dsimp only
    split
    · exact hok
    rename_i hnew
    refine ⟨concat_eq_append ▸ hok.nodup.concat hnew, ?_, fun _ => ?_⟩
    · rw [length_append, length_singleton]
      omega
    · change (s.log.sectors ++ [b]).length < s.log.size
      rw [length_append, length_singleton]
      omega
  · dsimp only at hc
    split at hc
    · exact .inl hc
    · rcases mem_append.mp hc with hc | hc
      · exact .inl hc
      · exact .inr (mem_singleton.mp hc)
  · omega

lemma iupdate_writes (i : Nat) (ip : Dinode) :
    Writing [iblock i] (iupdate i ip) s fun _ s' => s'.disk =
      s.disk.set (iblock i) (ip.store (s.disk (iblock i)) (i % IPB)) ∧ Touches (· = iblock i) s s' := by
  unfold iupdate
  apply bread_bind
  exact logWrite_writes _ _

lemma ballocFrom_writes (hb : FirstFree L s.disk b) (n c : Nat) (hc : c % BPB = 0) (hle : c ≤ b)
    (hn : b < c + n * BPB) :
    Writing [bblock b L.ninodes, b] (ballocFrom L n c) s fun r s' => r = b ∧
      Touches (fun x => x = bblock b L.ninodes ∨ x = b) s s' := by
  induction n generalizing c with
  | zero => omega
  | succ n ih =>
    have hlt := hb.lt
    rw [ballocFrom, if_pos (by omega)]
    apply bread_bind
    -- The bits before that of `b` are set.
    have hbits : ∀ j, j < BPB → c + j ≤ b → (bitAt (s.disk (bblock c L.ninodes)).byteAt j = false ↔ c + j = b) := by
      intro j hj hjb
      obtain ⟨hblk, hmod⟩ := bblock_add hc hj L.ninodes
      have hbit : inUse s.disk L.ninodes (c + j) = bitAt (s.disk (bblock c L.ninodes)).byteAt j := by
        rw [inUse, hblk, hmod]
      rw [← hbit]
      refine ⟨fun hfree => ?_, fun he => he ▸ hb.free⟩
      by_contra hne
      rw [hb.least _ (by omega)] at hfree
      cases hfree
    cases hbit : freeBit (s.disk (bblock c L.ninodes)) c L.size BPB 0 with
    | none =>
      refine ih (c + BPB) (by simp [hc]) (by_contra fun hlt => ?_) (by rw [Nat.succ_mul] at hn; omega)
      have hset := freeBit_none BPB 0 (by omega) hbit (b - c) (by omega) (by omega) (by omega)
      rw [(hbits (b - c) (by omega) (by omega)).mpr (by omega)] at hset
      cases hset
    | some bi =>
      obtain ⟨-, hbi, -, hclear, hbefore⟩ := freeBit_some _ _ _ hbit
      have hfound : c + bi = b := by
        by_cases hle' : c + bi ≤ b
        · exact (hbits bi hbi hle').mp hclear
        · have hset := hbefore (b - c) (by omega) (by omega)
          rw [(hbits (b - c) (by omega) (by omega)).mpr (by omega)] at hset
          cases hset
      obtain ⟨hblk, -⟩ := bblock_add hc hbi L.ninodes
      rw [hfound] at hblk
      dsimp only
      rw [hfound, hblk]
      refine (logWrite_writes _ _).bind (v := [b]) ?_
      rintro _ s₁ ⟨-, h₁⟩
      refine Writing.bind_pure (logWrite_writes b 0) ?_
      rintro _ s₂ ⟨-, h₂⟩
      exact ⟨rfl, (h₁.mono fun x hx => .inl hx).trans (h₂.mono fun x hx => .inr hx)⟩

lemma balloc_writes (h : superblock s.disk = L) (hb : FirstFree L s.disk b) :
    Writing [bblock b L.ninodes, b] balloc s fun r s' => r = b ∧
      Touches (fun x => x = bblock b L.ninodes ∨ x = b) s s' := by
  unfold balloc
  apply Ensures.get_bind
  apply readsb_bind
  rw [h]
  refine (ballocFrom_writes hb _ 0 (by decide) (Nat.zero_le b) ?_).bind (v := []) ?_
  · have := hb.lt
    unfold BPB BSIZE
    omega
  rintro _ s₁ ⟨rfl, h₁⟩
  exact Ensures.of_eq rfl ⟨⟨rfl, h₁.busy, h₁.size, h₁.ok, h₁.sectors, h₁.disk⟩, trivial, rfl⟩

/-! ## Files below the limit -/

/-- The blocks of all files lie in the data area below `lim`. -/
structure Placed (L : Superblock) (lim : Nat) (own : Owners) (d : Disk) : Prop where
  core : Core L own (fun _ _ => False) d
  below : ∀ b x, own b = some x → b < lim
  start : dataStart L ≤ lim
  le : lim ≤ L.size

namespace Placed

lemma bblock_lt (h : Placed L lim own d) {x : Nat} (hx : x < L.size) : bblock x L.ninodes < lim :=
  Nat.lt_of_lt_of_le (bblock_lt_dataStart (lt_bitCount hx)) h.start

lemma freeBelow_congr {d' : Disk} (h : Placed L lim own d) (hd : ∀ b, b < lim → d' b = d b) :
    freeBelow L lim d' = freeBelow L lim d := by
  refine countP_congr fun b hb => ?_
  have := h.le
  have := mem_range.mp hb
  rw [inUse, inUse, hd _ (h.bblock_lt (by omega))]

lemma alloc (h : Placed L lim own t) (hff : FirstFree L t b) (hb : b < lim) (x : Nat × Nat) :
    Placed L lim (Function.update own b (some x)) (Core.allocated t L.ninodes b) := by
  refine ⟨h.core.alloc hff.free (lt_bitCount hff.lt) x, fun c y hc => ?_, h.start, h.le⟩
  by_cases hcb : c = b
  · exact hcb ▸ hb
  · rw [Function.update_of_ne hcb] at hc
    exact h.below c y hc

lemma setBlock (h : Placed L lim own t) {x : Nat × Nat} (hb : own b = some x) (v : Block) :
    Placed L lim own (t.set b v) :=
  ⟨h.core.setOwned (i := x.1) (k := x.2) hb v nofun, h.below, h.start, h.le⟩

lemma setTable (h : Placed L lim own t) (hi : i < L.ninodes) (v : Block) : Placed L lim own (t.set (iblock i) v) :=
  ⟨h.core.setTable hi v, h.below, h.start, h.le⟩

lemma iblock_lt (h : Placed L lim own d) (hi : i < L.ninodes) : iblock i < lim :=
  Nat.lt_of_lt_of_le (iblock_lt_dataStart hi) h.start

lemma congr {d' : Disk} (h : Placed L lim own d) (hd : ∀ b, b < lim → d' b = d b) : Placed L lim own d' := by
  have hone := one_lt_dataStart (L := L)
  have hbits : ∀ c, c < lim → inUse d' L.ninodes c = inUse d L.ninodes c := by
    intro c hc
    rw [inUse, inUse, hd _ (h.bblock_lt (Nat.lt_of_lt_of_le hc h.le))]
  refine ⟨⟨?_, h.core.size_lt, fun b hb => ?_, fun b x hb => ?_, fun _ _ h => h.elim⟩, h.below, h.start, h.le⟩
  · rw [Core.superblock_congr (hd 1 (Nat.lt_of_lt_of_le hone h.start)), h.core.super]
  · rw [hbits b (Nat.lt_of_lt_of_le hb h.start)]
    exact h.core.reserved b hb
  · rw [hbits b (h.below b x hb)]
    exact h.core.area b x hb

end Placed

lemma Placed.exists_free (h : Placed L lim own d) (hroom : 0 < freeBelow L lim d) : ∃ b, FirstFree L d b ∧ b < lim := by
  obtain ⟨c, hc, hclear⟩ := countP_pos_iff.mp hroom
  have hlt := Nat.lt_of_lt_of_le (mem_range.mp hc) h.le
  have hex : ∃ b, inUse d L.ninodes b = false := ⟨c, by simpa using hclear⟩
  have hle : Nat.find hex ≤ c := Nat.find_min' hex (by simpa using hclear)
  have hff : FirstFree L d (Nat.find hex) := by
    refine ⟨?_, by omega, Nat.find_spec hex, fun x hx => by simpa using Nat.find_min hex hx⟩
    by_contra hlow
    have hused := h.core.reserved _ (Nat.not_le.mp hlow)
    rw [Nat.find_spec hex] at hused
    cases hused
  exact ⟨_, hff, hff.lt_of_room hroom⟩

lemma balloc_below (h : Placed L lim own s.disk) (hff : FirstFree L s.disk b) (hb : b < lim) (x : Nat × Nat) :
    Writing [bblock b L.ninodes, b] balloc s fun r s' => r = b ∧ s'.disk = Core.allocated s.disk L.ninodes b ∧
      Placed L lim (Function.update own b (some x)) s'.disk ∧
      freeBelow L lim s.disk ≤ freeBelow L lim s'.disk + 1 ∧ Touches (· < lim) s s' := by
  refine ((balloc_spec h.core).and (balloc_writes h.core.super hff)).mono ?_ fun _ he => he.2
  rintro _ s' ⟨⟨-, hd⟩, ⟨rfl, ht⟩, hl⟩
  have hfree := freeBelow_allocated (t := s.disk) hff.start (h.le.trans size_le_bitCount)
  rw [if_pos hb] at hfree
  refine ⟨⟨rfl, hd, ?_, ?_, ht.mono ?_⟩, hl⟩
  · rw [hd]
    exact h.alloc hff hb x
  · rw [hd]
    exact hfree
  · rintro c (rfl | rfl)
    · exact h.bblock_lt hff.lt
    · exact hb

/-- What a function has done that extends inode `i`, leaves its contents as `l` and leaves the
other files alone. -/
structure Extended (L : Superblock) (lim i : Nat) (l : List UInt8) (own : Owners) (s : Store) (ip : Dinode) (s' : Store)
    (ip' : Dinode) (own' : Owners) (nb : Nat) (ind : Bool) : Prop where
  placed : Placed L lim own' s'.disk
  file : FileAt own' s'.disk i ip' l nb ind
  touches : Touches (· < lim) s s'
  size : ip'.size = ip.size
  type : ip'.type = ip.type
  keeps : ∀ b x, own b = some x → own' b = some x
  others : ∀ b j k, j ≠ i → own b = some (j, k) → s'.disk b = s.disk b
  table : ∀ j, j < L.ninodes → s'.disk (iblock j) = s.disk (iblock j)

namespace Extended

lemma refl (h : Placed L lim own s.disk) (hf : FileAt own s.disk i ip l nb ind) :
    Extended L lim i l own s ip s ip own nb ind :=
  ⟨h, hf, .refl _ _, rfl, rfl, fun _ _ hb => hb, fun _ _ _ _ _ => rfl, fun _ _ => rfl⟩

lemma trans {l₁ l₂ : List UInt8} {own₁ own₂ : Owners} {s₁ s₂ : Store} {ip₁ ip₂ : Dinode} {nb₁ nb₂ : Nat}
    {ind₁ ind₂ : Bool} (h : Extended L lim i l₁ own s ip s₁ ip₁ own₁ nb₁ ind₁)
    (h' : Extended L lim i l₂ own₁ s₁ ip₁ s₂ ip₂ own₂ nb₂ ind₂) : Extended L lim i l₂ own s ip s₂ ip₂ own₂ nb₂ ind₂ :=
  ⟨h'.placed, h'.file, h.touches.trans h'.touches, h'.size.trans h.size, h'.type.trans h.type,
    fun b x hb => h'.keeps b x (h.keeps b x hb),
    fun b j k hj hb => (h'.others b j k hj (h.keeps b _ hb)).trans (h.others b j k hj hb),
    fun j hj => (h'.table j hj).trans (h.table j hj)⟩

lemma setBlock {x : Nat} {v : Block} (h : Placed L lim own s.disk) (hb : own b = some (i, x))
    (hd : s'.disk = s.disk.set b v) (ht : Touches (· = b) s s') (hf : FileAt own s'.disk i ip l nb ind) :
    Extended L lim i l own s ip s' ip own nb ind := by
  refine ⟨?_, hf, ht.mono ?_, rfl, rfl, fun _ _ hc => hc, ?_, ?_⟩
  · rw [hd]
    exact h.setBlock hb v
  · rintro c rfl
    exact h.below _ _ hb
  · intro c j k hj hc
    rw [hd, Table.get_set_ne]
    rintro rfl
    rw [hb] at hc
    exact hj (Prod.mk.inj (Option.some.inj hc)).1.symm
  · intro j hj
    have := (h.core.area b _ hb).1
    have := iblock_lt_dataStart hj
    rw [hd, Table.get_set_ne _ _ (by omega)]

lemma alloc {nb' : Nat} {ind' : Bool} {ip' : Dinode} {x : Nat} (h : Placed L lim own s.disk)
    (hff : FirstFree L s.disk b) (hd : s'.disk = Core.allocated s.disk L.ninodes b)
    (hp : Placed L lim (Function.update own b (some (i, x))) s'.disk) (ht : Touches (· < lim) s s')
    (hf : FileAt (Function.update own b (some (i, x))) s'.disk i ip' l nb' ind') (hsize : ip'.size = ip.size)
    (htype : ip'.type = ip.type) :
    Extended L lim i l own s ip s' ip' (Function.update own b (some (i, x))) nb' ind' := by
  refine ⟨hp, hf, ht, hsize, htype, ?_, ?_, ?_⟩
  · intro c y hc
    rw [Function.update_of_ne, hc]
    rintro rfl
    rw [h.core.free_unowned hff.free] at hc
    cases hc
  · intro c j k _ hc
    rw [hd]
    exact h.core.allocated_owned hff hc
  · intro j hj
    have hlt := iblock_lt_dataStart hj
    have hstart := hff.start
    rw [hd, Core.allocated_other _ (by omega) (iblock_ne_bblock hj b)]

end Extended

/-- The blocks that a file allocates which has `nb` blocks, and an indirect block if `ind`, when it grows to `e`. -/
def newBlocks (nb : Nat) (ind : Bool) (e : Nat) : Nat := e - nb + if ind = false ∧ NDIRECT < e ∧ nb < e then 1 else 0

/-- The blocks that are logged while `k` blocks of a file are written, from block `bn` on: `addr` has the addresses of
its blocks, `ind` is its indirect block and `free` are the free blocks. -/
def blockWrites (ninodes : Nat) (addr : Nat → Nat) : Nat → Nat → Nat → List Nat → List Nat
  | 0, _, _, _ => []
  | k + 1, bn, ind, free =>
    if addr bn ≠ 0 then addr bn :: blockWrites ninodes addr k (bn + 1) ind free
    else if bn < NDIRECT then
      match free with
      | b :: free => [bblock b ninodes, b] ++ b :: blockWrites ninodes addr k (bn + 1) ind free
      | [] => []
    else if ind ≠ 0 then
      match free with
      | b :: free => [bblock b ninodes, b, ind] ++ b :: blockWrites ninodes addr k (bn + 1) ind free
      | [] => []
    else
      -- The first of the two new blocks is the indirect block.
      match free with
      | b :: b' :: free =>
        [bblock b ninodes, b, bblock b' ninodes, b', b] ++ b' :: blockWrites ninodes addr k (bn + 1) b free
      | _ => []

lemma blockWrites_congr {addr addr' : Nat → Nat} {k bn : Nat} (h : ∀ j, bn ≤ j → j < bn + k → addr' j = addr j)
    (n a : Nat) (free : List Nat) : blockWrites n addr' k bn a free = blockWrites n addr k bn a free := by
  induction k generalizing bn a free with
  | zero => rfl
  | succ k ih =>
    have hrest := @ih (bn + 1) fun j hj hj' => h j (by omega) (by omega)
    simp only [blockWrites, h bn le_rfl (by omega), hrest]

/-- Behind its last block a file has no addresses. -/
lemma FileAt.blockWrites_eq {own' : Owners} {d' : Disk} {ip' : Dinode} {l' : List UInt8} {nb' m k : Nat} {ind' : Bool}
    (h : FileAt own d i ip l nb ind) (h' : FileAt own' d' i ip' l' nb' ind') (hm : nb ≤ m) (hm' : nb' ≤ m)
    (hk : m + k ≤ MAXFILE) (n a : Nat) (free : List Nat) :
    blockWrites n (blockOf d ip) k m a free = blockWrites n (blockOf d' ip') k m a free := by
  refine blockWrites_congr (fun j hj hj' => ?_) n a free
  rw [h.no_block (by omega) (by omega), h'.no_block (by omega) (by omega)]

lemma FileAt.allocated (h : FileAt own t i ip l nb ind) (hp : Placed L lim own t) (hff : FirstFree L t b) :
    FileAt own (Core.allocated t L.ninodes b) i ip l nb ind :=
  h.congr (fun _ _ hc => hp.core.allocated_owned hff hc) fun _ _ hc => hc

/-- The size in the inode is not what says which bytes a file has. -/
lemma FileAt.resize (h : FileAt own d i ip l nb ind) (n : UInt32) : FileAt own d i { ip with size := n } l nb ind :=
  ⟨h.fits, h.le, h.blocks, h.indirect, h.far, h.owns, h.bytes⟩

/-- Up to its last block a file has the indirect block that it needs. -/
lemma FileAt.or_far {e : Nat} (h : FileAt own d i ip l nb ind) (he : e ≤ nb) : (ind || decide (NDIRECT < e)) = ind := by
  by_cases hfar : NDIRECT < e
  · rw [h.far (by omega), Bool.true_or]
  · rw [decide_eq_false hfar, Bool.or_false]

lemma Core.allocated_self (t : Table Block) (n b : Nat) : Core.allocated t n b b = 0 := by
  rw [Core.allocated, Table.get_set_self]

lemma bmap_direct (h : Placed L lim own s.disk) (hf : FileAt own s.disk i ip l nb ind) (hnb : nb < NDIRECT)
    (hff : FirstFree L s.disk b) (hb : b < lim) :
    Writing [bblock b L.ninodes, b] (bmap ip nb) s fun r s' => r.1 = b ∧ r.1 = blockOf s'.disk r.2 nb ∧
      r.2.addr NDIRECT = ip.addr NDIRECT ∧ frees L s.disk = b :: frees L s'.disk ∧
      freeBelow L lim s.disk ≤ freeBelow L lim s'.disk + 1 ∧
      ∃ own', Extended L lim i l own s ip s' r.2 own' (nb + 1) ind := by
  unfold bmap
  rw [if_pos hnb, if_pos (hf.addr_zero hnb)]
  refine (balloc_below h hff hb (i, nb)).bind_pure ?_
  rintro _ s' ⟨rfl, hd, hp, hfree, ht⟩
  have hlt := hff.lt_two_pow h.core.size_lt
  have hgrow := (hf.allocated h hff).growDirect hnb (Core.allocated_self _ _ _) (h.core.free_unowned hff.free)
    hff.ne_zero hlt
  rw [← hd] at hgrow
  refine ⟨rfl, ?_, Dinode.addr_setAddr_ne ip nb NDIRECT _ (by omega), by rw [hd, hff.frees], hfree, _,
    .alloc h hff hd hp ht hgrow rfl rfl⟩
  rw [blockOf_direct _ _ hnb, Dinode.addr_setAddr_self ip nb _ (by omega), UInt32.toNat_ofNat_of_lt' hlt]

/-- `bmap` once the indirect block is there. -/
def bmapEntry (ip : Dinode) (bn : Nat) : FsM (Nat × Dinode) := do
  let bp ← bread (ip.addr NDIRECT).toNat
  if wordAt bp (bn - NDIRECT) = 0 then do
    let addr ← balloc
    logWrite (ip.addr NDIRECT).toNat (setWord bp (bn - NDIRECT) (UInt32.ofNat addr))
    return (addr, ip)
  else return ((wordAt bp (bn - NDIRECT)).toNat, ip)

lemma bmap_indirect (ip : Dinode) {bn : Nat} (h : NDIRECT ≤ bn) (hmax : bn < MAXFILE) :
    bmap ip bn = if ip.addr NDIRECT = 0 then
        balloc >>= fun addr => bmapEntry (ip.setAddr NDIRECT (UInt32.ofNat addr)) bn
      else bmapEntry ip bn := by
  have hlt : bn - NDIRECT < NINDIRECT := by
    unfold MAXFILE at hmax
    omega
  unfold bmap
  rw [if_neg (by omega), if_pos hlt]
  split <;> rfl

lemma bmapEntry_writes (h : Placed L lim own s.disk) (hf : FileAt own s.disk i ip l nb true) (hnb : NDIRECT ≤ nb)
    (hmax : nb < MAXFILE) (hff : FirstFree L s.disk b) (hb : b < lim) :
    Writing [bblock b L.ninodes, b, (ip.addr NDIRECT).toNat] (bmapEntry ip nb) s fun r s' =>
      r = (b, ip) ∧ b = blockOf s'.disk ip nb ∧ frees L s.disk = b :: frees L s'.disk ∧
      freeBelow L lim s.disk ≤ freeBelow L lim s'.disk + 1 ∧
      ∃ own', Extended L lim i l own s ip s' ip own' (nb + 1) true := by
  unfold bmapEntry
  apply bread_bind
  rw [if_pos (hf.entry_zero hnb hmax)]
  refine (balloc_below h hff hb (i, place nb)).bind (v := [(ip.addr NDIRECT).toNat]) ?_
  rintro b s₁ ⟨rfl, hd, hp, hfree, ht⟩
  refine Writing.bind_pure (logWrite_writes _ _) ?_
  rintro _ s₂ ⟨hd₂, ht₂⟩
  have hlt := hff.lt_two_pow h.core.size_lt
  have hown := hf.owns_indirect (hf.indirect.mpr rfl)
  have hkeep : s₁.disk (ip.addr NDIRECT).toNat = s.disk (ip.addr NDIRECT).toNat := by
    rw [hd]
    exact h.core.allocated_owned hff hown
  have hnone := h.core.free_unowned hff.free
  have hgrow := (hf.allocated h hff).growEntry hnb hmax (Core.allocated_self _ _ _) hnone hff.ne_zero hlt
  rw [← hd, hkeep, ← hd₂] at hgrow
  have hown' := hgrow.owns_indirect (hgrow.indirect.mpr rfl)
  have hold : FileAt (Function.update own b (some (i, place nb))) s₁.disk i ip l nb true := by
    rw [hd]
    refine (hf.allocated h hff).congr (fun _ _ _ => rfl) fun c y hc => ?_
    rw [Function.update_of_ne, hc]
    rintro rfl
    rw [hnone] at hc
    cases hc
  refine ⟨rfl, ?_, ?_, ?_, _, (Extended.alloc h hff hd hp ht hold rfl rfl).trans (.setBlock hp hown' hd₂ ht₂ hgrow)⟩
  · rw [blockOf_indirect _ _ (hf.indirect.mpr rfl) hnb hmax, hd₂, Table.get_set_self,
      wordAt_setWord_same _ _ _ (by unfold MAXFILE NINDIRECT at hmax; omega), UInt32.toNat_ofNat_of_lt' hlt]
  · rw [hd₂, frees_set (hp.core.area _ _ hown').1, hd, hff.frees]
  · rw [hd₂, freeBelow_set (hp.core.area _ _ hown').1 (hp.le.trans size_le_bitCount)]
    exact hfree

/-- `bmap` for the first block that needs an indirect block, which is allocated before it. -/
lemma bmapEntry_first {b' : Nat} (h : Placed L lim own s.disk) (hf : FileAt own s.disk i ip l nb false)
    (hnb : NDIRECT ≤ nb) (hmax : nb < MAXFILE) (hff : FirstFree L s.disk b) (hb : b < lim)
    (hff' : FirstFree L (Core.allocated s.disk L.ninodes b) b') (hb' : b' < lim) :
    Writing [bblock b L.ninodes, b, bblock b' L.ninodes, b', b]
      (balloc >>= fun addr => bmapEntry (ip.setAddr NDIRECT (UInt32.ofNat addr)) nb) s fun r s' =>
        r.1 = b' ∧ r.1 = blockOf s'.disk r.2 nb ∧ (r.2.addr NDIRECT).toNat = b ∧
        frees L s.disk = b :: b' :: frees L s'.disk ∧ freeBelow L lim s.disk ≤ freeBelow L lim s'.disk + 2 ∧
        ∃ own', Extended L lim i l own s ip s' r.2 own' (nb + 1) true := by
  refine (balloc_below h hff hb (i, NDIRECT)).bind (v := [bblock b' L.ninodes, b', b]) ?_
  rintro b s₁ ⟨rfl, hd, hp, hfree₁, ht₁⟩
  have hlt := hff.lt_two_pow h.core.size_lt
  have hgrow := (hf.allocated h hff).growIndirect (Core.allocated_self _ _ _) (h.core.free_unowned hff.free)
    hff.ne_zero hlt
  have hfrees := hff.frees
  rw [← hd] at hgrow hff' hfrees
  have hself : ((ip.setAddr NDIRECT (UInt32.ofNat b)).addr NDIRECT).toNat = b := by
    rw [Dinode.addr_setAddr_self ip NDIRECT _ le_rfl, UInt32.toNat_ofNat_of_lt' hlt]
  have hentry := bmapEntry_writes hp hgrow hnb hmax hff' hb'
  rw [hself] at hentry
  refine hentry.mono ?_
  rintro _ s' ⟨rfl, haddr, hfrees', hfree, own', hext⟩
  have hnew : Extended L lim i l own s ip s₁ _ _ nb true := .alloc h hff hd hp ht₁ hgrow rfl rfl
  exact ⟨rfl, haddr, hself, by rw [hfrees, hfrees'], by omega, own', hnew.trans hext⟩

/-- `bmap` for a block of the file or the one behind its last. The blocks logged are the first ones of
`blockWrites`, which goes on with the block itself. -/
lemma bmap_extends {bn k : Nat} (h : Placed L lim own s.disk) (hf : FileAt own s.disk i ip l nb ind) (hbn : bn ≤ nb)
    (hmax : bn + 1 + k ≤ MAXFILE) (hroom : newBlocks nb ind (bn + 1) ≤ freeBelow L lim s.disk) :
    ∃ ws ws', blockWrites L.ninodes (blockOf s.disk ip) (k + 1) bn (ip.addr NDIRECT).toNat (frees L s.disk) =
      ws ++ ws' ∧
      Writing ws (bmap ip bn) s fun r s' => r.1 = blockOf s'.disk r.2 bn ∧
        ws' = r.1 :: blockWrites L.ninodes (blockOf s'.disk r.2) k (bn + 1) (r.2.addr NDIRECT).toNat (frees L s'.disk) ∧
        freeBelow L lim s.disk ≤ freeBelow L lim s'.disk + newBlocks nb ind (bn + 1) ∧
        ∃ own', Extended L lim i l own s ip s' r.2 own' (max nb (bn + 1)) (ind || decide (NDIRECT < bn + 1)) := by
  by_cases hlt : bn < nb
  · have hblock := (hf.blocks bn (by omega)).mpr hlt
    refine ⟨[], _, (nil_append _).symm, .of_eq (bmap_backed (by omega) hblock)
      ⟨rfl, if_pos hblock, Nat.le_add_right _ _, own, ?_⟩⟩
    rw [hf.or_far hlt, max_eq_left hlt]
    exact .refl h hf
  obtain rfl : bn = nb := by omega
  have hzero : ¬blockOf s.disk ip bn ≠ 0 := fun hne => hlt ((hf.blocks bn (by omega)).mp hne)
  rw [max_eq_right (Nat.le_succ bn)]
  have hpos : 0 < freeBelow L lim s.disk := by
    unfold newBlocks at hroom
    omega
  obtain ⟨b, hff, hb⟩ := h.exists_free hpos
  by_cases hdir : bn < NDIRECT
  · have hnew : newBlocks bn ind (bn + 1) = 1 := by
      unfold newBlocks
      rw [if_neg (by omega)]
      omega
    have hind : (ind || decide (NDIRECT < bn + 1)) = ind := by rw [decide_eq_false (by omega), Bool.or_false]
    rw [hind, hnew]
    refine ⟨[bblock b L.ninodes, b], _, (if_neg hzero).trans ((if_pos hdir).trans (by rw [hff.frees])),
      (bmap_direct h hf hdir hff hb).mono ?_⟩
    rintro ⟨r, ip'⟩ s' ⟨rfl, haddr, hi, hfrees, hfree, own', hext⟩
    refine ⟨haddr, ?_, hfree, own', hext⟩
    rw [hff.frees, cons.injEq] at hfrees
    dsimp only at hi ⊢
    rw [hi, ← hfrees.2, hf.blockWrites_eq hext.file (Nat.le_succ bn) le_rfl hmax]
  rw [bmap_indirect ip (by omega) (by omega)]
  cases ind with
  | true =>
    have hnew : newBlocks bn true (bn + 1) = 1 := by
      simp [newBlocks]
    have hne := hf.indirect.mpr rfl
    rw [if_neg hne, hnew]
    refine ⟨[bblock b L.ninodes, b, (ip.addr NDIRECT).toNat], _,
      (if_neg hzero).trans ((if_neg hdir).trans ((if_pos ((toNat_ne_zero _).mpr hne)).trans (by rw [hff.frees]))),
      (bmapEntry_writes h hf (by omega) (by omega) hff hb).mono ?_⟩
    rintro _ s' ⟨rfl, haddr, hfrees, hfree, own', hext⟩
    refine ⟨haddr, ?_, hfree, own', hext⟩
    rw [hff.frees, cons.injEq] at hfrees
    rw [← hfrees.2, hf.blockWrites_eq hext.file (Nat.le_succ bn) le_rfl hmax]
  | false =>
    have hnone := hf.no_indirect
    have hnew : newBlocks bn false (bn + 1) = 2 := by
      unfold newBlocks
      rw [if_pos ⟨rfl, by omega, by omega⟩]
      omega
    rw [hnew] at hroom
    have hlim := h.le.trans size_le_bitCount
    have hfree₁ := freeBelow_allocated (t := s.disk) hff.start hlim
    rw [if_pos hb] at hfree₁
    obtain ⟨b', hff', hb'⟩ := (h.alloc hff hb (i, NDIRECT)).exists_free (by omega)
    have hfrees := hff.frees
    rw [hff'.frees] at hfrees
    rw [if_pos hnone, hnew]
    refine ⟨[bblock b L.ninodes, b, bblock b' L.ninodes, b', b], _,
      (if_neg hzero).trans ((if_neg hdir).trans ((if_neg (by rw [hnone]; decide)).trans (by rw [hfrees]))),
      (bmapEntry_first h hf (by omega) (by omega) hff hb hff' hb').mono ?_⟩
    rintro ⟨r, ip'⟩ s' ⟨rfl, haddr, hi, hfrees', hfree, own', hext⟩
    rw [hfrees, cons.injEq, cons.injEq] at hfrees'
    refine ⟨haddr, ?_, hfree, own', by simpa [Nat.lt_succ_of_le (Nat.not_lt.mp hdir)] using hext⟩
    dsimp only at hi ⊢
    rw [hi, ← hfrees'.2.2, hf.blockWrites_eq hext.file (Nat.le_succ bn) le_rfl hmax]

/-! ## Whole writes -/

def blocksOf (off n : Nat) : Nat := if n = 0 then 0 else (off % BSIZE + n + (BSIZE - 1)) / BSIZE

lemma blocksOf_rest (off n : Nat) (hn : n ≠ 0) :
    blocksOf off n = blocksOf (off + min n (BSIZE - off % BSIZE)) (n - min n (BSIZE - off % BSIZE)) + 1 := by
  unfold blocksOf
  rw [if_neg hn]
  unfold BSIZE
  split <;> omega

lemma newBlocks_add (e₁ e₂ : Nat) (hfar : NDIRECT < nb → ind = true) (h : e₁ ≤ e₂) :
    newBlocks nb ind e₁ + newBlocks (max nb e₁) (ind || decide (NDIRECT < e₁)) e₂ = newBlocks nb ind e₂ := by
  unfold newBlocks
  cases ind with
  | true =>
    simp only [Bool.true_or, Bool.true_eq_false, false_and, if_false]
    omega
  | false =>
    have hnb : nb ≤ NDIRECT := by
      by_contra hlt
      cases hfar (Nat.not_le.mp hlt)
    by_cases he : NDIRECT < e₁
    · simp only [he, decide_true, Bool.or_true, true_and, Bool.true_eq_false, false_and, if_false]
      rw [if_pos (by omega), if_pos (by omega)]
      omega
    · simp only [he, decide_false, Bool.or_false, true_and, false_and, if_false]
      split <;> split <;> omega

lemma newBlocks_le {bn : Nat} (h : bn ≤ nb) (ind : Bool) (k : Nat) : newBlocks nb ind (bn + k) ≤ k + 1 := by
  unfold newBlocks
  split <;> omega

lemma newBlocks_max {a : Nat} (h : a ≤ nb) (e : Nat) : newBlocks nb ind (max a e) = newBlocks nb ind e := by
  have hzero : ∀ x, x ≤ nb → newBlocks nb ind x = 0 := by
    intro x hx
    rw [newBlocks, if_neg (by omega)]
    omega
  rcases Nat.le_total a e with hle | hle
  · rw [max_eq_right hle]
  · rw [max_eq_left hle, hzero a h, hzero e (hle.trans h)]

lemma decide_lt_max (n a e : Nat) : decide (n < max a e) = (decide (n < a) || decide (n < e)) := by
  rw [← Bool.decide_or]
  exact decide_eq_decide.mpr lt_max_iff

lemma Extended.nothing {off : Nat} (h : Placed L lim own s.disk) (hf : FileAt own s.disk i ip l nb ind)
    (hbn : off / BSIZE ≤ nb) : Extended L lim i (overwrite l off []) own s ip s ip own (max nb (off / BSIZE))
      (ind || decide (NDIRECT < off / BSIZE)) := by
  rw [hf.or_far hbn, max_eq_left hbn, show overwrite l off [] = l by simp [overwrite]]
  exact .refl h hf

/-- The block at `off` is overwritten: the file has the new bytes, its blocks stay where they are and no block is taken
or freed. -/
lemma Extended.write {s₁ s₂ : Store} {ip₁ : Dinode} {own₁ : Owners} {off : Nat} {q : List UInt8}
    (h : Extended L lim i l own s ip s₁ ip₁ own₁ nb ind) (hoff : off ≤ l.length) (hbn : off / BSIZE < nb)
    (hq : off % BSIZE + q.length ≤ BSIZE) (hd : s₂.disk = s₁.disk.set (blockOf s₁.disk ip₁ (off / BSIZE))
      ((s₁.disk (blockOf s₁.disk ip₁ (off / BSIZE))).splice (off % BSIZE) q))
    (ht : Touches (· = blockOf s₁.disk ip₁ (off / BSIZE)) s₁ s₂) :
    Extended L lim i (overwrite l off q) own s ip s₂ ip₁ own₁ nb ind ∧ blockOf s₂.disk ip₁ = blockOf s₁.disk ip₁ ∧
      frees L s₂.disk = frees L s₁.disk ∧ freeBelow L lim s₂.disk = freeBelow L lim s₁.disk := by
  have hown := h.file.owns_block hbn
  have hstart := (h.placed.core.area _ _ hown).1
  have hwrite := h.file.write hoff hbn hq
  rw [← hd] at hwrite
  refine ⟨h.trans (.setBlock h.placed hown hd ht hwrite), ?_, ?_, ?_⟩
  · funext j
    rw [hd]
    exact h.file.addrAt_write hbn _ _
  · rw [hd, frees_set hstart]
  · rw [hd, freeBelow_set hstart (h.placed.le.trans size_le_bitCount)]

lemma endBlock_le {off n : Nat} (h : off + n ≤ MAXFILE * BSIZE) (hn : n ≠ 0) :
    off / BSIZE + blocksOf off n ≤ MAXFILE := by
  rw [blocksOf, if_neg hn]
  unfold BSIZE at *
  omega

lemma writeLoop_extends (fuel off : Nat) (src : List UInt8) (hfuel : src.length ≤ fuel) (h : Placed L lim own s.disk)
    (hf : FileAt own s.disk i ip l nb ind) (hoff : off ≤ l.length) (hmax : off + src.length ≤ MAXFILE * BSIZE)
    (hroom : newBlocks nb ind (off / BSIZE + blocksOf off src.length) ≤ freeBelow L lim s.disk) :
    Writing (blockWrites L.ninodes (blockOf s.disk ip) (blocksOf off src.length) (off / BSIZE) (ip.addr NDIRECT).toNat
      (frees L s.disk)) (writeLoop fuel ip off src) s fun ip' s' =>
        freeBelow L lim s.disk ≤ freeBelow L lim s'.disk + newBlocks nb ind (off / BSIZE + blocksOf off src.length) ∧
        ∃ own', Extended L lim i (overwrite l off src) own s ip s' ip' own'
          (max nb (off / BSIZE + blocksOf off src.length))
          (ind || decide (NDIRECT < off / BSIZE + blocksOf off src.length)) := by
  induction fuel generalizing s own ip l nb ind off src with
  | zero =>
    obtain rfl : src = [] := eq_nil_of_length_eq_zero (by omega)
    rw [writeLoop]
    exact .pure ⟨Nat.le_add_right _ _, own, .nothing h hf (hf.div_le hoff)⟩
  | succ fuel ih =>
    rw [writeLoop]
    have hbn := hf.div_le hoff
    by_cases hnil : src.length = 0
    · obtain rfl : src = [] := eq_nil_of_length_eq_zero hnil
      rw [if_pos hnil]
      exact .pure ⟨Nat.le_add_right _ _, own, .nothing h hf hbn⟩
    rw [if_neg hnil]
    have hblocks := blocksOf_rest off src.length hnil
    have hend := endBlock_le hmax hnil
    have hm : min src.length (BSIZE - off % BSIZE) ≤ src.length := Nat.min_le_left _ _
    have hm' : min src.length (BSIZE - off % BSIZE) ≤ BSIZE - off % BSIZE := Nat.min_le_right _ _
    have hpos : 0 < min src.length (BSIZE - off % BSIZE) := by
      unfold BSIZE
      omega
    have hnext : blocksOf (off + min src.length (BSIZE - off % BSIZE))
        (src.length - min src.length (BSIZE - off % BSIZE)) = 0 ∨
        (off + min src.length (BSIZE - off % BSIZE)) / BSIZE = off / BSIZE + 1 := by
      unfold blocksOf BSIZE
      split <;> omega
    have hlen : (src.take (min src.length (BSIZE - off % BSIZE))).length = min src.length (BSIZE - off % BSIZE) := by
      rw [length_take]
      omega
    generalize min src.length (BSIZE - off % BSIZE) = m at *
    have hdrop : (src.drop m).length = src.length - m := length_drop
    generalize hk : blocksOf (off + m) (src.length - m) = k at *
    rw [hblocks] at hroom hend ⊢
    have hsum := newBlocks_add (off / BSIZE + 1) (off / BSIZE + (k + 1)) hf.far (by omega)
    obtain ⟨ws, ws', hws, hbmap⟩ := bmap_extends (k := k) h hf hbn (by omega) (by omega)
    rw [hws]
    refine hbmap.bind ?_
    rintro ⟨addr, ip₁⟩ s₁ ⟨haddr, rfl, hfree, own₁, hext⟩
    dsimp only at haddr hext ⊢
    apply bread_bind
    refine (logWrite_writes _ _).bind (w := [addr]) ?_
    rintro _ s₂ ⟨hd₂, ht₂⟩
    subst haddr
    obtain ⟨hset, haddrs, hfrees, hfree₂⟩ := hext.write (q := src.take m) hoff (by omega) (by rw [hlen]; omega) hd₂ ht₂
    have hsame : blockWrites L.ninodes (blockOf s₁.disk ip₁) k (off / BSIZE + 1) (ip₁.addr NDIRECT).toNat
        (frees L s₁.disk) = blockWrites L.ninodes (blockOf s₂.disk ip₁) k ((off + m) / BSIZE) (ip₁.addr NDIRECT).toNat
        (frees L s₂.disk) := by
      rw [haddrs, hfrees]
      rcases hnext with rfl | hnext
      · rfl
      · rw [hnext]
    have hlast : max (off / BSIZE + 1) ((off + m) / BSIZE + k) = off / BSIZE + (k + 1) := by
      rcases hnext with rfl | hnext
      · unfold BSIZE at *
        omega
      · omega
    have hgrown := @newBlocks_max _ (ind || decide (NDIRECT < off / BSIZE + 1)) _
      (Nat.le_max_right nb (off / BSIZE + 1)) ((off + m) / BSIZE + k)
    have hloop := ih (off + m) (src.drop m) (by omega) hset.placed hset.file
      (by rw [length_overwrite _ _ _ hoff, hlen]; omega) (by omega)
    rw [hdrop, hk, ← hgrown, hlast, Nat.max_assoc, hlast, Bool.or_assoc, ← decide_lt_max, hlast] at hloop
    rw [hsame]
    refine (hloop (by omega)).mono ?_
    rintro ip' s' ⟨hfree', own', hdone⟩
    have hall := overwrite_append l (src.take m) (src.drop m) off hoff
    rw [hlen, take_append_drop] at hall
    exact ⟨by omega, own', hall ▸ hset.trans hdone⟩

def bitmapBlocks (L : Superblock) : Finset Nat := (Finset.range (L.size / BPB + 1)).image (· + L.ninodes / IPB + 3)

lemma bblock_mem_bitmapBlocks (hb : b < L.size) : bblock b L.ninodes ∈ bitmapBlocks L := by
  refine Finset.mem_image.mpr ⟨b / BPB, Finset.mem_range.mpr ?_, rfl⟩
  have := Nat.div_le_div_right (c := BPB) hb.le
  omega

/-- Besides the bitmap no more blocks are logged than those that are written and the indirect block. -/
lemma exists_blockWrites_subset (addr : Nat → Nat) (k bn a : Nat) (free : List Nat)
    (hfree : ∀ b ∈ free, b ≠ 0 ∧ b < L.size) :
    ∃ G : Finset Nat, G.card ≤ k + 1 ∧ (a ≠ 0 → a ∈ G) ∧
      ∀ b ∈ blockWrites L.ninodes addr k bn a free, b ∈ bitmapBlocks L ∪ G := by
  have hgrow : ∀ (x : Nat) (G : Finset Nat), bitmapBlocks L ∪ G ⊆ bitmapBlocks L ∪ insert x G := fun x G =>
    Finset.union_subset_union_right (Finset.subset_insert x G)
  have hself : ∀ (x : Nat) (G : Finset Nat), x ∈ bitmapBlocks L ∪ insert x G := fun x G =>
    Finset.mem_union_right _ (Finset.mem_insert_self x G)
  have hmap : ∀ {b} (G : Finset Nat), b < L.size → bblock b L.ninodes ∈ bitmapBlocks L ∪ G := fun G hb =>
    Finset.mem_union_left G (bblock_mem_bitmapBlocks hb)
  -- a round writes the block `x`, after those that `bmap` logs
  have hround : ∀ {x : Nat} {G : Finset Nat} {w rest : List Nat}, (∀ b ∈ w, b ∈ bitmapBlocks L ∪ insert x G) →
      (∀ b ∈ rest, b ∈ bitmapBlocks L ∪ G) → ∀ b ∈ w ++ x :: rest, b ∈ bitmapBlocks L ∪ insert x G :=
    fun hw hrest => forall_mem_append.mpr ⟨hw, forall_mem_cons.mpr ⟨hself _ _, fun b hb => hgrow _ _ (hrest b hb)⟩⟩
  induction k generalizing bn a free with
  | zero => exact ⟨{a}, by simp, by simp, nofun⟩
  | succ k ih =>
    have hcard' : ∀ (x : Nat) (G : Finset Nat), G.card ≤ k + 1 → (insert x G).card ≤ k + 1 + 1 := fun x G hG =>
      (Finset.card_insert_le x G).trans (Nat.succ_le_succ hG)
    unfold blockWrites
    split
    · obtain ⟨G, hcard, ha, hG⟩ := ih (bn + 1) a free hfree
      exact ⟨insert (addr bn) G, hcard' _ _ hcard, fun h => Finset.mem_insert_of_mem (ha h), hround (w := []) nofun hG⟩
    split
    · cases free with
      | nil => exact ⟨{a}, by simp, by simp, nofun⟩
      | cons b free =>
        obtain ⟨hb, hfree⟩ := forall_mem_cons.mp hfree
        obtain ⟨G, hcard, ha, hG⟩ := ih (bn + 1) a free hfree
        refine ⟨insert b G, hcard' _ _ hcard, fun h => Finset.mem_insert_of_mem (ha h), hround ?_ hG⟩
        simp only [forall_mem_cons, not_mem_nil, false_implies, implies_true, and_true]
        exact ⟨hmap _ hb.2, hself _ _⟩
    split
    · rename_i hne
      cases free with
      | nil => exact ⟨{a}, by simp, by simp, nofun⟩
      | cons b free =>
        obtain ⟨hb, hfree⟩ := forall_mem_cons.mp hfree
        obtain ⟨G, hcard, ha, hG⟩ := ih (bn + 1) a free hfree
        refine ⟨insert b G, hcard' _ _ hcard, fun h => Finset.mem_insert_of_mem (ha h), hround ?_ hG⟩
        simp only [forall_mem_cons, not_mem_nil, false_implies, implies_true, and_true]
        exact ⟨hmap _ hb.2, hself _ _, hgrow _ _ (Finset.mem_union_right _ (ha hne))⟩
    · rename_i hzero
      split
      · rename_i b b' free
        obtain ⟨hb, hfree⟩ := forall_mem_cons.mp hfree
        obtain ⟨hb', hfree⟩ := forall_mem_cons.mp hfree
        obtain ⟨G, hcard, ha, hG⟩ := ih (bn + 1) b free hfree
        have hbG := hgrow b' G (Finset.mem_union_right _ (ha hb.1))
        refine ⟨insert b' G, hcard' _ _ hcard, fun h => absurd h hzero, hround ?_ hG⟩
        simp only [forall_mem_cons, not_mem_nil, false_implies, implies_true, and_true]
        exact ⟨hmap _ hb.2, hbG, hmap _ hb'.2, hself _ _, hbG⟩
      · exact ⟨{a}, by simp, by simp, nofun⟩

/-- The blocks that `writei` logs for `n` bytes at `off`, in order. -/
def writeiWrites (L : Superblock) (d : Disk) (i : Nat) (ip : Dinode) (off n : Nat) : List Nat :=
  blockWrites L.ninodes (blockOf d ip) (blocksOf off n) (off / BSIZE) (ip.addr NDIRECT).toNat (frees L d) ++
    if 0 < n ∧ ip.size.toNat < off + n then [iblock i] else []

lemma writei_spec {off : Nat} {src : List UInt8} (hi : i < L.ninodes) (h : Placed L lim own s.disk)
    (hf : FileAt own s.disk i ip l nb ind) (hsize : ip.size.toNat ≤ l.length) (hoff : off ≤ ip.size.toNat)
    (hmax : off + src.length ≤ MAXFILE * BSIZE)
    (hroom : newBlocks nb ind (off / BSIZE + blocksOf off src.length) ≤ freeBelow L lim s.disk) :
    Writing (writeiWrites L s.disk i ip off src.length) (writei i ip off src) s fun r s' => r.1 = some src.length ∧
      r.2.size.toNat = max ip.size.toNat (off + src.length) ∧ r.2.type = ip.type ∧ Touches (· < lim) s s' ∧
      freeBelow L lim s.disk ≤ freeBelow L lim s'.disk + newBlocks nb ind (off / BSIZE + blocksOf off src.length) ∧
      ∃ own', Placed L lim own' s'.disk ∧
        FileAt own' s'.disk i r.2 (overwrite l off src) (max nb (off / BSIZE + blocksOf off src.length))
          (ind || decide (NDIRECT < off / BSIZE + blocksOf off src.length)) ∧
        (∀ b x, own b = some x → own' b = some x) ∧ (∀ b j k, j ≠ i → own b = some (j, k) → s'.disk b = s.disk b) ∧
        ∀ j, j < L.ninodes → j ≠ i → dinode s'.disk j = dinode s.disk j := by
  have hsum : off + src.length < 2 ^ 32 := by
    unfold MAXFILE NINDIRECT NDIRECT BSIZE at hmax
    omega
  unfold writei
  dsimp only
  rw [Nat.mod_eq_of_lt hsum, if_neg (by omega), if_neg (by omega)]
  refine (writeLoop_extends src.length off src le_rfl h hf (hoff.trans hsize) hmax hroom).bind ?_
  rintro ip₁ s₁ ⟨hfree, own₁, hext⟩
  rw [hext.size]
  by_cases hgrew : 0 < src.length ∧ ip.size.toNat < off + src.length
  · rw [if_pos hgrew, if_pos hgrew]
    refine (iupdate_writes _ _).bind_pure ?_
    rintro _ s₂ ⟨hd₂, ht₂⟩
    have hplaced : Placed L lim own₁ s₂.disk := by
      rw [hd₂]
      exact hext.placed.setTable hi _
    have hne : ∀ b x, own₁ b = some x → b ≠ iblock i := by
      intro b x hb
      have hstart := (hext.placed.core.area b _ hb).1
      have hblock := iblock_lt_dataStart hi
      omega
    have hkeep : ∀ b x, own₁ b = some x → s₂.disk b = s₁.disk b := by
      intro b x hb
      rw [hd₂, Table.get_set_ne _ _ (hne b x hb)]
    have hfile := hext.file.congr (fun b k hb => hkeep b _ hb) fun _ _ hb => hb
    refine ⟨rfl, ?_, hext.type, ?_, ?_, own₁, hplaced, hfile.resize _, hext.keeps, ?_, ?_⟩
    · change (UInt32.ofNat (off + src.length)).toNat = _
      rw [UInt32.toNat_ofNat_of_lt' hsum]
      omega
    · refine hext.touches.trans (ht₂.mono ?_)
      rintro c rfl
      exact h.iblock_lt hi
    · rwa [hd₂, freeBelow_table hi]
    · intro b j k hj hb
      rw [hkeep b _ (hext.keeps b _ hb), hext.others b j k hj hb]
    · intro j hj hji
      rw [hd₂, dinode_set_iblock, if_neg hji, dinode, dinode, hext.table j hj]
  · rw [if_neg hgrew, if_neg hgrew]
    refine .pure ⟨rfl, ?_, hext.type, hext.touches, hfree, own₁, hext.placed, hext.file, hext.keeps, hext.others, ?_⟩
    · rw [hext.size]
      omega
    · intro j hj _
      rw [dinode, dinode, hext.table j hj]

end Xv6.Fs
