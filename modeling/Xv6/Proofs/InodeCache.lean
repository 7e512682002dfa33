import Xv6.Icache
import Xv6.Lib.Schedule

/-!
# The invariant of the inode cache

A process keeps what it needs of an entry as long as it has a reference, and all of it but the count
while it has the entry locked.
-/

namespace Xv6.Icache

open Threads Fs List

variable {e e' : Entry} {s s' s'' : State} {p q : Pid} {i ninode : Nat}

/-- The entry's count and flags agree with who refers to it and has it locked, and what it caches is its own inode. -/
structure Entry.Ok (e : Entry) : Prop where
  ref : e.ref = e.refs.length
  one : e.lockers.length ≤ 1
  busy : e.busy = true ↔ e.lockers ≠ []
  locked : ∀ q, q ∈ e.lockers → q ∈ e.refs
  valid : e.valid = true → e.loaded = some (e.dev, e.inum)

/-- What the actions of others leave to process `p`. -/
structure Entry.Env (p : Pid) (e e' : Entry) : Prop where
  refs : e.refs.count p ≤ e'.refs.count p
  lockers : p ∈ e'.lockers ↔ p ∈ e.lockers
  key : p ∈ e.refs → e'.dev = e.dev ∧ e'.inum = e.inum
  held : p ∈ e.lockers → e'.busy = e.busy ∧ e'.valid = e.valid ∧ e'.ino = e.ino ∧ e'.loaded = e.loaded

lemma Entry.Env.refl (p : Pid) (e : Entry) : Entry.Env p e e :=
  ⟨Nat.le_refl _, .rfl, fun _ => ⟨rfl, rfl⟩, fun _ => ⟨rfl, rfl, rfl, rfl⟩⟩

lemma Entry.Env.mem (h : Entry.Env p e e') (hp : p ∈ e.refs) : p ∈ e'.refs :=
  count_pos_iff.mp (Nat.lt_of_lt_of_le (count_pos_iff.mpr hp) h.refs)

lemma Entry.Env.trans {e'' : Entry} (h : Entry.Env p e e') (h' : Entry.Env p e' e'') :
    Entry.Env p e e'' := by
  refine ⟨h.refs.trans h'.refs, h'.lockers.trans h.lockers, fun hp => ?_, fun hp => ?_⟩
  · obtain ⟨h1, h2⟩ := h.key hp
    obtain ⟨h3, h4⟩ := h'.key (h.mem hp)
    exact ⟨h3.trans h1, h4.trans h2⟩
  · obtain ⟨h1, h2, h3, h4⟩ := h.held hp
    obtain ⟨h5, h6, h7, h8⟩ := h'.held (h.lockers.mpr hp)
    exact ⟨h5.trans h1, h6.trans h2, h7.trans h3, h8.trans h4⟩

/-- All entries are in order and no inode has two of them. -/
structure Inv (ninode : Nat) (s : State) : Prop where
  ok : ∀ i, (s.inode i).Ok
  uniq : ∀ i j, 0 < (s.inode i).ref → 0 < (s.inode j).ref → (s.inode i).dev = (s.inode j).dev →
    (s.inode i).inum = (s.inode j).inum → i = j
  out : ∀ i, ninode ≤ i → (s.inode i).ref = 0

def Env (p : Pid) (s s' : State) : Prop := ∀ i, Entry.Env p (s.inode i) (s'.inode i)

/-- Calls may be made in any order, and may panic. -/
def logic (ninode : Nat) : Logic Pid Act State Panic where
  Inv := Inv ninode
  Rely := Env
  Given := fun _ _ _ => True
  Pre := fun _ _ _ => True
  Allowed := fun _ => True
  Idle := fun _ _ => True

abbrev Spec (ninode : Nat) (p : Pid) {α : Type} := wp (α := α) (icache ninode) (logic ninode) p

/-- An action of `p` has kept the invariant and left the others what they need. -/
def Good (ninode : Nat) (p : Pid) (s s' : State) : Prop :=
  Inv ninode s' ∧ ∀ q, q ≠ p → Env q s s'

@[simp] lemma State.set_inode (s : State) (i : Nat) (e : Entry) (j : Nat) :
    (s.set i e).inode j = if j = i then e else s.inode j :=
  Table.get_set s.inode i e j

/-! ## Locked and free entries -/

lemma Entry.Ok.lockers_eq (h : e.Ok) (hp : p ∈ e.lockers) : e.lockers = [p] := by
  have h1 := h.one
  obtain ⟨a, ha⟩ := length_eq_one_iff.mp (Nat.le_antisymm h1 (length_pos_of_mem hp))
  rw [ha] at hp ⊢
  rw [mem_singleton.mp hp]

lemma Entry.Ok.lockers_nil (h : e.Ok) (hb : e.busy = false) : e.lockers = [] := by
  by_contra hne
  rw [h.busy.mpr hne] at hb
  cases hb

lemma Entry.Ok.refs_nil (h : e.Ok) (h0 : e.ref = 0) : e.refs = [] := by
  have := h.ref
  refine length_eq_zero_iff.mp ?_
  omega

lemma Entry.Ok.pos (h : e.Ok) (hp : p ∈ e.refs) : 0 < e.ref := by
  have := h.ref
  have := length_pos_of_mem hp
  omega

lemma good_set (hi : Inv ninode s) (hok : e'.Ok)
    (hkey : 0 < e'.ref → (0 < (s.inode i).ref ∧ e'.dev = (s.inode i).dev ∧ e'.inum = (s.inode i).inum) ∨
      (i < ninode ∧ ∀ j, j ≠ i → 0 < (s.inode j).ref → (s.inode j).dev = e'.dev →
        (s.inode j).inum ≠ e'.inum))
    (henv : ∀ q, q ≠ p → Entry.Env q (s.inode i) e') : Good ninode p s (s.set i e') := by
  have huniq : ∀ j, j ≠ i → 0 < e'.ref → 0 < (s.inode j).ref → (s.inode j).dev = e'.dev →
      (s.inode j).inum ≠ e'.inum := by
    intro j hj hpos hj0 hd hn
    rcases hkey hpos with ⟨h0, h1, h2⟩ | ⟨-, h⟩
    · exact hj (hi.uniq j i hj0 h0 (hd.trans h1) (hn.trans h2))
    · exact h j hj hj0 hd hn
  refine ⟨⟨fun j => ?_, fun j k => ?_, fun j hj => ?_⟩, fun q hq j => ?_⟩
  · rw [State.set_inode]
    split
    · exact hok
    · exact hi.ok j
  · simp only [State.set_inode]
    by_cases hji : j = i <;> by_cases hki : k = i
    · exact fun _ _ _ _ => hji.trans hki.symm
    · simp only [hji, hki, if_true, if_false]
      exact fun h1 h2 h3 h4 => absurd h4.symm (huniq k hki h1 h2 h3.symm)
    · simp only [hji, hki, if_true, if_false]
      exact fun h1 h2 h3 h4 => absurd h4 (huniq j hji h2 h1 h3)
    · simp only [hji, hki, if_false]
      exact hi.uniq j k
  · rw [State.set_inode]
    split
    · rename_i hji
      have hout := hi.out j hj
      have hnn : 0 ≤ e'.ref := by
        have := hok.ref
        omega
      by_contra hne
      rcases hkey (by omega) with ⟨h0, -⟩ | ⟨hlt, -⟩
      · rw [hji] at hout
        omega
      · omega
    · exact hi.out j hj
  · rw [State.set_inode]
    split
    · rename_i hji
      rw [hji]
      exact henv q hq
    · exact .refl q _

lemma good_update (hi : Inv ninode s) (hok : e'.Ok) (hpos : 0 < (s.inode i).ref)
    (hkey : e'.dev = (s.inode i).dev ∧ e'.inum = (s.inode i).inum)
    (henv : ∀ q, q ≠ p → Entry.Env q (s.inode i) e') : Good ninode p s (s.set i e') :=
  good_set hi hok (fun _ => .inl ⟨hpos, hkey⟩) henv

lemma Good.refl (hi : Inv ninode s) : Good ninode p s s := ⟨hi, fun q _ _ => .refl q _⟩

lemma wp_step {a : Act} {S : State → Prop} {U : a.Res → State → Prop}
    (hS : ∀ s s', Env p s s' → S s → S s')
    (h : ∀ s r s', Inv ninode s → S s → exec ninode p a s = .next r s' → Good ninode p s s' ∧ U r s')
    (hs : S s) : Spec ninode p (act a) U s := by
  refine wp_call hs hS fun s hi _ hS => ⟨trivial, .of_next (fun _ _ => trivial) fun r s' he => ?_⟩
  obtain ⟨hgood, hU⟩ := h s r s' hi hS he
  exact ⟨hgood.1, hgood.2, hU⟩

/-! ## References -/

/-- `p` has a reference besides the one that its lock needs. -/
def HasSpare (p : Pid) (i : Nat) (s : State) : Prop := 0 < (s.inode i).spare p

def HasRef (p : Pid) (i : Nat) (s : State) : Prop := p ∈ (s.inode i).refs

def Locked (p : Pid) (i : Nat) (s : State) : Prop := p ∈ (s.inode i).lockers

lemma HasRef.env (h : HasRef p i s) (he : Env p s s') : HasRef p i s' := (he i).mem h

lemma Locked.env (h : Locked p i s) (he : Env p s s') : Locked p i s' := (he i).lockers.mpr h

lemma HasSpare.env (h : HasSpare p i s) (he : Env p s s') : HasSpare p i s' := by
  have h1 := (he i).refs
  have h2 := (he i).lockers
  unfold HasSpare Entry.spare at *
  simp only [h2]
  omega

lemma spare_mem (h : 0 < e.spare p) : p ∈ e.refs := by
  unfold Entry.spare at h
  exact count_pos_iff.mp (by omega)

lemma Entry.Ok.add (h : e.Ok) (p : Pid) : Entry.Ok { e with ref := e.ref + 1, refs := p :: e.refs } := by
  refine ⟨?_, h.one, h.busy, fun q hq => mem_cons_of_mem p (h.locked q hq), h.valid⟩
  simp [h.ref]

lemma Entry.Env.add (e : Entry) (p q : Pid) : Entry.Env q e { e with ref := e.ref + 1, refs := p :: e.refs } :=
  ⟨count_le_count_cons, .rfl, fun _ => ⟨rfl, rfl⟩, fun _ => ⟨rfl, rfl, rfl, rfl⟩⟩

lemma add_good (hi : Inv ninode s) (hpos : 0 < (s.inode i).ref) :
    Good ninode p s (s.set i { s.inode i with
      ref := (s.inode i).ref + 1
      refs := p :: (s.inode i).refs }) :=
  good_update hi ((hi.ok i).add p) hpos ⟨rfl, rfl⟩ fun q _ => .add _ p q

lemma scan_some {t : Table Entry} {dev inum : UInt32} {n i j : Nat} {o o' : Option Nat}
    (h : scan t dev inum n i o = (some j, o')) : 0 < (t j).ref ∧ (t j).dev = dev ∧ (t j).inum = inum := by
  induction n generalizing i o with
  | zero => cases h
  | succ n ih =>
    rw [scan] at h
    split at h
    · rename_i hm
      cases h
      exact hm
    · exact ih h

/-- If it returns none then the inode is in none of the entries it visited, and the empty slot is
one that it started with or has seen. -/
lemma scan_none {t : Table Entry} {dev inum : UInt32} {n i : Nat} {o o' : Option Nat}
    (h : scan t dev inum n i o = (none, o')) :
    (∀ j, i ≤ j → j < i + n → 0 < (t j).ref → (t j).dev = dev → (t j).inum ≠ inum) ∧
      ∀ k, o' = some k → o = some k ∨ (i ≤ k ∧ k < i + n ∧ (t k).ref = 0) := by
  induction n generalizing i o with
  | zero =>
    cases h
    exact ⟨fun j h1 h2 => by omega, fun k hk => .inl hk⟩
  | succ n ih =>
    rw [scan] at h
    split at h
    · cases h
    rename_i hm
    obtain ⟨h1, h2⟩ := ih h
    refine ⟨fun j hij hj => ?_, fun k hk => ?_⟩
    · by_cases hji : j = i
      · subst hji
        exact fun hr hd hn => hm ⟨hr, hd, hn⟩
      · exact h1 j (by omega) (by omega)
    rcases h2 k hk with ho | ⟨ha, hb, hc⟩
    · split at ho
      · rename_i he
        cases ho
        exact .inr ⟨Nat.le_refl _, by omega, he.2⟩
      · exact .inl ho
    · exact .inr ⟨by omega, by omega, hc⟩

lemma wp_iget (dev inum : UInt32) :
    Spec ninode p (iget dev inum) (fun _ _ => True) s := by
  refine wp_step (S := fun _ => True) (fun _ _ _ _ => trivial) (fun s r s' hi _ he => ⟨?_, trivial⟩) trivial
  rw [exec] at he
  split at he
  · rename_i j o hsc
    cases he
    exact add_good hi (scan_some hsc).1
  · rename_i j hsc
    obtain ⟨hnone, hempty⟩ := scan_none hsc
    obtain ⟨-, hlt, h0⟩ := (hempty j rfl).resolve_left nofun
    have hrefs := (hi.ok j).refs_nil h0
    have hlock : (s.inode j).lockers = [] :=
      eq_nil_iff_forall_not_mem.mpr fun q hq => by simpa [hrefs] using (hi.ok j).locked q hq
    cases he
    refine good_set hi ⟨?_, ?_, ?_, ?_, nofun⟩ (fun _ => .inr ⟨by omega, fun k _ hk hd => ?_⟩) fun q hq => ?_
    · simp [hrefs]
    · simp [hlock]
    · simp [hlock]
    · simp [hlock]
    · refine hnone k (Nat.zero_le k) ?_ hk hd
      by_contra hge
      have := hi.out k (by omega)
      omega
    · exact ⟨by simp [hrefs], by simp [hlock], by simp [hrefs], by simp [hlock]⟩
  · cases he

lemma wp_idup (hs : HasRef p i s) :
    Spec ninode p (idup i) (fun _ _ => True) s := by
  refine wp_step (fun _ _ he h => h.env he) (fun s r s' hi hk he => ⟨?_, trivial⟩) hs
  cases he
  exact add_good hi ((hi.ok i).pos hk)

lemma Entry.Ok.drop (h : e.Ok) (hp : 0 < e.spare p) : (e.drop p).Ok := by
  have hmem := spare_mem hp
  refine ⟨?_, h.one, h.busy, fun q hq => ?_, h.valid⟩
  · have := length_erase_of_mem hmem
    have := length_pos_of_mem hmem
    have := h.ref
    simp only [Entry.drop]
    omega
  by_cases hqp : q = p
  · subst hqp
    have hq' : q ∈ e.lockers := hq
    simp only [Entry.spare, if_pos hq'] at hp
    refine count_pos_iff.mp ?_
    show 0 < (e.refs.erase q).count q
    rw [count_erase_self]
    omega
  · exact (mem_erase_of_ne hqp).mpr (h.locked q hq)

lemma Entry.Env.drop (hq : q ≠ p) : Entry.Env q e (e.drop p) := by
  refine ⟨?_, .rfl, fun _ => ⟨rfl, rfl⟩, fun _ => ⟨rfl, rfl, rfl, rfl⟩⟩
  simp only [Entry.drop, count_erase_of_ne hq]
  exact Nat.le_refl _

lemma wp_give (q : Pid) (hs : HasSpare p i s) :
    Spec ninode p (act (.give i q)) (fun _ _ => True) s := by
  refine wp_step (fun _ _ he h => h.env he) (fun s r s' hi hk he => ⟨?_, trivial⟩) hs
  cases he
  have hmem := spare_mem hk
  have hdrop := (hi.ok i).drop hk
  refine good_update hi ⟨?_, hdrop.one, hdrop.busy, fun r hr => mem_cons_of_mem q (hdrop.locked r hr),
    hdrop.valid⟩ ((hi.ok i).pos hmem) ⟨rfl, rfl⟩ fun r hr => ⟨?_, .rfl, fun _ => ⟨rfl, rfl⟩,
      fun _ => ⟨rfl, rfl, rfl, rfl⟩⟩
  · have := length_erase_of_mem hmem
    have := length_pos_of_mem hmem
    have := (hi.ok i).ref
    simp only [length_cons]
    omega
  · exact (Entry.Env.drop hr).refs.trans count_le_count_cons

/-! ## Locks -/

/-- Process `p` has locked the entry and knows its flags and fields, as `e` has them. -/
structure Sees (p : Pid) (i : Nat) (e : Entry) (s : State) : Prop where
  locked : Locked p i s
  key : (s.inode i).dev = e.dev ∧ (s.inode i).inum = e.inum
  flags : (s.inode i).busy = e.busy ∧ (s.inode i).valid = e.valid
  fields : (s.inode i).ino = e.ino ∧ (s.inode i).loaded = e.loaded

lemma Locked.ref (h : Locked p i s) (hi : Inv ninode s) : p ∈ (s.inode i).refs := (hi.ok i).locked p h

lemma Sees.env (h : Sees p i e s ∧ HasRef p i s) (he : Env p s s') :
    Sees p i e s' ∧ HasRef p i s' := by
  obtain ⟨h1, h2⟩ := (he i).key h.2
  obtain ⟨h3, h4, h5, h6⟩ := (he i).held h.1.locked
  exact ⟨⟨h.1.locked.env he, ⟨h1.trans h.1.key.1, h2.trans h.1.key.2⟩,
    ⟨h3.trans h.1.flags.1, h4.trans h.1.flags.2⟩, ⟨h5.trans h.1.fields.1, h6.trans h.1.fields.2⟩⟩, h.2.env he⟩

lemma hold_good {busy valid : Bool} {ino : Dinode} {loaded : Option (UInt32 × UInt32)}
    (hi : Inv ninode s) (hl : Locked p i s) (hb : busy = true)
    (hv : valid = true → loaded = some ((s.inode i).dev, (s.inode i).inum)) :
    Good ninode p s (s.set i { s.inode i with busy, valid, ino, loaded }) := by
  have hok := hi.ok i
  have hlock := hok.lockers_eq hl
  refine good_update hi ⟨hok.ref, hok.one, ?_, hok.locked, hv⟩ (hok.pos (hl.ref hi)) ⟨rfl, rfl⟩ fun q hq => ?_
  · simp [hb, hlock]
  · refine ⟨Nat.le_refl _, .rfl, fun _ => ⟨rfl, rfl⟩, fun h => ?_⟩
    rw [hlock, mem_singleton] at h
    exact absurd h hq

lemma lock_good (hi : Inv ninode s) (hk : HasRef p i s) (hb : ¬(s.inode i).busy = true) :
    Good ninode p s (s.set i { s.inode i with busy := true, lockers := p :: (s.inode i).lockers }) := by
  have hok := hi.ok i
  have hnil := hok.lockers_nil (by simpa using hb)
  refine good_update hi ⟨hok.ref, by simp [hnil], by simp, fun q hq => ?_, hok.valid⟩ (hok.pos hk)
    ⟨rfl, rfl⟩ fun q hq => ?_
  · rw [hnil, mem_singleton] at hq
    exact hq ▸ hk
  · exact ⟨Nat.le_refl _, by simp [hq], fun _ => ⟨rfl, rfl⟩, fun h => by simp [hnil] at h⟩

lemma wp_lock (hs : HasRef p i s) :
    Spec ninode p (act (.lock i)) (fun _ => Locked p i) s := by
  refine wp_step (fun _ _ he h => h.env he) (fun s r s' hi hk he => ?_) hs
  rw [exec] at he
  split at he
  · cases he
  · rename_i hb
    cases he
    exact ⟨lock_good hi hk hb, by simp [Locked]⟩

lemma wp_entry (hs : Locked p i s) :
    Spec ninode p (act (.entry i)) (fun e s => Sees p i e s ∧ HasRef p i s) s := by
  refine wp_step (fun _ _ he h => h.env he) (fun s r s' hi hk he => ?_) hs
  cases he
  exact ⟨.refl hi, ⟨hk, ⟨rfl, rfl⟩, ⟨rfl, rfl⟩, ⟨rfl, rfl⟩⟩, hk.ref hi⟩

lemma wp_entry_again (hs : Sees p i e s ∧ HasRef p i s) :
    Spec ninode p (act (.entry i))
      (fun e' s => (e'.dev = e.dev ∧ e'.inum = e.inum ∧ e'.loaded = e.loaded) ∧
        Sees p i e' s ∧ HasRef p i s) s := by
  refine wp_step (fun _ _ he h => Sees.env h he) (fun s r s' hi hk he => ?_) hs
  cases he
  exact ⟨.refl hi, ⟨hk.1.key.1, hk.1.key.2, hk.1.fields.2⟩,
    ⟨hk.1.locked, ⟨rfl, rfl⟩, ⟨rfl, rfl⟩, ⟨rfl, rfl⟩⟩, hk.2⟩

lemma wp_read {a : Act} {S : State → Prop} (ha : ∀ s r s', exec ninode p a s = .next r s' → s'.inode = s.inode)
    (hS : ∀ s s', Env p s s' → S s → S s') (hs : S s) :
    Spec ninode p (act a) (fun _ => S) s := by
  refine wp_step hS (fun s r s' hi hk he => ?_) hs
  have hsame : ∀ i, s'.inode i = s.inode i := fun i => by rw [ha s r s' he]
  have henv : ∀ q, Env q s s' := fun q i => by
    rw [hsame]
    exact .refl q _
  refine ⟨⟨⟨fun i => ?_, fun i j => ?_, fun i => ?_⟩, fun q _ => henv q⟩, hS s s' (henv p) hk⟩
  · rw [hsame]
    exact hi.ok i
  · rw [hsame, hsame]
    exact hi.uniq i j
  · rw [hsame]
    exact hi.out i

lemma wp_fill (d : Dinode) (hs : Sees p i e s ∧ HasRef p i s) (hv : e.valid = false) :
    Spec ninode p (act (.fill i e.dev e.inum d))
      (fun _ s => Sees p i { e with ino := d, loaded := some (e.dev, e.inum) } s ∧ HasRef p i s) s := by
  refine wp_step (fun _ _ he h => Sees.env h he) (fun s r s' hi hk he => ?_) hs
  cases he
  have hb : (s.inode i).busy = true := (hi.ok i).busy.mpr (ne_nil_of_mem hk.1.locked)
  refine ⟨hold_good hi hk.1.locked hb fun h => ?_, ⟨?_, ?_, ?_, ?_⟩, ?_⟩
  · rw [hk.1.flags.2, hv] at h
    cases h
  · simpa [Locked] using hk.1.locked
  · simpa using hk.1.key
  · simpa using hk.1.flags
  · simp
  · simpa [HasRef] using hk.2

lemma wp_setFlags (hs : Sees p i e s ∧ HasRef p i s) (hl : e.loaded = some (e.dev, e.inum)) :
    Spec ninode p (act (.setFlags i e.busy true)) (fun _ => Locked p i) s := by
  refine wp_step (fun _ _ he h => Sees.env h he) (fun s r s' hi hk he => ?_) hs
  cases he
  have hb : e.busy = true := by
    rw [← hk.1.flags.1]
    exact (hi.ok i).busy.mpr (ne_nil_of_mem hk.1.locked)
  refine ⟨hold_good hi hk.1.locked hb fun _ => ?_, ?_⟩
  · rw [hk.1.fields.2, hl, hk.1.key.1, hk.1.key.2]
  · simpa [Locked] using hk.1.locked

lemma wp_panic (e : Panic) {U : Unit → State → Prop} :
    Spec ninode p (act (.panic e)) U s :=
  wp_step (S := fun _ => True) (fun _ _ _ _ => trivial) (fun _ _ _ _ _ he => (by cases he)) trivial

lemma wp_ilock (hs : HasRef p i s) :
    Spec ninode p (ilock i) (fun _ _ => True) s := by
  refine wp_seq (wp_read (fun s r s' he => (by cases he; rfl)) (fun _ _ he h => HasRef.env h he) hs)
    fun ip s h => ?_
  split
  · exact wp_panic _
  refine wp_seq (wp_lock h) fun _ s h => ?_
  refine wp_seq (wp_entry h) fun ip s h => ?_
  split
  · exact wp_ret trivial
  rename_i hv
  refine wp_seq (wp_read (fun s r s' he => (by cases he; rfl)) (fun _ _ he h => Sees.env h he) h)
    fun d s h => ?_
  refine wp_seq (wp_fill d h (by simpa using hv)) fun _ s h => ?_
  refine wp_seq (wp_entry_again h) fun ip s h => ?_
  obtain ⟨⟨h1, h2, h3⟩, h⟩ := h
  refine wp_seq (wp_setFlags h (by rw [h1, h2, h3])) fun _ s h => ?_
  refine wp_seq (wp_entry h) fun ip s _ => ?_
  split
  · exact wp_panic _
  · exact wp_ret trivial

lemma wp_iunlock (hs : Locked p i s) :
    Spec ninode p (iunlock i) (fun _ _ => True) s := by
  refine wp_seq (wp_entry hs) fun ip s h => ?_
  split
  · exact wp_panic _
  refine wp_step (fun _ _ he h => Locked.env h he) (fun s r s' hi hk he => ⟨?_, trivial⟩) h.1.locked
  cases he
  have hok := hi.ok i
  have hlock := hok.lockers_eq hk
  refine good_update hi ⟨hok.ref, ?_, ?_, ?_, hok.valid⟩ (hok.pos (hk.ref hi)) ⟨rfl, rfl⟩ fun q hq => ?_
  · simp [hlock]
  · simp [hlock]
  · simp [hlock]
  · exact ⟨Nat.le_refl _, by simp [hlock, hq], fun _ => ⟨rfl, rfl⟩, fun h => by simp [hlock, hq] at h⟩

lemma wp_assign (d : Dinode) (hs : Locked p i s) :
    Spec ninode p (act (.assign i d)) (fun _ => Locked p i) s := by
  refine wp_step (fun _ _ he h => Locked.env h he) (fun s r s' hi hk he => ?_) hs
  cases he
  have hb : (s.inode i).busy = true := (hi.ok i).busy.mpr (ne_nil_of_mem hk)
  refine ⟨hold_good hi hk hb (hi.ok i).valid, ?_⟩
  simpa [Locked] using hk

lemma wp_iupdate (hs : Locked p i s) :
    Spec ninode p (iupdate i) (fun _ => Locked p i) s := by
  refine wp_seq (wp_entry hs) fun ip s h => ?_
  exact wp_read (fun s r s' he => (by cases he; rfl)) (fun _ _ he h => Locked.env h he) h.1.locked

lemma wp_itrunc (hs : Locked p i s) :
    Spec ninode p (itrunc i) (fun _ => Locked p i) s := by
  refine wp_seq (wp_entry hs) fun ip s h => ?_
  exact wp_seq (wp_assign _ h.1.locked) fun _ s h => wp_iupdate h

lemma wp_iputTest (hs : HasSpare p i s) :
    Spec ninode p (act (.iputTest i)) (fun r s => r = true → Locked p i s) s := by
  refine wp_step (fun _ _ he h => h.env he) (fun s r s' hi hk he => ?_) hs
  have hok := hi.ok i
  have hmem := spare_mem hk
  rw [exec] at he
  split at he
  · split at he
    · cases he
    · rename_i hb
      cases he
      exact ⟨lock_good hi hmem hb, fun _ => by simp [Locked]⟩
  · cases he
    exact ⟨good_update hi (hok.drop hk) (hok.pos hmem) ⟨rfl, rfl⟩ fun q hq => .drop hq, nofun⟩

lemma wp_iputEnd (hs : Locked p i s) :
    Spec ninode p (act (.iputEnd i)) (fun _ _ => True) s := by
  refine wp_step (fun _ _ he h => Locked.env h he) (fun s r s' hi hk he => ⟨?_, trivial⟩) hs
  cases he
  have hok := hi.ok i
  have hmem := hk.ref hi
  have hlock := hok.lockers_eq hk
  refine good_update hi ⟨?_, ?_, ?_, ?_, nofun⟩ (hok.pos hmem) ⟨rfl, rfl⟩ fun q hq => ?_
  · have := length_erase_of_mem hmem
    have := length_pos_of_mem hmem
    have := hok.ref
    simp only [Entry.drop]
    omega
  · simp [hlock]
  · simp [hlock]
  · simp [hlock]
  · exact ⟨(Entry.Env.drop hq).refs, by simp [hlock, hq], fun _ => ⟨rfl, rfl⟩, fun h => by simp [hlock, hq] at h⟩

lemma wp_iput (hs : HasSpare p i s) :
    Spec ninode p (iput i) (fun _ _ => True) s := by
  refine wp_seq (wp_iputTest hs) fun r s h => ?_
  cases r with
  | false => exact wp_ret trivial
  | true =>
    refine wp_seq (wp_itrunc (h rfl)) fun _ s h => ?_
    refine wp_seq (wp_entry h) fun ip s h => ?_
    refine wp_seq (wp_assign _ h.1.locked) fun _ s h => ?_
    exact wp_seq (wp_iupdate h) fun _ s h => wp_iputEnd h

/-! ## Whole runs -/

lemma wp_own {g : Pid → Entry → Kprog Unit} {U : Unit → State → Prop}
    (h : ∀ e s, (p ∈ e.refs → HasRef p i s) → (p ∈ e.lockers → Locked p i s) →
      (0 < e.spare p → HasSpare p i s) → Spec ninode p (g p e) U s) :
    Spec ninode p (act .self >>= fun q => act (.entry i) >>= fun e => g q e) U s := by
  have hself : Spec ninode p (act .self) (fun q _ => q = p) s :=
    wp_step (S := fun _ => True) (fun _ _ _ _ => trivial)
      (fun s _ _ hi _ he => by cases he; exact ⟨.refl hi, rfl⟩) trivial
  refine wp_seq hself fun q s hq => ?_
  subst hq
  refine wp_bind (wp_step (S := fun _ => True) (fun _ _ _ _ => trivial) (fun s e s' hi _ he => ?_) trivial)
  cases he
  exact ⟨.refl hi, h (s.inode i) s id id id⟩

lemma wp_cacheCall (x : Call) : Spec ninode p x.body (fun _ _ => True) s := by
  cases x with
  | iget dev inum => exact wp_seq (wp_iget dev inum) fun _ _ _ => wp_ret trivial
  | idup i =>
    refine wp_own fun e s hr _ _ => ?_
    split
    · exact wp_idup (hr ‹_›)
    · exact wp_ret trivial
  | ilock i =>
    refine wp_own fun e s hr _ _ => ?_
    split
    · exact wp_ilock (hr ‹_›)
    · exact wp_ret trivial
  | iunlock i =>
    refine wp_own fun e s _ hl _ => ?_
    split
    · exact wp_iunlock (hl ‹_›)
    · exact wp_ret trivial
  | iput i =>
    refine wp_own fun e s _ _ hp => ?_
    split
    · exact wp_iput (hp ‹_›)
    · exact wp_ret trivial
  | modify i f update =>
    refine wp_own fun e s _ hl _ => ?_
    split
    · refine wp_seq (wp_assign _ (hl ‹_›)) fun _ s h => ?_
      split
      · exact wp_mono (wp_iupdate h) fun _ _ _ => trivial
      · exact wp_ret trivial
    · exact wp_ret trivial
  | give i q =>
    refine wp_own fun e s _ _ hp => ?_
    split
    · exact wp_give q (hp ‹_›)
    · exact wp_ret trivial

lemma boot_inv (ninode : Nat) (disk : UInt32 → UInt32 → Dinode) : Inv ninode (boot disk) := by
  have he : ∀ i, (boot disk).inode i = ⟨0, 0, 0, false, false, .zero, [], [], none⟩ := fun _ => rfl
  refine ⟨fun i => ?_, fun i j h => ?_, fun i _ => by rw [he]⟩
  · rw [he]
    exact ⟨rfl, by simp, by simp, nofun, nofun⟩
  · rw [he] at h
    simp at h

lemma key_set {j : Nat} (h : i = j → e.dev = (s.inode j).dev ∧ e.inum = (s.inode j).inum) :
    ((s.set j e).inode i).dev = (s.inode i).dev ∧ ((s.set j e).inode i).inum = (s.inode i).inum := by
  rw [State.set_inode]
  split
  · rename_i hij
    rw [hij]
    exact h hij
  · exact ⟨rfl, rfl⟩

lemma exec_key {a : Act} {r : a.Res} (he : exec ninode p a s = .next r s') (hr : (s.inode i).ref ≠ 0) :
    (s'.inode i).dev = (s.inode i).dev ∧ (s'.inode i).inum = (s.inode i).inum := by
  cases a with
  | iget dev inum =>
    rw [exec] at he
    split at he
    · cases he
      exact key_set fun _ => ⟨rfl, rfl⟩
    · rename_i j hsc
      have hempty := ((scan_none hsc).2 j rfl).resolve_left nofun
      cases he
      refine key_set fun hij => ?_
      rw [hij] at hr
      exact absurd hempty.2.2 hr
    · cases he
  | iputTest j =>
    rw [exec] at he
    split at he
    · split at he
      · cases he
      · cases he
        exact key_set fun _ => ⟨rfl, rfl⟩
    · cases he
      exact key_set fun _ => ⟨rfl, rfl⟩
  | lock j =>
    rw [exec] at he
    split at he
    · cases he
    · cases he
      exact key_set fun _ => ⟨rfl, rfl⟩
  | entry | dinode | self | iupdate =>
    cases he
    exact ⟨rfl, rfl⟩
  | panic => cases he
  | _ =>
    cases he
    exact key_set fun _ => ⟨rfl, rfl⟩

/-- No inode has two entries in use, an entry has as many references as were taken and not dropped and keeps its inode
while there is one, at most one process has it locked, and it is valid only with the fields of its own inode. -/
theorem inode_cache_invariant (ninode : Nat) (disk : UInt32 → UInt32 → Dinode)
    {c : Config Pid Act Act.Res State Panic}
    (hr : Reaches (icache ninode) (fun _ _ _ => True) (.initial (boot disk)) c) :
    (∀ i j, 0 < (c.st.inode i).ref → 0 < (c.st.inode j).ref → (c.st.inode i).dev = (c.st.inode j).dev →
        (c.st.inode i).inum = (c.st.inode j).inum → i = j) ∧
      (∀ i, (c.st.inode i).ref = (c.st.inode i).refs.length) ∧
      (∀ p a r s', exec ninode p a c.st = .next r s' → ∀ i, (c.st.inode i).ref ≠ 0 →
        (s'.inode i).dev = (c.st.inode i).dev ∧ (s'.inode i).inum = (c.st.inode i).inum) ∧
      (∀ i, (c.st.inode i).lockers.length ≤ 1 ∧
        ((c.st.inode i).busy = true ↔ (c.st.inode i).lockers ≠ [])) ∧
      ∀ i, (c.st.inode i).valid = true →
        (c.st.inode i).loaded = some ((c.st.inode i).dev, (c.st.inode i).inum) := by
  have hi : Inv ninode c.st :=
    (Logic.sound (M := icache ninode) (L := logic ninode) (fun p s i => .refl p _)
      (fun _ _ _ _ h h' i => (h i).trans (h' i)) (fun _ _ _ _ h => h) (fun _ x _ _ _ _ => wp_cacheCall x)
      (boot_inv ninode disk) (fun _ => trivial) hr).inv
  exact ⟨hi.uniq, fun i => (hi.ok i).ref, fun p a r s' he i h => exec_key he h,
    fun i => ⟨(hi.ok i).one, (hi.ok i).busy⟩, fun i => (hi.ok i).valid⟩

instance (s : State) (p : Pid) : Decidable ((icache ninode).canCall s p) :=
  inferInstanceAs (Decidable True)

/-- Two processes get the same inode and the first one locks it. -/
def sharedInode : Config Pid Act Act.Res State Panic :=
  Config.play (icache NINODE) (fun _ _ _ => True)
    (.initial (boot fun _ _ => { Dinode.zero with type := T_FILE, nlink := 1 }))
    [.call 0 (.iget 1 7) 1, .call 1 (.iget 1 7) 1, .call 0 (.ilock 0) 10]

theorem shared_inode_cached :
    (sharedInode.st.inode 0).ref = 2 ∧ (sharedInode.st.inode 0).valid = true ∧
      (sharedInode.st.inode 0).loaded =
        some ((sharedInode.st.inode 0).dev, (sharedInode.st.inode 0).inum) :=
  ⟨by decide +kernel, by decide +kernel,
    (inode_cache_invariant NINODE _ (c := sharedInode) (Config.play_reaches _ _)).2.2.2.2 0 (by decide +kernel)⟩

end Xv6.Icache
