import Xv6.FileCalls
import Xv6.Proofs.LogOwner

/-!
# Who refers to inodes and files

`Own` says what a kernel thread has in its hands in the middle of a call; between calls it has
nothing but its current directory and its descriptors. None of this depends on what is on the disk.
-/

namespace Xv6.Fs.Refs

open Threads List Table

variable {s s' s'' : State} {p q : Pid} {i : Nat}

/-- The pointers that keep an inode in the cache for process `p`. -/
def Pins (s : State) (p : Pid) : Holder → Prop
  | .temp q => q = p
  | .cwd q => q = p
  | .file f => ∃ fd, ⟨p, fd⟩ ∈ s.fholders f

structure Inv (s : State) : Prop where
  ref : ∀ i, (s.icache i).ref = (s.holders i).length
  file : ∀ i f, (s.holders i).count (.file f) =
    if (s.ftable f).type = .inode ∧ (s.ftable f).ip = i then 1 else 0
  pin : ∀ i q, (s.icache i).busy = some q → ∃ h ∈ s.holders i, Pins s q h
  fref : ∀ f, (s.ftable f).ref = (s.fholders f).length
  ftype : ∀ f, (s.ftable f).ref = 0 → (s.ftable f).type = .none
  frange : ∀ f, NFILE ≤ f → (s.ftable f).ref = 0
  fdrange : ∀ p fd, NOFILE ≤ fd → (s.procs p).ofile fd = none

/-- What a kernel thread has: pointers to inodes, locks and the inode among them that it has not
read yet, whether the pointer to its current directory is still its own, a file that is not at a
descriptor, a descriptor whose file it has no pointer to, a file that it has just allocated, files
and the inodes that they are open on, and the transaction. -/
structure Own where
  temps : List Nat := []
  locks : List Nat := []
  loading : Option Nat := none
  cwd : Bool := true
  tmp : Option Nat := none
  gone : Option Nat := none
  fresh : Option Nat := none
  files : List (Nat × Nat) := []
  trans : Bool := false

structure Has (p : Pid) (w : Own) (s : State) : Prop where
  run : (s.procs p).state = .runnable
  temps : ∀ i, (s.holders i).count (.temp p) = w.temps.count i
  cwds : ∀ i, (s.holders i).count (.cwd p) = if w.cwd = true ∧ (s.procs p).cwd = i then 1 else 0
  locks : ∀ i, (s.icache i).busy = some p ↔ i ∈ w.locks
  nodup : w.locks.Nodup
  valid : ∀ i ∈ w.locks, w.loading ≠ some i → (s.icache i).valid = true
  tmp : ∀ f, (s.fholders f).count ⟨p, none⟩ = if w.tmp = some f then 1 else 0
  fds : ∀ f fd, (s.fholders f).count ⟨p, some fd⟩ =
    if (s.procs p).ofile fd = some f ∧ w.gone ≠ some fd then 1 else 0
  fresh : ∀ f, w.fresh = some f → (s.ftable f).type = .none ∧ ∃ x, s.fholders f = [⟨p, x⟩]
  files : ∀ f i, (f, i) ∈ w.files →
    (∃ x, ⟨p, x⟩ ∈ s.fholders f) ∧ (s.ftable f).type = .inode ∧ (s.ftable f).ip = i
  trans : s.store.log.busy = some p ↔ w.trans = true

structure Home (p : Pid) (s : State) : Prop where
  temps : ∀ i, (s.holders i).count (.temp p) = 0
  cwds : ∀ i, (s.holders i).count (.cwd p) =
    if (s.procs p).state = .runnable ∧ (s.procs p).cwd = i then 1 else 0
  locks : ∀ i, (s.icache i).busy ≠ some p
  tmp : ∀ f, (s.fholders f).count ⟨p, none⟩ = 0
  fds : ∀ f fd, (s.fholders f).count ⟨p, some fd⟩ = if (s.procs p).ofile fd = some f then 1 else 0
  trans : s.store.log.busy ≠ some p
  off : (s.procs p).state ≠ .runnable → ∀ fd, (s.procs p).ofile fd = none

structure Same (p : Pid) (s s' : State) : Prop where
  proc : s'.procs p = s.procs p
  temps : ∀ i, (s'.holders i).count (.temp p) = (s.holders i).count (.temp p)
  cwds : ∀ i, (s'.holders i).count (.cwd p) = (s.holders i).count (.cwd p)
  busy : ∀ i, (s'.icache i).busy = some p ↔ (s.icache i).busy = some p
  ino : ∀ i, (s.icache i).busy = some p →
    (s'.icache i).valid = (s.icache i).valid ∧ (s'.icache i).ino = (s.icache i).ino
  fds : ∀ f x, (s'.fholders f).count ⟨p, x⟩ = (s.fholders f).count ⟨p, x⟩
  file : ∀ f x, ⟨p, x⟩ ∈ s.fholders f →
    (s'.ftable f).type = (s.ftable f).type ∧ (s'.ftable f).ip = (s.ftable f).ip
  alone : ∀ f x, s.fholders f = [⟨p, x⟩] → s'.fholders f = [⟨p, x⟩]
  trans : s'.store.log.busy = some p ↔ s.store.log.busy = some p

/-- A process that is not in use may also become one that is between calls. -/
def Env (p : Pid) (s s' : State) : Prop :=
  Same p s s' ∨ ((s.procs p).state ≠ .runnable ∧ (Home p s → Home p s'))

lemma Same.refl (p : Pid) (s : State) : Same p s s :=
  ⟨rfl, fun _ => rfl, fun _ => rfl, fun _ => .rfl, fun _ _ => ⟨rfl, rfl⟩, fun _ _ => rfl,
    fun _ _ _ => ⟨rfl, rfl⟩, fun _ _ h => h, .rfl⟩

lemma Same.holds {f : Nat} {x : Option Nat} (h : Same p s s') :
    ⟨p, x⟩ ∈ s'.fholders f ↔ ⟨p, x⟩ ∈ s.fholders f := by
  rw [← count_pos_iff, ← count_pos_iff, h.fds]

lemma Same.trans' (h : Same p s s') (h' : Same p s' s'') : Same p s s'' where
  proc := h'.proc.trans h.proc
  temps i := (h'.temps i).trans (h.temps i)
  cwds i := (h'.cwds i).trans (h.cwds i)
  busy i := (h'.busy i).trans (h.busy i)
  ino i hb := by
    obtain ⟨h1, h2⟩ := h.ino i hb
    obtain ⟨h3, h4⟩ := h'.ino i ((h.busy i).mpr hb)
    exact ⟨h3.trans h1, h4.trans h2⟩
  fds f x := (h'.fds f x).trans (h.fds f x)
  file f x hm := by
    obtain ⟨h1, h2⟩ := h.file f x hm
    obtain ⟨h3, h4⟩ := h'.file f x (h.holds.mpr hm)
    exact ⟨h3.trans h1, h4.trans h2⟩
  alone f x ha := h'.alone f x (h.alone f x ha)
  trans := h'.trans.trans h.trans

lemma Home.same (h : Home p s) (hs : Same p s s') : Home p s' where
  temps i := (hs.temps i).trans (h.temps i)
  cwds i := by rw [hs.cwds, hs.proc, h.cwds]
  locks i hb := h.locks i ((hs.busy i).mp hb)
  tmp f := (hs.fds f none).trans (h.tmp f)
  fds f fd := by rw [hs.fds, hs.proc, h.fds]
  trans ht := h.trans (hs.trans.mp ht)
  off := by
    rw [hs.proc]
    exact h.off

lemma Env.refl (p : Pid) (s : State) : Env p s s := .inl (.refl p s)

lemma Env.trans (h : Env p s s') (h' : Env p s' s'') : Env p s s'' := by
  rcases h with h | ⟨hr, hh⟩
  · rcases h' with h' | ⟨hr', hh'⟩
    · exact .inl (h.trans' h')
    · exact .inr ⟨h.proc ▸ hr', fun hm => hh' (hm.same h)⟩
  refine .inr ⟨hr, fun hm => ?_⟩
  rcases h' with h' | ⟨-, hh'⟩
  · exact (hh hm).same h'
  · exact hh' (hh hm)

lemma Home.env (h : Home p s) (he : Env p s s') : Home p s' := by
  rcases he with he | ⟨-, hh⟩
  · exact h.same he
  · exact hh h

lemma Env.same (he : Env p s s') (hr : (s.procs p).state = .runnable) : Same p s s' :=
  he.resolve_right fun h => h.1 hr

lemma Has.same {w : Own} (h : Has p w s) (hs : Same p s s') : Has p w s' where
  run := by
    rw [hs.proc]
    exact h.run
  temps i := (hs.temps i).trans (h.temps i)
  cwds i := by rw [hs.cwds, hs.proc, h.cwds]
  locks i := (hs.busy i).trans (h.locks i)
  nodup := h.nodup
  valid i hm hl := by
    rw [(hs.ino i ((h.locks i).mpr hm)).1]
    exact h.valid i hm hl
  tmp f := (hs.fds f none).trans (h.tmp f)
  fds f fd := by rw [hs.fds, hs.proc, h.fds]
  fresh f hf := by
    obtain ⟨ht, x, hx⟩ := h.fresh f hf
    have hm : ⟨p, x⟩ ∈ s.fholders f := by simp [hx]
    exact ⟨(hs.file f x hm).1.trans ht, x, hs.alone f x hx⟩
  files f i hm := by
    obtain ⟨⟨x, hx⟩, ht, hip⟩ := h.files f i hm
    obtain ⟨h1, h2⟩ := hs.file f x hx
    exact ⟨⟨x, hs.holds.mpr hx⟩, h1.trans ht, h2.trans hip⟩
  trans := hs.trans.trans h.trans

lemma Has.env {w : Own} (h : Has p w s) (he : Env p s s') : Has p w s' := h.same (he.same h.run)

lemma Home.has (h : Home p s) (hr : (s.procs p).state = .runnable) : Has p {} s where
  run := hr
  temps i := h.temps i
  cwds i := by
    rw [h.cwds]
    simp [hr]
  locks i := by simp [h.locks i]
  nodup := nodup_nil
  valid := nofun
  tmp f := by simp [h.tmp f]
  fds f fd := by
    rw [h.fds]
    simp
  fresh := nofun
  files := nofun
  trans := by simp [h.trans]

lemma Has.home (h : Has p {} s) : Home p s where
  temps i := h.temps i
  cwds i := by
    rw [h.cwds]
    simp [h.run]
  locks i hb := by simpa using (h.locks i).mp hb
  tmp f := by simp [h.tmp f]
  fds f fd := by
    rw [h.fds]
    simp
  trans ht := by simpa using h.trans.mp ht
  off hr := absurd h.run hr

/-- What an action on an inode needs: the process has it locked, with its fields read. -/
def Locked (p : Pid) (i : Nat) (s : State) : Prop :=
  (s.icache i).busy = some p ∧ (s.icache i).valid = true

def Good (p : Pid) (s s' : State) : Prop := Inv s' ∧ ∀ q, q ≠ p → Env q s s'

lemma Good.refl (hi : Inv s) : Good p s s := ⟨hi, fun q _ => .refl q s⟩

/-! ## Changes of one inode -/

structure Touches (i : Nat) (s s' : State) : Prop where
  icache : ∀ j, j ≠ i → s'.icache j = s.icache j
  holders : ∀ j, j ≠ i → s'.holders j = s.holders j
  ftable : s'.ftable = s.ftable
  fholders : s'.fholders = s.fholders
  procs : s'.procs = s.procs

structure Respects (p : Pid) (i : Nat) (s s' : State) : Prop where
  ref : (s'.icache i).ref = (s'.holders i).length
  file : ∀ f, (s'.holders i).count (.file f) = (s.holders i).count (.file f)
  temps : ∀ q, q ≠ p → (s'.holders i).count (.temp q) = (s.holders i).count (.temp q)
  cwds : ∀ q, q ≠ p → (s'.holders i).count (.cwd q) = (s.holders i).count (.cwd q)
  busy : ∀ q, q ≠ p → ((s'.icache i).busy = some q ↔ (s.icache i).busy = some q)
  ino : ∀ q, q ≠ p → (s.icache i).busy = some q →
    (s'.icache i).valid = (s.icache i).valid ∧ (s'.icache i).ino = (s.icache i).ino
  pin : (s'.icache i).busy = some p → ∃ h ∈ s'.holders i, Pins s p h
  trans : ∀ q, q ≠ p → (s'.store.log.busy = some q ↔ s.store.log.busy = some q)

lemma Respects.keeps (h : Respects p i s s') (hq : q ≠ p) {x : Holder} (hx : x ∈ s.holders i)
    (hp : Pins s q x) : x ∈ s'.holders i := by
  rw [← count_pos_iff] at hx ⊢
  cases x with
  | temp r =>
    obtain rfl : r = q := hp
    rw [h.temps r hq]
    exact hx
  | cwd r =>
    obtain rfl : r = q := hp
    rw [h.cwds r hq]
    exact hx
  | file f =>
    rw [h.file f]
    exact hx

lemma good_touch (hi : Inv s) (ht : Touches i s s') (h : Respects p i s s') : Good p s s' := by
  have hpins : ∀ q x, Pins s' q x ↔ Pins s q x := fun q x => by
    cases x with
    | temp r => exact .rfl
    | cwd r => exact .rfl
    | file f =>
      show (∃ fd, _ ∈ s'.fholders f) ↔ ∃ fd, _ ∈ s.fholders f
      rw [ht.fholders]
  refine ⟨⟨fun j => ?_, fun j f => ?_, fun j q hb => ?_, ?_, ?_, ?_, ?_⟩, fun q hq => .inl ?_⟩
  · by_cases hj : j = i
    · rw [hj]
      exact h.ref
    · rw [ht.icache j hj, ht.holders j hj]
      exact hi.ref j
  · rw [ht.ftable]
    by_cases hj : j = i
    · rw [hj, h.file]
      exact hi.file i f
    · rw [ht.holders j hj]
      exact hi.file j f
  · simp only [hpins]
    by_cases hj : j = i
    · rw [hj] at hb ⊢
      by_cases hq : q = p
      · rw [hq] at hb ⊢
        exact h.pin hb
      · obtain ⟨x, hx, hxp⟩ := hi.pin i q ((h.busy q hq).mp hb)
        exact ⟨x, h.keeps hq hx hxp, hxp⟩
    · rw [ht.icache j hj] at hb
      rw [ht.holders j hj]
      exact hi.pin j q hb
  · rw [ht.ftable, ht.fholders]
    exact hi.fref
  · rw [ht.ftable]
    exact hi.ftype
  · rw [ht.ftable]
    exact hi.frange
  · rw [ht.procs]
    exact hi.fdrange
  · refine ⟨by rw [ht.procs], fun j => ?_, fun j => ?_, fun j => ?_, fun j hb => ?_, fun f x => by rw [ht.fholders],
      fun f x _ => by rw [ht.ftable]; exact ⟨rfl, rfl⟩, fun f x ha => by rw [ht.fholders]; exact ha, h.trans q hq⟩
    · by_cases hj : j = i
      · rw [hj, h.temps q hq]
      · rw [ht.holders j hj]
    · by_cases hj : j = i
      · rw [hj, h.cwds q hq]
      · rw [ht.holders j hj]
    · by_cases hj : j = i
      · rw [hj]
        exact h.busy q hq
      · rw [ht.icache j hj]
    · by_cases hj : j = i
      · rw [hj] at hb ⊢
        exact h.ino q hq hb
      · rw [ht.icache j hj]
        exact ⟨rfl, rfl⟩

lemma Has.touch {w : Own} {temps locks : List Nat} {loading : Option Nat} {cwd trans : Bool} (h : Has p w s)
    (ht : Touches i s s')
    (htemp : ∀ j, (j = i → (s'.holders i).count (.temp p) = temps.count i) ∧
      (j ≠ i → temps.count j = w.temps.count j))
    (hlock : ∀ j, (j = i → ((s'.icache i).busy = some p ↔ i ∈ locks)) ∧ (j ≠ i → (j ∈ locks ↔ j ∈ w.locks)))
    (hnodup : locks.Nodup)
    (hvalid : ∀ j ∈ locks, loading ≠ some j → (j = i → (s'.icache i).valid = true) ∧ (j ≠ i → w.loading ≠ some j))
    (hcwd : ∀ j, (j = i → (s'.holders i).count (.cwd p) = if cwd = true ∧ (s.procs p).cwd = i then 1 else 0) ∧
      (j ≠ i → (cwd = true ∧ (s.procs p).cwd = j ↔ w.cwd = true ∧ (s.procs p).cwd = j)))
    (htrans : s'.store.log.busy = some p ↔ trans = true) :
    Has p { w with temps, locks, loading, cwd, trans } s' := by
  refine ⟨by rw [ht.procs]; exact h.run, fun j => ?_, fun j => ?_, fun j => ?_, hnodup, fun j hj hl => ?_,
    fun f => ?_, fun f fd => ?_, ?_, ?_, htrans⟩
  · by_cases hj : j = i
    · rw [hj]
      exact (htemp j).1 hj
    · rw [ht.holders j hj, h.temps, (htemp j).2 hj]
  · rw [ht.procs]
    by_cases hj : j = i
    · rw [hj]
      exact (hcwd j).1 hj
    · rw [ht.holders j hj, h.cwds]
      simp only [(hcwd j).2 hj]
  · by_cases hj : j = i
    · rw [hj]
      exact (hlock j).1 hj
    · rw [ht.icache j hj, h.locks, (hlock j).2 hj]
  · by_cases hji : j = i
    · rw [hji]
      exact (hvalid j hj hl).1 hji
    · rw [ht.icache j hji]
      exact h.valid j (((hlock j).2 hji).mp hj) ((hvalid j hj hl).2 hji)
  · rw [ht.fholders]
    exact h.tmp f
  · rw [ht.fholders, ht.procs]
    exact h.fds f fd
  · rw [ht.fholders, ht.ftable]
    exact h.fresh
  · rw [ht.fholders, ht.ftable]
    exact h.files

/-! ## The logic -/

/-- An inode is freed inside the transaction of the process that frees it. -/
def freesInTrans (p : Pid) (a : Act) (s : State) : Prop :=
  match a with
  | .iputBegin i _ => (s.icache i).lastUnlinked = true → s.store.log.busy = some p
  | _ => True

/-- What a process has when it does an action. -/
def Needs (strict : Bool) (p : Pid) (a : Act) (s : State) : Prop :=
  match a with
  | .iunlock i | .inode i | .readi i _ _ | .dirlookup i _ | .emptyDirent i | .isdirempty i =>
    Locked p i s
  | .itrunc i | .edit i .free => Locked p i s ∧ (strict = true → s.store.log.busy = some p)
  | .edit i _ | .writei i _ _ => Locked p i s ∧ s.store.log.busy = some p
  | .iallocTry _ _ | .commitTrans => s.store.log.busy = some p
  | _ => True

def logic (strict : Bool) : Logic Pid Act State Panic where
  Inv := Inv
  Rely := Env
  Given := fun p a s => strict = true → freesInTrans p a s
  Pre := Needs strict
  Allowed := fun _ => True
  Idle := Home

abbrev Spec (strict : Bool) (p : Pid) {α : Type} := wp (α := α) kernel (logic strict) p

variable {strict : Bool} {w : Own}

lemma wp_step {a : Act} {S : State → Prop} {U : a.Res → State → Prop}
    (hS : ∀ s s', Env p s s' → S s → S s') (hpre : ∀ s, S s → Needs strict p a s)
    (h : ∀ s r s', Inv s → (strict = true → freesInTrans p a s) → S s → exec p a s = .next r s' →
      Good p s s' ∧ U r s')
    (hs : S s) : Spec strict p (act a) U s := by
  refine wp_call hs hS fun s hi hg hS => ⟨hpre s hS, .of_next (fun _ _ => trivial) fun r s' he => ?_⟩
  obtain ⟨hgood, hU⟩ := h s r s' hi hg hS he
  exact ⟨hgood.1, hgood.2, hU⟩

/-- An action of a process that knows `K` of its own slot. -/
lemma wp_slot {a : Act} {U : a.Res → State → Prop} {K : Proc → Prop} (hpre : ∀ s, Needs strict p a s)
    (h : ∀ s r s', Inv s → Has p w s → K (s.procs p) → exec p a s = .next r s' → Good p s s' ∧ U r s')
    (hs : Has p w s) (hK : K (s.procs p)) : Spec strict p (act a) U s :=
  wp_step (S := fun s => Has p w s ∧ K (s.procs p)) (fun _ _ he h => ⟨h.1.env he, (he.same h.1.run).proc ▸ h.2⟩)
    (fun s _ => hpre s) (fun s r s' hi _ hk => h s r s' hi hk.1 hk.2) ⟨hs, hK⟩

lemma Has.locked (h : Has p w s) (hi : i ∈ w.locks) (hload : w.loading = none) : Locked p i s :=
  ⟨(h.locks i).mpr hi, h.valid i hi (by simp [hload])⟩

lemma Has.temp_mem (h : Has p w s) (hi : i ∈ w.temps) : .temp p ∈ s.holders i := by
  rw [← count_pos_iff, h.temps]
  exact count_pos_iff.mpr hi

/-! ## Operations on blocks -/

structure Works (i : Nat) (s s' : State) : Prop where
  touches : Touches i s s'
  ref : (s'.icache i).ref = (s.icache i).ref
  busy : (s'.icache i).busy = (s.icache i).busy
  valid : (s'.icache i).valid = (s.icache i).valid
  holders : s'.holders i = s.holders i
  trans : s'.store.log.busy = s.store.log.busy

lemma Works.good (h : Works i s s') (hi : Inv s) (hb : (s.icache i).busy = some p) : Good p s s' := by
  refine good_touch hi h.touches ⟨?_, fun f => ?_, fun q _ => ?_, fun q _ => ?_, fun q _ => ?_, fun q hq hqb => ?_,
    fun _ => ?_, fun q _ => by rw [h.trans]⟩
  · rw [h.ref, h.holders]
    exact hi.ref i
  · rw [h.holders]
  · rw [h.holders]
  · rw [h.holders]
  · rw [h.busy]
  · rw [hb] at hqb
    exact absurd (Option.some.inj hqb).symm hq
  · rw [h.holders]
    exact hi.pin i p hb

lemma Works.has (h : Works i s s') (hs : Has p w s) : Has p w s' := by
  refine hs.touch h.touches (fun j => ⟨fun _ => ?_, fun _ => rfl⟩) (fun j => ⟨fun _ => ?_, fun _ => .rfl⟩) hs.nodup
    (fun j hj hl => ⟨fun hji => ?_, fun _ => hl⟩) (fun j => ⟨fun _ => ?_, fun _ => .rfl⟩) ?_
  · rw [h.holders]
    exact hs.temps i
  · rw [h.busy]
    exact hs.locks i
  · rw [h.valid]
    subst hji
    exact hs.valid j hj hl
  · rw [h.holders]
    exact hs.cwds i
  · rw [h.trans]
    exact hs.trans

lemma onInode_works {α : Type} {m : Dinode → FsM (α × Dinode)} (hm : ∀ ip, Logs (m ip)) {r : α}
    (he : onInode p i m s = .next r s') : Works i s s' := by
  unfold onInode at he
  split at he
  · rename_i a ip st hst
    have hlog := ((hm _ _).of_ok _ _ hst).busy
    cases he
    refine ⟨⟨fun j hj => ?_, fun _ _ => rfl, rfl, rfl, rfl⟩, ?_, ?_, ?_, rfl, hlog⟩
    · exact get_set_ne _ _ hj
    all_goals simp [setIno]
  · cases he

lemma wp_work {a : Act} (hl : i ∈ w.locks) (hpre : ∀ s, Has p w s → Needs strict p a s)
    (ha : ∀ s r s', exec p a s = .next r s' → Works i s s') (hs : Has p w s) :
    Spec strict p (act a) (fun _ => Has p w) s := by
  refine wp_step (fun _ _ he h => h.env he) hpre (fun s r s' hi _ hk he => ?_) hs
  exact ⟨(ha s r s' he).good hi ((hk.locks i).mpr hl), (ha s r s' he).has hk⟩

/-! ## Pointers to inodes -/

lemma Inv.unlocked (hi : Inv s) (h : (s.icache i).ref = 0) : (s.icache i).busy = none := by
  cases hb : (s.icache i).busy with
  | none => rfl
  | some q =>
    obtain ⟨x, hx, -⟩ := hi.pin i q hb
    have := hi.ref i
    have := length_pos_of_mem hx
    omega

structure Adds (h : Holder) (i : Nat) (s s' : State) : Prop where
  touches : Touches i s s'
  holders : s'.holders i = h :: s.holders i
  ref : (s'.icache i).ref = (s.icache i).ref + 1
  busy : (s'.icache i).busy = (s.icache i).busy
  ino : (s.icache i).busy ≠ none →
    (s'.icache i).valid = (s.icache i).valid ∧ (s'.icache i).ino = (s.icache i).ino
  trans : s'.store.log.busy = s.store.log.busy

lemma Adds.good {h : Holder} (ha : Adds h i s s') (hi : Inv s) (hh : h = .temp p) : Good p s s' := by
  refine good_touch hi ha.touches ⟨?_, fun f => ?_, fun q hq => ?_, fun q hq => ?_, fun q _ => by rw [ha.busy],
    fun q _ hb => ha.ino (by simp [hb]), fun hb => ?_, fun q _ => by rw [ha.trans]⟩
  · rw [ha.ref, ha.holders, length_cons, hi.ref i]
  · simp [ha.holders, hh]
  · simp [ha.holders, hh, Ne.symm hq]
  · simp [ha.holders, hh]
  · rw [ha.holders, hh]
    exact ⟨.temp p, mem_cons_self, rfl⟩

lemma Adds.has {h : Holder} (ha : Adds h i s s') (hs : Has p w s) (hh : h = .temp p) :
    Has p { w with temps := i :: w.temps } s' := by
  refine hs.touch ha.touches (fun j => ⟨fun _ => ?_, fun hj => ?_⟩) (fun j => ⟨fun _ => ?_, fun _ => .rfl⟩) hs.nodup
    (fun j hj hl => ⟨fun hji => ?_, fun _ => hl⟩) (fun j => ⟨fun _ => ?_, fun _ => .rfl⟩) ?_
  · simp [ha.holders, hh, hs.temps]
  · simp [Ne.symm hj]
  · rw [ha.busy]
    exact hs.locks i
  · subst hji
    have hb := (hs.locks j).mpr hj
    rw [(ha.ino (by simp [hb])).1]
    exact hs.valid j hj hl
  · simp [ha.holders, hh, hs.cwds]
  · rw [ha.trans]
    exact hs.trans

lemma iget_adds (hi : Inv s) (p : Pid) (i : Nat) : Adds (.temp p) i s (iget p i s) := by
  have hc : (iget p i s).icache i = if 0 < (s.icache i).ref then { s.icache i with ref := (s.icache i).ref + 1 }
      else { s.icache i with ref := 1, busy := none, valid := false } := get_set_self _ _ _
  refine ⟨⟨fun j hj => get_set_ne _ _ hj, fun j hj => get_set_ne _ _ hj, rfl, rfl, rfl⟩,
    get_set_self _ _ _, ?_, ?_, fun hb => ?_, rfl⟩
  · rw [hc]
    split
    · rfl
    · show 1 = (s.icache i).ref + 1
      omega
  · rw [hc]
    split
    · rfl
    · exact (hi.unlocked (by omega)).symm
  · rw [hc]
    split
    · exact ⟨rfl, rfl⟩
    · exact absurd (hi.unlocked (by omega)) hb

lemma idup_adds (h : Holder) (i : Nat) (s : State) : Adds h i s (idup h i s) := by
  have hc : (idup h i s).icache i = { s.icache i with ref := (s.icache i).ref + 1 } := get_set_self _ _ _
  refine ⟨⟨fun j hj => get_set_ne _ _ hj, fun j hj => get_set_ne _ _ hj, rfl, rfl, rfl⟩,
    get_set_self _ _ _, ?_, ?_, fun _ => ?_, rfl⟩ <;> rw [hc]
  exact ⟨rfl, rfl⟩

lemma wp_iget (i : Nat) (hs : Has p w s) :
    Spec strict p (act (.iget i)) (fun _ => Has p { w with temps := i :: w.temps }) s := by
  refine wp_step (fun _ _ he h => h.env he) (fun _ _ => trivial) (fun s r s' hi _ hk he => ?_) hs
  change (if s.full i then Outcome.stop Panic.igetNoInodes else .next () (iget p i s)) = .next r s' at he
  split at he
  · cases he
  · cases he
    exact ⟨(iget_adds hi p i).good hi rfl, (iget_adds hi p i).has hk rfl⟩

lemma wp_idup (i : Nat) (hs : Has p w s) :
    Spec strict p (act (.idup i)) (fun _ => Has p { w with temps := i :: w.temps }) s := by
  refine wp_step (fun _ _ he h => h.env he) (fun _ _ => trivial) (fun s r s' hi _ hk he => ?_) hs
  cases he
  exact ⟨(idup_adds _ i s).good hi rfl, (idup_adds _ i s).has hk rfl⟩

/-- One pointer less to inode `i`, which may also be unlocked. -/
structure Removes (h : Holder) (i : Nat) (s s' : State) : Prop where
  touches : Touches i s s'
  mem : h ∈ s.holders i
  holders : s'.holders i = (s.holders i).erase h
  ref : (s'.icache i).ref = (s.icache i).ref - 1
  trans : s'.store.log.busy = s.store.log.busy

lemma Removes.good {r : Ref} (hr : Removes (r.holder p) i s s') (hi : Inv s)
    (hbusy : ∀ q, q ≠ p → ((s'.icache i).busy = some q ↔ (s.icache i).busy = some q))
    (hino : ∀ q, q ≠ p → (s.icache i).busy = some q →
      (s'.icache i).valid = (s.icache i).valid ∧ (s'.icache i).ino = (s.icache i).ino)
    (hpin : (s'.icache i).busy = some p → ∃ x ∈ s'.holders i, Pins s p x) : Good p s s' := by
  have hne : ∀ x, x ≠ r.holder p → (s'.holders i).count x = (s.holders i).count x := fun x hx => by
    rw [hr.holders, count_erase_of_ne hx]
  refine good_touch hi hr.touches ⟨?_, fun f => hne _ ?_, fun q hq => hne _ ?_, fun q hq => hne _ ?_, hbusy, hino, hpin,
    fun q _ => by rw [hr.trans]⟩
  · rw [hr.ref, hr.holders, length_erase_of_mem hr.mem, hi.ref i]
  · cases r <;> exact nofun
  · cases r with
    | temp => exact fun h => hq (Holder.temp.inj h)
    | cwd => exact nofun
  · cases r with
    | temp => exact nofun
    | cwd => exact fun h => hq (Holder.cwd.inj h)

def Own.drop (w : Own) (i : Nat) : Ref → Own
  | .temp => { w with temps := w.temps.erase i }
  | .cwd => { w with cwd := false }

def HasRef (p : Pid) (w : Own) (i : Nat) (s : State) : Ref → Prop
  | .temp => i ∈ w.temps
  | .cwd => w.cwd = true ∧ (s.procs p).cwd = i

lemma HasRef.env {r : Ref} (h : HasRef p w i s r) (hs : s'.procs p = s.procs p) : HasRef p w i s' r := by
  cases r with
  | temp => exact h
  | cwd => exact ⟨h.1, hs ▸ h.2⟩

lemma HasRef.mem {r : Ref} (h : HasRef p w i s r) (hs : Has p w s) : r.holder p ∈ s.holders i := by
  cases r with
  | temp => exact hs.temp_mem h
  | cwd =>
    have hc := hs.cwds i
    rw [if_pos ⟨h.1, h.2⟩] at hc
    exact count_pos_iff.mp (by rw [Ref.holder, hc]; exact Nat.one_pos)

lemma Removes.has {r : Ref} {locks : List Nat} (hr : Removes (r.holder p) i s s') (hs : Has p w s)
    (href : HasRef p w i s r)
    (hlock : ∀ j, (j = i → ((s'.icache i).busy = some p ↔ i ∈ locks)) ∧ (j ≠ i → (j ∈ locks ↔ j ∈ w.locks)))
    (hnodup : locks.Nodup) (hvalid : i ∈ locks → w.loading ≠ some i → (s'.icache i).valid = true) :
    Has p { w.drop i r with locks } s' := by
  cases r with
  | temp =>
    refine hs.touch hr.touches (fun j => ⟨fun _ => ?_, fun hj => ?_⟩) hlock hnodup
      (fun j hj hl => ⟨fun hji => hvalid (hji ▸ hj) (hji ▸ hl), fun _ => hl⟩)
      (fun j => ⟨fun _ => ?_, fun _ => .rfl⟩) ?_
    · rw [hr.holders, Ref.holder, Own.drop, count_erase_self, count_erase_self, hs.temps]
    · exact count_erase_of_ne hj
    · rw [hr.holders, Ref.holder, count_erase_of_ne (show Holder.cwd p ≠ .temp p by simp)]
      exact hs.cwds i
    · rw [hr.trans]
      exact hs.trans
  | cwd =>
    refine hs.touch hr.touches (fun j => ⟨fun _ => ?_, fun _ => rfl⟩) hlock hnodup
      (fun j hj hl => ⟨fun hji => hvalid (hji ▸ hj) (hji ▸ hl), fun _ => hl⟩)
      (fun j => ⟨fun _ => ?_, fun hj => ?_⟩) ?_
    · rw [hr.holders, Ref.holder, count_erase_of_ne (show Holder.temp p ≠ .cwd p by simp)]
      exact hs.temps i
    · rw [hr.holders, Ref.holder, count_erase_self, hs.cwds, if_pos ⟨href.1, href.2⟩]
      simp [Own.drop]
    · simp [Own.drop, href.2, Ne.symm hj]
    · rw [hr.trans]
      exact hs.trans

/-- What a process has locked it keeps a pointer to when it drops one. -/
def Spare (w : Own) (i : Nat) : Ref → Prop
  | .temp => i ∈ w.locks → i ∈ w.temps.erase i
  | .cwd => i ∈ w.locks → i ∈ w.temps

lemma Spare.pin {r : Ref} (h : Spare w i r) (hs : Has p w s) (hl : i ∈ w.locks) :
    .temp p ∈ (s.holders i).erase (r.holder p) := by
  rw [← count_pos_iff]
  cases r with
  | temp =>
    rw [Ref.holder, count_erase_self, hs.temps, ← count_erase_self]
    exact count_pos_iff.mpr (h hl)
  | cwd =>
    rw [Ref.holder, count_erase_of_ne (show Holder.temp p ≠ .cwd p by simp), hs.temps]
    exact count_pos_iff.mpr (h hl)

end Xv6.Fs.Refs
