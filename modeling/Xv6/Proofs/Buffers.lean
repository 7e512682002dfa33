import Xv6.Bcache
import Mathlib.Data.List.Perm.Basic

/-!
# The invariant of the buffer cache

That a buffer or the disk has the data last released for a sector rests on `idestart`, which must not
address two of the sectors in use in the same way. `N` are the sectors that a run asks for.
-/

namespace Xv6.Bcache

open Threads Fs List

variable {D : Type} {x x' : Buf D} {s s' s'' : State D} {p q : Pid} {b i nbuf : Nat} {havedisk1 : Bool}
  {N : UInt32 → UInt32 → Prop}

/-- A buffer's flags agree with who holds it and what was done to it. -/
structure Buf.Ok (x : Buf D) : Prop where
  one : x.owners.length ≤ 1
  busy : x.busy = true ↔ x.owners ≠ []
  free : x.owners = [] → x.fresh = true ∧ x.synced = true
  empty : x.valid = false → x.dirty = false ∧ x.fresh = true ∧ x.synced = true

/-- A buffer's data agree with those on the disk and those last released. -/
structure Buf.Holds (x : Buf D) (disk last : D) : Prop where
  empty : x.valid = false → disk = last
  fresh : x.valid = true → x.fresh = true → x.data = last
  synced : x.valid = true → x.synced = true → x.dirty = false → disk = x.data

def Buf.command (x : Buf D) : Command D := ⟨ports x.dev x.sector, if x.dirty then some x.data else none⟩

def Listed (nbuf : Nat) (L : Links) : Prop :=
  ∃ l, L.Ring nbuf l ∧ (nbuf :: l).Nodup ∧ ∀ b, b ∈ l ↔ b < nbuf

structure Queue (s : State D) : Prop where
  nodup : s.queue.Nodup
  mem : ∀ b, b ∈ s.queue → (s.buf b).owners ≠ [] ∧ ((s.buf b).valid = false ∨ (s.buf b).dirty = true)
  command : ∀ b l, s.queue = b :: l → s.command = some (s.buf b).command

structure Shape (nbuf : Nat) (N : UInt32 → UInt32 → Prop) (s : State D) : Prop where
  listed : Listed nbuf s.links
  ok : ∀ b, (s.buf b).Ok
  uniq : ∀ i j, (s.buf i).dev ≠ noDev → (s.buf i).dev = (s.buf j).dev →
    (s.buf i).sector = (s.buf j).sector → i = j
  named : ∀ b, (s.buf b).dev ≠ noDev ∨ (s.buf b).owners ≠ [] → b < nbuf ∧ N (s.buf b).dev (s.buf b).sector
  queue : Queue s

def State.onDisk (s : State D) (dev sector : UInt32) : D := s.disk (ports dev sector)

structure Contents (N : UInt32 → UInt32 → Prop) (s : State D) : Prop where
  buf : ∀ b, (s.buf b).dev ≠ noDev →
    (s.buf b).Holds (s.onDisk (s.buf b).dev (s.buf b).sector) (s.last (s.buf b).dev (s.buf b).sector)
  home : ∀ dev sector, N dev sector → (∀ b, (s.buf b).dev = dev → (s.buf b).sector ≠ sector) →
    s.onDisk dev sector = s.last dev sector
  reads : ∀ r ∈ s.reads, r.data = r.last

/-- The sectors are on devices, and the driver tells them apart. -/
structure Separate (N : UInt32 → UInt32 → Prop) : Prop where
  dev : ∀ v n, N v n → v ≠ noDev
  ports : ∀ v n v' n', N v n → N v' n' → ports v n = ports v' n' → v = v' ∧ n = n'

structure Inv (nbuf : Nat) (N : UInt32 → UInt32 → Prop) (s : State D) : Prop where
  shape : Shape nbuf N s
  contents : Separate N → Contents N s

structure Env (p : Pid) (s s' : State D) : Prop where
  own : ∀ b, p ∈ (s'.buf b).owners ↔ p ∈ (s.buf b).owners
  kept : ∀ b, p ∈ (s.buf b).owners → b ∉ s.queue → s'.buf b = s.buf b ∧ b ∉ s'.queue
  same : ∀ b, p ∈ (s.buf b).owners → (s'.buf b).fresh = (s.buf b).fresh ∧ (s'.buf b).synced = (s.buf b).synced

/-- Between calls, what a process holds was read and is not with the driver. Of `w` this need not
be so, and those of `l` are held. -/
structure Calm (p : Pid) (w : Option Nat) (l : List Nat) (s : State D) : Prop where
  rest : ∀ b, p ∈ (s.buf b).owners → some b ≠ w → b ∉ s.queue ∧ (s.buf b).valid = true
  held : ∀ b ∈ l, p ∈ (s.buf b).owners

def within (N : UInt32 → UInt32 → Prop) (_ : Pid) (a : Act D) (_ : State D) : Prop :=
  match a with
  | .bget dev sector => N dev sector
  | _ => True

def logic (nbuf : Nat) (N : UInt32 → UInt32 → Prop) : Logic Pid (Act D) (State D) Panic where
  Inv := Inv nbuf N
  Rely := Env
  Given := within N
  Pre := fun _ _ _ => True
  Allowed := fun _ => True
  Idle := fun p => Calm p none []

abbrev Spec (nbuf : Nat) (havedisk1 : Bool) (N : UInt32 → UInt32 → Prop) (p : Pid) {α : Type} :=
  wp (α := α) (bcache (D := D) nbuf havedisk1) (logic nbuf N) p

def Good (nbuf : Nat) (N : UInt32 → UInt32 → Prop) (p : Pid) (s s' : State D) : Prop :=
  Inv nbuf N s' ∧ ∀ q, q ≠ p → Env q s s'

@[simp] lemma State.setBuf_buf (s : State D) (b : Nat) (x : Buf D) (i : Nat) :
    (s.setBuf b x).buf i = if i = b then x else s.buf i :=
  Table.get_set s.buf b x i

lemma Env.refl (p : Pid) (s : State D) : Env p s s :=
  ⟨fun _ => .rfl, fun _ _ h => ⟨rfl, h⟩, fun _ _ => ⟨rfl, rfl⟩⟩

lemma Env.trans (h : Env p s s') (h' : Env p s' s'') : Env p s s'' := by
  refine ⟨fun b => (h'.own b).trans (h.own b), fun b hp hb => ?_, fun b hp => ?_⟩
  · obtain ⟨h1, h2⟩ := h.kept b hp hb
    obtain ⟨h3, h4⟩ := h'.kept b ((h.own b).mpr hp) h2
    exact ⟨h3.trans h1, h4⟩
  · obtain ⟨h1, h2⟩ := h.same b hp
    obtain ⟨h3, h4⟩ := h'.same b ((h.own b).mpr hp)
    exact ⟨h3.trans h1, h4.trans h2⟩

lemma Calm.env {w : Option Nat} {l : List Nat} (h : Calm p w l s) (he : Env p s s') : Calm p w l s' := by
  refine ⟨fun b hp hw => ?_, fun b hb => (he.own b).mpr (h.held b hb)⟩
  have hp' := (he.own b).mp hp
  obtain ⟨h1, h2⟩ := h.rest b hp' hw
  obtain ⟨h3, h4⟩ := he.kept b hp' h1
  exact ⟨h4, by rw [h3]; exact h2⟩

lemma Buf.Ok.owners_eq (h : x.Ok) (hp : p ∈ x.owners) : x.owners = [p] := by
  obtain ⟨a, ha⟩ := length_eq_one_iff.mp (Nat.le_antisymm h.one (length_pos_of_mem hp))
  rw [ha] at hp ⊢
  rw [mem_singleton.mp hp]

lemma Buf.Ok.owners_nil (h : x.Ok) (hb : ¬x.busy = true) : x.owners = [] := by
  by_contra hne
  exact hb (h.busy.mpr hne)

lemma Buf.Ok.valid_of_dirty (h : x.Ok) (hd : x.dirty = true) : x.valid = true := by
  by_contra hv
  have := (h.empty (by simpa using hv)).1
  rw [this] at hd
  cases hd

/-! ## Changes of one buffer -/

lemma Env.of_other (hne : ∀ i, i ≠ b → s'.buf i = s.buf i) (hq : ∀ i, i ≠ b → i ∉ s.queue → i ∉ s'.queue)
    (hb : q ∉ (s.buf b).owners) (hb' : q ∉ (s'.buf b).owners) : Env q s s' := by
  have hib : ∀ i, q ∈ (s.buf i).owners → i ≠ b := fun i hi hib => hb (hib ▸ hi)
  refine ⟨fun i => ?_, fun i hi hiq => ⟨hne i (hib i hi), hq i (hib i hi) hiq⟩, fun i hi => ?_⟩
  · by_cases hi : i = b
    · subst hi
      exact ⟨fun h => absurd h hb', fun h => absurd h hb⟩
    · rw [hne i hi]
  · rw [hne i (hib i hi)]
    exact ⟨rfl, rfl⟩

lemma Queue.update (h : Queue s) (hne : ∀ i, i ≠ b → s'.buf i = s.buf i) (hb : b ∉ s.queue)
    (hq : s'.queue = s.queue) (hc : s'.command = s.command) : Queue s' := by
  have hib : ∀ i ∈ s.queue, s'.buf i = s.buf i := fun i hi => hne i fun hib => hb (hib ▸ hi)
  refine ⟨hq ▸ h.nodup, fun i hi => ?_, fun i l hi => ?_⟩
  · rw [hq] at hi
    rw [hib i hi]
    exact h.mem i hi
  · rw [hq] at hi
    rw [hc, hib i (by simp [hi])]
    exact h.command i l hi

lemma Shape.update (h : Shape nbuf N s) (hl : Listed nbuf s'.links) (hne : ∀ i, i ≠ b → s'.buf i = s.buf i)
    (hok : (s'.buf b).Ok)
    (hnamed : (s'.buf b).dev ≠ noDev ∨ (s'.buf b).owners ≠ [] →
      b < nbuf ∧ N (s'.buf b).dev (s'.buf b).sector)
    (huniq : (s'.buf b).dev ≠ noDev → ∀ i, i ≠ b → (s.buf i).dev = (s'.buf b).dev →
      (s.buf i).sector ≠ (s'.buf b).sector) (hq : Queue s') : Shape nbuf N s' := by
  refine ⟨hl, fun i => ?_, fun i j h1 h2 h3 => ?_, fun i => ?_, hq⟩
  · by_cases hi : i = b
    · exact hi ▸ hok
    · rw [hne i hi]
      exact h.ok i
  · by_cases hi : i = b <;> by_cases hj : j = b
    · exact hi.trans hj.symm
    · subst hi
      rw [hne j hj] at h2 h3
      exact absurd h3.symm (huniq h1 j hj h2.symm)
    · subst hj
      rw [hne i hi] at h1 h2 h3
      exact absurd h3 (huniq (h2 ▸ h1) i hi h2)
    · rw [hne i hi] at h1 h2 h3
      rw [hne j hj] at h2 h3
      exact h.uniq i j h1 h2 h3
  · by_cases hi : i = b
    · exact hi ▸ hnamed
    · rw [hne i hi]
      exact h.named i

lemma Shape.alone (h : Shape nbuf N s) (hd : (s.buf b).dev ≠ noDev) (hi : i ≠ b)
    (hv : (s.buf i).dev = (s.buf b).dev) : (s.buf i).sector ≠ (s.buf b).sector :=
  fun hn => hi (h.uniq i b (hv ▸ hd) hv hn)

lemma good_setBuf (hi : Inv nbuf N s) (hok : x.Ok) (hkey : x.dev = (s.buf b).dev ∧ x.sector = (s.buf b).sector)
    (hown : x.owners = [p] ∧ b < nbuf ∧ N x.dev x.sector) (hq : b ∉ s.queue)
    (hfree : ∀ q, q ≠ p → q ∉ (s.buf b).owners)
    (hc : ∀ d l, (s.buf b).Holds d l → x.Holds d l) : Good nbuf N p s (s.setBuf b x) := by
  have hne : ∀ i, i ≠ b → (s.setBuf b x).buf i = s.buf i := fun i hib => by simp [hib]
  have hb : (s.setBuf b x).buf b = x := by simp
  refine ⟨⟨?_, fun hsep => ?_⟩, fun q hqp => .of_other hne (fun _ _ h => h) (hfree q hqp) ?_⟩
  · refine hi.shape.update hi.shape.listed hne ?_ (fun _ => ?_) (fun hd i hib hv => ?_)
      (hi.shape.queue.update hne hq rfl rfl)
    · rw [hb]
      exact hok
    · rw [hb]
      exact hown.2
    · rw [hb] at hd hv ⊢
      rw [hkey.1] at hd hv
      rw [hkey.2]
      exact hi.shape.alone hd hib hv
  · have hcon := hi.contents hsep
    refine ⟨fun i hd => ?_, fun dev sector hn hall => ?_, hcon.reads⟩
    · by_cases hib : i = b
      · subst hib
        rw [hb] at hd ⊢
        rw [hkey.1] at hd ⊢
        rw [hkey.2]
        exact hc _ _ (hcon.buf i hd)
      · rw [hne i hib] at hd ⊢
        exact hcon.buf i hd
    refine hcon.home dev sector hn fun i hv => ?_
    have := hall i
    by_cases hib : i = b
    · subst hib
      rw [hb, hkey.1, hkey.2] at this
      exact this hv
    · rw [hne i hib] at this
      exact this hv
  · rw [hb, hown.1]
    simpa using hqp

lemma Good.refl (hi : Inv nbuf N s) : Good nbuf N p s s := ⟨hi, fun q _ => .refl q s⟩

lemma wp_step {a : Act D} {S : State D → Prop} {U : a.Res → State D → Prop}
    (hS : ∀ s s', Env p s s' → S s → S s')
    (h : ∀ s r s', Inv nbuf N s → within N p a s → S s → exec nbuf p a s = .next r s' →
      Good nbuf N p s s' ∧ U r s')
    (hs : S s) : Spec nbuf havedisk1 N p (act a) U s := by
  refine wp_call hs hS fun s hi hg hS => ⟨trivial, .of_next (fun _ _ => trivial) fun r s' he => ?_⟩
  obtain ⟨hgood, hU⟩ := h s r s' hi hg hS he
  exact ⟨hgood.1, hgood.2, hU⟩

/-! ## `bget` -/

lemma find_listed {P : Nat → Bool} {l : List Nat} (hl : ∀ i, i ∈ l ↔ i < nbuf) (h : (l.find? P).getD nbuf = b) :
    (b = nbuf ∧ ∀ i, i < nbuf → P i = false) ∨ (b < nbuf ∧ P b = true) := by
  cases hf : l.find? P with
  | none =>
    rw [hf] at h
    refine .inl ⟨h.symm, fun i hi => ?_⟩
    simpa using List.find?_eq_none.mp hf i ((hl i).mpr hi)
  | some c =>
    rw [hf] at h
    cases h
    exact .inr ⟨(hl c).mp (List.mem_of_find?_eq_some hf), List.find?_some hf⟩

lemma length_listed {l : List Nat} (hd : l.Nodup) (hl : ∀ i, i ∈ l ↔ i < nbuf) : l.length < nbuf + 1 := by
  have hp : l.Perm (List.range nbuf) :=
    (perm_ext_iff_of_nodup hd nodup_range).mpr fun i => by rw [hl i, mem_range]
  have := hp.length_eq
  rw [length_range] at this
  omega

lemma lookup_spec {dev sector : UInt32} (hl : Listed nbuf s.links) (h : lookup nbuf dev sector s = some b) :
    (b = nbuf ∧ ∀ i, i < nbuf → (s.buf i).holds dev sector = false) ∨
      (b < nbuf ∧ (s.buf b).holds dev sector = true) := by
  obtain ⟨l, hr, hd, hmem⟩ := hl
  rw [nodup_cons] at hd
  rw [lookup, hr.seek_next hd.1 (length_listed hd.2 hmem)] at h
  exact find_listed hmem (Option.some.inj h)

lemma victim_cases (hl : Listed nbuf s.links) (h : victim nbuf s = some b) :
    (b = nbuf ∧ ∀ i, i < nbuf → (s.buf i).unused = false) ∨ (b < nbuf ∧ (s.buf b).unused = true) := by
  obtain ⟨l, hr, hd, hmem⟩ := hl
  rw [nodup_cons] at hd
  rw [victim, hr.seek_prev hd.1 (length_listed hd.2 hmem)] at h
  have hmem' : ∀ i, i ∈ l.reverse ↔ i < nbuf := fun i => by rw [mem_reverse, hmem]
  exact find_listed hmem' (Option.some.inj h)

lemma victim_spec (hl : Listed nbuf s.links) (h : victim nbuf s = some b) (hb : b ≠ nbuf) :
    b < nbuf ∧ (s.buf b).unused = true :=
  (victim_cases hl h).resolve_left fun h => hb h.1

lemma victim_none (hl : Listed nbuf s.links) (h : victim nbuf s = some nbuf) :
    ∀ i, i < nbuf → (s.buf i).unused = false :=
  ((victim_cases hl h).resolve_right fun h => absurd h.1 (Nat.lt_irrefl _)).2

lemma Buf.Holds.settled {d l : D} (h : x.Holds d l) (hok : x.Ok) (ho : x.owners = []) (hd : x.dirty = false) :
    d = l ∧ (x.valid = true → d = x.data) := by
  obtain ⟨hf, hs⟩ := hok.free ho
  cases hv : x.valid with
  | false => exact ⟨h.empty hv, nofun⟩
  | true => exact ⟨(h.synced hv hs hd).trans (h.fresh hv hf), fun _ => h.synced hv hs hd⟩

lemma Buf.unused_iff (hok : x.Ok) (h : x.unused = true) : x.owners = [] ∧ x.dirty = false := by
  simp only [Buf.unused, Bool.and_eq_true, Bool.not_eq_true'] at h
  exact ⟨hok.owners_nil (by simp [h.1]), h.2⟩

lemma Queue.free (h : Queue s) (ho : (s.buf b).owners = []) : b ∉ s.queue := fun hb => (h.mem b hb).1 ho

def Buf.recycled (x : Buf D) (p : Pid) (dev sector : UInt32) : Buf D :=
  { x with dev, sector, busy := true, valid := false, dirty := false, owners := p :: x.owners }

lemma good_recycle {dev sector : UInt32} (hi : Inv nbuf N s) (hb : b < nbuf) (hu : (s.buf b).unused = true)
    (hnone : ∀ i, i < nbuf → (s.buf i).holds dev sector = false) (hN : N dev sector) :
    Good nbuf N p s (s.setBuf b ((s.buf b).recycled p dev sector)) := by
  have hne : ∀ i, i ≠ b → (s.setBuf b ((s.buf b).recycled p dev sector)).buf i = s.buf i :=
    fun i hib => by simp [hib]
  have hbb : (s.setBuf b ((s.buf b).recycled p dev sector)).buf b = (s.buf b).recycled p dev sector := by simp
  obtain ⟨ho, hd⟩ := Buf.unused_iff (hi.shape.ok b) hu
  obtain ⟨hfresh, hsync⟩ := (hi.shape.ok b).free ho
  -- buffers that are not in the list were never used
  have huncached : dev ≠ noDev → ∀ i, (s.buf i).dev = dev → (s.buf i).sector ≠ sector := by
    intro hdev i hv hn
    have hlt := (hi.shape.named i (.inl (hv ▸ hdev))).1
    have := hnone i hlt
    simp [Buf.holds, hv, hn] at this
  refine ⟨⟨?_, fun hsep => ?_⟩, fun q hqp => .of_other hne (fun _ _ h => h) (by simp [ho]) ?_⟩
  · refine hi.shape.update hi.shape.listed hne ?_ (fun _ => ?_) (fun hdev i _ => ?_)
      (hi.shape.queue.update hne (hi.shape.queue.free ho) rfl rfl)
    · rw [hbb]
      exact ⟨by simp [Buf.recycled, ho], by simp [Buf.recycled], by simp [Buf.recycled],
        fun _ => ⟨rfl, hfresh, hsync⟩⟩
    · rw [hbb]
      exact ⟨hb, hN⟩
    · rw [hbb] at hdev ⊢
      exact huncached hdev i
  · have hcon := hi.contents hsep
    refine ⟨fun i hdev => ?_, fun v n hn hall => ?_, hcon.reads⟩
    · by_cases hib : i = b
      · subst hib
        rw [hbb]
        exact ⟨fun _ => hcon.home dev sector hN (huncached (hsep.dev _ _ hN)), nofun, nofun⟩
      · rw [hne i hib] at hdev ⊢
        exact hcon.buf i hdev
    by_cases hold : (s.buf b).dev = v ∧ (s.buf b).sector = n
    · obtain ⟨rfl, rfl⟩ := hold
      exact ((hcon.buf b (hsep.dev _ _ hn)).settled (hi.shape.ok b) ho hd).1
    refine hcon.home v n hn fun i hv hin => ?_
    by_cases hib : i = b
    · subst hib
      exact hold ⟨hv, hin⟩
    · have := hall i
      rw [hne i hib] at this
      exact this hv hin
  · rw [hbb]
    simpa [Buf.recycled, ho] using hqp

/-- Process `p` holds buffer `b`, which is `x` and not with the driver, and those of `l`. -/
structure Holding (p : Pid) (b : Nat) (l : List Nat) (x : Buf D) (s : State D) : Prop where
  calm : Calm p (some b) l s
  own : p ∈ (s.buf b).owners
  out : b ∉ s.queue
  buf : s.buf b = x

lemma Holding.env {l : List Nat} (h : Holding p b l x s) (he : Env p s s') : Holding p b l x s' := by
  obtain ⟨h1, h2⟩ := he.kept b h.own h.out
  exact ⟨h.calm.env he, (he.own b).mpr h.own, h2, h1.trans h.buf⟩

lemma Calm.take {l : List Nat} (h : Calm p none l s) (hi : Inv nbuf N s) (ho : (s.buf b).owners = [])
    (hx : x.owners = [p]) : b ∉ l ∧ Holding p b l x (s.setBuf b x) := by
  have hbl : b ∉ l := fun hb => by simpa [ho] using h.held b hb
  refine ⟨hbl, ⟨fun i hp hw => ?_, fun i hil => ?_⟩, by simp [hx], hi.shape.queue.free ho, by simp⟩
  · have hib : i ≠ b := fun hib => hw (congrArg some hib)
    simp only [State.setBuf_buf, if_neg hib] at hp ⊢
    exact h.rest i hp nofun
  · have hib : i ≠ b := fun hib => hbl (hib ▸ hil)
    simp only [State.setBuf_buf, if_neg hib]
    exact h.held i hil

lemma bget_next {dev sector : UInt32} {r : Nat} (hl : Listed nbuf s.links)
    (he : exec nbuf p (.bget dev sector) s = .next r s') :
    r < nbuf ∧ (((s.buf r).dev = dev ∧ (s.buf r).sector = sector ∧ ¬(s.buf r).busy = true ∧
        s' = s.setBuf r { s.buf r with busy := true, owners := p :: (s.buf r).owners }) ∨
      ((∀ i, i < nbuf → (s.buf i).holds dev sector = false) ∧ (s.buf r).unused = true ∧
        s' = s.setBuf r ((s.buf r).recycled p dev sector))) := by
  rw [exec] at he
  split at he
  · cases he
  rename_i b hlook
  split at he
  · rename_i hne
    obtain ⟨hb, hholds⟩ := (lookup_spec hl hlook).resolve_left fun h => hne h.1
    have hkey : (s.buf b).dev = dev ∧ (s.buf b).sector = sector := by simpa [Buf.holds] using hholds
    dsimp only at he
    split at he
    · cases he
    · rename_i hbusy
      cases he
      exact ⟨hb, .inl ⟨hkey.1, hkey.2, hbusy, rfl⟩⟩
  · rename_i hnone
    obtain ⟨-, hnone⟩ := (lookup_spec hl hlook).resolve_right fun h => hnone (by omega)
    split at he
    · cases he
    rename_i c hvict
    split at he
    · cases he
    rename_i hc
    obtain ⟨hb, hu⟩ := victim_spec hl hvict hc
    cases he
    exact ⟨hb, .inr ⟨hnone, hu, rfl⟩⟩

lemma bget_stop {dev sector : UInt32} {e : Panic} (hl : Listed nbuf s.links)
    (he : exec nbuf p (.bget dev sector) s = .stop e) : ∀ i, i < nbuf → (s.buf i).unused = false := by
  rw [exec] at he
  split at he
  · cases he
  split at he
  · dsimp only at he
    split at he <;> cases he
  split at he
  · cases he
  rename_i c hvict
  split at he
  · rename_i hc
    subst hc
    exact victim_none hl hvict
  · cases he

lemma wp_bget {l : List Nat} (dev sector : UInt32) (hs : Calm p none l s) :
    Spec nbuf havedisk1 N p (act (.bget dev sector))
      (fun b s => b ∉ l ∧ ∃ x, Holding p b l x s ∧ x.fresh = true) s := by
  refine wp_step (fun _ _ he h => Calm.env h he) (fun s r s' hi hN hk he => ?_) hs
  obtain ⟨hb, ⟨hdev, hsector, hbusy, rfl⟩ | ⟨hnone, hu, rfl⟩⟩ := bget_next hi.shape.listed he
  · have hok := hi.shape.ok r
    have ho := hok.owners_nil hbusy
    obtain ⟨hbl, hhold⟩ := hk.take (x := { s.buf r with busy := true, owners := p :: (s.buf r).owners }) hi ho
      (by simp [ho])
    refine ⟨good_setBuf hi ⟨by simp [ho], by simp, by simp, hok.empty⟩ ⟨rfl, rfl⟩
      ⟨by simp [ho], hb, ?_⟩ (hi.shape.queue.free ho) (by simp [ho]) fun d l h => ⟨h.empty, h.fresh, h.synced⟩,
      hbl, _, hhold, (hok.free ho).1⟩
    show N (s.buf r).dev (s.buf r).sector
    rw [hdev, hsector]
    exact hN
  · obtain ⟨ho, -⟩ := Buf.unused_iff (hi.shape.ok r) hu
    obtain ⟨hbl, hhold⟩ := hk.take (x := (s.buf r).recycled p dev sector) hi ho (by simp [Buf.recycled, ho])
    exact ⟨good_recycle hi hb hu hnone hN, hbl, _, hhold, ((hi.shape.ok r).free ho).1⟩

/-! ## The driver -/

lemma idestart_queue (s : State D) : (idestart s).queue = s.queue := by
  unfold idestart
  split <;> rfl

lemma idestart_other (s : State D) : (idestart s).buf = s.buf ∧ (idestart s).links = s.links ∧
    (idestart s).disk = s.disk ∧ (idestart s).last = s.last ∧ (idestart s).reads = s.reads := by
  unfold idestart
  split <;> exact ⟨rfl, rfl, rfl, rfl, rfl⟩

lemma idestart_command {l : List Nat} (h : s.queue = b :: l) :
    (idestart s).command = some (s.buf b).command := by
  rw [idestart, h]
  rfl

lemma Inv.of_queue (hi : Inv nbuf N s) (hq : Queue s') (hbuf : s'.buf = s.buf) (hl : s'.links = s.links)
    (hdisk : s'.disk = s.disk) (hlast : s'.last = s.last) (hreads : s'.reads = s.reads) : Inv nbuf N s' := by
  refine ⟨⟨hl ▸ hi.shape.listed, ?_, ?_, ?_, hq⟩, fun hsep => ⟨?_, ?_, hreads ▸ (hi.contents hsep).reads⟩⟩
  · rw [hbuf]
    exact hi.shape.ok
  · rw [hbuf]
    exact hi.shape.uniq
  · rw [hbuf]
    exact hi.shape.named
  · simp only [State.onDisk, hbuf, hdisk, hlast]
    exact (hi.contents hsep).buf
  · simp only [State.onDisk, hbuf, hdisk, hlast]
    exact (hi.contents hsep).home

lemma Queue.append (h : Queue s) (hb : b ∉ s.queue) (ho : (s.buf b).owners ≠ [])
    (hf : (s.buf b).valid = false ∨ (s.buf b).dirty = true) (hbuf : s'.buf = s.buf)
    (hq : s'.queue = s.queue ++ [b]) (hne : s.queue ≠ [] → s'.command = s.command)
    (hnil : s.queue = [] → s'.command = some (s.buf b).command) : Queue s' := by
  refine ⟨?_, fun i hi => ?_, fun i l hi => ?_⟩
  · rw [hq]
    exact nodup_append.mpr ⟨h.nodup, by simp, fun i hi j hj => by
      rw [mem_singleton.mp hj]
      exact fun hib => hb (hib ▸ hi)⟩
  · rw [hq, mem_append, mem_singleton] at hi
    rw [hbuf]
    rcases hi with hi | rfl
    · exact h.mem i hi
    · exact ⟨ho, hf⟩
  · rw [hq] at hi
    rw [hbuf]
    cases hs : s.queue with
    | nil =>
      rw [hs] at hi
      cases hi
      exact hnil hs
    | cons j l' =>
      rw [hs] at hi
      cases hi
      rw [hne (by simp [hs])]
      exact h.command _ l' hs

/-- Process `p` waits for the disk, or holds `b` when it is done, with what it did before. -/
structure Waits (p : Pid) (w : Option Nat) (b : Nat) (l : List Nat) (fresh synced : Bool) (s : State D) : Prop where
  calm : Calm p w l s
  own : p ∈ (s.buf b).owners
  fresh : (s.buf b).fresh = fresh
  synced : (s.buf b).synced = synced

lemma Waits.env {w : Option Nat} {l : List Nat} {f y : Bool} (h : Waits p w b l f y s) (he : Env p s s') :
    Waits p w b l f y s' := by
  obtain ⟨h1, h2⟩ := he.same b h.own
  exact ⟨h.calm.env he, (he.own b).mpr h.own, h1.trans h.fresh, h2.trans h.synced⟩

lemma wp_enqueue {l : List Nat} (hs : Holding p b l x s) (hf : x.valid = false ∨ x.dirty = true) :
    Spec nbuf havedisk1 N p (act (.enqueue b))
      (fun _ => Waits p (some b) b l x.fresh x.synced) s := by
  refine wp_step (fun _ _ he h => h.env he) (fun s r s' hi _ hk he => ?_) hs
  rw [exec] at he
  have hhead : (s.queue ++ [b]).head? = some b ↔ s.queue = [] := by
    cases hsq : s.queue with
    | nil => simp
    | cons j l' =>
      have : j ≠ b := fun hjb => hk.out (by simp [hsq, hjb])
      simp [this]
  have hstart := idestart_other { s with queue := s.queue ++ [b] }
  have hqueue := idestart_queue { s with queue := s.queue ++ [b] }
  have hs' : s'.buf = s.buf ∧ s'.links = s.links ∧ s'.disk = s.disk ∧ s'.last = s.last ∧
      s'.reads = s.reads ∧ s'.queue = s.queue ++ [b] ∧ (s.queue ≠ [] → s'.command = s.command) ∧
      (s.queue = [] → s'.command = some (s.buf b).command) := by
    by_cases hnil : s.queue = []
    · rw [if_pos (hhead.mpr hnil)] at he
      cases he
      refine ⟨hstart.1, hstart.2.1, hstart.2.2.1, hstart.2.2.2.1, hstart.2.2.2.2, hqueue, fun h => absurd hnil h,
        fun _ => ?_⟩
      exact idestart_command (s := { s with queue := s.queue ++ [b] }) (l := []) (by simp [hnil])
    · rw [if_neg (hhead.not.mpr hnil)] at he
      cases he
      exact ⟨rfl, rfl, rfl, rfl, rfl, rfl, fun _ => rfl, fun h => absurd h hnil⟩
  obtain ⟨hbuf, hlinks, hdisk, hlast, hreads, hq, hcmd, hcmd'⟩ := hs'
  have hown := (hi.shape.ok b).owners_eq hk.own
  refine ⟨⟨hi.of_queue ?_ hbuf hlinks hdisk hlast hreads, fun q hqp => ?_⟩,
    ⟨fun i hp hw => ?_, fun i hil => ?_⟩, ?_, ?_, ?_⟩
  · exact hi.shape.queue.append hk.out (by simp [hown]) (by rw [hk.buf]; exact hf) hbuf hq hcmd hcmd'
  · refine .of_other (b := b) (fun i _ => by rw [hbuf]) (fun i hib hiq => ?_) (by simp [hown, hqp])
      (by simp [hbuf, hown, hqp])
    simp [hq, hiq, hib]
  · rw [hbuf] at hp ⊢
    obtain ⟨h1, h2⟩ := hk.calm.rest i hp hw
    have hib : i ≠ b := fun hib => hw (congrArg some hib)
    exact ⟨by simp [hq, h1, hib], h2⟩
  · rw [hbuf]
    exact hk.calm.held i hil
  · rw [hbuf]
    exact hk.own
  · rw [hbuf, hk.buf]
  · rw [hbuf, hk.buf]

lemma Queue.out (h : Queue s) (hv : (s.buf b).valid = true) (hd : (s.buf b).dirty = false) : b ∉ s.queue := by
  intro hb
  rcases (h.mem b hb).2 with h | h
  · rw [hv] at h
    cases h
  · rw [hd] at h
    cases h

lemma wp_wait {l : List Nat} {f y : Bool} (hs : Waits p (some b) b l f y s) :
    Spec nbuf havedisk1 N p (act (.wait b)) (fun _ => Waits p none b l f y) s := by
  refine wp_step (fun _ _ he h => h.env he) (fun s r s' hi _ hk he => ?_) hs
  rw [exec] at he
  split at he
  · rename_i hflags
    simp only [Bool.and_eq_true, Bool.not_eq_true'] at hflags
    cases he
    refine ⟨.refl hi, ⟨fun i hp _ => ?_, hk.calm.held⟩, hk.own, hk.fresh, hk.synced⟩
    by_cases hib : i = b
    · subst hib
      exact ⟨hi.shape.queue.out hflags.1 hflags.2, hflags.1⟩
    · exact hk.calm.rest i hp fun h => hib (Option.some.inj h)
  · cases he

def Buf.done (s : State D) (x : Buf D) : Buf D :=
  { x with data := if x.dirty then x.data else transfer s x.data, valid := true, dirty := false }

lemma written_other {v n : UInt32} (hc : s.command = some x.command) (h : ports v n ≠ ports x.dev x.sector) :
    written s (ports v n) = s.disk (ports v n) := by
  rw [written, hc, Buf.command]
  cases x.dirty with
  | false => rfl
  | true => exact Function.update_of_ne h _ _

lemma Buf.done_holds {l : D} (hc : s.command = some x.command) (hok : x.Ok)
    (hf : x.valid = false ∨ x.dirty = true) (h : x.Holds (s.onDisk x.dev x.sector) l) :
    (x.done s).Holds (written s (ports x.dev x.sector)) l := by
  cases hd : x.dirty with
  | false =>
    have hv : x.valid = false := hf.resolve_right (by simp [hd])
    have hw : written s = s.disk := by simp [written, hc, Buf.command, hd]
    have ht : (x.done s).data = s.onDisk x.dev x.sector := by
      simp [Buf.done, hd, transfer, hc, Buf.command, State.onDisk]
    rw [hw]
    exact ⟨nofun, fun _ _ => ht.trans (h.empty hv), fun _ _ _ => ht.symm⟩
  | true =>
    have hw : written s (ports x.dev x.sector) = x.data := by simp [written, hc, Buf.command, hd]
    have ht : (x.done s).data = x.data := by simp [Buf.done, hd]
    refine ⟨nofun, fun _ hfr => ht.trans (h.fresh (hok.valid_of_dirty hd) hfr), fun _ _ _ => hw.trans ht.symm⟩

lemma ideintr_good (hi : Inv nbuf N s) : Inv nbuf N (ideintr s) ∧ ∀ q, Env q s (ideintr s) := by
  unfold ideintr
  split
  · exact ⟨hi, fun q => .refl q s⟩
  rename_i b l hq
  have hcmd := hi.shape.queue.command b l hq
  obtain ⟨ho, hf⟩ := hi.shape.queue.mem b (by simp [hq])
  have hok := hi.shape.ok b
  have hnd := hi.shape.queue.nodup
  rw [hq, nodup_cons] at hnd
  change Inv nbuf N (idestart { s.setBuf b ((s.buf b).done s) with queue := l, disk := written s }) ∧
    ∀ q, Env q s (idestart { s.setBuf b ((s.buf b).done s) with queue := l, disk := written s })
  generalize hs₁ : ({ s.setBuf b ((s.buf b).done s) with queue := l, disk := written s } : State D) = s₁
  obtain ⟨hbuf, hlinks, hdisk, hlast, hreads⟩ := idestart_other s₁
  have hqueue : (idestart s₁).queue = l := by rw [idestart_queue, ← hs₁]
  have hbb : (idestart s₁).buf b = (s.buf b).done s := by
    rw [hbuf, ← hs₁]
    exact Table.get_set_self _ _ _
  have hne : ∀ i, i ≠ b → (idestart s₁).buf i = s.buf i := fun i hib => by
    rw [hbuf, ← hs₁]
    exact Table.get_set_ne _ _ hib
  have hl : ∀ i ∈ l, i ≠ b := fun i hil hib => hnd.1 (hib ▸ hil)
  have honDisk : ∀ v n, (idestart s₁).onDisk v n = written s (ports v n) := fun v n => by
    rw [State.onDisk, hdisk, ← hs₁]
  have hlast' : (idestart s₁).last = s.last := by rw [hlast, ← hs₁]; rfl
  refine ⟨⟨?_, fun hsep => ?_⟩, fun q => ⟨fun i => ?_, fun i hqi hiq => ?_, fun i hqi => ?_⟩⟩
  · refine hi.shape.update ?_ hne ?_ ?_ (fun hd i hib hv => ?_) ⟨hqueue ▸ hnd.2, fun i hil => ?_, fun i l' hil => ?_⟩
    · rw [hlinks, ← hs₁]
      exact hi.shape.listed
    · rw [hbb]
      exact ⟨hok.one, hok.busy, hok.free, nofun⟩
    · rw [hbb]
      exact hi.shape.named b
    · rw [hbb] at hd hv ⊢
      exact hi.shape.alone hd hib hv
    · rw [hqueue] at hil
      rw [hne i (hl i hil)]
      exact hi.shape.queue.mem i (by simp [hq, hil])
    · rw [idestart_queue] at hil
      rw [hbuf]
      exact idestart_command hil
  · -- only the sector of `b` is written
    have hcon := hi.contents hsep
    have hN := (hi.shape.named b (.inr ho)).2
    have hother : ∀ v n, N v n → ¬(v = (s.buf b).dev ∧ n = (s.buf b).sector) →
        (idestart s₁).onDisk v n = s.onDisk v n := by
      intro v n hn hkey
      rw [honDisk]
      exact written_other hcmd fun h => hkey (hsep.ports _ _ _ _ hn hN h)
    refine ⟨fun i hd => ?_, fun v n hn hall => ?_, ?_⟩
    · by_cases hib : i = b
      · subst hib
        rw [hlast', honDisk, hbb]
        exact Buf.done_holds hcmd hok hf (hcon.buf i (hsep.dev _ _ hN))
      rw [hne i hib] at hd ⊢
      rw [hlast', hother _ _ (hi.shape.named i (.inl hd)).2 fun h =>
        hi.shape.alone (hsep.dev _ _ hN) hib h.1 h.2]
      exact hcon.buf i hd
    · rw [hlast', hother v n hn fun h => by
        have := hall b
        rw [hbb] at this
        exact this h.1.symm h.2.symm]
      refine hcon.home v n hn fun i hv => ?_
      have := hall i
      by_cases hib : i = b
      · subst hib
        rw [hbb] at this
        exact this hv
      · rw [hne i hib] at this
        exact this hv
    · rw [hreads, ← hs₁]
      exact hcon.reads
  · by_cases hib : i = b
    · subst hib
      rw [hbb]
      rfl
    · rw [hne i hib]
  · rw [hq, mem_cons, not_or] at hiq
    exact ⟨hne i hiq.1, by rw [hqueue]; exact hiq.2⟩
  · by_cases hib : i = b
    · subst hib
      rw [hbb]
      exact ⟨rfl, rfl⟩
    · rw [hne i hib]
      exact ⟨rfl, rfl⟩

end Xv6.Bcache
