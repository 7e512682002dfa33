import Xv6.DiskCache
import Xv6.Proofs.IdeRefines

/-!
# Errors of the disk and the buffer cache

`ideintr` sets `B_VALID` and clears `B_DIRTY` whatever the status of the command was.
-/

namespace Xv6.DiskCache

open List Function

open Ide (Buf Phase Served phase_setPhase check)
open Bcache (Ports ports)

variable {D : Type} {s s' : State D} {q : List Nat} {nbuf : Nat} {havedisk1 : Bool} {p b : Nat}

/-! ## Processes and their buffers -/

@[simp] lemma State.stage_setStage (st : Stage) : (s.setStage p st).stage p = st := by
  simp [State.setStage]

def Placed (s : State D) (p : Nat) : Prop :=
  match s.stage p with
  | .idle => (s.ide.phase p).buf = none
  | .got b dev sector =>
    (s.ide.phase p).buf = none ∧ s.holder b = some p ∧ (s.buf b).dev = dev ∧ (s.buf b).sector = sector
  | .reading b dev sector =>
    (s.ide.phase p).buf = some b ∧ s.holder b = some p ∧ (s.buf b).dev = dev ∧ (s.buf b).sector = sector
  | .dirtied b => (s.ide.phase p).buf = none ∧ s.holder b = some p
  | .writing b => (s.ide.phase p).buf = some b ∧ s.holder b = some p

lemma Placed.mono (h : Placed s p) (hstage : s'.stage p = s.stage p)
    (hphase : (s'.ide.phase p).buf = (s.ide.phase p).buf)
    (hheld : ∀ b, s.holder b = some p →
      s'.holder b = some p ∧ (s'.buf b).dev = (s.buf b).dev ∧ (s'.buf b).sector = (s.buf b).sector) :
    Placed s' p := by
  unfold Placed at h ⊢
  rw [hstage, hphase]
  cases hst : s.stage p with
  | idle =>
    rw [hst] at h
    exact h
  | got b dev sector =>
    rw [hst] at h
    obtain ⟨hnone, hb, hdev, hsector⟩ := h
    obtain ⟨hb', hdev', hsector'⟩ := hheld b hb
    exact ⟨hnone, hb', hdev'.trans hdev, hsector'.trans hsector⟩
  | reading b dev sector =>
    rw [hst] at h
    obtain ⟨hsome, hb, hdev, hsector⟩ := h
    obtain ⟨hb', hdev', hsector'⟩ := hheld b hb
    exact ⟨hsome, hb', hdev'.trans hdev, hsector'.trans hsector⟩
  | dirtied b =>
    rw [hst] at h
    exact ⟨h.1, (hheld b h.2).1⟩
  | writing b =>
    rw [hst] at h
    exact ⟨h.1, (hheld b h.2).1⟩

def Listed (nbuf : Nat) (L : Links) : Prop :=
  ∃ l, L.Ring 0 l ∧ (0 :: l).Nodup ∧ ∀ b, b ∈ l ↔ 0 < b ∧ b ≤ nbuf

structure Inv (nbuf : Nat) (s : State D) (q : List Nat) : Prop where
  served : Served s.ide q
  clean : s.ide.drv.done ≠ some false
  listed : Listed nbuf s.links
  active_nodup : s.ide.active.Nodup
  active : ∀ b ∈ s.ide.active, ∃ p, s.holder b = some p ∧ (s.ide.phase p).buf = some b
  busy : ∀ b, (s.buf b).busy = (s.holder b).isSome
  held : ∀ b p, s.holder b = some p → 0 < b ∧ b ≤ nbuf
  placed : ∀ p, Placed s p
  moved : ∀ b, (s.buf b).valid = true → s.moved b = true
  rejected : s.rejected = false
  reads : ∀ r ∈ s.reads, r.moved = true ∧ r.buf.valid = true ∧ r.buf.dev = r.dev ∧ r.buf.sector = r.sector

lemma Listed.relink {L : Links} (h : Listed nbuf L) (hpos : 0 < b) (hb : b ≤ nbuf) :
    Listed nbuf ((L.unlink b).pushFront 0 b) := by
  obtain ⟨l, hring, hnodup, hmem⟩ := h
  obtain ⟨l₁, l₂, rfl⟩ := append_of_mem ((hmem b).mpr ⟨hpos, hb⟩)
  have hperm : (b :: (l₁ ++ l₂)).Perm (l₁ ++ b :: l₂) := perm_middle.symm
  have hnodup' : (0 :: b :: (l₁ ++ l₂)).Nodup := (hperm.cons 0).nodup_iff.mpr hnodup
  have hb' : b ∉ 0 :: (l₁ ++ l₂) := by
    have := (List.Perm.swap b 0 (l₁ ++ l₂)).nodup_iff.mp hnodup'
    exact (nodup_cons.mp this).1
  have hrest : (0 :: (l₁ ++ l₂)).Nodup := by
    have := (List.Perm.swap b 0 (l₁ ++ l₂)).nodup_iff.mp hnodup'
    exact (nodup_cons.mp this).2
  refine ⟨b :: (l₁ ++ l₂), (hring.unlink hnodup).pushFront hrest hb', hnodup', fun c => ?_⟩
  rw [hperm.mem_iff, hmem]

namespace Inv

lemma not_active (h : Inv nbuf s q) (hb : s.holder b = some p) (hp : (s.ide.phase p).buf = none) :
    b ∉ s.ide.active := by
  intro hmem
  obtain ⟨p', hb', hp'⟩ := h.active b hmem
  have hpp : p = p' := Option.some.inj (hb.symm.trans hb')
  rw [← hpp, hp] at hp'
  cases hp'

lemma not_active_of_free (h : Inv nbuf s q) (hb : s.holder b = none) : b ∉ s.ide.active := by
  intro hmem
  obtain ⟨p', hb', -⟩ := h.active b hmem
  rw [hb] at hb'
  cases hb'

lemma panic (h : Inv nbuf s q) (e : Option Panic) : Inv nbuf { s with panicked := e } q where
  served := h.served
  clean := h.clean
  listed := h.listed
  active_nodup := h.active_nodup
  active := h.active
  busy := h.busy
  held := h.held
  placed := h.placed
  moved := h.moved
  rejected := h.rejected
  reads := h.reads

lemma touch (h : Inv nbuf s q) {x : Buf D} (hb : b ∉ s.ide.active) (hown : ∀ p', p' ≠ p → s.holder b ≠ some p')
    (hide : s'.ide = { s.ide with drv := s.ide.drv.setBuf b x, trace := s.ide.trace ++ [.touch b x] })
    (hlisted : Listed nbuf s'.links) (hstage : ∀ p', p' ≠ p → s'.stage p' = s.stage p')
    (hholder : ∀ c, c ≠ b → s'.holder c = s.holder c) (hbusy : x.busy = (s'.holder b).isSome)
    (hheld : ∀ p', s'.holder b = some p' → 0 < b ∧ b ≤ nbuf) (hother : ∀ c, c ≠ b → s'.moved c = s.moved c)
    (hmoved : x.valid = true → s'.moved b = true) (hplaced : Placed s' p) (hrejected : s'.rejected = s.rejected)
    (hreads : s'.reads = s.reads) : Inv nbuf s' q := by
  have hbuf : ∀ c, c ≠ b → s'.buf c = s.buf c := by
    intro c hc
    rw [State.buf, hide]
    exact Table.get_set_ne _ _ hc
  have hself : s'.buf b = x := by
    rw [State.buf, hide]
    exact Table.get_set_self _ _ _
  refine ⟨?_, ?_, hlisted, ?_, ?_, ?_, ?_, ?_, ?_, hrejected.trans h.rejected, ?_⟩
  · rw [hide]
    exact h.served.touch hb
  · rw [hide]
    exact h.clean
  · rw [hide]
    exact h.active_nodup
  · rw [hide]
    intro c hc
    have hcb : c ≠ b := by
      rintro rfl
      exact hb hc
    rw [hholder c hcb]
    exact h.active c hc
  · intro c
    by_cases hc : c = b
    · rw [hc, hself]
      exact hbusy
    · rw [hbuf c hc, hholder c hc]
      exact h.busy c
  · intro c p' hp'
    by_cases hc : c = b
    · rw [hc] at hp' ⊢
      exact hheld p' hp'
    · exact h.held c p' ((hholder c hc).symm.trans hp')
  · intro p'
    by_cases hp' : p' = p
    · rw [hp']
      exact hplaced
    refine (h.placed p').mono (hstage p' hp') (by rw [hide]) fun c hc => ?_
    have hcb : c ≠ b := by
      rintro rfl
      exact hown p' hp' hc
    rw [hholder c hcb, hbuf c hcb]
    exact ⟨hc, rfl, rfl⟩
  · intro c
    by_cases hc : c = b
    · rw [hc, hself]
      exact hmoved
    · rw [hbuf c hc, hother c hc]
      exact h.moved c
  · rw [hreads]
    exact h.reads

lemma modify (h : Inv nbuf s q) {x : Buf D} (hst : s.stage p = .idle) (hb : s.holder b = some p)
    (hbusy : x.busy = (s.buf b).busy) (hvalid : x.valid = (s.buf b).valid) : Inv nbuf (s.setBuf b x) q := by
  have hout : (s.ide.phase p).buf = none := by
    have := h.placed p
    rwa [Placed, hst] at this
  refine h.touch (h.not_active hb hout) (x := x) (p := p) ?_ rfl h.listed (fun _ _ => rfl) (fun _ _ => rfl)
    (hbusy.trans (h.busy b)) (h.held b) (fun _ _ => rfl) ?_ ?_ rfl rfl
  · intro p' hp' hc
    exact hp' (Option.some.inj (hc.symm.trans hb))
  · rw [hvalid]
    exact h.moved b
  · rw [Placed, State.setBuf, hst]
    exact hout

lemma setStage (h : Inv nbuf s q) {st : Stage} (hp : Placed (s.setStage p st) p) : Inv nbuf (s.setStage p st) q := by
  refine ⟨h.served, h.clean, h.listed, h.active_nodup, h.active, h.busy, h.held, ?_, h.moved, h.rejected, h.reads⟩
  intro p'
  by_cases hp' : p' = p
  · rw [hp']
    exact hp
  · exact (h.placed p').mono (update_of_ne hp' _ _) rfl fun c hc => ⟨hc, rfl, rfl⟩

lemma bwrite (h : Inv nbuf s q) (hst : s.stage p = .idle) (hb : s.holder b = some p) : Inv nbuf (s.bwrite p b) q := by
  rw [State.bwrite]
  split
  · exact h.panic _
  refine (h.modify (x := { s.buf b with dirty := true }) hst hb rfl rfl).setStage ?_
  have hout := h.placed p
  rw [Placed, hst] at hout
  rw [Placed, State.stage_setStage]
  exact ⟨hout, hb⟩

lemma brelse (h : Inv nbuf s q) (hst : s.stage p = .idle) (hb : s.holder b = some p) : Inv nbuf (s.brelse b) q := by
  have hout : (s.ide.phase p).buf = none := by
    have := h.placed p
    rwa [Placed, hst] at this
  obtain ⟨hpos, hle⟩ := h.held b p hb
  rw [State.brelse]
  split
  · exact h.panic _
  refine h.touch (h.not_active hb hout) (x := { s.buf b with busy := false }) (p := p) ?_ rfl
    (h.listed.relink hpos hle) (fun _ _ => rfl) (fun c hc => update_of_ne hc _ _) ?_ ?_ (fun _ _ => rfl)
    (h.moved b) ?_ rfl rfl
  · intro p' hp' hc
    exact hp' (Option.some.inj (hc.symm.trans hb))
  · simp [State.setHolder]
  · simp [State.setHolder]
  · rw [Placed, State.setHolder, State.setBuf, hst]
    exact hout

lemma hand (h : Inv nbuf s q) (b : Nat) (dev sector : UInt32) {x : Buf D} (hst : s.stage p = .idle)
    (hfree : (s.buf b).busy = false)
    (hpos : 0 < b) (hle : b ≤ nbuf)
    (hide : s'.ide = { s.ide with drv := s.ide.drv.setBuf b x, trace := s.ide.trace ++ [.touch b x] })
    (hlinks : s'.links = s.links) (hstage : s'.stage = Function.update s.stage p (.got b dev sector))
    (hholder : s'.holder = Function.update s.holder b (some p)) (hother : ∀ c, c ≠ b → s'.moved c = s.moved c)
    (hrejected : s'.rejected = s.rejected) (hreads : s'.reads = s.reads) (hbusy : x.busy = true) (hdev : x.dev = dev)
    (hsector : x.sector = sector) (hmoved : x.valid = true → s'.moved b = true) : Inv nbuf s' q := by
  have hnone : s.holder b = none := by
    have hbusy := h.busy b
    rw [hfree] at hbusy
    exact Option.not_isSome_iff_eq_none.mp (by rw [← hbusy]; exact Bool.false_ne_true)
  have hself : s'.holder b = some p := by
    rw [hholder, update_self]
  have hout : (s.ide.phase p).buf = none := by
    have := h.placed p
    rwa [Placed, hst] at this
  refine h.touch (h.not_active_of_free hnone) (p := p) ?_ hide ?_ ?_ ?_ ?_ ?_ hother hmoved ?_ hrejected hreads
  · intro p' _ hc
    rw [hnone] at hc
    cases hc
  · rw [hlinks]
    exact h.listed
  · intro p' hp'
    rw [hstage, update_of_ne hp']
  · intro c hc
    rw [hholder, update_of_ne hc]
  · rw [hself, hbusy]
    rfl
  · exact fun _ _ => ⟨hpos, hle⟩
  · have hbuf : s'.buf b = x := by
      rw [State.buf, hide]
      exact Table.get_set_self _ _ _
    rw [Placed, hstage, update_self, hide]
    exact ⟨hout, hself, by rw [hbuf, hdev], by rw [hbuf, hsector]⟩

lemma bget (h : Inv nbuf s q) (dev sector : UInt32) (hst : s.stage p = .idle) :
    ∃ s', s.bget nbuf p dev sector = some s' ∧ Inv nbuf s' q := by
  obtain ⟨l, hring, hnodup, hmem⟩ := h.listed
  have hhead := (nodup_cons.mp hnodup).1
  have hlen : l.length < nbuf + 1 := by
    have hsub : l ⊆ List.range' 1 nbuf := by
      intro c hc
      have := (hmem c).mp hc
      rw [mem_range'_1]
      omega
    have := ((nodup_cons.mp hnodup).2.subperm hsub).length_le
    rw [length_range'] at this
    omega
  have hlook := hring.seek_next (P := fun b => (s.buf b).dev = dev ∧ (s.buf b).sector = sector) hhead hlen
  have hvict := hring.seek_prev (P := fun b => !(s.buf b).busy && !(s.buf b).dirty) hhead hlen
  rw [State.bget, State.lookup, hlook]
  change ∃ s', (if (l.find? _).getD 0 ≠ 0 then _ else _) = some s' ∧ _
  split
  · rename_i hne
    cases hfind : l.find? fun b => decide ((s.buf b).dev = dev ∧ (s.buf b).sector = sector) with
    | none =>
      rw [hfind] at hne
      exact absurd rfl hne
    | some b =>
      rw [hfind] at hne
      have hb := (hmem b).mp (List.mem_of_find?_eq_some hfind)
      have hholds : (s.buf b).dev = dev ∧ (s.buf b).sector = sector := by
        simpa using List.find?_some hfind
      obtain ⟨hdev, hsector⟩ := hholds
      simp only [Option.getD_some]
      split
      · exact ⟨s, rfl, h⟩
      rename_i hbusy
      refine ⟨_, rfl, ?_⟩
      exact h.hand b _ _ (x := { s.buf b with busy := true }) hst (by simpa using hbusy) hb.1 hb.2 rfl rfl rfl
        rfl (fun _ _ => rfl) rfl rfl rfl hdev hsector (h.moved b)
  · rw [State.victim, hvict]
    change ∃ s', (if (l.reverse.find? _).getD 0 = 0 then _ else _) = some s' ∧ _
    split
    · exact ⟨_, rfl, h.panic _⟩
    rename_i hne
    cases hfind : l.reverse.find? fun b => !(s.buf b).busy && !(s.buf b).dirty with
    | none =>
      rw [hfind] at hne
      exact absurd rfl hne
    | some b =>
      have hb := (hmem b).mp (mem_reverse.mp (List.mem_of_find?_eq_some hfind))
      have hfree : (s.buf b).busy = false := by
        have := List.find?_some hfind
        simp only [Bool.and_eq_true, Bool.not_eq_true'] at this
        exact this.1
      refine ⟨_, rfl, ?_⟩
      exact h.hand b dev sector
        (x := { s.buf b with dev, sector, busy := true, valid := false, dirty := false }) hst hfree hb.1 hb.2
        rfl rfl rfl rfl (fun c hc => update_of_ne hc _ _) rfl rfl rfl rfl rfl
        (fun hc => absurd hc Bool.false_ne_true)

lemma iderw (h : Inv nbuf s q) {st : Stage} (hout : (s.ide.phase p).buf = none) (hb : s.holder b = some p)
    (hst : st = .writing b ∨ st = .reading b (s.buf b).dev (s.buf b).sector) :
    Inv nbuf (s.iderw havedisk1 p b st) q := by
  rw [State.iderw]
  split
  · exact h.panic _
  rename_i hcheck
  have hnot := h.not_active hb hout
  have hpos := (h.held b p hb).1
  have hphase : ∀ p', ((s.ide.setPhase p (.entered b)).phase p').buf =
      if p' = p then some b else (s.ide.phase p').buf := by
    intro p'
    rw [phase_setPhase]
    split <;> rfl
  refine ⟨h.served.call (by omega) hnot hcheck, h.clean, h.listed, nodup_cons.mpr ⟨hnot, h.active_nodup⟩, ?_,
    h.busy, h.held, ?_, h.moved, h.rejected, h.reads⟩
  · intro c hc
    rcases mem_cons.mp hc with rfl | hc
    · exact ⟨p, hb, by rw [State.setStage, hphase, if_pos rfl]⟩
    obtain ⟨p', hc', hp'⟩ := h.active c hc
    refine ⟨p', hc', ?_⟩
    have hne : p' ≠ p := by
      rintro rfl
      rw [hout] at hp'
      cases hp'
    rw [State.setStage, hphase, if_neg hne]
    exact hp'
  · intro p'
    by_cases hp' : p' = p
    · rw [hp', Placed, State.stage_setStage]
      have hin : ((s.ide.setPhase p (.entered b)).phase p).buf = some b := by
        rw [hphase, if_pos rfl]
      rcases hst with rfl | rfl
      · exact ⟨hin, hb⟩
      · exact ⟨hin, hb, rfl, rfl⟩
    · refine (h.placed p').mono (update_of_ne hp' _ _) ?_ fun c hc => ⟨hc, rfl, rfl⟩
      rw [State.setStage, hphase, if_neg hp']

lemma note (h : Inv nbuf s q) (hvalid : (s.buf b).valid = true) :
    Inv nbuf { s with reads := ⟨(s.buf b).dev, (s.buf b).sector, s.buf b, s.moved b⟩ :: s.reads } q := by
  refine ⟨h.served, h.clean, h.listed, h.active_nodup, h.active, h.busy, h.held, h.placed, h.moved, h.rejected, ?_⟩
  intro r hr
  rcases mem_cons.mp hr with rfl | hr
  · exact ⟨h.moved b hvalid, hvalid, rfl, rfl⟩
  · exact h.reads r hr

lemma bread (h : Inv nbuf s q) {dev sector : UInt32} (hst : s.stage p = .got b dev sector) :
    Inv nbuf (s.bread havedisk1 p b dev sector) q := by
  have hp := h.placed p
  rw [Placed, hst] at hp
  obtain ⟨hout, hb, rfl, rfl⟩ := hp
  rw [State.bread]
  split
  · exact h.iderw hout hb (.inr rfl)
  rename_i hvalid
  have hidle : Inv nbuf (s.setStage p .idle) q := by
    refine h.setStage ?_
    rw [Placed, State.stage_setStage]
    exact hout
  have hvalid : (s.buf b).valid = true := by simpa using hvalid
  exact hidle.note (b := b) hvalid

lemma leave (h : Inv nbuf s q) {k : Nat} (hp : s.ide.phase p = .waiting b k) (hsync : (s.buf b).synced = true) :
    Inv nbuf (s.leave p b) q := by
  have hvalid : (s.buf b).valid = true := by
    rw [Buf.synced, Bool.and_eq_true] at hsync
    exact hsync.1
  have hphase : ∀ p', ((s.ide.setPhase p .out).phase p').buf = if p' = p then none else (s.ide.phase p').buf := by
    intro p'
    rw [phase_setPhase]
    split <;> rfl
  have hin : (s.ide.phase p).buf = some b := by
    rw [hp]
    rfl
  -- the driver has let the process go
  have hgone : Inv nbuf (State.setStage p .idle
      { s with ide := { s.ide.setPhase p .out with active := s.ide.active.erase b } }) q := by
    refine ⟨h.served.wake hp hsync, h.clean, h.listed, h.active_nodup.erase b, ?_, h.busy, h.held, ?_, h.moved,
      h.rejected, h.reads⟩
    · intro c hc
      obtain ⟨hcb, hc⟩ := h.active_nodup.mem_erase_iff.mp hc
      obtain ⟨p', hc', hp'⟩ := h.active c hc
      refine ⟨p', hc', ?_⟩
      have hne : p' ≠ p := by
        rintro rfl
        exact hcb (Option.some.inj (hp'.symm.trans hin))
      rw [State.setStage, hphase, if_neg hne]
      exact hp'
    · intro p'
      by_cases hpp : p' = p
      · rw [hpp, Placed, State.stage_setStage, State.setStage]
        change ((s.ide.setPhase p .out).phase p).buf = none
        rw [hphase, if_pos rfl]
      · refine (h.placed p').mono (update_of_ne hpp _ _) ?_ fun c hc => ⟨hc, rfl, rfl⟩
        rw [State.setStage, hphase, if_neg hpp]
  have hplaced := h.placed p
  rw [State.leave]
  split
  · rename_i c dev sector hst
    rw [Placed, hst] at hplaced
    obtain ⟨hc, -, rfl, rfl⟩ := hplaced
    have hcb : c = b := Option.some.inj (hc.symm.trans hin)
    rw [hcb]
    exact hgone.note (b := b) hvalid
  · exact hgone

/-- A step of the driver that leaves the buffers alone. -/
lemma drive {ide : Ide.State D} {q' : List Nat} (h : Inv nbuf s q) (hserved : Served ide q')
    (hclean : ide.drv.done ≠ some false) (hbuf : ide.drv.buf = s.ide.drv.buf) (hactive : ide.active = s.ide.active)
    (hphase : ∀ p', (ide.phase p').buf = (s.ide.phase p').buf) : Inv nbuf { s with ide } q' := by
  have hsame : ∀ c, ide.drv.buf c = s.buf c := fun c => by rw [hbuf]; rfl
  refine ⟨hserved, hclean, h.listed, hactive ▸ h.active_nodup, ?_, ?_, h.held, ?_, ?_, h.rejected, h.reads⟩
  · intro c hc
    obtain ⟨p', hc', hp'⟩ := h.active c (hactive ▸ hc)
    exact ⟨p', hc', (hphase p').trans hp'⟩
  · intro c
    exact (congrArg Buf.busy (hsame c)).trans (h.busy c)
  · intro p'
    refine (h.placed p').mono rfl (hphase p') fun c hc => ⟨hc, ?_, ?_⟩
    · exact congrArg Buf.dev (hsame c)
    · exact congrArg Buf.sector (hsame c)
  · intro c hc
    exact h.moved c ((congrArg Buf.valid (hsame c)).symm.trans hc)

lemma append (h : Inv nbuf s q) (hp : s.ide.phase p = .entered b) :
    ∃ drv, s.ide.drv.append (s.ide.queued.length + 1) b = some drv ∧
      Inv nbuf { s with ide := { s.ide.setPhase p (.waiting b s.ide.queued.length) with
        drv, queued := s.ide.queued ++ [b] } } (q ++ [b]) := by
  obtain ⟨drv, happend, hbuf, -, hnil, hcons, hserved⟩ := h.served.append hp
  have hphase : ∀ p', ((s.ide.setPhase p (.waiting b s.ide.queued.length)).phase p').buf = (s.ide.phase p').buf := by
    intro p'
    rw [phase_setPhase]
    split
    · rename_i hpp
      rw [hpp, hp]
      rfl
    · rfl
  have hclean : drv.done ≠ some false := by
    by_cases hq : q = []
    · rw [(hnil hq).2]
      exact nofun
    · rw [(hcons hq).2]
      exact h.clean
  exact ⟨drv, happend, h.drive hserved hclean hbuf rfl hphase⟩

lemma perform (h : Inv nbuf s q) : Inv nbuf { s with ide := { s.ide with drv := s.ide.drv.perform true } } q := by
  have hperf : (s.ide.drv.perform true).buf = s.ide.drv.buf ∧ (s.ide.drv.perform true).done ≠ some false := by
    rw [Ide.Driver.perform]
    split
    · exact ⟨rfl, by simp⟩
    · exact ⟨rfl, h.clean⟩
  exact h.drive (h.served.perform true) hperf.2 hperf.1 rfl fun _ => rfl

lemma ideintr (h : Inv nbuf s q) (hdone : s.ide.drv.done.isSome = true) : ∃ q', Inv nbuf s.ideintr q' := by
  obtain ⟨b, l, rfl, hhead, hserved⟩ := h.served.ideintr hdone
  have htrue : s.ide.drv.done = some true := by
    obtain ⟨ok, hok⟩ := Option.isSome_iff_exists.mp hdone
    cases ok with
    | true => exact hok
    | false => exact absurd hok h.clean
  have hcommand : s.ide.drv.command = some (s.buf b).request := h.served.command
  obtain ⟨-, hbuf, -, hnone, -⟩ := h.served.queue.ideintr
  have hself : s.ideintr.buf b = s.ide.drv.finished (s.buf b) := by
    change s.ide.drv.ideintr.buf b = _
    rw [hbuf]
    exact Table.get_set_self _ _ _
  have hother : ∀ c, c ≠ b → s.ideintr.buf c = s.buf c := by
    intro c hc
    change s.ide.drv.ideintr.buf c = _
    rw [hbuf]
    exact Table.get_set_ne _ _ hc
  have hkeep : ∀ c, (s.ideintr.buf c).busy = (s.buf c).busy ∧ (s.ideintr.buf c).dev = (s.buf c).dev ∧
      (s.ideintr.buf c).sector = (s.buf c).sector := by
    intro c
    by_cases hc : c = b
    · rw [hc, hself]
      exact ⟨rfl, rfl, rfl⟩
    · rw [hother c hc]
      exact ⟨rfl, rfl, rfl⟩
  refine ⟨l, ?_, ?_, h.listed, h.active_nodup, h.active, ?_, h.held, ?_, ?_, ?_, h.reads⟩
  · rw [← hhead] at hserved
    exact hserved
  · change s.ide.drv.ideintr.done ≠ some false
    rw [hnone]
    exact nofun
  · intro c
    exact (hkeep c).1.trans (h.busy c)
  · intro p'
    exact (h.placed p').mono rfl rfl fun c hc => ⟨hc, (hkeep c).2⟩
  · intro c hc
    change Function.update s.moved s.ide.drv.idequeue _ c = true
    rw [hhead]
    by_cases hcb : c = b
    · rw [hcb, update_self, Bool.or_eq_true]
      refine .inr (decide_eq_true ⟨htrue, ?_⟩)
      rw [hcommand]
      rfl
    · rw [update_of_ne hcb]
      rw [hother c hcb] at hc
      exact h.moved c hc
  · change (s.rejected || _) = false
    rw [h.rejected, htrue]
    simp

end Inv

/-! ## Runs -/

lemma binit_listed (n : Nat) : Listed n (binit n) := by
  induction n with
  | zero => exact ⟨[], ⟨rfl, rfl, trivial⟩, by simp, fun b => by simp; omega⟩
  | succ n ih =>
    obtain ⟨l, hring, hnodup, hmem⟩ := ih
    have hn : n + 1 ∉ 0 :: l := by
      rw [mem_cons, not_or, hmem]
      omega
    refine ⟨(n + 1) :: l, hring.pushFront hnodup hn,
      (List.Perm.swap (n + 1) 0 l).nodup_iff.mpr (nodup_cons.mpr ⟨hn, hnodup⟩), fun b => ?_⟩
    rw [mem_cons, hmem]
    omega

lemma boot_inv (nbuf : Nat) (zero : D) (contents : Ports → D) : Inv nbuf (boot nbuf zero contents) [] where
  served := Ide.boot_served _ contents
  clean := nofun
  listed := binit_listed nbuf
  active_nodup := nodup_nil
  active := nofun
  busy := fun _ => rfl
  held := nofun
  placed := fun _ => rfl
  moved := fun _ hc => absurd hc Bool.false_ne_true
  rejected := rfl
  reads := nofun

lemma asHolder_inv {f : State D → State D} (h : Inv nbuf s q)
    (hf : s.stage p = .idle → s.holder b = some p → Inv nbuf (f s) q) : Inv nbuf (s.asHolder p b f) q := by
  rw [State.asHolder]
  split
  · split
    · exact hf ‹_› ‹_›
    · exact h
  · exact h

lemma step_inv {e : Event D} (h : Inv nbuf s q) (he : e ≠ .perform false) :
    ∃ s' q', s.step nbuf havedisk1 e = some s' ∧ Inv nbuf s' q' := by
  cases e with
  | bget p dev sector =>
    simp only [State.step]
    split
    · obtain ⟨s', hs', hinv⟩ := h.bget dev sector ‹_›
      exact ⟨s', q, hs', hinv⟩
    · exact ⟨s, q, rfl, h⟩
  | bread p =>
    simp only [State.step]
    split
    · exact ⟨_, q, rfl, h.bread ‹_›⟩
    · exact ⟨s, q, rfl, h⟩
  | bwrite p b => exact ⟨_, q, rfl, asHolder_inv h h.bwrite⟩
  | iderw p =>
    simp only [State.step]
    split
    · rename_i b hst
      have hp := h.placed p
      rw [Placed, hst] at hp
      exact ⟨_, q, rfl, h.iderw hp.1 hp.2 (.inl rfl)⟩
    · exact ⟨s, q, rfl, h⟩
  | modify p b d =>
    exact ⟨_, q, rfl, asHolder_inv h fun hst hb => h.modify (x := { s.buf b with data := d }) hst hb rfl rfl⟩
  | logDirty p b =>
    exact ⟨_, q, rfl, asHolder_inv h fun hst hb => h.modify (x := { s.buf b with dirty := true }) hst hb rfl rfl⟩
  | brelse p b => exact ⟨_, q, rfl, asHolder_inv h h.brelse⟩
  | append p =>
    simp only [State.step]
    split
    · obtain ⟨drv, happend, hinv⟩ := h.append ‹_›
      rw [happend]
      exact ⟨_, _, rfl, hinv⟩
    · exact ⟨s, q, rfl, h⟩
  | wake p =>
    simp only [State.step]
    split
    · split
      · exact ⟨_, q, rfl, h.leave ‹_› ‹_›⟩
      · exact ⟨s, q, rfl, h⟩
    · exact ⟨s, q, rfl, h⟩
  | perform ok =>
    cases ok with
    | true => exact ⟨_, q, rfl, h.perform⟩
    | false => exact absurd rfl he
  | ideintr =>
    simp only [State.step]
    split
    · obtain ⟨q', hinv⟩ := h.ideintr ‹_›
      exact ⟨_, q', rfl, hinv⟩
    · exact ⟨s, q, rfl, h⟩

lemma run_inv (havedisk1 : Bool) (evs : List (Event D)) (h : Inv nbuf s q) (hok : .perform false ∉ evs) :
    ∃ s' q', s.run nbuf havedisk1 evs = some s' ∧ Inv nbuf s' q' := by
  induction evs generalizing s q with
  | nil => exact ⟨s, q, rfl, h⟩
  | cons e evs ih =>
    obtain ⟨hne, hrest⟩ := not_or.mp (mem_cons.not.mp hok)
    rw [State.run, State.next]
    split
    · exact ih h hrest
    · obtain ⟨s', q', hstep, h'⟩ := step_inv (e := e) h (Ne.symm hne)
      rw [hstep]
      exact ih h' hrest

/-- Every run in which no command ends in an error: valid buffers hold transferred data, `bread` has returned only
such buffers, each for the sector it was asked for, and no rejected write has lost its `B_DIRTY`. -/
theorem valid_transferred (nbuf : Nat) (havedisk1 : Bool) (zero : D) (contents : Ports → D) (evs : List (Event D))
    (hok : .perform false ∉ evs) :
    ∃ s, (boot nbuf zero contents).run nbuf havedisk1 evs = some s ∧
      (∀ b, (s.buf b).valid = true → s.moved b = true) ∧ s.rejected = false ∧
      ∀ r ∈ s.reads, r.moved = true ∧ r.buf.valid = true ∧ r.buf.dev = r.dev ∧ r.buf.sector = r.sector := by
  obtain ⟨s, q, hrun, h⟩ := run_inv havedisk1 evs (boot_inv nbuf zero contents) hok
  exact ⟨s, hrun, h.moved, h.rejected, h.reads⟩

def readSector (ok : Bool) (sector : UInt32) : List (Event Nat) :=
  [.bget 0 1 sector, .bread 0, .append 0, .perform ok, .ideintr, .wake 0]

theorem valid_transferred_readSector : .perform false ∉ readSector true 5 ∧
    ∃ s, (boot Bcache.NBUF 0 fun a => a.low.toNat).run Bcache.NBUF true (readSector true 5) = some s ∧
      (s.buf 1).valid = true ∧ s.moved 1 = true ∧ (s.buf 1).data = 5 := by
  have hok : .perform false ∉ readSector true 5 := by simp [readSector]
  refine ⟨hok, ?_⟩
  obtain ⟨s, hrun, -⟩ := valid_transferred Bcache.NBUF true 0 (fun a => a.low.toNat) (readSector true 5) hok
  refine ⟨s, hrun, ?_⟩
  cases hrun
  exact ⟨rfl, rfl, rfl⟩

/-- Sectors 1 to 10 are read and released, which takes all buffers. Then a read of sector 20 ends in an error, and a
write to it too. -/
def failedRead : List (Event Nat) :=
  ((List.range 10).flatMap fun i => readSector true (UInt32.ofNat (i + 1)) ++ [.brelse 0 (i + 1)]) ++
    readSector false 20 ++ [.modify 0 1 7, .bwrite 0 1, .iderw 0, .append 0, .perform false, .ideintr, .wake 0]

theorem bread_leftover :
    ∃ s r, (boot Bcache.NBUF 0 fun a => a.low.toNat).run Bcache.NBUF true failedRead = some s ∧ r ∈ s.reads ∧
      (r.sector = 20 ∧ r.buf.valid = true ∧ r.moved = false ∧ r.buf.data = 1) ∧
      (s.buf 1).sector = 20 ∧ (s.buf 1).valid = true ∧ s.moved 1 = false ∧ (s.buf 1).dirty = false ∧
      s.rejected = true := by
  have h : ((boot Bcache.NBUF 0 fun a => a.low.toNat).run Bcache.NBUF true failedRead).any (fun s =>
      s.reads.any (fun r => r.sector = 20 ∧ r.buf.valid = true ∧ r.moved = false ∧ r.buf.data = 1) &&
      ((s.buf 1).sector = 20 ∧ (s.buf 1).valid = true ∧ s.moved 1 = false ∧ (s.buf 1).dirty = false ∧
        s.rejected = true)) = true := by
    decide +kernel
  cases hrun : (boot Bcache.NBUF 0 fun a => a.low.toNat).run Bcache.NBUF true failedRead with
  | none =>
    rw [hrun] at h
    cases h
  | some s =>
    rw [hrun, Option.any_some, Bool.and_eq_true, any_eq_true] at h
    obtain ⟨⟨r, hr, hread⟩, hs⟩ := h
    exact ⟨s, r, rfl, hr, of_decide_eq_true hread, of_decide_eq_true hs⟩

end Xv6.DiskCache
