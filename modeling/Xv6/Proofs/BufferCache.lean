import Xv6.Proofs.Buffers
import Xv6.Lib.Schedule

/-! # The buffer cache is transparent -/

namespace Xv6.Bcache

open Threads Fs List

variable {D : Type} {x : Buf D} {s s' : State D} {p : Pid} {b i nbuf : Nat} {havedisk1 : Bool}
  {N : UInt32 → UInt32 → Prop}

/-! ## Held buffers -/

lemma Waits.out {l : List Nat} {f y : Bool} (h : Waits p none b l f y s) :
    b ∉ s.queue ∧ (s.buf b).valid = true :=
  h.calm.rest b h.own nofun

lemma Calm.waits {l : List Nat} (h : Calm p none l s) (hb : b ∈ l) :
    Waits p none b l (s.buf b).fresh (s.buf b).synced s :=
  ⟨h, h.held b hb, rfl, rfl⟩

lemma Holding.waits {l : List Nat} (h : Holding p b l x s) (hv : x.valid = true) :
    Waits p none b l x.fresh x.synced s := by
  refine ⟨⟨fun i hp _ => ?_, h.calm.held⟩, h.own, by rw [h.buf], by rw [h.buf]⟩
  by_cases hib : i = b
  · subst hib
    exact ⟨h.out, by rw [h.buf, hv]⟩
  · exact h.calm.rest i hp fun h => hib (Option.some.inj h)

lemma Waits.change {l : List Nat} {f y : Bool} (h : Waits p none b l f y s) (hi : Inv nbuf N s)
    (hok : x.Ok) (hkey : x.dev = (s.buf b).dev ∧ x.sector = (s.buf b).sector) (ho : x.owners = (s.buf b).owners)
    (hc : ∀ d l, (s.buf b).Holds d l → x.Holds d l) :
    Good nbuf N p s (s.setBuf b x) ∧ Holding p b l x (s.setBuf b x) := by
  have hown := (hi.shape.ok b).owners_eq h.own
  have hnamed := hi.shape.named b (.inr (by simp [hown]))
  refine ⟨good_setBuf hi hok hkey ⟨ho.trans hown, hnamed.1, ?_⟩ h.out.1 (by simp [hown]) hc,
    ⟨fun i hp hw => ?_, fun i hil => ?_⟩, ?_, h.out.1, by simp⟩
  · rw [hkey.1, hkey.2]
    exact hnamed.2
  · have hib : i ≠ b := fun hib => hw (congrArg some hib)
    simp only [State.setBuf_buf, if_neg hib] at hp ⊢
    exact h.calm.rest i hp nofun
  · by_cases hib : i = b
    · simpa [hib, ho] using h.own
    · simp only [State.setBuf_buf, if_neg hib]
      exact h.calm.held i hil
  · simpa [ho] using h.own

lemma wp_setDirty {l : List Nat} {f y : Bool} (hs : Waits p none b l f y s) :
    Spec nbuf havedisk1 N p (act (.setDirty b))
      (fun _ s => ∃ x, Holding p b l x s ∧ x.valid = true ∧ x.dirty = true ∧ x.fresh = f ∧ x.synced = true) s := by
  refine wp_step (fun _ _ he h => h.env he) (fun s r s' hi _ hk he => ?_) hs
  have hv := hk.out.2
  have hok := hi.shape.ok b
  cases he
  obtain ⟨hgood, hhold⟩ := hk.change (x := { s.buf b with dirty := true, synced := true }) hi
    ⟨hok.one, hok.busy, fun h => ⟨(hok.free h).1, rfl⟩, fun h => absurd (hv.symm.trans h) nofun⟩ ⟨rfl, rfl⟩ rfl
    fun d l h => ⟨h.empty, h.fresh, nofun⟩
  exact ⟨hgood, _, hhold, hv, rfl, hk.fresh, rfl⟩

lemma wp_modify {l : List Nat} {f y : Bool} (g : D → D) (hs : Waits p none b l f y s) :
    Spec nbuf havedisk1 N p (act (.modify b g)) (fun _ => Waits p none b l false false) s := by
  refine wp_step (fun _ _ he h => h.env he) (fun s r s' hi _ hk he => ?_) hs
  have hv := hk.out.2
  have hok := hi.shape.ok b
  cases he
  obtain ⟨hgood, hhold⟩ := hk.change
    (x := { s.buf b with data := g (s.buf b).data, fresh := false, synced := false }) hi
    ⟨hok.one, hok.busy, fun h => absurd h (ne_nil_of_mem hk.own), fun h => absurd (hv.symm.trans h) nofun⟩
    ⟨rfl, rfl⟩ rfl fun d l h => ⟨h.empty, nofun, nofun⟩
  exact ⟨hgood, hhold.waits hv⟩

lemma wp_note {l : List Nat} {y : Bool} (hs : Waits p none b l true y s) :
    Spec nbuf havedisk1 N p (act (.note b)) (fun _ => Waits p none b l true y) s := by
  refine wp_step (fun _ _ he h => h.env he) (fun s r s' hi _ hk he => ?_) hs
  have hN := (hi.shape.named b (.inr (ne_nil_of_mem hk.own))).2
  cases he
  refine ⟨⟨⟨⟨hi.shape.listed, hi.shape.ok, hi.shape.uniq, hi.shape.named, ?_⟩, fun hsep => ?_⟩, fun q _ => ?_⟩, ?_⟩
  · exact ⟨hi.shape.queue.nodup, hi.shape.queue.mem, hi.shape.queue.command⟩
  · have hcon := hi.contents hsep
    refine ⟨hcon.buf, hcon.home, fun r hr => ?_⟩
    rcases mem_cons.mp hr with rfl | hr
    · exact (hcon.buf b (hsep.dev _ _ hN)).fresh hk.out.2 hk.fresh
    · exact hcon.reads r hr
  · exact ⟨fun _ => .rfl, fun _ _ h => ⟨rfl, h⟩, fun _ _ => ⟨rfl, rfl⟩⟩
  · exact ⟨⟨hk.calm.rest, hk.calm.held⟩, hk.own, hk.fresh, hk.synced⟩

lemma Listed.moveFront {L : Links} (h : Listed nbuf L) (hb : b < nbuf) :
    Listed nbuf ((L.unlink b).pushFront nbuf b) := by
  obtain ⟨l, hr, hd, hmem⟩ := h
  obtain ⟨l₁, l₂, rfl⟩ := append_of_mem ((hmem b).mpr hb)
  have hperm : (b :: (l₁ ++ l₂)).Perm (l₁ ++ b :: l₂) := perm_middle.symm
  have hd' : (nbuf :: b :: (l₁ ++ l₂)).Nodup := (hperm.cons nbuf).nodup_iff.mpr hd
  have hd₁ : (nbuf :: (l₁ ++ l₂)).Nodup := by
    refine hd'.sublist ?_
    exact List.Sublist.cons_cons nbuf (sublist_cons_self b _)
  have hbn : b ∉ nbuf :: (l₁ ++ l₂) := by
    rw [mem_cons, not_or]
    exact ⟨by omega, (nodup_cons.mp (nodup_cons.mp hd').2).1⟩
  exact ⟨b :: (l₁ ++ l₂), (hr.unlink hd).pushFront hd₁ hbn, hd', fun i => by rw [hperm.mem_iff, hmem]⟩

lemma setSector_other {f : UInt32 → UInt32 → D} {dev sector v n : UInt32} {d : D} (h : ¬(v = dev ∧ n = sector)) :
    setSector f dev sector d v n = f v n :=
  if_neg h

lemma wp_release {l : List Nat} {f : Bool} (hs : Waits p none b l f true s) (hb : b ∉ l) :
    Spec nbuf havedisk1 N p (act (.brelse b)) (fun _ => Calm p none l) s := by
  refine wp_step (fun _ _ he h => h.env he) (fun s r s' hi _ hk he => ?_) hs
  have hok := hi.shape.ok b
  have hown := hok.owners_eq hk.own
  obtain ⟨hlt, hN⟩ := hi.shape.named b (.inr (by simp [hown]))
  obtain ⟨hout, hv⟩ := hk.out
  rw [exec] at he
  generalize hx : ({ s.buf b with busy := false, owners := (s.buf b).owners.erase p, fresh := true } : Buf D) = x at he
  have hxo : x.owners = [] := by rw [← hx]; simp [hown]
  have hxs : x.dev = (s.buf b).dev ∧ x.sector = (s.buf b).sector ∧ x.data = (s.buf b).data ∧ x.busy = false ∧
      x.valid = true ∧ x.dirty = (s.buf b).dirty ∧ x.fresh = true ∧ x.synced = true := by
    rw [← hx]
    exact ⟨rfl, rfl, rfl, rfl, hv, rfl, rfl, hk.synced⟩
  obtain ⟨hdev, hsec, hdata, hbusy, hvalid, hdirty, hfresh, hsync⟩ := hxs
  cases he
  have hne : ∀ i, i ≠ b → (s.setBuf b x).buf i = s.buf i := fun i hib => by simp [hib]
  have hbb : (s.setBuf b x).buf b = x := by simp
  refine ⟨⟨⟨?_, fun hsep => ?_⟩, fun q hqp => ?_⟩, fun i hp _ => ?_, fun i hil => ?_⟩
  · refine hi.shape.update (b := b) (hi.shape.listed.moveFront hlt) hne ?_ (fun _ => ?_) (fun hd i hib hiv => ?_)
      (hi.shape.queue.update hne hout rfl rfl)
    · change ((s.setBuf b x).buf b).Ok
      rw [hbb]
      exact ⟨by simp [hxo], by simp [hxo, hbusy], fun _ => ⟨hfresh, hsync⟩,
        fun h => Bool.noConfusion (hvalid.symm.trans h)⟩
    · change b < nbuf ∧ N ((s.setBuf b x).buf b).dev ((s.setBuf b x).buf b).sector
      rw [hbb, hdev, hsec]
      exact ⟨hlt, hN⟩
    · change ((s.setBuf b x).buf b).dev ≠ noDev at hd
      change (s.buf i).dev = ((s.setBuf b x).buf b).dev at hiv
      change (s.buf i).sector ≠ ((s.setBuf b x).buf b).sector
      rw [hbb, hdev] at hd hiv
      rw [hbb, hsec]
      exact hi.shape.alone hd hib hiv
  · have hcon := hi.contents hsep
    have hbdev := hsep.dev _ _ hN
    refine ⟨fun i hd => ?_, fun v n hn hall => ?_, hcon.reads⟩
    · change ((s.setBuf b x).buf i).Holds (s.onDisk ((s.setBuf b x).buf i).dev ((s.setBuf b x).buf i).sector)
        (setSector s.last (s.buf b).dev (s.buf b).sector (s.buf b).data ((s.setBuf b x).buf i).dev
          ((s.setBuf b x).buf i).sector)
      change ((s.setBuf b x).buf i).dev ≠ noDev at hd
      by_cases hib : i = b
      · subst hib
        have hold := hcon.buf i hbdev
        rw [hbb, hdev, hsec, setSector, if_pos ⟨rfl, rfl⟩]
        refine ⟨fun h => Bool.noConfusion (hvalid.symm.trans h), fun _ _ => hdata, fun _ _ hd => ?_⟩
        rw [hdata]
        exact hold.synced hv hk.synced (hdirty ▸ hd)
      · rw [hne i hib] at hd ⊢
        rw [setSector_other fun h => hi.shape.alone hbdev hib h.1 h.2]
        exact hcon.buf i hd
    · have hkey : ¬(v = (s.buf b).dev ∧ n = (s.buf b).sector) := by
        rintro ⟨rfl, rfl⟩
        have := hall b
        change ((s.setBuf b x).buf b).dev = _ → ((s.setBuf b x).buf b).sector ≠ _ at this
        rw [hbb] at this
        exact this hdev hsec
      change s.onDisk v n = setSector s.last (s.buf b).dev (s.buf b).sector (s.buf b).data v n
      rw [setSector_other hkey]
      refine hcon.home v n hn fun i hiv hin => ?_
      by_cases hib : i = b
      · subst hib
        exact hkey ⟨hiv.symm, hin.symm⟩
      have := hall i
      change ((s.setBuf b x).buf i).dev = _ → ((s.setBuf b x).buf i).sector ≠ _ at this
      rw [hne i hib] at this
      exact this hiv hin
  · refine .of_other (b := b) hne (fun _ _ h => h) (by simp [hown, hqp]) ?_
    change q ∉ ((s.setBuf b x).buf b).owners
    simp [hbb, hxo]
  · change p ∈ ((s.setBuf b x).buf i).owners at hp
    change i ∉ s.queue ∧ ((s.setBuf b x).buf i).valid = true
    have hib : i ≠ b := by
      rintro rfl
      simp [hbb, hxo] at hp
    rw [hne i hib] at hp ⊢
    exact hk.calm.rest i hp (Option.some_ne_none i)
  · change p ∈ ((s.setBuf b x).buf i).owners
    rw [hne i fun hib => hb (hib ▸ hil)]
    exact hk.calm.held i hil

/-! ## Programs -/

lemma wp_panic (e : Panic) {U : Unit → State D → Prop} :
    Spec nbuf havedisk1 N p (act (.panic e)) U s :=
  wp_step (S := fun _ => True) (fun _ _ _ _ => trivial) (fun _ _ _ _ _ _ he => (by cases he)) trivial

lemma wp_log {a : Act D} {S : State D → Prop}
    (ha : ∀ s r s', exec nbuf p a s = .next r s' → ∃ l, s' = { s with log := l })
    (hS : ∀ s s', Env p s s' → S s → S s') (hs : S s) :
    Spec nbuf havedisk1 N p (act a) (fun _ => S) s := by
  refine wp_step hS (fun s r s' hi _ hk he => ?_) hs
  obtain ⟨lg, rfl⟩ := ha s r s' he
  have henv : ∀ q, Env q s { s with log := lg } := fun q =>
    ⟨fun _ => .rfl, fun _ _ h => ⟨rfl, h⟩, fun _ _ => ⟨rfl, rfl⟩⟩
  refine ⟨⟨hi.of_queue ?_ rfl rfl rfl rfl rfl, fun q _ => henv q⟩, hS _ _ (henv p) hk⟩
  exact ⟨hi.shape.queue.nodup, hi.shape.queue.mem, hi.shape.queue.command⟩

lemma wp_buf {l : List Nat} (hs : Holding p b l x s) :
    Spec nbuf havedisk1 N p (act (.buf b)) (fun y s => y = x ∧ Holding p b l x s) s := by
  refine wp_step (fun _ _ he h => h.env he) (fun s r s' hi _ hk he => ?_) hs
  cases he
  exact ⟨.refl hi, hk.buf, hk⟩

lemma wp_look {S : State D → Prop} (hS : ∀ s s', Env p s s' → S s → S s') (hs : S s) :
    Spec nbuf havedisk1 N p (act (.buf b)) (fun _ => S) s :=
  wp_log (fun s _ _ he => ⟨s.log, by cases he; rfl⟩) hS hs

lemma wp_iderw {l : List Nat} (hs : Holding p b l x s) (hf : x.valid = false ∨ x.dirty = true) :
    Spec nbuf havedisk1 N p (iderw havedisk1 b)
      (fun _ => Waits p none b l x.fresh x.synced) s := by
  refine wp_seq (wp_buf hs) fun y s h => ?_
  split
  · exact wp_panic _
  split
  · exact wp_panic _
  · split
    · exact wp_panic _
    · exact wp_seq (wp_enqueue h.2 hf) fun _ s h => wp_wait h

lemma wp_bread {l : List Nat} (dev sector : UInt32) (hs : Calm p none l s) :
    Spec nbuf havedisk1 N p (bread havedisk1 dev sector)
      (fun b s => b ∉ l ∧ ∃ y, Waits p none b l true y s) s := by
  refine wp_seq (wp_bget dev sector hs) fun b s h => ?_
  obtain ⟨hbl, x, hhold, hfresh⟩ := h
  have hnote : ∀ s : State D, Waits p none b l x.fresh x.synced s →
      Spec nbuf havedisk1 N p (act (.note b) >>= fun _ => pure b : Kprog D Nat)
        (fun b s => b ∉ l ∧ ∃ y, Waits p none b l true y s) s := by
    intro s h
    rw [hfresh] at h
    exact wp_seq (wp_note h) fun _ s h => wp_ret ⟨hbl, _, h⟩
  refine wp_seq (wp_buf hhold) fun y s h => ?_
  obtain ⟨rfl, h⟩ := h
  split
  · rename_i hv
    exact wp_seq (wp_iderw h (.inl (by simpa using hv))) fun _ s h => hnote s h
  · rename_i hv
    exact hnote s (h.waits (by simpa using hv))

lemma wp_bwrite {l : List Nat} {f y : Bool} (hs : Waits p none b l f y s) :
    Spec nbuf havedisk1 N p (bwrite havedisk1 b) (fun _ => Waits p none b l f true) s := by
  refine wp_seq (wp_look (fun _ _ he h => h.env he) hs) fun x s h => ?_
  split
  · exact wp_panic _
  · refine wp_seq (wp_setDirty h) fun _ s h => ?_
    obtain ⟨x, hhold, -, hd, rfl, hsync⟩ := h
    exact wp_mono (wp_iderw hhold (.inr hd)) fun _ _ h => hsync ▸ h

lemma wp_brelse {l : List Nat} {f : Bool} (hs : Waits p none b l f true s) (hb : b ∉ l) :
    Spec nbuf havedisk1 N p (brelse b) (fun _ => Calm p none l) s := by
  refine wp_seq (wp_look (fun _ _ he h => h.env he) hs) fun x s h => ?_
  split
  · exact wp_panic _
  · exact wp_release h hb

lemma wp_logWrite {l : List Nat} (hs : Calm p none l s) (hb : b ∈ l) :
    Spec nbuf havedisk1 N p (logWrite havedisk1 b) (fun _ => Calm p none l) s := by
  refine wp_seq (wp_log (fun s _ _ he => ⟨s.log, by cases he; rfl⟩) (fun _ _ he h => Calm.env h he) hs) fun lg s h => ?_
  split
  · exact wp_panic _
  split
  · exact wp_panic _
  refine wp_seq (wp_look (fun _ _ he h => Calm.env h he) h) fun x s h => ?_
  refine wp_seq (wp_log (fun s _ _ he => ⟨_, by cases he; rfl⟩) (fun _ _ he h => Calm.env h he) h) fun _ s h => ?_
  refine wp_seq (wp_bread _ _ h) fun lbuf s h => ?_
  obtain ⟨hl, y, h⟩ := h
  refine wp_seq (wp_look (fun _ _ he h => Waits.env h he) h) fun x s h => ?_
  refine wp_seq (wp_modify _ h) fun _ s h => ?_
  refine wp_seq (wp_bwrite h) fun _ s h => ?_
  refine wp_seq (wp_brelse h hl) fun _ s h => ?_
  have hpin : ∀ s : State D, Calm p none l s →
      Spec nbuf havedisk1 N p (act (.setDirty b)) (fun _ => Calm p none l) s := by
    intro s h
    refine wp_mono (wp_setDirty (h.waits hb)) fun _ s h => ?_
    obtain ⟨x, hhold, hv, -⟩ := h
    exact (hhold.waits hv).calm
  refine wp_seq (wp_log (fun s _ _ he => ⟨s.log, by cases he; rfl⟩) (fun _ _ he h => Calm.env h he) h)
    fun lg' s h => ?_
  split
  · exact wp_seq (wp_log (fun s _ _ he => ⟨_, by cases he; rfl⟩) (fun _ _ he h => Calm.env h he) h)
      fun _ s h => hpin s h
  · exact hpin s h

/-! ## Whole runs -/

lemma wp_self {S : State D → Prop} (hS : ∀ s s', Env p s s' → S s → S s') (hs : S s) :
    Spec nbuf havedisk1 N p (act .self) (fun q s => q = p ∧ S s) s := by
  refine wp_step hS (fun s r s' hi _ hk he => ?_) hs
  cases he
  exact ⟨.refl hi, rfl, hk⟩

lemma wp_own {g : Pid → Buf D → Kprog D Unit} {U : Unit → State D → Prop} (hs : Calm p none [] s)
    (h : ∀ x s, Calm p none [] s → (p ∈ x.owners → Calm p none [b] s ∧ Waits p none b [] x.fresh x.synced s) →
      Spec nbuf havedisk1 N p (g p x) U s) :
    Spec nbuf havedisk1 N p (act .self >>= fun q => act (.buf b) >>= fun x => g q x) U s := by
  refine wp_seq (wp_self (fun _ _ he h => Calm.env h he) hs) fun q s hq => ?_
  obtain ⟨rfl, hs⟩ := hq
  refine wp_bind (wp_step (fun _ _ he h => Calm.env h he) (fun s x s' hi _ hk he => ?_) hs)
  cases he
  refine ⟨.refl hi, h (s.buf b) s hk fun hp => ⟨⟨hk.rest, fun i hib => ?_⟩, hk, hp, rfl, rfl⟩⟩
  rw [mem_singleton.mp hib]
  exact hp

lemma Calm.forget {l : List Nat} (h : Calm p none l s) : Calm p none [] s := ⟨h.rest, nofun⟩

lemma wp_cacheCall (x : Call D) (hs : Calm p none [] s) :
    Spec nbuf havedisk1 N p (x.body havedisk1) (fun _ => Calm p none []) s := by
  cases x with
  | bread dev sector =>
    refine wp_seq (wp_bread dev sector hs) fun b s h => ?_
    obtain ⟨-, y, h⟩ := h
    exact wp_ret h.calm
  | modify b f =>
    refine wp_own hs fun x s hs h => ?_
    split
    · exact wp_mono (wp_modify f (h ‹_›).2) fun _ _ h => h.calm
    · exact wp_ret hs
  | bwrite b =>
    refine wp_own hs fun x s hs h => ?_
    split
    · exact wp_mono (wp_bwrite (h ‹_›).2) fun _ _ h => h.calm
    · exact wp_ret hs
  | logWrite b =>
    refine wp_own hs fun x s hs h => ?_
    split
    · exact wp_mono (wp_logWrite (h ‹_›).1 (by simp)) fun _ _ h => h.forget
    · exact wp_ret hs
  | brelse b =>
    refine wp_own hs fun x s hs h => ?_
    split
    · rename_i hx
      exact wp_brelse (hx.2 ▸ (h hx.1).2) nofun
    · exact wp_ret hs
  | setLog l => exact wp_log (fun s _ _ he => ⟨l, by cases he; rfl⟩) (fun _ _ he h => Calm.env h he) hs
  | interrupt =>
    refine wp_step (fun _ _ he h => Calm.env h he) (fun s r s' hi _ hk he => ?_) hs
    cases he
    obtain ⟨hinv, henv⟩ := ideintr_good hi
    exact ⟨⟨hinv, fun q _ => henv q⟩, hk.env (henv p)⟩

lemma binit_ring (n : Nat) (h : n ≤ nbuf) :
    ∃ l, (binit nbuf n).Ring nbuf l ∧ (nbuf :: l).Nodup ∧ ∀ b, b ∈ l ↔ b < n := by
  induction n with
  | zero => exact ⟨[], ⟨rfl, rfl, trivial⟩, by simp, by simp⟩
  | succ n ih =>
    obtain ⟨l, hr, hd, hmem⟩ := ih (by omega)
    have hn : n ∉ nbuf :: l := by
      rw [mem_cons, not_or, hmem]
      exact ⟨by omega, by omega⟩
    refine ⟨n :: l, hr.pushFront hd hn, (List.Perm.swap n nbuf l).nodup_iff.mpr (nodup_cons.mpr ⟨hn, hd⟩),
      fun b => ?_⟩
    rw [mem_cons, hmem]
    omega

lemma boot_inv (nbuf : Nat) (N : UInt32 → UInt32 → Prop) (zero : D) (disk : Ports → D) (log : LogHead) :
    Inv nbuf N (boot nbuf zero disk log) := by
  have hb : ∀ b, (boot nbuf zero disk log).buf b = ⟨false, false, false, noDev, 0, zero, [], true, true⟩ := fun _ => rfl
  refine ⟨⟨binit_ring nbuf (Nat.le_refl _), fun b => ?_, fun i j h => ?_, fun b h => ?_, nodup_nil, nofun, nofun⟩,
    fun _ => ⟨fun b h => ?_, fun _ _ _ _ => rfl, nofun⟩⟩
  · rw [hb]
    exact ⟨by simp, by simp, fun _ => ⟨rfl, rfl⟩, fun _ => ⟨rfl, rfl, rfl⟩⟩
  · rw [hb] at h
    exact absurd rfl h
  · rw [hb] at h
    simp at h
  · rw [hb] at h
    exact absurd rfl h

lemma Inv.of_reaches {zero : D} {disk : Ports → D} {log : LogHead} {c : Config Pid (Act D) Act.Res (State D) Panic}
    (hr : Reaches (bcache nbuf havedisk1) (within N) (.initial (boot nbuf zero disk log)) c) : Inv nbuf N c.st :=
  (Logic.sound (M := bcache nbuf havedisk1) (L := logic nbuf N) .refl (fun _ _ _ _ h h' => h.trans h')
    (fun _ _ _ he h => h.env he) (fun _ x _ _ hs _ => wp_cacheCall x hs) (boot_inv nbuf N zero disk log)
    (fun _ => ⟨fun _ h => absurd h (not_mem_nil), nofun⟩) hr).inv

lemma key_setBuf {j : Nat} (h : i = j → x.dev = (s.buf j).dev ∧ x.sector = (s.buf j).sector) :
    ((s.setBuf j x).buf i).dev = (s.buf i).dev ∧ ((s.setBuf j x).buf i).sector = (s.buf i).sector := by
  rw [State.setBuf_buf]
  split
  · rename_i hij
    rw [hij]
    exact h hij
  · exact ⟨rfl, rfl⟩

lemma exec_key {a : Act D} {r : a.Res} (hl : Listed nbuf s.links) (he : exec nbuf p a s = .next r s')
    (hu : (s.buf i).unused = false) :
    (s'.buf i).dev = (s.buf i).dev ∧ (s'.buf i).sector = (s.buf i).sector := by
  cases a with
  | bget dev sector =>
    rw [exec] at he
    split at he
    · cases he
    split at he
    · dsimp only at he
      split at he
      · cases he
      · cases he
        exact key_setBuf fun _ => ⟨rfl, rfl⟩
    split at he
    · cases he
    rename_i c hvict
    split at he
    · cases he
    rename_i hc
    have hv := (victim_spec hl hvict hc).2
    cases he
    refine key_setBuf fun hic => ?_
    rw [hic, hv] at hu
    cases hu
  | enqueue b =>
    cases he
    split
    · rw [(idestart_other _).1]
      exact ⟨rfl, rfl⟩
    · exact ⟨rfl, rfl⟩
  | wait b =>
    rw [exec] at he
    split at he
    · cases he
      exact ⟨rfl, rfl⟩
    · cases he
  | ideintr =>
    cases he
    unfold ideintr
    split
    · exact ⟨rfl, rfl⟩
    · rw [(idestart_other _).1]
      exact key_setBuf fun _ => ⟨rfl, rfl⟩
  | panic => cases he
  | setDirty b | modify b f | brelse b =>
    cases he
    exact key_setBuf fun _ => ⟨rfl, rfl⟩
  | _ =>
    cases he
    exact ⟨rfl, rfl⟩

/-- The sectors of two disks that `idestart` can address. -/
def Addressable (dev sector : UInt32) : Prop := dev < 2 ∧ sector < 0x10000000

instance (dev sector : UInt32) : Decidable (Addressable dev sector) := by
  unfold Addressable
  infer_instance

instance (p : Pid) (a : Act D) (s : State D) : Decidable (within Addressable p a s) := by
  unfold within
  split <;> infer_instance

lemma drive_inj : ∀ d d' : Fin 2, ∀ h h' : Fin 16,
    (0xe0 ||| d.val <<< 4 ||| h.val) = (0xe0 ||| d'.val <<< 4 ||| h'.val) → d = d' ∧ h = h' := by
  decide

lemma ports_toNat {v n : UInt32} (h : Addressable v n) :
    (ports v n).low.toNat = n.toNat % 256 ∧ (ports v n).mid.toNat = n.toNat / 256 % 256 ∧
      (ports v n).high.toNat = n.toNat / 65536 % 256 ∧
      (ports v n).drive.toNat = 0xe0 ||| v.toNat <<< 4 ||| n.toNat / 16777216 := by
  have hv : v.toNat < 2 := h.1
  have hn : n.toNat < 0x10000000 := h.2
  have hand : ∀ m : Nat, m &&& 255 = m % 256 := fun m => Nat.and_two_pow_sub_one_eq_mod m 8
  have hand' : ∀ m : Nat, m &&& 15 = m % 16 := fun m => Nat.and_two_pow_sub_one_eq_mod m 4
  have hand'' : ∀ m : Nat, m &&& 1 = m % 2 := fun m => Nat.and_two_pow_sub_one_eq_mod m 1
  refine ⟨?_, ?_, ?_, ?_⟩
  · simp [ports, hand]
  · simp [ports, hand, Nat.shiftRight_eq_div_pow]
  · simp [ports, hand, Nat.shiftRight_eq_div_pow]
  · have h1 : n.toNat / 16777216 % 16 = n.toNat / 16777216 := Nat.mod_eq_of_lt (by omega)
    have h2 : v.toNat % 2 = v.toNat := Nat.mod_eq_of_lt hv
    have h3 : v.toNat <<< 4 % 4294967296 = v.toNat <<< 4 := by
      rw [Nat.shiftLeft_eq]
      exact Nat.mod_eq_of_lt (by omega)
    simp [ports, hand', hand'', Nat.shiftRight_eq_div_pow, h1, h2, h3]

lemma addressable_separate : Separate Addressable := by
  refine ⟨fun v n h hv => ?_, fun v n v' n' h h' hp => ?_⟩
  · have := h.1
    rw [hv] at this
    exact absurd this (by decide)
  obtain ⟨h1, h2, h3, h4⟩ := ports_toNat h
  obtain ⟨h5, h6, h7, h8⟩ := ports_toNat h'
  rw [hp] at h1 h2 h3 h4
  have hv : v.toNat < 2 := h.1
  have hn : n.toNat < 0x10000000 := h.2
  have hv' : v'.toNat < 2 := h'.1
  have hn' : n'.toNat < 0x10000000 := h'.2
  obtain ⟨hd, htop⟩ := drive_inj ⟨v.toNat, hv⟩ ⟨v'.toNat, hv'⟩ ⟨n.toNat / 16777216, by omega⟩
    ⟨n'.toNat / 16777216, by omega⟩ (h4.symm.trans h8)
  have htop' : n.toNat / 16777216 = n'.toNat / 16777216 := Fin.mk.inj htop
  have hdev : v.toNat = v'.toNat := Fin.mk.inj hd
  exact ⟨UInt32.toNat_inj.mp hdev, UInt32.toNat_inj.mp (by omega)⟩

instance (s : State D) (p : Pid) : Decidable ((bcache nbuf havedisk1).canCall s p) :=
  inferInstanceAs (Decidable True)

def readSector (sector : UInt32) : List (Turn Pid (Call Nat)) :=
  [.call 0 (.bread 1 sector) 10, .call 1 .interrupt 1, .go 0 10]

def writeBuffer (b d : Nat) : List (Turn Pid (Call Nat)) :=
  [.call 0 (.modify b fun _ => d) 10, .call 0 (.bwrite b) 10, .call 1 .interrupt 1, .go 0 10,
    .call 0 (.brelse b) 10]

def emptyLog : LogHead := ⟨0, .const 0, 0, 0, false⟩

/-- Sector 5 is written and read again after ten other sectors have been read, so that its buffer is another's. -/
def rewritten : Config Pid (Act Nat) Act.Res (State Nat) Panic :=
  Config.play (bcache NBUF true) (within Addressable) (.initial (boot NBUF 0 (fun _ => 7) emptyLog))
    (readSector 5 ++ writeBuffer 0 9 ++
      (List.range 9).flatMap (fun i => readSector (UInt32.ofNat (i + 6)) ++ [.call 0 (.brelse (i + 1)) 10]) ++
      readSector 15 ++ [.call 0 (.brelse 0) 10] ++ readSector 5)

/-- Sector 0 is written, and then sector 2 ^ 28, which has the same address. When nine other sectors
have been read, the buffer of sector 0 is another's. -/
def sameAddress : Config Pid (Act Nat) Act.Res (State Nat) Panic :=
  Config.play (bcache NBUF true) (fun _ _ _ => True) (.initial (boot NBUF 0 (fun _ => 0) emptyLog))
    (readSector 0 ++ writeBuffer 0 1 ++ readSector 0x10000000 ++ writeBuffer 1 2 ++
      (List.range 8).flatMap (fun i => readSector (UInt32.ofNat (i + 1)) ++ [.call 0 (.brelse (i + 2)) 10]) ++
      readSector 9 ++ [.call 0 (.brelse 0) 10] ++ readSector 0)

end Xv6.Bcache
