import Xv6.Buffered
import Xv6.Lib.Pool
import Xv6.Proofs.BufferCache

/-!
# Room in the buffer cache

A process in a call holds at most one buffer, or three in its own transaction, and a buffer that is
dirty while nobody holds it is one of a block in the log. This rests on two things that not all
callers respect: a process that holds a buffer asks for another one, and calls `log_write`, only in
its own transaction.
-/

namespace Xv6.Buffered

open Threads Fs List

variable {s s' s'' : State} {p q : Pid} {b i nbuf : Nat}

def State.owner (s : State) : Option Pid := s.fs.store.log.busy

def Logged (L : Bcache.LogHead) (m : Nat) (sector : UInt32) : Prop := ∃ j, m ≤ j ∧ j < L.n ∧ L.sector j = sector

def State.allowance (s : State) (q : Pid) : Nat := if s.owner = some q then 3 else 1

def State.holds (s : State) (b : Nat) (q : Pid) : Prop := q ∈ (s.cache.buf b).owners

instance (s : State) (b : Nat) (q : Pid) : Decidable (s.holds b q) := inferInstanceAs (Decidable (_ ∈ _))

/-- The list goes through all buffers, and those in use are of different sectors. -/
structure Sane (nbuf : Nat) (c : Bcache.State Block) : Prop where
  listed : Bcache.Listed nbuf c.links
  one : ∀ b, (c.buf b).owners.length ≤ 1
  busy : ∀ b, (c.buf b).busy = true ↔ (c.buf b).owners ≠ []
  uniq : ∀ i j, (c.buf i).dev = ROOTDEV → (c.buf j).dev = ROOTDEV → (c.buf i).sector = (c.buf j).sector → i = j
  named : ∀ b, (c.buf b).dev = ROOTDEV → b < nbuf
  used : ∀ b, (c.buf b).owners ≠ [] ∨ (c.buf b).dirty = true → (c.buf b).dev = ROOTDEV

structure Inv (nbuf : Nat) (s : State) : Prop where
  sane : Sane nbuf s.cache
  nodup : s.active.Nodup
  inCall : ∀ b q, s.holds b q → q ∈ s.active
  few : ∀ q, Pool.share nbuf s.holds q ≤ s.allowance q
  dirty : ∀ b, (s.cache.buf b).dirty = true →
    Logged s.cache.log 0 (s.cache.buf b).sector ∨ ∃ q, s.holds b q ∧ s.owner = some q
  rest : s.owner = none → s.cache.log.n = 0

structure Env (q : Pid) (s s' : State) : Prop where
  own : ∀ b, s'.holds b q ↔ s.holds b q
  key : ∀ b, s.holds b q → (s'.cache.buf b).sector = (s.cache.buf b).sector
  active : q ∈ s'.active ↔ q ∈ s.active
  owner : s'.owner = some q ↔ s.owner = some q
  log : s.owner = some q → s'.cache.log = s.cache.log
  dirty : s.owner = some q → ∀ b, (s'.cache.buf b).dirty = true →
    (s.cache.buf b).dirty = true ∧ (s'.cache.buf b).sector = (s.cache.buf b).sector

/-- The runs in which there is room: few blocks in the log and few processes in calls, `wait` included, whenever
one asks for a buffer, and no second buffer and no `log_write` outside the own transaction. -/
def Room (nbuf : Nat) (p : Pid) (a : Act) (s : State) : Prop :=
  match a with
  | .cache (.bget _ _) =>
    s.cache.log.n + s.active.length + (if s.owner = none then 0 else 2) ≤ nbuf ∧
      ∀ b < nbuf, s.holds b p → s.owner = some p
  | .cache (.logSector _ _) => s.owner = some p
  | _ => True

def Found (nbuf : Nat) (_ : Pid) (a : Act) (s : State) : Prop :=
  match a with
  | .cache (.bget dev sector) =>
    ∃ b < nbuf, (s.cache.buf b).holds dev sector = true ∨
      (s.cache.buf b).busy = false ∧ (s.cache.buf b).dirty = false
  | _ => True

structure Out (p : Pid) (s : State) : Prop where
  active : p ∉ s.active
  owner : s.owner ≠ some p
  own : ∀ b, ¬s.holds b p

def logic (nbuf : Nat) : Logic Pid Act State Panic where
  Inv := Inv nbuf
  Rely := Env
  Given := Room nbuf
  Pre := Found nbuf
  Allowed := fun e => e ≠ .cache .noBuffers
  Idle := Out

abbrev Spec (nbuf : Nat) (p : Pid) {α : Type} := wp (α := α) (fileSystem nbuf) (logic nbuf) p

/-- What a process in a call knows: whether it is in its own transaction, a buffer that it is
about to write, how many blocks of the log it has installed, the buffers that it holds with their
sectors, and, in its transaction, the log. -/
structure View where
  trans : Bool
  writing : Option Nat
  done : Nat
  held : List Nat
  key : Nat → UInt32
  log : Bcache.LogHead

structure Knows (p : Pid) (v : View) (s : State) : Prop where
  active : p ∈ s.active
  owner : s.owner = some p ↔ v.trans = true
  own : ∀ b, s.holds b p ↔ b ∈ v.held
  key : ∀ b ∈ v.held, (s.cache.buf b).sector = v.key b
  log : v.trans = true → s.cache.log = v.log
  clean : v.trans = true → ∀ b, some b ≠ v.writing → (s.cache.buf b).dirty = true →
    Logged v.log v.done (s.cache.buf b).sector

variable {v : View}

lemma Env.refl (q : Pid) (s : State) : Env q s s :=
  ⟨fun _ => .rfl, fun _ _ => rfl, .rfl, .rfl, fun _ => rfl, fun _ _ h => ⟨h, rfl⟩⟩

lemma Env.trans (h : Env q s s') (h' : Env q s' s'') : Env q s s'' := by
  refine ⟨fun b => (h'.own b).trans (h.own b), fun b hb => ?_, h'.active.trans h.active, h'.owner.trans h.owner,
    fun ho => ?_, fun ho b hd => ?_⟩
  · rw [h'.key b ((h.own b).mpr hb), h.key b hb]
  · rw [h'.log (h.owner.mpr ho), h.log ho]
  · obtain ⟨hd', hk'⟩ := h'.dirty (h.owner.mpr ho) b hd
    obtain ⟨hd'', hk⟩ := h.dirty ho b hd'
    exact ⟨hd'', hk'.trans hk⟩

lemma Knows.env (h : Knows p v s) (he : Env p s s') : Knows p v s' := by
  refine ⟨he.active.mpr h.active, he.owner.trans h.owner, fun b => (he.own b).trans (h.own b), fun b hb => ?_,
    fun ht => ?_, fun ht b hw hd => ?_⟩
  · rw [he.key b ((h.own b).mpr hb), h.key b hb]
  · rw [he.log (h.owner.mpr ht), h.log ht]
  · obtain ⟨hd', hk⟩ := he.dirty (h.owner.mpr ht) b hd
    rw [hk]
    exact h.clean ht b hw hd'

lemma Knows.holds (h : Knows p v s) (hb : b ∈ v.held) : s.holds b p := (h.own b).mpr hb

lemma Out.env (h : Out p s) (he : Env p s s') : Out p s' :=
  ⟨fun ha => h.active (he.active.mp ha), fun ho => h.owner (he.owner.mp ho), fun b hb => h.own b ((he.own b).mp hb)⟩

def Good (nbuf : Nat) (p : Pid) (s s' : State) : Prop := Inv nbuf s' ∧ ∀ q, q ≠ p → Env q s s'

/-! ## Actions that do not matter -/

/-- Nothing changes for the buffers but that some may be clean now. -/
structure Quiet (s s' : State) : Prop where
  busy : ∀ b, (s'.cache.buf b).busy = (s.cache.buf b).busy
  dev : ∀ b, (s'.cache.buf b).dev = (s.cache.buf b).dev
  sector : ∀ b, (s'.cache.buf b).sector = (s.cache.buf b).sector
  owners : ∀ b, (s'.cache.buf b).owners = (s.cache.buf b).owners
  dirty : ∀ b, (s'.cache.buf b).dirty = true → (s.cache.buf b).dirty = true
  links : s'.cache.links = s.cache.links
  log : s'.cache.log = s.cache.log
  owner : s'.owner = s.owner
  active : s'.active = s.active

lemma Quiet.holds (h : Quiet s s') (b : Nat) (q : Pid) : s'.holds b q ↔ s.holds b q := by
  unfold State.holds
  rw [h.owners b]

lemma Quiet.env (h : Quiet s s') (q : Pid) : Env q s s' :=
  ⟨fun b => h.holds b q, fun b _ => h.sector b, by rw [h.active], by rw [h.owner], fun _ => h.log,
    fun _ b hd => ⟨h.dirty b hd, h.sector b⟩⟩

lemma Quiet.sane (h : Quiet s s') (hi : Sane nbuf s.cache) : Sane nbuf s'.cache := by
  refine ⟨by rw [h.links]; exact hi.listed, fun b => ?_, fun b => ?_, fun i j hi' hj hk => ?_, fun b hb => ?_,
    fun b hb => ?_⟩
  · rw [h.owners]
    exact hi.one b
  · rw [h.busy, h.owners]
    exact hi.busy b
  · rw [h.dev] at hi' hj
    rw [h.sector, h.sector] at hk
    exact hi.uniq i j hi' hj hk
  · rw [h.dev] at hb
    exact hi.named b hb
  · rw [h.dev]
    rw [h.owners] at hb
    exact hi.used b (hb.imp_right (h.dirty b))

lemma Quiet.inv (h : Quiet s s') (hi : Inv nbuf s) : Inv nbuf s' := by
  refine ⟨h.sane hi.sane, by rw [h.active]; exact hi.nodup, fun b q hb => ?_, fun q => ?_, fun b hd => ?_,
    fun ho => ?_⟩
  · rw [h.active]
    exact hi.inCall b q ((h.holds b q).mp hb)
  · have hshare := Pool.share_mono (n := nbuf) fun b => (h.holds b q).mp
    have hfew := hi.few q
    rw [State.allowance] at hfew ⊢
    rw [h.owner]
    omega
  · rw [h.log, h.sector, h.owner]
    refine (hi.dirty b (h.dirty b hd)).imp_right ?_
    rintro ⟨q, hq, ho⟩
    exact ⟨q, (h.holds b q).mpr hq, ho⟩
  · rw [h.log]
    exact hi.rest (h.owner ▸ ho)

lemma Quiet.good (h : Quiet s s') (hi : Inv nbuf s) : Good nbuf p s s' := ⟨h.inv hi, fun q _ => h.env q⟩

def Act.mayRunOut : Act → Bool
  | .cache (.bget _ _) | .cache (.panic .noBuffers) => true
  | _ => false

lemma found_of_quiet {a : Act} (ha : a.mayRunOut = false) : Found nbuf p a s := by
  unfold Found
  split
  · cases ha
  · trivial

lemma exec_not_out {a : Act} (ha : a.mayRunOut = false) : exec nbuf p a s ≠ .stop (.cache .noBuffers) := by
  intro h
  cases a with
  | fs a =>
    obtain ⟨e, -, he⟩ := Outcome.lift_stop h
    cases he
  | cache a =>
    obtain ⟨e, he, hc⟩ := Outcome.lift_stop h
    cases hc
    cases a with
    | bget dev sector => cases ha
    | wait b =>
      rw [Bcache.exec] at he
      split at he <;> cases he
    | panic e =>
      cases he
      cases ha
    | _ => cases he
  | beginTrans =>
    rw [exec] at h
    split at h <;> cases h
  | enter =>
    rw [exec] at h
    split at h <;> cases h
  | endTrans => cases h
  | entry i => cases h
  | setIno i ip => cases h
  | setValid i => cases h
  | leave => cases h

lemma wp_step {a : Act} {S : State → Prop} {U : a.Res → State → Prop} (ha : a.mayRunOut = false)
    (hS : ∀ s s', Env p s s' → S s → S s')
    (h : ∀ s r s', Inv nbuf s → Room nbuf p a s → S s → exec nbuf p a s = .next r s' → Good nbuf p s s' ∧ U r s')
    (hs : S s) : Spec nbuf p (act a) U s := by
  refine wp_call hs hS fun s hi hg hS => ⟨found_of_quiet (p := p) ha, .of_next ?_ fun r s' he => ?_⟩
  · rintro e he rfl
    exact exec_not_out ha he
  · obtain ⟨hgood, hU⟩ := h s r s' hi hg hS he
    exact ⟨hgood.1, hgood.2, hU⟩

lemma Knows.quiet (h : Knows p v s) (hq : Quiet s s') : Knows p v s' := h.env (hq.env p)

lemma wp_quiet {a : Act} (ha : a.mayRunOut = false) (hq : ∀ s r s', exec nbuf p a s = .next r s' → Quiet s s')
    (hs : Knows p v s) : Spec nbuf p (act a) (fun _ => Knows p v) s :=
  wp_step ha (fun _ _ he h => h.env he)
    (fun s r s' hi _ hk he => ⟨(hq s r s' he).good hi, hk.quiet (hq s r s' he)⟩) hs

lemma Quiet.refl (s : State) : Quiet s s :=
  ⟨fun _ => rfl, fun _ => rfl, fun _ => rfl, fun _ => rfl, fun _ h => h, rfl, rfl, rfl, rfl⟩

lemma Quiet.of_fs {k : Fs.State} (h : k.store = s.fs.store) : Quiet s { s with fs := k } :=
  ⟨fun _ => rfl, fun _ => rfl, fun _ => rfl, fun _ => rfl, fun _ h => h, rfl, rfl, congrArg (·.log.busy) h, rfl⟩

lemma Quiet.of_buf {c : Bcache.State Block} {x : Bcache.Buf Block} (hne : ∀ i, i ≠ b → c.buf i = s.cache.buf i)
    (hb : c.buf b = x) (hbusy : x.busy = (s.cache.buf b).busy) (hdev : x.dev = (s.cache.buf b).dev)
    (hsector : x.sector = (s.cache.buf b).sector) (howners : x.owners = (s.cache.buf b).owners)
    (hdirty : x.dirty = true → (s.cache.buf b).dirty = true) (hl : c.links = s.cache.links)
    (hlog : c.log = s.cache.log) : Quiet s { s with cache := c } := by
  refine ⟨fun i => ?_, fun i => ?_, fun i => ?_, fun i => ?_, fun i => ?_, hl, hlog, rfl, rfl⟩ <;>
    change _ at * <;> by_cases hi : i = b
  all_goals first
    | (subst hi
       simp only [hb]
       assumption)
    | simp only [hne i hi, imp_self]

/-! ## Taking a buffer -/

lemma Sane.owners_nil {c : Bcache.State Block} (h : Sane nbuf c) (hb : ¬(c.buf b).busy = true) :
    (c.buf b).owners = [] := by
  by_contra hne
  exact hb ((h.busy b).mpr hne)

lemma Sane.owners_eq (h : Sane nbuf s.cache) (hb : s.holds b p) : (s.cache.buf b).owners = [p] := by
  obtain ⟨a, ha⟩ := length_eq_one_iff.mp (Nat.le_antisymm (h.one b) (length_pos_of_mem hb))
  rw [State.holds, ha] at hb
  rw [ha, mem_singleton.mp hb]

lemma Sane.not_holds (h : Sane nbuf s.cache) (hb : s.holds b p) (hq : q ≠ p) : ¬s.holds b q := by
  rw [State.holds, h.owners_eq hb, mem_singleton]
  exact hq

lemma Sane.update {c c' : Bcache.State Block} (h : Sane nbuf c) (hl : Bcache.Listed nbuf c'.links)
    (hne : ∀ i, i ≠ b → c'.buf i = c.buf i) (hone : (c'.buf b).owners.length ≤ 1)
    (hbusy : (c'.buf b).busy = true ↔ (c'.buf b).owners ≠ [])
    (hkey : (c'.buf b).dev = ROOTDEV →
      b < nbuf ∧ ∀ i, i ≠ b → (c.buf i).dev = ROOTDEV → (c.buf i).sector ≠ (c'.buf b).sector)
    (hused : (c'.buf b).owners ≠ [] ∨ (c'.buf b).dirty = true → (c'.buf b).dev = ROOTDEV) : Sane nbuf c' := by
  refine ⟨hl, fun i => ?_, fun i => ?_, fun i j hi hj hk => ?_, fun i hd => ?_, fun i => ?_⟩
  · by_cases hib : i = b
    · exact hib ▸ hone
    · rw [hne i hib]
      exact h.one i
  · by_cases hib : i = b
    · exact hib ▸ hbusy
    · rw [hne i hib]
      exact h.busy i
  · by_cases hib : i = b <;> by_cases hjb : j = b
    · exact hib.trans hjb.symm
    · subst hib
      rw [hne j hjb] at hj hk
      exact absurd hk.symm ((hkey hi).2 j hjb hj)
    · subst hjb
      rw [hne i hib] at hi hk
      exact absurd hk ((hkey hj).2 i hib hi)
    · rw [hne i hib] at hi hk
      rw [hne j hjb] at hj hk
      exact h.uniq i j hi hj hk
  · by_cases hib : i = b
    · subst hib
      exact (hkey hd).1
    · rw [hne i hib] at hd
      exact h.named i hd
  · by_cases hib : i = b
    · exact hib ▸ hused
    · rw [hne i hib]
      exact h.used i

lemma Inv.update {c : Bcache.State Block} (hi : Inv nbuf s) (hsane : Sane nbuf c)
    (hne : ∀ i, i ≠ b → c.buf i = s.cache.buf i) (hlog : c.log = s.cache.log) (hp : p ∈ s.active)
    (hother : ∀ q, q ≠ p → q ∉ (c.buf b).owners)
    (hfew : Pool.share nbuf (State.holds { s with cache := c }) p ≤ s.allowance p)
    (hdirty : (c.buf b).dirty = true →
      Logged s.cache.log 0 (c.buf b).sector ∨ p ∈ (c.buf b).owners ∧ s.owner = some p) :
    Inv nbuf { s with cache := c } := by
  have hback : ∀ q, q ≠ p → ∀ i, State.holds { s with cache := c } i q → s.holds i q := by
    intro q hq i hh
    by_cases hib : i = b
    · subst hib
      exact absurd hh (hother q hq)
    · rw [State.holds, hne i hib] at hh
      exact hh
  refine ⟨hsane, hi.nodup, fun i q hh => ?_, fun q => ?_, fun i hd => ?_, fun ho => ?_⟩
  · by_cases hq : q = p
    · exact hq ▸ hp
    · exact hi.inCall i q (hback q hq i hh)
  · by_cases hq : q = p
    · subst hq
      exact hfew
    · exact (Pool.share_mono (hback q hq)).trans (hi.few q)
  · change Logged c.log 0 _ ∨ _
    rw [hlog]
    by_cases hib : i = b
    · subst hib
      exact (hdirty hd).imp_right fun h => ⟨p, h⟩
    change (c.buf i).dirty = true at hd
    change Logged _ 0 (c.buf i).sector ∨ _
    rw [hne i hib] at hd ⊢
    refine (hi.dirty i hd).imp_right ?_
    rintro ⟨q, hq, ho⟩
    refine ⟨q, ?_, ho⟩
    rw [State.holds, hne i hib]
    exact hq
  · change c.log.n = 0
    rw [hlog]
    exact hi.rest ho

lemma Env.of_one {c : Bcache.State Block} (hne : ∀ i, i ≠ b → c.buf i = s.cache.buf i) (hlog : c.log = s.cache.log)
    (hb : ¬s.holds b q) (hb' : q ∉ (c.buf b).owners)
    (hdirty : s.owner = some q → (c.buf b).dirty = true →
      (s.cache.buf b).dirty = true ∧ (c.buf b).sector = (s.cache.buf b).sector) :
    Env q s { s with cache := c } := by
  refine ⟨fun i => ?_, fun i hh => ?_, .rfl, .rfl, fun _ => hlog, fun ho i => ?_⟩
  · by_cases hib : i = b
    · subst hib
      exact ⟨fun h => absurd h hb', fun h => absurd h hb⟩
    · rw [State.holds, State.holds, hne i hib]
  · have hib : i ≠ b := fun hib => hb (hib ▸ hh)
    exact congrArg _ (hne i hib)
  · change (c.buf i).dirty = true → _ ∧ (c.buf i).sector = _
    by_cases hib : i = b
    · subst hib
      exact hdirty ho
    · rw [hne i hib]
      exact fun h => ⟨h, rfl⟩

lemma allowance_sum (h : s.active.Nodup) :
    ∑ q ∈ s.active.toFinset, s.allowance q ≤ s.active.length + (if s.owner = none then 0 else 2) := by
  have hsplit : ∀ q, s.allowance q = 1 + if s.owner = some q then 2 else 0 := by
    intro q
    rw [State.allowance]
    split <;> rfl
  simp only [hsplit, Finset.sum_add_distrib, ← Finset.card_eq_sum_ones, toFinset_card_of_nodup h]
  cases ho : s.owner with
  | none => simp
  | some o =>
    have hone : ∑ q ∈ s.active.toFinset, (if some o = some q then 2 else 0) ≤ 2 := by
      simp only [Option.some.injEq, Finset.sum_ite_eq]
      split <;> omega
    simpa using hone

lemma room (hi : Inv nbuf s)
    (hsize : s.cache.log.n + s.active.length + (if s.owner = none then 0 else 2) ≤ nbuf)
    (hown : ∀ b, s.holds b p → s.owner = some p) (hk : Knows p v s) (hlen : v.trans = true → v.held.length ≤ 2) :
    ∃ b < nbuf, (s.cache.buf b).busy = false ∧ (s.cache.buf b).dirty = false := by
  by_contra hnone
  -- every buffer is held by a process in a call or is that of a block in the log
  have hcover : ∀ i < nbuf, (∃ q ∈ s.active.toFinset, s.holds i q) ∨
      ∃ j < s.cache.log.n, (s.cache.buf i).dev = ROOTDEV ∧ s.cache.log.sector j = (s.cache.buf i).sector := by
    intro i hin
    by_cases hfree : (s.cache.buf i).owners = []
    · have hbusy : (s.cache.buf i).busy = false := by
        by_contra hb
        exact (hi.sane.busy i).mp (by simpa using hb) hfree
      have hdirty : (s.cache.buf i).dirty = true := by
        by_contra hd
        exact hnone ⟨i, hin, hbusy, by simpa using hd⟩
      rcases hi.dirty i hdirty with ⟨j, -, hj, hsector⟩ | ⟨q, hq, -⟩
      · exact .inr ⟨j, hj, hi.sane.used i (.inr hdirty), hsector⟩
      · rw [State.holds, hfree] at hq
        cases hq
    · obtain ⟨q, hq⟩ := exists_mem_of_ne_nil _ hfree
      exact .inl ⟨q, mem_toFinset.mpr (hi.inCall i q hq), hq⟩
  have hcount := Pool.le_of_cover s.active.toFinset hcover
    fun i i' j h h' => hi.sane.uniq i i' h.1 h'.1 (h.2.symm.trans h'.2)
  -- and the process that asks holds less than it may
  have hmine : Pool.share nbuf s.holds p < s.allowance p := by
    rw [State.allowance]
    by_cases ho : s.owner = some p
    · rw [if_pos ho]
      have hshare := Pool.share_le_length (n := nbuf) (q := p) fun b hb => (hk.own b).mp hb
      have := hlen (hk.owner.mp ho)
      omega
    · rw [if_neg ho]
      have hshare : Pool.share nbuf s.holds p ≤ ([] : List Nat).length :=
        Pool.share_le_length fun b hb => absurd (hown b hb) ho
      rw [length_nil] at hshare
      omega
  have hsum : ∑ q ∈ s.active.toFinset, Pool.share nbuf s.holds q < ∑ q ∈ s.active.toFinset, s.allowance q :=
    Finset.sum_lt_sum (fun q _ => hi.few q) ⟨p, mem_toFinset.mpr hk.active, hmine⟩
  have hbound := allowance_sum hi.nodup
  omega

lemma take {k : UInt32} {x : Bcache.Buf Block} (hi : Inv nbuf s) (hk : Knows p v s)
    (hown : ∀ b, s.holds b p → s.owner = some p) (hlen : v.trans = true → v.held.length ≤ 2) (hb : b < nbuf)
    (hfree : (s.cache.buf b).owners = []) (hbusy : x.busy = true) (howners : x.owners = [p])
    (hdev : x.dev = ROOTDEV) (hsector : x.sector = k)
    (hdirty : x.dirty = true → (s.cache.buf b).dirty = true ∧ (s.cache.buf b).sector = k)
    (huniq : ∀ i, i ≠ b → (s.cache.buf i).dev = ROOTDEV → (s.cache.buf i).sector ≠ k) :
    Good nbuf p s { s with cache := s.cache.setBuf b x } ∧
      Knows p { v with held := b :: v.held, key := Function.update v.key b k }
        { s with cache := s.cache.setBuf b x } := by
  have hne : ∀ i, i ≠ b → (s.cache.setBuf b x).buf i = s.cache.buf i := fun i hib => by simp [hib]
  have hbb : (s.cache.setBuf b x).buf b = x := by simp
  have hnot : ∀ q, ¬s.holds b q := fun q => by simp [State.holds, hfree]
  have hnow : ∀ i, State.holds { s with cache := s.cache.setBuf b x } i p ↔ i ∈ b :: v.held := by
    intro i
    rw [mem_cons, State.holds]
    by_cases hib : i = b
    · subst hib
      simp [hbb, howners]
    · rw [hne i hib]
      simpa [hib, State.holds] using hk.own i
  have hdirty' : (s.cache.setBuf b x |>.buf b).dirty = true →
      (s.cache.buf b).dirty = true ∧ (s.cache.setBuf b x |>.buf b).sector = (s.cache.buf b).sector := by
    rw [hbb, hsector]
    exact fun h => ⟨(hdirty h).1, (hdirty h).2.symm⟩
  refine ⟨⟨hi.update ?_ hne rfl hk.active ?_ ?_ ?_, fun q hq => .of_one hne rfl (hnot q) ?_ fun _ => hdirty'⟩, ?_⟩
  · refine hi.sane.update hi.sane.listed hne ?_ ?_ ?_ ?_
    · simp [hbb, howners]
    · simp [hbb, howners, hbusy]
    · rw [hbb, hsector]
      exact fun _ => ⟨hb, huniq⟩
    · rw [hbb]
      exact fun _ => hdev
  · intro q hq
    simpa [hbb, howners] using hq
  · -- the process holds less than it may
    have hshare := Pool.share_le_length (n := nbuf) fun i => (hnow i).mp
    rw [length_cons] at hshare
    rw [State.allowance]
    by_cases ho : s.owner = some p
    · rw [if_pos ho]
      have := hlen (hk.owner.mp ho)
      omega
    rw [if_neg ho]
    have hnil : v.held = [] := eq_nil_iff_forall_not_mem.mpr fun i hi =>
      ho (hown i ((hk.own i).mpr hi))
    rw [hnil, length_nil] at hshare
    omega
  · intro hd
    obtain ⟨hd, hsame⟩ := hdirty' hd
    rw [hsame]
    refine (hi.dirty b hd).imp_right ?_
    rintro ⟨q, hq, -⟩
    exact absurd hq (hnot q)
  · simpa [hbb, howners] using hq
  · refine ⟨hk.active, hk.owner, hnow, fun i hin => ?_, hk.log, fun ht i hw hd => ?_⟩
    · change ((s.cache.setBuf b x).buf i).sector = _
      by_cases hib : i = b
      · subst hib
        rw [hbb, hsector]
        exact (Function.update_self i k v.key).symm
      · rw [hne i hib, hk.key i ((mem_cons.mp hin).resolve_left hib)]
        exact (Function.update_of_ne hib k v.key).symm
    change ((s.cache.setBuf b x).buf i).dirty = true at hd
    change Logged v.log v.done ((s.cache.setBuf b x).buf i).sector
    by_cases hib : i = b
    · subst hib
      obtain ⟨hd, hsame⟩ := hdirty' hd
      rw [hsame]
      exact hk.clean ht i hw hd
    · rw [hne i hib] at hd ⊢
      exact hk.clean ht i hw hd

lemma wp_bget (k : UInt32) (hs : Knows p v s) (hlen : v.trans = true → v.held.length ≤ 2) :
    Spec nbuf p (act (.cache (.bget ROOTDEV k)))
      (fun b s => b ∉ v.held ∧ Knows p { v with held := b :: v.held, key := Function.update v.key b k } s) s := by
  refine wp_call hs (fun _ _ he h => h.env he) fun s hi hg hk => ?_
  have hown : ∀ b, s.holds b p → s.owner = some p := fun b hb =>
    hg.2 b (hi.sane.named b (hi.sane.used b (.inl (ne_nil_of_mem hb)))) hb
  obtain ⟨c, hc, hbusy, hdirty⟩ := room hi hg.1 hown hk hlen
  have hnew : ∀ b, (s.cache.buf b).owners = [] → b ∉ v.held := by
    intro b ho hb
    have := hk.holds hb
    rw [State.holds, ho] at this
    cases this
  refine ⟨⟨c, hc, .inr ⟨hbusy, hdirty⟩⟩, .of_next ?_ fun r s' he => ?_⟩
  · rintro e he rfl
    obtain ⟨e, he', -⟩ := Outcome.lift_stop he
    have := Bcache.bget_stop hi.sane.listed he' c hc
    simp [Bcache.Buf.unused, hbusy, hdirty] at this
  obtain ⟨t, he', rfl⟩ := Outcome.lift_next he
  obtain ⟨hr, ⟨hdev, hsector, hfree, rfl⟩ | ⟨hnone, hu, rfl⟩⟩ := Bcache.bget_next hi.sane.listed he'
  · have ho := hi.sane.owners_nil hfree
    obtain ⟨hgood, hknows⟩ := take hi hk hown hlen hr ho
      (x := { s.cache.buf r with busy := true, owners := p :: (s.cache.buf r).owners }) rfl (by simp [ho]) hdev hsector
      (fun h => ⟨h, hsector⟩) fun i hir hv hn => hir (hi.sane.uniq i r hv hdev (hn.trans hsector.symm))
    exact ⟨hgood.1, hgood.2, hnew r ho, hknows⟩
  simp only [Bcache.Buf.unused, Bool.and_eq_true, Bool.not_eq_true'] at hu
  have ho := hi.sane.owners_nil (b := r) (by simp [hu.1])
  obtain ⟨hgood, hknows⟩ := take (k := k) hi hk hown hlen hr ho (x := (s.cache.buf r).recycled p ROOTDEV k) rfl
    (by simp [Bcache.Buf.recycled, ho]) rfl rfl (by simp [Bcache.Buf.recycled]) fun i _ hv hn => by
      have := hnone i (hi.sane.named i hv)
      simp [Bcache.Buf.holds, hv, hn] at this
  exact ⟨hgood.1, hgood.2, hnew r ho, hknows⟩

/-! ## Holding a buffer -/

lemma Knows.dev (h : Knows p v s) (hi : Inv nbuf s) (hb : b ∈ v.held) : (s.cache.buf b).dev = ROOTDEV :=
  hi.sane.used b (.inl (ne_nil_of_mem (h.holds hb)))

lemma change {c : Bcache.State Block} (hi : Inv nbuf s) (hk : Knows p v s) (hb : b ∈ v.held)
    (hl : Bcache.Listed nbuf c.links) (hne : ∀ i, i ≠ b → c.buf i = s.cache.buf i) (hlog : c.log = s.cache.log)
    (hdev : (c.buf b).dev = (s.cache.buf b).dev) (hsector : (c.buf b).sector = (s.cache.buf b).sector)
    (hbusy : (c.buf b).busy = true ↔ (c.buf b).owners ≠ [])
    (howners : (c.buf b).owners = [p] ∨ (c.buf b).owners = [])
    (hdirty : (c.buf b).dirty = true →
      Logged s.cache.log 0 (s.cache.buf b).sector ∨ p ∈ (c.buf b).owners ∧ s.owner = some p)
    (hothers : s.owner ≠ some p → (c.buf b).dirty = true → (s.cache.buf b).dirty = true) :
    Good nbuf p s { s with cache := c } := by
  have hroot := hk.dev hi hb
  have hsub : ∀ q, q ∈ (c.buf b).owners → q = p := by
    intro q hq
    rcases howners with h | h
    · simpa [h] using hq
    · simp [h] at hq
  refine ⟨hi.update ?_ hne hlog hk.active (fun q hq h => hq (hsub q h)) ?_ ?_, fun q hq =>
    .of_one hne hlog (hi.sane.not_holds (hk.holds hb) hq) (fun h => hq (hsub q h)) fun ho hd => ?_⟩
  · refine hi.sane.update hl hne ?_ hbusy ?_ fun _ => hdev.trans hroot
    · rcases howners with h | h <;> simp [h]
    · rw [hsector]
      exact fun _ => ⟨hi.sane.named b hroot, fun i hib hv hn => hib (hi.sane.uniq i b hv hroot hn)⟩
  · refine (Pool.share_mono fun i hh => ?_).trans (hi.few p)
    by_cases hib : i = b
    · exact hib ▸ hk.holds hb
    · rw [State.holds, hne i hib] at hh
      exact hh
  · rw [hsector]
    exact hdirty
  · refine ⟨hothers (fun h => hq ?_) hd, hsector⟩
    rw [ho] at h
    exact Option.some.inj h

lemma wp_buf (hs : Knows p v s) :
    Spec nbuf p (act (.cache (.buf b)))
      (fun x s => Knows p v s ∧ (b ∈ v.held → x.dev = ROOTDEV ∧ x.sector = v.key b)) s := by
  refine wp_step rfl (fun _ _ he h => h.env he) (fun s r s' hi _ hk he => ?_) hs
  cases he
  exact ⟨Quiet.good (.refl s) hi, hk, fun hb => ⟨hk.dev hi hb, hk.key b hb⟩⟩

lemma wp_cacheQuiet {a : Bcache.Act Block} (ha : (Act.cache a).mayRunOut = false)
    (hq : ∀ c r c', Bcache.exec nbuf p a c = .next r c' → c'.links = c.links ∧ c'.log = c.log ∧ ∀ b,
      (c'.buf b).busy = (c.buf b).busy ∧ (c'.buf b).dev = (c.buf b).dev ∧ (c'.buf b).sector = (c.buf b).sector ∧
        (c'.buf b).owners = (c.buf b).owners ∧ ((c'.buf b).dirty = true → (c.buf b).dirty = true))
    (hs : Knows p v s) : Spec nbuf p (act (.cache a)) (fun _ => Knows p v) s := by
  refine wp_quiet ha (fun s r s' he => ?_) hs
  obtain ⟨c, he', rfl⟩ := Outcome.lift_next he
  obtain ⟨hl, hlog, hbuf⟩ := hq _ _ _ he'
  exact ⟨fun b => (hbuf b).1, fun b => (hbuf b).2.1, fun b => (hbuf b).2.2.1, fun b => (hbuf b).2.2.2.1,
    fun b => (hbuf b).2.2.2.2, hl, hlog, rfl, rfl⟩

lemma wp_modify (f : Block → Block) (hs : Knows p v s) :
    Spec nbuf p (modify b f) (fun _ => Knows p v) s := by
  refine wp_cacheQuiet rfl (fun c r c' he => ?_) hs
  cases he
  refine ⟨rfl, rfl, fun i => ?_⟩
  simp only [Bcache.State.setBuf_buf]
  split
  · rename_i h
    subst h
    exact ⟨rfl, rfl, rfl, rfl, id⟩
  · exact ⟨rfl, rfl, rfl, rfl, id⟩

lemma wp_note (hs : Knows p v s) :
    Spec nbuf p (act (.cache (.note b))) (fun _ => Knows p v) s := by
  refine wp_cacheQuiet rfl (fun c r c' he => ?_) hs
  cases he
  exact ⟨rfl, rfl, fun i => ⟨rfl, rfl, rfl, rfl, id⟩⟩

lemma idestart_log (c : Bcache.State Block) : (Bcache.idestart c).log = c.log := by
  unfold Bcache.idestart
  split <;> rfl

lemma wp_enqueue (hs : Knows p v s) :
    Spec nbuf p (act (.cache (.enqueue b))) (fun _ => Knows p v) s := by
  refine wp_cacheQuiet rfl (fun c r c' he => ?_) hs
  rw [Bcache.exec] at he
  split at he
  · cases he
    obtain ⟨hbuf, hl, -⟩ := Bcache.idestart_other { c with queue := c.queue ++ [b] }
    refine ⟨hl, idestart_log _, fun i => ?_⟩
    rw [hbuf]
    exact ⟨rfl, rfl, rfl, rfl, id⟩
  · cases he
    exact ⟨rfl, rfl, fun i => ⟨rfl, rfl, rfl, rfl, id⟩⟩

lemma wp_cachePanic {e : Bcache.Panic} (he : e ≠ .noBuffers) {U : Unit → State → Prop} :
    Spec nbuf p (act (.cache (.panic e))) U s := by
  intro s' _ _ _
  exact ⟨trivial, fun h => he (Panic.cache.inj h)⟩

lemma Logged.mono {L : Bcache.LogHead} {m m' : Nat} {k : UInt32} (h : Logged L m k) (hm : m' ≤ m) : Logged L m' k := by
  obtain ⟨j, hj, hn⟩ := h
  exact ⟨j, hm.trans hj, hn⟩

lemma wp_setDirty (hs : Knows p v s) (ht : v.trans = true) (hb : b ∈ v.held) (hw : v.writing = none) :
    Spec nbuf p (act (.cache (.setDirty b)))
      (fun _ => Knows p { v with writing := some b }) s := by
  refine wp_step rfl (fun _ _ he h => h.env he) (fun s r s' hi _ hk he => ?_) hs
  cases he
  have ho := hk.owner.mpr ht
  have hown := hi.sane.owners_eq (hk.holds hb)
  have hne : ∀ i, i ≠ b → (s.cache.setBuf b { s.cache.buf b with dirty := true, synced := true }).buf i =
    s.cache.buf i := fun i hib => by simp [hib]
  have hbuf : ∀ i, ((s.cache.setBuf b { s.cache.buf b with dirty := true, synced := true }).buf i).owners =
      (s.cache.buf i).owners ∧
      ((s.cache.setBuf b { s.cache.buf b with dirty := true, synced := true }).buf i).sector =
        (s.cache.buf i).sector := by
    intro i
    rw [Bcache.State.setBuf_buf]
    split
    · rename_i h
      exact h ▸ ⟨rfl, rfl⟩
    · exact ⟨rfl, rfl⟩
  refine ⟨change hi hk hb hi.sane.listed hne rfl (by simp) (by simp) ?_ ?_ ?_ fun h => absurd ho h, ?_⟩
  · simpa using hi.sane.busy b
  · simp [hown]
  · exact fun _ => .inr ⟨by simp [hown], ho⟩
  · refine ⟨hk.active, hk.owner, fun i => ?_, fun i hin => ?_, hk.log, fun ht i hw' hd => ?_⟩
    · rw [State.holds, (hbuf i).1]
      exact hk.own i
    · exact (hbuf i).2.trans (hk.key i hin)
    · have hib : i ≠ b := fun h => hw' (congrArg some h)
      change ((s.cache.setBuf b _).buf i).dirty = true at hd
      change Logged v.log v.done ((s.cache.setBuf b _).buf i).sector
      rw [hne i hib] at hd ⊢
      exact hk.clean ht i (by simp [hw]) hd

lemma Knows.logged (h : Knows p { v with writing := some b } s) (hb : b ∈ v.held)
    (hl : Logged v.log v.done (v.key b)) : Knows p v s := by
  refine ⟨h.active, h.owner, h.own, h.key, h.log, fun ht i _ hd => ?_⟩
  by_cases hib : i = b
  · subst hib
    rw [h.key i hb]
    exact hl
  · exact h.clean ht i (fun hi => hib (Option.some.inj hi)) hd

lemma wp_wait {w : Option Nat} {d : Nat} (hb : b ∈ v.held) (hw : w = none ∨ w = some b)
    (hd : ∀ j, v.done ≤ j → j < d → v.log.sector j = v.key b) (hs : Knows p { v with writing := w } s) :
    Spec nbuf p (act (.cache (.wait b))) (fun _ => Knows p { v with done := d }) s := by
  refine wp_step rfl (fun _ _ he h => h.env he) (fun s r s' hi _ hk he => ?_) hs
  obtain ⟨c, he', rfl⟩ := Outcome.lift_next he
  rw [Bcache.exec] at he'
  split at he'
  · rename_i hflags
    simp only [Bool.and_eq_true, Bool.not_eq_true'] at hflags
    cases he'
    refine ⟨Quiet.good (.refl s) hi, hk.active, hk.owner, hk.own, hk.key, hk.log, fun ht i _ hdirty => ?_⟩
    have hib : i ≠ b := by
      rintro rfl
      rw [hflags.2] at hdirty
      cases hdirty
    have hwi : some i ≠ w := by
      rcases hw with rfl | rfl
      · exact Option.some_ne_none i
      · exact fun h => hib (Option.some.inj h)
    obtain ⟨j, hj, hn, hsector⟩ := hk.clean ht i hwi hdirty
    refine ⟨j, ?_, hn, hsector⟩
    -- only `b` has the sector of a place before `d`
    change d ≤ j
    by_contra hlt
    refine hib (hi.sane.uniq i b (hi.sane.used i (.inr hdirty)) (hk.dev hi hb) ?_)
    rw [← hsector, hk.key b hb]
    exact hd j hj (by omega)
  · cases he'

lemma ofCache_bind {α β : Type} (x : Bcache.Kprog Block α) (f : α → Bcache.Kprog Block β) :
    ofCache (x >>= f) = ofCache x >>= fun a => ofCache (f a) :=
  Prog.subst_bind _ x f

lemma ofCache_act (a : Bcache.Act Block) : ofCache (Bcache.act a) = act (.cache a) := Prog.subst_call _ a

lemma wp_iderw {w : Option Nat} {d : Nat} (hb : b ∈ v.held) (hw : w = none ∨ w = some b)
    (hd : ∀ j, v.done ≤ j → j < d → v.log.sector j = v.key b) (hs : Knows p { v with writing := w } s) :
    Spec nbuf p (ofCache (Bcache.iderw true b)) (fun _ => Knows p { v with done := d }) s := by
  rw [Bcache.iderw, ofCache_bind, ofCache_act]
  refine wp_seq (wp_buf hs) fun x s h => ?_
  split
  · rw [ofCache_act]
    exact wp_cachePanic (by decide)
  split
  · rw [ofCache_act]
    exact wp_cachePanic (by decide)
  split
  · rw [ofCache_act]
    exact wp_cachePanic (by decide)
  · rw [ofCache_bind, ofCache_act, ofCache_act]
    exact wp_seq (wp_enqueue h.1) fun _ s h => wp_wait hb hw hd h

lemma wp_breadAt {k : UInt32} (hs : Knows p v s) (hlen : v.trans = true → v.held.length ≤ 2)
    (hv : v.writing = none) :
    Spec nbuf p (ofCache (Bcache.bread true ROOTDEV k))
      (fun b s => b ∉ v.held ∧ Knows p { v with held := b :: v.held, key := Function.update v.key b k } s) s := by
  rw [Bcache.bread, ofCache_bind, ofCache_act]
  refine wp_seq (wp_bget k hs hlen) fun b s h => ?_
  obtain ⟨hb, h⟩ := h
  rw [ofCache_bind, ofCache_act]
  refine wp_seq (wp_buf h) fun x s h => ?_
  split
  · rw [ofCache_bind]
    refine wp_seq (wp_iderw (v := { v with held := b :: v.held, key := Function.update v.key b k }) (w := v.writing)
      (d := v.done) mem_cons_self (.inl hv) (fun j h h' => absurd h' (Nat.not_lt.mpr h)) h.1) fun _ s h => ?_
    rw [ofCache_bind, ofCache_act]
    exact wp_seq (wp_note h) fun _ s h => wp_ret ⟨hb, h⟩
  · rw [ofCache_bind, ofCache_act]
    exact wp_seq (wp_note h.1) fun _ s h => wp_ret ⟨hb, h⟩

lemma wp_bwrite {d : Nat} (hs : Knows p v s) (ht : v.trans = true) (hb : b ∈ v.held) (hv : v.writing = none)
    (hd : ∀ j, v.done ≤ j → j < d → v.log.sector j = v.key b) :
    Spec nbuf p (bwrite b) (fun _ => Knows p { v with done := d }) s := by
  rw [bwrite, Bcache.bwrite, ofCache_bind, ofCache_act]
  refine wp_seq (wp_buf hs) fun x s h => ?_
  split
  · rw [ofCache_act]
    exact wp_cachePanic (by decide)
  · rw [ofCache_bind, ofCache_act]
    exact wp_seq (wp_setDirty h.1 ht hb hv) fun _ s h => wp_iderw hb (.inr rfl) hd h

lemma wp_brelseAt (hs : Knows p v s) (hb : b ∈ v.held) (hnd : v.held.Nodup) (hv : v.writing = none) :
    Spec nbuf p (brelse b) (fun _ => Knows p { v with held := v.held.erase b }) s := by
  rw [brelse, Bcache.brelse, ofCache_bind, ofCache_act]
  refine wp_seq (wp_buf hs) fun x s h => ?_
  split
  · rw [ofCache_act]
    exact wp_cachePanic (by decide)
  rw [ofCache_act]
  refine wp_step rfl (fun _ _ he h => h.env he) (fun s r s' hi _ hk he => ?_) h.1
  cases he
  have hown := hi.sane.owners_eq (hk.holds hb)
  have hlt := hi.sane.named b (hk.dev hi hb)
  generalize hc : ({ s.cache.setBuf b { s.cache.buf b with
      busy := false, owners := (s.cache.buf b).owners.erase p, fresh := true } with
    links := (s.cache.links.unlink b).pushFront nbuf b
    last := Bcache.setSector s.cache.last (s.cache.buf b).dev (s.cache.buf b).sector (s.cache.buf b).data } :
      Bcache.State Block) = c
  have hne : ∀ i, i ≠ b → c.buf i = s.cache.buf i := fun i hib => by
    rw [← hc]
    exact Table.get_set_ne _ _ hib
  have hbb : c.buf b = { s.cache.buf b with busy := false, owners := [], fresh := true } := by
    rw [← hc]
    change (s.cache.setBuf b _).buf b = _
    simp [hown]
  have hlog : c.log = s.cache.log := by rw [← hc]; rfl
  -- a dirty buffer has a block of the log
  have hdirty : (s.cache.buf b).dirty = true → Logged s.cache.log 0 (s.cache.buf b).sector := by
    intro hd
    by_cases ht : v.trans = true
    · rw [hk.log ht]
      exact (hk.clean ht b (by simp [hv]) hd).mono (Nat.zero_le _)
    refine (hi.dirty b hd).resolve_right ?_
    rintro ⟨q, hq, ho⟩
    rw [State.holds, hown, mem_singleton] at hq
    exact ht (hk.owner.mp (hq ▸ ho))
  refine ⟨change hi hk hb ?_ hne hlog (by rw [hbb]) (by rw [hbb]) (by simp [hbb]) (.inr (by rw [hbb])) ?_ ?_, ?_⟩
  · rw [← hc]
    exact hi.sane.listed.moveFront hlt
  · rw [hbb]
    exact fun hd => .inl (hdirty hd)
  · rw [hbb]
    exact fun _ hd => hd
  · refine ⟨hk.active, hk.owner, fun i => ?_, fun i hin => ?_, fun ht => hlog.trans (hk.log ht), fun ht i hw hd => ?_⟩
    · change p ∈ (c.buf i).owners ↔ i ∈ v.held.erase b
      rw [hnd.mem_erase_iff]
      by_cases hib : i = b
      · subst hib
        simp [hbb]
      · rw [hne i hib]
        simpa [hib, State.holds] using hk.own i
    · change (c.buf i).sector = v.key i
      have hin' := (hnd.mem_erase_iff).mp hin
      rw [hne i hin'.1]
      exact hk.key i hin'.2
    · change (c.buf i).dirty = true at hd
      change Logged v.log v.done (c.buf i).sector
      by_cases hib : i = b
      · subst hib
        rw [hbb] at hd ⊢
        exact hk.clean ht i (by simp [hv]) hd
      · rw [hne i hib] at hd ⊢
        exact hk.clean ht i hw hd

/-! ## The log -/

lemma wp_log (hs : Knows p v s) :
    Spec nbuf p (act (.cache .log))
      (fun l s => Knows p v s ∧ (v.trans = true → l = v.log)) s := by
  refine wp_step rfl (fun _ _ he h => h.env he) (fun s r s' hi _ hk he => ?_) hs
  cases he
  exact ⟨Quiet.good (.refl s) hi, hk, hk.log⟩

lemma relog {l : Bcache.LogHead} {d : Nat} (ht : v.trans = true) (hv : v.writing = none) (hi : Inv nbuf s)
    (hk : Knows p v s) (hl : ∀ k, Logged v.log v.done k → Logged l d k) :
    Good nbuf p s { s with cache := { s.cache with log := l } } ∧
      Knows p { v with log := l, done := d } { s with cache := { s.cache with log := l } } := by
  have ho := hk.owner.mpr ht
  have hclean : ∀ b, (s.cache.buf b).dirty = true → Logged l d (s.cache.buf b).sector := fun b hd =>
    hl _ (hk.clean ht b (by simp [hv]) hd)
  have hother : ∀ q, q ≠ p → s.owner ≠ some q := fun q hq h => hq (Option.some.inj (h.symm.trans ho))
  refine ⟨⟨⟨⟨hi.sane.listed, hi.sane.one, hi.sane.busy, hi.sane.uniq, hi.sane.named, hi.sane.used⟩, hi.nodup,
    hi.inCall, hi.few, fun b hd => .inl ((hclean b hd).mono (Nat.zero_le _)), fun h => ?_⟩, fun q hq => ?_⟩, ?_⟩
  · exact absurd (h.symm.trans ho) nofun
  · exact ⟨fun _ => .rfl, fun _ _ => rfl, .rfl, .rfl, fun h => absurd h (hother q hq), fun h => absurd h (hother q hq)⟩
  · exact ⟨hk.active, hk.owner, hk.own, hk.key, fun _ => rfl, fun _ b _ hd => hclean b hd⟩

lemma Logged.set {L : Bcache.LogHead} {m : Nat} {k k' : UInt32} (h : Logged L m k') (hi : i < L.n → L.sector i = k) :
    Logged { L with sector := L.sector.set i k } m k' := by
  obtain ⟨j, hj, hn, hk⟩ := h
  refine ⟨j, hj, hn, ?_⟩
  by_cases hji : j = i
  · subst hji
    exact (Table.get_set_self _ _ _).trans ((hi hn).symm.trans hk)
  · exact (Table.get_set_ne _ _ hji).trans hk

lemma wp_logSector {k : UInt32} (hs : Knows p v s) (hv : v.writing = none)
    (hsame : v.trans = true → i < v.log.n → v.log.sector i = k) :
    Spec nbuf p (act (.cache (.logSector i k)))
      (fun _ s => v.trans = true ∧ Knows p { v with log := { v.log with sector := v.log.sector.set i k } } s) s := by
  refine wp_step rfl (fun _ _ he h => h.env he) (fun s r s' hi hg hk he => ?_) hs
  have ht := hk.owner.mp hg
  have hlog := hk.log ht
  cases he
  obtain ⟨hgood, hknows⟩ := relog (l := { v.log with sector := v.log.sector.set i k }) (d := v.done) ht hv hi hk
    fun _ h => h.set (hsame ht)
  rw [hlog]
  exact ⟨hgood, ht, hknows⟩

lemma wp_logN {n d : Nat} (hs : Knows p v s) (ht : v.trans = true) (hv : v.writing = none)
    (hl : ∀ k, Logged v.log v.done k → Logged { v.log with n } d k) :
    Spec nbuf p (act (.cache (.logN n)))
      (fun _ => Knows p { v with log := { v.log with n }, done := d }) s := by
  refine wp_step rfl (fun _ _ he h => h.env he) (fun s r s' hi _ hk he => ?_) hs
  have hlog := hk.log ht
  cases he
  rw [hlog]
  exact relog ht hv hi hk hl

lemma place_spec (l : Bcache.LogHead) (k : UInt32) (n i : Nat) :
    l.place k n i ≤ i + n ∧ (l.place k n i < i + n → l.sector (l.place k n i) = k) := by
  induction n generalizing i with
  | zero => exact ⟨Nat.le_refl _, fun h => absurd h (Nat.lt_irrefl _)⟩
  | succ n ih =>
    rw [Bcache.LogHead.place]
    split
    · rename_i hk
      exact ⟨by omega, fun _ => hk⟩
    · obtain ⟨h1, h2⟩ := ih (i + 1)
      exact ⟨by omega, fun h => h2 (by omega)⟩

lemma Knows.forget {k : UInt32} (h : Knows p { v with key := Function.update v.key b k } s) (hb : b ∉ v.held) :
    Knows p v s := by
  refine ⟨h.active, h.owner, h.own, fun i hi => ?_, h.log, h.clean⟩
  have hib : i ≠ b := fun hib => hb (hib ▸ hi)
  exact (h.key i hi).trans (Function.update_of_ne hib k v.key)

lemma wp_brelseLast {k : UInt32} (hb : b ∉ v.held) (hnd : v.held.Nodup) (hv : v.writing = none)
    (hs : Knows p { v with held := b :: v.held, key := Function.update v.key b k } s) :
    Spec nbuf p (brelse b) (fun _ => Knows p v) s := by
  refine wp_mono (wp_brelseAt hs mem_cons_self (nodup_cons.mpr ⟨hb, hnd⟩) hv) fun _ s h => ?_
  rw [erase_cons_head] at h
  exact h.forget hb

lemma wp_logWriteAt (hs : Knows p v s) (hb : b ∈ v.held) (hnd : v.held.Nodup) (hlen : v.held.length ≤ 2)
    (hv : v.writing = none) (hdone : v.done = 0) :
    Spec nbuf p (logWrite b) (fun _ s => ∃ l, Knows p { v with log := l } s) s := by
  rw [logWrite, Bcache.logWrite, ofCache_bind, ofCache_act]
  refine wp_seq (wp_log hs) fun l s h => ?_
  obtain ⟨h, hl⟩ := h
  split
  · rw [ofCache_act]
    exact wp_cachePanic (by decide)
  split
  · rw [ofCache_act]
    exact wp_cachePanic (by decide)
  rw [ofCache_bind, ofCache_act]
  refine wp_seq (wp_buf h) fun x s h => ?_
  obtain ⟨h, hx⟩ := h
  obtain ⟨hdev, hsector⟩ := hx hb
  obtain ⟨hle, hplace⟩ := place_spec l x.sector l.n 0
  generalize l.place x.sector l.n 0 = i at hle hplace
  rw [Nat.zero_add] at hle hplace
  rw [ofCache_bind, ofCache_act]
  refine wp_seq (wp_logSector h hv fun ht hi => hl ht ▸ hplace (hl ht ▸ hi)) fun _ s h => ?_
  obtain ⟨ht, h⟩ := h
  obtain rfl := hl ht
  rw [ofCache_bind, hdev]
  refine wp_seq (wp_breadAt h (fun _ => hlen) hv) fun lbuf s h => ?_
  obtain ⟨hlbuf, h⟩ := h
  rw [ofCache_bind, ofCache_act]
  refine wp_seq (wp_buf h) fun y s h => ?_
  rw [ofCache_bind, ofCache_act]
  refine wp_seq (wp_modify (fun _ => y.data) h.1) fun _ s h => ?_
  rw [ofCache_bind]
  refine wp_seq (wp_bwrite (d := v.done) h ht mem_cons_self hv
    fun j h h' => absurd h' (Nat.not_lt.mpr h)) fun _ s h => ?_
  rw [ofCache_bind]
  refine wp_seq (wp_brelseLast (v := { v with log := { v.log with sector := v.log.sector.set i x.sector } })
    hlbuf hnd hv h) fun _ s h => ?_
  rw [ofCache_bind, ofCache_act]
  refine wp_seq (wp_log h) fun l' s h => ?_
  obtain ⟨h, hl'⟩ := h
  obtain rfl := hl' ht
  -- the sector is at place `i`, which is in the log when `n` has been counted up
  split
  · rename_i hin
    rw [ofCache_bind, ofCache_act]
    refine wp_seq (wp_logN (d := v.done) h ht hv ?_) fun _ s h => ?_
    · rintro k ⟨j, hj, hn, hk⟩
      exact ⟨j, hj, Nat.lt_succ_of_lt hn, hk⟩
    · rw [ofCache_act]
      refine wp_mono (wp_setDirty h ht hb hv) fun _ s h => ⟨_, h.logged hb ?_⟩
      exact ⟨i, by simp [hdone], by simp [hin], (Table.get_set_self _ _ _).trans hsector⟩
  · rename_i hin
    rw [ofCache_act]
    refine wp_mono (wp_setDirty h ht hb hv) fun _ s h => ⟨_, h.logged hb ?_⟩
    exact ⟨i, by simp [hdone], by change i ≠ v.log.n at hin; change i < v.log.n; omega,
      (Table.get_set_self _ _ _).trans hsector⟩

/-! ## Transactions -/

lemma wp_begin (hs : Knows p v s) :
    Spec nbuf p (act .beginTrans)
      (fun _ s => ∃ l, Knows p { v with trans := true, log := l, done := 0 } s) s := by
  refine wp_step rfl (fun _ _ he h => h.env he) (fun s r s' hi _ hk he => ?_) hs
  change exec nbuf p .beginTrans s = _ at he
  rw [exec] at he
  split at he
  · rename_i hfree
    cases he
    have hn := hi.rest hfree
    -- nothing is dirty between transactions
    have hclean : ∀ b, ¬(s.cache.buf b).dirty = true := by
      intro b hd
      rcases hi.dirty b hd with ⟨j, -, hj, -⟩ | ⟨q, -, ho⟩
      · omega
      · exact absurd (ho.symm.trans hfree) nofun
    refine ⟨⟨⟨⟨hi.sane.listed, hi.sane.one, hi.sane.busy, hi.sane.uniq, hi.sane.named, hi.sane.used⟩, hi.nodup,
      hi.inCall, fun q => (hi.few q).trans ?_, fun b hd => absurd hd (hclean b), nofun⟩, fun q hq => ?_⟩,
      { s.cache.log with busy := true }, hk.active, ?_, hk.own, hk.key, fun _ => rfl,
        fun _ b _ hd => absurd hd (hclean b)⟩
    · rw [State.allowance, State.allowance, if_neg (by rw [State.owner, hfree]; nofun)]
      split <;> omega
    · have hno : s.owner ≠ some q := by rw [State.owner, hfree]; nofun
      refine ⟨fun _ => .rfl, fun _ _ => rfl, .rfl, ⟨fun h => ?_, fun h => absurd h hno⟩, fun h => absurd h hno,
        fun h => absurd h hno⟩
      exact absurd (Option.some.inj h).symm hq
    · exact ⟨fun _ => rfl, fun _ => rfl⟩
  · cases he

lemma wp_endTrans (hs : Knows p v s) (ht : v.trans = true) (hheld : v.held = []) (hv : v.writing = none)
    (hn : v.log.n = 0) :
    Spec nbuf p (act .endTrans) (fun _ => Knows p { v with trans := false }) s := by
  refine wp_step rfl (fun _ _ he h => h.env he) (fun s r s' hi _ hk he => ?_) hs
  cases he
  have ho := hk.owner.mpr ht
  have hother : ∀ q, q ≠ p → s.owner ≠ some q := fun q hq h => hq (Option.some.inj (h.symm.trans ho))
  have hclean : ∀ b, ¬(s.cache.buf b).dirty = true := by
    intro b hd
    obtain ⟨j, -, hj, -⟩ := hk.clean ht b (by simp [hv]) hd
    omega
  have hnone : ∀ b, ¬s.holds b p := fun b hb => by simpa [hheld] using (hk.own b).mp hb
  refine ⟨⟨⟨⟨hi.sane.listed, hi.sane.one, hi.sane.busy, hi.sane.uniq, hi.sane.named, hi.sane.used⟩, hi.nodup,
    hi.inCall, fun q => ?_, fun b hd => absurd hd (hclean b), fun _ => ?_⟩, fun q hq => ?_⟩,
    hk.active, ⟨nofun, nofun⟩, hk.own, hk.key, nofun, nofun⟩
  · by_cases hq : q = p
    · subst hq
      have hshare : Pool.share nbuf s.holds q ≤ ([] : List Nat).length :=
        Pool.share_le_length fun b hb => absurd hb (hnone b)
      exact hshare.trans (Nat.zero_le _)
    · refine (hi.few q).trans ?_
      rw [State.allowance, State.allowance, if_neg (hother q hq)]
      split <;> omega
  · change s.cache.log.n = 0
    rw [hk.log ht]
    exact hn
  · exact ⟨fun _ => .rfl, fun _ _ => rfl, .rfl, ⟨nofun, fun h => absurd h (hother q hq)⟩,
      fun h => absurd h (hother q hq), fun h => absurd h (hother q hq)⟩

lemma wp_data (hs : Knows p v s) :
    Spec nbuf p (data b) (fun _ => Knows p v) s :=
  wp_seq (wp_buf hs) fun _ _ h => wp_ret h.1

lemma wp_writeHead (hs : Knows p v s) (ht : v.trans = true) (hheld : v.held = []) (hv : v.writing = none) :
    Spec nbuf p writeHead (fun _ => Knows p v) s := by
  refine wp_seq (wp_log hs) fun l s h => ?_
  refine wp_seq (wp_breadAt h.1 (fun _ => by simp [hheld]) hv) fun b s h => ?_
  obtain ⟨hb, h⟩ := h
  refine wp_seq (wp_modify _ h) fun _ s h => ?_
  refine wp_seq (wp_bwrite (d := v.done) h ht mem_cons_self hv fun j h h' => absurd h' (Nat.not_lt.mpr h))
    fun _ s h => ?_
  exact wp_brelseLast hb (by simp [hheld]) hv h

end Xv6.Buffered
