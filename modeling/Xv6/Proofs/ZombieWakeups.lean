import Xv6.Lib.Schedule
import Xv6.Process
import Mathlib.Order.Basic

/-!
# Zombies and waiting parents

`exit` wakes its parent before it becomes a zombie, and init if it passed a zombie to it. While a
process holds `ptable.lock` nobody else falls asleep, exits or changes the parent of an exited process.
-/

namespace Xv6.Process.Zombies

open Threads Table

variable {X C : Type} {body : C → Kprog X Unit} {s s' s'' : State X} {p i j n nproc : Nat} {K : State X → Prop}

/-- Process `i` sleeps in `wait`. -/
def InWait (s : State X) (i : Nat) : Prop := (s.procs i).state = .sleeping ∧ (s.procs i).chan = some (.proc i)

/-- No process of the table that sleeps in `wait`, and that `E` does not exempt, has an exited
child. -/
def CalmBut (nproc : Nat) (E : Nat → Prop) (s : State X) : Prop :=
  ∀ i j, i < nproc → ¬E i → InWait s i → (s.procs j).state = .zombie → (s.procs j).parent ≠ some i

def Calm (nproc : Nat) (s : State X) : Prop := CalmBut nproc (fun _ => False) s

/-- From `s` to `s'` nobody falls asleep or exits, and no exited process gets another parent. -/
structure Calmer (s s' : State X) : Prop where
  asleep : ∀ i, (s'.procs i).state = .sleeping → (s.procs i).state = .sleeping ∧ (s'.procs i).chan = (s.procs i).chan
  exited : ∀ i, (s'.procs i).state = .zombie → (s.procs i).state = .zombie ∧ (s'.procs i).parent = (s.procs i).parent

lemma Calmer.refl (s : State X) : Calmer s s := ⟨fun _ h => ⟨h, rfl⟩, fun _ h => ⟨h, rfl⟩⟩

lemma Calmer.trans (h : Calmer s s') (h' : Calmer s' s'') : Calmer s s'' := by
  refine ⟨fun i hi => ?_, fun i hi => ?_⟩
  · obtain ⟨hs', hc'⟩ := h'.asleep i hi
    obtain ⟨hs, hc⟩ := h.asleep i hs'
    exact ⟨hs, hc'.trans hc⟩
  · obtain ⟨hs', hc'⟩ := h'.exited i hi
    obtain ⟨hs, hc⟩ := h.exited i hs'
    exact ⟨hs, hc'.trans hc⟩

lemma Calmer.inWait (h : Calmer s s') (hw : InWait s' i) : InWait s i := by
  obtain ⟨hs, hc⟩ := h.asleep i hw.1
  exact ⟨hs, hc ▸ hw.2⟩

lemma Calmer.calmBut {E : Nat → Prop} (h : Calmer s s') (hc : CalmBut nproc E s) : CalmBut nproc E s' := by
  intro i j hi hE hw hz
  obtain ⟨hz', hpar⟩ := h.exited j hz
  rw [hpar]
  exact hc i j hi hE (h.inWait hw) hz'

/-! ## The invariant -/

/-- What a process on a CPU may be: running, or on its way out under `ptable.lock`. -/
def OnCpu (s : State X) (i : Nat) (st : ProcState) : Prop :=
  st = .running ∨ (s.locks ptableLock = some i ∧ (st = .sleeping ∨ st = .zombie))

structure Inv (nproc : Nat) (s : State X) : Prop where
  calm : s.locks ptableLock = none → Calm nproc s
  cpu : ∀ i, (s.procs i).onCpu = true → OnCpu s i (s.procs i).state
  holder : ∀ i, s.locks ptableLock = some i → (s.procs i).onCpu = true
  out : ∀ i, nproc ≤ i → i ≠ initproc → (s.procs i).state = .unused
  root : (s.procs initproc).state ≠ .unused ∧ (s.procs initproc).state ≠ .embryo ∧
    (s.procs initproc).state ≠ .zombie ∧ (s.procs initproc).parent = none
  tree : ∀ i, (s.procs i).parent ≠ some i

def Making (p i : Nat) (s : State X) : Prop := (s.procs i).state = .embryo ∧ (s.procs i).maker = p

structure Env (p : Nat) (s s' : State X) : Prop where
  lock : s'.locks ptableLock = some p ↔ s.locks ptableLock = some p
  making : ∀ i, Making p i s → Making p i s'
  held : s.locks ptableLock = some p → Calmer s s' ∧ (s'.procs p).state = (s.procs p).state ∧
    (s'.procs p).parent = (s.procs p).parent ∧ (s'.procs p).chan = (s.procs p).chan

lemma Env.refl (p : Nat) (s : State X) : Env p s s := ⟨.rfl, fun _ h => h, fun _ => ⟨.refl s, rfl, rfl, rfl⟩⟩

lemma Env.trans (h : Env p s s') (h' : Env p s' s'') : Env p s s'' := by
  refine ⟨h'.lock.trans h.lock, fun i hm => h'.making i (h.making i hm), fun hl => ?_⟩
  obtain ⟨hc, hs, hp, hch⟩ := h.held hl
  obtain ⟨hc', hs', hp', hch'⟩ := h'.held (h.lock.mpr hl)
  exact ⟨hc.trans hc', hs'.trans hs, hp'.trans hp, hch'.trans hch⟩

def logic (X : Type) (nproc : Nat) : Logic Tid (Act X) (State X) Panic where
  Inv := Inv nproc
  Rely := fun t s s' => match t with
    | .proc p => Env p s s'
    | .cpu _ => True
  Given := fun _ _ _ => True
  Pre := fun _ _ _ => True
  Allowed := fun _ => True
  Idle := fun t s => match t with
    | .proc p => s.locks ptableLock ≠ some p
    | .cpu _ => True

abbrev Spec (body : C → Kprog X Unit) (nproc p : Nat) {α : Type} :=
  wp (α := α) (machine body) (logic X nproc) (.proc p)

def Good (nproc p : Nat) (s s' : State X) : Prop := Inv nproc s' ∧ ∀ q, q ≠ p → Env q s s'

/-! ## What actions do -/

/-- Slot `i` becomes `q`, and `ptable.lock` is held by `l`. -/
structure Sets (s s' : State X) (i : Nat) (q : Proc) (l : Option Nat) : Prop where
  procs : ∀ j, s'.procs j = if j = i then q else s.procs j
  lock : s'.locks ptableLock = l

structure Keeps (x q : Proc) : Prop where
  state : q.state = x.state
  parent : q.parent = x.parent
  maker : q.maker = x.maker
  chan : x.state = .sleeping → q.chan = x.chan

/-- What `p`, or a scheduler, sets a slot and `ptable.lock` to. The last argument says that nobody falls asleep
or exits by it, and no exited process gets another parent. -/
inductive Move (nproc p i : Nat) (s : State X) (q : Proc) : Option Nat → Bool → Prop where
  | take (hip : i = p) (hfree : s.locks ptableLock = none) (hp : (s.procs p).onCpu = true) (hq : Keeps (s.procs i) q)
      (hon : q.onCpu = (s.procs i).onCpu) : Move nproc p i s q (some p) true
  | drop (hip : i = p) (hl : s.locks ptableLock = some p) (hcalm : Calm nproc s) (hq : Keeps (s.procs i) q)
      (hon : q.onCpu = true → (s.procs i).state = .running) : Move nproc p i s q none true
  | same (hmine : s.locks ptableLock = some i → i = p) (hq : Keeps (s.procs i) q)
      (hon : q.onCpu = (s.procs i).onCpu) : Move nproc p i s q (s.locks ptableLock) true
  | embryo (hp : (s.procs p).onCpu = true) (hst : (s.procs i).state = .unused ∨ Making p i s) (hlt : i < nproc)
      (hq : q.state = .unused ∨ q.state = .embryo ∨ q.state = .runnable)
      (hpar : q.parent = (s.procs i).parent ∨ q.parent = some p) (hon : q.onCpu = (s.procs i).onCpu) :
      Move nproc p i s q (s.locks ptableLock) true
  | rouse (hl : s.locks ptableLock = some p) (hp : (s.procs p).state = .running) (hst : (s.procs i).state = .sleeping)
      (hq : q.state = .runnable) (hpar : q.parent = (s.procs i).parent) (hon : q.onCpu = (s.procs i).onCpu) :
      Move nproc p i s q (some p) true
  | reap (hl : s.locks ptableLock = some p) (hp : (s.procs p).state = .running) (hst : (s.procs i).state = .zombie)
      (hq : q.state = .unused) (hpar : q.parent = none) (hon : q.onCpu = (s.procs i).onCpu) :
      Move nproc p i s q (some p) true
  | switch (hfree : s.locks ptableLock = none) (hst : (s.procs i).state = .runnable ∨ (s.procs i).state = .running)
      (hq : q.state = .running ∨ q.state = .runnable ∧ q.onCpu = false) (hpar : q.parent = (s.procs i).parent) :
      Move nproc p i s q none true
  | leave (hip : i = p) (hl : s.locks ptableLock = some p) (hst : (s.procs i).state = .running)
      (hq : q.state = .sleeping ∨ q.state = .zombie ∧ p ≠ initproc) (hpar : q.parent = (s.procs i).parent)
      (hon : q.onCpu = (s.procs i).onCpu) : Move nproc p i s q (some p) false
  | abandon (hl : s.locks ptableLock = some p) (hq : q.state = (s.procs i).state) (hmk : q.maker = (s.procs i).maker)
      (hold : (s.procs i).parent = some p) (hpar : q.parent = some initproc) (hon : q.onCpu = (s.procs i).onCpu) :
      Move nproc p i s q (some p) false

variable {q : Proc} {l : Option Nat} {b : Bool}

lemma Sets.calmer (hs : Sets s s' i q l) (h : Move nproc p i s q l true) : Calmer s s' := by
  have hprocs := hs.procs
  constructor
  · intro j
    cases h <;> grind [Keeps]
  · intro j
    cases h <;> grind [Keeps]

lemma Move.calm (h : Move nproc p i s q l b) (hi : Inv nproc s) (hl : l = none) : Calm nproc s := by
  cases h with
  | drop _ _ hcalm => exact hcalm
  | same | embryo => exact hi.calm hl
  | switch hfree => exact hi.calm hfree
  | _ => cases hl

lemma Sets.inv (hs : Sets s s' i q l) (h : Move nproc p i s q l b) (hi : Inv nproc s) : Inv nproc s' := by
  have hprocs := hs.procs
  have hlock := hs.lock
  have hcpu := hi.cpu
  have hholder := hi.holder
  have hroot := hi.root
  unfold OnCpu at hcpu
  refine ⟨fun hfree => ?_, ?_, ?_, ?_, ?_, fun j => ?_⟩
  · have hl : l = none := hlock.symm.trans hfree
    cases b with
    | true => exact (hs.calmer h).calmBut (h.calm hi hl)
    | false => cases h <;> cases hl
  · cases h <;> grind [OnCpu, Making, Keeps]
  · cases h <;> grind [OnCpu, Making, Keeps]
  · have hout := hi.out
    cases h <;> grind [Keeps]
  · cases h <;> grind [Making, Keeps]
  · have htree := hi.tree j
    rw [hprocs j]
    by_cases hj : j = i <;> cases h <;> grind [Making, Keeps]

lemma Sets.env {o : Nat} (hs : Sets s s' i q l) (h : Move nproc p i s q l b) (hi : Inv nproc s) (ho : o ≠ p) :
    Env o s s' := by
  have hprocs := hs.procs
  have hlock := hs.lock
  have hholder := hi.holder
  refine ⟨?_, ?_, fun hlo => ?_⟩
  · cases h <;> grind
  · cases h <;> grind [Making, Keeps]
  · cases b with
    | true =>
      have hcpu := hi.cpu
      unfold OnCpu at hcpu
      have hself : s'.procs o = s.procs o := by cases h <;> grind [Making]
      rw [hself]
      exact ⟨hs.calmer h, rfl, rfl, rfl⟩
    | false => cases h <;> grind

lemma Sets.good (hs : Sets s s' i q l) (h : Move nproc p i s q l b) (hi : Inv nproc s) : Good nproc p s s' :=
  ⟨hs.inv h hi, fun _ ho => hs.env h hi ho⟩

/-! ## Rules -/

lemma wp_step {a : Act X} {S : State X → Prop} {U : a.Res → State X → Prop} (hS : ∀ s s', Env p s s' → S s → S s')
    (h : ∀ s r s', Inv nproc s → (s.procs p).onCpu = true → S s → step p a s = .next r s' →
      Good nproc p s s' ∧ U r s') (hs : S s) :
    Spec body nproc p (act a) U s := by
  refine wp_call hs hS fun s hi _ hS => ⟨trivial, .of_next (fun _ _ => trivial) fun r s' he => ?_⟩
  obtain ⟨hon, hstep⟩ := exec_proc he
  obtain ⟨hgood, hU⟩ := h s r s' hi hon hS hstep
  refine ⟨hgood.1, fun q hq => ?_, hU⟩
  cases q with
  | proc q => exact hgood.2 q (fun h => hq (h ▸ rfl))
  | cpu n => trivial

/-- An assertion about the table that lasts while others are calm and leave the parent of `p`. -/
def Lasting (p : Nat) (K : State X → Prop) : Prop :=
  ∀ s s', Calmer s s' → (s'.procs p).parent = (s.procs p).parent → K s → K s'

lemma lasting_calm (p : Nat) (E : Nat → Prop) : Lasting (X := X) p (CalmBut nproc E) := fun _ _ hc _ hk => hc.calmBut hk

lemma Lasting.and {K K' : State X → Prop} (h : Lasting p K) (h' : Lasting p K') : Lasting p fun s => K s ∧ K' s :=
  fun s s' hc hp hk => ⟨h s s' hc hp hk.1, h' s s' hc hp hk.2⟩

structure Inside (p : Nat) (K : State X → Prop) (s : State X) : Prop where
  lock : s.locks ptableLock = some p
  running : (s.procs p).state = .running
  knows : K s

lemma Inside.env (hK : Lasting p K) (he : Env p s s') (h : Inside p K s) : Inside p K s' := by
  obtain ⟨hc, hs, hp, _⟩ := he.held h.lock
  exact ⟨he.lock.mpr h.lock, hs.trans h.running, hK s s' hc hp h.knows⟩

lemma Inside.mono {K' : State X → Prop} (h : Inside p K s) (hK : ∀ s, K s → K' s) : Inside p K' s :=
  ⟨h.lock, h.running, hK s h.knows⟩

lemma Inv.running (hi : Inv nproc s) (hon : (s.procs p).onCpu = true) (hl : s.locks ptableLock ≠ some p) :
    (s.procs p).state = .running := by
  rcases hi.cpu p hon with h | h
  · exact h
  · exact absurd h.1 hl

def Outside (p : Nat) (s : State X) : Prop := s.locks ptableLock ≠ some p

lemma Outside.env (h : Outside p s) (he : Env p s s') : Outside p s' := fun hl => h (he.lock.mp hl)

lemma Sets.of_procs (hp : s'.procs = (s.setProc i q).procs) (hl : s'.locks ptableLock = l) : Sets s s' i q l :=
  ⟨fun j => by rw [hp, State.setProc_procs], hl⟩

lemma step_acquire {l : Nat} {r : Unit} (he : step p (.acquire l) s = .next r s') : s.locks l = none ∧
    ∃ q, Sets s s' p q (if ptableLock = l then some p else s.locks ptableLock) ∧ Keeps (s.procs p) q ∧
      q.onCpu = (s.procs p).onCpu := by
  rw [step] at he
  cases hl : s.locks l with
  | some o =>
    rw [hl] at he
    dsimp only at he
    split at he <;> cases he
  | none =>
    rw [hl] at he
    cases he
    exact ⟨rfl, _, .of_procs rfl (get_set _ _ _ _), ⟨rfl, rfl, rfl, fun _ => rfl⟩, rfl⟩

lemma step_release {l : Nat} {r : Unit} (he : step p (.release l) s = .next r s') :
    ∃ q, Sets s s' p q (if ptableLock = l then none else s.locks ptableLock) ∧ Keeps (s.procs p) q ∧
      q.onCpu = (s.procs p).onCpu := by
  rw [step] at he
  split at he
  · cases he
    exact ⟨_, .of_procs rfl (get_set _ _ _ _), ⟨rfl, rfl, rfl, fun _ => rfl⟩, rfl⟩
  · cases he

lemma step_sched {r : Unit} (he : step p .sched s = .next r s') :
    ∃ q, Sets s s' p q none ∧ Keeps (s.procs p) q ∧ q.onCpu = false := by
  rw [step] at he
  split at he
  · cases he
  split at he
  · cases he
  split at he
  · cases he
  · cases he
    exact ⟨_, .of_procs rfl (get_set_self _ _ _), ⟨rfl, rfl, rfl, fun _ => rfl⟩, rfl⟩

/-- Under `ptable.lock`, `p` keeps what it knows if others are calm. -/
lemma Inside.keep (hin : Inside p K s) (hs : Sets s s' i q l) (hK : Lasting p K) (h : Move nproc p i s q l true)
    (hl : l = some p) : Inside p K s' := by
  have hprocs := hs.procs
  have hrun := hin.running
  have hself : (s'.procs p).state = .running ∧ (s'.procs p).parent = (s.procs p).parent := by
    cases h <;> grind [Keeps, Making]
  exact ⟨hs.lock.trans hl, hself.1, hK s s' (hs.calmer h) hself.2 hin.knows⟩

lemma Inside.move (hin : Inside p K s) (hK : Lasting p K) (hi : Inv nproc s) (h : Move nproc p i s q l true)
    (hl : l = s.locks ptableLock) : Good nproc p s (s.setProc i q) ∧ Inside p K (s.setProc i q) := by
  subst hl
  have hset : Sets s (s.setProc i q) i q (s.locks ptableLock) := .of_procs rfl rfl
  exact ⟨hset.good h hi, hin.keep hset hK h hin.lock⟩

lemma wp_take (hs : Outside p s) :
    Spec body nproc p (acquire ptableLock) (fun _ => Inside p (Calm nproc)) s := by
  refine wp_step (fun _ _ he h => Outside.env h he) (fun s _ s' hi hon hout he => ?_) hs
  obtain ⟨hfree, q, hset, hq, hoc⟩ := step_acquire he
  have hm : Move nproc p p s q (some p) true := .take rfl hfree hon hq hoc
  refine ⟨hset.good hm hi, hset.lock, ?_, (hset.calmer hm).calmBut (hi.calm hfree)⟩
  rw [hset.procs, if_pos rfl, hq.state]
  exact hi.running hon hout

lemma Outside.same (hout : Outside p s) (hi : Inv nproc s) (hq : Keeps (s.procs p) q)
    (hon : q.onCpu = (s.procs p).onCpu)
    (hset : Sets s s' p q (s.locks ptableLock)) : Good nproc p s s' ∧ Outside p s' :=
  ⟨hset.good (.same (fun _ => rfl) hq hon) hi, fun h => hout (hset.lock.symm.trans h)⟩

lemma wp_acquire_other {l : Nat} (hl : l ≠ ptableLock) (hs : Outside p s) :
    Spec body nproc p (acquire l) (fun _ => Outside p) s := by
  refine wp_step (fun _ _ he h => Outside.env h he) (fun s _ s' hi hon hout he => ?_) hs
  obtain ⟨_, q, hset, hq, hoc⟩ := step_acquire he
  rw [if_neg (Ne.symm hl)] at hset
  exact hout.same hi hq hoc hset

lemma wp_acquire_calm (l : Nat) (hs : Outside p s) :
    Spec body nproc p (acquire l)
      (fun _ s => if l = ptableLock then Inside p (Calm nproc) s else Outside p s) s := by
  by_cases hl : l = ptableLock
  · subst hl
    simp only [if_true]
    exact wp_take hs
  · simp only [hl, if_false]
    exact wp_acquire_other hl hs

lemma wp_release_inside {l : Nat} (hl : l ≠ ptableLock) (hs : Inside p (Calm nproc) s) :
    Spec body nproc p (release l) (fun _ => Inside p (Calm nproc)) s := by
  refine wp_step (fun _ _ he h => h.env (lasting_calm p _) he) (fun s _ s' hi hon hin he => ?_) hs
  obtain ⟨q, hset, hq, hoc⟩ := step_release he
  rw [if_neg (Ne.symm hl)] at hset
  have hm : Move nproc p p s q (s.locks ptableLock) true := .same (fun _ => rfl) hq hoc
  exact ⟨hset.good hm hi, hin.keep hset (lasting_calm p _) hm hin.lock⟩

lemma wp_release_other {l : Nat} (hl : l ≠ ptableLock) (hs : Outside p s) :
    Spec body nproc p (release l) (fun _ => Outside p) s := by
  refine wp_step (fun _ _ he h => Outside.env h he) (fun s _ s' hi hon hout he => ?_) hs
  obtain ⟨q, hset, hq, hoc⟩ := step_release he
  rw [if_neg (Ne.symm hl)] at hset
  exact hout.same hi hq hoc hset

lemma drop_good (hi : Inv nproc s) (hl : s.locks ptableLock = some p) (hcalm : Calm nproc s) (hs : Sets s s' p q none)
    (hq : Keeps (s.procs p) q) (hon : q.onCpu = true → (s.procs p).state = .running) :
    Good nproc p s s' ∧ Outside p s' :=
  ⟨hs.good (.drop rfl hl hcalm hq hon) hi, by simp [Outside, hs.lock]⟩

lemma wp_leave (hs : Inside p (Calm nproc) s) :
    Spec body nproc p (release ptableLock) (fun _ => Outside p) s := by
  refine wp_step (fun _ _ he h => h.env (lasting_calm p _) he) (fun s _ s' hi hon hin he => ?_) hs
  obtain ⟨q, hset, hq, _⟩ := step_release he
  exact drop_good hi hin.lock hin.knows hset hq fun _ => hin.running

structure Leaving (nproc p : Nat) (s : State X) : Prop where
  lock : s.locks ptableLock = some p
  calm : Calm nproc s

lemma Leaving.env (h : Leaving nproc p s) (he : Env p s s') : Leaving nproc p s' :=
  ⟨he.lock.mpr h.lock, (he.held h.lock).1.calmBut h.calm⟩

lemma wp_switch (hs : Leaving nproc p s) :
    Spec body nproc p (act .sched) (fun _ => Outside p) s := by
  refine wp_step (fun _ _ he h => h.env he) (fun s _ s' hi hon hin he => ?_) hs
  obtain ⟨q, hset, hq, hoff⟩ := step_sched he
  exact drop_good hi hin.lock hin.calm hset hq (by simp [hoff])

lemma wp_read {a : Act X} {S : State X → Prop} (hS : ∀ s s', Env p s s' → S s → S s') {U : a.Res → State X → Prop}
    (h : ∀ s r s', S s → step p a s = .next r s' → s' = s ∧ U r s) (hs : S s) :
    Spec body nproc p (act a) U s := by
  refine wp_step hS (fun s r s' hi _ hSs he => ?_) hs
  obtain ⟨rfl, hU⟩ := h s r s' hSs he
  exact ⟨⟨hi, fun q _ => .refl q _⟩, hU⟩

/-! ## Sleep, wakeup and kill -/

/-- No process of the slots from `a` up to `b` sleeps on `c`. -/
def Awake (c : Option Chan) (a b : Nat) (s : State X) : Prop :=
  ∀ r, a ≤ r → r < b → ¬((s.procs r).state = .sleeping ∧ (s.procs r).chan = c)

lemma lasting_awake (c : Option Chan) (a b p : Nat) : Lasting (X := X) p (Awake c a b) := by
  intro s s' hc _ hk r ha hb hr
  obtain ⟨hs, hch⟩ := hc.asleep r hr.1
  exact hk r ha hb ⟨hs, hch ▸ hr.2⟩

lemma wp_wake (c : Option Chan) (a : Nat) (hK : Lasting p K) (hs : Inside p (fun s => K s ∧ Awake c a i s) s) :
    Spec body nproc p (act (.wake i c)) (fun _ => Inside p fun s => K s ∧ Awake c a (i + 1) s) s := by
  have hKA := hK.and (lasting_awake c a i p)
  refine wp_step (fun _ _ he h => h.env hKA he) (fun s _ s' hi hon hin he => ?_) hs
  have hnext : ∀ t : State X, Inside p (fun s => K s ∧ Awake c a i s) t →
      ¬((t.procs i).state = .sleeping ∧ (t.procs i).chan = c) → Inside p (fun s => K s ∧ Awake c a (i + 1) s) t := by
    refine fun t ht hnot => ⟨ht.lock, ht.running, ht.knows.1, fun r ha hb hr => ?_⟩
    by_cases hri : r = i
    · exact hnot (hri ▸ hr)
    · exact ht.knows.2 r ha (by omega) hr
  rw [step] at he
  cases he
  split
  · rename_i hsl
    obtain ⟨hgood, hin'⟩ := hin.move (q := { s.procs i with state := .runnable }) hKA hi
      (.rouse hin.lock hin.running hsl.1 rfl rfl rfl) hin.lock.symm
    exact ⟨hgood, hnext _ hin' (by simp)⟩
  · rename_i hsl
    exact ⟨⟨hi, fun q _ => .refl q s⟩, hnext s hin hsl⟩

lemma wp_wakeFrom (c : Option Chan) (a : Nat) (hK : Lasting p K) (n i : Nat)
    (hs : Inside p (fun s => K s ∧ Awake c a i s) s) :
    Spec body nproc p (wakeFrom c n i)
      (fun _ => Inside p fun s => K s ∧ Awake c a (i + n) s) s := by
  induction n generalizing i s with
  | zero =>
    have hKA := hK.and (lasting_awake c a i p)
    refine wp_step (fun _ _ he h => h.env hKA he) (fun s _ s' hi hon hin he => ?_) hs
    cases he
    exact hin.move hKA hi (.same (fun _ => rfl) ⟨rfl, rfl, rfl, fun _ => rfl⟩ rfl) rfl
  | succ n ih =>
    rw [show i + (n + 1) = i + 1 + n by omega]
    exact wp_seq (wp_wake c a hK hs) fun _ _ h => ih (i + 1) h

lemma wp_wakeup1 (c : Option Chan) (hK : Lasting p K) (hs : Inside p K s) :
    Spec body nproc p (wakeup1 nproc c)
      (fun _ => Inside p fun s => K s ∧ Awake c 0 nproc s) s := by
  have hstart : Inside p (fun s => K s ∧ Awake c 0 0 s) s :=
    ⟨hs.lock, hs.running, hs.knows, fun r _ hr => absurd hr (Nat.not_lt_zero r)⟩
  have hloop : Spec body nproc p (wakeFrom c nproc 0) _ s := wp_wakeFrom c 0 hK nproc 0 hstart
  rw [Nat.zero_add] at hloop
  exact hloop

lemma wp_wakeup (c : Chan) (hs : Outside p s) :
    Spec body nproc p (wakeup nproc c) (fun _ => Outside p) s := by
  refine wp_seq (wp_take hs) fun _ _ h => ?_
  refine wp_seq (wp_wakeup1 (some c) (lasting_calm p _) h) fun _ _ h => ?_
  exact wp_leave (h.mono fun _ hk => hk.1)

lemma wp_killFrom (pid : Int32) (n i : Nat) (hs : Inside p (Calm nproc) s) :
    Spec body nproc p (killFrom pid n i) (fun _ => Inside p (Calm nproc)) s := by
  induction n generalizing i s with
  | zero => exact wp_ret hs
  | succ n ih =>
    have hK : Lasting (X := X) p (Calm nproc) := lasting_calm p _
    refine wp_seq (Q := fun _ => Inside p (Calm nproc)) (wp_step (fun _ _ he h => h.env hK he)
      (fun s _ s' hi hon hin he => ?_) hs) fun found _ h => ?_
    · rw [step] at he
      split at he
      · cases he
        by_cases hsl : (s.procs i).state = .sleeping
        · exact hin.move hK hi (.rouse hin.lock hin.running hsl (if_pos hsl) rfl rfl) hin.lock.symm
        · exact hin.move hK hi (.same (fun h => (Option.some.inj (hin.lock.symm.trans h)).symm)
            ⟨if_neg hsl, rfl, rfl, fun _ => rfl⟩ rfl) rfl
      · cases he
        exact ⟨⟨hi, fun q _ => .refl q s⟩, hin⟩
    · cases found with
      | true => exact wp_ret h
      | false => exact ih (i + 1) h

lemma wp_kill (pid : Int32) (hs : Outside p s) :
    Spec body nproc p (kill nproc pid) (fun _ => Outside p) s := by
  refine wp_seq (wp_take hs) fun _ _ h => ?_
  refine wp_seq (wp_killFrom pid nproc 0 h) fun _ _ h => ?_
  exact wp_seq_ret (wp_leave h)

def NoZombies (p n : Nat) (s : State X) : Prop :=
  ∀ j, j < n → (s.procs j).state = .zombie → (s.procs j).parent ≠ some p

lemma lasting_noZombies (p n : Nat) : Lasting (X := X) p (NoZombies p n) := by
  intro s s' hc _ hk j hj hz
  obtain ⟨hz', hpar⟩ := hc.exited j hz
  rw [hpar]
  exact hk j hj hz'

/-- What a process knows that is about to sleep on `chan`. -/
def MaySleep (nproc p : Nat) (chan : Chan) (s : State X) : Prop :=
  Calm nproc s ∧ (chan = .proc p → NoZombies p nproc s)

lemma lasting_maySleep (nproc p : Nat) (chan : Chan) : Lasting (X := X) p (MaySleep nproc p chan) :=
  fun s s' hc hp hk => ⟨hc.calmBut hk.1, fun h => lasting_noZombies p nproc s s' hc hp (hk.2 h)⟩

structure Drowsy (nproc p : Nat) (chan : Chan) (s : State X) : Prop where
  inside : Inside p (MaySleep nproc p chan) s
  chan : (s.procs p).chan = some chan

lemma Drowsy.env {chan : Chan} (h : Drowsy nproc p chan s) (he : Env p s s') : Drowsy nproc p chan s' :=
  ⟨h.inside.env (lasting_maySleep nproc p chan) he, (he.held h.inside.lock).2.2.2.trans h.chan⟩

lemma wp_setChan (c : Option Chan) (hK : Lasting p K) (hs : Inside p K s) :
    Spec body nproc p (act (.setChan c))
      (fun _ s => Inside p K s ∧ (s.procs p).chan = c) s := by
  refine wp_step (fun _ _ he h => h.env hK he) (fun s _ s' hi hon hin he => ?_) hs
  cases he
  obtain ⟨hgood, hin'⟩ := hin.move (q := { s.procs p with chan := c }) hK hi (.same (fun _ => rfl)
    ⟨rfl, rfl, rfl, fun h => by simp [hin.running] at h⟩ rfl) rfl
  exact ⟨hgood, hin', by simp⟩

lemma wp_sleeping {chan : Chan} (hs : Drowsy nproc p chan s) :
    Spec body nproc p (act .sleeping) (fun _ => Leaving nproc p) s := by
  refine wp_step (fun _ _ he h => h.env he) (fun s _ s' hi hon hd he => ?_) hs
  cases he
  have hin := hd.inside
  have hset : Sets s (s.setProc p { s.procs p with state := .sleeping }) p _ (some p) := .of_procs rfl hin.lock
  have hget := hset.procs
  refine ⟨hset.good (.leave rfl hin.lock hin.running (.inl rfl) rfl rfl) hi, hset.lock, fun i j hlt _ hw hz => ?_⟩
  -- the new sleeper has looked for zombies, the others have none
  have hjp : j ≠ p := by
    rintro rfl
    simp at hz
  rw [hget, if_neg hjp] at hz ⊢
  by_cases hip : i = p
  · subst hip
    have hch : chan = .proc i := by
      have := hw.2
      rw [hget, if_pos rfl] at this
      exact Option.some.inj (hd.chan.symm.trans this)
    by_cases hjn : j < nproc
    · exact hin.knows.2 hch j hjn hz
    by_cases hj0 : j = initproc
    · rw [hj0] at hz
      exact absurd hz hi.root.2.2.1
    · rw [hi.out j (by omega) hj0] at hz
      cases hz
  · unfold InWait at hw
    rw [hget, if_neg hip] at hw
    exact hin.knows.1 i j hlt not_false hw hz

lemma wp_doze (chan : Chan) {g : Kprog X Unit} {U : Unit → State X → Prop} (hs : Inside p (MaySleep nproc p chan) s)
    (hg : ∀ s, Inside p (Calm nproc) s → Spec body nproc p g U s) :
    Spec body nproc p (do
      act (.setChan (some chan))
      act .sleeping
      sched
      act (.setChan none)
      g) U s := by
  refine wp_seq (wp_setChan (some chan) (lasting_maySleep nproc p chan) hs) fun _ _ h => ?_
  refine wp_seq (wp_sleeping ⟨h.1, h.2⟩) fun _ _ h => ?_
  refine wp_seq (wp_seq (wp_switch h) fun _ _ h => wp_take h) fun _ _ h => ?_
  exact wp_seq (wp_setChan none (lasting_calm p _) h) fun _ _ h => hg _ h.1

lemma wp_sleep_addr (a lk : Nat) (hs : if lk = ptableLock then Inside p (Calm nproc) s else Outside p s) :
    Spec body nproc p (sleep (.addr a) lk)
      (fun _ s => if lk = ptableLock then Inside p (Calm nproc) s else Outside p s) s := by
  have hmay : ∀ s : State X, Inside p (Calm nproc) s → Inside p (MaySleep nproc p (.addr a)) s :=
    fun s h => h.mono fun _ hk => ⟨hk, nofun⟩
  unfold sleep
  by_cases hlk : lk = ptableLock
  · subst hlk
    simp only [ne_eq, not_true_eq_false, if_false, if_true] at hs ⊢
    exact wp_doze (.addr a) (hmay s hs) fun _ h => wp_ret h
  simp only [ne_eq, hlk, not_false_eq_true, if_true, if_false] at hs ⊢
  refine wp_seq (wp_take hs) fun _ _ h => ?_
  refine wp_seq (wp_release_inside hlk h) fun _ s h => ?_
  refine wp_doze (.addr a) (hmay s h) fun _ h => ?_
  exact wp_seq (wp_leave h) fun _ _ h => wp_acquire_other hlk h

/-! ## Fork -/

/-- A process outside of `ptable.lock` with the slot it took. -/
structure Forking (nproc p i : Nat) (s : State X) : Prop where
  outside : Outside p s
  making : Making p i s
  lt : i < nproc

lemma Forking.env (h : Forking nproc p i s) (he : Env p s s') : Forking nproc p i s' :=
  ⟨h.outside.env he, he.making i h.making, h.lt⟩

lemma wp_alloc (hlt : i < nproc) (hs : Inside p (Calm nproc) s) :
    Spec body nproc p (act (.alloc i))
      (fun found s => Inside p (Calm nproc) s ∧ (found = true → Making p i s)) s := by
  refine wp_step (fun _ _ he h => h.env (lasting_calm p _) he) (fun s r s' hi hon hin he => ?_) hs
  rw [step] at he
  split at he
  · rename_i hun
    cases he
    have hm : Move nproc p i s { s.procs i with state := .embryo, pid := s.nextpid, maker := p, called := false }
        (s.locks ptableLock) true := .embryo hon (.inl hun) hlt (.inr (.inl rfl)) (.inl rfl) rfl
    refine ⟨Sets.good (.of_procs rfl rfl) hm hi, hin.keep (.of_procs rfl rfl) (lasting_calm p _) hm hin.lock,
      fun _ => ?_⟩
    simp [Making]
  · cases he
    exact ⟨⟨hi, fun q _ => .refl q s⟩, hin, nofun⟩

lemma wp_allocFrom (n i : Nat) (hlt : i + n ≤ nproc) (hs : Inside p (Calm nproc) s) :
    Spec body nproc p (allocFrom n i)
      (fun r s => Inside p (Calm nproc) s ∧ ∀ np, r = some np → Making p np s ∧ np < nproc) s := by
  induction n generalizing i s with
  | zero => exact wp_ret ⟨hs, nofun⟩
  | succ n ih =>
    refine wp_seq (wp_alloc (by omega) hs) fun found _ h => ?_
    cases found with
    | true => exact wp_ret ⟨h.1, fun np hnp => Option.some.inj hnp ▸ ⟨h.2 rfl, by omega⟩⟩
    | false => exact ih (i + 1) (by omega) h.1

lemma wp_leave_making (hlt : i < nproc) (hs : Inside p (Calm nproc) s) (hm : Making p i s) :
    Spec body nproc p (release ptableLock) (fun _ => Forking nproc p i) s := by
  refine wp_step (S := fun s => Inside p (Calm nproc) s ∧ Making p i s)
    (fun _ _ he h => ⟨h.1.env (lasting_calm p _) he, he.making i h.2⟩) (fun s _ s' hi hon hin he => ?_) ⟨hs, hm⟩
  obtain ⟨q, hset, hq, _⟩ := step_release he
  obtain ⟨hgood, hout⟩ := drop_good hi hin.1.lock hin.1.knows hset hq fun _ => hin.1.running
  refine ⟨hgood, hout, ?_, hlt⟩
  have hne : i ≠ p := by
    rintro rfl
    have := hin.2.1
    simp [hin.1.running] at this
  unfold Making
  rw [hset.procs, if_neg hne]
  exact hin.2

lemma Forking.move (hf : Forking nproc p i s) (hset : Sets s s' i q (s.locks ptableLock)) (hi : Inv nproc s)
    (hon : (s.procs p).onCpu = true) (hq : q.state = .unused ∨ q.state = .embryo ∨ q.state = .runnable)
    (hpar : q.parent = (s.procs i).parent ∨ q.parent = some p) (hoc : q.onCpu = (s.procs i).onCpu) :
    Good nproc p s s' ∧ Outside p s' :=
  ⟨hset.good (.embryo hon (.inr hf.making) hf.lt hq hpar hoc) hi, fun h => hf.outside (hset.lock.symm.trans h)⟩

lemma wp_unuse (hs : Forking nproc p i s) :
    Spec body nproc p (act (.unuse i)) (fun _ => Outside p) s := by
  refine wp_step (fun _ _ he h => h.env he) (fun s _ s' hi hon hf he => ?_) hs
  cases he
  exact hf.move (.of_procs rfl rfl) hi hon (.inl rfl) (.inl rfl) rfl

lemma wp_setParent (hs : Forking nproc p i s) :
    Spec body nproc p (act (.setParent i)) (fun _ => Forking nproc p i) s := by
  refine wp_step (fun _ _ he h => h.env he) (fun s _ s' hi hon hf he => ?_) hs
  cases he
  have hset : Sets s (s.setProc i { s.procs i with parent := some p, forker := (s.procs p).pid }) i _ _ :=
    .of_procs rfl rfl
  obtain ⟨hgood, hout⟩ := hf.move hset hi hon (.inr (.inl hf.making.1)) (.inr rfl) rfl
  refine ⟨hgood, hout, ?_, hf.lt⟩
  simp only [Making, State.setProc_procs, if_true]
  exact hf.making

lemma wp_runnable (hs : Forking nproc p i s) :
    Spec body nproc p (act (.runnable i)) (fun _ => Outside p) s := by
  refine wp_step (fun _ _ he h => h.env he) (fun s _ s' hi hon hf he => ?_) hs
  cases he
  exact hf.move (.of_procs rfl rfl) hi hon (.inr (.inr rfl)) (.inl rfl) rfl

lemma wp_allocproc (stack : Bool) (hs : Outside p s) :
    Spec body nproc p (allocproc nproc stack)
      (fun r s => Outside p s ∧ ∀ np, r = some np → Forking nproc p np s) s := by
  refine wp_seq (wp_take hs) fun _ _ h => ?_
  refine wp_seq (wp_allocFrom nproc 0 (by omega) h) fun r _ h => ?_
  cases r with
  | none => exact wp_seq (wp_leave h.1) fun _ _ h => wp_ret ⟨h, nofun⟩
  | some i =>
    obtain ⟨hm, hlt⟩ := h.2 i rfl
    refine wp_seq (wp_leave_making hlt h.1 hm) fun _ _ h => ?_
    cases stack with
    | true => exact wp_ret ⟨h.outside, fun np hnp => Option.some.inj hnp ▸ h⟩
    | false => exact wp_seq (wp_unuse h) fun _ _ h => wp_ret ⟨h, nofun⟩

lemma wp_fork (stack mem : Bool) (hs : Outside p s) :
    Spec body nproc p (fork nproc stack mem) (fun _ => Outside p) s := by
  refine wp_seq (wp_allocproc stack hs) fun r _ h => ?_
  cases r with
  | none => exact wp_ret h.1
  | some i =>
    have hf := h.2 i rfl
    cases mem with
    | false => exact wp_seq_ret (wp_unuse hf)
    | true =>
      refine wp_seq (wp_setParent hf) fun _ _ h => ?_
      refine wp_seq (wp_read (U := fun _ => Forking nproc p i) (fun _ _ he h => Forking.env h he)
        (fun s r s' hf he => ?_) h) fun _ _ h => ?_
      · cases he
        exact ⟨rfl, hf⟩
      · exact wp_seq_ret (wp_runnable h)

/-! ## Exit -/

/-- What an exiting process knows once it has woken its parent `r`: only those that `E` exempts
may have been given a zombie. -/
def Exiting (nproc p : Nat) (E : Nat → Prop) (r : Option Nat) (s : State X) : Prop :=
  CalmBut nproc E s ∧ (s.procs p).parent = r ∧ ∀ g, r = some g → Awake (some (.proc g)) 0 nproc s

lemma lasting_exiting (nproc p : Nat) (E : Nat → Prop) (r : Option Nat) : Lasting (X := X) p (Exiting nproc p E r) :=
  fun s s' hc hp hk => ⟨hc.calmBut hk.1, hp.trans hk.2.1, fun g hg => lasting_awake _ _ _ p s s' hc hp (hk.2.2 g hg)⟩

lemma wp_abandon {r : Option Nat} (hs : Inside p (Exiting nproc p (fun _ => False) r) s) :
    Spec body nproc p (act (.abandon i))
      (fun z => Inside p (Exiting nproc p (fun i => z = true ∧ i = initproc) r)) s := by
  refine wp_step (fun _ _ he h => h.env (lasting_exiting nproc p _ r) he) (fun s z s' hi hon hin he => ?_) hs
  rw [step] at he
  split at he
  · rename_i hpar
    obtain ⟨hz, rfl⟩ := Outcome.next.inj he
    have hip : p ≠ i := by
      rintro rfl
      exact hi.tree p hpar
    have hset : Sets s (s.setProc i { s.procs i with parent := some initproc }) i _ (some p) := .of_procs rfl hin.lock
    have hget := hset.procs
    have hsleep : ∀ j, ((s.setProc i { s.procs i with parent := some initproc }).procs j).state = (s.procs j).state ∧
        ((s.setProc i { s.procs i with parent := some initproc }).procs j).chan = (s.procs j).chan := by grind
    generalize s.setProc i { s.procs i with parent := some initproc } = s' at *
    have hself : s'.procs p = s.procs p := by rw [hget, if_neg hip]
    refine ⟨hset.good (.abandon hin.lock rfl rfl hpar rfl rfl) hi, hset.lock, by rw [hself]; exact hin.running,
      fun a j ha hE hw hzj => ?_, by rw [hself]; exact hin.knows.2.1, fun g hg a ha hb hw => ?_⟩
    · have hwait : InWait s a := ⟨(hsleep a).1 ▸ hw.1, (hsleep a).2 ▸ hw.2⟩
      have hzj' : (s.procs j).state = .zombie := (hsleep j).1 ▸ hzj
      rw [hget]
      split
      · rename_i hji
        have hzi : z = true := by
          rw [← hz, ← hji]
          exact decide_eq_true hzj'
        exact fun h => hE ⟨hzi, (Option.some.inj h).symm⟩
      · exact hin.knows.1 a j ha not_false hwait hzj'
    · rw [(hsleep a).1, (hsleep a).2] at hw
      exact hin.knows.2.2 g hg a ha hb hw
  · cases he
    refine ⟨⟨hi, fun q _ => .refl q s⟩, hin.mono fun _ hk => ⟨?_, hk.2⟩⟩
    exact fun a j ha _ => hk.1 a j ha not_false

lemma wp_abandonFrom {r : Option Nat} (n i : Nat) (hs : Inside p (Exiting nproc p (fun _ => False) r) s) :
    Spec body nproc p (abandonFrom nproc n i)
      (fun _ => Inside p (Exiting nproc p (fun _ => False) r)) s := by
  induction n generalizing i s with
  | zero => exact wp_ret hs
  | succ n ih =>
    refine wp_seq (wp_abandon hs) fun z _ h => ?_
    cases z with
    | false =>
      exact ih (i + 1) (h.mono fun _ hk => ⟨fun a j ha _ => hk.1 a j ha (by simp), hk.2⟩)
    | true =>
      refine wp_seq (wp_wakeup1 _ (lasting_exiting nproc p _ r) h)
        fun _ _ h => ih (i + 1) (h.mono fun s hk => ⟨?_, hk.1.2⟩)
      -- init is awake now, and nobody else was given a zombie
      intro a j ha _ hw
      by_cases ha0 : a = initproc
      · subst ha0
        exact absurd hw (hk.2 initproc (Nat.zero_le _) ha)
      · exact hk.1.1 a j ha (by simp [ha0]) hw

lemma wp_zombie {r : Option Nat} (h0 : p ≠ initproc) (hs : Inside p (Exiting nproc p (fun _ => False) r) s) :
    Spec body nproc p (act .zombie) (fun _ => Leaving nproc p) s := by
  refine wp_step (fun _ _ he h => h.env (lasting_exiting nproc p _ r) he) (fun s _ s' hi hon hin he => ?_) hs
  obtain ⟨-, hs'⟩ := Outcome.next.inj he
  have hset : Sets s s' p { s.procs p with state := .zombie } (some p) := hs' ▸ .of_procs rfl hin.lock
  have hget := hset.procs
  refine ⟨hset.good (.leave rfl hin.lock hin.running (.inr ⟨rfl, h0⟩) rfl rfl) hi, hset.lock, fun i j hlt _ hw hz => ?_⟩
  have hip : i ≠ p := by
    rintro rfl
    have := hw.1
    simp [hget] at this
  unfold InWait at hw
  rw [hget, if_neg hip] at hw
  rw [hget] at hz ⊢
  split
  · -- the parent of the process that exits is awake
    intro hpar
    exact hin.knows.2.2 i (hin.knows.2.1.symm.trans hpar) i (Nat.zero_le i) hlt hw
  · rename_i hjp
    rw [if_neg hjp] at hz
    exact hin.knows.1 i j hlt not_false hw hz

lemma wp_exit (hs : Outside p s) :
    Spec body nproc p (exit nproc) (fun _ => Outside p) s := by
  unfold exit
  refine wp_seq (wp_read (U := fun r s => r = p ∧ Outside p s) (fun _ _ he h => Outside.env h he)
    (fun s r s' h he => ?_) hs) fun r _ h => ?_
  · cases he
    exact ⟨rfl, rfl, h⟩
  obtain ⟨rfl, h⟩ := h
  by_cases h0 : r = initproc
  · rw [if_pos h0]
    exact wp_step (fun _ _ he h => Outside.env h he) (fun s _ s' _ _ _ he => by cases he) h
  rw [if_neg h0]
  refine wp_seq (wp_take h) fun _ _ h => ?_
  refine wp_seq (wp_read (U := fun g => Inside r fun s => Calm nproc s ∧ (s.procs r).parent = g)
    (fun _ _ he h => Inside.env (lasting_calm r _) he h) (fun s g s' h he => ?_) h) fun g _ h => ?_
  · cases he
    exact ⟨rfl, h.lock, h.running, h.knows, rfl⟩
  have hK : Lasting (X := X) r fun s => Calm nproc s ∧ (s.procs r).parent = g :=
    fun s s' hc hp hk => ⟨hc.calmBut hk.1, hp.trans hk.2⟩
  refine wp_seq (wp_wakeup1 _ hK h) fun _ t h => ?_
  have hexit : Inside r (Exiting nproc r (fun _ => False) g) t := by
    refine h.mono fun s hk => ⟨hk.1.1, hk.1.2, fun o ho => ?_⟩
    have := hk.2
    rw [ho] at this
    exact this
  refine wp_seq (wp_abandonFrom nproc 0 hexit) fun _ _ h => ?_
  exact wp_seq (wp_zombie h0 h) fun _ _ h => wp_switch h

/-! ## Wait -/

lemma wp_reap (hs : Inside p (fun s => Calm nproc s ∧ NoZombies p i s) s) :
    Spec body nproc p (act (.reap i)) (fun r s => match r with
      | .zombie _ => Inside p (Calm nproc) s
      | _ => Inside p (fun s => Calm nproc s ∧ NoZombies p (i + 1) s) s) s := by
  have hK : Lasting (X := X) p fun s => Calm nproc s ∧ NoZombies p i s :=
    (lasting_calm p _).and (lasting_noZombies p i)
  refine wp_step (fun _ _ he h => h.env hK he) (fun s r s' hi hon hin he => ?_) hs
  have hnext : ((s.procs i).state = .zombie → (s.procs i).parent ≠ some p) →
      Inside p (fun s => Calm nproc s ∧ NoZombies p (i + 1) s) s := by
    refine fun hnot => ⟨hin.lock, hin.running, hin.knows.1, fun j hj hz => ?_⟩
    by_cases hji : j = i
    · subst hji
      exact hnot hz
    · exact hin.knows.2 j (by omega) hz
  rw [step] at he
  split at he
  · rename_i hpar
    cases he
    exact ⟨⟨hi, fun q _ => .refl q s⟩, hnext fun _ => hpar⟩
  split at he
  · rename_i hz
    cases he
    have hm : Move nproc p i s
        { s.procs i with state := .unused, pid := 0, parent := none, killed := false } (some p) true :=
      .reap hin.lock hin.running hz rfl rfl rfl
    refine ⟨Sets.good (.of_procs rfl hin.lock) hm hi, ?_⟩
    exact Inside.mono (hin.keep (.of_procs rfl hin.lock) hK hm rfl) fun _ hk => hk.1
  · rename_i hz
    cases he
    exact ⟨⟨hi, fun q _ => .refl q s⟩, hnext fun h => absurd h hz⟩

lemma wp_waitScan (n i : Nat) (kids : Bool) (hs : Inside p (fun s => Calm nproc s ∧ NoZombies p i s) s) :
    Spec body nproc p (waitScan n i kids) (fun r s => match r.2 with
      | some _ => Inside p (Calm nproc) s
      | none => Inside p (fun s => Calm nproc s ∧ NoZombies p (i + n) s) s) s := by
  induction n generalizing i kids s with
  | zero => exact wp_ret hs
  | succ n ih =>
    rw [show i + (n + 1) = i + 1 + n by omega]
    refine wp_seq (wp_reap hs) fun r _ h => ?_
    cases r with
    | other => exact ih (i + 1) kids h
    | child => exact ih (i + 1) true h
    | zombie pid => exact wp_ret h

lemma wp_waitLoop (rounds : Nat) (hs : Inside p (Calm nproc) s) :
    Spec body nproc p (waitLoop nproc rounds) (fun _ => Outside p) s := by
  induction rounds generalizing s with
  | zero =>
    exact wp_seq (wp_step (U := fun _ _ => False) (fun _ _ he h => Inside.env (lasting_calm p _) he h)
      (fun _ _ _ _ _ _ he => by cases he) hs) fun _ _ h => h.elim
  | succ rounds ih =>
    have hstart : Inside p (fun s => Calm nproc s ∧ NoZombies p 0 s) s :=
      hs.mono fun _ hk => ⟨hk, fun j hj => absurd hj (Nat.not_lt_zero j)⟩
    have hK : Lasting (X := X) p fun s => Calm nproc s ∧ NoZombies p nproc s :=
      (lasting_calm p _).and (lasting_noZombies p nproc)
    refine wp_seq (wp_waitScan nproc 0 false hstart) fun r _ h => ?_
    obtain ⟨kids, found⟩ := r
    cases found with
    | some pid => exact wp_seq_ret (wp_leave h)
    | none =>
      rw [Nat.zero_add] at h
      refine wp_seq (wp_read (U := fun _ => Inside p fun s => Calm nproc s ∧ NoZombies p nproc s)
        (fun _ _ he h => Inside.env hK he h) (fun s r s' h he => ?_) h) fun killed _ h => ?_
      · cases he
        exact ⟨rfl, h⟩
      by_cases hret : (!kids || killed) = true
      · rw [if_pos hret]
        exact wp_seq_ret (wp_leave (h.mono fun _ hk => hk.1))
      rw [if_neg hret]
      refine wp_seq (wp_read (U := fun _ => Inside p fun s => Calm nproc s ∧ NoZombies p nproc s)
        (fun _ _ he h => Inside.env hK he h) (fun s r s' h he => ?_) h) fun me _ h => ?_
      · cases he
        exact ⟨rfl, h⟩
      · have hmay : Inside p (MaySleep nproc p (.proc me)) _ := h.mono fun _ hk => ⟨hk.1, fun _ => hk.2⟩
        refine wp_seq (wp_doze (.proc me) hmay fun _ h => wp_ret h) fun _ _ h => ih h

lemma wp_wait (rounds : Nat) (hs : Outside p s) :
    Spec body nproc p (wait nproc rounds) (fun _ => Outside p) s :=
  wp_seq (wp_take hs) fun _ _ h => wp_waitLoop rounds h

/-! ## Whole runs -/

/-- The scheduler puts a process on a CPU or takes it off, while `ptable.lock` is free. -/
lemma switch_good {a : Act X} {r : a.Res} (hi : Inv nproc s) (he : switch a s = .next r s') (p : Nat) :
    Good nproc p s s' := by
  cases a with
  | schedule i =>
    rw [switch] at he
    split at he
    · rename_i hc
      cases he
      exact Sets.good (.of_procs rfl hc.1) (.switch hc.1 (.inl hc.2) (.inl rfl) rfl) hi
    · cases he
  | preempt i =>
    rw [switch] at he
    split at he
    · rename_i hc
      cases he
      exact Sets.good (.of_procs rfl hc.1) (.switch hc.1 (.inr hc.2.1) (.inr ⟨rfl, rfl⟩) rfl) hi
    · cases he
  | _ => cases he

lemma wp_cpu (m : Nat) (g : Kprog X Unit) (s : State X) :
    wp (machine body) (logic X nproc) (.cpu m) g (fun _ _ => True) s := by
  induction g generalizing s with
  | ret a => trivial
  | act a k ih =>
    intro s' _ hi _
    refine ⟨trivial, .of_next (fun _ _ => trivial) fun r s'' he => ?_⟩
    have he' : switch a s' = .next r s'' := he
    refine ⟨(switch_good hi he' 0).1, fun q _ => ?_, ih r s''⟩
    cases q with
    | proc q => exact (switch_good hi he' (q + 1)).2 q (by omega)
    | cpu m => trivial

/-- Calls in which only `wait` sleeps on a process. -/
def Call.plain : Call → Prop
  | .sleep (.proc _) _ => False
  | _ => True

/-- The machine of fork, exit, wait and kill, with other kernel code that sleeps on other things. -/
def family (nproc : Nat) : Machine Tid (Act Unit) Act.Res { x : Call // Call.plain x } (State Unit) Panic :=
  machine fun x => Call.body nproc x.val

lemma wp_body (x : { x : Call // Call.plain x }) {s : State Unit} (hs : Outside p s) :
    wp (family nproc) (logic Unit nproc) (.proc p) (Call.body nproc x.val) (fun _ => Outside p) s := by
  obtain ⟨x, hx⟩ := x
  cases x with
  | fork stack mem => exact wp_seq_ret (wp_fork stack mem hs)
  | exit => exact wp_exit hs
  | wait rounds => exact wp_seq_ret (wp_wait rounds hs)
  | kill pid => exact wp_seq_ret (wp_kill pid hs)
  | sleep chan lk =>
    cases chan with
    | proc i => exact hx.elim
    | addr a =>
      refine wp_seq (wp_acquire_calm lk hs) fun _ _ h => ?_
      refine wp_seq (wp_sleep_addr a lk h) fun _ _ h => ?_
      by_cases hlk : lk = ptableLock
      · subst hlk
        rw [if_pos rfl] at h
        exact wp_leave h
      · rw [if_neg hlk] at h
        exact wp_release_other hlk h
  | wakeup chan => exact wp_wakeup chan hs
  | schedule i | preempt i =>
    exact wp_step (fun _ _ he h => Outside.env h he) (fun _ _ _ _ _ _ he => by cases he) hs

lemma boot_procs (i : Nat) : boot.procs i =
    if i = initproc then { Proc.unused with state := .runnable, pid := 1 } else Proc.unused := get_set _ _ _ _

lemma boot_inv (nproc : Nat) : Inv nproc boot := by
  have hstate : ∀ i, (boot.procs i).state ≠ .zombie := by
    intro i
    rw [boot_procs]
    split <;> simp [Proc.unused]
  have hpar : ∀ i, (boot.procs i).parent = none := by
    intro i
    rw [boot_procs]
    split <;> rfl
  have hon : ∀ i, (boot.procs i).onCpu = false := by
    intro i
    rw [boot_procs]
    split <;> rfl
  refine ⟨fun _ i j _ _ _ hz => absurd hz (hstate j), fun i h => ?_, nofun, fun i _ h0 => ?_, ?_, fun i => ?_⟩
  · rw [hon] at h
    cases h
  · rw [boot_procs, if_neg h0]
    rfl
  · rw [boot_procs, if_pos rfl]
    simp [Proc.unused]
  · rw [hpar]
    nofun

lemma family_inv {c : Config Tid (Act Unit) Act.Res (State Unit) Panic}
    (hr : Reaches (family nproc) (fun _ _ _ => True) (.initial boot) c) : Inv nproc c.st := by
  refine (Logic.sound (M := family nproc) (L := logic Unit nproc) ?_ ?_ ?_ ?_ (boot_inv nproc) ?_ hr).inv
  · intro t s
    cases t with
    | proc p => exact .refl p s
    | cpu m => trivial
  · intro t s s' s'' h h'
    cases t with
    | proc p => exact Env.trans h h'
    | cpu m => trivial
  · intro t s s' he h
    cases t with
    | proc p => exact Outside.env h he
    | cpu m => trivial
  · intro t x s hi hidle hc
    cases t with
    | cpu m => exact wp_cpu m _ s
    | proc p => exact wp_body x hidle
  · intro t
    cases t with
    | proc p => exact nofun
    | cpu m => trivial

/-- While `ptable.lock` is free, no process sleeps in `wait` that has an exited child. -/
theorem no_zombie_missed (nproc : Nat) {c : Config Tid (Act Unit) Act.Res (State Unit) Panic}
    (hr : Reaches (family nproc) (fun _ _ _ => True) (.initial boot) c) (hfree : c.st.locks ptableLock = none)
    (i j : Nat)
    (hsleep : (c.st.procs i).state = .sleeping) (hchan : (c.st.procs i).chan = some (.proc i))
    (hz : (c.st.procs j).state = .zombie) : (c.st.procs j).parent ≠ some i := by
  have hi := family_inv hr
  have hj : j < nproc := by
    by_contra hge
    by_cases hj0 : j = initproc
    · rw [hj0] at hz
      exact hi.root.2.2.1 hz
    · rw [hi.out j (by omega) hj0] at hz
      cases hz
  have hlt : i < nproc := by
    by_contra hge
    by_cases hi0 : i = initproc
    · rw [hi0] at hge
      exact hge (Nat.lt_of_le_of_lt (Nat.zero_le j) hj)
    · rw [hi.out i (by omega) hi0] at hsleep
      cases hsleep
  exact hi.calm hfree i j hlt not_false ⟨hsleep, hchan⟩ hz

instance (nproc : Nat) (s : State Unit) (t : Tid) : Decidable ((family nproc).canCall s t) :=
  inferInstanceAs (Decidable ((machine fun x : { x : Call // Call.plain x } => Call.body nproc x.val).canCall s t))

/-- Init forks a child and waits, while the child forks a child that exits. -/
def grandchild : List (Turn Tid { x : Call // Call.plain x }) :=
  [.call (.cpu 0) ⟨.schedule 0, trivial⟩ 1, .call (.proc 0) ⟨.fork true true, trivial⟩ 80,
    .call (.cpu 1) ⟨.schedule 1, trivial⟩ 1, .call (.proc 1) ⟨.fork true true, trivial⟩ 80,
    .call (.proc 0) ⟨.wait 1, trivial⟩ 80, .call (.cpu 2) ⟨.schedule 2, trivial⟩ 1,
    .call (.proc 2) ⟨.exit, trivial⟩ 200]

def afterGrandchild : Config Tid (Act Unit) Act.Res (State Unit) Panic :=
  Config.play (family NPROC) (fun _ _ _ => True) (.initial boot) grandchild

lemma reaches_grandchild : Reaches (family NPROC) (fun _ _ _ => True) (.initial boot) afterGrandchild := by
  unfold afterGrandchild
  exact Config.play_reaches _ _

theorem no_zombie_missed_grandchild :
    (afterGrandchild.st.procs 0).state = .sleeping ∧ (afterGrandchild.st.procs 0).chan = some (.proc 0) ∧
      (afterGrandchild.st.procs 2).state = .zombie ∧ (afterGrandchild.st.procs 2).parent ≠ some 0 := by
  have hsleep : (afterGrandchild.st.procs 0).state = .sleeping := by decide +kernel
  have hchan : (afterGrandchild.st.procs 0).chan = some (.proc 0) := by decide +kernel
  have hz : (afterGrandchild.st.procs 2).state = .zombie := by decide +kernel
  have hfree : afterGrandchild.st.locks ptableLock = none := by decide +kernel
  exact ⟨hsleep, hchan, hz, no_zombie_missed NPROC reaches_grandchild hfree 0 2 hsleep hchan hz⟩

end Xv6.Process.Zombies
