import Mathlib.Data.Nat.Basic
import Xv6.Proofs.Contexts
import Xv6.Lib.Schedule

/-!
# One CPU for each running process

Every thread gets through its calls as the locks say, on whatever CPU it goes on.
-/

namespace Xv6.Sched

open Threads List Table

variable {s s' : State} {t u : Thread} {x : Ctx} {c d i j n ncpu nproc l : Nat} {H : List Nat}

/-! ## What threads have to keep to -/

/-- What `wait` needs when it frees slot `i`: no CPU executes the process or has its page table. -/
def Pre (t : Thread) (a : Act) (s : State) : Prop :=
  match a with
  | .reap i => ∀ c p, Runs t c s → (s.cpus c).proc = some p → (s.procs i).parent = some p →
      (s.procs i).state = .zombie → (s.ctx (.proc i)).on = none ∧ ∀ d, (s.cpus d).cr3 ≠ some i
  | _ => True

/-- A process between its calls has not begun, the schedulers go round, handlers are over. -/
def Idle (ncpu : Nat) (t : Thread) (s : State) : Prop :=
  match t.kind with
  | .process => Away t s
  | .scheduler => t.gen = 0 → (∀ n, t.ctx = .cpu n → n < ncpu) → Quiet t s
  | .handler => Out t s

def logic (ncpu : Nat) : Logic Thread Act State Panic where
  Inv := Inv ncpu
  Rely := Env
  Given := fun _ _ _ => True
  Pre := Pre
  Allowed := fun e => e = .initExiting
  Idle := Idle ncpu

abbrev Spec (nproc ncpu : Nat) (t : Thread) {α : Type} := wp (α := α) (machine nproc) (logic ncpu) t

lemma kind_handler (h : t.kind = .handler) : t.trap = true := by
  grind [Thread.kind]

lemma kind_not_handler (h : t.kind ≠ .handler) : t.trap = false := by
  grind [Thread.kind]

lemma kind_process (h : t.kind = .process) : ∃ i, t.ctx = .proc i := by
  cases hx : t.ctx <;> grind [Thread.kind]

lemma kind_scheduler (h : t.kind = .scheduler) : ∃ n, t.ctx = .cpu n := by
  cases hx : t.ctx <;> grind [Thread.kind]

lemma Idle.env (he : Env t s s') (h : Idle ncpu t s) : Idle ncpu t s' := by
  unfold Idle at *
  cases hk : t.kind <;> grind [Env, kind_handler]

structure Good (ncpu : Nat) (t : Thread) (c : Nat) (a : Act) (U : a.Res → State → Prop) (s : State) : Prop where
  pre : Pre t a s
  stop : ∀ e, step t c a s = .stop e → e = .initExiting
  next : ∀ r s', step t c a s = .next r s' → Inv ncpu s' ∧ (∀ u, u ≠ t → Env u s s') ∧ U r s'

lemma Good.of_eq {a : Act} {U : a.Res → State → Prop} {r : a.Res} (he : step t c a s = .next r s')
    (hpre : Pre t a s) (hi : Inv ncpu s') (henv : ∀ u, u ≠ t → Env u s s') (hU : U r s') : Good ncpu t c a U s := by
  refine ⟨hpre, fun e h => ?_, fun r' s'' h => ?_⟩
  · rw [he] at h
    cases h
  · rw [he] at h
    obtain ⟨rfl, rfl⟩ := Outcome.next.inj h
    exact ⟨hi, henv, hU⟩

lemma Good.of_look {a : Act} {U : a.Res → State → Prop} {r : a.Res} (he : step t c a s = .next r s)
    (hpre : Pre t a s) (hi : Inv ncpu s) (hU : U r s) : Good ncpu t c a U s :=
  .of_eq he hpre hi (fun u _ => .refl u s) hU

lemma Good.of_blocked {a : Act} {U : a.Res → State → Prop} (he : step t c a s = .blocked) (hpre : Pre t a s) :
    Good ncpu t c a U s := by
  refine ⟨hpre, fun e h => ?_, fun r' s'' h => ?_⟩
  · rw [he] at h
    cases h
  · rw [he] at h
    cases h

lemma exec_runs {a : Act} (h : Runs t c s) : exec t a s = step t c a s := by
  simp only [exec, h.on, h.gen, h.level, and_self, if_true]

lemma exec_blocked {a : Act} (ha : a ≠ .enter) (h : ∀ c, ¬Runs t c s) : exec t a s = .blocked := by
  cases hon : (s.ctx t.ctx).on with
  | none => simp only [exec, hon]
  | some c =>
    have hno : ¬((s.ctx t.ctx).gen = t.gen ∧ (s.ctx t.ctx).trapped = t.trap) := fun ⟨hg, hl⟩ => h c ⟨hg, hl, hon⟩
    simp only [exec, hon, if_neg hno]

lemma wp_step {a : Act} {S : State → Prop} {U : a.Res → State → Prop} (ha : a ≠ .enter) (hs : S s)
    (hS : ∀ s s', Env t s s' → S s → S s')
    (hpre : ∀ s, (∀ c, ¬Runs t c s) → Pre t a s)
    (h : ∀ s c, Inv ncpu s → Runs t c s → S s → Good ncpu t c a U s) :
    Spec nproc ncpu t (act a) U s := by
  refine wp_call hs hS fun s hi _ hS => ?_
  by_cases hr : ∃ c, Runs t c s
  · obtain ⟨c, hr⟩ := hr
    have hg := h s c hi hr hS
    refine ⟨hg.pre, .of_next (fun e he => ?_) fun r s' he => ?_⟩
    · exact hg.stop e ((exec_runs hr).symm.trans he)
    · exact hg.next r s' ((exec_runs hr).symm.trans he)
  have hno : ∀ c, ¬Runs t c s := fun c hc => hr ⟨c, hc⟩
  refine ⟨hpre s hno, .of_next (fun e he => ?_) fun r s' he => ?_⟩
  · have hb : exec t a s = .stop e := he
    rw [exec_blocked ha hno] at hb
    cases hb
  · have hb : exec t a s = .next r s' := he
    rw [exec_blocked ha hno] at hb
    cases hb

/-! ## Holding locks -/

def Settled (t : Thread) (c : Nat) (s : State) : Prop :=
  match t.ctx with
  | .proc i => (s.procs i).state = .running
  | .cpu _ => (s.cpus c).proc = none ∧ (s.cpus c).cr3 = none

lemma settled_proc (hx : t.ctx = .proc i) : Settled t c s ↔ (s.procs i).state = .running := by
  unfold Settled
  rw [hx]

lemma settled_cpu (hx : t.ctx = .cpu n) : Settled t c s ↔ (s.cpus c).proc = none ∧ (s.cpus c).cr3 = none := by
  unfold Settled
  rw [hx]

lemma Inv.no_proc (hi : Inv ncpu s) (hr : Runs t c s) (hx : t.ctx = .cpu n) : ∀ i, (s.ctx (.proc i)).on ≠ some c := by
  intro i hon
  have h := hi.unique _ _ c hr.on hon
  rw [hx] at h
  cases h

lemma Inv.settled (hi : Inv ncpu s) (hr : Runs t c s) (hl : ptableLock ∉ (s.cpus c).held) : Settled t c s := by
  cases hx : t.ctx with
  | proc i =>
    rw [settled_proc hx]
    have hon := hr.on
    rw [hx] at hon
    rcases (hi.inProc i c hon).2.2 with h | ⟨h, -⟩
    · exact h
    · exact absurd h hl
  | cpu n =>
    rw [settled_cpu hx]
    exact hi.inSched c (hi.no_proc hr hx) hl

lemma Inv.proc_eq (hi : Inv ncpu s) (hr : Runs t c s) (hx : t.ctx = .proc i) : (s.cpus c).proc = some i :=
  (hi.inProc i c (hx ▸ hr.on)).1

lemma Settled.congr (h : Settled t c s) (hproc : (s'.cpus c).proc = (s.cpus c).proc)
    (hcr3 : (s'.cpus c).cr3 = (s.cpus c).cr3)
    (hst : ∀ i, (s.procs i).state = .running → (s'.procs i).state = .running) : Settled t c s' := by
  cases hx : t.ctx <;> grind [Settled]

/-- Thread `t` runs on CPU `c` with the locks `H` and `n` levels of `pushcli`. -/
structure Holds (t : Thread) (c n : Nat) (H : List Nat) (s : State) : Prop where
  runs : Runs t c s
  held : (s.cpus c).held = H
  ncli : (s.cpus c).ncli = n
  settled : ptableLock ∈ H → Settled t c s

lemma Holds.env (hn : 0 < n) (he : Env t s s') (h : Holds t c n H s) : Holds t c n H s' := by
  have hbusy := he.busy c h.runs
  have htable := he.table c h.runs
  obtain ⟨hr, hh, hc, hset⟩ := h
  constructor <;> cases hx : t.ctx <;> grind [Settled, Kept]

/-- Thread `t`, where it is active, has the locks `H` and nothing is in progress. -/
def Pos (t : Thread) (H : List Nat) (s : State) : Prop :=
  match H with
  | [] => Quiet t s
  | _ :: _ => ∃ c, Holds t c H.length H s

lemma Pos.env (he : Env t s s') (h : Pos t H s) : Pos t H s' := by
  cases H with
  | nil => exact he.quiet h
  | cons l H =>
    obtain ⟨c, hc⟩ := h
    exact ⟨c, hc.env (Nat.succ_pos _) he⟩

lemma Pos.at (h : Pos t H s) (hr : Runs t c s) : Holds t c H.length H s := by
  cases H with
  | nil =>
    obtain ⟨hh, hn⟩ := (h.2 c hr.gen hr.level).2 hr.on
    exact ⟨hr, hh, hn, fun hl => by cases hl⟩
  | cons l H =>
    obtain ⟨d, hd⟩ := h
    obtain rfl : d = c := Option.some.inj (hd.runs.on.symm.trans hr.on)
    exact hd

lemma Holds.pos (h : Holds t c H.length H s) : Pos t H s := by
  cases H with
  | nil =>
    refine ⟨h.runs.gen.ge, fun d _ _ => ⟨by rw [h.runs.on]; simp, fun hd => ?_⟩⟩
    obtain rfl : c = d := Option.some.inj (h.runs.on.symm.trans hd)
    exact ⟨h.held, h.ncli⟩
  | cons l H => exact ⟨c, h⟩

lemma Holds.mem (h : Holds t c n H s) (hl : l ∈ H) : l ∈ (s.cpus c).held := by
  rw [h.held]
  exact hl

def Plain (a : Act) : Prop := a ≠ .enter ∧ ∀ t s, Pre t a s

def Act.isPlain : Act → Bool
  | .enter => false
  | .reap _ => false
  | _ => true

lemma plain {a : Act} (h : a.isPlain = true) : Plain a := by
  cases a with
  | enter => cases h
  | reap i => cases h
  | _ => exact ⟨nofun, fun _ _ => trivial⟩

lemma wp_pos {a : Act} {U : a.Res → State → Prop} (ha : a.isPlain = true) (hs : Pos t H s)
    (h : ∀ s c, Inv ncpu s → Holds t c H.length H s → Good ncpu t c a U s) : Spec nproc ncpu t (act a) U s :=
  wp_step (plain ha).1 hs (fun _ _ => Pos.env) (fun s _ => (plain ha).2 t s) fun s c hi hr hp => h s c hi (hp.at hr)

lemma wp_at {a : Act} {U : a.Res → State → Prop} {S : Nat → State → Prop} (ha : a.isPlain = true) (hs : ∃ c, S c s)
    (hS : ∀ c s s', Env t s s' → S c s → S c s') (hr : ∀ c s, S c s → Runs t c s)
    (h : ∀ s c, Inv ncpu s → S c s → Good ncpu t c a U s) : Spec nproc ncpu t (act a) U s := by
  refine wp_step (S := fun s => ∃ c, S c s) (plain ha).1 hs (fun s s' he ⟨c, hc⟩ => ⟨c, hS c s s' he hc⟩)
    (fun s _ => (plain ha).2 t s) ?_
  rintro s c hi hc ⟨d, hd⟩
  obtain rfl : d = c := Option.some.inj ((hr d s hd).on.symm.trans hc.on)
  exact h s d hi hd

lemma cpuOnly_setCpu (s : State) (c : Nat) (k : Cpu) : CpuOnly c s (s.setCpu c k) where
  cpus := fun d hd => by simp [hd]
  procs := fun _ => rfl
  gen := fun x => by simp
  level := fun x => by simp
  on := fun x => by simp

lemma setCtx_field {α : Type} {k : Context} (f : Context → α) (h : f k = f (s.ctx x)) (z : Ctx) :
    f ((s.setCtx x k).ctx z) = f (s.ctx z) := by
  rw [State.ctx_setCtx]
  split
  · rename_i hz
    rw [hz]
    exact h
  · rfl

lemma Runs.setCpu (h : Runs t c s) (k : Cpu) : Runs t c (s.setCpu d k) :=
  ⟨by simpa using h.gen, by simpa using h.level, by simpa using h.on⟩

lemma Holds.cpu {k : Nat} {H' : List Nat} (h : Holds t c n H s) (hc : CpuOnly c s s')
    (hheld : (s'.cpus c).held = H') (hncli : (s'.cpus c).ncli = k)
    (hproc : (s'.cpus c).proc = (s.cpus c).proc) (hcr3 : (s'.cpus c).cr3 = (s.cpus c).cr3)
    (hset : ptableLock ∈ H' → Settled t c s) : Holds t c k H' s' where
  runs := ⟨(hc.gen _).trans h.runs.gen, (hc.level _).trans h.runs.level, (hc.on _).trans h.runs.on⟩
  held := hheld
  ncli := hncli
  settled := fun hl => (hset hl).congr hproc hcr3 fun i hst => by rw [hc.procs]; exact hst

/-! ## Locks -/

lemma wp_pushcli (hs : Pos t H s) :
    Spec nproc ncpu t (act .pushcli) (fun _ s => ∃ c, Holds t c (H.length + 1) H s) s := by
  refine wp_pos rfl hs fun s c hi h => ?_
  have hlen := hi.ncli c
  refine .of_eq rfl trivial ?_ (fun u hu => (cpuOnly_setCpu s c _).env hi h.runs hu) ⟨c, ?_⟩
  · refine hi.of_flags (cpuOnly_setCpu s c _) rfl ?_ ?_ ?_ ?_ ?_ <;> simp
    omega
  · refine h.cpu (cpuOnly_setCpu s c _) ?_ ?_ ?_ ?_ h.settled <;> simp [h.held, h.ncli]

lemma wp_popcli (hs : ∃ c, Holds t c (H.length + 1) H s) :
    Spec nproc ncpu t (act .popcli) (fun _ => Pos t H) s := by
  refine wp_at rfl hs (fun _ _ _ => .env (Nat.succ_pos _)) (fun _ _ h => h.runs) fun s c hi h => ?_
  have hints := hi.ints c (by rw [h.ncli]; omega)
  have he : step t c .popcli s = .next () (s.setCpu c { s.cpus c with
      ncli := (s.cpus c).ncli - 1, ints := decide ((s.cpus c).ncli = 1) && (s.cpus c).intena }) := by
    simp [step, hints, h.ncli]
  refine .of_eq he trivial ?_ (fun u hu => (cpuOnly_setCpu s c _).env hi h.runs hu) (Holds.pos (c := c) ?_)
  · refine hi.of_flags (cpuOnly_setCpu s c _) rfl ?_ ?_ ?_ ?_ ?_ <;> simp
    · rw [h.held, h.ncli]
      omega
    · intro hpos hone
      omega
  · refine h.cpu (cpuOnly_setCpu s c _) ?_ ?_ ?_ ?_ h.settled <;> simp
    · exact h.held
    · rw [h.ncli]
      omega

lemma cpuOnly_locks (s : State) (c l : Nat) (k : Cpu) (o : Option Nat) :
    CpuOnly c s { s.setCpu c k with locks := s.locks.set l o } where
  cpus := fun d hd => by simp [State.setCpu, hd]
  procs := fun _ => rfl
  gen := fun x => by cases x <;> rfl
  level := fun x => by cases x <;> rfl
  on := fun x => by cases x <;> rfl

lemma wp_lock (hl : l ∉ H) (hs : ∃ c, Holds t c (H.length + 1) H s) :
    Spec nproc ncpu t (act (.lock l)) (fun _ => Pos t (l :: H)) s := by
  refine wp_at rfl hs (fun _ _ _ => .env (Nat.succ_pos _)) (fun _ _ h => h.runs) fun s c hi h => ?_
  cases hlk : s.locks l with
  | some d =>
    by_cases hd : d = c
    · subst hd
      have hmem := (hi.locks l d).mp hlk
      rw [h.held] at hmem
      exact absurd hmem hl
    · exact .of_blocked (by simp [step, hlk, hd]) trivial
  | none =>
    have hc := cpuOnly_locks s c l { s.cpus c with held := l :: (s.cpus c).held } (some c)
    have he : step t c (.lock l) s = .next () { s.setCpu c { s.cpus c with held := l :: (s.cpus c).held } with
        locks := s.locks.set l (some c) } := by
      simp only [step, hlk]
    have hset : ptableLock ∈ l :: H → Settled t c s := fun _ => by
      by_cases hp : ptableLock ∈ H
      · exact h.settled hp
      · exact hi.settled h.runs (by rwa [h.held])
    refine .of_eq he trivial (hi.of_cpu hc (fun m d => ?_) ?_ ?_ ?_ ?_ ?_ ?_) (fun u hu => hc.env hi h.runs hu)
      (Holds.pos (c := c) (h.cpu hc ?_ ?_ ?_ ?_ hset))
    · by_cases hm : m = l <;> by_cases hd : d = c <;> grind [State.setCpu, get_set, Inv]
    all_goals grind [State.setCpu, get_set, Inv, Holds]

lemma acquire_spec (hl : l ∉ H) (hs : Pos t H s) :
    Spec nproc ncpu t (acquire l) (fun _ => Pos t (l :: H)) s :=
  wp_seq (wp_pushcli hs) fun _ _ h => wp_lock hl h

lemma wp_unlock (hl : l ∈ H) (hs : Pos t H s) :
    Spec nproc ncpu t (act (.unlock l))
      (fun _ s => ∃ c, Holds t c ((H.erase l).length + 1) (H.erase l) s) s := by
  refine wp_pos rfl hs fun s c hi h => ?_
  have hlk := (hi.locks l c).mpr (h.mem hl)
  have hnd := hi.nodup c
  have hc := cpuOnly_locks s c l { s.cpus c with held := (s.cpus c).held.erase l } none
  have he : step t c (.unlock l) s = .next () { s.setCpu c { s.cpus c with held := (s.cpus c).held.erase l } with
      locks := s.locks.set l none } := by
    simp only [step, hlk, if_true]
  refine .of_eq he trivial (hi.of_cpu hc (fun m d => ?_) ?_ ?_ ?_ ?_ ?_ ?_) (fun u hu => hc.env hi h.runs hu)
    ⟨c, h.cpu hc ?_ ?_ ?_ ?_ fun hm => h.settled (mem_of_mem_erase hm)⟩
  · by_cases hm : m = l <;> by_cases hd : d = c <;> grind [State.setCpu, get_set, Inv, Nodup.mem_erase_iff, Inv.holder]
  · simpa [State.setCpu] using hnd.erase l
  all_goals cases hx : t.ctx <;> grind [State.setCpu, get_set, Inv, Holds, Settled, Runs, length_erase_of_mem]

lemma release_spec (hl : l ∈ H) (hs : Pos t H s) :
    Spec nproc ncpu t (release l) (fun _ => Pos t (H.erase l)) s :=
  wp_seq (wp_unlock hl hs) fun _ _ h => wp_popcli h

lemma release_head (hs : Pos t (l :: H) s) : Spec nproc ncpu t (release l) (fun _ => Pos t H) s := by
  refine wp_mono (release_spec mem_cons_self hs) fun _ _ h => ?_
  rw [erase_cons_head] at h
  exact h

/-! ## The process table -/

variable {q : Slot}

lemma slotOnly_setSlot (s : State) (i : Nat) (q : Slot) : SlotOnly i q s (s.setSlot i q) where
  locks := rfl
  procs := fun j => by simp
  cpus := fun _ => rfl
  ctx := fun x => by simp

lemma Runs.setSlot (h : Runs t c s) : Runs t c (s.setSlot i q) :=
  ⟨by simpa using h.gen, by simpa using h.level, by simpa using h.on⟩

structure Mild (p q : Slot) : Prop where
  state : q.state = p.state ∨ (p.state = .sleeping ∧ q.state = .runnable)
  maker : q.maker = p.maker

lemma mild_good (hi : Inv ncpu s) (h : Holds t c n H s) (hl : ptableLock ∈ H) (hq : Mild (s.procs i) q) :
    Inv ncpu (s.setSlot i q) ∧ (∀ u, u ≠ t → Env u s (s.setSlot i q)) ∧ Holds t c n H (s.setSlot i q) := by
  have hin := hi.inProc i
  have hrun := hi.running i
  have hset := h.settled hl
  obtain ⟨hst, hmaker⟩ := hq
  refine ⟨hi.of_slot (slotOnly_setSlot s i q) ?_ ?_,
    fun u hu => (slotOnly_setSlot s i q).env_held hi h.runs (h.mem hl) hu ?_ ?_,
    h.runs.setSlot, h.held, h.ncli, fun _ => hset.congr rfl rfl ?_⟩
  all_goals grind [Leaving, Making, State.procs_setSlot]

lemma wp_wake (ch : Option Chan) (hl : ptableLock ∈ H) (hs : Pos t H s) :
    Spec nproc ncpu t (act (.wake i ch)) (fun _ => Pos t H) s := by
  refine wp_pos rfl hs fun s c hi h => ?_
  by_cases hq : (s.procs i).state = .sleeping ∧ (s.procs i).chan = ch
  · have he : step t c (.wake i ch) s = .next () (s.setSlot i { s.procs i with state := .runnable }) := by
      simp only [step, if_pos hq]
    obtain ⟨hi', henv, h'⟩ := mild_good (q := { s.procs i with state := .runnable }) hi h hl ⟨.inr ⟨hq.1, rfl⟩, rfl⟩
    exact .of_eq he trivial hi' henv h'.pos
  · have he : step t c (.wake i ch) s = .next () s := by
      simp only [step, if_neg hq]
    exact .of_look he trivial hi h.pos

lemma wakeFrom_spec (ch : Option Chan) (hl : ptableLock ∈ H) (k i : Nat) (hs : Pos t H s) :
    Spec nproc ncpu t (wakeFrom ch k i) (fun _ => Pos t H) s := by
  induction k generalizing i s with
  | zero => exact wp_ret hs
  | succ k ih => exact wp_seq (wp_wake ch hl hs) fun _ _ h => ih (i + 1) h

lemma wakeup_spec (ch : Chan) (hl : ptableLock ∉ H) (hs : Pos t H s) :
    Spec nproc ncpu t (wakeup nproc ch) (fun _ => Pos t H) s := by
  refine wp_seq (acquire_spec hl hs) fun _ _ h => ?_
  refine wp_seq (wakeFrom_spec _ mem_cons_self nproc 0 h) fun _ _ h => ?_
  exact release_head h

lemma wakeupHolding_spec (ch : Chan) (l : Nat) (hs : Pos t [] s) :
    Spec nproc ncpu t ((FileOp.wakeupHolding ch l).body nproc) (fun _ => Pos t []) s := by
  have hne : ptableLock ∉ [l + 1] := by
    rw [mem_singleton]
    exact (Nat.succ_ne_zero l).symm
  refine wp_seq (acquire_spec not_mem_nil hs) fun _ _ h => ?_
  refine wp_seq (wakeup_spec ch hne h) fun _ _ h => ?_
  exact release_head h

lemma wp_kill (pid : Int32) (hl : ptableLock ∈ H) (hs : Pos t H s) :
    Spec nproc ncpu t (act (.kill i pid)) (fun _ => Pos t H) s := by
  refine wp_pos rfl hs fun s c hi h => ?_
  by_cases hp : (s.procs i).pid = pid
  · have hq : Mild (s.procs i) { s.procs i with
        killed := true
        state := if (s.procs i).state = .sleeping then .runnable else (s.procs i).state } := by
      refine ⟨?_, rfl⟩
      by_cases hst : (s.procs i).state = .sleeping
      · exact .inr ⟨hst, by simp [hst]⟩
      · exact .inl (by simp [hst])
    obtain ⟨hi', henv, h'⟩ := mild_good hi h hl hq
    exact .of_eq (by simp only [step, if_pos hp]; rfl) trivial hi' henv h'.pos
  · exact .of_look (by simp only [step, if_neg hp]; rfl) trivial hi h.pos

lemma killFrom_spec (pid : Int32) (hl : ptableLock ∈ H) (k i : Nat) (hs : Pos t H s) :
    Spec nproc ncpu t (killFrom pid k i) (fun _ => Pos t H) s := by
  induction k generalizing i s with
  | zero => exact wp_ret hs
  | succ k ih =>
    refine wp_seq (wp_kill pid hl hs) fun r _ h => ?_
    cases r with
    | true => exact wp_ret h
    | false => exact ih (i + 1) h

lemma kill_spec (pid : Int32) (hs : Pos t [] s) :
    Spec nproc ncpu t (kill nproc pid) (fun _ => Pos t []) s := by
  refine wp_seq (acquire_spec not_mem_nil hs) fun _ _ h => ?_
  refine wp_seq (killFrom_spec pid mem_cons_self nproc 0 h) fun _ _ h => ?_
  exact release_head h

/-! ## What a thread finds out about its CPU -/

lemma wp_proc (hx : t.ctx = .proc i) (hs : Pos t H s) :
    Spec nproc ncpu t (act .proc) (fun r s => r = some i ∧ Pos t H s) s := by
  refine wp_pos rfl hs fun s c hi h => ?_
  exact .of_look rfl trivial hi ⟨hi.proc_eq h.runs hx, h.pos⟩

/-- A CPU without locks on which something is true of `proc` executes a process. -/
lemma Holds.on_proc {f : Nat → Bool} (h : Holds t c 0 [] s) (hi : Inv ncpu s)
    (hr : (match (s.cpus c).proc with
      | some p => f p
      | none => false) = true) : ∃ i, t.ctx = .proc i := by
  cases hx : t.ctx with
  | proc i => exact ⟨i, rfl⟩
  | cpu n =>
    have hset := (settled_cpu hx).mp (hi.settled h.runs (by rw [h.held]; exact not_mem_nil))
    rw [hset.1] at hr
    cases hr

lemma wp_killed (hs : Pos t [] s) :
    Spec nproc ncpu t (act .killed)
      (fun r s => (r = true → ∃ i, t.ctx = .proc i) ∧ Pos t [] s) s := by
  exact wp_pos rfl hs fun s c hi h => .of_look rfl trivial hi ⟨h.on_proc hi, h.pos⟩

/-- The timer finds a running process only on the stack of a process. -/
lemma wp_procRunning (hs : Pos t [] s) :
    Spec nproc ncpu t (act .procRunning)
      (fun r s => (r = true → ∃ i, t.ctx = .proc i) ∧ Pos t [] s) s := by
  exact wp_pos rfl hs fun s c hi h => .of_look rfl trivial hi ⟨h.on_proc hi, h.pos⟩

/-- `user` says something about the context that nobody relies on. -/
lemma wp_user (b : Bool) (hs : Pos t H s) :
    Spec nproc ncpu t (act (.user b)) (fun _ => Pos t H) s := by
  refine wp_pos rfl hs fun s c hi h => ?_
  have hc : CpuOnly c s (s.setCtx t.ctx { s.ctx t.ctx with user := b }) :=
    ⟨fun _ _ => by simp, fun _ => by simp, setCtx_field _ rfl, setCtx_field _ rfl, setCtx_field _ rfl⟩
  refine .of_eq rfl trivial (hi.of_flags hc (by simp) ?_ ?_ ?_ ?_ ?_) (fun u hu => hc.env hi h.runs hu)
    (h.cpu hc ?_ ?_ ?_ ?_ h.settled).pos <;> simp [h.held, h.ncli]
  rw [← h.ncli]
  exact hi.ints c

/-! ## Giving up the CPU -/

/-- A process that holds `ptable.lock` alone and is not running any more: it is about to leave its
CPU in state `st`. -/
structure Gone (t : Thread) (i : Nat) (st : ProcState) (c : Nat) (s : State) : Prop where
  runs : Runs t c s
  held : (s.cpus c).held = [ptableLock]
  ncli : (s.cpus c).ncli = 1
  state : (s.procs i).state = st

lemma Gone.mem {st : ProcState} (h : Gone t i st c s) : ptableLock ∈ (s.cpus c).held := by
  rw [h.held]
  exact mem_singleton_self _

lemma Gone.env {st : ProcState} (hst : st ≠ .embryo) (he : Env t s s') (h : Gone t i st c s) : Gone t i st c s' := by
  have hbusy := he.busy c h.runs
  have htable := he.table c h.runs
  obtain ⟨hr, hh, hn, hi⟩ := h
  constructor <;> grind [Kept]

lemma wp_setChan (ch : Option Chan) (hx : t.ctx = .proc i) (hs : Pos t [ptableLock] s) :
    Spec nproc ncpu t (act (.setChan ch)) (fun _ => Pos t [ptableLock]) s := by
  refine wp_pos rfl hs fun s c hi h => ?_
  have hp := hi.proc_eq h.runs hx
  obtain ⟨hi', henv, h'⟩ := mild_good (q := { s.procs i with chan := ch }) hi h mem_cons_self ⟨.inl rfl, rfl⟩
  exact .of_eq (by simp only [step, withProc, hp]; rfl) trivial hi' henv h'.pos

lemma wp_setState {st : ProcState} (hst : Leaving st) (hx : t.ctx = .proc i) (hs : Pos t [ptableLock] s) :
    Spec nproc ncpu t (act (.setState st)) (fun _ s => ∃ c, Gone t i st c s) s := by
  refine wp_pos rfl hs fun s c hi h => ?_
  have hp := hi.proc_eq h.runs hx
  have hrun := (settled_proc hx).mp (h.settled mem_cons_self)
  have hl := h.mem mem_cons_self
  have hon : (s.ctx (.proc i)).on = some c := hx ▸ h.runs.on
  have hso := slotOnly_setSlot s i { s.procs i with state := st }
  have he : step t c (.setState st) s = .next () (s.setSlot i { s.procs i with state := st }) := by
    simp only [step, withProc, hp]
  refine .of_eq he trivial
    (hi.of_slot hso (fun d hd => ?_) fun hr => ?_)
    (fun u hu => hso.env_held hi h.runs hl hu (fun hz => ?_) fun hm => ?_) ⟨c, h.runs.setSlot, h.held, h.ncli, by simp⟩
  · obtain rfl : c = d := Option.some.inj (hon.symm.trans hd)
    exact .inr ⟨hl, hst⟩
  · exact .inl (by rw [hon]; simp)
  · rw [hrun] at hz
    simp at hz
  · have he := hm.1
    rw [hrun] at he
    cases he

lemma Leaving.ne {st : ProcState} (h : Leaving st) : st ≠ .embryo ∧ st ≠ .running := by
  rcases h with rfl | rfl | rfl <;> decide

lemma wp_schedCheck {st : ProcState} (hst : Leaving st) (hx : t.ctx = .proc i) (hs : ∃ c, Gone t i st c s) :
    Spec nproc ncpu t (act .schedCheck) (fun _ s => ∃ c, Gone t i st c s) s := by
  refine wp_at rfl hs (fun _ _ _ => .env hst.ne.1) (fun _ _ h => h.runs) fun s c hi h => ?_
  have hlk := (hi.locks ptableLock c).mpr h.mem
  have hp := hi.proc_eq h.runs hx
  have hints := hi.ints c (by rw [h.ncli]; exact Nat.one_pos)
  have hne : (s.procs i).state ≠ .running := by
    rw [h.state]
    exact hst.ne.2
  have he : step t c .schedCheck s = .next (s.cpus c).intena s := by
    simp [step, withProc, hlk, h.ncli, hp, hints, hne]
  exact .of_look he trivial hi ⟨c, h⟩

lemma swtch_eq {y : Ctx} (hon : (s.ctx x).on = some c) (hy : (s.ctx y).on = none) :
    ∃ s', s.swtch c x y = .next () s' ∧ Switches c x y s s' := by
  have hne : y ≠ x := by
    rintro rfl
    rw [hy] at hon
    cases hon
  refine ⟨_, by rw [State.swtch, if_pos hy], by simp, fun _ => by simp, fun _ => by simp, fun z => ?_,
    fun z => ?_, ?_, hy,
    ?_, fun z hzx hzy => ?_⟩
  · rw [setCtx_field Context.gen, setCtx_field Context.gen] <;> rfl
  · rw [setCtx_field Context.trapped, setCtx_field Context.trapped] <;> rfl
  · simp [Ne.symm hne]
  · simp
  · simp [hzx, hzy]

lemma wp_swtch {st : ProcState} {Q : State → Prop} (hst : Leaving st) (hx : t.ctx = .proc i)
    (hs : ∃ c, Gone t i st c s)
    (hQ : ∀ s, (s.ctx t.ctx).gen = t.gen → (s.ctx t.ctx).trapped = t.trap → (s.ctx t.ctx).on = none →
      (s.procs i).state = st → Q s) :
    Spec nproc ncpu t (act .swtch) (fun _ => Q) s := by
  refine wp_at rfl hs (fun _ _ _ => .env hst.ne.1) (fun _ _ h => h.runs) fun s c hi h => ?_
  have hoff : (s.ctx (.cpu c)).on = none := by
    cases hon : (s.ctx (.cpu c)).on with
    | none => rfl
    | some d =>
      obtain rfl := hi.home c d hon
      have hxy := hi.unique _ _ d h.runs.on hon
      rw [hx] at hxy
      cases hxy
  have hne : (s.procs i).state ≠ .running := by
    rw [h.state]
    exact hst.ne.2
  obtain ⟨s', he, hsw⟩ := swtch_eq h.runs.on hoff
  have hres : Resumed s' c (.cpu c) := by
    refine ⟨i, ?_, ?_, ?_⟩
    · rw [hsw.cpus]
      exact hi.proc_eq h.runs hx
    · rw [hsw.procs]
      exact hne
    · rw [← hx]
      exact hsw.from_on
  refine .of_eq he trivial ?_ (fun u hu => hsw.env hi h.runs h.held h.ncli hres hu) ?_
  · refine hi.of_switch hsw h.runs.on h.mem (fun n hn => (Ctx.cpu.inj hn).symm) (fun j hj => by cases hj) fun j hj => ?_
    obtain rfl : i = j := Ctx.proc.inj (hx.symm.trans hj)
    exact hne
  · exact hQ s' ((hsw.gen _).trans h.runs.gen) ((hsw.level _).trans h.runs.level) hsw.from_on
      (by rw [hsw.procs]; exact h.state)

lemma Away.holds (h : Away t s) (hr : Runs t c s) (hx : t.ctx = .proc i) : Holds t c 1 [ptableLock] s := by
  obtain ⟨hh, hn, hres⟩ := (h.2 hr.gen).2 c hr.on
  refine ⟨hr, hh, hn, fun _ => (settled_proc hx).mpr ?_⟩
  rw [hx] at hres
  exact hres

lemma wp_setIntena (b : Bool) (hx : t.ctx = .proc i) (hs : Away t s) :
    Spec nproc ncpu t (act (.setIntena b)) (fun _ => Pos t [ptableLock]) s := by
  refine wp_step (by simp) hs (fun _ _ he => he.away) (fun _ _ => trivial) fun s c hi hr ha => ?_
  have h := ha.holds hr hx
  have hc := cpuOnly_setCpu s c { s.cpus c with intena := b }
  refine .of_eq rfl trivial (hi.of_flags hc rfl ?_ ?_ ?_ ?_ ?_) (fun u hu => hc.env hi hr hu)
    ⟨c, h.cpu hc ?_ ?_ ?_ ?_ h.settled⟩ <;> simp [hi.ints c, h.held, h.ncli]

lemma sched_spec {st : ProcState} (hst : Leaving st) (hx : t.ctx = .proc i) (hs : ∃ c, Gone t i st c s) :
    Spec nproc ncpu t sched (fun _ => Pos t [ptableLock]) s := by
  refine wp_seq (wp_schedCheck hst hx hs) fun b _ h => ?_
  refine wp_seq (Q := fun _ => Away t) (wp_swtch hst hx h fun s hg hl hon _ => ?_) fun _ _ h => wp_setIntena b hx h
  refine ⟨fun _ => hg.ge, fun _ => ⟨hl, fun c hc => ?_⟩⟩
  rw [hon] at hc
  cases hc

lemma wp_dead {a : Act} {U : a.Res → State → Prop} (ha : Plain a) (hs : Dead t s) :
    Spec nproc ncpu t (act a) U s := by
  refine wp_step ha.1 hs (fun _ _ he => he.dead) (fun s _ => ha.2 t s) fun s c hi hr ⟨i, hx, _, hd⟩ => ?_
  have hg := hr.gen
  have hon := hr.on
  rw [hx] at hg hon
  rw [(hd hg).1] at hon
  cases hon

lemma sched_zombie (hx : t.ctx = .proc i) (hs : ∃ c, Gone t i .zombie c s) :
    Spec nproc ncpu t sched (fun _ _ => False) s := by
  have hst : Leaving .zombie := .inr (.inr rfl)
  refine wp_seq (wp_schedCheck hst hx hs) fun b _ h => ?_
  refine wp_seq (Q := fun _ => Dead t) (wp_swtch hst hx h fun s hg _ hon hz => ?_) fun _ _ h =>
    wp_dead (plain rfl) h
  rw [hx] at hg hon
  exact ⟨i, hx, hg.ge, fun _ => ⟨hon, .inl hz⟩⟩

lemma yield_spec (hx : t.ctx = .proc i) (hs : Pos t [] s) :
    Spec nproc ncpu t yield (fun _ => Pos t []) s := by
  refine wp_seq (acquire_spec not_mem_nil hs) fun _ _ h => ?_
  refine wp_seq (wp_setState (.inr (.inl rfl)) hx h) fun _ _ h => ?_
  refine wp_seq (sched_spec (.inr (.inl rfl)) hx h) fun _ _ h => ?_
  exact release_head h

lemma sleep_inner {k : Kprog Unit} {Q : State → Prop} (ch : Chan) (hx : t.ctx = .proc i) (hs : Pos t [ptableLock] s)
    (hk : ∀ s, Pos t [ptableLock] s → Spec nproc ncpu t k (fun _ => Q) s) :
    Spec nproc ncpu t
      (do act (.setChan (some ch)); act (.setState .sleeping); sched; act (.setChan none); k) (fun _ => Q) s := by
  refine wp_seq (wp_setChan _ hx hs) fun _ _ h => ?_
  refine wp_seq (wp_setState (.inl rfl) hx h) fun _ _ h => ?_
  refine wp_seq (sched_spec (.inl rfl) hx h) fun _ _ h => ?_
  exact wp_seq (wp_setChan none hx h) fun _ s h => hk s h

lemma sleep_ptable (ch : Chan) (hx : t.ctx = .proc i) (hs : Pos t [ptableLock] s) :
    Spec nproc ncpu t (sleep ch ptableLock) (fun _ => Pos t [ptableLock]) s := by
  simp only [sleep, ne_eq, not_true, if_false]
  exact sleep_inner ch hx hs fun _ h => wp_ret h

lemma sleep_other (ch : Chan) (hlk : l ≠ ptableLock) (hx : t.ctx = .proc i) (hs : Pos t [l] s) :
    Spec nproc ncpu t (sleep ch l) (fun _ => Pos t [l]) s := by
  have hne : ptableLock ∉ [l] := by
    rw [mem_singleton]
    exact hlk.symm
  simp only [sleep, ne_eq, hlk, not_false_eq_true, if_true]
  refine wp_seq (acquire_spec hne hs) fun _ _ h => ?_
  refine wp_seq (release_spec (mem_cons_of_mem _ mem_cons_self) h) fun _ _ h => ?_
  rw [erase_cons_tail (by simpa using hlk.symm), erase_cons_head] at h
  refine sleep_inner ch hx h fun _ h => ?_
  refine wp_seq (release_head h) fun _ _ h => ?_
  exact acquire_spec not_mem_nil h

/-! ## Fork -/

lemma wp_alloc (hl : ptableLock ∈ H) (hs : Pos t H s) :
    Spec nproc ncpu t (act (.alloc i)) (fun r s => (r = true → Making t i s) ∧ Pos t H s) s := by
  refine wp_pos rfl hs fun s c hi h => ?_
  by_cases hst : (s.procs i).state = .unused
  · have hoff : (s.ctx (.proc i)).on = none :=
      hi.off (by rw [hst]; decide) (by rw [hst]; unfold Leaving; decide)
    have hne : t.ctx ≠ .proc i := by
      intro hx
      have hon := h.runs.on
      rw [hx, hoff] at hon
      cases hon
    obtain ⟨s', he, ha⟩ : ∃ s', step t c (.alloc i) s = .next true s' ∧ Allocs t i s s' := by
      refine ⟨_, by simp only [step, if_pos hst]; rfl, ?_⟩
      refine ⟨by simp [State.setSlot], fun j hj => ?_, ?_, fun d => ?_, fun x hx => ?_, ?_⟩
      · simp [State.setSlot, hj]
      · simp [Making, State.setSlot]
      · simp [State.setSlot]
      · cases x <;> simp_all [State.setSlot, State.setCtx, State.ctx]
      · simp [State.setSlot, State.setCtx, State.ctx]
    refine .of_eq he trivial (hi.of_alloc ha hoff) (fun u hu => ha.env hi h.runs (h.mem hl) hst hoff hu)
      ⟨fun _ => ha.embryo, Holds.pos (c := c) ⟨?_, ?_, ?_, fun _ => ?_⟩⟩
    all_goals
      cases hx : t.ctx <;> grind [Allocs, Holds, Runs, Settled]
  · have he : step t c (.alloc i) s = .next false s := by
      simp only [step, if_neg hst]
    exact .of_look he trivial hi ⟨by simp, h.pos⟩

lemma allocFrom_spec (hl : ptableLock ∈ H) (k i : Nat) (hs : Pos t H s) :
    Spec nproc ncpu t (allocFrom k i)
      (fun r s => (∀ p, r = some p → Making t p s) ∧ Pos t H s) s := by
  induction k generalizing i s with
  | zero => exact wp_ret ⟨nofun, hs⟩
  | succ k ih =>
    refine wp_seq (wp_alloc hl hs) fun r _ h => ?_
    cases r with
    | true =>
      refine wp_ret ⟨fun p hp => ?_, h.2⟩
      obtain rfl := Option.some.inj hp
      exact h.1 rfl
    | false => exact ih (i + 1) h.2

lemma exec_next {a : Act} {r : a.Res} (ha : a ≠ .enter) (he : exec t a s = .next r s') :
    ∃ c, step t c a s = .next r s' := by
  by_cases hr : ∃ c, Runs t c s
  · obtain ⟨c, hr⟩ := hr
    exact ⟨c, (exec_runs hr).symm.trans he⟩
  · rw [exec_blocked ha fun c hc => hr ⟨c, hc⟩] at he
    cases he

lemma release_making (hl : l ∈ H) (hs : Pos t H s) (hm : Making t i s) :
    Spec nproc ncpu t (release l) (fun _ s => Pos t (H.erase l) s ∧ Making t i s) s := by
  refine wp_frame (release_spec hl hs) (fun s s' he => he.making i)
    ⟨fun s r s' he hm => ?_, fun _ => ⟨fun s r s' he hm => ?_, fun _ => trivial⟩⟩ hm
  · obtain ⟨c, he⟩ := exec_next (by simp) he
    simp only [step] at he
    split at he
    · obtain ⟨-, rfl⟩ := Outcome.next.inj he
      exact hm
    · cases he
  obtain ⟨c, he⟩ := exec_next (by simp) he
  simp only [step] at he
  split at he
  · cases he
  split at he
  · cases he
  · obtain ⟨-, rfl⟩ := Outcome.next.inj he
    exact hm

lemma wp_making {a : Act} {U : a.Res → State → Prop} (ha : a.isPlain = true) (hs : Pos t [] s) (hm : Making t i s)
    (h : ∀ s c, Inv ncpu s → Holds t c 0 [] s → Making t i s → Good ncpu t c a U s) : Spec nproc ncpu t (act a) U s :=
  wp_step (S := fun s => Pos t [] s ∧ Making t i s) (plain ha).1 ⟨hs, hm⟩
    (fun _ _ he h => ⟨Pos.env he h.1, he.making i h.2⟩) (fun s _ => (plain ha).2 t s) fun s c hi hr h' =>
      h s c hi (h'.1.at hr) h'.2

lemma making_good (hi : Inv ncpu s) (h : Holds t c 0 [] s) (hm : Making t i s)
    (hq : q.state = .embryo ∨ q.state = .runnable ∨ q.state = .unused) :
    Inv ncpu (s.setSlot i q) ∧ (∀ u, u ≠ t → Env u s (s.setSlot i q)) ∧ Pos t [] (s.setSlot i q) := by
  have hso := slotOnly_setSlot s i q
  have hin := hi.inProc i
  refine ⟨hi.of_slot hso ?_ ?_, fun u hu => hso.env_making hm hu hq,
    Holds.pos (c := c) ⟨h.runs.setSlot, h.held, h.ncli, nofun⟩⟩
  all_goals grind [Making, Leaving]

lemma wp_unuse (hs : Pos t [] s) (hm : Making t i s) :
    Spec nproc ncpu t (act (.unuse i)) (fun _ => Pos t []) s := by
  refine wp_making rfl hs hm fun s c hi h hm => ?_
  obtain ⟨hi', henv, h'⟩ := making_good (q := { s.procs i with state := .unused }) hi h hm (.inr (.inr rfl))
  exact .of_eq rfl trivial hi' henv h'

lemma wp_runnable (hs : Pos t [] s) (hm : Making t i s) :
    Spec nproc ncpu t (act (.runnable i)) (fun _ => Pos t []) s := by
  refine wp_making rfl hs hm fun s c hi h hm => ?_
  obtain ⟨hi', henv, h'⟩ := making_good (q := { s.procs i with state := .runnable }) hi h hm (.inr (.inl rfl))
  exact .of_eq rfl trivial hi' henv h'

lemma wp_setParent (hx : t.ctx = .proc j) (hs : Pos t [] s) (hm : Making t i s) :
    Spec nproc ncpu t (act (.setParent i)) (fun _ s => Pos t [] s ∧ Making t i s) s := by
  refine wp_making rfl hs hm fun s c hi h hm => ?_
  have hp := hi.proc_eq h.runs hx
  have he : step t c (.setParent i) s = .next () (s.setSlot i { s.procs i with parent := some j }) := by
    simp only [step, withProc, hp]
  obtain ⟨hi', henv, h'⟩ := making_good (q := { s.procs i with parent := some j }) hi h hm (.inl hm.1)
  exact .of_eq he trivial hi' henv ⟨h', by simpa [Making] using hm⟩

lemma allocproc_spec (stack : Bool) (hs : Pos t [] s) :
    Spec nproc ncpu t (allocproc nproc stack)
      (fun r s => (∀ p, r = some p → Making t p s) ∧ Pos t [] s) s := by
  refine wp_seq (acquire_spec not_mem_nil hs) fun _ _ h => ?_
  refine wp_seq (allocFrom_spec mem_cons_self nproc 0 h) fun r _ h => ?_
  cases r with
  | none => exact wp_seq (release_head h.2) fun _ _ h => wp_ret ⟨nofun, h⟩
  | some p =>
    refine wp_seq (release_making mem_cons_self h.2 (h.1 p rfl)) fun _ _ h => ?_
    cases stack with
    | true =>
      refine wp_ret ⟨fun p' hp => ?_, h.1⟩
      obtain rfl := Option.some.inj hp
      exact h.2
    | false => exact wp_seq (wp_unuse h.1 h.2) fun _ _ h => wp_ret ⟨nofun, h⟩

lemma fork_spec (stack mem : Bool) (hx : t.ctx = .proc j) (hs : Pos t [] s) :
    Spec nproc ncpu t (fork nproc stack mem) (fun _ => Pos t []) s := by
  refine wp_seq (allocproc_spec stack hs) fun r _ h => ?_
  cases r with
  | none => exact wp_ret h.2
  | some p =>
    have hm := h.1 p rfl
    cases mem with
    | true => exact wp_seq (wp_setParent hx h.2 hm) fun _ _ h => wp_runnable h.1 h.2
    | false => exact wp_unuse h.2 hm

/-! ## Exit and wait -/

lemma wp_parent (hx : t.ctx = .proc i) (hs : Pos t H s) :
    Spec nproc ncpu t (act .parent) (fun _ => Pos t H) s := by
  refine wp_pos rfl hs fun s c hi h => ?_
  have hp := hi.proc_eq h.runs hx
  have he : step t c .parent s = .next (s.procs i).parent s := by
    simp only [step, withProc, hp]
  exact .of_look he trivial hi h.pos

lemma wp_abandon (hl : ptableLock ∈ H) (hx : t.ctx = .proc j) (hs : Pos t H s) :
    Spec nproc ncpu t (act (.abandon i)) (fun _ => Pos t H) s := by
  refine wp_pos rfl hs fun s c hi h => ?_
  have hp := hi.proc_eq h.runs hx
  by_cases hpar : (s.procs i).parent = some j
  · obtain ⟨hi', henv, h'⟩ := mild_good (q := { s.procs i with parent := some initproc }) hi h hl ⟨.inl rfl, rfl⟩
    exact .of_eq (by simp only [step, withProc, hp, if_pos hpar]; rfl) trivial hi' henv h'.pos
  · exact .of_look (by simp only [step, withProc, hp, if_neg hpar]; rfl) trivial hi h.pos

lemma abandonFrom_spec (hl : ptableLock ∈ H) (hx : t.ctx = .proc j) (k i : Nat) (hs : Pos t H s) :
    Spec nproc ncpu t (abandonFrom nproc k i) (fun _ => Pos t H) s := by
  induction k generalizing i s with
  | zero => exact wp_ret hs
  | succ k ih =>
    refine wp_seq (wp_abandon hl hx hs) fun r _ h => ?_
    cases r with
    | true => exact wp_seq (wakeFrom_spec _ hl nproc 0 h) fun _ _ h => ih (i + 1) h
    | false => exact ih (i + 1) h

lemma fileOp_spec (x : FileOp) (hx : t.ctx = .proc i) (hs : Pos t [] s) :
    Spec nproc ncpu t (x.body nproc) (fun _ => Pos t []) s := by
  have hne : ∀ l, l + 1 ≠ ptableLock := fun l => Nat.succ_ne_zero l
  cases x with
  | sleep ch l =>
    refine wp_seq (acquire_spec not_mem_nil hs) fun _ _ h => ?_
    refine wp_seq (sleep_other ch (hne l) hx h) fun _ _ h => ?_
    exact release_head h
  | wakeup ch => exact wakeup_spec ch not_mem_nil hs
  | wakeupHolding ch l => exact wakeupHolding_spec ch l hs

lemma fileOps_spec (xs : List FileOp) (hx : t.ctx = .proc i) (hs : Pos t [] s) :
    Spec nproc ncpu t (fileOps nproc xs) (fun _ => Pos t []) s := by
  induction xs generalizing s with
  | nil => exact wp_ret hs
  | cons x xs ih => exact wp_seq (fileOp_spec x hx hs) fun _ _ h => ih h

lemma wp_initExiting {U : Unit → State → Prop} (hs : Pos t [] s) :
    Spec nproc ncpu t (act (.panic .initExiting)) U s := by
  refine wp_pos rfl hs fun s c hi h => ⟨trivial, fun e he => ?_, fun r s' he => ?_⟩
  · exact (Outcome.stop.inj he).symm
  · cases he

lemma exit_rest (closing : List FileOp) {Q : Unit → State → Prop} (hx : t.ctx = .proc i) (hs : Pos t [] s) :
    Spec nproc ncpu t (do
      fileOps nproc closing
      acquire ptableLock
      let parent ← act .parent
      wakeup1 nproc (parent.map .proc)
      abandonFrom nproc nproc 0
      act (.setState .zombie)
      sched
      act (.panic .zombieExit)) Q s := by
  refine wp_seq (fileOps_spec closing hx hs) fun _ _ h => ?_
  refine wp_seq (acquire_spec not_mem_nil h) fun _ _ h => ?_
  refine wp_seq (wp_parent hx h) fun _ _ h => ?_
  refine wp_seq (wakeFrom_spec _ mem_cons_self nproc 0 h) fun _ _ h => ?_
  refine wp_seq (abandonFrom_spec mem_cons_self hx nproc 0 h) fun _ _ h => ?_
  refine wp_seq (wp_setState (.inr (.inr rfl)) hx h) fun _ _ h => ?_
  exact wp_seq (sched_zombie hx h) fun _ _ h => h.elim

lemma exit_spec (closing : List FileOp) {Q : Unit → State → Prop} (hx : t.ctx = .proc i) (hs : Pos t [] s) :
    Spec nproc ncpu t (exit nproc closing) Q s := by
  refine wp_seq (wp_proc hx hs) fun r _ h => ?_
  by_cases hr : r = some initproc
  · rw [if_pos hr]
    exact wp_seq (Q := fun _ => Pos t []) (wp_initExiting h.2) fun _ _ h => exit_rest closing hx h
  · rw [if_neg hr]
    exact exit_rest closing hx h.2

lemma wp_reap (hx : t.ctx = .proc j) (hs : Pos t [ptableLock] s) :
    Spec nproc ncpu t (act (.reap i)) (fun _ => Pos t [ptableLock]) s := by
  refine wp_step (by simp) hs (fun _ _ => Pos.env) (fun s hno c _ hr => absurd hr (hno c)) fun s c hi hr hpos => ?_
  have h := hpos.at hr
  have hl := h.mem mem_cons_self
  have hp := hi.proc_eq hr hx
  have hrun := (settled_proc hx).mp (h.settled mem_cons_self)
  have hne : (s.procs i).state = .zombie → j ≠ i := by
    rintro hz rfl
    rw [hrun] at hz
    cases hz
  have hoff : (s.procs i).state = .zombie → (s.ctx (.proc i)).on = none := fun hz =>
    hi.off_of_held hr.on hl (fun he => hne hz (Ctx.proc.inj (hx.symm.trans he))) (by rw [hz]; decide)
  have hpre : Pre t (.reap i) s := by
    intro _ _ _ _ _ hz
    refine ⟨hoff hz, fun d => ?_⟩
    by_cases hd : ptableLock ∈ (s.cpus d).held
    · obtain rfl := hi.holder hl hd
      rw [(hi.inProc j c (hx ▸ hr.on)).2.1]
      simpa using hne hz
    · exact (hi.not_loaded (hoff hz) hd).2
  by_cases hpar : (s.procs i).parent ≠ some j
  · have he : step t c (.reap i) s = .next .other s := by
      simp only [step, withProc, hp, if_pos hpar]
    exact .of_look he hpre hi hpos
  by_cases hz : (s.procs i).state = .zombie
  · have he : step t c (.reap i) s = .next (.zombie (s.procs i).pid) (s.setSlot i { s.procs i with
        state := .unused, pid := 0, parent := none, killed := false }) := by
      simp only [step, withProc, hp, if_neg hpar, if_pos hz]
    have hso := slotOnly_setSlot s i { s.procs i with state := .unused, pid := 0, parent := none, killed := false }
    refine .of_eq he hpre (hi.of_slot hso (fun d hon => ?_) nofun)
      (fun u hu => hso.env_held hi hr hl hu (fun _ _ => .inr rfl) fun hm => ?_)
      ⟨c, hr.setSlot, h.held, h.ncli, fun _ => (settled_proc hx).mpr ?_⟩
    · rw [hoff hz] at hon
      cases hon
    · have hst := hm.1
      rw [hz] at hst
      cases hst
    · rw [State.procs_setSlot, if_neg (hne hz)]
      exact hrun
  · have he : step t c (.reap i) s = .next .child s := by
      simp only [step, withProc, hp, if_neg hpar, if_neg hz]
    exact .of_look he hpre hi hpos

lemma waitScan_spec (hx : t.ctx = .proc j) (k i : Nat) (kids : Bool) (hs : Pos t [ptableLock] s) :
    Spec nproc ncpu t (waitScan k i kids) (fun _ => Pos t [ptableLock]) s := by
  induction k generalizing i kids s with
  | zero => exact wp_ret hs
  | succ k ih =>
    refine wp_seq (wp_reap hx hs) fun r _ h => ?_
    cases r with
    | other => exact ih (i + 1) kids h
    | child => exact ih (i + 1) true h
    | zombie pid => exact wp_ret h

lemma wp_stuck {H : List Nat} {U : Unit → State → Prop} (hs : Pos t H s) :
    Spec nproc ncpu t (act .stuck) U s :=
  wp_pos rfl hs fun _ _ _ _ => .of_blocked rfl trivial

lemma wp_killed_held (hs : Pos t H s) :
    Spec nproc ncpu t (act .killed) (fun _ => Pos t H) s :=
  wp_pos rfl hs fun _ _ hi h => .of_look rfl trivial hi h.pos

lemma waitLoop_spec (hx : t.ctx = .proc j) (rounds : Nat) (hs : Pos t [ptableLock] s) :
    Spec nproc ncpu t (waitLoop nproc rounds) (fun _ => Pos t []) s := by
  induction rounds generalizing s with
  | zero => exact wp_stuck hs
  | succ rounds ih =>
    refine wp_seq (waitScan_spec hx nproc 0 false hs) fun r _ h => ?_
    obtain ⟨havekids, found⟩ := r
    cases found with
    | true => exact release_head h
    | false =>
      refine wp_seq (wp_killed_held h) fun r _ h => ?_
      by_cases hleave : (!havekids || r) = true
      · rw [if_pos hleave]
        exact release_head h
      rw [if_neg hleave]
      refine wp_seq (wp_proc hx h) fun p _ h => ?_
      obtain ⟨rfl, h⟩ := h
      exact wp_seq (sleep_ptable _ hx h) fun _ _ h => ih h

lemma wait_spec (hx : t.ctx = .proc j) (rounds : Nat) (hs : Pos t [] s) :
    Spec nproc ncpu t (wait nproc rounds) (fun _ => Pos t []) s :=
  wp_seq (acquire_spec not_mem_nil hs) fun _ _ h => waitLoop_spec hx rounds h

/-! ## Processes -/

lemma op_spec (hx : t.ctx = .proc j) (op : Op) (hs : Pos t [] s) :
    Spec nproc ncpu t (op.body nproc) (fun _ => Pos t []) s := by
  cases op with
  | file x => exact fileOp_spec x hx hs
  | fork stack mem => exact fork_spec stack mem hx hs
  | wait rounds => exact wait_spec hx rounds hs
  | kill pid => exact kill_spec pid hs

lemma exit_if_killed {k : Kprog Unit} {Q : State → Prop} (closing : List FileOp) (hs : Pos t [] s)
    (hk : ∀ s, Pos t [] s → Spec nproc ncpu t k (fun _ => Q) s) :
    Spec nproc ncpu t (do if ← act .killed then exit nproc closing
                                          k) (fun _ => Q) s := by
  refine wp_seq (wp_killed hs) fun r _ h => ?_
  cases r with
  | true =>
    obtain ⟨i, hx⟩ := h.1 rfl
    exact wp_seq (Q := fun _ => Pos t []) (exit_spec closing hx h.2) fun _ s h => hk s h
  | false => exact hk _ h.2

lemma syscalls_spec (hx : t.ctx = .proc j) (closing : List FileOp) (ops : List Op) (hs : Pos t [] s) :
    Spec nproc ncpu t (syscalls nproc closing ops) (fun _ => Pos t []) s := by
  induction ops generalizing s with
  | nil => exact wp_ret hs
  | cons op ops ih =>
    refine wp_seq (wp_user false hs) fun _ _ h => ?_
    refine exit_if_killed closing h fun _ h => ?_
    refine wp_seq (op_spec hx op h) fun _ _ h => ?_
    refine exit_if_killed closing h fun _ h => ?_
    exact wp_seq (wp_user true h) fun _ _ h => ih h

lemma wp_begin_process (hs : Idle ncpu t s) :
    Spec nproc ncpu t (act (.begin .process))
      (fun _ s => (∃ i, t.ctx = .proc i) ∧ Pos t [ptableLock] s) s := by
  refine wp_step (by simp) hs (fun _ _ => Idle.env) (fun _ _ => trivial) fun s c hi hr hidle => ?_
  by_cases hk : t.kind = .process
  · obtain ⟨i, hx⟩ := kind_process hk
    have ha : Away t s := by
      unfold Idle at hidle
      rw [hk] at hidle
      exact hidle
    have he : step t c (.begin .process) s = .next () s := by
      simp only [step, if_pos hk]
    exact .of_look he trivial hi ⟨⟨i, hx⟩, c, ha.holds hr hx⟩
  · exact .of_blocked (by simp only [step, if_neg hk]) trivial

lemma life_spec (ops : List Op) (exits : Bool) (closing : List FileOp) {Q : Unit → State → Prop} (hs : Idle ncpu t s) :
    Spec nproc ncpu t (life nproc ops exits closing) Q s := by
  refine wp_seq (wp_begin_process hs) fun _ _ ⟨⟨i, hx⟩, h⟩ => ?_
  refine wp_seq (release_head h) fun _ _ h => ?_
  refine wp_seq (wp_user true h) fun _ _ h => ?_
  refine wp_seq (syscalls_spec hx closing ops h) fun _ _ h => ?_
  cases exits with
  | true => exact wp_seq (wp_user false h) fun _ _ h => exit_spec closing hx h
  | false => exact wp_stuck h

/-! ## Interrupts -/

lemma wp_enter (hs : Idle ncpu t s) :
    Spec nproc ncpu t (act .enter) (fun _ s => t.trap = true ∧ Pos t [] s) s := by
  refine wp_call hs (fun _ _ => Idle.env) fun s hi _ hidle => ⟨trivial, ?_⟩
  have hinv : ∀ r s', exec t .enter s = .next r s' →
      Inv ncpu s' ∧ (∀ u, u ≠ t → Env u s s') ∧ t.trap = true ∧ Pos t [] s' := by
    intro r s' he
    cases hon : (s.ctx t.ctx).on with
    | none =>
      simp only [exec, hon] at he
      cases he
    | some c =>
      simp only [exec, hon] at he
      split at he
      · cases he
      split at he
      · rename_i hact hg
        obtain ⟨hg, htr⟩ := hg
        simp only [interrupt] at he
        split at he
        · rename_i hints
          obtain ⟨-, hs'⟩ := Outcome.next.inj he
          have hn : (s.cpus c).ncli = 0 := by
            by_contra hpos
            rw [hi.ints c (Nat.pos_of_ne_zero hpos)] at hints
            cases hints
          have hh : (s.cpus c).held = [] := by
            have := hi.ncli c
            exact eq_nil_of_length_eq_zero (by omega)
          have htraps : Traps c t.ctx s s' := by
            rw [← hs']
            refine ⟨by simp, fun _ => by simp, fun d hd => by simp [hd], by simp, by simp, by simp, by simp,
              fun z => ?_,
              fun z => ?_, fun z hz => by simp [hz]⟩
            · rw [State.ctx_setCpu, setCtx_field Context.gen]
              rfl
            · rw [State.ctx_setCpu, setCtx_field Context.on]
              rfl
          refine ⟨hi.of_trap htraps hn, fun u hu => htraps.env hi htr hg hon hh hn hu, htr, ?_⟩
          have hrun : Runs t c s' := by
            refine ⟨(htraps.gen _).trans hg, ?_, (htraps.on _).trans hon⟩
            rw [← hs', htr]
            simp
          exact Holds.pos (c := c) ⟨hrun, htraps.held.trans hh, htraps.ncli.trans hn, fun hl => by cases hl⟩
        · cases he
      · cases he
  refine .of_next (fun e he => ?_) hinv
  have he' : exec t .enter s = .stop e := he
  simp only [exec, interrupt] at he'
  repeat' split at he'
  all_goals cases he'

lemma wp_iret (htr : t.trap = true) (hs : Pos t [] s) :
    Spec nproc ncpu t (act .iret) (fun _ => Out t) s := by
  refine wp_pos rfl hs fun s c hi h => ?_
  obtain ⟨s', he, htraps, hout⟩ : ∃ s', step t c .iret s = .next () s' ∧ Traps c t.ctx s s' ∧
      (s'.ctx t.ctx).trapped = false := by
    refine ⟨_, rfl, ⟨by simp, fun _ => by simp, fun d hd => by simp [hd], by simp, by simp, by simp, by simp,
      fun z => ?_,
      fun z => ?_, fun z hz => by simp [hz]⟩, by simp⟩
    · rw [State.ctx_setCpu, setCtx_field Context.gen]
      rfl
    · rw [State.ctx_setCpu, setCtx_field Context.on]
      rfl
  exact .of_eq he trivial (hi.of_trap htraps h.ncli)
    (fun u hu => htraps.env hi htr h.runs.gen h.runs.on h.held h.ncli hu) fun _ => hout

lemma wakeups_spec (xs : List (Chan × Nat)) (hs : Pos t [] s) :
    Spec nproc ncpu t (wakeups nproc xs) (fun _ => Pos t []) s := by
  induction xs generalizing s with
  | nil => exact wp_ret hs
  | cons x xs ih => exact wp_seq (wakeupHolding_spec x.1 x.2 hs) fun _ _ h => ih h

lemma yield_if_running {k : Kprog Unit} {Q : State → Prop} (hs : Pos t [] s)
    (hk : ∀ s, Pos t [] s → Spec nproc ncpu t k (fun _ => Q) s) :
    Spec nproc ncpu t (do if ← act .procRunning then yield
                                          k) (fun _ => Q) s := by
  refine wp_seq (wp_procRunning hs) fun r _ h => ?_
  cases r with
  | true =>
    obtain ⟨i, hx⟩ := h.1 rfl
    exact wp_seq (yield_spec hx h.2) fun _ s h => hk s h
  | false => exact hk _ h.2

lemma trap_spec (wakes : List (Chan × Nat)) (timer : Bool) (closing : List FileOp) (hs : Idle ncpu t s) :
    Spec nproc ncpu t (trap nproc wakes timer closing) (fun _ => Idle ncpu t) s := by
  refine wp_seq (wp_enter hs) fun user _ ⟨htr, h⟩ => ?_
  have hk : t.kind = .handler := by simp [Thread.kind, htr]
  have hend : ∀ s, Pos t [] s → Spec nproc ncpu t (act .iret) (fun _ => Idle ncpu t) s := by
    intro s h
    refine wp_mono (wp_iret htr h) fun _ s h => ?_
    unfold Idle
    rw [hk]
    exact h
  refine wp_seq (wakeups_spec wakes h) fun _ _ h => ?_
  cases user <;> cases timer
  · exact hend _ h
  · exact yield_if_running h hend
  · exact exit_if_killed closing h fun _ h => exit_if_killed closing h hend
  · exact exit_if_killed closing h fun _ h => yield_if_running h fun _ h => exit_if_killed closing h hend

/-! ## The scheduler -/

/-- The scheduler of CPU `c` holds `ptable.lock` and is about to run process `i`, which is in state
`st` and on no CPU; `p` and `m` are the process and the page table of the CPU so far. -/
structure Loads (t : Thread) (i : Nat) (p m : Option Nat) (st : ProcState) (c : Nat) (s : State) : Prop where
  runs : Runs t c s
  held : (s.cpus c).held = [ptableLock]
  ncli : (s.cpus c).ncli = 1
  proc : (s.cpus c).proc = p
  cr3 : (s.cpus c).cr3 = m
  state : (s.procs i).state = st
  off : (s.ctx (.proc i)).on = none

variable {p m : Option Nat} {st : ProcState}

lemma Loads.mem (h : Loads t i p m st c s) : ptableLock ∈ (s.cpus c).held := by
  rw [h.held]
  exact mem_singleton_self _

lemma Loads.env (hst : st ≠ .embryo) (he : Env t s s') (h : Loads t i p m st c s) : Loads t i p m st c s' := by
  have hbusy := he.busy c h.runs
  have htable := he.table c h.runs
  obtain ⟨hr, hh, hn, hp, hm, hi, hoff⟩ := h
  constructor <;> grind [Kept]

lemma wp_pick (hx : t.ctx = .cpu n) (hs : Pos t [ptableLock] s) :
    Spec nproc ncpu t (act (.pick i))
      (fun r s => if r then ∃ c, Loads t i none none .runnable c s else Pos t [ptableLock] s) s := by
  refine wp_pos rfl hs fun s c hi h => .of_look rfl trivial hi ?_
  by_cases hst : (s.procs i).state = .runnable
  · rw [if_pos (by simpa using hst)]
    obtain ⟨hp, hc⟩ := (settled_cpu hx).mp (h.settled mem_cons_self)
    refine ⟨c, h.runs, h.held, h.ncli, hp, hc, hst, ?_⟩
    exact hi.off_of_held h.runs.on (h.mem mem_cons_self) (by rw [hx]; simp) (by rw [hst]; decide)
  · rw [if_neg (by simpa using hst)]
    exact h.pos

lemma sched_good {k : Cpu} (hi : Inv ncpu s) (hx : t.ctx = .cpu n) (hr : Runs t c s)
    (hl : ptableLock ∈ (s.cpus c).held) (hheld : k.held = (s.cpus c).held) (hncli : k.ncli = (s.cpus c).ncli)
    (hints : k.ints = (s.cpus c).ints)
    (hrun : ∀ i, (s.procs i).state = .running → (s.cpus c).proc = some i → k.proc = some i) :
    Inv ncpu (s.setCpu c k) ∧ ∀ u, u ≠ t → Env u s (s.setCpu c k) := by
  have hc := cpuOnly_setCpu s c k
  refine ⟨hi.of_sched hc rfl ?_ ?_ ?_ hl (hi.no_proc hr hx) ?_, fun u hu => hc.env hi hr hu⟩ <;> simpa

lemma wp_setProc_some (hx : t.ctx = .cpu n) (hs : ∃ c, Loads t i none none .runnable c s) :
    Spec nproc ncpu t (act (.setProc (some i)))
      (fun _ s => ∃ c, Loads t i (some i) none .runnable c s) s := by
  refine wp_at rfl hs (fun _ _ _ => .env (by decide)) (fun _ _ h => h.runs) fun s c hi h => ?_
  obtain ⟨hi', henv⟩ := sched_good (k := { s.cpus c with proc := some i }) hi hx h.runs h.mem rfl rfl rfl
    fun j _ hj => by
    rw [h.proc] at hj
    cases hj
  refine .of_eq rfl trivial hi' henv ⟨c, h.runs.setCpu _, ?_, ?_, ?_, ?_, h.state, ?_⟩ <;>
    simp [h.held, h.ncli, h.cr3, h.off]

lemma wp_switchuvm (hx : t.ctx = .cpu n) (hs : ∃ c, Loads t i (some i) none .runnable c s) :
    Spec nproc ncpu t (act (.switchuvm i))
      (fun _ s => ∃ c, Loads t i (some i) (some i) .runnable c s) s := by
  refine wp_at rfl hs (fun _ _ _ => .env (by decide)) (fun _ _ h => h.runs) fun s c hi h => ?_
  obtain ⟨hi', henv⟩ := sched_good (k := { s.cpus c with cr3 := some i }) hi hx h.runs h.mem rfl rfl rfl
    fun _ _ hj => hj
  refine .of_eq rfl trivial hi' henv ⟨c, h.runs.setCpu _, ?_, ?_, ?_, ?_, h.state, ?_⟩ <;>
    simp [h.held, h.ncli, h.proc, h.off]

lemma wp_run (hs : ∃ c, Loads t i (some i) (some i) .runnable c s) :
    Spec nproc ncpu t (act (.run i))
      (fun _ s => ∃ c, Loads t i (some i) (some i) .running c s) s := by
  refine wp_at rfl hs (fun _ _ _ => .env (by decide)) (fun _ _ h => h.runs) fun s c hi h => ?_
  have hso := slotOnly_setSlot s i { s.procs i with state := .running }
  refine .of_eq rfl trivial (hi.of_slot hso (fun _ _ => .inl rfl) fun _ => .inr ⟨c, h.mem, h.proc⟩)
    (fun u hu => hso.env_held hi h.runs h.mem hu (fun hst => ?_) fun hm => ?_)
    ⟨c, h.runs.setSlot, h.held, h.ncli, h.proc, h.cr3, by simp, by simpa using h.off⟩
  · rw [h.state] at hst
    simp at hst
  · have hst := hm.1
    rw [h.state] at hst
    cases hst

lemma wp_resume (hx : t.ctx = .cpu n) (hs : ∃ c, Loads t i (some i) (some i) .running c s) :
    Spec nproc ncpu t (act .resume) (fun _ => Away t) s := by
  refine wp_at rfl hs (fun _ _ _ => .env (by decide)) (fun _ _ h => h.runs) fun s c hi h => ?_
  obtain ⟨s', hsw', hsw⟩ := swtch_eq h.runs.on h.off
  have he : step t c .resume s = .next () s' := by
    simp only [step, withProc, h.proc]
    exact hsw'
  have hres : Resumed s' c (.proc i) := by
    change (s'.procs i).state = .running
    rw [hsw.procs]
    exact h.state
  refine .of_eq he trivial ?_ (fun u hu => hsw.env hi h.runs h.held h.ncli hres hu) ⟨fun _ => ?_,
    fun _ => ⟨?_, fun d hd => ?_⟩⟩
  · refine hi.of_switch hsw h.runs.on h.mem nofun (fun j hj => ?_) fun j hj => ?_
    · obtain rfl := Ctx.proc.inj hj
      exact ⟨h.proc, h.cr3, h.state⟩
    · rw [hx] at hj
      cases hj
  · rw [hsw.gen]
    exact h.runs.gen.ge
  · rw [hsw.level]
    exact h.runs.level
  · rw [hsw.from_on] at hd
    cases hd

structure Back (t : Thread) (c : Nat) (s : State) : Prop where
  runs : Runs t c s
  held : (s.cpus c).held = [ptableLock]
  ncli : (s.cpus c).ncli = 1
  cr3 : (s.cpus c).cr3 = none
  proc : ∀ q, (s.cpus c).proc = some q → (s.procs q).state ≠ .running

lemma Back.mem (h : Back t c s) : ptableLock ∈ (s.cpus c).held := by
  rw [h.held]
  exact mem_singleton_self _

lemma Back.env (he : Env t s s') (h : Back t c s) : Back t c s' := by
  have hbusy := he.busy c h.runs
  have htable := he.table c h.runs
  obtain ⟨hr, hh, hn, hm, hp⟩ := h
  constructor <;> grind [Kept]

lemma wp_switchkvm (hx : t.ctx = .cpu n) (hs : Away t s) :
    Spec nproc ncpu t (act .switchkvm) (fun _ s => ∃ c, Back t c s) s := by
  refine wp_step (by simp) hs (fun _ _ he => he.away) (fun _ _ => trivial) fun s c hi hr ha => ?_
  obtain ⟨hh, hn, hres⟩ := (ha.2 hr.gen).2 c hr.on
  rw [hx] at hres
  obtain ⟨q, hq, hst, -⟩ := hres
  have hl : ptableLock ∈ (s.cpus c).held := by
    rw [hh]
    exact mem_singleton_self _
  obtain ⟨hi', henv⟩ := sched_good (k := { s.cpus c with cr3 := none }) hi hx hr hl rfl rfl rfl fun _ _ hj => hj
  refine .of_eq rfl trivial hi' henv ⟨c, hr.setCpu _, ?_, ?_, ?_, ?_⟩ <;> simp [hh, hn, hq, hst]

lemma wp_setProc_none (hx : t.ctx = .cpu n) (hs : ∃ c, Back t c s) :
    Spec nproc ncpu t (act (.setProc none)) (fun _ => Pos t [ptableLock]) s := by
  refine wp_at rfl hs (fun _ _ _ => .env) (fun _ _ h => h.runs) fun s c hi h => ?_
  obtain ⟨hi', henv⟩ := sched_good (k := { s.cpus c with proc := none }) hi hx h.runs h.mem rfl rfl rfl
    fun j hj hp => absurd hj (h.proc j hp)
  refine .of_eq rfl trivial hi' henv ⟨c, h.runs.setCpu _, ?_, ?_, fun _ => (settled_cpu hx).mpr ⟨?_, ?_⟩⟩ <;>
    simp [h.held, h.ncli, h.cr3]

lemma scheduleFrom_spec (hx : t.ctx = .cpu n) (k i : Nat) (hs : Pos t [ptableLock] s) :
    Spec nproc ncpu t (scheduleFrom k i) (fun _ => Pos t [ptableLock]) s := by
  induction k generalizing i s with
  | zero => exact wp_ret hs
  | succ k ih =>
    refine wp_seq (wp_pick hx hs) fun r _ h => ?_
    cases r with
    | true =>
      refine wp_seq (wp_setProc_some hx h) fun _ _ h => ?_
      refine wp_seq (wp_switchuvm hx h) fun _ _ h => ?_
      refine wp_seq (wp_run h) fun _ _ h => ?_
      refine wp_seq (wp_resume hx h) fun _ _ h => ?_
      refine wp_seq (wp_switchkvm hx h) fun _ _ h => ?_
      exact wp_seq (wp_setProc_none hx h) fun _ _ h => ih (i + 1) h
    | false => exact ih (i + 1) h

lemma wp_begin_scheduler (hs : Idle ncpu t s) :
    Spec nproc ncpu t (act (.begin .scheduler)) (fun _ s => t.kind = .scheduler ∧ Pos t [] s) s := by
  refine wp_step (by simp) hs (fun _ _ => Idle.env) (fun _ _ => trivial) fun s c hi hr hidle => ?_
  by_cases hk : t.kind = .scheduler
  · obtain ⟨n, hx⟩ := kind_scheduler hk
    have hg : t.gen = 0 := by
      have := hr.gen
      rw [hx, hi.gen] at this
      exact this.symm
    have hcpu : ∀ n, t.ctx = .cpu n → n < ncpu := by
      intro n hx
      have hon := hr.on
      rw [hx] at hon
      rw [← hi.home n c hon]
      exact hi.cpu _ c hon
    have hq : Quiet t s := by
      unfold Idle at hidle
      rw [hk] at hidle
      exact hidle hg hcpu
    have he : step t c (.begin .scheduler) s = .next () s := by
      simp only [step, if_pos hk]
    exact .of_look he trivial hi ⟨hk, hq⟩
  · exact .of_blocked (by simp only [step, if_neg hk]) trivial

lemma wp_sti (hs : Pos t [] s) : Spec nproc ncpu t (act .sti) (fun _ => Pos t []) s := by
  refine wp_pos rfl hs fun s c hi h => ?_
  have hn : (s.cpus c).ncli = 0 := h.ncli
  have hc := cpuOnly_setCpu s c { s.cpus c with ints := true }
  refine .of_eq rfl trivial (hi.of_flags hc rfl ?_ ?_ ?_ ?_ ?_) (fun u hu => hc.env hi h.runs hu)
    (Holds.pos (c := c) (h.cpu hc ?_ ?_ ?_ ?_ h.settled)) <;> simp [hn, h.held]

lemma scheduler_spec (hs : Idle ncpu t s) :
    Spec nproc ncpu t (scheduler nproc) (fun _ => Idle ncpu t) s := by
  refine wp_seq (wp_begin_scheduler hs) fun _ _ ⟨hk, h⟩ => ?_
  obtain ⟨n, hx⟩ := kind_scheduler hk
  refine wp_seq (wp_sti h) fun _ _ h => ?_
  refine wp_seq (acquire_spec not_mem_nil h) fun _ _ h => ?_
  refine wp_seq (scheduleFrom_spec hx nproc 0 h) fun _ _ h => ?_
  refine wp_mono (release_spec mem_cons_self h) fun _ _ h => ?_
  unfold Idle
  rw [hk]
  exact fun _ _ => h

/-! ## All runs -/

lemma boot_schedulers (ncpu n : Nat) :
    (boot ncpu).schedulers n = ⟨0, false, false, if n < ncpu then some n else none⟩ := by
  unfold boot
  induction ncpu with
  | zero => rfl
  | succ k ih =>
    rw [range_succ, foldl_append, foldl_cons, foldl_nil, get_set]
    by_cases hn : n = k
    · subst hn
      simp
    · rw [if_neg hn, ih]
      have hiff : n < k + 1 ↔ n < k := by omega
      simp only [hiff]

lemma boot_cpu (ncpu n : Nat) :
    (boot ncpu).ctx (.cpu n) = ⟨0, false, false, if n < ncpu then some n else none⟩ := boot_schedulers ncpu n

lemma boot_proc (ncpu i : Nat) : (boot ncpu).ctx (.proc i) = ⟨0, false, false, none⟩ := rfl

lemma boot_on (h : ((boot ncpu).ctx x).on = some c) : x = .cpu c ∧ c < ncpu := by
  cases x with
  | proc i => cases h
  | cpu n =>
    rw [boot_cpu] at h
    by_cases hn : n < ncpu
    · rw [if_pos hn] at h
      obtain rfl := Option.some.inj h
      exact ⟨rfl, hn⟩
    · rw [if_neg hn] at h
      cases h

lemma boot_inv (ncpu : Nat) : Inv ncpu (boot ncpu) where
  unique := fun _ _ _ hx hy => (boot_on hx).1.trans (boot_on hy).1.symm
  cpu := fun _ _ hx => (boot_on hx).2
  home := fun _ _ hx => (Ctx.cpu.inj (boot_on hx).1).symm
  gen := fun n => by rw [boot_cpu]
  locks := fun l c => by simp [boot]
  nodup := fun c => by simp [boot]
  ncli := fun c => by simp [boot]
  ints := fun c h => by simp [boot] at h
  inProc := fun i c h => by cases (boot_on h).1
  inSched := fun c _ _ => by simp [boot]
  running := fun i h => by
    simp only [boot, get_set] at h
    split at h <;> cases h

lemma boot_idle (ncpu : Nat) (t : Thread) : Idle ncpu t (boot ncpu) := by
  unfold Idle
  cases hk : t.kind with
  | process =>
    obtain ⟨i, hx⟩ := kind_process hk
    have htr := kind_not_handler (t := t) (by rw [hk]; decide)
    refine ⟨fun h => ?_, fun _ => ⟨?_, fun c h => ?_⟩⟩
    · rw [htr] at h
      cases h
    · rw [hx, htr, boot_proc]
    · rw [hx, boot_proc] at h
      cases h
  | scheduler =>
    obtain ⟨n, hx⟩ := kind_scheduler hk
    intro hg hn
    have hlt := hn n hx
    refine ⟨by rw [hg]; exact Nat.zero_le _, fun c _ _ => ⟨?_, fun _ => by simp [boot]⟩⟩
    rw [hx, boot_cpu, if_pos hlt]
    simp
  | handler =>
    intro _
    cases hx : t.ctx with
    | proc i => rw [boot_proc]
    | cpu n => rw [boot_cpu]

lemma call_spec (x : Call) (hs : Idle ncpu t s) :
    Spec nproc ncpu t (x.body nproc) (fun _ => Idle ncpu t) s := by
  cases x with
  | scheduler => exact scheduler_spec hs
  | life ops exits closing => exact life_spec ops exits closing hs
  | trap wakes timer closing => exact trap_spec wakes timer closing hs

abbrev Run (nproc ncpu : Nat) (k : Config Thread Act Act.Res State Panic) : Prop :=
  Reaches (machine nproc) (fun _ _ _ => True) (.initial (boot ncpu)) k

lemma run_sound {k : Config Thread Act Act.Res State Panic} (h : Run nproc ncpu k) :
    (logic ncpu).Sound (machine nproc) k :=
  Logic.sound Env.refl (fun _ _ _ _ => Env.trans) (fun _ _ _ => Idle.env) (fun _ x _ _ hs _ => call_spec x hs)
    (boot_inv ncpu) (boot_idle ncpu) h

lemma Inv.proc_on {i : Nat} (hi : Inv ncpu s) (hl : ptableLock ∉ (s.cpus c).held) (hp : (s.cpus c).proc = some i) :
    (s.ctx (.proc i)).on = some c := by
  by_contra hon
  by_cases hno : ∀ j, (s.ctx (.proc j)).on ≠ some c
  · have h := (hi.inSched c hno hl).1
    rw [hp] at h
    cases h
  push Not at hno
  obtain ⟨j, hj⟩ := hno
  obtain rfl : j = i := Option.some.inj ((hi.inProc j c hj).1.symm.trans hp)
  exact hon hj

/-- Whenever `ptable.lock` is free, each running process is the process of one CPU and each CPU's process
is running. The only panic is that of `exit` for `initproc`, and `wait` frees a zombie that no CPU
executes and whose page table no CPU has loaded. -/
theorem running_on_one_cpu (nproc ncpu : Nat) (k : Config Thread Act Act.Res State Panic) (h : Run nproc ncpu k) :
    (∀ e, k.stopped = some e → e = .initExiting) ∧
    (k.st.locks ptableLock = none →
      (∀ i, (k.st.procs i).state = .running →
        ∃ n, n < ncpu ∧ (k.st.cpus n).proc = some i ∧ ∀ m, (k.st.cpus m).proc = some i → m = n) ∧
      ∀ n i, (k.st.cpus n).proc = some i → (k.st.procs i).state = .running) ∧
    ∀ t i r n p, k.thread t = some (.act (.reap i) r) → Runs t n k.st → (k.st.cpus n).proc = some p →
      (k.st.procs i).parent = some p → (k.st.procs i).state = .zombie →
      (k.st.ctx (.proc i)).on = none ∧ ∀ m, (k.st.cpus m).cr3 ≠ some i := by
  have hs := run_sound h
  have hi : Inv ncpu k.st := hs.inv
  refine ⟨hs.stopped, fun hfree => ?_, fun t i r n p ht hr hp hpar hz => ?_⟩
  · have hl : ∀ c, ptableLock ∉ (k.st.cpus c).held := by
      intro c hc
      rw [(hi.locks _ c).mpr hc] at hfree
      cases hfree
    refine ⟨fun i hst => ?_, fun n i hp => ?_⟩
    · rcases hi.running i hst with hon | ⟨c, hc, -⟩
      · obtain ⟨n, hn⟩ := Option.ne_none_iff_exists'.mp hon
        refine ⟨n, hi.cpu _ n hn, (hi.inProc i n hn).1, fun m hm => ?_⟩
        exact Option.some.inj ((hi.proc_on (hl m) hm).symm.trans hn)
      · exact absurd hc (hl c)
    · rcases (hi.inProc i n (hi.proc_on (hl n) hp)).2.2 with hst | ⟨hc, -⟩
      · exact hst
      · exact absurd hc (hl n)
  · exact hs.pre Env.refl ht trivial n p hr hp hpar hz

instance (nproc : Nat) (s : State) (t : Thread) : Decidable ((machine nproc).canCall s t) :=
  inferInstanceAs (Decidable True)

/-- CPU 0 runs init, which forks; CPU 1 runs the child, and a timer interrupt takes init off its CPU
and puts it back. -/
def twoCpus : List (Turn Thread Call) :=
  [.call ⟨.cpu 0, 0, false⟩ .scheduler 100, .call ⟨.proc 0, 0, false⟩ (.life [.fork true true] false []) 200,
    .call ⟨.cpu 1, 0, false⟩ .scheduler 100, .call ⟨.proc 1, 1, false⟩ (.life [] false []) 100,
    .call ⟨.proc 0, 0, true⟩ (.trap [] true []) 100, .go ⟨.cpu 0, 0, false⟩ 200,
    .call ⟨.cpu 0, 0, false⟩ .scheduler 100,
    .go ⟨.proc 0, 0, true⟩ 100]

def afterTwoCpus : Config Thread Act Act.Res State Panic :=
  Config.play (machine Process.NPROC) (fun _ _ _ => True) (.initial (boot 2)) twoCpus

lemma run_twoCpus : Run Process.NPROC 2 afterTwoCpus := by
  unfold afterTwoCpus
  exact Config.play_reaches _ _

theorem running_on_one_cpu_two :
    (afterTwoCpus.st.procs 0).state = .running ∧ (afterTwoCpus.st.procs 1).state = .running ∧
      (∃ n, n < 2 ∧ (afterTwoCpus.st.cpus n).proc = some 0 ∧ ∀ m, (afterTwoCpus.st.cpus m).proc = some 0 → m = n) ∧
      ∃ n, n < 2 ∧ (afterTwoCpus.st.cpus n).proc = some 1 ∧ ∀ m, (afterTwoCpus.st.cpus m).proc = some 1 → m = n := by
  have hfree : afterTwoCpus.st.locks ptableLock = none := by decide +kernel
  have h0 : (afterTwoCpus.st.procs 0).state = .running := by decide +kernel
  have h1 : (afterTwoCpus.st.procs 1).state = .running := by decide +kernel
  obtain ⟨-, h, -⟩ := running_on_one_cpu Process.NPROC 2 afterTwoCpus run_twoCpus
  exact ⟨h0, h1, (h hfree).1 0 h0, (h hfree).1 1 h1⟩

/-- A CPU executes one context, a process with its own page table. While it holds a lock no other CPU does, and
its interrupts are off. -/
theorem contexts_apart (nproc ncpu : Nat) (k : Config Thread Act Act.Res State Panic) (h : Run nproc ncpu k) :
    (∀ x y c, (k.st.ctx x).on = some c → (k.st.ctx y).on = some c → x = y) ∧
    (∀ n c, (k.st.ctx (.cpu n)).on = some c → c = n) ∧
    (∀ i c, (k.st.ctx (.proc i)).on = some c → (k.st.cpus c).proc = some i ∧ (k.st.cpus c).cr3 = some i) ∧
    ∀ l c, l ∈ (k.st.cpus c).held → (k.st.cpus c).ints = false ∧ ∀ d, l ∈ (k.st.cpus d).held → d = c := by
  have hi : Inv ncpu k.st := (run_sound h).inv
  refine ⟨hi.unique, hi.home, fun i c hc => ?_, fun l c hl => ⟨hi.ints c ?_, fun d hd => hi.holder hd hl⟩⟩
  · exact ⟨(hi.inProc i c hc).1, (hi.inProc i c hc).2.1⟩
  · exact (length_pos_of_mem hl).trans_le (hi.ncli c)

theorem contexts_apart_two :
    (afterTwoCpus.st.ctx (.proc 1)).on = some 1 ∧ (afterTwoCpus.st.cpus 1).cr3 = some 1 := by
  have hon : (afterTwoCpus.st.ctx (.proc 1)).on = some 1 := by decide +kernel
  exact ⟨hon, ((contexts_apart Process.NPROC 2 afterTwoCpus run_twoCpus).2.2.1 1 1 hon).2⟩

end Xv6.Sched
