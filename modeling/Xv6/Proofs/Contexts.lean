import Xv6.Sched
import Mathlib.Order.Basic

/-!
# Contexts and CPUs

`ptable.lock` stays with a CPU through `swtch`. What a thread may rely on is therefore said by where
its context is: executing without locks, executing with locks and so with interrupts off, or away and
to be resumed with `ptable.lock` held.
-/

namespace Xv6.Sched

open Threads

variable {s s' s'' : State} {t u : Thread} {x y : Ctx} {c d i j n : Nat} {H : List Nat}

namespace State

@[simp] lemma ctx_setCtx (s : State) (x y : Ctx) (k : Context) :
    (s.setCtx x k).ctx y = if y = x then k else s.ctx y := by
  cases x <;> cases y <;> simp [setCtx, ctx, Table.get_set]

@[simp] lemma cpus_setCtx (s : State) (x : Ctx) (k : Context) : (s.setCtx x k).cpus = s.cpus := by
  cases x <;> rfl

@[simp] lemma procs_setCtx (s : State) (x : Ctx) (k : Context) : (s.setCtx x k).procs = s.procs := by
  cases x <;> rfl

@[simp] lemma locks_setCtx (s : State) (x : Ctx) (k : Context) : (s.setCtx x k).locks = s.locks := by
  cases x <;> rfl

@[simp] lemma ctx_setCpu (s : State) (c : Nat) (k : Cpu) (x : Ctx) : (s.setCpu c k).ctx x = s.ctx x := by
  cases x <;> rfl

@[simp] lemma cpus_setCpu (s : State) (c d : Nat) (k : Cpu) :
    (s.setCpu c k).cpus d = if d = c then k else s.cpus d := Table.get_set _ _ _ _

@[simp] lemma procs_setCpu (s : State) (c : Nat) (k : Cpu) : (s.setCpu c k).procs = s.procs := rfl
@[simp] lemma locks_setCpu (s : State) (c : Nat) (k : Cpu) : (s.setCpu c k).locks = s.locks := rfl

@[simp] lemma ctx_setSlot (s : State) (i : Nat) (q : Slot) (x : Ctx) : (s.setSlot i q).ctx x = s.ctx x := by
  cases x <;> rfl

@[simp] lemma procs_setSlot (s : State) (i j : Nat) (q : Slot) :
    (s.setSlot i q).procs j = if j = i then q else s.procs j := Table.get_set _ _ _ _

end State

/-- Thread `t` is the active one of its context, which CPU `c` executes. -/
structure Runs (t : Thread) (c : Nat) (s : State) : Prop where
  gen : (s.ctx t.ctx).gen = t.gen
  level : (s.ctx t.ctx).trapped = t.trap
  on : (s.ctx t.ctx).on = some c

def Leaving (st : ProcState) : Prop := st = .sleeping ∨ st = .runnable ∨ st = .zombie

/-- `ncpu` CPUs execute contexts. A lock records the CPU that has it among its own, and a CPU with
locks has interrupts off. A CPU that executes a process has it as `proc`, and that process is running
or holds `ptable.lock` and is about to leave; a CPU that executes its scheduler has no process
unless it holds `ptable.lock`. -/
structure Inv (ncpu : Nat) (s : State) : Prop where
  unique : ∀ x y c, (s.ctx x).on = some c → (s.ctx y).on = some c → x = y
  cpu : ∀ x c, (s.ctx x).on = some c → c < ncpu
  home : ∀ n c, (s.ctx (.cpu n)).on = some c → c = n
  gen : ∀ n, (s.ctx (.cpu n)).gen = 0
  locks : ∀ l c, s.locks l = some c ↔ l ∈ (s.cpus c).held
  nodup : ∀ c, (s.cpus c).held.Nodup
  ncli : ∀ c, (s.cpus c).held.length ≤ (s.cpus c).ncli
  ints : ∀ c, 0 < (s.cpus c).ncli → (s.cpus c).ints = false
  inProc : ∀ i c, (s.ctx (.proc i)).on = some c → (s.cpus c).proc = some i ∧ (s.cpus c).cr3 = some i ∧
    ((s.procs i).state = .running ∨ (ptableLock ∈ (s.cpus c).held ∧ Leaving (s.procs i).state))
  inSched : ∀ c, (∀ i, (s.ctx (.proc i)).on ≠ some c) → ptableLock ∉ (s.cpus c).held →
    (s.cpus c).proc = none ∧ (s.cpus c).cr3 = none
  running : ∀ i, (s.procs i).state = .running → (s.ctx (.proc i)).on ≠ none ∨
    ∃ c, ptableLock ∈ (s.cpus c).held ∧ (s.cpus c).proc = some i

variable {ncpu : Nat}

lemma Inv.holder (hi : Inv ncpu s) {l : Nat} (hc : l ∈ (s.cpus c).held) (hd : l ∈ (s.cpus d).held) : c = d :=
  Option.some.inj (((hi.locks l c).mpr hc).symm.trans ((hi.locks l d).mpr hd))

lemma Inv.runs_unique (hi : Inv ncpu s) (ht : Runs t c s) (hu : Runs u c s) : t = u := by
  have hx := hi.unique _ _ c ht.on hu.on
  obtain ⟨tx, tg, tt⟩ := t
  obtain ⟨ux, ug, ut⟩ := u
  obtain rfl : tx = ux := hx
  obtain rfl : tg = ug := ht.gen.symm.trans hu.gen
  obtain rfl : tt = ut := ht.level.symm.trans hu.level
  rfl

/-! ## What threads know -/

/-- If `t` is the active thread of its context, a CPU executes it and has no locks. -/
def Quiet (t : Thread) (s : State) : Prop :=
  t.gen ≤ (s.ctx t.ctx).gen ∧ ∀ c, (s.ctx t.ctx).gen = t.gen → (s.ctx t.ctx).trapped = t.trap →
    (s.ctx t.ctx).on ≠ none ∧ ((s.ctx t.ctx).on = some c → (s.cpus c).held = [] ∧ (s.cpus c).ncli = 0)

/-- What a context finds when it is resumed: a process is running, and the scheduler gets back
from a process that is not. -/
def Resumed (s : State) (c : Nat) : Ctx → Prop
  | .proc i => (s.procs i).state = .running
  | .cpu _ => ∃ q, (s.cpus c).proc = some q ∧ (s.procs q).state ≠ .running ∧ (s.ctx (.proc q)).on = none

/-- Thread `t` has called `swtch`, or has not begun: when a CPU executes it again it holds
`ptable.lock` and nothing else. -/
def Away (t : Thread) (s : State) : Prop :=
  (t.trap = true → t.gen ≤ (s.ctx t.ctx).gen) ∧
    ((s.ctx t.ctx).gen = t.gen → (s.ctx t.ctx).trapped = t.trap ∧
      ∀ c, (s.ctx t.ctx).on = some c → (s.cpus c).held = [ptableLock] ∧ (s.cpus c).ncli = 1 ∧ Resumed s c t.ctx)

def Out (t : Thread) (s : State) : Prop := (s.ctx t.ctx).gen = t.gen → (s.ctx t.ctx).trapped = false

/-- The process of `t` has exited and left its CPU. -/
def Dead (t : Thread) (s : State) : Prop :=
  ∃ i, t.ctx = .proc i ∧ t.gen ≤ (s.ctx (.proc i)).gen ∧ ((s.ctx (.proc i)).gen = t.gen →
    (s.ctx (.proc i)).on = none ∧ ((s.procs i).state = .zombie ∨ (s.procs i).state = .unused))

def Making (t : Thread) (i : Nat) (s : State) : Prop := (s.procs i).state = .embryo ∧ (s.procs i).maker = t

lemma Making.congr (h : Making t i s) (hprocs : s'.procs i = s.procs i) : Making t i s' := by
  unfold Making
  rw [hprocs]
  exact h

/-- What the process table looks like to the holder of `ptable.lock` while others act. -/
structure Kept (s s' : State) : Prop where
  same : ∀ i, (s.procs i).state ≠ .embryo → s'.procs i = s.procs i
  embryo : ∀ i, (s.procs i).state = .embryo →
    (s'.procs i).state = .embryo ∨ (s'.procs i).state = .runnable ∨ (s'.procs i).state = .unused
  on : ∀ x, (s'.ctx x).on = (s.ctx x).on

lemma Kept.refl (s : State) : Kept s s := ⟨fun _ _ => rfl, fun _ h => .inl h, fun _ => rfl⟩

lemma Kept.trans (h : Kept s s') (h' : Kept s' s'') : Kept s s'' := by
  obtain ⟨hsame, hembryo, hon⟩ := h
  constructor <;> grind [Kept]

structure Env (t : Thread) (s s' : State) : Prop where
  quiet : Quiet t s → Quiet t s'
  away : Away t s → Away t s'
  out : t.trap = true → Out t s → Out t s'
  dead : Dead t s → Dead t s'
  busy : ∀ c, Runs t c s → 0 < (s.cpus c).ncli → Runs t c s' ∧ s'.cpus c = s.cpus c
  table : ∀ c, Runs t c s → 0 < (s.cpus c).ncli → ptableLock ∈ (s.cpus c).held → Kept s s'
  making : ∀ i, Making t i s → Making t i s'

lemma Env.refl (t : Thread) (s : State) : Env t s s :=
  ⟨id, id, fun _ => id, id, fun _ h _ => ⟨h, rfl⟩, fun _ _ _ _ => .refl s, fun _ h => h⟩

lemma Env.trans (h : Env t s s') (h' : Env t s' s'') : Env t s s'' := by
  refine ⟨fun hq => h'.quiet (h.quiet hq), fun ha => h'.away (h.away ha), fun ht ho => h'.out ht (h.out ht ho),
    fun hd => h'.dead (h.dead hd), fun c hr hn => ?_, fun c hr hn hl => ?_, fun i hm => h'.making i (h.making i hm)⟩
  · obtain ⟨hr', hc⟩ := h.busy c hr hn
    obtain ⟨hr'', hc'⟩ := h'.busy c hr' (by rw [hc]; exact hn)
    exact ⟨hr'', hc'.trans hc⟩
  · obtain ⟨hr', hc⟩ := h.busy c hr hn
    exact (h.table c hr hn hl).trans (h'.table c hr' (by rw [hc]; exact hn) (by rw [hc]; exact hl))

/-! ## What the others see of an action -/

lemma Env.of_same (hgen : (s'.ctx u.ctx).gen = (s.ctx u.ctx).gen)
    (hlevel : (s'.ctx u.ctx).trapped = (s.ctx u.ctx).trapped) (hon : (s'.ctx u.ctx).on = (s.ctx u.ctx).on)
    (hcpu : ∀ d, Runs u d s → s'.cpus d = s.cpus d)
    (haway : ∀ d, Runs u d s → (s.cpus d).held = [ptableLock] → Resumed s d u.ctx → Resumed s' d u.ctx)
    (hdead : ∀ k, u.ctx = .proc k → (s.ctx u.ctx).on = none →
      (s.procs k).state = .zombie ∨ (s.procs k).state = .unused →
      (s'.procs k).state = .zombie ∨ (s'.procs k).state = .unused)
    (htable : ∀ d, Runs u d s → ptableLock ∈ (s.cpus d).held → Kept s s')
    (hmaking : ∀ i, Making u i s → Making u i s') : Env u s s' := by
  constructor <;> grind [Quiet, Away, Out, Dead, Runs]

/-- Only CPU `c` changes, and of the contexts nothing that says who is active. -/
structure CpuOnly (c : Nat) (s s' : State) : Prop where
  cpus : ∀ d, d ≠ c → s'.cpus d = s.cpus d
  procs : ∀ i, s'.procs i = s.procs i
  gen : ∀ x, (s'.ctx x).gen = (s.ctx x).gen
  level : ∀ x, (s'.ctx x).trapped = (s.ctx x).trapped
  on : ∀ x, (s'.ctx x).on = (s.ctx x).on

lemma Inv.other_cpu (hi : Inv ncpu s) (ht : Runs t c s) (hu : u ≠ t) (hr : Runs u d s) : d ≠ c := by
  rintro rfl
  exact hu (hi.runs_unique hr ht)

lemma CpuOnly.kept (h : CpuOnly c s s') : Kept s s' where
  same := fun i _ => h.procs i
  embryo := fun i he => by
    rw [h.procs]
    exact .inl he
  on := h.on

lemma CpuOnly.env (h : CpuOnly c s s') (hi : Inv ncpu s) (ht : Runs t c s) (hu : u ≠ t) : Env u s s' := by
  have hother := fun d => hi.other_cpu ht hu (d := d)
  have hkept := h.kept
  obtain ⟨hcpus, hprocs, hgen, hlevel, hon⟩ := h
  apply Env.of_same <;> cases hx : u.ctx <;> grind [Making, Resumed]

structure SlotOnly (i : Nat) (q : Slot) (s s' : State) : Prop where
  locks : s'.locks = s.locks
  procs : ∀ j, s'.procs j = if j = i then q else s.procs j
  cpus : ∀ d, s'.cpus d = s.cpus d
  ctx : ∀ x, s'.ctx x = s.ctx x

variable {q : Slot}

lemma SlotOnly.env_held (h : SlotOnly i q s s') (hi : Inv ncpu s) (ht : Runs t c s)
    (hl : ptableLock ∈ (s.cpus c).held) (hu : u ≠ t)
    (hdead : (s.procs i).state = .zombie ∨ (s.procs i).state = .unused → (s.ctx (.proc i)).on = none →
      q.state = .zombie ∨ q.state = .unused)
    (hmaking : Making u i s → q.state = .embryo ∧ q.maker = u) : Env u s s' := by
  -- another CPU cannot hold the lock too
  have hother : ∀ d, Runs u d s → ptableLock ∉ (s.cpus d).held :=
    fun d hr hd => hi.other_cpu ht hu hr (hi.holder hd hl)
  obtain ⟨-, hprocs, hcpus, hctx⟩ := h
  apply Env.of_same <;> grind [Making]

lemma SlotOnly.env_making (h : SlotOnly i q s s') (hm : Making t i s) (hu : u ≠ t)
    (hq : q.state = .embryo ∨ q.state = .runnable ∨ q.state = .unused) : Env u s s' := by
  obtain ⟨-, hprocs, hcpus, hctx⟩ := h
  apply Env.of_same <;> cases hx : u.ctx <;> grind [Making, Resumed, Kept]

/-- `allocproc` takes slot `i` and makes a new context for it. -/
structure Allocs (t : Thread) (i : Nat) (s s' : State) : Prop where
  locks : s'.locks = s.locks
  procs : ∀ j, j ≠ i → s'.procs j = s.procs j
  embryo : Making t i s'
  cpus : ∀ d, s'.cpus d = s.cpus d
  ctx : ∀ x, x ≠ .proc i → s'.ctx x = s.ctx x
  fresh : s'.ctx (.proc i) = ⟨(s.ctx (.proc i)).gen + 1, false, false, none⟩

lemma Allocs.env (h : Allocs t i s s') (hi : Inv ncpu s) (ht : Runs t c s) (hl : ptableLock ∈ (s.cpus c).held)
    (hfree : (s.procs i).state = .unused) (hoff : (s.ctx (.proc i)).on = none) (hu : u ≠ t) : Env u s s' := by
  have hother : ∀ d, Runs u d s → ptableLock ∉ (s.cpus d).held :=
    fun d hr hd => hi.other_cpu ht hu hr (hi.holder hd hl)
  obtain ⟨-, hprocs, hembryo, hcpus, hctx, hfresh⟩ := h
  by_cases hx : u.ctx = .proc i
  · -- no thread of an earlier process in this slot acts again
    constructor <;> grind [Quiet, Away, Out, Dead, Runs, Making]
  · apply Env.of_same <;> grind [Making]

/-- CPU `c` goes from the context `x` to the context `y`. -/
structure Switches (c : Nat) (x y : Ctx) (s s' : State) : Prop where
  locks : s'.locks = s.locks
  procs : ∀ i, s'.procs i = s.procs i
  cpus : ∀ d, s'.cpus d = s.cpus d
  gen : ∀ z, (s'.ctx z).gen = (s.ctx z).gen
  level : ∀ z, (s'.ctx z).trapped = (s.ctx z).trapped
  from_on : (s'.ctx x).on = none
  to_off : (s.ctx y).on = none
  to_on : (s'.ctx y).on = some c
  other : ∀ z, z ≠ x → z ≠ y → (s'.ctx z).on = (s.ctx z).on

lemma Switches.env (h : Switches c t.ctx y s s') (hi : Inv ncpu s) (ht : Runs t c s)
    (hh : (s.cpus c).held = [ptableLock]) (hn : (s.cpus c).ncli = 1) (hres : Resumed s' c y) (hu : u ≠ t) :
    Env u s s' := by
  have hl : ptableLock ∈ (s.cpus c).held := by
    rw [hh]
    exact List.mem_singleton_self _
  have hother : ∀ d, Runs u d s → ptableLock ∉ (s.cpus d).held :=
    fun d hr hd => hi.other_cpu ht hu hr (hi.holder hd hl)
  obtain ⟨-, hprocs, hcpus, hgen, hlevel, hfrom, hoff, hto, hrest⟩ := h
  by_cases hx : u.ctx = t.ctx
  · -- `u` is not the active thread of the context that leaves
    constructor <;> grind [Quiet, Away, Out, Dead, Runs, Making]
  by_cases hy : u.ctx = y
  · have hquiet : Quiet u s → Quiet u s' := by
      intro hq
      unfold Quiet
      rw [hgen, hlevel]
      exact ⟨hq.1, fun d hg hlv => absurd (hy ▸ hoff) (hq.2 d hg hlv).1⟩
    -- a process that has exited is not resumed
    constructor <;> cases hz : u.ctx <;> grind [Away, Out, Dead, Runs, Making, Resumed]
  · apply Env.of_same <;> grind [Making]

structure Traps (c : Nat) (x : Ctx) (s s' : State) : Prop where
  locks : s'.locks = s.locks
  procs : ∀ i, s'.procs i = s.procs i
  cpus : ∀ d, d ≠ c → s'.cpus d = s.cpus d
  proc : (s'.cpus c).proc = (s.cpus c).proc
  cr3 : (s'.cpus c).cr3 = (s.cpus c).cr3
  held : (s'.cpus c).held = (s.cpus c).held
  ncli : (s'.cpus c).ncli = (s.cpus c).ncli
  gen : ∀ z, (s'.ctx z).gen = (s.ctx z).gen
  on : ∀ z, (s'.ctx z).on = (s.ctx z).on
  other : ∀ z, z ≠ x → (s'.ctx z).trapped = (s.ctx z).trapped

lemma Traps.env (h : Traps c t.ctx s s') (hi : Inv ncpu s) (htrap : t.trap = true)
    (hgen : (s.ctx t.ctx).gen = t.gen) (hon : (s.ctx t.ctx).on = some c)
    (hh : (s.cpus c).held = []) (hn : (s.cpus c).ncli = 0) (hu : u ≠ t) : Env u s s' := by
  have hkept : Kept s s' := ⟨fun i _ => h.procs i, fun i he => .inl (by rw [h.procs]; exact he), h.on⟩
  have hmaking : ∀ k, Making u k s → Making u k s' := fun k hm => hm.congr (h.procs k)
  obtain ⟨-, hprocs, hcpus, hproc, hcr3, hheld, hncli, hgen', hon', hother⟩ := h
  by_cases hx : u.ctx = t.ctx
  · -- the code that the handler interrupts, or a thread of another process in this slot
    have hbase : u.gen = t.gen → u.trap = false := by
      intro hg
      cases htr : u.trap with
      | false => rfl
      | true =>
        obtain ⟨ux, ug, ut⟩ := u
        obtain ⟨tx, tg, tt⟩ := t
        simp_all
    constructor <;> grind [Quiet, Away, Out, Dead, Runs]
  · have hne : ∀ d, Runs u d s → d ≠ c := by
      rintro d hr rfl
      exact hx (hi.unique _ _ _ hr.on hon)
    apply Env.of_same <;> cases hz : u.ctx <;> grind [Resumed]

/-! ## The invariant -/

lemma Inv.of_cpu (hi : Inv ncpu s) (h : CpuOnly c s s')
    (hlocks : ∀ l d, s'.locks l = some d ↔ l ∈ (s'.cpus d).held) (hnodup : (s'.cpus c).held.Nodup)
    (hncli : (s'.cpus c).held.length ≤ (s'.cpus c).ncli)
    (hints : 0 < (s'.cpus c).ncli → (s'.cpus c).ints = false)
    (hin : ∀ i, (s.ctx (.proc i)).on = some c → (s'.cpus c).proc = some i ∧ (s'.cpus c).cr3 = some i ∧
      ((s.procs i).state = .running ∨ (ptableLock ∈ (s'.cpus c).held ∧ Leaving (s.procs i).state)))
    (hsched : (∀ i, (s.ctx (.proc i)).on ≠ some c) → ptableLock ∉ (s'.cpus c).held →
      (s'.cpus c).proc = none ∧ (s'.cpus c).cr3 = none)
    (hrun : ∀ i, (s.procs i).state = .running → ptableLock ∈ (s.cpus c).held → (s.cpus c).proc = some i →
      (s.ctx (.proc i)).on ≠ none ∨ (ptableLock ∈ (s'.cpus c).held ∧ (s'.cpus c).proc = some i)) :
    Inv ncpu s' := by
  obtain ⟨hcpus, hprocs, hgen, hlevel, hon⟩ := h
  constructor <;> grind [Inv]

lemma Inv.of_flags (hi : Inv ncpu s) (h : CpuOnly c s s') (hlocks : s'.locks = s.locks)
    (hheld : (s'.cpus c).held = (s.cpus c).held) (hproc : (s'.cpus c).proc = (s.cpus c).proc)
    (hcr3 : (s'.cpus c).cr3 = (s.cpus c).cr3) (hncli : (s.cpus c).held.length ≤ (s'.cpus c).ncli)
    (hints : 0 < (s'.cpus c).ncli → (s'.cpus c).ints = false) : Inv ncpu s' := by
  refine hi.of_cpu h (fun l d => ?_) (hheld ▸ hi.nodup c) (hheld ▸ hncli) hints (fun i hon => ?_) ?_
    fun i _ hl hp => ?_
  all_goals grind [Inv, CpuOnly]

lemma Inv.of_sched (hi : Inv ncpu s) (h : CpuOnly c s s') (hlocks : s'.locks = s.locks)
    (hheld : (s'.cpus c).held = (s.cpus c).held) (hncli : (s'.cpus c).ncli = (s.cpus c).ncli)
    (hints : (s'.cpus c).ints = (s.cpus c).ints) (hl : ptableLock ∈ (s.cpus c).held)
    (hno : ∀ i, (s.ctx (.proc i)).on ≠ some c)
    (hrun : ∀ i, (s.procs i).state = .running → (s.cpus c).proc = some i → (s'.cpus c).proc = some i) :
    Inv ncpu s' := by
  refine hi.of_cpu h (fun l d => ?_) (hheld ▸ hi.nodup c) ?_ ?_ (fun i hon => absurd hon (hno i))
    (fun _ hn => ?_) fun i hst _ hp => ?_
  all_goals grind [Inv, CpuOnly]

lemma Inv.of_slot (hi : Inv ncpu s) (h : SlotOnly i q s s')
    (hin : ∀ c, (s.ctx (.proc i)).on = some c →
      q.state = .running ∨ (ptableLock ∈ (s.cpus c).held ∧ Leaving q.state))
    (hrun : q.state = .running → (s.ctx (.proc i)).on ≠ none ∨
      ∃ c, ptableLock ∈ (s.cpus c).held ∧ (s.cpus c).proc = some i) : Inv ncpu s' := by
  obtain ⟨hlocks, hprocs, hcpus, hctx⟩ := h
  constructor <;> grind [Inv]

lemma Inv.of_alloc (hi : Inv ncpu s) (h : Allocs t i s s') (hoff : (s.ctx (.proc i)).on = none) : Inv ncpu s' := by
  obtain ⟨hlocks, hprocs, hembryo, hcpus, hctx, hfresh⟩ := h
  have hon : ∀ x, (s'.ctx x).on = (s.ctx x).on := by
    intro x
    by_cases hne : x = .proc i <;> grind
  have hst : (s'.procs i).state ≠ .running := by simp [hembryo.1]
  constructor <;> intros <;> grind [Inv]

lemma Inv.of_switch (hi : Inv ncpu s) (h : Switches c x y s s') (hon : (s.ctx x).on = some c)
    (hl : ptableLock ∈ (s.cpus c).held) (hcpu : ∀ n, y = .cpu n → n = c)
    (hproc : ∀ i, y = .proc i → (s.cpus c).proc = some i ∧ (s.cpus c).cr3 = some i ∧ (s.procs i).state = .running)
    (hleft : ∀ i, x = .proc i → (s.procs i).state ≠ .running) : Inv ncpu s' := by
  obtain ⟨hlocks, hprocs, hcpus, hgen, hlevel, hfrom, hoff, hto, hother⟩ := h
  -- who is executed afterwards: `y`, and the others as before
  have hold : ∀ z d, (s'.ctx z).on = some d → (z = y ∧ d = c) ∨ ((s.ctx z).on = some d ∧ z ≠ x ∧ z ≠ y) := by
    intro z d hz
    by_cases hzy : z = y <;> by_cases hzx : z = x <;> grind
  constructor <;> intros <;> grind [Inv]

lemma Inv.of_trap (hi : Inv ncpu s) (h : Traps c x s s') (hn : (s.cpus c).ncli = 0) : Inv ncpu s' := by
  obtain ⟨hlocks, hprocs, hcpus, hproc, hcr3, hheld, hncli, hgen, hon, hother⟩ := h
  constructor <;> grind [Inv]

/-! ## Facts about who is where -/

lemma Inv.off (hi : Inv ncpu s) (hrun : (s.procs i).state ≠ .running) (hleave : ¬Leaving (s.procs i).state) :
    (s.ctx (.proc i)).on = none := by
  cases hon : (s.ctx (.proc i)).on with
  | none => rfl
  | some d =>
    rcases (hi.inProc i d hon).2.2 with h | ⟨-, h⟩
    · exact absurd h hrun
    · exact absurd h hleave

/-- Seen with `ptable.lock` from another context, a process that is not running is on no CPU. -/
lemma Inv.off_of_held (hi : Inv ncpu s) (hon : (s.ctx x).on = some c) (hl : ptableLock ∈ (s.cpus c).held)
    (hx : x ≠ .proc i) (hrun : (s.procs i).state ≠ .running) : (s.ctx (.proc i)).on = none := by
  cases hon' : (s.ctx (.proc i)).on with
  | none => rfl
  | some d =>
    rcases (hi.inProc i d hon').2.2 with h | ⟨hd, -⟩
    · exact absurd h hrun
    · obtain rfl := hi.holder hl hd
      exact absurd (hi.unique _ _ _ hon hon') hx

lemma Inv.not_loaded (hi : Inv ncpu s) (hoff : (s.ctx (.proc i)).on = none) (hl : ptableLock ∉ (s.cpus d).held) :
    (s.cpus d).proc ≠ some i ∧ (s.cpus d).cr3 ≠ some i := by
  by_cases hno : ∀ j, (s.ctx (.proc j)).on ≠ some d
  · obtain ⟨hp, hc⟩ := hi.inSched d hno hl
    rw [hp, hc]
    simp
  push Not at hno
  obtain ⟨j, hj⟩ := hno
  obtain ⟨hp, hc, -⟩ := hi.inProc j d hj
  have hne : j ≠ i := by
    rintro rfl
    rw [hoff] at hj
    cases hj
  rw [hp, hc]
  simpa using hne

end Xv6.Sched
