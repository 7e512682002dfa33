import Xv6.Sched

/-!
# Spin locks and interrupts, instruction by instruction (`spinlock.c`, `proc.c`)

A context executes a list of instructions; one that goes on after a step leaves what is still to be
done, with the local variables `eflags` and `intena`, in its place. Any scheduler may resume any
thread. An interrupt pushes a new level on the stack of the context that it interrupts; the handler
may do everything that the context may do, and goes back with no lock held.
-/

namespace Xv6.Spinlock

open Sched (Ctx Panic ptableLock)
open Process (ProcState)

inductive Instr where
  /-- `eflags = readeflags()`, `cli()`, and the counting. -/
  | pushcli
  | pushcliOff (eflags : Bool)
  | pushcliCount (eflags : Bool)
  /-- The check of the flag, the counting, and `sti()`. -/
  | popcli
  | popcliCount
  | popcliOn
  /-- `acquire` behind `pushcli`: the check, `xchg`, and `lk->cpu = cpu`. -/
  | acquire (l : Nat)
  | acquireXchg (l : Nat)
  | acquireCpu (l : Nat)
  /-- `release` before `popcli`: the check, `lk->cpu = 0`, and `xchg`. -/
  | release (l : Nat)
  | releaseCpu (l : Nat)
  | releaseXchg (l : Nat)
  /-- `proc->state = st; sched()`: the assignment, the checks, `swtch`, and `cpu->intena = intena`. -/
  | sched (st : ProcState)
  | schedCheck
  | schedSwtch (intena : Bool)
  | schedIntena (intena : Bool)
  | sti
  /-- The loop of the scheduler over the process table. -/
  | choose
deriving DecidableEq

def acquire (l : Nat) : List Instr := [.pushcli, .acquire l]

def release (l : Nat) : List Instr := [.release l, .popcli]

inductive Op where
  | pushcli
  | popcli
  | acquire (l : Nat)
  | release (l : Nat)
  | sched (st : ProcState)
  | sleep (lk : Nat)
  | yield

def Op.code : Op → List Instr
  | .pushcli => [.pushcli]
  | .popcli => [.popcli]
  | .acquire l => Spinlock.acquire l
  | .release l => Spinlock.release l
  | .sched st => [.sched st]
  | .sleep lk =>
    if lk ≠ ptableLock then
      Spinlock.acquire ptableLock ++ Spinlock.release lk ++ [.sched .sleeping] ++ Spinlock.release ptableLock ++
        Spinlock.acquire lk
    else [.sched .sleeping]
  | .yield => Spinlock.acquire ptableLock ++ [.sched .runnable] ++ Spinlock.release ptableLock

/-- Proper nesting, for a context that holds the locks `held` and has called `pushcli` `pushed` times more than
`popcli`: only what was taken is given back, and `sched` is called with `ptable.lock`. -/
def Op.Proper (held : List Nat) (pushed : Nat) : Op → Prop
  | .popcli => 0 < pushed
  | .release l => l ∈ held
  | .sched st => ptableLock ∈ held ∧ st ≠ .unused
  | .sleep lk => lk ∈ held
  | _ => True

instance (held : List Nat) (pushed : Nat) : (o : Op) → Decidable (o.Proper held pushed)
  | .popcli => inferInstanceAs (Decidable (0 < pushed))
  | .release l => inferInstanceAs (Decidable (l ∈ held))
  | .sched st => inferInstanceAs (Decidable (ptableLock ∈ held ∧ st ≠ .unused))
  | .sleep lk => inferInstanceAs (Decidable (lk ∈ held))
  | .pushcli => inferInstanceAs (Decidable True)
  | .acquire _ => inferInstanceAs (Decidable True)
  | .yield => inferInstanceAs (Decidable True)

def Op.usesProc : Op → Bool
  | .sched _ => true
  | .sleep _ => true
  | .yield => true
  | _ => false

/-- Code with the interrupts that came on top of it. The last two fields are for the proofs only: the calls of
`pushcli` that were not undone and do not belong to a lock that is held, and the interrupt flag before the last
operation that began with no lock and no such call. -/
structure Level where
  code : List Instr
  pushed : Nat
  before : Option Bool

structure Lock where
  locked : Bool
  cpu : Option Nat

/-- `struct cpu`, with the interrupt flag and the context that it executes. `held` is for the proofs only: the locks
that were taken on this CPU. -/
structure Cpu where
  ncli : Int
  intena : Bool
  ints : Bool
  cur : Ctx
  held : List Nat

/-- `sections` is for the proofs only: the interrupt flag before and after everything that a thread has done from
where it had no lock to where `ncli` was 0 again. -/
structure State where
  cpus : Nat → Cpu
  locks : Nat → Lock
  ctxs : Ctx → List Level
  states : Nat → ProcState
  panicked : Option Panic
  sections : List (Bool × Bool)

namespace State

/-- CPU `c` goes on in the level `L` of its context. -/
def put (c : Nat) (me : Cpu) (L : Level) (s : State) : State :=
  let x := (s.cpus c).cur
  { s with
    cpus := Function.update s.cpus c me
    ctxs := Function.update s.ctxs x (L :: (s.ctxs x).tail) }

def setLock (l : Nat) (lk : Lock) (s : State) : State := { s with locks := Function.update s.locks l lk }

def panic (e : Panic) (s : State) : State := { s with panicked := some e }

def holding (c l : Nat) (s : State) : Bool := (s.locks l).locked && (s.locks l).cpu = some c

/-- One instruction on CPU `c`; `L` is the level without it. -/
def instr (c : Nat) (L : Level) (s : State) : Instr → State :=
  let me := s.cpus c
  fun
  | .pushcli => s.put c me { L with code := .pushcliOff me.ints :: L.code }
  | .pushcliOff eflags => s.put c { me with ints := false } { L with code := .pushcliCount eflags :: L.code }
  | .pushcliCount eflags =>
    s.put c { me with ncli := me.ncli + 1, intena := if me.ncli = 0 then eflags else me.intena }
      { L with pushed := L.pushed + 1 }
  | .popcli =>
    if me.ints then s.panic .popcliInterruptible else s.put c me { L with code := .popcliCount :: L.code }
  | .popcliCount =>
    let s' := s.put c { me with ncli := me.ncli - 1 } { L with code := .popcliOn :: L.code, pushed := L.pushed - 1 }
    if me.ncli - 1 < 0 then s'.panic .popcli else s'
  | .popcliOn =>
    let ints := if me.ncli = 0 ∧ me.intena then true else me.ints
    let s' := s.put c { me with ints } L
    match L.before with
    | some f => if me.ncli = 0 then { s' with sections := (f, ints) :: s.sections } else s'
    | none => s'
  | .acquire l =>
    if s.holding c l then s.panic .acquire else s.put c me { L with code := .acquireXchg l :: L.code }
  | .acquireXchg l =>
    -- otherwise it spins
    if (s.locks l).locked then s
    else
      (s.setLock l { s.locks l with locked := true }).put c { me with held := l :: me.held }
        { L with code := .acquireCpu l :: L.code, pushed := L.pushed - 1 }
  | .acquireCpu l => (s.setLock l { s.locks l with cpu := some c }).put c me L
  | .release l =>
    if !s.holding c l then s.panic .release else s.put c me { L with code := .releaseCpu l :: L.code }
  | .releaseCpu l =>
    (s.setLock l { s.locks l with cpu := none }).put c me { L with code := .releaseXchg l :: L.code }
  | .releaseXchg l =>
    (s.setLock l { s.locks l with locked := false }).put c { me with held := me.held.erase l }
      { L with pushed := L.pushed + 1 }
  | .sched st =>
    match me.cur with
    | .cpu _ => s.panic .nullProc
    | .proc i =>
      { s with states := Function.update s.states i st }.put c me { L with code := .schedCheck :: L.code }
  | .schedCheck =>
    match me.cur with
    | .cpu _ => s.panic .nullProc
    | .proc i =>
      if !s.holding c ptableLock then s.panic .schedPtable
      else if me.ncli ≠ 1 then s.panic .schedLocks
      else if s.states i = .running then s.panic .schedRunning
      else if me.ints then s.panic .schedInterruptible
      else s.put c me { L with code := .schedSwtch me.intena :: L.code }
  | .schedSwtch intena =>
    match me.cur with
    | .cpu _ => s.panic .nullProc
    | .proc _ => s.put c { me with cur := .cpu c } { L with code := .schedIntena intena :: L.code }
  | .schedIntena intena => s.put c { me with intena } L
  | .sti => s.put c { me with ints := true } L
  | .choose => s

end State

inductive Event where
  /-- The context of CPU `c` begins an operation. -/
  | op (c : Nat) (o : Op)
  /-- CPU `c` executes an instruction. -/
  | exec (c : Nat)
  /-- The scheduler of CPU `c` chooses thread `i`. -/
  | pick (c i : Nat)
  /-- The scheduler of CPU `c` is through with the process table. -/
  | again (c : Nat)
  /-- An interrupt, and the return from its handler. -/
  | trap (c : Nat)
  | iret (c : Nat)
  /-- The context of CPU `c` comes from or goes to user space, with the flags of there. -/
  | flags (c : Nat) (ints : Bool)
  /-- A new thread, as `allocproc` and `forkret` make it. -/
  | create (i : Nat)
  | wakeup (i : Nat)

namespace State

def step (s : State) : Event → State
  | .op c o =>
    let me := s.cpus c
    match s.ctxs me.cur with
    | L :: _ =>
      if L.code = [] ∧ o.Proper me.held L.pushed ∧ (o.usesProc → me.cur ≠ .cpu c) then
        s.put c me { L with
          code := o.code
          before := if me.held = [] ∧ L.pushed = 0 then some me.ints else L.before }
      else s
    | [] => s
  | .exec c =>
    match s.ctxs (s.cpus c).cur with
    | ⟨i :: code, pushed, before⟩ :: _ => s.instr c ⟨code, pushed, before⟩ i
    | _ => s
  | .pick c i =>
    match s.ctxs (s.cpus c).cur with
    | ⟨.choose :: _, _, _⟩ :: _ =>
      if s.states i = .runnable then
        { s with
          states := Function.update s.states i .running
          cpus := Function.update s.cpus c { s.cpus c with cur := .proc i } }
      else s
    | _ => s
  | .again c =>
    match s.ctxs (s.cpus c).cur with
    | ⟨.choose :: _, pushed, before⟩ :: _ =>
      -- `popcli` finds `cpu->intena` as the last process left it; `sti` comes next in any case
      s.put c (s.cpus c) ⟨release ptableLock ++ [.sti] ++ acquire ptableLock ++ [.choose], pushed, before⟩
    | _ => s
  | .trap c =>
    let me := s.cpus c
    if me.ints then
      { s with
        cpus := Function.update s.cpus c { me with ints := false }
        ctxs := Function.update s.ctxs me.cur (⟨[], 0, none⟩ :: s.ctxs me.cur) }
    else s
  | .iret c =>
    let me := s.cpus c
    match s.ctxs me.cur with
    | ⟨[], 0, _⟩ :: L :: rest =>
      if me.held = [] then
        -- interrupts were on where the interrupt came
        { s with
          cpus := Function.update s.cpus c { me with ints := true }
          ctxs := Function.update s.ctxs me.cur (L :: rest) }
      else s
    | _ => s
  | .flags c ints =>
    let me := s.cpus c
    match s.ctxs me.cur with
    | ⟨[], 0, _⟩ :: _ => if me.held = [] then s.put c { me with ints } ⟨[], 0, none⟩ else s
    | _ => s
  | .create i =>
    if s.states i = .unused then
      { s with
        states := Function.update s.states i .runnable
        ctxs := Function.update s.ctxs (.proc i) [⟨release ptableLock, 0, none⟩] }
    else s
  | .wakeup i =>
    if s.states i = .sleeping then { s with states := Function.update s.states i .runnable } else s

/-- Nothing runs after a panic. -/
def next (s : State) (e : Event) : State := if s.panicked.isSome then s else s.step e

def run (evs : List Event) (s : State) : State := evs.foldl next s

end State

/-- Every CPU is at the start of its scheduler, and there are no threads. -/
def boot : State where
  cpus := fun c => ⟨0, false, false, .cpu c, []⟩
  locks := fun _ => ⟨false, none⟩
  ctxs := fun
    | .cpu _ => [⟨.sti :: acquire ptableLock ++ [.choose], 0, none⟩]
    | .proc _ => []
  states := fun _ => .unused
  panicked := none
  sections := []

end Xv6.Spinlock
