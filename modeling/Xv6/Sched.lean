import Xv6.Process

/-!
# Scheduling (`proc.c`, `spinlock.c`, `trap.c`)

CPUs, and the contexts that they execute: one for the scheduler of each CPU and one for each
process, with its own kernel stack. An interrupt handler runs on the stack of the context that it
interrupts and may itself give up the CPU. So there are two threads for each context, of which only
one is active. That a lock is locked and which CPU it records change in one action. `swtch` to a
context that another CPU executes, and the use of `proc` where it is null, stop the machine, with
panics that the kernel does not have.
-/

namespace Xv6.Sched

open Threads

export Process (ProcState Chan Reaped)

inductive Ctx where
  | cpu (n : Nat)
  | proc (i : Nat)
deriving DecidableEq

/-- Who acts: the code of a context, or the handler of an interrupt on its stack. A slot of the
process table is used by one process after the other; `gen` says by which. -/
structure Thread where
  ctx : Ctx
  gen : Nat
  trap : Bool
deriving DecidableEq

inductive Kind where
  | scheduler
  | process
  | handler
deriving DecidableEq

def Thread.kind (t : Thread) : Kind :=
  if t.trap then .handler
  else
    match t.ctx with
    | .cpu _ => .scheduler
    | .proc _ => .process

/-- The state of a context: the process it is for, whether an interrupt handler is on top of the
stack, whether the code below that is user code, and the CPU that executes it. -/
structure Context where
  gen : Nat
  trapped : Bool
  user : Bool
  on : Option Nat

/-- `struct cpu`, with the interrupt flag and the process whose page table is loaded (`none` for
`kpgdir`). `held` is for the proofs only: the locks that record this CPU. -/
structure Cpu where
  proc : Option Nat
  ncli : Nat
  intena : Bool
  ints : Bool
  cr3 : Option Nat
  held : List Nat

/-- `struct proc`. `maker` is for the proofs only: who took the slot in `allocproc`. -/
structure Slot where
  state : ProcState
  pid : Int32
  parent : Option Nat
  chan : Option Chan
  killed : Bool
  maker : Thread

/-- Locks are numbered; `locks l` is the CPU in `lk->cpu` of a locked lock. -/
structure State where
  cpus : Table Cpu
  locks : Table (Option Nat)
  procs : Table Slot
  kstacks : Table Context
  schedulers : Table Context
  nextpid : Int32

/-- The number of `ptable.lock`. The other locks have numbers from 1 on. -/
def ptableLock : Nat := 0

def initproc : Nat := 0

inductive Panic where
  | acquire
  | release
  | popcliInterruptible
  | popcli
  | schedPtable
  | schedLocks
  | schedRunning
  | schedInterruptible
  | zombieExit
  | initExiting
  | nullProc
  | swtch
deriving DecidableEq

namespace State

def ctx (s : State) : Ctx → Context
  | .cpu n => s.schedulers n
  | .proc i => s.kstacks i

def setCtx (s : State) (x : Ctx) (k : Context) : State :=
  match x with
  | .cpu n => { s with schedulers := s.schedulers.set n k }
  | .proc i => { s with kstacks := s.kstacks.set i k }

def setCpu (s : State) (c : Nat) (k : Cpu) : State := { s with cpus := s.cpus.set c k }

def setSlot (s : State) (i : Nat) (q : Slot) : State := { s with procs := s.procs.set i q }

end State

inductive Act where
  | begin (k : Kind)
  | pushcli
  | popcli
  | lock (l : Nat)
  | unlock (l : Nat)
  | sti
  | schedCheck
  | swtch
  | setIntena (b : Bool)
  | pick (i : Nat)
  | setProc (p : Option Nat)
  | switchuvm (i : Nat)
  | switchkvm
  | run (i : Nat)
  | resume
  | proc
  | procRunning
  | killed
  | parent
  | setChan (c : Option Chan)
  | setState (st : ProcState)
  | wake (i : Nat) (c : Option Chan)
  | kill (i : Nat) (pid : Int32)
  | alloc (i : Nat)
  | unuse (i : Nat)
  | setParent (i : Nat)
  | runnable (i : Nat)
  | abandon (i : Nat)
  | reap (i : Nat)
  | user (b : Bool)
  | enter
  | iret
  | panic (e : Panic)
  | stuck

@[reducible] def Act.Res : Act → Type
  | .schedCheck => Bool
  | .pick _ => Bool
  | .proc => Option Nat
  | .procRunning => Bool
  | .killed => Bool
  | .parent => Option Nat
  | .kill _ _ => Bool
  | .alloc _ => Bool
  | .abandon _ => Bool
  | .reap _ => Reaped
  | .enter => Bool
  | _ => Unit

abbrev Kprog := Prog Act Act.Res

def act (a : Act) : Kprog a.Res := call a

/-- `swtch` on CPU `c` from the context `x` to the context `y`. -/
def State.swtch (s : State) (c : Nat) (x y : Ctx) : Outcome State Panic Unit :=
  if (s.ctx y).on = none then
    let s := s.setCtx x { s.ctx x with on := none }
    .next () (s.setCtx y { s.ctx y with on := some c })
  else .stop .swtch

/-- What code does with `proc`, which may not be null. -/
def withProc (me : Cpu) {ρ : Type} (f : Nat → Outcome State Panic ρ) : Outcome State Panic ρ :=
  match me.proc with
  | some p => f p
  | none => .stop .nullProc

/-- One action of thread `t`, which CPU `c` executes. -/
def step (t : Thread) (c : Nat) (a : Act) (s : State) : Outcome State Panic a.Res :=
  let x := t.ctx
  let me := s.cpus c
  match a with
  | .begin k => if t.kind = k then .next () s else .blocked
  | .pushcli =>
    .next () (s.setCpu c { me with
      ncli := me.ncli + 1, ints := false, intena := if me.ncli = 0 then me.ints else me.intena })
  | .popcli =>
    if me.ints then .stop .popcliInterruptible
    else if me.ncli = 0 then .stop .popcli
    else .next () (s.setCpu c { me with
      ncli := me.ncli - 1, ints := decide (me.ncli = 1) && me.intena })
  | .lock l =>
    match s.locks l with
    | none => .next () { s.setCpu c { me with held := l :: me.held } with
        locks := s.locks.set l (some c) }
    | some d => if d = c then .stop .acquire else .blocked
  | .unlock l =>
    if s.locks l = some c then
      .next () { s.setCpu c { me with held := me.held.erase l } with locks := s.locks.set l none }
    else .stop .release
  | .sti => .next () (s.setCpu c { me with ints := true })
  | .schedCheck =>
    if s.locks ptableLock ≠ some c then .stop .schedPtable
    else if me.ncli ≠ 1 then .stop .schedLocks
    else withProc me fun p =>
      if (s.procs p).state = .running then .stop .schedRunning
      else if me.ints then .stop .schedInterruptible
      else .next me.intena s
  | .swtch => s.swtch c x (.cpu c)
  | .setIntena b => .next () (s.setCpu c { me with intena := b })
  | .pick i => .next (decide ((s.procs i).state = .runnable)) s
  | .setProc p => .next () (s.setCpu c { me with proc := p })
  | .switchuvm i => .next () (s.setCpu c { me with cr3 := some i })
  | .switchkvm => .next () (s.setCpu c { me with cr3 := none })
  | .run i => .next () (s.setSlot i { s.procs i with state := .running })
  | .resume => withProc me fun p => s.swtch c x (.proc p)
  | .proc => .next me.proc s
  | .procRunning =>
    .next (match me.proc with
      | some p => decide ((s.procs p).state = .running)
      | none => false) s
  | .killed =>
    .next (match me.proc with
      | some p => (s.procs p).killed
      | none => false) s
  | .parent => withProc me fun p => .next (s.procs p).parent s
  | .setChan ch => withProc me fun p => .next () (s.setSlot p { s.procs p with chan := ch })
  | .setState st => withProc me fun p => .next () (s.setSlot p { s.procs p with state := st })
  | .wake i ch =>
    let q := s.procs i
    .next () (if q.state = .sleeping ∧ q.chan = ch then s.setSlot i { q with state := .runnable }
      else s)
  | .kill i pid =>
    let q := s.procs i
    if q.pid = pid then
      let st := if q.state = .sleeping then .runnable else q.state
      .next true (s.setSlot i { q with killed := true, state := st })
    else .next false s
  | .alloc i =>
    let q := s.procs i
    if q.state = .unused then
      -- the context that `allocproc` builds on the new stack
      let s := s.setCtx (.proc i) ⟨(s.ctx (.proc i)).gen + 1, false, false, none⟩
      .next true { s.setSlot i { q with state := .embryo, pid := s.nextpid, maker := t } with
        nextpid := s.nextpid + 1 }
    else .next false s
  | .unuse i => .next () (s.setSlot i { s.procs i with state := .unused })
  | .setParent i => withProc me fun p => .next () (s.setSlot i { s.procs i with parent := some p })
  | .runnable i => .next () (s.setSlot i { s.procs i with state := .runnable })
  | .abandon i =>
    withProc me fun p =>
      let q := s.procs i
      if q.parent = some p then
        .next (decide (q.state = .zombie)) (s.setSlot i { q with parent := some initproc })
      else .next false s
  | .reap i =>
    withProc me fun p =>
      let q := s.procs i
      if q.parent ≠ some p then .next .other s
      else if q.state = .zombie then
        .next (.zombie q.pid) (s.setSlot i { q with
          state := .unused, pid := 0, parent := none, killed := false })
      else .next .child s
  | .user b => .next () (s.setCtx x { s.ctx x with user := b })
  | .iret =>
    let s := s.setCtx x { s.ctx x with trapped := false }
    .next () (s.setCpu c { me with ints := true })
  | .panic e => .stop e
  | .enter | .stuck => .blocked

/-- An interrupt on CPU `c`, which executes the context `x`: the handler learns whether it
interrupts user code. -/
def interrupt (x : Ctx) (c : Nat) (s : State) : Outcome State Panic Bool :=
  let k := s.ctx x
  if (s.cpus c).ints then
    .next k.user ((s.setCtx x { k with trapped := true }).setCpu c { s.cpus c with ints := false })
  else .blocked

/-- A thread acts while a CPU executes its context and, if it is not the handler, no handler is
active. -/
def exec (t : Thread) (a : Act) (s : State) : Outcome State Panic a.Res :=
  let k := s.ctx t.ctx
  match k.on with
  | none => .blocked
  | some c =>
    if k.gen = t.gen ∧ k.trapped = t.trap then step t c a s
    else
      match a with
      | .enter => if k.gen = t.gen ∧ t.trap = true then interrupt t.ctx c s else .blocked
      | _ => .blocked

/-! ## Locks -/

def acquire (l : Nat) : Kprog Unit := do
  act .pushcli
  act (.lock l)

def release (l : Nat) : Kprog Unit := do
  act (.unlock l)
  act .popcli

/-! ## Giving up the CPU -/

/-- Enter scheduler. The caller holds only `ptable.lock` and has changed `proc->state`. -/
def sched : Kprog Unit := do
  let intena ← act .schedCheck
  act .swtch
  act (.setIntena intena)

def yield : Kprog Unit := do
  acquire ptableLock
  act (.setState .runnable)
  sched
  release ptableLock

def sleep (chan : Chan) (lk : Nat) : Kprog Unit := do
  if lk ≠ ptableLock then
    acquire ptableLock
    release lk
  act (.setChan (some chan))
  act (.setState .sleeping)
  sched
  act (.setChan none)
  if lk ≠ ptableLock then
    release ptableLock
    acquire lk

def wakeFrom (chan : Option Chan) : Nat → Nat → Kprog Unit
  | 0, _ => pure ()
  | n + 1, i => do
    act (.wake i chan)
    wakeFrom chan n (i + 1)

def wakeup1 (nproc : Nat) (chan : Option Chan) : Kprog Unit := wakeFrom chan nproc 0

def wakeup (nproc : Nat) (chan : Chan) : Kprog Unit := do
  acquire ptableLock
  wakeup1 nproc (some chan)
  release ptableLock

def killFrom (pid : Int32) : Nat → Nat → Kprog Bool
  | 0, _ => pure false
  | n + 1, i => do
    if ← act (.kill i pid) then return true else killFrom pid n (i + 1)

def kill (nproc : Nat) (pid : Int32) : Kprog Unit := do
  acquire ptableLock
  let _ ← killFrom pid nproc 0
  release ptableLock

/-! ## Fork -/

def allocFrom : Nat → Nat → Kprog (Option Nat)
  | 0, _ => pure none
  | n + 1, i => do
    if ← act (.alloc i) then return some i else allocFrom n (i + 1)

def allocproc (nproc : Nat) (stack : Bool) : Kprog (Option Nat) := do
  acquire ptableLock
  match ← allocFrom nproc 0 with
  | none =>
    release ptableLock
    return none
  | some p =>
    release ptableLock
    if stack then return some p
    else
      act (.unuse p)
      return none

def fork (nproc : Nat) (stack mem : Bool) : Kprog Unit := do
  match ← allocproc nproc stack with
  | none => return
  | some np =>
    if mem then
      act (.setParent np)
      act (.runnable np)
    else act (.unuse np)

/-! ## Exit and wait -/

def abandonFrom (nproc : Nat) : Nat → Nat → Kprog Unit
  | 0, _ => pure ()
  | n + 1, i => do
    if ← act (.abandon i) then wakeup1 nproc (some (.proc initproc))
    abandonFrom nproc n (i + 1)

/-- What the kernel does about files and devices, as far as it concerns scheduling: it waits for
something or tells others, with a lock of its own. Lock `l` here is the lock with number
`l + 1`. -/
inductive FileOp where
  | sleep (chan : Chan) (l : Nat)
  | wakeup (chan : Chan)
  | wakeupHolding (chan : Chan) (l : Nat)

def FileOp.body (nproc : Nat) : FileOp → Kprog Unit
  | .sleep chan l => do
    acquire (l + 1)
    Sched.sleep chan (l + 1)
    release (l + 1)
  | .wakeup chan => Sched.wakeup nproc chan
  | .wakeupHolding chan l => do
    acquire (l + 1)
    Sched.wakeup nproc chan
    release (l + 1)

def fileOps (nproc : Nat) : List FileOp → Kprog Unit
  | [] => pure ()
  | x :: xs => do
    x.body nproc
    fileOps nproc xs

/-- Exit the current process; `closing` is what closing its files takes. -/
def exit (nproc : Nat) (closing : List FileOp) : Kprog Unit := do
  if (← act .proc) = some initproc then act (.panic .initExiting)
  fileOps nproc closing
  acquire ptableLock
  let parent ← act .parent
  wakeup1 nproc (parent.map .proc)
  abandonFrom nproc nproc 0
  act (.setState .zombie)
  sched
  act (.panic .zombieExit)

/-- The loop of `wait` over the table from slot `i` on, for at most `n` rounds, with the value of
`havekids` so far: that value at the end, and whether a zombie was found. -/
def waitScan : Nat → Nat → Bool → Kprog (Bool × Bool)
  | 0, _, havekids => return (havekids, false)
  | n + 1, i, havekids => do
    match ← act (.reap i) with
    | .other => waitScan n (i + 1) havekids
    | .child => waitScan n (i + 1) true
    | .zombie _ => return (true, true)

/-- The outer loop of `wait`. A run gets through finitely many rounds, `rounds` of them. -/
def waitLoop (nproc : Nat) : Nat → Kprog Unit
  | 0 => act .stuck
  | rounds + 1 => do
    let (havekids, found) ← waitScan nproc 0 false
    if found then release ptableLock
    else if !havekids || (← act .killed) then release ptableLock
    else
      match ← act .proc with
      | some p =>
        sleep (.proc p) ptableLock
        waitLoop nproc rounds
      | none => act (.panic .nullProc)

def wait (nproc rounds : Nat) : Kprog Unit := do
  acquire ptableLock
  waitLoop nproc rounds

/-! ## Contexts -/

/-- The loop of `scheduler` over the table from slot `i` on, for `n` rounds. -/
def scheduleFrom : Nat → Nat → Kprog Unit
  | 0, _ => pure ()
  | n + 1, i => do
    if ← act (.pick i) then
      act (.setProc (some i))
      act (.switchuvm i)
      act (.run i)
      act .resume
      act .switchkvm
      act (.setProc none)
    scheduleFrom n (i + 1)

/-- One round of the endless loop of `scheduler`. -/
def scheduler (nproc : Nat) : Kprog Unit := do
  act (.begin .scheduler)
  act .sti
  acquire ptableLock
  scheduleFrom nproc 0
  release ptableLock

inductive Op where
  | file (x : FileOp)
  | fork (stack mem : Bool)
  | wait (rounds : Nat)
  | kill (pid : Int32)

def Op.body (nproc : Nat) : Op → Kprog Unit
  | .file x => x.body nproc
  | .fork stack mem => Sched.fork nproc stack mem
  | .wait rounds => Sched.wait nproc rounds
  | .kill pid => Sched.kill nproc pid

/-- System calls one after the other, as `trap` makes them; a process that has been killed exits,
which takes `closing`. -/
def syscalls (nproc : Nat) (closing : List FileOp) : List Op → Kprog Unit
  | [] => pure ()
  | op :: ops => do
    act (.user false)
    if ← act .killed then exit nproc closing
    op.body nproc
    if ← act .killed then exit nproc closing
    act (.user true)
    syscalls nproc closing ops

/-- A process: it begins in `forkret`, makes system calls, and exits at the end or computes
without end. -/
def life (nproc : Nat) (ops : List Op) (exits : Bool) (closing : List FileOp) : Kprog Unit := do
  act (.begin .process)
  release ptableLock
  act (.user true)
  syscalls nproc closing ops
  if exits then
    act (.user false)
    exit nproc closing
  else act .stuck

/-- The wakeups of an interrupt handler, each with a lock of the device. -/
def wakeups (nproc : Nat) : List (Chan × Nat) → Kprog Unit
  | [] => pure ()
  | (chan, l) :: xs => do
    (FileOp.wakeupHolding chan l).body nproc
    wakeups nproc xs

/-- `trap` for an interrupt: what the device has to say, and whether it is the timer. -/
def trap (nproc : Nat) (wakes : List (Chan × Nat)) (timer : Bool) (closing : List FileOp) : Kprog Unit := do
  let user ← act .enter
  wakeups nproc wakes
  if user then
    if ← act .killed then exit nproc closing
  if timer then
    if ← act .procRunning then yield
  if user then
    if ← act .killed then exit nproc closing
  act .iret

/-! ## The machine -/

inductive Call where
  | scheduler
  | life (ops : List Op) (exits : Bool) (closing : List FileOp)
  | trap (wakes : List (Chan × Nat)) (timer : Bool) (closing : List FileOp)

def Call.body (nproc : Nat) : Call → Kprog Unit
  | .scheduler => Sched.scheduler nproc
  | .life ops exits closing => Sched.life nproc ops exits closing
  | .trap wakes timer closing => Sched.trap nproc wakes timer closing

def machine (nproc : Nat) : Machine Thread Act Act.Res Call State Panic where
  exec := exec
  body := Call.body nproc
  canCall := fun _ _ => True

def Slot.unused : Slot := ⟨.unused, 0, none, none, false, ⟨.cpu 0, 0, false⟩⟩

/-- `ncpu` CPUs about to enter `scheduler`, and the process table as `userinit` leaves it. -/
def boot (ncpu : Nat) : State where
  cpus := .const ⟨none, 0, false, false, none, []⟩
  locks := .const none
  procs := (Table.const Slot.unused).set initproc { Slot.unused with state := .runnable, pid := 1 }
  kstacks := .const ⟨0, false, false, none⟩
  schedulers := (List.range ncpu).foldl (fun t n => t.set n ⟨0, false, false, some n⟩)
    (.const ⟨0, false, false, none⟩)
  nextpid := 2

end Xv6.Sched
