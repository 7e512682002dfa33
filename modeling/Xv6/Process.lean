import Xv6.Lib.Table
import Xv6.Lib.Threads

/-!
# Processes (`proc.c`, `spinlock.c`)

One action is an access to a lock, one round of a loop over `ptable.proc`, or one assignment; those
that `allocproc` and `fork` make without `ptable.lock` are actions of their own. A process is named
by its slot and acts only while a CPU runs it. The scheduler is two actions of a CPU, which give the
CPU to a runnable process and take it away from one that has interrupts enabled. A process that
comes back from `sched` takes `ptable.lock`, where `swtch` hands it over without freeing it. The
number of slots and the data that another lock protects are parameters.
-/

namespace Xv6.Process

open Threads

def NPROC : Nat := 64

/-- `enum procstate`. -/
inductive ProcState where
  | unused
  | embryo
  | sleeping
  | runnable
  | running
  | zombie
deriving DecidableEq

/-- What processes sleep on: an entry of the process table or another kernel address. -/
inductive Chan where
  | proc (i : Nat)
  | addr (a : Nat)
deriving DecidableEq

/-- `struct proc`. `onCpu` says that a CPU runs the process, `ncli` is the nesting of `pushcli`
on that CPU. The last four fields are for the proofs only: the slot of the process that took
this one in `allocproc`, the pid of the process that became its parent in `fork`, whether `kill`
has matched its pid since `allocproc` set it, and the channels on which it has still to call
`wakeup` for something it did. -/
structure Proc where
  state : ProcState
  pid : Int32
  parent : Option Nat
  chan : Option Chan
  killed : Bool
  onCpu : Bool
  ncli : Nat
  maker : Nat
  forker : Int32
  called : Bool
  debts : List Chan

/-- Locks are numbered and record the process that holds them. The fields after `data` are for
the proofs only: how many pids were given out, the pids of forks that failed, the pids that
`fork` and `wait` returned, each with the pid of the caller, and the pids of exited
processes. -/
structure State (X : Type) where
  procs : Table Proc
  locks : Table (Option Nat)
  nextpid : Int32
  data : X
  created : Nat
  failed : List Int32
  forks : List (Int32 × Int32)
  waits : List (Int32 × Int32)
  exits : List Int32

def ptableLock : Nat := 0

def initproc : Nat := 0

inductive Panic where
  | acquire
  | release
  | schedPtable
  | schedLocks
  | schedRunning
  | initExiting
deriving DecidableEq

/-- Who acts: a process or the scheduler of a CPU. -/
inductive Tid where
  | proc (i : Nat)
  | cpu (n : Nat)
deriving DecidableEq

/-- What `wait` finds in a slot. -/
inductive Reaped where
  | other
  | child
  | zombie (pid : Int32)

inductive Act (X : Type) where
  | acquire (lk : Nat)
  | release (lk : Nat)
  | self
  | killed
  | parent
  | setChan (c : Option Chan)
  | sleeping
  | zombie
  | sched
  | wake (i : Nat) (c : Option Chan)
  | woken (c : Option Chan)
  | kill (i : Nat) (pid : Int32)
  | alloc (i : Nat)
  | unuse (i : Nat)
  | setParent (i : Nat)
  | pid (i : Nat)
  | runnable (i : Nat)
  | abandon (i : Nat)
  | reap (i : Nat)
  | data (f : Nat → X → X) (owe : List Chan)
  | panic (e : Panic)
  | stuck
  | schedule (i : Nat)
  | preempt (i : Nat)

@[reducible] def Act.Res {X : Type} : Act X → Type
  | .self => Nat
  | .killed => Bool
  | .parent => Option Nat
  | .kill _ _ => Bool
  | .alloc _ => Bool
  | .pid _ => Int32
  | .abandon _ => Bool
  | .reap _ => Reaped
  | .data _ _ => X
  | _ => Unit

abbrev Kprog (X : Type) := Prog (Act X) Act.Res

variable {X : Type}

def act (a : Act X) : Kprog X a.Res := call a

namespace State

def setProc (s : State X) (i : Nat) (q : Proc) : State X := { s with procs := s.procs.set i q }

variable (s : State X) (i j : Nat) (q : Proc)

@[simp] lemma setProc_procs : (s.setProc i q).procs j = if j = i then q else s.procs j :=
  Table.get_set s.procs i q j

@[simp] lemma setProc_locks : (s.setProc i q).locks = s.locks := rfl

end State

/-- One action of process `p`, which a CPU runs. -/
def step (p : Nat) (a : Act X) (s : State X) : Outcome (State X) Panic a.Res :=
  let me := s.procs p
  match a with
  | .acquire lk =>
    match s.locks lk with
    | none => .next () { s.setProc p { me with ncli := me.ncli + 1 } with
        locks := s.locks.set lk (some p) }
    | some q => if q = p then .stop .acquire else .blocked
  | .release lk =>
    if s.locks lk = some p then
      .next () { s.setProc p { me with ncli := me.ncli - 1 } with locks := s.locks.set lk none }
    else .stop .release
  | .self => .next p s
  | .killed => .next me.killed s
  | .parent => .next me.parent s
  | .setChan c => .next () (s.setProc p { me with chan := c })
  | .sleeping => .next () (s.setProc p { me with state := .sleeping })
  | .zombie =>
    .next () { s.setProc p { me with state := .zombie } with exits := me.pid :: s.exits }
  | .sched =>
    if s.locks ptableLock ≠ some p then .stop .schedPtable
    else if me.ncli ≠ 1 then .stop .schedLocks
    else if me.state = .running then .stop .schedRunning
    else
      .next () { s.setProc p { me with onCpu := false, ncli := 0 } with
        locks := s.locks.set ptableLock none }
  | .wake i c =>
    let q := s.procs i
    .next () (if q.state = .sleeping ∧ q.chan = c then s.setProc i { q with state := .runnable }
      else s)
  | .woken c =>
    .next () (s.setProc p { me with debts := me.debts.filter fun d => some d ≠ c })
  | .kill i pid =>
    let q := s.procs i
    if q.pid = pid then
      let st := if q.state = .sleeping then .runnable else q.state
      .next true (s.setProc i { q with killed := true, state := st, called := true })
    else .next false s
  | .alloc i =>
    let q := s.procs i
    if q.state = .unused then
      let q := { q with state := .embryo, pid := s.nextpid, maker := p, called := false }
      .next true { s.setProc i q with nextpid := s.nextpid + 1, created := s.created + 1 }
    else .next false s
  | .unuse i =>
    let q := s.procs i
    .next () { s.setProc i { q with state := .unused } with failed := q.pid :: s.failed }
  | .setParent i => .next () (s.setProc i { s.procs i with parent := some p, forker := me.pid })
  | .pid i => .next (s.procs i).pid s
  | .runnable i =>
    let q := s.procs i
    .next () { s.setProc i { q with state := .runnable } with
      forks := (q.pid, me.pid) :: s.forks }
  | .abandon i =>
    let q := s.procs i
    if q.parent = some p then
      .next (q.state = .zombie) (s.setProc i { q with parent := some initproc })
    else .next false s
  | .reap i =>
    let q := s.procs i
    if q.parent ≠ some p then .next .other s
    else if q.state = .zombie then
      .next (.zombie q.pid) { s.setProc i { q with
          state := .unused, pid := 0, parent := none, killed := false } with
        waits := (q.pid, me.pid) :: s.waits }
    else .next .child s
  | .data f owe =>
    .next s.data { s.setProc p { me with debts := owe ++ me.debts } with data := f p s.data }
  | .panic e => .stop e
  | .stuck | .schedule _ | .preempt _ => .blocked

def switch (a : Act X) (s : State X) : Outcome (State X) Panic a.Res :=
  match a with
  | .schedule i =>
    let q := s.procs i
    if s.locks ptableLock = none ∧ q.state = .runnable then
      .next () (s.setProc i { q with state := .running, onCpu := true })
    else .blocked
  | .preempt i =>
    let q := s.procs i
    if s.locks ptableLock = none ∧ q.state = .running ∧ q.onCpu ∧ q.ncli = 0 then
      .next () (s.setProc i { q with state := .runnable, onCpu := false })
    else .blocked
  | _ => .blocked

def exec (t : Tid) (a : Act X) (s : State X) : Outcome (State X) Panic a.Res :=
  match t with
  | .proc p => if (s.procs p).onCpu then step p a s else .blocked
  | .cpu _ => switch a s

lemma exec_proc {p : Nat} {a : Act X} {s s' : State X} {r : a.Res}
    (he : exec (.proc p) a s = .next r s') : (s.procs p).onCpu = true ∧ step p a s = .next r s' := by
  rw [exec] at he
  split at he
  · rename_i hon
    exact ⟨hon, he⟩
  · cases he

/-! ## Sleep and wakeup -/

def acquire (lk : Nat) : Kprog X Unit := act (.acquire lk)

def release (lk : Nat) : Kprog X Unit := act (.release lk)

/-- Enter the scheduler, and come back when the process is scheduled again. -/
def sched : Kprog X Unit := do
  act .sched
  acquire ptableLock

/-- Atomically release lock and sleep on `chan`; reacquires lock when awakened. -/
def sleep (chan : Chan) (lk : Nat) : Kprog X Unit := do
  if lk ≠ ptableLock then
    acquire ptableLock
    release lk
  act (.setChan (some chan))
  act .sleeping
  sched
  act (.setChan none)
  if lk ≠ ptableLock then
    release ptableLock
    acquire lk

/-- The loop of `wakeup1` from slot `i` on, for `n` rounds. -/
def wakeFrom (chan : Option Chan) : Nat → Nat → Kprog X Unit
  | 0, _ => act (.woken chan)
  | n + 1, i => do
    act (.wake i chan)
    wakeFrom chan n (i + 1)

/-- Wake up all processes sleeping on `chan`; the caller holds `ptable.lock`. -/
def wakeup1 (nproc : Nat) (chan : Option Chan) : Kprog X Unit := wakeFrom chan nproc 0

def wakeup (nproc : Nat) (chan : Chan) : Kprog X Unit := do
  acquire ptableLock
  wakeup1 nproc (some chan)
  release ptableLock

/-- The loop of `kill` from slot `i` on, for at most `n` rounds. -/
def killFrom (pid : Int32) : Nat → Nat → Kprog X Bool
  | 0, _ => pure false
  | n + 1, i => do
    if ← act (.kill i pid) then return true else killFrom pid n (i + 1)

def kill (nproc : Nat) (pid : Int32) : Kprog X Int32 := do
  acquire ptableLock
  let found ← killFrom pid nproc 0
  release ptableLock
  return if found then 0 else -1

/-! ## Creation and exit -/

/-- The loop of `allocproc` from slot `i` on, for at most `n` rounds. -/
def allocFrom : Nat → Nat → Kprog X (Option Nat)
  | 0, _ => pure none
  | n + 1, i => do
    if ← act (.alloc i) then return some i else allocFrom n (i + 1)

/-- Look in the process table for an unused slot; `stack` says whether `kalloc` has a page for
the kernel stack. -/
def allocproc (nproc : Nat) (stack : Bool) : Kprog X (Option Nat) := do
  acquire ptableLock
  match ← allocFrom nproc 0 with
  | none =>
    release ptableLock
    return none
  | some p =>
    release ptableLock
    if stack then return some p
    else
      act (.unuse p)
      return none

/-- Create a new process; `mem` says whether `copyuvm` succeeds. -/
def fork (nproc : Nat) (stack mem : Bool) : Kprog X Int32 := do
  match ← allocproc nproc stack with
  | none => return -1
  | some np =>
    if mem then
      act (.setParent np)
      let pid ← act (.pid np)
      act (.runnable np)
      return pid
    else
      act (.unuse np)
      return -1

/-- The loop of `exit` that passes abandoned children to init, from slot `i` on and for `n`
rounds. -/
def abandonFrom (nproc : Nat) : Nat → Nat → Kprog X Unit
  | 0, _ => pure ()
  | n + 1, i => do
    if ← act (.abandon i) then wakeup1 nproc (some (.proc initproc))
    abandonFrom nproc n (i + 1)

/-- Exit the current process, after it closed its files. -/
def exit (nproc : Nat) : Kprog X Unit := do
  if (← act .self) = initproc then act (.panic .initExiting)
  else
    acquire ptableLock
    let parent ← act .parent
    wakeup1 nproc (parent.map .proc)
    abandonFrom nproc nproc 0
    act .zombie
    act .sched

/-- The loop of `wait` over the table from slot `i` on, for at most `n` rounds, with the value of
`havekids` so far. -/
def waitScan : Nat → Nat → Bool → Kprog X (Bool × Option Int32)
  | 0, _, havekids => return (havekids, none)
  | n + 1, i, havekids => do
    match ← act (.reap i) with
    | .other => waitScan n (i + 1) havekids
    | .child => waitScan n (i + 1) true
    | .zombie pid => return (true, some pid)

/-- The outer loop of `wait`. A run gets through finitely many rounds, `rounds` of them. -/
def waitLoop (nproc : Nat) : Nat → Kprog X Int32
  | 0 => do
    act .stuck
    return -1
  | rounds + 1 => do
    match ← waitScan nproc 0 false with
    | (_, some pid) =>
      release ptableLock
      return pid
    | (havekids, none) =>
      if !havekids || (← act .killed) then
        release ptableLock
        return -1
      else
        sleep (.proc (← act .self)) ptableLock
        waitLoop nproc rounds

def wait (nproc rounds : Nat) : Kprog X Int32 := do
  acquire ptableLock
  waitLoop nproc rounds

/-! ## The machine -/

/-- Processes that make the calls `C`, and CPUs that schedule them. -/
def machine {C : Type} (body : C → Kprog X Unit) : Machine Tid (Act X) Act.Res C (State X) Panic where
  exec := exec
  body := body
  canCall := fun s t => match t with
    | .proc p => (s.procs p).onCpu = true
    | .cpu _ => True

inductive Call where
  | fork (stack mem : Bool)
  | exit
  | wait (rounds : Nat)
  | kill (pid : Int32)
  | sleep (chan : Chan) (lk : Nat)
  | wakeup (chan : Chan)
  | schedule (i : Nat)
  | preempt (i : Nat)

def Call.body (nproc : Nat) : Call → Kprog Unit Unit
  | .fork stack mem => do
    let _ ← Process.fork nproc stack mem
  | .exit => Process.exit nproc
  | .wait rounds => do
    let _ ← Process.wait nproc rounds
  | .kill pid => do
    let _ ← Process.kill nproc pid
  | .sleep chan lk => do
    acquire lk
    Process.sleep chan lk
    release lk
  | .wakeup chan => Process.wakeup nproc chan
  | .schedule i => act (.schedule i)
  | .preempt i => act (.preempt i)

def ptable (nproc : Nat) : Machine Tid (Act Unit) Act.Res Call (State Unit) Panic :=
  machine (Call.body nproc)

def Proc.unused : Proc := ⟨.unused, 0, none, none, false, false, 0, 0, 0, false, []⟩

def boot : State Unit where
  procs := (Table.const Proc.unused).set initproc { Proc.unused with state := .runnable, pid := 1 }
  locks := .const none
  nextpid := 2
  data := ()
  created := 1
  failed := []
  forks := []
  waits := []
  exits := []

instance {C : Type} (body : C → Kprog X Unit) (s : State X) (t : Tid) :
    Decidable ((machine body).canCall s t) :=
  match t with
  | .proc p => inferInstanceAs (Decidable ((s.procs p).onCpu = true))
  | .cpu _ => inferInstanceAs (Decidable True)

instance (nproc : Nat) (s : State Unit) (t : Tid) : Decidable ((ptable nproc).canCall s t) :=
  inferInstanceAs (Decidable ((machine (Call.body nproc)).canCall s t))

end Xv6.Process
