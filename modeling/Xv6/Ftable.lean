import Xv6.Lib.Table
import Xv6.Lib.Threads

/-!
# Open files and pipes (`file.c`, `pipe.c`, `sysfile.c`, `proc.c`)

A section under `ftable.lock` or a pipe's lock is one action, and so is what a process does to its
own descriptors or to a child that nobody else knows yet. What `open` finds under a path is an
argument of the call, as is whether there is memory; `kalloc` may return any page that is not in
use. SLEEPING, RUNNABLE and RUNNING are one state, and `wait` may free any zombie.
-/

namespace Xv6.Ftable

open Threads

def NFILE : Nat := 100
def NOFILE : Nat := 16

def initproc : Nat := 0

def O_WRONLY : UInt32 := 0x001
def O_RDWR : UInt32 := 0x002

inductive FdType where
  | none
  | pipe
  | inode
deriving DecidableEq

/-- `struct file`; `pipe` is the page of the pipe. -/
structure File where
  type : FdType
  ref : Nat
  readable : Bool
  writable : Bool
  pipe : Nat
  ip : Nat
  off : Nat

structure Pipe where
  readopen : Bool
  writeopen : Bool

inductive ProcState where
  | unused
  | embryo
  | live
  | zombie
deriving DecidableEq

/-- The part of `struct proc` that matters for open files. The rest is for the proofs only: `refs`
are the references that code of this process has counted and not given up, `closing` is the end of a
pipe that it has taken off the table and not closed yet, and `maker` is who takes the slot in
`allocproc`. -/
structure Proc where
  state : ProcState
  ofile : Table (Option Nat)
  refs : List Nat
  closing : Option (Nat × Bool)
  maker : Nat

/-- `made` and `freed`, for the proofs only, count how often a page became a pipe and was freed. -/
structure State where
  ftable : Table File
  pages : Table (Option Pipe)
  procs : Table Proc
  made : Table Nat
  freed : Table Nat

/-- The last is not in the kernel: the use of a pipe whose page has been freed. -/
inductive Panic where
  | filedup
  | fileclose
  | initExiting
  | freedPipe
deriving DecidableEq

inductive Act where
  | filealloc
  | filedup (f : Nat)
  | drop (f : Nat)
  | pipeclose (p : Nat) (writable : Bool)
  | newPipe (page : Option Nat) (f0 f1 : Nat)
  | openInode (f ip : Nat) (omode : UInt32)
  | fdalloc (f : Nat)
  | ofile (fd : Nat)
  | clear (fd : Nat)
  | allocproc
  | unuse (np : Nat)
  | childFile (np fd f : Nat)
  | runnable (np : Nat)
  | proc
  | zombie
  | reap (i : Nat)
  | panic (e : Panic)

@[reducible] def Act.Res : Act → Type
  | .filealloc => Option Nat
  | .drop _ => Option File
  | .newPipe _ _ _ => Bool
  | .fdalloc _ => Option Nat
  | .ofile _ => Option Nat
  | .allocproc => Option Nat
  | .proc => Nat
  | _ => Unit

abbrev Kprog := Prog Act Act.Res

def act (a : Act) : Kprog a.Res := call a

namespace State

def setFile (s : State) (f : Nat) (x : File) : State := { s with ftable := s.ftable.set f x }

def setProc (s : State) (p : Nat) (q : Proc) : State := { s with procs := s.procs.set p q }

end State

/-- The end of a pipe that `fileclose` goes on to close. -/
def File.pipeEnd (f : File) : Option (Nat × Bool) := if f.type = .pipe then some (f.pipe, f.writable) else none

def Pipe.close (x : Pipe) (writable : Bool) : Pipe :=
  if writable then { x with writeopen := false } else { x with readopen := false }

def exec (nproc p : Nat) (a : Act) (s : State) : Outcome State Panic a.Res :=
  let me := s.procs p
  match a with
  | .filealloc =>
    match (List.range NFILE).find? fun f => (s.ftable f).ref = 0 with
    | none => .next none s
    | some f =>
      .next (some f) ((s.setFile f { s.ftable f with ref := 1 }).setProc p { me with refs := f :: me.refs })
  | .filedup f =>
    let x := s.ftable f
    if x.ref < 1 then .stop .filedup
    else .next () ((s.setFile f { x with ref := x.ref + 1 }).setProc p { me with refs := f :: me.refs })
  | .drop f =>
    let ff := s.ftable f
    if ff.ref < 1 then .stop .fileclose
    else if 0 < ff.ref - 1 then
      .next none ((s.setFile f { ff with ref := ff.ref - 1 }).setProc p { me with refs := me.refs.erase f })
    else
      .next (some ff) ((s.setFile f { ff with ref := 0, type := .none }).setProc p
        { me with refs := me.refs.erase f, closing := ff.pipeEnd })
  | .pipeclose pg writable =>
    match s.pages pg with
    | none => .stop .freedPipe
    | some x =>
      let x := x.close writable
      let s := s.setProc p { me with closing := none }
      if x.readopen = false ∧ x.writeopen = false then
        .next () { s with pages := s.pages.set pg none, freed := s.freed.set pg (s.freed pg + 1) }
      else .next () { s with pages := s.pages.set pg (some x) }
  | .newPipe page f0 f1 =>
    match page with
    | none => .next false s
    | some pg =>
      if (s.pages pg).isSome then .blocked
      else
        let s := { s with pages := s.pages.set pg (some ⟨true, true⟩), made := s.made.set pg (s.made pg + 1) }
        let s := s.setFile f0 { s.ftable f0 with type := .pipe, readable := true, writable := false, pipe := pg }
        .next true (s.setFile f1 { s.ftable f1 with type := .pipe, readable := false, writable := true, pipe := pg })
  | .openInode f ip omode =>
    .next () (s.setFile f { s.ftable f with
      type := .inode, ip, off := 0, readable := omode &&& O_WRONLY = 0,
      writable := omode &&& O_WRONLY ≠ 0 ∨ omode &&& O_RDWR ≠ 0 })
  | .fdalloc f =>
    match (List.range NOFILE).find? fun fd => me.ofile fd = none with
    | none => .next none s
    | some fd => .next (some fd) (s.setProc p { me with ofile := me.ofile.set fd (some f) })
  | .ofile fd => .next (me.ofile fd) s
  | .clear fd => .next () (s.setProc p { me with ofile := me.ofile.set fd none })
  | .allocproc =>
    match (List.range nproc).find? fun i => (s.procs i).state = .unused with
    | none => .next none s
    | some i => .next (some i) (s.setProc i { s.procs i with state := .embryo, maker := p })
  | .unuse np => .next () (s.setProc np { s.procs np with state := .unused })
  | .childFile np fd f =>
    let s := s.setProc p { me with refs := me.refs.erase f }
    let child := s.procs np
    .next () (s.setProc np { child with ofile := child.ofile.set fd (some f), refs := f :: child.refs })
  | .runnable np => .next () (s.setProc np { s.procs np with state := .live })
  | .proc => .next p s
  | .zombie => .next () (s.setProc p { me with state := .zombie })
  | .reap i =>
    if (s.procs i).state = .zombie then .next () (s.setProc i { s.procs i with state := .unused })
    else .next () s
  | .panic e => .stop e

/-! ## Files -/

/-- Close file `f`. The transaction and `iput` for an inode leave the table of open files alone. -/
def fileclose (f : Nat) : Kprog Unit := do
  match ← act (.drop f) with
  | none => return
  | some ff => if ff.type = .pipe then act (.pipeclose ff.pipe ff.writable)

def argfd (fd : Int) : Kprog (Option Nat) :=
  if fd < 0 ∨ (NOFILE : Int) ≤ fd then return none
  else act (.ofile fd.toNat)

def sysDup (fd : Int) : Kprog Int := do
  match ← argfd fd with
  | none => return -1
  | some f =>
    match ← act (.fdalloc f) with
    | none => return -1
    | some fd =>
      act (.filedup f)
      return fd

def sysClose (fd : Int) : Kprog Unit := do
  match ← argfd fd with
  | none => return
  | some f =>
    act (.clear fd.toNat)
    fileclose f

/-- `found` is the inode that `create` or `namei` returns, if `open` gets as far as that. -/
def sysOpen (found : Option Nat) (omode : UInt32) : Kprog Unit :=
  match found with
  | none => return
  | some ip => do
    match ← act .filealloc with
    | none => return
    | some f =>
      match ← act (.fdalloc f) with
      | none => fileclose f
      | some _ => act (.openInode f ip omode)

/-! ## Pipes -/

/-- `page` is what `kalloc` returns. -/
def pipealloc (page : Option Nat) : Kprog (Option (Nat × Nat)) := do
  match ← act .filealloc with
  | none => return none
  | some f0 =>
    match ← act .filealloc with
    | none =>
      fileclose f0
      return none
    | some f1 =>
      if ← act (.newPipe page f0 f1) then return some (f0, f1)
      else
        fileclose f0
        fileclose f1
        return none

/-- `sys_pipe` after `pipealloc`. -/
def pipeFds (rf wf : Nat) : Kprog Int := do
  match ← act (.fdalloc rf) with
  | none =>
    fileclose rf
    fileclose wf
    return -1
  | some fd0 =>
    match ← act (.fdalloc wf) with
    | none =>
      act (.clear fd0)
      fileclose rf
      fileclose wf
      return -1
    | some _ => return 0

/-- `arg` says whether the argument is a pointer to user memory. -/
def sysPipe (arg : Bool) (page : Option Nat) : Kprog Int :=
  if !arg then return -1
  else do
    match ← pipealloc page with
    | none => return -1
    | some (rf, wf) => pipeFds rf wf

/-! ## Processes -/

/-- The loop of `fork` over the open files from descriptor `i` on, for `n` rounds. -/
def copyFiles (np : Nat) : Nat → Nat → Kprog Unit
  | 0, _ => return
  | n + 1, i => do
    match ← act (.ofile i) with
    | none => copyFiles np n (i + 1)
    | some f =>
      act (.filedup f)
      act (.childFile np i f)
      copyFiles np n (i + 1)

/-- `mem` says whether there is memory for the kernel stack and the copy of the user memory. -/
def fork (mem : Bool) : Kprog Unit := do
  match ← act .allocproc with
  | none => return
  | some np =>
    if mem then
      copyFiles np NOFILE 0
      act (.runnable np)
    else act (.unuse np)

/-- The loop of `exit` over the open files from descriptor `i` on, for `n` rounds. -/
def closeFiles : Nat → Nat → Kprog Unit
  | 0, _ => return
  | n + 1, i => do
    match ← act (.ofile i) with
    | none => closeFiles n (i + 1)
    | some f =>
      fileclose f
      act (.clear i)
      closeFiles n (i + 1)

def exit : Kprog Unit := do
  if (← act .proc) = initproc then act (.panic .initExiting)
  else
    closeFiles NOFILE 0
    act .zombie

inductive Call where
  | open (found : Option Nat) (omode : UInt32)
  | pipe (arg : Bool) (page : Option Nat)
  | dup (fd : Int)
  | close (fd : Int)
  | fork (mem : Bool)
  | exit
  | wait (i : Nat)

def Call.body : Call → Kprog Unit
  | .open found omode => sysOpen found omode
  | .pipe arg page => do let _ ← sysPipe arg page
  | .dup fd => do let _ ← sysDup fd
  | .close fd => sysClose fd
  | .fork mem => Ftable.fork mem
  | .exit => Ftable.exit
  | .wait i => act (.reap i)

def machine (nproc : Nat) : Machine Nat Act Act.Res Call State Panic where
  exec := exec nproc
  body := Call.body
  canCall := fun s p => p < nproc ∧ (s.procs p).state = .live

def Proc.unused : Proc := ⟨.unused, .const none, [], none, 0⟩

def boot : State where
  ftable := .const ⟨.none, 0, false, false, 0, 0, 0⟩
  pages := .const none
  procs := (Table.const Proc.unused).set initproc { Proc.unused with state := .live }
  made := .const 0
  freed := .const 0

end Xv6.Ftable
