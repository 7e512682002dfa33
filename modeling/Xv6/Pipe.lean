import Xv6.Waiting

/-!
# Pipes (`pipe.c`)

A byte that is stored is one action, and so is the loop of `piperead` that copies bytes out. A call
on an end is made with a reference that no other call is using, and only such a reference is
dropped: a process is in one call at a time and closes its own descriptors.
-/

namespace Xv6.Process

open Threads

def PIPESIZE : Nat := 512

/-- A `piperead` that got to its copying loop: what it was asked for, what it returned, and whether it
left the pipe empty and found the write side closed. -/
structure Read where
  n : Int32
  ret : Int32
  bytes : List UInt8
  empty : Bool
  closed : Bool

/-- `struct pipe`. The last two fields are for the proofs only: the bytes stored so far and the
reads made so far, in order. -/
structure Pipe where
  data : Table UInt8
  nread : UInt32
  nwrite : UInt32
  readopen : Bool
  writeopen : Bool
  stored : List UInt8
  reads : List Read

inductive Side where
  | read
  | write
deriving DecidableEq

/-- The open file at an end: its reference count, the processes in a call through it, and the
process that dropped the last reference and has still to close the end. -/
structure End where
  ref : Nat
  users : List Nat
  closer : Option Nat

/-- The pipe, its ends, and whether `kfree` took its page; for the proofs only, the process that
closed the second end and has still to free the page. -/
structure Shared where
  pipe : Pipe
  rd : End
  wr : End
  freed : Bool
  freer : Option Nat

namespace Pipe

def full (x : Pipe) : Bool := x.nwrite = x.nread + UInt32.ofNat PIPESIZE

def empty (x : Pipe) : Bool := x.nread = x.nwrite

/-- `p->data[p->nwrite++ % PIPESIZE] = b`. -/
def store (b : UInt8) (x : Pipe) : Pipe :=
  { x with
    data := x.data.set (x.nwrite.toNat % PIPESIZE) b
    nwrite := x.nwrite + 1
    stored := x.stored ++ [b] }

/-- The loop of `piperead` for at most `k` more bytes. -/
def copyOut : Nat → Pipe → Pipe × List UInt8
  | 0, x => (x, [])
  | k + 1, x =>
    if x.empty then (x, [])
    else
      let b := x.data (x.nread.toNat % PIPESIZE)
      let (y, bytes) := copyOut k { x with nread := x.nread + 1 }
      (y, b :: bytes)

def out (n : Int32) (x : Pipe) : List UInt8 := (x.copyOut n.toNatClampNeg).2

def read (n : Int32) (x : Pipe) : Pipe :=
  let y := (x.copyOut n.toNatClampNeg).1
  let bytes := x.out n
  { y with reads := x.reads ++ [⟨n, Int32.ofNat bytes.length, bytes, y.empty, !y.writeopen⟩] }

end Pipe

/-- A reference that no call is using. -/
def End.spare (e : End) : Bool := decide (e.users.length < e.ref)

namespace Shared

def file (x : Shared) : Side → End
  | .read => x.rd
  | .write => x.wr

def setFile (x : Shared) (e : End) : Side → Shared
  | .read => { x with rd := e }
  | .write => { x with wr := e }

/-- `p->writeopen = 0` or `p->readopen = 0`, by process `p`. -/
def close (side : Side) (p : Nat) (x : Shared) : Shared :=
  let y := x.setFile { x.file side with closer := none } side
  match side with
  | .write =>
    { y with
      pipe := { x.pipe with writeopen := false }
      freer := if x.pipe.readopen then x.freer else some p }
  | .read =>
    { y with
      pipe := { x.pipe with readopen := false }
      freer := if x.pipe.writeopen then x.freer else some p }

end Shared

/-- `&p->nread` and `&p->nwrite`. -/
def nreadChan : Chan := .addr 1
def nwriteChan : Chan := .addr 2

/-- A change of the pipe under its lock, after which wakeups on `owe` are due. -/
def withPipe (f : Pipe → Pipe) (owe : List Chan) : Kprog Shared Pipe := do
  let x ← act (.data (fun _ x => { x with pipe := f x.pipe }) owe)
  return x.pipe

def kfree : Kprog Shared Unit := do
  let _ ← act (.data (fun _ x => { x with freed := true, freer := none }) [])

/-- Close one side of the pipe; the last to do so frees it. -/
def pipeclose (nproc : Nat) (side : Side) : Kprog Shared Unit := do
  acquire lk
  match side with
  | .write =>
    let _ ← act (.data (Shared.close .write) [nreadChan])
    wakeup nproc nreadChan
  | .read =>
    let _ ← act (.data (Shared.close .read) [nwriteChan])
    wakeup nproc nwriteChan
  let x ← withPipe (fun x => x) []
  if x.readopen = false && x.writeopen = false then
    release lk
    kfree
  else release lk

/-- The inner loop of `pipewrite`: wait for room. The result is the pipe that was found to have
room, or nothing if the call is to fail. A run gets through finitely many rounds. -/
def waitRoom (nproc : Nat) : Nat → Kprog Shared (Option Pipe)
  | 0 => do
    act .stuck
    return none
  | rounds + 1 => do
    let x ← withPipe (fun x => x) []
    if x.full then
      if x.readopen = false then return none
      else if ← act .killed then return none
      else
        wakeup nproc nreadChan
        sleep nwriteChan lk
        waitRoom nproc rounds
    else return some x

/-- The outer loop of `pipewrite` from byte `i` on, for `k` bytes. Stored bytes are owed to the
readers while there can be any. -/
def writeFrom (nproc rounds : Nat) (addr : Nat → UInt8) : Nat → Nat → Kprog Shared Bool
  | 0, _ => return true
  | k + 1, i => do
    match ← waitRoom nproc rounds with
    | none => return false
    | some x =>
      let _ ← withPipe (Pipe.store (addr i)) (if x.readopen then [nreadChan] else [])
      writeFrom nproc rounds addr k (i + 1)

def pipewrite (nproc rounds : Nat) (addr : Nat → UInt8) (n : Int32) : Kprog Shared Int32 := do
  acquire lk
  if ← writeFrom nproc rounds addr n.toNatClampNeg 0 then
    wakeup nproc nreadChan
    release lk
    return n
  else
    release lk
    return -1

/-- The first loop of `piperead`: wait for bytes or for the end. -/
def waitBytes : Nat → Kprog Shared Bool
  | 0 => do
    act .stuck
    return false
  | rounds + 1 => do
    let x ← withPipe (fun x => x) []
    if x.empty && x.writeopen then
      if ← act .killed then return false
      else
        sleep nreadChan lk
        waitBytes rounds
    else return true

def piperead (nproc rounds : Nat) (n : Int32) : Kprog Shared (Int32 × List UInt8) := do
  acquire lk
  if ← waitBytes rounds then
    let x ← withPipe (Pipe.read n) [nwriteChan]
    wakeup nproc nwriteChan
    release lk
    return (Int32.ofNat (x.out n).length, x.out n)
  else
    release lk
    return (-1, [])

/-! ## Open files -/

/-- A process goes into a call through an end, if it has a reference. -/
def enter (side : Side) : Kprog Shared Bool := do
  let x ← act (.data (fun p x =>
    let e := x.file side
    if e.spare then x.setFile { e with users := p :: e.users } side else x) [])
  return (x.file side).spare

def leave (side : Side) : Kprog Shared Unit := do
  let _ ← act (.data (fun p x =>
    let e := x.file side
    x.setFile { e with users := e.users.erase p } side) [])

def filedup (side : Side) : Kprog Shared Unit := do
  let _ ← act (.data (fun _ x =>
    let e := x.file side
    if e.spare then x.setFile { e with ref := e.ref + 1 } side else x) [])

/-- Decrement it, and close the end when it reaches zero. -/
def fileclose (nproc : Nat) (side : Side) : Kprog Shared Unit := do
  let x ← act (.data (fun p x =>
    let e := x.file side
    if e.spare then
      x.setFile { e with ref := e.ref - 1, closer := if e.ref = 1 then some p else e.closer } side
    else x) [])
  let e := x.file side
  if e.spare && e.ref = 1 then pipeclose nproc side

/-! ## The machine -/

inductive PipeCall where
  | write (addr : Nat → UInt8) (n : Int32) (rounds : Nat)
  | read (n : Int32) (rounds : Nat)
  | dup (side : Side)
  | close (side : Side)
  | kill (pid : Int32)
  | schedule (i : Nat)
  | preempt (i : Nat)

def PipeCall.body (nproc : Nat) : PipeCall → Kprog Shared Unit
  | .write addr n rounds => do
    if ← enter .write then
      let _ ← pipewrite nproc rounds addr n
      leave .write
  | .read n rounds => do
    if ← enter .read then
      let _ ← piperead nproc rounds n
      leave .read
  | .dup side => filedup side
  | .close side => fileclose nproc side
  | .kill pid => do
    let _ ← Process.kill nproc pid
  | .schedule i => act (.schedule i)
  | .preempt i => act (.preempt i)

def pipes (nproc : Nat) : Machine Tid (Act Shared) Act.Res PipeCall (State Shared) Panic :=
  machine (PipeCall.body nproc)

/-- A pipe as `pipealloc` makes it, in a page with arbitrary contents. -/
def pipealloc (page : Table UInt8) : Shared where
  pipe := ⟨page, 0, 0, true, true, [], []⟩
  rd := ⟨1, [], none⟩
  wr := ⟨1, [], none⟩
  freed := false
  freer := none

end Xv6.Process
