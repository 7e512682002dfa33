import Xv6.Bcache
import Xv6.Lib.Chain

/-!
# The disk drivers (`ide.c`, `memide.c`)

Buffers are numbered from 1 and `0` is the null pointer. A section under `idelock` is one event. The
disk performs one command at a time, well or with an error status, and then interrupts once. A
process calls `iderw` on a buffer for which no other call is in progress, and the buffers without
one may be changed at any time. A process asleep in `iderw` may wake at any time.
-/

namespace Xv6.Ide

open Bcache (Ports ports Command)

structure Buf (D : Type) where
  busy : Bool
  valid : Bool
  dirty : Bool
  dev : UInt32
  sector : UInt32
  data : D
deriving DecidableEq

variable {D : Type}

/-- `(b->flags & (B_VALID|B_DIRTY)) == B_VALID`. -/
def Buf.synced (x : Buf D) : Bool := x.valid && !x.dirty

/-- What `idestart` tells the disk. -/
def Buf.request (x : Buf D) : Command D := ⟨ports x.dev x.sector, if x.dirty then some x.data else none⟩

/-- The driver and the disk. `done` is the status of the command once the disk has performed it: whether it went
well. -/
structure Driver (D : Type) where
  buf : Table (Buf D)
  idequeue : Nat
  qnext : Table Nat
  contents : Ports → D
  command : Option (Command D)
  done : Option Bool

namespace Driver

def setBuf (b : Nat) (x : Buf D) (s : Driver D) : Driver D := { s with buf := s.buf.set b x }

def idestart (b : Nat) (s : Driver D) : Driver D := { s with command := some (s.buf b).request, done := none }

def perform (ok : Bool) (s : Driver D) : Driver D :=
  match s.command, s.done with
  | some c, none =>
    { s with
      done := some ok
      contents :=
        match c.write with
        | some d => if ok then Function.update s.contents c.place d else s.contents
        | none => s.contents }
  | _, _ => s

/-- The data register after a read command. -/
def insl (s : Driver D) (d : D) : D :=
  match s.command with
  | some c => s.contents c.place
  | none => d

/-- What the interrupt handler makes of the buffer of the active request. -/
def finished (s : Driver D) (x : Buf D) : Buf D :=
  { x with
    -- the status is looked at for reads only
    data := if !x.dirty && s.done = some true then s.insl x.data else x.data
    valid := true
    dirty := false }

def ideintr (s : Driver D) : Driver D :=
  if s.idequeue = 0 then s
  else
    let b := s.idequeue
    let s' : Driver D := { s.setBuf b (s.finished (s.buf b)) with
      idequeue := s.qnext b, command := none, done := none }
    if s'.idequeue ≠ 0 then s'.idestart s'.idequeue else s'

/-- The loop of `iderw` over the queue, for at most `k` nodes; `none` says that it goes on for longer. -/
def last (k : Nat) (s : Driver D) : Option Nat := Chain.seek s.qnext (fun p => s.qnext p = 0) k s.idequeue

/-- `iderw` under the lock, up to its waiting loop. -/
def append (k b : Nat) (s : Driver D) : Option (Driver D) :=
  let s := { s with qnext := s.qnext.set b 0 }
  let s' :=
    if s.idequeue = 0 then some { s with idequeue := b }
    else (s.last k).map fun p => { s with qnext := s.qnext.set p b }
  s'.map fun s => if s.idequeue = b then s.idestart b else s

end Driver

inductive Panic where
  | bufNotBusy
  | nothingToDo
  | noDisk1
  | notDisk1
  | outOfRange
deriving DecidableEq

/-- The checks at the start of `iderw`. -/
def check (havedisk1 : Bool) (x : Buf D) : Option Panic :=
  if !x.busy then some .bufNotBusy
  else if x.synced then some .nothingToDo
  else if x.dev ≠ 0 ∧ !havedisk1 then some .noDisk1
  else none

/-! ## The driver in memory -/

structure Mem (D : Type) where
  buf : Table (Buf D)
  disk : UInt32 → D

/-- `disksize`, from the size of the image. -/
def disksize (imgSize : UInt32) : UInt32 := imgSize / 512

/-- `iderw` of `memide.c`. -/
def Mem.iderw (imgSize : UInt32) (b : Nat) (m : Mem D) : Except Panic (Mem D) :=
  let x := m.buf b
  if !x.busy then .error .bufNotBusy
  else if x.synced then .error .nothingToDo
  else if x.dev ≠ 1 then .error .notDisk1
  else if x.sector ≥ disksize imgSize then .error .outOfRange
  else if x.dirty then
    .ok ⟨m.buf.set b { x with dirty := false, valid := true }, Function.update m.disk x.sector x.data⟩
  else .ok ⟨m.buf.set b { x with data := m.disk x.sector, valid := true }, m.disk⟩

/-! ## Runs -/

/-- Where a process is in `iderw`: past the checks, or waiting for its request, which is the `k`-th. -/
inductive Phase where
  | out
  | entered (b : Nat)
  | waiting (b k : Nat)

def Phase.buf : Phase → Option Nat
  | .out => none
  | .entered b => some b
  | .waiting b _ => some b

/-- What happened to the buffers, in order. -/
inductive Op (D : Type) where
  | touch (b : Nat) (x : Buf D)
  | iderw (b : Nat)

/-- The last four fields are for the proofs only: the buffers for which a call is in progress, the requests that were
queued and those that were completed, in order, and the operations on the buffers, with a request where it was
completed. -/
structure State (D : Type) where
  drv : Driver D
  phase : Nat → Phase
  panicked : Option Panic
  active : List Nat
  queued : List Nat
  completed : List Nat
  trace : List (Op D)

inductive Event (D : Type) where
  /-- Process `p` calls `iderw` for the buffer `b`. -/
  | call (p b : Nat)
  /-- Process `p` appends its request. -/
  | append (p : Nat)
  /-- Process `p` looks at the flags of its buffer. -/
  | wake (p : Nat)
  | perform (ok : Bool)
  | ideintr
  /-- Something else is done to a buffer. -/
  | touch (b : Nat) (x : Buf D)

namespace State

def setPhase (p : Nat) (ph : Phase) (s : State D) : State D := { s with phase := Function.update s.phase p ph }

/-- One event; `none` says that the loop over the queue does not end. -/
def step (havedisk1 : Bool) (s : State D) : Event D → Option (State D)
  | .call p b =>
    match s.phase p with
    | .out =>
      if b = 0 ∨ b ∈ s.active then some s
      else
        match check havedisk1 (s.drv.buf b) with
        | some e => some { s with panicked := some e }
        | none => some { s.setPhase p (.entered b) with active := b :: s.active }
    | _ => some s
  | .append p =>
    match s.phase p with
    | .entered b =>
      (s.drv.append (s.queued.length + 1) b).map fun drv =>
        { s.setPhase p (.waiting b s.queued.length) with drv, queued := s.queued ++ [b] }
    | _ => some s
  | .wake p =>
    match s.phase p with
    | .waiting b _ =>
      if (s.drv.buf b).synced then some { s.setPhase p .out with active := s.active.erase b } else some s
    | _ => some s
  | .perform ok => some { s with drv := s.drv.perform ok }
  | .ideintr =>
    -- the disk interrupts once for a command that it has performed
    if s.drv.done.isSome then
      some { s with
        drv := s.drv.ideintr
        completed := s.completed ++ [s.drv.idequeue]
        trace := s.trace ++ [.iderw s.drv.idequeue] }
    else some s
  | .touch b x =>
    if b ∈ s.active then some s
    else some { s with drv := s.drv.setBuf b x, trace := s.trace ++ [.touch b x] }

/-- Nothing runs after a panic. -/
def next (havedisk1 : Bool) (s : State D) (e : Event D) : Option (State D) :=
  if s.panicked.isSome then some s else s.step havedisk1 e

def run (havedisk1 : Bool) : List (Event D) → State D → Option (State D)
  | [], s => some s
  | e :: es, s => (s.next havedisk1 e).bind (run havedisk1 es)

end State

def boot (buf : Table (Buf D)) (contents : Ports → D) : State D where
  drv := ⟨buf, 0, .const 0, contents, none, none⟩
  phase := fun _ => .out
  panicked := none
  active := []
  queued := []
  completed := []
  trace := []

/-- The driver in memory executes the operations one after the other. -/
def Mem.replay (imgSize : UInt32) : List (Op D) → Mem D → Except Panic (Mem D)
  | [], m => .ok m
  | .touch b x :: ops, m => replay imgSize ops { m with buf := m.buf.set b x }
  | .iderw b :: ops, m => do
    let m ← m.iderw imgSize b
    replay imgSize ops m

end Xv6.Ide
