import Xv6.Ide

/-!
# The buffer cache over a disk with errors (`bio.c`, `ide.c`)

A section under `bcache.lock` or `idelock` is one event, and so is every access of a process to a
buffer outside of them. Buffers are numbered from 1, and `0` is `bcache.head`.
-/

namespace Xv6.DiskCache

open Ide (Buf check)
open Bcache (Ports ports noDev)

variable {D : Type}

inductive Panic where
  | noBuffers
  | bwrite
  | brelse
  | iderw (e : Ide.Panic)
deriving DecidableEq

/-- Where a process is: in `bread` for a sector, with the buffer that `bget` returned, before and in `iderw`; or in
`bwrite`, past setting the flag, before and in `iderw`. -/
inductive Stage where
  | idle
  | got (b : Nat) (dev sector : UInt32)
  | reading (b : Nat) (dev sector : UInt32)
  | dirtied (b : Nat)
  | writing (b : Nat)

/-- What a `bread` was asked for, the buffer that it returned, and its `moved`. -/
structure Seen (D : Type) where
  dev : UInt32
  sector : UInt32
  buf : Buf D
  moved : Bool

/-- The last four fields are for the proofs only: the process that uses a buffer; whether the disk has transferred
data between a buffer and the address of its sector since `bget` gave the buffer to the sector; whether `B_DIRTY` was
cleared for a write that ended in an error; and the results of `bread`. -/
structure State (D : Type) where
  ide : Ide.State D
  links : Links
  stage : Nat → Stage
  panicked : Option Panic
  holder : Nat → Option Nat
  moved : Nat → Bool
  rejected : Bool
  reads : List (Seen D)

namespace State

def buf (s : State D) (b : Nat) : Buf D := s.ide.drv.buf b

def setBuf (b : Nat) (x : Buf D) (s : State D) : State D :=
  { s with ide := { s.ide with drv := s.ide.drv.setBuf b x, trace := s.ide.trace ++ [.touch b x] } }

def setStage (p : Nat) (st : Stage) (s : State D) : State D := { s with stage := Function.update s.stage p st }

def setHolder (b : Nat) (h : Option Nat) (s : State D) : State D := { s with holder := Function.update s.holder b h }

def lookup (nbuf : Nat) (dev sector : UInt32) (s : State D) : Option Nat :=
  Links.seek s.links.next 0 (fun b => (s.buf b).dev = dev ∧ (s.buf b).sector = sector) (nbuf + 1) (s.links.next 0)

def victim (nbuf : Nat) (s : State D) : Option Nat :=
  Links.seek s.links.prev 0 (fun b => !(s.buf b).busy && !(s.buf b).dirty) (nbuf + 1) (s.links.prev 0)

/-- `bget`; a process that has to sleep starts it again. -/
def bget (nbuf p : Nat) (dev sector : UInt32) (s : State D) : Option (State D) := do
  let b ← s.lookup nbuf dev sector
  if b ≠ 0 then
    let x := s.buf b
    if x.busy then some s
    else some (((s.setBuf b { x with busy := true }).setHolder b (some p)).setStage p (.got b dev sector))
  else
    let b ← s.victim nbuf
    if b = 0 then some { s with panicked := some .noBuffers }
    else
      let x : Buf D := { s.buf b with dev, sector, busy := true, valid := false, dirty := false }
      some { ((s.setBuf b x).setHolder b (some p)).setStage p (.got b dev sector) with
        moved := Function.update s.moved b false }

/-- `iderw` up to its lock; `st` is where the caller is then. -/
def iderw (havedisk1 : Bool) (p b : Nat) (st : Stage) (s : State D) : State D :=
  match check havedisk1 (s.buf b) with
  | some e => { s with panicked := some (.iderw e) }
  | none =>
    { s with ide := { s.ide.setPhase p (.entered b) with active := b :: s.ide.active } }.setStage p st

def returned (p b : Nat) (dev sector : UInt32) (s : State D) : State D :=
  { s.setStage p .idle with reads := ⟨dev, sector, s.buf b, s.moved b⟩ :: s.reads }

/-- `bread` behind `bget`. -/
def bread (havedisk1 : Bool) (p b : Nat) (dev sector : UInt32) (s : State D) : State D :=
  if !(s.buf b).valid then s.iderw havedisk1 p b (.reading b dev sector) else s.returned p b dev sector

/-- `bwrite` before `iderw`. -/
def bwrite (p b : Nat) (s : State D) : State D :=
  if !(s.buf b).busy then { s with panicked := some .bwrite }
  else (s.setBuf b { s.buf b with dirty := true }).setStage p (.dirtied b)

def brelse (b : Nat) (s : State D) : State D :=
  if !(s.buf b).busy then { s with panicked := some .brelse }
  else
    { (s.setBuf b { s.buf b with busy := false }).setHolder b none with
      links := (s.links.unlink b).pushFront 0 b }

def leave (p b : Nat) (s : State D) : State D :=
  let s' := { s with ide := { s.ide.setPhase p .out with active := s.ide.active.erase b } }
  match s.stage p with
  | .reading b dev sector => s'.returned p b dev sector
  | _ => s'.setStage p .idle

def ideintr (s : State D) : State D :=
  let b := s.ide.drv.idequeue
  let x := s.buf b
  let transferred := s.ide.drv.done = some true ∧ s.ide.drv.command.map (·.place) = some (ports x.dev x.sector)
  { s with
    ide := { s.ide with
      drv := s.ide.drv.ideintr
      completed := s.ide.completed ++ [b]
      trace := s.ide.trace ++ [.iderw b] }
    moved := Function.update s.moved b (s.moved b || transferred)
    rejected := s.rejected || (x.dirty && s.ide.drv.done = some false) }

end State

inductive Event (D : Type) where
  /-- Process `p` calls `bread` and runs `bget`. -/
  | bget (p : Nat) (dev sector : UInt32)
  /-- Process `p` goes on in `bread`. -/
  | bread (p : Nat)
  | bwrite (p b : Nat)
  /-- Process `p` goes on in `bwrite`. -/
  | iderw (p : Nat)
  /-- Process `p` changes the data of a buffer that it uses. -/
  | modify (p b : Nat) (d : D)
  /-- The last line of `log_write`. -/
  | logDirty (p b : Nat)
  | brelse (p b : Nat)
  /-- Process `p` appends its request to the queue of the driver. -/
  | append (p : Nat)
  /-- Process `p` looks at the flags of the buffer of its request. -/
  | wake (p : Nat)
  | perform (ok : Bool)
  | ideintr

namespace State

/-- A process outside of the calls does something to a buffer that it uses. -/
def asHolder (p b : Nat) (f : State D → State D) (s : State D) : State D :=
  match s.stage p with
  | .idle => if s.holder b = some p then f s else s
  | _ => s

/-- One event; `none` says that a loop does not end. -/
def step (nbuf : Nat) (havedisk1 : Bool) (s : State D) : Event D → Option (State D)
  | .bget p dev sector =>
    match s.stage p with
    | .idle => s.bget nbuf p dev sector
    | _ => some s
  | .bread p =>
    match s.stage p with
    | .got b dev sector => some (s.bread havedisk1 p b dev sector)
    | _ => some s
  | .bwrite p b => some (s.asHolder p b (·.bwrite p b))
  | .iderw p =>
    match s.stage p with
    | .dirtied b => some (s.iderw havedisk1 p b (.writing b))
    | _ => some s
  | .modify p b d => some (s.asHolder p b fun s => s.setBuf b { s.buf b with data := d })
  | .logDirty p b => some (s.asHolder p b fun s => s.setBuf b { s.buf b with dirty := true })
  | .brelse p b => some (s.asHolder p b (·.brelse b))
  | .append p =>
    match s.ide.phase p with
    | .entered b =>
      (s.ide.drv.append (s.ide.queued.length + 1) b).map fun drv =>
        { s with ide := { s.ide.setPhase p (.waiting b s.ide.queued.length) with
            drv, queued := s.ide.queued ++ [b] } }
    | _ => some s
  | .wake p =>
    match s.ide.phase p with
    | .waiting b _ => if (s.buf b).synced then some (s.leave p b) else some s
    | _ => some s
  | .perform ok => some { s with ide := { s.ide with drv := s.ide.drv.perform ok } }
  | .ideintr =>
    -- the disk interrupts once for a command that it has performed
    some (if s.ide.drv.done.isSome then s.ideintr else s)

/-- Nothing runs after a panic. -/
def next (nbuf : Nat) (havedisk1 : Bool) (s : State D) (e : Event D) : Option (State D) :=
  if s.panicked.isSome then some s else s.step nbuf havedisk1 e

def run (nbuf : Nat) (havedisk1 : Bool) : List (Event D) → State D → Option (State D)
  | [], s => some s
  | e :: es, s => (s.next nbuf havedisk1 e).bind (run nbuf havedisk1 es)

end State

def binit : Nat → Links
  | 0 => ⟨.const 0, .const 0⟩
  | n + 1 => (binit n).pushFront 0 (n + 1)

def boot (nbuf : Nat) (zero : D) (contents : Ports → D) : State D where
  ide := Ide.boot (.const ⟨false, false, false, noDev, 0, zero⟩) contents
  links := binit nbuf
  stage := fun _ => .idle
  panicked := none
  holder := fun _ => none
  moved := fun _ => false
  rejected := false
  reads := []

end Xv6.DiskCache
