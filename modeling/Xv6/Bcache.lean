import Xv6.Inode
import Xv6.Lib.Ring
import Xv6.Lib.Threads

/-!
# The buffer cache (`bio.c`, `ide.c`, `log.c`)

A section under `bcache.lock` or `idelock` is one action, and so is every access outside of them; a
process that sleeps waits until it can go on. A write command takes its data when it is started, and
both kinds of command are done when the disk interrupts. A process uses a buffer from `bread` to
`brelse`, and gives what it has changed to `bwrite` or `log_write`.
-/

namespace Xv6.Bcache

open Threads Fs

def NBUF : Nat := 10

/-- `struct buf`, without its place in the lists. The last three fields are for the proofs only:
the processes that set `B_BUSY` and have not cleared it, whether the data are as they were when
the buffer was last released, and whether they are as they were when `B_DIRTY` was last set or the
buffer read. -/
structure Buf (D : Type) where
  busy : Bool
  valid : Bool
  dirty : Bool
  dev : UInt32
  sector : UInt32
  data : D
  owners : List Pid
  fresh : Bool
  synced : Bool

/-- What `idestart` writes to the address registers `0x1f3` to `0x1f6`. -/
structure Ports where
  low : UInt32
  mid : UInt32
  high : UInt32
  drive : UInt32
deriving DecidableEq

def ports (dev sector : UInt32) : Ports where
  low := sector &&& 0xff
  mid := (sector >>> 8) &&& 0xff
  high := (sector >>> 16) &&& 0xff
  drive := (0xe0 : UInt32) ||| ((dev &&& 1) <<< 4) ||| ((sector >>> 24) &&& 0x0f)

structure Command (D : Type) where
  place : Ports
  write : Option D

structure LogHead where
  n : Nat
  sector : Table UInt32
  start : UInt32
  size : Nat
  busy : Bool

/-- What a `bread` returned, and what was last released for its sector. -/
structure Seen (D : Type) where
  dev : UInt32
  sector : UInt32
  data : D
  last : D

/-- Buffers are numbered, and the number of `bcache.head` is that of all buffers. `command` is what
the disk works on, and `disk` its contents by what the address registers say. The last two fields
are for the proofs only: the data last released for each sector, at first those on the disk, and
the results of `bread`. -/
structure State (D : Type) where
  buf : Table (Buf D)
  links : Links
  queue : List Nat
  command : Option (Command D)
  disk : Ports → D
  log : LogHead
  last : UInt32 → UInt32 → D
  reads : List (Seen D)

inductive Panic where
  | noBuffers
  | bwrite
  | brelse
  | bufNotBusy
  | nothingToDo
  | noDisk1
  | tooBigTransaction
  | writeOutsideTrans
deriving DecidableEq

inductive Act (D : Type) where
  | bget (dev sector : UInt32)
  | buf (b : Nat)
  | setDirty (b : Nat)
  | modify (b : Nat) (f : D → D)
  | brelse (b : Nat)
  | enqueue (b : Nat)
  | wait (b : Nat)
  | ideintr
  | log
  | logSector (i : Nat) (sector : UInt32)
  | logN (n : Nat)
  | setLog (l : LogHead)
  | self
  | note (b : Nat)
  | panic (e : Panic)

@[reducible] def Act.Res {D : Type} : Act D → Type
  | .bget _ _ => Nat
  | .buf _ => Buf D
  | .log => LogHead
  | .self => Pid
  | _ => Unit

abbrev Kprog (D : Type) := Prog (Act D) Act.Res

variable {D : Type}

def act (a : Act D) : Kprog D a.Res := call a

namespace State

def setBuf (s : State D) (b : Nat) (x : Buf D) : State D := { s with buf := s.buf.set b x }

end State

def setSector (f : UInt32 → UInt32 → D) (dev sector : UInt32) (d : D) : UInt32 → UInt32 → D :=
  fun v n => if v = dev ∧ n = sector then d else f v n

def idestart (s : State D) : State D :=
  match s.queue with
  | [] => s
  | b :: _ =>
    let x := s.buf b
    { s with command := some ⟨ports x.dev x.sector, if x.dirty then some x.data else none⟩ }

/-- The contents of the disk when it is done with its command. -/
def written (s : State D) : Ports → D :=
  match s.command with
  | some ⟨a, some d⟩ => Function.update s.disk a d
  | _ => s.disk

/-- What the disk has for the reader of its data register. -/
def transfer (s : State D) (d : D) : D :=
  match s.command with
  | some c => s.disk c.place
  | none => d

def ideintr (s : State D) : State D :=
  match s.queue with
  | [] => s
  | b :: queue =>
    let x := s.buf b
    let data := if x.dirty then x.data else transfer s x.data
    idestart { s.setBuf b { x with data, valid := true, dirty := false } with
      queue, disk := written s }

def Buf.holds (dev sector : UInt32) (x : Buf D) : Bool := x.dev = dev ∧ x.sector = sector

def Buf.unused (x : Buf D) : Bool := !x.busy && !x.dirty

/-- The loops of `bget`, over the list in both directions. -/
def lookup (nbuf : Nat) (dev sector : UInt32) (s : State D) : Option Nat :=
  Links.seek s.links.next nbuf (fun b => (s.buf b).holds dev sector) (nbuf + 1) (s.links.next nbuf)

def victim (nbuf : Nat) (s : State D) : Option Nat :=
  Links.seek s.links.prev nbuf (fun b => (s.buf b).unused) (nbuf + 1) (s.links.prev nbuf)

def exec (nbuf : Nat) (p : Pid) (a : Act D) (s : State D) : Outcome (State D) Panic a.Res :=
  match a with
  | .bget dev sector =>
    match lookup nbuf dev sector s with
    | none => .blocked
    | some b =>
      if b ≠ nbuf then
        let x := s.buf b
        if x.busy then .blocked
        else .next b (s.setBuf b { x with busy := true, owners := p :: x.owners })
      else
        match victim nbuf s with
        | none => .blocked
        | some b =>
          let x := s.buf b
          if b = nbuf then .stop .noBuffers
          else .next b (s.setBuf b { x with
            dev, sector, busy := true, valid := false, dirty := false, owners := p :: x.owners })
  | .buf b => .next (s.buf b) s
  | .setDirty b => .next () (s.setBuf b { s.buf b with dirty := true, synced := true })
  | .modify b f =>
    let x := s.buf b
    .next () (s.setBuf b { x with data := f x.data, fresh := false, synced := false })
  | .brelse b =>
    let x := s.buf b
    .next () { s.setBuf b { x with busy := false, owners := x.owners.erase p, fresh := true } with
      links := (s.links.unlink b).pushFront nbuf b
      last := setSector s.last x.dev x.sector x.data }
  | .enqueue b =>
    let s' := { s with queue := s.queue ++ [b] }
    .next () (if s'.queue.head? = some b then idestart s' else s')
  | .wait b =>
    let x := s.buf b
    if x.valid && !x.dirty then .next () s else .blocked
  | .ideintr => .next () (ideintr s)
  | .log => .next s.log s
  | .logSector i sector => .next () { s with log := { s.log with sector := s.log.sector.set i sector } }
  | .logN n => .next () { s with log := { s.log with n } }
  | .setLog l => .next () { s with log := l }
  | .self => .next p s
  | .note b =>
    let x := s.buf b
    .next () { s with reads := ⟨x.dev, x.sector, x.data, s.last x.dev x.sector⟩ :: s.reads }
  | .panic e => .stop e

/-- Sync buf with disk; `havedisk1` is what `ideinit` found. -/
def iderw (havedisk1 : Bool) (b : Nat) : Kprog D Unit := do
  let x ← act (.buf b)
  if !x.busy then act (.panic .bufNotBusy)
  else if x.valid && !x.dirty then act (.panic .nothingToDo)
  else if x.dev ≠ 0 && !havedisk1 then act (.panic .noDisk1)
  else
    act (.enqueue b)
    act (.wait b)

def bread (havedisk1 : Bool) (dev sector : UInt32) : Kprog D Nat := do
  let b ← act (.bget dev sector)
  let x ← act (.buf b)
  if !x.valid then iderw havedisk1 b
  act (.note b)
  return b

def bwrite (havedisk1 : Bool) (b : Nat) : Kprog D Unit := do
  let x ← act (.buf b)
  if !x.busy then act (.panic .bwrite)
  else
    act (.setDirty b)
    iderw havedisk1 b

def brelse (b : Nat) : Kprog D Unit := do
  let x ← act (.buf b)
  if !x.busy then act (.panic .brelse) else act (.brelse b)

/-- The loop of `log_write` from place `i` on, for `k` rounds. -/
def LogHead.place (l : LogHead) (sector : UInt32) : Nat → Nat → Nat
  | 0, i => i
  | k + 1, i => if l.sector i = sector then i else l.place sector k (i + 1)

def logWrite (havedisk1 : Bool) (b : Nat) : Kprog D Unit := do
  let l ← act .log
  if Log.LOGSIZE ≤ l.n ∨ l.size ≤ l.n + 1 then act (.panic .tooBigTransaction)
  else if !l.busy then act (.panic .writeOutsideTrans)
  else
    let x ← act (.buf b)
    let i := l.place x.sector l.n 0
    act (.logSector i x.sector)
    let lbuf ← bread havedisk1 x.dev (l.start + UInt32.ofNat i + 1)
    let x ← act (.buf b)
    act (.modify lbuf fun _ => x.data)
    bwrite havedisk1 lbuf
    brelse lbuf
    let l ← act .log
    if i = l.n then act (.logN (l.n + 1))
    act (.setDirty b)

/-! ## Callers -/

inductive Call (D : Type) where
  | bread (dev sector : UInt32)
  | modify (b : Nat) (f : D → D)
  | bwrite (b : Nat)
  | logWrite (b : Nat)
  | brelse (b : Nat)
  /-- Begin or commit a transaction. -/
  | setLog (l : LogHead)
  | interrupt

def Call.body (havedisk1 : Bool) : Call D → Kprog D Unit
  | .bread dev sector => do
    let _ ← Bcache.bread havedisk1 dev sector
  | .modify b f => do
    let p ← act .self
    if p ∈ (← act (.buf b)).owners then act (.modify b f)
  | .bwrite b => do
    let p ← act .self
    if p ∈ (← act (.buf b)).owners then Bcache.bwrite havedisk1 b
  | .logWrite b => do
    let p ← act .self
    if p ∈ (← act (.buf b)).owners then Bcache.logWrite havedisk1 b
  | .brelse b => do
    let p ← act .self
    let x ← act (.buf b)
    if p ∈ x.owners ∧ x.synced then Bcache.brelse b
  | .setLog l => act (.setLog l)
  | .interrupt => act .ideintr

def bcache (nbuf : Nat) (havedisk1 : Bool) : Machine Pid (Act D) Act.Res (Call D) (State D) Panic where
  exec := exec nbuf
  body := Call.body havedisk1
  canCall := fun _ _ => True

/-- `-1`, the device of a buffer before its first use. -/
def noDev : UInt32 := 0xffffffff

/-- The loop of `binit` that links the buffers, after `n` rounds. -/
def binit (nbuf : Nat) : Nat → Links
  | 0 => ⟨.const nbuf, .const nbuf⟩
  | n + 1 => (binit nbuf n).pushFront nbuf n

def boot (nbuf : Nat) (zero : D) (disk : Ports → D) (log : LogHead) : State D where
  buf := .const ⟨false, false, false, noDev, 0, zero, [], true, true⟩
  links := binit nbuf nbuf
  queue := []
  command := none
  disk := disk
  log := log
  last := fun dev sector => disk (ports dev sector)
  reads := []

end Xv6.Bcache
