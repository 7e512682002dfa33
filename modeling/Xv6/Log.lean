import Xv6.Disk
import Mathlib.Logic.Function.Basic

/-!
# The redo log (`log.c`)

Every sector that is read through `bread` here is only ever written through `bwrite`, so the buffer
holds what the disk holds; the home buffers that `log_write` pins are lost when the machine stops.
-/

namespace Xv6.Log

def LOGSIZE : Nat := 10

/-- `struct logheader`; only `sector[0..n)` is meaningful. -/
structure Header where
  n : Int
  sector : Nat → UInt32

/-- `struct log`, for the one device the file system has. -/
structure LogState where
  start : Nat
  size : Nat
  busy : Bool
  lh : Header

/-- The disk, the in-memory log, and the disk contents after each sector write so far,
latest first. A machine that stops between two sector writes leaves one of them. -/
structure Machine where
  disk : Disk
  log : LogState
  trail : List Disk

def bread (m : Machine) (sector : Nat) : Block := m.disk sector

/-- One sector write, atomic and on the disk when it returns. -/
def bwrite (m : Machine) (sector : Nat) (data : Block) : Machine :=
  let disk := Function.update m.disk sector data
  { m with disk := disk, trail := disk :: m.trail }

/-- Body of the loop of `install_trans`: copy log block `tail` to its home sector. -/
def installBlock (m : Machine) (tail : Nat) : Machine :=
  bwrite m (m.log.lh.sector tail).toNat (bread m (m.log.start + tail + 1))

/-- `install_trans` after `k` iterations of its loop. -/
def installUpto (m : Machine) : Nat → Machine
  | 0 => m
  | k + 1 => installBlock (installUpto m k) k

def installTrans (m : Machine) : Machine := installUpto m m.log.lh.n.toNat

/-- Read the log header from disk. A count above `LOGSIZE` would run past the end of the
in-memory array. -/
def readHead (m : Machine) : Option Machine :=
  let lh := bread m m.log.start
  let n := (wordAt lh 0).toInt32.toInt
  if n ≤ LOGSIZE then
    some { m with log := { m.log with lh :=
      { n := n, sector := fun i => if (i : Int) < n then wordAt lh (i + 1) else m.log.lh.sector i } } }
  else none

/-- The loop of `write_head` after `k` iterations, on the buffer `hb`. -/
def fillSectors (lh : Header) (hb : Block) : Nat → Block
  | 0 => hb
  | k + 1 => setWord (fillSectors lh hb k) (k + 1) (lh.sector k)

/-- Write the in-memory log header to disk, the point at which a transaction commits. -/
def writeHead (m : Machine) : Machine :=
  let buf := bread m m.log.start
  let hb := setWord buf 0 (Int32.ofInt m.log.lh.n).toUInt32
  bwrite m m.log.start (fillSectors m.log.lh hb m.log.lh.n.toNat)

/-- `log.lh.n = 0`. -/
def clearCount (m : Machine) : Machine :=
  { m with log := { m.log with lh := { m.log.lh with n := 0 } } }

def recoverFromLog (m : Machine) : Option Machine := do
  let m ← readHead m
  some (writeHead (clearCount (installTrans m)))

/-- The caller owns the log or, with another transaction active, does not get past the
loop. -/
def beginTrans (m : Machine) : Option Machine :=
  if m.log.busy then none else some { m with log := { m.log with busy := true } }

def commitTrans (m : Machine) : Machine :=
  let m := if 0 < m.log.lh.n then writeHead (clearCount (installTrans (writeHead m))) else m
  { m with log := { m.log with busy := false } }

/-- Index at which the loop of `log_write` stops: the first slot already holding the
sector (log absorption), or the first free one. -/
def absorbIndex (lh : Header) (sector : UInt32) : Nat :=
  ((List.range lh.n.toNat).find? (fun i => lh.sector i == sector)).getD lh.n.toNat

/-- Append a block to the log; `none` is one of its two panics. -/
def logWrite (m : Machine) (sector : UInt32) (data : Block) : Option Machine :=
  if (LOGSIZE : Int) ≤ m.log.lh.n ∨ (m.log.size : Int) - 1 ≤ m.log.lh.n then none
  else if m.log.busy = false then none
  else
    let i := absorbIndex m.log.lh sector
    let lh := { m.log.lh with sector := Function.update m.log.lh.sector i sector }
    let m := bwrite { m with log := { m.log with lh := lh } } (m.log.start + i + 1) data
    some (if (i : Int) = m.log.lh.n then
      { m with log := { m.log with lh := { m.log.lh with n := m.log.lh.n + 1 } } } else m)

def logWrites (m : Machine) : List (UInt32 × Block) → Option Machine
  | [] => some m
  | (sector, data) :: ws => do
    let m ← logWrite m sector data
    logWrites m ws

/-- `begin_trans(); log_write(b1); ...; log_write(bk); commit_trans();` -/
def transaction (m : Machine) (ws : List (UInt32 × Block)) : Option Machine := do
  let m ← beginTrans m
  let m ← logWrites m ws
  some (commitTrans m)

def boot (start size : Nat) (d : Disk) : Machine :=
  { disk := d, log := { start, size, busy := false, lh := { n := 0, sector := fun _ => 0 } },
    trail := [d] }

/-- The recovery that `initlog` runs on every start. -/
def recover (start size : Nat) (d : Disk) : Option Machine := recoverFromLog (boot start size d)

end Xv6.Log
