import Xv6.Bcache
import Xv6.FileCalls

/-!
# The file system over the buffer cache (`fs.c`, `log.c`)

The functions that touch blocks as programs over single buffers, in place of the atomic actions that
stand for them in `Kernel`, whose `disk` is not used here. The log is empty when the system starts.
`active`, the processes that are in a call, is kept for the proofs only.
-/

namespace Xv6.Buffered

open Threads Fs

def ROOTDEV : UInt32 := 1

structure State where
  fs : Fs.State
  cache : Bcache.State Block
  active : List Pid

inductive Panic where
  | fs (e : Fs.Panic)
  | cache (e : Bcache.Panic)
deriving DecidableEq

inductive Act where
  | fs (a : Fs.Act)
  | cache (a : Bcache.Act Block)
  | beginTrans
  /-- The last section of `commit_trans`. -/
  | endTrans
  | entry (i : Nat)
  | setIno (i : Nat) (ip : Dinode)
  | setValid (i : Nat)
  | enter
  | leave

@[reducible] def Act.Res : Act → Type
  | .fs a => a.Res
  | .cache a => a.Res
  | .entry _ => Cached
  | .enter => Bool
  | _ => Unit

def exec (nbuf : Nat) (p : Pid) (a : Act) (s : State) : Outcome State Panic a.Res :=
  match a with
  | .fs a => (Fs.exec p a s.fs).lift (fun k => { s with fs := k }) .fs
  | .cache a => (Bcache.exec nbuf p a s.cache).lift (fun c => { s with cache := c }) .cache
  | .beginTrans =>
    if s.fs.store.log.busy = none then
      .next () { s with
        fs := { s.fs with store := { s.fs.store with log := { s.fs.store.log with busy := some p } } }
        cache := { s.cache with log := { s.cache.log with busy := true } } }
    else .blocked
  | .endTrans =>
    .next () { s with
      fs := { s.fs with store := { s.fs.store with log := { s.fs.store.log with busy := none } } }
      cache := { s.cache with log := { s.cache.log with busy := false } } }
  | .entry i => .next (s.fs.icache i) s
  | .setIno i ip => .next () { s with fs := Fs.setIno s.fs i ip }
  | .setValid i =>
    .next () { s with fs := { s.fs with icache := s.fs.icache.set i { s.fs.icache i with valid := true } } }
  | .enter =>
    if (s.fs.procs p).state = .runnable then .next true { s with active := p :: s.active } else .next false s
  | .leave => .next () { s with active := s.active.erase p }

abbrev Bprog := Prog Act Act.Res

def act (a : Act) : Bprog a.Res := call a

def panic {α : Type} [Inhabited α] (e : Fs.Panic) : Bprog α := do
  act (.fs (.panic e))
  return default

/-! ## Buffers -/

def ofCache {α : Type} (x : Bcache.Kprog Block α) : Bprog α := x.subst fun a => act (.cache a)

def bread (b : Nat) : Bprog Nat := ofCache (Bcache.bread true ROOTDEV (UInt32.ofNat b))

def bwrite (bp : Nat) : Bprog Unit := ofCache (Bcache.bwrite true bp)

def brelse (bp : Nat) : Bprog Unit := ofCache (Bcache.brelse bp)

def logWrite (bp : Nat) : Bprog Unit := ofCache (Bcache.logWrite true bp)

/-- `bp->data`. -/
def data (bp : Nat) : Bprog Block := do
  let x ← act (.cache (.buf bp))
  return x.data

def modify (bp : Nat) (f : Block → Block) : Bprog Unit := act (.cache (.modify bp f))

/-! ## The log -/

def writeHead : Bprog Unit := do
  let l ← act (.cache .log)
  let buf ← bread l.start.toNat
  modify buf fun d =>
    Log.fillSectors ⟨l.n, fun i => l.sector i⟩ (setWord d 0 (UInt32.ofNat l.n)) l.n
  bwrite buf
  brelse buf

/-- The loop of `install_trans` from log block `tail` on, for at most `n` rounds. -/
def installFrom : Nat → Nat → Bprog Unit
  | 0, _ => pure ()
  | n + 1, tail => do
    let l ← act (.cache .log)
    if tail < l.n then
      let lbuf ← bread (l.start.toNat + tail + 1)
      let dbuf ← bread (l.sector tail).toNat
      let d ← data lbuf
      modify dbuf fun _ => d
      bwrite dbuf
      brelse lbuf
      brelse dbuf
      installFrom n (tail + 1)

def installTrans : Bprog Unit := do
  let l ← act (.cache .log)
  installFrom l.n 0

def commitTrans : Bprog Unit := do
  let l ← act (.cache .log)
  if 0 < l.n then
    writeHead
    installTrans
    act (.cache (.logN 0))
    writeHead
  act .endTrans

/-! ## Blocks -/

def readsb : Bprog Superblock := do
  let bp ← bread 1
  let d ← data bp
  brelse bp
  return superblock fun _ => d

def bzero (b : Nat) : Bprog Unit := do
  let bp ← bread b
  modify bp fun _ => 0
  logWrite bp
  brelse bp

def ballocFrom (sb : Superblock) : Nat → Nat → Bprog Nat
  | 0, _ => panic .outOfBlocks
  | n + 1, b =>
    if b < sb.size then do
      let bp ← bread (bblock b sb.ninodes)
      let d ← data bp
      match freeBit d b sb.size BPB 0 with
      | some bi =>
        modify bp fun d => d.setBit bi
        logWrite bp
        brelse bp
        bzero (b + bi)
        return b + bi
      | none =>
        brelse bp
        ballocFrom sb n (b + BPB)
    else panic .outOfBlocks

def balloc : Bprog Nat := do
  let sb ← readsb
  ballocFrom sb (sb.size / BPB + 1) 0

def bfree (b : Nat) : Bprog Unit := do
  let sb ← readsb
  let bp ← bread (bblock b sb.ninodes)
  let d ← data bp
  if Bytes.bitAt d.byteAt (b % BPB) then
    modify bp fun d => d.clearBit (b % BPB)
    logWrite bp
    brelse bp
  else panic .freeingFreeBlock

/-! ## Inodes -/

def inode (i : Nat) : Bprog Dinode := act (.fs (.inode i))

def setIno (i : Nat) (ip : Dinode) : Bprog Unit := act (.setIno i ip)

def iallocTry (i : Nat) (type : UInt16) : Bprog Bool := do
  let bp ← bread (iblock i)
  let d ← data bp
  if (Dinode.load d (i % IPB)).type = 0 then
    modify bp fun d => Dinode.store { Dinode.zero with type := type } d (i % IPB)
    logWrite bp
    brelse bp
    return true
  else
    brelse bp
    return false

def iupdate (i : Nat) : Bprog Unit := do
  let bp ← bread (iblock i)
  let ip ← inode i
  modify bp fun d => ip.store d (i % IPB)
  logWrite bp
  brelse bp

/-- `ilock` from the point where it has the inode. -/
def ilockLoad (i : Nat) : Bprog Unit := do
  let c ← act (.entry i)
  if c.valid then pure ()
  else
    let bp ← bread (iblock i)
    let d ← data bp
    setIno i (Dinode.load d (i % IPB))
    brelse bp
    act (.setValid i)
    if (Dinode.load d (i % IPB)).type = 0 then panic .noType

def bmapEntry (addr bn : Nat) : Bprog Nat := do
  let bp ← bread addr
  let d ← data bp
  if wordAt d bn = 0 then
    let addr ← balloc
    modify bp fun d => setWord d bn (UInt32.ofNat addr)
    logWrite bp
    brelse bp
    return addr
  else
    brelse bp
    return (wordAt d bn).toNat

/-- The disk block address of block `bn` of inode `i`; if there is no such block, allocate one. -/
def bmap (i bn : Nat) : Bprog Nat := do
  let ip ← inode i
  if bn < NDIRECT then
    if ip.addr bn = 0 then
      let addr ← balloc
      setIno i (ip.setAddr bn (UInt32.ofNat addr))
      return addr
    else return (ip.addr bn).toNat
  else if bn - NDIRECT < NINDIRECT then
    -- Load indirect block, allocating if necessary.
    if ip.addr NDIRECT = 0 then
      let addr ← balloc
      setIno i (ip.setAddr NDIRECT (UInt32.ofNat addr))
      bmapEntry addr (bn - NDIRECT)
    else bmapEntry (ip.addr NDIRECT).toNat (bn - NDIRECT)
  else panic .bmapOutOfRange

def truncDirect (i : Nat) : Nat → Bprog Unit
  | 0 => pure ()
  | n + 1 => do
    truncDirect i n
    let ip ← inode i
    if ip.addr n = 0 then pure ()
    else
      bfree (ip.addr n).toNat
      setIno i (ip.setAddr n 0)

/-- The loop of `itrunc` over the entries `a` of the indirect block, after `n` iterations. -/
def truncEntries (a : Block) : Nat → Bprog Unit
  | 0 => pure ()
  | n + 1 => do
    truncEntries a n
    if wordAt a n = 0 then pure () else bfree (wordAt a n).toNat

def truncIndirect (i : Nat) : Bprog Unit := do
  let ip ← inode i
  if ip.addr NDIRECT = 0 then pure ()
  else
    let bp ← bread (ip.addr NDIRECT).toNat
    let a ← data bp
    truncEntries a NINDIRECT
    brelse bp
    bfree (ip.addr NDIRECT).toNat
    setIno i (ip.setAddr NDIRECT 0)

def itrunc (i : Nat) : Bprog Unit := do
  truncDirect i NDIRECT
  truncIndirect i
  let ip ← inode i
  setIno i { ip with size := 0 }
  iupdate i

/-- Assignments to an in-memory inode, and `iupdate`. -/
def edit (i : Nat) (e : Edit) : Bprog Unit := do
  let ip ← inode i
  setIno i (e.apply ip)
  iupdate i

def readLoop (i : Nat) : Nat → Nat → Nat → Bprog (List UInt8)
  | 0, _, _ => pure []
  | fuel + 1, off, n =>
    if n = 0 then pure []
    else do
      let addr ← bmap i (off / BSIZE)
      let bp ← bread addr
      let d ← data bp
      let m := min n (BSIZE - off % BSIZE)
      brelse bp
      let rest ← readLoop i fuel (off + m) (n - m)
      return Bytes.slice d.byteAt (off % BSIZE) m ++ rest

def readi (i off n : Nat) : Bprog (Option (List UInt8)) := do
  let ip ← inode i
  if ip.size.toNat < off ∨ (off + n) % 2 ^ 32 < off then return none
  else
    let n := if ip.size.toNat < (off + n) % 2 ^ 32 then ip.size.toNat - off else n
    return some (← readLoop i n off n)

def writeLoop (i : Nat) : Nat → Nat → List UInt8 → Bprog Unit
  | 0, _, _ => pure ()
  | fuel + 1, off, src =>
    if src.length = 0 then pure ()
    else do
      let addr ← bmap i (off / BSIZE)
      let bp ← bread addr
      let m := min src.length (BSIZE - off % BSIZE)
      modify bp fun d => d.splice (off % BSIZE) (src.take m)
      logWrite bp
      brelse bp
      writeLoop i fuel (off + m) (src.drop m)

def writei (i off : Nat) (src : List UInt8) : Bprog (Option Nat) := do
  let n := src.length
  let ip ← inode i
  if ip.size.toNat < off ∨ (off + n) % 2 ^ 32 < off then return none
  else if MAXFILE * BSIZE < (off + n) % 2 ^ 32 then return none
  else
    writeLoop i n off src
    let ip ← inode i
    if 0 < n ∧ ip.size.toNat < off + n then
      setIno i { ip with size := UInt32.ofNat (off + n) }
      iupdate i
    return some n

/-! ## Directories -/

def readDirent (e : Fs.Panic) (dp off : Nat) : Bprog Dirent := do
  match ← readi dp off direntSize with
  | some l =>
    if l.length = direntSize then return Dirent.ofBytes l
    else
      act (.fs (.panic e))
      return ⟨0, []⟩
  | none =>
    act (.fs (.panic e))
    return ⟨0, []⟩

def lookupFrom (name : List UInt8) (dp : Nat) : Nat → Nat → Bprog (Option (Nat × Nat))
  | 0, _ => pure none
  | n + 1, off => do
    let d ← inode dp
    if off < d.size.toNat then
      let de ← readDirent .dirlinkRead dp off
      if de.inum ≠ 0 ∧ namecmp name de.name = 0 then
        act (.fs (.iget de.inum.toNat))
        return some (de.inum.toNat, off)
      else lookupFrom name dp n (off + direntSize)
    else return none

def dirlookup (dp : Nat) (name : List UInt8) : Bprog (Option (Nat × Nat)) := do
  let d ← inode dp
  if d.type ≠ T_DIR then panic .dirlookupNotDir
  else lookupFrom name dp (d.size.toNat / direntSize + 1) 0

def emptyFrom (dp : Nat) : Nat → Nat → Bprog Nat
  | 0, off => pure off
  | n + 1, off => do
    let d ← inode dp
    if off < d.size.toNat then
      let de ← readDirent .dirlinkRead dp off
      if de.inum = 0 then return off else emptyFrom dp n (off + direntSize)
    else return off

def emptyDirent (dp : Nat) : Bprog Nat := do
  let d ← inode dp
  emptyFrom dp (d.size.toNat / direntSize + 1) 0

def isdiremptyFrom (dp : Nat) : Nat → Nat → Bprog Bool
  | 0, _ => pure true
  | n + 1, off => do
    let d ← inode dp
    if off < d.size.toNat then
      let de ← readDirent .isdiremptyReadi dp off
      if de.inum ≠ 0 then return false else isdiremptyFrom dp n (off + direntSize)
    else return true

def isdirempty (dp : Nat) : Bprog Bool := do
  let d ← inode dp
  isdiremptyFrom dp (d.size.toNat / direntSize + 1) (2 * direntSize)

/-! ## System calls -/

/-- The program that an action of `Kernel` stands for. -/
def expand (a : Fs.Act) : Bprog a.Res :=
  match a with
  | .beginTrans => act .beginTrans
  | .commitTrans => commitTrans
  | .readsb => readsb
  | .iallocTry i type => iallocTry i type
  | .ilockLoad i => ilockLoad i
  | .itrunc i => itrunc i
  | .edit i e => edit i e
  | .readi i off n => readi i off n
  | .writei i off src => writei i off src
  | .dirlookup dp name => dirlookup dp name
  | .emptyDirent dp => emptyDirent dp
  | .isdirempty dp => isdirempty dp
  | a => act (.fs a)

inductive Call where
  | sys (x : Syscall)
  /-- The disk is done with a command. -/
  | interrupt

def Call.body : Call → Bprog Unit
  | .sys x => do
    if ← act .enter then
      x.body.subst expand
      act .leave
  | .interrupt => act (.cache .ideintr)

/-- Any number of processes over a cache of `nbuf` buffers. -/
def fileSystem (nbuf : Nat) : Machine Pid Act Act.Res Call State Panic where
  exec := exec nbuf
  body := Call.body
  canCall := fun _ _ => True

/-- The sector that the disk finds for what is in its address registers. -/
def sectorOf (a : Bcache.Ports) : Nat :=
  a.low.toNat + 2 ^ 8 * a.mid.toNat + 2 ^ 16 * a.high.toNat + 2 ^ 24 * (a.drive.toNat % 16)

def boot (nbuf : Nat) (d : Table Block) : State where
  fs := Fs.boot d
  cache := Bcache.boot nbuf 0 (fun a => d (sectorOf a))
    ⟨0, .const 0, UInt32.ofNat ((superblock d).size - (superblock d).nlog), (superblock d).nlog, false⟩
  active := []

end Xv6.Buffered
