import Xv6.DiskFormat
import Xv6.Lib.Table
import Xv6.Log

/-!
# Blocks and files (`fs.c`)

An inode that a function gets as `struct inode *ip` is passed in and, where it changes, returned; `i`
is its number. The buffer cache is one function from block numbers to contents, and the log is
present through what `log_write` tests and changes in memory.
-/

namespace Xv6.Fs

abbrev Pid := Nat

inductive Panic where
  | tooBigTransaction
  | writeOutsideTrans
  | outOfBlocks
  | freeingFreeBlock
  | noInodes
  | igetNoInodes
  | ilock
  | noType
  | iunlock
  | iputBusy
  | bmapOutOfRange
  | dirlookupNotDir
  | dirlinkRead
  | dirlink
  | unlinkNlink
  | isdiremptyReadi
  | unlinkWritei
  | createDots
  | createDirlink
  | filedup
  | fileclose
  | fileread
  | filewrite
  | shortFilewrite
  | initExiting
deriving DecidableEq

/-- The log in memory. `busy` also says who began the transaction, which the kernel's flag
does not record. -/
structure Trans where
  busy : Option Pid
  size : Nat
  sectors : List Nat

/-- What block operations see. `caller` is the process on the CPU. Two records are kept for
the proofs only: `writes` has, for each `log_write`, its caller and the owner of the
transaction at that time, and `allocs` has, for each block allocated, the disk before the
call and the block. -/
structure Store where
  disk : Table Block
  log : Trans
  caller : Pid
  writes : List (Pid × Option Pid)
  allocs : List (Table Block × Nat)

abbrev FsM := EStateM Panic Store

def bread (b : Nat) : FsM Block := do
  let s ← get
  return s.disk b

/-- `log_write(bp)` for the buffer of block `b`, whose contents have become `data`. -/
def logWrite (b : Nat) (data : Block) : FsM Unit := do
  let s ← get
  if Log.LOGSIZE ≤ s.log.sectors.length ∨ s.log.size - 1 ≤ s.log.sectors.length then
    throw .tooBigTransaction
  else if s.log.busy = none then
    throw .writeOutsideTrans
  else
    set { s with
      disk := s.disk.set b data
      log := { s.log with
        sectors := if b ∈ s.log.sectors then s.log.sectors else s.log.sectors ++ [b] }
      writes := (s.caller, s.log.busy) :: s.writes }

def readsb : FsM Superblock := do
  let s ← get
  return superblock s.disk

def bzero (b : Nat) : FsM Unit := logWrite b 0

/-- The inner loop of `balloc` from bit `bi` on, for at most `n` rounds. -/
def freeBit (data : Block) (b size : Nat) : Nat → Nat → Option Nat
  | 0, _ => none
  | n + 1, bi =>
    if bi < BPB ∧ b + bi < size then
      if Bytes.bitAt data.byteAt bi then freeBit data b size n (bi + 1) else some bi
    else none

/-- The outer loop of `balloc` from block `b` on, for at most `n` rounds. -/
def ballocFrom (sb : Superblock) : Nat → Nat → FsM Nat
  | 0, _ => throw .outOfBlocks
  | n + 1, b =>
    if b < sb.size then do
      let bp ← bread (bblock b sb.ninodes)
      match freeBit bp b sb.size BPB 0 with
      | some bi =>
        logWrite (bblock b sb.ninodes) (bp.setBit bi)
        bzero (b + bi)
        return b + bi
      | none => ballocFrom sb n (b + BPB)
    else throw .outOfBlocks

def balloc : FsM Nat := do
  let before := (← get).disk
  let sb ← readsb
  let b ← ballocFrom sb (sb.size / BPB + 1) 0
  modify fun s => { s with allocs := (before, b) :: s.allocs }
  return b

def bfree (b : Nat) : FsM Unit := do
  let sb ← readsb
  let bp ← bread (bblock b sb.ninodes)
  if Bytes.bitAt bp.byteAt (b % BPB) then
    logWrite (bblock b sb.ninodes) (bp.clearBit (b % BPB))
  else throw .freeingFreeBlock

/-- The body of the loop of `ialloc`: take inode `i` if it is free. -/
def iallocTry (i : Nat) (type : UInt16) : FsM Bool := do
  let bp ← bread (iblock i)
  if (Dinode.load bp (i % IPB)).type = 0 then
    logWrite (iblock i) (Dinode.store { Dinode.zero with type := type } bp (i % IPB))
    return true
  else return false

def iupdate (i : Nat) (ip : Dinode) : FsM Unit := do
  let bp ← bread (iblock i)
  logWrite (iblock i) (Dinode.store ip bp (i % IPB))

/-- The address of file block `bn`, and the inode, changed if the block was allocated. -/
def bmap (ip : Dinode) (bn : Nat) : FsM (Nat × Dinode) :=
  if bn < NDIRECT then
    if ip.addr bn = 0 then do
      let addr ← balloc
      return (addr, ip.setAddr bn (UInt32.ofNat addr))
    else return ((ip.addr bn).toNat, ip)
  else if bn - NDIRECT < NINDIRECT then do
    -- Load indirect block, allocating if necessary.
    let ip ← if ip.addr NDIRECT = 0 then do
        let addr ← balloc
        pure (ip.setAddr NDIRECT (UInt32.ofNat addr))
      else pure ip
    let bp ← bread (ip.addr NDIRECT).toNat
    if wordAt bp (bn - NDIRECT) = 0 then do
      let addr ← balloc
      logWrite (ip.addr NDIRECT).toNat (setWord bp (bn - NDIRECT) (UInt32.ofNat addr))
      return (addr, ip)
    else return ((wordAt bp (bn - NDIRECT)).toNat, ip)
  else throw .bmapOutOfRange

/-- The first loop of `itrunc` after `n` iterations. -/
def truncDirect (ip : Dinode) : Nat → FsM Dinode
  | 0 => pure ip
  | n + 1 => do
    let ip ← truncDirect ip n
    if ip.addr n = 0 then pure ip
    else
      bfree (ip.addr n).toNat
      pure (ip.setAddr n 0)

/-- The loop of `itrunc` over the entries `a` of the indirect block, after `n` iterations. -/
def truncIndirect (a : Block) : Nat → FsM Unit
  | 0 => pure ()
  | n + 1 => do
    truncIndirect a n
    if wordAt a n = 0 then pure () else bfree (wordAt a n).toNat

def itrunc (i : Nat) (ip : Dinode) : FsM Dinode := do
  let ip ← truncDirect ip NDIRECT
  let ip ← if ip.addr NDIRECT = 0 then pure ip
    else do
      let a ← bread (ip.addr NDIRECT).toNat
      truncIndirect a NINDIRECT
      bfree (ip.addr NDIRECT).toNat
      pure (ip.setAddr NDIRECT 0)
  let ip := { ip with size := 0 }
  iupdate i ip
  return ip

/-- The loop of `readi` for the `n` bytes at `off`, in at most `fuel` rounds. -/
def readLoop : Nat → Dinode → Nat → Nat → FsM (List UInt8 × Dinode)
  | 0, ip, _, _ => pure ([], ip)
  | fuel + 1, ip, off, n =>
    if n = 0 then pure ([], ip)
    else do
      let (addr, ip) ← bmap ip (off / BSIZE)
      let bp ← bread addr
      let m := min n (BSIZE - off % BSIZE)
      let (rest, ip) ← readLoop fuel ip (off + m) (n - m)
      return (Bytes.slice bp.byteAt (off % BSIZE) m ++ rest, ip)

/-- `readi` for an inode that is not a device: the bytes read, or `none` for -1. -/
def readi (ip : Dinode) (off n : Nat) : FsM (Option (List UInt8) × Dinode) :=
  if ip.size.toNat < off ∨ (off + n) % 2 ^ 32 < off then pure (none, ip)
  else do
    let n := if ip.size.toNat < (off + n) % 2 ^ 32 then ip.size.toNat - off else n
    let (data, ip) ← readLoop n ip off n
    return (some data, ip)

/-- The loop of `writei` for the bytes `src` at `off`, in at most `fuel` rounds. -/
def writeLoop : Nat → Dinode → Nat → List UInt8 → FsM Dinode
  | 0, ip, _, _ => pure ip
  | fuel + 1, ip, off, src =>
    if src.length = 0 then pure ip
    else do
      let (addr, ip) ← bmap ip (off / BSIZE)
      let bp ← bread addr
      let m := min src.length (BSIZE - off % BSIZE)
      logWrite addr (bp.splice (off % BSIZE) (src.take m))
      writeLoop fuel ip (off + m) (src.drop m)

/-- `writei` for an inode that is not a device: the number of bytes written, or `none` for
-1. -/
def writei (i : Nat) (ip : Dinode) (off : Nat) (src : List UInt8) :
    FsM (Option Nat × Dinode) :=
  let n := src.length
  if ip.size.toNat < off ∨ (off + n) % 2 ^ 32 < off then pure (none, ip)
  else if MAXFILE * BSIZE < (off + n) % 2 ^ 32 then pure (none, ip)
  else do
    let ip ← writeLoop n ip off src
    if 0 < n ∧ ip.size.toNat < off + n then
      let ip := { ip with size := UInt32.ofNat (off + n) }
      iupdate i ip
      return (some n, ip)
    else return (some n, ip)

end Xv6.Fs
