import Xv6.Disk
import Mathlib.Logic.Function.Basic

/-!
# On-disk file system format (`fs.h`)

An unused block, the super block, the inode blocks, the free bitmap, the data blocks and the log.
-/

namespace Xv6.Fs

def ROOTINO : Nat := 1
def NDIRECT : Nat := 12
def NINDIRECT : Nat := 128
def MAXFILE : Nat := NDIRECT + NINDIRECT
def IPB : Nat := 8
def BPB : Nat := BSIZE * 8
def DIRSIZ : Nat := 14

instance (priority := 2000) : NeZero (NDIRECT + 1) := ⟨Nat.succ_ne_zero _⟩

def T_DIR : UInt16 := 1
def T_FILE : UInt16 := 2
def T_DEV : UInt16 := 3

structure Superblock where
  size : Nat
  nblocks : Nat
  ninodes : Nat
  nlog : Nat
deriving DecidableEq

def superblock (d : Disk) : Superblock where
  size := (wordAt (d 1) 0).toNat
  nblocks := (wordAt (d 1) 1).toNat
  ninodes := (wordAt (d 1) 2).toNat
  nlog := (wordAt (d 1) 3).toNat

/-- `struct dinode`, and the fields `struct inode` copies from it. -/
@[ext] structure Dinode where
  type : UInt16
  major : UInt16
  minor : UInt16
  nlink : UInt16
  size : UInt32
  addrs : Fin (NDIRECT + 1) → UInt32

namespace Dinode

def zero : Dinode := ⟨0, 0, 0, 0, 0, fun _ => 0⟩

/-- `addrs[k]`. -/
def addr (d : Dinode) (k : Nat) : UInt32 := if h : k < NDIRECT + 1 then d.addrs ⟨k, h⟩ else 0

/-- `addrs[k] = a`. -/
def setAddr (d : Dinode) (k : Nat) (a : UInt32) : Dinode :=
  { d with addrs := fun j => if j.val = k then a else d.addrs j }

/-- `(struct dinode*)data + k`, read. -/
def load (b : Block) (k : Nat) : Dinode where
  type := UInt16.ofNat (Bytes.loadLE b.byteAt (64 * k) 2)
  major := UInt16.ofNat (Bytes.loadLE b.byteAt (64 * k + 2) 2)
  minor := UInt16.ofNat (Bytes.loadLE b.byteAt (64 * k + 4) 2)
  nlink := UInt16.ofNat (Bytes.loadLE b.byteAt (64 * k + 6) 2)
  size := UInt32.ofNat (Bytes.loadLE b.byteAt (64 * k + 8) 4)
  addrs := fun j => UInt32.ofNat (Bytes.loadLE b.byteAt (64 * k + 12 + 4 * j.val) 4)

/-- `memmove(dip->addrs, ip->addrs, ..)`, the first `n` addresses. -/
def storeAddrs (d : Dinode) (b : Block) (k : Nat) : Nat → Block
  | 0 => b
  | n + 1 => (storeAddrs d b k n).storeLE (64 * k + 12 + 4 * n) 4 (d.addr n).toNat

/-- `(struct dinode*)data + k`, written. -/
def store (d : Dinode) (b : Block) (k : Nat) : Block :=
  let b := b.storeLE (64 * k) 2 d.type.toNat
  let b := b.storeLE (64 * k + 2) 2 d.major.toNat
  let b := b.storeLE (64 * k + 4) 2 d.minor.toNat
  let b := b.storeLE (64 * k + 6) 2 d.nlink.toNat
  let b := b.storeLE (64 * k + 8) 4 d.size.toNat
  storeAddrs d b k (NDIRECT + 1)

end Dinode

def iblock (i : Nat) : Nat := i / IPB + 2

def bblock (b ninodes : Nat) : Nat := b / BPB + ninodes / IPB + 3

def dinode (d : Disk) (i : Nat) : Dinode := Dinode.load (d (iblock i)) (i % IPB)

def inUse (d : Disk) (ninodes b : Nat) : Bool := Bytes.bitAt (d (bblock b ninodes)).byteAt (b % BPB)

/-- `struct dirent`; `name` has `DIRSIZ` bytes. -/
structure Dirent where
  inum : UInt16
  name : List UInt8
deriving DecidableEq

namespace Dirent

def ofBytes (l : List UInt8) : Dirent where
  inum := UInt16.ofNat ((l.getD 0 0).toNat + 256 * (l.getD 1 0).toNat)
  name := l.drop 2

def bytes (de : Dirent) : List UInt8 :=
  UInt8.ofNat de.inum.toNat :: UInt8.ofNat (de.inum.toNat / 256) :: de.name

end Dirent

/-- `strncmp(p, q, n)`, reading past the end of a list as the terminating zero. -/
def strncmp : Nat → List UInt8 → List UInt8 → Int
  | 0, _, _ => 0
  | n + 1, p, q =>
    if p.headD 0 ≠ 0 ∧ p.headD 0 = q.headD 0 then strncmp n p.tail q.tail
    else (p.headD 0).toNat - (q.headD 0).toNat

def namecmp (s t : List UInt8) : Int := strncmp DIRSIZ s t

/-- `strncpy(de.name, name, DIRSIZ)`. -/
def strncpy (name : List UInt8) : List UInt8 :=
  let c := (name.take DIRSIZ).takeWhile (· ≠ 0)
  c ++ List.replicate (DIRSIZ - c.length) 0

/-! ## Block addresses of a file -/

/-- Number of the place in an inode that holds the address of file block `bn`: the direct
addresses are places 0 to 11, the indirect block is place 12 and its entries follow. -/
def place (bn : Nat) : Nat := if bn < NDIRECT then bn else bn + 1

/-- The block address at place `k` of an inode, 0 for none. -/
def addrAt (d : Disk) (r : Dinode) (k : Nat) : Nat :=
  if k ≤ NDIRECT then (r.addr k).toNat
  else if r.addr NDIRECT = 0 ∨ NINDIRECT ≤ k - (NDIRECT + 1) then 0
  else (wordAt (d (r.addr NDIRECT).toNat) (k - (NDIRECT + 1))).toNat

end Xv6.Fs
