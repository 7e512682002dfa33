import Xv6.Directory

/-!
# Building a file system image (`mkfs.c`)

A failed assertion and a failed read of the image file leave no image.
-/

namespace Xv6.Mkfs

open Fs

def nblocks : Nat := 985
def nlog : Nat := Log.LOGSIZE
def ninodes : Nat := 200
def size : Nat := 1024
def bitblocks : Nat := size / (512 * 8) + 1

/-- The globals of `mkfs`, with the image file as a disk. -/
structure Image where
  disk : Table Block
  freeblock : Nat
  usedblocks : Nat
  freeinode : Nat

def zeroes : Block := 0

def wsect (m : Image) (sec : Nat) (buf : Block) : Image :=
  { m with disk := m.disk.set sec buf }

/-- Reading past the end of the image file fails. The file has `size` sectors: a sector is
written only after it has been read. -/
def rsect (m : Image) (sec : Nat) : Option Block := if sec < size then some (m.disk sec) else none

def winode (m : Image) (inum : Nat) (ip : Dinode) : Option Image := do
  let buf ← rsect m (iblock inum)
  some (wsect m (iblock inum) (ip.store buf (inum % IPB)))

def rinode (m : Image) (inum : Nat) : Option Dinode := do
  let buf ← rsect m (iblock inum)
  some (Dinode.load buf (inum % IPB))

def format : Image :=
  let buf := setWord zeroes 0 (UInt32.ofNat size)
  let buf := setWord buf 1 (UInt32.ofNat nblocks)
  let buf := setWord buf 2 (UInt32.ofNat ninodes)
  let buf := setWord buf 3 (UInt32.ofNat nlog)
  let used := ninodes / IPB + 3 + bitblocks
  wsect ⟨.const zeroes, used, used, 1⟩ 1 buf

def ialloc (m : Image) (type : UInt16) : Option (Nat × Image) := do
  let inum := m.freeinode
  let m ← winode { m with freeinode := inum + 1 } inum { Dinode.zero with type := type, nlink := 1 }
  some (inum, m)

/-- `freeblock++`, `usedblocks++`. -/
def newBlock (m : Image) : Nat × Image :=
  (m.freeblock, { m with freeblock := m.freeblock + 1, usedblocks := m.usedblocks + 1 })

/-- The indirect block of `din`, taking a new one if there is none. -/
def indirectFor (m : Image) (din : Dinode) : Dinode × Image :=
  if din.addr NDIRECT = 0 then
    let (b, m) := newBlock m
    (din.setAddr NDIRECT (UInt32.ofNat b), m)
  else (din, m)

/-- The block that holds file block `fbn` of `din`, taking a new one if there is none. -/
def blockFor (m : Image) (din : Dinode) (fbn : Nat) : Option (Nat × Dinode × Image) :=
  if fbn < NDIRECT then
    if din.addr fbn = 0 then
      let (b, m) := newBlock m
      some (b, din.setAddr fbn (UInt32.ofNat b), m)
    else some ((din.addr fbn).toNat, din, m)
  else do
    let (din, m) := indirectFor m din
    let ind := (din.addr NDIRECT).toNat
    let indirect ← rsect m ind
    if wordAt indirect (fbn - NDIRECT) = 0 then
      let (b, m) := newBlock m
      some (b, din, wsect m ind (setWord indirect (fbn - NDIRECT) (UInt32.ofNat b)))
    else some ((wordAt indirect (fbn - NDIRECT)).toNat, din, m)

/-- The loop of `iappend` for the bytes `p` at `off`, in at most `fuel` rounds. -/
def appendLoop : Nat → Image → Dinode → Nat → List UInt8 → Option (Image × Dinode × Nat)
  | 0, m, din, off, _ => some (m, din, off)
  | fuel + 1, m, din, off, p =>
    if p.length = 0 then some (m, din, off)
    else
      let fbn := off / 512
      if MAXFILE ≤ fbn then none
      else do
        let (x, din, m) ← blockFor m din fbn
        let n1 := min p.length ((fbn + 1) * 512 - off)
        let buf ← rsect m x
        appendLoop fuel (wsect m x (buf.splice (off - fbn * 512) (p.take n1))) din (off + n1) (p.drop n1)

def iappend (m : Image) (inum : Nat) (p : List UInt8) : Option Image := do
  let din ← rinode m inum
  let (m, din, off) ← appendLoop p.length m din din.size.toNat p
  winode m inum { din with size := UInt32.ofNat off }

def appendDirent (m : Image) (inum : Nat) (name : List UInt8) : Option Image :=
  iappend m ROOTINO (Dirent.bytes ⟨UInt16.ofNat inum, strncpy name⟩)

/-- `while((cc = read(fd, buf, sizeof(buf))) > 0) iappend(inum, buf, cc);` where `reads` are the
bytes that the calls of `read` return. -/
def copyFile (inum : Nat) : Image → List (List UInt8) → Option Image
  | m, [] => some m
  | m, buf :: reads => do
    let m ← iappend m inum buf
    copyFile inum m reads

/-- An input file: its name on the command line, and its contents in the pieces that `read`
delivers. -/
structure Input where
  name : List UInt8
  reads : List (List UInt8)
  name_string : 0 ∉ name
  reads_fit : ∀ buf ∈ reads, 0 < buf.length ∧ buf.length ≤ 512

def Input.contents (f : Input) : List UInt8 := f.reads.flatten

/-- The name in the root directory, without a leading `_`. -/
def Input.entryName (f : Input) : List UInt8 := if f.name.head? = some 95 then f.name.tail else f.name

def addFile (m : Image) (f : Input) : Option Image :=
  if slash ∈ f.name then none
  else do
    let (inum, m) ← ialloc m T_FILE
    let m ← appendDirent m inum f.entryName
    copyFile inum m f.reads

def addFiles (m : Image) : List Input → Option Image
  | [] => some m
  | f :: files => do
    let m ← addFile m f
    addFiles m files

/-- "fix size of root inode dir" -/
def fixRoot (m : Image) : Option Image := do
  let din ← rinode m ROOTINO
  let off := (din.size.toNat / BSIZE + 1) * BSIZE
  winode m ROOTINO { din with size := UInt32.ofNat off }

def usedBits : Nat → Block
  | 0 => zeroes
  | n + 1 => (usedBits n).setBit n

def balloc (m : Image) (used : Nat) : Option Image :=
  if used < 512 * 8 then some (wsect m (ninodes / IPB + 3) (usedBits used)) else none

def makeRoot : Option Image := do
  let (rootino, m) ← ialloc format T_DIR
  let m ← appendDirent m rootino dot
  appendDirent m rootino dotdot

/-- The image before the bitmap is written. -/
def copyIn (files : List Input) : Option Image := do
  let m ← makeRoot
  let m ← addFiles m files
  fixRoot m

def mkfs (files : List Input) : Option Image := do
  let m ← copyIn files
  balloc m m.usedblocks

end Xv6.Mkfs
