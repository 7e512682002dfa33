import Xv6.Inode

/-!
# Directories and paths (`fs.c`, `sysfile.c`)

Strings are lists of bytes without the terminating zero.
-/

namespace Xv6.Fs

/-- `sizeof(struct dirent)`. -/
def direntSize : Nat := 16

/-- `readi(dp, (char*)&de, off, sizeof(de))`, which panics with `e` if it comes up short. -/
def readDirent (e : Panic) (dp : Dinode) (off : Nat) : FsM (Dirent × Dinode) := do
  let (r, dp) ← readi dp off direntSize
  match r with
  | some l => if l.length = direntSize then return (Dirent.ofBytes l, dp) else throw e
  | none => throw e

/-- The loop of `dirlookup` from offset `off` on, for at most `n` rounds. -/
def lookupFrom (name : List UInt8) : Nat → Dinode → Nat → FsM (Option (Nat × Nat) × Dinode)
  | 0, dp, _ => pure (none, dp)
  | n + 1, dp, off =>
    if off < dp.size.toNat then do
      let (de, dp) ← readDirent .dirlinkRead dp off
      if de.inum ≠ 0 ∧ namecmp name de.name = 0 then return (some (de.inum.toNat, off), dp)
      else lookupFrom name n dp (off + direntSize)
    else pure (none, dp)

def dirlookup (dp : Dinode) (name : List UInt8) : FsM (Option (Nat × Nat) × Dinode) :=
  if dp.type ≠ T_DIR then throw .dirlookupNotDir
  else lookupFrom name (dp.size.toNat / direntSize + 1) dp 0

/-- The loop of `dirlink` that looks for an empty entry, from offset `off` on and for at most
`n` rounds: the offset at which it stops. -/
def emptyFrom : Nat → Dinode → Nat → FsM (Nat × Dinode)
  | 0, dp, off => pure (off, dp)
  | n + 1, dp, off =>
    if off < dp.size.toNat then do
      let (de, dp) ← readDirent .dirlinkRead dp off
      if de.inum = 0 then return (off, dp) else emptyFrom n dp (off + direntSize)
    else pure (off, dp)

/-- Where `dirlink` puts a new entry. -/
def emptyDirent (dp : Dinode) : FsM (Nat × Dinode) :=
  emptyFrom (dp.size.toNat / direntSize + 1) dp 0

/-- The loop of `isdirempty` from offset `off` on, for at most `n` rounds. -/
def isdiremptyFrom : Nat → Dinode → Nat → FsM (Bool × Dinode)
  | 0, dp, _ => pure (true, dp)
  | n + 1, dp, off =>
    if off < dp.size.toNat then do
      let (de, dp) ← readDirent .isdiremptyReadi dp off
      if de.inum ≠ 0 then return (false, dp) else isdiremptyFrom n dp (off + direntSize)
    else pure (true, dp)

def isdirempty (dp : Dinode) : FsM (Bool × Dinode) :=
  isdiremptyFrom (dp.size.toNat / direntSize + 1) dp (2 * direntSize)

def dot : List UInt8 := [46]
def dotdot : List UInt8 := [46, 46]
def slash : UInt8 := 47

/-- The next path element, cut to `DIRSIZ` bytes, and the path after it; `none` if there is
no name to remove. -/
def skipelem (path : List UInt8) : Option (List UInt8 × List UInt8) :=
  let path := path.dropWhile (· = slash)
  if path = [] then none
  else
    some ((path.takeWhile (· ≠ slash)).take DIRSIZ,
      (path.dropWhile (· ≠ slash)).dropWhile (· = slash))

/-- The elements the loop of `namex` takes off a path, in at most `n` rounds. -/
def pathElems : Nat → List UInt8 → List (List UInt8)
  | 0, _ => []
  | n + 1, path =>
    match skipelem path with
    | none => []
    | some (name, rest) => name :: pathElems n rest

/-- The path `///a//bb`. -/
example : pathElems 8 [47, 47, 47, 97, 47, 47, 98, 98] = [[97], [98, 98]] := by decide

end Xv6.Fs
