import Xv6.Syscall
import Xv6.Disk

/-!
# Copies between files and user memory

`sys_read` and `sys_write` down to the loops that move bytes. What other processes do while the
caller sleeps or has released an inode lock is a parameter: the states it finds when it runs again.
-/

namespace Xv6

def PIPESIZE : Nat := 512

def MAXFILE : Nat := 12 + 128

def NDEV : Nat := 10

/-- Major number of the console, the only device with entries in `devsw`. -/
def CONSOLE : Int := 1

inductive FileType where
  | dir | file | dev
  deriving DecidableEq

namespace UserCopy

/-- What a transfer uses of a locked inode. -/
structure Inode where
  type : FileType
  major : Int
  size : Word
  data : Nat → UInt8

structure Pipe where
  data : Nat → UInt8
  nread : Word
  nwrite : Word
  readopen : Bool
  writeopen : Bool

/-- What a system call comes to: a return value, a process left asleep, or a panic. -/
inductive Ret where
  | val (r : Int)
  | asleep
  | panic
  deriving DecidableEq

/-- What `f->type` selects. -/
inductive FileKind where
  | none
  | pipe
  | inode

structure File where
  kind : FileKind
  readable : Bool
  writable : Bool

/-- What the process finds in the objects behind its file: the inode and offset at each
chunk of a transfer, the pipe when it starts and after each wakeup together with
`proc->killed`, and the console input that arrives before it is killed. -/
structure World where
  inode : Nat → Inode
  off : Nat → Word
  pipe : Pipe
  killed : Bool
  wakes : List (Pipe × Bool)
  input : List UInt8

/-- `memmove(dst, src, n)` into user memory. -/
def storeRange (u : User) (dst : Word) (src : Nat → UInt8) : Nat → User
  | 0 => u
  | n + 1 => (storeRange u dst src n).store (dst + BitVec.ofNat 32 n) (src n)

/-- `memmove(dst, src, n)` out of user memory; returns the bytes. -/
def loadRange (u : User) (src : Word) : Nat → List UInt8 × User
  | 0 => ([], u)
  | n + 1 =>
    let (bs, u) := loadRange u src n
    let (c, u) := u.load (src + BitVec.ofNat 32 n)
    (bs ++ [c], u)

/-- Number of bytes one iteration of `readi` or `writei` moves. -/
def chunk (n tot off : Nat) : Nat := min (n - tot) (BSIZE - off % BSIZE)

/-- The loop of `readi`, for at most `fuel` iterations. -/
def readiLoop (ip : Inode) (n : Nat) : Nat → Nat → Nat → Word → User → User
  | 0, _, _, _, u => u
  | fuel + 1, tot, off, dst, u =>
    if tot < n then
      let m := chunk n tot off
      let u := storeRange u dst (fun j => ip.data (off + j)) m
      readiLoop ip n fuel (tot + m) (off + m) (dst + BitVec.ofNat 32 m) u
    else u

/-- `consoleread`: stores characters until `n` are read or a line ends. -/
def consoleread (u : User) (dst : Word) (n target : Int) : List UInt8 → Ret × User
  | [] => if 0 < n then (.val (-1), u) else (.val (target - n), u)
  | c :: input =>
    if 0 < n then
      if c = 4 then (.val (target - n), u)
      else
        let u := u.store dst c
        if c = 10 then (.val (target - (n - 1)), u)
        else consoleread u (dst + 1) (n - 1) target input
    else (.val (target - n), u)

def readi (u : User) (ip : Inode) (input : List UInt8) (dst off n : Word) : Ret × User :=
  if ip.type = .dev then
    if ip.major < 0 ∨ ip.major ≥ NDEV ∨ ip.major ≠ CONSOLE then (.val (-1), u)
    else consoleread u dst n.toInt n.toInt input
  else if off > ip.size ∨ off + n < off then (.val (-1), u)
  else
    let n := if off + n > ip.size then ip.size - off else n
    (.val n.toInt, readiLoop ip n.toNat n.toNat 0 off.toNat dst u)

/-- The loop of `writei`; returns the bytes taken from user memory. -/
def writeiLoop (n : Nat) : Nat → Nat → Nat → Word → User → List UInt8 × User
  | 0, _, _, _, u => ([], u)
  | fuel + 1, tot, off, src, u =>
    if tot < n then
      let m := chunk n tot off
      let (bs, u) := loadRange u src m
      let (rest, u) := writeiLoop n fuel (tot + m) (off + m) (src + BitVec.ofNat 32 m) u
      (bs ++ rest, u)
    else ([], u)

def consolewrite (u : User) (buf : Word) (n : Int) : Int × List UInt8 × User :=
  let (bs, u) := loadRange u buf n.toNat
  (n, bs, u)

/-- Write data from user memory to an inode; returns the bytes written. -/
def writei (u : User) (ip : Inode) (src off n : Word) : Int × List UInt8 × User :=
  if ip.type = .dev then
    if ip.major < 0 ∨ ip.major ≥ NDEV ∨ ip.major ≠ CONSOLE then (-1, [], u)
    else consolewrite u src n.toInt
  else if off > ip.size ∨ off + n < off then (-1, [], u)
  else if (off + n).toNat > MAXFILE * BSIZE then (-1, [], u)
  else
    let (bs, u) := writeiLoop n.toNat n.toNat 0 off.toNat src u
    (n.toInt, bs, u)

/-- The copy loop of `piperead` with `left` iterations to go; returns the count. -/
def pipereadLoop (p : Pipe) (addr : Word) (i : Nat) : Nat → User → Nat × User
  | 0, u => (i, u)
  | left + 1, u =>
    if p.nread = p.nwrite then (i, u)
    else
      let u := u.store (addr + BitVec.ofNat 32 i) (p.data (p.nread.toNat % PIPESIZE))
      pipereadLoop { p with nread := p.nread + 1 } addr (i + 1) left u

/-- `piperead`: waits while the pipe is empty and its write side open. -/
def piperead (u : User) (addr : Word) (n : Int) : Pipe → Bool → List (Pipe × Bool) → Ret × User
  | p, killed, wakes =>
    if p.nread = p.nwrite ∧ p.writeopen then
      if killed then (.val (-1), u)
      else
        match wakes with
        | [] => (.asleep, u)
        | (p, killed) :: wakes => piperead u addr n p killed wakes
    else
      let (i, u) := pipereadLoop p addr 0 n.toNat u
      (.val i, u)

/-- The waiting loop of `pipewrite`: the pipe with room in it and the wakeups left, or how
the call ends here. -/
def waitRoom : Pipe → Bool → List (Pipe × Bool) → Ret ⊕ (Pipe × Bool × List (Pipe × Bool))
  | p, killed, wakes =>
    if p.nwrite = p.nread + BitVec.ofNat 32 PIPESIZE then
      if p.readopen = false ∨ killed then .inl (.val (-1))
      else
        match wakes with
        | [] => .inl .asleep
        | (p, killed) :: wakes => waitRoom p killed wakes
    else .inr (p, killed, wakes)

/-- `pipewrite` from byte `i`, with `left` bytes to go of `n`. -/
def pipewrite (u : User) (addr : Word) (n : Int) (i : Nat) :
    Nat → Pipe → Bool → List (Pipe × Bool) → Ret × User
  | 0, _, _, _ => (.val n, u)
  | left + 1, p, killed, wakes =>
    match waitRoom p killed wakes with
    | .inl r => (r, u)
    | .inr (p, killed, wakes) =>
      let (c, u) := u.load (addr + BitVec.ofNat 32 i)
      let p := { p with
        data := fun j => if j = p.nwrite.toNat % PIPESIZE then c else p.data j,
        nwrite := p.nwrite + 1 }
      pipewrite u addr n (i + 1) left p killed wakes

def fileread (u : User) (w : World) (f : File) (addr n : Word) : Ret × User :=
  if f.readable = false then (.val (-1), u)
  else
    match f.kind with
    | .pipe => piperead u addr n.toInt w.pipe w.killed w.wakes
    | .inode => readi u (w.inode 0) w.input addr (w.off 0) n
    | .none => (.panic, u)

/-- Bytes `filewrite` puts in one transaction. -/
def filewriteMax : Nat := ((10 - 1 - 1 - 2) / 2) * 512

/-- The loop of `filewrite` at byte `i`, on the inode and offset found at the `c`th
transaction. -/
def filewriteLoop (u : User) (w : World) (addr : Word) (n : Nat) : Nat → Nat → Nat → Ret × User
  | 0, _, i => (if i = n then .val n else .val (-1), u)
  | fuel + 1, c, i =>
    if i < n then
      let n1 := min (n - i) filewriteMax
      let (r, _, u) := writei u (w.inode c) (addr + BitVec.ofNat 32 i) (w.off c) (BitVec.ofNat 32 n1)
      if r < 0 then (.val (-1), u)
      else if r ≠ n1 then (.panic, u)
      else filewriteLoop u w addr n fuel (c + 1) (i + n1)
    else (if i = n then .val n else .val (-1), u)

/-- Write to file `f`. For a negative `n` the loop is not entered. -/
def filewrite (u : User) (w : World) (f : File) (addr n : Word) : Ret × User :=
  if f.writable = false then (.val (-1), u)
  else
    match f.kind with
    | .pipe => pipewrite u addr n.toInt 0 n.toInt.toNat w.pipe w.killed w.wakes
    | .inode =>
      if n.toInt < 0 then (.val (-1), u)
      else filewriteLoop u w addr n.toNat n.toNat 0 0
    | .none => (.panic, u)

def argfd (u : User) (ofile : Nat → Option File) (n : Word) : Option File × User :=
  match argint u n with
  | (none, u) => (none, u)
  | (some fd, u) => if fd.toInt < 0 ∨ fd.toInt ≥ NOFILE then (none, u) else (ofile fd.toNat, u)

/-- The three argument checks `sys_read` and `sys_write` share. -/
def transferArgs (u : User) (ofile : Nat → Option File) : Option (File × Word × Word) × User :=
  match argfd u ofile 0 with
  | (none, u) => (none, u)
  | (some f, u) =>
    match argint u 2 with
    | (none, u) => (none, u)
    | (some n, u) =>
      match argptr u 1 n with
      | (none, u) => (none, u)
      | (some p, u) => (some (f, p, n), u)

def sysRead (u : User) (w : World) (ofile : Nat → Option File) : Ret × User :=
  match transferArgs u ofile with
  | (none, u) => (.val (-1), u)
  | (some (f, p, n), u) => fileread u w f p n

def sysWrite (u : User) (w : World) (ofile : Nat → Option File) : Ret × User :=
  match transferArgs u ofile with
  | (none, u) => (.val (-1), u)
  | (some (f, p, n), u) => filewrite u w f p n

end UserCopy

end Xv6
