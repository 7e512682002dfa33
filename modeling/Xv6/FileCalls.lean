import Xv6.Kernel

/-!
# File system calls (`fs.c`, `file.c`, `sysfile.c`, `proc.c`, `exec.c`)

Programs of atomic actions, down to the system calls of one process. An argument `none` is a path
that `argstr` rejects. The value of a call matters for the caller only, so most calls return nothing.
-/

namespace Xv6.Fs

open Threads

def panic {α : Type} [Inhabited α] (e : Panic) : Kprog α := do
  act (.panic e)
  return default

def beginTrans : Kprog Unit := act .beginTrans

def commitTrans : Kprog Unit := act .commitTrans

def ilock (ip : Nat) : Kprog Unit := do
  act (.ilockBusy ip)
  act (.ilockLoad ip)

def iunlock (ip : Nat) : Kprog Unit := act (.iunlock ip)

/-- Drop a reference to an in-memory inode; frees an inode without links on disk. -/
def iput (r : Ref) (ip : Nat) : Kprog Unit := do
  let last ← act (.iputBegin ip r)
  if last then
    act (.itrunc ip)
    act (.edit ip .free)
    act (.iputEnd ip r)

def iunlockput (ip : Nat) : Kprog Unit := do
  iunlock ip
  iput .temp ip

/-- The loop of `ialloc` from inode `i` on, for at most `n` rounds. -/
def iallocFrom (ninodes : Nat) (type : UInt16) : Nat → Nat → Kprog Nat
  | 0, _ => panic .noInodes
  | n + 1, i =>
    if i < ninodes then do
      if ← act (.iallocTry i type) then
        act (.iget i)
        return i
      else iallocFrom ninodes type n (i + 1)
    else panic .noInodes

def ialloc (type : UInt16) : Kprog Nat := do
  let sb ← act .readsb
  iallocFrom sb.ninodes type sb.ninodes 1

/-- Write a new directory entry into the directory `dp`; `false` if the name is present. -/
def dirlink (dp : Nat) (name : List UInt8) (inum : Nat) : Kprog Bool := do
  match ← act (.dirlookup dp name) with
  | some (ip, _) =>
    iput .temp ip
    return false
  | none =>
    let off ← act (.emptyDirent dp)
    let r ← act (.writei dp off (Dirent.bytes ⟨UInt16.ofNat inum, strncpy name⟩))
    if r = some direntSize then return true else panic .dirlink

/-- The loop of `namex` at inode `ip` with the path elements that are left. -/
def namexFrom (nameiparent : Bool) : Nat → List (List UInt8) → Kprog (Option (Nat × List UInt8))
  | ip, [] =>
    if nameiparent then do
      iput .temp ip
      return none
    else return some (ip, [])
  | ip, name :: rest => do
    ilock ip
    let d ← act (.inode ip)
    if d.type ≠ T_DIR then
      iunlockput ip
      return none
    else if nameiparent ∧ rest = [] then
      -- Stop one level early.
      iunlock ip
      return some (ip, name)
    else
      match ← act (.dirlookup ip name) with
      | none =>
        iunlockput ip
        return none
      | some (next, _) =>
        iunlockput ip
        namexFrom nameiparent next rest

/-- Look up the inode for a path name, or its parent and the last path element. -/
def namex (nameiparent : Bool) (path : List UInt8) : Kprog (Option (Nat × List UInt8)) := do
  let ip ← if path.head? = some slash then do
      act (.iget ROOTINO)
      pure ROOTINO
    else do
      let cwd ← act .cwd
      act (.idup cwd)
      pure cwd
  namexFrom nameiparent ip (pathElems path.length path)

def namei (path : List UInt8) : Kprog (Option Nat) := do
  return (← namex false path).map Prod.fst

def nameiparent (path : List UInt8) : Kprog (Option (Nat × List UInt8)) := namex true path

def createDots (ip dp : Nat) : Kprog Unit := do
  if ← dirlink ip dot ip then
    if ← dirlink ip dotdot dp then
      act (.noteParent ip dp)
    else panic .createDots
  else panic .createDots

/-- The part of `create` after `name` was not found in the locked directory `dp`. -/
def createIn (dp : Nat) (name : List UInt8) (type major minor : UInt16) : Kprog Nat := do
  let ip ← ialloc type
  ilock ip
  act (.edit ip (.fresh major minor))
  if type = T_DIR then
    act (.edit dp .link)
    createDots ip dp
  if ← dirlink dp name ip then
    iunlockput dp
    return ip
  else panic .createDirlink

def create (path : List UInt8) (type major minor : UInt16) : Kprog (Option Nat) := do
  match ← nameiparent path with
  | none => return none
  | some (dp, name) =>
    ilock dp
    match ← act (.dirlookup dp name) with
    | some (ip, _) =>
      iunlockput dp
      ilock ip
      let d ← act (.inode ip)
      if type = T_FILE ∧ d.type = T_FILE then return some ip
      else
        iunlockput ip
        return none
    | none => return some (← createIn dp name type major minor)

/-! ## Open files -/

def CONSOLE : UInt16 := 1

/-- Does `devsw` have functions for a major device number? Only the console sets its entry. -/
def devsw (major : UInt16) : Bool := major = CONSOLE

/-- `readi`: the number of bytes read, or `none` for -1. The console gives up the inode while
it waits and reads `got`. -/
def readInode (ip off n : Nat) (got : Option Nat) : Kprog (Option Nat) := do
  let d ← act (.inode ip)
  if d.type = T_DEV then
    if devsw d.major then
      iunlock ip
      ilock ip
      return got
    else return none
  else return (← act (.readi ip off n)).map List.length

/-- `writei`: the number of bytes written, or `none` for -1. -/
def writeInode (ip off : Nat) (src : List UInt8) : Kprog (Option Nat) := do
  let d ← act (.inode ip)
  if d.type = T_DEV then
    if devsw d.major then
      iunlock ip
      ilock ip
      return some src.length
    else return none
  else act (.writei ip off src)

/-- Close a file that the caller has through descriptor `fd`, or not yet as a descriptor. -/
def fileclose (f : Nat) (fd : Option Nat) : Kprog Unit := do
  match ← act (.fileDrop f fd) with
  | none => pure ()
  | some ff =>
    if ff.type = .inode then
      beginTrans
      iput .temp ff.ip
      commitTrans

def advance (f : Nat) : Option Nat → Kprog Unit
  | none => pure ()
  | some r => act (.advance f r)

def fileread (f n : Nat) (got : Option Nat) : Kprog Int := do
  let ff ← act (.file f)
  if ff.readable then
    if ff.type = .inode then
      ilock ff.ip
      let off := (← act (.file f)).off
      let r ← readInode ff.ip off n got
      advance f r
      iunlock ff.ip
      return r.elim (-1) Int.ofNat
    else panic .fileread
  else return -1

/-- `((LOGSIZE-1-1-2) / 2) * 512`. -/
def maxWrite : Nat := ((Log.LOGSIZE - 1 - 1 - 2) / 2) * 512

/-- One round of the loop of `filewrite`: what `writei` returned. -/
def writeChunk (f ip : Nat) (src : List UInt8) : Kprog (Option Nat) := do
  beginTrans
  ilock ip
  let off := (← act (.file f)).off
  let r ← writeInode ip off src
  advance f r
  iunlock ip
  commitTrans
  return r

/-- The loop of `filewrite` for the bytes that are left, in at most `n` rounds: by how much it
advances `i`. -/
def filewriteFrom (f ip : Nat) : Nat → List UInt8 → Kprog Nat
  | 0, _ => pure 0
  | n + 1, src =>
    if src = [] then pure 0
    else do
      let n1 := min src.length maxWrite
      match ← writeChunk f ip (src.take n1) with
      | none => pure 0
      | some r =>
        if r = n1 then return r + (← filewriteFrom f ip n (src.drop r)) else panic .shortFilewrite

/-- `filewrite(f, addr, n)`, for the memory of the caller from `addr` on. -/
def filewrite (f : Nat) (addr : List UInt8) (n : Int) : Kprog Int := do
  let ff ← act (.file f)
  if ff.writable then
    if ff.type = .inode then
      let i ← filewriteFrom f ff.ip n.toNat (addr.take n.toNat)
      return if i = n then n else -1
    else panic .filewrite
  else return -1

/-! ## System calls -/

def O_RDONLY : UInt32 := 0x000
def O_WRONLY : UInt32 := 0x001
def O_RDWR : UInt32 := 0x002
def O_CREATE : UInt32 := 0x200

def INITPROC : Pid := 1

/-- The locked inode that `open` goes on with. -/
def openInode (path : List UInt8) (omode : UInt32) : Kprog (Option Nat) := do
  if omode &&& O_CREATE ≠ 0 then
    beginTrans
    let ip ← create path T_FILE 0 0
    commitTrans
    return ip
  else
    match ← namei path with
    | none => return none
    | some ip =>
      ilock ip
      let d ← act (.inode ip)
      if d.type = T_DIR ∧ omode ≠ O_RDONLY then
        iunlockput ip
        return none
      else return some ip

/-- `sys_open` from `filealloc` on. -/
def openFile (ip : Nat) (omode : UInt32) : Kprog Int := do
  match ← act .filealloc with
  | none =>
    iunlockput ip
    return -1
  | some f =>
    match ← act (.fdalloc f) with
    | none =>
      fileclose f none
      iunlockput ip
      return -1
    | some fd =>
      iunlock ip
      act (.setFile f ip (omode &&& O_WRONLY = 0)
        (omode &&& O_WRONLY ≠ 0 ∨ omode &&& O_RDWR ≠ 0))
      return fd

def sysOpen (path : Option (List UInt8)) (omode : UInt32) : Kprog Int :=
  match path with
  | none => return -1
  | some path => do
    match ← openInode path omode with
    | none => return -1
    | some ip => openFile ip omode

def sysRead (fd : Int) (n : Nat) (got : Option Nat) : Kprog Int := do
  match ← act (.argfd fd) with
  | none => return -1
  | some f => fileread f n got

def sysWrite (fd : Int) (src : List UInt8) : Kprog Int := do
  match ← act (.argfd fd) with
  | none => return -1
  | some f => filewrite f src src.length

def sysDup (fd : Int) : Kprog Int := do
  match ← act (.argfd fd) with
  | none => return -1
  | some f =>
    match ← act (.dupFd f) with
    | none => return -1
    | some fd =>
      act (.filedup f fd)
      return fd

def sysClose (fd : Int) : Kprog Int := do
  match ← act (.argfd fd) with
  | none => return -1
  | some f =>
    act (.takeFd fd.toNat)
    fileclose f none
    return 0

/-- `goto bad` in `sys_link`, still inside the transaction. -/
def linkBad (ip : Nat) : Kprog Unit := do
  ilock ip
  act (.edit ip .unlink)
  iunlockput ip

/-- `sys_link` after `ip->nlink++`, up to the commit. -/
def linkInto (ip : Nat) (new : List UInt8) : Kprog Int := do
  match ← nameiparent new with
  | none =>
    linkBad ip
    return -1
  | some (dp, name) =>
    ilock dp
    if ← dirlink dp name ip then
      iunlockput dp
      iput .temp ip
      return 0
    else
      iunlockput dp
      linkBad ip
      return -1

def sysLink (old new : List UInt8) : Kprog Int := do
  match ← namei old with
  | none => return -1
  | some ip =>
    beginTrans
    ilock ip
    let d ← act (.inode ip)
    if d.type = T_DIR then
      iunlockput ip
      commitTrans
      return -1
    else
      act (.edit ip .link)
      iunlock ip
      let r ← linkInto ip new
      commitTrans
      return r

/-- `memset(&de, 0, sizeof(de))`. -/
def zeroDirent : List UInt8 := List.replicate direntSize 0

/-- `ip->type == T_DIR && !isdirempty(ip)`. -/
def isFullDir (ip : Nat) (d : Dinode) : Kprog Bool := do
  if d.type = T_DIR then
    let empty ← act (.isdirempty ip)
    return !empty
  else return false

/-- `sys_unlink` from the locking of `ip`, which was found at offset `off` of `dp`, up to the
commit. -/
def unlinkEntry (dp ip off : Nat) : Kprog Int := do
  ilock ip
  let d ← act (.inode ip)
  if d.nlink.toInt16 < 1 then panic .unlinkNlink
  else
    if ← isFullDir ip d then
      iunlockput ip
      iunlockput dp
      return -1
    else
      let r ← act (.writei dp off zeroDirent)
      if r = some direntSize then
        if d.type = T_DIR then
          act (.edit dp .unlink)
        iunlockput dp
        act (.edit ip .unlink)
        iunlockput ip
        return 0
      else panic .unlinkWritei

/-- `sys_unlink` after the locking of the directory, up to the commit. -/
def unlinkIn (dp : Nat) (name : List UInt8) : Kprog Int := do
  -- Cannot unlink "." or "..".
  if namecmp name dot = 0 ∨ namecmp name dotdot = 0 then
    iunlockput dp
    return -1
  else
    match ← act (.dirlookup dp name) with
    | none =>
      iunlockput dp
      return -1
    | some (ip, off) => unlinkEntry dp ip off

def sysUnlink (path : List UInt8) : Kprog Int := do
  match ← nameiparent path with
  | none => return -1
  | some (dp, name) =>
    beginTrans
    ilock dp
    let r ← unlinkIn dp name
    commitTrans
    return r

/-- `sys_mkdir` and `sys_mknod`. -/
def sysMknod (path : Option (List UInt8)) (type major minor : UInt16) : Kprog Int := do
  beginTrans
  match path with
  | none =>
    commitTrans
    return -1
  | some path =>
    match ← create path type major minor with
    | none =>
      commitTrans
      return -1
    | some ip =>
      iunlockput ip
      commitTrans
      return 0

def sysChdir (path : List UInt8) : Kprog Int := do
  match ← namei path with
  | none => return -1
  | some ip =>
    ilock ip
    let d ← act (.inode ip)
    if d.type ≠ T_DIR then
      iunlockput ip
      return -1
    else
      iunlock ip
      let old ← act .cwd
      iput .cwd old
      act (.setCwd ip)
      return 0

/-- The reads that `exec` makes from the program file, as many as it gets to. -/
def execReads (ip : Nat) : List (Nat × Nat × Option Nat) → Kprog Unit
  | [] => pure ()
  | (off, n, got) :: reads => do
    let _ ← readInode ip off n got
    execReads ip reads

/-- `exec`, as far as it uses the file system. -/
def sysExec (path : List UInt8) (reads : List (Nat × Nat × Option Nat)) : Kprog Unit := do
  match ← namei path with
  | none => pure ()
  | some ip =>
    ilock ip
    execReads ip reads
    iunlockput ip

/-- The loop of `exit` that closes the open files, after `n` iterations. -/
def closeFiles : Nat → Kprog Unit
  | 0 => pure ()
  | n + 1 => do
    closeFiles n
    match ← act (.argfd n) with
    | none => pure ()
    | some f =>
      fileclose f (some n)
      act (.clearFd n)

def sysExit : Kprog Unit := do
  if (← act .proc) = INITPROC then panic .initExiting
  else
    closeFiles NOFILE
    let cwd ← act .cwd
    iput .cwd cwd
    act .zombie

inductive Syscall where
  | open (path : Option (List UInt8)) (omode : UInt32)
  | read (fd : Int) (n : Nat) (got : Option Nat)
  | write (fd : Int) (src : List UInt8)
  | close (fd : Int)
  | link (old new : Option (List UInt8))
  | unlink (path : Option (List UInt8))
  | mkdir (path : Option (List UInt8))
  | mknod (path : Option (List UInt8)) (major minor : UInt16)
  | chdir (path : Option (List UInt8))
  | exec (path : Option (List UInt8)) (reads : List (Nat × Nat × Option Nat))
  | dup (fd : Int)
  | fork (np : Pid)
  | exit
  | wait (np : Pid)

/-- What a process does in the kernel for a call. No state holds the value it returns with. -/
def Syscall.body : Syscall → Kprog Unit
  | .open path omode => do let _ ← sysOpen path omode
  | .read fd n got => do let _ ← sysRead fd n got
  | .write fd src => do let _ ← sysWrite fd src
  | .close fd => do let _ ← sysClose fd
  | .link (some old) (some new) => do let _ ← sysLink old new
  | .unlink (some path) => do let _ ← sysUnlink path
  | .mkdir path => do let _ ← sysMknod path T_DIR 0 0
  | .mknod path major minor => do let _ ← sysMknod path T_DEV major minor
  | .chdir (some path) => do let _ ← sysChdir path
  | .exec (some path) reads => sysExec path reads
  | .dup fd => do let _ ← sysDup fd
  | .fork np => act (.fork np)
  | .exit => sysExit
  | .wait np => act (.wait np)
  | _ => pure ()

/-- The kernel with any number of processes, each of which may make any call at any time. -/
def kernel : Machine Pid Act Act.Res Syscall State Panic where
  exec := exec
  body := Syscall.body
  canCall := fun s p => (s.procs p).state = .runnable

/-- The state in which the first process starts on the disk `d`: nothing is cached but the
root directory, which `userinit` made its current directory. -/
def boot (d : Table Block) : State where
  store := ⟨d, ⟨none, (superblock d).nlog, []⟩, INITPROC, [], []⟩
  icache := (Table.const ⟨0, none, false, Dinode.zero⟩).set ROOTINO ⟨1, none, false, Dinode.zero⟩
  ftable := .const ⟨0, .none, 0, 0, false, false⟩
  procs := (Table.const ⟨.unused, 0, .const none⟩).set INITPROC ⟨.runnable, ROOTINO, .const none⟩
  holders := (Table.const []).set ROOTINO [.cwd INITPROC]
  fholders := .const []
  gen := .const 0
  parent := .const (ROOTINO, 0)
  found := .const none

end Xv6.Fs
