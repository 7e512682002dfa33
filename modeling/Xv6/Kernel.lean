import Mathlib.Data.List.Dedup
import Xv6.Directory
import Xv6.Lib.Threads

/-!
# The inode cache, the file table and the processes (`fs.c`, `file.c`, `proc.c`)

One action is one section under `icache.lock`, `ftable.lock` or `log.lock`, or one call on an inode
that the process has locked. `iput` is four actions, since it gives up `icache.lock` in between. An
inode is named by its number, and the cache has an entry for every inode, of which at most `NINODE`
can be referenced. The fields after `procs` are for the proofs only: the holders of the pointers that
a count stands for.
-/

namespace Xv6.Fs

open Threads

def NFILE : Nat := 100
def NOFILE : Nat := 16
def NINODE : Nat := 50

/-- Whose pointer to an in-memory inode: one in a kernel thread on behalf of `p`, the
current directory of `p`, an open file. -/
inductive Holder where
  | temp (p : Pid)
  | cwd (p : Pid)
  | file (f : Nat)
deriving DecidableEq

/-- Whose pointer to an open file: descriptor `fd` of `pid`, or its kernel thread. -/
structure FileHolder where
  pid : Pid
  fd : Option Nat
deriving DecidableEq

/-- An entry of the inode cache. `busy` is `I_BUSY` with the process that set it, `valid` is
`I_VALID`. -/
structure Cached where
  ref : Nat
  busy : Option Pid
  valid : Bool
  ino : Dinode

inductive FdType where
  | none
  | inode
deriving DecidableEq

/-- `struct file`, without pipes. -/
structure File where
  ref : Nat
  type : FdType
  ip : Nat
  off : Nat
  readable : Bool
  writable : Bool

inductive ProcState where
  | unused
  | runnable
  | zombie
deriving DecidableEq

/-- `struct proc`, as far as the file system uses it. -/
structure Proc where
  state : ProcState
  cwd : Nat
  ofile : Table (Option Nat)

/-- An inode number that `dirlookup` returned to a process and, for "..", the directory that
was the parent when the entry was made. -/
structure Found where
  inum : Nat
  parent : Option (Nat × Nat)
deriving DecidableEq

structure State where
  store : Store
  icache : Table Cached
  ftable : Table File
  procs : Table Proc
  holders : Table (List Holder)
  fholders : Table (List FileHolder)
  /-- How often inode `i` has been allocated: a number and its generation name one inode for
  good. -/
  gen : Table Nat
  /-- The directory, with its generation, for which the ".." entry of a directory was made. -/
  parent : Table (Nat × Nat)
  /-- The last thing `dirlookup` found for each process. -/
  found : Table (Option Found)

/-- Which of its own pointers to an inode a process drops. -/
inductive Ref where
  | temp
  | cwd
deriving DecidableEq

def Ref.holder (p : Pid) : Ref → Holder
  | .temp => .temp p
  | .cwd => .cwd p

/-- Assignments to an in-memory inode that are followed by `iupdate`. -/
inductive Edit where
  /-- `nlink++` -/
  | link
  /-- `nlink--` -/
  | unlink
  /-- `major = ..; minor = ..; nlink = 1` -/
  | fresh (major minor : UInt16)
  /-- `type = 0` -/
  | free

def Edit.apply : Edit → Dinode → Dinode
  | .link, d => { d with nlink := d.nlink + 1 }
  | .unlink, d => { d with nlink := d.nlink - 1 }
  | .fresh major minor, d => { d with major := major, minor := minor, nlink := 1 }
  | .free, d => { d with type := 0 }

inductive Act where
  | beginTrans
  | commitTrans
  | readsb
  | iallocTry (i : Nat) (type : UInt16)
  | iget (i : Nat)
  | idup (i : Nat)
  | ilockBusy (i : Nat)
  | ilockLoad (i : Nat)
  | iunlock (i : Nat)
  | iputBegin (i : Nat) (r : Ref)
  | iputEnd (i : Nat) (r : Ref)
  | itrunc (i : Nat)
  | edit (i : Nat) (e : Edit)
  | inode (i : Nat)
  | readi (i off n : Nat)
  | writei (i off : Nat) (src : List UInt8)
  | dirlookup (i : Nat) (name : List UInt8)
  | emptyDirent (i : Nat)
  | isdirempty (i : Nat)
  | noteParent (i d : Nat)
  | proc
  | cwd
  | setCwd (i : Nat)
  | argfd (fd : Int)
  | filealloc
  | fdalloc (f : Nat)
  | dupFd (f : Nat)
  | filedup (f fd : Nat)
  | takeFd (fd : Nat)
  | clearFd (fd : Nat)
  | setFile (f i : Nat) (readable writable : Bool)
  | file (f : Nat)
  | advance (f n : Nat)
  | fileDrop (f : Nat) (fd : Option Nat)
  | fork (np : Pid)
  | zombie
  | wait (np : Pid)
  | panic (e : Panic)

@[reducible] def Act.Res : Act → Type
  | .readsb => Superblock
  | .iallocTry _ _ => Bool
  | .iputBegin _ _ => Bool
  | .inode _ => Dinode
  | .readi _ _ _ => Option (List UInt8)
  | .writei _ _ _ => Option Nat
  | .dirlookup _ _ => Option (Nat × Nat)
  | .emptyDirent _ => Nat
  | .isdirempty _ => Bool
  | .proc => Pid
  | .cwd => Nat
  | .argfd _ => Option Nat
  | .filealloc => Option Nat
  | .fdalloc _ => Option Nat
  | .dupFd _ => Option Nat
  | .file _ => File
  | .fileDrop _ _ => Option File
  | _ => Unit

abbrev Kprog := Prog Act Act.Res

def act (a : Act) : Kprog a.Res := call a

abbrev Result := Outcome State Panic

def onStore {α : Type} (p : Pid) (m : FsM α) (s : State) : Result α :=
  match m { s.store with caller := p } with
  | .ok a st => .next a { s with store := st }
  | .error e _ => .stop e

def setIno (s : State) (i : Nat) (ip : Dinode) : State :=
  { s with icache := s.icache.set i { s.icache i with ino := ip } }

def onInode {α : Type} (p : Pid) (i : Nat) (m : Dinode → FsM (α × Dinode)) (s : State) : Result α :=
  match m (s.icache i).ino { s.store with caller := p } with
  | .ok (a, ip) st => .next a (setIno { s with store := st } i ip)
  | .error e _ => .stop e

/-- The inodes that are referenced. -/
def State.cached (s : State) : List Nat :=
  (s.icache.entries.map Prod.fst).dedup.filter fun i => 0 < (s.icache i).ref

/-- The condition under which `iget` panics: no entry for the inode, and none to recycle. -/
def State.full (s : State) (i : Nat) : Bool := (s.icache i).ref = 0 ∧ NINODE ≤ s.cached.length

/-- `iget`: another pointer to a referenced entry, or a recycled entry. -/
def iget (p : Pid) (i : Nat) (s : State) : State :=
  let c := s.icache i
  let c := if 0 < c.ref then { c with ref := c.ref + 1 }
    else { c with ref := 1, busy := none, valid := false }
  { s with
    icache := s.icache.set i c
    holders := s.holders.set i (.temp p :: s.holders i) }

def idup (h : Holder) (i : Nat) (s : State) : State :=
  { s with
    icache := s.icache.set i { s.icache i with ref := (s.icache i).ref + 1 }
    holders := s.holders.set i (h :: s.holders i) }

/-- `ip->ref--`. -/
def decRef (h : Holder) (i : Nat) (s : State) : State :=
  { s with
    icache := s.icache.set i { s.icache i with ref := (s.icache i).ref - 1 }
    holders := s.holders.set i ((s.holders i).erase h) }

/-- The condition under which `iput` frees the inode. -/
def Cached.lastUnlinked (c : Cached) : Bool := c.ref = 1 ∧ c.valid ∧ c.ino.nlink = 0

/-- What `dirlookup` records of the entry it found. -/
def noteFound (p dp : Nat) (name : List UInt8) (inum : Nat) (s : State) : State :=
  let e : Found := ⟨inum, if namecmp name dotdot = 0 then some (s.parent dp) else none⟩
  { s with found := s.found.set p (some e) }

/-- A pointer to inode `i` changes hands. -/
def moveHolder (i : Nat) (h h' : Holder) (s : State) : State :=
  { s with holders := s.holders.set i (h' :: (s.holders i).erase h) }

def moveFileHolder (f : Nat) (h h' : FileHolder) (s : State) : State :=
  { s with fholders := s.fholders.set f (h' :: (s.fholders f).erase h) }

def setOfile (p : Pid) (fd : Nat) (f : Option Nat) (s : State) : State :=
  let pr := { s.procs p with ofile := (s.procs p).ofile.set fd f }
  { s with procs := s.procs.set p pr }

/-- `fdalloc`: the first descriptor of `p` that is not in use is for file `f`. -/
def fdalloc (p : Pid) (f : Nat) (s : State) : Option (Nat × State) :=
  match (List.range NOFILE).find? (fun fd => (s.procs p).ofile fd = none) with
  | none => none
  | some fd => some (fd, setOfile p fd (some f) s)

def filedup (f : Nat) (h : FileHolder) (s : State) : State :=
  { s with
    ftable := s.ftable.set f { s.ftable f with ref := (s.ftable f).ref + 1 }
    fholders := s.fholders.set f (h :: s.fholders f) }

/-- The first section of `fileclose`: drop a pointer to the file; the last one gives the file
up and returns what it was. -/
def fileDrop (p : Pid) (f : Nat) (fd : Option Nat) (s : State) : Result (Option File) :=
  let ff := s.ftable f
  let s' := { s with fholders := s.fholders.set f ((s.fholders f).erase ⟨p, fd⟩) }
  if ff.ref < 1 then .stop .fileclose
  else if 0 < ff.ref - 1 then
    .next none { s' with ftable := s.ftable.set f { ff with ref := ff.ref - 1 } }
  else
    let s' := { s' with ftable := s.ftable.set f { ff with ref := 0, type := .none } }
    .next (some ff) (if ff.type = .inode then moveHolder ff.ip (.file f) (.temp p) s' else s')

/-- The body of the loop of `fork`: `np->ofile[fd] = filedup(proc->ofile[fd])`. -/
def forkFile (p np : Pid) (fd : Nat) (s : State) : State :=
  match (s.procs p).ofile fd with
  | none => s
  | some f => setOfile np fd (some f) (filedup f ⟨np, some fd⟩ s)

/-- The loop of `fork` over the open files, after `n` iterations. -/
def forkFiles (p np : Pid) (s : State) : Nat → State
  | 0 => s
  | n + 1 => forkFile p np n (forkFiles p np s n)

/-- `fork` from the loop on: the child gets the open files and, by `idup`, the current
directory. -/
def forkInto (p np : Pid) (s : State) : State :=
  let cwd := (s.procs p).cwd
  let s := { s with procs := s.procs.set np { s.procs np with state := .runnable, cwd } }
  idup (.cwd np) cwd (forkFiles p np s NOFILE)

def exec (p : Pid) (a : Act) (s : State) : Result a.Res :=
  match a with
  | .beginTrans =>
    if s.store.log.busy = none then
      .next () { s with store := { s.store with log := { s.store.log with busy := some p } } }
    else .blocked
  | .commitTrans =>
    .next () { s with store := { s.store with
      log := { s.store.log with busy := none, sectors := [] } } }
  | .readsb => onStore p readsb s
  | .iallocTry i type =>
    match onStore p (iallocTry i type) s with
    | .next true s => .next true { s with gen := s.gen.set i (s.gen i + 1) }
    | o => o
  | .iget i => if s.full i then .stop .igetNoInodes else .next () (iget p i s)
  | .idup i => .next () (idup (.temp p) i s)
  | .ilockBusy i =>
    if (s.icache i).ref < 1 then .stop .ilock
    else if (s.icache i).busy = none then
      .next () { s with icache := s.icache.set i { s.icache i with busy := some p } }
    else .blocked
  | .ilockLoad i =>
    if (s.icache i).valid then .next () s
    else if (dinode s.store.disk i).type = 0 then .stop .noType
    else
      let c := { s.icache i with ino := dinode s.store.disk i, valid := true }
      .next () { s with icache := s.icache.set i c }
  | .iunlock i =>
    if (s.icache i).busy = none ∨ (s.icache i).ref < 1 then .stop .iunlock
    else .next () { s with icache := s.icache.set i { s.icache i with busy := none } }
  | .iputBegin i r =>
    if (s.icache i).lastUnlinked then
      if (s.icache i).busy ≠ none then .stop .iputBusy
      else
        .next true { s with icache := s.icache.set i { s.icache i with busy := some p } }
    else .next false (decRef (r.holder p) i s)
  | .iputEnd i r =>
    .next () (decRef (r.holder p) i { s with
      icache := s.icache.set i { s.icache i with busy := none, valid := false } })
  | .itrunc i => onInode p i (fun ip => do return ((), ← itrunc i ip)) s
  | .edit i e => onInode p i (fun ip => do iupdate i (e.apply ip); return ((), e.apply ip)) s
  | .inode i => .next (s.icache i).ino s
  | .readi i off n => onInode p i (fun ip => readi ip off n) s
  | .writei i off src => onInode p i (fun ip => writei i ip off src) s
  | .dirlookup i name =>
    match onInode p i (fun dp => dirlookup dp name) s with
    | .next (some (inum, off)) s =>
      if s.full inum then .stop .igetNoInodes
      else .next (some (inum, off)) (noteFound p i name inum (iget p inum s))
    | o => o
  | .emptyDirent i => onInode p i emptyDirent s
  | .isdirempty i => onInode p i isdirempty s
  | .noteParent i d => .next () { s with parent := s.parent.set i (d, s.gen d) }
  | .proc => .next p s
  | .cwd => .next (s.procs p).cwd s
  | .setCwd i =>
    .next () (moveHolder i (.temp p) (.cwd p)
      { s with procs := s.procs.set p { s.procs p with cwd := i } })
  | .argfd fd =>
    .next (if fd < 0 ∨ (NOFILE : Int) ≤ fd then none else (s.procs p).ofile fd.toNat) s
  | .filealloc =>
    match (List.range NFILE).find? (fun f => (s.ftable f).ref = 0) with
    | none => .next none s
    | some f =>
      .next (some f) { s with
        ftable := s.ftable.set f { s.ftable f with ref := 1 }
        fholders := s.fholders.set f [⟨p, none⟩] }
  | .fdalloc f =>
    match fdalloc p f s with
    | none => .next none s
    | some (fd, s) => .next (some fd) (moveFileHolder f ⟨p, none⟩ ⟨p, some fd⟩ s)
  | .dupFd f =>
    match fdalloc p f s with
    | none => .next none s
    | some (fd, s) => .next (some fd) s
  | .filedup f fd =>
    if (s.ftable f).ref < 1 then .stop .filedup else .next () (filedup f ⟨p, some fd⟩ s)
  | .takeFd fd =>
    match (s.procs p).ofile fd with
    | none => .next () s
    | some f => .next () (moveFileHolder f ⟨p, some fd⟩ ⟨p, none⟩ (setOfile p fd none s))
  | .clearFd fd => .next () (setOfile p fd none s)
  | .setFile f i readable writable =>
    let ff := { s.ftable f with type := .inode, ip := i, off := 0, readable, writable }
    .next () (moveHolder i (.temp p) (.file f) { s with ftable := s.ftable.set f ff })
  | .file f => .next (s.ftable f) s
  | .advance f n =>
    let ff := { s.ftable f with off := (s.ftable f).off + n }
    .next () { s with ftable := s.ftable.set f ff }
  | .fileDrop f fd => fileDrop p f fd s
  | .fork np =>
    if (s.procs np).state ≠ .unused then .next () s
    else if ((List.range NOFILE).any fun fd =>
        ((s.procs p).ofile fd).any fun f => (s.ftable f).ref < 1) then .stop .filedup
    else .next () (forkInto p np s)
  | .zombie => .next () { s with procs := s.procs.set p { s.procs p with state := .zombie, cwd := 0 } }
  | .wait np =>
    -- Any process may wait for any other here, not only for its children.
    if (s.procs np).state = .zombie then
      .next () { s with procs := s.procs.set np { s.procs np with state := .unused } }
    else .blocked
  | .panic e => .stop e

end Xv6.Fs
