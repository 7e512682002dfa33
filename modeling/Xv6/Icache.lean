import Xv6.Inode
import Xv6.Lib.Threads

/-!
# The inode cache (`fs.c`)

A slot is found by a scan and recycled with what its last use left in it. A section under
`icache.lock` is one action, and so is every access outside of it. A process uses an entry only with
a reference of its own, from `iget`, from `idup` or from another process, and keeps one as long as it
has the entry locked. It may assign anything to the fields of a locked inode.
-/

namespace Xv6.Icache

open Threads Fs

def NINODE : Nat := 50

/-- `struct inode`. The last three fields are for the proofs only: a reference is listed with
the process that has it, `lockers` are the processes that set `I_BUSY` and have not cleared it,
and `loaded` is the inode that the fields were read from. -/
structure Entry where
  dev : UInt32
  inum : UInt32
  ref : Int
  busy : Bool
  valid : Bool
  ino : Dinode
  refs : List Pid
  lockers : List Pid
  loaded : Option (UInt32 × UInt32)

structure State where
  inode : Table Entry
  disk : UInt32 → UInt32 → Dinode

inductive Panic where
  | noInodes
  | ilock
  | noType
  | iunlock
  | iputBusy
deriving DecidableEq

inductive Act where
  | iget (dev inum : UInt32)
  | idup (i : Nat)
  | lock (i : Nat)
  | unlock (i : Nat)
  | iputTest (i : Nat)
  | iputEnd (i : Nat)
  | entry (i : Nat)
  | dinode (dev inum : UInt32)
  | fill (i : Nat) (dev inum : UInt32) (d : Dinode)
  | setFlags (i : Nat) (busy valid : Bool)
  | assign (i : Nat) (d : Dinode)
  | iupdate (dev inum : UInt32) (d : Dinode)
  | self
  | give (i : Nat) (q : Pid)
  | panic (e : Panic)

@[reducible] def Act.Res : Act → Type
  | .iget _ _ => Nat
  | .iputTest _ => Bool
  | .entry _ => Entry
  | .dinode _ _ => Dinode
  | .self => Pid
  | _ => Unit

abbrev Kprog := Prog Act Act.Res

def act (a : Act) : Kprog a.Res := call a

/-- The loop of `iget` from entry `i` on, for `n` rounds and with the empty slot seen so far: the
entry of the inode, or none and an empty slot. -/
def scan (t : Table Entry) (dev inum : UInt32) : Nat → Nat → Option Nat → Option Nat × Option Nat
  | 0, _, empty => (none, empty)
  | n + 1, i, empty =>
    let ip := t i
    if 0 < ip.ref ∧ ip.dev = dev ∧ ip.inum = inum then (some i, empty)
    else scan t dev inum n (i + 1) (if empty = none ∧ ip.ref = 0 then some i else empty)

def State.set (s : State) (i : Nat) (e : Entry) : State := { s with inode := s.inode.set i e }

/-- `ip->ref == 1 && (ip->flags & I_VALID) && ip->nlink == 0`. -/
def Entry.lastUnlinked (e : Entry) : Bool := e.ref = 1 ∧ e.valid ∧ e.ino.nlink = 0

/-- `ip->ref--`, by process `p`. -/
def Entry.drop (p : Pid) (e : Entry) : Entry := { e with ref := e.ref - 1, refs := e.refs.erase p }

def exec (ninode : Nat) (p : Pid) (a : Act) (s : State) : Outcome State Panic a.Res :=
  match a with
  | .iget dev inum =>
    match scan s.inode dev inum ninode 0 none with
    | (some i, _) =>
      let e := s.inode i
      .next i (s.set i { e with ref := e.ref + 1, refs := p :: e.refs })
    | (none, some i) =>
      let e := s.inode i
      .next i (s.set i { e with dev, inum, ref := 1, busy := false, valid := false, refs := p :: e.refs })
    | (none, none) => .stop .noInodes
  | .idup i =>
    let e := s.inode i
    .next () (s.set i { e with ref := e.ref + 1, refs := p :: e.refs })
  | .lock i =>
    let e := s.inode i
    if e.busy then .blocked
    else .next () (s.set i { e with busy := true, lockers := p :: e.lockers })
  | .unlock i =>
    let e := s.inode i
    .next () (s.set i { e with busy := false, lockers := e.lockers.erase p })
  | .iputTest i =>
    let e := s.inode i
    if e.lastUnlinked then
      if e.busy then .stop .iputBusy
      else .next true (s.set i { e with busy := true, lockers := p :: e.lockers })
    else .next false (s.set i (e.drop p))
  | .iputEnd i =>
    let e := s.inode i
    .next () (s.set i { e.drop p with busy := false, valid := false, lockers := e.lockers.erase p })
  | .entry i => .next (s.inode i) s
  | .dinode dev inum => .next (s.disk dev inum) s
  | .fill i dev inum d => .next () (s.set i { s.inode i with ino := d, loaded := some (dev, inum) })
  | .setFlags i busy valid => .next () (s.set i { s.inode i with busy, valid })
  | .assign i d => .next () (s.set i { s.inode i with ino := d })
  | .iupdate dev inum d =>
    .next () { s with disk := fun v n => if v = dev ∧ n = inum then d else s.disk v n }
  | .self => .next p s
  | .give i q =>
    let e := s.inode i
    .next () (s.set i { e with refs := q :: e.refs.erase p })
  | .panic e => .stop e

def iget (dev inum : UInt32) : Kprog Nat := act (.iget dev inum)

def idup (i : Nat) : Kprog Unit := act (.idup i)

def ilock (i : Nat) : Kprog Unit := do
  let ip ← act (.entry i)
  if ip.ref < 1 then act (.panic .ilock)
  else
    act (.lock i)
    let ip ← act (.entry i)
    if ip.valid then pure ()
    else
      let dip ← act (.dinode ip.dev ip.inum)
      act (.fill i ip.dev ip.inum dip)
      -- ip->flags |= I_VALID, without the lock of the cache
      let ip ← act (.entry i)
      act (.setFlags i ip.busy true)
      let ip ← act (.entry i)
      if ip.ino.type = 0 then act (.panic .noType)

def iunlock (i : Nat) : Kprog Unit := do
  let ip ← act (.entry i)
  if ip.busy = false ∨ ip.ref < 1 then act (.panic .iunlock)
  else act (.unlock i)

def iupdate (i : Nat) : Kprog Unit := do
  let ip ← act (.entry i)
  act (.iupdate ip.dev ip.inum ip.ino)

/-- Truncate inode; the blocks that it gives back are no part of the cache. -/
def itrunc (i : Nat) : Kprog Unit := do
  let ip ← act (.entry i)
  act (.assign i { ip.ino with size := 0, addrs := fun _ => 0 })
  iupdate i

/-- Drop a reference to an in-memory inode; frees an inode without links on disk. -/
def iput (i : Nat) : Kprog Unit := do
  if ← act (.iputTest i) then
    itrunc i
    let ip ← act (.entry i)
    act (.assign i { ip.ino with type := 0 })
    iupdate i
    act (.iputEnd i)

/-! ## Callers -/

inductive Call where
  | iget (dev inum : UInt32)
  | idup (i : Nat)
  | ilock (i : Nat)
  | iunlock (i : Nat)
  | iput (i : Nat)
  /-- Change a locked inode, with or without `iupdate`. -/
  | modify (i : Nat) (f : Dinode → Dinode) (update : Bool)
  /-- Pass a reference on to another process. -/
  | give (i : Nat) (q : Pid)

/-- How many references process `p` has that it may drop: not the last one to an inode that it has
locked. -/
def Entry.spare (p : Pid) (e : Entry) : Nat := e.refs.count p - (if p ∈ e.lockers then 1 else 0)

def Call.body : Call → Kprog Unit
  | .iget dev inum => do
    let _ ← Icache.iget dev inum
  | .idup i => do
    let p ← act .self
    if p ∈ (← act (.entry i)).refs then Icache.idup i
  | .ilock i => do
    let p ← act .self
    if p ∈ (← act (.entry i)).refs then Icache.ilock i
  | .iunlock i => do
    let p ← act .self
    if p ∈ (← act (.entry i)).lockers then Icache.iunlock i
  | .iput i => do
    let p ← act .self
    if 0 < (← act (.entry i)).spare p then Icache.iput i
  | .modify i f update => do
    let p ← act .self
    let ip ← act (.entry i)
    if p ∈ ip.lockers then
      act (.assign i (f ip.ino))
      if update then Icache.iupdate i
  | .give i q => do
    let p ← act .self
    if 0 < (← act (.entry i)).spare p then act (.give i q)

def icache (ninode : Nat) : Machine Pid Act Act.Res Call State Panic where
  exec := exec ninode
  body := Call.body
  canCall := fun _ _ => True

/-- The cache before its first use, for any inodes on disk. -/
def boot (disk : UInt32 → UInt32 → Dinode) : State where
  inode := .const ⟨0, 0, 0, false, false, .zero, [], [], none⟩
  disk := disk

end Xv6.Icache
