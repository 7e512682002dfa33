import Xv6.FileCalls

/-!
# Writers that share an open file (`file.c`, `log.c`)

The kernel of `Kernel`, with the log on the disk as well: the end of a transaction writes the header,
copies the blocks home and erases the header. `chunks` and `given` are kept for the proofs only.
-/

namespace Xv6.Fs.Writers

open Threads

structure State where
  kernel : Fs.State
  /-- `log.start` -/
  start : Nat
  /-- What each `writei` has written, in order, with its caller. -/
  chunks : List (Pid × List UInt8)
  /-- All that a process has passed to `filewrite` so far. -/
  given : Table (List UInt8)

/-- The log when a transaction ends. Each `log_write` has left the block in its slot, where a
later one for the same block replaced it. -/
def logOf (start : Nat) (s : Store) : Log.Machine where
  disk b :=
    if start < b ∧ b ≤ start + s.log.sectors.length then s.disk (s.log.sectors.getD (b - start - 1) 0) else s.disk b
  log := ⟨start, s.log.size, true, ⟨s.log.sectors.length, fun i => UInt32.ofNat (s.log.sectors.getD i 0)⟩⟩
  trail := []

/-- `commit_trans`: the header, the slots and the blocks of the transaction are written. -/
def commitTrans (start : Nat) (s : Store) : Store :=
  let m := Log.commitTrans (logOf start s)
  let written := List.range' start (s.log.sectors.length + 1) ++ s.log.sectors
  { s with
    disk := written.foldl (fun t b => t.set b (m.disk b)) s.disk
    log := { s.log with busy := none, sectors := [] } }

inductive Act where
  | fs (a : Fs.Act)
  | given (src : List UInt8)

@[reducible] def Act.Res : Act → Type
  | .fs a => a.Res
  | .given _ => Unit

/-- What an action of the kernel does to the state around it. -/
def State.after {α : Type} (s : State) (chunks : α → List (Pid × List UInt8)) :
    Outcome Fs.State Panic α → Outcome State Panic α
  | .blocked => .blocked
  | .stop e => .stop e
  | .next r k => .next r { s with kernel := k, chunks := s.chunks ++ chunks r }

def exec (p : Pid) (a : Act) (s : State) : Outcome State Panic a.Res :=
  match a with
  | .fs .commitTrans => .next () { s with kernel := { s.kernel with store := commitTrans s.start s.kernel.store } }
  | .fs (.writei i off src) =>
    s.after (fun r => r.toList.map fun n => (p, src.take n)) (Fs.exec p (.writei i off src) s.kernel)
  | .fs a => s.after (fun _ => []) (Fs.exec p a s.kernel)
  | .given src => .next () { s with given := s.given.set p (s.given p ++ src) }

abbrev Wprog := Prog Act Act.Res

def act (a : Act) : Wprog a.Res := call a

def lift {α : Type} (x : Kprog α) : Wprog α := x.subst fun a => act (.fs a)

def write (f : Nat) (src : List UInt8) : Wprog Unit := do
  act (.given src)
  let _ ← lift (filewrite f src src.length)

/-- Processes that write through the open file `f`. -/
def writers (f : Nat) : Machine Pid Act Act.Res (List UInt8) State Panic where
  exec := exec
  body := write f
  canCall := fun _ _ => True

end Xv6.Fs.Writers
