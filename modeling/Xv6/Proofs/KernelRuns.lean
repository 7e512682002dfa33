import Xv6.Lib.Schedule
import Xv6.FileCalls
import Xv6.Mkfs

/-! # Evaluating runs of the file system -/

namespace Xv6.Fs

open Threads

instance (s : State) (p : Pid) : Decidable (kernel.canCall s p) :=
  inferInstanceAs (Decidable ((s.procs p).state = .runnable))

/-- The disk that `mkfs` writes. -/
def image (files : List Mkfs.Input) : Table Block :=
  match Mkfs.mkfs files with
  | some m => m.disk
  | none => .const 0

/-- Each call is run to its end before the next one begins. -/
def oneByOne (calls : List (Pid × Syscall)) : List (Turn Pid Syscall) := calls.map fun x => .call x.1 x.2 1000

/-! ## Actions that leave the blocks and the log alone -/

variable {p : Pid} {s t : State} {i : Nat}

lemma forkFiles_store (p np : Pid) (k : State) (n : Nat) : (forkFiles p np k n).store = k.store := by
  induction n with
  | zero => rfl
  | succ n ih =>
    rw [forkFiles, forkFile]
    split
    · exact ih
    · exact ih

lemma forkInto_store (np : Pid) (k : State) : (forkInto p np k).store = k.store := by
  unfold forkInto Fs.idup
  rw [forkFiles_store]

/-- The actions that neither read nor write blocks and the log. -/
def plain : Act → Bool
  | .beginTrans | .commitTrans | .readsb | .iallocTry _ _ | .ilockLoad _ | .itrunc _ | .edit _ _
  | .readi _ _ _ | .writei _ _ _ | .dirlookup _ _ | .emptyDirent _ | .isdirempty _ => false
  | _ => true

lemma fileDrop_store {k k' : State} {f : Nat} {fd : Option Nat} {r : Option File}
    (he : fileDrop p f fd k = .next r k') : k'.store = k.store := by
  unfold fileDrop at he
  dsimp only at he
  split at he
  · cases he
  split at he
  · cases he
    rfl
  · cases he
    split <;> rfl

lemma fdalloc_store {k k' : State} {f fd : Nat} (h : fdalloc p f k = some (fd, k')) : k'.store = k.store := by
  unfold fdalloc at h
  split at h
  · cases h
  · cases h
    rfl

lemma exec_store {a : Act} {k k' : State} {r : a.Res} (ha : plain a = true)
    (he : exec p a k = .next r k') : k'.store = k.store := by
  cases a
  case fileDrop f fd => exact fileDrop_store he
  case fork np =>
    rw [exec] at he
    split at he
    · cases he
      rfl
    split at he
    · cases he
    · rw [← (Outcome.next.inj he).2]
      exact forkInto_store np k
  case fdalloc f =>
    rw [exec] at he
    split at he
    · cases he
      rfl
    rename_i hf
    cases he
    have hstore := fdalloc_store hf
    exact hstore
  case dupFd f =>
    rw [exec] at he
    split at he
    · cases he
      rfl
    · rename_i hf
      cases he
      exact fdalloc_store hf
  case iputBegin i r =>
    rw [exec] at he
    split at he
    · split at he
      · cases he
      · cases he
        rfl
    · cases he
      rfl
  case ilockBusy i =>
    rw [exec] at he
    split at he
    · cases he
    split at he
    · cases he
      rfl
    · cases he
  case panic e => cases he
  case iget | iunlock | filealloc | filedup | takeFd | wait =>
    rw [exec] at he
    split at he <;> cases he
    all_goals rfl
  all_goals first
    | exact absurd ha Bool.false_ne_true
    | (cases he
       rfl)

/-! ## Actions that leave the process table and the open files alone -/

/-- The actions on open files, descriptors and the process table. -/
def Act.onFiles : Act → Bool
  | .setCwd _ | .filealloc | .fdalloc _ | .dupFd _ | .filedup _ _ | .takeFd _ | .clearFd _ | .setFile .. | .advance _ _
  | .fileDrop _ _ | .fork _ | .zombie | .wait _ => true
  | _ => false

def State.users (s : State) : Table File × Table Proc := (s.ftable, s.procs)

lemma onStore_users {α : Type} {m : FsM α} {r : α} (he : onStore p m s = .next r t) : t.users = s.users := by
  unfold onStore at he
  split at he <;> cases he
  rfl

lemma onInode_users {α : Type} {m : Dinode → FsM (α × Dinode)} {r : α} (he : Fs.onInode p i m s = .next r t) :
    t.users = s.users := by
  unfold Fs.onInode at he
  split at he <;> cases he
  rfl

lemma exec_users {a : Act} {r : a.Res} (ha : a.onFiles = false) (he : exec p a s = .next r t) : t.users = s.users := by
  cases a with
  | readsb =>
    rw [exec] at he
    exact onStore_users he
  | iallocTry i type =>
    rw [exec] at he
    split at he
    · rename_i u hrun
      cases he
      exact (onStore_users hrun : u.users = _)
    · exact onStore_users he
  | dirlookup i name =>
    rw [exec] at he
    split at he
    · rename_i u hrun
      split at he
      · cases he
      · cases he
        exact (onInode_users hrun : u.users = _)
    · exact onInode_users he
  | itrunc | edit | readi | writei | emptyDirent | isdirempty =>
    rw [exec] at he
    exact onInode_users he
  | beginTrans | iget | ilockBusy | ilockLoad | iunlock | iputBegin =>
    rw [exec] at he
    repeat' split at he
    all_goals
      cases he
      try rfl
  | commitTrans | idup | iputEnd | inode | noteParent | proc | cwd | argfd | file =>
    cases he
    rfl
  | panic e => cases he
  | _ => cases ha

/-- A program that leaves files and processes alone. -/
abbrev Silent {α : Type} (x : Kprog α) : Prop := x.All fun a => a.onFiles = false

lemma silent_panic {α : Type} [Inhabited α] (e : Panic) : Silent (panic e : Kprog α) :=
  .bind (.call rfl) fun _ => .pure _

lemma silent_iput (r : Ref) (i : Nat) : Silent (iput r i) := by
  refine .bind (.call rfl) fun last => ?_
  cases last with
  | false => exact .pure ()
  | true => exact .bind (.call rfl) fun _ => .bind (.call rfl) fun _ => .call rfl

end Xv6.Fs
