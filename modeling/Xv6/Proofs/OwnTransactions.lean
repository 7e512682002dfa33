import Xv6.Proofs.FileContents
import Xv6.Proofs.References

/-!
# Log writes in the writer's own transaction

A process writes to the log outside of its own transaction in two ways: it drops the last pointer to an
inode without links there, or it reads a file at a place that has no block yet.
-/

namespace Xv6.Fs

open Threads

variable {α : Type} {d : Disk} {r ip : Dinode} {t : Store} {s : State} {p i : Nat}
  {m : Dinode → FsM (α × Dinode)}

/-- Reading the file allocates nothing. -/
def NoHoles (d : Disk) (r : Dinode) : Prop :=
  r.size.toNat ≤ MAXFILE * BSIZE ∧ ∀ bn, bn < MAXFILE → bn * BSIZE < r.size.toNat → blockOf d r bn ≠ 0

instance (d : Disk) (r : Dinode) : Decidable (NoHoles d r) := inferInstanceAs (Decidable (_ ∧ _))

/-- What is asked of an action: an inode is freed, and a hole is filled, only in a transaction of the
process itself. -/
def logsInTrans (p : Pid) (a : Act) (s : State) : Prop :=
  match a with
  | .iputBegin i _ => (s.icache i).lastUnlinked = true → s.store.log.busy = some p
  | .readi i _ n => s.store.log.busy = some p ∨ n < 2 ^ 32 ∧ NoHoles s.store.disk (s.icache i).ino
  | .dirlookup i _ | .emptyDirent i | .isdirempty i =>
    s.store.log.busy = some p ∨ NoHoles s.store.disk (s.icache i).ino
  | _ => True

instance (p : Pid) (a : Act) (s : State) : Decidable (logsInTrans p a s) := by
  cases a <;> dsimp only [logsInTrans] <;> infer_instance

/-! ## Programs -/

/-- The panic of `log_write`, called from elsewhere. -/
def Act.asLog : Act → Bool
  | .panic .writeOutsideTrans => true
  | _ => false

abbrev Proper (x : Kprog α) : Prop := x.All (·.asLog = false)

lemma proper_iallocFrom (ninodes : Nat) (type : UInt16) (n i : Nat) : Proper (iallocFrom ninodes type n i) := by
  induction n generalizing i with
  | zero => exact .bind (.call rfl) fun _ => .pure _
  | succ n ih =>
    rw [iallocFrom]
    repeat' first | exact ih _ | refine .bind ?_ fun _ => ?_ | exact .call rfl | exact .pure _ | split

lemma proper_namexFrom (parent : Bool) (ip : Nat) (names : List (List UInt8)) : Proper (namexFrom parent ip names) := by
  induction names generalizing ip with
  | nil =>
    rw [namexFrom]
    repeat' first | refine .bind ?_ fun _ => ?_ | exact .call rfl | exact .pure _ | split
  | cons name names ih =>
    rw [namexFrom]
    repeat' first | exact ih _ | refine .bind ?_ fun _ => ?_ | exact .call rfl | exact .pure _ | split

lemma proper_filewriteFrom (f ip n : Nat) (src : List UInt8) : Proper (filewriteFrom f ip n src) := by
  induction n generalizing src with
  | zero => exact .pure _
  | succ n ih =>
    simp only [filewriteFrom, writeChunk, writeInode, advance]
    repeat' first | exact ih _ | refine .bind ?_ fun _ => ?_ | exact .call rfl | exact .pure _ | split

lemma proper_execReads (ip : Nat) (l : List (Nat × Nat × Option Nat)) : Proper (execReads ip l) := by
  induction l with
  | nil => exact .pure _
  | cons x l ih =>
    rw [execReads]
    repeat' first | exact ih | refine .bind ?_ fun _ => ?_ | exact .call rfl | exact .pure _ | split

lemma proper_closeFiles (n : Nat) : Proper (closeFiles n) := by
  induction n with
  | zero => exact .pure _
  | succ n ih =>
    simp only [closeFiles, fileclose]
    repeat' first | exact ih | refine .bind ?_ fun _ => ?_ | exact .call rfl | exact .pure _ | split

lemma proper_create (path : List UInt8) (type major minor : UInt16) : Proper (create path type major minor) := by
  repeat' first
    | with_reducible first | exact proper_namexFrom .. | exact proper_iallocFrom ..
    | refine .bind ?_ fun _ => ?_ | exact .call rfl | exact .pure _ | split | unfold nameiparent namex

-- the loops of the calls have lemmas of their own, so that the walk through a call ends
lemma proper_body (x : Syscall) : Proper x.body := by
  unfold Syscall.body
  repeat' first
    | with_reducible first
      | exact proper_create .. | exact proper_namexFrom .. | exact proper_filewriteFrom ..
      | exact proper_execReads .. | exact proper_closeFiles ..
    | refine .bind ?_ fun _ => ?_ | exact .call rfl | exact .pure _ | split
    | simp only [sysOpen, openInode, unlinkIn, isFullDir, nameiparent, namex, advance]

/-! ## Reads -/

/-- The computation leaves the blocks alone, and does not stop for want of a transaction. -/
def Reads (x : FsM α) (t : Store) : Prop := Ensures x t (fun _ t' => t' = t) (· ≠ .writeOutsideTrans)

namespace NoHoles

lemma backed (h : NoHoles d r) : Backed d r r.size.toNat := by
  intro bn hbn
  have hmax := h.1
  refine h.2 bn ?_ hbn
  unfold BSIZE at *
  omega

lemma readi (h : NoHoles t.disk ip) (off : Nat) {n : Nat} (hn : n < 2 ^ 32) :
    Ensures (readi ip off n) t (fun r t' => r.2 = ip ∧ t' = t) (· ≠ .writeOutsideTrans) := by
  by_cases hin : off ≤ ip.size.toNat ∧ off + n < 2 ^ 32
  · refine .of_eq (readi_backed hin.1 hin.2 h.1 (h.backed.mono ?_)) ⟨rfl, rfl⟩
    unfold readCount
    omega
  · have hsize := ip.size.toNat_lt
    unfold Fs.readi
    rw [if_pos (by omega)]
    exact .pure ⟨rfl, rfl⟩

/-- One round of a loop over the entries of a directory. -/
lemma round {c : Prop} [Decidable c] {e : Panic} {off : Nat} {f : Dirent × Dinode → FsM α} {a : α}
    (h : NoHoles t.disk ip) (he : e ≠ .writeOutsideTrans) (hf : ∀ de, Reads (f (de, ip)) t) :
    Reads (if c then readDirent e ip off >>= f else pure a) t := by
  have hentry : Ensures (readDirent e ip off) t (fun r t' => r.2 = ip ∧ t' = t) (· ≠ .writeOutsideTrans) := by
    refine (h.readi off (by decide)).bind ?_
    rintro ⟨l, _⟩ _ ⟨rfl, rfl⟩
    cases l with
    | none => exact .throw he
    | some l => exact .ite (fun _ => .pure ⟨rfl, rfl⟩) fun _ => .throw he
  refine .ite (fun _ => hentry.bind ?_) fun _ => .pure rfl
  rintro ⟨de, _⟩ _ ⟨rfl, rfl⟩
  exact hf de

lemma lookupFrom (h : NoHoles t.disk ip) (name : List UInt8) (n off : Nat) : Reads (lookupFrom name n ip off) t := by
  induction n generalizing off with
  | zero => exact .pure rfl
  | succ n ih => exact h.round (by decide) fun _ => .ite (fun _ => .pure rfl) fun _ => ih _

lemma emptyFrom (h : NoHoles t.disk ip) (n off : Nat) : Reads (emptyFrom n ip off) t := by
  induction n generalizing off with
  | zero => exact .pure rfl
  | succ n ih => exact h.round (by decide) fun _ => .ite (fun _ => .pure rfl) fun _ => ih _

lemma isdiremptyFrom (h : NoHoles t.disk ip) (n off : Nat) : Reads (isdiremptyFrom n ip off) t := by
  induction n generalizing off with
  | zero => exact .pure rfl
  | succ n ih => exact h.round (by decide) fun _ => .ite (fun _ => .pure rfl) fun _ => ih _

end NoHoles

/-! ## Actions -/

/-- However the action of `p` ends, what it has written to the log is in a transaction of `p`. -/
inductive Safe (p : Pid) (s : State) : Result α → Prop where
  | blocked : Safe p s .blocked
  | stop {e : Panic} (h : e ≠ .writeOutsideTrans) : Safe p s (.stop e)
  | next {r : α} {s' : State} (h : ∀ w ∈ s'.store.writes, w ∈ s.store.writes ∨ w = (p, some p)) :
    Safe p s (.next r s')

/-- The same for a computation on blocks. -/
def SafeStore (p : Pid) (s : State) (x : FsM α) : Prop :=
  Ensures x { s.store with caller := p } (fun _ t => ∀ w ∈ t.writes, w ∈ s.store.writes ∨ w = (p, some p))
    (· ≠ .writeOutsideTrans)

lemma Logs.safe {x : FsM α} (hx : Logs x) (hb : s.store.log.busy = some p) : SafeStore p s x := by
  refine (hx _).mono (fun _ t h w hw => ?_) fun e he => he (by simp [hb])
  simpa [hb] using h.writes w hw

lemma Reads.safe {x : FsM α} (h : Reads x { s.store with caller := p }) : SafeStore p s x := by
  refine h.mono (fun _ t ht w hw => .inl ?_) fun _ he => he
  rwa [ht] at hw

lemma onInode_safe (h : SafeStore p s (m (s.icache i).ino)) :
    Safe p s (onInode p i m s) := by
  unfold onInode
  split
  · rename_i he
    exact .next (h.of_ok _ _ he)
  · rename_i he
    exact .stop (h.of_error _ _ he)

lemma onStore_safe {x : FsM α} (h : SafeStore p s x) : Safe p s (onStore p x s) := by
  unfold onStore
  split
  · rename_i he
    exact .next (h.of_ok _ _ he)
  · rename_i he
    exact .stop (h.of_error _ _ he)

lemma logs_safe (hm : ∀ ip, Logs (m ip)) (hb : s.store.log.busy = some p) : Safe p s (onInode p i m s) :=
  onInode_safe ((hm _).safe hb)

lemma reads_safe (hm : ∀ ip, Logs (m ip))
    (hread : ∀ t : Store, NoHoles t.disk (s.icache i).ino → Reads (m (s.icache i).ino) t)
    (h : s.store.log.busy = some p ∨ NoHoles s.store.disk (s.icache i).ino) : Safe p s (onInode p i m s) :=
  h.elim (logs_safe hm) fun h => onInode_safe (Reads.safe (hread _ h))

lemma exec_stop {a : Act} {e : Panic} (ha : plain a = true) (hp : a.asLog = false) (he : exec p a s = .stop e) :
    e ≠ .writeOutsideTrans := by
  cases a
  case panic e' =>
    cases he
    rintro rfl
    cases hp
  case fileDrop f fd =>
    rw [exec, fileDrop] at he
    (repeat' split at he) <;> cases he
    decide
  case iget | ilockBusy | iunlock | iputBegin | filedup | fork | takeFd | filealloc | fdalloc | dupFd | wait =>
    rw [exec] at he
    (repeat' split at he) <;> cases he
    all_goals decide
  all_goals first
    | exact absurd ha Bool.false_ne_true
    | cases he

lemma plain_safe {a : Act} (ha : plain a = true) (hp : a.asLog = false) : Safe p s (exec p a s) := by
  cases he : exec p a s with
  | blocked => exact .blocked
  | stop e => exact .stop (exec_stop ha hp he)
  | next r s' => exact .next fun w hw => .inl (exec_store ha he ▸ hw)

lemma exec_safe {a : Act} (hn : Refs.Needs true p a s) (hg : logsInTrans p a s) (hp : a.asLog = false) :
    Safe p s (exec p a s) := by
  cases a
  case beginTrans =>
    rw [exec]
    split
    · exact .next fun _ hw => .inl hw
    · exact .blocked
  case commitTrans => exact .next fun _ hw => .inl hw
  case readsb => exact onStore_safe (Reads.safe (readsb_bind (.pure rfl)))
  case ilockLoad i =>
    rw [exec]
    split
    · exact .next fun _ hw => .inl hw
    split
    · exact .stop (by decide)
    · exact .next fun _ hw => .inl hw
  case iallocTry i type =>
    have hsafe := onStore_safe ((Logs.iallocTry i type).safe hn)
    rw [exec]
    split
    · rename_i heq
      rw [heq] at hsafe
      cases hsafe with
      | next h => exact .next h
    · exact hsafe
  case itrunc i =>
    rw [exec]
    exact logs_safe (fun ip => .bind (.itrunc i ip) fun _ => .pure _) (hn.2 rfl)
  case edit i e =>
    have hb : s.store.log.busy = some p := by
      cases e with
      | free => exact hn.2 rfl
      | link | unlink | fresh => exact hn.2
    exact logs_safe (fun ip => .bind (.iupdate i _) fun _ => .pure _) hb
  case writei i off src => exact logs_safe (fun ip => .writei i ip off src) hn.2
  case readi i off n =>
    rcases hg with hb | ⟨hn, hh⟩
    · exact logs_safe (fun ip => .readi ip off n) hb
    · exact reads_safe (fun ip => .readi ip off n)
        (fun _ h => (h.readi off hn).mono (fun _ _ h => h.2) fun _ h => h) (.inr hh)
  case dirlookup i name =>
    have hsafe := reads_safe (fun dp => .dirlookup dp name)
      (fun _ h => .ite (fun _ => .throw (by decide)) fun _ => h.lookupFrom name _ 0) hg
    rw [exec]
    split
    · rename_i heq
      rw [heq] at hsafe
      cases hsafe with
      | next h =>
        split
        · exact .stop (by decide)
        · exact .next h
    · exact hsafe
  case emptyDirent i => exact reads_safe (fun dp => .emptyFrom _ dp 0) (fun _ h => h.emptyFrom _ 0) hg
  case isdirempty i => exact reads_safe (fun dp => .isdiremptyFrom _ dp _) (fun _ h => h.isdiremptyFrom _ _) hg
  all_goals exact plain_safe rfl hp

/-! ## Runs -/

/-- Where inodes are freed and holes are filled in the transaction of the process that does it, every log
write is in the writer's own transaction, and the panic of `log_write` does not happen. -/
theorem log_writes_owned (d : Table Block) {c : Config Pid Act Act.Res State Panic}
    (hr : Reaches kernel logsInTrans (.initial (boot d)) c) :
    (∀ w ∈ c.st.store.writes, w.2 = some w.1) ∧ c.stopped ≠ some .writeOutsideTrans := by
  have hgiven : ∀ p a s, logsInTrans p a s → (Refs.logic true).Given p a s := by
    intro p a s h _
    cases a with
    | iputBegin i r => exact h
    | _ => trivial
  have hsafe : ∀ {c}, Reaches kernel logsInTrans (.initial (boot d)) c → ∀ {p a k},
      c.thread p = some (.act a k) → logsInTrans p a c.st → Safe p c.st (exec p a c.st) := by
    intro c hr p a k ht hg
    have hsound := Refs.runs true d (Reaches.strengthen kernel (fun _ _ p a _ _ hg => hgiven p a _ hg) hr)
    exact exec_safe (hsound.pre Refs.Env.refl ht (hgiven p a _ hg)) hg (Reaches.all kernel proper_body hr ht).1
  induction hr with
  | refl => exact ⟨fun w hw => absurd hw List.not_mem_nil, nofun⟩
  | tail hr hstep ih =>
    cases hstep with
    | start => exact ih
    | finish => exact ih
    | @act p a k r s ht _ hg he =>
      refine ⟨fun w hw => ?_, ih.2⟩
      have hs := hsafe hr ht hg
      rw [show exec p a _ = .next r s from he] at hs
      cases hs with
      | next h =>
        rcases h w hw with hw | rfl
        · exact ih.1 w hw
        · rfl
    | @stop p a k e ht _ hg he =>
      have hs := hsafe hr ht hg
      rw [show exec p a _ = .stop e from he] at hs
      cases hs with
      | stop h => exact ⟨ih.1, fun heq => h (Option.some.inj heq)⟩

def makeOne : Config Pid Act Act.Res State Panic :=
  Config.play kernel logsInTrans (.initial (boot (image []))) (oneByOne [(1, .mkdir (some [97]))])

theorem log_writes_owned_mkdir : Reaches kernel logsInTrans (.initial (boot (image []))) makeOne ∧
    makeOne.st.store.writes ≠ [] ∧
    (∀ w ∈ makeOne.st.store.writes, w.2 = some w.1) ∧ makeOne.stopped ≠ some .writeOutsideTrans :=
  ⟨Config.play_reaches _ _, by decide +kernel, log_writes_owned (image []) (Config.play_reaches _ _)⟩

/-- Process 1 leaves a directory that was removed while it was its current one. -/
def leaveRemoved : List (Turn Pid Syscall) := oneByOne [
  (1, .mkdir (some [97])), (1, .chdir (some [97])), (1, .unlink (some [47, 97])), (1, .chdir (some [47]))]

/-- The `iput` of `chdir` frees the old directory, and no transaction is open. -/
theorem chdir_logs_outside : ∃ c, Reaches kernel (fun _ _ _ => True) (.initial (boot (image []))) c ∧
    c.stopped = some .writeOutsideTrans :=
  ⟨_, Config.play_reaches _ leaveRemoved, by decide +kernel⟩

end Xv6.Fs
