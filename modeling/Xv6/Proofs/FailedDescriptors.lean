import Xv6.Ftable
import Xv6.Proofs.KernelRuns
import Xv6.Proofs.PathWalk

/-!
# Descriptors that are not made

`open`, `pipe` and `dup` take an inode, files, a page and descriptors one after the other. When one of
them cannot be had, those before it are given back.
-/

open Threads List Table

namespace Xv6.Fs

variable {p : Pid} {s t : State} {o : Option Pid} {l k : List Nat} {i d : Nat} {name path : List UInt8} {omode : UInt32}

/-! ## Calls of `create` that make no file -/

namespace Walk

lemma beginTrans (h : Walk p s o l k t) : Solo (exec p) Fs.beginTrans t (fun _ => Walk p s (some p) l k) True := by
  refine .act (fun r u he => ?_) trivial
  rw [exec] at he
  split at he
  · cases he
    exact { h with log := rfl }
  · cases he

lemma commitTrans (h : Walk p s o l k t) : Solo (exec p) Fs.commitTrans t (fun _ => Walk p s none l k) True :=
  .call rfl { h with log := rfl }

lemma lock (h : Walk p s o l k t) (hl : i ∈ l) (hk : i ∉ k) :
    Solo (exec p) (Fs.ilock i) t (fun _ => Walk p s o l (i :: k)) True :=
  (h.ilock hl hk).mono (fun _ _ h => h.2) fun _ => trivial

lemma put (h : Walk p s o (i :: l) (i :: k) t) (hk : i ∉ k) (ho : o = none ∨ s.Keeps l i) :
    Solo (exec p) (Fs.iunlockput i) t (fun _ => Walk p s o l k) True :=
  (h.iunlockput hk ho).mono (fun _ _ h => h.2) fun _ => trivial

lemma users (h : Walk p s o l k t) : t.users = s.users := by rw [State.users, h.ftable, h.procs, State.users]

end Walk

lemma Silent.users {α : Type} {x : Kprog α} (h : Silent x) : Solo (exec p) x s (fun _ t => t.users = s.users) True :=
  .frame (h.mono fun _ ha _ _ _ he => exec_users ha he) trivial

lemma silent_dirlink (d : Nat) (name : List UInt8) (i : Nat) : Silent (dirlink d name i) := by
  refine .bind (.call rfl) fun r => ?_
  cases r with
  | some x => exact .bind (silent_iput _ _) fun _ => .pure _
  | none =>
    refine .bind (.call rfl) fun off => .bind (.call rfl) fun r => ?_
    split
    · exact .pure _
    · exact silent_panic _

lemma silent_iallocFrom (ninodes : Nat) (type : UInt16) (n i : Nat) : Silent (iallocFrom ninodes type n i) := by
  induction n generalizing i with
  | zero => exact silent_panic _
  | succ n ih =>
    rw [iallocFrom]
    split
    · refine .bind (.call rfl) fun found => ?_
      cases found with
      | false => exact ih (i + 1)
      | true => exact .bind (.call rfl) fun _ => .pure _
    · exact silent_panic _

lemma silent_createIn (d : Nat) (name : List UInt8) (major minor : UInt16) :
    Silent (createIn d name T_FILE major minor) := by
  refine .bind (.bind (.call rfl) fun _ => silent_iallocFrom ..) fun i => ?_
  refine .bind (.bind (.call rfl) fun _ => .call rfl) fun _ => .bind (.call rfl) fun _ => ?_
  refine .bind (silent_dirlink ..) fun r => ?_
  cases r with
  | false => exact silent_panic _
  | true => exact .bind (.bind (.call rfl) fun _ => silent_iput ..) fun _ => .pure _

/-- The last component is not in the directory that the others lead to. -/
def State.Lacks (s : State) (p : Pid) (path : List UInt8) : Prop :=
  ∃ d name, resolveParent s (startOf s p path) (components path) = some (d, name) ∧ lookupIn s d name = none

/-- In the transaction of `open` no hole is filled and no inode freed, on the way to the directory and in it. -/
def State.Undisturbed (s : State) (p : Pid) (path : List UInt8) : Prop :=
  Resolvable False s p [] true path ∧
  ∀ d name, resolveParent s (startOf s p path) (components path) = some (d, name) →
    Searchable s.store.disk (s.view d) name ∧
    ∀ i ∈ lookupIn s d name, s.Keeps [i] d ∧ ((s.view i).type ≠ T_FILE → s.Keeps [] i)

lemma resolveParent_dir {names : List (List UInt8)} (h : resolveParent s i names = some (d, name)) :
    (s.view d).type = T_DIR := by
  obtain rfl | ⟨names, x, rfl⟩ := names.eq_nil_or_concat'
  · cases h
  rw [resolveParent_concat] at h
  obtain ⟨e, -, hd⟩ := Option.bind_eq_some_iff.mp h
  split at hd
  · rename_i hdir
    cases hd
    exact hdir
  · cases hd

lemma create_spec (hcwd : 0 < (s.icache (s.procs p).cwd).ref) (hs : s.Undisturbed p path)
    (h : Walk p s (some p) [] [] t) :
    Solo (exec p) (create path T_FILE 0 0) t (fun r u => (r = none ∧ Walk p s (some p) [] [] u) ∨
      (∃ i, r = some i ∧ Walk p s (some p) [i] [i] u) ∨ (r ≠ none ∧ s.Lacks p path ∧ u.users = s.users)) True := by
  refine ((namex_spec hcwd h (.inr hs.1)).mono (fun _ _ h => h) fun _ => trivial).bind ?_
  rintro r t ⟨-, hr, h⟩
  cases r with
  | none => exact .pure (.inl ⟨rfl, h⟩)
  | some x =>
    obtain ⟨d, name⟩ := x
    replace hr : resolveParent s (startOf s p path) (components path) = some (d, name) := hr.symm
    obtain ⟨hsearch, hkeeps⟩ := hs.2 d name hr
    have hdir := resolveParent_dir hr
    refine (h.lock mem_cons_self (by simp)).bind fun _ t h => ?_
    refine ((h.dirlookup mem_cons_self hdir name (.inr hsearch)).mono (fun _ _ h => h.2) fun _ => trivial).bind ?_
    rintro r t ⟨hr', h⟩
    cases r with
    | none =>
      refine Solo.bind (Q := fun _ u => u.users = s.users) ?_ fun _ _ hu =>
        .pure (.inr (.inr ⟨Option.some_ne_none _, ⟨d, name, hr, hr'.symm⟩, hu⟩))
      exact (silent_createIn ..).users.mono (fun _ _ hu => hu.trans h.users) id
    | some x =>
      obtain ⟨i, off⟩ := x
      rw [← hr'] at h hkeeps
      obtain ⟨hd, hi⟩ := hkeeps i rfl
      have hswap : Walk p s (some p) [d, i] [d] t := h.perm fun j => by simp [count_cons, Nat.add_comm]
      refine (hswap.put (by simp) (.inr hd)).bind fun _ t h => ?_
      refine (h.lock mem_cons_self (by simp)).bind fun _ t h => ?_
      refine (h.inode mem_cons_self).bind ?_
      rintro _ t ⟨rfl, h⟩
      split
      · exact .pure (.inr (.inl ⟨i, rfl, h⟩))
      · rename_i hfile
        refine (h.put (by simp) (.inr (hi fun ht => hfile ⟨rfl, ht⟩))).bind fun _ _ h => .pure (.inl ⟨rfl, h⟩)

/-! ## `open` -/

/-- There are a file and a descriptor for `open`. -/
def State.Room (s : State) (p : Pid) : Prop :=
  (∃ f, f < NFILE ∧ (s.ftable f).ref = 0) ∧ ∃ fd, fd < NOFILE ∧ (s.procs p).ofile fd = none

lemma openInode_spec (hs : State.Idle p s) (path : List UInt8) (omode : UInt32)
    (hmode : omode &&& O_CREATE ≠ 0 → s.Undisturbed p path) :
    Solo (exec p) (openInode path omode) s (fun r t => (r = none ∧ Walk p s none [] [] t) ∨
      (∃ i, r = some i ∧ Walk p s none [i] [i] t) ∨
      (r ≠ none ∧ omode &&& O_CREATE ≠ 0 ∧ s.Lacks p path ∧ t.users = s.users)) True := by
  have hwalk := Walk.start hs
  unfold openInode
  split
  · rename_i hcreate
    refine hwalk.beginTrans.bind fun _ t h => ?_
    refine (create_spec hs.cwd (hmode hcreate) h).bind fun r t hr => ?_
    rcases hr with ⟨rfl, h⟩ | ⟨i, rfl, h⟩ | ⟨hr, hl, hu⟩
    · exact h.commitTrans.bind fun _ _ h => .pure (.inl ⟨rfl, h⟩)
    · exact h.commitTrans.bind fun _ _ h => .pure (.inr (.inl ⟨i, rfl, h⟩))
    · exact .step rfl (.pure (.inr (.inr ⟨hr, hcreate, hl, hu⟩)))
  · refine ((namei_spec hs.cwd hwalk (.inl rfl)).mono (fun _ _ h => h.2) fun _ => trivial).bind ?_
    rintro r t ⟨-, h⟩
    cases r with
    | none => exact .pure (.inl ⟨rfl, h⟩)
    | some i =>
      refine (h.lock mem_cons_self (by simp)).bind fun _ t h => ?_
      refine (h.inode mem_cons_self).bind ?_
      rintro _ t ⟨rfl, h⟩
      split
      · exact (h.put (by simp) (.inl rfl)).bind fun _ _ h => .pure (.inl ⟨rfl, h⟩)
      · exact .pure (.inr (.inl ⟨i, rfl, h⟩))

/-- What a failed `open` leaves alone: the inodes, their bytes and how often each is referenced, the files and the
descriptors. -/
structure Unopened (s t : State) : Prop where
  inode : ∀ i, t.view i = s.view i
  content : ∀ i, byteOf t.store.disk (t.view i) = byteOf s.store.disk (s.view i)
  ref : ∀ i, (t.icache i).ref = (s.icache i).ref
  files : ∀ f, t.ftable f = s.ftable f
  procs : t.procs = s.procs

lemma Walk.unopened {T : Table File} (h : Walk p { s with ftable := T } o [] [] t) (hT : ∀ f, T f = s.ftable f) :
    Unopened s t :=
  ⟨h.view, fun i => by rw [h.view, h.disk]; rfl, h.ref, fun f => by rw [h.ftable, hT], h.procs⟩

/-- The state with file `f` allocated. -/
def State.withFile (s : State) (f : Nat) : State := { s with ftable := s.ftable.set f { s.ftable f with ref := 1 } }

lemma Walk.filealloc (h : Walk p s o l k t) : Solo (exec p) (act .filealloc) t (fun r u =>
    (r = none ∧ Walk p s o l k u) ∨ ∃ f, r = some f ∧ (s.ftable f).ref = 0 ∧ Walk p (s.withFile f) o l k u) True := by
  refine .act (fun r u he => ?_) trivial
  rw [exec] at he
  split at he
  · cases he
    exact .inl ⟨rfl, h⟩
  · rename_i f hf
    cases he
    have href : (t.ftable f).ref = 0 := by simpa using List.find?_some hf
    rw [h.ftable] at href ⊢
    exact .inr ⟨f, rfl, href, h.log, h.disk, h.procs, rfl, h.rest, h.ref, h.locker, h.view, h.free, h.held⟩

/-- Files that are not in use have no type, as `fileclose` leaves them. -/
def State.Closed (s : State) : Prop := ∀ f, (s.ftable f).ref = 0 → (s.ftable f).type = .none

lemma Walk.fileclose_new {f : Nat} (href : (s.ftable f).ref = 0) (htype : (s.ftable f).type = .none)
    (h : Walk p (s.withFile f) o l k t) : Solo (exec p) (fileclose f none) t (fun _ u =>
      ∃ T : Table File, (∀ g, T g = s.ftable g) ∧ Walk p { s with ftable := T } o l k u) True := by
  have hfile : t.ftable f = { s.ftable f with ref := 1 } := by rw [h.ftable, State.withFile, get_set_self]
  have he : exec p (.fileDrop f none) t = .next (some (t.ftable f)) { t with
      ftable := t.ftable.set f { t.ftable f with ref := 0, type := .none }
      fholders := t.fholders.set f ((t.fholders f).erase ⟨p, none⟩) } := by
    simp [exec, fileDrop, hfile, htype]
  refine .step he ?_
  dsimp only
  rw [if_neg (by simp [hfile, htype])]
  refine .pure ⟨t.ftable.set f { t.ftable f with ref := 0, type := .none }, fun g => ?_,
    h.log, h.disk, h.procs, rfl, h.rest, h.ref, h.locker, h.view, h.free, h.held⟩
  by_cases hg : g = f
  · rw [hg, get_set_self, hfile, ← href, ← htype]
  · rw [get_set_ne _ _ hg, h.ftable, State.withFile, get_set_ne _ _ hg]

lemma openFile_fails (hclosed : s.Closed) (h : Walk p s none [i] [i] t) :
    Solo (exec p) (openFile i omode) t (fun r u => r = -1 → Unopened s u) True := by
  refine h.filealloc.bind ?_
  rintro _ t (⟨rfl, h⟩ | ⟨f, rfl, href, h⟩)
  · exact (h.put (by simp) (.inl rfl)).bind fun _ _ h => .pure fun _ => h.unopened (T := s.ftable) fun _ => rfl
  have hfd : Solo (exec p) (act (.fdalloc f)) t (fun r u => r = none → u = t) True := by
    refine .act (fun r u he => ?_) trivial
    rw [exec] at he
    split at he
    · cases he
      exact fun _ => rfl
    · cases he
      rintro ⟨⟩
  refine hfd.bind fun r u hu => ?_
  cases r with
  | some fd => exact .skip (fun _ _ => .skip (fun _ _ => .pure fun h => by omega) trivial) trivial
  | none =>
    rw [hu rfl]
    refine (h.fileclose_new href (hclosed f href)).bind ?_
    rintro _ u ⟨T, hT, h⟩
    exact (h.put (by simp) (.inl rfl)).bind fun _ _ h => .pure fun _ => h.unopened hT

lemma openFile_succeeds (h : t.Room p) : Solo (exec p) (openFile i omode) t (fun r _ => r ≠ -1) True := by
  obtain ⟨⟨f, hf, href⟩, fd, hfd, hnone⟩ := h
  cases hfile : (List.range NFILE).find? fun f => (t.ftable f).ref = 0 with
  | none => simpa [href] using List.find?_eq_none.mp hfile f (mem_range.mpr hf)
  | some g =>
    cases hdesc : (List.range NOFILE).find? fun fd => (t.procs p).ofile fd = none with
    | none => simpa [hnone] using List.find?_eq_none.mp hdesc fd (mem_range.mpr hfd)
    | some fd' =>
      refine .step (r := some g) (by rw [exec, hfile]) (.step (r := some fd') (by rw [exec, fdalloc, hdesc]) ?_)
      exact .skip (fun _ _ => .skip (fun _ _ => .pure fun h => by omega) trivial) trivial

lemma sysOpen_fails (hs : State.Idle p s) (hclosed : s.Closed) (path : Option (List UInt8))
    (hmode : ∀ q, path = some q → omode &&& O_CREATE ≠ 0 → s.Undisturbed p q ∧ (s.Lacks p q → s.Room p)) :
    Solo (exec p) (sysOpen path omode) s (fun r t => r = -1 → Unopened s t) True := by
  cases path with
  | none => exact .pure fun _ => (Walk.start hs).unopened (T := s.ftable) fun _ => rfl
  | some path =>
    refine (openInode_spec hs path omode fun h => (hmode path rfl h).1).bind ?_
    rintro r t (⟨rfl, h⟩ | ⟨i, rfl, h⟩ | ⟨hne, hcreate, hl, hu⟩)
    · exact .pure fun _ => h.unopened (T := s.ftable) fun _ => rfl
    · exact openFile_fails hclosed h
    · have hroom : t.Room p := by
        obtain ⟨hf, hp⟩ := Prod.mk.inj hu
        rw [State.Room, hf, hp]
        exact (hmode path rfl hcreate).2 hl
      cases r with
      | none => exact absurd rfl hne
      | some i => exact (openFile_succeeds hroom).mono (fun _ _ hne h => absurd h hne) id

end Xv6.Fs

namespace Xv6.Ftable

variable {nproc p : Nat} {s t : State} {f : Nat} {G : List Nat}

/-- As `s`, with the files `G` allocated. -/
structure Taken (s : State) (G : List Nat) (t : State) : Prop where
  files : ∀ f, f ∉ G → t.ftable f = s.ftable f
  new : ∀ f ∈ G, (s.ftable f).ref = 0 ∧ t.ftable f = { s.ftable f with ref := 1 }
  nodup : G.Nodup
  pages : ∀ x, t.pages x = s.pages x
  ofile : ∀ q fd, (t.procs q).ofile fd = (s.procs q).ofile fd

/-- A process keeps its descriptors when what else it has changes. -/
lemma ofile_set {q : Proc} (hq : q.ofile = (s.procs p).ofile) (o fd : Nat) :
    ((s.procs.set p q) o).ofile fd = (s.procs o).ofile fd := by
  rw [get_set]
  split
  · rw [hq, ‹o = p›]
  · rfl

lemma Taken.filealloc (h : Taken s G t) : Solo (exec nproc p) (act .filealloc) t (fun r u =>
    (r = none ∧ Taken s G u) ∨ ∃ f, r = some f ∧ Taken s (f :: G) u) True := by
  refine .act (fun r u he => ?_) trivial
  rw [exec] at he
  split at he
  · cases he
    exact .inl ⟨rfl, h⟩
  · rename_i f hf
    cases he
    have href : (t.ftable f).ref = 0 := by simpa using List.find?_some hf
    have hG : f ∉ G := fun hG => by simp [(h.new f hG).2] at href
    rw [h.files f hG] at href
    refine .inr ⟨f, rfl, fun g hg => ?_, fun g hg => ?_, h.nodup.cons hG, h.pages, fun q fd => ?_⟩
    · rw [mem_cons, not_or] at hg
      exact (get_set_ne _ _ hg.1).trans (h.files g hg.2)
    · by_cases hgf : g = f
      · subst hgf
        exact ⟨href, (get_set_self ..).trans (by rw [h.files g hG])⟩
      · obtain ⟨h0, h1⟩ := h.new g ((mem_cons.mp hg).resolve_left hgf)
        exact ⟨h0, (get_set_ne _ _ hgf).trans h1⟩
    · exact (ofile_set (s := t) (by rfl) q fd).trans (h.ofile q fd)

lemma exec_drop_last (href : (t.ftable f).ref = 1) : exec nproc p (.drop f) t = .next (some (t.ftable f))
    ((t.setFile f { t.ftable f with ref := 0, type := .none }).setProc
      p { t.procs p with refs := (t.procs p).refs.erase f, closing := (t.ftable f).pipeEnd }) := by
  simp [exec, href]

lemma Taken.fileclose (hfree : ∀ f, (s.ftable f).ref = 0 → (s.ftable f).type = .none) (h : Taken s (f :: G) t) :
    Solo (exec nproc p) (fileclose f) t (fun _ => Taken s G) True := by
  obtain ⟨href, hfile⟩ := h.new f mem_cons_self
  have htype := hfree f href
  obtain ⟨hG, hnodup⟩ := nodup_cons.mp h.nodup
  refine .step (exec_drop_last (by rw [hfile])) ?_
  dsimp only
  rw [if_neg (by simp [hfile, htype])]
  refine .pure ⟨fun g hg => ?_, fun g hg => ?_, hnodup, h.pages, fun q fd => ?_⟩
  · by_cases hgf : g = f
    · rw [hgf]
      refine (get_set_self ..).trans ?_
      rw [hfile, ← href, ← htype]
    · exact (get_set_ne _ _ hgf).trans (h.files g (by simp [hgf, hg]))
  · have hgf : g ≠ f := fun e => hG (e ▸ hg)
    obtain ⟨h0, h1⟩ := h.new g (mem_cons_of_mem _ hg)
    exact ⟨h0, (get_set_ne _ _ hgf).trans h1⟩
  · exact (ofile_set (s := t) (by rfl) q fd).trans (h.ofile q fd)

/-- The files `rf` and `wf` have become the ends of a pipe in page `pg`. -/
structure Piped (s : State) (rf wf pg : Nat) (t : State) : Prop where
  ne : rf ≠ wf
  free : (s.ftable rf).ref = 0 ∧ (s.ftable wf).ref = 0
  files : ∀ f, f ≠ rf → f ≠ wf → t.ftable f = s.ftable f
  read : t.ftable rf = { s.ftable rf with ref := 1, type := .pipe, readable := true, writable := false, pipe := pg }
  write : t.ftable wf = { s.ftable wf with ref := 1, type := .pipe, readable := false, writable := true, pipe := pg }
  page : s.pages pg = none ∧ t.pages pg = some ⟨true, true⟩
  pages : ∀ x, x ≠ pg → t.pages x = s.pages x
  ofile : ∀ q fd, (t.procs q).ofile fd = (s.procs q).ofile fd

/-- What a failed `pipe` or `dup` leaves alone: of a file that is not in use, what `filealloc` and
`fileclose` look at. -/
structure Unmade (s t : State) : Prop where
  files : ∀ f, (t.ftable f).ref = (s.ftable f).ref ∧ (t.ftable f).type = (s.ftable f).type ∧
    ((s.ftable f).ref ≠ 0 → t.ftable f = s.ftable f)
  pages : ∀ x, t.pages x = s.pages x
  ofile : ∀ q fd, (t.procs q).ofile fd = (s.procs q).ofile fd

lemma Taken.unmade (h : Taken s [] t) : Unmade s t :=
  ⟨fun f => by simp [h.files f not_mem_nil], h.pages, h.ofile⟩

/-- What is left of a pipe when an end is closed. -/
def Pipe.left (x : Pipe) (writable : Bool) : Option Pipe :=
  if (x.close writable).readopen = false ∧ (x.close writable).writeopen = false then none else some (x.close writable)

lemma pipeclose_spec {x : Pipe} {pg : Nat} (w : Bool) (hx : t.pages pg = some x) :
    Solo (exec nproc p) (act (.pipeclose pg w)) t (fun _ u => u.ftable = t.ftable ∧
      u.pages = t.pages.set pg (x.left w) ∧ ∀ q fd, (u.procs q).ofile fd = (t.procs q).ofile fd) True := by
  refine .act (fun r u he => ?_) trivial
  rw [exec, hx] at he
  unfold Pipe.left
  dsimp only at he
  split at he
  · rename_i hc
    cases he
    rw [if_pos hc]
    exact ⟨rfl, rfl, ofile_set (by rfl)⟩
  · rename_i hc
    cases he
    rw [if_neg hc]
    exact ⟨rfl, rfl, ofile_set (by rfl)⟩

lemma fileclose_end {x : Pipe} {pg : Nat} {w : Bool} (href : (t.ftable f).ref = 1)
    (hend : (t.ftable f).pipeEnd = some (pg, w)) (hx : t.pages pg = some x) :
    Solo (exec nproc p) (fileclose f) t (fun _ u =>
      u.ftable = t.ftable.set f { t.ftable f with ref := 0, type := .none } ∧ u.pages = t.pages.set pg (x.left w) ∧
      ∀ q fd, (u.procs q).ofile fd = (t.procs q).ofile fd) True := by
  unfold File.pipeEnd at hend
  split at hend
  · rename_i htype
    cases hend
    refine .step (exec_drop_last href) ?_
    dsimp only
    rw [if_pos htype]
    refine (pipeclose_spec _ ?_).mono (fun _ u h => ⟨h.1, h.2.1, fun q fd => ?_⟩) id
    · exact hx
    · exact (h.2.2 q fd).trans (ofile_set (s := t) (by rfl) q fd)
  · cases hend

lemma Piped.close {rf wf pg : Nat} (hfree : ∀ f, (s.ftable f).ref = 0 → (s.ftable f).type = .none)
    (h : Piped s rf wf pg t) : Solo (exec nproc p) (do
      Ftable.fileclose rf
      Ftable.fileclose wf
      return (-1 : Int)) t (fun _ => Unmade s) True := by
  refine (fileclose_end (by rw [h.read]) (by rw [h.read]; rfl) h.page.2).bind ?_
  rintro _ u ⟨hfiles, hpages, hofile⟩
  have hwrite : u.ftable wf = t.ftable wf := by rw [hfiles, get_set_ne _ _ (Ne.symm h.ne)]
  have hpage : u.pages pg = some ⟨false, true⟩ := by
    rw [hpages, get_set_self]
    rfl
  refine (fileclose_end (by rw [hwrite, h.write]) (by rw [hwrite, h.write]; rfl) hpage).bind ?_
  rintro _ v ⟨hfiles', hpages', hofile'⟩
  refine .pure ⟨fun f => ?_, fun x => ?_, fun q fd => ?_⟩
  · rw [hfiles']
    by_cases hw : f = wf
    · subst hw
      simp [h.free.2, hfree f h.free.2]
    · rw [get_set_ne _ _ hw, hfiles]
      by_cases hr : f = rf
      · subst hr
        simp [h.free.1, hfree f h.free.1]
      · rw [get_set_ne _ _ hr, h.files f hr hw]
        simp
  · rw [hpages']
    by_cases hx : x = pg
    · rw [hx, get_set_self, h.page.1]
      rfl
    · rw [get_set_ne _ _ hx, hpages, get_set_ne _ _ hx, h.pages x hx]
  · rw [hofile', hofile, h.ofile]

/-- Process `p` has two free descriptors. -/
def State.TwoFree (s : State) (p : Nat) : Prop :=
  ∃ a b, a ≠ b ∧ a < NOFILE ∧ b < NOFILE ∧ (s.procs p).ofile a = none ∧ (s.procs p).ofile b = none

lemma fdalloc_first (f : Nat) : Solo (exec nproc p) (act (.fdalloc f)) t (fun r u =>
    (r = none ∧ u = t ∧ ∀ fd, fd < NOFILE → (t.procs p).ofile fd ≠ none) ∨
    ∃ fd, r = some fd ∧ (t.procs p).ofile fd = none ∧
      u = t.setProc p { t.procs p with ofile := (t.procs p).ofile.set fd (some f) }) True := by
  refine .act (fun r u he => ?_) trivial
  rw [exec] at he
  split at he
  · rename_i hnone
    cases he
    exact .inl ⟨rfl, rfl, fun fd hfd => by simpa using List.find?_eq_none.mp hnone fd (mem_range.mpr hfd)⟩
  · rename_i fd hfd
    cases he
    exact .inr ⟨fd, rfl, by simpa using List.find?_some hfd, rfl⟩

lemma pipeFds_fails {rf wf pg : Nat} (hfree : ∀ f, (s.ftable f).ref = 0 → (s.ftable f).type = .none)
    (h : Piped s rf wf pg t) :
    Solo (exec nproc p) (pipeFds rf wf) t (fun r u => r = -1 → Unmade s u ∧ ¬s.TwoFree p) True := by
  refine (fdalloc_first rf).bind ?_
  rintro _ _ (⟨rfl, rfl, hfull⟩ | ⟨fd, rfl, hfd, rfl⟩)
  · refine (h.close hfree).mono (fun _ _ hu _ => ⟨hu, ?_⟩) id
    rintro ⟨a, b, -, ha, -, hnone, -⟩
    exact hfull a ha ((h.ofile p a).trans hnone)
  refine (fdalloc_first wf).bind ?_
  rintro _ _ (⟨rfl, rfl, hfull⟩ | ⟨fd', rfl, -, -⟩)
  · refine .step rfl ((Piped.close hfree (?_ : Piped s rf wf pg _)).mono (fun _ _ hu _ => ⟨hu, ?_⟩) id)
    · refine ⟨h.ne, h.free, h.files, h.read, h.write, h.page, h.pages, fun q x => ?_⟩
      by_cases hq : q = p
      · subst hq
        by_cases hx : x = fd
        · subst hx
          simp [State.setProc, ← h.ofile, hfd]
        · simp [State.setProc, hx, h.ofile]
      · simp [State.setProc, hq, h.ofile]
    · rintro ⟨a, b, hab, ha, hb, hna, hnb⟩
      have hfd' : ∀ x, x ≠ fd → x < NOFILE → (s.procs p).ofile x ≠ none := fun x hx hlt hnone => by
        refine hfull x hlt ?_
        simp [State.setProc, hx, h.ofile, hnone]
      by_cases haf : a = fd
      · exact hfd' b (fun hbf => hab (haf.trans hbf.symm)) hb hnb
      · exact hfd' a haf ha hna
  · exact .pure nofun

lemma pipealloc_taken (hfree : ∀ f, (s.ftable f).ref = 0 → (s.ftable f).type = .none) (page : Option Nat) :
    Solo (exec nproc p) (pipealloc page) s (fun r t => (r = none ∧ Taken s [] t) ∨
      ∃ rf wf pg, r = some (rf, wf) ∧ Piped s rf wf pg t) True := by
  have hstart : Taken s [] s := ⟨fun _ _ => rfl, nofun, .nil, fun _ => rfl, fun _ _ => rfl⟩
  refine hstart.filealloc.bind ?_
  rintro _ t (⟨rfl, h⟩ | ⟨rf, rfl, h⟩)
  · exact .pure (.inl ⟨rfl, h⟩)
  refine h.filealloc.bind ?_
  rintro _ t (⟨rfl, h⟩ | ⟨wf, rfl, h⟩)
  · exact (h.fileclose hfree).bind fun _ _ h => .pure (.inl ⟨rfl, h⟩)
  have hswap : Taken s [rf, wf] t :=
    ⟨fun f hf => h.files f (by simpa [and_comm] using hf), fun f hf => h.new f (by simpa [or_comm] using hf),
      (List.Perm.swap rf wf []).nodup_iff.mp h.nodup, h.pages, h.ofile⟩
  cases page with
  | none =>
    refine .step (r := false) (t := t) rfl ?_
    refine (hswap.fileclose hfree).bind fun _ t h => ?_
    exact (h.fileclose hfree).bind fun _ _ h => .pure (.inl ⟨rfl, h⟩)
  | some pg =>
    refine Solo.bind (Q := fun r u => r = true ∧ Piped s rf wf pg u) (.act (fun r u he => ?_) trivial) ?_
    · rw [exec] at he
      split at he
      · cases he
      · rename_i hpg
        cases he
        have hne : rf ≠ wf := by simpa using hswap.nodup
        obtain ⟨hr, hrf⟩ := h.new rf (by simp)
        obtain ⟨hw, hwf⟩ := h.new wf (by simp)
        refine ⟨rfl, hne, ⟨hr, hw⟩, fun f hfr hfw => ?_, ?_, ?_, ⟨?_, ?_⟩, fun x hx => ?_, h.ofile⟩
        · simp [State.setFile, hfr, hfw, h.files]
        · simp [State.setFile, hne, hrf]
        · simp [State.setFile, Ne.symm hne, hwf]
        · simpa [h.pages] using hpg
        · simp [State.setFile]
        · simp [State.setFile, hx, h.pages]
    · rintro _ u ⟨rfl, h⟩
      exact .pure (.inr ⟨rf, wf, pg, rfl, h⟩)

lemma sysPipe_fails (hfree : ∀ f, (s.ftable f).ref = 0 → (s.ftable f).type = .none) (arg : Bool)
    (page : Option Nat) : Solo (exec nproc p) (sysPipe arg page) s (fun r t => r = -1 →
      Unmade s t ∧ (s.TwoFree p → ∀ f, t.ftable f = s.ftable f)) True := by
  have hstart : Taken s [] s := ⟨fun _ _ => rfl, nofun, .nil, fun _ => rfl, fun _ _ => rfl⟩
  unfold sysPipe
  split
  · exact .pure fun _ => ⟨hstart.unmade, fun _ f => rfl⟩
  · refine (pipealloc_taken hfree page).bind ?_
    rintro _ t (⟨rfl, h⟩ | ⟨rf, wf, pg, rfl, h⟩)
    · exact .pure fun _ => ⟨h.unmade, fun _ f => h.files f not_mem_nil⟩
    · exact (pipeFds_fails hfree h).mono (fun _ _ hu hr => ⟨(hu hr).1, fun h2 => absurd h2 (hu hr).2⟩) id

lemma sysDup_fails (fd : Int) : Solo (exec nproc p) (sysDup fd) s (fun r t => r = -1 → t = s) True := by
  have harg : Solo (exec nproc p) (argfd fd) s (fun _ t => t = s) True := by
    unfold argfd
    split
    · exact .pure rfl
    · exact .call rfl rfl
  refine harg.bind ?_
  rintro r _ rfl
  cases r with
  | none => exact .pure fun _ => rfl
  | some f =>
    refine (fdalloc_first f).bind ?_
    rintro _ _ (⟨rfl, rfl, -⟩ | ⟨fd, rfl, -, rfl⟩)
    · exact .pure fun _ => rfl
    · exact .skip (fun _ _ => .pure fun h => by omega) trivial

end Xv6.Ftable

namespace Xv6.Fs

/-- Process 1 uses all of its descriptors. -/
def openAll : List (Turn Pid Syscall) := oneByOne (replicate NOFILE (1, .open (some [47, 102]) 0))

end Xv6.Fs
