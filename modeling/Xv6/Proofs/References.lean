import Xv6.Proofs.HolderForks
import Xv6.Proofs.KernelRuns

/-! # Reference counts when no call is in progress -/

namespace Xv6.Fs.Refs

open Threads List

variable {s s' : State} {p q : Pid} {i f : Nat} {strict : Bool} {w : Own}

lemma Has.perm {t l : List Nat} (h : Has p w s) (ht : w.temps.Perm t) (hl : w.locks.Perm l) :
    Has p { w with temps := t, locks := l } s :=
  { h with
    temps := fun i => (h.temps i).trans (ht.count_eq i)
    locks := fun i => (h.locks i).trans hl.mem_iff
    nodup := hl.nodup_iff.mp h.nodup
    valid := fun i hm => h.valid i (hl.mem_iff.mpr hm) }

lemma Has.forget (h : Has p w s) : Has p { w with files := [] } s := { h with files := nofun }

/-! ## Functions on inodes -/

lemma wp_unlock {l : List Nat} (hs : Has p w s) (hl : w.locks.Perm (i :: l)) (hload : w.loading = none) :
    Spec strict p (iunlock i) (fun _ => Has p { w with locks := l }) s := by
  refine wp_mono (wp_iunlock hs (hl.mem_iff.mpr mem_cons_self) hload) fun _ s h => ?_
  have hperm : (w.locks.erase i).Perm l := by
    have := hl.erase i
    rwa [erase_cons_head] at this
  exact h.perm (.refl _) hperm

lemma wp_put {t : List Nat} (hs : Has p w s) (ht : w.temps.Perm (i :: t)) (hspare : i ∈ w.locks → i ∈ t)
    (hload : w.loading = none) :
    Spec strict p (iput .temp i) (fun _ => Has p { w with temps := t }) s := by
  have hperm : (w.temps.erase i).Perm t := by
    have := ht.erase i
    rwa [erase_cons_head] at this
  refine wp_mono (wp_iput hs (ht.mem_iff.mpr mem_cons_self) (fun hl => hperm.mem_iff.mpr (hspare hl)) hload)
    fun _ s h => ?_
  exact h.perm hperm (.refl _)

lemma wp_iunlockput {t l : List Nat} (hs : Has p w s) (ht : w.temps.Perm (i :: t)) (hl : w.locks.Perm (i :: l))
    (hload : w.loading = none) :
    Spec strict p (iunlockput i) (fun _ => Has p { w with temps := t, locks := l }) s := by
  have hnot : i ∉ l := (nodup_cons.mp (hl.nodup_iff.mp hs.nodup)).1
  refine wp_seq (wp_unlock hs hl hload) fun _ s h => ?_
  exact wp_put h ht (fun hm => absurd hm hnot) hload

lemma wp_dirlookup (name : List UInt8) (hs : Has p w s) (hl : i ∈ w.locks) (hload : w.loading = none) :
    Spec strict p (act (.dirlookup i name)) (fun r s => (r = none → Has p w s) ∧
      ∀ n off, r = some (n, off) → Has p { w with temps := n :: w.temps } s) s := by
  refine wp_step (fun _ _ he h => h.env he) (fun s h => h.locked hl hload) (fun s r s' hi _ hk he => ?_) hs
  have hb := (hk.locks i).mpr hl
  have hwork : ∀ {r : Option (Nat × Nat)} {s'}, onInode p i (fun dp => dirlookup dp name) s = .next r s' →
    Works i s s' := fun h => onInode_works (fun dp => Logs.dirlookup dp name) h
  rw [exec] at he
  split at he
  · rename_i n off s₁ h1
    have hw := hwork h1
    have hgood := hw.good hi hb
    have hadd := iget_adds hgood.1 p n
    split at he
    · cases he
    cases he
    have hquiet : Quiet (iget p n s₁) (noteFound p i name n (iget p n s₁)) := ⟨rfl, rfl, rfl, rfl, rfl⟩
    have hg1 := hadd.good hgood.1 rfl
    have hg2 := hquiet.good (p := p) hg1.1 fun _ _ => .rfl
    refine ⟨⟨hg2.1, fun q hq => ((hgood.2 q hq).trans (hg1.2 q hq)).trans (hg2.2 q hq)⟩, by simp, fun n' off' hr => ?_⟩
    cases hr
    exact hquiet.has (hadd.has (hw.has hk) rfl) (hadd.has (hw.has hk) rfl).trans
  · rename_i o hnot
    cases r with
    | none => exact ⟨(hwork he).good hi hb, fun _ => (hwork he).has hk, by simp⟩
    | some x => exact absurd he (hnot x.1 x.2 s')

lemma wp_edit {e : Edit} (hs : Has p w s) (hl : i ∈ w.locks) (hload : w.loading = none) (ht : w.trans = true) :
    Spec strict p (act (.edit i e)) (fun _ => Has p w) s := by
  refine wp_work hl (fun s h => ?_) (fun s r s' he => edit_works he) hs
  cases e with
  | free => exact ⟨h.locked hl hload, fun _ => h.trans.mpr ht⟩
  | link => exact ⟨h.locked hl hload, h.trans.mpr ht⟩
  | unlink => exact ⟨h.locked hl hload, h.trans.mpr ht⟩
  | fresh => exact ⟨h.locked hl hload, h.trans.mpr ht⟩

lemma wp_writei {off : Nat} {src : List UInt8} (hs : Has p w s) (hl : i ∈ w.locks) (hload : w.loading = none)
    (ht : w.trans = true) : Spec strict p (act (.writei i off src)) (fun _ => Has p w) s := by
  exact wp_work hl (fun s h => ⟨h.locked hl hload, h.trans.mpr ht⟩)
    (fun s r s' he => onInode_works (fun ip => Logs.writei i ip off src) he) hs

lemma wp_readi {off n : Nat} (hs : Has p w s) (hl : i ∈ w.locks) (hload : w.loading = none) :
    Spec strict p (act (.readi i off n)) (fun _ => Has p w) s := by
  exact wp_work hl (fun s h => h.locked hl hload)
    (fun s r s' he => onInode_works (fun ip => Logs.readi ip off n) he) hs

lemma wp_emptyDirent (hs : Has p w s) (hl : i ∈ w.locks) (hload : w.loading = none) :
    Spec strict p (act (.emptyDirent i)) (fun _ => Has p w) s := by
  exact wp_work hl (fun s h => h.locked hl hload)
    (fun s r s' he => onInode_works (fun dp => Logs.emptyFrom _ dp 0) he) hs

lemma wp_isdirempty (hs : Has p w s) (hl : i ∈ w.locks) (hload : w.loading = none) :
    Spec strict p (act (.isdirempty i)) (fun _ => Has p w) s := by
  exact wp_work hl (fun s h => h.locked hl hload)
    (fun s r s' he => onInode_works (fun dp => Logs.isdiremptyFrom _ dp _) he) hs

lemma wp_iallocFrom (ninodes : Nat) (type : UInt16) (n i : Nat) (hs : Has p w s) (ht : w.trans = true) :
    Spec strict p (iallocFrom ninodes type n i) (fun i => Has p { w with temps := i :: w.temps }) s := by
  induction n generalizing i s with
  | zero => exact wp_panic _
  | succ n ih =>
    rw [iallocFrom]
    split
    · refine wp_seq (wp_iallocTry i type hs ht) fun got s h => ?_
      cases got with
      | true => exact wp_seq (wp_iget i h) fun _ s h => wp_ret h
      | false => exact ih (i + 1) h
    · exact wp_panic _

lemma wp_ialloc (type : UInt16) (hs : Has p w s) (ht : w.trans = true) :
    Spec strict p (ialloc type) (fun i => Has p { w with temps := i :: w.temps }) s :=
  wp_seq (wp_readsb hs) fun sb _ h => wp_iallocFrom sb.ninodes type _ _ h ht

lemma wp_dirlink {dp inum : Nat} {name : List UInt8} (hs : Has p w s) (hl : dp ∈ w.locks) (hload : w.loading = none)
    (hfirm : Firm w) (ht : w.trans = true) :
    Spec strict p (dirlink dp name inum) (fun _ => Has p w) s := by
  refine wp_seq (wp_dirlookup name hs hl hload) fun r s h => ?_
  cases r with
  | some x =>
    obtain ⟨ip, off⟩ := x
    -- The entry found may be the locked directory itself, which has a pointer of its own.
    exact wp_seq (wp_put (h.2 ip off rfl) (.refl _) (hfirm ip) hload) fun _ s h => wp_ret h
  | none =>
    refine wp_seq (wp_emptyDirent (h.1 rfl) hl hload) fun off s h => ?_
    refine wp_seq (wp_writei h hl hload ht) fun r s h => ?_
    split
    · exact wp_ret h
    · exact wp_panic _

/-! ## Path names -/

/-- What a lookup leaves: one more pointer, to the inode that it returns. -/
def Looked (p : Pid) (w : Own) (r : Option (Nat × List UInt8)) (s : State) : Prop :=
  (r = none → Has p w s) ∧ ∀ n name, r = some (n, name) → Has p { w with temps := n :: w.temps } s

lemma wp_namexFrom (parent : Bool) (path : List (List UInt8)) {ip : Nat}
    (hs : Has p { w with temps := ip :: w.temps } s) (hlocks : w.locks = []) (hload : w.loading = none) :
    Spec strict p (namexFrom parent ip path) (Looked p w) s := by
  have hput : ∀ {n : Nat} {t : List Nat} {s : State}, Has p { w with temps := t, locks := [n] } s →
      t.Perm (n :: w.temps) → Spec strict p (iunlockput n) (fun _ => Has p w) s := fun h ht =>
    wp_mono (wp_iunlockput h ht (.refl _) hload) fun _ s h => by
      rw [← hlocks] at h
      exact h
  induction path generalizing ip s with
  | nil =>
    rw [namexFrom]
    split
    · refine wp_seq (wp_put hs (.refl _) (by simp [hlocks]) hload) fun _ s h => ?_
      exact wp_ret ⟨fun _ => h, nofun⟩
    · refine wp_ret ⟨nofun, fun n name hr => ?_⟩
      cases hr
      exact hs
  | cons name rest ih =>
    rw [namexFrom]
    refine wp_seq (wp_ilock hs (.inl mem_cons_self) hload) fun _ s h => ?_
    have h := h.2
    simp only [hlocks] at h
    refine wp_seq (wp_inode h mem_cons_self hload) fun d s h => ?_
    split
    · exact wp_seq (hput h (.refl _)) fun _ s h => wp_ret ⟨fun _ => h, nofun⟩
    split
    · refine wp_seq (wp_unlock h (.refl _) hload) fun _ s h => ?_
      refine wp_ret ⟨nofun, fun n name hr => ?_⟩
      cases hr
      rw [← hlocks] at h
      exact h
    refine wp_seq (wp_dirlookup name h mem_cons_self hload) fun r s h => ?_
    cases r with
    | none => exact wp_seq (hput (h.1 rfl) (.refl _)) fun _ s h => wp_ret ⟨fun _ => h, nofun⟩
    | some x =>
      obtain ⟨next, off⟩ := x
      refine wp_seq (wp_iunlockput (h.2 next off rfl) (.swap ip next w.temps) (.refl _) hload) fun _ s h => ?_
      rw [← hlocks] at h
      exact ih h

lemma wp_namex (parent : Bool) (path : List UInt8) (hs : Has p w s) (hlocks : w.locks = [])
    (hload : w.loading = none) : Spec strict p (namex parent path) (Looked p w) s := by
  unfold namex
  split
  · exact wp_seq (wp_iget ROOTINO hs) fun _ s h => wp_namexFrom parent _ h hlocks hload
  · refine wp_seq (wp_cwd hs) fun cwd s h => ?_
    exact wp_seq (wp_idup cwd h.1) fun _ s h => wp_namexFrom parent _ h hlocks hload

lemma wp_namei (path : List UInt8) (hs : Has p w s) (hlocks : w.locks = []) (hload : w.loading = none) :
    Spec strict p (namei path) (fun r s => (r = none → Has p w s) ∧
      ∀ ip, r = some ip → Has p { w with temps := ip :: w.temps } s) s := by
  refine wp_seq (wp_namex false path hs hlocks hload) fun r s h => wp_ret ?_
  cases r with
  | none => exact ⟨fun _ => h.1 rfl, nofun⟩
  | some x =>
    refine ⟨nofun, fun ip hr => ?_⟩
    cases hr
    exact h.2 x.1 x.2 rfl

/-! ## Creating files -/

lemma wp_createDots {ip dp : Nat} (hs : Has p w s) (hl : ip ∈ w.locks) (hload : w.loading = none) (hfirm : Firm w)
    (ht : w.trans = true) : Spec strict p (createDots ip dp) (fun _ => Has p w) s := by
  refine wp_seq (wp_dirlink hs hl hload hfirm ht) fun r s h => ?_
  split
  · refine wp_seq (wp_dirlink h hl hload hfirm ht) fun r s h => ?_
    split
    · exact wp_noteParent ip dp h
    · exact wp_panic _
  · exact wp_panic _

lemma wp_createIn {dp : Nat} {name : List UInt8} {type major minor : UInt16}
    (hs : Has p { temps := [dp], locks := [dp], trans := true } s) :
    Spec strict p (createIn dp name type major minor)
      (fun ip => Has p { temps := [ip], locks := [ip], trans := true }) s := by
  refine wp_seq (wp_ialloc type hs rfl) fun ip s h => ?_
  refine wp_seq (wp_ilock h (.inl mem_cons_self) rfl) fun _ s h => ?_
  have hip : ip ∈ [ip, dp] := mem_cons_self
  have hdp : dp ∈ [ip, dp] := mem_cons_of_mem _ mem_cons_self
  have hfirm : Firm { temps := [ip, dp], locks := [ip, dp], trans := true } := fun _ hi => hi
  have hlink : ∀ {s}, Has p { temps := [ip, dp], locks := [ip, dp], trans := true } s →
      Spec strict p (do
        if ← dirlink dp name ip then
          iunlockput dp
          return ip
        else panic .createDirlink) (fun ip => Has p { temps := [ip], locks := [ip], trans := true }) s := by
    intro s h
    refine wp_seq (wp_dirlink h hdp rfl hfirm rfl) fun r s h => ?_
    split
    · exact wp_seq (wp_iunlockput h (.swap dp ip []) (.swap dp ip []) rfl) fun _ s h => wp_ret h
    · exact wp_panic _
  refine wp_seq (wp_edit h.2 hip rfl rfl) fun _ s h => ?_
  split
  · refine wp_seq (wp_edit h hdp rfl rfl) fun _ s h => ?_
    exact wp_seq (wp_createDots h hip rfl hfirm rfl) fun _ s h => hlink h
  · exact hlink h

lemma wp_create {path : List UInt8} {type major minor : UInt16} (hs : Has p { trans := true } s) :
    Spec strict p (create path type major minor) (fun r s => (r = none → Has p { trans := true } s) ∧
      ∀ ip, r = some ip → Has p { temps := [ip], locks := [ip], trans := true } s) s := by
  refine wp_seq (wp_namex true path hs rfl rfl) fun r s h => ?_
  cases r with
  | none => exact wp_ret ⟨fun _ => h.1 rfl, nofun⟩
  | some x =>
    obtain ⟨dp, name⟩ := x
    refine wp_seq (wp_ilock (h.2 dp name rfl) (.inl mem_cons_self) rfl) fun _ s h => ?_
    refine wp_seq (wp_dirlookup name h.2 mem_cons_self rfl) fun r s h => ?_
    cases r with
    | none =>
      refine wp_seq (wp_createIn (h.1 rfl)) fun ip s h => wp_ret ⟨nofun, fun ip' hr => ?_⟩
      cases hr
      exact h
    | some x =>
      obtain ⟨ip, off⟩ := x
      refine wp_seq (wp_iunlockput (h.2 ip off rfl) (.swap dp ip []) (.refl _) rfl) fun _ s h => ?_
      refine wp_seq (wp_ilock h (.inl mem_cons_self) rfl) fun _ s h => ?_
      refine wp_seq (wp_inode h.2 mem_cons_self rfl) fun d s h => ?_
      split
      · refine wp_ret ⟨nofun, fun ip' hr => ?_⟩
        cases hr
        exact h
      · exact wp_seq (wp_iunlockput h (.refl _) (.refl _) rfl) fun _ s h => wp_ret ⟨fun _ => h, nofun⟩

/-! ## Open files -/

lemma wp_relock {α : Type} {x : Kprog α} {U : α → State → Prop} (hs : Has p w s) (hl : w.locks = [i])
    (hsure : Sure w i) (hload : w.loading = none)
    (hx : ∀ s, Has p w s → Spec strict p x U s) :
    Spec strict p (do iunlock i; ilock i; x) U s := by
  refine wp_seq (wp_unlock hs (.of_eq hl) hload) fun _ s h => ?_
  refine wp_seq (wp_ilock h hsure hload) fun _ s h => hx s ?_
  have h := h.2
  rw [← hl] at h
  exact h

lemma wp_readInode {off n : Nat} {got : Option Nat} (hs : Has p w s) (hl : w.locks = [i]) (hsure : Sure w i)
    (hload : w.loading = none) : Spec strict p (readInode i off n got) (fun _ => Has p w) s := by
  have hmem : i ∈ w.locks := hl ▸ mem_cons_self
  refine wp_seq (wp_inode hs hmem hload) fun d s h => ?_
  split
  · split
    · exact wp_relock h hl hsure hload fun s h => wp_ret h
    · exact wp_ret h
  · exact wp_seq_ret (wp_readi h hmem hload)

lemma wp_writeInode {off : Nat} {src : List UInt8} (hs : Has p w s) (hl : w.locks = [i]) (hsure : Sure w i)
    (hload : w.loading = none) (ht : w.trans = true) :
    Spec strict p (writeInode i off src) (fun _ => Has p w) s := by
  have hmem : i ∈ w.locks := hl ▸ mem_cons_self
  refine wp_seq (wp_inode hs hmem hload) fun d s h => ?_
  split
  · split
    · exact wp_relock h hl hsure hload fun s h => wp_ret h
    · exact wp_ret h
  · exact wp_writei h hmem hload ht

lemma wp_fileclose {fd : Option Nat} (hs : Has p w s) (hfirm : Firm w) (hfile : HasFile p w f s fd)
    (hfiles : w.files = []) (hload : w.loading = none) (ht : w.trans = false) :
    Spec strict p (fileclose f fd) (fun _ => Has p (w.closed fd)) s := by
  have hsame : (w.closed fd).locks = w.locks ∧ (w.closed fd).temps = w.temps ∧ (w.closed fd).loading = none ∧
      (w.closed fd).trans = false := by
    cases fd with
    | none => exact ⟨rfl, rfl, hload, ht⟩
    | some n => exact ⟨rfl, rfl, hload, ht⟩
  obtain ⟨hlocks, htemps, hload, ht⟩ := hsame
  refine wp_seq (wp_fileDrop hs hfirm hfile hfiles) fun r s h => ?_
  cases r with
  | none => exact wp_ret (h.2 nofun)
  | some ff =>
    by_cases htype : ff.type = .inode
    · dsimp only
      rw [if_pos htype]
      refine wp_seq (wp_beginTrans (h.1 ff rfl htype)) fun _ s h => ?_
      refine wp_seq (wp_put h (.refl _) (fun hl => hfirm _ (hlocks ▸ hl)) hload) fun _ s h => ?_
      refine wp_mono (wp_commitTrans h rfl) fun _ s h => ?_
      rw [← htemps, ← ht] at h
      exact h
    · dsimp only
      rw [if_neg htype]
      exact wp_ret (h.2 fun ff' hff => by
        cases hff
        exact htype)

lemma wp_advanceBy (r : Option Nat) (hs : Has p w s) :
    Spec strict p (advance f r) (fun _ => Has p w) s := by
  cases r with
  | none => exact wp_ret hs
  | some n => exact wp_advance n hs

lemma wp_fileread {fd n : Nat} {got : Option Nat} (hs : Has p {} s) (ho : (s.procs p).ofile fd = some f) :
    Spec strict p (fileread f n got) (fun _ => Has p {}) s := by
  refine wp_seq (wp_file hs ho rfl) fun ff s h => ?_
  split
  · split
    · rename_i htype
      have h := h.2 htype rfl
      have hsure : ∀ {l}, Sure { locks := l, files := [(f, ff.ip)] } ff.ip := .inr ⟨f, mem_cons_self⟩
      refine wp_seq (wp_ilock h hsure rfl) fun _ s h => ?_
      refine wp_seq (wp_file_again h.2) fun _ s h => ?_
      refine wp_seq (wp_readInode h rfl hsure rfl) fun r s h => ?_
      refine wp_seq (wp_advanceBy r h) fun _ s h => ?_
      exact wp_seq (wp_unlock h (.refl _) rfl) fun _ s h => wp_ret h.forget
    · exact wp_panic _
  · exact wp_ret h.1

lemma wp_writeChunk {ip : Nat} (src : List UInt8) (hs : Has p { files := [(f, ip)] } s) :
    Spec strict p (writeChunk f ip src) (fun _ => Has p { files := [(f, ip)] }) s := by
  have hsure : ∀ {l}, Sure { locks := l, files := [(f, ip)], trans := true } ip := .inr ⟨f, mem_cons_self⟩
  refine wp_seq (wp_beginTrans hs) fun _ s h => ?_
  refine wp_seq (wp_ilock h hsure rfl) fun _ s h => ?_
  refine wp_seq (wp_file_again h.2) fun _ s h => ?_
  refine wp_seq (wp_writeInode h rfl hsure rfl rfl) fun r s h => ?_
  refine wp_seq (wp_advanceBy r h) fun _ s h => ?_
  refine wp_seq (wp_unlock h (.refl _) rfl) fun _ s h => ?_
  exact wp_seq_ret (wp_commitTrans h rfl)

lemma wp_filewriteFrom {ip : Nat} (n : Nat) (src : List UInt8) (hs : Has p { files := [(f, ip)] } s) :
    Spec strict p (filewriteFrom f ip n src) (fun _ => Has p { files := [(f, ip)] }) s := by
  induction n generalizing src s with
  | zero => exact wp_ret hs
  | succ n ih =>
    rw [filewriteFrom]
    split
    · exact wp_ret hs
    refine wp_seq (wp_writeChunk _ hs) fun r s h => ?_
    cases r with
    | none => exact wp_ret h
    | some r =>
      dsimp only
      split
      · exact wp_seq_ret (ih _ h)
      · exact wp_panic _

lemma wp_filewrite {fd : Nat} (addr : List UInt8) (n : Int) (hs : Has p {} s) (ho : (s.procs p).ofile fd = some f) :
    Spec strict p (filewrite f addr n) (fun _ => Has p {}) s := by
  refine wp_seq (wp_file hs ho rfl) fun ff s h => ?_
  split
  · split
    · rename_i htype
      exact wp_seq (wp_filewriteFrom _ _ (h.2 htype rfl)) fun _ s h => wp_ret h.forget
    · exact wp_panic _
  · exact wp_ret h.1

/-! ## System calls -/

lemma wp_openInode {path : List UInt8} {omode : UInt32} (hs : Has p {} s) :
    Spec strict p (openInode path omode) (fun r s => (r = none → Has p {} s) ∧
      ∀ ip, r = some ip → Has p { temps := [ip], locks := [ip] } s) s := by
  unfold openInode
  split
  · refine wp_seq (wp_beginTrans hs) fun _ s h => ?_
    refine wp_seq (wp_create h) fun r s h => ?_
    cases r with
    | none => exact wp_seq (wp_commitTrans (h.1 rfl) rfl) fun _ s h => wp_ret ⟨fun _ => h, nofun⟩
    | some ip =>
      refine wp_seq (wp_commitTrans (h.2 ip rfl) rfl) fun _ s h => wp_ret ⟨nofun, fun ip' hr => ?_⟩
      cases hr
      exact h
  refine wp_seq (wp_namei path hs rfl rfl) fun r s h => ?_
  cases r with
  | none => exact wp_ret ⟨fun _ => h.1 rfl, nofun⟩
  | some ip =>
    refine wp_seq (wp_ilock (h.2 ip rfl) (.inl mem_cons_self) rfl) fun _ s h => ?_
    refine wp_seq (wp_inode h.2 mem_cons_self rfl) fun d s h => ?_
    split
    · exact wp_seq (wp_iunlockput h (.refl _) (.refl _) rfl) fun _ s h => wp_ret ⟨fun _ => h, nofun⟩
    · refine wp_ret ⟨nofun, fun ip' hr => ?_⟩
      cases hr
      exact h

lemma wp_openFile {ip : Nat} {omode : UInt32} (hs : Has p { temps := [ip], locks := [ip] } s) :
    Spec strict p (openFile ip omode) (fun _ => Has p {}) s := by
  refine wp_seq (wp_filealloc hs (fun _ hi => hi) rfl rfl) fun r s h => ?_
  cases r with
  | none => exact wp_seq_ret (wp_iunlockput (h.1 rfl) (.refl _) (.refl _) rfl)
  | some f =>
    refine wp_seq (wp_fdalloc (h.2 f rfl) (fun _ hi => hi) rfl rfl rfl) fun r s h => ?_
    cases r with
    | none =>
      refine wp_seq (wp_fileclose (h.1 rfl) (fun _ hi => hi) rfl rfl rfl rfl) fun _ s h => ?_
      exact wp_seq_ret (wp_iunlockput h (.refl _) (.refl _) rfl)
    | some fd =>
      refine wp_seq (wp_unlock (h.2 nofun) (.refl _) rfl) fun _ s h => ?_
      exact wp_seq_ret (wp_setFile (w := {}) h rfl)

lemma wp_sysOpen {path : Option (List UInt8)} {omode : UInt32} (hs : Has p {} s) :
    Spec strict p (sysOpen path omode) (fun _ => Has p {}) s := by
  cases path with
  | none => exact wp_ret hs
  | some path =>
    refine wp_seq (wp_openInode hs) fun r s h => ?_
    cases r with
    | none => exact wp_ret (h.1 rfl)
    | some ip => exact wp_openFile (h.2 ip rfl)

lemma wp_sysRead {fd : Int} {n : Nat} {got : Option Nat} (hs : Has p {} s) :
    Spec strict p (sysRead fd n got) (fun _ => Has p {}) s := by
  refine wp_seq (wp_argfd fd hs) fun r s h => ?_
  cases r with
  | none => exact wp_ret h.1
  | some f => exact wp_fileread h.1 (h.2 f rfl)

lemma wp_sysWrite {fd : Int} {src : List UInt8} (hs : Has p {} s) :
    Spec strict p (sysWrite fd src) (fun _ => Has p {}) s := by
  refine wp_seq (wp_argfd fd hs) fun r s h => ?_
  cases r with
  | none => exact wp_ret h.1
  | some f => exact wp_filewrite src _ h.1 (h.2 f rfl)

lemma wp_sysDup {fd : Int} (hs : Has p {} s) : Spec strict p (sysDup fd) (fun _ => Has p {}) s := by
  refine wp_seq (wp_argfd fd hs) fun r s h => ?_
  cases r with
  | none => exact wp_ret h.1
  | some f =>
    refine wp_seq (wp_dupFd h.1 (h.2 f rfl)) fun r s h => ?_
    cases r with
    | none => exact wp_ret (h.1 rfl)
    | some fd => exact wp_seq_ret (wp_filedup (h.2 fd rfl).1 (h.2 fd rfl).2)

lemma wp_sysClose {fd : Int} (hs : Has p {} s) : Spec strict p (sysClose fd) (fun _ => Has p {}) s := by
  refine wp_seq (wp_argfd fd hs) fun r s h => ?_
  cases r with
  | none => exact wp_ret h.1
  | some f =>
    refine wp_seq (wp_takeFd h.1 (h.2 f rfl)) fun _ s h => ?_
    exact wp_seq_ret (wp_fileclose h nofun rfl rfl rfl rfl)

lemma wp_linkBad {ip : Nat} (hs : Has p { temps := [ip], trans := true } s) :
    Spec strict p (linkBad ip) (fun _ => Has p { trans := true }) s := by
  refine wp_seq (wp_ilock hs (.inl mem_cons_self) rfl) fun _ s h => ?_
  refine wp_seq (wp_edit h.2 mem_cons_self rfl rfl) fun _ s h => ?_
  exact wp_iunlockput h (.refl _) (.refl _) rfl

lemma wp_linkInto {ip : Nat} {new : List UInt8} (hs : Has p { temps := [ip], trans := true } s) :
    Spec strict p (linkInto ip new) (fun _ => Has p { trans := true }) s := by
  refine wp_seq (wp_namex true new hs rfl rfl) fun r s h => ?_
  cases r with
  | none => exact wp_seq_ret (wp_linkBad (h.1 rfl))
  | some x =>
    obtain ⟨dp, name⟩ := x
    refine wp_seq (wp_ilock (h.2 dp name rfl) (.inl mem_cons_self) rfl) fun _ s h => ?_
    have hfirm : Firm { temps := [dp, ip], locks := [dp], trans := true } := by
      intro i hi
      rw [mem_singleton.mp hi]
      exact mem_cons_self
    refine wp_seq (wp_dirlink h.2 mem_cons_self rfl hfirm rfl) fun r s h => ?_
    split
    · refine wp_seq (wp_iunlockput h (.refl _) (.refl _) rfl) fun _ s h => ?_
      exact wp_seq_ret (wp_put h (.refl _) nofun rfl)
    · refine wp_seq (wp_iunlockput h (.refl _) (.refl _) rfl) fun _ s h => ?_
      exact wp_seq_ret (wp_linkBad h)

lemma wp_sysLink {old new : List UInt8} (hs : Has p {} s) :
    Spec strict p (sysLink old new) (fun _ => Has p {}) s := by
  refine wp_seq (wp_namei old hs rfl rfl) fun r s h => ?_
  cases r with
  | none => exact wp_ret (h.1 rfl)
  | some ip =>
    refine wp_seq (wp_beginTrans (h.2 ip rfl)) fun _ s h => ?_
    refine wp_seq (wp_ilock h (.inl mem_cons_self) rfl) fun _ s h => ?_
    refine wp_seq (wp_inode h.2 mem_cons_self rfl) fun d s h => ?_
    split
    · refine wp_seq (wp_iunlockput h (.refl _) (.refl _) rfl) fun _ s h => ?_
      exact wp_seq_ret (wp_commitTrans h rfl)
    refine wp_seq (wp_edit h mem_cons_self rfl rfl) fun _ s h => ?_
    refine wp_seq (wp_unlock h (.refl _) rfl) fun _ s h => ?_
    refine wp_seq (wp_linkInto h) fun _ s h => ?_
    exact wp_seq_ret (wp_commitTrans h rfl)

lemma wp_isFullDir {d : Dinode} (hs : Has p w s) (hl : i ∈ w.locks) (hload : w.loading = none) :
    Spec strict p (isFullDir i d) (fun _ => Has p w) s := by
  unfold isFullDir
  split
  · exact wp_seq_ret (wp_isdirempty hs hl hload)
  · exact wp_ret hs

lemma wp_unlinkEntry {dp ip off : Nat} (hs : Has p { temps := [ip, dp], locks := [dp], trans := true } s) :
    Spec strict p (unlinkEntry dp ip off) (fun _ => Has p { trans := true }) s := by
  have hip : ip ∈ [ip, dp] := mem_cons_self
  have hdp : dp ∈ [ip, dp] := mem_cons_of_mem _ mem_cons_self
  have hends : ∀ {s}, Has p { temps := [ip, dp], locks := [ip, dp], trans := true } s →
      Spec strict p (do iunlockput dp; act (.edit ip .unlink); iunlockput ip; return 0 : Kprog Int)
        (fun _ => Has p { trans := true }) s := by
    intro s h
    refine wp_seq (wp_iunlockput h (.swap dp ip []) (.swap dp ip []) rfl) fun _ s h => ?_
    refine wp_seq (wp_edit h mem_cons_self rfl rfl) fun _ s h => ?_
    exact wp_seq_ret (wp_iunlockput h (.refl _) (.refl _) rfl)
  refine wp_seq (wp_ilock hs (.inl mem_cons_self) rfl) fun _ s h => ?_
  refine wp_seq (wp_inode h.2 mem_cons_self rfl) fun d s h => ?_
  split
  · exact wp_panic _
  refine wp_seq (wp_isFullDir h hip rfl) fun full s h => ?_
  split
  · refine wp_seq (wp_iunlockput h (.refl _) (.refl _) rfl) fun _ s h => ?_
    exact wp_seq_ret (wp_iunlockput h (.refl _) (.refl _) rfl)
  refine wp_seq (wp_writei h hdp rfl rfl) fun r s h => ?_
  split
  · split
    · exact wp_seq (wp_edit h hdp rfl rfl) fun _ s h => hends h
    · exact hends h
  · exact wp_panic _

lemma wp_unlinkIn {dp : Nat} (name : List UInt8)
    (hs : Has p { temps := [dp], locks := [dp], trans := true } s) :
    Spec strict p (unlinkIn dp name) (fun _ => Has p { trans := true }) s := by
  unfold unlinkIn
  split
  · exact wp_seq_ret (wp_iunlockput hs (.refl _) (.refl _) rfl)
  refine wp_seq (wp_dirlookup name hs mem_cons_self rfl) fun r s h => ?_
  cases r with
  | none => exact wp_seq_ret (wp_iunlockput (h.1 rfl) (.refl _) (.refl _) rfl)
  | some x =>
    obtain ⟨ip, off⟩ := x
    exact wp_unlinkEntry (h.2 ip off rfl)

lemma wp_sysUnlink {path : List UInt8} (hs : Has p {} s) :
    Spec strict p (sysUnlink path) (fun _ => Has p {}) s := by
  refine wp_seq (wp_namex true path hs rfl rfl) fun r s h => ?_
  cases r with
  | none => exact wp_ret (h.1 rfl)
  | some x =>
    obtain ⟨dp, name⟩ := x
    refine wp_seq (wp_beginTrans (h.2 dp name rfl)) fun _ s h => ?_
    refine wp_seq (wp_ilock h (.inl mem_cons_self) rfl) fun _ s h => ?_
    refine wp_seq (wp_unlinkIn name h.2) fun _ s h => ?_
    exact wp_seq_ret (wp_commitTrans h rfl)

lemma wp_sysMknod {path : Option (List UInt8)} {type major minor : UInt16} (hs : Has p {} s) :
    Spec strict p (sysMknod path type major minor) (fun _ => Has p {}) s := by
  refine wp_seq (wp_beginTrans hs) fun _ s h => ?_
  cases path with
  | none => exact wp_seq_ret (wp_commitTrans h rfl)
  | some path =>
    refine wp_seq (wp_create h) fun r s h => ?_
    cases r with
    | none => exact wp_seq_ret (wp_commitTrans (h.1 rfl) rfl)
    | some ip =>
      refine wp_seq (wp_iunlockput (h.2 ip rfl) (.refl _) (.refl _) rfl) fun _ s h => ?_
      exact wp_seq_ret (wp_commitTrans h rfl)

lemma wp_sysChdir {path : List UInt8} (hs : Has p {} s) :
    Spec strict p (sysChdir path) (fun _ => Has p {}) s := by
  refine wp_seq (wp_namei path hs rfl rfl) fun r s h => ?_
  cases r with
  | none => exact wp_ret (h.1 rfl)
  | some ip =>
    refine wp_seq (wp_ilock (h.2 ip rfl) (.inl mem_cons_self) rfl) fun _ s h => ?_
    refine wp_seq (wp_inode h.2 mem_cons_self rfl) fun d s h => ?_
    split
    · exact wp_seq_ret (wp_iunlockput h (.refl _) (.refl _) rfl)
    refine wp_seq (wp_unlock h (.refl _) rfl) fun _ s h => ?_
    refine wp_seq (wp_cwd h) fun old s h => ?_
    refine wp_seq (wp_iput (r := .cwd) h.1 ⟨rfl, h.2⟩ nofun rfl) fun _ s h => ?_
    exact wp_seq_ret (wp_setCwd h)

lemma wp_execReads {ip : Nat} (reads : List (Nat × Nat × Option Nat))
    (hs : Has p { temps := [ip], locks := [ip] } s) :
    Spec strict p (execReads ip reads) (fun _ => Has p { temps := [ip], locks := [ip] }) s := by
  induction reads generalizing s with
  | nil => exact wp_ret hs
  | cons x reads ih =>
    obtain ⟨off, n, got⟩ := x
    exact wp_seq (wp_readInode hs rfl (.inl mem_cons_self) rfl) fun _ s h => ih h

lemma wp_sysExec {path : List UInt8} {reads : List (Nat × Nat × Option Nat)} (hs : Has p {} s) :
    Spec strict p (sysExec path reads) (fun _ => Has p {}) s := by
  refine wp_seq (wp_namei path hs rfl rfl) fun r s h => ?_
  cases r with
  | none => exact wp_ret (h.1 rfl)
  | some ip =>
    refine wp_seq (wp_ilock (h.2 ip rfl) (.inl mem_cons_self) rfl) fun _ s h => ?_
    refine wp_seq (wp_execReads reads h.2) fun _ s h => ?_
    exact wp_iunlockput h (.refl _) (.refl _) rfl

/-- An action that leaves the process table alone. -/
def KeepsProcs (a : Act) : Prop := ∀ p s r s', exec p a s = .next r s' → s'.procs = s.procs

lemma KeepsProcs.of {a : Act} (ha : a.onFiles = false) : KeepsProcs a :=
  fun _ _ _ _ he => congrArg Prod.snd (exec_users ha he)

lemma iput_procs (r : Ref) (ip : Nat) : (iput r ip).All KeepsProcs := (silent_iput r ip).mono fun _ ha => .of ha

lemma fileclose_procs (f : Nat) (fd : Option Nat) : (fileclose f fd).All KeepsProcs := by
  have hdrop : KeepsProcs (.fileDrop f fd) := fun p s r s' he => by
    rw [exec] at he
    unfold fileDrop at he
    dsimp only at he
    split at he
    · cases he
    split at he
    · cases he
      rfl
    · cases he
      split <;> rfl
  refine .bind (.call hdrop) fun r => ?_
  cases r with
  | none => exact .pure ()
  | some ff =>
    dsimp only
    split
    · exact .bind (.call (.of rfl)) fun _ => .bind (iput_procs .temp ff.ip) fun _ => .call (.of rfl)
    · exact .pure ()

lemma wp_keepsProcs {α : Type} {x : Kprog α} {n : Nat} {U : α → State → Prop} (hx : x.All KeepsProcs)
    (h : Spec strict p x U s) (hr : (s.procs p).state = .runnable) (hb : ClosedBelow p n s) :
    Spec strict p x (fun a s => U a s ∧ ClosedBelow p n s) s := by
  have hact : x.All fun a => ∀ s r s', exec p a s = .next r s' →
      ((s.procs p).state = .runnable ∧ ClosedBelow p n s) → (s'.procs p).state = .runnable ∧ ClosedBelow p n s' := by
    refine hx.mono fun a ha s r s' he hF => ?_
    unfold ClosedBelow
    rw [ha p s r s' he]
    exact hF
  refine wp_mono (wp_frame h (fun s s' he hF => ?_) hact ⟨hr, hb⟩) fun a s h => ⟨h.1, h.2.2⟩
  unfold ClosedBelow
  rw [(Env.same he hF.1).proc]
  exact hF

lemma wp_closeFiles (n : Nat) (hn : n ≤ NOFILE) (hs : Has p {} s) :
    Spec strict p (closeFiles n) (fun _ s => Has p {} s ∧ ClosedBelow p n s) s := by
  induction n with
  | zero => exact wp_ret ⟨hs, nofun⟩
  | succ n ih =>
    refine wp_seq (ih (by omega)) fun _ s h => ?_
    have hfd : Spec strict p (act (.argfd n)) (fun r s =>
        (Has p {} s ∧ ClosedBelow p n s) ∧ (s.procs p).ofile n = r) s := wp_slot
      (K := fun q => ∀ fd, fd < n → q.ofile fd = none) (fun _ => trivial) (fun s r s' hi hk hbelow he => by
        cases he
        have hlt : ¬((n : Int) < 0 ∨ (NOFILE : Int) ≤ n) := by omega
        rw [if_neg hlt]
        exact ⟨.refl hi, ⟨hk, hbelow⟩, rfl⟩) h.1 h.2
    refine wp_seq hfd fun r s h => ?_
    obtain ⟨⟨hs, hbelow⟩, ho⟩ := h
    cases r with
    | none =>
      refine wp_ret ⟨hs, fun fd hfd => ?_⟩
      by_cases hfn : fd = n
      · rw [hfn]
        exact ho
      · exact hbelow fd (by omega)
    | some f =>
      have hclose : Spec strict p (fileclose f (some n)) (fun _ => Has p { gone := some n }) s :=
        wp_fileclose hs nofun ⟨ho, rfl⟩ rfl rfl rfl
      refine wp_seq (wp_keepsProcs (fileclose_procs f _) hclose hs.run hbelow) fun _ s h => ?_
      exact wp_clearFd h.1 (by omega) h.2

lemma wp_sysExit (hs : Has p {} s) : Spec strict p sysExit (fun _ => Home p) s := by
  refine wp_seq (wp_proc hs) fun _ s h => ?_
  split
  · exact wp_panic _
  refine wp_seq (wp_closeFiles NOFILE le_rfl h) fun _ s h => ?_
  refine wp_seq (wp_keepsProcs (.call (.of rfl)) (wp_cwd h.1) h.1.run h.2) fun cwd s h => ?_
  have hput : Spec strict p (iput .cwd cwd) (fun _ => Has p { cwd := false }) s :=
    wp_iput h.1.1 ⟨rfl, h.1.2⟩ nofun rfl
  refine wp_seq (wp_keepsProcs (iput_procs .cwd cwd) hput h.1.1.run h.2) fun _ s h => ?_
  exact wp_zombie h.1 h.2

lemma wp_body (x : Syscall) (hs : Has p {} s) : Spec strict p x.body (fun _ => Home p) s := by
  have hhome : ∀ {g : Kprog Unit}, Spec strict p g (fun _ => Has p {}) s →
      Spec strict p g (fun _ => Home p) s := fun h => wp_mono h fun _ _ h => h.home
  have hvalue : ∀ {g : Kprog Int}, Spec strict p g (fun _ => Has p {}) s →
      Spec strict p (do let _ ← g) (fun _ => Home p) s := fun h => wp_seq h fun _ _ h => wp_ret h.home
  cases x with
  | «open» path omode => exact hvalue (wp_sysOpen hs)
  | read fd n got => exact hvalue (wp_sysRead hs)
  | write fd src => exact hvalue (wp_sysWrite hs)
  | close fd => exact hvalue (wp_sysClose hs)
  | link old new =>
    cases old with
    | none => exact wp_ret hs.home
    | some old =>
      cases new with
      | none => exact wp_ret hs.home
      | some new => exact hvalue (wp_sysLink hs)
  | unlink path =>
    cases path with
    | none => exact wp_ret hs.home
    | some path => exact hvalue (wp_sysUnlink hs)
  | mkdir path => exact hvalue (wp_sysMknod hs)
  | mknod path major minor => exact hvalue (wp_sysMknod hs)
  | chdir path =>
    cases path with
    | none => exact wp_ret hs.home
    | some path => exact hvalue (wp_sysChdir hs)
  | exec path reads =>
    cases path with
    | none => exact wp_ret hs.home
    | some path => exact hhome (wp_sysExec hs)
  | dup fd => exact hvalue (wp_sysDup hs)
  | fork np => exact hhome (wp_fork np hs)
  | exit => exact wp_sysExit hs
  | wait np => exact hhome (wp_wait np hs)

/-! ## Runs -/

lemma boot_holders (d : Table Block) (i : Nat) :
    (boot d).holders i = if i = ROOTINO then [.cwd INITPROC] else [] := by
  show ((Table.const []).set ROOTINO [Holder.cwd INITPROC]) i = _
  rw [Table.get_set]
  rfl

lemma boot_icache (d : Table Block) (i : Nat) :
    (boot d).icache i = if i = ROOTINO then ⟨1, none, false, Dinode.zero⟩ else ⟨0, none, false, Dinode.zero⟩ := by
  show ((Table.const _).set ROOTINO _) i = _
  rw [Table.get_set]
  rfl

lemma boot_procs (d : Table Block) (p : Pid) :
    (boot d).procs p = if p = INITPROC then ⟨.runnable, ROOTINO, .const none⟩ else ⟨.unused, 0, .const none⟩ := by
  show ((Table.const _).set INITPROC _) p = _
  rw [Table.get_set]
  rfl

lemma boot_inv (d : Table Block) : Inv (boot d) := by
  refine ⟨fun i => ?_, fun i f => ?_, fun i q hb => ?_, fun _ => rfl, fun _ _ => rfl, fun _ _ => rfl, fun p fd _ => ?_⟩
  · rw [boot_icache, boot_holders]
    split <;> rfl
  · rw [boot_holders]
    show _ = if FdType.none = .inode ∧ _ then 1 else 0
    split <;> simp
  · rw [boot_icache] at hb
    split at hb <;> cases hb
  · rw [boot_procs]
    split <;> rfl

lemma boot_home (d : Table Block) (p : Pid) : Home p (boot d) := by
  refine ⟨fun i => ?_, fun i => ?_, fun i hb => ?_, fun _ => rfl, fun f fd => ?_, nofun, fun _ fd => ?_⟩
  · rw [boot_holders]
    split <;> simp
  · rw [boot_holders, boot_procs]
    by_cases hp : p = INITPROC
    · by_cases hi : i = ROOTINO
      · simp [hp, hi]
      · simp [hp, hi, Ne.symm hi]
    · by_cases hi : i = ROOTINO
      · simp [hp, hi, Ne.symm hp]
      · simp [hp, hi]
  · rw [boot_icache] at hb
    split at hb <;> cases hb
  · rw [boot_procs]
    split <;> rfl
  · rw [boot_procs]
    split <;> rfl

lemma runs (strict : Bool) (d : Table Block) {c : Config Pid Act Act.Res State Panic}
    (hr : Reaches kernel (logic strict).Given (.initial (boot d)) c) : Logic.Sound kernel (logic strict) c :=
  Logic.sound Env.refl (fun _ _ _ _ => Env.trans) (fun _ _ _ he h => Home.env h he)
    (fun _ x _ _ hh hcan => wp_body x (Home.has hh hcan)) (boot_inv d) (boot_home d) hr

/-! ## Counts between calls -/

def filesOn (s : State) (i : Nat) : List Nat :=
  (List.range NFILE).filter fun f => (s.ftable f).type = .inode ∧ (s.ftable f).ip = i

def procsIn (s : State) (i : Nat) : Set Pid := { p | (s.procs p).state = .runnable ∧ (s.procs p).cwd = i }

def Holder.file? : Holder → Option Nat
  | .file f => some f
  | _ => none

def Holder.cwd? : Holder → Option Pid
  | .cwd p => some p
  | _ => none

lemma length_split {l : List Holder} (h : ∀ p, .temp p ∉ l) :
    l.length = (l.filterMap Holder.file?).length + (l.filterMap Holder.cwd?).length := by
  induction l with
  | nil => rfl
  | cons x l ih =>
    have ih := ih fun p hp => h p (mem_cons_of_mem _ hp)
    cases x with
    | temp p => exact absurd mem_cons_self (h p)
    | cwd p => simp [filterMap_cons, Holder.file?, Holder.cwd?, ih, Nat.add_assoc]
    | file f =>
      simp only [filterMap_cons, Holder.file?, Holder.cwd?, length_cons, ih]
      omega

section Between

variable (hi : Inv s) (hh : ∀ p, Home p s)
include hi hh

lemma holders_nodup (i : Nat) : (s.holders i).Nodup := by
  refine nodup_iff_count_le_one.mpr fun x => ?_
  cases x with
  | temp p =>
    rw [(hh p).temps]
    exact Nat.zero_le 1
  | cwd p =>
    rw [(hh p).cwds]
    split <;> decide
  | file f =>
    rw [hi.file]
    split <;> decide

lemma filesOn_length (i : Nat) : ((s.holders i).filterMap Holder.file?).length = (filesOn s i).length := by
  have hinj : ∀ a a' b, b ∈ Holder.file? a → b ∈ Holder.file? a' → a = a' := by
    intro a a' b ha ha'
    cases a <;> cases a' <;> simp_all [Holder.file?]
  refine ((perm_ext_iff_of_nodup ((holders_nodup hi hh i).filterMap hinj)
    (nodup_range.filter _)).mpr fun f => ?_).length_eq
  have hmem : f ∈ (s.holders i).filterMap Holder.file? ↔ .file f ∈ s.holders i := by
    rw [mem_filterMap]
    constructor
    · rintro ⟨x, hx, hf⟩
      cases x <;> simp_all [Holder.file?]
    · exact fun h => ⟨_, h, rfl⟩
  rw [hmem, ← count_pos_iff, hi.file]
  simp only [mem_filter, mem_range, decide_eq_true_eq]
  constructor
  · intro h
    have hopen : (s.ftable f).type = .inode ∧ (s.ftable f).ip = i := by
      by_contra hnot
      rw [if_neg hnot] at h
      cases h
    refine ⟨?_, hopen⟩
    by_contra hge
    have := hi.ftype f (hi.frange f (by omega))
    rw [this] at hopen
    cases hopen.1
  · intro h
    rw [if_pos h.2]
    exact Nat.one_pos

omit hi in
lemma procsIn_eq (i : Nat) : procsIn s i = ((s.holders i).filterMap Holder.cwd?).toFinset := by
  ext p
  have hmem : p ∈ (s.holders i).filterMap Holder.cwd? ↔ .cwd p ∈ s.holders i := by
    rw [mem_filterMap]
    constructor
    · rintro ⟨x, hx, hf⟩
      cases x <;> simp_all [Holder.cwd?]
    · exact fun h => ⟨_, h, rfl⟩
  show (s.procs p).state = .runnable ∧ (s.procs p).cwd = i ↔ _
  rw [Finset.mem_coe, mem_toFinset, hmem, ← count_pos_iff, (hh p).cwds]
  constructor
  · intro h
    rw [if_pos h]
    exact Nat.one_pos
  intro h
  by_contra hnot
  rw [if_neg hnot] at h
  cases h

lemma procsIn_card (i : Nat) :
    (procsIn s i).Finite ∧ ((s.holders i).filterMap Holder.cwd?).length = (procsIn s i).ncard := by
  have hinj : ∀ a a' b, b ∈ Holder.cwd? a → b ∈ Holder.cwd? a' → a = a' := by
    intro a a' b ha ha'
    cases a <;> cases a' <;> simp_all [Holder.cwd?]
  rw [procsIn_eq hh i]
  refine ⟨Finset.finite_toSet _, ?_⟩
  exact ((Set.ncard_coe_finset _).trans
    (toFinset_card_of_nodup ((holders_nodup hi hh i).filterMap hinj))).symm

end Between

/-- The count of a cache entry is the number of pointers to it. When no call is in progress these are the
open files and the current directories. A lookup leaves its caller one more pointer to the inode that
it returns, and none when it fails. -/
theorem references_balance (d : Table Block) {c : Config Pid Act Act.Res State Panic}
    (hr : Reaches kernel (fun _ _ _ => True) (.initial (boot d)) c) :
    (∀ i, (c.st.icache i).ref = (c.st.holders i).length) ∧
    ((∀ p, c.thread p = none) → ∀ i, (procsIn c.st i).Finite ∧
      (c.st.icache i).ref = (filesOn c.st i).length + (procsIn c.st i).ncard) ∧
    ∀ p w parent path, w.locks = [] → w.loading = none → Has p w c.st →
      wp kernel (logic false) p (namex parent path) (Looked p w) c.st := by
  have hsound := runs false d (Reaches.strengthen kernel (fun _ _ _ _ _ _ _ => nofun) hr)
  refine ⟨hsound.inv.ref, fun hidle i => ?_, fun p w parent path hlocks hload hs =>
    wp_namex parent path hs hlocks hload⟩
  have hh : ∀ p, Home p c.st := fun p => hsound.idle p (hidle p)
  have hcard := procsIn_card hsound.inv hh i
  refine ⟨hcard.1, ?_⟩
  have htemp : ∀ p, .temp p ∉ c.st.holders i := fun p hm => by
    have := count_pos_iff.mpr hm
    have := (hh p).temps i
    omega
  rw [hsound.inv.ref, length_split htemp, filesOn_length hsound.inv hh, hcard.2]

def openAndFork : Config Pid Act Act.Res State Panic :=
  Config.play kernel (fun _ _ _ => True) (.initial (boot (image [])))
    (oneByOne [(INITPROC, .open (some [slash]) O_RDONLY), (INITPROC, .fork 2)])

theorem references_balance_openAndFork :
    (openAndFork.st.icache ROOTINO).ref = 3 ∧
    (openAndFork.st.icache ROOTINO).ref = (filesOn openAndFork.st ROOTINO).length +
      (procsIn openAndFork.st ROOTINO).ncard := by
  refine ⟨by decide +kernel, ?_⟩
  refine ((references_balance (image []) (c := openAndFork) (Config.play_reaches _ _)).2.1 (fun p => ?_) ROOTINO).2
  by_cases hp : p = INITPROC
  · subst hp
    have hdone : (openAndFork.thread INITPROC).isNone = true := by decide +kernel
    exact Option.isNone_iff_eq_none.mp hdone
  unfold openAndFork
  rw [Config.play_thread fun t ht => ?_]
  · rfl
  simp only [oneByOne, map_cons, map_nil, mem_cons, not_mem_nil, or_false] at ht
  rcases ht with rfl | rfl <;> exact hp

/-- A process acts on an inode only while it has it locked, and writes to files only in its own transaction.
Between its calls it has no lock, no transaction and no reference to drop. -/
theorem locks_cover_actions (d : Table Block) {c : Config Pid Act Act.Res State Panic}
    (hr : Reaches kernel (fun _ _ _ => True) (.initial (boot d)) c) (p : Pid) :
    (∀ a k, c.thread p = some (.act a k) → Needs false p a c.st) ∧
    (c.thread p = none → c.st.store.log.busy ≠ some p ∧
      ∀ i, (c.st.icache i).busy ≠ some p ∧ .temp p ∉ c.st.holders i) := by
  have hsound := runs false d (Reaches.strengthen kernel (fun _ _ _ _ _ _ _ => nofun) hr)
  refine ⟨fun a k ht => hsound.pre Env.refl ht nofun, fun hidle => ?_⟩
  have hh : Home p c.st := hsound.idle p hidle
  exact ⟨hh.trans, fun i => ⟨hh.locks i, count_eq_zero.mp (hh.temps i)⟩⟩

theorem locks_cover_actions_openAndFork :
    openAndFork.st.store.log.busy ≠ some INITPROC ∧
      ∀ i, (openAndFork.st.icache i).busy ≠ some INITPROC ∧ .temp INITPROC ∉ openAndFork.st.holders i := by
  refine (locks_cover_actions (image []) (c := openAndFork) (Config.play_reaches _ _) INITPROC).2 ?_
  exact Option.isNone_iff_eq_none.mp (by decide +kernel)

end Xv6.Fs.Refs
