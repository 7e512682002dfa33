import Xv6.Proofs.Holders

/-! # Locks, `iput` and open files -/

namespace Xv6.Fs.Refs

open Threads List Table

variable {s s' : State} {p q : Pid} {i f : Nat} {strict : Bool} {w : Own}

/-! ## Locks -/

structure Marks (i : Nat) (s s' : State) : Prop where
  touches : Touches i s s'
  ref : (s'.icache i).ref = (s.icache i).ref
  holders : s'.holders i = s.holders i
  trans : s'.store.log.busy = s.store.log.busy

lemma marks_set {c : Cached} (h : c.ref = (s.icache i).ref) : Marks i s { s with icache := s.icache.set i c } := by
  refine ⟨⟨fun j hj => get_set_ne _ _ hj, fun _ _ => rfl, rfl, rfl, rfl⟩, ?_, rfl, rfl⟩
  rw [get_set_self]
  exact h

lemma Marks.good (h : Marks i s s') (hi : Inv s)
    (hbusy : ∀ q, q ≠ p → ((s'.icache i).busy = some q ↔ (s.icache i).busy = some q))
    (hino : ∀ q, q ≠ p → (s.icache i).busy = some q →
      (s'.icache i).valid = (s.icache i).valid ∧ (s'.icache i).ino = (s.icache i).ino)
    (hpin : (s'.icache i).busy = some p → ∃ x ∈ s.holders i, Pins s p x) : Good p s s' := by
  refine good_touch hi h.touches ⟨?_, fun f => by rw [h.holders], fun q _ => by rw [h.holders],
    fun q _ => by rw [h.holders], hbusy, hino, by rw [h.holders]; exact hpin, fun q _ => by rw [h.trans]⟩
  rw [h.ref, h.holders]
  exact hi.ref i

lemma Marks.has {locks : List Nat} {loading : Option Nat} (h : Marks i s s') (hs : Has p w s)
    (hlock : ∀ j, (j = i → ((s'.icache i).busy = some p ↔ i ∈ locks)) ∧ (j ≠ i → (j ∈ locks ↔ j ∈ w.locks)))
    (hnodup : locks.Nodup)
    (hvalid : ∀ j ∈ locks, loading ≠ some j → (j = i → (s'.icache i).valid = true) ∧ (j ≠ i → w.loading ≠ some j)) :
    Has p { w with locks, loading } s' := by
  refine hs.touch h.touches (fun j => ⟨fun _ => ?_, fun _ => rfl⟩) hlock hnodup hvalid
    (fun j => ⟨fun _ => ?_, fun _ => .rfl⟩) ?_
  · rw [h.holders]
    exact hs.temps i
  · rw [h.holders]
    exact hs.cwds i
  · rw [h.trans]
    exact hs.trans

/-- The process has a pointer to inode `i`, of its own or through an open file. -/
def Sure (w : Own) (i : Nat) : Prop := i ∈ w.temps ∨ ∃ f, (f, i) ∈ w.files

lemma Sure.pin (h : Sure w i) (hi : Inv s) (hs : Has p w s) : ∃ x ∈ s.holders i, Pins s p x := by
  rcases h with h | ⟨f, hf⟩
  · exact ⟨.temp p, hs.temp_mem h, rfl⟩
  obtain ⟨hx, ht, hip⟩ := hs.files f i hf
  refine ⟨.file f, ?_, hx⟩
  rw [← count_pos_iff, hi.file, if_pos ⟨ht, hip⟩]
  exact Nat.one_pos

lemma Has.lock {loading : Option Nat} (hs : Has p w s) (hi : Inv s) (hfree : (s.icache i).busy = none)
    (hpin : ∃ x ∈ s.holders i, Pins s p x) (hvalid : ∀ j, loading ≠ some j →
      (j = i → (s.icache i).valid = true) ∧ (j ≠ i → w.loading ≠ some j)) :
    let s' := { s with icache := s.icache.set i { s.icache i with busy := some p } }
    Good p s s' ∧ i ∉ w.locks ∧ Has p { w with locks := i :: w.locks, loading } s' := by
  intro s'
  have hm : Marks i s s' := marks_set rfl
  have hb : s'.icache i = { s.icache i with busy := some p } := get_set_self _ _ _
  have hnot : i ∉ w.locks := fun h => by
    rw [(hs.locks i).mpr h] at hfree
    cases hfree
  refine ⟨hm.good hi (fun q hq => ?_) (fun q _ h => ?_) fun _ => hpin, hnot,
    hm.has hs (fun j => ⟨fun _ => ?_, fun hj => ?_⟩) (nodup_cons.mpr ⟨hnot, hs.nodup⟩) fun j _ hl => ?_⟩
  · rw [hb, hfree]
    simp [Ne.symm hq]
  · rw [hfree] at h
    cases h
  · rw [hb]
    simp
  · simp [hj]
  · rw [hb]
    exact hvalid j hl

lemma wp_ilock (hs : Has p w s) (hsure : Sure w i) (hload : w.loading = none) :
    Spec strict p (ilock i) (fun _ s => i ∉ w.locks ∧ Has p { w with locks := i :: w.locks } s) s := by
  have hbusy : Spec strict p (act (.ilockBusy i))
      (fun _ s => i ∉ w.locks ∧ Has p { w with locks := i :: w.locks, loading := some i } s) s := by
    refine wp_step (fun _ _ he h => h.env he) (fun _ _ => trivial) (fun s r s' hi _ hk he => ?_) hs
    rw [exec] at he
    split at he
    · cases he
    split at he
    · rename_i hfree
      cases he
      exact hk.lock hi hfree (hsure.pin hi hk) fun j hl =>
        ⟨fun hji => absurd (hji ▸ rfl) hl, fun _ => by simp [hload]⟩
    · cases he
  refine wp_seq hbusy fun _ s h => ?_
  obtain ⟨hnot, hs⟩ := h
  refine wp_step (fun _ _ he h => h.env he) (fun _ _ => trivial) (fun s r s' hi _ hk he => ?_) hs
  have hown : (s.icache i).busy = some p := (hk.locks i).mpr mem_cons_self
  have hother : ∀ q, q ≠ p → (s.icache i).busy ≠ some q := fun q hq h => hq (Option.some.inj (h.symm.trans hown))
  have hdone : ∀ s', Marks i s s' → (s'.icache i).busy = some p → (s'.icache i).valid = true → Good p s s' ∧
      i ∉ w.locks ∧ Has p { w with locks := i :: w.locks } s' := by
    intro s' hm hb hv
    refine ⟨hm.good hi (fun q hq => ?_) (fun q hq h => absurd h (hother q hq)) (fun _ => hi.pin i p hown), hnot, ?_⟩
    · rw [hb, hown]
    have hh : Has p { w with locks := i :: w.locks } s' :=
      hm.has (w := { w with locks := i :: w.locks, loading := some i }) hk
      (fun j => ⟨fun _ => ⟨fun _ => mem_cons_self, fun _ => hb⟩, fun _ => .rfl⟩) hk.nodup
      fun j _ _ => ⟨fun _ => hv, fun hji h => hji (Option.some.inj h).symm⟩
    exact hh
  rw [exec] at he
  split at he
  · rename_i hv
    cases he
    exact hdone s ⟨⟨fun _ _ => rfl, fun _ _ => rfl, rfl, rfl, rfl⟩, rfl, rfl, rfl⟩ hown hv
  split at he
  · cases he
  cases he
  refine hdone _ (marks_set rfl) ?_ ?_
  · rw [get_set_self]
    exact hown
  · rw [get_set_self]

lemma wp_iunlock (hs : Has p w s) (hl : i ∈ w.locks) (hload : w.loading = none) :
    Spec strict p (iunlock i) (fun _ => Has p { w with locks := w.locks.erase i }) s := by
  refine wp_step (fun _ _ he h => h.env he) (fun s h => h.locked hl hload) (fun s r s' hi _ hk he => ?_) hs
  have hown : (s.icache i).busy = some p := (hk.locks i).mpr hl
  rw [exec] at he
  split at he
  · cases he
  cases he
  have hm : Marks i s { s with icache := s.icache.set i { s.icache i with busy := none } } := marks_set rfl
  have hb : (s.icache.set i { s.icache i with busy := none }) i = { s.icache i with busy := none } :=
    get_set_self _ _ _
  refine ⟨hm.good hi (fun q hq => ?_) (fun q hq h => ?_) (fun h => ?_),
    hm.has hk (fun j => ⟨fun _ => ?_, fun hj => ?_⟩) (hk.nodup.erase i) fun j hj hl' => ⟨fun hji => ?_, fun _ => hl'⟩⟩
  · rw [hb, hown]
    simp [Ne.symm hq]
  · exact absurd (Option.some.inj (hown.symm.trans h)) (Ne.symm hq)
  · rw [hb] at h
    cases h
  · rw [hb]
    simp [List.Nodup.mem_erase_iff hk.nodup]
  · simp [List.Nodup.mem_erase_iff hk.nodup, hj]
  · rw [hji, List.Nodup.mem_erase_iff hk.nodup] at hj
    exact absurd rfl hj.1

/-! ## Dropping a pointer -/

lemma wp_iputBegin {r : Ref} (hs : Has p w s) (href : HasRef p w i s r) (hspare : Spare w i r) :
    Spec strict p (act (.iputBegin i r)) (fun last s =>
      (last = false → Has p (w.drop i r) s) ∧
      (last = true → i ∉ w.locks ∧ (strict = true → w.trans = true) ∧ HasRef p w i s r ∧
        Has p { w with locks := i :: w.locks } s)) s := by
  refine wp_step (S := fun s => Has p w s ∧ HasRef p w i s r)
    (fun _ _ he h => ⟨h.1.env he, h.2.env (he.same h.1.run).proc⟩)
    (fun _ _ => trivial) (fun s last s' hi hg hk he => ?_) ⟨hs, href⟩
  obtain ⟨hk, href⟩ := hk
  rw [exec] at he
  split at he
  · rename_i hlast
    split at he
    · cases he
    rename_i hfree
    have hfree : (s.icache i).busy = none := by simpa using hfree
    cases he
    have hvalid : (s.icache i).valid = true := by
      simp only [Cached.lastUnlinked, decide_eq_true_eq] at hlast
      exact hlast.2.1
    have hpin : ∃ x ∈ s.holders i, Pins s p x := ⟨_, href.mem hk, by cases r <;> rfl⟩
    obtain ⟨hgood, hnot, hh⟩ := hk.lock hi hfree hpin fun j hl => ⟨fun _ => hvalid, fun _ => hl⟩
    refine ⟨hgood, nofun, fun _ => ⟨hnot, fun h => hk.trans.mp (hg h hlast), ?_, hh⟩⟩
    cases r with
    | temp => exact href
    | cwd => exact href
  · cases he
    have hr : Removes (r.holder p) i s (decRef (r.holder p) i s) :=
      ⟨⟨fun j hj => get_set_ne _ _ hj, fun j hj => get_set_ne _ _ hj, rfl, rfl, rfl⟩, href.mem hk,
        get_set_self _ _ _, by simp [decRef], rfl⟩
    have hb : (decRef (r.holder p) i s).icache i = { s.icache i with ref := (s.icache i).ref - 1 } :=
      get_set_self _ _ _
    refine ⟨hr.good hi (fun q _ => by rw [hb]) (fun q _ _ => by rw [hb]; exact ⟨rfl, rfl⟩) (fun h => ?_),
      fun _ => ?_, nofun⟩
    · rw [hb] at h
      rw [hr.holders]
      exact ⟨.temp p, hspare.pin hk ((hk.locks i).mp h), rfl⟩
    · have hh : Has p { w.drop i r with locks := w.locks } _ :=
        hr.has hk href (fun j => ⟨fun _ => by rw [hb]; exact hk.locks i, fun _ => .rfl⟩)
        hk.nodup fun hl hload => by rw [hb]; exact hk.valid i hl hload
      cases r <;> exact hh

lemma wp_iputEnd {r : Ref} (hs : Has p { w with locks := i :: w.locks } s) (href : HasRef p w i s r) :
    Spec strict p (act (.iputEnd i r)) (fun _ => Has p (w.drop i r)) s := by
  refine wp_step (S := fun s => Has p { w with locks := i :: w.locks } s ∧ HasRef p w i s r)
    (fun _ _ he h => ⟨h.1.env he, h.2.env (he.same h.1.run).proc⟩) (fun _ _ => trivial)
    (fun s last s' hi hg hk he => ?_) ⟨hs, href⟩
  obtain ⟨hk, href⟩ := hk
  have href' : HasRef p { w with locks := i :: w.locks } i s r := by cases r <;> exact href
  have hown : (s.icache i).busy = some p := (hk.locks i).mpr mem_cons_self
  have hnot : i ∉ w.locks := (nodup_cons.mp hk.nodup).1
  cases he
  have hb : (decRef (r.holder p) i { s with
      icache := s.icache.set i { s.icache i with busy := none, valid := false } }).icache i =
      { s.icache i with busy := none, valid := false, ref := (s.icache i).ref - 1 } := by
    simp [decRef]
  have hr : Removes (r.holder p) i s (decRef (r.holder p) i { s with
      icache := s.icache.set i { s.icache i with busy := none, valid := false } }) := by
    refine ⟨⟨fun j hj => ?_, fun j hj => get_set_ne _ _ hj, rfl, rfl, rfl⟩, href'.mem hk,
      get_set_self _ _ _, by rw [hb], rfl⟩
    simp [decRef, hj]
  refine ⟨hr.good hi (fun q hq => ?_) (fun q hq h => ?_) (fun h => ?_), ?_⟩
  · rw [hb, hown]
    simp [Ne.symm hq]
  · exact absurd (Option.some.inj (hown.symm.trans h)) (Ne.symm hq)
  · rw [hb] at h
    cases h
  · have hh : Has p { ({ w with locks := i :: w.locks } : Own).drop i r with locks := w.locks } _ :=
      hr.has hk href' (fun j => ⟨fun _ => by rw [hb]; simp [hnot], fun hj => by simp [hj]⟩)
        (nodup_cons.mp hk.nodup).2 fun hl _ => absurd hl hnot
    cases r <;> exact hh

lemma itrunc_works {r : Unit} (he : exec p (.itrunc i) s = .next r s') : Works i s s' :=
  onInode_works (m := fun ip => do return ((), ← itrunc i ip))
    (fun ip => Logs.bind (Logs.itrunc i ip) fun _ => Logs.pure _) he

lemma edit_works {e : Edit} {r : Unit} (he : exec p (.edit i e) s = .next r s') : Works i s s' :=
  onInode_works (m := fun ip => do iupdate i (e.apply ip); return ((), e.apply ip))
    (fun _ => Logs.bind (Logs.iupdate i _) fun _ => Logs.pure _) he

lemma wp_iput {r : Ref} (hs : Has p w s) (href : HasRef p w i s r) (hspare : Spare w i r)
    (hload : w.loading = none) :
    Spec strict p (iput r i) (fun _ => Has p (w.drop i r)) s := by
  refine wp_seq (wp_iputBegin hs href hspare) fun last s h => ?_
  cases last with
  | false => exact wp_ret (h.1 rfl)
  | true =>
    obtain ⟨hnot, htrans, href, hs⟩ := h.2 rfl
    have hneeds : ∀ s, Has p { w with locks := i :: w.locks } s →
        Locked p i s ∧ (strict = true → s.store.log.busy = some p) := fun s h =>
      ⟨h.locked mem_cons_self hload, fun hst => h.trans.mpr (htrans hst)⟩
    have hstay : ∀ {a : Act} {s : State}, (∀ s, Has p { w with locks := i :: w.locks } s → Needs strict p a s) →
        (∀ s r s', exec p a s = .next r s' → Works i s s') →
        Has p { w with locks := i :: w.locks } s → HasRef p w i s r →
        Spec strict p (act a)
          (fun _ s => Has p { w with locks := i :: w.locks } s ∧ HasRef p w i s r) s := by
      intro a s hpre ha hs href
      refine wp_step (S := fun s => Has p { w with locks := i :: w.locks } s ∧ HasRef p w i s r)
        (fun _ _ he h => ⟨h.1.env he, h.2.env (he.same h.1.run).proc⟩) (fun s h => hpre s h.1)
        (fun s x s' hi _ hk he => ?_) ⟨hs, href⟩
      have hw := ha s x s' he
      exact ⟨hw.good hi ((hk.1.locks i).mpr mem_cons_self), hw.has hk.1, hk.2.env (by rw [hw.touches.procs])⟩
    refine wp_seq (hstay hneeds (fun s r s' he => itrunc_works he) hs href) fun _ s h => ?_
    refine wp_seq (hstay hneeds (fun s r s' he => edit_works he) h.1 h.2) fun _ s h => ?_
    exact wp_iputEnd h.1 h.2

/-! ## Open files -/

/-- A change of the descriptors of `p` and of the pointers to file `f`, which stays open on what it
is open on. -/
structure FileStep (p : Pid) (f : Nat) (s s' : State) : Prop where
  icache : s'.icache = s.icache
  holders : s'.holders = s.holders
  trans : s'.store.log.busy = s.store.log.busy
  procs : ∀ q, q ≠ p → s'.procs q = s.procs q
  fdrange : ∀ fd, NOFILE ≤ fd → (s'.procs p).ofile fd = none
  ftable : ∀ j, j ≠ f → s'.ftable j = s.ftable j
  fholders : ∀ j, j ≠ f → s'.fholders j = s.fholders j
  type : (s'.ftable f).type = (s.ftable f).type
  ip : (s'.ftable f).ip = (s.ftable f).ip
  ref : (s'.ftable f).ref = (s'.fholders f).length
  free : (s'.ftable f).ref = 0 → (s'.ftable f).type = .none
  frange : NFILE ≤ f → (s'.ftable f).ref = 0
  others : ∀ q, q ≠ p → ∀ x, (s'.fholders f).count ⟨q, x⟩ = (s.fholders f).count ⟨q, x⟩
  alone : ∀ q, q ≠ p → ∀ x, s.fholders f = [⟨q, x⟩] → s'.fholders f = [⟨q, x⟩]
  pins : ∀ i, (s.icache i).busy = some p → ∃ h ∈ s.holders i, Pins s' p h

lemma FileStep.count (h : FileStep p f s s') (hq : q ≠ p) (j : Nat) (x : Option Nat) :
    (s'.fholders j).count ⟨q, x⟩ = (s.fholders j).count ⟨q, x⟩ := by
  by_cases hj : j = f
  · rw [hj, h.others q hq]
  · rw [h.fholders j hj]

lemma FileStep.open (h : FileStep p f s s') (j : Nat) :
    (s'.ftable j).type = (s.ftable j).type ∧ (s'.ftable j).ip = (s.ftable j).ip := by
  by_cases hj : j = f
  · rw [hj]
    exact ⟨h.type, h.ip⟩
  · rw [h.ftable j hj]
    exact ⟨rfl, rfl⟩

lemma FileStep.good (h : FileStep p f s s') (hi : Inv s) : Good p s s' := by
  refine ⟨⟨?_, fun i j => ?_, fun i q hb => ?_, fun j => ?_, fun j => ?_, fun j => ?_, fun q => ?_⟩,
    fun q hq => .inl ⟨h.procs q hq, fun i => by rw [h.holders], fun i => by rw [h.holders],
      fun i => by rw [h.icache], fun i _ => by rw [h.icache]; exact ⟨rfl, rfl⟩, fun j x => h.count hq j x,
      fun j _ _ => h.open j, fun j x ha => ?_, by rw [h.trans]⟩⟩
  · rw [h.icache, h.holders]
    exact hi.ref
  · rw [h.holders, (h.open j).1, (h.open j).2]
    exact hi.file i j
  · rw [h.icache] at hb
    rw [h.holders]
    by_cases hq : q = p
    · rw [hq] at hb ⊢
      exact h.pins i hb
    obtain ⟨x, hx, hp⟩ := hi.pin i q hb
    refine ⟨x, hx, ?_⟩
    cases x with
    | temp r => exact hp
    | cwd r => exact hp
    | file j =>
      obtain ⟨fd, hfd⟩ := hp
      refine ⟨fd, ?_⟩
      rw [← count_pos_iff] at hfd ⊢
      rw [h.count hq]
      exact hfd
  · have hold := hi.fref j
    grind [FileStep]
  · have hold := hi.ftype j
    grind [FileStep]
  · have hold := hi.frange j
    grind [FileStep]
  · have hold := hi.fdrange q
    grind [FileStep]
  · grind [FileStep]

/-- What a thread has of open files. -/
structure HasFiles (p : Pid) (tmp gone fresh : Option Nat) (files : List (Nat × Nat)) (s : State) : Prop where
  tmp : ∀ j, (s.fholders j).count ⟨p, none⟩ = if tmp = some j then 1 else 0
  fds : ∀ j fd, (s.fholders j).count ⟨p, some fd⟩ = if (s.procs p).ofile fd = some j ∧ gone ≠ some fd then 1 else 0
  fresh : ∀ j, fresh = some j → (s.ftable j).type = .none ∧ ∃ x, s.fholders j = [⟨p, x⟩]
  files : ∀ j i, (j, i) ∈ files → (∃ x, ⟨p, x⟩ ∈ s.fholders j) ∧ (s.ftable j).type = .inode ∧ (s.ftable j).ip = i

lemma FileStep.has {tmp gone fresh : Option Nat} {files : List (Nat × Nat)} (h : FileStep p f s s') (hs : Has p w s)
    (hself : (s'.procs p).state = (s.procs p).state ∧ (s'.procs p).cwd = (s.procs p).cwd)
    (hf : HasFiles p tmp gone fresh files s') : Has p { w with tmp, gone, fresh, files } s' where
  run := hself.1.trans hs.run
  temps i := by
    rw [h.holders]
    exact hs.temps i
  cwds i := by
    rw [h.holders, hself.2]
    exact hs.cwds i
  locks i := by
    rw [h.icache]
    exact hs.locks i
  nodup := hs.nodup
  valid i hm hl := by
    rw [h.icache]
    exact hs.valid i hm hl
  tmp := hf.tmp
  fds := hf.fds
  fresh := hf.fresh
  files := hf.files
  trans := by
    rw [h.trans]
    exact hs.trans

def Firm (w : Own) : Prop := ∀ i ∈ w.locks, i ∈ w.temps

lemma Firm.pins (h : Firm w) (hs : Has p w s) (hb : (s.icache i).busy = some p) :
    ∃ x ∈ s.holders i, Pins s' p x :=
  ⟨.temp p, hs.temp_mem (h i ((hs.locks i).mp hb)), rfl⟩

lemma Inv.nil (hi : Inv s) (h : (s.ftable f).ref = 0) : s.fholders f = [] := by
  have := hi.fref f
  exact length_eq_zero_iff.mp (by omega)

lemma wp_filealloc (hs : Has p w s) (hfirm : Firm w) (htmp : w.tmp = none) (hfiles : w.files = []) :
    Spec strict p (act .filealloc) (fun r s =>
      (r = none → Has p w s) ∧ ∀ f, r = some f → Has p { w with tmp := some f, fresh := some f } s) s := by
  refine wp_step (fun _ _ he h => h.env he) (fun _ _ => trivial) (fun s r s' hi _ hk he => ?_) hs
  rw [exec] at he
  split at he
  · cases he
    exact ⟨.refl hi, fun _ => hk, nofun⟩
  rename_i f hf
  have h0 : (s.ftable f).ref = 0 := by simpa using List.find?_some hf
  have hlt : f < NFILE := by simpa using List.mem_of_find?_eq_some hf
  have hnil := hi.nil h0
  cases he
  have hfh : (s.fholders.set f [⟨p, none⟩]) f = [⟨p, none⟩] := get_set_self _ _ _
  have hft : (s.ftable.set f { s.ftable f with ref := 1 }) f = { s.ftable f with ref := 1 } := get_set_self _ _ _
  have hstep : FileStep p f s { s with
      ftable := s.ftable.set f { s.ftable f with ref := 1 }
      fholders := s.fholders.set f [⟨p, none⟩] } := by
    refine ⟨rfl, rfl, rfl, fun _ _ => rfl, hi.fdrange p, fun j hj => get_set_ne _ _ hj,
      fun j hj => get_set_ne _ _ hj, by rw [hft], by rw [hft], by rw [hft, hfh]; rfl, fun h => ?_, fun h => ?_,
      fun q hq x => ?_, fun q hq x h => ?_, fun i hb => hfirm.pins hk hb⟩
    · rw [hft] at h
      cases h
    · omega
    · rw [hfh, hnil]
      simp [Ne.symm hq]
    · rw [hnil] at h
      cases h
  refine ⟨hstep.good hi, nofun, ?_⟩
  rintro _ ⟨⟩
  refine hstep.has hk ⟨rfl, rfl⟩ ⟨fun j => ?_, fun j fd => ?_, ?_, by simp [hfiles]⟩
  · have hold := hk.tmp j
    have hother := hstep.fholders j
    grind
  · have hold := hk.fds j fd
    have hother := hstep.fholders j
    grind
  · rintro _ ⟨⟩
    refine ⟨?_, none, hfh⟩
    rw [hft]
    exact hi.ftype f h0

lemma setOfile_proc (p q : Pid) (fd : Nat) (o : Option Nat) (s : State) :
    (setOfile p fd o s).procs q = if q = p then { s.procs p with ofile := (s.procs p).ofile.set fd o } else s.procs q :=
  get_set _ _ _ _

lemma setOfile_self (p : Pid) (fd : Nat) (o : Option Nat) (s : State) :
    ((setOfile p fd o s).procs p).state = (s.procs p).state ∧ ((setOfile p fd o s).procs p).cwd = (s.procs p).cwd := by
  rw [setOfile_proc, if_pos rfl]
  exact ⟨rfl, rfl⟩

lemma count_move (l : List FileHolder) {h h' : FileHolder} (x : FileHolder) (hne : h ≠ h') :
    (h' :: l.erase h).count x = if x = h then l.count h - 1 else if x = h' then l.count h' + 1 else l.count x := by
  rw [count_cons]
  grind

lemma moveFileHolder_step {x y : Option Nat} {g : Nat} {o : Option Nat} (hi : Inv s) (hm : ⟨p, x⟩ ∈ s.fholders f)
    (hg : g < NOFILE) (hpins : ∀ i, (s.icache i).busy = some p → .temp p ∈ s.holders i) :
    FileStep p f s (moveFileHolder f ⟨p, x⟩ ⟨p, y⟩ (setOfile p g o s)) := by
  have hfh : (moveFileHolder f ⟨p, x⟩ ⟨p, y⟩ (setOfile p g o s)).fholders f =
      ⟨p, y⟩ :: (s.fholders f).erase ⟨p, x⟩ := get_set_self _ _ _
  refine ⟨rfl, rfl, rfl, fun q hq => ?_, fun fd hfd => ?_, fun _ _ => rfl, fun j hj => get_set_ne _ _ hj, rfl, rfl,
    ?_, hi.ftype f, hi.frange f, fun q hq z => ?_, fun q hq z h => ?_, fun i hb => ⟨.temp p, hpins i hb, rfl⟩⟩
  · exact get_set_ne _ _ hq
  · show ((setOfile p g o s).procs p).ofile fd = none
    rw [setOfile_proc, if_pos rfl]
    have : fd ≠ g := by omega
    simp only [get_set_ne _ _ this]
    exact hi.fdrange p fd hfd
  · rw [hfh, length_cons, length_erase_of_mem hm]
    have := length_pos_of_mem hm
    have := hi.fref f
    show (s.ftable f).ref = _
    omega
  · rw [hfh, count_cons_of_ne (by simp [Ne.symm hq]), count_erase_of_ne (by simp [hq])]
  · rw [h, mem_singleton] at hm
    exact absurd (congrArg FileHolder.pid hm).symm hq

lemma setOfile_step {g : Nat} {o : Option Nat} (hi : Inv s) (hg : g < NOFILE) : FileStep p 0 s (setOfile p g o s) := by
  refine ⟨rfl, rfl, rfl, fun q hq => get_set_ne _ _ hq, fun fd hfd => ?_, fun _ _ => rfl, fun _ _ => rfl, rfl, rfl,
    hi.fref 0, hi.ftype 0, hi.frange 0, fun _ _ _ => rfl, fun _ _ _ h => h, fun i hb => hi.pin i p hb⟩
  rw [setOfile_proc, if_pos rfl]
  have : fd ≠ g := by omega
  simp only [get_set_ne _ _ this]
  exact hi.fdrange p fd hfd

lemma setOfile_ofile (p : Pid) (g fd : Nat) (o : Option Nat) (s : State) :
    ((setOfile p g o s).procs p).ofile fd = if fd = g then o else (s.procs p).ofile fd := by
  rw [setOfile_proc, if_pos rfl]
  exact get_set _ _ _ _

lemma Has.firm_pin (hs : Has p w s) (h : Firm w) (hb : (s.icache i).busy = some p) : .temp p ∈ s.holders i :=
  hs.temp_mem (h i ((hs.locks i).mp hb))

lemma Has.tmp_mem (hs : Has p w s) (h : w.tmp = some f) : ⟨p, none⟩ ∈ s.fholders f := by
  rw [← count_pos_iff, hs.tmp, if_pos h]
  exact Nat.one_pos

lemma Has.fd_mem {fd : Nat} (hs : Has p w s) (h : (s.procs p).ofile fd = some f) (hg : w.gone ≠ some fd) :
    ⟨p, some fd⟩ ∈ s.fholders f := by
  rw [← count_pos_iff, hs.fds, if_pos ⟨h, hg⟩]
  exact Nat.one_pos

lemma fdalloc_spec {fd : Nat} (h : fdalloc p f s = some (fd, s')) :
    fd < NOFILE ∧ (s.procs p).ofile fd = none ∧ s' = setOfile p fd (some f) s := by
  unfold fdalloc at h
  split at h
  · cases h
  · rename_i g hg
    cases h
    refine ⟨by simpa using List.mem_of_find?_eq_some hg, by simpa using List.find?_some hg, rfl⟩

lemma wp_fdalloc (hs : Has p w s) (hfirm : Firm w) (htmp : w.tmp = some f) (hgone : w.gone = none)
    (hfiles : w.files = []) :
    Spec strict p (act (.fdalloc f)) (fun r s =>
      (r = none → Has p w s) ∧ (r ≠ none → Has p { w with tmp := none } s)) s := by
  refine wp_step (fun _ _ he h => h.env he) (fun _ _ => trivial) (fun s r s' hi _ hk he => ?_) hs
  rw [exec] at he
  split at he
  · cases he
    exact ⟨.refl hi, fun _ => hk, fun h => absurd rfl h⟩
  rename_i fd t hfd
  obtain ⟨hlt, hnone, rfl⟩ := fdalloc_spec hfd
  cases he
  have hmem := hk.tmp_mem htmp
  have hstep := moveFileHolder_step (x := none) (y := some fd) (o := some f) hi hmem hlt
    fun i hb => hk.firm_pin hfirm hb
  have hfh : (moveFileHolder f ⟨p, none⟩ ⟨p, some fd⟩ (setOfile p fd (some f) s)).fholders f =
    ⟨p, some fd⟩ :: (s.fholders f).erase ⟨p, none⟩ := get_set_self _ _ _
  have hof : ∀ g, ((moveFileHolder f ⟨p, none⟩ ⟨p, some fd⟩ (setOfile p fd (some f) s)).procs p).ofile g =
    if g = fd then some f else (s.procs p).ofile g := fun g => setOfile_ofile p fd g (some f) s
  have hself := setOfile_self p fd (some f) s
  refine ⟨hstep.good hi, nofun, fun _ => hstep.has hk hself ⟨fun j => ?_, fun j g => ?_, fun j hj => ?_,
    by simp [hfiles]⟩⟩
  · have hold := hk.tmp j
    have hmove := count_move (s.fholders f) ⟨p, none⟩ (show (⟨p, none⟩ : FileHolder) ≠ ⟨p, some fd⟩ by simp)
    have hother := hstep.fholders j
    grind
  · have hold := hk.fds j g
    have hother := hstep.fholders j
    rw [hof, hgone]
    grind
  · obtain ⟨ht, x, hx⟩ := hk.fresh j hj
    have hother := hstep.fholders j
    refine ⟨ht, ?_⟩
    by_cases hjf : j = f
    · rw [hjf] at hx ⊢
      rw [hx, mem_singleton] at hmem
      rw [hfh, hx, ← hmem]
      exact ⟨some fd, by simp⟩
    · exact ⟨x, (hother hjf).trans hx⟩

/-- A file that is at two descriptors, the second one without a pointer of its own yet. -/
def Dups (p : Pid) (f fd g : Nat) (s : State) : Prop :=
  g ≠ fd ∧ (s.procs p).ofile g = some f ∧ (s.procs p).ofile fd = some f

lemma wp_dupFd {g : Nat} (hs : Has p {} s) (hg : (s.procs p).ofile g = some f) :
    Spec strict p (act (.dupFd f)) (fun r s => (r = none → Has p {} s) ∧
      ∀ fd, r = some fd → Has p { gone := some fd } s ∧ Dups p f fd g s) s := by
  refine wp_slot (K := fun q => q.ofile g = some f) (fun _ => trivial) (fun s r s' hi hk hof he => ?_) hs hg
  rw [exec] at he
  split at he
  · cases he
    exact ⟨.refl hi, fun _ => hk, nofun⟩
  rename_i fd t hfd
  obtain ⟨hlt, hnone, rfl⟩ := fdalloc_spec hfd
  cases he
  have hstep := setOfile_step (p := p) (o := some f) hi hlt
  refine ⟨hstep.good hi, nofun, ?_⟩
  rintro _ ⟨⟩
  have hne : g ≠ fd := by
    rintro rfl
    rw [hof] at hnone
    cases hnone
  have hself := setOfile_self p fd (some f) s
  refine ⟨hstep.has hk hself ⟨hk.tmp, fun j g => ?_, nofun, nofun⟩, hne, ?_, ?_⟩
  · have hcount := hk.fds j g
    rw [setOfile_ofile]
    show (s.fholders j).count _ = _
    grind
  · rw [setOfile_ofile, if_neg hne, hof]
  · rw [setOfile_ofile, if_pos rfl]

lemma wp_filedup {fd g : Nat} (hs : Has p { gone := some fd } s) (ho : Dups p f fd g s) :
    Spec strict p (act (.filedup f fd)) (fun _ => Has p {}) s := by
  refine wp_slot (K := fun q => g ≠ fd ∧ q.ofile g = some f ∧ q.ofile fd = some f) (fun _ => trivial)
    (fun s r s' hi hk ho he => ?_) hs ho
  obtain ⟨hgfd, hg, ho⟩ := ho
  rw [exec] at he
  split at he
  · cases he
  rename_i href
  cases he
  have hfh : (filedup f ⟨p, some fd⟩ s).fholders f = ⟨p, some fd⟩ :: s.fholders f := get_set_self _ _ _
  have hft : (filedup f ⟨p, some fd⟩ s).ftable f = { s.ftable f with ref := (s.ftable f).ref + 1 } :=
    get_set_self _ _ _
  have hstep : FileStep p f s (filedup f ⟨p, some fd⟩ s) := by
    refine ⟨rfl, rfl, rfl, fun _ _ => rfl, hi.fdrange p, fun j hj => get_set_ne _ _ hj,
      fun j hj => get_set_ne _ _ hj, by rw [hft], by rw [hft], ?_, fun h => ?_, fun h => ?_, fun q hq x => ?_,
      fun q hq x h => ?_, fun i hb => absurd ((hk.locks i).mp hb) nofun⟩
    · rw [hft, hfh, length_cons, ← hi.fref f]
    · rw [hft] at h
      cases h
    · have := hi.frange f h
      omega
    · rw [hfh, count_cons_of_ne (by simp [Ne.symm hq])]
    · have hmem := hk.fd_mem hg fun h => hgfd (Option.some.inj h).symm
      rw [h, mem_singleton] at hmem
      exact absurd (congrArg FileHolder.pid hmem).symm hq
  refine ⟨hstep.good hi, hstep.has hk ⟨rfl, rfl⟩ ⟨fun j => ?_, fun j g => ?_, nofun, nofun⟩⟩
  · have hold := hk.tmp j
    have hother := hstep.fholders j
    grind
  · have hold := hk.fds j g
    have hother := hstep.fholders j
    show _ = if (s.procs p).ofile g = some j ∧ _ then 1 else 0
    grind

lemma wp_takeFd {fd : Nat} (hs : Has p {} s) (ho : (s.procs p).ofile fd = some f) :
    Spec strict p (act (.takeFd fd)) (fun _ => Has p { tmp := some f }) s := by
  refine wp_slot (K := fun q => q.ofile fd = some f) (fun _ => trivial) (fun s r s' hi hk ho he => ?_) hs ho
  have hlt : fd < NOFILE := by
    by_contra hge
    rw [hi.fdrange p fd (by omega)] at ho
    cases ho
  have hmem := hk.fd_mem ho nofun
  have hstep := moveFileHolder_step (x := some fd) (y := none) (o := none) hi hmem hlt
    fun i hb => absurd ((hk.locks i).mp hb) nofun
  have hfh : (moveFileHolder f ⟨p, some fd⟩ ⟨p, none⟩ (setOfile p fd none s)).fholders f =
    ⟨p, none⟩ :: (s.fholders f).erase ⟨p, some fd⟩ := get_set_self _ _ _
  have hof : ∀ g, ((moveFileHolder f ⟨p, some fd⟩ ⟨p, none⟩ (setOfile p fd none s)).procs p).ofile g =
    if g = fd then none else (s.procs p).ofile g := fun g => setOfile_ofile p fd g none s
  rw [exec, ho] at he
  cases he
  have hself := setOfile_self p fd none s
  refine ⟨hstep.good hi, hstep.has hk hself ⟨fun j => ?_, fun j g => ?_, nofun, nofun⟩⟩
  · have hold := hk.tmp j
    have hmove := count_move (s.fholders f) ⟨p, none⟩ (show (⟨p, some fd⟩ : FileHolder) ≠ ⟨p, none⟩ by simp)
    have hother := hstep.fholders j
    grind
  · have hold := hk.fds j g
    have hother := hstep.fholders j
    rw [hof]
    grind

def ClosedBelow (p : Pid) (n : Nat) (s : State) : Prop := ∀ fd, fd < n → (s.procs p).ofile fd = none

lemma wp_clearFd {fd : Nat} (hs : Has p { gone := some fd } s) (hlt : fd < NOFILE) (hbelow : ClosedBelow p fd s) :
    Spec strict p (act (.clearFd fd)) (fun _ s => Has p {} s ∧ ClosedBelow p (fd + 1) s) s := by
  refine wp_slot (K := fun q => ∀ g, g < fd → q.ofile g = none) (fun _ => trivial)
    (fun s r s' hi hk hbelow he => ?_) hs hbelow
  cases he
  have hstep := setOfile_step (p := p) (o := none) hi hlt
  have hself := setOfile_self p fd none s
  refine ⟨hstep.good hi, hstep.has hk hself ⟨hk.tmp, fun j g => ?_, nofun, nofun⟩, fun g hg => ?_⟩
  · have hcount := hk.fds j g
    rw [setOfile_ofile]
    show (s.fholders j).count _ = _
    grind
  · rw [setOfile_ofile]
    grind [ClosedBelow]

lemma wp_advance (n : Nat) (hs : Has p w s) :
    Spec strict p (act (.advance f n)) (fun _ => Has p w) s := by
  refine wp_step (fun _ _ he h => h.env he) (fun _ _ => trivial) (fun s r s' hi _ hk he => ?_) hs
  cases he
  have hft : (s.ftable.set f { s.ftable f with off := (s.ftable f).off + n }) f =
    { s.ftable f with off := (s.ftable f).off + n } := get_set_self _ _ _
  have hstep : FileStep p f s { s with ftable := s.ftable.set f { s.ftable f with off := (s.ftable f).off + n } } := by
    refine ⟨rfl, rfl, rfl, fun _ _ => rfl, hi.fdrange p, fun j hj => get_set_ne _ _ hj, fun _ _ => rfl,
      by rw [hft], by rw [hft], ?_, fun h => ?_, fun h => ?_, fun _ _ _ => rfl, fun _ _ _ h => h,
        fun i hb => hi.pin i p hb⟩
    · rw [hft]
      exact hi.fref f
    · rw [hft] at h ⊢
      exact hi.ftype f h
    · rw [hft]
      exact hi.frange f h
  refine ⟨hstep.good hi, hstep.has hk ⟨rfl, rfl⟩ ⟨hk.tmp, hk.fds, fun j hj => ?_, fun j i hm => ?_⟩⟩
  · obtain ⟨ht, hx⟩ := hk.fresh j hj
    exact ⟨(hstep.open j).1.trans ht, hx⟩
  · obtain ⟨hx, ht, hip⟩ := hk.files j i hm
    exact ⟨hx, (hstep.open j).1.trans ht, (hstep.open j).2.trans hip⟩

/-- What is left when the pointer to a file is dropped that was at descriptor `fd` or at none. -/
def Own.closed (w : Own) : Option Nat → Own
  | none => { w with tmp := none, fresh := none }
  | some fd => { w with gone := some fd, fresh := none }

def HasFile (p : Pid) (w : Own) (f : Nat) (s : State) : Option Nat → Prop
  | none => w.tmp = some f
  | some fd => (s.procs p).ofile fd = some f ∧ w.gone = none

lemma HasFile.env {fd : Option Nat} (h : HasFile p w f s fd) (hs : Same p s s') : HasFile p w f s' fd := by
  cases fd with
  | none => exact h
  | some fd => exact ⟨hs.proc ▸ h.1, h.2⟩

lemma HasFile.mem {fd : Option Nat} (h : HasFile p w f s fd) (hs : Has p w s) : ⟨p, fd⟩ ∈ s.fholders f := by
  cases fd with
  | none => exact hs.tmp_mem h
  | some fd => exact hs.fd_mem h.1 (by simp [h.2])

lemma HasFile.count {fd : Option Nat} (h : HasFile p w f s fd) (hs : Has p w s) :
    (s.fholders f).count ⟨p, fd⟩ = 1 := by
  cases fd with
  | none =>
    have htmp : w.tmp = some f := h
    rw [hs.tmp, if_pos htmp]
  | some fd => rw [hs.fds, if_pos ⟨h.1, by simp [h.2]⟩]

lemma closed_files {fd : Option Nat} (hk : Has p w s) (h : HasFile p w f s fd) (hfiles : w.files = [])
    (hfh : s'.fholders = s.fholders.set f ((s.fholders f).erase ⟨p, fd⟩)) (hprocs : s'.procs = s.procs) :
    HasFiles p (w.closed fd).tmp (w.closed fd).gone (w.closed fd).fresh (w.closed fd).files s' where
  tmp j := by
    have hold := hk.tmp j
    have hone := h.count hk
    rw [hfh, get_set]
    cases fd <;> grind [Own.closed, HasFile]
  fds j g := by
    have hold := hk.fds j g
    rw [hfh, hprocs, get_set]
    cases fd <;> grind [Own.closed, HasFile]
  fresh := by cases fd <;> simp [Own.closed]
  files := by cases fd <;> simp [Own.closed, hfiles]

lemma drop_step {fd : Option Nat} (ff : File) (hi : Inv s) (hk : Has p w s) (hfirm : Firm w)
    (h : HasFile p w f s fd) (href : ff.ref = (s.ftable f).ref - 1)
    (htype : ff.type = (s.ftable f).type) (hip : ff.ip = (s.ftable f).ip) (hfree : ff.ref = 0 → ff.type = .none) :
    FileStep p f s { s with
      ftable := s.ftable.set f ff
      fholders := s.fholders.set f ((s.fholders f).erase ⟨p, fd⟩) } := by
  have hmem := h.mem hk
  have hfh : (s.fholders.set f ((s.fholders f).erase ⟨p, fd⟩)) f = (s.fholders f).erase ⟨p, fd⟩ :=
    get_set_self _ _ _
  have hft : (s.ftable.set f ff) f = ff := get_set_self _ _ _
  refine ⟨rfl, rfl, rfl, fun _ _ => rfl, hi.fdrange p, fun j hj => get_set_ne _ _ hj,
    fun j hj => get_set_ne _ _ hj, by rw [hft, htype], by rw [hft, hip], ?_, fun h => ?_, fun h => ?_,
    fun q hq x => ?_, fun q hq x h => ?_, fun i hb => hfirm.pins hk hb⟩
  · rw [hft, hfh, length_erase_of_mem hmem, href, hi.fref f]
  · rw [hft] at h ⊢
    exact hfree h
  · rw [hft]
    have := hi.frange f h
    omega
  · rw [hfh, count_erase_of_ne (by simp [hq])]
  · rw [h, mem_singleton] at hmem
    exact absurd (congrArg FileHolder.pid hmem).symm hq

lemma drop_has {fd : Option Nat} (hstep : FileStep p f s s') (hk : Has p w s) (h : HasFile p w f s fd)
    (hfh : s'.fholders = s.fholders.set f ((s.fholders f).erase ⟨p, fd⟩)) (hprocs : s'.procs = s.procs)
    (hfiles : w.files = []) : Has p (w.closed fd) s' := by
  have hh := hstep.has hk (by simp [hprocs]) (closed_files hk h hfiles hfh hprocs)
  cases fd <;> exact hh

end Xv6.Fs.Refs
