import Xv6.Proofs.HolderActions
import Mathlib.Data.Set.Card

/-! # No reference is lost -/

namespace Xv6.Fs.Refs

open Threads List Table

variable {s s' : State} {p q : Pid} {i f : Nat} {strict : Bool} {w : Own}

/-! ## Pointers that change hands -/

/-- A pointer to inode `i` goes from process `p` to file `f`, which only `p` has, or back. -/
structure Hands (p : Pid) (i f : Nat) (s s' : State) : Prop where
  icache : s'.icache = s.icache
  procs : s'.procs = s.procs
  trans : s'.store.log.busy = s.store.log.busy
  holders : ∀ j, j ≠ i → s'.holders j = s.holders j
  moved : ∃ h h', h ∈ s.holders i ∧ s'.holders i = h' :: (s.holders i).erase h ∧
    (h = .temp p ∨ h = .file f) ∧ (h' = .temp p ∨ h' = .file f)
  ftable : ∀ j, j ≠ f → s'.ftable j = s.ftable j
  fholders : ∀ j, j ≠ f → s'.fholders j = s.fholders j
  file : ∀ j, (s'.holders j).count (.file f) = if (s'.ftable f).type = .inode ∧ (s'.ftable f).ip = j then 1 else 0
  ref : (s'.ftable f).ref = (s'.fholders f).length
  free : (s'.ftable f).ref = 0 → (s'.ftable f).type = .none
  frange : NFILE ≤ f → (s'.ftable f).ref = 0
  mine : ∀ x, x ∈ s.fholders f → x.pid = p
  mine' : ∀ x, x ∈ s'.fholders f → x.pid = p
  pins : ∀ j, (s.icache j).busy = some p → .temp p ∈ s'.holders j

lemma Hands.count (h : Hands p i f s s') {x : Holder} (hp : x ≠ .temp p) (hf : x ≠ .file f) (j : Nat) :
    (s'.holders j).count x = (s.holders j).count x := by
  by_cases hj : j = i
  · obtain ⟨y, y', -, he, hy, hy'⟩ := h.moved
    have hne : x ≠ y := by grind
    have hne' : y' ≠ x := by grind
    rw [hj, he, count_cons_of_ne hne', count_erase_of_ne hne]
  · rw [h.holders j hj]

lemma Hands.good (h : Hands p i f s s') (hi : Inv s) : Good p s s' := by
  have hother : ∀ {q : Pid} {x : Option Nat} {j : Nat}, q ≠ p → ⟨q, x⟩ ∈ s.fholders j → j ≠ f := by
    rintro q x j hq hm rfl
    exact hq (h.mine _ hm)
  refine ⟨⟨fun j => ?_, fun j g => ?_, fun j q hb => ?_, fun j => ?_, fun j => ?_, fun j => ?_, ?_⟩,
    fun q hq => .inl ⟨by rw [h.procs], h.count (by simpa using hq) (by simp), h.count (by simp) (by simp),
      fun j => by rw [h.icache],
      fun j _ => by rw [h.icache]; exact ⟨rfl, rfl⟩, fun j x => ?_, fun j x hm => ?_, fun j x ha => ?_,
        by rw [h.trans]⟩⟩
  · rw [h.icache]
    by_cases hj : j = i
    · obtain ⟨y, y', hm, he, -⟩ := h.moved
      have := length_pos_of_mem hm
      rw [hj, he, length_cons, length_erase_of_mem hm, hi.ref i]
      omega
    · rw [h.holders j hj]
      exact hi.ref j
  · by_cases hg : g = f
    · rw [hg]
      exact h.file j
    · rw [h.ftable g hg, h.count (by simp) (by simpa using hg)]
      exact hi.file j g
  · rw [h.icache] at hb
    by_cases hq : q = p
    · rw [hq] at hb ⊢
      exact ⟨.temp p, h.pins j hb, rfl⟩
    obtain ⟨x, hx, hp⟩ := hi.pin j q hb
    rw [← count_pos_iff] at hx
    cases x with
    | temp r =>
      obtain rfl : r = q := hp
      refine ⟨.temp r, ?_, rfl⟩
      rw [← count_pos_iff, h.count (by simpa using hq) (by simp)]
      exact hx
    | cwd r =>
      refine ⟨.cwd r, ?_, hp⟩
      rw [← count_pos_iff, h.count (by simp) (by simp)]
      exact hx
    | file g =>
      obtain ⟨fd, hfd⟩ := hp
      have hg := hother hq hfd
      refine ⟨.file g, ?_, fd, ?_⟩
      · rw [← count_pos_iff, h.count (by simp) (by simpa using hg)]
        exact hx
      · rw [h.fholders g hg]
        exact hfd
  · have hold := hi.fref j
    grind [Hands]
  · have hold := hi.ftype j
    grind [Hands]
  · have hold := hi.frange j
    grind [Hands]
  · rw [h.procs]
    exact hi.fdrange
  · by_cases hj : j = f
    · rw [hj, count_eq_zero.mpr fun hm => hq (h.mine' _ hm), count_eq_zero.mpr fun hm => hq (h.mine _ hm)]
    · rw [h.fholders j hj]
  · rw [h.ftable j (hother hq hm)]
    exact ⟨rfl, rfl⟩
  · rw [h.fholders j (hother (x := x) hq (by simp [ha]))]
    exact ha

lemma Hands.has {temps : List Nat} {tmp gone fresh : Option Nat} {files : List (Nat × Nat)} (h : Hands p i f s s')
    (hs : Has p w s) (htemps : ∀ j, (s'.holders j).count (.temp p) = temps.count j)
    (hf : HasFiles p tmp gone fresh files s') : Has p { w with temps, tmp, gone, fresh, files } s' where
  run := by
    rw [h.procs]
    exact hs.run
  temps := htemps
  cwds j := by
    rw [h.count (by simp) (by simp), h.procs]
    exact hs.cwds j
  locks j := by
    rw [h.icache]
    exact hs.locks j
  nodup := hs.nodup
  valid j hm hl := by
    rw [h.icache]
    exact hs.valid j hm hl
  tmp := hf.tmp
  fds := hf.fds
  fresh := hf.fresh
  files := hf.files
  trans := by
    rw [h.trans]
    exact hs.trans

lemma wp_setFile {readable writable : Bool} (hs : Has p { w with temps := [i], locks := [], fresh := some f } s)
    (hfiles : w.files = []) :
    Spec strict p (act (.setFile f i readable writable))
      (fun _ => Has p { w with temps := [], locks := [], fresh := none }) s := by
  refine wp_step (fun _ _ he h => h.env he) (fun _ _ => trivial) (fun s r s' hi _ hk he => ?_) hs
  cases he
  obtain ⟨hnone, x, hx⟩ := hk.fresh f rfl
  have hmem : .temp p ∈ s.holders i := hk.temp_mem (by simp)
  have h0 : ∀ j, (s.holders j).count (.file f) = 0 := fun j => by rw [hi.file, hnone, if_neg nofun]
  have href : (s.ftable f).ref = 1 := by rw [hi.fref, hx]; rfl
  generalize hff : ({ s.ftable f with type := .inode, ip := i, off := 0, readable, writable } : File) = ff
  have hft : (s.ftable.set f ff) f = ff := get_set_self _ _ _
  have hty : ff.type = .inode ∧ ff.ip = i ∧ ff.ref = (s.ftable f).ref := by
    rw [← hff]
    exact ⟨rfl, rfl, rfl⟩
  have hhi : (moveHolder i (.temp p) (.file f) { s with ftable := s.ftable.set f ff }).holders i =
    .file f :: (s.holders i).erase (.temp p) := get_set_self _ _ _
  have hhne : ∀ j, j ≠ i → (moveHolder i (.temp p) (.file f) { s with ftable := s.ftable.set f ff }).holders j =
    s.holders j := fun j hj => get_set_ne _ _ hj
  have hstep : Hands p i f s (moveHolder i (.temp p) (.file f) { s with ftable := s.ftable.set f ff }) := by
    refine ⟨rfl, rfl, rfl, hhne, ⟨_, _, hmem, hhi, .inl rfl, .inr rfl⟩, fun j hj => get_set_ne _ _ hj,
      fun _ _ => rfl, fun j => ?_, ?_, fun h => ?_, fun h => ?_, ?_, ?_, fun j hb => absurd ((hk.locks j).mp hb) nofun⟩
    · show _ = if ((s.ftable.set f ff) f).type = .inode ∧ ((s.ftable.set f ff) f).ip = j then 1 else 0
      rw [hft, hty.1, hty.2.1]
      by_cases hj : j = i
      · rw [hj, hhi, count_cons_self, count_erase_of_ne (by simp), h0]
        simp
      · rw [hhne j hj, h0]
        simp [Ne.symm hj]
    · show ((s.ftable.set f ff) f).ref = (s.fholders f).length
      rw [hft, hty.2.2]
      exact hi.fref f
    · change ((s.ftable.set f ff) f).ref = 0 at h
      rw [hft, hty.2.2] at h
      omega
    · have := hi.frange f h
      omega
    · rw [hx]
      simp
    · show ∀ y, y ∈ s.fholders f → y.pid = p
      rw [hx]
      simp
  refine ⟨hstep.good hi, hstep.has hk (fun j => ?_) ⟨hk.tmp, hk.fds, nofun, by simp [hfiles]⟩⟩
  by_cases hj : j = i
  · rw [hj, hhi, count_cons_of_ne (by simp), count_erase_self, hk.temps]
    simp
  · rw [hhne j hj, hk.temps]
    simp [Ne.symm hj]

lemma close_hands {fd : Option Nat} (hi : Inv s) (hk : Has p w s) (hfirm : Firm w) (h : HasFile p w f s fd)
    (hlast : (s.ftable f).ref = 1) (htype : (s.ftable f).type = .inode) :
    Hands p (s.ftable f).ip f s (moveHolder (s.ftable f).ip (.file f) (.temp p) { s with
      fholders := s.fholders.set f ((s.fholders f).erase ⟨p, fd⟩)
      ftable := s.ftable.set f { s.ftable f with ref := 0, type := .none } }) := by
  have hmem := h.mem hk
  have hone : s.fholders f = [⟨p, fd⟩] := by
    have := hi.fref f
    obtain ⟨y, hy⟩ := length_eq_one_iff.mp (show (s.fholders f).length = 1 by omega)
    rw [hy, mem_singleton] at hmem
    rw [hy, ← hmem]
  have hfile : (s.holders (s.ftable f).ip).count (.file f) = 1 := by rw [hi.file, if_pos ⟨htype, rfl⟩]
  have hin : .file f ∈ s.holders (s.ftable f).ip := count_pos_iff.mp (by omega)
  have hft : (s.ftable.set f { s.ftable f with ref := 0, type := .none }) f =
    { s.ftable f with ref := 0, type := .none } := get_set_self _ _ _
  have hfh : (s.fholders.set f ((s.fholders f).erase ⟨p, fd⟩)) f = [] := by
    rw [get_set_self, hone]
    simp
  have hhi : (s.holders.set (s.ftable f).ip (.temp p :: (s.holders (s.ftable f).ip).erase (.file f))) (s.ftable f).ip =
    .temp p :: (s.holders (s.ftable f).ip).erase (.file f) := get_set_self _ _ _
  refine ⟨rfl, rfl, rfl, fun j hj => get_set_ne _ _ hj, ⟨_, _, hin, hhi, .inr rfl, .inl rfl⟩,
    fun j hj => get_set_ne _ _ hj, fun j hj => get_set_ne _ _ hj, fun j => ?_, ?_, fun _ => ?_, fun _ => ?_,
    ?_, ?_, fun j hb => ?_⟩
  · refine Eq.trans ?_ (if_neg fun hh => absurd hh.1 ?_).symm
    · show ((s.holders.set (s.ftable f).ip (.temp p :: (s.holders (s.ftable f).ip).erase (.file f))) j).count _ = 0
      rw [get_set]
      split
      · rw [count_cons_of_ne (by simp), count_erase_self, hfile]
      · rename_i hj
        rw [hi.file, if_neg fun hh => hj hh.2.symm]
    · show ((s.ftable.set f { s.ftable f with ref := 0, type := .none }) f).type ≠ .inode
      rw [hft]
      nofun
  · show ((s.ftable.set f { s.ftable f with ref := 0, type := .none }) f).ref =
      ((s.fholders.set f ((s.fholders f).erase ⟨p, fd⟩)) f).length
    rw [hft, hfh]
    rfl
  · show ((s.ftable.set f { s.ftable f with ref := 0, type := .none }) f).type = .none
    rw [hft]
  · show ((s.ftable.set f { s.ftable f with ref := 0, type := .none }) f).ref = 0
    rw [hft]
  · rw [hone]
    simp
  · show ∀ x, x ∈ (s.fholders.set f ((s.fholders f).erase ⟨p, fd⟩)) f → x.pid = p
    rw [hfh]
    nofun
  · show .temp p ∈ (s.holders.set (s.ftable f).ip (.temp p :: (s.holders (s.ftable f).ip).erase (.file f))) j
    rw [get_set]
    split
    · exact mem_cons_self
    · exact hk.firm_pin hfirm hb

lemma wp_fileDrop {fd : Option Nat} (hs : Has p w s) (hfirm : Firm w) (hfile : HasFile p w f s fd)
    (hfiles : w.files = []) :
    Spec strict p (act (.fileDrop f fd)) (fun r s =>
      (∀ ff, r = some ff → ff.type = .inode → Has p { w.closed fd with temps := ff.ip :: w.temps } s) ∧
      ((∀ ff, r = some ff → ff.type ≠ .inode) → Has p (w.closed fd) s)) s := by
  refine wp_step (S := fun s => Has p w s ∧ HasFile p w f s fd)
    (fun _ _ he h => ⟨h.1.env he, h.2.env (he.same h.1.run)⟩) (fun _ _ => trivial)
    (fun s r s' hi _ hk he => ?_) ⟨hs, hfile⟩
  obtain ⟨hk, hfile⟩ := hk
  rw [exec, fileDrop] at he
  split at he
  · cases he
  rename_i hpos
  split at he
  · rename_i hmore
    cases he
    have hstep := drop_step { s.ftable f with ref := (s.ftable f).ref - 1 } hi hk hfirm hfile rfl rfl rfl
      fun h => absurd hmore (by rw [show (s.ftable f).ref - 1 = 0 from h]; exact Nat.lt_irrefl 0)
    exact ⟨hstep.good hi, by simp, fun _ => drop_has hstep hk hfile rfl rfl hfiles⟩
  rename_i hlast
  have hlast : (s.ftable f).ref = 1 := by omega
  split at he
  · rename_i htype
    cases he
    have hstep := close_hands hi hk hfirm hfile hlast htype
    refine ⟨hstep.good hi, ?_, fun h => absurd htype (h _ rfl)⟩
    rintro _ ⟨⟩ -
    have hfile' : (s.holders (s.ftable f).ip).count (.file f) = 1 := by rw [hi.file, if_pos ⟨htype, rfl⟩]
    have htemps : ∀ j,
        ((s.holders.set (s.ftable f).ip (.temp p :: (s.holders (s.ftable f).ip).erase (.file f))) j).count
        (.temp p) = ((s.ftable f).ip :: w.temps).count j := by
      intro j
      rw [get_set]
      split
      · rename_i hj
        rw [hj, count_cons_self, count_cons_self, count_erase_of_ne (by simp), hk.temps]
      · rename_i hj
        rw [hk.temps, count_cons_of_ne (Ne.symm hj)]
    have hh := hstep.has hk htemps (closed_files hk hfile hfiles rfl rfl)
    cases fd <;> exact hh
  · rename_i htype
    cases he
    have hnone : (s.ftable f).type = .none := by
      cases hty : (s.ftable f).type with
      | none => rfl
      | inode => exact absurd hty htype
    have hstep := drop_step { s.ftable f with ref := 0, type := .none } hi hk hfirm hfile
      (by show 0 = _; omega) hnone.symm rfl fun _ => rfl
    refine ⟨hstep.good hi, ?_, fun _ => drop_has hstep hk hfile rfl rfl hfiles⟩
    rintro _ ⟨⟩ h
    exact absurd h htype

lemma wp_setCwd (hs : Has p { temps := [i], cwd := false } s) :
    Spec strict p (act (.setCwd i)) (fun _ => Has p {}) s := by
  refine wp_step (fun _ _ he h => h.env he) (fun _ _ => trivial) (fun s r s' hi _ hk he => ?_) hs
  cases he
  have hmem : .temp p ∈ s.holders i := hk.temp_mem (by simp)
  have hproc : ∀ q, (s.procs.set p { s.procs p with cwd := i }) q =
    if q = p then { s.procs p with cwd := i } else s.procs q := get_set _ _ _
  have hh : ∀ j, (s.holders.set i (.cwd p :: (s.holders i).erase (.temp p))) j =
    if j = i then .cwd p :: (s.holders i).erase (.temp p) else s.holders j := get_set _ _ _
  have hcount : ∀ j x, x ≠ .cwd p → x ≠ .temp p →
      ((s.holders.set i (.cwd p :: (s.holders i).erase (.temp p))) j).count x = (s.holders j).count x := by
    intro j x h1 h2
    rw [hh]
    grind
  have hfree : ∀ j, (s.icache j).busy ≠ some p := fun j hb => absurd ((hk.locks j).mp hb) nofun
  refine ⟨⟨⟨fun j => ?_, fun j g => ?_, fun j q hb => ?_, hi.fref, hi.ftype, hi.frange, fun q fd hfd => ?_⟩,
    fun q hq => .inl ⟨?_, fun j => hcount j _ nofun (by simpa using hq), fun j => hcount j _ (by simpa using hq) nofun,
      fun _ => .rfl, fun _ _ => ⟨rfl, rfl⟩, fun _ _ => rfl, fun _ _ _ => ⟨rfl, rfl⟩, fun _ _ h => h, .rfl⟩⟩, ?_⟩
  · show (s.icache j).ref = ((s.holders.set i (.cwd p :: (s.holders i).erase (.temp p))) j).length
    rw [hh, hi.ref]
    grind
  · show ((s.holders.set i (.cwd p :: (s.holders i).erase (.temp p))) j).count _ = _
    rw [hcount j _ (by simp) (by simp)]
    exact hi.file j g
  · -- what pins an inode that another process has locked is not what moves
    have hq : q ≠ p := fun h => hfree j (h ▸ hb)
    obtain ⟨x, hx, hp⟩ := hi.pin j q hb
    refine ⟨x, ?_, hp⟩
    rw [← count_pos_iff] at hx ⊢
    show 0 < ((s.holders.set i (.cwd p :: (s.holders i).erase (.temp p))) j).count x
    rw [hcount j x (fun h => hq (by subst h; exact Eq.symm hp)) fun h => hq (by subst h; exact Eq.symm hp)]
    exact hx
  · show ((s.procs.set p { s.procs p with cwd := i }) q).ofile fd = none
    have hold := fun q => hi.fdrange q fd hfd
    rw [hproc]
    grind
  · exact get_set_ne _ _ hq
  · have hpp : (s.procs.set p { s.procs p with cwd := i }) p = { s.procs p with cwd := i } := get_set_self _ _ _
    refine ⟨?_, fun j => ?_, fun j => ?_, hk.locks, hk.nodup, hk.valid, hk.tmp, fun g fd => ?_, nofun, nofun, hk.trans⟩
    · show ((s.procs.set p { s.procs p with cwd := i }) p).state = .runnable
      rw [hpp]
      exact hk.run
    · show ((s.holders.set i (.cwd p :: (s.holders i).erase (.temp p))) j).count _ = _
      have hold := hk.temps j
      rw [hh]
      grind
    · show ((s.holders.set i (.cwd p :: (s.holders i).erase (.temp p))) j).count _ =
        if true = true ∧ ((s.procs.set p { s.procs p with cwd := i }) p).cwd = j then 1 else 0
      have hold := hk.cwds j
      rw [hh, hpp]
      grind
    · show (s.fholders g).count _ =
        if ((s.procs.set p { s.procs p with cwd := i }) p).ofile fd = some g ∧
          (none : Option Nat) ≠ some fd then 1 else 0
      rw [hpp]
      exact hk.fds g fd

/-! ## Transactions and actions that concern nobody -/

/-- A change that has nothing to do with pointers and locks, except perhaps of the transaction. -/
structure Quiet (s s' : State) : Prop where
  icache : s'.icache = s.icache
  holders : s'.holders = s.holders
  ftable : s'.ftable = s.ftable
  fholders : s'.fholders = s.fholders
  procs : s'.procs = s.procs

lemma Quiet.good (h : Quiet s s') (hi : Inv s)
    (htrans : ∀ q, q ≠ p → (s'.store.log.busy = some q ↔ s.store.log.busy = some q)) : Good p s s' := by
  have hpins : ∀ q x, Pins s q x → Pins s' q x := fun q x hx => by
    cases x with
    | temp r => exact hx
    | cwd r => exact hx
    | file f =>
      obtain ⟨fd, hfd⟩ := hx
      exact ⟨fd, h.fholders ▸ hfd⟩
  refine ⟨⟨?_, ?_, fun j q hb => ?_, ?_, ?_, ?_, ?_⟩, fun q hq => .inl ⟨by rw [h.procs], fun j => by rw [h.holders],
    fun j => by rw [h.holders], fun j => by rw [h.icache], fun j _ => by rw [h.icache]; exact ⟨rfl, rfl⟩,
    fun j x => by rw [h.fholders], fun j x _ => by rw [h.ftable]; exact ⟨rfl, rfl⟩,
    fun j x ha => by rw [h.fholders]; exact ha, htrans q hq⟩⟩
  · rw [h.icache, h.holders]
    exact hi.ref
  · rw [h.holders, h.ftable]
    exact hi.file
  · rw [h.icache] at hb
    obtain ⟨x, hx, hp⟩ := hi.pin j q hb
    exact ⟨x, h.holders ▸ hx, hpins q x hp⟩
  · rw [h.ftable, h.fholders]
    exact hi.fref
  · rw [h.ftable]
    exact hi.ftype
  · rw [h.ftable]
    exact hi.frange
  · rw [h.procs]
    exact hi.fdrange

lemma Quiet.has {trans : Bool} (h : Quiet s s') (hs : Has p w s) (htrans : s'.store.log.busy = some p ↔ trans = true) :
    Has p { w with trans } s' where
  run := h.procs ▸ hs.run
  temps := h.holders ▸ hs.temps
  cwds := by
    rw [h.holders, h.procs]
    exact hs.cwds
  locks := h.icache ▸ hs.locks
  nodup := hs.nodup
  valid := h.icache ▸ hs.valid
  tmp := h.fholders ▸ hs.tmp
  fds := by
    rw [h.fholders, h.procs]
    exact hs.fds
  fresh := by
    rw [h.fholders, h.ftable]
    exact hs.fresh
  files := by
    rw [h.fholders, h.ftable]
    exact hs.files
  trans := htrans

lemma Quiet.refl (s : State) : Quiet s s := ⟨rfl, rfl, rfl, rfl, rfl⟩

lemma wp_quiet {a : Act} {U : a.Res → State → Prop} (hpre : ∀ s, Has p w s → Needs strict p a s)
    (ha : ∀ s r s', exec p a s = .next r s' → Quiet s s' ∧ s'.store.log.busy = s.store.log.busy)
    (hU : ∀ s r s', exec p a s = .next r s' → Has p w s → U r s') (hs : Has p w s) :
    Spec strict p (act a) (fun r s => Has p w s ∧ U r s) s := by
  refine wp_step (fun _ _ he h => h.env he) hpre (fun s r s' hi _ hk he => ?_) hs
  obtain ⟨hq, ht⟩ := ha s r s' he
  refine ⟨hq.good hi fun q _ => by rw [ht], ?_, hU s r s' he hk⟩
  exact hq.has hk (by rw [ht]; exact hk.trans)

lemma wp_still {a : Act} (hpre : ∀ s, Has p w s → Needs strict p a s)
    (ha : ∀ s r s', exec p a s = .next r s' → Quiet s s' ∧ s'.store.log.busy = s.store.log.busy) (hs : Has p w s) :
    Spec strict p (act a) (fun _ => Has p w) s :=
  wp_mono (wp_quiet (U := fun _ _ => True) hpre ha (fun _ _ _ _ _ => trivial) hs) fun _ _ h => h.1

lemma wp_beginTrans (hs : Has p w s) :
    Spec strict p beginTrans (fun _ => Has p { w with trans := true }) s := by
  refine wp_step (fun _ _ he h => h.env he) (fun _ _ => trivial) (fun s r s' hi _ hk he => ?_) hs
  rw [exec] at he
  split at he
  · rename_i hfree
    cases he
    have hq : Quiet s { s with store := { s.store with log := { s.store.log with busy := some p } } } :=
      ⟨rfl, rfl, rfl, rfl, rfl⟩
    refine ⟨hq.good hi fun q hqp => ?_, hq.has hk (by simp)⟩
    rw [hfree]
    simp [Ne.symm hqp]
  · cases he

lemma wp_commitTrans (hs : Has p w s) (ht : w.trans = true) :
    Spec strict p commitTrans (fun _ => Has p { w with trans := false }) s := by
  refine wp_step (fun _ _ he h => h.env he) (fun s h => h.trans.mpr ht) (fun s r s' hi _ hk he => ?_) hs
  cases he
  have hown := hk.trans.mpr ht
  have hq : Quiet s { s with store := { s.store with log := { s.store.log with busy := none, sectors := [] } } } :=
    ⟨rfl, rfl, rfl, rfl, rfl⟩
  refine ⟨hq.good hi fun q hqp => ?_, hq.has hk (by simp)⟩
  rw [hown]
  simp [Ne.symm hqp]

lemma wp_panic {α : Type} [Inhabited α] (e : Panic) {U : α → State → Prop} :
    Spec strict p (panic e) U s := by
  refine wp_seq (Q := fun _ _ => False) ?_ (fun _ _ h => h.elim)
  exact wp_step (S := fun _ => True) (fun _ _ _ _ => trivial) (fun _ _ => trivial)
    (fun _ _ _ _ _ _ he => (by cases he)) trivial

lemma onStore_quiet {α : Type} {m : FsM α} (hm : Logs m) {r : α} (he : onStore p m s = .next r s') :
    Quiet s s' ∧ s'.store.log.busy = s.store.log.busy := by
  unfold onStore at he
  split at he
  · rename_i a st hst
    have hlog := ((hm _).of_ok _ _ hst).busy
    cases he
    exact ⟨⟨rfl, rfl, rfl, rfl, rfl⟩, hlog⟩
  · cases he

lemma wp_readsb (hs : Has p w s) : Spec strict p (act .readsb) (fun _ => Has p w) s :=
  wp_still (fun _ _ => trivial) (fun _ _ _ he => onStore_quiet Logs.readsb he) hs

lemma wp_iallocTry (i : Nat) (type : UInt16) (hs : Has p w s) (ht : w.trans = true) :
    Spec strict p (act (.iallocTry i type)) (fun _ => Has p w) s := by
  refine wp_still (fun s h => h.trans.mpr ht) (fun s r s' he => ?_) hs
  rw [exec] at he
  split at he
  · rename_i s₁ h1
    obtain ⟨hq, hlog⟩ := onStore_quiet (Logs.iallocTry i type) h1
    cases he
    exact ⟨⟨hq.icache, hq.holders, hq.ftable, hq.fholders, hq.procs⟩, hlog⟩
  · exact onStore_quiet (Logs.iallocTry i type) he

lemma wp_look {a : Act} {U : a.Res → State → Prop} (hpre : ∀ s, Has p w s → Needs strict p a s)
    (ha : ∀ s r s', exec p a s = .next r s' → s' = s) (hU : ∀ s r s', exec p a s = .next r s' → Has p w s → U r s)
    (hs : Has p w s) : Spec strict p (act a) (fun r s => Has p w s ∧ U r s) s := by
  refine wp_quiet hpre (fun s r s' he => ?_) (fun s r s' he hk => ?_) hs
  · rw [ha s r s' he]
    exact ⟨.refl s, rfl⟩
  · rw [ha s r s' he]
    exact hU s r s' he hk

lemma wp_inode (hs : Has p w s) (hl : i ∈ w.locks) (hload : w.loading = none) :
    Spec strict p (act (.inode i)) (fun _ => Has p w) s :=
  wp_still (fun s h => h.locked hl hload) (fun _ _ _ he => (by cases he; exact ⟨.refl _, rfl⟩)) hs

lemma wp_cwd (hs : Has p w s) :
    Spec strict p (act .cwd) (fun i s => Has p w s ∧ (s.procs p).cwd = i) s :=
  wp_look (fun _ _ => trivial) (fun _ _ _ he => (by cases he; rfl)) (fun _ _ _ he _ => (by cases he; rfl)) hs

lemma wp_proc (hs : Has p w s) : Spec strict p (act .proc) (fun _ => Has p w) s :=
  wp_still (fun _ _ => trivial) (fun _ _ _ he => (by cases he; exact ⟨.refl _, rfl⟩)) hs

lemma wp_argfd (fd : Int) (hs : Has p w s) :
    Spec strict p (act (.argfd fd)) (fun r s => Has p w s ∧ ∀ f, r = some f →
      (s.procs p).ofile fd.toNat = some f) s := by
  refine wp_look (fun _ _ => trivial) (fun _ _ _ he => (by cases he; rfl)) (fun s r s' he _ f hf => ?_) hs
  cases he
  split at hf
  · cases hf
  · exact hf

lemma wp_noteParent (i d : Nat) (hs : Has p w s) :
    Spec strict p (act (.noteParent i d)) (fun _ => Has p w) s :=
  wp_still (fun _ _ => trivial) (fun _ _ _ he => (by cases he; exact ⟨⟨rfl, rfl, rfl, rfl, rfl⟩, rfl⟩)) hs

lemma wp_file {fd : Nat} (hs : Has p w s) (ho : (s.procs p).ofile fd = some f) (hg : w.gone = none) :
    Spec strict p (act (.file f)) (fun ff s =>
      Has p w s ∧ (ff.type = .inode → w.files = [] → Has p { w with files := [(f, ff.ip)] } s)) s := by
  refine wp_slot (K := fun q => q.ofile fd = some f) (fun _ => trivial) (fun s r s' hi hk ho he => ?_) hs ho
  cases he
  refine ⟨.refl hi, hk, fun htype hfiles => ?_⟩
  refine { hk with files := fun g i hm => ?_ }
  obtain ⟨rfl, rfl⟩ : g = f ∧ i = (s.ftable f).ip := by simpa using hm
  exact ⟨⟨_, hk.fd_mem ho (by simp [hg])⟩, htype, rfl⟩

lemma wp_file_again (hs : Has p w s) : Spec strict p (act (.file f)) (fun _ => Has p w) s :=
  wp_still (fun _ _ => trivial) (fun _ _ _ he => (by cases he; exact ⟨.refl _, rfl⟩)) hs

end Xv6.Fs.Refs
