import Xv6.Proofs.HolderCalls

/-! # Pointers of processes that come and go -/

namespace Xv6.Fs.Refs

open Threads List Table

variable {s s' : State} {p q np : Pid} {i f : Nat} {strict : Bool} {w : Own}

structure Forked (p np : Pid) (n : Nat) (s s' : State) : Prop where
  icache : s'.icache = s.icache
  holders : s'.holders = s.holders
  store : s'.store = s.store
  procs : ∀ q, q ≠ np → s'.procs q = s.procs q
  state : (s'.procs np).state = (s.procs np).state
  cwd : (s'.procs np).cwd = (s.procs np).cwd
  ofile : ∀ fd, (s'.procs np).ofile fd =
    if fd < n ∧ (s.procs p).ofile fd ≠ none then (s.procs p).ofile fd else (s.procs np).ofile fd
  same : ∀ f, (s'.ftable f).type = (s.ftable f).type ∧ (s'.ftable f).ip = (s.ftable f).ip
  ref : ∀ f, (s'.ftable f).ref + (s.fholders f).length = (s.ftable f).ref + (s'.fholders f).length
  others : ∀ f q x, q ≠ np → (s'.fholders f).count ⟨q, x⟩ = (s.fholders f).count ⟨q, x⟩
  tmp : ∀ f, (s'.fholders f).count ⟨np, none⟩ = (s.fholders f).count ⟨np, none⟩
  fds : ∀ f fd, (s'.fholders f).count ⟨np, some fd⟩ =
    (s.fholders f).count ⟨np, some fd⟩ + if fd < n ∧ (s.procs p).ofile fd = some f then 1 else 0
  rest : ∀ f, (∀ fd, fd < n → (s.procs p).ofile fd ≠ some f) →
    s'.fholders f = s.fholders f ∧ s'.ftable f = s.ftable f
  grows : ∀ f x, x ∈ s.fholders f → x ∈ s'.fholders f

lemma forkFiles_forked (hne : p ≠ np) (n : Nat) : Forked p np n s (forkFiles p np s n) := by
  induction n with
  | zero =>
    exact ⟨rfl, rfl, rfl, fun _ _ => rfl, rfl, rfl, fun fd => by simp [forkFiles], fun _ => ⟨rfl, rfl⟩, fun _ => rfl,
      fun _ _ _ _ => rfl, fun _ => rfl, fun f fd => by simp [forkFiles], fun _ _ => ⟨rfl, rfl⟩, fun _ _ h => h⟩
  | succ n ih =>
    show Forked p np (n + 1) s (forkFile p np n (forkFiles p np s n))
    generalize forkFiles p np s n = t at ih ⊢
    have hp : t.procs p = s.procs p := ih.procs p hne
    unfold forkFile
    rw [hp]
    cases ho : (s.procs p).ofile n with
    | none =>
      have hiff : ∀ fd (f : Nat),
          (fd < n + 1 ∧ (s.procs p).ofile fd = some f ↔ fd < n ∧ (s.procs p).ofile fd = some f) := by
        intro fd f
        by_cases hfd : fd = n
        · simp [hfd, ho]
        · have : fd < n + 1 ↔ fd < n := by omega
          rw [this]
      refine { ih with
        ofile := fun fd => ?_
        fds := fun f fd => ?_
        rest := fun f h => ih.rest f fun fd hfd => h fd (by omega) }
      · rw [ih.ofile]
        by_cases hfd : fd = n
        · simp [hfd, ho]
        · have : fd < n + 1 ↔ fd < n := by omega
          simp only [this]
      · rw [ih.fds]
        simp only [hiff]
    | some g =>
      have hfh : ∀ f, ((filedup g ⟨np, some n⟩ t).fholders f) =
          if f = g then ⟨np, some n⟩ :: t.fholders g else t.fholders f :=
        fun f => get_set _ _ _ _
      have hft : ∀ f, ((filedup g ⟨np, some n⟩ t).ftable f) =
        if f = g then { t.ftable g with ref := (t.ftable g).ref + 1 } else t.ftable f := fun f => get_set _ _ _ _
      have hproc := fun q => setOfile_proc np q n (some g) (filedup g ⟨np, some n⟩ t)
      have hof := fun fd => setOfile_ofile np n fd (some g) (filedup g ⟨np, some n⟩ t)
      obtain ⟨hicache, hholders, hstore, hprocs, hstate, hcwd, hofile, hsame, href, hothers, htmp, hfds, hrest,
        hgrows⟩ := ih
      refine ⟨hicache, hholders, hstore, fun q hq => ?_, ?_, ?_, fun fd => ?_, fun f => ?_, fun f => ?_,
        fun f q x hq => ?_, fun f => ?_, fun f fd => ?_, fun f h => ?_, fun f x hx => ?_⟩
      · rw [hproc, if_neg hq]
        exact hprocs q hq
      · rw [hproc, if_pos rfl]
        exact hstate
      · rw [hproc, if_pos rfl]
        exact hcwd
      · rw [hof]
        show (if fd = n then some g else (t.procs np).ofile fd) = _
        grind
      · show ((filedup g ⟨np, some n⟩ t).ftable f).type = _ ∧ ((filedup g ⟨np, some n⟩ t).ftable f).ip = _
        grind
      · show ((filedup g ⟨np, some n⟩ t).ftable f).ref + _ = _ + ((filedup g ⟨np, some n⟩ t).fholders f).length
        grind
      · show ((filedup g ⟨np, some n⟩ t).fholders f).count _ = _
        grind
      · show ((filedup g ⟨np, some n⟩ t).fholders f).count _ = _
        grind
      · show ((filedup g ⟨np, some n⟩ t).fholders f).count _ = _
        grind
      · show (filedup g ⟨np, some n⟩ t).fholders f = _ ∧ (filedup g ⟨np, some n⟩ t).ftable f = _
        grind
      · show x ∈ (filedup g ⟨np, some n⟩ t).fholders f
        grind

/-- The process table when `fork` has made `np` a process with the current directory of `p`. -/
def started (p np : Pid) (s : State) : State :=
  { s with procs := s.procs.set np { s.procs np with state := .runnable, cwd := (s.procs p).cwd } }

lemma started_procs (p np q : Pid) (s : State) : (started p np s).procs q =
    if q = np then { s.procs np with state := .runnable, cwd := (s.procs p).cwd } else s.procs q :=
  get_set _ _ _ _

section Fork

variable {t : State} (hne : p ≠ np) (h : Forked p np NOFILE (started p np s) t)
include hne h

lemma forked_ofile (fd : Nat) : (t.procs np).ofile fd =
    if fd < NOFILE ∧ (s.procs p).ofile fd ≠ none then (s.procs p).ofile fd else (s.procs np).ofile fd := by
  rw [h.ofile, started_procs, started_procs, if_neg hne, if_pos rfl]

lemma forked_home (hrun : (s.procs np).state ≠ .runnable) (hh : Home np s) :
    Home np (idup (.cwd np) (s.procs p).cwd t) := by
  have hstate : (t.procs np).state = .runnable := by rw [h.state, started_procs, if_pos rfl]
  have hcwd : (t.procs np).cwd = (s.procs p).cwd := by rw [h.cwd, started_procs, if_pos rfl]
  have hhold : ∀ i, (idup (.cwd np) (s.procs p).cwd t).holders i =
      if i = (s.procs p).cwd then .cwd np :: s.holders (s.procs p).cwd else s.holders i := by
    intro i
    show (t.holders.set (s.procs p).cwd (.cwd np :: t.holders (s.procs p).cwd)) i = _
    rw [get_set, h.holders]
    rfl
  have hadd := idup_adds (.cwd np) (s.procs p).cwd t
  refine ⟨fun i => ?_, fun i => ?_, fun i hb => ?_, fun f => ?_, fun f fd => ?_, ?_, fun hr => absurd hstate hr⟩
  · rw [hhold]
    have hold := hh.temps
    grind
  · show _ = if (t.procs np).state = .runnable ∧ (t.procs np).cwd = i then 1 else 0
    rw [hhold, hstate, hcwd]
    have hold : ∀ i, (s.holders i).count (.cwd np) = 0 := fun i => by rw [hh.cwds, if_neg fun h => hrun h.1]
    grind
  · have hb' : (s.icache i).busy = some np := by
      by_cases hic : i = (s.procs p).cwd
      · rw [hic] at hb ⊢
        rw [hadd.busy, h.icache] at hb
        exact hb
      · rw [hadd.touches.icache i hic, h.icache] at hb
        exact hb
    exact hh.locks i hb'
  · show (t.fholders f).count _ = 0
    rw [h.tmp]
    exact hh.tmp f
  · show (t.fholders f).count _ = if (t.procs np).ofile fd = some f then 1 else 0
    have hnone := hh.off hrun fd
    have hold : (s.fholders f).count ⟨np, some fd⟩ = 0 := by
      rw [hh.fds, hnone, if_neg nofun]
    rw [h.fds, forked_ofile hne h, hnone]
    show (s.fholders f).count _ + (if fd < NOFILE ∧ ((started p np s).procs p).ofile fd = some f then 1 else 0) = _
    rw [hold, started_procs, if_neg hne, Nat.zero_add]
    grind
  · show t.store.log.busy ≠ some np
    rw [h.store]
    exact hh.trans

lemma forked_inv (hi : Inv s) (hpos : ∀ fd f, fd < NOFILE → (s.procs p).ofile fd = some f → 0 < (s.ftable f).ref) :
    Inv t := by
  have href : ∀ f, (t.ftable f).ref = (t.fholders f).length := fun f => by
    have h1 := h.ref f
    have h2 : (s.ftable f).ref = (s.fholders f).length := hi.fref f
    change (t.ftable f).ref + (s.fholders f).length = (s.ftable f).ref + (t.fholders f).length at h1
    omega
  refine ⟨?_, fun i f => ?_, fun i q hb => ?_, href, fun f h0 => ?_, fun f hf => ?_, fun q fd hfd => ?_⟩
  · rw [h.icache, h.holders]
    exact hi.ref
  · rw [h.holders, (h.same f).1, (h.same f).2]
    exact hi.file i f
  · rw [h.icache] at hb
    obtain ⟨x, hx, hp⟩ := hi.pin i q hb
    refine ⟨x, h.holders ▸ hx, ?_⟩
    cases x with
    | temp r => exact hp
    | cwd r => exact hp
    | file f =>
      obtain ⟨fd, hfd⟩ := hp
      exact ⟨fd, h.grows f _ hfd⟩
  · rw [(h.same f).1]
    refine hi.ftype f ?_
    have h1 := h.ref f
    change (t.ftable f).ref + (s.fholders f).length = (s.ftable f).ref + (t.fholders f).length at h1
    have := href f
    have := hi.fref f
    have hnil : t.fholders f = [] := length_eq_zero_iff.mp (by omega)
    by_contra hne0
    obtain ⟨x, hx⟩ := exists_mem_of_length_pos (l := s.fholders f) (by omega)
    exact absurd (h.grows f x hx) (by simp [hnil])
  · have hrest := h.rest f fun fd hfd ho => by
      rw [started_procs, if_neg hne] at ho
      have := hpos fd f hfd ho
      have := hi.frange f hf
      omega
    rw [hrest.2]
    exact hi.frange f hf
  · by_cases hq : q = np
    · rw [hq, forked_ofile hne h, if_neg (by omega)]
      exact hi.fdrange np fd hfd
    · rw [h.procs q hq, started_procs, if_neg hq]
      exact hi.fdrange q fd hfd

variable (hk : Has p {} s)
include hk

lemma forked_has : Has p {} t := by
  have hproc : t.procs p = s.procs p := by rw [h.procs p hne, started_procs, if_neg hne]
  refine ⟨hproc ▸ hk.run, ?_, ?_, ?_, hk.nodup, nofun, fun f => ?_, fun f fd => ?_, nofun, nofun, ?_⟩
  · rw [h.holders]
    exact hk.temps
  · rw [h.holders, hproc]
    exact hk.cwds
  · rw [h.icache]
    exact hk.locks
  · rw [h.others f p none hne]
    exact hk.tmp f
  · rw [h.others f p (some fd) hne, hproc]
    exact hk.fds f fd
  · rw [h.store]
    exact hk.trans

lemma forked_same (hq : q ≠ p) (hqn : q ≠ np) : Same q s t := by
  refine ⟨by rw [h.procs q hqn, started_procs, if_neg hqn], fun i => by rw [h.holders]; rfl,
    fun i => by rw [h.holders]; rfl, fun i => by rw [h.icache]; rfl, fun i _ => by rw [h.icache]; exact ⟨rfl, rfl⟩,
    fun f x => h.others f q x hqn, fun f _ _ => h.same f, fun f x ha => ?_, by rw [h.store]; rfl⟩
  have hrest := h.rest f fun fd _ ho => by
    rw [started_procs, if_neg hne] at ho
    have hm := hk.fd_mem ho nofun
    rw [ha, mem_singleton] at hm
    exact hq (congrArg FileHolder.pid hm).symm
  rw [hrest.1]
  exact ha

end Fork

lemma wp_fork (np : Pid) (hs : Has p {} s) : Spec strict p (act (.fork np)) (fun _ => Has p {}) s := by
  refine wp_step (fun _ _ he h => h.env he) (fun _ _ => trivial) (fun s r s' hi _ hk he => ?_) hs
  rw [exec] at he
  split at he
  · cases he
    exact ⟨.refl hi, hk⟩
  rename_i hunused
  have hunused : (s.procs np).state = .unused := by simpa using hunused
  have hne : p ≠ np := by
    rintro rfl
    rw [hk.run] at hunused
    cases hunused
  have hrun : (s.procs np).state ≠ .runnable := by simp [hunused]
  split at he
  · cases he
  rename_i hany
  have hpos : ∀ fd f, fd < NOFILE → (s.procs p).ofile fd = some f → 0 < (s.ftable f).ref := by
    intro fd f hfd ho
    by_contra h0
    refine hany (any_eq_true.mpr ⟨fd, mem_range.mpr hfd, ?_⟩)
    rw [ho]
    simp only [Option.any_some, decide_eq_true_eq]
    omega
  have hs' : forkInto p np s = s' := (Outcome.next.inj he).2
  have hf := forkFiles_forked (s := started p np s) hne NOFILE
  have hfork : forkInto p np s = idup (.cwd np) (s.procs p).cwd (forkFiles p np (started p np s) NOFILE) := rfl
  rw [hfork] at hs'
  clear he hfork
  subst hs'
  have hhome := forked_home hne hf hrun
  have hsame := fun {q} => forked_same (q := q) hne hf hk
  have hinv := forked_inv hne hf hi hpos
  have hhas := forked_has hne hf hk
  generalize forkFiles p np (started p np s) NOFILE = t at *
  have hadd := idup_adds (.cwd np) (s.procs p).cwd t
  have hgood : Good np t (idup (.cwd np) (s.procs p).cwd t) := by
    refine good_touch hinv hadd.touches ⟨?_, fun f => ?_, fun q hq => ?_, fun q hq => ?_, fun q _ => by rw [hadd.busy],
      fun q _ hb => hadd.ino (by simp [hb]), fun hb => ?_, fun q _ => by rw [hadd.trans]⟩
    · rw [hadd.ref, hadd.holders, length_cons, hinv.ref]
    · rw [hadd.holders, count_cons_of_ne (by simp)]
    · rw [hadd.holders, count_cons_of_ne (by simp)]
    · rw [hadd.holders, count_cons_of_ne (by simp [Ne.symm hq])]
    · rw [hadd.holders]
      exact ⟨.cwd np, mem_cons_self, rfl⟩
  refine ⟨⟨hgood.1, fun q hq => ?_⟩, hhas.env (hgood.2 p hne)⟩
  by_cases hqn : q = np
  · subst hqn
    exact .inr ⟨hrun, hhome⟩
  · exact Env.trans (.inl (hsame hq hqn)) (hgood.2 q hqn)

lemma good_state (np : Pid) (pr : Proc) (hi : Inv s) (ho : pr.ofile = (s.procs np).ofile) :
    Inv { s with procs := s.procs.set np pr } ∧ ∀ q, q ≠ np → Same q s { s with procs := s.procs.set np pr } := by
  refine ⟨⟨hi.ref, hi.file, hi.pin, hi.fref, hi.ftype, hi.frange, fun q fd hfd => ?_⟩, fun q hq => ?_⟩
  · show ((s.procs.set np pr) q).ofile fd = none
    have hold := fun q => hi.fdrange q fd hfd
    rw [get_set]
    grind
  · exact { Same.refl q s with proc := get_set_ne _ _ hq }

lemma wp_zombie (hs : Has p { cwd := false } s) (hclosed : ClosedBelow p NOFILE s) :
    Spec strict p (act .zombie) (fun _ => Home p) s := by
  refine wp_slot (K := fun q => ∀ fd, fd < NOFILE → q.ofile fd = none) (fun _ => trivial)
    (fun s r s' hi hk hclosed he => ?_) hs hclosed
  cases he
  obtain ⟨hinv, hsame⟩ := good_state p { s.procs p with state := .zombie, cwd := 0 } hi rfl
  have hpp : (s.procs.set p { s.procs p with state := .zombie, cwd := 0 }) p =
    { s.procs p with state := .zombie, cwd := 0 } := get_set_self _ _ _
  have hall : ∀ fd, (s.procs p).ofile fd = none := fun fd => by
    by_cases hfd : fd < NOFILE
    · exact hclosed fd hfd
    · exact hi.fdrange p fd (by omega)
  refine ⟨⟨hinv, fun q hq => .inl (hsame q hq)⟩, hk.temps, fun i => ?_, fun i hb => absurd ((hk.locks i).mp hb) nofun,
    fun f => ?_, fun f fd => ?_, fun ht => absurd (hk.trans.mp ht) nofun, fun _ fd => ?_⟩
  · show _ = if ((s.procs.set p { s.procs p with state := .zombie, cwd := 0 }) p).state = .runnable ∧
      ((s.procs.set p { s.procs p with state := .zombie, cwd := 0 }) p).cwd = i then 1 else 0
    rw [hpp]
    show (s.holders i).count _ = _
    rw [hk.cwds]
    simp
  · show (s.fholders f).count _ = 0
    rw [hk.tmp]
    simp
  · show (s.fholders f).count _ =
      if ((s.procs.set p { s.procs p with state := .zombie, cwd := 0 }) p).ofile fd = some f then 1 else 0
    rw [hpp, hk.fds, hall]
    simp
  · show ((s.procs.set p { s.procs p with state := .zombie, cwd := 0 }) p).ofile fd = none
    rw [hpp]
    exact hall fd

lemma wp_wait (np : Pid) (hs : Has p {} s) : Spec strict p (act (.wait np)) (fun _ => Has p {}) s := by
  refine wp_step (fun _ _ he h => h.env he) (fun _ _ => trivial) (fun s r s' hi _ hk he => ?_) hs
  rw [exec] at he
  split at he
  · rename_i hz
    have hne : p ≠ np := by
      rintro rfl
      rw [hk.run] at hz
      cases hz
    have hrun : (s.procs np).state ≠ .runnable := by simp [hz]
    cases he
    obtain ⟨hinv, hsame⟩ := good_state np { s.procs np with state := .unused } hi rfl
    have hpp : (s.procs.set np { s.procs np with state := .unused }) np = { s.procs np with state := .unused } :=
      get_set_self _ _ _
    refine ⟨⟨hinv, fun q _ => ?_⟩, hk.same (hsame p hne)⟩
    by_cases hqn : q = np
    · subst hqn
      refine .inr ⟨hrun, fun hh => ⟨hh.temps, fun i => ?_, hh.locks, hh.tmp, fun f fd => ?_, hh.trans, fun _ fd => ?_⟩⟩
      · show _ = if ((s.procs.set q { s.procs q with state := .unused }) q).state = .runnable ∧
          ((s.procs.set q { s.procs q with state := .unused }) q).cwd = i then 1 else 0
        rw [hpp]
        show (s.holders i).count _ = _
        rw [hh.cwds, if_neg fun h => hrun h.1, if_neg fun h => by cases h.1]
      · show (s.fholders f).count _ =
          if ((s.procs.set q { s.procs q with state := .unused }) q).ofile fd = some f then 1 else 0
        rw [hpp]
        exact hh.fds f fd
      · show ((s.procs.set q { s.procs q with state := .unused }) q).ofile fd = none
        rw [hpp]
        exact hh.off hrun fd
    · exact .inl (hsame q hqn)
  · cases he

end Xv6.Fs.Refs
