import Xv6.Ftable
import Mathlib.Algebra.Order.BigOperators.Group.Finset
import Mathlib.Data.List.Count

/-!
# References to open files

A process owes each reference that it has counted to a descriptor, or to a variable of the code that
it executes. An end of a pipe is open as long as the file that stands for it, or the process that is
about to close it, carries it.
-/

namespace Xv6.Ftable

open Threads List Table

variable {s s' s'' : State} {nproc p q f g fd np i pg : Nat} {w : Bool} {F D : List Nat}

lemma sum_except {S : Finset Nat} {a b : Nat → Nat} (hi : i ∈ S) (h : ∀ j, j ≠ i → b j = a j) :
    ∑ j ∈ S, b j + a i = ∑ j ∈ S, a j + b i := by
  have hrest : ∑ j ∈ S.erase i, b j = ∑ j ∈ S.erase i, a j :=
    Finset.sum_congr rfl fun j hj => h j (Finset.ne_of_mem_erase hj)
  rw [← Finset.add_sum_erase S b hi, ← Finset.add_sum_erase S a hi, hrest]
  omega

lemma count_cons_some (f g : Nat) (F : List Nat) :
    (f :: F).count g = F.count g + if some f = some g then 1 else 0 := by
  simp [count_cons]

/-! ## Descriptors -/

/-- How many descriptors of `q` name file `f`. -/
def Proc.slots (q : Proc) (f : Nat) : Nat := ∑ fd ∈ Finset.range NOFILE, if q.ofile fd = some f then 1 else 0

lemma Proc.slots_set {q q' : Proc} {o : Option Nat} (hfd : fd < NOFILE) (h : q'.ofile = q.ofile.set fd o) (f : Nat) :
    q'.slots f + (if q.ofile fd = some f then 1 else 0) = q.slots f + if o = some f then 1 else 0 := by
  have hsum := sum_except (a := fun j => if q.ofile j = some f then 1 else 0)
    (b := fun j => if q'.ofile j = some f then 1 else 0) (Finset.mem_range.mpr hfd) fun j hj => by
      rw [h, get_set_ne _ _ hj]
  have ho : q'.ofile fd = o := by rw [h, get_set_self]
  rw [ho] at hsum
  exact hsum

lemma Proc.slots_congr {q q' : Proc} (h : q'.ofile = q.ofile) (f : Nat) : q'.slots f = q.slots f := by
  unfold Proc.slots
  rw [h]

lemma Proc.slots_pos {q : Proc} (h : 0 < q.slots f) : ∃ fd, fd < NOFILE ∧ q.ofile fd = some f := by
  by_contra hno
  push Not at hno
  have hzero : q.slots f = 0 := by
    refine Finset.sum_eq_zero fun fd hfd => ?_
    rw [if_neg (hno fd (Finset.mem_range.mp hfd))]
  omega

lemma Proc.slots_ge {q : Proc} (hfd : fd < NOFILE) (h : q.ofile fd = some f) : 0 < q.slots f := by
  refine Finset.sum_pos' (fun _ _ => Nat.zero_le _) ⟨fd, Finset.mem_range.mpr hfd, ?_⟩
  rw [if_pos h]
  exact Nat.one_pos

/-- A process between calls: its references are those of its descriptors. -/
def Proc.Tidy (q : Proc) : Prop := q.closing = none ∧ ∀ f, q.refs.count f = q.slots f

/-- A process with the references `F` in variables, while the descriptors in `D` stand for references
that it has given up or not counted yet. -/
def Proc.Has (F D : List Nat) (q : Proc) : Prop :=
  q.closing = none ∧ ∀ f, q.refs.count f + D.count f = q.slots f + F.count f

lemma Proc.has_nil {q : Proc} : q.Has [] [] ↔ q.Tidy := by
  simp [Proc.Has, Proc.Tidy]

lemma Proc.Has.cancel {q : Proc} (h : q.Has (f :: F) (f :: D)) : q.Has F D := by
  refine ⟨h.1, fun g => ?_⟩
  have hg := h.2 g
  simp only [count_cons] at hg
  omega

lemma Proc.Has.mem {q : Proc} (h : q.Has (f :: F) []) : f ∈ q.refs := by
  have hf := h.2 f
  rw [count_cons_self, count_nil] at hf
  exact count_pos_iff.mp (by omega)

lemma Proc.Tidy.mem {q : Proc} (h : q.Tidy) (hfd : fd < NOFILE) (ho : q.ofile fd = some f) : f ∈ q.refs := by
  have hpos := Proc.slots_ge hfd ho
  rw [← h.2 f] at hpos
  exact count_pos_iff.mp hpos

/-- All descriptors are closed. -/
def Proc.Empty (q : Proc) : Prop := q.Tidy ∧ ∀ fd, fd < NOFILE → q.ofile fd = none

/-! ## Pipes -/

/-- The page has a pipe with that end open. -/
def isOpen (s : State) (pg : Nat) (w : Bool) : Bool :=
  match s.pages pg with
  | none => false
  | some x => if w then x.writeopen else x.readopen

/-- What an end of a pipe is in use by: a file, or a process that is closing it. -/
inductive Carrier where
  | file (f : Nat)
  | closer (p : Nat)
deriving DecidableEq

def Carries (s : State) (pg : Nat) (w : Bool) : Carrier → Prop
  | .file f => 0 < (s.ftable f).ref ∧ (s.ftable f).pipeEnd = some (pg, w)
  | .closer p => (s.procs p).closing = some (pg, w)

lemma carries_file : Carries s pg w (.file f) ↔ 0 < (s.ftable f).ref ∧ (s.ftable f).pipeEnd = some (pg, w) := Iff.rfl

lemma carries_closer : Carries s pg w (.closer p) ↔ (s.procs p).closing = some (pg, w) := Iff.rfl

/-- References are counted, processes that do not run have none, and the open ends of pipes are those of one file or
of one process that is about to close it. -/
structure Inv (nproc : Nat) (s : State) : Prop where
  count : ∀ f, (s.ftable f).ref = ∑ p ∈ Finset.range nproc, (s.procs p).refs.count f
  out : ∀ p, nproc ≤ p → (s.procs p).refs = []
  empty : ∀ p, (s.procs p).state = .unused ∨ (s.procs p).state = .zombie → (s.procs p).Empty
  none : ∀ f, (s.ftable f).ref = 0 → (s.ftable f).type = .none
  ends : ∀ pg w, isOpen s pg w = true ↔ ∃ x, Carries s pg w x
  sole : ∀ pg w x y, Carries s pg w x → Carries s pg w y → x = y
  used : ∀ pg x, s.pages pg = some x → x.readopen = true ∨ x.writeopen = true
  made : ∀ pg, s.made pg = s.freed pg + if (s.pages pg).isSome then 1 else 0

lemma Inv.ref_pos (hi : Inv nproc s) (hf : f ∈ (s.procs p).refs) : 0 < (s.ftable f).ref := by
  have hp : p < nproc := by
    by_contra hge
    rw [hi.out p (by omega)] at hf
    cases hf
  rw [hi.count f]
  exact Finset.sum_pos' (fun _ _ => Nat.zero_le _) ⟨p, Finset.mem_range.mpr hp, count_pos_iff.mpr hf⟩

lemma Inv.not_mem (hi : Inv nproc s) (hf : (s.ftable f).ref = 0) (p : Nat) : f ∉ (s.procs p).refs := by
  intro hm
  have := hi.ref_pos hm
  omega

lemma Inv.only (hi : Inv nproc s) (hf : f ∈ (s.procs p).refs) (hone : (s.ftable f).ref = 1) (hq : q ≠ p) :
    f ∉ (s.procs q).refs := by
  intro hm
  have hpos : ∀ r, f ∈ (s.procs r).refs → r ∈ Finset.range nproc := by
    intro r hr
    by_contra hge
    rw [hi.out r (by simpa using hge)] at hr
    cases hr
  have hle := Finset.add_le_sum (f := fun r => (s.procs r).refs.count f) (fun _ _ => Nat.zero_le _)
    (hpos p hf) (hpos q hm) (Ne.symm hq)
  rw [← hi.count f, hone] at hle
  have h1 := count_pos_iff.mpr hf
  have h2 := count_pos_iff.mpr hm
  omega

/-! ## What processes rely on -/

def Making (p np : Nat) (s : State) : Prop := (s.procs np).state = .embryo ∧ (s.procs np).maker = p

/-- What the others leave to process `p`. -/
structure Env (p : Nat) (s s' : State) : Prop where
  live : (s.procs p).state = .live → s'.procs p = s.procs p
  type : (s.procs p).state = .live → ∀ f ∈ (s.procs p).refs, (s'.ftable f).type = (s.ftable f).type
  sole : (s.procs p).state = .live → ∀ f ∈ (s.procs p).refs, (∀ q, q ≠ p → f ∉ (s.procs q).refs) →
    ∀ q, q ≠ p → f ∉ (s'.procs q).refs
  making : ∀ np, Making p np s → s'.procs np = s.procs np
  tidy : (s.procs p).Tidy → (s'.procs p).Tidy

lemma Env.refl (p : Nat) (s : State) : Env p s s :=
  ⟨fun _ => rfl, fun _ _ _ => rfl, fun _ _ _ h => h, fun _ _ => rfl, id⟩

lemma Env.trans (h : Env p s s') (h' : Env p s' s'') : Env p s s'' := by
  obtain ⟨hlive, htype, hsole, hmaking, htidy⟩ := h
  obtain ⟨hlive', htype', hsole', hmaking', htidy'⟩ := h'
  constructor <;> grind [Making]

def logic (nproc : Nat) : Logic Nat Act State Panic where
  Inv := Inv nproc
  Rely := Env
  Given := fun _ _ _ => True
  Pre := fun _ _ _ => True
  Allowed := fun e => e = .initExiting
  Idle := fun p s => (s.procs p).Tidy

abbrev Spec (nproc p : Nat) {α : Type} := wp (α := α) (machine nproc) (logic nproc) p

/-- Process `p` is alive and knows `K` of itself. -/
structure Own (nproc p : Nat) (K : Proc → Prop) (s : State) : Prop where
  lt : p < nproc
  live : (s.procs p).state = .live
  knows : K (s.procs p)

variable {K : Proc → Prop}

lemma Own.env (he : Env p s s') (h : Own nproc p K s) : Own nproc p K s' := by
  have hsame := he.live h.live
  exact ⟨h.lt, by rw [hsame]; exact h.live, by rw [hsame]; exact h.knows⟩

lemma Own.mono {K' : Proc → Prop} (h : Own nproc p K s) (hK : ∀ q, K q → K' q) : Own nproc p K' s :=
  ⟨h.lt, h.live, hK _ h.knows⟩

structure Good (nproc p : Nat) (a : Act) (U : a.Res → State → Prop) (s : State) : Prop where
  stop : ∀ e, exec nproc p a s = .stop e → e = .initExiting
  next : ∀ r s', exec nproc p a s = .next r s' → Inv nproc s' ∧ (∀ q, q ≠ p → Env q s s') ∧ U r s'

lemma Good.of_eq {a : Act} {U : a.Res → State → Prop} {r : a.Res} (he : exec nproc p a s = .next r s')
    (hi : Inv nproc s') (henv : ∀ q, q ≠ p → Env q s s') (hU : U r s') : Good nproc p a U s := by
  refine ⟨fun e h => ?_, fun r' s'' h => ?_⟩
  · rw [he] at h
    cases h
  · rw [he] at h
    obtain ⟨rfl, rfl⟩ := Outcome.next.inj h
    exact ⟨hi, henv, hU⟩

lemma Good.of_look {a : Act} {U : a.Res → State → Prop} {r : a.Res} (he : exec nproc p a s = .next r s)
    (hi : Inv nproc s) (hU : U r s) : Good nproc p a U s :=
  .of_eq he hi (fun q _ => .refl q s) hU

lemma wp_step {a : Act} {S : State → Prop} {U : a.Res → State → Prop} (hs : S s)
    (hS : ∀ s s', Env p s s' → S s → S s') (h : ∀ s, Inv nproc s → S s → Good nproc p a U s) :
    Spec nproc p (act a) U s := by
  refine wp_call hs hS fun s hi _ hS => ⟨trivial, ?_⟩
  have hg := h s hi hS
  exact .of_next hg.stop hg.next

lemma wp_own {a : Act} {U : a.Res → State → Prop} (hs : Own nproc p K s)
    (h : ∀ s, Inv nproc s → Own nproc p K s → Good nproc p a U s) :
    Spec nproc p (act a) U s :=
  wp_step hs (fun _ _ => Own.env) h

/-! ## Kinds of actions -/

lemma env_of_own (hlive : (s.procs p).state = .live) (hprocs : ∀ q, q ≠ p → s'.procs q = s.procs q)
    (htype : ∀ q, q ≠ p → ∀ f ∈ (s.procs q).refs, (s'.ftable f).type = (s.ftable f).type)
    (hrefs : ∀ f ∈ (s'.procs p).refs, f ∈ (s.procs p).refs ∨ ∀ q, q ≠ p → f ∉ (s.procs q).refs) (hq : q ≠ p) :
    Env q s s' := by
  have hmake : ∀ np, Making q np s → np ≠ p := by grind [Making]
  constructor <;> grind

lemma Inv.keep_ends {t : State} (hi : Inv nproc s) (hpages : t.pages = s.pages)
    (hcarries : ∀ pg w x, Carries t pg w x ↔ Carries s pg w x) :
    (∀ pg w, isOpen t pg w = true ↔ ∃ x, Carries t pg w x) ∧
      ∀ pg w x y, Carries t pg w x → Carries t pg w y → x = y := by
  simp only [isOpen, hpages, hcarries]
  exact ⟨hi.ends, hi.sole⟩

/-- What a process does to itself leaves the slots of the others as they are. -/
lemma Inv.keep_slots {t : State} (hi : Inv nproc s) (h : Own nproc p K s) (hlive : (t.procs p).state = .live)
    (hother : ∀ q, q ≠ p → t.procs q = s.procs q) : (∀ q, nproc ≤ q → (t.procs q).refs = []) ∧
      ∀ q, (t.procs q).state = .unused ∨ (t.procs q).state = .zombie → (t.procs q).Empty := by
  have hlt := h.lt
  have hout := hi.out
  have hempty := hi.empty
  refine ⟨fun q hq => ?_, fun q hst => ?_⟩ <;> by_cases hqp : q = p <;> grind

lemma Inv.of_procs (hi : Inv nproc s) (hfile : s'.ftable = s.ftable) (hpages : s'.pages = s.pages)
    (hmade : s'.made = s.made) (hfreed : s'.freed = s.freed)
    (hrefs : ∀ q, (s'.procs q).refs = (s.procs q).refs) (hclosing : ∀ q, (s'.procs q).closing = (s.procs q).closing)
    (hempty : ∀ q, (s'.procs q).state = .unused ∨ (s'.procs q).state = .zombie → (s'.procs q).Empty) :
    Inv nproc s' := by
  have hends := hi.keep_ends hpages (t := s') fun pg w x => by
    cases x <;> simp [carries_file, carries_closer, hfile, hclosing]
  refine ⟨?_, ?_, hempty, ?_, hends.1, hends.2, ?_, ?_⟩ <;> simp only [hfile, hpages, hmade, hfreed, hrefs]
  exacts [hi.count, hi.out, hi.none, hi.used, hi.made]

@[simp] lemma setProc_procs (s : State) (p q : Nat) (x : Proc) :
    (s.setProc p x).procs q = if q = p then x else s.procs q := get_set _ _ _ _

@[simp] lemma setProc_ftable (s : State) (p : Nat) (x : Proc) : (s.setProc p x).ftable = s.ftable := rfl
@[simp] lemma setProc_made (s : State) (p : Nat) (x : Proc) : (s.setProc p x).made = s.made := rfl
@[simp] lemma setProc_freed (s : State) (p : Nat) (x : Proc) : (s.setProc p x).freed = s.freed := rfl

@[simp] lemma setFile_ftable (s : State) (f g : Nat) (x : File) :
    (s.setFile f x).ftable g = if g = f then x else s.ftable g := get_set _ _ _ _

@[simp] lemma setFile_procs (s : State) (f : Nat) (x : File) : (s.setFile f x).procs = s.procs := rfl
@[simp] lemma setFile_pages (s : State) (f : Nat) (x : File) : (s.setFile f x).pages = s.pages := rfl
@[simp] lemma setFile_made (s : State) (f : Nat) (x : File) : (s.setFile f x).made = s.made := rfl
@[simp] lemma setFile_freed (s : State) (f : Nat) (x : File) : (s.setFile f x).freed = s.freed := rfl

lemma Inv.setProc (hi : Inv nproc s) {x : Proc} (hrefs : x.refs = (s.procs p).refs)
    (hclosing : x.closing = (s.procs p).closing) (hempty : x.state = .unused ∨ x.state = .zombie → x.Empty) :
    Inv nproc (s.setProc p x) := by
  have hempty' := hi.empty
  refine hi.of_procs rfl rfl rfl rfl ?_ ?_ ?_ <;> intro q <;> rw [setProc_procs] <;> grind

lemma ofile_good {x : Proc} (hi : Inv nproc s) (h : Own nproc p K s) (hstate : x.state = .live)
    (hrefs : x.refs = (s.procs p).refs) (hclosing : x.closing = (s.procs p).closing) :
    Inv nproc (s.setProc p x) ∧ ∀ q, q ≠ p → Env q s (s.setProc p x) := by
  refine ⟨hi.setProc hrefs hclosing (by simp [hstate]), fun q hq => ?_⟩
  refine env_of_own h.live (fun r hr => by simp [hr]) (fun _ _ _ _ => rfl) (fun f hf => ?_) hq
  simp only [setProc_procs, if_true, hrefs] at hf
  exact .inl hf

lemma wp_ofile (fd : Nat) (hs : Own nproc p K s) :
    Spec nproc p (act (.ofile fd))
      (fun r => Own nproc p fun q => K q ∧ q.ofile fd = r) s :=
  wp_own hs fun _ hi h => .of_look rfl hi ⟨h.lt, h.live, h.knows, rfl⟩

lemma wp_clear (hfd : fd < NOFILE) (hs : Own nproc p (fun q => q.Has F D ∧ q.ofile fd = some f ∧ K q) s)
    {L : Proc → Prop} (hK : ∀ q q' : Proc, K q → q'.refs = q.refs → q'.ofile = q.ofile.set fd none → L q') :
    Spec nproc p (act (.clear fd))
      (fun _ => Own nproc p fun q => q.Has (f :: F) D ∧ q.ofile fd = none ∧ L q) s := by
  refine wp_own hs fun s hi h => ?_
  obtain ⟨hhas, ho, hk⟩ := h.knows
  let x : Proc := { s.procs p with ofile := (s.procs p).ofile.set fd none }
  obtain ⟨hi', henv⟩ := ofile_good (x := x) hi h h.live rfl rfl
  refine .of_eq rfl hi' henv ⟨h.lt, ?_, ?_⟩
  · rw [setProc_procs, if_pos rfl]
    exact h.live
  rw [setProc_procs, if_pos rfl]
  refine ⟨⟨hhas.1, fun g => ?_⟩, get_set_self _ _ _, hK _ x hk rfl rfl⟩
  have hset : x.slots g + _ = (s.procs p).slots g + _ := Proc.slots_set hfd rfl g
  have hg := hhas.2 g
  rw [ho] at hset
  change (s.procs p).refs.count g + D.count g = x.slots g + (f :: F).count g
  rw [count_cons_some]
  simp only [reduceCtorEq, if_false] at hset
  omega

lemma wp_fdalloc {R : State → Prop} (hs : Own nproc p (fun q => q.Has F D ∧ K q) s ∧ R s)
    (hK : ∀ q fd, K q → q.ofile fd = none → K { q with ofile := q.ofile.set fd (some f) })
    (hR : ∀ s s', Env p s s' → (s.procs p).state = .live → R s → R s')
    (hR' : ∀ s x, x.refs = (s.procs p).refs → R s → R (s.setProc p x)) :
    Spec nproc p (act (.fdalloc f)) (fun r s => Own nproc p (fun q => match r with
      | none => q.Has F D ∧ K q
      | some fd => q.Has F (f :: D) ∧ K q ∧ fd < NOFILE ∧ q.ofile fd = some f) s ∧ R s) s := by
  refine wp_step (S := fun s => Own nproc p (fun q => q.Has F D ∧ K q) s ∧ R s) hs
    (fun s s' he h => ⟨h.1.env he, hR s s' he h.1.live h.2⟩) fun s hi ⟨h, hr⟩ => ?_
  cases hfind : (List.range NOFILE).find? fun fd => (s.procs p).ofile fd = none with
  | none =>
    have he : exec nproc p (.fdalloc f) s = .next none s := by
      simp only [exec, hfind]
    exact .of_look he hi ⟨h, hr⟩
  | some fd =>
    have hfd : fd < NOFILE := mem_range.mp (List.mem_of_find?_eq_some hfind)
    have hnone : (s.procs p).ofile fd = none := by simpa using List.find?_some hfind
    let x : Proc := { s.procs p with ofile := (s.procs p).ofile.set fd (some f) }
    have he : exec nproc p (.fdalloc f) s = .next (some fd) (s.setProc p x) := by
      simp only [exec, hfind, x]
    obtain ⟨hi', henv⟩ := ofile_good (x := x) hi h h.live rfl rfl
    refine .of_eq he hi' henv ⟨⟨h.lt, ?_, ?_⟩, hR' s x rfl hr⟩
    · rw [setProc_procs, if_pos rfl]
      exact h.live
    rw [setProc_procs, if_pos rfl]
    refine ⟨⟨h.knows.1.1, fun g => ?_⟩, hK _ fd h.knows.2 hnone, hfd, get_set_self _ _ _⟩
    have hset : x.slots g + _ = (s.procs p).slots g + _ := Proc.slots_set hfd rfl g
    have hg := h.knows.1.2 g
    rw [hnone] at hset
    change (s.procs p).refs.count g + (f :: D).count g = x.slots g + F.count g
    rw [count_cons_some]
    simp only [reduceCtorEq, if_false] at hset
    omega

/-! ## References -/

lemma sum_refs (s s' : State) (hp : p < nproc) (hprocs : ∀ q, q ≠ p → s'.procs q = s.procs q) (g : Nat) :
    ∑ q ∈ Finset.range nproc, (s'.procs q).refs.count g + (s.procs p).refs.count g =
      ∑ q ∈ Finset.range nproc, (s.procs q).refs.count g + (s'.procs p).refs.count g :=
  sum_except (a := fun q => (s.procs q).refs.count g) (b := fun q => (s'.procs q).refs.count g)
    (Finset.mem_range.mpr hp) fun q hq => by rw [hprocs q hq]

/-- `p` takes one more reference to `f`. -/
def gain (p f : Nat) (s : State) : State :=
  (s.setFile f { s.ftable f with ref := (s.ftable f).ref + 1 }).setProc p
    { s.procs p with refs := f :: (s.procs p).refs }

lemma gain_file (p f g : Nat) (s : State) : ((gain p f s).ftable g).type = (s.ftable g).type ∧
    ((gain p f s).ftable g).pipeEnd = (s.ftable g).pipeEnd ∧
    ((gain p f s).ftable g).ref = (s.ftable g).ref + if f = g then 1 else 0 := by
  simp only [gain, setProc_ftable, setFile_ftable]
  by_cases hg : g = f
  · subst hg
    simp [File.pipeEnd]
  · simp [hg, Ne.symm hg]

lemma gain_inv (hi : Inv nproc s) (h : Own nproc p K s) : Inv nproc (gain p f s) := by
  have hother : ∀ q, q ≠ p → (gain p f s).procs q = s.procs q := fun q hq => by
    simp [gain, hq]
  have hsame : (gain p f s).procs p = { s.procs p with refs := f :: (s.procs p).refs } := by simp [gain]
  have hends := hi.keep_ends (t := gain p f s) rfl fun pg w x => by
    cases x with
    | file g =>
      -- a file that was not in use is no end of a pipe
      obtain ⟨-, hpipe, href⟩ := gain_file p f g s
      have hnone := hi.none g
      simp only [carries_file, hpipe, href]
      grind [File.pipeEnd]
    | closer q => by_cases hq : q = p <;> simp [carries_closer, hq, hother, hsame]
  have hslots := hi.keep_slots h (by rw [hsame]; exact h.live) hother
  refine ⟨fun g => ?_, hslots.1, hslots.2, fun g hg => ?_, hends.1, hends.2, hi.used, hi.made⟩
  · have hsum := sum_refs s (gain p f s) h.lt hother g
    rw [hsame, count_cons_some] at hsum
    simp only [Option.some.injEq] at hsum
    rw [(gain_file p f g s).2.2, hi.count g]
    omega
  · obtain ⟨htype, -, href⟩ := gain_file p f g s
    rw [htype]
    exact hi.none g (by omega)

lemma gain_env (h : Own nproc p K s) (hf : f ∈ (s.procs p).refs ∨ ∀ q, q ≠ p → f ∉ (s.procs q).refs) (hq : q ≠ p) :
    Env q s (gain p f s) := by
  refine env_of_own h.live (fun r hr => by simp [gain, hr]) (fun _ _ g _ => (gain_file p f g s).1) (fun g hg => ?_) hq
  simp only [gain, setProc_procs, if_true, mem_cons] at hg
  rcases hg with rfl | hg
  · exact hf
  · exact .inl hg

lemma gain_own (h : Own nproc p (Proc.Has F D) s) : Own nproc p (Proc.Has (f :: F) D) (gain p f s) := by
  refine ⟨h.lt, by simpa [gain] using h.live, ?_⟩
  simp only [gain, setProc_procs, if_true]
  refine ⟨h.knows.1, fun g => ?_⟩
  have hg := h.knows.2 g
  change (f :: (s.procs p).refs).count g + D.count g = (s.procs p).slots g + (f :: F).count g
  rw [count_cons_some, count_cons_some]
  omega

/-- A file that `p` has taken and nobody else knows: it is no end of a pipe. -/
structure Fresh (p f : Nat) (s : State) : Prop where
  mem : f ∈ (s.procs p).refs
  type : (s.ftable f).type = .none
  sole : ∀ q, q ≠ p → f ∉ (s.procs q).refs

lemma Fresh.env (hlive : (s.procs p).state = .live) (he : Env p s s') (h : Fresh p f s) : Fresh p f s' :=
  ⟨by rw [he.live hlive]; exact h.mem, (he.type hlive f h.mem).trans h.type, he.sole hlive f h.mem h.sole⟩

lemma wp_filealloc {G : List Nat} (hs : Own nproc p (Proc.Has F D) s) (hG : ∀ g ∈ G, Fresh p g s) :
    Spec nproc p (act .filealloc) (fun r s => match r with
      | none => Own nproc p (Proc.Has F D) s ∧ ∀ g ∈ G, Fresh p g s
      | some f => Own nproc p (Proc.Has (f :: F) D) s ∧ f ∉ G ∧ ∀ g ∈ f :: G, Fresh p g s) s := by
  refine wp_step (S := fun s => Own nproc p (Proc.Has F D) s ∧ ∀ g ∈ G, Fresh p g s) ⟨hs, hG⟩
    (fun s s' he h => ⟨h.1.env he, fun g hg => (h.2 g hg).env h.1.live he⟩) fun s hi h => ?_
  obtain ⟨h, hG⟩ := h
  cases hfind : (List.range NFILE).find? fun f => (s.ftable f).ref = 0 with
  | none =>
    have he : exec nproc p .filealloc s = .next none s := by
      simp only [exec, hfind]
    exact .of_look he hi ⟨h, hG⟩
  | some f =>
    have hzero : (s.ftable f).ref = 0 := by simpa using List.find?_some hfind
    have he : exec nproc p .filealloc s = .next (some f) (gain p f s) := by
      simp only [exec, hfind, gain, hzero]
    have hnew : ∀ q, f ∉ (s.procs q).refs := hi.not_mem hzero
    have hnot : f ∉ G := fun hf => hnew p (hG f hf).mem
    refine .of_eq he (gain_inv hi h) (fun q hq => gain_env h (.inr fun q _ => hnew q) hq) ⟨gain_own h, hnot, ?_⟩
    intro g hg
    have hsole : ∀ q, q ≠ p → (gain p f s).procs q = s.procs q := fun q hq => by simp [gain, hq]
    rcases mem_cons.mp hg with rfl | hg
    · refine ⟨by simp [gain], ?_, fun q hq => ?_⟩
      · rw [(gain_file p g g s).1]
        exact hi.none g hzero
      · rw [hsole q hq]
        exact hnew q
    have hf := hG g hg
    refine ⟨by simp [gain, hf.mem], ?_, fun q hq => ?_⟩
    · rw [(gain_file p f g s).1]
      exact hf.type
    · rw [hsole q hq]
      exact hf.sole q hq

lemma wp_filedup {R : State → Prop} (hs : Own nproc p (fun q => q.Has F D ∧ f ∈ q.refs) s ∧ R s)
    (hR : ∀ s s', Env p s s' → R s → R s') (hR' : ∀ s, (s.procs p).state = .live → R s → R (gain p f s)) :
    Spec nproc p (act (.filedup f))
      (fun _ s => Own nproc p (Proc.Has (f :: F) D) s ∧ R s) s := by
  refine wp_step (S := fun s => Own nproc p (fun q => q.Has F D ∧ f ∈ q.refs) s ∧ R s) hs
    (fun s s' he h => ⟨h.1.env he, hR s s' he h.2⟩) fun s hi ⟨h, hr⟩ => ?_
  have hpos := hi.ref_pos h.knows.2
  have he : exec nproc p (.filedup f) s = .next () (gain p f s) := by
    simp only [exec, if_neg (Nat.not_lt.mpr hpos), gain]
  exact .of_eq he (gain_inv hi h) (fun q hq => gain_env h (.inl h.knows.2) hq)
    ⟨gain_own (h.mono fun q hq => hq.1), hR' s h.live hr⟩

lemma count_erase (hf : f ∈ (s.procs p).refs) (g : Nat) :
    (s.procs p).refs.count g = ((s.procs p).refs.erase f).count g + if f = g then 1 else 0 := by
  have hpos := count_pos_iff.mpr hf
  by_cases hg : f = g
  · subst hg
    rw [count_erase_self, if_pos rfl]
    omega
  · rw [count_erase_of_ne (Ne.symm hg), if_neg hg, Nat.add_zero]

/-- Process `p` gives up a reference to `f`; `x` is what becomes of the file. -/
def lose (p f : Nat) (x : File) (e : Option (Nat × Bool)) (s : State) : State :=
  (s.setFile f x).setProc p { s.procs p with refs := (s.procs p).refs.erase f, closing := e }

lemma lose_count {x : File} {e : Option (Nat × Bool)} (hi : Inv nproc s) (hp : p < nproc) (hf : f ∈ (s.procs p).refs)
    (href : x.ref + 1 = (s.ftable f).ref) (g : Nat) :
    ((lose p f x e s).ftable g).ref = ∑ q ∈ Finset.range nproc, ((lose p f x e s).procs q).refs.count g := by
  have hsum := sum_refs s (lose p f x e s) hp (fun q hq => by simp [lose, hq]) g
  have hrefs : ((lose p f x e s).procs p).refs = (s.procs p).refs.erase f := by simp [lose]
  have hfile : (lose p f x e s).ftable g = if g = f then x else s.ftable g := by simp [lose]
  have hg := hi.count g
  rw [hrefs] at hsum
  rw [hfile]
  grind

lemma lose_env {x : File} {e : Option (Nat × Bool)} (h : Own nproc p K s)
    (htype : x.type = (s.ftable f).type ∨ ∀ q, q ≠ p → f ∉ (s.procs q).refs) (hq : q ≠ p) :
    Env q s (lose p f x e s) := by
  refine env_of_own h.live (fun r hr => by simp [lose, hr]) (fun r hr g hg => ?_) (fun g hg => ?_) hq
  · simp only [lose, setProc_ftable, setFile_ftable]
    grind
  · simp only [lose, setProc_procs, if_true] at hg
    exact .inl (mem_of_mem_erase hg)

lemma lose_has {x : File} {e : Option (Nat × Bool)} (h : (s.procs p).Has F D) (hf : f ∈ (s.procs p).refs) (g : Nat) :
    ((lose p f x e s).procs p).refs.count g + (f :: D).count g = ((lose p f x e s).procs p).slots g + F.count g := by
  have hcount := count_erase hf g
  have hg := h.2 g
  rw [count_cons_some]
  simp only [Option.some.injEq, lose, setProc_procs, if_true]
  change ((s.procs p).refs.erase f).count g + _ = (s.procs p).slots g + _
  omega

/-- Process `p` is alive, has the references that `Has` says, knows `O` of its descriptors and is about
to close the end `e`. -/
structure Closing (nproc p : Nat) (F D : List Nat) (O : Table (Option Nat) → Prop) (e : Option (Nat × Bool))
    (s : State) : Prop where
  lt : p < nproc
  live : (s.procs p).state = .live
  closing : (s.procs p).closing = e
  counts : ∀ f, (s.procs p).refs.count f + D.count f = (s.procs p).slots f + F.count f
  ofile : O (s.procs p).ofile

variable {O : Table (Option Nat) → Prop}

lemma Closing.own (h : Closing nproc p F D O none s) : Own nproc p (fun q => q.Has F D ∧ O q.ofile) s :=
  ⟨h.lt, h.live, ⟨h.closing, h.counts⟩, h.ofile⟩

lemma Closing.env {e : Option (Nat × Bool)} (he : Env p s s') (h : Closing nproc p F D O e s) :
    Closing nproc p F D O e s' := by
  have hsame := he.live h.live
  exact ⟨h.lt, by rw [hsame]; exact h.live, by rw [hsame]; exact h.closing, by rw [hsame]; exact h.counts,
    by rw [hsame]; exact h.ofile⟩

lemma wp_drop (hs : Own nproc p (fun q => (q.Has F D ∧ O q.ofile) ∧ f ∈ q.refs) s) :
    Spec nproc p (act (.drop f)) (fun r => Closing nproc p F (f :: D) O (match r with
      | none => none
      | some ff => ff.pipeEnd)) s := by
  refine wp_own hs fun s hi h => ?_
  obtain ⟨⟨hhas, hofile⟩, hf⟩ := h.knows
  have hpos := hi.ref_pos hf
  have hnone := hi.none
  have hlose : ∀ x e, Closing nproc p F (f :: D) O e (lose p f x e s) := fun x e =>
    ⟨h.lt, by simpa [lose] using h.live, by simp [lose], lose_has hhas hf, by simpa [lose] using hofile⟩
  have hslots : ∀ x e, _ := fun x e =>
    hi.keep_slots (t := lose p f x e s) h (hlose x e).live fun q hq => by simp [lose, hq]
  have hfile : ∀ x e g, (lose p f x e s).ftable g = if g = f then x else s.ftable g := fun x e g => by
    simp [lose]
  have hcloser : ∀ x e q, ((lose p f x e s).procs q).closing = if q = p then e else (s.procs q).closing := by
    intro x e q
    by_cases hq : q = p <;> simp [lose, hq]
  by_cases hmore : 0 < (s.ftable f).ref - 1
  · -- others have the file open, and it stays what it is
    have he : exec nproc p (.drop f) s =
        .next none (lose p f { s.ftable f with ref := (s.ftable f).ref - 1 } none s) := by
      simp only [exec, if_neg (Nat.not_lt.mpr hpos), if_pos hmore, lose, ← hhas.1]
    have hends := hi.keep_ends (t := lose p f { s.ftable f with ref := (s.ftable f).ref - 1 } none s) rfl
      fun pg w x => by
        have hclosing := hhas.1
        cases x <;> simp only [carries_file, carries_closer, hfile, hcloser] <;> grind [File.pipeEnd]
    refine .of_eq he ⟨lose_count hi h.lt hf (by dsimp only; omega), (hslots _ _).1, (hslots _ _).2, fun g hg => ?_,
      hends.1, hends.2, hi.used, hi.made⟩ (fun q hq => lose_env h (.inl rfl) hq) (hlose _ _)
    grind
  · -- the last reference: the process carries the end on
    have hone : (s.ftable f).ref = 1 := by omega
    have hsole : ∀ q, q ≠ p → f ∉ (s.procs q).refs := fun q hq => hi.only hf hone hq
    have he : exec nproc p (.drop f) s = .next (some (s.ftable f))
        (lose p f { s.ftable f with ref := 0, type := .none } (s.ftable f).pipeEnd s) := by
      simp only [exec, if_neg (Nat.not_lt.mpr hpos), if_neg hmore, lose]
    have hcarries : ∀ pg w x,
        Carries (lose p f { s.ftable f with ref := 0, type := .none } (s.ftable f).pipeEnd s) pg w x ↔
          Carries s pg w (if x = .closer p then .file f else x) ∧ x ≠ .file f := by
      intro pg w x
      cases x with
      | file g => by_cases hg : g = f <;> simp [carries_file, hfile, hg]
      | closer q => by_cases hq : q = p <;> simp [carries_file, carries_closer, hcloser, hq, hpos]
    have hnot : ∀ pg w, ¬Carries s pg w (.closer p) := fun pg w => by simp [carries_closer, hhas.1]
    have hsame := hi.sole
    refine .of_eq he ⟨lose_count hi h.lt hf (by dsimp only; omega), (hslots _ _).1, (hslots _ _).2, fun g hg => ?_,
      fun pg w => ?_, fun pg w x y hx hy => ?_, hi.used, hi.made⟩ (fun q hq => lose_env h (.inr hsole) hq) (hlose _ _)
    · grind
    · change isOpen s pg w = true ↔ _
      simp only [hi.ends pg w, hcarries]
      refine ⟨fun ⟨x, hx⟩ => ?_, fun ⟨x, hx⟩ => ⟨_, hx.1⟩⟩
      by_cases hxf : x = .file f
      · exact ⟨.closer p, by simpa [← hxf] using hx, by simp⟩
      · exact ⟨x, by grind, hxf⟩
    · rw [hcarries] at hx hy
      grind

lemma isOpen_some {x : Pipe} (h : s.pages pg = some x) (w : Bool) :
    isOpen s pg w = if w then x.writeopen else x.readopen := by
  simp only [isOpen, h]

lemma isOpen_none (h : s.pages pg = none) (w : Bool) : isOpen s pg w = false := by
  simp only [isOpen, h]

lemma Pipe.close_open (x : Pipe) (w v : Bool) : (if v then (x.close w).writeopen else (x.close w).readopen) =
    if v = w then false else if v then x.writeopen else x.readopen := by
  cases w <;> cases v <;> simp [Pipe.close]

/-- What there is to show of the state after `pipeclose`, whether the page is freed or not. -/
lemma pipeclose_good {t : State} {y : Proc} (hi : Inv nproc s) (h : Closing nproc p F D O (some (pg, w)) s)
    (hy : y = { s.procs p with closing := none }) (hfile : t.ftable = s.ftable)
    (hprocs : t.procs = (s.setProc p y).procs) (hother : ∀ pg', pg' ≠ pg → t.pages pg' = s.pages pg')
    (hclosed : ∀ v, isOpen t pg v = if v = w then false else isOpen s pg v)
    (hused : ∀ z, t.pages pg = some z → z.readopen = true ∨ z.writeopen = true)
    (hmade : ∀ pg', t.made pg' = t.freed pg' + if (t.pages pg').isSome then 1 else 0) :
    Inv nproc t ∧ (∀ q, q ≠ p → Env q s t) ∧ Closing nproc p F D O none t := by
  have hself : Carries s pg w (.closer p) := h.closing
  have hget : ∀ q, t.procs q = if q = p then y else s.procs q := fun q => by rw [hprocs, setProc_procs]
  have hp : t.procs p = y := by rw [hget, if_pos rfl]
  have hne : ∀ q, q ≠ p → t.procs q = s.procs q := fun q hq => by rw [hget, if_neg hq]
  have hrefs : ∀ q, (t.procs q).refs = (s.procs q).refs := fun q => by grind
  have hcarries : ∀ pg' v z, Carries t pg' v z ↔ Carries s pg' v z ∧ z ≠ .closer p := by
    intro pg' v z
    cases z with
    | file g => simp [carries_file, hfile]
    | closer q => by_cases hq : q = p <;> simp [carries_closer, hget, hq, hy]
  have hend : ∀ pg' v, Carries s pg' v (.closer p) → pg' = pg ∧ v = w := by
    intro pg' v hc
    rw [carries_closer, h.closing] at hc
    simpa [eq_comm] using hc
  have hlive : (t.procs p).state = .live := by
    rw [hp, hy]
    exact h.live
  have hslots := hi.keep_slots (K := fun _ => True) ⟨h.lt, h.live, trivial⟩ hlive hne
  refine ⟨⟨fun g => ?_, hslots.1, hslots.2, by rw [hfile]; exact hi.none, fun pg' v => ?_,
    fun pg' v z z' hz hz' => ?_, fun pg' z hz => ?_, hmade⟩, fun q hq => ?_, h.lt, hlive, ?_, ?_, ?_⟩
  · simp only [hfile, hrefs]
    exact hi.count g
  · have hends := hi.ends pg' v
    simp only [hcarries]
    by_cases hthis : pg' = pg ∧ v = w
    · obtain ⟨rfl, rfl⟩ := hthis
      simp only [hclosed, if_true, Bool.false_eq_true, false_iff, not_exists, not_and, not_not]
      exact fun z hz => hi.sole pg' v z _ hz hself
    · have hsame : isOpen t pg' v = isOpen s pg' v := by
        by_cases hpg : pg' = pg
        · grind
        · simp only [isOpen, hother pg' hpg]
      grind
  · exact hi.sole pg' v z z' ((hcarries pg' v z).mp hz).1 ((hcarries pg' v z').mp hz').1
  · have hold := hi.used pg' z
    grind
  · exact env_of_own h.live hne (fun _ _ g _ => by rw [hfile]) (fun g hg => .inl (hrefs p ▸ hg)) hq
  all_goals rw [hp, hy]
  exacts [h.counts, h.ofile]

lemma wp_pipeclose (hs : Closing nproc p F D O (some (pg, w)) s) :
    Spec nproc p (act (.pipeclose pg w)) (fun _ => Closing nproc p F D O none) s := by
  refine wp_step hs (fun _ _ => Closing.env) fun s hi h => ?_
  have hopen : isOpen s pg w = true := (hi.ends pg w).mpr ⟨.closer p, h.closing⟩
  cases hpage : s.pages pg with
  | none =>
    rw [isOpen_none hpage] at hopen
    cases hopen
  | some x =>
    let y : Proc := { s.procs p with closing := none }
    have hmade := hi.made
    have hmade' := hmade pg
    simp only [hpage, Option.isSome_some, if_true] at hmade'
    by_cases hboth : (x.close w).readopen = false ∧ (x.close w).writeopen = false
    · let s' : State := { s.setProc p y with pages := s.pages.set pg none, freed := s.freed.set pg (s.freed pg + 1) }
      have he : exec nproc p (.pipeclose pg w) s = .next () s' := by
        simp only [exec, hpage, if_pos hboth]
        rfl
      have hclosed : ∀ v, isOpen s' pg v = if v = w then false else isOpen s pg v := by
        intro v
        rw [isOpen_none (by simp [s']), isOpen_some hpage, ← Pipe.close_open, hboth.1, hboth.2]
        simp
      obtain ⟨hi', henv, h'⟩ := pipeclose_good (t := s') hi h rfl rfl rfl (fun pg' hpg => by simp [s', hpg]) hclosed
        (fun z hz => by simp [s'] at hz) fun pg' => by by_cases hpg : pg' = pg <;> simp [s', hpg, hmade', hmade]
      exact .of_eq he hi' henv h'
    · let s' : State := { s.setProc p y with pages := s.pages.set pg (some (x.close w)) }
      have he : exec nproc p (.pipeclose pg w) s = .next () s' := by
        simp only [exec, hpage, if_neg hboth]
        rfl
      have hget : s'.pages pg = some (x.close w) := by simp [s']
      have hclosed : ∀ v, isOpen s' pg v = if v = w then false else isOpen s pg v := by
        intro v
        rw [isOpen_some hget, isOpen_some hpage, Pipe.close_open]
      have hused : ∀ z, s'.pages pg = some z → z.readopen = true ∨ z.writeopen = true := by
        intro z hz
        obtain rfl := Option.some.inj (hget.symm.trans hz)
        grind
      obtain ⟨hi', henv, h'⟩ := pipeclose_good (t := s') hi h rfl rfl rfl (fun pg' hpg => by simp [s', hpg]) hclosed
        hused fun pg' => by by_cases hpg : pg' = pg <;> simp [s', hpg, hmade', hmade]
      exact .of_eq he hi' henv h'

lemma fileclose_spec (hs : Own nproc p (fun q => (q.Has F D ∧ O q.ofile) ∧ f ∈ q.refs) s) :
    Spec nproc p (fileclose f) (fun _ => Own nproc p fun q => q.Has F (f :: D) ∧ O q.ofile) s := by
  refine wp_seq (wp_drop hs) fun r _ h => ?_
  cases r with
  | none => exact wp_ret h.own
  | some ff =>
    by_cases hpipe : ff.type = .pipe
    · have he : ff.pipeEnd = some (ff.pipe, ff.writable) := by simp only [File.pipeEnd, if_pos hpipe]
      simp only [he] at h
      simp only [if_pos hpipe]
      exact wp_mono (wp_pipeclose h) fun _ _ h => h.own
    · have he : ff.pipeEnd = none := by simp only [File.pipeEnd, if_neg hpipe]
      simp only [he] at h
      simp only [if_neg hpipe]
      exact wp_ret h.own

end Xv6.Ftable
