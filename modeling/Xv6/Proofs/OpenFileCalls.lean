import Xv6.Proofs.OpenFiles
import Xv6.Lib.Schedule
import Mathlib.Algebra.BigOperators.Ring.Finset

/-! # Open files in every run -/

namespace Xv6.Ftable

open Threads

variable {s s' : State} {nproc p q f g f0 f1 fd np i pg : Nat} {w : Bool} {F D : List Nat} {K : Proc → Prop}

/-! ## Files that nobody else knows -/

lemma fresh_env {G : List Nat} (h : Own nproc p K s) (hprocs : s'.procs = s.procs)
    (hfile : ∀ g, g ∉ G → s'.ftable g = s.ftable g) (hG : ∀ g ∈ G, Fresh p g s) (hq : q ≠ p) : Env q s s' := by
  refine env_of_own h.live (fun r _ => by rw [hprocs]) (fun r hr g hg => ?_) (fun g hg => ?_) hq
  · rw [hfile g fun hm => (hG g hm).sole r hr hg]
  · rw [hprocs] at hg
    exact .inl hg

lemma Fresh.setProc {x : Proc} (h : Fresh p f s) (hx : x.refs = (s.procs p).refs) : Fresh p f (s.setProc p x) := by
  obtain ⟨hmem, htype, hsole⟩ := h
  refine ⟨?_, htype, fun q hq => ?_⟩ <;> rw [setProc_procs] <;> grind

lemma Fresh.not_end (h : Fresh p f s) : (s.ftable f).pipeEnd = none := by
  rw [File.pipeEnd, h.type]
  rfl

lemma Own.setProc {x : Proc} (h : Own nproc p K s) (hne : p ≠ i) : Own nproc p K (s.setProc i x) := by
  refine ⟨h.lt, ?_, ?_⟩ <;> rw [setProc_procs, if_neg hne]
  exacts [h.live, h.knows]

lemma Own.same (h : Own nproc p K s) (hprocs : s'.procs = s.procs) : Own nproc p K s' := by
  refine ⟨h.lt, ?_, ?_⟩ <;> rw [hprocs]
  exacts [h.live, h.knows]

lemma wp_openInode {ip : Nat} {omode : UInt32} (hs : Own nproc p K s) (hf : Fresh p f s) :
    Spec nproc p (act (.openInode f ip omode)) (fun _ => Own nproc p K) s := by
  refine wp_step (S := fun s => Own nproc p K s ∧ Fresh p f s) ⟨hs, hf⟩
    (fun s s' he h => ⟨h.1.env he, h.2.env h.1.live he⟩) fun s hi ⟨h, hf⟩ => ?_
  obtain ⟨s', he, hprocs, hpages, hmade, hfreed, hother, href, htype⟩ :
      ∃ s', exec nproc p (.openInode f ip omode) s = .next () s' ∧
      s'.procs = s.procs ∧ s'.pages = s.pages ∧ s'.made = s.made ∧ s'.freed = s.freed ∧
      (∀ g, g ≠ f → s'.ftable g = s.ftable g) ∧ (s'.ftable f).ref = (s.ftable f).ref ∧ (s'.ftable f).type = .inode :=
    ⟨_, rfl, rfl, rfl, rfl, rfl, fun g hg => by simp [hg], by simp, by simp⟩
  have hrefs : ∀ g, (s'.ftable g).ref = (s.ftable g).ref := fun g => by grind
  have hnot := hf.not_end
  have hpipe : ∀ g, (s'.ftable g).pipeEnd = (s.ftable g).pipeEnd := fun g => by grind [File.pipeEnd]
  have hends := hi.keep_ends hpages fun pg w x => by
    cases x <;> simp [carries_file, carries_closer, hprocs, hrefs, hpipe]
  refine .of_eq he ⟨?_, ?_, ?_, fun g hg => ?_, hends.1, hends.2, ?_, ?_⟩
    (fun q hq => fresh_env (G := [f]) h hprocs (fun g hg => hother g (by simpa using hg)) (by simpa using hf) hq)
    (h.same hprocs)
  · simp only [hrefs, hprocs]
    exact hi.count
  · rw [hprocs]
    exact hi.out
  · rw [hprocs]
    exact hi.empty
  · have hpos := hi.ref_pos hf.mem
    have hnone := hi.none g
    grind
  · rw [hpages]
    exact hi.used
  · rw [hmade, hfreed, hpages]
    exact hi.made

lemma wp_newPipe {page : Option Nat} (hs : Own nproc p K s) (h0 : Fresh p f0 s) (h1 : Fresh p f1 s) (hne : f0 ≠ f1) :
    Spec nproc p (act (.newPipe page f0 f1)) (fun _ => Own nproc p K) s := by
  refine wp_step (S := fun s => Own nproc p K s ∧ Fresh p f0 s ∧ Fresh p f1 s) ⟨hs, h0, h1⟩
    (fun s s' he h => ⟨h.1.env he, h.2.1.env h.1.live he, h.2.2.env h.1.live he⟩) fun s hi ⟨h, h0, h1⟩ => ?_
  cases page with
  | none => exact .of_look rfl hi h
  | some pg =>
    by_cases hused : (s.pages pg).isSome
    · have he : exec nproc p (.newPipe (some pg) f0 f1) s = .blocked := by
        simp only [exec, if_pos hused]
      refine ⟨fun e h => ?_, fun r s' h => ?_⟩
      · rw [he] at h
        cases h
      · rw [he] at h
        cases h
    have hfree : s.pages pg = none := by simpa using hused
    obtain ⟨s', he, hprocs, hpage, hother, hfreed, hmade, hfile, href, htype⟩ :
        ∃ s', exec nproc p (.newPipe (some pg) f0 f1) s = .next true s' ∧
        s'.procs = s.procs ∧ s'.pages pg = some ⟨true, true⟩ ∧ (∀ pg', pg' ≠ pg → s'.pages pg' = s.pages pg') ∧
        s'.freed = s.freed ∧ (∀ pg', s'.made pg' = s.made pg' + if pg' = pg then 1 else 0) ∧
        (∀ g, g ≠ f0 → g ≠ f1 → s'.ftable g = s.ftable g) ∧ (∀ g, (s'.ftable g).ref = (s.ftable g).ref) ∧
        (s'.ftable f0).pipeEnd = some (pg, false) ∧ (s'.ftable f1).pipeEnd = some (pg, true) := by
      let s1 : State := { s with pages := s.pages.set pg (some ⟨true, true⟩), made := s.made.set pg (s.made pg + 1) }
      let s2 := s1.setFile f0 { s.ftable f0 with type := .pipe, readable := true, writable := false, pipe := pg }
      let s3 := s2.setFile f1 { s2.ftable f1 with type := .pipe, readable := false, writable := true, pipe := pg }
      refine ⟨s3, by simp only [exec, if_neg hused, s3, s2, s1], rfl, by simp [s3, s2, s1],
        fun pg' hpg => by simp [s3, s2, s1, hpg], rfl, fun pg' => ?_, fun g hg0 hg1 => by simp [s3, s2, s1, hg0, hg1],
        fun g => ?_, by simp [s3, s2, hne, File.pipeEnd], by simp [s3, File.pipeEnd]⟩
      · by_cases hpg : pg' = pg <;> simp [s3, s2, s1, hpg]
      simp only [s3, s2, s1, setFile_ftable]
      grind
    have hno : ∀ w x, ¬Carries s pg w x := by
      intro w x hx
      have hopen := (hi.ends pg w).mpr ⟨x, hx⟩
      rw [isOpen_none hfree] at hopen
      cases hopen
    have hcarries : ∀ pg' w x, Carries s' pg' w x ↔
        Carries s pg' w x ∨ (pg' = pg ∧ x = .file (if w then f1 else f0)) := by
      intro pg' w x
      cases x with
      | closer r => simp [carries_closer, hprocs]
      | file g =>
        rw [carries_file, carries_file, href]
        by_cases hg0 : g = f0
        · subst hg0
          rw [htype.1, h0.not_end]
          have hpos := hi.ref_pos h0.mem
          cases w <;> simp [hpos, hne, @eq_comm _ pg pg']
        by_cases hg1 : g = f1
        · subst hg1
          rw [htype.2, h1.not_end]
          have hpos := hi.ref_pos h1.mem
          cases w <;> simp [hpos, hne.symm, @eq_comm _ pg pg']
        · rw [hfile g hg0 hg1]
          cases w <;> simp [hg0, hg1]
    have hpos0 := hi.ref_pos h0.mem
    have hpos1 := hi.ref_pos h1.mem
    refine .of_eq he ⟨?_, ?_, ?_, fun g hg => ?_, fun pg' w => ?_, fun pg' w x y hx hy => ?_, fun pg' x hx => ?_,
      fun pg' => ?_⟩
      (fun q hq => fresh_env (G := [f0, f1]) h hprocs
        (fun g hg => hfile g (fun he => hg (by simp [he])) fun he => hg (by simp [he])) (by simp [h0, h1]) hq)
      (h.same hprocs)
    · simp only [href, hprocs]
      exact hi.count
    · rw [hprocs]
      exact hi.out
    · rw [hprocs]
      exact hi.empty
    · have hnone := hi.none g
      grind
    · simp only [hcarries]
      by_cases hpg : pg' = pg
      · subst hpg
        rw [isOpen_some hpage]
        simp only [true_and, ite_self, true_iff]
        exact ⟨_, .inr rfl⟩
      · have hsame : isOpen s' pg' w = isOpen s pg' w := by
          unfold isOpen
          rw [hother pg' hpg]
        rw [hsame, hi.ends pg' w]
        simp [hpg]
    · rcases (hcarries pg' w x).mp hx with hx | ⟨hpg, rfl⟩ <;> rcases (hcarries pg' w y).mp hy with hy | ⟨hpg', rfl⟩
      · exact hi.sole pg' w x y hx hy
      · exact absurd (hpg' ▸ hx) (hno w x)
      · exact absurd (hpg ▸ hy) (hno w y)
      · rfl
    · have hold := hi.used pg' x
      grind
    · have hm := hi.made pg'
      rw [hmade, hfreed]
      grind

/-! ## Processes -/

lemma Proc.Tidy.congr {x y : Proc} (h : x.Tidy) (hofile : y.ofile = x.ofile) (hrefs : y.refs = x.refs)
    (hclosing : y.closing = x.closing) : y.Tidy := by
  refine ⟨hclosing.trans h.1, fun f => ?_⟩
  rw [hrefs, Proc.slots_congr hofile]
  exact h.2 f

lemma Proc.Empty.congr {x y : Proc} (h : x.Empty) (hofile : y.ofile = x.ofile) (hrefs : y.refs = x.refs)
    (hclosing : y.closing = x.closing) : y.Empty :=
  ⟨h.1.congr hofile hrefs hclosing, by rw [hofile]; exact h.2⟩

lemma env_of_slot {st : ProcState} {m : Nat} (hlive : (s.procs q).state = .live → q ≠ i) (hmaking : ¬Making q i s) :
    Env q s (s.setProc i { s.procs i with state := st, maker := m }) := by
  have hget : ∀ r, (s.setProc i { s.procs i with state := st, maker := m }).procs r =
      if r = i then { s.procs i with state := st, maker := m } else s.procs r := fun r => setProc_procs s i r _
  have htidy : (s.procs i).Tidy → ({ s.procs i with state := st, maker := m } : Proc).Tidy := (·.congr rfl rfl rfl)
  constructor <;> grind [setProc_ftable]

/-- The child that `p` is making: its descriptors from `k` on are not set yet. -/
structure Child (nproc p np k : Nat) (s : State) : Prop where
  lt : np < nproc
  making : Making p np s
  tidy : (s.procs np).Tidy
  none : ∀ fd, k ≤ fd → fd < NOFILE → (s.procs np).ofile fd = none

lemma Child.env {k : Nat} (he : Env p s s') (h : Child nproc p np k s) : Child nproc p np k s' := by
  have hsame := he.making np h.making
  obtain ⟨hlt, hmaking, htidy, hnone⟩ := h
  constructor <;> grind [Making]

lemma wp_allocproc (hs : Own nproc p K s) :
    Spec nproc p (act .allocproc) (fun r s => Own nproc p K s ∧ match r with
      | none => True
      | some np => Child nproc p np 0 s) s := by
  refine wp_own hs fun s hi h => ?_
  cases hfind : (List.range nproc).find? fun i => (s.procs i).state = .unused with
  | none =>
    have he : exec nproc p .allocproc s = .next none s := by
      simp only [exec, hfind]
    exact .of_look he hi ⟨h, trivial⟩
  | some np =>
    have hlt : np < nproc := List.mem_range.mp (List.mem_of_find?_eq_some hfind)
    have hunused : (s.procs np).state = .unused := by simpa using List.find?_some hfind
    have hne : p ≠ np := by
      rintro rfl
      rw [h.live] at hunused
      cases hunused
    have he : exec nproc p .allocproc s =
        .next (some np) (s.setProc np { s.procs np with state := .embryo, maker := p }) := by
      simp only [exec, hfind]
    have hempty := hi.empty np (.inl hunused)
    refine .of_eq he (hi.setProc rfl rfl fun hst => by simp at hst)
      (fun q hq => env_of_slot (fun hl => ?_) fun hm => ?_)
      ⟨h.setProc hne, hlt, ?_, ?_, fun fd _ hfd => ?_⟩
    · grind
    · grind [Making]
    · simp [Making]
    · rw [setProc_procs, if_pos rfl]
      exact hempty.1.congr rfl rfl rfl
    · rw [setProc_procs, if_pos rfl]
      exact hempty.2 fd hfd

lemma wp_child {a : Act} {k : Nat} {U : a.Res → State → Prop} (hs : Own nproc p K s) (hc : Child nproc p np k s)
    (h : ∀ s, Inv nproc s → Own nproc p K s → Child nproc p np k s → p ≠ np → Good nproc p a U s) :
    Spec nproc p (act a) U s := by
  refine wp_step (S := fun s => Own nproc p K s ∧ Child nproc p np k s) ⟨hs, hc⟩
    (fun s s' he h => ⟨h.1.env he, h.2.env he⟩) fun s hi ⟨ho, hc⟩ => h s hi ho hc ?_
  rintro rfl
  have hst := hc.making.1
  rw [ho.live] at hst
  cases hst

lemma Child.later {k l : Nat} (hc : Child nproc p np k s) (hl : k ≤ l) : Child nproc p np l s :=
  ⟨hc.lt, hc.making, hc.tidy, fun fd hfd => hc.none fd (hl.trans hfd)⟩

lemma Child.not_live {k : Nat} (hc : Child nproc p np k s) (hl : (s.procs q).state = .live) : q ≠ np := by
  rintro rfl
  rw [hc.making.1] at hl
  cases hl

lemma Child.gain {k : Nat} (hc : Child nproc p np k s) (hl : (s.procs p).state = .live) :
    Child nproc p np k (gain p f s) := by
  have hsame : (Ftable.gain p f s).procs np = s.procs np := by simp [Ftable.gain, (hc.not_live hl).symm]
  obtain ⟨hlt, hmaking, htidy, hnone⟩ := hc
  constructor <;> grind [Making]

lemma Child.not_making {k : Nat} (hc : Child nproc p np k s) (hq : q ≠ p) : ¬Making q np s :=
  fun hm => hq (hm.2.symm.trans hc.making.2)

lemma wp_unuse (hs : Own nproc p K s) (hc : Child nproc p np 0 s) :
    Spec nproc p (act (.unuse np)) (fun _ => Own nproc p K) s := by
  refine wp_child hs hc fun s hi h hc hne => ?_
  exact .of_eq rfl
    (hi.setProc rfl rfl fun _ => ⟨hc.tidy.congr rfl rfl rfl, fun fd hfd => hc.none fd (Nat.zero_le _) hfd⟩)
    (fun q hq => env_of_slot hc.not_live (hc.not_making hq)) (h.setProc hne)

lemma wp_runnable {k : Nat} (hs : Own nproc p K s) (hc : Child nproc p np k s) :
    Spec nproc p (act (.runnable np)) (fun _ => Own nproc p K) s := by
  refine wp_child hs hc fun s hi h hc hne => ?_
  exact .of_eq rfl (hi.setProc rfl rfl fun hst => by simp at hst)
    (fun q hq => env_of_slot hc.not_live (hc.not_making hq)) (h.setProc hne)

lemma wp_childFile (hfd : fd < NOFILE) (hs : Own nproc p (fun q => q.Has (f :: F) [] ∧ K q) s)
    (hK : ∀ q x, K q → K { q with refs := x }) (hc : Child nproc p np fd s) :
    Spec nproc p (act (.childFile np fd f))
      (fun _ s => Own nproc p (fun q => q.Has F [] ∧ K q) s ∧ Child nproc p np (fd + 1) s) s := by
  refine wp_child hs hc fun s hi h hc hne => ?_
  have hf : f ∈ (s.procs p).refs := h.knows.1.mem
  let parent : Proc := { s.procs p with refs := (s.procs p).refs.erase f }
  let child : Proc := { s.procs np with ofile := (s.procs np).ofile.set fd (some f), refs := f :: (s.procs np).refs }
  let s' := (s.setProc p parent).setProc np child
  have he : exec nproc p (.childFile np fd f) s = .next () s' := by
    simp only [exec, setProc_procs, if_neg hne.symm, s', parent, child]
  have hnp : s'.procs np = child := by simp [s']
  have hp : s'.procs p = parent := by simp [s', hne]
  have hother : ∀ q, q ≠ p → q ≠ np → s'.procs q = s.procs q := fun q hq hq' => by simp [s', hq, hq']
  have htidy : child.Tidy := by
    refine ⟨hc.tidy.1, fun g => ?_⟩
    have hset : child.slots g + _ = (s.procs np).slots g + _ := Proc.slots_set hfd rfl g
    have hg := hc.tidy.2 g
    rw [hc.none fd (Nat.le_refl _) hfd] at hset
    simp only [reduceCtorEq, if_false] at hset
    change (f :: (s.procs np).refs).count g = child.slots g
    rw [count_cons_some]
    omega
  -- what the parent gives up is what the child gets
  have hcount : ∀ g, ∑ q ∈ Finset.range nproc, (s'.procs q).refs.count g =
      ∑ q ∈ Finset.range nproc, (s.procs q).refs.count g := by
    intro g
    have h1 := sum_refs s (s.setProc p parent) h.lt (fun q hq => by simp [hq]) g
    have h2 := sum_refs (s.setProc p parent) s' hc.lt (fun q hq => by simp [s', hq]) g
    have he := count_erase hf g
    have hr1 : ((s.setProc p parent).procs p).refs = (s.procs p).refs.erase f := by simp [parent]
    have hr2 : ((s.setProc p parent).procs np).refs = (s.procs np).refs := by simp [hne.symm]
    have hr3 : (s'.procs np).refs = f :: (s.procs np).refs := by rw [hnp]
    rw [hr1] at h1
    rw [hr2, hr3, count_cons_some] at h2
    simp only [Option.some.injEq] at h2
    omega
  have hends := hi.keep_ends (t := s') rfl fun pg w x => by
    cases x with
    | file g => rfl
    | closer q =>
      rw [carries_closer, carries_closer]
      grind
  have hlive := h.live
  have hmaking := hc.making
  have hout := hi.out
  have hempty := hi.empty
  refine .of_eq he ⟨fun g => ?_, fun q hq => ?_, fun q hst => ?_, hi.none, hends.1, hends.2, hi.used, hi.made⟩
    (fun q hq => ⟨fun hl => ?_, fun _ _ _ => rfl, fun hl g hg hsole r hr => ?_, fun np' hm => ?_, fun ht => ?_⟩)
    ⟨⟨h.lt, ?_, ?_, ?_⟩, hc.lt, ?_, ?_, fun fd' hle hlt => ?_⟩
  · rw [hcount]
    exact hi.count g
  · have h1 := h.lt
    have h2 := hc.lt
    rw [hother q (by omega) (by omega)]
    exact hout q hq
  · grind [Making]
  · exact hother q hq (hc.not_live hl)
  · -- a file that only `q` has is not the one that is passed on
    by_cases hrp : r = p
    · rw [hrp, hp]
      exact fun hm => hsole p (Ne.symm hq) (List.mem_of_mem_erase hm)
    grind
  · grind [Making]
  · grind
  · rw [hp]
    exact hlive
  · rw [hp]
    refine ⟨h.knows.1.1, fun g => ?_⟩
    have hg := h.knows.1.2 g
    have he := count_erase hf g
    rw [count_cons_some] at hg
    simp only [Option.some.injEq] at hg
    change ((s.procs p).refs.erase f).count g + _ = (s.procs p).slots g + _
    omega
  · rw [hp]
    exact hK _ _ h.knows.2
  · grind [Making]
  · rw [hnp]
    exact htidy
  · rw [hnp]
    change ((s.procs np).ofile.set fd (some f)) fd' = none
    rw [Table.get_set_ne _ _ (by omega)]
    exact hc.none fd' (by omega) hlt

lemma wp_zombie (hs : Own nproc p (fun q => q.Has [] [] ∧ ∀ fd, fd < NOFILE → q.ofile fd = none) s) :
    Spec nproc p (act .zombie) (fun _ s => (s.procs p).Tidy) s := by
  refine wp_own hs fun s hi h => ?_
  have htidy := Proc.has_nil.mp h.knows.1
  refine .of_eq rfl (hi.setProc rfl rfl fun _ => ⟨htidy.congr rfl rfl rfl, h.knows.2⟩)
    (fun q hq => env_of_own h.live (fun r hr => by rw [setProc_procs, if_neg hr]) (fun _ _ _ _ => rfl)
      (fun g hg => ?_) hq) ?_
  · rw [setProc_procs, if_pos rfl] at hg
    exact .inl hg
  · rw [setProc_procs, if_pos rfl]
    exact htidy.congr rfl rfl rfl

lemma wp_reap (hs : Own nproc p K s) :
    Spec nproc p (act (.reap i)) (fun _ => Own nproc p K) s := by
  refine wp_own hs fun s hi h => ?_
  by_cases hz : (s.procs i).state = .zombie
  · have he : exec nproc p (.reap i) s = .next () (s.setProc i { s.procs i with state := .unused }) := by
      simp only [exec, if_pos hz]
    have hne : ∀ q, (s.procs q).state = .live → q ≠ i := by grind
    refine .of_eq he (hi.setProc rfl rfl fun _ => (hi.empty i (.inr hz)).congr rfl rfl rfl)
      (fun q hq => env_of_slot (hne q) fun hm => ?_) (h.setProc (hne p h.live))
    grind [Making]
  · have he : exec nproc p (.reap i) s = .next () s := by
      simp only [exec, if_neg hz]
    exact .of_look he hi h

/-! ## System calls -/

lemma fileclose_any (hs : Own nproc p (fun q => q.Has F D ∧ f ∈ q.refs) s) :
    Spec nproc p (fileclose f) (fun _ => Own nproc p (Proc.Has F (f :: D))) s :=
  wp_mono (fileclose_spec (O := fun _ => True) (hs.mono fun _ h => ⟨⟨h.1, trivial⟩, h.2⟩))
    fun _ _ h => h.mono fun _ hq => hq.1

lemma Proc.Has.swap {q : Proc} (h : q.Has (f :: g :: F) D) : q.Has (g :: f :: F) D := by
  refine ⟨h.1, fun x => ?_⟩
  have hx := h.2 x
  rw [count_cons_some, count_cons_some] at hx ⊢
  omega

lemma fileclose_hand (hs : Own nproc p (Proc.Has (f :: F) []) s) :
    Spec nproc p (fileclose f) (fun _ => Own nproc p (Proc.Has F [])) s :=
  wp_mono (fileclose_any (hs.mono fun _ h => ⟨h, h.mem⟩)) fun _ _ h => h.mono fun _ hq => hq.cancel

lemma argfd_spec (fd : Int) (hs : Own nproc p (Proc.Has [] []) s) :
    Spec nproc p (argfd fd) (fun r => Own nproc p fun q => q.Has [] [] ∧
      ∀ f, r = some f → fd.toNat < NOFILE ∧ q.ofile fd.toNat = some f) s := by
  unfold argfd
  by_cases hfd : fd < 0 ∨ (NOFILE : Int) ≤ fd
  · rw [if_pos hfd]
    exact wp_ret (hs.mono fun _ h => ⟨h, nofun⟩)
  · rw [if_neg hfd]
    refine wp_mono (wp_ofile fd.toNat hs) fun r _ h => h.mono fun q hq => ⟨hq.1, fun f hr => ⟨by omega, ?_⟩⟩
    rw [hq.2, hr]

lemma sysDup_spec (fd : Int) (hs : Own nproc p (Proc.Has [] []) s) :
    Spec nproc p (sysDup fd) (fun _ => Own nproc p (Proc.Has [] [])) s := by
  refine wp_seq (argfd_spec fd hs) fun r _ h => ?_
  cases r with
  | none => exact wp_ret (h.mono fun _ hq => hq.1)
  | some f =>
    -- the descriptor comes before the reference; the file stays in use by the old descriptor
    have hmem : Own nproc p (fun q => q.Has [] [] ∧ f ∈ q.refs) _ := h.mono fun q hq => by
      obtain ⟨hfd, ho⟩ := hq.2 f rfl
      exact ⟨hq.1, (Proc.has_nil.mp hq.1).mem hfd ho⟩
    refine wp_seq (wp_fdalloc (R := fun _ => True) ⟨hmem, trivial⟩ (fun _ _ hk _ => hk) (fun _ _ _ _ h => h)
      fun _ _ _ h => h) fun r _ h => ?_
    cases r with
    | none => exact wp_ret (h.1.mono fun _ hq => hq.1)
    | some fd' =>
      refine wp_seq (wp_filedup (R := fun _ => True) ⟨h.1.mono fun _ hq => ⟨hq.1, hq.2.1⟩, trivial⟩ (fun _ _ _ h => h)
        fun _ _ h => h) fun _ _ h => ?_
      exact wp_ret (h.1.mono fun _ hq => hq.cancel)

lemma sysClose_spec (fd : Int) (hs : Own nproc p (Proc.Has [] []) s) :
    Spec nproc p (sysClose fd) (fun _ => Own nproc p (Proc.Has [] [])) s := by
  refine wp_seq (argfd_spec fd hs) fun r _ h => ?_
  cases r with
  | none => exact wp_ret (h.mono fun _ hq => hq.1)
  | some f =>
    have hfd := (h.knows.2 f rfl).1
    refine wp_seq (wp_clear (K := fun _ => True) (L := fun _ => True) hfd
      (h.mono fun _ hq => ⟨hq.1, (hq.2 f rfl).2, trivial⟩) fun _ _ _ _ _ => trivial) fun _ _ h => ?_
    exact fileclose_hand (h.mono fun _ hq => hq.1)

lemma sysOpen_spec (found : Option Nat) (omode : UInt32) (hs : Own nproc p (Proc.Has [] []) s) :
    Spec nproc p (sysOpen found omode) (fun _ => Own nproc p (Proc.Has [] [])) s := by
  cases found with
  | none => exact wp_ret hs
  | some ip =>
    refine wp_seq (wp_filealloc (G := []) hs nofun) fun r _ h => ?_
    cases r with
    | none => exact wp_ret h.1
    | some f =>
      refine wp_seq (wp_fdalloc (K := fun _ => True) (R := Fresh p f)
        ⟨h.1.mono fun _ hq => ⟨hq, trivial⟩, h.2.2 f List.mem_cons_self⟩ (fun _ _ hk _ => hk)
        (fun _ _ he hl hf => hf.env hl he) fun _ _ hx hf => hf.setProc hx) fun r _ h => ?_
      cases r with
      | none => exact fileclose_hand (h.1.mono fun _ hq => hq.1)
      | some fd => exact wp_openInode (h.1.mono fun _ hq => hq.1.cancel) h.2

lemma pipealloc_spec (page : Option Nat) (hs : Own nproc p (Proc.Has [] []) s) :
    Spec nproc p (pipealloc page) (fun r => Own nproc p (match r with
      | none => Proc.Has [] []
      | some (rf, wf) => Proc.Has [rf, wf] [])) s := by
  refine wp_seq (wp_filealloc (G := []) hs nofun) fun r _ h => ?_
  cases r with
  | none => exact wp_ret h.1
  | some f0 =>
    refine wp_seq (wp_filealloc (G := [f0]) h.1 h.2.2) fun r _ h => ?_
    cases r with
    | none => exact wp_seq (fileclose_hand h.1) fun _ _ h => wp_ret h
    | some f1 =>
      obtain ⟨hhas, hne, hfresh⟩ := h
      have hswap : Own nproc p (Proc.Has [f0, f1] []) _ := hhas.mono fun q hq => hq.swap
      refine wp_seq (wp_newPipe hswap (hfresh f0 (by simp)) (hfresh f1 (by simp))
        fun he => hne (by simp [he])) fun r _ h => ?_
      cases r with
      | true => exact wp_ret h
      | false =>
        refine wp_seq (fileclose_hand h) fun _ _ h => ?_
        exact wp_seq (fileclose_hand h) fun _ _ h => wp_ret h

lemma sysPipe_spec (arg : Bool) (page : Option Nat) (hs : Own nproc p (Proc.Has [] []) s) :
    Spec nproc p (sysPipe arg page) (fun _ => Own nproc p (Proc.Has [] [])) s := by
  cases arg with
  | false => exact wp_ret hs
  | true =>
    refine wp_seq (pipealloc_spec page hs) fun r _ h => ?_
    cases r with
    | none => exact wp_ret h
    | some fs =>
      obtain ⟨rf, wf⟩ := fs
      have hboth : ∀ s, Own nproc p (Proc.Has [rf, wf] []) s →
          Spec nproc p (do fileclose rf; fileclose wf; return (-1 : Int)) (fun _ => Own nproc p (Proc.Has [] [])) s :=
        fun s h => wp_seq (fileclose_hand h) fun _ _ h => wp_seq (fileclose_hand h) fun _ _ h => wp_ret h
      refine wp_seq (wp_fdalloc (K := fun _ => True) (R := fun _ => True) ⟨h.mono fun _ hq => ⟨hq, trivial⟩, trivial⟩
        (fun _ _ hk _ => hk) (fun _ _ _ _ h => h) fun _ _ _ h => h) fun r _ h => ?_
      cases r with
      | none => exact hboth _ (h.1.mono fun _ hq => hq.1)
      | some fd0 =>
        have hfd := h.1.knows.2.2.1
        refine wp_seq (wp_fdalloc (K := fun q => q.ofile fd0 = some rf) (R := fun _ => True)
          ⟨h.1.mono fun _ hq => ⟨hq.1.cancel, hq.2.2.2⟩, trivial⟩ (fun q fd hk hnone => ?_) (fun _ _ _ _ h => h)
          fun _ _ _ h => h) fun r _ h => ?_
        · have hne : fd0 ≠ fd := by
            rintro rfl
            rw [hk] at hnone
            cases hnone
          exact (Table.get_set_ne _ _ hne).trans hk
        cases r with
        | none =>
          refine wp_seq (wp_clear (K := fun _ => True) (L := fun _ => True) hfd
            (h.1.mono fun _ hq => ⟨hq.1, hq.2, trivial⟩) fun _ _ _ _ _ => trivial) fun _ _ h => ?_
          exact hboth _ (h.mono fun _ hq => hq.1)
        | some fd1 => exact wp_ret (h.1.mono fun _ hq => hq.1.cancel)

lemma copyFiles_spec (n i : Nat) (hn : i + n = NOFILE) (hs : Own nproc p (Proc.Has [] []) s)
    (hc : Child nproc p np i s) :
    Spec nproc p (copyFiles np n i)
      (fun _ s => Own nproc p (Proc.Has [] []) s ∧ Child nproc p np NOFILE s) s := by
  induction n generalizing i s with
  | zero =>
    obtain rfl : i = NOFILE := by omega
    exact wp_ret ⟨hs, hc⟩
  | succ n ih =>
    have hi : i < NOFILE := by omega
    have hread : Spec nproc p (act (.ofile i)) (fun r s =>
        Own nproc p (fun q => q.Has [] [] ∧ q.ofile i = r) s ∧ Child nproc p np i s) s :=
      wp_child hs hc fun s hinv h hc _ => .of_look rfl hinv ⟨⟨h.lt, h.live, h.knows, rfl⟩, hc⟩
    refine wp_seq hread fun r _ h => ?_
    cases r with
    | none => exact ih (i + 1) (by omega) (h.1.mono fun _ hq => hq.1) (h.2.later (Nat.le_succ i))
    | some f =>
      have hmem : Own nproc p (fun q => q.Has [] [] ∧ f ∈ q.refs) _ :=
        h.1.mono fun q hq => ⟨hq.1, (Proc.has_nil.mp hq.1).mem hi hq.2⟩
      refine wp_seq (wp_filedup (R := Child nproc p np i) ⟨hmem, h.2⟩ (fun _ _ he hc => hc.env he)
        fun _ hl hc => hc.gain hl) fun _ _ h => ?_
      refine wp_seq (wp_childFile (K := fun _ => True) hi (h.1.mono fun _ hq => ⟨hq, trivial⟩)
        (fun _ _ _ => trivial) h.2)
        fun _ _ h => ?_
      exact ih (i + 1) (by omega) (h.1.mono fun _ hq => hq.1) h.2

lemma fork_spec (mem : Bool) (hs : Own nproc p (Proc.Has [] []) s) :
    Spec nproc p (fork mem) (fun _ => Own nproc p (Proc.Has [] [])) s := by
  refine wp_seq (wp_allocproc hs) fun r _ h => ?_
  cases r with
  | none => exact wp_ret h.1
  | some np =>
    cases mem with
    | true => exact wp_seq (copyFiles_spec NOFILE 0 (Nat.zero_add _) h.1 h.2) fun _ _ h => wp_runnable h.1 h.2
    | false => exact wp_unuse h.1 h.2

lemma closeFiles_spec (n i : Nat) (hn : i + n = NOFILE)
    (hs : Own nproc p (fun q => q.Has [] [] ∧ ∀ fd, fd < i → q.ofile fd = none) s) :
    Spec nproc p (closeFiles n i)
      (fun _ => Own nproc p fun q => q.Has [] [] ∧ ∀ fd, fd < NOFILE → q.ofile fd = none) s := by
  induction n generalizing i s with
  | zero =>
    obtain rfl : i = NOFILE := by omega
    exact wp_ret hs
  | succ n ih =>
    have hi : i < NOFILE := by omega
    refine wp_seq (wp_ofile i hs) fun r _ h => ?_
    cases r with
    | none =>
      refine ih (i + 1) (by omega) (h.mono fun q hq => ⟨hq.1.1, fun fd hfd => ?_⟩)
      by_cases hfi : fd = i
      · rw [hfi]
        exact hq.2
      · exact hq.1.2 fd (by omega)
    | some f =>
      -- the reference is given up while the descriptor still stands for it
      refine wp_seq (fileclose_spec (O := fun o => o i = some f ∧ ∀ fd, fd < i → o fd = none)
        (h.mono fun q hq => ⟨⟨hq.1.1, hq.2, hq.1.2⟩, (Proc.has_nil.mp hq.1.1).mem hi hq.2⟩)) fun _ _ h => ?_
      refine wp_seq (wp_clear (K := fun q => ∀ fd, fd < i → q.ofile fd = none)
        (L := fun q => ∀ fd, fd < i → q.ofile fd = none)
        hi h fun q q' hk _ ho fd hfd => ?_) fun _ _ h => ?_
      · rw [ho, Table.get_set_ne _ _ (by omega)]
        exact hk fd hfd
      refine ih (i + 1) (by omega) (h.mono fun q hq => ⟨hq.1.cancel, fun fd hfd => ?_⟩)
      by_cases hfi : fd = i
      · rw [hfi]
        exact hq.2.1
      · exact hq.2.2 fd (by omega)

lemma exit_spec (hs : Own nproc p (Proc.Has [] []) s) :
    Spec nproc p exit (fun _ s => (s.procs p).Tidy) s := by
  refine wp_seq (wp_own (U := fun _ => Own nproc p (Proc.Has [] [])) hs fun s hi h => .of_look rfl hi h) fun r _ h => ?_
  by_cases hr : r = initproc
  · rw [if_pos hr]
    refine wp_own h fun s hi h => ⟨fun e he => ?_, fun r s' he => ?_⟩
    · exact (Outcome.stop.inj he).symm
    · cases he
  · rw [if_neg hr]
    refine wp_seq (closeFiles_spec NOFILE 0 (Nat.zero_add _) (h.mono fun q hq => ⟨hq, nofun⟩)) fun _ _ h => ?_
    exact wp_zombie h

lemma call_spec (x : Call) (hlt : p < nproc) (hlive : (s.procs p).state = .live) (htidy : (s.procs p).Tidy) :
    Spec nproc p x.body (fun _ s => (s.procs p).Tidy) s := by
  have hs : Own nproc p (Proc.Has [] []) s := ⟨hlt, hlive, Proc.has_nil.mpr htidy⟩
  have hend : ∀ (_ : Unit) (s' : State), Own nproc p (Proc.Has [] []) s' → (s'.procs p).Tidy :=
    fun _ _ h => Proc.has_nil.mp h.knows
  cases x with
  | «open» found omode => exact wp_mono (sysOpen_spec found omode hs) hend
  | pipe arg page => exact wp_seq (sysPipe_spec arg page hs) fun _ _ h => wp_ret (hend () _ h)
  | dup fd => exact wp_seq (sysDup_spec fd hs) fun _ _ h => wp_ret (hend () _ h)
  | close fd => exact wp_mono (sysClose_spec fd hs) hend
  | fork mem => exact wp_mono (fork_spec mem hs) hend
  | exit => exact exit_spec hs
  | wait i => exact wp_mono (wp_reap hs) hend

/-! ## All runs -/

lemma boot_procs (p : Nat) :
    (boot.procs p).refs = [] ∧ (boot.procs p).closing = none ∧ (boot.procs p).ofile = .const none := by
  simp only [boot, Table.get_set]
  split <;> exact ⟨rfl, rfl, rfl⟩

lemma boot_empty (p : Nat) : (boot.procs p).Empty := by
  obtain ⟨hrefs, hclosing, hofile⟩ := boot_procs p
  refine ⟨⟨hclosing, fun f => ?_⟩, fun fd _ => by rw [hofile]; rfl⟩
  rw [hrefs, Proc.slots, hofile]
  simp

lemma boot_inv (nproc : Nat) : Inv nproc boot := by
  have hno : ∀ pg w x, ¬Carries boot pg w x := by
    intro pg w x hx
    cases x with
    | file f => exact absurd hx.1 (Nat.lt_irrefl 0)
    | closer p =>
      rw [carries_closer, (boot_procs p).2.1] at hx
      cases hx
  refine ⟨fun f => ?_, fun p _ => (boot_procs p).1, fun p _ => boot_empty p, fun _ _ => rfl, fun pg w => ?_,
    fun pg w x _ hx => absurd hx (hno pg w x), nofun, fun _ => rfl⟩
  · simp only [(boot_procs _).1, List.count_nil, Finset.sum_const_zero]
    rfl
  · simp only [hno, exists_false, iff_false]
    exact Bool.false_ne_true

/-- What the calls on descriptors reach from boot, in any order. -/
abbrev Run (nproc : Nat) (k : Config Nat Act Act.Res State Panic) : Prop :=
  Reaches (machine nproc) (fun _ _ _ => True) (.initial boot) k

lemma run_sound {k : Config Nat Act Act.Res State Panic} (h : Run nproc k) : (logic nproc).Sound (machine nproc) k :=
  Logic.sound Env.refl (fun _ _ _ _ => Env.trans) (fun _ _ _ => Env.tidy)
    (fun _ x _ _ htidy hc => call_spec x hc.1 hc.2 htidy) (boot_inv nproc) (fun p => (boot_empty p).1) h

/-- The places in descriptor tables that name file `f`. -/
def slotsOf (nproc : Nat) (s : State) (f : Nat) : Finset (Nat × Nat) :=
  (Finset.range nproc ×ˢ Finset.range NOFILE).filter fun x => (s.procs x.1).ofile x.2 = some f

lemma card_slotsOf (nproc : Nat) (s : State) (f : Nat) :
    (slotsOf nproc s f).card = ∑ p ∈ Finset.range nproc, (s.procs p).slots f := by
  rw [slotsOf, Finset.card_filter, Finset.sum_product]
  rfl

lemma Inv.in_slot (hi : Inv nproc s) (htidy : ∀ p, (s.procs p).Tidy) (hpos : 0 < (s.ftable f).ref) :
    ∃ p fd, p < nproc ∧ fd < NOFILE ∧ (s.procs p).ofile fd = some f := by
  rw [hi.count f] at hpos
  obtain ⟨p, hp, hc⟩ := Finset.exists_ne_zero_of_sum_ne_zero (Nat.pos_iff_ne_zero.mp hpos)
  rw [(htidy p).2 f] at hc
  obtain ⟨fd, hfd, ho⟩ := Proc.slots_pos (Nat.pos_of_ne_zero hc)
  exact ⟨p, fd, Finset.mem_range.mp hp, hfd, ho⟩

/-- When no call is in progress, `ref` of each file is the number of descriptors that stand for it, and an
end of a pipe is open exactly if a descriptor stands for it. At any time each pipe has been freed
once, or not at all while a file in use is one of its ends, and no panic is reached. -/
theorem open_files_counted (nproc : Nat) (k : Config Nat Act Act.Res State Panic) (h : Run nproc k) :
    (∀ e, k.stopped = some e → e = .initExiting) ∧
    (∀ pg, k.st.made pg = k.st.freed pg + if (k.st.pages pg).isSome then 1 else 0) ∧
    (∀ f pg w, 0 < (k.st.ftable f).ref → (k.st.ftable f).pipeEnd = some (pg, w) → (k.st.pages pg).isSome) ∧
    ((∀ p, k.thread p = none) →
      (∀ f, (k.st.ftable f).ref = (slotsOf nproc k.st f).card) ∧
      (∀ pg w, isOpen k.st pg w = true ↔ ∃ p fd f, p < nproc ∧ fd < NOFILE ∧ (k.st.procs p).ofile fd = some f ∧
        (k.st.ftable f).pipeEnd = some (pg, w)) ∧
      ∀ pg, (k.st.pages pg).isSome ↔ isOpen k.st pg false = true ∨ isOpen k.st pg true = true) := by
  have hs := run_sound h
  have hi : Inv nproc k.st := hs.inv
  refine ⟨hs.stopped, hi.made, fun f pg w hpos he => ?_, fun hidle => ?_⟩
  · have hopen := (hi.ends pg w).mpr ⟨.file f, hpos, he⟩
    cases hpage : k.st.pages pg with
    | some x => rfl
    | none =>
      rw [isOpen_none hpage] at hopen
      cases hopen
  have htidy : ∀ p, (k.st.procs p).Tidy := fun p => hs.idle p (hidle p)
  refine ⟨fun f => ?_, fun pg w => ?_, fun pg => ⟨fun hpage => ?_, fun hopen => ?_⟩⟩
  · rw [card_slotsOf, hi.count f]
    exact Finset.sum_congr rfl fun p _ => (htidy p).2 f
  · rw [hi.ends pg w]
    constructor
    · rintro ⟨x, hx⟩
      cases x with
      | file f =>
        obtain ⟨p, fd, hp, hfd, ho⟩ := hi.in_slot htidy hx.1
        exact ⟨p, fd, f, hp, hfd, ho, hx.2⟩
      | closer p =>
        rw [carries_closer, (htidy p).1] at hx
        cases hx
    · rintro ⟨p, fd, f, -, hfd, ho, he⟩
      exact ⟨.file f, hi.ref_pos ((htidy p).mem hfd ho), he⟩
  · obtain ⟨x, hx⟩ := Option.isSome_iff_exists.mp hpage
    rw [isOpen_some hx, isOpen_some hx]
    exact hi.used pg x hx
  · cases hpage : k.st.pages pg with
    | some x => rfl
    | none =>
      rw [isOpen_none hpage, isOpen_none hpage] at hopen
      simp at hopen

instance (nproc : Nat) (s : State) (p : Nat) : Decidable ((machine nproc).canCall s p) :=
  inferInstanceAs (Decidable (p < nproc ∧ (s.procs p).state = .live))

/-- Init makes a pipe and forks; it closes its write end and the child exits, which closes the last
descriptor of that end. -/
def pipeRun : List (Turn Nat Call) :=
  [.call 0 (.pipe true (some 5)) 100, .call 0 (.fork true) 100, .call 0 (.close 1) 100, .call 1 .exit 100]

def afterPipe : Config Nat Act Act.Res State Panic :=
  Config.play (machine 64) (fun _ _ _ => True) (.initial boot) pipeRun

lemma run_afterPipe : Run 64 afterPipe := by
  unfold afterPipe
  exact Config.play_reaches _ _

lemma afterPipe_idle (p : Nat) : afterPipe.thread p = none := by
  by_cases h0 : p = 0
  · subst h0
    have h : (afterPipe.thread 0).isNone = true := by decide +kernel
    simpa using h
  by_cases h1 : p = 1
  · subst h1
    have h : (afterPipe.thread 1).isNone = true := by decide +kernel
    simpa using h
  unfold afterPipe
  rw [Config.play_thread]
  · rfl
  intro t ht
  simp only [pipeRun, List.mem_cons, List.not_mem_nil, or_false] at ht
  rcases ht with rfl | rfl | rfl | rfl
  · exact h0
  · exact h0
  · exact h0
  · exact h1

theorem open_files_counted_pipe :
    (afterPipe.st.ftable 0).ref = 1 ∧ (slotsOf 64 afterPipe.st 0).card = 1 ∧ isOpen afterPipe.st 5 true = false ∧
      ∃ p fd f, p < 64 ∧ fd < NOFILE ∧ (afterPipe.st.procs p).ofile fd = some f ∧
        (afterPipe.st.ftable f).pipeEnd = some (5, false) := by
  have href : (afterPipe.st.ftable 0).ref = 1 := by decide +kernel
  have hread : isOpen afterPipe.st 5 false = true := by decide +kernel
  have hwrite : isOpen afterPipe.st 5 true = false := by decide +kernel
  obtain ⟨-, -, -, h⟩ := open_files_counted 64 afterPipe run_afterPipe
  obtain ⟨hcount, hends, -⟩ := h afterPipe_idle
  exact ⟨href, (hcount 0).symm.trans href, hwrite, (hends 5 false).mp hread⟩

end Xv6.Ftable
