import Xv6.Lib.Schedule
import Xv6.Proofs.ProcTable

/-! # Runs of fork, exit and wait -/

namespace Xv6.Process

open Threads

namespace Tree

variable {X C : Type} {body : C → Kprog X Unit} {s s' : State X} {p i n nproc : Nat} {H : List Nat}
  {S : State X → Prop}

/-! ## What a process knows -/

/-- Process `p` is alive and holds the locks `H`. -/
structure At (p : Nat) (H : List Nat) (s : State X) : Prop where
  locks : ∀ l, s.locks l = some p ↔ l ∈ H
  alive : (s.slot p).phase = .alive
  clean : ptableLock ∈ H → Clean s

lemma At.env (h : At p H s) (he : Env p s s') : At p H s' :=
  ⟨fun l => (he.locks l).trans (h.locks l), (he.alive h.alive).1,
    fun hl => he.clean ((h.locks _).mpr hl) (h.clean hl)⟩

lemma At.same (h : At p H s) (hs : Same s s') (hl : s'.locks = s.locks) : At p H s' := by
  refine ⟨fun l => ?_, ?_, fun hm => hs.clean (h.clean hm)⟩
  · rw [hl]
    exact h.locks l
  · rw [hs.slot]
    exact h.alive

/-- The slot `i` that `p` took, with its parent field. -/
structure Mine (p i : Nat) (par : Option Nat) (s : State X) : Prop where
  phase : (s.slot i).phase = .embryo
  maker : (s.slot i).maker = p
  parent : (s.slot i).parent = par

lemma Mine.same {par : Option Nat} (h : Mine p i par s) (hs : Same s s') : Mine p i par s' := by
  have hi := hs.slot i
  exact ⟨hi ▸ h.phase, hi ▸ h.maker, hi ▸ h.parent⟩

lemma Mine.env {par : Option Nat} (h : Mine p i par s) (he : Env p s s') : Mine p i par s' := by
  have hs := he.embryo i h.phase h.maker
  exact ⟨hs ▸ h.phase, hs ▸ h.maker, hs ▸ h.parent⟩

/-! ## Rules -/

lemma wp_step {a : Act X} {U : a.Res → State X → Prop} (hS : ∀ s s', Env p s s' → S s → S s')
    (h : ∀ s r s', Inv nproc s → (treeLogic X nproc).Given (.proc p) a s → S s →
      step p a s = .next r s' → Good nproc p s s' ∧ U r s') (hs : S s) :
    TreeSpec body nproc p (act a) U s := by
  refine wp_call hs hS fun s hi hg hS => ⟨trivial, .of_next (fun _ _ => trivial) fun r s' he => ?_⟩
  obtain ⟨hgood, hU⟩ := h s r s' hi hg hS (exec_proc he).2
  refine ⟨hgood.1, fun q hq => ?_, hU⟩
  cases q with
  | proc q => exact hgood.2 q (fun h => hq (h ▸ rfl))
  | cpu n => trivial

/-- An assertion that neither the others nor updates outside of the tree affect. -/
structure Steady (p : Nat) (S : State X → Prop) : Prop where
  env : ∀ s s', Env p s s' → S s → S s'
  same : ∀ s s', Same s s' → s'.locks = s.locks → S s → S s'

lemma steady_at (p : Nat) (H : List Nat) : Steady (X := X) p (At p H) :=
  ⟨fun _ _ he h => h.env he, fun _ _ hs hl h => h.same hs hl⟩

/-- An action that leaves the state as it is, or changes one slot in a way that the tree does
not see. -/
lemma wp_plain {a : Act X} (hS : Steady p S) (h : ∀ s r s', S s → step p a s = .next r s' → s' = s ∨
      ∃ i q, s' = s.setProc i q ∧ q.slot = s.slot i ∧ q.onCpu = (s.procs i).onCpu) (hs : S s) :
    TreeSpec body nproc p (act a) (fun _ => S) s := by
  refine wp_step hS.env (fun s r s' hi _ hSs he => ?_) hs
  rcases h s r s' hSs he with rfl | ⟨i, q, rfl, hq, hon⟩
  · exact ⟨⟨hi, fun q _ => .refl q s'⟩, hSs⟩
  · exact ⟨good_setProc hi hq fun h => .inl (hon ▸ h), hS.same _ _ (same_setProc hq) rfl hSs⟩

lemma wp_acquire (l : Nat) (hs : At p H s) :
    TreeSpec body nproc p (acquire l) (fun _ => At p (l :: H)) s := by
  refine wp_step (fun _ _ he h => h.env he) (fun s _ s' hi _ hat he => ?_) hs
  rw [step] at he
  cases hl : s.locks l with
  | some o =>
    rw [hl] at he
    dsimp only at he
    split at he <;> cases he
  | none =>
    rw [hl] at he
    cases he
    have hsame : Same s { s.setProc p { s.procs p with ncli := (s.procs p).ncli + 1 } with
        locks := s.locks.set l (some p) } :=
      ⟨(same_setProc (by rfl)).slot, rfl, rfl, rfl, rfl, rfl⟩
    refine ⟨hsame.good hi (fun q hq l' => ?_) (.inr fun o ho => ?_) (fun o ho => ?_) fun j hj => ?_,
      fun l' => ?_, ?_, fun hm => hsame.clean ?_⟩
    · by_cases hll : l' = l
      · simp [hll, hl, Ne.symm hq]
      · simp [hll]
    · have hne : ptableLock ≠ l := by
        rintro rfl
        simp [hl] at ho
      simpa [hne] using ho
    · by_cases hne : ptableLock = l
      · obtain rfl : p = o := by simpa [hne] using ho
        exact .inl hat.alive
      · exact hi.holder o (by simpa [hne] using ho)
    · have hj' : (s.procs j).onCpu = true := by
        by_cases hjp : j = p
        · simpa [hjp] using hj
        · simpa [hjp] using hj
      refine (hi.cpu j hj').imp_right fun ⟨hz, hlk⟩ => ⟨hz, ?_⟩
      have hne : ptableLock ≠ l := by
        rintro rfl
        simp [hl] at hlk
      simpa [hne] using hlk
    · by_cases hll : l' = l
      · simp [hll]
      · simp [hll, hat.locks l']
    · rw [hsame.slot]
      exact hat.alive
    · by_cases hll : ptableLock = l
      · -- the lock was free, so nobody is in the middle of an exit
        intro j r h0 hlive hpar
        refine (hi.adopted j r h0 hlive hpar).imp_right fun ⟨hr, he⟩ => ⟨hr, he.resolve_right ?_⟩
        rintro ⟨o, ho, -⟩
        rw [hll, hl] at ho
        cases ho
      · exact hat.clean ((List.mem_cons.mp hm).resolve_left hll)

lemma drop_good {l : Nat} {q : Proc} (hi : Inv nproc s) (hl : s.locks l = some p)
    (hc : l = ptableLock → Clean s) (hq : q.slot = s.slot p)
    (hon : q.onCpu = true → (s.slot p).phase = .alive) :
    Good nproc p s { s.setProc p q with locks := s.locks.set l none } := by
  have hsame : Same s { s.setProc p q with locks := s.locks.set l none } :=
    ⟨(same_setProc hq).slot, rfl, rfl, rfl, rfl, rfl⟩
  refine hsame.good hi (fun o ho l' => ?_) ?_ (fun o ho => ?_) fun j hj => ?_
  · by_cases hll : l' = l
    · simp [hll, hl, Ne.symm ho]
    · simp [hll]
  · by_cases hll : l = ptableLock
    · exact .inl (hc hll)
    · exact .inr fun o ho => by simpa [Ne.symm hll] using ho
  · refine hi.holder o ?_
    by_cases hll : ptableLock = l
    · simp [hll] at ho
    · simpa [hll] using ho
  · by_cases hjp : j = p
    · subst hjp
      exact .inl (hon (by simpa using hj))
    refine (hi.cpu j (by simpa [hjp] using hj)).imp_right fun ⟨hz, hlk⟩ => ⟨hz, ?_⟩
    have hne : ptableLock ≠ l := by
      rintro rfl
      rw [hl] at hlk
      exact hjp (Option.some.inj hlk).symm
    simpa [hne] using hlk

lemma At.drop {l : Nat} {q : Proc} (h : At p H s) (hq : q.slot = s.slot p) :
    At p (H.filter (· ≠ l)) { s.setProc p q with locks := s.locks.set l none } := by
  have hsame : Same s { s.setProc p q with locks := s.locks.set l none } :=
    ⟨(same_setProc hq).slot, rfl, rfl, rfl, rfl, rfl⟩
  refine ⟨fun l' => ?_, ?_, fun hm => hsame.clean (h.clean (List.mem_filter.mp hm).1)⟩
  · by_cases hll : l' = l
    · simp [hll]
    · simp [hll, h.locks l']
  · rw [hsame.slot]
    exact h.alive

lemma wp_release_frame (l : Nat) (hS : ∀ s s', Env p s s' → S s → S s')
    (hS' : ∀ s s', Same s s' → S s → S s') (hs : At p H s) (hSs : S s) :
    TreeSpec body nproc p (release l)
      (fun _ s => At p (H.filter (· ≠ l)) s ∧ S s) s := by
  refine wp_step (S := fun s => At p H s ∧ S s) (fun s s' he h => ⟨h.1.env he, hS s s' he h.2⟩)
    (fun s _ s' hi _ hat he => ?_) ⟨hs, hSs⟩
  rw [step] at he
  split at he
  · rename_i hl
    cases he
    refine ⟨drop_good hi hl (fun h => hat.1.clean ((hat.1.locks _).mp (h ▸ hl))) rfl
      fun _ => hat.1.alive, hat.1.drop rfl, hS' s _ ?_ hat.2⟩
    exact ⟨(same_setProc (by rfl)).slot, rfl, rfl, rfl, rfl, rfl⟩
  · cases he

lemma wp_release (l : Nat) (hs : At p H s) :
    TreeSpec body nproc p (release l)
      (fun _ => At p (H.filter (· ≠ l))) s :=
  wp_mono (wp_release_frame (S := fun _ => True) l (fun _ _ _ h => h) (fun _ _ _ h => h) hs trivial)
    fun _ _ h => h.1

lemma wp_switch (hS : ∀ s s', Env p s s' → S s → S s') (hS' : ∀ s, S s → Clean s)
    (hs : S s) {U : State X → Prop} (hU : ∀ s q, S s → q.slot = s.slot p →
      U { s.setProc p q with locks := s.locks.set ptableLock none }) :
    TreeSpec body nproc p (act .sched) (fun _ => U) s := by
  refine wp_step hS (fun s _ s' hi _ hSs he => ?_) hs
  rw [step] at he
  split at he
  · cases he
  rename_i hl
  split at he
  · cases he
  split at he
  · cases he
  · cases he
    exact ⟨drop_good hi (not_not.mp hl) (fun _ => hS' s hSs) rfl nofun, hU s _ hSs rfl⟩

lemma wp_sched (hs : At p [ptableLock] s) :
    TreeSpec body nproc p sched (fun _ => At p [ptableLock]) s :=
  wp_seq (wp_switch (S := At p [ptableLock]) (fun _ _ he h => h.env he)
    (fun s h => h.clean (by simp)) hs fun s q h hq => h.drop hq) fun _ _ h => wp_acquire _ h

/-! ## Sleep, wakeup and kill -/

lemma wp_setChan (c : Option Chan) (hS : Steady p S) (hs : S s) :
    TreeSpec body nproc p (act (.setChan c)) (fun _ => S) s := by
  refine wp_plain hS (fun s r s' _ he => ?_) hs
  cases he
  exact .inr ⟨p, _, rfl, rfl, rfl⟩

lemma wp_sleeping (hs : At p H s) :
    TreeSpec body nproc p (act .sleeping) (fun _ => At p H) s := by
  refine wp_plain (steady_at p H) (fun s r s' hat he => ?_) hs
  cases he
  refine .inr ⟨p, _, rfl, ?_, rfl⟩
  have ha := hat.alive
  simp only [State.slot, Proc.slot] at ha ⊢
  rw [ha]
  rfl

lemma wp_doze (chan : Chan) {g : Kprog X Unit} {U : Unit → State X → Prop} (hs : At p [ptableLock] s)
    (hg : ∀ s, At p [ptableLock] s → TreeSpec body nproc p g U s) :
    TreeSpec body nproc p (do
      act (.setChan (some chan))
      act .sleeping
      sched
      act (.setChan none)
      g) U s := by
  refine wp_seq (wp_setChan _ (steady_at p _) hs) fun _ _ h => ?_
  refine wp_seq (wp_sleeping h) fun _ _ h => ?_
  refine wp_seq (wp_sched h) fun _ _ h => ?_
  exact wp_seq (wp_setChan _ (steady_at p _) h) fun _ _ h => hg _ h

lemma wp_sleep (chan : Chan) (lk : Nat) (hs : At p [lk] s) :
    TreeSpec body nproc p (sleep chan lk) (fun _ => At p [lk]) s := by
  unfold sleep
  by_cases hlk : lk = ptableLock
  · subst hlk
    simp only [ne_eq, not_true_eq_false, if_false]
    exact wp_doze chan hs fun _ h => wp_ret h
  simp only [ne_eq, hlk, not_false_eq_true, if_true]
  refine wp_seq (wp_acquire _ hs) fun _ _ h => ?_
  refine wp_seq (wp_release lk h) fun _ _ h => ?_
  have hf : [ptableLock, lk].filter (· ≠ lk) = [ptableLock] := by simp [Ne.symm hlk]
  rw [hf] at h
  refine wp_doze chan h fun _ h => ?_
  exact wp_seq (wp_release ptableLock h) fun _ _ h => wp_acquire lk h

lemma wp_wakeFrom (c : Option Chan) (hS : Steady p S) (n i : Nat) (hs : S s) :
    TreeSpec body nproc p (wakeFrom c n i) (fun _ => S) s := by
  induction n generalizing i s with
  | zero =>
    refine wp_plain hS (fun s r s' _ he => ?_) hs
    cases he
    exact .inr ⟨p, _, rfl, rfl, rfl⟩
  | succ n ih =>
    refine wp_seq (wp_plain hS (fun s r s' _ he => ?_) hs) fun _ _ h => ih (i + 1) h
    rw [step] at he
    cases he
    split
    · rename_i hsl
      refine .inr ⟨i, _, rfl, ?_, rfl⟩
      simp only [State.slot, Proc.slot]
      rw [hsl.1]
      rfl
    · exact .inl rfl

lemma wp_wakeup (c : Chan) (hs : At p [] s) :
    TreeSpec body nproc p (wakeup n c) (fun _ => At p []) s := by
  refine wp_seq (wp_acquire _ hs) fun _ _ h => ?_
  refine wp_seq (wp_wakeFrom _ (steady_at p _) _ _ h) fun _ _ h => ?_
  exact wp_release ptableLock h

lemma wp_killFrom (pid : Int32) (n i : Nat) (hs : At p H s) :
    TreeSpec body nproc p (killFrom pid n i) (fun _ => At p H) s := by
  induction n generalizing i s with
  | zero => exact wp_ret hs
  | succ n ih =>
    refine wp_seq (wp_plain (steady_at p H) (fun s r s' _ he => ?_) hs) fun found _ h => ?_
    · rw [step] at he
      split at he
      · cases he
        refine .inr ⟨i, _, rfl, ?_, rfl⟩
        simp only [State.slot, Proc.slot]
        split
        · rename_i hsl
          rw [hsl]
          rfl
        · rfl
      · cases he
        exact .inl rfl
    · cases found with
      | true => exact wp_ret h
      | false => exact ih (i + 1) h

lemma wp_kill (pid : Int32) (hs : At p [] s) :
    TreeSpec body nproc p (kill n pid) (fun _ => At p []) s := by
  refine wp_seq (wp_acquire _ hs) fun _ _ h => ?_
  refine wp_seq (wp_killFrom pid n 0 h) fun _ _ h => ?_
  exact wp_seq_ret (wp_release ptableLock h)

/-! ## Fork -/

lemma wp_alloc (hlt : i < nproc) (hs : At p [ptableLock] s) :
    TreeSpec body nproc p (act (.alloc i))
      (fun found s => At p [ptableLock] s ∧ (found = true → Mine p i none s)) s := by
  refine wp_step (fun _ _ he h => h.env he) (fun s r s' hi hb hat he => ?_) hs
  rw [step] at he
  split at he
  · rename_i hun
    cases he
    have hph : (s.slot i).phase = .unused := by
      simp [State.slot, Proc.slot, hun, ProcState.phase]
    have hset := SetSlot.of_setProc s { s.setProc i { s.procs i with
        state := .embryo, pid := s.nextpid, maker := p, called := false } with
        nextpid := s.nextpid + 1, created := s.created + 1 } i _ rfl rfl rfl
    refine ⟨alloc_good hi hset (hb hun) hlt hph rfl rfl rfl rfl rfl rfl rfl rfl, ⟨hat.locks, ?_, fun hm => ?_⟩,
      fun _ => ?_⟩
    · have hne : p ≠ i := by
        rintro rfl
        simp [hat.alive] at hph
      rw [hset.slot, if_neg hne]
      exact hat.alive
    · exact hset.clean hi (by simp [hph]) rfl (by simp [Proc.slot, ProcState.phase]) (hat.clean hm)
    · have hi' := hset.slot i
      rw [if_pos rfl] at hi'
      exact ⟨by rw [hi']; rfl, by rw [hi']; rfl, by rw [hi']; exact hi.orphan i hph⟩
  · cases he
    exact ⟨⟨hi, fun q _ => .refl q s⟩, hat, by simp⟩

lemma wp_allocFrom (n i : Nat) (hlt : i + n ≤ nproc) (hs : At p [ptableLock] s) :
    TreeSpec body nproc p (allocFrom n i)
      (fun r s => At p [ptableLock] s ∧ ∀ np, r = some np → Mine p np none s) s := by
  induction n generalizing i s with
  | zero => exact wp_ret ⟨hs, nofun⟩
  | succ n ih =>
    refine wp_seq (wp_alloc (by omega) hs) fun found _ h => ?_
    cases found with
    | true => exact wp_ret ⟨h.1, fun np hnp => Option.some.inj hnp ▸ h.2 rfl⟩
    | false => exact ih (i + 1) (by omega) h.1

/-- `p`, which holds no lock, sets up slot `i`. -/
structure Making (p i : Nat) (par : Option Nat) (s : State X) : Prop where
  at_ : At p [] s
  mine : Mine p i par s

lemma Making.env {par : Option Nat} (h : Making p i par s) (he : Env p s s') : Making p i par s' :=
  ⟨h.at_.env he, h.mine.env he⟩

lemma wp_unuse (hs : Making p i none s) :
    TreeSpec body nproc p (act (.unuse i)) (fun _ => At p []) s := by
  refine wp_step (fun _ _ he h => h.env he) (fun s _ s' hi _ hm he => ?_) hs
  cases he
  have hset := SetSlot.of_setProc s { s.setProc i { s.procs i with state := .unused } with
      failed := (s.procs i).pid :: s.failed } i _ rfl rfl rfl
  refine ⟨Edit.good hi hset (.unuse hm.mine.phase hm.mine.maker hm.mine.parent) rfl rfl,
    hm.at_.locks, ?_, by simp⟩
  have hne : p ≠ i := by
    rintro rfl
    have := hm.mine.phase
    simp [hm.at_.alive] at this
  rw [hset.slot, if_neg hne]
  exact hm.at_.alive

lemma wp_allocproc (stack : Bool) (hs : At p [] s) :
    TreeSpec body nproc p (allocproc nproc stack)
      (fun r s => At p [] s ∧ ∀ np, r = some np → Mine p np none s) s := by
  refine wp_seq (wp_acquire _ hs) fun _ _ h => ?_
  refine wp_seq (wp_allocFrom nproc 0 (by omega) h) fun r _ h => ?_
  cases r with
  | none => exact wp_seq (wp_release ptableLock h.1) fun _ _ h => wp_ret ⟨h, nofun⟩
  | some i =>
    refine wp_seq (wp_release_frame ptableLock (fun _ _ he hm => Mine.env hm he)
      (fun _ _ hs hm => Mine.same hm hs) h.1 (h.2 i rfl)) fun _ _ h => ?_
    cases stack with
    | true => exact wp_ret ⟨h.1, fun np hnp => Option.some.inj hnp ▸ h.2⟩
    | false => exact wp_seq (wp_unuse ⟨h.1, h.2⟩) fun _ _ h => wp_ret ⟨h, nofun⟩

/-- The child is ready to be made runnable. -/
structure Born (p i : Nat) (s : State X) : Prop where
  making : Making p i (some p) s
  forker : (s.slot i).forker = (s.slot p).pid

lemma Born.env (h : Born p i s) (he : Env p s s') : Born p i s' := by
  refine ⟨h.making.env he, ?_⟩
  rw [he.embryo i h.making.mine.phase h.making.mine.maker, (he.alive h.making.at_.alive).2]
  exact h.forker

lemma Making.ne {par : Option Nat} (h : Making p i par s) : p ≠ i := by
  rintro rfl
  have hph := h.mine.phase
  simp [h.at_.alive] at hph

lemma wp_setParent (hs : Making p i none s) :
    TreeSpec body nproc p (act (.setParent i)) (fun _ => Born p i) s := by
  refine wp_step (fun _ _ he h => h.env he) (fun s _ s' hi _ hm he => ?_) hs
  cases he
  have hset := SetSlot.of_setProc s (s.setProc i { s.procs i with
    parent := some p, forker := (s.procs p).pid }) i _ rfl rfl rfl
  have hp := hset.slot p
  have hc := hset.slot i
  rw [if_neg hm.ne] at hp
  rw [if_pos rfl] at hc
  refine ⟨Edit.good hi hset (.setParent hm.mine.phase hm.mine.maker) rfl rfl,
    ⟨⟨hm.at_.locks, hp ▸ hm.at_.alive, by simp⟩, ?_, ?_, ?_⟩, ?_⟩
  · rw [hc]
    exact hm.mine.phase
  · rw [hc]
    exact hm.mine.maker
  · rw [hc]
    rfl
  · rw [hc, hp]
    rfl

lemma wp_runnable (hs : Born p i s) :
    TreeSpec body nproc p (act (.runnable i)) (fun _ => At p []) s := by
  refine wp_step (fun _ _ he h => h.env he) (fun s _ s' hi _ hb he => ?_) hs
  cases he
  have hset := SetSlot.of_setProc s { s.setProc i { s.procs i with state := .runnable } with
      forks := ((s.procs i).pid, (s.procs p).pid) :: s.forks } i _ rfl rfl rfl
  have hm := hb.making.mine
  refine ⟨Edit.good hi hset (.runnable hm.phase hm.maker hb.making.at_.alive hm.parent hb.forker) rfl rfl,
    hb.making.at_.locks, ?_, by simp⟩
  rw [hset.slot, if_neg hb.making.ne]
  exact hb.making.at_.alive

lemma wp_fork (stack mem : Bool) (hs : At p [] s) :
    TreeSpec body nproc p (fork nproc stack mem) (fun _ => At p []) s := by
  refine wp_seq (wp_allocproc stack hs) fun r _ h => ?_
  cases r with
  | none => exact wp_ret h.1
  | some i =>
    have hm : Making p i none _ := ⟨h.1, h.2 i rfl⟩
    cases mem with
    | false => exact wp_seq_ret (wp_unuse hm)
    | true =>
      refine wp_seq (wp_setParent hm) fun _ _ h => ?_
      refine wp_seq (wp_step (U := fun _ => Born p i) (fun _ _ he h => h.env he)
        (fun s _ s' hi _ hb he => ?_) h) fun _ _ h => ?_
      · cases he
        exact ⟨⟨hi, fun q _ => .refl q s⟩, hb⟩
      · exact wp_seq_ret (wp_runnable h)

/-! ## Exit -/

/-- An exiting process that has passed on the children in the first `n` slots. -/
structure Leaving (p n : Nat) (s : State X) : Prop where
  locks : ∀ l, s.locks l = some p ↔ l = ptableLock
  alive : (s.slot p).phase = .alive
  kids : ∀ j, j < n → (s.slot j).parent ≠ some p

lemma steady_leaving (h0 : p ≠ initproc) (n : Nat) : Steady (X := X) p (Leaving p n) := by
  refine ⟨fun s s' he h => ?_, fun s s' hs hl h => ?_⟩
  · exact ⟨fun l => (he.locks l).trans (h.locks l), (he.alive h.alive).1,
      fun j hj => he.kids h0 j (h.kids j hj)⟩
  refine ⟨fun l => ?_, ?_, fun j hj => ?_⟩
  · rw [hl]
    exact h.locks l
  · rw [hs.slot]
    exact h.alive
  · rw [hs.slot]
    exact h.kids j hj

lemma wp_abandon (h0 : p ≠ initproc) (hs : Leaving p i s) :
    TreeSpec body nproc p (act (.abandon i))
      (fun _ => Leaving p (i + 1)) s := by
  refine wp_step (steady_leaving h0 i).env (fun s _ s' hi _ hlv he => ?_) hs
  rw [step] at he
  split at he
  · rename_i hpar
    cases he
    have hset := SetSlot.of_setProc s (s.setProc i { s.procs i with parent := some initproc }) i _
      rfl rfl rfl
    refine ⟨Edit.good hi hset (.abandon hlv.alive h0 ((hlv.locks _).mpr rfl) hpar) rfl rfl,
      hlv.locks, ?_, fun j hj => ?_⟩
    · rw [hset.slot]
      split
      · rename_i hpi
        rw [← hpi]
        exact hlv.alive
      · exact hlv.alive
    · rw [hset.slot]
      split
      · exact fun h => h0 (Option.some.inj h).symm
      · exact hlv.kids j (by omega)
  · rename_i hpar
    cases he
    refine ⟨⟨hi, fun q _ => .refl q s⟩, hlv.locks, hlv.alive, fun j hj => ?_⟩
    by_cases hji : j = i
    · rw [hji]
      exact hpar
    · exact hlv.kids j (by omega)

lemma wp_abandonFrom (h0 : p ≠ initproc) (n i : Nat) (hs : Leaving p i s) :
    TreeSpec body nproc p (abandonFrom nproc n i)
      (fun _ => Leaving p (i + n)) s := by
  induction n generalizing i s with
  | zero => exact wp_ret hs
  | succ n ih =>
    have hnext : ∀ s, Leaving p (i + 1) s → TreeSpec body nproc p
        (abandonFrom nproc n (i + 1)) (fun _ => Leaving p (i + (n + 1))) s := by
      intro s h
      rw [show i + (n + 1) = i + 1 + n by omega]
      exact ih (i + 1) h
    refine wp_seq (wp_abandon h0 hs) fun z _ h => ?_
    cases z with
    | false => exact hnext _ h
    | true => exact wp_seq (wp_wakeFrom _ (steady_leaving h0 _) _ _ h) fun _ s h => hnext s h

/-- `p` has exited but for the call of `sched`. -/
structure Gone (p : Nat) (s : State X) : Prop where
  locks : ∀ l, s.locks l = some p ↔ l = ptableLock
  phase : (s.slot p).phase = .zombie
  clean : Clean s

lemma Gone.env (h : Gone p s) (he : Env p s s') : Gone p s' := by
  have hl := (h.locks ptableLock).mpr rfl
  exact ⟨fun l => (he.locks l).trans (h.locks l), (he.gone hl h.phase).1, he.clean hl h.clean⟩

lemma wp_zombie (h0 : p ≠ initproc) (hs : Leaving p nproc s) :
    TreeSpec body nproc p (act .zombie) (fun _ => Gone p) s := by
  refine wp_step (steady_leaving h0 nproc).env (fun s _ s' hi _ hlv he => ?_) hs
  cases he
  have hl := (hlv.locks ptableLock).mpr rfl
  have hset := SetSlot.of_setProc s { s.setProc p { s.procs p with state := .zombie } with
      exits := (s.procs p).pid :: s.exits } p _ rfl rfl rfl
  have hkids : ∀ j, (s.slot j).parent ≠ some p := by
    intro j
    by_cases hj : j < nproc
    · exact hlv.kids j hj
    · by_cases hj0 : j = initproc
      · simp [hj0, hi.root.2.2]
      · simp [hi.orphan j (hi.out j (by omega) hj0)]
  have hgood := Edit.good hi hset (.zombie rfl hlv.alive h0 hl hkids) rfl rfl
  refine ⟨hgood, hlv.locks, ?_, fun j r hj0 hlive hpar => ?_⟩
  · rw [hset.slot, if_pos rfl]
    rfl
  -- the only exit under way is this one, and it is now recorded
  refine (hgood.1.adopted j r hj0 hlive hpar).imp_right fun ⟨hr, he⟩ => ⟨hr, he.elim id ?_⟩
  rintro ⟨o, ho, hpid⟩
  obtain rfl : p = o := Option.some.inj (hl.symm.trans ho)
  rw [← hpid, hset.slot, if_pos rfl]
  exact List.mem_cons_self

lemma wp_exit (hs : At p [] s) :
    TreeSpec body nproc p (exit nproc) (fun _ s => ∀ l, s.locks l ≠ some p)
      s := by
  unfold exit
  refine wp_seq (wp_step (U := fun r s => r = p ∧ At p [] s) (fun _ _ he h => h.env he)
    (fun s _ s' hi _ h he => ?_) hs) fun r _ h => ?_
  · cases he
    exact ⟨⟨hi, fun q _ => .refl q s⟩, rfl, h⟩
  obtain ⟨rfl, h⟩ := h
  by_cases h0 : r = initproc
  · rw [if_pos h0]
    exact wp_step (fun _ _ he h => h.env he) (fun s _ s' _ _ _ he => by cases he) h
  rw [if_neg h0]
  refine wp_seq (wp_acquire _ h) fun _ _ h => ?_
  refine wp_seq (wp_plain (steady_at r _) (fun s _ s' _ he => ?_) h) fun parent _ h => ?_
  · cases he
    exact .inl rfl
  refine wp_seq (wp_wakeFrom _ (steady_at r _) _ _ h) fun _ _ h => ?_
  have hlv : Leaving r 0 _ := ⟨by simpa using h.locks, h.alive, fun j hj => by omega⟩
  refine wp_seq (wp_abandonFrom h0 nproc 0 hlv) fun _ _ h => ?_
  rw [Nat.zero_add] at h
  refine wp_seq (wp_zombie h0 h) fun _ _ h => ?_
  refine wp_switch (fun _ _ he h => Gone.env h he) (fun s h => h.clean) h fun s q h _ l => ?_
  by_cases hl : l = ptableLock
  · simp [hl]
  · simp [hl, h.locks l]

/-! ## Wait -/

lemma wp_reap (hs : At p [ptableLock] s) :
    TreeSpec body nproc p (act (.reap i)) (fun _ => At p [ptableLock]) s := by
  refine wp_step (fun _ _ he h => h.env he) (fun s _ s' hi _ hat he => ?_) hs
  have hl := (hat.locks ptableLock).mpr (by simp)
  rw [step] at he
  split at he
  · cases he
    exact ⟨⟨hi, fun q _ => .refl q s⟩, hat⟩
  rename_i hpar
  split at he
  · rename_i hz
    cases he
    have hph : (s.slot i).phase = .zombie := by
      simp [State.slot, Proc.slot, hz, ProcState.phase]
    have hset := SetSlot.of_setProc s { s.setProc i { s.procs i with
        state := .unused, pid := 0, parent := none, killed := false } with
        waits := ((s.procs i).pid, (s.procs p).pid) :: s.waits } i _ rfl rfl rfl
    refine ⟨Edit.good hi hset (.reap hat.alive hl hph (not_not.mp hpar)) rfl rfl, hat.locks, ?_,
      fun hm => hset.clean hi (by simp [hph]) rfl (by simp [Proc.slot, ProcState.phase]) (hat.clean hm)⟩
    have hne : p ≠ i := by
      rintro rfl
      simp [hat.alive] at hph
    rw [hset.slot, if_neg hne]
    exact hat.alive
  · cases he
    exact ⟨⟨hi, fun q _ => .refl q s⟩, hat⟩

lemma wp_waitScan (n i : Nat) (kids : Bool) (hs : At p [ptableLock] s) :
    TreeSpec body nproc p (waitScan n i kids)
      (fun _ => At p [ptableLock]) s := by
  induction n generalizing i kids s with
  | zero => exact wp_ret hs
  | succ n ih =>
    refine wp_seq (wp_reap hs) fun r _ h => ?_
    cases r with
    | other => exact ih (i + 1) kids h
    | child => exact ih (i + 1) true h
    | zombie pid => exact wp_ret h

lemma wp_query {a : Act X} (ha : ∀ s r s', step p a s = .next r s' → s' = s) (hs : At p H s) :
    TreeSpec body nproc p (act a) (fun _ => At p H) s :=
  wp_plain (steady_at p H) (fun s r s' _ he => .inl (ha s r s' he)) hs

lemma wp_waitLoop (rounds : Nat) (hs : At p [ptableLock] s) :
    TreeSpec body nproc p (waitLoop nproc rounds) (fun _ => At p []) s := by
  induction rounds generalizing s with
  | zero =>
    exact wp_seq (wp_step (U := fun _ _ => False) (fun _ _ he h => h.env he)
      (fun _ _ _ _ _ _ he => by cases he) hs) fun _ _ h => h.elim
  | succ rounds ih =>
    refine wp_seq (wp_waitScan nproc 0 false hs) fun r _ h => ?_
    obtain ⟨kids, found⟩ := r
    cases found with
    | some pid => exact wp_seq_ret (wp_release ptableLock h)
    | none =>
      refine wp_seq (wp_query (fun _ _ _ he => by cases he; rfl) h) fun killed _ h => ?_
      by_cases hret : (!kids || killed) = true
      · rw [if_pos hret]
        exact wp_seq_ret (wp_release ptableLock h)
      · rw [if_neg hret]
        refine wp_seq (wp_query (fun _ _ _ he => by cases he; rfl) h) fun _ _ h => ?_
        exact wp_seq (wp_sleep _ _ h) fun _ _ h => ih h

lemma wp_wait (rounds : Nat) (hs : At p [] s) :
    TreeSpec body nproc p (wait nproc rounds) (fun _ => At p []) s :=
  wp_seq (wp_acquire _ hs) fun _ _ h => wp_waitLoop rounds h

/-! ## Whole runs -/

lemma wp_cpu (m : Nat) (g : Kprog X Unit) (s : State X) :
    wp (machine body) (treeLogic X nproc) (.cpu m) g (fun _ _ => True) s := by
  induction g generalizing s with
  | ret a => trivial
  | act a k ih =>
    intro s' _ hi _
    refine ⟨trivial, .of_next (fun _ _ => trivial) fun r s'' he => ?_⟩
    have he' : switch a s' = .next r s'' := he
    have hgood : ∀ p, Good nproc p s' s'' := by
      intro p
      cases a with
      | schedule i | preempt i =>
        rw [switch] at he'
        split at he'
        · rename_i hrun
          cases he'
          refine good_setProc hi ?_ fun _ => .inr ?_
          · simp [Proc.slot, hrun, ProcState.phase]
          · simp [State.slot, Proc.slot, hrun, ProcState.phase]
        · cases he'
      | _ => cases he'
    refine ⟨(hgood 0).1, fun q _ => ?_, ih r s''⟩
    cases q with
    | proc q => exact (hgood (q + 1)).2 q (by omega)
    | cpu m => trivial

lemma wp_call_body (x : Call) {s : State Unit} (hs : At p [] s) :
    wp (ptable nproc) (treeLogic Unit nproc) (.proc p) (x.body nproc)
      (fun _ s => ∀ l, s.locks l ≠ some p) s := by
  have hidle : ∀ (_ : Unit) (s : State Unit), At p [] s → ∀ l, s.locks l ≠ some p :=
    fun _ s h l hl => by simpa using (h.locks l).mp hl
  cases x with
  | fork stack mem => exact wp_seq (wp_fork stack mem hs) fun _ s h => wp_ret (hidle () s h)
  | exit => exact wp_exit hs
  | wait rounds => exact wp_seq (wp_wait rounds hs) fun _ s h => wp_ret (hidle () s h)
  | kill pid => exact wp_seq (wp_kill pid hs) fun _ s h => wp_ret (hidle () s h)
  | sleep chan lk =>
    refine wp_seq (wp_acquire lk hs) fun _ _ h => ?_
    refine wp_seq (wp_sleep chan lk h) fun _ _ h => ?_
    refine wp_mono (wp_release lk h) fun _ s h => ?_
    exact hidle () s (by simpa using h)
  | wakeup chan => exact wp_mono (wp_wakeup chan hs) hidle
  | schedule i | preempt i =>
    exact wp_step (fun _ _ he h => h.env he) (fun _ _ _ _ _ _ he => by cases he) hs

lemma boot_slot (i : Nat) : boot.slot i =
    if i = initproc then { Proc.unused.slot with phase := .alive, pid := 1 } else Proc.unused.slot := by
  rw [State.slot, boot, Table.get_set]
  split
  · rfl
  · rfl

lemma boot_inv (nproc : Nat) : Inv nproc boot := by
  have hs := boot_slot
  have hu : Proc.unused.slot.phase = .unused := rfl
  have hp : Proc.unused.slot.parent = none := rfl
  have hon : ∀ i, (boot.procs i).onCpu = false := by
    intro i
    rw [boot, Table.get_set]
    split <;> rfl
  refine ⟨by rw [hs]; simp [hp], by grind, ⟨Nat.le_refl 1, by decide, rfl⟩, fun i hi => ?_, by grind,
    by grind, by grind, by grind, nofun, nofun, .nil, nofun, by grind, nofun, by simp [hon]⟩
  rw [hs] at hi ⊢
  by_cases h0 : i = initproc
  · rw [if_pos h0]
    exact ⟨1, Nat.le_refl 1, Nat.le_refl 1, rfl⟩
  · simp [h0, hu] at hi

lemma created_le {t : Tid} {a : Act X} {r : a.Res} (he : exec t a s = .next r s') :
    s.created ≤ s'.created := by
  cases t with
  | cpu m =>
    cases a with
    | schedule i | preempt i =>
      rw [exec, switch] at he
      split at he
      · cases he
        exact Nat.le_refl _
      · cases he
    | _ => cases he
  | proc p =>
    obtain ⟨-, he⟩ := exec_proc he
    cases a with
    | alloc i =>
      rw [step] at he
      split at he <;> cases he
      · exact Nat.le_succ _
      · exact Nat.le_refl _
    | _ =>
      simp only [step] at he
      repeat' split at he
      all_goals cases he
      all_goals exact Nat.le_refl _

lemma exec_alloc {t : Tid} (hun : (s.procs i).state = .unused) :
    (∀ e, exec t (.alloc i) s ≠ .stop e) ∧
      ∀ r s', exec t (.alloc i) s = .next r s' → s'.created = s.created + 1 := by
  cases t with
  | cpu m => exact ⟨fun _ he => (by cases he), fun _ _ he => (by cases he)⟩
  | proc p =>
    rw [exec, step]
    simp only [hun, if_true]
    split
    · refine ⟨fun _ he => (by cases he), fun r s' he => ?_⟩
      cases he
      rfl
    · exact ⟨fun _ he => (by cases he), fun _ _ he => (by cases he)⟩

lemma given_of {t : Tid} {a : Act X}
    (h : ∀ i, a = .alloc i → (s.procs i).state = .unused → s.created + 1 < 2 ^ 31) :
    (treeLogic X nproc).Given t a s := by
  cases a with
  | alloc i => exact h i rfl
  | _ => trivial

lemma reaches_bounded {c : Config Tid (Act Unit) Act.Res (State Unit) Panic}
    (hr : Reaches (ptable nproc) (fun _ _ _ => True) (.initial boot) c) (hb : c.st.created < 2 ^ 31) :
    Reaches (ptable nproc) (treeLogic Unit nproc).Given (.initial boot) c := by
  induction hr with
  | refl => exact .refl
  | tail _ hstep ih =>
    cases hstep with
    | start x ht hs hc => exact (ih hb).tail (.start x ht hs hc)
    | act ht hs hg he =>
      refine (ih (Nat.lt_of_le_of_lt (created_le he) hb)).tail (.act ht hs (given_of ?_) he)
      rintro i rfl hun
      rw [← (exec_alloc hun).2 _ _ he]
      exact hb
    | stop ht hs hg he =>
      refine (ih hb).tail (.stop ht hs (given_of ?_) he)
      rintro i rfl hun
      exact absurd he ((exec_alloc hun).1 _)
    | finish ht hs => exact (ih hb).tail (.finish ht hs)

lemma table_inv {c : Config Tid (Act Unit) Act.Res (State Unit) Panic}
    (hr : Reaches (ptable nproc) (fun _ _ _ => True) (.initial boot) c) (hb : c.st.created < 2 ^ 31) :
    Inv nproc c.st := by
  refine (Logic.sound (M := ptable nproc) (L := treeLogic Unit nproc) ?_ ?_ ?_ ?_ (boot_inv nproc) ?_
    (reaches_bounded hr hb)).inv
  · intro t s
    cases t with
    | proc p => exact .refl p s
    | cpu m => trivial
  · intro t s s' s'' h h'
    cases t with
    | proc p => exact Env.trans h h'
    | cpu m => trivial
  · intro t s s' he h
    cases t with
    | proc p => exact fun l hl => h l ((he.locks l).mp hl)
    | cpu m => trivial
  · intro t x s hi hidle hc
    cases t with
    | cpu m => exact wp_cpu m _ s
    | proc p =>
      have hlocks : ∀ l, s.locks l = some p ↔ l ∈ [] := fun l => by simp [hidle l]
      have halive := (hi.cpu p hc).resolve_right fun h => hidle _ h.2
      exact wp_call_body x ⟨hlocks, halive, by simp⟩
  · intro t
    cases t with
    | proc p => exact nofun
    | cpu m => trivial

end Tree

lemma phase_unused {q : Proc} : q.slot.phase = .unused ↔ q.state = .unused := by
  cases h : q.state <;> simp [Proc.slot, h, ProcState.phase]

/-- The processes in the table have distinct pids and parents that have not exited; no child is reaped
twice, or by anyone but its parent or, after its parent's exit, init. -/
theorem process_table_integrity (nproc : Nat) {c : Config Tid (Act Unit) Act.Res (State Unit) Panic}
    (hr : Reaches (ptable nproc) (fun _ _ _ => True) (.initial boot) c) (hb : c.st.created < 2 ^ 31) :
    (∀ i j, (c.st.procs i).state ≠ .unused → (c.st.procs j).state ≠ .unused →
        (c.st.procs i).pid = (c.st.procs j).pid → i = j) ∧
      (∀ i, i ≠ initproc → (c.st.procs i).state ≠ .unused → (c.st.procs i).state ≠ .embryo →
        ∃ r, (c.st.procs i).parent = some r ∧ (c.st.procs r).state ≠ .unused ∧
          (c.st.procs r).state ≠ .zombie) ∧
      (∀ i, (c.st.procs i).state = .unused → (c.st.procs i).parent = none) ∧
      ∀ child forker, (child, forker) ∈ c.st.forks →
        (c.st.waits.map Prod.fst).count child ≤ 1 ∧
          ∀ waiter, (child, waiter) ∈ c.st.waits → waiter = forker ∨
            (waiter = (c.st.procs initproc).pid ∧ forker ∈ c.st.exits) := by
  have hi := Tree.table_inv hr hb
  have hused : ∀ i, (c.st.procs i).state ≠ .unused → (c.st.slot i).phase ≠ .unused :=
    fun i h hu => h (phase_unused.mp hu)
  refine ⟨fun i j hu hv => hi.distinct i j (hused i hu) (hused j hv), fun i h0 hu he => ?_,
    fun i hu => hi.orphan i (phase_unused.mpr hu), fun child forker hf => ⟨?_, fun waiter hw => ?_⟩⟩
  · have hlive : (c.st.slot i).phase = .alive ∨ (c.st.slot i).phase = .zombie := by
      cases hs : (c.st.procs i).state <;> simp_all [State.slot, Proc.slot, ProcState.phase]
    obtain ⟨r, hr, ha⟩ := hi.parent i h0 hlive
    refine ⟨r, hr, ?_, ?_⟩
    · intro hs
      simp [State.slot, Proc.slot, hs, ProcState.phase] at ha
    · intro hs
      simp [State.slot, Proc.slot, hs, ProcState.phase] at ha
  · exact List.nodup_iff_count.mp hi.once child
  · have hpid : (c.st.procs initproc).pid = 1 := hi.root.2.1
    rw [hpid]
    exact hi.heir child forker waiter hf hw

/-- Init forks a child, which exits and is waited for. -/
def oneChild : List (Turn Tid Call) :=
  [.call (.cpu 0) (.schedule 0) 1, .call (.proc 0) (.fork true true) 80,
    .call (.cpu 1) (.schedule 1) 1, .call (.proc 1) .exit 200, .call (.proc 0) (.wait 1) 100]

theorem one_child_reaped_once :
    ((2, 1) ∈ (Config.play (ptable NPROC) (fun _ _ _ => True) (.initial boot) oneChild).st.waits) ∧
      ((Config.play (ptable NPROC) (fun _ _ _ => True) (.initial boot) oneChild).st.waits.map
        Prod.fst).count 2 ≤ 1 :=
  ⟨by decide +kernel, ((process_table_integrity NPROC (Config.play_reaches (.initial boot) oneChild)
    (by decide +kernel)).2.2.2 2 1 (by decide +kernel)).1⟩

end Xv6.Process
