import Xv6.Lib.Schedule
import Xv6.Lib.Solo
import Xv6.Process

/-!
# The killed flag

`kill` compares pids only, so it also matches an unused slot: one that was never used or was reaped
has pid 0, and one whose fork failed still has a pid.
-/

namespace Xv6.Process

open Threads

variable {X : Type} {s s' : State X} {t : Tid} {p i j : Nat} {a : Act X} {q : Proc}

/-- An unused slot is not killed and has no pid but 0 or that of a failed fork; the flag of any
slot was set for the pid it has. -/
structure Fresh (failed : List Int32) (q : Proc) : Prop where
  clear : q.state = .unused → q.killed = false
  stale : q.state = .unused → q.pid = 0 ∨ q.pid ∈ failed
  hit : q.killed = true → q.called = true

/-- What `kill` and failing forks are given: a pid other than 0 and than those of failed forks,
and a slot that was not killed. -/
def Sane (_ : Tid) (a : Act X) (s : State X) : Prop :=
  match a with
  | .kill _ pid => pid ≠ 0 ∧ pid ∉ s.failed
  | .unuse i => (s.procs i).killed = false
  | _ => True

instance (t : Tid) (a : Act X) (s : State X) : Decidable (Sane t a s) := by
  cases a <;> (unfold Sane; infer_instance)

lemma fresh_setProc (h : ∀ j, Fresh s.failed (s.procs j)) (hq : Fresh s.failed q) (j : Nat) :
    Fresh s.failed ((s.setProc i q).procs j) := by
  by_cases hj : j = i
  · simpa [hj] using hq
  · simpa [hj] using h j

lemma Fresh.update {failed : List Int32} {q' : Proc} (h : Fresh failed q)
    (hs : q'.state = .unused → q.state = .unused) (hp : q'.pid = q.pid)
    (hk : q'.killed = q.killed) (hc : q'.called = q.called) : Fresh failed q' := by
  constructor
  · intro hu
    rw [hk]
    exact h.clear (hs hu)
  · intro hu
    rw [hp]
    exact h.stale (hs hu)
  · rw [hk, hc]
    exact h.hit

lemma step_fresh {r : a.Res} (hg : Sane t a s) (h : ∀ j, Fresh s.failed (s.procs j))
    (he : step p a s = .next r s') : ∀ j, Fresh s'.failed (s'.procs j) := by
  cases a with
  | acquire lk =>
    rw [step] at he
    cases hl : s.locks lk with
    | none =>
      rw [hl] at he
      cases he
      exact fresh_setProc h ((h p).update id rfl rfl rfl)
    | some o =>
      rw [hl] at he
      dsimp only at he
      split at he <;> cases he
  | release lk =>
    rw [step] at he
    split at he
    · cases he
      exact fresh_setProc h ((h p).update id rfl rfl rfl)
    · cases he
  | self | killed | parent | pid i =>
    cases he
    exact h
  | setChan c | woken c | data f owe =>
    cases he
    exact fresh_setProc h ((h p).update id rfl rfl rfl)
  | sleeping | zombie =>
    cases he
    exact fresh_setProc h ((h p).update nofun rfl rfl rfl)
  | setParent i =>
    cases he
    exact fresh_setProc h ((h i).update id rfl rfl rfl)
  | runnable i =>
    cases he
    exact fresh_setProc h ((h i).update nofun rfl rfl rfl)
  | sched =>
    rw [step] at he
    split at he
    · cases he
    split at he
    · cases he
    split at he
    · cases he
    · cases he
      exact fresh_setProc h ((h p).update id rfl rfl rfl)
  | wake i c =>
    rw [step] at he
    cases he
    split
    · exact fresh_setProc h ((h i).update nofun rfl rfl rfl)
    · exact h
  | kill i pid =>
    rw [step] at he
    split at he
    · rename_i hpid
      cases he
      refine fresh_setProc h ⟨fun hu => ?_, fun hu => ?_, fun _ => rfl⟩
      all_goals
        have hun : (s.procs i).state = .unused := by
          by_cases hsl : (s.procs i).state = .sleeping
          · simp [hsl] at hu
          · simpa [hsl] using hu
        rcases (h i).stale hun with h0 | hf
        · exact absurd (hpid ▸ h0) hg.1
        · exact absurd (hpid ▸ hf) hg.2
    · cases he
      exact h
  | alloc i =>
    rw [step] at he
    split at he
    · rename_i hun
      cases he
      refine fresh_setProc h ⟨nofun, nofun, fun hk => ?_⟩
      have h0 := (h i).clear hun
      simp [h0] at hk
    · cases he
      exact h
  | unuse i =>
    cases he
    intro j
    by_cases hj : j = i
    · subst hj
      simp only [State.setProc_procs, if_pos]
      exact ⟨fun _ => hg, fun _ => .inr (by simp), fun hk => (h j).hit hk⟩
    · simp only [State.setProc_procs, if_neg hj]
      exact ⟨(h j).clear, fun hu => ((h j).stale hu).imp_right (List.mem_cons_of_mem _), (h j).hit⟩
  | abandon i =>
    rw [step] at he
    split at he
    · cases he
      exact fresh_setProc h ((h i).update id rfl rfl rfl)
    · cases he
      exact h
  | reap i =>
    rw [step] at he
    split at he
    · cases he
      exact h
    split at he
    · cases he
      exact fresh_setProc h ⟨fun _ => rfl, fun _ => .inl rfl, nofun⟩
    · cases he
      exact h
  | panic e | stuck | schedule i | preempt i => cases he

lemma switch_fresh {r : a.Res} (h : ∀ j, Fresh s.failed (s.procs j))
    (he : switch a s = .next r s') : ∀ j, Fresh s'.failed (s'.procs j) := by
  cases a with
  | schedule i | preempt i =>
    rw [switch] at he
    split at he
    · cases he
      exact fresh_setProc h ((h i).update nofun rfl rfl rfl)
    · cases he
  | _ => cases he

lemma exec_fresh {r : a.Res} (hg : Sane t a s) (h : ∀ j, Fresh s.failed (s.procs j))
    (he : exec t a s = .next r s') : ∀ j, Fresh s'.failed (s'.procs j) := by
  cases t with
  | proc p => exact step_fresh hg h (exec_proc he).2
  | cpu n => exact switch_fresh h he

lemma boot_fresh (j : Nat) : Fresh boot.failed (boot.procs j) := by
  rw [boot, Table.get_set]
  split
  · exact ⟨nofun, nofun, nofun⟩
  · exact ⟨fun _ => rfl, fun _ => .inl rfl, nofun⟩

lemma killFrom_spec (pid : Int32) (n i : Nat) : Solo (step p) (killFrom pid n i) s (fun found _ =>
    found = true ↔ ∃ j, i ≤ j ∧ j < i + n ∧ (s.procs j).pid = pid) True := by
  induction n generalizing i with
  | zero => exact .pure (by simp; omega)
  | succ n ih =>
    by_cases hpid : (s.procs i).pid = pid
    · refine .step (if_pos hpid) ?_
      rw [if_pos rfl]
      exact .pure (iff_of_true rfl ⟨i, Nat.le_refl i, by omega, hpid⟩)
    · refine .step (if_neg hpid) ?_
      rw [if_neg Bool.false_ne_true]
      refine (ih (i + 1)).mono (fun found _ h => h.trans ?_) id
      refine exists_congr fun j => ⟨fun ⟨hle, hlt, hj⟩ => ⟨by omega, by omega, hj⟩,
        fun ⟨hle, hlt, hj⟩ => ⟨?_, by omega, hj⟩⟩
      exact Nat.lt_of_le_of_ne hle fun he => hpid (he ▸ hj)

/-- `kill` looks at all slots under the lock, and finds those that have the pid. -/
lemma kill_spec (nproc : Nat) (pid : Int32) : Solo (step p) (kill nproc pid) s (fun r _ =>
    r = 0 ↔ ∃ j < nproc, (s.procs j).pid = pid) True := by
  refine (Solo.act (fun r t he => ?_) trivial : Solo (step p) (acquire ptableLock) s (fun _ t =>
    ∀ j, (t.procs j).pid = (s.procs j).pid) True).bind fun _ t ht => ?_
  · intro j
    rw [step] at he
    split at he
    · cases he
      by_cases hj : j = p <;> simp [hj]
    · split at he <;> cases he
  refine (killFrom_spec pid nproc 0).bind fun found u hfound => .skip (fun _ _ => .pure ?_) trivial
  simp only [Nat.zero_le, true_and, Nat.zero_add, ht] at hfound
  rw [← hfound]
  cases found <;> simp

/-- If `kill` is only called with pids other than 0 and than those of failed forks, and no slot is given
up after its process was killed, then `kill` marks only processes in use that have the pid, returns 0 exactly if
there is one (it holds the lock from the first slot to the last), and a process that `fork` makes runnable is not
killed unless `kill` was called with its own pid. -/
theorem never_born_killed (nproc : Nat) {c : Config Tid (Act Unit) Act.Res (State Unit) Panic}
    (hr : Reaches (ptable nproc) Sane (.initial boot) c) {p : Nat} {a : Act Unit}
    (hg : Sane (.proc p) a c.st) :
    (∀ i pid s', a = .kill i pid → step p (.kill i pid) c.st = .next true s' →
        (c.st.procs i).state ≠ .unused ∧ (c.st.procs i).pid = pid) ∧
      (∀ i pid r s', a = .kill i pid → (kill nproc pid).run (step p) c.st = .next r s' →
        (r = 0 ↔ ∃ j < nproc, (c.st.procs j).state ≠ .unused ∧ (c.st.procs j).pid = pid)) ∧
      (∀ i, a = .runnable i → (c.st.procs i).killed = false ∨ (c.st.procs i).called = true) := by
  have hf : ∀ j, Fresh c.st.failed (c.st.procs j) :=
    hr.induct (J := fun s => ∀ j, Fresh s.failed (s.procs j)) _ boot_fresh
      fun t a s r s' hg h he => exec_fresh hg h he
  have hused : ∀ i j pid, a = .kill i pid → (c.st.procs j).pid = pid → (c.st.procs j).state ≠ .unused := by
    rintro i j pid rfl rfl hu
    exact ((hf j).stale hu).elim hg.1 hg.2
  refine ⟨fun i pid s' ha he => ?_, fun i pid r s' ha he => ?_, fun i _ => ?_⟩
  · rw [step] at he
    split at he
    · rename_i hpid
      exact ⟨hused i i pid ha hpid, hpid⟩
    · cases he
  · rw [(kill_spec nproc pid).of_next he]
    exact exists_congr fun j => and_congr_right fun _ => ⟨fun hpid => ⟨hused i j pid ha hpid, hpid⟩, And.right⟩
  · by_cases hk : (c.st.procs i).killed = true
    · exact .inr ((hf i).hit hk)
    · exact .inl (by simpa using hk)

/-- The first fork of init, up to the assignment that makes the child runnable. -/
def firstFork : List (Turn Tid Call) :=
  [.call (.cpu 0) (.schedule 0) 1, .call (.proc 0) (.fork true true) 6]

theorem first_child_not_killed :
    ((Config.play (ptable NPROC) Sane (.initial boot) firstFork).st.procs 1).killed = false ∨
      ((Config.play (ptable NPROC) Sane (.initial boot) firstFork).st.procs 1).called = true :=
  (never_born_killed NPROC (Config.play_reaches (.initial boot) firstFork) (p := 0)
    (a := .runnable 1) trivial).2.2 1 rfl

/-- Init calls `kill(0)` and then forks. -/
def killZero : List (Turn Tid Call) :=
  [.call (.cpu 0) (.schedule 0) 1, .call (.proc 0) (.kill 0) 70, .call (.proc 0) (.fork true true) 6]

/-- `kill(0)` marks the first unused slot, and the next child starts with the mark although
`kill` was never called with its pid. -/
theorem kill_zero_marks_next_child :
    ∃ c k, Reaches (ptable NPROC) (fun _ _ _ => True) (.initial boot) c ∧
      c.thread (.proc 0) = some (.act (.runnable 1) k) ∧ (c.st.procs 1).killed = true ∧
      (c.st.procs 1).called = false := by
  have hr := Config.play_reaches (M := ptable NPROC) (G := fun _ _ _ => True) (.initial boot) killZero
  obtain ⟨a, k, ht, ha⟩ := Config.facing (p := .proc 0)
    (c := Config.play (ptable NPROC) (fun _ _ _ => True) (.initial boot) killZero)
    (f := fun a => match a with
      | .runnable i => some i
      | _ => none) (b := 1) (by decide +kernel)
  have hrun : a = .runnable 1 := by
    cases a <;> simp_all
  subst hrun
  exact ⟨_, k, hr, ht, by decide +kernel, by decide +kernel⟩

end Xv6.Process
