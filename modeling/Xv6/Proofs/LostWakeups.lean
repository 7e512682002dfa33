import Xv6.Proofs.Monitor
import Xv6.Lib.Schedule

/-!
# No lost wakeups

The wakeup that a sleeper needs is owed by the process that last made the condition true.
-/

namespace Xv6.Process

open Threads Monitor

variable {X : Type} {cond : X → Bool} {nproc p : Nat} {s : State (Guarded X)}
  {D : List Chan}

def guard (cond : X → Bool) : Monitor (Guarded X) (Guarded X) Unit where
  view := fun y => y
  own := fun _ _ => ()
  idle := ()
  Valid := fun _ => True
  Ready := fun c y => c = chan ∧ cond y.val = true
  Waits := fun _ _ => True
  Owes := fun y w => y.maker = some w
  prompt := False
  Spared := fun _ => True
  Settled := fun D => D = []

lemma guard_keeps {x y : Guarded X} (hm : y.maker = x.maker) (hc : cond y.val = true → cond x.val = true) :
    Change (guard cond) p D () x y :=
  ⟨trivial, rfl, fun _ _ => rfl, fun _ hr => .inl ⟨⟨hr.1, hc hr.2⟩, fun _ h => hm.trans h⟩⟩

lemma guard_makes {x y : Guarded X} (hm : y.maker = if cond x.val then x.maker else some p) :
    Change (guard cond) p [chan] () x y := by
  refine ⟨trivial, rfl, fun _ _ => rfl, fun c hr => ?_⟩
  by_cases hc : cond x.val = true
  · exact .inl ⟨⟨hr.1, hc⟩, fun _ h => by rw [if_pos hc] at hm; exact hm.trans h⟩
  · exact .inr ⟨by simp [hr.1], by rwa [if_neg hc] at hm⟩

lemma wp_waitFor (loop : Bool) (rounds : Nat) (hs : (guard cond).Knows p [lk] [] () (fun _ => True) s) :
    wp (protocol nproc cond) ((guard cond).logic nproc) (.proc p) (waitFor cond loop rounds)
      (fun _ => (guard cond).Knows p [lk] [] () fun _ => True) s := by
  induction rounds generalizing s with
  | zero => exact wp_never fun _ => rfl
  | succ rounds ih =>
    refine wp_seq (wp_data (.inl (by simp)) (fun x _ _ _ => guard_keeps rfl id) hs) fun x s h => ?_
    split
    · exact wp_ret (h.2.mono fun _ _ => trivial)
    rename_i hc
    have hnot : ∀ y, y = x → ¬(guard cond).Ready chan y := by
      rintro _ rfl hr
      exact hc hr.2
    refine wp_seq (wp_sleep (Ψ := fun _ => True) nofun hnot trivial (fun _ _ _ => trivial) h.2) fun _ s h => ?_
    split
    · exact ih h
    · exact wp_ret h

lemma wp_role (x : Role cond) (hs : (guard cond).Knows p [] [] () (fun _ => True) s) :
    wp (protocol nproc cond) ((guard cond).logic nproc) (.proc p) (x.body nproc)
      (fun _ => (guard cond).Knows p [] [] () fun _ => True) s := by
  cases x with
  | waiter loop rounds take =>
    refine wp_seq (wp_acquire lk (fun _ _ _ _ => trivial) hs) fun _ _ h => ?_
    refine wp_seq (wp_waitFor loop rounds h) fun _ _ h => ?_
    refine wp_seq (wp_data (.inl (by simp)) (fun x _ _ _ => guard_keeps rfl fun hc => ?_) h) fun _ _ h => ?_
    · by_contra hf
      rw [take.property x.val (by simpa using hf)] at hc
      cases hc
    · exact wp_mono (wp_release lk nofun h.2) fun _ _ h => { h with view := nofun }
  | waker early make =>
    refine wp_seq (wp_acquire lk (fun _ _ _ _ => trivial) hs) fun _ _ h => ?_
    refine wp_seq (wp_data (.inl (by simp)) (fun x _ _ _ => guard_makes rfl) h) fun _ _ h => ?_
    split
    · refine wp_seq (wp_wakeup (by decide) chan h.2) fun _ _ h => ?_
      exact wp_mono (wp_release lk nofun h) fun _ _ h => { h with view := nofun }
    · refine wp_seq (wp_release lk nofun h.2) fun _ _ h => ?_
      exact wp_mono (wp_wakeup (by decide) chan h) fun _ _ h => { h with view := nofun }
  | schedule i => exact wp_never fun _ => rfl
  | preempt i => exact wp_never fun _ => rfl

/-- If a waiter sleeps while the condition is true, then the process that last made it true is in
the middle of its call and has not completed its `wakeup`. -/
theorem no_lost_wakeup (nproc : Nat) (cond : X → Bool) (x₀ : X)
    {c : Config Tid (Act (Guarded X)) Act.Res (State (Guarded X)) Panic}
    (hr : Reaches (protocol nproc cond) (fun _ _ _ => True) (.initial (ready nproc ⟨x₀, none⟩)) c)
    {i : Nat} (hs : (c.st.procs i).state = .sleeping) (hc : (c.st.procs i).chan = some chan)
    (ht : cond c.st.data.val = true) :
    ∃ w, c.st.data.maker = some w ∧ chan ∈ (c.st.procs w).debts ∧ c.thread (.proc w) ≠ none := by
  have hg : Reaches (protocol nproc cond) ((guard cond).logic nproc).Given
      (.initial (ready nproc ⟨x₀, none⟩)) c := by
    refine hr.strengthen _ fun _ _ t a _ _ _ => ?_
    cases t <;> cases a <;> first | trivial | exact fun _ => trivial
  have hsound := Monitor.sound (fun x p D s (hD : D = []) h =>
    wp_mono (wp_role x (hD ▸ h)) fun _ _ h => ⟨[], rfl, h⟩) trivial (fun _ => rfl) rfl hg
  obtain ⟨w, how, hmem⟩ := hsound.inv.due i chan ⟨hs, hc⟩ ⟨rfl, ht⟩
  refine ⟨w, how, hmem, fun hn => ?_⟩
  obtain ⟨D, rfl, hd⟩ := hsound.idle (.proc w) hn
  rw [hd.debts] at hmem
  cases hmem

instance (s : State (Guarded X)) (t : Tid) : Decidable ((protocol nproc cond).canCall s t) :=
  inferInstanceAs (Decidable ((machine (Role.body nproc)).canCall s t))

def available (n : Nat) : Bool := decide (0 < n)

/-- A consumer finds no item and sleeps; a producer adds one and is stopped before `wakeup`. -/
def oneItem : Config Tid (Act (Guarded Nat)) Act.Res (State (Guarded Nat)) Panic :=
  Config.play (protocol 2 available) (fun _ _ _ => True) (.initial (ready 2 ⟨0, none⟩))
    [.call (.cpu 0) (.schedule 0) 1, .call (.cpu 1) (.schedule 1) 1,
      .call (.proc 0) (.waiter true 2 ⟨(· - 1), by simp [available]⟩) 7,
      .call (.proc 1) (.waker false ⟨(· + 1), by simp [available]⟩) 3]

theorem producer_owes_wakeup :
    ∃ w, oneItem.st.data.maker = some w ∧ chan ∈ (oneItem.st.procs w).debts ∧
      oneItem.thread (.proc w) ≠ none :=
  no_lost_wakeup 2 available 0 (i := 0) (Config.play_reaches _ _) (by decide +kernel)
    (by decide +kernel) (by decide +kernel)

end Xv6.Process
