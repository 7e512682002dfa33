import Xv6.Lib.Threads

/-!
# Running a schedule

A run in which the threads take turns as a list says, computed as a function: a closed evaluation
proves that a configuration is reached.
-/

namespace Threads

open Function

variable {P A : Type} {R : A → Type} {C σ ε : Type}

section Advance

variable (M : Machine P A R C σ ε) (G : P → A → σ → Prop) [∀ p a s, Decidable (G p a s)]

/-- At most `n` actions of thread `p`: the state, what is left of the program, and how the
machine stopped. The thread waits at an action that is blocked or does not meet `G`. -/
def advance (p : P) : Nat → Prog A R Unit → σ → σ × Prog A R Unit × Option ε
  | 0, g, s => (s, g, none)
  | _ + 1, .ret a, s => (s, .ret a, none)
  | n + 1, .act a k, s =>
    if G p a s then
      match M.exec p a s with
      | .blocked => (s, .act a k, none)
      | .stop e => (s, .act a k, some e)
      | .next r s' => advance p n (k r) s'
    else (s, .act a k, none)

end Advance

/-- A turn of a thread: it starts a call, or goes on with the one it is in, for at most `n`
actions. -/
inductive Turn (P C : Type) where
  | call (p : P) (x : C) (n : Nat)
  | go (p : P) (n : Nat)

def Turn.who : Turn P C → P
  | .call p _ _ => p
  | .go p _ => p

/-- A thread that has nothing left to do is between calls. -/
def Prog.left : Prog A R Unit → Option (Prog A R Unit)
  | .ret _ => none
  | g => some g

variable [DecidableEq P] (M : Machine P A R C σ ε) (G : P → A → σ → Prop)
  [∀ p a s, Decidable (G p a s)]

def Config.proceed (c : Config P A R σ ε) (p : P) (g : Prog A R Unit) (n : Nat) :
    Config P A R σ ε :=
  match advance M G p n g c.st with
  | (s, g', none) => ⟨s, Function.update c.thread p g'.left, none⟩
  | (s, g', some e) => ⟨s, Function.update c.thread p (some g'), some e⟩

section Play

variable [∀ s p, Decidable (M.canCall s p)]

/-- One turn; nothing happens in a turn that the machine does not allow. -/
def Config.turn (c : Config P A R σ ε) : Turn P C → Config P A R σ ε
  | .call p x n =>
    if (c.thread p).isNone ∧ c.stopped.isNone ∧ M.canCall c.st p then c.proceed M G p (M.body x) n
    else c
  | .go p n =>
    match c.thread p, c.stopped with
    | some g, none => c.proceed M G p g n
    | _, _ => c

def Config.play (c : Config P A R σ ε) : List (Turn P C) → Config P A R σ ε
  | [] => c
  | t :: ts => (c.turn M G t).play ts

end Play

variable {M G} {c : Config P A R σ ε} {p : P} {g : Prog A R Unit}

lemma advance_reaches (ht : c.thread p = some g) (hs : c.stopped = none) (n : Nat) :
    Reaches M G c ⟨(advance M G p n g c.st).1,
      Function.update c.thread p (some (advance M G p n g c.st).2.1),
      (advance M G p n g c.st).2.2⟩ := by
  have hself : c = ⟨c.st, Function.update c.thread p (some g), none⟩ := by
    rw [← ht, update_eq_self, ← hs]
  induction n generalizing c g with
  | zero =>
    rw [hself]
    simp only [advance, update_idem]
    exact .refl
  | succ n ih =>
    cases g with
    | ret a =>
      rw [hself]
      simp only [advance, update_idem]
      exact .refl
    | act a k =>
      rw [advance]
      by_cases hG : G p a c.st
      · rw [if_pos hG]
        cases he : M.exec p a c.st with
        | blocked =>
          rw [hself]
          simp only [update_idem]
          exact .refl
        | stop e =>
          refine .single ?_
          have hstep := Step.stop ht hs hG he
          rw [← ht, update_eq_self]
          exact hstep
        | next r s =>
          have hstep := Step.act ht hs hG he
          have hrest := ih (c := { c with st := s, thread := Function.update c.thread p (some (k r)) })
            (g := k r) (by simp) hs (by simp [hs])
          simp only [update_idem] at hrest ⊢
          exact .head hstep hrest
      · rw [if_neg hG, hself]
        simp only [update_idem]
        exact .refl

lemma Config.proceed_reaches (ht : c.thread p = some g) (hs : c.stopped = none) (n : Nat) :
    Reaches M G c (c.proceed M G p g n) := by
  have hr := advance_reaches (M := M) (G := G) ht hs n
  unfold Config.proceed
  rcases hres : advance M G p n g c.st with ⟨s, g', e⟩
  rw [hres] at hr
  cases e with
  | some e => exact hr
  | none =>
    cases g' with
    | act a k => exact hr
    | ret a =>
      refine hr.tail ?_
      have hfin := Step.finish (M := M) (G := G)
        (c := ⟨s, Function.update c.thread p (some (.ret a)), none⟩) (p := p) (by simp) rfl
      simpa [Prog.left] using hfin

variable [∀ s p, Decidable (M.canCall s p)]

lemma Config.turn_reaches (c : Config P A R σ ε) (t : Turn P C) : Reaches M G c (c.turn M G t) := by
  cases t with
  | call p x n =>
    rw [Config.turn]
    by_cases h : (c.thread p).isNone ∧ c.stopped.isNone ∧ M.canCall c.st p
    · rw [if_pos h]
      have hs : c.stopped = none := by simpa using h.2.1
      have hstep := Step.start (G := G) x (by simpa using h.1) hs h.2.2
      have hrest := Config.proceed_reaches (M := M) (G := G) (p := p) (g := M.body x)
        (c := { c with thread := Function.update c.thread p (some (M.body x)) }) (by simp) hs n
      unfold Reaches at hrest ⊢
      simp only [Config.proceed, update_idem] at hrest ⊢
      exact .head hstep hrest
    · rw [if_neg h]
      exact .refl
  | go p n =>
    rw [Config.turn]
    cases ht : c.thread p with
    | none => exact .refl
    | some g =>
      cases hs : c.stopped with
      | none => exact Config.proceed_reaches ht hs n
      | some e => exact .refl

omit [DecidableEq P] in
lemma Config.facing {β : Type} {f : A → Option β} {b : β}
    (h : (match c.thread p with
      | some (.act a _) => f a
      | _ => none) = some b) : ∃ a k, c.thread p = some (.act a k) ∧ f a = some b := by
  cases ht : c.thread p with
  | none => simp [ht] at h
  | some g =>
    cases g with
    | ret a => simp [ht] at h
    | act a k =>
      rw [ht] at h
      exact ⟨a, k, rfl, h⟩

lemma Config.play_reaches (c : Config P A R σ ε) (ts : List (Turn P C)) :
    Reaches M G c (c.play M G ts) := by
  induction ts generalizing c with
  | nil => exact .refl
  | cons t ts ih => exact (c.turn_reaches t).trans (ih _)

omit [∀ s p, Decidable (M.canCall s p)] in
lemma Config.proceed_thread {q : P} (n : Nat) (h : q ≠ p) : (c.proceed M G p g n).thread q = c.thread q := by
  unfold Config.proceed
  split <;> exact update_of_ne h _ _

lemma Config.turn_thread {q : P} {t : Turn P C} (h : q ≠ t.who) : (c.turn M G t).thread q = c.thread q := by
  cases t with
  | call p x n =>
    rw [Config.turn]
    split
    · exact Config.proceed_thread n h
    · rfl
  | go p n =>
    rw [Config.turn]
    split
    · exact Config.proceed_thread n h
    · rfl

lemma Config.play_thread {q : P} {ts : List (Turn P C)} (h : ∀ t ∈ ts, q ≠ t.who) :
    (c.play M G ts).thread q = c.thread q := by
  induction ts generalizing c with
  | nil => rfl
  | cons t ts ih =>
    rw [Config.play, ih fun t' ht => h t' (List.mem_cons_of_mem _ ht)]
    exact Config.turn_thread (h t List.mem_cons_self)

end Threads
