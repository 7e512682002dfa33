import Xv6.Lib.Threads

/-!
# A thread that runs alone

`Solo` says what holds however it ends: `Q` of the result and the last state, or `Z` if the thread
has to wait or stops the machine.
-/

namespace Threads

variable {A : Type} {R : A → Type} {σ ε α β : Type}

instance : LawfulMonad (Prog A R) :=
  LawfulMonad.mk' (Prog A R) Prog.bind_ret (fun _ _ => rfl) Prog.bind_assoc

variable (exec : (a : A) → σ → Outcome σ ε (R a))

def Prog.run : Prog A R α → σ → Outcome σ ε α
  | .ret a, s => .next a s
  | .act a k, s =>
    match exec a s with
    | .blocked => .blocked
    | .stop e => .stop e
    | .next r s' => Prog.run (k r) s'

def Solo (x : Prog A R α) (s : σ) (Q : α → σ → Prop) (Z : Prop) : Prop :=
  match x.run exec s with
  | .next a s' => Q a s'
  | _ => Z

namespace Solo

variable {exec} {x : Prog A R α} {f : α → Prog A R β} {s t : σ} {Q Q' : α → σ → Prop} {T : β → σ → Prop} {Z : Prop}

instance [∀ a t, Decidable (Q a t)] [Decidable Z] : Decidable (Solo exec x s Q Z) := by
  change Decidable (match x.run exec s with
    | .next a t => Q a t
    | _ => Z)
  cases x.run exec s <;> infer_instance

lemma pure {a : α} (h : Q a s) : Solo exec (Pure.pure a) s Q Z := h

lemma call {a : A} {r : R a} {Q : R a → σ → Prop} (he : exec a s = .next r t) (h : Q r t) :
    Solo exec (Threads.call a) s Q Z := by
  rw [Solo, Threads.call, Prog.run, he]
  exact h

lemma stop {a : A} {e : ε} {Q : R a → σ → Prop} (he : exec a s = .stop e) (hZ : Z) :
    Solo exec (Threads.call a) s Q Z := by
  rw [Solo, Threads.call, Prog.run, he]
  exact hZ

lemma act {a : A} {Q : R a → σ → Prop} (h : ∀ r t, exec a s = .next r t → Q r t) (hZ : Z) :
    Solo exec (Threads.call a) s Q Z := by
  rw [Solo, Threads.call, Prog.run]
  cases he : exec a s with
  | blocked => exact hZ
  | stop e => exact hZ
  | next r t => exact h r t he

lemma any (h : ∀ a t, Q a t) (hZ : Z) : Solo exec x s Q Z := by
  unfold Solo
  split
  · exact h _ _
  · exact hZ

lemma mono {Z' : Prop} (h : Solo exec x s Q Z) (hQ : ∀ a s', Q a s' → Q' a s') (hZ : Z → Z') : Solo exec x s Q' Z' := by
  unfold Solo at h ⊢
  cases hx : x.run exec s with
  | blocked =>
    rw [hx] at h
    exact hZ h
  | stop e =>
    rw [hx] at h
    exact hZ h
  | next a s' =>
    rw [hx] at h
    exact hQ a s' h

lemma bind (h : Solo exec x s Q Z) (hf : ∀ a s', Q a s' → Solo exec (f a) s' T Z) : Solo exec (x >>= f) s T Z := by
  induction x generalizing s with
  | ret a => exact hf a s h
  | act a k ih =>
    change Solo exec (.act a fun r => k r >>= f) s T Z
    rw [Solo, Prog.run] at h ⊢
    cases he : exec a s with
    | blocked => rwa [he] at h
    | stop e => rwa [he] at h
    | next r s' =>
      rw [he] at h
      exact ih r h

lemma skip (h : ∀ a t, Solo exec (f a) t T Z) (hZ : Z) : Solo exec (x >>= f) s T Z :=
  (any (Q := fun _ _ => True) (fun _ _ => trivial) hZ).bind fun a t _ => h a t

lemma step {a : A} {r : R a} {f : R a → Prog A R β} (he : exec a s = .next r t) (h : Solo exec (f r) t T Z) :
    Solo exec (Threads.call a >>= f) s T Z := by
  refine (call (Q := fun b u => b = r ∧ u = t) he ⟨rfl, rfl⟩).bind ?_
  rintro _ _ ⟨rfl, rfl⟩
  exact h

lemma frame {f : σ → β} (h : x.All fun a => ∀ s r t, exec a s = .next r t → f t = f s) (hZ : Z) :
    Solo exec x s (fun _ t => f t = f s) Z := by
  induction x generalizing s with
  | ret a => exact rfl
  | act a k ih =>
    refine (act (a := a) (Q := fun _ t => f t = f s) (h.1 s) hZ).bind fun r t ht => ?_
    exact (ih r (h.2 r)).mono (fun _ _ h => h.trans ht) id

lemma of_next {a : α} (h : Solo exec x s Q Z) (hx : x.run exec s = .next a t) : Q a t := by
  rwa [Solo, hx] at h

lemma returns (h : Solo exec x s Q Z) (hZ : ¬Z) : ∃ a t, x.run exec s = .next a t ∧ Q a t := by
  unfold Solo at h
  cases hx : x.run exec s with
  | blocked =>
    rw [hx] at h
    exact absurd h hZ
  | stop e =>
    rw [hx] at h
    exact absurd h hZ
  | next a t =>
    rw [hx] at h
    exact ⟨a, t, rfl, h⟩

end Solo

end Threads
