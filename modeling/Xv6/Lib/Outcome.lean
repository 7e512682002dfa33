import Mathlib.Tactic.Common

/-!
# Outcomes of computations that can stop with an error

`Yields x Q E` says what holds however `x` ends: `Q` of the value it returns, or `E` of the
error it stops with. `Yields x Q (fun _ => False)` is total correctness.
-/

variable {ε α β : Type}

structure Yields (x : Except ε α) (Q : α → Prop) (E : ε → Prop) : Prop where
  of_ok : ∀ a, x = .ok a → Q a
  of_error : ∀ e, x = .error e → E e

namespace Yields

variable {x : Except ε α} {f : α → Except ε β} {Q Q' : α → Prop} {R : β → Prop} {E E' : ε → Prop}

lemma ok {a : α} (h : Q a) : Yields (.ok a) Q E := by
  constructor
  · rintro _ ⟨⟩
    exact h
  · nofun

lemma error {e : ε} (h : E e) : Yields (.error e : Except ε α) Q E := by
  constructor
  · nofun
  · rintro _ ⟨⟩
    exact h

lemma bind (h : Yields x Q E) (hf : ∀ a, Q a → Yields (f a) R E) : Yields (x >>= f) R E := by
  cases x with
  | ok a => exact hf a (h.of_ok a rfl)
  | error e => exact .error (h.of_error e rfl)

lemma returns (h : Yields x Q (fun _ => False)) : ∃ a, x = .ok a ∧ Q a := by
  cases hx : x with
  | ok a => exact ⟨a, rfl, h.of_ok a hx⟩
  | error e => exact (h.of_error e hx).elim

end Yields

/-! ## With a state

`Ensures x s Q E` says what holds however `x`, started in `s`, ends: `Q` of the value and the
state it returns, or `E` of the error it stops with. -/

structure Ensures {σ : Type} (x : EStateM ε σ α) (s : σ) (Q : α → σ → Prop) (E : ε → Prop) :
    Prop where
  of_ok : ∀ a s', x s = .ok a s' → Q a s'
  of_error : ∀ e s', x s = .error e s' → E e

namespace Ensures

variable {σ : Type} {x : EStateM ε σ α} {f : α → EStateM ε σ β} {s : σ} {Q Q' : α → σ → Prop}
  {R : β → σ → Prop} {E E' : ε → Prop}

lemma pure {a : α} (h : Q a s) : Ensures (Pure.pure a) s Q E := by
  constructor
  · rintro _ _ ⟨⟩
    exact h
  · nofun

lemma throw {e : ε} (h : E e) : Ensures (MonadExcept.throw e : EStateM ε σ α) s Q E := by
  constructor
  · nofun
  · rintro _ _ ⟨⟩
    exact h

lemma get_bind {f : σ → EStateM ε σ β} (h : Ensures (f s) s R E) : Ensures (get >>= f) s R E :=
  ⟨h.of_ok, h.of_error⟩

lemma set {Q : PUnit → σ → Prop} {s' : σ} (h : Q ⟨⟩ s') :
    Ensures (MonadStateOf.set s' : EStateM ε σ PUnit) s Q E := by
  constructor
  · rintro _ _ ⟨⟩
    exact h
  · nofun

lemma update {Q : PUnit → σ → Prop} {g : σ → σ} (h : Q ⟨⟩ (g s)) :
    Ensures (modify g : EStateM ε σ PUnit) s Q E := by
  constructor
  · rintro _ _ ⟨⟩
    exact h
  · nofun

lemma mono (h : Ensures x s Q E) (hQ : ∀ a s', Q a s' → Q' a s') (hE : ∀ e, E e → E' e) :
    Ensures x s Q' E' :=
  ⟨fun a s' ha => hQ a s' (h.of_ok a s' ha), fun e s' he => hE e (h.of_error e s' he)⟩

lemma bind (h : Ensures x s Q E) (hf : ∀ a s', Q a s' → Ensures (f a) s' R E) :
    Ensures (x >>= f) s R E := by
  cases hx : x s with
  | ok a s' =>
    have hb : (x >>= f) s = f a s' := by simp [Bind.bind, EStateM.bind, hx]
    have ha := hf a s' (h.of_ok a s' hx)
    exact ⟨fun b t hbt => ha.of_ok b t (hb ▸ hbt), fun e t het => ha.of_error e t (hb ▸ het)⟩
  | error e s' =>
    have hb : (x >>= f) s = .error e s' := by simp [Bind.bind, EStateM.bind, hx]
    refine ⟨fun b t hbt => ?_, fun e' t het => ?_⟩
    · rw [hb] at hbt
      cases hbt
    · rw [hb] at het
      cases het
      exact h.of_error e s' hx

lemma of_eq {a : α} {s' : σ} (hx : x s = .ok a s') (h : Q a s') : Ensures x s Q E := by
  constructor
  · intro b t hb
    rw [hx] at hb
    cases hb
    exact h
  · intro e t he
    rw [hx] at he
    cases he

lemma and (h : Ensures x s Q E) (h' : Ensures x s Q' E') :
    Ensures x s (fun a s' => Q a s' ∧ Q' a s') (fun e => E e ∧ E' e) :=
  ⟨fun a s' ha => ⟨h.of_ok a s' ha, h'.of_ok a s' ha⟩, fun e s' he => ⟨h.of_error e s' he, h'.of_error e s' he⟩⟩

lemma returns (h : Ensures x s Q E) (hE : ∀ e, ¬E e) : ∃ a s', x s = .ok a s' ∧ Q a s' := by
  cases hx : x s with
  | ok a s' => exact ⟨a, s', rfl, h.of_ok a s' hx⟩
  | error e s' => exact absurd (h.of_error e s' hx) (hE e)

lemma ite {c : Prop} [Decidable c] {y z : EStateM ε σ α} (hy : c → Ensures y s Q E)
    (hz : ¬c → Ensures z s Q E) : Ensures (if c then y else z) s Q E := by
  by_cases hc : c
  · rw [if_pos hc]
    exact hy hc
  · rw [if_neg hc]
    exact hz hc

end Ensures
