import Mathlib.Logic.Function.Basic
import Mathlib.Logic.Relation

/-!
# Interleaved threads and rely-guarantee reasoning

A machine runs any number of threads, one action at a time and in any order; a thread without a
program may start any call. `wp` is the weakest precondition of a program with interference before
every action, and `Logic.sound` is the invariant rule for whole runs.
-/

namespace Threads

variable {P A : Type} {R : A → Type} {C σ ε α β : Type}

inductive Prog (A : Type) (R : A → Type) (α : Type) : Type where
  | ret (a : α)
  | act (a : A) (k : R a → Prog A R α)

namespace Prog

def bind : Prog A R α → (α → Prog A R β) → Prog A R β
  | ret a, f => f a
  | act a k, f => act a fun r => bind (k r) f

instance : Monad (Prog A R) where
  pure := ret
  bind := bind

/-- Every action of a program is one of `K`. -/
def All (K : A → Prop) : Prog A R α → Prop
  | ret _ => True
  | act a k => K a ∧ ∀ r, All K (k r)

/-- Every action replaced by a program. -/
def subst {A' : Type} {R' : A' → Type} (h : ∀ a, Prog A' R' (R a)) : Prog A R α → Prog A' R' α
  | ret a => ret a
  | act a k => bind (h a) fun r => subst h (k r)

end Prog

def call (a : A) : Prog A R (R a) := .act a .ret

namespace Prog

variable {A' : Type} {R' : A' → Type} (h : ∀ a, Prog A' R' (R a))

lemma bind_ret (x : Prog A R α) : bind x ret = x := by
  induction x with
  | ret a => rfl
  | act a k ih => exact congrArg (act a) (funext ih)

lemma bind_assoc {γ : Type} (x : Prog A R α) (f : α → Prog A R β) (g : β → Prog A R γ) :
    bind (bind x f) g = bind x fun a => bind (f a) g := by
  induction x with
  | ret a => rfl
  | act a k ih => exact congrArg (act a) (funext ih)

@[simp] lemma subst_call (a : A) : subst h (call a) = h a := bind_ret (h a)

@[simp] lemma subst_bind (x : Prog A R α) (f : α → Prog A R β) :
    subst h (x >>= f) = subst h x >>= fun a => subst h (f a) := by
  induction x with
  | ret a => rfl
  | act a k ih =>
    change bind (h a) (fun r => subst h (k r >>= f)) = bind (bind (h a) fun r => subst h (k r)) fun a => subst h (f a)
    rw [bind_assoc, funext ih]
    rfl

end Prog

namespace Prog.All

variable {K : A → Prop}

lemma pure (a : α) : All (R := R) K (Pure.pure a) := trivial

lemma call {a : A} (h : K a) : All (R := R) K (call a) := ⟨h, fun _ => trivial⟩

lemma mono {K' : A → Prop} {x : Prog A R α} (hx : All K x) (h : ∀ a, K a → K' a) : All K' x := by
  induction x with
  | ret a => trivial
  | act a k ih => exact ⟨h a hx.1, fun r => ih r (hx.2 r)⟩

lemma bind {x : Prog A R α} {f : α → Prog A R β} (hx : All K x) (hf : ∀ a, All K (f a)) : All K (x >>= f) := by
  induction x with
  | ret a => exact hf a
  | act a k ih => exact ⟨hx.1, fun r => ih r (hx.2 r)⟩

end Prog.All

/-- What an action can do to a thread: keep it waiting, stop the whole machine, or let it go
on in a new state. -/
inductive Outcome (σ ε ρ : Type) where
  | blocked
  | stop (e : ε)
  | next (r : ρ) (s : σ)

/-- An outcome for a part of the state, as one for the whole. -/
def Outcome.lift {σ' ε' ρ : Type} (f : σ → σ') (g : ε → ε') : Outcome σ ε ρ → Outcome σ' ε' ρ
  | .blocked => .blocked
  | .stop e => .stop (g e)
  | .next r s => .next r (f s)

lemma Outcome.lift_next {σ' ε' ρ : Type} {f : σ → σ'} {g : ε → ε'} {o : Outcome σ ε ρ} {r : ρ} {s' : σ'}
    (h : o.lift f g = .next r s') : ∃ s, o = .next r s ∧ f s = s' := by
  cases o with
  | blocked => cases h
  | stop e => cases h
  | next r s =>
    cases h
    exact ⟨s, rfl, rfl⟩

lemma Outcome.lift_stop {σ' ε' ρ : Type} {f : σ → σ'} {g : ε → ε'} {o : Outcome σ ε ρ} {e' : ε'}
    (h : o.lift f g = .stop e') : ∃ e, o = .stop e ∧ g e = e' := by
  cases o with
  | blocked => cases h
  | stop e =>
    cases h
    exact ⟨e, rfl, rfl⟩
  | next r s => cases h

structure Machine (P A : Type) (R : A → Type) (C σ ε : Type) where
  exec : P → (a : A) → σ → Outcome σ ε (R a)
  body : C → Prog A R Unit
  canCall : σ → P → Prop

structure Config (P A : Type) (R : A → Type) (σ ε : Type) where
  st : σ
  thread : P → Option (Prog A R Unit)
  stopped : Option ε

def Config.initial (s : σ) : Config P A R σ ε := ⟨s, fun _ => none, none⟩

/-- The invariant, rely conditions and obligations of a proof about all runs. -/
structure Logic (P A σ ε : Type) where
  /-- Holds between any two actions. -/
  Inv : σ → Prop
  /-- What the other threads' actions respect. -/
  Rely : P → σ → σ → Prop
  /-- What is assumed of each action. -/
  Given : P → A → σ → Prop
  /-- What is to be shown of each action. -/
  Pre : P → A → σ → Prop
  /-- Ways the machine may stop. -/
  Allowed : ε → Prop
  /-- Holds of a thread between calls. -/
  Idle : P → σ → Prop

section Runs

variable [DecidableEq P] (M : Machine P A R C σ ε)

/-- One step of a machine in which every action meets `G`. -/
inductive Step (G : P → A → σ → Prop) : Config P A R σ ε → Config P A R σ ε → Prop where
  | start {c : Config P A R σ ε} {p : P} (x : C) (ht : c.thread p = none)
      (hs : c.stopped = none) (hc : M.canCall c.st p) :
      Step G c { c with thread := Function.update c.thread p (some (M.body x)) }
  | act {c : Config P A R σ ε} {p : P} {a : A} {k : R a → Prog A R Unit} {r : R a} {s : σ}
      (ht : c.thread p = some (.act a k)) (hs : c.stopped = none) (hg : G p a c.st)
      (he : M.exec p a c.st = .next r s) :
      Step G c { c with st := s, thread := Function.update c.thread p (some (k r)) }
  | stop {c : Config P A R σ ε} {p : P} {a : A} {k : R a → Prog A R Unit} {e : ε}
      (ht : c.thread p = some (.act a k)) (hs : c.stopped = none) (hg : G p a c.st)
      (he : M.exec p a c.st = .stop e) :
      Step G c { c with stopped := some e }
  | finish {c : Config P A R σ ε} {p : P} (ht : c.thread p = some (.ret ()))
      (hs : c.stopped = none) :
      Step G c { c with thread := Function.update c.thread p none }

def Reaches (G : P → A → σ → Prop) : Config P A R σ ε → Config P A R σ ε → Prop :=
  Relation.ReflTransGen (Step M G)

/-- An assumption that holds of every action of every run may be added to the run's own. -/
lemma Reaches.strengthen {G G' : P → A → σ → Prop} {c₀ c : Config P A R σ ε}
    (h : ∀ c, Reaches M G c₀ c → ∀ p a k, c.thread p = some (.act a k) → G p a c.st → G' p a c.st)
    (hr : Reaches M G c₀ c) : Reaches M G' c₀ c := by
  induction hr with
  | refl => exact .refl
  | tail hr hstep ih =>
    refine ih.tail ?_
    cases hstep with
    | start x ht hs hc => exact .start x ht hs hc
    | act ht hs hg he => exact .act ht hs (h _ hr _ _ _ ht hg) he
    | stop ht hs hg he => exact .stop ht hs (h _ hr _ _ _ ht hg) he
    | finish ht hs => exact .finish ht hs

/-- If the actions of every call are among `K`, so are those that a thread has still to do. -/
lemma Reaches.all {G : P → A → σ → Prop} {K : A → Prop} {s : σ} {c : Config P A R σ ε} (hbody : ∀ x, (M.body x).All K)
    (hr : Reaches M G (.initial s) c) {p : P} {x : Prog A R Unit} (hx : c.thread p = some x) : x.All K := by
  induction hr generalizing p x with
  | refl => cases hx
  | tail _ hstep ih =>
    cases hstep with
    | start y =>
      simp only [Function.update_apply] at hx
      split at hx
      · cases hx
        exact hbody y
      · exact ih hx
    | act ht =>
      simp only [Function.update_apply] at hx
      split at hx
      · cases hx
        exact (ih ht).2 _
      · exact ih hx
    | stop => exact ih hx
    | finish =>
      simp only [Function.update_apply] at hx
      split at hx
      · cases hx
      · exact ih hx

lemma Reaches.induct {G : P → A → σ → Prop} {J : σ → Prop} {c₀ c : Config P A R σ ε}
    (h0 : J c₀.st) (hact : ∀ p a s r s', G p a s → J s → M.exec p a s = .next r s' → J s')
    (hr : Reaches M G c₀ c) : J c.st := by
  induction hr with
  | refl => exact h0
  | tail _ hstep ih =>
    cases hstep with
    | start => exact ih
    | act _ _ hg he => exact hact _ _ _ _ _ hg ih he
    | stop => exact ih
    | finish => exact ih

end Runs

section Wp

variable (M : Machine P A R C σ ε) (L : Logic P A σ ε) (p : P)

/-- What an action of `p` in `s` has to achieve, with `Q` of its result and the new state. -/
def Does (a : A) (Q : R a → σ → Prop) (s : σ) : Prop :=
  match M.exec p a s with
  | .blocked => True
  | .stop e => L.Allowed e
  | .next r s' => L.Inv s' ∧ (∀ q, q ≠ p → L.Rely q s s') ∧ Q r s'

/-- Weakest precondition of a program of thread `p`. -/
def wp : Prog A R α → (α → σ → Prop) → σ → Prop
  | .ret a, Q, s => Q a s
  | .act a k, Q, s => ∀ s', L.Rely p s s' → L.Inv s' → L.Given p a s' →
      L.Pre p a s' ∧ Does M L p a (fun r => wp (k r) Q) s'

variable {M L p} {Q Q' : α → σ → Prop} {T : β → σ → Prop} {s : σ}

lemma Does.mono {a : A} {U V : R a → σ → Prop} (h : Does M L p a U s)
    (hUV : ∀ r s', L.Inv s' → U r s' → V r s') : Does M L p a V s := by
  unfold Does at h ⊢
  cases he : M.exec p a s with
  | blocked => trivial
  | stop e =>
    rw [he] at h
    exact h
  | next r s' =>
    rw [he] at h
    exact ⟨h.1, h.2.1, hUV r s' h.1 h.2.2⟩

lemma Does.of_next {a : A} {U : R a → σ → Prop} (hstop : ∀ e, M.exec p a s = .stop e → L.Allowed e)
    (hnext : ∀ r s', M.exec p a s = .next r s' →
      L.Inv s' ∧ (∀ q, q ≠ p → L.Rely q s s') ∧ U r s') : Does M L p a U s := by
  unfold Does
  cases he : M.exec p a s with
  | blocked => trivial
  | stop e => exact hstop e he
  | next r s' => exact hnext r s' he

lemma wp_ret {a : α} (h : Q a s) : wp M L p (pure a : Prog A R α) Q s := h

lemma wp_bind {x : Prog A R α} {f : α → Prog A R β} (h : wp M L p x (fun a => wp M L p (f a) T) s) :
    wp M L p (x >>= f) T s := by
  induction x generalizing s with
  | ret a => exact h
  | act a k ih =>
    intro s' hr hi hg
    obtain ⟨hpre, hdo⟩ := h s' hr hi hg
    exact ⟨hpre, hdo.mono fun r _ _ hw => ih r hw⟩

lemma wp_mono {x : Prog A R α} (h : wp M L p x Q s) (hQ : ∀ a s', Q a s' → Q' a s') :
    wp M L p x Q' s := by
  induction x generalizing s with
  | ret a => exact hQ a s h
  | act a k ih =>
    intro s' hr hi hg
    obtain ⟨hpre, hdo⟩ := h s' hr hi hg
    exact ⟨hpre, hdo.mono fun r _ _ hw => ih r hw⟩

lemma wp_seq {x : Prog A R α} {f : α → Prog A R β} (h : wp M L p x Q s)
    (hf : ∀ a s', Q a s' → wp M L p (f a) T s') : wp M L p (x >>= f) T s :=
  wp_bind (wp_mono h hf)

/-- The value is turned into another one at the end. -/
lemma wp_seq_ret {x : Prog A R α} {g : α → β} {F : σ → Prop} (h : wp M L p x (fun _ => F) s) :
    wp M L p (x >>= fun a => pure (g a)) (fun _ => F) s :=
  wp_seq h fun _ _ h => wp_ret h

/-- A program keeps what the other threads respect and none of its own actions changes. -/
lemma wp_frame {F : σ → Prop} {x : Prog A R α} (h : wp M L p x Q s) (hrely : ∀ s s', L.Rely p s s' → F s → F s')
    (hact : x.All fun a => ∀ s r s', M.exec p a s = .next r s' → F s → F s') (hF : F s) :
    wp M L p x (fun a s => Q a s ∧ F s) s := by
  induction x generalizing s with
  | ret a => exact ⟨h, hF⟩
  | act a k ih =>
    intro s' hr hi hg
    obtain ⟨hpre, hdo⟩ := h s' hr hi hg
    refine ⟨hpre, ?_⟩
    unfold Does at hdo ⊢
    cases he : M.exec p a s' with
    | blocked => trivial
    | stop e =>
      rw [he] at hdo
      exact hdo
    | next r s'' =>
      rw [he] at hdo
      exact ⟨hdo.1, hdo.2.1, ih r hdo.2.2 (hact.2 r) (hact.1 s' r s'' he (hrely s s' hr hF))⟩

/-- The rule of one action: an assertion that the other threads respect, and what the action
makes of it. -/
lemma wp_call {a : A} {S : σ → Prop} {U : R a → σ → Prop} (hs : S s)
    (hstable : ∀ s s', L.Rely p s s' → S s → S s')
    (h : ∀ s, L.Inv s → L.Given p a s → S s → L.Pre p a s ∧ Does M L p a U s) :
    wp M L p (call a) U s :=
  fun s' hr hi hg => h s' hi hg (hstable s s' hr hs)

end Wp

namespace Logic

variable (M : Machine P A R C σ ε) (L : Logic P A σ ε)

/-- What the invariant rule carries along a run: each thread, between calls or with a program
left to do, is right about the shared state. -/
structure Sound (c : Config P A R σ ε) : Prop where
  inv : L.Inv c.st
  stopped : ∀ e, c.stopped = some e → L.Allowed e
  idle : ∀ p, c.thread p = none → L.Idle p c.st
  running : ∀ p g, c.thread p = some g → wp M L p g (fun _ => L.Idle p) c.st

variable {M L}

lemma wp_rely (htrans : ∀ p s s' s'', L.Rely p s s' → L.Rely p s' s'' → L.Rely p s s'')
    {p : P} {Q : α → σ → Prop} (hQ : ∀ a s s', L.Rely p s s' → Q a s → Q a s')
    {g : Prog A R α} {s s' : σ} (hr : L.Rely p s s') (h : wp M L p g Q s) : wp M L p g Q s' := by
  cases g with
  | ret a => exact hQ a s s' hr h
  | act a k => exact fun t ht => h t (htrans p s s' t hr ht)

/-- What an action needs is there when a thread is about to do it. -/
lemma Sound.pre (hrefl : ∀ p s, L.Rely p s s) {c : Config P A R σ ε} (h : Sound M L c) {p : P} {a : A}
    {k : R a → Prog A R Unit} (ht : c.thread p = some (.act a k)) (hg : L.Given p a c.st) :
    L.Pre p a c.st :=
  (h.running p _ ht c.st (hrefl p c.st) h.inv hg).1

variable [DecidableEq P]

theorem sound (hrefl : ∀ p s, L.Rely p s s)
    (htrans : ∀ p s s' s'', L.Rely p s s' → L.Rely p s' s'' → L.Rely p s s'')
    (hidle : ∀ p s s', L.Rely p s s' → L.Idle p s → L.Idle p s')
    (hcall : ∀ p x s, L.Inv s → L.Idle p s → M.canCall s p →
      wp M L p (M.body x) (fun _ => L.Idle p) s)
    {s₀ : σ} (h0 : L.Inv s₀) (hi0 : ∀ p, L.Idle p s₀) {c : Config P A R σ ε}
    (hr : Reaches M L.Given (.initial s₀) c) : Sound M L c := by
  induction hr with
  | refl => exact ⟨h0, nofun, fun p _ => hi0 p, nofun⟩
  | @tail b _ _ hstep ih =>
    cases hstep with
    | @start p x ht hs hc =>
      refine ⟨ih.inv, ih.stopped, fun q hq => ?_, fun q g hq => ?_⟩
      · by_cases hqp : q = p
        · simp [hqp] at hq
        · exact ih.idle q (by simpa [hqp] using hq)
      by_cases hqp : q = p
      · subst hqp
        obtain rfl : M.body x = g := by simpa using hq
        exact hcall q x b.st ih.inv (ih.idle q ht) hc
      · exact ih.running q g (by simpa [hqp] using hq)
    | @act p a k r s ht hs hg he =>
      obtain ⟨-, hdo⟩ := ih.running p _ ht b.st (hrefl p b.st) ih.inv hg
      unfold Does at hdo
      rw [he] at hdo
      obtain ⟨hinv, hguar, hwp⟩ := hdo
      refine ⟨hinv, ih.stopped, fun q hq => ?_, fun q g hq => ?_⟩
      · by_cases hqp : q = p
        · simp [hqp] at hq
        · exact hidle q b.st s (hguar q hqp) (ih.idle q (by simpa [hqp] using hq))
      by_cases hqp : q = p
      · subst hqp
        obtain rfl : k r = g := by simpa using hq
        exact hwp
      · exact wp_rely htrans (fun _ => hidle q) (hguar q hqp)
          (ih.running q g (by simpa [hqp] using hq))
    | @stop p a k e ht hs hg he =>
      obtain ⟨-, hdo⟩ := ih.running p _ ht b.st (hrefl p b.st) ih.inv hg
      unfold Does at hdo
      rw [he] at hdo
      refine ⟨ih.inv, ?_, ih.idle, ih.running⟩
      rintro _ ⟨⟩
      exact hdo
    | @finish p ht hs =>
      refine ⟨ih.inv, ih.stopped, fun q hq => ?_, fun q g hq => ?_⟩
      · by_cases hqp : q = p
        · subst hqp
          exact ih.running q _ ht
        · exact ih.idle q (by simpa [hqp] using hq)
      · by_cases hqp : q = p
        · simp [hqp] at hq
        · exact ih.running q g (by simpa [hqp] using hq)

end Logic

end Threads
