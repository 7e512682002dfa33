import Xv6.Waiting

/-!
# Data that processes wait for

A process that changes the data so that sleepers on a channel should go on owes them a wakeup. No
sleeper is forgotten: if what it waits for is there, somebody still owes the wakeup.
-/

namespace Xv6.Process

open Threads

/-- A use of `sleep` and `wakeup` on data of type `X`: of their part `V` that the lock protects,
and their part `W` that each process alone changes. -/
structure Monitor (X V W : Type) where
  view : X → V
  own : Nat → X → W
  /-- What a process owns between calls. -/
  idle : W
  /-- What holds of the data. -/
  Valid : X → Prop
  /-- A sleeper on the channel should go on. -/
  Ready : Chan → V → Prop
  /-- Who sleeps on the channel. -/
  Waits : Chan → W → Prop
  /-- Who may owe the wakeup. -/
  Owes : V → Nat → Prop
  /-- Wakeups are called before the lock is released. -/
  prompt : Prop
  /-- What is assumed of the wakeups that a process owes when it finds that it was killed. -/
  Spared : List Chan → Prop
  /-- The wakeups that a process may have failed to call between calls. -/
  Settled : List Chan → Prop

namespace Monitor

variable {X V W C : Type} (m : Monitor X V W) {body : C → Kprog X Unit} {s s' s'' : State X}
  {p i n l nproc : Nat} {c : Chan} {D : List Chan} {H : List Nat} {w w' : W} {Φ Ψ : V → Prop}

/-- A wakeup on the channel is still to come if it is needed. -/
def Due (c : Chan) (s : State X) : Prop :=
  m.Ready c (m.view s.data) → ∃ j, m.Owes (m.view s.data) j ∧ c ∈ (s.procs j).debts

def Asleep (i : Nat) (c : Chan) (s : State X) : Prop :=
  (s.procs i).state = .sleeping ∧ (s.procs i).chan = some c

structure Inv (nproc : Nat) (s : State X) : Prop where
  valid : m.Valid s.data
  due : ∀ i c, Asleep i c s → m.Due c s
  waits : ∀ i c, Asleep i c s → m.Waits c (m.own i s.data)
  prompt : m.prompt → ∀ j, (s.procs j).debts ≠ [] → s.locks lk = some j
  cpu : ∀ i, (s.procs i).onCpu = true → i < nproc ∧ ((s.procs i).state = .running ∨
    ((s.procs i).state = .sleeping ∧ s.locks ptableLock = some i))
  out : ∀ i, nproc ≤ i → (s.procs i).state = .unused

structure Env (p : Nat) (s s' : State X) : Prop where
  locks : ∀ l, s'.locks l = some p ↔ s.locks l = some p
  view : s.locks lk = some p → m.view s'.data = m.view s.data
  own : m.own p s'.data = m.own p s.data
  debts : (s'.procs p).debts = (s.procs p).debts
  chan : (s'.procs p).chan = (s.procs p).chan
  awake : (s.procs p).state ≠ .sleeping → (s'.procs p).state ≠ .sleeping
  due : s.locks ptableLock = some p → ∀ c, m.Due c s → m.Due c s'
  sleepers : s.locks ptableLock = some p → ∀ i c, ¬Asleep i c s → ¬Asleep i c s'

lemma Env.refl (p : Nat) (s : State X) : m.Env p s s :=
  ⟨fun _ => .rfl, fun _ => rfl, rfl, rfl, rfl, id, fun _ _ => id, fun _ _ _ => id⟩

variable {m}

lemma Env.trans (h : m.Env p s s') (h' : m.Env p s' s'') : m.Env p s s'' := by
  have hl : s.locks ptableLock = some p → s'.locks ptableLock = some p := (h.locks _).mpr
  refine ⟨fun l => (h'.locks l).trans (h.locks l), fun hp => ?_, h'.own.trans h.own,
    h'.debts.trans h.debts, h'.chan.trans h.chan, fun ha => h'.awake (h.awake ha), fun hp c hd => ?_,
    fun hp i c hn => ?_⟩
  · rw [h'.view ((h.locks _).mpr hp), h.view hp]
  · exact h'.due (hl hp) c (h.due hp c hd)
  · exact h'.sleepers (hl hp) i c (h.sleepers hp i c hn)

variable (m) in
/-- What process `p` knows while it may be asleep. -/
structure Napping (p : Nat) (H : List Nat) (D : List Chan) (w : W) (s : State X) : Prop where
  locks : ∀ l, s.locks l = some p ↔ l ∈ H
  debts : (s.procs p).debts = D
  own : m.own p s.data = w

lemma Napping.env (h : m.Napping p H D w s) (he : m.Env p s s') : m.Napping p H D w s' :=
  ⟨fun l => (he.locks l).trans (h.locks l), he.debts.trans h.debts, he.own.trans h.own⟩

variable (m) in
def logic (nproc : Nat) : Logic Tid (Act X) (State X) Panic where
  Inv := m.Inv nproc
  Rely := fun t s s' => match t with
    | .proc p => m.Env p s s'
    | .cpu _ => True
  Given := fun t a s => match t, a with
    | .proc p, .killed => (s.procs p).killed = true → m.Spared (s.procs p).debts
    | _, _ => True
  Pre := fun _ _ _ => True
  Allowed := fun _ => True
  Idle := fun t s => match t with
    | .proc p => ∃ D, m.Settled D ∧ m.Napping p [] D m.idle s
    | .cpu _ => True

variable (m) in
abbrev Spec (body : C → Kprog X Unit) (nproc p : Nat) {α : Type} :=
  wp (α := α) (machine body) (m.logic nproc) (.proc p)

variable (m) in
/-- What process `p` knows: the locks it holds, the wakeups it owes, its own data and, under the
lock, the data that the lock protects. -/
structure Knows (p : Nat) (H : List Nat) (D : List Chan) (w : W) (Φ : V → Prop) (s : State X) :
    Prop where
  locks : ∀ l, s.locks l = some p ↔ l ∈ H
  awake : (s.procs p).state ≠ .sleeping
  debts : (s.procs p).debts = D
  own : m.own p s.data = w
  view : lk ∈ H → Φ (m.view s.data)

lemma Knows.env (h : m.Knows p H D w Φ s) (he : m.Env p s s') : m.Knows p H D w Φ s' := by
  refine ⟨fun l => (he.locks l).trans (h.locks l), he.awake h.awake, he.debts.trans h.debts,
    he.own.trans h.own, fun hl => ?_⟩
  rw [he.view ((h.locks _).mpr hl)]
  exact h.view hl

lemma Knows.mono (h : m.Knows p H D w Φ s) (hΦ : ∀ v, Φ v → Ψ v) : m.Knows p H D w Ψ s :=
  { h with view := fun hl => hΦ _ (h.view hl) }

def Good (m : Monitor X V W) (nproc p : Nat) (s s' : State X) : Prop :=
  m.Inv nproc s' ∧ ∀ q, q ≠ p → m.Env q s s'

lemma wp_step {a : Act X} {S : State X → Prop} {U : a.Res → State X → Prop}
    (hS : ∀ s s', m.Env p s s' → S s → S s')
    (h : ∀ s r s', m.Inv nproc s → (m.logic nproc).Given (.proc p) a s → S s →
      (s.procs p).onCpu = true → step p a s = .next r s' → Good m nproc p s s' ∧ U r s')
    (hs : S s) : m.Spec body nproc p (act a) U s := by
  refine wp_call hs hS fun s hi hg hS => ⟨trivial, .of_next (fun _ _ => trivial) fun r s' he => ?_⟩
  obtain ⟨hon, hst⟩ := exec_proc he
  obtain ⟨hgood, hU⟩ := h s r s' hi hg hS hon hst
  refine ⟨hgood.1, fun q hq => ?_, hU⟩
  cases q with
  | proc q => exact hgood.2 q (fun h => hq (h ▸ rfl))
  | cpu n => trivial

/-! ## Actions -/

/-- A step of `p` that changes neither the data nor what is owed, and makes nobody sleep. -/
structure Quiet (p : Nat) (s s' : State X) : Prop where
  data : s'.data = s.data
  debts : ∀ j, (s'.procs j).debts = (s.procs j).debts
  state : ∀ j, (s'.procs j).state = .sleeping → (s.procs j).state = .sleeping
  chan : ∀ j, j ≠ p ∨ (s'.procs j).state = .sleeping → (s'.procs j).chan = (s.procs j).chan

lemma Quiet.asleep (h : Quiet p s s') {j : Nat} (ha : Asleep j c s') : Asleep j c s :=
  ⟨h.state j ha.1, (h.chan j (.inr ha.1)).symm.trans ha.2⟩

lemma Quiet.due (h : Quiet p s s') (hd : m.Due c s) : m.Due c s' := by
  unfold Due
  simp only [h.data, h.debts]
  exact hd

lemma Quiet.good (h : Quiet p s s') (hi : m.Inv nproc s)
    (hl : ∀ q, q ≠ p → ∀ l, s'.locks l = some q ↔ s.locks l = some q)
    (hp : m.prompt → (s.procs p).debts ≠ [] → s'.locks lk = some p)
    (hcpu : ∀ i, (s'.procs i).onCpu = true → i < nproc ∧ ((s'.procs i).state = .running ∨
      ((s'.procs i).state = .sleeping ∧ s'.locks ptableLock = some i)))
    (hout : ∀ i, nproc ≤ i → (s'.procs i).state = .unused) : Good m nproc p s s' := by
  refine ⟨⟨?_, fun i c ha => h.due (hi.due i c (h.asleep ha)), fun i c ha => ?_, fun hpr j hj => ?_,
    hcpu, hout⟩, fun q hq =>
    ⟨hl q hq, fun _ => by rw [h.data], by rw [h.data], h.debts q, h.chan q (.inl hq),
      fun ha hs => ha (h.state q hs), fun _ c hd => h.due hd, fun _ i c hn ha => hn (h.asleep ha)⟩⟩
  · rw [h.data]
    exact hi.valid
  · rw [h.data]
    exact hi.waits i c (h.asleep ha)
  · rw [h.debts] at hj
    by_cases hjp : j = p
    · rw [hjp] at hj ⊢
      exact hp hpr hj
    · exact (hl j hjp lk).mpr (hi.prompt hpr j hj)

lemma good_setProc {q : Proc} (hi : m.Inv nproc s) (hd : q.debts = (s.procs i).debts)
    (hst : q.state = .sleeping → (s.procs i).state = .sleeping)
    (hch : i ≠ p ∨ q.state = .sleeping → q.chan = (s.procs i).chan)
    (hon : q.onCpu = true → i < nproc ∧ (q.state = .running ∨
      (q.state = .sleeping ∧ s.locks ptableLock = some i)))
    (hout : nproc ≤ i → q.state = .unused) : Good m nproc p s (s.setProc i q) := by
  have hself : (s.setProc i q).procs i = q := by simp
  have hne : ∀ j, j ≠ i → (s.setProc i q).procs j = s.procs j := fun j hj => by simp [hj]
  refine Quiet.good ⟨rfl, fun j => ?_, fun j => ?_, fun j => ?_⟩ hi (fun _ _ _ => .rfl)
    (fun hpr => hi.prompt hpr p) (fun j => ?_) fun j => ?_
  all_goals by_cases hj : j = i
  · rw [hj, hself, hd]
  · rw [hne j hj]
  · rw [hj, hself]
    exact hst
  · rw [hne j hj]
    exact id
  · rw [hj, hself]
    exact hch
  · rw [hne j hj]
    exact fun _ => rfl
  · rw [hj, hself]
    exact hon
  · rw [hne j hj]
    exact hi.cpu j
  · rw [hj, hself]
    exact hout
  · rw [hne j hj]
    exact hi.out j

lemma Good.refl (hi : m.Inv nproc s) : Good m nproc p s s := ⟨hi, fun q _ => .refl m q s⟩

lemma Inv.lt (hi : m.Inv nproc s) (hon : (s.procs p).onCpu = true) : ¬nproc ≤ p := by
  have := (hi.cpu p hon).1
  omega

lemma good_lock {q : Proc} {L : Table (Option Nat)} (hi : m.Inv nproc s)
    (hq : q.debts = (s.procs p).debts ∧ q.state = (s.procs p).state ∧ q.chan = (s.procs p).chan)
    (hon : q.onCpu = true → (s.procs p).onCpu = true ∧ (s.procs p).state ≠ .sleeping)
    (hL : ∀ o, o ≠ p → ∀ l, L l = some o ↔ s.locks l = some o)
    (hp : m.prompt → (s.procs p).debts ≠ [] → L lk = some p) :
    Good m nproc p s { s.setProc p q with locks := L } := by
  have hproc : ∀ j, State.procs { s.setProc p q with locks := L } j = if j = p then q else s.procs j :=
    fun j => State.setProc_procs s p j q
  refine Quiet.good ⟨rfl, fun j => ?_, fun j => ?_, fun j => ?_⟩ hi hL hp (fun j => ?_) fun j => ?_
  all_goals
    rw [hproc]
    by_cases hj : j = p
  · rw [if_pos hj, hj]
    exact hq.1
  · rw [if_neg hj]
  · rw [if_pos hj, hj, hq.2.1]
    exact id
  · rw [if_neg hj]
    exact id
  · rw [if_pos hj, hj]
    exact fun _ => hq.2.2
  · rw [if_neg hj]
    exact fun _ => rfl
  · rw [if_pos hj, hj, hq.2.1]
    intro hq
    obtain ⟨ho, ha⟩ := hon hq
    have hc := hi.cpu p ho
    exact ⟨hc.1, hc.2.imp_right fun hs => absurd hs.1 ha⟩
  · rw [if_neg hj]
    intro ho
    have hc := hi.cpu j ho
    exact ⟨hc.1, hc.2.imp_right fun hs => ⟨hs.1, (hL j hj _).mpr hs.2⟩⟩
  · rw [if_pos hj, hj, hq.2.1]
    exact hi.out p
  · rw [if_neg hj]
    exact hi.out j

lemma Knows.lock {q : Proc} {L : Table (Option Nat)} {H' : List Nat} (h : m.Knows p H D w Φ s)
    (hq : q.debts = (s.procs p).debts ∧ q.state = (s.procs p).state ∧ q.chan = (s.procs p).chan)
    (hL : ∀ l, L l = some p ↔ l ∈ H') (hΨ : lk ∈ H' → Ψ (m.view s.data)) :
    m.Knows p H' D w Ψ { s.setProc p q with locks := L } := by
  refine ⟨hL, ?_, ?_, h.own, hΨ⟩
  · show ((s.setProc p q).procs p).state ≠ .sleeping
    rw [State.setProc_procs, if_pos rfl, hq.2.1]
    exact h.awake
  · show ((s.setProc p q).procs p).debts = D
    rw [State.setProc_procs, if_pos rfl, hq.1]
    exact h.debts

lemma wp_acquire (l : Nat) (hv : l = lk → ∀ x, m.Valid x → m.own p x = w → Φ (m.view x)) (hs : m.Knows p H D w Φ s) :
    m.Spec body nproc p (acquire l) (fun _ => m.Knows p (l :: H) D w Φ) s := by
  refine wp_step (fun _ _ he h => h.env he) (fun s _ s' hi _ hk hon he => ?_) hs
  rw [step] at he
  cases hl : s.locks l with
  | some o =>
    rw [hl] at he
    dsimp only at he
    split at he <;> cases he
  | none =>
    rw [hl] at he
    cases he
    have hset : ∀ l', s.locks.set l (some p) l' = if l' = l then some p else s.locks l' :=
      fun l' => Table.get_set _ _ _ _
    refine ⟨good_lock hi ⟨rfl, rfl, rfl⟩ (fun h => ⟨h, hk.awake⟩) (fun o ho l' => ?_) (fun hpr hd => ?_),
      hk.lock ⟨rfl, rfl, rfl⟩ (fun l' => ?_) fun hm => ?_⟩
    · rw [hset]
      by_cases hll : l' = l
      · simp [hll, hl, Ne.symm ho]
      · simp [hll]
    · rw [hset]
      by_cases hll : lk = l
      · simp [hll]
      · rw [if_neg hll]
        exact hi.prompt hpr p hd
    · rw [hset]
      by_cases hll : l' = l
      · simp [hll]
      · simp [hll, hk.locks l']
    · by_cases hll : l = lk
      · exact hv hll _ hi.valid hk.own
      · exact hk.view ((List.mem_cons.mp hm).resolve_left (Ne.symm hll))

lemma mem_drop (hL : ∀ l, s.locks l = some p ↔ l ∈ H) (l l' : Nat) :
    s.locks.set l none l' = some p ↔ l' ∈ H.filter (· ≠ l) := by
  by_cases hll : l' = l
  · simp [hll]
  · simp [hll, hL l']

/-- Releasing a lock; the wakeups that are owed have been called if they have to be. What was
known of the data is still true right after. -/
lemma wp_release_data (l : Nat) (hd : m.prompt → l = lk → D = []) (hs : m.Knows p H D w Φ s) :
    m.Spec body nproc p (release l)
      (fun _ s => (lk ∈ H → Φ (m.view s.data)) ∧ m.Knows p (H.filter (· ≠ l)) D w Φ s) s := by
  refine wp_step (fun _ _ he h => h.env he) (fun s _ s' hi _ hk hon he => ?_) hs
  rw [step] at he
  split at he
  · rename_i hl
    cases he
    refine ⟨good_lock hi ⟨rfl, rfl, rfl⟩ (fun h => ⟨h, hk.awake⟩) (fun o ho l' => ?_) (fun hpr hne => ?_),
      hk.view, hk.lock ⟨rfl, rfl, rfl⟩ (mem_drop hk.locks l) fun hm => hk.view (List.mem_filter.mp hm).1⟩
    · by_cases hll : l' = l
      · simp [hll, hl, Ne.symm ho]
      · simp [hll]
    have hll : lk ≠ l := by
      rintro rfl
      exact hne (hk.debts.trans (hd hpr rfl))
    rw [Table.get_set_ne _ _ hll]
    exact hi.prompt hpr p hne
  · cases he

lemma wp_release (l : Nat) (hd : m.prompt → l = lk → D = []) (hs : m.Knows p H D w Φ s) :
    m.Spec body nproc p (release l)
      (fun _ => m.Knows p (H.filter (· ≠ l)) D w Φ) s :=
  wp_mono (wp_release_data l hd hs) fun _ _ h => h.2

lemma Knows.setProc {q : Proc} (h : m.Knows p H D w Φ s)
    (hq : i = p → q.state ≠ .sleeping ∧ q.debts = (s.procs p).debts) :
    m.Knows p H D w Φ (s.setProc i q) := by
  by_cases hi : p = i
  · obtain ⟨h1, h2⟩ := hq hi.symm
    refine ⟨h.locks, ?_, ?_, h.own, h.view⟩
    · rw [State.setProc_procs, if_pos hi]
      exact h1
    · rw [State.setProc_procs, if_pos hi, h2]
      exact h.debts
  · refine ⟨h.locks, ?_, ?_, h.own, h.view⟩
    · rw [State.setProc_procs, if_neg hi]
      exact h.awake
    · rw [State.setProc_procs, if_neg hi]
      exact h.debts

/-! ## Wakeup -/

lemma good_wake {q : Proc} (hi : m.Inv nproc s) (hk : m.Knows p H D w Φ s) (hl : ptableLock ∈ H)
    (hsl : (s.procs i).state = .sleeping) (hst : q.state = .runnable)
    (hd : q.debts = (s.procs i).debts) (hch : q.chan = (s.procs i).chan)
    (hon : q.onCpu = (s.procs i).onCpu) : Good m nproc p s (s.setProc i q) := by
  have hip : i ≠ p := by
    rintro rfl
    exact hk.awake hsl
  refine good_setProc hi hd (by simp [hst]) (fun _ => hch) (fun h => ?_) fun h => ?_
  · -- a sleeper that is still on a CPU holds `ptable.lock` itself
    rcases (hi.cpu i (hon ▸ h)).2 with hr | ⟨-, ho⟩
    · simp [hsl] at hr
    · rw [(hk.locks _).mpr hl] at ho
      exact absurd (Option.some.inj ho).symm hip
  · simp [hi.out i h] at hsl

structure Scanned (m : Monitor X V W) (p : Nat) (H : List Nat) (D : List Chan) (w : W) (Φ : V → Prop)
    (c : Chan) (n : Nat) (s : State X) : Prop where
  knows : m.Knows p H D w Φ s
  awake : ∀ j, j < n → ¬Asleep j c s

lemma Scanned.env (hl : ptableLock ∈ H) (h : Scanned m p H D w Φ c n s) (he : m.Env p s s') :
    Scanned m p H D w Φ c n s' :=
  ⟨h.knows.env he, fun j hj => he.sleepers ((h.knows.locks _).mpr hl) j c (h.awake j hj)⟩

lemma wp_wake (hl : ptableLock ∈ H) (hs : Scanned m p H D w Φ c i s) :
    m.Spec body nproc p (act (.wake i (some c)))
      (fun _ => Scanned m p H D w Φ c (i + 1)) s := by
  refine wp_step (fun _ _ he h => Scanned.env hl h he) (fun s _ s' hi _ hk hon he => ?_) hs
  rw [step] at he
  cases he
  split
  · rename_i hsl
    have hip : i ≠ p := by
      rintro rfl
      exact hk.knows.awake hsl.1
    refine ⟨good_wake hi hk.knows hl hsl.1 rfl rfl rfl rfl, hk.knows.setProc fun h => absurd h hip,
      fun j hj ha => ?_⟩
    unfold Asleep at ha
    rw [State.setProc_procs] at ha
    split at ha
    · simp at ha
    · exact hk.awake j (by omega) ha
  · rename_i hsl
    refine ⟨.refl hi, hk.knows, fun j hj ha => ?_⟩
    by_cases hji : j = i
    · exact hsl (hji ▸ ha)
    · exact hk.awake j (by omega) ha

lemma good_own {D' : List Chan} {x : X} (hi : m.Inv nproc s) (hk : (s.procs p).state ≠ .sleeping)
    (hv : m.Valid x) (hx : m.view x = m.view s.data ∨ s.locks lk = some p)
    (hown : ∀ q, q ≠ p → m.own q x = m.own q s.data) (hp : m.prompt → D' ≠ [] → s.locks lk = some p)
    (hdue : ∀ c, (∃ i, Asleep i c s) ∨ s.locks ptableLock ≠ some p → m.Due c s →
      m.Ready c (m.view x) → ∃ j, m.Owes (m.view x) j ∧ c ∈ if j = p then D' else (s.procs j).debts) :
    Good m nproc p s { s.setProc p { s.procs p with debts := D' } with data := x } := by
  have hproc : ∀ j, State.procs { s.setProc p { s.procs p with debts := D' } with data := x } j =
      { s.procs j with debts := if j = p then D' else (s.procs j).debts } := by
    intro j
    refine (State.setProc_procs s p j _).trans ?_
    split
    · rename_i hj
      rw [hj]
    · rfl
  generalize hs : ({ s.setProc p { s.procs p with debts := D' } with data := x } : State X) = s' at hproc ⊢
  have hlocks : s'.locks = s.locks := by rw [← hs, State.setProc_locks]
  have hdata : s'.data = x := by rw [← hs]
  have hasleep : ∀ i c, Asleep i c s' ↔ Asleep i c s := fun i c => by
    unfold Asleep
    rw [hproc]
  have hdue' : ∀ c, (∃ i, Asleep i c s) ∨ s.locks ptableLock ≠ some p → m.Due c s → m.Due c s' := by
    intro c hc hd hr
    rw [hdata] at hr ⊢
    simpa only [hproc] using hdue c hc hd hr
  refine ⟨⟨hdata ▸ hv, fun i c ha => ?_, fun i c ha => ?_, fun hpr j hj => ?_, fun i => ?_, fun i => ?_⟩,
    fun q hq => ⟨fun l => by rw [hlocks], fun hl => ?_, ?_, by rw [hproc, if_neg hq], by rw [hproc],
      fun ha => by rwa [hproc], fun hl c => hdue' c (.inr ?_), fun _ i c => by rw [hasleep]; exact id⟩⟩
  · rw [hasleep] at ha
    exact hdue' c (.inl ⟨i, ha⟩) (hi.due i c ha)
  · rw [hasleep] at ha
    have hip : i ≠ p := by
      rintro rfl
      exact hk ha.1
    rw [hdata, hown i hip]
    exact hi.waits i c ha
  · rw [hproc] at hj
    rw [hlocks]
    by_cases hjp : j = p
    · rw [hjp]
      exact hp hpr (by simpa only [hjp, if_true] using hj)
    · exact hi.prompt hpr j (by simpa only [hjp, if_false] using hj)
  · rw [hproc, hlocks]
    exact hi.cpu i
  · rw [hproc]
    exact hi.out i
  · rw [hdata]
    refine hx.resolve_right fun hp => hq ?_
    rw [hl] at hp
    exact Option.some.inj hp
  · rw [hdata]
    exact hown q hq
  · rw [hl]
    exact fun h => hq (Option.some.inj h)

lemma Knows.set {D' : List Chan} {x : X} (h : m.Knows p H D w Φ s) (hw : m.own p x = w')
    (hx : lk ∈ H → Ψ (m.view x)) :
    m.Knows p H D' w' Ψ { s.setProc p { s.procs p with debts := D' } with data := x } := by
  refine ⟨h.locks, ?_, ?_, hw, hx⟩
  · show ((s.setProc p { s.procs p with debts := D' }).procs p).state ≠ .sleeping
    rw [State.setProc_procs, if_pos rfl]
    exact h.awake
  · show ((s.setProc p { s.procs p with debts := D' }).procs p).debts = D'
    rw [State.setProc_procs, if_pos rfl]

lemma wp_woken (hl : ptableLock ∈ H) (hs : Scanned m p H D w Φ c nproc s) :
    m.Spec body nproc p (act (.woken (some c)))
      (fun _ => m.Knows p H (D.filter (· ≠ c)) w Φ) s := by
  refine wp_step (fun _ _ he h => Scanned.env hl h he) (fun s _ s' hi _ hk hon he => ?_) hs
  cases he
  have hlock := (hk.knows.locks _).mpr hl
  have hnone : ∀ j, ¬Asleep j c s := by
    intro j ha
    by_cases hj : j < nproc
    · exact hk.awake j hj ha
    · have hu := hi.out j (by omega)
      simp [ha.1] at hu
  have hfil : ((s.procs p).debts.filter fun d => some d ≠ some c) = D.filter (· ≠ c) := by
    rw [hk.knows.debts]
    simp
  simp only [hfil]
  refine ⟨good_own hi hk.knows.awake hi.valid (.inl rfl) (fun _ _ => rfl) (fun hpr hne => ?_)
    (fun c' hc hd hr => ?_), hk.knows.set hk.knows.own hk.knows.view⟩
  · refine hi.prompt hpr p fun h => hne ?_
    rw [← hk.knows.debts, h, List.filter_nil]
  obtain ⟨j, hj, hmem⟩ := hd hr
  refine ⟨j, hj, ?_⟩
  split
  · rename_i hjp
    rw [hjp, hk.knows.debts] at hmem
    obtain ⟨i, ha⟩ := hc.resolve_right (fun h => h hlock)
    have hcc : c' ≠ c := by
      rintro rfl
      exact hnone i ha
    simpa [hmem] using hcc
  · exact hmem

lemma wp_wakeFrom (hl : ptableLock ∈ H) (hn : i + n = nproc) (hs : Scanned m p H D w Φ c i s) :
    m.Spec body nproc p (wakeFrom (some c) n i)
      (fun _ => m.Knows p H (D.filter (· ≠ c)) w Φ) s := by
  induction n generalizing i s with
  | zero =>
    obtain rfl : i = nproc := by omega
    exact wp_woken hl hs
  | succ n ih => exact wp_seq (wp_wake hl hs) fun _ _ h => ih (by omega) h

lemma wp_wakeup (hH : ptableLock ∉ H) (c : Chan) (hs : m.Knows p H D w Φ s) :
    m.Spec body nproc p (wakeup nproc c)
      (fun _ => m.Knows p H (D.filter (· ≠ c)) w Φ) s := by
  have hdrop : (ptableLock :: H).filter (· ≠ ptableLock) = H := by
    rw [List.filter_cons_of_neg (by simp)]
    refine List.filter_eq_self.mpr fun l hl => ?_
    simp only [ne_eq, decide_not, Bool.not_eq_true', decide_eq_false_iff_not]
    rintro rfl
    exact hH hl
  refine wp_seq (wp_acquire ptableLock nofun hs) fun _ _ h => ?_
  refine wp_seq (wp_wakeFrom (by simp) (Nat.zero_add _) ⟨h, nofun⟩) fun _ _ h => ?_
  exact hdrop ▸ wp_release ptableLock (fun _ => nofun) h

/-! ## Data -/

variable (m) in
/-- A process that changes the data from `x` to `y` and owes `D` owes every wakeup that the
change calls for. -/
def Pays (p : Nat) (D : List Chan) (x y : V) : Prop :=
  ∀ c, m.Ready c y → (m.Ready c x ∧ ∀ j, m.Owes x j → m.Owes y j) ∨ (c ∈ D ∧ m.Owes y p)

lemma Pays.refl (p : Nat) (D : List Chan) (x : V) : m.Pays p D x x :=
  fun _ hr => .inl ⟨hr, fun _ => id⟩

structure Change (m : Monitor X V W) (p : Nat) (D : List Chan) (w : W) (x y : X) : Prop where
  valid : m.Valid y
  own : m.own p y = w
  others : ∀ q, q ≠ p → m.own q y = m.own q x
  pays : m.Pays p D (m.view x) (m.view y)

lemma Change.refl {x : X} (hv : m.Valid x) (hw : m.own p x = w) : Change m p D w x x :=
  ⟨hv, hw, fun _ _ => rfl, .refl p D _⟩

lemma wp_data {f : Nat → X → X} {owe : List Chan} {T : X → W}
    (hl : lk ∈ H ∨ (owe = [] ∧ ∀ x, m.view (f p x) = m.view x))
    (h : ∀ x, m.Valid x → m.own p x = w → (lk ∈ H → Φ (m.view x)) →
      Change m p (owe ++ D) (T x) x (f p x))
    (hs : m.Knows p H D w Φ s) :
    m.Spec body nproc p (act (.data f owe))
      (fun x s => (m.Valid x ∧ m.own p x = w ∧ (lk ∈ H → Φ (m.view x))) ∧
        m.Knows p H (owe ++ D) (T x) (fun v => v = m.view (f p x)) s) s := by
  refine wp_step (fun _ _ he h => h.env he) (fun s _ s' hi _ hk hon he => ?_) hs
  cases he
  have hc := h s.data hi.valid hk.own hk.view
  rw [hk.debts]
  refine ⟨good_own hi hk.awake hc.valid ?_ hc.others (fun hpr hne => ?_) (fun c _ hd hr => ?_),
    ⟨hi.valid, hk.own, hk.view⟩, hk.set hc.own fun _ => rfl⟩
  · exact hl.symm.imp (fun h => h.2 _) (hk.locks _).mpr
  · rcases hl with hl | ⟨rfl, -⟩
    · exact (hk.locks _).mpr hl
    · exact hi.prompt hpr p (hk.debts ▸ hne)
  rcases hc.pays c hr with ⟨hx, hj⟩ | ⟨hc, ho⟩
  · obtain ⟨j, hjo, hmem⟩ := hd hx
    refine ⟨j, hj j hjo, ?_⟩
    split
    · rename_i hjp
      rw [hjp, hk.debts] at hmem
      exact List.mem_append_right owe hmem
    · exact hmem
  · exact ⟨p, ho, by rwa [if_pos rfl]⟩

lemma wp_killed (hs : m.Knows p H D w Φ s) :
    m.Spec body nproc p (act .killed)
      (fun r s => (r = true → m.Spared D) ∧ m.Knows p H D w Φ s) s := by
  refine wp_step (fun _ _ he h => h.env he) (fun s r s' hi hg hk hon he => ?_) hs
  cases he
  exact ⟨.refl hi, fun hr => hk.debts ▸ hg hr, hk⟩

/-! ## Kill -/

lemma wp_kill_slot (hl : ptableLock ∈ H) (pid : Int32) (hs : m.Knows p H D w Φ s) :
    m.Spec body nproc p (act (.kill i pid)) (fun _ => m.Knows p H D w Φ) s := by
  refine wp_step (fun _ _ he h => h.env he) (fun s r s' hi _ hk hon he => ?_) hs
  rw [step] at he
  split at he
  · cases he
    by_cases hsl : (s.procs i).state = .sleeping
    · have hip : i ≠ p := by
        rintro rfl
        exact hk.awake hsl
      exact ⟨good_wake hi hk hl hsl (if_pos hsl) rfl rfl rfl, hk.setProc fun h => absurd h hip⟩
    · simp only [if_neg hsl]
      exact ⟨good_setProc hi rfl id (fun _ => rfl) (hi.cpu i) (hi.out i),
        hk.setProc fun h => ⟨hsl, by rw [h]⟩⟩
  · cases he
    exact ⟨.refl hi, hk⟩

lemma wp_killFrom (hl : ptableLock ∈ H) (pid : Int32) (hs : m.Knows p H D w Φ s) :
    m.Spec body nproc p (killFrom pid n i) (fun _ => m.Knows p H D w Φ) s := by
  induction n generalizing i s with
  | zero => exact wp_ret hs
  | succ n ih =>
    refine wp_seq (wp_kill_slot hl pid hs) fun r _ h => ?_
    cases r with
    | true => exact wp_ret h
    | false => exact ih h

lemma wp_kill (pid : Int32) (hs : m.Knows p [] D w Φ s) :
    m.Spec body nproc p (kill nproc pid) (fun _ => m.Knows p [] D w Φ) s := by
  refine wp_seq (wp_acquire ptableLock nofun hs) fun _ _ h => ?_
  refine wp_seq (wp_killFrom (by simp) pid h) fun _ _ h => ?_
  exact wp_seq_ret (wp_release ptableLock (fun _ => nofun) h)

/-! ## Sleep -/

structure Drowsy (m : Monitor X V W) (p : Nat) (D : List Chan) (w : W) (c : Chan) (s : State X) :
    Prop where
  knows : m.Knows p [ptableLock] D w (fun _ => True) s
  due : m.Due c s

lemma Drowsy.env (h : Drowsy m p D w c s) (he : m.Env p s s') : Drowsy m p D w c s' :=
  ⟨h.knows.env he, he.due ((h.knows.locks _).mpr (by simp)) c h.due⟩

lemma Due.setProc {q : Proc} (hq : q.debts = (s.procs i).debts) (h : m.Due c s) : m.Due c (s.setProc i q) := by
  intro hr
  obtain ⟨w, how, hmem⟩ := h hr
  refine ⟨w, how, ?_⟩
  rw [State.setProc_procs]
  split
  · rename_i hw
    rwa [hq, ← hw]
  · exact hmem

lemma wp_setChan (o : Option Chan) {S : State X → Prop} (hS : ∀ s s', m.Env p s s' → S s → S s')
    (hk : ∀ s, S s → m.Knows p H D w Φ s) (hs : S s) :
    m.Spec body nproc p (act (.setChan o))
      (fun _ s' => ∃ s, S s ∧ s' = s.setProc p { s.procs p with chan := o }) s := by
  refine wp_step hS (fun s _ s' hi _ h hon he => ?_) hs
  cases he
  exact ⟨good_setProc hi rfl id (fun h' => absurd (h'.resolve_left (fun h => h rfl)) (hk s h).awake)
    (hi.cpu p) (hi.out p), s, h, rfl⟩

lemma wp_sleeping (hw : m.Waits c w) (hs : Drowsy m p D w c s ∧ (s.procs p).chan = some c) :
    m.Spec body nproc p (act .sleeping)
      (fun _ => m.Napping p [ptableLock] D w) s := by
  refine wp_step (S := fun s => Drowsy m p D w c s ∧ (s.procs p).chan = some c)
    (fun _ _ he h => ⟨h.1.env he, he.chan.trans h.2⟩) (fun s _ s' hi _ hk hon he => ?_) hs
  cases he
  obtain ⟨hk, hchan⟩ := hk
  have hlock : s.locks ptableLock = some p := (hk.knows.locks _).mpr (by simp)
  have hself : (s.setProc p { s.procs p with state := .sleeping }).procs p =
      { s.procs p with state := .sleeping } := by simp
  have hne : ∀ j, j ≠ p → (s.setProc p { s.procs p with state := .sleeping }).procs j = s.procs j :=
    fun j hj => by simp [hj]
  have hasleep : ∀ j, j ≠ p → ∀ c', Asleep j c' (s.setProc p { s.procs p with state := .sleeping }) →
      Asleep j c' s := by
    intro j hj c' ha
    unfold Asleep at ha
    rwa [hne j hj] at ha
  have hself' : ∀ c', Asleep p c' (s.setProc p { s.procs p with state := .sleeping }) → c' = c := by
    intro c' ha
    have hc := ha.2
    rw [hself, hchan] at hc
    exact (Option.some.inj hc).symm
  refine ⟨⟨⟨hi.valid, fun j c' ha => ?_, fun j c' ha => ?_, fun hpr j hj => ?_, fun j hj => ?_,
    fun j hj => ?_⟩, fun q hq => ?_⟩, hk.knows.locks, ?_, hk.knows.own⟩
  · by_cases hj : j = p
    · subst hj
      exact hself' c' ha ▸ hk.due.setProc rfl
    · exact (hi.due j c' (hasleep j hj c' ha)).setProc rfl
  · by_cases hj : j = p
    · subst hj
      exact hself' c' ha ▸ hk.knows.own.symm ▸ hw
    · exact hi.waits j c' (hasleep j hj c' ha)
  · by_cases hjp : j = p
    · rw [hjp, hself] at hj
      exact hjp ▸ hi.prompt hpr p hj
    · rw [hne j hjp] at hj
      exact hi.prompt hpr j hj
  · by_cases hjp : j = p
    · rw [hjp, hself]
      exact ⟨(hi.cpu p hon).1, .inr ⟨rfl, hlock⟩⟩
    · rw [hne j hjp] at hj ⊢
      exact hi.cpu j hj
  · have hjp : j ≠ p := by
      rintro rfl
      exact hi.lt hon hj
    rw [hne j hjp]
    exact hi.out j hj
  · have hown : s.locks ptableLock ≠ some q := by
      rw [hlock]
      exact fun h => hq (Option.some.inj h).symm
    refine ⟨fun _ => .rfl, fun _ => rfl, rfl, ?_, ?_, ?_, fun h => absurd h hown, fun h => absurd h hown⟩
    all_goals rw [hne q hq]
    exact id
  · rw [hself]
    exact hk.knows.debts

lemma wp_sched (hd : m.prompt → D = []) (hs : m.Napping p [ptableLock] D w s) :
    m.Spec body nproc p (act .sched) (fun _ => m.Napping p [] D w) s := by
  refine wp_step (fun _ _ he h => h.env he) (fun s _ s' hi _ hk hon he => ?_) hs
  have hlock : s.locks ptableLock = some p := (hk.locks _).mpr (by simp)
  simp only [step, hlock, ne_eq, not_true, if_false] at he
  split at he
  · cases he
  split at he
  · cases he
  cases he
  refine ⟨good_lock hi ⟨rfl, rfl, rfl⟩ nofun (fun o ho l => ?_) fun hpr hne => absurd (hk.debts.trans (hd hpr)) hne,
    mem_drop hk.locks ptableLock, ?_, hk.own⟩
  · by_cases hl : l = ptableLock
    · simp [hl, hlock, Ne.symm ho]
    · simp [hl]
  · show ((s.setProc p _).procs p).debts = D
    rw [State.setProc_procs, if_pos rfl]
    exact hk.debts

lemma Napping.knows (h : m.Napping p [] D w s) (hi : m.Inv nproc s) (hon : (s.procs p).onCpu = true) :
    m.Knows p [] D w (fun _ => True) s := by
  refine ⟨h.locks, fun hs => ?_, h.debts, h.own, fun _ => trivial⟩
  rcases (hi.cpu p hon).2 with hr | ⟨-, hl⟩
  · rw [hs] at hr
    cases hr
  · exact absurd ((h.locks _).mp hl) (List.not_mem_nil)

lemma wp_awake {a : Act X} {U : a.Res → State X → Prop}
    (h : ∀ s, m.Knows p [] D w (fun _ => True) s → m.Spec body nproc p (act a) U s)
    (hs : m.Napping p [] D w s) : m.Spec body nproc p (act a) U s := by
  intro s' he hi hg
  have hn : m.Napping p [] D w s' := hs.env he
  refine ⟨trivial, .of_next (fun _ _ => trivial) fun r t ht => ?_⟩
  have hw := (h s' (hn.knows hi (exec_proc ht).1) s' (.refl m p s') hi hg).2
  unfold Does at hw
  rw [ht] at hw
  exact hw

/-- A process sleeps when it knows that it is not to go on. When it is back it knows of the data
what is always true. -/
lemma wp_sleep (hd : m.prompt → D = []) (hΦ : ∀ v, Φ v → ¬m.Ready c v) (hw : m.Waits c w)
    (hv : ∀ x, m.Valid x → m.own p x = w → Ψ (m.view x)) (hs : m.Knows p [lk] D w Φ s) :
    m.Spec body nproc p (sleep c lk) (fun _ => m.Knows p [lk] D w Ψ) s := by
  refine wp_seq (wp_acquire ptableLock nofun hs) fun _ _ h => ?_
  refine wp_seq (wp_release_data lk (fun hpr _ => hd hpr) h) fun _ s h => ?_
  have hs : Drowsy m p D w c s :=
    ⟨{ h.2 with view := fun _ => trivial }, fun hr => absurd hr (hΦ _ (h.1 (by simp)))⟩
  refine wp_seq (wp_setChan (some c) (fun _ _ he h => h.env he) (fun _ h => h.knows) hs) fun _ s' h => ?_
  obtain ⟨s, hs, rfl⟩ := h
  have hs' : Drowsy m p D w c (s.setProc p { s.procs p with chan := some c }) :=
    ⟨hs.knows.setProc fun _ => ⟨hs.knows.awake, rfl⟩, hs.due.setProc rfl⟩
  refine wp_seq (wp_sleeping hw ⟨hs', by simp⟩) fun _ _ h => ?_
  refine wp_seq (wp_seq (wp_sched hd h) fun _ _ h => wp_awake (fun _ h => wp_acquire ptableLock nofun h) h)
    fun _ _ h => ?_
  refine wp_seq (wp_setChan none (fun _ _ he h => h.env he) (fun _ h => h) h) fun _ s' h => ?_
  obtain ⟨s, hk, rfl⟩ := h
  have hk' : m.Knows p [ptableLock] D w (fun _ => True) (s.setProc p { s.procs p with chan := none }) :=
    hk.setProc fun _ => ⟨hk.awake, rfl⟩
  refine wp_seq (wp_release ptableLock (fun _ => nofun) hk') fun _ _ h => ?_
  exact wp_acquire lk (fun _ => hv) { h with view := nofun }

/-! ## Whole runs -/

lemma wp_never {a : Act X} {U : a.Res → State X → Prop} (ha : ∀ s, step p a s = .blocked) :
    m.Spec body nproc p (act a) U s := by
  refine wp_step (S := fun _ => True) (fun _ _ _ _ => trivial) (fun s r s' _ _ _ _ he => ?_) trivial
  rw [ha] at he
  cases he

lemma switch_good {a : Act X} {r : a.Res} (hi : m.Inv nproc s) (he : switch a s = .next r s') :
    ∀ p, Good m nproc p s s' := by
  intro p
  cases a with
  | schedule i =>
    rw [switch] at he
    split at he
    · rename_i hr
      cases he
      have hlt : ¬nproc ≤ i := fun h => by simp [hi.out i h] at hr
      exact good_setProc hi rfl nofun (fun _ => rfl) (fun _ => ⟨by omega, .inl rfl⟩)
        fun h => absurd h hlt
    · cases he
  | preempt i =>
    rw [switch] at he
    split at he
    · rename_i hr
      cases he
      exact good_setProc hi rfl nofun (fun _ => rfl) nofun fun h => absurd h (hi.lt hr.2.2.1)
    · cases he
  | _ => cases he

lemma wp_cpu (n : Nat) (g : Kprog X Unit) (s : State X) :
    wp (machine body) (m.logic nproc) (.cpu n) g (fun _ _ => True) s := by
  induction g generalizing s with
  | ret a => trivial
  | act a k ih =>
    intro s' _ hi _
    refine ⟨trivial, .of_next (fun _ _ => trivial) fun r s'' he => ?_⟩
    have hg := switch_good hi he
    refine ⟨(hg 0).1, fun t _ => ?_, ih r s''⟩
    cases t with
    | proc q => exact (hg (q + 1)).2 q (by omega)
    | cpu n => trivial

lemma crowd_get (n i : Nat) : crowd n i =
    if i < n then { Proc.unused with state := .runnable, pid := Int32.ofNat (i + 1) }
    else Proc.unused := by
  induction n with
  | zero => exact Table.get_const _ _
  | succ n ih =>
    rw [crowd, Table.get_set, ih]
    grind

lemma ready_inv (nproc : Nat) {x : X} (hv : m.Valid x) : m.Inv nproc (ready nproc x) := by
  have hproc : ∀ i, (ready nproc x).procs i = crowd nproc i := fun _ => rfl
  have hidle : ∀ i, (crowd nproc i).debts = [] ∧ (crowd nproc i).onCpu = false ∧
      (crowd nproc i).state ≠ .sleeping := by
    intro i
    rw [crowd_get]
    split <;> simp [Proc.unused]
  refine ⟨hv, fun i c ha => absurd ha.1 (hidle i).2.2, fun i c ha => absurd ha.1 (hidle i).2.2,
    fun _ j hj => absurd (hidle j).1 hj, fun i hi => ?_,
    fun i hi => ?_⟩
  · rw [hproc, (hidle i).2.1] at hi
    cases hi
  · rw [hproc, crowd_get, if_neg (by omega)]
    rfl

lemma ready_napping (nproc p : Nat) {x : X} (hw : m.own p x = w) : m.Napping p [] [] w (ready nproc x) := by
  refine ⟨fun l => ?_, ?_, hw⟩
  · show (Table.const none).get l = some p ↔ _
    simp
  · show (crowd nproc p).debts = []
    rw [crowd_get]
    split <;> rfl

/-- If every call keeps its wakeups, no run forgets a sleeper. -/
theorem sound (hbody : ∀ x p D s, m.Settled D → m.Knows p [] D m.idle (fun _ => True) s →
      m.Spec body nproc p (body x)
        (fun _ s => ∃ D, m.Settled D ∧ m.Knows p [] D m.idle (fun _ => True) s) s)
    {x₀ : X} (hv : m.Valid x₀) (h0 : ∀ p, m.own p x₀ = m.idle) (hD : m.Settled [])
    {c : Config Tid (Act X) Act.Res (State X) Panic}
    (hr : Reaches (machine body) (m.logic nproc).Given (.initial (ready nproc x₀)) c) :
    Logic.Sound (machine body) (m.logic nproc) c := by
  refine Logic.sound ?_ ?_ ?_ ?_ (ready_inv nproc hv) ?_ hr
  · intro t s
    cases t with
    | proc p => exact .refl m p s
    | cpu n => trivial
  · intro t s s' s'' h h'
    cases t with
    | proc p => exact Env.trans h h'
    | cpu n => trivial
  · intro t s s' he h
    cases t with
    | proc p =>
      obtain ⟨D, hD, hn⟩ := h
      exact ⟨D, hD, hn.env he⟩
    | cpu n => trivial
  · intro t x s hi hidle hc
    cases t with
    | cpu n => exact wp_cpu n _ s
    | proc p =>
      obtain ⟨D, hD, hn⟩ := hidle
      refine wp_mono (hbody x p D s hD (hn.knows hi hc)) fun _ _ h => ?_
      obtain ⟨D, hD, hk⟩ := h
      exact ⟨D, hD, hk.locks, hk.debts, hk.own⟩
  · intro t
    cases t with
    | proc p => exact ⟨[], hD, ready_napping nproc p (h0 p)⟩
    | cpu n => trivial

end Monitor

end Xv6.Process
