import Xv6.Process
import Mathlib.Algebra.Group.Nat.Defs
import Mathlib.Order.Basic

/-!
# The process table

The processes form a tree below init. The states in which a process can run or sleep are one phase
here: scheduling does not touch the tree.
-/

namespace Xv6.Process

open Threads

variable {X : Type} {s s' s'' : State X} {p i j r l nproc : Nat} {c : Int32}

inductive Phase where
  | unused
  | embryo
  | alive
  | zombie
deriving DecidableEq

def ProcState.phase : ProcState → Phase
  | .unused => .unused
  | .embryo => .embryo
  | .zombie => .zombie
  | _ => .alive

/-- What the tree of processes depends on. -/
structure Slot where
  phase : Phase
  pid : Int32
  parent : Option Nat
  maker : Nat
  forker : Int32

def Proc.slot (q : Proc) : Slot := ⟨q.state.phase, q.pid, q.parent, q.maker, q.forker⟩

def State.slot (s : State X) (i : Nat) : Slot := (s.procs i).slot

def Issued (n : Nat) (c : Int32) : Prop := ∃ k, 1 ≤ k ∧ k ≤ n ∧ c = Int32.ofNat k

/-- The children of live processes that were not handed over by a process that is just exiting. -/
def Clean (s : State X) : Prop :=
  ∀ i r, i ≠ initproc → (s.slot i).phase = .alive ∨ (s.slot i).phase = .zombie →
    (s.slot i).parent = some r →
    (s.slot r).pid = (s.slot i).forker ∨ (r = initproc ∧ (s.slot i).forker ∈ s.exits)

structure Inv (nproc : Nat) (s : State X) : Prop where
  root : (s.slot initproc).phase = .alive ∧ (s.slot initproc).pid = 1 ∧
    (s.slot initproc).parent = none
  out : ∀ i, nproc ≤ i → i ≠ initproc → (s.slot i).phase = .unused
  count : 1 ≤ s.created ∧ s.created < 2 ^ 31 ∧ s.nextpid = Int32.ofNat (s.created + 1)
  issued : ∀ i, (s.slot i).phase ≠ .unused → Issued s.created (s.slot i).pid
  distinct : ∀ i j, (s.slot i).phase ≠ .unused → (s.slot j).phase ≠ .unused →
    (s.slot i).pid = (s.slot j).pid → i = j
  parent : ∀ i, i ≠ initproc → (s.slot i).phase = .alive ∨ (s.slot i).phase = .zombie →
    ∃ r, (s.slot i).parent = some r ∧ (s.slot r).phase = .alive
  orphan : ∀ i, (s.slot i).phase = .unused → (s.slot i).parent = none
  embryo : ∀ i, (s.slot i).phase = .embryo → (s.slot i).parent = none ∨
    (s.slot i).parent = some (s.slot i).maker ∨ (s.slot i).parent = some initproc
  forked : ∀ c q, (c, q) ∈ s.forks → Issued s.created c ∧ ∀ i, (s.slot i).phase ≠ .unused →
    (s.slot i).pid = c → (s.slot i).phase ≠ .embryo ∧ (s.slot i).forker = q
  reaped : ∀ c w, (c, w) ∈ s.waits → Issued s.created c ∧
    ∀ i, (s.slot i).phase ≠ .unused → (s.slot i).pid ≠ c
  once : (s.waits.map Prod.fst).Nodup
  heir : ∀ c q w, (c, q) ∈ s.forks → (c, w) ∈ s.waits → w = q ∨ (w = 1 ∧ q ∈ s.exits)
  adopted : ∀ i r, i ≠ initproc → (s.slot i).phase = .alive ∨ (s.slot i).phase = .zombie →
    (s.slot i).parent = some r → (s.slot r).pid = (s.slot i).forker ∨
      (r = initproc ∧ ((s.slot i).forker ∈ s.exits ∨
        ∃ h, s.locks ptableLock = some h ∧ (s.slot h).pid = (s.slot i).forker))
  holder : ∀ h, s.locks ptableLock = some h → (s.slot h).phase = .alive ∨ (s.slot h).phase = .zombie
  cpu : ∀ i, (s.procs i).onCpu = true → (s.slot i).phase = .alive ∨
    ((s.slot i).phase = .zombie ∧ s.locks ptableLock = some i)

/-- What a process relies on: nobody else takes or frees its locks, ends it, touches a child it
is setting up or gives it children, and while it holds `ptable.lock` nobody exits. -/
structure Env (p : Nat) (s s' : State X) : Prop where
  locks : ∀ l, s'.locks l = some p ↔ s.locks l = some p
  alive : (s.slot p).phase = .alive → (s'.slot p).phase = .alive ∧ (s'.slot p).pid = (s.slot p).pid
  gone : s.locks ptableLock = some p → (s.slot p).phase = .zombie →
    (s'.slot p).phase = .zombie ∧ (s'.slot p).pid = (s.slot p).pid
  clean : s.locks ptableLock = some p → Clean s → Clean s'
  embryo : ∀ i, (s.slot i).phase = .embryo → (s.slot i).maker = p → s'.slot i = s.slot i
  kids : p ≠ initproc → ∀ j, (s.slot j).parent ≠ some p → (s'.slot j).parent ≠ some p

lemma Env.refl (p : Nat) (s : State X) : Env p s s :=
  ⟨fun _ => .rfl, fun h => ⟨h, rfl⟩, fun _ h => ⟨h, rfl⟩, fun _ h => h, fun _ _ _ => rfl,
    fun _ _ h => h⟩

lemma Env.trans (h : Env p s s') (h' : Env p s' s'') : Env p s s'' := by
  have hl : s.locks ptableLock = some p → s'.locks ptableLock = some p := (h.locks _).mpr
  refine ⟨fun l => (h'.locks l).trans (h.locks l), fun ha => ?_, fun hp hz => ?_, fun hp hc => ?_,
    fun i he hm => ?_, fun hp j hj => ?_⟩
  · obtain ⟨ha', hpid⟩ := h.alive ha
    obtain ⟨ha'', hpid'⟩ := h'.alive ha'
    exact ⟨ha'', hpid'.trans hpid⟩
  · obtain ⟨hz', hpid⟩ := h.gone hp hz
    obtain ⟨hz'', hpid'⟩ := h'.gone (hl hp) hz'
    exact ⟨hz'', hpid'.trans hpid⟩
  · exact h'.clean (hl hp) (h.clean hp hc)
  · have hs := h.embryo i he hm
    rw [h'.embryo i (by rw [hs]; exact he) (by rw [hs]; exact hm), hs]
  · exact h'.kids hp j (h.kids hp j hj)

def treeLogic (X : Type) (nproc : Nat) : Logic Tid (Act X) (State X) Panic where
  Inv := Inv nproc
  Rely := fun t s s' => match t with
    | .proc p => Env p s s'
    | .cpu _ => True
  Given := fun _ a s => match a with
    | .alloc i => (s.procs i).state = .unused → s.created + 1 < 2 ^ 31
    | _ => True
  Pre := fun _ _ _ => True
  Allowed := fun _ => True
  Idle := fun t s => match t with
    | .proc p => ∀ l, s.locks l ≠ some p
    | .cpu _ => True

abbrev TreeSpec {C : Type} (body : C → Kprog X Unit) (nproc p : Nat) {α : Type} :=
  wp (α := α) (machine body) (treeLogic X nproc) (.proc p)

def Good (nproc p : Nat) (s s' : State X) : Prop := Inv nproc s' ∧ ∀ q, q ≠ p → Env q s s'

/-! ## Actions that leave the tree alone -/

structure Same (s s' : State X) : Prop where
  slot : ∀ i, s'.slot i = s.slot i
  created : s'.created = s.created
  nextpid : s'.nextpid = s.nextpid
  forks : s'.forks = s.forks
  waits : s'.waits = s.waits
  exits : s'.exits = s.exits

lemma Same.clean (h : Same s s') (hc : Clean s) : Clean s' := by
  intro i r
  rw [h.slot, h.slot, h.exits]
  exact hc i r

lemma Same.env (h : Same s s') (hl : ∀ l, s'.locks l = some p ↔ s.locks l = some p) : Env p s s' := by
  refine ⟨hl, fun ha => ?_, fun _ hz => ?_, fun _ hc => h.clean hc, fun i _ _ => h.slot i, fun _ j hj => ?_⟩
  · rw [h.slot]
    exact ⟨ha, rfl⟩
  · rw [h.slot]
    exact ⟨hz, rfl⟩
  · rwa [h.slot]

lemma Same.good (h : Same s s') (hi : Inv nproc s)
    (hl : ∀ q, q ≠ p → ∀ l, s'.locks l = some q ↔ s.locks l = some q)
    (hc : Clean s ∨ ∀ h, s.locks ptableLock = some h → s'.locks ptableLock = some h)
    (hh : ∀ h, s'.locks ptableLock = some h → (s.slot h).phase = .alive ∨ (s.slot h).phase = .zombie)
    (hcpu : ∀ i, (s'.procs i).onCpu = true → (s.slot i).phase = .alive ∨
      ((s.slot i).phase = .zombie ∧ s'.locks ptableLock = some i)) : Good nproc p s s' := by
  refine ⟨?_, fun q hq => h.env (hl q hq)⟩
  constructor
  · simpa only [h.slot] using hi.root
  · simpa only [h.slot] using hi.out
  · rw [h.created, h.nextpid]
    exact hi.count
  · simpa only [h.slot, h.created] using hi.issued
  · simpa only [h.slot] using hi.distinct
  · simpa only [h.slot] using hi.parent
  · simpa only [h.slot] using hi.orphan
  · simpa only [h.slot] using hi.embryo
  · simpa only [h.slot, h.created, h.forks] using hi.forked
  · simpa only [h.slot, h.created, h.waits] using hi.reaped
  · simpa only [h.waits] using hi.once
  · simpa only [h.forks, h.waits, h.exits] using hi.heir
  · intro i r h0 hlive hpar
    rw [h.slot] at hlive hpar
    rw [h.slot, h.slot, h.exits]
    rcases hc with hclean | hkeep
    · exact (hclean i r h0 hlive hpar).imp_right fun ⟨hr, he⟩ => ⟨hr, .inl he⟩
    · refine (hi.adopted i r h0 hlive hpar).imp_right fun ⟨hr, he⟩ => ⟨hr, he.imp_right ?_⟩
      rintro ⟨o, ho, hpid⟩
      exact ⟨o, hkeep o ho, by rw [h.slot]; exact hpid⟩
  · simpa only [h.slot] using hh
  · intro i hon
    rw [h.slot]
    exact hcpu i hon

lemma same_setProc {q : Proc} (hq : q.slot = (s.procs i).slot) : Same s (s.setProc i q) := by
  refine ⟨fun j => ?_, rfl, rfl, rfl, rfl, rfl⟩
  by_cases hj : j = i
  · simp [State.slot, hj, hq]
  · simp [State.slot, hj]

lemma good_setProc {q : Proc} (hi : Inv nproc s) (hq : q.slot = (s.procs i).slot)
    (hon : q.onCpu = true → (s.procs i).onCpu = true ∨ (s.slot i).phase = .alive) :
    Good nproc p s (s.setProc i q) := by
  refine (same_setProc hq).good hi (fun _ _ _ => .rfl) (.inr fun _ h => h) hi.holder fun j hj => ?_
  by_cases hji : j = i
  · subst hji
    rcases hon (by simpa using hj) with h | h
    · exact hi.cpu j h
    · exact .inl h
  · exact hi.cpu j (by simpa [hji] using hj)

/-! ## Actions on the tree -/

lemma slot_setProc (s : State X) (i j : Nat) (q : Proc) :
    (s.setProc i q).slot j = if j = i then q.slot else s.slot j := by
  by_cases hj : j = i
  · simp [State.slot, hj]
  · simp [State.slot, hj]

lemma Issued.mono {m n : Nat} (h : Issued m c) (hmn : m ≤ n) : Issued n c := by
  obtain ⟨k, h1, h2, hc⟩ := h
  exact ⟨k, h1, Nat.le_trans h2 hmn, hc⟩

lemma ofNat_inj {m n : Nat} (hm : m < 2 ^ 31) (hn : n < 2 ^ 31) (h : Int32.ofNat m = Int32.ofNat n) :
    m = n := by
  have hu : UInt32.ofNat m = UInt32.ofNat n := congrArg Int32.toUInt32 h
  have ht := congrArg UInt32.toNat hu
  rwa [UInt32.toNat_ofNat_of_lt' (by show m < 2 ^ 32; omega),
    UInt32.toNat_ofNat_of_lt' (by show n < 2 ^ 32; omega)] at ht

lemma Inv.fresh (hi : Inv nproc s) (hb : s.created + 1 < 2 ^ 31) : ¬Issued s.created s.nextpid := by
  rintro ⟨k, -, hk, he⟩
  rw [hi.count.2.2] at he
  have := ofNat_inj hb (by omega) he
  omega

/-- One slot of the tree changes; locks and CPUs do not. -/
structure SetSlot (s s' : State X) (i : Nat) (σ : Slot) : Prop where
  slot : ∀ j, s'.slot j = if j = i then σ else s.slot j
  locks : s'.locks = s.locks
  cpu : ∀ j, (s'.procs j).onCpu = (s.procs j).onCpu

lemma SetSlot.of_setProc (s s' : State X) (i : Nat) (q : Proc)
    (hp : s'.procs = (s.setProc i q).procs) (hl : s'.locks = s.locks)
    (hq : q.onCpu = (s.procs i).onCpu) : SetSlot s s' i q.slot := by
  refine ⟨fun j => ?_, hl, fun j => ?_⟩
  · rw [State.slot, hp]
    exact slot_setProc s i j q
  rw [hp]
  by_cases hj : j = i
  · simp [hj, hq]
  · simp [hj]

variable {σ : Slot}

lemma SetSlot.clean (hs : SetSlot s s' i σ) (hi : Inv nproc s) (hna : (s.slot i).phase ≠ .alive)
    (hex : s'.exits = s.exits) (hσ : σ.phase = .alive ∨ σ.phase = .zombie →
      ∀ r, σ.parent = some r → (s.slot r).pid = σ.forker ∧ r ≠ i) (hc : Clean s) : Clean s' := by
  have hslot := hs.slot
  intro j r
  grind [hc j r, hi.parent]

lemma alloc_good (hi : Inv nproc s) (hs : SetSlot s s' i σ) (hb : s.created + 1 < 2 ^ 31)
    (hlt : i < nproc) (hun : (s.slot i).phase = .unused) (hph : σ.phase = .embryo)
    (hpid : σ.pid = s.nextpid) (hpar : σ.parent = (s.slot i).parent)
    (hcr : s'.created = s.created + 1) (hnx : s'.nextpid = s.nextpid + 1) (hfk : s'.forks = s.forks)
    (hwt : s'.waits = s.waits) (hex : s'.exits = s.exits) : Good nproc p s s' := by
  have hnew := hi.fresh hb
  have hmono : ∀ c, Issued s.created c → Issued s'.created c :=
    fun c h => h.mono (by omega)
  have hself : Issued s'.created s.nextpid := ⟨s.created + 1, by omega, by omega, hi.count.2.2⟩
  have hslot := hs.slot
  refine ⟨⟨?_, ?_, ?_, ?_, ?_, ?_, ?_, ?_, ?_, ?_, hwt ▸ hi.once, ?_, ?_, ?_, ?_⟩, fun o ho =>
    ⟨by simp [hs.locks], ?_, ?_, ?_, ?_, ?_⟩⟩
  · grind [hi.root]
  · grind [hi.out]
  · refine ⟨by omega, by omega, ?_⟩
    rw [hnx, hcr, hi.count.2.2]
    exact (Int32.ofNat_add (s.created + 1) 1).symm
  · grind [hi.issued]
  · grind [hi.distinct, hi.issued]
  · grind [hi.parent]
  · grind [hi.orphan]
  · grind [hi.orphan, hi.embryo]
  · grind [hi.forked]
  · grind [hi.reaped]
  · rw [hfk, hwt, hex]
    exact hi.heir
  · grind [hi.adopted, hi.parent, hi.holder, hs.locks]
  · grind [hi.holder, hs.locks]
  · grind [hi.cpu, hs.locks, hs.cpu]
  · grind
  · grind
  · exact fun _ => hs.clean hi (by simp [hun]) hex (by simp [hph])
  · grind
  · grind [hi.orphan]

/-- What an action of `p` can do to slot `i` that is in use, and to the records of the pids that `fork`
and `wait` returned and of those that exited. A fork that fails gives its slot back before it set the
parent. -/
inductive Edit (p i : Nat) (s : State X) :
    Slot → List (Int32 × Int32) → List (Int32 × Int32) → List Int32 → Prop where
  | unuse (hem : (s.slot i).phase = .embryo) (hmk : (s.slot i).maker = p) (hpar : (s.slot i).parent = none) :
      Edit p i s { s.slot i with phase := .unused } s.forks s.waits s.exits
  | setParent (hem : (s.slot i).phase = .embryo) (hmk : (s.slot i).maker = p) :
      Edit p i s { s.slot i with parent := some p, forker := (s.slot p).pid } s.forks s.waits s.exits
  | runnable (hem : (s.slot i).phase = .embryo) (hmk : (s.slot i).maker = p) (ha : (s.slot p).phase = .alive)
      (hpar : (s.slot i).parent = some p) (hfo : (s.slot i).forker = (s.slot p).pid) :
      Edit p i s { s.slot i with phase := .alive } (((s.slot i).pid, (s.slot p).pid) :: s.forks) s.waits s.exits
  | zombie (hip : i = p) (ha : (s.slot p).phase = .alive) (h0 : p ≠ initproc) (hl : s.locks ptableLock = some p)
      (hkids : ∀ j, (s.slot j).parent ≠ some p) :
      Edit p i s { s.slot i with phase := .zombie } s.forks s.waits ((s.slot p).pid :: s.exits)
  | abandon (ha : (s.slot p).phase = .alive) (h0 : p ≠ initproc) (hl : s.locks ptableLock = some p)
      (hpar : (s.slot i).parent = some p) :
      Edit p i s { s.slot i with parent := some initproc } s.forks s.waits s.exits
  | reap (ha : (s.slot p).phase = .alive) (hl : s.locks ptableLock = some p) (hz : (s.slot i).phase = .zombie)
      (hpar : (s.slot i).parent = some p) :
      Edit p i s { s.slot i with phase := .unused, pid := 0, parent := none } s.forks
        (((s.slot i).pid, (s.slot p).pid) :: s.waits) s.exits

/-- The waiter forked the child, or it is init and the one who did has exited. -/
lemma Inv.reaper (hi : Inv nproc s) {q : Int32} (hl : s.locks ptableLock = some p) (hz : (s.slot i).phase = .zombie)
    (hpar : (s.slot i).parent = some p) (hc : ((s.slot i).pid, q) ∈ s.forks) :
    (s.slot p).pid = q ∨ ((s.slot p).pid = 1 ∧ q ∈ s.exits) := by
  obtain ⟨-, hfo⟩ := (hi.forked _ q hc).2 i (by simp [hz]) rfl
  have hi0 : i ≠ initproc := by
    rintro rfl
    simp [hi.root.1] at hz
  rw [← hfo]
  rcases hi.adopted i p hi0 (.inr hz) hpar with hpid | ⟨rfl, hex | ⟨o, ho, hpid⟩⟩
  · exact .inl hpid
  · exact .inr ⟨hi.root.2.1, hex⟩
  · obtain rfl : initproc = o := Option.some.inj (hl.symm.trans ho)
    exact .inl hpid

lemma Edit.good (hi : Inv nproc s) (hs : SetSlot s s' i σ) (h : Edit p i s σ s'.forks s'.waits s'.exits)
    (hcr : s'.created = s.created) (hnx : s'.nextpid = s.nextpid) : Good nproc p s s' := by
  have hslot := hs.slot
  generalize hfk : s'.forks = fk, hwt : s'.waits = wt, hex : s'.exits = ex at h
  refine ⟨⟨?_, ?_, ?_, ?_, ?_, ?_, ?_, ?_, ?_, ?_, ?_, ?_, ?_, ?_, ?_⟩, fun o ho =>
    ⟨by simp [hs.locks], ?_, ?_, ?_, ?_, ?_⟩⟩
  · cases h <;> grind [hi.root]
  · cases h <;> grind [hi.out]
  · rw [hcr, hnx]
    exact hi.count
  · cases h <;> grind [hi.issued]
  · cases h <;> grind [hi.distinct]
  · cases h <;> grind [hi.parent, hi.root]
  · cases h <;> grind [hi.orphan]
  · cases h <;> grind [hi.embryo]
  · cases h <;> grind [hi.forked, hi.issued, hi.distinct]
  · cases h <;> grind [hi.reaped, hi.issued, hi.distinct]
  · rw [hwt]
    cases h with
    | reap ha hl hz hpar =>
      rw [List.map_cons, List.nodup_cons]
      refine ⟨fun hmem => ?_, hi.once⟩
      obtain ⟨⟨c, w⟩, hw, hc⟩ := List.mem_map.mp hmem
      exact (hi.reaped c w hw).2 i (by simp [hz]) hc.symm
    | _ => exact hi.once
  · rw [hfk, hwt, hex]
    cases h with
    | runnable hem =>
      -- the child's pid is in use, so nobody has waited for it
      intro c q w hc hw
      rcases List.mem_cons.mp hc with hc | hc
      · cases hc
        exact absurd rfl ((hi.reaped _ w hw).2 i (by simp [hem]))
      · exact hi.heir c q w hc hw
    | reap ha hl hz hpar =>
      intro c q w hc hw
      rcases List.mem_cons.mp hw with hw | hw
      · cases hw
        exact hi.reaper hl hz hpar hc
      · exact hi.heir c q w hc hw
    | zombie => grind [hi.heir]
    | _ => exact hi.heir
  · cases h <;> grind [hi.adopted, hi.parent, hi.holder, hs.locks]
  · cases h <;> grind [hi.holder, hs.locks]
  · cases h <;> grind [hi.cpu, hs.locks, hs.cpu]
  · cases h <;> grind
  · cases h <;> grind
  · cases h with
    | unuse hem => exact fun _ => hs.clean hi (by simp [hem]) hex (by simp)
    | setParent hem => exact fun _ => hs.clean hi (by simp [hem]) hex (by simp [hem])
    | runnable hem hmk ha hpar hfo => exact fun _ => hs.clean hi (by simp [hem]) hex (by grind)
    | _ => grind
  · cases h <;> grind [hi.embryo]
  · cases h <;> grind

end Xv6.Process
