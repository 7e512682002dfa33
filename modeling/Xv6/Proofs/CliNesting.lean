import Xv6.Spinlock

/-!
# The nesting of `pushcli`

`Fits` says that the code before a context gives back only what was taken. A context leaves its CPU
with `ptable.lock` and nothing else, and goes on in the same way on any CPU. `cpu->intena` belongs to
the context that runs: `sched` carries it to where the context goes on.
-/

namespace Xv6.Spinlock

open List Function

open Sched (Ctx Panic ptableLock)
open Process (ProcState)

variable {s s' : State} {c : Nat} {H : List Nat} {k : Nat} {ints intena : Bool} {L L' : Level} {rest : List Level}
  {code : List Instr} {me : Cpu}

/-! ## Code -/

/-- The code can be executed by a context whose CPU holds the locks `H` and that has `k` open calls of `pushcli`. -/
def Fits : List Instr → List Nat → Nat → Prop
  | [], _, _ => True
  | .pushcli :: code, H, k => Fits code H (k + 1)
  | .pushcliOff _ :: code, H, k => Fits code H (k + 1)
  | .pushcliCount _ :: code, H, k => Fits code H (k + 1)
  | .popcli :: code, H, k => 0 < k ∧ Fits code H (k - 1)
  | .popcliCount :: code, H, k => 0 < k ∧ Fits code H (k - 1)
  | .popcliOn :: code, H, k => Fits code H k
  | .acquire l :: code, H, k => 0 < k ∧ Fits code (l :: H) (k - 1)
  | .acquireXchg l :: code, H, k => 0 < k ∧ Fits code (l :: H) (k - 1)
  | .acquireCpu l :: code, H, k => l ∈ H ∧ Fits code H k
  | .release l :: code, H, k => l ∈ H ∧ Fits code (H.erase l) (k + 1)
  | .releaseCpu l :: code, H, k => l ∈ H ∧ Fits code (H.erase l) (k + 1)
  | .releaseXchg l :: code, H, k => l ∈ H ∧ Fits code (H.erase l) (k + 1)
  | .sched st :: code, H, _ => st ≠ .unused ∧ ptableLock ∈ H ∧ Fits code [ptableLock] 0
  | .schedCheck :: code, H, _ => ptableLock ∈ H ∧ Fits code [ptableLock] 0
  | .schedSwtch _ :: code, H, k => H = [ptableLock] ∧ k = 0 ∧ Fits code [ptableLock] 0
  | .schedIntena _ :: code, H, k => H = [ptableLock] ∧ k = 0 ∧ Fits code [ptableLock] 0
  | .sti :: code, H, k => H = [] ∧ k = 0 ∧ .choose ∈ code ∧ Fits code [] 0
  | .choose :: _, H, k => H = [ptableLock] ∧ k = 0

def Instr.atRest : Instr → Bool
  | .pushcli | .popcli | .acquire _ | .release _ | .sched _ | .sti | .choose => true
  | _ => false

/-- Instructions that are reached only with interrupts off, whatever `ncli` is. -/
def Instr.masked : Instr → Bool
  | .pushcliCount _ | .popcliOn => true
  | _ => false

/-- Where the interrupt flag `f` of the context is: in `eflags`, in `cpu->intena`, in `intena`, or in force. -/
def Keeps (nested : Prop) (ints intena f : Bool) : List Instr → Prop
  | .pushcliOff eflags :: _ => (nested → intena = f) ∧ (¬nested → eflags = f ∧ ints = f)
  | .pushcliCount eflags :: _ => (nested → intena = f) ∧ (¬nested → eflags = f)
  | .popcliOn :: _ => intena = f
  | .schedSwtch saved :: _ => saved = f
  | .schedIntena saved :: _ => saved = f
  | _ => (nested → intena = f) ∧ (¬nested → ints = f)

lemma Keeps.of_atRest {nested : Prop} {f : Bool} (hcode : ∀ i ∈ code, i.atRest = true) (hon : nested → intena = f)
    (hoff : ¬nested → ints = f) : Keeps nested ints intena f code := by
  cases code with
  | nil => exact ⟨hon, hoff⟩
  | cons i code =>
    have hi := hcode i mem_cons_self
    cases i with
    | pushcliOff | pushcliCount | popcliOn | schedSwtch | schedIntena => cases hi
    | _ => exact ⟨hon, hoff⟩

lemma Op.fits {o : Op} (h : o.Proper H k) : Fits o.code H k := by
  cases o with
  | pushcli => trivial
  | popcli => exact ⟨h, trivial⟩
  | acquire l => exact ⟨Nat.succ_pos k, trivial⟩
  | release l => exact ⟨h, Nat.succ_pos k, trivial⟩
  | sched st => exact ⟨h.2, h.1, trivial⟩
  | sleep lk =>
    rw [Op.code]
    split
    · rename_i hne
      have hmem : ptableLock ∈ (ptableLock :: H).erase lk := (mem_erase_of_ne (Ne.symm hne)).mpr mem_cons_self
      exact ⟨Nat.succ_pos k, mem_cons_of_mem _ h, Nat.succ_pos _, nofun, hmem, mem_cons_self, Nat.one_pos,
        Nat.one_pos, trivial⟩
    · rename_i heq
      rw [Decidable.not_not.mp heq] at h
      exact ⟨nofun, h, trivial⟩
  | yield =>
    exact ⟨Nat.succ_pos k, nofun, mem_cons_self, mem_cons_self, Nat.one_pos, trivial⟩

lemma Op.code_atRest (o : Op) : ∀ i ∈ o.code, i.atRest = true ∧ i ≠ .choose := by
  cases o with
  | sleep lk =>
    rw [Op.code]
    split <;> simp [Spinlock.acquire, Spinlock.release, Instr.atRest]
  | _ => simp [Op.code, Spinlock.acquire, Spinlock.release, Instr.atRest]

/-! ## Contexts -/

/-- The level `L` of the context that runs on a CPU which holds the locks `H`. -/
structure Level.Ok (H : List Nat) (ints intena : Bool) (L : Level) : Prop where
  fits : Fits L.code H L.pushed
  rest : ∀ i ∈ L.code.tail, i.atRest = true
  off : 0 < H.length + L.pushed → ints = false
  masked : ∀ i code, L.code = i :: code → i.masked = true → ints = false
  flag : ∀ f, L.before = some f →
    .choose ∉ L.code ∧ Keeps (0 < H.length + L.pushed) ints intena f L.code

def Level.Saved (L : Level) : Prop := L.pushed = 0 ∧ ∀ intena, L.Ok [] true intena

def Level.Away (L : Level) : Prop :=
  L.pushed = 0 ∧ (∀ l code, L.code ≠ .releaseXchg l :: code) ∧ ∀ intena, L.Ok [ptableLock] false intena

lemma Level.Ok.of_atRest (hfits : Fits L.code H L.pushed) (hrest : ∀ i ∈ L.code, i.atRest = true)
    (hoff : 0 < H.length + L.pushed → ints = false)
    (hflag : ∀ f, L.before = some f → .choose ∉ L.code ∧ (0 < H.length + L.pushed → intena = f) ∧
      (¬0 < H.length + L.pushed → ints = f)) : L.Ok H ints intena := by
  refine ⟨hfits, fun i hi => hrest i (mem_of_mem_tail hi), hoff, ?_, ?_⟩
  · intro i code hcode hmasked
    have hi := hrest i (by rw [hcode]; exact mem_cons_self)
    cases i with
    | pushcliCount | popcliOn => cases hi
    | _ => cases hmasked
  · intro f hf
    obtain ⟨hchoose, hon, hints⟩ := hflag f hf
    exact ⟨hchoose, .of_atRest hrest hon hints⟩

lemma Level.Ok.turn {i j : Instr} {p : Nat} {f : Option Bool} (h : Level.Ok H ints intena ⟨i :: code, p, f⟩)
    (hfits : Fits (j :: code) H p) (hmasked : j.masked = false) (hj : Instr.choose ≠ j)
    (hkeeps : ∀ g, Keeps (0 < H.length + p) ints intena g (i :: code) →
      Keeps (0 < H.length + p) ints intena g (j :: code)) : Level.Ok H ints intena ⟨j :: code, p, f⟩ := by
  refine ⟨hfits, h.rest, h.off, ?_, fun g hg => ?_⟩
  · rintro _ _ ⟨⟩ hc
    rw [hmasked] at hc
    cases hc
  · obtain ⟨hchoose, hk⟩ := h.flag g hg
    rw [mem_cons, not_or] at hchoose ⊢
    exact ⟨⟨hj, hchoose.2⟩, hkeeps g hk⟩

/-- An interrupt comes where no lock is held, and so the flag of the context is in force or in `eflags`. -/
lemma Level.Ok.saved (h : L.Ok H true intena) : H = [] ∧ L.Saved := by
  have hzero : H.length + L.pushed = 0 := by
    by_contra hne
    exact Bool.false_ne_true (h.off (Nat.pos_of_ne_zero hne)).symm
  have hH : H = [] := length_eq_zero_iff.mp (by omega)
  subst hH
  refine ⟨rfl, by omega, fun intena' => ⟨h.fits, h.rest, h.off, h.masked, fun f hf => ?_⟩⟩
  obtain ⟨hchoose, hkeeps⟩ := h.flag f hf
  refine ⟨hchoose, ?_⟩
  have hnot : ¬0 < ([] : List Nat).length + L.pushed := by
    rw [hzero]
    exact Nat.lt_irrefl 0
  have hfits := h.fits
  have hmasked := h.masked
  cases hcode : L.code with
  | nil =>
    rw [hcode] at hkeeps
    exact ⟨fun hc => absurd hc hnot, hkeeps.2⟩
  | cons i code =>
    rw [hcode] at hkeeps hfits
    cases i with
    | popcliOn => exact absurd (hmasked _ _ hcode rfl) (by decide)
    | schedSwtch | schedIntena => cases hfits.1
    | _ => exact ⟨fun hc => absurd hc hnot, hkeeps.2⟩

/-- Instructions in which `proc->state` is no longer `RUNNING`. -/
def Instr.leaving : Instr → Bool
  | .schedCheck | .schedSwtch _ => true
  | _ => false

lemma Fits.of_leaving {i : Instr} (h : Fits (i :: code) H k) (hi : i.leaving = true) : ptableLock ∈ H := by
  cases i with
  | schedCheck => exact h.1
  | schedSwtch =>
    rw [h.1]
    exact mem_cons_self
  | _ => cases hi

/-! ## CPUs -/

/-- CPU `c` and its context, at the level `L`. -/
structure CpuOk (s : State) (c : Nat) (L : Level) (rest : List Level) : Prop where
  stack : s.ctxs (s.cpus c).cur = L :: rest
  level : L.Ok (s.cpus c).held (s.cpus c).ints (s.cpus c).intena
  saved : ∀ L' ∈ rest, L'.Saved
  ncli : (s.cpus c).ncli = ((s.cpus c).held.length + L.pushed : Nat)
  running : ∀ i, (s.cpus c).cur = .proc i → s.states i ≠ .unused ∧
    (s.states i = .running ∨ ∃ j code, L.code = j :: code ∧ j.leaving = true)
  unlocked : ∀ l code, L.code = .releaseXchg l :: code → (s.locks l).cpu = none

/-- `held` is what the locks say. -/
structure Locks (s : State) : Prop where
  nodup : ∀ c, (s.cpus c).held.Nodup
  apart : ∀ c c' l, l ∈ (s.cpus c).held → l ∈ (s.cpus c').held → c = c'
  locked : ∀ l, (s.locks l).locked = true ↔ ∃ c, l ∈ (s.cpus c).held
  cpu : ∀ l c, (s.locks l).cpu = some c → l ∈ (s.cpus c).held

structure Good (s : State) : Prop where
  cpus : ∀ c, ∃ L rest, CpuOk s c L rest
  away : ∀ x, (∀ i, x = .proc i → s.states i ≠ .unused) → (∀ c, (s.cpus c).cur ≠ x) →
    ∃ L rest, s.ctxs x = L :: rest ∧ L.Away ∧ ∀ L' ∈ rest, L'.Saved
  home : ∀ c n, (s.cpus c).cur = .cpu n → n = c
  single : ∀ c c', (s.cpus c).cur = (s.cpus c').cur → c = c'
  locks : Locks s
  panics : s.panicked ≠ some .popcli ∧ s.panicked ≠ some .popcliInterruptible
  sections : ∀ r ∈ s.sections, r.1 = r.2

/-- CPU `c` goes on as `me`, in the same context or in one that no CPU executes. -/
lemma Good.change (h : Good s) (me : Cpu) (L' : Level) (rest : List Level)
    (hcpus : s'.cpus = Function.update s.cpus c me) (hself : s'.ctxs me.cur = L' :: rest)
    (hctxs : ∀ x, x ≠ (s.cpus c).cur → s'.ctxs x = s.ctxs x)
    (hcur : me.cur = (s.cpus c).cur ∨ (∀ c', (s.cpus c').cur ≠ me.cur) ∧ (∀ n, me.cur = .cpu n → n = c) ∧
      ∃ M rest, s'.ctxs (s.cpus c).cur = M :: rest ∧ M.Away ∧ ∀ N ∈ rest, N.Saved)
    (hlevel : L'.Ok me.held me.ints me.intena) (hsaved : ∀ N ∈ rest, N.Saved)
    (hncli : me.ncli = (me.held.length + L'.pushed : Nat))
    (hstates : ∀ i, me.cur ≠ .proc i → s'.states i = s.states i)
    (hrunning : ∀ i, me.cur = .proc i → s'.states i ≠ .unused ∧
      (s'.states i = .running ∨ ∃ j code, L'.code = j :: code ∧ j.leaving = true))
    (hunlocked : ∀ l code, L'.code = .releaseXchg l :: code → (s'.locks l).cpu = none) (hlocks : Locks s')
    (hframe : ∀ c', c' ≠ c → ∀ l ∈ (s.cpus c').held, (s'.locks l).cpu = (s.locks l).cpu)
    (hpanics : s'.panicked ≠ some .popcli ∧ s'.panicked ≠ some .popcliInterruptible)
    (hsections : ∀ r ∈ s'.sections, r.1 = r.2) : Good s' := by
  have hme : s'.cpus c = me := by
    rw [hcpus, update_self]
  have hother : ∀ c', c' ≠ c → s'.cpus c' = s.cpus c' := by
    intro c' hc'
    rw [hcpus, update_of_ne hc']
  have hne : ∀ c', c' ≠ c → (s.cpus c').cur ≠ (s.cpus c).cur := fun c' hc' he => hc' (h.single c' c he)
  have hnew : ∀ c', c' ≠ c → (s.cpus c').cur ≠ me.cur := by
    intro c' hc'
    rcases hcur with hcur | hcur
    · rw [hcur]
      exact hne c' hc'
    · exact hcur.1 c'
  refine ⟨?_, ?_, ?_, ?_, hlocks, hpanics, hsections⟩
  · intro c'
    by_cases hc' : c' = c
    · rw [hc']
      exact ⟨L', rest, by rwa [hme], by rwa [hme], hsaved, by rwa [hme], by rwa [hme], hunlocked⟩
    obtain ⟨M, rest', hM⟩ := h.cpus c'
    refine ⟨M, rest', ?_, ?_, hM.saved, ?_, ?_, ?_⟩
    all_goals try rw [hother c' hc']
    · rw [hctxs _ (hne c' hc')]
      exact hM.stack
    · exact hM.level
    · exact hM.ncli
    · intro i hi
      rw [hstates i fun he => hnew c' hc' (hi.trans he.symm)]
      exact hM.running i hi
    · intro l code hcode
      have hfits := hM.level.fits
      rw [hcode] at hfits
      exact (hframe c' hc' l hfits.1).trans (hM.unlocked l code hcode)
  · intro x hx hrun
    have hxme : me.cur ≠ x := hme ▸ hrun c
    by_cases hxc : x = (s.cpus c).cur
    · rw [hxc] at hxme ⊢
      exact (hcur.resolve_left hxme).2.2
    rw [hctxs x hxc]
    refine h.away x (fun i hi => ?_) fun c' hc' => ?_
    · rw [← hstates i fun he => hxme (he.trans hi.symm)]
      exact hx i hi
    · by_cases hcc : c' = c
      · exact hxc (hcc ▸ hc'.symm)
      · exact hrun c' (by rwa [hother c' hcc])
  · intro c' n hn
    by_cases hc' : c' = c
    · rw [hc', hme] at hn
      rw [hc']
      rcases hcur with hcur | hcur
      · exact h.home c n (hcur ▸ hn)
      · exact hcur.2.1 n hn
    · rw [hother c' hc'] at hn
      exact h.home c' n hn
  · intro c₁ c₂ he
    by_cases h₁ : c₁ = c <;> by_cases h₂ : c₂ = c
    · rw [h₁, h₂]
    · rw [h₁, hme, hother c₂ h₂] at he
      exact absurd he.symm (hnew c₂ h₂)
    · rw [h₂, hme, hother c₁ h₁] at he
      exact absurd he (hnew c₁ h₁)
    · rw [hother c₁ h₁, hother c₂ h₂] at he
      exact h.single c₁ c₂ he

lemma Good.put {t : State} (h : Good s) (hok : CpuOk s c L rest) (hcpus : t.cpus = s.cpus) (hctxs : t.ctxs = s.ctxs)
    (hcur : me.cur = (s.cpus c).cur) (hlevel : L'.Ok me.held me.ints me.intena)
    (hncli : me.ncli = (me.held.length + L'.pushed : Nat))
    (hstates : ∀ i, (s.cpus c).cur ≠ .proc i → t.states i = s.states i)
    (hrunning : ∀ i, (s.cpus c).cur = .proc i → t.states i ≠ .unused ∧
      (t.states i = .running ∨ ∃ j code, L'.code = j :: code ∧ j.leaving = true))
    (hunlocked : ∀ l code, L'.code = .releaseXchg l :: code → (t.locks l).cpu = none)
    (hlocks : Locks (t.put c me L'))
    (hframe : ∀ c', c' ≠ c → ∀ l ∈ (s.cpus c').held, (t.locks l).cpu = (s.locks l).cpu)
    (hpanics : t.panicked ≠ some .popcli ∧ t.panicked ≠ some .popcliInterruptible)
    (hsections : ∀ r ∈ t.sections, r.1 = r.2) : Good (t.put c me L') := by
  have hput : (t.put c me L').ctxs = update s.ctxs (s.cpus c).cur (L' :: rest) := by
    rw [State.put, hcpus, hctxs, hok.stack]
    rfl
  rw [← hcur] at hstates hrunning
  refine h.change me L' rest ?_ ?_ (fun x hx => ?_) (.inl hcur) hlevel hok.saved hncli hstates hrunning hunlocked
    hlocks hframe hpanics hsections
  · rw [State.put, hcpus]
  · rw [hput, hcur, update_self]
  · rw [hput, update_of_ne hx]

lemma Locks.of_held (h : Locks s) (hheld : ∀ c, (s'.cpus c).held = (s.cpus c).held)
    (hlocked : ∀ l, (s'.locks l).locked = (s.locks l).locked)
    (hcpu : ∀ l c, (s'.locks l).cpu = some c → l ∈ (s.cpus c).held) : Locks s' := by
  refine ⟨?_, ?_, ?_, ?_⟩
  · intro c
    rw [hheld]
    exact h.nodup c
  · intro c c' l
    rw [hheld, hheld]
    exact h.apart c c' l
  · intro l
    rw [hlocked, h.locked]
    exact exists_congr fun c => by rw [hheld]
  · intro l c hc
    rw [hheld]
    exact hcpu l c hc

lemma Locks.same (h : Locks s) (hcpus : s'.cpus = update s.cpus c me) (hheld : me.held = (s.cpus c).held)
    (hlocks : s'.locks = s.locks) : Locks s' := by
  refine h.of_held (fun c' => ?_) (fun l => by rw [hlocks]) fun l c' hc' => h.cpu l c' (hlocks ▸ hc')
  rw [hcpus]
  by_cases hc' : c' = c
  · rw [hc', update_self, hheld]
  · rw [update_of_ne hc']

lemma Locks.take {l : Nat} (h : Locks s) (hfree : ¬(s.locks l).locked = true)
    (hheld : ∀ c', (s'.cpus c').held = if c' = c then l :: (s.cpus c).held else (s.cpus c').held)
    (hlocked : ∀ l', (s'.locks l').locked = if l' = l then true else (s.locks l').locked)
    (hcpu : ∀ l', (s'.locks l').cpu = (s.locks l').cpu) : Locks s' := by
  have hnone : ∀ c', l ∉ (s.cpus c').held := fun c' hc' => hfree ((h.locked l).mpr ⟨c', hc'⟩)
  have hmem : ∀ c' l', l' ∈ (s'.cpus c').held ↔ c' = c ∧ l' = l ∨ l' ∈ (s.cpus c').held := by
    intro c' l'
    rw [hheld]
    split
    · rename_i hc'
      rw [mem_cons, hc']
      simp
    · rename_i hc'
      simp [hc']
  refine ⟨?_, ?_, ?_, ?_⟩
  · intro c'
    rw [hheld]
    split
    · exact nodup_cons.mpr ⟨hnone c, h.nodup c⟩
    · exact h.nodup c'
  · intro c₁ c₂ l' h₁ h₂
    rcases (hmem c₁ l').mp h₁ with ⟨rfl, rfl⟩ | h₁ <;> rcases (hmem c₂ l').mp h₂ with ⟨rfl, heq⟩ | h₂
    · rfl
    · exact absurd h₂ (hnone c₂)
    · exact absurd (heq ▸ h₁) (hnone c₁)
    · exact h.apart c₁ c₂ l' h₁ h₂
  · intro l'
    rw [hlocked]
    by_cases hl' : l' = l
    · rw [if_pos hl']
      exact iff_of_true rfl ⟨c, (hmem c l').mpr (.inl ⟨rfl, hl'⟩)⟩
    rw [if_neg hl', h.locked]
    refine exists_congr fun c' => ?_
    rw [hmem]
    simp [hl']
  · intro l' c' hc'
    rw [hcpu] at hc'
    exact (hmem c' l').mpr (.inr (h.cpu l' c' hc'))

lemma Locks.drop {l : Nat} (h : Locks s) (hl : l ∈ (s.cpus c).held) (hnull : (s.locks l).cpu = none)
    (hheld : ∀ c', (s'.cpus c').held = if c' = c then (s.cpus c).held.erase l else (s.cpus c').held)
    (hlocked : ∀ l', (s'.locks l').locked = if l' = l then false else (s.locks l').locked)
    (hcpu : ∀ l', (s'.locks l').cpu = (s.locks l').cpu) : Locks s' := by
  have hmem : ∀ c' l', l' ∈ (s'.cpus c').held ↔ l' ≠ l ∧ l' ∈ (s.cpus c').held := by
    intro c' l'
    rw [hheld]
    split
    · rename_i hc'
      rw [(h.nodup c).mem_erase_iff, hc']
    rename_i hc'
    refine ⟨fun hm => ⟨?_, hm⟩, fun hm => hm.2⟩
    rintro rfl
    exact hc' (h.apart c' c l' hm hl)
  refine ⟨?_, ?_, ?_, ?_⟩
  · intro c'
    rw [hheld]
    split
    · exact (h.nodup c).erase l
    · exact h.nodup c'
  · intro c₁ c₂ l' h₁ h₂
    exact h.apart c₁ c₂ l' ((hmem c₁ l').mp h₁).2 ((hmem c₂ l').mp h₂).2
  · intro l'
    rw [hlocked]
    by_cases hl' : l' = l
    · rw [if_pos hl']
      refine iff_of_false Bool.false_ne_true ?_
      rintro ⟨c', hc'⟩
      exact ((hmem c' l').mp hc').1 hl'
    · rw [if_neg hl', h.locked]
      refine exists_congr fun c' => ?_
      rw [hmem]
      simp [hl']
  · intro l' c' hc'
    rw [hcpu] at hc'
    refine (hmem c' l').mpr ⟨?_, h.cpu l' c' hc'⟩
    rintro rfl
    rw [hnull] at hc'
    cases hc'

lemma held_put (L : Level) (c' : Nat) :
    ((s.put c me L).cpus c').held = if c' = c then me.held else (s.cpus c').held := by
  by_cases hc' : c' = c
  · rw [hc']
    simp [State.put]
  · rw [if_neg hc', State.put]
    exact congrArg Cpu.held (update_of_ne hc' _ _)

lemma Locks.put {t : State} (h : Locks s) (hcpus : t.cpus = s.cpus) (hlocks : t.locks = s.locks)
    (hheld : me.held = (s.cpus c).held) : Locks (t.put c me L') := by
  refine h.same (c := c) ?_ hheld hlocks
  rw [State.put, hcpus]

section setLock

variable {l : Nat}

lemma cpu_setLocked (b : Bool) (l' : Nat) :
    ((s.setLock l { s.locks l with locked := b }).locks l').cpu = (s.locks l').cpu := by
  by_cases hl' : l' = l
  · simp [State.setLock, hl']
  · simp [State.setLock, hl']

lemma locked_setLocked (b : Bool) (l' : Nat) :
    ((s.setLock l { s.locks l with locked := b }).locks l').locked = if l' = l then b else (s.locks l').locked := by
  by_cases hl' : l' = l
  · simp [State.setLock, hl']
  · simp [State.setLock, hl']

lemma Locks.setCpu {o : Option Nat} (h : Locks s) (hl : l ∈ (s.cpus c).held) (ho : ∀ c', o = some c' → c' = c) :
    Locks ((s.setLock l { s.locks l with cpu := o }).put c (s.cpus c) L') := by
  refine h.of_held (fun c' => ?_) (fun l' => ?_) fun l' c' hc' => ?_
  · rw [held_put]
    split
    · rename_i hc'
      rw [hc']
    · rfl
  · by_cases hl' : l' = l
    · rw [hl']
      simp [State.setLock, State.put]
    · exact congrArg Lock.locked (update_of_ne hl' _ _)
  · by_cases hl' : l' = l
    · rw [hl'] at hc' ⊢
      have hcc : o = some c' := by simpa [State.setLock, State.put] using hc'
      exact ho c' hcc ▸ hl
    · refine h.cpu l' c' (.trans ?_ hc')
      exact congrArg Lock.cpu (update_of_ne hl' _ _).symm

lemma Locks.cpu_of_ne {o : Option Nat} {c' l' : Nat} (h : Locks s) (hl : l ∈ (s.cpus c).held) (hc' : c' ≠ c)
    (hl' : l' ∈ (s.cpus c').held) : ((s.setLock l { s.locks l with cpu := o }).locks l').cpu = (s.locks l').cpu := by
  refine congrArg Lock.cpu (update_of_ne ?_ _ _)
  rintro rfl
  exact hc' (h.apart c' c l' hl' hl)

end setLock

lemma CpuOk.running_of {i : Instr} {p : Nat} {f : Option Bool} (hok : CpuOk s c ⟨i :: code, p, f⟩ rest)
    (hleaving : i.leaving = true → ∃ j code, L'.code = j :: code ∧ j.leaving = true) (j : Nat)
    (hj : (s.cpus c).cur = .proc j) : s.states j ≠ .unused ∧
      (s.states j = .running ∨ ∃ j code, L'.code = j :: code ∧ j.leaving = true) := by
  obtain ⟨hused, hrun⟩ := hok.running j hj
  refine ⟨hused, hrun.imp_right ?_⟩
  rintro ⟨i', code', hcode', hi'⟩
  obtain ⟨rfl, rfl⟩ := List.cons.inj hcode'
  exact hleaving hi'

lemma CpuOk.running_of_nil (hok : CpuOk s c L rest) (hcode : L.code = []) (j : Nat) (hj : (s.cpus c).cur = .proc j) :
    s.states j ≠ .unused ∧ s.states j = .running := by
  obtain ⟨hused, hrun⟩ := hok.running j hj
  refine ⟨hused, hrun.resolve_right ?_⟩
  rintro ⟨i, code, hc, -⟩
  rw [hcode] at hc
  cases hc

lemma Good.advance {i : Instr} {p : Nat} {f : Option Bool} (h : Good s) (hok : CpuOk s c ⟨i :: code, p, f⟩ rest)
    (hcur : me.cur = (s.cpus c).cur) (hheld : me.held = (s.cpus c).held) (hlevel : L'.Ok me.held me.ints me.intena)
    (hncli : me.ncli = (me.held.length + L'.pushed : Nat))
    (hleaving : i.leaving = true → ∃ j code, L'.code = j :: code ∧ j.leaving = true)
    (hcode : ∀ l code, L'.code ≠ .releaseXchg l :: code) : Good (s.put c me L') := by
  refine h.put hok rfl rfl hcur hlevel hncli (fun _ _ => rfl) (hok.running_of hleaving)
    (fun l code hc => absurd hc (hcode l code)) (h.locks.put rfl rfl hheld) (fun _ _ _ _ => rfl) h.panics h.sections

lemma Good.panic (h : Good s) {e : Panic} (hpop : e ≠ .popcli) (hints : e ≠ .popcliInterruptible) :
    Good (s.panic e) where
  cpus := fun c => by
    obtain ⟨L, rest, hL⟩ := h.cpus c
    exact ⟨L, rest, hL.stack, hL.level, hL.saved, hL.ncli, hL.running, hL.unlocked⟩
  away := h.away
  home := h.home
  single := h.single
  locks := ⟨h.locks.nodup, h.locks.apart, h.locks.locked, h.locks.cpu⟩
  panics := ⟨fun hc => hpop (Option.some.inj hc), fun hc => hints (Option.some.inj hc)⟩
  sections := h.sections

/-! ## Instructions -/

section instr

variable {p : Nat} {f : Option Bool}

lemma atRest_ne_releaseXchg (h : ∀ i ∈ code, i.atRest = true) (l : Nat) (code' : List Instr) :
    code ≠ .releaseXchg l :: code' := by
  rintro rfl
  exact Bool.false_ne_true (h _ mem_cons_self)

lemma pushcli_good (h : Good s) (hok : CpuOk s c ⟨.pushcli :: code, p, f⟩ rest) :
    Good (s.instr c ⟨code, p, f⟩ .pushcli) := by
  refine h.advance hok rfl rfl (hok.level.turn hok.level.fits rfl nofun ?_) hok.ncli nofun nofun
  rintro g ⟨hon, hoff⟩
  exact ⟨hon, fun hn => ⟨hoff hn, hoff hn⟩⟩

lemma pushcliOff_good {e : Bool} (h : Good s) (hok : CpuOk s c ⟨.pushcliOff e :: code, p, f⟩ rest) :
    Good (s.instr c ⟨code, p, f⟩ (.pushcliOff e)) := by
  have hlevel := hok.level
  refine h.advance hok rfl rfl ⟨hlevel.fits, hlevel.rest, fun _ => rfl, fun _ _ _ _ => rfl, ?_⟩ hok.ncli nofun nofun
  intro g hg
  obtain ⟨hchoose, hon, hoff⟩ := hlevel.flag g hg
  refine ⟨?_, hon, fun hn => (hoff hn).1⟩
  simpa using hchoose

lemma pushcliCount_good {e : Bool} (h : Good s) (hok : CpuOk s c ⟨.pushcliCount e :: code, p, f⟩ rest) :
    Good (s.instr c ⟨code, p, f⟩ (.pushcliCount e)) := by
  have hlevel := hok.level
  have hncli : (s.cpus c).ncli = ((s.cpus c).held.length + p : Nat) := hok.ncli
  have hints := hlevel.masked _ _ rfl rfl
  refine h.advance hok rfl rfl (.of_atRest hlevel.fits hlevel.rest (fun _ => hints) ?_) ?_ nofun
    (atRest_ne_releaseXchg hlevel.rest)
  · intro g hg
    obtain ⟨hchoose, hon, hoff⟩ := hlevel.flag g hg
    refine ⟨fun hc => hchoose (mem_cons_of_mem _ hc), fun _ => ?_, fun hn => absurd (Nat.succ_pos _) hn⟩
    change 0 < (s.cpus c).held.length + p → (s.cpus c).intena = g at hon
    change ¬0 < (s.cpus c).held.length + p → e = g at hoff
    change (if (s.cpus c).ncli = 0 then e else (s.cpus c).intena) = g
    split
    · exact hoff (by omega)
    · exact hon (by omega)
  · change (s.cpus c).ncli + 1 = ((s.cpus c).held.length + (p + 1) : Nat)
    omega

lemma popcli_good (h : Good s) (hok : CpuOk s c ⟨.popcli :: code, p, f⟩ rest) :
    Good (s.instr c ⟨code, p, f⟩ .popcli) := by
  have hlevel := hok.level
  obtain ⟨hpos, hfits⟩ := hlevel.fits
  have hints : (s.cpus c).ints = false := hlevel.off (Nat.add_pos_right _ hpos)
  simp only [State.instr, hints, Bool.false_eq_true, ↓reduceIte]
  exact h.advance hok rfl rfl (hlevel.turn ⟨hpos, hfits⟩ rfl nofun fun _ => id) hok.ncli nofun nofun

lemma popcliCount_good (h : Good s) (hok : CpuOk s c ⟨.popcliCount :: code, p, f⟩ rest) :
    Good (s.instr c ⟨code, p, f⟩ .popcliCount) := by
  have hlevel := hok.level
  have hncli : (s.cpus c).ncli = ((s.cpus c).held.length + p : Nat) := hok.ncli
  obtain ⟨hpos, hfits⟩ := hlevel.fits
  change 0 < p at hpos
  have hnested : 0 < (s.cpus c).held.length + p := Nat.add_pos_right _ hpos
  have hints : (s.cpus c).ints = false := hlevel.off hnested
  have hge : ¬(s.cpus c).ncli - 1 < 0 := by omega
  have hgood : Good (s.put c { s.cpus c with ncli := (s.cpus c).ncli - 1 } ⟨.popcliOn :: code, p - 1, f⟩) := by
    refine h.advance hok rfl rfl ⟨hfits, hlevel.rest, fun _ => hints, fun _ _ _ _ => hints, ?_⟩ ?_ nofun nofun
    · intro g hg
      obtain ⟨hchoose, hon, -⟩ := hlevel.flag g hg
      refine ⟨?_, hon hnested⟩
      simpa using hchoose
    · change (s.cpus c).ncli - 1 = ((s.cpus c).held.length + (p - 1) : Nat)
      omega
  simp only [State.instr, if_neg hge]
  exact hgood

lemma popcliOn_good (h : Good s) (hok : CpuOk s c ⟨.popcliOn :: code, p, f⟩ rest) :
    Good (s.instr c ⟨code, p, f⟩ .popcliOn) := by
  have hlevel := hok.level
  have hncli : (s.cpus c).ncli = ((s.cpus c).held.length + p : Nat) := hok.ncli
  have hmasked : (s.cpus c).ints = false := hlevel.masked _ _ rfl rfl
  generalize hints : (if (s.cpus c).ncli = 0 ∧ (s.cpus c).intena = true then true else (s.cpus c).ints) = ints
  have hoff : 0 < (s.cpus c).held.length + p → ints = false := by
    intro hnested
    rw [← hints, if_neg (by omega)]
    exact hmasked
  have hzero : (s.cpus c).ncli = 0 → ints = (s.cpus c).intena := by
    intro hz
    rw [← hints, hmasked]
    cases (s.cpus c).intena <;> simp [hz]
  have hflag : ∀ g, f = some g → .choose ∉ code ∧ (s.cpus c).intena = g := by
    intro g hg
    obtain ⟨hchoose, hintena⟩ := hlevel.flag g hg
    exact ⟨fun hc => hchoose (mem_cons_of_mem _ hc), hintena⟩
  have hgood : Good (s.put c { s.cpus c with ints } ⟨code, p, f⟩) := by
    refine h.advance hok rfl rfl (.of_atRest hlevel.fits hlevel.rest hoff ?_) hncli nofun
      (atRest_ne_releaseXchg hlevel.rest)
    intro g hg
    obtain ⟨hchoose, hintena⟩ := hflag g hg
    refine ⟨hchoose, fun _ => hintena, fun hn => (hzero ?_).trans hintena⟩
    change ¬0 < (s.cpus c).held.length + p at hn
    omega
  simp only [State.instr, hints]
  cases f with
  | none => exact hgood
  | some g =>
    dsimp only
    split
    · rename_i hz
      refine ⟨?_, hgood.away, hgood.home, hgood.single,
        ⟨hgood.locks.nodup, hgood.locks.apart, hgood.locks.locked, hgood.locks.cpu⟩, hgood.panics, ?_⟩
      · intro c'
        obtain ⟨M, rest', hM⟩ := hgood.cpus c'
        exact ⟨M, rest', hM.stack, hM.level, hM.saved, hM.ncli, hM.running, hM.unlocked⟩
      intro r hr
      rcases mem_cons.mp hr with rfl | hr
      · exact (hflag g rfl).2.symm.trans (hzero hz).symm
      · exact h.sections r hr
    · exact hgood

lemma acquire_good {l : Nat} (h : Good s) (hok : CpuOk s c ⟨.acquire l :: code, p, f⟩ rest) :
    Good (s.instr c ⟨code, p, f⟩ (.acquire l)) := by
  simp only [State.instr]
  split
  · exact h.panic nofun nofun
  · exact h.advance hok rfl rfl (hok.level.turn hok.level.fits rfl nofun fun _ => id) hok.ncli nofun nofun

/-- `xchg` succeeds: the call of `pushcli` now belongs to the lock. -/
lemma acquireXchg_good {l : Nat} (h : Good s) (hok : CpuOk s c ⟨.acquireXchg l :: code, p, f⟩ rest) :
    Good (s.instr c ⟨code, p, f⟩ (.acquireXchg l)) := by
  have hlevel := hok.level
  obtain ⟨hpos, hfits⟩ := hlevel.fits
  change 0 < p at hpos
  have hncli : (s.cpus c).ncli = ((s.cpus c).held.length + p : Nat) := hok.ncli
  have hnested : 0 < (s.cpus c).held.length + p := Nat.add_pos_right _ hpos
  simp only [State.instr]
  split
  · exact h
  rename_i hfree
  refine h.put hok rfl rfl rfl
    ⟨⟨mem_cons_self, hfits⟩, hlevel.rest, fun _ => hlevel.off hnested, nofun, ?_⟩ ?_ (fun _ _ => rfl)
    (hok.running_of nofun) nofun ?_ (fun _ _ l' _ => cpu_setLocked true l') h.panics h.sections
  · intro g hg
    obtain ⟨hchoose, hon, -⟩ := hlevel.flag g hg
    refine ⟨by simpa using hchoose, fun _ => hon hnested, fun hn => absurd ?_ hn⟩
    exact Nat.add_pos_left (Nat.succ_pos _) _
  · change (s.cpus c).ncli = (((s.cpus c).held.length + 1) + (p - 1) : Nat)
    omega
  · exact h.locks.take hfree (held_put _) (locked_setLocked true) (cpu_setLocked true)

lemma acquireCpu_good {l : Nat} (h : Good s) (hok : CpuOk s c ⟨.acquireCpu l :: code, p, f⟩ rest) :
    Good (s.instr c ⟨code, p, f⟩ (.acquireCpu l)) := by
  have hlevel := hok.level
  obtain ⟨hl, hfits⟩ := hlevel.fits
  refine h.put hok rfl rfl rfl (.of_atRest hfits hlevel.rest hlevel.off ?_) hok.ncli (fun _ _ => rfl)
    (hok.running_of nofun) ?_ ?_ ?_ h.panics h.sections
  · intro g hg
    obtain ⟨hchoose, hkeeps⟩ := hlevel.flag g hg
    exact ⟨fun hc => hchoose (mem_cons_of_mem _ hc), hkeeps⟩
  · exact fun l' code' hc => absurd hc (atRest_ne_releaseXchg hlevel.rest l' code')
  · exact h.locks.setCpu hl fun c' hc' => (Option.some.inj hc').symm
  · exact fun c' hc' l' hl' => h.locks.cpu_of_ne hl hc' hl'

lemma release_good {l : Nat} (h : Good s) (hok : CpuOk s c ⟨.release l :: code, p, f⟩ rest) :
    Good (s.instr c ⟨code, p, f⟩ (.release l)) := by
  simp only [State.instr]
  split
  · exact h.panic nofun nofun
  · exact h.advance hok rfl rfl (hok.level.turn hok.level.fits rfl nofun fun _ => id) hok.ncli nofun nofun

lemma releaseCpu_good {l : Nat} (h : Good s) (hok : CpuOk s c ⟨.releaseCpu l :: code, p, f⟩ rest) :
    Good (s.instr c ⟨code, p, f⟩ (.releaseCpu l)) := by
  have hlevel := hok.level
  have hl : l ∈ (s.cpus c).held := hlevel.fits.1
  refine h.put hok rfl rfl rfl (hlevel.turn hlevel.fits rfl nofun fun _ => id) hok.ncli (fun _ _ => rfl)
    (hok.running_of nofun) ?_ (h.locks.setCpu hl nofun) (fun c' hc' l' hl' => h.locks.cpu_of_ne hl hc' hl') h.panics
    h.sections
  intro l' code' hc
  obtain ⟨hll, -⟩ := List.cons.inj hc
  rw [← Instr.releaseXchg.inj hll]
  simp [State.setLock]

lemma releaseXchg_good {l : Nat} (h : Good s) (hok : CpuOk s c ⟨.releaseXchg l :: code, p, f⟩ rest) :
    Good (s.instr c ⟨code, p, f⟩ (.releaseXchg l)) := by
  have hlevel := hok.level
  obtain ⟨hl, hfits⟩ := hlevel.fits
  have hlen : ((s.cpus c).held.erase l).length + 1 = (s.cpus c).held.length := by
    have := length_pos_of_mem hl
    rw [length_erase_of_mem hl]
    omega
  have hncli : (s.cpus c).ncli = ((s.cpus c).held.length + p : Nat) := hok.ncli
  have hnested : 0 < (s.cpus c).held.length + p := by omega
  refine h.put hok rfl rfl rfl (.of_atRest hfits hlevel.rest (fun _ => hlevel.off hnested) ?_) ?_ (fun _ _ => rfl)
    (hok.running_of nofun) ?_ ?_ (fun _ _ l' _ => cpu_setLocked false l') h.panics h.sections
  · intro g hg
    obtain ⟨hchoose, hon, -⟩ := hlevel.flag g hg
    refine ⟨fun hc => hchoose (mem_cons_of_mem _ hc), fun _ => hon hnested, fun hn => absurd ?_ hn⟩
    exact Nat.add_pos_right _ (Nat.succ_pos p)
  · change (s.cpus c).ncli = (((s.cpus c).held.erase l).length + (p + 1) : Nat)
    omega
  · exact fun l' code' hc => absurd hc (atRest_ne_releaseXchg hlevel.rest l' code')
  · exact h.locks.drop hl (hok.unlocked l code rfl) (held_put _) (locked_setLocked false) (cpu_setLocked false)

lemma sched_good {st : ProcState} (h : Good s) (hok : CpuOk s c ⟨.sched st :: code, p, f⟩ rest) :
    Good (s.instr c ⟨code, p, f⟩ (.sched st)) := by
  have hlevel := hok.level
  obtain ⟨hst, hl, hfits⟩ := hlevel.fits
  simp only [State.instr]
  split
  · exact h.panic nofun nofun
  rename_i i hi
  have hcur : (s.cpus c).cur = .proc i := hi
  refine h.put hok rfl rfl rfl (hlevel.turn ⟨hl, hfits⟩ rfl nofun fun _ => id) hok.ncli ?_ ?_ nofun
    (h.locks.put rfl rfl rfl) (fun _ _ _ _ => rfl) h.panics h.sections
  · intro j hj
    refine update_of_ne ?_ _ _
    rintro rfl
    exact hj hcur
  intro j hj
  have hij : i = j := Ctx.proc.inj (hcur.symm.trans hj)
  rw [← hij]
  refine ⟨?_, .inr ⟨_, _, rfl, rfl⟩⟩
  change Function.update s.states i st i ≠ .unused
  rw [update_self]
  exact hst

lemma schedCheck_good (h : Good s) (hok : CpuOk s c ⟨.schedCheck :: code, p, f⟩ rest) :
    Good (s.instr c ⟨code, p, f⟩ .schedCheck) := by
  have hlevel := hok.level
  obtain ⟨hl, hfits⟩ := hlevel.fits
  have hncli : (s.cpus c).ncli = ((s.cpus c).held.length + p : Nat) := hok.ncli
  simp only [State.instr]
  split
  · exact h.panic nofun nofun
  split
  · exact h.panic nofun nofun
  split
  · exact h.panic nofun nofun
  rename_i hone
  split
  · exact h.panic nofun nofun
  split
  · exact h.panic nofun nofun
  -- only `ptable.lock` is held
  have hpos := length_pos_of_mem hl
  have hlen : (s.cpus c).held.length = 1 ∧ p = 0 := by omega
  have hheld : (s.cpus c).held = [ptableLock] := by
    obtain ⟨a, ha⟩ := length_eq_one_iff.mp hlen.1
    rw [ha, mem_singleton] at hl
    rw [ha, hl]
  exact h.advance hok rfl rfl (hlevel.turn ⟨hheld, hlen.2, hfits⟩ rfl nofun fun _ hk => hk.1 (Nat.add_pos_left hpos _))
    hok.ncli (fun _ => ⟨_, _, rfl, rfl⟩) nofun

lemma Good.switch {y : Ctx} {M : Level} {rest' : List Level} (h : Good s) (hok : CpuOk s c L rest)
    (hy : ∀ c', (s.cpus c').cur ≠ y) (hstack : s.ctxs y = M :: rest') (hM : M.Away) (hsaved : ∀ N ∈ rest', N.Saved)
    (hheld : (s.cpus c).held = [ptableLock]) (hpushed : L.pushed = 0) (L' : Level) (hL' : L'.Away)
    (hcpus : s'.cpus = Function.update s.cpus c { s.cpus c with cur := y })
    (hself : s'.ctxs (s.cpus c).cur = L' :: rest) (hctxs : ∀ x, x ≠ (s.cpus c).cur → s'.ctxs x = s.ctxs x)
    (hstates : ∀ j, y ≠ .proc j → s'.states j = s.states j) (hrun : ∀ j, y = .proc j → s'.states j = .running)
    (hlocks : s'.locks = s.locks) (hhome : ∀ n, y = .cpu n → n = c) (hpanics : s'.panicked = s.panicked)
    (hsections : s'.sections = s.sections) : Good s' := by
  have hints : (s.cpus c).ints = false := by
    refine hok.level.off ?_
    rw [hheld]
    exact Nat.add_pos_left Nat.one_pos _
  refine h.change _ M rest' hcpus ((hctxs y (hy c).symm).trans hstack) hctxs
    (.inr ⟨hy, hhome, L', rest, hself, hL', hok.saved⟩) ?_ hsaved ?_ hstates ?_ ?_ ?_ ?_ (hpanics ▸ h.panics)
    (hsections ▸ h.sections)
  · rw [hheld, hints]
    exact hM.2.2 _
  · rw [hok.ncli, hpushed, hM.1]
  · intro j hj
    rw [hrun j hj]
    exact ⟨nofun, .inl rfl⟩
  · exact fun l code hcode => absurd hcode (hM.2.1 l code)
  · exact h.locks.same hcpus rfl hlocks
  · rw [hlocks]
    exact fun _ _ _ _ => rfl

lemma schedSwtch_good {saved : Bool} (h : Good s) (hok : CpuOk s c ⟨.schedSwtch saved :: code, p, f⟩ rest) :
    Good (s.instr c ⟨code, p, f⟩ (.schedSwtch saved)) := by
  have hlevel := hok.level
  obtain ⟨hheld, hp, hfits⟩ := hlevel.fits
  simp only [State.instr]
  split
  · exact h.panic nofun nofun
  rename_i i hi
  have hcur : (s.cpus c).cur = .proc i := hi
  have hy : ∀ c', (s.cpus c').cur ≠ .cpu c := by
    intro c' hc'
    rw [← h.home c' c hc', hcur] at hc'
    cases hc'
  obtain ⟨M, rest', hstack, hM, hsaved⟩ := h.away (.cpu c) nofun hy
  refine h.switch hok hy hstack hM hsaved hheld hp ⟨.schedIntena saved :: code, p, f⟩ ⟨hp, nofun, ?_⟩
    rfl ?_ ?_ (fun _ _ => rfl) nofun rfl ?_ rfl rfl
  · intro intena
    refine ⟨⟨rfl, hp, hfits⟩, hlevel.rest, fun _ => rfl, fun _ _ _ _ => rfl, ?_⟩
    intro g hg
    obtain ⟨hchoose, hsame⟩ := hlevel.flag g hg
    refine ⟨?_, hsame⟩
    simpa using hchoose
  · rw [State.put, hok.stack]
    exact update_self _ _ _
  · intro x hx
    rw [State.put]
    exact update_of_ne hx _ _
  · rintro n ⟨⟩
    rfl

lemma schedIntena_good {saved : Bool} (h : Good s) (hok : CpuOk s c ⟨.schedIntena saved :: code, p, f⟩ rest) :
    Good (s.instr c ⟨code, p, f⟩ (.schedIntena saved)) := by
  have hlevel := hok.level
  obtain ⟨hheld, hp, hfits⟩ := hlevel.fits
  change (s.cpus c).held = [ptableLock] at hheld
  change p = 0 at hp
  refine h.advance hok rfl rfl (.of_atRest ?_ hlevel.rest hlevel.off ?_) hok.ncli nofun
    (atRest_ne_releaseXchg hlevel.rest)
  · change Fits code (s.cpus c).held p
    rw [hheld, hp]
    exact hfits
  intro g hg
  obtain ⟨hchoose, hsame⟩ := hlevel.flag g hg
  refine ⟨fun hc => hchoose (mem_cons_of_mem _ hc), fun _ => hsame, fun hn => absurd ?_ hn⟩
  change 0 < (s.cpus c).held.length + p
  rw [hheld]
  exact Nat.add_pos_left Nat.one_pos _

/-- Only the scheduler enables interrupts like this, and its flag is not one that is kept. -/
lemma sti_good (h : Good s) (hok : CpuOk s c ⟨.sti :: code, p, f⟩ rest) : Good (s.instr c ⟨code, p, f⟩ .sti) := by
  have hlevel := hok.level
  obtain ⟨hheld, hp, hchoose, hfits⟩ := hlevel.fits
  change (s.cpus c).held = [] at hheld
  change p = 0 at hp
  refine h.advance hok rfl rfl (.of_atRest ?_ hlevel.rest ?_ ?_) hok.ncli nofun (atRest_ne_releaseXchg hlevel.rest)
  · change Fits code (s.cpus c).held p
    rw [hheld, hp]
    exact hfits
  · intro hc
    change 0 < (s.cpus c).held.length + p at hc
    rw [hheld, hp] at hc
    cases hc
  · intro g hg
    exact absurd (mem_cons_of_mem _ hchoose) (hlevel.flag g hg).1

lemma instr_good {i : Instr} (h : Good s) (hok : CpuOk s c ⟨i :: code, p, f⟩ rest) :
    Good (s.instr c ⟨code, p, f⟩ i) := by
  cases i with
  | pushcli => exact pushcli_good h hok
  | pushcliOff => exact pushcliOff_good h hok
  | pushcliCount => exact pushcliCount_good h hok
  | popcli => exact popcli_good h hok
  | popcliCount => exact popcliCount_good h hok
  | popcliOn => exact popcliOn_good h hok
  | acquire => exact acquire_good h hok
  | acquireXchg => exact acquireXchg_good h hok
  | acquireCpu => exact acquireCpu_good h hok
  | release => exact release_good h hok
  | releaseCpu => exact releaseCpu_good h hok
  | releaseXchg => exact releaseXchg_good h hok
  | sched => exact sched_good h hok
  | schedCheck => exact schedCheck_good h hok
  | schedSwtch => exact schedSwtch_good h hok
  | schedIntena => exact schedIntena_good h hok
  | sti => exact sti_good h hok
  | choose => exact h

end instr

/-! ## Events -/

lemma op_good (h : Good s) (c : Nat) (o : Op) : Good (s.step (.op c o)) := by
  obtain ⟨L, rest, hok⟩ := h.cpus c
  have hlevel := hok.level
  simp only [State.step, hok.stack]
  split
  · rename_i hop
    obtain ⟨hcode, hproper, -⟩ := hop
    have hrest : ∀ i ∈ o.code, i.atRest = true := fun i hi => (o.code_atRest i hi).1
    refine h.put hok rfl rfl rfl (.of_atRest (Op.fits hproper) hrest hlevel.off ?_) hok.ncli (fun _ _ => rfl) ?_
      (fun l code hc => absurd hc (atRest_ne_releaseXchg hrest l code)) (h.locks.put rfl rfl rfl)
      (fun _ _ _ _ => rfl) h.panics h.sections
    · intro g hg
      refine ⟨fun hc => (o.code_atRest _ hc).2 rfl, ?_⟩
      change (if (s.cpus c).held = [] ∧ L.pushed = 0 then some (s.cpus c).ints else L.before) = some g at hg
      split at hg
      · rename_i hzero
        refine ⟨fun hc => ?_, fun _ => Option.some.inj hg⟩
        change 0 < (s.cpus c).held.length + L.pushed at hc
        rw [hzero.1, hzero.2] at hc
        cases hc
      · -- the code is empty, so that the flag is where `Keeps` says
        obtain ⟨-, hkeeps⟩ := hlevel.flag g hg
        rw [hcode] at hkeeps
        exact hkeeps
    · exact fun j hj => (hok.running_of_nil hcode j hj).imp_right .inl
  · exact h

lemma exec_good (h : Good s) (c : Nat) : Good (s.step (.exec c)) := by
  obtain ⟨⟨code, p, f⟩, rest, hok⟩ := h.cpus c
  simp only [State.step, hok.stack]
  cases code with
  | nil => exact h
  | cons i code => exact instr_good h hok

/-- The scheduler chooses a thread that no CPU executes: one that is leaving its CPU has `ptable.lock`. -/
lemma pick_good (h : Good s) (c i : Nat) : Good (s.step (.pick c i)) := by
  obtain ⟨⟨code, p, f⟩, rest, hok⟩ := h.cpus c
  simp only [State.step, hok.stack]
  split
  · rename_i code' p' f' rest' heq
    obtain ⟨hL, rfl⟩ := List.cons.inj heq
    obtain ⟨rfl, rfl, rfl⟩ := Level.mk.inj hL
    split
    · rename_i hrunnable
      have hlevel := hok.level
      obtain ⟨hheld, hp⟩ := hlevel.fits
      have hy : ∀ c', (s.cpus c').cur ≠ .proc i := by
        intro c' hc'
        obtain ⟨M, restM, hM⟩ := h.cpus c'
        obtain ⟨-, hrun⟩ := hM.running i hc'
        rw [hrunnable] at hrun
        obtain ⟨j, codeM, hcode, hj⟩ := hrun.resolve_left nofun
        have hfits := hM.level.fits
        rw [hcode] at hfits
        have hcc : c' = c := by
          refine h.locks.apart c' c ptableLock (hfits.of_leaving hj) ?_
          rw [hheld]
          exact mem_cons_self
        subst hcc
        have hsame := hM.stack.symm.trans hok.stack
        rw [(List.cons.inj hsame).1] at hcode
        obtain ⟨rfl, -⟩ := List.cons.inj hcode
        cases hj
      obtain ⟨M, restM, hstack, hM, hsaved⟩ := h.away (.proc i)
        (fun j hj => by cases hj; rw [hrunnable]; exact nofun) hy
      refine h.switch hok hy hstack hM hsaved hheld hp ⟨.choose :: code', p, f⟩ ⟨hp, nofun, ?_⟩
        rfl hok.stack (fun _ _ => rfl) ?_ ?_ rfl nofun rfl rfl
      · intro intena
        refine ⟨⟨rfl, hp⟩, hlevel.rest, fun _ => rfl, fun _ _ _ _ => rfl, fun g hg => ?_⟩
        exact absurd mem_cons_self (hlevel.flag g hg).1
      · intro j hj
        refine update_of_ne ?_ _ _
        rintro rfl
        exact hj rfl
      · rintro j ⟨⟩
        exact update_self _ _ _
    · exact h
  · exact h

lemma again_good (h : Good s) (c : Nat) : Good (s.step (.again c)) := by
  obtain ⟨⟨code, p, f⟩, rest, hok⟩ := h.cpus c
  simp only [State.step, hok.stack]
  split
  · rename_i code' p' f' rest' heq
    obtain ⟨hL, rfl⟩ := List.cons.inj heq
    obtain ⟨rfl, rfl, rfl⟩ := Level.mk.inj hL
    have hlevel := hok.level
    obtain ⟨hheld, hp⟩ := hlevel.fits
    change (s.cpus c).held = [ptableLock] at hheld
    change p = 0 at hp
    refine h.advance hok rfl rfl (.of_atRest ?_ ?_ hlevel.off fun g hg => ?_) hok.ncli nofun nofun
    · rw [hheld, hp]
      exact ⟨mem_cons_self, Nat.one_pos, rfl, rfl, by simp [acquire], Nat.one_pos, rfl, rfl⟩
    · simp [acquire, release, Instr.atRest]
    · exact absurd mem_cons_self (hlevel.flag g hg).1
  · exact h

lemma Level.Ok.idle (ints intena : Bool) : Level.Ok [] ints intena ⟨[], 0, none⟩ :=
  .of_atRest trivial nofun nofun nofun

lemma trap_good (h : Good s) (c : Nat) : Good (s.step (.trap c)) := by
  obtain ⟨L, rest, hok⟩ := h.cpus c
  have hlevel := hok.level
  simp only [State.step]
  split
  · rename_i hints
    rw [hints] at hlevel
    obtain ⟨hheld, hsaved⟩ := hlevel.saved
    refine h.change { s.cpus c with ints := false } ⟨[], 0, none⟩ (L :: rest) rfl ?_
      (fun _ hx => update_of_ne hx _ _) (.inl rfl) ?_ ?_ ?_ (fun _ _ => rfl) ?_ nofun ?_
        (fun _ _ _ _ => rfl) h.panics h.sections
    · rw [hok.stack]
      exact update_self _ _ _
    · change Level.Ok (s.cpus c).held false (s.cpus c).intena _
      rw [hheld]
      exact .idle _ _
    · intro N hN
      rcases mem_cons.mp hN with rfl | hN
      · exact hsaved
      · exact hok.saved N hN
    · change (s.cpus c).ncli = ((s.cpus c).held.length + 0 : Nat)
      rw [hok.ncli, hsaved.1]
    · intro j hj
      obtain ⟨hused, hrun⟩ := hok.running j hj
      refine ⟨hused, .inl (hrun.resolve_right ?_)⟩
      rintro ⟨i, code, hcode, hi⟩
      have hfits := hok.level.fits
      rw [hcode, hheld] at hfits
      exact not_mem_nil (hfits.of_leaving hi)
    · exact h.locks.same rfl rfl rfl
  · exact h

lemma iret_good (h : Good s) (c : Nat) : Good (s.step (.iret c)) := by
  obtain ⟨L, rest, hok⟩ := h.cpus c
  simp only [State.step, hok.stack]
  split
  · rename_i f M rest' heq
    obtain ⟨rfl, rfl⟩ := List.cons.inj heq
    split
    · rename_i hheld
      obtain ⟨hpushed, hM⟩ := hok.saved M mem_cons_self
      refine h.change { s.cpus c with ints := true } M rest' rfl (update_self _ _ _)
        (fun _ hx => update_of_ne hx _ _) (.inl rfl) ?_ ?_ ?_ (fun _ _ => rfl) ?_ ?_ ?_
          (fun _ _ _ _ => rfl) h.panics h.sections
      · change M.Ok (s.cpus c).held true (s.cpus c).intena
        rw [hheld]
        exact hM _
      · exact fun N hN => hok.saved N (mem_cons_of_mem _ hN)
      · change (s.cpus c).ncli = ((s.cpus c).held.length + M.pushed : Nat)
        rw [hok.ncli, hpushed]
      · exact fun j hj => (hok.running_of_nil rfl j hj).imp_right .inl
      · intro l code hcode
        have hfits := (hM true).fits
        rw [hcode] at hfits
        exact absurd hfits.1 not_mem_nil
      · exact h.locks.same rfl rfl rfl
    · exact h
  · exact h

lemma flags_good (h : Good s) (c : Nat) (ints : Bool) : Good (s.step (.flags c ints)) := by
  obtain ⟨L, rest, hok⟩ := h.cpus c
  simp only [State.step, hok.stack]
  split
  · rename_i f rest' heq
    obtain ⟨rfl, rfl⟩ := List.cons.inj heq
    split
    · rename_i hheld
      refine h.put hok rfl rfl rfl ?_ hok.ncli (fun _ _ => rfl) ?_ nofun (h.locks.put rfl rfl rfl) (fun _ _ _ _ => rfl)
        h.panics h.sections
      · change Level.Ok (s.cpus c).held ints (s.cpus c).intena _
        rw [hheld]
        exact .idle _ _
      · exact fun j hj => (hok.running_of_nil rfl j hj).imp_right .inl
    · exact h
  · exact h

lemma Level.Away.forkret : Level.Away ⟨release ptableLock, 0, none⟩ :=
  ⟨rfl, nofun, fun _ => .of_atRest ⟨mem_cons_self, Nat.one_pos, trivial⟩ (by simp [release, Instr.atRest])
    (fun _ => rfl) nofun⟩

lemma create_good (h : Good s) (i : Nat) : Good (s.step (.create i)) := by
  simp only [State.step]
  split
  · rename_i hunused
    have hcur : ∀ c, (s.cpus c).cur ≠ .proc i := by
      intro c hc
      obtain ⟨L, rest, hok⟩ := h.cpus c
      exact (hok.running i hc).1 hunused
    refine ⟨?_, ?_, h.home, h.single, ⟨h.locks.nodup, h.locks.apart, h.locks.locked, h.locks.cpu⟩, h.panics,
      h.sections⟩
    · intro c
      obtain ⟨L, rest, hok⟩ := h.cpus c
      refine ⟨L, rest, ?_, hok.level, hok.saved, hok.ncli, ?_, hok.unlocked⟩
      · exact (update_of_ne (hcur c) _ _).trans hok.stack
      intro j hj
      have hij : j ≠ i := by
        rintro rfl
        exact hcur c hj
      change Function.update s.states i .runnable j ≠ .unused ∧
        (Function.update s.states i .runnable j = .running ∨ _)
      rw [update_of_ne hij]
      exact hok.running j hj
    · intro x hx hnot
      by_cases hxi : x = .proc i
      · rw [hxi]
        exact ⟨_, [], update_self _ _ _, .forkret, nofun⟩
      change ∃ L rest, Function.update s.ctxs (.proc i) _ x = L :: rest ∧ _
      rw [update_of_ne hxi]
      refine h.away x (fun j hj => ?_) hnot
      have hij : j ≠ i := by
        rintro rfl
        exact hxi hj
      have := hx j hj
      change Function.update s.states i .runnable j ≠ .unused at this
      rwa [update_of_ne hij] at this
  · exact h

lemma wakeup_good (h : Good s) (i : Nat) : Good (s.step (.wakeup i)) := by
  simp only [State.step]
  split
  · rename_i hsleeping
    have hstates : ∀ j, (Function.update s.states i .runnable j ≠ .unused ↔ s.states j ≠ .unused) ∧
        (s.states j = .running → Function.update s.states i .runnable j = .running) := by
      intro j
      by_cases hij : j = i
      · rw [hij, update_self, hsleeping]
        exact ⟨by simp, nofun⟩
      · rw [update_of_ne hij]
        exact ⟨Iff.rfl, id⟩
    refine ⟨?_, ?_, h.home, h.single, ⟨h.locks.nodup, h.locks.apart, h.locks.locked, h.locks.cpu⟩, h.panics,
      h.sections⟩
    · intro c
      obtain ⟨L, rest, hok⟩ := h.cpus c
      refine ⟨L, rest, hok.stack, hok.level, hok.saved, hok.ncli, ?_, hok.unlocked⟩
      intro j hj
      obtain ⟨hused, hrun⟩ := hok.running j hj
      exact ⟨(hstates j).1.mpr hused, hrun.imp_left (hstates j).2⟩
    · exact fun x hx hnot => h.away x (fun j hj => (hstates j).1.mp (hx j hj)) hnot
  · exact h

/-! ## Runs -/

lemma boot_good : Good boot where
  cpus := by
    intro c
    refine ⟨_, [], rfl, .of_atRest ?_ (by simp [acquire, Instr.atRest]) nofun nofun, nofun, rfl, nofun, nofun⟩
    exact ⟨rfl, rfl, by simp [acquire], Nat.one_pos, rfl, rfl⟩
  away := by
    intro x hx hnot
    cases x with
    | cpu n => exact absurd rfl (hnot n)
    | proc i => exact absurd rfl (hx i rfl)
  home := by
    rintro c n ⟨⟩
    rfl
  single := by
    rintro c c' ⟨⟩
    rfl
  locks := ⟨fun _ => nodup_nil, nofun, fun _ => ⟨nofun, nofun⟩, nofun⟩
  panics := ⟨nofun, nofun⟩
  sections := nofun

lemma step_good (h : Good s) (e : Event) : Good (s.step e) := by
  cases e with
  | op c o => exact op_good h c o
  | exec c => exact exec_good h c
  | pick c i => exact pick_good h c i
  | again c => exact again_good h c
  | trap c => exact trap_good h c
  | iret c => exact iret_good h c
  | flags c ints => exact flags_good h c ints
  | create i => exact create_good h i
  | wakeup i => exact wakeup_good h i

lemma run_good (evs : List Event) (h : Good s) : Good (s.run evs) := by
  induction evs generalizing s with
  | nil => exact h
  | cons e evs ih =>
    refine ih ?_
    rw [State.next]
    split
    · exact h
    · exact step_good h e

/-- `ncli` of a CPU counts the locks taken on it and the open calls of `pushcli` of its context; while it is
not 0, interrupts are off, and `popcli` does not panic. Whenever a thread has given everything back,
the interrupt flag is what it was before. -/
theorem interrupt_nesting (evs : List Event) :
    (∀ c, ∃ L rest, (boot.run evs).ctxs ((boot.run evs).cpus c).cur = L :: rest ∧
      ((boot.run evs).cpus c).ncli = (((boot.run evs).cpus c).held.length + L.pushed : Nat) ∧
      (0 < ((boot.run evs).cpus c).ncli → ((boot.run evs).cpus c).ints = false)) ∧
    (∀ c, ((boot.run evs).cpus c).held.Nodup) ∧
    (∀ c c' l, l ∈ ((boot.run evs).cpus c).held → l ∈ ((boot.run evs).cpus c').held → c = c') ∧
    (∀ l, ((boot.run evs).locks l).locked = true ↔ ∃ c, l ∈ ((boot.run evs).cpus c).held) ∧
    (∀ l c, ((boot.run evs).locks l).cpu = some c → l ∈ ((boot.run evs).cpus c).held) ∧
    (boot.run evs).panicked ≠ some .popcli ∧ (boot.run evs).panicked ≠ some .popcliInterruptible ∧
    ∀ r ∈ (boot.run evs).sections, r.1 = r.2 := by
  have h := run_good evs boot_good
  refine ⟨fun c => ?_, h.locks.nodup, h.locks.apart, h.locks.locked, h.locks.cpu, h.panics.1, h.panics.2, h.sections⟩
  obtain ⟨L, rest, hok⟩ := h.cpus c
  refine ⟨L, rest, hok.stack, hok.ncli, fun hpos => hok.level.off ?_⟩
  have := hok.ncli
  omega

end Xv6.Spinlock
