import Xv6.Proofs.Monitor
import Xv6.Proofs.PipeRing
import Xv6.Lib.Schedule

/-!
# Pipes are lossless queues

A writer owes the readers a wakeup for the bytes it stored, a reader owes one to the writers for the
room it made.
-/

namespace Xv6.Process

open Threads Monitor List Function

/-! ## The pipe as a monitor -/

def Pipe.isOpen (x : Pipe) : Side → Bool
  | .read => x.readopen
  | .write => x.writeopen

structure Shared.Valid (x : Shared) : Prop where
  lossless : x.pipe.Lossless
  users : ∀ side, (x.file side).users.length ≤ (x.file side).ref
  closer : ∀ side p, (x.file side).closer = some p → (x.file side).ref = 0
  closed : ∀ side, x.pipe.isOpen side = false → (x.file side).ref = 0 ∧ (x.file side).closer = none
  freer : ∀ p, x.freer = some p → ∀ side, x.pipe.isOpen side = false
  freed : x.freed = true → ∀ side, x.pipe.isOpen side = false

/-- What a process is doing: how often it is in a call through each end and whether it is to close
it, and whether it is to free the pipe. -/
@[ext]
structure Uses where
  ends : Side → Nat × Bool
  frees : Bool

namespace Uses

def idle : Uses := ⟨fun _ => (0, false), false⟩
def inCall (side : Side) : Uses := ⟨Function.update idle.ends side (1, false), false⟩
def closing (side : Side) : Uses := ⟨Function.update idle.ends side (0, true), false⟩
def freeing : Uses := ⟨idle.ends, true⟩

end Uses

def Shared.uses (p : Nat) (x : Shared) : Uses where
  ends := fun side => ((x.file side).users.count p, decide ((x.file side).closer = some p))
  frees := decide (x.freer = some p)

/-- The pipe, with or without an account of the wakeups. -/
def pipeMonitor (strict : Prop) : Monitor Shared Pipe Uses where
  view := Shared.pipe
  own := Shared.uses
  idle := .idle
  Valid := Shared.Valid
  Ready := fun c x => strict ∧
    ((c = nreadChan ∧ x.readopen = true ∧ (x.empty = false ∨ x.writeopen = false)) ∨
      (c = nwriteChan ∧ (x.full = false ∨ x.readopen = false)))
  Waits := fun c w =>
    (c = nreadChan → (w.ends .read).1 ≠ 0) ∧ (c = nwriteChan → (w.ends .write).1 ≠ 0)
  Owes := fun _ _ => True
  prompt := strict
  Spared := fun D => strict → D = []
  Settled := fun D => strict → D = []

abbrev Spec (strict : Prop) (nproc p : Nat) {α : Type} :=
  wp (α := α) (pipes nproc) ((pipeMonitor strict).logic nproc) (.proc p)

section Rules

variable {strict : Prop} {nproc p rounds i k : Nat} {s : State Shared} {w : Uses} {D : List Chan}
  {H : List Nat} {Φ : Pipe → Prop} {side : Side}

lemma wp_withPipe {f : Pipe → Pipe} {owe : List Chan} (hl : lk ∈ H)
    (hopen : ∀ x side, (f x).isOpen side = x.isOpen side)
    (hf : ∀ x, x.Lossless → Φ x → (f x).Lossless ∧ (pipeMonitor strict).Pays p (owe ++ D) x (f x))
    (hs : (pipeMonitor strict).Knows p H D w Φ s) :
    Spec strict nproc p (withPipe f owe)
      (fun x s => (x.Lossless ∧ Φ x) ∧
        (pipeMonitor strict).Knows p H (owe ++ D) w (fun y => y = f x) s) s := by
  refine wp_seq (wp_data (T := fun _ => w) (.inl hl) (fun x hv hw hΦ => ?_) hs) fun x s h => ?_
  · obtain ⟨hf, hp⟩ := hf x.pipe hv.lossless (hΦ hl)
    refine ⟨⟨hf, hv.users, hv.closer, fun side h => ?_, fun q h side => ?_, fun h side => ?_⟩, hw,
      fun _ _ => rfl, hp⟩
    · exact hv.closed side ((hopen _ _).symm.trans h)
    · exact (hopen _ _).trans (hv.freer q h side)
    · exact (hopen _ _).trans (hv.freed h side)
  · exact wp_ret ⟨⟨h.1.1.lossless, h.1.2.2 hl⟩, h.2⟩

lemma wp_look (hl : lk ∈ H) (hs : (pipeMonitor strict).Knows p H D w Φ s) :
    Spec strict nproc p (withPipe (fun x => x) [])
      (fun x s => (x.Lossless ∧ Φ x) ∧
        (pipeMonitor strict).Knows p H D w (fun y => y = x) s) s :=
  wp_withPipe hl (fun _ _ => rfl) (fun x hx _ => ⟨hx, .refl p _ x⟩) hs

/-- A writer in its loop: it owes wakeups to the readers only, and only if there may be any. -/
def Writing (strict : Prop) (p : Nat) (Φ : Pipe → Prop) (s : State Shared) : Prop :=
  ∃ D, (pipeMonitor strict).Knows p [lk] D (.inCall .write)
    (fun x => Φ x ∧ (strict → (∀ c ∈ D, c = nreadChan) ∧ (x.readopen = false → D = []))) s

def Settling (strict : Prop) (p : Nat) (w : Uses) (s : State Shared) : Prop :=
  ∃ D, (strict → D = []) ∧ (pipeMonitor strict).Knows p [lk] D w (fun _ => True) s

def Between (strict : Prop) (p : Nat) (w : Uses) (s : State Shared) : Prop :=
  ∃ D, (strict → D = []) ∧ (pipeMonitor strict).Knows p [] D w (fun _ => True) s

lemma filter_nread (h : strict → ∀ c ∈ D, c = nreadChan) : strict → D.filter (· ≠ nreadChan) = [] := by
  intro hst
  refine filter_eq_nil_iff.mpr fun c hc => ?_
  simp [h hst c hc]

lemma wp_waitRoom (hs : Writing strict p (fun _ => True) s) :
    Spec strict nproc p (waitRoom nproc rounds)
      (fun r s => match r with
        | none => Settling strict p (.inCall .write) s
        | some x => Writing strict p (fun y => y = x ∧ x.full = false) s) s := by
  induction rounds generalizing s with
  | zero => exact wp_seq (wp_never (U := fun _ _ => False) fun _ => rfl) fun _ _ h => h.elim
  | succ rounds ih =>
    obtain ⟨D, hk⟩ := hs
    refine wp_seq (wp_look (by simp) hk) fun x s h => ?_
    obtain ⟨⟨hx, -, hD⟩, hk⟩ := h
    split
    · rename_i hfull
      split
      · rename_i hro
        exact wp_ret ⟨D, fun hst => (hD hst).2 hro, hk.mono fun _ _ => trivial⟩
      rename_i hro
      refine wp_seq (wp_killed hk) fun r s h => ?_
      split
      · rename_i hkill
        exact wp_ret ⟨D, h.1 hkill, h.2.mono fun _ _ => trivial⟩
      have hD' := filter_nread fun hst => (hD hst).1
      refine wp_seq (wp_wakeup (by decide) nreadChan h.2) fun _ s h => ?_
      refine wp_seq (wp_sleep (Ψ := fun _ => True) hD' ?_ ?_ (fun _ _ _ => trivial) h) fun _ s h => ?_
      · rintro _ rfl ⟨-, ⟨hc, -⟩ | ⟨-, hr | hr⟩⟩
        · cases hc
        · simp [hfull] at hr
        · exact hro hr
      · exact ⟨nofun, fun _ => by simp [Uses.inCall]⟩
      · refine ih ⟨_, h.mono fun x _ => ⟨trivial, fun hst => ⟨?_, fun _ => hD' hst⟩⟩⟩
        rw [hD' hst]
        exact nofun
    · rename_i hroom
      refine wp_ret ⟨D, hk.mono ?_⟩
      rintro _ rfl
      exact ⟨⟨rfl, by simpa using hroom⟩, hD⟩

lemma wp_store {x : Pipe} (b : UInt8) (hs : Writing strict p (fun y => y = x ∧ x.full = false) s) :
    Spec strict nproc p
      (withPipe (Pipe.store b) (if x.readopen then [nreadChan] else []))
      (fun _ => Writing strict p fun _ => True) s := by
  obtain ⟨D, hk⟩ := hs
  refine wp_mono (wp_withPipe (by simp) (fun y side => ?_) (fun y hy hΦ => ?_) hk) fun y s h => ?_
  · cases side <;> rfl
  · obtain ⟨⟨rfl, hroom⟩, -⟩ := hΦ
    refine ⟨hy.store b hroom, fun c hr => ?_⟩
    obtain ⟨hst, ⟨rfl, hro, -⟩ | ⟨rfl, -⟩⟩ := hr
    · have hro' : y.readopen = true := hro
      exact .inr ⟨by simp [hro'], trivial⟩
    · exact .inl ⟨⟨hst, .inr ⟨rfl, .inl hroom⟩⟩, fun _ => id⟩
  · obtain ⟨⟨-, ⟨rfl, -⟩, hD⟩, hk⟩ := h
    refine ⟨_, hk.mono ?_⟩
    rintro _ rfl
    refine ⟨trivial, fun hst => ⟨fun c hc => ?_, fun hro => ?_⟩⟩
    · rcases mem_append.mp hc with hc | hc
      · split at hc
        · exact mem_singleton.mp hc
        · cases hc
      · exact (hD hst).1 c hc
    · have hro' : y.readopen = false := hro
      rw [hro', (hD hst).2 hro']
      rfl

lemma wp_writeFrom (addr : Nat → UInt8) (hs : Writing strict p (fun _ => True) s) :
    Spec strict nproc p (writeFrom nproc rounds addr k i)
      (fun r s => if r then Writing strict p (fun _ => True) s
        else Settling strict p (.inCall .write) s) s := by
  induction k generalizing i s with
  | zero => exact wp_ret hs
  | succ k ih =>
    refine wp_seq (wp_waitRoom hs) fun r s h => ?_
    cases r with
    | none => exact wp_ret h
    | some x => exact wp_seq (wp_store (addr i) h) fun _ s h => ih h

lemma wp_finish (hs : Settling strict p w s) :
    Spec strict nproc p (release lk)
      (fun _ => Between strict p w) s := by
  obtain ⟨D, hD, hk⟩ := hs
  exact wp_mono (wp_release lk (fun hst _ => hD hst) hk) fun _ _ h => ⟨D, hD, h⟩

lemma wp_pipewrite (addr : Nat → UInt8) (n : Int32) (hs : Between strict p (.inCall .write) s) :
    Spec strict nproc p (pipewrite nproc rounds addr n)
      (fun _ => Between strict p (.inCall .write)) s := by
  obtain ⟨D, hD, hk⟩ := hs
  refine wp_seq (wp_acquire lk (fun _ _ _ _ => trivial) hk) fun _ s h => ?_
  have hw : Writing strict p (fun _ => True) s := by
    refine ⟨D, h.mono fun x _ => ⟨trivial, fun hst => ⟨?_, fun _ => hD hst⟩⟩⟩
    rw [hD hst]
    exact nofun
  refine wp_seq (wp_writeFrom addr hw) fun r s h => ?_
  cases r with
  | true =>
    obtain ⟨D, hk⟩ : Writing strict p (fun _ => True) s := h
    have hD := filter_nread fun hst => ((hk.view (by simp)).2 hst).1
    refine wp_seq (wp_wakeup (by decide) nreadChan hk) fun _ s h => ?_
    exact wp_seq_ret (wp_finish ⟨_, hD, h.mono fun _ _ => trivial⟩)
  | false => exact wp_seq_ret (wp_finish h)

lemma wp_waitBytes (hD : strict → D = [])
    (hs : (pipeMonitor strict).Knows p [lk] D (.inCall .read) (fun _ => True) s) :
    Spec strict nproc p (waitBytes rounds)
      (fun r => (pipeMonitor strict).Knows p [lk] D (.inCall .read)
        fun x => r = true → x.empty = true → x.writeopen = false) s := by
  induction rounds generalizing s with
  | zero => exact wp_seq (wp_never (U := fun _ _ => False) fun _ => rfl) fun _ _ h => h.elim
  | succ rounds ih =>
    refine wp_seq (wp_look (by simp) hs) fun x s h => ?_
    split
    · rename_i hwait
      refine wp_seq (wp_killed h.2) fun r s h => ?_
      split
      · exact wp_ret (h.2.mono fun _ _ => nofun)
      refine wp_seq (wp_sleep hD ?_ ?_ (fun _ _ _ => trivial) h.2) fun _ s h => ih h
      · rintro _ rfl ⟨-, ⟨-, -, hr | hr⟩ | ⟨hc, -⟩⟩
        · simp [hr] at hwait
        · simp [hr] at hwait
        · cases hc
      · exact ⟨fun _ => by simp [Uses.inCall], nofun⟩
    · rename_i hgo
      refine wp_ret (h.2.mono ?_)
      rintro _ rfl - he
      simpa [he] using hgo

lemma wp_read (n : Int32)
    (hs : (pipeMonitor strict).Knows p [lk] D w (fun x => x.empty = true → x.writeopen = false) s) :
    Spec strict nproc p (withPipe (Pipe.read n) [nwriteChan])
      (fun _ => (pipeMonitor strict).Knows p [lk] (nwriteChan :: D) w fun _ => True) s := by
  have heq : ∀ x : Pipe, ∀ side, (x.read n).isOpen side = x.isOpen side := by
    intro x side
    obtain ⟨r, rs, h⟩ := x.read_eq n
    rw [h]
    cases side <;> rfl
  refine wp_mono (wp_withPipe (by simp) heq (fun x hx hΦ => ⟨hx.read n hΦ, fun c hr => ?_⟩) hs)
    fun _ _ h => h.2.mono fun _ _ => trivial
  obtain ⟨hst, ⟨rfl, hro, hr⟩ | ⟨rfl, -⟩⟩ := hr
  · refine .inl ⟨⟨hst, .inl ⟨rfl, (heq x .read).symm.trans hro, ?_⟩⟩, fun _ => id⟩
    refine hr.imp (fun he => ?_) fun hw => (heq x .write).symm.trans hw
    have hlen := x.unread_read n
    grind [Pipe.empty_iff]
  · exact .inr ⟨by simp, trivial⟩

lemma wp_piperead (n : Int32) (hs : Between strict p (.inCall .read) s) :
    Spec strict nproc p (piperead nproc rounds n)
      (fun _ => Between strict p (.inCall .read)) s := by
  obtain ⟨D, hD, hk⟩ := hs
  refine wp_seq (wp_acquire lk (fun _ _ _ _ => trivial) hk) fun _ s h => ?_
  refine wp_seq (wp_waitBytes hD h) fun r s h => ?_
  cases r with
  | true =>
    refine wp_seq (wp_read n (h.mono fun _ hx => hx rfl)) fun _ s h => ?_
    refine wp_seq (wp_wakeup (by decide) nwriteChan h) fun _ s h => ?_
    refine wp_seq_ret (wp_finish ⟨_, fun hst => ?_, h⟩)
    rw [hD hst]
    rfl
  | false => exact wp_seq_ret (wp_finish ⟨D, hD, h.mono fun _ _ => trivial⟩)

/-! ## Open files -/

lemma file_setFile (x : Shared) (e : End) (side side' : Side) :
    (x.setFile e side).file side' = if side' = side then e else x.file side' := by
  cases side <;> cases side' <;> rfl

lemma pipe_setFile (x : Shared) (e : End) (side : Side) : (x.setFile e side).pipe = x.pipe := by
  cases side <;> rfl

lemma freer_setFile (x : Shared) (e : End) (side : Side) : (x.setFile e side).freer = x.freer := by
  cases side <;> rfl

lemma freed_setFile (x : Shared) (e : End) (side : Side) : (x.setFile e side).freed = x.freed := by
  cases side <;> rfl

lemma uses_setFile (x : Shared) (e : End) (side : Side) (q : Nat) :
    (x.setFile e side).uses q =
      ⟨Function.update (x.uses q).ends side (e.users.count q, decide (e.closer = some q)),
        (x.uses q).frees⟩ := by
  ext1
  · funext side'
    simp only [Shared.uses, file_setFile, update_apply]
    split <;> rfl
  · simp only [Shared.uses, freer_setFile]

lemma uses_setFile_of_eq {x : Shared} {e : End} {q : Nat}
    (hu : e.users.count q = (x.file side).users.count q)
    (hc : e.closer = some q ↔ (x.file side).closer = some q) : (x.setFile e side).uses q = x.uses q := by
  have hsame : (e.users.count q, decide (e.closer = some q)) = (x.uses q).ends side := by
    simp only [Shared.uses, hu, hc]
  rw [uses_setFile, hsame, update_eq_self]

lemma change_setFile {x : Shared} {e : End} (hv : x.Valid) (hu : e.users.length ≤ e.ref)
    (hc : ∀ q, e.closer = some q → e.ref = 0)
    (ho : x.pipe.isOpen side = false → e.ref = 0 ∧ e.closer = none)
    (hq : ∀ q, q ≠ p → e.users.count q = (x.file side).users.count q ∧
      (e.closer = some q ↔ (x.file side).closer = some q)) :
    Change (pipeMonitor strict) p D ((x.setFile e side).uses p) x (x.setFile e side) := by
  refine ⟨⟨?_, fun side' => ?_, fun side' => ?_, fun side' => ?_, ?_, ?_⟩, rfl, fun q hqp => ?_, ?_⟩
  · rw [pipe_setFile]
    exact hv.lossless
  · rw [file_setFile]
    split
    · exact hu
    · exact hv.users side'
  · rw [file_setFile]
    split
    · exact hc
    · exact hv.closer side'
  · rw [file_setFile, pipe_setFile]
    split
    · rename_i hs
      exact hs ▸ ho
    · exact hv.closed side'
  · rw [freer_setFile, pipe_setFile]
    exact hv.freer
  · rw [freed_setFile, pipe_setFile]
    exact hv.freed
  · exact uses_setFile_of_eq (hq q hqp).1 (hq q hqp).2
  · show (pipeMonitor strict).Pays p D x.pipe (x.setFile e side).pipe
    rw [pipe_setFile]
    exact .refl p D x.pipe

lemma wp_file {f : Nat → Shared → Shared} {T : Shared → Uses}
    (hpipe : ∀ x, (f p x).pipe = x.pipe)
    (h : ∀ x D, x.Valid → x.uses p = w → Change (pipeMonitor strict) p D (T x) x (f p x))
    (hs : Between strict p w s) :
    Spec strict nproc p (act (.data f []))
      (fun x s => (x.Valid ∧ x.uses p = w) ∧ Between strict p (T x) s) s := by
  obtain ⟨D, hD, hk⟩ := hs
  refine wp_mono (wp_data (.inr ⟨rfl, hpipe⟩) (fun x hv hw _ => h x D hv hw) hk) fun x s h => ?_
  exact ⟨⟨h.1.1, h.1.2.1⟩, D, hD, h.2.mono fun _ _ => trivial⟩

lemma uses_end {x : Shared} (side : Side) (hw : x.uses p = w) :
    (x.file side).users.count p = (w.ends side).1 ∧
      decide ((x.file side).closer = some p) = (w.ends side).2 := by
  rw [← hw]
  exact ⟨rfl, rfl⟩

lemma wp_enter (hs : Between strict p .idle s) :
    Spec strict nproc p (enter side)
      (fun r => Between strict p (if r then .inCall side else .idle)) s := by
  refine wp_seq (wp_file (fun x => ?_) (fun x D hv hw => ?_) hs) fun x s h => wp_ret h.2
  · dsimp only
    split
    · exact pipe_setFile _ _ _
    · rfl
  dsimp only
  split
  · rename_i hsp
    obtain ⟨hcnt, hcl⟩ := uses_end side hw
    have hlt : (x.file side).users.length < (x.file side).ref := by simpa [End.spare] using hsp
    have huses : (x.setFile { x.file side with users := p :: (x.file side).users } side).uses p =
        .inCall side := by
      rw [uses_setFile, hw, count_cons_self, hcnt, hcl]
      rfl
    refine huses ▸ change_setFile hv hlt (hv.closer side) (hv.closed side) fun q hq => ⟨?_, .rfl⟩
    rw [count_cons_of_ne hq.symm]
  · exact .refl hv hw

lemma wp_leave (hs : Between strict p (.inCall side) s) :
    Spec strict nproc p (leave side)
      (fun _ => Between strict p .idle) s := by
  refine wp_seq (wp_file (fun x => pipe_setFile _ _ _) (fun x D hv hw => ?_) hs) fun x s h => wp_ret h.2
  obtain ⟨hcnt, hcl⟩ := uses_end side hw
  have huses : (x.setFile { x.file side with users := (x.file side).users.erase p } side).uses p =
      .idle := by
    rw [uses_setFile, hw, count_erase_self, hcnt, hcl]
    simp [Uses.inCall, Uses.idle]
  refine huses ▸ change_setFile hv ?_ (hv.closer side) (hv.closed side) fun q hq => ⟨?_, .rfl⟩
  · exact Nat.le_trans length_erase_le (hv.users side)
  · rw [count_erase_of_ne hq]

lemma wp_filedup (hs : Between strict p .idle s) :
    Spec strict nproc p (filedup side)
      (fun _ => Between strict p .idle) s := by
  refine wp_seq (wp_file (fun x => ?_) (fun x D hv hw => ?_) hs) fun x s h => wp_ret h.2
  · dsimp only
    split
    · exact pipe_setFile _ _ _
    · rfl
  dsimp only
  split
  · rename_i hsp
    have hlt : (x.file side).users.length < (x.file side).ref := by simpa [End.spare] using hsp
    have huses : (x.setFile { x.file side with ref := (x.file side).ref + 1 } side).uses p = .idle := by
      rw [uses_setFile_of_eq, hw] <;> rfl
    refine huses ▸ change_setFile hv (by dsimp only; omega) (fun q hq => ?_) (fun ho => ?_)
      fun q _ => ⟨rfl, .rfl⟩
    · have := hv.closer side q hq
      omega
    · have := (hv.closed side ho).1
      omega
  · exact .refl hv hw

lemma isOpen_close {x : Shared} (side' : Side) :
    (x.close side p).pipe.isOpen side' = if side' = side then false else x.pipe.isOpen side' := by
  cases side <;> cases side' <;> rfl

lemma file_close (x : Shared) (side' : Side) :
    (x.close side p).file side' =
      if side' = side then { x.file side with closer := none } else x.file side' := by
  cases side <;> cases side' <;> rfl

lemma freed_close (x : Shared) : (x.close side p).freed = x.freed := by
  cases side <;> rfl

def Pipe.dead (x : Pipe) : Bool := x.readopen = false && x.writeopen = false

lemma Pipe.dead_iff {x : Pipe} : x.dead = true ↔ ∀ side, x.isOpen side = false := by
  refine ⟨fun h side => ?_, fun h => ?_⟩
  · simp only [dead, Bool.and_eq_true, decide_eq_true_eq] at h
    cases side with
    | read => exact h.1
    | write => exact h.2
  · have h1 := h .read
    have h2 := h .write
    simp only [isOpen] at h1 h2
    simp [dead, h1, h2]

lemma freer_close {x : Shared} :
    (x.close side p).freer = if (x.close side p).pipe.dead then some p else x.freer := by
  cases side with
  | read => cases h : x.pipe.writeopen <;> simp [Shared.close, Pipe.dead, h]
  | write => cases h : x.pipe.readopen <;> simp [Shared.close, Pipe.dead, h]

lemma uses_close (x : Shared) (q : Nat) :
    (x.close side p).uses q =
      ⟨Function.update (x.uses q).ends side ((x.file side).users.count q, false),
        decide ((if (x.close side p).pipe.dead then some p else x.freer) = some q)⟩ := by
  ext1
  · funext side'
    simp only [Shared.uses, file_close, update_apply]
    split <;> rfl
  · simp only [Shared.uses, freer_close]

lemma lossless_close {x : Shared} (h : x.pipe.Lossless) : (x.close side p).pipe.Lossless := by
  cases side with
  | read => exact ⟨h.bound, h.bytes, h.eof⟩
  | write => exact ⟨h.bound, h.bytes, h.eof⟩

lemma change_close {x : Shared} (hv : x.Valid) (hw : x.uses p = .closing side)
    (hp : (pipeMonitor strict).Pays p D x.pipe (x.close side p).pipe) :
    Change (pipeMonitor strict) p D (if (x.close side p).pipe.dead then .freeing else .idle)
      x (x.close side p) := by
  obtain ⟨hcnt, hcl⟩ := uses_end side hw
  have hcloser : (x.file side).closer = some p := by simpa [Uses.closing] using hcl
  have hfreer : ∀ q, x.freer ≠ some q := by
    intro q hq
    have := (hv.closed side (hv.freer q hq side)).2
    rw [hcloser] at this
    cases this
  refine ⟨⟨lossless_close hv.lossless, fun side' => ?_, fun side' => ?_, fun side' => ?_, fun q hq => ?_,
    fun h side' => ?_⟩, ?_, fun q hq => ?_, hp⟩
  · rw [file_close]
    split
    · exact hv.users side
    · exact hv.users side'
  · rw [file_close]
    split
    · exact nofun
    · exact hv.closer side'
  · rw [file_close, isOpen_close]
    split
    · exact fun _ => ⟨hv.closer side p hcloser, rfl⟩
    · exact hv.closed side'
  · rw [freer_close] at hq
    split at hq
    · rename_i hd
      exact Pipe.dead_iff.mp hd
    · exact absurd hq (hfreer q)
  · rw [isOpen_close, hv.freed (freed_close x ▸ h) side', ite_self]
  · show (x.close side p).uses p = _
    have hidle : Function.update (Uses.closing side).ends side (0, false) = Uses.idle.ends := by
      simp [Uses.closing, Uses.idle]
    rw [uses_close, hw, hcnt]
    simp only [Uses.closing, update_self] at hidle ⊢
    rw [hidle]
    split
    · simp [Uses.freeing]
    · simp [Uses.idle, hfreer p]
  · show (x.close side p).uses q = x.uses q
    have hq' : ¬some p = some q := fun h => hq (Option.some.inj h).symm
    have hsame : ((x.file side).users.count q, false) = (x.uses q).ends side := by
      simp [Shared.uses, hcloser, hq']
    have hfrees : (x.uses q).frees = false := by simp [Shared.uses, hfreer q]
    rw [uses_close, hsame, update_eq_self]
    ext1
    · rfl
    · rw [hfrees]
      split <;> simp [hq', hfreer q]

/-- Who is to go on when an end is closed. -/
def Side.peers : Side → Chan
  | .write => nreadChan
  | .read => nwriteChan

lemma pays_close {x : Shared} :
    (pipeMonitor strict).Pays p (side.peers :: D) x.pipe (x.close side p).pipe := by
  rintro c ⟨hst, ⟨rfl, hro, hr⟩ | ⟨rfl, hr⟩⟩
  · cases side with
    | write => exact .inr ⟨by simp [Side.peers], trivial⟩
    | read => cases hro
  · cases side with
    | write => exact .inl ⟨⟨hst, .inr ⟨rfl, hr⟩⟩, fun _ => id⟩
    | read => exact .inr ⟨by simp [Side.peers], trivial⟩

lemma wp_kfree (hs : Between strict p .freeing s) :
    Spec strict nproc p kfree (fun _ => Between strict p .idle) s := by
  refine wp_seq (wp_file (fun _ => rfl) (fun x D hv hw => ?_) hs) fun x s h => wp_ret h.2
  have hfreer : x.freer = some p := by simpa [Shared.uses, Uses.freeing] using congrArg Uses.frees hw
  have hends : ∀ q, Shared.uses q { x with freed := true, freer := none } = ⟨(x.uses q).ends, false⟩ :=
    fun _ => rfl
  refine ⟨⟨hv.lossless, hv.users, hv.closer, hv.closed, nofun, fun _ => hv.freer p hfreer⟩, ?_, fun q hq => ?_,
    .refl p D x.pipe⟩
  · exact (hends p).trans (by rw [hw]; rfl)
  have hq' : ¬some p = some q := fun h => hq (Option.some.inj h).symm
  refine (hends q).trans ?_
  show _ = x.uses q
  simp [Shared.uses, hfreer, hq']

lemma wp_pipeclose_end {b : Bool} (hD : strict → D = [])
    (hs : (pipeMonitor strict).Knows p [lk] D (if b then .freeing else .idle) (fun x => x.dead = b) s) :
    Spec strict nproc p
      (do
        let x ← withPipe (fun x => x) []
        if x.readopen = false && x.writeopen = false then
          release lk
          kfree
        else release lk)
      (fun _ => Between strict p .idle) s := by
  refine wp_seq (wp_look (by simp) hs) fun x s h => ?_
  obtain ⟨⟨-, hx⟩, hk⟩ := h
  have hset : Settling strict p (if b then .freeing else .idle) s := ⟨D, hD, hk.mono fun _ _ => trivial⟩
  rw [Pipe.dead] at hx
  cases b with
  | true =>
    rw [if_pos hx]
    exact wp_seq (wp_finish hset) fun _ s h => wp_kfree h
  | false =>
    rw [if_neg (by rw [hx]; decide)]
    exact wp_finish hset

lemma wp_pipeclose (hs : Between strict p (.closing side) s) :
    Spec strict nproc p (pipeclose nproc side)
      (fun _ => Between strict p .idle) s := by
  obtain ⟨D, hD, hk⟩ := hs
  refine wp_seq (wp_acquire lk (fun _ _ _ _ => trivial) hk) fun _ s h => ?_
  have hclose : ∀ s, (pipeMonitor strict).Knows p [lk] D (.closing side) (fun _ => True) s →
      Spec strict nproc p
        (act (.data (Shared.close side) [side.peers])) (fun x => (pipeMonitor strict).Knows p [lk]
          (side.peers :: D) (if (x.close side p).pipe.dead then .freeing else .idle)
          fun y => y.dead = (x.close side p).pipe.dead) s := by
    intro s hs
    refine wp_mono (wp_data (.inl (by simp)) (fun x hv hw _ => change_close hv hw pays_close) hs)
      fun x s h => h.2.mono ?_
    rintro _ rfl
    rfl
  have hD' : strict → (side.peers :: D).filter (· ≠ side.peers) = [] := by
    intro hst
    rw [hD hst]
    simp
  cases side with
  | write =>
    refine wp_seq (hclose s h) fun x s h => ?_
    exact wp_seq (wp_wakeup (by decide) nreadChan h) fun _ s h => wp_pipeclose_end hD' h
  | read =>
    refine wp_seq (hclose s h) fun x s h => ?_
    exact wp_seq (wp_wakeup (by decide) nwriteChan h) fun _ s h => wp_pipeclose_end hD' h

lemma change_drop {x : Shared} (hv : x.Valid) (hw : x.uses p = .idle)
    (hlt : (x.file side).users.length < (x.file side).ref) :
    Change (pipeMonitor strict) p D (if (x.file side).ref = 1 then .closing side else .idle) x
      (x.setFile { x.file side with
        ref := (x.file side).ref - 1
        closer := if (x.file side).ref = 1 then some p else (x.file side).closer } side) := by
  obtain ⟨hcnt, hcl⟩ := uses_end side hw
  have hnone : ∀ q, (x.file side).closer ≠ some q := fun q hq => by
    have := hv.closer side q hq
    omega
  have huses : (x.setFile { x.file side with
        ref := (x.file side).ref - 1
        closer := if (x.file side).ref = 1 then some p else (x.file side).closer } side).uses p =
      if (x.file side).ref = 1 then .closing side else .idle := by
    split
    · rw [uses_setFile, hw, hcnt]
      simp [Uses.closing, Uses.idle]
    · rw [uses_setFile_of_eq, hw] <;> rfl
  refine huses ▸ change_setFile hv (Nat.le_sub_one_of_lt hlt) (fun q hq => ?_) (fun ho => ?_)
    fun q hq => ⟨rfl, ?_⟩
  · dsimp only at hq ⊢
    split at hq
    · omega
    · exact absurd hq (hnone q)
  · have := (hv.closed side ho).1
    omega
  · have hq' : ¬some p = some q := fun h => hq (Option.some.inj h).symm
    split
    · simp [hq', hnone q]
    · exact .rfl

lemma wp_fileclose (hs : Between strict p .idle s) :
    Spec strict nproc p (fileclose nproc side)
      (fun _ => Between strict p .idle) s := by
  refine wp_seq (wp_file (T := fun x => if ((x.file side).spare && (x.file side).ref = 1) = true
    then .closing side else .idle) (fun x => ?_) (fun x D hv hw => ?_) hs) fun x s h => ?_
  · dsimp only
    split
    · exact pipe_setFile _ _ _
    · rfl
  · dsimp only
    by_cases hsp : (x.file side).spare = true
    · simp only [hsp, Bool.true_and, decide_eq_true_eq, if_true]
      exact change_drop hv hw (by simpa [End.spare] using hsp)
    · simp only [hsp, Bool.false_and]
      exact .refl hv hw
  · obtain ⟨-, h⟩ := h
    dsimp only
    split
    · rename_i hc
      rw [if_pos hc] at h
      exact wp_pipeclose h
    · rename_i hc
      rw [if_neg hc] at h
      exact wp_ret h

lemma wp_pipeCall (x : PipeCall) (hs : Between strict p .idle s) :
    Spec strict nproc p (x.body nproc)
      (fun _ => Between strict p .idle) s := by
  cases x with
  | write addr n rounds =>
    refine wp_seq (wp_enter hs) fun r s h => ?_
    cases r with
    | true => exact wp_seq (wp_pipewrite addr n h) fun _ s h => wp_leave h
    | false => exact wp_ret h
  | read n rounds =>
    refine wp_seq (wp_enter hs) fun r s h => ?_
    cases r with
    | true => exact wp_seq (wp_piperead n h) fun _ s h => wp_leave h
    | false => exact wp_ret h
  | dup side => exact wp_filedup hs
  | close side => exact wp_fileclose hs
  | kill pid =>
    obtain ⟨D, hD, hk⟩ := hs
    exact wp_seq (wp_kill pid hk) fun _ s h => wp_ret ⟨D, hD, h⟩
  | schedule i => exact wp_never fun _ => rfl
  | preempt i => exact wp_never fun _ => rfl

end Rules

lemma pipealloc_valid (page : Table UInt8) : (pipealloc page).Valid := by
  have hunread : (pipealloc page).pipe.unread = 0 := by
    show (0 - 0 : UInt32).toNat = 0
    decide
  have hring : (pipealloc page).pipe.ring = [] := by rw [Pipe.ring, hunread, range_zero, map_nil]
  refine ⟨⟨by simp [hunread], by rw [hring]; rfl, by simp [pipealloc]⟩, fun side => ?_, fun side p => ?_,
    fun side h => ?_,
    by simp [pipealloc], by simp [pipealloc]⟩
  · cases side <;> exact Nat.zero_le 1
  · cases side <;> rintro ⟨⟩
  · cases side <;> cases h

lemma pipe_sound {strict : Prop} {nproc : Nat} {page : Table UInt8}
    {c : Config Tid (Act Shared) Act.Res (State Shared) Panic}
    (hr : Reaches (pipes nproc) ((pipeMonitor strict).logic nproc).Given
      (.initial (ready nproc (pipealloc page))) c) :
    Logic.Sound (pipes nproc) ((pipeMonitor strict).logic nproc) c := by
  refine Monitor.sound (fun x p D s hD h => wp_pipeCall x ⟨D, hD, h⟩) (pipealloc_valid page) (fun p => ?_)
    (fun _ => rfl) hr
  ext1
  · funext side
    cases side <;> rfl
  · rfl

lemma Shared.Valid.users_nil {x : Shared} (hv : x.Valid) (side : Side) (h : x.pipe.isOpen side = false) :
    (x.file side).users = [] := by
  have h1 := hv.users side
  rw [(hv.closed side h).1] at h1
  exact length_eq_zero_iff.mp (Nat.le_zero.mp h1)

/-- What was read is a prefix of what was stored, and the rest is in the ring; a read of a
positive number of bytes gets none only if the pipe is empty and its write side closed. The page
of the pipe is freed when nobody is in a call on it. -/
theorem pipe_lossless_fifo (nproc : Nat) (page : Table UInt8)
    {c : Config Tid (Act Shared) Act.Res (State Shared) Panic}
    (hr : Reaches (pipes nproc) (fun _ _ _ => True) (.initial (ready nproc (pipealloc page))) c) :
    (c.st.data.pipe.reads.map Read.bytes).flatten <+: c.st.data.pipe.stored ∧
      c.st.data.pipe.stored = (c.st.data.pipe.reads.map Read.bytes).flatten ++ c.st.data.pipe.ring ∧
      c.st.data.pipe.ring.length = (c.st.data.pipe.nwrite - c.st.data.pipe.nread).toNat ∧
      c.st.data.pipe.ring.length ≤ PIPESIZE ∧
      (∀ r ∈ c.st.data.pipe.reads, r.ret = 0 → 0 < r.n → r.empty = true ∧ r.closed = true) ∧
      (c.st.data.freed = true → c.st.data.rd.users = [] ∧ c.st.data.wr.users = []) := by
  have hg : Reaches (pipes nproc) ((pipeMonitor False).logic nproc).Given
      (.initial (ready nproc (pipealloc page))) c := by
    refine hr.strengthen _ fun _ _ t a _ _ _ => ?_
    cases t <;> cases a <;> first | trivial | exact fun _ => nofun
  have hv : c.st.data.Valid := (pipe_sound hg).inv.valid
  obtain ⟨hb, hbytes, heof⟩ := hv.lossless
  refine ⟨⟨_, hbytes.symm⟩, hbytes, Pipe.ring_length _, ?_, heof, fun hf => ?_⟩
  · rw [Pipe.ring_length]
    exact hb
  · exact ⟨hv.users_nil .read (hv.freed hf .read), hv.users_nil .write (hv.freed hf .write)⟩

/-! ## Runs -/

instance (nproc : Nat) (s : State Shared) (t : Tid) : Decidable ((pipes nproc).canCall s t) :=
  inferInstanceAs (Decidable ((machine (PipeCall.body nproc)).canCall s t))

def twoOfThree : Config Tid (Act Shared) Act.Res (State Shared) Panic :=
  Config.play (pipes 2) (fun _ _ _ => True) (.initial (ready 2 (pipealloc (.const 0))))
    [.call (.cpu 0) (.schedule 0) 1, .call (.cpu 1) (.schedule 1) 1,
      .call (.proc 0) (.write (fun i => UInt8.ofNat (7 + i)) 3 1) 40, .call (.proc 1) (.read 2 1) 40]

theorem two_of_three_read :
    (twoOfThree.st.data.pipe.reads.map Read.bytes).flatten = [7, 8] ∧
      (twoOfThree.st.data.pipe.reads.map Read.bytes).flatten <+: twoOfThree.st.data.pipe.stored :=
  ⟨by decide +kernel, (pipe_lossless_fifo 2 (.const 0) (c := twoOfThree) (Config.play_reaches _ _)).1⟩

/-- A process that finds itself killed has stored no byte since it last woke the readers. -/
def killedClean : Tid → Act Shared → State Shared → Prop
  | .proc p, .killed, s => (s.procs p).killed = true → (s.procs p).debts = []
  | _, _, _ => True

/-- In such runs, when the lock is free, sleeping readers have nothing to read and sleeping writers
no room. -/
theorem no_sleeper_left (nproc : Nat) (page : Table UInt8)
    {c : Config Tid (Act Shared) Act.Res (State Shared) Panic}
    (hr : Reaches (pipes nproc) killedClean (.initial (ready nproc (pipealloc page))) c)
    (hl : c.st.locks lk = none) {i : Nat} (hs : (c.st.procs i).state = .sleeping) :
    ((c.st.procs i).chan = some nreadChan →
        c.st.data.pipe.unread = 0 ∧ c.st.data.pipe.writeopen = true) ∧
      ((c.st.procs i).chan = some nwriteChan →
        c.st.data.pipe.unread = PIPESIZE ∧ c.st.data.pipe.readopen = true) := by
  have hg : Reaches (pipes nproc) ((pipeMonitor True).logic nproc).Given
      (.initial (ready nproc (pipealloc page))) c := by
    refine hr.strengthen _ fun _ _ t a _ _ h => ?_
    cases t <;> cases a <;> first | trivial | exact fun hk _ => h hk
  have hi := (pipe_sound hg).inv
  have hv : c.st.data.Valid := hi.valid
  -- nobody owes a wakeup while the lock is free
  have hnot : ∀ ch, (c.st.procs i).chan = some ch → ¬(pipeMonitor True).Ready ch c.st.data.pipe := by
    intro ch hc hready
    obtain ⟨j, -, hj⟩ := hi.due i ch ⟨hs, hc⟩ hready
    have := hi.prompt trivial j (ne_nil_of_mem hj)
    rw [hl] at this
    cases this
  refine ⟨fun hc => ?_, fun hc => ?_⟩
  · have hn := hnot _ hc
    have hro : c.st.data.pipe.readopen = true := by
      by_contra ho
      have hw := (hi.waits i _ ⟨hs, hc⟩).1 rfl
      have hu := hv.users_nil .read (by simpa [Pipe.isOpen] using ho)
      simp [pipeMonitor, Shared.uses, hu] at hw
    refine ⟨?_, ?_⟩
    · by_contra hne
      exact hn ⟨trivial, .inl ⟨rfl, hro, .inl (by grind [Pipe.empty_iff])⟩⟩
    · by_contra hw
      exact hn ⟨trivial, .inl ⟨rfl, hro, .inr (by simpa using hw)⟩⟩
  · have hn := hnot _ hc
    refine ⟨?_, ?_⟩
    · by_contra hne
      exact hn ⟨trivial, .inr ⟨rfl, .inl (by grind [Pipe.full_iff])⟩⟩
    · by_contra hw
      exact hn ⟨trivial, .inr ⟨rfl, .inr (by simpa using hw)⟩⟩

instance (t : Tid) (a : Act Shared) (s : State Shared) : Decidable (killedClean t a s) := by
  unfold killedClean
  split <;> infer_instance

def sleepingReader : Config Tid (Act Shared) Act.Res (State Shared) Panic :=
  Config.play (pipes 2) killedClean (.initial (ready 2 (pipealloc (.const 0))))
    [.call (.cpu 0) (.schedule 0) 1, .call (.proc 0) (.read 1 2) 9]

theorem sleeping_reader_waits :
    (sleepingReader.st.procs 0).chan = some nreadChan ∧ sleepingReader.st.data.pipe.unread = 0 ∧
      sleepingReader.st.data.pipe.writeopen = true :=
  ⟨by decide +kernel, (no_sleeper_left 2 (.const 0) (c := sleepingReader) (Config.play_reaches _ _)
    (by decide +kernel) (i := 0) (by decide +kernel)).1 (by decide +kernel)⟩

/-- A reader sleeps on the empty pipe. A writer that is killed while it writes 513 bytes fills the
pipe and gives up without waking it. -/
def killedWriter : Config Tid (Act Shared) Act.Res (State Shared) Panic :=
  Config.play (pipes 3) (fun _ _ _ => True) (.initial (ready 3 (pipealloc (.const 0))))
    [.call (.cpu 0) (.schedule 0) 1, .call (.cpu 1) (.schedule 1) 1, .call (.cpu 2) (.schedule 2) 1,
      .call (.proc 0) (.read 1 2) 9, .call (.proc 1) (.write (fun _ => 1) 513 1) 2,
      .call (.proc 2) (.kill 2) 20, .go (.proc 1) 1100]

theorem reader_left_asleep :
    ∃ c, Reaches (pipes 3) (fun _ _ _ => True) (.initial (ready 3 (pipealloc (.const 0)))) c ∧
      c.st.locks lk = none ∧ (c.st.procs 0).state = .sleeping ∧
      (c.st.procs 0).chan = some nreadChan ∧ c.st.data.pipe.unread = PIPESIZE := by
  refine ⟨killedWriter, Config.play_reaches _ _, ?_⟩
  decide +kernel

end Xv6.Process
