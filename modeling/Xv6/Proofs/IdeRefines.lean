import Xv6.Proofs.BufferCache
import Xv6.Proofs.IdeQueue

/-!
# The disk driver refines the one in memory

A request takes effect at the interrupt that completes it. The driver in memory does the same
requests in the order of their completion.
-/

namespace Xv6.Ide

open List Table

open Bcache (Ports ports Addressable addressable_separate)

variable {D : Type} {s : State D} {q : List Nat} {havedisk1 : Bool}

/-! ## Requests in progress -/

structure Served (s : State D) (q : List Nat) : Prop where
  queue : Queue s.drv q
  order : s.completed ++ q = s.queued
  unserved : ∀ b ∈ q, (s.drv.buf b).busy = true ∧ (s.drv.buf b).synced = false
  active : ∀ b ∈ q, b ∈ s.active
  command : s.drv.command = q.head?.map fun b => (s.drv.buf b).request
  idle : q = [] → s.drv.done = none
  entered : ∀ p b, s.phase p = .entered b →
    b ≠ 0 ∧ b ∉ q ∧ (s.drv.buf b).busy = true ∧ (s.drv.buf b).synced = false
  waiting : ∀ p b k, s.phase p = .waiting b k → s.queued[k]? = some b ∧
    (k < s.completed.length ∧ b ∉ q ∧ (s.drv.buf b).synced = true ∨ s.completed.length ≤ k)
  phases : ∀ p b, (s.phase p).buf = some b → b ∈ s.active
  distinct : ∀ p p' b, (s.phase p).buf = some b → (s.phase p').buf = some b → p = p'

lemma phase_setPhase {p p' : Nat} {ph : Phase} (s : State D) :
    (s.setPhase p ph).phase p' = if p' = p then ph else s.phase p' := by
  by_cases h : p' = p
  · subst h
    simp [State.setPhase]
  · simp [State.setPhase, h]

lemma setPhase_same {p : Nat} {ph : Phase} (s : State D) : (s.setPhase p ph).drv = s.drv ∧
    (s.setPhase p ph).active = s.active ∧ (s.setPhase p ph).queued = s.queued ∧
    (s.setPhase p ph).completed = s.completed := ⟨rfl, rfl, rfl, rfl⟩

namespace Served

lemma mem_queue (h : Served s q) {b k : Nat} (hk : s.queued[k]? = some b) (hle : s.completed.length ≤ k) :
    q[k - s.completed.length]? = some b := by
  rw [← h.order, List.getElem?_append_right hle] at hk
  exact hk

lemma synced_iff (h : Served s q) {p b k : Nat} (hp : s.phase p = .waiting b k) :
    s.queued[k]? = some b ∧ ((s.drv.buf b).synced = true ↔ k < s.completed.length) := by
  obtain ⟨hk, hcases⟩ := h.waiting p b k hp
  refine ⟨hk, ?_⟩
  rcases hcases with ⟨hlt, -, hsynced⟩ | hle
  · exact iff_of_true hsynced hlt
  · have hmem : b ∈ q := List.mem_of_getElem? (h.mem_queue hk hle)
    rw [(h.unserved b hmem).2]
    exact iff_of_false Bool.false_ne_true (Nat.not_lt.mpr hle)

lemma call (h : Served s q) {p b : Nat} (hb : b ≠ 0) (hact : b ∉ s.active)
    (hcheck : check havedisk1 (s.drv.buf b) = none) :
    Served { s.setPhase p (.entered b) with active := b :: s.active } q := by
  have hflags : (s.drv.buf b).busy = true ∧ (s.drv.buf b).synced = false := by
    rw [check] at hcheck
    split at hcheck
    · cases hcheck
    split at hcheck
    · cases hcheck
    rename_i h1 h2
    exact ⟨by simpa using h1, by simpa using h2⟩
  have hphase : ∀ p', (s.setPhase p (.entered b)).phase p' = if p' = p then .entered b else s.phase p' :=
    fun p' => phase_setPhase s
  obtain ⟨hqueue, horder, hunserved, hactive, hcommand, hidle, hentered, hwaiting, hphases, hdistinct⟩ := h
  refine ⟨hqueue, horder, hunserved, fun c hc => mem_cons_of_mem _ (hactive c hc), hcommand, hidle, ?_, ?_, ?_, ?_⟩
  all_goals
    grind [Phase.buf, setPhase_same]

lemma append (h : Served s q) {p b : Nat} (hp : s.phase p = .entered b) :
    ∃ drv, s.drv.append (s.queued.length + 1) b = some drv ∧ drv.buf = s.drv.buf ∧ drv.contents = s.drv.contents ∧
      (q = [] → drv.command = some (s.drv.buf b).request ∧ drv.done = none) ∧
      (q ≠ [] → drv.command = s.drv.command ∧ drv.done = s.drv.done) ∧
      Served { s.setPhase p (.waiting b s.queued.length) with drv, queued := s.queued ++ [b] } (q ++ [b]) := by
  obtain ⟨hb0, hbq, hbusy, hsynced⟩ := h.entered p b hp
  have hlen : q.length < s.queued.length + 1 := by
    rw [← h.order, length_append]
    omega
  obtain ⟨drv, happend, hqueue, hbuf, hcont, hnil, hcons⟩ := h.queue.append hbq hb0 hlen
  refine ⟨drv, happend, hbuf, hcont, hnil, hcons, ?_⟩
  have hbact : b ∈ s.active := h.phases p b (by rw [hp]; rfl)
  have hphase : ∀ p', (s.setPhase p (.waiting b s.queued.length)).phase p' =
      if p' = p then .waiting b s.queued.length else s.phase p' := fun p' => phase_setPhase s
  obtain ⟨-, horder, hunserved, hactive, hcommand, -, hentered, hwaiting, hphases, hdistinct⟩ := h
  refine ⟨hqueue, ?_, ?_, ?_, ?_, ?_, ?_, ?_, ?_, ?_⟩
  · change s.completed ++ (q ++ [b]) = s.queued ++ [b]
    rw [← append_assoc, horder]
  · dsimp only
    grind [setPhase_same]
  · dsimp only
    grind [setPhase_same]
  · change drv.command = (q ++ [b]).head?.map fun c => (drv.buf c).request
    rw [hbuf]
    cases q with
    | nil => exact (hnil rfl).1
    | cons a l => exact (hcons (cons_ne_nil a l)).1.trans hcommand
  · exact fun hc => absurd hc (append_ne_nil_of_right_ne_nil q (cons_ne_nil b []))
  · dsimp only
    grind [Phase.buf]
  · dsimp only
    intro p' c k hc
    grind [Phase.buf, setPhase_same]
  · dsimp only
    grind [Phase.buf, setPhase_same]
  · dsimp only
    grind [Phase.buf]

lemma wake (h : Served s q) {p b k : Nat} (hp : s.phase p = .waiting b k) (hsync : (s.drv.buf b).synced = true) :
    Served { s.setPhase p .out with active := s.active.erase b } q := by
  have hphase : ∀ p', (s.setPhase p .out).phase p' = if p' = p then .out else s.phase p' :=
    fun p' => phase_setPhase s
  obtain ⟨hqueue, horder, hunserved, hactive, hcommand, hidle, hentered, hwaiting, hphases, hdistinct⟩ := h
  refine ⟨hqueue, horder, hunserved, ?_, hcommand, hidle, ?_, ?_, ?_, ?_⟩
  all_goals
    grind [Phase.buf, setPhase_same]

lemma touch (h : Served s q) {b : Nat} {x : Buf D} (hb : b ∉ s.active) :
    Served { s with drv := s.drv.setBuf b x, trace := s.trace ++ [.touch b x] } q := by
  have hbuf : ∀ c, c ∈ s.active → (s.drv.setBuf b x).buf c = s.drv.buf c := by
    intro c hc
    refine get_set_ne _ _ ?_
    rintro rfl
    exact hb hc
  refine ⟨⟨h.queue.head, h.queue.path, h.queue.nodup, h.queue.pos⟩, h.order, ?_, h.active, ?_, h.idle, ?_, ?_,
    h.phases, h.distinct⟩
  · intro c hc
    change ((s.drv.setBuf b x).buf c).busy = true ∧ ((s.drv.setBuf b x).buf c).synced = false
    rw [hbuf c (h.active c hc)]
    exact h.unserved c hc
  · refine h.command.trans (Option.map_congr fun c hc => ?_)
    rw [hbuf c (h.active c (List.mem_of_mem_head? hc))]
  · intro p c hc
    change c ≠ 0 ∧ c ∉ q ∧ ((s.drv.setBuf b x).buf c).busy = true ∧ ((s.drv.setBuf b x).buf c).synced = false
    rw [hbuf c (h.phases p c (congrArg Phase.buf hc))]
    exact h.entered p c hc
  · intro p c k hc
    change s.queued[k]? = some c ∧
      (k < s.completed.length ∧ c ∉ q ∧ ((s.drv.setBuf b x).buf c).synced = true ∨ s.completed.length ≤ k)
    rw [hbuf c (h.phases p c (congrArg Phase.buf hc))]
    exact h.waiting p c k hc

lemma ideintr (h : Served s q) (hdone : s.drv.done.isSome = true) :
    ∃ b l, q = b :: l ∧ s.drv.idequeue = b ∧
      Served { s with
        drv := s.drv.ideintr
        completed := s.completed ++ [b]
        trace := s.trace ++ [.iderw b] } l := by
  cases q with
  | nil =>
    rw [h.idle rfl] at hdone
    cases hdone
  | cons b l =>
    obtain ⟨hqueue, hbuf, -, hnone, hcommand⟩ := h.queue.ideintr
    have hnodup := nodup_cons.mp h.queue.nodup
    have hother : ∀ c, c ≠ b → s.drv.ideintr.buf c = s.drv.buf c := by
      intro c hc
      rw [hbuf]
      exact get_set_ne _ _ hc
    have hmem : ∀ c ∈ l, c ≠ b := by
      rintro c hc rfl
      exact hnodup.1 hc
    refine ⟨b, l, rfl, h.queue.head, hqueue, ?_, ?_, fun c hc => h.active c (mem_cons_of_mem _ hc), ?_,
      fun _ => hnone, ?_, ?_, h.phases, h.distinct⟩
    · change s.completed ++ [b] ++ l = s.queued
      rw [append_assoc]
      exact h.order
    · intro c hc
      change (s.drv.ideintr.buf c).busy = true ∧ (s.drv.ideintr.buf c).synced = false
      rw [hother c (hmem c hc)]
      exact h.unserved c (mem_cons_of_mem _ hc)
    · refine hcommand.trans (Option.map_congr fun c hc => ?_)
      rw [hother c (hmem c (List.mem_of_mem_head? hc))]
    · intro p c hc
      obtain ⟨hc0, hcq, hflags⟩ := h.entered p c hc
      change c ≠ 0 ∧ c ∉ l ∧ (s.drv.ideintr.buf c).busy = true ∧ (s.drv.ideintr.buf c).synced = false
      rw [hother c (ne_of_not_mem_cons hcq)]
      exact ⟨hc0, not_mem_of_not_mem_cons hcq, hflags⟩
    · intro p c k hc
      obtain ⟨hk, hcases⟩ := h.waiting p c k hc
      refine ⟨hk, ?_⟩
      change k < (s.completed ++ [b]).length ∧ c ∉ l ∧ (s.drv.ideintr.buf c).synced = true ∨
        (s.completed ++ [b]).length ≤ k
      rw [length_append, length_singleton]
      rcases hcases with ⟨hlt, hcq, hsync⟩ | hle
      · rw [hother c (ne_of_not_mem_cons hcq)]
        exact .inl ⟨by omega, not_mem_of_not_mem_cons hcq, hsync⟩
      by_cases hkeq : k = s.completed.length
      · -- the request that is completed is this one
        have hcb : b = c := by
          have hget := h.mem_queue hk hle
          rw [hkeq, Nat.sub_self] at hget
          exact Option.some.inj hget
        refine .inl ⟨by omega, hcb ▸ hnodup.1, ?_⟩
        rw [hbuf, ← hcb, get_set_self]
        rfl
      · exact .inr (by omega)

lemma perform (h : Served s q) (ok : Bool) : Served { s with drv := s.drv.perform ok } q := by
  have hsame : (s.drv.perform ok).buf = s.drv.buf ∧ (s.drv.perform ok).idequeue = s.drv.idequeue ∧
      (s.drv.perform ok).qnext = s.drv.qnext ∧ (s.drv.perform ok).command = s.drv.command := by
    rw [Driver.perform]
    split <;> exact ⟨rfl, rfl, rfl, rfl⟩
  obtain ⟨hbuf, hhead, hnext, hcommand⟩ := hsame
  have hidle : q = [] → (s.drv.perform ok).done = none := by
    intro hq
    have hcom := h.command
    rw [hq] at hcom
    change s.drv.command = none at hcom
    rw [Driver.perform, hcom]
    exact h.idle hq
  refine ⟨⟨?_, ?_, h.queue.nodup, h.queue.pos⟩, h.order, ?_, h.active, ?_, hidle, ?_, ?_, h.phases, h.distinct⟩
  · exact hhead.trans h.queue.head
  · change ∀ b l, q = b :: l → Chain.Path (s.drv.perform ok).qnext b l 0
    rw [hnext]
    exact h.queue.path
  · change ∀ b ∈ q, ((s.drv.perform ok).buf b).busy = true ∧ ((s.drv.perform ok).buf b).synced = false
    rw [hbuf]
    exact h.unserved
  · change (s.drv.perform ok).command = q.head?.map fun b => ((s.drv.perform ok).buf b).request
    rw [hbuf, hcommand]
    exact h.command
  · change ∀ p b, s.phase p = .entered b →
      b ≠ 0 ∧ b ∉ q ∧ ((s.drv.perform ok).buf b).busy = true ∧ ((s.drv.perform ok).buf b).synced = false
    rw [hbuf]
    exact h.entered
  · change ∀ p b k, s.phase p = .waiting b k → s.queued[k]? = some b ∧
      (k < s.completed.length ∧ b ∉ q ∧ ((s.drv.perform ok).buf b).synced = true ∨ s.completed.length ≤ k)
    rw [hbuf]
    exact h.waiting

end Served

/-! ## The driver in memory -/

lemma Mem.replay_concat (imgSize : UInt32) (ops : List (Op D)) (op : Op D) (m : Mem D) :
    m.replay imgSize (ops ++ [op]) = (m.replay imgSize ops).bind (·.replay imgSize [op]) := by
  induction ops generalizing m with
  | nil => rfl
  | cons o ops ih =>
    cases o with
    | touch b x => exact ih _
    | iderw b =>
      change (m.iderw imgSize b).bind _ = ((m.iderw imgSize b).bind _).bind _
      cases m.iderw imgSize b with
      | error e => rfl
      | ok m' => exact ih m'

lemma Mem.replay_iderw (imgSize : UInt32) (b : Nat) (m : Mem D) : m.replay imgSize [.iderw b] = m.iderw imgSize b :=
  bind_pure _

/-- On a buffer that passes the checks of both drivers, only the disk of the request can be wrong. -/
lemma Mem.iderw_error {imgSize : UInt32} {b : Nat} {m : Mem D} {e : Panic} (hbusy : (m.buf b).busy = true)
    (hsync : (m.buf b).synced = false) (h : m.iderw imgSize b = .error e) : e = .notDisk1 ∨ e = .outOfRange := by
  rw [Mem.iderw] at h
  simp only [hbusy, hsync, Bool.not_true, Bool.false_eq_true, ↓reduceIte] at h
  split at h
  · exact .inl (Except.error.inj h).symm
  split at h
  · exact .inr (Except.error.inj h).symm
  split at h <;> cases h

lemma Mem.iderw_ok {imgSize : UInt32} {b : Nat} {m m' : Mem D} (h : m.iderw imgSize b = .ok m') :
    (m.buf b).dev = 1 ∧ (m.buf b).sector < disksize imgSize ∧
      m' = if (m.buf b).dirty then
          ⟨m.buf.set b { m.buf b with dirty := false, valid := true },
            Function.update m.disk (m.buf b).sector (m.buf b).data⟩
        else ⟨m.buf.set b { m.buf b with data := m.disk (m.buf b).sector, valid := true }, m.disk⟩ := by
  rw [Mem.iderw] at h
  split at h
  · cases h
  split at h
  · cases h
  split at h
  · cases h
  rename_i hdev
  split at h
  · cases h
  rename_i hsector
  refine ⟨Decidable.not_not.mp hdev, UInt32.not_le.mp hsector, ?_⟩
  split at h <;> cases h <;> rename_i hdirty
  · rw [if_pos hdirty]
  · rw [if_neg hdirty]

lemma disksize_addressable {imgSize n : UInt32} (h : n < disksize imgSize) : Addressable 1 n := by
  have hn : n.toNat < imgSize.toNat / 512 := by
    have := UInt32.lt_iff_toNat_lt.mp h
    rwa [disksize, UInt32.toNat_div] at this
  have hlt := imgSize.toNat_lt
  refine ⟨by decide, UInt32.lt_iff_toNat_lt.mpr ?_⟩
  change n.toNat < 268435456
  omega

lemma ports_eq_iff {imgSize n n' : UInt32} (h : n < disksize imgSize) (h' : n' < disksize imgSize) :
    ports 1 n = ports 1 n' ↔ n = n' := by
  refine ⟨fun heq => ?_, fun heq => heq ▸ rfl⟩
  exact (addressable_separate.ports 1 n 1 n' (disksize_addressable h) (disksize_addressable h') heq).2

/-- What the disk has at the address `a` if it had `d` before the active command: a write that was performed has had
its effect before the interrupt. -/
def Driver.onDisk (s : Driver D) (a : Ports) (d : D) : D :=
  match s.done, s.command with
  | some true, some ⟨place, some d'⟩ => if a = place then d' else d
  | _, _ => d

def Op.request : Op D → Option Nat
  | .touch _ _ => none
  | .iderw b => some b

/-- The driver in memory, which did the same operations from `m₀`, has the same buffers and disk. -/
structure Agrees (imgSize : UInt32) (m₀ : Mem D) (s : State D) : Prop where
  clean : s.drv.done ≠ some false
  requests : s.trace.filterMap Op.request = s.completed
  panics : ∀ e, m₀.replay imgSize s.trace = .error e → e = .notDisk1 ∨ e = .outOfRange
  mem : ∀ m, m₀.replay imgSize s.trace = .ok m → (∀ b, s.drv.buf b = m.buf b) ∧
    ∀ n, n < disksize imgSize → s.drv.contents (ports 1 n) = s.drv.onDisk (ports 1 n) (m.disk n)

namespace Agrees

variable {imgSize : UInt32} {m₀ : Mem D}

lemma perform (h : Agrees imgSize m₀ s) : Agrees imgSize m₀ { s with drv := s.drv.perform true } := by
  by_cases hc : ∃ c, s.drv.command = some c ∧ s.drv.done = none
  · obtain ⟨⟨place, write⟩, hcommand, hdone⟩ := hc
    have hperf : (s.drv.perform true).buf = s.drv.buf ∧ (s.drv.perform true).done = some true ∧
        (s.drv.perform true).command = some ⟨place, write⟩ ∧
        (s.drv.perform true).contents = write.elim s.drv.contents (Function.update s.drv.contents place) := by
      rw [Driver.perform, hcommand, hdone]
      cases write <;> exact ⟨rfl, rfl, rfl, rfl⟩
    obtain ⟨hbuf, htrue, hcommand', hcont⟩ := hperf
    refine ⟨by rw [htrue]; exact nofun, h.requests, h.panics, fun m hm => ?_⟩
    obtain ⟨hsame, hdisk⟩ := h.mem m hm
    refine ⟨by rw [hbuf]; exact hsame, fun n hn => ?_⟩
    have hold := hdisk n hn
    rw [Driver.onDisk, hdone] at hold
    change (s.drv.perform true).contents (ports 1 n) = (s.drv.perform true).onDisk (ports 1 n) (m.disk n)
    rw [hcont, Driver.onDisk, htrue, hcommand']
    cases write with
    | none => exact hold
    | some d =>
      change Function.update s.drv.contents place d (ports 1 n) = if ports 1 n = place then d else m.disk n
      by_cases hp : ports 1 n = place
      · rw [if_pos hp, hp, Function.update_self]
      · rw [if_neg hp, Function.update_of_ne hp]
        exact hold
  · have hperf : s.drv.perform true = s.drv := by
      rw [Driver.perform]
      split
      · rename_i c hcommand hdone
        exact absurd ⟨c, hcommand, hdone⟩ hc
      · rfl
    rw [hperf]
    exact h

/-- The driver in memory takes one more step. -/
lemma concat {s' : State D} {op : Op D} (h : Agrees imgSize m₀ s) (htrace : s'.trace = s.trace ++ [op])
    (hclean : s'.drv.done ≠ some false) (hreq : s.completed ++ [op].filterMap Op.request = s'.completed)
    (herr : ∀ m e, m₀.replay imgSize s.trace = .ok m → m.replay imgSize [op] = .error e →
      e = .notDisk1 ∨ e = .outOfRange)
    (hmem : ∀ m m', m₀.replay imgSize s.trace = .ok m → m.replay imgSize [op] = .ok m' →
      (∀ b, s'.drv.buf b = m'.buf b) ∧
        ∀ n, n < disksize imgSize → s'.drv.contents (ports 1 n) = s'.drv.onDisk (ports 1 n) (m'.disk n)) :
    Agrees imgSize m₀ s' := by
  have hrun : m₀.replay imgSize s'.trace = (m₀.replay imgSize s.trace).bind (·.replay imgSize [op]) := by
    rw [htrace, Mem.replay_concat]
  refine ⟨hclean, by rw [htrace, filterMap_append, h.requests, hreq], fun e he => ?_, fun m' hm' => ?_⟩
  · cases hm : m₀.replay imgSize s.trace with
    | error e' =>
      rw [hrun, hm] at he
      exact Except.error.inj he ▸ h.panics e' hm
    | ok m =>
      rw [hrun, hm] at he
      exact herr m e hm he
  · cases hm : m₀.replay imgSize s.trace with
    | error e =>
      rw [hrun, hm] at hm'
      cases hm'
    | ok m =>
      rw [hrun, hm] at hm'
      exact hmem m m' hm hm'

lemma ideintr {b : Nat} (h : Agrees imgSize m₀ s) (hs : Served s (b :: q)) (hdone : s.drv.done.isSome = true) :
    Agrees imgSize m₀ { s with
      drv := s.drv.ideintr
      completed := s.completed ++ [b]
      trace := s.trace ++ [.iderw b] } := by
  obtain ⟨-, hbuf, hcont, hnone, -⟩ := hs.queue.ideintr
  have htrue : s.drv.done = some true := by
    obtain ⟨ok, hok⟩ := Option.isSome_iff_exists.mp hdone
    cases ok with
    | true => exact hok
    | false => exact absurd hok h.clean
  have hcommand : s.drv.command = some (s.drv.buf b).request := hs.command
  refine h.concat rfl (by rw [hnone]; exact nofun) rfl (fun m e hm he => ?_) fun m m' hm hm' => ?_
  · obtain ⟨hbusy, hsync⟩ := hs.unserved b mem_cons_self
    rw [(h.mem m hm).1 b] at hbusy hsync
    exact Mem.iderw_error hbusy hsync (Mem.replay_iderw imgSize b m ▸ he)
  · obtain ⟨hsame, hdisk⟩ := h.mem m hm
    obtain ⟨hdev, hsector, rfl⟩ := Mem.iderw_ok (Mem.replay_iderw imgSize b m ▸ hm')
    rw [← hsame b] at hdev hsector
    have hplace : (s.drv.buf b).request.place = ports 1 (s.drv.buf b).sector := by
      rw [← hdev]
      rfl
    rw [← hsame b]
    have hafter : ∀ a d, s.drv.ideintr.onDisk a d = d := by
      intro a d
      rw [Driver.onDisk, hnone]
    cases hdirty : (s.drv.buf b).dirty with
    | true =>
      rw [if_pos rfl]
      refine ⟨fun c => ?_, fun n hn => ?_⟩
      · change s.drv.ideintr.buf c = m.buf.set b _ c
        rw [hbuf, get_set, get_set]
        split
        · simp [Driver.finished, hdirty]
        · exact hsame c
      change s.drv.ideintr.contents (ports 1 n) =
        s.drv.ideintr.onDisk (ports 1 n) (Function.update m.disk (s.drv.buf b).sector (s.drv.buf b).data n)
      rw [hafter, hcont, hdisk n hn, Driver.onDisk, htrue, hcommand]
      simp only [Buf.request, hdirty, hdev]
      by_cases hp : n = (s.drv.buf b).sector
      · rw [hp, Function.update_self]
        exact if_pos rfl
      · rw [Function.update_of_ne hp]
        exact if_neg fun hc => hp ((ports_eq_iff hn hsector).mp hc)
    | false =>
      rw [if_neg Bool.false_ne_true]
      have hread : ∀ n, n < disksize imgSize → s.drv.contents (ports 1 n) = m.disk n := by
        intro n hn
        rw [hdisk n hn, Driver.onDisk, htrue, hcommand]
        simp only [Buf.request, hdirty]
        rfl
      refine ⟨fun c => ?_, fun n hn => ?_⟩
      · change s.drv.ideintr.buf c = m.buf.set b _ c
        rw [hbuf, get_set, get_set]
        split
        · have hinsl : s.drv.insl (s.drv.buf b).data = m.disk (s.drv.buf b).sector := by
            rw [Driver.insl, hcommand]
            exact (congrArg s.drv.contents hplace).trans (hread _ hsector)
          simp [Driver.finished, hdirty, htrue, hinsl]
        · exact hsame c
      · change s.drv.ideintr.contents (ports 1 n) = s.drv.ideintr.onDisk (ports 1 n) (m.disk n)
        rw [hafter, hcont]
        exact hread n hn

lemma append {p b : Nat} {drv : Driver D} (h : Agrees imgSize m₀ s) (hs : Served s q) (hbuf : drv.buf = s.drv.buf)
    (hcont : drv.contents = s.drv.contents)
    (hnil : q = [] → drv.command = some (s.drv.buf b).request ∧ drv.done = none)
    (hcons : q ≠ [] → drv.command = s.drv.command ∧ drv.done = s.drv.done) :
    Agrees imgSize m₀ { s.setPhase p (.waiting b s.queued.length) with drv, queued := s.queued ++ [b] } := by
  have hdone : drv.done = s.drv.done := by
    by_cases hq : q = []
    · rw [(hnil hq).2, hs.idle hq]
    · exact (hcons hq).2
  have hon : ∀ a d, drv.onDisk a d = s.drv.onDisk a d := by
    intro a d
    by_cases hq : q = []
    · rw [Driver.onDisk, Driver.onDisk, hdone, hs.idle hq]
    · rw [Driver.onDisk, Driver.onDisk, hdone, (hcons hq).1]
  refine ⟨fun hc => h.clean (hdone ▸ hc), h.requests, h.panics, fun m hm => ?_⟩
  obtain ⟨hsame, hdisk⟩ := h.mem m hm
  refine ⟨fun c => (congrArg (fun t : Table (Buf D) => t c) hbuf).trans (hsame c), fun n hn => ?_⟩
  change drv.contents (ports 1 n) = drv.onDisk (ports 1 n) (m.disk n)
  rw [hcont, hon]
  exact hdisk n hn

lemma touch (h : Agrees imgSize m₀ s) (b : Nat) (x : Buf D) :
    Agrees imgSize m₀ { s with drv := s.drv.setBuf b x, trace := s.trace ++ [.touch b x] } := by
  refine h.concat rfl h.clean (append_nil _) (fun _ _ _ he => by cases he) fun m m' hm hm' => ?_
  cases hm'
  obtain ⟨hsame, hdisk⟩ := h.mem m hm
  refine ⟨fun c => ?_, hdisk⟩
  change s.drv.buf.set b x c = m.buf.set b x c
  rw [get_set, get_set, hsame c]

end Agrees

/-! ## Runs -/

lemma boot_served (buf : Table (Buf D)) (contents : Ports → D) : Served (boot buf contents) [] where
  queue := ⟨rfl, nofun, nodup_nil, not_mem_nil⟩
  order := rfl
  unserved := nofun
  active := nofun
  command := rfl
  idle := fun _ => rfl
  entered := nofun
  waiting := nofun
  phases := nofun
  distinct := nofun

lemma boot_agrees (imgSize : UInt32) (buf : Table (Buf D)) (contents : Ports → D) :
    Agrees imgSize ⟨buf, fun n => contents (ports 1 n)⟩ (boot buf contents) := by
  refine ⟨nofun, rfl, nofun, ?_⟩
  rintro m ⟨⟩
  exact ⟨fun _ => rfl, fun _ _ => rfl⟩

lemma step_agrees {imgSize : UInt32} {m₀ : Mem D} {e : Event D} (hs : Served s q) (h : Agrees imgSize m₀ s)
    (he : e ≠ .perform false) :
    ∃ s' q', s.step havedisk1 e = some s' ∧ Served s' q' ∧ Agrees imgSize m₀ s' := by
  cases e with
  | call p b =>
    simp only [State.step]
    split
    · split
      · exact ⟨s, q, rfl, hs, h⟩
      rename_i hb
      obtain ⟨hb0, hact⟩ := not_or.mp hb
      split
      · exact ⟨_, q, rfl, ⟨hs.queue, hs.order, hs.unserved, hs.active, hs.command, hs.idle, hs.entered, hs.waiting,
          hs.phases, hs.distinct⟩, ⟨h.clean, h.requests, h.panics, h.mem⟩⟩
      · rename_i hcheck
        exact ⟨_, q, rfl, hs.call hb0 hact hcheck, ⟨h.clean, h.requests, h.panics, h.mem⟩⟩
    · exact ⟨s, q, rfl, hs, h⟩
  | append p =>
    simp only [State.step]
    split
    · rename_i b hp
      obtain ⟨drv, happend, hbuf, hcont, hnil, hcons, hserved⟩ := hs.append hp
      rw [happend]
      exact ⟨_, q ++ [b], rfl, hserved, h.append hs hbuf hcont hnil hcons⟩
    · exact ⟨s, q, rfl, hs, h⟩
  | wake p =>
    simp only [State.step]
    split
    · rename_i b k hp
      split
      · rename_i hsync
        exact ⟨_, q, rfl, hs.wake hp hsync, ⟨h.clean, h.requests, h.panics, h.mem⟩⟩
      · exact ⟨s, q, rfl, hs, h⟩
    · exact ⟨s, q, rfl, hs, h⟩
  | perform ok =>
    cases ok with
    | true => exact ⟨_, q, rfl, hs.perform true, h.perform⟩
    | false => exact absurd rfl he
  | ideintr =>
    simp only [State.step]
    split
    · rename_i hdone
      obtain ⟨b, l, rfl, hhead, hserved⟩ := hs.ideintr hdone
      rw [hhead]
      exact ⟨_, l, rfl, hserved, h.ideintr hs hdone⟩
    · exact ⟨s, q, rfl, hs, h⟩
  | touch b x =>
    simp only [State.step]
    split
    · exact ⟨s, q, rfl, hs, h⟩
    · rename_i hb
      exact ⟨_, q, rfl, hs.touch hb, h.touch b x⟩

lemma run_agrees (havedisk1 : Bool) {imgSize : UInt32} {m₀ : Mem D} (evs : List (Event D)) (hs : Served s q)
    (h : Agrees imgSize m₀ s) (hok : .perform false ∉ evs) :
    ∃ s' q', s.run havedisk1 evs = some s' ∧ Served s' q' ∧ Agrees imgSize m₀ s' := by
  induction evs generalizing s q with
  | nil => exact ⟨s, q, rfl, hs, h⟩
  | cons e evs ih =>
    obtain ⟨hne, hrest⟩ := not_or.mp (mem_cons.not.mp hok)
    rw [State.run, State.next]
    split
    · exact ih hs h hrest
    · obtain ⟨s', q', hstep, hs', h'⟩ := step_agrees (e := e) hs h (Ne.symm hne)
      rw [hstep]
      exact ih hs' h' hrest

/-- Every run without an error of the disk. A waiting process finds its buffer done exactly if its own
request was completed, and the driver in memory, doing the completed requests in their order, has the
same buffers, and the same disk but for the write that waits for its interrupt. -/
theorem ide_refines_memide (havedisk1 : Bool) (imgSize : UInt32) (buf : Table (Buf D)) (contents : Ports → D)
    (evs : List (Event D)) (hok : .perform false ∉ evs) :
    ∃ s q, (boot buf contents).run havedisk1 evs = some s ∧ Queue s.drv q ∧
      s.drv.command = (q.head?.map fun b => (s.drv.buf b).request) ∧
      s.completed ++ q = s.queued ∧ s.trace.filterMap Op.request = s.completed ∧
      (∀ p b k, s.phase p = .waiting b k →
        s.queued[k]? = some b ∧ ((s.drv.buf b).synced = true ↔ k < s.completed.length)) ∧
      match Mem.replay imgSize s.trace ⟨buf, fun n => contents (ports 1 n)⟩ with
      | .ok m => (∀ b, s.drv.buf b = m.buf b) ∧
        ∀ n, n < disksize imgSize → s.drv.contents (ports 1 n) = s.drv.onDisk (ports 1 n) (m.disk n)
      | .error e => e = .notDisk1 ∨ e = .outOfRange := by
  obtain ⟨s, q, hrun, hs, h⟩ :=
    run_agrees havedisk1 evs (boot_served buf contents) (boot_agrees imgSize buf contents) hok
  refine ⟨s, q, hrun, hs.queue, hs.command, hs.order, h.requests, fun p b k hp => hs.synced_iff hp, ?_⟩
  split
  · rename_i m hm
    exact h.mem m hm
  · rename_i e he
    exact h.panics e he

def writeThenRead : List (Event Nat) :=
  [.touch 1 ⟨true, false, true, 1, 3, 7⟩, .touch 2 ⟨true, false, false, 1, 3, 0⟩, .call 0 1, .call 1 2, .append 0,
    .append 1, .perform true, .ideintr, .perform true, .wake 0, .ideintr, .wake 1]

theorem memide_writeThenRead : .perform false ∉ writeThenRead ∧
    ∃ s, (boot (.const ⟨false, false, false, 0, 0, 0⟩) fun _ => 0).run true writeThenRead = some s ∧
      s.completed = [1, 2] ∧ (s.drv.buf 2).data = 7 ∧ s.drv.contents (ports 1 3) = 7 := by
  have hok : .perform false ∉ writeThenRead := by simp [writeThenRead]
  refine ⟨hok, ?_⟩
  obtain ⟨s, q, hrun, -⟩ :=
    ide_refines_memide true 8192 (.const ⟨false, false, false, 0, 0, 0⟩) (fun _ => 0) writeThenRead hok
  refine ⟨s, hrun, ?_⟩
  cases hrun
  exact ⟨rfl, rfl, rfl⟩

end Xv6.Ide
