import Xv6.Lib.Counters
import Xv6.Console

/-!
# The line discipline of the console

The ring holds the committed characters that were not read, and behind them the line that is being
typed.
-/

namespace Xv6.Console

open Counters List Function

/-- A character is added to the current line, with `room` free places in the buffer: the characters that are
committed then, and the line that is left. -/
def addChar (line : List UInt8) (c : UInt8) (room : Nat) : List UInt8 × List UInt8 :=
  let c := if c = carriageReturn then newline else c
  if c = newline ∨ c = C 'D' ∨ room = 1 then (line ++ [c], []) else ([], line ++ [c])

def edit (line : List UInt8) (c : UInt8) (room : Nat) : List UInt8 × List UInt8 :=
  if c = 0 ∨ c = C 'P' then ([], line)
  else if c = C 'U' then ([], [])
  else if c = C 'H' ∨ c = delete then ([], line.dropLast)
  else if room = 0 then ([], line)
  else addChar line c room

/-- The typed text: what is committed, and the current line. -/
structure Text where
  committed : List UInt8
  line : List UInt8

def Text.key (t : Text) (k : UInt8 × Nat) : Text :=
  ⟨t.committed ++ (edit t.line k.1 k.2).1, (edit t.line k.1 k.2).2⟩

def text (typed : List (UInt8 × Nat)) : Text := typed.foldl Text.key ⟨[], []⟩

lemma text_snoc (typed : List (UInt8 × Nat)) (k : UInt8 × Nat) : text (typed ++ [k]) = (text typed).key k := by
  rw [text, foldl_append]
  rfl

lemma committed_mono (typed more : List (UInt8 × Nat)) :
    (text typed).committed <+: (text (typed ++ more)).committed := by
  induction more generalizing typed with
  | nil => simp
  | cons k more ih =>
    have hkey : (text typed).committed <+: (text (typed ++ [k])).committed := by
      rw [text_snoc]
      exact prefix_append _ _
    have hrest := ih (typed ++ [k])
    rw [append_assoc, singleton_append] at hrest
    exact hkey.trans hrest

/-- The ring holds `unread` and then `line`. -/
structure Holds (x : Input) (unread line : List UInt8) : Prop where
  ring : span x.buf INPUT_BUF x.r (dist x.r x.e) = unread ++ line
  split : dist x.r x.w = unread.length
  full : dist x.r x.e ≤ INPUT_BUF
  plain : newline ∉ line

lemma buf_dvd : INPUT_BUF ∣ 2 ^ 32 := ⟨2 ^ 25, rfl⟩

namespace Holds

variable {x : Input} {unread line : List UInt8}

lemma length (h : Holds x unread line) : dist x.r x.e = unread.length + line.length := by
  rw [← length_append, ← h.ring, length_span]

lemma le (h : Holds x unread line) : dist x.r x.w ≤ dist x.r x.e := by
  rw [h.split, h.length]
  omega

lemma line_length (h : Holds x unread line) : dist x.w x.e = line.length := by
  have hsum := dist_add h.le
  have hlen := h.length
  have hsplit := h.split
  omega

lemma unread_eq (h : Holds x unread line) : span x.buf INPUT_BUF x.r (dist x.r x.w) = unread := by
  rw [← take_span h.le, h.ring, h.split, take_left']
  rfl

lemma line_eq (h : Holds x unread line) : span x.buf INPUT_BUF x.w (dist x.w x.e) = line := by
  have hdist : dist x.w x.e = dist x.r x.e - dist x.r x.w := by
    have := dist_add h.le
    omega
  rw [hdist, ← drop_span buf_dvd, h.ring, h.split, drop_left']
  rfl

lemma erase (h : Holds x unread line) (hne : line ≠ []) :
    Holds { x with e := x.e - 1 } unread line.dropLast := by
  have hpos : 0 < line.length := length_pos_iff.mpr hne
  have hlen := h.length
  have hpred : dist x.r (x.e - 1) + 1 = dist x.r x.e := dist_pred (by omega)
  refine ⟨?_, h.split, ?_, fun hm => h.plain (dropLast_subset _ hm)⟩
  · change span x.buf INPUT_BUF x.r (dist x.r (x.e - 1)) = unread ++ line.dropLast
    have hle : dist x.r (x.e - 1) ≤ dist x.r x.e := by omega
    rw [← take_span hle, h.ring, ← dropLast_append_of_ne_nil hne,
      dropLast_eq_take, length_append]
    congr 1
    omega
  · change dist x.r (x.e - 1) ≤ INPUT_BUF
    have := h.full
    omega

lemma e_ne_w (h : Holds x unread line) : x.e ≠ x.w ↔ line ≠ [] := by
  rw [← not_iff_not, not_not, not_not, eq_comm, ← dist_eq_zero, h.line_length, length_eq_zero_iff]

lemma last_mem (h : Holds x unread line) (hne : line ≠ []) :
    x.buf ((x.e - 1).toNat % INPUT_BUF) ∈ line := by
  have hpos : 0 < line.length := length_pos_iff.mpr hne
  have hpred : dist x.w (x.e - 1) + 1 = dist x.w x.e := dist_pred (by rw [h.line_length]; exact hpos)
  have hline := h.line_eq
  rw [← hpred, span_succ, ← place_eq buf_dvd] at hline
  rw [← hline]
  exact mem_append_right _ (mem_singleton_self _)

/-- `C('U')` erases the line: it holds no newline that would stop the loop. -/
lemma killLine {k : Nat} (h : Holds x unread line) (hk : k = line.length) :
    Holds (x.killLine k) unread [] := by
  induction k generalizing x line with
  | zero =>
    have hnil : line = [] := length_eq_zero_iff.mp hk.symm
    exact hnil ▸ h
  | succ k ih =>
    have hne : line ≠ [] := by
      rintro rfl
      cases hk
    have hlast : x.buf ((x.e - 1).toNat % INPUT_BUF) ≠ newline := fun hc => h.plain (hc ▸ h.last_mem hne)
    rw [Input.killLine, if_pos ⟨h.e_ne_w.mpr hne, hlast⟩]
    apply ih (h.erase hne)
    rw [length_dropLast]
    omega

lemma put_ring (h : Holds x unread line) (hroom : dist x.r x.e < INPUT_BUF) (c : UInt8) :
    span (x.put c).buf INPUT_BUF x.r (dist x.r (x.e + 1)) = unread ++ (line ++ [c]) := by
  have hplace : x.e.toNat % INPUT_BUF = (x.r.toNat + dist x.r x.e) % INPUT_BUF := place_eq buf_dvd
  have hlt : dist x.r x.e + 1 < 2 ^ 32 := by
    have hsize : INPUT_BUF = 128 := rfl
    omega
  have hsame : ∀ i, i ≠ (x.r.toNat + dist x.r x.e) % INPUT_BUF → (x.put c).buf i = x.buf i := by
    intro i hi
    rw [← hplace] at hi
    exact Table.get_set_ne _ _ hi
  rw [dist_succ hlt, span_put hroom hsame, h.ring, append_assoc]
  simp [Input.put, hplace]

lemma e_eq_iff (hroom : dist x.r x.e < INPUT_BUF) :
    x.e + 1 = x.r + UInt32.ofNat INPUT_BUF ↔ INPUT_BUF - dist x.r x.e = 1 := by
  have hr := x.r.toNat_lt
  have hone : (1 : UInt32).toNat = 1 := rfl
  have hsize : (UInt32.ofNat INPUT_BUF).toNat = 128 := by decide
  simp only [dist_eq, INPUT_BUF] at hroom ⊢
  rw [← UInt32.toNat_inj, UInt32.toNat_add, UInt32.toNat_add, hone]
  change _ = (x.r.toNat + (UInt32.ofNat INPUT_BUF).toNat) % _ ↔ _
  rw [hsize]
  omega

lemma type (h : Holds x unread line) (hroom : dist x.r x.e < INPUT_BUF) (c : UInt8) :
    let t := addChar line c (INPUT_BUF - dist x.r x.e)
    Holds (x.type c) (unread ++ t.1) t.2 := by
  simp only [addChar, Input.type]
  generalize (if c = carriageReturn then newline else c) = c'
  have hring := h.put_ring hroom c'
  have hlen : dist x.r (x.e + 1) = unread.length + (line.length + 1) := by
    have hspan := congrArg List.length hring
    rw [length_span, length_append, length_append] at hspan
    exact hspan
  have hfull : dist x.r (x.e + 1) ≤ INPUT_BUF := by
    rw [hlen]
    have := h.length
    omega
  have hcommits : (c' = newline ∨ c' = C 'D' ∨ (x.put c').e = (x.put c').r + UInt32.ofNat INPUT_BUF) ↔
      (c' = newline ∨ c' = C 'D' ∨ INPUT_BUF - dist x.r x.e = 1) :=
    or_congr_right (or_congr_right (e_eq_iff hroom))
  by_cases hc : c' = newline ∨ c' = C 'D' ∨ INPUT_BUF - dist x.r x.e = 1
  · rw [if_pos (hcommits.mpr hc), if_pos hc]
    refine ⟨?_, ?_, hfull, not_mem_nil⟩
    · rw [append_nil]
      exact hring
    · change dist x.r (x.e + 1) = _
      rw [hlen, length_append, length_append]
      rfl
  · rw [if_neg (mt hcommits.mp hc), if_neg hc, append_nil]
    refine ⟨hring, h.split, hfull, ?_⟩
    intro hm
    rcases mem_append.mp hm with hm | hm
    · exact h.plain hm
    · exact hc (.inl (mem_singleton.mp hm).symm)

lemma key (h : Holds x unread line) (c : UInt8) :
    let t := edit line c (INPUT_BUF - (x.e - x.r).toNat)
    Holds (x.key c) (unread ++ t.1) t.2 := by
  intro t
  have hdist : (x.e - x.r).toNat = dist x.r x.e := rfl
  have hroom : x.e - x.r < UInt32.ofNat INPUT_BUF ↔ dist x.r x.e < INPUT_BUF := by
    rw [UInt32.lt_iff_toNat_lt, hdist]
    rfl
  simp only [t, edit, Input.key, hdist, hroom]
  by_cases hP : c = C 'P'
  · rw [if_pos hP, if_pos (.inr hP), append_nil]
    exact h
  by_cases h0 : c = 0
  · subst h0
    rw [if_neg hP, if_neg (by decide), if_neg (by decide), if_neg (fun hc => hc.1 rfl), if_pos (.inl rfl),
      append_nil]
    exact h
  have h0P : ¬(c = 0 ∨ c = C 'P') := fun hc => hc.elim h0 hP
  rw [if_neg hP, if_neg h0P]
  by_cases hU : c = C 'U'
  · rw [if_pos hU, if_pos hU, append_nil]
    exact h.killLine h.line_length
  rw [if_neg hU, if_neg hU]
  by_cases hH : c = C 'H' ∨ c = delete
  · rw [if_pos hH, if_pos hH, append_nil]
    by_cases hne : line = []
    · subst hne
      rw [if_neg (fun hc => h.e_ne_w.mp hc rfl)]
      exact h
    · rw [if_pos (h.e_ne_w.mpr hne)]
      exact h.erase hne
  rw [if_neg hH, if_neg hH]
  by_cases hlt : dist x.r x.e < INPUT_BUF
  · rw [if_pos ⟨h0, hlt⟩, if_neg (by omega)]
    exact h.type hlt c
  · rw [if_neg (fun hc => hlt hc.2), if_pos (by omega), append_nil]
    exact h

lemma take {c : UInt8} (h : Holds x (c :: unread) line) :
    x.buf (x.r.toNat % INPUT_BUF) = c ∧ Holds { x with r := x.r + 1 } unread line := by
  have hlen := h.length
  rw [length_cons] at hlen
  have hsplit := h.split
  rw [length_cons] at hsplit
  have he : dist (x.r + 1) x.e + 1 = dist x.r x.e := dist_behind (by omega)
  have hw : dist (x.r + 1) x.w + 1 = dist x.r x.w := dist_behind (by omega)
  have hring := h.ring
  rw [← he, span_cons buf_dvd, cons_append] at hring
  have hfull := h.full
  refine ⟨head_eq_of_cons_eq hring, tail_eq_of_cons_eq hring, ?_, ?_, h.plain⟩
  · change dist (x.r + 1) x.w = unread.length
    omega
  · change dist (x.r + 1) x.e ≤ INPUT_BUF
    omega

end Holds

namespace Input

lemma killLine_r (k : Nat) (x : Input) : (x.killLine k).r = x.r := by
  induction k generalizing x with
  | zero => rfl
  | succ k ih =>
    rw [killLine]
    split
    · exact ih _
    · rfl

lemma key_r (x : Input) (c : UInt8) : (x.key c).r = x.r := by
  have htype : (x.type c).r = x.r := by
    simp only [type]
    generalize (if c = carriageReturn then newline else c) = c'
    split <;> rfl
  unfold key
  split_ifs
  · rfl
  · exact killLine_r _ x
  · rfl
  · rfl
  · exact htype
  · rfl

end Input

/-- What one pass of the reading loop of a call with `n` of `target` bytes to go does: it moves over `j` characters
of the ring `x`. A `^D` is taken only by a call that returns without any bytes, and ends the pass in any case. -/
structure Pass.Reads (x : Input) (killed : Bool) (target n : Nat) (unread line : List UInt8) (j : Nat) (res : Pass) :
    Prop where
  moved : dist x.r res.input.r = j
  le : j ≤ unread.length
  ring : Holds res.input (unread.drop j) line
  bytes : res.bytes = (unread.take j).filter (· ≠ C 'D')
  marks : (unread.take j).count (C 'D') = if res.outcome = .returns ∧ res.left = target then 1 else 0
  count : res.bytes.length + res.left = n
  waits : res.outcome = .sleeps → 0 < res.left ∧ j = unread.length
  killed : res.outcome = .killed → killed = true
  ends : res.outcome = .returns → res.left = 0 ∨ res.bytes.getLast? = some newline ∨
    unread[if res.left = target then j - 1 else j]? = some (C 'D')

lemma dist_next (r : UInt32) : dist r (r + 1) = 1 := by
  rw [dist_succ (by rw [dist_self]; decide), dist_self]

/-- One character is copied, and the pass goes on. -/
lemma Pass.Reads.cons {x : Input} {killed : Bool} {target n j : Nat} {c : UInt8} {unread line : List UInt8} {res : Pass}
    (hc : c ≠ C 'D') (hlt : n < target) (hroom : unread.length < INPUT_BUF)
    (h : res.Reads { x with r := x.r + 1 } killed target n unread line j) :
    ({ res with bytes := c :: res.bytes } : Pass).Reads x killed target (n + 1) (c :: unread) line (j + 1) := by
  have hcount := h.count
  have hleft : res.left ≠ target := by omega
  refine ⟨?_, Nat.succ_le_succ h.le, h.ring, ?_, ?_, ?_, ?_, h.killed, ?_⟩
  · have hmoved : dist (x.r + 1) res.input.r = j := h.moved
    have hle := h.le
    have hr := x.r.toNat_lt
    have hone : (1 : UInt32).toNat = 1 := rfl
    have hbuf : INPUT_BUF = 128 := rfl
    change dist x.r res.input.r = j + 1
    simp only [dist_eq, UInt32.toNat_add, hone] at hmoved ⊢
    omega
  · rw [take_succ_cons, filter_cons_of_pos (by simpa using hc), ← h.bytes]
  · rw [take_succ_cons, count_cons_of_ne hc, h.marks]
  · change (c :: res.bytes).length + res.left = n + 1
    rw [length_cons]
    omega
  · exact fun ho => ⟨(h.waits ho).1, congrArg (· + 1) (h.waits ho).2⟩
  · intro ho
    rcases h.ends ho with hz | hnl | hD
    · exact .inl hz
    · refine .inr (.inl ?_)
      rw [getLast?_cons, hnl]
      rfl
    · rw [if_neg hleft] at hD ⊢
      exact .inr (.inr hD)

lemma readLoop_spec {x : Input} {unread line : List UInt8} (killed : Bool) {target n : Nat} (hn : n ≤ target)
    (hpos : 0 < target) (h : Holds x unread line) :
    ∃ j, (readLoop killed target n x).Reads x killed target n unread line j := by
  induction n generalizing x unread with
  | zero =>
    refine ⟨0, dist_self _, Nat.zero_le _, h, rfl, ?_, rfl, nofun, nofun, fun _ => .inl rfl⟩
    exact (if_neg fun hc => hpos.ne hc.2).symm
  | succ n ih =>
    rw [readLoop]
    cases unread with
    | nil =>
      have hrw : x.r = x.w := dist_eq_zero.mp h.split
      rw [if_pos hrw]
      refine ⟨0, dist_self _, Nat.le_refl 0, h, rfl, ?_, Nat.zero_add _, fun _ => ⟨Nat.succ_pos n, rfl⟩, ?_, ?_⟩
      · cases killed <;> rfl
      · intro hkilled
        cases killed
        · cases hkilled
        · rfl
      · intro hreturns
        cases killed <;> cases hreturns
    | cons c unread =>
      obtain ⟨hc, htake⟩ := h.take
      have hrw : x.r ≠ x.w := by
        intro he
        have := h.split
        rw [Counters.dist_eq_zero.mpr he] at this
        cases this
      simp only [if_neg hrw, hc]
      by_cases hD : c = C 'D'
      · subst hD
        rw [if_pos rfl]
        by_cases hlt : n + 1 < target
        · -- The mark is kept: `r` is where it was.
          have hback : x.r + 1 - 1 = x.r := UInt32.add_sub_cancel x.r 1
          simp only [if_pos hlt, hback]
          refine ⟨0, dist_self _, Nat.zero_le _, h, rfl, ?_, Nat.zero_add _, nofun, nofun, fun _ => .inr (.inr ?_)⟩
          · exact (if_neg fun hc => hlt.ne hc.2).symm
          · rw [if_neg hlt.ne]
            rfl
        · have heq : n + 1 = target := by omega
          simp only [if_neg hlt]
          refine ⟨1, dist_next _, by simp, htake, rfl, ?_, Nat.zero_add _, nofun, nofun, fun _ => .inr (.inr ?_)⟩
          · exact (if_pos ⟨rfl, heq⟩).symm
          · rw [if_pos heq]
            rfl
      · rw [if_neg hD]
        by_cases hnl : c = newline
        · rw [if_pos hnl]
          refine ⟨1, dist_next _, by simp, htake, ?_, ?_, Nat.add_comm 1 n, nofun, nofun, fun _ => .inr (.inl ?_)⟩
          · rw [take_succ_cons, filter_cons_of_pos (by simpa using hD)]
            rfl
          · have hleft : n ≠ target := by omega
            rw [take_succ_cons, count_cons_of_ne hD]
            exact (if_neg fun hc => hleft hc.2).symm
          · exact congrArg some hnl
        rw [if_neg hnl]
        obtain ⟨j, hrest⟩ := ih (by omega) htake
        refine ⟨j + 1, hrest.cons hD (by omega) ?_⟩
        have hlen := h.length
        have hfull := h.full
        rw [length_cons] at hlen
        omega

namespace State

variable {s : State} {at0 : UInt32}

def takenBy (s : State) (id : Nat) : List UInt8 := (s.taken.filter (·.1 = id)).map (·.2)

/-- What was copied out is the beginning of the committed text, and the ring holds the rest. -/
structure Flow (at0 : UInt32) (s : State) : Prop where
  le : s.moved ≤ (text s.typed).committed.length
  place : s.input.r = at0 + UInt32.ofNat s.moved
  ring : Holds s.input ((text s.typed).committed.drop s.moved) (text s.typed).line
  taken : s.taken.map (·.2) = ((text s.typed).committed.take s.moved).filter (· ≠ C 'D')

lemma Flow.key (h : s.Flow at0) (c : UInt8) : (s.key c).Flow at0 := by
  have htext : text (s.key c).typed = (text s.typed).key (c, INPUT_BUF - (s.input.e - s.input.r).toNat) :=
    text_snoc _ _
  have hle := h.le
  have hmoved : (s.key c).moved = s.moved := rfl
  refine ⟨?_, (s.input.key_r c).trans h.place, ?_, ?_⟩
  · rw [htext, hmoved, Text.key, length_append]
    omega
  · rw [htext, hmoved, Text.key, drop_append_of_le_length hle]
    exact h.ring.key c
  · rw [htext, hmoved, Text.key, take_append_of_le_length hle]
    exact h.taken

lemma Flow.pass {j : Nat} {res : Pass} {killed : Bool} {target n : Nat} {k : Call} (h : s.Flow at0)
    (hres : res.Reads s.input killed target n ((text s.typed).committed.drop s.moved) (text s.typed).line j) :
    (s.pass k res).Flow at0 ∧ (s.pass k res).moved = s.moved + j := by
  have hle := h.le
  have hj := hres.le
  rw [length_drop] at hj
  have hring := hres.ring
  rw [drop_drop] at hring
  have hmoved : (s.pass k res).moved = s.moved + j := congrArg (s.moved + ·) hres.moved
  refine ⟨⟨?_, ?_, ?_, ?_⟩, hmoved⟩
  · rw [hmoved]
    change s.moved + j ≤ (text s.typed).committed.length
    omega
  · change res.input.r = at0 + UInt32.ofNat (s.moved + (res.input.r - s.input.r).toNat)
    rw [UInt32.ofNat_add, UInt32.ofNat_toNat, ← UInt32.add_assoc, ← h.place, UInt32.add_comm, UInt32.sub_add_cancel]
  · rw [hmoved]
    exact hring
  · rw [hmoved]
    change (s.taken ++ res.bytes.map (k.id, ·)).map (·.2)
      = ((text s.typed).committed.take (s.moved + j)).filter (· ≠ C 'D')
    rw [map_append, h.taken, map_map, take_add, filter_append, ← hres.bytes]
    congr 1
    exact map_id _

lemma takenBy_pass (s : State) (k : Call) (res : Pass) (i : Nat) :
    (s.pass k res).takenBy i = s.takenBy i ++ if i = k.id then res.bytes else [] := by
  rw [takenBy, takenBy, State.pass, filter_append, map_append]
  congr 1
  by_cases hi : i = k.id
  · rw [if_pos hi, filter_eq_self.mpr, map_map]
    · exact map_id _
    · simp [hi]
  rw [if_neg hi, filter_eq_nil_iff.mpr]
  · rfl
  · intro t ht
    obtain ⟨b, -, rfl⟩ := mem_map.mp ht
    simpa using Ne.symm hi

structure Open (s : State) (k : Call) : Prop where
  left : 0 < k.left
  count : k.dst.length + k.left = k.target
  id : k.id < s.next
  dst : k.dst = s.takenBy k.id
  unreturned : ∀ r ∈ s.reads, r.id ≠ k.id

/-- A call for some bytes that was not killed had a reason to return: it has all of them, or the last one is a
newline, or the next one is a `^D`, which it has taken if it returns 0. -/
def Ends (committed : List UInt8) (r : Read) : Prop :=
  r.ret = r.n ∨ r.bytes.getLast? = some newline ∨
    committed[if r.ret = 0 then r.stop - 1 else r.stop]? = some (C 'D')

structure Closed (s : State) (r : Read) : Prop where
  id : r.id < s.next
  bytes : r.bytes = s.takenBy r.id
  ret : r.ret = r.bytes.length ∨ r.ret = -1 ∧ ∃ p, s.killed p = true
  ends : r.ret ≠ -1 → 0 < r.n → Ends (text s.typed).committed r

structure Books (s : State) : Prop where
  calls : ∀ p k, s.calls p = some k → s.Open k
  apart : ∀ p q k k', s.calls p = some k → s.calls q = some k' → k.id = k'.id → p = q
  reads : ∀ r ∈ s.reads, s.Closed r
  known : ∀ t ∈ s.taken, t.1 < s.next

lemma Ends.mono {committed committed' : List UInt8} {r : Read} (h : Ends committed r)
    (hle : committed <+: committed') : Ends committed' r := by
  obtain ⟨more, rfl⟩ := hle
  refine h.imp_right (Or.imp_right fun hD => ?_)
  rw [getElem?_append_left (List.getElem?_eq_some_iff.mp hD).1]
  exact hD

lemma Open.pass {k k' : Call} (h : s.Open k') (hne : k'.id ≠ k.id) (res : Pass) : (s.pass k res).Open k' := by
  refine ⟨h.left, h.count, h.id, ?_, h.unreturned⟩
  rw [takenBy_pass, if_neg hne, append_nil]
  exact h.dst

lemma Closed.pass {k : Call} {r : Read} (h : s.Closed r) (hne : r.id ≠ k.id) (res : Pass) :
    (s.pass k res).Closed r := by
  refine ⟨h.id, ?_, h.ret, h.ends⟩
  rw [takenBy_pass, if_neg hne, append_nil]
  exact h.bytes

lemma Open.dst_pass {k : Call} (h : s.Open k) (res : Pass) : k.dst ++ res.bytes = (s.pass k res).takenBy k.id := by
  rw [takenBy_pass, if_pos rfl, h.dst]

lemma known_pass {k : Call} (h : s.Books) (hk : s.Open k) (res : Pass) :
    ∀ t ∈ (s.pass k res).taken, t.1 < s.next := by
  intro t ht
  rcases mem_append.mp ht with ht | ht
  · exact h.known t ht
  · obtain ⟨b, -, rfl⟩ := mem_map.mp ht
    exact hk.id

lemma Books.finish {p : Nat} {k : Call} {res : Pass} {ret : Int} (h : s.Books)
    (hk : s.Open k) (hother : ∀ q k', q ≠ p → s.calls q = some k' → k'.id ≠ k.id)
    (hret : ret = (k.dst ++ res.bytes).length ∨ ret = -1 ∧ ∃ p, s.killed p = true)
    (hends : ret ≠ -1 → 0 < (k.target : Int) →
      Ends (text s.typed).committed ⟨k.id, k.target, ret, k.dst ++ res.bytes, (s.pass k res).moved⟩) :
    ((s.pass k res).finish p k (k.dst ++ res.bytes) ret).Books := by
  have hcalls : ∀ {q k'}, Function.update s.calls p none q = some k' → q ≠ p ∧ s.calls q = some k' := by
    intro q k' hq
    by_cases hqp : q = p
    · rw [hqp, update_self] at hq
      cases hq
    · rw [update_of_ne hqp] at hq
      exact ⟨hqp, hq⟩
  refine ⟨?_, ?_, ?_, known_pass h hk res⟩
  · intro q k' hq
    obtain ⟨hqp, hq⟩ := hcalls hq
    have hne := hother q k' hqp hq
    have hopen := (h.calls q k' hq).pass hne res
    refine ⟨hopen.left, hopen.count, hopen.id, hopen.dst, ?_⟩
    intro r hr
    rcases mem_append.mp hr with hr | hr
    · exact hopen.unreturned r hr
    · rw [mem_singleton.mp hr]
      exact hne.symm
  · intro q q' k1 k2 h1 h2
    exact h.apart q q' k1 k2 (hcalls h1).2 (hcalls h2).2
  · intro r hr
    rcases mem_append.mp hr with hr | hr
    · have hclosed := (h.reads r hr).pass (hk.unreturned r hr) res
      exact ⟨hclosed.id, hclosed.bytes, hclosed.ret, hclosed.ends⟩
    · rw [mem_singleton.mp hr]
      exact ⟨hk.id, hk.dst_pass res, hret, hends⟩

lemma Books.sleep {p : Nat} {k : Call} {res : Pass} (h : s.Books) (hk : s.Open k)
    (hother : ∀ q k', q ≠ p → s.calls q = some k' → k'.id ≠ k.id) (hleft : 0 < res.left)
    (hcount : res.bytes.length + res.left = k.left) :
    Books { s.pass k res with
      calls := Function.update s.calls p (some { k with left := res.left, dst := k.dst ++ res.bytes }) } := by
  have hcalls : ∀ {q k'},
      Function.update s.calls p (some { k with left := res.left, dst := k.dst ++ res.bytes }) q = some k' →
      q = p ∧ k' = { k with left := res.left, dst := k.dst ++ res.bytes } ∨ q ≠ p ∧ s.calls q = some k' := by
    intro q k' hq
    by_cases hqp : q = p
    · rw [hqp, update_self] at hq
      exact .inl ⟨hqp, (Option.some.inj hq).symm⟩
    · rw [update_of_ne hqp] at hq
      exact .inr ⟨hqp, hq⟩
  refine ⟨?_, ?_, ?_, known_pass h hk res⟩
  · intro q k' hq
    rcases hcalls hq with ⟨-, rfl⟩ | ⟨hqp, hq⟩
    · refine ⟨hleft, ?_, hk.id, hk.dst_pass res, hk.unreturned⟩
      have := hk.count
      simp only [length_append]
      omega
    · have hopen := (h.calls q k' hq).pass (hother q k' hqp hq) res
      exact ⟨hopen.left, hopen.count, hopen.id, hopen.dst, hopen.unreturned⟩
  · intro q q' k1 k2 h1 h2 hid
    rcases hcalls h1 with ⟨rfl, rfl⟩ | ⟨hq, hold⟩
    · rcases hcalls h2 with ⟨rfl, -⟩ | ⟨hq', hold'⟩
      · rfl
      · exact absurd hid.symm (hother q' k2 hq' hold')
    · rcases hcalls h2 with ⟨rfl, rfl⟩ | ⟨-, hold'⟩
      · exact absurd hid (hother q k1 hq hold)
      · exact h.apart q q' k1 k2 hold hold' hid
  · intro r hr
    have hclosed := (h.reads r hr).pass (hk.unreturned r hr) res
    exact ⟨hclosed.id, hclosed.bytes, hclosed.ret, hclosed.ends⟩

/-- Calls that wanted bytes and returned 0. -/
def zeroReads (s : State) : List Read := s.reads.filter fun r => 0 < r.n ∧ r.ret = 0

lemma length_zeroReads_finish (s : State) (p : Nat) {k : Call} (hk : 0 < k.target) (dst : List UInt8) (ret : Int) :
    (s.finish p k dst ret).zeroReads.length = s.zeroReads.length + if ret = 0 then 1 else 0 := by
  unfold zeroReads State.finish
  rw [filter_append, length_append]
  split <;> simp [*]

/-- `marks` says that each `^D` that was taken has made one call return 0. -/
structure Inv (at0 : UInt32) (s : State) : Prop where
  flow : s.Flow at0
  marks : s.zeroReads.length = ((text s.typed).committed.take s.moved).count (C 'D')
  books : s.Books

/-- One hold of the lock by a reader. It goes to sleep only on a ring without committed characters. -/
lemma Inv.consoleread {p : Nat} {k : Call} (h : s.Inv at0) (hk : s.Open k)
    (hother : ∀ q k', q ≠ p → s.calls q = some k' → k'.id ≠ k.id) :
    (s.consoleread p k).Inv at0 ∧
      ((s.consoleread p k).calls p ≠ none → (s.consoleread p k).input.r = (s.consoleread p k).input.w) := by
  have htarget := hk.count
  have hpos := hk.left
  obtain ⟨j, hres⟩ := readLoop_spec (s.killed p) (show k.left ≤ k.target by omega) (by omega) h.flow.ring
  rw [State.consoleread]
  generalize readLoop (s.killed p) k.target k.left s.input = res at hres
  obtain ⟨hflow, hmoved⟩ := h.flow.pass (k := k) hres
  have hcount := hres.count
  have hmarks : ((text s.typed).committed.take (s.pass k res).moved).count (C 'D') =
      s.zeroReads.length + if res.outcome = .returns ∧ res.left = k.target then 1 else 0 := by
    rw [hmoved, take_add, count_append, ← h.marks, hres.marks]
  have hgone : ∀ (ret : Int), ((s.pass k res).finish p k (k.dst ++ res.bytes) ret).calls p = none :=
    fun _ => update_self ..
  cases ho : res.outcome with
  | sleeps =>
    obtain ⟨hleft, hall⟩ := hres.waits ho
    refine ⟨⟨⟨hflow.le, hflow.place, hflow.ring, hflow.taken⟩, ?_, h.books.sleep hk hother hleft hcount⟩, fun _ => ?_⟩
    · rw [if_neg fun hc => by rw [ho] at hc; cases hc.1] at hmarks
      exact hmarks.symm
    · have hsplit := hres.ring.split
      rw [hall, drop_length] at hsplit
      exact dist_eq_zero.mp hsplit
  | killed =>
    refine ⟨⟨⟨hflow.le, hflow.place, hflow.ring, hflow.taken⟩, ?_, ?_⟩, fun hc => absurd (hgone _) hc⟩
    · refine (length_zeroReads_finish _ p (by omega) _ _).trans ?_
      rw [if_neg fun hc => by rw [ho] at hc; cases hc.1] at hmarks
      exact hmarks.symm
    · exact h.books.finish hk hother (.inr ⟨rfl, p, hres.killed ho⟩) (fun hc => absurd rfl hc)
  | returns =>
    have hzero : (k.target : Int) - res.left = 0 ↔ res.left = k.target := by omega
    refine ⟨⟨⟨hflow.le, hflow.place, hflow.ring, hflow.taken⟩, ?_, ?_⟩, fun hc => absurd (hgone _) hc⟩
    · refine (length_zeroReads_finish _ p (by omega) _ _).trans ?_
      simp only [ho, true_and, ← hzero] at hmarks
      exact hmarks.symm
    · refine h.books.finish hk hother (.inl ?_) fun _ _ => ?_
      · rw [length_append]
        omega
      rcases hres.ends ho with hz | hnl | hD
      · exact .inl (by change (k.target : Int) - res.left = k.target; omega)
      · refine .inr (.inl ?_)
        change (k.dst ++ res.bytes).getLast? = _
        rw [getLast?_append, hnl]
        rfl
      · refine .inr (.inr ?_)
        change (text s.typed).committed[if (k.target : Int) - res.left = 0 then (s.pass k res).moved - 1
          else (s.pass k res).moved]? = _
        rw [getElem?_drop] at hD
        rw [hmoved]
        by_cases hl : res.left = k.target
        · -- A call without bytes has taken the mark.
          rw [if_pos hl] at hD
          rw [if_pos (hzero.mpr hl)]
          have hj : 0 < j := by
            have hone := hres.marks
            rw [if_pos ⟨ho, hl⟩] at hone
            by_contra hc
            rw [show j = 0 by omega, take_zero] at hone
            cases hone
          rwa [show s.moved + j - 1 = s.moved + (j - 1) by omega]
        · rw [if_neg hl] at hD
          rwa [if_neg (mt hzero.mp hl)]

lemma Books.congr {s' : State} (h : s.Books) (hcalls : s'.calls = s.calls) (htaken : s'.taken = s.taken)
    (hreads : s'.reads = s.reads) (hnext : s'.next = s.next)
    (htyped : (text s.typed).committed <+: (text s'.typed).committed)
    (hkilled : ∀ p, s.killed p = true → s'.killed p = true) : s'.Books := by
  obtain ⟨input, killed, calls, typed, taken, moved, reads, next⟩ := s'
  obtain rfl : calls = s.calls := hcalls
  obtain rfl : taken = s.taken := htaken
  obtain rfl : reads = s.reads := hreads
  obtain rfl : next = s.next := hnext
  refine ⟨?_, h.apart, ?_, h.known⟩
  · intro p k hk
    have hopen := h.calls p k hk
    exact ⟨hopen.left, hopen.count, hopen.id, hopen.dst, hopen.unreturned⟩
  intro r hr
  have hclosed := h.reads r hr
  refine ⟨hclosed.id, hclosed.bytes, hclosed.ret.imp_right ?_, fun h₁ h₂ => (hclosed.ends h₁ h₂).mono htyped⟩
  rintro ⟨hret, p, hp⟩
  exact ⟨hret, p, hkilled p hp⟩

lemma Inv.key (h : s.Inv at0) (c : UInt8) : (s.key c).Inv at0 := by
  refine ⟨h.flow.key c, ?_, h.books.congr rfl rfl rfl rfl (committed_mono s.typed _) fun _ hp => hp⟩
  obtain ⟨more, hmore⟩ := committed_mono s.typed [(c, INPUT_BUF - (s.input.e - s.input.r).toNat)]
  change s.zeroReads.length = ((text (s.typed ++ _)).committed.take s.moved).count _
  rw [← hmore, take_append_of_le_length h.flow.le]
  exact h.marks

lemma Inv.consoleintr (h : s.Inv at0) (cs : List UInt8) : (s.consoleintr cs).Inv at0 := by
  induction cs generalizing s with
  | nil => exact h
  | cons c cs ih => exact ih (h.key c)

lemma Books.fresh (h : s.Books) : s.takenBy s.next = [] := by
  rw [takenBy, map_eq_nil_iff, filter_eq_nil_iff]
  intro t ht
  have := h.known t ht
  rw [decide_eq_true_iff]
  omega

lemma Books.next (h : s.Books) : Books { s with next := s.next + 1 } := by
  refine ⟨?_, h.apart, ?_, fun t ht => Nat.lt_succ_of_lt (h.known t ht)⟩
  · intro p k hk
    have hopen := h.calls p k hk
    exact ⟨hopen.left, hopen.count, Nat.lt_succ_of_lt hopen.id, hopen.dst, hopen.unreturned⟩
  · intro r hr
    have hclosed := h.reads r hr
    exact ⟨Nat.lt_succ_of_lt hclosed.id, hclosed.bytes, hclosed.ret, hclosed.ends⟩

lemma Books.call {n : Nat} (h : s.Books) (hn : 0 < n) : Open { s with next := s.next + 1 } ⟨s.next, n, n, []⟩ := by
  refine ⟨hn, Nat.zero_add n, Nat.lt_succ_self _, h.fresh.symm, ?_⟩
  intro r hr
  exact Nat.ne_of_lt (h.reads r hr).id

lemma Inv.readNothing {n : Int} (h : s.Inv at0) (hn : n ≤ 0) :
    Inv at0 { s with next := s.next + 1, reads := s.reads ++ [⟨s.next, n, 0, [], s.moved⟩] } := by
  have hnext := h.books.next
  refine ⟨⟨h.flow.le, h.flow.place, h.flow.ring, h.flow.taken⟩, ?_, ?_, h.books.apart, ?_, hnext.known⟩
  · refine Eq.trans ?_ h.marks
    change (filter _ (s.reads ++ [_])).length = _
    rw [filter_append, filter_cons_of_neg]
    · simp [zeroReads]
    · rw [decide_eq_true_iff]
      exact fun hc => absurd hc.1 (Int.not_lt.mpr hn)
  · intro p k hk
    have hopen := hnext.calls p k hk
    refine ⟨hopen.left, hopen.count, hopen.id, hopen.dst, ?_⟩
    intro r hr
    rcases mem_append.mp hr with hr | hr
    · exact hopen.unreturned r hr
    · rw [mem_singleton.mp hr]
      exact (Nat.ne_of_lt (h.books.calls p k hk).id).symm
  · intro r hr
    rcases mem_append.mp hr with hr | hr
    · have hclosed := hnext.reads r hr
      exact ⟨hclosed.id, hclosed.bytes, hclosed.ret, hclosed.ends⟩
    · rw [mem_singleton.mp hr]
      exact ⟨Nat.lt_succ_self _, h.books.fresh.symm, .inl rfl, fun _ hpos => absurd hpos (Int.not_lt.mpr hn)⟩

/-- An event in which process `p` runs in `consoleread`. -/
def Reading (s : State) (p : Nat) (ev : Event) : Prop :=
  ev = .wake p ∨ s.calls p = none ∧ ∃ n, ev = .read p n

lemma Inv.step (h : s.Inv at0) (ev : Event) : (s.step ev).Inv at0 ∧
    ∀ p, s.Reading p ev → (s.step ev).calls p ≠ none → (s.step ev).input.r = (s.step ev).input.w := by
  cases ev with
  | keys cs => exact ⟨h.consoleintr cs, fun p hev => by rcases hev with hev | ⟨-, n, hev⟩ <;> cases hev⟩
  | read p n =>
    rw [State.step]
    cases hp : s.calls p with
    | some k =>
      refine ⟨h, fun q hev => ?_⟩
      rcases hev with hev | ⟨hq, n, hev⟩
      · cases hev
      · cases hev
        rw [hp] at hq
        cases hq
    | none =>
      by_cases hn : n ≤ 0
      · simp only [if_pos hn]
        refine ⟨h.readNothing hn, fun q hev hc => ?_⟩
        rcases hev with hev | ⟨hq, m, hev⟩
        · cases hev
        · exact absurd hq hc
      simp only [if_neg hn]
      have hinv : Inv at0 { s with next := s.next + 1 } :=
        ⟨⟨h.flow.le, h.flow.place, h.flow.ring, h.flow.taken⟩, h.marks, h.books.next⟩
      obtain ⟨hnext, hasleep⟩ := hinv.consoleread (p := p) (h.books.call (show 0 < n.toNat by omega)) (by
        intro q k' _ hq
        exact Nat.ne_of_lt (h.books.calls q k' hq).id)
      refine ⟨hnext, fun q hev => ?_⟩
      rcases hev with hev | ⟨-, m, hev⟩
      · cases hev
      · cases hev
        exact hasleep
  | wake p =>
    rw [State.step]
    cases hp : s.calls p with
    | none =>
      refine ⟨h, fun q hev hc => ?_⟩
      rcases hev with hev | ⟨-, n, hev⟩
      · cases hev
        exact absurd hp hc
      · cases hev
    | some k =>
      obtain ⟨hnext, hasleep⟩ := h.consoleread (p := p) (h.books.calls p k hp) (by
        intro q k' hqp hq hid
        exact hqp (h.books.apart q p k' k hq hp hid))
      refine ⟨hnext, fun q hev => ?_⟩
      rcases hev with hev | ⟨-, n, hev⟩
      · cases hev
        exact hasleep
      · cases hev
  | kill p =>
    refine ⟨⟨⟨h.flow.le, h.flow.place, h.flow.ring, h.flow.taken⟩, h.marks,
      h.books.congr rfl rfl rfl rfl prefix_rfl ?_⟩, fun q hev => by rcases hev with hev | ⟨-, n, hev⟩ <;> cases hev⟩
    intro q hq
    change Function.update s.killed p true q = true
    by_cases hqp : q = p
    · rw [hqp, update_self]
    · rw [update_of_ne hqp]
      exact hq

lemma Inv.run (h : s.Inv at0) (evs : List Event) : (s.run evs).Inv at0 := by
  induction evs generalizing s with
  | nil => exact h
  | cons ev evs ih => exact ih (h.step ev).1

lemma consoleread_kept (s : State) (p : Nat) (k : Call) :
    (s.consoleread p k).killed = s.killed ∧ (s.consoleread p k).typed = s.typed := by
  rw [State.consoleread]
  cases (readLoop (s.killed p) k.target k.left s.input).outcome with
  | sleeps => exact ⟨rfl, rfl⟩
  | killed => exact ⟨rfl, rfl⟩
  | returns => exact ⟨rfl, rfl⟩

end State

def Event.chars : Event → List UInt8
  | .keys cs => cs
  | _ => []

namespace State

lemma consoleintr_typed (s : State) (cs : List UInt8) :
    (s.consoleintr cs).killed = s.killed ∧
    ∃ new, (s.consoleintr cs).typed = s.typed ++ new ∧ new.map (·.1) = cs := by
  induction cs generalizing s with
  | nil => exact ⟨rfl, [], (append_nil _).symm, rfl⟩
  | cons c cs ih =>
    obtain ⟨hkilled, new, htyped, hnew⟩ := ih (s.key c)
    refine ⟨hkilled, (c, INPUT_BUF - (s.input.e - s.input.r).toNat) :: new, ?_, ?_⟩
    · change ((s.key c).consoleintr cs).typed = _
      rw [htyped, State.key, append_assoc]
      rfl
    · rw [map_cons, hnew]

lemma step_typed (s : State) (ev : Event) :
    ∃ new, (s.step ev).typed = s.typed ++ new ∧ new.map (·.1) = ev.chars := by
  cases ev with
  | keys cs => exact (s.consoleintr_typed cs).2
  | read p n =>
    refine ⟨[], ?_, rfl⟩
    rw [append_nil, State.step]
    cases s.calls p with
    | some k => rfl
    | none =>
      by_cases hn : n ≤ 0
      · simp only [if_pos hn]
      · simp only [if_neg hn]
        exact (consoleread_kept _ _ _).2
  | wake p =>
    refine ⟨[], ?_, rfl⟩
    rw [append_nil, State.step]
    cases s.calls p with
    | some k => exact (consoleread_kept _ _ _).2
    | none => rfl
  | kill p => exact ⟨[], (append_nil _).symm, rfl⟩

lemma run_typed (s : State) (evs : List Event) :
    ∃ new, (s.run evs).typed = s.typed ++ new ∧ new.map (·.1) = evs.flatMap Event.chars := by
  induction evs generalizing s with
  | nil => exact ⟨[], (append_nil _).symm, rfl⟩
  | cons ev evs ih =>
    obtain ⟨new, htyped, hnew⟩ := s.step_typed ev
    obtain ⟨more, hmore, hchars⟩ := ih (s.step ev)
    refine ⟨new ++ more, ?_, ?_⟩
    · change ((s.step ev).run evs).typed = _
      rw [hmore, htyped, append_assoc]
    · rw [map_append, hnew, hchars, flatMap_cons]

lemma step_killed {s : State} {ev : Event} {p : Nat} (h : (s.step ev).killed p = true) :
    s.killed p = true ∨ ev = .kill p := by
  cases ev with
  | keys cs =>
    rw [State.step, (s.consoleintr_typed cs).1] at h
    exact .inl h
  | read q n =>
    left
    rw [State.step] at h
    cases hq : s.calls q with
    | some k =>
      rw [hq] at h
      exact h
    | none =>
      rw [hq] at h
      by_cases hn : n ≤ 0
      · simpa only [if_pos hn] using h
      · simp only [if_neg hn, (consoleread_kept _ _ _).1] at h
        exact h
  | wake q =>
    left
    rw [State.step] at h
    cases hq : s.calls q with
    | some k =>
      simp only [hq, (consoleread_kept _ _ _).1] at h
      exact h
    | none =>
      rw [hq] at h
      exact h
  | kill q =>
    by_cases hp : p = q
    · exact .inr (congrArg Event.kill hp.symm)
    · left
      change Function.update s.killed q true p = true at h
      rwa [update_of_ne hp] at h

lemma run_killed {s : State} {evs : List Event} {p : Nat} (h : (s.run evs).killed p = true) :
    s.killed p = true ∨ .kill p ∈ evs := by
  induction evs generalizing s with
  | nil => exact .inl h
  | cons ev evs ih =>
    rcases ih h with h | h
    · rcases step_killed h with h | rfl
      · exact .inl h
      · exact .inr mem_cons_self
    · exact .inr (mem_cons_of_mem _ h)

end State

lemma inv_start (buf : Table UInt8) (at0 : UInt32) : (start buf at0).Inv at0 := by
  refine ⟨⟨Nat.le_refl 0, (UInt32.add_zero at0).symm, ⟨?_, dist_self at0, ?_, not_mem_nil⟩, rfl⟩, rfl, ?_, ?_, ?_, ?_⟩
  · change span buf INPUT_BUF at0 (dist at0 at0) = []
    rw [dist_self, span_zero]
  · change dist at0 at0 ≤ INPUT_BUF
    rw [dist_self]
    exact Nat.zero_le _
  · intro p k hk
    cases hk
  · intro p q k k' hk
    cases hk
  · intro r hr
    cases hr
  · intro t ht
    cases ht

/-- The ring holds the committed characters that were not read and then the current line; the calls of
`consoleread` take the committed characters in order, and leave off only where they have to. -/
theorem console_lines (buf : Table UInt8) (at0 : UInt32) (evs : List Event) :
    let s := (start buf at0).run evs
    let t := text s.typed
    s.typed.map (·.1) = evs.flatMap Event.chars ∧
    (s.input.w - s.input.r).toNat ≤ (s.input.e - s.input.r).toNat ∧
    (s.input.e - s.input.r).toNat ≤ INPUT_BUF ∧
    (s.moved ≤ t.committed.length ∧ s.input.r = at0 + UInt32.ofNat s.moved ∧
      span s.input.buf INPUT_BUF s.input.r (s.input.w - s.input.r).toNat = t.committed.drop s.moved ∧
      span s.input.buf INPUT_BUF s.input.w (s.input.e - s.input.w).toNat = t.line ∧
      s.taken.map (·.2) = (t.committed.take s.moved).filter (· ≠ C 'D') ∧
      s.zeroReads.length = (t.committed.take s.moved).count (C 'D')) ∧
    (∀ more, t.committed <+: (text (s.run more).typed).committed) ∧
    (∀ r ∈ s.reads, r.bytes = s.takenBy r.id ∧
      ((∀ p, .kill p ∉ evs) → r.ret = r.bytes.length ∧ (0 < r.n → State.Ends t.committed r)) ∧
      (r.ret = 0 → 0 < r.n → t.committed[r.stop - 1]? = some (C 'D'))) ∧
    ∀ p ev, s.Reading p ev → (s.step ev).calls p ≠ none → (s.step ev).input.r = (s.step ev).input.w := by
  intro s t
  have hinv : s.Inv at0 := (inv_start buf at0).run evs
  have hflow := hinv.flow
  refine ⟨?_, hflow.ring.le, hflow.ring.full,
    ⟨hflow.le, hflow.place, hflow.ring.unread_eq, hflow.ring.line_eq, hflow.taken, hinv.marks⟩, ?_, ?_,
    fun p ev => (hinv.step ev).2 p⟩
  · obtain ⟨new, htyped, hnew⟩ := (start buf at0).run_typed evs
    rw [← hnew]
    exact congrArg (List.map (·.1)) htyped
  · intro more
    obtain ⟨new, htyped, -⟩ := s.run_typed more
    rw [htyped]
    exact committed_mono s.typed new
  · intro r hr
    have hclosed := hinv.books.reads r hr
    refine ⟨hclosed.bytes, fun hkill => ?_, fun hzero hpos => ?_⟩
    · have hret : r.ret = r.bytes.length := by
        rcases hclosed.ret with hret | ⟨-, p, hp⟩
        · exact hret
        · rcases State.run_killed hp with hp | hp
          · cases hp
          · exact absurd hp (hkill p)
      exact ⟨hret, hclosed.ends (by omega)⟩
    · -- Nothing was copied, so it was neither all that was wanted nor a newline that ended the call.
      have hnil : r.bytes = [] := by
        rcases hclosed.ret with hret | ⟨hret, -⟩
        · exact eq_nil_of_length_eq_zero (by omega)
        · omega
      rcases hclosed.ends (by omega) hpos with hall | hnl | hD
      · omega
      · rw [hnil] at hnl
        cases hnl
      · rwa [if_pos hzero] at hD

/-- Somebody types `ac`, a backspace, `b`, return and `^D`, and calls for 9 bytes return `ab\n` and nothing. -/
theorem console_lines_session :
    let s := (start (.const 0) 0).run [.read 1 9, .keys [97, 99, 8], .keys [98, 13, 4], .wake 1, .read 1 9]
    s.reads.map (fun r => (r.ret, r.bytes)) = [(3, [97, 98, 10]), (0, [])] ∧
      s.moved = 4 ∧ (text s.typed).committed = [97, 98, 10, 4] ∧ s.zeroReads.length = 1 := by
  have hlines := console_lines (.const 0) 0
    [.read 1 9, .keys [97, 99, 8], .keys [98, 13, 4], .wake 1, .read 1 9]
  refine ⟨by decide +kernel, by decide +kernel, by decide +kernel, ?_⟩
  rw [hlines.2.2.2.1.2.2.2.2.2]
  decide +kernel

end Xv6.Console
