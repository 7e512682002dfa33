import Xv6.Grep

/-!
# The lines that `grep` writes

The buffer has no terminator of its own: `strchr` stops at what is left of earlier reads.
-/

namespace Xv6.Grep

open List
open Strings (Mem umemmove copyUp_moved)
open Shell (chars)
open Bytes (slice)

variable {buf buf' buf₀ : Mem} {p t k ext : Nat} {l c tail rest pattern : List UInt8}
variable {ls chunks cs out out' : List (List UInt8)}

/-- The bytes `l` stand at `p`. -/
def At (buf : Mem) (p : Nat) (l : List UInt8) : Prop := ∀ i, i < l.length → buf (p + i) = l.getD i 0

lemma at_append : At buf p (l ++ c) ↔ At buf p l ∧ At buf (p + l.length) c := by
  refine ⟨fun h => ⟨fun i hi => ?_, fun i hi => ?_⟩, fun ⟨h, h'⟩ i hi => ?_⟩
  · rw [h i (by simp only [length_append]; omega), getD_append _ _ _ _ hi]
  · rw [Nat.add_assoc, h (l.length + i) (by simp only [length_append]; omega),
      getD_append_right _ _ _ _ (Nat.le_add_right _ _), Nat.add_sub_cancel_left]
  · by_cases hl : i < l.length
    · rw [h i hl, getD_append _ _ _ _ hl]
    · rw [length_append] at hi
      rw [getD_append_right _ _ _ _ (by omega), ← h' (i - l.length) (by omega)]
      congr 1
      omega

lemma At.slice (h : At buf p l) : slice buf p l.length = l := by
  refine ext_getElem (by simp [Bytes.slice]) fun i h1 h2 => ?_
  simp only [Bytes.slice, getElem_map, getElem_range]
  rw [h i h2, getD_eq_getElem]

def IsLine (l : List UInt8) : Prop := 0 ∉ l ∧ newline ∉ l

/-- The input with these lines. -/
def text (ls : List (List UInt8)) : List UInt8 := ls.flatMap (· ++ [newline])

lemma text_cons (l : List UInt8) (ls : List (List UInt8)) : text (l :: ls) = l ++ [newline] ++ text ls := rfl

def matching (pattern : List UInt8) (ls : List (List UInt8)) : List (List UInt8) :=
  (ls.filter (matchText pattern)).map (· ++ [newline])

lemma strchr_line {b : UInt8} (hl : IsLine l) (h : At buf p (l ++ [b])) (hk : l.length < k)
    (hb : b = newline ∨ b = 0) : strchr buf newline k p = .ok (if b = 0 then none else some (p + l.length)) := by
  induction l generalizing p k with
  | nil =>
    obtain ⟨k, rfl⟩ := Nat.exists_eq_add_one_of_ne_zero (Nat.ne_zero_of_lt hk)
    rw [strchr, show buf p = b from h 0 (by simp)]
    rcases hb with rfl | rfl <;> rfl
  | cons a l ih =>
    obtain ⟨k, rfl⟩ := Nat.exists_eq_add_one_of_ne_zero (Nat.ne_zero_of_lt hk)
    obtain ⟨⟨h0, hl0⟩, hn, hln⟩ := And.intro (not_or.mp (mem_cons.not.mp hl.1)) (not_or.mp (mem_cons.not.mp hl.2))
    have hrest : At buf (p + 1) (l ++ [b]) := ((at_append (l := [a])).mp h).2
    rw [strchr, show buf p = a from h 0 (by simp), if_neg (Ne.symm h0), if_neg (Ne.symm hn),
      ih ⟨hl0, hln⟩ hrest (Nat.lt_of_succ_lt_succ hk), length_cons]
    congr 3
    omega

lemma scanLines_text (pattern : List UInt8) (out : List (List UInt8)) (hls : ∀ l ∈ ls, IsLine l)
    (htail : IsLine tail) (h : At buf p (text ls ++ (tail ++ [0]))) (hp : p + (text ls).length + tail.length < BUF)
    (hk : ls.length < k) :
    ∃ buf', scanLines pattern k ⟨p, buf, out⟩ = .ok ⟨p + (text ls).length, buf', out ++ matching pattern ls⟩ ∧
      (∀ i, p + (text ls).length ≤ i → buf' i = buf i) ∧
      ((∀ l ∈ ls, matchText pattern l = true) → buf' = buf) := by
  induction ls generalizing p k buf out with
  | nil =>
    obtain ⟨k, rfl⟩ := Nat.exists_eq_add_one_of_ne_zero (Nat.ne_zero_of_lt hk)
    refine ⟨buf, ?_, fun _ _ => rfl, fun _ => rfl⟩
    rw [scanLines, strchr_line htail h (by change p + 0 + _ < _ at hp; omega) (.inr rfl)]
    simp [matching, text]
    rfl
  | cons l ls ih =>
    obtain ⟨k, rfl⟩ := Nat.exists_eq_add_one_of_ne_zero (Nat.ne_zero_of_lt hk)
    obtain ⟨hl, hls⟩ := forall_mem_cons.mp hls
    rw [text_cons, append_assoc] at h
    obtain ⟨hline, hrest⟩ := at_append.mp h
    simp only [text_cons, length_append, length_singleton] at hp hrest ⊢
    have hq : p + l.length - p = l.length := by omega
    have hq' : p + l.length + 1 - p = (l ++ [newline]).length := by
      rw [length_append, length_singleton]
      omega
    rw [scanLines, strchr_line hl hline (by omega) (.inl rfl)]
    change ∃ buf', (if matchText pattern (slice buf p (p + l.length - p)) = true then
      scanLines pattern k ⟨p + l.length + 1, buf, out ++ [slice buf p (p + l.length + 1 - p)]⟩
      else scanLines pattern k ⟨p + l.length + 1, Function.update buf (p + l.length) 0, out⟩) = _ ∧ _
    rw [hq, hq', (at_append.mp hline).1.slice, hline.slice, matching, filter_cons]
    split
    · obtain ⟨buf', hscan, hsame, hall⟩ := ih _ hls hrest (by omega) (Nat.lt_of_succ_lt_succ hk)
      refine ⟨buf', hscan.trans ?_, fun i hi => hsame i (by omega), fun hm => hall (forall_mem_cons.mp hm).2⟩
      simp [matching, Nat.add_assoc]
    · rename_i hno
      have hrest' : At (Function.update buf (p + l.length) 0) (p + (l.length + 1)) (text ls ++ (tail ++ [0])) :=
        fun i hi => (Function.update_of_ne (by omega) _ _).trans (hrest i hi)
      obtain ⟨buf', hscan, hsame, -⟩ := ih _ hls hrest' (by omega) (Nat.lt_of_succ_lt_succ hk)
      refine ⟨buf', hscan.trans ?_, fun i hi => ?_, fun hm => absurd (forall_mem_cons.mp hm).1 hno⟩
      · simp [matching, Nat.add_assoc]
      · rw [hsame i (by omega), Function.update_of_ne (by omega)]

/-- What stands behind the last newline. -/
def lastPart (t : List UInt8) : List UInt8 := (t.reverse.takeWhile (· ≠ newline)).reverse

/-- A search from `t` on meets a NUL of the buffer before a newline. -/
def Clean (buf : Mem) (t : Nat) : Prop :=
  ∃ i, t ≤ i ∧ i < BUF ∧ buf i = 0 ∧ ∀ j, t ≤ j → j < i → buf j ≠ 0 ∧ buf j ≠ newline

/-- Every chunk ends a line and fills the buffer at least up to `p`, where the lines of the one before it ended. If it
fills more of the buffer than all before it (`ext` bytes), the search behind it has to stop at a NUL of the old
buffer. `l` is what is left in the buffer of the last line. -/
def Arrives (buf : Mem) : Nat → Nat → List UInt8 → List (List UInt8) → Prop
  | _, _, _, [] => True
  | ext, p, l, c :: cs => newline ∈ c ∧ p ≤ (l ++ c).length ∧ ((l ++ c).length < ext ∨ Clean buf (l ++ c).length) ∧
    Arrives buf (max ext (l ++ c).length) ((l ++ c).length - (lastPart (l ++ c)).length) (lastPart (l ++ c)) cs

lemma exists_split (hls : ∀ l ∈ ls, IsLine l) (h : c ++ rest = text ls) :
    ∃ ls₁ ls₂ tail, ls = ls₁ ++ ls₂ ∧ c = text ls₁ ++ tail ∧ tail ++ rest = text ls₂ ∧ IsLine tail := by
  induction ls generalizing c with
  | nil => exact ⟨[], [], c, rfl, rfl, h, by simp [IsLine, (append_eq_nil_iff.mp h).1]⟩
  | cons l ls ih =>
    obtain ⟨hl, hls⟩ := forall_mem_cons.mp hls
    rcases append_eq_append_iff.mp h with ⟨b, hb, hrest⟩ | ⟨c', rfl, hc⟩
    · rcases eq_nil_or_concat' b with rfl | ⟨b, x, rfl⟩
      · refine ⟨[l], ls, [], rfl, ?_, hrest, not_mem_nil, not_mem_nil⟩
        rw [append_nil] at hb
        simpa [text] using hb.symm
      · rw [← append_assoc] at hb
        obtain ⟨hcb, -⟩ := append_inj' hb rfl
        rw [hcb] at hl
        refine ⟨[], l :: ls, c, rfl, rfl, h, ?_, ?_⟩
        · exact fun hc => hl.1 (mem_append_left _ hc)
        · exact fun hc => hl.2 (mem_append_left _ hc)
    · obtain ⟨ls₁, ls₂, tail, rfl, rfl, htail, hn⟩ := ih hls hc.symm
      exact ⟨l :: ls₁, ls₂, tail, rfl, (append_assoc _ _ _).symm, htail, hn⟩

lemma lastPart_text (hls : ls ≠ []) (htail : newline ∉ tail) : lastPart (text ls ++ tail) = tail := by
  obtain ⟨ls, l, rfl⟩ := (eq_nil_or_concat' ls).resolve_left hls
  have hall : ∀ a ∈ tail.reverse, decide (a ≠ newline) = true := by
    intro a ha
    rw [decide_eq_true_iff]
    rintro rfl
    exact htail (mem_reverse.mp ha)
  rw [lastPart, reverse_append, takeWhile_append_of_pos hall]
  simp [text]

lemma length_le_text (ls : List (List UInt8)) : ls.length ≤ (text ls).length := by
  induction ls with
  | nil => exact Nat.le_refl 0
  | cons l ls ih =>
    simp only [text_cons, length_append, length_cons]
    omega

lemma fill_at (buf : Mem) (m : Nat) (c : List UInt8) : At (fill buf m c) m c := by
  intro i hi
  rw [fill, if_neg (by omega), Nat.add_sub_cancel_left, getD_eq_getElem _ _ hi, getD_eq_getElem _ _ hi]

lemma fill_above {m i : Nat} (hi : m + c.length ≤ i) : fill buf m c i = buf i := by
  rw [fill, if_neg (by omega), getD_eq_default _ _ (by omega)]

lemma fill_all (hl : At buf 0 l) : At (fill buf l.length c) 0 (l ++ c) := by
  refine at_append.mpr ⟨fun i hi => ?_, ?_⟩
  · rw [fill, if_pos (by omega)]
    exact hl i hi
  · rw [Nat.zero_add]
    exact fill_at _ _ _

lemma at_slice (buf : Mem) (p n : Nat) : At buf p (slice buf p n) := by
  intro i hi
  rw [getD_eq_getElem _ _ hi]
  simp [Bytes.slice]

/-- Every place of `l` in the buffer has a byte of `l`. -/
lemma At.mem (h : At buf p l) {i : Nat} (hp : p ≤ i) (hi : i < p + l.length) : buf i ∈ l := by
  have hbyte := h (i - p) (by omega)
  rw [Nat.add_sub_cancel' hp, getD_eq_getElem _ _ (by omega)] at hbyte
  exact hbyte ▸ getElem_mem _

lemma Clean.congr (h : Clean buf t) (hsame : ∀ i, t ≤ i → buf' i = buf i) : Clean buf' t := by
  obtain ⟨i, hti, hi, hz, hno⟩ := h
  refine ⟨i, hti, hi, (hsame i hti).trans hz, fun j hj hji => ?_⟩
  rw [hsame j hj]
  exact hno j hj hji

/-- The bytes from `t` to the NUL that ends the search. -/
lemma Clean.stale (h : Clean buf t) : ∃ stale, IsLine stale ∧ At buf t (stale ++ [0]) ∧ t + stale.length < BUF := by
  obtain ⟨i, hti, hi, hz, hno⟩ := h
  have hlen : (slice buf t (i - t)).length = i - t := by simp [Bytes.slice]
  have hmem : ∀ b ∈ slice buf t (i - t), b ≠ 0 ∧ b ≠ newline := by
    intro b hb
    obtain ⟨j, hj, rfl⟩ := mem_map.mp hb
    have := mem_range.mp hj
    exact hno (t + j) (by omega) (by omega)
  refine ⟨slice buf t (i - t), ⟨fun h0 => (hmem 0 h0).1 rfl, fun hn => (hmem _ hn).2 rfl⟩, ?_, by omega⟩
  refine at_append.mpr ⟨at_slice _ _ _, fun j hj => ?_⟩
  obtain rfl : j = 0 := Nat.lt_one_iff.mp hj
  rw [hlen, show t + (i - t) + 0 = i by omega]
  exact hz

lemma isLine_append : IsLine (l ++ c) ↔ IsLine l ∧ IsLine c := by
  simp only [IsLine, mem_append, not_or]
  tauto

/-- What `m` is after a search of `n` bytes that met the lines `ls`. -/
def leftOver (n : Nat) (ls : List (List UInt8)) : Int := if ls = [] then 0 else n - (text ls).length

/-- A round of the outer loop in which the search meets the lines `ls`, and a NUL behind `tail`. -/
lemma refill_scan {m : Nat} (pattern : List UInt8) (out : List (List UInt8)) (hls : ∀ l ∈ ls, IsLine l)
    (htail : IsLine tail) (hat : At (fill buf m c) 0 (text ls ++ (tail ++ [0])))
    (hlen : (text ls).length + tail.length < BUF) :
    ∃ buf', refill pattern c m buf out = .ok (leftOver (m + c.length) ls,
        if ls = [] then buf' else umemmove 0 (text ls).length (m + c.length - (text ls).length) buf',
        out ++ matching pattern ls) ∧
      (∀ i, (text ls).length ≤ i → buf' i = fill buf m c i) ∧
      ((∀ l ∈ ls, matchText pattern l = true) → buf' = fill buf m c) := by
  have hcount := length_le_text ls
  obtain ⟨buf', hscan, hsame, hall⟩ :=
    scanLines_text pattern out hls htail hat (by omega) (k := BUF + 1) (by omega)
  rw [Nat.zero_add] at hscan hsame
  refine ⟨buf', ?_, hsame, hall⟩
  rw [refill, hscan, leftOver]
  by_cases hnil : ls = []
  · subst hnil
    rfl
  · have hpos : (text ls).length ≠ 0 := by
      have := length_pos_iff.mpr hnil
      omega
    rw [if_neg hnil, if_neg hnil]
    simp only [bind, Except.bind, if_neg hpos]
    rfl

/-- A round in which the search ends behind what was read. -/
lemma refill_text (pattern : List UInt8) (out : List (List UInt8)) (hls : ∀ l ∈ ls, IsLine l) (hne : ls ≠ [])
    (htail : IsLine tail) (hl : At buf 0 l) (hc : l ++ c = text ls ++ tail) (hclean : Clean buf (l ++ c).length) :
    ∃ buf', refill pattern c l.length buf out = .ok (tail.length, buf', out ++ matching pattern ls) ∧
      At buf' 0 tail ∧
      (∀ i, tail.length ≤ i → (text ls).length ≤ i → buf' i = fill buf l.length c i) ∧
      ((∀ l ∈ ls, matchText pattern l = true) → ∀ i, tail.length ≤ i → buf' i = fill buf l.length c i) := by
  have habove : ∀ i, (l ++ c).length ≤ i → fill buf l.length c i = buf i := by
    intro i hi
    exact fill_above (by rwa [← length_append])
  obtain ⟨stale, hstale, hat, hlen⟩ := (hclean.congr habove).stale
  have hat' : At (fill buf l.length c) 0 (text ls ++ (tail ++ stale ++ [0])) := by
    rw [append_assoc, ← append_assoc, ← hc]
    exact at_append.mpr ⟨fill_all hl, by rwa [Nat.zero_add]⟩
  have hsum := congrArg length hc
  simp only [length_append] at hsum hlen
  obtain ⟨buf', hrefill, hsame, hall⟩ := refill_scan pattern out hls (isLine_append.mpr ⟨htail, hstale⟩) hat'
    (by rw [length_append]; omega)
  have hmove : l.length + c.length - (text ls).length = tail.length := by omega
  have hm : ((l.length + c.length : Nat) : Int) - (text ls).length = tail.length := by omega
  have hmoved : Strings.Moved 0 (text ls).length tail.length buf' _ := copyUp_moved (by omega)
  rw [leftOver, if_neg hne, if_neg hne, hmove, hm] at hrefill
  refine ⟨_, hrefill, fun i hi => ?_, fun i hi hi' => ?_, fun hm i hi => ?_⟩
  · rw [umemmove, hmoved.moved i hi, hsame _ (Nat.le_add_right _ _)]
    have hthere := (at_append.mp (at_append.mp (at_append.mp hat').2).1).1 i hi
    rwa [Nat.zero_add] at hthere
  · rw [umemmove, hmoved.others i (.inr (by omega)), hsame i hi']
  · rw [umemmove, hmoved.others i (.inr (by omega)), hall hm]

/-- What a round leaves in the buffer: the beginning `l` of a line, and behind it places from which a search meets a
NUL first. From `ext` on it is as it was in the beginning. -/
structure Left (buf₀ buf : Mem) (ext p : Nat) (l : List UInt8) : Prop where
  here : At buf 0 l
  below : ∀ t, l.length ≤ t → p ≤ t → t < ext → Clean buf t
  above : ∀ i, ext ≤ i → buf i = buf₀ i

lemma Left.clean (h : Left buf₀ buf ext p l) (hl : l.length ≤ t) (hp : p ≤ t) (ht : t < ext ∨ Clean buf₀ t) :
    Clean buf t := by
  by_cases hext : t < ext
  · exact h.below t hl hp hext
  · exact (ht.resolve_left hext).congr fun i hi => h.above i (by omega)

lemma Left.next (h : Left buf₀ buf ext p l) (hp : p ≤ (l ++ c).length) (hclean : Clean buf (l ++ c).length)
    (htail : IsLine tail) (hc : l ++ c = text ls ++ tail) (hhere : At buf' 0 tail)
    (hsame : ∀ i, tail.length ≤ i → (text ls).length ≤ i → buf' i = fill buf l.length c i) :
    Left buf₀ buf' (max ext (l ++ c).length) (text ls).length tail := by
  have hsum := congrArg length hc
  simp only [length_append] at hsum hp hclean ⊢
  have habove : ∀ i, l.length + c.length ≤ i → buf' i = buf i := by
    intro i hi
    rw [hsame i (by omega) (by omega), fill_above hi]
  refine ⟨hhere, fun t ht hpt hlt => ?_, fun i hi => ?_⟩
  · by_cases hin : l.length + c.length ≤ t
    · have hold : Clean buf t := h.below t (by omega) (by omega) (by omega)
      exact hold.congr fun i hi => habove i (by omega)
    · -- From `t` to the end of what was read stands a part of `tail`.
      obtain ⟨i, hti, hi, hz, hno⟩ := hclean
      refine ⟨i, by omega, hi, (habove i hti).trans hz, fun j hj hji => ?_⟩
      by_cases hjin : l.length + c.length ≤ j
      · rw [habove j hjin]
        exact hno j hjin hji
      have htxt : At (fill buf l.length c) 0 (text ls ++ tail) := hc ▸ fill_all h.here
      have hmem : buf' j ∈ tail := by
        rw [hsame j (by omega) (by omega)]
        exact (at_append.mp htxt).2.mem (by omega) (by omega)
      exact ⟨fun h0 => htail.1 (h0 ▸ hmem), fun hn => htail.2 (hn ▸ hmem)⟩
  · rw [habove i (by omega), h.above i (by omega)]

/-- The round of `refill_text` in the outer loop. -/
lemma grepFrom_cons (hls : ∀ l ∈ ls, IsLine l) (hne : ls ≠ []) (htail : IsLine tail) (hc : c ≠ []) (hl : At buf 0 l)
    (hsplit : l ++ c = text ls ++ tail) (hclean : Clean buf (l ++ c).length) :
    ∃ buf', grepFrom pattern (k + 1) (c :: cs) l.length buf out =
        grepFrom pattern k cs tail.length buf' (out ++ matching pattern ls) ∧
      At buf' 0 tail ∧
      (∀ i, tail.length ≤ i → (text ls).length ≤ i → buf' i = fill buf l.length c i) ∧
      ((∀ l ∈ ls, matchText pattern l = true) → ∀ i, tail.length ≤ i → buf' i = fill buf l.length c i) := by
  obtain ⟨buf', hrefill, hframe⟩ := refill_text pattern out hls hne htail hl hsplit hclean
  have hgot : c.take (BUF - (l.length : Int).toNat) = c := by
    obtain ⟨i, hi, hi', -⟩ := hclean
    rw [length_append] at hi
    rw [Int.toNat_natCast]
    exact take_of_length_le (by omega)
  refine ⟨buf', ?_, hframe⟩
  rw [grepFrom, hgot, if_neg (by omega), if_neg hc, if_neg (by omega), Int.toNat_natCast, hrefill]
  rfl

lemma arrives_cons (hne : ls ≠ []) (htail : newline ∉ tail) (hsplit : l ++ c = text ls ++ tail) :
    Arrives buf ext p l (c :: cs) ↔ newline ∈ c ∧ p ≤ (l ++ c).length ∧
      ((l ++ c).length < ext ∨ Clean buf (l ++ c).length) ∧
      Arrives buf (max ext (l ++ c).length) (text ls).length tail cs := by
  have hlast : (l ++ c).length - tail.length = (text ls).length := by
    rw [hsplit, length_append, Nat.add_sub_cancel]
  rw [Arrives, show lastPart (l ++ c) = tail by rw [hsplit, lastPart_text hne htail], hlast]

lemma ne_nil_of_newline_mem (htail : newline ∉ tail) (hsplit : l ++ c = text ls ++ tail) (hmem : newline ∈ l ++ c) :
    ls ≠ [] := by
  rintro rfl
  rw [hsplit] at hmem
  exact htail hmem

lemma grepFrom_text (hls : ∀ l ∈ ls, IsLine l) (h : l ++ chunks.flatten = text ls) (hl : newline ∉ l)
    (ha : Arrives buf₀ ext p l chunks) (hleft : Left buf₀ buf ext p l) (hk : chunks.length < k) :
    grepFrom pattern k chunks l.length buf out = .ok (out ++ matching pattern ls) := by
  induction chunks generalizing l ls ext p buf out k with
  | nil =>
    obtain ⟨k, rfl⟩ := Nat.exists_eq_add_one_of_ne_zero (Nat.ne_zero_of_lt hk)
    cases ls with
    | nil => simp [grepFrom, matching]
    | cons x ls =>
      refine absurd ?_ hl
      rw [← append_nil l, ← flatten_nil, h, text_cons]
      simp
  | cons c cs ih =>
    obtain ⟨k, rfl⟩ := Nat.exists_eq_add_one_of_ne_zero (Nat.ne_zero_of_lt hk)
    rw [flatten_cons, ← append_assoc] at h
    obtain ⟨ls₁, ls₂, tail, rfl, hsplit, hrest, htail⟩ := exists_split hls h
    obtain ⟨hls₁, hls₂⟩ := forall_mem_append.mp hls
    have hne : ls₁ ≠ [] := ne_nil_of_newline_mem htail.2 hsplit (mem_append_right l ha.1)
    obtain ⟨hc, hp, hend, ha⟩ := (arrives_cons hne htail.2 hsplit).mp ha
    have hclean : Clean buf (l ++ c).length := hleft.clean (by simp) hp hend
    obtain ⟨buf', hround, hbuf', hsame, -⟩ :=
      grepFrom_cons hls₁ hne htail (ne_nil_of_mem hc) hleft.here hsplit hclean
    rw [hround, ih hls₂ hrest htail.2 ha (hleft.next hp hclean htail hsplit hbuf' hsame) (Nat.lt_of_succ_lt_succ hk)]
    simp [matching]

/-! ## What a run that writes the lines says about the chunks -/

lemma strchr_nul {b : UInt8} (h : strchr buf b k p = .ok none) : ∃ i, p ≤ i ∧ i < p + k ∧ buf i = 0 := by
  induction k generalizing p with
  | zero => cases h
  | succ k ih =>
    rw [strchr] at h
    split at h
    · exact ⟨p, by omega, by omega, ‹_›⟩
    split at h
    · cases h
    obtain ⟨i, hi, hi', hz⟩ := ih h
    exact ⟨i, by omega, by omega, hz⟩

lemma le_of_strchr {b : UInt8} {q : Nat} (h : strchr buf b k p = .ok (some q)) : p ≤ q := by
  induction k generalizing p with
  | zero => cases h
  | succ k ih =>
    rw [strchr] at h
    split at h
    · cases h
    split at h
    · cases h
      exact Nat.le_refl q
    · have := ih h
      omega

/-- A search that comes to an end does so at a NUL of the buffer, and only adds lines. -/
lemma scanLines_ok {s : Scan} (h : scanLines pattern k ⟨p, buf, out⟩ = .ok s) :
    (∃ i, p ≤ i ∧ i < BUF ∧ buf i = 0) ∧ out <+: s.out := by
  induction k generalizing p buf out with
  | zero => cases h
  | succ k ih =>
    rw [scanLines] at h
    cases hfound : strchr buf newline (BUF - p) p with
    | error e =>
      rw [hfound] at h
      cases h
    | ok found =>
      rw [hfound] at h
      cases found with
      | none =>
        cases h
        obtain ⟨i, hi, hi', hz⟩ := strchr_nul hfound
        exact ⟨⟨i, hi, by omega, hz⟩, prefix_refl out⟩
      | some q =>
        have hq := le_of_strchr hfound
        simp only [bind, Except.bind] at h
        split at h
        · obtain ⟨⟨i, hi, hi', hz⟩, hout⟩ := ih h
          exact ⟨⟨i, by omega, hi', hz⟩, (prefix_append out _).trans hout⟩
        · obtain ⟨⟨i, hi, hi', hz⟩, hout⟩ := ih h
          rw [Function.update_of_ne (by omega)] at hz
          exact ⟨⟨i, by omega, hi', hz⟩, hout⟩

lemma refill_ok {m : Nat} {r : Int × Mem × List (List UInt8)} (h : refill pattern c m buf out = .ok r) :
    (∃ i, i < BUF ∧ fill buf m c i = 0) ∧ out <+: r.2.2 := by
  rw [refill] at h
  cases hscan : scanLines pattern (BUF + 1) ⟨0, fill buf m c, out⟩ with
  | error e =>
    rw [hscan] at h
    cases h
  | ok s =>
    obtain ⟨⟨i, -, hi, hz⟩, hout⟩ := scanLines_ok hscan
    simp only [hscan, bind, Except.bind] at h
    refine ⟨⟨i, hi, hz⟩, ?_⟩
    split at h <;> cases h <;> exact hout

/-- What the outer loop goes on with. -/
lemma grepFrom_ok {m : Int} (h : grepFrom pattern (k + 1) (c :: cs) m buf out = .ok out')
    (hne : c.take (BUF - m.toNat) ≠ []) :
    0 ≤ m ∧ ∃ r, refill pattern (c.take (BUF - m.toNat)) m.toNat buf out = .ok r ∧
      grepFrom pattern k (if (c.take (BUF - m.toNat)).length < c.length then
        c.drop (c.take (BUF - m.toNat)).length :: cs else cs) r.1 r.2.1 r.2.2 = .ok out' := by
  rw [grepFrom] at h
  dsimp only at h
  split at h
  · cases h
  cases hr : refill pattern (c.take (BUF - m.toNat)) m.toNat buf out with
  | error e =>
    rw [hr] at h
    cases h
  | ok r =>
    rw [hr] at h
    exact ⟨by omega, r, rfl, h⟩

lemma grepFrom_adds {m : Int} (h : grepFrom pattern k chunks m buf out = .ok out') : out <+: out' := by
  induction k generalizing chunks m buf out with
  | zero => cases h
  | succ k ih =>
    cases chunks with
    | nil =>
      cases h
      exact prefix_refl _
    | cons c cs =>
      by_cases hne : c.take (BUF - m.toNat) = []
      · rw [grepFrom] at h
        dsimp only at h
        split at h
        · cases h
        · cases h
          exact prefix_refl _
      · obtain ⟨-, r, hr, hrest⟩ := grepFrom_ok h hne
        exact (refill_ok hr).2.trans (ih hrest)

/-- The loop does not go on behind the end of what was read. -/
lemma chunks_eq_nil {m : Int} (hm : m < 0) (h : grepFrom pattern k chunks m buf out = .ok out') : chunks = [] := by
  cases k with
  | zero => cases h
  | succ k =>
    cases chunks with
    | nil => rfl
    | cons c cs =>
      rw [grepFrom] at h
      dsimp only at h
      rw [if_pos hm] at h
      cases h

lemma exists_lines (h : 0 ∉ l) : ∃ ls tail, l = text ls ++ tail ∧ (∀ l ∈ ls, IsLine l) ∧ IsLine tail := by
  induction l with
  | nil => exact ⟨[], [], rfl, nofun, not_mem_nil, not_mem_nil⟩
  | cons b l ih =>
    obtain ⟨hb, h⟩ := not_or.mp (mem_cons.not.mp h)
    obtain ⟨ls, tail, rfl, hls, htail⟩ := ih h
    by_cases hn : b = newline
    · refine ⟨[] :: ls, tail, by rw [hn]; rfl, forall_mem_cons.mpr ⟨⟨not_mem_nil, not_mem_nil⟩, hls⟩, htail⟩
    have hone : IsLine [b] := ⟨by simpa using hb, by simpa using Ne.symm hn⟩
    cases ls with
    | nil => exact ⟨[], b :: tail, rfl, nofun, isLine_append.mpr ⟨hone, htail⟩⟩
    | cons x ls =>
      obtain ⟨hx, hls⟩ := forall_mem_cons.mp hls
      exact ⟨(b :: x) :: ls, tail, rfl, forall_mem_cons.mpr ⟨isLine_append.mpr ⟨hone, hx⟩, hls⟩, htail⟩

lemma count_text (hls : ∀ l ∈ ls, IsLine l) (htail : newline ∉ tail) :
    count newline (text ls ++ tail) = ls.length := by
  induction ls with
  | nil => exact count_eq_zero.mpr htail
  | cons l ls ih =>
    obtain ⟨hl, hls⟩ := forall_mem_cons.mp hls
    have hrest := ih hls
    rw [count_append] at hrest
    rw [text_cons, count_append, count_append, count_append, count_eq_zero.mpr hl.2, count_singleton_self,
      length_cons]
    omega

/-- The bytes up to the first NUL from `a` on. -/
lemma exists_nul_free {a i : Nat} (ha : a ≤ i) (hz : buf i = 0) :
    ∃ l, 0 ∉ l ∧ At buf a (l ++ [0]) ∧ a + l.length ≤ i := by
  have hex : ∃ i, a ≤ i ∧ buf i = 0 := ⟨i, ha, hz⟩
  have hfirst := Nat.find_spec hex
  have hle : Nat.find hex ≤ i := Nat.find_min' hex ⟨ha, hz⟩
  have hlen : (slice buf a (Nat.find hex - a)).length = Nat.find hex - a := by simp [Bytes.slice]
  refine ⟨slice buf a (Nat.find hex - a), fun hmem => ?_, at_append.mpr ⟨at_slice _ _ _, fun j hj => ?_⟩, by omega⟩
  · obtain ⟨j, hj, hjz⟩ := mem_map.mp hmem
    have := mem_range.mp hj
    exact Nat.find_min hex (m := a + j) (by omega) ⟨Nat.le_add_right _ _, hjz⟩
  · obtain rfl : j = 0 := Nat.lt_one_iff.mp hj
    rw [hlen, Nat.add_sub_cancel' hfirst.1]
    exact hfirst.2

/-- A search goes over `l` and the old bytes `stale` behind it up to a NUL. It meets the lines `ls`. -/
structure Searched (buf : Mem) (l stale : List UInt8) (ls : List (List UInt8)) (tail : List UInt8) : Prop where
  split : l ++ stale = text ls ++ tail
  lines : ∀ l ∈ ls, IsLine l
  isLine : IsLine tail
  stop : At buf l.length (stale ++ [0])
  room : l.length + stale.length < BUF

/-- A round of a run that returns: the chunk was read as a whole, and the search came to an end. -/
lemma grepFrom_round (hbuf : At buf 0 l) (hnul : 0 ∉ l ++ c) (hl : l.length < BUF) (hc : c ≠ [])
    (hrun : grepFrom pattern (k + 1) (c :: cs) l.length buf out = .ok out') :
    ∃ stale ls tail buf', Searched buf (l ++ c) stale ls tail ∧
      grepFrom pattern k cs (leftOver (l ++ c).length ls) buf' (out ++ matching pattern ls) = .ok out' := by
  have hroom : 0 < BUF - (l.length : Int).toNat := by
    rw [Int.toNat_natCast]
    omega
  have hgot : c.take (BUF - (l.length : Int).toNat) ≠ [] := by
    rw [Ne, take_eq_nil_iff]
    exact fun h => h.elim (by omega) hc
  obtain ⟨-, r, hr, hrest⟩ := grepFrom_ok hrun hgot
  rw [Int.toNat_natCast] at hr hrest
  -- The bytes that were read are not NUL, so there is room behind them.
  obtain ⟨⟨i, hi, hz⟩, -⟩ := refill_ok hr
  have hbehind : l.length + (c.take (BUF - l.length)).length ≤ i := by
    by_contra hlt
    have hmem := (fill_all (c := c.take (BUF - l.length)) hbuf).mem (Nat.zero_le i)
      (by rw [length_append]; omega)
    rw [hz] at hmem
    exact hnul (mem_append.mpr ((mem_append.mp hmem).imp id mem_of_mem_take))
  have hshort : c.length < BUF - l.length := by
    rw [length_take] at hbehind
    omega
  rw [take_of_length_le (Nat.le_of_lt hshort)] at hr hrest hbehind hz
  rw [if_neg (by omega)] at hrest
  rw [fill_above hbehind] at hz
  rw [← length_append] at hbehind
  obtain ⟨stale, hsnul, hsat, hfound⟩ := exists_nul_free hbehind hz
  obtain ⟨ls, tail, hsplit, hls, htail⟩ := exists_lines (l := l ++ c ++ stale) (by simp_all)
  have hsum : (l ++ c).length + stale.length = (text ls).length + tail.length := by
    simpa only [length_append] using congrArg length hsplit
  have hat : At (fill buf l.length c) 0 (text ls ++ (tail ++ [0])) := by
    rw [← append_assoc, ← hsplit, append_assoc]
    refine at_append.mpr ⟨fill_all hbuf, fun j hj => ?_⟩
    rw [fill_above (by simp only [length_append]; omega), Nat.zero_add]
    exact hsat j hj
  obtain ⟨buf', hrefill, -⟩ := refill_scan pattern out hls htail hat (by omega)
  rw [hrefill] at hr
  cases hr
  rw [← length_append] at hrest
  exact ⟨stale, ls, tail, _, ⟨hsplit, hls, htail, hsat, by omega⟩, hrest⟩

lemma text_eq_nil (h : newline ∉ l) (hsplit : l = text ls ++ tail) : ls = [] := by
  cases ls with
  | nil => rfl
  | cons x ls =>
    rw [hsplit, text_cons] at h
    simp at h

lemma nul_notMem_text (hls : ∀ l ∈ ls, IsLine l) : 0 ∉ text ls := by
  intro h
  obtain ⟨l, hl, h⟩ := mem_flatMap.mp h
  exact (mem_append.mp h).elim (hls l hl).1 (by decide)

/-- If the last newline is in `rest`, the lines end in it. -/
lemma lt_length_text {a : List UInt8} (hmem : newline ∈ rest) (htail : newline ∉ tail)
    (hsplit : a ++ rest = text ls ++ tail) : a.length < (text ls).length := by
  by_contra hle
  rcases append_eq_append_iff.mp hsplit with ⟨b, hb, rfl⟩ | ⟨b, rfl, rfl⟩
  · obtain rfl : b = [] := by
      have := congrArg length hb
      rw [length_append] at this
      exact eq_nil_of_length_eq_zero (by omega)
    exact htail (by simpa using hmem)
  · exact htail (mem_append_right b hmem)

lemma matchText_nil (l : List UInt8) : matchText [] l = true := by cases l <;> rfl

lemma matching_all (ls : List (List UInt8)) : matching [] ls = ls.map (· ++ [newline]) := by
  rw [matching, filter_eq_self.mpr fun l _ => matchText_nil l]

/-- The first line of `t`, without its end. -/
def firstLine (t : List UInt8) : List UInt8 := t.takeWhile (· ≠ newline)

lemma firstLine_append_of_notMem (h : newline ∉ l) (c : List UInt8) : firstLine (l ++ c) = l ++ firstLine c := by
  refine takeWhile_append_of_pos fun b hb => ?_
  rw [decide_eq_true_iff]
  rintro rfl
  exact h hb

lemma firstLine_append_of_mem (h : newline ∈ l) (c : List UInt8) : firstLine (l ++ c) = firstLine l := by
  induction l with
  | nil => cases h
  | cons b l ih =>
    by_cases hb : b = newline
    · simp [firstLine, hb]
    · have hl : newline ∈ l := (mem_cons.mp h).resolve_left (Ne.symm hb)
      simpa [firstLine, hb] using ih hl

lemma firstLine_text (hl : newline ∉ l) : firstLine (text (l :: ls) ++ tail) = l := by
  rw [text_cons, append_assoc, append_assoc, firstLine_append_of_notMem hl]
  simp [firstLine]

lemma Searched.ne_nil (h : Searched buf l c ls tail) (hc : newline ∈ l ++ c) : ls ≠ [] :=
  ne_nil_of_newline_mem h.isLine.2 h.split hc

lemma Searched.eq_nil (h : Searched buf l c ls tail) (hl : newline ∉ l) (hc : newline ∉ c) : ls = [] :=
  text_eq_nil (fun hmem => (mem_append.mp hmem).elim hl hc) h.split

/-- After a search that met a newline behind what was read the loop can only end. -/
lemma Searched.last (h : Searched buf l c ls tail) (hc : newline ∈ c)
    (hgo : grepFrom pattern k cs (leftOver l.length ls) buf' out = .ok out') : cs = [] := by
  have hlt := lt_length_text hc h.isLine.2 h.split
  rw [leftOver, if_neg (h.ne_nil (mem_append_right l hc))] at hgo
  exact chunks_eq_nil (by omega) hgo

/-- The first line that is written is not longer than the first line of the input. -/
lemma first_line_le {y : List UInt8} {ys : List (List UInt8)} (hbuf : At buf 0 l) (hlen : l.length < BUF)
    (hchunks : ∀ c ∈ chunks, c ≠ []) (hnul : 0 ∉ l ++ chunks.flatten) (hmem : newline ∈ chunks.flatten)
    (hrun : grepFrom [] k chunks l.length buf out = .ok (out ++ y :: ys)) :
    y.length ≤ (firstLine (l ++ chunks.flatten)).length + 1 := by
  induction chunks generalizing l k buf with
  | nil => cases hmem
  | cons c cs ih =>
    obtain ⟨hc, hchunks⟩ := forall_mem_cons.mp hchunks
    rw [flatten_cons, ← append_assoc] at hnul ⊢
    rw [flatten_cons] at hmem
    have hnul' : 0 ∉ l ++ c := fun hmem => hnul (mem_append_left _ hmem)
    cases k with
    | zero => cases hrun
    | succ k =>
      obtain ⟨stale, ls, tail, buf', hround, hgo⟩ := grepFrom_round hbuf hnul' hlen hc hrun
      by_cases hin : newline ∈ l ++ c
      · -- The first line of the input is the first that the search meets.
        obtain ⟨x, ls, rfl⟩ := exists_cons_of_ne_nil (hround.ne_nil (mem_append_left stale hin))
        have hx : firstLine (l ++ c ++ cs.flatten) = x := by
          rw [firstLine_append_of_mem hin, ← firstLine_append_of_mem hin stale, hround.split,
            firstLine_text (hround.lines x mem_cons_self).2]
        have hadds := grepFrom_adds hgo
        rw [matching_all, map_cons, prefix_append_right_inj] at hadds
        obtain rfl : x ++ [newline] = y := (cons_prefix_cons.mp hadds).1
        rw [hx, length_append, length_singleton]
      have hin' : newline ∈ cs.flatten := (mem_append.mp hmem).resolve_left fun h => hin (mem_append_right l h)
      by_cases hstale : newline ∈ stale
      · rw [hround.last hstale hgo] at hin'
        cases hin'
      · -- The chunk is dropped.
        rw [leftOver, hround.eq_nil hin hstale, if_pos rfl, matching_all, map_nil, append_nil] at hgo
        have hle := ih (l := []) nofun (by decide) hchunks (fun hz => hnul (mem_append_right _ hz)) hin' hgo
        rw [firstLine_append_of_notMem hin, length_append]
        exact Nat.le_trans hle (by simp)

section

variable {stale : List UInt8} {ls' : List (List UInt8)} (hround : Searched buf l stale ls' tail)
  (hls : ∀ l ∈ ls, IsLine l) (h : l ++ cs.flatten = text ls)
  (hgo : grepFrom [] k cs (leftOver l.length ls') buf' (out ++ matching [] ls') = .ok (out ++ matching [] ls))
include hround hls h hgo

/-- If the lines are written, none of them was dropped: there is a newline in what the search went over. -/
lemma Searched.newline_mem (hne : l ≠ []) (hchunks : ∀ c ∈ cs, c ≠ []) : newline ∈ l := by
  by_contra hno
  cases ls with
  | nil => exact hne (append_eq_nil_iff.mp h).1
  | cons x ls =>
    have hmem : newline ∈ l ++ cs.flatten := by
      rw [h, text_cons]
      simp
    have hmem' := (mem_append.mp hmem).resolve_left hno
    have hnul : 0 ∉ l ++ cs.flatten := h ▸ nul_notMem_text hls
    have hstale : newline ∉ stale := by
      intro hstale
      rw [hround.last hstale hgo] at hmem'
      cases hmem'
    rw [leftOver, hround.eq_nil hno hstale, if_pos rfl, matching_all, matching_all, map_nil, append_nil,
      map_cons] at hgo
    have hnul' : 0 ∉ cs.flatten := fun h0 => hnul (mem_append_right _ h0)
    have hle := first_line_le (l := []) nofun (by decide) hchunks hnul' hmem' hgo
    have hx : l ++ firstLine cs.flatten = x := by
      rw [← firstLine_append_of_notMem hno, h, ← append_nil (text _), firstLine_text (hls x mem_cons_self).2]
    have hpos := length_pos_iff.mpr hne
    rw [← hx] at hle
    simp only [length_append, length_singleton, nil_append] at hle
    omega

/-- If the lines are written, none of them came from behind what was read. -/
lemma Searched.clean : Clean buf l.length := by
  have hstale : newline ∉ stale := by
    intro hstale
    obtain rfl := hround.last hstale hgo
    cases k with
    | zero => cases hgo
    | succ k =>
      rw [grepFrom, Except.ok.injEq, append_cancel_left_eq, matching_all, matching_all] at hgo
      have hlines := congrArg length hgo
      have hcount := count_text hround.lines hround.isLine.2
      have hcount' := count_text hls not_mem_nil
      rw [append_nil, ← h, flatten_nil, append_nil] at hcount'
      rw [← hround.split, count_append] at hcount
      rw [length_map, length_map] at hlines
      have := count_pos_iff.mpr hstale
      omega
  have hsnul : 0 ∉ stale := by
    intro h0
    have hmem : 0 ∈ text ls' ++ tail := hround.split ▸ mem_append_right _ h0
    exact (mem_append.mp hmem).elim (nul_notMem_text hround.lines) hround.isLine.1
  obtain ⟨hat, hz⟩ := at_append.mp hround.stop
  refine ⟨l.length + stale.length, Nat.le_add_right _ _, hround.room, hz 0 (by simp), fun j hj hjs => ?_⟩
  have hmem := hat.mem hj hjs
  exact ⟨fun hj => hsnul (hj ▸ hmem), fun hj => hstale (hj ▸ hmem)⟩

end

/-- With lines that all match, a search from a place in the lines of the last round meets a newline. -/
lemma not_clean (hls : ∀ l ∈ ls, IsLine l) (hat : At buf 0 (text ls ++ tail))
    (hsame : ∀ i, tail.length ≤ i → buf' i = buf i) (ht : tail.length ≤ t) (htp : t < (text ls).length) :
    ¬Clean buf' t := by
  rintro ⟨i, hti, hi, hz, hno⟩
  by_cases hend : i < (text ls).length
  · have hmem := (at_append.mp hat).1.mem (Nat.zero_le i) (by omega)
    rw [← hsame i (by omega), hz] at hmem
    exact nul_notMem_text hls hmem
  · obtain ⟨ls, l, rfl⟩ := (eq_nil_or_concat' ls).resolve_left (by rintro rfl; simp [text] at htp)
    have htext : text (ls ++ [l]) = text ls ++ l ++ [newline] := by simp [text]
    refine (hno ((text (ls ++ [l])).length - 1) (by omega) (by omega)).2 ?_
    have hlast := (at_append.mp (htext ▸ (at_append.mp hat).1)).2 0 (by simp)
    rw [hsame _ (by omega), htext, length_append, length_singleton, Nat.add_sub_cancel]
    simpa using hlast

/-- A run with a pattern that matches every line writes the lines only if the chunks arrive as `Arrives` says. -/
lemma arrives_of_grepFrom (hls : ∀ l ∈ ls, IsLine l) (hchunks : ∀ c ∈ chunks, c ≠ [])
    (h : l ++ chunks.flatten = text ls) (hl : newline ∉ l) (hlen : l.length < BUF) (hleft : Left buf₀ buf ext p l)
    (hdirty : ∀ t, l.length ≤ t → t < p → ¬Clean buf t)
    (hrun : grepFrom [] k chunks l.length buf out = .ok (out ++ matching [] ls)) : Arrives buf₀ ext p l chunks := by
  induction chunks generalizing l ls ext p buf out k with
  | nil => trivial
  | cons c cs ih =>
    obtain ⟨hc, hchunks⟩ := forall_mem_cons.mp hchunks
    rw [flatten_cons, ← append_assoc] at h
    have hnul : 0 ∉ l ++ c ++ cs.flatten := h ▸ nul_notMem_text hls
    cases k with
    | zero => cases hrun
    | succ k =>
      obtain ⟨stale, ls', tail', buf', hround, hgo⟩ :=
        grepFrom_round hleft.here (fun h0 => hnul (mem_append_left _ h0)) hlen hc hrun
      have hin := hround.newline_mem hls h hgo (append_ne_nil_of_right_ne_nil l hc) hchunks
      have hclean := hround.clean hls h hgo
      have hp : p ≤ (l ++ c).length := by
        by_contra hlt
        exact hdirty _ (by simp) (by omega) hclean
      have hend : (l ++ c).length < ext ∨ Clean buf₀ (l ++ c).length :=
        or_iff_not_imp_left.mpr fun hext => hclean.congr fun i hi => (hleft.above i (by omega)).symm
      obtain ⟨ls₁, ls₂, tail, rfl, hsplit, hrest, htail⟩ := exists_split hls h
      obtain ⟨hls₁, hls₂⟩ := forall_mem_append.mp hls
      have hne : ls₁ ≠ [] := ne_nil_of_newline_mem htail.2 hsplit hin
      have hin' : newline ∈ c := (mem_append.mp hin).resolve_left hl
      refine (arrives_cons hne htail.2 hsplit).mpr ⟨hin', hp, hend, ?_⟩
      obtain ⟨buf₁, hcons, hbuf₁, hsame, hall⟩ := grepFrom_cons hls₁ hne htail hc hleft.here hsplit hclean
      have hrun' : grepFrom [] k cs tail.length buf₁ (out ++ matching [] ls₁) =
          .ok (out ++ matching [] ls₁ ++ matching [] ls₂) := by
        rw [← hcons, hrun]
        simp [matching]
      have hlen' : tail.length < BUF := by
        have := congrArg length hsplit
        obtain ⟨i, hi, hi', -⟩ := hclean
        simp only [length_append] at this hi
        omega
      refine ih hls₂ hchunks hrest htail.2 hlen' (hleft.next hp hclean htail hsplit hbuf₁ hsame) ?_ hrun'
      intro t ht htp
      exact not_clean hls₁ (hsplit ▸ fill_all hleft.here) (hall fun l _ => matchText_nil l) ht htp

end Xv6.Grep
