import Mathlib.Data.List.GetD
import Mathlib.Data.List.TakeWhile
import Xv6.Lib.Outcome
import Xv6.Shell

/-!
# The tokens of a line

`Spells` says how tokens are spelled, and is independent of the scanner.
-/

namespace Xv6.Shell

open List

inductive Token where
  | word (w : List UInt8)
  | bar
  | lparen
  | rparen
  | semi
  | amp
  | lt
  | gt
  | gtgt
deriving DecidableEq

namespace Token

def text : Token → List UInt8
  | word w => w
  | bar => chars "|"
  | lparen => chars "("
  | rparen => chars ")"
  | semi => chars ";"
  | amp => chars "&"
  | lt => chars "<"
  | gt => chars ">"
  | gtgt => chars ">>"

/-- A word is a maximal run of characters, and `>` is not the first half of `>>`. -/
def Ends : Token → List UInt8 → Prop
  | word w, rest => w ≠ [] ∧ (∀ c ∈ w, isWord c = true) ∧ ∀ c ∈ rest.head?, isWord c = false
  | gt, rest => rest.head? ≠ some (chr '>')
  | _, _ => True

/-- What `gettoken` returns for it. -/
def code : Token → UInt8
  | word _ => chr 'a'
  | bar => chr '|'
  | lparen => chr '('
  | rparen => chr ')'
  | semi => chr ';'
  | amp => chr '&'
  | lt => chr '<'
  | gt => chr '>'
  | gtgt => chr '+'

def first : Token → Option UInt8
  | word _ => none
  | gtgt => some (chr '>')
  | t => some t.code

lemma first_text {t : Token} {c : UInt8} (h : t.first = some c) (l : List UInt8) :
    c ≠ 0 ∧ (t.text ++ l).headD 0 = c := by
  cases t with
  | word w => cases h
  | _ =>
    cases h
    exact ⟨by decide, rfl⟩

end Token

/-- The tokens that a text spells, with white space between them at will. -/
inductive Spells : List UInt8 → List Token → Prop
  | nil : Spells [] []
  | space {c : UInt8} {l : List UInt8} {ts : List Token} : isSpace c = true → Spells l ts → Spells (c :: l) ts
  | token {l : List UInt8} {t : Token} {ts : List Token} : t.Ends l → Spells l ts → Spells (t.text ++ l) (t :: ts)

namespace Spells

variable {l : List UInt8} {t : Token} {ts : List Token}

lemma dropSpaces (h : Spells l ts) : Spells (l.dropWhile isSpace) ts := by
  induction h with
  | nil => exact nil
  | space hc hrest ih =>
    rw [dropWhile_cons_of_pos hc]
    exact ih
  | @token l t ts hends hrest ih =>
    have hhead : (t.text ++ l).dropWhile isSpace = t.text ++ l := by
      cases t with
      | word w =>
        obtain ⟨hne, hw, -⟩ := hends
        obtain ⟨c, w, rfl⟩ := exists_cons_of_ne_nil hne
        have hc : isWord c = true := hw c mem_cons_self
        have hspace : ¬isSpace c = true := by
          intro hs
          rw [isWord, show whitespace.contains c = true from hs] at hc
          cases hc
        exact dropWhile_cons_of_neg hspace
      | _ => rfl
    rw [hhead]
    exact token hends hrest

lemma head (h : Spells l ts) (hl : l.dropWhile isSpace = l) :
    (l = [] ∧ ts = []) ∨ ∃ t ts' l', ts = t :: ts' ∧ l = t.text ++ l' ∧ t.Ends l' ∧ Spells l' ts' := by
  cases h with
  | nil => exact .inl ⟨rfl, rfl⟩
  | @space c l ts hc hrest =>
    rw [dropWhile_cons_of_pos hc] at hl
    have hlen := congrArg List.length hl
    have hle := (dropWhile_suffix (l := l) isSpace).length_le
    rw [length_cons] at hlen
    omega
  | @token l t ts hends hrest => exact .inr ⟨t, ts, l, rfl, rfl, hends, hrest⟩

lemma text_ne_nil (h : t.Ends l) : t.text ≠ [] := by
  cases t with
  | word w => exact h.1
  | _ => exact cons_ne_nil _ _

lemma length_le (h : Spells l ts) : ts.length ≤ l.length := by
  induction h with
  | nil => exact Nat.le_refl 0
  | space hc hrest ih => exact Nat.le_succ_of_le ih
  | token hends hrest ih =>
    have := length_pos_iff.mpr (text_ne_nil hends)
    rw [length_cons, length_append]
    omega

lemma total (l : List UInt8) : ∃ ts, Spells l ts := by
  induction hn : l.length using Nat.strongRecOn generalizing l with
  | ind n ih =>
    cases l with
    | nil => exact ⟨[], nil⟩
    | cons c l =>
      have hrest : ∀ l' : List UInt8, l'.length ≤ l.length → ∃ ts, Spells l' ts := by
        intro l' hl
        exact ih l'.length (by rw [← hn, length_cons]; omega) l' rfl
      obtain ⟨ts, hts⟩ := hrest l (Nat.le_refl _)
      have hsym : ∀ t : Token, t.text = [c] → t.Ends l → ∃ ts, Spells (c :: l) ts := by
        intro t ht hends
        refine ⟨t :: ts, ?_⟩
        have := token hends hts
        rwa [ht] at this
      by_cases hs : isSpace c = true
      · exact ⟨ts, space hs hts⟩
      by_cases hw : isWord c = true
      · -- a word: all the characters up to the first that belongs to none
        have hsplit : c :: l = (c :: l).takeWhile isWord ++ (c :: l).dropWhile isWord :=
          takeWhile_append_dropWhile.symm
        have hends : Token.Ends (.word ((c :: l).takeWhile isWord)) ((c :: l).dropWhile isWord) := by
          refine ⟨?_, fun d hd => mem_takeWhile_imp hd, ?_⟩
          · rw [takeWhile_cons_of_pos hw]
            exact cons_ne_nil _ _
          intro d hd
          have := List.head?_dropWhile_not isWord (c :: l)
          rw [hd] at this
          simpa using this
        have hle : ((c :: l).dropWhile isWord).length ≤ l.length := by
          rw [dropWhile_cons_of_pos hw]
          exact (dropWhile_suffix isWord).length_le
        obtain ⟨ts', hts'⟩ := hrest _ hle
        rw [hsplit]
        exact ⟨_, token hends hts'⟩
      · have hmem : c ∈ symbols := by
          have hs' : c ∉ whitespace := by simpa [isSpace] using hs
          by_contra hc
          exact hw (by simp [isWord, hs', hc])
        have hsymbols : symbols = [chr '<', chr '|', chr '>', chr '&', chr ';', chr '(', chr ')'] := by decide
        rw [hsymbols] at hmem
        by_cases hgt : c = chr '>' ∧ l.head? = some (chr '>')
        · obtain ⟨rfl, hhead⟩ := hgt
          obtain ⟨l', rfl⟩ := List.head?_eq_some_iff.mp hhead
          obtain ⟨ts', hts'⟩ := hrest l' (Nat.le_succ _)
          exact ⟨_, token (t := .gtgt) trivial hts'⟩
        simp only [mem_cons, not_mem_nil, or_false] at hmem
        rcases hmem with rfl | rfl | rfl | rfl | rfl | rfl | rfl
        · exact hsym .lt rfl trivial
        · exact hsym .bar rfl trivial
        · exact hsym .gt rfl (fun hhead => hgt ⟨rfl, hhead⟩)
        · exact hsym .amp rfl trivial
        · exact hsym .semi rfl trivial
        · exact hsym .lparen rfl trivial
        · exact hsym .rparen rfl trivial

end Spells

/-! ## The scanner -/

variable {line : List UInt8} {s : Nat} {t : Token} {ts : List Token}

lemma deref_add (line : List UInt8) (s i : Nat) : deref line (s + i) = (line.drop s).getD i 0 := by
  rw [deref, List.getD_eq_getElem?_getD, List.getD_eq_getElem?_getD, List.getElem?_drop]

lemma deref_eq (line : List UInt8) (s : Nat) : deref line s = (line.drop s).headD 0 := by
  rw [← Nat.add_zero s, deref_add, Nat.add_zero]
  cases line.drop s <;> rfl

lemma scan_eq (line : List UInt8) (p : UInt8 → Bool) (s : Nat) :
    scan line p (line.length - s) s = s + ((line.drop s).takeWhile p).length := by
  induction hk : line.length - s generalizing s with
  | zero =>
    rw [drop_eq_nil_of_le (by omega)]
    rfl
  | succ k ih =>
    have hlt : s < line.length := by omega
    have hdrop : line.drop s = deref line s :: line.drop (s + 1) := by
      rw [deref, getD_eq_getElem _ _ hlt]
      exact drop_eq_getElem_cons hlt
    rw [scan, hdrop]
    by_cases hp : p (deref line s) = true
    · rw [if_pos ⟨hlt, hp⟩, ih (s + 1) (by omega), takeWhile_cons_of_pos hp, length_cons]
      omega
    · rw [if_neg (fun hc => hp hc.2), takeWhile_cons_of_neg hp]
      rfl

lemma drop_skip (line : List UInt8) (s : Nat) : line.drop (skip line s) = (line.drop s).dropWhile isSpace := by
  have hdrop : ((line.drop s).takeWhile isSpace ++ (line.drop s).dropWhile isSpace).drop
      ((line.drop s).takeWhile isSpace).length = (line.drop s).dropWhile isSpace := drop_left
  rw [takeWhile_append_dropWhile, drop_drop] at hdrop
  rw [skip, scan_eq, hdrop]

lemma skip_le (h : s ≤ line.length) : skip line s ≤ line.length := by
  have hlen := ( takeWhile_prefix (l := line.drop s) isSpace).length_le
  rw [skip, scan_eq]
  rw [length_drop] at hlen
  omega

/-- The parser is at `s`, and the rest of the line spells `ts`. -/
structure At (line : List UInt8) (ts : List Token) (s : Nat) : Prop where
  le : s ≤ line.length
  spells : Spells (line.drop s) ts

/-- The pointers of a token delimit the word `w`. -/
structure Word (line : List UInt8) (p : Span) (w : List UInt8) : Prop where
  text : line.drop p.q = w ++ line.drop p.eq
  eq : p.eq = p.q + w.length
  le : p.eq ≤ line.length
  chars : ∀ c ∈ w, isWord c = true
  ends : p.eq < line.length → isWord (deref line p.eq) = false

lemma At.skip (h : At line ts s) : At line ts (skip line s) := by
  refine ⟨skip_le h.le, ?_⟩
  rw [drop_skip]
  exact h.spells.dropSpaces

lemma drop_skip_self (line : List UInt8) (s : Nat) :
    (line.drop (skip line s)).dropWhile isSpace = line.drop (skip line s) := by
  rw [drop_skip]
  exact dropWhile_eq_self_iff.mpr (dropWhile_get_zero_not isSpace _)

lemma At.head (h : At line ts s) :
    (Shell.skip line s = line.length ∧ ts = []) ∨
    ∃ t ts' l', ts = t :: ts' ∧ line.drop (Shell.skip line s) = t.text ++ l' ∧ t.Ends l' ∧ Spells l' ts' := by
  rcases h.skip.spells.head (drop_skip_self line s) with ⟨hnil, hts⟩ | hcons
  · left
    have := drop_eq_nil_iff.mp hnil
    have := h.skip.le
    exact ⟨by omega, hts⟩
  · exact .inr hcons

lemma drop_add_length {q : Nat} {l l' : List UInt8} (h : line.drop q = l ++ l') :
    line.drop (q + l.length) = l' := by
  rw [← drop_drop, h, drop_left]

lemma add_length_le {q : Nat} {l l' : List UInt8} (hq : q ≤ line.length) (h : line.drop q = l ++ l') :
    q + l.length ≤ line.length := by
  have hlen := congrArg List.length h
  rw [length_drop, length_append] at hlen
  omega

lemma subset_symbols {toks : String} (h : (chars toks).all (symbols.contains ·) = true) :
    ∀ c ∈ chars toks, c ∈ symbols := by
  simpa using h

lemma switchToken_eq {q : Nat} {l : List UInt8} (h0 : 0 ∉ line) (h : line.drop q = t.text ++ l)
    (hends : t.Ends l) : switchToken line q = (t.code, q + t.text.length) := by
  have hchar := deref_eq line q
  have hnext := deref_add line q 1
  rw [h] at hchar hnext
  cases t with
  | word w =>
    obtain ⟨hne, hw, hl⟩ := hends
    obtain ⟨c, w, rfl⟩ := exists_cons_of_ne_nil hne
    have hc : isWord c = true := hw c mem_cons_self
    have hderef : deref line q = c := hchar
    have hc0 : c ≠ 0 := by
      rintro rfl
      apply h0
      have hmem : (0 : UInt8) ∈ line.drop q := by
        rw [h]
        exact mem_cons_self
      exact mem_of_mem_drop hmem
    have hsym : c ∉ symbols := by
      intro hmem
      simp [isWord, hmem] at hc
    have hone : c ∉ Shell.chars "|();&<" := by
      intro hmem
      exact hsym (subset_symbols rfl c hmem)
    have hgt : c ≠ chr '>' := by
      intro hc
      exact hsym (hc ▸ by decide)
    have hscan : (line.drop q).takeWhile isWord = c :: w := by
      rw [h, Token.text, takeWhile_append_of_pos hw]
      cases l with
      | nil => exact append_nil _
      | cons d l =>
        have hd : ¬isWord d = true := by
          rw [hl d rfl]
          exact Bool.false_ne_true
        rw [takeWhile_cons_of_neg hd, append_nil]
    simp only [switchToken, hderef, if_neg hc0, if_neg hone, if_neg hgt, scan_eq, hscan]
    rfl
  | gt =>
    have hderef : deref line q = chr '>' := hchar
    have hne : deref line (q + 1) ≠ chr '>' := by
      rw [hnext]
      cases l with
      | nil => decide
      | cons d l =>
        intro hd
        exact hends (congrArg some hd)
    simp only [switchToken, hderef, if_neg hne]
    rfl
  | gtgt =>
    have hderef : deref line q = chr '>' := hchar
    have hsecond : deref line (q + 1) = chr '>' := hnext
    simp only [switchToken, hderef, if_pos hsecond]
    rfl
  | _ =>
    rw [(Token.first_text rfl l).2] at hchar
    simp only [switchToken, hchar]
    rfl

section

variable {α : Type} {Q : α → Nat → Prop} {E : Stop → Prop}

lemma gettoken_bind {f : Tok → Parser α} (h0 : 0 ∉ line) (h : At line (t :: ts) s)
    (hf : ∀ p s', At line ts s' → (∀ w, t = .word w → Word line p w) → Ensures (f ⟨t.code, p⟩) s' Q E) :
    Ensures (gettoken line >>= f) s Q E := by
  rcases h.head with ⟨-, hnil⟩ | ⟨t', ts', l, hcons, hdrop, hends, hrest⟩
  · cases hnil
  obtain ⟨rfl, rfl⟩ := List.cons.inj hcons
  have hswitch := switchToken_eq h0 hdrop hends
  have hle := add_length_le h.skip.le hdrop
  have hafter := drop_add_length hdrop
  have hat : At line ts (skip line s + t.text.length) := ⟨hle, hafter ▸ hrest⟩
  have hget : gettoken line s = .ok ⟨t.code, ⟨skip line s, skip line s + t.text.length⟩⟩
      (skip line (skip line s + t.text.length)) := by
    simp only [gettoken, hswitch]
  have hword : ∀ w, t = .word w → Word line ⟨skip line s, skip line s + t.text.length⟩ w := by
    rintro w rfl
    refine ⟨hafter ▸ hdrop, rfl, hle, hends.2.1, ?_⟩
    intro hlt
    rw [deref_eq, hafter]
    cases l with
    | nil =>
      have := drop_eq_nil_iff.mp hafter
      exact absurd hlt (Nat.not_lt.mpr this)
    | cons d l => exact hends.2.2 d rfl
  have hbind : (gettoken line >>= f) s = f ⟨t.code, ⟨skip line s, skip line s + t.text.length⟩⟩
      (skip line (skip line s + t.text.length)) := by
    simp only [Bind.bind, EStateM.bind, hget]
  have hres := hf _ _ hat.skip hword
  exact ⟨fun a s' ha => hres.of_ok a s' (hbind ▸ ha), fun e s' he => hres.of_error e s' (hbind ▸ he)⟩

lemma gettoken_bind_nil {f : Tok → Parser α} (h : At line [] s)
    (hf : ∀ p s', At line [] s' → Ensures (f ⟨0, p⟩) s' Q E) : Ensures (gettoken line >>= f) s Q E := by
  rcases h.head with ⟨hend, -⟩ | ⟨t', ts', l, hcons, -⟩
  · have hderef : deref line line.length = 0 := by simp [deref]
    have hget : gettoken line s = .ok ⟨0, ⟨skip line s, skip line s⟩⟩ (skip line (skip line s)) := by
      simp only [gettoken, switchToken, hend, hderef]
      rfl
    have hbind : (gettoken line >>= f) s = f ⟨0, ⟨skip line s, skip line s⟩⟩ (skip line (skip line s)) := by
      simp only [Bind.bind, EStateM.bind, hget]
    have hres := hf ⟨skip line s, skip line s⟩ _ h.skip.skip
    exact ⟨fun a s' ha => hres.of_ok a s' (hbind ▸ ha), fun e s' he => hres.of_error e s' (hbind ▸ he)⟩
  · cases hcons

def nextIn (toks : String) : List Token → Bool
  | [] => false
  | t :: _ => ∃ c ∈ t.first, c ∈ chars toks

lemma peek_eq {toks : String} (htoks : ∀ c ∈ chars toks, c ∈ symbols) (h : At line ts s) :
    peek line toks s = .ok (nextIn toks ts) (skip line s) := by
  rcases h.head with ⟨hend, rfl⟩ | ⟨t, ts', l, rfl, hdrop, hends, hrest⟩
  · have hderef : deref line line.length = 0 := by simp [deref]
    simp only [peek, hend, hderef]
    rfl
  have hchar := deref_eq line (skip line s)
  rw [hdrop] at hchar
  simp only [peek, nextIn]
  congr 1
  cases hfirst : t.first with
  | some c =>
    obtain ⟨hc, hhead⟩ := t.first_text hfirst l
    rw [hchar, hhead]
    simp [hc]
  | none =>
    obtain ⟨w, rfl⟩ : ∃ w, t = .word w := by
      cases t with
      | word w => exact ⟨w, rfl⟩
      | _ => cases hfirst
    obtain ⟨hne, hw, -⟩ := hends
    obtain ⟨c, w, rfl⟩ := exists_cons_of_ne_nil hne
    have hderef : deref line (skip line s) = c := hchar
    have hsym : c ∉ chars toks := by
      intro hmem
      have hc := hw c mem_cons_self
      simp [isWord, htoks c hmem] at hc
    rw [hderef]
    simp [hsym]

lemma peek_bind {toks : String} {f : Bool → Parser α} (htoks : ∀ c ∈ chars toks, c ∈ symbols)
    (h : At line ts s) (hf : ∀ s', At line ts s' → Ensures (f (nextIn toks ts)) s' Q E) :
    Ensures (peek line toks >>= f) s Q E := by
  have hbind : (peek line toks >>= f) s = f (nextIn toks ts) (skip line s) := by
    simp only [Bind.bind, EStateM.bind, peek_eq htoks h]
  have hres := hf _ h.skip
  exact ⟨fun a s' ha => hres.of_ok a s' (hbind ▸ ha), fun e s' he => hres.of_error e s' (hbind ▸ he)⟩

end

end Xv6.Shell
