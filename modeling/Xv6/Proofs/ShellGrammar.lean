import Mathlib.Data.List.Forall2
import Mathlib.Data.List.Induction
import Xv6.Proofs.ShellTokens

/-!
# The grammar of the shell

What the parser returns it has derived from the tokens it took, and along a derivation it does not
panic.
-/

namespace Xv6.Shell

open List

/-! ## The grammar -/

abbrev Tree := Cmd (List UInt8)

structure Redirection where
  file : List UInt8
  mode : Nat
  fd : Nat

def Token.redirection : Token → List UInt8 → Option Redirection
  | .lt, file => some ⟨file, O_RDONLY, 0⟩
  | .gt, file => some ⟨file, O_WRONLY ||| O_CREATE, 1⟩
  | .gtgt, file => some ⟨file, O_WRONLY ||| O_CREATE, 1⟩
  | _, _ => none

/-- A command with redirections, the last one outermost. -/
def Cmd.wrap (t : Tree) (rs : List Redirection) : Tree := rs.foldl (fun t r => .redir t r.file r.mode r.fd) t

def Cmd.backs (t : Tree) : Nat → Tree
  | 0 => t
  | n + 1 => (Cmd.back t).backs n

inductive Redirs : List Token → List Redirection → Prop
  | nil : Redirs [] []
  | cons {t : Token} {w : List UInt8} {r : Redirection} {ts : List Token} {rs : List Redirection} :
    t.redirection w = some r → Redirs ts rs → Redirs (t :: .word w :: ts) (r :: rs)

inductive Args : List Token → List (List UInt8) → List Redirection → Prop
  | nil : Args [] [] []
  | cons {w : List UInt8} {ts ts' : List Token} {ws : List (List UInt8)} {rs rs' : List Redirection} :
    Redirs ts rs → Args ts' ws rs' → Args (.word w :: ts ++ ts') (w :: ws) (rs ++ rs')

inductive Nonterminal where
  | line
  | pipe
  | exec

inductive Derives : Nonterminal → List Token → Tree → Prop
  /-- `line ::= pipe '&'*` -/
  | line {p : List Token} {t : Tree} (n : Nat) :
    Derives .pipe p t → Derives .line (p ++ replicate n .amp) (t.backs n)
  /-- `line ::= pipe '&'* ';' line` -/
  | list {p l : List Token} {t u : Tree} (n : Nat) :
    Derives .pipe p t → Derives .line l u →
    Derives .line (p ++ replicate n .amp ++ .semi :: l) (.list (t.backs n) u)
  /-- `pipe ::= exec` -/
  | single {e : List Token} {t : Tree} : Derives .exec e t → Derives .pipe e t
  /-- `pipe ::= exec '|' pipe` -/
  | pipe {e p : List Token} {t u : Tree} :
    Derives .exec e t → Derives .pipe p u → Derives .pipe (e ++ .bar :: p) (.pipe t u)
  /-- `exec ::= '(' line ')' redir*` -/
  | block {l r : List Token} {t : Tree} {rs : List Redirection} :
    Derives .line l t → Redirs r rs → Derives .exec (.lparen :: l ++ .rparen :: r) (t.wrap rs)
  /-- `exec ::= redir* (word redir*)*` with at most nine words -/
  | exec {r a : List Token} {ws : List (List UInt8)} {rs rs' : List Redirection} :
    Redirs r rs → Args a ws rs' → ws.length ≤ 9 → Derives .exec (r ++ a) ((Cmd.exec ws).wrap (rs ++ rs'))

/-! ## Commands with pointers -/

variable {line : List UInt8}

/-- The command with pointers stands for the one with words. -/
inductive Denotes (line : List UInt8) : Cmd Span → Tree → Prop
  | exec {argv : List Span} {ws : List (List UInt8)} :
    List.Forall₂ (Word line) argv ws → Denotes line (.exec argv) (.exec ws)
  | redir {c : Cmd Span} {t : Tree} {p : Span} {w : List UInt8} {mode fd : Nat} :
    Denotes line c t → Word line p w → Denotes line (.redir c p mode fd) (.redir t w mode fd)
  | pipe {c d : Cmd Span} {t u : Tree} : Denotes line c t → Denotes line d u → Denotes line (.pipe c d) (.pipe t u)
  | list {c d : Cmd Span} {t u : Tree} : Denotes line c t → Denotes line d u → Denotes line (.list c d) (.list t u)
  | back {c : Cmd Span} {t : Tree} : Denotes line c t → Denotes line (.back c) (.back t)

lemma Cmd.wrap_concat (t : Tree) (rs : List Redirection) (r : Redirection) :
    t.wrap (rs ++ [r]) = .redir (t.wrap rs) r.file r.mode r.fd := by
  rw [wrap, foldl_append]
  rfl

lemma Cmd.wrap_append (t : Tree) (rs rs' : List Redirection) : t.wrap (rs ++ rs') = (t.wrap rs).wrap rs' :=
  foldl_append

lemma Denotes.addArg {c : Cmd Span} {ws : List (List UInt8)} {rs : List Redirection} {p : Span} {w : List UInt8}
    (h : Denotes line c ((Cmd.exec ws).wrap rs)) (hp : Word line p w) :
    Denotes line (c.addArg p) ((Cmd.exec (ws ++ [w])).wrap rs) := by
  induction rs using List.reverseRecOn generalizing c with
  | nil =>
    cases h with
    | exec hargs => exact .exec (rel_append hargs (.cons hp .nil))
  | append_singleton rs r ih =>
    rw [Cmd.wrap_concat] at h ⊢
    cases h with
    | redir hc hr => exact .redir (ih hc) hr

/-! ## What the parser returns is derived -/

def panics : List String :=
  ["syntax", "missing file for redirection", "parseblock", "syntax - missing )", "too many args"]

def IsPanic (e : Stop) : Prop := ∃ msg ∈ panics, e = .panic msg

section

variable {s k : Nat} {ts : List Token} {cmd : Cmd Span} {t : Tree}

lemma nextIn_cons {toks : String} (h : nextIn toks ts = true) :
    ∃ t ts' c, ts = t :: ts' ∧ t.first = some c ∧ c ∈ chars toks := by
  cases ts with
  | nil => cases h
  | cons t ts =>
    obtain ⟨c, hc, hmem⟩ := decide_eq_true_iff.mp h
    exact ⟨t, ts, c, rfl, hc, hmem⟩

lemma nextIn_symbol {toks : String} {u : Token} {d : UInt8} (htoks : chars toks = [d])
    (hu : ∀ t : Token, t.first = some d → t = u) (h : nextIn toks ts = true) : ∃ ts', ts = u :: ts' := by
  obtain ⟨t, ts', c, rfl, hc, hmem⟩ := nextIn_cons h
  rw [htoks, mem_singleton] at hmem
  rw [hu t (hmem ▸ hc)]
  exact ⟨ts', rfl⟩

lemma next_amp (h : nextIn "&" ts = true) : ∃ ts', ts = .amp :: ts' := by
  refine nextIn_symbol rfl (fun t ht => ?_) h
  cases t <;> first | rfl | cases ht

lemma next_semi (h : nextIn ";" ts = true) : ∃ ts', ts = .semi :: ts' := by
  refine nextIn_symbol rfl (fun t ht => ?_) h
  cases t <;> first | rfl | cases ht

lemma next_bar (h : nextIn "|" ts = true) : ∃ ts', ts = .bar :: ts' := by
  refine nextIn_symbol rfl (fun t ht => ?_) h
  cases t <;> first | rfl | cases ht

lemma next_lparen (h : nextIn "(" ts = true) : ∃ ts', ts = .lparen :: ts' := by
  refine nextIn_symbol rfl (fun t ht => ?_) h
  cases t <;> first | rfl | cases ht

lemma next_rparen (h : nextIn ")" ts = true) : ∃ ts', ts = .rparen :: ts' := by
  refine nextIn_symbol rfl (fun t ht => ?_) h
  cases t <;> first | rfl | cases ht

lemma next_redir (h : nextIn "<>" ts = true) :
    ∃ t ts', ts = t :: ts' ∧ ∀ w, ∃ r, t.redirection w = some r ∧ r.file = w := by
  obtain ⟨t, ts', c, rfl, hc, hmem⟩ := nextIn_cons h
  refine ⟨t, ts', rfl, fun w => ?_⟩
  have hchars : chars "<>" = [chr '<', chr '>'] := rfl
  rw [hchars] at hmem
  cases t with
  | lt => exact ⟨_, rfl, rfl⟩
  | gt => exact ⟨_, rfl, rfl⟩
  | gtgt => exact ⟨_, rfl, rfl⟩
  | word w => cases hc
  | _ =>
    cases hc
    exact absurd hmem (by decide)

lemma Token.code_word {u : Token} (h : u.code = chr 'a') : ∃ w, u = .word w := by
  cases u with
  | word w => exact ⟨w, rfl⟩
  | _ => exact absurd h (by decide)

lemma Token.code_ne_zero (u : Token) : u.code ≠ 0 := by
  cases u with
  | word w => exact (by decide : chr 'a' ≠ 0)
  | _ => decide

end

/-! ## Steps of the loops -/

section

variable {s k argc : Nat} {ts : List Token} {cmd : Cmd Span} {Q : Cmd Span → Nat → Prop} {E : Stop → Prop}

lemma parseredirs_end (h : At line ts s) (hts : nextIn "<>" ts = false) (hQ : ∀ s', At line ts s' → Q cmd s') :
    Ensures (parseredirs line (k + 1) cmd) s Q E := by
  rw [parseredirs]
  refine peek_bind (subset_symbols rfl) h fun s' h' => ?_
  rw [hts, if_neg Bool.false_ne_true]
  exact .pure (hQ s' h')

lemma parseredirs_step {u : Token} {w : List UInt8} {r : Redirection} (h0 : 0 ∉ line)
    (h : At line (u :: .word w :: ts) s) (hr : u.redirection w = some r)
    (hnext : ∀ p s', At line ts s' → Word line p w →
      Ensures (parseredirs line k (.redir cmd p r.mode r.fd)) s' Q E) :
    Ensures (parseredirs line (k + 1) cmd) s Q E := by
  rw [parseredirs]
  refine peek_bind (subset_symbols rfl) h fun s1 h1 => ?_
  refine Ensures.ite (fun _ => ?_) (fun hc => ?_)
  · refine gettoken_bind h0 h1 fun p1 s2 h2 _ => ?_
    refine gettoken_bind h0 h2 fun p2 s3 h3 hp2 => ?_
    have hres := hnext p2 s3 h3 (hp2 w rfl)
    have hword : ¬Token.code (.word w) ≠ chr 'a' := fun hc => hc rfl
    rw [if_neg hword]
    cases u with
    | lt =>
      cases hr
      exact hres
    | gt =>
      cases hr
      exact hres
    | gtgt =>
      cases hr
      exact hres
    | _ => cases hr
  · cases u with
    | lt => exact absurd rfl hc
    | gt => exact absurd rfl hc
    | gtgt => exact absurd rfl hc
    | _ => cases hr

lemma parseargs_end (h : At line ts s) (hts : ts = [] ∨ nextIn "|)&;" ts = true)
    (hQ : ∀ s', At line ts s' → Q cmd s') : Ensures (parseargs line (k + 1) argc cmd) s Q E := by
  rw [parseargs]
  refine peek_bind (subset_symbols rfl) h fun s1 h1 => ?_
  refine Ensures.ite (fun _ => .pure (hQ s1 h1)) (fun hstop => ?_)
  obtain rfl : ts = [] := hts.resolve_right hstop
  refine gettoken_bind_nil h1 fun p s2 h2 => ?_
  rw [if_pos rfl]
  exact .pure (hQ s2 h2)

lemma parseargs_step {w : List UInt8} (h0 : 0 ∉ line) (h : At line (.word w :: ts) s) (hargc : argc + 1 < MAXARGS)
    (hnext : ∀ p s', At line ts s' → Word line p w →
      Ensures (parseredirs line (line.length + 1) (cmd.addArg p) >>= parseargs line k (argc + 1)) s' Q E) :
    Ensures (parseargs line (k + 1) argc cmd) s Q E := by
  rw [parseargs]
  refine peek_bind (subset_symbols rfl) h fun s1 h1 => ?_
  rw [if_neg (fun hc : nextIn "|)&;" (.word w :: ts) = true => by cases hc)]
  refine gettoken_bind h0 h1 fun p s2 h2 hp => ?_
  rw [if_neg (Token.code_ne_zero _), if_neg (fun hc => hc rfl), if_neg (Nat.not_le.mpr hargc)]
  exact hnext p s2 h2 (hp w rfl)

lemma parseamps_end (h : At line ts s) (hts : nextIn "&" ts = false) (hQ : ∀ s', At line ts s' → Q cmd s') :
    Ensures (parseamps line (k + 1) cmd) s Q E := by
  rw [parseamps]
  refine peek_bind (subset_symbols rfl) h fun s' h' => ?_
  rw [hts, if_neg Bool.false_ne_true]
  exact .pure (hQ s' h')

lemma parseamps_step (h0 : 0 ∉ line) (h : At line (.amp :: ts) s)
    (hnext : ∀ s', At line ts s' → Ensures (parseamps line k (.back cmd)) s' Q E) :
    Ensures (parseamps line (k + 1) cmd) s Q E := by
  rw [parseamps]
  refine peek_bind (subset_symbols rfl) h fun s1 h1 => ?_
  rw [if_pos (show nextIn "&" (.amp :: ts) = true from rfl)]
  exact gettoken_bind h0 h1 fun p s2 h2 _ => hnext s2 h2

end

/-! ## What the parser returns is derived -/

section

variable {s k argc : Nat} {ts : List Token} {cmd : Cmd Span} {t : Tree} (h0 : 0 ∉ line)

include h0

lemma parseredirs_sound (hk : ts.length < k) (hat : At line ts s) (hcmd : Denotes line cmd t) :
    Ensures (parseredirs line k cmd) s
      (fun c s' => ∃ used rest rs, ts = used ++ rest ∧ At line rest s' ∧ Redirs used rs ∧ Denotes line c (t.wrap rs))
      IsPanic := by
  induction k generalizing ts s cmd t with
  | zero => omega
  | succ k ih =>
    by_cases hmore : nextIn "<>" ts = true
    · obtain ⟨u, ts, rfl, hu⟩ := next_redir hmore
      by_cases hword : ∃ w ts', ts = .word w :: ts'
      · obtain ⟨w, ts, rfl⟩ := hword
        obtain ⟨r, hr, hfile⟩ := hu w
        refine parseredirs_step h0 hat hr fun p s' hat' hp => ?_
        have hdenotes : Denotes line (.redir cmd p r.mode r.fd) (.redir t r.file r.mode r.fd) :=
          .redir hcmd (hfile ▸ hp)
        rw [length_cons, length_cons] at hk
        refine (ih (by omega) hat' hdenotes).mono ?_ fun _ he => he
        rintro c s'' ⟨used, rest, rs, rfl, hrest, hused, hc⟩
        exact ⟨u :: .word w :: used, rest, r :: rs, rfl, hrest, .cons hr hused, hc⟩
      · -- no file: the parser panics
        rw [parseredirs]
        refine peek_bind (subset_symbols rfl) hat fun s1 h1 => ?_
        rw [if_pos hmore]
        refine gettoken_bind h0 h1 fun p1 s2 h2 _ => ?_
        cases ts with
        | nil =>
          refine gettoken_bind_nil h2 fun p2 s3 _ => ?_
          rw [if_pos (by change (0 : UInt8) ≠ chr 'a'; decide)]
          exact .throw ⟨_, by decide, rfl⟩
        | cons v ts =>
          refine gettoken_bind h0 h2 fun p2 s3 _ _ => ?_
          have hv : v.code ≠ chr 'a' := by
            intro hv
            obtain ⟨w, rfl⟩ := Token.code_word hv
            exact hword ⟨w, ts, rfl⟩
          rw [if_pos hv]
          exact .throw ⟨_, by decide, rfl⟩
    · refine parseredirs_end hat (by simpa using hmore) fun s' hat' => ?_
      exact ⟨[], ts, [], rfl, hat', .nil, hcmd⟩

omit h0 in
lemma At.length_le (h : At line ts s) : ts.length ≤ line.length := by
  have hlen := h.spells.length_le
  rw [length_drop] at hlen
  omega

lemma parseargs_sound {ws : List (List UInt8)} {rs : List Redirection} (hk : ts.length < k) (hat : At line ts s)
    (hcmd : Denotes line cmd ((Cmd.exec ws).wrap rs)) (hargc : ws.length = argc) (hmax : argc ≤ 9) :
    Ensures (parseargs line k argc cmd) s
      (fun c s' => ∃ used rest ws' rs', ts = used ++ rest ∧ At line rest s' ∧ Args used ws' rs' ∧
        (ws ++ ws').length ≤ 9 ∧ Denotes line c ((Cmd.exec (ws ++ ws')).wrap (rs ++ rs'))) IsPanic := by
  induction k generalizing ts s cmd ws rs argc with
  | zero => omega
  | succ k ih =>
    by_cases hend : ts = [] ∨ nextIn "|)&;" ts = true
    · refine parseargs_end hat hend fun s' hat' => ?_
      refine ⟨[], ts, [], [], rfl, hat', .nil, ?_, ?_⟩
      · rw [append_nil]
        omega
      · rw [append_nil, append_nil]
        exact hcmd
    by_cases hword : (∃ w ts', ts = .word w :: ts') ∧ argc + 1 < MAXARGS
    · obtain ⟨⟨w, ts, rfl⟩, hlt⟩ := hword
      refine parseargs_step h0 hat hlt fun p s1 h1 hp => ?_
      rw [length_cons] at hk
      refine Ensures.bind (parseredirs_sound h0 (Nat.lt_succ_of_le h1.length_le) h1 (hcmd.addArg hp)) ?_
      rintro c s2 ⟨used, rest, rs1, rfl, h2, hused, hc⟩
      rw [← Cmd.wrap_append] at hc
      rw [length_append] at hk
      have hlt' : argc + 1 < 10 := hlt
      refine (ih (by omega) h2 hc (by simp [hargc]) (by omega)).mono ?_ fun _ he => he
      rintro c' s3 ⟨used', rest', ws', rs', rfl, h3, hargs, hlen, hc'⟩
      refine ⟨.word w :: used ++ used', rest', w :: ws', rs1 ++ rs', ?_, h3, .cons hused hargs, ?_, ?_⟩
      · simp
      · rwa [append_cons]
      · rwa [append_cons, ← append_assoc]
    · rw [parseargs]
      refine peek_bind (subset_symbols rfl) hat fun s1 h1 => ?_
      rw [if_neg (fun hc => hend (.inr hc))]
      cases ts with
      | nil => exact absurd (.inl rfl) hend
      | cons v ts =>
        refine gettoken_bind h0 h1 fun p s2 h2 _ => ?_
        rw [if_neg (Token.code_ne_zero _)]
        refine Ensures.ite (fun _ => .throw ⟨_, by decide, rfl⟩) fun hv => ?_
        obtain ⟨w, rfl⟩ := Token.code_word (not_not.mp hv)
        have hge : argc + 1 ≥ MAXARGS := by
          by_contra hlt
          exact hword ⟨⟨w, ts, rfl⟩, by omega⟩
        rw [if_pos hge]
        exact .throw ⟨_, by decide, rfl⟩

lemma parseamps_sound (hk : ts.length < k) (hat : At line ts s) (hcmd : Denotes line cmd t) :
    Ensures (parseamps line k cmd) s
      (fun c s' => ∃ n rest, ts = replicate n .amp ++ rest ∧ At line rest s' ∧ Denotes line c (t.backs n))
      IsPanic := by
  induction k generalizing ts s cmd t with
  | zero => omega
  | succ k ih =>
    by_cases hmore : nextIn "&" ts = true
    · obtain ⟨ts, rfl⟩ := next_amp hmore
      refine parseamps_step h0 hat fun s' hat' => ?_
      rw [length_cons] at hk
      refine (ih (by omega) hat' hcmd.back).mono ?_ fun _ he => he
      rintro c s'' ⟨n, rest, rfl, hrest, hc⟩
      exact ⟨n + 1, rest, rfl, hrest, hc⟩
    · refine parseamps_end hat (by simpa using hmore) fun s' hat' => ?_
      exact ⟨0, ts, rfl, hat', hcmd⟩

omit h0 in
/-- However `x` ends: with a command derived from the tokens it took, or in a panic. -/
def Parses (line : List UInt8) (X : Nonterminal) (ts : List Token) (x : Parser (Cmd Span)) (s : Nat) : Prop :=
  Ensures x s
    (fun c s' => ∃ used rest t, ts = used ++ rest ∧ At line rest s' ∧ Derives X used t ∧ Denotes line c t) IsPanic

omit h0 in
/-- The parser of a nonterminal with enough rounds to go; `extra` counts the calls it makes before it takes a
token. -/
def ParsesWith (line : List UInt8) (X : Nonterminal) (x : Parser (Cmd Span)) (extra k : Nat) : Prop :=
  ∀ ts s, At line ts s → 4 * ts.length + extra ≤ k → Parses line X ts x s

lemma parseline_sound (hpipe : ParsesWith line .pipe (parsepipe line k) 3 k)
    (hline : ParsesWith line .line (parseline line k) 4 k) :
    ParsesWith line .line (parseline line (k + 1)) 4 (k + 1) := by
  intro ts s hat hk
  rw [Parses, parseline]
  refine Ensures.bind (hpipe ts s hat (by omega)) ?_
  rintro c s1 ⟨p, rest, t, rfl, h1, hp, hc⟩
  refine Ensures.bind (parseamps_sound h0 (Nat.lt_succ_of_le h1.length_le) h1 hc) ?_
  rintro c1 s2 ⟨n, rest, rfl, h2, hc1⟩
  refine peek_bind (subset_symbols rfl) h2 fun s3 h3 => ?_
  refine Ensures.ite (fun hmore => ?_) (fun _ => ?_)
  · obtain ⟨rest, rfl⟩ := next_semi hmore
    refine gettoken_bind h0 h3 fun q s4 h4 _ => ?_
    simp only [length_append, length_cons] at hk
    refine Ensures.bind (hline rest s4 h4 (by omega)) ?_
    rintro c2 s5 ⟨l, rest, u, rfl, h5, hl, hc2⟩
    refine .pure ⟨p ++ replicate n .amp ++ .semi :: l, rest, _, ?_, h5, .list n hp hl, .list hc1 hc2⟩
    simp
  · refine .pure ⟨p ++ replicate n .amp, rest, _, ?_, h3, .line n hp, hc1⟩
    simp

lemma parsepipe_sound (hexec : ParsesWith line .exec (parseexec line k) 2 k)
    (hpipe : ParsesWith line .pipe (parsepipe line k) 3 k) :
    ParsesWith line .pipe (parsepipe line (k + 1)) 3 (k + 1) := by
  intro ts s hat hk
  rw [Parses, parsepipe]
  refine Ensures.bind (hexec ts s hat (by omega)) ?_
  rintro c s1 ⟨e, rest, t, rfl, h1, he, hc⟩
  refine peek_bind (subset_symbols rfl) h1 fun s2 h2 => ?_
  refine Ensures.ite (fun hmore => ?_) (fun _ => ?_)
  · obtain ⟨rest, rfl⟩ := next_bar hmore
    refine gettoken_bind h0 h2 fun q s3 h3 _ => ?_
    simp only [length_append, length_cons] at hk
    refine Ensures.bind (hpipe rest s3 h3 (by omega)) ?_
    rintro c1 s4 ⟨p, rest, u, rfl, h4, hp, hc1⟩
    refine .pure ⟨e ++ .bar :: p, rest, _, ?_, h4, .pipe he hp, .pipe hc hc1⟩
    simp
  · exact .pure ⟨e, rest, t, rfl, h2, .single he, hc⟩

lemma parseblock_sound (hline : ParsesWith line .line (parseline line k) 4 k) :
    ParsesWith line .exec (parseblock line (k + 1)) 1 (k + 1) := by
  intro ts s hat hk
  rw [Parses, parseblock]
  refine peek_bind (subset_symbols rfl) hat fun s1 h1 => ?_
  refine Ensures.ite (fun _ => .throw ⟨_, by decide, rfl⟩) (fun hopens => ?_)
  obtain ⟨ts, rfl⟩ := next_lparen (by simpa using hopens)
  refine gettoken_bind h0 h1 fun q s2 h2 _ => ?_
  rw [length_cons] at hk
  refine Ensures.bind (hline ts s2 h2 (by omega)) ?_
  rintro c s3 ⟨l, rest, t, rfl, h3, hl, hc⟩
  refine peek_bind (subset_symbols rfl) h3 fun s4 h4 => ?_
  refine Ensures.ite (fun _ => .throw ⟨_, by decide, rfl⟩) (fun hcloses => ?_)
  obtain ⟨rest, rfl⟩ := next_rparen (by simpa using hcloses)
  refine gettoken_bind h0 h4 fun q' s5 h5 _ => ?_
  refine (parseredirs_sound h0 (Nat.lt_succ_of_le h5.length_le) h5 hc).mono ?_ fun _ he => he
  rintro c1 s6 ⟨r, rest, rs, rfl, h6, hr, hc1⟩
  refine ⟨.lparen :: l ++ .rparen :: r, rest, _, ?_, h6, .block hl hr, hc1⟩
  simp

lemma parseexec_sound (hblock : ParsesWith line .exec (parseblock line k) 1 k) :
    ParsesWith line .exec (parseexec line (k + 1)) 2 (k + 1) := by
  intro ts s hat hk
  rw [Parses, parseexec]
  refine peek_bind (subset_symbols rfl) hat fun s1 h1 => ?_
  refine Ensures.ite (fun _ => hblock ts s1 h1 (by omega)) (fun _ => ?_)
  refine Ensures.bind (parseredirs_sound h0 (Nat.lt_succ_of_le h1.length_le) h1 (.exec .nil)) ?_
  rintro c s2 ⟨r, rest, rs, rfl, h2, hr, hc⟩
  refine (parseargs_sound h0 (Nat.lt_succ_of_le h2.length_le) h2 hc rfl (by decide)).mono ?_ fun _ he => he
  rintro c1 s3 ⟨a, rest, ws, rs', rfl, h3, ha, hlen, hc1⟩
  refine ⟨r ++ a, rest, _, ?_, h3, .exec hr ha hlen, hc1⟩
  simp

lemma parser_sound (k : Nat) :
    ParsesWith line .line (parseline line k) 4 k ∧ ParsesWith line .pipe (parsepipe line k) 3 k ∧
    ParsesWith line .exec (parseexec line k) 2 k ∧ ParsesWith line .exec (parseblock line k) 1 k := by
  induction k with
  | zero => refine ⟨?_, ?_, ?_, ?_⟩ <;> exact fun ts s _ hk => absurd hk (by omega)
  | succ k ih =>
    obtain ⟨hline, hpipe, hexec, hblock⟩ := ih
    exact ⟨parseline_sound h0 hpipe hline, parsepipe_sound h0 hexec hpipe, parseexec_sound h0 hblock,
      parseblock_sound h0 hline⟩

end

/-! ## Along a derivation the parser returns -/

section

variable {s k argc : Nat} {ts rest : List Token} {cmd : Cmd Span} {t : Tree} (h0 : 0 ∉ line)

/-- The symbols that may follow, if anything does. -/
def Nonterminal.follow : Nonterminal → String
  | .line => ")"
  | .pipe => ")&;"
  | .exec => "|)&;"

def Follows (X : Nonterminal) (rest : List Token) : Prop := rest = [] ∨ nextIn X.follow rest = true

lemma nextIn_mono {toks toks' : String} (hsub : (chars toks).all (chars toks').contains = true)
    (h : nextIn toks rest = true) : nextIn toks' rest = true := by
  obtain ⟨t, ts, c, rfl, hc, hmem⟩ := nextIn_cons h
  exact decide_eq_true_iff.mpr ⟨c, hc, contains_iff_mem.mp (all_eq_true.mp hsub c hmem)⟩

lemma nextIn_disjoint {toks toks' : String} (hdis : ((chars toks).all fun c => !(chars toks').contains c) = true)
    (h : rest = [] ∨ nextIn toks rest = true) : nextIn toks' rest = false := by
  rcases h with rfl | h
  · rfl
  obtain ⟨t, ts, c, rfl, hc, hmem⟩ := nextIn_cons h
  apply decide_eq_false_iff_not.mpr
  rintro ⟨d, hd, hmem'⟩
  rw [hc] at hd
  have hnot := all_eq_true.mp hdis c hmem
  rw [Option.some.inj hd, contains_iff_mem.mpr hmem'] at hnot
  exact Bool.false_ne_true hnot

lemma Args.nextIn {a : List Token} {ws : List (List UInt8)} {rs : List Redirection} {toks : String}
    (h : Args a ws rs) (hrest : nextIn toks rest = false) : nextIn toks (a ++ rest) = false := by
  cases h with
  | nil => exact hrest
  | cons hr ha => rfl

lemma Redirs.nextIn {r : List Token} {rs : List Redirection} (h : Redirs r rs) (hrest : nextIn "(" rest = false) :
    nextIn "(" (r ++ rest) = false := by
  cases h with
  | nil => exact hrest
  | @cons t w r ts rs ht hr =>
    cases t with
    | lt => rfl
    | gt => rfl
    | gtgt => rfl
    | _ => cases ht

include h0

lemma parseredirs_complete {used : List Token} {rs : List Redirection} (hr : Redirs used rs)
    (hk : (used ++ rest).length < k) (hat : At line (used ++ rest) s) (hrest : nextIn "<>" rest = false)
    (hcmd : Denotes line cmd t) :
    Ensures (parseredirs line k cmd) s (fun c s' => At line rest s' ∧ Denotes line c (t.wrap rs)) fun _ => False := by
  induction hr generalizing k s cmd t with
  | nil =>
    obtain ⟨k, rfl⟩ : ∃ k', k = k' + 1 := ⟨k - 1, by omega⟩
    exact parseredirs_end hat hrest fun s' hat' => ⟨hat', hcmd⟩
  | @cons u w r ts rs hu hr ih =>
    obtain ⟨k, rfl⟩ : ∃ k', k = k' + 1 := ⟨k - 1, by omega⟩
    refine parseredirs_step h0 hat hu fun p s' hat' hp => ?_
    have hfile : r.file = w := by
      cases u with
      | lt =>
        cases hu
        rfl
      | gt =>
        cases hu
        rfl
      | gtgt =>
        cases hu
        rfl
      | _ => cases hu
    simp only [cons_append, length_cons] at hk
    exact ih (by omega) hat' (.redir hcmd (hfile ▸ hp))

lemma parseargs_complete {used : List Token} {ws ws' : List (List UInt8)} {rs rs' : List Redirection}
    (ha : Args used ws' rs') (hk : (used ++ rest).length < k) (hat : At line (used ++ rest) s)
    (hrest : Follows .exec rest) (hcmd : Denotes line cmd ((Cmd.exec ws).wrap rs)) (hargc : ws.length = argc)
    (hmax : (ws ++ ws').length ≤ 9) :
    Ensures (parseargs line k argc cmd) s
      (fun c s' => At line rest s' ∧ Denotes line c ((Cmd.exec (ws ++ ws')).wrap (rs ++ rs'))) fun _ => False := by
  induction ha generalizing k s cmd argc ws rs with
  | nil =>
    obtain ⟨k, rfl⟩ : ∃ k', k = k' + 1 := ⟨k - 1, by omega⟩
    rw [append_nil, append_nil]
    exact parseargs_end hat hrest fun s' hat' => ⟨hat', hcmd⟩
  | @cons w ts ts' ws' rs1 rs' hr ha ih =>
    obtain ⟨k, rfl⟩ : ∃ k', k = k' + 1 := ⟨k - 1, by omega⟩
    simp only [cons_append, append_assoc, length_cons] at hat hk
    rw [length_append, length_cons] at hmax
    refine parseargs_step h0 hat (show argc + 1 < 10 by omega) fun p s1 h1 hp => ?_
    have hredir : nextIn "<>" (ts' ++ rest) = false := ha.nextIn (nextIn_disjoint rfl hrest)
    refine Ensures.bind
      (parseredirs_complete h0 hr (Nat.lt_succ_of_le h1.length_le) h1 hredir (hcmd.addArg hp)) ?_
    rintro c s2 ⟨h2, hc⟩
    rw [← Cmd.wrap_append] at hc
    rw [length_append] at hk
    rw [append_cons, ← append_assoc]
    refine ih (by omega) h2 hc (by simp [hargc]) ?_
    rw [length_append, length_append, length_singleton]
    omega

lemma parseamps_complete {n : Nat} (hk : (replicate n Token.amp ++ rest).length < k)
    (hat : At line (replicate n .amp ++ rest) s) (hrest : nextIn "&" rest = false) (hcmd : Denotes line cmd t) :
    Ensures (parseamps line k cmd) s (fun c s' => At line rest s' ∧ Denotes line c (t.backs n)) fun _ => False := by
  induction n generalizing k s cmd t with
  | zero =>
    obtain ⟨k, rfl⟩ : ∃ k', k = k' + 1 := ⟨k - 1, by omega⟩
    exact parseamps_end hat hrest fun s' hat' => ⟨hat', hcmd⟩
  | succ n ih =>
    obtain ⟨k, rfl⟩ : ∃ k', k = k' + 1 := ⟨k - 1, by omega⟩
    refine parseamps_step h0 hat fun s' hat' => ?_
    rw [replicate_succ, cons_append, length_cons] at hk
    exact ih (by omega) hat' hcmd.back

omit h0 in
/-- The function for a nonterminal, and the calls it makes before it takes a token. -/
def Nonterminal.parser (line : List UInt8) : Nonterminal → Nat → Parser (Cmd Span)
  | .line => parseline line
  | .pipe => parsepipe line
  | .exec => parseexec line

omit h0 in
def Nonterminal.extra : Nonterminal → Nat
  | .line => 4
  | .pipe => 3
  | .exec => 2

theorem parser_complete {X : Nonterminal} {used : List Token} (hd : Derives X used t)
    (hk : 4 * (used ++ rest).length + X.extra ≤ k) (hat : At line (used ++ rest) s) (hrest : Follows X rest) :
    Ensures (X.parser line k) s (fun c s' => At line rest s' ∧ Denotes line c t) fun _ => False := by
  induction hd generalizing k s rest with
  | @line p t n hp ih =>
    rw [Nonterminal.extra] at hk
    obtain ⟨k, rfl⟩ : ∃ k', k = k' + 1 := ⟨k - 1, by omega⟩
    rw [append_assoc] at hat hk
    have hamps : Follows .pipe (replicate n .amp ++ rest) := by
      cases n with
      | zero => exact hrest.imp_right (nextIn_mono rfl)
      | succ n => exact .inr rfl
    rw [Nonterminal.parser, parseline]
    refine Ensures.bind (ih (by rw [Nonterminal.extra]; omega) hat hamps) ?_
    rintro c s1 ⟨h1, hc⟩
    refine Ensures.bind
      (parseamps_complete h0 (Nat.lt_succ_of_le h1.length_le) h1 (nextIn_disjoint rfl hrest) hc) ?_
    rintro c1 s2 ⟨h2, hc1⟩
    refine peek_bind (subset_symbols rfl) h2 fun s3 h3 => ?_
    have hsemi : nextIn ";" rest = false := nextIn_disjoint rfl hrest
    rw [hsemi, if_neg Bool.false_ne_true]
    exact .pure ⟨h3, hc1⟩
  | @list p l t u n hp hl ihp ihl =>
    rw [Nonterminal.extra] at hk
    obtain ⟨k, rfl⟩ : ∃ k', k = k' + 1 := ⟨k - 1, by omega⟩
    simp only [append_assoc, cons_append] at hat hk
    have hamps : Follows .pipe (replicate n .amp ++ .semi :: (l ++ rest)) := by
      cases n with
      | zero => exact .inr rfl
      | succ n => exact .inr rfl
    rw [Nonterminal.parser, parseline]
    refine Ensures.bind (ihp (by rw [Nonterminal.extra]; omega) hat hamps) ?_
    rintro c s1 ⟨h1, hc⟩
    refine Ensures.bind (parseamps_complete h0 (Nat.lt_succ_of_le h1.length_le) h1 rfl hc) ?_
    rintro c1 s2 ⟨h2, hc1⟩
    refine peek_bind (subset_symbols rfl) h2 fun s3 h3 => ?_
    rw [if_pos (show nextIn ";" (.semi :: (l ++ rest)) = true from rfl)]
    refine gettoken_bind h0 h3 fun q s4 h4 _ => ?_
    have hlen : 4 * (l ++ rest).length + 4 ≤ k := by
      simp only [length_append, length_cons] at hk ⊢
      omega
    refine Ensures.bind (ihl hlen h4 hrest) ?_
    rintro c2 s5 ⟨h5, hc2⟩
    exact .pure ⟨h5, .list hc1 hc2⟩
  | @single e t he ih =>
    rw [Nonterminal.extra] at hk
    obtain ⟨k, rfl⟩ : ∃ k', k = k' + 1 := ⟨k - 1, by omega⟩
    rw [Nonterminal.parser, parsepipe]
    refine Ensures.bind (ih (by rw [Nonterminal.extra]; omega) hat (hrest.imp_right (nextIn_mono rfl))) ?_
    rintro c s1 ⟨h1, hc⟩
    refine peek_bind (subset_symbols rfl) h1 fun s2 h2 => ?_
    have hbar : nextIn "|" rest = false := nextIn_disjoint rfl hrest
    rw [hbar, if_neg Bool.false_ne_true]
    exact .pure ⟨h2, hc⟩
  | @pipe e p t u he hp ihe ihp =>
    rw [Nonterminal.extra] at hk
    obtain ⟨k, rfl⟩ : ∃ k', k = k' + 1 := ⟨k - 1, by omega⟩
    simp only [append_assoc, cons_append] at hat hk
    rw [Nonterminal.parser, parsepipe]
    refine Ensures.bind (ihe (by rw [Nonterminal.extra]; omega) hat (.inr rfl)) ?_
    rintro c s1 ⟨h1, hc⟩
    refine peek_bind (subset_symbols rfl) h1 fun s2 h2 => ?_
    rw [if_pos (show nextIn "|" (.bar :: (p ++ rest)) = true from rfl)]
    refine gettoken_bind h0 h2 fun q s3 h3 _ => ?_
    have hlen : 4 * (p ++ rest).length + 3 ≤ k := by
      simp only [length_append, length_cons] at hk ⊢
      omega
    refine Ensures.bind (ihp hlen h3 hrest) ?_
    rintro c1 s4 ⟨h4, hc1⟩
    exact .pure ⟨h4, .pipe hc hc1⟩
  | @block l r t rs hl hr ih =>
    rw [Nonterminal.extra] at hk
    obtain ⟨k, rfl⟩ : ∃ k', k = k' + 1 + 1 := ⟨k - 2, by omega⟩
    simp only [append_assoc, cons_append] at hat hk
    rw [Nonterminal.parser, parseexec]
    refine peek_bind (subset_symbols rfl) hat fun s1 h1 => ?_
    rw [if_pos (show nextIn "(" (.lparen :: (l ++ .rparen :: (r ++ rest))) = true from rfl), parseblock]
    refine peek_bind (subset_symbols rfl) h1 fun s2 h2 => ?_
    rw [if_neg (show ¬(!nextIn "(" (.lparen :: (l ++ .rparen :: (r ++ rest)))) = true from nofun)]
    refine gettoken_bind h0 h2 fun q s3 h3 _ => ?_
    have hlen : 4 * (l ++ .rparen :: (r ++ rest)).length + 4 ≤ k := by
      rw [length_cons] at hk
      omega
    refine Ensures.bind (ih hlen h3 (.inr rfl)) ?_
    rintro c s4 ⟨h4, hc⟩
    refine peek_bind (subset_symbols rfl) h4 fun s5 h5 => ?_
    rw [if_neg (show ¬(!nextIn ")" (.rparen :: (r ++ rest))) = true from nofun)]
    refine gettoken_bind h0 h5 fun q' s6 h6 _ => ?_
    exact parseredirs_complete h0 hr (Nat.lt_succ_of_le h6.length_le) h6 (nextIn_disjoint rfl hrest) hc
  | @exec r a ws rs rs' hr ha hmax =>
    rw [Nonterminal.extra] at hk
    obtain ⟨k, rfl⟩ : ∃ k', k = k' + 1 := ⟨k - 1, by omega⟩
    rw [append_assoc] at hat
    have hparen : nextIn "(" (r ++ (a ++ rest)) = false :=
      hr.nextIn (ha.nextIn (nextIn_disjoint rfl hrest))
    rw [Nonterminal.parser, parseexec]
    refine peek_bind (subset_symbols rfl) hat fun s1 h1 => ?_
    rw [hparen, if_neg Bool.false_ne_true]
    have hredir : nextIn "<>" (a ++ rest) = false := ha.nextIn (nextIn_disjoint rfl hrest)
    refine Ensures.bind
      (parseredirs_complete h0 hr (Nat.lt_succ_of_le h1.length_le) h1 hredir (.exec .nil)) ?_
    rintro c s2 ⟨h2, hc⟩
    exact parseargs_complete h0 ha (Nat.lt_succ_of_le h2.length_le) h2 hrest hc rfl hmax

end

end Xv6.Shell
