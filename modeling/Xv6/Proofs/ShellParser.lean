import Xv6.Proofs.ShellGrammar

/-!
# The command that `parsecmd` returns

`nulterminate` writes its NULs behind words, where no word has a character.
-/

namespace Xv6.Shell

open List

variable {line mem mem' : List UInt8} {p : Span} {w : List UInt8} {c : Cmd Span} {t : Tree}

def WordAt (line : List UInt8) (i : Nat) : Prop := i < line.length ∧ isWord (deref line i) = true

/-- `mem'` is `mem` with NULs outside of the words. -/
structure Zeroed (line mem mem' : List UInt8) : Prop where
  length : mem'.length = mem.length
  words : ∀ i, WordAt line i → mem'.getD i 0 = mem.getD i 0
  zeros : ∀ i, mem.getD i 0 = 0 → mem'.getD i 0 = 0

namespace Zeroed

lemma refl : Zeroed line mem mem := ⟨rfl, fun _ _ => rfl, fun _ h => h⟩

lemma trans {mem'' : List UInt8} (h : Zeroed line mem mem') (h' : Zeroed line mem' mem'') : Zeroed line mem mem'' :=
  ⟨h'.length.trans h.length, fun i hi => (h'.words i hi).trans (h.words i hi),
    fun i hi => h'.zeros i (h.zeros i hi)⟩

lemma set (hp : Word line p w) : Zeroed line mem (mem.set p.eq 0) := by
  refine ⟨length_set, ?_, ?_⟩
  · intro i hi
    have hne : p.eq ≠ i := by
      rintro rfl
      have hword := hi.2
      rw [hp.ends hi.1] at hword
      exact Bool.false_ne_true hword
    rw [List.getD_eq_getElem?_getD, List.getElem?_set_ne hne, ← List.getD_eq_getElem?_getD]
  · intro i hi
    rw [List.getD_eq_getElem?_getD, List.getElem?_set]
    split
    · split <;> rfl
    · rwa [← List.getD_eq_getElem?_getD]

end Zeroed

lemma getD_set_self (mem : List UInt8) (i : Nat) : (mem.set i 0).getD i 0 = 0 := by
  rw [List.getD_eq_getElem?_getD, List.getElem?_set]
  split
  · split <;> rfl
  · contradiction

lemma Word.wordAt (hp : Word line p w) {i : Nat} (hi : i < w.length) :
    WordAt line (p.q + i) ∧ deref line (p.q + i) = w.getD i 0 := by
  have hderef : deref line (p.q + i) = w.getD i 0 := by
    rw [deref_add, hp.text, getD_append _ _ _ _ hi]
  have heq := hp.eq
  have hle := hp.le
  refine ⟨⟨by omega, ?_⟩, hderef⟩
  rw [hderef, getD_eq_getElem _ _ hi]
  exact hp.chars _ (getElem_mem hi)

lemma cstring_eq (h0 : 0 ∉ line) (hp : Word line p w) (h : Zeroed line (line ++ [0]) mem)
    (hzero : mem.getD p.eq 0 = 0) : cstring mem p = w := by
  have heq := hp.eq
  have hle := hp.le
  have hlen := h.length
  rw [length_append, length_singleton] at hlen
  have hsame : ∀ i, i < w.length → mem.getD (p.q + i) 0 = w.getD i 0 := by
    intro i hi
    obtain ⟨hat, hderef⟩ := hp.wordAt hi
    rw [h.words _ hat, getD_append _ _ _ _ hat.1]
    exact hderef
  have hdrop : mem.drop p.q = w ++ 0 :: mem.drop (p.eq + 1) := by
    apply ext_getElem
    · rw [length_drop, length_append, length_cons, length_drop]
      omega
    intro i h1 h2
    rw [length_drop] at h1
    rw [getElem_drop]
    by_cases hi : i < w.length
    · rw [getElem_append_left hi]
      have := hsame i hi
      rwa [getD_eq_getElem _ _ (by omega), getD_eq_getElem _ _ hi] at this
    rw [getElem_append_right (by omega)]
    by_cases hend : i = w.length
    · subst hend
      simp only [Nat.sub_self, getElem_cons_zero]
      rwa [getD_eq_getElem _ _ (by omega), show mem[p.eq] = mem[p.q + w.length] by congr 1] at hzero
    · rw [getElem_cons, dif_neg (by omega), getElem_drop]
      congr 1
      omega
  have hne : ∀ a ∈ w, decide (a ≠ 0) = true := by
    intro a ha
    rw [decide_eq_true_iff]
    rintro rfl
    have hmem : (0 : UInt8) ∈ line.drop p.q := by
      rw [hp.text]
      exact mem_append_left _ ha
    exact h0 (mem_of_mem_drop hmem)
  rw [cstring, hdrop, takeWhile_append_of_pos hne]
  simp

lemma nulterminate_spec (h0 : 0 ∉ line) (hc : Denotes line c t) (h : Zeroed line (line ++ [0]) mem) :
    Zeroed line mem (nulterminate c mem) ∧
    ∀ mem', Zeroed line (nulterminate c mem) mem' → c.map (cstring mem') = t := by
  induction hc generalizing mem with
  | exec hargs =>
    rename_i argv ws
    have hall : Zeroed line mem (argv.foldl (fun mem w => mem.set w.eq 0) mem) ∧
        ∀ mem', Zeroed line (argv.foldl (fun mem w => mem.set w.eq 0) mem) mem' → argv.map (cstring mem') = ws := by
      induction hargs generalizing mem with
      | nil => exact ⟨.refl, fun _ _ => rfl⟩
      | @cons p w argv ws hp hargs ih =>
        have hset : Zeroed line mem (mem.set p.eq 0) := .set hp
        obtain ⟨hrest, hmap⟩ := ih (h.trans hset)
        refine ⟨hset.trans hrest, fun mem' hmem => ?_⟩
        have hzero := hmem.zeros _ (hrest.zeros _ (getD_set_self mem p.eq))
        rw [map_cons, hmap mem' hmem,
          cstring_eq h0 hp (h.trans (hset.trans (hrest.trans hmem))) hzero]
    refine ⟨hall.1, fun mem' hmem => ?_⟩
    rw [Cmd.map, hall.2 mem' hmem]
  | @redir c t p w mode fd hc hp ih =>
    obtain ⟨hcmd, hmap⟩ := ih h
    have hset : Zeroed line (nulterminate c mem) ((nulterminate c mem).set p.eq 0) := .set hp
    refine ⟨hcmd.trans hset, fun mem' hmem => ?_⟩
    have hzero := hmem.zeros _ (getD_set_self _ p.eq)
    rw [Cmd.map, hmap mem' (hset.trans hmem),
      cstring_eq h0 hp (h.trans (hcmd.trans (hset.trans hmem))) hzero]
  | @pipe c d t u hc hd ihc ihd =>
    obtain ⟨hleft, hmapl⟩ := ihc h
    obtain ⟨hright, hmapr⟩ := ihd (h.trans hleft)
    refine ⟨hleft.trans hright, fun mem' hmem => ?_⟩
    rw [Cmd.map, hmapl mem' (hright.trans hmem), hmapr mem' hmem]
  | @list c d t u hc hd ihc ihd =>
    obtain ⟨hleft, hmapl⟩ := ihc h
    obtain ⟨hright, hmapr⟩ := ihd (h.trans hleft)
    refine ⟨hleft.trans hright, fun mem' hmem => ?_⟩
    rw [Cmd.map, hmapl mem' (hright.trans hmem), hmapr mem' hmem]
  | @back c t hc ih =>
    obtain ⟨hcmd, hmap⟩ := ih h
    refine ⟨hcmd, fun mem' hmem => ?_⟩
    rw [Cmd.map, hmap mem' hmem]

lemma strings_eq (h0 : 0 ∉ line) (hc : Denotes line c t) : c.map (cstring (nulterminate c (line ++ [0]))) = t :=
  (nulterminate_spec h0 hc .refl).2 _ .refl

lemma parse_sound {ts : List Token} (h0 : 0 ∉ line) (hts : Spells line ts) :
    Ensures (parse line) 0 (fun c _ => ∃ t, Derives .line ts t ∧ Denotes line c t) IsPanic := by
  have hat : At line ts 0 := ⟨Nat.zero_le _, hts⟩
  have hlen := hat.length_le
  rw [parse]
  refine Ensures.bind ((parser_sound h0 _).1 ts 0 hat (by omega)) ?_
  rintro c s ⟨used, rest, t, rfl, h1, hd, hc⟩
  refine peek_bind (subset_symbols rfl) h1 fun s' h2 => ?_
  refine Ensures.get_bind (Ensures.ite (fun _ => .throw ⟨_, by decide, rfl⟩) fun hend => ?_)
  -- the whole line was taken
  have hnil : rest = [] := by
    have hspells := h2.spells
    rw [not_not.mp hend, drop_length] at hspells
    have := hspells.length_le
    exact eq_nil_of_length_eq_zero (Nat.le_zero.mp this)
  refine .pure ⟨t, ?_, hc⟩
  rwa [hnil, append_nil]

lemma peek_end {s : Nat} {E : Stop → Prop} (h : At line [] s) :
    Ensures (peek line "") s (fun _ s' => s' = line.length) E := by
  have hend : skip line s = line.length := by
    rcases h.head with ⟨hend, -⟩ | ⟨t, ts, l, hcons, -⟩
    · exact hend
    · cases hcons
  have hpeek : peek line "" s = .ok (nextIn "" []) (skip line s) := peek_eq (subset_symbols rfl) h
  rw [hend] at hpeek
  refine ⟨fun b s' hb => ?_, fun e s' he => ?_⟩
  · rw [hpeek] at hb
    cases hb
    rfl
  · rw [hpeek] at he
    cases he

lemma parse_complete {ts : List Token} (h0 : 0 ∉ line) (hts : Spells line ts) (hd : Derives .line ts t) :
    Ensures (parse line) 0 (fun c _ => Denotes line c t) fun _ => False := by
  have hat : At line (ts ++ []) 0 := ⟨Nat.zero_le _, (append_nil ts).symm ▸ hts⟩
  have hlen := hat.length_le
  have hline : Ensures (Nonterminal.line.parser line (4 * line.length + 4)) 0
      (fun c s' => At line [] s' ∧ Denotes line c t) fun _ => False := by
    apply parser_complete h0 hd _ hat (.inl rfl)
    rw [Nonterminal.extra]
    omega
  rw [parse]
  refine Ensures.bind hline ?_
  rintro c s ⟨h1, hc⟩
  refine Ensures.bind (peek_end h1) ?_
  rintro _ s' rfl
  apply Ensures.get_bind
  rw [if_neg (fun hne => hne rfl)]
  exact .pure hc

/-- `parsecmd` ends with a command exactly if the line derives it in the grammar, and in a panic otherwise. -/
theorem parsecmd_iff_derives (line : List UInt8) (h0 : 0 ∉ line) :
    (∀ t, parsecmd line = .ok t ↔ ∃ ts, Spells line ts ∧ Derives .line ts t) ∧
    ((∃ t, parsecmd line = .ok t) ∨ ∃ msg ∈ panics, parsecmd line = .error (.panic msg)) := by
  obtain ⟨ts, hts⟩ := Spells.total line
  have hsound := parse_sound h0 hts
  have hcases : (∃ t, parsecmd line = .ok t ∧ Derives .line ts t) ∨
      ∃ msg ∈ panics, parsecmd line = .error (.panic msg) := by
    rw [parsecmd, EStateM.run]
    cases hp : parse line 0 with
    | ok c s =>
      obtain ⟨t, hd, hc⟩ := hsound.of_ok c s hp
      exact .inl ⟨t, congrArg Except.ok (strings_eq h0 hc), hd⟩
    | error e s =>
      obtain ⟨msg, hmsg, rfl⟩ := hsound.of_error e s hp
      exact .inr ⟨msg, hmsg, rfl⟩
  refine ⟨fun t => ⟨fun ht => ?_, ?_⟩, hcases.imp_left fun ⟨t, ht, _⟩ => ⟨t, ht⟩⟩
  · rcases hcases with ⟨u, hu, hd⟩ | ⟨msg, -, hmsg⟩
    · obtain rfl : u = t := Except.ok.inj (hu.symm.trans ht)
      exact ⟨ts, hts, hd⟩
    · rw [hmsg] at ht
      cases ht
  rintro ⟨ts', hts', hd⟩
  have hcomplete := parse_complete h0 hts' hd
  rw [parsecmd, EStateM.run]
  cases hp : parse line 0 with
  | ok c s => exact congrArg Except.ok (strings_eq h0 (hcomplete.of_ok c s hp))
  | error e s => exact (hcomplete.of_error e s hp).elim

/-- `a <f|(b&;)` -/
def pipeLine : List UInt8 := chars "a <f|(b&;)"

theorem parsecmd_pipeLine :
    0 ∉ pipeLine ∧ ∃ ts, Spells pipeLine ts ∧ Derives .line ts
      (.pipe (.redir (.exec [chars "a"]) (chars "f") O_RDONLY 0)
        (.list (.back (.exec [chars "b"])) (.exec []))) :=
  ⟨by decide, ((parsecmd_iff_derives pipeLine (by decide)).1 _).mp (by decide)⟩

/-! ## The strings of a command -/

/-- The arguments and the file names. -/
def Cmd.strings {σ : Type} : Cmd σ → List σ
  | .exec argv => argv
  | .redir cmd file _ _ => file :: cmd.strings
  | .pipe left right | .list left right => left.strings ++ right.strings
  | .back cmd => cmd.strings

/-- The argument vectors, without their null pointers. -/
def Cmd.argvs {σ : Type} : Cmd σ → List (List σ)
  | .exec argv => [argv]
  | .redir cmd _ _ _ => cmd.argvs
  | .pipe left right | .list left right => left.argvs ++ right.argvs
  | .back cmd => cmd.argvs

/-- The text of a token. -/
def Span.text (line : List UInt8) (p : Span) : List UInt8 := (line.drop p.q).take (p.eq - p.q)

lemma Cmd.strings_map {σ τ : Type} (f : σ → τ) (c : Cmd σ) : (c.map f).strings = c.strings.map f := by
  induction c <;> simp_all [Cmd.map, Cmd.strings]

lemma Cmd.argvs_map {σ τ : Type} (f : σ → τ) (c : Cmd σ) : (c.map f).argvs = c.argvs.map (List.map f) := by
  induction c <;> simp_all [Cmd.map, Cmd.argvs]

lemma Cmd.argvs_backs (t : Tree) (n : Nat) : (t.backs n).argvs = t.argvs := by
  induction n generalizing t with
  | zero => rfl
  | succ n ih => exact ih (.back t)

lemma Cmd.argvs_wrap (t : Tree) (rs : List Redirection) : (t.wrap rs).argvs = t.argvs := by
  induction rs generalizing t with
  | nil => rfl
  | cons r rs ih => exact ih _

lemma Word.span_text {p : Span} {w : List UInt8} (h : Word line p w) : p.text line = w := by
  rw [Span.text, h.text, h.eq, Nat.add_sub_cancel_left, take_left]

lemma Denotes.words (h : Denotes line c t) : Forall₂ (Word line) c.strings t.strings := by
  induction h with
  | exec hargs => exact hargs
  | redir hc hp ih => exact .cons hp ih
  | pipe hc hd ihc ihd => exact rel_append ihc ihd
  | list hc hd ihc ihd => exact rel_append ihc ihd
  | back hc ih => exact ih

lemma Derives.argvs {n : Nonterminal} {ts : List Token} (h : Derives n ts t) :
    ∀ argv ∈ t.argvs, argv.length < MAXARGS := by
  induction h with
  | line n hp ih => rwa [Cmd.argvs_backs]
  | list n hp hl ihp ihl =>
    rw [Cmd.argvs, Cmd.argvs_backs]
    exact forall_mem_append.mpr ⟨ihp, ihl⟩
  | single he ih => exact ih
  | pipe he hp ihe ihp => exact forall_mem_append.mpr ⟨ihe, ihp⟩
  | block hl hr ih => rwa [Cmd.argvs_wrap]
  | exec hr ha hlen =>
    rw [Cmd.argvs_wrap]
    exact forall_mem_singleton.mpr (Nat.lt_succ_of_le hlen)

/-- After `nulterminate` every string of a command is the text of its token: no NUL is written inside a token. -/
theorem nulterminate_strings (line : List UInt8) (h0 : 0 ∉ line) (c : Cmd Span) (s : Nat)
    (h : parse line 0 = .ok c s) :
    (∀ p ∈ c.strings, cstring (nulterminate c (line ++ [0])) p = p.text line) ∧
    (∀ argv ∈ c.argvs, argv.length < MAXARGS) ∧
    ∀ p ∈ c.strings, ∀ w ∈ c.strings, ¬(p.q ≤ w.eq ∧ w.eq < p.eq) := by
  obtain ⟨ts, hts⟩ := Spells.total line
  obtain ⟨t, hd, hc⟩ := (parse_sound h0 hts).of_ok c s h
  have hstrings := strings_eq h0 hc
  have hwords := hc.words
  rw [← hstrings, Cmd.strings_map, forall₂_map_right_iff, forall₂_same] at hwords
  refine ⟨fun p hp => (hwords p hp).span_text.symm, fun argv hargv => ?_, fun p hp w hw hin => ?_⟩
  · rw [← length_map (cstring (nulterminate c (line ++ [0])))]
    refine hd.argvs _ ?_
    rw [← hstrings, Cmd.argvs_map]
    exact mem_map_of_mem hargv
  · have hword := hwords p hp
    have hlen := hword.eq
    obtain ⟨hat, -⟩ := hword.wordAt (i := w.eq - p.q) (by omega)
    rw [Nat.add_sub_cancel' hin.1] at hat
    have hend := (hwords w hw).ends hat.1
    rw [hat.2] at hend
    cases hend

theorem nulterminate_strings_pipeLine : ∃ c s, parse pipeLine 0 = .ok c s ∧
    ∀ p ∈ c.strings, cstring (nulterminate c (pipeLine ++ [0])) p = p.text pipeLine :=
  ⟨_, _, rfl, (nulterminate_strings pipeLine (by decide) _ _ rfl).1⟩

end Xv6.Shell
