import Mathlib.Tactic.NormNum.GCD
import Mathlib.Tactic.Ring
import Xv6.Proofs.RandomTable

/-!
# What a stream of random numbers holds

The state of a stream is the last seed it was given times a power of the multiplier, which counts the
calls that concern the stream.
-/

namespace Xv6.Random

def M : Nat := 2147483647

def A : Nat := 24112 * 26143

/-! ## One update -/

lemma toNat_sshiftRight_of_lt {x : Word} (h : x.toNat < 2 ^ 31) (n : Nat) :
    (x.sshiftRight n).toNat = x.toNat / 2 ^ n := by
  have hmsb : x.msb = false := BitVec.msb_eq_false_iff_two_mul_lt.mpr (by omega)
  rw [BitVec.sshiftRight_eq_of_msb_false hmsb, BitVec.toNat_ushiftRight, Nat.shiftRight_eq_div_pow]

lemma toNat_and_low (x : Word) : (x &&& 65535).toNat = x.toNat % 65536 := by
  rw [BitVec.toNat_and]
  exact Nat.and_two_pow_sub_one_eq_mod x.toNat 16

lemma toNat_and_15 (x : Word) : (x &&& 32767).toNat = x.toNat % 32768 := by
  rw [BitVec.toNat_and]
  exact Nat.and_two_pow_sub_one_eq_mod x.toNat 15

/-- The product by halves, folded at bit 31, is the product modulo `2^31 - 1`. -/
lemma fold_product {z m low hi : Nat} (hz : z < 2 ^ 31) (hm : m < 2 ^ 15) (hlow : low = z % 65536 * m)
    (hhi : hi = z / 65536 * m + low / 65536) :
    low < 2 ^ 31 ∧ hi < 2 ^ 30 ∧ low % 65536 + hi % 32768 * 65536 + hi / 32768 < 2 * M ∧
      (low % 65536 + hi % 32768 * 65536 + hi / 32768) % M = z * m % M := by
  have hlow_lt : low < 65536 * 2 ^ 15 := by
    rw [hlow]
    calc z % 65536 * m ≤ 65536 * m := Nat.mul_le_mul_right m (by omega)
      _ < 65536 * 2 ^ 15 := by omega
  have hprod_lt : z / 65536 * m ≤ 32767 * 32767 := Nat.mul_le_mul (by omega) (by omega)
  have hprod : z * m = hi * 65536 + low % 65536 := by
    have hsplit : z * m = z / 65536 * m * 65536 + z % 65536 * m := by
      conv_lhs => rw [← Nat.div_add_mod z 65536]
      ring
    rw [hsplit, hhi, ← hlow]
    omega
  have hsum : z * m = hi / 32768 * M + (low % 65536 + hi % 32768 * 65536 + hi / 32768) := by
    rw [hprod]
    unfold M
    omega
  refine ⟨by omega, by omega, by unfold M; omega, ?_⟩
  rw [hsum, Nat.mul_add_mod']

lemma toNat_mulStep {zi : Word} {m : Nat} (hz : zi.toNat < 2 ^ 31) (hm : m < 2 ^ 15) :
    (mulStep zi (BitVec.ofNat 32 m)).toNat = zi.toNat * m % M := by
  have hmw : (BitVec.ofNat 32 m).toNat = m := by
    rw [BitVec.toNat_ofNat]
    exact Nat.mod_eq_of_lt (by omega)
  obtain ⟨hlow, hhi, hsum, hmod⟩ := fold_product hz hm rfl rfl
  have h1 : ((zi &&& 65535) * BitVec.ofNat 32 m).toNat = zi.toNat % 65536 * m := by
    rw [BitVec.toNat_mul, toNat_and_low, hmw]
    exact Nat.mod_eq_of_lt (by omega)
  have h2 : (zi.sshiftRight 16 * BitVec.ofNat 32 m + ((zi &&& 65535) * BitVec.ofNat 32 m).sshiftRight 16).toNat =
      zi.toNat / 65536 * m + zi.toNat % 65536 * m / 65536 := by
    have hz16 : (zi.sshiftRight 16).toNat = zi.toNat / 65536 := toNat_sshiftRight_of_lt hz 16
    have hlow16 : (((zi &&& 65535) * BitVec.ofNat 32 m).sshiftRight 16).toNat = zi.toNat % 65536 * m / 65536 := by
      rw [toNat_sshiftRight_of_lt (by rw [h1]; exact hlow) 16, h1, show 2 ^ 16 = 65536 from rfl]
    rw [BitVec.toNat_add, BitVec.toNat_mul, hmw, hz16, hlow16]
    omega
  generalize hlw : (zi &&& 65535) * BitVec.ofNat 32 m = lowprd at *
  generalize hhw : zi.sshiftRight 16 * BitVec.ofNat 32 m + lowprd.sshiftRight 16 = hi3l at *
  have h3 : ((lowprd &&& (65535 : Word)) - MODLUS + ((hi3l &&& 32767) <<< 16) + hi3l.sshiftRight 15).toNat =
      (lowprd.toNat % 65536 + hi3l.toNat % 32768 * 65536 + hi3l.toNat / 32768 + (2 ^ 32 - M)) % 2 ^ 32 := by
    have hMod : MODLUS.toNat = M := rfl
    rw [BitVec.toNat_add, BitVec.toNat_add, BitVec.toNat_sub, toNat_and_low, hMod, BitVec.toNat_shiftLeft, toNat_and_15,
      toNat_sshiftRight_of_lt (by rw [h2]; omega), Nat.shiftLeft_eq]
    unfold M
    omega
  unfold mulStep
  dsimp only
  rw [hlw, hhw]
  rw [h1, h2] at h3
  generalize hS : zi.toNat % 65536 * m % 65536 + (zi.toNat / 65536 * m + zi.toNat % 65536 * m / 65536) % 32768 * 65536 +
    (zi.toNat / 65536 * m + zi.toNat % 65536 * m / 65536) / 32768 = S at h3 hsum hmod
  generalize (lowprd &&& (65535 : Word)) - MODLUS + ((hi3l &&& 32767) <<< 16) + hi3l.sshiftRight 15 = x at h3 ⊢
  rw [← hmod]
  have hx : x.toInt < 0 ↔ S < M := by
    rw [BitVec.toInt_eq_toNat_cond, h3]
    unfold M at *
    split <;> omega
  by_cases hneg : S < M
  · rw [if_pos (hx.mpr hneg), BitVec.toNat_add, h3, Nat.mod_eq_of_lt hneg]
    have hMod : MODLUS.toNat = M := rfl
    rw [hMod]
    unfold M at *
    omega
  · rw [if_neg fun hc => hneg (hx.mp hc), h3, Nat.mod_eq_sub_mod (by omega), Nat.mod_eq_of_lt (by omega)]
    unfold M at *
    omega

lemma M_pos : 0 < M := by decide

lemma toNat_nextState {zi : Word} (hz : zi.toNat < M) : (nextState zi).toNat = A * zi.toNat % M := by
  have h1 : (mulStep zi MULTONE).toNat = zi.toNat * 24112 % M :=
    toNat_mulStep (hz.trans (by decide)) (by decide)
  have hlt : (mulStep zi MULTONE).toNat < 2 ^ 31 := by
    rw [h1]
    exact (Nat.mod_lt _ M_pos).trans (by decide)
  have h2 : (mulStep (mulStep zi MULTONE) MULTTWO).toNat = (mulStep zi MULTONE).toNat * 26143 % M :=
    toNat_mulStep hlt (by decide)
  have hA : zi.toNat * 24112 * 26143 = A * zi.toNat := by
    unfold A
    ring
  unfold nextState
  rw [h2, h1, Nat.mod_mul_mod, hA]

/-- The state space of the generator: nonzero residues. -/
def InGroup (zi : Word) : Prop := 1 ≤ zi.toInt ∧ zi.toInt ≤ 2 ^ 31 - 2

instance (zi : Word) : Decidable (InGroup zi) := inferInstanceAs (Decidable (_ ∧ _))

lemma inGroup_iff {zi : Word} : InGroup zi ↔ 0 < zi.toNat ∧ zi.toNat < M := by
  unfold InGroup M
  rw [BitVec.toInt_eq_toNat_cond]
  split <;> omega

lemma coprime_A : Nat.Coprime A M := by
  unfold A M
  norm_num

lemma InGroup.nextState {zi : Word} (h : InGroup zi) : InGroup (nextState zi) := by
  obtain ⟨hpos, hlt⟩ := inGroup_iff.mp h
  rw [inGroup_iff, toNat_nextState hlt]
  refine ⟨?_, Nat.mod_lt _ M_pos⟩
  rw [Nat.pos_iff_ne_zero]
  intro hzero
  have hdvd : M ∣ zi.toNat := coprime_A.symm.dvd_of_dvd_mul_left (Nat.dvd_of_mod_eq_zero hzero)
  exact absurd (Nat.le_of_dvd hpos hdvd) (by omega)

/-! ## What a call does to a stream -/

inductive Event where
  | advance
  | reseed (s : Word)
deriving DecidableEq

def Event.apply (zi : Word) : Event → Word
  | .advance => nextState zi
  | .reseed s => s

/-- What a call does to stream `k` while `sel` is the selected stream: `random_set` on it and `random`
while it is selected are one update. -/
def Call.event (k : Int) (sel : Word) : Call → Option Event
  | .random => if sel.toInt = k then some .advance else none
  | .randomSet u =>
    match (argint u 0).1 with
    | some stream => if stream.toInt = k then some .advance else none
    | none => none
  | .changeSeed u =>
    match (argint u 0).1, (argint u 1).1 with
    | some stream, some set => if stream.toInt = k then some (.reseed set) else none
    | _, _ => none
  | .actualSeed _ => none

def Call.select (sel : Word) : Call → Word
  | .randomSet u => ((argint u 0).1).getD sel
  | _ => sel

def events (k : Int) (sel : Word) : List Call → List Event
  | [] => []
  | c :: cs => (c.event k sel).toList ++ events k (c.select sel) cs

def run (g : Gen) : List Call → Option Gen
  | [] => some g
  | c :: cs =>
    match c.exec g with
    | .ret _ g' _ => run g' cs
    | .wild _ => none

def Selects (g : Gen) (sel : Word) : Prop := g.seed = sel ∨ (g.seed.toInt ≤ 0 ∧ sel.toInt ≤ 0)

lemma entry_setEntry_self (g : Gen) {k : Int} (zi : Word) (hk : inTable k) : (g.setEntry k zi).entry k = zi := by
  have hlt : k.toNat < 101 := by
    unfold inTable at hk
    omega
  unfold Gen.setEntry Gen.entry
  simp [hlt]

lemma inTable_of_stream {k : Int} (h1 : 1 ≤ k) (h2 : k ≤ 100) : inTable k := by
  unfold inTable
  omega

lemma entry_advance (g : Gen) (hsel : selected g.seed) {k : Int} (h1 : 1 ≤ k) (h2 : k ≤ 100) :
    g.advance.entry k = if g.seed.toInt = k then nextState (g.entry k) else g.entry k := by
  have hvalue : ∀ (g : Gen) v, Gen.entry { g with randomValue := v } k = g.entry k := fun _ _ => rfl
  unfold Gen.advance
  rw [hvalue]
  by_cases hk : g.seed.toInt = k
  · rw [if_pos hk, hk, entry_setEntry_self g _ (inTable_of_stream h1 h2)]
  · rw [if_neg hk, setEntry_other g _ k _ (selected_inTable hsel) (inTable_of_stream h1 h2) (Ne.symm hk)]

lemma calls_store (s : Word) :
    (∀ g : Gen, selected g.seed → g.entry g.seed.toInt = s →
      ∃ v g' used, sysRandom g = .ret v g' used ∧ g'.entry g.seed.toInt = nextState s) ∧
    ∀ (u : User) (g : Gen) (k : Word), (argint u 0).1 = some k → selected k → g.entry k.toInt = s →
      ∃ v g' used, sysRandomSet u g = .ret v g' used ∧ g'.entry k.toInt = nextState s := by
  have hself : ∀ g : Gen, selected g.seed → g.entry g.seed.toInt = s → g.advance.entry g.seed.toInt = nextState s := by
    intro g hsel hg
    unfold selected at hsel
    rw [entry_advance g hsel (by omega) (by omega), if_pos rfl, hg]
  refine ⟨fun g hsel hg => ⟨.float g.advance.randomValue, g.advance, [g.seed.toInt], ?_, hself g hsel hg⟩,
    fun u g k hu hsel hg => ⟨.int 0, Gen.advance { g with seed := k }, [k.toInt], ?_, hself _ hsel hg⟩⟩
  · have hnonneg : ¬g.seed.toInt ≤ 0 := by
      unfold selected at hsel
      omega
    unfold sysRandom
    rw [if_neg hnonneg, if_pos hsel]
  · unfold sysRandomSet
    rw [hu]
    dsimp only
    rw [if_pos hsel]

lemma not_selected_ne {seed : Word} (h : ¬selected seed) {k : Int} (h1 : 1 ≤ k) (h2 : k ≤ 100) : seed.toInt ≠ k := by
  rintro rfl
  exact h ⟨by omega, by omega⟩

def after (zi : Word) : Option Event → Word
  | none => zi
  | some e => e.apply zi

/-- A call that returns does to each stream what its event says, and selects what it says. -/
structure Does (g g' : Gen) (sel : Word) (c : Call) : Prop where
  entry : ∀ k, 1 ≤ k → k ≤ 100 → g'.entry k = after (g.entry k) (c.event k sel)
  selects : Selects g' (c.select sel)

lemma random_does {g : Gen} {sel : Word} (hs : Selects g sel) {v : Value} {g' : Gen} {used : List Int}
    (h : Call.random.exec g = .ret v g' used) : Does g g' sel .random := by
  simp only [Call.exec, sysRandom] at h
  by_cases hneg : g.seed.toInt ≤ 0
  · have hsel : ¬selected (0 : Word) := by decide
    rw [if_pos hneg, if_neg hsel] at h
    cases h
    have hsel0 : sel.toInt ≤ 0 := by
      rcases hs with rfl | ⟨-, hs⟩
      · exact hneg
      · exact hs
    refine ⟨fun k h1 _ => ?_, .inr ⟨show (0 : Word).toInt ≤ 0 by decide, hsel0⟩⟩
    simp only [Call.event]
    rw [if_neg (by omega)]
    rfl
  · rw [if_neg hneg] at h
    have heq : g.seed = sel := hs.resolve_right fun hc => hneg hc.1
    by_cases hsel : selected g.seed
    · rw [if_pos hsel] at h
      cases h
      refine ⟨fun k h1 h2 => ?_, .inl heq⟩
      rw [entry_advance g hsel h1 h2, heq]
      simp only [Call.event]
      by_cases hk : sel.toInt = k
      · rw [if_pos hk, if_pos hk]
        rfl
      · rw [if_neg hk, if_neg hk]
        rfl
    · rw [if_neg hsel] at h
      cases h
      refine ⟨fun k h1 h2 => ?_, hs⟩
      simp only [Call.event]
      rw [if_neg (heq ▸ not_selected_ne hsel h1 h2)]
      rfl

lemma randomSet_does {g : Gen} {sel : Word} (hs : Selects g sel) {u : User} {v : Value} {g' : Gen} {used : List Int}
    (h : (Call.randomSet u).exec g = .ret v g' used) : Does g g' sel (.randomSet u) := by
  simp only [Call.exec, sysRandomSet] at h
  cases harg : (argint u 0).1 with
  | none =>
    rw [harg] at h
    cases h
    refine ⟨fun k _ _ => ?_, ?_⟩
    · simp only [Call.event, harg]
      rfl
    · simpa only [Call.select, harg, Option.getD_none] using hs
  | some stream =>
    rw [harg] at h
    dsimp only at h
    by_cases hsel : selected stream
    · rw [if_pos hsel] at h
      cases h
      refine ⟨fun k h1 h2 => ?_, .inl ?_⟩
      · rw [entry_advance { g with seed := stream } hsel h1 h2]
        simp only [Call.event, harg]
        by_cases hk : stream.toInt = k
        · rw [if_pos hk, if_pos hk]
          rfl
        · rw [if_neg hk, if_neg hk]
          rfl
      · simp only [Call.select, harg, Option.getD_some]
        rfl
    · rw [if_neg hsel] at h
      cases h
      refine ⟨fun k h1 h2 => ?_, .inl ?_⟩
      · simp only [Call.event, harg]
        rw [if_neg (not_selected_ne hsel h1 h2)]
        rfl
      · simp only [Call.select, harg, Option.getD_some]

lemma changeSeed_does {g : Gen} {sel : Word} (hs : Selects g sel) {u : User} {v : Value} {g' : Gen} {used : List Int}
    (h : (Call.changeSeed u).exec g = .ret v g' used) : Does g g' sel (.changeSeed u) := by
  simp only [Call.exec, sysChangeSeed] at h
  cases harg : (argint u 0).1 with
  | none =>
    rw [harg] at h
    cases h
    refine ⟨fun k _ _ => ?_, hs⟩
    simp only [Call.event, harg]
    rfl
  | some stream =>
    cases harg1 : (argint u 1).1 with
    | none =>
      rw [harg, harg1] at h
      cases h
      refine ⟨fun k _ _ => ?_, hs⟩
      simp only [Call.event, harg, harg1]
      rfl
    | some set =>
      rw [harg, harg1] at h
      dsimp only at h
      by_cases ht : inTable stream.toInt
      · rw [if_pos ht] at h
        cases h
        refine ⟨fun k h1 h2 => ?_, hs⟩
        simp only [Call.event, harg, harg1]
        by_cases hk : stream.toInt = k
        · rw [if_pos hk, hk, entry_setEntry_self g set (inTable_of_stream h1 h2)]
          rfl
        · rw [if_neg hk, setEntry_other g _ k set ht (inTable_of_stream h1 h2) (Ne.symm hk)]
          rfl
      · rw [if_neg ht] at h
        cases h

lemma actualSeed_does {g : Gen} {sel : Word} (hs : Selects g sel) {u : User} {v : Value} {g' : Gen} {used : List Int}
    (h : (Call.actualSeed u).exec g = .ret v g' used) : Does g g' sel (.actualSeed u) := by
  have hg : g' = g := by
    simp only [Call.exec, sysActualSeed] at h
    cases harg : (argint u 0).1 with
    | none =>
      rw [harg] at h
      cases h
      rfl
    | some stream =>
      rw [harg] at h
      dsimp only at h
      split at h
      · cases h
        rfl
      · cases h
  subst hg
  exact ⟨fun _ _ _ => rfl, hs⟩

lemma exec_does {g : Gen} {sel : Word} (hs : Selects g sel) {c : Call} {v : Value} {g' : Gen} {used : List Int}
    (h : c.exec g = .ret v g' used) : Does g g' sel c := by
  cases c with
  | random => exact random_does hs h
  | randomSet u => exact randomSet_does hs h
  | changeSeed u => exact changeSeed_does hs h
  | actualSeed u => exact actualSeed_does hs h

/-! ## Runs -/

lemma run_entry {g g' : Gen} {sel : Word} {calls : List Call} (hs : Selects g sel) (h : run g calls = some g')
    {k : Int} (h1 : 1 ≤ k) (h2 : k ≤ 100) : g'.entry k = (events k sel calls).foldl Event.apply (g.entry k) := by
  induction calls generalizing g sel with
  | nil =>
    cases h
    rfl
  | cons c cs ih =>
    unfold run at h
    cases hex : c.exec g with
    | wild i =>
      rw [hex] at h
      cases h
    | ret v g1 used =>
      rw [hex] at h
      have hdoes := exec_does hs hex
      rw [ih hdoes.selects h, hdoes.entry k h1 h2, events, List.foldl_append]
      cases c.event k sel <;> rfl

/-- The last seed set among `es`, `s` if there is none. -/
def lastSeed (s : Word) : List Event → Word
  | [] => s
  | .advance :: es => lastSeed s es
  | .reseed s' :: es => lastSeed s' es

/-- The updates since the last seed was set, `n` of them before `es`. -/
def advances (n : Nat) : List Event → Nat
  | [] => n
  | .advance :: es => advances (n + 1) es
  | .reseed _ :: es => advances 0 es

def Seeds (es : List Event) : Prop := ∀ s, .reseed s ∈ es → InGroup s

lemma foldl_events {es : List Event} (hes : Seeds es) {zi s : Word} {n : Nat} (hs : InGroup s)
    (hz : zi.toNat = A ^ n * s.toNat % M) :
    (es.foldl Event.apply zi).toNat = A ^ advances n es * (lastSeed s es).toNat % M := by
  induction es generalizing zi s n with
  | nil => exact hz
  | cons e es ih =>
    have hrest : Seeds es := fun s' hs' => hes s' (List.mem_cons_of_mem e hs')
    cases e with
    | advance =>
      refine ih hrest hs ?_
      have hlt : zi.toNat < M := by
        rw [hz]
        exact Nat.mod_lt _ M_pos
      show (nextState zi).toNat = _
      rw [toNat_nextState hlt, hz, Nat.mul_mod_mod, pow_succ', Nat.mul_assoc]
    | reseed s' =>
      have hs' : InGroup s' := hes s' (List.mem_cons_self ..)
      refine ih hrest hs' ?_
      show s'.toNat = _
      rw [pow_zero, Nat.one_mul, Nat.mod_eq_of_lt (inGroup_iff.mp hs').2]

/-- A stream argument lies in `1..100`, and a seed that is set is in the group. -/
def Call.Regular : Call → Prop
  | .random => True
  | .randomSet u => ∀ stream, (argint u 0).1 = some stream → 1 ≤ stream.toInt ∧ stream.toInt ≤ 100
  | .changeSeed u => (∀ stream, (argint u 0).1 = some stream → 1 ≤ stream.toInt ∧ stream.toInt ≤ 100) ∧
      ∀ set, (argint u 1).1 = some set → InGroup set
  | .actualSeed u => ∀ stream, (argint u 0).1 = some stream → 1 ≤ stream.toInt ∧ stream.toInt ≤ 100

lemma Call.Regular.returns {c : Call} (h : c.Regular) (g : Gen) : ∃ v g' used, c.exec g = .ret v g' used := by
  have hrange : StreamInRange c := by
    cases c with
    | random => trivial
    | randomSet u => trivial
    | changeSeed u => exact fun stream hst _ => h.1 stream hst
    | actualSeed u => exact h
  have hconf := (confined_iff g c).mpr hrange
  unfold Confined at hconf
  cases hex : c.exec g with
  | ret v g' used => exact ⟨v, g', used, rfl⟩
  | wild i =>
    rw [hex] at hconf
    exact hconf.elim

lemma Call.Regular.event {c : Call} (h : c.Regular) {k : Int} {sel s : Word} (he : c.event k sel = some (.reseed s)) :
    InGroup s := by
  cases c with
  | random =>
    simp only [Call.event] at he
    split at he <;> cases he
  | randomSet u =>
    simp only [Call.event] at he
    split at he
    · split at he <;> cases he
    · cases he
  | changeSeed u =>
    simp only [Call.event] at he
    split at he
    · rename_i stream set _ hset
      split at he
      · cases he
        exact h.2 s hset
      · cases he
    · cases he
  | actualSeed u => cases he

lemma run_returns {calls : List Call} (h : ∀ c ∈ calls, c.Regular) (g : Gen) : ∃ g', run g calls = some g' := by
  induction calls generalizing g with
  | nil => exact ⟨g, rfl⟩
  | cons c cs ih =>
    obtain ⟨v, g1, used, hex⟩ := (h c (List.mem_cons_self ..)).returns g
    obtain ⟨g', hg'⟩ := ih (fun c' hc' => h c' (List.mem_cons_of_mem c hc')) g1
    refine ⟨g', ?_⟩
    unfold run
    rw [hex]
    exact hg'

lemma events_seeds {calls : List Call} (h : ∀ c ∈ calls, c.Regular) (k : Int) (sel : Word) :
    Seeds (events k sel calls) := by
  induction calls generalizing sel with
  | nil => exact fun s hs => absurd hs List.not_mem_nil
  | cons c cs ih =>
    intro s hs
    rcases List.mem_append.mp hs with hs | hs
    · exact (h c (List.mem_cons_self ..)).event (Option.mem_toList.mp hs)
    · exact ih (fun c' hc' => h c' (List.mem_cons_of_mem c hc')) _ s hs

lemma entry_genInit {k : Int} (h1 : 1 ≤ k) (h2 : k ≤ 100) : InGroup (genInit.entry k) := by
  have hall : ∀ i : Fin 101, i.val ≠ 0 → InGroup ((zrngInit[i.val]?).getD 0) := by decide +kernel
  exact hall ⟨k.toNat, by omega⟩ (by simp; omega)

/-- A stream holds its last seed times a power of the multiplier that counts what concerned it since;
and of two sequences of calls that agree on what concerns a stream, each leaves it as the other does. -/
theorem streams_reproducible (calls calls' : List Call) (h : ∀ c ∈ calls, c.Regular) (h' : ∀ c ∈ calls', c.Regular) :
    ∃ g g', run genInit calls = some g ∧ run genInit calls' = some g' ∧ ∀ k : Int, 1 ≤ k → k ≤ 100 →
      (g.entry k).toNat =
        A ^ advances 0 (events k 0 calls) * (lastSeed (genInit.entry k) (events k 0 calls)).toNat % M ∧
      (events k 0 calls = events k 0 calls' → g.entry k = g'.entry k) := by
  obtain ⟨g, hg⟩ := run_returns h genInit
  obtain ⟨g', hg'⟩ := run_returns h' genInit
  have hsel : Selects genInit 0 := .inl rfl
  refine ⟨g, g', hg, hg', fun k h1 h2 => ⟨?_, fun heq => ?_⟩⟩
  · have hinit := entry_genInit h1 h2
    rw [run_entry hsel hg h1 h2]
    refine foldl_events (events_seeds h k 0) hinit ?_
    rw [pow_zero, Nat.one_mul, Nat.mod_eq_of_lt (inGroup_iff.mp hinit).2]
  · rw [run_entry hsel hg h1 h2, run_entry hsel hg' h1 h2, heq]

def stream1User : User where
  sz := 4096
  esp := 0
  mem a := if a = 4 then 1 else 0
  touched := []
  sz_lt := User.page_lt

lemma stream1_regular : ∀ c ∈ [Call.randomSet stream1User, .random, .actualSeed stream1User], c.Regular := by
  have harg : (argint stream1User 0).1 = some 1 := by decide
  have hstream : ∀ stream, (argint stream1User 0).1 = some stream → 1 ≤ stream.toInt ∧ stream.toInt ≤ 100 := by
    intro stream hst
    rw [harg] at hst
    cases hst
    decide
  intro c hc
  simp only [List.mem_cons, List.not_mem_nil, or_false] at hc
  rcases hc with rfl | rfl | rfl
  · exact hstream
  · trivial
  · exact hstream

/-- Stream 1 after `random_set(1)` and `random()`, beside a run without calls, which leaves the other
streams the same. -/
theorem stream1_after_two : ∃ g g', run genInit [.randomSet stream1User, .random, .actualSeed stream1User] = some g ∧
    run genInit [] = some g' ∧ (g.entry 1).toNat = A ^ 2 * 1973272912 % M ∧ g.entry 2 = g'.entry 2 := by
  obtain ⟨g, g', hg, hg', h⟩ := streams_reproducible _ [] stream1_regular (by simp)
  have hev : events 1 0 [.randomSet stream1User, .random, .actualSeed stream1User] = [.advance, .advance] := by decide
  have hseed : (genInit.entry 1).toNat = 1973272912 := by decide +kernel
  have h1 := (h 1 (by decide) (by decide)).1
  rw [hev] at h1
  refine ⟨g, g', hg, hg', h1.trans ?_, (h 2 (by decide) (by decide)).2 (by decide)⟩
  show A ^ 2 * (genInit.entry 1).toNat % M = _
  rw [hseed]

/-! ## The state space -/

def Gen.InGroup (g : Gen) : Prop := ∀ k : Int, 1 ≤ k → k ≤ 100 → Random.InGroup (g.entry k)

def RunInGroup (g : Gen) : List Call → Prop
  | [] => True
  | c :: cs => ∃ v g' used, c.exec g = .ret v g' used ∧ g'.InGroup ∧ RunInGroup g' cs

/-- The call stays inside of the table, and puts no value into a stream that is not in its state
space. -/
def Call.Seeding : Call → Prop
  | .random => True
  | .randomSet _ => True
  | .changeSeed u => ∀ stream set, (argint u 0).1 = some stream → (argint u 1).1 = some set →
      inTable stream.toInt ∧ (1 ≤ stream.toInt → Random.InGroup set)
  | .actualSeed u => ∀ stream, (argint u 0).1 = some stream → inTable stream.toInt

lemma Call.Seeding.returns {c : Call} (h : c.Seeding) (g : Gen) : ∃ v g' used, c.exec g = .ret v g' used := by
  cases c with
  | random => exact Call.Regular.returns (c := .random) trivial g
  | randomSet u =>
    simp only [Call.exec, sysRandomSet]
    cases (argint u 0).1 with
    | none => exact ⟨_, _, _, rfl⟩
    | some stream =>
      dsimp only
      split
      · exact ⟨_, _, _, rfl⟩
      · exact ⟨_, _, _, rfl⟩
  | changeSeed u =>
    simp only [Call.exec, sysChangeSeed]
    cases harg : (argint u 0).1 with
    | none => exact ⟨_, _, _, rfl⟩
    | some stream =>
      cases harg1 : (argint u 1).1 with
      | none => exact ⟨_, _, _, rfl⟩
      | some set =>
        dsimp only
        rw [if_pos (h stream set harg harg1).1]
        exact ⟨_, _, _, rfl⟩
  | actualSeed u =>
    simp only [Call.exec, sysActualSeed]
    cases harg : (argint u 0).1 with
    | none => exact ⟨_, _, _, rfl⟩
    | some stream =>
      dsimp only
      rw [if_pos (h stream harg)]
      exact ⟨_, _, _, rfl⟩

lemma Call.Seeding.event {c : Call} (h : c.Seeding) {k : Int} (hk : 1 ≤ k) {sel s : Word}
    (he : c.event k sel = some (.reseed s)) : Random.InGroup s := by
  cases c with
  | random =>
    simp only [Call.event] at he
    split at he <;> cases he
  | randomSet u =>
    simp only [Call.event] at he
    split at he
    · split at he <;> cases he
    · cases he
  | changeSeed u =>
    simp only [Call.event] at he
    split at he
    · rename_i stream set hst hset
      split at he
      · rename_i hkst
        cases he
        exact (h stream s hst hset).2 (by omega)
      · cases he
    · cases he
  | actualSeed u => cases he

lemma Does.inGroup {g g' : Gen} {sel : Word} {c : Call} (h : Does g g' sel c) (hc : c.Seeding) (hg : g.InGroup) :
    g'.InGroup := by
  intro k h1 h2
  rw [h.entry k h1 h2]
  cases he : c.event k sel with
  | none => exact hg k h1 h2
  | some e =>
    cases e with
    | advance => exact (hg k h1 h2).nextState
    | reseed s => exact hc.event h1 he

lemma seeding_of_returns {g : Gen} {c : Call} {v : Value} {g' : Gen} {used : List Int} (h : c.exec g = .ret v g' used)
    (hg' : g'.InGroup) : c.Seeding := by
  cases c with
  | random => trivial
  | randomSet u => trivial
  | changeSeed u =>
    intro stream set harg harg1
    have hdoes : Does g g' g.seed (.changeSeed u) := changeSeed_does (.inl rfl) h
    simp only [Call.exec, sysChangeSeed, harg, harg1] at h
    by_cases ht : inTable stream.toInt
    · refine ⟨ht, fun h1 => ?_⟩
      have h2 : stream.toInt ≤ 100 := by
        unfold inTable at ht
        omega
      have hentry := hdoes.entry stream.toInt h1 h2
      simp only [Call.event, harg, harg1, if_true] at hentry
      have hset : g'.entry stream.toInt = set := hentry
      rw [← hset]
      exact hg' _ h1 h2
    · rw [if_neg ht] at h
      cases h
  | actualSeed u =>
    intro stream harg
    simp only [Call.exec, sysActualSeed, harg] at h
    by_cases ht : inTable stream.toInt
    · exact ht
    · rw [if_neg ht] at h
      cases h

/-- The streams stay in their state space exactly if every seed that is set is in it, and every stream
number that is not checked is one of the table. -/
theorem run_inGroup_iff (calls : List Call) : RunInGroup genInit calls ↔ ∀ c ∈ calls, c.Seeding := by
  have hstep : ∀ g : Gen, g.InGroup → (RunInGroup g calls ↔ ∀ c ∈ calls, c.Seeding) := by
    induction calls with
    | nil => exact fun g _ => iff_of_true trivial (by simp)
    | cons c cs ih =>
      intro g hg
      rw [RunInGroup, List.forall_mem_cons]
      constructor
      · rintro ⟨v, g', used, hex, hg', hrest⟩
        exact ⟨seeding_of_returns hex hg', (ih g' hg').mp hrest⟩
      rintro ⟨hc, hrest⟩
      obtain ⟨v, g', used, hex⟩ := hc.returns g
      have hg' := (exec_does (.inl rfl) hex).inGroup hc hg
      exact ⟨v, g', used, hex, hg', (ih g' hg').mpr hrest⟩
  exact hstep genInit fun k h1 h2 => entry_genInit h1 h2

/-- `change_seed(1, 0)` puts 0 into stream 1. -/
theorem change_seed_zero : ¬RunInGroup genInit [.changeSeed stream1User] := by
  rintro ⟨v, g', used, hex, hg', -⟩
  have h0 : (argint stream1User 0).1 = some 1 := by decide
  have h1 : (argint stream1User 1).1 = some 0 := by decide
  have hc := seeding_of_returns hex hg' 1 0 h0 h1
  exact absurd (hc.2 (by decide)) (by decide)

end Xv6.Random
