import Xv6.UserCopy

/-!
# User addresses touched by system calls

A transfer touches exactly the addresses from its pointer up to the number of bytes moved.
-/

namespace Xv6

/-- From `u` to `u'` only user addresses below the process size were touched. -/
def InBounds (u u' : User) : Prop :=
  u'.sz = u.sz ∧ ∀ a ∈ u'.touched, a ∈ u.touched ∨ a < u.sz

lemma InBounds.refl (u : User) : InBounds u u := ⟨rfl, fun _ ha => .inl ha⟩

lemma InBounds.trans {u v w : User} (huv : InBounds u v) (hvw : InBounds v w) : InBounds u w := by
  refine ⟨hvw.1.trans huv.1, ?_⟩
  intro a ha
  rcases hvw.2 a ha with ha | ha
  · exact huv.2 a ha
  · exact .inr (huv.1 ▸ ha)

lemma load_inBounds (u : User) (a : Word) (ha : a < u.sz) : InBounds u (u.load a).2 := by
  refine ⟨rfl, ?_⟩
  intro b hb
  rcases List.mem_cons.mp hb with rfl | hb
  · exact .inr ha
  · exact .inl hb

lemma loadWord_touched (u : User) (addr : Word) :
    (u.loadWord addr).2.touched = (addr + 3) :: (addr + 2) :: (addr + 1) :: addr :: u.touched := rfl

/-! ### Argument fetches -/

lemma fetchint_inBounds (u : User) (addr : Word) : InBounds u (fetchint u addr).2 := by
  have hsz := u.sz_lt
  unfold KERNBASE at hsz
  unfold fetchint
  split
  · exact InBounds.refl u
  rename_i h
  refine ⟨rfl, ?_⟩
  intro a ha
  change a ∈ (u.loadWord addr).2.touched at ha
  rw [loadWord_touched] at ha
  simp only [List.mem_cons] at ha
  rcases ha with rfl | rfl | rfl | rfl | ha
  · right; bv_omega
  · right; bv_omega
  · right; bv_omega
  · right; bv_omega
  · exact .inl ha

lemma scanNul_inBounds (u : User) (s : Word) (left : Nat) (h : s.toNat + left ≤ u.sz.toNat) :
    InBounds u (scanNul u s left).2 := by
  induction left generalizing u s with
  | zero => exact InBounds.refl u
  | succ left ih =>
    have hs : s < u.sz := by bv_omega
    have hload := load_inBounds u s hs
    rw [scanNul]
    dsimp only
    split
    · exact hload
    exact hload.trans (ih (u.load s).2 (s + 1) (by
      change (s + 1).toNat + left ≤ u.sz.toNat
      bv_omega))

lemma fetchstr_inBounds (u : User) (addr : Word) : InBounds u (fetchstr u addr).2 := by
  unfold fetchstr
  split
  · exact InBounds.refl u
  · exact scanNul_inBounds u addr _ (by bv_omega)

lemma argint_inBounds (u : User) (n : Word) : InBounds u (argint u n).2 := fetchint_inBounds u _

lemma argptr_inBounds (u : User) (n size : Word) : InBounds u (argptr u n size).2 := by
  have h := argint_inBounds u n
  unfold argptr
  split
  · rename_i he; rw [he] at h; exact h
  · rename_i he
    rw [he] at h
    split <;> exact h

/-- A pointer that `argptr` accepts starts inside of the process, and its end, computed in
32 bits, is at most the process size. -/
lemma argptr_accepts {u : User} {n size p : Word} (h : (argptr u n size).1 = some p) :
    p < u.sz ∧ p + size ≤ u.sz := by
  have hb := (argint_inBounds u n).1
  unfold argptr at h
  split at h
  · cases h
  rename_i i v he
  rw [he] at hb
  split at h
  · cases h
  rename_i hc
  cases h
  rw [hb] at hc
  bv_omega

lemma argstr_inBounds (u : User) (n : Word) : InBounds u (argstr u n).2 := by
  have h := argint_inBounds u n
  unfold argstr
  split
  · rename_i he; rw [he] at h; exact h
  rename_i addr v he
  rw [he] at h
  have hs := h.trans (fetchstr_inBounds v addr)
  split <;> (rename_i he'; rw [he'] at hs; exact hs)

lemma fetchArgv_inBounds (u : User) (uargv : Word) (i left : Nat) :
    InBounds u (fetchArgv u uargv i left).2 := by
  induction left generalizing u i with
  | zero => exact InBounds.refl u
  | succ left ih =>
    have h := fetchint_inBounds u (uargv + 4 * BitVec.ofNat 32 i)
    rw [fetchArgv]
    split
    · rename_i he; rw [he] at h; exact h
    rename_i uarg v he
    rw [he] at h
    split
    · exact h
    have hs := h.trans (fetchstr_inBounds v uarg)
    split
    · rename_i he'; rw [he'] at hs; exact hs
    · rename_i he'
      rw [he'] at hs
      exact hs.trans (ih _ (i + 1))

lemma sysExecArgs_inBounds (u : User) : InBounds u (sysExecArgs u).2 := by
  have h := argstr_inBounds u 0
  unfold sysExecArgs
  split
  · rename_i he; rw [he] at h; exact h
  rename_i path v he
  rw [he] at h
  have h1 := h.trans (argint_inBounds v 1)
  split
  · rename_i he'; rw [he'] at h1; exact h1
  rename_i uargv v' he'
  rw [he'] at h1
  have h2 := h1.trans (fetchArgv_inBounds v' uargv 0 MAXARG)
  split <;> (rename_i he2; rw [he2] at h2; exact h2)

/-! ### Byte ranges -/

namespace UserCopy

def Touches (u u' : User) (base : Word) (k : Nat) : Prop :=
  u'.sz = u.sz ∧ ∀ a, a ∈ u'.touched ↔ a ∈ u.touched ∨ ∃ j, j < k ∧ a = base + BitVec.ofNat 32 j

def Within (u u' : User) (base : Word) (k : Nat) : Prop :=
  u'.sz = u.sz ∧ ∀ a ∈ u'.touched, a ∈ u.touched ∨ ∃ j, j < k ∧ a = base + BitVec.ofNat 32 j

lemma Touches.within {u u' : User} {base : Word} {k : Nat} (h : Touches u u' base k) :
    Within u u' base k := ⟨h.1, fun a ha => (h.2 a).mp ha⟩

lemma Within.refl (u : User) (base : Word) (k : Nat) : Within u u base k :=
  ⟨rfl, fun _ ha => .inl ha⟩

lemma Touches.zero (u : User) (base : Word) : Touches u u base 0 := by
  refine ⟨rfl, fun a => ?_⟩
  simp

lemma Touches.append {u v w : User} {base : Word} {m k : Nat} (huv : Touches u v base m)
    (hvw : Touches v w (base + BitVec.ofNat 32 m) k) : Touches u w base (m + k) := by
  refine ⟨hvw.1.trans huv.1, fun a => ?_⟩
  rw [hvw.2 a, huv.2 a]
  constructor
  · rintro ((ha | ⟨j, hj, rfl⟩) | ⟨j, hj, rfl⟩)
    · exact .inl ha
    · exact .inr ⟨j, by omega, rfl⟩
    · exact .inr ⟨m + j, by omega, by rw [BitVec.ofNat_add, BitVec.add_assoc]⟩
  rintro (ha | ⟨j, hj, rfl⟩)
  · exact .inl (.inl ha)
  by_cases hjm : j < m
  · exact .inl (.inr ⟨j, hjm, rfl⟩)
  · refine .inr ⟨j - m, by omega, ?_⟩
    rw [BitVec.add_assoc, ← BitVec.ofNat_add, Nat.add_sub_cancel' (by omega)]

lemma Within.cons {u v w : User} {base : Word} {k : Nat} (huv : Touches u v base 1)
    (hvw : Within v w (base + 1) k) : Within u w base (k + 1) := by
  refine ⟨hvw.1.trans huv.1, fun a ha => ?_⟩
  rcases hvw.2 a ha with ha | ⟨j, hj, rfl⟩
  · exact ((huv.2 a).mp ha).imp_right (fun ⟨j, hj, he⟩ => ⟨j, by omega, he⟩)
  · refine .inr ⟨1 + j, by omega, ?_⟩
    rw [BitVec.ofNat_add, BitVec.add_assoc]
    rfl

lemma Within.inBounds {u u' : User} {base : Word} {k : Nat} (h : Within u u' base k)
    (hk : base.toNat + k ≤ u.sz.toNat) : InBounds u u' := by
  refine ⟨h.1, fun a ha => ?_⟩
  rcases h.2 a ha with ha | ⟨j, hj, rfl⟩
  · exact .inl ha
  · have hlt := u.sz.isLt
    right
    bv_omega

lemma Touches.inBounds_iff {u u' : User} {base : Word} {k : Nat} (h : Touches u u' base k)
    (hu : ∀ a ∈ u.touched, a < u.sz) (hbase : base < u.sz) :
    (∀ a ∈ u'.touched, a < u.sz) ↔ base.toNat + k ≤ u.sz.toNat := by
  constructor
  · intro hall
    by_contra hk
    have hmem : u.sz ∈ u'.touched := by
      refine (h.2 u.sz).mpr (.inr ⟨u.sz.toNat - base.toNat, by bv_omega, ?_⟩)
      bv_omega
    have := hall u.sz hmem
    bv_omega
  · intro hk a ha
    exact (h.within.inBounds hk).2 a ha |>.elim (hu a) id

lemma store_touches (u : User) (a : Word) (v : UInt8) : Touches u (u.store a v) a 1 := by
  refine ⟨rfl, fun b => ?_⟩
  simp [User.store, or_comm]

lemma load_touches (u : User) (a : Word) : Touches u (u.load a).2 a 1 := by
  refine ⟨rfl, fun b => ?_⟩
  simp [User.load, or_comm]

lemma storeRange_touches (u : User) (dst : Word) (src : Nat → UInt8) (n : Nat) :
    Touches u (storeRange u dst src n) dst n := by
  induction n with
  | zero => exact Touches.zero u dst
  | succ n ih => exact ih.append (store_touches _ _ _)

lemma loadRange_touches (u : User) (src : Word) (n : Nat) :
    Touches u (loadRange u src n).2 src n := by
  induction n with
  | zero => exact Touches.zero u src
  | succ n ih => exact ih.append (load_touches _ _)

lemma chunk_pos (n tot off : Nat) (h : tot < n) : 0 < chunk n tot off := by
  have : off % BSIZE < BSIZE := Nat.mod_lt _ (by decide)
  unfold chunk
  omega

lemma chunk_le (n tot off : Nat) : chunk n tot off ≤ n - tot := Nat.min_le_left _ _

lemma readiLoop_touches (ip : Inode) (n fuel tot off : Nat) (dst : Word) (u : User)
    (hf : n - tot ≤ fuel) : Touches u (readiLoop ip n fuel tot off dst u) dst (n - tot) := by
  induction fuel generalizing tot off dst u with
  | zero =>
    rw [show n - tot = 0 by omega]
    exact Touches.zero u dst
  | succ fuel ih =>
    rw [readiLoop]
    by_cases h : tot < n
    · rw [if_pos h]
      have hpos := chunk_pos n tot off h
      have hle := chunk_le n tot off
      have hrest := ih (tot + chunk n tot off) (off + chunk n tot off)
        (dst + BitVec.ofNat 32 (chunk n tot off))
        (storeRange u dst (fun j => ip.data (off + j)) (chunk n tot off)) (by omega)
      rw [show n - tot = chunk n tot off + (n - (tot + chunk n tot off)) by omega]
      exact (storeRange_touches u dst _ _).append hrest
    · rw [if_neg h, show n - tot = 0 by omega]
      exact Touches.zero u dst

lemma writeiLoop_touches (n fuel tot off : Nat) (src : Word) (u : User) (hf : n - tot ≤ fuel) :
    Touches u (writeiLoop n fuel tot off src u).2 src (n - tot) := by
  induction fuel generalizing tot off src u with
  | zero =>
    rw [show n - tot = 0 by omega]
    exact Touches.zero u src
  | succ fuel ih =>
    rw [writeiLoop]
    by_cases h : tot < n
    · rw [if_pos h]
      have hpos := chunk_pos n tot off h
      have hle := chunk_le n tot off
      have hrest := ih (tot + chunk n tot off) (off + chunk n tot off)
        (src + BitVec.ofNat 32 (chunk n tot off)) (loadRange u src (chunk n tot off)).2 (by omega)
      rw [show n - tot = chunk n tot off + (n - (tot + chunk n tot off)) by omega]
      exact (loadRange_touches u src _).append hrest
    · rw [if_neg h, show n - tot = 0 by omega]
      exact Touches.zero u src

lemma consoleread_within (u : User) (dst : Word) (n target : Int) (input : List UInt8) :
    Within u (consoleread u dst n target input).2 dst n.toNat := by
  induction input generalizing u dst n with
  | nil =>
    rw [consoleread]
    split <;> exact Within.refl u dst _
  | cons c input ih =>
    rw [consoleread]
    split
    · rename_i hn
      rw [show n.toNat = (n - 1).toNat + 1 by omega]
      split
      · exact Within.refl u dst _
      split
      · exact Within.cons (store_touches u dst c) (Within.refl _ (dst + 1) _)
      · exact Within.cons (store_touches u dst c) (ih _ (dst + 1) (n - 1))
    · exact Within.refl u dst _

lemma pipereadLoop_within (p : Pipe) (addr : Word) (i left : Nat) (u : User) :
    Within u (pipereadLoop p addr i left u).2 (addr + BitVec.ofNat 32 i) left := by
  induction left generalizing p i u with
  | zero => exact Within.refl u _ _
  | succ left ih =>
    rw [pipereadLoop]
    split
    · exact Within.refl u _ _
    have h := ih { p with nread := p.nread + 1 } (i + 1)
      (u.store (addr + BitVec.ofNat 32 i) (p.data (p.nread.toNat % PIPESIZE)))
    rw [BitVec.ofNat_add, ← BitVec.add_assoc] at h
    exact Within.cons (store_touches u _ _) h

lemma piperead_within (u : User) (addr : Word) (n : Int) (p : Pipe) (killed : Bool)
    (wakes : List (Pipe × Bool)) : Within u (piperead u addr n p killed wakes).2 addr n.toNat := by
  induction wakes generalizing p killed with
  | nil =>
    rw [piperead]
    split
    · split <;> exact Within.refl u _ _
    · simpa using pipereadLoop_within p addr 0 n.toNat u
  | cons wake wakes ih =>
    rw [piperead]
    split
    · split
      · exact Within.refl u _ _
      · exact ih wake.1 wake.2
    · simpa using pipereadLoop_within p addr 0 n.toNat u

lemma pipewrite_within (u : User) (addr : Word) (n : Int) (i left : Nat) (p : Pipe) (killed : Bool)
    (wakes : List (Pipe × Bool)) :
    Within u (pipewrite u addr n i left p killed wakes).2 (addr + BitVec.ofNat 32 i) left := by
  induction left generalizing u i p killed wakes with
  | zero => exact Within.refl u _ _
  | succ left ih =>
    rw [pipewrite]
    split
    · exact Within.refl u _ _
    rename_i p' killed' wakes' _
    have h := ih (u.load (addr + BitVec.ofNat 32 i)).2 (i + 1)
      { p' with
        data := fun j => if j = p'.nwrite.toNat % PIPESIZE then
          (u.load (addr + BitVec.ofNat 32 i)).1 else p'.data j,
        nwrite := p'.nwrite + 1 } killed' wakes'
    rw [BitVec.ofNat_add, ← BitVec.add_assoc] at h
    exact Within.cons (load_touches u _) h

lemma writei_within (u : User) (ip : Inode) (src off n : Word) (hn : 0 ≤ n.toInt) :
    Within u (writei u ip src off n).2.2 src n.toNat := by
  have htn : n.toInt.toNat = n.toNat := by
    rw [BitVec.toInt_eq_toNat_of_msb (by simpa [BitVec.msb_eq_toInt] using hn)]
    rfl
  unfold writei
  split
  · split
    · exact Within.refl u _ _
    · rw [← htn]
      exact (loadRange_touches u src n.toInt.toNat).within
  · split
    · exact Within.refl u _ _
    · split
      · exact Within.refl u _ _
      · exact (writeiLoop_touches n.toNat n.toNat 0 off.toNat src u (by omega)).within

lemma filewriteLoop_inBounds (u : User) (w : World) (addr : Word) (n fuel c i : Nat)
    (hn : addr.toNat + n ≤ u.sz.toNat) : InBounds u (filewriteLoop u w addr n fuel c i).2 := by
  induction fuel generalizing u c i with
  | zero => exact InBounds.refl u
  | succ fuel ih =>
    rw [filewriteLoop]
    split
    · rename_i hi
      have hmax : min (n - i) filewriteMax ≤ n - i ∧ min (n - i) filewriteMax ≤ 1536 :=
        ⟨Nat.min_le_left _ _, Nat.min_le_right _ _⟩
      generalize min (n - i) filewriteMax = n1 at hmax
      have hnat : (BitVec.ofNat 32 n1).toNat = n1 := by
        rw [BitVec.toNat_ofNat]
        omega
      have hw := writei_within u (w.inode c) (addr + BitVec.ofNat 32 i) (w.off c) (BitVec.ofNat 32 n1)
        (by rw [BitVec.toInt_eq_toNat_of_lt (by omega)]; omega)
      have hin := hw.inBounds (by rw [hnat]; bv_omega)
      dsimp only
      split
      · exact hin
      · split
        · exact hin
        · exact hin.trans (ih _ (c + 1) (i + n1) (by rw [hin.1]; exact hn))
    · exact InBounds.refl u

/-! ### System calls -/

lemma argfd_inBounds (u : User) (ofile : Nat → Option File) (n : Word) :
    InBounds u (argfd u ofile n).2 := by
  have h := argint_inBounds u n
  unfold argfd
  split
  · rename_i he; rw [he] at h; exact h
  · rename_i he
    rw [he] at h
    split <;> exact h

lemma transferArgs_inBounds (u : User) (ofile : Nat → Option File) :
    InBounds u (transferArgs u ofile).2 := by
  have h := argfd_inBounds u ofile 0
  unfold transferArgs
  split
  · rename_i he; rw [he] at h; exact h
  rename_i f v he
  rw [he] at h
  have h1 := h.trans (argint_inBounds v 2)
  split
  · rename_i he1; rw [he1] at h1; exact h1
  rename_i n v1 he1
  rw [he1] at h1
  have h2 := h1.trans (argptr_inBounds v1 1 n)
  split <;> (rename_i he2; rw [he2] at h2; exact h2)

lemma transferArgs_accepts {u u' : User} {ofile : Nat → Option File} {f : File} {p n : Word}
    (h : transferArgs u ofile = (some (f, p, n), u')) : p < u.sz ∧ p + n ≤ u.sz := by
  have hb := argfd_inBounds u ofile 0
  unfold transferArgs at h
  split at h
  · cases h
  rename_i f' v he
  rw [he] at hb
  have hb1 := hb.trans (argint_inBounds v 2)
  split at h
  · cases h
  rename_i n' v1 he1
  rw [he1] at hb1
  split at h
  · cases h
  rename_i p' v2 he2
  cases h
  have hacc := argptr_accepts (show (argptr v1 1 n).1 = some p by rw [he2])
  have hsz : v1.sz = u.sz := hb1.1
  rw [hsz] at hacc
  exact hacc

lemma accepted_range {u : User} {p n : Word} (hp : p < u.sz) (hpn : p + n ≤ u.sz)
    (hn : 0 ≤ n.toInt) : p.toNat + n.toInt.toNat ≤ u.sz.toNat := by
  have hsz := u.sz_lt
  unfold KERNBASE at hsz
  have hn31 : n.toNat < 2 ^ 31 := by
    rw [BitVec.toInt_eq_toNat_cond] at hn
    split at hn <;> omega
  rw [BitVec.toInt_eq_toNat_of_lt (by omega), Int.toNat_natCast]
  bv_omega

/-- Bytes of the file from the offset on, cut to the request read as a `uint`. -/
def transferLength (ip : Inode) (off n : Word) : Nat := min n.toNat (ip.size.toNat - off.toNat)

/-- `sys_read` accepts a negative size, `readi` takes it as a large `uint` and cuts it to
the rest of the file, and that rest does not fit between the pointer and `proc->sz`. -/
def Overrun (u : User) (w : World) (ofile : Nat → Option File) : Prop :=
  ∃ f p n, (transferArgs u ofile).1 = some (f, p, n) ∧ f.readable = true ∧ f.kind = .inode ∧
    (w.inode 0).type ≠ .dev ∧ n.toInt < 0 ∧ w.off 0 ≤ (w.inode 0).size ∧
    (w.off 0).toNat + n.toNat < 2 ^ 32 ∧
    u.sz.toNat < p.toNat + transferLength (w.inode 0) (w.off 0) n

lemma readi_touches (u : User) (ip : Inode) (input : List UInt8) (dst off n : Word)
    (htype : ip.type ≠ .dev) (hoff : off ≤ ip.size) (hsum : off.toNat + n.toNat < 2 ^ 32) :
    Touches u (readi u ip input dst off n).2 dst (transferLength ip off n) := by
  have hcond : ¬(off > ip.size ∨ off + n < off) := by bv_omega
  unfold readi
  rw [if_neg htype, if_neg hcond]
  dsimp only
  have hlen : (if off + n > ip.size then ip.size - off else n).toNat = transferLength ip off n := by
    unfold transferLength
    split <;> bv_omega
  rw [hlen]
  exact readiLoop_touches ip _ _ 0 off.toNat dst u (by omega)

lemma readi_rejects (u : User) (ip : Inode) (input : List UInt8) (dst off n : Word)
    (htype : ip.type ≠ .dev) (h : ¬(off ≤ ip.size ∧ off.toNat + n.toNat < 2 ^ 32)) :
    (readi u ip input dst off n).2 = u := by
  have hcond : off > ip.size ∨ off + n < off := by bv_omega
  unfold readi
  rw [if_neg htype, if_pos hcond]

lemma fileread_inBounds_iff (u : User) (w : World) (f : File) (p n : Word)
    (hu : ∀ a ∈ u.touched, a < u.sz) (hp : p < u.sz) (hpn : p + n ≤ u.sz) :
    (∀ a ∈ (fileread u w f p n).2.touched, a < u.sz) ↔
      ¬(f.readable = true ∧ f.kind = .inode ∧ (w.inode 0).type ≠ .dev ∧ n.toInt < 0 ∧
        w.off 0 ≤ (w.inode 0).size ∧ (w.off 0).toNat + n.toNat < 2 ^ 32 ∧
        u.sz.toNat < p.toNat + transferLength (w.inode 0) (w.off 0) n) := by
  have hstay : ∀ v, InBounds u v → ∀ a ∈ v.touched, a < u.sz := by
    intro v hv a ha
    exact (hv.2 a ha).elim (hu a) id
  have hwithin : ∀ v, Within u v p n.toInt.toNat → InBounds u v := by
    intro v hv
    by_cases hn : 0 ≤ n.toInt
    · exact hv.inBounds (accepted_range hp hpn hn)
    · rw [show n.toInt.toNat = 0 by omega] at hv
      exact hv.inBounds (by bv_omega)
  unfold fileread
  by_cases hr : f.readable = true
  · rw [if_neg (by simp [hr])]
    cases hk : f.kind with
    | none =>
      simp only [reduceCtorEq, false_and, and_false, not_false_eq_true, iff_true]
      exact hu
    | pipe =>
      simp only [reduceCtorEq, false_and, and_false, not_false_eq_true, iff_true]
      exact hstay _ (hwithin _ (piperead_within u p n.toInt w.pipe w.killed w.wakes))
    | inode =>
      simp only [hr, true_and]
      by_cases ht : (w.inode 0).type = .dev
      · simp only [ht, ne_eq, not_true_eq_false, false_and, not_false_eq_true, iff_true]
        apply hstay
        unfold readi
        rw [if_pos ht]
        split
        · exact InBounds.refl u
        · exact hwithin _ (consoleread_within u p n.toInt n.toInt w.input)
      simp only [ht, ne_eq, not_false_eq_true, true_and]
      by_cases hacc : w.off 0 ≤ (w.inode 0).size ∧ (w.off 0).toNat + n.toNat < 2 ^ 32
      · have hrange := (readi_touches u (w.inode 0) w.input p (w.off 0) n ht hacc.1 hacc.2).inBounds_iff
          hu hp
        rw [hrange]
        by_cases hn : 0 ≤ n.toInt
        · have hle := accepted_range hp hpn hn
          have hcut : transferLength (w.inode 0) (w.off 0) n ≤ n.toNat := Nat.min_le_left _ _
          have hn' : n.toInt.toNat = n.toNat := by
            rw [BitVec.toInt_eq_toNat_cond] at hn ⊢
            split at hn <;> omega
          constructor
          · intro _ hbad
            omega
          · intro _
            omega
        · simp only [hacc.1, hacc.2, true_and, show n.toInt < 0 by omega]
          omega
      · rw [readi_rejects u (w.inode 0) w.input p (w.off 0) n ht hacc]
        constructor
        · rintro _ ⟨-, ho, hs, -⟩
          exact hacc ⟨ho, hs⟩
        · intro _
          exact hu
  · have hr' : f.readable = false := by simpa using hr
    rw [if_pos hr']
    simp only [hr', Bool.false_eq_true, false_and, not_false_eq_true, iff_true]
    exact hu

lemma filewrite_inBounds (u : User) (w : World) (f : File) (p n : Word) (hp : p < u.sz)
    (hpn : p + n ≤ u.sz) : InBounds u (filewrite u w f p n).2 := by
  unfold filewrite
  split
  · exact InBounds.refl u
  split
  · have hwithin := pipewrite_within u p n.toInt 0 n.toInt.toNat w.pipe w.killed w.wakes
    rw [show p + BitVec.ofNat 32 0 = p by simp] at hwithin
    by_cases hn : 0 ≤ n.toInt
    · exact hwithin.inBounds (accepted_range hp hpn hn)
    · rw [show n.toInt.toNat = 0 by omega] at hwithin ⊢
      exact hwithin.inBounds (by bv_omega)
  · split
    · exact InBounds.refl u
    rename_i hn
    have hle := accepted_range hp hpn (by omega)
    have hn' : n.toInt.toNat = n.toNat := by
      rw [BitVec.toInt_eq_toNat_cond] at hn ⊢
      split at hn <;> omega
    rw [hn'] at hle
    exact filewriteLoop_inBounds u w p n.toNat n.toNat 0 0 hle
  · exact InBounds.refl u

/-- The entry points through which the kernel reaches user memory, with the arguments the
kernel itself chooses. -/
inductive Access where
  | fetchint (addr : Word)
  | fetchstr (addr : Word)
  | argint (n : Word)
  | argptr (n size : Word)
  | argstr (n : Word)
  | exec
  | read
  | write

/-- The user memory after one access, with its record of touched addresses. -/
def Access.run (u : User) (w : World) (ofile : Nat → Option File) : Access → User
  | .fetchint addr => (Xv6.fetchint u addr).2
  | .fetchstr addr => (Xv6.fetchstr u addr).2
  | .argint n => (Xv6.argint u n).2
  | .argptr n size => (Xv6.argptr u n size).2
  | .argstr n => (Xv6.argstr u n).2
  | .exec => (sysExecArgs u).2
  | .read => (sysRead u w ofile).2
  | .write => (sysWrite u w ofile).2

/-- Every access stays below `proc->sz`, with one exception: a `read` whose negative size
is accepted and whose rest of the file overruns the process. -/
theorem access_in_bounds_iff (u : User) (w : World) (ofile : Nat → Option File) (c : Access) :
    (∀ a ∈ (c.run { u with touched := [] } w ofile).touched, a < u.sz) ↔
      ¬(c = .read ∧ Overrun { u with touched := [] } w ofile) := by
  generalize hv : ({ u with touched := [] } : User) = v
  have hsz : v.sz = u.sz := by rw [← hv]
  have hu : ∀ a ∈ v.touched, a < v.sz := by
    rw [← hv]
    simp
  rw [← hsz]
  have hstay : ∀ v', InBounds v v' → ∀ a ∈ v'.touched, a < v.sz := by
    intro v' hb a ha
    exact (hb.2 a ha).elim (hu a) id
  cases c with
  | fetchint addr => simpa [Access.run] using hstay _ (fetchint_inBounds v addr)
  | fetchstr addr => simpa [Access.run] using hstay _ (fetchstr_inBounds v addr)
  | argint n => simpa [Access.run] using hstay _ (argint_inBounds v n)
  | argptr n size => simpa [Access.run] using hstay _ (argptr_inBounds v n size)
  | argstr n => simpa [Access.run] using hstay _ (argstr_inBounds v n)
  | exec => simpa [Access.run] using hstay _ (sysExecArgs_inBounds v)
  | write =>
    have hargs := transferArgs_inBounds v ofile
    simp only [reduceCtorEq, false_and, not_false_eq_true, iff_true]
    apply hstay
    unfold Access.run sysWrite
    dsimp only
    split
    · rename_i he; rw [he] at hargs; exact hargs
    rename_i f p n v' he
    rw [he] at hargs
    obtain ⟨hp, hpn⟩ := transferArgs_accepts he
    have hsz' : v'.sz = v.sz := hargs.1
    exact hargs.trans (filewrite_inBounds v' w f p n (hsz' ▸ hp) (hsz' ▸ hpn))
  | read =>
    have hargs := transferArgs_inBounds v ofile
    simp only [true_and]
    unfold Access.run sysRead Overrun
    dsimp only
    split
    · rename_i v' he
      rw [he] at hargs
      simp only [he, reduceCtorEq, false_and, exists_false, not_false_eq_true, iff_true]
      exact hstay _ hargs
    rename_i f p n v' he
    rw [he] at hargs
    obtain ⟨hp, hpn⟩ := transferArgs_accepts he
    have hsz' : v'.sz = v.sz := hargs.1
    have h := fileread_inBounds_iff v' w f p n (by
      rw [hsz']
      exact hstay _ hargs) (hsz' ▸ hp) (hsz' ▸ hpn)
    rw [hsz'] at h
    rw [h, he]
    simp only [Option.some.injEq, Prod.mk.injEq]
    constructor
    · rintro hno ⟨f', p', n', ⟨rfl, rfl, rfl⟩, hbad⟩
      exact hno hbad
    · intro hno hbad
      exact hno ⟨f, p, n, ⟨rfl, rfl, rfl⟩, hbad⟩

/-- A one-page process that calls `read(0, 4095, -1)`. -/
def negativeReadUser : User where
  sz := 4096
  esp := 0
  mem a := if a = 8 ∨ (12 ≤ a ∧ a < 16) then 0xff else if a = 9 then 0x0f else 0
  touched := []
  sz_lt := User.page_lt

/-- Its file: a regular file of two bytes, at offset 0. -/
def negativeReadWorld : World where
  inode _ := { type := .file, major := 0, size := 2, data := fun _ => 0 }
  off _ := 0
  pipe := { data := fun _ => 0, nread := 0, nwrite := 0, readopen := false, writeopen := false }
  killed := false
  wakes := []
  input := []

theorem negative_read_leaves_process :
    ∃ a ∈ (sysRead negativeReadUser negativeReadWorld
        (fun _ => some { kind := .inode, readable := true, writable := false })).2.touched,
      ¬a < negativeReadUser.sz :=
  ⟨4096, by decide, by decide⟩

end UserCopy

end Xv6
