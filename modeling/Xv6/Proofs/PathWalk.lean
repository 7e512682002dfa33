import Xv6.Lib.Solo
import Xv6.Proofs.LogOwner
import Xv6.Proofs.SharedDescriptors

/-!
# Resolving path names

For a process that runs alone. On the way only references and locks are taken and dropped, unless a
directory has a hole or an inode loses its last reference.
-/

namespace Xv6.Fs

open Threads List Table

/-! ## Components -/

/-- The components of a path: what is between slashes, cut to `DIRSIZ` bytes. -/
def components (path : List UInt8) : List (List UInt8) :=
  ((path.splitOn slash).filter (· ≠ [])).map (·.take DIRSIZ)

lemma components_slash (path : List UInt8) : components (slash :: path) = components path := by
  rw [components, List.splitOn, splitOnP_cons_eq_if_modifyHead, if_pos (beq_self_eq_true slash),
    filter_cons_of_neg (by simp)]
  rfl

lemma components_dropWhile (path : List UInt8) : components (path.dropWhile (· = slash)) = components path := by
  induction path with
  | nil => rfl
  | cons c path ih =>
    by_cases hc : c = slash
    · subst hc
      rw [dropWhile_cons_of_pos (by simp), ih, components_slash]
    · rw [dropWhile_cons_of_neg (by simpa using hc)]

lemma components_word {w : List UInt8} (hw : ∀ c ∈ w, c ≠ slash) (hne : w ≠ []) (rest : List UInt8) :
    components (w ++ slash :: rest) = w.take DIRSIZ :: components rest := by
  rw [components, List.splitOn, splitOnP_append_cons_of_forall_mem (by simpa using hw) slash (by simp),
    filter_cons_of_pos (by simpa using hne), map_cons]
  rfl

lemma components_cons {c : UInt8} (hc : c ≠ slash) (path : List UInt8) : components (c :: path) =
    ((c :: path).takeWhile (· ≠ slash)).take DIRSIZ :: components ((c :: path).dropWhile (· ≠ slash)) := by
  have hw : ∀ x ∈ (c :: path).takeWhile (· ≠ slash), x ≠ slash := fun x hx => by
    simpa using all_eq_true.mp all_takeWhile x hx
  have hne : (c :: path).takeWhile (· ≠ slash) ≠ [] := by simp [hc]
  have hsplit := takeWhile_append_dropWhile (p := (· ≠ slash)) (l := c :: path)
  cases hr : (c :: path).dropWhile (· ≠ slash) with
  | nil =>
    rw [hr, append_nil] at hsplit
    rw [hsplit] at hw ⊢
    rw [components, List.splitOn, splitOnP_eq_singleton (by simpa using hw), filter_cons_of_pos (by simp)]
    rfl
  | cons x rest =>
    have hx := List.head?_dropWhile_not (fun c => decide (c ≠ slash)) (c :: path)
    rw [hr] at hx hsplit
    obtain rfl : x = slash := by simpa using hx
    rw [components_slash, ← components_word hw hne, hsplit]

lemma skipelem_components (path : List UInt8) :
    (skipelem path = none → components path = []) ∧
    ∀ name rest, skipelem path = some (name, rest) → components path = name :: components rest ∧
      (rest = [] ↔ components rest = []) ∧ rest.length < path.length := by
  unfold skipelem
  rw [← components_dropWhile path]
  have hlen := (dropWhile_suffix (· = slash) (l := path)).length_le
  have hhead := List.head?_dropWhile_not (fun c => decide (c = slash)) path
  generalize path.dropWhile (fun c => decide (c = slash)) = q at hlen hhead ⊢
  cases q with
  | nil => exact ⟨fun _ => rfl, nofun⟩
  | cons c q =>
    have hc : c ≠ slash := by simpa using hhead
    refine ⟨nofun, ?_⟩
    rintro _ _ ⟨⟩
    have hdrop : ((c :: q).dropWhile (· ≠ slash)).length ≤ q.length := by
      rw [dropWhile_cons_of_pos (by simpa using hc)]
      exact (dropWhile_suffix _).length_le
    have hrest := List.head?_dropWhile_not (fun c => decide (c = slash)) ((c :: q).dropWhile (· ≠ slash))
    have hshort := (dropWhile_suffix (· = slash) (l := (c :: q).dropWhile (· ≠ slash))).length_le
    rw [components_cons hc, ← components_dropWhile ((c :: q).dropWhile _)]
    generalize ((c :: q).dropWhile (fun x => decide (x ≠ slash))).dropWhile (fun c => decide (c = slash)) = rest at *
    refine ⟨rfl, ?_, Nat.lt_of_lt_of_le (Nat.lt_succ_of_le (hshort.trans hdrop)) hlen⟩
    cases rest with
    | nil => exact ⟨fun _ => rfl, fun _ => rfl⟩
    | cons x rest =>
      rw [components_cons (by simpa using hrest)]
      exact ⟨nofun, nofun⟩

lemma pathElems_eq (n : Nat) (path : List UInt8) (hn : path.length ≤ n) : pathElems n path = components path := by
  induction n generalizing path with
  | zero =>
    obtain rfl : path = [] := eq_nil_of_length_eq_zero (by omega)
    rfl
  | succ n ih =>
    obtain ⟨hnone, hsome⟩ := skipelem_components path
    rw [pathElems]
    cases he : skipelem path with
    | none => exact (hnone he).symm
    | some x =>
      obtain ⟨name, rest⟩ := x
      obtain ⟨hcomp, -, hlt⟩ := hsome name rest he
      dsimp only
      rw [hcomp, ih rest (by omega)]

/-! ## Reading without a transaction

A block cannot be allocated or freed then, so what returns has met no hole. -/

section

variable {st : Store} (hbusy : st.log.busy = none)

include hbusy

lemma logWrite_outside (b : Nat) (data : Block) {Q : Unit → Store → Prop} :
    Ensures (logWrite b data) st Q fun _ => True :=
  .get_bind (.ite (fun _ => .throw trivial) fun _ => .ite (fun _ => .throw trivial) fun h => absurd hbusy h)

lemma ballocFrom_outside (sb : Superblock) (n b : Nat) {Q : Nat → Store → Prop} :
    Ensures (ballocFrom sb n b) st Q fun _ => True := by
  induction n generalizing b with
  | zero => exact .throw trivial
  | succ n ih =>
    refine .ite (fun _ => bread_bind ?_) fun _ => .throw trivial
    split
    · exact (logWrite_outside hbusy _ _ (Q := fun _ _ => False)).bind fun _ _ h => h.elim
    · exact ih _

lemma balloc_outside {Q : Nat → Store → Prop} : Ensures balloc st Q fun _ => True :=
  .get_bind (readsb_bind ((ballocFrom_outside hbusy _ _ _ (Q := fun _ _ => False)).bind fun _ _ h => h.elim))

lemma bmap_outside (ip : Dinode) (bn : Nat) :
    Ensures (bmap ip bn) st (fun _ _ => bn < MAXFILE ∧ blockOf st.disk ip bn ≠ 0) fun _ => True := by
  have hballoc {α : Type} {f : Nat → FsM α} {Q : α → Store → Prop} : Ensures (balloc >>= f) st Q fun _ => True :=
    (balloc_outside hbusy (Q := fun _ _ => False)).bind fun _ _ h => h.elim
  by_cases hdir : bn < NDIRECT
  · rw [bmap, if_pos hdir]
    refine .ite (fun _ => hballoc) fun h => .pure ⟨by unfold MAXFILE; omega, ?_⟩
    rw [blockOf_direct _ _ hdir]
    exact (toNat_ne_zero _).mpr h
  by_cases hmax : bn < MAXFILE
  · rw [bmap_indirect ip (by omega) hmax]
    refine .ite (fun _ => hballoc) fun hind => bread_bind (.ite (fun _ => hballoc) fun h => .pure ⟨hmax, ?_⟩)
    rw [blockOf_indirect _ _ hind (by omega) hmax]
    exact (toNat_ne_zero _).mpr h
  · rw [bmap, if_neg hdir, if_neg (by unfold MAXFILE at hmax; omega)]
    exact .throw trivial

end

lemma length_readLoop {st : Store} (fuel : Nat) (ip : Dinode) (off n : Nat) :
    Ensures (readLoop fuel ip off n) st (fun r _ => r.1.length ≤ n) fun _ => True := by
  induction fuel generalizing st ip off n with
  | zero => exact .pure (Nat.zero_le _)
  | succ fuel ih =>
    refine .ite (fun _ => .pure (Nat.zero_le _)) fun _ => ?_
    refine Ensures.bind (Q := fun _ _ => True) ⟨fun _ _ _ => trivial, fun _ _ _ => trivial⟩ fun x st _ => bread_bind ?_
    refine (ih x.2 _ _).bind fun r _ hr => .pure ?_
    rw [length_append, Bytes.length_slice]
    omega

section

variable {st : Store} (hbusy : st.log.busy = none)

include hbusy

lemma readDirent_outside (e : Panic) (ip : Dinode) (k : Nat) :
    Ensures (readDirent e ip (direntSize * k)) st (fun _ _ => HasEntry st.disk ip k) fun _ => True := by
  refine Ensures.bind (Q := fun r _ => ∀ l, r.1 = some l → l.length = direntSize → HasEntry st.disk ip k) ?_ ?_
  · refine .ite (fun _ => .pure nofun) fun hin => ?_
    rw [not_or] at hin
    generalize hn : (if ip.size.toNat < (direntSize * k + direntSize) % 2 ^ 32 then ip.size.toNat - direntSize * k
      else direntSize) = n
    refine Ensures.bind (Q := fun r _ => r.1.length ≤ n ∧
      (n ≠ 0 → direntSize * k / BSIZE < MAXFILE ∧ blockOf st.disk ip (direntSize * k / BSIZE) ≠ 0)) ?_ ?_
    · have hblock : Ensures (readLoop n ip (direntSize * k) n) st (fun _ _ => n ≠ 0 →
          direntSize * k / BSIZE < MAXFILE ∧ blockOf st.disk ip (direntSize * k / BSIZE) ≠ 0) fun _ => True := by
        cases n with
        | zero => exact .pure nofun
        | succ n => exact .ite nofun fun _ => (bmap_outside hbusy ip _).bind fun _ _ h =>
            ⟨fun _ _ _ _ => h, fun _ _ _ => trivial⟩
      exact ((length_readLoop n ip _ n).and hblock).mono (fun _ _ h => h) fun _ _ => trivial
    · rintro ⟨l, ip'⟩ _ ⟨hlen, hblock⟩
      refine .pure ?_
      rintro _ ⟨⟩ heq
      have hsize := ip.size.toNat_lt
      dsimp only at hlen
      unfold direntSize at *
      obtain ⟨hmax, hne⟩ := hblock (by omega)
      refine ⟨?_, ?_, hne⟩ <;> unfold direntSize
      · split at hn <;> omega
      · unfold MAXFILE NDIRECT NINDIRECT BSIZE at *
        omega
  · rintro ⟨_ | l, ip'⟩ _ h
    · exact .throw trivial
    · exact .ite (fun hlen => .pure (h l rfl hlen)) fun _ => .throw trivial

lemma lookupFrom_outside (ip : Dinode) (name : List UInt8) (fuel j : Nat)
    (hfuel : ip.size.toNat ≤ direntSize * (j + fuel)) :
    Ensures (lookupFrom name fuel ip (direntSize * j)) st (fun _ _ => ∀ k, j ≤ k → direntSize * k < ip.size.toNat →
      (∀ i, j ≤ i → i < k → ¬(entryAt st.disk ip i).hasName name) → HasEntry st.disk ip k) fun _ => True := by
  induction fuel generalizing j with
  | zero => exact .pure fun k hk hlt => by unfold direntSize at *; omega
  | succ fuel ih =>
    refine .ite (fun hlt => ?_) fun hlt => .pure fun k hk hlt => by unfold direntSize at *; omega
    by_cases hentry : HasEntry st.disk ip j
    · refine Ensures.bind (.of_eq (hentry.readDirent _) (Q := fun r s' => r = (entryAt st.disk ip j, ip) ∧ s' = st)
        ⟨rfl, rfl⟩) ?_
      rintro _ _ ⟨rfl, rfl⟩
      refine .ite (fun hname => .pure fun k hk _ hno => ?_) fun _ => ?_
      · rcases hk.eq_or_lt with rfl | hlt
        · exact hentry
        · exact absurd hname (hno j le_rfl hlt)
      · refine (ih (j + 1) (by rwa [Nat.add_right_comm])).mono (fun _ _ h k hk hlt hno => ?_) fun _ h => h
        rcases hk.eq_or_lt with rfl | hk
        · exact hentry
        · exact h k hk hlt fun i hi => hno i (by omega)
    · exact ((readDirent_outside hbusy .dirlinkRead ip j).mono (fun _ _ h => absurd h hentry) fun _ h => h).bind
        (Q := fun _ _ => False) fun _ _ h => h.elim

lemma dirlookup_outside (ip : Dinode) (name : List UInt8) :
    Ensures (dirlookup ip name) st (fun _ _ => Searchable st.disk ip name) fun _ => True := by
  refine .ite (fun _ => .throw trivial) fun _ => ?_
  refine (lookupFrom_outside hbusy ip name _ 0 (by unfold direntSize; omega)).mono
    (fun _ _ h k hk hno => ?_) fun _ h => h
  exact h k (Nat.zero_le k) hk fun i _ => hno i

lemma Logs.outside {α : Type} {x : FsM α} (h : Logs x) :
    Ensures x st (fun _ s => s.log.busy = none) fun _ => True :=
  (h st).mono (fun _ _ h => h.busy.trans hbusy) fun _ _ => trivial

lemma iupdate_outside (i : Nat) (ip : Dinode) {Q : Unit → Store → Prop} : Ensures (iupdate i ip) st Q fun _ => True :=
  bread_bind (logWrite_outside hbusy _ _)

lemma itrunc_outside (i : Nat) (ip : Dinode) : Ensures (itrunc i ip) st (fun _ _ => False) fun _ => True := by
  have hrest : ∀ (ip : Dinode) (s : Store), s.log.busy = none → Ensures (iupdate i { ip with size := 0 } >>= fun _ =>
      (pure { ip with size := 0 } : FsM Dinode)) s (fun _ _ => False) fun _ => True := fun ip s hs =>
    (iupdate_outside hs i _ (Q := fun _ _ => False)).bind fun _ _ h => h.elim
  refine ((Logs.truncDirect ip NDIRECT).outside hbusy).bind fun ip s hs => ?_
  refine .ite (fun _ => .bind (.pure hs) hrest) fun _ => bread_bind ?_
  refine ((Logs.truncIndirect _ NINDIRECT).outside hs).bind fun _ s hs => ?_
  exact ((Logs.bfree _).outside hs).bind fun _ s hs => .bind (.pure hs) hrest

end

/-! ## Inodes as the kernel sees them -/

/-- The cache has read inode `i` from disk. -/
def State.Loaded (s : State) (i : Nat) : Prop := 0 < (s.icache i).ref ∧ (s.icache i).valid = true

instance (s : State) (i : Nat) : Decidable (s.Loaded i) := inferInstanceAs (Decidable (_ ∧ _))

/-- Inode `i` in the cache or, if it is not there, on disk. -/
def State.view (s : State) (i : Nat) : Dinode := if s.Loaded i then (s.icache i).ino else dinode s.store.disk i

/-- The process that has locked inode `i`. -/
def State.locker (s : State) (i : Nat) : Option Pid := if 0 < (s.icache i).ref then (s.icache i).busy else none

/-- `ilock` neither waits for the inode nor finds that it is free, which it checks when it reads it. -/
def State.Lockable (s : State) (i : Nat) : Prop := s.locker i = none ∧ ((s.view i).type = 0 → s.Loaded i)

/-- A process that has references to `i` and to the inodes `l` can drop the one to `i`, and the inode is not freed. -/
def State.Keeps (s : State) (l : List Nat) (i : Nat) : Prop := (s.view i).nlink ≠ 0 ∨ 0 < (s.icache i).ref + l.count i

/-- `iget` has an entry for inode `i`, for a process that has references to the inodes `l`. -/
def State.HasRoom (s : State) (l : List Nat) (i : Nat) : Prop :=
  0 < (s.icache i).ref + l.count i ∨ (s.cached ++ l).dedup.length < NINODE

instance (s : State) (i : Nat) : Decidable (s.Lockable i) := inferInstanceAs (Decidable (_ ∧ _))

instance (s : State) (l : List Nat) (i : Nat) : Decidable (s.Keeps l i) := inferInstanceAs (Decidable (_ ∨ _))

instance (s : State) (l : List Nat) (i : Nat) : Decidable (s.HasRoom l i) := inferInstanceAs (Decidable (_ ∨ _))

def lookupIn (s : State) (i : Nat) (name : List UInt8) : Option Nat :=
  if (s.view i).type = T_DIR then (entryOf s.store.disk (s.view i) name).map Prod.fst else none

/-- Nobody is in a transaction, and of the cache, in which finitely many entries are in use, one is for the current
directory of process `p`. -/
structure State.Idle (p : Pid) (s : State) : Prop where
  log : s.store.log.busy = none
  rest : s.icache.rest.ref = 0
  cwd : 0 < (s.icache (s.procs p).cwd).ref

/-- In state `t` process `p` has references to the inodes `l` and has locked those of `k`, and `o` is the owner of
the transaction; apart from that it is as in `s`. -/
structure Walk (p : Pid) (s : State) (o : Option Pid) (l k : List Nat) (t : State) : Prop where
  log : t.store.log.busy = o
  disk : t.store.disk = s.store.disk
  procs : t.procs = s.procs
  ftable : t.ftable = s.ftable
  rest : t.icache.rest.ref = 0 ∧ s.icache.rest.ref = 0
  ref : ∀ i, (t.icache i).ref = (s.icache i).ref + l.count i
  locker : ∀ i, t.locker i = if i ∈ k then some p else s.locker i
  view : ∀ i, t.view i = s.view i
  /-- Only inodes that are not free are read into the cache. -/
  free : ∀ i, (s.view i).type = 0 → (t.Loaded i ↔ s.Loaded i)
  held : ∀ i ∈ k, t.Loaded i ∧ s.locker i = none

variable {p : Pid} {s t : State} {o : Option Pid} {l l' k : List Nat} {i j : Nat} {name : List UInt8}

lemma get_of_not_mem {α : Type} {T : Table α} (h : i ∉ T.entries.map Prod.fst) : T i = T.rest := by
  obtain ⟨entries, rest⟩ := T
  change Table.find rest entries i = rest
  induction entries with
  | nil => rfl
  | cons e entries ih =>
    rw [map_cons, mem_cons, not_or] at h
    rw [Table.find, if_neg (Ne.symm h.1), ih h.2]

lemma mem_cached (h : s.icache.rest.ref = 0) : i ∈ s.cached ↔ 0 < (s.icache i).ref := by
  rw [State.cached, mem_filter, mem_dedup, decide_eq_true_eq, and_iff_right_iff_imp]
  intro hpos
  by_contra hnot
  rw [get_of_not_mem hnot, h] at hpos
  exact lt_irrefl 0 hpos

namespace Walk

lemma start (h : State.Idle p s) : Walk p s none [] [] s :=
  ⟨h.log, rfl, rfl, rfl, ⟨h.rest, h.rest⟩, fun _ => rfl, fun _ => rfl, fun _ => rfl, fun _ _ => .rfl, nofun⟩

lemma perm (h : Walk p s o l k t) (hl : ∀ i, l.count i = l'.count i) : Walk p s o l' k t :=
  { h with ref := fun i => by rw [h.ref, hl] }

lemma set {c : Cached} {k' : List Nat} (h : Walk p s o l k t) (t' : State) (hi : t'.icache i = c)
    (hne : ∀ j, j ≠ i → t'.icache j = t.icache j)
    (hsame : t'.store.log.busy = t.store.log.busy ∧ t'.store.disk = t.store.disk ∧ t'.procs = t.procs ∧
      t'.ftable = t.ftable ∧ t'.icache.rest = t.icache.rest)
    (hk : ∀ j, j ≠ i → (j ∈ k' ↔ j ∈ k)) (href : c.ref = (s.icache i).ref + l'.count i)
    (hl : ∀ j, j ≠ i → l'.count j = l.count j) (hlocker : t'.locker i = if i ∈ k' then some p else s.locker i)
    (hview : t'.view i = s.view i) (hfree : (s.view i).type = 0 → (t'.Loaded i ↔ s.Loaded i))
    (hheld : i ∈ k' → t'.Loaded i ∧ s.locker i = none) : Walk p s o l' k' t' := by
  obtain ⟨hlog, hdisk, hprocs, hftable, hrest⟩ := hsame
  refine ⟨hlog.trans h.log, hdisk.trans h.disk, hprocs.trans h.procs, hftable.trans h.ftable,
    ⟨hrest ▸ h.rest.1, h.rest.2⟩,
    fun j => ?_, fun j => ?_, fun j => ?_, fun j => ?_, fun j hj => ?_⟩
  all_goals by_cases hji : j = i
  · rw [hji, hi, href]
  · rw [hne j hji, h.ref, hl j hji]
  · rw [hji, hlocker]
  · simp only [State.locker, hne j hji, hk j hji]
    exact h.locker j
  · rw [hji, hview]
  · simp only [State.view, State.Loaded, hne j hji, hdisk]
    exact h.view j
  · rw [hji]
    exact hfree
  · simp only [State.Loaded, hne j hji]
    exact h.free j
  · rw [hji]
    exact hheld (hji ▸ hj)
  · simp only [State.Loaded, hne j hji]
    exact h.held j ((hk j hji).mp hj)

lemma full_iff (h : Walk p s o l k t) (i : Nat) : t.full i = true ↔ ¬s.HasRoom l i := by
  have hlen : t.cached.length = (s.cached ++ l).dedup.length := by
    have hnodup : t.cached.Nodup := (nodup_dedup _).filter _
    refine Perm.length_eq ((perm_ext_iff_of_nodup hnodup (nodup_dedup _)).mpr fun j => ?_)
    rw [mem_dedup, mem_append, mem_cached h.rest.1, mem_cached h.rest.2, h.ref, ← count_pos_iff]
    omega
  rw [State.full, decide_eq_true_eq, State.HasRoom, hlen, h.ref]
  omega

lemma iget (h : Walk p s o l k t) (i : Nat) : Walk p s o (i :: l) k (Fs.iget p i t) := by
  have href := h.ref i
  have hi : (Fs.iget p i t).icache i = if 0 < (t.icache i).ref then { t.icache i with ref := (t.icache i).ref + 1 }
    else { t.icache i with ref := 1, busy := none, valid := false } := get_set_self _ _ _
  have hloaded : (Fs.iget p i t).Loaded i ↔ t.Loaded i := by
    by_cases hr : 0 < (t.icache i).ref <;> simp [State.Loaded, hi, hr]
  have hview : (Fs.iget p i t).view i = t.view i := by
    simp only [State.view, hloaded]
    by_cases hr : 0 < (t.icache i).ref
    · simp only [hi, if_pos hr]
      rfl
    · have hno : ¬t.Loaded i := fun hl => hr hl.1
      rw [if_neg hno, if_neg hno]
      rfl
  refine h.set _ hi (fun j hj => get_set_ne _ _ hj) ⟨rfl, rfl, rfl, rfl, rfl⟩ (fun _ _ => .rfl) ?_
    (fun j hj => count_cons_of_ne (Ne.symm hj)) ?_ (hview.trans (h.view i)) (fun h0 => hloaded.trans (h.free i h0))
    fun hk => (h.held i hk).imp_left hloaded.mpr
  · rw [count_cons_self]
    split <;> dsimp only <;> omega
  · rw [← h.locker i]
    by_cases hr : 0 < (t.icache i).ref <;> simp [State.locker, hi, hr]

lemma idup (h : Walk p s o l k t) (hpos : 0 < (t.icache i).ref) : Walk p s o (i :: l) k (Fs.idup (.temp p) i t) := by
  have href := h.ref i
  have hi : (Fs.idup (.temp p) i t).icache i = { t.icache i with ref := (t.icache i).ref + 1 } := get_set_self _ _ _
  have hloaded : (Fs.idup (.temp p) i t).Loaded i ↔ t.Loaded i := by simp [State.Loaded, hi, hpos]
  refine h.set _ hi (fun j hj => get_set_ne _ _ hj) ⟨rfl, rfl, rfl, rfl, rfl⟩ (fun _ _ => .rfl) ?_
    (fun j hj => count_cons_of_ne (Ne.symm hj)) ?_ ?_ (fun h0 => hloaded.trans (h.free i h0))
    fun hk => (h.held i hk).imp_left hloaded.mpr
  · rw [count_cons_self]
    dsimp only
    omega
  · rw [← h.locker i]
    simp [State.locker, hi, hpos]
  · rw [← h.view i]
    simp only [State.view, hloaded, hi]
    rfl

lemma ino_eq (h : Walk p s o l k t) (hi : i ∈ k) : (t.icache i).ino = s.view i := by
  rw [← h.view i, State.view, if_pos (h.held i hi).1]

lemma pos_of_mem (h : Walk p s o l k t) (hi : i ∈ l) : 0 < (t.icache i).ref := by
  rw [h.ref]
  exact Nat.add_pos_right _ (count_pos_iff.mpr hi)

lemma ilock (h : Walk p s o l k t) (hl : i ∈ l) (hk : i ∉ k) :
    Solo (exec p) (Fs.ilock i) t (fun _ u => s.Lockable i ∧ Walk p s o l (i :: k) u) (¬s.Lockable i) := by
  have hpos := h.pos_of_mem hl
  have hlocker := h.locker i
  rw [if_neg hk, State.locker, if_pos hpos] at hlocker
  by_cases hbusy : s.locker i = none
  swap
  · refine Solo.bind (Q := fun _ _ => False) (.act (fun r u he => ?_) fun hs => hbusy hs.1) fun _ _ h => h.elim
    rw [exec, if_neg (Nat.not_lt.mpr hpos), if_neg (hlocker.trans_ne hbusy)] at he
    cases he
  obtain ⟨u, he, hu, hne, hsame⟩ : ∃ u, exec p (.ilockBusy i) t = .next () u ∧
      u.icache i = { t.icache i with busy := some p } ∧ (∀ j, j ≠ i → u.icache j = t.icache j) ∧
      u.store = t.store ∧ u.procs = t.procs ∧ u.ftable = t.ftable ∧ u.icache.rest = t.icache.rest := by
    rw [exec, if_neg (Nat.not_lt.mpr hpos), if_pos (hlocker.trans hbusy)]
    exact ⟨_, rfl, get_set_self _ _ _, fun j hj => get_set_ne _ _ hj, rfl, rfl, rfl, rfl⟩
  obtain ⟨hstore, hprocs, hftable, hrest⟩ := hsame
  refine .step he ?_
  have hview := h.view i
  by_cases hv : (t.icache i).valid = true
  · have hload : t.Loaded i := ⟨hpos, hv⟩
    have hload' : u.Loaded i := by simpa [State.Loaded, hu] using hload
    refine .call (r := ()) (t := u) (by rw [exec, hu, if_pos hv]) ⟨⟨hbusy, fun h0 => (h.free i h0).mp hload⟩, ?_⟩
    refine h.set u hu hne ⟨by rw [hstore], by rw [hstore], hprocs, hftable, hrest⟩ (fun j hj => by simp [hj]) (h.ref i)
      (fun _ _ => rfl) (by simp [State.locker, hu, hpos]) ?_ (fun h0 => iff_of_true hload' ((h.free i h0).mp hload))
      fun _ => ⟨hload', hbusy⟩
    rw [← hview, State.view, State.view, if_pos hload, if_pos hload', hu]
  have hno : ¬t.Loaded i := fun hl => hv hl.2
  rw [State.view, if_neg hno] at hview
  by_cases htype : (s.view i).type = 0
  · refine .stop (e := .noType) (by rw [exec, hu, if_neg hv, hstore, hview, if_pos htype]) fun hs => ?_
    exact hno ((h.free i htype).mpr (hs.2 htype))
  have hload : exec p (.ilockLoad i) u = .next () { u with
      icache := u.icache.set i { u.icache i with ino := dinode u.store.disk i, valid := true } } := by
    rw [exec, hu, if_neg hv, hstore, hview, if_neg htype]
  refine .call hload ⟨⟨hbusy, fun h0 => absurd h0 htype⟩, h.set _ (get_set_self _ _ _) (fun j hj => ?_)
    ⟨congrArg (·.log.busy) hstore, congrArg Store.disk hstore, hprocs, hftable, hrest⟩ (fun j hj => by simp [hj]) ?_
    (fun _ _ => rfl) ?_ ?_ (fun h0 => absurd h0 htype) fun _ => ?_⟩
  · exact (get_set_ne _ _ hj).trans (hne j hj)
  · rw [hu]
    exact h.ref i
  · simp [State.locker, hu, hpos]
  · rw [← hview]
    simp [State.view, State.Loaded, hu, hpos, hstore]
  · simp [State.Loaded, hu, hpos, hbusy]

lemma iunlock {Z : Prop} (h : Walk p s o l (i :: k) t) (hk : i ∉ k) :
    Solo (exec p) (Fs.iunlock i) t (fun _ u => Walk p s o l k u ∧ u.Loaded i) Z := by
  obtain ⟨hload, hl⟩ := h.held i mem_cons_self
  have hlocker := h.locker i
  rw [if_pos mem_cons_self, State.locker, if_pos hload.1] at hlocker
  have hload' : State.Loaded { t with icache := t.icache.set i { t.icache i with busy := none } } i := by
    simpa [State.Loaded] using hload
  refine .call (r := ()) (t := { t with icache := t.icache.set i { t.icache i with busy := none } }) ?_ ⟨?_, hload'⟩
  · rw [exec, if_neg]
    rw [hlocker]
    rintro (h | h)
    · cases h
    · exact absurd hload.1 (Nat.not_lt.mpr (Nat.le_of_lt_succ h))
  · refine h.set _ (get_set_self _ _ _) (fun j hj => get_set_ne _ _ hj) ⟨rfl, rfl, rfl, rfl, rfl⟩
      (fun j hj => by simp [hj]) (h.ref i) (fun _ _ => rfl) ?_ ?_ (fun h0 => ?_) fun hi => absurd hi hk
    · rw [if_neg hk, hl]
      simp [State.locker]
    · rw [← h.view i, State.view, State.view, if_pos hload, if_pos hload', get_set_self]
    · exact iff_of_true hload' ((h.free i h0).mp hload)

/-- The entry is not one that `iput` frees. -/
lemma iput {Z : Prop} (h : Walk p s o (i :: l) k t) (hk : i ∈ k → i ∈ l) (hlast : (t.icache i).lastUnlinked = false) :
    Solo (exec p) (Fs.iput .temp i) t (fun _ => Walk p s o l k) Z := by
  have href := h.ref i
  rw [count_cons_self] at href
  have hi : (decRef (.temp p) i t).icache i = { t.icache i with ref := (t.icache i).ref - 1 } := get_set_self _ _ _
  have hloaded : 0 < (t.icache i).ref - 1 → ((decRef (.temp p) i t).Loaded i ↔ t.Loaded i) := fun h0 => by
    simp [State.Loaded, hi, h0, show 0 < (t.icache i).ref by omega]
  rw [Fs.iput]
  refine .step (r := false) (t := decRef (.temp p) i t) ?_ ?_
  · simp [exec, hlast, Ref.holder]
  rw [if_neg Bool.false_ne_true]
  refine .pure (h.set _ hi (fun j hj => get_set_ne _ _ hj) ⟨rfl, rfl, rfl, rfl, rfl⟩ (fun _ _ => .rfl)
    (by dsimp only; omega) (fun j hj => (count_cons_of_ne (Ne.symm hj)).symm) ?_ ?_ ?_ fun hi => ?_)
  -- When the last reference goes, there was none in `s`.
  all_goals rcases Nat.eq_zero_or_pos ((t.icache i).ref - 1) with h0 | h0
  · have hk' : i ∉ k := fun hik => by
      have := count_pos_iff.mpr (hk hik)
      omega
    rw [if_neg hk', State.locker, State.locker, hi, if_neg (by dsimp only; omega), if_neg (by omega)]
  · rw [← h.locker i]
    simp [State.locker, hi, h0, show 0 < (t.icache i).ref by omega]
  · rw [State.view, State.view, if_neg (fun hl => by have := hl.1; rw [hi] at this; dsimp only at this; omega),
      if_neg (fun hl => by have := hl.1; omega)]
    exact congrArg (dinode · i) (congrArg Table.get h.disk)
  · rw [← h.view i]
    simp only [State.view, hloaded h0, hi]
    rfl
  · exact fun _ => iff_of_false (fun hl => by have := hl.1; rw [hi] at this; dsimp only at this; omega)
      fun hl => by have := hl.1; omega
  · exact fun h0' => (hloaded h0).trans (h.free i h0')
  · have := count_pos_iff.mpr (hk hi)
    omega
  · exact (h.held i hi).imp_left (hloaded h0).mpr

/-- Without a transaction an inode cannot be freed. -/
lemma iunlockput (h : Walk p s o (i :: l) (i :: k) t) (hk : i ∉ k) (ho : o = none ∨ s.Keeps l i) :
    Solo (exec p) (Fs.iunlockput i) t (fun _ u => s.Keeps l i ∧ Walk p s o l k u) (¬s.Keeps l i) := by
  refine (h.iunlock hk).bind ?_
  rintro _ t ⟨h, hload⟩
  have href := h.ref i
  have hnlink : (t.icache i).ino.nlink = (s.view i).nlink := by rw [← h.view i, State.view, if_pos hload]
  rw [count_cons_self] at href
  by_cases hkeep : s.Keeps l i
  · refine (h.iput (fun hi => absurd hi hk) ?_).mono (fun _ _ h => ⟨hkeep, h⟩) id
    rw [Cached.lastUnlinked, hnlink, decide_eq_false_iff_not]
    rintro ⟨h1, -, hn⟩
    exact hkeep.elim (· hn) fun h => by omega
  · obtain ⟨hn, hzero⟩ := not_or.mp hkeep
    have hlast : (t.icache i).lastUnlinked = true := by
      rw [Cached.lastUnlinked, hnlink, decide_eq_true_eq]
      exact ⟨by omega, hload.2, not_not.mp hn⟩
    refine Solo.bind (Q := fun r u => r = true ∧ u.store = t.store) (.act (fun r u he => ?_) hkeep) ?_
    · rw [exec, if_pos hlast] at he
      split at he
      · cases he
      · cases he
        exact ⟨rfl, rfl⟩
    · rintro _ u ⟨rfl, hu⟩
      refine Solo.bind (Q := fun _ _ => False) (.act (fun r v he => ?_) hkeep) fun _ _ h => h.elim
      have hidle : ({ u.store with caller := p } : Store).log.busy = none := by
        show u.store.log.busy = none
        rw [hu, h.log]
        exact ho.resolve_right hkeep
      obtain ⟨ip, st, hw, -⟩ := Writers.onInode_next (m := fun ip => do return ((), ← itrunc i ip)) he
      have hstop := (itrunc_outside hidle i (u.icache i).ino).bind
        (R := fun _ _ => False) (f := fun ip => pure ((), ip)) fun _ _ h => h.elim
      exact hstop.of_ok _ _ hw

lemma inode {Z : Prop} (h : Walk p s o l k t) (hi : i ∈ k) :
    Solo (exec p) (act (.inode i)) t (fun d u => d = s.view i ∧ Walk p s o l k u) Z :=
  .call (r := s.view i) (t := t) (by rw [exec, h.ino_eq hi]) ⟨rfl, h⟩

lemma onInode {α : Type} {m : Dinode → FsM (α × Dinode)} {r : α} (h : Walk p s o l k t) (hi : i ∈ k)
    (hm : m (s.view i) { t.store with caller := p } = .ok (r, s.view i) { t.store with caller := p }) :
    ∃ u, Fs.onInode p i m t = .next r u ∧ Walk p s o l k u := by
  have hheld := h.held i hi
  rw [Fs.onInode, h.ino_eq hi, hm]
  have hload : State.Loaded (setIno { t with store := { t.store with caller := p } } i (s.view i)) i := by
    simpa [State.Loaded, setIno] using hheld.1
  refine ⟨_, rfl, h.set _ (get_set_self _ _ _) (fun j hj => get_set_ne _ _ hj) ⟨rfl, rfl, rfl, rfl, rfl⟩
    (fun _ _ => .rfl) (h.ref i) (fun _ _ => rfl) ?_ ?_ (fun h0 => ?_) fun _ => ⟨hload, hheld.2⟩⟩
  · rw [← h.locker i]
    simp [State.locker, setIno]
  · rw [State.view, if_pos hload]
    simp [setIno]
  · exact iff_of_true hload ((h.free i h0).mp hheld.1)

lemma dirlookup (h : Walk p s o l k t) (hi : i ∈ k) (hdir : (s.view i).type = T_DIR)
    (name : List UInt8) (ho : o = none ∨ Searchable s.store.disk (s.view i) name) :
    Solo (exec p) (act (.dirlookup i name)) t
      (fun r u => (Searchable s.store.disk (s.view i) name ∧ ∀ j ∈ lookupIn s i name, s.HasRoom l j) ∧
        r.map Prod.fst = lookupIn s i name ∧ Walk p s o ((lookupIn s i name).toList ++ l) k u)
      (¬(Searchable s.store.disk (s.view i) name ∧ ∀ j ∈ lookupIn s i name, s.HasRoom l j)) := by
  have hfound : lookupIn s i name = (entryOf s.store.disk (s.view i) name).map Prod.fst := by rw [lookupIn, if_pos hdir]
  by_cases hsearch : Searchable s.store.disk (s.view i) name
  swap
  · refine .act (fun r u he => absurd ?_ hsearch) fun hs => hsearch hs.1
    have hidle : ({ t.store with caller := p } : Store).log.busy = none := h.log.trans (ho.resolve_right hsearch)
    have hread := dirlookup_outside hidle (s.view i) name
    rw [← h.disk]
    rw [exec, Fs.onInode, h.ino_eq hi] at he
    cases hrun : Fs.dirlookup (s.view i) name { t.store with caller := p } with
    | error e st =>
      rw [hrun] at he
      cases he
    | ok x st => exact hread.of_ok _ _ hrun
  have hread : ∀ st : Store, st.disk = s.store.disk →
      Fs.dirlookup (s.view i) name st = .ok (entryOf s.store.disk (s.view i) name, s.view i) st := fun st hst => by
    rw [← hst] at hsearch ⊢
    exact hsearch.dirlookup hdir
  obtain ⟨u, hu, hwalk⟩ := h.onInode hi (m := fun dp => Fs.dirlookup dp name) (hread _ h.disk)
  rw [hfound]
  cases hr : entryOf s.store.disk (s.view i) name with
  | none =>
    rw [hr] at hu
    exact .call (r := none) (t := u) (by rw [exec, hu]) ⟨⟨hsearch, by simp⟩, rfl, hwalk⟩
  | some x =>
    obtain ⟨inum, off⟩ := x
    rw [hr] at hu
    by_cases hroom : s.HasRoom l inum
    · have hg := hwalk.iget inum
      refine .call (r := some (inum, off)) (t := noteFound p i name inum (Fs.iget p inum u)) ?_
        ⟨⟨hsearch, ?_⟩, rfl, { hg with }⟩
      · have hfull := (hwalk.full_iff inum).not.mpr (not_not.mpr hroom)
        rw [exec, hu]
        exact if_neg hfull
      · rintro _ ⟨⟩
        exact hroom
    · refine .stop (e := .igetNoInodes) ?_ fun hs => hroom (hs.2 inum rfl)
      rw [exec, hu]
      exact if_pos ((hwalk.full_iff inum).mpr hroom)

end Walk

/-! ## The walk -/

/-- The inode that the components lead to from `i`, if every one is present and all before it lead to directories. -/
def resolve (s : State) (i : Nat) (names : List (List UInt8)) : Option Nat := names.foldlM (lookupIn s) i

/-- The directory in which the last component is looked up, with that component. -/
def resolveParent (s : State) (i : Nat) (names : List (List UInt8)) : Option (Nat × List UInt8) :=
  names.getLast?.bind fun name => (resolve s i names.dropLast).bind fun d =>
    if (s.view d).type = T_DIR then some (d, name) else none

def namexResult (s : State) (parent : Bool) (i : Nat) (names : List (List UInt8)) : Option (Nat × List UInt8) :=
  if parent then resolveParent s i names else (resolve s i names).map (·, [])

lemma resolve_cons (s : State) (i : Nat) (name : List UInt8) (rest : List (List UInt8)) :
    resolve s i (name :: rest) = (lookupIn s i name).bind fun j => resolve s j rest := rfl

lemma namexResult_cons {parent : Bool} {rest : List (List UInt8)} (h : ¬(parent = true ∧ rest = [])) :
    namexResult s parent i (name :: rest) = (lookupIn s i name).bind fun j => namexResult s parent j rest := by
  cases parent with
  | false =>
    simp only [namexResult, resolve_cons]
    cases lookupIn s i name <;> rfl
  | true =>
    obtain ⟨x, rest, rfl⟩ := exists_cons_of_ne_nil fun hr => h ⟨rfl, hr⟩
    simp only [namexResult, resolveParent, List.getLast?_cons_cons, dropLast_cons_cons, resolve_cons]
    cases lookupIn s i name with
    | none => cases (x :: rest).getLast? <;> rfl
    | some j => rfl

lemma namexResult_last (s : State) (i : Nat) (name : List UInt8) :
    namexResult s true i [name] = if (s.view i).type = T_DIR then some (i, name) else none := rfl

lemma namexResult_not_dir {parent : Bool} {rest : List (List UInt8)} (h : (s.view i).type ≠ T_DIR) :
    namexResult s parent i (name :: rest) = none := by
  by_cases hp : parent = true ∧ rest = []
  · obtain ⟨rfl, rfl⟩ := hp
    rw [namexResult_last, if_neg h]
  · rw [namexResult_cons hp, lookupIn, if_neg h]
    rfl

/-- Process `p`, with references to inode `i` and to those of `l`, can resolve `names` from there: no directory that is
searched has a hole, and no inode on the way loses its last reference. If `total`, the inodes can also be locked and
found a place in the cache. -/
def Passable (total : Prop) (s : State) (l : List Nat) (parent : Bool) : Nat → List (List UInt8) → Prop
  | _, [] => True
  | i, name :: rest =>
    (total → s.Lockable i) ∧
    if (s.view i).type ≠ T_DIR then s.Keeps l i
    else if parent = true ∧ rest = [] then True
    else (Searchable s.store.disk (s.view i) name ∧ ∀ j ∈ lookupIn s i name, total → s.HasRoom (i :: l) j) ∧
      (lookupIn s i name = none → s.Keeps l i) ∧
      ∀ j ∈ lookupIn s i name, s.Keeps (j :: l) i ∧ Passable total s l parent j rest

instance Passable.decidable (total : Prop) [Decidable total] (s : State) (l : List Nat) (parent : Bool) (i : Nat)
    (names : List (List UInt8)) : Decidable (Passable total s l parent i names) := by
  induction names generalizing i with
  | nil => exact inferInstanceAs (Decidable True)
  | cons name rest ih => exact inferInstanceAs (Decidable (_ ∧ ite _ _ _))

lemma namexFrom_spec {parent : Bool} {names : List (List UInt8)} (hne : parent = true → names ≠ [])
    (h : Walk p s o (i :: l) [] t) (ho : o = none ∨ Passable False s l parent i names) :
    Solo (exec p) (namexFrom parent i names) t (fun r u => Passable True s l parent i names ∧
      r = namexResult s parent i names ∧ Walk p s o ((r.map Prod.fst).toList ++ l) [] u)
      (¬Passable True s l parent i names) := by
  induction names generalizing i t with
  | nil =>
    cases parent with
    | true => exact absurd rfl (hne rfl)
    | false => exact .pure ⟨trivial, rfl, h⟩
  | cons name rest ih =>
    rw [namexFrom]
    refine ((h.ilock mem_cons_self (by simp)).mono (fun _ _ h => h) fun hl hp => hl (hp.1 trivial)).bind ?_
    rintro _ t ⟨hlock, h⟩
    refine (h.inode mem_cons_self).bind ?_
    rintro _ t ⟨rfl, h⟩
    by_cases hdir : (s.view i).type = T_DIR
    swap
    · have hp : ∀ total, Passable total s l parent i (name :: rest) ↔ s.Keeps l i := fun total => by
        simp [Passable, hdir, hlock]
      rw [if_pos hdir, hp]
      refine (h.iunlockput (by simp) (ho.imp_right (hp False).mp)).bind fun _ _ h => ?_
      exact .pure ⟨h.1, (namexResult_not_dir hdir).symm, h.2⟩
    rw [if_neg (not_not.mpr hdir)]
    by_cases hstop : parent = true ∧ rest = []
    · rw [if_pos hstop]
      refine (h.iunlock (by simp)).bind fun _ _ h => .pure ⟨?_, ?_, h.1⟩
      · simp [Passable, hdir, hlock, hstop]
      · rw [hstop.1, hstop.2, namexResult_last, if_pos hdir]
    rw [if_neg hstop, namexResult_cons hstop]
    have hlook := fun ho => h.dirlookup mem_cons_self hdir name ho
    cases hfound : lookupIn s i name with
    | none =>
      have hp : ∀ total, Passable total s l parent i (name :: rest) ↔
          Searchable s.store.disk (s.view i) name ∧ s.Keeps l i := fun total => by
        simp [Passable, hdir, hlock, hstop, hfound]
      rw [hfound] at hlook
      rw [hp]
      replace ho := ho.imp_right (hp False).mp
      refine ((hlook (ho.imp_right And.left)).mono (fun _ _ h => h) fun hs hp => hs ⟨hp.1, nofun⟩).bind ?_
      rintro r t ⟨⟨hsearch, -⟩, hr, h⟩
      rw [Option.map_eq_none_iff.mp hr, and_iff_right hsearch]
      refine (h.iunlockput (by simp) (ho.imp_right And.right)).bind fun _ _ h => ?_
      exact .pure ⟨h.1, rfl, h.2⟩
    | some j =>
      have hp : ∀ total, Passable total s l parent i (name :: rest) ↔
          (Searchable s.store.disk (s.view i) name ∧ (total → s.HasRoom (i :: l) j)) ∧ s.Keeps (j :: l) i ∧
            Passable total s l parent j rest := fun total => by
        simp [Passable, hdir, hlock, hstop, hfound]
      rw [hfound] at hlook
      rw [hp]
      replace ho := ho.imp_right (hp False).mp
      refine ((hlook (ho.imp_right fun h => h.1.1)).mono (fun _ _ h => h) fun hs hp =>
        hs ⟨hp.1.1, fun _ hj => Option.mem_some.mp hj ▸ hp.1.2 trivial⟩).bind ?_
      rintro r t ⟨⟨hsearch, hroom⟩, hr, h⟩
      obtain ⟨⟨next, off⟩, rfl, rfl⟩ := Option.map_eq_some_iff.mp hr
      rw [and_iff_right ⟨hsearch, fun _ => hroom _ rfl⟩]
      have hswap : Walk p s o (i :: next :: l) [i] t := h.perm fun j => by
        simp [count_cons, Nat.add_comm, Nat.add_left_comm]
      refine ((hswap.iunlockput (by simp) (ho.imp_right fun h => h.2.1)).mono (fun _ _ h => h) fun hk hp =>
        hk hp.1).bind ?_
      rintro _ t ⟨hkeep, h⟩
      rw [and_iff_right hkeep]
      exact ih (fun hpar hr => hstop ⟨hpar, hr⟩) h (ho.imp_right fun h => h.2.2)

def startOf (s : State) (p : Pid) (path : List UInt8) : Nat :=
  if path.head? = some slash then ROOTINO else (s.procs p).cwd

/-- Process `p`, with references to the inodes of `l`, can resolve the path. -/
def Resolvable (total : Prop) (s : State) (p : Pid) (l : List Nat) (parent : Bool) (path : List UInt8) : Prop :=
  (path.head? = some slash → total → s.HasRoom l ROOTINO) ∧
    Passable total s l parent (startOf s p path) (components path)

instance (total : Prop) [Decidable total] (s : State) (p : Pid) (l : List Nat) (parent : Bool) (path : List UInt8) :
    Decidable (Resolvable total s p l parent path) := inferInstanceAs (Decidable (_ ∧ _))

lemma namex_spec {parent : Bool} {path : List UInt8} (hcwd : 0 < (s.icache (s.procs p).cwd).ref)
    (h : Walk p s o l [] t) (ho : o = none ∨ Resolvable False s p l parent path) :
    Solo (exec p) (namex parent path) t (fun r u => Resolvable True s p l parent path ∧
      r = namexResult s parent (startOf s p path) (components path) ∧
      Walk p s o ((r.map Prod.fst).toList ++ l) [] u) (¬Resolvable True s p l parent path) := by
  -- The first inode is dropped at once if there are no components, and it is not the last reference or not loaded.
  have hfrom : ∀ t, Walk p s o (startOf s p path :: l) [] t → (t.icache (startOf s p path)).lastUnlinked = false →
      Solo (exec p) (namexFrom parent (startOf s p path) (components path)) t
        (fun r u => Passable True s l parent (startOf s p path) (components path) ∧
          r = namexResult s parent (startOf s p path) (components path) ∧
            Walk p s o ((r.map Prod.fst).toList ++ l) [] u)
        (¬Passable True s l parent (startOf s p path) (components path)) := fun t h hlast => by
    by_cases hne : parent = true → components path ≠ []
    · exact namexFrom_spec hne h (ho.imp_right And.right)
    · obtain ⟨rfl, hnil⟩ := Classical.not_imp.mp hne
      rw [not_not.mp hnil]
      exact (h.iput (by simp) hlast).bind fun _ _ h => .pure ⟨trivial, rfl, h⟩
  have hlast : ∀ {c : Cached}, c.ref ≠ 1 ∨ c.valid = false → c.lastUnlinked = false := fun hc => by
    rw [Cached.lastUnlinked, decide_eq_false_iff_not]
    rintro ⟨h1, hv, -⟩
    rcases hc with hc | hc
    · exact hc h1
    · rw [hc] at hv
      cases hv
  rw [namex, pathElems_eq _ _ le_rfl]
  unfold Resolvable
  by_cases hslash : path.head? = some slash
  · have hstart : startOf s p path = ROOTINO := if_pos hslash
    rw [if_pos hslash]
    rw [hstart] at hfrom ⊢
    by_cases hroom : s.HasRoom l ROOTINO
    · refine .step (r := ()) (t := Fs.iget p ROOTINO t) ?_ ?_
      · have hfull := (h.full_iff ROOTINO).not.mpr (not_not.mpr hroom)
        rw [exec, if_neg hfull]
      · rw [and_iff_right fun _ _ => hroom]
        refine hfrom _ (h.iget ROOTINO) (hlast ?_)
        rw [Fs.iget, get_set_self]
        split
        · exact .inl (by dsimp only; omega)
        · exact .inr rfl
    · refine (Solo.stop (e := .igetNoInodes) ?_ fun hs => hroom (hs.1 hslash trivial)).bind
        (Q := fun _ _ => False) fun _ _ h => h.elim
      rw [exec, if_pos ((h.full_iff ROOTINO).mpr hroom)]
  · have hstart : startOf s p path = (s.procs p).cwd := if_neg hslash
    rw [if_neg hslash, and_iff_right fun h => absurd h hslash]
    rw [hstart] at hfrom ⊢
    refine .step (r := (s.procs p).cwd) (t := t) (by rw [exec, h.procs])
      (.step rfl (hfrom _ (h.idup ?_) (hlast (.inl ?_))))
    · rw [h.ref]
      exact Nat.add_pos_left hcwd _
    · rw [Fs.idup, get_set_self]
      have := h.ref (s.procs p).cwd
      dsimp only
      omega

lemma namei_spec {path : List UInt8} (hcwd : 0 < (s.icache (s.procs p).cwd).ref) (h : Walk p s o l [] t)
    (ho : o = none ∨ Resolvable False s p l false path) :
    Solo (exec p) (namei path) t (fun r u => Resolvable True s p l false path ∧
      r = resolve s (startOf s p path) (components path) ∧ Walk p s o (r.toList ++ l) [] u)
      (¬Resolvable True s p l false path) := by
  refine (namex_spec hcwd h ho).bind ?_
  rintro _ t' ⟨hres, rfl, h⟩
  have hr : (namexResult s false (startOf s p path) (components path)).map Prod.fst =
      resolve s (startOf s p path) (components path) := by
    simp [namexResult, Function.comp_def]
  rw [hr] at h ⊢
  exact .pure ⟨hres, rfl, h⟩

lemma resolveParent_concat (s : State) (i : Nat) (names : List (List UInt8)) (name : List UInt8) :
    resolveParent s i (names ++ [name]) =
      (resolve s i names).bind fun d => if (s.view d).type = T_DIR then some (d, name) else none := by
  simp [resolveParent]

lemma resolveParent_eq_none {names : List (List UInt8)} : resolveParent s i names = none ↔
    names = [] ∨ ∀ d, resolve s i names.dropLast = some d → (s.view d).type ≠ T_DIR := by
  obtain rfl | ⟨names, name, rfl⟩ := names.eq_nil_or_concat'
  · exact ⟨fun _ => .inl rfl, fun _ => rfl⟩
  rw [resolveParent_concat, dropLast_concat]
  cases resolve s i names with
  | none => simp
  | some d => simp

lemma resolve_of_parent {names : List (List UInt8)} {d : Nat} (h : resolveParent s i names = some (d, name)) :
    resolve s i names = lookupIn s d name := by
  obtain rfl | ⟨names, x, rfl⟩ := names.eq_nil_or_concat'
  · cases h
  rw [resolveParent_concat] at h
  obtain ⟨e, he, hd⟩ := Option.bind_eq_some_iff.mp h
  split at hd
  · cases hd
    rw [resolve, foldlM_append]
    change (resolve s i names).bind _ = _
    rw [he]
    simp
  · cases hd

lemma boot_idle : State.Idle 1 (boot (Writers.smallDisk 32)) := ⟨rfl, rfl, by decide⟩

/-- The current directory of process 1 and its parent are removed. -/
def removeParent : List (Turn Pid Syscall) := oneByOne [
  (1, .mkdir (some [97])), (1, .mkdir (some [97, 47, 98])), (1, .chdir (some [97, 47, 98])),
  (1, .unlink (some [47, 97, 47, 98])), (1, .unlink (some [47, 97]))]

end Xv6.Fs
