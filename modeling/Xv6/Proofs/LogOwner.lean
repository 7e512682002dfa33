import Xv6.Directory
import Xv6.Lib.Outcome

/-! # Block operations log for the transaction that is open -/

namespace Xv6.Fs

structure Logged (s s' : Store) : Prop where
  busy : s'.log.busy = s.log.busy
  caller : s'.caller = s.caller
  writes : ∀ w ∈ s'.writes, w ∈ s.writes ∨ w = (s.caller, s.log.busy)

variable {α β : Type}

/-- Whatever it writes to the log is in the open transaction, and it does not miss one that is open. -/
def Logs (x : FsM α) : Prop :=
  ∀ s, Ensures x s (fun _ s' => Logged s s') fun e => s.log.busy ≠ none → e ≠ .writeOutsideTrans

namespace Logs

lemma pure (a : α) : Logs (Pure.pure a : FsM α) := fun _ => .pure ⟨rfl, rfl, fun _ hw => .inl hw⟩

lemma throw {e : Panic} (he : e ≠ .writeOutsideTrans) : Logs (MonadExcept.throw e : FsM α) :=
  fun _ => .throw fun _ => he

lemma bind {x : FsM α} {f : α → FsM β} (h : Logs x) (hf : ∀ a, Logs (f a)) : Logs (x >>= f) := by
  intro s
  refine (h s).bind fun a s' hs => ?_
  refine (hf a s').mono (fun _ s'' hs' => ⟨hs'.busy.trans hs.busy, hs'.caller.trans hs.caller, fun w hw => ?_⟩)
    fun e he => hs.busy ▸ he
  rcases hs'.writes w hw with hw | hw
  · exact hs.writes w hw
  · rw [hs.busy, hs.caller] at hw
    exact .inr hw

lemma ite {c : Prop} [Decidable c] {x y : FsM α} (hx : Logs x) (hy : Logs y) : Logs (if c then x else y) :=
  fun s => .ite (fun _ => hx s) fun _ => hy s

lemma bread (b : Nat) : Logs (bread b) := fun s => .get_bind (pure (s.disk b) s)

lemma readsb : Logs readsb := fun s => .get_bind (pure (superblock s.disk) s)

lemma logWrite (b : Nat) (data : Block) : Logs (logWrite b data) := by
  intro s
  refine .get_bind (.ite (fun _ => .throw fun _ => nofun) fun _ => .ite (fun h => .throw fun hb => absurd h hb) fun _ =>
    .set ⟨rfl, rfl, fun w hw => ?_⟩)
  rcases List.mem_cons.mp hw with rfl | hw
  · exact .inr rfl
  · exact .inl hw

lemma ballocFrom (sb : Superblock) (n b : Nat) : Logs (ballocFrom sb n b) := by
  induction n generalizing b with
  | zero => exact throw nofun
  | succ n ih =>
    refine ite (bind (bread _) fun bp => ?_) (throw nofun)
    split
    · exact bind (logWrite _ _) fun _ => bind (logWrite _ _) fun _ => pure _
    · exact ih _

lemma balloc : Logs balloc := by
  intro s
  refine .get_bind (bind readsb (fun _ => bind (ballocFrom _ _ _) fun b => bind ?_ fun _ => pure b) s)
  exact fun _ => .update ⟨rfl, rfl, fun _ hw => .inl hw⟩

lemma bfree (b : Nat) : Logs (bfree b) :=
  bind readsb fun _ => bind (bread _) fun _ => ite (logWrite _ _) (throw nofun)

lemma iallocTry (i : Nat) (type : UInt16) : Logs (iallocTry i type) :=
  bind (bread _) fun _ => ite (bind (logWrite _ _) fun _ => pure _) (pure _)

lemma iupdate (i : Nat) (ip : Dinode) : Logs (iupdate i ip) :=
  bind (bread _) fun _ => logWrite _ _

lemma bmap (ip : Dinode) (bn : Nat) : Logs (bmap ip bn) := by
  refine ite (ite (bind balloc fun _ => pure _) (pure _)) (ite ?_ (throw nofun))
  have hrest : ∀ ip : Dinode, Logs (do
      let bp ← Fs.bread (ip.addr NDIRECT).toNat
      if wordAt bp (bn - NDIRECT) = 0 then do
        let addr ← Fs.balloc
        Fs.logWrite (ip.addr NDIRECT).toNat (setWord bp (bn - NDIRECT) (UInt32.ofNat addr))
        return (addr, ip)
      else return ((wordAt bp (bn - NDIRECT)).toNat, ip)) := fun ip =>
    bind (bread _) fun bp => ite (bind balloc fun _ => bind (logWrite _ _) fun _ => pure _) (pure _)
  exact ite (bind balloc fun _ => bind (pure _) hrest) (bind (pure _) hrest)

lemma truncDirect (ip : Dinode) (n : Nat) : Logs (truncDirect ip n) := by
  induction n with
  | zero => exact pure _
  | succ n ih => exact bind ih fun ip => ite (pure _) (bind (bfree _) fun _ => pure _)

lemma truncIndirect (a : Block) (n : Nat) : Logs (truncIndirect a n) := by
  induction n with
  | zero => exact pure _
  | succ n ih => exact bind ih fun _ => ite (pure _) (bfree _)

lemma itrunc (i : Nat) (ip : Dinode) : Logs (itrunc i ip) := by
  have hrest : ∀ ip : Dinode, Logs (Fs.iupdate i { ip with size := 0 } >>= fun _ =>
      Pure.pure { ip with size := 0 }) := fun ip => bind (iupdate _ _) fun _ => pure _
  refine bind (truncDirect _ _) fun ip => ite (bind (pure _) hrest) ?_
  exact bind (bread _) fun _ => bind (truncIndirect _ _) fun _ => bind (bfree _) fun _ => bind (pure _) hrest

lemma readLoop (fuel : Nat) (ip : Dinode) (off n : Nat) : Logs (readLoop fuel ip off n) := by
  induction fuel generalizing ip off n with
  | zero => exact pure _
  | succ fuel ih =>
    refine ite (pure _) (bind (bmap _ _) fun x => bind (bread _) fun bp => ?_)
    exact bind (ih _ _ _) fun _ => pure _

lemma readi (ip : Dinode) (off n : Nat) : Logs (readi ip off n) :=
  ite (pure _) (bind (readLoop _ _ _ _) fun _ => pure _)

lemma writeLoop (fuel : Nat) (ip : Dinode) (off : Nat) (src : List UInt8) :
    Logs (writeLoop fuel ip off src) := by
  induction fuel generalizing ip off src with
  | zero => exact pure _
  | succ fuel ih =>
    refine ite (pure _) (bind (bmap _ _) fun x => bind (bread _) fun bp => ?_)
    exact bind (logWrite _ _) fun _ => ih _ _ _

lemma writei (i : Nat) (ip : Dinode) (off : Nat) (src : List UInt8) : Logs (writei i ip off src) := by
  refine ite (pure _) (ite (pure _) (bind (writeLoop _ _ _ _) fun ip => ?_))
  exact ite (bind (iupdate _ _) fun _ => pure _) (pure _)

lemma readDirent {e : Panic} (he : e ≠ .writeOutsideTrans) (dp : Dinode) (off : Nat) : Logs (readDirent e dp off) := by
  refine bind (readi _ _ _) fun x => ?_
  obtain ⟨r, dp⟩ := x
  cases r with
  | none => exact throw he
  | some l => exact ite (pure _) (throw he)

lemma lookupFrom (name : List UInt8) (n : Nat) (dp : Dinode) (off : Nat) :
    Logs (lookupFrom name n dp off) := by
  induction n generalizing dp off with
  | zero => exact pure _
  | succ n ih =>
    exact ite (bind (readDirent (by decide) _ _) fun x => ite (pure _) (ih _ _)) (pure _)

lemma dirlookup (dp : Dinode) (name : List UInt8) : Logs (dirlookup dp name) :=
  ite (throw nofun) (lookupFrom _ _ _ _)

lemma emptyFrom (n : Nat) (dp : Dinode) (off : Nat) : Logs (emptyFrom n dp off) := by
  induction n generalizing dp off with
  | zero => exact pure _
  | succ n ih =>
    exact ite (bind (readDirent (by decide) _ _) fun x => ite (pure _) (ih _ _)) (pure _)

lemma isdiremptyFrom (n : Nat) (dp : Dinode) (off : Nat) : Logs (isdiremptyFrom n dp off) := by
  induction n generalizing dp off with
  | zero => exact pure _
  | succ n ih =>
    exact ite (bind (readDirent (by decide) _ _) fun x => ite (pure _) (ih _ _)) (pure _)

end Logs

end Xv6.Fs
