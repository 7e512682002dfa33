import Xv6.Process

/-!
# Waiters and wakers (`sleep1.p`)

Wakers make the condition true under the lock and call `wakeup`, before or after they release it.
-/

namespace Xv6.Process

open Threads

/-- The protected data, and for the proofs only the process that last turned the condition from
false to true. -/
structure Guarded (X : Type) where
  val : X
  maker : Option Nat

variable {X : Type}

/-- The lock of the data and the channel. -/
def lk : Nat := 1
def chan : Chan := .addr 1

inductive Role (cond : X → Bool) where
  /-- Test, sleep and, if `loop`, test again; then do something that does not make a false
  condition true. A run gets through finitely many rounds. -/
  | waiter (loop : Bool) (rounds : Nat) (take : { f : X → X // ∀ x, cond x = false → cond (f x) = false })
  /-- Make the condition true and call `wakeup`, before releasing the lock if `early`. -/
  | waker (early : Bool) (make : { f : X → X // ∀ x, cond (f x) = true })
  | schedule (i : Nat)
  | preempt (i : Nat)

def waitFor (cond : X → Bool) (loop : Bool) : Nat → Kprog (Guarded X) Unit
  | 0 => act .stuck
  | rounds + 1 => do
    let x ← act (.data (fun _ x => x) [])
    if cond x.val then pure ()
    else
      sleep chan lk
      if loop then waitFor cond loop rounds else pure ()

def Role.body (nproc : Nat) {cond : X → Bool} : Role cond → Kprog (Guarded X) Unit
  | .waiter loop rounds take => do
    acquire lk
    waitFor cond loop rounds
    let _ ← act (.data (fun _ x => { x with val := take.val x.val }) [])
    release lk
  | .waker early make => do
    acquire lk
    let _ ← act (.data
      (fun p x => ⟨make.val x.val, if cond x.val then x.maker else some p⟩) [chan])
    if early then
      wakeup nproc chan
      release lk
    else
      release lk
      wakeup nproc chan
  | .schedule i => act (.schedule i)
  | .preempt i => act (.preempt i)

def protocol (nproc : Nat) (cond : X → Bool) :
    Machine Tid (Act (Guarded X)) Act.Res (Role cond) (State (Guarded X)) Panic :=
  machine (Role.body nproc)

def crowd : Nat → Table Proc
  | 0 => .const Proc.unused
  | n + 1 => (crowd n).set n { Proc.unused with state := .runnable, pid := Int32.ofNat (n + 1) }

def ready {X : Type} (nproc : Nat) (x : X) : State X where
  procs := crowd nproc
  locks := .const none
  nextpid := Int32.ofNat (nproc + 1)
  data := x
  created := nproc
  failed := []
  forks := []
  waits := []
  exits := []

end Xv6.Process
