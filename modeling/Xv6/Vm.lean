import Xv6.Lib.Bytes
import Xv6.Syscall
import Mathlib.Logic.Function.Basic

/-!
# Page tables and physical memory (`kalloc.c`, `vm.c`)

Page directories and page tables live in pages of physical memory as little-endian words. Addresses
and sizes are numbers below `2^32`, with the wrap of `uint` arithmetic written out. A panic keeps the
memory it happened in. Other processors allocate and free pages too, so the free list is given by
the frame each call of `kalloc` finds at its head.
-/

namespace Xv6.Vm

def PGSIZE : Nat := 4096
def EXTMEM : Nat := 0x100000
def PHYSTOP : Nat := 0xE000000
def DEVSPACE : Nat := 0xFE000000
def KERNLINK : Nat := KERNBASE + EXTMEM
def NPTENTRIES : Nat := 1024

def PTE_P : Nat := 1
def PTE_W : Nat := 2
def PTE_U : Nat := 4

/-- Linker symbols: the kernel virtual address `data` and the physical address of `end`. -/
structure Layout where
  data : Nat
  kend : Nat
  data_aligned : data % PGSIZE = 0
  data_lower : KERNLINK < data
  data_upper : data < KERNBASE + PHYSTOP
  kend_pos : 0 < kend

abbrev Page := Fin PGSIZE → UInt8

/-- `supply k` is the frame that call `k` of `kalloc` takes off the free list. The last field only
records the frames that `kfree` has put on the free list. -/
structure Mem where
  page : Nat → Page
  supply : Nat → Option Nat
  calls : Nat
  freed : List Nat

inductive Panic where
  | remap
  | kfree
  | freevm
  | copyExist
  | copyPresent
  deriving DecidableEq

/-- A machine stopped by a panic. -/
structure Halt where
  panic : Panic
  mem : Mem

/-- The 32-bit entry `i` of the table in frame `f`. -/
def Mem.entry (m : Mem) (f i : Nat) : Nat := Bytes.loadLE (Bytes.byteAt (m.page f)) (4 * i) 4

def Mem.setPage (m : Mem) (f : Nat) (p : Page) : Mem := { m with page := Function.update m.page f p }

def Mem.setEntry (m : Mem) (f i e : Nat) : Mem := m.setPage f (Bytes.storeLE (m.page f) (4 * i) 4 e)

/-- `memset(p, 0, PGSIZE)`. -/
def Mem.zero (m : Mem) (f : Nat) : Mem := m.setPage f (fun _ => 0)

/-- `e & PTE_P`. -/
def present (e : Nat) : Prop := e % 2 = 1

instance (e : Nat) : Decidable (present e) := inferInstanceAs (Decidable (_ = _))

/-- Frame number of `PTE_ADDR(e)`. -/
def frameOf (e : Nat) : Nat := e / PGSIZE

def pdx (va : Nat) : Nat := va / 2 ^ 22 % 1024
def ptx (va : Nat) : Nat := va / 2 ^ 12 % 1024
def pgroundup (sz : Nat) : Nat := (sz + (PGSIZE - 1)) % 2 ^ 32 / PGSIZE * PGSIZE
def pgrounddown (a : Nat) : Nat := a / PGSIZE * PGSIZE

def kalloc (m : Mem) : Option Nat × Mem :=
  (m.supply m.calls, { m with calls := m.calls + 1 })

/-- The page is filled with junk and goes back to the free list. -/
def Mem.free (m : Mem) (f : Nat) : Mem := { m.setPage f (fun _ => 1) with freed := f :: m.freed }

def kfree (L : Layout) (m : Mem) (f : Nat) : Except Halt Mem :=
  if f * PGSIZE < L.kend ∨ f * PGSIZE ≥ PHYSTOP then .error ⟨.kfree, m⟩
  else .ok (m.free f)

/-- Table frame and index of the entry for `va`. -/
def walkpgdir (m : Mem) (pgdir va : Nat) (alloc : Bool) : Option (Nat × Nat) × Mem :=
  let pde := m.entry pgdir (pdx va)
  if present pde then (some (frameOf pde, ptx va), m)
  else if alloc then
    match kalloc m with
    | (none, m) => (none, m)
    | (some f, m) =>
      (some (f, ptx va), (m.zero f).setEntry pgdir (pdx va) (f * PGSIZE ||| PTE_P ||| PTE_W ||| PTE_U))
  else (none, m)

/-- The loop of `mappages` for `n` pages; `false` is the return value -1. -/
def mapLoop (pgdir perm : Nat) : Nat → Nat → Nat → Mem → Except Halt (Bool × Mem)
  | 0, _, _, m => .ok (true, m)
  | n + 1, a, pa, m =>
    match walkpgdir m pgdir a true with
    | (none, m) => .ok (false, m)
    | (some (t, i), m) =>
      if present (m.entry t i) then .error ⟨.remap, m⟩
      else mapLoop pgdir perm n ((a + PGSIZE) % 2 ^ 32) ((pa + PGSIZE) % 2 ^ 32)
        (m.setEntry t i (pa ||| perm ||| PTE_P))

/-- The loop runs from the page of `va` until it reaches the page of the last byte. -/
def mappages (m : Mem) (pgdir va size pa perm : Nat) : Except Halt (Bool × Mem) :=
  let a := pgrounddown va
  let last := pgrounddown ((va + size + 2 ^ 32 - 1) % 2 ^ 32)
  mapLoop pgdir perm ((last + 2 ^ 32 - a) % 2 ^ 32 / PGSIZE + 1) a pa m

structure Kmap where
  virt : Nat
  physStart : Nat
  physEnd : Nat
  perm : Nat

def kmap (L : Layout) : List Kmap :=
  [{ virt := KERNBASE, physStart := 0, physEnd := EXTMEM, perm := PTE_W },
   { virt := KERNLINK, physStart := KERNLINK - KERNBASE, physEnd := L.data - KERNBASE, perm := 0 },
   { virt := L.data, physStart := L.data - KERNBASE, physEnd := PHYSTOP, perm := PTE_W },
   { virt := DEVSPACE, physStart := DEVSPACE, physEnd := 0, perm := PTE_W }]

def mapKernel (pgdir : Nat) : List Kmap → Mem → Except Halt (Bool × Mem)
  | [], m => .ok (true, m)
  | k :: ks, m => do
    let (ok, m) ← mappages m pgdir k.virt ((k.physEnd + 2 ^ 32 - k.physStart) % 2 ^ 32) k.physStart k.perm
    if ok then mapKernel pgdir ks m else .ok (false, m)

/-- Set up the kernel part of a page table. What was allocated before a failure is not
given back. -/
def setupkvm (L : Layout) (m : Mem) : Except Halt (Option Nat × Mem) :=
  match kalloc m with
  | (none, m) => .ok (none, m)
  | (some pgdir, m) => do
    let (ok, m) ← mapKernel pgdir (kmap L) (m.zero pgdir)
    .ok (if ok then some pgdir else none, m)

/-- The loop of `deallocuvm` at address `a`. -/
def deallocLoop (L : Layout) (pgdir oldsz : Nat) : Nat → Nat → Mem → Except Halt Mem
  | 0, _, m => .ok m
  | fuel + 1, a, m =>
    if a < oldsz then
      match walkpgdir m pgdir a false with
      | (none, m) => deallocLoop L pgdir oldsz fuel (a + (NPTENTRIES - 1) * PGSIZE + PGSIZE) m
      | (some (t, i), m) =>
        if present (m.entry t i) then
          if frameOf (m.entry t i) = 0 then .error ⟨.kfree, m⟩
          else do
            let m ← kfree L m (frameOf (m.entry t i))
            deallocLoop L pgdir oldsz fuel (a + PGSIZE) (m.setEntry t i 0)
        else deallocLoop L pgdir oldsz fuel (a + PGSIZE) m
    else .ok m

/-- Each iteration moves `a` by at least a page, so `oldsz / PGSIZE + 1` of them reach
`oldsz`. -/
def deallocuvm (L : Layout) (m : Mem) (pgdir oldsz newsz : Nat) : Except Halt (Nat × Mem) :=
  if newsz ≥ oldsz then .ok (oldsz, m)
  else do
    let m ← deallocLoop L pgdir oldsz (oldsz / PGSIZE + 1) (pgroundup newsz) m
    .ok (newsz, m)

/-- The loop of `allocuvm` with `n` pages to go from address `a`. The return value of
`mappages` is not looked at. -/
def allocLoop (L : Layout) (pgdir oldsz newsz : Nat) : Nat → Nat → Mem → Except Halt (Nat × Mem)
  | 0, _, m => .ok (newsz, m)
  | n + 1, a, m =>
    match kalloc m with
    | (none, m) => do
      let (_, m) ← deallocuvm L m pgdir newsz oldsz
      .ok (0, m)
    | (some f, m) => do
      let (_, m) ← mappages (m.zero f) pgdir a PGSIZE (f * PGSIZE) (PTE_W ||| PTE_U)
      allocLoop L pgdir oldsz newsz n (a + PGSIZE) m

/-- Grow a process from `oldsz` to `newsz`; returns the new size or 0. -/
def allocuvm (L : Layout) (m : Mem) (pgdir oldsz newsz : Nat) : Except Halt (Nat × Mem) :=
  if newsz ≥ KERNBASE then .ok (0, m)
  else if newsz < oldsz then .ok (oldsz, m)
  else allocLoop L pgdir oldsz newsz ((newsz - pgroundup oldsz + (PGSIZE - 1)) / PGSIZE) (pgroundup oldsz) m

/-- Grow a process of size `sz` by `n` bytes (`growproc`, `proc.c`): does it return 0, and the
size it leaves in `proc->sz`. -/
def growproc (L : Layout) (m : Mem) (pgdir sz : Nat) (n : Int) : Except Halt (Bool × Nat × Mem) :=
  let newsz := ((sz + n) % 2 ^ 32).toNat
  if n > 0 then do
    let (r, m) ← allocuvm L m pgdir sz newsz
    .ok (if r = 0 then (false, sz, m) else (true, r, m))
  else if n < 0 then do
    let (r, m) ← deallocuvm L m pgdir sz newsz
    .ok (if r = 0 then (false, sz, m) else (true, r, m))
  else .ok (true, sz, m)

/-- The loop of `freevm` over the page directory, with `n` entries to go. -/
def freeTables (L : Layout) (pgdir : Nat) : Nat → Mem → Except Halt Mem
  | 0, m => .ok m
  | n + 1, m =>
    let pde := m.entry pgdir (NPTENTRIES - (n + 1))
    if present pde then do
      let m ← kfree L m (frameOf pde)
      freeTables L pgdir n m
    else freeTables L pgdir n m

def freevm (L : Layout) (m : Mem) : Option Nat → Except Halt Mem
  | none => .error ⟨.freevm, m⟩
  | some pgdir => do
    let (_, m) ← deallocuvm L m pgdir KERNBASE 0
    let m ← freeTables L pgdir NPTENTRIES m
    kfree L m pgdir

/-- `bad` in `copyuvm`. -/
def copyBad (L : Layout) (d : Nat) (m : Mem) : Except Halt (Option Nat × Mem) := do
  let m ← freevm L m (some d)
  .ok (none, m)

/-- The loop of `copyuvm` with `n` pages to go from address `i`. -/
def copyLoop (L : Layout) (pgdir d : Nat) : Nat → Nat → Mem → Except Halt (Option Nat × Mem)
  | 0, _, m => .ok (some d, m)
  | n + 1, i, m =>
    match walkpgdir m pgdir i false with
    | (none, m) => .error ⟨.copyExist, m⟩
    | (some (t, j), m) =>
      let e := m.entry t j
      if present e then
        match kalloc m with
        | (none, m) => copyBad L d m
        | (some f, m) => do
          let (ok, m) ← mappages (m.setPage f (m.page (frameOf e))) d i PGSIZE (f * PGSIZE) (e % PGSIZE)
          if ok then copyLoop L pgdir d n (i + PGSIZE) m else copyBad L d m
      else .error ⟨.copyPresent, m⟩

/-- A copy of the page table `pgdir` of a process of size `sz`. -/
def copyuvm (L : Layout) (m : Mem) (pgdir sz : Nat) : Except Halt (Option Nat × Mem) := do
  match ← setupkvm L m with
  | (none, m) => .ok (none, m)
  | (some d, m) => copyLoop L pgdir d ((sz + (PGSIZE - 1)) / PGSIZE) 0 m

end Xv6.Vm
