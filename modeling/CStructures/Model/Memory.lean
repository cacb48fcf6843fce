import CStructures.Lib.LiveBlocks
import CStructures.Lib.State
import CStructures.Model.Hashmap

/-!
# The allocation tracker

`memory.c` in the build with `CSTRUCTURES_MEMORY_DEBUGGING` and without
`CSTRUCTURES_MEMORY_BACKTRACE`. The report is a hashmap whose `MALLOC` and `FREE` are the
tracking functions themselves, so the functions take fuel, and `g_ignore_hm_malloc` tells
their calls from those of the clients. The warnings and the report on stderr are left out.
-/

namespace CStructures
open Lib

/-- `malloc`, `realloc` and `free` of the C library. A call that does not return is `none`;
what `realloc` copies is not looked at, so its answer is an address. -/
structure System (σ : Type) where
  malloc : UInt64 → StateT σ Option AllocAnswer
  realloc : UInt64 → UInt64 → StateT σ Option UInt64
  free : UInt64 → StateT σ Option Unit

/-- `report_info_t` -/
structure ReportInfo where
  location : UInt64
  size : UInt64
  deriving DecidableEq

def ReportInfo.bytes (info : ReportInfo) : List Byte :=
  leBytes 8 info.location.toNat ++ leBytes 8 info.size.toNat

def reportInfo (bytes : List Byte) : ReportInfo :=
  ⟨UInt64.ofNat (ofLe (bytes.take 8)), UInt64.ofNat (ofLe (bytes.drop 8))⟩

/-- The key of an address in the report. -/
def pointerBytes (p : UInt64) : List Byte := leBytes 8 p.toNat

/-- The variables of the tracker over the state of the C library. -/
structure Memory (σ : Type) where
  gAllocations : UInt64
  dDeallocations : UInt64
  gIgnoreHmMalloc : Bool
  gBytesInUse : UInt64
  gBytesInUsePeak : UInt64
  gReport : Hashmap
  system : σ

namespace Memory

variable {σ : Type}

def countAllocation (c : Memory σ) : Memory σ := { c with gAllocations := c.gAllocations + 1 }

def countDeallocation (c : Memory σ) : Memory σ := { c with dDeallocations := c.dDeallocations + 1 }

def addBytes (c : Memory σ) (size : UInt64) : Memory σ :=
  let bytes := c.gBytesInUse + size
  { c with
    gBytesInUse := bytes
    gBytesInUsePeak := if c.gBytesInUsePeak < bytes then bytes else c.gBytesInUsePeak }

def subBytes (c : Memory σ) (size : UInt64) : Memory σ := { c with gBytesInUse := c.gBytesInUse - size }

def setIgnore (c : Memory σ) (b : Bool) : Memory σ := { c with gIgnoreHmMalloc := b }

def setReport (c : Memory σ) (report : Hashmap) : Memory σ := { c with gReport := report }

def setSystem (c : Memory σ) (s : σ) : Memory σ := { c with system := s }

end Memory

section Calls

variable {σ : Type} {α : Type} (S : System σ)

/-- A call of the C library. -/
def onSystem (call : StateT σ Option α) : StateT (Memory σ) Option α := fun c =>
  (call c.system).map fun r => (r.1, c.setSystem r.2)

/-- `if (!g_ignore_hm_malloc)` -/
def unlessIgnored (body : StateT (Memory σ) Option Unit) : StateT (Memory σ) Option Unit := do
  if (← get).gIgnoreHmMalloc then pure () else body

/-- "Record allocation info", as in `cstructures_malloc` and in `cstructures_realloc`. -/
def recordAllocation (A : Allocator (Memory σ)) (fuel : Nat) (p size : UInt64) :
    StateT (Memory σ) Option Unit := do
  modify fun c => (c.addBytes size).setIgnore true
  let c ← get
  let r ← hashmapInsert A fuel c.gReport (pointerBytes p) (some (ReportInfo.bytes ⟨p, size⟩))
  modify fun c => (c.setReport r.2).setIgnore false

/-- The erasure from the report in `cstructures_realloc` and in `cstructures_free`. -/
def forgetAllocation (fuel : Nat) (p : UInt64) : StateT (Memory σ) Option Unit := do
  let c ← get
  let r ← StateT.lift (hashmapErase fuel c.gReport (pointerBytes p))
  match r.1 with
  | some info => set ((c.setReport r.2).subBytes (reportInfo (r.2.deref info)).size)
  | none => set (c.setReport r.2)

def cstructuresFree (fuel : Nat) (p : UInt64) : StateT (Memory σ) Option Unit := do
  unlessIgnored (forgetAllocation fuel p)
  if p = 0 then pure ()
  else do
    modify Memory.countDeallocation
    onSystem (S.free p)

def cstructuresMalloc : Nat → UInt64 → StateT (Memory σ) Option (Option Block)
  | 0, _ => fun _ => none
  | fuel + 1, size => do
    match ← onSystem (S.malloc size) with
    | none => return none
    | some p =>
      modify Memory.countAllocation
      unlessIgnored
        (recordAllocation ⟨cstructuresMalloc fuel, cstructuresFree S fuel⟩ fuel p.addr size)
      return some (mallocBlock size.toNat p)

/-- What `MALLOC` and `FREE` are in the library itself. -/
def trackedAllocator (fuel : Nat) : Allocator (Memory σ) :=
  ⟨cstructuresMalloc S fuel, cstructuresFree S fuel⟩

/-- The first half of `cstructures_realloc`: a NULL pointer is counted, any other is erased. -/
def releaseOld (fuel : Nat) (oldP : UInt64) : StateT (Memory σ) Option Unit :=
  if oldP = 0 then modify Memory.countAllocation else forgetAllocation fuel oldP

def cstructuresRealloc (fuel : Nat) (p newSize : UInt64) : StateT (Memory σ) Option UInt64 := do
  let oldP := p
  let p ← onSystem (S.realloc p newSize)
  releaseOld fuel oldP
  unlessIgnored (recordAllocation (trackedAllocator S fuel) fuel p newSize)
  return p

/-- Space for 4096 entries, keyed by addresses. -/
def memoryInit (fuel : Nat) : StateT (Memory σ) Option Int := do
  modify fun c => { c with
    gAllocations := 0
    dDeallocations := 0
    gBytesInUse := 0
    gBytesInUsePeak := 0
    gIgnoreHmMalloc := true }
  match ← hashmapInitWithOptions (trackedAllocator S fuel) 8 16 4096 hash32Ptr with
  | none => return -1
  | some report =>
    modify fun c => (c.setReport report).setIgnore false
    return 0

/-- The leaks. The allocation that the report itself still holds is not counted. -/
def memoryDeinit (fuel : Nat) : StateT (Memory σ) Option UInt64 := do
  let c ← get
  let allocations := c.gAllocations - 1
  let leaks :=
    if allocations > c.dDeallocations then allocations - c.dDeallocations
    else c.dDeallocations - allocations
  set ({ c with gAllocations := allocations + 1 }.setIgnore true)
  hashmapDeinit (trackedAllocator S fuel) c.gReport
  modify fun c => c.setIgnore false
  return leaks

def memoryGetNumAllocs (c : Memory σ) : UInt64 := (hashmapCount c.gReport).toUInt64

def memoryGetMemoryUsage (c : Memory σ) : UInt64 := c.gBytesInUse

end Calls

/-- The calls of a client. -/
inductive MemoryCall
  | malloc (size : UInt64)
  | realloc (p newSize : UInt64)
  | free (p : UInt64)
  deriving DecidableEq, Repr

/-- Make one call. The answer is an address; `cstructures_free` has none and answers 0. -/
def memoryCall {σ : Type} (S : System σ) (fuel : Nat) (c : Memory σ) :
    MemoryCall → Option (UInt64 × Memory σ)
  | .malloc size => (cstructuresMalloc S fuel size c).map fun r => ((r.1.map Block.addr).getD 0, r.2)
  | .realloc p newSize => cstructuresRealloc S fuel p newSize c
  | .free p => (cstructuresFree S fuel p c).map fun r => (0, r.2)

end CStructures
