import CStructures.Model.Hashmap

/-!
# The hashmap on the heap

The functions of `hashmap.c` once more, with the storage behind a pointer. The header of a map,
the header `new_hm` that a rehash copies from it and those of nested rehashes refer to blocks of
one heap, where each of them could reach the storage of the others.
-/

namespace CStructures
open Lib

/-- What lies in a live block. -/
structure HeapBlock where
  size : Nat
  bytes : Bytes

/-- The live blocks, by address. -/
abbrev Heap := UInt64 → Option HeapBlock

namespace Heap

def put (heap : Heap) (b : Block) : Heap := Function.update heap b.addr (some ⟨b.size, b.bytes⟩)

def drop (heap : Heap) (addr : UInt64) : Heap := Function.update heap addr none

end Heap

/-- `MALLOC` and `FREE` with the heap that they change. A block is not granted while it is live. -/
def heapAllocator {σ : Type} (A : Allocator σ) : Allocator (σ × Heap) where
  malloc n := fun c => (A.malloc n c.1).bind fun r =>
    match r.1 with
    | none => some (none, r.2, c.2)
    | some b => if (c.2 b.addr).isSome then none else some (some b, r.2, c.2.put b)
  free addr := fun c => (A.free addr c.1).map fun r => ((), r.2, c.2.drop addr)

/-- `struct cs_hashmap` -/
structure HashmapHeader where
  tableCount : UInt32
  keySize : UInt32
  valueSize : UInt32
  slotsUsed : UInt32
  hash : Hash32Func
  storage : UInt64

/-- The map of a header, if the storage is live. -/
def HashmapHeader.read (h : HashmapHeader) (heap : Heap) : Option Hashmap :=
  (heap h.storage).map fun b =>
    ⟨h.tableCount, h.keySize, h.valueSize, h.slotsUsed, h.hash, ⟨h.storage, b.size, b.bytes⟩⟩

def Hashmap.header (hm : Hashmap) : HashmapHeader :=
  ⟨hm.tableCount, hm.keySize, hm.valueSize, hm.slotsUsed, hm.hash, hm.storage.addr⟩

namespace OnHeap

section Insert

variable {σ : Type} (A : Allocator σ)

def readMap (h : HashmapHeader) : StateT (σ × Heap) Option Hashmap :=
  fun c => (h.read c.2).map fun hm => (hm, c)

def writeMap (hm : Hashmap) : StateT (σ × Heap) Option HashmapHeader :=
  fun c => some (hm.header, c.1, c.2.put hm.storage)

def mallocAndInitStorage (keySize valueSize tableCount : UInt32) :
    StateT (σ × Heap) Option (Option UInt64) := do
  match ← CStructures.mallocAndInitStorage (heapAllocator A) keySize valueSize tableCount with
  | none => return none
  | some storage =>
    modify fun c => (c.1, c.2.put storage)
    return some storage.addr

/-- `hashmap_insert` after the load check. -/
def insertProbed (fuel : Nat) (h : HashmapHeader) (key : List Byte) (value : Option (List Byte)) :
    StateT (σ × Heap) Option (HashmapStatus × HashmapHeader) := do
  let hm ← readMap h
  let (status, hm) ← StateT.lift (CStructures.insertProbed fuel hm key value)
  let h ← writeMap hm
  return (status, h)

/-- The loop of `resize_rehash` over the remaining slots of the old table, from slot `i`. -/
def rehashFrom
    (insert : HashmapHeader → List Byte → Option (List Byte) → StateT (σ × Heap) Option (HashmapStatus × HashmapHeader))
    (h : HashmapHeader) : Nat → UInt32 → HashmapHeader → StateT (σ × Heap) Option (Option HashmapHeader)
  | 0, _, newHm => return some newHm
  | remaining + 1, i, newHm => do
    let hm ← readMap h
    if hm.slot i = hmSlotUnused ∨ hm.slot i = hmSlotRip then rehashFrom insert h remaining (i + 1) newHm
    else
      let (status, newHm) ← insert newHm (hm.key i) (some (hm.value i))
      if status ≠ .hmOk then
        (heapAllocator A).free newHm.storage
        return none
      else
        rehashFrom insert h remaining (i + 1) newHm

/-- `none` is the return value -1. -/
def resizeRehash
    (insert : HashmapHeader → List Byte → Option (List Byte) → StateT (σ × Heap) Option (HashmapStatus × HashmapHeader))
    (h : HashmapHeader) (newTableCount : UInt32) : StateT (σ × Heap) Option (Option HashmapHeader) := do
  match ← mallocAndInitStorage A h.keySize h.valueSize newTableCount with
  | none => return none
  | some storage =>
    let newHm := { h with tableCount := newTableCount, slotsUsed := 0, storage := storage }
    match ← rehashFrom A insert h h.tableCount.toNat 0 newHm with
    | none => return none
    | some newHm =>
      (heapAllocator A).free h.storage
      return some { h with storage := newHm.storage, tableCount := newTableCount }

def hashmapInsert : Nat → HashmapHeader → List Byte → Option (List Byte) →
    StateT (σ × Heap) Option (HashmapStatus × HashmapHeader)
  | 0, _, _, _ => fun _ => none
  | fuel + 1, h, key, value => do
    if h.slotsUsed * 100 / h.tableCount ≥ hmRehashAtPercent then
      match ← resizeRehash A (hashmapInsert fuel) h (h.tableCount * hmExpandFactor) with
      | none => return (.hmOom, h)
      | some h => insertProbed fuel h key value
    else
      insertProbed fuel h key value

end Insert

def hashmapInitWithOptions {σ : Type} (A : Allocator σ) (keySize valueSize tableCount : UInt32)
    (hash : Hash32Func) : StateT (σ × Heap) Option (Option HashmapHeader) := do
  match ← mallocAndInitStorage A keySize valueSize tableCount with
  | none => return none
  | some storage => return some ⟨tableCount, keySize, valueSize, 0, hash, storage⟩

end OnHeap

end CStructures
