import CStructures.Lib.Loop
import CStructures.Lib.Run
import CStructures.Model.Allocator
import CStructures.Model.Hash

/-!
# The hashmap

`hashmap.c` at the level of its storage block: the slot words and keys of all entries come
first, interleaved, and the values follow. Addresses are offsets into the block, in the
widths in which the macros `SLOT`, `KEY` and `VALUE` compute them. The probe loops are
unbounded and the insertion calls itself through the rehash, so the operations take fuel;
`none` is a call that has not returned yet.
-/

namespace CStructures
open Lib

def hmSlotUnused : UInt32 := 0
def hmSlotRip : UInt32 := 1
def hmSlotInvalid : UInt32 := 0xFFFFFFFF
def hmRehashAtPercent : UInt32 := 70
def hmDefaultTableCount : UInt32 := 128
def hmExpandFactor : UInt32 := 3

inductive HashmapStatus
  | hmExists
  | hmOk
  | hmOom
  deriving DecidableEq, Repr

structure Hashmap where
  tableCount : UInt32
  keySize : UInt32
  valueSize : UInt32
  slotsUsed : UInt32
  hash : Hash32Func
  storage : Block

namespace Hashmap

/-- `SLOT(hm, pos)` -/
def slotOffset (hm : Hashmap) (pos : UInt32) : UInt64 :=
  (4 + hm.keySize.toUInt64) * pos.toUInt64

/-- `KEY(hm, pos)` -/
def keyOffset (hm : Hashmap) (pos : UInt32) : UInt64 :=
  (4 + hm.keySize.toUInt64) * pos.toUInt64 + 4

/-- `VALUE(hm, pos)`. The product with the position is a 32-bit one. -/
def valueOffset (hm : Hashmap) (pos : UInt32) : UInt64 :=
  (4 + hm.keySize.toUInt64) * hm.tableCount.toUInt64 + (hm.valueSize * pos).toUInt64

def slot (hm : Hashmap) (pos : UInt32) : UInt32 :=
  load32 hm.storage.bytes (hm.slotOffset pos).toNat

def key (hm : Hashmap) (pos : UInt32) : List Byte :=
  slice hm.storage.bytes (hm.keyOffset pos).toNat hm.keySize.toNat

/-- The value bytes at an address returned by `hashmap_find` or `hashmap_erase`. -/
def deref (hm : Hashmap) (off : UInt64) : List Byte :=
  slice hm.storage.bytes off.toNat hm.valueSize.toNat

def value (hm : Hashmap) (pos : UInt32) : List Byte := hm.deref (hm.valueOffset pos)

def setBytes (hm : Hashmap) (bytes : Bytes) : Hashmap :=
  { hm with storage := { hm.storage with bytes := bytes } }

def setSlot (hm : Hashmap) (pos w : UInt32) : Hashmap :=
  hm.setBytes (store32 hm.storage.bytes (hm.slotOffset pos).toNat w)

def setKey (hm : Hashmap) (pos : UInt32) (key : List Byte) : Hashmap :=
  hm.setBytes (memcpy hm.storage.bytes (hm.keyOffset pos).toNat key)

def setValue (hm : Hashmap) (pos : UInt32) (value : List Byte) : Hashmap :=
  hm.setBytes (memcpy hm.storage.bytes (hm.valueOffset pos).toNat value)

end Hashmap

/-- Reserved hash values are replaced by 2. -/
def hashWrapper (hm : Hashmap) (data : List Byte) : UInt32 :=
  let hash := hm.hash data
  if hash = hmSlotUnused ∨ hash = hmSlotRip ∨ hash = hmSlotInvalid then 2 else hash

/-- The loop variables of the three probe loops. -/
structure Probe where
  pos : UInt32
  i : UInt32
  deriving DecidableEq

/-- `i++; pos += i; pos = pos % hm->table_count` -/
def Probe.next (tableCount : UInt32) (s : Probe) : Probe :=
  ⟨(s.pos + (s.i + 1)) % tableCount, s.i + 1⟩

def Probe.start (tableCount hash : UInt32) : Probe := ⟨hash % tableCount, 0⟩

section Storage

variable {σ : Type} (A : Allocator σ)

def mallocAndInitStorage (keySize valueSize tableCount : UInt32) : StateT σ Option (Option Block) := do
  match ← A.malloc ((4 + keySize.toUInt64 + valueSize.toUInt64) * tableCount.toUInt64) with
  | none => return none
  | some storage =>
    let zeroed := ((4 + keySize.toUInt64) * tableCount.toUInt64).toNat
    return some { storage with bytes := memset storage.bytes 0 0 zeroed }

def hashmapInitWithOptions (keySize valueSize tableCount : UInt32) (hash : Hash32Func) :
    StateT σ Option (Option Hashmap) := do
  match ← mallocAndInitStorage A keySize valueSize tableCount with
  | none => return none
  | some storage => return some ⟨tableCount, keySize, valueSize, 0, hash, storage⟩

def hashmapInit (keySize valueSize : UInt32) : StateT σ Option (Option Hashmap) :=
  hashmapInitWithOptions A keySize valueSize hmDefaultTableCount hash32JenkinsOaat

/-- The header is a block of its own, of 32 bytes. -/
def hashmapCreateWithOptions (keySize valueSize tableCount : UInt32) (hash : Hash32Func) :
    StateT σ Option (Option Hashmap) := do
  match ← A.malloc 32 with
  | none => return none
  | some _ => hashmapInitWithOptions A keySize valueSize tableCount hash

def hashmapCreate (keySize valueSize : UInt32) : StateT σ Option (Option Hashmap) :=
  hashmapCreateWithOptions A keySize valueSize hmDefaultTableCount hash32JenkinsOaat

def hashmapDeinit (hm : Hashmap) : StateT σ Option Unit :=
  A.free hm.storage.addr

end Storage

/-! ### Insertion -/

/-- The test at the head of the insertion loop and the test for an existing key. The state
carries `last_tombstone`; the loop is left with the position to store at, or with `none`
when the key exists. -/
def insertExit (hm : Hashmap) (hash : UInt32) (key : List Byte) (s : Probe × UInt32) :
    Option (Option UInt32) :=
  if hm.slot s.1.pos = hmSlotUnused then
    some (some (if s.2 ≠ hmSlotInvalid then s.2 else s.1.pos))
  else if hm.slot s.1.pos = hash ∧ hm.key s.1.pos = key then some none
  else none

def insertNext (hm : Hashmap) (hash : UInt32) (s : Probe × UInt32) : Probe × UInt32 :=
  (s.1.next hm.tableCount,
    if hm.slot s.1.pos ≠ hash ∧ hm.slot s.1.pos = hmSlotRip then s.1.pos else s.2)

/-- Store hash, key and value, and count the entry. A NULL value leaves the value bytes. -/
def storeEntry (hm : Hashmap) (pos hash : UInt32) (key : List Byte) (value : Option (List Byte)) :
    Hashmap :=
  let hm := (hm.setSlot pos hash).setKey pos key
  let hm := match value with
    | some value => hm.setValue pos value
    | none => hm
  { hm with slotsUsed := hm.slotsUsed + 1 }

/-- `hashmap_insert` after the load check. -/
def insertProbed (fuel : Nat) (hm : Hashmap) (key : List Byte) (value : Option (List Byte)) :
    Option (HashmapStatus × Hashmap) :=
  let hash := hashWrapper hm key
  match loop (insertExit hm hash key) (insertNext hm hash) fuel
      (Probe.start hm.tableCount hash, hmSlotInvalid) with
  | none => none
  | some none => some (.hmExists, hm)
  | some (some pos) => some (.hmOk, storeEntry hm pos hash key value)

section Insert

variable {σ : Type} (A : Allocator σ)

/-- The loop of `resize_rehash` over the remaining slots of the old table, from slot `i`. -/
def rehashFrom (insert : Hashmap → List Byte → Option (List Byte) → StateT σ Option (HashmapStatus × Hashmap))
    (hm : Hashmap) : Nat → UInt32 → Hashmap → StateT σ Option (Option Hashmap)
  | 0, _, newHm => return some newHm
  | remaining + 1, i, newHm => do
    if hm.slot i = hmSlotUnused ∨ hm.slot i = hmSlotRip then
      rehashFrom insert hm remaining (i + 1) newHm
    else
      let (status, newHm) ← insert newHm (hm.key i) (some (hm.value i))
      if status ≠ .hmOk then
        A.free newHm.storage.addr
        return none
      else
        rehashFrom insert hm remaining (i + 1) newHm

/-- `none` is the return value -1, with which nothing has changed. -/
def resizeRehash (insert : Hashmap → List Byte → Option (List Byte) → StateT σ Option (HashmapStatus × Hashmap))
    (hm : Hashmap) (newTableCount : UInt32) : StateT σ Option (Option Hashmap) := do
  match ← mallocAndInitStorage A hm.keySize hm.valueSize newTableCount with
  | none => return none
  | some storage =>
    let newHm := { hm with tableCount := newTableCount, slotsUsed := 0, storage := storage }
    match ← rehashFrom A insert hm hm.tableCount.toNat 0 newHm with
    | none => return none
    | some newHm =>
      A.free hm.storage.addr
      return some { hm with storage := newHm.storage, tableCount := newTableCount }

/-- The test that decides whether an insertion expands the table first. -/
def loadCheck (hm : Hashmap) : Bool := hm.slotsUsed * 100 / hm.tableCount ≥ hmRehashAtPercent

def hashmapInsert : Nat → Hashmap → List Byte → Option (List Byte) →
    StateT σ Option (HashmapStatus × Hashmap)
  | 0, _, _, _ => fun _ => none
  | fuel + 1, hm, key, value => do
    if loadCheck hm then
      match ← resizeRehash A (hashmapInsert fuel) hm (hm.tableCount * hmExpandFactor) with
      | none => return (.hmOom, hm)
      | some hm => StateT.lift (insertProbed fuel hm key value)
    else
      StateT.lift (insertProbed fuel hm key value)

end Insert

/-! ### Search and erasure -/

/-- The loop that `hashmap_erase` and `hashmap_find` share: it is left with the position of
the key, or with `none` at an unused slot. -/
def lookupExit (hm : Hashmap) (hash : UInt32) (key : List Byte) (s : Probe) : Option (Option UInt32) :=
  if hm.slot s.pos = hash then
    if hm.key s.pos = key then some (some s.pos) else none
  else if hm.slot s.pos = hmSlotUnused then some none
  else none

def lookup (fuel : Nat) (hm : Hashmap) (key : List Byte) : Option (Option UInt32) :=
  let hash := hashWrapper hm key
  loop (lookupExit hm hash key) (Probe.next hm.tableCount) fuel (Probe.start hm.tableCount hash)

/-- The address of the erased value, and the map. -/
def hashmapErase (fuel : Nat) (hm : Hashmap) (key : List Byte) : Option (Option UInt64 × Hashmap) :=
  match lookup fuel hm key with
  | none => none
  | some none => some (none, hm)
  | some (some pos) =>
    let hm := { hm with slotsUsed := hm.slotsUsed - 1 }
    let hm := hm.setSlot pos hmSlotRip
    some (some (hm.valueOffset pos), hm)

def hashmapFind (fuel : Nat) (hm : Hashmap) (key : List Byte) : Option (Option UInt64) :=
  match lookup fuel hm key with
  | none => none
  | some none => some none
  | some (some pos) => some (some (hm.valueOffset pos))

/-- `hashmap_count` -/
def hashmapCount (hm : Hashmap) : UInt32 := hm.slotsUsed

/-! ### Iteration

`HASHMAP_FOR_EACH` computes the addresses of the slot, the key and the value by itself. -/

namespace Hashmap

def forEachSlotOffset (hm : Hashmap) (pos : UInt32) : UInt64 :=
  (4 + hm.keySize.toUInt64) * pos.toUInt64

def forEachKeyOffset (hm : Hashmap) (pos : UInt32) : UInt64 :=
  (4 + hm.keySize.toUInt64) * pos.toUInt64 + 4

def forEachValueOffset (hm : Hashmap) (pos : UInt32) : UInt64 :=
  (4 + hm.keySize.toUInt64) * hm.tableCount.toUInt64 + (hm.valueSize * pos).toUInt64

end Hashmap

/-- The pointers `key` and `value` that the body of the loop is given. -/
structure Visit where
  key : UInt64
  value : UInt64
  deriving DecidableEq

/-- The loop over the remaining positions, from `pos`. -/
def forEachFrom (hm : Hashmap) : Nat → UInt32 → List Visit
  | 0, _ => []
  | remaining + 1, pos =>
    let slot := load32 hm.storage.bytes (hm.forEachSlotOffset pos).toNat
    if slot = hmSlotUnused ∨ slot = hmSlotRip ∨ slot = hmSlotInvalid then
      forEachFrom hm remaining (pos + 1)
    else ⟨hm.forEachKeyOffset pos, hm.forEachValueOffset pos⟩ :: forEachFrom hm remaining (pos + 1)

/-- What `HASHMAP_FOR_EACH` runs its body on, in order. -/
def hashmapForEach (hm : Hashmap) : List Visit := forEachFrom hm hm.tableCount.toNat 0

/-! ### Loops that change the map

The body of a `HASHMAP_FOR_EACH` may erase entries and write to their values. The macro reads
the fields of the map and the slot anew for each position. -/

/-- What the body does to the map: `hashmap_erase`, a write to the value that `hashmap_find`
returns, or a write to the `value` of the loop. -/
inductive LoopEdit
  | erase (key : List Byte)
  | write (key value : List Byte)
  | assign (value : List Byte)
  deriving DecidableEq

/-- Write to the value at an address returned by `hashmap_find`, or at the `value` of the loop. -/
def Hashmap.storeAt (hm : Hashmap) (off : UInt64) (value : List Byte) : Hashmap :=
  hm.setBytes (memcpy hm.storage.bytes off.toNat value)

def loopEdit (fuel : Nat) (visit : Visit) (hm : Hashmap) : LoopEdit → Option Hashmap
  | .erase key => (hashmapErase fuel hm key).map Prod.snd
  | .write key value => (hashmapFind fuel hm key).map fun r =>
      match r with
      | none => hm
      | some off => hm.storeAt off value
  | .assign value => some (hm.storeAt visit.value value)

section Loops

variable {α : Type}

/-- A body with a state of its own: what it does is computed from the key and the value. -/
abbrev LoopBody (α : Type) := α → List Byte → List Byte → α × List LoopEdit

/-- The loop from `pos`, for at most `passes` tests. -/
def forEachChangingFrom (fuel : Nat) (body : LoopBody α) : Nat → UInt32 → α × Hashmap → Option (α × Hashmap)
  | 0, _, _ => none
  | passes + 1, pos, (a, hm) =>
    if pos = hm.tableCount then some (a, hm)
    else
      let slot := load32 hm.storage.bytes (hm.forEachSlotOffset pos).toNat
      if slot = hmSlotUnused ∨ slot = hmSlotRip ∨ slot = hmSlotInvalid then
        forEachChangingFrom fuel body passes (pos + 1) (a, hm)
      else do
        let visit : Visit := ⟨hm.forEachKeyOffset pos, hm.forEachValueOffset pos⟩
        let (a, edits) := body a (slice hm.storage.bytes visit.key.toNat hm.keySize.toNat)
          (hm.deref visit.value)
        let hm ← edits.foldlM (loopEdit fuel visit) hm
        forEachChangingFrom fuel body passes (pos + 1) (a, hm)

/-- `HASHMAP_FOR_EACH` with a body that changes the map. -/
def hashmapForEachChanging (fuel : Nat) (body : LoopBody α) (c : α × Hashmap) : Option (α × Hashmap) :=
  forEachChangingFrom fuel body fuel 0 c

end Loops

end CStructures
