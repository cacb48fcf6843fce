import CStructures.Lib.Logged
import CStructures.Model.Allocator

/-!
# The btree

`btree.c` at the level of its buffer: the keys of all entries come first, and the values
follow after `capacity` keys. Pointers into the buffer are offsets, in exact integers where
the C code adds to a 64-bit pointer, and the 32-bit products of `BTREE_VALUE` and of the
byte counts are taken modulo 2^32. Every read, write and `memmove` is logged.

Keys and sizes have their default width of 32 bits. An operation that may allocate takes
the answer of the allocator.
-/

namespace CStructures
open Lib

def btreeExpandFactor : UInt32 := 2
def btreeMinCapacity : UInt32 := 32
def btreeInvalidKey : UInt32 := 0xFFFFFFFF

inductive BtreeStatus
  | notFound
  | exists
  | ok
  | oom
  deriving DecidableEq, Repr

inductive Area
  | keys
  | values
  deriving DecidableEq, Repr

/-- An access to the buffer. A `memmove` is kept with the number of entries it is for. -/
inductive Access
  | read (off len : Nat)
  | write (off len : Nat)
  | move (area : Area) (entries dst src len : Nat)
  deriving DecidableEq, Repr

structure Btree where
  data : Option Block
  count : UInt32
  capacity : UInt32
  valueSize : UInt32

namespace Btree

/-- The memory at `data`; a NULL pointer is never read. -/
def bytes (b : Btree) : Bytes :=
  match b.data with
  | some data => data.bytes
  | none => fun _ => 0

def setBytes (b : Btree) (bytes : Bytes) : Btree :=
  { b with data := b.data.map fun data => { data with bytes := bytes } }

/-- `BTREE_KEY(btree, i)` -/
def keyOffset (i : Nat) : Nat := 4 * i

/-- `BTREE_VALUE_CAP(btree, i, cap)`. The product is a 32-bit one. -/
def valueOffsetCap (b : Btree) (i cap : UInt32) : Nat := 4 * cap.toNat + (b.valueSize * i).toNat

/-- `BTREE_VALUE(btree, i)` -/
def valueOffset (b : Btree) (i : UInt32) : Nat := b.valueOffsetCap i b.capacity

/-- The size requested for a buffer, `cap * BTREE_KV_SIZE(btree)`. -/
def bufferSize (b : Btree) (cap : UInt32) : Nat :=
  (cap.toUInt64 * (4 + b.valueSize.toUInt64)).toNat

/-- The value bytes at a pointer that a function has returned. -/
def deref (b : Btree) (off : Nat) : List Byte := slice b.bytes off b.valueSize.toNat

def readKey (b : Btree) (i : Nat) : Logged Access UInt32 := do
  .tell (.read (keyOffset i) 4)
  return load32 b.bytes (keyOffset i)

def readValue (b : Btree) (off : Nat) : Logged Access (List Byte) := do
  .tell (.read off b.valueSize.toNat)
  return b.deref off

def writeKey (b : Btree) (i : UInt32) (key : UInt32) : Logged Access Btree := do
  .tell (.write (keyOffset i.toNat) 4)
  return b.setBytes (store32 b.bytes (keyOffset i.toNat) key)

def writeValue (b : Btree) (off : Nat) (value : List Byte) : Logged Access Btree := do
  .tell (.write off b.valueSize.toNat)
  return b.setBytes (memcpy b.bytes off value)

/-- `memmove(BTREE_KEY(dst), BTREE_KEY(src), entries * sizeof(cs_btree_key))` -/
def moveKeys (b : Btree) (dst src : Nat) (entries : UInt32) : Logged Access Btree := do
  let len := entries.toNat * 4
  .tell (.move .keys entries.toNat (keyOffset dst) (keyOffset src) len)
  return b.setBytes (memmove b.bytes (keyOffset dst) (keyOffset src) len)

/-- `memmove(dst, src, entries * btree->value_size)` -/
def moveValues (b : Btree) (dst src : Nat) (entries : UInt32) : Logged Access Btree := do
  let len := (entries * b.valueSize).toNat
  .tell (.move .values entries.toNat dst src len)
  return b.setBytes (memmove b.bytes dst src len)

end Btree

def btreeInit (valueSize : UInt32) : Btree := ⟨none, 0, 0, valueSize⟩

/-- Clamp to the minimum configured capacity. -/
def clampCapacity (newCapacity : UInt32) : UInt32 :=
  if newCapacity < btreeMinCapacity then btreeMinCapacity else newCapacity

/-- The size that is asked for is never 0, so a NULL from `REALLOC` leaves the old buffer alone. -/
def btreeRealloc (b : Btree) (newCapacity : UInt32) (answer : AllocAnswer) :
    Logged Access (BtreeStatus × Btree) :=
  let newCapacity := clampCapacity newCapacity
  match b.data with
  | none =>
    match answer with
    | none => return (.oom, b)
    | some grant =>
      return (.ok, { b with data := some (mallocBlock (b.bufferSize newCapacity) grant),
                            capacity := newCapacity })
  | some data =>
    if newCapacity ≥ b.capacity then
      match answer with
      | none => return (.oom, b)
      | some grant => do
        let b := { b with data := some (reallocBlock data (b.bufferSize newCapacity) grant) }
        let b ← b.moveValues (b.valueOffsetCap 0 newCapacity) (b.valueOffsetCap 0 b.capacity) b.capacity
        return (.ok, { b with capacity := newCapacity })
    else do
      let b ← b.moveValues (b.valueOffsetCap 0 newCapacity) (b.valueOffsetCap 0 b.capacity) b.capacity
      -- a failed shrink keeps the larger block under the new capacity
      let data := match answer with
        | some grant => b.data.map fun data => reallocBlock data (b.bufferSize newCapacity) grant
        | none => b.data
      return (.ok, { b with data := data, capacity := newCapacity })

def btreeReserve (b : Btree) (size : UInt32) (answer : AllocAnswer) :
    Logged Access (BtreeStatus × Btree) :=
  if b.capacity < size then btreeRealloc b size answer else return (.ok, b)

/-! ### Search -/

/-- The loop of `btree_find_lower_bound`. `len` falls with every pass, so `len` passes are
enough. -/
def lowerBoundLoop (b : Btree) (key : UInt32) : Nat → Nat → UInt32 → Logged Access Nat
  | 0, found, _ => return found
  | fuel + 1, found, len =>
    if len > 0 then do
      let half := len >>> 1
      let middle ← b.readKey (found + half.toNat)
      if middle < key then lowerBoundLoop b key fuel (found + half.toNat + 1) (len - half - 1)
      else lowerBoundLoop b key fuel found half
    else return found

def btreeFindLowerBound (b : Btree) (key : UInt32) : Logged Access Nat :=
  lowerBoundLoop b key b.count.toNat 0 b.count

/-- One pass of the loop, on `found` and `len`. -/
def lowerBoundPass (b : Btree) (key : UInt32) (s : Nat × UInt32) : Logged Access (Nat × UInt32) := do
  let half := s.2 >>> 1
  let middle ← b.readKey (s.1 + half.toNat)
  if middle < key then return (s.1 + half.toNat + 1, s.2 - half - 1) else return (s.1, half)

/-- The loop as the source has it, without a bound; `none` is a search that has not ended within
the fuel. -/
def lowerBoundWithin (b : Btree) (key : UInt32) : Nat → Nat × UInt32 → Logged Access (Option Nat)
  | 0, _ => return none
  | fuel + 1, s =>
    if s.2 > 0 then do
      let s ← lowerBoundPass b key s
      lowerBoundWithin b key fuel s
    else return some s.1

/-- `lower_bound < BTREE_KEY_END(btree) && *lower_bound == key` -/
def isKeyAt (b : Btree) (lowerBound : Nat) (key : UInt32) : Logged Access Bool :=
  if lowerBound < b.count.toNat then do
    let k ← b.readKey lowerBound
    return k = key
  else return false

def btreeFind (b : Btree) (key : UInt32) : Logged Access (Option Nat) := do
  let lowerBound ← btreeFindLowerBound b key
  if ← isKeyAt b lowerBound key then return some (b.valueOffset (UInt32.ofNat lowerBound))
  else return none

def btreeKeyExists (b : Btree) (key : UInt32) : Logged Access Bool := do
  let lowerBound ← btreeFindLowerBound b key
  isKeyAt b lowerBound key

/-- The loop of `btree_find_unused_key`, which has no bound of its own; `none` is a search that
has not ended within the fuel. -/
def unusedKeyFrom (b : Btree) : Nat → UInt32 → Logged Access (Option UInt32)
  | 0, _ => return none
  | fuel + 1, key => do
    let k ← b.readKey key.toNat
    if k = key then unusedKeyFrom b fuel (key + 1) else return some key

def btreeFindUnusedKey (fuel : Nat) (b : Btree) : Logged Access (Option UInt32) :=
  if b.data.isSome then unusedKeyFrom b fuel 0 else return some 0

/-- The loop of `btree_find_index_of_matching_value`, from index `i`. -/
def matchingValueFrom (b : Btree) (value : List Byte) : Nat → UInt32 → Logged Access UInt32
  | 0, _ => return 0xFFFFFFFF
  | remaining + 1, i => do
    let current ← b.readValue (b.valueOffset i)
    if current = value then return i else matchingValueFrom b value remaining (i + 1)

def btreeFindIndexOfMatchingValue (b : Btree) (value : List Byte) : Logged Access UInt32 :=
  matchingValueFrom b value b.count.toNat 0

def btreeFindKey (b : Btree) (value : List Byte) : Logged Access (Option Nat) := do
  let i ← btreeFindIndexOfMatchingValue b value
  if i = 0xFFFFFFFF then return none else return some (Btree.keyOffset i.toNat)

def btreeFindAndCompare (b : Btree) (key : UInt32) (value : List Byte) : Logged Access Bool := do
  match ← btreeFind b key with
  | none => return false
  | some off =>
    let found ← b.readValue off
    return found = value

def btreeGetAnyValue (b : Btree) : Option Nat :=
  if b.count = 0 then none else some (b.valueOffset 0)

/-! ### Insertion -/

/-- `if (BTREE_NEEDS_REALLOC(btree)) btree_realloc(btree, capacity * EXPAND_FACTOR)` -/
def btreeGrow (b : Btree) (answer : AllocAnswer) : Logged Access (BtreeStatus × Btree) :=
  if b.count = b.capacity then btreeRealloc b (b.capacity * btreeExpandFactor) answer
  else return (.ok, b)

/-- The end of `btree_insert_new` and `btree_insert_or_get`: move the entries from
`lower_bound` on out of the way, copy the new one and count it. -/
def insertAtLowerBound (b : Btree) (lowerBound : Nat) (key : UInt32) (value : List Byte) :
    Logged Access Btree := do
  let insertionIndex := UInt32.ofNat lowerBound
  let entriesToMove := b.count - insertionIndex
  let b ← b.moveKeys (lowerBound + 1) lowerBound entriesToMove
  let b ← b.moveValues (b.valueOffset (insertionIndex + 1)) (b.valueOffset insertionIndex) entriesToMove
  let b ← b.writeKey insertionIndex key
  let b ← if b.valueSize ≠ 0 then b.writeValue (b.valueOffset insertionIndex) value else pure b
  return { b with count := b.count + 1 }

def btreeInsertNew (b : Btree) (key : UInt32) (value : List Byte) (answer : AllocAnswer) :
    Logged Access (BtreeStatus × Btree) := do
  let (status, b) ← btreeGrow b answer
  if status ≠ .ok then return (status, b)
  else
    let lowerBound ← btreeFindLowerBound b key
    if ← isKeyAt b lowerBound key then return (.exists, b)
    else
      let b ← insertAtLowerBound b lowerBound key value
      return (.ok, b)

/-- The second component is `*inserted_value`, which is left alone when memory runs out. -/
def btreeInsertOrGet (b : Btree) (key : UInt32) (value : List Byte) (answer : AllocAnswer) :
    Logged Access (BtreeStatus × Option Nat × Btree) := do
  let (status, b) ← btreeGrow b answer
  if status ≠ .ok then return (status, none, b)
  else
    let lowerBound ← btreeFindLowerBound b key
    let insertionIndex := UInt32.ofNat lowerBound
    if ← isKeyAt b lowerBound key then return (.exists, some (b.valueOffset insertionIndex), b)
    else
      let b ← insertAtLowerBound b lowerBound key value
      return (.notFound, some (b.valueOffset insertionIndex), b)

def btreeSetExisting (b : Btree) (key : UInt32) (value : List Byte) :
    Logged Access (BtreeStatus × Btree) := do
  if b.valueSize = 0 then return (.ok, b)
  else
    match ← btreeFind b key with
    | none => return (.notFound, b)
    | some found =>
      let b ← b.writeValue found value
      return (.ok, b)

/-! ### Erasure -/

def btreeEraseIndex (b : Btree) (idx : UInt32) : Logged Access (UInt32 × Btree) := do
  let key ← b.readKey idx.toNat
  let entriesToMove := b.count - idx
  let b ← b.moveKeys idx.toNat (idx.toNat + 1) entriesToMove
  let b ← b.moveValues (b.valueOffset idx) (b.valueOffset (idx + 1)) entriesToMove
  return (key, { b with count := b.count - 1 })

def btreeErase (b : Btree) (key : UInt32) : Logged Access (BtreeStatus × Btree) := do
  let lowerBound ← btreeFindLowerBound b key
  if ← isKeyAt b lowerBound key then
    let (_, b) ← btreeEraseIndex b (UInt32.ofNat lowerBound)
    return (.ok, b)
  else return (.notFound, b)

def btreeEraseValue (b : Btree) (value : List Byte) : Logged Access (UInt32 × Btree) := do
  let idx ← btreeFindIndexOfMatchingValue b value
  if idx = 0xFFFFFFFF then return (btreeInvalidKey, b) else btreeEraseIndex b idx

/-- `BTREE_VALUE_TO_IDX(btree, value)` for a pointer to offset `off`. -/
def Btree.valueToIdx (b : Btree) (off : Nat) : UInt32 :=
  UInt32.ofNat ((off - b.valueOffset 0) / b.valueSize.toNat)

def btreeEraseInternalValue (b : Btree) (off : Nat) : Logged Access (UInt32 × Btree) :=
  btreeEraseIndex b (b.valueToIdx off)

/-- `BTREE_ERASE_CURRENT_ITEM_IN_FOR_LOOP`; the index of the loop steps back. -/
def btreeEraseCurrentItemInForLoop (b : Btree) (idx : UInt32) : Logged Access (UInt32 × Btree) := do
  let (_, b) ← btreeEraseIndex b idx
  return (idx - 1, b)

/-! ### Iteration -/

/-- What the body of `BTREE_FOR_EACH` has: the key, the pointer to the value, and the bytes there. -/
structure BtreeItem where
  key : UInt32
  value : Nat
  bytes : List Byte

def forEachItem (b : Btree) (idx : UInt32) : Logged Access BtreeItem := do
  let key ← b.readKey idx.toNat
  let value := b.valueOffset idx
  let bytes ← b.readValue value
  return ⟨key, value, bytes⟩

/-- The loop of the two macros from index `idx`, with a body that erases the current item where
`erase` holds. It lists what the body has been given; `none` is a loop that has not ended within
the fuel. -/
def forEachErasingFrom {α : Type} (item : Btree → UInt32 → Logged Access α) (erase : α → Bool) :
    Nat → Btree → UInt32 → Logged Access (Option (List α × Btree))
  | 0, _, _ => return none
  | fuel + 1, b, idx =>
    if idx ≠ b.count then do
      let current ← item b idx
      let (idx, b) ← if erase current then btreeEraseCurrentItemInForLoop b idx else pure (idx, b)
      let rest ← forEachErasingFrom item erase fuel b (idx + 1)
      return rest.map fun r => (current :: r.1, r.2)
    else return some ([], b)

/-- `BTREE_FOR_EACH` -/
def btreeForEachErasing (fuel : Nat) (b : Btree) (erase : UInt32 → List Byte → Bool) :
    Logged Access (Option (List BtreeItem × Btree)) :=
  forEachErasingFrom forEachItem (fun item => erase item.key item.bytes) fuel b 0

/-- `BTREE_KEYS_FOR_EACH` -/
def btreeKeysForEachErasing (fuel : Nat) (b : Btree) (erase : UInt32 → Bool) :
    Logged Access (Option (List UInt32 × Btree)) :=
  forEachErasingFrom (fun b idx => b.readKey idx.toNat) erase fuel b 0

def btreeClear (b : Btree) : Btree := { b with count := 0 }

def btreeCompact (b : Btree) (answer : AllocAnswer) : Logged Access Btree :=
  if b.count = 0 then return { b with data := none, capacity := 0 }
  else do
    let (_, b) ← btreeRealloc b b.count answer
    return b

/-! ### Calls -/

inductive BtreeCall
  | insertNew (key : UInt32) (value : List Byte)
  | insertOrGet (key : UInt32) (value : List Byte)
  | setExisting (key : UInt32) (value : List Byte)
  | find (key : UInt32)
  | findKey (value : List Byte)
  | findAndCompare (key : UInt32) (value : List Byte)
  | keyExists (key : UInt32)
  | getAnyValue
  | erase (key : UInt32)
  | eraseValue (value : List Byte)
  | clear
  | reserve (size : UInt32)
  | compact
  deriving DecidableEq

/-- What a call answers. A pointer is observed through the bytes at it. -/
inductive BtreeAnswer
  | done
  | status (status : BtreeStatus)
  | statusValue (status : BtreeStatus) (value : Option (List Byte))
  | value (value : Option (List Byte))
  | keyPointer (key : Option UInt32)
  | key (key : UInt32)
  | flag (flag : Bool)
  deriving DecidableEq

/-- The assertions of the functions, and values of the right size. -/
def BtreeCall.Fits (b : Btree) : BtreeCall → Prop
  | .insertNew _ value => value.length = b.valueSize.toNat
  | .insertOrGet _ value => 0 < b.valueSize ∧ value.length = b.valueSize.toNat
  | .setExisting _ value => 0 < b.valueSize ∧ value.length = b.valueSize.toNat
  | .find _ => 0 < b.valueSize
  | .findKey value => 0 < b.valueSize ∧ value.length = b.valueSize.toNat
  | .findAndCompare _ value => 0 < b.valueSize ∧ value.length = b.valueSize.toNat
  | .getAnyValue => 0 < b.valueSize
  | .eraseValue value => 0 < b.valueSize ∧ value.length = b.valueSize.toNat
  | _ => True

instance BtreeCall.decidableFits (b : Btree) (call : BtreeCall) : Decidable (call.Fits b) := by
  cases call <;> unfold BtreeCall.Fits <;> infer_instance

/-- Make one call. -/
def btreeCall (b : Btree) (answer : AllocAnswer) : BtreeCall → Logged Access (BtreeAnswer × Btree)
  | .insertNew key value => do
    let (status, b) ← btreeInsertNew b key value answer
    return (.status status, b)
  | .insertOrGet key value => do
    let (status, insertedValue, b) ← btreeInsertOrGet b key value answer
    return (.statusValue status (insertedValue.map b.deref), b)
  | .setExisting key value => do
    let (status, b) ← btreeSetExisting b key value
    return (.status status, b)
  | .find key => do
    let found ← btreeFind b key
    return (.value (found.map b.deref), b)
  | .findKey value => do
    let found ← btreeFindKey b value
    return (.keyPointer (found.map (load32 b.bytes)), b)
  | .findAndCompare key value => do
    let flag ← btreeFindAndCompare b key value
    return (.flag flag, b)
  | .keyExists key => do
    let flag ← btreeKeyExists b key
    return (.flag flag, b)
  | .getAnyValue => return (.value ((btreeGetAnyValue b).map b.deref), b)
  | .erase key => do
    let (status, b) ← btreeErase b key
    return (.status status, b)
  | .eraseValue value => do
    let (key, b) ← btreeEraseValue b value
    return (.key key, b)
  | .clear => return (.done, btreeClear b)
  | .reserve size => do
    let (status, b) ← btreeReserve b size answer
    return (.status status, b)
  | .compact => do
    let b ← btreeCompact b answer
    return (.done, b)

end CStructures
