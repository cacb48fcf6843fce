import CStructures.Model.Allocator
import CStructures.Lib.Logged
import CStructures.Lib.Word
import Mathlib.Logic.Function.Basic

/-!
# The vector

`vector.c` at the level of its buffer. Sizes and counts are 32-bit words, indices are
`intptr_t`, and pointers into the buffer are 64-bit offsets from `data`. Every product and
sum is taken in the type that the C code computes it in.

Two vectors meet in `vector_push_vector`, so the calls are made on a store of vectors.
-/

namespace CStructures
open Lib

def vecExpandFactor : UInt32 := 2
def vecMinCapacity : UInt32 := 32
def vecInvalidIndex : Int64 := -1

/-- `freed` is not a field of the source: a reallocation has freed the buffer, and `data` still
points to it. What happens to such a vector afterwards is undefined. -/
structure CsVector where
  data : Option Block
  capacity : UInt32
  count : UInt32
  elementSize : UInt32
  freed : Bool

/-- The conversion of a `cs_vec_size` to a `cs_vec_idx`. -/
def toIdx (n : UInt32) : Int64 := n.toUInt64.toInt64

namespace CsVector

/-- The memory at `data`; a NULL pointer is never read. -/
def bytes (v : CsVector) : Bytes :=
  match v.data with
  | some data => data.bytes
  | none => fun _ => 0

def setBytes (v : CsVector) (bytes : Bytes) : CsVector :=
  { v with data := v.data.map fun data => { data with bytes := bytes } }

/-- The element at a pointer. -/
def deref (v : CsVector) (p : UInt64) : List Byte := slice v.bytes p.toNat v.elementSize.toNat

/-- `memcpy(p, value, element_size)` -/
def write (v : CsVector) (p : UInt64) (value : List Byte) : CsVector :=
  v.setBytes (memcpy v.bytes p.toNat value)

/-- `memmove(dst, src, len)` -/
def move (v : CsVector) (dst src : UInt64) (len : UInt32) : CsVector :=
  v.setBytes (memmove v.bytes dst.toNat src.toNat len.toNat)

/-- The bytes requested for `newCapacity` elements and the scratch element. -/
def requestSize (v : CsVector) (newCapacity : UInt32) : Nat :=
  ((newCapacity + 1) * v.elementSize).toNat

/-- `realloc` has answered NULL. The buffer is left alone, but a request for no bytes has freed it,
as in the GNU C library. -/
def refuseBuffer (v : CsVector) (newCapacity : UInt32) : CsVector :=
  if v.requestSize newCapacity = 0 then { v with freed := true } else v

end CsVector

def vectorInit (elementSize : UInt32) : CsVector := ⟨none, 0, 0, elementSize, false⟩

/-- Returns 0, or -1 when there is no memory. -/
def vectorRealloc (v : CsVector) (insertionIndex : Int64) (newCapacity : UInt32)
    (answer : AllocAnswer) : Int × CsVector :=
  match v.data with
  | none =>
    let newCapacity := if newCapacity = 0 then vecMinCapacity else newCapacity
    match answer with
    | none => (-1, v)
    | some grant =>
      (0, { v with data := some (mallocBlock (v.requestSize newCapacity) grant),
                   capacity := newCapacity })
  | some data =>
    match answer with
    | none => (-1, v.refuseBuffer newCapacity)
    | some grant =>
      let v := { v with data := some (reallocBlock data (v.requestSize newCapacity) grant) }
      let v :=
        if insertionIndex ≠ vecInvalidIndex then
          let oldUpperElements := (insertionIndex + 0) * toIdx v.elementSize
          let newUpperElements := (insertionIndex + 1) * toIdx v.elementSize
          let upperElementCount := (toIdx v.capacity - insertionIndex).toUInt64.toUInt32
          v.move newUpperElements.toUInt64 oldUpperElements.toUInt64 (upperElementCount * v.elementSize)
        else v
      (0, { v with capacity := newCapacity })

def vectorClear (v : CsVector) : CsVector := { v with count := 0 }

def vectorCompact (v : CsVector) (answer : AllocAnswer) : CsVector :=
  if v.count = 0 then { v with data := none, capacity := 0 }
  else (vectorRealloc v vecInvalidIndex v.count answer).2

def vectorClearCompact (v : CsVector) : CsVector := { v with count := 0, capacity := 0, data := none }

def vectorReserve (v : CsVector) (size : UInt32) (answer : AllocAnswer) : Int × CsVector :=
  if v.capacity < size then
    let (status, v) := vectorRealloc v vecInvalidIndex size answer
    if status ≠ 0 then (-1, v) else (0, v)
  else (0, v)

def vectorResize (v : CsVector) (size : UInt32) (answer : AllocAnswer) : Int × CsVector :=
  let (status, v) := vectorReserve v size answer
  if status ≠ 0 then (-1, v) else (0, { v with count := size })

def vectorEmplace (v : CsVector) (answer : AllocAnswer) : Option UInt64 × CsVector :=
  let (status, v) :=
    if v.count = v.capacity then vectorRealloc v vecInvalidIndex (v.count * vecExpandFactor) answer
    else (0, v)
  if status ≠ 0 then (none, v)
  else
    let emplaced := (v.elementSize * v.count).toUInt64
    (some emplaced, { v with count := v.count + 1 })

/-- The end of `vector_push` and `vector_insert`: the value is copied to the emplaced element. -/
def copyEmplaced (value : List Byte) : Option UInt64 × CsVector → Int × CsVector
  | (none, v) => (-1, v)
  | (some emplaced, v) => (0, v.write emplaced value)

def vectorPush (v : CsVector) (value : List Byte) (answer : AllocAnswer) : Int × CsVector :=
  copyEmplaced value (vectorEmplace v answer)

/-- The pointer is to the element that has been popped. -/
def vectorPop (v : CsVector) : Option UInt64 × CsVector :=
  if v.count = 0 then (none, v)
  else
    let v := { v with count := v.count - 1 }
    (some (v.elementSize * v.count).toUInt64, v)

def vectorBack (v : CsVector) : Option UInt64 :=
  if v.count = 0 then none else some (v.elementSize * (v.count - 1)).toUInt64

def vectorInsertEmplace (v : CsVector) (index : Int64) (answer : AllocAnswer) :
    Option UInt64 × CsVector :=
  let (status, v) :=
    if v.count = v.capacity then vectorRealloc v index (v.count * vecExpandFactor) answer
    else
      let totalSize := v.count * v.elementSize
      let offset := toIdx v.elementSize * index
      (0, v.move (offset.toUInt64 + v.elementSize.toUInt64) offset.toUInt64
        (totalSize - offset.toUInt64.toUInt32))
  if status ≠ 0 then (none, v)
  else
    let v := { v with count := v.count + 1 }
    (some (index * toIdx v.elementSize).toUInt64, v)

def vectorInsert (v : CsVector) (index : Int64) (value : List Byte) (answer : AllocAnswer) :
    Int × CsVector :=
  copyEmplaced value (vectorInsertEmplace v index answer)

def vectorEraseIndex (v : CsVector) (index : Int64) : CsVector :=
  if index = toIdx (v.count - 1) then (vectorPop v).2
  else
    let offset := toIdx v.elementSize * index
    let totalSize := v.elementSize * v.count
    let v := v.move offset.toUInt64 (offset.toUInt64 + v.elementSize.toUInt64)
      (totalSize - offset.toUInt64.toUInt32 - v.elementSize)
    { v with count := v.count - 1 }

def vectorEraseElement (v : CsVector) (element : UInt64) : CsVector :=
  let lastElement := ((v.count - 1) * v.elementSize).toUInt64
  let v :=
    if element ≠ lastElement then
      v.move element (element + v.elementSize.toUInt64) (lastElement - element).toUInt32
    else v
  { v with count := v.count - 1 }

def vectorGetElement (v : CsVector) (index : Int64) : UInt64 := (index * toIdx v.elementSize).toUInt64

/-- The loop of `vector_find_element`, from index `i`. -/
def findElementFrom (v : CsVector) (element : List Byte) : Nat → Int64 → Int64
  | 0, _ => toIdx v.count
  | remaining + 1, i =>
    if v.deref (vectorGetElement v i) = element then i else findElementFrom v element remaining (i + 1)

def vectorFindElement (v : CsVector) (element : List Byte) : Int64 :=
  findElementFrom v element v.count.toNat 0

/-- `vector_get_scratch_element(vector)` -/
def vectorGetScratchElement (v : CsVector) : UInt64 := (v.capacity * v.elementSize).toUInt64

/-- `memcpy(dst, src, vector->element_size)`, with the two accesses that it makes. -/
def memcpyElement (v : CsVector) (dst src : UInt64) (bytes : Bytes) : Logged UInt64 Bytes := do
  .tell src
  .tell dst
  return memcpy bytes dst.toNat (slice bytes src.toNat v.elementSize.toNat)

/-- The loop of `vector_reverse`, for at most `passes` tests; `none` is a loop that has not
ended by then. The pointer `last` can fall below `data`, where its offset is negative. -/
def reverseLoop (v : CsVector) : Nat → UInt64 → UInt64 → Bytes → Logged UInt64 (Option Bytes)
  | 0, _, _, _ => return none
  | passes + 1, first, last, bytes =>
    if first.toInt64 < last.toInt64 then do
      let tmp := vectorGetScratchElement v
      let bytes ← memcpyElement v tmp first bytes
      let bytes ← memcpyElement v first last bytes
      let bytes ← memcpyElement v last tmp bytes
      reverseLoop v passes (first + v.elementSize.toUInt64) (last - v.elementSize.toUInt64) bytes
    else return some bytes

/-- `vector_reverse` for at most `passes` tests of its loop. Logged are the pointers to the
elements that it reads or writes. -/
def reverseWithin (v : CsVector) (passes : Nat) : Logged UInt64 (Option CsVector) := do
  let bytes ← reverseLoop v passes 0 ((v.count - 1) * v.elementSize).toUInt64 v.bytes
  return bytes.map v.setBytes

/-- The pointers are less than 2^32 bytes apart and approach each other by two elements with
every pass, so 2^32 tests are enough. -/
def vectorReverse (v : CsVector) : CsVector := (reverseWithin v (2 ^ 32)).val.getD v

/-! ### Iteration

The pointer `var` of the four loops is an address. Their bodies, with a state of their own, read
the element at it and may write to it. Logged are the addresses that a body is given. -/

/-- `data` as an address. -/
def CsVector.base (v : CsVector) : UInt64 := (v.data.map Block.addr).getD 0

section ForEach

variable {α : Type} (body : α → List Byte → α × List Byte)

/-- `for (...; test(var); var = next(var))`, for at most `passes` tests. -/
def forEachLoop (test : UInt64 → Bool) (next : CsVector → UInt64 → UInt64) :
    Nat → UInt64 → α × CsVector → Logged UInt64 (Option (α × CsVector))
  | 0, _, _ => return none
  | passes + 1, var, (a, v) =>
    if test var then do
      .tell var
      let (a, x) := body a (v.deref (var - v.base))
      let v := v.write (var - v.base) x
      forEachLoop test next passes (next v var) (a, v)
    else return some (a, v)

/-- `VECTOR_FOR_EACH` -/
def vectorForEach (passes : Nat) (c : α × CsVector) : Logged UInt64 (Option (α × CsVector)) :=
  let v := c.2
  let endOfVector := v.base + (v.count * v.elementSize).toUInt64
  forEachLoop body (fun var => var ≠ endOfVector) (fun v var => var + v.elementSize.toUInt64) passes
    v.base c

/-- `VECTOR_FOR_EACH_R` -/
def vectorForEachR (passes : Nat) (c : α × CsVector) : Logged UInt64 (Option (α × CsVector)) :=
  let v := c.2
  let startOfVector := v.base - v.elementSize.toUInt64
  forEachLoop body (fun var => var ≠ startOfVector) (fun v var => var - v.elementSize.toUInt64) passes
    (v.base + (v.count * v.elementSize).toUInt64 - v.elementSize.toUInt64) c

/-- `VECTOR_FOR_EACH_RANGE`, with indices of the type `cs_vec_size` -/
def vectorForEachRange (beginIndex endIndex : UInt32) (passes : Nat) (c : α × CsVector) :
    Logged UInt64 (Option (α × CsVector)) :=
  let v := c.2
  let endOfVector := v.base + (endIndex * v.elementSize).toUInt64
  forEachLoop body (fun var => var < endOfVector) (fun v var => var + v.elementSize.toUInt64) passes
    (v.base + (beginIndex * v.elementSize).toUInt64) c

/-- `VECTOR_FOR_EACH_RANGE_R`, with indices of the type `cs_vec_size` -/
def vectorForEachRangeR (beginIndex endIndex : UInt32) (passes : Nat) (c : α × CsVector) :
    Logged UInt64 (Option (α × CsVector)) :=
  let v := c.2
  let startOfVector := v.base + (beginIndex * v.elementSize).toUInt64 - v.elementSize.toUInt64
  forEachLoop body (fun var => startOfVector < var) (fun v var => var - v.elementSize.toUInt64) passes
    (v.base + (endIndex * v.elementSize).toUInt64 - v.elementSize.toUInt64) c

end ForEach

/-! ### Element slots

The three functions that take an index, with the element slots that they touch. The position
of a slot is an exact integer. -/

/-- A pointer to the slot at a position, or a `memmove` of `len` bytes between two of them. -/
inductive SlotAccess
  | pointer (position : Int)
  | move (dst src : Int) (len : Nat)
  deriving DecidableEq

namespace CsVector

/-- `data + index * element_size`, as a pointer that is returned -/
def pointSlot (v : CsVector) (index : Int64) : Logged SlotAccess UInt64 := do
  .tell (.pointer index.toInt)
  return (index * toIdx v.elementSize).toUInt64

/-- `memmove(data + dst * element_size, data + src * element_size, len)` -/
def moveSlots (v : CsVector) (dst src : Int64) (len : UInt32) : Logged SlotAccess CsVector := do
  .tell (.move dst.toInt src.toInt len.toNat)
  return v.move (dst * toIdx v.elementSize).toUInt64 (src * toIdx v.elementSize).toUInt64 len

end CsVector

def reallocSlots (v : CsVector) (insertionIndex : Int64) (newCapacity : UInt32)
    (answer : AllocAnswer) : Logged SlotAccess (Int × CsVector) :=
  match v.data with
  | none =>
    let newCapacity := if newCapacity = 0 then vecMinCapacity else newCapacity
    match answer with
    | none => return (-1, v)
    | some grant =>
      return (0, { v with data := some (mallocBlock (v.requestSize newCapacity) grant),
                          capacity := newCapacity })
  | some data =>
    match answer with
    | none => return (-1, v.refuseBuffer newCapacity)
    | some grant => do
      let v := { v with data := some (reallocBlock data (v.requestSize newCapacity) grant) }
      let v ← if insertionIndex ≠ vecInvalidIndex then
          let upperElementCount := (toIdx v.capacity - insertionIndex).toUInt64.toUInt32
          v.moveSlots (insertionIndex + 1) (insertionIndex + 0) (upperElementCount * v.elementSize)
        else pure v
      return (0, { v with capacity := newCapacity })

def insertEmplaceSlots (v : CsVector) (index : Int64) (answer : AllocAnswer) :
    Logged SlotAccess (Option UInt64 × CsVector) := do
  let (status, v) ←
    if v.count = v.capacity then reallocSlots v index (v.count * vecExpandFactor) answer
    else do
      let totalSize := v.count * v.elementSize
      let offset := toIdx v.elementSize * index
      let v ← v.moveSlots (index + 1) index (totalSize - offset.toUInt64.toUInt32)
      pure (0, v)
  if status ≠ 0 then return (none, v)
  else
    let v := { v with count := v.count + 1 }
    let emplaced ← v.pointSlot index
    return (some emplaced, v)

/-- The pointer that `vector_pop` returns is not used. -/
def eraseIndexSlots (v : CsVector) (index : Int64) : Logged SlotAccess CsVector := do
  if index = toIdx (v.count - 1) then return (vectorPop v).2
  else
    let offset := toIdx v.elementSize * index
    let totalSize := v.elementSize * v.count
    let v ← v.moveSlots index (index + 1) (totalSize - offset.toUInt64.toUInt32 - v.elementSize)
    return { v with count := v.count - 1 }

def getElementSlots (v : CsVector) (index : Int64) : Logged SlotAccess UInt64 := v.pointSlot index

/-! ### Calls -/

/-- The calls on one vector. An emplaced element is written at once. -/
inductive VectorCall
  | push (value : List Byte)
  | emplace (value : List Byte)
  | pop
  | back
  | insert (index : Int64) (value : List Byte)
  | insertEmplace (index : Int64) (value : List Byte)
  | eraseIndex (index : Int64)
  | eraseElement (element : UInt64)
  | resize (size : UInt32)
  | reserve (size : UInt32)
  | compact
  | clear
  | clearCompact
  | findElement (value : List Byte)
  | reverse
  deriving DecidableEq

/-- What a call answers. A pointer is observed through the bytes at it. -/
inductive VectorAnswer
  | done
  | status (status : Int)
  | element (value : Option (List Byte))
  | index (index : Int64)
  deriving DecidableEq

/-- Write the element that has been emplaced. -/
def writeEmplaced (value : List Byte) : Option UInt64 × CsVector → VectorAnswer × CsVector
  | (none, v) => (.element none, v)
  | (some emplaced, v) =>
    let v := v.write emplaced value
    (.element (some (v.deref emplaced)), v)

/-- Make one call. -/
def vectorCall (v : CsVector) (answer : AllocAnswer) : VectorCall → VectorAnswer × CsVector
  | .push value => (vectorPush v value answer).map .status id
  | .emplace value => writeEmplaced value (vectorEmplace v answer)
  | .pop =>
    let (popped, v) := vectorPop v
    (.element (popped.map v.deref), v)
  | .back => (.element ((vectorBack v).map v.deref), v)
  | .insert index value => (vectorInsert v index value answer).map .status id
  | .insertEmplace index value => writeEmplaced value (vectorInsertEmplace v index answer)
  | .eraseIndex index => (.done, vectorEraseIndex v index)
  | .eraseElement element => (.done, vectorEraseElement v element)
  | .resize size => (vectorResize v size answer).map .status id
  | .reserve size => (vectorReserve v size answer).map .status id
  | .compact => (.done, vectorCompact v answer)
  | .clear => (.done, vectorClear v)
  | .clearCompact => (.done, vectorClearCompact v)
  | .findElement value => (.index (vectorFindElement v value), v)
  | .reverse => (.done, vectorReverse v)

/-- The vectors at their addresses. -/
abbrev VectorStore := Nat → CsVector

/-- `sourceVector` may be `vector` itself; its fields are read where the C code reads them. -/
def vectorPushVector (store : VectorStore) (vector sourceVector : Nat) (answer : AllocAnswer) :
    Int × VectorStore :=
  if (store vector).elementSize ≠ (store sourceVector).elementSize then (-2, store)
  else
    let newCount := (store vector).count + (store sourceVector).count
    let (status, v) :=
      if newCount > (store vector).capacity then
        vectorRealloc (store vector) vecInvalidIndex newCount answer
      else (0, store vector)
    let store := Function.update store vector v
    if status ≠ 0 then (-1, store)
    else
      let len := (store sourceVector).count * v.elementSize
      let copied := slice (store sourceVector).bytes 0 len.toNat
      let v := v.write (v.count * v.elementSize).toUInt64 copied
      (0, Function.update store vector { v with count := v.count + (store sourceVector).count })

/-- A call on one of the vectors, or one that involves two. -/
inductive StoreCall
  | on (vector : Nat) (call : VectorCall)
  | pushVector (vector sourceVector : Nat)
  deriving DecidableEq

def storeCall (store : VectorStore) (answer : AllocAnswer) : StoreCall → VectorAnswer × VectorStore
  | .on vector call => (vectorCall (store vector) answer call).map id (Function.update store vector)
  | .pushVector vector sourceVector => (vectorPushVector store vector sourceVector answer).map .status id

end CStructures
