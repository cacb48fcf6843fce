import CStructures.Lib.Ownership
import CStructures.Model.Btree
import CStructures.Model.Memory
import CStructures.Model.Vector
import CStructures.Proofs.HashmapRefinement

/-!
# Containers on a shared heap

Vectors, btrees and hashmaps that are created, used and destroyed in any order, over one
`MALLOC`, `REALLOC` and `FREE`. A function makes at most one request while it works on a vector
or a btree; what it does with the answer is modelled with the container, and here is which
request it makes. The headers are 24 bytes large, that of a hashmap 32.
-/

namespace CStructures
open Lib

/-- `MALLOC`, `REALLOC` and `FREE`. -/
abbrev HeapApi (σ : Type) := HeapFunctions σ Grant

inductive Request
  | nothing
  | malloc (size : UInt64)
  | realloc (p newSize : UInt64)
  | free (p : UInt64)
  deriving DecidableEq

/-- `XFREE` -/
def xfree : Option Block → Request
  | some data => .free data.addr
  | none => .nothing

section Requests

variable {σ : Type} (H : HeapApi σ)

def Request.perform : Request → StateT σ Option AllocAnswer
  | .nothing => return none
  | .malloc size => H.malloc size
  | .realloc p newSize => H.realloc p newSize
  | .free p => do
    H.free p
    return none

/-- The allocator of a hashmap, which never calls `REALLOC`. -/
def hashmapAllocator : Allocator σ where
  malloc size := do
    let answer ← H.malloc size
    return answer.map (mallocBlock size.toNat)
  free := H.free

/-! ### Vectors -/

/-- The request of `vector_realloc`. -/
def vectorReallocRequest (v : CsVector) (newCapacity : UInt32) : Request :=
  match v.data with
  | none =>
    let newCapacity := if newCapacity = 0 then vecMinCapacity else newCapacity
    .malloc (UInt64.ofNat (v.requestSize newCapacity))
  | some data => .realloc data.addr (UInt64.ofNat (v.requestSize newCapacity))

def vectorRequest (v : CsVector) : VectorCall → Request
  | .push _ | .emplace _ | .insert _ _ | .insertEmplace _ _ =>
    if v.count = v.capacity then vectorReallocRequest v (v.count * vecExpandFactor) else .nothing
  | .resize size | .reserve size => if v.capacity < size then vectorReallocRequest v size else .nothing
  | .compact => if v.count = 0 then xfree v.data else vectorReallocRequest v v.count
  | .clearCompact => xfree v.data
  | _ => .nothing

def pushVectorRequest (v source : CsVector) : Request :=
  if v.elementSize ≠ source.elementSize then .nothing
  else
    let newCount := v.count + source.count
    if newCount > v.capacity then vectorReallocRequest v newCount else .nothing

def vectorOnHeap (v : CsVector) (call : VectorCall) : StateT σ Option (VectorAnswer × CsVector) := do
  let answer ← (vectorRequest v call).perform H
  return vectorCall v answer call

def pushVectorOnHeap (store : VectorStore) (vector sourceVector : Nat) :
    StateT σ Option (Int × CsVector) := do
  let answer ← (pushVectorRequest (store vector) (store sourceVector)).perform H
  let (status, store) := vectorPushVector store vector sourceVector answer
  return (status, store vector)

/-- The address of the header, and the vector. -/
def vectorCreate (elementSize : UInt32) : StateT σ Option (Option (UInt64 × CsVector)) := do
  match ← H.malloc 24 with
  | none => return none
  | some header => return some (header.addr, vectorInit elementSize)

def vectorDeinit (v : CsVector) : StateT σ Option Unit := do
  let _ ← (xfree v.data).perform H

/-- The pointer to the new string is lost: 0 is returned in any case. The block at the address
stays allocated. -/
def stringCreate : StateT σ Option (Option UInt64) := do
  match ← H.malloc 24 with
  | none => return none
  | some str => return some str.addr

/-! ### Btrees -/

/-- The request of `btree_realloc`. -/
def btreeReallocRequest (b : Btree) (newCapacity : UInt32) : Request :=
  let newCapacity := clampCapacity newCapacity
  match b.data with
  | none => .malloc (UInt64.ofNat (b.bufferSize newCapacity))
  | some data => .realloc data.addr (UInt64.ofNat (b.bufferSize newCapacity))

def btreeRequest (b : Btree) : BtreeCall → Request
  | .insertNew _ _ | .insertOrGet _ _ =>
    if b.count = b.capacity then btreeReallocRequest b (b.capacity * btreeExpandFactor) else .nothing
  | .reserve size => if b.capacity < size then btreeReallocRequest b size else .nothing
  | .compact => if b.count = 0 then xfree b.data else btreeReallocRequest b b.count
  | _ => .nothing

def btreeOnHeap (b : Btree) (call : BtreeCall) : StateT σ Option (BtreeAnswer × Btree) := do
  let answer ← (btreeRequest b call).perform H
  return (btreeCall b answer call).val

def btreeCreate (valueSize : UInt32) : StateT σ Option (Option (UInt64 × Btree)) := do
  match ← H.malloc 24 with
  | none => return none
  | some header => return some (header.addr, btreeInit valueSize)

/-- `btree_clear`, then `btree_compact`. -/
def btreeDeinit (b : Btree) : StateT σ Option Unit := do
  let _ ← btreeOnHeap H (btreeClear b) .compact

/-! ### Hashmaps -/

/-- The header stays allocated when there is no memory for the table. -/
def hashmapCreateOnHeap (keySize valueSize tableCount : UInt32) (hash : Hash32Func) :
    StateT σ Option (Option UInt64 × Option Hashmap) := do
  match ← H.malloc 32 with
  | none => return (none, none)
  | some header =>
    let hm ← hashmapInitWithOptions (hashmapAllocator H) keySize valueSize tableCount hash
    return (some header.addr, hm)

def hashmapOnHeap (fuel : Nat) (hm : Hashmap) (call : HashmapCall) :
    StateT σ Option (HashmapAnswer × Hashmap) := fun s =>
  (hashmapCall (hashmapAllocator H) fuel (hm, s) call).map fun r => ((r.1, r.2.1), r.2.2)

end Requests

/-! ### The containers of a client -/

inductive Container
  | vector (v : CsVector)
  | btree (b : Btree)
  | hashmap (hm : Hashmap)

/-- A container. The client may have its header on the stack, which is `none`. -/
structure Handle where
  header : Option UInt64
  container : Container

/-- The arguments of the `init` and `create` functions. -/
inductive ContainerKind
  | vector (elementSize : UInt32)
  | btree (valueSize : UInt32)
  | hashmap (keySize valueSize tableCount : UInt32) (hash : Hash32Func)

/-- The containers of a client, numbered as they have been created; a destroyed one is `none`.
`lost` are the strings that `string_create` has allocated. -/
structure Client where
  handles : List (Option Handle)
  lost : List UInt64

namespace Client

def add (client : Client) (handle : Handle) : Client :=
  { client with handles := client.handles ++ [some handle] }

def put (client : Client) (i : Nat) (handle : Option Handle) : Client :=
  { client with handles := client.handles.set i handle }

/-- The vectors among the containers. -/
def vectors (client : Client) : VectorStore := fun i =>
  match client.handles[i]? with
  | some (some ⟨_, .vector v⟩) => v
  | _ => vectorInit 0

end Client

inductive ClientCall
  | init (kind : ContainerKind)
  | create (kind : ContainerKind)
  | stringCreate
  | vector (i : Nat) (call : VectorCall)
  | pushVector (i j : Nat)
  | btree (i : Nat) (call : BtreeCall)
  | hashmap (i : Nat) (call : HashmapCall)
  | destroy (i : Nat)

inductive ClientAnswer
  | done
  | null
  | vector (answer : VectorAnswer)
  | btree (answer : BtreeAnswer)
  | hashmap (answer : HashmapAnswer)
  deriving DecidableEq

section Clients

variable {σ : Type} (H : HeapApi σ)

def containerInit : ContainerKind → StateT σ Option (Option Handle)
  | .vector elementSize => return some ⟨none, .vector (vectorInit elementSize)⟩
  | .btree valueSize => return some ⟨none, .btree (btreeInit valueSize)⟩
  | .hashmap keySize valueSize tableCount hash => do
    let hm ← hashmapInitWithOptions (hashmapAllocator H) keySize valueSize tableCount hash
    return hm.map fun hm => ⟨none, .hashmap hm⟩

def containerCreate : ContainerKind → StateT σ Option (Option Handle)
  | .vector elementSize => do
    let created ← vectorCreate H elementSize
    return created.map fun r => ⟨some r.1, .vector r.2⟩
  | .btree valueSize => do
    let created ← btreeCreate H valueSize
    return created.map fun r => ⟨some r.1, .btree r.2⟩
  | .hashmap keySize valueSize tableCount hash => do
    let (header, hm) ← hashmapCreateOnHeap H keySize valueSize tableCount hash
    return hm.map fun hm => ⟨header, .hashmap hm⟩

/-- `vector_deinit`, `btree_deinit` and `hashmap_deinit` -/
def containerDeinit : Container → StateT σ Option Unit
  | .vector v => vectorDeinit H v
  | .btree b => btreeDeinit H b
  | .hashmap hm => hashmapDeinit (hashmapAllocator H) hm

/-- The `free` functions free the header too. -/
def containerDestroy (handle : Handle) : StateT σ Option Unit := do
  containerDeinit H handle.container
  match handle.header with
  | some header => H.free header
  | none => pure ()

/-- Add a container that has been created. Without memory the client gets NULL or an error. -/
def addCreated (client : Client) (handle : Option Handle) : ClientAnswer × Client :=
  match handle with
  | some handle => (.done, client.add handle)
  | none => (.null, client)

/-- Make one call. A call on a container of another kind does not return. -/
def clientCall (fuel : Nat) (client : Client) : ClientCall → StateT σ Option (ClientAnswer × Client)
  | .init kind => do
    let handle ← containerInit H kind
    return addCreated client handle
  | .create kind => do
    let handle ← containerCreate H kind
    return addCreated client handle
  | .stringCreate => do
    let str ← stringCreate H
    return (.null, { client with lost := str.toList ++ client.lost })
  | .vector i call =>
    match client.handles[i]? with
    | some (some ⟨header, .vector v⟩) => do
      let (answer, v) ← vectorOnHeap H v call
      return (.vector answer, client.put i (some ⟨header, .vector v⟩))
    | _ => fun _ => none
  | .pushVector i j =>
    match client.handles[i]?, client.handles[j]? with
    | some (some ⟨header, .vector _⟩), some (some ⟨_, .vector _⟩) => do
      let (status, v) ← pushVectorOnHeap H client.vectors i j
      return (.vector (.status status), client.put i (some ⟨header, .vector v⟩))
    | _, _ => fun _ => none
  | .btree i call =>
    match client.handles[i]? with
    | some (some ⟨header, .btree b⟩) => do
      let (answer, b) ← btreeOnHeap H b call
      return (.btree answer, client.put i (some ⟨header, .btree b⟩))
    | _ => fun _ => none
  | .hashmap i call =>
    match client.handles[i]? with
    | some (some ⟨header, .hashmap hm⟩) => do
      let (answer, hm) ← hashmapOnHeap H fuel hm call
      return (.hashmap answer, client.put i (some ⟨header, .hashmap hm⟩))
    | _ => fun _ => none
  | .destroy i =>
    match client.handles[i]? with
    | some (some handle) => do
      containerDestroy H handle
      return (.done, client.put i none)
    | _ => fun _ => none

end Clients

/-- The functions of the C library, which the macros stand for without
`CSTRUCTURES_MEMORY_DEBUGGING`. The bytes of a block that `realloc` has not copied are given by
`junk`. -/
def plainHeap {σ : Type} (S : System σ) (junk : σ → Bytes) : HeapApi σ where
  malloc := S.malloc
  realloc p newSize := do
    let q ← S.realloc p newSize
    let s ← get
    return if q = 0 then none else some ⟨q, junk s⟩
  free := S.free

/-- The tracking functions as a heap. The bytes of a block that `realloc` has not copied are
given by `junk`. -/
def trackedHeap {σ : Type} (S : System σ) (junk : σ → Bytes) (fuel : Nat) : HeapApi (Memory σ) where
  malloc size := do
    let block ← cstructuresMalloc S fuel size
    return block.map fun block => ⟨block.addr, block.bytes⟩
  realloc p newSize := do
    let q ← cstructuresRealloc S fuel p newSize
    let c ← get
    return if q = 0 then none else some ⟨q, junk c.system⟩
  free := cstructuresFree S fuel

end CStructures
