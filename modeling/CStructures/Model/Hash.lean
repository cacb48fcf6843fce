import CStructures.Lib.Bytes
import CStructures.Lib.Loop

/-!
# Hash functions

The functions of `hash.c` on a 64-bit platform. The `len` bytes at `key` are a list.
-/

namespace CStructures
open Lib

/-- `hash32_func` -/
abbrev Hash32Func := List Byte → UInt32

def hash32JenkinsOaat : Hash32Func := fun key =>
  let hash : UInt32 := key.foldl (fun hash b =>
    let hash := hash + b.toUInt32
    let hash := hash + (hash <<< 10)
    hash ^^^ (hash >>> 6)) 0
  let hash := hash + (hash <<< 3)
  let hash := hash ^^^ (hash >>> 1)
  hash + (hash <<< 15)

/-- `hash32_jenkins_oaat` with its loop as it is written: the index is a 32-bit word, and `len`
a 64-bit one. `none` is a loop that has not ended within the fuel. -/
def hash32JenkinsOaatWithin (fuel : Nat) (key : Bytes) (len : UInt64) : Option UInt32 := do
  let hash ← loop (fun s : UInt32 × UInt32 => if s.2.toUInt64 = len then some s.1 else none)
    (fun s =>
      let hash := s.1 + (key s.2.toNat).toUInt32
      let hash := hash + (hash <<< 10)
      (hash ^^^ (hash >>> 6), s.2 + 1)) fuel (0, 0)
  let hash := hash + (hash <<< 3)
  let hash := hash ^^^ (hash >>> 1)
  return hash + (hash <<< 15)

def hash32Combine (lhs rhs : UInt32) : UInt32 :=
  lhs ^^^ (rhs + (0x9e3779b9 : UInt32) + (lhs <<< (6 : UInt32)) + (lhs >>> (2 : UInt32)))

/-- The eight bytes at `ptr` are a pointer, which is hashed by its two halves. -/
def hash32Ptr : Hash32Func := fun ptr =>
  let p := UInt64.ofNat (ofLe ptr)
  hash32Combine (p &&& 0xFFFFFFFF).toUInt32 (p >>> 32).toUInt32

end CStructures
