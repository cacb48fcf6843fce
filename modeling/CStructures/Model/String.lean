import CStructures.Lib.Logged
import CStructures.Model.Vector

/-!
# The string

`string.c`: a string is a vector of bytes. A stream is the list of the bytes that `fgetc` has
still to return, and EOF behind them. Each `vector_push` of a line takes its own answer of the
allocator.

`cs_stringok` works on the bytes at `data` of a string, and starts one byte before them, so
its pointers are integer offsets from `data`. Every byte that it reads or writes is logged.
-/

namespace CStructures
open Lib

structure CsString where
  buf : CsVector

def stringInit : CsString := ⟨vectorInit 1⟩

/-! ### Reading lines -/

def carriageReturn : Byte := 13
def newline : Byte := 10
def nullterm : Byte := 0

/-- The loop of `string_getline`; `pushes` counts the pushes so far. -/
def getlineFrom (answers : Nat → AllocAnswer) : Nat → CsString → List Byte → Int × CsString × List Byte
  | _, str, [] => (0, str, [])
  | pushes, str, c :: stream =>
    if c = carriageReturn then getlineFrom answers pushes str stream
    else if c = newline then
      if str.buf.count = 0 then getlineFrom answers pushes str stream
      else
        let (status, buf) := vectorPush str.buf [nullterm] (answers pushes)
        if status ≠ 0 then (-1, ⟨buf⟩, stream) else (1, ⟨buf⟩, stream)
    else
      let (status, buf) := vectorPush str.buf [c] (answers pushes)
      if status ≠ 0 then (-1, ⟨buf⟩, stream) else getlineFrom answers (pushes + 1) ⟨buf⟩ stream

/-- The value returned, the string, and what is left of the stream. -/
def stringGetline (str : CsString) (answers : Nat → AllocAnswer) (stream : List Byte) :
    Int × CsString × List Byte :=
  getlineFrom answers 0 ⟨vectorClear str.buf⟩ stream

/-- Call `string_getline` until it returns 0, and keep the string as it is after each return
of 1; `none` when it has not returned 0 after `calls` calls, or has failed. -/
def getlines (answers : Nat → Nat → AllocAnswer) : Nat → CsString → List Byte → Option (List CsString)
  | 0, _, _ => none
  | calls + 1, str, stream =>
    let (ret, str, stream) := stringGetline str (answers calls) stream
    if ret = 1 then (getlines answers calls str stream).map (str :: ·)
    else if ret = 0 then some []
    else none

/-! ### Tokens -/

inductive CharAccess
  | read (off : Int)
  | write (off : Int)
  deriving DecidableEq, Repr

def readChar (bytes : Bytes) (off : Int) : Logged CharAccess Byte := do
  .tell (.read off)
  return bytes off.toNat

def writeChar (bytes : Bytes) (off : Int) (c : Byte) : Logged CharAccess Bytes := do
  .tell (.write off)
  return memcpy bytes off.toNat [c]

/-- `strchr(s, c)` from offset `off`; a search that has not ended within the fuel gives `none`. -/
def strchr (bytes : Bytes) (c : Byte) : Nat → Int → Logged CharAccess (Option (Option Int))
  | 0, _ => return none
  | fuel + 1, off => do
    let b ← readChar bytes off
    if b = c then return some (some off)
    else if b = 0 then return some none
    else strchr bytes c fuel (off + 1)

/-- The bytes at `data` and `*saveptr`, where `none` is NULL. -/
structure TokState where
  bytes : Bytes
  saveptr : Option Int

/-- `str` tells whether the string is passed, or NULL. The result is the pointer returned. -/
def csStringok (fuel : Nat) (str : Bool) (delimiter : Byte) (s : TokState) :
    Logged CharAccess (Option (Option Int × TokState)) :=
  let saveptr := if str then some (-1) else s.saveptr
  match saveptr with
  | none => return some (none, { s with saveptr := none })
  | some saved => do
    let beginPtr := saved + 1
    match ← strchr s.bytes delimiter fuel beginPtr with
    | none => return none
    | some none =>
      let first ← readChar s.bytes beginPtr
      let s := { s with saveptr := none }
      if first = 0 then return some (none, s) else return some (some beginPtr, s)
    | some (some endPtr) =>
      let bytes ← writeChar s.bytes endPtr 0
      let first ← readChar bytes beginPtr
      let s := { bytes := bytes, saveptr := some endPtr }
      if first = 0 then return some (none, s) else return some (some beginPtr, s)

/-- Call `cs_stringok` until it returns NULL: the pointers before, and the bytes at the end. -/
def tokensUntilNull (fuel : Nat) (delimiter : Byte) :
    Nat → Bool → TokState → Logged CharAccess (Option (List Int × TokState))
  | 0, _, _ => return none
  | calls + 1, str, s => do
    match ← csStringok fuel str delimiter s with
    | none => return none
    | some (none, s) => return some ([], s)
    | some (some token, s) =>
      match ← tokensUntilNull fuel delimiter calls false s with
      | none => return none
      | some (tokens, s) => return some (token :: tokens, s)

/-- Call `cs_stringok` until `*saveptr` is NULL: everything it has returned, and the bytes at the
end. -/
def tokensUntilSaved (fuel : Nat) (delimiter : Byte) :
    Nat → Bool → TokState → Logged CharAccess (Option (List (Option Int) × TokState))
  | 0, _, _ => return none
  | calls + 1, str, s => do
    match ← csStringok fuel str delimiter s with
    | none => return none
    | some (token, s) =>
      if s.saveptr = none then return some ([token], s)
      else
        match ← tokensUntilSaved fuel delimiter calls false s with
        | none => return none
        | some (tokens, s) => return some (token :: tokens, s)

end CStructures
