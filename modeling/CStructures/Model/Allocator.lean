import CStructures.Lib.Bytes
import Mathlib.Data.Option.Basic

/-!
# Heap blocks and the allocator

`MALLOC`, `REALLOC` and `FREE` are macros for the functions of the C library or for the
tracking functions of `memory.c`, so the containers are modelled over an allocator that
they are given.
-/

namespace CStructures
open Lib

/-- A block of the heap: its address, the number of bytes requested for it, and its
contents. The bytes at offsets from `size` on belong to others and are arbitrary. -/
structure Block where
  addr : UInt64
  size : Nat
  bytes : Bytes

/-- What an allocator grants: an address, and whatever bytes lie there. -/
structure Grant where
  addr : UInt64
  junk : Bytes

/-- The answer to one request; `none` is NULL. -/
abbrev AllocAnswer := Option Grant

def mallocBlock (n : Nat) (g : Grant) : Block := ⟨g.addr, n, g.junk⟩

/-- The block after `realloc`: the bytes that fit in both sizes are kept. -/
def reallocBlock (b : Block) (n : Nat) (g : Grant) : Block :=
  ⟨g.addr, n, fun i => if i < min b.size n then b.bytes i else g.junk i⟩

/-! ### Buffers of the same size -/

section SameSize

variable {data data' : Option Block}

/-- What holds of the size of a buffer holds of a buffer of the same size. -/
lemma forall_size_of_sameSize {P : Nat → Prop} (hsize : data'.map Block.size = data.map Block.size)
    (h : ∀ d ∈ data, P d.size) : ∀ d ∈ data', P d.size := by
  rw [← Option.forall_mem_map (p := P)] at h ⊢
  rwa [hsize]

lemma eq_none_of_sameSize (hsize : data'.map Block.size = data.map Block.size) : data' = none ↔ data = none := by
  rw [← Option.map_eq_none_iff, hsize, Option.map_eq_none_iff]

end SameSize

lemma slice_reallocBlock {b : Block} {n off len : Nat} {g : Grant} (hb : off + len ≤ b.size)
    (hn : off + len ≤ n) : slice (reallocBlock b n g).bytes off len = slice b.bytes off len :=
  slice_congr fun _ _ => if_pos (by omega)

/-- `MALLOC` and `FREE` over a state `σ`. An allocator that is itself built on a table may
fail to return, which is `none`. -/
structure Allocator (σ : Type) where
  malloc : UInt64 → StateT σ Option (Option Block)
  free : UInt64 → StateT σ Option Unit

/-- No request of this allocator is answered by NULL. -/
def Allocator.NeverFails {σ : Type} (A : Allocator σ) : Prop :=
  ∀ n s r s', A.malloc n s = some (r, s') → r.isSome

/-- Every request is granted, and every call returns. -/
structure Allocator.Grants {σ : Type} (A : Allocator σ) : Prop where
  malloc : ∀ n s, ∃ b s', A.malloc n s = some (some b, s')
  free : ∀ addr s, ∃ s', A.free addr s = some ((), s')

lemma Allocator.Grants.neverFails {σ : Type} {A : Allocator σ} (h : A.Grants) : A.NeverFails := by
  intro n s r s' hr
  obtain ⟨b, s1, hb⟩ := h.malloc n s
  rw [hb, Option.some.injEq, Prod.mk.injEq] at hr
  rw [← hr.1]
  rfl

end CStructures
