import CStructures.Model.HashmapHeap
import CStructures.Proofs.HashmapLoad
import CStructures.Proofs.HashmapRefinement

/-!
# Failed insertions

An insertion that needs a larger table fills it by insertions, which may need a larger table in
turn. On the heap each of them keeps to the storage of its own map and to blocks that it is granted,
and gives those back when it fails.
-/

namespace CStructures
open Lib

namespace Heap

variable {heap : Heap} {b b' : Block} {addr : UInt64}

lemma put_put (h : b'.addr = b.addr) : (heap.put b).put b' = heap.put b' := by
  unfold put
  rw [h, Function.update_idem]

lemma drop_put (h : heap b.addr = none) : (heap.put b).drop b.addr = heap := by
  unfold put drop
  rw [Function.update_idem, ← h, Function.update_eq_self]

lemma put_drop : (heap.drop b.addr).put b = heap.put b := by
  unfold put drop
  rw [Function.update_idem]

lemma put_of_ne (h : addr ≠ b.addr) : heap.put b addr = heap addr := Function.update_of_ne h _ _

lemma drop_put_of_ne (h : addr ≠ b.addr) : (heap.put b).drop addr = (heap.drop addr).put b := by
  unfold put drop
  exact Function.update_comm h.symm _ _ _

end Heap

lemma Hashmap.read_header (heap : Heap) (hm : Hashmap) : hm.header.read (heap.put hm.storage) = some hm := by
  simp only [HashmapHeader.read, Hashmap.header, Heap.put, Function.update_self, Option.map_some]

lemma HashmapHeader.header_of_read {h : HashmapHeader} {heap : Heap} {hm : Hashmap} (hread : h.read heap = some hm) :
    h = hm.header ∧ heap = heap.put hm.storage := by
  obtain ⟨b, hb, rfl⟩ := Option.map_eq_some_iff.mp hread
  refine ⟨rfl, ?_⟩
  unfold Heap.put
  rw [← hb, Function.update_eq_self]

namespace OnHeap

variable {σ : Type} {A : Allocator σ} {s s' : σ} {base heap heap' : Heap} {h h' : HashmapHeader}
  {hm old new : Hashmap} {fuel : Nat} {key : List Byte} {value : Option (List Byte)} {status : HashmapStatus}

/-- The heap holds the storage of a map and, apart from it, the blocks of `base`. -/
structure Beside (base : Heap) (h : HashmapHeader) (heap : Heap) (hm : Hashmap) : Prop where
  header : h = hm.header
  apart : base hm.storage.addr = none
  heap : heap = base.put hm.storage

lemma Beside.read (hb : Beside base h heap hm) : h.read heap = some hm := by
  rw [hb.header, hb.heap, Hashmap.read_header]

lemma Beside.read_base (hb : Beside base h heap new) (hold : old.header.read base = some old) :
    old.header.read heap = some old := by
  have hne : old.storage.addr ≠ new.storage.addr := by
    intro heq
    obtain ⟨b, hlive, _⟩ := Option.map_eq_some_iff.mp hold
    have hfree := hb.apart
    rw [← heq] at hfree
    rw [Hashmap.header, hfree] at hlive
    cases hlive
  rw [hb.heap, HashmapHeader.read, Hashmap.header, Heap.put_of_ne hne]
  exact hold

lemma Beside.write (hb : Beside base h heap hm) (haddr : new.storage.addr = hm.storage.addr) :
    Beside base new.header (heap.put new.storage) new := by
  refine ⟨rfl, ?_, ?_⟩
  · rw [haddr]
    exact hb.apart
  · rw [hb.heap, Heap.put_put haddr]

lemma Beside.drop (hb : Beside base h heap hm) : heap.drop h.storage = base := by
  rw [hb.heap, hb.header]
  exact Heap.drop_put hb.apart

/-- A map has moved to a block beside its old one, which is dropped. -/
lemma Beside.moved (hb : Beside base h heap hm) (hb' : Beside heap h' heap' new) (n : UInt32) :
    Beside base { hm.header with storage := h'.storage, tableCount := n } (heap'.drop hm.storage.addr)
      { hm with storage := new.storage, tableCount := n } := by
  have hne : new.storage.addr ≠ hm.storage.addr := by
    intro heq
    have hfree := hb'.apart
    rw [heq, hb.heap, Heap.put, Function.update_self] at hfree
    cases hfree
  refine ⟨?_, ?_, ?_⟩
  · rw [hb'.header]
    rfl
  · have hfree := hb'.apart
    rwa [hb.heap, Heap.put_of_ne hne] at hfree
  · rw [hb'.heap, Heap.drop_put_of_ne hne.symm, hb.heap, Heap.drop_put hb.apart]

lemma readMap_bind {α : Type} {f : Hashmap → StateT (σ × Heap) Option α} (hread : h.read heap = some hm) :
    (readMap h >>= f) (s, heap) = f hm (s, heap) := by
  change ((h.read heap).map fun hm => (hm, s, heap)).bind (fun r => f r.1 r.2) = _
  rw [hread]
  rfl

lemma writeMap_bind {α : Type} {f : HashmapHeader → StateT (σ × Heap) Option α} :
    (writeMap hm >>= f) (s, heap) = f hm.header (s, heap.put hm.storage) := rfl

lemma return_eq_some {α : Type} {a b : α} :
    (pure a : StateT (σ × Heap) Option α) (s, heap) = some (b, s', heap') ↔ a = b ∧ s = s' ∧ heap = heap' := by
  rw [pure_eq_some, Prod.mk.injEq]

lemma return_header_eq_some {α : Type} {a b : α} :
    (pure (a, h) : StateT (σ × Heap) Option (α × HashmapHeader)) (s, heap) = some ((b, h'), s', heap') ↔
      a = b ∧ h = h' ∧ s = s' ∧ heap = heap' := by
  rw [return_eq_some, Prod.mk.injEq, and_assoc]

lemma free_eq_some {addr : UInt64} {u : Unit} :
    (heapAllocator A).free addr (s, heap) = some (u, s', heap') ↔
      A.free addr s = some ((), s') ∧ heap.drop addr = heap' := by
  change (A.free addr s).map (fun r => ((), r.2, heap.drop addr)) = _ ↔ _
  rw [Option.map_eq_some_iff]
  constructor
  · rintro ⟨⟨_, s1⟩, hfree, heq⟩
    simp only [Prod.mk.injEq] at heq
    obtain ⟨_, rfl, rfl⟩ := heq
    exact ⟨hfree, rfl⟩
  · rintro ⟨hfree, rfl⟩
    exact ⟨_, hfree, rfl⟩

lemma malloc_eq_some {n : UInt64} {r : Option Block}
    (hmalloc : (heapAllocator A).malloc n (s, heap) = some (r, s', heap')) :
    A.malloc n s = some (r, s') ∧
      ((r = none ∧ heap' = heap) ∨ ∃ b, r = some b ∧ heap b.addr = none ∧ heap' = heap.put b) := by
  change (A.malloc n s).bind _ = _ at hmalloc
  obtain ⟨⟨r', s1⟩, hgrant, hrest⟩ := Option.bind_eq_some_iff.mp hmalloc
  cases r' with
  | none =>
    simp only [Option.some.injEq, Prod.mk.injEq] at hrest
    obtain ⟨rfl, rfl, rfl⟩ := hrest
    exact ⟨hgrant, Or.inl ⟨rfl, rfl⟩⟩
  | some b =>
    dsimp only at hrest
    split_ifs at hrest with hlive
    simp only [Option.some.injEq, Prod.mk.injEq] at hrest
    obtain ⟨rfl, rfl, rfl⟩ := hrest
    exact ⟨hgrant, Or.inr ⟨b, rfl, Option.not_isSome_iff_eq_none.mp hlive, rfl⟩⟩

lemma mallocAndInitStorage_follows {keySize valueSize tableCount : UInt32} {r : Option UInt64}
    (hinit : mallocAndInitStorage A keySize valueSize tableCount (s, heap) = some (r, s', heap')) :
    ∃ r', CStructures.mallocAndInitStorage A keySize valueSize tableCount s = some (r', s') ∧
      ((r = none ∧ r' = none ∧ heap' = heap) ∨
        ∃ b, r = some b.addr ∧ r' = some b ∧ heap b.addr = none ∧ heap' = heap.put b) := by
  rw [mallocAndInitStorage, bind_eq_some] at hinit
  obtain ⟨granted, ⟨s1, heap1⟩, hmalloc, hrest⟩ := hinit
  obtain ⟨b, hb, rfl⟩ := Hashmap.mallocAndInitStorage_spec hmalloc
  obtain ⟨hgrant, ⟨rfl, rfl⟩ | ⟨b, rfl, hfree, rfl⟩⟩ := malloc_eq_some hb
  · obtain ⟨hr, rfl, rfl⟩ := return_eq_some.mp hrest
    refine ⟨none, ?_, Or.inl ⟨hr.symm, rfl, rfl⟩⟩
    rw [CStructures.mallocAndInitStorage, bind_eq_some]
    exact ⟨none, s1, hgrant, rfl⟩
  · rw [Option.map_some, bind_eq_some] at hrest
    obtain ⟨_, ⟨s2, heap2⟩, hput, hpure⟩ := hrest
    obtain ⟨hr, rfl, rfl⟩ := return_eq_some.mp hpure
    rw [modify_eq_some, Prod.mk.injEq] at hput
    obtain ⟨rfl, rfl⟩ := hput
    refine ⟨some (Hashmap.zeroedStorage b keySize tableCount), ?_,
      Or.inr ⟨_, hr.symm, rfl, hfree, Heap.put_put rfl⟩⟩
    rw [CStructures.mallocAndInitStorage, bind_eq_some]
    exact ⟨some b, s1, hgrant, rfl⟩

/-- Insertions on the heap act as insertions into the map alone, beside any other blocks. -/
def Follows
    (insert : HashmapHeader → List Byte → Option (List Byte) → StateT (σ × Heap) Option (HashmapStatus × HashmapHeader))
    (insert' : Hashmap → List Byte → Option (List Byte) → StateT σ Option (HashmapStatus × Hashmap)) : Prop :=
  ∀ (base heap heap' : Heap) (h h' : HashmapHeader) (hm : Hashmap) (key : List Byte) (value : Option (List Byte))
    (s s' : σ) (status : HashmapStatus), Beside base h heap hm →
      insert h key value (s, heap) = some ((status, h'), s', heap') →
        ∃ hm', insert' hm key value s = some ((status, hm'), s') ∧ Beside base h' heap' hm'

variable
  {insert : HashmapHeader → List Byte → Option (List Byte) → StateT (σ × Heap) Option (HashmapStatus × HashmapHeader)}
  {insert' : Hashmap → List Byte → Option (List Byte) → StateT σ Option (HashmapStatus × Hashmap)}

/-- The loop leaves the old map where it is, and when it fails also everything else. -/
theorem rehashFrom_follows (hinsert : Follows insert insert') (hold : old.header.read base = some old)
    (remaining : Nat) (i : UInt32) (hb : Beside base h heap new) {r : Option HashmapHeader}
    (hloop : rehashFrom A insert old.header remaining i h (s, heap) = some (r, s', heap')) :
    ∃ r', CStructures.rehashFrom A insert' old remaining i new s = some (r', s') ∧
      ((r = none ∧ r' = none ∧ heap' = base) ∨
        ∃ h' new', r = some h' ∧ r' = some new' ∧ Beside base h' heap' new') := by
  induction remaining generalizing i h heap new s with
  | zero =>
    obtain ⟨rfl, rfl, rfl⟩ := return_eq_some.mp hloop
    exact ⟨some new, rfl, Or.inr ⟨h, new, rfl, rfl, hb⟩⟩
  | succ remaining ih =>
    rw [rehashFrom, readMap_bind (hb.read_base hold)] at hloop
    rw [CStructures.rehashFrom]
    by_cases hfree : old.slot i = hmSlotUnused ∨ old.slot i = hmSlotRip
    · rw [if_pos hfree] at hloop ⊢
      exact ih (i + 1) hb hloop
    · rw [if_neg hfree, bind_eq_some] at hloop
      rw [if_neg hfree]
      obtain ⟨⟨status, h1⟩, ⟨s1, heap1⟩, hins, hloop⟩ := hloop
      obtain ⟨new1, hins', hb1⟩ := hinsert _ _ _ _ _ _ _ _ _ _ _ hb hins
      dsimp only at hloop
      by_cases hst : status ≠ .hmOk
      · rw [if_pos hst, bind_eq_some] at hloop
        obtain ⟨_, ⟨s2, heap2⟩, hfreed, hr⟩ := hloop
        obtain ⟨hdrop, rfl⟩ := free_eq_some.mp hfreed
        obtain ⟨rfl, rfl, rfl⟩ := return_eq_some.mp hr
        refine ⟨none, bind_eq_some.mpr ⟨_, _, hins', ?_⟩, Or.inl ⟨rfl, rfl, hb1.drop⟩⟩
        dsimp only
        rw [if_pos hst, bind_eq_some]
        rw [hb1.header] at hdrop
        exact ⟨(), s2, hdrop, rfl⟩
      · rw [if_neg hst] at hloop
        obtain ⟨r', hrest, hr⟩ := ih (i + 1) hb1 hloop
        refine ⟨r', bind_eq_some.mpr ⟨_, _, hins', ?_⟩, hr⟩
        dsimp only
        rw [if_neg hst]
        exact hrest

/-- A failed rehash has given back what it was granted, and a successful one the old storage. -/
theorem resizeRehash_follows (hinsert : Follows insert insert') (hb : Beside base h heap hm) {n : UInt32}
    {r : Option HashmapHeader} (hresize : resizeRehash A insert h n (s, heap) = some (r, s', heap')) :
    ∃ r', CStructures.resizeRehash A insert' hm n s = some (r', s') ∧
      ((r = none ∧ r' = none ∧ heap' = heap) ∨
        ∃ h' hm', r = some h' ∧ r' = some hm' ∧ Beside base h' heap' hm') := by
  rw [resizeRehash, bind_eq_some] at hresize
  obtain ⟨storage, ⟨s1, heap1⟩, hinit, hresize⟩ := hresize
  obtain ⟨storage', hinit', hr⟩ := mallocAndInitStorage_follows hinit
  obtain rfl := hb.header
  rcases hr with ⟨rfl, rfl, rfl⟩ | ⟨b, rfl, rfl, hfree, rfl⟩
  · obtain ⟨rfl, rfl, rfl⟩ := return_eq_some.mp hresize
    exact ⟨none, bind_eq_some.mpr ⟨none, s1, hinit', rfl⟩, Or.inl ⟨rfl, rfl, rfl⟩⟩
  · dsimp only at hresize
    rw [bind_eq_some] at hresize
    obtain ⟨filled, ⟨s2, heap2⟩, hloop, hresize⟩ := hresize
    have hnew : Beside heap { hm.header with tableCount := n, slotsUsed := 0, storage := b.addr } (heap.put b)
        { hm with tableCount := n, slotsUsed := 0, storage := b } := ⟨rfl, hfree, rfl⟩
    obtain ⟨filled', hloop', hr⟩ := rehashFrom_follows hinsert hb.read _ _ hnew hloop
    rcases hr with ⟨rfl, rfl, rfl⟩ | ⟨h1, new, rfl, rfl, hb1⟩
    · obtain ⟨rfl, rfl, rfl⟩ := return_eq_some.mp hresize
      refine ⟨none, bind_eq_some.mpr ⟨_, s1, hinit', ?_⟩, Or.inl ⟨rfl, rfl, rfl⟩⟩
      exact bind_eq_some.mpr ⟨none, s2, hloop', rfl⟩
    · dsimp only at hresize
      rw [bind_eq_some] at hresize
      obtain ⟨_, ⟨s3, heap3⟩, hfreed, hpure⟩ := hresize
      obtain ⟨hdrop, rfl⟩ := free_eq_some.mp hfreed
      obtain ⟨rfl, rfl, rfl⟩ := return_eq_some.mp hpure
      refine ⟨_, bind_eq_some.mpr ⟨_, s1, hinit', bind_eq_some.mpr ⟨_, s2, hloop',
        bind_eq_some.mpr ⟨(), s3, hdrop, rfl⟩⟩⟩, Or.inr ⟨_, _, rfl, rfl, ?_⟩⟩
      exact hb.moved hb1 n

lemma insertProbed_follows (hb : Beside base h heap hm)
    (hins : insertProbed fuel h key value (s, heap) = some ((status, h'), s', heap')) :
    ∃ hm', CStructures.insertProbed fuel hm key value = some (status, hm') ∧ s' = s ∧
      Beside base h' heap' hm' := by
  rw [insertProbed, readMap_bind hb.read, lift_bind_eq_some] at hins
  obtain ⟨⟨status', hm'⟩, hprobed, hwrite⟩ := hins
  dsimp only at hwrite
  rw [writeMap_bind] at hwrite
  obtain ⟨rfl, rfl, rfl, rfl⟩ := return_header_eq_some.mp hwrite
  exact ⟨hm', hprobed, rfl, hb.write (Hashmap.insertProbed_fields hprobed).2.2.2⟩

/-- The insertion on the heap is the insertion into the map, and leaves all other blocks alone. -/
theorem hashmapInsert_follows (A : Allocator σ) (fuel : Nat) :
    Follows (hashmapInsert A fuel) (CStructures.hashmapInsert A fuel) := by
  induction fuel with
  | zero =>
    intro base heap heap' h h' hm key value s s' status _ hins
    cases hins
  | succ fuel ih =>
    intro base heap heap' h h' hm key value s s' status hb hins
    have hcheck : loadCheck hm = decide (h.slotsUsed * 100 / h.tableCount ≥ hmRehashAtPercent) := by
      rw [hb.header]
      rfl
    rw [hashmapInsert] at hins
    rw [CStructures.hashmapInsert]
    by_cases hload : h.slotsUsed * 100 / h.tableCount ≥ hmRehashAtPercent
    · rw [if_pos hload, bind_eq_some] at hins
      rw [if_pos (by rw [hcheck]; exact decide_eq_true hload)]
      obtain ⟨r, ⟨s1, heap1⟩, hresize, hins⟩ := hins
      obtain ⟨r', hresize', hr⟩ := resizeRehash_follows ih hb hresize
      rw [hb.header] at hresize'
      rcases hr with ⟨rfl, rfl, rfl⟩ | ⟨h1, grown, rfl, rfl, hb1⟩
      · obtain ⟨rfl, rfl, rfl, rfl⟩ := return_header_eq_some.mp hins
        exact ⟨hm, bind_eq_some.mpr ⟨none, s1, hresize', rfl⟩, hb⟩
      · obtain ⟨hm', hprobed, rfl, hb'⟩ := insertProbed_follows hb1 hins
        exact ⟨hm', bind_eq_some.mpr ⟨_, _, hresize', lift_eq_some.mpr ⟨hprobed, rfl⟩⟩, hb'⟩
    · rw [if_neg hload] at hins
      rw [if_neg (by rw [hcheck]; simpa using hload)]
      obtain ⟨hm', hprobed, rfl, hb'⟩ := insertProbed_follows hb hins
      exact ⟨hm', lift_eq_some.mpr ⟨hprobed, rfl⟩, hb'⟩

inductive Use
  | call (call : HashmapCall)
  | forEach
  deriving DecidableEq

/-- What a use answers. The items of an iteration are the bytes that the loop body points to. -/
inductive Outcome
  | answer (answer : HashmapAnswer)
  | items (items : List (List Byte × List Byte))
  deriving DecidableEq

def visitedItem (hm : Hashmap) (v : Visit) : List Byte × List Byte :=
  (slice hm.storage.bytes v.key.toNat hm.keySize.toNat, hm.deref v.value)

def hashmapUse (A : Allocator σ) (fuel : Nat) (h : HashmapHeader) :
    Use → StateT (σ × Heap) Option (Outcome × HashmapHeader)
  | .call (.insert key value) => do
    let (status, h) ← hashmapInsert A fuel h key value
    return (.answer (.status status), h)
  | .call (.find key) => do
    let hm ← readMap h
    let found ← StateT.lift (hashmapFind fuel hm key)
    return (.answer (.value (found.map hm.deref)), h)
  | .call (.erase key) => do
    let hm ← readMap h
    let (erased, hm) ← StateT.lift (hashmapErase fuel hm key)
    let h ← writeMap hm
    return (.answer (.value (erased.map hm.deref)), h)
  | .forEach => do
    let hm ← readMap h
    return (.items ((hashmapForEach hm).map (visitedItem hm)), h)

def Acts (A : Allocator σ) (fuel : Nat) (hm : Hashmap) (s : σ) : Use × Outcome → Hashmap → σ → Prop
  | (.call call, .answer answer), hm', s' => hashmapCall A fuel (hm, s) call = some (answer, hm', s')
  | (.forEach, .items items), hm', s' => items = (hashmapForEach hm).map (visitedItem hm) ∧ hm' = hm ∧ s' = s
  | _, _, _ => False

lemma hashmapErase_addr {erased : Option UInt64} (herase : hashmapErase fuel hm key = some (erased, new)) :
    new.storage.addr = hm.storage.addr := by
  unfold hashmapErase at herase
  split at herase
  · cases herase
  · cases herase
    rfl
  · cases herase
    rfl

theorem hashmapUse_follows {use : Use} {outcome : Outcome} (hb : Beside base h heap hm)
    (huse : hashmapUse A fuel h use (s, heap) = some ((outcome, h'), s', heap')) :
    ∃ hm', Acts A fuel hm s (use, outcome) hm' s' ∧ Beside base h' heap' hm' := by
  cases use with
  | call call =>
    cases call with
    | insert key value =>
      rw [hashmapUse, bind_eq_some] at huse
      obtain ⟨⟨status, h1⟩, ⟨s1, heap1⟩, hins, hpure⟩ := huse
      obtain ⟨rfl, rfl, rfl, rfl⟩ := return_header_eq_some.mp hpure
      obtain ⟨hm', hins', hb'⟩ := hashmapInsert_follows A fuel _ _ _ _ _ _ _ _ _ _ _ hb hins
      exact ⟨hm', hashmapCall_insert.mpr ⟨status, rfl, hins'⟩, hb'⟩
    | find key =>
      rw [hashmapUse, readMap_bind hb.read, lift_bind_eq_some] at huse
      obtain ⟨found, hfind, hpure⟩ := huse
      obtain ⟨rfl, rfl, rfl, rfl⟩ := return_header_eq_some.mp hpure
      exact ⟨hm, hashmapCall_find.mpr ⟨found, rfl, rfl, hfind⟩, hb⟩
    | erase key =>
      rw [hashmapUse, readMap_bind hb.read, lift_bind_eq_some] at huse
      obtain ⟨⟨erased, hm'⟩, herase, hwrite⟩ := huse
      dsimp only at hwrite
      rw [writeMap_bind] at hwrite
      obtain ⟨rfl, rfl, rfl, rfl⟩ := return_header_eq_some.mp hwrite
      exact ⟨hm', hashmapCall_erase.mpr ⟨erased, rfl, rfl, herase⟩, hb.write (hashmapErase_addr herase)⟩
  | forEach =>
    rw [hashmapUse, readMap_bind hb.read] at huse
    obtain ⟨rfl, rfl, rfl, rfl⟩ := return_header_eq_some.mp huse
    exact ⟨hm, ⟨rfl, rfl, rfl⟩, hb⟩

lemma hashmapInsert_oom (hins : CStructures.hashmapInsert A fuel hm key value s = some ((.hmOom, new), s')) :
    new = hm := by
  cases fuel with
  | zero => cases hins
  | succ fuel =>
    rw [CStructures.hashmapInsert] at hins
    split_ifs at hins
    · obtain ⟨r, s1, _, hrest⟩ := bind_eq_some.mp hins
      cases r with
      | none => exact (congrArg Prod.snd (pure_eq_some.mp hrest).1).symm
      | some grown => exact absurd rfl (Hashmap.insertProbed_fields (lift_eq_some.mp hrest).1).1
    · exact absurd rfl (Hashmap.insertProbed_fields (lift_eq_some.mp hins).1).1

def Outcome.outOfMemory : Outcome → Bool
  | .answer (.status .hmOom) => true
  | _ => false

lemma acts_oom {use : Use} {outcome : Outcome} (hacts : Acts A fuel hm s (use, outcome) new s')
    (hoom : outcome.outOfMemory = true) : new = hm := by
  cases use with
  | call call =>
    cases outcome with
    | answer answer =>
      cases call with
      | insert key value =>
        obtain ⟨status, rfl, hins⟩ := hashmapCall_insert.mp hacts
        cases status with
        | hmOom => exact hashmapInsert_oom hins
        | _ => cases hoom
      | find key =>
        obtain ⟨r, rfl, _⟩ := hashmapCall_find.mp hacts
        cases hoom
      | erase key =>
        obtain ⟨r, rfl, _⟩ := hashmapCall_erase.mp hacts
        cases hoom
    | items items => cases hacts
  | forEach =>
    cases outcome with
    | answer answer => cases hacts
    | items items => cases hoom

/-- A map and the heap that its storage is on. -/
abbrev MapOnHeap := HashmapHeader × Heap

/-- One use that returns, whatever the allocator does. -/
def UseStep (c : MapOnHeap) (l : Use × Outcome) (c' : MapOnHeap) : Prop :=
  ∃ (σ : Type) (A : Allocator σ) (fuel : Nat) (s s' : σ),
    hashmapUse A fuel c.1 l.1 (s, c.2) = some ((l.2, c'.1), s', c'.2)

def Live (c : MapOnHeap) : Prop := ∃ hm, c.1.read c.2 = some hm

lemma Live.beside {c : MapOnHeap} (hc : Live c) : ∃ hm, Beside (c.2.drop c.1.storage) c.1 c.2 hm := by
  obtain ⟨hm, hread⟩ := hc
  obtain ⟨hheader, hheap⟩ := HashmapHeader.header_of_read hread
  refine ⟨hm, hheader, ?_, ?_⟩
  · rw [hheader]
    exact Function.update_self _ _ _
  · rw [hheader]
    exact hheap.trans Heap.put_drop.symm

/-- A use leaves a live map, and one that is out of memory leaves the same header and the same heap. -/
theorem useStep_spec {c c' : MapOnHeap} {l : Use × Outcome} (hc : Live c) (hstep : UseStep c l c') :
    Live c' ∧ (l.2.outOfMemory = true → c' = c) := by
  obtain ⟨hm, hb⟩ := hc.beside
  obtain ⟨σ, A, fuel, s, s', huse⟩ := hstep
  obtain ⟨hm', hacts, hb'⟩ := hashmapUse_follows hb huse
  refine ⟨⟨hm', hb'.read⟩, fun hoom => ?_⟩
  obtain rfl := acts_oom hacts hoom
  exact Prod.ext (hb'.header.trans hb.header.symm) (hb'.heap.trans hb.heap.symm)

lemma hashmapInitWithOptions_live {keySize valueSize tableCount : UInt32} {hash : Hash32Func}
    (hinit : hashmapInitWithOptions A keySize valueSize tableCount hash (s, heap) = some (some h, s', heap')) :
    Live (h, heap') := by
  rw [hashmapInitWithOptions, bind_eq_some] at hinit
  obtain ⟨r, ⟨s1, heap1⟩, hmalloc, hpure⟩ := hinit
  obtain ⟨_, _, ⟨rfl, _⟩ | ⟨b, rfl, _, _, rfl⟩⟩ := mallocAndInitStorage_follows hmalloc
  · cases (pure_eq_some.mp hpure).1
  · obtain ⟨hh, _, rfl⟩ := return_eq_some.mp hpure
    rw [← Option.some.inj hh]
    exact ⟨_, Hashmap.read_header heap ⟨tableCount, keySize, valueSize, 0, hash, b⟩⟩

end OnHeap

/-- In every run of insertions, searches, erasures and iterations, whichever requests for memory
fail, an insertion that answers `HM_OOM` leaves the header of the map and the whole heap as they
were. Without the failed insertions all other uses answer the same and lead to the same map. -/
theorem hashmap_failed_insert_changes_nothing {c₀ c : OnHeap.MapOnHeap} {ls : List (OnHeap.Use × OnHeap.Outcome)}
    (hlive : OnHeap.Live c₀) (hrun : Run OnHeap.UseStep c₀ ls c) :
    (∀ use outcome c', OnHeap.UseStep c (use, outcome) c' → outcome.outOfMemory = true → c' = c) ∧
      Run OnHeap.UseStep c₀ (ls.filter fun l => !l.2.outOfMemory) c := by
  have hstep := fun c l c' (hc : OnHeap.Live c) (h : OnHeap.UseStep c l c') => OnHeap.useStep_spec hc h
  constructor
  · intro use outcome c' huse hoom
    have hc := hrun.invariant OnHeap.Live (fun c l c' hc h => (hstep c l c' hc h).1) hlive
    exact (hstep c _ c' hc huse).2 hoom
  · apply hrun.filter OnHeap.Live _ _ hlive
    intro c l c' hc h
    refine ⟨(hstep c l c' hc h).1, fun hkept => (hstep c l c' hc h).2 ?_⟩
    simpa using hkept

/-- Execute a `UseStep` with an allocator that has nothing left. -/
def refusedUse (c : OnHeap.MapOnHeap) (use : OnHeap.Use) : Option (OnHeap.Outcome × OnHeap.MapOnHeap) :=
  (OnHeap.hashmapUse refusingAllocator 9 c.1 use ((), c.2)).map fun r => (r.1.1, r.1.2, r.2.2)

lemma refusedUse_step {c c' : OnHeap.MapOnHeap} {use : OnHeap.Use} {outcome : OnHeap.Outcome}
    (h : refusedUse c use = some (outcome, c')) : OnHeap.UseStep c (use, outcome) c' := by
  obtain ⟨⟨⟨o, h1⟩, s, heap⟩, huse, heq⟩ := Option.map_eq_some_iff.mp h
  simp only [Prod.mk.injEq] at heq
  obtain ⟨rfl, rfl⟩ := heq
  exact ⟨Unit, refusingAllocator, 9, (), s, huse⟩

/-- The fourth insertion into four slots needs a larger table. -/
def refusedUses : List OnHeap.Use :=
  [.call (.insert [5] (some [1])), .call (.insert [6] (some [2])), .call (.erase [5]),
    .call (.insert [7] (some [3])), .call (.insert [8] (some [4])), .call (.insert [9] (some [5])), .forEach]

/-- The iteration after the failed insertion answers as without it. -/
theorem hashmap_failed_insert_refused : ∃ c₀ c : OnHeap.MapOnHeap,
    ∃ ls : List (OnHeap.Use × OnHeap.Outcome), OnHeap.Live c₀ ∧
    (ls.filter fun l => !l.2.outOfMemory).map Prod.snd =
      [.answer (.status .hmOk), .answer (.status .hmOk), .answer (.value (some [1])), .answer (.status .hmOk),
        .answer (.status .hmOk), .items [([8], [4]), ([6], [2]), ([7], [3])]] ∧
    (ls.map Prod.snd)[5]? = some (.answer (.status .hmOom)) ∧
    Run OnHeap.UseStep c₀ (ls.filter fun l => !l.2.outOfMemory) c := by
  have hanswers : (OnHeap.hashmapInitWithOptions zeroAllocator 1 1 4 (fun key => UInt32.ofNat (ofLe key))
      ((), fun _ => none)).bind (fun r => r.1.bind fun h => (runCalls refusedUse (h, r.2.2) refusedUses).map
        fun r => r.1.map Prod.snd) = some [.answer (.status .hmOk), .answer (.status .hmOk),
          .answer (.value (some [1])), .answer (.status .hmOk), .answer (.status .hmOk),
          .answer (.status .hmOom), .items [([8], [4]), ([6], [2]), ([7], [3])]] := by decide +kernel
  obtain ⟨⟨r, _, heap⟩, hinit, hrest⟩ := Option.bind_eq_some_iff.mp hanswers
  obtain ⟨h, rfl, hcalls⟩ := Option.bind_eq_some_iff.mp hrest
  obtain ⟨ls, c, hrun, hls⟩ := Run.exists_of_runCalls (fun _ _ _ _ h => refusedUse_step h) hcalls
  have hlive := OnHeap.hashmapInitWithOptions_live hinit
  have hfilter : (ls.filter fun l => !l.2.outOfMemory).map Prod.snd =
      (ls.map Prod.snd).filter fun o => !o.outOfMemory := by
    rw [List.filter_map]
    rfl
  refine ⟨(h, heap), c, ls, hlive, ?_, ?_, (hashmap_failed_insert_changes_nothing hlive hrun).2⟩
  · rw [hfilter, hls]
    rfl
  · rw [hls]
    rfl

end CStructures
