import CStructures.Proofs.VectorRefinement

/-!
# The bookkeeping of the vector

The number of bytes that are requested for a buffer is computed in 32 bits. It covers the
recorded capacity exactly as long as no such product wraps.
-/

namespace CStructures
open Lib

/-- The recorded sizes of a vector, and the number of bytes last requested for its buffer. -/
structure Books where
  capacity : UInt32
  count : UInt32
  elementSize : UInt32
  size : Option Nat

namespace Books

/-- The buffer is as large as the books say: it has room for the elements and the scratch
element. -/
structure Backed (b : Books) : Prop where
  count_le : b.count.toNat ≤ b.capacity.toNat
  buffer : ∀ n ∈ b.size, (b.capacity.toNat + 1) * b.elementSize.toNat ≤ n

structure Sound (b : Books) : Prop extends Backed b where
  requested : ∀ n ∈ b.size, n < 2 ^ 32
  unallocated : b.size = none ↔ b.capacity = 0

/-- The bytes requested for a capacity, in 32 bits. -/
def request (b : Books) (cap : UInt32) : Nat := ((cap + 1) * b.elementSize).toNat

def reallocCapacity (b : Books) (n : UInt32) : UInt32 :=
  if b.size.isNone ∧ n = 0 then vecMinCapacity else n

def withRequest (b : Books) (cap : UInt32) : Books :=
  { b with capacity := cap, size := some (b.request cap) }

/-- The size of a buffer for `cap` elements does not wrap. -/
def Covers (b : Books) (cap : UInt32) : Prop := (cap.toNat + 1) * b.elementSize.toNat < 2 ^ 32

variable {b b' : Books} {cap n : UInt32}

lemma reallocCapacity_of_ne_zero (hn : n ≠ 0) : b.reallocCapacity n = n := if_neg fun h => hn h.2

lemma reallocCapacity_of_lt (hlt : cap < n) : b.reallocCapacity n = n :=
  reallocCapacity_of_ne_zero (UInt32.ne_of_lt (UInt32.lt_of_le_of_lt UInt32.zero_le hlt)).symm

lemma reallocCapacity_of_isSome (hsize : b.size.isSome) (n : UInt32) : b.reallocCapacity n = n := by
  unfold reallocCapacity
  rw [← Option.not_isSome, hsize]
  exact if_neg fun h => Bool.false_ne_true h.1

lemma le_request_iff : (cap.toNat + 1) * b.elementSize.toNat ≤ b.request cap ↔ b.Covers cap := by
  have hlt : b.request cap < 2 ^ 32 := ((cap + 1) * b.elementSize).toNat_lt
  constructor
  · intro h
    exact lt_of_le_of_lt h hlt
  · intro h
    unfold Covers at h
    by_cases hzero : b.elementSize.toNat = 0
    · rw [hzero, Nat.mul_zero]
      exact Nat.zero_le _
    · have hle : cap.toNat + 1 ≤ (cap.toNat + 1) * b.elementSize.toNat :=
        Nat.le_mul_of_pos_right _ (by omega)
      have hsucc : (cap + 1).toNat = cap.toNat + 1 := by
        rw [UInt32.toNat_add]
        change (cap.toNat + 1) % 2 ^ 32 = _
        omega
      rw [request, UInt32.toNat_mul, hsucc, Nat.mod_eq_of_lt h]

lemma withRequest_backed : (b.withRequest cap).Backed ↔ b.count.toNat ≤ cap.toNat ∧ b.Covers cap := by
  rw [← le_request_iff]
  constructor
  · intro h
    exact ⟨h.count_le, h.buffer _ rfl⟩
  · rintro ⟨hcount, hle⟩
    refine ⟨hcount, ?_⟩
    rintro _ ⟨⟩
    exact hle

lemma Sound.of_backed (hb : (b.withRequest cap).Backed) (hcap : cap ≠ 0) : (b.withRequest cap).Sound where
  toBacked := hb
  requested := by
    rintro _ ⟨⟩
    exact ((cap + 1) * b.elementSize).toNat_lt
  unallocated := by
    constructor
    · intro h
      cases h
    · intro h
      exact absurd h hcap

lemma Sound.withCount (h : b.Sound) (hn : n.toNat ≤ b.capacity.toNat) : Sound { b with count := n } where
  count_le := hn
  buffer := h.buffer
  requested := h.requested
  unallocated := h.unallocated

/-- A vector that is not full grows in any case. A full one needs a doubled capacity that is
larger and whose size does not wrap; where the count itself wraps to 0, it is not larger. -/
def Growable (b : Books) : Prop :=
  b.count = b.capacity → (2 * b.count.toNat < 2 ^ 32 ∨ b.count.toNat = 2 ^ 32 - 1) ∧
    b.Covers (b.reallocCapacity (b.count * vecExpandFactor))

def pushed (b : Books) : Books :=
  let b' := if b.count = b.capacity then b.withRequest (b.reallocCapacity (b.count * vecExpandFactor)) else b
  { b' with count := b.count + 1 }

lemma Sound.reallocCapacity_ne_zero (h : b.Sound) (hfull : b.count = b.capacity)
    (hcount : 2 * b.count.toNat < 2 ^ 32 ∨ b.count.toNat = 2 ^ 32 - 1) :
    b.reallocCapacity (b.count * vecExpandFactor) ≠ 0 ∧
      (b.count + 1).toNat ≤ (b.reallocCapacity (b.count * vecExpandFactor)).toNat := by
  have hdouble : (b.count * vecExpandFactor).toNat = b.count.toNat * 2 % 2 ^ 32 := UInt32.toNat_mul _ _
  have hsucc : (b.count + 1).toNat = (b.count.toNat + 1) % 2 ^ 32 := UInt32.toNat_add _ _
  have hzero : b.size = none ↔ b.count.toNat = 0 := by
    rw [h.unallocated, ← hfull, ← UInt32.toNat_inj]
    rfl
  unfold reallocCapacity
  split_ifs with hnone
  · refine ⟨by decide, ?_⟩
    have hnone' := hzero.mp (Option.isNone_iff_eq_none.mp hnone.1)
    rw [hsucc, hnone']
    decide
  · have hpos : b.count.toNat ≠ 0 := by
      intro h0
      refine hnone ⟨Option.isNone_iff_eq_none.mpr (hzero.mpr h0), ?_⟩
      apply UInt32.toNat_inj.mp
      rw [hdouble, h0]
      rfl
    rw [CsVector.toNat_ne_zero, hdouble, hsucc]
    omega

/-- A doubled capacity that is large enough shows that the doubling has not wrapped. -/
lemma Sound.double_of_le (h : b.Sound) (hfull : b.count = b.capacity)
    (hle : (b.count + 1).toNat ≤ (b.reallocCapacity (b.count * vecExpandFactor)).toNat) :
    2 * b.count.toNat < 2 ^ 32 ∨ b.count.toNat = 2 ^ 32 - 1 := by
  have hlt := b.count.toNat_lt
  have hdouble : (b.count * vecExpandFactor).toNat = b.count.toNat * 2 % 2 ^ 32 := UInt32.toNat_mul _ _
  have hsucc : (b.count + 1).toNat = (b.count.toNat + 1) % 2 ^ 32 := UInt32.toNat_add _ _
  unfold reallocCapacity at hle
  split_ifs at hle with hnone
  · have hzero : b.count.toNat = 0 := by
      rw [hfull, h.unallocated.mp (Option.isNone_iff_eq_none.mp hnone.1)]
      rfl
    omega
  · omega

/-- One more element is backed exactly when the growth is possible. -/
theorem Sound.pushed (h : b.Sound) :
    (b.pushed.Backed ↔ b.Growable) ∧ (b.Growable → b.pushed.Sound) := by
  by_cases hfull : b.count = b.capacity
  · have hval : b.pushed = { b with count := b.count + 1 }.withRequest
        (b.reallocCapacity (b.count * vecExpandFactor)) := by
      unfold Books.pushed
      rw [if_pos hfull]
      rfl
    have hiff : b.pushed.Backed ↔ b.Growable := by
      rw [hval, withRequest_backed]
      constructor
      · rintro ⟨hle, hcovers⟩ _
        exact ⟨h.double_of_le hfull hle, hcovers⟩
      · intro hgrow
        obtain ⟨hcount, hcovers⟩ := hgrow hfull
        exact ⟨(h.reallocCapacity_ne_zero hfull hcount).2, hcovers⟩
    refine ⟨hiff, fun hgrow => ?_⟩
    have hbacked := hiff.mpr hgrow
    rw [hval] at hbacked ⊢
    exact Sound.of_backed hbacked (h.reallocCapacity_ne_zero hfull (hgrow hfull).1).1
  · have hval : b.pushed = { b with count := b.count + 1 } := by
      unfold Books.pushed
      rw [if_neg hfull]
    have hle := h.count_le
    have hne := UInt32.toNat_inj.not.mpr hfull
    have hroom : b.count.toNat < b.capacity.toNat := by omega
    have hsound : b.pushed.Sound := by
      rw [hval]
      exact h.withCount (by rw [toNat_succ hroom]; omega)
    exact ⟨⟨fun _ hfull' => absurd hfull' hfull, fun _ => hsound.toBacked⟩, fun _ => hsound⟩

def reserved (b : Books) (n : UInt32) : Books := if b.capacity < n then b.withRequest n else b

theorem Sound.reserved (h : b.Sound) {count : UInt32} (hcount : b.capacity < n → count ≤ n)
    (hcount' : ¬b.capacity < n → count ≤ b.capacity) :
    (Backed { b.reserved n with count := count } ↔ (b.capacity < n → b.Covers n)) ∧
      ((b.capacity < n → b.Covers n) → Sound { b.reserved n with count := count }) := by
  unfold Books.reserved
  split_ifs with hlt
  · have hpos : n ≠ 0 := by
      have := UInt32.lt_iff_toNat_lt.mp hlt
      exact CsVector.toNat_ne_zero.mpr (by omega)
    have hval : ({ b.withRequest n with count := count } : Books) =
        Books.withRequest { b with count := count } n := rfl
    have hcount := UInt32.le_iff_toNat_le.mp (hcount hlt)
    rw [hval, withRequest_backed]
    refine ⟨⟨fun hb _ => hb.2, fun hcovers => ⟨hcount, hcovers hlt⟩⟩, fun hcovers => ?_⟩
    exact Sound.of_backed (withRequest_backed.mpr ⟨hcount, hcovers hlt⟩) hpos
  · have hsound : Sound { b with count := count } :=
      h.withCount (UInt32.le_iff_toNat_le.mp (hcount' hlt))
    exact ⟨⟨fun _ hlt' => absurd hlt' hlt, fun _ => hsound.toBacked⟩, fun _ => hsound⟩

end Books

namespace CsVector

variable {v : CsVector} {n : UInt32}

def books (v : CsVector) : Books := ⟨v.capacity, v.count, v.elementSize, v.data.map Block.size⟩

lemma books_setBytes (m : Bytes) : (v.setBytes m).books = v.books := by
  rw [books, setBytes_size]
  rfl

lemma books_withCount (v : CsVector) (n : UInt32) :
    ({ v with count := n } : CsVector).books = { v.books with count := n } := rfl

lemma books_refused (v : CsVector) (n : UInt32) : (v.refused n).books = v.books := by
  unfold refused refuseBuffer
  split_ifs <;> rfl

lemma refused_sound (h : v.books.Sound) (n : UInt32) : (v.refused n).books.Sound := by
  rwa [books_refused]

lemma realloc_books (v : CsVector) (index : Int64) (n : UInt32) (answer : AllocAnswer) :
    vectorRealloc v index n answer = (-1, v.refused n) ∨
      ∃ v', vectorRealloc v index n answer = (0, v') ∧
        v'.books = v.books.withRequest (v.books.reallocCapacity n) := by
  have hcap : v.reallocCapacity n = v.books.reallocCapacity n := by
    simp only [reallocCapacity, Books.reallocCapacity, books, Option.isNone_map]
  rcases realloc_cases v index n answer with ⟨_, hval⟩ | ⟨_, d, hval, hsize⟩
  · exact Or.inl hval
  · refine Or.inr ⟨_, hval, ?_⟩
    rw [← hcap]
    change (⟨_, _, _, some d.size⟩ : Books) = _
    rw [hsize]
    rfl

/-- A call that emplaces an element: without memory the books stay. -/
def EmplacesBooks (v : CsVector) (r : Option UInt64 × CsVector) : Prop :=
  r.1 = none ∧ r.2.books = v.books ∨ ∃ p, r.1 = some p ∧ r.2.books = v.books.pushed

lemma emplaced_books (v : CsVector) (index : Int64) (answer : AllocAnswer) {shifted : CsVector}
    (hshifted : shifted.books = v.books) (pointer : CsVector → UInt64) :
    let r := if v.count = v.capacity then vectorRealloc v index (v.count * vecExpandFactor) answer
      else (0, shifted)
    v.EmplacesBooks (if r.1 ≠ 0 then (none, r.2)
      else (some (pointer r.2), { r.2 with count := r.2.count + 1 })) := by
  have hpushed : ∀ v' : CsVector, v'.books = (if v.books.count = v.books.capacity then
      v.books.withRequest (v.books.reallocCapacity (v.books.count * vecExpandFactor)) else v.books) →
      ({ v' with count := v'.count + 1 } : CsVector).books = v.books.pushed := by
    intro v' hv'
    have hcount : v'.count = v.count := by
      change v'.books.count = v.books.count
      rw [hv']
      split_ifs <;> rfl
    rw [books_withCount, hv', hcount]
    rfl
  intro r
  by_cases hfull : v.count = v.capacity
  · have hr : r = vectorRealloc v index (v.count * vecExpandFactor) answer := if_pos hfull
    rcases realloc_books v index (v.count * vecExpandFactor) answer with hval | ⟨v', hval, hbooks⟩
    · rw [hr, hval]
      exact Or.inl ⟨rfl, books_refused v _⟩
    · rw [hr, hval]
      refine Or.inr ⟨_, rfl, hpushed v' ?_⟩
      rw [if_pos (show v.books.count = v.books.capacity from hfull)]
      exact hbooks
  · have hr : r = (0, shifted) := if_neg hfull
    rw [hr]
    refine Or.inr ⟨_, rfl, hpushed shifted ?_⟩
    rw [if_neg (show ¬v.books.count = v.books.capacity from hfull)]
    exact hshifted

lemma emplace_books (v : CsVector) (answer : AllocAnswer) : v.EmplacesBooks (vectorEmplace v answer) :=
  emplaced_books v vecInvalidIndex answer rfl fun v => (v.elementSize * v.count).toUInt64

lemma insertEmplace_books (v : CsVector) (index : Int64) (answer : AllocAnswer) :
    v.EmplacesBooks (vectorInsertEmplace v index answer) :=
  emplaced_books v index answer (books_setBytes _) fun v => (index * toIdx v.elementSize).toUInt64

lemma push_books (v : CsVector) (value : List Byte) (answer : AllocAnswer) :
    (vectorPush v value answer).2.books = v.books ∨ (vectorPush v value answer).2.books = v.books.pushed := by
  unfold vectorPush
  obtain ⟨hnone, hbooks⟩ | ⟨p, hp, hbooks⟩ := emplace_books v answer
  · rw [← Prod.eta (vectorEmplace v answer), hnone]
    exact Or.inl hbooks
  · rw [← Prod.eta (vectorEmplace v answer), hp]
    exact Or.inr ((books_setBytes _).trans hbooks)

lemma reserved_count (b : Books) (n : UInt32) : (b.reserved n).count = b.count := by
  unfold Books.reserved
  split_ifs <;> rfl

lemma reserved_books (v : CsVector) (n : UInt32) (answer : AllocAnswer) :
    let r := if v.capacity < n then vectorRealloc v vecInvalidIndex n answer else (0, v)
    r = (-1, v.refused n) ∨ ∃ v', r = (0, v') ∧ v'.books = v.books.reserved n := by
  intro r
  unfold Books.reserved
  by_cases hlt : v.capacity < n
  · have hcap : v.books.reallocCapacity n = n := Books.reallocCapacity_of_lt hlt
    have hr : r = vectorRealloc v vecInvalidIndex n answer := if_pos hlt
    rw [hr, if_pos (show v.books.capacity < n from hlt)]
    rcases realloc_books v vecInvalidIndex n answer with hval | ⟨v', hval, hbooks⟩
    · exact Or.inl hval
    · exact Or.inr ⟨v', hval, by rw [hbooks, hcap]⟩
  · rw [if_neg (show ¬v.books.capacity < n from hlt)]
    exact Or.inr ⟨v, if_neg hlt, rfl⟩

lemma reserve_books (v : CsVector) (n : UInt32) (answer : AllocAnswer) :
    vectorReserve v n answer = (-1, v.refused n) ∨
      ∃ v', vectorReserve v n answer = (0, v') ∧ v'.books = v.books.reserved n := by
  have hgrown := reserved_books v n answer
  unfold vectorReserve
  by_cases hlt : v.capacity < n
  · rw [if_pos hlt] at hgrown ⊢
    rcases hgrown with hval | ⟨v', hval, hbooks⟩
    · rw [hval]
      exact Or.inl rfl
    · rw [hval]
      exact Or.inr ⟨v', rfl, hbooks⟩
  · rw [if_neg hlt] at hgrown ⊢
    exact hgrown

lemma resize_books (v : CsVector) (n : UInt32) (answer : AllocAnswer) :
    vectorResize v n answer = (-1, v.refused n) ∨
      ∃ v', vectorResize v n answer = (0, v') ∧ v'.books = { v.books.reserved n with count := n } := by
  unfold vectorResize
  rcases reserve_books v n answer with hval | ⟨v', hval, hbooks⟩
  · rw [hval]
    exact Or.inl rfl
  · rw [hval]
    exact Or.inr ⟨_, rfl, by rw [books_withCount, hbooks]⟩

lemma pushVector_books (store : VectorStore) (i j : Nat) (answer : AllocAnswer)
    (hes : (store i).elementSize = (store j).elementSize) :
    let n := (store i).count + (store j).count
    vectorPushVector store i j answer = (-1, Function.update store i ((store i).refused n)) ∨
      ∃ v, vectorPushVector store i j answer = (0, Function.update store i v) ∧
        v.books = { (store i).books.reserved n with count := n } := by
  intro n
  unfold vectorPushVector
  rw [if_neg (not_not.mpr hes)]
  dsimp only
  rcases reserved_books (store i) n answer with hval | ⟨v, hval, hbooks⟩
  · rw [hval]
    refine Or.inl ?_
    dsimp only
    rw [if_pos (by decide)]
  · rw [hval]
    refine Or.inr ⟨_, by dsimp only; rw [if_neg (by simp), Function.update_idem], ?_⟩
    have hcount : v.count = (store i).count := by
      change v.books.count = (store i).books.count
      rw [hbooks, reserved_count]
    have hsource : (Function.update store i v j).count = (store j).count := by
      by_cases hij : j = i
      · rw [hij, Function.update_self, hcount]
      · rw [Function.update_of_ne hij]
    change ({ v.setBytes _ with count := v.count + _ } : CsVector).books = _
    rw [books_withCount, books_setBytes, hbooks, hcount, hsource]

end CsVector

/-- The calls that add, reserve or remove elements at the end, or insert them. -/
def VectorCall.Resizes : VectorCall → Prop
  | .push _ | .emplace _ | .insert _ _ | .insertEmplace _ _ | .resize _ | .reserve _ | .compact
  | .pop | .clear => True
  | _ => False

def StoreCall.Resizes : StoreCall → Prop
  | .on _ call => call.Resizes
  | .pushVector _ _ => True

/-- No size or count that the call computes for its buffer wraps. -/
def VectorCall.Affordable (v : CsVector) : VectorCall → Prop
  | .push _ | .emplace _ | .insert _ _ | .insertEmplace _ _ => v.books.Growable
  | .resize n | .reserve n => v.capacity < n → v.books.Covers n
  | _ => True

def StoreCall.Affordable (store : VectorStore) : StoreCall → Prop
  | .on vector call => call.Affordable (store vector)
  | .pushVector vector sourceVector =>
    let n := (store vector).count + (store sourceVector).count
    (store vector).elementSize = (store sourceVector).elementSize →
      (store vector).capacity < n → (store vector).books.Covers n

def VectorAnswer.Succeeded : VectorAnswer → Prop
  | .status s => s = 0
  | .element value => value.isSome
  | _ => True

namespace CsVector

variable {v : CsVector}

/-- What a call does to the books, given what it reports. -/
structure CallBooks (v v' : CsVector) (answer : VectorAnswer) (call : VectorCall) : Prop where
  backed : answer.Succeeded → (v'.books.Backed ↔ call.Affordable v)
  sound : call.Affordable v → v'.books.Sound

lemma write_pushed (h : v.books.Sound) {v' : CsVector} (hbooks : v'.books = v.books.pushed) (p : UInt64)
    (value : List Byte) : ((v'.write p value).books.Backed ↔ v.books.Growable) ∧
      (v.books.Growable → (v'.write p value).books.Sound) := by
  have hwrite : (v'.write p value).books = v.books.pushed := (books_setBytes _).trans hbooks
  rw [hwrite]
  exact h.pushed

lemma EmplacesBooks.copy (h : v.books.Sound) {r : Option UInt64 × CsVector} (hr : v.EmplacesBooks r)
    (value : List Byte) :
    ((copyEmplaced value r).1 = 0 → ((copyEmplaced value r).2.books.Backed ↔ v.books.Growable)) ∧
      (v.books.Growable → (copyEmplaced value r).2.books.Sound) := by
  obtain ⟨_, v'⟩ := r
  rcases hr with ⟨hp, hbooks⟩ | ⟨p, hp, hbooks⟩
  · cases hp
    refine ⟨fun hst => (by cases hst), fun _ => ?_⟩
    change v'.books.Sound
    rwa [hbooks]
  · cases hp
    obtain ⟨hbacked, hsound⟩ := write_pushed h hbooks p value
    exact ⟨fun _ => hbacked, hsound⟩

lemma EmplacesBooks.write (h : v.books.Sound) {r : Option UInt64 × CsVector} (hr : v.EmplacesBooks r)
    (value : List Byte) :
    ((writeEmplaced value r).1.Succeeded → ((writeEmplaced value r).2.books.Backed ↔ v.books.Growable)) ∧
      (v.books.Growable → (writeEmplaced value r).2.books.Sound) := by
  obtain ⟨_, v'⟩ := r
  rcases hr with ⟨hp, hbooks⟩ | ⟨p, hp, hbooks⟩
  · cases hp
    refine ⟨fun hst => (by cases hst), fun _ => ?_⟩
    change v'.books.Sound
    rwa [hbooks]
  · cases hp
    obtain ⟨hbacked, hsound⟩ := write_pushed h hbooks p value
    exact ⟨fun _ => hbacked, hsound⟩

lemma compact_books (h : v.books.Sound) (answer : AllocAnswer) : (vectorCompact v answer).books.Sound := by
  have hle : v.count.toNat ≤ v.capacity.toNat := h.count_le
  unfold vectorCompact
  split_ifs with hzero
  · refine ⟨⟨?_, ?_⟩, ?_, ⟨fun _ => rfl, fun _ => rfl⟩⟩
    · change v.count.toNat ≤ 0
      rw [hzero]
      exact le_rfl
    · rintro _ ⟨⟩
    · rintro _ ⟨⟩
  · have hcap : v.books.reallocCapacity v.count = v.count := Books.reallocCapacity_of_ne_zero hzero
    rcases realloc_books v vecInvalidIndex v.count answer with hval | ⟨v', hval, hbooks⟩
    · rw [hval]
      exact refused_sound h _
    · rw [hval, hbooks, hcap]
      refine Books.Sound.of_backed (Books.withRequest_backed.mpr ⟨le_rfl, ?_⟩) hzero
      have hsome : v.books.size ≠ none := by
        rw [Ne, h.unallocated]
        refine toNat_ne_zero.mpr ?_
        have := toNat_ne_zero.mp hzero
        change 0 < v.capacity.toNat
        omega
      obtain ⟨n, hn⟩ := Option.ne_none_iff_exists'.mp hsome
      calc (v.count.toNat + 1) * v.elementSize.toNat
          ≤ (v.capacity.toNat + 1) * v.elementSize.toNat := Nat.mul_le_mul_right _ (by omega)
        _ ≤ n := h.buffer n hn
        _ < 2 ^ 32 := h.requested n hn

/-- A successful call leaves a backed vector exactly when it is affordable. -/
theorem call_books (h : v.books.Sound) {call : VectorCall} (hcall : call.Resizes) (answer : AllocAnswer) :
    let r := vectorCall v answer call
    v.CallBooks r.2 r.1 call := by
  cases call with
  | push value =>
    obtain ⟨hbacked, hsound⟩ := EmplacesBooks.copy h (emplace_books v answer) value
    exact ⟨hbacked, hsound⟩
  | insert index value =>
    obtain ⟨hbacked, hsound⟩ := EmplacesBooks.copy h (insertEmplace_books v index answer) value
    exact ⟨hbacked, hsound⟩
  | emplace value =>
    obtain ⟨hbacked, hsound⟩ := EmplacesBooks.write h (emplace_books v answer) value
    exact ⟨hbacked, hsound⟩
  | insertEmplace index value =>
    obtain ⟨hbacked, hsound⟩ := EmplacesBooks.write h (insertEmplace_books v index answer) value
    exact ⟨hbacked, hsound⟩
  | resize n =>
    intro r
    change CallBooks v (vectorResize v n answer).2 (.status (vectorResize v n answer).1) _
    rcases resize_books v n answer with hval | ⟨v', hval, hbooks⟩
    · rw [hval]
      exact ⟨fun hst => (by cases hst), fun _ => refused_sound h n⟩
    · rw [hval]
      obtain ⟨hbacked, hsound⟩ := @Books.Sound.reserved v.books n h n (fun _ => le_rfl) (fun hlt => not_lt.mp hlt)
      exact ⟨fun _ => by rw [hbooks]; exact hbacked, fun haff => by rw [hbooks]; exact hsound haff⟩
  | reserve n =>
    intro r
    change CallBooks v (vectorReserve v n answer).2 (.status (vectorReserve v n answer).1) _
    rcases reserve_books v n answer with hval | ⟨v', hval, hbooks⟩
    · rw [hval]
      exact ⟨fun hst => (by cases hst), fun _ => refused_sound h n⟩
    · rw [hval]
      have hcount := UInt32.le_iff_toNat_le.mpr h.count_le
      obtain ⟨hbacked, hsound⟩ := @Books.Sound.reserved v.books n h v.count
        (fun hlt => hcount.trans hlt.le) (fun _ => hcount)
      have hsame : ({ v.books.reserved n with count := v.count } : Books) = v.books.reserved n := by
        have := reserved_count v.books n
        change (v.books.reserved n).count = v.count at this
        rw [← this]
      rw [hsame] at hbacked hsound
      exact ⟨fun _ => by rw [hbooks]; exact hbacked, fun haff => by rw [hbooks]; exact hsound haff⟩
  | compact =>
    intro r
    have hsound := compact_books h answer
    exact ⟨fun _ => ⟨fun _ => trivial, fun _ => hsound.toBacked⟩, fun _ => hsound⟩
  | pop =>
    intro r
    have hsound : (vectorPop v).2.books.Sound := by
      unfold vectorPop
      split_ifs with hzero
      · exact h
      · have hle : v.count.toNat ≤ v.capacity.toNat := h.count_le
        have hpred : (v.count - 1).toNat = v.count.toNat - 1 := toNat_pred (toNat_ne_zero.mp hzero)
        exact h.withCount (by rw [hpred]; change _ ≤ v.capacity.toNat; omega)
    exact ⟨fun _ => ⟨fun _ => trivial, fun _ => hsound.toBacked⟩, fun _ => hsound⟩
  | clear =>
    intro r
    have hsound : (vectorClear v).books.Sound := h.withCount (Nat.zero_le _)
    exact ⟨fun _ => ⟨fun _ => trivial, fun _ => hsound.toBacked⟩, fun _ => hsound⟩
  | _ => exact False.elim hcall

lemma forall_update {store : VectorStore} {i : Nat} {v : CsVector} {P : CsVector → Prop}
    (h : ∀ j, P (store j)) : (∀ j, P (Function.update store i v j)) ↔ P v := by
  constructor
  · intro hall
    have := hall i
    rwa [Function.update_self] at this
  · intro hv j
    by_cases hij : j = i
    · rwa [hij, Function.update_self]
    · rw [Function.update_of_ne hij]
      exact h j

theorem storeCall_books {store : VectorStore} (h : ∀ i, (store i).books.Sound) {call : StoreCall}
    (hcall : call.Resizes) (answer : AllocAnswer) :
    let r := storeCall store answer call
    (r.1.Succeeded → ((∀ i, (r.2 i).books.Backed) ↔ call.Affordable store)) ∧
      (call.Affordable store → ∀ i, (r.2 i).books.Sound) := by
  have hbacked : ∀ i, (store i).books.Backed := fun i => (h i).toBacked
  cases call with
  | on i call =>
    have hbooks := call_books (h i) hcall answer
    refine ⟨fun hst => ?_, fun haff => ?_⟩
    · exact (@forall_update store i _ (fun v => v.books.Backed) hbacked).trans (hbooks.backed hst)
    · exact (@forall_update store i _ (fun v => v.books.Sound) h).mpr (hbooks.sound haff)
  | pushVector i j =>
    intro r
    change (VectorAnswer.Succeeded (.status (vectorPushVector store i j answer).1) →
        ((∀ k, ((vectorPushVector store i j answer).2 k).books.Backed) ↔ _)) ∧
      (_ → ∀ k, ((vectorPushVector store i j answer).2 k).books.Sound)
    by_cases hes : (store i).elementSize = (store j).elementSize
    · rcases pushVector_books store i j answer hes with hval | ⟨v, hval, hbooks⟩
      · rw [hval]
        refine ⟨fun hst => (by cases hst), fun _ => ?_⟩
        exact (@forall_update store i _ (fun v => v.books.Sound) h).mpr (refused_sound (h i) _)
      · rw [hval]
        obtain ⟨hiff, hsound⟩ := @Books.Sound.reserved (store i).books
          ((store i).count + (store j).count) (h i) ((store i).count + (store j).count)
          (fun _ => le_rfl) (fun hlt => not_lt.mp hlt)
        rw [← hbooks] at hiff hsound
        refine ⟨fun _ => ?_, fun haff => ?_⟩
        · rw [@forall_update store i v (fun v => v.books.Backed) hbacked, hiff]
          exact ⟨fun hcovers _ => hcovers, fun haff => haff hes⟩
        · exact (@forall_update store i v (fun v => v.books.Sound) h).mpr (hsound (haff hes))
    · have hval : vectorPushVector store i j answer = (-2, store) := if_pos hes
      rw [hval]
      exact ⟨fun hst => (by cases hst), fun _ => h⟩

/-- One call that satisfies `P`, with any answer of the allocator and any bytes in the
buffers. -/
def BookStep (P : VectorStore → StoreCall → Prop) (store : VectorStore)
    (l : StoreCall × VectorAnswer) (store' : VectorStore) : Prop :=
  ∃ store₁ answer, (∀ i, ∃ m, store₁ i = (store i).setBytes m) ∧ l.1.Resizes ∧ P store₁ l.1 ∧
    storeCall store₁ answer l.1 = (l.2, store')

lemma BookStep.sound {store store' : VectorStore} {l : StoreCall × VectorAnswer}
    (h : ∀ i, (store i).books.Sound)
    (hstep : BookStep (fun store call => call.Affordable store) store l store') :
    ∀ i, (store' i).books.Sound := by
  obtain ⟨store₁, answer, hbytes, hcall, haff, hval⟩ := hstep
  have h₁ : ∀ i, (store₁ i).books.Sound := by
    intro i
    obtain ⟨m, hm⟩ := hbytes i
    rw [hm, books_setBytes]
    exact h i
  have hspec := (storeCall_books h₁ hcall answer).2 haff
  rwa [hval] at hspec

end CsVector

/-- Over every run from `vector_init` whose calls are affordable, with any answers of the
allocator, the count is at most the capacity and the requested bytes cover the capacity and
the scratch element. In every such state, a successful call keeps this exactly when it is
affordable. -/
theorem vector_buffer_backed {elementSize : Nat → UInt32} {ls : List (StoreCall × VectorAnswer)}
    {store : VectorStore} (hrun : Run (CsVector.BookStep fun store call => call.Affordable store)
      (fun i => vectorInit (elementSize i)) ls store) :
    (∀ i, (store i).books.Backed) ∧ ∀ call answer, call.Resizes →
      (storeCall store answer call).1.Succeeded →
      ((∀ i, ((storeCall store answer call).2 i).books.Backed) ↔ call.Affordable store) := by
  have hinit : ∀ i, (vectorInit (elementSize i)).books.Sound := by
    intro i
    refine ⟨⟨le_rfl, ?_⟩, ?_, ⟨fun _ => rfl, fun _ => rfl⟩⟩ <;> rintro _ ⟨⟩
  have hsound := hrun.invariant (fun store => ∀ i, (store i).books.Sound)
    (fun _ _ _ h hstep => CsVector.BookStep.sound h hstep) hinit
  exact ⟨fun i => (hsound i).toBacked, fun call answer hcall hst =>
    (CsVector.storeCall_books hsound hcall answer).1 hst⟩

theorem vector_buffer_backed_reserve : ∃ store : VectorStore,
    Run (CsVector.BookStep fun store call => call.Affordable store) (fun _ => vectorInit 8)
      [(.on 0 (.push [1, 2, 3, 4, 5, 6, 7, 8]), .status 0), (.on 0 (.reserve 1000), .status 0)] store ∧
    (∀ i, (store i).books.Backed) ∧ ∀ call answer, call.Resizes →
      (storeCall store answer call).1.Succeeded →
      ((∀ i, ((storeCall store answer call).2 i).books.Backed) ↔ call.Affordable store) := by
  have hrun : ∃ store : VectorStore,
      Run (CsVector.BookStep fun store call => call.Affordable store) (fun _ => vectorInit 8)
        [(.on 0 (.push [1, 2, 3, 4, 5, 6, 7, 8]), .status 0), (.on 0 (.reserve 1000), .status 0)] store := by
    refine ⟨_, .cons ⟨_, some ⟨16, fun _ => 0⟩, fun i => ⟨_, (CsVector.setBytes_bytes _).symm⟩, trivial, ?_, rfl⟩
      (.cons ⟨_, some ⟨16, fun _ => 0⟩, fun i => ⟨_, (CsVector.setBytes_bytes _).symm⟩, trivial, ?_, rfl⟩
        (.nil _))⟩
    · intro _
      exact ⟨Or.inl (by decide), (by decide : (32 + 1) * 8 < 2 ^ 32)⟩
    · intro _
      exact (by decide : (1000 + 1) * 8 < 2 ^ 32)
  obtain ⟨store, hrun⟩ := hrun
  exact ⟨store, hrun, vector_buffer_backed hrun⟩

/-- Room for 65536 elements of 65536 bytes is recorded over a buffer of 65536 bytes. -/
theorem vector_buffer_too_small : ∃ store : VectorStore,
    Run (CsVector.BookStep fun _ _ => True) (fun _ => vectorInit 65536)
      [(.on 0 (.reserve 65536), .status 0)] store ∧
    (store 0).capacity = 65536 ∧ (store 0).data.map Block.size = some 65536 ∧
    ¬(store 0).books.Backed := by
  refine ⟨_, .cons ⟨_, some ⟨16, fun _ => 0⟩, fun i => ⟨_, (CsVector.setBytes_bytes _).symm⟩, trivial,
    trivial, rfl⟩ (.nil _), rfl, rfl, fun h => ?_⟩
  have hle : (65536 + 1) * 65536 ≤ 65536 := h.buffer 65536 rfl
  omega

end CStructures
