import CStructures.Proofs.VectorBooks

/-!
# Reversal of the vector

`vector_reverse` computes the offset of the last element from `count - 1` in 32 bits. Over
whole runs it reverses every vector that has an element, and leaves the buffer of every
vector that has none.
-/

namespace CStructures
open Lib

namespace CsVector

variable {v : CsVector} {first last p : UInt64} {a b : Nat}

/-- The pointer to an element in use or to the scratch element. -/
def IsSlot (v : CsVector) (p : UInt64) : Prop :=
  ∃ i, (i < v.count.toNat ∨ i = v.capacity.toNat) ∧ v.PointsTo p i

/-- `vector_reverse` ends, touches nothing but its slots, which lie in the buffer, and reverses
the stored list. -/
structure Reverses (v : CsVector) : Prop where
  ends : ∃ passes, (reverseWithin v passes).val = some (vectorReverse v)
  slots : ∀ passes, ∀ p ∈ (reverseWithin v passes).log, v.IsSlot p
  inside : ∀ passes, ∀ p ∈ (reverseWithin v passes).log, ∃ d ∈ v.data, p.toNat + v.elementSize.toNat ≤ d.size
  count : (vectorReverse v).count = v.count
  capacity : (vectorReverse v).capacity = v.capacity
  reversed : (vectorReverse v).toList = v.toList.reverse
  restored : (vectorReverse (vectorReverse v)).toList = v.toList

/-- Every pass of the loop touches two elements and the scratch element. -/
lemma reverseLoop_slots (h : v.Sound) (passes : Nat) (hab : a + b + 1 = v.count.toNat) (hle : a ≤ b + 1)
    (hfirst : v.PointsTo first a) (hlast : v.PointsTo last b) (m : Bytes) :
    ∀ p ∈ (reverseLoop v passes first last m).log, v.IsSlot p := by
  have hcap := h.count_le
  induction passes generalizing a b first last m with
  | zero => simp [reverseLoop]
  | succ passes ih =>
    have hlt := h.first_lt_last (a := a) (b := b) (by omega) (by omega) hfirst hlast
    unfold reverseLoop
    split_ifs with hends
    · rw [hlt] at hends
      have hslotFirst : v.IsSlot first := ⟨a, Or.inl (by omega), hfirst⟩
      have hslotLast : v.IsSlot last := ⟨b, Or.inl (by omega), hlast⟩
      have hslotTmp : v.IsSlot (vectorGetScratchElement v) := ⟨_, Or.inr rfl, h.pointsTo_scratch⟩
      have hrest := ih (by omega) (by omega) (hfirst.succ (h.offset_lt (by omega))) (hlast.pred (by omega))
      simp only [memcpyElement, Logged.log_bind, Logged.log_tell, Logged.log_pure, Logged.val_bind,
        Logged.val_pure, List.append_nil, List.cons_append, List.nil_append, List.forall_mem_cons]
      exact ⟨hslotFirst, hslotTmp, hslotLast, hslotFirst, hslotTmp, hslotLast, hrest _⟩
    · simp

lemma log_reverseWithin (v : CsVector) (passes : Nat) : (reverseWithin v passes).log =
    (reverseLoop v passes 0 ((v.count - 1) * v.elementSize).toUInt64 v.bytes).log := by
  simp [reverseWithin]

lemma IsSlot.inside (hp : v.IsSlot p) (h : v.Sound) (hd : v.data.isSome) :
    ∃ d ∈ v.data, p.toNat + v.elementSize.toNat ≤ d.size := by
  obtain ⟨d, hd⟩ := Option.isSome_iff_exists.mp hd
  obtain ⟨i, hi, hp⟩ := hp
  have hcap := h.count_le
  have hbuffer := h.buffer d hd
  have hlast := stride_le v.elementSize.toNat (show i < v.capacity.toNat + 1 by omega)
  rw [← hp.offset] at hlast
  exact ⟨d, hd, hlast.trans hbuffer⟩

lemma lastOffset_of_empty (hes : 0 < v.elementSize.toNat) (hcount : v.count = 0) :
    ((v.count - 1) * v.elementSize).toUInt64.toNat = 2 ^ 32 - v.elementSize.toNat := by
  have hword := v.elementSize.toNat_lt
  rw [hcount, UInt32.toNat_toUInt64, UInt32.toNat_mul]
  change (2 ^ 32 - 1) * v.elementSize.toNat % 2 ^ 32 = _
  omega

theorem Sound.reverses (h : v.Sound) (hpos : 0 < v.count.toNat) : v.Reverses := by
  have hcap := h.count_le
  have hpred : (v.count - 1).toNat = v.count.toNat - 1 := toNat_pred hpos
  have hlast : v.PointsTo ((v.count - 1) * v.elementSize).toUInt64 (v.count.toNat - 1) := by
    rw [UInt32.mul_comm, ← hpred]
    exact pointsTo_mul (h.offset_lt (by omega))
  have hfirst : v.PointsTo 0 0 := rfl
  have hslots : ∀ passes, ∀ p ∈ (reverseWithin v passes).log, v.IsSlot p := by
    intro passes
    rw [log_reverseWithin]
    exact reverseLoop_slots h passes (by omega) (by omega) hfirst hlast v.bytes
  obtain ⟨hsound, hlist⟩ := reverse_spec h hpos
  obtain ⟨m, hm⟩ := vectorReverse_eq_setBytes v
  have hcount : (vectorReverse v).count = v.count := by
    rw [hm]
    rfl
  have hcapacity : (vectorReverse v).capacity = v.capacity := by
    rw [hm]
    rfl
  refine ⟨⟨_, reverse_ends v⟩, hslots, ?_, hcount, hcapacity, hlist, ?_⟩
  · intro passes p hp
    exact (hslots passes p hp).inside h (h.isSome (by omega))
  · rw [(reverse_spec hsound (by rwa [hcount])).2, hlist, List.reverse_reverse]

/-- The first pass over an empty vector reads behind the buffer. -/
theorem Sound.not_reverses (h : v.Sound) (hcount : v.count = 0) : ¬v.Reverses := by
  intro hrev
  have hword := v.elementSize.toNat_lt
  have hes := h.elementSize_pos
  have hoff := lastOffset_of_empty hes hcount
  set last := ((v.count - 1) * v.elementSize).toUInt64 with hlast
  have hends : (0 : UInt64).toInt64 < last.toInt64 := by
    rw [toInt64_lt_iff (by decide) (by rw [hoff]; omega), hoff]
    change 0 < _
    omega
  have hmem : last ∈ (reverseWithin v 1).log := by
    rw [log_reverseWithin, ← hlast, reverseLoop, if_pos hends]
    simp [memcpyElement]
  obtain ⟨i, hi, hp⟩ := hrev.slots 1 last hmem
  have hfits := h.fits
  rw [hcount] at hi
  rcases hi with hi | rfl
  · exact Nat.not_lt_zero i hi
  · rw [PointsTo, hoff] at hp
    rw [Nat.mul_add] at hfits
    omega

theorem Sound.reverses_iff (h : v.Sound) : v.Reverses ↔ 0 < v.count := by
  rw [UInt32.lt_iff_toNat_lt]
  constructor
  · intro hrev
    by_contra hzero
    exact h.not_reverses (UInt32.toNat_inj.mp (Nat.eq_zero_of_not_pos hzero)) hrev
  · exact h.reverses

lemma sound_of_books (h : v.books.Sound) (hes : 0 < v.elementSize.toNat) : v.Sound where
  elementSize_pos := hes
  count_le := h.count_le
  fits := by
    rw [Nat.mul_comm]
    cases hd : v.data with
    | none =>
      have hcap : v.capacity = 0 := h.unallocated.mp (Option.map_eq_none_iff.mpr hd)
      have hword := v.elementSize.toNat_lt
      rw [hcap]
      change (0 + 1) * _ < _
      omega
    | some d =>
      have hsize : d.size ∈ v.books.size := Option.map_eq_some_iff.mpr ⟨d, hd, rfl⟩
      exact (h.buffer _ hsize).trans_lt (h.requested _ hsize)
  buffer := by
    intro d hd
    rw [Nat.mul_comm]
    exact h.buffer _ (Option.map_eq_some_iff.mpr ⟨d, hd, rfl⟩)
  unallocated := by
    rw [← Option.map_eq_none_iff]
    exact h.unallocated

lemma eraseIndex_books (hpos : 0 < v.count.toNat) (index : Int64) :
    (vectorEraseIndex v index).books = { v.books with count := v.count - 1 } := by
  unfold vectorEraseIndex vectorPop
  rw [if_neg (toNat_ne_zero.mpr hpos)]
  split_ifs
  · rfl
  · exact (books_withCount _ _).trans (by rw [move, books_setBytes]; rfl)

lemma eraseElement_books (element : UInt64) :
    (vectorEraseElement v element).books = { v.books with count := v.count - 1 } := by
  unfold vectorEraseElement
  dsimp only
  rw [books_withCount]
  split_ifs
  · rw [move, books_setBytes]
    rfl
  · rfl

lemma books_pred_sound (h : v.books.Sound) (hpos : 0 < v.count.toNat) :
    Books.Sound { v.books with count := v.count - 1 } := by
  have hle : v.count.toNat ≤ v.capacity.toNat := h.count_le
  apply h.withCount
  rw [toNat_pred hpos]
  change _ ≤ v.capacity.toNat
  omega

theorem call_sound (h : v.books.Sound) {call : VectorCall} (hfits : call.Fits v) (haff : call.Affordable v)
    (answer : AllocAnswer) : (vectorCall v answer call).2.books.Sound := by
  by_cases hres : call.Resizes
  · exact (call_books h hres answer).sound haff
  · cases call with
    | back => exact h
    | findElement value => exact h
    | eraseIndex index =>
      obtain ⟨h0, hlt⟩ := hfits
      have hpos : 0 < v.count.toNat := (Nat.zero_le _).trans_lt (position_lt h0 hlt)
      change (vectorEraseIndex v index).books.Sound
      rw [eraseIndex_books hpos]
      exact books_pred_sound h hpos
    | eraseElement element =>
      obtain ⟨k, hk, _⟩ := hfits
      change (vectorEraseElement v element).books.Sound
      rw [eraseElement_books]
      exact books_pred_sound h (by omega)
    | clearCompact =>
      refine ⟨⟨le_rfl, ?_⟩, ?_, ⟨fun _ => rfl, fun _ => rfl⟩⟩ <;> rintro _ ⟨⟩
    | reverse =>
      obtain ⟨m, hm⟩ := vectorReverse_eq_setBytes v
      change (vectorReverse v).books.Sound
      rw [hm, books_setBytes]
      exact h
    | _ => exact absurd trivial hres

/-- One call within the assertions of the functions, with any answer of the allocator and any
bytes in the buffers. -/
def CallStep (store : VectorStore) (l : StoreCall × VectorAnswer) (store' : VectorStore) : Prop :=
  ∃ store₁ answer, (∀ i, ∃ m, store₁ i = (store i).setBytes m) ∧ l.1.Fits store₁ ∧
    l.1.Affordable store₁ ∧ storeCall store₁ answer l.1 = (l.2, store')

variable {elementSize : Nat → UInt32} {store store' : VectorStore} {ls : List (StoreCall × VectorAnswer)}

/-- The books of all vectors are in order, and no vector has changed the size of its elements. -/
def Ordered (elementSize : Nat → UInt32) (store : VectorStore) : Prop :=
  ∀ i, (store i).books.Sound ∧ (store i).elementSize = elementSize i

lemma ordered_update (h : Ordered elementSize store) {i : Nat} (hv : v.books.Sound)
    (hes : v.elementSize = elementSize i) : Ordered elementSize (Function.update store i v) := by
  intro j
  by_cases hij : j = i
  · rw [hij, Function.update_self]
    exact ⟨hv, hes⟩
  · rw [Function.update_of_ne hij]
    exact h j

lemma CallStep.ordered (h : Ordered elementSize store) {l : StoreCall × VectorAnswer}
    (hstep : CallStep store l store') : Ordered elementSize store' := by
  obtain ⟨store₁, answer, hbytes, hfits, haff, hval⟩ := hstep
  have h₁ : Ordered elementSize store₁ := by
    intro i
    obtain ⟨m, hm⟩ := hbytes i
    rw [hm, books_setBytes]
    exact h i
  have hstore : store' = (storeCall store₁ answer l.1).2 := (congrArg Prod.snd hval).symm
  obtain ⟨call, result⟩ := l
  cases call with
  | on i call =>
    rw [hstore]
    exact ordered_update h₁ (call_sound (h₁ i).1 hfits haff answer)
      ((vectorCall_elementSize _ answer call).trans (h₁ i).2)
  | pushVector i j =>
    have hsound : ∀ k, ((vectorPushVector store₁ i j answer).2 k).books.Sound :=
      (@storeCall_books store₁ (fun k => (h₁ k).1) (.pushVector i j) trivial answer).2 haff
    rw [hstore]
    exact fun k => ⟨hsound k, (pushVector_elementSize store₁ i j k answer).trans (h₁ k).2⟩

lemma ordered_init : Ordered elementSize fun i => vectorInit (elementSize i) := by
  intro i
  refine ⟨⟨⟨le_rfl, ?_⟩, ?_, ⟨fun _ => rfl, fun _ => rfl⟩⟩, rfl⟩ <;> rintro _ ⟨⟩

lemma sound_of_run (hpos : ∀ i, 0 < elementSize i)
    (hrun : Run CallStep (fun i => vectorInit (elementSize i)) ls store) (i : Nat) : (store i).Sound := by
  obtain ⟨hbooks, hes⟩ := hrun.invariant (Ordered elementSize) (fun _ _ _ h hstep => hstep.ordered h)
    ordered_init i
  apply sound_of_books hbooks
  rw [hes]
  exact UInt32.lt_iff_toNat_lt.mp (hpos i)

end CsVector

/-- Over every run of affordable calls from `vector_init`, with any answers of the allocator,
`vector_reverse` reverses a vector exactly when it has an element. -/
theorem vector_reverses_nonempty {elementSize : Nat → UInt32} (hpos : ∀ i, 0 < elementSize i)
    {ls : List (StoreCall × VectorAnswer)} {store : VectorStore}
    (hrun : Run CsVector.CallStep (fun i => vectorInit (elementSize i)) ls store) (i : Nat) :
    (store i).Reverses ↔ 0 < (store i).count :=
  (CsVector.sound_of_run hpos hrun i).reverses_iff

theorem vector_reverses_nonempty_two : ∃ store : VectorStore,
    Run CsVector.CallStep (fun _ => vectorInit 2)
      [(.on 0 (.push [1, 2]), .status 0), (.on 0 (.push [3, 4]), .status 0)] store ∧
    ((store 0).Reverses ↔ 0 < (store 0).count) := by
  have hrun : ∃ store : VectorStore, Run CsVector.CallStep (fun _ => vectorInit 2)
      [(.on 0 (.push [1, 2]), .status 0), (.on 0 (.push [3, 4]), .status 0)] store := by
    refine ⟨_, .cons ⟨_, some ⟨16, fun _ => 0⟩, fun i => ⟨_, (CsVector.setBytes_bytes _).symm⟩, rfl, ?_, rfl⟩
      (.cons ⟨_, some ⟨16, fun _ => 0⟩, fun i => ⟨_, (CsVector.setBytes_bytes _).symm⟩, rfl, ?_, rfl⟩
        (.nil _))⟩
    · intro _
      exact ⟨Or.inl (by decide), (by decide : (32 + 1) * 2 < 2 ^ 32)⟩
    · intro hfull
      exact absurd hfull (by decide)
  obtain ⟨store, hrun⟩ := hrun
  exact ⟨store, hrun, vector_reverses_nonempty (fun _ => by decide) hrun 0⟩

/-- After a push and a pop, the reversal swaps the first element of the buffer with bytes nearly
2^32 behind it. -/
theorem vector_reverse_empty : ∃ store : VectorStore,
    Run CsVector.CallStep (fun _ => vectorInit 4)
      [(.on 0 (.push [1, 2, 3, 4]), .status 0), (.on 0 .pop, .element (some [1, 2, 3, 4]))] store ∧
    (reverseWithin (store 0) 1).log = [0, 128, 4294967292, 0, 128, 4294967292] ∧ ¬(store 0).Reverses := by
  have hrun : ∃ store : VectorStore, Run CsVector.CallStep (fun _ => vectorInit 4)
      [(.on 0 (.push [1, 2, 3, 4]), .status 0), (.on 0 .pop, .element (some [1, 2, 3, 4]))] store ∧
      (store 0).count = 0 ∧ (reverseWithin (store 0) 1).log = [0, 128, 4294967292, 0, 128, 4294967292] := by
    refine ⟨_, .cons ⟨_, some ⟨16, fun _ => 0⟩, fun i => ⟨_, (CsVector.setBytes_bytes _).symm⟩, rfl, ?_, rfl⟩
      (.cons ⟨_, none, fun i => ⟨_, (CsVector.setBytes_bytes _).symm⟩, trivial, trivial, rfl⟩
        (.nil _)), rfl, ?_⟩
    · intro _
      exact ⟨Or.inl (by decide), (by decide : (32 + 1) * 4 < 2 ^ 32)⟩
    · decide +kernel
  obtain ⟨store, hrun, hcount, hlog⟩ := hrun
  exact ⟨store, hrun, hlog, (CsVector.sound_of_run (fun _ => by decide) hrun 0).not_reverses hcount⟩

end CStructures
